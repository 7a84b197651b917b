import Ophelia.Domain.Reference
import Ophelia.Execution.StaticSteps

/-!
# Ophelia.Execution.StaticRecovery

The calls of a static activation, cut off anywhere and tried again. From wherever the calls
before were cut off, a call that goes through decides: an activation ends with both live files of
the candidate or both of the predecessor, a restore with both of the predecessor.
-/

namespace Ophelia

open Program StaticHost

namespace StaticBackend

/-! ### Calls -/

/-- Where the calls of one operation can be cut off. -/
def Recoverable [Platform] (b : StaticBackend) (s f : StaticFiles) : Prop :=
  Fresh s f ∨ Verified b ∧ ∃ p, Held b s p f

section Calls

variable [Platform] {b : StaticBackend} {s : StaticFiles} {p : Predecessor}
  {t : List StaticMoment} {candidate : StaticHandle}

theorem Held.recoverable (hv : Verified b) {f : StaticFiles} (h : Held b s p f) :
    Recoverable b s f := .inr ⟨hv, p, h⟩

/-- What an activation that did not go through leaves: undisturbed, the old files; with a
single exception in it, no mixture. -/
structure Settles (b : StaticBackend) (s : StaticFiles) (candidate : StaticHandle)
    (t : List StaticMoment) (f : StaticFiles) : Prop where
  calm : ¬ Struck t → Original s f
  once : Genuine b candidate → ¬ Struck (afterFault t) → Original s f ∨ CandidateLive b f

omit [Platform] in
theorem Settles.of_original {f : StaticFiles} (h : Original s f) : Settles b s candidate t f :=
  ⟨fun _ => h, fun _ _ => .inl h⟩

/-- Restoring after a fault that raised, or after a refusal of what is not `G`. -/
theorem triple_restoreAfter {G : Prop} :
    Triple (fun h => Hit t (Held b s p) h ∨ On t (fun f => Held b s p f ∧ ¬ G) h)
      (b.restorePredecessor p)
      (fun _ h => (Held b s p h.files ∧ Original s h.files) ∧ h.tape <:+ t)
      (fun _ h => Held b s p h.files ∧
        (Original s h.files ∨ Struck (afterFault t) ∨ Struck t ∧ ¬ G))
      (fun h => Held b s p h.files ∧ Crashing t) := by
  rintro h (hhit | hon)
  · -- The rest of the tape is what lies behind the fault.
    have hrun := steps_restorePredecessor (t := afterFault t) h hhit.on
    split at hrun
    · exact ⟨hrun.1, hrun.2.suffix.trans (afterFault_suffix t)⟩
    · exact ⟨hrun.1, .inr (.inl hrun.2.1)⟩
    · exact ⟨hrun.1, hrun.2.of_suffix (afterFault_suffix t)⟩
  · have hrun := steps_restorePredecessor (t := t) h (On.mono (fun _ h => h.1) hon)
    split at hrun
    · exact ⟨hrun.1, hrun.2.suffix⟩
    · exact ⟨hrun.1, .inr (.inr ⟨hrun.2.1, hon.1.2⟩)⟩
    · exact hrun

/-- The whole way back of a first activation: the files, then the traffic. -/
theorem triple_goBack {G : Prop} :
    Triple (fun h => Hit t (Held b s p) h ∨ On t (fun f => Held b s p f ∧ ¬ G) h)
      (do
        b.restorePredecessor p
        let _ ← b.commitTraffic)
      (fun _ h => Held b s p h.files ∧ Original s h.files)
      (fun _ h => Held b s p h.files ∧
        (Original s h.files ∨ Struck (afterFault t) ∨ Struck t ∧ ¬ G))
      (fun h => Held b s p h.files ∧ Crashing t) := by
  have hcommit : Triple
      (fun h : StaticHost => (Held b s p h.files ∧ Original s h.files) ∧ h.tape <:+ t)
      b.commitTraffic (fun _ h => Held b s p h.files ∧ Original s h.files)
      (fun _ h => Held b s p h.files ∧
        (Original s h.files ∨ Struck (afterFault t) ∨ Struck t ∧ ¬ G))
      (fun h => Held b s p h.files ∧ Crashing t) := by
    rintro h ⟨hI, hsuffix⟩
    have hrun := steps_commitTraffic (b := b) (t := h.tape)
      (I := fun f => Held b s p f ∧ Original s f) (fun _ h => h) h ⟨hI, Ahead.refl h⟩
    split at hrun
    · exact hrun.1
    · exact ⟨hrun.1.1, .inl hrun.1.2⟩
    · exact ⟨hrun.1.1, hrun.2.of_suffix hsuffix⟩
  exact Triple.bind triple_restoreAfter fun _ => Triple.bind hcommit fun _ =>
    Triple.pure fun _ h => h

/-- **The first activation.** It ends with the candidate live, or it says so and has gone
back. -/
theorem triple_activateFresh (hv : Verified b) {expected : Option Digest} :
    Triple (On t (Fresh s)) (b.activateFresh candidate expected)
      (fun _ h => Recoverable b s h.files ∧ CandidateLive b h.files)
      (fun _ h => Recoverable b s h.files ∧ Settles b s candidate t h.files)
      (fun h => Recoverable b s h.files ∧ Crashing t) := by
  have hfresh : ∀ f, Fresh s f → Recoverable b s f ∧ Settles b s candidate t f :=
    fun f hf => ⟨.inl hf, Settles.of_original hf.live⟩
  unfold activateFresh
  refine Triple.bind (stops_capturePredecessor.plain (fun f hf => hf.elim (hfresh f) (hfresh f))
    fun f hf => .inl hf) fun p => ?_
  refine Triple.ite (fun _ => Triple.raise fun h hh => hfresh _ hh.1.1) fun _ => ?_
  refine On.assuming fun hp => ?_
  have hheld : ∀ f, Held b s p f ∧ Original s f →
      Recoverable b s f ∧ Settles b s candidate t f :=
    fun f hf => ⟨hf.1.recoverable hv, Settles.of_original hf.2⟩
  refine Triple.bind ((stops_persistPredecessor hp).plain
    (fun f hf => hf.elim (fun hf => hf.elim (hfresh f) (hheld f)) (hfresh f))
    fun f hf => hf.elim .inl fun hf => hf.1.recoverable hv) fun _ => ?_
  have hswitch : Triple (On t (fun f => Held b s p f ∧ Original s f)) (b.switch candidate)
      (fun _ => On t (fun f => Held b s p f ∧ CandidateLive b f))
      (fun _ h => Hit t (Held b s p) h ∨
        On t (fun f => Held b s p f ∧ ¬ Genuine b candidate) h) (Cut t (Held b s p)) :=
    (stops_switch hv).conseq (fun _ h => h.1) (fun _ _ h => h) (fun _ h => h) fun _ h => h
  have hback : ∀ e : StaticFailure,
      Triple (fun h => Hit t (Held b s p) h ∨
          On t (fun f => Held b s p f ∧ ¬ Genuine b candidate) h)
        (do
          b.restorePredecessor p
          let _ ← b.commitTraffic)
        (fun _ h => Recoverable b s h.files ∧ Settles b s candidate t h.files)
        (fun _ h => Recoverable b s h.files ∧ Settles b s candidate t h.files)
        (fun h => Recoverable b s h.files ∧ Crashing t) := by
    intro e
    refine Triple.conseq triple_goBack (fun _ h => h) (fun _ h hh => hheld _ hh) ?_
      fun h hh => ⟨hh.1.recoverable hv, hh.2⟩
    rintro _ h ⟨hheld', horiginal | hafter | ⟨hstruck, hforeign⟩⟩
    · exact hheld _ ⟨hheld', horiginal⟩
    · exact ⟨hheld'.recoverable hv, fun hcalm => absurd (hafter.of_suffix (afterFault_suffix t))
        hcalm, fun _ honce => absurd hafter honce⟩
    · exact ⟨hheld'.recoverable hv, fun hcalm => absurd hstruck hcalm,
        fun hgenuine => absurd hgenuine hforeign⟩
  refine Triple.bind (Triple.cleanup (Triple.conseq hswitch (fun _ h => h) (fun _ _ h => h)
    (fun _ _ h => h) fun h hh => ⟨hh.1.recoverable hv, hh.2⟩) hback) fun evidence => ?_
  have hresult : Steps t (fun f => Held b s p f ∧ CandidateLive b f)
      (b.activationResult p.revisionDigest (some candidate.revisionDigest) evidence)
      (fun _ f => Held b s p f ∧ CandidateLive b f)
      (fun f => Held b s p f ∧ CandidateLive b f) :=
    steps_activationResult (fun f hf => hf.1.caddy_node) fun _ h => h
  refine Triple.conseq hresult (fun _ h => h) (fun _ h hh => ⟨hh.1.1.recoverable hv, hh.1.2⟩) ?_
    fun h hh => ⟨hh.1.1.recoverable hv, hh.2⟩
  rintro _ h ⟨hf, hstruck, -⟩
  exact ⟨hf.1.recoverable hv, fun hcalm => absurd hstruck hcalm, fun _ _ => .inr hf.2⟩

/-- Looking whether the candidate is live; what is raised on the way counts as no. -/
theorem triple_candidateIsActive (hd : Distinct b s.caddyLive) {digest : Digest} :
    Triple (On t (Held b s p)) (b.candidateIsActive digest)
      (fun active h => match active with
        | true => On t (fun f => Held b s p f ∧ CandidateLive b f) h
        | false => Hit t (Held b s p) h ∨ On t (fun f => Held b s p f ∧ ¬ False) h)
      (fun _ _ => False) (fun h => Held b s p h.files ∧ Crashing t) := by
  have hassert : Stops t (Held b s p) (b.assertActive digest)
      (fun _ f => Held b s p f ∧ CandidateLive b f) (Held b s p)
      (fun f => Held b s p f ∧ ¬ False) := by
    refine Stops.bind (Steps.boundary fun _ h => h).stops fun _ => ?_
    refine Stops.files fun f hf => ?_
    cases hcheck : b.activeError f digest with
    | ok u =>
        refine Stops.ret fun f' hf' => ⟨hf'.2, ?_⟩
        rw [hf'.1]
        exact hf.candidateLive hd hcheck
    | error e => exact Stops.raise fun f' hf' => ⟨hf'.2, not_false⟩
  refine Triple.handle (Triple.bind hassert fun _ => ?_) fun e => ?_
  · exact Triple.ret fun h hh => hh
  · exact Triple.ret fun h hh => hh

/-- **A later activation.** It ends with the candidate live, or it says so and has gone back. -/
theorem triple_activateRecorded (hv : Verified b) (hd : Distinct b s.caddyLive) :
    Triple (On t (Held b s p)) (b.activateRecorded candidate)
      (fun _ h => Recoverable b s h.files ∧ CandidateLive b h.files)
      (fun _ h => Recoverable b s h.files ∧ (¬ Struck t → Original s h.files))
      (fun h => Recoverable b s h.files ∧ Crashing t) := by
  have hstruck : ∀ {K : StaticFiles → Prop} (h : StaticHost), Hit t K h →
      (∀ f, K f → Held b s p f) →
      Recoverable b s h.files ∧ (¬ Struck t → Original s h.files) :=
    fun h hh hK => ⟨(hK _ hh.1).recoverable hv, fun hcalm => absurd hh.2.1 hcalm⟩
  unfold activateRecorded
  refine Triple.bind (Triple.conseq (steps_loadPredecessor (b := b) (s := s) (p := p) (t := t))
    (fun _ h => h) (fun _ _ h => h) (fun _ h hh => hstruck h hh fun _ h => h)
    fun h hh => ⟨hh.1.recoverable hv, hh.2⟩) fun p' => ?_
  refine On.assuming ?_
  rintro rfl
  refine Triple.bind (Triple.conseq (triple_candidateIsActive hd) (fun _ h => h) (fun _ _ h => h)
    (fun _ h hh => hh.elim) fun h hh => ⟨hh.1.recoverable hv, hh.2⟩) fun active => ?_
  cases active with
  | true =>
      have hresult : Steps t (fun f => Held b s p' f ∧ CandidateLive b f)
          (b.commitTraffic >>= fun evidence =>
            b.activationResult p'.revisionDigest (some candidate.revisionDigest) evidence)
          (fun _ f => Held b s p' f ∧ CandidateLive b f)
          (fun f => Held b s p' f ∧ CandidateLive b f) :=
        Steps.bind (steps_commitTraffic fun _ h => h) fun evidence =>
          steps_activationResult (fun f hf => hf.1.caddy_node) fun _ h => h
      exact Triple.conseq hresult (fun _ h => h)
        (fun _ h hh => ⟨hh.1.1.recoverable hv, hh.1.2⟩)
        (fun _ h hh => hstruck h hh fun _ h => h.1) fun h hh => ⟨hh.1.1.recoverable hv, hh.2⟩
  | false =>
      refine Triple.bind (Triple.conseq (triple_restoreAfter (b := b) (s := s) (p := p') (t := t))
        (fun _ h => h) (fun _ _ h => h) ?_ fun h hh => ⟨hh.1.recoverable hv, hh.2⟩) fun _ => ?_
      · rintro _ h ⟨hheld, horiginal | hafter | ⟨hfault, -⟩⟩
        · exact ⟨hheld.recoverable hv, fun _ => horiginal⟩
        · exact ⟨hheld.recoverable hv, fun hcalm =>
            absurd (hafter.of_suffix (afterFault_suffix t)) hcalm⟩
        · exact ⟨hheld.recoverable hv, fun hcalm => absurd hfault hcalm⟩
      · exact Triple.raise fun h hh => ⟨hh.1.1.recoverable hv, fun _ => hh.1.2⟩

/-! ### The fence -/

variable {F : Table FenceRecord.scope} {I : StaticFiles → Prop}

omit [Platform] in
/-- A place without an effect, before the fence. -/
theorem triple_boundary :
    Triple (fun h => On t I h ∧ h.fences = F) boundary (fun _ h => On t I h ∧ h.fences = F)
      (fun _ => Hit t I) (Cut t I) := by
  have hchange := triple_change (t := t) (P := fun h => I h.files ∧ h.fences = F)
    (Q := fun h => I h.files ∧ h.fences = F) (g := fun h => { h with files := id h.files })
    .osError (fun _ => rfl) (fun _ _ hP => hP) fun _ hP => hP
  refine Triple.conseq hchange (fun _ h => ⟨⟨h.1.1, h.2⟩, h.1.2⟩)
    (fun _ _ h => ⟨⟨h.1.1, h.2⟩, h.1.2⟩) (fun _ _ h => ?_) fun _ h => ?_
  · exact ⟨(or_self_iff.mp h.1).1, h.2⟩
  · exact ⟨(or_self_iff.mp h.1).1, h.2⟩

/-- The fence lets the operation in. -/
def Admitted (b : StaticBackend) (F : Table FenceRecord.scope) : Prop :=
  RuntimeFences.authorize (F.get? b.scope) b.fence = .ok ()

omit [Platform] in
theorem triple_fenced {α : Type} {body : StaticProc α} {Q : α → StaticHost → Prop}
    {E : StaticFailure → StaticHost → Prop} {C : StaticHost → Prop}
    (hbody : Triple (On t I) body Q E C) (hE : ∀ e h, Hit t I h → E e h)
    (hC : ∀ h, Cut t I h → C h) :
    Triple (fun h => On t I h ∧ h.fences = F) (b.fenced body) Q
      (fun e h => E e h ∨ ¬ Admitted b F ∧ I h.files) C := by
  rintro h ⟨hon, rfl⟩
  unfold fenced
  rw [get_bind_apply]
  cases hauthorize : RuntimeFences.authorize (h.fences.get? b.scope) b.fence with
  | error e => exact .inr ⟨fun hok => (by cases hauthorize.symm.trans hok), hon.1⟩
  | ok u =>
      have hchange := triple_change (t := t) (P := fun h => I h.files) (Q := fun h => I h.files)
        (g := fun h => { h with fences := h.fences.put b.fence })
        (.runtimeFence (.runtimeFenceRecordError
          "runtime fence record could not be persisted durably"))
        (fun _ => rfl) (fun _ _ hP => hP) fun _ hP => hP
      have hbody' : Triple (On t I) body Q (fun e h' => E e h' ∨ ¬ Admitted b h.fences ∧
          I h'.files) C := Triple.conseq hbody (fun _ h => h) (fun _ _ h => h)
        (fun _ _ h => .inl h) fun _ h => h
      exact Triple.bind (Triple.conseq hchange (fun _ h => h) (fun _ _ h => h)
        (fun e h' hh => .inl (hE e h' ⟨or_self_iff.mp hh.1, hh.2⟩))
        fun h' hh => hC h' ⟨or_self_iff.mp hh.1, hh.2⟩) (fun _ => hbody') h hon

/-! ### Whole calls -/

variable {f₀ : StaticFiles}

omit [Platform] in
theorem Fresh.hasRecord {f : StaticFiles} (h : Fresh s f) : hasRecord f = false := by
  simp [StaticBackend.hasRecord, h.predecessor]

theorem Held.hasRecord {f : StaticFiles} (h : Held b s p f) : hasRecord f = true := by
  simp [StaticBackend.hasRecord, h.predecessor]

/-- What an activation that was let in leaves when it raises. -/
structure Failed (b : StaticBackend) (s : StaticFiles) (candidate : StaticHandle)
    (t : List StaticMoment) (f₀ f : StaticFiles) : Prop where
  recoverable : Recoverable b s f
  calm : ¬ Struck t → Original s f
  first : Fresh s f₀ → Settles b s candidate t f

/-- What is raised while nothing has been switched leaves the old files. -/
theorem Fresh.failed {f : StaticFiles} (h : Fresh s f) : Failed b s candidate t f₀ f :=
  ⟨.inl h, fun _ => h.live, fun _ => Settles.of_original h.live⟩

/-- A fault before anything is done. -/
theorem Recoverable.failed (hf₀ : Recoverable b s f₀) (hstruck : Struck t) :
    Failed b s candidate t f₀ f₀ :=
  ⟨hf₀, fun hcalm => absurd hstruck hcalm, fun hfresh => Settles.of_original hfresh.live⟩

/-- A candidate that is not verified was never switched to. -/
theorem Recoverable.fresh (hf₀ : Recoverable b s f₀) (hv : ¬ Verified b) : Fresh s f₀ :=
  hf₀.resolve_right fun h => hv h.1

/-- Inside the fence of an activation. -/
theorem triple_activateBody (hv : Verified b) (hd : Distinct b s.caddyLive)
    (hf₀ : Recoverable b s f₀) {expected : Option Digest} :
    Triple (On t (· = f₀))
      (files? >>= fun files =>
        if hasRecord files then b.activateRecorded candidate
        else b.activateFresh candidate expected)
      (fun _ h => Recoverable b s h.files ∧ CandidateLive b h.files)
      (fun _ h => Failed b s candidate t f₀ h.files)
      (fun h => Recoverable b s h.files ∧ Crashing t) := by
  refine On.files ?_
  rcases hf₀ with hfresh | ⟨-, p, hheld⟩
  · rw [hfresh.hasRecord]
    exact Triple.conseq (triple_activateFresh hv) (fun _ => On.mono fun f hf => hf ▸ hfresh)
      (fun _ _ h => h) (fun _ _ h => ⟨h.1, h.2.calm, fun _ => h.2⟩) fun _ h => h
  · rw [hheld.hasRecord]
    refine Triple.conseq (triple_activateRecorded hv hd)
      (fun _ => On.mono fun f hf => hf ▸ hheld) (fun _ _ h => h) ?_ fun _ h => h
    refine fun _ h hh => ⟨hh.1, hh.2, fun hfresh => ?_⟩
    exact absurd (hfresh.hasRecord.symm.trans hheld.hasRecord) (by decide)

/-- **An activation**, from wherever the calls before were cut off. -/
theorem triple_activate (hd : Distinct b s.caddyLive) (hf₀ : Recoverable b s f₀)
    {expected : Option Digest} :
    Triple (fun h => On t (· = f₀) h ∧ h.fences = F) (b.activate candidate expected)
      (fun _ h => Recoverable b s h.files ∧ CandidateLive b h.files)
      (fun _ h => Failed b s candidate t f₀ h.files ∨ Recoverable b s h.files ∧
        ¬ (b.validateHandle candidate = .ok () ∧ Admitted b F))
      (fun h => Recoverable b s h.files ∧ Crashing t) := by
  unfold activate
  cases hhandle : b.validateHandle candidate with
  | error e =>
      refine Triple.bind (R := fun _ _ => False) (Triple.raise fun h hh => .inr ⟨?_, ?_⟩)
        fun _ _ hfalse => hfalse.elim
      · rw [hh.1.1]
        exact hf₀
      · rintro ⟨hok, -⟩
        cases hok
  | ok u =>
      rw [ofExcept_ok, ret_bind]
      refine Triple.bind (Triple.conseq triple_boundary (fun _ h => h) (fun _ _ h => h)
        (fun _ h hh => ?_) fun h hh => ?_) fun _ => ?_
      · rw [hh.1]
        exact .inl (hf₀.failed hh.2.1)
      · rw [hh.1]
        exact ⟨hf₀, hh.2⟩
      -- A refusal of the evidence leaves the files, which nothing has been switched in.
      have hrefuse : ¬ Verified b → ∀ h : StaticHost, On t (· = f₀) h ∧ h.fences = F →
          Failed b s candidate t f₀ h.files := by
        rintro hv h ⟨⟨rfl, -⟩, -⟩
        exact (hf₀.fresh hv).failed
      cases hrecord : b.readRevisionRecord with
      | error e =>
          refine Triple.bind (R := fun _ _ => False) (Triple.raise fun h hh => .inl ?_)
            fun _ _ hfalse => hfalse.elim
          refine hrefuse ?_ h hh
          rintro ⟨r, hr, -⟩
          cases hrecord.symm.trans hr
      | ok record =>
          rw [ofExcept_ok, ret_bind]
          cases hverify : b.verifyMaterialized record with
          | error e =>
              refine Triple.bind (R := fun _ _ => False) (Triple.raise fun h hh => .inl ?_)
                fun _ _ hfalse => hfalse.elim
              refine hrefuse ?_ h hh
              rintro ⟨r, hr, hcheck⟩
              cases hrecord.symm.trans hr
              cases hverify.symm.trans hcheck
          | ok u' =>
              rw [ofExcept_ok, ret_bind]
              have hv : Verified b := ⟨record, hrecord, hverify⟩
              refine Triple.conseq (triple_fenced (triple_activateBody hv hd hf₀)
                (fun e h hh => ?_) fun h hh => ?_) (fun _ h => h) (fun _ _ h => h) ?_ fun _ h => h
              · rw [hh.1]
                exact hf₀.failed hh.2.1
              · rw [hh.1]
                exact ⟨hf₀, hh.2⟩
              · rintro e h (hfailed | ⟨hdenied, rfl⟩)
                · exact .inl hfailed
                · exact .inr ⟨hf₀, fun hcalled => hdenied hcalled.2⟩

/-! ### Restoring -/

/-- The handle is that of the predecessor. -/
def Matching (b : StaticBackend) (s : StaticFiles) (previous : Option StaticHandle) : Prop :=
  ∃ p, b.captured s.caddyLive s.current = .ok p ∧
    previous.map StaticHandle.revisionDigest = p.revisionDigest

variable {previous : Option StaticHandle} {failed : StaticHandle}

theorem not_matching (hp : b.captured s.caddyLive s.current = .ok p)
    (hne : previous.map StaticHandle.revisionDigest ≠ p.revisionDigest) :
    ¬ Matching b s previous := by
  rintro ⟨p', hp', heq⟩
  cases hp.symm.trans hp'
  exact hne heq

/-- Without a record there is nothing to go back from. -/
theorem stops_restoreFresh (hfresh : Fresh s f₀) :
    Stops t (· = f₀) (b.restoreFresh previous failed) (fun _ => (· = f₀)) (· = f₀)
      (fun f => f = f₀ ∧ ¬ Matching b s previous) := by
  have hcapture : Stops t (· = f₀) b.capturePredecessor
      (fun p f => f = f₀ ∧ b.captured s.caddyLive s.current = .ok p) (· = f₀)
      (fun f => f = f₀ ∧ ¬ Matching b s previous) := by
    refine Stops.bind (Steps.boundary fun _ h => h).stops fun _ => ?_
    refine Stops.files fun f hf => ?_
    rw [hf, hfresh.live.1, hfresh.live.2]
    cases hp : b.captured s.caddyLive s.current with
    | ok p => exact Stops.ret fun f' hf' => ⟨hf'.2, rfl⟩
    | error e =>
        refine Stops.raise fun f' hf' => ⟨hf'.2, ?_⟩
        rintro ⟨p, hp', -⟩
        cases hp.symm.trans hp'
  refine Stops.bind hcapture fun p => ?_
  refine On.assuming fun hp => ?_
  split
  · rename_i hne
    exact Stops.raise fun f hf => ⟨hf, not_matching hp fun heq => hne heq.symm⟩
  · refine (Steps.bind (steps_commitTraffic fun _ h => h) fun evidence => ?_).stops
    refine steps_activationResult (fun f hf => ?_) fun _ h => h
    rw [hf, hfresh.live.1]
    rcases (describes_of_captured hp).caddy with ⟨content, hlive, -⟩ | ⟨hlive, -⟩
    · exact .inr ⟨content, hlive⟩
    · exact .inl hlive

/-- With the record, back to what it tells. -/
theorem stops_restoreRecorded :
    Stops t (Held b s p) (b.restoreRecorded previous failed)
      (fun _ f => Held b s p f ∧ Original s f) (Held b s p)
      (fun f => Held b s p f ∧ ¬ Matching b s previous) := by
  unfold restoreRecorded
  refine Stops.bind steps_loadPredecessor.stops fun p' => On.assuming ?_
  rintro rfl
  refine Stops.bind (J := fun _ => Held b s p') ?_ fun _ => Steps.stops ?_
  · cases previous with
    | none =>
        simp only
        split
        · rename_i hne
          exact Stops.raise fun f hf => ⟨hf, not_matching hf.captured fun heq => hne heq.symm⟩
        · exact Stops.ret fun f hf => hf
    | some previous =>
        simp only
        split
        · rename_i hne
          exact Stops.raise fun f hf => ⟨hf, not_matching hf.captured hne⟩
        · exact Stops.ret fun f hf => hf
  refine Steps.bind steps_restorePredecessor fun _ => ?_
  refine Steps.bind (steps_commitTraffic fun _ h => h.1) fun evidence => ?_
  exact steps_activationResult (fun f hf => hf.1.caddy_node) fun _ h => h.1

/-- What a restore leaves of the files it finds. -/
def Restored (b : StaticBackend) (s f₀ f : StaticFiles) : Prop :=
  (Fresh s f₀ ∧ f = f₀) ∨ ∃ p, Held b s p f₀ ∧ Held b s p f ∧ Original s f

theorem Restored.original {f : StaticFiles} (h : Restored b s f₀ f) : Original s f := by
  rcases h with ⟨hfresh, rfl⟩ | ⟨p, -, -, h⟩
  · exact hfresh.live
  · exact h

/-- A restore finds nothing to do after a restore. -/
theorem Restored.eq {f₁ f₂ : StaticFiles} (h₁ : Restored b s f₀ f₁) (h₂ : Restored b s f₁ f₂) :
    f₂ = f₁ := by
  rcases h₂ with ⟨-, h⟩ | ⟨p, hheld₁, hheld₂, horiginal₂⟩
  · exact h
  · have horiginal₁ := h₁.original
    obtain ⟨caddy₁, current₁, snapshot₁, predecessor₁⟩ := f₁
    obtain ⟨caddy₂, current₂, snapshot₂, predecessor₂⟩ := f₂
    rw [StaticFiles.mk.injEq]
    exact ⟨horiginal₂.1.trans horiginal₁.1.symm, horiginal₂.2.trans horiginal₁.2.symm,
      hheld₂.snapshot.trans hheld₁.snapshot.symm,
      hheld₂.predecessor.trans hheld₁.predecessor.symm⟩

/-- **A restore**, from wherever the calls before were cut off. -/
theorem triple_restore (hf₀ : Recoverable b s f₀) :
    Triple (fun h => On t (· = f₀) h ∧ h.fences = F) (b.restore previous failed)
      (fun _ h => Recoverable b s h.files ∧ Restored b s f₀ h.files)
      (fun _ h => Recoverable b s h.files ∧ (Struck t ∨
        ¬ (b.validateHandle failed = .ok () ∧ Admitted b F ∧ Matching b s previous)))
      (fun h => Recoverable b s h.files ∧ Crashing t) := by
  unfold restore
  cases hhandle : b.validateHandle failed with
  | error e =>
      refine Triple.bind (R := fun _ _ => False) (Triple.raise fun h hh => ⟨?_, .inr ?_⟩)
        fun _ _ hfalse => hfalse.elim
      · rw [hh.1.1]
        exact hf₀
      · rintro ⟨hok, -⟩
        cases hok
  | ok u =>
      rw [ofExcept_ok, ret_bind]
      have hbody : Triple (On t (· = f₀))
          (files? >>= fun files =>
            if hasRecord files then b.restoreRecorded previous failed
            else b.restoreFresh previous failed)
          (fun _ h => Recoverable b s h.files ∧ Restored b s f₀ h.files)
          (fun _ h => Recoverable b s h.files ∧ (Struck t ∨ ¬ Matching b s previous))
          (fun h => Recoverable b s h.files ∧ Crashing t) := by
        refine On.files ?_
        rcases id hf₀ with hfresh | ⟨hv, p, hheld⟩
        · rw [hfresh.hasRecord]
          refine Triple.conseq (stops_restoreFresh hfresh) (fun _ h => h) (fun _ h hh => ?_)
            (fun _ h hh => ?_) fun h hh => ?_
          · exact ⟨hh.1 ▸ hf₀, .inl ⟨hfresh, hh.1⟩⟩
          · rcases hh with hh | hh
            · exact ⟨hh.1 ▸ hf₀, .inl hh.2.1⟩
            · exact ⟨hh.1.1 ▸ hf₀, .inr hh.1.2⟩
          · exact ⟨hh.1 ▸ hf₀, hh.2⟩
        · rw [hheld.hasRecord]
          refine Triple.conseq (stops_restoreRecorded (p := p)) (fun _ => On.mono fun f hf =>
            hf ▸ hheld) (fun _ h hh => ?_) (fun _ h hh => ?_) fun h hh => ?_
          · exact ⟨hh.1.1.recoverable hv, .inr ⟨p, hheld, hh.1.1, hh.1.2⟩⟩
          · rcases hh with hh | hh
            · exact ⟨hh.1.recoverable hv, .inl hh.2.1⟩
            · exact ⟨hh.1.1.recoverable hv, .inr hh.1.2⟩
          · exact ⟨hh.1.recoverable hv, hh.2⟩
      refine Triple.conseq (triple_fenced hbody (fun e h hh => ?_) fun h hh => ?_) (fun _ h => h)
        (fun _ _ h => h) ?_ fun _ h => h
      · rw [hh.1]
        exact ⟨hf₀, .inl hh.2.1⟩
      · rw [hh.1]
        exact ⟨hf₀, hh.2⟩
      · rintro e h (⟨hrec, hfault⟩ | ⟨hdenied, rfl⟩)
        · exact ⟨hrec, hfault.imp_right fun hne hall => hne hall.2.2⟩
        · exact ⟨hf₀, .inr fun hall => hdenied hall.2.1⟩

end Calls

/-! ### Attempts -/

/-- A call of the operation. -/
inductive StaticCall where
  | activate (candidate : StaticHandle) (expected : Option Digest)
  | restore (previous : Option StaticHandle) (failed : StaticHandle)

/-- A call with its fence, the fences it finds recorded, and what happens at its moments. -/
structure StaticAttempt where
  fence : FenceRecord
  fences : Table FenceRecord.scope
  tape : List StaticMoment
  call : StaticCall

/-- The backend of one more attempt of the operation. -/
def withFence (b : StaticBackend) (fence : FenceRecord) : StaticBackend := { b with fence }

/-- One attempt on the files that the attempts before have left. -/
def attempt [Platform] (b : StaticBackend) (a : StaticAttempt) (f : StaticFiles) :
    StaticHost × Outcome StaticFailure StaticActivation :=
  match a.call with
  | .activate candidate expected =>
      (b.withFence a.fence).activate candidate expected ⟨f, a.fences, a.tape⟩
  | .restore previous failed =>
      (b.withFence a.fence).restore previous failed ⟨f, a.fences, a.tape⟩

/-- What any attempts of the operation leave, each cut off wherever it was. -/
def attempts [Platform] (b : StaticBackend) (as : List StaticAttempt) (f : StaticFiles) :
    StaticFiles :=
  as.foldl (fun f a => (b.attempt a f).1.files) f

/-- The fence lets the attempt in. -/
def Entered (b : StaticBackend) (a : StaticAttempt) : Prop :=
  Admitted (b.withFence a.fence) a.fences

section Attempts

variable [Platform] {b : StaticBackend} {s f : StaticFiles} {a : StaticAttempt}
  {candidate : StaticHandle} {expected : Option Digest} {previous : Option StaticHandle}
  {failed : StaticHandle}

/-! The fence has no part in what is live. -/

omit [Platform] in
theorem validateHandle_withFence {fence : FenceRecord} :
    (b.withFence fence).validateHandle candidate = b.validateHandle candidate := rfl

omit [Platform] in
theorem candidateLive_withFence {fence : FenceRecord} :
    CandidateLive (b.withFence fence) f ↔ CandidateLive b f := Iff.rfl

omit [Platform] in
theorem Genuine.withFence {fence : FenceRecord} (h : Genuine b candidate) :
    Genuine (b.withFence fence) candidate := ⟨h.target, h.digest⟩

theorem held_withFence {fence : FenceRecord} {p : Predecessor} :
    Held (b.withFence fence) s p f ↔ Held b s p f :=
  ⟨fun h => ⟨h.captured, h.predecessor, h.snapshot, h.caddy, h.current⟩,
    fun h => ⟨h.captured, h.predecessor, h.snapshot, h.caddy, h.current⟩⟩

theorem recoverable_withFence {fence : FenceRecord} :
    Recoverable (b.withFence fence) s f ↔ Recoverable b s f :=
  or_congr Iff.rfl (and_congr Iff.rfl (exists_congr fun _ => held_withFence))

theorem restored_withFence {fence : FenceRecord} {f₀ : StaticFiles} :
    Restored (b.withFence fence) s f₀ f ↔ Restored b s f₀ f :=
  or_congr Iff.rfl (exists_congr fun _ => and_congr held_withFence
    (and_congr held_withFence Iff.rfl))

omit [Platform] in
/-- The host an attempt starts on. -/
theorem on_start (a : StaticAttempt) (f : StaticFiles) :
    On a.tape (· = f) (⟨f, a.fences, a.tape⟩ : StaticHost) :=
  ⟨rfl, rfl, List.suffix_rfl⟩

theorem attempt_of_activate (hcall : a.call = .activate candidate expected) :
    b.attempt a f = (b.withFence a.fence).activate candidate expected
      ⟨f, a.fences, a.tape⟩ := by
  rw [attempt, hcall]

theorem attempt_of_restore (hcall : a.call = .restore previous failed) :
    b.attempt a f = (b.withFence a.fence).restore previous failed
      ⟨f, a.fences, a.tape⟩ := by
  rw [attempt, hcall]

theorem attempt_activate (hd : Distinct b s.caddyLive) (hf : Recoverable b s f)
    (hcall : a.call = .activate candidate expected) :
    match b.attempt a f with
    | (h, .returned _) => Recoverable b s h.files ∧ CandidateLive b h.files
    | (h, .raised _) => Recoverable b s h.files ∧
        (b.validateHandle candidate = .ok () → Entered b a →
          Failed (b.withFence a.fence) s candidate a.tape f h.files)
    | (h, .crashed) => Recoverable b s h.files ∧ Crashing a.tape := by
  have htriple : Triple (fun h => On a.tape (· = f) h ∧ h.fences = a.fences)
      ((b.withFence a.fence).activate candidate expected)
      (fun _ h => Recoverable b s h.files ∧ CandidateLive b h.files)
      (fun _ h => Recoverable b s h.files ∧
        (b.validateHandle candidate = .ok () → Entered b a →
          Failed (b.withFence a.fence) s candidate a.tape f h.files))
      (fun h => Recoverable b s h.files ∧ Crashing a.tape) := by
    refine Triple.conseq (triple_activate (b := b.withFence a.fence) hd
      (recoverable_withFence.mpr hf)) (fun _ h => h)
      (fun _ h hh => ?_) (fun e h hh => ?_) fun h hh => ?_
    · exact ⟨recoverable_withFence.mp hh.1, candidateLive_withFence.mp hh.2⟩
    · rcases hh with hfailed | ⟨hrec, hdenied⟩
      · exact ⟨recoverable_withFence.mp hfailed.recoverable, fun _ _ => hfailed⟩
      · rw [validateHandle_withFence] at hdenied
        exact ⟨recoverable_withFence.mp hrec, fun hhandle hin => absurd ⟨hhandle, hin⟩ hdenied⟩
    · exact ⟨recoverable_withFence.mp hh.1, hh.2⟩
  have hrun := htriple ⟨f, a.fences, a.tape⟩ ⟨on_start a f, rfl⟩
  rw [attempt_of_activate hcall]
  generalize (b.withFence a.fence).activate candidate expected ⟨f, a.fences, a.tape⟩ = run at hrun
  obtain ⟨h, result | e | -⟩ := run
  · exact hrun
  · exact hrun
  · exact hrun

theorem attempt_restore (hf : Recoverable b s f) (hcall : a.call = .restore previous failed) :
    match b.attempt a f with
    | (h, .returned _) => Recoverable b s h.files ∧ Restored b s f h.files
    | (h, .raised _) => Recoverable b s h.files ∧ (Struck a.tape ∨
        ¬ (b.validateHandle failed = .ok () ∧ Entered b a ∧ Matching b s previous))
    | (h, .crashed) => Recoverable b s h.files ∧ Crashing a.tape := by
  have htriple : Triple (fun h => On a.tape (· = f) h ∧ h.fences = a.fences)
      ((b.withFence a.fence).restore previous failed)
      (fun _ h => Recoverable b s h.files ∧ Restored b s f h.files)
      (fun _ h => Recoverable b s h.files ∧ (Struck a.tape ∨
        ¬ (b.validateHandle failed = .ok () ∧ Entered b a ∧ Matching b s previous)))
      (fun h => Recoverable b s h.files ∧ Crashing a.tape) := by
    refine Triple.conseq (triple_restore (recoverable_withFence.mpr hf)) (fun _ h => h)
      (fun _ h hh => ?_) (fun e h hh => ?_) fun h hh => ?_
    · exact ⟨recoverable_withFence.mp hh.1, restored_withFence.mp hh.2⟩
    · exact ⟨recoverable_withFence.mp hh.1, hh.2⟩
    · exact ⟨recoverable_withFence.mp hh.1, hh.2⟩
  have hrun := htriple ⟨f, a.fences, a.tape⟩ ⟨on_start a f, rfl⟩
  rw [attempt_of_restore hcall]
  generalize (b.withFence a.fence).restore previous failed ⟨f, a.fences, a.tape⟩ = run at hrun
  obtain ⟨h, result | e | -⟩ := run
  · exact hrun
  · exact hrun
  · exact hrun

/-- One attempt, cut off anywhere, leaves what the next one can recover. -/
theorem Recoverable.attempt (hd : Distinct b s.caddyLive) (hf : Recoverable b s f)
    (a : StaticAttempt) : Recoverable b s (b.attempt a f).1.files := by
  cases hcall : a.call with
  | activate candidate expected =>
      have hrun := attempt_activate hd hf hcall
      split at hrun
      · rename_i heq
        rw [heq]
        exact hrun.1
      · rename_i heq
        rw [heq]
        exact hrun.1
      · rename_i heq
        rw [heq]
        exact hrun.1
  | restore previous failed =>
      have hrun := attempt_restore hf hcall
      split at hrun
      · rename_i heq
        rw [heq]
        exact hrun.1
      · rename_i heq
        rw [heq]
        exact hrun.1
      · rename_i heq
        rw [heq]
        exact hrun.1

/-- So do any attempts. -/
theorem Recoverable.attempts (hd : Distinct b s.caddyLive) (as : List StaticAttempt)
    (hf : Recoverable b s f) : Recoverable b s (b.attempts as f) := by
  induction as generalizing f with
  | nil => exact hf
  | cons a as ih => exact ih (hf.attempt hd a)

/-- **Static activation recovers.** Start where the operation has no record yet, and let any
attempts of it be cut off anywhere. An activation that then runs undisturbed ends with both files
of the candidate when it returns, and with both as they were before the operation when it raises.
While nothing is on record, one exception in it does no harm either. A restore to the predecessor
returns with both files as they were, and a second one changes nothing. -/
theorem static_activation_recovers (hsnapshot : s.snapshot = none)
    (hrecord : s.predecessor = .missing) (hd : Distinct b s.caddyLive)
    (as : List StaticAttempt) :
    (∀ a candidate expected, a.call = .activate candidate expected →
      b.validateHandle candidate = .ok () → Entered b a → ¬ Struck a.tape →
        match b.attempt a (b.attempts as s) with
        | (h, .returned _) => CandidateLive b h.files
        | (h, .raised _) => Original s h.files
        | (_, .crashed) => False) ∧
    (∀ a candidate expected, a.call = .activate candidate expected →
      b.validateHandle candidate = .ok () → Entered b a → Genuine b candidate →
      (b.attempts as s).predecessor = .missing → ¬ Crashing a.tape →
      ¬ Struck (afterFault a.tape) →
        CandidateLive b (b.attempt a (b.attempts as s)).1.files ∨
          Original s (b.attempt a (b.attempts as s)).1.files) ∧
    (∀ a previous failed, a.call = .restore previous failed →
      b.validateHandle failed = .ok () → Entered b a → Matching b s previous →
      ¬ Struck a.tape →
        ∃ h result, b.attempt a (b.attempts as s) = (h, .returned result) ∧
          Original s h.files ∧
          ∀ a', a'.call = a.call → Entered b a' → ¬ Struck a'.tape →
            ∃ h' result', b.attempt a' h.files = (h', .returned result') ∧
              h'.files = h.files) := by
  have hstart : Recoverable b s s := .inl ⟨hrecord, ⟨rfl, rfl⟩, .inl hsnapshot⟩
  have hrec := hstart.attempts hd as
  refine ⟨?_, ?_, ?_⟩
  · intro a candidate expected hcall hhandle hin hcalm
    have hrun := attempt_activate hd hrec hcall
    split
    · rename_i heq
      rw [heq] at hrun
      exact hrun.2
    · rename_i heq
      rw [heq] at hrun
      exact (hrun.2 hhandle hin).calm hcalm
    · rename_i heq
      rw [heq] at hrun
      exact hcalm hrun.2.struck
  · intro a candidate expected hcall hhandle hin hgenuine hmissing hcrash honce
    have hfresh : Fresh s (b.attempts as s) := by
      rcases hrec with hfresh | ⟨-, p, hheld⟩
      · exact hfresh
      · rw [hheld.predecessor] at hmissing
        cases hmissing
    have hrun := attempt_activate hd hrec hcall
    generalize b.attempt a (b.attempts as s) = run at hrun
    obtain ⟨h, outcome⟩ := run
    cases outcome with
    | returned result => exact .inl hrun.2
    | raised e =>
        exact (((hrun.2 hhandle hin).first hfresh).once hgenuine.withFence honce).symm
    | crashed => exact absurd hrun.2 hcrash
  · intro a previous failed hcall hhandle hin hmatch hcalm
    have hrun := attempt_restore hrec hcall
    cases heq : b.attempt a (b.attempts as s) with
    | mk h outcome =>
      rw [heq] at hrun
      cases outcome with
      | raised e => exact absurd ⟨hhandle, hin, hmatch⟩ (hrun.2.resolve_left hcalm)
      | crashed => exact absurd hrun.2.struck hcalm
      | returned result =>
          refine ⟨h, result, rfl, hrun.2.original, fun a' hcall' hin' hcalm' => ?_⟩
          have hagain := attempt_restore hrun.1 (hcall'.trans hcall)
          cases heq' : b.attempt a' h.files with
          | mk h' outcome' =>
            rw [heq'] at hagain
            cases outcome' with
            | raised e => exact absurd ⟨hhandle, hin', hmatch⟩ (hagain.2.resolve_left hcalm')
            | crashed => exact absurd hagain.2.struck hcalm'
            | returned result' => exact ⟨h', result', rfl, hrun.2.eq hagain.2⟩

end Attempts

end StaticBackend

end Ophelia

namespace Ophelia.Reference

open StaticBackend

attribute [local instance] platform

def oldSite : FileBytes := [111]

def newSite : FileBytes := [110]

/-- The candidate of a site, with one release before it. -/
def siteCandidate : StaticBackend where
  fence := ⟨⟨⟨"host", Eq.refl true⟩, ⟨"site", by decide⟩, ⟨"production", Eq.refl true⟩⟩,
    ⟨"operation", Eq.refl true⟩, ⟨"owner", Eq.refl true⟩, ⟨1, Nat.one_pos⟩⟩
  releaseId := "second"
  digestBytes content := if content = newSite then digestText "new" else digestText "old"
  liveParents := true
  trackedParents _ := true
  recordParents := true
  bundleDigest := some (digestText "bundle")
  releases name := some (digestText name)
  bundleCaddy name := some (.regular (if name = "second" then newSite else oldSite))
  revisionRecords name :=
    some ⟨some (digestText name), some (digestText "bundle"), some (digestText name)⟩
  trafficCommitter := none

def siteHandle : StaticHandle := ⟨"production-static", "second", digestText "second"⟩

/-- The first release is live. -/
def firstLive : StaticFiles where
  caddyLive := some (.regular oldSite)
  current := .symlink ["releases", "first"]
  snapshot := none
  predecessor := .missing

/-- An activation of the second one. -/
def siteActivation (tape : List StaticMoment) : StaticAttempt where
  fence := siteCandidate.fence
  fences := .empty
  tape
  call := .activate siteHandle (some (digestText "first"))

/-- The process ends between the switch of the site file and that of the pointer. -/
def betweenSwitches : StaticAttempt :=
  siteActivation (List.replicate 8 .proceeds ++ [.crashesBefore])

theorem distinct_site : Distinct siteCandidate firstLive.caddyLive := by
  intro live source hlive hsource hdigest
  cases hlive
  cases hsource
  exact absurd hdigest (by decide)

/-- The next activation raises, and the first release is live again. -/
theorem static_activation_recovers_site :
    (siteCandidate.attempts [betweenSwitches] firstLive).caddyLive = some (.regular newSite) ∧
    (siteCandidate.attempts [betweenSwitches] firstLive).current = firstLive.current ∧
    match siteCandidate.attempt (siteActivation [])
        (siteCandidate.attempts [betweenSwitches] firstLive) with
    | (h, .returned _) => CandidateLive siteCandidate h.files
    | (h, .raised _) => Original firstLive h.files
    | (_, .crashed) => False := by
  refine ⟨rfl, rfl, ?_⟩
  refine (static_activation_recovers rfl rfl distinct_site [betweenSwitches]).1 (siteActivation []) siteHandle
    _ rfl rfl rfl ?_
  rintro ⟨m, hm, -⟩
  cases hm

end Ophelia.Reference
