import Ophelia.Execution.StaticBackend

/-!
# Ophelia.Execution.StaticSteps

The steps of a static activation, on the files alone. Whatever cuts them off, the live files are
those of the predecessor or of the candidate, each by itself, and the record of the operation
tells the predecessor (`Held`). Restoring gets from any such mixture to the old files, and
switching to the new ones.
-/

namespace Ophelia

open Program StaticHost

/-! ### Moments -/

namespace StaticMoment

def crashes : StaticMoment → Bool
  | crashesBefore | crashesAfter => true
  | _ => false

end StaticMoment

/-- What is left of a tape behind its first fault. -/
def afterFault : List StaticMoment → List StaticMoment
  | [] => []
  | .proceeds :: ms => afterFault ms
  | _ :: ms => ms

/-- Something happens on a tape. -/
def Struck (t : List StaticMoment) : Prop := ∃ m ∈ t, m ≠ .proceeds

/-- The process ends on a tape. -/
def Crashing (t : List StaticMoment) : Prop := ∃ m ∈ t, m.crashes = true

theorem Crashing.struck {t : List StaticMoment} (h : Crashing t) : Struck t := by
  obtain ⟨m, hm, hcrash⟩ := h
  refine ⟨m, hm, ?_⟩
  rintro rfl
  cases hcrash

theorem Struck.of_suffix {u t : List StaticMoment} (h : Struck u) (hu : u <:+ t) : Struck t := by
  obtain ⟨m, hm, hne⟩ := h
  exact ⟨m, hu.subset hm, hne⟩

theorem Crashing.of_suffix {u t : List StaticMoment} (h : Crashing u) (hu : u <:+ t) :
    Crashing t := by
  obtain ⟨m, hm, hcrash⟩ := h
  exact ⟨m, hu.subset hm, hcrash⟩

theorem afterFault_suffix (t : List StaticMoment) : afterFault t <:+ t := by
  fun_induction afterFault t with
  | case1 => exact List.suffix_rfl
  | case2 ms ih => exact ih.trans (List.suffix_cons _ _)
  | case3 m ms => exact List.suffix_cons _ _

section Tapes

variable {t : List StaticMoment} {h : StaticHost}

/-- Nothing has happened yet since the tape was `t`. -/
structure Ahead (t : List StaticMoment) (h : StaticHost) : Prop where
  rest : afterFault h.tape = afterFault t
  suffix : h.tape <:+ t

theorem Ahead.refl (h : StaticHost) : Ahead h.tape h := ⟨rfl, List.suffix_rfl⟩

end Tapes

/-! ### Triples on the files -/

/-- The files are in `I`, and nothing has happened since the tape was `t`. -/
def On (t : List StaticMoment) (I : StaticFiles → Prop) (h : StaticHost) : Prop :=
  I h.files ∧ Ahead t h

/-- The files are in `K`, and the first fault of `t` has just raised. -/
def Hit (t : List StaticMoment) (K : StaticFiles → Prop) (h : StaticHost) : Prop :=
  K h.files ∧ Struck t ∧ h.tape = afterFault t

/-- The files are in `K`, and the process has ended. -/
def Cut (t : List StaticMoment) (K : StaticFiles → Prop) (h : StaticHost) : Prop :=
  K h.files ∧ Crashing t

/-- A procedure that raises nothing by itself. -/
def Steps {α : Type} (t : List StaticMoment) (I : StaticFiles → Prop) (m : StaticProc α)
    (J : α → StaticFiles → Prop) (K : StaticFiles → Prop) : Prop :=
  Triple (On t I) m (fun a => On t (J a)) (fun _ => Hit t K) (Cut t K)

/-- A procedure that may also refuse, with the files in `D`. -/
def Stops {α : Type} (t : List StaticMoment) (I : StaticFiles → Prop) (m : StaticProc α)
    (J : α → StaticFiles → Prop) (K D : StaticFiles → Prop) : Prop :=
  Triple (On t I) m (fun a => On t (J a)) (fun _ h => Hit t K h ∨ On t D h) (Cut t K)

section Rules

variable {α β : Type} {t : List StaticMoment} {I I' : StaticFiles → Prop} {m : StaticProc α}
  {J J' : α → StaticFiles → Prop} {K K' D : StaticFiles → Prop}

theorem On.mono (hI : ∀ f, I f → I' f) {h : StaticHost} (ho : On t I h) : On t I' h :=
  ⟨hI _ ho.1, ho.2⟩

theorem Hit.mono (hK : ∀ f, K f → K' f) {h : StaticHost} (hh : Hit t K h) : Hit t K' h :=
  ⟨hK _ hh.1, hh.2⟩

/-- Behind a fault the tape starts anew. -/
theorem Hit.on {h : StaticHost} (hh : Hit t K h) : On (afterFault t) K h :=
  ⟨hh.1, by rw [hh.2.2], hh.2.2 ▸ List.suffix_rfl⟩

theorem Cut.mono (hK : ∀ f, K f → K' f) {h : StaticHost} (hh : Cut t K h) : Cut t K' h :=
  ⟨hK _ hh.1, hh.2⟩

theorem Steps.conseq (h : Steps t I m J K) (hI : ∀ f, I' f → I f) (hJ : ∀ a f, J a f → J' a f)
    (hK : ∀ f, K f → K' f) : Steps t I' m J' K' :=
  Triple.conseq h (fun _ => On.mono hI) (fun a _ => On.mono (hJ a)) (fun _ _ => Hit.mono hK)
    fun _ => Cut.mono hK

theorem Steps.stops (h : Steps t I m J K) : Stops t I m J K D :=
  Triple.conseq h (fun _ h => h) (fun _ _ h => h) (fun _ _ h => .inl h) fun _ h => h

theorem Stops.conseq {D' : StaticFiles → Prop} (h : Stops t I m J K D) (hI : ∀ f, I' f → I f)
    (hJ : ∀ a f, J a f → J' a f) (hK : ∀ f, K f → K' f) (hD : ∀ f, D f → D' f) :
    Stops t I' m J' K' D' :=
  Triple.conseq h (fun _ => On.mono hI) (fun a _ => On.mono (hJ a))
    (fun _ _ h => h.imp (Hit.mono hK) (On.mono hD)) fun _ => Cut.mono hK

theorem Steps.bind {f : α → StaticProc β} {J' : β → StaticFiles → Prop} (hm : Steps t I m J K)
    (hf : ∀ a, Steps t (J a) (f a) J' K) : Steps t I (m >>= f) J' K :=
  Triple.bind hm hf

theorem Stops.bind {f : α → StaticProc β} {J' : β → StaticFiles → Prop} (hm : Stops t I m J K D)
    (hf : ∀ a, Stops t (J a) (f a) J' K D) : Stops t I (m >>= f) J' K D :=
  Triple.bind hm hf

theorem Steps.ret {a : α} (h : ∀ f, I f → J a f) : Steps t I (Program.ret a) J K :=
  Triple.ret fun _ ho => On.mono h ho

theorem Stops.ret {a : α} (h : ∀ f, I f → J a f) : Stops t I (Program.ret a) J K D :=
  Triple.ret fun _ ho => On.mono h ho

theorem Stops.raise {e : StaticFailure} (h : ∀ f, I f → D f) :
    Stops t I (Program.raise e : StaticProc α) J K D :=
  Triple.raise fun _ ho => .inr (On.mono h ho)

/-- What a triple says about the files alone. -/
theorem Stops.plain {S R : StaticFiles → Prop} (h : Stops t I m J K D)
    (hS : ∀ f, K f ∨ D f → S f) (hR : ∀ f, K f → R f) :
    Triple (On t I) m (fun a => On t (J a)) (fun _ h => S h.files)
      (fun h => R h.files ∧ Crashing t) :=
  Triple.conseq h (fun _ h => h) (fun _ _ h => h)
    (fun _ _ h => hS _ (h.imp And.left And.left)) fun _ h => ⟨hR _ h.1, h.2⟩

/-- A fact of the precondition that does not speak about the files. -/
theorem On.assuming {q : Prop} {Q : α → StaticHost → Prop} {E : StaticFailure → StaticHost → Prop}
    {C : StaticHost → Prop} (h : q → Triple (On t I) m Q E C) :
    Triple (On t fun f => I f ∧ q) m Q E C :=
  fun s hs => h hs.1.2 s ⟨hs.1.1, hs.2⟩

/-- Reading the files where they are known. -/
theorem On.files {f₀ : StaticFiles} {g : StaticFiles → StaticProc α} {Q : α → StaticHost → Prop}
    {E : StaticFailure → StaticHost → Prop} {C : StaticHost → Prop}
    (h : Triple (On t (· = f₀)) (g f₀) Q E C) : Triple (On t (· = f₀)) (files? >>= g) Q E C := by
  rintro s ⟨rfl, ha⟩
  exact h s ⟨rfl, ha⟩

/-- A program that starts with reading the files. -/
theorem Steps.files {g : StaticFiles → StaticProc α}
    (h : ∀ f, I f → Steps t (fun f' => f' = f ∧ I f') (g f) J K) :
    Steps t I (files? >>= g) J K := by
  intro s hs
  exact h s.files hs.1 s ⟨⟨rfl, hs.1⟩, hs.2⟩

theorem Stops.files {g : StaticFiles → StaticProc α}
    (h : ∀ f, I f → Stops t (fun f' => f' = f ∧ I f') (g f) J K D) :
    Stops t I (files? >>= g) J K D := by
  intro s hs
  exact h s.files hs.1 s ⟨⟨rfl, hs.1⟩, hs.2⟩

/-- A triple may look at the files it starts from. -/
theorem Steps.of_state (h : ∀ f, I f → Steps t I m J K) : Steps t I m J K :=
  fun s hs => h s.files hs.1 s hs

theorem Stops.of_state (h : ∀ f, I f → Stops t I m J K D) : Stops t I m J K D :=
  fun s hs => h s.files hs.1 s hs

theorem Stops.ofExcept {x : Except StaticFailure α} (hok : ∀ a, x = .ok a → ∀ f, I f → J a f)
    (herr : ∀ f, I f → D f) : Stops t I (Program.ofExcept x) J K D :=
  Triple.ofExcept (fun a ha _ ho => On.mono (hok a ha) ho)
    fun _ _ _ ho => .inr (On.mono herr ho)

theorem Steps.ofExcept {x : Except StaticFailure α} {a : α} (hx : x = .ok a)
    (h : ∀ f, I f → J a f) : Steps t I (Program.ofExcept x) J K := by
  rw [hx]
  exact Steps.ret h

/-- One change of the host: it happens, or a fault strikes before or after it. -/
theorem triple_change {P Q : StaticHost → Prop} {g : StaticHost → StaticHost}
    (failure : StaticFailure) (htape : ∀ h, (g h).tape = h.tape)
    (hread : ∀ h ms, P h → P { h with tape := ms }) (hwrite : ∀ h, P h → Q (g h)) :
    Triple (fun h => P h ∧ Ahead t h) (change g failure) (fun _ h => Q h ∧ Ahead t h)
      (fun _ h => (P h ∨ Q h) ∧ Struck t ∧ h.tape = afterFault t)
      (fun h => (P h ∨ Q h) ∧ Crashing t) := by
  rintro ⟨files, fences, tape⟩ ⟨hP, ha⟩
  cases tape with
  | nil => exact ⟨hwrite _ hP, ⟨by rw [htape]; exact ha.rest, by rw [htape]; exact ha.suffix⟩⟩
  | cons m ms =>
      have hP' := hread _ ms hP
      have hQ := hwrite _ hP'
      have htail : ms <:+ t := (List.suffix_cons m ms).trans ha.suffix
      have hmem : m ∈ t := ha.suffix.subset List.mem_cons_self
      cases m with
      | proceeds => exact ⟨hQ, ⟨by rw [htape]; exact ha.rest, by rw [htape]; exact htail⟩⟩
      | failsBefore => exact ⟨.inl hP', ⟨_, hmem, by simp⟩, ha.rest⟩
      | failsAfter => exact ⟨.inr hQ, ⟨_, hmem, by simp⟩, by rw [htape]; exact ha.rest⟩
      | crashesBefore => exact ⟨.inl hP', ⟨_, hmem, rfl⟩⟩
      | crashesAfter => exact ⟨.inr hQ, ⟨_, hmem, rfl⟩⟩

/-- One effect on the files. -/
theorem Steps.effect {g : StaticFiles → StaticFiles} {J : StaticFiles → Prop}
    (hJ : ∀ f, I f → J (g f)) (hI : ∀ f, I f → K f) (hK : ∀ f, J f → K f) :
    Steps t I (StaticHost.effect g) (fun _ => J) K := by
  have h := triple_change (t := t) (P := fun h => I h.files) (Q := fun h => J h.files)
    (g := fun h => { h with files := g h.files }) .osError (fun _ => rfl)
    (fun _ _ hP => hP) fun h hP => hJ _ hP
  refine Triple.conseq h (fun _ ho => ho) (fun _ _ ho => ho) (fun _ s hs => ?_) fun s hs => ?_
  · exact ⟨hs.1.elim (hI _) (hK _), hs.2⟩
  · exact ⟨hs.1.elim (hI _) (hK _), hs.2⟩

theorem Steps.boundary (hI : ∀ f, I f → K f) : Steps t I StaticHost.boundary (fun _ => I) K :=
  Steps.effect (fun _ h => h) hI hI

end Rules

/-! ### What is live -/

namespace StaticBackend

/-- Both live files are as they were. -/
def Original (s f : StaticFiles) : Prop :=
  f.caddyLive = s.caddyLive ∧ f.current = s.current

/-- Both live files are those of the candidate. -/
def CandidateLive (b : StaticBackend) (f : StaticFiles) : Prop :=
  ∃ source, b.caddySource = .ok source ∧ f.caddyLive = some (.regular source) ∧
    f.current = .symlink b.candidateTarget

/-- Nothing is on record: nothing has been switched. The snapshot may be there already. -/
structure Fresh (s f : StaticFiles) : Prop where
  predecessor : f.predecessor = .missing
  live : Original s f
  snapshot : f.snapshot = none ∨ f.snapshot = s.caddyLive

/-- The predecessor is on record: each live file is the old or the new one. -/
structure Held [Platform] (b : StaticBackend) (s : StaticFiles) (p : Predecessor)
    (f : StaticFiles) : Prop where
  captured : b.captured s.caddyLive s.current = .ok p
  predecessor : f.predecessor = .recorded p
  snapshot : f.snapshot = s.caddyLive
  caddy : f.caddyLive = s.caddyLive ∨
    ∃ source, b.caddySource = .ok source ∧ f.caddyLive = some (.regular source)
  current : f.current = s.current ∨ f.current = .symlink b.candidateTarget

/-- What a captured predecessor says about the live files. -/
structure Describes (b : StaticBackend) (s : StaticFiles) (p : Predecessor) : Prop where
  parents : b.liveParents = true
  caddy : (∃ content, s.caddyLive = some (.regular content) ∧ p.caddyPresent = true ∧
    p.caddyDigest = some (b.digestBytes content)) ∨ (s.caddyLive = none ∧ p.caddyPresent = false)
  current : (∃ target, s.current = .symlink target ∧ p.staticTarget = some target ∧
    validateTarget target = .ok ()) ∨ (s.current = .missing ∧ p.staticTarget = none)

section Capture

variable [Platform] {b : StaticBackend} {s f : StaticFiles} {p : Predecessor}

omit [Platform] in
theorem validateTarget_of_digest {live : Option FileNode} {target : PointerTarget}
    {digest : Option Digest} (h : b.revisionDigestForTarget live (some target) = .ok digest) :
    validateTarget target = .ok () := by
  obtain ⟨u, hu, -⟩ := Results.bind_eq_ok.mp h
  exact hu

theorem describes_of_captured (h : b.captured s.caddyLive s.current = .ok p) :
    Describes b s p := by
  unfold StaticBackend.captured at h
  split at h
  · cases h
  rename_i hparents
  split at h
  · cases h
  rename_i hlink
  obtain ⟨target, htarget, h⟩ := Results.bind_eq_ok.mp h
  obtain ⟨content, hcontent, h⟩ := Results.bind_eq_ok.mp h
  obtain ⟨tracked, htracked, h⟩ := Results.bind_eq_ok.mp h
  have hfields : p.caddyPresent = content.isSome ∧ p.caddyDigest = content.map b.digestBytes ∧
      p.staticTarget = target := by
    split at h
    · cases h
      exact ⟨rfl, rfl, rfl⟩
    · cases h
      exact ⟨rfl, rfl, rfl⟩
    · cases h
      exact ⟨rfl, rfl, rfl⟩
    · split at h
      · cases h
      · cases h
        exact ⟨rfl, rfl, rfl⟩
  obtain ⟨hpresent, hdigest, hptarget⟩ := hfields
  refine ⟨by simpa using hparents, ?_, ?_⟩
  · cases hlive : s.caddyLive with
    | none =>
        rw [hlive] at hcontent
        cases hcontent
        exact .inr ⟨rfl, hpresent⟩
    | some node =>
        rw [hlive] at hcontent hlink
        cases node with
        | regular bytes =>
            cases hcontent
            exact .inl ⟨bytes, rfl, hpresent, hdigest⟩
        | directory => cases hcontent
        | symlink => exact absurd rfl hlink
  · cases hcurrent : s.current with
    | missing =>
        rw [hcurrent] at htarget
        cases htarget
        exact .inr ⟨rfl, hptarget⟩
    | symlink link =>
        rw [hcurrent] at htarget
        cases htarget
        exact .inl ⟨link, rfl, hptarget, validateTarget_of_digest htracked⟩
    | file =>
        rw [hcurrent] at htarget
        cases htarget
    | directory =>
        rw [hcurrent] at htarget
        cases htarget

theorem Held.describes (h : Held b s p f) : Describes b s p :=
  describes_of_captured h.captured

/-- A live site is no link and no directory. -/
theorem Held.caddy_node (h : Held b s p f) : f.caddyLive = none ∨
    ∃ content, f.caddyLive = some (.regular content) := by
  rcases h.caddy with hc | ⟨source, -, hc⟩
  · rcases h.describes.caddy with ⟨content, hs, -⟩ | ⟨hs, -⟩
    · exact .inr ⟨content, hc.trans hs⟩
    · exact .inl (hc.trans hs)
  · exact .inr ⟨source, hc⟩

/-- The pointer is a link, or missing. -/
theorem Held.current_node (h : Held b s p f) : f.current = .missing ∨
    ∃ target, f.current = .symlink target := by
  rcases h.current with hc | hc
  · rcases h.describes.current with ⟨target, hs, -⟩ | ⟨hs, -⟩
    · exact .inr ⟨target, hc.trans hs⟩
    · exact .inl (hc.trans hs)
  · exact .inr ⟨_, hc⟩

end Capture

/-! ### Procedures -/

section Procedures

variable [Platform] {b : StaticBackend} {s : StaticFiles} {p : Predecessor}
  {t : List StaticMoment}

/-- The live site becomes the old or the new one. -/
theorem steps_replaceCaddy {content : FileBytes}
    (hnew : some (.regular content) = s.caddyLive ∨ b.caddySource = .ok content) :
    Steps t (Held b s p) (b.replaceCaddy content)
      (fun _ f => Held b s p f ∧ f.caddyLive = some (.regular content)) (Held b s p) := by
  refine Steps.of_state fun f₀ hf₀ => ?_
  rw [replaceCaddy, if_neg (by simp [hf₀.describes.parents])]
  refine Steps.files fun f hf => ?_
  have heffect : Steps t (fun f' => f' = f ∧ Held b s p f')
      (effect fun f => { f with caddyLive := some (.regular content) })
      (fun _ f => Held b s p f ∧ f.caddyLive = some (.regular content)) (Held b s p) := by
    refine Steps.effect ?_ (fun _ h => h.2) fun _ h => h.1
    rintro _ ⟨rfl, hf⟩
    exact ⟨{ hf with caddy := hnew.imp (fun h => h) fun h => ⟨content, h, rfl⟩ }, rfl⟩
  rcases hf.caddy_node with hnode | ⟨old, hnode⟩
  · rw [hnode]
    exact heffect
  · rw [hnode]
    exact heffect

theorem steps_removeCaddy (hnone : s.caddyLive = none) :
    Steps t (Held b s p) removeCaddy (fun _ f => Held b s p f ∧ f.caddyLive = s.caddyLive)
      (Held b s p) := by
  refine Steps.files fun f hf => ?_
  rcases hf.caddy_node with hnode | ⟨old, hnode⟩
  · rw [hnode]
    refine Steps.ret ?_
    rintro _ ⟨rfl, hf⟩
    exact ⟨hf, hnode.trans hnone.symm⟩
  · rw [hnode]
    refine Steps.effect ?_ (fun _ h => h.2) fun _ h => h.1
    rintro _ ⟨rfl, hf⟩
    exact ⟨{ hf with caddy := .inl hnone.symm }, hnone.symm⟩

theorem steps_restoreCaddy :
    Steps t (Held b s p) (b.restoreCaddy p)
      (fun _ f => Held b s p f ∧ f.caddyLive = s.caddyLive) (Held b s p) := by
  refine Steps.of_state fun f₀ hf₀ => ?_
  unfold restoreCaddy
  rcases hf₀.describes.caddy with ⟨content, hlive, hpresent, hdigest⟩ | ⟨hlive, habsent⟩
  · rw [if_pos hpresent]
    refine Steps.bind (Steps.boundary fun _ h => h) fun _ => ?_
    refine Steps.files fun f hf => ?_
    -- The snapshot holds the bytes that were captured, so its digest is the recorded one.
    rw [hf.snapshot, hlive]
    simp only [hdigest, if_true]
    exact (steps_replaceCaddy (.inl hlive.symm)).conseq (fun _ h => h.2) (fun _ _ h => h)
      fun _ h => h
  · rw [if_neg (by simp [habsent])]
    exact steps_removeCaddy hlive

/-- The pointer becomes the old or the new one, and the live site stays. -/
theorem steps_replacePointer {target : PointerTarget} {C : Option FileNode → Prop}
    (hvalid : validateTarget target = .ok ())
    (hnew : .symlink target = s.current ∨ target = b.candidateTarget) :
    Steps t (fun f => Held b s p f ∧ C f.caddyLive) (b.replacePointer target)
      (fun _ f => (Held b s p f ∧ C f.caddyLive) ∧ f.current = .symlink target) (Held b s p) := by
  have hcheck : Steps t (fun f => Held b s p f ∧ C f.caddyLive)
      (Program.ofExcept (validateTarget target)) (fun _ f => Held b s p f ∧ C f.caddyLive)
      (Held b s p) := Steps.ofExcept hvalid fun _ h => h
  refine Steps.bind hcheck fun _ => ?_
  refine Steps.of_state fun f₀ hf₀ => ?_
  rw [if_neg (by simp [hf₀.1.describes.parents])]
  refine Steps.files fun f hf => ?_
  have heffect : Steps t (fun f' => f' = f ∧ Held b s p f' ∧ C f'.caddyLive)
      (effect fun f => { f with current := .symlink target })
      (fun _ f => (Held b s p f ∧ C f.caddyLive) ∧ f.current = .symlink target)
      (Held b s p) := by
    refine Steps.effect ?_ (fun _ h => h.2.1) fun _ h => h.1.1
    rintro _ ⟨rfl, hf, hC⟩
    exact ⟨⟨{ hf with current := hnew.imp (fun h => h) fun h => by rw [h] }, hC⟩, rfl⟩
  rcases hf.1.current_node with hnode | ⟨old, hnode⟩
  · rw [hnode]
    exact heffect
  · rw [hnode]
    exact heffect

theorem steps_removePointer {C : Option FileNode → Prop} (hmissing : s.current = .missing) :
    Steps t (fun f => Held b s p f ∧ C f.caddyLive) removePointer
      (fun _ f => (Held b s p f ∧ C f.caddyLive) ∧ f.current = s.current) (Held b s p) := by
  refine Steps.files fun f hf => ?_
  rcases hf.1.current_node with hnode | ⟨old, hnode⟩
  · rw [hnode]
    refine Steps.ret ?_
    rintro _ ⟨rfl, hf⟩
    exact ⟨hf, hnode.trans hmissing.symm⟩
  · rw [hnode]
    refine Steps.effect ?_ (fun _ h => h.2.1) fun _ h => h.1.1
    rintro _ ⟨rfl, hf, hC⟩
    exact ⟨⟨{ hf with current := .inl hmissing.symm }, hC⟩, hmissing.symm⟩

theorem steps_restorePointer :
    Steps t (fun f => Held b s p f ∧ f.caddyLive = s.caddyLive) (b.restorePointer p)
      (fun _ f => Held b s p f ∧ Original s f) (Held b s p) := by
  refine Steps.of_state fun f₀ hf₀ => ?_
  unfold restorePointer
  rcases hf₀.1.describes.current with ⟨target, hcurrent, hp, hvalid⟩ | ⟨hmissing, hp⟩
  · rw [hp]
    refine (steps_replacePointer (C := fun node => node = s.caddyLive) hvalid
      (.inl hcurrent.symm)).conseq (fun _ h => h) ?_ fun _ h => h
    exact fun _ f h => ⟨h.1.1, h.1.2, h.2.trans hcurrent.symm⟩
  · rw [hp]
    refine (steps_removePointer (C := fun node => node = s.caddyLive) hmissing).conseq
      (fun _ h => h) ?_ fun _ h => h
    exact fun _ f h => ⟨h.1.1, h.1.2, h.2⟩

/-- **Restoring** from any mixture of old and new ends in the old state; where it is cut off, it
leaves such a mixture. -/
theorem steps_restorePredecessor :
    Steps t (Held b s p) (b.restorePredecessor p) (fun _ f => Held b s p f ∧ Original s f)
      (Held b s p) := by
  unfold restorePredecessor
  refine Steps.bind steps_restoreCaddy fun _ => ?_
  refine Steps.bind (Steps.boundary fun _ h => h.1) fun _ => ?_
  refine Steps.bind steps_restorePointer fun _ => ?_
  exact Steps.boundary fun _ h => h.1

omit [Platform] in
theorem steps_commitTraffic {I K : StaticFiles → Prop} (hK : ∀ f, I f → K f) :
    Steps t I b.commitTraffic (fun _ => I) K := by
  unfold commitTraffic
  split
  · exact Steps.ret fun _ h => h
  · exact Steps.bind (Steps.boundary hK) fun _ => Steps.ret fun _ h => h

/-- The result is read off the live site, which is a file or missing. -/
theorem steps_activationResult {I K : StaticFiles → Prop} {old active : Option Digest}
    {additional : List Digest} (hI : ∀ f, I f → f.caddyLive = none ∨
      ∃ content, f.caddyLive = some (.regular content)) (hK : ∀ f, I f → K f) :
    Steps t I (b.activationResult old active additional) (fun _ => I) K := by
  refine Steps.bind (Steps.boundary hK) fun _ => ?_
  refine Steps.files fun f hf => ?_
  have hevidence : ∃ digest, b.caddyEvidence f.caddyLive = .ok digest := by
    rcases hI f hf with hnode | ⟨content, hnode⟩
    · exact ⟨_, by rw [hnode, caddyEvidence]⟩
    · exact ⟨_, by rw [hnode, caddyEvidence]⟩
  obtain ⟨digest, hdigest⟩ := hevidence
  have hread : Steps t (fun f' => f' = f ∧ I f') (Program.ofExcept (b.caddyEvidence f.caddyLive))
      (fun _ => I) K := Steps.ofExcept hdigest fun _ h => h.2
  exact Steps.bind hread fun _ => Steps.ret fun _ h => h

end Procedures

/-! ### Recording the predecessor -/

section Recording

variable [Platform] {b : StaticBackend} {s : StaticFiles} {p : Predecessor}
  {t : List StaticMoment}

/-- What is captured before anything is switched is the state at the start. -/
theorem stops_capturePredecessor :
    Stops t (Fresh s) b.capturePredecessor
      (fun p f => Fresh s f ∧ b.captured s.caddyLive s.current = .ok p) (Fresh s) (Fresh s) := by
  refine Stops.bind (Steps.boundary fun _ h => h).stops fun _ => ?_
  refine Stops.files fun f hf => ?_
  rw [hf.live.1, hf.live.2]
  exact Stops.ofExcept (fun p hp f' h => ⟨h.2, hp⟩) fun f' h => h.2

omit [Platform] in
/-- The snapshot is written, or it is there from an attempt that was cut off. -/
theorem steps_persistSnapshot (hp : Describes b s p) :
    Steps t (Fresh s) (persistSnapshot p) (fun _ f => Fresh s f ∧ f.snapshot = s.caddyLive)
      (Fresh s) := by
  unfold persistSnapshot
  rcases hp.caddy with ⟨content, hlive, hpresent, -⟩ | ⟨hlive, habsent⟩
  · rw [if_pos hpresent]
    refine Steps.bind (Steps.boundary fun _ h => h) fun _ => ?_
    refine Steps.files fun f hf => ?_
    rw [hf.live.1, hlive]
    refine Steps.files fun f' hf' => ?_
    obtain ⟨rfl, -⟩ := hf'
    rcases hf.snapshot with hnone | hold
    · rw [hnone]
      refine Steps.effect ?_ (fun _ h => h.2.2) fun _ h => h.1
      rintro _ ⟨-, rfl, hf⟩
      exact ⟨⟨hf.predecessor, hf.live, .inr hlive.symm⟩, rfl⟩
    · rw [hold, hlive]
      simp only [if_true]
      refine (Steps.boundary fun _ h => h.2.2).conseq (fun _ h => h) ?_ fun _ h => h
      rintro _ _ ⟨-, rfl, hf⟩
      exact ⟨hf, hold.trans hlive⟩
  · rw [if_neg (by simp [habsent])]
    refine Steps.ret fun f hf => ⟨hf, ?_⟩
    exact hf.snapshot.elim (fun h => h.trans hlive.symm) fun h => h

/-- From here on the record tells the predecessor. -/
theorem steps_persistRecord (hp : b.captured s.caddyLive s.current = .ok p) :
    Steps t (fun f => Fresh s f ∧ f.snapshot = s.caddyLive) (persistRecord p)
      (fun _ f => Held b s p f ∧ Original s f)
      (fun f => Fresh s f ∨ Held b s p f ∧ Original s f) := by
  refine Steps.files fun f hf => ?_
  rw [hf.1.predecessor]
  refine Steps.effect ?_ (fun _ h => .inl h.2.1) fun _ h => .inr h
  rintro _ ⟨rfl, hf, hsnap⟩
  exact ⟨⟨hp, rfl, hsnap, .inl hf.live.1, .inl hf.live.2⟩, hf.live⟩

theorem stops_persistPredecessor (hp : b.captured s.caddyLive s.current = .ok p) :
    Stops t (Fresh s) (b.persistPredecessor p) (fun _ f => Held b s p f ∧ Original s f)
      (fun f => Fresh s f ∨ Held b s p f ∧ Original s f) (Fresh s) := by
  unfold persistPredecessor
  split
  · exact Stops.raise fun _ h => h
  · refine Steps.stops (Steps.bind ?_ fun _ => steps_persistRecord hp)
    exact (steps_persistSnapshot (describes_of_captured hp)).conseq (fun _ h => h)
      (fun _ _ h => h) fun _ h => .inl h

theorem steps_loadPredecessor :
    Steps t (Held b s p) loadPredecessor (fun p' f => Held b s p f ∧ p' = p) (Held b s p) := by
  refine Steps.bind (Steps.boundary fun _ h => h) fun _ => ?_
  refine Steps.files fun f hf => ?_
  rw [hf.predecessor]
  exact Steps.ret fun f' h => ⟨h.2, rfl⟩

end Recording

/-! ### Switching -/

/-- The candidate was found materialized, with its evidence. -/
def Verified (b : StaticBackend) : Prop :=
  ∃ record, b.readRevisionRecord = .ok record ∧ b.verifyMaterialized record = .ok ()

/-- The handle is that of the candidate as it was materialized. -/
structure Genuine (b : StaticBackend) (candidate : StaticHandle) : Prop where
  target : validateTarget b.candidateTarget = .ok ()
  digest : ∀ record, b.readRevisionRecord = .ok record →
    record.revisionDigest = some candidate.revisionDigest

/-- The live site is told from the candidate's by its digest. -/
def Distinct (b : StaticBackend) (caddyLive : Option FileNode) : Prop :=
  ∀ live source, caddyLive = some (.regular live) → b.caddySource = .ok source →
    b.digestBytes live = b.digestBytes source → live = source

section Switching

variable {b : StaticBackend}

/-- A release that passes its check has a site file and a static tree. -/
theorem Verified.sources (h : Verified b) :
    (∃ source, b.caddySource = .ok source) ∧ b.releases b.releaseId ≠ none := by
  obtain ⟨record, -, hcheck⟩ := h
  unfold verifyMaterialized at hcheck
  split at hcheck
  · cases hcheck
  rename_i bundle static? source hbundle
  split at hcheck
  · cases hcheck
  split at hcheck
  · cases hcheck
  rename_i hstatic
  split at hcheck
  · rename_i content hsource
    refine ⟨⟨content, by rw [caddySource, hsource]⟩, fun hnone => hstatic (.inl hnone)⟩
  · cases hcheck

/-- The candidate's files pass the check of its activation. -/
theorem CandidateLive.activeError {candidate : StaticHandle} {f : StaticFiles}
    (hlive : CandidateLive b f) (hv : Verified b) (hg : Genuine b candidate) :
    b.activeError f candidate.revisionDigest = .ok () := by
  obtain ⟨source, hsource, hcaddy, hcurrent⟩ := hlive
  obtain ⟨record, hrecord, -⟩ := id hv
  rw [StaticBackend.activeError, hcaddy, hcurrent]
  simp only [hsource, hrecord, hg.digest record hrecord, hv.sources.2, bind, Except.bind,
    ne_eq, not_true_eq_false, if_false]

/-- What passes the check is live with the candidate's bytes. -/
theorem Held.candidateLive [Platform] {s f : StaticFiles} {p : Predecessor} {digest : Digest}
    (hf : Held b s p f) (hd : Distinct b s.caddyLive) (h : b.activeError f digest = .ok ()) :
    CandidateLive b f := by
  unfold StaticBackend.activeError at h
  split at h
  · rename_i live hlive
    obtain ⟨source, hsource, h⟩ := Results.bind_eq_ok.mp h
    split at h
    · cases h
    rename_i hdigest
    split at h
    · rename_i target hcurrent
      split at h
      · cases h
      rename_i htarget
      have hsame : live = source := by
        rcases hf.caddy with hold | ⟨source', hsource', hnew⟩
        · exact hd live source (hold.symm.trans hlive) hsource (not_not.mp hdigest)
        · rw [hsource] at hsource'
          cases hsource'
          rw [hlive] at hnew
          cases hnew
          rfl
      exact ⟨source, hsource, hsame ▸ hlive, by rw [hcurrent, not_not.mp htarget]⟩
    · cases h
  · cases h

variable [Platform] {s : StaticFiles} {p : Predecessor} {t : List StaticMoment}
  {candidate : StaticHandle}

/-- **Switching** ends with both files of the candidate. It refuses only what is not the handle
of the candidate; cut off anywhere, it leaves a mixture. -/
theorem stops_switch (hv : Verified b) :
    Stops t (Held b s p) (b.switch candidate) (fun _ f => Held b s p f ∧ CandidateLive b f)
      (Held b s p) (fun f => Held b s p f ∧ ¬ Genuine b candidate) := by
  obtain ⟨⟨source, hsource⟩, -⟩ := hv.sources
  unfold switch
  refine Stops.bind (Steps.boundary fun _ h => h).stops fun _ => ?_
  rw [hsource, ofExcept_ok, ret_bind]
  refine Stops.bind (steps_replaceCaddy (.inr hsource)).stops fun _ => ?_
  refine Stops.bind (Steps.boundary fun _ h => h.1).stops fun _ => ?_
  refine Stops.bind (Steps.boundary fun _ h => h.1).stops fun _ => ?_
  have hpointer : Stops t (fun f => Held b s p f ∧ f.caddyLive = some (.regular source))
      (b.replacePointer b.candidateTarget) (fun _ f => Held b s p f ∧ CandidateLive b f)
      (Held b s p) (fun f => Held b s p f ∧ ¬ Genuine b candidate) := by
    cases hvalid : validateTarget b.candidateTarget with
    | ok u =>
        refine ((steps_replacePointer (C := fun node => node = some (.regular source)) hvalid
          (.inr rfl)).conseq (fun _ h => h) ?_ fun _ h => h).stops
        exact fun _ f h => ⟨h.1.1, source, hsource, h.1.2, h.2⟩
    | error e =>
        unfold replacePointer
        rw [hvalid]
        have hraise : Stops t (fun f => Held b s p f ∧ f.caddyLive = some (.regular source))
            (raise e : StaticProc Unit) (fun _ _ => False) (Held b s p)
            (fun f => Held b s p f ∧ ¬ Genuine b candidate) := by
          refine Stops.raise fun f hf => ⟨hf.1, fun hg => ?_⟩
          cases hvalid.symm.trans hg.target
        exact Stops.bind hraise fun _ => Stops.of_state fun _ hfalse => hfalse.elim
  refine Stops.bind hpointer fun _ => ?_
  refine Stops.bind (Steps.boundary fun _ h => h.1).stops fun _ => ?_
  refine Stops.bind (steps_commitTraffic fun _ h => h.1).stops fun evidence => ?_
  refine Stops.bind (Steps.boundary fun _ h => h.1).stops fun _ => ?_
  have hassert : Stops t (fun f => Held b s p f ∧ CandidateLive b f)
      (b.assertActive candidate.revisionDigest)
      (fun _ f => Held b s p f ∧ CandidateLive b f) (Held b s p)
      (fun f => Held b s p f ∧ ¬ Genuine b candidate) := by
    refine Stops.bind (Steps.boundary fun _ h => h.1).stops fun _ => ?_
    refine Stops.files fun f hf => ?_
    cases hcheck : b.activeError f candidate.revisionDigest with
    | ok u => exact (Steps.ret fun _ h => h.2).stops
    | error e =>
        refine Stops.raise fun f' hf' => ⟨hf'.2.1, fun hg => ?_⟩
        cases hcheck.symm.trans (hf.2.activeError hv hg)
  exact Stops.bind hassert fun _ => Stops.ret fun _ h => h

end Switching

end StaticBackend

end Ophelia
