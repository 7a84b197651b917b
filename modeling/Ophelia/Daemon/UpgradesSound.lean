import Mathlib.Data.List.Induction
import Ophelia.Daemon.Upgrades

/-!
# Ophelia.Daemon.UpgradesSound

What holds on a host through any run of staged upgrades, confirmations and restarts, with
crashes and failures between any two effects.

First, what one call can do to the install root, wherever it stops (`stageAgentUpgrade_ends`,
`confirmRunningUpgrade_ends`). The invariant (`UpgradeHost.Sound`) follows from that alone:
the link stands at one of the two ends of the pending upgrade, and the end it came from has
been settled before.
-/

namespace Ophelia

open Program (Triple)

/-! ### Where a call can stop -/

section Ends

variable {α β : Type} {i : Install} {m : UpgradeProgram α} {Q : α → Install → Prop}
  {S : Install → Prop}

/-- From the install root `i`, the program returns in `Q` or stops in `S`. -/
def Ends (i : Install) (m : UpgradeProgram α) (Q : α → Install → Prop) (S : Install → Prop) :
    Prop :=
  Triple (fun w => w.install = i) m (fun a w => Q a w.install) (fun _ w => S w.install)
    fun w => S w.install

namespace Ends

theorem ret {a : α} (h : Q a i) : Ends i (.ret a) Q S :=
  Triple.ret fun _ hw => hw ▸ h

theorem pure {a : α} (h : Q a i) : Ends i (Pure.pure a) Q S :=
  Triple.pure fun _ hw => hw ▸ h

theorem raise {e : UpgradeFailure} (h : S i) : Ends i (.raise e) Q S :=
  Triple.raise fun _ hw => hw ▸ h

theorem error {message : String} (h : S i) : Ends i (upgradeError message) Q S := raise h

theorem ofExcept {x : Except UpgradeFailure α} (hQ : ∀ a, x = .ok a → Q a i) (hS : S i) :
    Ends i (.ofExcept x) Q S :=
  Triple.ofExcept (fun a ha _ hw => hw ▸ hQ a ha) fun _ _ _ hw => hw ▸ hS

theorem bind {R : α → Install → Prop} {f : α → UpgradeProgram β} {Q : β → Install → Prop}
    (hm : Ends i m R S) (hf : ∀ a j, R a j → Ends j (f a) Q S) : Ends i (m >>= f) Q S :=
  Triple.bind hm fun a w hw => hf a w.install hw w rfl

/-- A program that starts with a computation. -/
theorem ofExcept_bind {x : Except UpgradeFailure α} {f : α → UpgradeProgram β}
    {Q : β → Install → Prop} (hf : ∀ a, x = .ok a → Ends i (f a) Q S) (hS : S i) :
    Ends i (.ofExcept x >>= f) Q S :=
  bind (R := fun a j => x = .ok a ∧ j = i) (ofExcept (fun _ ha => ⟨ha, rfl⟩) hS)
    fun a _ h => h.2 ▸ hf a h.1

/-- A program that starts with reading the install root. -/
theorem readInstall_bind {f : Install → UpgradeProgram β} {Q : β → Install → Prop}
    (hf : Ends i (f i) Q S) : Ends i (readInstall >>= f) Q S := by
  intro w hw
  have h := hf w hw
  rw [← hw] at h
  exact h

theorem effect {f : Install → Install} {Q : Unit → Install → Prop} (hQ : Q () (f i)) (hS : S i) :
    Ends i (installEffect f) Q S := by
  intro w hw
  subst hw
  rcases w with ⟨i, fates⟩
  cases fates with
  | nil => exact hQ
  | cons fate fates =>
      cases fate with
      | done => exact hQ
      | fails => exact hS
      | dies => exact hS

/-- A program that starts with an effect. -/
theorem effect_bind {f : Install → Install} {g : Unit → UpgradeProgram β}
    {Q : β → Install → Prop} (hS : S i) (hg : Ends (f i) (g ()) Q S) :
    Ends i (installEffect f >>= g) Q S :=
  bind (R := fun _ j => j = f i) (effect rfl hS) fun _ _ h => h ▸ hg

theorem unseen_bind {g : Unit → UpgradeProgram β} {Q : β → Install → Prop} (hS : S i)
    (hg : Ends i (g ()) Q S) : Ends i (unseen >>= g) Q S :=
  effect_bind hS hg

theorem unseen {Q : Unit → Install → Prop} (hQ : Q () i) (hS : S i) :
    Ends i Ophelia.unseen Q S := effect hQ hS

theorem ite {c : Prop} [Decidable c] {m' : UpgradeProgram α} (hm : c → Ends i m Q S)
    (hm' : ¬ c → Ends i m' Q S) : Ends i (if c then m else m') Q S :=
  Triple.ite hm hm'

/-- The removal of a tree never raises. -/
theorem removeTree {name : String} {Q : Unit → Install → Prop} (hQ : Q () i)
    (hdone : Q () (i.setRelease name none)) (hS : S i) : Ends i (removeTree name) Q S := by
  intro w hw
  subst hw
  rcases w with ⟨i, fates⟩
  cases fates with
  | nil => exact hdone
  | cons fate fates =>
      cases fate with
      | done => exact hdone
      | fails => exact hQ
      | dies => exact hS

/-- A finalizer that does not raise and keeps both ends. -/
theorem finalize {f : UpgradeProgram Unit} (hm : Ends i m Q S)
    (hQ : ∀ a j, Q a j → Ends j f (fun _ => Q a) S) (hS : ∀ j, S j → Ends j f (fun _ => S) S) :
    Ends i (.finalize m f) Q S :=
  Triple.finalize hm (fun a w hw => hQ a w.install hw w rfl) fun _ w hw => hS w.install hw w rfl

/-- Where a call of a daemon leaves the install root. -/
theorem ofCall {a : RunningAgent} {fates : List EffectFate}
    (h : Ends i m (fun _ => S) S) : S (UpgradeHost.ofCall a (m ⟨i, fates⟩)).install := by
  have hrun := h ⟨i, fates⟩ rfl
  cases hm : m ⟨i, fates⟩ with
  | mk w o =>
      rw [hm] at hrun
      cases o with
      | returned a => exact hrun
      | raised e => exact hrun
      | crashed => exact hrun

end Ends

end Ends

/-! ### What staging does -/

/-- The install root `j` is `i` with further releases. -/
def Grown (i j : Install) : Prop :=
  ∃ releases, j = { i with releases } ∧
    ∀ name tree, i.releases name = some tree → releases name = some tree

namespace Grown

variable {i j : Install}

theorem refl (i : Install) : Grown i i := ⟨i.releases, rfl, fun _ _ h => h⟩

/-- A name that `i` does not have may hold anything. -/
theorem setRelease (h : Grown i j) {name : String} (hfree : i.releases name = none)
    (tree : Option ReleaseTree) : Grown i (j.setRelease name tree) := by
  obtain ⟨releases, rfl, hkept⟩ := h
  refine ⟨_, rfl, fun n t hn => ?_⟩
  by_cases hname : n = name
  · rw [hname, hfree] at hn
    cases hn
  · simpa [hname] using hkept n t hn

theorem releases (h : Grown i j) {name : String} {tree : ReleaseTree}
    (hname : i.releases name = some tree) : j.releases name = some tree := by
  obtain ⟨releases, rfl, hkept⟩ := h
  exact hkept name tree hname

theorem current (h : Grown i j) : j.current = i.current := by
  obtain ⟨releases, rfl, -⟩ := h
  rfl

theorem marker (h : Grown i j) : j.marker = i.marker := by
  obtain ⟨releases, rfl, -⟩ := h
  rfl

theorem receipts (h : Grown i j) : j.receipts = i.receipts := by
  obtain ⟨releases, rfl, -⟩ := h
  rfl

end Grown

/-- A version starts with a digit. -/
theorem isVersion_head {cs : List Char} (h : isVersion cs = true) :
    ∃ c rest, cs = c :: rest ∧ c.isDigit = true := by
  cases cs with
  | nil => simp [isVersion, afterNumber] at h
  | cons c rest =>
      refine ⟨c, rest, rfl, ?_⟩
      by_contra hc
      have hnone : afterNumber (c :: rest) = none := by
        simp [afterNumber, hc]
      simp [isVersion, hnone] at h

/-- The place of a build is never the name of a release. -/
theorem releaseName_ne_stagingName (c : CheckedUpgrade) (nonce : String) :
    releaseName c.version c.sourceDigest ≠ stagingName c.version nonce := by
  intro heq
  obtain ⟨d, rest, hcs, hd⟩ := isVersion_head c.versionOk
  have hlist := congrArg String.toList heq
  simp only [releaseName, stagingName, String.toList_append, hcs] at hlist
  rw [List.cons_append, List.cons_append] at hlist
  have hhead := (List.cons.inj hlist).1
  rw [hhead] at hd
  exact absurd hd (by decide)

/-- The release of a checked upgrade is in its place. -/
def Install.HasRelease (i : Install) (c : CheckedUpgrade) : Prop :=
  releaseValid (i.releases (releaseName c.version c.sourceDigest))
    (releaseMetadata c.version c.sourceDigest) = true

theorem prepareRelease_ends (i : Install) (c : CheckedUpgrade) (nonce : String) :
    Ends i (prepareRelease c nonce) (fun _ j => Grown i j ∧ j.HasRelease c) (Grown i) := by
  apply Ends.readInstall_bind
  refine Ends.ite (fun hvalid => Ends.ret ⟨.refl i, hvalid⟩) fun _ => ?_
  refine Ends.ite (fun _ => Ends.error (.refl i)) fun htarget => ?_
  refine Ends.ite (fun _ => Ends.raise (.refl i)) fun hstaging => ?_
  rw [Option.not_isSome_iff_eq_none] at htarget hstaging
  have hgrown := (Grown.refl i).setRelease hstaging (some ⟨false, none, ""⟩)
  refine Ends.effect_bind (.refl i) (Ends.finalize ?_ ?_ ?_)
  · refine Ends.ofExcept_bind (fun version _ => ?_) hgrown
    refine Ends.ite (fun _ => Ends.error hgrown) fun _ => ?_
    refine Ends.ofExcept_bind (fun built _ => ?_) hgrown
    refine Ends.unseen_bind hgrown (Ends.ite (fun hvalid => ?_) fun _ => Ends.error hgrown)
    -- the rename puts a valid tree where `i` has nothing
    have hdone := hgrown.setRelease htarget (some ⟨built.1, some (releaseMetadata c.version
      c.sourceDigest), built.2⟩)
    refine Ends.effect_bind hgrown (Ends.unseen ⟨hdone, ?_⟩ hdone)
    simpa [Install.HasRelease, Install.setRelease] using hvalid
  · intro _ j hj
    refine Ends.removeTree hj ⟨hj.1.setRelease hstaging none, ?_⟩ hj.1
    simpa [Install.HasRelease, Install.setRelease, releaseName_ne_stagingName] using hj.2
  · intro j hj
    exact Ends.removeTree hj (hj.setRelease hstaging none) hj

/-- No receipt has been written for the command. -/
def Install.Unanswered (i : Install) (commandId : String) : Prop :=
  ∀ receipt, i.receipts commandId ≠ .file receipt

/-- What the part of staging behind the release does to the install root. -/
inductive Pointed (q : UpgradeRequest) (c : CheckedUpgrade) (i : Install) : Install → Prop
  | unchanged : Pointed q c i i
  | marked {previous : String} {tree : ReleaseTree}
      (current : i.current = .link (.release previous))
      (complete : i.releases previous = some tree) (marker : i.marker = .absent)
      (unanswered : i.Unanswered q.commandId) :
      Pointed q c i (i.setMarker (.file (q.pending c (.release previous))))
  | moved {previous : String} {tree : ReleaseTree}
      (current : i.current = .link (.release previous))
      (complete : i.releases previous = some tree) (marker : i.marker = .absent)
      (unanswered : i.Unanswered q.commandId) :
      Pointed q c i ((i.setMarker (.file (q.pending c (.release previous)))).setCurrent
        (.release (releaseName c.version c.sourceDigest)))
  | resumed {m : PendingUpgrade} (marker : i.marker = .file m) (command : m.commandId = q.commandId)
      (target : m.targetRelease = .release (releaseName c.version c.sourceDigest))
      (current : i.current = .link m.previousRelease) (unanswered : i.Unanswered q.commandId) :
      Pointed q c i (i.setCurrent (.release (releaseName c.version c.sourceDigest)))

/-- A strict resolution gives the path back. -/
theorem Install.resolve_eq_ok {i : Install} {p p' : Place} (h : i.resolve p = .ok p') :
    p' = p ∧ ∀ name, p = .release name → ∃ tree, i.releases name = some tree := by
  cases p with
  | elsewhere path =>
      cases h
      exact ⟨rfl, fun _ h => by cases h⟩
  | release name =>
      rw [Install.resolve] at h
      split at h
      · rename_i hsome
        cases h
        refine ⟨rfl, fun n hn => ?_⟩
        cases hn
        exact Option.isSome_iff_exists.mp hsome
      · cases h

theorem Install.resolveCurrent_eq_ok {i : Install} {place p : Place}
    (hlink : i.current = .link place) (h : i.resolveCurrent = .ok p) :
    p = place ∧ ∀ name, place = .release name → ∃ tree, i.releases name = some tree := by
  rw [Install.resolveCurrent, hlink] at h
  exact Install.resolve_eq_ok h

/-- The link is moved only after the marker is in place. -/
theorem activateRelease_ends {q : UpgradeRequest} {c : CheckedUpgrade} {i : Install}
    {previous : Place} {marker : Option PendingUpgrade}
    (hsame : Pointed q c i i)
    (hmarked : ∀ name, previous = .release name → marker = none →
      Pointed q c i (i.setMarker (.file (q.pending c (.release name)))))
    (hmoved : ∀ name, previous = .release name → marker = none →
      Pointed q c i ((i.setMarker (.file (q.pending c (.release name)))).setCurrent
        (.release (releaseName c.version c.sourceDigest))))
    (hresumed : ∀ m, marker = some m →
      Pointed q c i (i.setCurrent (.release (releaseName c.version c.sourceDigest)))) :
    Ends i (activateRelease q c previous marker) (fun _ => Pointed q c i) (Pointed q c i) := by
  refine Ends.ite (fun _ => Ends.error hsame) fun hin => ?_
  cases previous with
  | elsewhere path => simp [Place.inReleases] at hin
  | release name =>
      cases marker with
      | some m =>
          refine Ends.bind (R := fun _ j => j = i) (Ends.ret rfl) fun _ _ hj => ?_
          subst hj
          have hdone := hresumed m rfl
          refine Ends.unseen_bind hsame (Ends.effect_bind hsame ?_)
          exact Ends.unseen_bind hdone (Ends.pure hdone)
      | none =>
          have hmark := hmarked name rfl rfl
          have hdone := hmoved name rfl rfl
          refine Ends.effect_bind hsame (Ends.unseen_bind hmark (Ends.effect_bind hmark ?_))
          exact Ends.unseen_bind hdone (Ends.pure hdone)

theorem stagePending_ends {q : UpgradeRequest} {c : CheckedUpgrade} {i : Install} {place : Place}
    (hlink : i.current = .link place) (hunanswered : i.Unanswered q.commandId) :
    Ends i (stagePending q c i) (fun _ => Pointed q c i) (Pointed q c i) := by
  have hsame : Pointed q c i i := .unchanged
  unfold stagePending
  cases hmarker : i.marker with
  | irregular => exact Ends.error hsame
  | malformed => exact Ends.error hsame
  | file m =>
      refine Ends.ite (fun _ => Ends.error hsame) fun hown => ?_
      refine Ends.ofExcept_bind (fun pendingTarget hpending => ?_) hsame
      refine Ends.ofExcept_bind (fun target htarget => ?_) hsame
      refine Ends.ite (fun _ => Ends.error hsame) fun heq => ?_
      refine Ends.ofExcept_bind (fun current hcurrent => ?_) hsame
      refine Ends.ofExcept_bind (fun previous hprevious => ?_) hsame
      refine Ends.ite (fun _ => Ends.pure hsame) fun _ => ?_
      refine Ends.ite (fun _ => Ends.error hsame) fun hsource => ?_
      -- the marker is the one of this command, and the link still stands at its start
      apply activateRelease_ends hsame
      · intro name _ hnone
        cases hnone
      · intro name _ hnone
        cases hnone
      · intro _ _
        have hown := (not_not.mp hown).1
        have htargets : m.targetRelease = .release (releaseName c.version c.sourceDigest) := by
          rw [← (Install.resolve_eq_ok hpending).1, ← (Install.resolve_eq_ok htarget).1]
          exact not_not.mp heq
        have hstart : i.current = .link m.previousRelease := by
          rw [hlink, ← (Install.resolveCurrent_eq_ok hlink hcurrent).1,
            ← (Install.resolve_eq_ok hprevious).1, not_not.mp hsource]
        exact .resumed hmarker hown htargets hstart hunanswered
  | absent =>
      refine Ends.ofExcept_bind (fun previous hprevious => ?_) hsame
      have hresolved := Install.resolveCurrent_eq_ok hlink hprevious
      apply activateRelease_ends hsame
      · intro name hname _
        rw [hresolved.1] at hname
        obtain ⟨tree, htree⟩ := hresolved.2 name hname
        exact .marked (hname ▸ hlink) htree hmarker hunanswered
      · intro name hname _
        rw [hresolved.1] at hname
        obtain ⟨tree, htree⟩ := hresolved.2 name hname
        exact .moved (hname ▸ hlink) htree hmarker hunanswered
      · intro m hm
        cases hm

theorem stagePointer_ends (q : UpgradeRequest) (c : CheckedUpgrade) (i : Install) :
    Ends i (stagePointer q c i) (fun _ => Pointed q c i) (Pointed q c i) := by
  have hsame : Pointed q c i i := .unchanged
  unfold stagePointer
  cases hcurrent : i.current with
  | missing => exact Ends.error hsame
  | notLink => exact Ends.error hsame
  | link place =>
      cases hreceipt : i.receipts q.commandId with
      | malformed => exact Ends.error hsame
      | file receipt =>
          refine Ends.ite (fun _ => Ends.error hsame) fun _ => ?_
          refine Ends.ofExcept_bind (fun current _ => ?_) hsame
          refine Ends.ofExcept_bind (fun target _ => ?_) hsame
          exact Ends.ite (fun _ => Ends.error hsame) fun _ => Ends.pure hsame
      | absent => exact stagePending_ends hcurrent fun _ h => by simp [hreceipt] at h
      | irregular => exact stagePending_ends hcurrent fun _ h => by simp [hreceipt] at h

/-- What a delivery of an upgrade command does, wherever it stops. -/
inductive StageEffect (q : UpgradeRequest) (i : Install) : Install → Prop
  | grown {j : Install} (grown : Grown i j) : StageEffect q i j
  | pointed {j k : Install} {c : CheckedUpgrade} (grown : Grown i j) (release : j.HasRelease c)
      (pointed : Pointed q c j k) : StageEffect q i k

theorem stageAgentUpgrade_ends (q : UpgradeRequest) (i : Install) :
    Ends i (stageAgentUpgrade q) (fun _ => StageEffect q i) (StageEffect q i) := by
  have hsame : StageEffect q i i := .grown (.refl i)
  refine Ends.ofExcept_bind (fun c _ => ?_) hsame
  refine Ends.unseen_bind hsame (Ends.readInstall_bind ?_)
  refine Ends.ite (fun _ => Ends.error hsame) fun _ => ?_
  refine Ends.bind (R := fun _ j => Grown i j ∧ j.HasRelease c) ?_ fun _ j hj => ?_
  · exact (prepareRelease_ends i c q.nonce).conseq (fun _ h => h) (fun _ _ h => h)
      (fun _ _ h => .grown h) fun _ h => .grown h
  · apply Ends.readInstall_bind
    exact (stagePointer_ends q c j).conseq (fun _ h => h) (fun _ _ h => .pointed hj.1 hj.2 h)
      (fun _ _ h => .pointed hj.1 hj.2 h) fun _ h => .pointed hj.1 hj.2 h

/-! ### What a confirmation does -/

/-- What a confirmation with the version `observed` does, wherever it stops. -/
inductive ConfirmEffect (observed : String) (i : Install) : Install → Prop
  | unchanged : ConfirmEffect observed i i
  | answered {m : PendingUpgrade} {place : Place} {status : UpgradeStatus} {t : String}
      (marker : i.marker = .file m) (current : i.current = .link place)
      (confirmed : m.confirmation place m.targetRelease m.previousRelease observed = some status) :
      ConfirmEffect observed i (i.setReceipt m.commandId ⟨m, status, observed, t⟩)
  | settled {m : PendingUpgrade} {place : Place} {status : UpgradeStatus} {t : String}
      (marker : i.marker = .file m) (current : i.current = .link place)
      (confirmed : m.confirmation place m.targetRelease m.previousRelease observed = some status) :
      ConfirmEffect observed i
        ((i.setReceipt m.commandId ⟨m, status, observed, t⟩).setMarker .absent)

/-- Only a link leads into the releases. -/
theorem Install.link_of_resolveCurrent {i : Install} {p : Place} (h : i.resolveCurrent = .ok p)
    (hin : p.inReleases = true) : i.current = .link p := by
  cases hcurrent : i.current with
  | missing => simp [Install.resolveCurrent, hcurrent] at h
  | notLink =>
      rw [Install.resolveCurrent, hcurrent] at h
      cases h
      cases hin
  | link place => rw [(Install.resolveCurrent_eq_ok hcurrent h).1]

/-- A confirmation stands at one end of the upgrade. -/
theorem PendingUpgrade.confirmation_cases {m : PendingUpgrade} {current target previous : Place}
    {observed : String} {status : UpgradeStatus}
    (h : m.confirmation current target previous observed = some status) :
    (status = .succeeded ∧ current = target ∧ observed = m.version) ∨
      (status = .abortedBeforeActivation ∧ current = previous ∧
        ¬ (current = target ∧ observed = m.version)) := by
  unfold PendingUpgrade.confirmation at h
  split at h
  · rename_i hdone
    exact .inl ⟨(Option.some.inj h).symm, hdone⟩
  · rename_i hdone
    split at h
    · rename_i hback
      exact .inr ⟨(Option.some.inj h).symm, hback, hdone⟩
    · cases h

theorem confirmRunningUpgrade_ends (observed confirmedAt : String) (i : Install) :
    Ends i (confirmRunningUpgrade observed confirmedAt) (fun _ => ConfirmEffect observed i)
      (ConfirmEffect observed i) := by
  have hsame : ConfirmEffect observed i i := .unchanged
  apply Ends.readInstall_bind
  cases hmarker : i.marker with
  | absent => exact Ends.pure hsame
  | irregular => exact Ends.pure hsame
  | malformed => exact Ends.error hsame
  | file m =>
      refine Ends.ofExcept_bind (fun current hcurrent => ?_) hsame
      refine Ends.ofExcept_bind (fun target htarget => ?_) hsame
      refine Ends.ofExcept_bind (fun previous hprevious => ?_) hsame
      refine Ends.ite (fun _ => Ends.error hsame) fun hinside => ?_
      cases hstatus : m.confirmation current target previous observed with
      | none => exact Ends.error hsame
      | some status =>
          have hin : current.inReleases = true := by
            rcases PendingUpgrade.confirmation_cases hstatus with h | h
            · exact h.2.1 ▸ (not_not.mp hinside).1
            · exact h.2.1 ▸ (not_not.mp hinside).2
          have hlink := Install.link_of_resolveCurrent hcurrent hin
          rw [(Install.resolve_eq_ok htarget).1, (Install.resolve_eq_ok hprevious).1] at hstatus
          have hanswered := ConfirmEffect.answered (t := confirmedAt) hmarker hlink hstatus
          have hsettled := ConfirmEffect.settled (t := confirmedAt) hmarker hlink hstatus
          -- the receipt is in place before the marker goes
          have hwrite : Ends i (do
              installEffect (Install.setReceipt m.commandId ⟨m, status, observed, confirmedAt⟩)
              installEffect (Install.setMarker .absent)
              unseen
              return some (⟨m, status, observed, confirmedAt⟩ : UpgradeReceipt))
              (fun _ => ConfirmEffect observed i) (ConfirmEffect observed i) :=
            Ends.effect_bind hsame (Ends.effect_bind hanswered
              (Ends.unseen_bind hsettled (Ends.pure hsettled)))
          refine Ends.unseen_bind hsame ?_
          cases i.receipts m.commandId with
          | irregular => exact Ends.raise hsame
          | absent => exact hwrite
          | malformed => exact hwrite
          | file _ => exact hwrite

/-- What the launcher does when the daemon has ended unexpectedly. -/
theorem rollbackUnconfirmedUpgrade_cases (i : Install) :
    rollbackUnconfirmedUpgrade i = i ∨ ∃ m, i.marker = .file m ∧
      rollbackUnconfirmedUpgrade i = (i.setCurrent m.previousRelease).setMarker .absent := by
  unfold rollbackUnconfirmedUpgrade
  cases hmarker : i.marker with
  | absent => exact .inl rfl
  | irregular => exact .inl rfl
  | malformed => exact .inl rfl
  | file m =>
      simp only
      split
      · rename_i previous target current hprevious htarget hcurrent
        rw [(Install.resolve_eq_ok hprevious).1, (Install.resolve_eq_ok htarget).1]
        split
        · exact .inl rfl
        · rename_i hinside
          split
          · rename_i heq
            -- the link stands where the rollback would put it
            subst heq
            have hlink := Install.link_of_resolveCurrent hcurrent (not_not.mp hinside).1
            refine .inr ⟨m, rfl, ?_⟩
            rw [Install.setCurrent, ← hlink]
          · split
            · exact .inr ⟨m, rfl, rfl⟩
            · exact .inl rfl
      · exact .inl rfl

/-! ### The invariant -/

section Invariant

variable (base : String)

/-- A complete release: the one the host started with, or the validated target of an upgrade. -/
def Install.Usable (i : Install) (name : String) : Prop :=
  ∃ tree, i.releases name = some tree ∧ tree.executable = true ∧ tree.metadata.isSome = true ∧
    (name = base ∨ ∃ version digest, name = releaseName version digest ∧
      tree.metadata = some (releaseMetadata version digest))

/-- A release that has been current without an upgrade pending. -/
def Install.Settled (i : Install) (place : Place) : Prop :=
  place = .release base ∨ ∃ commandId receipt, i.receipts commandId = .file receipt ∧
    receipt.status = .succeeded ∧ receipt.pending.targetRelease = place

/-- The end of the upgrade that a status speaks of. -/
def PendingUpgrade.endOf (m : PendingUpgrade) : UpgradeStatus → Place
  | .succeeded => m.targetRelease
  | .abortedBeforeActivation => m.previousRelease

/-- The invariant of the install root. -/
structure Install.Sound (i : Install) : Prop where
  usable : i.Usable base base
  current : ∃ name, i.current = .link (.release name) ∧ i.Usable base name
  pending : ∀ m, i.marker = .file m →
    (∃ name, m.previousRelease = .release name ∧ i.Usable base name) ∧
    (∃ name, m.targetRelease = .release name ∧ i.Usable base name) ∧
    i.Settled base m.previousRelease ∧
    (i.current = .link m.previousRelease ∨ i.current = .link m.targetRelease)
  idle : (∀ m, i.marker ≠ .file m) → ∀ place, i.current = .link place → i.Settled base place
  owner : ∀ commandId receipt, i.receipts commandId = .file receipt →
    receipt.pending.commandId = commandId
  /-- A marker that has outlived its receipt still agrees with it. -/
  answered : ∀ m receipt, i.marker = .file m → i.receipts m.commandId = .file receipt →
    receipt.pending = m ∧ i.current = .link (m.endOf receipt.status) ∧
    (m.previousRelease = m.targetRelease → ∀ name tree, m.targetRelease = .release name →
      i.releases name = some tree → (receipt.status = .succeeded ↔ tree.packageVersion = m.version))

/-- The daemon that is to confirm an upgrade runs one of its two ends. -/
def RunningAgent.Sound (a : RunningAgent) (i : Install) : Prop :=
  ∃ m tree, i.marker = .file m ∧ i.releases a.release = some tree ∧
    tree.packageVersion = a.version ∧
    (m.previousRelease = .release a.release ∨ m.targetRelease = .release a.release)

structure UpgradeHost.Sound (h : UpgradeHost) : Prop where
  install : h.install.Sound base
  running : ∀ a, h.running = some a → a.confirming = true → a.Sound h.install

/-- Receipts keep their upgrade and their status. -/
def Install.Answers (i j : Install) : Prop :=
  ∀ commandId receipt, i.receipts commandId = .file receipt →
    ∃ receipt', j.receipts commandId = .file receipt' ∧ receipt'.status = receipt.status ∧
      receipt'.pending = receipt.pending

variable {base} {i j : Install}

theorem Install.Answers.refl (i : Install) : i.Answers i := fun _ receipt h => ⟨receipt, h, rfl, rfl⟩

theorem Install.Answers.of_eq (h : j.receipts = i.receipts) : i.Answers j :=
  fun _ receipt hreceipt => ⟨receipt, h ▸ hreceipt, rfl, rfl⟩

theorem Install.Answers.trans {k : Install} (hij : i.Answers j) (hjk : j.Answers k) :
    i.Answers k := by
  intro commandId receipt hreceipt
  obtain ⟨receipt₁, h₁, hstatus₁, hpending₁⟩ := hij commandId receipt hreceipt
  obtain ⟨receipt₂, h₂, hstatus₂, hpending₂⟩ := hjk commandId receipt₁ h₁
  exact ⟨receipt₂, h₂, hstatus₂.trans hstatus₁, hpending₂.trans hpending₁⟩

theorem Install.Settled.answers {place : Place} (h : i.Settled base place) (hij : i.Answers j) :
    j.Settled base place := by
  rcases h with h | ⟨commandId, receipt, hreceipt, hstatus, htarget⟩
  · exact .inl h
  · obtain ⟨receipt', hreceipt', hstatus', hpending'⟩ := hij commandId receipt hreceipt
    exact .inr ⟨commandId, receipt', hreceipt', hstatus'.trans hstatus, hpending' ▸ htarget⟩

theorem Install.Usable.grown {name : String} (h : i.Usable base name) (hij : Grown i j) :
    j.Usable base name := by
  obtain ⟨tree, htree, hrest⟩ := h
  exact ⟨tree, hij.releases htree, hrest⟩

theorem Install.HasRelease.usable {c : CheckedUpgrade} (h : i.HasRelease c) :
    i.Usable base (releaseName c.version c.sourceDigest) := by
  unfold Install.HasRelease releaseValid at h
  split at h
  · rename_i tree htree
    simp only [Bool.and_eq_true, decide_eq_true_eq] at h
    exact ⟨tree, htree, h.1, by rw [h.2]; rfl, .inr ⟨_, _, rfl, h.2⟩⟩
  · cases h

theorem Install.Sound.grown (h : i.Sound base) (hij : Grown i j) : j.Sound base := by
  have hanswers : i.Answers j := .of_eq hij.receipts
  obtain ⟨name, hcurrent, husable⟩ := h.current
  refine ⟨h.usable.grown hij, ⟨name, hij.current ▸ hcurrent, husable.grown hij⟩, ?_, ?_, ?_, ?_⟩
  · intro m hm
    rw [hij.marker] at hm
    obtain ⟨⟨p, hp, hpu⟩, ⟨t, ht, htu⟩, hsettled, hends⟩ := h.pending m hm
    rw [hij.current]
    exact ⟨⟨p, hp, hpu.grown hij⟩, ⟨t, ht, htu.grown hij⟩, hsettled.answers hanswers, hends⟩
  · intro hidle place hplace
    rw [hij.marker] at hidle
    rw [hij.current] at hplace
    exact (h.idle hidle place hplace).answers hanswers
  · rw [hij.receipts]
    exact h.owner
  · intro m receipt hm hreceipt
    rw [hij.marker] at hm
    rw [hij.receipts] at hreceipt
    obtain ⟨hpending, hplace, hversion⟩ := h.answered m receipt hm hreceipt
    rw [hij.current]
    refine ⟨hpending, hplace, fun hends n tree hn htree => ?_⟩
    -- the target has been there before
    obtain ⟨n', hn', tree', htree', -⟩ := (h.pending m hm).2.1
    obtain rfl : n = n' := Place.release.inj (hn.symm.trans hn')
    have hsame : tree = tree' := Option.some.inj (htree.symm.trans (hij.releases htree'))
    exact hversion hends n tree hn (hsame ▸ htree')

/-- An install root with a pending upgrade that has no receipt yet. -/
theorem Install.Sound.staged {m : PendingUpgrade} {p t : String} (h : i.Sound base)
    (hreleases : j.releases = i.releases) (hreceipts : j.receipts = i.receipts)
    (hmarker : j.marker = .file m) (hp : m.previousRelease = .release p) (hpu : i.Usable base p)
    (ht : m.targetRelease = .release t) (htu : i.Usable base t)
    (hsettled : i.Settled base m.previousRelease)
    (hends : j.current = .link m.previousRelease ∨ j.current = .link m.targetRelease)
    (hunanswered : i.Unanswered m.commandId) : j.Sound base := by
  have hkept : ∀ {name}, i.Usable base name → j.Usable base name := by
    intro name hname
    rw [Install.Usable, hreleases]
    exact hname
  have hown : ∀ m', j.marker = .file m' → m' = m := by
    intro m' hm'
    rw [hmarker] at hm'
    exact (Slot.file.inj hm').symm
  refine ⟨hkept h.usable, ?_, ?_, ?_, ?_, ?_⟩
  · rcases hends with hcurrent | hcurrent
    · exact ⟨p, hp ▸ hcurrent, hkept hpu⟩
    · exact ⟨t, ht ▸ hcurrent, hkept htu⟩
  · intro m' hm'
    obtain rfl := hown m' hm'
    exact ⟨⟨p, hp, hkept hpu⟩, ⟨t, ht, hkept htu⟩, hsettled.answers (.of_eq hreceipts), hends⟩
  · intro hidle
    exact absurd hmarker (hidle m)
  · rw [hreceipts]
    exact h.owner
  · intro m' receipt hm' hreceipt
    obtain rfl := hown m' hm'
    rw [hreceipts] at hreceipt
    exact absurd hreceipt (hunanswered receipt)

theorem Install.Sound.pointed {q : UpgradeRequest} {c : CheckedUpgrade} (h : i.Sound base)
    (hrelease : i.HasRelease c) (hpointed : Pointed q c i j) : j.Sound base := by
  cases hpointed with
  | unchanged => exact h
  | marked current complete marker unanswered =>
      obtain ⟨name, hname, husable⟩ := h.current
      obtain rfl := Place.release.inj (CurrentLink.link.inj (current.symm.trans hname))
      have hsettled := h.idle (fun m hm => by simp [marker] at hm) _ current
      exact h.staged rfl rfl rfl rfl husable rfl hrelease.usable hsettled (.inl current) unanswered
  | moved current complete marker unanswered =>
      obtain ⟨name, hname, husable⟩ := h.current
      obtain rfl := Place.release.inj (CurrentLink.link.inj (current.symm.trans hname))
      have hsettled := h.idle (fun m hm => by simp [marker] at hm) _ current
      exact h.staged rfl rfl rfl rfl husable rfl hrelease.usable hsettled (.inr rfl) unanswered
  | resumed marker command target current unanswered =>
      rename_i m
      obtain ⟨⟨p, hp, hpu⟩, -, hsettled, -⟩ := h.pending m marker
      exact h.staged rfl rfl marker hp hpu target hrelease.usable hsettled
        (.inr (congrArg _ target.symm)) (command ▸ unanswered)

theorem Install.Sound.stageEffect {q : UpgradeRequest} (h : i.Sound base)
    (heffect : StageEffect q i j) : j.Sound base := by
  cases heffect with
  | grown grown => exact h.grown grown
  | pointed grown release pointed => exact (h.grown grown).pointed release pointed

theorem StageEffect.receipts {q : UpgradeRequest} (h : StageEffect q i j) :
    j.receipts = i.receipts := by
  cases h with
  | grown grown => exact grown.receipts
  | pointed grown release pointed => cases pointed <;> exact grown.receipts

/-- A second confirmation of one upgrade comes to the same status. -/
theorem Install.Sound.confirmation_status {m : PendingUpgrade} {place : Place}
    {status : UpgradeStatus} {observed : String} {receipt : UpgradeReceipt} (h : i.Sound base)
    (hmarker : i.marker = .file m) (hcurrent : i.current = .link place)
    (hstatus : m.confirmation place m.targetRelease m.previousRelease observed = some status)
    (hversion : m.previousRelease = m.targetRelease → ∀ name tree,
      m.targetRelease = .release name → i.releases name = some tree →
      tree.packageVersion = observed)
    (hreceipt : i.receipts m.commandId = .file receipt) : receipt.status = status := by
  obtain ⟨-, hend, hkept⟩ := h.answered m receipt hmarker hreceipt
  obtain ⟨-, ⟨name, hname, tree, htree, -⟩, -, -⟩ := h.pending m hmarker
  have hplace : place = m.endOf receipt.status :=
    CurrentLink.link.inj (hcurrent.symm.trans hend)
  by_cases hsame : m.previousRelease = m.targetRelease
  · -- the version decides, and it is the one of the only release involved
    have hdecides := hkept hsame name tree hname htree
    rw [hversion hsame name tree hname htree] at hdecides
    have htarget : place = m.targetRelease := by
      cases hst : receipt.status with
      | succeeded => rw [hplace, hst]; rfl
      | abortedBeforeActivation => rw [hplace, hst]; exact hsame
    rcases PendingUpgrade.confirmation_cases hstatus with ⟨rfl, -, hobserved⟩ | ⟨rfl, -, hnot⟩
    · exact hdecides.mpr hobserved
    · cases hst : receipt.status with
      | succeeded => exact absurd ⟨htarget, hdecides.mp hst⟩ hnot
      | abortedBeforeActivation => rfl
  · -- the two ends differ, so the link decides
    rcases PendingUpgrade.confirmation_cases hstatus with ⟨rfl, htarget, -⟩ | ⟨rfl, hback, -⟩
    · cases hst : receipt.status with
      | succeeded => rfl
      | abortedBeforeActivation =>
          rw [hst] at hplace
          exact absurd (hplace.symm.trans htarget) hsame
    · cases hst : receipt.status with
      | succeeded =>
          rw [hst] at hplace
          exact absurd (hback.symm.trans hplace) hsame
      | abortedBeforeActivation => rfl

/-- Where both ends of the pending upgrade are one release, `observed` is its version. -/
def Install.Observes (i : Install) (observed : String) : Prop :=
  ∀ m, i.marker = .file m → m.previousRelease = m.targetRelease → ∀ name tree,
    m.targetRelease = .release name → i.releases name = some tree → tree.packageVersion = observed

theorem RunningAgent.Sound.observes {a : RunningAgent} (h : a.Sound i) : i.Observes a.version := by
  obtain ⟨m', tree', hmarker', htree', hversion, hends⟩ := h
  intro m hmarker hsame name tree hname htree
  obtain rfl : m = m' := Slot.file.inj (hmarker.symm.trans hmarker')
  have hrelease : m.targetRelease = .release a.release := by
    rcases hends with hprevious | htarget
    · exact hsame ▸ hprevious
    · exact htarget
  obtain rfl := Place.release.inj (hname.symm.trans hrelease)
  rw [Option.some.inj (htree.symm.trans htree'), hversion]

theorem Install.Sound.answers_setReceipt {m : PendingUpgrade} {place : Place}
    {status : UpgradeStatus} {observed t : String} (h : i.Sound base)
    (hmarker : i.marker = .file m) (hcurrent : i.current = .link place)
    (hstatus : m.confirmation place m.targetRelease m.previousRelease observed = some status)
    (hversion : i.Observes observed) :
    i.Answers (i.setReceipt m.commandId ⟨m, status, observed, t⟩) := by
  intro commandId receipt hreceipt
  by_cases hown : commandId = m.commandId
  · subst hown
    refine ⟨⟨m, status, observed, t⟩, if_pos rfl, ?_, ?_⟩
    · exact (h.confirmation_status hmarker hcurrent hstatus (hversion m hmarker) hreceipt).symm
    · exact (h.answered m receipt hmarker hreceipt).1.symm
  · exact ⟨receipt, (if_neg hown).trans hreceipt, rfl, rfl⟩

theorem Install.Sound.setReceipt {m : PendingUpgrade} {place : Place}
    {status : UpgradeStatus} {observed t : String} (h : i.Sound base)
    (hmarker : i.marker = .file m) (hcurrent : i.current = .link place)
    (hstatus : m.confirmation place m.targetRelease m.previousRelease observed = some status)
    (hversion : i.Observes observed) :
    (i.setReceipt m.commandId ⟨m, status, observed, t⟩).Sound base := by
  have hanswers := h.answers_setReceipt (t := t) hmarker hcurrent hstatus
    hversion
  refine ⟨h.usable, h.current, ?_, ?_, ?_, ?_⟩
  · intro m' hm'
    obtain ⟨hp, ht, hsettled, hends⟩ := h.pending m' hm'
    exact ⟨hp, ht, hsettled.answers hanswers, hends⟩
  · intro hidle
    exact absurd hmarker (hidle m)
  · intro commandId receipt hreceipt
    by_cases hown : commandId = m.commandId
    · rw [Install.setReceipt] at hreceipt
      simp only [hown, if_true, Slot.file.injEq] at hreceipt
      rw [← hreceipt, hown]
    · exact h.owner commandId receipt ((if_neg hown).symm.trans hreceipt)
  · intro m' receipt hm' hreceipt
    obtain rfl : m' = m := Slot.file.inj (Eq.trans hm'.symm hmarker)
    have hreceipt : (⟨m', status, observed, t⟩ : UpgradeReceipt) = receipt :=
      Slot.file.inj ((if_pos rfl).symm.trans hreceipt)
    subst hreceipt
    refine ⟨rfl, ?_, ?_⟩
    · rcases PendingUpgrade.confirmation_cases hstatus with ⟨rfl, rfl, -⟩ | ⟨rfl, rfl, -⟩
      · exact hcurrent
      · exact hcurrent
    · intro hsame name tree hname htree
      rw [hversion m' hmarker hsame name tree hname htree]
      rcases PendingUpgrade.confirmation_cases hstatus with ⟨rfl, -, hobserved⟩ | ⟨rfl, hback, hnot⟩
      · exact iff_of_true rfl hobserved
      · exact iff_of_false (by simp) fun hobserved => hnot ⟨hback.trans hsame, hobserved⟩

/-- The marker may go when the link stands at a settled release. -/
theorem Install.Sound.clearMarker {place : Place} (h : i.Sound base)
    (hplace : ∃ name, place = .release name ∧ i.Usable base name) (hsettled : i.Settled base place) :
    ((i.setCurrent place).setMarker .absent).Sound base := by
  obtain ⟨name, rfl, husable⟩ := hplace
  refine ⟨h.usable, ⟨name, rfl, husable⟩, ?_, ?_, h.owner, ?_⟩
  · intro m hm
    cases hm
  · intro _ place' hplace'
    cases hplace'
    exact hsettled
  · intro m receipt hm
    cases hm

theorem Install.Sound.confirmEffect {observed : String} (h : i.Sound base)
    (hversion : i.Observes observed) (heffect : ConfirmEffect observed i j) : j.Sound base := by
  cases heffect with
  | unchanged => exact h
  | answered marker current confirmed => exact h.setReceipt marker current confirmed hversion
  | settled marker current confirmed =>
      rename_i m place status t
      have hanswers := h.answers_setReceipt (t := t) marker current confirmed hversion
      have hsound := h.setReceipt (t := t) marker current confirmed hversion
      obtain ⟨name, hname, husable⟩ := hsound.current
      obtain rfl : place = .release name := CurrentLink.link.inj (current.symm.trans hname)
      have hcleared := hsound.clearMarker ⟨name, rfl, husable⟩ ?_
      · rw [Install.setCurrent, ← hname] at hcleared
        exact hcleared
      · rcases PendingUpgrade.confirmation_cases confirmed with ⟨rfl, htarget, -⟩ | ⟨rfl, hback, -⟩
        · exact .inr ⟨m.commandId, _, if_pos rfl, rfl, htarget.symm⟩
        · rw [hback]
          exact (h.pending m marker).2.2.1.answers hanswers

theorem Install.Sound.answers_confirmEffect {observed : String} (h : i.Sound base)
    (hversion : i.Observes observed) (heffect : ConfirmEffect observed i j) : i.Answers j := by
  cases heffect with
  | unchanged => exact .refl i
  | answered marker current confirmed =>
      exact h.answers_setReceipt marker current confirmed hversion
  | settled marker current confirmed =>
      exact h.answers_setReceipt marker current confirmed hversion

end Invariant

/-! ### Steps -/

namespace UpgradeHost

variable {base : String} {h : UpgradeHost}

theorem running_ofCall {α : Type} {a a' : RunningAgent}
    {r : UpgradeWorld × Program.Outcome UpgradeFailure α} (hrunning : (ofCall a r).running = some a') :
    a' = a := by
  rcases r with ⟨w, o⟩
  cases o with
  | returned _ => exact (Option.some.inj hrunning).symm
  | raised _ => exact (Option.some.inj hrunning).symm
  | crashed => cases hrunning

/-- What a step does to the install root. -/
inductive StepEffect (h : UpgradeHost) : UpgradeStep → Install → Prop
  | unchanged {s : UpgradeStep} : StepEffect h s h.install
  | staged {q : UpgradeRequest} {fates : List EffectFate} {j : Install}
      (staged : StageEffect q h.install j) : StepEffect h (.stage q fates) j
  | confirmed {confirmedAt : String} {fates : List EffectFate} {a : RunningAgent} {j : Install}
      (running : h.running = some a) (confirming : a.confirming = true)
      (confirmed : ConfirmEffect a.version h.install j) : StepEffect h (.confirm confirmedAt fates) j
  | rolledBack {m : PendingUpgrade} (marker : h.install.marker = .file m) :
      StepEffect h (.restart true) ((h.install.setCurrent m.previousRelease).setMarker .absent)

theorem stepEffect (h : UpgradeHost) (s : UpgradeStep) : StepEffect h s (h.step s).install := by
  cases s with
  | stage q fates =>
      cases hrunning : h.running with
      | none =>
          simp only [step, hrunning]
          exact .unchanged
      | some a =>
          simp only [step, hrunning]
          exact .staged (Ends.ofCall (stageAgentUpgrade_ends q h.install))
  | confirm confirmedAt fates =>
      cases hrunning : h.running with
      | none =>
          simp only [step, hrunning]
          exact .unchanged
      | some a =>
          by_cases hconfirming : a.confirming = true
          · simp only [step, hrunning, hconfirming, if_true]
            exact .confirmed hrunning hconfirming
              (Ends.ofCall (confirmRunningUpgrade_ends a.version confirmedAt h.install))
          · simp only [step, hrunning, hconfirming]
            exact .unchanged
  | restart rollback =>
      cases rollback with
      | false => exact .unchanged
      | true =>
          rcases rollbackUnconfirmedUpgrade_cases h.install with hsame | ⟨m, hmarker, hback⟩
          · simp only [step, hsame, if_true]
            exact .unchanged
          · simp only [step, hback, if_true]
            exact .rolledBack hmarker

theorem Sound.install_step (hs : h.Sound base) (s : UpgradeStep) :
    (h.step s).install.Sound base := by
  have heffect := stepEffect h s
  generalize (h.step s).install = j at heffect
  cases heffect with
  | unchanged => exact hs.install
  | staged staged => exact hs.install.stageEffect staged
  | confirmed running confirming confirmed =>
      exact hs.install.confirmEffect (hs.running _ running confirming).observes confirmed
  | rolledBack marker =>
      obtain ⟨hprevious, -, hsettled, -⟩ := hs.install.pending _ marker
      exact hs.install.clearMarker hprevious hsettled

theorem Sound.answers_step (hs : h.Sound base) (s : UpgradeStep) :
    h.install.Answers (h.step s).install := by
  have heffect := stepEffect h s
  generalize (h.step s).install = j at heffect
  cases heffect with
  | unchanged => exact .refl _
  | staged staged => exact .of_eq staged.receipts
  | confirmed running confirming confirmed =>
      exact hs.install.answers_confirmEffect (hs.running _ running confirming).observes confirmed
  | rolledBack marker => exact .of_eq rfl

end UpgradeHost

/-- Staging leaves a pending upgrade pending. -/
theorem RunningAgent.Sound.stageEffect {a : RunningAgent} {q : UpgradeRequest} {i j : Install}
    (h : a.Sound i) (heffect : StageEffect q i j) : a.Sound j := by
  obtain ⟨m, tree, hmarker, htree, hrest⟩ := h
  cases heffect with
  | grown grown => exact ⟨m, tree, grown.marker ▸ hmarker, grown.releases htree, hrest⟩
  | pointed grown release pointed =>
      have hmarker' := grown.marker.trans hmarker
      have htree' := grown.releases htree
      cases pointed with
      | unchanged => exact ⟨m, tree, hmarker', htree', hrest⟩
      | marked current complete marker => simp [marker] at hmarker'
      | moved current complete marker => simp [marker] at hmarker'
      | resumed marker command target current unanswered =>
          exact ⟨m, tree, hmarker', htree', hrest⟩

/-- A daemon that starts with an upgrade pending runs one of its two ends. -/
theorem launch_sound {base : String} {i : Install} {a : RunningAgent} (h : i.Sound base)
    (hlaunch : launch i = some a) (hconfirming : a.confirming = true) : a.Sound i := by
  obtain ⟨name, hcurrent, tree, htree, hexecutable, -⟩ := h.current
  simp only [launch, hcurrent, htree, hexecutable, if_true, Option.some.injEq] at hlaunch
  subst hlaunch
  cases hmarker : i.marker with
  | absent => simp [hmarker] at hconfirming
  | irregular => simp [hmarker] at hconfirming
  | malformed => simp [hmarker] at hconfirming
  | file m =>
      refine ⟨m, tree, hmarker, htree, rfl, ?_⟩
      rcases (h.pending m hmarker).2.2.2 with hprevious | htarget
      · exact .inl (CurrentLink.link.inj (hprevious.symm.trans hcurrent))
      · exact .inr (CurrentLink.link.inj (htarget.symm.trans hcurrent))

namespace UpgradeHost

variable {base : String} {h : UpgradeHost}

theorem Sound.step (hs : h.Sound base) (s : UpgradeStep) : (h.step s).Sound base := by
  have hinstall := hs.install_step s
  refine ⟨hinstall, fun a hrunning hconfirming => ?_⟩
  cases s with
  | stage q fates =>
      cases hagent : h.running with
      | none =>
          simp only [UpgradeHost.step, hagent] at hrunning
          cases hrunning
      | some a' =>
          simp only [UpgradeHost.step, hagent] at hrunning ⊢
          obtain rfl := running_ofCall hrunning
          exact (hs.running a hagent hconfirming).stageEffect
            (Ends.ofCall (stageAgentUpgrade_ends q h.install))
  | confirm confirmedAt fates =>
      cases hagent : h.running with
      | none =>
          simp only [UpgradeHost.step, hagent] at hrunning
          cases hrunning
      | some a' =>
          by_cases harmed : a'.confirming = true
          · -- a confirmation is made once
            simp only [UpgradeHost.step, hagent, harmed, if_true] at hrunning
            rw [running_ofCall hrunning] at hconfirming
            cases hconfirming
          · simp only [UpgradeHost.step, hagent, harmed] at hrunning
            rw [← Option.some.inj (hagent.symm.trans hrunning)] at hconfirming
            exact absurd hconfirming harmed
  | restart rollback => exact launch_sound hinstall hrunning hconfirming

theorem Sound.after (hs : h.Sound base) (steps : List UpgradeStep) : (h.after steps).Sound base := by
  induction steps generalizing h with
  | nil => exact hs
  | cons s steps ih => exact ih (hs.step s)

theorem Sound.answers_after (hs : h.Sound base) (steps : List UpgradeStep) :
    h.install.Answers (h.after steps).install := by
  induction steps generalizing h with
  | nil => exact .refl _
  | cons s steps ih => exact (hs.answers_step s).trans (ih (hs.step s))

/-- While an upgrade is pending the link moves forward by its own command, and back by the
launcher. -/
theorem moved_of_pending {m : PendingUpgrade} {s : UpgradeStep} (hm : h.install.marker = .file m)
    (hmoved : (h.step s).install.current ≠ h.install.current) :
    (∃ q fates, s = .stage q fates ∧ q.commandId = m.commandId ∧
        (h.step s).install.current = .link m.targetRelease) ∨
      (s = .restart true ∧ (h.step s).install.current = .link m.previousRelease) := by
  have heffect := stepEffect h s
  generalize (h.step s).install = j at heffect hmoved ⊢
  cases heffect with
  | unchanged => exact absurd rfl hmoved
  | rolledBack marker =>
      obtain rfl := Slot.file.inj (hm.symm.trans marker)
      exact .inr ⟨rfl, rfl⟩
  | confirmed running confirming confirmed =>
      cases confirmed with
      | unchanged => exact absurd rfl hmoved
      | answered => exact absurd rfl hmoved
      | settled => exact absurd rfl hmoved
  | staged staged =>
      cases staged with
      | grown grown => exact absurd grown.current hmoved
      | pointed grown release pointed =>
          have hm' := grown.marker.trans hm
          cases pointed with
          | unchanged => exact absurd grown.current hmoved
          | marked current complete marker => simp [marker] at hm'
          | moved current complete marker => simp [marker] at hm'
          | resumed marker command target current unanswered =>
              obtain rfl := Slot.file.inj (hm'.symm.trans marker)
              exact .inl ⟨_, _, rfl, command.symm, congrArg _ target.symm⟩

/-- A command that has its receipt does not move the link. -/
theorem current_stage_of_receipt {q : UpgradeRequest} {fates : List EffectFate}
    {receipt : UpgradeReceipt} (hreceipt : h.install.receipts q.commandId = .file receipt) :
    (h.step (.stage q fates)).install.current = h.install.current := by
  have heffect := stepEffect h (.stage q fates)
  generalize (h.step (.stage q fates)).install = j at heffect ⊢
  cases heffect with
  | unchanged => rfl
  | staged staged =>
      cases staged with
      | grown grown => exact grown.current
      | pointed grown release pointed =>
          have hreceipt' := (congrFun grown.receipts q.commandId).trans hreceipt
          cases pointed with
          | unchanged => exact grown.current
          | marked => exact grown.current
          | moved current complete marker unanswered => exact absurd hreceipt' (unanswered receipt)
          | resumed marker command target current unanswered =>
              exact absurd hreceipt' (unanswered receipt)

/-- A confirmation writes success while the target is current. -/
theorem receipt_of_setReceipt {i : Install} {m : PendingUpgrade} {place : Place}
    {status : UpgradeStatus} {observed t commandId : String} {receipt : UpgradeReceipt}
    (hcurrent : i.current = .link place)
    (hconfirmed : m.confirmation place m.targetRelease m.previousRelease observed = some status)
    (hreceipt : (i.setReceipt m.commandId ⟨m, status, observed, t⟩).receipts commandId =
      .file receipt)
    (hstatus : receipt.status = .succeeded) :
    i.receipts commandId = .file receipt ∨ i.current = .link receipt.pending.targetRelease := by
  by_cases hown : commandId = m.commandId
  · have heq : (⟨m, status, observed, t⟩ : UpgradeReceipt) = receipt :=
      Slot.file.inj ((if_pos hown).symm.trans hreceipt)
    subst heq
    rcases PendingUpgrade.confirmation_cases hconfirmed with ⟨-, htarget, -⟩ | ⟨rfl, -, -⟩
    · exact .inr (htarget ▸ hcurrent)
    · cases hstatus
  · exact .inl ((if_neg hown).symm.trans hreceipt)

theorem receipt_step {s : UpgradeStep} {commandId : String} {receipt : UpgradeReceipt}
    (hreceipt : (h.step s).install.receipts commandId = .file receipt)
    (hstatus : receipt.status = .succeeded) :
    h.install.receipts commandId = .file receipt ∨
      h.install.current = .link receipt.pending.targetRelease := by
  have heffect := stepEffect h s
  generalize (h.step s).install = j at heffect hreceipt
  cases heffect with
  | unchanged => exact .inl hreceipt
  | rolledBack => exact .inl hreceipt
  | staged staged => exact .inl (staged.receipts ▸ hreceipt)
  | confirmed running confirming confirmed =>
      cases confirmed with
      | unchanged => exact .inl hreceipt
      | answered marker current confirmed =>
          exact receipt_of_setReceipt current confirmed hreceipt hstatus
      | settled marker current confirmed =>
          exact receipt_of_setReceipt current confirmed hreceipt hstatus

/-- A succeeded receipt was preceded by a state in which its target was current. -/
theorem current_of_receipt (h : UpgradeHost)
    (hnone : ∀ c receipt, h.install.receipts c ≠ .file receipt) (steps : List UpgradeStep) {commandId : String} {receipt : UpgradeReceipt}
    (hreceipt : (h.after steps).install.receipts commandId = .file receipt)
    (hstatus : receipt.status = .succeeded) :
    ∃ earlier, earlier <+: steps ∧
      (h.after earlier).install.current = .link receipt.pending.targetRelease := by
  induction steps using List.reverseRecOn with
  | nil => exact absurd hreceipt (hnone commandId receipt)
  | append_singleton steps s ih =>
      have hstep : (h.after (steps ++ [s])).install = ((h.after steps).step s).install := by
        simp [UpgradeHost.after]
      rw [hstep] at hreceipt
      rcases receipt_step hreceipt hstatus with hbefore | hcurrent
      · obtain ⟨earlier, hpre, hcurrent⟩ := ih hbefore
        exact ⟨earlier, hpre.trans (List.prefix_append steps [s]), hcurrent⟩
      · exact ⟨steps, List.prefix_append steps [s], hcurrent⟩

/-- A host that runs a complete release and has seen no upgrade. -/
def Installed (base : String) (h : UpgradeHost) : Prop :=
  (∃ tree, h.install.releases base = some tree ∧ tree.executable = true ∧
      tree.metadata.isSome = true) ∧
    h.install.current = .link (.release base) ∧ h.install.marker = .absent ∧
    (∀ commandId, h.install.receipts commandId = .absent) ∧ h.running = launch h.install

theorem Installed.sound (hinstalled : h.Installed base) : h.Sound base := by
  obtain ⟨⟨tree, htree, hexecutable, hmetadata⟩, hcurrent, hmarker, hreceipts, hrunning⟩ :=
    hinstalled
  have husable : h.install.Usable base base :=
    ⟨tree, htree, hexecutable, hmetadata, .inl rfl⟩
  have hinstall : h.install.Sound base := by
    refine ⟨husable, ⟨base, hcurrent, husable⟩, ?_, ?_, ?_, ?_⟩
    · intro m hm
      simp [hmarker] at hm
    · intro _ place hplace
      exact .inl (CurrentLink.link.inj (hplace.symm.trans hcurrent))
    · intro commandId receipt hreceipt
      simp [hreceipts] at hreceipt
    · intro m receipt hm
      simp [hmarker] at hm
  exact ⟨hinstall, fun a ha hconfirming => launch_sound hinstall (hrunning ▸ ha) hconfirming⟩

/-- The command of the pending upgrade. -/
def Pending (h : UpgradeHost) (commandId : String) : Prop :=
  ∃ m, h.install.marker = .file m ∧ m.commandId = commandId

/-- The safety of upgrades, over every run from an installed host. The link leads to a
complete release; at most one upgrade is pending, and the link has left the last settled
release only for its target; while it is pending no other command moves the link; a receipt
of success was preceded by its target as the current release; and a command that has its
receipt neither moves the link nor comes to another status. -/
theorem agent_upgrades_safe (hinstalled : h.Installed base) (steps : List UpgradeStep) :
    (∃ name, (h.after steps).install.current = .link (.release name) ∧
      (h.after steps).install.Usable base name) ∧
    ((∀ c c', (h.after steps).Pending c → (h.after steps).Pending c' → c = c') ∧
      ∀ place, (h.after steps).install.current = .link place →
        (h.after steps).install.Settled base place ∨
        ∃ m, (h.after steps).install.marker = .file m ∧ place = m.targetRelease ∧
          (h.after steps).install.Settled base m.previousRelease) ∧
    (∀ m s, (h.after steps).install.marker = .file m →
      ((h.after steps).step s).install.current ≠ (h.after steps).install.current →
        (∃ q fates, s = .stage q fates ∧ q.commandId = m.commandId ∧
          ((h.after steps).step s).install.current = .link m.targetRelease) ∨
        (s = .restart true ∧
          ((h.after steps).step s).install.current = .link m.previousRelease)) ∧
    (∀ c receipt, (h.after steps).install.receipts c = .file receipt →
      receipt.status = .succeeded → receipt.pending.commandId = c ∧
        ∃ earlier, earlier <+: steps ∧
          (h.after earlier).install.current = .link receipt.pending.targetRelease) ∧
    (∀ c receipt more, (h.after steps).install.receipts c = .file receipt →
      (∃ receipt', ((h.after steps).after more).install.receipts c = .file receipt' ∧
        receipt'.status = receipt.status ∧ receipt'.pending = receipt.pending) ∧
      ∀ q fates, q.commandId = c →
        (((h.after steps).after more).step (.stage q fates)).install.current =
          ((h.after steps).after more).install.current) := by
  have hsound := hinstalled.sound.after steps
  refine ⟨hsound.install.current, ⟨?_, ?_⟩, ?_, ?_, ?_⟩
  · intro c c' ⟨m, hm, hc⟩ ⟨m', hm', hc'⟩
    rw [← hc, ← hc', Slot.file.inj (hm.symm.trans hm')]
  · intro place hplace
    by_cases hpending : ∃ m, (h.after steps).install.marker = .file m
    · obtain ⟨m, hm⟩ := hpending
      obtain ⟨-, -, hsettled, hends⟩ := hsound.install.pending m hm
      rcases hends with hprevious | htarget
      · exact .inl (CurrentLink.link.inj (hprevious.symm.trans hplace) ▸ hsettled)
      · exact .inr ⟨m, hm, CurrentLink.link.inj (hplace.symm.trans htarget), hsettled⟩
    · exact .inl (hsound.install.idle (fun m hm => hpending ⟨m, hm⟩) place hplace)
  · intro m s hm hmoved
    exact moved_of_pending hm hmoved
  · intro c receipt hreceipt hstatus
    refine ⟨hsound.install.owner c receipt hreceipt, ?_⟩
    refine current_of_receipt h (fun c receipt hfile => ?_) steps hreceipt hstatus
    simp [hinstalled.2.2.2.1] at hfile
  · intro c receipt more hreceipt
    have hkept := hsound.answers_after more c receipt hreceipt
    refine ⟨hkept, fun q fates hq => ?_⟩
    obtain ⟨receipt', hreceipt', -⟩ := hkept
    exact current_stage_of_receipt (hq ▸ hreceipt')

/-- A host that runs its first release. -/
def firstInstall : UpgradeHost :=
  let install : Install :=
    { rootsLinked := false
      releases := fun name => if name = "0.6.16" then some ⟨true, some .null, "0.6.16"⟩ else none
      current := .link (.release "0.6.16"), marker := .absent, receipts := fun _ => .absent }
  ⟨install, launch install⟩

/-- The command that brings it to the next version. -/
def nextVersion : UpgradeRequest :=
  let digest := "sha256:" ++ String.ofList (List.replicate 64 'a')
  { commandId := "command_upgrade-1", envelopeDigest := digest
    payload := .obj [("version", .str "0.6.17"), ("archive_path", .str "ophelia-source.tar.gz"),
      ("source_digest", .str digest)]
    archive := .file ⟨digest, .ok "0.6.17", .ok (true, "0.6.17")⟩, nonce := "0" }

theorem firstInstall_installed : firstInstall.Installed "0.6.16" :=
  ⟨⟨⟨true, some .null, "0.6.16"⟩, rfl, rfl, rfl⟩, rfl, rfl, fun _ => rfl, rfl⟩

/-- The daemon dies between the marker and the link, is delivered the command again, and is
confirmed after the next restart. -/
def interruptedUpgrade : List UpgradeStep :=
  [.stage nextVersion (List.replicate 8 .done ++ [.dies]), .restart false, .stage nextVersion [],
    .restart false, .confirm "2026-07-21T00:00:00Z" []]

theorem agent_upgrades_safe_interrupted :
    firstInstall.Installed "0.6.16" ∧
    ∃ receipt, (firstInstall.after interruptedUpgrade).install.receipts "command_upgrade-1" =
        .file receipt ∧ receipt.status = .succeeded ∧
      ∃ earlier, earlier <+: interruptedUpgrade ∧
        (firstInstall.after earlier).install.current = .link receipt.pending.targetRelease := by
  refine ⟨firstInstall_installed, ?_⟩
  have hreceipt : ∃ receipt, (firstInstall.after interruptedUpgrade).install.receipts
      "command_upgrade-1" = .file receipt ∧ receipt.status = .succeeded := ⟨_, rfl, rfl⟩
  obtain ⟨receipt, hreceipt, hstatus⟩ := hreceipt
  have hsafe := agent_upgrades_safe firstInstall_installed interruptedUpgrade
  exact ⟨receipt, hreceipt, hstatus, (hsafe.2.2.2.1 _ receipt hreceipt hstatus).2⟩

end UpgradeHost

end Ophelia
