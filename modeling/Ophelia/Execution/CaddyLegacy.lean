import Ophelia.Execution.CaddySites

/-!
# Ophelia.Execution.CaddyLegacy

The first activation of a scope that still has a site of the older layout. Between the
attempts of such an operation the host is in one of two phases. It is *fresh* when the legacy
site is live, the include is the one from before and there is no record; it is *held* when
the candidate has a complete record of both, whatever stands in `sites.d`. Every attempt
moves from phase to phase, so the legacy bytes are live or on record after any crash.

What fails is the way back. A deactivation without a record unlinks the include that it
should have left alone, a failing retry that does not get as far as the record leaves the
site down, and so does a failing prune on a host without an edge. The last section says under
which conditions on each attempt the legacy site and the previous include are restored.
-/

namespace Ophelia

open Program

/-! ### Effects -/

namespace Host

variable {P : Host → Prop} {Q : Unit → Host → Prop} {E : ComposeFailure → Host → Prop}
  {C : Host → Prop}

theorem triple_moment (htape : ∀ h, P h → P { h with tape := h.tape.tail }) :
    Triple P moment (fun _ => P) E C := by
  intro h hP
  unfold moment
  have htail := htape h hP
  cases ht : h.tape with
  | nil => simpa [ht] using hP
  | cons m ms => simpa [ht] using htail

theorem triple_effect {f : Host → Host} {partly : Nat → Host → Host}
    (htape : ∀ h, P h → P { h with tape := h.tape.tail }) (hf : ∀ h, P h → Q () (f h))
    (hcrash : ∀ h, P h → C h) (htorn : ∀ n h, P h → C (partly n h)) :
    Triple P (effect f partly) Q E C := by
  refine Triple.bind (triple_moment htape) fun m => ?_
  cases m with
  | crashes => exact Triple.crash hcrash
  | torn n => exact Triple.bind (R := fun _ => C) (Triple.modify (htorn n)) fun _ =>
      Triple.crash fun _ h => h
  | proceeds => exact Triple.modify hf
  | fails => exact Triple.modify hf
  | breaks => exact Triple.modify hf

/-- A regular file is unlinked, or was not there. -/
theorem triple_unlinkSite {name : String} (htape : ∀ h, P h → P { h with tape := h.tape.tail })
    (hregular : ∀ h, P h → ∃ content, h.site? name = FileNode.ofBytes content)
    (hnone : ∀ h, P h → h.site? name = none → Q () h)
    (herase : ∀ h, P h → Q () (h.eraseSite name)) (hcrash : ∀ h, P h → C h) :
    Triple P (unlinkSite name) Q E C := by
  refine Triple.bind_get fun h hP => ?_
  obtain ⟨content, hsite⟩ := hregular h hP
  rw [hsite]
  cases content with
  | none => exact Triple.ret fun s hs => hs ▸ hnone h hP hsite
  | some content => exact (triple_effect htape herase hcrash fun _ => hcrash).at_state hP

/-- A regular file is replaced, unless `sites.d` is no real directory. -/
theorem triple_atomicSite {name : String} {value : FileBytes}
    (htape : ∀ h, P h → P { h with tape := h.tape.tail })
    (hroot : ∀ h, P h → P { h with sitesRoot := .directory })
    (hregular : ∀ h, P h → ∃ content, h.site? name = FileNode.ofBytes content)
    (hput : ∀ h, P h → Q () (h.putSite name (.regular value)))
    (hraise : ∀ e h, P h → h.sitesRoot ≠ .directory → E e h) (hcrash : ∀ h, P h → C h) :
    Triple P (atomicSite name value) Q E C := by
  have hmkdir : Triple P mkdirSites (fun _ h => P h ∧ h.sitesRoot ∈ [.directory, .symlink]) E C := by
    refine Triple.bind_get fun h hP => ?_
    cases hnode : h.sitesRoot with
    | missing =>
        exact (triple_effect htape (fun h hP => ⟨hroot h hP, by simp⟩) hcrash
          fun _ => hcrash).at_state hP
    | directory => exact Triple.ret fun s hs => hs ▸ ⟨hP, by simp [hnode]⟩
    | symlink => exact Triple.ret fun s hs => hs ▸ ⟨hP, by simp [hnode]⟩
    | other => exact Triple.raise fun s hs => hs ▸ hraise _ h hP (by simp [hnode])
  refine Triple.bind hmkdir fun _ => Triple.bind_get fun h hh => ?_
  obtain ⟨hP, hdir⟩ := hh
  obtain ⟨content, hsite⟩ := hregular h hP
  have hlink : FileNode.isSymlink (h.site? name) = false := by
    rw [hsite]
    cases content <;> rfl
  have hplain : h.site? name ≠ some .directory := by
    rw [hsite]
    cases content <;> simp [FileNode.ofBytes]
  by_cases hsym : h.sitesRoot = .symlink
  · rw [if_pos (Or.inl hsym)]
    exact Triple.raise fun s hs => hs ▸ hraise _ h hP (by simp [hsym])
  · rw [if_neg (by simp [hsym, hlink]), if_neg hplain]
    exact (triple_effect htape hput hcrash fun _ => hcrash).at_state hP

end Host

/-! ### Phases -/

/-- A complete record, next to a legacy site that is down or unchanged and a regular include. -/
structure Holding [Platform] (legacy : FileBytes) (previous : Option FileBytes)
    (d : Displacement) (legacySite includeSite : Option FileNode) : Prop where
  records : ComposeBackend.Records d legacy previous
  legacySize : legacy.length ≤ Host.MAX_SITE_BYTES
  previousSize : ∀ content, previous = some content → content.length ≤ Host.MAX_SITE_BYTES
  legacySite : legacySite = none ∨ legacySite = some (.regular legacy)
  includeSite : ∃ content, includeSite = FileNode.ofBytes content

namespace ComposeBackend

variable [Platform] (b : ComposeBackend) (legacy : FileBytes) (previous : Option FileBytes)

/-- The legacy site is live and the include is the one from before. -/
def Stands (h : Host) : Prop :=
  h.site? b.legacyCaddyInclude = some (.regular legacy) ∧
    h.site? b.caddyInclude = FileNode.ofBytes previous

def Fresh (h : Host) : Prop :=
  (b.displaced h).state = .missing ∧ b.Stands legacy previous h

def Held (h : Host) : Prop :=
  Holding legacy previous (b.displaced h) (h.site? b.legacyCaddyInclude) (h.site? b.caddyInclude)

def Phase (h : Host) : Prop :=
  b.Fresh legacy previous h ∨ b.Held legacy previous h

omit [Platform] in
theorem legacyCaddyInclude_ne : b.legacyCaddyInclude ≠ b.caddyInclude :=
  legacyCaddyIncludeName_ne _ _ _ rfl

variable {b legacy previous} {h : Host}

omit [Platform] in
@[simp] theorem displaced_setDisplaced (f : Displacement → Displacement) :
    b.displaced (h.setDisplaced b.scope b.revisionId f) = f (b.displaced h) := by
  simp [displaced, files, Host.setDisplaced, Host.setScope]

/-! What writes to `sites.d` do to a held phase. -/

theorem Held.putInclude (hh : b.Held legacy previous h) (content : FileBytes) :
    b.Held legacy previous (h.putSite b.caddyInclude (.regular content)) := by
  refine ⟨hh.records, hh.legacySize, hh.previousSize, ?_, some content, ?_⟩
  · rw [Host.site?_putSite, if_neg b.legacyCaddyInclude_ne]
    exact hh.legacySite
  · rw [Host.site?_putSite, if_pos rfl]
    rfl

theorem Held.eraseInclude (hh : b.Held legacy previous h) :
    b.Held legacy previous (h.eraseSite b.caddyInclude) := by
  refine ⟨hh.records, hh.legacySize, hh.previousSize, ?_, none, ?_⟩
  · rw [Host.site?_eraseSite, if_neg b.legacyCaddyInclude_ne]
    exact hh.legacySite
  · rw [Host.site?_eraseSite, if_pos rfl]
    rfl

theorem Held.putLegacy (hh : b.Held legacy previous h) :
    b.Held legacy previous (h.putSite b.legacyCaddyInclude (.regular legacy)) := by
  refine ⟨hh.records, hh.legacySize, hh.previousSize, Or.inr ?_, ?_⟩
  · rw [Host.site?_putSite, if_pos rfl]
  · rw [Host.site?_putSite, if_neg b.legacyCaddyInclude_ne.symm]
    exact hh.includeSite

theorem Held.eraseLegacy (hh : b.Held legacy previous h) :
    b.Held legacy previous (h.eraseSite b.legacyCaddyInclude) := by
  refine ⟨hh.records, hh.legacySize, hh.previousSize, Or.inl ?_, ?_⟩
  · rw [Host.site?_eraseSite, if_pos rfl]
  · rw [Host.site?_eraseSite, if_neg b.legacyCaddyInclude_ne.symm]
    exact hh.includeSite

theorem Held.load (hh : b.Held legacy previous h) :
    loadLegacyCaddyDisplacement (b.displaced h) = .ok (some ⟨legacy, previous⟩) :=
  load_of_records hh.records hh.legacySize hh.previousSize

theorem Held.regularLegacy (hh : b.Held legacy previous h) :
    ∃ content, h.site? b.legacyCaddyInclude = FileNode.ofBytes content := by
  rcases hh.legacySite with hlegacy | hlegacy
  · exact ⟨none, hlegacy⟩
  · exact ⟨some legacy, hlegacy⟩

/-! ### Displacing -/

omit [Platform] in
theorem safeCaddyBytes_ofBytes (content : Option FileBytes) :
    (∃ e, safeCaddyBytes (FileNode.ofBytes content) = .error e) ∨
      (safeCaddyBytes (FileNode.ofBytes content) = .ok content ∧
        ∀ c, content = some c → c.length ≤ Host.MAX_SITE_BYTES) := by
  cases content with
  | none => exact Or.inr ⟨rfl, fun c hc => absurd hc (by simp)⟩
  | some content =>
      by_cases hsize : content.length ≤ Host.MAX_SITE_BYTES
      · refine Or.inr ⟨safeCaddyBytes_regular hsize, ?_⟩
        intro c hc
        exact Option.some.inj hc ▸ hsize
      · refine Or.inl ⟨.composeBackendError "Managed Caddy site is unavailable or unsafe.", ?_⟩
        simp only [FileNode.ofBytes, Option.map_some, safeCaddyBytes, FileNode.present,
          reduceCtorEq, if_false, if_pos (Nat.not_le.mp hsize)]

/-- A fresh phase whose record has got somewhere, without its `state.json`. -/
def FreshWith (b : ComposeBackend) (legacy : FileBytes) (previous : Option FileBytes)
    (p : Displacement → Prop) (h : Host) : Prop :=
  b.Fresh legacy previous h ∧ p (b.displaced h)

omit [Platform] in
theorem Fresh.setDisplaced (hh : b.Fresh legacy previous h) {f : Displacement → Displacement}
    (hf : (f (b.displaced h)).state = (b.displaced h).state) :
    b.Fresh legacy previous (h.setDisplaced b.scope b.revisionId f) := by
  refine ⟨?_, hh.2⟩
  rw [displaced_setDisplaced, hf]
  exact hh.1

omit [Platform] in
theorem triple_mkdirDisplaced {p : Displacement → Prop}
    (hp : ∀ d, p d → p { d with root := .directory }) :
    Triple (b.FreshWith legacy previous p) b.mkdirDisplaced
      (fun _ => b.FreshWith legacy previous fun d => p d ∧ d.root = .directory)
      (fun _ => b.Fresh legacy previous) (b.Fresh legacy previous) := by
  refine Triple.bind_get fun h hh => ?_
  cases hroot : (b.displaced h).root with
  | missing =>
      refine (Host.triple_effect (P := b.FreshWith legacy previous p) (fun _ hh => hh) ?_
        (fun _ hh => hh.1) fun _ _ hh => hh.1).at_state hh
      intro h hh
      refine ⟨hh.1.setDisplaced rfl, ?_⟩
      rw [displaced_setDisplaced]
      exact ⟨hp _ hh.2, rfl⟩
  | directory => exact Triple.ret fun s hs => hs ▸ ⟨hh.1, hh.2, hroot⟩
  | symlink => exact Triple.raise fun s hs => hs ▸ hh.1
  | other => exact Triple.raise fun s hs => hs ▸ hh.1

omit [Platform] in
theorem triple_atomicDisplaced {p q : Displacement → Prop} {file : DisplacedFile}
    {value : FileBytes} (hp : ∀ d, p d → p { d with root := .directory })
    (hq : ∀ d, p d → d.root = .directory → q (file.set d (some (.regular value)))) :
    Triple (b.FreshWith legacy previous p) (b.atomicDisplaced file value)
      (fun _ => b.FreshWith legacy previous q)
      (fun _ => b.Fresh legacy previous) (b.Fresh legacy previous) := by
  refine Triple.bind (triple_mkdirDisplaced hp) fun _ => Triple.bind_get fun h hh => ?_
  have hwrite : Triple (b.FreshWith legacy previous fun d => p d ∧ d.root = .directory)
      (Host.effect (fun h => h.setDisplaced b.scope b.revisionId fun d =>
        file.set d (some (.regular value))) b.leaveTemporary)
      (fun _ => b.FreshWith legacy previous q)
      (fun _ => b.Fresh legacy previous) (b.Fresh legacy previous) := by
    refine Host.triple_effect (fun _ hh => hh) ?_ (fun _ hh => hh.1) fun _ h hh => ?_
    · intro h hh
      refine ⟨hh.1.setDisplaced (by cases file <;> rfl), ?_⟩
      rw [displaced_setDisplaced]
      exact hq _ hh.2.1 hh.2.2
    · exact hh.1.setDisplaced rfl
  split
  · exact Triple.raise fun s hs => hs ▸ hh.1
  · exact Triple.raise fun s hs => hs ▸ hh.1
  · exact hwrite.at_state hh

omit [Platform] in
theorem triple_unlinkDisplaced {p q : Displacement → Prop} {file : DisplacedFile}
    (hnone : ∀ d, p d → file.node d = none → q d) (hq : ∀ d, p d → q (file.set d none)) :
    Triple (b.FreshWith legacy previous p) (b.unlinkDisplaced file)
      (fun _ => b.FreshWith legacy previous q)
      (fun _ => b.Fresh legacy previous) (b.Fresh legacy previous) := by
  refine Triple.bind_get fun h hh => ?_
  split
  · rename_i hnode
    exact Triple.ret fun s hs => hs ▸ ⟨hh.1, hnone _ hh.2 hnode⟩
  · exact Triple.raise fun s hs => hs ▸ hh.1
  · refine (Host.triple_effect (P := b.FreshWith legacy previous p) (fun _ hh => hh) ?_
      (fun _ hh => hh.1) fun _ _ hh => hh.1).at_state hh
    intro h hh
    refine ⟨hh.1.setDisplaced (by cases file <;> rfl), ?_⟩
    rw [displaced_setDisplaced]
    exact hq _ hh.2

/-- The copies are there: only `state.json` is missing. -/
def Copied (legacy : FileBytes) (previous : Option FileBytes) (d : Displacement) : Prop :=
  d.root = .directory ∧ d.legacy = some (.regular legacy) ∧
    d.previousTarget = FileNode.ofBytes previous

/-- The record takes effect with its `state.json`. -/
theorem triple_atomicState (hlegacy : legacy.length ≤ Host.MAX_SITE_BYTES)
    (hprevious : ∀ c, previous = some c → c.length ≤ Host.MAX_SITE_BYTES) :
    Triple (b.FreshWith legacy previous (Copied legacy previous))
      (b.atomicState (contentDigest legacy) (previous.map contentDigest))
      (fun _ => b.Held legacy previous)
      (fun _ => b.Fresh legacy previous) (b.Phase legacy previous) := by
  have hmkdir : Triple (b.FreshWith legacy previous (Copied legacy previous)) b.mkdirDisplaced
      (fun _ => b.FreshWith legacy previous fun d =>
        Copied legacy previous d ∧ d.root = .directory)
      (fun _ => b.Fresh legacy previous) (b.Fresh legacy previous) :=
    triple_mkdirDisplaced fun d hd => ⟨rfl, hd.2⟩
  refine Triple.bind (hmkdir.conseq (fun _ h => h) (fun _ _ h => h) (fun _ _ h => h)
    fun _ h => Or.inl h) fun _ => Triple.bind_get fun h hh => ?_
  refine Triple.ite (fun _ => Triple.raise fun s hs => hs ▸ hh.1) fun _ => ?_
  refine (Host.triple_effect
    (P := b.FreshWith legacy previous fun d => Copied legacy previous d ∧ d.root = .directory)
    (fun _ hh => hh) ?_ (fun _ hh => Or.inl hh.1)
    fun _ h hh => Or.inl (hh.1.setDisplaced rfl)).at_state hh
  intro h hh
  obtain ⟨⟨hroot, hcopy, htarget⟩, -⟩ := hh.2
  refine ⟨?_, hlegacy, hprevious, Or.inr hh.1.2.1, previous, hh.1.2.2⟩
  rw [displaced_setDisplaced]
  exact ⟨hroot, rfl, hcopy, htarget⟩

/-- The legacy site is down and the record holds it. -/
def Displaced (b : ComposeBackend) (legacy : FileBytes) (previous : Option FileBytes)
    (h : Host) : Prop :=
  b.Held legacy previous h ∧ h.site? b.legacyCaddyInclude = none

theorem triple_unlinkLegacy :
    Triple (b.Held legacy previous) (Host.unlinkSite b.legacyCaddyInclude)
      (fun _ => b.Displaced legacy previous) (fun _ _ => False) (b.Held legacy previous) := by
  refine Host.triple_unlinkSite (fun _ hh => hh) (fun _ hh => hh.regularLegacy)
    (fun _ hh hnone => ⟨hh, hnone⟩) (fun h hh => ⟨hh.eraseLegacy, ?_⟩) fun _ hh => hh
  rw [Host.site?_eraseSite, if_pos rfl]

theorem triple_displaceLegacy (hlegacy : legacy.length ≤ Host.MAX_SITE_BYTES)
    (hprevious : ∀ c, previous = some c → c.length ≤ Host.MAX_SITE_BYTES) :
    Triple (b.Fresh legacy previous) (b.displaceLegacy legacy previous)
      (fun r h => r = some ⟨legacy, previous⟩ ∧ b.Displaced legacy previous h)
      (fun _ => b.Fresh legacy previous) (b.Phase legacy previous) := by
  have hfirst : Triple (b.Fresh legacy previous) (b.atomicDisplaced .legacy legacy)
      (fun _ => b.FreshWith legacy previous fun d =>
        d.root = .directory ∧ d.legacy = some (.regular legacy))
      (fun _ => b.Fresh legacy previous) (b.Phase legacy previous) :=
    (triple_atomicDisplaced (p := fun _ => True) (fun _ _ => trivial)
      fun d _ hroot => ⟨hroot, rfl⟩).conseq (fun _ hh => ⟨hh, trivial⟩) (fun _ _ h => h)
        (fun _ _ h => h) fun _ h => Or.inl h
  have hsecond : Triple (b.FreshWith legacy previous fun d =>
        d.root = .directory ∧ d.legacy = some (.regular legacy))
      (previous.elim (b.unlinkDisplaced .previousTarget) (b.atomicDisplaced .previousTarget))
      (fun _ => b.FreshWith legacy previous (Copied legacy previous))
      (fun _ => b.Fresh legacy previous) (b.Phase legacy previous) := by
    cases previous with
    | none =>
        refine (triple_unlinkDisplaced ?_ ?_).conseq (fun _ h => h) (fun _ _ h => h)
          (fun _ _ h => h) fun _ h => Or.inl h
        · intro d hd hnode
          exact ⟨hd.1, hd.2, hnode⟩
        · intro d hd
          exact ⟨hd.1, hd.2, rfl⟩
    | some target =>
        refine (triple_atomicDisplaced ?_ ?_).conseq (fun _ h => h) (fun _ _ h => h)
          (fun _ _ h => h) fun _ h => Or.inl h
        · intro d hd
          exact ⟨rfl, hd.2⟩
        · intro d hd hroot
          exact ⟨hroot, hd.2, rfl⟩
  have hlast : Triple (b.FreshWith legacy previous (Copied legacy previous))
      (b.atomicState (contentDigest legacy) (previous.map contentDigest) >>= fun _ =>
        Host.unlinkSite b.legacyCaddyInclude >>= fun _ =>
          pure (some (⟨legacy, previous⟩ : LegacyCaddyDisplacement)))
      (fun r h => r = some ⟨legacy, previous⟩ ∧ b.Displaced legacy previous h)
      (fun _ => b.Fresh legacy previous) (b.Phase legacy previous) := by
    refine Triple.bind (triple_atomicState hlegacy hprevious) fun _ => ?_
    refine Triple.bind (triple_unlinkLegacy.conseq (fun _ h => h) (fun _ _ h => h)
      (fun _ _ h => h.elim) fun _ h => Or.inr h) fun _ => ?_
    exact Triple.pure fun _ h => ⟨rfl, h⟩
  refine Triple.bind hfirst fun _ => ?_
  cases previous with
  | none => exact Triple.bind hsecond fun _ => hlast
  | some target => exact Triple.bind hsecond fun _ => hlast

/-- A record that is there is taken up again; this never raises. -/
theorem triple_resumeDisplacement :
    Triple (b.Held legacy previous) (b.resumeDisplacement ⟨legacy, previous⟩)
      (fun r h => r = some ⟨legacy, previous⟩ ∧ b.Displaced legacy previous h)
      (fun _ _ => False) (b.Held legacy previous) := by
  refine Triple.bind_get fun h hh => ?_
  rcases hh.legacySite with hdown | hlive
  · rw [hdown]
    exact Triple.ret fun s hs => hs ▸ ⟨rfl, hh, hdown⟩
  · rw [hlive, safeCaddyBytes_regular hh.legacySize, ofExcept_ok, ret_bind]
    refine Triple.ite (fun _ => ?_) fun hne => absurd rfl hne
    exact Triple.bind (triple_unlinkLegacy.at_state hh) fun _ => Triple.pure fun _ h => ⟨rfl, h⟩

/-- On a scope without evidence of an activation, the legacy site is displaced; where this
raises, nothing has changed. -/
theorem triple_prepare :
    Triple (fun h => b.Phase legacy previous h ∧ (b.files h).active = .missing)
      b.prepareLegacyCaddyDisplacement
      (fun r h => r = some ⟨legacy, previous⟩ ∧ b.Displaced legacy previous h)
      (fun _ => b.Fresh legacy previous) (b.Phase legacy previous) := by
  refine Triple.bind_get fun h hh => ?_
  rw [if_neg (by simp [hh.2, b.legacyCaddyInclude_ne])]
  rcases hh.1 with hfresh | hheld
  · have hload : loadLegacyCaddyDisplacement (b.displaced h) = .ok none := by
      rw [loadLegacyCaddyDisplacement, hfresh.1]
    have hlegacy : safeCaddyBytes (h.site? b.legacyCaddyInclude) =
        safeCaddyBytes (FileNode.ofBytes (some legacy)) := by rw [hfresh.2.1]; rfl
    rw [hload, ofExcept_ok, ret_bind]
    change Triple _ (Program.ofExcept (safeCaddyBytes (h.site? b.legacyCaddyInclude)) >>= _) _ _ _
    rw [hlegacy, hfresh.2.2]
    rcases safeCaddyBytes_ofBytes (some legacy) with ⟨e, herror⟩ | ⟨hok, hsize⟩
    · rw [herror]
      exact Triple.raise fun s hs => hs ▸ hfresh
    · rw [hok, ofExcept_ok, ret_bind]
      change Triple _ (Program.ofExcept (safeCaddyBytes (FileNode.ofBytes previous)) >>= _) _ _ _
      rcases safeCaddyBytes_ofBytes previous with ⟨e, herror⟩ | ⟨hok', hsize'⟩
      · rw [herror]
        exact Triple.raise fun s hs => hs ▸ hfresh
      · rw [hok', ofExcept_ok, ret_bind]
        exact (triple_displaceLegacy (hsize legacy rfl) hsize').at_state hfresh
  · rw [hheld.load, ofExcept_ok, ret_bind]
    exact (triple_resumeDisplacement.conseq (fun _ h => h) (fun _ _ h => h)
      (fun _ _ h => h.elim) fun _ h => Or.inr h).at_state hheld

/-! ### The way back -/

section WayBack

variable {c : Prop}

/-- `sites.d` is a real directory, as far as `c` asks for it. -/
def Rooted (c : Prop) (h : Host) : Prop :=
  c → h.sitesRoot = .directory

omit [Platform] in
theorem not_of_rooted (hh : Rooted c h) (hroot : h.sitesRoot ≠ .directory) : ¬ c :=
  fun hc => hroot (hh hc)

/-- Write the include while the record holds. -/
theorem triple_writeInclude (content : FileBytes) :
    Triple (fun h => b.Held legacy previous h ∧ Rooted c h)
      (Host.atomicSite b.caddyInclude content)
      (fun _ h => (b.Held legacy previous h ∧ Rooted c h) ∧
        h.site? b.caddyInclude = some (.regular content))
      (fun _ h => b.Held legacy previous h ∧ ¬ c) (b.Held legacy previous) := by
  refine Host.triple_atomicSite (fun _ hh => hh) (fun _ hh => ⟨hh.1, fun _ => rfl⟩)
    (fun _ hh => hh.1.includeSite) (fun h hh => ?_)
    (fun _ h hh hroot => ⟨hh.1, not_of_rooted hh.2 hroot⟩) fun _ hh => hh.1
  refine ⟨⟨hh.1.putInclude content, hh.2⟩, ?_⟩
  rw [Host.site?_putSite, if_pos rfl]

/-- Put an include back while the record holds. -/
theorem triple_restoreInclude (target : Option FileBytes) :
    Triple (fun h => b.Held legacy previous h ∧ Rooted c h)
      (Host.restorePrivateFile b.caddyInclude target)
      (fun _ h => (b.Held legacy previous h ∧ Rooted c h) ∧
        h.site? b.caddyInclude = FileNode.ofBytes target)
      (fun _ h => b.Held legacy previous h ∧ ¬ c) (b.Held legacy previous) := by
  cases target with
  | some content => exact triple_writeInclude content
  | none =>
      refine Host.triple_unlinkSite (fun _ hh => hh) (fun _ hh => hh.1.includeSite)
        (fun _ hh hnone => ⟨hh, hnone⟩) (fun h hh => ?_) fun _ hh => hh.1
      refine ⟨⟨hh.1.eraseInclude, hh.2⟩, ?_⟩
      rw [Host.site?_eraseSite, if_pos rfl]
      rfl

/-- The record is put back. It fails only where `sites.d` is no real directory. -/
theorem triple_restoreCaddyPredecessor (target : Option FileBytes) :
    Triple (fun h => b.Held legacy previous h ∧ Rooted c h)
      (b.restoreCaddyPredecessor target (some ⟨legacy, previous⟩))
      (fun _ h => b.Held legacy previous h ∧ b.Stands legacy previous h)
      (fun _ h => b.Held legacy previous h ∧ ¬ c) (b.Held legacy previous) := by
  refine Triple.bind (triple_restoreInclude previous) fun _ => ?_
  refine Host.triple_atomicSite (fun _ hh => hh) (fun _ hh => ⟨⟨hh.1.1, fun _ => rfl⟩, hh.2⟩)
    (fun _ hh => hh.1.1.regularLegacy) (fun h hh => ?_)
    (fun _ h hh hroot => ⟨hh.1.1, not_of_rooted hh.1.2 hroot⟩) fun _ hh => hh.1.1
  refine ⟨hh.1.1.putLegacy, ?_, ?_⟩
  · rw [Host.site?_putSite, if_pos rfl]
  · rw [Host.site?_putSite, if_neg b.legacyCaddyInclude_ne.symm]
    exact hh.2

/-- With the legacy site back, the record may go. -/
theorem triple_cleanup :
    Triple (fun h => b.Held legacy previous h ∧ b.Stands legacy previous h)
      (b.cleanupLegacyCaddyDisplacement (some ⟨legacy, previous⟩))
      (fun _ => b.Fresh legacy previous) (fun _ => b.Fresh legacy previous)
      (fun h => b.Phase legacy previous h ∧ b.Stands legacy previous h) := by
  have hfresh : ∀ {h : Host}, b.Fresh legacy previous h →
      b.Phase legacy previous h ∧ b.Stands legacy previous h := fun hh => ⟨Or.inl hh, hh.2⟩
  have hunlink : ∀ file, Triple (b.Fresh legacy previous) (b.unlinkDisplaced file)
      (fun _ => b.Fresh legacy previous) (fun _ => b.Fresh legacy previous)
      (fun h => b.Phase legacy previous h ∧ b.Stands legacy previous h) := by
    intro file
    exact (triple_unlinkDisplaced (p := fun _ => True) (q := fun _ => True)
      (fun _ _ _ => trivial) fun _ _ => trivial).conseq (fun _ hh => ⟨hh, trivial⟩)
        (fun _ _ hh => hh.1) (fun _ _ hh => hh) fun _ hh => hfresh hh
  refine Triple.bind (R := fun _ => b.Fresh legacy previous) ?_ fun _ => ?_
  · refine Host.triple_effect (fun _ hh => hh) (fun h hh => ⟨?_, hh.2⟩)
      (fun _ hh => ⟨Or.inr hh.1, hh.2⟩) fun _ _ hh => ⟨Or.inr hh.1, hh.2⟩
    rw [displaced_setDisplaced]
  · refine Triple.bind (hunlink .legacy) fun _ => Triple.bind (hunlink .previousTarget) fun _ => ?_
    refine Triple.bind_get fun h hh => ?_
    refine Triple.ite (fun _ => Triple.ite (fun _ => ?_) fun _ => ?_) fun _ => ?_
    · exact Triple.raise fun s hs => hs ▸ hh
    · exact (Host.triple_effect (P := b.Fresh legacy previous) (fun _ hh => hh)
        (fun _ hh => hh.setDisplaced rfl) (fun _ hh => hfresh hh) fun _ _ hh => hfresh hh).at_state hh
    · exact Triple.ret fun s hs => hs ▸ hh

/-! ### The switch -/

/-- The failure of the switch is handled: there is an edge, or one is asked for. -/
def Guarded (b : ComposeBackend) (c : Prop) (h : Host) : Prop :=
  c → h.sharedCompose = true ∨ (b.requireEdgeRuntime = true ∧ b.routes ≠ [])

/-- Everything of the way back up to the record: the predecessor, the environment file, the
reload. -/
theorem triple_goBack (target previousEnv : Option FileBytes) {last : Proc Unit}
    (hlast : Triple (fun h => b.Held legacy previous h ∧ b.Stands legacy previous h) last
      (fun _ h => b.Phase legacy previous h ∧ (c → b.Stands legacy previous h))
      (fun _ h => b.Phase legacy previous h ∧ (c → b.Stands legacy previous h))
      (b.Phase legacy previous)) :
    Triple (fun h => b.Held legacy previous h ∧ Rooted c h)
      (b.restoreCaddyPredecessor target (some ⟨legacy, previous⟩) >>= fun _ =>
        Host.restorePrivateEnv previousEnv >>= fun _ => Host.pruneRouteAuthEnv >>= fun _ => last)
      (fun _ h => b.Phase legacy previous h ∧ (c → b.Stands legacy previous h))
      (fun _ h => b.Phase legacy previous h ∧ (c → b.Stands legacy previous h))
      (b.Phase legacy previous) := by
  have hkeep : ∀ {m : Proc Unit},
      Keeps (fun h => b.Held legacy previous h ∧ b.Stands legacy previous h) m →
      Triple (fun h => b.Held legacy previous h ∧ b.Stands legacy previous h) m
        (fun _ h => b.Held legacy previous h ∧ b.Stands legacy previous h)
        (fun _ h => b.Phase legacy previous h ∧ (c → b.Stands legacy previous h))
        (b.Phase legacy previous) := by
    intro m hm
    exact Triple.conseq hm (fun _ hh => hh) (fun _ _ hh => hh)
      (fun _ _ hh => ⟨Or.inr hh.1, fun _ => hh.2⟩) fun _ hh => Or.inr hh.1
  refine Triple.bind ((triple_restoreCaddyPredecessor target).conseq (fun _ hh => hh)
    (fun _ _ hh => hh) (fun _ _ hh => ⟨Or.inr hh.1, fun hc => absurd hc hh.2⟩)
    fun _ hh => Or.inr hh) fun _ => ?_
  refine Triple.bind (hkeep (Host.keeps_restorePrivateEnv (fun _ hh => hh)
    (fun _ _ hh => hh) _)) fun _ => ?_
  refine Triple.bind (hkeep (Host.keeps_pruneRouteAuthEnv (fun _ hh => hh)
    fun _ _ hh => hh)) fun _ => hlast

theorem triple_switchCaddy (target previousEnv : Option FileBytes) :
    Triple (fun h => (b.Held legacy previous h ∧ Rooted c h) ∧ b.Guarded c h)
      (b.switchCaddy target (some ⟨legacy, previous⟩) previousEnv)
      (fun _ => b.Phase legacy previous)
      (fun _ h => b.Phase legacy previous h ∧ (c → b.Stands legacy previous h))
      (b.Phase legacy previous) := by
  have hclean : Triple (fun h => b.Held legacy previous h ∧ b.Stands legacy previous h)
      (b.cleanupLegacyCaddyDisplacement (some ⟨legacy, previous⟩))
      (fun _ h => b.Phase legacy previous h ∧ (c → b.Stands legacy previous h))
      (fun _ h => b.Phase legacy previous h ∧ (c → b.Stands legacy previous h))
      (b.Phase legacy previous) :=
    triple_cleanup.conseq (fun _ hh => hh) (fun _ _ hh => ⟨Or.inl hh, fun _ => hh.2⟩)
      (fun _ _ hh => ⟨Or.inl hh, fun _ => hh.2⟩) fun _ hh => hh.1
  have hkeep : Keeps (fun h => b.Held legacy previous h ∧ Rooted c h) Host.pruneRouteAuthEnv :=
    Host.keeps_pruneRouteAuthEnv (fun _ hh => hh) fun _ _ hh => hh
  refine Triple.bind_get fun h hh => ?_
  refine Triple.ite (fun _ => ?_) fun hshared => Triple.ite (fun _ => ?_) fun hedge => ?_
  · -- the edge refuses the new sites, or the environment file cannot be pruned
    have hreload : Triple (fun h => b.Held legacy previous h ∧ b.Stands legacy previous h) reload
        (fun _ h => b.Held legacy previous h ∧ b.Stands legacy previous h)
        (fun _ h => b.Phase legacy previous h ∧ (c → b.Stands legacy previous h))
        (b.Phase legacy previous) :=
      Triple.conseq (keeps_reload fun _ hh => hh) (fun _ hh => hh) (fun _ _ hh => hh)
        (fun _ _ hh => ⟨Or.inr hh.1, fun _ => hh.2⟩) fun _ hh => Or.inr hh.1
    have hbody : Keeps (fun h => b.Held legacy previous h ∧ Rooted c h)
        (Host.pruneRouteAuthEnv >>= fun _ => validateAndReload) :=
      Keeps.bind hkeep fun _ => keeps_validateAndReload fun _ hh => hh
    refine Triple.cleanup (Triple.conseq hbody (fun _ hs => hs ▸ hh.1) (fun _ _ hs => Or.inr hs.1)
      (fun _ _ hs => hs) fun _ hs => Or.inr hs.1) fun _ => ?_
    exact triple_goBack target previousEnv (Triple.bind hreload fun _ => hclean)
  · refine ((triple_goBack target previousEnv (Triple.bind hclean fun _ => ?_)).at_state
      hh.1).conseq (fun _ hs => hs) (fun _ _ hs => hs.1) (fun _ _ hs => hs) fun _ hs => hs
    exact Triple.raise fun _ hs => hs
  · -- without an edge nothing is put back
    have hnot : ¬ c := fun hc => (hh.2 hc).elim hshared hedge
    exact Triple.conseq hkeep (fun _ hs => hs ▸ hh.1) (fun _ _ hs => Or.inr hs.1)
      (fun _ _ hs => ⟨Or.inr hs.1, fun hc => absurd hc hnot⟩) fun _ hs => Or.inr hs.1

/-- A scope without evidence of an activation, ready for the switch as far as `c` asks. -/
def Ready (b : ComposeBackend) (legacy : FileBytes) (previous : Option FileBytes) (c : Prop)
    (h : Host) : Prop :=
  (b.Phase legacy previous h ∧ (b.files h).active = .missing) ∧ Rooted c h ∧ b.Guarded c h

theorem triple_mkdirSites :
    Triple (b.Ready legacy previous c) Host.mkdirSites (fun _ => b.Ready legacy previous c)
      (fun _ h => b.Phase legacy previous h ∧ (c → b.Stands legacy previous h))
      (b.Phase legacy previous) := by
  refine Triple.bind_get fun h hh => ?_
  cases hroot : h.sitesRoot with
  | missing =>
      exact (Host.triple_effect (P := b.Ready legacy previous c) (fun _ hh => hh)
        (fun _ hh => ⟨hh.1, fun _ => rfl, hh.2.2⟩) (fun _ hh => hh.1.1)
        fun _ _ hh => hh.1.1).at_state hh
  | directory => exact Triple.ret fun _ hs => hs ▸ hh
  | symlink => exact Triple.ret fun _ hs => hs ▸ hh
  | other =>
      refine Triple.raise fun s hs => hs ▸ ⟨hh.1.1, fun hc => ?_⟩
      exact absurd hc (not_of_rooted hh.2.1 (by simp [hroot]))

/-- Installing the routes of the candidate while the scope has no active revision. -/
theorem triple_installCaddy (candidate : FileBytes) :
    Triple (b.Ready legacy previous c) (b.installCaddy candidate)
      (fun _ => b.Phase legacy previous)
      (fun _ h => b.Phase legacy previous h ∧ (c → b.Stands legacy previous h))
      (b.Phase legacy previous) := by
  have hprepare : Triple (b.Ready legacy previous c) b.prepareLegacyCaddyDisplacement
      (fun r h => (r = some ⟨legacy, previous⟩ ∧ b.Displaced legacy previous h) ∧
        Rooted c h ∧ b.Guarded c h)
      (fun _ h => b.Fresh legacy previous h ∧ Rooted c h ∧ b.Guarded c h)
      (fun h => b.Phase legacy previous h ∧ Rooted c h ∧ b.Guarded c h) :=
    Triple.conj triple_prepare (keeps_prepareLegacyCaddyDisplacement
      (fun _ hh => hh) (fun _ _ _ hh => hh) fun _ hh => hh)
  have hwrite : Triple (fun h => (b.Held legacy previous h ∧ Rooted c h) ∧ b.Guarded c h)
      (Host.atomicSite b.caddyInclude candidate)
      (fun _ h => ((b.Held legacy previous h ∧ Rooted c h) ∧
        h.site? b.caddyInclude = some (.regular candidate)) ∧ b.Guarded c h)
      (fun _ h => (b.Held legacy previous h ∧ ¬ c) ∧ b.Guarded c h)
      (fun h => b.Held legacy previous h ∧ b.Guarded c h) :=
    Triple.conj (triple_writeInclude candidate) (Host.keeps_atomicSite
      (fun _ hh => hh) (fun _ _ hh => hh) (fun _ _ hh => hh) candidate)
  refine Triple.bind triple_mkdirSites fun _ => ?_
  refine Triple.bind (hprepare.conseq (fun _ hh => hh) (fun _ _ hh => hh)
    (fun _ _ hh => ⟨Or.inl hh.1, fun _ => hh.1.2⟩) fun _ hh => hh.1) fun r => ?_
  refine Triple.pre (Triple.assuming (p := r = some ⟨legacy, previous⟩)
    (P := fun h => (b.Held legacy previous h ∧ Rooted c h) ∧ b.Guarded c h) ?_)
    fun _ hh => ⟨hh.1.1, ⟨hh.1.2.1, hh.2.1⟩, hh.2.2⟩
  intro hr
  rw [hr, show b.previousInclude (some ⟨legacy, previous⟩) = Program.ret previous from rfl, ret_bind]
  refine Triple.bind_get fun h hh => ?_
  refine Triple.bind (hwrite.conseq (fun _ hs => hs ▸ hh) (fun _ _ hs => hs)
    (fun _ _ hs => ⟨Or.inr hs.1.1, fun hc => absurd hc hs.1.2⟩) fun _ hs => Or.inr hs.1) fun _ => ?_
  exact (triple_switchCaddy previous _).pre fun _ hs => ⟨hs.1.1, hs.2⟩

end WayBack

/-! ### Deactivation -/

theorem triple_restoreLegacy {lp : Option FileBytes} (hlp : lp = none ∨ lp = some legacy) :
    Triple (b.Held legacy previous) (Host.restorePrivateFile b.legacyCaddyInclude lp)
      (fun _ => b.Held legacy previous) (fun _ => b.Held legacy previous)
      (b.Held legacy previous) := by
  rcases hlp with rfl | rfl
  · exact triple_unlinkLegacy.conseq (fun _ hh => hh) (fun _ _ hh => hh.1)
      (fun _ _ hh => hh.elim) fun _ hh => hh
  · exact Host.triple_atomicSite (fun _ hh => hh) (fun _ hh => hh)
      (fun _ hh => hh.regularLegacy) (fun _ hh => hh.putLegacy) (fun _ _ hh _ => hh) fun _ hh => hh

/-- A deactivation that finds the record puts it back. -/
theorem triple_deactivateCaddy_held :
    Triple (b.Held legacy previous) b.deactivateCaddy (fun _ => b.Fresh legacy previous)
      (fun _ => b.Phase legacy previous) (b.Phase legacy previous) := by
  refine Triple.bind_get fun h hh => ?_
  refine Triple.bind (R := fun _ => b.Held legacy previous)
    (Triple.ofExcept (fun _ _ _ hs => hs ▸ hh) fun _ _ _ hs => Or.inr (hs ▸ hh)) fun target => ?_
  rw [hh.load, ofExcept_ok, ret_bind]
  -- the legacy site as the deactivation finds it
  have hsafe : ∃ lp, safeCaddyBytes (h.site? b.legacyCaddyInclude) = .ok lp ∧
      (lp = none ∨ lp = some legacy) := by
    rcases hh.legacySite with hdown | hlive
    · exact ⟨none, by rw [hdown]; rfl, Or.inl rfl⟩
    · exact ⟨some legacy, by rw [hlive, safeCaddyBytes_regular hh.legacySize], Or.inr rfl⟩
  obtain ⟨lp, hsafe, hlp⟩ := hsafe
  rw [hsafe, ofExcept_ok, ret_bind]
  have hunlink : Triple (b.Held legacy previous) (Host.unlinkSite b.caddyInclude)
      (fun _ => b.Held legacy previous) (fun _ => b.Phase legacy previous)
      (b.Phase legacy previous) :=
    Host.triple_unlinkSite (fun _ hh => hh) (fun _ hh => hh.includeSite) (fun _ hh _ => hh)
      (fun _ hh => hh.eraseInclude) fun _ hh => Or.inr hh
  refine Triple.bind hunlink fun _ => ?_
  refine Triple.bind (((triple_restoreCaddyPredecessor (c := False) none).conseq
    (fun _ hh => ⟨hh, False.elim⟩) (fun _ _ hh => hh) (fun _ _ hh => Or.inr hh.1)
    fun _ hh => Or.inr hh)) fun _ => ?_
  refine Triple.bind (R := fun _ h => b.Held legacy previous h ∧ b.Stands legacy previous h) ?_
    fun _ => triple_cleanup.conseq (fun _ hh => hh) (fun _ _ hh => hh) (fun _ _ hh => Or.inl hh)
      fun _ hh => hh.1
  have hbody : Keeps (fun h => b.Held legacy previous h ∧ b.Stands legacy previous h)
      (Host.pruneRouteAuthEnv >>= fun _ => Program.when (h.sharedCompose = true) validateAndReload) :=
    Keeps.bind (Host.keeps_pruneRouteAuthEnv (fun _ hh => hh) fun _ _ hh => hh) fun _ =>
      Keeps.when (keeps_validateAndReload fun _ hh => hh)
  refine Triple.cleanup (E := fun _ => b.Held legacy previous) (Triple.conseq hbody (fun _ hh => hh)
    (fun _ _ hh => hh) (fun _ _ hh => hh.1) fun _ hh => Or.inr hh.1) fun e => ?_
  have hback : Keeps (b.Held legacy previous)
      (Host.restorePrivateFile b.caddyInclude target >>= fun _ =>
        Host.restorePrivateFile b.legacyCaddyInclude lp >>= fun _ =>
          Host.restorePrivateEnv (FileNode.readBytes h.env) >>= fun _ =>
            Program.when (h.sharedCompose = true) reload) := by
    refine Keeps.bind ((triple_restoreInclude (c := False) target).conseq
      (fun _ hh => ⟨hh, False.elim⟩) (fun _ _ hh => hh.1.1) (fun _ _ hh => hh.1)
      fun _ hh => hh) fun _ => ?_
    refine Keeps.bind (triple_restoreLegacy hlp) fun _ => ?_
    exact Keeps.bind (Host.keeps_restorePrivateEnv (fun _ hh => hh) (fun _ _ hh => hh) _) fun _ =>
      Keeps.when (keeps_reload fun _ hh => hh)
  exact Triple.conseq hback (fun _ hh => hh) (fun _ _ hh => Or.inr hh) (fun _ _ hh => Or.inr hh)
    fun _ hh => Or.inr hh

omit [Platform] in
theorem Fresh.putInclude (hh : b.Fresh legacy previous h) (content : FileBytes) :
    b.Fresh legacy (some content) (h.putSite b.caddyInclude (.regular content)) := by
  refine ⟨hh.1, ?_, ?_⟩
  · rw [Host.site?_putSite, if_neg b.legacyCaddyInclude_ne]
    exact hh.2.1
  · rw [Host.site?_putSite, if_pos rfl]
    rfl

omit [Platform] in
theorem Fresh.eraseInclude (hh : b.Fresh legacy previous h) :
    b.Fresh legacy none (h.eraseSite b.caddyInclude) := by
  refine ⟨hh.1, ?_, ?_⟩
  · rw [Host.site?_eraseSite, if_neg b.legacyCaddyInclude_ne]
    exact hh.2.1
  · rw [Host.site?_eraseSite, if_pos rfl]
    rfl

omit [Platform] in
theorem Fresh.putLegacy (hh : b.Fresh legacy previous h) :
    b.Fresh legacy previous (h.putSite b.legacyCaddyInclude (.regular legacy)) := by
  refine ⟨hh.1, ?_, ?_⟩
  · rw [Host.site?_putSite, if_pos rfl]
  · rw [Host.site?_putSite, if_neg b.legacyCaddyInclude_ne.symm]
    exact hh.2.2

/-- Without a record the legacy site stays up, and the include goes. -/
theorem triple_deactivateCaddy_fresh :
    Triple (b.Fresh legacy previous) b.deactivateCaddy (fun _ => b.Fresh legacy none)
      (fun _ h => b.Fresh legacy previous h ∨ b.Fresh legacy none h)
      (fun h => b.Fresh legacy previous h ∨ b.Fresh legacy none h) := by
  refine Triple.bind_get fun h hh => ?_
  have hload : loadLegacyCaddyDisplacement (b.displaced h) = .ok none := by
    rw [loadLegacyCaddyDisplacement, hh.1]
  rw [hh.2.2, hload, show h.site? b.legacyCaddyInclude = FileNode.ofBytes (some legacy) from hh.2.1]
  rcases safeCaddyBytes_ofBytes previous with ⟨e, herror⟩ | ⟨hok, -⟩
  · rw [herror]
    exact Triple.raise fun s hs => hs ▸ Or.inl hh
  rw [hok, ofExcept_ok, ret_bind, ofExcept_ok, ret_bind]
  rcases safeCaddyBytes_ofBytes (some legacy) with ⟨e, herror⟩ | ⟨hok', -⟩
  · rw [herror]
    exact Triple.raise fun s hs => hs ▸ Or.inl hh
  rw [hok', ofExcept_ok, ret_bind]
  have hunlink : Triple (b.Fresh legacy previous) (Host.unlinkSite b.caddyInclude)
      (fun _ => b.Fresh legacy none)
      (fun _ h => b.Fresh legacy previous h ∨ b.Fresh legacy none h)
      (fun h => b.Fresh legacy previous h ∨ b.Fresh legacy none h) :=
    Host.triple_unlinkSite (fun _ hh => hh) (fun _ hh => ⟨previous, hh.2.2⟩)
      (fun _ hh hnone => ⟨hh.1, hh.2.1, hnone⟩) (fun _ hh => hh.eraseInclude)
      fun _ hh => Or.inl hh
  refine Triple.bind (hunlink.at_state hh) fun _ => ?_
  change Triple _ (Program.cleanup
    (Host.pruneRouteAuthEnv >>= fun _ => Program.when (h.sharedCompose = true) validateAndReload)
    (Host.restorePrivateFile b.caddyInclude previous >>= fun _ =>
      Host.restorePrivateFile b.legacyCaddyInclude (some legacy) >>= fun _ =>
        Host.restorePrivateEnv (FileNode.readBytes h.env) >>= fun _ =>
          Program.when (h.sharedCompose = true) reload) >>= fun _ => Program.ret ()) _ _ _
  refine Triple.bind (R := fun _ => b.Fresh legacy none) ?_ fun _ => Triple.ret fun _ hh => hh
  have hbody : Keeps (b.Fresh legacy none)
      (Host.pruneRouteAuthEnv >>= fun _ => Program.when (h.sharedCompose = true) validateAndReload) :=
    Keeps.bind (Host.keeps_pruneRouteAuthEnv (fun _ hh => hh) fun _ _ hh => hh) fun _ =>
      Keeps.when (keeps_validateAndReload fun _ hh => hh)
  refine Triple.cleanup (E := fun _ => b.Fresh legacy none) (Triple.conseq hbody (fun _ hh => hh)
    (fun _ _ hh => hh) (fun _ _ hh => hh) fun _ hh => Or.inr hh) fun e => ?_
  have hinclude : Keeps (fun h => b.Fresh legacy previous h ∨ b.Fresh legacy none h)
      (Host.restorePrivateFile b.caddyInclude previous) := by
    cases previous with
    | none =>
        refine Host.keeps_unlinkSite (fun _ hh => hh) fun _ hh => Or.inr ?_
        exact hh.elim Fresh.eraseInclude Fresh.eraseInclude
    | some content =>
        refine Host.triple_atomicSite (fun _ hh => hh) (fun _ hh => hh) (fun _ hh => ?_)
          (fun _ hh => Or.inl (hh.elim (·.putInclude content) (·.putInclude content)))
          (fun _ _ hh _ => hh) fun _ hh => hh
        exact hh.elim (fun hh => ⟨_, hh.2.2⟩) fun hh => ⟨_, hh.2.2⟩
  have hlegacy : Keeps (fun h => b.Fresh legacy previous h ∨ b.Fresh legacy none h)
      (Host.restorePrivateFile b.legacyCaddyInclude (some legacy)) := by
    refine Host.triple_atomicSite (fun _ hh => hh) (fun _ hh => hh) (fun _ hh => ?_)
      (fun _ hh => hh.imp Fresh.putLegacy Fresh.putLegacy) (fun _ _ hh _ => hh) fun _ hh => hh
    exact ⟨some legacy, hh.elim (·.2.1) (·.2.1)⟩
  refine Triple.conseq (Keeps.bind hinclude fun _ => Keeps.bind hlegacy fun _ =>
    Keeps.bind (Host.keeps_restorePrivateEnv (fun _ hh => hh) (fun _ _ hh => hh) _) fun _ =>
      Keeps.when (keeps_reload fun _ hh => hh)) (fun _ hh => Or.inr hh) (fun _ _ hh => hh)
    (fun _ _ hh => hh) fun _ hh => hh

/-! ### Every call stays in a phase -/

/-- The legacy site is live or on record, next to some include. -/
def Kept (b : ComposeBackend) (legacy : FileBytes) (h : Host) : Prop :=
  ∃ previous, b.Phase legacy previous h

omit [Platform] in
theorem displaced_setScope {f : ScopeFiles → ScopeFiles}
    (hf : ∀ s, (f s).displaced = s.displaced) :
    b.displaced (h.setScope b.scope f) = b.displaced h := by
  simp [displaced, files, Host.setScope, hf]

/-- A phase does not depend on the other files of the scope. -/
theorem Phase.setScope (hh : b.Phase legacy previous h) {f : ScopeFiles → ScopeFiles}
    (hf : ∀ s, (f s).displaced = s.displaced) :
    b.Phase legacy previous (h.setScope b.scope f) := by
  have hd := displaced_setScope (b := b) (h := h) hf
  unfold Phase Fresh Held
  rw [hd]
  exact hh

theorem keeps_activeKept (h : Host) (a : ActiveFile) (hh : b.Kept legacy h) :
    b.Kept legacy (h.setScope b.scope fun s => { s with active := a }) :=
  hh.imp fun _ hp => hp.setScope fun _ => rfl

theorem keeps_revisionKept (h : Host) (id : EntityId .rev) (r : Option MaterializedRevision)
    (hh : b.Kept legacy h) : b.Kept legacy (h.setRevision b.scope id r) :=
  hh.imp fun _ hp => hp.setScope fun _ => rfl

theorem Kept.putInclude (hh : b.Kept legacy h) (content : FileBytes) :
    b.Kept legacy (h.putSite b.caddyInclude (.regular content)) := by
  obtain ⟨previous, hfresh | hheld⟩ := hh
  · exact ⟨some content, Or.inl (hfresh.putInclude content)⟩
  · exact ⟨previous, Or.inr (hheld.putInclude content)⟩

theorem Kept.eraseInclude (hh : b.Kept legacy h) :
    b.Kept legacy (h.eraseSite b.caddyInclude) := by
  obtain ⟨previous, hfresh | hheld⟩ := hh
  · exact ⟨none, Or.inl hfresh.eraseInclude⟩
  · exact ⟨previous, Or.inr hheld.eraseInclude⟩

/-- With evidence of an activation, only the include is written. -/
theorem triple_installCaddy_active (candidate : FileBytes) :
    Triple (fun h => b.Kept legacy h ∧ (b.files h).active ≠ .missing) (b.installCaddy candidate)
      (fun _ => b.Kept legacy) (fun _ => b.Kept legacy) (b.Kept legacy) := by
  have hprune : Keeps (b.Kept legacy) Host.pruneRouteAuthEnv :=
    Host.keeps_pruneRouteAuthEnv (fun _ hh => hh) fun _ _ hh => hh
  have hrestore : ∀ target, Keeps (b.Kept legacy)
      (Host.restorePrivateFile b.caddyInclude target) := fun target =>
    Host.keeps_restorePrivateFile (fun _ hh => hh) (fun _ _ hh => hh)
      (fun _ content hh => hh.putInclude content) (fun _ hh => hh.eraseInclude) target
  have henv : ∀ value, Keeps (b.Kept legacy) (Host.restorePrivateEnv value) :=
    Host.keeps_restorePrivateEnv (fun _ hh => hh) fun _ _ hh => hh
  have hmkdir : Keeps (fun h => b.Kept legacy h ∧ (b.files h).active ≠ .missing) Host.mkdirSites :=
    Host.keeps_mkdirSites (fun _ hh => hh) fun _ _ hh => hh
  refine Triple.bind (Triple.conseq hmkdir (fun _ hh => hh) (fun _ _ hh => hh)
    (fun _ _ hh => hh.1) fun _ hh => hh.1) fun _ => ?_
  refine Triple.bind (R := fun r h => r = none ∧ b.Kept legacy h) ?_ fun r =>
    Triple.assuming fun hr => ?_
  · refine Triple.bind_get fun h hh => ?_
    rw [if_pos (Or.inr hh.2)]
    exact Triple.ret fun _ hs => hs ▸ ⟨rfl, hh.1⟩
  · subst hr
    refine Keeps.bind (Keeps.bind Keeps.get fun _ => Keeps.ofExcept) fun target =>
      Keeps.bind Keeps.get fun h => ?_
    refine Keeps.bind (Host.keeps_atomicSite (fun _ hh => hh) (fun _ _ hh => hh)
      (fun _ content hh => hh.putInclude content) candidate) fun _ => ?_
    refine Keeps.bind Keeps.get fun h' => Keeps.ite ?_ (Keeps.ite ?_ hprune)
    · refine Keeps.cleanup (Keeps.bind hprune fun _ =>
        keeps_validateAndReload fun _ hh => hh) ?_
      exact Keeps.bind (hrestore target) fun _ => Keeps.bind (henv _) fun _ =>
        Keeps.bind hprune fun _ => Keeps.bind (keeps_reload fun _ hh => hh) fun _ => Keeps.ret
    · exact Keeps.bind (hrestore target) fun _ => Keeps.bind (henv _) fun _ =>
        Keeps.bind hprune fun _ => Keeps.bind Keeps.ret fun _ => Keeps.raise

theorem keeps_activateRoutes_kept (id : EntityId .rev) :
    Keeps (b.Kept legacy) (b.activateRoutes id) := by
  refine Keeps.bind Keeps.get fun h => Keeps.ite Keeps.ret ?_
  split
  · rename_i content _
    intro h hh
    by_cases hactive : (b.files h).active = .missing
    · obtain ⟨previous, hphase⟩ := hh
      exact (triple_installCaddy (c := False) content).conseq (fun _ hh => hh)
        (fun _ _ hh => ⟨previous, hh⟩) (fun _ _ hh => ⟨previous, hh.1⟩) (fun _ hh => ⟨previous, hh⟩)
        h ⟨⟨hphase, hactive⟩, False.elim, False.elim⟩
    · exact triple_installCaddy_active content h ⟨hh, hactive⟩
  · exact Keeps.raise

theorem keeps_deactivateCaddy_kept : Keeps (b.Kept legacy) b.deactivateCaddy := by
  intro h hh
  obtain ⟨previous, hfresh | hheld⟩ := hh
  · have hends : ∀ h', b.Fresh legacy previous h' ∨ b.Fresh legacy none h' → b.Kept legacy h' :=
      fun _ hh => hh.elim (fun hh => ⟨previous, Or.inl hh⟩) fun hh => ⟨none, Or.inl hh⟩
    exact triple_deactivateCaddy_fresh.conseq (fun _ hh => hh) (fun _ _ hh => ⟨none, Or.inl hh⟩)
      (fun _ => hends) hends h hfresh
  · exact triple_deactivateCaddy_held.conseq (fun _ hh => hh)
      (fun _ _ hh => ⟨previous, Or.inl hh⟩) (fun _ _ hh => ⟨previous, hh⟩)
      (fun _ hh => ⟨previous, hh⟩) h hheld

end ComposeBackend

/-! ### Attempts -/

/-- A call of the backend. -/
inductive BackendCall where
  | start
  | activate (candidate : RuntimeHandle) (expected : Option Digest)
  | restore (previous failed : RuntimeHandle)
  | deactivate (failed : RuntimeHandle)
  | remove (handle : RuntimeHandle)

/-- One attempt at a call: who makes it, under which token, and what happens meanwhile. -/
structure Attempt where
  operationId : StoredIdentifier
  ownerId : StoredIdentifier
  fencingToken : Pos
  call : BackendCall
  tape : List Moment

namespace ComposeBackend

/-- The backend of a candidate, as an attempt builds it anew. -/
def resumed (b : ComposeBackend) (a : Attempt) : ComposeBackend :=
  { b with fence := ⟨b.scope, a.operationId, a.ownerId, a.fencingToken⟩ }

/-- Whether a call returned. -/
def forget {α : Type} : Host × Program.Outcome ComposeFailure α → Host × Program.Outcome ComposeFailure Unit
  | (h, .returned _) => (h, .returned ())
  | (h, .raised e) => (h, .raised e)
  | (h, .crashed) => (h, .crashed)

variable [Platform]

/-- The host after an attempt, and how the attempt ended. -/
def attempt (b : ComposeBackend) (h : Host) (a : Attempt) :
    Host × Program.Outcome ComposeFailure Unit :=
  let h := { h with tape := a.tape }
  match a.call with
  | .start => forget ((b.resumed a).start h)
  | .activate candidate expected => forget ((b.resumed a).activate candidate expected h)
  | .restore previous failed => forget ((b.resumed a).restore previous failed h)
  | .deactivate failed => forget ((b.resumed a).deactivate failed h)
  | .remove handle => forget ((b.resumed a).remove handle h)

/-- The host after a run of attempts. -/
def attempts (b : ComposeBackend) (h : Host) (as : List Attempt) : Host :=
  as.foldl (fun h a => (b.attempt h a).1) h

omit [Platform] in
theorem forget_fst {α : Type} (r : Host × Program.Outcome ComposeFailure α) : (forget r).1 = r.1 := by
  obtain ⟨h, o⟩ := r
  cases o <;> rfl

variable {b : ComposeBackend} {legacy : FileBytes} {h : Host}

theorem kept_attempt (hh : b.Kept legacy h) (a : Attempt) :
    b.Kept legacy (b.attempt h a).1 := by
  have hstart : (b.resumed a).Kept legacy { h with tape := a.tape } := hh
  unfold attempt
  cases a.call with
  | start =>
      rw [forget_fst]
      exact (keeps_start_of_env (fun _ hh => hh) (fun h => keeps_revisionKept h _ _) (fun _ _ hh => hh)
        fun _ _ hh => hh).run hstart
  | activate candidate expected =>
      rw [forget_fst]
      exact (keeps_activate (fun _ hh => hh) (fun h _ _ => keeps_activeKept h _) (fun _ _ hh => hh)
        (keeps_activateRoutes_kept _) candidate expected).run hstart
  | restore previous failed =>
      rw [forget_fst]
      exact (keeps_restore (fun _ hh => hh) (fun h _ _ => keeps_activeKept h _) (fun _ _ hh => hh)
        previous failed (keeps_activateRoutes_kept _)).run hstart
  | deactivate failed =>
      rw [forget_fst]
      exact (keeps_deactivate (fun _ hh => hh) (fun h => keeps_activeKept h _) (fun _ _ hh => hh)
        keeps_deactivateCaddy_kept failed).run hstart
  | remove handle =>
      rw [forget_fst]
      exact (keeps_remove (fun _ hh => hh) (fun h _ => keeps_revisionKept h _ _) (fun _ _ hh => hh)
        handle).run hstart

/-- After any attempts, with any crashes and failures, the legacy site is live or on record. -/
theorem kept_attempts (hh : b.Kept legacy h) (as : List Attempt) :
    b.Kept legacy (b.attempts h as) := by
  induction as generalizing h with
  | nil => exact hh
  | cons a as ih => exact ih (kept_attempt hh a)

/-! ### The way back, attempt by attempt -/

/-- Neither a command that fails nor a runner that breaks. -/
def passes (m : Moment) : Prop :=
  m ≠ .fails ∧ m ≠ .breaks

/-- The moments of an activation before the switch: the fence, and the start of the deferred
services where there are any. -/
def leadIn (b : ComposeBackend) : Nat :=
  if b.activationServices = [] then 1 else 2

/-- An activation that gets as far as the switch, unless it crashes. -/
structure Admits (b : ComposeBackend) (candidate : RuntimeHandle) (expected : Option Digest)
    (h : Host) : Prop where
  handle : candidate = b.candidateHandle
  first : expected = none
  fence : RuntimeFences.authorize (h.fences.get? b.scope) b.fence = .ok ()
  moments : ∀ m ∈ h.tape.take b.leadIn, passes m
  routes : ∃ content, b.routesFile h b.revisionId = some (.regular content)

omit [Platform] in
theorem triple_moment_tape {P : Host → Prop} {R : Moment → Host → Prop}
    {E : ComposeFailure → Host → Prop} {C : Host → Prop}
    (hnil : ∀ h, P h → h.tape = [] → R .proceeds h)
    (hcons : ∀ h m ms, P h → h.tape = m :: ms → R m { h with tape := ms }) :
    Triple P Host.moment R E C := by
  intro h hP
  unfold Host.moment
  cases ht : h.tape with
  | nil => exact hnil h hP ht
  | cons m ms => exact hcons h m ms hP ht

omit [Platform] in
/-- A moment out of the first `n + 1` passes, and leaves `n`. -/
theorem triple_lead {P : Host → Prop} {c : Prop} {n : Nat} {E : ComposeFailure → Host → Prop}
    {C : Host → Prop} (htape : ∀ h, P h → P { h with tape := h.tape.tail }) :
    Triple (fun h => P h ∧ (c → ∀ m ∈ h.tape.take (n + 1), passes m)) Host.moment
      (fun m h => (P h ∧ (c → ∀ m ∈ h.tape.take n, passes m)) ∧ (c → passes m)) E C := by
  refine triple_moment_tape (fun h hh ht => ?_) fun h m ms hh ht => ?_
  · refine ⟨⟨hh.1, fun hc m hm => ?_⟩, fun _ => ⟨by simp, by simp⟩⟩
    rw [ht, List.take_nil] at hm
    exact absurd hm List.not_mem_nil
  · have htail := htape h hh.1
    rw [ht, List.tail_cons] at htail
    refine ⟨⟨htail, fun hc x hx => hh.2 hc x ?_⟩, fun hc => hh.2 hc m ?_⟩
    · rw [ht, List.take_succ_cons]
      exact List.mem_cons_of_mem _ hx
    · rw [ht, List.take_succ_cons]
      exact List.mem_cons_self

omit [Platform] in
theorem triple_readActive_missing {P : Host → Prop}
    (hactive : ∀ h, P h → (b.files h).active = .missing) {E : ComposeFailure → Host → Prop}
    {C : Host → Prop} : Triple P b.readActive (fun r h => r = none ∧ P h) E C := by
  refine Triple.bind_get fun h hh => ?_
  rw [hactive h hh]
  exact Triple.ret fun s hs => hs ▸ ⟨rfl, hh⟩

section Activation

variable {K : Host → Prop} {d c : Prop} {previous : Option FileBytes}
  (htape : ∀ h, K h → K { h with tape := h.tape.tail })
  (hfences : ∀ h t, K h → K { h with fences := t })
  (hphase : ∀ h, K h → b.Phase legacy previous h)

/-- The state of an activation before its switch. -/
def Leads (b : ComposeBackend) (K : Host → Prop) (d c : Prop) (h : Host) : Prop :=
  K h ∧ (b.files h).active = .missing ∧ Rooted c h ∧ b.Guarded c h ∧
    (d → ∃ content, b.routesFile h b.revisionId = some (.regular content))

/-- How an activation ends when it raises: before the switch in `K`, or behind it. -/
def Raised (b : ComposeBackend) (legacy : FileBytes) (previous : Option FileBytes)
    (K : Host → Prop) (d c : Prop) (h : Host) : Prop :=
  (b.Phase legacy previous h ∧ (c → b.Stands legacy previous h)) ∨ (K h ∧ ¬ d)

include hphase in
theorem triple_activateRoutes :
    Triple (b.Leads K d c) (b.activateRoutes b.revisionId)
      (fun _ h => b.Phase legacy previous h ∧ (b.files h).active = .missing)
      (fun _ => b.Raised legacy previous K d c) (b.Phase legacy previous) := by
  refine Triple.bind_get fun h hh => ?_
  refine Triple.ite (fun _ => ?_) fun _ => ?_
  · exact Triple.ret fun s hs => hs ▸ ⟨hphase h hh.1, hh.2.1⟩
  split
  · rename_i content _
    have hout : Outside b.scope fun h => (b.files h).active = .missing := {
      tape := fun _ hh => hh
      fences := fun _ _ hh => hh
      sitesRoot := fun _ _ hh => hh
      env := fun _ _ hh => hh
      displaced := fun h id f hh => by
        simpa [files, Host.setDisplaced, Host.setScope] using hh
      putInclude := fun _ _ hh => hh
      eraseInclude := fun _ hh => hh
      putLegacy := fun _ _ hh => hh
      eraseLegacy := fun _ hh => hh }
    have hready : b.Ready legacy previous c h :=
      ⟨⟨hphase h hh.1, hh.2.1⟩, hh.2.2.1, hh.2.2.2.1⟩
    exact (Triple.conj (triple_installCaddy content) (keeps_installCaddy hout content)).conseq
      (fun _ hs => hs ▸ ⟨hready, hh.2.1⟩) (fun _ _ hs => hs) (fun _ _ hs => Or.inl hs.1)
      fun _ hs => hs.1
  · rename_i hnot
    refine Triple.raise fun s hs => hs ▸ Or.inr ⟨hh.1, fun hc => ?_⟩
    obtain ⟨content, hroutes⟩ := hh.2.2.2.2 hc
    exact hnot content hroutes

include htape hphase in
theorem triple_startServices {services : List String}
    (hservices : services ≠ [] → b.leadIn = 2) :
    Triple (fun h => b.Leads K d c h ∧ (d → ∀ m ∈ h.tape.take (b.leadIn - 1), passes m))
      (startServices services) (fun _ => b.Leads K d c)
      (fun _ => b.Raised legacy previous K d c) (b.Phase legacy previous) := by
  refine Triple.when (fun hne => ?_) fun _ _ hh => hh.1
  have hlead : b.leadIn - 1 = 0 + 1 := by rw [hservices hne]
  rw [hlead]
  refine Triple.bind (R := fun _ => b.Leads K d c) ?_ fun _ => Triple.ret fun _ hh => hh
  refine Triple.bind (triple_lead fun _ hh => ⟨htape _ hh.1, hh.2⟩) fun m => ?_
  cases m with
  | proceeds => exact Triple.ret fun _ hh => hh.1.1
  | fails => exact Triple.raise fun _ hh => Or.inr ⟨hh.1.1.1, fun hc => (hh.2 hc).1 rfl⟩
  | breaks => exact Triple.raise fun _ hh => Or.inr ⟨hh.1.1.1, fun hc => (hh.2 hc).2 rfl⟩
  | crashes => exact Triple.crash fun _ hh => hphase _ hh.1.1.1
  | torn n => exact Triple.crash fun _ hh => hphase _ hh.1.1.1

theorem triple_writeActive_missing (id : EntityId .rev) (digest : Digest)
    {E : ComposeFailure → Host → Prop} :
    Triple (fun h => b.Phase legacy previous h ∧ (b.files h).active = .missing)
      (b.writeActive id digest) (fun _ => b.Phase legacy previous) E (b.Phase legacy previous) := by
  refine Triple.bind_get fun h hh => ?_
  rw [hh.2]
  refine (Host.triple_effect (P := b.Phase legacy previous) (fun _ hh => hh) ?_
    (fun _ hh => hh) fun _ _ hh => hh).at_state hh.1
  intro h hh
  exact Phase.setScope (f := fun s => { s with active := .evidence id digest }) hh fun _ => rfl

include htape hfences hphase in
/-- An activation of a scope without an active revision. -/
theorem triple_activate (candidate : RuntimeHandle) (expected : Option Digest) :
    Triple (fun h => (K h ∧ (b.files h).active = .missing ∧ Rooted c h ∧ b.Guarded c h) ∧
        (d → b.Admits candidate expected h))
      (b.activate candidate expected) (fun _ => b.Phase legacy previous)
      (fun _ => b.Raised legacy previous K d c) (b.Phase legacy previous) := by
  have hvalid : Triple (fun h => (K h ∧ (b.files h).active = .missing ∧ Rooted c h ∧
        b.Guarded c h) ∧ (d → b.Admits candidate expected h)) (b.validateHandle candidate)
      (fun _ h => (K h ∧ (b.files h).active = .missing ∧ Rooted c h ∧ b.Guarded c h) ∧
        (d → b.Admits candidate expected h))
      (fun _ => b.Raised legacy previous K d c) (b.Phase legacy previous) :=
    Triple.ite (fun _ => Triple.ret fun _ hh => hh) fun hne =>
      Triple.raise fun _ hh => Or.inr ⟨hh.1.1, fun hc => hne (hh.2 hc).handle⟩
  refine Triple.bind hvalid fun _ => Triple.bind_get fun h hh => ?_
  obtain ⟨⟨hK, hactive, hroot, hguard⟩, hadmits⟩ := hh
  split
  · rename_i e herror
    refine Triple.raise fun s hs => hs ▸ Or.inr ⟨hK, fun hc => ?_⟩
    rw [(hadmits hc).fence] at herror
    exact absurd herror (by simp)
  have hleads : b.Leads K d c h := ⟨hK, hactive, hroot, hguard, fun hc => (hadmits hc).routes⟩
  have hfirst : d → expected = none := fun hc => (hadmits hc).first
  have hlen : b.leadIn = b.leadIn - 1 + 1 := by
    unfold leadIn
    split <;> rfl
  have hmoments : d → ∀ m ∈ h.tape.take (b.leadIn - 1 + 1), passes m := by
    rw [← hlen]
    exact fun hc => (hadmits hc).moments
  have hlead : Triple (fun t => t = h) Host.moment
      (fun m h => (b.Leads K d c h ∧ (d → ∀ m ∈ h.tape.take (b.leadIn - 1), passes m)) ∧
        (d → passes m)) (fun _ => b.Raised legacy previous K d c) (b.Phase legacy previous) :=
    (triple_lead fun _ hh => ⟨htape _ hh.1, hh.2⟩).at_state ⟨hleads, hmoments⟩
  refine Triple.bind hlead fun m => ?_
  have hadm : ∀ {E : ComposeFailure → Host → Prop} {C : Host → Prop},
      Triple (fun h => (b.Leads K d c h ∧ (d → ∀ m ∈ h.tape.take (b.leadIn - 1), passes m)) ∧
          (d → passes m)) (Program.modify fun h => { h with fences := h.fences.put b.fence })
        (fun _ h => (b.Leads K d c h ∧ (d → ∀ m ∈ h.tape.take (b.leadIn - 1), passes m)) ∧
          (d → passes m)) E C :=
    Triple.modify fun h hh => ⟨⟨⟨hfences h _ hh.1.1.1, hh.1.1.2⟩, hh.1.2⟩, hh.2⟩
  cases m with
  | fails => exact Triple.raise fun _ hh => Or.inr ⟨hh.1.1.1, fun hc => (hh.2 hc).1 rfl⟩
  | breaks =>
      exact Triple.bind hadm fun _ =>
        Triple.raise fun _ hh => Or.inr ⟨hh.1.1.1, fun hc => (hh.2 hc).2 rfl⟩
  | crashes => exact Triple.crash fun _ hh => hphase _ hh.1.1.1
  | torn n => exact Triple.bind hadm fun _ => Triple.crash fun _ hh => hphase _ hh.1.1.1
  | proceeds =>
      refine Triple.bind (hadm.post fun _ _ hh => hh.1) fun _ => ?_
      have hread : Triple
          (fun h => b.Leads K d c h ∧ (d → ∀ m ∈ h.tape.take (b.leadIn - 1), passes m)) b.readActive
          (fun r h => r = none ∧ b.Leads K d c h ∧
            (d → ∀ m ∈ h.tape.take (b.leadIn - 1), passes m))
          (fun _ => b.Raised legacy previous K d c) (b.Phase legacy previous) :=
        triple_readActive_missing fun _ hh => hh.1.2.1
      refine Triple.bind hread fun active => Triple.assuming fun hnone => ?_
      subst hnone
      rw [if_neg (by simp)]
      refine Triple.ite (fun hne => Triple.raise fun _ hh => Or.inr ⟨hh.1.1, fun hc => ?_⟩)
        fun _ => ?_
      · exact hne (hfirst hc).symm
      -- no predecessor, so nothing to stop
      rw [show b.previousRuntime none = Program.ret none from rfl, ret_bind,
        show stopServices (Option.elim none [] fun runtime : RetainedRuntime =>
          if b.recreate then runtime.longRunning else runtime.background) = Program.ret () from rfl,
        ret_bind]
      have hservices : b.activationServices ≠ [] → b.leadIn = 2 := fun hne => if_neg hne
      refine Triple.bind (triple_startServices htape hphase hservices) fun _ => ?_
      refine Triple.bind (R := fun _ => b.Leads K d c) (Host.triple_effect
        (fun _ hh => ⟨htape _ hh.1, hh.2⟩) (fun _ hh => hh) (fun _ hh => hphase _ hh.1)
        fun _ _ hh => hphase _ hh.1) fun _ => ?_
      refine Triple.bind (triple_activateRoutes hphase) fun _ => ?_
      exact Triple.bind (triple_writeActive_missing _ _) fun _ => Triple.pure fun _ hh => hh

end Activation

section Deactivation

variable {K : Host → Prop} {previous : Option FileBytes}

omit [Platform] in
theorem Fresh.setScope (hh : b.Fresh legacy previous h) {f : ScopeFiles → ScopeFiles}
    (hf : ∀ s, (f s).displaced = s.displaced) :
    b.Fresh legacy previous (h.setScope b.scope f) := by
  have hd := displaced_setScope (b := b) (h := h) hf
  unfold Fresh
  rw [hd]
  exact hh

/-- A deactivation restores what its Caddy part restores. -/
theorem triple_deactivate (htape : ∀ h, K h → K { h with tape := h.tape.tail })
    (hfences : ∀ h t, K h → K { h with fences := t })
    (hphase : ∀ h, K h → b.Phase legacy previous h)
    (hcaddy : Triple K b.deactivateCaddy (fun _ => b.Fresh legacy previous)
      (fun _ => b.Phase legacy previous) (b.Phase legacy previous)) (failed : RuntimeHandle) :
    Triple K (b.deactivate failed) (fun _ => b.Fresh legacy previous)
      (fun _ => b.Phase legacy previous) (b.Phase legacy previous) := by
  have hkeep : ∀ {α : Type} {m : Proc α}, Keeps K m →
      Triple K m (fun _ => K) (fun _ => b.Phase legacy previous) (b.Phase legacy previous) :=
    fun hm => Triple.conseq hm (fun _ hh => hh) (fun _ _ hh => hh) (fun _ _ hh => hphase _ hh)
      fun _ hh => hphase _ hh
  have hbody : Triple K (b.readActive >>= fun active =>
      if active = none ∨ active.map Prod.snd = some failed.revisionDigest then do
        b.stopCandidate
        b.deactivateCaddy
        cronRegistry
        b.unlinkActive
      else Program.raise (.composeBackendError "Refusing to deactivate another revision."))
      (fun _ => b.Fresh legacy previous) (fun _ => b.Phase legacy previous)
      (b.Phase legacy previous) := by
    refine Triple.bind (hkeep keeps_readActive) fun active =>
      Triple.ite (fun _ => ?_) fun _ => Triple.raise fun _ hh => hphase _ hh
    refine Triple.bind (hkeep (keeps_stopCandidate htape)) fun _ => Triple.bind hcaddy fun _ => ?_
    refine Triple.bind (Triple.conseq (keeps_cronRegistry (I := b.Fresh legacy previous)
      fun _ hh => hh) (fun _ hh => hh) (fun _ _ hh => hh) (fun _ _ hh => Or.inl hh)
      fun _ hh => Or.inl hh) fun _ => ?_
    refine Host.triple_effect (fun _ hh => hh) ?_ (fun _ hh => Or.inl hh) fun _ _ hh => Or.inl hh
    intro h hh
    exact Fresh.setScope (f := fun s => { s with active := .missing }) hh fun _ => rfl
  refine Triple.bind (R := fun _ => b.Fresh legacy previous) ?_ fun _ =>
    Triple.pure fun _ hh => hh
  refine Triple.bind_get fun h hh => ?_
  split
  · exact Triple.raise fun s hs => hs ▸ hphase h hh
  refine Triple.bind ((Host.triple_moment (P := K) htape).at_state hh) fun m => ?_
  have hadm : ∀ {E : ComposeFailure → Host → Prop} {C : Host → Prop},
      Triple K (Program.modify fun h => { h with fences := h.fences.put b.fence }) (fun _ => K) E C :=
    Triple.modify fun h hh => hfences h _ hh
  cases m with
  | proceeds => exact Triple.bind hadm fun _ => hbody
  | fails => exact Triple.raise fun _ hh => hphase _ hh
  | breaks => exact Triple.bind hadm fun _ => Triple.raise fun _ hh => hphase _ hh
  | crashes => exact Triple.crash fun _ hh => hphase _ hh
  | torn n => exact Triple.bind hadm fun _ => Triple.crash fun _ hh => hphase _ hh

end Deactivation

/-! ### Runs -/

/-- What an attempt has to meet for its way back to be complete. An activation finds no
evidence of an earlier one, `sites.d` is a real directory and a failure of the switch is
handled; one that finds a record of its own gets as far as the switch. A deactivation finds
the record, or there was no include before. A first deployment has nothing to restore. -/
def Meets (b : ComposeBackend) (previous : Option FileBytes) (h : Host) (a : Attempt) : Prop :=
  match a.call with
  | .activate candidate expected =>
      (b.files h).active = .missing ∧ h.sitesRoot = .directory ∧
        (h.sharedCompose = true ∨ (b.requireEdgeRuntime = true ∧ b.routes ≠ [])) ∧
        ((b.displaced h).state = .missing ∨
          (b.resumed a).Admits candidate expected { h with tape := a.tape })
  | .deactivate _ => (b.displaced h).state ≠ .missing ∨ previous = none
  | .restore _ _ => False
  | .start | .remove _ => True

/-- Every attempt of a run meets its condition in the state it finds. -/
def MeetsAll (b : ComposeBackend) (previous : Option FileBytes) : Host → List Attempt → Prop
  | _, [] => True
  | h, a :: as => b.Meets previous h a ∧ b.MeetsAll previous (b.attempt h a).1 as

/-- A failed activation and a completed deactivation restore the legacy site and the include
from before. -/
def Restores (b : ComposeBackend) (legacy : FileBytes) (previous : Option FileBytes) (h : Host)
    (a : Attempt) : Prop :=
  match a.call, (b.attempt h a).2 with
  | .activate _ _, .raised _ => b.Stands legacy previous (b.attempt h a).1
  | .deactivate _, .returned _ => b.Stands legacy previous (b.attempt h a).1
  | _, _ => True

omit [Platform] in
/-- The three ways a call ends. -/
theorem ends_of_triple {α : Type} {P Q E C : Host → Prop} {m : Proc α}
    (ht : Triple P m (fun _ => Q) (fun _ => E) C) {h : Host} (hp : P h) :
    (∃ h', forget (m h) = (h', .returned ()) ∧ Q h') ∨
      (∃ h' e, forget (m h) = (h', .raised e) ∧ E h') ∨
        ∃ h', forget (m h) = (h', .crashed) ∧ C h' := by
  have hrun := ht h hp
  cases hm : m h with
  | mk h' o =>
      rw [hm] at hrun
      cases o with
      | returned a => exact Or.inl ⟨h', rfl, hrun⟩
      | raised e => exact Or.inr (Or.inl ⟨h', e, rfl, hrun⟩)
      | crashed => exact Or.inr (Or.inr ⟨h', rfl, hrun⟩)

variable {previous : Option FileBytes}

theorem phase_activate (hphase : b.Phase legacy previous h) {a : Attempt}
    {candidate : RuntimeHandle} {expected : Option Digest}
    (hcall : a.call = .activate candidate expected) (hmeets : b.Meets previous h a) :
    b.Phase legacy previous (b.attempt h a).1 ∧ b.Restores legacy previous h a := by
  rw [Meets, hcall] at hmeets
  obtain ⟨hactive, hroot, hguard, hstate⟩ := hmeets
  have htriple : Triple (fun t => t = { h with tape := a.tape })
      ((b.resumed a).activate candidate expected)
      (fun _ => b.Phase legacy previous)
      (fun _ h => b.Phase legacy previous h ∧ b.Stands legacy previous h)
      (b.Phase legacy previous) := by
    rcases hphase with hfresh | hheld
    · -- nothing is on record yet, so wherever it raises the site stands
      refine ((triple_activate (b := b.resumed a) (K := b.Fresh legacy previous) (d := False)
        (c := True) (fun _ hh => hh) (fun _ _ hh => hh) (fun _ hh => Or.inl hh) candidate
        expected).at_state (s := { h with tape := a.tape })
        ⟨⟨hfresh, hactive, fun _ => hroot, fun _ => hguard⟩, False.elim⟩).conseq
        (fun _ hs => hs) (fun _ _ hs => hs) (fun _ h' hs => ?_) fun _ hs => hs
      rcases hs with hs | hs
      · exact ⟨hs.1, hs.2 trivial⟩
      · exact ⟨Or.inl hs.1, hs.1.2⟩
    · have hadmits := hstate.resolve_left (by rw [hheld.records.state]; simp)
      refine ((triple_activate (b := b.resumed a) (K := b.Held legacy previous) (d := True)
        (c := True) (fun _ hh => hh) (fun _ _ hh => hh) (fun _ hh => Or.inr hh) candidate
        expected).at_state (s := { h with tape := a.tape })
        ⟨⟨hheld, hactive, fun _ => hroot, fun _ => hguard⟩, fun _ => hadmits⟩).conseq
        (fun _ hs => hs) (fun _ _ hs => hs) (fun _ h' hs => ?_) fun _ hs => hs
      rcases hs with hs | hs
      · exact ⟨hs.1, hs.2 trivial⟩
      · exact absurd trivial hs.2
  have hrun : b.attempt h a =
      forget ((b.resumed a).activate candidate expected { h with tape := a.tape }) := by
    rw [attempt, hcall]
  rw [Restores, hrun, hcall]
  rcases ends_of_triple htriple rfl with ⟨h', heq, hend⟩ | ⟨h', e, heq, hend⟩ | ⟨h', heq, hend⟩
  · rw [heq]
    exact ⟨hend, trivial⟩
  · rw [heq]
    exact hend
  · rw [heq]
    exact ⟨hend, trivial⟩

theorem phase_deactivate (hphase : b.Phase legacy previous h) {a : Attempt}
    {failed : RuntimeHandle} (hcall : a.call = .deactivate failed)
    (hmeets : b.Meets previous h a) :
    b.Phase legacy previous (b.attempt h a).1 ∧ b.Restores legacy previous h a := by
  rw [Meets, hcall] at hmeets
  have htriple : Triple (fun t => t = { h with tape := a.tape }) ((b.resumed a).deactivate failed)
      (fun _ => b.Fresh legacy previous) (fun _ => b.Phase legacy previous)
      (b.Phase legacy previous) := by
    rcases hphase with hfresh | hheld
    · -- without a record there was no include before
      obtain rfl : previous = none := hmeets.resolve_left fun hne => hne hfresh.1
      refine (triple_deactivate (b := b.resumed a) (K := b.Fresh legacy none) (fun _ hh => hh)
        (fun _ _ hh => hh) (fun _ hh => Or.inl hh) ?_ failed).at_state hfresh
      exact triple_deactivateCaddy_fresh.conseq (fun _ hh => hh) (fun _ _ hh => hh)
        (fun _ _ hh => Or.inl (hh.elim id id)) fun _ hh => Or.inl (hh.elim id id)
    · exact (triple_deactivate (b := b.resumed a) (K := b.Held legacy previous) (fun _ hh => hh)
        (fun _ _ hh => hh) (fun _ hh => Or.inr hh) triple_deactivateCaddy_held failed).at_state hheld
  have hrun : b.attempt h a =
      forget ((b.resumed a).deactivate failed { h with tape := a.tape }) := by
    rw [attempt, hcall]
  rw [Restores, hrun, hcall]
  rcases ends_of_triple htriple rfl with ⟨h', heq, hend⟩ | ⟨h', e, heq, hend⟩ | ⟨h', heq, hend⟩
  · rw [heq]
    exact ⟨Or.inl hend, hend.2⟩
  · rw [heq]
    exact ⟨hend, trivial⟩
  · rw [heq]
    exact ⟨hend, trivial⟩

/-- One attempt that meets its condition. -/
theorem phase_attempt (hphase : b.Phase legacy previous h) {a : Attempt}
    (hmeets : b.Meets previous h a) :
    b.Phase legacy previous (b.attempt h a).1 ∧ b.Restores legacy previous h a := by
  have hrevision : ∀ h id r, (b.resumed a).Phase legacy previous h →
      (b.resumed a).Phase legacy previous (h.setRevision (b.resumed a).scope id r) :=
    fun h id r hh => Phase.setScope (b := b.resumed a)
      (f := fun s => { s with revisions := fun i => if i = id then r else s.revisions i }) hh
      fun _ => rfl
  cases hcall : a.call with
  | activate candidate expected => exact phase_activate hphase hcall hmeets
  | deactivate failed => exact phase_deactivate hphase hcall hmeets
  | restore target failed =>
      rw [Meets, hcall] at hmeets
      exact hmeets.elim
  | start =>
      rw [Restores, attempt, hcall, forget_fst]
      exact ⟨(keeps_start_of_env (b := b.resumed a) (I := b.Phase legacy previous)
        (fun _ hh => hh) (fun h => hrevision h _ _) (fun _ _ hh => hh) fun _ _ hh => hh).run hphase, trivial⟩
  | remove handle =>
      rw [Restores, attempt, hcall, forget_fst]
      exact ⟨(keeps_remove (b := b.resumed a) (I := b.Phase legacy previous)
        (fun _ hh => hh) (fun h _ => hrevision h _ _) (fun _ _ hh => hh) handle).run hphase, trivial⟩

theorem restores_of_meetsAll (hphase : b.Phase legacy previous h) {as : List Attempt}
    {a : Attempt} (hmeets : b.MeetsAll previous h (as ++ [a])) :
    b.Restores legacy previous (b.attempts h as) a := by
  induction as generalizing h with
  | nil => exact (phase_attempt hphase hmeets.1).2
  | cons x as ih => exact ih (phase_attempt hphase hmeets.1).1 hmeets.2

/-- A legacy site that is live when its scope is first deployed. After any run of attempts,
with any crashes and failures, its bytes are live or held by the record of the candidate. In
a run whose attempts all meet their condition, every failed activation and every completed
deactivation restores the legacy bytes and the include from before. -/
theorem legacy_site_kept (b : ComposeBackend) (legacy : FileBytes) (previous : Option FileBytes)
    (h : Host) (hfirst : b.Fresh legacy previous h) :
    (∀ as : List Attempt,
      (b.attempts h as).site? b.legacyCaddyInclude = some (.regular legacy) ∨
        ∃ target, Records (b.displaced (b.attempts h as)) legacy target) ∧
    (∀ (as : List Attempt) (a : Attempt), b.MeetsAll previous h (as ++ [a]) →
      b.Restores legacy previous (b.attempts h as) a) := by
  refine ⟨fun as => ?_, fun as a hmeets => restores_of_meetsAll (Or.inl hfirst) hmeets⟩
  obtain ⟨target, hfresh | hheld⟩ := kept_attempts ⟨previous, Or.inl hfirst⟩ as
  · exact Or.inl hfresh.2.1
  · exact Or.inr ⟨target, hheld.records⟩

end ComposeBackend

end Ophelia

namespace Ophelia.Reference

attribute [local instance] platform

def webProd : RuntimeScope :=
  ⟨⟨"host", by decide⟩, ⟨"web", by decide⟩, ⟨"production", Eq.refl true⟩⟩

/-- `web.example {}`. -/
def legacySite : FileBytes :=
  [119, 101, 98, 46, 101, 120, 97, 109, 112, 108, 101, 32, 123, 125]

/-- A scope with a legacy site and an include from an earlier attempt, and no record. -/
def legacyAndInclude : Host where
  sitesRoot := .directory
  sites := ⟨[⟨"web.caddy", .regular legacySite⟩, ⟨"web-production.caddy", .regular [35]⟩], by decide⟩
  env := none
  sharedCompose := false
  scopes := fun _ =>
    { active := .missing
      revisions := fun _ => none
      displaced := fun _ => ⟨.missing, .missing, none, none, false⟩ }
  fences := .empty
  tape := []

def webCandidate : ComposeBackend := ComposeBackend.bare webProd

/-- The compensation of an operation that stopped right before its first activation. -/
def compensate : Attempt where
  operationId := ⟨"operation", Eq.refl true⟩
  ownerId := ⟨"owner", Eq.refl true⟩
  fencingToken := ⟨1, Nat.one_pos⟩
  call := .deactivate webCandidate.candidateHandle
  tape := []

theorem fresh_legacyAndInclude : webCandidate.Fresh legacySite (some [35]) legacyAndInclude :=
  ⟨rfl, rfl, rfl⟩

theorem legacy_site_kept_web :
    webCandidate.Fresh legacySite (some [35]) legacyAndInclude ∧
    (∀ as : List Attempt,
      (webCandidate.attempts legacyAndInclude as).site? webCandidate.legacyCaddyInclude =
          some (.regular legacySite) ∨
        ∃ target, ComposeBackend.Records
          (webCandidate.displaced (webCandidate.attempts legacyAndInclude as)) legacySite
            target) ∧
    (∀ (as : List Attempt) (a : Attempt),
      webCandidate.MeetsAll (some [35]) legacyAndInclude (as ++ [a]) →
        webCandidate.Restores legacySite (some [35])
          (webCandidate.attempts legacyAndInclude as) a) :=
  ⟨fresh_legacyAndInclude,
    ComposeBackend.legacy_site_kept webCandidate legacySite (some [35]) legacyAndInclude
      fresh_legacyAndInclude⟩

/-- Without a record, a deactivation that completes has unlinked the include from before. -/
theorem not_restores_include :
    webCandidate.Fresh legacySite (some [35]) legacyAndInclude ∧
    (webCandidate.attempt legacyAndInclude compensate).2 = .returned () ∧
    (webCandidate.attempt legacyAndInclude compensate).1.site? "web-production.caddy" = none ∧
    ¬ webCandidate.Restores legacySite (some [35]) legacyAndInclude compensate := by
  have hrun : (webCandidate.attempt legacyAndInclude compensate).2 = .returned () := rfl
  have hsite : (webCandidate.attempt legacyAndInclude compensate).1.site? "web-production.caddy" =
      none := rfl
  refine ⟨fresh_legacyAndInclude, hrun, hsite, ?_⟩
  intro hrestores
  rw [ComposeBackend.Restores, hrun] at hrestores
  have hstands : (webCandidate.attempt legacyAndInclude compensate).1.site? "web-production.caddy" =
      some (.regular [35]) := hrestores.2
  rw [hsite] at hstands
  exact absurd hstands (by simp)

end Ophelia.Reference
