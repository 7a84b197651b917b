import Ophelia.Execution.ComposeBackend

/-!
# Ophelia.Execution.ComposeFrames

What the procedures of the backend leave alone. Every lemma names the changes that its
procedure may make; a property that survives these changes holds at every end of the
procedure, at every crash point and for every failing command. `Outside` lists everything a
switch of traffic may change: the displacement records of its scope, the shared environment
file, the fences, and the two site names of its scope.
-/

namespace Ophelia

open Program

/-! ### Reading the sites after a write -/

namespace Host

variable (h : Host) (name other : String)

theorem site?_putSite (node : FileNode) :
    (h.putSite name node).site? other = if other = name then some node else h.site? other := by
  unfold site? putSite
  rw [Table.get?_put]
  split
  · rfl
  · rfl

theorem site?_eraseSite :
    (h.eraseSite name).site? other = if other = name then none else h.site? other := by
  have hmem : ∀ f, (h.eraseSite name).sites.get? other = some f ↔
      h.sites.get? other = some f ∧ other ≠ name := by
    intro f
    rw [Table.get?_eq_some, Table.get?_eq_some, eraseSite, List.mem_filter]
    constructor
    · rintro ⟨⟨hf, hne⟩, rfl⟩
      exact ⟨⟨hf, rfl⟩, by simpa using hne⟩
    · rintro ⟨⟨hf, rfl⟩, hne⟩
      exact ⟨⟨hf, by simpa using hne⟩, rfl⟩
  unfold site?
  split
  · rename_i heq
    have hnone : (h.eraseSite name).sites.get? other = none :=
      Option.eq_none_iff_forall_not_mem.mpr fun f hf => ((hmem f).mp hf).2 heq
    rw [hnone]
    rfl
  · rename_i hne
    congr 1
    exact Option.ext fun f => (hmem f).trans (and_iff_left hne)

end Host

/-! ### What a call may change -/

/-- A property that survives everything a switch of the scope may do. -/
structure Outside (scope : RuntimeScope) (I : Host → Prop) : Prop where
  tape : ∀ h, I h → I { h with tape := h.tape.tail }
  fences : ∀ h t, I h → I { h with fences := t }
  sitesRoot : ∀ h d, I h → I { h with sitesRoot := d }
  env : ∀ h e, I h → I { h with env := e }
  displaced : ∀ h id f, I h → I (h.setDisplaced scope id f)
  putInclude : ∀ h content, I h →
    I (h.putSite (caddyIncludeName scope.app scope.environment) (.regular content))
  eraseInclude : ∀ h, I h → I (h.eraseSite (caddyIncludeName scope.app scope.environment))
  putLegacy : ∀ h content, I h →
    I (h.putSite (legacyCaddyIncludeName scope.app) (.regular content))
  eraseLegacy : ∀ h, I h → I (h.eraseSite (legacyCaddyIncludeName scope.app))

namespace Host

variable {I : Host → Prop}

section Moments

variable (htape : ∀ h, I h → I { h with tape := h.tape.tail })

include htape

theorem keeps_moment : Keeps I moment := by
  intro h hI
  unfold moment
  have htail := htape h hI
  cases ht : h.tape with
  | nil => simpa [ht] using hI
  | cons m ms => simpa [ht] using htail

theorem keeps_effect {f : Host → Host} {partly : Nat → Host → Host} (hf : ∀ h, I h → I (f h))
    (hpartly : ∀ n h, I h → I (partly n h)) : Keeps I (effect f partly) := by
  refine Keeps.bind (keeps_moment htape) fun m => ?_
  cases m with
  | crashes => exact Keeps.crash
  | torn n => exact Keeps.bind (Keeps.modify (hpartly n)) fun _ => Keeps.crash
  | proceeds => exact Keeps.modify hf
  | fails => exact Keeps.modify hf
  | breaks => exact Keeps.modify hf

theorem keeps_command (check : Bool) : Keeps I (command check) := by
  refine Keeps.bind (keeps_moment htape) fun m => ?_
  cases m with
  | proceeds => exact Keeps.ret
  | fails => exact Keeps.ite Keeps.raise Keeps.ret
  | breaks => exact Keeps.raise
  | crashes => exact Keeps.crash
  | torn n => exact Keeps.crash

theorem keeps_preparation : Keeps I preparation := by
  refine Keeps.bind (keeps_moment htape) fun m => ?_
  cases m with
  | proceeds => exact Keeps.ret
  | fails => exact Keeps.raise
  | breaks => exact Keeps.raise
  | crashes => exact Keeps.crash
  | torn n => exact Keeps.crash

theorem keeps_mkdirSites (hroot : ∀ h d, I h → I { h with sitesRoot := d }) :
    Keeps I mkdirSites := by
  refine Keeps.bind Keeps.get fun h => ?_
  cases h.sitesRoot with
  | missing => exact keeps_effect htape (fun h => hroot h _) fun _ _ hI => hI
  | directory => exact Keeps.ret
  | symlink => exact Keeps.ret
  | other => exact Keeps.raise

theorem keeps_atomicSite (hroot : ∀ h d, I h → I { h with sitesRoot := d }) {name : String}
    (hput : ∀ h content, I h → I (h.putSite name (.regular content))) (value : FileBytes) :
    Keeps I (atomicSite name value) := by
  refine Keeps.bind (keeps_mkdirSites htape hroot) fun _ => Keeps.bind Keeps.get fun h => ?_
  refine Keeps.ite Keeps.raise (Keeps.ite Keeps.raise ?_)
  exact keeps_effect htape (fun h => hput h _) fun _ _ hI => hI

theorem keeps_unlinkSite {name : String} (herase : ∀ h, I h → I (h.eraseSite name)) :
    Keeps I (unlinkSite name) := by
  refine Keeps.bind Keeps.get fun h => ?_
  cases h.site? name with
  | none => exact Keeps.ret
  | some node =>
      cases node with
      | directory => exact Keeps.raise
      | regular content => exact keeps_effect htape herase fun _ _ hI => hI
      | symlink target => exact keeps_effect htape herase fun _ _ hI => hI

theorem keeps_restorePrivateFile (hroot : ∀ h d, I h → I { h with sitesRoot := d })
    {name : String} (hput : ∀ h content, I h → I (h.putSite name (.regular content)))
    (herase : ∀ h, I h → I (h.eraseSite name)) (value : Option FileBytes) :
    Keeps I (restorePrivateFile name value) := by
  cases value with
  | none => exact keeps_unlinkSite htape herase
  | some value => exact keeps_atomicSite htape hroot hput value

theorem keeps_writePrivateEnv (henv : ∀ h e, I h → I { h with env := e }) (value : FileBytes) :
    Keeps I (writePrivateEnv value) := by
  refine Keeps.bind Keeps.get fun h => ?_
  cases h.env with
  | none => exact keeps_effect htape (fun h => henv h _) fun _ _ hI => hI
  | some node =>
      cases node with
      | regular content => exact keeps_effect htape (fun h => henv h _) fun _ h => henv h _
      | directory => exact Keeps.raise
      | symlink target => exact Keeps.raise

theorem keeps_restorePrivateEnv (henv : ∀ h e, I h → I { h with env := e })
    (value : Option FileBytes) : Keeps I (restorePrivateEnv value) := by
  cases value with
  | some value => exact keeps_writePrivateEnv htape henv value
  | none =>
      refine Keeps.bind Keeps.get fun h => ?_
      cases h.env with
      | none => exact Keeps.ret
      | some node =>
          cases node with
          | regular content => exact keeps_effect htape (fun h => henv h _) fun _ _ hI => hI
          | directory => exact Keeps.raise
          | symlink target => exact keeps_effect htape (fun h => henv h _) fun _ _ hI => hI

theorem keeps_updatePrivateEnv (henv : ∀ h e, I h → I { h with env := e })
    (updates : EnvUpdates) : Keeps I (updatePrivateEnv updates) := by
  refine Keeps.bind Keeps.get fun h => ?_
  split
  · exact Keeps.raise
  · exact Keeps.raise
  · split
    · exact Keeps.raise
    · exact keeps_writePrivateEnv htape henv _
  · split
    · exact Keeps.raise
    · split
      · exact Keeps.raise
      · exact keeps_writePrivateEnv htape henv _

theorem keeps_pruneRouteAuthEnv (henv : ∀ h e, I h → I { h with env := e }) :
    Keeps I pruneRouteAuthEnv := by
  refine Keeps.bind Keeps.get fun h => ?_
  refine Keeps.ite Keeps.raise (Keeps.ite Keeps.raise ?_)
  refine Keeps.bind Keeps.ofExcept fun active => ?_
  split
  · split
    · exact Keeps.raise
    · split
      · exact Keeps.raise
      · exact Keeps.when (keeps_writePrivateEnv htape henv _)
  · exact Keeps.ret

end Moments

end Host

/-! ### Every call stays inside -/

namespace ComposeBackend

variable {b : ComposeBackend} {I : Host → Prop}

theorem keeps_validateHandle (handle : RuntimeHandle) : Keeps I (b.validateHandle handle) :=
  Keeps.ite Keeps.ret Keeps.raise

theorem keeps_readActive : Keeps I b.readActive := by
  refine Keeps.bind Keeps.get fun h => ?_
  split
  · exact Keeps.ret
  · exact Keeps.ret
  · exact Keeps.raise
  · exact Keeps.ret

theorem keeps_runtimeForHandle (id : EntityId .rev) (digest : Digest) :
    Keeps I (b.runtimeForHandle id digest) := by
  refine Keeps.bind Keeps.get fun h => ?_
  split
  · exact Keeps.raise
  · exact Keeps.ite Keeps.ret Keeps.raise

theorem keeps_previousRuntime (active : Option (EntityId .rev × Digest)) :
    Keeps I (b.previousRuntime active) := by
  cases active with
  | none => exact Keeps.ret
  | some active => exact Keeps.bind (keeps_runtimeForHandle _ _) fun _ => Keeps.ret

section Moments

variable (htape : ∀ h, I h → I { h with tape := h.tape.tail })

include htape

theorem keeps_fenced (hfences : ∀ h t, I h → I { h with fences := t }) {α : Type} {body : Proc α}
    (hbody : Keeps I body) : Keeps I (b.fenced body) := by
  refine Keeps.bind Keeps.get fun h => ?_
  split
  · exact Keeps.raise
  · refine Keeps.bind (Host.keeps_moment htape) fun m => ?_
    have hadm : Keeps I (Program.modify fun h : Host => { h with fences := h.fences.put b.fence } :
        Proc Unit) := Keeps.modify fun h => hfences h _
    cases m with
    | proceeds => exact Keeps.bind hadm fun _ => hbody
    | fails => exact Keeps.raise
    | breaks => exact Keeps.bind hadm fun _ => Keeps.raise
    | crashes => exact Keeps.crash
    | torn n => exact Keeps.bind hadm fun _ => Keeps.crash

theorem keeps_stopServices (services : List String) : Keeps I (stopServices services) :=
  Keeps.when (Keeps.bind (Host.keeps_command htape false) fun _ => Keeps.ret)

theorem keeps_startServices (services : List String) : Keeps I (startServices services) :=
  Keeps.when (Keeps.bind (Host.keeps_command htape true) fun _ => Keeps.ret)

theorem keeps_stopCandidate : Keeps I b.stopCandidate :=
  Keeps.bind Keeps.get fun _ => Keeps.when (keeps_stopServices htape _)

theorem keeps_cronRegistry : Keeps I cronRegistry :=
  Host.keeps_effect htape (fun _ hI => hI) fun _ _ hI => hI

theorem keeps_validateAndReload : Keeps I validateAndReload :=
  Keeps.bind (Host.keeps_command htape true) fun _ =>
    Keeps.bind (Host.keeps_command htape true) fun _ => Keeps.pure

theorem keeps_reload : Keeps I reload :=
  Keeps.bind (Host.keeps_command htape false) fun _ => Keeps.ret

theorem keeps_runMigrations (migrations : List String) : Keeps I (runMigrations migrations) := by
  induction migrations with
  | nil => exact Keeps.ret
  | cons migration migrations ih => exact Keeps.bind (Host.keeps_preparation htape) fun _ => ih

theorem keeps_routeAuthValues [Platform] (resolve : String → Option String)
    (routes : List BackendRoute) (values : EnvUpdates) :
    Keeps I (b.routeAuthValues resolve routes values) := by
  induction routes generalizing values with
  | nil => exact Keeps.ret
  | cons route routes ih =>
      rw [routeAuthValues]
      split
      · exact ih values
      · refine Keeps.bind (Host.keeps_preparation htape) fun _ => ?_
        split
        · exact ih values
        · split
          · exact Keeps.raise
          · exact Keeps.ite (ih _) Keeps.raise

/-! The materialized revisions of the backend's own scope. -/

section Materialize

variable (hrevision : ∀ h, I h → I (h.setRevision b.scope b.revisionId
  (some ⟨some (.regular b.bundleRoutes), some b.ownRuntime⟩)))

include hrevision

theorem keeps_materializeRevision : Keeps I b.materializeRevision := by
  refine Keeps.bind (Host.keeps_preparation htape) fun _ => Keeps.bind Keeps.get fun h => ?_
  split
  · exact Keeps.ite (Host.keeps_preparation htape) Keeps.raise
  · exact Host.keeps_effect htape hrevision fun _ _ hI => hI

/-- A start changes what the materialization of the routes' credentials changes, and the
revision of its candidate. -/
theorem keeps_start [Platform] (hfences : ∀ h t, I h → I { h with fences := t })
    (hauth : Keeps I b.materializeRouteAuth) : Keeps I b.start := by
  have hprep := Host.keeps_preparation htape
  have hstart := keeps_startServices htape b.candidateStartServices
  refine Keeps.bind hprep fun _ => Keeps.bind (keeps_fenced htape hfences ?_) fun _ => Keeps.pure
  refine Keeps.bind (keeps_materializeRevision htape hrevision) fun _ => Keeps.bind hprep fun _ =>
    Keeps.bind hauth fun _ => Keeps.bind hprep fun _ =>
      Keeps.bind (keeps_runMigrations htape _) fun _ => Keeps.ite ?_ hstart
  exact Keeps.bind keeps_readActive fun active => Keeps.bind (keeps_previousRuntime active) fun _ =>
    Keeps.bind (keeps_stopServices htape _) fun _ => hstart

/-- The credentials of the routes go to the environment file. -/
theorem keeps_start_of_env [Platform] (hfences : ∀ h t, I h → I { h with fences := t })
    (henv : ∀ h e, I h → I { h with env := e }) : Keeps I b.start := by
  refine keeps_start htape hrevision hfences (Keeps.ite Keeps.ret ?_)
  split
  · exact Keeps.raise
  · exact Keeps.bind (keeps_routeAuthValues htape _ _ _) fun _ =>
      Keeps.when (Host.keeps_updatePrivateEnv htape henv _)

end Materialize

theorem keeps_remove (hrevision : ∀ h id, I h → I (h.setRevision b.scope id none))
    (hfences : ∀ h t, I h → I { h with fences := t }) (handle : RuntimeHandle) :
    Keeps I (b.remove handle) := by
  have hprep := Host.keeps_preparation htape
  refine Keeps.bind keeps_readActive fun active => Keeps.ite Keeps.raise ?_
  refine Keeps.bind hprep fun _ => keeps_fenced htape hfences ?_
  exact Keeps.bind (Host.keeps_command htape false) fun _ =>
    Keeps.bind (Host.keeps_effect htape (fun h => hrevision h _) fun _ _ hI => hI) fun _ =>
      Keeps.bind hprep fun _ => Keeps.pure

/-! The evidence of the active revision, and the calls around the switch. -/

section Active

variable (hactive : ∀ h id digest, I h →
  I (h.setScope b.scope fun s => { s with active := .evidence id digest }))

include hactive

theorem keeps_writeActive (id : EntityId .rev) (digest : Digest) :
    Keeps I (b.writeActive id digest) := by
  refine Keeps.bind Keeps.get fun h => ?_
  split
  · exact Keeps.raise
  · exact Host.keeps_effect htape (fun h => hactive h _ _) fun _ _ hI => hI

variable [Platform] (hfences : ∀ h t, I h → I { h with fences := t })

include hfences

/-- An activation keeps what its switch keeps. -/
theorem keeps_activate (hroutes : Keeps I (b.activateRoutes b.revisionId))
    (candidate : RuntimeHandle) (expected : Option Digest) :
    Keeps I (b.activate candidate expected) := by
  refine Keeps.bind (keeps_validateHandle _) fun _ => keeps_fenced htape hfences ?_
  refine Keeps.bind keeps_readActive fun active => ?_
  refine Keeps.ite ?_ (Keeps.ite Keeps.raise ?_)
  · exact Keeps.bind (keeps_cronRegistry htape) fun _ =>
      Keeps.bind hroutes fun _ => Keeps.pure
  · exact Keeps.bind (keeps_previousRuntime _) fun previous =>
      Keeps.bind (keeps_stopServices htape _) fun _ =>
        Keeps.bind (keeps_startServices htape _) fun _ =>
          Keeps.bind (keeps_cronRegistry htape) fun _ =>
            Keeps.bind hroutes fun _ =>
              Keeps.bind (keeps_writeActive htape hactive _ _) fun _ => Keeps.pure

theorem keeps_restore (previous failed : RuntimeHandle)
    (hroutes : Keeps I (b.activateRoutes previous.revisionId)) :
    Keeps I (b.restore previous failed) := by
  refine Keeps.bind (keeps_runtimeForHandle _ _) fun runtime => ?_
  refine Keeps.bind (keeps_fenced htape hfences ?_) fun _ => ?_
  · exact Keeps.bind (keeps_stopCandidate htape) fun _ =>
      Keeps.bind (keeps_startServices htape _) fun _ =>
        Keeps.bind hroutes fun _ =>
          Keeps.bind (keeps_cronRegistry htape) fun _ =>
            keeps_writeActive htape hactive _ _
  · exact Keeps.bind (Host.keeps_command htape false) fun _ => Keeps.ite Keeps.pure Keeps.raise

end Active

theorem keeps_deactivate [Platform]
    (hactive : ∀ h, I h → I (h.setScope b.scope fun s => { s with active := .missing }))
    (hfences : ∀ h t, I h → I { h with fences := t }) (hcaddy : Keeps I b.deactivateCaddy)
    (failed : RuntimeHandle) : Keeps I (b.deactivate failed) := by
  refine Keeps.bind (keeps_fenced htape hfences ?_) fun _ => Keeps.pure
  refine Keeps.bind keeps_readActive fun active => Keeps.ite ?_ Keeps.raise
  exact Keeps.bind (keeps_stopCandidate htape) fun _ =>
    Keeps.bind hcaddy fun _ =>
      Keeps.bind (keeps_cronRegistry htape) fun _ =>
        Host.keeps_effect htape hactive fun _ _ hI => hI

/-! The displacement records of the backend's own scope. -/

variable (hdisplaced : ∀ h id f, I h → I (h.setDisplaced b.scope id f))

include hdisplaced

theorem keeps_mkdirDisplaced : Keeps I b.mkdirDisplaced := by
  refine Keeps.bind Keeps.get fun h => ?_
  split
  · exact Host.keeps_effect htape (fun h => hdisplaced h _ _) fun _ _ hI => hI
  · exact Keeps.ret
  · exact Keeps.raise
  · exact Keeps.raise

omit htape in
theorem keeps_leaveTemporary (n : Nat) (h : Host) (hI : I h) : I (b.leaveTemporary n h) := by
  unfold leaveTemporary
  exact hdisplaced h _ _ hI

theorem keeps_atomicDisplaced (file : DisplacedFile) (value : FileBytes) :
    Keeps I (b.atomicDisplaced file value) := by
  refine Keeps.bind (keeps_mkdirDisplaced htape hdisplaced) fun _ => Keeps.bind Keeps.get fun h => ?_
  split
  · exact Keeps.raise
  · exact Keeps.raise
  · exact Host.keeps_effect htape (fun h => hdisplaced h _ _) (keeps_leaveTemporary hdisplaced)

theorem keeps_unlinkDisplaced (file : DisplacedFile) : Keeps I (b.unlinkDisplaced file) := by
  refine Keeps.bind Keeps.get fun h => ?_
  split
  · exact Keeps.ret
  · exact Keeps.raise
  · exact Host.keeps_effect htape (fun h => hdisplaced h _ _) fun _ _ hI => hI

theorem keeps_atomicState (legacyDigest : Digest) (previousDigest : Option Digest) :
    Keeps I (b.atomicState legacyDigest previousDigest) := by
  refine Keeps.bind (keeps_mkdirDisplaced htape hdisplaced) fun _ => Keeps.bind Keeps.get fun h => ?_
  exact Keeps.ite Keeps.raise
    (Host.keeps_effect htape (fun h => hdisplaced h _ _) (keeps_leaveTemporary hdisplaced))

theorem keeps_unlinkState : Keeps I b.unlinkState :=
  Host.keeps_effect htape (fun h => hdisplaced h _ _) fun _ _ hI => hI

theorem keeps_rmdirDisplaced : Keeps I b.rmdirDisplaced := by
  refine Keeps.bind Keeps.get fun h => Keeps.ite (Keeps.ite Keeps.raise ?_) Keeps.ret
  exact Host.keeps_effect htape (fun h => hdisplaced h _ _) fun _ _ hI => hI

theorem keeps_cleanupLegacyCaddyDisplacement (displaced : Option LegacyCaddyDisplacement) :
    Keeps I (b.cleanupLegacyCaddyDisplacement displaced) := by
  cases displaced with
  | none => exact Keeps.ret
  | some displaced =>
      exact Keeps.bind (keeps_unlinkState htape hdisplaced) fun _ =>
        Keeps.bind (keeps_unlinkDisplaced htape hdisplaced _) fun _ =>
          Keeps.bind (keeps_unlinkDisplaced htape hdisplaced _) fun _ =>
            keeps_rmdirDisplaced htape hdisplaced

theorem keeps_prepareLegacyCaddyDisplacement [Platform]
    (herase : ∀ h, I h → I (h.eraseSite b.legacyCaddyInclude)) :
    Keeps I b.prepareLegacyCaddyDisplacement := by
  have hunlink : Keeps I (Host.unlinkSite b.legacyCaddyInclude) :=
    Host.keeps_unlinkSite htape herase
  have hresume : ∀ d, Keeps I (b.resumeDisplacement d) := by
    intro d
    refine Keeps.bind Keeps.get fun h => Keeps.bind Keeps.ofExcept fun live => ?_
    cases live with
    | none => exact Keeps.ret
    | some live => exact Keeps.ite (Keeps.bind hunlink fun _ => Keeps.pure) Keeps.raise
  have hdisplace : ∀ legacy target, Keeps I (b.displaceLegacy legacy target) := by
    intro legacy target
    refine Keeps.bind (keeps_atomicDisplaced htape hdisplaced _ _) fun _ => ?_
    have hrest : Keeps I (b.atomicState (contentDigest legacy) (target.map contentDigest) >>= fun _ =>
        Host.unlinkSite b.legacyCaddyInclude >>= fun _ =>
          pure (some (⟨legacy, target⟩ : LegacyCaddyDisplacement))) :=
      Keeps.bind (keeps_atomicState htape hdisplaced _ _) fun _ =>
        Keeps.bind hunlink fun _ => Keeps.pure
    cases target with
    | none => exact Keeps.bind (keeps_unlinkDisplaced htape hdisplaced _) fun _ => hrest
    | some target => exact Keeps.bind (keeps_atomicDisplaced htape hdisplaced _ _) fun _ => hrest
  refine Keeps.bind Keeps.get fun h => Keeps.ite Keeps.ret ?_
  refine Keeps.bind Keeps.ofExcept fun loaded => ?_
  cases loaded with
  | some displaced => exact hresume displaced
  | none =>
      refine Keeps.bind Keeps.ofExcept fun legacy => ?_
      cases legacy with
      | none => exact Keeps.ret
      | some legacy => exact Keeps.bind Keeps.ofExcept fun target => hdisplace legacy target

end Moments

section Outside

variable (hI : Outside b.scope I)

include hI

theorem keeps_restoreInclude (value : Option FileBytes) :
    Keeps I (Host.restorePrivateFile b.caddyInclude value) :=
  Host.keeps_restorePrivateFile hI.tape hI.sitesRoot hI.putInclude hI.eraseInclude value

theorem keeps_restoreLegacy (value : Option FileBytes) :
    Keeps I (Host.restorePrivateFile b.legacyCaddyInclude value) :=
  Host.keeps_restorePrivateFile hI.tape hI.sitesRoot hI.putLegacy hI.eraseLegacy value

theorem keeps_restoreCaddyPredecessor (previous : Option FileBytes)
    (displaced : Option LegacyCaddyDisplacement) :
    Keeps I (b.restoreCaddyPredecessor previous displaced) := by
  cases displaced with
  | none => exact keeps_restoreInclude hI previous
  | some displaced =>
      exact Keeps.bind (keeps_restoreInclude hI _) fun _ =>
        keeps_restoreLegacy hI (some displaced.legacy)

theorem keeps_switchCaddy (previous : Option FileBytes)
    (displaced : Option LegacyCaddyDisplacement) (previousEnv : Option FileBytes) :
    Keeps I (b.switchCaddy previous displaced previousEnv) := by
  have hprune := Host.keeps_pruneRouteAuthEnv hI.tape hI.env
  have henv := Host.keeps_restorePrivateEnv hI.tape hI.env previousEnv
  have hback := keeps_restoreCaddyPredecessor hI previous displaced
  have hclean := keeps_cleanupLegacyCaddyDisplacement hI.tape hI.displaced displaced
  refine Keeps.bind Keeps.get fun h => Keeps.ite ?_ (Keeps.ite ?_ hprune)
  · refine Keeps.cleanup (Keeps.bind hprune fun _ => keeps_validateAndReload hI.tape) ?_
    exact Keeps.bind hback fun _ => Keeps.bind henv fun _ => Keeps.bind hprune fun _ =>
      Keeps.bind (keeps_reload hI.tape) fun _ => hclean
  · exact Keeps.bind hback fun _ => Keeps.bind henv fun _ => Keeps.bind hprune fun _ =>
      Keeps.bind hclean fun _ => Keeps.raise

variable [Platform]

theorem keeps_installCaddy (candidate : FileBytes) : Keeps I (b.installCaddy candidate) := by
  refine Keeps.bind (Host.keeps_mkdirSites hI.tape hI.sitesRoot) fun _ => ?_
  refine Keeps.bind (keeps_prepareLegacyCaddyDisplacement hI.tape hI.displaced hI.eraseLegacy) fun displaced => ?_
  have hprevious : Keeps I (b.previousInclude displaced) := by
    cases displaced with
    | none => exact Keeps.bind Keeps.get fun _ => Keeps.ofExcept
    | some displaced => exact Keeps.ret
  refine Keeps.bind hprevious fun previous => Keeps.bind Keeps.get fun h => ?_
  exact Keeps.bind (Host.keeps_atomicSite hI.tape hI.sitesRoot hI.putInclude candidate) fun _ =>
    keeps_switchCaddy hI previous displaced _

theorem keeps_activateRoutes (id : EntityId .rev) : Keeps I (b.activateRoutes id) := by
  refine Keeps.bind Keeps.get fun h => Keeps.ite Keeps.ret ?_
  split
  · exact keeps_installCaddy hI _
  · exact Keeps.raise

theorem keeps_deactivateCaddy : Keeps I b.deactivateCaddy := by
  have hprune := Host.keeps_pruneRouteAuthEnv hI.tape hI.env
  have hunlink : Keeps I (Host.unlinkSite b.caddyInclude) :=
    Host.keeps_unlinkSite hI.tape hI.eraseInclude
  refine Keeps.bind Keeps.get fun h => Keeps.bind Keeps.ofExcept fun previous =>
    Keeps.bind Keeps.ofExcept fun displaced => Keeps.bind Keeps.ofExcept fun legacyPrevious =>
      Keeps.bind hunlink fun _ => ?_
  have hrest : Keeps I (Program.cleanup
      (Host.pruneRouteAuthEnv >>= fun _ => Program.when (h.sharedCompose = true) validateAndReload)
      (Host.restorePrivateFile b.caddyInclude previous >>= fun _ =>
        Host.restorePrivateFile b.legacyCaddyInclude legacyPrevious >>= fun _ =>
          Host.restorePrivateEnv (FileNode.readBytes h.env) >>= fun _ =>
            Program.when (h.sharedCompose = true) reload) >>= fun _ =>
      b.cleanupLegacyCaddyDisplacement displaced) := by
    refine Keeps.bind (Keeps.cleanup
      (Keeps.bind hprune fun _ => Keeps.when (keeps_validateAndReload hI.tape)) ?_) fun _ =>
        keeps_cleanupLegacyCaddyDisplacement hI.tape hI.displaced displaced
    exact Keeps.bind (keeps_restoreInclude hI _) fun _ =>
      Keeps.bind (keeps_restoreLegacy hI _) fun _ =>
        Keeps.bind (Host.keeps_restorePrivateEnv hI.tape hI.env _) fun _ =>
          Keeps.when (keeps_reload hI.tape)
  cases displaced with
  | none => exact Keeps.bind Keeps.ret fun _ => hrest
  | some displaced =>
      exact Keeps.bind (keeps_restoreCaddyPredecessor hI none (some displaced)) fun _ => hrest

end Outside

end ComposeBackend

theorem legacyCaddyIncludeName_ne (app app' environment : Slug) (h : app = app') :
    legacyCaddyIncludeName app ≠ caddyIncludeName app' environment := by
  subst h
  intro heq
  have hlen := congrArg String.length heq
  simp only [legacyCaddyIncludeName, caddyIncludeName, String.length_append] at hlen
  have hdash : "-".length = 1 := rfl
  omega

/-! ### Undisturbed effects -/

namespace Host

variable {h : Host}

theorem moment_of_nil (ht : h.tape = []) : moment h = (h, .returned .proceeds) := by
  rw [moment, ht]

theorem effect_of_nil (ht : h.tape = []) (f : Host → Host) (partly : Nat → Host → Host) :
    effect f partly h = (f h, .returned ()) :=
  bind_of_returned (moment_of_nil ht)

theorem unlinkSite_of_nil (ht : h.tape = []) {name : String} {content : FileBytes}
    (hsite : h.site? name = some (.regular content)) :
    unlinkSite name h = (h.eraseSite name, .returned ()) := by
  rw [unlinkSite, get_bind_apply, hsite]
  exact effect_of_nil ht _ _

theorem atomicSite_of_nil (ht : h.tape = []) (hroot : h.sitesRoot = .directory) {name : String}
    (hsite : h.site? name = none) (value : FileBytes) :
    atomicSite name value h = (h.putSite name (.regular value), .returned ()) := by
  have hmkdir : mkdirSites h = (h, .returned ()) := by
    rw [mkdirSites, get_bind_apply, hroot]
    rfl
  rw [atomicSite, bind_of_returned hmkdir, get_bind_apply, hsite, hroot]
  simp only [reduceCtorEq, FileNode.isSymlink, Bool.false_eq_true, or_self, if_false]
  exact effect_of_nil ht _ _

end Host

theorem safeCaddyBytes_regular {content : FileBytes} (h : content.length ≤ Host.MAX_SITE_BYTES) :
    safeCaddyBytes (some (.regular content)) = .ok (some content) := by
  simp [safeCaddyBytes, FileNode.present, Nat.not_lt.mpr h]

namespace ComposeBackend

variable [Platform]

/-! ### Records -/

/-- A record of a legacy site and of the include that stood there before. -/
structure Records (d : Displacement) (legacy : FileBytes) (previous : Option FileBytes) :
    Prop where
  root : d.root = .directory
  state : d.state = .recorded (contentDigest legacy) (previous.map contentDigest)
  legacy : d.legacy = some (.regular legacy)
  previousTarget : d.previousTarget = FileNode.ofBytes previous

/-- A record is read back. -/
theorem load_of_records {d : Displacement} {legacy : FileBytes} {previous : Option FileBytes}
    (h : Records d legacy previous) (hlegacy : legacy.length ≤ Host.MAX_SITE_BYTES)
    (hprevious : ∀ content, previous = some content → content.length ≤ Host.MAX_SITE_BYTES) :
    loadLegacyCaddyDisplacement d = .ok (some ⟨legacy, previous⟩) := by
  have hread : requiredCaddyBytes d.legacy = .ok legacy := by
    rw [requiredCaddyBytes, h.legacy, safeCaddyBytes_regular hlegacy]
    rfl
  cases previous with
  | none =>
      have htarget : safeCaddyBytes d.previousTarget = .ok none := by
        rw [h.previousTarget]
        rfl
      simp only [loadLegacyCaddyDisplacement, h.state, h.root, if_true, hread, htarget,
        Option.map_none]
      exact if_pos ⟨rfl, rfl⟩
  | some content =>
      have htarget : requiredCaddyBytes d.previousTarget = .ok content := by
        have hnode : d.previousTarget = some (.regular content) := h.previousTarget
        rw [requiredCaddyBytes, hnode, safeCaddyBytes_regular (hprevious content rfl)]
        rfl
      simp only [loadLegacyCaddyDisplacement, h.state, h.root, if_true, hread, htarget,
        Option.map_some, reduceCtorEq, if_false]
      exact if_pos ⟨rfl, rfl⟩

end ComposeBackend

end Ophelia
