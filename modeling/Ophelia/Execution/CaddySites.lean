import Ophelia.Domain.Reference
import Ophelia.Execution.ComposeFrames

/-!
# Ophelia.Execution.CaddySites

Which site files the backend of a scope touches. Both site names of a scope are put together
from the names of the application and the environment, so two scopes may have a name in
common. They leave each other's sites alone exactly when they have none in common.
-/

namespace Ophelia

open Program

/-! ### Scopes with a name in common -/

/-- An application and an environment of a host. -/
structure AppScope where
  app : Slug
  environment : Slug
deriving DecidableEq

/-- The current and the legacy site of a scope. -/
def AppScope.siteNames (a : AppScope) : List String :=
  [caddyIncludeName a.app a.environment, legacyCaddyIncludeName a.app]

/-- The calls that switch traffic. -/
inductive TrafficCall where
  | activate (candidate : RuntimeHandle) (expected : Option Digest)
  | restore (previous failed : RuntimeHandle)
  | deactivate (failed : RuntimeHandle)

/-- The host after a call, however it ends. -/
def TrafficCall.after [Platform] (b : ComposeBackend) (h : Host) : TrafficCall → Host
  | .activate candidate expected => (b.activate candidate expected h).1
  | .restore previous failed => (b.restore previous failed h).1
  | .deactivate failed => (b.deactivate failed h).1

def ComposeBackend.appScope (b : ComposeBackend) : AppScope :=
  ⟨b.scope.app, b.scope.environment⟩

/-- No call for one scope touches a site of the other. -/
def SitesIsolated [Platform] (a c : AppScope) : Prop :=
  ∀ b : ComposeBackend, b.appScope = a → ∀ (call : TrafficCall) (h : Host),
    ∀ name ∈ c.siteNames, (call.after b h).site? name = h.site? name

theorem outside_site {scope : RuntimeScope} {name : String}
    (hname : name ∉ AppScope.siteNames ⟨scope.app, scope.environment⟩) (node : Option FileNode) :
    Outside scope fun h => h.site? name = node := by
  rw [AppScope.siteNames, List.mem_cons, List.mem_singleton, not_or] at hname
  exact {
    tape := fun _ h => h
    fences := fun _ _ h => h
    sitesRoot := fun _ _ h => h
    env := fun _ _ h => h
    displaced := fun _ _ _ h => h
    putInclude := fun h node hI => by rw [Host.site?_putSite, if_neg hname.1, hI]
    eraseInclude := fun h hI => by rw [Host.site?_eraseSite, if_neg hname.1, hI]
    putLegacy := fun h node hI => by rw [Host.site?_putSite, if_neg hname.2, hI]
    eraseLegacy := fun h hI => by rw [Host.site?_eraseSite, if_neg hname.2, hI] }

/-- A call touches no site but the two of its scope. -/
theorem site?_after [Platform] {b : ComposeBackend} {name : String}
    (hname : name ∉ b.appScope.siteNames) (call : TrafficCall) (h : Host) :
    (call.after b h).site? name = h.site? name := by
  have hI := outside_site hname (h.site? name)
  have hroutes := ComposeBackend.keeps_activateRoutes hI
  cases call with
  | activate candidate expected =>
      exact (ComposeBackend.keeps_activate hI.tape (fun _ _ _ hh => hh) hI.fences (hroutes _) candidate
        expected).run rfl
  | restore previous failed =>
      exact (ComposeBackend.keeps_restore hI.tape (fun _ _ _ hh => hh) hI.fences previous failed
        (hroutes _)).run rfl
  | deactivate failed =>
      exact (ComposeBackend.keeps_deactivate hI.tape (fun _ hh => hh) hI.fences
        (ComposeBackend.keeps_deactivateCaddy hI) failed).run rfl

namespace ComposeBackend

variable [Platform] {b : ComposeBackend} {h : Host}

/-- A live legacy site that is on record already is taken down. -/
theorem prepare_of_recorded (ht : h.tape = []) (hactive : (b.files h).active = .missing)
    {d : LegacyCaddyDisplacement}
    (hload : loadLegacyCaddyDisplacement (b.displaced h) = .ok (some d))
    (hlive : h.site? b.legacyCaddyInclude = some (.regular d.legacy))
    (hsize : d.legacy.length ≤ Host.MAX_SITE_BYTES) :
    b.prepareLegacyCaddyDisplacement h =
      (h.eraseSite b.legacyCaddyInclude, .returned (some d)) := by
  have hne : b.legacyCaddyInclude ≠ b.caddyInclude := legacyCaddyIncludeName_ne _ _ _ rfl
  rw [prepareLegacyCaddyDisplacement, get_bind_apply, hactive,
    if_neg (by simp [hne]), hload, ofExcept_ok, ret_bind]
  change b.resumeDisplacement d h = _
  rw [resumeDisplacement, get_bind_apply, hlive, safeCaddyBytes_regular hsize, ofExcept_ok, ret_bind]
  change (if d.legacy = d.legacy then _ else _ : Proc _) h = _
  rw [if_pos rfl, bind_of_returned (Host.unlinkSite_of_nil ht hlive)]
  rfl

/-- A candidate without services, for a host without an edge. -/
def bare (scope : RuntimeScope) : ComposeBackend where
  fence := ⟨scope, ⟨"operation", by decide⟩, ⟨"owner", by decide⟩, ⟨1, Nat.one_pos⟩⟩
  revisionId := ⟨"rev_candidate", by decide⟩
  revisionDigest := digestText "candidate"
  routes := []
  workloads := []
  migrations := []
  recreate := false
  bundleRoutes := []
  requireEdgeRuntime := false
  secretResolver := none

/-- A host on which a scope has a legacy site that is on record, and a materialized candidate. -/
def legacyHost (scope : RuntimeScope) : Host where
  sitesRoot := .directory
  sites := ⟨[⟨legacyCaddyIncludeName scope.app, .regular []⟩], by simp⟩
  env := none
  sharedCompose := false
  scopes := fun _ =>
    { active := .missing
      revisions := fun _ => some ⟨some (.regular []), none⟩
      displaced := fun _ =>
        ⟨.directory, .recorded (contentDigest []) none, some (.regular []), none, false⟩ }
  fences := .empty
  tape := []

/-- Both sites of the scope have been exchanged. -/
def Exchanged (scope : RuntimeScope) (h : Host) : Prop :=
  h.site? (caddyIncludeName scope.app scope.environment) = some (.regular []) ∧
    h.site? (legacyCaddyIncludeName scope.app) = none

theorem site?_legacyHost (scope : RuntimeScope) (name : String) :
    (legacyHost scope).site? name =
      if name = legacyCaddyIncludeName scope.app then some (.regular []) else none := by
  unfold Host.site? legacyHost Table.get?
  by_cases h : name = legacyCaddyIncludeName scope.app
  · simp [h]
  · simp [h, Ne.symm h]

theorem exchanged_installCaddy {scope : RuntimeScope} {h : Host} (ht : h.tape = [])
    (hsites : ∀ name, h.site? name = (legacyHost scope).site? name)
    (hroot : h.sitesRoot = .directory) (hshared : h.sharedCompose = false)
    (hfiles : h.scopes = (legacyHost scope).scopes) :
    Triple (fun t => t = h) ((bare scope).installCaddy []) (fun _ => Exchanged scope)
      (fun _ => Exchanged scope) (Exchanged scope) := by
  have hne : legacyCaddyIncludeName scope.app ≠ caddyIncludeName scope.app scope.environment :=
    legacyCaddyIncludeName_ne _ _ _ rfl
  have hlegacy : h.site? (legacyCaddyIncludeName scope.app) = some (.regular []) := by
    rw [hsites, site?_legacyHost, if_pos rfl]
  have hinclude : (h.eraseSite (legacyCaddyIncludeName scope.app)).site?
      (caddyIncludeName scope.app scope.environment) = none := by
    rw [Host.site?_eraseSite, if_neg hne.symm, hsites, site?_legacyHost, if_neg hne.symm]
  have hprepare : (bare scope).prepareLegacyCaddyDisplacement h =
      (h.eraseSite (legacyCaddyIncludeName scope.app), .returned (some ⟨[], none⟩)) := by
    refine prepare_of_recorded (d := ⟨[], none⟩) ht ?_ ?_ hlegacy (Nat.zero_le _)
    · rw [files, hfiles]
      rfl
    · refine load_of_records ?_ (Nat.zero_le _) fun _ h => absurd h (by simp)
      rw [displaced, files, hfiles]
      exact ⟨rfl, rfl, rfl, rfl⟩
  have hmkdir : Host.mkdirSites h = (h, .returned ()) := by
    rw [Host.mkdirSites, get_bind_apply, hroot]
    rfl
  have hwrite := Host.atomicSite_of_nil (h := h.eraseSite (legacyCaddyIncludeName scope.app)) ht
    hroot hinclude []
  refine Triple.bind (Triple.of_returned hmkdir) fun _ => Triple.assuming fun _ => ?_
  refine Triple.bind (Triple.of_returned hprepare) fun displaced => Triple.assuming fun hd => ?_
  subst hd
  refine Triple.bind (Triple.of_returned rfl) fun previous => Triple.assuming fun _ => ?_
  refine Triple.bind (Triple.of_returned rfl) fun t => Triple.assuming fun _ => ?_
  refine Triple.bind (Triple.of_returned hwrite) fun _ => Triple.assuming fun _ => ?_
  -- without an edge the switch only prunes the environment file
  refine Triple.bind (Triple.of_returned rfl) fun t => Triple.assuming fun ht => ?_
  have hplain : t.sharedCompose = false := by
    rw [ht]
    exact hshared
  rw [if_neg (by rw [hplain]; decide), if_neg (by simp [bare])]
  have hkeeps : Keeps (Exchanged scope) Host.pruneRouteAuthEnv :=
    Host.keeps_pruneRouteAuthEnv (fun _ h => h) fun _ _ h => h
  refine Triple.pre hkeeps fun s hs => ?_
  subst hs
  refine ⟨?_, ?_⟩
  · rw [Host.site?_putSite, if_pos rfl]
  · rw [Host.site?_putSite, if_neg hne, Host.site?_eraseSite, if_pos rfl]

/-- An undisturbed first activation exchanges the legacy site for the include. -/
theorem exchanged_activate (scope : RuntimeScope) :
    Exchanged scope ((bare scope).activate (bare scope).candidateHandle none (legacyHost scope)).1 := by
  have hfence : RuntimeFences.authorize ((legacyHost scope).fences.get? (bare scope).scope)
      (bare scope).fence = .ok () := rfl
  refine Triple.always (P := fun t => t = legacyHost scope) ?_ rfl
  have hhandle : (bare scope).validateHandle (bare scope).candidateHandle (legacyHost scope) =
      (legacyHost scope, .returned ()) := by
    rw [validateHandle, if_pos rfl]
    rfl
  refine Triple.bind (Triple.of_returned hhandle) fun _ => Triple.assuming fun _ => ?_
  refine Triple.bind (Triple.of_returned rfl) fun t => Triple.assuming fun ht => ?_
  subst ht
  rw [hfence]
  refine Triple.bind (Triple.of_returned rfl) fun m => Triple.assuming fun hm => ?_
  subst hm
  refine Triple.bind (Triple.of_returned rfl) fun _ => Triple.assuming fun _ => ?_
  refine Triple.bind (Triple.of_returned rfl) fun active => Triple.assuming fun hactive => ?_
  subst hactive
  rw [if_neg (by simp), if_neg (by simp)]
  refine Triple.bind (Triple.of_returned rfl) fun previous => Triple.assuming fun hprevious => ?_
  subst hprevious
  refine Triple.bind (Triple.of_returned rfl) fun _ => Triple.assuming fun _ => ?_
  refine Triple.bind (Triple.of_returned rfl) fun _ => Triple.assuming fun _ => ?_
  refine Triple.bind (Triple.of_returned rfl) fun _ => Triple.assuming fun _ => ?_
  refine Triple.bind (R := fun _ => Exchanged scope) ?_ fun _ => ?_
  · refine Triple.bind (Triple.of_returned rfl) fun t => Triple.assuming fun ht => ?_
    subst ht
    exact exchanged_installCaddy rfl (fun _ => rfl) rfl rfl rfl
  · exact Keeps.bind (keeps_writeActive (fun _ h => h) (fun _ _ _ h => h) _ _) fun _ => Keeps.pure

end ComposeBackend

/-- A name in common is touched by some activation. -/
theorem notMem_siteNames_of_isolated [Platform] {a c : AppScope} (h : SitesIsolated a c)
    {name : String} (hname : name ∈ a.siteNames) : name ∉ c.siteNames := by
  intro hmem
  -- the run that exchanges both sites of the first scope
  let scope : RuntimeScope := ⟨⟨"host", by decide⟩, a.app, a.environment⟩
  obtain ⟨hinclude, hlegacy⟩ := ComposeBackend.exchanged_activate scope
  have hne : legacyCaddyIncludeName a.app ≠ caddyIncludeName a.app a.environment :=
    legacyCaddyIncludeName_ne _ _ _ rfl
  have heq : ((ComposeBackend.bare scope).activate (ComposeBackend.bare scope).candidateHandle none
      (ComposeBackend.legacyHost scope)).1.site? name =
        (ComposeBackend.legacyHost scope).site? name :=
    h (ComposeBackend.bare scope) rfl (.activate _ none) _ name hmem
  simp only [AppScope.siteNames, List.mem_cons, List.not_mem_nil, or_false] at hname
  rcases hname with rfl | rfl
  · rw [hinclude, ComposeBackend.site?_legacyHost, if_neg hne.symm] at heq
    exact absurd heq (by simp)
  · rw [hlegacy, ComposeBackend.site?_legacyHost, if_pos rfl] at heq
    exact absurd heq (by simp)

/-- Two scopes leave each other's sites alone exactly when no name of the one is a name of
the other. -/
theorem sitesIsolated_iff [Platform] (a c : AppScope) :
    SitesIsolated a c ↔
      a.app ≠ c.app ∧
      caddyIncludeName a.app a.environment ≠ caddyIncludeName c.app c.environment ∧
      caddyIncludeName a.app a.environment ≠ legacyCaddyIncludeName c.app ∧
      legacyCaddyIncludeName a.app ≠ caddyIncludeName c.app c.environment := by
  constructor
  · intro h
    have hnotInclude := notMem_siteNames_of_isolated h List.mem_cons_self
    have hnotLegacy := notMem_siteNames_of_isolated h (List.mem_cons_of_mem _ List.mem_cons_self)
    simp only [AppScope.siteNames, List.mem_cons, List.not_mem_nil, or_false, not_or]
      at hnotInclude hnotLegacy
    refine ⟨?_, hnotInclude.1, hnotInclude.2, hnotLegacy.1⟩
    intro happ
    exact hnotLegacy.2 (by rw [happ])
  · rintro ⟨happ, hcurrent, hmixed, hmixed'⟩ b rfl call h name hname
    have hlegacy : legacyCaddyIncludeName b.scope.app ≠ legacyCaddyIncludeName c.app := by
      intro heq
      exact happ (Refined.ext ((String.append_left_inj _).mp heq))
    refine site?_after ?_ call h
    intro hmem
    simp only [AppScope.siteNames, List.mem_cons, List.not_mem_nil, or_false] at hname hmem
    rcases hname with rfl | rfl
    · rcases hmem with hmem | hmem
      · exact hcurrent hmem.symm
      · exact hmixed' hmem.symm
    · rcases hmem with hmem | hmem
      · exact hmixed hmem.symm
      · exact hlegacy hmem.symm

end Ophelia

namespace Ophelia.Reference

attribute [local instance] platform

/-- A dash may also belong to the application: the legacy site of `web-production` has the name of
the current site of `web` in production. -/
theorem not_sitesIsolated :
    AppScope.mk ⟨"web-production", by decide⟩ ⟨"staging", by decide⟩ ≠
        ⟨⟨"web", by decide⟩, ⟨"production", by decide⟩⟩ ∧
      ¬ SitesIsolated ⟨⟨"web-production", by decide⟩, ⟨"staging", by decide⟩⟩
        ⟨⟨"web", by decide⟩, ⟨"production", by decide⟩⟩ := by
  refine ⟨by decide, fun h => ?_⟩
  have hmem : "web-production.caddy" ∈
      AppScope.siteNames ⟨⟨"web-production", by decide⟩, ⟨"staging", by decide⟩⟩ := by decide
  exact notMem_siteNames_of_isolated h hmem (by decide)

end Ophelia.Reference
