import Ophelia.Domain.Revisions
import Ophelia.Execution.ComposeHost

/-!
# Ophelia.Execution.ComposeBackend

The Compose backend of one revision (`execution/compose_backend.py`): what `start`,
`activate`, `restore`, `deactivate` and `remove` do to the files of `ComposeHost`.

The site of a scope stands under a current name, `app-environment.caddy`. The first
activation of a scope finds the site of the older layout under `app.caddy`, copies it into a
record of the candidate and takes it down; whoever undoes the activation puts it back from
the record. Containers, trust pools, secrets and static files are outside the model: working
on them is a command or a preparation that may fail.
-/

namespace Ophelia

open PyText

variable [Platform]

/-! ### The candidate -/

/-- The part of a route that concerns credentials: the reference of the authorization that
Caddy adds, for a route with client authentication. -/
structure RouteClientAuth where
  forward : Option String
deriving DecidableEq

structure BackendRoute where
  name : String
  clientAuth : Option RouteClientAuth
deriving DecidableEq

structure BackendWorkload where
  name : String
  kind : WorkloadKind
  /-- `update.overlap == "allow"`. -/
  overlap : Bool
deriving DecidableEq

/-- `ComposeRevisionBackend(…)`: the candidate, its manifest as far as it is read, and the
fence of the operation. -/
structure ComposeBackend where
  fence : FenceRecord
  revisionId : EntityId .rev
  revisionDigest : Digest
  routes : List BackendRoute
  workloads : List BackendWorkload
  migrations : List String
  /-- `update.strategy == "recreate"`. -/
  recreate : Bool
  /-- `caddy/routes.caddy` of the rendered bundle. -/
  bundleRoutes : FileBytes
  requireEdgeRuntime : Bool
  secretResolver : Option (String → Option String)

structure RuntimeHandle where
  backend : String
  revisionId : EntityId .rev
  revisionDigest : Digest
deriving DecidableEq

structure TrafficActivationResult where
  previousRevisionDigest : Option Digest
  activeRevisionDigest : Option Digest
deriving DecidableEq

structure LegacyCaddyDisplacement where
  legacy : FileBytes
  previousTarget : Option FileBytes
deriving DecidableEq

/-- `app + "-" + environment + ".caddy"`. -/
def caddyIncludeName (app environment : Slug) : String :=
  app.val ++ "-" ++ environment.val ++ ".caddy"

/-- `app + ".caddy"`. -/
def legacyCaddyIncludeName (app : Slug) : String :=
  app.val ++ ".caddy"

/-- `canonical_digest({"content": content.hex()})`. -/
def contentDigest (content : FileBytes) : Digest :=
  digestText (canonicalJson (.obj [("content", .str (String.ofList
    (content.flatMap fun b => [Json.hexDigit (b.toNat / 16), Json.hexDigit (b.toNat % 16)])))]))

/-- `route_auth_env_key`. -/
def routeAuthEnvKey (app environment : Slug) (route : String) : List Char :=
  ROUTE_AUTH_PREFIX ++ upper
    (((digestText (app.val ++ "\x00" ++ environment.val ++ "\x00" ++ route)).val.toList.drop
      "sha256:".length).take 24)

namespace ComposeBackend

def backendName : String := "compose-manifest-v2"

variable (b : ComposeBackend)

def scope : RuntimeScope := b.fence.scope

def caddyInclude : String :=
  caddyIncludeName b.scope.app b.scope.environment

def legacyCaddyInclude : String :=
  legacyCaddyIncludeName b.scope.app

/-- The files of the backend's scope. -/
def files (h : Host) : ScopeFiles :=
  h.scopes b.scope

/-- The displacement record of the candidate. -/
def displaced (h : Host) : Displacement :=
  (b.files h).displaced b.revisionId

def allLongRunning : List String :=
  (b.workloads.filter fun w => w.kind ∈ [.web, .internal, .worker]).map BackendWorkload.name

def candidateStartServices : List String :=
  if b.recreate then b.allLongRunning
  else (b.workloads.filter fun w => w.kind = .web ∨ (w.kind = .worker ∧ w.overlap = true)).map
    BackendWorkload.name

def activationServices : List String :=
  b.allLongRunning.filter fun name => name ∉ b.candidateStartServices

/-- The runtime that the candidate's own documents describe. -/
def ownRuntime : RetainedRuntime where
  revisionDigest := b.revisionDigest
  longRunning := b.allLongRunning
  background :=
    (b.workloads.filter fun w => w.kind ∈ [.internal, .worker]).map BackendWorkload.name

def candidateHandle : RuntimeHandle :=
  ⟨backendName, b.revisionId, b.revisionDigest⟩

/-- `_validate_handle`. -/
def validateHandle (handle : RuntimeHandle) : Proc Unit :=
  if handle = b.candidateHandle then Program.ret ()
  else Program.raise <|
    (.composeBackendError "Runtime handle does not match this candidate revision.")

/-! ### The fence -/

/-- `with self._fence():`. The lock is free again whichever way the body ends. -/
def fenced {α : Type} (body : Proc α) : Proc α :=
  Program.get >>= fun h =>
    match RuntimeFences.authorize (h.fences.get? b.scope) b.fence with
    | .error e => Program.raise (.runtimeFence e)
    | .ok () =>
        let enter : Host → Host := fun h => { h with fences := h.fences.put b.fence }
        let failure : ComposeFailure := .runtimeFence
          (.runtimeFenceRecordError "runtime fence record could not be persisted durably")
        Host.moment >>= fun m =>
          match m with
          | .proceeds => Program.modify enter >>= fun _ => body
          | .fails => Program.raise failure
          | .breaks => Program.modify enter >>= fun _ => Program.raise failure
          | .crashes => Program.crash
          | .torn _ => Program.modify enter >>= fun _ => Program.crash

/-! ### Evidence and services -/

/-- `_read_active(required=False)`. -/
def readActive : Proc (Option (EntityId .rev × Digest)) :=
  Program.get >>= fun h =>
    match (b.files h).active with
    | .missing | .linked => Program.ret none
    | .malformed => Program.raise (.composeBackendError "Active revision evidence is malformed.")
    | .evidence id digest => Program.ret (some (id, digest))

/-- Write `active.json`. -/
def writeActive (id : EntityId .rev) (digest : Digest) : Proc Unit :=
  Program.get >>= fun h =>
    match (b.files h).active with
    | .linked => Program.raise Host.symbolicLinkError
    | _ => Host.effect (fun h => h.setScope b.scope fun s =>
        { s with active := .evidence id digest }) fun _ h => h

/-- `active_path.unlink(missing_ok=True)`. -/
def unlinkActive : Proc Unit :=
  Host.effect (fun h => h.setScope b.scope fun s => { s with active := .missing }) fun _ h => h

/-- `_runtime_for_handle`. -/
def runtimeForHandle (id : EntityId .rev) (digest : Digest) : Proc RetainedRuntime :=
  Program.get >>= fun h =>
    match ((b.files h).revisions id).bind MaterializedRevision.runtime with
    | none => Program.raise <|
        (.composeBackendError "Retained revision runtime is unavailable.")
    | some runtime =>
        if runtime.revisionDigest = digest then Program.ret runtime
        else Program.raise <|
          (.composeBackendError "Retained revision runtime does not match its handle.")

/-- `_previous_runtime`. -/
def previousRuntime : Option (EntityId .rev × Digest) → Proc (Option RetainedRuntime)
  | none => Program.ret none
  | some (id, digest) => b.runtimeForHandle id digest >>= fun runtime => Program.ret (some runtime)

/-- `_stop_services`, on a root that is there. -/
def stopServices (services : List String) : Proc Unit :=
  Program.when (services ≠ []) (Host.command false >>= fun _ => Program.ret ())

/-- `_start_services`. -/
def startServices (services : List String) : Proc Unit :=
  Program.when (services ≠ []) (Host.command true >>= fun _ => Program.ret ())

/-- `_stop_services` on the candidate's own root. -/
def stopCandidate : Proc Unit :=
  Program.get >>= fun h =>
    Program.when ((b.files h).revisions b.revisionId ≠ none) (stopServices b.allLongRunning)

/-- `_activate_cron_registry`, `_activate_previous_cron` and `_clear_cron_registry`: the
registry itself is outside the model. -/
def cronRegistry : Proc Unit :=
  Host.effect id fun _ h => h

/-! ### Displaced legacy sites -/

/-- `_load_legacy_caddy_displacement`, on the record as it stands. -/
def loadLegacyCaddyDisplacement (d : Displacement) :
    Except ComposeFailure (Option LegacyCaddyDisplacement) :=
  match d.state with
  | .missing => .ok none
  | .symlink => .error (.composeBackendError "Legacy Caddy displacement state is unsafe.")
  | .invalid =>
      if d.root = .directory then
        .error (.composeBackendError "Legacy Caddy displacement state is invalid.")
      else .error (.composeBackendError "Legacy Caddy displacement state is unsafe.")
  | .recorded legacyDigest previousDigest =>
      if d.root = .directory then do
        let legacy ← requiredCaddyBytes d.legacy
        let previousTarget ←
          if previousDigest = none then safeCaddyBytes d.previousTarget
          else some <$> requiredCaddyBytes d.previousTarget
        if legacyDigest = contentDigest legacy ∧
            previousDigest = previousTarget.map contentDigest then
          return some ⟨legacy, previousTarget⟩
        else throw (.composeBackendError "Legacy Caddy displacement state was altered.")
      else .error (.composeBackendError "Legacy Caddy displacement state is unsafe.")

/-- A file in the directory of the record. -/
inductive DisplacedFile where
  | legacy
  | previousTarget
deriving DecidableEq

def DisplacedFile.node (d : Displacement) : DisplacedFile → Option FileNode
  | .legacy => d.legacy
  | .previousTarget => d.previousTarget

def DisplacedFile.set (d : Displacement) (node : Option FileNode) : DisplacedFile → Displacement
  | .legacy => { d with legacy := node }
  | .previousTarget => { d with previousTarget := node }

/-- The directory of the record is made when it is missing. -/
def mkdirDisplaced : Proc Unit :=
  Program.get >>= fun h =>
    match (b.displaced h).root with
    | .missing =>
        Host.effect (fun h => h.setDisplaced b.scope b.revisionId fun d =>
          { d with root := .directory }) fun _ h => h
    | .directory => Program.ret ()
    | .symlink => Program.raise Host.symbolicLinkError
    | .other => Program.raise .osError

/-- A crash in the middle of a rename leaves a temporary file in the directory. -/
def leaveTemporary : Nat → Host → Host := fun _ h =>
  h.setDisplaced b.scope b.revisionId fun d => { d with leftover := true }

/-- `_atomic_bytes` on a file of the record. -/
def atomicDisplaced (file : DisplacedFile) (value : FileBytes) : Proc Unit := do
  b.mkdirDisplaced
  let h ← Program.get
  match file.node (b.displaced h) with
  | some (.symlink _) => Program.raise Host.symbolicLinkError
  | some .directory => Program.raise .osError
  | _ => Host.effect (fun h => h.setDisplaced b.scope b.revisionId fun d =>
      file.set d (some (.regular value))) b.leaveTemporary

/-- `unlink(missing_ok=True)` on a file of the record. -/
def unlinkDisplaced (file : DisplacedFile) : Proc Unit :=
  Program.get >>= fun h =>
    match file.node (b.displaced h) with
    | none => Program.ret ()
    | some .directory => Program.raise .osError
    | some _ => Host.effect (fun h => h.setDisplaced b.scope b.revisionId fun d =>
        file.set d none) fun _ h => h

/-- `_atomic_json` of `state.json`. -/
def atomicState (legacyDigest : Digest) (previousDigest : Option Digest) : Proc Unit := do
  b.mkdirDisplaced
  let h ← Program.get
  if (b.displaced h).state = .symlink then Program.raise Host.symbolicLinkError
  else Host.effect (fun h => h.setDisplaced b.scope b.revisionId fun d =>
    { d with state := .recorded legacyDigest previousDigest }) b.leaveTemporary

/-- `state.json` is unlinked. -/
def unlinkState : Proc Unit :=
  Host.effect (fun h => h.setDisplaced b.scope b.revisionId fun d =>
    { d with state := .missing }) fun _ h => h

/-- The directory of the record is removed; a temporary file in it keeps it. -/
def rmdirDisplaced : Proc Unit :=
  Program.get >>= fun h =>
    if (b.displaced h).root = .directory then
      if (b.displaced h).leftover = true then Program.raise .osError
      else Host.effect (fun h => h.setDisplaced b.scope b.revisionId fun d =>
        { d with root := .missing }) fun _ h => h
    else Program.ret ()

/-- The new record of a legacy site, and the legacy site taken down. -/
def displaceLegacy (legacy : FileBytes) (previousTarget : Option FileBytes) :
    Proc (Option LegacyCaddyDisplacement) := do
  b.atomicDisplaced .legacy legacy
  match previousTarget with
  | some target => b.atomicDisplaced .previousTarget target
  | none => b.unlinkDisplaced .previousTarget
  b.atomicState (contentDigest legacy) (previousTarget.map contentDigest)
  Host.unlinkSite b.legacyCaddyInclude
  return some ⟨legacy, previousTarget⟩

/-- A record that is there already: the live legacy site has to be the recorded one. -/
def resumeDisplacement (displaced : LegacyCaddyDisplacement) :
    Proc (Option LegacyCaddyDisplacement) := do
  let h ← Program.get
  let live ← Program.ofExcept (safeCaddyBytes (h.site? b.legacyCaddyInclude))
  match live with
  | none => Program.ret (some displaced)
  | some live =>
      if live = displaced.legacy then do
        Host.unlinkSite b.legacyCaddyInclude
        return some displaced
      else Program.raise <|
        (.composeBackendError "Legacy Caddy site changed during V2 activation.")

/-- `_prepare_legacy_caddy_displacement`. -/
def prepareLegacyCaddyDisplacement : Proc (Option LegacyCaddyDisplacement) := do
  let h ← Program.get
  if b.legacyCaddyInclude = b.caddyInclude ∨
      (b.files h).active ≠ .missing then Program.ret none
  else do
    let loaded ← Program.ofExcept (loadLegacyCaddyDisplacement (b.displaced h))
    match loaded with
    | some displaced => b.resumeDisplacement displaced
    | none => do
        let legacy ← Program.ofExcept (safeCaddyBytes (h.site? b.legacyCaddyInclude))
        match legacy with
        | none => Program.ret none
        | some legacy => do
            let previousTarget ← Program.ofExcept (safeCaddyBytes (h.site? b.caddyInclude))
            b.displaceLegacy legacy previousTarget

/-- `_restore_caddy_predecessor`. -/
def restoreCaddyPredecessor (previous : Option FileBytes) :
    Option LegacyCaddyDisplacement → Proc Unit
  | none => Host.restorePrivateFile b.caddyInclude previous
  | some displaced => do
      Host.restorePrivateFile b.caddyInclude displaced.previousTarget
      Host.atomicSite b.legacyCaddyInclude displaced.legacy

/-- `_cleanup_legacy_caddy_displacement`. -/
def cleanupLegacyCaddyDisplacement : Option LegacyCaddyDisplacement → Proc Unit
  | none => Program.ret ()
  | some _ => do
      b.unlinkState
      b.unlinkDisplaced .legacy
      b.unlinkDisplaced .previousTarget
      b.rmdirDisplaced

/-! ### Caddy -/

/-- `self._caddy("validate", …)` and `self._caddy("reload", …)`. -/
def validateAndReload : Proc Unit := do
  let _ ← Host.command true
  let _ ← Host.command true

/-- `self._caddy("reload", …, check=False)`. -/
def reload : Proc Unit :=
  Host.command false >>= fun _ => Program.ret ()

/-- The include that an activation goes back to. -/
def previousInclude : Option LegacyCaddyDisplacement → Proc (Option FileBytes)
  | some displaced => Program.ret displaced.previousTarget
  | none => Program.get >>= fun h =>
      Program.ofExcept (safeCaddyBytes (h.site? b.caddyInclude))

/-- The part of `_activate_caddy` behind the new include: its validation, and the way back. -/
def switchCaddy (previous : Option FileBytes) (displaced : Option LegacyCaddyDisplacement)
    (previousEnv : Option FileBytes) : Proc Unit := do
  let h ← Program.get
  if h.sharedCompose = true then
    Program.cleanup
      (do
        Host.pruneRouteAuthEnv
        validateAndReload)
      (do
        b.restoreCaddyPredecessor previous displaced
        Host.restorePrivateEnv previousEnv
        Host.pruneRouteAuthEnv
        reload
        b.cleanupLegacyCaddyDisplacement displaced)
  else if b.requireEdgeRuntime = true ∧ b.routes ≠ [] then do
    b.restoreCaddyPredecessor previous displaced
    Host.restorePrivateEnv previousEnv
    Host.pruneRouteAuthEnv
    b.cleanupLegacyCaddyDisplacement displaced
    Program.raise (.composeBackendError "Shared Caddy runtime is unavailable.")
  else Host.pruneRouteAuthEnv

/-- `_activate_caddy` on routes that are there. -/
def installCaddy (candidate : FileBytes) : Proc Unit := do
  Host.mkdirSites
  let displaced ← b.prepareLegacyCaddyDisplacement
  let previous ← b.previousInclude displaced
  let h ← Program.get
  Host.atomicSite b.caddyInclude candidate
  b.switchCaddy previous displaced (FileNode.readBytes h.env)

/-- `_activate_caddy`. -/
def activateCaddy (candidate : Option FileNode) : Proc Unit :=
  if b.routes = [] ∧ FileNode.present candidate = false then Program.ret ()
  else
    match candidate with
    | some (.regular content) => b.installCaddy content
    | _ => Program.raise <|
        (.composeBackendError "Candidate Caddy routes are missing or unsafe.")

/-- `_deactivate_caddy`. -/
def deactivateCaddy : Proc Unit := do
  let h ← Program.get
  let previous ← Program.ofExcept (safeCaddyBytes (h.site? b.caddyInclude))
  let displaced ← Program.ofExcept (loadLegacyCaddyDisplacement (b.displaced h))
  let legacyPrevious ← Program.ofExcept (safeCaddyBytes (h.site? b.legacyCaddyInclude))
  Host.unlinkSite b.caddyInclude
  match displaced with
  | none => Program.ret ()
  | some displaced => b.restoreCaddyPredecessor none (some displaced)
  Program.cleanup
    (do
      Host.pruneRouteAuthEnv
      Program.when (h.sharedCompose = true) validateAndReload)
    (do
      Host.restorePrivateFile b.caddyInclude previous
      Host.restorePrivateFile b.legacyCaddyInclude legacyPrevious
      Host.restorePrivateEnv (FileNode.readBytes h.env)
      Program.when (h.sharedCompose = true) reload)
  b.cleanupLegacyCaddyDisplacement displaced

/-! ### Materializing the candidate -/

/-- `_materialize_revision`. -/
def materializeRevision : Proc Unit := do
  Host.preparation
  let h ← Program.get
  match (b.files h).revisions b.revisionId with
  | some revision =>
      if revision.routes = some (.regular b.bundleRoutes) then Host.preparation
      else Program.raise (.composeBackendError "Candidate bundle differs at caddy/routes.caddy.")
  | none => Host.effect (fun h => h.setRevision b.scope b.revisionId
      (some ⟨some (.regular b.bundleRoutes), some b.ownRuntime⟩)) fun _ h => h

/-- The loop of `_materialize_route_auth` over the protected routes. The trust pool of a
route is a file outside the model. -/
def routeAuthValues (resolve : String → Option String) :
    List BackendRoute → EnvUpdates → Proc EnvUpdates
  | [], values => Program.ret values
  | route :: routes, values =>
      match route.clientAuth with
      | none => routeAuthValues resolve routes values
      | some clientAuth => Host.preparation >>= fun _ =>
          match clientAuth.forward with
          | none => routeAuthValues resolve routes values
          | some ref =>
              match resolve ref with
              | none => Program.raise .osError
              | some authorization =>
                  if isAuthorization authorization then
                    routeAuthValues resolve routes
                      (values.put (routeAuthEnvKey b.scope.app b.scope.environment route.name,
                        authorization))
                  else Program.raise (.composeBackendError
                    "Route authorization resolver returned an invalid value.")

/-- `_materialize_route_auth`. -/
def materializeRouteAuth : Proc Unit :=
  if b.routes.all fun route => route.clientAuth.isNone then Program.ret ()
  else
    match b.secretResolver with
    | none => Program.raise (.composeBackendError "No secret resolver is configured.")
    | some resolve => b.routeAuthValues resolve b.routes .empty >>= fun values =>
        Program.when (values.rows ≠ []) (Host.updatePrivateEnv values)

/-- `_run_migrations`. -/
def runMigrations : List String → Proc Unit
  | [] => Program.ret ()
  | _ :: migrations => Host.preparation >>= fun _ => runMigrations migrations

/-! ### The calls -/

/-- `start`. -/
def start : Proc RuntimeHandle := do
  Host.preparation
  b.fenced do
    b.materializeRevision
    Host.preparation
    b.materializeRouteAuth
    Host.preparation
    runMigrations b.migrations
    if b.recreate = true then do
      let active ← b.readActive
      let previous ← b.previousRuntime active
      stopServices (previous.elim [] RetainedRuntime.longRunning)
      startServices b.candidateStartServices
    else startServices b.candidateStartServices
  return b.candidateHandle

/-- The routes file of a materialized revision. -/
def routesFile (h : Host) (id : EntityId .rev) : Option FileNode :=
  ((b.files h).revisions id).bind MaterializedRevision.routes

/-- `_activate_caddy(root / "caddy" / "routes.caddy")`. -/
def activateRoutes (id : EntityId .rev) : Proc Unit :=
  Program.get >>= fun h => b.activateCaddy (b.routesFile h id)

/-- `activate`. -/
def activate (candidate : RuntimeHandle) (expected : Option Digest) :
    Proc TrafficActivationResult := do
  b.validateHandle candidate
  b.fenced do
    let active ← b.readActive
    let current := active.map Prod.snd
    if current = some candidate.revisionDigest then do
      cronRegistry
      b.activateRoutes b.revisionId
      return ⟨current, current⟩
    else if current ≠ expected then
      Program.raise (.composeBackendError "Active revision changed after planning.")
    else do
      let previous ← b.previousRuntime active
      stopServices (previous.elim [] fun runtime =>
        if b.recreate then runtime.longRunning else runtime.background)
      startServices b.activationServices
      cronRegistry
      b.activateRoutes b.revisionId
      b.writeActive candidate.revisionId candidate.revisionDigest
      return ⟨current, some candidate.revisionDigest⟩

/-- `restore`. -/
def restore (previous failed : RuntimeHandle) : Proc TrafficActivationResult := do
  let runtime ← b.runtimeForHandle previous.revisionId previous.revisionDigest
  b.fenced do
    b.stopCandidate
    startServices runtime.longRunning
    b.activateRoutes previous.revisionId
    cronRegistry
    b.writeActive previous.revisionId previous.revisionDigest
  let restored ← Host.command false
  if restored = true then
    return ⟨some failed.revisionDigest, some previous.revisionDigest⟩
  else Program.raise <|
    (.composeBackendError "Restored predecessor did not return to running state.")

/-- `deactivate`. -/
def deactivate (failed : RuntimeHandle) : Proc TrafficActivationResult := do
  b.fenced do
    let active ← b.readActive
    if active = none ∨ active.map Prod.snd = some failed.revisionDigest then do
      b.stopCandidate
      b.deactivateCaddy
      cronRegistry
      b.unlinkActive
    else Program.raise (.composeBackendError "Refusing to deactivate another revision.")
  return ⟨some failed.revisionDigest, none⟩

/-- `remove` of the candidate. -/
def remove (handle : RuntimeHandle) : Proc Bool := do
  let active ← b.readActive
  if active.map Prod.snd = some handle.revisionDigest then
    Program.raise (.composeBackendError "An active revision cannot be removed.")
  else do
    Host.preparation
    b.fenced do
      let _ ← Host.command false
      Host.effect (fun h => h.setRevision b.scope handle.revisionId none) fun _ h => h
      Host.preparation
      return true

end ComposeBackend

end Ophelia
