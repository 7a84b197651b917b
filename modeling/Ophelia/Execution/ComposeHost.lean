import Ophelia.Lib.Program
import Ophelia.Domain.Codec
import Ophelia.Execution.RuntimeFence
import Ophelia.Execution.CaddyEnv

/-!
# Ophelia.Execution.ComposeHost

The part of a host that the Compose backend changes outside its containers
(`execution/compose_backend.py`): the Caddy site files in `caddy/sites.d`, the shared Caddy
environment file, and for each scope the evidence of the active revision, the materialized
revisions and the records of displaced legacy sites.

A procedure runs against a tape of moments. Every command and every durable effect takes
the next moment of the tape: a command goes through, fails, or is cut off by a crash, an effect
goes through or is cut off. I/O errors of effects are not modelled. A replacement of a file by a
rename is one effect: a crash leaves the old content, and at worst a temporary file beside it.
The environment file is truncated and written in place (`_write_private_env`), so a crash there
leaves any part of the new content.
-/

namespace Ophelia

open PyText

abbrev FileBytes := List UInt8

/-! ### Nodes -/

/-- What stands under a path. A symbolic link may dangle, or lead to something other than a
regular file. -/
inductive FileNode where
  | regular (content : FileBytes)
  | directory
  | symlink (target : Option (Option FileBytes))
deriving DecidableEq

/-- A directory that the backend creates on demand. -/
inductive DirectoryNode where
  | missing
  | directory
  | symlink
  | other
deriving DecidableEq

namespace FileNode

/-- `path.exists()`. -/
def present : Option FileNode → Bool
  | none => false
  | some (.symlink target) => target.isSome
  | some _ => true

/-- `path.is_symlink()`. -/
def isSymlink : Option FileNode → Bool
  | some (.symlink _) => true
  | _ => false

/-- `path.read_bytes() if path.is_file() else None`. -/
def readBytes : Option FileNode → Option FileBytes
  | some (.regular content) => some content
  | some (.symlink (some (some content))) => some content
  | _ => none

/-- The node of a regular file. -/
def ofBytes (content : Option FileBytes) : Option FileNode :=
  content.map .regular

end FileNode

/-- The exceptions of the backend. -/
inductive ComposeFailure where
  | composeBackendError (message : String)
  | osError
  | unicodeDecodeError
  | processFailure
  | runtimeFence (failure : RuntimeFenceFailure)
deriving DecidableEq

/-! ### The host -/

/-- A file of `caddy/sites.d`. -/
structure SiteFile where
  name : String
  node : FileNode
deriving DecidableEq

/-- `state.json` of a displacement record, as far as it reads. -/
inductive StateFile where
  | missing
  | symlink
  | invalid
  | recorded (legacyDigest : Digest) (previousTargetDigest : Option Digest)
deriving DecidableEq

/-- `traffic/displaced-legacy-caddy/<revision>`. `leftover` says that a crash has left a
temporary file in the directory. -/
structure Displacement where
  root : DirectoryNode
  state : StateFile
  legacy : Option FileNode
  previousTarget : Option FileNode
  leftover : Bool
deriving DecidableEq

/-- `traffic/active.json`, as far as it reads. A link to a regular file counts as a file for
`is_file` and as missing evidence for `_read_active`. -/
inductive ActiveFile where
  | missing
  | linked
  | malformed
  | evidence (revisionId : EntityId .rev) (revisionDigest : Digest)
deriving DecidableEq

/-- What `_runtime_for_handle` reads from a retained revision. -/
structure RetainedRuntime where
  revisionDigest : Digest
  longRunning : List String
  background : List String
deriving DecidableEq

/-- `revisions/<revision>`: the routes file, and the runtime when its documents read. -/
structure MaterializedRevision where
  routes : Option FileNode
  runtime : Option RetainedRuntime
deriving DecidableEq

/-- `apps/<app>/environments/<environment>`. -/
structure ScopeFiles where
  active : ActiveFile
  revisions : EntityId .rev → Option MaterializedRevision
  displaced : EntityId .rev → Displacement

/-- What happens at a command or an effect. -/
inductive Moment where
  | proceeds
  /-- A command exits with a failure; a preparation raises. -/
  | fails
  /-- The runner itself raises. -/
  | breaks
  /-- The process dies before the effect. -/
  | crashes
  /-- The process dies in the middle of the effect, `written` bytes into it. -/
  | torn (written : Nat)
deriving DecidableEq

structure Host where
  sitesRoot : DirectoryNode
  sites : Table SiteFile.name
  env : Option FileNode
  /-- `platform/shared/compose.yml` is a file. -/
  sharedCompose : Bool
  scopes : RuntimeScope → ScopeFiles
  fences : Table FenceRecord.scope
  tape : List Moment

/-- A procedure of the backend. -/
abbrev Proc := Program Host ComposeFailure

namespace Host

/-- The site file under a name. -/
def site? (h : Host) (name : String) : Option FileNode :=
  (h.sites.get? name).map SiteFile.node

def putSite (h : Host) (name : String) (node : FileNode) : Host :=
  { h with sites := h.sites.put ⟨name, node⟩ }

def eraseSite (h : Host) (name : String) : Host :=
  { h with sites :=
      ⟨h.sites.rows.filter fun f => f.name ≠ name,
        h.sites.unique.sublist (List.filter_sublist.map _)⟩ }

/-- Change the files of one scope. -/
def setScope (h : Host) (scope : RuntimeScope) (f : ScopeFiles → ScopeFiles) : Host :=
  { h with scopes := fun s => if s = scope then f (h.scopes s) else h.scopes s }

/-- Change the displacement record of one revision. -/
def setDisplaced (h : Host) (scope : RuntimeScope) (id : EntityId .rev)
    (f : Displacement → Displacement) : Host :=
  h.setScope scope fun s =>
    { s with displaced := fun i => if i = id then f (s.displaced i) else s.displaced i }

/-- Change one materialized revision. -/
def setRevision (h : Host) (scope : RuntimeScope) (id : EntityId .rev)
    (revision : Option MaterializedRevision) : Host :=
  h.setScope scope fun s =>
    { s with revisions := fun i => if i = id then revision else s.revisions i }

/-! ### Moments -/

/-- Take the next moment of the tape. A tape that has run out lets everything through. -/
def moment : Proc Moment := fun h =>
  match h.tape with
  | [] => (h, .returned .proceeds)
  | m :: ms => ({ h with tape := ms }, .returned m)

/-- A durable effect; `partly` is what a crash in the middle leaves behind. -/
def effect (f : Host → Host) (partly : Nat → Host → Host) : Proc Unit :=
  moment >>= fun m =>
    match m with
    | .crashes => Program.crash
    | .torn written => Program.modify (partly written) >>= fun _ => Program.crash
    | _ => Program.modify f

/-- `runner.run(…, check=check)`: whether the command succeeded. -/
def command (check : Bool) : Proc Bool :=
  moment >>= fun m =>
    match m with
    | .proceeds => Program.ret true
    | .fails => if check then Program.raise .processFailure else Program.ret false
    | .breaks => Program.raise .osError
    | .crashes | .torn _ => Program.crash

/-- Work on files outside this model: it succeeds, raises or is cut off. -/
def preparation : Proc Unit :=
  moment >>= fun m =>
    match m with
    | .proceeds => Program.ret ()
    | .fails | .breaks => Program.raise .osError
    | .crashes | .torn _ => Program.crash

/-! ### Site files -/

/-- `sites.d` is made when it is missing. -/
def mkdirSites : Proc Unit :=
  Program.get >>= fun h =>
    match h.sitesRoot with
    | .missing => effect (fun h => { h with sitesRoot := .directory }) fun _ h => h
    | .other => Program.raise .osError
    | _ => Program.ret ()

def symbolicLinkError : ComposeFailure :=
  .composeBackendError "Refusing to write through a symbolic link."

/-- `_atomic_bytes` on a site file. -/
def atomicSite (name : String) (value : FileBytes) : Proc Unit := do
  mkdirSites
  let h ← Program.get
  if h.sitesRoot = .symlink ∨ FileNode.isSymlink (h.site? name) = true then
    Program.raise symbolicLinkError
  else if h.site? name = some .directory then Program.raise .osError
  else effect (fun h => h.putSite name (.regular value)) fun _ h => h

/-- `unlink(missing_ok=True)` on a site file. -/
def unlinkSite (name : String) : Proc Unit :=
  Program.get >>= fun h =>
    match h.site? name with
    | none => Program.ret ()
    | some .directory => Program.raise .osError
    | some _ => effect (fun h => h.eraseSite name) fun _ h => h

/-- `_restore_private_file`, also `_restore_caddy_bytes`. -/
def restorePrivateFile (name : String) : Option FileBytes → Proc Unit
  | none => unlinkSite name
  | some value => atomicSite name value

/-! ### The environment file -/

/-- `_write_private_env`. -/
def writePrivateEnv (value : FileBytes) : Proc Unit :=
  Program.get >>= fun h =>
    match h.env with
    | none => effect (fun h => { h with env := some (.regular value) }) fun _ h => h
    | some (.regular _) =>
        effect (fun h => { h with env := some (.regular value) })
          fun written h => { h with env := some (.regular (value.take written)) }
    | some .directory => Program.raise .osError
    | some (.symlink _) => Program.raise symbolicLinkError

/-- `_restore_private_env`. -/
def restorePrivateEnv : Option FileBytes → Proc Unit
  | some value => writePrivateEnv value
  | none =>
      Program.get >>= fun h =>
        match h.env with
        | none => Program.ret ()
        | some .directory => Program.raise .osError
        | some _ => effect (fun h => { h with env := none }) fun _ h => h

def envPathError : ComposeFailure :=
  .composeBackendError "Caddy environment path is unsafe."

def envAssignmentError : ComposeFailure :=
  .composeBackendError "Caddy environment contains an invalid assignment."

/-- Lines as the environment file holds them. -/
def encodeLines (lines : List (List Char)) : FileBytes :=
  encode (String.ofList (joinLines lines))

/-- The lines of an environment file; `none` when it does not decode. -/
def envLines? (content : FileBytes) : Option (List (List Char)) :=
  (decode? content).map splitlines

/-- `_update_private_env`. -/
def updatePrivateEnv (updates : EnvUpdates) : Proc Unit :=
  Program.get >>= fun h =>
    match h.env with
    | some .directory => Program.raise envPathError
    | some (.symlink _) => Program.raise envPathError
    | none =>
        match updatedEnv? updates [] with
        | none => Program.raise envAssignmentError
        | some output => writePrivateEnv (encodeLines (writtenLines output))
    | some (.regular content) =>
        match envLines? content with
        | none => Program.raise .unicodeDecodeError
        | some existing =>
            match updatedEnv? updates existing with
            | none => Program.raise envAssignmentError
            | some output => writePrivateEnv (encodeLines (writtenLines output))

def MAX_SITE_BYTES : Nat := 1024 * 1024

/-- The names the site files refer to. -/
def activeKeys : List SiteFile → Except ComposeFailure (List (List Char))
  | [] => .ok []
  | site :: sites =>
      match site.node with
      | .regular content =>
          if content.length > MAX_SITE_BYTES then
            .error (.composeBackendError "Caddy site include is unavailable or unsafe.")
          else
            match decode? content with
            | none => .error .unicodeDecodeError
            | some text => do
                let keys ← activeKeys sites
                return routeAuthKeys text ++ keys
      | _ => .error (.composeBackendError "Caddy site include is unavailable or unsafe.")

/-- `sorted(sites_root.glob("*.caddy"))`. -/
def siteFiles (h : Host) : List SiteFile :=
  (h.sites.rows.filter fun f => endsWith ".caddy".toList f.name.toList).insertionSort
    fun a b => a.name ≤ b.name

/-- `_prune_route_auth_env`. -/
def pruneRouteAuthEnv : Proc Unit := do
  let h ← Program.get
  if FileNode.isSymlink h.env = true ∨ h.env = some .directory then Program.raise envPathError
  else if h.sitesRoot ≠ .directory then
    Program.raise (.composeBackendError "Caddy sites directory is unsafe.")
  else do
    let active ← Program.ofExcept (activeKeys h.siteFiles)
    match h.env with
    | some (.regular content) =>
        match envLines? content with
        | none => Program.raise .unicodeDecodeError
        | some original =>
            match prunedEnv? active [] original with
            | none => Program.raise envAssignmentError
            | some output =>
                Program.when (output ≠ original) (writePrivateEnv (encodeLines output))
    | _ => Program.ret ()

end Host

/-- `_safe_caddy_bytes(path, required=False)`. -/
def safeCaddyBytes (node : Option FileNode) : Except ComposeFailure (Option FileBytes) :=
  if FileNode.present node = false then .ok none
  else
    match node with
    | some (.regular content) =>
        if content.length > Host.MAX_SITE_BYTES then
          .error (.composeBackendError "Managed Caddy site is unavailable or unsafe.")
        else .ok (some content)
    | _ => .error (.composeBackendError "Managed Caddy site is unavailable or unsafe.")

/-- `_safe_caddy_bytes(path, required=True)`. -/
def requiredCaddyBytes (node : Option FileNode) : Except ComposeFailure FileBytes := do
  match ← safeCaddyBytes node with
  | some content => return content
  | none => throw (.composeBackendError "Managed Caddy site is missing.")

end Ophelia
