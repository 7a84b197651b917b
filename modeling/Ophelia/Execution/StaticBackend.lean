import Ophelia.Execution.ComposeBackend

/-!
# Ophelia.Execution.StaticBackend

The backend of confirmed static revisions (`execution/static_backend.py`): how it switches
traffic to the candidate and back. Live are a Caddy site file and the symbolic link `current`
of the application; before the first switch the backend records the predecessor of both under
the operation, and every way back goes through that record.

A procedure runs against a tape of moments, one for each durable effect and each place where it
reads, calls out or lets a test inject a fault. A moment may raise or end the process, before or
after the effect. Replacing a file or the link is one effect, a rename.
-/

namespace Ophelia

/-! ### Files -/

/-- `Path.parts` of a relative link target. -/
abbrev PointerTarget := List String

/-- What stands at `current`. -/
inductive PointerNode where
  | missing
  | symlink (target : PointerTarget)
  | file
  | directory
deriving DecidableEq

/-- `_Predecessor`. -/
structure Predecessor where
  caddyPresent : Bool
  caddyDigest : Option Digest
  staticTarget : Option PointerTarget
  revisionDigest : Option Digest
deriving DecidableEq

/-- `predecessor.json`, as far as it reads. -/
inductive PredecessorFile where
  | missing
  | malformed
  | recorded (p : Predecessor)
deriving DecidableEq

/-- What an activation changes: the two live files, and its own record of what was there. -/
structure StaticFiles where
  caddyLive : Option FileNode
  current : PointerNode
  /-- `previous.caddy`. -/
  snapshot : Option FileNode
  predecessor : PredecessorFile
deriving DecidableEq

/-- What happens at an effect. -/
inductive StaticMoment where
  | proceeds
  | failsBefore
  | failsAfter
  | crashesBefore
  | crashesAfter
deriving DecidableEq

structure StaticHost where
  files : StaticFiles
  fences : Table FenceRecord.scope
  tape : List StaticMoment

inductive StaticFailure where
  | staticBackendError (message : String)
  | osError
  | runtimeFence (failure : RuntimeFenceFailure)
deriving DecidableEq

abbrev StaticProc := Program StaticHost StaticFailure

namespace StaticHost

/-- Take the next moment of the tape. -/
def moment : StaticProc StaticMoment := fun h =>
  match h.tape with
  | [] => (h, .returned .proceeds)
  | m :: ms => ({ h with tape := ms }, .returned m)

/-- A durable change of the host. -/
def change (f : StaticHost → StaticHost) (failure : StaticFailure) : StaticProc Unit :=
  moment >>= fun m =>
    match m with
    | .proceeds => Program.modify f
    | .failsBefore => Program.raise failure
    | .failsAfter => Program.modify f >>= fun _ => Program.raise failure
    | .crashesBefore => Program.crash
    | .crashesAfter => Program.modify f >>= fun _ => Program.crash

/-- A durable effect on the files. -/
def effect (f : StaticFiles → StaticFiles) : StaticProc Unit :=
  change (fun h => { h with files := f h.files }) .osError

/-- A place without an effect where something may happen: a read, a call, an injected fault. -/
def boundary : StaticProc Unit := effect id

def files? : StaticProc StaticFiles :=
  Program.get >>= fun h => Program.ret h.files

end StaticHost

/-! ### The backend -/

/-- `static-revisions/<release>.json`, as far as it reads; a digest that is missing or no digest
is `none`. -/
structure RevisionEvidence where
  revisionDigest : Option Digest
  bundleDigest : Option Digest
  staticDigest : Option Digest

/-- `StaticRuntimeBackend(…)`: the fence of the operation, the candidate, and the immutable
releases of the application that are on disk. -/
structure StaticBackend where
  fence : FenceRecord
  releaseId : String
  /-- `_digest_bytes`. -/
  digestBytes : FileBytes → Digest
  /-- No symbolic link above the live files, the records of revisions and bundles, the records of
  activations (`_reject_symlink_parent`). -/
  liveParents : Bool
  trackedParents : String → Bool
  recordParents : Bool
  /-- `tree_digest` of the candidate's bundle; `none` when it is a link or cannot be read. -/
  bundleDigest : Option Digest
  /-- `_tree_content_digest` of a static release. -/
  releases : String → Option Digest
  /-- The Caddy file in the bundle of a release. -/
  bundleCaddy : String → Option FileNode
  revisionRecords : String → Option RevisionEvidence
  /-- The evidence that a successful reload of Caddy gives. -/
  trafficCommitter : Option Digest

structure StaticHandle where
  backend : String
  handleId : String
  revisionDigest : Digest
deriving DecidableEq

structure StaticActivation where
  previousRevisionDigest : Option Digest
  activeRevisionDigest : Option Digest
  observedStateDigest : Digest
  evidenceDigests : List Digest

namespace StaticBackend

open Program StaticHost

def backendName : String := "production-static"

/-- A `StaticBackendError`. -/
def refuseWith {α : Type} (message : String) : Except StaticFailure α :=
  .error (.staticBackendError message)

/-- `_validate_static_target`. -/
def validateTarget (target : PointerTarget) : Except StaticFailure Unit :=
  match target with
  | ["releases", name] =>
      if name = "" ∨ name = "." ∨ name = ".." ∨ '/' ∈ name.toList ∨ '\\' ∈ name.toList then
        refuseWith "Static pointer target is outside immutable releases."
      else .ok ()
  | _ => refuseWith "Static pointer target is outside immutable releases."

/-- `Path(target).name`. -/
def targetName (target : PointerTarget) : String := target.getLastD ""

variable (b : StaticBackend)

def scope : RuntimeScope := b.fence.scope

/-- `Path("releases") / self.release_id`. -/
def candidateTarget : PointerTarget := ["releases", b.releaseId]

/-- `self.caddy_source.read_bytes()`. -/
def caddySource : Except StaticFailure FileBytes :=
  match b.bundleCaddy b.releaseId with
  | some (.regular content) => .ok content
  | _ => .error .osError

def digestAbsent (name : String) : Digest := b.digestBytes (PyText.encode name)

/-! ### Checks -/

/-- `_validate_handle`. -/
def validateHandle (handle : StaticHandle) : Except StaticFailure Unit :=
  if handle.backend = backendName ∧ handle.handleId = b.releaseId then .ok ()
  else refuseWith "Runtime handle does not belong to this static backend."

/-- `_read_revision_record`. -/
def readRevisionRecord : Except StaticFailure RevisionEvidence :=
  match b.revisionRecords b.releaseId with
  | some record => .ok record
  | none => refuseWith "Static revision evidence is unavailable."

/-- `_verify_materialized`. -/
def verifyMaterialized (record : RevisionEvidence) : Except StaticFailure Unit :=
  match b.bundleDigest, b.releases b.releaseId, b.bundleCaddy b.releaseId with
  | none, _, _ => refuseWith "Materialized release must not be a symlink."
  | some bundle, static?, source =>
      if some bundle ≠ record.bundleDigest then
        refuseWith "Materialized bundle bytes do not match the candidate."
      else if static? = none ∨ static? ≠ record.staticDigest then
        refuseWith "Materialized static bytes do not match the candidate."
      else
        match source with
        | some (.regular _) => .ok ()
        | _ => refuseWith "Materialized Caddy input is not a regular file."

/-! ### The predecessor -/

/-- `_revision_digest_for_target`. -/
def revisionDigestForTarget (caddyLive : Option FileNode) (target : Option PointerTarget) :
    Except StaticFailure (Option Digest) :=
  match target with
  | none => .ok none
  | some target => do
      validateTarget target
      let name := targetName target
      if b.trackedParents name = false then refuseWith "Managed path parent must not be a symlink."
      else
        match b.revisionRecords name, b.bundleCaddy name, b.releases name, caddyLive with
        | some record, some (.regular source), some static, some (.regular live) =>
            if record.staticDigest = some static ∧ b.digestBytes live = b.digestBytes source then
              return record.revisionDigest
            else return none
        | _, _, _, _ => return none

/-- The digest of a predecessor that no revision record knows. -/
def untrackedDigest [Platform] (caddyDigest : Option Digest) (target : Option PointerTarget)
    (static : Digest) : Digest :=
  digestText (canonicalJson (.obj [("kind", .str "untracked-static-predecessor"),
    ("caddy_digest", caddyDigest.elim .null fun d => .str d.val),
    ("static_target", target.elim .null fun t => .str ("/".intercalate t)),
    ("static_digest", .str static.val)]))

/-- `self.caddy_live.read_bytes()` when it exists, and is no link. -/
def liveCaddy : Option FileNode → Except StaticFailure (Option FileBytes)
  | some (.regular content) => .ok (some content)
  | some .directory => .error .osError
  | _ => .ok none

/-- What the pointer leads to. -/
def liveTarget : PointerNode → Except StaticFailure (Option PointerTarget)
  | .missing => .ok none
  | .symlink target => .ok (some target)
  | .file | .directory => refuseWith "Static current pointer must be a symlink."

/-- `_capture_predecessor`, on what it reads. -/
def captured [Platform] (caddyLive : Option FileNode) (current : PointerNode) :
    Except StaticFailure Predecessor :=
  if b.liveParents = false then refuseWith "Managed path parent must not be a symlink."
  else if FileNode.isSymlink caddyLive then refuseWith "Live Caddy site must not be a symlink."
  else do
    let target ← liveTarget current
    let content ← liveCaddy caddyLive
    let caddyDigest := content.map b.digestBytes
    let tracked ← b.revisionDigestForTarget caddyLive target
    match tracked, content, target with
    | some digest, _, _ => return ⟨content.isSome, caddyDigest, target, some digest⟩
    | none, none, none => return ⟨false, none, none, none⟩
    | none, _, none =>
        return ⟨content.isSome, caddyDigest, none,
          some (untrackedDigest caddyDigest none (b.digestAbsent "static-absent"))⟩
    | none, _, some target =>
        match b.releases (targetName target) with
        | none => .error .osError
        | some static =>
            return ⟨content.isSome, caddyDigest, some target,
              some (untrackedDigest caddyDigest (some target) static)⟩

/-- `_capture_predecessor`. -/
def capturePredecessor [Platform] : StaticProc Predecessor := do
  boundary
  let files ← files?
  ofExcept (b.captured files.caddyLive files.current)

/-- `_publish_immutable_file` on the snapshot. -/
def publishSnapshot (content : FileBytes) : StaticProc Unit := do
  let files ← files?
  match files.snapshot with
  | none => effect fun f => { f with snapshot := some (.regular content) }
  | some (.regular old) =>
      if old = content then boundary
      else raise (.staticBackendError "Immutable evidence collision.")
  | some .directory => raise .osError
  | some (.symlink _) =>
      raise (.staticBackendError "Immutable evidence destination must not be a symlink.")

/-- The first half of `_persist_predecessor`: the bytes of the live site. -/
def persistSnapshot (p : Predecessor) : StaticProc Unit :=
  if p.caddyPresent then do
    boundary
    let files ← files?
    match files.caddyLive with
    | some (.regular content) => publishSnapshot content
    | _ => raise .osError
  else ret ()

/-- The second half: `predecessor.json`. -/
def persistRecord (p : Predecessor) : StaticProc Unit := do
  let files ← files?
  match files.predecessor with
  | .missing => effect fun f => { f with predecessor := .recorded p }
  | .recorded old =>
      if old = p then boundary
      else raise (.staticBackendError "Activation predecessor evidence conflicts.")
  | .malformed => raise (.staticBackendError "Activation predecessor evidence conflicts.")

/-- `_persist_predecessor`. -/
def persistPredecessor (p : Predecessor) : StaticProc Unit :=
  if b.recordParents = false then
    raise (.staticBackendError "Activation evidence path must not be a symlink.")
  else do
    persistSnapshot p
    persistRecord p

/-- `_load_predecessor`. -/
def loadPredecessor : StaticProc Predecessor := do
  boundary
  let files ← files?
  match files.predecessor with
  | .recorded p => ret p
  | _ => raise (.staticBackendError "Activation predecessor evidence is unavailable.")

/-! ### The live files -/

/-- `_atomic_replace_file` on the live site. -/
def replaceCaddy (content : FileBytes) : StaticProc Unit :=
  if b.liveParents = false then
    raise (.staticBackendError "Managed path parent must not be a symlink.")
  else do
    let files ← files?
    match files.caddyLive with
    | some (.symlink _) => raise (.staticBackendError "Managed live file must not be a symlink.")
    | some .directory => raise .osError
    | _ => effect fun f => { f with caddyLive := some (.regular content) }

/-- `_atomic_remove` on the live site. -/
def removeCaddy : StaticProc Unit := do
  let files ← files?
  match files.caddyLive with
  | none => ret ()
  | some .directory => raise (.staticBackendError "Managed live path has an unsafe type.")
  | some _ => effect fun f => { f with caddyLive := none }

/-- `_atomic_replace_symlink` on the pointer. -/
def replacePointer (target : PointerTarget) : StaticProc Unit := do
  ofExcept (validateTarget target)
  if b.liveParents = false then
    raise (.staticBackendError "Managed path parent must not be a symlink.")
  else
    let files ← files?
    match files.current with
    | .missing | .symlink _ => effect fun f => { f with current := .symlink target }
    | .file | .directory => raise (.staticBackendError "Managed static pointer must be a symlink.")

/-- `_atomic_remove` on the pointer. -/
def removePointer : StaticProc Unit := do
  let files ← files?
  match files.current with
  | .missing => ret ()
  | .directory => raise (.staticBackendError "Managed live path has an unsafe type.")
  | _ => effect fun f => { f with current := .missing }

/-- The first half of `_restore_predecessor`: the Caddy site. -/
def restoreCaddy (p : Predecessor) : StaticProc Unit :=
  if p.caddyPresent then do
    boundary
    let files ← files?
    match files.snapshot with
    | some (.regular data) =>
        if some (b.digestBytes data) = p.caddyDigest then b.replaceCaddy data
        else raise (.staticBackendError "Caddy predecessor evidence does not match its digest.")
    | _ => raise .osError
  else removeCaddy

/-- The second half: the pointer. -/
def restorePointer (p : Predecessor) : StaticProc Unit :=
  match p.staticTarget with
  | none => removePointer
  | some target => b.replacePointer target

/-- `_restore_predecessor`. -/
def restorePredecessor (p : Predecessor) : StaticProc Unit := do
  b.restoreCaddy p
  boundary
  b.restorePointer p
  boundary

/-- `_assert_active`, on what it reads. -/
def activeError (files : StaticFiles) (revisionDigest : Digest) : Except StaticFailure Unit := do
  match files.caddyLive with
  | some (.regular live) =>
      let source ← b.caddySource
      if b.digestBytes live ≠ b.digestBytes source then
        refuseWith "Caddy activation bytes do not match."
      else
        match files.current with
        | .symlink target =>
            if target ≠ b.candidateTarget then
              refuseWith "Static activation pointer does not match."
            else if b.releases b.releaseId = none then .error .osError
            else do
              let record ← b.readRevisionRecord
              if record.revisionDigest ≠ some revisionDigest then
                refuseWith "Activated revision evidence does not match."
              else .ok ()
        | _ => refuseWith "Static activation pointer is missing."
  | _ => refuseWith "Caddy activation verification failed."

/-- `_assert_active`. -/
def assertActive (revisionDigest : Digest) : StaticProc Unit := do
  boundary
  let files ← files?
  ofExcept (b.activeError files revisionDigest)

/-- `_candidate_is_active`. -/
def candidateIsActive (revisionDigest : Digest) : StaticProc Bool :=
  handle (b.assertActive revisionDigest >>= fun _ => ret true) fun _ => ret false

/-- `_commit_traffic`. -/
def commitTraffic : StaticProc (List Digest) :=
  match b.trafficCommitter with
  | none => ret []
  | some evidence => boundary >>= fun _ => ret [evidence]

/-- The evidence of the live site; a link leads to what it points at. -/
def caddyEvidence (caddyLive : Option FileNode) : Except StaticFailure Digest :=
  match caddyLive with
  | some (.regular content) | some (.symlink (some (some content))) => .ok (b.digestBytes content)
  | some .directory | some (.symlink (some none)) => .error .osError
  | none | some (.symlink none) => .ok (b.digestAbsent "caddy-absent")

/-- The evidence of the pointer. -/
def staticEvidence (current : PointerNode) : Digest :=
  match current with
  | .symlink target => (b.releases (targetName target)).getD (b.digestAbsent "static-absent")
  | .directory | .file => b.digestAbsent "missing"
  | .missing => b.digestAbsent "static-absent"

/-- `_activation_result`. -/
def activationResult [Platform] (old active : Option Digest) (additional : List Digest) :
    StaticProc StaticActivation := do
  boundary
  let files ← files?
  let caddy ← ofExcept (b.caddyEvidence files.caddyLive)
  let static := b.staticEvidence files.current
  return {
    previousRevisionDigest := old
    activeRevisionDigest := active
    observedStateDigest := digestText (canonicalJson
      (.obj [("caddy", .str caddy.val), ("static", .str static.val)]))
    evidenceDigests := (caddy :: static :: additional).dedup.mergeSort fun a c =>
      decide (a.val ≤ c.val) }

/-! ### The fence -/

/-- `with self._fence():`. -/
def fenced {α : Type} (body : StaticProc α) : StaticProc α :=
  Program.get >>= fun h =>
    match RuntimeFences.authorize (h.fences.get? b.scope) b.fence with
    | .error e => raise (.runtimeFence e)
    | .ok () =>
        change (fun h => { h with fences := h.fences.put b.fence })
          (.runtimeFence (.runtimeFenceRecordError
            "runtime fence record could not be persisted durably")) >>= fun _ => body

/-! ### Calls -/

/-- The activation, once the predecessor is on record. -/
def switch (candidate : StaticHandle) : StaticProc (List Digest) := do
  boundary
  let source ← ofExcept b.caddySource
  b.replaceCaddy source
  boundary
  boundary
  b.replacePointer b.candidateTarget
  boundary
  let evidence ← b.commitTraffic
  boundary
  b.assertActive candidate.revisionDigest
  return evidence

variable [Platform]

/-- The first activation of an operation. -/
def activateFresh (candidate : StaticHandle) (expected : Option Digest) :
    StaticProc StaticActivation := do
  let p ← b.capturePredecessor
  if p.revisionDigest ≠ expected then
    raise (.staticBackendError "Active static revision changed before activation.")
  else do
    b.persistPredecessor p
    let evidence ← cleanup (b.switch candidate) (do
      b.restorePredecessor p
      let _ ← b.commitTraffic)
    b.activationResult p.revisionDigest (some candidate.revisionDigest) evidence

/-- An activation that finds a record of its operation. -/
def activateRecorded (candidate : StaticHandle) : StaticProc StaticActivation := do
  let p ← loadPredecessor
  if ← b.candidateIsActive candidate.revisionDigest then
    let evidence ← b.commitTraffic
    b.activationResult p.revisionDigest (some candidate.revisionDigest) evidence
  else do
    b.restorePredecessor p
    raise (.staticBackendError
      "Recovered a partial static activation and restored its predecessor.")

/-- `predecessor.json` exists. -/
def hasRecord (files : StaticFiles) : Bool := files.predecessor ≠ .missing

/-- `activate`. -/
def activate (candidate : StaticHandle) (expected : Option Digest) :
    StaticProc StaticActivation := do
  ofExcept (b.validateHandle candidate)
  boundary
  let record ← ofExcept b.readRevisionRecord
  ofExcept (b.verifyMaterialized record)
  b.fenced do
    let files ← files?
    if hasRecord files then b.activateRecorded candidate
    else b.activateFresh candidate expected

/-- `restore` without a record: the live state must be the expected one. -/
def restoreFresh (previous : Option StaticHandle) (failed : StaticHandle) :
    StaticProc StaticActivation := do
  let observed ← b.capturePredecessor
  if observed.revisionDigest ≠ previous.map StaticHandle.revisionDigest then
    raise (.staticBackendError "Live static state does not match the expected predecessor.")
  else do
    let evidence ← b.commitTraffic
    b.activationResult (some failed.revisionDigest) (previous.map StaticHandle.revisionDigest)
      evidence

/-- `restore` to the recorded predecessor. -/
def restoreRecorded (previous : Option StaticHandle) (failed : StaticHandle) :
    StaticProc StaticActivation := do
  let p ← loadPredecessor
  ofExcept (match previous with
    | none =>
        if p.revisionDigest ≠ none then refuseWith "Restore predecessor handle is required."
        else .ok ()
    | some previous =>
        if some previous.revisionDigest ≠ p.revisionDigest then
          refuseWith "Restore predecessor does not match captured state."
        else .ok ())
  b.restorePredecessor p
  let evidence ← b.commitTraffic
  b.activationResult (some failed.revisionDigest) p.revisionDigest evidence

/-- `restore`; `deactivate` restores to no predecessor. -/
def restore (previous : Option StaticHandle) (failed : StaticHandle) :
    StaticProc StaticActivation := do
  ofExcept (b.validateHandle failed)
  b.fenced do
    let files ← files?
    if hasRecord files then b.restoreRecorded previous failed
    else b.restoreFresh previous failed

end StaticBackend

end Ophelia
