import Ophelia.Lib.Program
import Ophelia.Domain.Contracts

/-!
# Ophelia.Daemon.Upgrades

Self-upgrades of the agent (`daemon/upgrades.py`) and the launcher that restarts it
(`resources/systemd/opheliad-launcher.py`). An upgrade touches four durable objects one after
another: the release directory, the pending marker, the `current` link and the receipt. The
daemon is restarted between the link and the receipt, and may die between any two of them.

Each durable effect takes the next fate of a tape: it goes through, raises, or the process
dies before it. All files are replaced by a rename, so no effect is seen half done.
-/

namespace Ophelia

/-! ### The install root -/

/-- Where a path below the install root resolves to. -/
inductive Place where
  | release (name : String)
  | elsewhere (path : String)
deriving DecidableEq

/-- A directory of `releases`. Whatever else stands under a name has no executable and no
metadata. `packageVersion` is what `package_version()` answers in a process started from it. -/
structure ReleaseTree where
  executable : Bool
  metadata : Option Json
  packageVersion : String

/-- `upgrade-pending.json`. -/
structure PendingUpgrade where
  commandId : String
  version : String
  sourceDigest : String
  envelopeDigest : String
  previousRelease : Place
  targetRelease : Place
deriving DecidableEq

inductive UpgradeStatus where
  | succeeded
  | abortedBeforeActivation
deriving DecidableEq

/-- A file of `upgrade-receipts`: the fields of the marker and what was confirmed. -/
structure UpgradeReceipt where
  pending : PendingUpgrade
  status : UpgradeStatus
  observedVersion : String
  confirmedAt : String

def UpgradeStatus.kind : UpgradeStatus → String
  | succeeded => "ophelia.agent-upgrade-receipt"
  | abortedBeforeActivation => "ophelia.agent-upgrade-abort"

/-- What stands under the path of a record. A link or a directory is irregular, a file that
its reader refuses is malformed. -/
inductive Slot (α : Type) where
  | absent
  | irregular
  | malformed
  | file (record : α)

/-- `current`. -/
inductive CurrentLink where
  | missing
  | notLink
  | link (place : Place)
deriving DecidableEq

structure Install where
  /-- The install root or its `releases` is a symbolic link. -/
  rootsLinked : Bool
  releases : String → Option ReleaseTree
  current : CurrentLink
  marker : Slot PendingUpgrade
  receipts : String → Slot UpgradeReceipt

inductive UpgradeFailure where
  | agentUpgradeError (message : String)
  | daemonInstallError (message : String)
  | osError
  | typeError
  | processFailure
deriving DecidableEq

namespace Install

/-- `path.resolve(strict=True)`. -/
def resolve (i : Install) : Place → Except UpgradeFailure Place
  | .release name =>
      if (i.releases name).isSome then .ok (.release name) else .error .osError
  | .elsewhere path => .ok (.elsewhere path)

/-- `(install_root / "current").resolve(strict=True)`. -/
def resolveCurrent (i : Install) : Except UpgradeFailure Place :=
  match i.current with
  | .missing => .error .osError
  | .notLink => .ok (.elsewhere "current")
  | .link place => i.resolve place

def setRelease (name : String) (tree : Option ReleaseTree) (i : Install) : Install :=
  { i with releases := fun n => if n = name then tree else i.releases n }

def setMarker (marker : Slot PendingUpgrade) (i : Install) : Install :=
  { i with marker }

def setCurrent (place : Place) (i : Install) : Install :=
  { i with current := .link place }

def setReceipt (commandId : String) (receipt : UpgradeReceipt) (i : Install) : Install :=
  { i with receipts := fun c => if c = commandId then .file receipt else i.receipts c }

end Install

/-- `path.relative_to(releases)`. -/
def Place.inReleases : Place → Bool
  | .release _ => true
  | .elsewhere _ => false

/-! ### Effects -/

inductive EffectFate where
  | done
  | fails
  | dies
deriving DecidableEq

/-- The install root and the fates of the effects to come; after the last of them all effects
go through. -/
structure UpgradeWorld where
  install : Install
  fates : List EffectFate

abbrev UpgradeProgram := Program UpgradeWorld UpgradeFailure

/-- A durable effect. -/
def installEffect (f : Install → Install) : UpgradeProgram Unit := fun w =>
  match w.fates with
  | [] => (⟨f w.install, []⟩, .returned ())
  | .done :: fates => (⟨f w.install, fates⟩, .returned ())
  | .fails :: fates => (⟨w.install, fates⟩, .raised .osError)
  | .dies :: fates => (⟨w.install, fates⟩, .crashed)

/-- `shutil.rmtree(path, ignore_errors=True)`. -/
def removeTree (name : String) : UpgradeProgram Unit :=
  (installEffect (Install.setRelease name none)).handle fun _ => .ret ()

/-- An effect that none of the modelled objects shows: a directory that is made if it is
missing, a temporary file or link, the synchronization of a directory. -/
def unseen : UpgradeProgram Unit := installEffect id

def readInstall : UpgradeProgram Install := do
  return (← Program.get).install

def upgradeError {α : Type} (message : String) : UpgradeProgram α :=
  .raise (.agentUpgradeError message)

/-! ### Staging -/

/-- `[0-9]+`, taken as far as it goes. -/
def afterNumber (cs : List Char) : Option (List Char) :=
  if (cs.takeWhile Char.isDigit).isEmpty then none else some (cs.dropWhile Char.isDigit)

def afterDot : List Char → Option (List Char)
  | '.' :: cs => some cs
  | _ => none

/-- `[A-Za-z0-9._+-]`. -/
def isVersionChar (c : Char) : Bool :=
  c.isAlphanum || c == '.' || c == '_' || c == '+' || c == '-'

/-- `_VERSION`: three numbers and at most 64 further characters. -/
def isVersion (cs : List Char) : Bool :=
  match afterNumber cs >>= afterDot >>= afterNumber >>= afterDot >>= afterNumber with
  | some rest => decide (rest.length ≤ 64) && rest.all isVersionChar
  | none => false

/-- What the build makes of an archive: the version that its `pyproject.toml` declares, and
the environment with the project installed. -/
structure SourceArchive where
  digest : String
  /-- `_extract_source_archive`, `_project_root` and `_project_version`. -/
  projectVersion : Except UpgradeFailure String
  /-- `python3 -m venv` and `pip install`. -/
  installed : Except UpgradeFailure (Bool × String)

/-- What `archive_path` leads to. -/
inductive ArchiveFile where
  | missing
  | outsideInbox
  | irregular
  | file (archive : SourceArchive)

/-- A delivered command: its arguments, the archive in its inbox and the random part of the
names of its temporary paths. -/
structure UpgradeRequest where
  commandId : String
  envelopeDigest : String
  payload : Json
  archive : ArchiveFile
  nonce : String

/-- The payload as it is checked. -/
structure CheckedUpgrade where
  version : String
  sourceDigest : String
  archive : SourceArchive
  versionOk : isVersion version.toList = true

/-- `set(payload) != {"version", "archive_path", "source_digest"}`. -/
def hasUpgradeFields (payload : Json) : Bool :=
  match payload with
  | .obj members =>
      members.all (fun m => m.1 ∈ ["version", "archive_path", "source_digest"]) &&
        ["version", "archive_path", "source_digest"].all fun key => (payload.get? key).isSome
  | _ => false

/-- The checks on the payload and the archive. -/
def UpgradeRequest.check (q : UpgradeRequest) : Except UpgradeFailure CheckedUpgrade := do
  unless hasUpgradeFields q.payload do
    throw (.agentUpgradeError "Prepared agent-upgrade payload is invalid.")
  match q.payload.get? "version" with
  | some (.str version) =>
      if versionOk : isVersion version.toList = true then
        match q.payload.get? "source_digest" with
        | some (.str sourceDigest) =>
            unless isSha256 sourceDigest.toList do
              throw (.agentUpgradeError "Agent-upgrade source digest is invalid.")
            match q.payload.get? "archive_path", q.archive with
            | some (.str _), .missing => throw .osError
            | some (.str _), .outsideInbox =>
                throw (.agentUpgradeError "Agent-upgrade archive is outside its trusted inbox.")
            | some (.str _), .irregular =>
                throw (.agentUpgradeError "Agent-upgrade archive is unsafe.")
            | some (.str _), .file archive =>
                if archive.digest ≠ sourceDigest then
                  throw (.agentUpgradeError
                    "Agent-upgrade archive digest changed after acceptance.")
                return { version, sourceDigest, archive, versionOk }
            | _, _ => throw .typeError
        | _ => throw (.agentUpgradeError "Agent-upgrade source digest is invalid.")
      else throw (.agentUpgradeError "Agent-upgrade version is invalid.")
  | _ => throw (.agentUpgradeError "Agent-upgrade version is invalid.")

/-- The name of a release: its version and twelve digits of its digest. -/
def releaseName (version sourceDigest : String) : String :=
  version ++ "-" ++ String.ofList ((sourceDigest.toList.drop 7).take 12)

def releaseMetadata (version sourceDigest : String) : Json :=
  .obj [("schema_version", .int 1), ("kind", .str "ophelia.agent-release"),
    ("version", .str version), ("source_digest", .str sourceDigest)]

/-- `_release_valid`. -/
def releaseValid (tree : Option ReleaseTree) (expected : Json) : Bool :=
  match tree with
  | some t => t.executable && decide (t.metadata = some expected)
  | none => false

def stagingName (version nonce : String) : String :=
  ".upgrade-" ++ version ++ "-" ++ nonce

/-- Build the release of `c` beside its place and move it there, unless it is there. -/
def prepareRelease (c : CheckedUpgrade) (nonce : String) : UpgradeProgram Unit := do
  let target := releaseName c.version c.sourceDigest
  let metadata := releaseMetadata c.version c.sourceDigest
  let staging := stagingName c.version nonce
  let i ← readInstall
  if releaseValid (i.releases target) metadata then .ret ()
  else if (i.releases target).isSome then
    upgradeError "Existing agent release is incomplete or does not match."
  else if (i.releases staging).isSome then .raise .osError
  else do
    installEffect (Install.setRelease staging (some ⟨false, none, ""⟩))
    Program.finalize (do
      let projectVersion ← Program.ofExcept c.archive.projectVersion
      if projectVersion ≠ c.version then
        upgradeError "Agent-upgrade archive version does not match its signed request."
      else do
        let (executable, packageVersion) ← Program.ofExcept c.archive.installed
        unseen
        let tree : ReleaseTree := ⟨executable, some metadata, packageVersion⟩
        if releaseValid (some tree) metadata then do
          installEffect (Install.setRelease target (some tree))
          unseen
        else upgradeError "Staged agent release failed executable validation.")
      (removeTree staging)

/-- `_staged_result`, less the constant `restart_required`. -/
structure StagedUpgrade where
  version : String
  sourceDigest : String
  previousRelease : Place
  targetRelease : Place

def PendingUpgrade.stagedResult (m : PendingUpgrade) : StagedUpgrade :=
  ⟨m.version, m.sourceDigest, m.previousRelease, m.targetRelease⟩

/-- The marker that a command writes. -/
def UpgradeRequest.pending (q : UpgradeRequest) (c : CheckedUpgrade) (previous : Place) :
    PendingUpgrade :=
  { commandId := q.commandId, version := c.version, sourceDigest := c.sourceDigest,
    envelopeDigest := q.envelopeDigest, previousRelease := previous,
    targetRelease := .release (releaseName c.version c.sourceDigest) }

/-- The fields in which a marker or a receipt must agree with the command. -/
def PendingUpgrade.agrees (m : PendingUpgrade) (q : UpgradeRequest) (c : CheckedUpgrade) : Bool :=
  m.version = c.version ∧ m.sourceDigest = c.sourceDigest ∧ m.envelopeDigest = q.envelopeDigest

/-- The end of staging: the marker if there is none yet, then the link. -/
def activateRelease (q : UpgradeRequest) (c : CheckedUpgrade) (previous : Place)
    (marker : Option PendingUpgrade) : UpgradeProgram StagedUpgrade := do
  if ¬ previous.inReleases then
    upgradeError "Current agent release is outside the install root."
  else do
    let pending ← match marker with
      | some m => Program.ret m
      | none => do
          let m := q.pending c previous
          installEffect (Install.setMarker (.file m))
          Program.ret m
    unseen
    installEffect (Install.setCurrent (.release (releaseName c.version c.sourceDigest)))
    unseen
    return pending.stagedResult

/-- Staging of a command without a receipt: the marker and the link, with the install root as
it stands there. -/
def stagePending (q : UpgradeRequest) (c : CheckedUpgrade) (i : Install) :
    UpgradeProgram StagedUpgrade := do
  match i.marker with
  | .irregular => upgradeError "Pending agent-upgrade marker is unsafe."
  | .malformed => upgradeError "Pending agent upgrade marker is invalid."
  | .file m =>
      if ¬ (m.commandId = q.commandId ∧ m.agrees q c) then
        upgradeError "Another agent upgrade is already pending."
      else do
        let pendingTarget ← Program.ofExcept (i.resolve m.targetRelease)
        let target ← Program.ofExcept (i.resolve (.release (releaseName c.version c.sourceDigest)))
        if pendingTarget ≠ target then upgradeError "Another agent upgrade is already pending."
        else do
          let current ← Program.ofExcept i.resolveCurrent
          let previous ← Program.ofExcept (i.resolve m.previousRelease)
          if current = target then return m.stagedResult
          else if current ≠ previous then
            upgradeError "Pending agent-upgrade release pointers disagree."
          else activateRelease q c previous (some m)
  | .absent => do
      let previous ← Program.ofExcept i.resolveCurrent
      activateRelease q c previous none

/-- The part of `stage_agent_upgrade` behind the release. -/
def stagePointer (q : UpgradeRequest) (c : CheckedUpgrade) (i : Install) :
    UpgradeProgram StagedUpgrade := do
  match i.current with
  | .missing | .notLink => upgradeError "Current agent release pointer is unavailable."
  | .link _ =>
      match i.receipts q.commandId with
      | .malformed => upgradeError "Existing agent-upgrade receipt is invalid."
      | .file receipt =>
          if ¬ (receipt.status = .succeeded ∧ receipt.pending.agrees q c) then
            upgradeError "Existing agent-upgrade receipt conflicts with the command."
          else do
            let current ← Program.ofExcept i.resolveCurrent
            let target ←
              Program.ofExcept (i.resolve (.release (releaseName c.version c.sourceDigest)))
            if current ≠ target then
              upgradeError "Existing agent-upgrade receipt conflicts with the command."
            else return receipt.pending.stagedResult
      | .absent | .irregular => stagePending q c i

/-- `stage_agent_upgrade`. -/
def stageAgentUpgrade (q : UpgradeRequest) : UpgradeProgram StagedUpgrade := do
  let c ← Program.ofExcept q.check
  unseen
  if (← readInstall).rootsLinked then upgradeError "Agent install root is unsafe."
  else do
    prepareRelease c q.nonce
    stagePointer q c (← readInstall)

/-! ### Confirmation -/

/-- The status that a confirmation gives a pending upgrade. -/
def PendingUpgrade.confirmation (m : PendingUpgrade) (current target previous : Place)
    (observedVersion : String) : Option UpgradeStatus :=
  if current = target ∧ observedVersion = m.version then some .succeeded
  else if current = previous then some .abortedBeforeActivation
  else none

/-- `confirm_running_upgrade` in a process whose `package_version()` is `observedVersion`. -/
def confirmRunningUpgrade (observedVersion confirmedAt : String) :
    UpgradeProgram (Option UpgradeReceipt) := do
  let i ← readInstall
  match i.marker with
  | .absent | .irregular => return none
  | .malformed => upgradeError "Pending agent upgrade marker is invalid."
  | .file m => do
      let current ← Program.ofExcept i.resolveCurrent
      let target ← Program.ofExcept (i.resolve m.targetRelease)
      let previous ← Program.ofExcept (i.resolve m.previousRelease)
      if ¬ (target.inReleases ∧ previous.inReleases) then
        upgradeError "Pending agent-upgrade releases are outside the install root."
      else
        match m.confirmation current target previous observedVersion with
        | none => upgradeError "Running release does not match pending upgrade evidence."
        | some status => do
            let receipt : UpgradeReceipt := ⟨m, status, observedVersion, confirmedAt⟩
            unseen
            match i.receipts m.commandId with
            | .irregular =>
                .raise (.daemonInstallError "Installer target may not be a symbolic link.")
            | _ => do
                installEffect (Install.setReceipt m.commandId receipt)
                installEffect (Install.setMarker .absent)
                unseen
                return some receipt

/-! ### The launcher -/

/-- `_rollback_unconfirmed_upgrade`, less the report that it leaves behind. -/
def rollbackUnconfirmedUpgrade (i : Install) : Install :=
  match i.marker with
  | .file m =>
      match i.resolve m.previousRelease, i.resolve m.targetRelease, i.resolveCurrent with
      | .ok previous, .ok target, .ok current =>
          if ¬ (previous.inReleases ∧ target.inReleases) then i
          else if current = previous then i.setMarker .absent
          else if current = target then (i.setCurrent previous).setMarker .absent
          else i
      | _, _, _ => i
  | _ => i

/-- A daemon process: the release it was started from, the version it reports, and whether it
still has a confirmation to make, which it decides when it starts. -/
structure RunningAgent where
  release : String
  version : String
  confirming : Bool

/-- `_current_executable`, and the daemon started from it. -/
def launch (i : Install) : Option RunningAgent :=
  match i.current with
  | .link (.release name) =>
      match i.releases name with
      | some tree =>
          if tree.executable then
            some ⟨name, tree.packageVersion, match i.marker with | .file _ => true | _ => false⟩
          else none
      | none => none
  | _ => none

/-! ### Runs -/

structure UpgradeHost where
  install : Install
  running : Option RunningAgent

/-- What happens on a host. A restart follows an expected stop or the loss of the host, or it
follows an unexpected end of the daemon and the launcher rolls back first. -/
inductive UpgradeStep where
  | stage (q : UpgradeRequest) (fates : List EffectFate)
  | confirm (confirmedAt : String) (fates : List EffectFate)
  | restart (rollback : Bool)

namespace UpgradeHost

/-- The host after a call of the daemon `a`, which does not survive a crash. -/
def ofCall {α : Type} (a : RunningAgent) :
    UpgradeWorld × Program.Outcome UpgradeFailure α → UpgradeHost
  | (w, .crashed) => ⟨w.install, none⟩
  | (w, _) => ⟨w.install, some a⟩

def step (h : UpgradeHost) : UpgradeStep → UpgradeHost
  | .stage q fates =>
      match h.running with
      | none => h
      | some a => ofCall a (stageAgentUpgrade q ⟨h.install, fates⟩)
  | .confirm confirmedAt fates =>
      match h.running with
      | none => h
      | some a =>
          if a.confirming then
            ofCall { a with confirming := false }
              (confirmRunningUpgrade a.version confirmedAt ⟨h.install, fates⟩)
          else h
  | .restart rollback =>
      let install := if rollback then rollbackUnconfirmedUpgrade h.install else h.install
      ⟨install, launch install⟩

def after (h : UpgradeHost) (steps : List UpgradeStep) : UpgradeHost :=
  steps.foldl step h

end UpgradeHost

end Ophelia
