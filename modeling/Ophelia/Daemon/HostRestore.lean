import Ophelia.Daemon.HostRecovery
import Ophelia.Lib.FileTree
import Ophelia.Lib.Program

/-!
# Ophelia.Daemon.HostRestore

`apply_clean_host_restore` of `daemon/recovery.py`, from the decrypted archive to the published
runtime root. The archive is inspected and unpacked into a staging directory (`unpack`); then the
payload is checked against the manifest, the symbolic links are made one after another, and the
payload takes the place of the target (`rebuild`).

Every program keeps a log of the places it makes or changes, in the order of the calls.
-/

namespace Ophelia

open FileTree

/-! ### The host -/

abbrev HostDisk := Disk String (List UInt8)

/-- What a call did, at the place that its path led to. -/
inductive Touch where
  | made (place : List String)
  | moded (place : List String)
  | linked (declared place : List String)
deriving DecidableEq

def Touch.place : Touch → List String
  | .made place => place
  | .moded place => place
  | .linked _ place => place

/-- The disk with the log of what was done to it. -/
structure Work where
  disk : HostDisk
  touched : List Touch

/-- What a restore takes from the host and from the libraries. -/
structure RestoreTools where
  /-- How many links the kernel follows in one lookup. -/
  links : Nat
  /-- The bits of a directory that is made on the way to another. -/
  parentMode : Nat
  nfc : List Char → List Char
  /-- `json.loads` of a decoded file. -/
  readJson : List UInt8 → Option Json
  sha256 : List UInt8 → Digest
  /-- The checks of `_validate_restored_database` on the content of a database. -/
  database : List UInt8 → HostId → Recovered Unit

/-- The inputs of a confirmed restore. -/
structure CleanRestore where
  /-- The directory the target is in. -/
  parent : List String
  target : String
  /-- The random part of the name of the staging directory. -/
  nonce : String
  manifest : ExternalManifest
  /-- What `age` makes of the object. -/
  archive : TarArchive
  maximumBytes : Nat
  receipt : List UInt8

def CleanRestore.stagingName (restore : CleanRestore) : String :=
  "." ++ restore.target ++ ".restore-" ++ restore.nonce

def CleanRestore.staging (restore : CleanRestore) : List String :=
  restore.parent ++ [restore.stagingName]

def CleanRestore.extracted (restore : CleanRestore) : List String :=
  restore.staging ++ ["extracted"]

def CleanRestore.payload (restore : CleanRestore) : List String :=
  restore.extracted ++ ["payload"]

def CleanRestore.targetRoot (restore : CleanRestore) : List String :=
  restore.parent ++ [restore.target]

abbrev Restoring := Program Work RecoveryError

/-- A check without effect. -/
def check (x : Recovered Unit) : Restoring Unit := Program.ofExcept x

/-- A name a host can give to a file. -/
def nameAllowed (name : String) : Bool :=
  name.toList.all (fun c => c != '\x00') && decide (utf8Length name.toList ≤ 255)

variable (tools : RestoreTools)

/-! ### System calls -/

/-- Give a path to a new node. -/
def osMake (path : List String) (node : FileTree.Node String (List UInt8)) :
    Restoring (Except Disk.MakeError (List String)) := fun work =>
  if path.all nameAllowed then
    match work.disk.make tools.links path node with
    | .ok (place, disk) => ({ work with disk }, .returned (.ok place))
    | .error e => (work, .returned (.error e))
  else (work, .raised .os)

def touch (touch : Touch) : Restoring Unit :=
  Program.modify fun work => { work with touched := work.touched ++ [touch] }

/-- `os.mkdir`; what stops it is returned. -/
def osMkdir (mode : Nat) (path : List String) : Restoring (Option Disk.MakeError) := do
  match ← osMake tools path (.directory mode) with
  | .ok place =>
      touch (.made place)
      return none
  | .error e => return some e

/-- `path.is_dir()`. -/
def isDir (path : List String) (work : Work) : Bool :=
  (work.disk.stat tools.links path).any FileTree.Node.isDirectory

/-- `path.is_file()`. -/
def isFile (path : List String) (work : Work) : Bool :=
  (work.disk.stat tools.links path).any FileTree.Node.isRegular

/-- `path.is_symlink()`. -/
def isSymlink (path : List String) (work : Work) : Bool :=
  (work.disk.lstat tools.links path).any FileTree.Node.isLink

/-- `path.exists()`. -/
def pathExists (path : List String) (work : Work) : Bool :=
  (work.disk.stat tools.links path).isSome

/-- A check of the state. -/
def checkState (p : Work → Bool) (message : String) : Restoring Unit := do
  let work ← Program.get
  check (demand (p work = true) message)

/-- An error of the system call is raised unless the path is a directory. -/
def acceptDirectory (path : List String) : Restoring Unit := do
  let work ← Program.get
  if isDir tools path work then return () else Program.raise .os

/-- `path.mkdir(mode, parents=True, exist_ok=True)`, for a path in reverse order. -/
def makeDirectories (mode : Nat) : List String → Restoring Unit
  | [] => return ()
  | name :: up => do
      match ← osMkdir tools mode (name :: up).reverse with
      | none => return ()
      | some (.lookup .missing) =>
          makeDirectories tools.parentMode up
          match ← osMkdir tools mode (name :: up).reverse with
          | none => return ()
          | some (.lookup .missing) => Program.raise .os
          | some _ => acceptDirectory tools (name :: up).reverse
      | some _ => acceptDirectory tools (name :: up).reverse

/-- `os.chmod`. -/
def osChmod (path : List String) (mode : Nat) : Restoring Unit := fun work =>
  match work.disk.chmod tools.links path mode with
  | .ok (place, disk) =>
      ({ disk, touched := work.touched ++ [.moded place] }, .returned ())
  | .error _ => (work, .raised .os)

/-! ### Unpacking -/

/-- One member of `_extract_regular_archive`. -/
def extractMember (target : List String) (member : TarMember) : Restoring Unit := do
  let destination := target ++ relativeParts member.name
  if member.type = .directory then
    makeDirectories tools 0o700 destination.reverse
  else if member.type = .regular then
    makeDirectories tools 0o700 destination.dropLast.reverse
    match ← osMake tools destination (.regular 0o600 member.content) with
    | .ok _ => return ()
    | .error _ => Program.raise .os
  else
    check (.error (.recovery "Recovery archive contains a non-regular member."))

/-- `_extract_regular_archive`. -/
def extractArchive (target : List String) : List TarMember → Restoring Unit
  | [] => return ()
  | member :: rest => do
      extractMember tools target member
      extractArchive target rest

def archiveOverheadBytes : Nat := 64 * 1024 * 1024

/-- The limits of a restore. -/
def recoveryLimits (maximumBytes : Nat) : ArchiveLimits where
  maxSourceBytes := maximumBytes + archiveOverheadBytes
  maxMembers := 100010
  maxTotalUnpackedBytes := maximumBytes + archiveOverheadBytes
  maxMemberBytes := maximumBytes
  maxPathBytes := 4112
  maxPathDepth := 66
  maxExpansionRatio := maximumBytes

/-- `_read_json`: a regular file, its last link not followed. -/
def readEvidence (path : List String) (maximumBytes : Nat) (work : Work) : Recovered Json :=
  match work.disk.lstat tools.links path with
  | some (.regular _ content) => do
      demand (content.length ≤ maximumBytes) "Recovery JSON evidence is unavailable or unsafe."
      match tools.readJson content with
      | some value => .ok value
      | none => .error (.recovery "Recovery JSON evidence is invalid.")
  | _ => .error (.recovery "Recovery source must be a trusted regular file.")

/-- `_trusted_directory`: a directory on whose path there is no link, and which only its owner
may write to. -/
def trustedDirectory (path : List String) (work : Work) : Bool :=
  (path.inits.tail.all fun place =>
    (work.disk.lstat tools.links place).any fun node => !node.isLink) &&
  match work.disk.stat tools.links path with
  | some (.directory mode) => mode &&& 0o022 == 0
  | _ => false

/-- `_restore_target_state`: `none` for an occupied target, otherwise whether it is there. -/
def restoreTargetState (target : List String) (work : Work) : Option Bool :=
  if isSymlink tools target work then none
  else if !pathExists tools target work then some false
  else if !isDir tools target work then none
  else if work.disk.slots.rows.any fun slot => target.isPrefixOf slot.path && slot.path != target
  then none
  else some true

variable [Platform]

/-- From the confirmed plan to the accepted manifest in the staging directory. -/
def unpack (restore : CleanRestore) : Restoring InternalManifest := do
  checkState (trustedDirectory tools restore.parent)
    "target_runtime_root parent must be an existing trusted directory."
  checkState (fun work => (restoreTargetState tools restore.targetRoot work).isSome)
    "Clean-host restore inputs changed or confirmation is invalid."
  match ← osMkdir tools 0o700 restore.staging with
  | some _ => Program.raise .os
  | none =>
      check (demand (restore.archive.sourceBytes ≠ 0 ∧
          restore.archive.sourceBytes ≤ restore.maximumBytes + archiveOverheadBytes)
        "Decrypted recovery archive is unavailable or too large.")
      match inspectArchive tools.nfc (recoveryLimits restore.maximumBytes) restore.archive with
      | .error rejection => Program.raise (.archive rejection)
      | .ok _ =>
          match ← osMkdir tools 0o700 restore.extracted with
          | some _ => Program.raise .os
          | none =>
              extractArchive tools restore.extracted restore.archive.members
              let work ← Program.get
              let value ← Program.ofExcept (readEvidence tools
                (restore.extracted ++ ["recovery-manifest.json"]) (16 * 1024 * 1024) work)
              let internal ← Program.ofExcept (InternalManifest.load value)
              check (demand (internal.backupId = restore.manifest.backupId ∧
                  internal.hostId = restore.manifest.hostId ∧
                  internal.entriesDigest = restore.manifest.entriesDigest)
                "Encrypted recovery manifest conflicts with object evidence.")
              check (demand (internal.entries.totalBytes ≤ restore.maximumBytes)
                "Encrypted recovery payload exceeds its restore limit.")
              return internal

/-! ### Rebuilding -/

omit [Platform]

/-- One entry of `_verify_payload`. -/
def verifyEntry (payload : List String) : RecoveryEntry → Restoring Unit
  | .directory path mode => do
      let target := payload ++ path.parts
      checkState (fun work => !isSymlink tools target work && isDir tools target work)
        "Restored recovery directory is missing."
      osChmod tools target (mode.normalized true)
  | .file path mode size sha256 => do
      let target := payload ++ path.parts
      checkState (fun work => !isSymlink tools target work && isFile tools target work)
        "Restored recovery file is missing."
      checkState (fun work => (work.disk.stat tools.links target).any fun
          | .regular _ content => content.length == size && tools.sha256 content == sha256
          | _ => false)
        "Restored recovery file failed digest validation."
      osChmod tools target (mode.normalized false)
  | .symlink path _ =>
      let target := payload ++ path.parts
      checkState (fun work => !pathExists tools target work && !isSymlink tools target work)
        "Restored symlink destination is unexpectedly occupied."

def verifyEntries (payload : List String) : List RecoveryEntry → Restoring Unit
  | [] => return ()
  | entry :: rest => do
      verifyEntry tools payload entry
      verifyEntries payload rest

/-- The paths a manifest declares, below the directory of the archive. -/
def expectedPaths (entries : List RecoveryEntry) : List (List String) :=
  ["recovery-manifest.json"] :: entries.map fun entry => "payload" :: entry.path.parts

/-- Nothing but declared paths and directories on the way to them. -/
def declaredOnly (extracted : List String) (entries : List RecoveryEntry) (work : Work) : Bool :=
  work.disk.slots.rows.all fun slot =>
    !(extracted.isPrefixOf slot.path && slot.path != extracted &&
      slot.path != extracted ++ ["payload"]) ||
    (expectedPaths entries).any fun expected =>
      (slot.path.drop extracted.length).isPrefixOf expected

/-- `_verify_payload`. -/
def verifyPayload (extracted : List String) (entries : List RecoveryEntry) : Restoring Unit := do
  verifyEntries tools (extracted ++ ["payload"]) entries
  checkState (declaredOnly extracted entries)
    "Recovery archive contains undeclared payload paths."

/-- One entry of `_restore_symlinks`. -/
def restoreSymlink (payload : List String) : RecoveryEntry → Restoring Unit
  | .symlink path target => do
      let link := payload ++ path.parts
      makeDirectories tools 0o700 link.dropLast.reverse
      match ← osMake tools link (.link (relative (payload ++ target.parts) link.dropLast)) with
      | .ok place => touch (.linked link place)
      | .error _ => Program.raise .os
  | _ => return ()

/-- `_restore_symlinks`. -/
def restoreSymlinks (payload : List String) : List RecoveryEntry → Restoring Unit
  | [] => return ()
  | entry :: rest => do
      restoreSymlink tools payload entry
      restoreSymlinks payload rest

/-- `_validate_restored_database`. -/
def validateRestoredDatabase (path : List String) (hostId : HostId) : Restoring Unit := do
  let work ← Program.get
  if isSymlink tools path work then
    check (.error (.recovery "Restored operation journal is missing."))
  else
    match work.disk.stat tools.links path with
    | some (.regular _ content) => check (tools.database content hostId)
    | _ => check (.error (.recovery "Restored operation journal is missing."))

/-- Put a file at a path whose directory is there, over a file that is there already. -/
def replaceFile (path : List String) (mode : Nat) (content : List UInt8) : Restoring Unit :=
  fun work =>
    match work.disk.place tools.links path with
    | .error _ => (work, .raised .os)
    | .ok place =>
        if h : work.disk.Replaces place (.regular mode content) then
          ({ work with disk := work.disk.put place (.regular mode content) h }, .returned ())
        else (work, .raised .os)

/-- `_secure_write`. -/
def secureWrite (path : List String) (mode : Nat) (content : List UInt8) : Restoring Unit := do
  makeDirectories tools 0o750 path.dropLast.reverse
  let work ← Program.get
  if isSymlink tools path work || isSymlink tools path.dropLast work then
    Program.raise (.install "Installer target may not be a symbolic link.")
  else replaceFile tools path mode content

/-- What stands where after `os.replace(payload, target)`. -/
def published (restore : CleanRestore) (work : Work) : View String (List UInt8) := fun path =>
  if restore.targetRoot <+: path then
    work.disk.view (restore.payload ++ path.drop restore.targetRoot.length)
  else if restore.payload <+: path then none
  else work.disk.view path

/-- Check the payload and make the symbolic links. -/
def buildPayload (restore : CleanRestore) (internal : InternalManifest) : Restoring Unit := do
  verifyPayload tools restore.extracted internal.entries.list
  restoreSymlinks tools restore.payload internal.entries.list

/-- Check the journal, leave the receipt and publish. `planned` is the state that the target had
when the restore was planned. -/
def publish (restore : CleanRestore) (planned : Option Bool) :
    Restoring (View String (List UInt8)) := do
  validateRestoredDatabase tools (restore.payload ++ ["host-state", "operations.db"])
    restore.manifest.hostId
  secureWrite tools (restore.payload ++ ["host-state", "clean-host-restore.json"]) 0o600
    restore.receipt
  let work ← Program.get
  let current := restoreTargetState tools restore.targetRoot work
  check (demand (current ≠ none ∧ current = planned)
    "Target runtime root changed after restore planning.")
  return published restore work

/-- From the accepted manifest to the published runtime root. -/
def rebuild (restore : CleanRestore) (planned : Option Bool) (internal : InternalManifest) :
    Restoring (View String (List UInt8)) := do
  buildPayload tools restore internal
  publish tools restore planned

end Ophelia
