import Ophelia.Lib.ProgramLoops

/-!
# Ophelia.Runtime.ManagedRoot

Changing one file below a managed root (`filesystem.py`): `write_bytes`, `replace_bytes` and
`copy_in`, and the mutation that they share. A new file is made under a temporary name beside the
destination, filled, secured and synced, and then renamed to the destination.

How every system call ends is given in advance: it goes through (a write or a read with a number of
bytes) or fails. That an entry is missing, is there already or is of the wrong kind is for the disk
to say. The calls of a run are taken from that list one after another; a run that needs
more of them than are listed has not ended. The hooks of the tests are left out. Directories have
one writer, so the entries change by the calls of the run alone.
-/

namespace Ophelia

namespace Filesystem

abbrev Name := List Char

abbrev Octets := List UInt8

/-! ### Disks -/

/-- Directories, as a descriptor pins them. -/
abbrev DirId := Nat

/-- What an entry is. -/
inductive EntryNode where
  | regular (content : Octets)
  | directory (id : DirId)
  | symlink (target : Name)
  | special
deriving DecidableEq

/-- An entry of a directory, with what `stat` tells of it. -/
structure Entry where
  node : EntryNode
  ino : Nat
  uid : Nat
  mode : Nat
deriving DecidableEq

/-- The entries of all directories, by name. -/
abbrev Entries := DirId → Name → Option Entry

structure DirInfo where
  uid : Nat
  mode : Nat

structure Disk where
  entry : Entries
  info : DirId → DirInfo
  /-- The next inode number. -/
  inode : Nat

/-- A table of entries with one of them changed. -/
def Entries.set (entries : Entries) (dir : DirId) (name : Name) (e : Option Entry) : Entries :=
  fun d n => if d = dir ∧ n = name then e else entries d n

/-! ### Runs -/

inductive Errno where
  | eexist
  | eintr
  | enoent
  | eloop
  | enotdir
  | eisdir
  | other (number : Nat)
deriving DecidableEq

/-- A failure that does not come from what the entries are. -/
inductive Fault where
  | interrupted
  | other (number : Nat)
deriving DecidableEq

def Fault.errno : Fault → Errno
  | interrupted => .eintr
  | other number => .other number

/-- How a system call ends. A call that goes still fails where the entries are in its way. -/
inductive Turn where
  | goes (count : Nat)
  | fails (fault : Fault)
deriving DecidableEq

/-- `FilesystemSafetyCode`. -/
inductive FilesystemSafetyCode where
  | UNSUPPORTED_PLATFORM
  | CLOSED_ROOT
  | INVALID_PATH
  | INVALID_MODE
  | SYMLINK_COMPONENT
  | MISSING_COMPONENT
  | NOT_DIRECTORY
  | UNSAFE_PARENT
  | UNSAFE_OWNER
  | INVALID_DESTINATION
  | INVALID_SOURCE
  | SOURCE_CHANGED
  | RACE_DETECTED
  | DURABILITY_UNAVAILABLE
  | CLEANUP_FAILURE
  | IO_FAILURE
deriving DecidableEq

def FilesystemSafetyCode.value : FilesystemSafetyCode → String
  | UNSUPPORTED_PLATFORM => "unsupported_platform"
  | CLOSED_ROOT => "closed_root"
  | INVALID_PATH => "invalid_path"
  | INVALID_MODE => "invalid_mode"
  | SYMLINK_COMPONENT => "symlink_component"
  | MISSING_COMPONENT => "missing_component"
  | NOT_DIRECTORY => "not_directory"
  | UNSAFE_PARENT => "unsafe_parent"
  | UNSAFE_OWNER => "unsafe_owner"
  | INVALID_DESTINATION => "invalid_destination"
  | INVALID_SOURCE => "invalid_source"
  | SOURCE_CHANGED => "source_changed"
  | RACE_DETECTED => "race_detected"
  | DURABILITY_UNAVAILABLE => "durability_unavailable"
  | CLEANUP_FAILURE => "cleanup_failure"
  | IO_FAILURE => "io_failure"

/-- `FilesystemSafetyError`. -/
structure FilesystemSafetyError where
  code : FilesystemSafetyCode
  operation : String
  path : Option Name
  message : String
  primaryErrorCode : Option String := none
  cleanupFailures : List String := []
deriving DecidableEq

/-- What is raised. -/
inductive Raised where
  | safety (e : FilesystemSafetyError)
  | os (errno : Errno)
  /-- `NotImplementedError`. -/
  | unsupported
deriving DecidableEq

/-- `type(error).__name__` of an `OSError`. -/
def Errno.exceptionName : Errno → String
  | eexist => "FileExistsError"
  | eintr => "InterruptedError"
  | enoent => "FileNotFoundError"
  | enotdir => "NotADirectoryError"
  | eisdir => "IsADirectoryError"
  | eloop | other _ => "OSError"

/-- The local variables of the mutation that its `finally` looks at. -/
structure Locals where
  temporaryName : Option Name := none
  temporaryFd : Bool := false
  committed : Bool := false

/-- What a run has at hand. -/
structure World where
  disk : Disk
  turns : List Turn
  /-- What is still to be read of the source. -/
  unread : Octets
  locals : Locals
  /-- Whether the rename went through. -/
  renamed : Bool

abbrev FileProgram := Program World Raised

/-- What the process brings along: the random part of the n-th temporary name, its umask and its
user, and whether the platform renames relative to descriptors. -/
structure Process where
  token : Nat → Name
  umask : Nat
  euid : Nat
  renamesAt : Bool

/-- `ManagedRoot`. -/
structure ManagedRoot where
  descriptor : Option DirId
  trustedOwnerUid : Nat

/-- The operation and the path that errors name. -/
structure Request where
  operation : String
  display : Name

def DEFAULT_FILE_MODE : Nat := 0o600

def MANAGED_ROOT_TRUST_BOUNDARY : String :=
  "trusted_owner_uid must be exclusive to a single Ophelia writer; managed " ++
    "directories must be ACL-free, and no untrusted same-UID process may rename them"

def COPY_BUFFER_SIZE : Nat := 128 * 1024

def TEMP_PREFIX : Name := ".ophelia-tmp-".toList

namespace ManagedRoot

/-! ### System calls -/

/-- A system call, with the count that it is given. -/
def call {α : Type} (f : Nat → World → Except Errno (World × α)) : FileProgram α := fun w =>
  match w.turns with
  | [] => (w, .crashed)
  | .fails fault :: turns => ({ w with turns }, .raised (.os fault.errno))
  | .goes count :: turns =>
      match f count { w with turns } with
      | .ok (w', a) => (w', .returned a)
      | .error errno => ({ w with turns }, .raised (.os errno))

/-- A call that looks at the disk. -/
def look {α : Type} (f : Disk → Except Errno α) : FileProgram α :=
  call fun _ w => (f w.disk).map fun a => (w, a)

/-- `os.dup(fd)`, `os.close(fd)`, `os.fsync(fd)`. -/
def touch : FileProgram Unit := look fun _ => .ok ()

/-- `os.fstat(fd)` of a directory. -/
def fstatDirectory (dir : DirId) : FileProgram DirInfo := look fun disk => .ok (disk.info dir)

/-- `os.stat(name, dir_fd=dir, follow_symlinks=False)`. -/
def lstat (dir : DirId) (name : Name) : FileProgram Entry :=
  look fun disk =>
    match disk.entry dir name with
    | some e => .ok e
    | none => .error .enoent

/-- `os.open(name, O_RDONLY | O_DIRECTORY | O_NOFOLLOW | O_CLOEXEC, dir_fd=dir)`. -/
def openDirectory (dir : DirId) (name : Name) : FileProgram DirId :=
  look fun disk =>
    match (disk.entry dir name).map Entry.node with
    | some (.directory id) => .ok id
    | some (.symlink _) => .error .eloop
    | some _ => .error .enotdir
    | none => .error .enoent

/-- The change of an entry that a descriptor is open on. -/
def change (dir : DirId) (name : Name) (f : Entry → Entry) (w : World) : World :=
  { w with disk := { w.disk with
      entry := w.disk.entry.set dir name ((w.disk.entry dir name).map f) } }

/-- `os.open(name, O_WRONLY | O_CREAT | O_EXCL | O_NOFOLLOW | O_CLOEXEC, 0o600, dir_fd=dir)`. -/
def createFile (process : Process) (dir : DirId) (name : Name) : FileProgram Unit :=
  call fun _ w =>
    match w.disk.entry dir name with
    | some _ => .error .eexist
    | none =>
        let mode := DEFAULT_FILE_MODE - (DEFAULT_FILE_MODE &&& process.umask)
        let e : Entry := ⟨.regular [], w.disk.inode, process.euid, mode⟩
        .ok ({ w with disk := { w.disk with
          entry := w.disk.entry.set dir name (some e), inode := w.disk.inode + 1 } }, ())

/-- `os.fchmod(fd, mode)`. -/
def fchmod (dir : DirId) (name : Name) (mode : Nat) : FileProgram Unit :=
  call fun _ w => .ok (change dir name (fun e => { e with mode }) w, ())

/-- More content at the end of a regular file. -/
def Entry.extend (more : Octets) (e : Entry) : Entry :=
  match e.node with
  | .regular content => { e with node := .regular (content ++ more) }
  | _ => e

/-- `os.write(fd, data)`, of as many bytes as the call takes. -/
def osWrite (dir : DirId) (name : Name) (data : Octets) : FileProgram Nat :=
  call fun count w =>
    .ok (change dir name (Entry.extend (data.take count)) w, min count data.length)

/-- `os.read(fd, size)`: nothing at the end of the source only. -/
def osRead : FileProgram Octets :=
  call fun count w =>
    let size := min (count + 1) COPY_BUFFER_SIZE
    .ok ({ w with unread := w.unread.drop size }, w.unread.take size)

/-- `os.unlink(name, dir_fd=dir)`. -/
def unlink (dir : DirId) (name : Name) : FileProgram Unit :=
  call fun _ w =>
    match (w.disk.entry dir name).map Entry.node with
    | none => .error .enoent
    | some (.directory _) => .error .eisdir
    | some _ => .ok ({ w with disk := { w.disk with entry := w.disk.entry.set dir name none } }, ())

/-- `os.replace(source, name, src_dir_fd=dir, dst_dir_fd=dir)`, for a regular file. -/
def replace (process : Process) (dir : DirId) (source name : Name) : FileProgram Unit :=
  if process.renamesAt = false then Program.raise .unsupported
  else
    call fun _ w =>
      match w.disk.entry dir source, (w.disk.entry dir name).map Entry.node with
      | none, _ => .error .enoent
      | some _, some (.directory _) => .error .eisdir
      | some e, _ =>
          .ok ({ w with
            disk := { w.disk with
              entry := (w.disk.entry.set dir source none).set dir name (some e) }
            renamed := true }, ())

/-! ### Exceptions -/

variable {α : Type}

/-- `raise FilesystemSafetyError(code, operation, display, message)`. -/
def fail (r : Request) (code : FilesystemSafetyCode) (message : String) : FileProgram α :=
  Program.raise (.safety { code, operation := r.operation, path := some r.display, message })

/-- `except OSError as exc`. -/
def onOSError (m : FileProgram α) (h : Errno → FileProgram α) : FileProgram α :=
  m.handle fun e =>
    match e with
    | .os errno => h errno
    | e => Program.raise e

/-- `except OSError: raise FilesystemSafetyError(...)`. -/
def orFail (m : FileProgram α) (r : Request) (code : FilesystemSafetyCode) (message : String) :
    FileProgram α :=
  onOSError m fun _ => fail r code message

/-! ### Directories -/

/-- `_require_open`. -/
def requireOpen (root : ManagedRoot) (operation : String) : FileProgram DirId :=
  match root.descriptor with
  | some dir => Program.ret dir
  | none => Program.raise (.safety {
      code := .CLOSED_ROOT, operation, path := none, message := "managed root is closed" })

/-- `_require_safe_parent`. -/
def requireSafeParent (root : ManagedRoot) (r : Request) (info : DirInfo) : FileProgram Unit :=
  if info.uid ≠ root.trustedOwnerUid then
    fail r .UNSAFE_OWNER ("destination directory is not owned by trusted_owner_uid; " ++
      MANAGED_ROOT_TRUST_BOUNDARY)
  else if info.mode &&& 0o022 ≠ 0 then
    fail r .UNSAFE_PARENT ("destination parent must not be group- or world-writable; " ++
      MANAGED_ROOT_TRUST_BOUNDARY)
  else Program.ret ()

/-- The kinds of `_entry_kind`. -/
inductive Kind where
  | symlink
  | directory
  | regular
  | special
deriving DecidableEq

def kindOf (e : Entry) : Kind :=
  match e.node with
  | .symlink _ => .symlink
  | .directory _ => .directory
  | .regular _ => .regular
  | .special => .special

/-- `_entry_kind`. -/
def entryKind (dir : DirId) (name : Name) (r : Request) : FileProgram (Option Kind) :=
  onOSError (lstat dir name >>= fun e => Program.ret (some (kindOf e))) fun errno =>
    if errno = .enoent then Program.ret none
    else fail r .IO_FAILURE "could not inspect destination entry"

/-- `_traversal_os_error`. -/
def traversalOSError (errno : Errno) (dir : DirId) (name : Name) (r : Request) : FileProgram α := do
  let kind ← entryKind dir name r
  if kind = some .symlink ∨ errno = .eloop then
    fail r .SYMLINK_COMPONENT "destination parent component must not be a symlink"
  else if kind = none ∨ errno = .enoent then
    fail r .MISSING_COMPONENT "destination parent component does not exist"
  else if kind ≠ some .directory ∨ errno = .enotdir then
    fail r .NOT_DIRECTORY "destination parent component is not a directory"
  else fail r .IO_FAILURE "could not open destination parent component"

/-- The loop of `_walk_directories`. A descriptor that is open at an exception is closed. -/
def descend (root : ManagedRoot) (r : Request) : List Name → DirId → FileProgram DirId
  | [], current => Program.ret current
  | component :: components, current => do
      let next ← Program.cleanup (do
        let next ← onOSError (openDirectory current component) fun errno =>
          traversalOSError errno current component r
        Program.cleanup (do
          let info ← orFail (fstatDirectory next) r .IO_FAILURE
            "could not inspect destination parent component"
          requireSafeParent root r info) touch
        touch
        return next) touch
      descend root r components next

/-- `_walk_directories`. -/
def walkDirectories (root : ManagedRoot) (components : List Name) (r : Request) :
    FileProgram DirId := do
  let dir ← requireOpen root r.operation
  orFail touch r .IO_FAILURE "could not duplicate managed root descriptor"
  Program.cleanup (do
    let info ← orFail (fstatDirectory dir) r .IO_FAILURE "could not inspect destination parent"
    requireSafeParent root r info) touch
  descend root r components dir

def parentChanged : String :=
  "destination parent changed during mutation; " ++ MANAGED_ROOT_TRUST_BOUNDARY

/-- `_revalidate_parent`. -/
def revalidateParent (root : ManagedRoot) (pinned : DirId) (components : List Name) (r : Request) :
    FileProgram Unit := do
  let reached ← (walkDirectories root components r).handle fun e =>
    match e with
    | .safety _ => fail r .RACE_DETECTED parentChanged
    | e => Program.raise e
  Program.finalize (orFail (do
    let _ ← fstatDirectory pinned
    let _ ← fstatDirectory reached
    if pinned ≠ reached then fail r .RACE_DETECTED parentChanged
    else Program.ret ()) r .RACE_DETECTED parentChanged) touch

/-- `_require_regular_destination`. -/
def requireRegularDestination (dir : DirId) (name : Name) (r : Request) (requireExisting : Bool) :
    FileProgram Unit := do
  let kind ← entryKind dir name r
  if kind = some .symlink then
    fail r .SYMLINK_COMPONENT "file destination must not be a symlink"
  else if kind = none ∧ requireExisting = true then
    fail r .INVALID_DESTINATION "replacement destination must already exist"
  else if kind ≠ none ∧ kind ≠ some .regular then
    fail r .INVALID_DESTINATION "file destination must be absent or a regular file"
  else Program.ret ()

/-- `_mutation_os_error`. -/
def mutationOSError (errno : Errno) (dir : DirId) (name : Name) (r : Request) : FileProgram α := do
  let kind ← entryKind dir name r
  if kind = some .symlink ∨ errno = .eloop then
    fail r .SYMLINK_COMPONENT "destination must not be a symlink"
  else if errno = .eexist then
    fail r .INVALID_DESTINATION "destination already exists"
  else fail r .IO_FAILURE "filesystem mutation failed"

/-- `_post_mutation_revalidate`. -/
def postMutationRevalidate (root : ManagedRoot) (pinned : DirId) (components : List Name)
    (name : Name) (ino : Nat) (r : Request) : FileProgram Unit := do
  revalidateParent root pinned components r
  let e ← orFail (lstat pinned name) r .RACE_DETECTED
    ("published destination changed after mutation; " ++ MANAGED_ROOT_TRUST_BOUNDARY)
  if kindOf e = .symlink ∨ e.uid ≠ root.trustedOwnerUid ∨ e.ino ≠ ino then
    fail r .RACE_DETECTED
      ("published destination identity changed after mutation; " ++ MANAGED_ROOT_TRUST_BOUNDARY)
  else Program.ret ()

/-- `_sync`. -/
def sync (r : Request) : FileProgram Unit :=
  orFail touch r .DURABILITY_UNAVAILABLE
    "filesystem could not provide the required durability sync"

end ManagedRoot

end Filesystem

end Ophelia
