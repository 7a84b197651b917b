import Ophelia.Lib.PyText
import Ophelia.Runtime.ManagedRoot

/-!
# Ophelia.Runtime.AtomicMutation

The mutation itself (`_atomic_file_mutation` in `filesystem.py`), and the three operations that are
made of it.
-/

namespace Ophelia

namespace Filesystem

namespace ManagedRoot

/-! ### The temporary file -/

/-- The name of the n-th try. -/
def temporaryName (process : Process) (n : Nat) : Name := TEMP_PREFIX ++ process.token n

/-- The tries of `_create_temporary` that are left. -/
def tryTemporary (process : Process) (dir : DirId) (r : Request) : Nat → FileProgram Name
  | 0 => fail r .IO_FAILURE "could not allocate a unique temporary file"
  | tries + 1 => do
      let name := temporaryName process (127 - tries)
      let created ← onOSError (createFile process dir name >>= fun _ => Program.ret true)
        fun errno =>
          if errno = .eexist then Program.ret false
          else fail r .IO_FAILURE "could not create destination-local temporary file"
      if created = true then Program.ret name else tryTemporary process dir r tries

/-- `_create_temporary`. -/
def createTemporary (process : Process) (dir : DirId) (r : Request) : FileProgram Name :=
  tryTemporary process dir r 128

/-- Mode and owner of the temporary file; its identity. -/
def secureTemporary (root : ManagedRoot) (dir : DirId) (name : Name) (mode : Nat) (r : Request) :
    FileProgram Nat :=
  orFail (do
    fchmod dir name mode
    let e ← lstat dir name
    if kindOf e ≠ .regular then
      fail r .INVALID_DESTINATION "temporary destination is not a regular file"
    else if e.uid ≠ root.trustedOwnerUid then
      fail r .UNSAFE_OWNER "temporary destination is not owned by trusted_owner_uid"
    else Program.ret e.ino) r .IO_FAILURE "could not secure temporary file"

/-- A call that is made again when it was interrupted. -/
def unlessInterrupted {α : Type} (m : FileProgram α) (r : Request) (message : String) :
    FileProgram (Option α) :=
  onOSError (m >>= fun a => Program.ret (some a)) fun errno =>
    if errno = .eintr then Program.ret none else fail r .IO_FAILURE message

/-- A loop; each of its rounds makes a call. -/
def whileCalls {α β : Type} (body : α → FileProgram (α ⊕ β)) (a : α) : FileProgram β := fun w =>
  Program.iterate body (w.turns.length + 1) a w

/-- One round of `_write_all`. -/
def writeRound (dir : DirId) (name : Name) (r : Request) (remaining : Octets) :
    FileProgram (Octets ⊕ Unit) :=
  if remaining = [] then Program.ret (.inr ())
  else do
    match ← unlessInterrupted (osWrite dir name remaining) r "could not write temporary file" with
    | none => Program.ret (.inl remaining)
    | some written =>
        if written = 0 then fail r .IO_FAILURE "temporary file write made no progress"
        else Program.ret (.inl (remaining.drop written))

/-- `_write_all`. -/
def writeAll (dir : DirId) (name : Name) (r : Request) (data : Octets) : FileProgram Unit :=
  whileCalls (writeRound dir name r) data

/-- `_source_signature(os.fstat(source_fd))`; a number stands for each signature. -/
def sourceSignature : FileProgram Nat := call fun count w => .ok (w, count)

/-- One round of `copy_content`. -/
def copyRound (dir : DirId) (name : Name) (r : Request) (signature : Nat) (_ : Unit) :
    FileProgram (Unit ⊕ Unit) := do
  match ← unlessInterrupted osRead r "could not read copy source" with
  | none => Program.ret (.inl ())
  | some [] =>
      let final ← orFail sourceSignature r .IO_FAILURE "could not re-inspect copy source"
      if final ≠ signature then
        fail r .SOURCE_CHANGED "copy source changed while it was being streamed"
      else Program.ret (.inr ())
  | some chunk =>
      writeAll dir name r chunk
      Program.ret (.inl ())

/-- `copy_content`. -/
def copyContent (signature : Nat) (r : Request) (dir : DirId) (name : Name) : FileProgram Unit :=
  whileCalls (copyRound dir name r signature) ()

/-! ### Cleanup -/

/-- `_cleanup_temporary_entry`, for a file. -/
def cleanupTemporaryEntry (dir : DirId) (name : Name) : FileProgram (List String) := do
  let removed ← onOSError (unlink dir name >>= fun _ => Program.ret []) fun errno =>
    if errno = .enoent then Program.ret [] else Program.ret ["unlink_temporary_file"]
  let synced ← onOSError (touch >>= fun _ => Program.ret []) fun _ =>
    Program.ret ["fsync_destination_parent_after_cleanup"]
  return removed ++ synced

/-- What `_combined_cleanup_error` says of the first error. -/
def primaryCode : Option Raised → Option String
  | none => none
  | some (.safety e) => some e.code.value
  | some (.os errno) => some errno.exceptionName
  | some .unsupported => some "NotImplementedError"

/-- `_combined_cleanup_error`. -/
def combinedCleanupError (primary : Option Raised) (r : Request) (failures : List String) :
    Raised :=
  .safety {
    code := .CLEANUP_FAILURE
    operation := r.operation
    path := some r.display
    message := "filesystem operation did not complete cleanly and temporary cleanup failed"
    primaryErrorCode := primaryCode primary
    cleanupFailures := failures }

/-- The end of a `try` whose exception was kept: the cleanup failures or the exception. -/
def conclude (primary : Option Raised) (r : Request) (failures : List String) :
    FileProgram Unit :=
  if failures ≠ [] then Program.raise (combinedCleanupError primary r failures)
  else
    match primary with
    | some e => Program.raise e
    | none => Program.ret ()

/-- `os.close(fd)` in a `finally`. -/
def closeNoting (label : String) : FileProgram (List String) :=
  onOSError (touch >>= fun _ => Program.ret []) fun _ => Program.ret [label]

/-- A temporary entry that was not renamed is removed. -/
def removeTemporary (dir : DirId) (l : Locals) : FileProgram (List String) :=
  match l.temporaryName, l.committed with
  | some name, false => cleanupTemporaryEntry dir name
  | _, _ => Program.ret []

/-- A descriptor of the temporary file that is still open is closed. -/
def closeTemporary (l : Locals) : FileProgram (List String) :=
  if l.temporaryFd = true then closeNoting "close_temporary_file" else Program.ret []

/-- The `finally` of the mutation, with the local variables it finds. -/
def cleanUpWith (dir : DirId) (l : Locals) : FileProgram (List String) := do
  let closed ← closeTemporary l
  let removed ← removeTemporary dir l
  let parent ← closeNoting "close_destination_parent"
  return closed ++ removed ++ parent

/-- The `finally` of the mutation. -/
def cleanUp (dir : DirId) : FileProgram (List String) := do
  let w ← Program.get
  cleanUpWith dir w.locals

/-! ### The mutation -/

def setLocals (f : Locals → Locals) : FileProgram Unit :=
  Program.modify fun w => { w with locals := f w.locals }

/-- The `try` of the mutation. -/
def mutate (process : Process) (root : ManagedRoot) (dir : DirId) (components : List Name)
    (name : Name) (mode : Nat) (content : DirId → Name → FileProgram Unit) (r : Request)
    (requireExisting : Bool) : FileProgram Unit := do
  revalidateParent root dir components r
  requireRegularDestination dir name r requireExisting
  let temporary ← createTemporary process dir r
  setLocals fun l => { l with temporaryName := some temporary, temporaryFd := true }
  let identity ← secureTemporary root dir temporary mode r
  content dir temporary
  sync r
  touch
  setLocals fun l => { l with temporaryFd := false }
  revalidateParent root dir components r
  requireRegularDestination dir name r requireExisting
  (onOSError (replace process dir temporary name) fun errno =>
    mutationOSError errno dir name r).handle fun e =>
      match e with
      | .unsupported => fail r .UNSUPPORTED_PLATFORM
          "descriptor-relative atomic replacement is unavailable"
      | e => Program.raise e
  setLocals fun l => { l with committed := true }
  sync r
  postMutationRevalidate root dir components name identity r

/-- `_atomic_file_mutation`. -/
def atomicFileMutation (process : Process) (root : ManagedRoot) (components : List Name)
    (mode : Nat) (content : DirId → Name → FileProgram Unit) (r : Request)
    (requireExisting : Bool) : FileProgram Unit := do
  let dir ← walkDirectories root components.dropLast r
  let name := components.getLast?.getD []
  let primary ← Program.attempt
    (mutate process root dir components.dropLast name mode content r requireExisting)
  let failures ← cleanUp dir
  conclude primary r failures

/-! ### Operations -/

/-- `unicodedata.category(c) == "Cc"`. -/
def isControl (c : Char) : Bool := c.toNat < 32 || (127 ≤ c.toNat && c.toNat ≤ 159)

def invalidPath (operation : String) (display : Name) (message : String) : Raised :=
  .safety { code := .INVALID_PATH, operation, path := some display, message }

/-- `_destination_components`. -/
def destinationComponents (path : Name) (operation : String) : Except Raised (List Name) :=
  if path = [] then .error (invalidPath operation path "path must not be empty")
  else if path.any isControl then
    .error (invalidPath operation path "path must not contain control characters")
  else if path.head? = some '/' then
    .error (invalidPath operation path "destination path must be relative")
  else if path.getLast? = some '/' then
    .error (invalidPath operation path "destination path must not end with a separator")
  else
    let components := path.splitOn '/'
    if components.any fun c => decide (c = []) then
      .error (invalidPath operation path "destination path must not contain empty components")
    else if components.any fun c => decide (c = ['.'] ∨ c = ['.', '.']) then
      .error (invalidPath operation path "destination path must not contain dot segments")
    else .ok components

/-- `_validate_mode`. -/
def validateMode (mode : Int) (r : Request) : Except Raised Nat :=
  if mode < 0 ∨ mode.toNat &&& DEFAULT_FILE_MODE ≠ mode.toNat then
    .error (.safety {
      code := .INVALID_MODE, operation := r.operation, path := some r.display
      message := "mode must contain owner permission bits only" })
  else .ok mode.toNat

/-- What `write_bytes` and `replace_bytes` share. -/
def writeFile (process : Process) (root : ManagedRoot) (r : Request) (data : Octets) (mode : Int)
    (requireExisting : Bool) : FileProgram Unit := do
  let components ← Program.ofExcept (destinationComponents r.display r.operation)
  let mode ← Program.ofExcept (validateMode mode r)
  atomicFileMutation process root components mode
    (fun dir name => writeAll dir name r data) r requireExisting

/-- `write_bytes`. -/
def writeBytes (process : Process) (root : ManagedRoot) (path : Name) (data : Octets)
    (mode : Int) : FileProgram Unit :=
  writeFile process root ⟨"write_bytes", path⟩ data mode false

/-- `replace_bytes`. -/
def replaceBytes (process : Process) (root : ManagedRoot) (path : Name) (data : Octets)
    (mode : Int) : FileProgram Unit :=
  writeFile process root ⟨"replace_bytes", path⟩ data mode true

/-- What the path of a source leads to. -/
inductive Source where
  | regular (content : Octets)
  | symlink
  | special
  | missing

/-- The first checks of a source path. -/
def sourcePath (path : Name) : Except Raised Unit :=
  if path = [] then .error (invalidPath "copy_in" path "path must not be empty")
  else if path.contains '\x00' then
    .error (invalidPath "copy_in" path "path must not contain control characters")
  else .ok ()

/-- `os.open(source, O_RDONLY | O_NOFOLLOW | O_CLOEXEC)`: from here on, its content is to be
read. -/
def openSource (source : Source) : FileProgram Unit :=
  call fun _ w =>
    match source with
    | .regular content => .ok ({ w with unread := content }, ())
    | .special => .ok (w, ())
    | .symlink => .error .eloop
    | .missing => .error .enoent

/-- The `try` of `copy_in`. -/
def copyOpened (process : Process) (root : ManagedRoot) (r : Request) (source : Source)
    (components : List Name) (mode : Nat) : FileProgram Unit := do
  let signature ← orFail sourceSignature r .IO_FAILURE "could not inspect copy source"
  match source with
  | .regular _ =>
      atomicFileMutation process root components mode (copyContent signature r) r false
  | _ => fail r .INVALID_SOURCE "copy source must be a regular file"

/-- `copy_in`, with what the path of the source leads to. -/
def copyIn (process : Process) (root : ManagedRoot) (path : Name) (source : Source)
    (destination : Name) (mode : Int) : FileProgram Unit := do
  let r : Request := ⟨"copy_in", destination⟩
  Program.ofExcept (sourcePath path)
  let components ← Program.ofExcept (destinationComponents destination "copy_in")
  let mode ← Program.ofExcept (validateMode mode r)
  orFail (openSource source) r .INVALID_SOURCE "copy source must be a non-symlink regular file"
  let primary ← Program.attempt (copyOpened process root r source components mode)
  let failures ← closeNoting "close_copy_source"
  conclude primary r failures

end ManagedRoot

end Filesystem

end Ophelia
