import Ophelia.Lib.FileOps
import Ophelia.Lib.Program
import Ophelia.Runtime.DataExport

/-!
# Ophelia.Runtime.Files

How the version 1 runtime removes files: `pathlib`, `os` and `shutil` as far as `gc.py` uses
them. Every call goes to the host, which may refuse it for reasons of its own (`Fault`), so a
program may raise between any two changes.
-/

namespace Ophelia.V1

open FileTree PyText

abbrev RuntimeDisk := Disk String (List UInt8)

/-- What is raised. The message of an error of the host is left out. -/
inductive FileError where
  | call (e : Disk.CallError)
  | host
  | value (message : String)
  | runtime (message : String)
deriving DecidableEq

/-- What the host does to a call. A write that is torn leaves another content behind. -/
inductive Fault where
  | none
  | refused
  | torn (content : List UInt8)

structure FileHost where
  disk : RuntimeDisk
  /-- The faults of the calls to come. -/
  faults : List Fault := []

/-- What a program takes from the host. -/
structure FileSystem where
  /-- How many links the kernel follows in one lookup. -/
  links : Nat
  /-- How deep a path may be. -/
  depth : Nat
  directoryMode : Nat
  fileMode : Nat
  home : String → Option (List String)

abbrev Filing := Program FileHost FileError

abbrev RuntimePath := FileTree.Path String

def stepText : Step String → String
  | .up => ".."
  | .down name => name

def pathString (path : RuntimePath) : String :=
  "/" ++ String.intercalate "/" (path.map stepText)

variable (fs : FileSystem)

/-! ### Calls -/

def nextFault : Filing Fault := fun host =>
  ({ host with faults := host.faults.tail }, .returned (host.faults.headD .none))

/-- A call that the host may refuse. -/
def call (op : RuntimeDisk → Except Disk.CallError RuntimeDisk) : Filing Unit := do
  match ← nextFault with
  | .none =>
      let host ← Program.get
      match op host.disk with
      | .ok disk => Program.modify fun host => { host with disk }
      | .error e => Program.raise (.call e)
  | _ => Program.raise .host

/-- A call that only reads. -/
def observe : Filing Unit := do
  match ← nextFault with
  | .none => return ()
  | _ => Program.raise .host

def osUnlink (path : RuntimePath) : Filing Unit :=
  call fun disk => disk.unlinkAt fs.links path

def osRmdir (path : RuntimePath) : Filing Unit :=
  call fun disk => disk.rmdirAt fs.links path

/-! ### Questions -/

def isSymlinkAt (disk : RuntimeDisk) (path : RuntimePath) : Bool :=
  (disk.entryNode fs.links path).any FileTree.Node.isLink

def existsAt (disk : RuntimeDisk) (path : RuntimePath) : Bool :=
  (disk.target fs.links path).isSome

def isDirAt (disk : RuntimeDisk) (path : RuntimePath) : Bool :=
  (disk.target fs.links path).any FileTree.Node.isDirectory

def isFileAt (disk : RuntimeDisk) (path : RuntimePath) : Bool :=
  (disk.target fs.links path).any FileTree.Node.isRegular

def readDisk : Filing RuntimeDisk := do
  let host ← Program.get
  return host.disk

/-! ### `Path.resolve(strict=False)` -/

/-- Take the steps from a directory. What is missing is taken as it is written. -/
def realWalk (view : View String (List UInt8)) (follow : List String → RuntimePath → Option (List String)) :
    List String → RuntimePath → Option (List String)
  | dir, [] => some dir
  | dir, .up :: rest => realWalk view follow dir.dropLast rest
  | dir, .down name :: rest =>
      match view (dir ++ [name]) with
      | some (.link steps) => (follow dir steps).bind fun place => realWalk view follow place rest
      | _ => realWalk view follow (dir ++ [name]) rest

/-- `none` says that a link leads back to itself: more links are open than there are. -/
def realPlace (view : View String (List UInt8)) : Nat → List String → RuntimePath → Option (List String)
  | 0 => realWalk view fun _ _ => none
  | links + 1 => realWalk view (realPlace view links)

def resolvedPath (disk : RuntimeDisk) (path : RuntimePath) : Except FileError (List String) :=
  match realPlace disk.view (disk.slots.rows.filter fun slot => slot.node.isLink).length [] path with
  | some place => .ok place
  | none => .error (.runtime ("Symlink loop from '" ++ pathString path ++ "'"))

/-! ### `shutil` -/

/-- `os.scandir`: the names in a directory with what they stand for. -/
def scandir (path : RuntimePath) : Filing (List (String × Option (FileTree.Node String (List UInt8)))) := do
  observe
  let disk ← readDisk
  match resolve disk.view fs.links [] path with
  | .error e => Program.raise (.call (.lookup e))
  | .ok place =>
      if (disk.view place).any FileTree.Node.isDirectory then
        return (disk.children place).map fun name => (name, disk.view (place ++ [name]))
      else Program.raise (.call .notDirectory)

/-- One entry of a directory that is removed. -/
def removeEntry (removeSub : RuntimePath → Filing Unit) (path : RuntimePath) (name : String) :
    Option (FileTree.Node String (List UInt8)) → Filing Unit
  | some (.directory _) => removeSub (path ++ [.down name])
  | _ => osUnlink fs (path ++ [.down name])

def removeEntries (removeSub : RuntimePath → Filing Unit) (path : RuntimePath) :
    List (String × Option (FileTree.Node String (List UInt8))) → Filing Unit
  | [] => return ()
  | (name, node) :: rest => do
      removeEntry fs removeSub path name node
      removeEntries removeSub path rest

/-- `shutil.rmtree`, of a directory that is no link. -/
def rmtree : Nat → RuntimePath → Filing Unit
  | 0, _ => Program.raise .host
  | depth + 1, path => do
      let entries ← scandir fs path
      removeEntries fs (rmtree depth) path entries
      osRmdir fs path

end Ophelia.V1
