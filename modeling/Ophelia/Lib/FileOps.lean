import Ophelia.Lib.FileTree

/-!
# Ophelia.Lib.FileOps

The system calls that remove from a disk, on paths that may go up. Every call that goes through
changes one place and nothing else (`Sets`); the lemma of a call names the place.
-/

namespace FileTree

variable {ν β : Type}

/-- Steps from the root. -/
abbrev Path (ν : Type) := List (Step ν)

/-- The path of a place. -/
def pathOf (place : List ν) : Path ν := place.map .down

namespace Disk

variable [DecidableEq ν]

/-! ### Reading -/

/-- The place of the last name of a path, a link there not followed. -/
def entry (disk : Disk ν β) (links : Nat) (path : Path ν) : Except LookupError (List ν) :=
  match path.getLast? with
  | some (.down name) => do
      let dir ← resolve disk.view links [] path.dropLast
      if (disk.view dir).any Node.isDirectory then .ok (dir ++ [name]) else .error .notDirectory
  | _ => resolve disk.view links [] path

/-- The node under the last name of a path. -/
def entryNode (disk : Disk ν β) (links : Nat) (path : Path ν) : Option (Node ν β) :=
  match disk.entry links path with
  | .ok place => disk.view place
  | .error _ => none

/-- The node that a path leads to. -/
def target (disk : Disk ν β) (links : Nat) (path : Path ν) : Option (Node ν β) :=
  match resolve disk.view links [] path with
  | .ok place => disk.view place
  | .error _ => none

/-- The names in a directory. -/
def children (disk : Disk ν β) (place : List ν) : List ν :=
  disk.slots.rows.filterMap fun slot =>
    if slot.path.dropLast = place then slot.path.getLast? else none

/-! ### Removing -/

/-- A place that nothing stands below. -/
def Bare (disk : Disk ν β) (place : List ν) : Prop :=
  ∀ slot ∈ disk.slots.rows, slot.path.dropLast ≠ place

instance (disk : Disk ν β) (place : List ν) : Decidable (disk.Bare place) :=
  inferInstanceAs (Decidable (∀ slot ∈ disk.slots.rows, slot.path.dropLast ≠ place))

theorem viewOf_erase (slots : Table (Slot.path : Slot ν β → List ν)) {place : List ν}
    (hne : place ≠ []) (path : List ν) :
    viewOf (slots.erase place) path = if path = place then none else viewOf slots path := by
  unfold viewOf
  rw [Table.get?_erase]
  by_cases hpath : path = place
  · rw [if_pos hpath, if_pos hpath, if_neg (hpath ▸ hne)]
    rfl
  · rw [if_neg hpath, if_neg hpath]

/-- Take a bare place off the disk. -/
def remove (disk : Disk ν β) (place : List ν) (hne : place ≠ []) (h : disk.Bare place) :
    Disk ν β where
  slots := disk.slots.erase place
  closed := by
    intro slot hslot
    have hmem := (Table.mem_erase.mp hslot).1
    obtain ⟨hpath, hparent⟩ := disk.closed slot hmem
    refine ⟨hpath, ?_⟩
    rw [viewOf_erase _ hne, if_neg (h slot hmem)]
    exact hparent

/-! ### The calls -/

inductive CallError where
  | lookup (e : LookupError)
  | taken
  | isDirectory
  | notDirectory
  | notEmpty
  | special
deriving DecidableEq

/-- `unlink`. -/
def unlinkAt (disk : Disk ν β) (links : Nat) (path : Path ν) : Except CallError (Disk ν β) :=
  match disk.entry links path with
  | .error e => .error (.lookup e)
  | .ok place =>
      match disk.view place with
      | none => .error (.lookup .missing)
      | some (.directory _) => .error .isDirectory
      | some _ =>
          if h : place ≠ [] ∧ disk.Bare place then .ok (disk.remove place h.1 h.2)
          else .error .isDirectory

/-- `rmdir`. -/
def rmdirAt (disk : Disk ν β) (links : Nat) (path : Path ν) : Except CallError (Disk ν β) :=
  match disk.entry links path with
  | .error e => .error (.lookup e)
  | .ok place =>
      match disk.view place with
      | none => .error (.lookup .missing)
      | some (.directory _) =>
          if h : place ≠ [] ∧ disk.Bare place then .ok (disk.remove place h.1 h.2)
          else .error .notEmpty
      | some _ => .error .notDirectory

/-! ### What the calls change -/

/-- One place has been given a node, or has lost the one it had. -/
def Sets (disk disk' : Disk ν β) (place : List ν) (node : Option (Node ν β)) : Prop :=
  ∀ q, disk'.view q = if q = place then node else disk.view q

section Spec

variable {disk disk' : Disk ν β} {links mode : Nat} {path : Path ν} {node : Node ν β} {content : β}

theorem sets_remove {place : List ν} (hne : place ≠ []) (h : disk.Bare place) :
    Sets disk (disk.remove place hne h) place none :=
  fun q => viewOf_erase disk.slots hne q

theorem unlinkAt_eq_ok (h : disk.unlinkAt links path = .ok disk') :
    ∃ place node, disk.entry links path = .ok place ∧ disk.view place = some node ∧
      node.isDirectory = false ∧ Sets disk disk' place none := by
  unfold unlinkAt at h
  split at h
  · cases h
  · rename_i place hplace
    split at h
    · cases h
    · cases h
    · rename_i node hdirectory hnode
      split at h
      · obtain rfl := Except.ok.inj h
        refine ⟨place, node, hplace, hnode, ?_, sets_remove _ _⟩
        cases node with
        | directory mode => exact absurd rfl (hdirectory mode)
        | _ => rfl
      · cases h

theorem rmdirAt_eq_ok (h : disk.rmdirAt links path = .ok disk') :
    ∃ place mode, disk.entry links path = .ok place ∧ disk.view place = some (.directory mode) ∧
      Sets disk disk' place none := by
  unfold rmdirAt at h
  split at h
  · cases h
  · rename_i place hplace
    split at h
    · cases h
    · rename_i mode hnode
      split at h
      · obtain rfl := Except.ok.inj h
        exact ⟨place, mode, hplace, hnode, sets_remove _ _⟩
      · cases h
    · cases h

end Spec

end Disk

end FileTree
