import Mathlib.Data.List.Infix
import Ophelia.Lib.FileTree

/-!
# Ophelia.Lib.Mirror

A mirror of one file tree onto another, with exclusions. An excluded entry, and everything below
it, is hidden: the source does not send it, and the receiver neither changes nor deletes it.
Everything else of the source is sent. With `delete`, everything else of the receiver that the
source does not send goes, except for the directories that hold hidden entries.
-/

namespace Mirror

open FileTree

variable {ν β : Type} [DecidableEq ν]

/-- An exclusion by name, at any depth. -/
structure Pattern (ν : Type) where
  name : ν
  directoryOnly : Bool
deriving DecidableEq

structure Options (ν : Type) where
  delete : Bool
  excludes : List (Pattern ν)

def Pattern.covers (pattern : Pattern ν) (name : ν) (node : Node ν β) : Bool :=
  pattern.name = name && (!pattern.directoryOnly || node.isDirectory)

/-- An entry matches an exclusion. -/
def excluded (excludes : List (Pattern ν)) (view : View ν β) (path : List ν) : Bool :=
  match path.getLast?, view path with
  | some name, some node => excludes.any fun pattern => pattern.covers name node
  | _, _ => false

/-- The entry, or one that it is below, matches an exclusion. -/
def hidden (excludes : List (Pattern ν)) (view : View ν β) (path : List ν) : Bool :=
  path.inits.any (excluded excludes view)

/-- A hidden entry is below the path. -/
def shelters (excludes : List (Pattern ν)) (disk : Disk ν β) (path : List ν) : Bool :=
  disk.slots.rows.any fun slot =>
    decide (slot.path ≠ path) && path.isPrefixOf slot.path &&
      hidden excludes disk.view slot.path

/-- What the source sends. -/
def sent (excludes : List (Pattern ν)) (source : Disk ν β) (path : List ν) :
    Option (Node ν β) :=
  if hidden excludes source.view path then none else source.view path

/-- What stands under a path of the receiver afterwards. A directory that shelters hidden entries
cannot make way for anything. -/
def mirror (options : Options ν) (source receiver : Disk ν β) : View ν β := fun path =>
  if hidden options.excludes receiver.view path then receiver.view path
  else
    match sent options.excludes source path with
    | some node =>
        if shelters options.excludes receiver path && !node.isDirectory then receiver.view path
        else some node
    | none =>
        if shelters options.excludes receiver path || !options.delete then receiver.view path
        else none

variable {options : Options ν} {source receiver : Disk ν β} {path : List ν} {node : Node ν β}

/-- Only a directory shelters anything. -/
theorem isDirectory_of_shelters {excludes : List (Pattern ν)} {disk : Disk ν β}
    (h : shelters excludes disk path = true) : (disk.view path).any Node.isDirectory = true := by
  simp only [shelters, List.any_eq_true, Bool.and_eq_true, decide_eq_true_eq,
    List.isPrefixOf_iff_prefix] at h
  obtain ⟨slot, hmem, ⟨hne, hpre⟩, -⟩ := h
  by_cases hnil : path = []
  · rw [hnil]
    rfl
  · have hslot : disk.view slot.path = some slot.node := by
      rw [Disk.view, viewOf, if_neg (disk.closed slot hmem).1, Table.get?_of_mem hmem]
      rfl
    have hbelow := prefix_dropLast_of_ne hpre (Ne.symm hne)
    obtain ⟨mode, hmode⟩ := Disk.opened_of_view hslot path hbelow hnil
    rw [hmode]
    rfl

/-- A file does not shelter anything. -/
theorem shelters_eq_false {excludes : List (Pattern ν)} {disk : Disk ν β}
    (hnode : disk.view path = some node) (hfile : node.isDirectory = false) :
    shelters excludes disk path = false := by
  rw [← Bool.not_eq_true]
  intro h
  have hdirectory := isDirectory_of_shelters h
  rw [hnode] at hdirectory
  exact Bool.noConfusion (hfile.symm.trans hdirectory)

/-- A file of the source is there afterwards exactly when it is sent and nothing is in its way,
or when it was there before, hidden. -/
theorem mirror_eq_source_iff (hdelete : options.delete = true)
    (hnode : source.view path = some node) (hfile : node.isDirectory = false) :
    mirror options source receiver path = some node ↔
      (hidden options.excludes receiver.view path = true ∧ receiver.view path = some node) ∨
      (hidden options.excludes receiver.view path = false ∧
        hidden options.excludes source.view path = false ∧
        shelters options.excludes receiver path = false) := by
  unfold mirror sent
  cases hreceiver : hidden options.excludes receiver.view path with
  | true => simp
  | false =>
      cases hsource : hidden options.excludes source.view path with
      | true =>
          -- nothing is sent, and what may stay is a directory
          cases hshelters : shelters options.excludes receiver path with
          | false => simp [hdelete]
          | true =>
              have hother : receiver.view path ≠ some node := fun h => by
                rw [shelters_eq_false h hfile] at hshelters
                cases hshelters
              simp [hother]
      | false =>
          cases hshelters : shelters options.excludes receiver path with
          | false => simp [hnode]
          | true =>
              have hother : receiver.view path ≠ some node := fun h => by
                rw [shelters_eq_false h hfile] at hshelters
                cases hshelters
              simp [hnode, hfile, hother]

/-- An entry of the receiver stays as it is exactly when it is hidden, when the source sends the
same, or when it shelters hidden entries and no directory is sent in its place. -/
theorem mirror_eq_receiver_iff (hdelete : options.delete = true)
    (hnode : receiver.view path = some node) :
    mirror options source receiver path = some node ↔
      hidden options.excludes receiver.view path = true ∨
      sent options.excludes source path = some node ∨
      (shelters options.excludes receiver path = true ∧
        (sent options.excludes source path).any Node.isDirectory = false) := by
  unfold mirror
  cases hreceiver : hidden options.excludes receiver.view path with
  | true => simp [hnode]
  | false =>
      cases hsent : sent options.excludes source path with
      | none =>
          cases hshelters : shelters options.excludes receiver path with
          | false => simp [hdelete]
          | true => simp [hnode]
      | some other =>
          cases hshelters : shelters options.excludes receiver path with
          | false => simp
          | true =>
              cases hdirectory : other.isDirectory with
              | true => simp [hdirectory]
              | false => simp [hnode, hdirectory]

end Mirror
