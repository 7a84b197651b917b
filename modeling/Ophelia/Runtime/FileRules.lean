import Ophelia.Runtime.Files

/-!
# Ophelia.Runtime.FileRules

What the programs of `Files` keep. A property of the disk is kept by a program when each call
the program may make keeps it; the rules below reduce reading and removing to these calls.
-/

namespace Ophelia.V1

open FileTree Program

variable {α : Type} {fs : FileSystem} {P : RuntimeDisk → Prop}

/-- A program keeps a property of the disk. -/
def KeepsDisk (P : RuntimeDisk → Prop) (m : Filing α) : Prop :=
  Keeps (fun host => P host.disk) m

/-- A call with which the property stays true. -/
def Harmless (P : RuntimeDisk → Prop) (op : RuntimeDisk → Except Disk.CallError RuntimeDisk) : Prop :=
  ∀ disk disk', P disk → op disk = .ok disk' → P disk'

/-! ### What stands at a path -/

/-- The entries of the directory that a path leads to. -/
def Listed (fs : FileSystem) (disk : RuntimeDisk) (path : RuntimePath)
    (entries : List (String × Option (FileTree.Node String (List UInt8)))) : Prop :=
  ∃ place, resolve disk.view fs.links [] path = .ok place ∧
    (disk.view place).any FileTree.Node.isDirectory = true ∧
    entries = (disk.children place).map fun name => (name, disk.view (place ++ [name]))

/-! ### Calls -/

namespace KeepsDisk

theorem nextFault : KeepsDisk P nextFault := fun _ h => h

theorem call {op : RuntimeDisk → Except Disk.CallError RuntimeDisk} (h : Harmless P op) :
    KeepsDisk P (V1.call op) := by
  refine Keeps.bind nextFault fun fault => ?_
  cases fault with
  | none =>
      refine Triple.bind_get fun host hhost => ?_
      cases hop : op host.disk with
      | error e => exact Triple.raise fun t ht => ht ▸ hhost
      | ok disk => exact Triple.modify fun t ht => h _ _ hhost hop
  | refused => exact Keeps.raise
  | torn content => exact Keeps.raise

theorem observe : KeepsDisk P V1.observe := by
  refine Keeps.bind nextFault fun fault => ?_
  cases fault with
  | none => exact Keeps.pure
  | refused => exact Keeps.raise
  | torn content => exact Keeps.raise

/-- A program that first looks at the disk. -/
theorem bind_readDisk {f : RuntimeDisk → Filing α} (h : ∀ disk, P disk → KeepsDisk P (f disk)) :
    KeepsDisk P (V1.readDisk >>= f) := by
  refine Triple.bind (R := fun disk host => P disk ∧ P host.disk) ?_ fun disk host hhost =>
    h disk hhost.1 host hhost.2
  exact Triple.bind_get fun host hhost => Triple.pure fun t ht => by
    rw [ht]
    exact ⟨hhost, hhost⟩

/-- From a disk with the property the program keeps it. -/
def From (P : RuntimeDisk → Prop) (disk : RuntimeDisk) (m : Filing α) : Prop :=
  Triple (fun host => host.disk = disk) m (fun _ host => P host.disk) (fun _ host => P host.disk)
    fun host => P host.disk

theorem From.of_keeps {disk : RuntimeDisk} {m : Filing α} (hdisk : P disk) (h : KeepsDisk P m) :
    From P disk m :=
  h.pre fun _ hhost => hhost ▸ hdisk

theorem From.readDisk {disk : RuntimeDisk} {f : RuntimeDisk → Filing α} (h : From P disk (f disk)) :
    From P disk (V1.readDisk >>= f) := by
  refine Triple.bind (R := fun disk' host => disk' = disk ∧ host.disk = disk) ?_
    fun disk' host hhost => ?_
  · exact Triple.bind_get fun host hhost => Triple.pure fun t ht => by
      rw [ht]
      exact ⟨hhost, hhost⟩
  · obtain ⟨rfl, hhost⟩ := hhost
    exact h host hhost

/-! ### Trees -/

theorem triple_scandir (path : RuntimePath) :
    Triple (fun host => P host.disk) (scandir fs path)
      (fun entries host => P host.disk ∧ Listed fs host.disk path entries)
      (fun _ host => P host.disk) fun host => P host.disk := by
  refine Triple.bind (observe : KeepsDisk P V1.observe) fun _ => ?_
  refine Triple.bind (R := fun disk host => P host.disk ∧ host.disk = disk) ?_ fun disk => ?_
  · exact Triple.bind_get fun host hhost => Triple.pure fun t ht => by
      rw [ht]
      exact ⟨hhost, rfl⟩
  split
  · exact Triple.raise fun _ h => h.1
  · rename_i place hplace
    refine Triple.ite (fun hdir => Triple.pure fun host h => ⟨h.1, ?_⟩) fun _ =>
      Triple.raise fun _ h => h.1
    rw [h.2]
    exact ⟨place, hplace, hdir, rfl⟩

end KeepsDisk

/-! ### Removing -/

/-- A place may lose what stands there. -/
def Removes (P : RuntimeDisk → Prop) (place : List String) : Prop :=
  ∀ disk disk', P disk → Disk.Sets disk disk' place none → P disk'

/-- Nothing has come new or changed. -/
def Shrunk (base disk : RuntimeDisk) : Prop :=
  ∀ place, disk.view place = base.view place ∨ disk.view place = none

namespace Shrunk

variable {base disk disk' : RuntimeDisk} {place : List String}

theorem refl (disk : RuntimeDisk) : Shrunk disk disk := fun _ => .inl rfl

theorem removes (base : RuntimeDisk) (place : List String) : Removes (Shrunk base) place := by
  intro disk disk' hdisk hsets q
  rw [hsets q]
  by_cases hq : q = place
  · exact .inr (if_pos hq)
  · rw [if_neg hq]
    exact hdisk q

theorem view_eq (h : Shrunk base disk) {node} (hnode : disk.view place = some node) :
    base.view place = some node := by
  cases h place with
  | inl heq => exact heq ▸ hnode
  | inr hnone =>
      rw [hnone] at hnode
      cases hnode

end Shrunk

namespace KeepsDisk

variable {base : RuntimeDisk}

theorem removeEntries {sub : RuntimePath → Filing Unit} {path : RuntimePath}
    {entries : List (String × Option (FileTree.Node String (List UInt8)))}
    (h : ∀ name node, (name, node) ∈ entries → KeepsDisk P (removeEntry fs sub path name node)) :
    KeepsDisk P (V1.removeEntries fs sub path entries) := by
  induction entries with
  | nil => exact Keeps.pure
  | cons entry rest ih =>
      obtain ⟨name, node⟩ := entry
      exact Keeps.bind (h name node List.mem_cons_self) fun _ =>
        ih fun name node hmem => h name node (List.mem_cons_of_mem _ hmem)

end KeepsDisk

end Ophelia.V1
