import Mathlib.Data.List.Infix
import Ophelia.Lib.Table

/-!
# Ophelia.Lib.FileTree

A hierarchical file system with symbolic links. A disk is a table of named nodes in which
every node stands in a directory, so that a file below a file cannot be built. A path is
looked up the way a kernel does it: component by component, through the links it meets, and
with a bound on how many of them one lookup follows.

What a lookup reaches is canonical: it stands below directories only. So two different ways
to the same place differ in nothing but the links they pass, and a relative link from one
canonical place to another leads where the absolute path leads.
-/

namespace FileTree

/-- One step of a relative path. -/
inductive Step (ν : Type) where
  | up
  | down (name : ν)
deriving DecidableEq

/-- What a name stands for. A link holds a relative path. -/
inductive Node (ν β : Type) where
  | directory (mode : Nat)
  | regular (mode : Nat) (content : β)
  | link (steps : List (Step ν))
  | special
deriving DecidableEq

variable {ν β : Type}

def Node.isDirectory : Node ν β → Bool
  | .directory _ => true
  | _ => false

def Node.isRegular : Node ν β → Bool
  | .regular _ _ => true
  | _ => false

def Node.isLink : Node ν β → Bool
  | .link _ => true
  | _ => false

/-- What every path below the root stands for, links not followed. -/
abbrev View (ν β : Type) := List ν → Option (Node ν β)

/-! ### Lookups -/

/-- Why a lookup fails. -/
inductive LookupError where
  | missing
  | notDirectory
  | tooManyLinks
deriving DecidableEq

/-- Take the steps from a directory. `follow` is what happens at a link: the steps it holds
are taken from the directory that the link stands in. -/
def walk (view : View ν β) (follow : List ν → List (Step ν) → Except LookupError (List ν)) :
    List ν → List (Step ν) → Except LookupError (List ν)
  | dir, [] => .ok dir
  | dir, .up :: rest => walk view follow dir.dropLast rest
  | dir, .down name :: rest =>
      match view (dir ++ [name]) with
      | none => .error .missing
      | some (.directory _) => walk view follow (dir ++ [name]) rest
      | some (.link steps) => follow dir (steps ++ rest)
      | some _ => if rest = [] then .ok (dir ++ [name]) else .error .notDirectory

/-- The place that steps lead to when at most `links` links are followed. -/
def resolve (view : View ν β) : Nat → List ν → List (Step ν) → Except LookupError (List ν)
  | 0 => walk view fun _ _ => .error .tooManyLinks
  | links + 1 => walk view (resolve view links)

/-- The place an absolute path leads to. -/
def lookup (view : View ν β) (links : Nat) (path : List ν) : Except LookupError (List ν) :=
  resolve view links [] (path.map .down)

/-- `os.path.relpath`: the steps from a directory to a path, by their names alone. -/
def relative [DecidableEq ν] : List ν → List ν → List (Step ν)
  | t :: target, s :: start =>
      if t = s then relative target start
      else List.replicate (start.length + 1) .up ++ (t :: target).map .down
  | target, start => List.replicate start.length .up ++ target.map .down

/-- A proper prefix of a path is a prefix of its parent. -/
theorem prefix_dropLast_of_ne {path place : List ν} (h : place <+: path) (hne : place ≠ path) :
    place <+: path.dropLast := by
  rcases List.eq_nil_or_concat path with rfl | ⟨init, last, rfl⟩
  · exact absurd (List.prefix_nil.mp h) hne
  · rw [List.concat_eq_append] at h hne ⊢
    rw [List.dropLast_concat]
    exact (List.prefix_concat_iff.mp h).resolve_left hne

/-! ### Canonical places -/

/-- A path all of whose components, itself included, are directories. -/
def Opened (view : View ν β) (path : List ν) : Prop :=
  ∀ place, place <+: path → place ≠ [] → ∃ mode, view place = some (.directory mode)

/-- A place that stands in a canonical directory and is not a link. -/
def Reached (view : View ν β) (place : List ν) : Prop :=
  Opened view place ∨
    Opened view place.dropLast ∧ place ≠ [] ∧ ∃ node, view place = some node ∧ node.isLink = false

namespace Opened

variable {view : View ν β}

theorem nil : Opened view [] := by
  intro place hplace hne
  exact absurd (List.prefix_nil.mp hplace) hne

theorem of_front {path place : List ν} (h : Opened view path) (hplace : place <+: path) :
    Opened view place :=
  fun p hp hne => h p (hp.trans hplace) hne

theorem dropLast {path : List ν} (h : Opened view path) : Opened view path.dropLast :=
  h.of_front (List.dropLast_prefix path)

theorem concat {path : List ν} {name : ν} {mode : Nat} (h : Opened view path)
    (hnode : view (path ++ [name]) = some (.directory mode)) : Opened view (path ++ [name]) := by
  intro place hplace hne
  rcases List.prefix_concat_iff.mp hplace with rfl | hplace
  · exact ⟨mode, hnode⟩
  · exact h place hplace hne

theorem directory {path : List ν} (h : Opened view path) (hne : path ≠ []) :
    ∃ mode, view path = some (.directory mode) :=
  h path (List.prefix_refl path) hne

/-- The steps into a canonical directory lead there. -/
theorem walk_downs {dir path : List ν} {follow} (h : Opened view (dir ++ path))
    (rest : List (Step ν)) :
    walk view follow dir (path.map .down ++ rest) = walk view follow (dir ++ path) rest := by
  induction path generalizing dir with
  | nil => simp
  | cons name path ih =>
      have hdir : dir ++ [name] <+: dir ++ name :: path := by
        rw [show dir ++ name :: path = (dir ++ [name]) ++ path by simp]
        exact List.prefix_append _ _
      obtain ⟨mode, hnode⟩ := h (dir ++ [name]) hdir (by simp)
      rw [List.map_cons, List.cons_append, walk, hnode]
      have hopened : Opened view ((dir ++ [name]) ++ path) := by simpa using h
      have hih := ih hopened
      rw [List.append_assoc, List.singleton_append] at hih
      exact hih

end Opened

section Reached

variable {view : View ν β}

/-- Where a walk ends, when every link it meets ends well. -/
theorem reached_of_walk {follow : List ν → List (Step ν) → Except LookupError (List ν)}
    (hfollow : ∀ dir steps place, Opened view dir → follow dir steps = .ok place →
      Reached view place) {dir : List ν} {steps : List (Step ν)} {place : List ν}
    (hdir : Opened view dir) (h : walk view follow dir steps = .ok place) :
    Reached view place := by
  induction steps generalizing dir with
  | nil =>
      obtain rfl := Except.ok.inj h
      exact .inl hdir
  | cons step rest ih =>
      cases step with
      | up => exact ih hdir.dropLast h
      | down name =>
          rw [walk] at h
          cases hnode : view (dir ++ [name]) with
          | none =>
              rw [hnode] at h
              cases h
          | some node =>
              rw [hnode] at h
              cases node with
              | directory mode => exact ih (hdir.concat hnode) h
              | link target => exact hfollow dir _ place hdir h
              | regular mode content =>
                  by_cases hrest : rest = []
                  · rw [if_pos hrest] at h
                    obtain rfl := Except.ok.inj h
                    exact .inr ⟨by simpa using hdir, by simp, _, hnode, rfl⟩
                  · rw [if_neg hrest] at h
                    cases h
              | special =>
                  by_cases hrest : rest = []
                  · rw [if_pos hrest] at h
                    obtain rfl := Except.ok.inj h
                    exact .inr ⟨by simpa using hdir, by simp, _, hnode, rfl⟩
                  · rw [if_neg hrest] at h
                    cases h

/-- What a lookup reaches is canonical. -/
theorem reached_of_resolve {links : Nat} {dir : List ν} {steps : List (Step ν)} {place : List ν}
    (hdir : Opened view dir) (h : resolve view links dir steps = .ok place) :
    Reached view place := by
  induction links generalizing dir steps place with
  | zero =>
      refine reached_of_walk (fun _ _ _ _ hfail => ?_) hdir h
      cases hfail
  | succ links ih => exact reached_of_walk (fun _ _ _ hopened hok => ih hopened hok) hdir h

theorem reached_of_lookup {links : Nat} {path place : List ν}
    (h : lookup view links path = .ok place) : Reached view place :=
  reached_of_resolve .nil h

/-- A canonical place that is a directory is canonical all the way. -/
theorem Reached.opened {place : List ν} {mode : Nat} (h : Reached view place)
    (hnode : view place = some (.directory mode)) : Opened view place := by
  cases h with
  | inl hopened => exact hopened
  | inr h =>
      obtain ⟨hdir, hne, -⟩ := h
      rw [← List.dropLast_append_getLast hne] at hnode ⊢
      exact hdir.concat hnode

end Reached

/-! ### More nodes -/

section Growing

variable {view view' : View ν β}

theorem walk_mono (hgrow : ∀ place node, view place = some node → view' place = some node)
    {follow follow' : List ν → List (Step ν) → Except LookupError (List ν)}
    (hfollow : ∀ dir steps place, follow dir steps = .ok place → follow' dir steps = .ok place)
    {dir : List ν} {steps : List (Step ν)} {place : List ν}
    (h : walk view follow dir steps = .ok place) : walk view' follow' dir steps = .ok place := by
  induction steps generalizing dir with
  | nil => exact h
  | cons step rest ih =>
      cases step with
      | up => exact ih h
      | down name =>
          rw [walk] at h ⊢
          cases hnode : view (dir ++ [name]) with
          | none =>
              rw [hnode] at h
              cases h
          | some node =>
              rw [hnode] at h
              rw [hgrow _ _ hnode]
              cases node with
              | directory mode => exact ih h
              | link steps => exact hfollow _ _ _ h
              | regular mode content => exact h
              | special => exact h

/-- What is found in a file system is found in a larger one. -/
theorem resolve_mono (hgrow : ∀ place node, view place = some node → view' place = some node)
    {links : Nat} {dir : List ν} {steps : List (Step ν)} {place : List ν}
    (h : resolve view links dir steps = .ok place) :
    resolve view' links dir steps = .ok place := by
  induction links generalizing dir steps place with
  | zero => exact walk_mono hgrow (fun _ _ _ hfalse => by cases hfalse) h
  | succ links ih => exact walk_mono hgrow (fun _ _ _ hnext => ih hnext) h

end Growing

/-! ### Paths without links -/

/-- No component of the path, itself included, is a link. -/
def LinkFree (view : View ν β) (path : List ν) : Prop :=
  ∀ place, place <+: path → ∀ node, view place = some node → node.isLink = false

namespace LinkFree

variable {view : View ν β}

theorem of_front {path place : List ν} (h : LinkFree view path) (hplace : place <+: path) :
    LinkFree view place :=
  fun p hp => h p (hp.trans hplace)

theorem walk_eq {follow} {dir path place : List ν} (h : LinkFree view (dir ++ path))
    (hwalk : walk view follow dir (path.map .down) = .ok place) : place = dir ++ path := by
  induction path generalizing dir with
  | nil =>
      obtain rfl := Except.ok.inj hwalk
      simp
  | cons name path ih =>
      have hdir : dir ++ [name] <+: dir ++ name :: path := by
        rw [show dir ++ name :: path = (dir ++ [name]) ++ path by simp]
        exact List.prefix_append _ _
      rw [List.map_cons, walk] at hwalk
      cases hnode : view (dir ++ [name]) with
      | none =>
          rw [hnode] at hwalk
          cases hwalk
      | some node =>
          have hlink := h _ hdir node hnode
          rw [hnode] at hwalk
          cases node with
          | directory mode =>
              have hfree : LinkFree view ((dir ++ [name]) ++ path) := by simpa using h
              have hih := ih hfree hwalk
              simpa using hih
          | link steps => cases hlink
          | regular mode content =>
              by_cases hpath : path = []
              · subst hpath
                exact (Except.ok.inj hwalk).symm
              · rw [if_neg (by simpa using hpath)] at hwalk
                cases hwalk
          | special =>
              by_cases hpath : path = []
              · subst hpath
                exact (Except.ok.inj hwalk).symm
              · rw [if_neg (by simpa using hpath)] at hwalk
                cases hwalk

/-- A path without links leads nowhere else. -/
theorem lookup_eq {links : Nat} {path place : List ν} (h : LinkFree view path)
    (hlookup : lookup view links path = .ok place) : place = path := by
  have hroot : LinkFree view ([] ++ path) := h
  cases links with
  | zero => exact hroot.walk_eq hlookup
  | succ links => exact hroot.walk_eq hlookup

end LinkFree

/-! ### Looking up a canonical path -/

section Canonical

variable {view : View ν β} {follow : List ν → List (Step ν) → Except LookupError (List ν)}

/-- Canonical directories are reached without a link. -/
theorem resolve_opened {path : List ν} (h : Opened view path) (links : Nat)
    (rest : List (Step ν)) :
    resolve view links [] (path.map .down ++ rest) = resolve view links path rest := by
  have hroot : Opened view ([] ++ path) := h
  cases links with
  | zero => exact hroot.walk_downs rest
  | succ links => exact hroot.walk_downs rest

theorem resolve_nil (links : Nat) (dir : List ν) : resolve view links dir [] = .ok dir := by
  cases links <;> rfl

theorem lookup_opened {path : List ν} (h : Opened view path) (links : Nat) :
    lookup view links path = .ok path := by
  have hwalk := resolve_opened h links []
  rw [List.append_nil, resolve_nil] at hwalk
  exact hwalk

/-- A node in a canonical directory that is not a link is found where it stands. -/
theorem lookup_standing {dir : List ν} {name : ν} {node : Node ν β} (hdir : Opened view dir)
    (hnode : view (dir ++ [name]) = some node) (hlink : node.isLink = false) (links : Nat) :
    lookup view links (dir ++ [name]) = .ok (dir ++ [name]) := by
  unfold lookup
  rw [List.map_append, resolve_opened hdir]
  cases node with
  | directory mode => cases links <;> simp [resolve, walk, hnode]
  | regular mode content => cases links <;> simp [resolve, walk, hnode]
  | link steps => cases hlink
  | special => cases links <;> simp [resolve, walk, hnode]

theorem walk_replicate_up (dir : List ν) (count : Nat) (rest : List (Step ν)) :
    walk view follow dir (List.replicate count .up ++ rest) =
      walk view follow (dir.take (dir.length - count)) rest := by
  induction count generalizing dir with
  | zero => simp
  | succ count ih =>
      rw [List.replicate_succ, List.cons_append, walk, ih]
      congr 1
      rw [List.dropLast_eq_take, List.take_take, List.length_take]
      congr 1
      omega

/-- Steps by name alone go up to the last common directory and down from there. -/
theorem relative_eq [DecidableEq ν] (target start : List ν) :
    ∃ shared, shared <+: target ∧ shared <+: start ∧
      relative target start =
        List.replicate (start.length - shared.length) .up ++
          (target.drop shared.length).map .down := by
  induction target generalizing start with
  | nil => exact ⟨[], List.nil_prefix, List.nil_prefix, by cases start <;> simp [relative]⟩
  | cons t target ih =>
      cases start with
      | nil => exact ⟨[], List.nil_prefix, List.nil_prefix, by simp [relative]⟩
      | cons s start =>
          by_cases heq : t = s
          · subst heq
            obtain ⟨shared, htarget, hstart, hsteps⟩ := ih start
            refine ⟨t :: shared, List.prefix_cons_inj t |>.mpr htarget,
              List.prefix_cons_inj t |>.mpr hstart, ?_⟩
            rw [relative, if_pos rfl, hsteps]
            simp
          · refine ⟨[], List.nil_prefix, List.nil_prefix, ?_⟩
            rw [relative, if_neg heq]
            simp

theorem relative_append [DecidableEq ν] (base target start : List ν) :
    relative (base ++ target) (base ++ start) = relative target start := by
  induction base with
  | nil => rfl
  | cons name base ih => simpa [relative] using ih

/-- From a canonical directory the relative path leads where the absolute one leads. -/
theorem walk_relative [DecidableEq ν] {start : List ν} (hstart : Opened view start)
    (target : List ν) :
    walk view follow start (relative target start) = walk view follow [] (target.map .down) := by
  obtain ⟨shared, htarget, hpre, hsteps⟩ := relative_eq target start
  have htake : start.take shared.length = shared := (List.prefix_iff_eq_take.mp hpre).symm
  have hlength : start.length - (start.length - shared.length) = shared.length := by
    have := hpre.length_le
    omega
  have hsplit : target = shared ++ target.drop shared.length := by
    obtain ⟨rest, rfl⟩ := htarget
    simp
  rw [hsteps, walk_replicate_up, hlength, htake]
  conv_rhs => rw [hsplit, List.map_append]
  have hroot : Opened view ([] ++ shared) := hstart.of_front hpre
  exact (hroot.walk_downs _).symm

theorem resolve_relative [DecidableEq ν] {start : List ν} (hstart : Opened view start)
    (target : List ν) (links : Nat) :
    resolve view links start (relative target start) = lookup view links target := by
  cases links with
  | zero => exact walk_relative hstart target
  | succ links => exact walk_relative hstart target

/-- A link in a canonical directory that holds the relative path to a target. -/
theorem lookup_link [DecidableEq ν] {dir target : List ν} {name : ν} (hdir : Opened view dir)
    (hnode : view (dir ++ [name]) = some (.link (relative target dir))) (links : Nat) :
    lookup view (links + 1) (dir ++ [name]) = lookup view links target := by
  rw [lookup, List.map_append, resolve_opened hdir, List.map_singleton, resolve, walk, hnode]
  simp only [List.append_nil]
  exact resolve_relative hdir target links

theorem lookup_link_zero {dir : List ν} {name : ν} {steps : List (Step ν)}
    (hdir : Opened view dir) (hnode : view (dir ++ [name]) = some (.link steps)) :
    lookup view 0 (dir ++ [name]) = .error .tooManyLinks := by
  rw [lookup, List.map_append, resolve_opened hdir, List.map_singleton, resolve, walk, hnode]

end Canonical

/-! ### Disks -/

/-- A named node. -/
structure Slot (ν β : Type) where
  path : List ν
  node : Node ν β

/-- What the slots of a table say about each path. The root is a directory. -/
def viewOf [DecidableEq ν] (slots : Table (Slot.path : Slot ν β → List ν)) : View ν β := fun path =>
  if path = [] then some (.directory 0o755) else (slots.get? path).map (·.node)

/-- A file system: every node stands in a directory. -/
structure Disk (ν β : Type) [DecidableEq ν] where
  slots : Table (Slot.path : Slot ν β → List ν)
  closed : ∀ slot ∈ slots.rows, slot.path ≠ [] ∧
    (viewOf slots slot.path.dropLast).any Node.isDirectory = true

theorem any_isDirectory {node : Option (Node ν β)} :
    node.any Node.isDirectory = true ↔ ∃ mode, node = some (.directory mode) := by
  cases node with
  | none => simp
  | some node => cases node <;> simp [Node.isDirectory]

namespace Disk

variable [DecidableEq ν]

def view (disk : Disk ν β) : View ν β := viewOf disk.slots

@[simp] theorem view_nil (disk : Disk ν β) : disk.view [] = some (.directory 0o755) := rfl

theorem viewOf_put (slots : Table (Slot.path : Slot ν β → List ν)) (slot : Slot ν β)
    (hne : slot.path ≠ []) (path : List ν) :
    viewOf (slots.put slot) path = if path = slot.path then some slot.node
      else viewOf slots path := by
  unfold viewOf
  by_cases hpath : path = slot.path
  · subst hpath
    rw [if_neg hne, if_pos rfl, Table.get?_put, if_pos rfl]
    rfl
  · rw [if_neg hpath, Table.get?_put, if_neg hpath]

/-- The node that a path leads to, the last link not followed: what `lstat` reads. -/
def place (disk : Disk ν β) (links : Nat) (path : List ν) : Except LookupError (List ν) :=
  match path.getLast? with
  | none => .ok []
  | some name => do
      let dir ← lookup disk.view links path.dropLast
      if (disk.view dir).any Node.isDirectory then .ok (dir ++ [name]) else .error .notDirectory

/-- `lstat`. -/
def lstat (disk : Disk ν β) (links : Nat) (path : List ν) : Option (Node ν β) :=
  match disk.place links path with
  | .ok place => disk.view place
  | .error _ => none

/-- `stat`: what a path leads to through links. -/
def stat (disk : Disk ν β) (links : Nat) (path : List ν) : Option (Node ν β) :=
  match lookup disk.view links path with
  | .ok place => disk.view place
  | .error _ => none

/-! ### Writing -/

/-- A name that can be given: free, and in a directory. -/
def Free (disk : Disk ν β) (place : List ν) : Prop :=
  place ≠ [] ∧ disk.view place = none ∧
    (disk.view place.dropLast).any Node.isDirectory = true

instance (disk : Disk ν β) (place : List ν) : Decidable (disk.Free place) :=
  decidable_of_iff (place ≠ [] ∧ (disk.view place).isNone = true ∧
    (disk.view place.dropLast).any Node.isDirectory = true) <| by
    simp [Free]

/-- A node can take another's place when a directory stays a directory. -/
def Replaces (disk : Disk ν β) (place : List ν) (node : Node ν β) : Prop :=
  place ≠ [] ∧ (disk.view place.dropLast).any Node.isDirectory = true ∧
    ((disk.view place).any Node.isDirectory = true → node.isDirectory = true)

instance (disk : Disk ν β) (place : List ν) (node : Node ν β) :
    Decidable (disk.Replaces place node) :=
  inferInstanceAs (Decidable (place ≠ [] ∧ _ = true ∧ (_ = true → _ = true)))

theorem Free.replaces {disk : Disk ν β} {place : List ν} (h : disk.Free place)
    (node : Node ν β) : disk.Replaces place node := by
  refine ⟨h.1, h.2.2, fun hdir => ?_⟩
  rw [h.2.1] at hdir
  cases hdir

/-- Put a node at a place. -/
def put (disk : Disk ν β) (place : List ν) (node : Node ν β) (h : disk.Replaces place node) :
    Disk ν β where
  slots := disk.slots.put ⟨place, node⟩
  closed := by
    intro slot hslot
    rcases Table.mem_put.mp hslot with rfl | ⟨hslot, -⟩
    · refine ⟨h.1, ?_⟩
      rw [viewOf_put _ _ h.1, if_neg]
      · exact h.2.1
      · intro heq
        have hlength := congrArg List.length heq
        rw [List.length_dropLast] at hlength
        have := List.length_pos_of_ne_nil h.1
        change place.length - 1 = place.length at hlength
        omega
    · obtain ⟨hne, hparent⟩ := disk.closed slot hslot
      refine ⟨hne, ?_⟩
      rw [viewOf_put _ _ h.1]
      by_cases hplace : slot.path.dropLast = place
      · rw [if_pos hplace]
        rw [hplace] at hparent
        exact h.2.2 hparent
      · rwa [if_neg hplace]

@[simp] theorem view_put (disk : Disk ν β) {place : List ν} {node : Node ν β}
    (h : disk.Replaces place node) (path : List ν) :
    (disk.put place node h).view path = if path = place then some node else disk.view path :=
  viewOf_put _ _ h.1 path

/-- Why a name cannot be given. -/
inductive MakeError where
  | lookup (e : LookupError)
  | taken
deriving DecidableEq

/-- Give a new name to a node: `mkdir`, `symlink`, and `open` with `O_CREAT | O_EXCL`. The
place it takes is returned. -/
def make (disk : Disk ν β) (links : Nat) (path : List ν) (node : Node ν β) :
    Except MakeError (List ν × Disk ν β) :=
  match disk.place links path with
  | .error e => .error (.lookup e)
  | .ok place =>
      if h : disk.Free place then .ok (place, disk.put place node (h.replaces node))
      else .error .taken

/-- A node with other permission bits. -/
def withMode (mode : Nat) : Node ν β → Node ν β
  | .directory _ => .directory mode
  | .regular _ content => .regular mode content
  | node => node

omit [DecidableEq ν] in
@[simp] theorem isDirectory_withMode (mode : Nat) (node : Node ν β) :
    (withMode mode node).isDirectory = node.isDirectory := by
  cases node <;> rfl

/-- What stands on a disk stands in a directory. -/
theorem any_isDirectory_dropLast {disk : Disk ν β} {place : List ν} {node : Node ν β}
    (hne : place ≠ []) (h : disk.view place = some node) :
    (disk.view place.dropLast).any Node.isDirectory = true := by
  unfold view at h
  rw [viewOf, if_neg hne, Option.map_eq_some_iff] at h
  obtain ⟨slot, hslot, -⟩ := h
  have hclosed := (disk.closed slot (Table.mem_of_get? hslot)).2
  rwa [Table.key_of_get? hslot] at hclosed

theorem replaces_withMode {disk : Disk ν β} {place : List ν} {node : Node ν β} (mode : Nat)
    (hne : place ≠ []) (h : disk.view place = some node) :
    disk.Replaces place (withMode mode node) := by
  refine ⟨hne, any_isDirectory_dropLast hne h, fun hdir => ?_⟩
  rw [h] at hdir
  rwa [isDirectory_withMode]

/-- `chmod`, through links. The place it changes is returned. -/
def chmod (disk : Disk ν β) (links : Nat) (path : List ν) (mode : Nat) :
    Except LookupError (List ν × Disk ν β) :=
  match lookup disk.view links path with
  | .error e => .error e
  | .ok place =>
      match h : disk.view place with
      | none => .error .missing
      | some node =>
          if hne : place = [] then .ok (place, disk)
          else .ok (place, disk.put place (withMode mode node) (replaces_withMode mode hne h))

/-! ### What the writes do -/

section Spec

variable {disk disk' : Disk ν β} {links : Nat} {path place : List ν} {node : Node ν β}

/-- The place of a name in a canonical directory. -/
theorem place_of_opened {dir : List ν} (h : Opened disk.view dir) (name : ν) :
    disk.place links (dir ++ [name]) = .ok (dir ++ [name]) := by
  have hdir : (disk.view dir).any Node.isDirectory = true := by
    by_cases hne : dir = []
    · subst hne
      rfl
    · exact any_isDirectory.mpr (h.directory hne)
  unfold Disk.place
  rw [List.getLast?_concat, List.dropLast_concat]
  simp only [lookup_opened h]
  exact if_pos hdir

theorem make_eq_ok (h : disk.make links path node = .ok (place, disk')) :
    ∃ hfree : disk.Free place, disk.place links path = .ok place ∧
      disk' = disk.put place node (hfree.replaces node) := by
  unfold make at h
  split at h
  · cases h
  · rename_i found hplace
    by_cases hfree : disk.Free found
    · rw [dif_pos hfree] at h
      obtain ⟨rfl, rfl⟩ := Prod.mk.inj (Except.ok.inj h)
      exact ⟨hfree, hplace, rfl⟩
    · rw [dif_neg hfree] at h
      cases h

/-- The place of a path to whose directory no link leads. -/
theorem place_eq (hfree : LinkFree disk.view path.dropLast)
    (h : disk.place links path = .ok place) : place = path := by
  unfold Disk.place at h
  split at h
  · rename_i hlast
    obtain rfl := Except.ok.inj h
    exact (List.getLast?_eq_none_iff.mp hlast).symm
  · rename_i name hname
    cases hlookup : lookup disk.view links path.dropLast with
    | error e =>
        rw [hlookup] at h
        cases h
    | ok dir =>
        rw [hlookup] at h
        change (if _ then _ else _) = _ at h
        by_cases hdir : (disk.view dir).any Node.isDirectory = true
        · rw [if_pos hdir] at h
          obtain rfl := Except.ok.inj h
          rw [hfree.lookup_eq hlookup]
          exact List.dropLast_append_getLast? name hname
        · rw [if_neg hdir] at h
          cases h

/-- What is on a disk stands below directories. -/
theorem opened_of_view (hnode : disk.view path = some node) : Opened disk.view path.dropLast := by
  intro q hq hne
  obtain ⟨rest, hrest⟩ := hq
  induction path using List.reverseRecOn generalizing node rest with
  | nil =>
      rw [List.dropLast_nil] at hrest
      exact absurd (List.append_eq_nil_iff.mp hrest).1 hne
  | append_singleton path name ih =>
      rw [List.dropLast_concat] at hrest
      have hparent := any_isDirectory_dropLast (by simp) hnode
      rw [List.dropLast_concat] at hparent
      obtain ⟨mode, hmode⟩ := any_isDirectory.mp hparent
      rcases List.eq_nil_or_concat rest with rfl | ⟨rest, last, rfl⟩
      · rw [List.append_nil] at hrest
        exact ⟨mode, hrest ▸ hmode⟩
      · have hpre : q ++ rest = path.dropLast := by
          rw [← hrest, List.concat_eq_append, ← List.append_assoc, List.dropLast_concat]
        exact ih hmode rest hpre

/-- Below a free name there is nothing. -/
theorem view_below_free (hplace : disk.view place = none) (hne : place ≠ [])
    (hpre : place <+: path) : disk.view path = none := by
  cases hnode : disk.view path with
  | none => rfl
  | some node =>
      by_cases heq : place = path
      · rw [← heq, hplace] at hnode
        cases hnode
      · obtain ⟨mode, hmode⟩ :=
          opened_of_view hnode place (prefix_dropLast_of_ne hpre heq) hne
        rw [hplace] at hmode
        cases hmode

/-- Everything on one disk is on the other. -/
def Grows (disk disk' : Disk ν β) : Prop :=
  ∀ path node, disk.view path = some node → disk'.view path = some node

namespace Grows

theorem refl (disk : Disk ν β) : Grows disk disk := fun _ _ h => h

theorem trans {disk'' : Disk ν β} (h : Grows disk disk') (h' : Grows disk' disk'') :
    Grows disk disk'' :=
  fun path node hnode => h' path node (h path node hnode)

theorem opened (h : Grows disk disk') (hopened : Opened disk.view path) :
    Opened disk'.view path := by
  intro q hq hne
  obtain ⟨mode, hmode⟩ := hopened q hq hne
  exact ⟨mode, h _ _ hmode⟩

end Grows

theorem grows_put {hreplaces : disk.Replaces place node} (h : disk.view place = none) :
    Grows disk (disk.put place node hreplaces) := by
  intro q other hother
  rw [view_put, if_neg]
  · exact hother
  · intro heq
    rw [heq, h] at hother
    cases hother

theorem Free.grows (h : disk.Free place) (node : Node ν β) :
    Grows disk (disk.put place node (h.replaces node)) :=
  grows_put h.2.1

/-- A mode changes nothing but the permission bits at the place that the path leads to. -/
theorem chmod_eq_ok {mode : Nat} (h : disk.chmod links path mode = .ok (place, disk')) :
    lookup disk.view links path = .ok place ∧
      ∀ q, disk'.view q = disk.view q ∨
        q = place ∧ disk'.view q = (disk.view q).map (withMode mode) := by
  unfold chmod at h
  split at h
  · cases h
  · rename_i found hfound
    split at h
    · cases h
    · rename_i node hnode
      by_cases hne : found = []
      · rw [dif_pos hne] at h
        obtain ⟨rfl, rfl⟩ := Prod.mk.inj (Except.ok.inj h)
        exact ⟨hfound, fun q => .inl rfl⟩
      · rw [dif_neg hne] at h
        obtain ⟨rfl, rfl⟩ := Prod.mk.inj (Except.ok.inj h)
        refine ⟨hfound, fun q => ?_⟩
        rw [view_put]
        by_cases hq : q = found
        · subst hq
          exact .inr ⟨rfl, by rw [if_pos rfl, hnode]; rfl⟩
        · exact .inl (if_neg hq)

end Spec

end Disk

end FileTree
