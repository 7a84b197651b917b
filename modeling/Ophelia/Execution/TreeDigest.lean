import Mathlib.Data.List.Sort
import Ophelia.Lib.Framing
import Ophelia.Lib.PyText

/-!
# Ophelia.Execution.TreeDigest

The byte streams that the four tree digests feed to SHA-256: `tree_digest` of
`execution/staging.py`, `_tree_content_digest` of `execution/static_backend.py`,
`_static_tree_digest` of `execution/compose_backend.py` and `_tree_digest` of
`manifest_v2.py`. Each walks the tree in order and concatenates, for every entry, its path,
what it is and, for a regular file, its raw content. No stream says how long a content is.
-/

namespace Ophelia

open PyText

/-! ### Directory trees -/

/-- The name of a directory entry. -/
def isEntryName (name : String) : Bool :=
  name != "" && name != "." && name != ".." && !name.toList.contains '/' &&
    !name.toList.contains '\x00'

/-- A path below the root of a tree. -/
structure RelPath where
  parts : List String
  parts_ne_nil : parts ≠ []
  isEntryName_parts : ∀ part ∈ parts, isEntryName part = true
deriving DecidableEq

/-- `path.as_posix()`. -/
def RelPath.asPosix (path : RelPath) : String :=
  String.ofList (['/'].intercalate (path.parts.map String.toList))

/-- The directory a path stands in, unless it stands in the root. -/
def RelPath.parent? (path : RelPath) : Option RelPath :=
  if h : path.parts.dropLast = [] then none
  else some ⟨path.parts.dropLast, h, fun part hpart =>
    path.isEntryName_parts part (List.dropLast_subset _ hpart)⟩

/-- The path a symbolic link points to, as `str(path.readlink())` has it. -/
structure LinkTarget where
  text : String
  no_nul : '\x00' ∉ text.toList
deriving DecidableEq

/-- What a path leads to, links not followed. `special` is a device, a pipe or a socket. -/
inductive Node where
  | file (content : List UInt8)
  | directory
  | symlink (target : LinkTarget)
  | special
deriving DecidableEq

/-- One path that `root.rglob("*")` reports, with its permission bits. -/
structure TreeEntry where
  path : RelPath
  mode : Fin 4096
  node : Node
deriving DecidableEq

/-- A directory tree: no path twice, and every entry in a directory of the tree. The entries
are in the order the file system reports them. -/
structure Tree where
  rootMode : Fin 4096
  entries : List TreeEntry
  nodup : (entries.map TreeEntry.path).Nodup
  parents : ∀ e ∈ entries, ∀ parent, e.path.parent? = some parent →
    ∃ d ∈ entries, d.path = parent ∧ d.node = .directory

/-! ### The streams -/

inductive TreeError where
  /-- `Operation staging contains a special file: …` -/
  | stagingSpecial (path : RelPath)
  /-- `Static artifact runtime may not contain symbolic links.` -/
  | runtimeSymlink
  /-- `Static artifact runtime contains a special file.` -/
  | runtimeSpecial
  /-- `Static artifacts may not contain symbolic links.` -/
  | artifactSymlink
  /-- `Static artifacts may contain only files and directories.` -/
  | artifactSpecial
deriving DecidableEq

/-- `sorted(…, key=lambda item: item.relative_to(root).as_posix())`. -/
def byPosix (entries : List TreeEntry) : List TreeEntry :=
  entries.insertionSort fun a b => a.path.asPosix ≤ b.path.asPosix

/-- `sorted(…)` of the paths themselves, which compare part by part. -/
def byParts (entries : List TreeEntry) : List TreeEntry :=
  entries.insertionSort fun a b => a.path.parts ≤ b.path.parts

/-- The updates of a digest, entry after entry. -/
def updates (frame : TreeEntry → Except TreeError (List UInt8)) :
    List TreeEntry → Except TreeError (List UInt8)
  | [] => .ok []
  | entry :: entries => do
      let bytes ← frame entry
      let rest ← updates frame entries
      .ok (bytes ++ rest)

/-- Four octal digits, `f"{mode:04o}"`. -/
def modeText (mode : Fin 4096) : List UInt8 :=
  [mode.val / 512, mode.val / 64 % 8, mode.val / 8 % 8, mode.val % 8].map fun digit =>
    UInt8.ofNat (48 + digit)

/-- What `tree_digest` adds for one entry. -/
def stagingFrame (entry : TreeEntry) : Except TreeError (List UInt8) :=
  let header := encode entry.path.asPosix ++ 0 :: (modeText entry.mode ++ [0])
  match entry.node with
  | .symlink target => .ok (header ++ (encode "symlink" ++ 0 :: (encode target.text ++ [0])))
  | .directory => .ok (header ++ (encode "directory" ++ [0]))
  | .file content => .ok (header ++ (encode "file" ++ 0 :: (content ++ [0])))
  | .special => .error (.stagingSpecial entry.path)

/-- The stream of `tree_digest`. -/
def treeDigestStream (tree : Tree) : Except TreeError (List UInt8) := do
  let body ← updates stagingFrame (byPosix tree.entries)
  .ok (encode "root" ++ 0 :: (modeText tree.rootMode ++ 0 :: body))

/-- What `_tree_content_digest` adds for one entry. -/
def contentFrame (entry : TreeEntry) : List UInt8 :=
  let header := encode entry.path.asPosix ++ [0]
  match entry.node with
  | .symlink target => header ++ (encode "symlink" ++ 0 :: encode target.text) ++ [0]
  | .file content => header ++ (encode "file" ++ 0 :: content) ++ [0]
  | .directory => header ++ (encode "dir" ++ [0]) ++ [0]
  | .special => header ++ [0]

/-- The stream of `_tree_content_digest`; `none` is a root that is no directory. -/
def treeContentStream : Option Tree → List UInt8
  | none => encode "missing"
  | some tree => (byPosix tree.entries).flatMap contentFrame

/-- What the digests of static artifacts add for one entry. The compose backend and the
manifest differ in their errors. -/
def staticFrame (symlinkError specialError : TreeError) (entry : TreeEntry) :
    Except TreeError (List UInt8) :=
  match entry.node with
  | .symlink _ => .error symlinkError
  | .directory => .ok (encode "d" ++ 0 :: (encode entry.path.asPosix ++ [0]))
  | .file content => .ok (encode "f" ++ 0 :: (encode entry.path.asPosix ++ 0 :: content))
  | .special => .error specialError

/-- The stream of `_static_tree_digest`. -/
def staticTreeStream (tree : Tree) : Except TreeError (List UInt8) :=
  updates (staticFrame .runtimeSymlink .runtimeSpecial) (byParts tree.entries)

/-- The stream of the manifest's `_tree_digest`. -/
def manifestTreeStream (tree : Tree) : Except TreeError (List UInt8) :=
  updates (staticFrame .artifactSymlink .artifactSpecial) (byParts tree.entries)

/-! ### Paths -/

theorem nul_not_mem_of_isEntryName {name : String} (h : isEntryName name = true) :
    '/' ∉ name.toList ∧ '\x00' ∉ name.toList := by
  simp only [isEntryName, Bool.and_eq_true, Bool.not_eq_true', List.contains_eq_mem,
    decide_eq_false_iff_not] at h
  exact ⟨h.1.2, h.2⟩

theorem intercalate_concat {sep : Char} {words : List (List Char)} (hne : words ≠ [])
    (word : List Char) :
    [sep].intercalate (words ++ [word]) = [sep].intercalate words ++ sep :: word := by
  induction words with
  | nil => exact absurd rfl hne
  | cons first words ih =>
      cases words with
      | nil => simp
      | cons next words =>
          have hrest := ih (by simp)
          rw [List.cons_append, List.cons_append, List.intercalate_cons_cons,
            List.intercalate_cons_cons, ← List.cons_append, hrest]
          simp

theorem lt_append_cons {α : Type} [LinearOrder α] (xs : List α) (y : α) (ys : List α) :
    xs < xs ++ y :: ys := by
  induction xs with
  | nil => exact List.nil_lt_cons y ys
  | cons x xs ih => exact List.cons_lt_cons_self.mpr ih

/-- Paths have no NUL. -/
theorem RelPath.zero_not_mem (path : RelPath) : 0 ∉ encode path.asPosix := by
  refine zero_not_mem_encode fun h => ?_
  rw [RelPath.asPosix, String.toList_ofList] at h
  rcases mem_intercalate h with h | ⟨word, hword, h⟩
  · exact absurd h (by decide)
  · obtain ⟨part, hpart, rfl⟩ := List.mem_map.mp hword
    exact (nul_not_mem_of_isEntryName (path.isEntryName_parts part hpart)).2 h

theorem RelPath.ext {p q : RelPath} (h : p.parts = q.parts) : p = q := by
  cases p
  cases q
  cases h
  rfl

/-- A path can be read off its text. -/
theorem RelPath.asPosix_injective : Function.Injective RelPath.asPosix := by
  intro p q h
  have hsplit : ∀ path : RelPath, (path.asPosix.toList).splitOn '/' =
      path.parts.map String.toList := by
    intro path
    rw [RelPath.asPosix, String.toList_ofList]
    refine List.splitOn_intercalate '/' (fun word hword => ?_) (by simp [path.parts_ne_nil])
    obtain ⟨part, hpart, rfl⟩ := List.mem_map.mp hword
    exact (nul_not_mem_of_isEntryName (path.isEntryName_parts part hpart)).1
  have hparts : p.parts.map String.toList = q.parts.map String.toList := by
    rw [← hsplit p, ← hsplit q, h]
  exact RelPath.ext (List.map_injective_iff.mpr (fun _ _ => String.toList_injective) hparts)

theorem RelPath.parts_of_parent? {path parent : RelPath} (h : path.parent? = some parent) :
    ∃ last, path.parts = parent.parts ++ [last] := by
  unfold RelPath.parent? at h
  split at h
  · exact absurd h (by simp)
  · obtain rfl := Option.some.inj h
    exact ⟨path.parts.getLast path.parts_ne_nil, (List.dropLast_append_getLast _).symm⟩

/-- A directory comes before what is in it, in either order. -/
theorem RelPath.parts_lt_of_parent? {path parent : RelPath} (h : path.parent? = some parent) :
    parent.parts < path.parts := by
  obtain ⟨last, hparts⟩ := RelPath.parts_of_parent? h
  rw [hparts]
  exact lt_append_cons _ _ _

theorem RelPath.asPosix_lt_of_parent? {path parent : RelPath} (h : path.parent? = some parent) :
    parent.asPosix < path.asPosix := by
  obtain ⟨last, hparts⟩ := RelPath.parts_of_parent? h
  rw [String.lt_iff_toList_lt, RelPath.asPosix, RelPath.asPosix, String.toList_ofList,
    String.toList_ofList, hparts, List.map_append, List.map_singleton,
    intercalate_concat (by simp [parent.parts_ne_nil])]
  exact lt_append_cons _ _ _

end Ophelia
