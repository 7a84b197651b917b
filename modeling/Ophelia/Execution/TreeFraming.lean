import Ophelia.Execution.TreeDigest

/-!
# Ophelia.Execution.TreeFraming

When a tree digest tells a tree from every other one. The streams of `TreeDigest` are streams
of framed items (`Framing`): a directory, a link and a special file are closed by their head,
and a regular file has a body. So a tree can be read back from its stream exactly when only
its last entry is a regular file, and that file does not end in the frames of entries that
could follow it. Any other tree shares its stream, and so its digest, with a different tree.
-/

namespace Ophelia

open PyText Framing

/-! ### Entries as items -/

/-- An entry that has no content of its own. -/
inductive ClosedNode where
  | directory
  | symlink (target : LinkTarget)
  | special
deriving DecidableEq

section Items

variable {α κ : Type}

/-- An entry as far as a digest looks at it: `α` is `Fin 4096` where modes count. -/
abbrev Seen (α : Type) := RelPath × α × Node

abbrev ClosedHead (α : Type) := (RelPath × α) × ClosedNode

abbrev RawHead (α : Type) := RelPath × α

abbrev TreeItem (α : Type) := Item (ClosedHead α) (RawHead α) UInt8

def TreeEntry.seen (attr : Fin 4096 → α) (entry : TreeEntry) : Seen α :=
  (entry.path, attr entry.mode, entry.node)

def itemOf : Seen α → TreeItem α
  | (path, a, .file content) => .raw (path, a) content
  | (path, a, .directory) => .closed ((path, a), .directory)
  | (path, a, .symlink target) => .closed ((path, a), .symlink target)
  | (path, a, .special) => .closed ((path, a), .special)

def ofItem : TreeItem α → Seen α
  | .raw (path, a) content => (path, a, .file content)
  | .closed ((path, a), .directory) => (path, a, .directory)
  | .closed ((path, a), .symlink target) => (path, a, .symlink target)
  | .closed ((path, a), .special) => (path, a, .special)

theorem ofItem_itemOf (entry : Seen α) : ofItem (itemOf entry) = entry := by
  obtain ⟨path, a, node⟩ := entry
  cases node <;> rfl

theorem itemOf_ofItem (item : TreeItem α) : itemOf (ofItem item) = item := by
  cases item with
  | raw head body => rfl
  | closed head =>
      obtain ⟨⟨path, a⟩, node⟩ := head
      cases node <;> rfl

theorem itemOf_injective : Function.Injective (itemOf (α := α)) :=
  Function.LeftInverse.injective ofItem_itemOf

/-- The path an item stands for. -/
def headPath : ClosedHead α ⊕ RawHead α → RelPath
  | .inl head => head.1.1
  | .inr head => head.1

theorem headPath_itemOf (entry : Seen α) : headPath (itemOf entry).kind = entry.1 := by
  obtain ⟨path, a, node⟩ := entry
  cases node <;> rfl

/-- The nodes a digest accepts, other than regular files. -/
def Node.admitted (admits : ClosedNode → Bool) : Node → Bool
  | .file _ => true
  | .directory => admits .directory
  | .symlink target => admits (.symlink target)
  | .special => admits .special

variable [LinearOrder κ] (key : RelPath → κ) (admits : ClosedNode → Bool)

/-- The heads of a tree, in order. -/
structure Admissible (heads : List (ClosedHead α ⊕ RawHead α)) : Prop where
  sorted : heads.Pairwise fun a b => key (headPath a) < key (headPath b)
  admitted : ∀ head, .inl head ∈ heads → admits head.2 = true
  parents : ∀ head ∈ heads, ∀ parent, (headPath head).parent? = some parent →
    ∃ a, .inl ((parent, a), .directory) ∈ heads

/-- The entries of a tree in order. -/
def Tree.inOrder (tree : Tree) : List TreeEntry :=
  tree.entries.insertionSort fun a b => key a.path ≤ key b.path

/-- The items of a tree. -/
def Tree.items (attr : Fin 4096 → α) (tree : Tree) : List (TreeItem α) :=
  (tree.inOrder key).map fun entry => itemOf (entry.seen attr)

/-- A digest accepts every entry of the tree. -/
def Tree.Admitted (tree : Tree) : Prop :=
  ∀ entry ∈ tree.entries, entry.node.admitted admits = true

/-- An order of paths in which a directory comes before what is in it. -/
structure PathOrder : Prop where
  injective : Function.Injective key
  parent_lt : ∀ path parent : RelPath, path.parent? = some parent → key parent < key path

theorem pathOrder_asPosix : PathOrder RelPath.asPosix :=
  ⟨RelPath.asPosix_injective, fun _ _ => RelPath.asPosix_lt_of_parent?⟩

theorem pathOrder_parts : PathOrder RelPath.parts :=
  ⟨fun _ _ => RelPath.ext, fun _ _ => RelPath.parts_lt_of_parent?⟩

end Items

section Trees

variable {α κ : Type} [LinearOrder κ] {key : RelPath → κ} {admits : ClosedNode → Bool}

/-- What is left of a tree after cutting its last entries off is a tree. -/
theorem Admissible.cut (horder : PathOrder key) {xs ys : List (ClosedHead α ⊕ RawHead α)}
    (h : Admissible key admits (xs ++ ys)) : Admissible key admits xs where
  sorted := (List.pairwise_append.mp h.sorted).1
  admitted head hmem := h.admitted head (List.mem_append_left _ hmem)
  parents head hmem parent hparent := by
    obtain ⟨a, ha⟩ := h.parents head (List.mem_append_left _ hmem) parent hparent
    refine ⟨a, (List.mem_append.mp ha).resolve_right fun hys => ?_⟩
    -- a parent among the later entries would stand after its child
    have hafter := (List.pairwise_append.mp h.sorted).2.2 head hmem _ hys
    exact absurd (horder.parent_lt _ _ hparent) (lt_asymm hafter)

theorem Tree.perm_inOrder (key : RelPath → κ) (tree : Tree) :
    (tree.inOrder key).Perm tree.entries :=
  List.perm_insertionSort _ _

theorem Tree.sorted_inOrder (horder : PathOrder key) (tree : Tree) :
    (tree.inOrder key).Pairwise fun a b => key a.path < key b.path := by
  have htotal : Std.Total fun a b : TreeEntry => key a.path ≤ key b.path :=
    ⟨fun a b => le_total _ _⟩
  have htrans : IsTrans TreeEntry fun a b => key a.path ≤ key b.path := ⟨fun _ _ _ => le_trans⟩
  have hle : (tree.inOrder key).Pairwise fun a b => key a.path ≤ key b.path :=
    List.pairwise_insertionSort _ _
  have hnodup : ((tree.inOrder key).map TreeEntry.path).Nodup :=
    ((tree.perm_inOrder key).map _).nodup_iff.mpr tree.nodup
  rw [List.nodup_iff_pairwise_ne, List.pairwise_map] at hnodup
  refine (hle.and hnodup).imp ?_
  rintro a b ⟨hab, hne⟩
  exact lt_of_le_of_ne hab fun heq => hne (horder.injective heq)

/-- The items of a tree are admissible. -/
theorem Tree.admissible_items (horder : PathOrder key) (attr : Fin 4096 → α) {tree : Tree}
    (h : tree.Admitted admits) : Admissible key admits ((tree.items key attr).map Item.kind) := by
  have hmem : ∀ head ∈ (tree.items key attr).map Item.kind,
      ∃ e ∈ tree.entries, (itemOf (e.seen attr)).kind = head := by
    intro head hhead
    simp only [Tree.items, List.map_map, List.mem_map, Function.comp] at hhead
    obtain ⟨e, he, hkind⟩ := hhead
    exact ⟨e, (tree.perm_inOrder key).mem_iff.mp he, hkind⟩
  refine ⟨?_, ?_, ?_⟩
  · simp only [Tree.items, List.map_map, List.pairwise_map, Function.comp, headPath_itemOf]
    exact tree.sorted_inOrder horder
  · intro head hhead
    obtain ⟨e, he, hkind⟩ := hmem _ hhead
    have hadmitted := h e he
    obtain ⟨path, mode, node⟩ := e
    cases node with
    | file content => exact absurd hkind (by simp [TreeEntry.seen, itemOf, Item.kind])
    | _ =>
        obtain rfl := Sum.inl.inj hkind
        exact hadmitted
  · intro head hhead parent hparent
    obtain ⟨e, he, rfl⟩ := hmem _ hhead
    rw [headPath_itemOf] at hparent
    obtain ⟨d, hd, rfl, hnode⟩ := tree.parents e he parent hparent
    refine ⟨attr d.mode, ?_⟩
    simp only [Tree.items, List.map_map, List.mem_map, Function.comp]
    refine ⟨d, (tree.perm_inOrder key).mem_iff.mpr hd, ?_⟩
    rw [TreeEntry.seen, hnode]
    rfl

/-- An entry that is seen as an item. -/
def entryOf (back : α → Fin 4096) (item : TreeItem α) : TreeEntry where
  path := (ofItem item).1
  mode := back (ofItem item).2.1
  node := (ofItem item).2.2

theorem seen_entryOf {attr : Fin 4096 → α} {back : α → Fin 4096} (hback : ∀ a, attr (back a) = a)
    (item : TreeItem α) : itemOf ((entryOf back item).seen attr) = item := by
  rw [TreeEntry.seen, entryOf, hback, itemOf_ofItem]

theorem path_entryOf (back : α → Fin 4096) (item : TreeItem α) :
    (entryOf back item).path = headPath item.kind := by
  rw [← itemOf_ofItem item, headPath_itemOf, entryOf, itemOf_ofItem]

theorem sorted_entryOf (back : α → Fin 4096) {items : List (TreeItem α)}
    (h : Admissible key admits (items.map Item.kind)) :
    (items.map (entryOf back)).Pairwise fun a b => key a.path < key b.path := by
  have hsorted := h.sorted
  rw [List.pairwise_map] at hsorted ⊢
  simpa only [path_entryOf] using hsorted

/-- Admissible items are those of a tree. -/
def treeOf (back : α → Fin 4096) (rootMode : Fin 4096) {items : List (TreeItem α)}
    (h : Admissible key admits (items.map Item.kind)) : Tree where
  rootMode := rootMode
  entries := items.map (entryOf back)
  nodup := by
    have hsorted := sorted_entryOf back h
    rw [List.nodup_iff_pairwise_ne, List.pairwise_map]
    refine hsorted.imp fun hlt heq => ?_
    rw [heq] at hlt
    exact lt_irrefl _ hlt
  parents := by
    intro e he parent hparent
    obtain ⟨item, hitem, rfl⟩ := List.mem_map.mp he
    rw [path_entryOf] at hparent
    obtain ⟨a, ha⟩ := h.parents _ (List.mem_map_of_mem hitem) parent hparent
    obtain ⟨d, hd, hkind⟩ := List.mem_map.mp ha
    refine ⟨entryOf back d, List.mem_map_of_mem hd, ?_, ?_⟩
    · rw [path_entryOf, hkind]
      rfl
    · cases d with
      | raw head body => exact absurd hkind (by simp [Item.kind])
      | closed head =>
          obtain rfl := Sum.inl.inj hkind
          rfl

theorem treeOf_admitted (back : α → Fin 4096) (rootMode : Fin 4096) {items : List (TreeItem α)}
    (h : Admissible key admits (items.map Item.kind)) :
    (treeOf back rootMode h).Admitted admits := by
  intro e he
  obtain ⟨item, hitem, rfl⟩ := List.mem_map.mp he
  cases item with
  | raw head body => rfl
  | closed head =>
      have hadmitted := h.admitted head (List.mem_map.mpr ⟨_, hitem, rfl⟩)
      obtain ⟨⟨path, a⟩, node⟩ := head
      cases node <;> exact hadmitted

theorem treeOf_items {attr : Fin 4096 → α} {back : α → Fin 4096}
    (hback : ∀ a, attr (back a) = a) (rootMode : Fin 4096) {items : List (TreeItem α)}
    (h : Admissible key admits (items.map Item.kind)) :
    (treeOf back rootMode h).items key attr = items := by
  have hsorted : (items.map (entryOf back)).Pairwise fun a b => key a.path ≤ key b.path :=
    (sorted_entryOf back h).imp fun hlt => hlt.le
  rw [Tree.items, Tree.inOrder]
  change ((items.map (entryOf back)).insertionSort _).map _ = items
  rw [hsorted.insertionSort_eq, List.map_map]
  exact (List.map_congr_left fun item _ => seen_entryOf hback item).trans (List.map_id items)

/-- Two trees have the same items exactly when they have the same entries, in any order. -/
theorem Tree.items_eq_iff (horder : PathOrder key) (attr : Fin 4096 → α) (tree tree' : Tree) :
    tree'.items key attr = tree.items key attr ↔
      (tree'.entries.map (TreeEntry.seen attr)).Perm (tree.entries.map (TreeEntry.seen attr)) := by
  have hitems : ∀ t : Tree, t.items key attr =
      ((t.inOrder key).map (TreeEntry.seen attr)).map itemOf := by
    intro t
    rw [Tree.items, List.map_map]
    rfl
  have hperm : ∀ t : Tree, ((t.inOrder key).map (TreeEntry.seen attr)).Perm
      (t.entries.map (TreeEntry.seen attr)) := fun t => (t.perm_inOrder key).map _
  have hsorted : ∀ t : Tree, ((t.inOrder key).map (TreeEntry.seen attr)).Pairwise
      fun a b => key a.1 < key b.1 := by
    intro t
    rw [List.pairwise_map]
    exact t.sorted_inOrder horder
  rw [hitems, hitems, (List.map_injective_iff.mpr itemOf_injective).eq_iff]
  constructor
  · intro h
    exact (hperm tree').symm.trans (h ▸ hperm tree)
  · intro h
    refine List.Perm.eq_of_pairwise (fun a b _ _ hab hba => absurd hab (lt_asymm hba))
      (hsorted tree') (hsorted tree) ?_
    exact (hperm tree').trans (h.trans (hperm tree).symm)

variable {head : ClosedHead α ⊕ RawHead α → List UInt8} {tail : List UInt8}
  {attr : Fin 4096 → α} {tree : Tree}

/-- A tree with no exposed file is told from every other one. -/
theorem perm_of_stream_eq (horder : PathOrder key)
    (hread : Readable head tail (Admissible key admits))
    (hexposed : ¬ Exposed head tail (Admissible key admits) (tree.items key attr))
    (hadm : tree.Admitted admits) {tree' : Tree} (hadm' : tree'.Admitted admits)
    (h : stream head tail (tree'.items key attr) = stream head tail (tree.items key attr)) :
    (tree'.entries.map (TreeEntry.seen attr)).Perm (tree.entries.map (TreeEntry.seen attr)) := by
  rw [← Tree.items_eq_iff horder]
  exact (unique_iff hread (tree.admissible_items horder attr hadm)).mpr hexposed _
    (tree'.admissible_items horder attr hadm') h

/-- A tree with an exposed file shares its stream with another tree. -/
theorem not_exposed_of_separated (horder : PathOrder key)
    (hread : Readable head tail (Admissible key admits)) {back : α → Fin 4096}
    (hback : ∀ a, attr (back a) = a) (hadm : tree.Admitted admits)
    (h : ∀ tree' : Tree, tree'.rootMode = tree.rootMode → tree'.Admitted admits →
      stream head tail (tree'.items key attr) = stream head tail (tree.items key attr) →
      (tree'.entries.map (TreeEntry.seen attr)).Perm (tree.entries.map (TreeEntry.seen attr))) :
    ¬ Exposed head tail (Admissible key admits) (tree.items key attr) := by
  refine (unique_iff hread (tree.admissible_items horder attr hadm)).mp fun items hitems hstream => ?_
  have hsame := treeOf_items hback tree.rootMode hitems
  rw [← hsame] at hstream ⊢
  rw [Tree.items_eq_iff horder]
  exact h _ rfl (treeOf_admitted back _ hitems) hstream

end Trees

/-! ### The heads -/

theorem zero_not_mem_modeText (mode : Fin 4096) : 0 ∉ modeText mode := by
  intro h
  obtain ⟨digit, hdigit, hzero⟩ := List.mem_map.mp h
  have hlt : digit < 8 := by
    have := mode.isLt
    simp only [List.mem_cons, List.not_mem_nil, or_false] at hdigit
    omega
  have hvalue := congrArg UInt8.toNat hzero
  rw [UInt8.toNat_ofNat_of_lt' (by show 48 + digit < 256; omega)] at hvalue
  simp at hvalue

theorem modeText_injective : Function.Injective modeText := by
  intro a b h
  have hdigit : ∀ m n : Nat, m < 8 → n < 8 → UInt8.ofNat (48 + m) = UInt8.ofNat (48 + n) →
      m = n := by
    intro m n hm hn hmn
    have hvalue := congrArg UInt8.toNat hmn
    rw [UInt8.toNat_ofNat_of_lt' (by show 48 + m < 256; omega),
      UInt8.toNat_ofNat_of_lt' (by show 48 + n < 256; omega)] at hvalue
    omega
  have ha := a.isLt
  have hb := b.isLt
  simp only [modeText, List.map_cons, List.map_nil, List.cons.injEq, and_true] at h
  obtain ⟨h₁, h₂, h₃, h₄⟩ := h
  have h₁ := hdigit _ _ (by omega) (by omega) h₁
  have h₂ := hdigit _ _ (by omega) (by omega) h₂
  have h₃ := hdigit _ _ (by omega) (by omega) h₃
  have h₄ := hdigit _ _ (by omega) (by omega) h₄
  apply Fin.ext
  omega

theorem LinkTarget.ext {s t : LinkTarget} (h : s.text = t.text) : s = t := by
  cases s
  cases t
  cases h
  rfl

theorem LinkTarget.zero_not_mem (target : LinkTarget) : 0 ∉ encode target.text :=
  zero_not_mem_encode target.no_nul

/-- Two texts in front of a NUL. -/
theorem eq_of_field {s t : String} {a b : List UInt8} (hs : 0 ∉ encode s) (ht : 0 ∉ encode t)
    (h : encode s ++ 0 :: a = encode t ++ 0 :: b) : s = t ∧ a = b := by
  obtain ⟨htext, hrest⟩ := eq_of_terminated hs ht h
  exact ⟨encode_injective htext, hrest⟩

/-- What stands after the path, and the mode if any; `none` is a regular file. A special file
has no word. -/
def nodeTag (directoryWord : String) (directoryRest : List UInt8) :
    Option ClosedNode → List UInt8
  | none => encode "file" ++ [0]
  | some .directory => encode directoryWord ++ 0 :: directoryRest
  | some (.symlink target) => encode "symlink" ++ 0 :: (encode target.text ++ [0])
  | some .special => encode "" ++ [0]

def tagWord (directoryWord : String) : Option ClosedNode → String
  | none => "file"
  | some .directory => directoryWord
  | some (.symlink _) => "symlink"
  | some .special => ""

/-- A tag begins with its word. -/
theorem nodeTag_eq (word : String) (rest : List UInt8) (c : Option ClosedNode) :
    ∃ r, nodeTag word rest c = encode (tagWord word c) ++ 0 :: r := by
  cases c with
  | none => exact ⟨[], rfl⟩
  | some c =>
      cases c with
      | directory => exact ⟨rest, rfl⟩
      | symlink target => exact ⟨_, rfl⟩
      | special => exact ⟨[], rfl⟩

theorem zero_not_mem_tagWord {word : String} (hword : 0 ∉ encode word) (c : Option ClosedNode) :
    0 ∉ encode (tagWord word c) := by
  cases c with
  | none =>
      rw [tagWord]
      decide
  | some c =>
      cases c with
      | directory => exact hword
      | symlink target =>
          rw [tagWord]
          decide
      | special =>
          rw [tagWord]
          decide

/-- A word for directories that no other node has. -/
def fitsDirectory (word : String) : Bool :=
  !(encode word).contains 0 && word != "file" && word != "symlink" && word != ""

/-- Two tags, with what follows them. -/
theorem nodeTag_inj {word : String} {rest : List UInt8} (hword : fitsDirectory word = true)
    {c d : Option ClosedNode} {s t : List UInt8}
    (h : nodeTag word rest c ++ s = nodeTag word rest d ++ t) : c = d ∧ s = t := by
  simp only [fitsDirectory, Bool.and_eq_true, Bool.not_eq_true', List.contains_eq_mem,
    decide_eq_false_iff_not, bne_iff_ne] at hword
  obtain ⟨⟨⟨hzero, hfile⟩, hlink⟩, hnone⟩ := hword
  have hwords : tagWord word c = tagWord word d := by
    obtain ⟨r, hc⟩ := nodeTag_eq word rest c
    obtain ⟨r', hd⟩ := nodeTag_eq word rest d
    rw [hc, hd, List.append_assoc, List.append_assoc] at h
    exact (eq_of_field (zero_not_mem_tagWord hzero c) (zero_not_mem_tagWord hzero d) h).1
  have hsame : c = d → s = t := by
    rintro rfl
    exact List.append_cancel_left h
  cases c with
  | none =>
      cases d with
      | none => exact ⟨rfl, hsame rfl⟩
      | some d =>
          cases d with
          | directory => exact absurd hwords.symm hfile
          | symlink target => exact absurd hwords (by simp [tagWord])
          | special => exact absurd hwords (by simp [tagWord])
  | some c =>
      cases c with
      | directory =>
          cases d with
          | none => exact absurd hwords hfile
          | some d =>
              cases d with
              | directory => exact ⟨rfl, hsame rfl⟩
              | symlink target => exact absurd hwords hlink
              | special => exact absurd hwords hnone
      | special =>
          cases d with
          | none => exact absurd hwords (by simp [tagWord])
          | some d =>
              cases d with
              | directory => exact absurd hwords.symm hnone
              | symlink target => exact absurd hwords (by simp [tagWord])
              | special => exact ⟨rfl, hsame rfl⟩
      | symlink target =>
          cases d with
          | none => exact absurd hwords (by simp [tagWord])
          | some d =>
              cases d with
              | directory => exact absurd hwords.symm hlink
              | special => exact absurd hwords (by simp [tagWord])
              | symlink target' =>
                  -- the targets are fields of their own
                  simp only [nodeTag, List.append_assoc, List.cons_append, List.nil_append] at h
                  have hrest := List.cons.inj (List.append_cancel_left h) |>.2
                  obtain ⟨htext, hst⟩ :=
                    eq_of_field target.zero_not_mem target'.zero_not_mem hrest
                  exact ⟨by rw [LinkTarget.ext htext], hst⟩

/-- The path and the attributes of a head. -/
def headLabel {α : Type} : ClosedHead α ⊕ RawHead α → RelPath × α
  | .inl head => head.1
  | .inr head => head

/-- What a head announces; `none` is a regular file. -/
def headNode {α : Type} : ClosedHead α ⊕ RawHead α → Option ClosedNode
  | .inl head => some head.2
  | .inr _ => none

theorem head_ext {α : Type} {x y : ClosedHead α ⊕ RawHead α} (hlabel : headLabel x = headLabel y)
    (hnode : headNode x = headNode y) : x = y := by
  rcases x with ⟨label, node⟩ | label <;> rcases y with ⟨label', node'⟩ | label' <;>
    simp_all [headLabel, headNode]

/-! ### `tree_digest` -/

/-- The head of an entry in `tree_digest`. -/
def stagingHead (head : ClosedHead (Fin 4096) ⊕ RawHead (Fin 4096)) : List UInt8 :=
  encode (headLabel head).1.asPosix ++
    0 :: (modeText (headLabel head).2 ++ 0 :: nodeTag "directory" [] (headNode head))

def stagingAdmits : ClosedNode → Bool
  | .special => false
  | _ => true

theorem zero_suffix_nodeTag (word : String) {rest : List UInt8} (hrest : [0] <:+ 0 :: rest)
    (c : Option ClosedNode) : [0] <:+ nodeTag word rest c := by
  cases c with
  | none => exact List.suffix_append _ _
  | some c =>
      cases c with
      | directory => exact hrest.trans (List.suffix_append _ _)
      | symlink target =>
          rw [nodeTag, ← List.cons_append, ← List.append_assoc]
          exact List.suffix_append _ _
      | special => exact List.suffix_append _ _

theorem readable_staging :
    Readable stagingHead [0] (Admissible RelPath.asPosix stagingAdmits) where
  cut _ _ := Admissible.cut pathOrder_asPosix
  head_ne_nil _ _ x _ := by simp [stagingHead]
  head_inj := by
    intro _ _ _ _ x _ y _ s t h
    simp only [stagingHead, List.append_assoc, List.cons_append] at h
    obtain ⟨hpath, h⟩ := eq_of_field (RelPath.zero_not_mem _) (RelPath.zero_not_mem _) h
    obtain ⟨hmode, h⟩ := eq_of_terminated (zero_not_mem_modeText _) (zero_not_mem_modeText _) h
    obtain ⟨hnode, hst⟩ := nodeTag_inj (by decide) h
    refine ⟨head_ext (Prod.ext (RelPath.asPosix_injective hpath) (modeText_injective hmode)) hnode,
      hst⟩
  tail_closed _ _ c _ := by
    have htag := zero_suffix_nodeTag "directory" List.suffix_rfl (headNode (.inl c))
    have hmode := htag.trans ((List.suffix_cons 0 _).trans (List.suffix_append
      (modeText (headLabel (.inl c)).2) _))
    exact hmode.trans ((List.suffix_cons 0 _).trans (List.suffix_append (encode _) _))

/-! ### `_tree_content_digest` -/

/-- The head of an entry in `_tree_content_digest`. -/
def contentHead (head : ClosedHead Unit ⊕ RawHead Unit) : List UInt8 :=
  encode (headLabel head).1.asPosix ++ 0 :: nodeTag "dir" [0] (headNode head)

def contentAdmits : ClosedNode → Bool := fun _ => true

theorem readable_content :
    Readable contentHead [0] (Admissible RelPath.asPosix contentAdmits) where
  cut _ _ := Admissible.cut pathOrder_asPosix
  head_ne_nil _ _ x _ := by simp [contentHead]
  head_inj := by
    intro _ _ _ _ x _ y _ s t h
    simp only [contentHead, List.append_assoc, List.cons_append] at h
    obtain ⟨hpath, h⟩ := eq_of_field (RelPath.zero_not_mem _) (RelPath.zero_not_mem _) h
    obtain ⟨hnode, hst⟩ := nodeTag_inj (by decide) h
    exact ⟨head_ext (Prod.ext (RelPath.asPosix_injective hpath) rfl) hnode, hst⟩
  tail_closed _ _ c _ := by
    have htag := zero_suffix_nodeTag "dir" (List.suffix_cons 0 [0]) (headNode (.inl c))
    exact htag.trans ((List.suffix_cons 0 _).trans (List.suffix_append (encode _) _))

/-! ### The digests of static artifacts -/

/-- The head of an entry in `_static_tree_digest` and the manifest's `_tree_digest`. -/
def staticHead (head : ClosedHead Unit ⊕ RawHead Unit) : List UInt8 :=
  encode (if headNode head = none then "f" else "d") ++
    0 :: (encode (headLabel head).1.asPosix ++ [0])

def staticAdmits : ClosedNode → Bool
  | .directory => true
  | _ => false

theorem readable_static : Readable staticHead [] (Admissible RelPath.parts staticAdmits) where
  cut _ _ := Admissible.cut pathOrder_parts
  head_ne_nil _ _ x _ := by simp [staticHead]
  head_inj := by
    intro xs ys hxs hys x hx y hy s t h
    have hletter : ∀ b : Prop, ∀ [Decidable b], 0 ∉ encode (if b then "f" else "d") := by
      intro b _
      split <;> decide
    simp only [staticHead, List.append_assoc, List.cons_append, List.nil_append] at h
    obtain ⟨hkind, h⟩ := eq_of_field (hletter _) (hletter _) h
    obtain ⟨hpath, hst⟩ := eq_of_field (RelPath.zero_not_mem _) (RelPath.zero_not_mem _) h
    refine ⟨head_ext (Prod.ext (RelPath.asPosix_injective hpath) rfl) ?_, hst⟩
    -- the only nodes with a letter of their own are directories
    have hdirectory : ∀ (heads : List (ClosedHead Unit ⊕ RawHead Unit)),
        Admissible RelPath.parts staticAdmits heads → ∀ head ∈ heads,
        headNode head = none ∨ headNode head = some .directory := by
      intro heads hheads head hhead
      rcases head with ⟨label, node⟩ | label
      · have hadmits := hheads.admitted _ hhead
        cases node with
        | directory => exact .inr rfl
        | symlink target => exact absurd hadmits (by simp [staticAdmits])
        | special => exact absurd hadmits (by simp [staticAdmits])
      · exact .inl rfl
    rcases hdirectory xs hxs x hx with hx | hx <;> rcases hdirectory ys hys y hy with hy | hy <;>
      simp_all
  tail_closed _ _ c _ := List.nil_suffix

/-! ### The streams are framed -/

/-- A loop over entries succeeds exactly when every entry is accepted. -/
theorem updates_eq_ok (frame : TreeEntry → Except TreeError (List UInt8))
    (bytes : TreeEntry → List UInt8) (admitted : TreeEntry → Bool)
    (hframe : ∀ e, (admitted e = true ∧ frame e = .ok (bytes e)) ∨
      (admitted e = false ∧ ∃ error, frame e = .error error))
    {entries : List TreeEntry} {s : List UInt8} :
    updates frame entries = .ok s ↔
      (∀ e ∈ entries, admitted e = true) ∧ s = entries.flatMap bytes := by
  induction entries generalizing s with
  | nil =>
      rw [updates, Except.ok.injEq, List.flatMap_nil, eq_comm]
      simp
  | cons e entries ih =>
      rw [List.forall_mem_cons, List.flatMap_cons]
      rcases hframe e with ⟨hadmitted, hok⟩ | ⟨hadmitted, error, herror⟩
      · rw [updates, hok]
        simp only [bind, Except.bind]
        cases hrest : updates frame entries with
        | ok rest =>
            obtain ⟨hall, hbytes⟩ := ih.mp hrest
            rw [← hbytes]
            constructor
            · intro h
              exact ⟨⟨hadmitted, hall⟩, (Except.ok.inj h).symm⟩
            · rintro ⟨-, rfl⟩
              rfl
        | error error =>
            constructor
            · intro h
              exact absurd h (by simp)
            · rintro ⟨⟨-, hall⟩, -⟩
              have hsome := ih.mpr ⟨hall, rfl⟩
              rw [hrest] at hsome
              exact absurd hsome (by simp)
      · rw [updates, herror]
        constructor
        · intro h
          exact absurd h (by simp [bind, Except.bind])
        · rintro ⟨⟨h, -⟩, -⟩
          rw [hadmitted] at h
          exact absurd h (by decide)

theorem Tree.admitted_inOrder {κ : Type} [LinearOrder κ] (key : RelPath → κ)
    (admits : ClosedNode → Bool) (tree : Tree) :
    (∀ e ∈ tree.inOrder key, e.node.admitted admits = true) ↔ tree.Admitted admits := by
  simp only [(tree.perm_inOrder key).mem_iff, Tree.Admitted]

/-- The stream of a tree, entry after entry. -/
theorem stream_items {α κ : Type} [LinearOrder κ] (key : RelPath → κ) (attr : Fin 4096 → α)
    (head : ClosedHead α ⊕ RawHead α → List UInt8) (tail : List UInt8) (tree : Tree) :
    stream head tail (tree.items key attr) =
      (tree.inOrder key).flatMap fun e => (itemOf (e.seen attr)).frame head tail := by
  rw [stream, Tree.items, List.flatMap_map]

theorem stagingFrame_cases (e : TreeEntry) :
    (e.node.admitted stagingAdmits = true ∧
        stagingFrame e = .ok ((itemOf (e.seen id)).frame stagingHead [0])) ∨
      (e.node.admitted stagingAdmits = false ∧ ∃ error, stagingFrame e = .error error) := by
  obtain ⟨path, mode, node⟩ := e
  cases node with
  | special => exact .inr ⟨rfl, _, rfl⟩
  | _ =>
      refine .inl ⟨rfl, ?_⟩
      simp [stagingFrame, TreeEntry.seen, itemOf, Item.frame, stagingHead, headLabel, headNode,
        nodeTag]

theorem contentFrame_eq (e : TreeEntry) :
    contentFrame e = (itemOf (e.seen fun _ => ())).frame contentHead [0] := by
  obtain ⟨path, mode, node⟩ := e
  cases node <;>
    simp [contentFrame, TreeEntry.seen, itemOf, Item.frame, contentHead, headLabel, headNode,
      nodeTag, encode]

theorem staticFrame_cases (symlinkError specialError : TreeError) (e : TreeEntry) :
    (e.node.admitted staticAdmits = true ∧ staticFrame symlinkError specialError e =
        .ok ((itemOf (e.seen fun _ => ())).frame staticHead [])) ∨
      (e.node.admitted staticAdmits = false ∧
        ∃ error, staticFrame symlinkError specialError e = .error error) := by
  obtain ⟨path, mode, node⟩ := e
  cases node with
  | file content =>
      refine .inl ⟨rfl, ?_⟩
      simp [staticFrame, TreeEntry.seen, itemOf, Item.frame, staticHead, headLabel, headNode]
  | directory =>
      refine .inl ⟨rfl, ?_⟩
      simp [staticFrame, TreeEntry.seen, itemOf, Item.frame, staticHead, headLabel, headNode]
  | symlink target => exact .inr ⟨rfl, _, rfl⟩
  | special => exact .inr ⟨rfl, _, rfl⟩

/-- The stream of `tree_digest`, framed. -/
theorem treeDigestStream_eq_ok {tree : Tree} {s : List UInt8} :
    treeDigestStream tree = .ok s ↔ tree.Admitted stagingAdmits ∧
      s = (encode "root" ++ 0 :: (modeText tree.rootMode ++ [0])) ++
        stream stagingHead [0] (tree.items RelPath.asPosix id) := by
  have hupdates : ∀ body, updates stagingFrame (byPosix tree.entries) = .ok body ↔
      tree.Admitted stagingAdmits ∧
        body = stream stagingHead [0] (tree.items RelPath.asPosix id) := by
    intro body
    rw [stream_items, ← tree.admitted_inOrder RelPath.asPosix stagingAdmits]
    exact updates_eq_ok _ _ _ stagingFrame_cases
  rw [treeDigestStream]
  cases hbody : updates stagingFrame (byPosix tree.entries) with
  | ok body =>
      obtain ⟨hadmitted, rfl⟩ := (hupdates body).mp hbody
      simp [bind, Except.bind, hadmitted, eq_comm]
  | error error =>
      constructor
      · intro h
        exact absurd h (by simp [bind, Except.bind])
      · rintro ⟨hadmitted, -⟩
        have hsome := (hupdates _).mpr ⟨hadmitted, rfl⟩
        rw [hbody] at hsome
        exact absurd hsome (by simp)

/-- The stream of `_tree_content_digest`, framed. -/
theorem treeContentStream_eq {tree : Tree} {s : List UInt8} :
    (.ok (treeContentStream (some tree)) : Except TreeError (List UInt8)) = .ok s ↔
      tree.Admitted contentAdmits ∧
        s = stream contentHead [0] (tree.items RelPath.asPosix fun _ => ()) := by
  have hadmitted : tree.Admitted contentAdmits := by
    intro e _
    cases e.node <;> rfl
  rw [stream_items, Except.ok.injEq, and_iff_right hadmitted, eq_comm,
    treeContentStream]
  rw [show contentFrame = _ from funext contentFrame_eq]
  rfl

/-- The streams of static artifacts, framed. -/
theorem staticStream_eq_ok (symlinkError specialError : TreeError) {tree : Tree} {s : List UInt8} :
    updates (staticFrame symlinkError specialError) (byParts tree.entries) = .ok s ↔
      tree.Admitted staticAdmits ∧
        s = stream staticHead [] (tree.items RelPath.parts fun _ => ()) := by
  rw [stream_items, ← tree.admitted_inOrder RelPath.parts staticAdmits]
  exact updates_eq_ok _ _ _ (staticFrame_cases symlinkError specialError)

/-! ### When a digest separates -/

/-- The two trees have the same entries, as far as the digest looks at them. -/
def SameEntries {α : Type} (attr : Fin 4096 → α) (tree' tree : Tree) : Prop :=
  (tree'.entries.map (TreeEntry.seen attr)).Perm (tree.entries.map (TreeEntry.seen attr))

/-- A digest tells a tree from every tree that is different. -/
def Separates (treeStream : Tree → Except TreeError (List UInt8)) (same : Tree → Tree → Prop)
    (tree : Tree) : Prop :=
  ∀ tree' s, treeStream tree = .ok s → treeStream tree' = .ok s → same tree' tree

/-- A regular file of the tree can swallow the entries after it, or its content ends in the
frames of further entries. -/
def Tree.ExposedIn {α κ : Type} [LinearOrder κ] (key : RelPath → κ) (admits : ClosedNode → Bool)
    (attr : Fin 4096 → α) (head : ClosedHead α ⊕ RawHead α → List UInt8) (tail : List UInt8)
    (tree : Tree) : Prop :=
  tree.Admitted admits ∧ Exposed head tail (Admissible key admits) (tree.items key attr)

section Separation

variable {α κ : Type} [LinearOrder κ] {key : RelPath → κ} {admits : ClosedNode → Bool}
  {head : ClosedHead α ⊕ RawHead α → List UInt8} {tail : List UInt8} {attr : Fin 4096 → α}

/-- **Separation**, for any digest whose stream is framed behind a header. -/
theorem separates_iff (treeStream : Tree → Except TreeError (List UInt8))
    {header : Fin 4096 → List UInt8} {covered : Fin 4096 → Fin 4096 → Prop}
    (hstream : ∀ tree s, treeStream tree = .ok s ↔ tree.Admitted admits ∧
      s = header tree.rootMode ++ stream head tail (tree.items key attr))
    (hheader : ∀ m m' s s', header m ++ s = header m' ++ s' → covered m m' ∧ s = s')
    (horder : PathOrder key) (hread : Readable head tail (Admissible key admits))
    (back : α → Fin 4096) (hback : ∀ a, attr (back a) = a) (tree : Tree) :
    Separates treeStream (fun tree' tree => covered tree'.rootMode tree.rootMode ∧
        SameEntries attr tree' tree) tree ↔
      ¬ tree.ExposedIn key admits attr head tail := by
  constructor
  · rintro hsep ⟨hadm, hexposed⟩
    refine not_exposed_of_separated horder hread hback hadm (fun tree' hmode hadm' h => ?_) hexposed
    refine (hsep tree' _ ((hstream tree _).mpr ⟨hadm, rfl⟩) ((hstream tree' _).mpr ⟨hadm', ?_⟩)).2
    rw [hmode, h]
  · intro hexposed tree' s hs hs'
    obtain ⟨hadm, rfl⟩ := (hstream tree s).mp hs
    obtain ⟨hadm', h⟩ := (hstream tree' _).mp hs'
    obtain ⟨hcovered, hbody⟩ := hheader _ _ _ _ h.symm
    exact ⟨hcovered,
      perm_of_stream_eq horder hread (fun h => hexposed ⟨hadm, h⟩) hadm hadm' hbody⟩

/-- Separation by a digest that looks at no modes. -/
theorem separates_unit_iff (treeStream : Tree → Except TreeError (List UInt8))
    {head : ClosedHead Unit ⊕ RawHead Unit → List UInt8}
    (hstream : ∀ tree s, treeStream tree = .ok s ↔ tree.Admitted admits ∧
      s = stream head tail (tree.items key fun _ => ()))
    (horder : PathOrder key) (hread : Readable head tail (Admissible key admits)) (tree : Tree) :
    Separates treeStream (SameEntries fun _ => ()) tree ↔
      ¬ tree.ExposedIn key admits (fun _ => ()) head tail := by
  have hheader : ∀ (m m' : Fin 4096) (s s' : List UInt8),
      (fun _ => []) m ++ s = (fun _ => []) m' ++ s' → (fun _ _ => True) m m' ∧ s = s' :=
    fun _ _ _ _ h => ⟨trivial, h⟩
  have h := separates_iff treeStream hstream hheader horder hread
    (fun _ => 0) (fun _ => rfl) tree
  simpa only [true_and] using h

end Separation

/-- **What the digests separate.** Each of the four tells a tree from every other one exactly
when the tree has no exposed file. -/
theorem tree_digests_separate_iff (tree : Tree) :
    (Separates treeDigestStream
        (fun tree' tree => tree'.rootMode = tree.rootMode ∧ SameEntries id tree' tree) tree ↔
      ¬ tree.ExposedIn RelPath.asPosix stagingAdmits id stagingHead [0]) ∧
    (Separates (fun tree => .ok (treeContentStream (some tree))) (SameEntries fun _ => ()) tree ↔
      ¬ tree.ExposedIn RelPath.asPosix contentAdmits (fun _ => ()) contentHead [0]) ∧
    (Separates staticTreeStream (SameEntries fun _ => ()) tree ↔
      ¬ tree.ExposedIn RelPath.parts staticAdmits (fun _ => ()) staticHead []) ∧
    (Separates manifestTreeStream (SameEntries fun _ => ()) tree ↔
      ¬ tree.ExposedIn RelPath.parts staticAdmits (fun _ => ()) staticHead []) := by
  have hheader : ∀ (m m' : Fin 4096) (s s' : List UInt8),
      (encode "root" ++ 0 :: (modeText m ++ [0])) ++ s =
        (encode "root" ++ 0 :: (modeText m' ++ [0])) ++ s' → m = m' ∧ s = s' := by
    intro m m' s s' h
    simp only [List.append_assoc, List.cons_append, List.nil_append] at h
    have hrest := (List.cons.inj (List.append_cancel_left h)).2
    obtain ⟨hmode, hbody⟩ :=
      eq_of_terminated (zero_not_mem_modeText m) (zero_not_mem_modeText m') hrest
    exact ⟨modeText_injective hmode, hbody⟩
  refine ⟨?_, ?_, ?_, ?_⟩
  · exact separates_iff treeDigestStream (fun _ _ => treeDigestStream_eq_ok) hheader
      pathOrder_asPosix readable_staging id (fun _ => rfl) tree
  · exact separates_unit_iff _ (fun _ _ => treeContentStream_eq) pathOrder_asPosix
      readable_content tree
  · exact separates_unit_iff staticTreeStream (fun _ _ => staticStream_eq_ok _ _) pathOrder_parts
      readable_static tree
  · exact separates_unit_iff manifestTreeStream (fun _ _ => staticStream_eq_ok _ _)
      pathOrder_parts readable_static tree

/-- A file `a` in a directory of its own. -/
def singleFile (content : List UInt8) : Tree where
  rootMode := 0o755
  entries := [⟨⟨["a"], by decide, by decide⟩, 0o644, .file content⟩]
  nodup := List.nodup_singleton _
  parents := by
    intro e he parent hparent
    rw [List.mem_singleton] at he
    subst he
    exact absurd hparent (by simp [RelPath.parent?])

/-- Two empty files `a` and `b`. -/
def twoFiles : Tree where
  rootMode := 0o755
  entries := [⟨⟨["a"], by decide, by decide⟩, 0o644, .file []⟩,
    ⟨⟨["b"], by decide, by decide⟩, 0o644, .file []⟩]
  nodup := by decide
  parents := by
    intro e he parent hparent
    rw [List.mem_pair] at he
    rcases he with rfl | rfl <;> exact absurd hparent (by simp [RelPath.parent?])

theorem not_sameEntries {α : Type} (attr : Fin 4096 → α) (content : List UInt8) :
    ¬ SameEntries attr (singleFile content) twoFiles := by
  intro h
  exact absurd h.length_eq (by simp [singleFile, twoFiles])

/-- A file whose content spells the frame of `b` passes for the two files, in each digest. -/
theorem twoFiles_collide :
    ¬ Separates treeDigestStream
      (fun tree' tree => tree'.rootMode = tree.rootMode ∧ SameEntries id tree' tree) twoFiles ∧
    ¬ Separates (fun tree => .ok (treeContentStream (some tree))) (SameEntries fun _ => ())
      twoFiles ∧
    ¬ Separates staticTreeStream (SameEntries fun _ => ()) twoFiles ∧
    ¬ Separates manifestTreeStream (SameEntries fun _ => ()) twoFiles := by
  refine ⟨fun h => ?_, fun h => ?_, fun h => ?_, fun h => ?_⟩
  · exact not_sameEntries id _
      (h (singleFile (encode "\x00b\x000644\x00file\x00")) _ rfl (by decide +kernel)).2
  · exact not_sameEntries _ _ (h (singleFile (encode "\x00b\x00file\x00")) _ rfl (by decide +kernel))
  · exact not_sameEntries _ _ (h (singleFile (encode "f\x00b\x00")) _ rfl (by decide +kernel))
  · exact not_sameEntries _ _ (h (singleFile (encode "f\x00b\x00")) _ rfl (by decide +kernel))

end Ophelia
