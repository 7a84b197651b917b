import Mathlib.Algebra.Order.BigOperators.Group.List
import Ophelia.Lib.JsonSound

/-!
# Ophelia.Lib.GoJson

Two writers of JSON with compact separators, in the order of the document: the one of Python that
leaves characters outside ASCII alone, and the one of Go's `encoding/json` with its default HTML
escaping. Both write a value piece by piece: the marks of the syntax, the characters of its texts
and its floating-point numbers.

Two writers that agree on a piece or of which the second one writes more there agree on a value if
and only if they agree on each of its pieces (`flatMap_eq_iff`).
-/

namespace Json

/-- A piece of a written value. -/
inductive Piece where
  /-- A character outside strings and floating-point numbers, or a quotation mark around a string. -/
  | mark (c : Char)
  /-- A character of a string. -/
  | text (c : Char)
  | float (r : FloatRepr)
deriving DecidableEq

namespace Piece

/-- A word of the syntax, a number or a bracket. -/
def marks (cs : List Char) : List Piece := cs.map mark

/-- A string in quotation marks. -/
def quoted (s : String) : List Piece := mark '"' :: (s.toList.map text ++ [mark '"'])

/-- The form for evaluation: decoding a literal is slow in the kernel. -/
theorem quoted_ofList (l : List Char) :
    quoted (String.ofList l) = mark '"' :: (l.map text ++ [mark '"']) := by
  rw [quoted, String.toList_ofList]

end Piece

mutual

/-- The pieces of a value. -/
def pieces : Json → List Piece
  | .null => Piece.marks ['n', 'u', 'l', 'l']
  | .bool true => Piece.marks ['t', 'r', 'u', 'e']
  | .bool false => Piece.marks ['f', 'a', 'l', 's', 'e']
  | .int n => Piece.marks (intText n)
  | .float r => [.float r]
  | .str s => Piece.quoted s
  | .arr [] => Piece.marks ['[', ']']
  | .arr (x :: xs) => .mark '[' :: (x.pieces ++ itemsPieces xs)
  | .obj [] => Piece.marks ['{', '}']
  | .obj ((k, v) :: ms) =>
      .mark '{' :: (Piece.quoted k ++ .mark ':' :: (v.pieces ++ membersPieces ms))

/-- The items after the first one, with the closing bracket. -/
def itemsPieces : List Json → List Piece
  | [] => [.mark ']']
  | x :: xs => .mark ',' :: (x.pieces ++ itemsPieces xs)

/-- The members after the first one, with the closing brace. -/
def membersPieces : List (String × Json) → List Piece
  | [] => [.mark '}']
  | (k, v) :: ms => .mark ',' :: (Piece.quoted k ++ .mark ':' :: (v.pieces ++ membersPieces ms))

end

/-! ### The writer of Python -/

/-- The escape of a character with `ensure_ascii=False`. -/
def plainEscape (c : Char) : List Char :=
  if c = '"' then ['\\', '"']
  else if c = '\\' then ['\\', '\\']
  else if c = '\n' then ['\\', 'n']
  else if c = '\r' then ['\\', 'r']
  else if c = '\t' then ['\\', 't']
  else if c = '\x0c' then ['\\', 'f']
  else if c = '\x08' then ['\\', 'b']
  else if c.toNat < 32 then escapeUnit c.toNat
  else [c]

def plainPiece : Piece → List Char
  | .mark c => [c]
  | .text c => plainEscape c
  | .float r => r.text

/-- `json.dumps(value, separators=(",", ":"), ensure_ascii=False)`. -/
def plainText (j : Json) : List Char := j.pieces.flatMap plainPiece

/-! ### The writer of Go -/

/-- How Go writes where its releases differ: whether backspace and form feed have short escapes, and
floating-point numbers. -/
structure GoRelease where
  shortEscapes : Bool
  float : FloatRepr → List Char

/-- The escape of a character, HTML escaping included. -/
def goEscape (go : GoRelease) (c : Char) : List Char :=
  if c = '"' then ['\\', '"']
  else if c = '\\' then ['\\', '\\']
  else if c = '\n' then ['\\', 'n']
  else if c = '\r' then ['\\', 'r']
  else if c = '\t' then ['\\', 't']
  else if c = '\x0c' ∧ go.shortEscapes then ['\\', 'f']
  else if c = '\x08' ∧ go.shortEscapes then ['\\', 'b']
  else if c.toNat < 32 ∨ c ∈ ['<', '>', '&', '\u2028', '\u2029'] then escapeUnit c.toNat
  else [c]

def goPiece (go : GoRelease) : Piece → List Char
  | .mark c => [c]
  | .text c => goEscape go c
  | .float r => go.float r

/-- What `json.Encoder` writes for a value: its text and a line feed. -/
def goText (go : GoRelease) (j : Json) : List Char := j.pieces.flatMap (goPiece go) ++ ['\n']

/-! ### Comparing writers -/

/-- Writers that agree on a piece or of which the second one writes more. -/
theorem flatMap_eq_iff {α β : Type} {f g : α → List β} {l : List α}
    (h : ∀ a ∈ l, f a = g a ∨ (f a).length < (g a).length) :
    l.flatMap f = l.flatMap g ↔ ∀ a ∈ l, f a = g a := by
  have hle : ∀ a ∈ l, (f a).length ≤ (g a).length := by
    intro a ha
    rcases h a ha with heq | hlt
    · rw [heq]
    · exact hlt.le
  constructor
  · intro heq
    have hlength := congrArg List.length heq
    rw [List.length_flatMap, List.length_flatMap] at hlength
    intro a ha
    refine (h a ha).resolve_right fun hlt => ?_
    have hsum : (l.map fun a => (f a).length).sum < (l.map fun a => (g a).length).sum :=
      List.sum_lt_sum _ _ hle ⟨a, ha, hlt⟩
    exact absurd hlength hsum.ne
  · intro heq
    exact List.flatMap_congr heq

/-- The characters of the syntax: ASCII, and none that HTML escaping replaces. -/
def isMark (c : Char) : Bool := decide (c.toNat < 128) && !(['<', '>', '&'].contains c)

theorem isMark_of_isNumberChar {c : Char} (h : isNumberChar c = true) : isMark c = true := by
  have hlow : ∀ n : Nat, n < 128 → isNumberChar (Char.ofNat n) = true →
      isMark (Char.ofNat n) = true := by decide +kernel
  have hlt : c.toNat < 128 := by
    simp only [isNumberChar, Char.isDigit, Bool.or_eq_true, Bool.and_eq_true, decide_eq_true_eq,
      beq_iff_eq] at h
    rcases h with (((h | rfl) | rfl) | rfl) | rfl
    · exact Nat.lt_of_le_of_lt h.2 (by decide)
    all_goals decide
  have hc := hlow c.toNat hlt
  rw [Char.ofNat_toNat] at hc
  exact hc h

/-- The marks among pieces are characters of the syntax. -/
def MarksOk (ps : List Piece) : Prop := ∀ c, .mark c ∈ ps → isMark c = true

theorem marksOk_append {ps qs : List Piece} (hps : MarksOk ps) (hqs : MarksOk qs) :
    MarksOk (ps ++ qs) := by
  intro c hc
  rcases List.mem_append.mp hc with hc | hc
  · exact hps c hc
  · exact hqs c hc

theorem marksOk_cons {c : Char} (hc : isMark c = true) {ps : List Piece} (hps : MarksOk ps) :
    MarksOk (.mark c :: ps) := by
  intro d hd
  rcases List.mem_cons.mp hd with hd | hd
  · cases hd
    exact hc
  · exact hps d hd

theorem marksOk_marks {cs : List Char} (h : cs.all isMark = true) :
    MarksOk (Piece.marks cs) := by
  intro c hc
  obtain ⟨d, hd, heq⟩ := List.mem_map.mp hc
  cases heq
  exact List.all_eq_true.mp h c hd

theorem marksOk_quoted (s : String) : MarksOk (Piece.quoted s) := by
  refine marksOk_cons (by decide) (marksOk_append ?_ (marksOk_cons (by decide) ?_))
  · intro c hc
    obtain ⟨d, -, heq⟩ := List.mem_map.mp hc
    cases heq
  · intro c hc
    cases hc

theorem marksOk_itemsPieces {xs : List Json} (h : ∀ x ∈ xs, MarksOk x.pieces) :
    MarksOk (itemsPieces xs) := by
  induction xs with
  | nil => exact @marksOk_marks [']'] (by decide)
  | cons x xs ih =>
      exact marksOk_cons (by decide) (marksOk_append (h x List.mem_cons_self)
        (ih fun y hy => h y (List.mem_cons_of_mem x hy)))

theorem marksOk_membersPieces {ms : List (String × Json)} (h : ∀ m ∈ ms, MarksOk m.2.pieces) :
    MarksOk (membersPieces ms) := by
  induction ms with
  | nil => exact @marksOk_marks ['}'] (by decide)
  | cons m ms ih =>
      refine marksOk_cons (by decide) (marksOk_append (marksOk_quoted m.1)
        (marksOk_cons (by decide) (marksOk_append (h m List.mem_cons_self) ?_)))
      exact ih fun n hn => h n (List.mem_cons_of_mem m hn)

theorem marksOk_pieces (j : Json) : MarksOk j.pieces := by
  induction j using Json.induction with
  | null => exact marksOk_marks (by decide)
  | bool b =>
      cases b with
      | false => exact marksOk_marks (by decide)
      | true => exact marksOk_marks (by decide)
  | int n =>
      exact marksOk_marks (List.all_eq_true.mpr fun c hc =>
        isMark_of_isNumberChar (isNumberChar_intText hc))
  | float r =>
      intro c hc
      cases List.mem_singleton.mp hc
  | str s => exact marksOk_quoted s
  | arr xs ih =>
      cases xs with
      | nil => exact marksOk_marks (by decide)
      | cons x xs =>
          exact marksOk_cons (by decide) (marksOk_append (ih x List.mem_cons_self)
            (marksOk_itemsPieces fun y hy => ih y (List.mem_cons_of_mem x hy)))
  | obj ms ih =>
      cases ms with
      | nil => exact marksOk_marks (by decide)
      | cons m ms =>
          refine marksOk_cons (by decide) (marksOk_append (marksOk_quoted m.1)
            (marksOk_cons (by decide) (marksOk_append (ih m List.mem_cons_self) ?_)))
          exact marksOk_membersPieces fun n hn => ih n (List.mem_cons_of_mem m hn)

/-! ### Values without floating-point numbers -/

/-- No floating-point number occurs in a value. -/
def FloatFree (j : Json) : Prop := ∀ r, .float r ∉ j.pieces

theorem float_notMem_marks {cs : List Char} {r : FloatRepr} : .float r ∉ Piece.marks cs := by
  intro h
  obtain ⟨c, -, heq⟩ := List.mem_map.mp h
  cases heq

theorem float_notMem_quoted {s : String} {r : FloatRepr} : .float r ∉ Piece.quoted s := by
  intro h
  rcases List.mem_cons.mp h with h | h
  · cases h
  · rcases List.mem_append.mp h with h | h
    · obtain ⟨c, -, heq⟩ := List.mem_map.mp h
      cases heq
    · cases List.mem_singleton.mp h

theorem floatFree_null : FloatFree .null := fun _ => float_notMem_marks

theorem floatFree_bool (b : Bool) : FloatFree (.bool b) := by
  cases b with
  | false => exact fun _ => float_notMem_marks
  | true => exact fun _ => float_notMem_marks

theorem floatFree_int (n : Int) : FloatFree (.int n) := fun _ => float_notMem_marks

theorem floatFree_str (s : String) : FloatFree (.str s) := fun _ => float_notMem_quoted

theorem float_notMem_itemsPieces {xs : List Json} (h : ∀ x ∈ xs, FloatFree x) {r : FloatRepr} :
    .float r ∉ itemsPieces xs := by
  induction xs with
  | nil => exact @float_notMem_marks [']'] r
  | cons x xs ih =>
      intro hmem
      rcases List.mem_cons.mp hmem with hmem | hmem
      · cases hmem
      · rcases List.mem_append.mp hmem with hmem | hmem
        · exact h x List.mem_cons_self r hmem
        · exact ih (fun y hy => h y (List.mem_cons_of_mem x hy)) hmem

theorem floatFree_arr {xs : List Json} (h : ∀ x ∈ xs, FloatFree x) : FloatFree (.arr xs) := by
  intro r hmem
  cases xs with
  | nil => exact float_notMem_marks hmem
  | cons x xs =>
      rcases List.mem_cons.mp hmem with hmem | hmem
      · cases hmem
      · rcases List.mem_append.mp hmem with hmem | hmem
        · exact h x List.mem_cons_self r hmem
        · exact float_notMem_itemsPieces (fun y hy => h y (List.mem_cons_of_mem x hy)) hmem

theorem float_notMem_member {k : String} {v : Json} (hv : FloatFree v) {ps : List Piece}
    {r : FloatRepr} (hps : .float r ∉ ps) :
    .float r ∉ Piece.quoted k ++ .mark ':' :: (v.pieces ++ ps) := by
  intro hmem
  rcases List.mem_append.mp hmem with hmem | hmem
  · exact float_notMem_quoted hmem
  · rcases List.mem_cons.mp hmem with hmem | hmem
    · cases hmem
    · rcases List.mem_append.mp hmem with hmem | hmem
      · exact hv r hmem
      · exact hps hmem

theorem float_notMem_membersPieces {ms : List (String × Json)} (h : ∀ m ∈ ms, FloatFree m.2)
    {r : FloatRepr} : .float r ∉ membersPieces ms := by
  induction ms with
  | nil => exact @float_notMem_marks ['}'] r
  | cons m ms ih =>
      intro hmem
      rcases List.mem_cons.mp hmem with hmem | hmem
      · cases hmem
      · exact float_notMem_member (h m List.mem_cons_self)
          (ih fun n hn => h n (List.mem_cons_of_mem m hn)) hmem

theorem floatFree_obj {ms : List (String × Json)} (h : ∀ m ∈ ms, FloatFree m.2) :
    FloatFree (.obj ms) := by
  intro r hmem
  cases ms with
  | nil => exact float_notMem_marks hmem
  | cons m ms =>
      rcases List.mem_cons.mp hmem with hmem | hmem
      · cases hmem
      · exact float_notMem_member (h m List.mem_cons_self)
          (float_notMem_membersPieces fun n hn => h n (List.mem_cons_of_mem m hn)) hmem

theorem mem_membersPieces {ms : List (String × Json)} {m : String × Json} (hm : m ∈ ms) {p : Piece}
    (hp : p ∈ m.2.pieces) : p ∈ membersPieces ms := by
  induction ms with
  | nil => cases hm
  | cons n ms ih =>
      refine List.mem_cons_of_mem _ (List.mem_append_right _ (List.mem_cons_of_mem _ ?_))
      rcases List.mem_cons.mp hm with rfl | hm
      · exact List.mem_append_left _ hp
      · exact List.mem_append_right _ (ih hm)

theorem FloatFree.member {ms : List (String × Json)} (h : FloatFree (.obj ms))
    {m : String × Json} (hm : m ∈ ms) : m.2.FloatFree := by
  intro r hr
  refine h r ?_
  cases ms with
  | nil => cases hm
  | cons n ms =>
      refine List.mem_cons_of_mem _ (List.mem_append_right _ (List.mem_cons_of_mem _ ?_))
      rcases List.mem_cons.mp hm with rfl | hm
      · exact List.mem_append_left _ hr
      · exact List.mem_append_right _ (mem_membersPieces hm hr)

/-! ### Objects that repeat no key -/

mutual

/-- No object in a value repeats a key. -/
def strict : Json → Bool
  | .arr xs => strictItems xs
  | .obj ms => decide (ms.map Prod.fst).Nodup && strictMembers ms
  | _ => true

def strictItems : List Json → Bool
  | [] => true
  | x :: xs => x.strict && strictItems xs

def strictMembers : List (String × Json) → Bool
  | [] => true
  | (_, v) :: ms => v.strict && strictMembers ms

end

theorem strict_of_mem_items {xs : List Json} (h : (Json.arr xs).strict = true) {x : Json}
    (hx : x ∈ xs) : x.strict = true := by
  change strictItems xs = true at h
  induction xs with
  | nil => cases hx
  | cons y xs ih =>
      rw [strictItems, Bool.and_eq_true] at h
      rcases List.mem_cons.mp hx with rfl | hx
      · exact h.1
      · exact ih hx h.2

theorem strict_of_mem_members {ms : List (String × Json)} (h : (Json.obj ms).strict = true)
    {m : String × Json} (hm : m ∈ ms) : m.2.strict = true := by
  rw [strict, Bool.and_eq_true] at h
  replace h := h.2
  induction ms with
  | nil => cases hm
  | cons n ms ih =>
      obtain ⟨k, v⟩ := n
      rw [strictMembers, Bool.and_eq_true] at h
      rcases List.mem_cons.mp hm with rfl | hm
      · exact h.1
      · exact ih hm h.2

theorem get?_of_mem_members {ms : List (String × Json)} (h : (Json.obj ms).strict = true)
    {m : String × Json} (hm : m ∈ ms) : (Json.obj ms).get? m.1 = some m.2 := by
  rw [strict, Bool.and_eq_true, decide_eq_true_eq] at h
  replace h := h.1
  change ms.lookup m.1 = some m.2
  induction ms with
  | nil => cases hm
  | cons n ms ih =>
      rw [List.map_cons, List.nodup_cons] at h
      rw [List.lookup_cons]
      rcases List.mem_cons.mp hm with rfl | hm
      · rw [beq_self_eq_true]
      · have hne : (m.1 == n.1) = false :=
          beq_false_of_ne fun heq => h.1 (heq ▸ List.mem_map_of_mem hm)
        rw [hne]
        exact ih hm h.2

/-- The characters of the texts and keys of a value. -/
def textChars (j : Json) : List Char :=
  j.pieces.filterMap fun p =>
    match p with
    | .text c => some c
    | _ => none

theorem mem_textChars {j : Json} {c : Char} : c ∈ j.textChars ↔ .text c ∈ j.pieces := by
  unfold textChars
  rw [List.mem_filterMap]
  constructor
  · rintro ⟨p, hp, heq⟩
    cases p with
    | text d =>
        cases heq
        exact hp
    | mark d => cases heq
    | float r => cases heq
  · intro h
    exact ⟨.text c, h, rfl⟩

end Json
