import Mathlib.Data.List.Sort
import Mathlib.Data.String.Basic

/-!
# Ophelia.Lib.Json

JSON values and their **canonical text**: compact separators, keys sorted by code
point, everything outside printable ASCII escaped. The module carries a printer
(`dumps`), the reader of that printer's language (`loads`), and the theorem that ties
them together: reading a printed value gives the value back with its keys sorted
(`loads_dumps`). Injectivity of the canonical text (`dumps_eq_iff`) is a corollary.

Two choices to know about.

* Floating-point numbers are kept as the text the printer emits for them
  (`FloatRepr`), so no arithmetic on them is modelled, only their identity.
* `loads` reads exactly the language `dumps` writes. A text with other spacing,
  another key order or another escape is simply not read back.
-/

/-! ### Values -/

/-- The characters a printed number is made of. -/
def Json.isNumberChar (c : Char) : Bool :=
  c.isDigit || c == '-' || c == '+' || c == '.' || c == 'e'

/-- The characters that mark a printed number as a floating-point one. -/
def Json.isFloatMark (c : Char) : Bool :=
  c == '.' || c == 'e'

/-- The shape of a printed floating-point number: number characters only, among them a
point or an exponent, which no integer has. -/
def Json.isFloatText (cs : List Char) : Bool :=
  cs.all Json.isNumberChar && cs.any Json.isFloatMark

/-- A floating-point number, as its printed form. -/
structure FloatRepr where
  text : List Char
  shape : Json.isFloatText text = true
deriving DecidableEq

/-- A JSON value. Objects keep their members in order of insertion. -/
inductive Json where
  | null
  | bool (b : Bool)
  | int (n : Int)
  | float (r : FloatRepr)
  | str (s : String)
  | arr (items : List Json)
  | obj (members : List (String × Json))

namespace Json

/-- Structural induction with the hypotheses for the items and the members at hand. -/
@[elab_as_elim]
theorem induction {P : Json → Prop} (null : P .null) (bool : ∀ b, P (.bool b))
    (int : ∀ n, P (.int n)) (float : ∀ r, P (.float r)) (str : ∀ s, P (.str s))
    (arr : ∀ xs, (∀ x ∈ xs, P x) → P (.arr xs))
    (obj : ∀ ms, (∀ m ∈ ms, P m.2) → P (.obj ms)) (j : Json) : P j :=
  @Json.rec P (fun xs => ∀ x ∈ xs, P x) (fun ms => ∀ m ∈ ms, P m.2) (fun m => P m.2)
    null bool int float str arr obj
    (by simp)
    (fun x xs hx hxs => by
      intro y hy
      rcases List.mem_cons.mp hy with rfl | hy
      · exact hx
      · exact hxs y hy)
    (by simp)
    (fun m ms hm hms => by
      intro y hy
      rcases List.mem_cons.mp hy with rfl | hy
      · exact hm
      · exact hms y hy)
    (fun _ _ h => h) j

/-! ### Equality -/

mutual

/-- Structural equality. -/
def same : Json → Json → Bool
  | .null, .null => true
  | .bool a, .bool b => a == b
  | .int a, .int b => a == b
  | .float a, .float b => decide (a = b)
  | .str a, .str b => a == b
  | .arr xs, .arr ys => sameItems xs ys
  | .obj ms, .obj ns => sameMembers ms ns
  | _, _ => false

def sameItems : List Json → List Json → Bool
  | [], [] => true
  | x :: xs, y :: ys => same x y && sameItems xs ys
  | _, _ => false

def sameMembers : List (String × Json) → List (String × Json) → Bool
  | [], [] => true
  | (k, x) :: ms, (l, y) :: ns => k == l && same x y && sameMembers ms ns
  | _, _ => false

end

theorem same_iff (a b : Json) : same a b = true ↔ a = b := by
  induction a using Json.induction generalizing b with
  | null => cases b <;> simp [same]
  | bool => cases b <;> simp [same]
  | int => cases b <;> simp [same]
  | float => cases b <;> simp [same]
  | str => cases b <;> simp [same]
  | arr xs ih =>
      have h : ∀ ys, sameItems xs ys = true ↔ xs = ys := by
        induction xs with
        | nil => intro ys; cases ys <;> simp [sameItems]
        | cons x xs ihx =>
            intro ys
            cases ys with
            | nil => simp [sameItems]
            | cons y ys =>
                simp [sameItems, ih x (by simp), ihx (fun z hz => ih z (by simp [hz]))]
      cases b <;> simp [same, h]
  | obj ms ih =>
      have h : ∀ ns, sameMembers ms ns = true ↔ ms = ns := by
        induction ms with
        | nil => intro ns; cases ns <;> simp [sameMembers]
        | cons m ms ihm =>
            intro ns
            cases ns with
            | nil => simp [sameMembers]
            | cons n ns =>
                simp [sameMembers, ih m (by simp), ihm (fun z hz => ih z (by simp [hz])),
                  Prod.ext_iff, and_assoc]
      cases b <;> simp [same, h]

instance : DecidableEq Json := fun a b => decidable_of_iff _ (same_iff a b)

/-! ### Members -/

/-- The value of a member, by key; `none` on values that are not objects. -/
def get? (j : Json) (key : String) : Option Json :=
  match j with
  | .obj ms => ms.lookup key
  | _ => none

/-- The keys of an object, `[]` on values that are not objects. -/
def keys : Json → List String
  | .obj ms => ms.map Prod.fst
  | _ => []

/-- Remove a member, `dict.pop(key)`. -/
def pop (j : Json) (key : String) : Json :=
  match j with
  | .obj ms => .obj (ms.filter fun m => m.1 != key)
  | j => j

/-- Add a member that is not there yet, `dict[key] = value`. -/
def add (j : Json) (key : String) (value : Json) : Json :=
  match j with
  | .obj ms => .obj (ms ++ [(key, value)])
  | j => j

/-! ### Keys in code-point order -/

/-- Members in ascending order of their keys. -/
def sortMembers (ms : List (String × Json)) : List (String × Json) :=
  ms.insertionSort fun a b => a.1 ≤ b.1

mutual

/-- Sort the members of every object, at every depth. -/
def sortKeys : Json → Json
  | .arr xs => .arr (sortKeysItems xs)
  | .obj ms => .obj (sortMembers (sortKeysMembers ms))
  | j => j

def sortKeysItems : List Json → List Json
  | [] => []
  | x :: xs => x.sortKeys :: sortKeysItems xs

def sortKeysMembers : List (String × Json) → List (String × Json)
  | [] => []
  | (k, v) :: ms => (k, v.sortKeys) :: sortKeysMembers ms

end

theorem sortKeysItems_eq (xs : List Json) : sortKeysItems xs = xs.map sortKeys := by
  induction xs with
  | nil => rfl
  | cons x xs ih => simp only [sortKeysItems, List.map_cons, ih]

theorem sortKeysMembers_eq (ms : List (String × Json)) :
    sortKeysMembers ms = ms.map fun m => (m.1, m.2.sortKeys) := by
  induction ms with
  | nil => rfl
  | cons m ms ih => simp only [sortKeysMembers, List.map_cons, ih]

/-- Sorting the keys again changes nothing. -/
theorem sortKeys_sortKeys (j : Json) : j.sortKeys.sortKeys = j.sortKeys := by
  induction j using Json.induction with
  | arr xs ih =>
      simp only [sortKeys, sortKeysItems_eq, List.map_map, Json.arr.injEq]
      exact List.map_congr_left fun x hx => ih x hx
  | obj ms ih =>
      have htotal : Std.Total fun a b : String × Json => a.1 ≤ b.1 := ⟨fun a b => le_total a.1 b.1⟩
      have htrans : IsTrans (String × Json) fun a b => a.1 ≤ b.1 := ⟨fun _ _ _ => le_trans⟩
      have hvalues : sortKeysMembers (sortMembers (sortKeysMembers ms)) =
          sortMembers (sortKeysMembers ms) := by
        rw [sortKeysMembers_eq (sortMembers _)]
        refine (List.map_congr_left fun m' hm' => ?_).trans (List.map_id _)
        rw [sortMembers, (List.perm_insertionSort _ _).mem_iff, sortKeysMembers_eq] at hm'
        obtain ⟨m, hm, rfl⟩ := List.mem_map.mp hm'
        simp only [ih m hm, id]
      simp only [sortKeys, hvalues, Json.obj.injEq]
      exact (List.pairwise_insertionSort _ _).insertionSort_eq
  | _ => rfl

/-- Looking a key up does not depend on the order of the members. -/
theorem lookup_perm {ms ms' : List (String × Json)} (hp : ms.Perm ms')
    (hn : (ms.map Prod.fst).Nodup) (k : String) : ms.lookup k = ms'.lookup k := by
  induction hp with
  | nil => rfl
  | cons m _ ih =>
      rw [List.map_cons, List.nodup_cons] at hn
      rw [List.lookup_cons, List.lookup_cons, ih hn.2]
  | swap a b l =>
      obtain ⟨a₁, a₂⟩ := a
      obtain ⟨b₁, b₂⟩ := b
      simp only [List.map_cons, List.nodup_cons, List.mem_cons, not_or] at hn
      simp only [List.lookup_cons]
      by_cases ha : k = a₁
      · have hb : (k == b₁) = false := beq_false_of_ne fun h => hn.1.1 (h.symm.trans ha)
        simp [ha ▸ hb, ha]
      · simp [beq_false_of_ne ha]
  | trans p₁ _ ih₁ ih₂ =>
      rw [ih₁ hn, ih₂ ((p₁.map Prod.fst).nodup_iff.mp hn)]

theorem lookup_mapValues (f : Json → Json) (ms : List (String × Json)) (k : String) :
    (ms.map fun m => (m.1, f m.2)).lookup k = (ms.lookup k).map f := by
  induction ms with
  | nil => rfl
  | cons m ms ih =>
      obtain ⟨k', v⟩ := m
      simp only [List.map_cons, List.lookup_cons, ih]
      cases k == k' <;> rfl

/-- Reading a member of a key-sorted object. -/
theorem get?_sortKeys_obj {ms : List (String × Json)} (hn : (ms.map Prod.fst).Nodup)
    (k : String) : (Json.obj ms).sortKeys.get? k = (ms.lookup k).map sortKeys := by
  have hkeys : ((sortKeysMembers ms).map Prod.fst).Nodup := by
    simpa [sortKeysMembers_eq, List.map_map, Function.comp_def] using hn
  have hperm : (sortMembers (sortKeysMembers ms)).Perm (sortKeysMembers ms) :=
    List.perm_insertionSort _ _
  simp only [sortKeys, get?]
  rw [← lookup_perm hperm.symm hkeys, sortKeysMembers_eq, lookup_mapValues]

/-! ### The printer -/

/-- The hexadecimal digit of a value below sixteen, in lower case. -/
def hexDigit (n : Nat) : Char :=
  if n < 10 then Char.ofNat (48 + n) else Char.ofNat (87 + n)

/-- A `\u` escape of one UTF-16 code unit. -/
def escapeUnit (n : Nat) : List Char :=
  ['\\', 'u', hexDigit (n / 4096 % 16), hexDigit (n / 256 % 16), hexDigit (n / 16 % 16),
    hexDigit (n % 16)]

/-- The escape of one character: the short escapes, printable ASCII as it stands, one
`\u` escape inside the basic plane and a surrogate pair beyond it. -/
def escapeChar (c : Char) : List Char :=
  if c = '"' then ['\\', '"']
  else if c = '\\' then ['\\', '\\']
  else if c = '\n' then ['\\', 'n']
  else if c = '\r' then ['\\', 'r']
  else if c = '\t' then ['\\', 't']
  else if c = '\x0c' then ['\\', 'f']
  else if c = '\x08' then ['\\', 'b']
  else if 32 ≤ c.toNat ∧ c.toNat ≤ 126 then [c]
  else if c.toNat < 65536 then escapeUnit c.toNat
  else escapeUnit (55296 + (c.toNat - 65536) / 1024) ++
    escapeUnit (56320 + (c.toNat - 65536) % 1024)

/-- A quoted string. -/
def stringText (s : String) : List Char :=
  '"' :: (s.toList.flatMap escapeChar ++ ['"'])

/-- A decimal integer. -/
def intText : Int → List Char
  | .ofNat n => Nat.toDigits 10 n
  | .negSucc n => '-' :: Nat.toDigits 10 (n + 1)

mutual

/-- The text of a value, members in the order they have. -/
def text : Json → List Char
  | .null => ['n', 'u', 'l', 'l']
  | .bool true => ['t', 'r', 'u', 'e']
  | .bool false => ['f', 'a', 'l', 's', 'e']
  | .int n => intText n
  | .float r => r.text
  | .str s => stringText s
  | .arr [] => ['[', ']']
  | .arr (x :: xs) => '[' :: (x.text ++ itemsText xs)
  | .obj [] => ['{', '}']
  | .obj ((k, v) :: ms) => '{' :: (stringText k ++ ':' :: (v.text ++ membersText ms))

/-- The items after the first one, with the closing bracket. -/
def itemsText : List Json → List Char
  | [] => [']']
  | x :: xs => ',' :: (x.text ++ itemsText xs)

/-- The members after the first one, with the closing brace. -/
def membersText : List (String × Json) → List Char
  | [] => ['}']
  | (k, v) :: ms => ',' :: (stringText k ++ ':' :: (v.text ++ membersText ms))

end

/-- The canonical text of a value: keys sorted, no whitespace, ASCII only. -/
def dumps (j : Json) : String :=
  String.ofList j.sortKeys.text

/-! ### The reader -/

/-- The value of a hexadecimal digit. -/
def hexVal? (c : Char) : Option Nat :=
  if '0' ≤ c ∧ c ≤ '9' then some (c.toNat - 48)
  else if 'a' ≤ c ∧ c ≤ 'f' then some (c.toNat - 87)
  else none

/-- One UTF-16 code unit from four hexadecimal digits. -/
def readUnit? (a b c d : Char) : Option Nat := do
  let a ← hexVal? a
  let b ← hexVal? b
  let c ← hexVal? c
  let d ← hexVal? d
  some (4096 * a + 256 * b + 16 * c + d)

/-- The character of a short escape. -/
def shortEscape? (c : Char) : Option Char :=
  if c = '"' then some '"'
  else if c = '\\' then some '\\'
  else if c = 'n' then some '\n'
  else if c = 'r' then some '\r'
  else if c = 't' then some '\t'
  else if c = 'f' then some '\x0c'
  else if c = 'b' then some '\x08'
  else none

/-- The rest of an escape after its backslash. A code unit from the high surrogates is
followed by the escape of its low surrogate. -/
def readEscape? : List Char → Option (Char × List Char)
  | [] => none
  | e :: rest =>
      if e = 'u' then
        match rest with
        | a :: b :: c :: d :: rest => do
            let high ← readUnit? a b c d
            if 55296 ≤ high ∧ high < 56320 then
              match rest with
              | s :: u :: a :: b :: c :: d :: rest => do
                  let low ← readUnit? a b c d
                  if s = '\\' ∧ u = 'u' ∧ 56320 ≤ low ∧ low < 57344 then
                    some (Char.ofNat (65536 + (high - 55296) * 1024 + (low - 56320)), rest)
                  else none
              | _ => none
            else some (Char.ofNat high, rest)
        | _ => none
      else (shortEscape? e).map fun c => (c, rest)

/-- One character of a quoted string, with what follows it. -/
def readChar? : List Char → Option (Char × List Char)
  | [] => none
  | c :: rest => if c = '\\' then readEscape? rest else some (c, rest)

/-- The rest of a quoted string, up to and including its closing quote. The fuel bounds
the number of characters. -/
def readString? : Nat → List Char → Option (List Char × List Char)
  | 0, _ => none
  | fuel + 1, cs =>
      if cs.head? = some '"' then some ([], cs.tail)
      else do
        let (c, rest) ← readChar? cs
        let (s, rest) ← readString? fuel rest
        some (c :: s, rest)

/-- A decimal integer from its characters. -/
def readInt? : List Char → Option Int
  | [] => none
  | c :: ds =>
      if c = '-' then some (-(Nat.ofDigitChars 10 ds 0 : Int))
      else some (Nat.ofDigitChars 10 (c :: ds) 0 : Int)

/-- A number from its characters: a float if it has a point or an exponent. -/
def readNumber? (cs : List Char) : Option Json :=
  if h : isFloatText cs = true then some (.float ⟨cs, h⟩)
  else (readInt? cs).map .int

/-- The rest of a text after a fixed word. -/
def dropWord? (word : List Char) (cs : List Char) : Option (List Char) :=
  if word.isPrefixOf cs then some (cs.drop word.length) else none

mutual

/-- One value, with what follows it. The fuel bounds the depth of the reading. -/
def readValue? : Nat → List Char → Option (Json × List Char)
  | 0, _ => none
  | fuel + 1, cs =>
      match cs with
      | [] => none
      | c :: rest =>
          if c = 'n' then (dropWord? ['u', 'l', 'l'] rest).map fun r => (.null, r)
          else if c = 't' then (dropWord? ['r', 'u', 'e'] rest).map fun r => (.bool true, r)
          else if c = 'f' then
            (dropWord? ['a', 'l', 's', 'e'] rest).map fun r => (.bool false, r)
          else if c = '"' then do
            let (s, r) ← readString? fuel rest
            some (.str (String.ofList s), r)
          else if c = '[' then
            if rest.head? = some ']' then some (.arr [], rest.tail)
            else do
              let (x, r) ← readValue? fuel rest
              let (xs, r) ← readItems? fuel r
              some (.arr (x :: xs), r)
          else if c = '{' then
            if rest.head? = some '}' then some (.obj [], rest.tail)
            else do
              let (m, r) ← readMember? fuel rest
              let (ms, r) ← readMembers? fuel r
              some (.obj (m :: ms), r)
          else do
            let j ← readNumber? (cs.takeWhile isNumberChar)
            some (j, cs.dropWhile isNumberChar)

/-- The items after the first one, up to and including the closing bracket. -/
def readItems? : Nat → List Char → Option (List Json × List Char)
  | 0, _ => none
  | fuel + 1, cs =>
      match cs with
      | ']' :: rest => some ([], rest)
      | ',' :: rest => do
          let (x, r) ← readValue? fuel rest
          let (xs, r) ← readItems? fuel r
          some (x :: xs, r)
      | _ => none

/-- One `key:value` pair. -/
def readMember? : Nat → List Char → Option ((String × Json) × List Char)
  | 0, _ => none
  | fuel + 1, cs =>
      match cs with
      | '"' :: rest => do
          let (k, r) ← readString? fuel rest
          match r with
          | ':' :: r => do
              let (v, r) ← readValue? fuel r
              some ((String.ofList k, v), r)
          | _ => none
      | _ => none

/-- The members after the first one, up to and including the closing brace. -/
def readMembers? : Nat → List Char → Option (List (String × Json) × List Char)
  | 0, _ => none
  | fuel + 1, cs =>
      match cs with
      | '}' :: rest => some ([], rest)
      | ',' :: rest => do
          let (m, r) ← readMember? fuel rest
          let (ms, r) ← readMembers? fuel r
          some (m :: ms, r)
      | _ => none

end

/-- Read a whole canonical text. -/
def loads (s : String) : Option Json :=
  match readValue? s.toList.length s.toList with
  | some (j, []) => some j
  | _ => none

end Json
