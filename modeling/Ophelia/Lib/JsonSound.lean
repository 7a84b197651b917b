import Ophelia.Lib.Json

/-!
# Ophelia.Lib.JsonSound

The reader of `Lib/Json.lean` inverts the printer. The proof follows the grammar from
the inside out: a hexadecimal digit, a code unit, a character, a string, a number, a
value. Each layer says the same thing of its own text: in front of any continuation,
the reader consumes exactly that text. Only numbers need to know what comes next, since
nothing closes them (`Stops`).
-/

namespace Json

/-! ### Characters and strings -/

theorem hexVal?_hexDigit : ∀ n < 16, hexVal? (hexDigit n) = some n := by
  decide

theorem readUnit?_hexDigit {n : Nat} (h : n < 65536) :
    readUnit? (hexDigit (n / 4096 % 16)) (hexDigit (n / 256 % 16)) (hexDigit (n / 16 % 16))
      (hexDigit (n % 16)) = some n := by
  have digit (m : Nat) : hexVal? (hexDigit (m % 16)) = some (m % 16) :=
    hexVal?_hexDigit _ (Nat.mod_lt _ (by decide))
  simp only [readUnit?, digit, Option.bind_eq_bind, Option.bind_some]
  congr 1
  omega

/-- A code unit outside the high surrogates is a character of its own. -/
theorem readEscape?_unit {n : Nat} (h : n < 65536) (hs : ¬ (55296 ≤ n ∧ n < 56320))
    (rest : List Char) :
    readEscape? ((escapeUnit n).tail ++ rest) = some (Char.ofNat n, rest) := by
  simp only [escapeUnit, List.tail_cons, List.cons_append, List.nil_append, readEscape?,
    if_true, readUnit?_hexDigit h, Option.bind_eq_bind, Option.bind_some, if_neg hs]

/-- A high surrogate and the low surrogate after it are one character. -/
theorem readEscape?_pair (high low : Nat) (hh : 55296 ≤ high ∧ high < 56320)
    (hl : 56320 ≤ low ∧ low < 57344) (rest : List Char) :
    readEscape? ((escapeUnit high).tail ++ (escapeUnit low ++ rest)) =
      some (Char.ofNat (65536 + (high - 55296) * 1024 + (low - 56320)), rest) := by
  have hhigh := readUnit?_hexDigit (n := high) (by omega)
  have hlow := readUnit?_hexDigit (n := low) (by omega)
  simp only [escapeUnit, List.tail_cons, List.cons_append, List.nil_append, readEscape?,
    if_true, hhigh, hlow, Option.bind_eq_bind, Option.bind_some, if_pos hh]
  rw [if_pos ⟨trivial, trivial, hl⟩]

/-- The branches of the escape of a character, with what each of them writes. -/
theorem escapeChar_cases (c : Char) :
    (∃ e, (c, e) ∈ [('"', '"'), ('\\', '\\'), ('\n', 'n'), ('\r', 'r'), ('\t', 't'),
        ('\x0c', 'f'), ('\x08', 'b')] ∧ escapeChar c = ['\\', e]) ∨
      (c ≠ '"' ∧ c ≠ '\\' ∧ escapeChar c = [c]) ∨
      (c.toNat < 65536 ∧ escapeChar c = escapeUnit c.toNat) ∨
      (65536 ≤ c.toNat ∧ escapeChar c = escapeUnit (55296 + (c.toNat - 65536) / 1024) ++
        escapeUnit (56320 + (c.toNat - 65536) % 1024)) := by
  unfold escapeChar
  by_cases h₁ : c = '"'
  · exact .inl ⟨_, by rw [h₁]; exact .head _, if_pos h₁⟩
  rw [if_neg h₁]
  by_cases h₂ : c = '\\'
  · exact .inl ⟨_, by rw [h₂]; exact .tail _ (.head _), if_pos h₂⟩
  rw [if_neg h₂]
  by_cases h₃ : c = '\n'
  · exact .inl ⟨_, by rw [h₃]; exact .tail _ (.tail _ (.head _)), if_pos h₃⟩
  rw [if_neg h₃]
  by_cases h₄ : c = '\r'
  · exact .inl ⟨_, by rw [h₄]; exact .tail _ (.tail _ (.tail _ (.head _))), if_pos h₄⟩
  rw [if_neg h₄]
  by_cases h₅ : c = '\t'
  · exact .inl ⟨_, by rw [h₅]; exact .tail _ (.tail _ (.tail _ (.tail _ (.head _)))),
      if_pos h₅⟩
  rw [if_neg h₅]
  by_cases h₆ : c = '\x0c'
  · exact .inl ⟨_, by rw [h₆]; exact .tail _ (.tail _ (.tail _ (.tail _ (.tail _ (.head _))))),
      if_pos h₆⟩
  rw [if_neg h₆]
  by_cases h₇ : c = '\x08'
  · exact .inl ⟨_, by
      rw [h₇]; exact .tail _ (.tail _ (.tail _ (.tail _ (.tail _ (.tail _ (.head _)))))),
      if_pos h₇⟩
  rw [if_neg h₇]
  by_cases h₈ : 32 ≤ c.toNat ∧ c.toNat ≤ 126
  · exact .inr (.inl ⟨h₁, h₂, if_pos h₈⟩)
  rw [if_neg h₈]
  by_cases h₉ : c.toNat < 65536
  · exact .inr (.inr (.inl ⟨h₉, if_pos h₉⟩))
  · exact .inr (.inr (.inr ⟨Nat.le_of_not_lt h₉, if_neg h₉⟩))

/-- Reading an escaped character gives the character back. -/
theorem readChar?_escapeChar (c : Char) (rest : List Char) :
    readChar? (escapeChar c ++ rest) = some (c, rest) := by
  obtain ⟨e, he, h⟩ | ⟨-, h₂, h⟩ | ⟨h₉, h⟩ | ⟨h₉, h⟩ := escapeChar_cases c
  · rw [h]
    simp only [List.mem_cons, Prod.mk.injEq, List.not_mem_nil, or_false] at he
    obtain ⟨rfl, rfl⟩ | ⟨rfl, rfl⟩ | ⟨rfl, rfl⟩ | ⟨rfl, rfl⟩ | ⟨rfl, rfl⟩ | ⟨rfl, rfl⟩ |
      ⟨rfl, rfl⟩ := he <;> rfl
  · rw [h]
    simp only [List.cons_append, List.nil_append, readChar?, if_neg h₂]
  · -- one code unit: a `Char` is never a surrogate
    have hns : ¬ (55296 ≤ c.toNat ∧ c.toNat < 56320) := by
      have := c.valid
      simp only [UInt32.isValidChar, Nat.isValidChar, Char.toNat] at *
      omega
    have hread := readEscape?_unit h₉ hns rest
    rw [Char.ofNat_toNat] at hread
    rw [h]
    simpa only [escapeUnit, List.cons_append, List.nil_append, readChar?, if_true,
      List.tail_cons] using hread
  · -- beyond the basic plane: a surrogate pair
    have hmax : c.toNat < 1114112 := by
      have := c.valid
      simp only [UInt32.isValidChar, Nat.isValidChar, Char.toNat] at *
      omega
    have hread := readEscape?_pair (55296 + (c.toNat - 65536) / 1024)
      (56320 + (c.toNat - 65536) % 1024) (by omega) (by omega) rest
    have hval : 65536 + (55296 + (c.toNat - 65536) / 1024 - 55296) * 1024 +
        (56320 + (c.toNat - 65536) % 1024 - 56320) = c.toNat := by omega
    rw [hval, Char.ofNat_toNat] at hread
    rw [h, List.append_assoc]
    simpa only [escapeUnit, List.cons_append, List.nil_append, readChar?, if_true,
      List.tail_cons] using hread

/-- The escape of a character never starts with a quote, so it does not close a string. -/
theorem head?_escapeChar_ne (c : Char) (rest : List Char) :
    (escapeChar c ++ rest).head? ≠ some '"' := by
  have hslash : ∀ cs : List Char, ('\\' :: cs).head? ≠ some '"' :=
    fun _ h => absurd (Option.some.inj h) (by decide)
  obtain ⟨e, -, h⟩ | ⟨h₁, -, h⟩ | ⟨-, h⟩ | ⟨-, h⟩ := escapeChar_cases c <;> rw [h]
  · exact hslash _
  · exact fun hc => h₁ (Option.some.inj hc)
  · exact hslash _
  · exact hslash _

theorem length_escapeChar_pos (c : Char) : 0 < (escapeChar c).length := by
  obtain ⟨e, -, h⟩ | ⟨-, -, h⟩ | ⟨-, h⟩ | ⟨-, h⟩ := escapeChar_cases c <;> rw [h]
  all_goals exact Nat.succ_pos _

theorem length_le_flatMap_escapeChar (cs : List Char) :
    cs.length ≤ (cs.flatMap escapeChar).length := by
  induction cs with
  | nil => simp
  | cons c cs ih =>
      have := length_escapeChar_pos c
      simp only [List.flatMap_cons, List.length_append, List.length_cons]
      omega

theorem readString?_escape (cs : List Char) {fuel : Nat} (hf : cs.length < fuel)
    (rest : List Char) :
    readString? fuel (cs.flatMap escapeChar ++ '"' :: rest) = some (cs, rest) := by
  induction cs generalizing fuel with
  | nil =>
      obtain ⟨fuel, rfl⟩ := Nat.exists_eq_succ_of_ne_zero (Nat.ne_of_gt hf)
      simp [readString?]
  | cons c cs ih =>
      obtain ⟨fuel, rfl⟩ := Nat.exists_eq_succ_of_ne_zero (Nat.ne_of_gt (Nat.zero_lt_of_lt hf))
      have hc := readChar?_escapeChar c (cs.flatMap escapeChar ++ '"' :: rest)
      simp only [List.length_cons] at hf
      rw [List.flatMap_cons, List.append_assoc]
      simp only [readString?, if_neg (head?_escapeChar_ne c _), hc,
        Option.bind_eq_bind, Option.bind_some, ih (Nat.lt_of_succ_lt_succ hf)]

theorem readString?_stringText (s : String) (fuel : Nat)
    (hf : (stringText s).length ≤ fuel + 1) (rest : List Char) :
    readString? fuel ((stringText s).tail ++ rest) = some (s.toList, rest) := by
  have hlen := length_le_flatMap_escapeChar s.toList
  simp only [stringText, List.length_cons, List.length_append, List.length_nil] at hf
  have h := readString?_escape s.toList (show _ < fuel by omega) rest
  simpa only [stringText, List.tail_cons, List.append_assoc, List.cons_append,
    List.nil_append] using h

/-! ### Numbers -/

/-- What follows a number must not look like more of it. -/
def Stops (rest : List Char) : Prop :=
  ∀ c, rest.head? = some c → isNumberChar c = false

theorem stops_nil : Stops [] := by
  intro c h
  simp at h

theorem stops_cons {c : Char} (hc : isNumberChar c = false) (rest : List Char) :
    Stops (c :: rest) := by
  intro d hd
  obtain rfl : c = d := by simpa using hd
  exact hc

theorem takeWhile_number {cs rest : List Char} (hcs : ∀ c ∈ cs, isNumberChar c = true)
    (hr : Stops rest) : (cs ++ rest).takeWhile isNumberChar = cs := by
  rw [List.takeWhile_append_of_pos hcs]
  cases rest with
  | nil => simp
  | cons c rest => simp [hr c rfl]

theorem dropWhile_number {cs rest : List Char} (hcs : ∀ c ∈ cs, isNumberChar c = true)
    (hr : Stops rest) : (cs ++ rest).dropWhile isNumberChar = rest := by
  rw [List.dropWhile_append_of_pos hcs]
  cases rest with
  | nil => simp
  | cons c rest => simp [hr c rfl]

theorem isDigit_ne {c d : Char} (hc : c.isDigit = true) (hd : d.isDigit = false) : c ≠ d := by
  rintro rfl
  simp [hc] at hd

theorem isDigit_toDigits {n : Nat} {c : Char} (hc : c ∈ Nat.toDigits 10 n) : c.isDigit = true :=
  Nat.isDigit_of_mem_toDigits (by decide) (by decide) hc

theorem isFloatMark_of_isDigit {c : Char} (hc : c.isDigit = true) : isFloatMark c = false := by
  simp [isFloatMark, isDigit_ne hc (show ('.').isDigit = false by decide),
    isDigit_ne hc (show ('e').isDigit = false by decide)]

theorem isNumberChar_intText {n : Int} {c : Char} (hc : c ∈ intText n) :
    isNumberChar c = true := by
  cases n with
  | ofNat n => simp [isNumberChar, isDigit_toDigits hc]
  | negSucc n =>
      rcases List.mem_cons.mp hc with rfl | hc
      · decide
      · simp [isNumberChar, isDigit_toDigits hc]

theorem isFloatMark_intText {n : Int} {c : Char} (hc : c ∈ intText n) :
    isFloatMark c = false := by
  cases n with
  | ofNat n => exact isFloatMark_of_isDigit (isDigit_toDigits hc)
  | negSucc n =>
      rcases List.mem_cons.mp hc with rfl | hc
      · decide
      · exact isFloatMark_of_isDigit (isDigit_toDigits hc)

theorem isFloatText_intText (n : Int) : ¬ isFloatText (intText n) = true := by
  simp only [isFloatText, Bool.and_eq_true, List.any_eq_true, not_and, not_exists]
  intro _ c hc
  simp [isFloatMark_intText hc]

theorem readInt?_intText (n : Int) : readInt? (intText n) = some n := by
  cases n with
  | ofNat n =>
      cases hds : Nat.toDigits 10 n with
      | nil => exact absurd hds Nat.toDigits_ne_nil
      | cons d ds =>
          have hd : d.isDigit = true := isDigit_toDigits (n := n) (by simp [hds])
          have hne : d ≠ '-' := isDigit_ne hd (by decide)
          rw [intText, hds, readInt?, if_neg hne, ← hds, Nat.ofDigitChars_ten_toDigits]
          rfl
  | negSucc n =>
      rw [intText, readInt?, if_pos rfl, Nat.ofDigitChars_ten_toDigits]
      rfl

theorem readNumber?_intText (n : Int) : readNumber? (intText n) = some (.int n) := by
  rw [readNumber?, dif_neg (isFloatText_intText n), readInt?_intText]
  rfl

theorem readNumber?_float (r : FloatRepr) : readNumber? r.text = some (.float r) := by
  unfold readNumber?
  rw [dif_pos r.shape]

theorem isNumberChar_float {r : FloatRepr} {c : Char} (hc : c ∈ r.text) :
    isNumberChar c = true := by
  have h := r.shape
  simp only [isFloatText, Bool.and_eq_true, List.all_eq_true] at h
  exact h.1 c hc

theorem floatText_ne_nil (r : FloatRepr) : r.text ≠ [] := by
  intro h
  have hs := r.shape
  rw [h] at hs
  exact absurd hs (by decide)

theorem intText_ne_nil (n : Int) : intText n ≠ [] := by
  cases n with
  | ofNat n => exact Nat.toDigits_ne_nil
  | negSucc n => simp [intText]

/-- A number is read off its own characters, none of which starts another kind of value. -/
theorem readValue?_number {cs rest : List Char} {fuel : Nat} {j : Json} (hne : cs ≠ [])
    (hcs : ∀ c ∈ cs, isNumberChar c = true) (hr : Stops rest)
    (hj : readNumber? cs = some j) :
    readValue? (fuel + 1) (cs ++ rest) = some (j, rest) := by
  obtain ⟨c, ds, rfl⟩ := List.exists_cons_of_ne_nil hne
  have htake := takeWhile_number hcs hr
  have hdrop := dropWhile_number hcs hr
  have hc := hcs c (by simp)
  have hnot (d : Char) (hd : isNumberChar d = false) : c ≠ d := by
    rintro rfl
    simp [hc] at hd
  rw [List.cons_append] at htake hdrop ⊢
  simp only [readValue?, htake, hdrop, hj, if_neg (hnot 'n' (by decide)),
    if_neg (hnot 't' (by decide)), if_neg (hnot 'f' (by decide)), if_neg (hnot '"' (by decide)),
    if_neg (hnot '[' (by decide)), if_neg (hnot '{' (by decide)), Option.bind_eq_bind,
    Option.bind_some]

/-! ### Values -/

/-- The value `j` is read back from its text in front of every continuation. -/
def Reads (j : Json) : Prop :=
  ∀ fuel rest, j.text.length ≤ fuel → Stops rest →
    readValue? fuel (j.text ++ rest) = some (j, rest)

/-- No value starts with a closing bracket or brace. -/
theorem head?_text_ne (j : Json) (rest : List Char) :
    (j.text ++ rest).head? ≠ some ']' ∧ (j.text ++ rest).head? ≠ some '}' := by
  have number {cs : List Char} (hne : cs ≠ []) (hcs : ∀ c ∈ cs, isNumberChar c = true) :
      (cs ++ rest).head? ≠ some ']' ∧ (cs ++ rest).head? ≠ some '}' := by
    obtain ⟨c, ds, rfl⟩ := List.exists_cons_of_ne_nil hne
    have hc := hcs c (by simp)
    constructor <;> rintro h <;> obtain rfl : c = _ := by simpa using h
    all_goals exact absurd hc (by decide)
  cases j with
  | null => simp [text]
  | bool b => cases b <;> simp [text]
  | int n => exact number (intText_ne_nil n) fun c => isNumberChar_intText
  | float r => exact number (floatText_ne_nil r) fun c => isNumberChar_float
  | str s => simp [text, stringText]
  | arr xs => cases xs <;> simp [text]
  | obj ms =>
      cases ms with
      | nil => simp [text]
      | cons m ms => simp [text]

theorem stops_itemsText (xs : List Json) (rest : List Char) : Stops (itemsText xs ++ rest) := by
  cases xs with
  | nil => exact stops_cons (by decide) _
  | cons x xs => exact stops_cons (by decide) _

theorem stops_membersText (ms : List (String × Json)) (rest : List Char) :
    Stops (membersText ms ++ rest) := by
  cases ms with
  | nil => exact stops_cons (by decide) _
  | cons m ms => exact stops_cons (by decide) _

theorem readItems?_itemsText (xs : List Json) (h : ∀ x ∈ xs, Reads x) (fuel : Nat)
    (hf : (itemsText xs).length ≤ fuel) (rest : List Char) :
    readItems? fuel (itemsText xs ++ rest) = some (xs, rest) := by
  induction xs generalizing fuel with
  | nil =>
      simp only [itemsText, List.length_cons, List.length_nil] at hf
      obtain ⟨fuel, rfl⟩ := Nat.exists_eq_add_one.mpr hf
      rfl
  | cons x xs ih =>
      simp only [itemsText, List.length_cons, List.length_append] at hf
      obtain ⟨fuel, rfl⟩ := Nat.exists_eq_add_one.mpr (show 0 < fuel by omega)
      have hx := h x (by simp) fuel (itemsText xs ++ rest) (by omega) (stops_itemsText xs rest)
      have hxs := ih (fun y hy => h y (by simp [hy])) fuel (by omega)
      simp only [itemsText, List.cons_append, List.append_assoc, readItems?, hx, hxs,
        Option.bind_eq_bind, Option.bind_some]

theorem readMember?_text (k : String) {v : Json} (h : Reads v) (fuel : Nat)
    (hf : (stringText k).length + 1 + v.text.length ≤ fuel) {rest : List Char}
    (hr : Stops rest) :
    readMember? fuel (stringText k ++ ':' :: (v.text ++ rest)) = some ((k, v), rest) := by
  obtain ⟨fuel, rfl⟩ := Nat.exists_eq_add_one.mpr (show 0 < fuel by omega)
  have hk := readString?_stringText k fuel (by omega) (':' :: (v.text ++ rest))
  have hv := h fuel rest (by omega) hr
  simp only [stringText, List.tail_cons] at hk
  simp only [stringText, List.cons_append, readMember?, hk, hv, Option.bind_eq_bind,
    Option.bind_some, String.ofList_toList]

theorem readMembers?_membersText (ms : List (String × Json)) (h : ∀ m ∈ ms, Reads m.2)
    (fuel : Nat) (hf : (membersText ms).length ≤ fuel) (rest : List Char) :
    readMembers? fuel (membersText ms ++ rest) = some (ms, rest) := by
  induction ms generalizing fuel with
  | nil =>
      simp only [membersText, List.length_cons, List.length_nil] at hf
      obtain ⟨fuel, rfl⟩ := Nat.exists_eq_add_one.mpr hf
      rfl
  | cons m ms ih =>
      obtain ⟨k, v⟩ := m
      simp only [membersText, List.length_cons, List.length_append] at hf
      obtain ⟨fuel, rfl⟩ := Nat.exists_eq_add_one.mpr (show 0 < fuel by omega)
      have hv : Reads v := h (k, v) (by simp)
      have hm := readMember?_text k hv fuel (by omega)
        (stops_membersText ms rest)
      have hms := ih (fun m hm => h m (by simp [hm])) fuel (by omega)
      simp only [membersText, List.cons_append, List.append_assoc, readMembers?, hm, hms,
        Option.bind_eq_bind, Option.bind_some]

/-- **Reading a printed value.** In front of any continuation that does not prolong a
number, the reader gives the value back and stops exactly at its end. -/
theorem reads (j : Json) : Reads j := by
  induction j using Json.induction with
  | null =>
      intro fuel rest hf _
      obtain ⟨fuel, rfl⟩ := Nat.exists_eq_add_one.mpr (show 0 < fuel by simp [text] at hf; omega)
      simp [text, readValue?, dropWord?]
  | bool b =>
      intro fuel rest hf _
      cases b with
      | true =>
          obtain ⟨fuel, rfl⟩ := Nat.exists_eq_add_one.mpr
            (show 0 < fuel by simp [text] at hf; omega)
          simp [text, readValue?, dropWord?]
      | false =>
          obtain ⟨fuel, rfl⟩ := Nat.exists_eq_add_one.mpr
            (show 0 < fuel by simp [text] at hf; omega)
          simp [text, readValue?, dropWord?]
  | int n =>
      intro fuel rest hf hr
      have hpos := List.length_pos_of_ne_nil (intText_ne_nil n)
      obtain ⟨fuel, rfl⟩ := Nat.exists_eq_add_one.mpr (show 0 < fuel by simp [text] at hf; omega)
      exact readValue?_number (intText_ne_nil n) (fun c => isNumberChar_intText) hr
        (readNumber?_intText n)
  | float r =>
      intro fuel rest hf hr
      have hpos := List.length_pos_of_ne_nil (floatText_ne_nil r)
      obtain ⟨fuel, rfl⟩ := Nat.exists_eq_add_one.mpr (show 0 < fuel by simp [text] at hf; omega)
      exact readValue?_number (floatText_ne_nil r) (fun c => isNumberChar_float) hr
        (readNumber?_float r)
  | str s =>
      intro fuel rest hf _
      have hpos : 0 < (stringText s).length := by simp [stringText]
      obtain ⟨fuel, rfl⟩ := Nat.exists_eq_add_one.mpr (show 0 < fuel by simp [text] at hf; omega)
      have hs := readString?_stringText s fuel hf rest
      simp only [stringText, List.tail_cons, List.append_assoc, List.cons_append,
        List.nil_append] at hs
      simp [text, stringText, readValue?, hs]
  | arr xs ih =>
      intro fuel rest hf hr
      cases xs with
      | nil =>
          obtain ⟨fuel, rfl⟩ := Nat.exists_eq_add_one.mpr
            (show 0 < fuel by simp [text] at hf; omega)
          simp [text, readValue?]
      | cons x xs =>
          simp only [text, List.length_cons, List.length_append] at hf
          obtain ⟨fuel, rfl⟩ := Nat.exists_eq_add_one.mpr (show 0 < fuel by omega)
          have hx := ih x (by simp) fuel (itemsText xs ++ rest) (by omega)
            (stops_itemsText xs rest)
          have hxs := readItems?_itemsText xs (fun y hy => ih y (by simp [hy])) fuel
            (by omega) rest
          have hhead := (head?_text_ne x (itemsText xs ++ rest)).1
          simp only [text, List.cons_append, List.append_assoc, readValue?]
          simp [-List.head?_append, hx, hxs, hhead]
  | obj ms ih =>
      intro fuel rest hf hr
      cases ms with
      | nil =>
          obtain ⟨fuel, rfl⟩ := Nat.exists_eq_add_one.mpr
            (show 0 < fuel by simp [text] at hf; omega)
          simp [text, readValue?]
      | cons m ms =>
          obtain ⟨k, v⟩ := m
          simp only [text, List.length_cons, List.length_append] at hf
          obtain ⟨fuel, rfl⟩ := Nat.exists_eq_add_one.mpr (show 0 < fuel by omega)
          have hv : Reads v := ih (k, v) (by simp)
          have hm := readMember?_text k hv fuel (by omega)
            (stops_membersText ms rest)
          have hms := readMembers?_membersText ms (fun m hm => ih m (by simp [hm])) fuel
            (by omega) rest
          simp only [stringText, List.cons_append, List.append_assoc, List.nil_append] at hm
          simp [text, stringText, readValue?, hm, hms]

/-! ### The round trip -/

/-- **Round trip.** Reading the canonical text of a value gives the value with its keys
sorted. -/
theorem loads_dumps (j : Json) : loads (dumps j) = some j.sortKeys := by
  have h := reads j.sortKeys j.sortKeys.text.length [] le_rfl stops_nil
  rw [List.append_nil] at h
  simp only [loads, dumps, String.toList_ofList, h]

/-- **Injectivity.** Two values have the same canonical text exactly when they agree up
to the order of their keys. -/
theorem dumps_eq_iff {j j' : Json} : dumps j = dumps j' ↔ j.sortKeys = j'.sortKeys := by
  constructor
  · intro h
    have hl := congrArg loads h
    rw [loads_dumps, loads_dumps] at hl
    exact Option.some.inj hl
  · intro h
    rw [dumps, dumps, h]

end Json
