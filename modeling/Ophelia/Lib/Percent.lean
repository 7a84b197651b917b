import Mathlib.Data.List.Basic

/-!
# Ophelia.Lib.Percent

Percent-encoded text, as a list of tokens: a character that stands for itself, or an escape of two
hexadecimal digits. A token stands for one byte.

Normalizing writes the digits of escapes in upper case and replaces the escapes of unreserved
characters by these characters. It changes no byte (`byte_normalize`), and what is normalized stays
(`normalize_normalize`).
-/

namespace Percent

/-! ### Hexadecimal digits -/

/-- The value of a hexadecimal digit. -/
def hexValue? (c : Char) : Option Nat :=
  if '0' ≤ c ∧ c ≤ '9' then some (c.toNat - 48)
  else if 'a' ≤ c ∧ c ≤ 'f' then some (c.toNat - 87)
  else if 'A' ≤ c ∧ c ≤ 'F' then some (c.toNat - 55)
  else none

def isHex (c : Char) : Bool := (hexValue? c).isSome

def hexValue (c : Char) : Nat := (hexValue? c).getD 0

/-- A hexadecimal digit in upper case. -/
def upperHex (c : Char) : Char :=
  if 'a' ≤ c ∧ c ≤ 'f' then Char.ofNat (c.toNat - 32) else c

/-- All hexadecimal digits. -/
def hexDigits : List Char := "0123456789abcdefABCDEF".toList

theorem mem_hexDigits {c : Char} (h : isHex c = true) : c ∈ hexDigits := by
  have hrange : ∀ n : Nat, n < 128 → isHex (Char.ofNat n) = true → Char.ofNat n ∈ hexDigits := by
    decide +kernel
  have hlt : c.toNat < 128 := by
    unfold isHex hexValue? at h
    split at h
    · rename_i hc
      exact Nat.lt_of_le_of_lt hc.2 (by decide)
    · split at h
      · rename_i hc
        exact Nat.lt_of_le_of_lt hc.2 (by decide)
      · split at h
        · rename_i hc
          exact Nat.lt_of_le_of_lt hc.2 (by decide)
        · cases h
  have hc := hrange c.toNat hlt
  rw [Char.ofNat_toNat] at hc
  exact hc h

/-- A fact about each hexadecimal digit. -/
theorem hex_induction {P : Char → Prop} [DecidablePred P] (h : (hexDigits.all (P ·)) = true)
    {c : Char} (hc : isHex c = true) : P c :=
  of_decide_eq_true (List.all_eq_true.mp h c (mem_hexDigits hc))

theorem isHex_upperHex {c : Char} (h : isHex c = true) : isHex (upperHex c) = true :=
  hex_induction (P := fun c => isHex (upperHex c) = true) (by decide +kernel) h

theorem hexValue_upperHex {c : Char} (h : isHex c = true) : hexValue (upperHex c) = hexValue c :=
  hex_induction (P := fun c => hexValue (upperHex c) = hexValue c) (by decide +kernel) h

theorem upperHex_upperHex {c : Char} (h : isHex c = true) : upperHex (upperHex c) = upperHex c :=
  hex_induction (P := fun c => upperHex (upperHex c) = upperHex c) (by decide +kernel) h

theorem hexValue_lt {c : Char} (h : isHex c = true) : hexValue c < 16 :=
  hex_induction (P := fun c => hexValue c < 16) (by decide +kernel) h

theorem isHex_ne {c d : Char} (h : isHex c = true) (hd : isHex d = false) : c ≠ d := by
  rintro rfl
  rw [h] at hd
  cases hd

/-! ### Tokens -/

inductive Token where
  | plain (c : Char)
  | escape (high low : Char)
deriving DecidableEq

/-- `ALPHA / DIGIT / "-" / "." / "_" / "~"`. -/
def isUnreserved (c : Char) : Bool :=
  c.isAlphanum || c == '-' || c == '.' || c == '_' || c == '~'

namespace Token

/-- A percent sign only starts escapes, and escapes have hexadecimal digits. -/
def Valid : Token → Prop
  | plain c => c ≠ '%'
  | escape high low => isHex high = true ∧ isHex low = true

def chars : Token → List Char
  | plain c => [c]
  | escape high low => ['%', high, low]

/-- The byte that a token stands for, where the text is ASCII. -/
def byte : Token → Nat
  | plain c => c.toNat
  | escape high low => 16 * hexValue high + hexValue low

/-- An escape in upper case. -/
def upper : Token → Token
  | plain c => plain c
  | escape high low => escape (upperHex high) (upperHex low)

/-- An unreserved character stands for itself. -/
def unescape (t : Token) : Token :=
  match t with
  | plain c => plain c
  | escape _ _ => if isUnreserved (Char.ofNat t.byte) then plain (Char.ofNat t.byte) else t

/-- The normal form: case normalization, then percent-encoding normalization. -/
def normalize (t : Token) : Token := t.upper.unescape

end Token

/-- The tokens of a text, if its percent signs start escapes. -/
def tokens? : List Char → Option (List Token)
  | [] => some []
  | '%' :: high :: low :: cs =>
      if isHex high && isHex low then (tokens? cs).map (.escape high low :: ·) else none
  | c :: cs => if c = '%' then none else (tokens? cs).map (.plain c :: ·)

def render (ts : List Token) : List Char := ts.flatMap Token.chars

/-- The bytes that a percent-encoded text stands for. -/
def decode? (cs : List Char) : Option (List Nat) := (tokens? cs).map (·.map Token.byte)

/-- A text in normal form. -/
def normalize? (cs : List Char) : Option (List Char) :=
  (tokens? cs).map fun ts => render (ts.map Token.normalize)

/-! ### Reading and writing tokens -/

theorem tokens?_escape {high low : Char} (hhigh : isHex high = true) (hlow : isHex low = true)
    (cs : List Char) :
    tokens? ('%' :: high :: low :: cs) = (tokens? cs).map (.escape high low :: ·) := by
  rw [tokens?, hhigh, hlow]
  rfl

theorem tokens?_plain {c : Char} (hc : c ≠ '%') (cs : List Char) :
    tokens? (c :: cs) = (tokens? cs).map (.plain c :: ·) := by
  rw [tokens?.eq_def]
  split
  · rename_i heq
    cases heq
  · rename_i heq
    cases heq
    exact absurd rfl hc
  · rename_i heq
    cases heq
    exact if_neg hc

theorem tokens?_render {ts : List Token} (h : ∀ t ∈ ts, t.Valid) :
    tokens? (render ts) = some ts := by
  induction ts with
  | nil => rfl
  | cons t ts ih =>
      have ht := h t List.mem_cons_self
      have hrest := ih fun t' ht' => h t' (List.mem_cons_of_mem _ ht')
      cases t with
      | plain c =>
          change tokens? (c :: render ts) = _
          rw [tokens?_plain ht, hrest]
          rfl
      | escape high low =>
          change tokens? ('%' :: high :: low :: render ts) = _
          rw [tokens?_escape ht.1 ht.2, hrest]
          rfl

theorem render_of_tokens? {cs : List Char} {ts : List Token} (h : tokens? cs = some ts) :
    render ts = cs ∧ ∀ t ∈ ts, t.Valid := by
  fun_induction tokens? cs generalizing ts with
  | case1 =>
      cases h
      exact ⟨rfl, by simp⟩
  | case2 high low cs hhex ih =>
      rw [Bool.and_eq_true] at hhex
      obtain ⟨rest, hrest, rfl⟩ := Option.map_eq_some_iff.mp h
      obtain ⟨hrender, hvalid⟩ := ih hrest
      refine ⟨?_, List.forall_mem_cons.mpr ⟨hhex, hvalid⟩⟩
      rw [← hrender]
      rfl
  | case3 => cases h
  | case4 => cases h
  | case5 c cs _ hc ih =>
      obtain ⟨rest, hrest, rfl⟩ := Option.map_eq_some_iff.mp h
      obtain ⟨hrender, hvalid⟩ := ih hrest
      refine ⟨?_, List.forall_mem_cons.mpr ⟨hc, hvalid⟩⟩
      rw [← hrender]
      rfl

/-- A text without percent signs stands for itself. -/
theorem tokens?_of_plain {cs : List Char} (h : '%' ∉ cs) : tokens? cs = some (cs.map .plain) := by
  induction cs with
  | nil => rfl
  | cons c cs ih =>
      have hc : c ≠ '%' := fun heq => h (heq ▸ List.mem_cons_self)
      rw [tokens?_plain hc, ih fun hmem => h (List.mem_cons_of_mem c hmem)]
      rfl

/-- At a character that no escape goes over, tokens come apart. -/
theorem render_eq_append {ts : List Token} (hts : ∀ t ∈ ts, t.Valid) {cs ds : List Char} {c : Char}
    (hc : isHex c = false) (h : render ts = cs ++ c :: ds) :
    ∃ us vs, ts = us ++ vs ∧ render us = cs ∧ render vs = c :: ds := by
  induction ts generalizing cs with
  | nil =>
      cases cs with
      | nil => cases h
      | cons x cs => cases h
  | cons t ts ih =>
      obtain ⟨ht, hrest⟩ := List.forall_mem_cons.mp hts
      cases cs with
      | nil => exact ⟨[], t :: ts, rfl, rfl, h⟩
      | cons x cs =>
          cases t with
          | plain d =>
              change d :: render ts = x :: (cs ++ c :: ds) at h
              obtain ⟨rfl, hinner⟩ := List.cons.inj h
              obtain ⟨us, vs, rfl, rfl, hvs⟩ := ih hrest hinner
              exact ⟨.plain d :: us, vs, rfl, rfl, hvs⟩
          | escape high low =>
              change '%' :: high :: low :: render ts = x :: (cs ++ c :: ds) at h
              obtain ⟨rfl, hinner⟩ := List.cons.inj h
              -- an escape does not go over the character
              match cs, hinner with
              | [], hinner => exact absurd (List.cons.inj hinner).1 (isHex_ne ht.1 hc)
              | [y], hinner =>
                  exact absurd (List.cons.inj (List.cons.inj hinner).2).1 (isHex_ne ht.2 hc)
              | y :: z :: cs, hinner =>
                  obtain ⟨hy, hbehind⟩ := List.cons.inj hinner
                  obtain ⟨hz, hbehind⟩ := List.cons.inj hbehind
                  obtain ⟨us, vs, rfl, rfl, hvs⟩ := ih hrest hbehind
                  rw [← hy, ← hz]
                  exact ⟨.escape high low :: us, vs, rfl, rfl, hvs⟩

/-- What stands behind the escapes of a text is decoded to itself. -/
theorem decode?_append {cs ds : List Char} {c : Char} (hc : isHex c = false) (hplain : '%' ∉ c :: ds)
    {bytes : List Nat} (h : decode? (cs ++ c :: ds) = some bytes) :
    ∃ front, bytes = front ++ (c :: ds).map Char.toNat := by
  obtain ⟨ts, hts, rfl⟩ := Option.map_eq_some_iff.mp h
  obtain ⟨hrender, hvalid⟩ := render_of_tokens? hts
  obtain ⟨us, vs, rfl, -, hvs⟩ := render_eq_append hvalid hc hrender
  have hread := tokens?_render fun t ht => hvalid t (List.mem_append_right us ht)
  rw [hvs, tokens?_of_plain hplain] at hread
  obtain rfl := Option.some.inj hread
  refine ⟨us.map Token.byte, ?_⟩
  rw [List.map_append, List.map_map]
  rfl

/-! ### Normalizing -/

namespace Token

theorem byte_upper {t : Token} (h : t.Valid) : t.upper.byte = t.byte := by
  cases t with
  | plain c => rfl
  | escape high low => rw [upper, byte, byte, hexValue_upperHex h.1, hexValue_upperHex h.2]

theorem byte_lt {high low : Char} (h : (escape high low).Valid) : (escape high low).byte < 256 := by
  have hhigh := hexValue_lt h.1
  have hlow := hexValue_lt h.2
  rw [byte]
  omega

theorem toNat_ofNat_byte {high low : Char} (h : (escape high low).Valid) :
    (Char.ofNat (escape high low).byte).toNat = (escape high low).byte := by
  have hlt := byte_lt h
  have hvalid : (escape high low).byte.isValidChar := .inl (by omega)
  rw [Char.ofNat, dif_pos hvalid]
  rfl

theorem isUnreserved_ne_percent {c : Char} (h : isUnreserved c = true) : c ≠ '%' := by
  rintro rfl
  exact absurd h (by decide)

theorem valid_upper {t : Token} (h : t.Valid) : t.upper.Valid := by
  cases t with
  | plain c => exact h
  | escape high low => exact ⟨isHex_upperHex h.1, isHex_upperHex h.2⟩

theorem valid_unescape {t : Token} (h : t.Valid) : t.unescape.Valid := by
  cases t with
  | plain c => exact h
  | escape high low =>
      rw [unescape]
      split
      · rename_i hc
        exact isUnreserved_ne_percent hc
      · exact h

theorem valid_normalize {t : Token} (h : t.Valid) : t.normalize.Valid :=
  valid_unescape (valid_upper h)

theorem byte_unescape {t : Token} (h : t.Valid) : t.unescape.byte = t.byte := by
  cases t with
  | plain c => rfl
  | escape high low =>
      rw [unescape]
      split
      · exact toNat_ofNat_byte h
      · rfl

/-- Normalizing changes no byte. -/
theorem byte_normalize {t : Token} (h : t.Valid) : t.normalize.byte = t.byte :=
  (byte_unescape (valid_upper h)).trans (byte_upper h)

theorem normalize_escape {high low : Char} (h : (escape high low).Valid) :
    (escape high low).normalize =
      if isUnreserved (Char.ofNat (escape high low).byte) then
        plain (Char.ofNat (escape high low).byte)
      else escape (upperHex high) (upperHex low) := by
  have hbyte : (escape (upperHex high) (upperHex low)).byte = (escape high low).byte :=
    byte_upper h
  rw [normalize, upper, unescape, hbyte]

/-- What is normalized stays. -/
theorem normalize_normalize {t : Token} (h : t.Valid) : t.normalize.normalize = t.normalize := by
  cases t with
  | plain c => rfl
  | escape high low =>
      rw [normalize_escape h]
      split
      · rfl
      · rename_i hc
        have hvalid : (escape (upperHex high) (upperHex low)).Valid := valid_upper h
        have hbyte : (escape (upperHex high) (upperHex low)).byte = (escape high low).byte :=
          byte_upper h
        rw [normalize_escape hvalid, hbyte, if_neg hc, upperHex_upperHex h.1,
          upperHex_upperHex h.2]

end Token

theorem valid_map_normalize {ts : List Token} (h : ∀ t ∈ ts, t.Valid) :
    ∀ t ∈ ts.map Token.normalize, t.Valid := by
  intro t ht
  obtain ⟨u, hu, rfl⟩ := List.mem_map.mp ht
  exact Token.valid_normalize (h u hu)

end Percent
