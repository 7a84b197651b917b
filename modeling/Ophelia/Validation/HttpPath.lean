import Mathlib
import Ophelia.Lib.Percent
import Ophelia.Lib.PyText
import Ophelia.Lib.Results
import Ophelia.Lib.Segments

/-!
# Ophelia.Validation.HttpPath

Canonical HTTP paths (`validation/routes.py`). The scanner reads a path once and builds two texts
from it: the canonical one, with its escapes normalized, and the decoded one, in which dot segments
are looked for.

The scanner is the normalization of percent-encoded text with some bytes forbidden (`scan_render`,
`scanned_of_scan`); what the parser promises about canonical paths follows from that.
-/

namespace Ophelia

open Percent Results

/-! ### The parser -/

inductive HttpPathKind where
  | exact
  | prefixed
deriving DecidableEq

/-- `CanonicalHTTPPath`. -/
structure CanonicalHttpPath where
  value : List Char
  kind : HttpPathKind
deriving DecidableEq

/-- `ValidationIssue`, for the field `path`. -/
structure HttpPathIssue where
  code : String
  message : String
deriving DecidableEq

abbrev HttpPathResult := Except HttpPathIssue

namespace HttpPath

/-- `_reject`. -/
def reject {α : Type} (code message : String) : HttpPathResult α :=
  .error ⟨code, "path" ++ message⟩

/-- `_UNRESERVED`. -/
def UNRESERVED : List Char :=
  "ABCDEFGHIJKLMNOPQRSTUVWXYZabcdefghijklmnopqrstuvwxyz0123456789-._~".toList

/-- `_FORBIDDEN_RENDER_CHARACTERS`. -/
def FORBIDDEN_RENDER_CHARACTERS : List Char := ['\\', '?', '#', '{', '}', '*']

/-- The characters that an escape may not stand for. -/
def DELIMITERS : List Char := '/' :: FORBIDDEN_RENDER_CHARACTERS

def isControl (n : Nat) : Bool := n < 32 || n == 127

/-- One escape: what it becomes in the canonical and in the decoded path. -/
def scanEscape (high low : Char) : HttpPathResult (List Char × Char) :=
  let byte := 16 * hexValue high + hexValue low
  let decoded := Char.ofNat byte
  if isControl byte then reject "encoded_http_control" " contains an encoded control character."
  else if decoded ∈ DELIMITERS then
    reject "ambiguous_http_escape" " contains an ambiguous encoded delimiter."
  else .ok (if decoded ∈ UNRESERVED then [decoded] else ['%', upperHex high, upperHex low], decoded)

/-- The loop of `parse_http_path`: the canonical and the decoded path. -/
def scan : List Char → HttpPathResult (List Char × List Char)
  | [] => .ok ([], [])
  | '%' :: high :: low :: cs =>
      if isHex high && isHex low then do
        let (normalized, decoded) ← scanEscape high low
        let (n, d) ← scan cs
        return (normalized ++ n, decoded :: d)
      else reject "malformed_http_escape" " contains a malformed percent escape."
  | c :: cs =>
      if c = '%' then reject "malformed_http_escape" " contains a malformed percent escape."
      else do
        let (n, d) ← scan cs
        return (c :: n, c :: d)

/-- The checks before the loop. -/
def checkCharacters (value : List Char) : HttpPathResult Unit :=
  if value.head? ≠ some '/' then reject "invalid_http_path" " must start with /."
  else if value.any fun c => isControl c.toNat then
    reject "http_path_control_character" " contains a control character."
  else if value.any fun c => 127 < c.toNat then
    reject "http_path_non_ascii" " must encode non-ASCII bytes with percent escapes."
  else if value.any (· ∈ FORBIDDEN_RENDER_CHARACTERS) then
    reject "http_path_forbidden_syntax" " contains forbidden route syntax."
  else if value.any PyText.isSpace then
    reject "http_path_whitespace" " may not contain whitespace."
  else if PyText.contains ['/', '/'] value then
    reject "ambiguous_http_path" " may not contain empty path segments."
  else .ok ()

/-- The segments of a path, behind its first slash. -/
def segments (path : List Char) : List (List Char) := (path.splitOn '/').tail

/-- `parse_http_path`, for a text. -/
def parseHttpPath (kind : HttpPathKind) (value : List Char) : HttpPathResult CanonicalHttpPath := do
  checkCharacters value
  let (normalized, decoded) ← scan value
  if (segments decoded).any fun segment => segment = ['.'] ∨ segment = ['.', '.'] then
    reject "http_path_dot_segment" " may not contain dot segments."
  else if kind = .prefixed ∧ (normalized = ['/'] ∨ normalized.getLast? = some '/') then
    reject "ambiguous_http_prefix" " prefixes may not be / or end with /."
  else .ok ⟨normalized, kind⟩

/-! ### Escapes -/

/-- A token that the scanner lets through. -/
def Allowed : Token → Prop
  | .plain _ => True
  | .escape high low =>
      isControl (Token.escape high low).byte = false ∧
        Char.ofNat (Token.escape high low).byte ∉ DELIMITERS

/-- The character that a token stands for. -/
def decodedChar (t : Token) : Char :=
  match t with
  | .plain c => c
  | .escape _ _ => Char.ofNat t.byte

/-- The unreserved characters are the listed ones. -/
theorem mem_UNRESERVED {c : Char} : c ∈ UNRESERVED ↔ isUnreserved c = true := by
  have hlow : ∀ n : Nat, n < 128 →
      (Char.ofNat n ∈ UNRESERVED ↔ isUnreserved (Char.ofNat n) = true) := by decide +kernel
  by_cases hlt : c.toNat < 128
  · have hc := hlow c.toNat hlt
    rwa [Char.ofNat_toNat] at hc
  · constructor
    · intro h
      have hall : ∀ c ∈ UNRESERVED, c.toNat < 128 := List.forall_iff_forall_mem.mp (by decide)
      exact absurd (hall c h) hlt
    · intro h
      refine absurd ?_ hlt
      simp only [isUnreserved, Char.isAlphanum, Char.isAlpha, Char.isUpper, Char.isLower,
        Char.isDigit, Bool.or_eq_true, Bool.and_eq_true, decide_eq_true_eq, beq_iff_eq] at h
      rcases h with ((((((h | h) | h) | rfl) | rfl) | rfl) | rfl)
      · exact Nat.lt_of_le_of_lt h.2 (by decide)
      · exact Nat.lt_of_le_of_lt h.2 (by decide)
      · exact Nat.lt_of_le_of_lt h.2 (by decide)
      · decide
      · decide
      · decide
      · decide

theorem scanEscape_eq_ok_iff {high low : Char} (h : (Token.escape high low).Valid)
    {p : List Char × Char} : scanEscape high low = .ok p ↔ Allowed (.escape high low) ∧
      p = ((Token.escape high low).normalize.chars, decodedChar (.escape high low)) := by
  have hchars : (if Char.ofNat (16 * hexValue high + hexValue low) ∈ UNRESERVED then
      [Char.ofNat (16 * hexValue high + hexValue low)]
      else ['%', upperHex high, upperHex low]) = (Token.escape high low).normalize.chars := by
    rw [Token.normalize_escape h]
    simp only [mem_UNRESERVED]
    split
    · rw [if_pos (by assumption)]
      rfl
    · rw [if_neg (by assumption)]
      rfl
  unfold scanEscape
  simp only [hchars]
  change _ ↔ (isControl (16 * hexValue high + hexValue low) = false ∧
    Char.ofNat (16 * hexValue high + hexValue low) ∉ DELIMITERS) ∧ p = (_, _)
  cases hcontrol : isControl (16 * hexValue high + hexValue low) with
  | true => simp [reject]
  | false =>
      by_cases hmem : Char.ofNat (16 * hexValue high + hexValue low) ∈ DELIMITERS
      · simp [reject, hmem]
      · simp only [Bool.false_eq_true, if_false, hmem, not_false_eq_true, and_self, true_and,
          Except.ok.injEq]
        exact ⟨fun h => h.symm, fun h => h.symm⟩

/-! ### The scanner reads tokens -/

theorem scan_escape {high low : Char} (hhigh : isHex high = true) (hlow : isHex low = true)
    (cs : List Char) : scan ('%' :: high :: low :: cs) =
      (scanEscape high low).bind fun p => (scan cs).bind fun q => .ok (p.1 ++ q.1, p.2 :: q.2) := by
  rw [scan, hhigh, hlow]
  rfl

theorem scan_plain {c : Char} (hc : c ≠ '%') (cs : List Char) :
    scan (c :: cs) = (scan cs).bind fun q => .ok (c :: q.1, c :: q.2) := by
  rw [scan.eq_def]
  split
  · rename_i heq
    cases heq
  · rename_i heq
    cases heq
    exact absurd rfl hc
  · rename_i heq
    cases heq
    exact if_neg hc

/-- What the scanner lets through, as tokens. -/
structure Scanned (cs : List Char) (ts : List Token) : Prop where
  tokens : tokens? cs = some ts
  allowed : ∀ t ∈ ts, Allowed t

namespace Scanned

variable {cs : List Char} {ts : List Token}

theorem render_eq (h : Scanned cs ts) : render ts = cs := (render_of_tokens? h.tokens).1

theorem valid (h : Scanned cs ts) : ∀ t ∈ ts, t.Valid := (render_of_tokens? h.tokens).2

end Scanned

/-- The scanner accepts the texts of allowed tokens; it writes their normal forms and the
characters they stand for. -/
theorem scan_render {ts : List Token} (hvalid : ∀ t ∈ ts, t.Valid) (hallowed : ∀ t ∈ ts, Allowed t) :
    scan (render ts) = .ok (render (ts.map Token.normalize), ts.map decodedChar) := by
  induction ts with
  | nil => rfl
  | cons t ts ih =>
      have ht := hvalid t List.mem_cons_self
      have hrest := ih (fun u hu => hvalid u (List.mem_cons_of_mem t hu))
        (fun u hu => hallowed u (List.mem_cons_of_mem t hu))
      cases t with
      | plain c =>
          change scan (c :: render ts) = _
          rw [scan_plain ht, hrest]
          rfl
      | escape high low =>
          change scan ('%' :: high :: low :: render ts) = _
          have hescape := (scanEscape_eq_ok_iff ht).mpr ⟨hallowed _ List.mem_cons_self, rfl⟩
          rw [scan_escape ht.1 ht.2, hescape, hrest]
          rfl

/-- Only the texts of allowed tokens are accepted. -/
theorem scanned_of_scan {cs : List Char} {p : List Char × List Char} (h : scan cs = .ok p) :
    ∃ ts, Scanned cs ts := by
  fun_induction scan cs generalizing p with
  | case1 => exact ⟨[], rfl, by simp⟩
  | case2 high low cs hhex ih =>
      rw [Bool.and_eq_true] at hhex
      obtain ⟨q, hq, h⟩ := bind_eq_ok.mp h
      obtain ⟨r, hr, -⟩ := bind_eq_ok.mp h
      obtain ⟨ts, hts⟩ := ih hr
      have hallowed := ((@scanEscape_eq_ok_iff high low hhex q).mp hq).1
      refine ⟨.escape high low :: ts, ?_, List.forall_mem_cons.mpr ⟨hallowed, hts.allowed⟩⟩
      rw [tokens?_escape hhex.1 hhex.2, hts.tokens]
      rfl
  | case3 => cases h
  | case4 => cases h
  | case5 c cs _ hc ih =>
      obtain ⟨r, hr, -⟩ := bind_eq_ok.mp h
      obtain ⟨ts, hts⟩ := ih hr
      refine ⟨.plain c :: ts, ?_, List.forall_mem_cons.mpr ⟨trivial, hts.allowed⟩⟩
      rw [tokens?_plain hc, hts.tokens]
      rfl

theorem scan_of_scanned {cs : List Char} {ts : List Token} (h : Scanned cs ts) :
    scan cs = .ok (render (ts.map Token.normalize), ts.map decodedChar) := by
  rw [← h.render_eq]
  exact scan_render h.valid h.allowed

/-! ### Normal forms are scanned to themselves -/

theorem decodedChar_normalize {t : Token} (h : t.Valid) : decodedChar t.normalize = decodedChar t := by
  cases t with
  | plain c => rfl
  | escape high low =>
      have hbyte := Token.byte_normalize h
      rw [Token.normalize_escape h] at hbyte ⊢
      split
      · rfl
      · rename_i hc
        rw [if_neg hc] at hbyte
        exact congrArg Char.ofNat hbyte

theorem allowed_normalize {t : Token} (hvalid : t.Valid) (h : Allowed t) : Allowed t.normalize := by
  cases t with
  | plain c => trivial
  | escape high low =>
      have hbyte := Token.byte_normalize hvalid
      rw [Token.normalize_escape hvalid] at hbyte ⊢
      split
      · trivial
      · rename_i hc
        rw [if_neg hc] at hbyte
        rw [Allowed, hbyte]
        exact h

theorem map_normalize_normalize {ts : List Token} (h : ∀ t ∈ ts, t.Valid) :
    (ts.map Token.normalize).map Token.normalize = ts.map Token.normalize := by
  rw [List.map_map]
  exact List.map_congr_left fun t ht => Token.normalize_normalize (h t ht)

theorem map_decodedChar_normalize {ts : List Token} (h : ∀ t ∈ ts, t.Valid) :
    (ts.map Token.normalize).map decodedChar = ts.map decodedChar := by
  rw [List.map_map]
  exact List.map_congr_left fun t ht => decodedChar_normalize (h t ht)

theorem Scanned.normalize {cs : List Char} {ts : List Token} (h : Scanned cs ts) :
    Scanned (render (ts.map Token.normalize)) (ts.map Token.normalize) where
  tokens := tokens?_render (valid_map_normalize h.valid)
  allowed := by
    intro t ht
    obtain ⟨u, hu, rfl⟩ := List.mem_map.mp ht
    exact allowed_normalize (h.valid u hu) (h.allowed u hu)

/-! ### Slashes -/

/-- The slash, as a token. -/
def slash : Token := .plain '/'

/-- Only the slash stands for a slash: its escapes are not allowed. -/
theorem decodedChar_ne_slash {t : Token} (h : Allowed t) (hne : t ≠ slash) : decodedChar t ≠ '/' := by
  cases t with
  | plain c =>
      rintro rfl
      exact hne rfl
  | escape high low =>
      intro hslash
      exact h.2 (by rw [show Char.ofNat (Token.escape high low).byte = '/' from hslash]; decide)

theorem not_mem_chars {t : Token} (h : t.Valid) (hne : t ≠ slash) : '/' ∉ t.chars := by
  cases t with
  | plain c =>
      intro hmem
      rw [Token.chars, List.mem_singleton] at hmem
      exact hne (by rw [slash, hmem])
  | escape high low =>
      rw [Token.chars]
      simp only [List.mem_cons, List.not_mem_nil, or_false, not_or]
      exact ⟨by decide, (isHex_ne h.1 (by decide)).symm, (isHex_ne h.2 (by decide)).symm⟩

theorem normalize_ne_slash {t : Token} (hvalid : t.Valid) (h : Allowed t) (hne : t ≠ slash) :
    t.normalize ≠ slash := by
  intro hslash
  apply decodedChar_ne_slash h hne
  rw [← decodedChar_normalize hvalid, hslash]
  rfl

theorem chars_ne_nil (t : Token) : t.chars ≠ [] := by
  cases t with
  | plain c => exact List.cons_ne_nil _ _
  | escape high low => exact List.cons_ne_nil _ _

/-! ### Segments

A path is a list of tokens, and the canonical text, the decoded text and the bytes come from it
token by token. None of them has a slash where the tokens have none, so all have the segments of
the tokens. -/

/-- The segments of a path, as tokens. -/
def tokenSegments (ts : List Token) : List (List Token) := (ts.splitOn slash).tail

/-- The segments of bytes. -/
def byteSegments (bytes : List Nat) : List (List Nat) := (bytes.splitOn 47).tail

theorem segments_render {ts : List Token} (h : ∀ t ∈ ts, t.Valid) :
    segments (render ts) = (tokenSegments ts).map render := by
  rw [segments, render, Segments.splitOn_flatMap slash '/' Token.chars rfl
    (fun t ht hne => not_mem_chars (h t ht) hne), tokenSegments, List.map_tail]
  rfl

theorem byte_eq_slash {t : Token} (h : Allowed t) (hbyte : t.byte = 47) : t = slash := by
  by_contra hne
  refine decodedChar_ne_slash h hne ?_
  cases t with
  | plain c => rw [decodedChar, ← Char.ofNat_toNat c, show c.toNat = 47 from hbyte]
  | escape high low => rw [decodedChar, hbyte]

theorem map_eq_flatMap {α β : Type} (f : α → β) (l : List α) :
    l.map f = l.flatMap fun a => [f a] := by
  induction l with
  | nil => rfl
  | cons a l ih => rw [List.map_cons, List.flatMap_cons, ih, List.singleton_append]

theorem byteSegments_map {ts : List Token} (h : ∀ t ∈ ts, Allowed t) :
    byteSegments (ts.map Token.byte) = (tokenSegments ts).map (·.map Token.byte) := by
  have hsplit := Segments.splitOn_flatMap slash 47 (fun t => [Token.byte t]) rfl (l := ts) (fun t ht hne hmem =>
      hne (byte_eq_slash (h t ht) (List.mem_singleton.mp hmem).symm))
  rw [byteSegments, map_eq_flatMap, hsplit, tokenSegments, List.map_tail]
  simp only [← map_eq_flatMap]

theorem segments_decoded {ts : List Token} (h : ∀ t ∈ ts, Allowed t) :
    segments (ts.map decodedChar) = (tokenSegments ts).map (·.map decodedChar) := by
  have hsplit := Segments.splitOn_flatMap slash '/' (fun t => [decodedChar t]) rfl (l := ts) (fun t ht hne hmem =>
      decodedChar_ne_slash (h t ht) hne (List.mem_singleton.mp hmem).symm)
  rw [segments, map_eq_flatMap, hsplit, tokenSegments, List.map_tail]
  simp only [← map_eq_flatMap]

/-! ### What is accepted -/

/-- A character that may stand in a path. -/
def CharOk (c : Char) : Prop :=
  isControl c.toNat = false ∧ c.toNat ≤ 127 ∧ c ∉ FORBIDDEN_RENDER_CHARACTERS ∧
    PyText.isSpace c = false

instance (c : Char) : Decidable (CharOk c) := inferInstanceAs (Decidable (_ ∧ _))

theorem checkCharacters_eq_ok_iff {value : List Char} : checkCharacters value = .ok () ↔
    value.head? = some '/' ∧ (∀ c ∈ value, CharOk c) ∧ ¬ ['/', '/'] <:+: value := by
  rw [← PyText.contains_iff]
  unfold checkCharacters CharOk reject
  constructor
  · intro h
    split_ifs at h with hhead hcontrol hascii hforbidden hspace hdouble
    refine ⟨not_ne_iff.mp hhead, fun c hc => ⟨?_, ?_, ?_, ?_⟩, hdouble⟩
    · exact Bool.eq_false_iff.mpr fun h => hcontrol (List.any_eq_true.mpr ⟨c, hc, h⟩)
    · exact not_lt.mp fun h => hascii (List.any_eq_true.mpr ⟨c, hc, decide_eq_true h⟩)
    · exact fun h => hforbidden (List.any_eq_true.mpr ⟨c, hc, decide_eq_true h⟩)
    · exact Bool.eq_false_iff.mpr fun h => hspace (List.any_eq_true.mpr ⟨c, hc, h⟩)
  · rintro ⟨hhead, hchars, hdouble⟩
    rw [if_neg (not_ne_iff.mpr hhead), if_neg, if_neg, if_neg, if_neg, if_neg hdouble]
    · intro h
      obtain ⟨c, hc, h⟩ := List.any_eq_true.mp h
      rw [(hchars c hc).2.2.2] at h
      cases h
    · intro h
      obtain ⟨c, hc, h⟩ := List.any_eq_true.mp h
      exact (hchars c hc).2.2.1 (of_decide_eq_true h)
    · intro h
      obtain ⟨c, hc, h⟩ := List.any_eq_true.mp h
      exact absurd (of_decide_eq_true h) (not_lt.mpr (hchars c hc).2.1)
    · intro h
      obtain ⟨c, hc, h⟩ := List.any_eq_true.mp h
      rw [(hchars c hc).1] at h
      cases h

/-- A segment that only changes the place in the tree. -/
def IsDot (segment : List Token) : Prop :=
  segment.map decodedChar = ['.'] ∨ segment.map decodedChar = ['.', '.']

/-- Paths of tokens that the parser accepts. -/
structure Accepted (kind : HttpPathKind) (value : List Char) (ts : List Token) : Prop where
  scanned : Scanned value ts
  rooted : value.head? = some '/'
  chars : ∀ c ∈ value, CharOk c
  single : ¬ ['/', '/'] <:+: value
  noDot : ∀ segment ∈ tokenSegments ts, ¬ IsDot segment
  closed : kind = .prefixed → (render (ts.map Token.normalize)).getLast? ≠ some '/'

/-- The parser accepts these paths, and answers with their normal forms. -/
theorem parseHttpPath_eq_ok_iff {kind : HttpPathKind} {value : List Char}
    {path : CanonicalHttpPath} : parseHttpPath kind value = .ok path ↔
      ∃ ts, Accepted kind value ts ∧ path = ⟨render (ts.map Token.normalize), kind⟩ := by
  constructor
  · intro h
    obtain ⟨_, hcheck, h⟩ := bind_eq_ok.mp h
    obtain ⟨hrooted, hchars, hsingle⟩ := checkCharacters_eq_ok_iff.mp hcheck
    obtain ⟨p, hscan, h⟩ := bind_eq_ok.mp h
    obtain ⟨ts, hts⟩ := scanned_of_scan hscan
    rw [scan_of_scanned hts] at hscan
    cases hscan
    simp only [reject] at h
    split_ifs at h with hdot hslash
    cases h
    refine ⟨ts, ⟨hts, hrooted, hchars, hsingle, ?_, ?_⟩, rfl⟩
    · intro segment hsegment his
      apply hdot
      rw [segments_decoded hts.allowed]
      exact List.any_eq_true.mpr ⟨_, List.mem_map_of_mem hsegment, by rwa [decide_eq_true_eq]⟩
    · exact fun hkind hlast => hslash ⟨hkind, .inr hlast⟩
  · rintro ⟨ts, h, rfl⟩
    have hcheck := checkCharacters_eq_ok_iff.mpr ⟨h.rooted, h.chars, h.single⟩
    refine bind_eq_ok.mpr ⟨(), hcheck, bind_eq_ok.mpr ⟨_, scan_of_scanned h.scanned, ?_⟩⟩
    simp only
    rw [if_neg, if_neg]
    · rintro ⟨hkind, hroot | hlast⟩
      · exact h.closed hkind (by rw [hroot]; rfl)
      · exact h.closed hkind hlast
    · intro hdot
      rw [segments_decoded h.scanned.allowed] at hdot
      obtain ⟨text, htext, his⟩ := List.any_eq_true.mp hdot
      obtain ⟨segment, hsegment, rfl⟩ := List.mem_map.mp htext
      rw [decide_eq_true_eq] at his
      exact h.noDot segment hsegment his

/-! ### Canonical paths are accepted again -/

theorem charOk_unreserved {c : Char} (h : isUnreserved c = true) : CharOk c := by
  have hall : ∀ c ∈ UNRESERVED, CharOk c := List.forall_iff_forall_mem.mp (by decide)
  exact hall c (mem_UNRESERVED.mpr h)

theorem charOk_upperHex {c : Char} (h : isHex c = true) : CharOk (upperHex c) :=
  hex_induction (P := fun c => CharOk (upperHex c)) (by decide +kernel) h

theorem charOk_normalize {t : Token} (hvalid : t.Valid) (h : ∀ c ∈ t.chars, CharOk c) :
    ∀ c ∈ t.normalize.chars, CharOk c := by
  cases t with
  | plain c => exact h
  | escape high low =>
      rw [Token.normalize_escape hvalid]
      split
      · rename_i hc
        intro c hmem
        rw [List.mem_singleton.mp hmem]
        exact charOk_unreserved hc
      · intro c hmem
        rw [Token.chars] at hmem
        simp only [List.mem_cons, List.not_mem_nil, or_false] at hmem
        rcases hmem with rfl | rfl | rfl
        · decide
        · exact charOk_upperHex hvalid.1
        · exact charOk_upperHex hvalid.2

theorem head_render_normalize {ts : List Token} (hvalid : ∀ t ∈ ts, t.Valid)
    (h : (render ts).head? = some '/') : (render (ts.map Token.normalize)).head? = some '/' := by
  cases ts with
  | nil => cases h
  | cons t ts =>
      cases t with
      | plain c => exact h
      | escape high low =>
          exact absurd (Option.some.inj (show some '%' = some '/' from h)) (by decide)

/-- A normalized path has the segments of the path. -/
theorem tokenSegments_normalize {ts : List Token} (hvalid : ∀ t ∈ ts, t.Valid)
    (h : ∀ t ∈ ts, Allowed t) :
    tokenSegments (ts.map Token.normalize) = (tokenSegments ts).map (·.map Token.normalize) := by
  have hsplit := Segments.splitOn_flatMap slash slash (fun t => [Token.normalize t]) rfl (l := ts) (fun t ht hne hmem =>
      normalize_ne_slash (hvalid t ht) (h t ht) hne (List.mem_singleton.mp hmem).symm)
  rw [tokenSegments, map_eq_flatMap, hsplit, tokenSegments, List.map_tail]
  simp only [← map_eq_flatMap]

theorem double_render {ts : List Token} (h : ∀ t ∈ ts, t.Valid) :
    ['/', '/'] <:+: render ts ↔ [slash, slash] <:+: ts :=
  Segments.double_infix_flatMap slash '/' Token.chars rfl chars_ne_nil fun t ht hne => not_mem_chars (h t ht) hne

theorem double_normalize {ts : List Token} (hvalid : ∀ t ∈ ts, t.Valid)
    (h : ∀ t ∈ ts, Allowed t) :
    [slash, slash] <:+: ts.map Token.normalize ↔ [slash, slash] <:+: ts := by
  rw [map_eq_flatMap]
  refine Segments.double_infix_flatMap slash slash _ rfl (fun t => List.cons_ne_nil _ _) ?_
  intro t ht hne hmem
  exact normalize_ne_slash (hvalid t ht) (h t ht) hne (List.mem_singleton.mp hmem).symm

theorem isDot_normalize {segment : List Token} (hvalid : ∀ t ∈ segment, t.Valid) :
    IsDot (segment.map Token.normalize) ↔ IsDot segment := by
  rw [IsDot, IsDot, map_decodedChar_normalize hvalid]

namespace Accepted

variable {kind : HttpPathKind} {value : List Char} {ts : List Token}

/-- The tokens of a segment are tokens of the path. -/
theorem mem_of_mem_segment {segment : List Token} (hsegment : segment ∈ tokenSegments ts)
    {t : Token} (ht : t ∈ segment) : t ∈ ts :=
  Segments.mem_of_mem_splitOn (List.mem_of_mem_tail hsegment) ht

theorem normalize (h : Accepted kind value ts) :
    Accepted kind (render (ts.map Token.normalize)) (ts.map Token.normalize) where
  scanned := h.scanned.normalize
  rooted := head_render_normalize h.scanned.valid (by rw [h.scanned.render_eq]; exact h.rooted)
  chars := by
    intro c hc
    obtain ⟨t, ht, hc⟩ := List.mem_flatMap.mp hc
    obtain ⟨u, hu, rfl⟩ := List.mem_map.mp ht
    refine charOk_normalize (h.scanned.valid u hu) ?_ c hc
    intro d hd
    refine h.chars d ?_
    rw [← h.scanned.render_eq]
    exact List.mem_flatMap.mpr ⟨u, hu, hd⟩
  single := by
    have hsingle := h.single
    rw [← h.scanned.render_eq, double_render h.scanned.valid] at hsingle
    rwa [double_render (valid_map_normalize h.scanned.valid),
      double_normalize h.scanned.valid h.scanned.allowed]
  noDot := by
    intro segment hsegment
    rw [tokenSegments_normalize h.scanned.valid h.scanned.allowed] at hsegment
    obtain ⟨part, hpart, rfl⟩ := List.mem_map.mp hsegment
    rw [isDot_normalize fun t ht => h.scanned.valid t (mem_of_mem_segment hpart ht)]
    exact h.noDot part hpart
  closed := by
    rw [map_normalize_normalize h.scanned.valid]
    exact h.closed

end Accepted

/-! ### What canonical paths are -/

/-- Only the last segment of an exact path may be empty, no segment of a prefix. -/
def NoEmptySegment {α : Type} (kind : HttpPathKind) (parts : List (List α)) : Prop :=
  match kind with
  | .exact => [] ∉ parts.dropLast
  | .prefixed => [] ∉ parts

/-- An escape in normal form has no lower-case digit and stands for no unreserved character. -/
def IsNormal : Token → Prop
  | .plain _ => True
  | .escape high low =>
      high.isLower = false ∧ low.isLower = false ∧
        isUnreserved (Char.ofNat (Token.escape high low).byte) = false

/-- What a canonical path promises about itself and about the path it was read from. -/
structure IsCanonicalOf (kind : HttpPathKind) (value : List Char) (path : CanonicalHttpPath) :
    Prop where
  kind_eq : path.kind = kind
  again : parseHttpPath kind path.value = .ok path
  bytes : ∃ bytes, decode? value = some bytes ∧ decode? path.value = some bytes
  noDot : ∀ segment ∈ segments path.value, segment ≠ ['.'] ∧ segment ≠ ['.', '.']
  noEmpty : NoEmptySegment kind (segments path.value)
  noDot_decoded : ∀ bytes, decode? path.value = some bytes →
    ∀ segment ∈ byteSegments bytes, segment ≠ [46] ∧ segment ≠ [46, 46]
  noEmpty_decoded : ∀ bytes, decode? path.value = some bytes →
    NoEmptySegment kind (byteSegments bytes)
  normal : ∃ ts, tokens? path.value = some ts ∧ ∀ t ∈ ts, IsNormal t

theorem isLower_upperHex {c : Char} (h : isHex c = true) : (upperHex c).isLower = false :=
  hex_induction (P := fun c => (upperHex c).isLower = false) (by decide +kernel) h

theorem isNormal_normalize {t : Token} (h : t.Valid) : IsNormal t.normalize := by
  cases t with
  | plain c => trivial
  | escape high low =>
      have hbyte := Token.byte_normalize h
      rw [Token.normalize_escape h] at hbyte ⊢
      split
      · trivial
      · rename_i hc
        rw [if_neg hc] at hbyte
        refine ⟨isLower_upperHex h.1, isLower_upperHex h.2, ?_⟩
        rw [hbyte]
        exact Bool.eq_false_iff.mpr hc

/-- Segments written token by token are empty where the segments of the tokens are. -/
theorem NoEmptySegment.map {α β : Type} {kind : HttpPathKind} {parts : List (List α)}
    (h : NoEmptySegment kind parts) {f : List α → List β} (hf : ∀ part, f part = [] → part = []) :
    NoEmptySegment kind (parts.map f) := by
  have hmap : ∀ parts : List (List α), [] ∉ parts → [] ∉ parts.map f := by
    intro parts hparts hmem
    obtain ⟨part, hpart, hempty⟩ := List.mem_map.mp hmem
    rw [hf part hempty] at hpart
    exact hparts hpart
  cases kind with
  | exact =>
      rw [NoEmptySegment, ← List.map_dropLast]
      exact hmap _ h
  | prefixed => exact hmap _ h

theorem render_eq_nil {ts : List Token} (h : render ts = []) : ts = [] :=
  (Segments.flatMap_eq_nil chars_ne_nil).mp h

theorem getLast_render {ts : List Token} (h : ts.getLast? = some slash) :
    (render ts).getLast? = some '/' := by
  obtain ⟨init, rfl⟩ := List.getLast?_eq_some_iff.mp h
  rw [render, List.flatMap_append, List.getLast?_append]
  rfl

/-- The dot segments, in any writing of their tokens. -/
theorem isDot_of_render {segment : List Token} (hvalid : ∀ t ∈ segment, t.Valid)
    (h : render segment = ['.'] ∨ render segment = ['.', '.']) : IsDot segment := by
  have hread := tokens?_render hvalid
  rcases h with h | h
  · rw [h] at hread
    rw [← Option.some.inj (show some [Token.plain '.'] = some segment from hread)]
    exact .inl rfl
  · rw [h] at hread
    rw [← Option.some.inj (show some [Token.plain '.', .plain '.'] = some segment from hread)]
    exact .inr rfl

theorem decodedChar_eq (t : Token) : decodedChar t = Char.ofNat t.byte := by
  cases t with
  | plain c => exact (Char.ofNat_toNat c).symm
  | escape high low => rfl

theorem isDot_of_bytes {segment : List Token}
    (h : segment.map Token.byte = [46] ∨ segment.map Token.byte = [46, 46]) : IsDot segment := by
  have hchars : segment.map decodedChar = (segment.map Token.byte).map Char.ofNat := by
    rw [List.map_map]
    exact List.map_congr_left fun t _ => decodedChar_eq t
  rw [IsDot, hchars]
  rcases h with h | h
  · rw [h]
    exact .inl rfl
  · rw [h]
    exact .inr rfl

namespace Accepted

variable {kind : HttpPathKind} {value : List Char} {ts : List Token}

theorem noEmpty (h : Accepted kind value ts) (hclosed : kind = .prefixed → value.getLast? ≠ some '/') :
    NoEmptySegment kind (tokenSegments ts) := by
  have hsingle := h.single
  rw [← h.scanned.render_eq, double_render h.scanned.valid,
    Segments.double_infix_iff_empty] at hsingle
  cases kind with
  | exact => exact hsingle
  | prefixed =>
      intro hempty
      rcases Segments.empty_mem_tail hempty with hinner | hlast
      · exact hsingle hinner
      · refine hclosed rfl ?_
        rw [← h.scanned.render_eq]
        exact getLast_render hlast

/-- The normal form of an accepted path is canonical. -/
theorem isCanonicalOf (h : Accepted kind value ts) :
    IsCanonicalOf kind value ⟨render (ts.map Token.normalize), kind⟩ := by
  have hn := h.normalize
  have hvalid := hn.scanned.valid
  have hdecode : decode? (render (ts.map Token.normalize)) =
      some ((ts.map Token.normalize).map Token.byte) := by
    rw [decode?, hn.scanned.tokens]
    rfl
  have hempty := hn.noEmpty h.closed
  constructor
  case kind_eq => rfl
  case again =>
    refine parseHttpPath_eq_ok_iff.mpr ⟨_, hn, ?_⟩
    rw [map_normalize_normalize h.scanned.valid]
  case bytes =>
    refine ⟨ts.map Token.byte, by rw [decode?, h.scanned.tokens]; rfl, hdecode.trans ?_⟩
    rw [List.map_map]
    exact congrArg some (List.map_congr_left fun t ht => Token.byte_normalize (h.scanned.valid t ht))
  case noDot =>
    intro segment hsegment
    rw [segments_render hvalid] at hsegment
    obtain ⟨part, hpart, rfl⟩ := List.mem_map.mp hsegment
    have hpartValid : ∀ t ∈ part, t.Valid := fun t ht => hvalid t (mem_of_mem_segment hpart ht)
    rw [ne_eq, ne_eq, ← not_or]
    exact fun his => hn.noDot part hpart (isDot_of_render hpartValid his)
  case noEmpty =>
    change NoEmptySegment kind (segments (render (ts.map Token.normalize)))
    rw [segments_render hvalid]
    exact hempty.map fun _ => render_eq_nil
  case noDot_decoded =>
    intro bytes hbytes segment hsegment
    rw [← Option.some.inj (hdecode.symm.trans hbytes),
      byteSegments_map hn.scanned.allowed] at hsegment
    obtain ⟨part, hpart, rfl⟩ := List.mem_map.mp hsegment
    rw [ne_eq, ne_eq, ← not_or]
    exact fun his => hn.noDot part hpart (isDot_of_bytes his)
  case noEmpty_decoded =>
    intro bytes hbytes
    rw [← Option.some.inj (hdecode.symm.trans hbytes), byteSegments_map hn.scanned.allowed]
    exact hempty.map fun _ => List.map_eq_nil_iff.mp
  case normal =>
    refine ⟨_, hn.scanned.tokens, fun t ht => ?_⟩
    obtain ⟨u, hu, rfl⟩ := List.mem_map.mp ht
    exact isNormal_normalize (h.scanned.valid u hu)

theorem normalize?_eq (h : Accepted kind value ts) :
    normalize? value = some (render (ts.map Token.normalize)) := by
  rw [normalize?, h.scanned.tokens]
  rfl

end Accepted

/-- What the parser accepts it answers with a canonical path, and the answers to two paths are the
same if and only if the paths are the same after normalizing their escapes. -/
theorem parseHttpPath_canonical {kind : HttpPathKind} {value : List Char} {path : CanonicalHttpPath}
    (h : parseHttpPath kind value = .ok path) : IsCanonicalOf kind value path ∧
      ∀ (kind' : HttpPathKind) (value' : List Char) (path' : CanonicalHttpPath),
        parseHttpPath kind' value' = .ok path' →
          (path.value = path'.value ↔ normalize? value = normalize? value') := by
  obtain ⟨ts, hts, rfl⟩ := parseHttpPath_eq_ok_iff.mp h
  refine ⟨hts.isCanonicalOf, ?_⟩
  intro kind' value' path' h'
  obtain ⟨us, hus, rfl⟩ := parseHttpPath_eq_ok_iff.mp h'
  rw [hts.normalize?_eq, hus.normalize?_eq, Option.some_inj]

/-- A double escape: `%25` stands for a percent sign and stays, `%7e` becomes a tilde. -/
theorem parseHttpPath_canonical_double :
    parseHttpPath .prefixed "/%252e/%7eb".toList = .ok ⟨"/%252e/~b".toList, .prefixed⟩ ∧
      IsCanonicalOf .prefixed "/%252e/%7eb".toList ⟨"/%252e/~b".toList, .prefixed⟩ :=
  have h : parseHttpPath .prefixed "/%252e/%7eb".toList = .ok ⟨"/%252e/~b".toList, .prefixed⟩ := by
    decide +kernel
  ⟨h, (parseHttpPath_canonical h).1⟩

/-- An exact path may end with a slash, behind which there is an empty segment. -/
theorem trailing_slash_accepted : ∃ path, parseHttpPath .exact "/a/".toList = .ok path ∧
    [] ∈ segments path.value := by
  refine ⟨⟨"/a/".toList, .exact⟩, ?_, ?_⟩
  · decide +kernel
  · decide +kernel

end HttpPath

end Ophelia
