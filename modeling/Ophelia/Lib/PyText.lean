import Mathlib.Data.List.Basic
import Mathlib.Data.String.Basic

/-!
# Ophelia.Lib.PyText

The Python string operations a program of checks on names and values is made of, over
lists of characters. A Python string is a sequence of Unicode scalar values here.

Case mapping is written for looking up ASCII patterns: a character keeps its place
unless its image has an ASCII character in it. Those outside ASCII (the ligatures, the
long s, the Kelvin sign and so on) are listed one by one; the image of every other
character has no ASCII character, so it cannot take part in a match.
-/

namespace PyText

/-! ### Case -/

/-- `c.upper()`, as far as ASCII is concerned. -/
def upperChar (c : Char) : List Char :=
  if c.isLower then [Char.ofNat (c.toNat - 32)]
  else if c.toNat = 0xdf then ['S', 'S']
  else if c.toNat = 0x131 then ['I']
  else if c.toNat = 0x149 then ['\u02bc', 'N']
  else if c.toNat = 0x17f then ['S']
  else if c.toNat = 0x1f0 then ['J', '\u030c']
  else if c.toNat = 0x1e96 then ['H', '\u0331']
  else if c.toNat = 0x1e97 then ['T', '\u0308']
  else if c.toNat = 0x1e98 then ['W', '\u030a']
  else if c.toNat = 0x1e99 then ['Y', '\u030a']
  else if c.toNat = 0x1e9a then ['A', '\u02be']
  else if c.toNat = 0xfb00 then ['F', 'F']
  else if c.toNat = 0xfb01 then ['F', 'I']
  else if c.toNat = 0xfb02 then ['F', 'L']
  else if c.toNat = 0xfb03 then ['F', 'F', 'I']
  else if c.toNat = 0xfb04 then ['F', 'F', 'L']
  else if c.toNat = 0xfb05 then ['S', 'T']
  else if c.toNat = 0xfb06 then ['S', 'T']
  else [c]

/-- `c.lower()`, as far as ASCII is concerned. -/
def lowerChar (c : Char) : List Char :=
  if c.isUpper then [Char.ofNat (c.toNat + 32)]
  else if c.toNat = 0x130 then ['i', '\u0307']
  else if c.toNat = 0x212a then ['k']
  else [c]

def upper (cs : List Char) : List Char := cs.flatMap upperChar

def lower (cs : List Char) : List Char := cs.flatMap lowerChar

/-! ### Blanks -/

/-- `c.isspace()`. -/
def isSpace (c : Char) : Bool :=
  let n := c.toNat
  (9 ≤ n && n ≤ 13) || (0x1c ≤ n && n ≤ 0x20) || n == 0x85 || n == 0xa0 || n == 0x1680 ||
    (0x2000 ≤ n && n ≤ 0x200a) || n == 0x2028 || n == 0x2029 || n == 0x202f || n == 0x205f ||
    n == 0x3000

/-- `s.strip(chars)` for the characters that satisfy `p`. -/
def stripChars (p : Char → Bool) (cs : List Char) : List Char :=
  (cs.dropWhile p).reverse.dropWhile p |>.reverse

/-- `s.strip()`. -/
def strip (cs : List Char) : List Char :=
  (cs.dropWhile isSpace).reverse.dropWhile isSpace |>.reverse

/-- The words of `s.split()`; `word` is the one being read, in reverse. -/
def splitWords (word : List Char) : List Char → List (List Char)
  | [] => if word.isEmpty then [] else [word.reverse]
  | c :: cs =>
      if isSpace c then
        if word.isEmpty then splitWords [] cs else word.reverse :: splitWords [] cs
      else splitWords (c :: word) cs

/-! ### Paths -/

/-- `PurePosixPath(s).parts`, the root left out. -/
def posixParts (cs : List Char) : List (List Char) :=
  (cs.splitOn '/').filter fun part => part ≠ [] && part ≠ ['.']

/-- `PurePosixPath(s).name`. -/
def pathName (cs : List Char) : List Char :=
  (posixParts cs).getLast?.getD []

/-! ### Searching -/

/-- `pat in s`. -/
def contains (pat : List Char) : List Char → Bool
  | [] => pat.isEmpty
  | c :: cs => pat.isPrefixOf (c :: cs) || contains pat cs

/-- `s.endswith(pat)`. -/
def endsWith (pat cs : List Char) : Bool :=
  pat.isSuffixOf cs

/-- What stands before and after the first occurrence of a separator. -/
def cut? (sep : List Char) : List Char → Option (List Char × List Char)
  | [] => if sep.isEmpty then some ([], []) else none
  | c :: cs =>
      if sep.isPrefixOf (c :: cs) then some ([], (c :: cs).drop sep.length)
      else (cut? sep cs).map fun p => (c :: p.1, p.2)

/-- The part of a text before the first occurrence of a character. -/
def before (c : Char) (cs : List Char) : List Char :=
  cs.takeWhile (· ≠ c)

theorem not_mem_before (c : Char) (cs : List Char) : c ∉ before c cs := by
  intro hmem
  have hall := List.all_eq_true.mp List.all_takeWhile _ hmem
  simp at hall

/-! ### Shell words -/

/-- Where the shell lexer stands: between words, inside a word, inside quotes, or right
after a backslash (with the state to come back to). -/
inductive ShellState where
  | blank
  | word
  | quote (q : Char)
  | escape (back : ShellState)

/-- `shlex.split`: the words of a POSIX shell command, comments off. `token` is the word
being read, in reverse, and `quoted` says whether quotes occurred in it; `none` when a
quotation or an escape is left open. -/
def shellSplit : ShellState → List Char → Bool → List Char → Option (List (List Char))
  | .blank, token, quoted, [] =>
      if token.isEmpty && !quoted then some [] else some [token.reverse]
  | .word, token, quoted, [] =>
      if token.isEmpty && !quoted then some [] else some [token.reverse]
  | .quote _, _, _, [] => none
  | .escape _, _, _, [] => none
  | .blank, token, quoted, c :: cs =>
      if c = ' ' || c = '\t' || c = '\r' || c = '\n' then
        if token.isEmpty && !quoted then shellSplit .blank token quoted cs
        else (shellSplit .blank [] false cs).map (token.reverse :: ·)
      else if c = '\\' then shellSplit (.escape .word) token quoted cs
      else if c = '\'' || c = '"' then shellSplit (.quote c) token true cs
      else shellSplit .word [c] quoted cs
  | .word, token, quoted, c :: cs =>
      if c = ' ' || c = '\t' || c = '\r' || c = '\n' then
        if token.isEmpty && !quoted then shellSplit .blank token quoted cs
        else (shellSplit .blank [] false cs).map (token.reverse :: ·)
      else if c = '\'' || c = '"' then shellSplit (.quote c) token true cs
      else if c = '\\' then shellSplit (.escape .word) token quoted cs
      else shellSplit .word (c :: token) quoted cs
  | .quote q, token, _, c :: cs =>
      if c = q then shellSplit .word token true cs
      else if c = '\\' && q == '"' then shellSplit (.escape (.quote q)) token true cs
      else shellSplit (.quote q) (c :: token) true cs
  | .escape back, token, quoted, c :: cs =>
      -- inside quotes only the quote and the backslash itself can be escaped
      match back with
      | .quote q =>
          if c ≠ '\\' && c ≠ q then shellSplit back (c :: '\\' :: token) quoted cs
          else shellSplit back (c :: token) quoted cs
      | _ => shellSplit back (c :: token) quoted cs

/-- The characters `shlex.quote` leaves alone. -/
def isShellSafe (c : Char) : Bool :=
  c.isAlphanum || c == '_' || c == '@' || c == '%' || c == '+' || c == '=' || c == ':' ||
    c == ',' || c == '.' || c == '/' || c == '-'

/-- `shlex.quote`. -/
def shellQuote (cs : List Char) : List Char :=
  if cs.isEmpty then ['\'', '\'']
  else if cs.all isShellSafe then cs
  else '\'' :: ((cs.flatMap fun c => if c = '\'' then ['\'', '"', '\'', '"', '\''] else [c]) ++
    ['\''])

/-! ### Bytes -/

/-- `str.encode("utf-8")`. -/
def encode (s : String) : List UInt8 :=
  s.toList.flatMap String.utf8EncodeChar

/-! ### Facts -/

/-- Nothing is stripped from a text with other characters at both ends. -/
theorem stripChars_of_ends {p : Char → Bool} {c d : Char} {cs : List Char} (hc : p c = false)
    (hd : p d = false) (hlast : (c :: cs).getLast? = some d) :
    stripChars p (c :: cs) = c :: cs := by
  obtain ⟨front, hfront⟩ := List.getLast?_eq_some_iff.mp hlast
  unfold stripChars
  rw [List.dropWhile_cons_of_neg (by simp [hc]), hfront, List.reverse_append,
    List.reverse_singleton, List.singleton_append, List.dropWhile_cons_of_neg (by simp [hd]),
    List.reverse_cons, List.reverse_reverse]

theorem contains_iff {pat cs : List Char} : contains pat cs = true ↔ pat <:+: cs := by
  induction cs with
  | nil =>
      cases pat with
      | nil => simp [contains]
      | cons c pat => simp [contains]
  | cons c cs ih =>
      simp only [contains, Bool.or_eq_true, List.isPrefixOf_iff_prefix, ih, List.infix_cons_iff]

theorem encode_injective : Function.Injective encode := by
  intro s t h
  rw [← String.toByteArray_inj, ← String.utf8Encode_toList, ← String.utf8Encode_toList,
    List.utf8Encode, List.utf8Encode]
  exact congrArg List.toByteArray h

/-- Only NUL has a zero byte in its encoding. -/
theorem eq_nul_of_zero_mem {c : Char} (h : 0 ∈ String.utf8EncodeChar c) : c = '\x00' := by
  have hbyte : ∀ n : Nat, 0 < n → n < 256 → (0 : UInt8) ≠ UInt8.ofNat n := by
    intro n hpos hlt hzero
    have hn := congrArg UInt8.toNat hzero
    rw [UInt8.toNat_ofNat_of_lt' hlt] at hn
    simp at hn
    omega
  have hval : c.val.toNat = 0 := by
    by_contra hne
    simp only [String.utf8EncodeChar] at h
    split_ifs at h with h₁ h₂ h₃
    · rw [List.mem_singleton] at h
      exact hbyte _ (by omega) (by omega) h
    · simp only [List.mem_cons, List.not_mem_nil, or_false] at h
      rcases h with h | h <;> exact hbyte _ (by omega) (by omega) h
    · simp only [List.mem_cons, List.not_mem_nil, or_false] at h
      rcases h with h | h | h <;> exact hbyte _ (by omega) (by omega) h
    · simp only [List.mem_cons, List.not_mem_nil, or_false] at h
      rcases h with h | h | h | h <;> exact hbyte _ (by omega) (by omega) h
  apply Char.ext
  apply UInt32.toNat_inj.mp
  exact hval

theorem zero_not_mem_encode {s : String} (h : '\x00' ∉ s.toList) : 0 ∉ encode s := by
  intro hzero
  obtain ⟨c, hc, hbyte⟩ := List.mem_flatMap.mp hzero
  exact h (eq_nul_of_zero_mem hbyte ▸ hc)

/-! ### Splitting and joining -/

/-- What is joined comes from the words and the separator. -/
theorem mem_intercalate {c sep : Char} {words : List (List Char)}
    (h : c ∈ [sep].intercalate words) : c = sep ∨ ∃ word ∈ words, c ∈ word := by
  induction words with
  | nil => simp at h
  | cons word words ih =>
      cases words with
      | nil => exact .inr ⟨word, by simp, by simpa using h⟩
      | cons next words =>
          rw [List.intercalate_cons_cons, List.mem_append, List.mem_append, List.mem_singleton] at h
          rcases h with (h | h) | h
          · exact .inr ⟨word, by simp, h⟩
          · exact .inl h
          · rcases ih h with h | ⟨word', hword', h⟩
            · exact .inl h
            · exact .inr ⟨word', List.mem_cons_of_mem _ hword', h⟩

/-- What is split off was there. -/
theorem mem_of_mem_splitOn {c sep : Char} {cs part : List Char} (hpart : part ∈ cs.splitOn sep)
    (hc : c ∈ part) : c ∈ cs := by
  induction cs generalizing part with
  | nil =>
      obtain rfl : part = [] := by simpa using hpart
      exact hc
  | cons d cs ih =>
      simp only [List.splitOn, List.splitOnP_cons_eq_if_modifyHead] at hpart ih
      split at hpart
      · rcases List.mem_cons.mp hpart with rfl | hpart
        · simp at hc
        · exact List.mem_cons_of_mem _ (ih hpart hc)
      · cases hsplit : cs.splitOnP (fun x => x == sep) with
        | nil => simp [hsplit] at hpart
        | cons first rest =>
            rw [hsplit, List.modifyHead_cons] at hpart
            rcases List.mem_cons.mp hpart with rfl | hpart
            · rcases List.mem_cons.mp hc with rfl | hc
              · simp
              · exact List.mem_cons_of_mem _ (ih (by simp [hsplit]) hc)
            · exact List.mem_cons_of_mem _ (ih (by simp [hsplit, hpart]) hc)

end PyText
