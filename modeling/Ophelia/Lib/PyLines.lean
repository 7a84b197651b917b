import Ophelia.Lib.PyText
import Ophelia.Lib.Json

/-!
# Ophelia.Lib.PyLines

Lines of text the way Python cuts them, and text read from bytes. `splitlines` breaks at
more characters than `'\n'`; a text put together from lines that hold none of them is cut
into the same lines again.
-/

namespace PyText

/-! ### Lines -/

/-- The characters `str.splitlines` breaks at. -/
def isLineBreak (c : Char) : Bool :=
  let n := c.toNat
  (0x0a ≤ n && n ≤ 0x0d) || (0x1c ≤ n && n ≤ 0x1e) || n == 0x85 || n == 0x2028 || n == 0x2029

theorem isSpace_of_isLineBreak {c : Char} (h : isLineBreak c = true) : isSpace c = true := by
  simp only [isLineBreak, isSpace, Bool.or_eq_true, Bool.and_eq_true, decide_eq_true_eq,
    beq_iff_eq] at h ⊢
  omega

/-- The lines of a text; `line` is the one being read, in reverse. -/
def linesFrom (line : List Char) : List Char → List (List Char)
  | [] => if line.isEmpty then [] else [line.reverse]
  | '\r' :: '\n' :: cs => line.reverse :: linesFrom [] cs
  | c :: cs => if isLineBreak c then line.reverse :: linesFrom [] cs else linesFrom (c :: line) cs

/-- `s.splitlines()`. -/
def splitlines (cs : List Char) : List (List Char) :=
  linesFrom [] cs

/-- Lines, each with its line feed. -/
def joinLines (lines : List (List Char)) : List Char :=
  lines.flatMap (· ++ ['\n'])

/-- A line that `splitlines` does not cut. -/
def IsLine (cs : List Char) : Prop :=
  ∀ c ∈ cs, isLineBreak c = false

instance (cs : List Char) : Decidable (IsLine cs) :=
  List.decidableBAll (fun c => isLineBreak c = false) cs

theorem linesFrom_append {cs : List Char} (h : IsLine cs) (line rest : List Char) :
    linesFrom line (cs ++ '\n' :: rest) = (line.reverse ++ cs) :: linesFrom [] rest := by
  induction cs generalizing line with
  | nil =>
      rw [List.nil_append, linesFrom.eq_def]
      simp [isLineBreak]
  | cons c cs ih =>
      have hc : isLineBreak c = false := h c List.mem_cons_self
      have hcr : c ≠ '\r' := by
        rintro rfl
        exact absurd hc (by decide)
      have hcs : IsLine cs := fun x hx => h x (List.mem_cons_of_mem _ hx)
      have hstep : linesFrom line (c :: (cs ++ '\n' :: rest)) =
          linesFrom (c :: line) (cs ++ '\n' :: rest) := by
        rw [linesFrom.eq_def]
        split
        · rename_i heq
          exact absurd heq (by simp)
        · rename_i heq
          exact absurd (List.cons.inj heq).1 hcr
        · rename_i x xs _ heq
          obtain ⟨rfl, rfl⟩ := List.cons.inj heq
          rw [hc]
          rfl
      rw [List.cons_append, hstep, ih hcs]
      simp

/-- Lines come back as they were written. -/
theorem splitlines_joinLines {lines : List (List Char)} (h : ∀ l ∈ lines, IsLine l) :
    splitlines (joinLines lines) = lines := by
  induction lines with
  | nil => rfl
  | cons l lines ih =>
      have hl : IsLine l := h l List.mem_cons_self
      have hrest := ih fun x hx => h x (List.mem_cons_of_mem _ hx)
      rw [splitlines] at hrest ⊢
      rw [joinLines, List.flatMap_cons, List.append_assoc, List.singleton_append,
        linesFrom_append hl, List.reverse_nil, List.nil_append]
      exact congrArg _ hrest

theorem isLine_of_mem_linesFrom {cs line l : List Char} (hline : IsLine line)
    (h : l ∈ linesFrom line cs) : IsLine l := by
  have hrev : IsLine line.reverse := fun c hc => hline c (List.mem_reverse.mp hc)
  have hnil : IsLine [] := fun c hc => absurd hc List.not_mem_nil
  fun_induction linesFrom line cs with
  | case1 line hempty => exact absurd h List.not_mem_nil
  | case2 line hempty =>
      rw [List.mem_singleton] at h
      exact h ▸ hrev
  | case3 line cs ih =>
      rcases List.mem_cons.mp h with rfl | h
      · exact hrev
      · exact ih hnil h hnil
  | case4 line c cs _ hbreak ih =>
      rcases List.mem_cons.mp h with rfl | h
      · exact hrev
      · exact ih hnil h hnil
  | case5 line c cs _ hbreak ih =>
      have hcons : IsLine (c :: line) := by
        intro x hx
        rcases List.mem_cons.mp hx with rfl | hx
        · exact Bool.eq_false_iff.mpr hbreak
        · exact hline x hx
      exact ih hcons h fun x hx => hcons x (List.mem_reverse.mp hx)

/-- What `splitlines` returns is not cut further. -/
theorem isLine_of_mem_splitlines {cs l : List Char} (h : l ∈ splitlines cs) : IsLine l :=
  isLine_of_mem_linesFrom (fun _ hc => absurd hc List.not_mem_nil) h

/-! ### Text from bytes -/

/-- `bytes.decode("utf-8")`. -/
def decode? (bytes : List UInt8) : Option (List Char) :=
  (String.fromUTF8? bytes.toByteArray).map String.toList

theorem decode?_encode (s : String) : decode? (encode s) = some s.toList := by
  have hbytes : (encode s).toByteArray = s.toByteArray := by
    rw [encode, ← String.utf8Encode_toList, List.utf8Encode]
  rw [decode?, hbytes, String.fromUTF8?, dif_pos s.isValidUTF8]
  rfl

end PyText

/-! ### Quoted strings -/

namespace Json

theorem isLine_hexDigit : ∀ n < 16, PyText.isLineBreak (hexDigit n) = false := by
  decide

theorem isLine_escapeUnit (n : Nat) : PyText.IsLine (escapeUnit n) := by
  intro c hc
  simp only [escapeUnit, List.mem_cons, List.not_mem_nil, or_false] at hc
  rcases hc with rfl | rfl | rfl | rfl | rfl | rfl
  · decide
  · decide
  · exact isLine_hexDigit _ (Nat.mod_lt _ (by decide))
  · exact isLine_hexDigit _ (Nat.mod_lt _ (by decide))
  · exact isLine_hexDigit _ (Nat.mod_lt _ (by decide))
  · exact isLine_hexDigit _ (Nat.mod_lt _ (by decide))

theorem isLine_escapeChar (c : Char) : PyText.IsLine (escapeChar c) := by
  unfold escapeChar
  split_ifs with h₁ h₂ h₃ h₄ h₅ h₆ h₇ h₈ h₉
  · decide
  · decide
  · decide
  · decide
  · decide
  · decide
  · decide
  · -- printable ASCII holds no line break
    intro x hx
    rw [List.mem_singleton] at hx
    subst hx
    simp only [PyText.isLineBreak, Bool.or_eq_false_iff, Bool.and_eq_false_iff,
      decide_eq_false_iff_not, beq_eq_false_iff_ne]
    omega
  · exact isLine_escapeUnit _
  · intro x hx
    rcases List.mem_append.mp hx with hx | hx
    · exact isLine_escapeUnit _ x hx
    · exact isLine_escapeUnit _ x hx

/-- A quoted string stands on one line. -/
theorem isLine_stringText (s : String) : PyText.IsLine (stringText s) := by
  intro c hc
  rw [stringText, List.mem_cons, List.mem_append, List.mem_singleton, List.mem_flatMap] at hc
  rcases hc with rfl | ⟨x, -, hx⟩ | rfl
  · decide
  · exact isLine_escapeChar x c hx
  · decide

end Json
