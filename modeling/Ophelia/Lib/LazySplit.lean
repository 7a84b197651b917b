import Mathlib.Data.List.DropRight
import Mathlib.Data.List.Infix
import Ophelia.Lib.PyText

/-!
# Ophelia.Lib.LazySplit

A pattern `^(.+?)REST`: a group that takes as few characters as possible, at least one and no line
end, before what a rest accepts. The group ends where the rest accepts for the first time
(`lazily_eq_some_iff`, `lazily_eq_none_iff`).
-/

namespace PyText

variable {β : Type*} {rest : List Char → Option β}

/-- The shortest group, and what the rest makes of the text behind it. -/
def lazily (rest : List Char → Option β) : List Char → Option (List Char × β)
  | [] => none
  | c :: cs =>
      if c = '\n' then none
      else
        match rest cs with
        | some b => some ([c], b)
        | none => (lazily rest cs).map fun p => (c :: p.1, p.2)

theorem lazily_eq_none_iff {text : List Char} :
    lazily rest text = none ↔
      ∀ group tail, text = group ++ tail → group ≠ [] → '\n' ∉ group → rest tail = none := by
  induction text with
  | nil =>
      refine iff_of_true rfl fun group tail h hne => absurd ?_ hne
      exact (List.append_eq_nil_iff.mp h.symm).1
  | cons c cs ih =>
      unfold lazily
      by_cases hc : c = '\n'
      · rw [if_pos hc]
        refine iff_of_true rfl fun group tail h hne hline => ?_
        cases group with
        | nil => exact absurd rfl hne
        | cons d group =>
            obtain rfl := (List.cons.inj h).1
            exact absurd (hc ▸ List.mem_cons_self) hline
      · rw [if_neg hc]
        cases hrest : rest cs with
        | some b =>
            refine iff_of_false (Option.some_ne_none _) fun h => ?_
            have hnone := h [c] cs rfl (List.cons_ne_nil _ _) (by simpa using Ne.symm hc)
            rw [hrest] at hnone
            cases hnone
        | none =>
            rw [Option.map_eq_none_iff, ih]
            constructor
            · intro h group tail heq hne hline
              cases group with
              | nil => exact absurd rfl hne
              | cons d group =>
                  obtain ⟨rfl, rfl⟩ := List.cons.inj heq
                  rw [List.mem_cons, not_or] at hline
                  cases group with
                  | nil => exact hrest
                  | cons e group => exact h _ tail rfl (List.cons_ne_nil _ _) hline.2
            · intro h group tail heq hne hline
              refine h (c :: group) tail (heq ▸ rfl) (List.cons_ne_nil _ _) ?_
              rw [List.mem_cons, not_or]
              exact ⟨Ne.symm hc, hline⟩

theorem lazily_eq_some_iff {text group : List Char} {b : β} :
    lazily rest text = some (group, b) ↔
      ∃ tail, text = group ++ tail ∧ group ≠ [] ∧ '\n' ∉ group ∧ rest tail = some b ∧
        ∀ x y, group = x ++ y → x ≠ [] → y ≠ [] → rest (y ++ tail) = none := by
  induction text generalizing group with
  | nil =>
      refine iff_of_false (by simp [lazily]) ?_
      rintro ⟨tail, h, hne, -⟩
      exact hne (List.append_eq_nil_iff.mp h.symm).1
  | cons c cs ih =>
      unfold lazily
      by_cases hc : c = '\n'
      · rw [if_pos hc]
        refine iff_of_false (by simp) ?_
        rintro ⟨tail, h, hne, hline, -⟩
        cases group with
        | nil => exact hne rfl
        | cons d group =>
            obtain rfl := (List.cons.inj h).1
            exact hline (hc ▸ List.mem_cons_self)
      · rw [if_neg hc]
        cases hrest : rest cs with
        | some b' =>
            constructor
            · intro h
              obtain ⟨rfl, rfl⟩ := Prod.mk.inj (Option.some.inj h)
              refine ⟨cs, rfl, List.cons_ne_nil _ _, by simpa using Ne.symm hc, hrest, ?_⟩
              intro x y heq hx hy
              rcases List.singleton_eq_append_iff.mp heq with ⟨rfl, -⟩ | ⟨-, rfl⟩
              · exact absurd rfl hx
              · exact absurd rfl hy
            · rintro ⟨tail, heq, hne, -, htail, hleast⟩
              cases group with
              | nil => exact absurd rfl hne
              | cons d group =>
                  rw [List.cons_append] at heq
                  obtain ⟨rfl, rfl⟩ := List.cons.inj heq
                  cases group with
                  | nil =>
                      obtain rfl := Option.some.inj (hrest.symm.trans htail)
                      rfl
                  | cons e group =>
                      have hnone := hleast [c] (e :: group) rfl (List.cons_ne_nil _ _)
                        (List.cons_ne_nil _ _)
                      rw [hrest] at hnone
                      cases hnone
        | none =>
            constructor
            · intro h
              obtain ⟨⟨group', b'⟩, hsome, heq⟩ := Option.map_eq_some_iff.mp h
              obtain ⟨rfl, rfl⟩ := Prod.mk.inj heq
              obtain ⟨tail, rfl, hne, hline, htail, hleast⟩ := ih.mp hsome
              refine ⟨tail, rfl, List.cons_ne_nil _ _, ?_, htail, ?_⟩
              · rw [List.mem_cons, not_or]
                exact ⟨Ne.symm hc, hline⟩
              · intro x y heq hx hy
                cases x with
                | nil => exact absurd rfl hx
                | cons d x =>
                    obtain ⟨rfl, rfl⟩ := List.cons.inj heq
                    cases x with
                    | nil => exact hrest
                    | cons e x => exact hleast _ y rfl (List.cons_ne_nil _ _) hy
            · rintro ⟨tail, heq, hne, hline, htail, hleast⟩
              cases group with
              | nil => exact absurd rfl hne
              | cons d group =>
                  rw [List.cons_append] at heq
                  obtain ⟨rfl, rfl⟩ := List.cons.inj heq
                  rw [List.mem_cons, not_or] at hline
                  cases group with
                  | nil =>
                      rw [List.nil_append, htail] at hrest
                      cases hrest
                  | cons e group =>
                      have hsome : lazily rest (e :: group ++ tail) = some (e :: group, b) := by
                        refine ih.mpr ⟨tail, rfl, List.cons_ne_nil _ _, hline.2, htail, ?_⟩
                        intro x y heq hx hy
                        exact hleast (c :: x) y (heq ▸ rfl) (List.cons_ne_nil _ _) hy
                      rw [hsome]
                      rfl

/-! ### Blanks at the ends -/

theorem strip_eq_self_iff {cs : List Char} :
    strip cs = cs ↔ cs.dropWhile isSpace = cs ∧ cs.rdropWhile isSpace = cs := by
  constructor
  · intro h
    have hle : cs.length ≤ (cs.dropWhile isSpace).length := by
      conv_lhs => rw [← h]
      exact (List.rdropWhile_prefix isSpace (cs.dropWhile isSpace)).length_le
    have hfront := (List.dropWhile_suffix isSpace).eq_of_length_le hle
    refine ⟨hfront, ?_⟩
    conv_rhs => rw [← h]
    exact congrArg (List.rdropWhile isSpace) hfront.symm
  · rintro ⟨hfront, hback⟩
    exact (congrArg (List.rdropWhile isSpace) hfront).trans hback

/-- A text with a last character, which is no blank. -/
def EndsPlain (cs : List Char) : Prop := ∃ front c, cs = front ++ [c] ∧ isSpace c = false

theorem endsPlain_of_strip {cs : List Char} (h : strip cs = cs) (hne : cs ≠ []) :
    EndsPlain cs := by
  have hback := List.rdropWhile_eq_self_iff.mp (strip_eq_self_iff.mp h).2 hne
  exact ⟨cs.dropLast, cs.getLast hne, (List.dropLast_append_getLast hne).symm,
    Bool.not_eq_true _ ▸ hback⟩

theorem head_of_strip {c : Char} {cs : List Char} (h : strip (c :: cs) = c :: cs) :
    isSpace c = false := by
  have hfront := (strip_eq_self_iff.mp h).1
  by_contra hc
  rw [Bool.not_eq_false] at hc
  rw [List.dropWhile_cons_of_pos hc] at hfront
  have hle := (List.dropWhile_suffix isSpace (l := cs)).length_le
  rw [hfront, List.length_cons] at hle
  omega

theorem EndsPlain.ne_nil {cs : List Char} (h : EndsPlain cs) : cs ≠ [] := by
  obtain ⟨front, c, rfl, -⟩ := h
  simp

theorem EndsPlain.append {cs : List Char} (h : EndsPlain cs) (front : List Char) :
    EndsPlain (front ++ cs) := by
  obtain ⟨before, c, rfl, hc⟩ := h
  exact ⟨front ++ before, c, (List.append_assoc _ _ _).symm, hc⟩

theorem EndsPlain.of_append {front cs : List Char} (h : EndsPlain (front ++ cs)) (hne : cs ≠ []) :
    EndsPlain cs := by
  obtain ⟨before, c, heq, hc⟩ := h
  refine ⟨cs.dropLast, c, ?_, hc⟩
  have hlast : (front ++ cs).getLast? = some c := by
    rw [heq]
    simp
  rw [List.getLast?_append_of_ne_nil _ hne] at hlast
  exact (List.dropLast_append_getLast? c hlast).symm

theorem EndsPlain.dropWhile {cs : List Char} (h : EndsPlain cs) :
    EndsPlain (cs.dropWhile isSpace) := by
  have hsplit := List.takeWhile_append_dropWhile (p := isSpace) (l := cs)
  refine EndsPlain.of_append (hsplit.symm ▸ h) fun hnil => ?_
  obtain ⟨before, c, rfl, hc⟩ := h
  have hall := List.dropWhile_eq_nil_iff.mp hnil c (by simp)
  rw [hc] at hall
  cases hall

/-- Dropping blanks in front does not reach beyond a plain character. -/
theorem EndsPlain.dropWhile_append {cs : List Char} (h : EndsPlain cs) (rest : List Char) :
    (cs ++ rest).dropWhile isSpace = cs.dropWhile isSpace ++ rest := by
  rw [List.dropWhile_append, if_neg]
  rw [List.isEmpty_iff]
  exact h.dropWhile.ne_nil

theorem strip_of_ends {c : Char} {cs : List Char} (hc : isSpace c = false)
    (h : EndsPlain (c :: cs)) : strip (c :: cs) = c :: cs := by
  rw [strip_eq_self_iff]
  refine ⟨List.dropWhile_cons_of_neg (by simp [hc]), List.rdropWhile_eq_self_iff.mpr fun hne => ?_⟩
  obtain ⟨before, d, heq, hd⟩ := h
  have hlast : (c :: cs).getLast hne = d := by simp only [heq, List.getLast_concat]
  rw [hlast, hd]
  exact Bool.false_ne_true

theorem strip_strip (cs : List Char) : strip (strip cs) = strip cs := by
  cases h : strip cs with
  | nil => rfl
  | cons c tail =>
      have hback : (cs.dropWhile isSpace).rdropWhile isSpace = c :: tail := h
      obtain ⟨more, hmore⟩ := List.rdropWhile_prefix isSpace (cs.dropWhile isSpace)
      rw [hback] at hmore
      have hc : isSpace c = false := by
        have hhead := List.head?_dropWhile_not isSpace cs
        rw [← hmore] at hhead
        exact hhead
      have hne : c :: tail ≠ [] := List.cons_ne_nil _ _
      have hlast := List.rdropWhile_last_not isSpace (cs.dropWhile isSpace)
        (by rw [hback]; exact hne)
      refine strip_of_ends hc ⟨(c :: tail).dropLast, (c :: tail).getLast hne,
        (List.dropLast_append_getLast hne).symm, ?_⟩
      simpa [hback] using hlast

/-- A text that begins with a plain character is its stripped form and blanks. -/
theorem eq_strip_append {c : Char} {cs : List Char} (hc : isSpace c = false) :
    ∃ blanks, c :: cs = strip (c :: cs) ++ blanks ∧ ∀ d ∈ blanks, isSpace d = true := by
  have hfront : (c :: cs).dropWhile isSpace = c :: cs :=
    List.dropWhile_cons_of_neg (by simp [hc])
  refine ⟨(c :: cs).rtakeWhile isSpace, ?_, fun d hd => List.mem_rtakeWhile_imp hd⟩
  change _ = List.rdropWhile isSpace ((c :: cs).dropWhile isSpace) ++ _
  rw [hfront]
  unfold List.rdropWhile List.rtakeWhile
  rw [← List.reverse_append, List.takeWhile_append_dropWhile, List.reverse_reverse]

end PyText
