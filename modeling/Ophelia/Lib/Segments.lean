import Mathlib.Data.List.Basic

/-!
# Ophelia.Lib.Segments

The segments of a list between separators. Replacing each element by a list commutes with splitting
as long as the separator stays what it is (`splitOn_flatMap`); two separators stand next to each
other if and only if a segment between the first and the last one is empty
(`double_infix_iff_empty`).
-/

namespace Segments

variable {α β : Type} [DecidableEq α] [DecidableEq β]

theorem splitOn_cons_self (sep : α) (l : List α) : (sep :: l).splitOn sep = [] :: l.splitOn sep := by
  rw [List.splitOn_cons_eq_if_modifyHead, if_pos (beq_self_eq_true sep)]

theorem splitOn_cons_ne {sep a : α} (h : a ≠ sep) (l : List α) :
    (a :: l).splitOn sep = (l.splitOn sep).modifyHead (a :: ·) := by
  rw [List.splitOn_cons_eq_if_modifyHead, if_neg (by simpa using h)]

theorem splitOn_append {sep : α} {l : List α} (h : sep ∉ l) (l' : List α) :
    (l ++ l').splitOn sep = (l'.splitOn sep).modifyHead (l ++ ·) := by
  induction l with
  | nil =>
      cases hsplit : l'.splitOn sep with
      | nil => exact hsplit
      | cons part parts => exact hsplit
  | cons a l ih =>
      rw [List.mem_cons, not_or] at h
      rw [List.cons_append, splitOn_cons_ne (fun he => h.1 he.symm), ih h.2, List.modifyHead_modifyHead]
      rfl

/-- Splitting commutes with replacing elements where only the separator writes a separator. -/
theorem splitOn_flatMap (sep : α) (sep' : β) (f : α → List β) (hsep : f sep = [sep'])
    {l : List α} (h : ∀ a ∈ l, a ≠ sep → sep' ∉ f a) :
    (l.flatMap f).splitOn sep' = (l.splitOn sep).map (·.flatMap f) := by
  induction l with
  | nil => rfl
  | cons a l ih =>
      have hrest := ih fun b hb => h b (List.mem_cons_of_mem a hb)
      by_cases ha : a = sep
      · rw [ha, List.flatMap_cons, hsep, List.singleton_append, splitOn_cons_self,
          splitOn_cons_self, hrest]
        rfl
      · rw [List.flatMap_cons, splitOn_append (h a List.mem_cons_self ha), hrest,
          splitOn_cons_ne ha]
        cases l.splitOn sep with
        | nil => rfl
        | cons part parts => rfl

/-- What is split off was there. -/
theorem mem_of_mem_splitOn {sep : α} {l part : List α} (hpart : part ∈ l.splitOn sep) {a : α}
    (ha : a ∈ part) : a ∈ l := by
  induction l generalizing part with
  | nil =>
      rw [List.splitOn_nil, List.mem_singleton] at hpart
      rwa [hpart] at ha
  | cons b l ih =>
      by_cases hb : b = sep
      · rw [hb, splitOn_cons_self] at hpart
        rcases List.mem_cons.mp hpart with rfl | hpart
        · cases ha
        · exact List.mem_cons_of_mem b (ih hpart ha)
      · rw [splitOn_cons_ne hb] at hpart
        cases hsplit : l.splitOn sep with
        | nil => exact absurd hsplit (List.splitOn_ne_nil sep l)
        | cons first rest =>
            rw [hsplit] at hpart ih
            rcases List.mem_cons.mp hpart with rfl | hpart
            · rcases List.mem_cons.mp ha with rfl | ha
              · exact List.mem_cons_self
              · exact List.mem_cons_of_mem b (ih List.mem_cons_self ha)
            · exact List.mem_cons_of_mem b (ih (List.mem_cons_of_mem first hpart) ha)

/-- The segments between the first and the last separator. -/
def inner (sep : α) (l : List α) : List (List α) := (l.splitOn sep).tail.dropLast

theorem splitOn_eq_empty_cons {sep : α} {l : List α} {part : List α} {parts : List (List α)}
    (h : l.splitOn sep = [] :: part :: parts) : ∃ l', l = sep :: l' := by
  cases l with
  | nil => cases h
  | cons a l =>
      by_cases ha : a = sep
      · exact ⟨l, by rw [ha]⟩
      · rw [splitOn_cons_ne ha] at h
        cases hsplit : l.splitOn sep with
        | nil =>
            rw [hsplit] at h
            cases h
        | cons part' parts' =>
            rw [hsplit] at h
            cases h

/-- Two separators stand next to each other where an inner segment is empty. -/
theorem double_infix_iff_empty (sep : α) (l : List α) :
    [sep, sep] <:+: l ↔ [] ∈ inner sep l := by
  induction l with
  | nil => simp [inner]
  | cons a l ih =>
      rw [List.infix_cons_iff, ih]
      by_cases ha : a = sep
      · subst ha
        rw [inner, inner, splitOn_cons_self, List.tail_cons]
        cases hsplit : l.splitOn a with
        | nil => exact absurd hsplit (List.splitOn_ne_nil a l)
        | cons part parts =>
            cases parts with
            | nil =>
                have hfirst : ¬ [a, a] <+: a :: l := by
                  intro hprefix
                  obtain ⟨rest, hrest⟩ := hprefix
                  cases hrest
                  change (a :: rest).splitOn a = _ at hsplit
                  rw [splitOn_cons_self] at hsplit
                  have hnil := (List.cons.inj hsplit).2
                  exact List.splitOn_ne_nil a rest hnil
                simp [hfirst]
            | cons part' parts' =>
                rw [List.tail_cons, List.dropLast_cons_cons, List.mem_cons]
                refine or_congr_left ?_
                constructor
                · rintro ⟨rest, hrest⟩
                  cases hrest
                  change (a :: rest).splitOn a = _ at hsplit
                  rw [splitOn_cons_self] at hsplit
                  exact (List.cons.inj hsplit).1
                · rintro rfl
                  obtain ⟨rest, rfl⟩ := splitOn_eq_empty_cons hsplit
                  exact ⟨rest, rfl⟩
      · have hfirst : ¬ [sep, sep] <+: a :: l := by
          rintro ⟨rest, hrest⟩
          exact ha (List.cons.inj hrest).1.symm
        have htail : inner sep (a :: l) = inner sep l := by
          rw [inner, inner, splitOn_cons_ne ha]
          cases l.splitOn sep with
          | nil => rfl
          | cons part parts => rfl
        rw [htail]
        simp [hfirst]

omit [DecidableEq α] in
theorem intercalate_concat_nil (sep : List α) {part : List α} (parts : List (List α)) :
    sep.intercalate (part :: parts ++ [[]]) = sep.intercalate (part :: parts) ++ sep := by
  induction parts generalizing part with
  | nil => simp [List.intercalate_cons_cons]
  | cons part' parts ih =>
      rw [List.cons_append, List.cons_append, List.intercalate_cons_cons, ← List.cons_append, ih,
        List.intercalate_cons_cons, List.append_assoc, List.append_assoc, List.append_assoc]

/-- An empty segment that is not an inner one is the last one, behind a last separator. -/
theorem empty_mem_tail {sep : α} {l : List α} (h : [] ∈ (l.splitOn sep).tail) :
    [] ∈ inner sep l ∨ l.getLast? = some sep := by
  rw [inner]
  have hwhole : [sep].intercalate (l.splitOn sep) = l := List.intercalate_splitOn sep
  cases hsplit : l.splitOn sep with
  | nil => exact absurd hsplit (List.splitOn_ne_nil sep l)
  | cons first parts =>
      rw [hsplit, List.tail_cons] at h
      rw [List.tail_cons]
      rw [hsplit] at hwhole
      obtain ⟨init, last, rfl⟩ :=
        (List.eq_nil_or_concat' parts).resolve_left (List.ne_nil_of_mem h)
      rw [List.dropLast_concat]
      rcases List.mem_append.mp h with h | h
      · exact .inl h
      · rw [← List.mem_singleton.mp h, ← List.cons_append, intercalate_concat_nil] at hwhole
        refine .inr ?_
        rw [← hwhole, List.getLast?_append]
        rfl

/-- Replacing elements by nonempty lists keeps the empty segments. -/
theorem inner_flatMap (sep : α) (sep' : β) (f : α → List β) (hsep : f sep = [sep'])
    {l : List α} (h : ∀ a ∈ l, a ≠ sep → sep' ∉ f a) :
    inner sep' (l.flatMap f) = (inner sep l).map (·.flatMap f) := by
  rw [inner, inner, splitOn_flatMap sep sep' f hsep h, List.map_dropLast, List.map_tail]

omit [DecidableEq α] [DecidableEq β] in
theorem flatMap_eq_nil {f : α → List β} (hne : ∀ a, f a ≠ []) {l : List α} :
    l.flatMap f = [] ↔ l = [] := by
  cases l with
  | nil => simp
  | cons a l => simp [hne a]

theorem double_infix_flatMap (sep : α) (sep' : β) (f : α → List β) (hsep : f sep = [sep'])
    (hne : ∀ a, f a ≠ []) {l : List α} (h : ∀ a ∈ l, a ≠ sep → sep' ∉ f a) :
    [sep', sep'] <:+: l.flatMap f ↔ [sep, sep] <:+: l := by
  rw [double_infix_iff_empty, double_infix_iff_empty, inner_flatMap sep sep' f hsep h, List.mem_map]
  constructor
  · rintro ⟨part, hpart, hempty⟩
    rwa [(flatMap_eq_nil hne).mp hempty] at hpart
  · intro hpart
    exact ⟨[], hpart, rfl⟩

end Segments
