import Mathlib
import Ophelia.Domain.Contracts

/-!
# Ophelia.Domain.Slugs

What the characters of a slug are: lower-case letters, digits and hyphens, with a letter in
front and no hyphen at the end. The names of containers, volumes and files are put together
from slugs, and these facts say that the sanitizers leave such names alone.
-/

namespace Ophelia

/-! ### Letters and digits -/

theorem toNat_of_isLowerAlnum {c : Char} (h : isLowerAlnum c = true) :
    97 ≤ c.toNat ∧ c.toNat ≤ 122 ∨ 48 ≤ c.toNat ∧ c.toNat ≤ 57 := by
  simpa [isLowerAlnum, Char.isLower, Char.isDigit, UInt32.le_iff_toNat_le] using h

theorem toLower_of_isLowerAlnum {c : Char} (h : isLowerAlnum c = true) : c.toLower = c := by
  have hrange := toNat_of_isLowerAlnum h
  have hnot : ¬ (65 ≤ c.toNat ∧ c.toNat ≤ 90) := by omega
  unfold Char.toLower
  rw [dif_neg]
  simpa [UInt32.le_iff_toNat_le] using hnot

theorem isAlphanum_of_isLowerAlnum {c : Char} (h : isLowerAlnum c = true) :
    c.isAlphanum = true := by
  simp only [isLowerAlnum, Bool.or_eq_true] at h
  simp only [Char.isAlphanum, Char.isAlpha, Bool.or_eq_true]
  exact h.imp .inr id

theorem isLowerAlnum_ne_hyphen {c : Char} (h : isLowerAlnum c = true) : c ≠ '-' := by
  intro heq
  rw [heq] at h
  exact absurd h (by decide)

/-! ### Slugs -/

theorem mem_of_isSlugTail {cs : List Char} (h : isSlugTail cs = true) :
    ∀ c ∈ cs, isLowerAlnum c = true ∨ c = '-' := by
  fun_induction isSlugTail cs with
  | case1 => simp
  | case2 c cs ih =>
      rw [Bool.and_eq_true] at h
      intro d hd
      rcases List.mem_cons.mp hd with rfl | hd
      · exact .inr rfl
      rcases List.mem_cons.mp hd with rfl | hd
      · exact .inl h.1
      · exact ih h.2 d hd
  | case3 c cs _ ih =>
      rw [Bool.and_eq_true] at h
      intro d hd
      rcases List.mem_cons.mp hd with rfl | hd
      · exact .inl h.1
      · exact ih h.2 d hd

theorem mem_of_isSlug (s : Slug) : ∀ c ∈ s.val.toList, isLowerAlnum c = true ∨ c = '-' := by
  have h : isSlugPattern s.val.toList = true := (Bool.and_eq_true _ _ |>.mp s.ok).2
  cases hcs : s.val.toList with
  | nil => simp
  | cons d cs =>
      rw [hcs, isSlugPattern, Bool.and_eq_true] at h
      intro c hc
      rcases List.mem_cons.mp hc with rfl | hc
      · exact Or.inl (by simp [isLowerAlnum, h.1])
      · exact mem_of_isSlugTail h.2 c hc

/-- A slug starts with a letter. -/
theorem head_of_isSlug (s : Slug) : ∃ c cs, s.val.toList = c :: cs ∧ isLowerAlnum c = true := by
  have h : isSlugPattern s.val.toList = true := (Bool.and_eq_true _ _ |>.mp s.ok).2
  cases hcs : s.val.toList with
  | nil => simp [hcs, isSlugPattern] at h
  | cons c cs =>
      rw [hcs, isSlugPattern, Bool.and_eq_true] at h
      exact ⟨c, cs, rfl, by simp [isLowerAlnum, h.1]⟩

/-- A slug ends in a letter or a digit. -/
theorem last_of_isSlugTail {cs : List Char} (h : isSlugTail cs = true) {c : Char}
    (hc : cs.getLast? = some c) : isLowerAlnum c = true := by
  fun_induction isSlugTail cs with
  | case1 => simp at hc
  | case2 d ds ih =>
      rw [Bool.and_eq_true] at h
      cases ds with
      | nil =>
          obtain rfl : d = c := by simpa using hc
          exact h.1
      | cons e es => exact ih h.2 (by simpa using hc)
  | case3 d ds _ ih =>
      rw [Bool.and_eq_true] at h
      cases ds with
      | nil =>
          obtain rfl : d = c := by simpa using hc
          exact h.1
      | cons e es => exact ih h.2 (by simpa using hc)

theorem last_of_isSlug (m : Slug) :
    ∃ c, m.val.toList.getLast? = some c ∧ isLowerAlnum c = true := by
  have h : isSlugPattern m.val.toList = true := (Bool.and_eq_true _ _ |>.mp m.ok).2
  cases hcs : m.val.toList with
  | nil => simp [hcs, isSlugPattern] at h
  | cons c cs =>
      rw [hcs, isSlugPattern, Bool.and_eq_true] at h
      cases hlast : cs.getLast? with
      | none =>
          rw [List.getLast?_eq_none_iff.mp hlast]
          exact ⟨c, rfl, by simp [isLowerAlnum, h.1]⟩
      | some d =>
          refine ⟨d, ?_, last_of_isSlugTail h.2 hlast⟩
          rw [List.getLast?_cons, hlast]
          rfl

/-! ### Names joined by hyphens -/

/-- A text of slug characters with a letter or digit at both ends. -/
structure PlainName (value : String) : Prop where
  head : ∃ c cs, value.toList = c :: cs ∧ isLowerAlnum c = true
  last : ∃ c, value.toList.getLast? = some c ∧ isLowerAlnum c = true
  chars : ∀ c ∈ value.toList, isLowerAlnum c = true ∨ c = '-'

theorem PlainName.of_slug (s : Slug) : PlainName s.val :=
  ⟨head_of_isSlug s, last_of_isSlug s, mem_of_isSlug s⟩

/-- Plain names joined by a hyphen are a plain name. -/
theorem PlainName.join {a b : String} (ha : PlainName a) (hb : PlainName b) :
    PlainName (a ++ "-" ++ b) where
  head := by
    obtain ⟨c, cs, hcs, hc⟩ := ha.head
    exact ⟨c, cs ++ "-".toList ++ b.toList, by simp [String.toList_append, hcs], hc⟩
  last := by
    obtain ⟨c, hlast, hc⟩ := hb.last
    refine ⟨c, ?_, hc⟩
    rw [String.toList_append, List.getLast?_append, hlast]
    rfl
  chars := by
    intro c hc
    simp only [String.toList_append, List.mem_append] at hc
    rcases hc with (hc | hc) | hc
    · exact ha.chars c hc
    · exact Or.inr (by simpa using hc)
    · exact hb.chars c hc

/-- Two joined names are the same only where they are split alike, or where one first part goes
on with a hyphen inside the other. -/
theorem hyphen_prefix {a b rest rest' : List Char} (h : a ++ '-' :: rest = b ++ '-' :: rest') :
    a = b ∨ a ++ ['-'] <+: b ∨ b ++ ['-'] <+: a := by
  rcases List.append_eq_append_iff.mp h with ⟨middle, hb, hrest⟩ | ⟨middle, ha, hrest⟩
  · cases middle with
    | nil => exact Or.inl (by simpa using hb.symm)
    | cons c middle =>
        obtain rfl : c = '-' := by
          have := congrArg List.head? hrest
          simpa using this.symm
        exact Or.inr (Or.inl ⟨middle, by simp [hb]⟩)
  · cases middle with
    | nil => exact Or.inl (by simpa using ha)
    | cons c middle =>
        obtain rfl : c = '-' := by
          have := congrArg List.head? hrest
          simpa using this.symm
        exact Or.inr (Or.inr ⟨middle, by simp [ha]⟩)

end Ophelia
