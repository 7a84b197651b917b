import Ophelia.Lib.Json
import Mathlib.Algebra.GroupWithZero.Nat

/-!
# Ophelia.Lib.JsonSize

How long a canonical text can get. `Json.weight` bounds the printed length of a value
without printing it: every character of a string counts as the longest escape, a surrogate
pair of twelve characters. The weight does not depend on the order of the keys.
-/

namespace Json

/-- The room a string takes. Short strings count as ten characters, so that a string may be
replaced by another one of at most ten characters. -/
def textWeight (s : String) : Nat :=
  12 * max 10 s.toList.length + 2

mutual

/-- A bound on the printed length of a value. -/
def weight : Json → Nat
  | .null => 4
  | .bool _ => 5
  | .int n => (intText n).length
  | .float r => r.text.length
  | .str s => textWeight s
  | .arr xs => 2 + itemsWeight xs
  | .obj ms => 2 + membersWeight ms

def itemsWeight : List Json → Nat
  | [] => 0
  | x :: xs => weight x + 1 + itemsWeight xs

def membersWeight : List (String × Json) → Nat
  | [] => 0
  | (k, v) :: ms => textWeight k + weight v + 2 + membersWeight ms

end

theorem itemsWeight_eq (xs : List Json) : itemsWeight xs = (xs.map (weight · + 1)).sum := by
  induction xs with
  | nil => rfl
  | cons x xs ih => simp only [itemsWeight, List.map_cons, List.sum_cons, ih]

theorem membersWeight_eq (ms : List (String × Json)) :
    membersWeight ms = (ms.map fun m => textWeight m.1 + weight m.2 + 2).sum := by
  induction ms with
  | nil => rfl
  | cons m ms ih => simp only [membersWeight, List.map_cons, List.sum_cons, ih]

/-! ### The order of the keys -/

theorem membersWeight_perm {ms ms' : List (String × Json)} (h : ms.Perm ms') :
    membersWeight ms = membersWeight ms' := by
  rw [membersWeight_eq, membersWeight_eq]
  exact (h.map _).sum_nat

/-- Sorting the keys does not change the weight. -/
@[simp] theorem weight_sortKeys (j : Json) : j.sortKeys.weight = j.weight := by
  induction j using Json.induction with
  | null => rfl
  | bool b => rfl
  | int n => rfl
  | float r => rfl
  | str s => rfl
  | arr xs ih =>
      simp only [sortKeys, weight, itemsWeight_eq, sortKeysItems_eq, List.map_map]
      congr 2
      exact List.map_congr_left fun x hx => by simp only [Function.comp, ih x hx]
  | obj ms ih =>
      have hsorted : membersWeight (sortMembers (sortKeysMembers ms)) =
          membersWeight (sortKeysMembers ms) :=
        membersWeight_perm (List.perm_insertionSort _ _)
      simp only [sortKeys, weight]
      rw [hsorted, membersWeight_eq, membersWeight_eq, sortKeysMembers_eq, List.map_map]
      congr 2
      exact List.map_congr_left fun m hm => by simp only [Function.comp, ih m hm]

/-! ### The printed length -/

theorem length_escapeChar_le (c : Char) : (escapeChar c).length ≤ 12 := by
  unfold escapeChar
  -- the longest branch is the surrogate pair
  repeat' split
  all_goals simp [escapeUnit]

theorem length_stringText_le (s : String) : (stringText s).length ≤ textWeight s := by
  have hescape : ∀ cs : List Char, (cs.flatMap escapeChar).length ≤ 12 * cs.length := by
    intro cs
    induction cs with
    | nil => simp
    | cons c cs ih =>
        have hc := length_escapeChar_le c
        simp only [List.flatMap_cons, List.length_append, List.length_cons]
        omega
  have h := hescape s.toList
  have hmax : s.toList.length ≤ max 10 s.toList.length := Nat.le_max_right _ _
  simp only [stringText, List.length_cons, List.length_append, List.length_nil, textWeight]
  omega

theorem length_itemsText_le {xs : List Json} (ih : ∀ x ∈ xs, x.text.length ≤ x.weight) :
    (itemsText xs).length ≤ itemsWeight xs + 1 := by
  induction xs with
  | nil => simp [itemsText, itemsWeight]
  | cons x xs ihxs =>
      have hx := ih x (by simp)
      have hxs := ihxs fun y hy => ih y (by simp [hy])
      simp only [itemsText, itemsWeight, List.length_cons, List.length_append]
      omega

theorem length_membersText_le {ms : List (String × Json)}
    (ih : ∀ m ∈ ms, m.2.text.length ≤ m.2.weight) :
    (membersText ms).length ≤ membersWeight ms + 1 := by
  induction ms with
  | nil => simp [membersText, membersWeight]
  | cons m ms ihms =>
      have hk := length_stringText_le m.1
      have hv := ih m (by simp)
      have hms := ihms fun y hy => ih y (by simp [hy])
      simp only [membersText, membersWeight, List.length_cons, List.length_append]
      omega

theorem length_text_le (j : Json) : j.text.length ≤ j.weight := by
  induction j using Json.induction with
  | null => simp [text, weight]
  | bool b => cases b <;> simp [text, weight]
  | int n => simp [text, weight]
  | float r => simp [text, weight]
  | str s => simpa only [text, weight] using length_stringText_le s
  | arr xs ih =>
      cases xs with
      | nil => simp [text, weight]
      | cons x xs =>
          have hx := ih x (by simp)
          have hxs : (itemsText xs).length ≤ itemsWeight xs + 1 :=
            length_itemsText_le fun y hy => ih y (by simp [hy])
          simp only [text, weight, itemsWeight, List.length_cons, List.length_append]
          omega
  | obj ms ih =>
      cases ms with
      | nil => simp [text, weight]
      | cons m ms =>
          have hk := length_stringText_le m.1
          have hv := ih m (by simp)
          have hms : (membersText ms).length ≤ membersWeight ms + 1 :=
            length_membersText_le fun y hy => ih y (by simp [hy])
          simp only [text, weight, membersWeight, List.length_cons, List.length_append]
          omega

/-- **The canonical text of a value is at most as long as its weight.** -/
theorem length_dumps_le (j : Json) : j.dumps.toList.length ≤ j.weight := by
  have h := length_text_le j.sortKeys
  rw [weight_sortKeys] at h
  rwa [dumps, String.toList_ofList]

/-! ### Long arrays -/

theorem length_lt_itemsText (xs : List Json) : xs.length < (itemsText xs).length := by
  induction xs with
  | nil => simp [itemsText]
  | cons x xs ih =>
      simp only [itemsText, List.length_cons, List.length_append]
      omega

/-- An array takes a character for each of its items, and one more. -/
theorem length_lt_text (xs : List Json) : xs.length < (Json.arr xs).text.length := by
  cases xs with
  | nil => simp [text]
  | cons x xs =>
      have h := length_lt_itemsText xs
      simp only [text, List.length_cons, List.length_append]
      omega

end Json
