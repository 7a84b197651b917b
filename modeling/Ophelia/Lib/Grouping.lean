import Mathlib.Data.List.Dedup
import Mathlib.Data.List.Sort

/-!
# Ophelia.Lib.Grouping

Entries collected under keys, and listed with the keys in order. Whoever looks for a key with
more than one entry finds every one (`exists_grouped`, `one_lt_length`).
-/

variable {κ α : Type} [DecidableEq κ]

/-- The entries of each key in the order they came, the keys sorted by `le`. -/
def grouped (le : κ → κ → Prop) [DecidableRel le] (entries : List (κ × α)) : List (κ × List α) :=
  ((entries.map Prod.fst).dedup.insertionSort le).map fun key =>
    (key, (entries.filter fun entry => entry.1 = key).map Prod.snd)

/-- The entries of a key are together in one group. -/
theorem exists_grouped (le : κ → κ → Prop) [DecidableRel le] {entries : List (κ × α)} {key : κ}
    {a : α} (h : (key, a) ∈ entries) :
    ∃ group, (key, group) ∈ grouped le entries ∧ ∀ b, (key, b) ∈ entries → b ∈ group := by
  refine ⟨_, List.mem_map.mpr ⟨key, ?_, rfl⟩, fun b hb => ?_⟩
  · rw [List.mem_insertionSort, List.mem_dedup]
    exact List.mem_map_of_mem (f := Prod.fst) h
  · exact List.mem_map.mpr ⟨(key, b), List.mem_filter.mpr ⟨hb, by simp⟩, rfl⟩

omit [DecidableEq κ] in
theorem one_lt_length {l : List κ} {a b : κ} (ha : a ∈ l) (hb : b ∈ l) (hne : a ≠ b) :
    1 < l.length := by
  match l with
  | [] => simp at ha
  | [c] =>
      rw [List.mem_singleton] at ha hb
      exact absurd (ha.trans hb.symm) hne
  | _ :: _ :: _ => simp
