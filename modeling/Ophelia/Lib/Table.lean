import Mathlib.Data.List.Nodup
import Mathlib.Data.List.Basic

/-!
# Ophelia.Lib.Table

Tables with a primary key. A table is a list of rows in order of insertion together with
the proof that no key occurs twice, so a state with a duplicate key cannot be built. The
three writes are `insert?` (refused on a taken key), `put` (insert or replace) and what
is made of them; reads are `get?` by key or the list of rows. The lemmas say what each
write does to each read.
-/

/-- A table of rows `ρ` with primary key `key`. -/
structure Table {κ ρ : Type} (key : ρ → κ) where
  rows : List ρ
  unique : (rows.map key).Nodup

namespace Table

variable {κ ρ : Type} [DecidableEq κ] {key : ρ → κ}

/-- The table without rows. -/
def empty : Table key := ⟨[], List.nodup_nil⟩

/-- The row under a key. -/
def get? (t : Table key) (k : κ) : Option ρ :=
  t.rows.find? fun r => key r = k

theorem put_unique {rows : List ρ} (h : (rows.map key).Nodup) (r : ρ) :
    ((if key r ∈ rows.map key then rows.map fun x => if key x = key r then r else x
      else rows ++ [r]).map key).Nodup := by
  split
  · rw [List.map_map]
    have hkey : (key ∘ fun x => if key x = key r then r else x) = key := by
      funext x
      simp only [Function.comp]
      split <;> simp_all
    rwa [hkey]
  · rename_i hnot
    rw [List.map_append, List.map_singleton, ← List.concat_eq_append]
    exact h.concat hnot

/-- Insert a row, or replace the one under its key. -/
def put (t : Table key) (r : ρ) : Table key where
  rows :=
    if key r ∈ t.rows.map key then t.rows.map fun x => if key x = key r then r else x
    else t.rows ++ [r]
  unique := put_unique t.unique r

/-- Insert a row; `none` when its key is taken. -/
def insert? (t : Table key) (r : ρ) : Option (Table key) :=
  if key r ∈ t.rows.map key then none else some (t.put r)

/-- The rows under other keys. -/
def erase (t : Table key) (k : κ) : Table key where
  rows := t.rows.filter fun r => key r ≠ k
  unique := t.unique.sublist (List.filter_sublist.map key)

/-! ### Reading -/

@[simp] theorem get?_empty (k : κ) : (empty : Table key).get? k = none := rfl

omit [DecidableEq κ] in
@[simp] theorem rows_empty : (empty : Table key).rows = [] := rfl

theorem key_of_get? {t : Table key} {k : κ} {r : ρ} (h : t.get? k = some r) : key r = k := by
  simpa using List.find?_some h

theorem mem_of_get? {t : Table key} {k : κ} {r : ρ} (h : t.get? k = some r) : r ∈ t.rows :=
  List.mem_of_find?_eq_some h

theorem get?_eq_none {t : Table key} {k : κ} : t.get? k = none ↔ ∀ r ∈ t.rows, key r ≠ k := by
  simp [get?, List.find?_eq_none]

theorem get?_of_mem {t : Table key} {r : ρ} (h : r ∈ t.rows) : t.get? (key r) = some r := by
  obtain ⟨rows, unique⟩ := t
  simp only [get?] at *
  induction rows with
  | nil => simp at h
  | cons x rows ih =>
      rw [List.map_cons, List.nodup_cons] at unique
      rcases List.mem_cons.mp h with rfl | h
      · simp
      · have hne : key x ≠ key r := fun he => unique.1 (he ▸ List.mem_map_of_mem (f := key) h)
        rw [List.find?_cons_of_neg (by simpa using hne)]
        exact ih unique.2 h

theorem get?_eq_some {t : Table key} {k : κ} {r : ρ} :
    t.get? k = some r ↔ r ∈ t.rows ∧ key r = k := by
  constructor
  · intro h
    exact ⟨mem_of_get? h, key_of_get? h⟩
  · rintro ⟨hm, rfl⟩
    exact get?_of_mem hm

theorem eq_of_mem_of_key_eq {t : Table key} {r r' : ρ} (h : r ∈ t.rows) (h' : r' ∈ t.rows)
    (hk : key r = key r') : r = r' := by
  have h₁ := get?_of_mem h
  rw [hk, get?_of_mem h'] at h₁
  exact (Option.some.inj h₁).symm

/-! ### Reading after a write -/

theorem mem_put {t : Table key} {r x : ρ} :
    x ∈ (t.put r).rows ↔ x = r ∨ (x ∈ t.rows ∧ key x ≠ key r) := by
  unfold put
  simp only
  split
  · rename_i hmem
    obtain ⟨y, hy, hyk⟩ := List.mem_map.mp hmem
    rw [List.mem_map]
    constructor
    · rintro ⟨z, hz, rfl⟩
      by_cases hk : key z = key r
      · exact Or.inl (if_pos hk)
      · rw [if_neg hk]
        exact Or.inr ⟨hz, hk⟩
    · rintro (rfl | ⟨hx, hk⟩)
      · exact ⟨y, hy, if_pos hyk⟩
      · exact ⟨x, hx, if_neg hk⟩
  · rename_i hnot
    rw [List.mem_append, List.mem_singleton]
    constructor
    · rintro (hx | rfl)
      · exact Or.inr ⟨hx, fun he => hnot (he ▸ List.mem_map_of_mem (f := key) hx)⟩
      · exact Or.inl rfl
    · rintro (rfl | ⟨hx, -⟩)
      · exact Or.inr rfl
      · exact Or.inl hx

theorem get?_put (t : Table key) (r : ρ) (k : κ) :
    (t.put r).get? k = if k = key r then some r else t.get? k := by
  split
  · rename_i hk
    subst hk
    exact get?_of_mem (mem_put.mpr (Or.inl rfl))
  · rename_i hk
    apply Option.ext
    intro x
    rw [get?_eq_some, get?_eq_some, mem_put]
    constructor
    · rintro ⟨rfl | ⟨hx, -⟩, rfl⟩
      · exact absurd rfl hk
      · exact ⟨hx, rfl⟩
    · rintro ⟨hx, rfl⟩
      exact ⟨Or.inr ⟨hx, hk⟩, rfl⟩

@[simp] theorem get?_put_self (t : Table key) (r : ρ) : (t.put r).get? (key r) = some r := by
  rw [get?_put, if_pos rfl]

theorem get?_put_ne (t : Table key) {r : ρ} {k : κ} (h : k ≠ key r) :
    (t.put r).get? k = t.get? k := by
  rw [get?_put, if_neg h]

/-- A row added under a free key goes to the end. -/
theorem rows_put_of_get?_none {t : Table key} {r : ρ} (h : t.get? (key r) = none) :
    (t.put r).rows = t.rows ++ [r] := by
  rw [get?_eq_none] at h
  have hnot : key r ∉ t.rows.map key := by
    intro hmem
    obtain ⟨x, hx, hk⟩ := List.mem_map.mp hmem
    exact h x hx hk
  exact if_neg hnot

theorem mem_erase {t : Table key} {k : κ} {r : ρ} :
    r ∈ (t.erase k).rows ↔ r ∈ t.rows ∧ key r ≠ k := by
  simp [erase]

theorem get?_erase (t : Table key) (k k' : κ) :
    (t.erase k).get? k' = if k' = k then none else t.get? k' := by
  by_cases hk : k' = k
  · rw [if_pos hk, get?_eq_none]
    intro r hr hkey
    exact (mem_erase.mp hr).2 (hkey.trans hk)
  · rw [if_neg hk]
    apply Option.ext
    intro r
    rw [get?_eq_some, get?_eq_some, mem_erase]
    constructor
    · intro h
      exact ⟨h.1.1, h.2⟩
    · intro h
      exact ⟨⟨h.1, h.2 ▸ hk⟩, h.2⟩

/-- Inverting an insertion. -/
theorem insert?_eq_some {t t' : Table key} {r : ρ} (h : t.insert? r = some t') :
    t.get? (key r) = none ∧ t' = t.put r := by
  unfold insert? at h
  split at h
  · exact absurd h (by simp)
  · rename_i hnot
    refine ⟨get?_eq_none.mpr fun x hx hk => hnot (hk ▸ List.mem_map_of_mem (f := key) hx), ?_⟩
    exact (Option.some.inj h).symm

end Table
