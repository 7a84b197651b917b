import Mathlib.Data.List.Sort
import Ophelia.Lib.Table

/-!
# Ophelia.Lib.Chain

Logs that are verified by walking along them. A step checks one row against the position
reached so far and moves on; a walk strings the steps together. Appending a row that steps
from where the walk ended extends the walk, and a property that every step keeps holds
where the walk ends. Logs of several owners share a table, and are read in the order of
their sequence numbers.
-/

variable {ρ α σ ε : Type}

/-- Walk along the rows of a log: what was read from them, and the position reached. -/
def walk (step : σ → ρ → Except ε (α × σ)) : σ → List ρ → Except ε (List α × σ)
  | s, [] => .ok ([], s)
  | s, row :: rows =>
      match step s row with
      | .error e => .error e
      | .ok (a, s₁) =>
          match walk step s₁ rows with
          | .error e => .error e
          | .ok (as, s₂) => .ok (a :: as, s₂)

namespace walk

variable {step : σ → ρ → Except ε (α × σ)}

theorem cons_eq_ok {s s' : σ} {row : ρ} {rows : List ρ} {as : List α} :
    walk step s (row :: rows) = .ok (as, s') ↔
      ∃ a s₁ as', step s row = .ok (a, s₁) ∧ walk step s₁ rows = .ok (as', s') ∧
        as = a :: as' := by
  simp only [walk]
  cases hstep : step s row with
  | error e => simp
  | ok p =>
      obtain ⟨a, s₁⟩ := p
      cases hwalk : walk step s₁ rows with
      | error e => simp [hwalk]
      | ok q => simp [hwalk, Prod.ext_iff, eq_comm, and_comm]

/-- **A log grows at its end.** -/
theorem concat {s s₁ s₂ : σ} {row : ρ} {rows : List ρ} {as : List α} {a : α}
    (hwalk : walk step s rows = .ok (as, s₁)) (hstep : step s₁ row = .ok (a, s₂)) :
    walk step s (rows ++ [row]) = .ok (as ++ [a], s₂) := by
  induction rows generalizing s as with
  | nil =>
      obtain ⟨rfl, rfl⟩ := Prod.mk.inj (Except.ok.inj hwalk)
      simp [walk, hstep]
  | cons r rows ih =>
      obtain ⟨b, s', bs, hb, hbs, rfl⟩ := cons_eq_ok.mp hwalk
      rw [List.cons_append, cons_eq_ok]
      exact ⟨b, s', bs ++ [a], hb, ih hbs, rfl⟩

/-- What every step keeps holds at the end of a walk. -/
theorem invariant {P : List ρ → List α → σ → Prop}
    (hstep : ∀ {rows as s row a s'}, P rows as s → step s row = .ok (a, s') →
      P (rows ++ [row]) (as ++ [a]) s')
    {s s' : σ} {rows : List ρ} {as : List α} (h0 : P [] [] s)
    (h : walk step s rows = .ok (as, s')) : P rows as s' := by
  suffices hgen : ∀ (done : List ρ) (bs : List α), P done bs s → P (done ++ rows) (bs ++ as) s' from
    hgen [] [] h0
  clear h0
  induction rows generalizing s as with
  | nil =>
      obtain ⟨rfl, rfl⟩ := Prod.mk.inj (Except.ok.inj h)
      intro done bs hP
      simpa using hP
  | cons row rows ih =>
      obtain ⟨a, s₁, as', ha, has, rfl⟩ := cons_eq_ok.mp h
      intro done bs hP
      have := ih has (done ++ [row]) (bs ++ [a]) (hstep hP ha)
      simpa using this

/-- A walk gets through when every step does, from what holds of the rows before it. -/
theorem progress {P : List ρ → σ → Prop} {s : σ} {rows : List ρ} (h0 : P [] s)
    (hstep : ∀ {done s row rest}, rows = done ++ row :: rest → P done s →
      ∃ a s', step s row = .ok (a, s') ∧ P (done ++ [row]) s') :
    ∃ as s', walk step s rows = .ok (as, s') ∧ P rows s' := by
  suffices hgen : ∀ (rest done : List ρ) (s : σ), rows = done ++ rest → P done s →
      ∃ as s', walk step s rest = .ok (as, s') ∧ P rows s' from hgen rows [] s rfl h0
  intro rest
  induction rest with
  | nil =>
      intro done s hrows hP
      rw [List.append_nil] at hrows
      subst hrows
      exact ⟨[], s, rfl, hP⟩
  | cons row rest ih =>
      intro done s hrows hP
      obtain ⟨a, s₁, ha, hP₁⟩ := hstep hrows hP
      obtain ⟨as, s', has, hP'⟩ := ih (done ++ [row]) s₁ (by simp [hrows]) hP₁
      exact ⟨a :: as, s', cons_eq_ok.mpr ⟨a, s₁, as, ha, has, rfl⟩, hP'⟩

end walk

/-! ### Logs in a table -/

/-- An increasing list of numbers above `a` without a gap counts from `a + 1`. -/
theorem List.eq_range'_of_gapless {a : Nat} {l : List Nat} (hlt : l.Pairwise (· < ·))
    (habove : ∀ x ∈ l, a < x) (hgap : ∀ x ∈ l, ∀ n, a < n → n ≤ x → n ∈ l) :
    l = List.range' (a + 1) l.length := by
  induction l generalizing a with
  | nil => rfl
  | cons x l ih =>
      obtain ⟨hfirst, hrest⟩ := List.pairwise_cons.mp hlt
      -- the least element is the first number above the bound
      have hx : x = a + 1 := by
        have habovex := habove x (by simp)
        rcases List.mem_cons.mp (hgap x (by simp) (a + 1) (by omega) (by omega)) with h | h
        · exact h.symm
        · have hless := hfirst (a + 1) h
          omega
      subst hx
      have htail := ih hrest hfirst ?_
      · rw [List.length_cons, List.range'_succ, ← htail]
      · intro y hy n hn hle
        rcases List.mem_cons.mp (hgap y (List.mem_cons_of_mem _ hy) n (by omega) hle) with h | h
        · omega
        · exact h


theorem List.orderedInsert_concat (r : α → α → Prop) [DecidableRel r] {a x : α} {l : List α}
    (h : r a x) : (l ++ [x]).orderedInsert r a = l.orderedInsert r a ++ [x] := by
  induction l with
  | nil => simp [List.orderedInsert, h]
  | cons b l ih =>
      simp only [List.cons_append, List.orderedInsert]
      split
      · rfl
      · rw [ih, List.cons_append]

/-- A last row that is above all others stays last when the rows are sorted. -/
theorem List.insertionSort_concat (r : α → α → Prop) [DecidableRel r] {l : List α} {x : α}
    (h : ∀ y ∈ l, r y x) : (l ++ [x]).insertionSort r = l.insertionSort r ++ [x] := by
  induction l with
  | nil => rfl
  | cons y l ih =>
      rw [List.cons_append, List.insertionSort_cons, ih fun z hz => h z (by simp [hz]),
        List.orderedInsert_concat r (h y (by simp)), List.insertionSort_cons]

namespace Table

variable {κ ω : Type} [DecidableEq κ] [DecidableEq ω] {key : ρ → κ}

/-- The rows of one owner, in the order of their sequence numbers. -/
def log (t : Table key) (owner : ρ → ω) (seq : ρ → Nat) (k : ω) : List ρ :=
  (t.rows.filter fun r => owner r = k).insertionSort fun a b => seq a ≤ seq b

variable {t : Table key} {owner : ρ → ω} {seq : ρ → Nat} {k : ω} {r x : ρ}

omit [DecidableEq κ] in
theorem mem_log : x ∈ t.log owner seq k ↔ x ∈ t.rows ∧ owner x = k := by
  simp [log, List.mem_insertionSort]

/-- A row that is numbered above the log of its owner is its new last row. -/
theorem log_put (hfree : t.get? (key r) = none)
    (h : ∀ x ∈ t.log owner seq (owner r), seq x ≤ seq r) :
    (t.put r).log owner seq (owner r) = t.log owner seq (owner r) ++ [r] := by
  unfold log
  rw [rows_put_of_get?_none hfree, List.filter_append, List.filter_cons_of_pos (by simp),
    List.filter_nil]
  refine List.insertionSort_concat _ fun x hx => h x ?_
  rw [mem_log]
  simpa using hx

theorem log_put_ne (hfree : t.get? (key r) = none) (h : owner r ≠ k) :
    (t.put r).log owner seq k = t.log owner seq k := by
  unfold log
  rw [rows_put_of_get?_none hfree, List.filter_append, List.filter_cons_of_neg (by simpa using h),
    List.filter_nil, List.append_nil]

end Table
