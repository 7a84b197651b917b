import Mathlib.Data.List.Basic

/-!
# Ophelia.Lib.Incremental

Checking a sequence one element after another. A checker keeps a state that represents the elements
seen so far; it compares each new element with them.

If each step accepts exactly the elements that are good alone, fit every element seen and keep the
whole within its bounds, the run accepts exactly the sequences of good elements that fit pairwise
and stay within the bounds (`Checker.run_isOk_iff`). Where fitting is symmetric and the bounds do
not look at the order, the run does not either (`Checker.run_perm`).
-/

namespace Incremental

variable {α σ ε : Type}

/-- The run of a checker over a sequence. -/
def run (step : σ → α → Except ε σ) : σ → List α → Except ε σ
  | s, [] => .ok s
  | s, a :: l => (step s a).bind fun s' => run step s' l

def Accepts (result : Except ε σ) : Prop := ∃ s, result = .ok s

/-- Elements on which the steps go the same way may be replaced in an accepted sequence. -/
theorem run_map {step : σ → α → Except ε σ} {f : α → α} {l : List α}
    (hf : ∀ a ∈ l, ∀ s s', step s a = .ok s' → step s (f a) = .ok s') {s last : σ}
    (h : run step s l = .ok last) : run step s (l.map f) = .ok last := by
  induction l generalizing s with
  | nil => exact h
  | cons a l ih =>
      rw [run] at h
      cases hstep : step s a with
      | error e =>
          rw [hstep] at h
          cases h
      | ok s' =>
          rw [hstep] at h
          rw [List.map_cons, run, hf a List.mem_cons_self s s' hstep]
          exact ih (fun b hb => hf b (List.mem_cons_of_mem a hb)) h

/-- What a checker compares. The elements seen are listed last one first. -/
structure Checker (step : σ → α → Except ε σ) (Represents : σ → List α → Prop)
    (Good : α → Prop) (Fit : α → α → Prop) (Within : List α → Prop) : Prop where
  accepts : ∀ {s seen}, Represents s seen → ∀ a,
    Accepts (step s a) ↔ Good a ∧ (∀ b ∈ seen, Fit b a) ∧ Within (a :: seen)
  represents : ∀ {s seen}, Represents s seen → ∀ {a s'}, step s a = .ok s' →
    Represents s' (a :: seen)
  /-- What is beyond the bounds stays so. -/
  within : ∀ {a seen}, Within (a :: seen) → Within seen

namespace Checker

variable {step : σ → α → Except ε σ} {Represents : σ → List α → Prop} {Good : α → Prop}
  {Fit : α → α → Prop} {Within : List α → Prop}

theorem within_append (h : Checker step Represents Good Fit Within) {l seen : List α}
    (hw : Within (l ++ seen)) : Within seen := by
  induction l with
  | nil => exact hw
  | cons a l ih => exact ih (h.within hw)

/-- A run goes on exactly with the good elements that fit those seen and each other. -/
theorem run_accepts_iff (h : Checker step Represents Good Fit Within) {s : σ} {seen : List α}
    (hs : Represents s seen) (hw : Within seen) (l : List α) : Accepts (run step s l) ↔
      (∀ a ∈ l, Good a) ∧ (∀ a ∈ l, ∀ b ∈ seen, Fit b a) ∧ l.Pairwise Fit ∧
        Within (l.reverse ++ seen) := by
  induction l generalizing s seen with
  | nil => simp [run, Accepts, hw]
  | cons a l ih =>
      rw [List.reverse_cons, List.append_assoc, List.singleton_append, List.pairwise_cons]
      constructor
      · rintro ⟨last, hlast⟩
        rw [run] at hlast
        cases hstep : step s a with
        | error e =>
            rw [hstep] at hlast
            cases hlast
        | ok s' =>
            rw [hstep] at hlast
            obtain ⟨hgood, hfit, hbound⟩ := (h.accepts hs a).mp ⟨s', hstep⟩
            obtain ⟨hgoods, hseen, hpair, hwithin⟩ :=
              (ih (h.represents hs hstep) hbound).mp ⟨last, hlast⟩
            refine ⟨List.forall_mem_cons.mpr ⟨hgood, hgoods⟩, ?_, ⟨?_, hpair⟩, hwithin⟩
            · refine List.forall_mem_cons.mpr ⟨hfit, fun c hc b hb => ?_⟩
              exact hseen c hc b (List.mem_cons_of_mem a hb)
            · exact fun c hc => hseen c hc a List.mem_cons_self
      · rintro ⟨hgoods, hseen, ⟨hfirst, hpair⟩, hwithin⟩
        have hbound : Within (a :: seen) := h.within_append hwithin
        have hgood := hgoods a List.mem_cons_self
        obtain ⟨s', hstep⟩ :=
          (h.accepts hs a).mpr ⟨hgood, hseen a List.mem_cons_self, hbound⟩
        rw [run, hstep]
        refine (ih (h.represents hs hstep) hbound).mpr ⟨?_, ?_, hpair, hwithin⟩
        · exact fun c hc => hgoods c (List.mem_cons_of_mem a hc)
        · intro c hc
          refine List.forall_mem_cons.mpr ⟨hfirst c hc, fun b hb => ?_⟩
          exact hseen c (List.mem_cons_of_mem a hc) b hb

/-- From the start, where nothing is seen. -/
theorem run_isOk_iff (h : Checker step Represents Good Fit Within) {s : σ}
    (hs : Represents s []) (hw : Within []) (l : List α) : Accepts (run step s l) ↔
      (∀ a ∈ l, Good a) ∧ l.Pairwise Fit ∧ Within l.reverse := by
  rw [h.run_accepts_iff hs hw l, List.append_nil]
  constructor
  · rintro ⟨hgood, -, hrest⟩
    exact ⟨hgood, hrest⟩
  · rintro ⟨hgood, hrest⟩
    exact ⟨hgood, fun _ _ _ hb => absurd hb List.not_mem_nil, hrest⟩

/-- The order of the elements does not matter. -/
theorem run_perm (h : Checker step Represents Good Fit Within) {s : σ} (hs : Represents s [])
    (hw : Within []) (hsymm : ∀ {a b}, Fit a b → Fit b a)
    (hperm : ∀ {l l' : List α}, l.Perm l' → (Within l ↔ Within l')) {l l' : List α}
    (hl : l.Perm l') : Accepts (run step s l) ↔ Accepts (run step s l') := by
  have hreverse : l.reverse.Perm l'.reverse :=
    (List.reverse_perm l).trans (hl.trans (List.reverse_perm l').symm)
  rw [h.run_isOk_iff hs hw, h.run_isOk_iff hs hw, hl.pairwise_iff hsymm, hperm hreverse]
  have hmem : (∀ a ∈ l, Good a) ↔ ∀ a ∈ l', Good a :=
    forall_congr' fun a => by rw [hl.mem_iff]
  rw [hmem]

end Checker

end Incremental
