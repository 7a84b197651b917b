import Mathlib.Data.List.Basic
import Mathlib.Data.List.Nodup

/-!
# Ophelia.Lib.Handlers

Loops that share a handler. The items of a run come in groups; an item is passed over, taken
(which changes the state) or raises an exception. There is one handler around each group: an
exception that it catches ends the group, and any other one ends the run.

The run is compared with the one in which every item has a handler of its own (`taken`). The
two take the same items exactly when the first exception of a group costs nothing
(`Harmless`): no later item of the group would be taken and, if the handler lets the exception
through, no item of a later group either.
-/

namespace Handlers

variable {α σ ε : Type} (step : α → σ → Except ε (Option σ))

/-! ### Each item by itself -/

/-- The state after an item. -/
def next (x : α) (s : σ) : σ :=
  match step x s with
  | .ok (some s') => s'
  | _ => s

/-- The state after some items. -/
def after : List α → σ → σ
  | [], s => s
  | x :: xs, s => after xs (next step x s)

def takes (x : α) (s : σ) : Bool :=
  match step x s with
  | .ok (some _) => true
  | _ => false

/-- The items that are taken when each one has its own handler. -/
def taken : List α → σ → List α
  | [], _ => []
  | x :: xs, s =>
      if takes step x s then x :: taken xs (next step x s) else taken xs (next step x s)

/-- No item raises an exception. -/
def Quiet : List α → σ → Prop
  | [], _ => True
  | x :: xs, s => (∃ r, step x s = .ok r) ∧ Quiet xs (next step x s)

/-! ### The loops -/

/-- The items of a group that are taken, the state, and the exception that ended the group. -/
def runGroup : List α → σ → List α × σ × Option ε
  | [], s => ([], s, none)
  | x :: xs, s =>
      match step x s with
      | .error e => ([], s, some e)
      | .ok none => runGroup xs s
      | .ok (some s') => (x :: (runGroup xs s').1, (runGroup xs s').2)

/-- The groups one after another, with a handler around each of them. -/
def runGroups (caught : ε → Bool) : List (List α) → σ → List α × σ × Option ε
  | [], s => ([], s, none)
  | g :: gs, s =>
      match runGroup step g s with
      | (log, s', some e) =>
          if caught e then (log ++ (runGroups caught gs s').1, (runGroups caught gs s').2)
          else (log, s', some e)
      | (log, s', none) => (log ++ (runGroups caught gs s').1, (runGroups caught gs s').2)

/-- The first exception of a group keeps no item from being taken. -/
def Harmless (caught : ε → Bool) (groups : List (List α)) (s : σ) : Prop :=
  ∀ done us x vs rest e, groups = done ++ (us ++ x :: vs) :: rest →
    Quiet step us (after step done.flatten s) →
    step x (after step (done.flatten ++ us) s) = .error e →
    taken step vs (after step (done.flatten ++ us) s) = [] ∧
      (caught e = false → taken step rest.flatten (after step (done.flatten ++ us) s) = [])

/-! ### Facts -/

section Facts

variable {step}

theorem after_append (xs ys : List α) (s : σ) :
    after step (xs ++ ys) s = after step ys (after step xs s) := by
  induction xs generalizing s with
  | nil => rfl
  | cons x xs ih => exact ih (next step x s)

theorem taken_append (xs ys : List α) (s : σ) :
    taken step (xs ++ ys) s = taken step xs s ++ taken step ys (after step xs s) := by
  induction xs generalizing s with
  | nil => rfl
  | cons x xs ih =>
      simp only [List.cons_append, taken, after, ih]
      split
      · rfl
      · rfl

variable (step) in
theorem taken_subset (xs : List α) (s : σ) : taken step xs s ⊆ xs := by
  induction xs generalizing s with
  | nil => exact List.Subset.refl []
  | cons x xs ih =>
      unfold taken
      split
      · exact List.cons_subset_cons x (ih _)
      · exact List.subset_cons_of_subset x (ih _)

theorem next_of_takes_eq_false {x : α} {s : σ} (h : takes step x s = false) :
    next step x s = s := by
  unfold takes at h
  unfold next
  split
  · simp_all
  · rfl

/-- A state changes only when an item is taken. -/
theorem after_of_taken_eq_nil {xs : List α} {s : σ} (h : taken step xs s = []) :
    after step xs s = s := by
  induction xs generalizing s with
  | nil => rfl
  | cons x xs ih =>
      unfold taken at h
      split at h
      · cases h
      · rename_i hx
        have hnext := next_of_takes_eq_false (Bool.eq_false_iff.mpr hx)
        rw [hnext] at h
        rw [after, hnext, ih h]

variable (step) in
/-- A group runs as its items do by themselves, up to the first exception. -/
theorem runGroup_cases (g : List α) (s : σ) :
    (Quiet step g s ∧ runGroup step g s = (taken step g s, after step g s, none)) ∨
      ∃ us x vs e, g = us ++ x :: vs ∧ Quiet step us s ∧ step x (after step us s) = .error e ∧
        runGroup step g s = (taken step us s, after step us s, some e) := by
  induction g generalizing s with
  | nil => exact .inl ⟨trivial, rfl⟩
  | cons x g ih =>
      match hx : step x s with
      | .error e => exact .inr ⟨[], x, g, e, rfl, trivial, hx, by rw [runGroup, hx]; rfl⟩
      | .ok none =>
          have hnext : next step x s = s := by rw [next, hx]
          have htakes : takes step x s = false := by rw [takes, hx]
          have hrun : runGroup step (x :: g) s = runGroup step g s := by rw [runGroup, hx]
          rw [hrun]
          rcases ih s with ⟨hquiet, hg⟩ | ⟨us, y, vs, e, rfl, hquiet, hy, hg⟩
          · exact .inl ⟨⟨⟨none, hx⟩, by rwa [hnext]⟩, by simp [hg, taken, after, hnext, htakes]⟩
          · refine .inr ⟨x :: us, y, vs, e, rfl, ⟨⟨none, hx⟩, by rwa [hnext]⟩, ?_, ?_⟩
            · rwa [after, hnext]
            · simp [hg, taken, after, hnext, htakes]
      | .ok (some s') =>
          have hnext : next step x s = s' := by rw [next, hx]
          have htakes : takes step x s = true := by rw [takes, hx]
          have hrun : runGroup step (x :: g) s =
              (x :: (runGroup step g s').1, (runGroup step g s').2) := by rw [runGroup, hx]
          rw [hrun]
          rcases ih s' with ⟨hquiet, hg⟩ | ⟨us, y, vs, e, rfl, hquiet, hy, hg⟩
          · exact .inl ⟨⟨⟨some s', hx⟩, by rwa [hnext]⟩,
              by simp [hg, taken, after, hnext, htakes]⟩
          · refine .inr ⟨x :: us, y, vs, e, rfl, ⟨⟨some s', hx⟩, by rwa [hnext]⟩, ?_, ?_⟩
            · rwa [after, hnext]
            · simp [hg, taken, after, hnext, htakes]

variable {caught : ε → Bool}

variable (step caught) in
theorem runGroups_subset (groups : List (List α)) (s : σ) :
    (runGroups step caught groups s).1 ⊆ groups.flatten := by
  induction groups generalizing s with
  | nil => exact List.Subset.refl []
  | cons g gs ih =>
      rw [List.flatten_cons]
      have hrest : ∀ {us : List α} (t u : σ), us ⊆ g →
          taken step us t ++ (runGroups step caught gs u).1 ⊆ g ++ gs.flatten :=
        fun t u hus => List.append_subset.mpr
          ⟨fun y hy => List.mem_append_left _ (hus (taken_subset step _ t hy)),
            fun y hy => List.mem_append_right _ (ih u hy)⟩
      rcases runGroup_cases step g s with ⟨-, hg⟩ | ⟨us, x, vs, e, rfl, -, -, hg⟩
      · rw [runGroups, hg]
        exact hrest s _ (List.Subset.refl g)
      · rw [runGroups, hg]
        simp only
        have hus : us ⊆ us ++ x :: vs := List.subset_append_left us _
        split
        · exact hrest s _ hus
        · exact fun y hy => List.mem_append_left _ (hus (taken_subset step us s hy))

/-- The condition for a group in front of others. -/
theorem harmless_cons {g : List α} {gs : List (List α)} {s : σ} :
    Harmless step caught (g :: gs) s ↔
      (∀ us x vs e, g = us ++ x :: vs → Quiet step us s → step x (after step us s) = .error e →
        taken step vs (after step us s) = [] ∧
          (caught e = false → taken step gs.flatten (after step us s) = [])) ∧
      Harmless step caught gs (after step g s) := by
  constructor
  · intro h
    refine ⟨fun us x vs e hg hquiet hx => ?_, fun done us x vs rest e hgs hquiet hx => ?_⟩
    · exact h [] us x vs gs e (by rw [hg]; rfl) hquiet hx
    · have hfirst := h (g :: done) us x vs rest e (by rw [hgs]; rfl)
      simp only [List.flatten_cons, List.append_assoc, after_append] at hfirst
      rw [after_append] at hx ⊢
      exact hfirst hquiet hx
  · rintro ⟨hfirst, hrest⟩ done us x vs rest e hsplit hquiet hx
    cases done with
    | nil =>
        obtain ⟨rfl, rfl⟩ := List.cons.inj hsplit
        exact hfirst us x vs e rfl hquiet hx
    | cons g' done =>
        obtain ⟨rfl, rfl⟩ := List.cons.inj hsplit
        have hlater := hrest done us x vs rest e rfl
        simp only [List.flatten_cons, List.append_assoc, after_append] at hquiet hx hlater ⊢
        exact hlater hquiet hx

/-- When nothing is taken by itself, no exception costs anything. -/
theorem harmless_of_taken_eq_nil {groups : List (List α)} {s : σ}
    (h : taken step groups.flatten s = []) : Harmless step caught groups s := by
  intro done us x vs rest e hsplit hquiet hx
  have hflat : groups.flatten = (done.flatten ++ us) ++ [x] ++ vs ++ rest.flatten := by
    simp [hsplit]
  have hnext : next step x (after step (done.flatten ++ us) s) =
      after step (done.flatten ++ us) s := by rw [next, hx]
  rw [hflat] at h
  simp only [taken_append, after_append, List.append_eq_nil_iff] at h hnext
  obtain ⟨⟨-, hvs⟩, hrest⟩ := h
  simp only [after, hnext] at hvs hrest
  rw [after_append]
  rw [after_of_taken_eq_nil hvs] at hrest
  exact ⟨hvs, fun _ => hrest⟩

theorem quiet_append {xs ys : List α} {s : σ} :
    Quiet step (xs ++ ys) s ↔ Quiet step xs s ∧ Quiet step ys (after step xs s) := by
  induction xs generalizing s with
  | nil => simp [Quiet, after]
  | cons x xs ih => simp [Quiet, after, ih, and_assoc]

/-- There is one first exception. -/
theorem first_unique {us us' vs vs' : List α} {x x' : α} {s : σ} {e e' : ε}
    (h : us ++ x :: vs = us' ++ x' :: vs') (hus : Quiet step us s)
    (hx : step x (after step us s) = .error e) (hus' : Quiet step us' s)
    (hx' : step x' (after step us' s) = .error e') : us = us' ∧ x = x' ∧ vs = vs' := by
  induction us generalizing us' s with
  | nil =>
      cases us' with
      | nil => exact ⟨rfl, List.cons.inj h⟩
      | cons y us' =>
          obtain ⟨rfl, -⟩ := List.cons.inj h
          obtain ⟨r, hr⟩ := hus'.1
          exact absurd (hx.symm.trans hr) (by simp)
  | cons y us ih =>
      cases us' with
      | nil =>
          obtain ⟨rfl, -⟩ := List.cons.inj h
          obtain ⟨r, hr⟩ := hus.1
          exact absurd (hx'.symm.trans hr) (by simp)
      | cons y' us' =>
          obtain ⟨rfl, htail⟩ := List.cons.inj h
          obtain ⟨rfl, hrest⟩ := ih htail hus.2 hx hus'.2 hx'
          exact ⟨rfl, hrest⟩

omit step in
/-- Two logs that start alike, of items of a group and of items of others. -/
theorem mem_append_iff_of_disjoint {g gs logged log log' : List α} (hd : List.Disjoint g gs)
    (hlogged : logged ⊆ g) (hlog : log ⊆ gs) (hlog' : log' ⊆ gs) :
    (∀ y ∈ g ++ gs, y ∈ logged ++ log ↔ y ∈ logged ++ log') ↔
      ∀ y ∈ gs, y ∈ log ↔ y ∈ log' := by
  simp only [List.mem_append]
  constructor
  · intro h y hy
    have hnot : y ∉ logged := fun hmem => hd (hlogged hmem) hy
    have hy' := h y (.inr hy)
    simpa [hnot] using hy'
  · rintro h y (hy | hy)
    · have hnot : y ∉ log := fun hmem => hd hy (hlog hmem)
      have hnot' : y ∉ log' := fun hmem => hd hy (hlog' hmem)
      simp [hnot, hnot']
    · rw [h y hy]

/-- What a run takes when the first exception of the first group is that of `x`. -/
theorem fst_runGroups_of_raise {us vs : List α} {x : α} {gs : List (List α)} {s : σ} {e : ε}
    (hquiet : Quiet step us s) (hx : step x (after step us s) = .error e) :
    (runGroups step caught ((us ++ x :: vs) :: gs) s).1 =
      taken step us s ++ if caught e then (runGroups step caught gs (after step us s)).1 else [] := by
  rcases runGroup_cases step (us ++ x :: vs) s with
    ⟨hall, -⟩ | ⟨us', x', vs', e', heq, hquiet', hx', hgroup⟩
  · obtain ⟨r, hr⟩ := (quiet_append.mp hall).2.1
    exact absurd (hx.symm.trans hr) (by simp)
  · obtain ⟨rfl, rfl, rfl⟩ := first_unique heq hquiet hx hquiet' hx'
    rw [hx] at hx'
    cases hx'
    rw [runGroups, hgroup]
    simp only
    split
    · rfl
    · rw [List.append_nil]

theorem taken_of_raise {us vs : List α} {x : α} {s : σ} {e : ε}
    (hx : step x (after step us s) = .error e) :
    taken step (us ++ x :: vs) s = taken step us s ++ taken step vs (after step us s) ∧
      after step (us ++ x :: vs) s = after step vs (after step us s) := by
  have hnext : next step x (after step us s) = after step us s := by rw [next, hx]
  have htakes : takes step x (after step us s) = false := by rw [takes, hx]
  rw [taken_append, after_append]
  simp [taken, after, hnext, htakes]

/-- The rest of a group is lost to an exception, and none of it is in another group. -/
theorem taken_eq_nil_of_same {us vs rest log log' : List α} {x : α} {s t : σ}
    (hg : (us ++ x :: vs).Nodup) (hd : List.Disjoint (us ++ x :: vs) rest) (hlog : log ⊆ rest)
    (h : ∀ y ∈ us ++ x :: vs ++ rest,
      y ∈ taken step us s ++ log ↔ y ∈ taken step us s ++ taken step vs t ++ log') :
    taken step vs t = [] := by
  rw [List.eq_nil_iff_forall_not_mem]
  intro y hy
  have hyvs : y ∈ x :: vs := List.mem_cons_of_mem x (taken_subset step vs t hy)
  have hyg : y ∈ us ++ x :: vs := List.mem_append_right us hyvs
  have hylog := (h y (List.mem_append_left rest hyg)).mpr (by simp [hy])
  rcases List.mem_append.mp hylog with hmem | hmem
  · exact (List.nodup_append'.mp hg).2.2 (taken_subset step us s hmem) hyvs
  · exact hd hyg (hlog hmem)

/-- One group that raises. -/
theorem runGroups_raise_iff {us vs : List α} {x : α} {gs : List (List α)} {s : σ} {e : ε}
    (hnodup : (us ++ x :: vs ++ gs.flatten).Nodup) (hquiet : Quiet step us s)
    (hx : step x (after step us s) = .error e)
    (ih : (∀ y ∈ gs.flatten, y ∈ (runGroups step caught gs (after step us s)).1 ↔
        y ∈ taken step gs.flatten (after step us s)) ↔
      Harmless step caught gs (after step us s)) :
    (∀ y ∈ us ++ x :: vs ++ gs.flatten,
      y ∈ (runGroups step caught ((us ++ x :: vs) :: gs) s).1 ↔
        y ∈ taken step (us ++ x :: vs ++ gs.flatten) s) ↔
      (taken step vs (after step us s) = [] ∧
        (caught e = false → taken step gs.flatten (after step us s) = [])) ∧
      Harmless step caught gs (after step (us ++ x :: vs) s) := by
  obtain ⟨hg, -, hd⟩ := List.nodup_append'.mp hnodup
  obtain ⟨htaken, hafter⟩ : taken step (us ++ x :: vs) s =
      taken step us s ++ taken step vs (after step us s) ∧
      after step (us ++ x :: vs) s = after step vs (after step us s) := taken_of_raise hx
  have hus : taken step us s ⊆ us ++ x :: vs :=
    fun y hy => List.mem_append_left _ (taken_subset step us s hy)
  have hrest := taken_subset step gs.flatten (after step us s)
  have hrun := runGroups_subset step caught gs (after step us s)
  have hlog : (if caught e then (runGroups step caught gs (after step us s)).1 else []) ⊆
      gs.flatten := by
    split
    · exact hrun
    · exact List.nil_subset _
  rw [fst_runGroups_of_raise hquiet hx, taken_append, htaken, hafter]
  by_cases hvs : taken step vs (after step us s) = []
  · rw [after_of_taken_eq_nil hvs, hvs, List.append_nil,
      mem_append_iff_of_disjoint hd hus hlog hrest]
    cases hcaught : caught e with
    | true => simpa using ih
    | false =>
        simp only [Bool.false_eq_true, if_false, true_and, true_implies, List.not_mem_nil,
          false_iff]
        constructor
        · intro h
          have hnil : taken step gs.flatten (after step us s) = [] :=
            List.eq_nil_iff_forall_not_mem.mpr fun y hy => h y (hrest hy) hy
          exact ⟨hnil, harmless_of_taken_eq_nil hnil⟩
        · rintro ⟨hnil, -⟩ y -
          simp [hnil]
  · exact ⟨fun h => absurd (taken_eq_nil_of_same hg hd hlog h) hvs, fun h => absurd h.1.1 hvs⟩

/-- The run takes the items that are taken by themselves exactly when exceptions are
harmless. -/
theorem runGroups_taken_iff {groups : List (List α)} (hnodup : groups.flatten.Nodup) (s : σ) :
    (∀ x ∈ groups.flatten,
      x ∈ (runGroups step caught groups s).1 ↔ x ∈ taken step groups.flatten s) ↔
      Harmless step caught groups s := by
  induction groups generalizing s with
  | nil => simp [Harmless]
  | cons g gs ih =>
      rw [List.flatten_cons] at hnodup ⊢
      obtain ⟨-, hgs, hd⟩ := List.nodup_append'.mp hnodup
      rw [harmless_cons]
      rcases runGroup_cases step g s with
        ⟨hquiet, hgroup⟩ | ⟨us, x, vs, e, rfl, hquiet, hx, -⟩
      · -- Nothing is raised in this group: the two runs part later, if at all.
        rw [runGroups, hgroup, taken_append]
        simp only
        rw [mem_append_iff_of_disjoint hd (taken_subset step g s)
          (runGroups_subset step caught gs _) (taken_subset step gs.flatten _), ih hgs]
        refine (and_iff_right ?_).symm
        rintro us x vs e rfl - hx
        obtain ⟨r, hr⟩ := (quiet_append.mp hquiet).2.1
        exact absurd (hx.symm.trans hr) (by simp)
      · rw [runGroups_raise_iff hnodup hquiet hx (ih hgs _)]
        refine and_congr_left fun _ => ⟨fun h us' x' vs' e' heq hquiet' hx' => ?_, fun h => ?_⟩
        · obtain ⟨rfl, rfl, rfl⟩ := first_unique heq hquiet hx hquiet' hx'
          rw [hx] at hx'
          cases hx'
          exact h
        · exact h us x vs e rfl hquiet hx

end Facts

end Handlers
