import Ophelia.Execution.CaddyAuth

/-!
# Ophelia.Execution.EnvEdits

The Caddy environment file over any number of edits (`_update_private_env` and
`_prune_route_auth_env`, `execution/compose_backend.py`). Deployments of any scopes update and
prune one file, so what one of them writes is what the next one reads.

A walk over the lines is refused on a name that is empty or assigned twice; on all other
lines it is a map (`updateLines_eq`) or a filter (`prunedEnv?_eq`), and both leave the names
that the lines assign to where they are. An edit is then a function on the entries of the
managed names (`EnvEdit.entries`), beside lines that it does not touch.
-/

namespace Ophelia

open Program PyText

/-! ### Lines by name -/

/-- The names the lines assign to, in order. -/
def assignedNames (lines : List (List Char)) : List (List Char) :=
  lines.filterMap assigned?

/-- What both walks ask for: no name is empty, and none is met twice. -/
def Assignable (seen lines : List (List Char)) : Prop :=
  (assignedNames lines).Nodup ∧ ∀ name ∈ assignedNames lines, name ≠ [] ∧ name ∉ seen

instance (seen lines : List (List Char)) : Decidable (Assignable seen lines) :=
  inferInstanceAs (Decidable (_ ∧ _))

/-- The lines that assign to a name. -/
def linesFor (name : List Char) (lines : List (List Char)) : List (List Char) :=
  lines.filter fun line => assigned? line = some name

/-- The line assigns to a managed name. -/
def isManaged (line : List Char) : Bool :=
  match assigned? line with
  | some name => ROUTE_AUTH_PREFIX.isPrefixOf name
  | none => false

/-- The lines that are not for a managed name. -/
def otherLines (lines : List (List Char)) : List (List Char) :=
  lines.filter fun line => !isManaged line

theorem assignedNames_cons_of_none {line : List Char} (h : assigned? line = none)
    (lines : List (List Char)) : assignedNames (line :: lines) = assignedNames lines := by
  rw [assignedNames, List.filterMap_cons_none h]
  rfl

theorem assignedNames_cons_of_some {line name : List Char} (h : assigned? line = some name)
    (lines : List (List Char)) : assignedNames (line :: lines) = name :: assignedNames lines := by
  rw [assignedNames, List.filterMap_cons_some h]
  rfl

theorem assignable_cons_of_none {line : List Char} (h : assigned? line = none)
    (seen lines : List (List Char)) : Assignable seen (line :: lines) ↔ Assignable seen lines := by
  rw [Assignable, Assignable, assignedNames_cons_of_none h]

/-- The first assignment is to a new name, and the rest does not assign to it again. -/
theorem assignable_cons_of_some {line name : List Char} (h : assigned? line = some name)
    (seen lines : List (List Char)) :
    Assignable seen (line :: lines) ↔
      ¬ (name.isEmpty = true ∨ name ∈ seen) ∧ Assignable (name :: seen) lines := by
  rw [Assignable, Assignable, assignedNames_cons_of_some h, List.nodup_cons, List.forall_mem_cons,
    List.isEmpty_iff, not_or]
  constructor
  · rintro ⟨⟨hname, hnodup⟩, hhead, hrest⟩
    refine ⟨hhead, hnodup, fun other hother => ⟨(hrest other hother).1, ?_⟩⟩
    rw [List.mem_cons, not_or]
    exact ⟨fun heq => hname (heq ▸ hother), (hrest other hother).2⟩
  · rintro ⟨hhead, hnodup, hrest⟩
    refine ⟨⟨fun hmem => (hrest name hmem).2 List.mem_cons_self, hnodup⟩, hhead, ?_⟩
    exact fun other hother =>
      ⟨(hrest other hother).1, fun hseen => (hrest other hother).2 (List.mem_cons_of_mem _ hseen)⟩

theorem mem_assignedNames {name : List Char} {lines : List (List Char)} :
    name ∈ assignedNames lines ↔ linesFor name lines ≠ [] := by
  rw [assignedNames, List.mem_filterMap, linesFor, ne_eq, List.filter_eq_nil_iff]
  push Not
  simp

/-- Of a name that is met once there is at most one line. -/
theorem length_linesFor {seen lines : List (List Char)} (h : Assignable seen lines)
    (name : List Char) : (linesFor name lines).length ≤ 1 := by
  induction lines generalizing seen with
  | nil => exact Nat.zero_le 1
  | cons line lines ih =>
      cases hline : assigned? line with
      | none =>
          rw [linesFor, List.filter_cons_of_neg (by simp [hline])]
          exact ih ((assignable_cons_of_none hline seen lines).mp h)
      | some other =>
          obtain ⟨-, hrest⟩ := (assignable_cons_of_some hline seen lines).mp h
          by_cases hname : other = name
          · -- the name is seen now, so the rest does not assign to it
            subst hname
            have hnil : linesFor other lines = [] := by
              by_contra hne
              exact (hrest.2 other (mem_assignedNames.mpr hne)).2 List.mem_cons_self
            rw [linesFor, List.filter_cons_of_pos (by simp [hline]), List.length_cons]
            rw [linesFor] at hnil
            rw [hnil]
            exact Nat.le_refl 1
          · rw [linesFor, List.filter_cons_of_neg (by simpa [hline] using hname)]
            exact ih hrest

/-! ### The two walks -/

/-- The line that an update puts in the place of a line. -/
def rewritten (pending : List (List Char × String)) (line : List Char) : List Char :=
  match assigned? line with
  | some name =>
      match pending.lookup name with
      | some value => assignment name value
      | none => line
  | none => line

theorem lawful_edited : LawfulBEq (List Char) := inferInstance

attribute [local instance] lawful_edited in
/-- The line survives a prune. -/
def survives (active : List (List Char)) (line : List Char) : Bool :=
  match assigned? line with
  | some name => !(ROUTE_AUTH_PREFIX.isPrefixOf name) || name ∈ active
  | none => true

theorem lookup_filter_ne {pending : List (List Char × String)} {name other : List Char}
    (h : other ≠ name) : (pending.filter fun p => p.1 ≠ name).lookup other = pending.lookup other := by
  induction pending with
  | nil => rfl
  | cons p pending ih =>
      by_cases hp : p.1 = name
      · rw [List.filter_cons_of_neg (by simpa using hp), ih, List.lookup_cons]
        have hne : (other == p.1) = false := by simpa [hp] using h
        rw [hne]
      · rw [List.filter_cons_of_pos (by simpa using hp), List.lookup_cons, List.lookup_cons, ih]

/-- An update is a map over the lines; what no line assigns to stays pending. -/
theorem updateLines_eq {seen lines : List (List Char)} (pending : List (List Char × String))
    (h : Assignable seen lines) :
    updateLines seen pending lines =
      some (lines.map (rewritten pending),
        pending.filter fun p => p.1 ∉ assignedNames lines) := by
  induction lines generalizing seen pending with
  | nil => simp [updateLines, assignedNames]
  | cons line lines ih =>
      rw [updateLines, List.map_cons]
      cases hline : assigned? line with
      | none =>
          have hrest := (assignable_cons_of_none hline seen lines).mp h
          have hhead : rewritten pending line = line := by rw [rewritten, hline]
          rw [assignedNames_cons_of_none hline, hhead]
          simp only [ih pending hrest, Option.map_some]
      | some name =>
          obtain ⟨hnew, hrest⟩ := (assignable_cons_of_some hline seen lines).mp h
          rw [assignedNames_cons_of_some hline]
          simp only [if_neg hnew]
          cases hlook : pending.lookup name with
          | none =>
              have hhead : rewritten pending line = line := by
                rw [rewritten, hline]
                simp only [hlook]
              simp only [ih pending hrest, Option.map_some, hhead, Option.some.injEq,
                Prod.mk.injEq, true_and]
              refine List.filter_congr fun p hp => ?_
              have hne := ne_of_lookup_none hlook hp
              simp [hne]
          | some value =>
              have hhead : rewritten pending line = assignment name value := by
                rw [rewritten, hline]
                simp only [hlook]
              -- the rest assigns to other names, so the value just used is not missed
              have hmap : lines.map (rewritten (pending.filter fun p => p.1 ≠ name)) =
                  lines.map (rewritten pending) := by
                refine List.map_congr_left fun l hl => ?_
                rw [rewritten, rewritten]
                cases hl' : assigned? l with
                | none => rfl
                | some other =>
                    have hne : other ≠ name := by
                      rintro rfl
                      have hmem : other ∈ assignedNames lines := List.mem_filterMap.mpr ⟨l, hl, hl'⟩
                      exact (hrest.2 other hmem).2 List.mem_cons_self
                    simp only [lookup_filter_ne hne]
              simp only [ih _ hrest, Option.map_some, hhead, hmap, List.filter_filter,
                Option.some.injEq, Prod.mk.injEq, true_and]
              refine List.filter_congr fun p hp => ?_
              simp only [List.mem_cons, not_or, Bool.decide_and, Bool.and_comm]

theorem updateLines_eq_none {seen lines : List (List Char)} (pending : List (List Char × String))
    (h : ¬ Assignable seen lines) : updateLines seen pending lines = none := by
  induction lines generalizing seen pending with
  | nil => exact absurd ⟨List.nodup_nil, fun _ hname => absurd hname List.not_mem_nil⟩ h
  | cons line lines ih =>
      rw [updateLines]
      cases hline : assigned? line with
      | none =>
          rw [assignable_cons_of_none hline] at h
          simp only [ih pending h, Option.map_none]
      | some name =>
          rw [assignable_cons_of_some hline, not_and] at h
          by_cases hbad : name.isEmpty = true ∨ name ∈ seen
          · simp only [if_pos hbad]
          · simp only [if_neg hbad, ih _ (h hbad), Option.map_none]
            split <;> rfl

/-- A prune is a filter on the lines. -/
theorem prunedEnv?_eq {seen lines : List (List Char)} (active : List (List Char))
    (h : Assignable seen lines) :
    prunedEnv? active seen lines = some (lines.filter (survives active)) := by
  induction lines generalizing seen with
  | nil => rfl
  | cons line lines ih =>
      rw [prunedEnv?]
      cases hline : assigned? line with
      | none =>
          have hrest := (assignable_cons_of_none hline seen lines).mp h
          simp only [ih hrest, Option.map_some]
          rw [List.filter_cons_of_pos (by rw [survives, hline])]
      | some name =>
          obtain ⟨hnew, hrest⟩ := (assignable_cons_of_some hline seen lines).mp h
          simp only [if_neg hnew, ih hrest, Option.map_some]
          by_cases hdrop : ROUTE_AUTH_PREFIX.isPrefixOf name = true ∧ name ∉ active
          · rw [if_pos hdrop, List.filter_cons_of_neg]
            simp [survives, hline, hdrop.1, hdrop.2]
          · rw [if_neg hdrop, List.filter_cons_of_pos]
            rw [survives, hline]
            rw [not_and_or, not_not, Bool.not_eq_true] at hdrop
            simpa using hdrop

theorem prunedEnv?_eq_none {seen lines : List (List Char)} (active : List (List Char))
    (h : ¬ Assignable seen lines) : prunedEnv? active seen lines = none := by
  induction lines generalizing seen with
  | nil => exact absurd ⟨List.nodup_nil, fun _ hname => absurd hname List.not_mem_nil⟩ h
  | cons line lines ih =>
      rw [prunedEnv?]
      cases hline : assigned? line with
      | none =>
          rw [assignable_cons_of_none hline] at h
          simp only [ih h, Option.map_none]
      | some name =>
          rw [assignable_cons_of_some hline, not_and] at h
          by_cases hbad : name.isEmpty = true ∨ name ∈ seen
          · simp only [if_pos hbad]
          · simp only [if_neg hbad, ih (h hbad), Option.map_none, ite_self]

/-! ### Updates -/

/-- New values of managed names: what `route_auth_env_key` makes for the routes of a scope. -/
structure ManagedUpdates where
  table : EnvUpdates
  managed : ∀ p ∈ table.rows, ROUTE_AUTH_PREFIX.isPrefixOf p.1 = true
  named : ∀ p ∈ table.rows, IsEnvName p.1

/-- The value an update gives to a name. -/
def ManagedUpdates.value? (updates : ManagedUpdates) (name : List Char) : Option String :=
  updates.table.rows.lookup name

section Updates

variable {pending : List (List Char × String)}

theorem assigned?_rewritten (hnames : ∀ p ∈ pending, IsEnvName p.1) (line : List Char) :
    assigned? (rewritten pending line) = assigned? line := by
  rw [rewritten]
  split
  · rename_i name hline
    split
    · rename_i value hlook
      rw [(hnames _ (mem_of_lookup hlook)).assigned?_assignment, hline]
    · rfl
  · rfl

/-- An update keeps the names and their order. -/
theorem assignedNames_rewritten (hnames : ∀ p ∈ pending, IsEnvName p.1)
    (lines : List (List Char)) :
    assignedNames (lines.map (rewritten pending)) = assignedNames lines := by
  rw [assignedNames, List.filterMap_map, assignedNames]
  exact List.filterMap_congr fun line _ => assigned?_rewritten hnames line

theorem linesFor_rewritten (hnames : ∀ p ∈ pending, IsEnvName p.1) (name : List Char)
    (lines : List (List Char)) :
    linesFor name (lines.map (rewritten pending)) =
      (linesFor name lines).map fun line => ((pending.lookup name).map (assignment name)).getD line := by
  rw [linesFor, List.filter_map, linesFor]
  have hfilter : lines.filter ((fun line => decide (assigned? line = some name)) ∘ rewritten pending) =
      lines.filter fun line => assigned? line = some name :=
    List.filter_congr fun line _ => by simp only [Function.comp, assigned?_rewritten hnames]
  rw [hfilter]
  refine List.map_congr_left fun line hline => ?_
  have hname : assigned? line = some name := by simpa using (List.mem_filter.mp hline).2
  rw [rewritten, hname]
  cases hlook : pending.lookup name with
  | none => simp only [hlook, Option.map_none, Option.getD_none]
  | some value => simp only [hlook, Option.map_some, Option.getD_some]

theorem isManaged_rewritten (hnames : ∀ p ∈ pending, IsEnvName p.1) (line : List Char) :
    isManaged (rewritten pending line) = isManaged line := by
  rw [isManaged, assigned?_rewritten hnames, isManaged]

/-- Lines that are not for a managed name stay what they are. -/
theorem otherLines_rewritten (hnames : ∀ p ∈ pending, IsEnvName p.1)
    (hmanaged : ∀ p ∈ pending, ROUTE_AUTH_PREFIX.isPrefixOf p.1 = true)
    (lines : List (List Char)) :
    otherLines (lines.map (rewritten pending)) = otherLines lines := by
  rw [otherLines, List.filter_map, otherLines]
  have hfilter : lines.filter ((fun line => !isManaged line) ∘ rewritten pending) =
      lines.filter fun line => !isManaged line :=
    List.filter_congr fun line _ => by simp only [Function.comp, isManaged_rewritten hnames]
  rw [hfilter]
  conv_rhs => rw [← List.map_id (lines.filter fun line => !isManaged line)]
  refine List.map_congr_left fun line hline => ?_
  have hother : isManaged line = false := by simpa using (List.mem_filter.mp hline).2
  rw [rewritten, id]
  cases hline' : assigned? line with
  | none => rfl
  | some name =>
      cases hlook : pending.lookup name with
      | none => simp only [hlook]
      | some value =>
          -- an updated name is managed, and this line is not
          have hfront := hmanaged _ (mem_of_lookup hlook)
          rw [isManaged, hline'] at hother
          exact absurd (hother.symm.trans hfront) (by decide)

/-- The assignments appended for what is still pending. -/
theorem linesFor_assignments (hnames : ∀ p ∈ pending, IsEnvName p.1)
    (hnodup : (pending.map Prod.fst).Nodup) (name : List Char) :
    linesFor name (pending.map fun p => assignment p.1 p.2) =
      ((pending.lookup name).map (assignment name)).toList := by
  induction pending with
  | nil => rfl
  | cons p pending ih =>
      rw [List.map_cons, List.nodup_cons] at hnodup
      have hp : assigned? (assignment p.1 p.2) = some p.1 :=
        (hnames p List.mem_cons_self).assigned?_assignment p.2
      have hrest := ih (fun q hq => hnames q (List.mem_cons_of_mem _ hq)) hnodup.2
      rw [List.map_cons, linesFor, List.lookup_cons]
      by_cases hname : p.1 = name
      · have hnil : pending.lookup name = none := by
          rw [List.lookup_eq_none_iff]
          intro q hq
          have hne : name ≠ q.1 := fun heq =>
            hnodup.1 (List.mem_map.mpr ⟨q, hq, by rw [← heq, hname]⟩)
          simpa using hne
        rw [hnil] at hrest
        rw [List.filter_cons_of_pos (by rw [hp, hname]; exact decide_eq_true rfl)]
        rw [linesFor] at hrest
        rw [hrest, hname]
        simp
      · rw [List.filter_cons_of_neg (by simpa [hp] using hname)]
        have hne : (name == p.1) = false := by simpa using fun heq => hname heq.symm
        rw [hne]
        exact hrest

/-- Where a name occurs once, what is found under it is a matter of membership. -/
theorem lookup_eq_of_mem (hnodup : (pending.map Prod.fst).Nodup) {p : List Char × String}
    (hp : p ∈ pending) : pending.lookup p.1 = some p.2 := by
  induction pending with
  | nil => exact absurd hp List.not_mem_nil
  | cons q pending ih =>
      rw [List.map_cons, List.nodup_cons] at hnodup
      rw [List.lookup_cons]
      rcases List.mem_cons.mp hp with rfl | hp
      · simp
      · have hne : (p.1 == q.1) = false := by
          have hq : p.1 ≠ q.1 := fun heq => hnodup.1 (List.mem_map.mpr ⟨p, hp, heq⟩)
          simpa using hq
        rw [hne]
        exact ih hnodup.2 hp

theorem lookup_perm {pending' : List (List Char × String)} (hnodup : (pending.map Prod.fst).Nodup)
    (h : pending.Perm pending') (name : List Char) :
    pending'.lookup name = pending.lookup name := by
  have hnodup' : (pending'.map Prod.fst).Nodup := (h.map Prod.fst).nodup_iff.mp hnodup
  cases hlook : pending'.lookup name with
  | none =>
      refine (List.lookup_eq_none_iff.mpr fun p hp => ?_).symm
      exact List.lookup_eq_none_iff.mp hlook p (h.mem_iff.mp hp)
  | some value =>
      have hmem := h.mem_iff.mpr (mem_of_lookup hlook)
      exact (lookup_eq_of_mem hnodup hmem).symm

theorem lookup_filter {keep : List Char → Bool} (name : List Char) :
    (pending.filter fun p => keep p.1).lookup name =
      if keep name then pending.lookup name else none := by
  induction pending with
  | nil => simp
  | cons p pending ih =>
      by_cases hp : keep p.1 = true
      · rw [List.filter_cons_of_pos (by exact hp), List.lookup_cons, List.lookup_cons, ih]
        by_cases hname : name = p.1
        · subst hname
          simp [hp]
        · have hne : (name == p.1) = false := by simpa using hname
          rw [hne]
      · rw [List.filter_cons_of_neg (by exact hp), ih, List.lookup_cons]
        by_cases hname : name = p.1
        · subst hname
          simp [hp]
        · have hne : (name == p.1) = false := by simpa using hname
          rw [hne]

attribute [local instance] lawful_edited in
/-- What is still pending after the lines, in the order it is appended. -/
def appended (pending : List (List Char × String)) (lines : List (List Char)) :
    List (List Char × String) :=
  (pending.filter fun p => p.1 ∉ assignedNames lines).insertionSort
    fun a b => String.ofList a.1 ≤ String.ofList b.1

theorem mem_appended {lines : List (List Char)} {p : List Char × String} :
    p ∈ appended pending lines ↔ p ∈ pending ∧ p.1 ∉ assignedNames lines := by
  rw [appended, List.mem_insertionSort, List.mem_filter, decide_eq_true_eq]

theorem nodup_appended (hnodup : (pending.map Prod.fst).Nodup) (lines : List (List Char)) :
    ((appended pending lines).map Prod.fst).Nodup := by
  have hfiltered : ((pending.filter fun p => p.1 ∉ assignedNames lines).map Prod.fst).Nodup :=
    hnodup.sublist (List.filter_sublist.map Prod.fst)
  exact (((List.perm_insertionSort _ _).map Prod.fst).nodup_iff).mpr hfiltered

theorem lookup_appended (hnodup : (pending.map Prod.fst).Nodup) (lines : List (List Char))
    (name : List Char) :
    (appended pending lines).lookup name =
      if name ∈ assignedNames lines then none else pending.lookup name := by
  have hfiltered : ((pending.filter fun p => p.1 ∉ assignedNames lines).map Prod.fst).Nodup :=
    hnodup.sublist (List.filter_sublist.map Prod.fst)
  rw [appended, lookup_perm hfiltered (List.perm_insertionSort _ _).symm,
    @lookup_filter _ fun n => decide (n ∉ assignedNames lines)]
  by_cases hname : name ∈ assignedNames lines <;> simp [hname]

theorem assignedNames_assignments (hnames : ∀ p ∈ pending, IsEnvName p.1) :
    assignedNames (pending.map fun p => assignment p.1 p.2) = pending.map Prod.fst := by
  rw [assignedNames, List.filterMap_map]
  have hname : ∀ p ∈ pending, (assigned? ∘ fun p => assignment p.1 p.2) p = some p.1 :=
    fun p hp => (hnames p hp).assigned?_assignment p.2
  rw [List.filterMap_congr hname]
  exact List.filterMap_eq_map' ▸ rfl

end Updates

/-- An update on readable lines: each of its names gets one line with the new value, the
other names and all other lines stay. -/
theorem updatedEnv?_spec (updates : ManagedUpdates) {lines : List (List Char)}
    (h : Assignable [] lines) :
    ∃ output, updatedEnv? updates.table lines = some output ∧ Assignable [] output ∧
      otherLines output = otherLines lines ∧
      ∀ name, linesFor name output =
        ((updates.value? name).map fun value => [assignment name value]).getD (linesFor name lines) := by
  have hunique := updates.table.unique
  have happended : ∀ p ∈ appended updates.table.rows lines, p ∈ updates.table.rows :=
    fun p hp => (mem_appended.mp hp).1
  have hnames : ∀ p ∈ appended updates.table.rows lines, IsEnvName p.1 :=
    fun p hp => updates.named p (happended p hp)
  refine ⟨_, by rw [updatedEnv?, updateLines_eq _ h, Option.map_some], ?_, ?_, ?_⟩
  · -- the names: those of the lines, then the new ones
    change Assignable [] (lines.map (rewritten updates.table.rows) ++
      (appended updates.table.rows lines).map fun p => assignment p.1 p.2)
    rw [Assignable]
    have hall : assignedNames (lines.map (rewritten updates.table.rows) ++
        (appended updates.table.rows lines).map fun p => assignment p.1 p.2) =
          assignedNames lines ++ (appended updates.table.rows lines).map Prod.fst := by
      rw [assignedNames, List.filterMap_append]
      exact congrArg₂ (· ++ ·) (assignedNames_rewritten updates.named lines)
        (assignedNames_assignments hnames)
    rw [hall, List.nodup_append]
    refine ⟨⟨h.1, nodup_appended hunique lines, ?_⟩, fun name hname => ?_⟩
    · intro a ha b hb heq
      obtain ⟨p, hp, rfl⟩ := List.mem_map.mp hb
      exact (mem_appended.mp hp).2 (heq ▸ ha)
    · rcases List.mem_append.mp hname with hname | hname
      · exact h.2 name hname
      · obtain ⟨p, hp, rfl⟩ := List.mem_map.mp hname
        exact ⟨(hnames p hp).ne_nil, List.not_mem_nil⟩
  · change otherLines (lines.map (rewritten updates.table.rows) ++
      (appended updates.table.rows lines).map fun p => assignment p.1 p.2) = otherLines lines
    rw [otherLines, List.filter_append]
    have hnil : ((appended updates.table.rows lines).map fun p => assignment p.1 p.2).filter
        (fun line => !isManaged line) = [] := by
      rw [List.filter_eq_nil_iff]
      intro l hl
      obtain ⟨p, hp, rfl⟩ := List.mem_map.mp hl
      rw [isManaged, (hnames p hp).assigned?_assignment]
      simp [updates.managed p (happended p hp)]
    rw [hnil, List.append_nil]
    exact otherLines_rewritten updates.named updates.managed lines
  · intro name
    change linesFor name (lines.map (rewritten updates.table.rows) ++
      (appended updates.table.rows lines).map fun p => assignment p.1 p.2) = _
    rw [linesFor, List.filter_append]
    change linesFor name (lines.map (rewritten updates.table.rows)) ++
      linesFor name ((appended updates.table.rows lines).map fun p => assignment p.1 p.2) = _
    rw [linesFor_rewritten updates.named, linesFor_assignments hnames (nodup_appended hunique lines),
      lookup_appended hunique, ManagedUpdates.value?]
    by_cases hname : name ∈ assignedNames lines
    · -- one line assigns to the name already
      rw [if_pos hname, Option.map_none, Option.toList_none, List.append_nil]
      cases hlook : updates.table.rows.lookup name with
      | none => simp
      | some value =>
          have hone : (linesFor name lines).length = 1 :=
            Nat.le_antisymm (length_linesFor h name)
              (List.length_pos_iff.mpr (mem_assignedNames.mp hname))
          obtain ⟨line, hline⟩ := List.length_eq_one_iff.mp hone
          rw [hline]
          rfl
    · rw [if_neg hname]
      have hnil : linesFor name lines = [] := by
        by_contra hne
        exact hname (mem_assignedNames.mpr hne)
      rw [hnil, List.map_nil, List.nil_append]
      cases updates.table.rows.lookup name <;> rfl

/-! ### Prunes -/

theorem survives_of_not_isManaged {line : List Char} (h : isManaged line = false)
    (active : List (List Char)) : survives active line = true := by
  rw [isManaged] at h
  rw [survives]
  split
  · rename_i name hline
    simp only [hline] at h
    rw [h]
    rfl
  · rfl

/-- A prune on readable lines: the managed names without a reference go. -/
theorem prunedEnv?_spec (active : List (List Char)) {lines : List (List Char)}
    (h : Assignable [] lines) :
    ∃ output, prunedEnv? active [] lines = some output ∧ Assignable [] output ∧
      otherLines output = otherLines lines ∧
      ∀ name, linesFor name output =
        if ROUTE_AUTH_PREFIX.isPrefixOf name = true ∧ name ∉ active then []
        else linesFor name lines := by
  refine ⟨_, prunedEnv?_eq active h, ?_, ?_, ?_⟩
  · have hsub : (assignedNames (lines.filter (survives active))).Sublist (assignedNames lines) :=
      List.filter_sublist.filterMap assigned?
    exact ⟨h.1.sublist hsub, fun name hname => h.2 name (hsub.subset hname)⟩
  · rw [otherLines, List.filter_filter, otherLines]
    refine List.filter_congr fun line _ => ?_
    cases hline : isManaged line with
    | true => rfl
    | false => rw [survives_of_not_isManaged hline]; rfl
  · intro name
    rw [linesFor, List.filter_filter]
    have hsurvives : ∀ line, assigned? line = some name →
        survives active line = !decide (ROUTE_AUTH_PREFIX.isPrefixOf name = true ∧ name ∉ active) := by
      intro line hline
      rw [survives, hline]
      by_cases hfront : ROUTE_AUTH_PREFIX.isPrefixOf name = true <;>
        by_cases hactive : name ∈ active <;> simp [hfront, hactive]
    split
    · rename_i hdrop
      rw [List.filter_eq_nil_iff]
      intro line _
      by_cases hline : assigned? line = some name
      · simp [hsurvives line hline, hdrop.1, hdrop.2]
      · simp [hline]
    · rename_i hkeep
      rw [linesFor]
      refine List.filter_congr fun line _ => ?_
      by_cases hline : assigned? line = some name
      · rw [hsurvives line hline, decide_eq_false hkeep, Bool.not_false, Bool.and_true]
      · simp [hline]

end Ophelia
