import Mathlib.Data.List.TakeWhile
import Ophelia.Lib.PyLines
import Ophelia.Lib.Table

/-!
# Ophelia.Execution.CaddyEnv

The text side of the shared Caddy environment file (`execution/compose_backend.py`):
assignments `NAME=value`, one a line, under names that the site files refer to. A deployment
updates the names of its routes, and an activation prunes the managed names that no site
refers to any more. Both walk the lines once and refuse a name that is assigned twice.

What is proved here is what each walk does to one entry: an update changes the updated
names only, a prune drops managed names without a reference only.
-/

namespace Ophelia

open PyText

/-! ### References -/

/-- The managed names start with this. -/
def ROUTE_AUTH_PREFIX : List Char := "OPHELIA_ROUTE_AUTH_".toList

/-- `[A-F0-9]`. -/
def isUpperHex (c : Char) : Bool :=
  c.isDigit || ('A' ≤ c && c ≤ 'F')

/-- `_ROUTE_AUTH_ENV` at the start of a text. -/
def routeAuthMatch? (cs : List Char) : Option (List Char) := do
  let rest ← Json.dropWord? ('{' :: '$' :: ROUTE_AUTH_PREFIX) cs
  let key := rest.take 24
  if key.length = 24 ∧ key.all isUpperHex = true ∧ (rest.drop 24).head? = some '}' then
    some (ROUTE_AUTH_PREFIX ++ key)
  else none

/-- `_ROUTE_AUTH_ENV.findall`. A match holds no second opening brace, so no two overlap. -/
def routeAuthKeys : List Char → List (List Char)
  | [] => []
  | c :: cs =>
      match routeAuthMatch? (c :: cs) with
      | some key => key :: routeAuthKeys cs
      | none => routeAuthKeys cs

/-! ### Assignments -/

/-- An authorization has the length and the characters that the plan and the backend ask for. -/
def isAuthorization (value : String) : Bool :=
  32 ≤ value.length && value.length ≤ 4096 &&
    value.toList.all fun c => c ≠ '\x00' && c ≠ '\r' && c ≠ '\n'

/-- The name a line assigns to; `none` for blanks, comments and what holds no `=`. -/
def assigned? (line : List Char) : Option (List Char) :=
  let stripped := strip line
  if stripped.isEmpty ∨ stripped.head? = some '#' ∨ '=' ∉ line then none
  else some (strip (before '=' line))

/-- The value on an assignment line. -/
def assignedValue (line : List Char) : List Char :=
  (line.dropWhile (· ≠ '=')).tail

/-- The entry of a name. -/
def entryFor? (lines : List (List Char)) (name : List Char) : Option (List Char) :=
  (lines.find? fun line => assigned? line = some name).map assignedValue

/-- `name + "=" + json.dumps(value)`. -/
def assignment (name : List Char) (value : String) : List Char :=
  name ++ '=' :: Json.stringText value

/-- A dictionary of new values, by name. -/
abbrev EnvUpdates := Table (Prod.fst : List Char × String → List Char)

/-- The loop of `_update_private_env`: the lines written so far come first, then what is
still pending; `none` for an invalid assignment. -/
def updateLines (seen : List (List Char)) (pending : List (List Char × String)) :
    List (List Char) → Option (List (List Char) × List (List Char × String))
  | [] => some ([], pending)
  | line :: lines =>
      match assigned? line with
      | none => (updateLines seen pending lines).map fun r => (line :: r.1, r.2)
      | some name =>
          if name.isEmpty ∨ name ∈ seen then none
          else
            match pending.lookup name with
            | some value =>
                (updateLines (name :: seen) (pending.filter fun p => p.1 ≠ name) lines).map
                  fun r => (assignment name value :: r.1, r.2)
            | none => (updateLines (name :: seen) pending lines).map fun r => (line :: r.1, r.2)

/-- The lines of `_update_private_env`. -/
def updatedEnv? (updates : EnvUpdates) (lines : List (List Char)) : Option (List (List Char)) :=
  (updateLines [] updates.rows lines).map fun r =>
    r.1 ++ (r.2.insertionSort fun a b => String.ofList a.1 ≤ String.ofList b.1).map
      fun p => assignment p.1 p.2

/-- What `"\n".join(output) + "\n"` reads back as: of no lines it is a blank one. -/
def writtenLines (output : List (List Char)) : List (List Char) :=
  if output = [] then [[]] else output

/-- The loop of `_prune_route_auth_env`. -/
def prunedEnv? (active : List (List Char)) (seen : List (List Char)) :
    List (List Char) → Option (List (List Char))
  | [] => some []
  | line :: lines =>
      match assigned? line with
      | none => (prunedEnv? active seen lines).map (line :: ·)
      | some name =>
          if name.isEmpty ∨ name ∈ seen then none
          else if ROUTE_AUTH_PREFIX.isPrefixOf name = true ∧ name ∉ active then
            prunedEnv? active (name :: seen) lines
          else (prunedEnv? active (name :: seen) lines).map (line :: ·)

/-! ### What a walk does to one entry -/

theorem entryFor?_cons_of_eq {line name : List Char} (h : assigned? line = some name)
    (lines : List (List Char)) : entryFor? (line :: lines) name = some (assignedValue line) := by
  rw [entryFor?, List.find?_cons_of_pos (by simpa using h)]
  rfl

theorem entryFor?_cons_of_ne {line name : List Char} (h : assigned? line ≠ some name)
    (lines : List (List Char)) : entryFor? (line :: lines) name = entryFor? lines name := by
  rw [entryFor?, List.find?_cons_of_neg (by simpa using h)]
  rfl

theorem entryFor?_append (lines lines' : List (List Char)) (name : List Char) :
    entryFor? (lines ++ lines') name = (entryFor? lines name).or (entryFor? lines' name) := by
  rw [entryFor?, entryFor?, entryFor?, List.find?_append, Option.map_or]

/-- A line that stays puts the same entry in front of both results. -/
theorem entryFor?_cons_congr {line name : List Char} {lines lines' : List (List Char)}
    (h : entryFor? lines name = entryFor? lines' name) :
    entryFor? (line :: lines) name = entryFor? (line :: lines') name := by
  by_cases hline : assigned? line = some name
  · rw [entryFor?_cons_of_eq hline, entryFor?_cons_of_eq hline]
  · rw [entryFor?_cons_of_ne hline, entryFor?_cons_of_ne hline, h]

/-- A prune keeps every entry that is unmanaged or referred to. -/
theorem entryFor?_prunedEnv? {active seen lines lines' : List (List Char)} {name : List Char}
    (h : prunedEnv? active seen lines = some lines')
    (hname : ROUTE_AUTH_PREFIX.isPrefixOf name = false ∨ name ∈ active) :
    entryFor? lines' name = entryFor? lines name := by
  induction lines generalizing seen lines' with
  | nil =>
      rw [prunedEnv?] at h
      rw [← Option.some.inj h]
  | cons line lines ih =>
      rw [prunedEnv?] at h
      cases hline : assigned? line with
      | none =>
          simp only [hline, Option.map_eq_some_iff] at h
          obtain ⟨rest, hrest, rfl⟩ := h
          exact entryFor?_cons_congr (ih hrest)
      | some other =>
          simp only [hline] at h
          split_ifs at h with hbad hdrop
          · -- the line goes: it assigns to another name
            have hne : assigned? line ≠ some name := by
              rw [hline]
              intro heq
              rw [Option.some.inj heq] at hdrop
              rcases hname with hname | hname
              · exact absurd hdrop.1 (by rw [hname]; decide)
              · exact hdrop.2 hname
            rw [entryFor?_cons_of_ne hne]
            exact ih h
          · rw [Option.map_eq_some_iff] at h
            obtain ⟨rest, hrest, rfl⟩ := h
            exact entryFor?_cons_congr (ih hrest)

/-- Every line that a prune leaves was there before. -/
theorem mem_of_mem_prunedEnv? {active seen lines lines' : List (List Char)}
    (h : prunedEnv? active seen lines = some lines') {l : List Char} (hl : l ∈ lines') :
    l ∈ lines := by
  induction lines generalizing seen lines' with
  | nil =>
      rw [prunedEnv?] at h
      rw [← Option.some.inj h] at hl
      exact hl
  | cons line lines ih =>
      rw [prunedEnv?] at h
      cases hline : assigned? line with
      | none =>
          simp only [hline, Option.map_eq_some_iff] at h
          obtain ⟨rest, hrest, rfl⟩ := h
          rcases List.mem_cons.mp hl with rfl | hl
          · exact List.mem_cons_self
          · exact List.mem_cons_of_mem _ (ih hrest hl)
      | some other =>
          simp only [hline] at h
          split_ifs at h with hbad hdrop
          · exact List.mem_cons_of_mem _ (ih h hl)
          · rw [Option.map_eq_some_iff] at h
            obtain ⟨rest, hrest, rfl⟩ := h
            rcases List.mem_cons.mp hl with rfl | hl
            · exact List.mem_cons_self
            · exact List.mem_cons_of_mem _ (ih hrest hl)

/-! ### Names -/

/-- A name that an assignment line can carry: no `=`, no blank or `#` at its ends. -/
structure IsEnvName (name : List Char) : Prop where
  ne_nil : name ≠ []
  noSpace : ∀ c ∈ name, isSpace c = false
  noEquals : '=' ∉ name
  noHash : '#' ∉ name

theorem strip_of_noSpace {cs : List Char} (h : ∀ c ∈ cs, isSpace c = false) : strip cs = cs := by
  have hdrop : ∀ ds : List Char, (∀ c ∈ ds, isSpace c = false) → ds.dropWhile isSpace = ds := by
    intro ds hds
    cases ds with
    | nil => rfl
    | cons d ds => rw [List.dropWhile_cons_of_neg (by simp [hds d List.mem_cons_self])]
  rw [strip, hdrop cs h, hdrop cs.reverse fun c hc => h c (List.mem_reverse.mp hc),
    List.reverse_reverse]

namespace IsEnvName

variable {name : List Char} (h : IsEnvName name)

include h

theorem isLine : IsLine name := by
  intro c hc
  by_contra hbreak
  rw [Bool.not_eq_false] at hbreak
  exact absurd (isSpace_of_isLineBreak hbreak) (by simp [h.noSpace c hc])

theorem isLine_assignment (value : String) : IsLine (assignment name value) := by
  intro c hc
  rw [assignment, List.mem_append, List.mem_cons] at hc
  rcases hc with hc | rfl | hc
  · exact h.isLine c hc
  · decide
  · exact Json.isLine_stringText value c hc

theorem before_assignment (value : String) : before '=' (assignment name value) = name := by
  have hall : ∀ c ∈ name, (c ≠ '=') = true := by
    intro c hc
    simp only [ne_eq, eq_iff_iff, iff_true]
    rintro rfl
    exact h.noEquals hc
  rw [before, assignment, List.takeWhile_append_of_pos (by simpa using hall)]
  simp

theorem assignedValue_assignment (value : String) :
    assignedValue (assignment name value) = Json.stringText value := by
  have hall : ∀ c ∈ name, c ≠ '=' := fun c hc heq => h.noEquals (heq ▸ hc)
  rw [assignedValue, assignment, List.dropWhile_append_of_pos (by simpa using hall)]
  simp

theorem assigned?_assignment (value : String) :
    assigned? (assignment name value) = some name := by
  obtain ⟨c, cs, rfl⟩ := List.exists_cons_of_ne_nil h.ne_nil
  have hspace : isSpace c = false := h.noSpace c List.mem_cons_self
  -- the first character survives the strip, so the line is neither blank nor a comment
  have hstrip : ∃ rest, strip (assignment (c :: cs) value) = c :: rest := by
    rw [strip, assignment, List.cons_append, List.dropWhile_cons_of_neg (by simp [hspace]),
      List.reverse_cons]
    by_cases hall : ∀ x ∈ (cs ++ '=' :: Json.stringText value).reverse, isSpace x = true
    · have heq := hall '=' (by simp)
      exact absurd heq (by decide)
    · push Not at hall
      obtain ⟨x, hx, hxs⟩ := hall
      refine ⟨((cs ++ '=' :: Json.stringText value).reverse.dropWhile isSpace).reverse, ?_⟩
      rw [List.dropWhile_append]
      have hne : ((cs ++ '=' :: Json.stringText value).reverse.dropWhile isSpace).isEmpty = false := by
        rw [List.isEmpty_eq_false_iff]
        intro hnil
        exact hxs (List.dropWhile_eq_nil_iff.mp hnil x hx)
      rw [hne]
      simp
  obtain ⟨rest, hrest⟩ := hstrip
  have hhash : c ≠ '#' := fun heq => h.noHash (heq ▸ List.mem_cons_self)
  rw [assigned?, hrest, h.before_assignment, strip_of_noSpace h.noSpace, if_neg]
  simp [hhash, assignment]

end IsEnvName

/-! ### Updates -/

theorem mem_of_lookup {pending : List (List Char × String)} {name : List Char} {value : String}
    (h : pending.lookup name = some value) : (name, value) ∈ pending := by
  obtain ⟨before, after, rfl, -⟩ := List.lookup_eq_some_iff.mp h
  exact List.mem_append_right _ List.mem_cons_self

theorem ne_of_lookup_none {pending : List (List Char × String)} {name : List Char}
    (h : pending.lookup name = none) {p : List Char × String} (hp : p ∈ pending) : p.1 ≠ name := by
  intro heq
  have hne := List.lookup_eq_none_iff.mp h p hp
  exact absurd heq.symm (by simpa using hne)

/-- An update leaves old lines and assignments of the updated names. -/
theorem mem_updateLines {seen : List (List Char)} {pending : List (List Char × String)}
    {lines out : List (List Char)} {left : List (List Char × String)}
    (h : updateLines seen pending lines = some (out, left)) :
    (∀ l ∈ out, l ∈ lines ∨ ∃ p ∈ pending, l = assignment p.1 p.2) ∧ ∀ p ∈ left, p ∈ pending := by
  induction lines generalizing seen pending out left with
  | nil =>
      rw [updateLines] at h
      obtain ⟨rfl, rfl⟩ := Prod.mk.inj (Option.some.inj h)
      exact ⟨fun l hl => absurd hl List.not_mem_nil, fun p hp => hp⟩
  | cons line lines ih =>
      rw [updateLines] at h
      -- a line that stays, in front of the rest
      have hstays : ∀ {seen' : List (List Char)},
          (updateLines seen' pending lines).map (fun r => (line :: r.1, r.2)) = some (out, left) →
          (∀ l ∈ out, l ∈ line :: lines ∨ ∃ p ∈ pending, l = assignment p.1 p.2) ∧
            ∀ p ∈ left, p ∈ pending := by
        intro seen' hmap
        obtain ⟨⟨out', left'⟩, hrun, heq⟩ := Option.map_eq_some_iff.mp hmap
        obtain ⟨rfl, rfl⟩ := Prod.mk.inj heq
        refine ⟨fun l hl => ?_, (ih hrun).2⟩
        rcases List.mem_cons.mp hl with rfl | hl
        · exact Or.inl List.mem_cons_self
        · exact ((ih hrun).1 l hl).imp_left (List.mem_cons_of_mem _)
      cases hline : assigned? line with
      | none =>
          rw [hline] at h
          exact hstays h
      | some other =>
          simp only [hline] at h
          split_ifs at h with hbad
          cases hlook : pending.lookup other with
          | none =>
              rw [hlook] at h
              exact hstays h
          | some value =>
              simp only [hlook] at h
              obtain ⟨⟨out', left'⟩, hrun, heq⟩ := Option.map_eq_some_iff.mp h
              obtain ⟨rfl, rfl⟩ := Prod.mk.inj heq
              refine ⟨fun l hl => ?_, fun p hp => (List.mem_filter.mp ((ih hrun).2 p hp)).1⟩
              rcases List.mem_cons.mp hl with rfl | hl
              · exact Or.inr ⟨(other, value), mem_of_lookup hlook, rfl⟩
              · rcases (ih hrun).1 l hl with hl | ⟨p, hp, rfl⟩
                · exact Or.inl (List.mem_cons_of_mem _ hl)
                · exact Or.inr ⟨p, (List.mem_filter.mp hp).1, rfl⟩

/-- An entry that is updated to the value it has already, or not at all, stays; and what is
still pending under its name had no entry. -/
theorem entryFor?_updateLines {seen : List (List Char)} {pending : List (List Char × String)}
    {lines out : List (List Char)} {left : List (List Char × String)} {name : List Char}
    (h : updateLines seen pending lines = some (out, left))
    (hnames : ∀ p ∈ pending, IsEnvName p.1)
    (hsame : ∀ p ∈ pending, p.1 = name → entryFor? lines name = some (Json.stringText p.2)) :
    entryFor? out name = entryFor? lines name ∧ ∀ p ∈ left, p.1 = name → entryFor? lines name = none := by
  induction lines generalizing seen pending out left with
  | nil =>
      rw [updateLines] at h
      obtain ⟨rfl, rfl⟩ := Prod.mk.inj (Option.some.inj h)
      exact ⟨rfl, fun _ _ _ => rfl⟩
  | cons line lines ih =>
      rw [updateLines] at h
      -- a line that stays: where it assigns to the name, the name is not pending
      have hstays : ∀ {seen' : List (List Char)},
          (assigned? line = some name → pending.lookup name = none) →
          (updateLines seen' pending lines).map (fun r => (line :: r.1, r.2)) = some (out, left) →
          entryFor? out name = entryFor? (line :: lines) name ∧
            ∀ p ∈ left, p.1 = name → entryFor? (line :: lines) name = none := by
        intro seen' hpending hmap
        obtain ⟨⟨out', left'⟩, hrun, heq⟩ := Option.map_eq_some_iff.mp hmap
        obtain ⟨rfl, rfl⟩ := Prod.mk.inj heq
        have hmoved : ∀ p ∈ pending, p.1 = name →
            entryFor? (line :: lines) name = entryFor? lines name := by
          intro p hp hname
          refine entryFor?_cons_of_ne (fun hassigned => ?_) lines
          exact ne_of_lookup_none (hpending hassigned) hp hname
        have hrest := ih hrun hnames fun p hp hname => by
          rw [← hmoved p hp hname]
          exact hsame p hp hname
        refine ⟨entryFor?_cons_congr hrest.1, fun p hp hname => ?_⟩
        rw [hmoved p ((mem_updateLines hrun).2 p hp) hname]
        exact hrest.2 p hp hname
      cases hline : assigned? line with
      | none =>
          rw [hline] at h
          exact hstays (fun hassigned => absurd (hline.symm.trans hassigned) (by simp)) h
      | some other =>
          simp only [hline] at h
          split_ifs at h with hbad
          cases hlook : pending.lookup other with
          | none =>
              rw [hlook] at h
              refine hstays (fun hassigned => ?_) h
              rw [← Option.some.inj (hline.symm.trans hassigned)]
              exact hlook
          | some value =>
              simp only [hlook] at h
              obtain ⟨⟨out', left'⟩, hrun, heq⟩ := Option.map_eq_some_iff.mp h
              obtain ⟨rfl, rfl⟩ := Prod.mk.inj heq
              have hmem := mem_of_lookup hlook
              have hassigned := (hnames _ hmem).assigned?_assignment value
              by_cases hname : other = name
              · subst hname
                refine ⟨?_, fun p hp hpn => ?_⟩
                · rw [entryFor?_cons_of_eq hassigned, (hnames _ hmem).assignedValue_assignment value]
                  exact (hsame _ hmem rfl).symm
                · have hfiltered := (List.mem_filter.mp ((mem_updateLines hrun).2 p hp)).2
                  exact absurd hpn (by simpa using hfiltered)
              · have hne : ∀ l, assigned? l = some other → assigned? l ≠ some name := by
                  intro l hl heq
                  exact hname (Option.some.inj (hl.symm.trans heq))
                have hsame' : ∀ p ∈ pending.filter (fun p => p.1 ≠ other), p.1 = name →
                    entryFor? lines name = some (Json.stringText p.2) := by
                  intro p hp hpn
                  rw [← entryFor?_cons_of_ne (hne line hline) lines]
                  exact hsame p (List.mem_filter.mp hp).1 hpn
                have hrest := ih hrun (fun p hp => hnames p (List.mem_filter.mp hp).1) hsame'
                rw [entryFor?_cons_of_ne (hne _ hassigned), entryFor?_cons_of_ne (hne line hline)]
                exact hrest

/-- An update that gives a name the value it has already, or leaves it out, keeps its entry. -/
theorem entryFor?_updatedEnv? {updates : EnvUpdates} {lines output : List (List Char)}
    {name : List Char} (h : updatedEnv? updates lines = some output)
    (hnames : ∀ p ∈ updates.rows, IsEnvName p.1)
    (hsame : ∀ p ∈ updates.rows, p.1 = name → entryFor? lines name = some (Json.stringText p.2)) :
    entryFor? output name = entryFor? lines name := by
  obtain ⟨⟨out, left⟩, hrun, rfl⟩ := Option.map_eq_some_iff.mp h
  obtain ⟨hout, hleft⟩ := entryFor?_updateLines hrun hnames hsame
  have hmem := (mem_updateLines hrun).2
  rw [entryFor?_append, hout]
  -- what is appended assigns to other names
  have hrest : entryFor? ((left.insertionSort fun a b => String.ofList a.1 ≤ String.ofList b.1).map
      fun p => assignment p.1 p.2) name = none := by
    rw [entryFor?, Option.map_eq_none_iff, List.find?_eq_none]
    intro l hl
    obtain ⟨p, hp, rfl⟩ := List.mem_map.mp hl
    rw [List.mem_insertionSort] at hp
    rw [(hnames p (hmem p hp)).assigned?_assignment]
    intro heq
    have hname : p.1 = name := by simpa using heq
    have hnone := hleft p hp hname
    rw [hsame p (hmem p hp) hname] at hnone
    exact absurd hnone (by simp)
  rw [hrest, Option.or_none]

/-- A blank line holds no entry. -/
theorem entryFor?_writtenLines (output : List (List Char)) (name : List Char) :
    entryFor? (writtenLines output) name = entryFor? output name := by
  rw [writtenLines]
  split
  · rename_i houtput
    rw [houtput]
    rfl
  · rfl

theorem isLine_of_mem_writtenLines {output : List (List Char)} (h : ∀ l ∈ output, IsLine l) :
    ∀ l ∈ writtenLines output, IsLine l := by
  rw [writtenLines]
  split
  · intro l hl
    rw [List.mem_singleton.mp hl]
    exact fun c hc => absurd hc List.not_mem_nil
  · exact h

/-- Every line of an update is one line. -/
theorem isLine_of_mem_updatedEnv? {updates : EnvUpdates} {lines output : List (List Char)}
    (h : updatedEnv? updates lines = some output) (hnames : ∀ p ∈ updates.rows, IsEnvName p.1)
    (hlines : ∀ l ∈ lines, IsLine l) : ∀ l ∈ output, IsLine l := by
  obtain ⟨⟨out, left⟩, hrun, rfl⟩ := Option.map_eq_some_iff.mp h
  obtain ⟨hout, hleft⟩ := mem_updateLines hrun
  intro l hl
  rcases List.mem_append.mp hl with hl | hl
  · rcases hout l hl with hl | ⟨p, hp, rfl⟩
    · exact hlines l hl
    · exact (hnames p hp).isLine_assignment p.2
  · obtain ⟨p, hp, rfl⟩ := List.mem_map.mp hl
    rw [List.mem_insertionSort] at hp
    exact (hnames p (hleft p hp)).isLine_assignment p.2

end Ophelia
