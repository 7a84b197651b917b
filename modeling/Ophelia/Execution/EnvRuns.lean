import Ophelia.Execution.EnvEdits

/-!
# Ophelia.Execution.EnvRuns

Runs of edits on the Caddy environment file. Between two edits anything on the host may
change except the file itself. An edit reads what the last one has written, so after each of
them the file is readable again (`Readable`), and the lines at the end follow from those at
the start and the edits alone.
-/

namespace Ophelia

open Program PyText

namespace Host

/-- The lines of an environment file; a missing file has none. -/
def envFileLines? : Option FileNode → Option (List (List Char))
  | none => some []
  | some (.regular content) => envLines? content
  | _ => none

end Host

/-- The file can be edited, and these are its lines. -/
structure Readable (node : Option FileNode) (lines : List (List Char)) : Prop where
  read : Host.envFileLines? node = some lines
  assignable : Assignable [] lines

theorem Readable.unique {node : Option FileNode} {lines lines' : List (List Char)}
    (h : Readable node lines) (h' : Readable node lines') : lines = lines' :=
  Option.some.inj (h.read.symm.trans h'.read)

theorem Readable.isLine {node : Option FileNode} {lines : List (List Char)}
    (h : Readable node lines) : ∀ l ∈ lines, IsLine l := by
  have hread := h.read
  rcases node with _ | (content | _ | target)
  · rw [← Option.some.inj hread]
    exact fun l hl => absurd hl List.not_mem_nil
  · exact Host.isLine_of_envLines? hread
  · exact absurd hread (by nofun)
  · exact absurd hread (by nofun)

/-- Lines just written. -/
theorem readable_encodeLines {lines : List (List Char)} (hlines : ∀ l ∈ lines, IsLine l)
    (h : Assignable [] lines) : Readable (some (.regular (Host.encodeLines lines))) lines :=
  ⟨Host.envLines?_encodeLines hlines, h⟩

/-! ### One edit -/

namespace Host

theorem effect_returned {f : Host → Host} {partly : Nat → Host → Host} {h h' : Host}
    (hrun : effect f partly h = (h', .returned ())) :
    ∃ tape, h' = f { h with tape := tape } := by
  obtain ⟨sitesRoot, sites, env, sharedCompose, scopes, fences, tape⟩ := h
  cases tape with
  | nil => exact ⟨[], (Prod.mk.inj hrun).1.symm⟩
  | cons m ms =>
      cases m with
      | proceeds => exact ⟨ms, (Prod.mk.inj hrun).1.symm⟩
      | fails => exact ⟨ms, (Prod.mk.inj hrun).1.symm⟩
      | breaks => exact ⟨ms, (Prod.mk.inj hrun).1.symm⟩
      | crashes => exact absurd (Prod.mk.inj hrun).2 (by nofun)
      | torn written => exact absurd (Prod.mk.inj hrun).2 (by nofun)

/-- An effect does not raise. -/
theorem effect_ne_raised {f : Host → Host} {partly : Nat → Host → Host} {h h' : Host}
    {e : ComposeFailure} : effect f partly h ≠ (h', .raised e) := by
  intro hrun
  obtain ⟨sitesRoot, sites, env, sharedCompose, scopes, fences, tape⟩ := h
  cases tape with
  | nil => exact absurd (Prod.mk.inj hrun).2 (by nofun)
  | cons m ms => cases m <;> exact absurd (Prod.mk.inj hrun).2 (by nofun)

theorem writePrivateEnv_returned {value : FileBytes} {h h' : Host}
    (hrun : writePrivateEnv value h = (h', .returned ())) : h'.env = some (.regular value) := by
  rw [writePrivateEnv, Program.get_bind_apply] at hrun
  rcases henv : h.env with _ | (content | _ | target) <;> simp only [henv] at hrun
  · obtain ⟨tape, rfl⟩ := effect_returned hrun
    rfl
  · obtain ⟨tape, rfl⟩ := effect_returned hrun
    rfl
  · exact absurd (Prod.mk.inj hrun).2 (by nofun)
  · exact absurd (Prod.mk.inj hrun).2 (by nofun)

/-- A refused write has not begun. -/
theorem writePrivateEnv_raised {value : FileBytes} {h h' : Host} {e : ComposeFailure}
    (hrun : writePrivateEnv value h = (h', .raised e)) : h'.env = h.env := by
  rw [writePrivateEnv, Program.get_bind_apply] at hrun
  rcases henv : h.env with _ | (content | _ | target) <;> simp only [henv] at hrun
  · exact absurd hrun effect_ne_raised
  · exact absurd hrun effect_ne_raised
  · rw [← (Prod.mk.inj hrun).1, henv]
  · rw [← (Prod.mk.inj hrun).1, henv]

theorem writePrivateEnv_returns {value : FileBytes} {h : Host} {lines : List (List Char)}
    (htape : h.tape = []) (henv : Readable h.env lines) :
    ∃ h', writePrivateEnv value h = (h', .returned ()) := by
  obtain ⟨sitesRoot, sites, env, sharedCompose, scopes, fences, tape⟩ := h
  obtain rfl : tape = [] := htape
  have hread := henv.read
  rcases env with _ | (content | _ | target)
  · exact ⟨_, rfl⟩
  · exact ⟨_, rfl⟩
  · exact absurd hread (by nofun)
  · exact absurd hread (by nofun)

end Host

/-- The lines outside the managed names. An update without values makes a missing or empty
file one blank line; otherwise they are what they were. -/
def OthersKept (blank : Prop) (lines lines' : List (List Char)) : Prop :=
  otherLines lines' = otherLines lines ∨ blank ∧ otherLines lines = [] ∧ otherLines lines' = [[]]

/-- What an update leaves. -/
structure Updated (updates : ManagedUpdates) (lines lines' : List (List Char)) : Prop where
  others : OthersKept (updates.table.rows = []) lines lines'
  entries name : linesFor name lines' =
    ((updates.value? name).map fun value => [assignment name value]).getD (linesFor name lines)

/-- What a prune leaves. -/
structure Pruned (active : List (List Char)) (lines lines' : List (List Char)) : Prop where
  others : otherLines lines' = otherLines lines
  entries name : linesFor name lines' =
    if ROUTE_AUTH_PREFIX.isPrefixOf name = true ∧ name ∉ active then [] else linesFor name lines

/-- The lines that an update writes. -/
theorem updatedEnv?_written (updates : ManagedUpdates) {lines : List (List Char)}
    (h : Assignable [] lines) (hlines : ∀ l ∈ lines, IsLine l) :
    ∃ output, updatedEnv? updates.table lines = some output ∧
      Readable (some (.regular (Host.encodeLines (writtenLines output)))) (writtenLines output) ∧
      Updated updates lines (writtenLines output) := by
  obtain ⟨output, houtput, hassignable, hothers, hentries⟩ := updatedEnv?_spec updates h
  have hisLine := isLine_of_mem_writtenLines
    (isLine_of_mem_updatedEnv? houtput updates.named hlines)
  refine ⟨output, houtput, ?_⟩
  by_cases hnil : output = []
  · -- nothing to write: no lines and no values
    subst hnil
    have hvalues : ∀ name, updates.value? name = none := by
      intro name
      have hentry := hentries name
      cases hvalue : updates.value? name with
      | none => rfl
      | some value =>
          rw [hvalue] at hentry
          exact absurd hentry (by simp [linesFor])
    have hrows : updates.table.rows = [] := by
      by_contra hne
      obtain ⟨p, rows, hrows⟩ := List.exists_cons_of_ne_nil hne
      have hp := hvalues p.1
      rw [ManagedUpdates.value?, hrows, List.lookup_cons] at hp
      simp at hp
    refine ⟨readable_encodeLines hisLine ⟨List.nodup_nil, fun _ h => absurd h List.not_mem_nil⟩,
      ⟨Or.inr ⟨hrows, hothers.symm, rfl⟩, fun name => ?_⟩⟩
    rw [← hentries name]
    rfl
  · have hwritten : writtenLines output = output := if_neg hnil
    rw [hwritten] at hisLine ⊢
    exact ⟨readable_encodeLines hisLine hassignable, ⟨Or.inl hothers, hentries⟩⟩

namespace Host

/-- An update that returns has read the file, and leaves it readable. -/
theorem updatePrivateEnv_returned {updates : ManagedUpdates} {h h' : Host}
    (hrun : updatePrivateEnv updates.table h = (h', .returned ())) :
    ∃ lines lines', Readable h.env lines ∧ Readable h'.env lines' ∧
      Updated updates lines lines' := by
  rw [updatePrivateEnv, Program.get_bind_apply] at hrun
  -- the write, whatever the lines come from
  have hwrite : ∀ lines (write : Proc Unit), (∀ l ∈ lines, IsLine l) →
      Host.envFileLines? h.env = some lines →
      (updatedEnv? updates.table lines = none → write = Program.raise envAssignmentError) →
      (∀ output, updatedEnv? updates.table lines = some output →
        write = writePrivateEnv (encodeLines (writtenLines output))) →
      write h = (h', .returned ()) →
      ∃ lines lines', Readable h.env lines ∧ Readable h'.env lines' ∧
        Updated updates lines lines' := by
    intro lines write hlines henv hnone hsome hrun
    by_cases hassignable : Assignable [] lines
    · obtain ⟨output, houtput, hreadable, hupdated⟩ :=
        updatedEnv?_written updates hassignable hlines
      rw [hsome output houtput] at hrun
      have hwritten := writePrivateEnv_returned hrun
      exact ⟨lines, writtenLines output, ⟨henv, hassignable⟩, hwritten ▸ hreadable, hupdated⟩
    · rw [hnone (by rw [updatedEnv?, updateLines_eq_none _ hassignable]; rfl)] at hrun
      cases (Prod.mk.inj hrun).2
  rcases henv : h.env with _ | (content | _ | target) <;> simp only [henv] at hrun hwrite ⊢
  · exact hwrite [] _ (fun l hl => absurd hl List.not_mem_nil) rfl (fun hnone => by rw [hnone])
      (fun output houtput => by rw [houtput]) hrun
  · cases hlines : envLines? content with
    | none =>
        rw [hlines] at hrun
        cases (Prod.mk.inj hrun).2
    | some existing =>
        simp only [hlines] at hrun
        exact hwrite existing _ (isLine_of_envLines? hlines) hlines
          (fun hnone => by rw [hnone]) (fun output houtput => by rw [houtput]) hrun
  · cases (Prod.mk.inj hrun).2
  · cases (Prod.mk.inj hrun).2

/-- An update that raises has written nothing. -/
theorem updatePrivateEnv_raised {updates : EnvUpdates} {h h' : Host} {e : ComposeFailure}
    (hrun : updatePrivateEnv updates h = (h', .raised e)) : h'.env = h.env := by
  rw [updatePrivateEnv, Program.get_bind_apply] at hrun
  -- the write, when the lines can be updated
  have hwrite : ∀ lines (write : Proc Unit),
      (updatedEnv? updates lines = none → write = Program.raise envAssignmentError) →
      (∀ output, updatedEnv? updates lines = some output →
        write = writePrivateEnv (encodeLines (writtenLines output))) →
      write h = (h', .raised e) → h'.env = h.env := by
    intro lines write hnone hsome hrun
    cases houtput : updatedEnv? updates lines with
    | none =>
        rw [hnone houtput] at hrun
        rw [← (Prod.mk.inj hrun).1]
    | some output =>
        rw [hsome output houtput] at hrun
        exact writePrivateEnv_raised hrun
  rcases henv : h.env with _ | (content | _ | target) <;> simp only [henv] at hrun hwrite
  · exact hwrite [] _ (fun hnone => by rw [hnone]) (fun output houtput => by rw [houtput]) hrun
  · cases hlines : envLines? content with
    | none =>
        rw [hlines] at hrun
        rw [← (Prod.mk.inj hrun).1, henv]
    | some existing =>
        simp only [hlines] at hrun
        exact hwrite existing _ (fun hnone => by rw [hnone]) (fun output houtput => by rw [houtput])
          hrun
  · rw [← (Prod.mk.inj hrun).1, henv]
  · rw [← (Prod.mk.inj hrun).1, henv]

/-- A file that assigns a name twice is refused as it is. -/
theorem updatePrivateEnv_twice {name : List Char} (hname : IsEnvName name) (value : String)
    (updates : EnvUpdates) {h : Host}
    (henv : h.env = some (.regular (encodeLines [assignment name value, assignment name value]))) :
    h.updatePrivateEnv updates = (h, .raised envAssignmentError) := by
  have hread : envLines? (encodeLines [assignment name value, assignment name value]) =
      some [assignment name value, assignment name value] := by
    refine envLines?_encodeLines fun l hl => ?_
    rcases List.mem_pair.mp hl with rfl | rfl <;> exact hname.isLine_assignment value
  -- the second assignment meets a name that is seen
  have hrefused : ¬ Assignable [] [assignment name value, assignment name value] := by
    rw [Assignable, assignedNames_cons_of_some (hname.assigned?_assignment value),
      assignedNames_cons_of_some (hname.assigned?_assignment value)]
    simp
  rw [updatePrivateEnv, Program.get_bind_apply]
  simp only [henv, hread, updatedEnv?, updateLines_eq_none _ hrefused, Option.map_none]
  rfl

theorem updatePrivateEnv_returns {h : Host} {lines : List (List Char)} (htape : h.tape = [])
    (henv : Readable h.env lines) (updates : ManagedUpdates) :
    ∃ h', updatePrivateEnv updates.table h = (h', .returned ()) := by
  rw [updatePrivateEnv, Program.get_bind_apply]
  obtain ⟨output, houtput, -⟩ := updatedEnv?_written updates henv.assignable henv.isLine
  have hread := henv.read
  rcases hcase : h.env with _ | (content | _ | target) <;> rw [hcase] at hread
  · obtain rfl := Option.some.inj hread
    simp only [houtput]
    exact writePrivateEnv_returns htape henv
  · have hlines : envLines? content = some lines := hread
    simp only [hlines, houtput]
    exact writePrivateEnv_returns htape henv
  · exact absurd hread (by nofun)
  · exact absurd hread (by nofun)

/-- A prune that returns has seen the sites and read the file, and leaves it readable. -/
theorem pruneRouteAuthEnv_returned {active : List (List Char)} {h h' : Host}
    (hactive : activeKeys h.siteFiles = .ok active)
    (hrun : pruneRouteAuthEnv h = (h', .returned ())) :
    ∃ lines lines', Readable h.env lines ∧ Readable h'.env lines' ∧ Pruned active lines lines' := by
  rw [pruneRouteAuthEnv, Program.get_bind_apply] at hrun
  split_ifs at hrun with hpath hsites
  · exact absurd (Prod.mk.inj hrun).2 (by nofun)
  · exact absurd (Prod.mk.inj hrun).2 (by nofun)
  rw [hactive, ofExcept_ok, ret_bind] at hrun
  rcases henv : h.env with _ | (content | _ | target) <;> simp only [henv] at hrun
  · -- no file, so no entries
    rw [← (Prod.mk.inj hrun).1, henv]
    refine ⟨[], [], ⟨rfl, ?_⟩, ⟨rfl, ?_⟩, ⟨rfl, fun name => ?_⟩⟩
    · exact ⟨List.nodup_nil, fun _ h => absurd h List.not_mem_nil⟩
    · exact ⟨List.nodup_nil, fun _ h => absurd h List.not_mem_nil⟩
    · split <;> rfl
  · cases hlines : envLines? content with
    | none =>
        rw [hlines] at hrun
        exact absurd (Prod.mk.inj hrun).2 (by nofun)
    | some original =>
        simp only [hlines] at hrun
        by_cases hassignable : Assignable [] original
        · obtain ⟨output, houtput, hkept, hothers, hentries⟩ := prunedEnv?_spec active hassignable
          simp only [houtput] at hrun
          refine ⟨original, output, ⟨hlines, hassignable⟩, ?_, ⟨hothers, hentries⟩⟩
          by_cases hsame : output = original
          · rw [when_of_not (not_not.mpr hsame)] at hrun
            rw [← (Prod.mk.inj hrun).1, henv, hsame]
            exact ⟨hlines, hassignable⟩
          · rw [when_of hsame] at hrun
            rw [writePrivateEnv_returned hrun]
            refine readable_encodeLines (fun l hl => ?_) hkept
            exact isLine_of_envLines? hlines l (mem_of_mem_prunedEnv? houtput hl)
        · rw [prunedEnv?_eq_none active hassignable] at hrun
          exact absurd (Prod.mk.inj hrun).2 (by nofun)
  · exact absurd rfl (not_or.mp (henv ▸ hpath)).2
  · exact absurd rfl (not_or.mp (henv ▸ hpath)).1

/-- A prune that raises has written nothing. -/
theorem pruneRouteAuthEnv_raised {h h' : Host} {e : ComposeFailure}
    (hrun : pruneRouteAuthEnv h = (h', .raised e)) : h'.env = h.env := by
  rw [pruneRouteAuthEnv, Program.get_bind_apply] at hrun
  split_ifs at hrun with hpath hsites
  · rw [← (Prod.mk.inj hrun).1]
  · rw [← (Prod.mk.inj hrun).1]
  cases hactive : activeKeys h.siteFiles with
  | error e' =>
      rw [hactive] at hrun
      rw [← (Prod.mk.inj hrun).1]
  | ok active =>
      rw [hactive, ofExcept_ok, ret_bind] at hrun
      rcases henv : h.env with _ | (content | _ | target) <;> simp only [henv] at hrun
      · exact absurd (Prod.mk.inj hrun).2 (by nofun)
      · cases hlines : envLines? content with
        | none =>
            rw [hlines] at hrun
            rw [← (Prod.mk.inj hrun).1, henv]
        | some original =>
            simp only [hlines] at hrun
            cases houtput : prunedEnv? active [] original with
            | none =>
                rw [houtput] at hrun
                rw [← (Prod.mk.inj hrun).1, henv]
            | some output =>
                simp only [houtput] at hrun
                by_cases hsame : output = original
                · rw [when_of_not (not_not.mpr hsame)] at hrun
                  exact absurd (Prod.mk.inj hrun).2 (by nofun)
                · rw [when_of hsame] at hrun
                  rw [writePrivateEnv_raised hrun, henv]
      · exact absurd (Prod.mk.inj hrun).2 (by nofun)
      · exact absurd (Prod.mk.inj hrun).2 (by nofun)

theorem pruneRouteAuthEnv_returns {active : List (List Char)} {h : Host}
    {lines : List (List Char)} (htape : h.tape = []) (henv : Readable h.env lines)
    (hsites : h.sitesRoot = .directory) (hactive : activeKeys h.siteFiles = .ok active) :
    ∃ h', pruneRouteAuthEnv h = (h', .returned ()) := by
  obtain ⟨output, houtput, -⟩ := prunedEnv?_spec active henv.assignable
  have hread := henv.read
  rw [pruneRouteAuthEnv, Program.get_bind_apply, if_neg, if_neg (not_not.mpr hsites), hactive,
    ofExcept_ok, ret_bind]
  · rcases hcase : h.env with _ | (content | _ | target) <;> rw [hcase] at hread
    · exact ⟨h, rfl⟩
    · have hlines : envLines? content = some lines := hread
      simp only [hlines, houtput]
      by_cases hsame : output = lines
      · rw [when_of_not (not_not.mpr hsame)]
        exact ⟨h, rfl⟩
      · rw [when_of hsame]
        exact writePrivateEnv_returns htape henv
    · exact absurd hread (by nofun)
    · exact absurd hread (by nofun)
  · rintro (hlink | hdirectory)
    · rcases hcase : h.env with _ | (content | _ | target) <;> rw [hcase] at hread hlink
      · exact absurd hlink (by nofun)
      · exact absurd hlink (by nofun)
      · exact absurd hread (by nofun)
      · exact absurd hread (by nofun)
    · rw [hdirectory] at hread
      exact absurd hread (by nofun)

end Host

/-! ### Runs -/

/-- An edit: the values of an update, or the references that a prune sees. -/
inductive EnvEdit where
  | update (updates : ManagedUpdates)
  | prune (active : List (List Char))

namespace EnvEdit

/-- An edit that returns, on the environment file of some host. -/
def Step (edit : EnvEdit) (node node' : Option FileNode) : Prop :=
  ∃ h h' : Host, h.env = node ∧ h'.env = node' ∧
    match edit with
    | .update updates => h.updatePrivateEnv updates.table = (h', .returned ())
    | .prune active =>
        Host.activeKeys h.siteFiles = .ok active ∧ h.pruneRouteAuthEnv = (h', .returned ())

/-- What an edit makes of the lines. -/
def Effect (edit : EnvEdit) (lines lines' : List (List Char)) : Prop :=
  match edit with
  | .update updates => Updated updates lines lines'
  | .prune active => Pruned active lines lines'

theorem lawful_latest : LawfulBEq (List Char) := inferInstance

attribute [local instance] lawful_latest in
/-- The latest value that the edits have left under a name, when any of them has set it. -/
def latest? (name : List Char) : List EnvEdit → Option String → Option String
  | [], value => value
  | .update updates :: edits, value => latest? name edits ((updates.value? name).or value)
  | .prune active :: edits, value => latest? name edits (if name ∈ active then value else none)

/-- Some update sets nothing. -/
def Idle (edits : List EnvEdit) : Prop :=
  ∃ updates : ManagedUpdates, .update updates ∈ edits ∧ updates.table.rows = []

end EnvEdit

/-- Edits that all return, one after the other. -/
inductive EnvRun : List EnvEdit → Option FileNode → Option FileNode → Prop
  | done (node) : EnvRun [] node node
  | step {edit edits node node₁ node₂} (hstep : EnvEdit.Step edit node node₁)
      (hrun : EnvRun edits node₁ node₂) : EnvRun (edit :: edits) node node₂

/-- One edit reads the file and leaves it readable. -/
theorem EnvEdit.Step.readable {edit : EnvEdit} {node node' : Option FileNode}
    (h : edit.Step node node') :
    ∃ lines lines', Readable node lines ∧ Readable node' lines' ∧ edit.Effect lines lines' := by
  obtain ⟨host, host', rfl, rfl, hrun⟩ := h
  cases edit with
  | update updates => exact Host.updatePrivateEnv_returned hrun
  | prune active => exact Host.pruneRouteAuthEnv_returned hrun.1 hrun.2

theorem EnvEdit.Effect.othersKept {edit : EnvEdit} {lines lines' : List (List Char)}
    (h : edit.Effect lines lines') : OthersKept (EnvEdit.Idle [edit]) lines lines' := by
  cases edit with
  | update updates =>
      exact (Updated.others h).imp_right fun hblank =>
        ⟨⟨updates, List.mem_singleton_self _, hblank.1⟩, hblank.2⟩
  | prune active => exact Or.inl (Pruned.others h)

theorem OthersKept.trans {p q r : Prop} {lines lines₁ lines₂ : List (List Char)}
    (h : OthersKept p lines lines₁) (h' : OthersKept q lines₁ lines₂) (hp : p → r) (hq : q → r) :
    OthersKept r lines lines₂ := by
  rcases h with h | ⟨hblank, hnone, hone⟩
  · rcases h' with h' | ⟨hblank', hnone', hone'⟩
    · exact Or.inl (h'.trans h)
    · exact Or.inr ⟨hq hblank', h ▸ hnone', hone'⟩
  · rcases h' with h' | ⟨-, hnone', -⟩
    · exact Or.inr ⟨hp hblank, hnone, h'.trans hone⟩
    · -- there is a blank line already
      exact absurd (hone.symm.trans hnone') (by simp)

/-- A value of a managed name on its one line; `none` says nothing. -/
def Carries (name : List Char) (value : Option String) (lines : List (List Char)) : Prop :=
  ∀ v ∈ value, linesFor name lines = [assignment name v]

theorem EnvEdit.Effect.carries {edit : EnvEdit} {lines lines' : List (List Char)}
    (h : edit.Effect lines lines') {name : List Char} {value : Option String}
    (hvalue : Carries name value lines) : Carries name (EnvEdit.latest? name [edit] value) lines' := by
  intro v hv
  cases edit with
  | update updates =>
      rw [h.entries name]
      cases hnew : updates.value? name with
      | none =>
          rw [latest?, hnew, Option.none_or] at hv
          exact hvalue v hv
      | some new =>
          rw [latest?, hnew, Option.some_or] at hv
          obtain rfl := Option.mem_some_iff.mp hv
          rfl
  | prune active =>
      rw [latest?] at hv
      rw [h.entries name]
      by_cases hactive : name ∈ active
      · rw [if_pos hactive] at hv
        rw [if_neg fun hdrop => hdrop.2 hactive]
        exact hvalue v hv
      · rw [if_neg hactive] at hv
        exact absurd hv (by simp [latest?])

/-- A run reads the file and leaves it readable: other lines are kept, and what was last
written under a name is on its one line. -/
theorem EnvRun.frame {edits : List EnvEdit} {node node' : Option FileNode}
    (hrun : EnvRun edits node node') {lines : List (List Char)} (hnode : Readable node lines) :
    ∃ lines', Readable node' lines' ∧ OthersKept (EnvEdit.Idle edits) lines lines' ∧
      ∀ name value, Carries name value lines → Carries name (EnvEdit.latest? name edits value) lines' := by
  induction hrun generalizing lines with
  | done node => exact ⟨lines, hnode, Or.inl rfl, fun name value h => h⟩
  | @step edit edits node node₁ node₂ hstep hrun ih =>
      obtain ⟨lines₀, lines₁, hread, hread₁, heffect⟩ := hstep.readable
      obtain rfl := hread.unique hnode
      obtain ⟨lines₂, hread₂, hothers, hentries⟩ := ih hread₁
      refine ⟨lines₂, hread₂, heffect.othersKept.trans hothers ?_ ?_, fun name value hvalue => ?_⟩
      · rintro ⟨updates, hmem, hrows⟩
        exact ⟨updates, List.mem_cons.mpr (Or.inl (List.mem_singleton.mp hmem)), hrows⟩
      · rintro ⟨updates, hmem, hrows⟩
        exact ⟨updates, List.mem_cons_of_mem _ hmem, hrows⟩
      · have hstepped := hentries name _ (heffect.carries hvalue)
        cases edit <;> exact hstepped

/-- An edit is refused before it writes, and goes through on a readable file. In a run of
edits with a prune at its end the lines outside the managed names are kept; each name
updated since it was last pruned has one line with its latest value; and of the managed names
those stay that were there before the prune and are referred to. -/
theorem envEdits_frame :
    (∀ (updates : EnvUpdates) (h h' : Host) e,
      h.updatePrivateEnv updates = (h', .raised e) → h'.env = h.env) ∧
    (∀ (h h' : Host) e, h.pruneRouteAuthEnv = (h', .raised e) → h'.env = h.env) ∧
    (∀ (updates : ManagedUpdates) (h : Host) lines, h.tape = [] → Readable h.env lines →
      ∃ h', h.updatePrivateEnv updates.table = (h', .returned ())) ∧
    (∀ (h : Host) lines active, h.tape = [] → Readable h.env lines → h.sitesRoot = .directory →
      Host.activeKeys h.siteFiles = .ok active → ∃ h', h.pruneRouteAuthEnv = (h', .returned ())) ∧
    ∀ edits node node₁ node₂ active, EnvRun edits node node₁ →
      EnvEdit.Step (.prune active) node₁ node₂ →
      ∃ lines lines₁ lines₂, Readable node lines ∧ Readable node₁ lines₁ ∧ Readable node₂ lines₂ ∧
        OthersKept (EnvEdit.Idle edits) lines lines₁ ∧ otherLines lines₂ = otherLines lines₁ ∧
        (∀ name value, EnvEdit.latest? name edits none = some value →
          linesFor name lines₁ = [assignment name value] ∧
          (name ∈ active → linesFor name lines₂ = [assignment name value])) ∧
        ∀ name, ROUTE_AUTH_PREFIX.isPrefixOf name = true →
          (linesFor name lines₂ ≠ [] ↔ name ∈ active ∧ linesFor name lines₁ ≠ []) := by
  refine ⟨fun _ _ _ _ h => Host.updatePrivateEnv_raised h,
    fun _ _ _ h => Host.pruneRouteAuthEnv_raised h,
    fun updates _ _ htape hread => Host.updatePrivateEnv_returns htape hread updates,
    fun _ _ _ htape hread hsites hactive =>
      Host.pruneRouteAuthEnv_returns htape hread hsites hactive, ?_⟩
  intro edits node node₁ node₂ active hrun hprune
  obtain ⟨lines, hread⟩ : ∃ lines, Readable node lines := by
    cases hrun with
    | done node =>
        obtain ⟨lines, -, hread, -⟩ := hprune.readable
        exact ⟨lines, hread⟩
    | step hstep hrun =>
        obtain ⟨lines, -, hread, -⟩ := hstep.readable
        exact ⟨lines, hread⟩
  obtain ⟨lines₁, hread₁, hothers, hentries⟩ := hrun.frame hread
  obtain ⟨lines', lines₂, hread', hread₂, heffect⟩ := hprune.readable
  obtain rfl := hread'.unique hread₁
  refine ⟨lines, lines', lines₂, hread, hread₁, hread₂, hothers, Pruned.others heffect, ?_, ?_⟩
  · intro name value hlatest
    have hline := hentries name none (fun v hv => absurd hv (by simp)) value hlatest
    refine ⟨hline, fun hactive => ?_⟩
    rw [heffect.entries name, if_neg fun hdrop => hdrop.2 hactive, hline]
  · intro name hfront
    rw [heffect.entries name]
    by_cases hactive : name ∈ active
    · rw [if_neg fun hdrop => hdrop.2 hactive]
      exact (and_iff_right hactive).symm
    · rw [if_pos ⟨hfront, hactive⟩]
      exact ⟨fun h => absurd rfl h, fun h => absurd h.1 hactive⟩

end Ophelia

namespace Ophelia.Reference

open PyText

/-- A new credential for the name of one site. -/
def lostUpdate : ManagedUpdates where
  table := ⟨[(lostName, apiSecret)], List.nodup_singleton _⟩
  managed := by decide
  named p hp := by
    rw [List.mem_singleton.mp hp]
    exact isEnvName_of_isWordChar (by decide) (List.all_eq_true.mp (by decide))

/-- A name that a site refers to and no route has been given a credential for. -/
def absentName : List Char :=
  ROUTE_AUTH_PREFIX ++ List.replicate 24 'B'

/-- A host with one site and an environment file. -/
def editedHost (env : Option FileNode) : Host :=
  { authHost absentName apiSecret with env := env }

theorem activeKeys_editedHost (env : Option FileNode) :
    Host.activeKeys (editedHost env).siteFiles = .ok [absentName] := by
  have hfiles : (editedHost env).siteFiles = [⟨"web-production.caddy", .regular (authSite absentName)⟩] := by
    rfl
  have hlength : ¬ (authSite absentName).length > Host.MAX_SITE_BYTES := by decide +kernel
  have hkeys : routeAuthKeys (String.ofList ('{' :: '$' :: absentName ++ ['}'])).toList = [absentName] := by
    decide +kernel
  have hdecode : decode? (authSite absentName) =
      some (String.ofList ('{' :: '$' :: absentName ++ ['}'])).toList := decode?_encode _
  rw [hfiles]
  simp only [Host.activeKeys, if_neg hlength, hdecode, hkeys]
  rfl

/-- The site refers to a name that the file does not give, and pruning does not add it; and a
file with a name assigned twice is refused. -/
theorem not_envEdits_frame :
    (∃ node₁ node₂ lines₂, EnvRun [.update lostUpdate] none node₁ ∧
      EnvEdit.Step (.prune [absentName]) node₁ node₂ ∧ Readable node₂ lines₂ ∧
      ROUTE_AUTH_PREFIX.isPrefixOf absentName = true ∧ linesFor absentName lines₂ = []) ∧
    ∀ h : Host, h.env = some (.regular (Host.encodeLines
        [assignment lostName apiSecret, assignment lostName apiSecret])) →
      h.updatePrivateEnv lostUpdate.table = (h, .raised Host.envAssignmentError) := by
  have hempty : Readable none [] := ⟨rfl, List.nodup_nil, fun _ h => absurd h List.not_mem_nil⟩
  constructor
  · obtain ⟨h₁, hrun₁⟩ := @Host.updatePrivateEnv_returns (editedHost none) [] rfl hempty lostUpdate
    obtain ⟨lines, lines₁, hread, hread₁, hupdated⟩ := Host.updatePrivateEnv_returned hrun₁
    obtain rfl := hread.unique hempty
    obtain ⟨h₂, hrun₂⟩ := @Host.pruneRouteAuthEnv_returns _ (editedHost h₁.env) lines₁ rfl hread₁ rfl
      (activeKeys_editedHost _)
    obtain ⟨lines', lines₂, hread', hread₂, hpruned⟩ :=
      Host.pruneRouteAuthEnv_returned (activeKeys_editedHost _) hrun₂
    obtain rfl := hread'.unique hread₁
    refine ⟨h₁.env, h₂.env, lines₂, .step ⟨_, _, rfl, rfl, hrun₁⟩ (.done _),
      ⟨editedHost h₁.env, h₂, rfl, rfl, activeKeys_editedHost _, hrun₂⟩, hread₂, by decide, ?_⟩
    have hvalue : lostUpdate.value? absentName = none := by decide
    rw [hpruned.entries absentName, hupdated.entries absentName, hvalue]
    split <;> rfl
  · have hname : IsEnvName lostName :=
      isEnvName_of_isWordChar (by decide) (List.all_eq_true.mp (by decide))
    exact fun h henv => Host.updatePrivateEnv_twice hname apiSecret _ henv

end Ophelia.Reference
