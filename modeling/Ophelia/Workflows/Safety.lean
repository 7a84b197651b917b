import Ophelia.Workflows.Graph

/-!
# Ophelia.Workflows.Safety

What holds over every sequence of calls on a workflow. One round of the loop is described once
(`Visit`); everything else is read off that description.

A call writes the statuses of all nodes back, also when it was refused before the first of
them. A run of a cancelled or paused workflow therefore loses the status that refused it, and
so does the success of a node that a later run passes over. `Workflow.Careful` says when a
call does not get into this.
-/

namespace Ophelia

/-! ### One round of the loop -/

/-- What a round makes of the node `raw`: the node that is appended, the status its dependents
see, the issues it adds and the command it runs. -/
inductive Visit (inputs : RunInputs) (resume : Bool) (st : WorkflowPass) (raw : WorkflowNode) :
    WorkflowNode → NodeStatus → List Issue → Option Execution → Prop
  /-- The run is blocked already. -/
  | halted {node : WorkflowNode} (blocked : st.blockers ≠ []) (status : node.status = some .skipped) :
      Visit inputs resume st raw node .skipped [] none
  | succeeded {node : WorkflowNode} (clear : st.blockers = []) (resumed : resume = true)
      (before : raw.status = some .succeeded) (status : node.status = some .succeeded) :
      Visit inputs resume st raw node .succeeded [] none
  | cancelled {node : WorkflowNode} (clear : st.blockers = []) (resumed : resume = true)
      (before : raw.status = some .cancelled) (status : node.status = some .cancelled) :
      Visit inputs resume st raw node .skipped [] none
  /-- A dependency has not succeeded. -/
  | unmet {node : WorkflowNode} {dependency : String} (clear : st.blockers = [])
      (unsettled : resume = true → raw.status ≠ some .succeeded ∧ raw.status ≠ some .cancelled)
      (depends : dependency ∈ raw.dependsOn)
      (missing : st.statusById.lookup dependency ≠ some .succeeded)
      (status : node.status = some .skipped) : Visit inputs resume st raw node .skipped [] none
  /-- A gate or the preflight refuses the node. -/
  | refused {node : WorkflowNode} {status : NodeStatus} {issues : List Issue}
      (clear : st.blockers = [])
      (unsettled : resume = true → raw.status ≠ some .succeeded ∧ raw.status ≠ some .cancelled)
      (satisfied : ∀ d ∈ raw.dependsOn, st.statusById.lookup d = some .succeeded)
      (issues_ne : issues ≠ []) (status_ne : status ≠ .succeeded)
      (status_eq : node.status = some status) :
      Visit inputs resume st raw node status issues none
  | executed {node : WorkflowNode} {executable : List String} (clear : st.blockers = [])
      (unsettled : resume = true → raw.status ≠ some .succeeded ∧ raw.status ≠ some .cancelled)
      (satisfied : ∀ d ∈ raw.dependsOn, st.statusById.lookup d = some .succeeded)
      (gates : raw.mutatesState = true → (inputs.policy st.nodes.length).ok = true ∧
        (inputs.confirmations.lookup (raw.idAt st.nodes.length)).isSome = true)
      (status : node.status = some ((inputs.runner st.nodes.length).nodeOutcome raw
        (raw.idAt st.nodes.length) inputs.timeoutSeconds).1) :
      Visit inputs resume st raw node
        ((inputs.runner st.nodes.length).nodeOutcome raw (raw.idAt st.nodes.length)
          inputs.timeoutSeconds).1
        ((inputs.runner st.nodes.length).nodeOutcome raw (raw.idAt st.nodes.length)
          inputs.timeoutSeconds).2
        (some { position := st.nodes.length, nodeId := raw.idAt st.nodes.length,
                node := { raw with id := some (raw.idAt st.nodes.length) }, before := st.nodes,
                confirmed :=
                  (inputs.confirmations.lookup (raw.idAt st.nodes.length)).isSome,
                policyOk := (inputs.policy st.nodes.length).ok, executable,
                result := inputs.runner st.nodes.length })

/-- The identifier of the node does not enter the outcome of its command. -/
theorem CommandResult.nodeOutcome_withId (r : CommandResult) (node : WorkflowNode)
    (id : Option String) (nodeId timeoutSeconds : String) :
    r.nodeOutcome { node with id } nodeId timeoutSeconds = r.nodeOutcome node nodeId timeoutSeconds := by
  cases r <;> rfl

theorem preflightNodeCommand_error {node : WorkflowNode} {nodeId : String}
    {substitutions : List (String × String)} {localShip : Option String} {issues : List Issue}
    (h : preflightNodeCommand node nodeId substitutions localShip = .error issues) :
    issues ≠ [] := by
  unfold preflightNodeCommand at h
  repeat' split at h
  all_goals cases h <;> simp

namespace WorkflowPass

variable {inputs : RunInputs} {resume : Bool} {st : WorkflowPass} {raw : WorkflowNode}

/-- A round appends one node, under the identifier of its position. -/
theorem visit_eq (inputs : RunInputs) (resume : Bool) (st : WorkflowPass) (raw : WorkflowNode) :
    ∃ node seen issues execution,
      st.visit inputs resume raw =
        st.record node (raw.idAt st.nodes.length) seen issues execution ∧
      node.id = some (raw.idAt st.nodes.length) ∧ node.dependsOn = raw.dependsOn ∧
      Visit inputs resume st raw node seen issues execution := by
  unfold WorkflowPass.visit
  dsimp only
  split
  · rename_i hblocked
    exact ⟨_, _, _, _, rfl, rfl, rfl, .halted hblocked rfl⟩
  rename_i hclear
  have hclear : st.blockers = [] := not_not.mp hclear
  split
  · rename_i hkept
    exact ⟨_, _, _, _, rfl, rfl, rfl, .succeeded hclear hkept.1 hkept.2 hkept.2⟩
  rename_i hsucceeded
  split
  · rename_i hkept
    exact ⟨_, _, _, _, rfl, rfl, rfl, .cancelled hclear hkept.1 hkept.2 hkept.2⟩
  rename_i hcancelled
  have hunsettled : resume = true →
      raw.status ≠ some .succeeded ∧ raw.status ≠ some .cancelled :=
    fun hresume => ⟨fun h => hsucceeded ⟨hresume, h⟩, fun h => hcancelled ⟨hresume, h⟩⟩
  split
  · rename_i hfailed
    obtain ⟨dependency, hmem⟩ := List.exists_mem_of_ne_nil _ hfailed
    simp only [failedDependencies, List.mem_filter, decide_eq_true_eq] at hmem
    exact ⟨_, _, _, _, rfl, rfl, rfl, .unmet hclear hunsettled hmem.1 hmem.2 rfl⟩
  rename_i hsatisfied
  have hsatisfied : ∀ d ∈ raw.dependsOn, st.statusById.lookup d = some .succeeded := by
    simpa [failedDependencies, List.filter_eq_nil_iff] using not_not.mp hsatisfied
  unfold WorkflowPass.attempt
  dsimp only
  split
  · refine ⟨_, _, _, _, rfl, rfl, rfl, .refused hclear hunsettled hsatisfied ?_ (by simp) rfl⟩
    split <;> simp_all
  rename_i hpolicy
  split
  · exact ⟨_, _, _, _, rfl, rfl, rfl, .refused hclear hunsettled hsatisfied (by simp) (by simp) rfl⟩
  rename_i hconfirmed
  unfold WorkflowPass.execute
  dsimp only
  split
  · rename_i issues hpreflight
    exact ⟨_, _, _, _, rfl, rfl, rfl,
      .refused hclear hunsettled hsatisfied (preflightNodeCommand_error hpreflight) (by simp) rfl⟩
  · rename_i executable hpreflight
    refine ⟨_, _, _, _, rfl, rfl, rfl, ?_⟩
    rw [CommandResult.nodeOutcome_withId]
    refine .executed hclear hunsettled hsatisfied ?_ rfl
    intro hmutates
    refine ⟨?_, ?_⟩
    · by_contra hnot
      exact hpolicy ⟨hmutates, hnot⟩
    · rw [Option.isSome_iff_ne_none]
      exact fun hnone => hconfirmed ⟨hmutates, hnone⟩

/-- Issues are only added. -/
theorem clear_of_visit (h : (st.visit inputs resume raw).blockers = []) : st.blockers = [] := by
  obtain ⟨node, seen, issues, execution, heq, -⟩ := visit_eq inputs resume st raw
  rw [heq] at h
  exact (List.append_eq_nil_iff.mp h).1

/-! ### The loop -/

/-- The loop over a list of nodes. -/
def walk (inputs : RunInputs) (resume : Bool) (nodes : List WorkflowNode) (st : WorkflowPass) :
    WorkflowPass :=
  nodes.foldl (visit inputs resume) st

theorem walk_append (front back : List WorkflowNode) (st : WorkflowPass) :
    walk inputs resume (front ++ back) st = walk inputs resume back (walk inputs resume front st) :=
  List.foldl_append

theorem clear_of_walk {nodes : List WorkflowNode} (h : (walk inputs resume nodes st).blockers = []) :
    st.blockers = [] := by
  induction nodes generalizing st with
  | nil => exact h
  | cons raw nodes ih => exact clear_of_visit (ih h)

/-- The loop appends one node for each that it visits. -/
theorem nodes_walk (inputs : RunInputs) (resume : Bool) (nodes : List WorkflowNode)
    (st : WorkflowPass) :
    ∃ out, (walk inputs resume nodes st).nodes = st.nodes ++ out ∧ out.length = nodes.length := by
  induction nodes generalizing st with
  | nil => exact ⟨[], by simp [walk], rfl⟩
  | cons raw nodes ih =>
      obtain ⟨node, seen, issues, execution, heq, -⟩ := visit_eq inputs resume st raw
      obtain ⟨out, hout, hlength⟩ := ih (st.visit inputs resume raw)
      refine ⟨node :: out, ?_, by simp [hlength]⟩
      change (walk inputs resume nodes (st.visit inputs resume raw)).nodes = _
      rw [hout, heq]
      simp [record]

theorem length_nodes_walk (inputs : RunInputs) (resume : Bool) (nodes : List WorkflowNode)
    (st : WorkflowPass) :
    (walk inputs resume nodes st).nodes.length = st.nodes.length + nodes.length := by
  obtain ⟨out, hout, hlength⟩ := nodes_walk inputs resume nodes st
  rw [hout, List.length_append, hlength]

/-- A command is run in the round of its own node. -/
theorem mem_executions_walk {nodes : List WorkflowNode} {e : Execution}
    (h : e ∈ (walk inputs resume nodes st).executions) :
    e ∈ st.executions ∨ ∃ front raw back node seen issues, nodes = front ++ raw :: back ∧
      (walk inputs resume front st).visit inputs resume raw =
        (walk inputs resume front st).record node
          (raw.idAt (walk inputs resume front st).nodes.length) seen issues (some e) ∧
      node.id = some (raw.idAt (walk inputs resume front st).nodes.length) ∧
      Visit inputs resume (walk inputs resume front st) raw node seen issues (some e) := by
  induction nodes generalizing st with
  | nil => exact .inl h
  | cons raw nodes ih =>
      rcases ih h with hfirst | ⟨front, raw', back, node, seen, issues, rfl, hrest⟩
      · obtain ⟨node, seen, issues, execution, heq, hid, -, hvisit⟩ :=
          visit_eq inputs resume st raw
        rw [heq, record] at hfirst
        rcases List.mem_append.mp hfirst with hbefore | hnew
        · exact .inl hbefore
        · obtain rfl := Option.mem_toList.mp hnew
          exact .inr ⟨[], raw, nodes, node, seen, issues, rfl, heq, hid, hvisit⟩
      · exact .inr ⟨raw :: front, raw', back, node, seen, issues, rfl, hrest⟩

/-! ### Dependencies and gates -/

end WorkflowPass

/-- The last node with an identifier has succeeded. -/
def LastSucceeded (nodes : List WorkflowNode) (nodeId : String) : Prop :=
  ∃ node, nodes.reverse.find? (fun n => n.id = some nodeId) = some node ∧
    node.status = some .succeeded

/-- All nodes that the node of an execution depends on had succeeded by then, and a mutating
node had its confirmation and passed its policy check. -/
def Execution.Justified (e : Execution) : Prop :=
  (∀ d ∈ e.node.dependsOn, LastSucceeded e.before d) ∧
    (e.node.mutatesState = true → e.confirmed = true ∧ e.policyOk = true)

namespace WorkflowPass

variable {inputs : RunInputs} {resume : Bool} {st : WorkflowPass} {raw : WorkflowNode}

/-- The statuses that dependents see are those of the nodes. -/
def Agrees (st : WorkflowPass) : Prop :=
  ∀ nodeId, st.statusById.lookup nodeId = some .succeeded → LastSucceeded st.nodes nodeId

theorem Agrees.record {node : WorkflowNode} {nodeId : String} {seen : NodeStatus}
    {issues : List Issue} {execution : Option Execution} (h : st.Agrees)
    (hid : node.id = some nodeId) (hseen : seen = .succeeded → node.status = some .succeeded) :
    (st.record node nodeId seen issues execution).Agrees := by
  intro nodeId' hlookup
  simp only [WorkflowPass.record, List.lookup_cons] at hlookup
  simp only [LastSucceeded, WorkflowPass.record, List.reverse_append, List.reverse_singleton,
    List.singleton_append, List.find?_cons]
  by_cases hown : nodeId' = nodeId
  · subst hown
    simp only [BEq.rfl, Option.some.injEq] at hlookup
    exact ⟨node, by simp [hid], hseen hlookup⟩
  · rw [beq_false_of_ne hown] at hlookup
    obtain ⟨node', hfind, hstatus⟩ := h nodeId' hlookup
    refine ⟨node', ?_, hstatus⟩
    have hne : decide (node.id = some nodeId') = false := by
      simp [hid, Ne.symm hown]
    rw [hne]
    exact hfind

theorem Agrees.visit (h : st.Agrees) : (st.visit inputs resume raw).Agrees := by
  obtain ⟨node, seen, issues, execution, heq, hid, -, hvisit⟩ := visit_eq inputs resume st raw
  rw [heq]
  refine h.record hid fun hseen => ?_
  cases hvisit with
  | halted => cases hseen
  | succeeded clear resumed before status => exact status
  | cancelled => cases hseen
  | unmet => cases hseen
  | refused clear unsettled satisfied issues_ne status_ne => exact absurd hseen status_ne
  | executed clear unsettled satisfied gates status => rw [status, hseen]

theorem Agrees.walk (h : st.Agrees) (inputs : RunInputs) (resume : Bool)
    (nodes : List WorkflowNode) : (walk inputs resume nodes st).Agrees := by
  induction nodes generalizing st with
  | nil => exact h
  | cons raw nodes ih => exact ih h.visit

theorem agrees_start (blockers : List Issue) : (start blockers).Agrees := by
  intro nodeId h
  cases h

end WorkflowPass

theorem runNodes_eq (inputs : RunInputs) (resume : Bool) (g : WorkflowGraph) :
    runNodes inputs resume g =
      .walk inputs resume g.nodes (.start (runBlockers g resume)) := rfl

/-- Every command that a call runs is justified. -/
theorem justified_of_mem {inputs : RunInputs} {resume : Bool} {g : WorkflowGraph} {e : Execution}
    (h : e ∈ (runNodes inputs resume g).executions) : e.Justified := by
  rcases WorkflowPass.mem_executions_walk h with hstart | ⟨front, raw, back, node, seen, issues,
    -, -, -, hvisit⟩
  · cases hstart
  · have hagrees := (WorkflowPass.agrees_start (runBlockers g resume)).walk inputs resume front
    cases hvisit with
    | executed clear unsettled satisfied gates status =>
        refine ⟨fun d hd => hagrees d (satisfied d hd), fun hmutates => ?_⟩
        exact ⟨(gates hmutates).2, (gates hmutates).1⟩

/-! ### What a resumed run passes over -/

/-- What dependents see of a node that a resumed run passes over. -/
def WorkflowNode.seen (node : WorkflowNode) : NodeStatus :=
  if node.status = some .succeeded then .succeeded else .skipped

/-- A resumed run passes over the nodes without a command and without an issue. -/
def Quiet : List (String × NodeStatus) → Nat → List WorkflowNode → Prop
  | _, _, [] => True
  | statusById, position, node :: nodes =>
      (node.status = some .succeeded ∨ node.status = some .cancelled ∨
        ∃ d ∈ node.dependsOn, statusById.lookup d ≠ some .succeeded) ∧
      Quiet ((node.idAt position, node.seen) :: statusById) (position + 1) nodes

/-- The result of a command decides its node, unless blockers of an earlier run stand in. -/
theorem CommandResult.nodeOutcome_of_success {r : CommandResult} {node : WorkflowNode}
    (h : r.success = true) (nodeId timeoutSeconds : String)
    (hfresh : node.blockers.getD [] ≠ [] → ∀ returncode output,
      r = .completed returncode output → output.blockers.isSome = true) :
    r.nodeOutcome node nodeId timeoutSeconds = (.succeeded, []) := by
  cases r with
  | timeoutExpired => cases h
  | fileNotFound => cases h
  | raised errorType => cases h
  | completed returncode output =>
      simp only [CommandResult.success, decide_eq_true_eq] at h
      obtain ⟨rfl, hstatus, hblockers⟩ := h
      have hnone : (output.blockers.orElse fun _ => node.blockers).getD [] = [] := by
        cases houtput : output.blockers with
        | some issues => simpa [houtput] using hblockers
        | none =>
            by_contra hstale
            have hsome := hfresh (by simpa [houtput] using hstale) _ _ rfl
            simp [houtput] at hsome
      unfold CommandResult.nodeOutcome completedNode
      dsimp only
      rw [hnone]
      simp [hstatus]

/-- A command leaves its node without issues only when it has succeeded. -/
theorem CommandResult.nodeOutcome_succeeded {r : CommandResult} {node : WorkflowNode}
    {nodeId timeoutSeconds : String} (h : (r.nodeOutcome node nodeId timeoutSeconds).2 = []) :
    (r.nodeOutcome node nodeId timeoutSeconds).1 = .succeeded := by
  cases r with
  | timeoutExpired => cases h
  | fileNotFound => cases h
  | raised errorType => cases h
  | completed returncode output =>
      unfold CommandResult.nodeOutcome completedNode at h ⊢
      dsimp only at h ⊢
      split
      · rename_i hcode
        rw [if_pos hcode] at h
        cases h
      · rename_i hcode
        rw [if_neg hcode] at h
        split
        · rename_i hrefused
          rw [if_pos hrefused] at h
          dsimp only at h
          split at h
          · rename_i hissues
            exact absurd h hissues
          · cases h
        · rfl

namespace WorkflowPass

variable {inputs : RunInputs} {resume : Bool} {st : WorkflowPass} {raw : WorkflowNode}

/-- A round without an issue leaves a node that a resumed run will pass over. -/
theorem quiet_of_visit {node : WorkflowNode} {seen : NodeStatus} {issues : List Issue}
    {execution : Option Execution} (h : Visit inputs resume st raw node seen issues execution)
    (hdepends : node.dependsOn = raw.dependsOn) (hst : st.blockers = []) (hissues : issues = []) :
    seen = node.seen ∧ (node.status = some .succeeded ∨ node.status = some .cancelled ∨
      ∃ d ∈ node.dependsOn, st.statusById.lookup d ≠ some .succeeded) := by
  cases h with
  | halted blocked => exact absurd hst blocked
  | succeeded clear resumed before status =>
      exact ⟨by simp [WorkflowNode.seen, status], .inl status⟩
  | cancelled clear resumed before status =>
      exact ⟨by simp [WorkflowNode.seen, status], .inr (.inl status)⟩
  | unmet clear unsettled depends missing status =>
      exact ⟨by simp [WorkflowNode.seen, status], .inr (.inr ⟨_, hdepends ▸ depends, missing⟩)⟩
  | refused clear unsettled satisfied issues_ne => exact absurd hissues issues_ne
  | executed clear unsettled satisfied gates status =>
      have hdone := CommandResult.nodeOutcome_succeeded hissues
      rw [hdone] at status
      exact ⟨by simp [WorkflowNode.seen, status, hdone], .inl status⟩

theorem quiet_of_walk (inputs : RunInputs) (resume : Bool) (nodes : List WorkflowNode)
    (st : WorkflowPass) (hend : (walk inputs resume nodes st).blockers = []) :
    ∃ out, (walk inputs resume nodes st).nodes = st.nodes ++ out ∧
      Quiet st.statusById st.nodes.length out := by
  induction nodes generalizing st with
  | nil => exact ⟨[], by simp [walk], trivial⟩
  | cons raw nodes ih =>
      have hnext : (st.visit inputs resume raw).blockers = [] := clear_of_walk hend
      have hst := clear_of_visit hnext
      obtain ⟨node, seen, issues, execution, heq, hid, hdepends, hvisit⟩ :=
        visit_eq inputs resume st raw
      obtain ⟨out, hout, hquiet⟩ := ih (st.visit inputs resume raw) hend
      have hissues : issues = [] := by
        rw [heq] at hnext
        exact (List.append_eq_nil_iff.mp hnext).2
      obtain ⟨hseen, hnode⟩ := quiet_of_visit hvisit hdepends hst hissues
      refine ⟨node :: out, ?_, hnode, ?_⟩
      · change (walk inputs resume nodes (st.visit inputs resume raw)).nodes = _
        rw [hout, heq]
        simp [record]
      · rw [heq] at hquiet
        simpa [record, WorkflowNode.idAt, hid, hseen] using hquiet

/-- A resumed run passes over quiet nodes. -/
theorem walk_of_quiet (inputs : RunInputs) (st : WorkflowPass) {nodes : List WorkflowNode}
    (hquiet : Quiet st.statusById st.nodes.length nodes) (hst : st.blockers = []) :
    (walk inputs true nodes st).blockers = [] ∧
      (walk inputs true nodes st).executions = st.executions := by
  induction nodes generalizing st with
  | nil => exact ⟨hst, rfl⟩
  | cons raw nodes ih =>
      obtain ⟨hnode, hrest⟩ := hquiet
      obtain ⟨node, seen, issues, execution, heq, hid, hdepends, hvisit⟩ :=
        visit_eq inputs true st raw
      -- no gate is reached: the node is kept or a dependency is missing
      have hpassed : seen = raw.seen ∧ issues = [] ∧ execution = none := by
        cases hvisit with
        | halted blocked => exact absurd hst blocked
        | succeeded clear resumed before => exact ⟨by simp [WorkflowNode.seen, before], rfl, rfl⟩
        | cancelled clear resumed before => exact ⟨by simp [WorkflowNode.seen, before], rfl, rfl⟩
        | unmet clear unsettled =>
            exact ⟨by simp [WorkflowNode.seen, (unsettled rfl).1], rfl, rfl⟩
        | refused clear unsettled satisfied =>
            rcases hnode with h | h | ⟨d, hd, h⟩
            · exact absurd h (unsettled rfl).1
            · exact absurd h (unsettled rfl).2
            · exact absurd (satisfied d hd) h
        | executed clear unsettled satisfied =>
            rcases hnode with h | h | ⟨d, hd, h⟩
            · exact absurd h (unsettled rfl).1
            · exact absurd h (unsettled rfl).2
            · exact absurd (satisfied d hd) h
      obtain ⟨rfl, rfl, rfl⟩ := hpassed
      have hnext := ih (st.visit inputs true raw)
        (by rw [heq]; simpa [record] using hrest) (by rw [heq]; simpa [record] using hst)
      refine ⟨hnext.1, hnext.2.trans ?_⟩
      rw [heq]
      simp [record]

end WorkflowPass

/-! ### Successes that are kept -/

/-- The node at `position` has succeeded, and a resumed run passes over all before it. -/
def Kept (nodes : List WorkflowNode) (position : Nat) : Prop :=
  ∃ front node back, nodes = front ++ node :: back ∧ front.length = position ∧
    node.status = some .succeeded ∧ Quiet [] 0 front

/-- The blockers that a stored node carries do not stand in for the output of its command. -/
def FreshOutputs (inputs : RunInputs) (g : WorkflowGraph) : Prop :=
  ∀ (k : Nat) (node : WorkflowNode), g.nodes[k]? = some node → node.blockers.getD [] ≠ [] →
    (inputs.runner k).success = true → ∀ returncode output,
      inputs.runner k = .completed returncode output → output.blockers.isSome = true

theorem runBlockers_eq_nil {g : WorkflowGraph} {resume : Bool} (hnodes : g.nodes ≠ [])
    (hcancelled : g.currentStatus ≠ .cancelled)
    (hpaused : resume = false → g.currentStatus ≠ .paused) : runBlockers g resume = [] := by
  simp only [runBlockers, if_neg hnodes, if_neg hcancelled, List.append_nil, List.nil_append,
    ite_eq_right_iff, reduceCtorEq, imp_false, not_and]
  intro hstatus hresume
  exact hpaused hresume hstatus

section Run

variable {inputs : RunInputs} {resume : Bool} {g : WorkflowGraph}

/-- A command that succeeds leaves its node among those a resumed run passes over. -/
theorem kept_of_executed {e : Execution} (hfresh : FreshOutputs inputs g)
    (he : e ∈ (runNodes inputs resume g).executions) (hsuccess : e.result.success = true) :
    Kept (runNodes inputs resume g).nodes e.position := by
  rcases WorkflowPass.mem_executions_walk he with hstart | ⟨front, raw, back, node, seen, issues,
    hnodes, heq, hid, hvisit⟩
  · cases hstart
  · rw [runNodes_eq, hnodes, WorkflowPass.walk_append]
    have hlength := WorkflowPass.length_nodes_walk inputs resume front
      (.start (runBlockers g resume))
    generalize hst : WorkflowPass.walk inputs resume front (.start (runBlockers g resume)) = st
      at heq hvisit hid hlength ⊢
    cases hvisit with
    | executed clear unsettled satisfied gates status =>
        obtain ⟨out, hout, hquiet⟩ := WorkflowPass.quiet_of_walk inputs resume front
          (.start (runBlockers g resume)) (by rw [hst]; exact clear)
        rw [hst] at hout
        have hzero : st.nodes = out := by simpa [WorkflowPass.start] using hout
        obtain ⟨rest, hrest, -⟩ := WorkflowPass.nodes_walk inputs resume back
          (st.visit inputs resume raw)
        have hraw : g.nodes[st.nodes.length]? = some raw := by
          rw [hnodes, hlength]
          simp [WorkflowPass.start]
        have houtcome := CommandResult.nodeOutcome_of_success hsuccess (raw.idAt st.nodes.length)
          inputs.timeoutSeconds fun hstale => hfresh _ raw hraw hstale hsuccess
        refine ⟨st.nodes, node, rest, ?_, rfl, ?_, ?_⟩
        · change (WorkflowPass.walk inputs resume back (st.visit inputs resume raw)).nodes = _
          rw [hrest, heq]
          simp [WorkflowPass.record]
        · rw [status, houtcome]
        · rw [hzero]
          exact hquiet

/-- A command is run at or behind the place where the loop stands. -/
theorem WorkflowPass.le_position {st : WorkflowPass} {nodes : List WorkflowNode} {e : Execution}
    (hnone : st.executions = []) (he : e ∈ (walk inputs resume nodes st).executions) :
    st.nodes.length ≤ e.position := by
  rcases mem_executions_walk he with hstart | ⟨front, raw, back, node, seen, issues, -, -, -, hvisit⟩
  · rw [hnone] at hstart
    cases hstart
  · have hlength := length_nodes_walk inputs resume front st
    cases hvisit with
    | executed => exact hlength ▸ Nat.le_add_right _ _

/-- A resumed run keeps the success of a node and does not run its command again. -/
theorem kept_of_resume {k : Nat} (hkept : Kept g.nodes k) (hcancelled : g.currentStatus ≠ .cancelled) :
    Kept (runNodes inputs true g).nodes k ∧
      ∀ e ∈ (runNodes inputs true g).executions, e.position ≠ k := by
  obtain ⟨front, raw, back, hnodes, rfl, hstatus, hquiet⟩ := hkept
  have hblockers : runBlockers g true = [] :=
    runBlockers_eq_nil (by simp [hnodes]) hcancelled (by simp)
  rw [runNodes_eq, hblockers, hnodes, WorkflowPass.walk_append]
  obtain ⟨hclear, hnone⟩ := WorkflowPass.walk_of_quiet inputs (.start []) hquiet rfl
  obtain ⟨out, hout, hquiet'⟩ := WorkflowPass.quiet_of_walk inputs true front (.start []) hclear
  have hlength := WorkflowPass.length_nodes_walk inputs true front (.start [])
  generalize WorkflowPass.walk inputs true front (.start []) = st at hclear hnone hout hlength ⊢
  have hlength : st.nodes.length = front.length := by simpa [WorkflowPass.start] using hlength
  have hzero : st.nodes = out := by simpa [WorkflowPass.start] using hout
  -- the node itself is kept
  obtain ⟨node, seen, issues, execution, heq, -, -, hvisit⟩ :=
    WorkflowPass.visit_eq inputs true st raw
  have hkept : node.status = some .succeeded ∧ execution = none := by
    cases hvisit with
    | halted blocked => exact absurd hclear blocked
    | succeeded clear resumed before status => exact ⟨status, rfl⟩
    | cancelled clear resumed before => simp [hstatus] at before
    | unmet clear unsettled => exact absurd hstatus (unsettled rfl).1
    | refused clear unsettled => exact absurd hstatus (unsettled rfl).1
    | executed clear unsettled => exact absurd hstatus (unsettled rfl).1
  obtain ⟨hnode, rfl⟩ := hkept
  obtain ⟨rest, hrest, -⟩ := WorkflowPass.nodes_walk inputs true back (st.visit inputs true raw)
  constructor
  · refine ⟨st.nodes, node, rest, ?_, hlength, hnode, by rw [hzero]; exact hquiet'⟩
    change (WorkflowPass.walk inputs true back (st.visit inputs true raw)).nodes = _
    rw [hrest, heq]
    simp [WorkflowPass.record]
  · intro e he
    change e ∈ (WorkflowPass.walk inputs true back (st.visit inputs true raw)).executions at he
    have hbehind := WorkflowPass.le_position
      (by rw [heq]; simpa [WorkflowPass.record, WorkflowPass.start] using hnone) he
    rw [heq] at hbehind
    simp only [WorkflowPass.record, List.length_append, List.length_singleton] at hbehind
    omega

end Run

/-- Cancelling keeps successes. -/
theorem quiet_map_cancelNode {statusById : List (String × NodeStatus)} {position : Nat}
    {nodes : List WorkflowNode} (h : Quiet statusById position nodes) :
    Quiet statusById position (nodes.map cancelNode) := by
  induction nodes generalizing statusById position with
  | nil => trivial
  | cons node nodes ih =>
      obtain ⟨hnode, hrest⟩ := h
      have hid : (cancelNode node).idAt position = node.idAt position := by
        unfold cancelNode
        split <;> rfl
      have hseen : (cancelNode node).seen = node.seen := by
        unfold cancelNode
        split
        · rfl
        · rename_i hopen
          have hne : node.status ≠ some .succeeded := fun h => hopen (by simp [h])
          simp [WorkflowNode.seen, hne]
      refine ⟨?_, ?_⟩
      · unfold cancelNode
        split
        · exact hnode
        · exact .inr (.inl rfl)
      · rw [hid, hseen]
        exact ih hrest

theorem kept_map_cancelNode {nodes : List WorkflowNode} {k : Nat} (h : Kept nodes k) :
    Kept (nodes.map cancelNode) k := by
  obtain ⟨front, node, back, rfl, hlength, hstatus, hquiet⟩ := h
  refine ⟨front.map cancelNode, cancelNode node, back.map cancelNode, by simp, by simpa using hlength,
    ?_, quiet_map_cancelNode hquiet⟩
  simp [cancelNode, hstatus]

/-! ### Sequences of calls -/

@[simp] theorem WorkflowGraph.currentStatus_withStatus (g : WorkflowGraph)
    (status : WorkflowStatus) (nodes : List WorkflowNode) :
    (g.withStatus status nodes).currentStatus = status := rfl

/-- A cancelled workflow is not run, a paused one only to resume it. -/
def WorkflowGraph.refuses (g : WorkflowGraph) (resume : Bool) : Prop :=
  g.currentStatus = .cancelled ∨ (g.currentStatus = .paused ∧ resume = false)

theorem executions_of_refuses {inputs : RunInputs} {resume : Bool} {g : WorkflowGraph}
    (h : g.refuses resume) : (runNodes inputs resume g).executions = [] := by
  rw [List.eq_nil_iff_forall_not_mem]
  intro e he
  rcases WorkflowPass.mem_executions_walk he with hstart | ⟨front, raw, back, node, seen, issues,
    -, -, -, hvisit⟩
  · cases hstart
  · have hblockers : runBlockers g resume ≠ [] := by
      rcases h with h | h
      · simp [runBlockers, h]
      · simp [runBlockers, h.1, h.2]
    cases hvisit with
    | executed clear => exact hblockers (WorkflowPass.clear_of_walk clear)

/-- `resume_workflow`. -/
def WorkflowCall.resumes : WorkflowCall → Bool
  | .run resume _ => resume
  | .pause _ | .cancel _ => false

namespace Workflow

variable {w : Workflow}

/-- A call that the stored statuses survive. A run that is refused does not write the graph
back; one that is not refused writes it, starts over only while no command has succeeded, and
gets no output that leaves old blockers in place of its own. -/
def Careful (w : Workflow) : WorkflowCall → Prop
  | .run resume inputs => ∀ g, w.graph = some g →
      (g.refuses resume → inputs.written = false) ∧
      (¬ g.refuses resume →
        (resume = false → ∀ e ∈ w.log, e.result.success = false) ∧
        inputs.written = true ∧ FreshOutputs inputs g)
  | .pause _ | .cancel _ => True

/-- Every call is careful in the state it finds. -/
def CarefulCalls : Workflow → List WorkflowCall → Prop
  | _, [] => True
  | w, c :: calls => w.Careful c ∧ (w.call c).CarefulCalls calls

/-- The safety of a sequence of calls. -/
structure Safe (w : Workflow) (calls : List WorkflowCall) : Prop where
  /-- Commands are run behind their dependencies and their gates. -/
  justified : ∀ e ∈ (w.after calls).log, e.Justified
  /-- Nothing is run after a cancellation. -/
  cancelled : ∀ before later, calls = before ++ .cancel true :: later →
    (w.after calls).log = (w.after before).log
  /-- A paused workflow runs nothing until it is resumed. -/
  paused : ∀ before during later g, calls = before ++ during ++ later →
    (w.after before).graph = some g → g.currentStatus = .paused →
    (∀ c ∈ during, c.resumes = false) → (w.after (before ++ during)).log = (w.after before).log
  /-- A resumed run does not run again what has succeeded. -/
  resumed : ∀ before inputs later, calls = before ++ .run true inputs :: later →
    ∀ e ∈ (w.after before).executions (.run true inputs), ∀ e' ∈ (w.after before).log,
      e'.result.success = true → e.position ≠ e'.position

/-- What the stored graph keeps of the log. -/
structure Sound (w : Workflow) : Prop where
  justified : ∀ e ∈ w.log, e.Justified
  kept : ∀ g, w.graph = some g → ∀ e ∈ w.log, e.result.success = true → Kept g.nodes e.position

theorem after_append (w : Workflow) (before later : List WorkflowCall) :
    w.after (before ++ later) = (w.after before).after later :=
  List.foldl_append

theorem CarefulCalls.append {before later : List WorkflowCall}
    (h : w.CarefulCalls (before ++ later)) :
    w.CarefulCalls before ∧ (w.after before).CarefulCalls later := by
  induction before generalizing w with
  | nil => exact ⟨trivial, h⟩
  | cons c before ih => exact ⟨⟨h.1, (ih h.2).1⟩, (ih h.2).2⟩

theorem executions_run {resume : Bool} {inputs : RunInputs} {g : WorkflowGraph}
    (hg : w.graph = some g) :
    w.executions (.run resume inputs) = (runNodes inputs resume g).executions := by
  simp [executions, hg, runWorkflow]

/-- A call that runs nothing and leaves the nodes, up to a cancellation. -/
theorem Sound.control {w' : Workflow} (h : w.Sound) (hlog : w'.log = w.log)
    (hkept : ∀ g', w'.graph = some g' → ∃ g, w.graph = some g ∧
      ∀ k, Kept g.nodes k → Kept g'.nodes k) : w'.Sound := by
  refine ⟨hlog ▸ h.justified, fun g' hg' e he hsuccess => ?_⟩
  obtain ⟨g, hg, hnodes⟩ := hkept g' hg'
  exact hnodes _ (h.kept g hg e (hlog ▸ he) hsuccess)

theorem Sound.call {c : WorkflowCall} (h : w.Sound) (hc : w.Careful c) : (w.call c).Sound := by
  cases c with
  | pause written =>
      refine h.control (List.append_nil _) fun g' hg' => ?_
      obtain ⟨g, hg, rfl⟩ := Option.map_eq_some_iff.mp hg'
      refine ⟨g, hg, fun k hk => ?_⟩
      unfold pauseWorkflow
      repeat' split
      all_goals exact hk
  | cancel written =>
      refine h.control (List.append_nil _) fun g' hg' => ?_
      obtain ⟨g, hg, rfl⟩ := Option.map_eq_some_iff.mp hg'
      refine ⟨g, hg, fun k hk => ?_⟩
      split
      · exact kept_map_cancelNode hk
      · exact hk
  | run resume inputs =>
      cases hg : w.graph with
      | none =>
          refine h.control (by simp [Workflow.call, executions, hg]) fun g' hg' => ?_
          simp [Workflow.call, stored, hg] at hg'
      | some g =>
          by_cases hrefused : g.refuses resume
          · -- nothing is run and nothing is written
            have hwritten := (hc g hg).1 hrefused
            refine h.control ?_ fun g' hg' => ⟨g, hg, fun k hk => ?_⟩
            · simp [Workflow.call, executions_run hg, executions_of_refuses hrefused]
            · simp only [Workflow.call, stored, hg, Option.map_some, runWorkflow, hwritten,
                Bool.false_eq_true, if_false, Option.some.injEq] at hg'
              exact hg' ▸ hk
          obtain ⟨hplain, hwritten, hfresh⟩ := (hc g hg).2 hrefused
          have hcancelled : g.currentStatus ≠ .cancelled := fun h => hrefused (.inl h)
          constructor
          · intro e he
            rcases List.mem_append.mp he with he | he
            · exact h.justified e he
            · rw [executions_run hg] at he
              exact justified_of_mem he
          · intro g' hg' e he hsuccess
            simp only [Workflow.call, stored, hg, Option.map_some, runWorkflow, hwritten, if_true,
              Option.some.injEq] at hg'
            subst hg'
            change Kept (runNodes inputs resume g).nodes e.position
            rcases List.mem_append.mp he with hold | hnew
            · -- an earlier success, which only a resumed run may meet
              cases resume with
              | true => exact (kept_of_resume (h.kept g hg e hold hsuccess) hcancelled).1
              | false =>
                  rw [hplain rfl e hold] at hsuccess
                  cases hsuccess
            · rw [executions_run hg] at hnew
              exact kept_of_executed hfresh hnew hsuccess

theorem Sound.after {calls : List WorkflowCall} (h : w.Sound) (hcalls : w.CarefulCalls calls) :
    (w.after calls).Sound := by
  induction calls generalizing w with
  | nil => exact h
  | cons c calls ih => exact ih (h.call hcalls.1) hcalls.2

/-- The workflow is cancelled, or it is paused and counts as halted until it is resumed. -/
def Halted (untilResumed : Bool) (w : Workflow) : Prop :=
  ∀ g, w.graph = some g → g.currentStatus = .cancelled ∨
    (untilResumed = true ∧ g.currentStatus = .paused)

theorem Halted.call {untilResumed : Bool} {c : WorkflowCall} (h : w.Halted untilResumed)
    (hc : w.Careful c) (hresumes : untilResumed = true → c.resumes = false) :
    (w.call c).Halted untilResumed ∧ (w.call c).log = w.log := by
  cases c with
  | pause written =>
      refine ⟨fun g' hg' => ?_, List.append_nil _⟩
      obtain ⟨g, hg, rfl⟩ := Option.map_eq_some_iff.mp hg'
      rcases h g hg with hstatus | ⟨huntil, hstatus⟩
      · refine .inl ?_
        simp [pauseWorkflow, hstatus]
      · refine .inr ⟨huntil, ?_⟩
        cases written with
        | true => simp [pauseWorkflow, hstatus]
        | false => simpa using hstatus
  | cancel written =>
      refine ⟨fun g' hg' => ?_, List.append_nil _⟩
      obtain ⟨g, hg, rfl⟩ := Option.map_eq_some_iff.mp hg'
      cases written with
      | true => exact .inl rfl
      | false => exact h g hg
  | run resume inputs =>
      cases hg : w.graph with
      | none =>
          refine ⟨fun g' hg' => ?_, by simp [Workflow.call, executions, hg]⟩
          simp [Workflow.call, stored, hg] at hg'
      | some g =>
          have hrefused : g.refuses resume := by
            rcases h g hg with hstatus | ⟨huntil, hstatus⟩
            · exact .inl hstatus
            · exact .inr ⟨hstatus, hresumes huntil⟩
          have hwritten := (hc g hg).1 hrefused
          refine ⟨fun g' hg' => ?_, ?_⟩
          · simp only [Workflow.call, stored, hg, Option.map_some, runWorkflow, hwritten,
              Bool.false_eq_true, if_false, Option.some.injEq] at hg'
            exact hg' ▸ h g hg
          · simp [Workflow.call, executions_run hg, executions_of_refuses hrefused]

theorem Halted.log_after {untilResumed : Bool} {calls : List WorkflowCall}
    (h : w.Halted untilResumed) (hcalls : w.CarefulCalls calls)
    (hresumes : untilResumed = true → ∀ c ∈ calls, c.resumes = false) :
    (w.after calls).log = w.log := by
  induction calls generalizing w with
  | nil => rfl
  | cons c calls ih =>
      obtain ⟨hhalted, hlog⟩ := h.call hcalls.1 fun huntil => hresumes huntil c (by simp)
      refine (ih hhalted hcalls.2 fun huntil c' hc' => ?_).trans hlog
      exact hresumes huntil c' (List.mem_cons_of_mem c hc')

theorem sound_start (g : Option WorkflowGraph) : (start g).Sound := by
  constructor
  · intro e he
    cases he
  · intro _ _ e he
    cases he

/-- A sequence of careful calls on any stored graph is safe. -/
theorem safe_of_careful (g : Option WorkflowGraph) (calls : List WorkflowCall)
    (hcareful : (start g).CarefulCalls calls) : (start g).Safe calls := by
  have hstart := sound_start g
  refine ⟨(hstart.after hcareful).justified, ?_, ?_, ?_⟩
  · intro before later heq
    subst heq
    obtain ⟨-, hlater⟩ := hcareful.append
    have hhalted : (((start g).after before).call (.cancel true)).Halted false := by
      intro g' hg'
      obtain ⟨g₀, -, rfl⟩ := Option.map_eq_some_iff.mp hg'
      exact .inl rfl
    rw [after_append]
    exact (hhalted.log_after hlater.2 fun h => by cases h).trans (List.append_nil _)
  · intro before during later g' heq hg' hstatus hresumes
    subst heq
    obtain ⟨hfirst, -⟩ := hcareful.append
    obtain ⟨-, hduring⟩ := hfirst.append
    have hhalted : ((start g).after before).Halted true := by
      intro g₀ hg₀
      obtain rfl := Option.some.inj (hg'.symm.trans hg₀)
      exact .inr ⟨rfl, hstatus⟩
    rw [after_append]
    exact hhalted.log_after hduring fun _ => hresumes
  · intro before inputs later heq e he e' he' hsuccess
    subst heq
    obtain ⟨hbefore, hlater⟩ := hcareful.append
    have hsound := hstart.after hbefore
    cases hg : ((start g).after before).graph with
    | none => simp [executions, hg] at he
    | some g' =>
        rw [executions_run hg] at he
        have hcancelled : g'.currentStatus ≠ .cancelled := by
          intro hstatus
          rw [executions_of_refuses (.inl hstatus)] at he
          cases he
        exact (kept_of_resume (hsound.kept g' hg e' he' hsuccess) hcancelled).2 e he

section Samples

/-- A check, and a deployment that depends on it. -/
def deployGraph : WorkflowGraph :=
  { workflowId := "workflow-deploy", workflowStatus := some .planned, status := none
    nodes := [
      ⟨some "check", [], false, ["ship", "app", "readiness"], some .planned, some [], false⟩,
      ⟨some "deploy", ["check"], true, ["ship", "deploy", "CONFIRMATION_TOKEN"], some .planned,
        some [], true⟩] }

/-- Inputs under which every command succeeds. -/
def succeedingInputs (confirmations : List (String × String)) : RunInputs :=
  { substitutions := [], confirmations, policy := fun _ => ⟨true, []⟩
    runner := fun _ => .completed 0 ⟨"succeeded", some []⟩, timeoutSeconds := "300"
    localShip := none, written := true }

theorem freshOutputs_succeedingInputs (confirmations : List (String × String))
    (g : WorkflowGraph) : FreshOutputs (succeedingInputs confirmations) g := by
  intro k node _ _ _ returncode output hresult
  cases hresult
  rfl

/-- The deployment waits for its confirmation and is resumed with it. -/
theorem safe_of_careful_resumed :
    ((start (some deployGraph)).after [.run false (succeedingInputs []),
      .run true (succeedingInputs [("deploy", "token")])]).log.map Execution.nodeId =
        ["check", "deploy"] ∧
    (start (some deployGraph)).Safe [.run false (succeedingInputs []),
      .run true (succeedingInputs [("deploy", "token")])] := by
  refine ⟨by decide +kernel, safe_of_careful _ _ ⟨?_, ?_, trivial⟩⟩
  · intro g hg
    obtain rfl := Option.some.inj hg
    refine ⟨fun hrefused => ?_, fun _ => ⟨fun _ e he => ?_, rfl, freshOutputs_succeedingInputs _ _⟩⟩
    · simp [WorkflowGraph.refuses, deployGraph, WorkflowGraph.currentStatus] at hrefused
    · cases he
  · intro g hg
    obtain rfl := Option.some.inj hg
    refine ⟨fun hrefused => ?_, fun _ => ⟨fun h => ?_, rfl, freshOutputs_succeedingInputs _ _⟩⟩
    · revert hrefused
      unfold WorkflowGraph.refuses
      decide +kernel
    · cases h

/-- A run that is refused forgets the cancellation, and the next one goes through. -/
theorem not_safe_cancelled :
    ¬ (start (some deployGraph)).Safe
      [.cancel true, .run false (succeedingInputs []), .run false (succeedingInputs [])] := by
  intro hsafe
  have hlog := hsafe.cancelled [] _ rfl
  have hlength := congrArg List.length hlog
  revert hlength
  decide +kernel

end Samples

end Workflow

end Ophelia
