import Ophelia.Lib.PyText

/-!
# Ophelia.Workflows.Graph

Stored workflow graphs and the calls that run and control them (`workflows.py`). A graph is a
list of nodes, each with a command and the identifiers of the nodes it depends on. A call
reads the stored graph, goes through the nodes in order and writes the graph back; the next
call decides by the statuses it finds there.

The policy, the command runner and the success of the write are arbitrary inputs of a call.
A graph is stored under its own identifier, and a workflow has one store.
-/

namespace Ophelia

/-! ### Graphs -/

structure Issue where
  code : String
  message : String
deriving DecidableEq, Repr

/-- `WORKFLOW_NODE_STATUSES`, and whatever else a stored node says. -/
inductive NodeStatus where
  | planned
  | previewed
  | ready
  | running
  | pausedForConfirmation
  | succeeded
  | failed
  | blocked
  | skipped
  | rolledBack
  | cancelled
  | other (text : String)
deriving DecidableEq, Repr

/-- A stored node. `depends_on` is a list, of which the texts count; the code would go through the
characters of a text or the keys of a mapping, and fail at `null`. Another field that is not of its
type is empty. `blockers` are the issues among the entries, and `none` when there is no such
field. -/
structure WorkflowNode where
  id : Option String
  dependsOn : List String
  mutatesState : Bool
  command : List String
  status : Option NodeStatus
  blockers : Option (List Issue)
  requiresConfirmation : Bool
deriving DecidableEq, Repr

inductive WorkflowStatus where
  | planned
  | paused
  | cancelled
  | succeeded
  | failed
  | blocked
  | other (text : String)
deriving DecidableEq, Repr

structure WorkflowGraph where
  workflowId : String
  workflowStatus : Option WorkflowStatus
  status : Option WorkflowStatus
  nodes : List WorkflowNode
deriving DecidableEq, Repr

/-- `graph.get("workflow_status") or graph.get("status") or "planned"`. -/
def WorkflowGraph.currentStatus (g : WorkflowGraph) : WorkflowStatus :=
  (g.workflowStatus.orElse fun _ => g.status).getD .planned

def WorkflowGraph.withStatus (g : WorkflowGraph) (status : WorkflowStatus)
    (nodes : List WorkflowNode) : WorkflowGraph :=
  { g with workflowStatus := some status, status := some status, nodes }

/-! ### The inputs of a run -/

/-- A policy check: its verdict and the issues it names. -/
structure PolicyCheck where
  ok : Bool
  blockers : List Issue

/-- `_command_output_summary`, as far as the run reads it. Only a JSON object has a list of
blockers. -/
structure OutputSummary where
  status : String
  blockers : Option (List Issue)
deriving DecidableEq, Repr

inductive CommandResult where
  | timeoutExpired
  | fileNotFound
  | raised (errorType : String)
  | completed (returncode : Int) (output : OutputSummary)
deriving DecidableEq, Repr

/-- The arguments of a call, with the answers its environment gives about the node at each
position of the graph. -/
structure RunInputs where
  substitutions : List (String × String)
  confirmations : List (String × String)
  policy : Nat → PolicyCheck
  runner : Nat → CommandResult
  /-- `timeout_seconds:g`. -/
  timeoutSeconds : String
  /-- The path of the local `ship`, where it exists. -/
  localShip : Option String
  /-- The updated graph can be written. -/
  written : Bool

/-! ### Preflight -/

def shellMetacharacters : List (List Char) :=
  ["&&", "||", "|", ";", "`", "$(", ">", "<", "\n", "&"].map String.toList

/-- `command_has_shell_metacharacters`. -/
def commandHasShellMetacharacters (command : List String) : Bool :=
  command.any fun token => shellMetacharacters.any fun text => PyText.contains text token.toList

/-- `_PLACEHOLDER_RE`. -/
def isPlaceholder (token : String) : Bool :=
  match token.toList with
  | [] => false
  | c :: cs => c.isUpper && cs.all fun d => d.isUpper || d.isDigit || d == '_'

/-- `_resolve_command`. The unresolved tokens are named in order, once each. -/
def resolveCommand (command : List String) (substitutions : List (String × String)) :
    List String × List String :=
  (command.map fun token => (substitutions.lookup token).getD token,
    (command.filter fun token =>
      isPlaceholder token && (substitutions.lookup token).isNone).dedup.mergeSort)

/-- `_local_cli_command`. -/
def localCliCommand (localShip : Option String) : List String → List String
  | "ship" :: rest => localShip.getD "ship" :: rest
  | command => command

/-- `_preflight_node_command`, without the check of the executable. -/
def preflightNodeCommand (node : WorkflowNode) (nodeId : String)
    (substitutions : List (String × String)) (localShip : Option String) :
    Except (List Issue) (List String) :=
  if node.command.isEmpty then
    .error [⟨"workflow_missing_command", s!"Node '{nodeId}' has no runnable command."⟩]
  else if commandHasShellMetacharacters node.command then
    .error [⟨"workflow_unsafe_command",
      s!"Node '{nodeId}' command contains a shell metacharacter."⟩]
  else
    let (resolved, unresolved) := resolveCommand node.command substitutions
    if unresolved.isEmpty then .ok (localCliCommand localShip resolved)
    else
      let tokens := ", ".intercalate unresolved
      .error [⟨"workflow_unresolved_placeholder",
        s!"Node '{nodeId}' requires substitution(s): {tokens}."⟩]

/-! ### Running -/

/-- A command that was run: the position of its node, the nodes that the call had gone through
before it, what it was run for and how it ended. -/
structure Execution where
  position : Nat
  nodeId : String
  node : WorkflowNode
  before : List WorkflowNode
  confirmed : Bool
  policyOk : Bool
  executable : List String
  result : CommandResult

/-- The statuses by which a payload reports that its command did not go through. -/
def refusingStatuses : List String := ["blocked", "failed", "error", "cancelled"]

/-- The result of a command that reports neither a failure nor a blocker. -/
def CommandResult.success : CommandResult → Bool
  | .completed returncode output =>
      decide (returncode = 0 ∧ output.status ∉ refusingStatuses ∧ output.blockers.getD [] = [])
  | _ => false

/-- What a call has gathered on its way through the nodes; the latest status of an identifier
comes first. -/
structure WorkflowPass where
  blockers : List Issue
  statusById : List (String × NodeStatus)
  nodes : List WorkflowNode
  executions : List Execution

def WorkflowPass.start (blockers : List Issue) : WorkflowPass := ⟨blockers, [], [], []⟩

/-- Append a node under the status that dependents will see. -/
def WorkflowPass.record (st : WorkflowPass) (node : WorkflowNode) (nodeId : String) (seen : NodeStatus)
    (blockers : List Issue) (execution : Option Execution) : WorkflowPass :=
  { blockers := st.blockers ++ blockers
    statusById := (nodeId, seen) :: st.statusById
    nodes := st.nodes ++ [node]
    executions := st.executions ++ execution.toList }

/-- The status and the blockers of a node after its command has returned. -/
def completedNode (node : WorkflowNode) (nodeId : String) (returncode : Int)
    (output : OutputSummary) : NodeStatus × List Issue :=
  -- a summary without a list leaves the blockers of the stored node in place
  let outputBlockers := (output.blockers.orElse fun _ => node.blockers).getD []
  if returncode ≠ 0 then
    (.failed, [⟨"workflow_node_failed", s!"Node '{nodeId}' exited with status {returncode}."⟩])
  else if output.status ∈ refusingStatuses ∨ outputBlockers ≠ [] then
    (if output.status = "failed" then .failed else .blocked,
      if outputBlockers ≠ [] then outputBlockers
      else [⟨"workflow_node_payload_blocked",
        s!"Node '{nodeId}' emitted status '{output.status}'."⟩])
  else (.succeeded, [])

/-- The status and the blockers of a node after its command was run. -/
def CommandResult.nodeOutcome (node : WorkflowNode) (nodeId timeoutSeconds : String) :
    CommandResult → NodeStatus × List Issue
  | .timeoutExpired =>
      (.failed, [⟨"workflow_node_timeout",
        s!"Node '{nodeId}' exceeded {timeoutSeconds}s timeout."⟩])
  | .fileNotFound =>
      (.failed, [⟨"workflow_command_not_found", s!"Node '{nodeId}' command was not found."⟩])
  | .raised errorType =>
      (.failed, [⟨"workflow_node_runner_failed",
        s!"Node '{nodeId}' runner failed ({errorType})."⟩])
  | .completed returncode output => completedNode node nodeId returncode output

/-- A node that ends in `status` with `issues`, which block the rest of the run. -/
def WorkflowPass.stop (st : WorkflowPass) (node : WorkflowNode) (nodeId : String) (status : NodeStatus)
    (issues : List Issue) : WorkflowPass :=
  st.record { node with status := some status, blockers := some issues } nodeId status issues none

/-- Preflight and run the command of a node whose gates are open. -/
def WorkflowPass.execute (st : WorkflowPass) (inputs : RunInputs) (node : WorkflowNode)
    (nodeId : String) : WorkflowPass :=
  let substitutions := match inputs.confirmations.lookup nodeId with
    | some token => ("CONFIRMATION_TOKEN", token) :: inputs.substitutions
    | none => inputs.substitutions
  match preflightNodeCommand node nodeId substitutions inputs.localShip with
  | .error issues => st.stop node nodeId .blocked issues
  | .ok executable =>
      let position := st.nodes.length
      let result := inputs.runner position
      let (status, issues) := result.nodeOutcome node nodeId inputs.timeoutSeconds
      st.record { node with status := some status, blockers := some issues } nodeId status issues
        (some { position, nodeId, node, before := st.nodes, executable, result
                confirmed := (inputs.confirmations.lookup nodeId).isSome
                policyOk := (inputs.policy position).ok })

/-- The gates of a mutating node, then its command. -/
def WorkflowPass.attempt (st : WorkflowPass) (inputs : RunInputs) (node : WorkflowNode)
    (nodeId : String) : WorkflowPass :=
  let check := inputs.policy st.nodes.length
  if node.mutatesState ∧ ¬ check.ok then
    st.stop node nodeId .blocked
      (if check.blockers = [] then
        [⟨"workflow_policy_blocked", s!"Policy blocked mutating node '{nodeId}'."⟩]
      else check.blockers)
  else if node.mutatesState ∧ inputs.confirmations.lookup nodeId = none then
    st.stop { node with requiresConfirmation := true } nodeId .pausedForConfirmation
      [⟨"workflow_confirmation_required",
        s!"Node '{nodeId}' requires an explicit confirmation token from its own plan command."⟩]
  else st.execute inputs node nodeId

/-- The identifier of a stored node, or one made of its position. -/
def WorkflowNode.idAt (position : Nat) (raw : WorkflowNode) : String :=
  let number := position + 1
  raw.id.getD s!"node-{number}"

/-- The dependencies of a node that have not succeeded so far. -/
def WorkflowPass.failedDependencies (st : WorkflowPass) (node : WorkflowNode) : List String :=
  node.dependsOn.filter fun dependency => st.statusById.lookup dependency ≠ some .succeeded

/-- One round of the loop of `run_workflow`. -/
def WorkflowPass.visit (inputs : RunInputs) (resume : Bool) (st : WorkflowPass) (raw : WorkflowNode) :
    WorkflowPass :=
  let nodeId := raw.idAt st.nodes.length
  let node := { raw with id := some nodeId }
  let failed := st.failedDependencies node
  let failedNames := ", ".intercalate failed
  if st.blockers ≠ [] then
    st.record { node with
        status := some .skipped
        blockers := node.blockers.orElse fun _ =>
          some [⟨"workflow_run_blocked", "Skipped because the workflow is not runnable."⟩] }
      nodeId .skipped [] none
  else if resume ∧ node.status = some .succeeded then st.record node nodeId .succeeded [] none
  else if resume ∧ node.status = some .cancelled then st.record node nodeId .skipped [] none
  else if failed ≠ [] then
    st.record { node with
        status := some .skipped
        blockers := some [⟨"workflow_dependency_not_satisfied",
          s!"Skipped because dependency node(s) did not succeed: {failedNames}."⟩] }
      nodeId .skipped [] none
  else st.attempt inputs node nodeId

/-- What keeps a graph from running at all. -/
def runBlockers (g : WorkflowGraph) (resume : Bool) : List Issue :=
  let id := g.workflowId
  (if g.currentStatus = .cancelled then
    [⟨"workflow_cancelled", s!"Workflow '{id}' is cancelled and cannot run."⟩] else []) ++
  (if g.currentStatus = .paused ∧ resume = false then
    [⟨"workflow_paused", s!"Workflow '{id}' is paused. Use `ship workflow resume`."⟩] else []) ++
  (if g.nodes = [] then [⟨"workflow_empty", s!"Workflow '{id}' has no nodes to run."⟩] else [])

/-- The nodes of a graph, one after another. -/
def runNodes (inputs : RunInputs) (resume : Bool) (g : WorkflowGraph) : WorkflowPass :=
  g.nodes.foldl (WorkflowPass.visit inputs resume) (.start (runBlockers g resume))

def WorkflowPass.finalStatus (st : WorkflowPass) : WorkflowStatus :=
  if st.blockers ≠ [] then
    if st.nodes.any fun node => node.status = some .failed then .failed
    else if st.nodes.any fun node => node.status = some .pausedForConfirmation then .paused
    else .blocked
  else if st.nodes ≠ [] ∧ st.nodes.all fun node => node.status = some .succeeded then .succeeded
  else .blocked

/-- `run_workflow` on a stored graph: the graph afterwards and the commands that were run. -/
def runWorkflow (inputs : RunInputs) (resume : Bool) (g : WorkflowGraph) :
    WorkflowGraph × List Execution :=
  let st := runNodes inputs resume g
  (if inputs.written then g.withStatus st.finalStatus st.nodes else g, st.executions)

/-! ### Control -/

/-- `pause_workflow`: the graph afterwards, or `none` when the call is blocked. -/
def pauseWorkflow (g : WorkflowGraph) : Option WorkflowGraph :=
  if g.currentStatus = .cancelled ∨ g.currentStatus = .succeeded then none
  else some (g.withStatus .paused g.nodes)

def cancelNode (node : WorkflowNode) : WorkflowNode :=
  if node.status ∈ [some .succeeded, some .failed, some .rolledBack] then node
  else { node with status := some .cancelled }

/-- `cancel_workflow`. -/
def cancelWorkflow (g : WorkflowGraph) : WorkflowGraph :=
  g.withStatus .cancelled (g.nodes.map cancelNode)

/-! ### Sequences of calls -/

/-- A call on a workflow. `run true` is `resume_workflow`; a control call raises when the graph
cannot be written. -/
inductive WorkflowCall where
  | run (resume : Bool) (inputs : RunInputs)
  | pause (written : Bool)
  | cancel (written : Bool)

/-- The stored graph, if it can be read, and the commands that have been run for it. -/
structure Workflow where
  graph : Option WorkflowGraph
  log : List Execution

namespace Workflow

/-- A stored graph of which nothing has been run. -/
def start (g : Option WorkflowGraph) : Workflow := ⟨g, []⟩

/-- The commands that a call runs. -/
def executions (w : Workflow) : WorkflowCall → List Execution
  | .run resume inputs =>
      match w.graph with
      | some g => (runWorkflow inputs resume g).2
      | none => []
  | .pause _ | .cancel _ => []

/-- The stored graph after a call. -/
def stored (w : Workflow) : WorkflowCall → Option WorkflowGraph
  | .run resume inputs => w.graph.map fun g => (runWorkflow inputs resume g).1
  | .pause written => w.graph.map fun g => if written then (pauseWorkflow g).getD g else g
  | .cancel written => w.graph.map fun g => if written then cancelWorkflow g else g

def call (w : Workflow) (c : WorkflowCall) : Workflow :=
  ⟨w.stored c, w.log ++ w.executions c⟩

def after (w : Workflow) (calls : List WorkflowCall) : Workflow :=
  calls.foldl call w

end Workflow

end Ophelia
