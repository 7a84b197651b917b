import Ophelia.Journal.Commit
import Mathlib.Data.Prod.Lex
import Mathlib.Algebra.GroupWithZero.Nat

/-!
# Ophelia.Journal.Integrity

`_check_integrity`: what the store verifies of a database before it opens it. The check
walks every table and reconciles it with the others. `PRAGMA quick_check` looks at the file
format and the row constraints, which the tables of the model have by construction; the
foreign keys are checked here.
-/

namespace Ophelia

variable [Platform]

/-- The rows of a query with `ORDER BY` on a text or a number. -/
def orderBy {α β : Type} [LinearOrder β] (column : α → β) (rows : List α) : List α :=
  rows.insertionSort fun a b => column a ≤ column b

omit [Platform] in
theorem mem_orderBy {α β : Type} [LinearOrder β] {column : α → β} {rows : List α} {x : α} :
    x ∈ orderBy column rows ↔ x ∈ rows := by
  simp [orderBy, List.mem_insertionSort]

omit [Platform] in
theorem foldr_max_le {l : List Nat} {n : Nat} : l.foldr max 0 ≤ n ↔ ∀ m ∈ l, m ≤ n := by
  induction l with
  | nil => simp
  | cons x l ih => simp [ih]

/-- `parse_utc` for its check. -/
def requireUtc (value : String) : Result Unit :=
  ensure (isUtc value.toList = true) (.contractValidation "value must be a UTC timestamp.")

/-- `require_digest` for its check. -/
def requireDigest (value : Option String) (name : String) : Result Unit :=
  ensure (value.any fun s => isSha256 s.toList)
    (.contractValidation (name ++ " must be a sha256 digest."))

/-- `payload.get(key)`. -/
def pyGet (payload : Json) (key : String) : Json :=
  (payload.get? key).getD .null

namespace Journal

/-! ### Foreign keys -/

/-- `PRAGMA foreign_key_check` finds nothing. -/
def foreignKeys (j : Journal) : Prop :=
  let known := fun id => (j.operations.get? id).isSome = true
  (∀ a ∈ j.approvals.rows, (j.plans.get? a.planId).isSome = true) ∧
  (∀ o ∈ j.operations.rows, (j.approvals.get? o.decisionId).isSome = true) ∧
  (∀ i ∈ j.idempotencyKeys.rows, known i.operationId) ∧
  (∀ e ∈ j.operationEvents.rows, known e.operationId) ∧
  (∀ l ∈ j.operationLeases.rows, known l.operationId) ∧
  (∀ r ∈ j.terminalReceipts.rows, known r.operationId) ∧
  (∀ i ∈ j.operationInputs.rows, known i.operationId) ∧
  (∀ c ∈ j.operationControls.rows, known c.operationId) ∧
  (∀ l ∈ j.revisionLifecycle.rows, known l.operationId) ∧
  (∀ a ∈ j.activeRevisions.rows, known a.operationId) ∧
  (∀ a ∈ j.atomicSuccessCommits.rows, (j.receipt? a.operationId).isSome = true) ∧
  (∀ l ∈ j.executionScopeLeases.rows, known l.operationId) ∧
  (∀ e ∈ j.hostEvents.rows, ∀ id, e.operationId = some id → known id) ∧
  (∀ e ∈ j.workloadRunEvents, ∃ r ∈ j.workloadRuns, r.runId = e.runId) ∧
  (∀ o ∈ j.hostObservations, ∃ s ∈ j.hostState, s.hostId = o.hostId)

instance (j : Journal) : Decidable j.foreignKeys := by
  unfold foreignKeys
  infer_instance

/-! ### Events -/

/-- The operation event a host event mirrors. -/
def mirrored? (j : Journal) (h : HostEventRow) : Option EventRow :=
  j.operationEvents.rows.find? fun e => e.eventId = h.eventId

/-- An event of the host stream belongs to an operation or to a workload run. -/
def hostEventShape (h : HostEventRow) : Bool :=
  match h.eventType with
  | .operation => h.operationId.isSome && h.workloadRunId.isNone
  | .workload => h.operationId.isNone && h.workloadRunId.isSome

/-- The host stream mirrors the operation events one to one. -/
def checkHostEvents (j : Journal) : Result Unit := do
  let hostOperationEvents := j.hostEvents.rows.filter fun h => h.eventType = .operation
  ensure (hostOperationEvents.length = j.operationEvents.rows.length ∧
      ∀ h ∈ hostOperationEvents, h.operationId.isSome = true ∧
        (j.mirrored? h).map (·.eventDigest) = some h.eventDigest ∧
        (j.mirrored? h).map (·.payloadJson) = some h.payloadJson)
    (.integrity "Host event stream does not reconcile with operation events.")
  ensure (∀ h ∈ j.hostEvents.rows, hostEventShape h = true)
    (.integrity "Host event stream contains an invalid event type.")

/-- No consumer has acknowledged more than there is. -/
def checkDelivery (j : Journal) : Result Unit :=
  (orderBy (·.consumerId.val) j.eventDelivery.rows).forM fun d => do
    let _ ← requireText 2048 "consumer_id" (.str d.consumerId.val)
    requireUtc d.updatedAt.val
    ensure (d.acknowledgedCursor ≤ j.latestCursor)
      (.integrity "Event delivery cursor exceeds durable history.")

/-! ### The daemon's tables -/

def checkDaemonPlanRequests (j : Journal) : Result Unit :=
  j.daemonPlanRequests.forM fun r => do
    let _ ← requireText 255 "actor_id" (.str r.actorId)
    requireDigest r.idempotencyKeyDigest "idempotency_key_digest"
    requireDigest r.requestDigest "request_digest"
    let _ ← requireText 255 "plan_id" (.str r.planId)
    requireUtc r.createdAt

def checkHostState (j : Journal) : Result Unit := do
  ensure (j.hostState.length ≤ 1)
    (.integrity "Single-host authority contains multiple host identities.")
  j.hostState.forM fun r => do
    let capabilities ← jsonLoads r.capabilitiesJson
    let expectedLifecycle :=
      if r.maintenanceMode then "maintenance" else if r.drained then "drained" else "ready"
    ensure ((match capabilities with | .obj _ => true | _ => false) = true ∧
        canonicalJson capabilities = r.capabilitiesJson ∧
        r.lifecycleState = expectedLifecycle ∧ 1 ≤ r.protocolVersion)
      (.integrity "Host state is not canonical or internally consistent.")
    requireUtc r.startedAt
    requireUtc r.heartbeatAt
    requireUtc r.updatedAt

def checkHostObservations (j : Journal) : Result Unit :=
  (orderBy (·.observationId) j.hostObservations).forM fun r => do
    let observation ← (jsonLoads r.payloadJson).mapError fun _ =>
      .integrity "Host observation payload is malformed."
    ensure ((match observation with | .obj _ => true | _ => false) = true ∧
        canonicalJson observation = r.payloadJson ∧
        (digestText (canonicalJson observation)).val = r.observationDigest ∧
        pyGet observation "host_id" = .str r.hostId ∧
        pyGet observation "observed_at" = .str r.observedAt ∧
        pyGet observation "status" = .str r.status ∧
        r.status ∈ ["ready", "warning", "critical"])
      (.integrity "Host observation is not canonical.")
    requireUtc r.observedAt

/-- The request a command row has to be the digest of. -/
def agentRequest (r : AgentCommandRow) (payload : Json) : Json :=
  .obj [("schema_version", .int 1), ("kind", .str "ophelia.agent-command"),
    ("command_id", .str r.commandId), ("sequence", .int r.sequence),
    ("operation", .str r.operation), ("actor_id", .str r.actorId),
    ("envelope_digest", .str r.envelopeDigest), ("payload", payload)]

/-- Check one command after the command with the given sequence number. -/
def agentStep (maximumAcknowledged previous : Int) (r : AgentCommandRow) :
    Result (Unit × Int) := do
  let payload ← jsonLoads r.payloadJson
  let terminal := r.state = "succeeded" ∨ r.state = "failed"
  ensure (previous < r.sequence ∧
      (r.sequence = previous + 1 ∨ r.sequence - 1 ≤ maximumAcknowledged) ∧
      canonicalJson payload = r.payloadJson ∧
      (digestText (canonicalJson (agentRequest r payload))).val = r.requestDigest ∧
      r.state ∈ ["accepted", "running", "succeeded", "failed"])
    (.integrity "Agent command history is not canonical.")
  requireDigest r.idempotencyKeyDigest "idempotency_key_digest"
  requireDigest r.envelopeDigest "envelope_digest"
  requireUtc r.acceptedAt
  r.startedAt.forM requireUtc
  if terminal then
    requireUtc (r.completedAt.getD "")
    let result ← jsonLoads (r.resultJson.getD "")
    ensure (some (canonicalJson result) = r.resultJson ∧
        some (digestText (canonicalJson result)).val = r.resultDigest)
      (.integrity "Agent command result failed digest validation.")
  else
    ensure (r.completedAt = none ∧ r.resultDigest = none ∧ r.resultJson = none)
      (.integrity "Nonterminal agent command contains terminal evidence.")
  r.bundlePrunedAt.forM fun prunedAt => do
    ensure (terminal ∧ (r.operation = "manifest.plan" ∨ r.operation = "host.upgrade"))
      (.integrity "Only terminal source-bundle commands may be marked pruned.")
    requireUtc prunedAt
  return ((), r.sequence)

def checkAgent (j : Journal) : Result Unit := do
  let commands := orderBy (·.sequence) j.agentCommands
  let maximumAcknowledged :=
    (j.agentState.map (·.acknowledgedCommandSequence)).foldr max 0
  let (_, last) ← walk (agentStep maximumAcknowledged) 0 commands
  j.agentState.forM fun s => do
    ensure (s.connectionState ∈ ["connected", "disconnected", "revoked"] ∧
        0 ≤ s.acknowledgedCommandSequence ∧
        s.acknowledgedCommandSequence ≤ max last maximumAcknowledged ∧
        ∀ c ∈ commands, c.sequence ≤ s.acknowledgedCommandSequence →
          c.state = "succeeded" ∨ c.state = "failed")
      (.integrity "Outbound agent state is internally inconsistent.")
    requireUtc s.updatedAt
    s.connectedAt.forM requireUtc
    s.lastExchangeAt.forM requireUtc

/-- Check one event of a workload run against its place in the chain. -/
def workloadEventStep (runId : String) (position : Int × Option String)
    (r : WorkloadRunEventRow) : Result (Unit × Int × Option String) := do
  let payload ← jsonLoads r.payloadJson
  ensure (r.sequence = position.1 ∧ pyGet payload "run_id" = .str runId ∧
      pyGet payload "sequence" = .int position.1 ∧
      pyGet payload "previous_event_digest" = position.2.elim .null .str ∧
      canonicalJson payload = r.payloadJson ∧
      (digestText (canonicalJson payload)).val = r.eventDigest)
    (.integrity "Workload-run event chain is invalid.")
  return ((), position.1 + 1, some r.eventDigest)

/-- The events of a workload run, `ORDER BY sequence`. -/
def workloadEvents (j : Journal) (runId : String) : List WorkloadRunEventRow :=
  orderBy (·.sequence) (j.workloadRunEvents.filter fun e => e.runId = runId)

def checkWorkloadRun (j : Journal) (r : WorkloadRunRow) : Result Unit := do
  let request ← jsonLoads r.requestJson
  ensure ((match request with | .obj _ => true | _ => false) = true ∧
      canonicalJson request = r.requestJson ∧
      (digestText (canonicalJson request)).val = r.requestDigest ∧
      pyGet request "actor_id" = .str r.actorId ∧ pyGet request "host_id" = .str r.hostId ∧
      pyGet request "app" = .str r.app ∧ pyGet request "environment" = .str r.environment ∧
      pyGet request "revision_id" = .str r.revisionId ∧
      pyGet request "revision_digest" = .str r.revisionDigest ∧
      pyGet request "workload_name" = .str r.workloadName ∧
      pyGet request "workload_kind" = .str r.workloadKind ∧
      pyGet request "trigger_kind" = .str r.triggerKind ∧
      r.state ∈ ["accepted", "running", "succeeded", "failed", "cancelled"])
    (.integrity "Workload-run identity is not canonical.")
  requireDigest r.idempotencyKeyDigest "idempotency_key_digest"
  requireDigest r.revisionDigest "revision_digest"
  requireUtc r.acceptedAt
  r.startedAt.forM requireUtc
  r.cancellationRequestedAt.forM requireUtc
  let terminal := r.state ∈ ["succeeded", "failed", "cancelled"]
  if terminal then
    requireUtc (r.completedAt.getD "")
    requireDigest r.resultDigest "result_digest"
    ensure (r.leaseOwner = none ∧ r.leaseExpires = none)
      (.integrity "Terminal workload run retains an execution lease.")
  else
    ensure (r.completedAt = none ∧ r.resultDigest = none)
      (.integrity "Nonterminal workload run contains terminal evidence.")
  let events := j.workloadEvents r.runId
  let _ ← walk (workloadEventStep r.runId) (1, none) events
  match events.getLast? with
  | none => throw (.integrity "Workload run has no acceptance event.")
  | some final =>
      let payload ← jsonLoads final.payloadJson
      ensure (terminal → pyGet payload "event_type" = .str r.state)
        (.integrity "Terminal workload event does not match run state.")

def checkWorkloadRuns (j : Journal) : Result Unit := do
  (orderBy (·.runId) j.workloadRuns).forM j.checkWorkloadRun
  let eventCount := (j.workloadRuns.map fun r => (j.workloadEvents r.runId).length).sum
  let hostRows := j.hostEvents.rows.filter fun h => h.eventType = .workload
  ensure (hostRows.length = eventCount ∧ ∀ h ∈ hostRows,
      (j.workloadRunEvents.find? fun w => w.eventId = h.eventId.val).any fun w =>
        h.workloadRunId = some w.runId && w.eventDigest = h.eventDigest.val &&
          w.payloadJson = h.payloadJson)
    (.integrity "Host event stream does not reconcile with workload-run events.")

/-! ### Leases -/

/-- A scope lease has the owner, the token and the expiry of its operation's lease, and no
operation of the scope has a greater token. -/
def scopeLeaseReconciles (j : Journal) (s : ScopeLeaseRow) : Prop :=
  (j.operations.get? s.operationId).map (·.scope) = some s.scope ∧
  j.maxScopeToken s.scope ≤ s.fencingToken.1 ∧
  (j.operationLeases.get? s.operationId).map (fun l => (l.ownerId, l.fencingToken, l.expiresAt)) =
    some (s.ownerId, s.fencingToken, s.expiresAt)

instance (j : Journal) (s : ScopeLeaseRow) : Decidable (j.scopeLeaseReconciles s) := by
  unfold scopeLeaseReconciles
  infer_instance

def checkScopeLeases (j : Journal) : Result Unit :=
  j.executionScopeLeases.rows.forM fun s =>
    ensure (j.scopeLeaseReconciles s)
      (.integrity "Execution scope lease does not reconcile with its operation.")

/-! ### Revisions -/

/-- Every row asks for the check of its operation's lifecycle. -/
def checkLifecycle (j : Journal) : Result Unit :=
  j.revisionLifecycle.rows.forM fun row => do
    let input ← j.loadExecutionInputTx row.operationId
    let history ← j.verifiedRevisionHistory row.operationId
    ensure (historyBinds input history = true)
      (.integrity "Revision lifecycle does not bind its execution input.")

/-- An active revision is the revision of its operation's input, on the scope of its
plan, and its lifecycle ended in the active state. -/
def activeReconciles (row : ActiveRow) (input : ExecutionInput)
    (history : List RevisionLifecycleEntry) : Prop :=
  ActiveRevision.schema.canonicalJson (activeRevisionFromRow row) = row.payloadJson ∧
  history.getLast?.map (·.state) = some .active ∧
  row.revisionId = input.revision.revisionId ∧
  row.revisionDigest = input.revision.contentDigest ∧
  row.scope = ⟨input.plan.hostId, input.plan.app, input.plan.environment⟩

instance (r : ActiveRow) (i : ExecutionInput) (h : List RevisionLifecycleEntry) :
    Decidable (activeReconciles r i h) := by
  unfold activeReconciles
  infer_instance

def checkActive (j : Journal) : Result Unit :=
  j.activeRevisions.rows.forM fun row => do
    let input ← j.loadExecutionInputTx row.operationId
    let history ← j.verifiedRevisionHistory row.operationId
    ensure (activeReconciles row input history)
      (.integrity "Active revision does not reconcile with lifecycle and input.")

/-- A success marker joined with its receipt and its operation. -/
structure AtomicRow where
  operationId : EntityId .operation
  generation : Nat
  outcome : ReceiptOutcome
  receiptJson : String
  scope : Scope

/-- The columns the markers are ordered by. -/
def AtomicRow.order (a : AtomicRow) : String ×ₗ String ×ₗ String ×ₗ Nat ×ₗ String :=
  toLex (a.scope.hostId.val, toLex (a.scope.app.val, toLex (a.scope.environment.val,
    toLex (a.generation, a.operationId.val))))

/-- Join a marker with its receipt and its operation. -/
def atomicRow? (j : Journal) (a : AtomicSuccessRow) : Option AtomicRow := do
  let r ← j.receipt? a.operationId
  let o ← j.operations.get? a.operationId
  return ⟨a.operationId, a.activeGeneration.1, r.outcome, r.payloadJson, o.scope⟩

/-- The markers of all scopes, in order. -/
def atomicRows (j : Journal) : List AtomicRow :=
  orderBy AtomicRow.order (j.atomicSuccessCommits.rows.filterMap j.atomicRow?)

/-- The last marker seen, by scope. -/
abbrev LatestAtomic := Table fun r : Scope × EntityId .operation × Nat => r.1

/-- A marker, its receipt, its input and its lifecycle agree, and its generation is above
the one before it in the scope. -/
def atomicReconciles (row : AtomicRow) (previous : Option (Scope × EntityId .operation × Nat))
    (history : List RevisionLifecycleEntry) (receipt : TerminalReceipt)
    (input : ExecutionInput) : Prop :=
  row.outcome = .succeeded ∧
  history.getLast?.map (·.state) = some .active ∧
  receipt.operationId = row.operationId ∧
  receipt.desiredRevisionId = input.revision.revisionId ∧
  receipt.desiredRevisionDigest = input.revision.contentDigest ∧
  history.getLast?.map (·.revisionId) = some receipt.desiredRevisionId ∧
  history.getLast?.map (·.revisionDigest) = some receipt.desiredRevisionDigest ∧
  (previous.all fun p => p.2.2 < row.generation) = true

instance (r : AtomicRow) (p : Option (Scope × EntityId .operation × Nat))
    (h : List RevisionLifecycleEntry) (t : TerminalReceipt) (i : ExecutionInput) :
    Decidable (atomicReconciles r p h t i) := by
  unfold atomicReconciles
  infer_instance

/-- Check one marker against the last one of its scope. -/
def atomicStep (j : Journal) (latest : LatestAtomic) (row : AtomicRow) :
    Result (Unit × LatestAtomic) := do
  let history ← j.verifiedRevisionHistory row.operationId
  let receipt ← jsonLoads row.receiptJson >>= TerminalReceipt.fromPayload
  let input ← j.loadExecutionInputTx row.operationId
  ensure (atomicReconciles row (latest.get? row.scope) history receipt input)
    (.integrity "Atomic success marker does not reconcile with its receipt and lifecycle.")
  return ((), latest.put (row.scope, row.operationId, row.generation))

/-- The active revision of a scope is not older than its last success, and the same
success where the generations agree. -/
def latestReconciles (j : Journal) (latest : Scope × EntityId .operation × Nat) : Prop :=
  (j.activeRevisions.get? latest.1).any (fun active =>
    latest.2.2 ≤ active.generation.1 &&
      (active.generation.1 != latest.2.2 || decide (active.operationId = latest.2.1))) = true

instance (j : Journal) (l : Scope × EntityId .operation × Nat) :
    Decidable (j.latestReconciles l) := by
  unfold latestReconciles
  infer_instance

def checkAtomic (j : Journal) : Result Unit := do
  let (_, latest) ← walk j.atomicStep .empty j.atomicRows
  latest.rows.forM fun l =>
    ensure (j.latestReconciles l)
      (.integrity "Current active revision conflicts with atomic success history.")

/-! ### The check -/

/-- The checks after `PRAGMA foreign_key_check`, in order. -/
def semanticIntegrity (j : Journal) : Result Unit := do
  (orderBy (·.operationId.val) j.operations.rows).forM fun o => do
    let _ ← j.verifiedEvents o.operationId
    return ()
  j.checkHostEvents
  j.checkDelivery
  j.checkDaemonPlanRequests
  j.checkHostState
  j.checkHostObservations
  j.checkAgent
  j.checkWorkloadRuns
  (orderBy (·.operationId.val) j.operationInputs.rows).forM fun i => do
    let _ ← j.loadExecutionInputTx i.operationId
    return ()
  (orderBy (·.operationId.val) j.operationControls.rows).forM fun c => do
    let _ ← j.controlTx c.operationId
    return ()
  j.checkScopeLeases
  j.checkLifecycle
  j.checkActive
  j.checkAtomic

/-- `_check_integrity`. -/
def checkIntegrity (j : Journal) : Result Unit := do
  ensure j.foreignKeys (.integrity "Operation database integrity validation failed.")
  wrapIntegrity "Operation journal semantic integrity validation failed." j.semanticIntegrity

end Journal

end Ophelia
