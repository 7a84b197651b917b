import Ophelia.Journal.Events

/-!
# Ophelia.Journal.Commit

The lifecycle of a revision, the active revision of a scope, and the two ways to end an
operation: `commit_receipt` appends the terminal event and the receipt, `commit_success`
also swaps the active revision and records the phases of a successful run, all in one
transaction.

A transaction may sample the clock several times: `clock i` is its sample number `i`. The
identifiers of the events it writes are fresh, `freshId n` is the one of the event with
sequence number `n`.
-/

namespace Ophelia

variable [Platform]

namespace Journal

/-! ### Revision lifecycle -/

/-- `_REVISION_TRANSITIONS`. -/
def REVISION_TRANSITIONS : RevisionState → List RevisionState
  | .created => [.staged, .failed]
  | .staged => [.preflightPassed, .failed]
  | .preflightPassed => [.starting, .failed]
  | .starting => [.ready, .failed]
  | .ready => [.trafficCandidate, .active, .failed]
  | .trafficCandidate => [.active, .failed]
  | .active => [.draining, .rollbackStarting]
  | .draining => [.inactive, .rollbackStarting]
  | .inactive => [.garbageCollectable, .rollbackStarting]
  | .rollbackStarting => [.active, .failed]
  | .failed => [.garbageCollectable]
  | .garbageCollectable => []

/-- The lifecycle may continue with a state. -/
def permitted (previous : Option RevisionState) (state : RevisionState) : Bool :=
  match previous with
  | none => state == .created
  | some current => (REVISION_TRANSITIONS current).contains state

/-- The entry that follows the rows of a lifecycle. -/
def nextLifecycle (rows : List LifecycleRow) : Option RevisionState × Pos :=
  match rows.getLast? with
  | none => (none, ⟨1, Nat.one_pos⟩)
  | some r => (some r.state, ⟨r.sequence.1 + 1, Nat.succ_pos _⟩)

/-- `_append_revision_state_tx`. -/
def appendRevisionStateTx (j : Journal) (operationId : EntityId .operation)
    (state : RevisionState) (fence : ExecutionFence) (clock : Option Int) :
    Result (Journal × RevisionLifecycleEntry) :=
  match j.operations.get? operationId with
  | none => .error (.operationConflict "Unknown operation.")
  | some o => do
      ensure (o.state.terminal = false)
        (.operationConflict "A terminal operation cannot append revision lifecycle state.")
      let input ← j.loadExecutionInputTx operationId
      let previous := nextLifecycle (j.lifecycleRows operationId)
      ensure (previous.1 = none → state = .created)
        (.operationConflict "The first revision lifecycle state must be created.")
      ensure (permitted previous.1 state = true)
        (.operationConflict "Revision lifecycle transition is not permitted.")
      let now ← clockSample clock
      let occurredAt ← timestamp now
      let entry : RevisionLifecycleEntry :=
        { operationId, sequence := previous.2, revisionId := input.revision.revisionId,
          revisionDigest := input.revision.contentDigest, state, occurredAt }
      let payloadJson ← boundedJson (RevisionLifecycleEntry.schema.canonicalJson entry)
      let revisionLifecycle ←
        insertRow j.revisionLifecycle
          { operationId, sequence := entry.sequence, revisionId := entry.revisionId,
            revisionDigest := entry.revisionDigest, state, occurredAt,
            leaseOwner := fence.ownerId, fencingToken := fence.fencingToken, payloadJson }
          "revision_lifecycle"
      return ({ j with revisionLifecycle }, entry)

/-- `append_revision_state`. -/
def appendRevisionState (j : Journal) (operationId : String) (state : RevisionState)
    (fence : ExecutionFence) (clock : Nat → Option Int) :
    Result (Journal × RevisionLifecycleEntry) := do
  j.assertExecutionFence operationId fence (clock 0)
  j.appendRevisionStateTx fence.operationId state fence (clock 1)

/-- A lifecycle row, its parsed payload and its place agree. -/
def lifecycleReconciles (operationId : EntityId .operation) (expected : Nat)
    (previous : Option RevisionState) (row : LifecycleRow) (entry : RevisionLifecycleEntry) :
    Prop :=
  entry.operationId = operationId ∧ entry.sequence.1 = expected ∧
  row.sequence.1 = expected ∧ entry.revisionId = row.revisionId ∧
  entry.revisionDigest = row.revisionDigest ∧ entry.state = row.state ∧
  entry.occurredAt = row.occurredAt ∧
  RevisionLifecycleEntry.schema.canonicalJson entry = row.payloadJson ∧
  permitted previous entry.state = true

instance (id : EntityId .operation) (n : Nat) (p : Option RevisionState) (r : LifecycleRow)
    (e : RevisionLifecycleEntry) : Decidable (lifecycleReconciles id n p r e) := by
  unfold lifecycleReconciles
  infer_instance

/-- Check one lifecycle row against the sequence number it must have and the state before
it. -/
def lifecycleStep (operationId : EntityId .operation) (position : Nat × Option RevisionState)
    (row : LifecycleRow) : Result (RevisionLifecycleEntry × Nat × Option RevisionState) := do
  let entry ← (jsonLoads row.payloadJson >>= RevisionLifecycleEntry.fromPayload).mapError fun _ =>
    .integrity "Revision lifecycle payload is invalid."
  ensure (lifecycleReconciles operationId position.1 position.2 row entry)
    (.integrity "Revision lifecycle durable columns do not reconcile.")
  return (entry, position.1 + 1, some entry.state)

/-- `_verified_revision_history`. -/
def verifiedRevisionHistory (j : Journal) (operationId : EntityId .operation) :
    Result (List RevisionLifecycleEntry) := do
  let (history, _) ← walk (lifecycleStep operationId) (1, none) (j.lifecycleRows operationId)
  return history

/-- Every entry names the revision of the execution input. -/
def historyBinds (input : ExecutionInput) (history : List RevisionLifecycleEntry) : Bool :=
  history.all fun e =>
    e.revisionId == input.revision.revisionId && e.revisionDigest == input.revision.contentDigest

/-- `revision_history`. -/
def revisionHistory (j : Journal) (operationId : EntityId .operation) :
    Result (List RevisionLifecycleEntry) := do
  let input ← j.loadExecutionInputTx operationId
  let history ← j.verifiedRevisionHistory operationId
  ensure (historyBinds input history = true)
    (.integrity "Revision lifecycle does not bind the execution input.")
  return history

/-! ### Active revision -/

/-- `_active_revision_from_row`. -/
def activeRevisionFromRow (row : ActiveRow) : ActiveRevision :=
  { scope := row.scope, operationId := row.operationId, revisionId := row.revisionId,
    revisionDigest := row.revisionDigest, generation := row.generation,
    updatedAt := row.updatedAt }

/-- `active_revision`. -/
def activeRevision (j : Journal) (scope : Scope) : Result (Option ActiveRevision) :=
  match j.activeRevisions.get? scope with
  | none => .ok none
  | some row => do
      let active := activeRevisionFromRow row
      ensure (ActiveRevision.schema.canonicalJson active = row.payloadJson)
        (.integrity "Active revision payload is not canonical.")
      return some active

/-- `require_digest` on an optional argument. -/
def requireOptionalDigest (name : String) (digest : Option String) : Result Unit :=
  ensure (digest.all fun d => isSha256 d.toList)
    (.contractValidation (name ++ " must be a sha256 digest."))

/-- `_cas_active_revision_tx`: swap the active revision of the operation's scope if it is
the expected one, and raise its generation. -/
def casActiveRevisionTx (j : Journal) (operationId : EntityId .operation)
    (expectedDigest : Option String) (fence : ExecutionFence) (clock : Nat → Option Int) :
    Result (Journal × ActiveRevision) := do
  requireOptionalDigest "expected_active_revision_digest" expectedDigest
  match j.operations.get? operationId with
  | none => throw (.operationConflict "Unknown operation.")
  | some o =>
      let current := j.activeRevisions.get? o.scope
      ensure (current.map (·.revisionDigest.val) = expectedDigest)
        (.operationConflict "Active revision compare-and-swap conflict.")
      let input ← j.loadExecutionInputTx operationId
      let (j, _) ← j.appendRevisionStateTx operationId .active fence (clock 0)
      let generation : Pos := ⟨current.elim 0 (·.generation.1) + 1, Nat.succ_pos _⟩
      let now ← clockSample (clock 1)
      let updatedAt ← timestamp now
      let active : ActiveRevision :=
        { scope := o.scope, operationId, revisionId := input.revision.revisionId,
          revisionDigest := input.revision.contentDigest, generation, updatedAt }
      let payloadJson ← boundedJson (ActiveRevision.schema.canonicalJson active)
      let activeRevisions := j.activeRevisions.put
        { scope := o.scope, operationId, revisionId := active.revisionId,
          revisionDigest := active.revisionDigest, generation, updatedAt, payloadJson }
      return ({ j with activeRevisions }, active)

/-- `compare_and_swap_active_revision`. -/
def compareAndSwapActiveRevision (j : Journal) (operationId : String)
    (expectedDigest : Option String) (fence : ExecutionFence) (clock : Nat → Option Int) :
    Result (Journal × ActiveRevision) := do
  j.assertExecutionFence operationId fence (clock 0)
  j.casActiveRevisionTx fence.operationId expectedDigest fence fun i => clock (i + 1)

/-! ### Terminal receipts -/

/-- `_revalidate_receipt`: receipts are checked when they are built; what is left is that
their checks carry no prose. -/
def revalidateReceipt (receipt : TerminalReceipt) : Result Unit :=
  VerificationResult.rejectSummaryProse receipt.verification.checks

/-- The event that ends an operation. -/
def terminalEvent (j : Journal) (receipt : TerminalReceipt) (freshId : Nat → EntityId .event) :
    OperationEvent :=
  let next := j.nextEvent receipt.operationId
  { eventId := freshId next.1.1, operationId := receipt.operationId, sequence := next.1,
    eventType := ⟨"operation.terminal", by decide⟩, occurredAt := receipt.completedAt,
    state := receipt.outcome.state, hostId := receipt.hostId, app := receipt.app,
    environment := receipt.environment, revisionId := some receipt.desiredRevisionId,
    message := none, evidenceDigests := ⟨[], by decide⟩, previousEventDigest := next.2 }

/-- The receipt binds the operation, its approval and its plan. -/
def bindReceipt (r : AcceptedRow) (receipt : TerminalReceipt) : Result Unit := do
  let conflict : Failure :=
    .operationConflict "Terminal receipt does not bind the accepted operation and plan."
  let planClaims ← jsonLoads r.plan.payloadJson
  ensure (receipt.operation = r.operation.operationClass ∧
      receipt.planId = r.approval.planId ∧
      receipt.planDigest = r.plan.planDigest ∧
      receipt.decisionId = r.operation.decisionId ∧
      receipt.hostId = r.operation.hostId ∧
      receipt.app = r.operation.app ∧
      receipt.environment = r.operation.environment ∧
      receipt.desiredRevisionId = r.operation.revisionId) conflict
  let revisionDigest ← item planClaims "revision_digest"
  ensure (.str receipt.desiredRevisionDigest.val = revisionDigest) conflict
  let artifactDigests ← item planClaims "artifact_digests"
  ensure (.arr (receipt.artifactDigests.1.map fun d => .str d.val) = artifactDigests) conflict

/-- `_commit_receipt_tx`; the flag says whether anything was written. -/
def commitReceiptTx (j : Journal) (receipt : TerminalReceipt) (receiptJson : String)
    (freshId : Nat → EntityId .event) : Result (Journal × Bool) :=
  match j.receipt? receipt.operationId with
  | some existing => do
      let _ ← j.verifiedEvents receipt.operationId
      if existing.payloadJson = receiptJson then return (j, false)
      else throw (.operationConflict "Operation already has a different terminal receipt.")
  | none =>
      match j.acceptedRow? receipt.operationId with
      | none => .error (.operationConflict "Cannot commit a receipt for an unknown operation.")
      | some r => do
          ensure (r.operation.state.terminal = false)
            (.operationConflict "Operation is already terminal.")
          bindReceipt r receipt
          let event := j.terminalEvent receipt freshId
          let eventJson ← boundedJson (OperationEvent.schema.canonicalJson event)
          let j ← j.appendEvent event eventJson true
          let terminalReceipts ←
            insertRow j.terminalReceipts
              ⟨receipt.receiptId, receipt.operationId, receipt.outcome, receipt.digest, receiptJson⟩
              "terminal_receipts.receipt_id"
          return ({ j with terminalReceipts }, true)

/-- `commit_receipt`. -/
def commitReceipt (j : Journal) (receipt : TerminalReceipt) (leaseOwner : Option String)
    (fencingToken : Option Int) (clock : Option Int) (freshId : Nat → EntityId .event) :
    Result (Journal × Unit) := do
  revalidateReceipt receipt
  let receiptJson ← boundedJson receipt.canonicalJson
  j.assertFence receipt.operationId leaseOwner fencingToken clock
  let (j, _) ← j.commitReceiptTx receipt receiptJson freshId
  return (j, ())

/-! ### Atomic success -/

/-- The types of the events that only a success transaction may write. -/
def COMPLETION_EVENTS : List String :=
  ["phase.commit.completed", "phase.emit_receipt.started", "phase.emit_receipt.completed"]

/-- A phase event of a success transaction. -/
def phaseEvent (j : Journal) (receipt : TerminalReceipt) (freshId : Nat → EntityId .event)
    (eventType : Text 128) (evidenceDigests : Digests) : OperationEvent :=
  let next := j.nextEvent receipt.operationId
  { eventId := freshId next.1.1, operationId := receipt.operationId, sequence := next.1,
    eventType, occurredAt := receipt.completedAt, state := .executing,
    hostId := receipt.hostId, app := receipt.app, environment := receipt.environment,
    revisionId := some receipt.desiredRevisionId, message := none, evidenceDigests,
    previousEventDigest := next.2 }

/-- Append the phase events of a success transaction one after the other. -/
def appendPhaseEvents (receipt : TerminalReceipt) (freshId : Nat → EntityId .event) :
    Journal → List (Text 128 × Digests) → Result Journal
  | j, [] => .ok j
  | j, (eventType, evidence) :: rest => do
      let event := j.phaseEvent receipt freshId eventType evidence
      let eventJson ← boundedJson (OperationEvent.schema.canonicalJson event)
      let j ← j.appendEvent event eventJson false
      appendPhaseEvents receipt freshId j rest

/-- A single digest is a sorted collection of digests. -/
def oneDigest (d : Digest) : Digests :=
  ⟨[d], by simp [sortedUnique]⟩

/-- The phases a success transaction records. -/
def successPhases (receipt : TerminalReceipt) (started : Bool) : List (Text 128 × Digests) :=
  (if started then [] else [(⟨"phase.commit.started", by decide⟩, ⟨[], by decide⟩)]) ++
    [(⟨"phase.commit.completed", by decide⟩, oneDigest receipt.desiredRevisionDigest),
     (⟨"phase.emit_receipt.started", by decide⟩, ⟨[], by decide⟩),
     (⟨"phase.emit_receipt.completed", by decide⟩, oneDigest receipt.digest)]

/-- `_append_success_phase_events_tx`. -/
def appendSuccessPhaseEventsTx (j : Journal) (receipt : TerminalReceipt)
    (freshId : Nat → EntityId .event) : Result Journal := do
  let events ← j.verifiedEvents receipt.operationId
  let existing := events.map (·.eventType.val)
  ensure (∀ t ∈ COMPLETION_EVENTS, t ∉ existing)
    (.operationConflict "Success phase completion events may only be committed atomically.")
  appendPhaseEvents receipt freshId j
    (successPhases receipt (existing.contains "phase.commit.started"))

/-- The receipt was already committed: its marker and the active revision must agree. -/
def replayedSuccess (j : Journal) (receipt : TerminalReceipt) : Result ActiveRevision := do
  let _ ← j.verifiedEvents receipt.operationId
  let failure : Failure :=
    .integrity "Atomic success receipt does not reconcile with active revision."
  match j.atomicSuccessCommits.get? receipt.operationId,
    j.activeRevisions.get? ⟨receipt.hostId, receipt.app, receipt.environment⟩ with
  | some marker, some active =>
      ensure (active.operationId = receipt.operationId ∧
          active.revisionDigest = receipt.desiredRevisionDigest ∧
          marker.activeGeneration = active.generation) failure
      return activeRevisionFromRow active
  | _, _ => throw failure

/-- The checks of a success before anything is written. -/
def admitSuccess (j : Journal) (receipt : TerminalReceipt) (clock : Option Int) :
    Result Unit := do
  let control ← j.controlTx receipt.operationId
  let now ← clockSample clock
  let datetime ← toDatetime now
  ensure (control.cancellationRequested = false)
    (.operationConflict "Successful commit is blocked by durable cancellation.")
  ensure (control.deadline.any fun d => datetime < d.instant)
    (.operationConflict "Successful commit is blocked by the execution deadline.")
  let current := j.activeRevisions.get? ⟨receipt.hostId, receipt.app, receipt.environment⟩
  ensure (receipt.previousRevisionId = current.map (·.revisionId))
    (.operationConflict "Successful receipt does not bind the exact predecessor revision.")

/-- `commit_success`. -/
def commitSuccess (j : Journal) (receipt : TerminalReceipt) (expectedDigest : Option String)
    (fence : ExecutionFence) (clock : Nat → Option Int) (freshId : Nat → EntityId .event) :
    Result (Journal × ActiveRevision) := do
  revalidateReceipt receipt
  ensure (receipt.outcome = .succeeded)
    (.operationConflict "Atomic success requires a succeeded terminal receipt.")
  let receiptJson ← boundedJson receipt.canonicalJson
  j.assertExecutionFence receipt.operationId.val fence (clock 0)
  match j.receipt? receipt.operationId with
  | some existing =>
      ensure (existing.payloadJson = receiptJson)
        (.operationConflict "Operation already has a different terminal receipt.")
      let active ← j.replayedSuccess receipt
      return (j, active)
  | none =>
      j.admitSuccess receipt (clock 1)
      let (j, active) ←
        j.casActiveRevisionTx receipt.operationId expectedDigest fence fun i => clock (i + 2)
      ensure (receipt.activeRevisionId = some active.revisionId ∧
          receipt.activeRevisionDigest = some active.revisionDigest)
        (.operationConflict "Successful receipt does not bind the activated revision.")
      let j ← j.appendSuccessPhaseEventsTx receipt freshId
      let (j, _) ← j.commitReceiptTx receipt receiptJson freshId
      let atomicSuccessCommits ←
        insertRow j.atomicSuccessCommits ⟨receipt.operationId, active.generation⟩
          "atomic_success_commits.operation_id"
      return ({ j with atomicSuccessCommits }, active)

end Journal

end Ophelia
