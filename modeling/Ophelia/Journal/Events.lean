import Ophelia.Journal.Acceptance

/-!
# Ophelia.Journal.Events

The event chain of an operation and the host event stream it is mirrored into. Events are
appended one at a time, each naming the sequence number it takes and the digest of the
event before it; the state of an operation is the state of its last event. A terminal
state needs a receipt, so only a receipt commit may append a terminal event.
-/

namespace Ophelia

variable [Platform]

namespace Journal

/-- The sequence number and the predecessor digest of the next event. -/
def nextEvent (j : Journal) (operationId : EntityId .operation) : Pos × Option Digest :=
  match (j.eventRows operationId).getLast? with
  | none => (⟨1, by decide⟩, none)
  | some r => (⟨r.sequence.1 + 1, Nat.succ_pos _⟩, some r.eventDigest)

/-- `_append_event`: check the event against the operation and the chain, then write it,
mirror it to the host stream and set the state of the operation. -/
def appendEvent (j : Journal) (event : OperationEvent) (payloadJson : String)
    (allowTerminal : Bool) : Result Journal := do
  match j.operations.get? event.operationId with
  | none => throw (.operationConflict "Cannot append an event for an unknown operation.")
  | some o =>
      ensure (o.state.terminal = false)
        (.operationConflict "Cannot append an event after terminal commit.")
      ensure (event.state.terminal = true → allowTerminal = true)
        (.operationConflict
          "Terminal state may only be appended with an atomic receipt commit.")
      ensure (event.hostId = o.hostId ∧ event.app = o.app ∧ event.environment = o.environment ∧
          (∀ r, event.revisionId = some r → r = o.revisionId))
        (.operationConflict "Event identity does not match its operation.")
      ensure (event.sequence = (j.nextEvent event.operationId).1)
        (.operationConflict "Event sequence must be the next strict per-operation sequence.")
      ensure (event.previousEventDigest = (j.nextEvent event.operationId).2)
        (.operationConflict "Event digest chain does not match durable history.")
      let digest := OperationEvent.schema.digest event
      ensure (∀ r ∈ j.operationEvents.rows, r.eventId ≠ event.eventId)
        (.sqliteIntegrity "UNIQUE constraint failed: operation_events.event_id")
      let operationEvents ←
        insertRow j.operationEvents
          ⟨event.operationId, event.sequence, event.eventId, digest, payloadJson⟩
          "operation_events"
      ensure (∀ r ∈ j.hostEvents.rows, r.eventId ≠ event.eventId)
        (.sqliteIntegrity "UNIQUE constraint failed: host_events.event_id")
      let hostEvents ←
        insertRow j.hostEvents
          { cursor := j.latestCursor + 1, eventId := event.eventId, eventType := .operation,
            operationId := some event.operationId, workloadRunId := none,
            eventDigest := digest, occurredAt := event.occurredAt, payloadJson }
          "host_events.cursor"
      let operations := j.operations.put { o with state := event.state }
      return { j with operationEvents, hostEvents, operations }

/-- `append`. -/
def append (j : Journal) (event : OperationEvent) (leaseOwner : Option String)
    (fencingToken : Option Int) (clock : Option Int) : Result (Journal × Unit) := do
  let payloadJson ← boundedJson (OperationEvent.schema.canonicalJson event)
  j.assertFence event.operationId leaseOwner fencingToken clock
  let j ← j.appendEvent event payloadJson false
  return (j, ())

/-! ### Verified history -/

/-- One row of a history agrees with its payload, its operation and its place. -/
def eventReconciles (o : OperationRow) (expected : Nat) (previous : Option Digest)
    (row : EventRow) (event : OperationEvent) : Prop :=
  row.sequence.1 = expected ∧ event.sequence.1 = expected ∧
  event.operationId = o.operationId ∧ event.eventId = row.eventId ∧
  event.hostId = o.hostId ∧ event.app = o.app ∧ event.environment = o.environment ∧
  (∀ r, event.revisionId = some r → r = o.revisionId) ∧
  row.eventDigest = OperationEvent.schema.digest event ∧
  event.previousEventDigest = previous ∧
  OperationEvent.schema.canonicalJson event = row.payloadJson

instance {α : Type} (x : Option α) (p : α → Prop) [DecidablePred p] :
    Decidable (∀ r, x = some r → p r) :=
  match x with
  | none => .isTrue (by simp)
  | some a => decidable_of_iff (p a) (by simp)

instance (o : OperationRow) (n : Nat) (p : Option Digest) (r : EventRow) (e : OperationEvent) :
    Decidable (eventReconciles o n p r e) := by
  unfold eventReconciles
  infer_instance

/-- `_event_from_json`. -/
def eventFromJson (payloadJson : String) : Result OperationEvent :=
  jsonLoads payloadJson >>= OperationEvent.fromPayload

/-- Check one row of a history against the sequence number it must have and the digest it
must name. -/
def eventStep (o : OperationRow) (position : Nat × Option Digest) (row : EventRow) :
    Result (OperationEvent × Nat × Option Digest) := do
  let event ← (eventFromJson row.payloadJson).mapError fun _ =>
    .integrity "Operation event payload integrity validation failed."
  ensure (eventReconciles o position.1 position.2 row event)
    (.integrity "Operation event chain integrity validation failed.")
  return (event, position.1 + 1, some (OperationEvent.schema.digest event))

/-- The rows of a history in order, with the sequence number and the digest the next row
would have to continue. -/
def verifyChain (o : OperationRow) (rows : List EventRow) :
    Result (List OperationEvent × Nat × Option Digest) :=
  walk (eventStep o) (1, none) rows

/-- Receipt row, parsed receipt, operation and events agree. -/
def receiptReconciles (o : OperationRow) (r : AcceptedRow) (claims : AcceptedClaims)
    (events : List OperationEvent) (row : ReceiptRow) (receipt : TerminalReceipt) : Prop :=
  receipt.canonicalJson = row.payloadJson ∧
  receipt.digest = row.receiptDigest ∧
  receipt.receiptId = row.receiptId ∧
  receipt.operationId = o.operationId ∧
  receipt.outcome = row.outcome ∧
  receipt.operation = o.operationClass ∧
  receipt.planId = r.approval.planId ∧
  receipt.planDigest = r.plan.planDigest ∧
  receipt.decisionId = o.decisionId ∧
  receipt.hostId = o.hostId ∧
  receipt.app = o.app ∧
  receipt.environment = o.environment ∧
  receipt.desiredRevisionId = o.revisionId ∧
  receipt.desiredRevisionDigest = claims.approval.revisionDigest ∧
  receipt.artifactDigests = claims.approval.artifactDigests ∧
  claims.approval.decisionId = receipt.decisionId ∧
  o.state.terminal = true ∧
  row.outcome.state = o.state ∧
  (events.filter fun e => e.state.terminal).length = 1 ∧
  (events.getLast?.any fun e => e.state.terminal && e.eventType.val == "operation.terminal" &&
    e.state == o.state && e.occurredAt == receipt.completedAt) = true

instance (o : OperationRow) (r : AcceptedRow) (c : AcceptedClaims) (es : List OperationEvent)
    (row : ReceiptRow) (receipt : TerminalReceipt) :
    Decidable (receiptReconciles o r c es row receipt) := by
  unfold receiptReconciles
  infer_instance

/-- Parse the stored text of a receipt. -/
def receiptFromJson (payloadJson : String) : Result TerminalReceipt :=
  loadsObject payloadJson >>= TerminalReceipt.fromPayload

/-- `_verified_events`. -/
def verifiedEvents (j : Journal) (operationId : EntityId .operation) :
    Result (List OperationEvent) :=
  match j.acceptedRow? operationId with
  | none => .error (.integrity "Event history references an unknown operation.")
  | some r => do
      let o := r.operation
      let claims ← verifiedAcceptanceClaims r
      let (events, _) ← verifyChain o (j.eventRows operationId)
      ensure (o.state = events.getLast?.elim .accepted (·.state))
        (.integrity "Operation state does not match its final event.")
      match j.receipt? operationId with
      | none =>
          ensure (o.state.terminal = false ∧ ∀ e ∈ events, e.state.terminal = false)
            (.integrity "Terminal operation state requires an atomic terminal receipt.")
          return events
      | some row =>
          let receipt ← (receiptFromJson row.payloadJson).mapError fun _ =>
            .integrity "Terminal receipt payload is invalid."
          ensure (receiptReconciles o r claims events row receipt)
            (.integrity "Terminal event, operation state, and receipt do not reconcile.")
          return events

/-! ### Delivery -/

/-- `acknowledge_host_events`: the acknowledged cursor of a consumer never goes back and
never passes the stream. -/
def acknowledgeHostEvents (j : Journal) (consumerId : String) (cursor : Int)
    (clock : Option Int) : Result (Journal × Nat) := do
  let consumer ← requireText 2048 "consumer_id" (.str consumerId)
  ensure (0 ≤ cursor) (.contractValidation "cursor must be a non-negative integer.")
  ensure (cursor ≤ j.latestCursor)
    (.operationConflict "Event acknowledgement exceeds the host event cursor.")
  let acknowledged :=
    max cursor.toNat ((j.eventDelivery.get? consumer).elim 0 (·.acknowledgedCursor))
  let now ← clockSample clock
  let updatedAt ← timestamp now
  let eventDelivery := j.eventDelivery.put ⟨consumer, acknowledged, updatedAt⟩
  return ({ j with eventDelivery }, acknowledged)

end Journal

end Ophelia
