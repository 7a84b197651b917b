import Ophelia.Domain.Receipts
import Ophelia.Lib.Chain

/-!
# Ophelia.Journal.State

The durable state of the operation journal: one table per table of the schema in
`execution/migrations.py`, with its columns typed. Texts of contracts are kept as texts;
identifiers, digests and states are kept as the values their columns spell. Primary keys
are part of the tables and positive columns have positive types; the other `UNIQUE`
constraints are checked by the writers.

A journal call runs in one `BEGIN IMMEDIATE` transaction: it either commits all of its
writes or none of them, so it is a function from a journal to a `Result`.
-/

namespace Ophelia

/-! ### Scopes and fences -/

/-- One application environment on one host. -/
structure Scope where
  hostId : EntityId .host
  app : Slug
  environment : Slug
deriving DecidableEq

/-- Lease identity carried on every authoritative execution mutation. -/
structure ExecutionFence where
  operationId : EntityId .operation
  ownerId : Text 255
  fencingToken : Pos
  expiresAt : Int
deriving DecidableEq

/-- `ExecutionControl`: the deadline and the cancellation of an operation. -/
structure ExecutionControl [Platform] where
  operationId : EntityId .operation
  deadline : Option Utc
  cancellation : Option (Actor × Utc)

namespace ExecutionControl

variable [Platform]

def cancellationRequested (c : ExecutionControl) : Bool :=
  c.cancellation.isSome

end ExecutionControl

/-- One entry of the lifecycle of a revision. -/
structure RevisionLifecycleEntry [Platform] where
  operationId : EntityId .operation
  sequence : Pos
  revisionId : EntityId .rev
  revisionDigest : Digest
  state : RevisionState
  occurredAt : Utc

namespace RevisionLifecycleEntry

variable [Platform]

def schema : Schema RevisionLifecycleEntry where
  kind := "ophelia.kernel.revision_lifecycle_entry"
  keys := ["operation_id", "sequence", "revision_id", "revision_digest", "state",
    "occurred_at"]
  fields e :=
    [("operation_id", (Codec.entityId .operation).enc e.operationId),
     ("sequence", Codec.positive.enc e.sequence),
     ("revision_id", (Codec.entityId .rev).enc e.revisionId),
     ("revision_digest", Codec.digest.enc e.revisionDigest),
     ("state", RevisionState.codec.enc e.state),
     ("occurred_at", Codec.utc.enc e.occurredAt)]
  keys_eq _ := rfl
  kind_safe := by decide
  keys_plain := by decide +kernel
  keys_nodup := by decide
  values_plain _ := by simp

def fromPayload (payload : Json) : Result RevisionLifecycleEntry := do
  let operationId ← (Codec.entityId .operation).field "operation_id" payload
  let sequence ← Codec.positive.field "sequence" payload
  let revisionId ← (Codec.entityId .rev).field "revision_id" payload
  let revisionDigest ← Codec.digest.field "revision_digest" payload
  let state ← RevisionState.codec.field "state" payload
  let occurredAt ← Codec.utc.field "occurred_at" payload
  return { operationId, sequence, revisionId, revisionDigest, state, occurredAt }

/-- A lifecycle entry has no free text. -/
theorem fromPayload_toDict (e : RevisionLifecycleEntry) :
    fromPayload (schema.toDict e).sortKeys = .ok e := by
  have h := schema.holds e
  generalize (schema.toDict e).sortKeys = payload at h ⊢
  simp only [schema, Holds, List.forall_mem_cons] at h
  obtain ⟨h₁, h₂, h₃, h₄, h₅, h₆, -⟩ := h
  simp only [fromPayload, Codec.field_of_holds _ h₁, Codec.field_of_holds _ h₂,
    Codec.field_of_holds _ h₃, Codec.field_of_holds _ h₄, Codec.field_of_holds _ h₅,
    Codec.field_of_holds _ h₆, Result.ok_bind]
  rfl

end RevisionLifecycleEntry

/-- The revision a scope runs, by the word of the journal. -/
structure ActiveRevision [Platform] where
  scope : Scope
  operationId : EntityId .operation
  revisionId : EntityId .rev
  revisionDigest : Digest
  generation : Pos
  updatedAt : Utc

namespace ActiveRevision

variable [Platform]

def schema : Schema ActiveRevision where
  kind := "ophelia.kernel.active_revision"
  keys := ["host_id", "app", "environment", "operation_id", "revision_id", "revision_digest",
    "generation", "updated_at"]
  fields a :=
    [("host_id", (Codec.entityId .host).enc a.scope.hostId),
     ("app", Codec.slug.enc a.scope.app),
     ("environment", Codec.slug.enc a.scope.environment),
     ("operation_id", (Codec.entityId .operation).enc a.operationId),
     ("revision_id", (Codec.entityId .rev).enc a.revisionId),
     ("revision_digest", Codec.digest.enc a.revisionDigest),
     ("generation", Codec.positive.enc a.generation),
     ("updated_at", Codec.utc.enc a.updatedAt)]
  keys_eq _ := rfl
  kind_safe := by decide
  keys_plain := by decide +kernel
  keys_nodup := by decide
  values_plain _ := by simp

end ActiveRevision

/-! ### Rows -/

structure PlanRow where
  planId : EntityId .plan
  planDigest : Digest
  requestDigest : Digest
  payloadJson : String
deriving DecidableEq

structure ApprovalRow where
  decisionId : EntityId .decision
  planId : EntityId .plan
  actorId : EntityId .actor
  approvalDigest : Digest
  payloadJson : String
deriving DecidableEq

structure OperationRow where
  operationId : EntityId .operation
  requestId : EntityId .request
  actorId : EntityId .actor
  operationClass : OperationName
  requestDigest : Digest
  state : OperationState
  hostId : EntityId .host
  app : Slug
  environment : Slug
  revisionId : EntityId .rev
  decisionId : EntityId .decision
  requestJson : String
  actorJson : String
  acceptedAt : String
deriving DecidableEq

def OperationRow.scope (o : OperationRow) : Scope :=
  ⟨o.hostId, o.app, o.environment⟩

/-- Actor, operation class and digest of the idempotency key. -/
structure IdempotencyKey where
  actorId : EntityId .actor
  operationClass : OperationName
  keyDigest : Digest
deriving DecidableEq

structure IdempotencyRow where
  key : IdempotencyKey
  requestDigest : Digest
  operationId : EntityId .operation
deriving DecidableEq

structure EventRow where
  operationId : EntityId .operation
  sequence : Pos
  eventId : EntityId .event
  eventDigest : Digest
  payloadJson : String
deriving DecidableEq

/-- `ownerId` is empty once the lease is released. -/
structure LeaseRow where
  operationId : EntityId .operation
  ownerId : Option (Text 255)
  fencingToken : Pos
  expiresAt : Int
deriving DecidableEq

structure ScopeLeaseRow where
  scope : Scope
  operationId : EntityId .operation
  ownerId : Option (Text 255)
  fencingToken : Pos
  expiresAt : Int
deriving DecidableEq

structure ReceiptRow where
  receiptId : EntityId .receipt
  operationId : EntityId .operation
  outcome : ReceiptOutcome
  receiptDigest : Digest
  payloadJson : String
deriving DecidableEq

structure InputRow [Platform] where
  operationId : EntityId .operation
  inputDigest : Digest
  deadline : Utc
  payloadJson : String
deriving DecidableEq

structure ControlRow [Platform] where
  operationId : EntityId .operation
  cancellationActorJson : Option String
  cancellationRequestedAt : Option Utc
deriving DecidableEq

structure LifecycleRow [Platform] where
  operationId : EntityId .operation
  sequence : Pos
  revisionId : EntityId .rev
  revisionDigest : Digest
  state : RevisionState
  occurredAt : Utc
  leaseOwner : Text 255
  fencingToken : Pos
  payloadJson : String
deriving DecidableEq

structure ActiveRow [Platform] where
  scope : Scope
  operationId : EntityId .operation
  revisionId : EntityId .rev
  revisionDigest : Digest
  generation : Pos
  updatedAt : Utc
  payloadJson : String
deriving DecidableEq

structure AtomicSuccessRow where
  operationId : EntityId .operation
  activeGeneration : Pos
deriving DecidableEq

/-- The two kinds of entries in the host event stream. -/
inductive HostEventType where
  | operation
  | workload
deriving DecidableEq, Repr

structure HostEventRow [Platform] where
  cursor : Nat
  eventId : EntityId .event
  eventType : HostEventType
  operationId : Option (EntityId .operation)
  workloadRunId : Option String
  eventDigest : Digest
  occurredAt : Utc
  payloadJson : String
deriving DecidableEq

structure DeliveryRow [Platform] where
  consumerId : Text 2048
  acknowledgedCursor : Nat
  updatedAt : Utc
deriving DecidableEq

/-! ### Rows of the daemon

The daemon, the outbound agent and the workload runner keep their own tables in the same
database. The calls modelled here never write them; the integrity check reads them. -/

structure DaemonPlanRequestRow where
  actorId : String
  idempotencyKeyDigest : String
  requestDigest : String
  planId : String
  createdAt : String
deriving DecidableEq

structure HostStateRow where
  hostId : String
  lifecycleState : String
  maintenanceMode : Bool
  drained : Bool
  capabilitiesJson : String
  protocolVersion : Int
  startedAt : String
  heartbeatAt : String
  updatedAt : String
deriving DecidableEq

structure HostObservationRow where
  observationId : Nat
  hostId : String
  observedAt : String
  status : String
  observationDigest : String
  payloadJson : String
deriving DecidableEq

structure AgentStateRow where
  hostId : String
  acknowledgedCommandSequence : Int
  connectionState : String
  connectedAt : Option String
  lastExchangeAt : Option String
  updatedAt : String
deriving DecidableEq

structure AgentCommandRow where
  commandId : String
  sequence : Int
  operation : String
  actorId : String
  idempotencyKeyDigest : String
  envelopeDigest : String
  requestDigest : String
  payloadJson : String
  state : String
  acceptedAt : String
  startedAt : Option String
  completedAt : Option String
  resultDigest : Option String
  resultJson : Option String
  bundlePrunedAt : Option String
deriving DecidableEq

structure WorkloadRunRow where
  runId : String
  actorId : String
  idempotencyKeyDigest : String
  hostId : String
  app : String
  environment : String
  revisionId : String
  revisionDigest : String
  workloadName : String
  workloadKind : String
  triggerKind : String
  state : String
  requestDigest : String
  requestJson : String
  acceptedAt : String
  startedAt : Option String
  completedAt : Option String
  cancellationRequestedAt : Option String
  leaseOwner : Option String
  leaseExpires : Option Int
  resultDigest : Option String
deriving DecidableEq

structure WorkloadRunEventRow where
  runId : String
  sequence : Int
  eventId : String
  eventDigest : String
  payloadJson : String
deriving DecidableEq

/-! ### The journal -/

/-- The operation database. -/
structure Journal [Platform] where
  plans : Table PlanRow.planId
  approvals : Table ApprovalRow.decisionId
  operations : Table OperationRow.operationId
  idempotencyKeys : Table IdempotencyRow.key
  operationEvents : Table fun r : EventRow => (r.operationId, r.sequence)
  operationLeases : Table LeaseRow.operationId
  terminalReceipts : Table ReceiptRow.receiptId
  operationInputs : Table InputRow.operationId
  operationControls : Table ControlRow.operationId
  revisionLifecycle : Table fun r : LifecycleRow => (r.operationId, r.sequence)
  activeRevisions : Table ActiveRow.scope
  atomicSuccessCommits : Table AtomicSuccessRow.operationId
  executionScopeLeases : Table ScopeLeaseRow.scope
  hostEvents : Table HostEventRow.cursor
  eventDelivery : Table DeliveryRow.consumerId
  daemonPlanRequests : List DaemonPlanRequestRow
  hostState : List HostStateRow
  hostObservations : List HostObservationRow
  agentState : List AgentStateRow
  agentCommands : List AgentCommandRow
  workloadRuns : List WorkloadRunRow
  workloadRunEvents : List WorkloadRunEventRow

namespace Journal

variable [Platform]

/-- A freshly migrated database. -/
def fresh : Journal where
  plans := .empty
  approvals := .empty
  operations := .empty
  idempotencyKeys := .empty
  operationEvents := .empty
  operationLeases := .empty
  terminalReceipts := .empty
  operationInputs := .empty
  operationControls := .empty
  revisionLifecycle := .empty
  activeRevisions := .empty
  atomicSuccessCommits := .empty
  executionScopeLeases := .empty
  hostEvents := .empty
  eventDelivery := .empty
  daemonPlanRequests := []
  hostState := []
  hostObservations := []
  agentState := []
  agentCommands := []
  workloadRuns := []
  workloadRunEvents := []

/-! ### Queries -/

/-- `SELECT … FROM operations WHERE operation_id = ?`. -/
def operation? (j : Journal) (id : String) : Option OperationRow :=
  j.operations.rows.find? fun o => o.operationId.val = id

/-- The events of an operation, `ORDER BY sequence`. -/
def eventRows (j : Journal) (id : EntityId .operation) : List EventRow :=
  j.operationEvents.log (·.operationId) (·.sequence.1) id

/-- The lifecycle of an operation's revision, `ORDER BY sequence`. -/
def lifecycleRows (j : Journal) (id : EntityId .operation) : List LifecycleRow :=
  j.revisionLifecycle.log (·.operationId) (·.sequence.1) id

/-- The terminal receipt of an operation; `operation_id` is unique. -/
def receipt? (j : Journal) (id : EntityId .operation) : Option ReceiptRow :=
  j.terminalReceipts.rows.find? fun r => r.operationId = id

/-- `SELECT COALESCE(MAX(cursor), 0) FROM host_events`. -/
def latestCursor (j : Journal) : Nat :=
  (j.hostEvents.rows.map (·.cursor)).foldr max 0

/-- The fencing tokens ever written for operations of a scope. -/
def scopeTokens (j : Journal) (scope : Scope) : List Nat :=
  (j.operationLeases.rows.filter fun l =>
    (j.operations.get? l.operationId).any (·.scope = scope)).map (·.fencingToken.1)

/-- `SELECT MAX(fencing_token)` over the operations of a scope, zero without rows. -/
def maxScopeToken (j : Journal) (scope : Scope) : Nat :=
  (j.scopeTokens scope).foldr max 0

end Journal

/-! ### Clock and calendar -/

/-- `_clock_sample`: a finite reading of the journal clock. -/
def clockSample (reading : Option Int) : Result Int :=
  match reading with
  | some now => .ok now
  | none => .error (.integrity "Operation journal clock returned a non-finite sample.")

/-- `datetime.fromtimestamp(now, timezone.utc)`. -/
def toDatetime [Platform] (now : Int) : Result Int :=
  match Platform.fromTimestamp now with
  | some d => .ok d
  | none => .error (.valueError "timestamp out of range")

/-- `datetime.fromtimestamp(now, timezone.utc).isoformat().replace("+00:00", "Z")`. -/
def timestamp [Platform] (now : Int) : Result Utc :=
  match h : Platform.fromTimestamp now with
  | some d =>
      .ok ⟨Platform.isoformat d, by
        simp [isUtc, Platform.parseUtc_isoformat h]⟩
  | none => .error (.valueError "timestamp out of range")

/-- `_bounded_json`: canonical texts of at most 65536 bytes; they are ASCII, so bytes are
characters. -/
def boundedJson (payload : String) : Result String :=
  if payload.toList.length ≤ 65536 then .ok payload
  else .error (.contractValidation "Canonical journal payload exceeds the 65536-byte bound.")

/-- Insert a row under a primary key that must be free. -/
def insertRow {κ ρ : Type} [DecidableEq κ] {key : ρ → κ} (t : Table key) (r : ρ)
    (constraint : String) : Result (Table key) :=
  match t.insert? r with
  | some t' => .ok t'
  | none => .error (.sqliteIntegrity ("UNIQUE constraint failed: " ++ constraint))

end Ophelia
