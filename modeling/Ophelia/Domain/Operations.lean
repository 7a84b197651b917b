import Ophelia.Domain.Codec

/-!
# Ophelia.Domain.Operations

Operation identities and requests (`domain/operations.py`) and the bounded, replayable
events of an operation (`domain/events.py`).
-/

namespace Ophelia

/-! ### Operation states -/

inductive OperationState where
  | accepted
  | planning
  | awaitingApproval
  | queued
  | executing
  | compensating
  | succeeded
  | failedCompensated
  | failedUncompensated
  | cancelling
  | cancelled
deriving DecidableEq, Repr

namespace OperationState

def value : OperationState → String
  | accepted => "accepted"
  | planning => "planning"
  | awaitingApproval => "awaiting_approval"
  | queued => "queued"
  | executing => "executing"
  | compensating => "compensating"
  | succeeded => "succeeded"
  | failedCompensated => "failed_compensated"
  | failedUncompensated => "failed_uncompensated"
  | cancelling => "cancelling"
  | cancelled => "cancelled"

def all : List OperationState :=
  [accepted, planning, awaitingApproval, queued, executing, compensating, succeeded,
    failedCompensated, failedUncompensated, cancelling, cancelled]

def terminal : OperationState → Bool
  | succeeded | failedCompensated | failedUncompensated | cancelled => true
  | _ => false

def codec : Codec OperationState :=
  .enum all value (by intro e; cases e <;> rfl) (by intro e; cases e <;> decide +kernel)

end OperationState

/-! ### Actors -/

/-- An authenticated, server-derived actor. -/
structure Actor where
  actorId : EntityId .actor
  source : Text 128
  authenticatedBy : Text 128
deriving DecidableEq

namespace Actor

def schema : Schema Actor where
  kind := "ophelia.kernel.actor"
  keys := ["actor_id", "source", "authenticated_by"]
  fields a :=
    [("actor_id", (Codec.entityId .actor).enc a.actorId),
     ("source", Codec.text128.enc a.source),
     ("authenticated_by", Codec.text128.enc a.authenticatedBy)]
  keys_eq _ := rfl
  kind_safe := by decide
  keys_plain := by decide +kernel
  keys_nodup := by decide
  values_plain _ := by simp

/-- `_actor_from_payload`. -/
def fromPayload (payload : Json) : Result Actor := do
  let actorId ← (Codec.entityId .actor).field "actor_id" payload
  let source ← Codec.text128.field "source" payload
  let authenticatedBy ← Codec.text128.field "authenticated_by" payload
  return { actorId, source, authenticatedBy }

def masked (a : Actor) : Actor :=
  { a with source := Codec.text128.masked a.source,
           authenticatedBy := Codec.text128.masked a.authenticatedBy }

def codec : Codec Actor :=
  schema.codec fromPayload masked
    (by
      intro a payload h
      simp only [schema, Holds, List.forall_mem_cons] at h
      simp only [fromPayload, Codec.field_of_holds _ h.1, Codec.field_of_holds _ h.2.1,
        Codec.field_of_holds _ h.2.2.1]
      rfl)
    (by intro a; simp only [schema, masked, maskMembers, Codec.mask_enc])

end Actor

/-! ### Requests -/

/-- Normalized mutating intent. -/
structure OperationRequest where
  requestId : EntityId .request
  operation : OperationName
  hostId : EntityId .host
  app : Slug
  environment : Slug
  revisionId : EntityId .rev
  revisionDigest : Digest
  idempotencyKey : Text 255
deriving DecidableEq

namespace OperationRequest

def schema : Schema OperationRequest where
  kind := "ophelia.kernel.operation_request"
  keys := ["request_id", "operation", "host_id", "app", "environment", "revision_id",
    "revision_digest", "idempotency_key"]
  fields r :=
    [("request_id", (Codec.entityId .request).enc r.requestId),
     ("operation", Codec.operationName.enc r.operation),
     ("host_id", (Codec.entityId .host).enc r.hostId),
     ("app", Codec.slug.enc r.app),
     ("environment", Codec.slug.enc r.environment),
     ("revision_id", (Codec.entityId .rev).enc r.revisionId),
     ("revision_digest", Codec.digest.enc r.revisionDigest),
     ("idempotency_key", Codec.text255.enc r.idempotencyKey)]
  keys_eq _ := rfl
  kind_safe := by decide
  keys_plain := by decide +kernel
  keys_nodup := by decide
  values_plain _ := by simp

/-- Digest of the normalized intent, without transport retry or idempotency identity. -/
def intentDigest [Platform] (r : OperationRequest) : Digest :=
  digestText (canonicalJson (((schema.toDict r).pop "request_id").pop "idempotency_key"))

/-- The claims the journal keeps of a request: the idempotency key only as its digest. -/
def claims (r : OperationRequest) (keyDigest : Digest) : Json :=
  ((schema.toDict r).pop "idempotency_key").add "idempotency_key_digest" (.str keyDigest.val)

/-- The serialized claims as a contract of their own. -/
def claimsSchema : Schema (OperationRequest × Digest) where
  kind := "ophelia.kernel.operation_request"
  keys := ["request_id", "operation", "host_id", "app", "environment", "revision_id",
    "revision_digest", "idempotency_key_digest"]
  fields r :=
    [("request_id", (Codec.entityId .request).enc r.1.requestId),
     ("operation", Codec.operationName.enc r.1.operation),
     ("host_id", (Codec.entityId .host).enc r.1.hostId),
     ("app", Codec.slug.enc r.1.app),
     ("environment", Codec.slug.enc r.1.environment),
     ("revision_id", (Codec.entityId .rev).enc r.1.revisionId),
     ("revision_digest", Codec.digest.enc r.1.revisionDigest),
     ("idempotency_key_digest", Codec.digest.enc r.2)]
  keys_eq _ := rfl
  kind_safe := by decide
  keys_plain := by decide +kernel
  keys_nodup := by decide
  values_plain _ := by simp

theorem claims_eq (r : OperationRequest) (d : Digest) :
    r.claims d = claimsSchema.toDict (r, d) := by
  have hd : maskText d.val = d.val := maskText_eq_self (not_secret_of_isSha256 d.ok)
  rw [claims, Schema.toDict_eq, Schema.toDict_eq]
  simp only [Schema.raw, schema, claimsSchema, mask, maskMembers, Json.pop, Json.add,
    Codec.digest, Codec.refined, hd]
  rfl

/-- The request the journal reconstructs: `idempotency_key="redacted"`. -/
def fromClaims (payload : Json) : Result OperationRequest := do
  let requestId ← (Codec.entityId .request).field "request_id" payload
  let operation ← Codec.operationName.field "operation" payload
  let hostId ← (Codec.entityId .host).field "host_id" payload
  let app ← Codec.slug.field "app" payload
  let environment ← Codec.slug.field "environment" payload
  let revisionId ← (Codec.entityId .rev).field "revision_id" payload
  let revisionDigest ← Codec.digest.field "revision_digest" payload
  return { requestId, operation, hostId, app, environment, revisionId, revisionDigest,
           idempotencyKey := ⟨"redacted", by decide⟩ }

/-- The request without its idempotency key. -/
def redacted (r : OperationRequest) : OperationRequest :=
  { r with idempotencyKey := ⟨"redacted", by decide⟩ }

theorem fromClaims_claims (r : OperationRequest) (d : Digest) :
    fromClaims (claimsSchema.toDict (r, d)).sortKeys = .ok r.redacted := by
  have h := claimsSchema.holds (r, d)
  simp only [claimsSchema, Holds, List.forall_mem_cons] at h
  obtain ⟨h₁, h₂, h₃, h₄, h₅, h₆, h₇, -⟩ := h
  simp only [fromClaims, claimsSchema, Codec.field_of_holds _ h₁, Codec.field_of_holds _ h₂,
    Codec.field_of_holds _ h₃, Codec.field_of_holds _ h₄, Codec.field_of_holds _ h₅,
    Codec.field_of_holds _ h₆, Codec.field_of_holds _ h₇]
  rfl

/-- The normalized intent, spelled out. -/
theorem intent_eq (r : OperationRequest) :
    ((schema.toDict r).pop "request_id").pop "idempotency_key" =
      mask (.obj [("schema_version", .int 1), ("kind", .str "ophelia.kernel.operation_request"),
        ("operation", Codec.operationName.enc r.operation),
        ("host_id", (Codec.entityId .host).enc r.hostId),
        ("app", Codec.slug.enc r.app),
        ("environment", Codec.slug.enc r.environment),
        ("revision_id", (Codec.entityId .rev).enc r.revisionId),
        ("revision_digest", Codec.digest.enc r.revisionDigest)]) := by
  rw [Schema.toDict_eq]
  simp only [Schema.raw, schema, mask, maskMembers, Json.pop]
  rfl

/-- The idempotency key is not part of the intent. -/
theorem intentDigest_redacted [Platform] (r : OperationRequest) :
    r.redacted.intentDigest = r.intentDigest := by
  rw [intentDigest, intentDigest, intent_eq, intent_eq]
  rfl

theorem claimsSchema_redacted (r : OperationRequest) (d : Digest) :
    claimsSchema.toDict (r.redacted, d) = claimsSchema.toDict (r, d) := rfl

end OperationRequest

/-! ### References -/

/-- Durable identity returned only after the journal accepts work. -/
structure OperationRef where
  operationId : EntityId .operation
  requestId : EntityId .request
  state : OperationState
deriving DecidableEq

/-! ### Events -/

/-- One event of an operation, chained to its predecessor by digest. -/
structure OperationEvent [Platform] where
  eventId : EntityId .event
  operationId : EntityId .operation
  sequence : Pos
  eventType : Text 128
  occurredAt : Utc
  state : OperationState
  hostId : EntityId .host
  app : Slug
  environment : Slug
  revisionId : Option (EntityId .rev)
  message : Option (Text 2048)
  evidenceDigests : Digests
  previousEventDigest : Option Digest

namespace OperationEvent

variable [Platform]

def schema : Schema OperationEvent where
  kind := "ophelia.kernel.operation_event"
  keys := ["event_id", "operation_id", "sequence", "event_type", "occurred_at", "state",
    "host_id", "app", "environment", "revision_id", "message", "evidence_digests",
    "previous_event_digest"]
  fields e :=
    [("event_id", (Codec.entityId .event).enc e.eventId),
     ("operation_id", (Codec.entityId .operation).enc e.operationId),
     ("sequence", Codec.positive.enc e.sequence),
     ("event_type", Codec.text128.enc e.eventType),
     ("occurred_at", Codec.utc.enc e.occurredAt),
     ("state", OperationState.codec.enc e.state),
     ("host_id", (Codec.entityId .host).enc e.hostId),
     ("app", Codec.slug.enc e.app),
     ("environment", Codec.slug.enc e.environment),
     ("revision_id", Codec.optionalRevision.enc e.revisionId),
     ("message", Codec.optionalText2048.enc e.message),
     ("evidence_digests", (Codec.digests "evidence_digests").enc e.evidenceDigests),
     ("previous_event_digest", Codec.optionalDigest.enc e.previousEventDigest)]
  keys_eq _ := rfl
  kind_safe := by decide
  keys_plain := by decide +kernel
  keys_nodup := by decide
  values_plain _ := by simp

/-- `_event_from_json`, after parsing. -/
def fromPayload (payload : Json) : Result OperationEvent := do
  let eventId ← (Codec.entityId .event).field "event_id" payload
  let operationId ← (Codec.entityId .operation).field "operation_id" payload
  let sequence ← Codec.positive.field "sequence" payload
  let eventType ← Codec.text128.field "event_type" payload
  let occurredAt ← Codec.utc.field "occurred_at" payload
  let state ← OperationState.codec.field "state" payload
  let hostId ← (Codec.entityId .host).field "host_id" payload
  let app ← Codec.slug.field "app" payload
  let environment ← Codec.slug.field "environment" payload
  let revisionId ← Codec.optionalRevision.getD "revision_id" .null payload
  let message ← Codec.optionalText2048.getD "message" .null payload
  let evidenceDigests ← (Codec.digests "evidence_digests").getD "evidence_digests" (.arr []) payload
  let previousEventDigest ← Codec.optionalDigest.getD "previous_event_digest" .null payload
  return { eventId, operationId, sequence, eventType, occurredAt, state, hostId, app,
           environment, revisionId, message, evidenceDigests, previousEventDigest }

/-- The event as redaction leaves it. -/
def masked (e : OperationEvent) : OperationEvent :=
  { e with eventType := Codec.text128.masked e.eventType,
           message := Codec.optionalText2048.masked e.message }

theorem fromPayload_of_holds {e : OperationEvent} {payload : Json}
    (h : Holds payload (schema.fields e)) : fromPayload payload = .ok e.masked := by
  simp only [schema, Holds, List.forall_mem_cons] at h
  obtain ⟨h₁, h₂, h₃, h₄, h₅, h₆, h₇, h₈, h₉, h₁₀, h₁₁, h₁₂, h₁₃, -⟩ := h
  simp only [fromPayload, Codec.field_of_holds _ h₁, Codec.field_of_holds _ h₂,
    Codec.field_of_holds _ h₃, Codec.field_of_holds _ h₄, Codec.field_of_holds _ h₅,
    Codec.field_of_holds _ h₆, Codec.field_of_holds _ h₇, Codec.field_of_holds _ h₈,
    Codec.field_of_holds _ h₉, Codec.getD_of_holds _ h₁₀, Codec.getD_of_holds _ h₁₁,
    Codec.getD_of_holds _ h₁₂, Codec.getD_of_holds _ h₁₃, Codec.masked_digests,
    Codec.masked_optionalRevision, Codec.masked_optionalDigest]
  rfl

end OperationEvent

end Ophelia
