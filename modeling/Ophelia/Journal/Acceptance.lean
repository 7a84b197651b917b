import Ophelia.Journal.Leases

/-!
# Ophelia.Journal.Acceptance

Accepting an operation, and reading back what was accepted: the plan and approval claims,
the execution input and the control record. Acceptance stores canonical texts; every later
read parses them again and reconciles them with the columns next to them.
-/

namespace Ophelia

variable [Platform]

/-! ### Errors -/

/-- `except IntegrityError: raise` followed by `except Exception`: other failures become
integrity failures with the given message. -/
def wrapIntegrity {α : Type} (message : String) : Result α → Result α
  | .ok a => .ok a
  | .error (.integrity m) => .error (.integrity m)
  | .error _ => .error (.integrity message)

/-- `json.loads`. -/
def jsonLoads (text : String) : Result Json :=
  match Json.loads text with
  | some j => .ok j
  | none => .error (.valueError "malformed JSON")

/-- Parse a stored text as a JSON object. -/
def loadsObject (text : String) : Result Json :=
  match Json.loads text with
  | some (.obj ms) => .ok (.obj ms)
  | some _ => .error (.typeError "accepted claims must be JSON objects")
  | none => .error (.valueError "malformed JSON")

/-- Insert a row unless its key is taken, `ON CONFLICT DO NOTHING`. -/
def Table.putNew {κ ρ : Type} [DecidableEq κ] {key : ρ → κ} (t : Table key) (r : ρ) :
    Table key :=
  match t.get? (key r) with
  | some _ => t
  | none => t.put r

/-! ### Bindings -/

/-- `_validate_acceptance_binding`. -/
def validateAcceptanceBinding (actor : Actor) (request : OperationRequest)
    (approved : ApprovedPlanRef) (requestDigest : Digest) : Result Unit := do
  ensure (approved.actorId = actor.actorId)
    (.operationConflict "Approval actor does not match authenticated actor.")
  ensure (approved.approvalDigest = approved.bindingDigest)
    (.operationConflict "Approval digest does not match its binding claims.")
  ensure (approved.requestDigest = requestDigest ∧ approved.hostId = request.hostId ∧
      approved.app = request.app ∧ approved.environment = request.environment ∧
      approved.revisionId = request.revisionId ∧
      approved.revisionDigest = request.revisionDigest)
    (.operationConflict "Approval does not bind the normalized request.")

/-- `_validate_execution_input`. -/
def validateExecutionInput (request : OperationRequest) (approved : ApprovedPlanRef)
    (input : ExecutionInput) (requestDigest : Digest) : Result Unit := do
  ensure (input.deadline.instant ≤ approved.expiresAt.instant)
    (.operationConflict "Execution deadline cannot outlive the approved plan.")
  ensure (input.plan.requestDigest = requestDigest ∧ input.plan.operation = request.operation ∧
      input.plan.hostId = request.hostId ∧ input.plan.app = request.app ∧
      input.plan.environment = request.environment ∧
      input.plan.revisionId = request.revisionId ∧
      input.plan.revisionDigest = request.revisionDigest ∧
      ApprovedPlanRef.schema.canonicalJson input.approvedPlan =
        ApprovedPlanRef.schema.canonicalJson approved)
    (.operationConflict "Execution input does not bind the accepted request and approval.")

/-! ### Accepting -/

/-- The texts an acceptance stores. -/
structure AcceptanceTexts where
  actorJson : String
  requestJson : String
  approvalJson : String
  inputJson : Option String
  planJson : String

/-- The canonical texts of an acceptance, each within the bound. -/
def acceptanceTexts (actor : Actor) (request : OperationRequest) (approved : ApprovedPlanRef)
    (input : Option ExecutionInput) : Result AcceptanceTexts := do
  let actorJson ← boundedJson (Actor.schema.canonicalJson actor)
  let keyDigest := digestText request.idempotencyKey.val
  let requestJson ← boundedJson (canonicalJson (request.claims keyDigest))
  let approvalJson ← boundedJson (ApprovedPlanRef.schema.canonicalJson approved)
  let inputJson ← input.mapM fun i => boundedJson i.canonicalJson
  let planJson ← boundedJson (canonicalJson approved.planClaims)
  return { actorJson, requestJson, approvalJson, inputJson, planJson }

namespace Journal

/-- The operation an idempotency key already identifies. -/
def idempotent? (j : Journal) (key : IdempotencyKey) : Option (IdempotencyRow × OperationRow) := do
  let i ← j.idempotencyKeys.get? key
  let o ← j.operations.get? i.operationId
  return (i, o)

/-- `INSERT INTO plans … ON CONFLICT(plan_id) DO NOTHING`, then compare what is stored. -/
def recordPlan (j : Journal) (approved : ApprovedPlanRef) (planJson : String) :
    Result Journal := do
  let row : PlanRow := ⟨approved.planId, approved.planDigest, approved.requestDigest, planJson⟩
  let plans := Table.putNew j.plans row
  ensure (plans.get? approved.planId = some row)
    (.operationConflict "Plan identity conflicts with durable plan content.")
  return { j with plans }

/-- `INSERT INTO approvals … ON CONFLICT(decision_id) DO NOTHING`, then compare what is
stored. The approval digest is unique over all decisions. -/
def recordApproval (j : Journal) (approved : ApprovedPlanRef) (approvalJson : String) :
    Result Journal := do
  let row : ApprovalRow :=
    ⟨approved.decisionId, approved.planId, approved.actorId, approved.approvalDigest,
      approvalJson⟩
  ensure ((j.approvals.get? approved.decisionId).isSome ∨
      ∀ a ∈ j.approvals.rows, a.approvalDigest ≠ approved.approvalDigest)
    (.sqliteIntegrity "UNIQUE constraint failed: approvals.approval_digest")
  let approvals := Table.putNew j.approvals row
  ensure (approvals.get? approved.decisionId = some row)
    (.operationConflict "Approval identity conflicts with durable approval content.")
  return { j with approvals }

/-- The execution input of a new operation, if it has one. -/
def recordInput (j : Journal) (operationId : EntityId .operation)
    (input : Option ExecutionInput) (inputJson : Option String) :
    Result (Table InputRow.operationId) :=
  match input, inputJson with
  | some i, some inputJson =>
      insertRow j.operationInputs ⟨operationId, i.inputDigest, i.deadline, inputJson⟩
        "operation_inputs.operation_id"
  | _, _ => .ok j.operationInputs

/-- The rows of a new operation. -/
def recordOperation (j : Journal) (actor : Actor) (request : OperationRequest)
    (approved : ApprovedPlanRef) (input : Option ExecutionInput) (texts : AcceptanceTexts)
    (operationId : EntityId .operation) (acceptedAt : Utc) : Result Journal := do
  let row : OperationRow :=
    { operationId, requestId := request.requestId, actorId := actor.actorId,
      operationClass := request.operation, requestDigest := request.intentDigest,
      state := .accepted, hostId := request.hostId, app := request.app,
      environment := request.environment, revisionId := request.revisionId,
      decisionId := approved.decisionId, requestJson := texts.requestJson,
      actorJson := texts.actorJson, acceptedAt := acceptedAt.val }
  let operations ← insertRow j.operations row "operations.operation_id"
  let operationInputs ← j.recordInput operationId input texts.inputJson
  ensure (∀ i ∈ j.idempotencyKeys.rows, i.operationId ≠ operationId)
    (.sqliteIntegrity "UNIQUE constraint failed: idempotency_keys.operation_id")
  let key : IdempotencyKey :=
    ⟨actor.actorId, request.operation, digestText request.idempotencyKey.val⟩
  let idempotencyKeys ←
    insertRow j.idempotencyKeys ⟨key, request.intentDigest, operationId⟩ "idempotency_keys"
  return { j with operations, operationInputs, idempotencyKeys }

/-- `accept`. A known idempotency key returns the operation it identifies, new intent is
recorded under a fresh identifier. -/
def accept (j : Journal) (actor : Actor) (request : OperationRequest)
    (approved : ApprovedPlanRef) (input : Option ExecutionInput) (clock : Option Int)
    (freshId : EntityId .operation) : Result (Journal × OperationRef) := do
  let requestDigest := request.intentDigest
  validateAcceptanceBinding actor request approved requestDigest
  input.forM fun i => validateExecutionInput request approved i requestDigest
  let texts ← acceptanceTexts actor request approved input
  let key : IdempotencyKey :=
    ⟨actor.actorId, request.operation, digestText request.idempotencyKey.val⟩
  match j.idempotent? key with
  | some (i, o) =>
      ensure (i.requestDigest = requestDigest)
        (.idempotencyConflict "Idempotency key already identifies different normalized intent.")
      ensure ((j.operationInputs.get? o.operationId).map (·.inputDigest) =
          input.map (·.inputDigest))
        (.idempotencyConflict
          "Idempotent retry must supply the identical execution input digest.")
      return (j, ⟨o.operationId, o.requestId, o.state⟩)
  | none =>
      let now ← clockSample clock
      let datetime ← toDatetime now
      ensure (input.all fun i => datetime < i.deadline.instant)
        (.operationConflict "Execution deadline has expired.")
      ensure (approved.expired datetime = false) (.operationConflict "Approval has expired.")
      let acceptedAt ← timestamp now
      let j ← j.recordPlan approved texts.planJson
      let j ← j.recordApproval approved texts.approvalJson
      let j ← j.recordOperation actor request approved input texts freshId acceptedAt
      return (j, ⟨freshId, request.requestId, .accepted⟩)

/-! ### Reading acceptance back -/

/-- An operation joined with its approval and the plan of the approval. -/
structure AcceptedRow where
  operation : OperationRow
  approval : ApprovalRow
  plan : PlanRow

/-- The join of operations, approvals and plans. -/
def acceptedRow? (j : Journal) (operationId : EntityId .operation) : Option AcceptedRow := do
  let operation ← j.operations.get? operationId
  let approval ← j.approvals.get? operation.decisionId
  let plan ← j.plans.get? approval.planId
  return { operation, approval, plan }

/-- The claims of an accepted operation, parsed. -/
structure AcceptedClaims where
  keyDigest : Digest
  request : OperationRequest
  actor : Actor
  approval : ApprovedPlanRef

/-- Parse the stored claims. -/
def parseAcceptance (r : AcceptedRow) : Result AcceptedClaims := do
  let requestClaims ← loadsObject r.operation.requestJson
  let actorClaims ← loadsObject r.operation.actorJson
  let _ ← loadsObject r.plan.payloadJson
  let approvalClaims ← loadsObject r.approval.payloadJson
  let keyDigest ← Codec.digest.field "idempotency_key_digest" requestClaims
  let request ← OperationRequest.fromClaims requestClaims
  let actor ← Actor.fromPayload actorClaims
  let approval ← ApprovedPlanRef.fromPayload approvalClaims
  return { keyDigest, request, actor, approval }

/-- The parsed claims reconcile with the texts and with the columns. -/
def acceptanceReconciles (r : AcceptedRow) (c : AcceptedClaims) : Prop :=
  canonicalJson (c.request.claims c.keyDigest) = r.operation.requestJson ∧
  Actor.schema.canonicalJson c.actor = r.operation.actorJson ∧
  canonicalJson c.approval.planClaims = r.plan.payloadJson ∧
  ApprovedPlanRef.schema.canonicalJson c.approval = r.approval.payloadJson ∧
  c.request.requestId = r.operation.requestId ∧
  c.request.operation = r.operation.operationClass ∧
  c.request.hostId = r.operation.hostId ∧
  c.request.app = r.operation.app ∧
  c.request.environment = r.operation.environment ∧
  c.request.revisionId = r.operation.revisionId ∧
  c.request.intentDigest = r.operation.requestDigest ∧
  c.actor.actorId = r.operation.actorId ∧
  c.approval.planId = r.approval.planId ∧
  c.approval.planDigest = r.plan.planDigest ∧
  c.approval.requestDigest = r.plan.requestDigest ∧
  r.operation.requestDigest = r.plan.requestDigest ∧
  c.approval.hostId = r.operation.hostId ∧
  c.approval.app = r.operation.app ∧
  c.approval.environment = r.operation.environment ∧
  c.approval.revisionId = r.operation.revisionId ∧
  c.approval.revisionDigest = c.request.revisionDigest ∧
  c.approval.decisionId = r.operation.decisionId ∧
  c.approval.actorId = r.approval.actorId ∧
  c.approval.approvalDigest = r.approval.approvalDigest ∧
  r.approval.approvalDigest = c.approval.bindingDigest

instance (r : AcceptedRow) (c : AcceptedClaims) : Decidable (acceptanceReconciles r c) := by
  unfold acceptanceReconciles
  infer_instance

/-- `_verified_acceptance_claims`. The plan claims it returns are those of the approval. -/
def verifiedAcceptanceClaims (r : AcceptedRow) : Result AcceptedClaims := do
  let claims ← (parseAcceptance r).mapError fun _ =>
    .integrity "Accepted operation payload is invalid."
  ensure (acceptanceReconciles r claims)
    (.integrity "Accepted operation, plan, and approval claims do not reconcile.")
  return claims

/-- The execution input of an accepted row, reconciled with everything around it. -/
def reconcileExecutionInput (r : AcceptedRow) (row : InputRow) : Result ExecutionInput := do
  let _ ← verifiedAcceptanceClaims r
  let payload ← loadsObject row.payloadJson
  let input ← ExecutionInput.fromPayload payload
  let request ← loadsObject r.operation.requestJson >>= OperationRequest.fromClaims
  let approval ← loadsObject r.approval.payloadJson >>= ApprovedPlanRef.fromPayload
  validateExecutionInput request approval input r.operation.requestDigest
  ensure (input.inputDigest = row.inputDigest ∧ input.deadline = row.deadline ∧
      input.canonicalJson = row.payloadJson)
    (.integrity "Execution input durable columns do not match canonical content.")
  return input

/-- `_load_execution_input_tx`. -/
def loadExecutionInputTx (j : Journal) (operationId : EntityId .operation) :
    Result ExecutionInput :=
  match j.acceptedRow? operationId, j.operationInputs.get? operationId with
  | some r, some row =>
      wrapIntegrity
        "Execution input, operation, plan, approval, revision, and artifact claims do not reconcile."
        (reconcileExecutionInput r row)
  | _, _ => .error (.keyError operationId.val)

/-! ### Control -/

/-- The cancellation a control row records. The actor and the time come together. -/
def readCancellation (row : ControlRow) : Result (Option (Actor × Utc)) := do
  let actor ← row.cancellationActorJson.mapM fun text => loadsObject text >>= Actor.fromPayload
  match actor, row.cancellationRequestedAt with
  | some actor, some requestedAt => return some (actor, requestedAt)
  | some _, none =>
      throw (.contractValidation "A cancellation request requires cancellation_requested_at.")
  | none, some _ =>
      throw (.contractValidation
        "Cancellation evidence cannot exist without cancellation_requested.")
  | none, none => return none

/-- `_control_tx`. -/
def controlTx (j : Journal) (operationId : EntityId .operation) : Result ExecutionControl :=
  match j.operations.get? operationId with
  | none => .error (.keyError operationId.val)
  | some _ => wrapIntegrity "Operation control payload is invalid." do
      let row := j.operationControls.get? operationId
      let cancellation ←
        match row with
        | some row => readCancellation row
        | none => pure none
      ensure ((row.bind (·.cancellationActorJson)).all fun text =>
          cancellation.map (fun c => Actor.schema.canonicalJson c.1) = some text)
        (.integrity "Cancellation actor payload is not canonical.")
      return ⟨operationId, (j.operationInputs.get? operationId).map (·.deadline), cancellation⟩

/-- `request_cancellation`. The first request is recorded, later ones change nothing. -/
def requestCancellation (j : Journal) (operationId : String) (actor : Actor)
    (clock : Option Int) : Result (Journal × ExecutionControl) := do
  let actorJson ← boundedJson (Actor.schema.canonicalJson actor)
  match j.operation? operationId with
  | none => throw (.operationConflict "Unknown operation.")
  | some o =>
      ensure (o.state.terminal = false)
        (.operationConflict "A terminal operation cannot request cancellation.")
      match j.operationControls.get? o.operationId with
      | some _ =>
          let control ← j.controlTx o.operationId
          return (j, control)
      | none =>
          let now ← clockSample clock
          let requestedAt ← timestamp now
          let j := { j with operationControls :=
            j.operationControls.put ⟨o.operationId, some actorJson, some requestedAt⟩ }
          let control ← j.controlTx o.operationId
          return (j, control)

end Journal

end Ophelia
