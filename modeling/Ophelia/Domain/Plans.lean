import Ophelia.Domain.Operations

/-!
# Ophelia.Domain.Plans

Read-only plans and the secret-free approval bindings over them (`domain/plans.py`).

The only free text of an approval is its issuer, and a plan has none once it carries no
blocker codes. So an approval comes back from the journal with its issuer masked, and an
approvable plan comes back exactly as it went in.
-/

namespace Ophelia

/-! ### Enumerations -/

inductive PlanPhase where
  | validate
  | observe
  | plan
  | authorize
  | stage
  | preflight
  | startCandidate
  | readinessVerify
  | switchTraffic
  | externalVerify
  | drainPrevious
  | commit
  | emitReceipt
deriving DecidableEq, Repr

namespace PlanPhase

def value : PlanPhase → String
  | validate => "validate"
  | observe => "observe"
  | plan => "plan"
  | authorize => "authorize"
  | stage => "stage"
  | preflight => "preflight"
  | startCandidate => "start_candidate"
  | readinessVerify => "readiness_verify"
  | switchTraffic => "switch_traffic"
  | externalVerify => "external_verify"
  | drainPrevious => "drain_previous"
  | commit => "commit"
  | emitReceipt => "emit_receipt"

def codec : Codec PlanPhase :=
  .enum [validate, observe, plan, authorize, stage, preflight, startCandidate,
      readinessVerify, switchTraffic, externalVerify, drainPrevious, commit, emitReceipt]
    value (by intro e; cases e <;> rfl) (by intro e; cases e <;> decide +kernel)

end PlanPhase

inductive CompensationAction where
  | none
  | deleteCandidate
  | stopCandidate
  | restoreTraffic
  | preservePrevious
  | recoverFromJournal
deriving DecidableEq, Repr

namespace CompensationAction

def value : CompensationAction → String
  | none => "none"
  | deleteCandidate => "delete_candidate"
  | stopCandidate => "stop_candidate"
  | restoreTraffic => "restore_traffic"
  | preservePrevious => "preserve_previous"
  | recoverFromJournal => "recover_from_journal"

def codec : Codec CompensationAction :=
  .enum [none, deleteCandidate, stopCandidate, restoreTraffic, preservePrevious,
      recoverFromJournal]
    value (by intro e; cases e <;> rfl) (by intro e; cases e <;> decide +kernel)

end CompensationAction

inductive AuthorizationKind where
  | lumenDecision
  | localOperator
  | localBreakGlass
  | legacyConfirmationAdapter
deriving DecidableEq, Repr

namespace AuthorizationKind

def value : AuthorizationKind → String
  | lumenDecision => "lumen_decision"
  | localOperator => "local_operator"
  | localBreakGlass => "local_break_glass"
  | legacyConfirmationAdapter => "legacy_confirmation_adapter"

def codec : Codec AuthorizationKind :=
  .enum [lumenDecision, localOperator, localBreakGlass, legacyConfirmationAdapter]
    value (by intro e; cases e <;> rfl) (by intro e; cases e <;> decide +kernel)

end AuthorizationKind

/-! ### Plan steps -/

/-- One step of a plan. A step that mutates the runtime declares its compensation. -/
structure PlanStep where
  order : Pos
  phase : PlanPhase
  mutatesRuntime : Bool
  desiredEffectDigest : Digest
  compensation : CompensationAction
  declared : ¬ (mutatesRuntime = true ∧ compensation = .none)
deriving DecidableEq

namespace PlanStep

def schema : Schema PlanStep where
  kind := "ophelia.kernel.plan_step"
  keys := ["order", "phase", "mutates_runtime", "desired_effect_digest", "compensation"]
  fields s :=
    [("order", Codec.positive.enc s.order),
     ("phase", PlanPhase.codec.enc s.phase),
     ("mutates_runtime", Codec.bool.enc s.mutatesRuntime),
     ("desired_effect_digest", Codec.digest.enc s.desiredEffectDigest),
     ("compensation", CompensationAction.codec.enc s.compensation)]
  keys_eq _ := rfl
  kind_safe := by decide
  keys_plain := by decide +kernel
  keys_nodup := by decide
  values_plain _ := by simp

def fromPayload (payload : Json) : Result PlanStep := do
  let order ← Codec.positive.field "order" payload
  let phase ← PlanPhase.codec.field "phase" payload
  let mutatesRuntime ← Codec.bool.field "mutates_runtime" payload
  let desiredEffectDigest ← Codec.digest.field "desired_effect_digest" payload
  let compensation ← CompensationAction.codec.field "compensation" payload
  if declared : ¬ (mutatesRuntime = true ∧ compensation = .none) then
    return { order, phase, mutatesRuntime, desiredEffectDigest, compensation, declared }
  else throw (.contractValidation "Every mutating plan step must declare compensation.")

def codec : Codec PlanStep :=
  schema.codec fromPayload id
    (by
      intro s payload h
      simp only [schema, Holds, List.forall_mem_cons] at h
      obtain ⟨h₁, h₂, h₃, h₄, h₅, -⟩ := h
      simp only [fromPayload, Codec.field_of_holds _ h₁, Codec.field_of_holds _ h₂,
        Codec.field_of_holds _ h₃, Codec.field_of_holds _ h₄, Codec.field_of_holds _ h₅]
      exact dif_pos s.declared)
    (fun _ => rfl)

theorem masked_list (steps : List PlanStep) : codec.list.masked steps = steps :=
  List.map_id steps

end PlanStep

/-! ### Plans -/

/-- A deterministic plan value. Its steps are numbered from one without gaps. -/
structure OperationPlan [Platform] where
  planId : EntityId .plan
  requestDigest : Digest
  operation : OperationName
  hostId : EntityId .host
  app : Slug
  environment : Slug
  revisionId : EntityId .rev
  revisionDigest : Digest
  manifestDigest : Digest
  artifactDigests : Digests
  observedStateDigest : Digest
  policyDigest : Digest
  steps : List PlanStep
  blockerCodes : List (Text 128)
  createdAt : Utc
  steps_ne_nil : steps ≠ []
  steps_ordered : steps.map (·.order.1) = List.range' 1 steps.length
  blockers_sorted : sortedUnique blockerCodes = true

namespace OperationPlan

variable [Platform]

def schema : Schema OperationPlan where
  kind := "ophelia.kernel.operation_plan"
  keys := ["plan_id", "request_digest", "operation", "host_id", "app", "environment",
    "revision_id", "revision_digest", "manifest_digest", "artifact_digests",
    "observed_state_digest", "policy_digest", "steps", "blocker_codes", "created_at"]
  fields p :=
    [("plan_id", (Codec.entityId .plan).enc p.planId),
     ("request_digest", Codec.digest.enc p.requestDigest),
     ("operation", Codec.operationName.enc p.operation),
     ("host_id", (Codec.entityId .host).enc p.hostId),
     ("app", Codec.slug.enc p.app),
     ("environment", Codec.slug.enc p.environment),
     ("revision_id", (Codec.entityId .rev).enc p.revisionId),
     ("revision_digest", Codec.digest.enc p.revisionDigest),
     ("manifest_digest", Codec.digest.enc p.manifestDigest),
     ("artifact_digests", (Codec.digests "artifact_digests").enc p.artifactDigests),
     ("observed_state_digest", Codec.digest.enc p.observedStateDigest),
     ("policy_digest", Codec.digest.enc p.policyDigest),
     ("steps", PlanStep.codec.list.enc p.steps),
     ("blocker_codes", Codec.text128.list.enc p.blockerCodes),
     ("created_at", Codec.utc.enc p.createdAt)]
  keys_eq _ := rfl
  kind_safe := by decide
  keys_plain := by decide +kernel
  keys_nodup := by decide
  values_plain _ := by simp

/-- No blocker stands in the way of an approval. -/
def approvable (p : OperationPlan) : Bool :=
  p.blockerCodes.isEmpty

/-- Digest of the plan without its identity and its time of creation. -/
def planDigest (p : OperationPlan) : Digest :=
  digestText (canonicalJson (((schema.toDict p).pop "plan_id").pop "created_at"))

/-- `_operation_plan_from_payload`. -/
def fromPayload (payload : Json) : Result OperationPlan := do
  let planId ← (Codec.entityId .plan).field "plan_id" payload
  let requestDigest ← Codec.digest.field "request_digest" payload
  let operation ← Codec.operationName.field "operation" payload
  let hostId ← (Codec.entityId .host).field "host_id" payload
  let app ← Codec.slug.field "app" payload
  let environment ← Codec.slug.field "environment" payload
  let revisionId ← (Codec.entityId .rev).field "revision_id" payload
  let revisionDigest ← Codec.digest.field "revision_digest" payload
  let manifestDigest ← Codec.digest.field "manifest_digest" payload
  let artifactDigests ← (Codec.digests "artifact_digests").field "artifact_digests" payload
  let observedStateDigest ← Codec.digest.field "observed_state_digest" payload
  let policyDigest ← Codec.digest.field "policy_digest" payload
  let steps ← PlanStep.codec.list.field "steps" payload
  let blockerCodes ← Codec.text128.list.field "blocker_codes" payload
  let createdAt ← Codec.utc.field "created_at" payload
  if steps_ne_nil : steps ≠ [] then
    if steps_ordered : steps.map (·.order.1) = List.range' 1 steps.length then
      if blockers_sorted : sortedUnique blockerCodes = true then
        return { planId, requestDigest, operation, hostId, app, environment, revisionId,
                 revisionDigest, manifestDigest, artifactDigests, observedStateDigest,
                 policyDigest, steps, blockerCodes, createdAt, steps_ne_nil, steps_ordered,
                 blockers_sorted }
      else
        throw (.contractValidation "blocker_codes must be sorted and contain no duplicates.")
    else
      throw (.contractValidation
        "Plan steps must have unique contiguous order starting at one.")
  else throw (.contractValidation "steps must be a non-empty immutable tuple.")

/-- An approvable plan has no free text, so it is read back exactly. -/
theorem fromPayload_of_holds {p : OperationPlan} (hp : p.approvable = true) {payload : Json}
    (h : Holds payload (schema.fields p)) : fromPayload payload = .ok p := by
  have hblock : p.blockerCodes = [] := List.isEmpty_iff.mp hp
  simp only [schema, Holds, List.forall_mem_cons] at h
  obtain ⟨h₁, h₂, h₃, h₄, h₅, h₆, h₇, h₈, h₉, h₁₀, h₁₁, h₁₂, h₁₃, h₁₄, h₁₅, -⟩ := h
  have hcodes : Codec.text128.list.masked p.blockerCodes = p.blockerCodes := by
    rw [hblock]
    rfl
  simp only [fromPayload, Codec.field_of_holds _ h₁, Codec.field_of_holds _ h₂,
    Codec.field_of_holds _ h₃, Codec.field_of_holds _ h₄, Codec.field_of_holds _ h₅,
    Codec.field_of_holds _ h₆, Codec.field_of_holds _ h₇, Codec.field_of_holds _ h₈,
    Codec.field_of_holds _ h₉, Codec.field_of_holds _ h₁₀, Codec.field_of_holds _ h₁₁,
    Codec.field_of_holds _ h₁₂, Codec.field_of_holds _ h₁₃, Codec.field_of_holds _ h₁₄,
    Codec.field_of_holds _ h₁₅, Codec.masked_digests, PlanStep.masked_list, hcodes]
  exact (dif_pos p.steps_ne_nil).trans <| (dif_pos p.steps_ordered).trans <|
    dif_pos p.blockers_sorted

end OperationPlan

/-! ### Approvals -/

/-- Durable approval evidence without the reusable approval credential. -/
structure ApprovedPlanRef [Platform] where
  planId : EntityId .plan
  planDigest : Digest
  requestDigest : Digest
  manifestDigest : Digest
  artifactDigests : Digests
  observedStateDigest : Digest
  policyDigest : Digest
  hostId : EntityId .host
  app : Slug
  environment : Slug
  revisionId : EntityId .rev
  revisionDigest : Digest
  actorId : EntityId .actor
  decisionId : EntityId .decision
  authorizationKind : AuthorizationKind
  issuer : Text 255
  audience : Text 255
  approvedAt : Utc
  expiresAt : Utc
  nonceDigest : Digest
  approvalDigest : Digest
  audience_eq : audience.val = hostId.val
  expires_after : approvedAt.instant < expiresAt.instant

namespace ApprovedPlanRef

variable [Platform]

def schema : Schema ApprovedPlanRef where
  kind := "ophelia.kernel.approved_plan_ref"
  keys := ["plan_id", "plan_digest", "request_digest", "manifest_digest", "artifact_digests",
    "observed_state_digest", "policy_digest", "host_id", "app", "environment", "revision_id",
    "revision_digest", "actor_id", "decision_id", "authorization_kind", "issuer", "audience",
    "approved_at", "expires_at", "nonce_digest", "approval_digest"]
  fields a :=
    [("plan_id", (Codec.entityId .plan).enc a.planId),
     ("plan_digest", Codec.digest.enc a.planDigest),
     ("request_digest", Codec.digest.enc a.requestDigest),
     ("manifest_digest", Codec.digest.enc a.manifestDigest),
     ("artifact_digests", (Codec.digests "artifact_digests").enc a.artifactDigests),
     ("observed_state_digest", Codec.digest.enc a.observedStateDigest),
     ("policy_digest", Codec.digest.enc a.policyDigest),
     ("host_id", (Codec.entityId .host).enc a.hostId),
     ("app", Codec.slug.enc a.app),
     ("environment", Codec.slug.enc a.environment),
     ("revision_id", (Codec.entityId .rev).enc a.revisionId),
     ("revision_digest", Codec.digest.enc a.revisionDigest),
     ("actor_id", (Codec.entityId .actor).enc a.actorId),
     ("decision_id", (Codec.entityId .decision).enc a.decisionId),
     ("authorization_kind", AuthorizationKind.codec.enc a.authorizationKind),
     ("issuer", Codec.text255.enc a.issuer),
     ("audience", Codec.text255.enc a.audience),
     ("approved_at", Codec.utc.enc a.approvedAt),
     ("expires_at", Codec.utc.enc a.expiresAt),
     ("nonce_digest", Codec.digest.enc a.nonceDigest),
     ("approval_digest", Codec.digest.enc a.approvalDigest)]
  keys_eq _ := rfl
  kind_safe := by decide
  keys_plain := by decide +kernel
  keys_nodup := by decide
  values_plain _ := by simp

/-- Digest of the binding claims, everything but the approval digest itself. -/
def bindingDigest (a : ApprovedPlanRef) : Digest :=
  digestText (canonicalJson ((schema.toDict a).pop "approval_digest"))

/-- The approval binds exactly this plan. -/
def isFor (a : ApprovedPlanRef) (p : OperationPlan) : Bool :=
  p.approvable && a.planId == p.planId && a.planDigest == p.planDigest &&
    a.requestDigest == p.requestDigest && a.manifestDigest == p.manifestDigest &&
    a.artifactDigests == p.artifactDigests && a.observedStateDigest == p.observedStateDigest &&
    a.policyDigest == p.policyDigest && a.hostId == p.hostId && a.app == p.app &&
    a.environment == p.environment && a.revisionId == p.revisionId &&
    a.revisionDigest == p.revisionDigest && a.approvalDigest == a.bindingDigest

def expired (a : ApprovedPlanRef) (now : Int) : Bool :=
  decide (a.expiresAt.instant ≤ now)

/-- The plan claims an approval carries, as the journal stores them. -/
def planClaims (a : ApprovedPlanRef) : Json :=
  .obj
    [("schema_version", .int 1),
     ("kind", .str "ophelia.kernel.approved_plan_claims"),
     ("plan_id", (Codec.entityId .plan).enc a.planId),
     ("plan_digest", Codec.digest.enc a.planDigest),
     ("request_digest", Codec.digest.enc a.requestDigest),
     ("host_id", (Codec.entityId .host).enc a.hostId),
     ("app", Codec.slug.enc a.app),
     ("environment", Codec.slug.enc a.environment),
     ("revision_id", (Codec.entityId .rev).enc a.revisionId),
     ("revision_digest", Codec.digest.enc a.revisionDigest),
     ("manifest_digest", Codec.digest.enc a.manifestDigest),
     ("artifact_digests", (Codec.digests "artifact_digests").enc a.artifactDigests),
     ("observed_state_digest", Codec.digest.enc a.observedStateDigest),
     ("policy_digest", Codec.digest.enc a.policyDigest)]

/-- The plan claims as a contract of their own. -/
def claimsSchema : Schema ApprovedPlanRef where
  kind := "ophelia.kernel.approved_plan_claims"
  keys := ["plan_id", "plan_digest", "request_digest", "host_id", "app", "environment",
    "revision_id", "revision_digest", "manifest_digest", "artifact_digests",
    "observed_state_digest", "policy_digest"]
  fields a :=
    [("plan_id", (Codec.entityId .plan).enc a.planId),
     ("plan_digest", Codec.digest.enc a.planDigest),
     ("request_digest", Codec.digest.enc a.requestDigest),
     ("host_id", (Codec.entityId .host).enc a.hostId),
     ("app", Codec.slug.enc a.app),
     ("environment", Codec.slug.enc a.environment),
     ("revision_id", (Codec.entityId .rev).enc a.revisionId),
     ("revision_digest", Codec.digest.enc a.revisionDigest),
     ("manifest_digest", Codec.digest.enc a.manifestDigest),
     ("artifact_digests", (Codec.digests "artifact_digests").enc a.artifactDigests),
     ("observed_state_digest", Codec.digest.enc a.observedStateDigest),
     ("policy_digest", Codec.digest.enc a.policyDigest)]
  keys_eq _ := rfl
  kind_safe := by decide
  keys_plain := by decide +kernel
  keys_nodup := by decide
  values_plain _ := by simp

theorem canonicalJson_planClaims (a : ApprovedPlanRef) :
    canonicalJson a.planClaims = claimsSchema.canonicalJson a :=
  claimsSchema.canonicalJson_raw a

/-- `_approved_plan_from_payload`. -/
def fromPayload (payload : Json) : Result ApprovedPlanRef := do
  let planId ← (Codec.entityId .plan).field "plan_id" payload
  let planDigest ← Codec.digest.field "plan_digest" payload
  let requestDigest ← Codec.digest.field "request_digest" payload
  let manifestDigest ← Codec.digest.field "manifest_digest" payload
  let artifactDigests ← (Codec.digests "artifact_digests").field "artifact_digests" payload
  let observedStateDigest ← Codec.digest.field "observed_state_digest" payload
  let policyDigest ← Codec.digest.field "policy_digest" payload
  let hostId ← (Codec.entityId .host).field "host_id" payload
  let app ← Codec.slug.field "app" payload
  let environment ← Codec.slug.field "environment" payload
  let revisionId ← (Codec.entityId .rev).field "revision_id" payload
  let revisionDigest ← Codec.digest.field "revision_digest" payload
  let actorId ← (Codec.entityId .actor).field "actor_id" payload
  let decisionId ← (Codec.entityId .decision).field "decision_id" payload
  let authorizationKind ← AuthorizationKind.codec.field "authorization_kind" payload
  let issuer ← Codec.text255.field "issuer" payload
  let audience ← Codec.text255.field "audience" payload
  let approvedAt ← Codec.utc.field "approved_at" payload
  let expiresAt ← Codec.utc.field "expires_at" payload
  let nonceDigest ← Codec.digest.field "nonce_digest" payload
  let approvalDigest ← Codec.digest.field "approval_digest" payload
  if audience_eq : audience.val = hostId.val then
    if expires_after : approvedAt.instant < expiresAt.instant then
      return { planId, planDigest, requestDigest, manifestDigest, artifactDigests,
               observedStateDigest, policyDigest, hostId, app, environment, revisionId,
               revisionDigest, actorId, decisionId, authorizationKind, issuer, audience,
               approvedAt, expiresAt, nonceDigest, approvalDigest, audience_eq, expires_after }
    else throw (.contractValidation "expires_at must be after approved_at.")
  else throw (.contractValidation "Approval audience must match the planned host_id.")

theorem masked_audience (a : ApprovedPlanRef) : Codec.text255.masked a.audience = a.audience := by
  apply Refined.ext
  show maskText a.audience.val = a.audience.val
  rw [a.audience_eq]
  exact maskText_eq_self (isEntityId_safe .host _ a.hostId.ok)

/-- The approval as redaction leaves it. -/
def masked (a : ApprovedPlanRef) : ApprovedPlanRef :=
  { a with issuer := Codec.text255.masked a.issuer }

def codec : Codec ApprovedPlanRef :=
  schema.codec fromPayload masked
    (by
      intro a payload h
      simp only [schema, Holds, List.forall_mem_cons] at h
      obtain ⟨h₁, h₂, h₃, h₄, h₅, h₆, h₇, h₈, h₉, h₁₀, h₁₁, h₁₂, h₁₃, h₁₄, h₁₅, h₁₆, h₁₇,
        h₁₈, h₁₉, h₂₀, h₂₁, -⟩ := h
      simp only [fromPayload, Codec.field_of_holds _ h₁, Codec.field_of_holds _ h₂,
        Codec.field_of_holds _ h₃, Codec.field_of_holds _ h₄, Codec.field_of_holds _ h₅,
        Codec.field_of_holds _ h₆, Codec.field_of_holds _ h₇, Codec.field_of_holds _ h₈,
        Codec.field_of_holds _ h₉, Codec.field_of_holds _ h₁₀, Codec.field_of_holds _ h₁₁,
        Codec.field_of_holds _ h₁₂, Codec.field_of_holds _ h₁₃, Codec.field_of_holds _ h₁₄,
        Codec.field_of_holds _ h₁₅, Codec.field_of_holds _ h₁₆, Codec.field_of_holds _ h₁₇,
        Codec.field_of_holds _ h₁₈, Codec.field_of_holds _ h₁₉, Codec.field_of_holds _ h₂₀,
        Codec.field_of_holds _ h₂₁, Codec.masked_digests, masked_audience]
      exact (dif_pos a.audience_eq).trans (dif_pos a.expires_after))
    (by intro a; simp only [schema, masked, maskMembers, Codec.mask_enc])

@[simp] theorem toDict_masked (a : ApprovedPlanRef) : schema.toDict a.masked = schema.toDict a :=
  schema.toDict_congr (by simp only [schema, masked, maskMembers, Codec.mask_enc])

@[simp] theorem bindingDigest_masked (a : ApprovedPlanRef) :
    a.masked.bindingDigest = a.bindingDigest := by
  rw [bindingDigest, bindingDigest, toDict_masked]

/-- Masking the issuer does not change what an approval binds. -/
theorem isFor_masked (a : ApprovedPlanRef) (p : OperationPlan) :
    a.masked.isFor p = a.isFor p := by
  simp only [isFor, bindingDigest_masked]
  rfl

end ApprovedPlanRef

end Ophelia
