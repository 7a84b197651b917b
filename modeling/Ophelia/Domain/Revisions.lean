import Ophelia.Domain.Plans

/-!
# Ophelia.Domain.Revisions

Immutable revisions, their workloads and their lifecycle (`domain/revisions.py`), and the
execution contracts built over them (`execution/contracts.py`).
-/

namespace Ophelia

/-! ### Workloads -/

inductive WorkloadKind where
  | web
  | internal
  | worker
  | cron
  | task
  | migration
  | static
deriving DecidableEq, Repr

namespace WorkloadKind

def value : WorkloadKind → String
  | web => "web"
  | internal => "internal"
  | worker => "worker"
  | cron => "cron"
  | task => "task"
  | migration => "migration"
  | static => "static"

def receivesTraffic : WorkloadKind → Bool
  | web | static => true
  | _ => false

/-- The kinds that may opt into running two revisions side by side. -/
def mayOverlap : WorkloadKind → Bool
  | web | worker | static => true
  | _ => false

def codec : Codec WorkloadKind :=
  .enum [web, internal, worker, cron, task, migration, static]
    value (by intro e; cases e <;> rfl) (by intro e; cases e <;> decide +kernel)

end WorkloadKind

inductive RevisionState where
  | created
  | staged
  | preflightPassed
  | starting
  | ready
  | trafficCandidate
  | active
  | draining
  | inactive
  | garbageCollectable
  | rollbackStarting
  | failed
deriving DecidableEq, Repr

namespace RevisionState

def value : RevisionState → String
  | created => "created"
  | staged => "staged"
  | preflightPassed => "preflight_passed"
  | starting => "starting"
  | ready => "ready"
  | trafficCandidate => "traffic_candidate"
  | active => "active"
  | draining => "draining"
  | inactive => "inactive"
  | garbageCollectable => "garbage_collectable"
  | rollbackStarting => "rollback_starting"
  | failed => "failed"

def codec : Codec RevisionState :=
  .enum [created, staged, preflightPassed, starting, ready, trafficCandidate, active, draining,
      inactive, garbageCollectable, rollbackStarting, failed]
    value (by intro e; cases e <;> rfl) (by intro e; cases e <;> decide +kernel)

end RevisionState

/-- A workload of a revision. -/
structure Workload where
  workloadId : Slug
  workloadKind : WorkloadKind
  artifactDigest : Digest
  routeIds : List Slug
  overlapSafe : Bool
  routes_sorted : sortedUnique routeIds = true
  routes_allowed : routeIds = [] ∨ workloadKind.receivesTraffic = true
  overlap_allowed : overlapSafe = true → workloadKind.mayOverlap = true
deriving DecidableEq

namespace Workload

def schema : Schema Workload where
  kind := "ophelia.kernel.workload"
  keys := ["workload_id", "workload_kind", "artifact_digest", "route_ids", "overlap_safe"]
  fields w :=
    [("workload_id", Codec.slug.enc w.workloadId),
     ("workload_kind", WorkloadKind.codec.enc w.workloadKind),
     ("artifact_digest", Codec.digest.enc w.artifactDigest),
     ("route_ids", Codec.slug.list.enc w.routeIds),
     ("overlap_safe", Codec.bool.enc w.overlapSafe)]
  keys_eq _ := rfl
  kind_safe := by decide
  keys_plain := by decide +kernel
  keys_nodup := by decide
  values_plain _ := by simp

def fromPayload (payload : Json) : Result Workload := do
  let workloadId ← Codec.slug.field "workload_id" payload
  let workloadKind ← WorkloadKind.codec.field "workload_kind" payload
  let artifactDigest ← Codec.digest.field "artifact_digest" payload
  let routeIds ← Codec.slug.list.getD "route_ids" (.arr []) payload
  let overlapSafe ← Codec.bool.getD "overlap_safe" (.bool false) payload
  if routes_sorted : sortedUnique routeIds = true then
    if routes_allowed : routeIds = [] ∨ workloadKind.receivesTraffic = true then
      if overlap_allowed : overlapSafe = true → workloadKind.mayOverlap = true then
        return { workloadId, workloadKind, artifactDigest, routeIds, overlapSafe, routes_sorted,
                 routes_allowed, overlap_allowed }
      else throw (.contractValidation "This workload kind cannot opt into revision overlap.")
    else throw (.contractValidation "Only web and static workloads may declare routes.")
  else throw (.contractValidation "route_ids must be sorted and contain no duplicates.")

theorem masked_routes (routes : List Slug) : Codec.slug.list.masked routes = routes :=
  List.map_id routes

def codec : Codec Workload :=
  schema.codec fromPayload id
    (by
      intro w payload h
      simp only [schema, Holds, List.forall_mem_cons] at h
      obtain ⟨h₁, h₂, h₃, h₄, h₅, -⟩ := h
      simp only [fromPayload, Codec.field_of_holds _ h₁, Codec.field_of_holds _ h₂,
        Codec.field_of_holds _ h₃, Codec.getD_of_holds _ h₄, Codec.getD_of_holds _ h₅,
        masked_routes]
      exact (dif_pos w.routes_sorted).trans <| (dif_pos w.routes_allowed).trans <|
        dif_pos w.overlap_allowed)
    (fun _ => rfl)

theorem masked_list (workloads : List Workload) : codec.list.masked workloads = workloads :=
  List.map_id workloads

end Workload

/-! ### Revisions -/

/-- An immutable revision. -/
structure Revision [Platform] where
  revisionId : EntityId .rev
  app : Slug
  environment : Slug
  manifestDigest : Digest
  artifactDigests : Digests
  rendererVersion : Text 128
  workloads : List Workload
  createdAt : Utc
  workloads_ne_nil : workloads ≠ []
  workloads_sorted : sortedUnique (workloads.map (·.workloadId)) = true
  artifacts_listed : ∀ w ∈ workloads, w.artifactDigest ∈ artifactDigests.1

namespace Revision

variable [Platform]

def schema : Schema Revision where
  kind := "ophelia.kernel.revision"
  keys := ["revision_id", "app", "environment", "manifest_digest", "artifact_digests",
    "renderer_version", "workloads", "created_at"]
  fields r :=
    [("revision_id", (Codec.entityId .rev).enc r.revisionId),
     ("app", Codec.slug.enc r.app),
     ("environment", Codec.slug.enc r.environment),
     ("manifest_digest", Codec.digest.enc r.manifestDigest),
     ("artifact_digests", (Codec.digests "artifact_digests").enc r.artifactDigests),
     ("renderer_version", Codec.text128.enc r.rendererVersion),
     ("workloads", Workload.codec.list.enc r.workloads),
     ("created_at", Codec.utc.enc r.createdAt)]
  keys_eq _ := rfl
  kind_safe := by decide
  keys_plain := by decide +kernel
  keys_nodup := by decide
  values_plain _ := by simp

/-- Digest of the revision without its identity and its time of creation. -/
def contentDigest (r : Revision) : Digest :=
  digestText (canonicalJson (((schema.toDict r).pop "revision_id").pop "created_at"))

/-- `_revision_from_payload`. -/
def fromPayload (payload : Json) : Result Revision := do
  let revisionId ← (Codec.entityId .rev).field "revision_id" payload
  let app ← Codec.slug.field "app" payload
  let environment ← Codec.slug.field "environment" payload
  let manifestDigest ← Codec.digest.field "manifest_digest" payload
  let artifactDigests ← (Codec.digests "artifact_digests").field "artifact_digests" payload
  let rendererVersion ← Codec.text128.field "renderer_version" payload
  let workloads ← Workload.codec.list.field "workloads" payload
  let createdAt ← Codec.utc.field "created_at" payload
  if workloads_ne_nil : workloads ≠ [] then
    if workloads_sorted : sortedUnique (workloads.map (·.workloadId)) = true then
      if artifacts_listed : ∀ w ∈ workloads, w.artifactDigest ∈ artifactDigests.1 then
        return { revisionId, app, environment, manifestDigest, artifactDigests, rendererVersion,
                 workloads, createdAt, workloads_ne_nil, workloads_sorted, artifacts_listed }
      else
        throw (.contractValidation
          "Every workload artifact_digest must appear in revision artifact_digests.")
    else throw (.contractValidation "workloads must be sorted by unique workload_id.")
  else throw (.contractValidation "workloads must be a non-empty immutable tuple.")

/-- The revision as redaction leaves it. -/
def masked (r : Revision) : Revision :=
  { r with rendererVersion := Codec.text128.masked r.rendererVersion }

def codec : Codec Revision :=
  schema.codec fromPayload masked
    (by
      intro r payload h
      simp only [schema, Holds, List.forall_mem_cons] at h
      obtain ⟨h₁, h₂, h₃, h₄, h₅, h₆, h₇, h₈, -⟩ := h
      simp only [fromPayload, Codec.field_of_holds _ h₁, Codec.field_of_holds _ h₂,
        Codec.field_of_holds _ h₃, Codec.field_of_holds _ h₄, Codec.field_of_holds _ h₅,
        Codec.field_of_holds _ h₆, Codec.field_of_holds _ h₇, Codec.field_of_holds _ h₈,
        Codec.masked_digests, Workload.masked_list]
      exact (dif_pos r.workloads_ne_nil).trans <| (dif_pos r.workloads_sorted).trans <|
        dif_pos r.artifacts_listed)
    (by intro r; simp only [schema, masked, maskMembers, Codec.mask_enc])

@[simp] theorem contentDigest_masked (r : Revision) :
    r.masked.contentDigest = r.contentDigest := by
  have h : schema.toDict r.masked = schema.toDict r :=
    schema.toDict_congr (by simp only [schema, masked, maskMembers, Codec.mask_enc])
  rw [contentDigest, contentDigest, h]

end Revision

/-! ### Execution inputs -/

/-- The parts of a path, as `PurePosixPath(…).parts` lists them: empty parts and single
dots are dropped. -/
def pathParts (part : List Char) : List Char → List (List Char)
  | [] => if part = [] ∨ part = ['.'] then [] else [part.reverse]
  | c :: cs =>
      if c = '/' then
        if part = [] ∨ part = ['.'] then pathParts [] cs else part.reverse :: pathParts [] cs
      else pathParts (c :: part) cs

/-- A normalized relative artifact root: forward slashes only, not absolute, never
climbing. -/
def isRelativeRoot (cs : List Char) : Bool :=
  !cs.contains '\\' && cs.head? != some '/' && cs != [] && cs != ['.'] &&
    (pathParts [] cs).all (· != ['.', '.'])

/-- Secret-free reference to immutable revision material below a staging root. -/
structure RevisionArtifactRef where
  revisionId : EntityId .rev
  revisionDigest : Digest
  relativeRoot : Text 1024
  artifactDigest : Digest
  root_relative : isRelativeRoot relativeRoot.val.toList = true
deriving DecidableEq

namespace RevisionArtifactRef

def schema : Schema RevisionArtifactRef where
  kind := "ophelia.kernel.revision_artifact_ref"
  keys := ["revision_id", "revision_digest", "relative_root", "artifact_digest"]
  fields r :=
    [("revision_id", (Codec.entityId .rev).enc r.revisionId),
     ("revision_digest", Codec.digest.enc r.revisionDigest),
     ("relative_root", Codec.text1024.enc r.relativeRoot),
     ("artifact_digest", Codec.digest.enc r.artifactDigest)]
  keys_eq _ := rfl
  kind_safe := by decide
  keys_plain := by decide +kernel
  keys_nodup := by decide
  values_plain _ := by simp

def fromPayload (payload : Json) : Result RevisionArtifactRef := do
  let revisionId ← (Codec.entityId .rev).field "revision_id" payload
  let revisionDigest ← Codec.digest.field "revision_digest" payload
  let relativeRoot ← Codec.text1024.field "relative_root" payload
  let artifactDigest ← Codec.digest.field "artifact_digest" payload
  if root_relative : isRelativeRoot relativeRoot.val.toList = true then
    return { revisionId, revisionDigest, relativeRoot, artifactDigest, root_relative }
  else throw (.contractValidation "relative_root must be a normalized relative artifact root.")

theorem isRelativeRoot_masked (r : RevisionArtifactRef) :
    isRelativeRoot (Codec.text1024.masked r.relativeRoot).val.toList = true := by
  show isRelativeRoot (maskText r.relativeRoot.val).toList = true
  unfold maskText
  split
  · decide
  · exact r.root_relative

/-- The reference as redaction leaves it. -/
def masked (r : RevisionArtifactRef) : RevisionArtifactRef :=
  { r with relativeRoot := Codec.text1024.masked r.relativeRoot,
           root_relative := r.isRelativeRoot_masked }

def codec : Codec RevisionArtifactRef :=
  schema.codec fromPayload masked
    (by
      intro r payload h
      simp only [schema, Holds, List.forall_mem_cons] at h
      obtain ⟨h₁, h₂, h₃, h₄, -⟩ := h
      simp only [fromPayload, Codec.field_of_holds _ h₁, Codec.field_of_holds _ h₂,
        Codec.field_of_holds _ h₃, Codec.field_of_holds _ h₄, Result.ok_bind,
        dif_pos r.isRelativeRoot_masked]
      rfl)
    (by intro r; simp only [schema, masked, maskMembers, Codec.mask_enc])

end RevisionArtifactRef

/-- The claims of an execution input before they are checked against each other. -/
structure ExecutionClaims [Platform] where
  plan : OperationPlan
  approvedPlan : ApprovedPlanRef
  revision : Revision
  artifactRef : RevisionArtifactRef
  deadline : Utc
  inputDigest : Digest

namespace ExecutionClaims

variable [Platform]

def schema : Schema ExecutionClaims where
  kind := "ophelia.kernel.execution_input"
  keys := ["plan", "approved_plan", "revision", "artifact_ref", "deadline", "input_digest"]
  fields i :=
    [("plan", OperationPlan.schema.toDict i.plan),
     ("approved_plan", ApprovedPlanRef.codec.enc i.approvedPlan),
     ("revision", Revision.codec.enc i.revision),
     ("artifact_ref", RevisionArtifactRef.codec.enc i.artifactRef),
     ("deadline", Codec.utc.enc i.deadline),
     ("input_digest", Codec.digest.enc i.inputDigest)]
  keys_eq _ := rfl
  kind_safe := by decide
  keys_plain := by decide +kernel
  keys_nodup := by decide
  values_plain i := by
    have h : plain (OperationPlan.schema.toDict i.plan) = true := by
      rw [Schema.toDict_eq, plain_mask, Schema.plain_raw]
    simp [h]

/-- Digest of the binding claims, everything but the input digest itself. -/
def bindingDigest (i : ExecutionClaims) : Digest :=
  digestText (canonicalJson ((schema.toDict i).pop "input_digest"))

/-- Plan, approval, revision and artifact reconcile. -/
def reconciles (i : ExecutionClaims) : Bool :=
  i.revision.revisionId == i.plan.revisionId &&
    i.revision.contentDigest == i.plan.revisionDigest && i.revision.app == i.plan.app &&
    i.revision.environment == i.plan.environment &&
    i.revision.manifestDigest == i.plan.manifestDigest &&
    i.revision.artifactDigests == i.plan.artifactDigests &&
    i.artifactRef.revisionId == i.revision.revisionId &&
    i.artifactRef.revisionDigest == i.revision.contentDigest &&
    i.revision.artifactDigests.1.contains i.artifactRef.artifactDigest

/-- The claims as redaction leaves them. -/
def masked (i : ExecutionClaims) : ExecutionClaims :=
  { i with approvedPlan := i.approvedPlan.masked, revision := i.revision.masked,
           artifactRef := i.artifactRef.masked }

theorem reconciles_masked (i : ExecutionClaims) : i.masked.reconciles = i.reconciles := by
  simp only [reconciles, masked, Revision.contentDigest_masked]
  simp only [Revision.masked, RevisionArtifactRef.masked]

theorem toDict_masked (i : ExecutionClaims) : schema.toDict i.masked = schema.toDict i := by
  apply schema.toDict_congr
  have h₁ := ApprovedPlanRef.codec.mask_enc i.approvedPlan
  have h₂ := Revision.codec.mask_enc i.revision
  have h₃ := RevisionArtifactRef.codec.mask_enc i.artifactRef
  simp only [schema, masked, maskMembers]
  rw [show i.approvedPlan.masked = ApprovedPlanRef.codec.masked i.approvedPlan from rfl,
    show i.revision.masked = Revision.codec.masked i.revision from rfl,
    show i.artifactRef.masked = RevisionArtifactRef.codec.masked i.artifactRef from rfl,
    h₁, h₂, h₃]

end ExecutionClaims

/-- Exact, deterministic and secret-free input for a recoverable execution. -/
structure ExecutionInput [Platform] extends ExecutionClaims where
  approved : approvedPlan.isFor plan = true
  reconciled : toExecutionClaims.reconciles = true
  digest_eq : inputDigest = toExecutionClaims.bindingDigest

namespace ExecutionInput

variable [Platform]

/-- `canonical_json` of an execution input. -/
def canonicalJson (i : ExecutionInput) : String :=
  ExecutionClaims.schema.canonicalJson i.toExecutionClaims

/-- The cross-checks every execution input goes through when it is built. -/
def check (claims : ExecutionClaims) : Result ExecutionInput :=
  if approved : claims.approvedPlan.isFor claims.plan = true then
    if reconciled : claims.reconciles = true then
      if digest_eq : claims.inputDigest = claims.bindingDigest then
        .ok { claims with approved, reconciled, digest_eq }
      else .error (.contractValidation "input_digest does not match execution input claims.")
    else
      .error (.contractValidation
        "Execution input plan, approval, revision, and artifact claims must reconcile.")
  else .error (.contractValidation "approved_plan must bind the exact plan.")

/-- `_execution_input_from_payload`. -/
def fromPayload (payload : Json) : Result ExecutionInput := do
  let plan ← item payload "plan" >>= OperationPlan.fromPayload
  let approvedPlan ← ApprovedPlanRef.codec.field "approved_plan" payload
  let revision ← Revision.codec.field "revision" payload
  let artifactRef ← RevisionArtifactRef.codec.field "artifact_ref" payload
  let deadline ← Codec.utc.field "deadline" payload
  let inputDigest ← Codec.digest.field "input_digest" payload
  check { plan, approvedPlan, revision, artifactRef, deadline, inputDigest }

theorem approved_masked (i : ExecutionInput) :
    i.toExecutionClaims.masked.approvedPlan.isFor i.toExecutionClaims.masked.plan = true := by
  rw [ExecutionClaims.masked, ApprovedPlanRef.isFor_masked]
  exact i.approved

theorem reconciled_masked (i : ExecutionInput) :
    i.toExecutionClaims.masked.reconciles = true := by
  rw [ExecutionClaims.reconciles_masked]
  exact i.reconciled

theorem digest_eq_masked (i : ExecutionInput) :
    i.toExecutionClaims.masked.inputDigest = i.toExecutionClaims.masked.bindingDigest := by
  rw [ExecutionClaims.bindingDigest, ExecutionClaims.toDict_masked]
  exact i.digest_eq

/-- The execution input as redaction leaves it. -/
def masked (i : ExecutionInput) : ExecutionInput :=
  { i.toExecutionClaims.masked with
    approved := i.approved_masked, reconciled := i.reconciled_masked,
    digest_eq := i.digest_eq_masked }

theorem check_masked (i : ExecutionInput) : check i.toExecutionClaims.masked = .ok i.masked := by
  rw [check, dif_pos i.approved_masked, dif_pos i.reconciled_masked, dif_pos i.digest_eq_masked]
  rfl

theorem approvable (i : ExecutionInput) : i.plan.approvable = true := by
  have h := i.approved
  simp only [ApprovedPlanRef.isFor, Bool.and_eq_true] at h
  tauto

/-- **An execution input is read back from its text**, its free text masked. -/
theorem fromPayload_toDict (i : ExecutionInput) :
    fromPayload (ExecutionClaims.schema.toDict i.toExecutionClaims).sortKeys = .ok i.masked := by
  have h := ExecutionClaims.schema.holds i.toExecutionClaims
  generalize (ExecutionClaims.schema.toDict i.toExecutionClaims).sortKeys = payload at h ⊢
  simp only [ExecutionClaims.schema, Holds, List.forall_mem_cons] at h
  obtain ⟨h₁, h₂, h₃, h₄, h₅, h₆, -⟩ := h
  have hplan : OperationPlan.fromPayload (mask (OperationPlan.schema.toDict i.plan)).sortKeys =
      .ok i.plan := by
    rw [Schema.mask_toDict]
    exact OperationPlan.fromPayload_of_holds i.approvable (OperationPlan.schema.holds i.plan)
  have hitem : (item payload "plan" >>= OperationPlan.fromPayload) = .ok i.plan := by
    simp only [item, h₁, Result.ok_bind, hplan]
  simp only [fromPayload, hitem, Codec.field_of_holds _ h₂, Codec.field_of_holds _ h₃,
    Codec.field_of_holds _ h₄, Codec.field_of_holds _ h₅, Codec.field_of_holds _ h₆,
    Result.ok_bind]
  exact i.check_masked

@[simp] theorem canonicalJson_masked (i : ExecutionInput) :
    i.masked.canonicalJson = i.canonicalJson := by
  rw [canonicalJson, canonicalJson, Schema.canonicalJson, Schema.canonicalJson,
    ← ExecutionClaims.toDict_masked i.toExecutionClaims]
  rfl

end ExecutionInput

end Ophelia
