import Ophelia.Domain.Receipts
import Ophelia.Lib.JsonSize
import Mathlib.Algebra.Order.BigOperators.Group.List
import Mathlib.Algebra.GroupWithZero.Nat

/-!
# Ophelia.Domain.Sizes

How large the contracts can get. The journal refuses canonical texts of more than 65536
bytes; this module bounds the texts by the sizes of their fields, redaction included. An
actor and a request always fit, an approval fits as long as it lists few artifacts, an execution
input and a receipt when their parts are small.
-/

namespace Ophelia

open Json (textWeight weight membersWeight itemsWeight)

/-! ### Redaction -/

theorem textWeight_maskText_le (s : String) : textWeight (maskText s) ≤ textWeight s := by
  unfold maskText
  split
  · have hmarker : textWeight REDACTED = 122 := by decide
    have hmax : 10 ≤ max 10 s.toList.length := Nat.le_max_left _ _
    rw [hmarker, textWeight]
    omega
  · exact Nat.le_refl _

/-- Masking makes no text longer than it may be. -/
theorem weight_mask_le (j : Json) : (mask j).weight ≤ j.weight := by
  induction j using Json.induction with
  | null => exact Nat.le_refl _
  | bool b => exact Nat.le_refl _
  | int n => exact Nat.le_refl _
  | float r => exact Nat.le_refl _
  | str s => exact textWeight_maskText_le s
  | arr xs ih =>
      simp only [mask, weight, Json.itemsWeight_eq, maskItems_eq, List.map_map]
      refine Nat.add_le_add_left (List.sum_le_sum fun x hx => ?_) 2
      exact Nat.add_le_add_right (ih x hx) 1
  | obj ms ih =>
      simp only [mask, weight, Json.membersWeight_eq, maskMembers_eq, List.map_map]
      refine Nat.add_le_add_left (List.sum_le_sum fun m hm => ?_) 2
      have hm := ih m hm
      simp only [Function.comp]
      omega

namespace Schema

variable {α : Type}

/-- The room the header and the keys of a contract take. -/
def keysWeight (s : Schema α) : Nat :=
  2 + (textWeight "schema_version" + 3) + (textWeight "kind" + textWeight s.kind + 2) +
    (s.keys.map fun k => textWeight k + 2).sum

/-- The room the values of a contract take. -/
def valuesWeight (s : Schema α) (a : α) : Nat :=
  ((s.fields a).map fun m => m.2.weight).sum

theorem weight_raw (s : Schema α) (a : α) :
    (s.raw a).weight = s.keysWeight + s.valuesWeight a := by
  have hsum : ∀ ms : List (String × Json), membersWeight ms =
      ((ms.map Prod.fst).map fun k => textWeight k + 2).sum + (ms.map fun m => m.2.weight).sum := by
    intro ms
    induction ms with
    | nil => rfl
    | cons m ms ih =>
        simp only [membersWeight, List.map_cons, List.sum_cons, ih]
        omega
  have hone : weight (.int 1) = 1 := by decide
  simp only [raw, weight, membersWeight, hsum, s.keys_eq, keysWeight, valuesWeight] at hone ⊢
  omega

/-- A contract takes no more room than its keys and its fields before redaction. -/
theorem weight_toDict_le (s : Schema α) (a : α) :
    (s.toDict a).weight ≤ s.keysWeight + s.valuesWeight a := by
  rw [toDict_eq, ← s.weight_raw a]
  exact weight_mask_le _

/-- The text of a contract is bounded by its keys and its fields before redaction. -/
theorem length_canonicalJson_le (s : Schema α) (a : α) :
    (s.canonicalJson a).toList.length ≤ s.keysWeight + s.valuesWeight a :=
  Nat.le_trans (Json.length_dumps_le (s.toDict a)) (s.weight_toDict_le a)

end Schema

/-! ### Fields -/

theorem length_of_isSha256 {cs : List Char} (h : isSha256 cs = true) : cs.length = 71 := by
  simp only [isSha256, Bool.and_eq_true, beq_iff_eq, List.length_drop] at h
  omega

theorem length_of_isSlug {cs : List Char} (h : isSlug cs = true) : cs.length ≤ 63 := by
  simp only [isSlug, Bool.and_eq_true, decide_eq_true_eq] at h
  exact h.1

theorem length_of_isOperation {cs : List Char} (h : isOperation cs = true) :
    cs.length ≤ 127 := by
  simp only [isOperation, Bool.and_eq_true, decide_eq_true_eq] at h
  exact h.1.1

theorem length_of_isText {n : Nat} {cs : List Char} (h : isText n cs = true) :
    cs.length ≤ n := by
  simp only [isText, Bool.and_eq_true, decide_eq_true_eq] at h
  exact h.1.2

theorem length_of_isEntityTail {cs : List Char} (h : isEntityTail cs = true) :
    cs.length ≤ 127 := by
  cases cs with
  | nil => simp
  | cons c cs =>
      simp only [isEntityTail, Bool.and_eq_true, decide_eq_true_eq] at h
      rw [List.length_cons]
      omega

theorem length_of_isEntityId {e : Entity} {cs : List Char} (h : isEntityId e cs = true) :
    cs.length ≤ 137 := by
  simp only [isEntityId, Bool.and_eq_true] at h
  have htag : e.tag.length ≤ 10 := by cases e <;> decide
  have htail := length_of_isEntityTail h.2
  rw [List.length_drop] at htail
  omega

namespace Codec

theorem weight_digest (d : Digest) : (digest.enc d).weight = 854 := by
  show textWeight d.val = 854
  rw [textWeight, length_of_isSha256 d.ok]
  rfl

theorem weight_slug_le (s : Slug) : (slug.enc s).weight ≤ 758 := by
  have h := length_of_isSlug s.ok
  show 12 * max 10 s.val.toList.length + 2 ≤ 758
  omega

theorem weight_entityId_le {e : Entity} (i : EntityId e) : ((entityId e).enc i).weight ≤ 1646 := by
  have h := length_of_isEntityId i.ok
  show 12 * max 10 i.val.toList.length + 2 ≤ 1646
  omega

theorem weight_operationName_le (o : OperationName) : (operationName.enc o).weight ≤ 1526 := by
  have h := length_of_isOperation o.ok
  show 12 * max 10 o.val.toList.length + 2 ≤ 1526
  omega

theorem weight_text_le {n : Nat} (hn : 10 ≤ n) (t : Text n) :
    ((text n hn).enc t).weight ≤ 12 * n + 2 := by
  have h := length_of_isText t.ok
  show 12 * max 10 t.val.toList.length + 2 ≤ 12 * n + 2
  omega

theorem weight_text128_le (t : Text 128) : (text128.enc t).weight ≤ 1538 :=
  weight_text_le _ t

theorem weight_text255_le (t : Text 255) : (text255.enc t).weight ≤ 3062 :=
  weight_text_le _ t

theorem weight_digests (name : String) (d : Digests) :
    ((digests name).enc d).weight = 2 + 855 * d.1.length := by
  show 2 + itemsWeight (d.1.map digest.enc) = _
  have hitems : ∀ ds : List Digest, itemsWeight (ds.map digest.enc) = 855 * ds.length := by
    intro ds
    induction ds with
    | nil => rfl
    | cons d ds ih =>
        simp only [List.map_cons, itemsWeight, weight_digest, ih, List.length_cons]
        omega
  rw [hitems]

theorem weight_digests_le (name : String) {d : Digests} {n : Nat} (h : d.1.length ≤ n) :
    ((digests name).enc d).weight ≤ 2 + 855 * n := by
  rw [weight_digests]
  omega

theorem weight_optionalRevision_le (r : Option (EntityId .rev)) :
    (optionalRevision.enc r).weight ≤ 1646 := by
  cases r with
  | none => decide
  | some r => exact weight_entityId_le r

theorem weight_optionalDigest_le (d : Option Digest) :
    (optionalDigest.enc d).weight ≤ 854 := by
  cases d with
  | none => decide
  | some d => exact (weight_digest d).le

end Codec

/-! ### Contracts -/

/-- An actor fits. -/
theorem Actor.length_canonicalJson_le (a : Actor) :
    (Actor.schema.canonicalJson a).toList.length ≤ 65536 := by
  refine Nat.le_trans (Actor.schema.length_canonicalJson_le a) ?_
  have hkeys : Actor.schema.keysWeight ≤ 2000 := by decide
  have h₁ := Codec.weight_entityId_le a.actorId
  have h₂ := Codec.weight_text128_le a.source
  have h₃ := Codec.weight_text128_le a.authenticatedBy
  have hvalues : Actor.schema.valuesWeight a ≤ 10000 := by
    simp only [Schema.valuesWeight, Actor.schema, List.map_cons, List.map_nil, List.sum_cons,
      List.sum_nil]
    omega
  omega

/-- The claims of a request fit. -/
theorem OperationRequest.length_canonicalJson_le (r : OperationRequest) (d : Digest) :
    (OperationRequest.claimsSchema.canonicalJson (r, d)).toList.length ≤ 65536 := by
  refine Nat.le_trans (OperationRequest.claimsSchema.length_canonicalJson_le (r, d)) ?_
  have hkeys : OperationRequest.claimsSchema.keysWeight ≤ 4000 := by decide
  have h₁ := Codec.weight_entityId_le r.requestId
  have h₂ := Codec.weight_operationName_le r.operation
  have h₃ := Codec.weight_entityId_le r.hostId
  have h₄ := Codec.weight_slug_le r.app
  have h₅ := Codec.weight_slug_le r.environment
  have h₆ := Codec.weight_entityId_le r.revisionId
  have hvalues : OperationRequest.claimsSchema.valuesWeight (r, d) ≤ 20000 := by
    simp only [Schema.valuesWeight, OperationRequest.claimsSchema, List.map_cons, List.map_nil,
      List.sum_cons, List.sum_nil, Codec.weight_digest]
    omega
  omega

theorem AuthorizationKind.weight_le (k : AuthorizationKind) :
    (AuthorizationKind.codec.enc k).weight ≤ 400 := by
  cases k <;> decide

namespace ApprovedPlanRef

variable [Platform]

/-- The claims of a plan fit as long as it has few artifacts. -/
theorem length_planClaims_le (a : ApprovedPlanRef) (h : a.artifactDigests.1.length ≤ 8) :
    (claimsSchema.canonicalJson a).toList.length ≤ 65536 := by
  refine Nat.le_trans (claimsSchema.length_canonicalJson_le a) ?_
  have hkeys : claimsSchema.keysWeight ≤ 6000 := by
    simp only [Schema.keysWeight, claimsSchema]
    decide
  have hdigests := Codec.weight_digests_le "artifact_digests" h
  have hdigest := fun d => (Codec.weight_digest d).le
  have hvalues : claimsSchema.valuesWeight a ≤ _ :=
    Nat.add_le_add (Codec.weight_entityId_le a.planId) <|
    Nat.add_le_add (hdigest a.planDigest) <|
    Nat.add_le_add (hdigest a.requestDigest) <|
    Nat.add_le_add (Codec.weight_entityId_le a.hostId) <|
    Nat.add_le_add (Codec.weight_slug_le a.app) <|
    Nat.add_le_add (Codec.weight_slug_le a.environment) <|
    Nat.add_le_add (Codec.weight_entityId_le a.revisionId) <|
    Nat.add_le_add (hdigest a.revisionDigest) <|
    Nat.add_le_add (hdigest a.manifestDigest) <|
    Nat.add_le_add hdigests <|
    Nat.add_le_add (hdigest a.observedStateDigest) <|
    Nat.add_le_add (hdigest a.policyDigest) (Nat.le_refl 0)
  omega

/-- An approval fits as long as it has few artifacts and its timestamps are short. -/
theorem length_canonicalJson_le (a : ApprovedPlanRef) (h : a.artifactDigests.1.length ≤ 8)
    (happroved : textWeight a.approvedAt.val ≤ 2000) (hexpires : textWeight a.expiresAt.val ≤ 2000) :
    (schema.canonicalJson a).toList.length ≤ 65536 := by
  refine Nat.le_trans (schema.length_canonicalJson_le a) ?_
  have hkeys : schema.keysWeight ≤ 8000 := by
    simp only [Schema.keysWeight, schema]
    decide
  have hdigests := Codec.weight_digests_le "artifact_digests" h
  have hdigest := fun d => (Codec.weight_digest d).le
  have hvalues : schema.valuesWeight a ≤ _ :=
    Nat.add_le_add (Codec.weight_entityId_le a.planId) <|
    Nat.add_le_add (hdigest a.planDigest) <|
    Nat.add_le_add (hdigest a.requestDigest) <|
    Nat.add_le_add (hdigest a.manifestDigest) <|
    Nat.add_le_add hdigests <|
    Nat.add_le_add (hdigest a.observedStateDigest) <|
    Nat.add_le_add (hdigest a.policyDigest) <|
    Nat.add_le_add (Codec.weight_entityId_le a.hostId) <|
    Nat.add_le_add (Codec.weight_slug_le a.app) <|
    Nat.add_le_add (Codec.weight_slug_le a.environment) <|
    Nat.add_le_add (Codec.weight_entityId_le a.revisionId) <|
    Nat.add_le_add (hdigest a.revisionDigest) <|
    Nat.add_le_add (Codec.weight_entityId_le a.actorId) <|
    Nat.add_le_add (Codec.weight_entityId_le a.decisionId) <|
    Nat.add_le_add (AuthorizationKind.weight_le a.authorizationKind) <|
    Nat.add_le_add (Codec.weight_text255_le a.issuer) <|
    Nat.add_le_add (Codec.weight_text255_le a.audience) <|
    Nat.add_le_add happroved <|
    Nat.add_le_add hexpires <|
    Nat.add_le_add (hdigest a.nonceDigest) <|
    Nat.add_le_add (hdigest a.approvalDigest) (Nat.le_refl 0)
  omega

/-- An approval whose texts are short. -/
theorem weight_toDict_le (a : ApprovedPlanRef) (h : a.artifactDigests.1.length ≤ 1)
    (short : ∀ t ∈ [a.planId.val, a.hostId.val, a.app.val, a.environment.val, a.revisionId.val,
      a.actorId.val, a.decisionId.val, a.issuer.val, a.audience.val, a.approvedAt.val,
      a.expiresAt.val], textWeight t ≤ 242) : (schema.toDict a).weight ≤ 20000 := by
  refine Nat.le_trans (schema.weight_toDict_le a) ?_
  have hkeys : schema.keysWeight ≤ 8000 := by
    simp only [Schema.keysWeight, schema]
    decide
  have hdigests := Codec.weight_digests_le "artifact_digests" h
  have hdigest := fun d => (Codec.weight_digest d).le
  simp only [List.forall_mem_cons] at short
  obtain ⟨h₁, h₂, h₃, h₄, h₅, h₆, h₇, h₈, h₉, h₁₀, h₁₁, -⟩ := short
  have hvalues : schema.valuesWeight a ≤ _ :=
    Nat.add_le_add h₁ <| Nat.add_le_add (hdigest a.planDigest) <|
    Nat.add_le_add (hdigest a.requestDigest) <| Nat.add_le_add (hdigest a.manifestDigest) <|
    Nat.add_le_add hdigests <| Nat.add_le_add (hdigest a.observedStateDigest) <|
    Nat.add_le_add (hdigest a.policyDigest) <| Nat.add_le_add h₂ <| Nat.add_le_add h₃ <|
    Nat.add_le_add h₄ <| Nat.add_le_add h₅ <| Nat.add_le_add (hdigest a.revisionDigest) <|
    Nat.add_le_add h₆ <| Nat.add_le_add h₇ <|
    Nat.add_le_add (AuthorizationKind.weight_le a.authorizationKind) <|
    Nat.add_le_add h₈ <| Nat.add_le_add h₉ <| Nat.add_le_add h₁₀ <| Nat.add_le_add h₁₁ <|
    Nat.add_le_add (hdigest a.nonceDigest) <|
    Nat.add_le_add (hdigest a.approvalDigest) (Nat.le_refl 0)
  omega

end ApprovedPlanRef

theorem PlanPhase.weight_le (p : PlanPhase) : (PlanPhase.codec.enc p).weight ≤ 242 := by
  cases p <;> decide

theorem CompensationAction.weight_le (c : CompensationAction) :
    (CompensationAction.codec.enc c).weight ≤ 242 := by
  cases c <;> decide

theorem WorkloadKind.weight_le (k : WorkloadKind) : (WorkloadKind.codec.enc k).weight ≤ 242 := by
  cases k <;> decide

/-- A step with a short number. -/
theorem PlanStep.weight_toDict_le (s : PlanStep) (h : (Codec.positive.enc s.order).weight ≤ 20) :
    (PlanStep.schema.toDict s).weight ≤ 3500 := by
  refine Nat.le_trans (PlanStep.schema.weight_toDict_le s) ?_
  have hkeys : PlanStep.schema.keysWeight ≤ 2000 := by decide
  have hvalues : PlanStep.schema.valuesWeight s ≤ _ :=
    Nat.add_le_add h <| Nat.add_le_add (PlanPhase.weight_le s.phase) <|
    Nat.add_le_add (Nat.le_refl 5) <|
    Nat.add_le_add (Codec.weight_digest s.desiredEffectDigest).le <|
    Nat.add_le_add (CompensationAction.weight_le s.compensation) (Nat.le_refl 0)
  omega

/-- A workload with a short name and no routes. -/
theorem Workload.weight_toDict_le (w : Workload) (h : textWeight w.workloadId.val ≤ 242)
    (hroutes : w.routeIds = []) : (Workload.schema.toDict w).weight ≤ 3500 := by
  refine Nat.le_trans (Workload.schema.weight_toDict_le w) ?_
  have hkeys : Workload.schema.keysWeight ≤ 2000 := by decide
  have hroutes : (Codec.slug.list.enc w.routeIds).weight ≤ 2 := by
    rw [hroutes]
    decide
  have hvalues : Workload.schema.valuesWeight w ≤ _ :=
    Nat.add_le_add h <| Nat.add_le_add (WorkloadKind.weight_le w.workloadKind) <|
    Nat.add_le_add (Codec.weight_digest w.artifactDigest).le <| Nat.add_le_add hroutes <|
    Nat.add_le_add (Nat.le_refl 5) (Nat.le_refl 0)
  omega

section Execution

variable [Platform]

/-- A plan of one step whose texts are short. -/
theorem OperationPlan.weight_toDict_le (p : OperationPlan) (h : p.artifactDigests.1.length ≤ 1)
    (short : ∀ t ∈ [p.planId.val, p.operation.val, p.hostId.val, p.app.val, p.environment.val,
      p.revisionId.val, p.createdAt.val], textWeight t ≤ 242) {step : PlanStep}
    (hsteps : p.steps = [step]) (horder : (Codec.positive.enc step.order).weight ≤ 20)
    (hblock : p.blockerCodes = []) : (OperationPlan.schema.toDict p).weight ≤ 16000 := by
  refine Nat.le_trans (OperationPlan.schema.weight_toDict_le p) ?_
  have hkeys : OperationPlan.schema.keysWeight ≤ 5000 := by
    simp only [Schema.keysWeight, schema]
    decide
  have hdigests := Codec.weight_digests_le "artifact_digests" h
  have hdigest := fun d => (Codec.weight_digest d).le
  have hstep : (PlanStep.codec.list.enc p.steps).weight ≤ 3503 := by
    have := step.weight_toDict_le horder
    rw [hsteps]
    show 2 + ((PlanStep.schema.toDict step).weight + 1 + 0) ≤ 3503
    omega
  have hblock : (Codec.text128.list.enc p.blockerCodes).weight ≤ 2 := by
    rw [hblock]
    decide
  simp only [List.forall_mem_cons] at short
  obtain ⟨h₁, h₂, h₃, h₄, h₅, h₆, h₇, -⟩ := short
  have hvalues : OperationPlan.schema.valuesWeight p ≤ _ :=
    Nat.add_le_add h₁ <| Nat.add_le_add (hdigest p.requestDigest) <| Nat.add_le_add h₂ <|
    Nat.add_le_add h₃ <| Nat.add_le_add h₄ <| Nat.add_le_add h₅ <| Nat.add_le_add h₆ <|
    Nat.add_le_add (hdigest p.revisionDigest) <| Nat.add_le_add (hdigest p.manifestDigest) <|
    Nat.add_le_add hdigests <| Nat.add_le_add (hdigest p.observedStateDigest) <|
    Nat.add_le_add (hdigest p.policyDigest) <| Nat.add_le_add hstep <|
    Nat.add_le_add hblock <| Nat.add_le_add h₇ (Nat.le_refl 0)
  omega

/-- A revision of one workload whose texts are short. -/
theorem Revision.weight_toDict_le (r : Revision) (h : r.artifactDigests.1.length ≤ 1)
    (short : ∀ t ∈ [r.revisionId.val, r.app.val, r.environment.val, r.rendererVersion.val,
      r.createdAt.val], textWeight t ≤ 242) {w : Workload} (hworkloads : r.workloads = [w])
    (hname : textWeight w.workloadId.val ≤ 242) (hroutes : w.routeIds = []) :
    (Revision.schema.toDict r).weight ≤ 10000 := by
  refine Nat.le_trans (Revision.schema.weight_toDict_le r) ?_
  have hkeys : Revision.schema.keysWeight ≤ 3000 := by
    simp only [Schema.keysWeight, schema]
    decide
  have hdigests := Codec.weight_digests_le "artifact_digests" h
  have hwork : (Workload.codec.list.enc r.workloads).weight ≤ 3503 := by
    have := w.weight_toDict_le hname hroutes
    rw [hworkloads]
    show 2 + ((Workload.schema.toDict w).weight + 1 + 0) ≤ 3503
    omega
  simp only [List.forall_mem_cons] at short
  obtain ⟨h₁, h₂, h₃, h₄, h₅, -⟩ := short
  have hvalues : Revision.schema.valuesWeight r ≤ _ :=
    Nat.add_le_add h₁ <| Nat.add_le_add h₂ <| Nat.add_le_add h₃ <|
    Nat.add_le_add (Codec.weight_digest r.manifestDigest).le <| Nat.add_le_add hdigests <|
    Nat.add_le_add h₄ <| Nat.add_le_add hwork <| Nat.add_le_add h₅ (Nat.le_refl 0)
  omega

omit [Platform] in
/-- A reference to artifacts at a short root. -/
theorem RevisionArtifactRef.weight_toDict_le (r : RevisionArtifactRef)
    (hid : textWeight r.revisionId.val ≤ 242) (hroot : textWeight r.relativeRoot.val ≤ 2000) :
    (RevisionArtifactRef.schema.toDict r).weight ≤ 6000 := by
  refine Nat.le_trans (RevisionArtifactRef.schema.weight_toDict_le r) ?_
  have hkeys : RevisionArtifactRef.schema.keysWeight ≤ 2000 := by decide
  have hvalues : RevisionArtifactRef.schema.valuesWeight r ≤ _ :=
    Nat.add_le_add hid <| Nat.add_le_add (Codec.weight_digest r.revisionDigest).le <|
    Nat.add_le_add hroot <|
    Nat.add_le_add (Codec.weight_digest r.artifactDigest).le (Nat.le_refl 0)
  omega

/-- An execution input fits when its parts are as above. -/
theorem ExecutionClaims.length_canonicalJson_le (i : ExecutionClaims)
    (hplan : (OperationPlan.schema.toDict i.plan).weight ≤ 16000)
    (happroved : (ApprovedPlanRef.schema.toDict i.approvedPlan).weight ≤ 20000)
    (hrevision : (Revision.schema.toDict i.revision).weight ≤ 10000)
    (hartifact : (RevisionArtifactRef.schema.toDict i.artifactRef).weight ≤ 6000)
    (hdeadline : textWeight i.deadline.val ≤ 242) :
    (ExecutionClaims.schema.canonicalJson i).toList.length ≤ 65536 := by
  refine Nat.le_trans (ExecutionClaims.schema.length_canonicalJson_le i) ?_
  have hkeys : ExecutionClaims.schema.keysWeight ≤ 3000 := by
    simp only [Schema.keysWeight, schema]
    decide
  have hvalues : ExecutionClaims.schema.valuesWeight i ≤ _ :=
    Nat.add_le_add hplan <| Nat.add_le_add happroved <| Nat.add_le_add hrevision <|
    Nat.add_le_add hartifact <| Nat.add_le_add hdeadline <|
    Nat.add_le_add (Codec.weight_digest i.inputDigest).le (Nat.le_refl 0)
  omega

end Execution

section Evidence

variable [Platform]

/-- An event without a message fits. -/
theorem OperationEvent.length_canonicalJson_le (e : OperationEvent)
    (hseq : (Codec.positive.enc e.sequence).weight ≤ 20)
    (hat : textWeight e.occurredAt.val ≤ 2000) (hmessage : e.message = none)
    (hevidence : e.evidenceDigests.1.length ≤ 1) :
    (OperationEvent.schema.canonicalJson e).toList.length ≤ 65536 := by
  refine Nat.le_trans (OperationEvent.schema.length_canonicalJson_le e) ?_
  have hkeys : OperationEvent.schema.keysWeight ≤ 6000 := by
    simp only [Schema.keysWeight, OperationEvent.schema]
    decide
  have hstate : (OperationState.codec.enc e.state).weight ≤ 400 := by
    cases e.state <;> decide
  have hnone : (Codec.optionalText2048.enc e.message).weight ≤ 20 := by
    rw [hmessage]
    decide
  have hdigests := Codec.weight_digests_le "evidence_digests" hevidence
  have hvalues : OperationEvent.schema.valuesWeight e ≤ _ :=
    Nat.add_le_add (Codec.weight_entityId_le e.eventId) <|
    Nat.add_le_add (Codec.weight_entityId_le e.operationId) <|
    Nat.add_le_add hseq <|
    Nat.add_le_add (Codec.weight_text128_le e.eventType) <|
    Nat.add_le_add hat <| Nat.add_le_add hstate <|
    Nat.add_le_add (Codec.weight_entityId_le e.hostId) <|
    Nat.add_le_add (Codec.weight_slug_le e.app) <|
    Nat.add_le_add (Codec.weight_slug_le e.environment) <|
    Nat.add_le_add (Codec.weight_optionalRevision_le e.revisionId) <|
    Nat.add_le_add hnone <| Nat.add_le_add hdigests <|
    Nat.add_le_add (Codec.weight_optionalDigest_le e.previousEventDigest) (Nat.le_refl 0)
  omega

/-- The verification of a receipt without checks. -/
theorem VerificationResult.weight_toDict_le (v : VerificationResult) (hchecks : v.checks = [])
    (hat : textWeight v.observedAt.val ≤ 242) :
    (VerificationResult.schema.toDict v).weight ≤ 6000 := by
  refine Nat.le_trans (VerificationResult.schema.weight_toDict_le v) ?_
  have hkeys : VerificationResult.schema.keysWeight ≤ 3000 := by
    simp only [Schema.keysWeight, VerificationResult.schema]
    decide
  have hstatus : (VerificationStatus.codec.enc v.status).weight ≤ 242 := by
    cases v.status <;> decide
  have hnone : (VerificationCheck.codec.list.enc v.checks).weight ≤ 20 := by
    rw [hchecks]
    decide
  have hvalues : VerificationResult.schema.valuesWeight v ≤ _ :=
    Nat.add_le_add hstatus <|
    Nat.add_le_add (Codec.weight_optionalDigest_le v.observedRevisionDigest) <|
    Nat.add_le_add (Codec.weight_optionalDigest_le v.observedStateDigest) <|
    Nat.add_le_add hat <| Nat.add_le_add hnone (Nat.le_refl 0)
  omega

omit [Platform] in
/-- The compensation of a receipt with little evidence. -/
theorem CompensationResult.weight_toDict_le (c : CompensationResult)
    (hevidence : c.evidenceDigests.1.length ≤ 1) :
    (CompensationResult.schema.toDict c).weight ≤ 8000 := by
  refine Nat.le_trans (CompensationResult.schema.weight_toDict_le c) ?_
  have hkeys : CompensationResult.schema.keysWeight ≤ 3000 := by decide
  have hbool : (Codec.bool.enc c.attempted).weight ≤ 20 := by
    cases c.attempted <;> decide
  have hstatus : (CompensationStatus.codec.enc c.status).weight ≤ 242 := by
    cases c.status <;> decide
  have hvalues : CompensationResult.schema.valuesWeight c ≤ _ :=
    Nat.add_le_add hbool <| Nat.add_le_add hstatus <|
    Nat.add_le_add (Codec.weight_optionalRevision_le c.restoredRevisionId) <|
    Nat.add_le_add (Codec.weight_optionalDigest_le c.restoredRevisionDigest) <|
    Nat.add_le_add (Codec.weight_digests_le "evidence_digests" hevidence) (Nat.le_refl 0)
  omega

/-- A receipt with one artifact fits. -/
theorem ReceiptClaims.length_canonicalJson_le (r : ReceiptClaims)
    (hartifacts : r.artifactDigests.1.length ≤ 1)
    (hverification : (VerificationResult.schema.toDict r.verification).weight ≤ 6000)
    (hcompensation : (CompensationResult.schema.toDict r.compensation).weight ≤ 8000)
    (hstarted : textWeight r.startedAt.val ≤ 242)
    (hcompleted : textWeight r.completedAt.val ≤ 242) :
    (ReceiptClaims.schema.canonicalJson r).toList.length ≤ 65536 := by
  refine Nat.le_trans (ReceiptClaims.schema.length_canonicalJson_le r) ?_
  have hkeys : ReceiptClaims.schema.keysWeight ≤ 10000 := by
    simp only [Schema.keysWeight, ReceiptClaims.schema]
    decide
  have heffect : (ReceiptEffect.codec.enc r.effect).weight ≤ 400 := by
    cases r.effect <;> decide
  have houtcome : (ReceiptOutcome.codec.enc r.outcome).weight ≤ 400 := by
    cases r.outcome <;> decide
  have hredacted : (Codec.bool.enc r.inputsRedacted).weight ≤ 20 := by
    cases r.inputsRedacted <;> decide
  have hvalues : ReceiptClaims.schema.valuesWeight r ≤ _ :=
    Nat.add_le_add (Codec.weight_entityId_le r.receiptId) <|
    Nat.add_le_add (Codec.weight_entityId_le r.operationId) <|
    Nat.add_le_add (Codec.weight_operationName_le r.operation) <|
    Nat.add_le_add (Codec.weight_entityId_le r.planId) <|
    Nat.add_le_add (Codec.weight_digest r.planDigest).le <|
    Nat.add_le_add (Codec.weight_entityId_le r.decisionId) <|
    Nat.add_le_add (Codec.weight_entityId_le r.hostId) <|
    Nat.add_le_add (Codec.weight_slug_le r.app) <|
    Nat.add_le_add (Codec.weight_slug_le r.environment) <|
    Nat.add_le_add (Codec.weight_optionalRevision_le r.previousRevisionId) <|
    Nat.add_le_add (Codec.weight_entityId_le r.desiredRevisionId) <|
    Nat.add_le_add (Codec.weight_digest r.desiredRevisionDigest).le <|
    Nat.add_le_add (Codec.weight_optionalRevision_le r.activeRevisionId) <|
    Nat.add_le_add (Codec.weight_optionalDigest_le r.activeRevisionDigest) <|
    Nat.add_le_add (Codec.weight_digests_le "artifact_digests" hartifacts) <|
    Nat.add_le_add hverification <| Nat.add_le_add hcompensation <|
    Nat.add_le_add heffect <| Nat.add_le_add houtcome <|
    Nat.add_le_add hstarted <| Nat.add_le_add hcompleted <|
    Nat.add_le_add hredacted (Nat.le_refl 0)
  omega

end Evidence

end Ophelia
