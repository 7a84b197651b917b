import Ophelia.Journal.Idempotency

/-!
# Ophelia.Journal.Inputs

Execution inputs through the journal. An accepted input is stored as its canonical text, with
credential shapes masked, and read back from that text. It always loads, under the digest it
was bound with; it loads as the value it was exactly when none of its three free texts (the
issuer of the approval, the renderer version and the artifact root) looks like a credential.
-/

namespace Ophelia

variable [Platform]

/-- The last step of `ExecutionInput.bind`: the input digest over everything else. -/
def ExecutionClaims.bound (i : ExecutionClaims) : ExecutionClaims :=
  { i with inputDigest := i.bindingDigest }

theorem ExecutionClaims.bindingDigest_bound (i : ExecutionClaims) :
    i.bound.bindingDigest = i.bindingDigest := by
  have hpop : (schema.toDict i.bound).pop "input_digest" =
      (schema.toDict i).pop "input_digest" := by
    simp only [Schema.toDict_eq, Schema.raw, schema, mask, maskMembers, Json.pop, bound]
    rfl
  rw [bindingDigest, bindingDigest, hpop]

/-- No free text of the input looks like a credential. -/
def ExecutionInput.credentialFree (x : ExecutionInput) : Bool :=
  !looksLikeSecretValue x.approvedPlan.issuer.val.toList &&
    !looksLikeSecretValue x.revision.rendererVersion.val.toList &&
    !looksLikeSecretValue x.artifactRef.relativeRoot.val.toList

omit [Platform] in
theorem maskText_eq_self_iff {s : String} :
    maskText s = s ↔ looksLikeSecretValue s.toList = false := by
  constructor
  · intro h
    rw [← h]
    exact looksLikeSecretValue_maskText s
  · exact maskText_eq_self

/-- **Masking leaves an input as it is** exactly when it is free of credentials. -/
theorem ExecutionInput.masked_eq_iff (x : ExecutionInput) :
    x.masked = x ↔ x.credentialFree = true := by
  have htext : ∀ {n : Nat} (hn : 10 ≤ n) (t : Text n),
      (Codec.text n hn).masked t = t ↔ looksLikeSecretValue t.val.toList = false := by
    intro n hn t
    rw [← Refined.val_inj]
    exact maskText_eq_self_iff
  simp only [credentialFree, Bool.and_eq_true, Bool.not_eq_true', and_assoc]
  constructor
  · intro h
    have hissuer := congrArg (fun i => i.approvedPlan.issuer) h
    have hversion := congrArg (fun i => i.revision.rendererVersion) h
    have hroot := congrArg (fun i => i.artifactRef.relativeRoot) h
    exact ⟨(htext (by decide) _).mp hissuer, (htext (by decide) _).mp hversion,
      (htext (by decide) _).mp hroot⟩
  · rintro ⟨hissuer, hversion, hroot⟩
    obtain ⟨⟨plan, approved, revision, artifactRef, deadline, digest⟩, h₁, h₂, h₃⟩ := x
    have hissuer : Codec.text255.masked approved.issuer = approved.issuer := (htext _ _).mpr hissuer
    have hversion : Codec.text128.masked revision.rendererVersion = revision.rendererVersion :=
      (htext _ _).mpr hversion
    have hroot : Codec.text1024.masked artifactRef.relativeRoot = artifactRef.relativeRoot :=
      (htext _ _).mpr hroot
    have ha : approved.masked = approved := by
      unfold ApprovedPlanRef.masked
      rw [hissuer]
    have hr : revision.masked = revision := by
      unfold Revision.masked
      rw [hversion]
    have hf : artifactRef.masked = artifactRef := by
      obtain ⟨id, d, root, a, hrel⟩ := artifactRef
      simp only [RevisionArtifactRef.masked, hroot]
    simp only [masked, ExecutionClaims.masked, ha, hr, hf]

/-- The arguments of an acceptance with an input are checked one after the other. -/
theorem acceptArguments_some {actor : Actor} {request : OperationRequest}
    {approved : ApprovedPlanRef} {x : ExecutionInput} {texts : AcceptanceTexts}
    (hbinding : validateAcceptanceBinding actor request approved request.intentDigest = .ok ())
    (hinput : validateExecutionInput request approved x request.intentDigest = .ok ())
    (htexts : acceptanceTexts actor request approved (some x) = .ok texts) :
    acceptArguments actor request approved (some x) = .ok texts :=
  Results.bind_ok hbinding <| Results.bind_ok hinput htexts

namespace Journal

variable {j j' : Journal} {actor : Actor} {request : OperationRequest}
  {approved : ApprovedPlanRef} {clock : Option Int} {freshId : EntityId .operation}
  {ref : OperationRef}

/-- A loaded input stays loaded. -/
theorem loadExecutionInputTx_runCalls {id : EntityId .operation} {x : ExecutionInput}
    (h : j.loadExecutionInputTx id = .ok x) (calls : List Call) :
    (j.runCalls calls).loadExecutionInputTx id = .ok x := by
  have hstep : ∀ {k k' : Journal} {c : Call}, True → k.loadExecutionInputTx id = .ok x →
      c.run k = .ok k' → k'.loadExecutionInputTx id = .ok x :=
    fun _ hk hrun => (grows_run hrun).extends_.loadExecutionInputTx hk
  exact runCalls_induction (P := fun k => k.loadExecutionInputTx id = .ok x) hstep
    (fun _ _ => trivial) h

/-- **The round trip of an execution input**: after any calls, a new operation loads the input
it was accepted with exactly when the input is free of credentials, and what it loads binds
the digest of the input in every case. -/
theorem loadExecutionInputTx_accepted_iff (before later : List Call) (x : ExecutionInput)
    (haccept : (Journal.fresh.runCalls before).accept actor request approved (some x) clock
      freshId = .ok (j', ref))
    (hnew : (Journal.fresh.runCalls before).operations.get? ref.operationId = none) :
    ((j'.runCalls later).loadExecutionInputTx ref.operationId = .ok x ↔
        x.credentialFree = true) ∧
      ∃ y, (j'.runCalls later).loadExecutionInputTx ref.operationId = .ok y ∧
        y.inputDigest = x.inputDigest ∧
        y.toExecutionClaims.bindingDigest = x.toExecutionClaims.bindingDigest := by
  rcases accept_cases haccept with ⟨i, o, hkey, -, rfl⟩ | ⟨-, rfl, acceptedAt, ha⟩
  · -- a retry names an operation that was there before
    simp only [idempotent?, Option.bind_eq_bind, Option.bind_eq_some_iff, Option.pure_def,
      Option.some.injEq] at hkey
    obtain ⟨i', -, o', ho', heq⟩ := hkey
    obtain ⟨rfl, rfl⟩ := Prod.mk.inj heq
    rw [Table.key_of_get? ho', ho'] at hnew
    exact absurd hnew (by simp)
  · have hload := loadExecutionInputTx_runCalls (ha.loadExecutionInputTx_new rfl) later
    refine ⟨?_, x.masked, hload, rfl, ?_⟩
    · rw [hload, Except.ok.injEq]
      exact x.masked_eq_iff
    · rw [← x.masked.digest_eq, ← x.digest_eq]
      rfl

end Journal

end Ophelia

/-! ### A deployment -/

namespace Ophelia.Reference

attribute [local instance] platform

def artifact : Digest := digestText "artifact"

/-- A worker without routes. -/
def service : Workload where
  workloadId := ⟨"api", by decide⟩
  workloadKind := .worker
  artifactDigest := artifact
  routeIds := []
  overlapSafe := false
  routes_sorted := by decide
  routes_allowed := Or.inl rfl
  overlap_allowed := by decide

def revision : Revision where
  revisionId := ⟨"rev_a", Eq.refl true⟩
  app := ⟨"web", Eq.refl true⟩
  environment := ⟨"production", Eq.refl true⟩
  manifestDigest := digestText "manifest"
  artifactDigests := ⟨[artifact], by decide⟩
  rendererVersion := ⟨"1", by decide⟩
  workloads := [service]
  createdAt := ⟨"2026-01-01T00:00:00Z", isUtc_newYear⟩
  workloads_ne_nil := by simp
  workloads_sorted := by decide
  artifacts_listed := by simp [service]

/-- The request to deploy the revision. -/
def deploy : OperationRequest :=
  { request firstKey with revisionDigest := revision.contentDigest }

theorem validate_declared :
    ¬ (false = true ∧ CompensationAction.none = CompensationAction.none) := by
  decide

theorem deploySteps_ne_nil :
    [(⟨⟨1, Nat.one_pos⟩, .validate, false, digestText "effect", .none, validate_declared⟩ :
      PlanStep)] ≠ [] :=
  List.cons_ne_nil _ _

theorem deploySteps_ordered :
    [(⟨⟨1, Nat.one_pos⟩, .validate, false, digestText "effect", .none, validate_declared⟩ :
      PlanStep)].map (·.order.1) = List.range' 1 1 :=
  rfl

/-- A plan of one step. -/
def deployPlan : OperationPlan where
  planId := ⟨"plan_a", Eq.refl true⟩
  requestDigest := deploy.intentDigest
  operation := deploy.operation
  hostId := deploy.hostId
  app := deploy.app
  environment := deploy.environment
  revisionId := deploy.revisionId
  revisionDigest := revision.contentDigest
  manifestDigest := revision.manifestDigest
  artifactDigests := revision.artifactDigests
  observedStateDigest := digestText "observed"
  policyDigest := digestText "policy"
  steps := [⟨⟨1, Nat.one_pos⟩, .validate, false, digestText "effect", .none, validate_declared⟩]
  blockerCodes := []
  createdAt := ⟨"2026-01-01T00:00:00Z", isUtc_newYear⟩
  steps_ne_nil := deploySteps_ne_nil
  steps_ordered := deploySteps_ordered
  blockers_sorted := Eq.refl true

def deployApproval : ApprovedPlanRef :=
  ApprovedPlanRef.bound
    { approval with
      planDigest := deployPlan.planDigest
      requestDigest := deploy.intentDigest
      artifactDigests := revision.artifactDigests
      revisionDigest := revision.contentDigest }

def deadline : Utc := ⟨"2026-01-01T00:00:30Z", by decide +kernel⟩

/-- The claims of the deployment, with the artifacts of the revision at a root. -/
def deployClaims (root : Text 1024) (h : isRelativeRoot root.val.toList = true) :
    ExecutionClaims where
  plan := deployPlan
  approvedPlan := deployApproval
  revision := revision
  artifactRef := ⟨revision.revisionId, revision.contentDigest, root, artifact, h⟩
  deadline := deadline
  inputDigest := digestText ""

theorem isFor_deployPlan : deployApproval.isFor deployPlan = true := by
  have hdigest : deployApproval.approvalDigest = deployApproval.bindingDigest :=
    (ApprovedPlanRef.bindingDigest_bound _).symm
  simp only [ApprovedPlanRef.isFor, Bool.and_eq_true, beq_iff_eq]
  exact ⟨⟨⟨⟨⟨⟨⟨⟨⟨⟨⟨⟨⟨rfl, rfl⟩, rfl⟩, rfl⟩, rfl⟩, rfl⟩, rfl⟩, rfl⟩, rfl⟩, rfl⟩, rfl⟩, rfl⟩, rfl⟩,
    hdigest⟩

/-- The deployment as an execution input. -/
def deployInput (root : Text 1024) (h : isRelativeRoot root.val.toList = true) :
    ExecutionInput where
  toExecutionClaims := (deployClaims root h).bound
  approved := isFor_deployPlan
  reconciled := by
    simp only [ExecutionClaims.reconciles, Bool.and_eq_true, beq_iff_eq]
    exact ⟨⟨⟨⟨⟨⟨⟨⟨rfl, rfl⟩, rfl⟩, rfl⟩, rfl⟩, rfl⟩, rfl⟩, rfl⟩, by
      simp [ExecutionClaims.bound, deployClaims, revision]⟩
  digest_eq := (ExecutionClaims.bindingDigest_bound _).symm

/-- The input of the deployment fits when the root is short. -/
theorem length_deployInput (root : Text 1024) (h : isRelativeRoot root.val.toList = true)
    (hroot : Json.textWeight root.val ≤ 2000) :
    (deployInput root h).canonicalJson.toList.length ≤ 65536 := by
  have hdeadline : Json.textWeight deadline.val ≤ 242 := by decide
  have hid : Json.textWeight revision.revisionId.val ≤ 242 := by decide
  refine ExecutionClaims.length_canonicalJson_le _ ?_ ?_ ?_ ?_ hdeadline
  · exact deployPlan.weight_toDict_le (by decide) (by decide) rfl (by decide) rfl
  · exact deployApproval.weight_toDict_le (by decide) (by decide)
  · exact revision.weight_toDict_le (by decide) (by decide) rfl (by decide) rfl
  · exact RevisionArtifactRef.weight_toDict_le _ hid hroot

/-- The deployment is accepted. -/
theorem accept_deploy (root : Text 1024) (h : isRelativeRoot root.val.toList = true)
    (hroot : Json.textWeight root.val ≤ 2000) :
    ∃ j, Journal.fresh.accept actor deploy deployApproval (some (deployInput root h))
      (some EPOCH) firstId = .ok (j, ⟨firstId, deploy.requestId, .accepted⟩) := by
  have hbinding : validateAcceptanceBinding actor deploy deployApproval deploy.intentDigest =
      .ok () :=
    Journal.validateAcceptanceBinding_bound rfl ⟨rfl, rfl, rfl, rfl, rfl, rfl⟩
  have hlate : deadline.instant ≤ deployApproval.expiresAt.instant := by decide +kernel
  have hinput : validateExecutionInput deploy deployApproval (deployInput root h)
      deploy.intentDigest = .ok () :=
    Results.bind_ok (ensure_of hlate) <| ensure_of ⟨rfl, rfl, rfl, rfl, rfl, rfl, rfl, rfl⟩
  obtain ⟨texts, htexts⟩ : ∃ texts, acceptanceTexts actor deploy deployApproval
      (some (deployInput root h)) = .ok texts :=
    Journal.acceptanceTexts_ok (by decide) (by decide) (by decide) (by
      intro i hi
      rw [← Option.some.inj hi]
      exact length_deployInput root h hroot)
  have hargs : acceptArguments actor deploy deployApproval (some (deployInput root h)) =
      .ok texts :=
    acceptArguments_some hbinding hinput htexts
  have hexpired : deployApproval.expired (EPOCH * 1000000) = false := by decide +kernel
  have hdeadline : ((some (deployInput root h)).all fun i =>
      EPOCH * 1000000 < i.deadline.instant) = true := by
    have hlive : EPOCH * 1000000 < deadline.instant := by decide +kernel
    rw [Option.all_some, decide_eq_true_eq]
    exact hlive
  obtain ⟨j, hj⟩ := Journal.acceptNew_ok (j := Journal.fresh) htexts rfl fromTimestamp_epoch
    hdeadline hexpired (Table.get?_put_self _ _)
    (Or.inr fun a ha => absurd ha (by simp [Journal.fresh])) (Table.get?_put_self _ _) rfl rfl
    (fun i hi => absurd hi (by simp [Journal.fresh]))
  refine ⟨j, ?_⟩
  rw [Journal.accept_eq, hargs, Result.ok_bind]
  exact hj

/-- A root below the staging directory. -/
def stagedRoot : Text 1024 := ⟨"revisions/a", by decide⟩

/-- A root that looks like the address of a cache. -/
def schemeRoot : Text 1024 := ⟨"redis://a", by decide⟩

theorem staged_relative : isRelativeRoot stagedRoot.val.toList = true := by decide

theorem scheme_relative : isRelativeRoot schemeRoot.val.toList = true := by decide

theorem load_stagedRoot : ∃ j ref,
    (Journal.fresh.runCalls []).accept actor deploy deployApproval
      (some (deployInput stagedRoot staged_relative)) (some EPOCH) firstId = .ok (j, ref) ∧
    (Journal.fresh.runCalls []).operations.get? ref.operationId = none ∧
    (j.runCalls []).loadExecutionInputTx ref.operationId =
      .ok (deployInput stagedRoot staged_relative) := by
  obtain ⟨j, haccept⟩ := accept_deploy stagedRoot staged_relative (by decide)
  refine ⟨j, _, haccept, rfl, ?_⟩
  refine (Journal.loadExecutionInputTx_accepted_iff [] [] _ haccept rfl).1.mpr ?_
  have hissuer : looksLikeSecretValue deployApproval.issuer.val.toList = false := by decide
  have hversion : looksLikeSecretValue revision.rendererVersion.val.toList = false := by decide
  have hroot : looksLikeSecretValue stagedRoot.val.toList = false := by decide
  simp only [ExecutionInput.credentialFree, Bool.and_eq_true, Bool.not_eq_true']
  exact ⟨⟨hissuer, hversion⟩, hroot⟩

/-- **An input does not come back.** -/
theorem not_load_schemeRoot : ∃ j ref,
    (Journal.fresh.runCalls []).accept actor deploy deployApproval
      (some (deployInput schemeRoot scheme_relative)) (some EPOCH) firstId = .ok (j, ref) ∧
    (Journal.fresh.runCalls []).operations.get? ref.operationId = none ∧
    (j.runCalls []).loadExecutionInputTx ref.operationId ≠
      .ok (deployInput schemeRoot scheme_relative) := by
  obtain ⟨j, haccept⟩ := accept_deploy schemeRoot scheme_relative (by decide)
  refine ⟨j, _, haccept, rfl, fun hload => ?_⟩
  rcases Journal.accept_cases haccept with ⟨i, o, hkey, -, -⟩ | ⟨-, -, acceptedAt, ha⟩
  · exact absurd hkey (by simp [Journal.idempotent?, Journal.fresh])
  have hmasked := ha.loadExecutionInputTx_new rfl
  rw [show j.runCalls [] = j from rfl, hmasked] at hload
  have hfree := ((deployInput schemeRoot scheme_relative).masked_eq_iff).mp (Except.ok.inj hload)
  have hroot : looksLikeSecretValue schemeRoot.val.toList = true := by decide
  simp only [ExecutionInput.credentialFree, Bool.and_eq_true, Bool.not_eq_true'] at hfree
  have hroot' : looksLikeSecretValue schemeRoot.val.toList = false := hfree.2
  rw [hroot] at hroot'
  exact absurd hroot' (by decide)

end Ophelia.Reference
