import Ophelia.Journal.Preservation

/-!
# Ophelia.Journal.Accepted

Accepting an operation keeps the journal coherent. The texts an acceptance stores parse
back to the claims it was made of, and these reconcile with the columns next to them, for
the operation itself and for its execution input.
-/

namespace Ophelia

variable [Platform]

omit [Platform] in
/-- Redaction leaves what a request is about. -/
theorem OperationRequest.redacted_place (r : OperationRequest) :
    r.redacted.requestId = r.requestId ∧ r.redacted.operation = r.operation ∧
      r.redacted.hostId = r.hostId ∧ r.redacted.app = r.app ∧
      r.redacted.environment = r.environment ∧ r.redacted.revisionId = r.revisionId ∧
      r.redacted.revisionDigest = r.revisionDigest := by
  simp only [OperationRequest.redacted, and_self]

/-- Redaction leaves what an approval is about. -/
theorem ApprovedPlanRef.masked_place (a : ApprovedPlanRef) :
    a.masked.planId = a.planId ∧ a.masked.planDigest = a.planDigest ∧
      a.masked.requestDigest = a.requestDigest ∧ a.masked.hostId = a.hostId ∧
      a.masked.app = a.app ∧ a.masked.environment = a.environment ∧
      a.masked.revisionId = a.revisionId ∧ a.masked.revisionDigest = a.revisionDigest ∧
      a.masked.decisionId = a.decisionId ∧ a.masked.actorId = a.actorId ∧
      a.masked.approvalDigest = a.approvalDigest := by
  simp only [ApprovedPlanRef.masked, and_self]

namespace Journal

variable {j j' : Journal} {id freshId : EntityId .operation} {actor : Actor}
  {request : OperationRequest} {approved : ApprovedPlanRef} {input : Option ExecutionInput}
  {acceptedAt : Utc}

/-- The rows of a new acceptance, joined. -/
def newRow (actor : Actor) (request : OperationRequest) (approved : ApprovedPlanRef)
    (freshId : EntityId .operation) (acceptedAt : Utc) : AcceptedRow :=
  ⟨acceptedOperation actor request approved freshId acceptedAt, acceptedApproval approved,
    acceptedPlan approved⟩

/-- The claims of a new acceptance, as they are read back. -/
def newClaims (actor : Actor) (request : OperationRequest) (approved : ApprovedPlanRef) :
    AcceptedClaims :=
  ⟨digestText request.idempotencyKey.val, request.redacted, actor.masked, approved.masked⟩

/-! ### Reading the texts back -/

omit [Platform] in
theorem requestJson_eq (request : OperationRequest) (d : Digest) :
    canonicalJson (request.claims d) =
      OperationRequest.claimsSchema.canonicalJson (request, d) := by
  rw [OperationRequest.claims_eq, Schema.canonicalJson_toDict]

omit [Platform] in
theorem keyDigest_read (request : OperationRequest) (d : Digest) :
    Codec.digest.field "idempotency_key_digest"
      (OperationRequest.claimsSchema.toDict (request, d)).sortKeys = .ok d :=
  Codec.digest.field_of_holds
    (OperationRequest.claimsSchema.holds (request, d) ("idempotency_key_digest", _)
      (by simp [OperationRequest.claimsSchema]))

theorem parseAcceptance_newRow :
    parseAcceptance (newRow actor request approved freshId acceptedAt) =
      .ok (newClaims actor request approved) := by
  unfold parseAcceptance newRow acceptedOperation acceptedApproval acceptedPlan
  simp only [requestJson_eq, ApprovedPlanRef.canonicalJson_planClaims, loadsObject_canonicalJson,
    keyDigest_read, OperationRequest.fromClaims_claims, Actor.fromPayload_toDict,
    ApprovedPlanRef.fromPayload_toDict, Result.ok_bind]
  rfl

/-- What binds an approval to a request. -/
theorem validateAcceptanceBinding_eq_ok {d : Digest}
    (h : validateAcceptanceBinding actor request approved d = .ok ()) :
    approved.actorId = actor.actorId ∧ approved.approvalDigest = approved.bindingDigest ∧
      approved.requestDigest = d ∧ approved.hostId = request.hostId ∧
      approved.app = request.app ∧ approved.environment = request.environment ∧
      approved.revisionId = request.revisionId ∧
      approved.revisionDigest = request.revisionDigest := by
  unfold validateAcceptanceBinding at h
  obtain ⟨_, hactor, h⟩ := Results.bind_eq_ok.mp h
  obtain ⟨_, hdigest, h⟩ := Results.bind_eq_ok.mp h
  exact ⟨ensure_eq_ok.mp hactor, ensure_eq_ok.mp hdigest, ensure_eq_ok.mp h⟩

/-- **A new acceptance verifies.** -/
theorem verifiedAcceptanceClaims_newRow (freshId : EntityId .operation) (acceptedAt : Utc)
    (h : validateAcceptanceBinding actor request approved request.intentDigest = .ok ()) :
    verifiedAcceptanceClaims (newRow actor request approved freshId acceptedAt) =
      .ok (newClaims actor request approved) := by
  obtain ⟨hactor, hdigest, hrequest, hhost, happ, henv, hrev, hrevd⟩ :=
    validateAcceptanceBinding_eq_ok h
  refine verifiedAcceptanceClaims_eq_ok.mpr ⟨parseAcceptance_newRow, ?_⟩
  have hplan : canonicalJson approved.masked.planClaims = canonicalJson approved.planClaims := rfl
  obtain ⟨hid', hop', hhost', happ', henv', hrev', hrevd'⟩ := request.redacted_place
  obtain ⟨mplan, mplanDigest, mrequest, mhost, mapp, menv, mrev, mrevd, mdecision, mactor,
    mapproval⟩ := approved.masked_place
  refine ⟨?_, Actor.canonicalJson_masked actor, hplan, ApprovedPlanRef.canonicalJson_masked approved,
    hid', hop', hhost', happ', henv', hrev', request.intentDigest_redacted, rfl, mplan, mplanDigest,
    mrequest, hrequest.symm, mhost.trans hhost, mapp.trans happ, menv.trans henv, mrev.trans hrev,
    ?_, mdecision, mactor, mapproval, ?_⟩
  · show canonicalJson (request.redacted.claims _) = canonicalJson (request.claims _)
    rw [OperationRequest.claims_eq, OperationRequest.claims_eq,
      OperationRequest.claimsSchema_redacted]
    rfl
  · exact (mrevd.trans hrevd).trans hrevd'.symm
  · show approved.approvalDigest = approved.masked.bindingDigest
    rw [ApprovedPlanRef.bindingDigest_masked, hdigest]

theorem validateExecutionInput_masked {i : ExecutionInput} {d : Digest}
    (h : validateExecutionInput request approved i d = .ok ()) :
    validateExecutionInput request.redacted approved.masked i.masked d = .ok () := by
  unfold validateExecutionInput at h ⊢
  obtain ⟨_, hdeadline, h⟩ := Results.bind_eq_ok.mp h
  have hdeadline := ensure_eq_ok.mp hdeadline
  obtain ⟨h₁, h₂, h₃, h₄, h₅, h₆, h₇, h₈⟩ := ensure_eq_ok.mp h
  have hends : i.masked.deadline = i.deadline ∧ approved.masked.expiresAt = approved.expiresAt := by
    simp only [ExecutionInput.masked, ExecutionClaims.masked, ApprovedPlanRef.masked, and_self]
  rw [hends.1, hends.2]
  refine Results.bind_ok (ensure_of hdeadline) <| ensure_eq_ok.mpr ?_
  obtain ⟨-, hop', hhost', happ', henv', hrev', hrevd'⟩ := request.redacted_place
  have hplan : i.masked.plan = i.plan := by
    simp only [ExecutionInput.masked, ExecutionClaims.masked]
  rw [hplan, hop', hhost', happ', henv', hrev', hrevd']
  refine ⟨h₁, h₂, h₃, h₄, h₅, h₆, h₇, ?_⟩
  show ApprovedPlanRef.schema.canonicalJson i.approvedPlan.masked =
    ApprovedPlanRef.schema.canonicalJson approved.masked
  rw [ApprovedPlanRef.canonicalJson_masked, ApprovedPlanRef.canonicalJson_masked, h₈]

/-- **A new execution input verifies.** -/
theorem reconcileExecutionInput_newRow {i : ExecutionInput}
    (hbind : validateAcceptanceBinding actor request approved request.intentDigest = .ok ())
    (hinput : validateExecutionInput request approved i request.intentDigest = .ok ()) :
    reconcileExecutionInput (newRow actor request approved freshId acceptedAt)
      (acceptedInput freshId i) = .ok i.masked := by
  have hclaims := verifiedAcceptanceClaims_newRow freshId acceptedAt hbind
  unfold reconcileExecutionInput
  rw [hclaims, Result.ok_bind]
  have hpayload : loadsObject (acceptedInput freshId i).payloadJson =
      .ok (ExecutionClaims.schema.toDict i.toExecutionClaims).sortKeys :=
    loadsObject_canonicalJson _ _
  have hrequest : (loadsObject (newRow actor request approved freshId acceptedAt).operation.requestJson
      >>= OperationRequest.fromClaims) = .ok request.redacted := by
    show (loadsObject (canonicalJson (request.claims _)) >>= _) = _
    rw [requestJson_eq, loadsObject_canonicalJson, Result.ok_bind,
      OperationRequest.fromClaims_claims]
  have happroval : (loadsObject (newRow actor request approved freshId acceptedAt).approval.payloadJson
      >>= ApprovedPlanRef.fromPayload) = .ok approved.masked := by
    show (loadsObject (ApprovedPlanRef.schema.canonicalJson approved) >>= _) = _
    rw [loadsObject_canonicalJson, Result.ok_bind, ApprovedPlanRef.fromPayload_toDict]
  have hvalid : validateExecutionInput request.redacted approved.masked i.masked
      (newRow actor request approved freshId acceptedAt).operation.requestDigest = .ok () :=
    validateExecutionInput_masked hinput
  rw [hpayload, Result.ok_bind, i.fromPayload_toDict, Result.ok_bind, hrequest, Result.ok_bind,
    happroval, Result.ok_bind, hvalid, Result.ok_bind]
  refine Results.bind_ok (ensure_of ⟨rfl, rfl, ?_⟩) rfl
  exact i.canonicalJson_masked

/-! ### The new journal -/

namespace Accepts

variable (h : Accepts j j' actor request approved input freshId acceptedAt)

include h

theorem operations_new : j'.operations.get? freshId =
    some (acceptedOperation actor request approved freshId acceptedAt) := by
  rw [h.result]
  exact Table.get?_put_self j.operations
    (acceptedOperation actor request approved freshId acceptedAt)

theorem ne_of_known (hk : j.Known id) : id ≠ freshId := by
  rintro rfl
  rw [Known, h.fresh] at hk
  exact absurd hk (by simp)

theorem operations_old (hne : id ≠ freshId) :
    j'.operations.get? id = j.operations.get? id := by
  rw [h.result]
  exact Table.get?_put_ne _ hne

theorem known_iff : j'.Known id ↔ id = freshId ∨ j.Known id := by
  by_cases hid : id = freshId
  · subst hid
    simp [Known, h.operations_new]
  · rw [Known, h.operations_old hid]
    simp [Known, hid]

theorem inputs_old (hne : id ≠ freshId) :
    j'.operationInputs.get? id = j.operationInputs.get? id := by
  rw [h.result]
  cases input with
  | none => rfl
  | some i => exact Table.get?_put_ne _ hne

theorem extends_ : Extends j j' := by
  refine ⟨?_, ?_, ?_, fun hk => h.inputs_old (h.ne_of_known hk)⟩
  · intro k p hp
    rw [h.result]
    exact putNew_eq_ok hp
  · intro k a ha
    rw [h.result]
    exact putNew_eq_ok ha
  · intro id o ho
    refine ⟨o.state, ?_⟩
    rw [h.operations_old (h.ne_of_known (known_of_get? ho))]
    exact ho

theorem acceptedRow?_new :
    j'.acceptedRow? freshId = some (newRow actor request approved freshId acceptedAt) := by
  refine acceptedRow?_eq_some.mpr ⟨h.operations_new, ?_, ?_⟩
  · rw [h.result]
    exact h.approval
  · rw [h.result]
    exact h.plan

theorem acceptedRow?_old (hk : j.Known id) {r : AcceptedRow} (hr : j.acceptedRow? id = some r) :
    j'.acceptedRow? id = some r := by
  obtain ⟨ho, ha, hp⟩ := acceptedRow?_eq_some.mp hr
  refine acceptedRow?_eq_some.mpr ⟨?_, h.extends_.approvals ha, h.extends_.plans hp⟩
  rw [h.operations_old (h.ne_of_known hk)]
  exact ho

/-- Nothing refers to an operation before it is accepted. -/
theorem eventRows_new (hj : Coherent j) : j'.eventRows freshId = [] := by
  rw [List.eq_nil_iff_forall_not_mem]
  intro e he
  rw [h.result] at he
  obtain ⟨hmem, hid⟩ := Table.mem_log.mp he
  exact h.ne_of_known (hj.events e hmem) hid

theorem lifecycleRows_new (hj : Coherent j) : j'.lifecycleRows freshId = [] := by
  rw [List.eq_nil_iff_forall_not_mem]
  intro e he
  rw [h.result] at he
  obtain ⟨hmem, hid⟩ := Table.mem_log.mp he
  obtain ⟨input, -, hinput, -⟩ := hj.bound e hmem
  exact h.ne_of_known (known_of_loadExecutionInputTx hinput) hid

theorem receipt?_new (hj : Coherent j) : j'.receipt? freshId = none := by
  rw [h.result, receipt?, List.find?_eq_none]
  intro r hr
  simpa using h.ne_of_known (hj.receipts r hr)

theorem history_new (hj : Coherent j) :
    History j' freshId (newRow actor request approved freshId acceptedAt)
      (newClaims actor request approved) [] (1, none) := by
  refine ⟨h.acceptedRow?_new, verifiedAcceptanceClaims_newRow freshId acceptedAt h.binding, ?_, rfl,
    ?_⟩
  · rw [h.eventRows_new hj]
    rfl
  · rw [h.receipt?_new hj]
    exact ⟨rfl, by simp⟩

theorem verifiedEvents_old (hj : Coherent j) (hk : j.Known id) :
    j'.verifiedEvents id = j.verifiedEvents id := by
  obtain ⟨r, claims, events, p, hh⟩ := hj.exists_history hk
  refine verifiedEvents_congr ?_ ?_ ?_
  · rw [h.acceptedRow?_old hk hh.accepted, hh.accepted]
  · rw [h.result]
    rfl
  · rw [h.result]
    rfl

theorem loadExecutionInputTx_new {i : ExecutionInput} (hi : input = some i) :
    j'.loadExecutionInputTx freshId = .ok i.masked := by
  refine loadExecutionInputTx_eq_ok.mpr ⟨_, acceptedInput freshId i, h.acceptedRow?_new, ?_,
    reconcileExecutionInput_newRow h.binding (h.inputs i hi)⟩
  rw [h.result, hi]
  exact Table.get?_put_self j.operationInputs (acceptedInput freshId i)

/-- **Accepting an operation keeps the journal coherent.** -/
theorem coherent (hj : Coherent j) : Coherent j' := by
  have hext := h.extends_
  have hsame : ∀ {id}, j'.Known id → id ≠ freshId → j.Known id := by
    intro id hk hne
    exact (h.known_iff.mp hk).resolve_left hne
  refine ⟨?_, ?_, ?_, ?_, ?_, ?_, ?_, ?_, ?_, ?_, ?_, ?_, ?_, ?_⟩
  · intro a ha
    rw [h.result] at ha
    have hcase : a ∈ j.approvals.rows ∨ a = acceptedApproval approved := by
      simp only [Table.putNew] at ha
      split at ha
      · exact Or.inl ha
      · rcases Table.mem_put.mp ha with rfl | ⟨ha, -⟩
        · exact Or.inr rfl
        · exact Or.inl ha
    rcases hcase with ha | rfl
    · obtain ⟨p, hp⟩ := Option.isSome_iff_exists.mp (hj.plans a ha)
      simp [hext.plans hp]
    · have hplan : j'.plans.get? approved.planId = some (acceptedPlan approved) := by
        rw [h.result]
        exact h.plan
      simp [acceptedApproval, hplan]
  · intro i hi
    rw [h.result] at hi
    rcases Table.mem_put.mp hi with rfl | ⟨hi, -⟩
    · exact h.known_iff.mpr (Or.inl rfl)
    · exact hext.known (hj.idempotency i hi)
  · intro e he
    rw [h.result] at he
    exact hext.known (hj.events e he)
  · intro l hl
    rw [h.result] at hl
    exact hext.known (hj.leases l hl)
  · intro l hl
    rw [h.result] at hl
    exact hext.known (hj.scopeLeases l hl)
  · intro r hr
    rw [h.result] at hr
    exact hext.known (hj.receipts r hr)
  · intro id hk
    rcases h.known_iff.mp hk with rfl | hk
    · exact ⟨_, verifiedEvents_eq_ok.mpr ⟨_, _, _, h.history_new hj⟩⟩
    · rw [h.verifiedEvents_old hj hk]
      exact hj.history hk
  · refine hj.mirror.mono ?_ ?_ hext.known <;> rw [h.result]
  · intro d hd
    rw [h.result] at hd ⊢
    exact hj.delivery d hd
  · intro i hi
    have hcase : i ∈ j.operationInputs.rows ∨ ∃ x, input = some x ∧ i = acceptedInput freshId x := by
      rw [h.result] at hi
      cases input with
      | none => exact Or.inl hi
      | some x =>
          rcases Table.mem_put.mp hi with rfl | ⟨hi, -⟩
          · exact Or.inr ⟨x, rfl, rfl⟩
          · exact Or.inl hi
    rcases hcase with hi | ⟨x, hx, rfl⟩
    · obtain ⟨y, hy⟩ := hj.inputs i hi
      exact ⟨y, hext.loadExecutionInputTx hy⟩
    · exact ⟨x.masked, h.loadExecutionInputTx_new hx⟩
  · intro c hc
    have hc' : c ∈ j.operationControls.rows := by
      rw [h.result] at hc
      exact hc
    obtain ⟨hk, control, hcontrol⟩ := hj.controls c hc'
    refine ⟨hext.known hk, control, ?_⟩
    rw [← hcontrol]
    refine controlTx_congr hk (hext.known hk) ?_ (hext.inputs hk)
    rw [h.result]
  · intro id hk
    by_cases hid : id = freshId
    · subst hid
      refine ⟨[], verifiedRevisionHistory_eq_ok.mpr ⟨(1, none), ?_⟩⟩
      rw [h.lifecycleRows_new hj]
      rfl
    · rw [verifiedRevisionHistory_congr (j := j) (by rw [h.result]; rfl)]
      exact hj.lifecycle (hsame hk hid)
  · intro row hrow
    have hrow' : row ∈ j.revisionLifecycle.rows := by
      rw [h.result] at hrow
      exact hrow
    obtain ⟨x, history, hx, hhistory, hbinds⟩ := hj.bound row hrow'
    refine ⟨x, history, hext.loadExecutionInputTx hx, ?_, hbinds⟩
    rw [verifiedRevisionHistory_congr (j := j) (by rw [h.result]; rfl)]
    exact hhistory
  · rw [h.result]
    exact hj.daemon

end Accepts

end Journal

end Ophelia
