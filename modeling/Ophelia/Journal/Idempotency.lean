import Ophelia.Journal.Frames
import Ophelia.Domain.Sizes
import Ophelia.Domain.Reference

/-!
# Ophelia.Journal.Idempotency

What an idempotency key stands for. Once `accept` has recorded an operation under a key,
the key names that operation for good: no later call changes the row of the key, whatever
becomes of the operation. A retry is checked for its form first, which needs neither the
journal nor the clock, and is then answered from the row of the key.

An approval is another matter. `accept` records a decision the first time it sees it and
compares it afterwards, so a decision backs a second operation as soon as the same intent
arrives under another key.
-/

namespace Ophelia

variable [Platform]

/-- The last step of `ApprovedPlanRef.bind`: the approval digest over everything else. -/
def ApprovedPlanRef.bound (a : ApprovedPlanRef) : ApprovedPlanRef :=
  { a with approvalDigest := a.bindingDigest }

theorem ApprovedPlanRef.bindingDigest_bound (a : ApprovedPlanRef) :
    a.bound.bindingDigest = a.bindingDigest := by
  have hpop : (schema.toDict a.bound).pop "approval_digest" =
      (schema.toDict a).pop "approval_digest" := by
    simp only [Schema.toDict_eq, Schema.raw, schema, mask, maskMembers, Json.pop, bound]
    rfl
  rw [bindingDigest, bindingDigest, hpop]

/-- The idempotency key of a request by an actor. -/
def idempotencyKey (actor : Actor) (request : OperationRequest) : IdempotencyKey :=
  ⟨actor.actorId, request.operation, digestText request.idempotencyKey.val⟩

/-- What `accept` checks of its arguments before it opens a transaction. -/
def acceptArguments (actor : Actor) (request : OperationRequest) (approved : ApprovedPlanRef)
    (input : Option ExecutionInput) : Result AcceptanceTexts := do
  validateAcceptanceBinding actor request approved request.intentDigest
  input.forM fun i => validateExecutionInput request approved i request.intentDigest
  acceptanceTexts actor request approved input

theorem Call.apply_accept {j j' : Journal} {actor : Actor} {request : OperationRequest}
    {approved : ApprovedPlanRef} {input : Option ExecutionInput} {clock : Option Int}
    {freshId : EntityId .operation} {ref : OperationRef}
    (h : j.accept actor request approved input clock freshId = .ok (j', ref)) :
    Call.apply j (.accept actor request approved input clock freshId) = j' := by
  rw [Call.apply, Call.run, h]
  rfl

namespace Journal

variable {j j' : Journal} {actor : Actor} {request : OperationRequest}
  {approved : ApprovedPlanRef} {input : Option ExecutionInput} {clock : Option Int}
  {freshId : EntityId .operation} {ref : OperationRef} {key : IdempotencyKey}

/-! ### Calls and keys -/

theorem UpdatesTo.idempotencyKeys (h : UpdatesTo j j') :
    j'.idempotencyKeys = j.idempotencyKeys := by
  induction h with
  | refl => rfl
  | tail _ hstep ih => cases hstep <;> exact ih

/-- Only `accept` writes idempotency keys. -/
theorem idempotencyKeys_run {c : Call} (hc : c.accepts = false) (hrun : c.run j = .ok j') :
    j'.idempotencyKeys = j.idempotencyKeys := by
  cases hack : c.acknowledges with
  | false => exact (updatesTo_run hc hack hrun).idempotencyKeys
  | true =>
      obtain ⟨row, rfl, -⟩ := delivery_run hack hrun
      rfl

/-! ### Accepting -/

/-- A retry: the operation the key names, unless the request or its input is another one. -/
def acceptRetry (j : Journal) (request : OperationRequest) (input : Option ExecutionInput)
    (i : IdempotencyRow) (o : OperationRow) : Result (Journal × OperationRef) := do
  ensure (i.requestDigest = request.intentDigest)
    (.idempotencyConflict "Idempotency key already identifies different normalized intent.")
  ensure ((j.operationInputs.get? o.operationId).map (·.inputDigest) =
      input.map (·.inputDigest))
    (.idempotencyConflict "Idempotent retry must supply the identical execution input digest.")
  return (j, ⟨o.operationId, o.requestId, o.state⟩)

/-- New intent: the checks on time, then the rows. -/
def acceptNew (j : Journal) (actor : Actor) (request : OperationRequest)
    (approved : ApprovedPlanRef) (input : Option ExecutionInput) (clock : Option Int)
    (freshId : EntityId .operation) (texts : AcceptanceTexts) :
    Result (Journal × OperationRef) := do
  let now ← clockSample clock
  let datetime ← toDatetime now
  ensure (input.all fun i => datetime < i.deadline.instant)
    (.operationConflict "Execution deadline has expired.")
  ensure (approved.expired datetime = false) (.operationConflict "Approval has expired.")
  let acceptedAt ← timestamp now
  let j ← j.recordPlan approved texts.planJson
  let j ← j.recordApproval approved texts.approvalJson
  let j ← j.recordOperation actor request approved input texts freshId acceptedAt
  return (j, ⟨freshId, request.requestId, .accepted⟩)

/-- `accept` in three parts. -/
theorem accept_eq : j.accept actor request approved input clock freshId = (do
    let texts ← acceptArguments actor request approved input
    match j.idempotent? (idempotencyKey actor request) with
    | some (i, o) => j.acceptRetry request input i o
    | none => j.acceptNew actor request approved input clock freshId texts) := by
  unfold accept acceptArguments
  simp only [bind_assoc]
  rfl

/-- The rows of a new operation went under free keys. -/
theorem recordOperation_eq_ok {texts : AcceptanceTexts} {acceptedAt : Utc}
    (h : j.recordOperation actor request approved input texts freshId acceptedAt = .ok j') :
    j.operations.get? freshId = none ∧
      j.idempotencyKeys.get? (idempotencyKey actor request) = none ∧
      j'.Known freshId := by
  unfold recordOperation at h
  obtain ⟨ops, hops, h⟩ := Results.bind_eq_ok.mp h
  obtain ⟨ins, -, h⟩ := Results.bind_eq_ok.mp h
  obtain ⟨_, -, h⟩ := Results.bind_eq_ok.mp h
  obtain ⟨keys, hkeys, h⟩ := Results.bind_eq_ok.mp h
  obtain ⟨hfresh, rfl⟩ := insertRow_eq_ok hops
  obtain ⟨hkey, -⟩ := insertRow_eq_ok hkeys
  refine ⟨hfresh, hkey, ?_⟩
  rw [← Except.ok.inj h, Known]
  simp

/-- **A successful `accept`**, by its key: a retry of the operation the key names, or a new
operation under a free key. -/
theorem accept_cases
    (h : j.accept actor request approved input clock freshId = .ok (j', ref)) :
    (∃ i o, j.idempotent? (idempotencyKey actor request) = some (i, o) ∧ j' = j ∧
        ref = ⟨o.operationId, o.requestId, o.state⟩) ∨
      (j.idempotencyKeys.get? (idempotencyKey actor request) = none ∧
        ref = ⟨freshId, request.requestId, .accepted⟩ ∧
        ∃ acceptedAt, Accepts j j' actor request approved input freshId acceptedAt) := by
  have hrun := h
  rw [accept_eq] at h
  obtain ⟨texts, -, h⟩ := Results.bind_eq_ok.mp h
  cases hkey : j.idempotent? (idempotencyKey actor request) with
  | some p =>
      left
      rw [hkey] at h
      obtain ⟨_, -, h⟩ := Results.bind_eq_ok.mp h
      obtain ⟨_, -, h⟩ := Results.bind_eq_ok.mp h
      obtain ⟨hj, href⟩ := Prod.mk.inj (Except.ok.inj h)
      exact ⟨p.1, p.2, rfl, hj.symm, href.symm⟩
  | none =>
      right
      rw [hkey] at h
      obtain ⟨now, -, h⟩ := Results.bind_eq_ok.mp h
      obtain ⟨d, -, h⟩ := Results.bind_eq_ok.mp h
      obtain ⟨_, -, h⟩ := Results.bind_eq_ok.mp h
      obtain ⟨_, -, h⟩ := Results.bind_eq_ok.mp h
      obtain ⟨acceptedAt, -, h⟩ := Results.bind_eq_ok.mp h
      obtain ⟨j₁, h₁, h⟩ := Results.bind_eq_ok.mp h
      obtain ⟨j₂, h₂, h⟩ := Results.bind_eq_ok.mp h
      obtain ⟨j₃, h₃, h⟩ := Results.bind_eq_ok.mp h
      obtain ⟨rfl, rfl⟩ := Prod.mk.inj (Except.ok.inj h)
      obtain ⟨hfresh, hfree, hknown⟩ := recordOperation_eq_ok h₃
      -- plans and approvals are recorded first, the other tables are still those of `j`
      have hsame : j₂.operations = j.operations ∧ j₂.idempotencyKeys = j.idempotencyKeys := by
        unfold recordPlan at h₁
        unfold recordApproval at h₂
        obtain ⟨_, -, h₁⟩ := Results.bind_eq_ok.mp h₁
        obtain ⟨_, -, h₂⟩ := Results.bind_eq_ok.mp h₂
        obtain ⟨_, -, h₂⟩ := Results.bind_eq_ok.mp h₂
        rw [← Except.ok.inj h₂, ← Except.ok.inj h₁]
        exact ⟨rfl, rfl⟩
      rw [hsame.1] at hfresh
      rw [hsame.2] at hfree
      refine ⟨hfree, rfl, ?_⟩
      rcases accept_eq_ok hrun with rfl | hnew
      · rw [Known, hfresh] at hknown
        exact absurd hknown (by simp)
      · exact hnew

/-- The texts of an acceptance fit when the approval and the input are short. -/
theorem acceptanceTexts_ok (hartifacts : approved.artifactDigests.1.length ≤ 8)
    (happroved : Json.textWeight approved.approvedAt.val ≤ 2000)
    (hexpires : Json.textWeight approved.expiresAt.val ≤ 2000)
    (hinput : ∀ i, input = some i → i.canonicalJson.toList.length ≤ 65536) :
    ∃ texts, acceptanceTexts actor request approved input = .ok texts := by
  have hactor := boundedJson_of_le (Actor.length_canonicalJson_le actor)
  have hrequest := boundedJson_of_le
    (request.length_canonicalJson_le (digestText request.idempotencyKey.val))
  rw [← requestJson_eq] at hrequest
  have happroval := boundedJson_of_le
    (approved.length_canonicalJson_le hartifacts happroved hexpires)
  have hplan := boundedJson_of_le (approved.length_planClaims_le hartifacts)
  rw [← approved.canonicalJson_planClaims] at hplan
  obtain ⟨inputJson, hinputJson⟩ :
      ∃ t, (input.mapM fun i => boundedJson i.canonicalJson) = .ok t := by
    cases input with
    | none => exact ⟨none, rfl⟩
    | some i =>
        refine ⟨some i.canonicalJson, ?_⟩
        rw [Option.mapM_some, boundedJson_of_le (hinput i rfl)]
        rfl
  exact ⟨_, Results.bind_ok hactor <| Results.bind_ok hrequest <| Results.bind_ok happroval <|
    Results.bind_ok hinputJson <| Results.bind_ok hplan rfl⟩

/-- An approval whose digest is bound to its claims, for the request and the actor of the call. -/
theorem validateAcceptanceBinding_bound {claims : ApprovedPlanRef}
    (hactor : claims.actorId = actor.actorId)
    (hrequest : claims.requestDigest = request.intentDigest ∧ claims.hostId = request.hostId ∧
      claims.app = request.app ∧ claims.environment = request.environment ∧
      claims.revisionId = request.revisionId ∧ claims.revisionDigest = request.revisionDigest) :
    validateAcceptanceBinding actor request (.bound claims) request.intentDigest = .ok () :=
  Results.bind_ok (ensure_of hactor) <|
  Results.bind_ok (ensure_of (ApprovedPlanRef.bindingDigest_bound _).symm) <| ensure_of hrequest

/-- The arguments of an acceptance without an input. -/
theorem acceptArguments_none
    (hbinding : validateAcceptanceBinding actor request approved request.intentDigest = .ok ())
    (hartifacts : approved.artifactDigests.1.length ≤ 8)
    (happroved : Json.textWeight approved.approvedAt.val ≤ 2000)
    (hexpires : Json.textWeight approved.expiresAt.val ≤ 2000) :
    ∃ texts, acceptArguments actor request approved none = .ok texts ∧
      acceptanceTexts actor request approved none = .ok texts := by
  obtain ⟨texts, htexts⟩ : ∃ texts, acceptanceTexts actor request approved none = .ok texts :=
    acceptanceTexts_ok hartifacts happroved hexpires (by simp)
  exact ⟨texts, Results.bind_ok hbinding <| Results.bind_ok (a := ()) rfl htexts, htexts⟩

theorem recordInput_ok (k : Journal) (input : Option ExecutionInput) {t : Option String}
    (hfree : k.operationInputs.get? freshId = none) :
    ∃ rows, k.recordInput freshId input t = .ok rows := by
  unfold recordInput
  split
  · exact ⟨_, insertRow_of_free hfree⟩
  · exact ⟨_, rfl⟩

theorem recordOperation_ok (k : Journal) (approved : ApprovedPlanRef)
    (input : Option ExecutionInput) (texts : AcceptanceTexts) (acceptedAt : Utc)
    (hkey : k.idempotencyKeys.get? (idempotencyKey actor request) = none)
    (hfresh : k.operations.get? freshId = none)
    (hfree : k.operationInputs.get? freshId = none)
    (hids : ∀ i ∈ k.idempotencyKeys.rows, i.operationId ≠ freshId) :
    ∃ k', k.recordOperation actor request approved input texts freshId acceptedAt = .ok k' := by
  obtain ⟨rows, hrows⟩ := recordInput_ok k input (t := texts.inputJson) hfree
  exact ⟨_, Results.bind_ok (insertRow_of_free hfresh) <| Results.bind_ok hrows <|
    Results.bind_ok (ensure_of hids) <| Results.bind_ok (insertRow_of_free hkey) rfl⟩

/-- **New intent is accepted** when its approval binds it and has not expired, and nothing
recorded stands in its way. -/
theorem acceptNew_ok {now d : Int} {texts : AcceptanceTexts}
    (htexts : acceptanceTexts actor request approved input = .ok texts)
    (hkey : j.idempotencyKeys.get? (idempotencyKey actor request) = none)
    (hnow : Platform.fromTimestamp now = some d)
    (hdeadline : (input.all fun i => d < i.deadline.instant) = true)
    (hexpired : approved.expired d = false)
    (hplan : (Table.putNew j.plans (acceptedPlan approved)).get? approved.planId =
      some (acceptedPlan approved))
    (hunique : (j.approvals.get? approved.decisionId).isSome = true ∨
      ∀ a ∈ j.approvals.rows, a.approvalDigest ≠ approved.approvalDigest)
    (happroval : (Table.putNew j.approvals (acceptedApproval approved)).get?
      approved.decisionId = some (acceptedApproval approved))
    (hfresh : j.operations.get? freshId = none) (hfree : j.operationInputs.get? freshId = none)
    (hids : ∀ i ∈ j.idempotencyKeys.rows, i.operationId ≠ freshId) :
    ∃ j', j.acceptNew actor request approved input (some now) freshId texts =
      .ok (j', ⟨freshId, request.requestId, .accepted⟩) := by
  obtain rfl := acceptanceTexts_eq_ok htexts
  obtain ⟨acceptedAt, hat⟩ := timestamp_ok hnow
  have hdatetime : toDatetime now = .ok d := by
    unfold toDatetime
    rw [hnow]
  -- each record leaves the tables of the ones after it as they were
  have hrecordPlan : j.recordPlan approved (canonicalJson approved.planClaims) = .ok _ :=
    Results.bind_ok (ensure_of hplan) rfl
  have hrecordApproval :
      { j with plans := Table.putNew j.plans (acceptedPlan approved) }.recordApproval approved
        (ApprovedPlanRef.schema.canonicalJson approved) = .ok _ :=
    Results.bind_ok (ensure_of hunique) <| Results.bind_ok (ensure_of happroval) rfl
  obtain ⟨j₃, hrecordOperation⟩ := recordOperation_ok
    { j with
      plans := Table.putNew j.plans (acceptedPlan approved)
      approvals := Table.putNew j.approvals (acceptedApproval approved) }
    approved input ⟨Actor.schema.canonicalJson actor,
      canonicalJson (request.claims (digestText request.idempotencyKey.val)),
      ApprovedPlanRef.schema.canonicalJson approved, input.map (·.canonicalJson),
      canonicalJson approved.planClaims⟩
    acceptedAt hkey hfresh hfree hids
  exact ⟨j₃, Results.bind_ok (a := now) rfl <| Results.bind_ok hdatetime <|
    Results.bind_ok (ensure_of hdeadline) <| Results.bind_ok (ensure_of hexpired) <|
    Results.bind_ok hat.1 <| Results.bind_ok hrecordPlan <| Results.bind_ok hrecordApproval <|
    Results.bind_ok hrecordOperation rfl⟩

/-- In a journal of one operation its decision is accepted again, under another key. -/
theorem Accepts.accept_again {request' : OperationRequest} {input' : Option ExecutionInput}
    {acceptedAt : Utc} {now d : Int}
    {id : EntityId .operation} {texts : AcceptanceTexts}
    (ha : Accepts Journal.fresh j actor request approved input freshId acceptedAt)
    (hargs : acceptArguments actor request' approved input' = .ok texts)
    (htexts : acceptanceTexts actor request' approved input' = .ok texts)
    (hkey : idempotencyKey actor request' ≠ idempotencyKey actor request) (hid : id ≠ freshId)
    (hnow : Platform.fromTimestamp now = some d)
    (hdeadline : (input'.all fun i => d < i.deadline.instant) = true)
    (hexpired : approved.expired d = false) :
    ∃ j' acceptedAt, j.accept actor request' approved input' (some now) id =
        .ok (j', ⟨id, request'.requestId, .accepted⟩) ∧
      Accepts j j' actor request' approved input' id acceptedAt := by
  have hfree : j.idempotencyKeys.get? (idempotencyKey actor request') = none := by
    rw [ha.result]
    exact Table.get?_put_ne _ hkey
  have happroval : j.approvals.get? approved.decisionId = some (acceptedApproval approved) := by
    rw [ha.result]
    exact ha.approval
  have hplan : j.plans.get? approved.planId = some (acceptedPlan approved) := by
    rw [ha.result]
    exact ha.plan
  have hfresh : j.operations.get? id = none := by
    rw [ha.result]
    exact Table.get?_put_ne _ hid
  have hinputs : j.operationInputs.get? id = none := by
    rw [ha.result]
    cases input with
    | none => rfl
    | some i => exact Table.get?_put_ne _ hid
  have hids : ∀ i ∈ j.idempotencyKeys.rows, i.operationId ≠ id := by
    intro i hi
    rw [ha.result] at hi
    rcases Table.mem_put.mp hi with rfl | ⟨hi, -⟩
    · exact hid.symm
    · exact absurd hi (by simp [Journal.fresh])
  obtain ⟨j', hj'⟩ := acceptNew_ok htexts hfree hnow hdeadline hexpired (putNew_eq_ok hplan)
    (Or.inl (Option.isSome_of_mem happroval)) (putNew_eq_ok happroval) hfresh hinputs hids
  have hnone : j.idempotent? (idempotencyKey actor request') = none := by
    simp [idempotent?, hfree]
  have hrun : j.accept actor request' approved input' (some now) id =
      .ok (j', ⟨id, request'.requestId, .accepted⟩) := by
    rw [accept_eq, hargs, Result.ok_bind, hnone]
    exact hj'
  rcases accept_cases hrun with ⟨i, o, hsome, -, -⟩ | ⟨-, -, acceptedAt, ha⟩
  · rw [hnone] at hsome
    exact absurd hsome (by simp)
  · exact ⟨j', acceptedAt, hrun, ha⟩

/-- The operation a key names: the row of the key, and the columns of the operation that no
call changes. -/
structure Names (j : Journal) (key : IdempotencyKey) (requestDigest : Digest)
    (operationId : EntityId .operation) (requestId : EntityId .request)
    (inputDigest : Option Digest) : Prop where
  row : j.idempotencyKeys.get? key = some ⟨key, requestDigest, operationId⟩
  operation : ∃ o, j.operations.get? operationId = some o ∧ o.requestId = requestId
  input : (j.operationInputs.get? operationId).map (·.inputDigest) = inputDigest

section Names

variable {requestDigest : Digest} {operationId : EntityId .operation}
  {requestId : EntityId .request} {inputDigest : Option Digest}

theorem Names.idempotent? (h : Names j key requestDigest operationId requestId inputDigest) :
    ∃ o, j.idempotent? key = some (⟨key, requestDigest, operationId⟩, o) ∧
      o.operationId = operationId ∧ o.requestId = requestId := by
  obtain ⟨o, ho, hrequest⟩ := h.operation
  refine ⟨o, ?_, Table.key_of_get? ho, hrequest⟩
  simp [Journal.idempotent?, h.row, ho]

/-- **A retry is answered from the row of its key.** -/
theorem Names.accept (h : Names j (idempotencyKey actor request) requestDigest operationId
      requestId inputDigest) {texts : AcceptanceTexts}
    (hargs : acceptArguments actor request approved input = .ok texts) :
    (∃ state, j.accept actor request approved input clock freshId =
        .ok (j, ⟨operationId, requestId, state⟩)) ∨
      ∃ message, j.accept actor request approved input clock freshId =
        .error (.idempotencyConflict message) := by
  obtain ⟨o, hkey, rfl, rfl⟩ := h.idempotent?
  rw [accept_eq, hargs, Result.ok_bind, hkey]
  simp only [acceptRetry]
  by_cases hdigest : requestDigest = request.intentDigest
  · by_cases hin : (j.operationInputs.get? o.operationId).map (·.inputDigest) =
        input.map (·.inputDigest)
    · left
      refine ⟨o.state, ?_⟩
      rw [ensure_of hdigest, Result.ok_bind, ensure_of hin, Result.ok_bind]
      rfl
    · right
      rw [ensure_of hdigest, Result.ok_bind, ensure_of_not hin]
      exact ⟨_, rfl⟩
  · right
    rw [ensure_of_not hdigest]
    exact ⟨_, rfl⟩

/-- A successful call keeps what a key names. -/
theorem Names.run (h : Names j key requestDigest operationId requestId inputDigest) {c : Call}
    (hrun : c.run j = .ok j') : Names j' key requestDigest operationId requestId inputDigest := by
  have hext := (grows_run hrun).extends_
  obtain ⟨o, ho, hrequest⟩ := h.operation
  obtain ⟨s, hs⟩ := hext.operations ho
  refine ⟨?_, ⟨_, hs, hrequest⟩, ?_⟩
  · by_cases hc : c.accepts = true
    · cases c with
      | accept actor request approved input clock freshId =>
          rw [Call.run] at hrun
          obtain ⟨ref, hrun⟩ := map_fst_eq_ok hrun
          rcases accept_cases hrun with ⟨i, o, -, rfl, -⟩ | ⟨hfree, -, acceptedAt, ha⟩
          · exact h.row
          · -- a new operation goes under a free key, and this key is taken
            have hne : key ≠ idempotencyKey actor request := by
              intro he
              rw [← he, h.row] at hfree
              exact absurd hfree (by simp)
            rw [ha.result]
            exact (Table.get?_put_ne j.idempotencyKeys hne).trans h.row
      | _ => exact absurd hc (by simp [Call.accepts])
    · rw [idempotencyKeys_run (by simpa using hc) hrun]
      exact h.row
  · rw [hext.inputs (known_of_get? ho)]
    exact h.input

/-- Any calls keep what a key names. -/
theorem Names.runCalls (h : Names j key requestDigest operationId requestId inputDigest)
    (calls : List Call) :
    Names (j.runCalls calls) key requestDigest operationId requestId inputDigest :=
  runCalls_induction
    (P := fun k => Names k key requestDigest operationId requestId inputDigest)
    (fun _ hj hrun => Names.run hj hrun) (fun _ _ => trivial) h

end Names

/-- After a successful `accept` the key names the operation it returned. -/
theorem names_of_accept
    (h : j.accept actor request approved input clock freshId = .ok (j', ref)) :
    ∃ requestDigest inputDigest, Names j' (idempotencyKey actor request) requestDigest
      ref.operationId ref.requestId inputDigest := by
  rcases accept_cases h with ⟨i, o, hkey, rfl, rfl⟩ | ⟨-, rfl, acceptedAt, ha⟩
  · simp only [Journal.idempotent?, Option.bind_eq_bind, Option.bind_eq_some_iff] at hkey
    obtain ⟨i, hi, o, ho, hpair⟩ := hkey
    obtain ⟨rfl, rfl⟩ := Prod.mk.inj (Option.some.inj hpair)
    have hrow : i = ⟨idempotencyKey actor request, i.requestDigest, o.operationId⟩ := by
      rw [← Table.key_of_get? hi, Table.key_of_get? ho]
    refine ⟨i.requestDigest, _, ⟨?_, ⟨o, ?_, rfl⟩, rfl⟩⟩
    · rw [← hrow]
      exact hi
    · rw [Table.key_of_get? ho]
      exact ho
  · refine ⟨request.intentDigest, _, ⟨?_, ⟨_, ha.operations_new, rfl⟩, rfl⟩⟩
    rw [ha.result]
    exact Table.get?_put_self j.idempotencyKeys
      ⟨idempotencyKey actor request, request.intentDigest, freshId⟩

/-- **A key names one operation.** After an `accept` that returned an operation, any calls
later, an `accept` under the same key whose arguments are of the right form returns that
operation or reports an idempotency conflict. One whose arguments are not is refused for
them. None of them changes the journal, whatever the clock says. -/
theorem accept_same_key (before between : List Call) (actor' : Actor)
    (request' : OperationRequest) (approved' : ApprovedPlanRef) (input' : Option ExecutionInput)
    (clock' : Option Int) (freshId' : EntityId .operation)
    (hfirst : (Journal.fresh.runCalls before).accept actor request approved input clock freshId =
      .ok (j', ref))
    (hactor : actor'.actorId = actor.actorId) (hclass : request'.operation = request.operation)
    (hkey : request'.idempotencyKey = request.idempotencyKey) :
    let j := j'.runCalls between
    let retry := j.accept actor' request' approved' input' clock' freshId'
    (∃ o, j'.operations.get? ref.operationId = some o ∧ o.requestId = ref.requestId) ∧
    (∀ texts, acceptArguments actor' request' approved' input' = .ok texts →
      (∃ state, retry = .ok (j, ⟨ref.operationId, ref.requestId, state⟩)) ∨
        ∃ message, retry = .error (.idempotencyConflict message)) ∧
    (∀ e, acceptArguments actor' request' approved' input' = .error e → retry = .error e) ∧
    Call.apply j (.accept actor' request' approved' input' clock' freshId') = j := by
  intro j retry
  obtain ⟨requestDigest, inputDigest, hnames⟩ := names_of_accept hfirst
  have hsame : idempotencyKey actor' request' = idempotencyKey actor request := by
    simp only [idempotencyKey, hactor, hclass, hkey]
  have hlater : Names j (idempotencyKey actor' request') requestDigest ref.operationId
      ref.requestId inputDigest := by
    rw [hsame]
    exact hnames.runCalls between
  have hok : ∀ texts, acceptArguments actor' request' approved' input' = .ok texts →
      (∃ state, retry = .ok (j, ⟨ref.operationId, ref.requestId, state⟩)) ∨
        ∃ message, retry = .error (.idempotencyConflict message) :=
    fun texts hargs => hlater.accept hargs
  have herror : ∀ e, acceptArguments actor' request' approved' input' = .error e →
      retry = .error e := by
    intro e hargs
    show j.accept actor' request' approved' input' clock' freshId' = .error e
    rw [accept_eq, hargs]
    rfl
  refine ⟨hnames.operation, hok, herror, ?_⟩
  -- a refused call is rolled back, and a retry that succeeds returns the journal it was given
  have hmap : Call.run j (.accept actor' request' approved' input' clock' freshId') =
      retry.map Prod.fst := rfl
  unfold Call.apply
  rw [hmap]
  cases hargs : acceptArguments actor' request' approved' input' with
  | error e =>
      rw [herror e hargs]
      rfl
  | ok texts =>
      rcases hok texts hargs with ⟨state, h⟩ | ⟨message, h⟩ <;> rw [h] <;> rfl

/-! ### Decisions -/

/-- No decision backs two operations. -/
def SingleUse (j : Journal) : Prop :=
  ∀ o ∈ j.operations.rows, ∀ o' ∈ j.operations.rows, o.decisionId = o'.decisionId → o = o'

/-- The call presents a recorded decision under a key that is not recorded. -/
def reuses (j : Journal) : Call → Prop
  | .accept actor request approved _ _ _ =>
      j.idempotencyKeys.get? (idempotencyKey actor request) = none ∧
        (j.approvals.get? approved.decisionId).isSome = true
  | _ => False

/-- No call of the sequence reuses a decision. -/
def freshDecisions (j : Journal) : List Call → Prop
  | [] => True
  | c :: calls => ¬ j.reuses c ∧ freshDecisions (c.apply j) calls

/-- No decision backs two operations, and those that back one are recorded. -/
structure Spends (j : Journal) : Prop where
  single : SingleUse j
  recorded : ∀ o ∈ j.operations.rows, (j.approvals.get? o.decisionId).isSome = true

theorem Accepts.spends {acceptedAt : Utc}
    (ha : Accepts j j' actor request approved input freshId acceptedAt) (h : Spends j)
    (hnew : (j.approvals.get? approved.decisionId).isSome = false) : Spends j' := by
  have hrows : ∀ o, o ∈ j'.operations.rows ↔
      o = acceptedOperation actor request approved freshId acceptedAt ∨
        (o ∈ j.operations.rows ∧ o.operationId ≠ freshId) := by
    intro o
    rw [ha.result]
    exact Table.mem_put
  have hother : ∀ o ∈ j.operations.rows, o.decisionId ≠ approved.decisionId := by
    intro o ho he
    have hrec := h.recorded o ho
    rw [he, hnew] at hrec
    exact absurd hrec (by simp)
  refine ⟨?_, ?_⟩
  · intro o ho o' ho' hd
    rcases (hrows o).mp ho with rfl | ⟨ho, -⟩
    · rcases (hrows o').mp ho' with rfl | ⟨ho', -⟩
      · rfl
      · exact absurd hd.symm (hother o' ho')
    · rcases (hrows o').mp ho' with rfl | ⟨ho', -⟩
      · exact absurd hd (hother o ho)
      · exact h.single o ho o' ho' hd
  · intro o ho
    rcases (hrows o).mp ho with rfl | ⟨ho, -⟩
    · have hrec : j'.approvals.get? approved.decisionId = some (acceptedApproval approved) := by
        rw [ha.result]
        exact ha.approval
      exact Option.isSome_of_mem hrec
    · obtain ⟨a, happroval⟩ := Option.isSome_iff_exists.mp (h.recorded o ho)
      exact Option.isSome_of_mem (ha.extends_.approvals happroval)

/-- A decision that is accepted once more backs two operations. -/
theorem Accepts.not_singleUse {j'' : Journal} {actor' : Actor} {request' : OperationRequest}
    {approved' : ApprovedPlanRef} {input' : Option ExecutionInput}
    {freshId' : EntityId .operation} {at₁ at₂ : Utc}
    (h₁ : Accepts j j' actor request approved input freshId at₁)
    (h₂ : Accepts j' j'' actor' request' approved' input' freshId' at₂)
    (hdecision : approved.decisionId = approved'.decisionId) (hne : freshId ≠ freshId') :
    ¬ SingleUse j'' := by
  intro hsingle
  have hold := (h₂.operations_old hne).trans h₁.operations_new
  have he := hsingle _ (Table.mem_of_get? hold) _ (Table.mem_of_get? h₂.operations_new) hdecision
  exact hne (congrArg OperationRow.operationId he)

/-- An `accept` that does not reuse a decision spends a new one, or none. -/
theorem Spends.apply (h : Spends j) {c : Call} (hc : c.accepts = true)
    (hreuse : ¬ j.reuses c) : Spends (c.apply j) := by
  unfold Call.apply
  split
  · rename_i j' hrun
    cases c with
    | accept actor request approved input clock freshId =>
        rw [Call.run] at hrun
        obtain ⟨ref, hrun⟩ := map_fst_eq_ok hrun
        rcases accept_cases hrun with ⟨i, o, -, rfl, -⟩ | ⟨hfree, -, acceptedAt, ha⟩
        · exact h
        · refine ha.spends h ?_
          by_contra hrec
          exact hreuse ⟨hfree, by rwa [Bool.not_eq_false] at hrec⟩
    | _ => exact absurd hc (by simp [Call.accepts])
  · exact h

theorem Spends.runCalls (h : Spends j) {calls : List Call}
    (hcalls : ∀ c ∈ calls, c.accepts = true) (hfresh : j.freshDecisions calls) :
    Spends (j.runCalls calls) := by
  induction calls generalizing j with
  | nil => exact h
  | cons c calls ih =>
      exact ih (h.apply (hcalls c (by simp)) hfresh.1) (fun d hd => hcalls d (by simp [hd]))
        hfresh.2

theorem freshDecisions_append {calls later : List Call}
    (h : j.freshDecisions (calls ++ later)) : j.freshDecisions calls := by
  induction calls generalizing j with
  | nil => trivial
  | cons c calls ih => exact ⟨h.1, ih h.2⟩

/-- **One decision, one operation**, along every sequence of `accept` calls that presents no
recorded decision under a new key. -/
theorem singleUse_runCalls (calls : List Call) (hcalls : ∀ c ∈ calls, c.accepts = true)
    (hfresh : Journal.fresh.freshDecisions calls) :
    ∀ reached, reached <+: calls → SingleUse (Journal.fresh.runCalls reached) := by
  intro reached hreached
  obtain ⟨later, rfl⟩ := hreached
  have hspends : Spends (Journal.fresh : Journal) := by
    refine ⟨?_, ?_⟩ <;> intro o ho <;> exact absurd ho (by simp [Journal.fresh])
  exact (hspends.runCalls (fun c hc => hcalls c (List.mem_append_left later hc))
    (freshDecisions_append hfresh)).single

end Journal

end Ophelia

/-! ### Two keys, one decision -/

namespace Ophelia.Reference

attribute [local instance] platform

def actor : Actor :=
  ⟨⟨"actor_ada", by decide⟩, ⟨"cli", by decide⟩, ⟨"os-user", by decide⟩⟩

/-- The same intent under any idempotency key. -/
def request (key : Text 255) : OperationRequest where
  requestId := ⟨"request_a", by decide⟩
  operation := ⟨"deploy.apply", by decide⟩
  hostId := ⟨"host_a", by decide⟩
  app := ⟨"web", Eq.refl true⟩
  environment := ⟨"production", by decide⟩
  revisionId := ⟨"rev_a", by decide⟩
  revisionDigest := digestText "revision"
  idempotencyKey := key

theorem intentDigest_request (key key' : Text 255) :
    (request key).intentDigest = (request key').intentDigest := by
  rw [OperationRequest.intentDigest, OperationRequest.intentDigest, OperationRequest.intent_eq,
    OperationRequest.intent_eq]
  rfl

def firstKey : Text 255 := ⟨"first", by decide⟩

def secondKey : Text 255 := ⟨"second", by decide⟩

/-- An approval of that intent, good for the whole minute. -/
def approval : ApprovedPlanRef :=
  ApprovedPlanRef.bound
    { planId := ⟨"plan_a", by decide⟩
      planDigest := digestText "plan"
      requestDigest := (request firstKey).intentDigest
      manifestDigest := digestText "manifest"
      artifactDigests := ⟨[], Eq.refl true⟩
      observedStateDigest := digestText "observed"
      policyDigest := digestText "policy"
      hostId := ⟨"host_a", by decide⟩
      app := ⟨"web", Eq.refl true⟩
      environment := ⟨"production", by decide⟩
      revisionId := ⟨"rev_a", by decide⟩
      revisionDigest := digestText "revision"
      actorId := ⟨"actor_ada", by decide⟩
      decisionId := ⟨"decision_a", by decide⟩
      authorizationKind := .localOperator
      issuer := ⟨"ophelia", by decide⟩
      audience := ⟨"host_a", by decide⟩
      approvedAt := ⟨"2026-01-01T00:00:00Z", by decide +kernel⟩
      expiresAt := ⟨"2026-01-01T00:00:59Z", by decide +kernel⟩
      nonceDigest := digestText "nonce"
      approvalDigest := digestText ""
      audience_eq := rfl
      expires_after := by decide +kernel }

theorem acceptArguments_approval (key : Text 255) :
    ∃ texts, acceptArguments actor (request key) approval none = .ok texts ∧
      acceptanceTexts actor (request key) approval none = .ok texts :=
  Journal.acceptArguments_none (Journal.validateAcceptanceBinding_bound rfl
    ⟨intentDigest_request firstKey key, rfl, rfl, rfl, rfl, rfl⟩) (by decide) (by decide) (by decide)

theorem approval_expired : approval.expired (EPOCH * 1000000) = false := by
  decide +kernel

/-- The identifier of the operation the first key gets, and of the second. -/
def firstId : EntityId .operation := ⟨"operation_a", by decide⟩

def secondId : EntityId .operation := ⟨"operation_b", by decide⟩

theorem fromTimestamp_epoch : fromTimestamp EPOCH = some (EPOCH * 1000000) := by
  decide

theorem key_ne : idempotencyKey actor (request secondKey) ≠
    idempotencyKey actor (request firstKey) := by
  decide +kernel

/-- The intent is accepted under its first key. -/
theorem accept_first : ∃ j, Journal.fresh.accept actor (request firstKey) approval none
    (some EPOCH) firstId = .ok (j, ⟨firstId, (request firstKey).requestId, .accepted⟩) := by
  obtain ⟨texts, hargs, htexts⟩ := acceptArguments_approval firstKey
  have hunused : Journal.fresh.operations.get? firstId = none := rfl
  obtain ⟨j, hj⟩ := Journal.acceptNew_ok (j := Journal.fresh) htexts rfl
    fromTimestamp_epoch rfl approval_expired (Table.get?_put_self _ _)
    (Or.inr fun a ha => absurd ha (by simp [Journal.fresh])) (Table.get?_put_self _ _) hunused rfl
    (fun i hi => absurd hi (by simp [Journal.fresh]))
  refine ⟨j, ?_⟩
  rw [Journal.accept_eq, hargs, Result.ok_bind]
  exact hj

/-- The same decision is accepted again under the second key. -/
theorem accept_second {j : Journal} {ref : OperationRef}
    (h : Journal.fresh.accept actor (request firstKey) approval none (some EPOCH) firstId =
      .ok (j, ref)) :
    ∃ j' acceptedAt, j.accept actor (request secondKey) approval none (some EPOCH) secondId =
        .ok (j', ⟨secondId, (request secondKey).requestId, .accepted⟩) ∧
      Journal.Accepts j j' actor (request secondKey) approval none secondId acceptedAt := by
  obtain ⟨texts, hargs, htexts⟩ := acceptArguments_approval secondKey
  rcases Journal.accept_cases h with ⟨i, o, hkey, -, -⟩ | ⟨-, -, acceptedAt, ha⟩
  · exact absurd hkey (by simp [Journal.idempotent?, Journal.fresh])
  exact ha.accept_again hargs htexts key_ne (by decide) fromTimestamp_epoch rfl approval_expired

/-- A decision presented under two keys. -/
def twoKeys : List Call :=
  [.accept actor (request firstKey) approval none (some EPOCH) firstId,
    .accept actor (request secondKey) approval none (some EPOCH) secondId]

/-- **One decision, two operations.** -/
theorem not_singleUse_twoKeys : (∀ c ∈ twoKeys, c.accepts = true) ∧
    ¬ Journal.SingleUse (Journal.fresh.runCalls twoKeys) := by
  refine ⟨by simp [twoKeys, Call.accepts], ?_⟩
  obtain ⟨j, hfirst⟩ := accept_first
  obtain ⟨j', at₂, hsecond, ha₂⟩ := accept_second hfirst
  have h₁ := Call.apply_accept hfirst
  have h₂ := Call.apply_accept hsecond
  have hrun : Journal.fresh.runCalls twoKeys = j' := by
    unfold Journal.runCalls twoKeys
    rw [List.foldl_cons, List.foldl_cons, List.foldl_nil, h₁, h₂]
  rw [hrun]
  rcases Journal.accept_cases hfirst with ⟨i, o, hkey, -, -⟩ | ⟨-, -, at₁, ha₁⟩
  · exact absurd hkey (by simp [Journal.idempotent?, Journal.fresh])
  · exact ha₁.not_singleUse ha₂ rfl (by decide)

/-- Another decision on the same plan. -/
def secondApproval : ApprovedPlanRef :=
  ApprovedPlanRef.bound { approval with decisionId := ⟨"decision_b", by decide⟩ }

/-- Two decisions under two keys, then a retry under the first key. -/
def twoDecisions : List Call :=
  [.accept actor (request firstKey) approval none (some EPOCH) firstId,
    .accept actor (request secondKey) secondApproval none (some EPOCH) secondId,
    .accept actor (request firstKey) approval none (some EPOCH) secondId]

theorem freshDecisions_twoDecisions : Journal.fresh.freshDecisions twoDecisions := by
  obtain ⟨j, hfirst⟩ := accept_first
  rcases Journal.accept_cases hfirst with ⟨i, o, hkey, -, -⟩ | ⟨-, -, acceptedAt, ha⟩
  · exact absurd hkey (by simp [Journal.idempotent?, Journal.fresh])
  obtain ⟨digest, inputDigest, hnames⟩ := Journal.names_of_accept hfirst
  refine ⟨fun hreuses => absurd hreuses.2 (by simp [Journal.fresh]), ?_⟩
  rw [Call.apply_accept hfirst]
  refine ⟨?_, ?_, trivial⟩
  · -- the first decision alone is recorded
    rintro ⟨-, hrecorded⟩
    have hother : secondApproval.decisionId ≠ approval.decisionId := by decide
    have hnone : j.approvals.get? secondApproval.decisionId = none := by
      rw [ha.result]
      exact Table.get?_put_ne _ hother
    rw [hnone] at hrecorded
    exact absurd hrecorded (by simp)
  · -- the first key is recorded, whatever became of the second call
    rintro ⟨hfree, -⟩
    have hrow := (hnames.runCalls
      [.accept actor (request secondKey) secondApproval none (some EPOCH) secondId]).row
    rw [Journal.runCalls_cons, Journal.runCalls, List.foldl_nil, hfree] at hrow
    exact absurd hrow (by simp)

/-- Each of two decisions backs one operation, also after the retry. -/
theorem singleUse_twoDecisions : (∀ c ∈ twoDecisions, c.accepts = true) ∧
    Journal.fresh.freshDecisions twoDecisions ∧
    Journal.SingleUse (Journal.fresh.runCalls twoDecisions) := by
  have hcalls : ∀ c ∈ twoDecisions, c.accepts = true := by simp [twoDecisions, Call.accepts]
  exact ⟨hcalls, freshDecisions_twoDecisions,
    Journal.singleUse_runCalls twoDecisions hcalls freshDecisions_twoDecisions _ List.prefix_rfl⟩

/-- The same decision for another actor. -/
def approvalOfBob : ApprovedPlanRef :=
  ApprovedPlanRef.bound { approval with actorId := ⟨"actor_bob", by decide⟩ }

/-- A retry with the approval of another actor is refused, but not for its key. -/
theorem retry_with_approvalOfBob : ∃ j ref,
    Journal.fresh.accept actor (request firstKey) approval none (some EPOCH) firstId =
      .ok (j, ref) ∧
    ¬ ((∃ r, j.accept actor (request firstKey) approvalOfBob none (some EPOCH) secondId = .ok r) ∨
      ∃ message, j.accept actor (request firstKey) approvalOfBob none (some EPOCH) secondId =
        .error (.idempotencyConflict message)) := by
  obtain ⟨j, hfirst⟩ := accept_first
  refine ⟨j, _, hfirst, ?_⟩
  have hne : approvalOfBob.actorId ≠ actor.actorId := by decide
  have hargs : acceptArguments actor (request firstKey) approvalOfBob none =
      .error (.operationConflict "Approval actor does not match authenticated actor.") := by
    unfold acceptArguments validateAcceptanceBinding
    rw [ensure_of_not hne]
    rfl
  rw [Journal.accept_eq, hargs]
  rintro (⟨r, h⟩ | ⟨message, h⟩)
  · exact absurd h (by simp [bind, Except.bind])
  · exact absurd h (by simp [bind, Except.bind])

/-- A retry of the first call on a host without a clock. -/
theorem retry_firstKey : ∃ j ref,
    (Journal.fresh.runCalls []).accept actor (request firstKey) approval none (some EPOCH)
      firstId = .ok (j, ref) ∧
    Call.apply (j.runCalls []) (.accept actor (request firstKey) approval none none secondId) =
      j.runCalls [] := by
  obtain ⟨j, hfirst⟩ := accept_first
  exact ⟨j, _, hfirst, (Journal.accept_same_key [] [] actor (request firstKey) approval none none
    secondId hfirst rfl rfl rfl).2.2.2⟩

end Ophelia.Reference
