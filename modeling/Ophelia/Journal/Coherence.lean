import Ophelia.Journal.History
import Ophelia.Journal.Integrity

/-!
# Ophelia.Journal.Coherence

The journal invariant that every write keeps, whatever happens to leases and to the active
revision: accepted claims verify, every operation has a verified event history, host events
mirror operation events, inputs, controls and lifecycles verify. A write is proved to keep
it once; the calls are sequences of writes.

Accepted material never changes. `Extends` says what a later journal still knows of an
earlier one, and carries everything that only reads acceptance over a write.
-/

namespace Ophelia

variable [Platform]

namespace Journal

variable {j j' j'' : Journal} {id : EntityId .operation}

/-- The operation exists. -/
def Known (j : Journal) (id : EntityId .operation) : Prop :=
  (j.operations.get? id).isSome = true

/-! ### Growth -/

/-- Accepted operations, plans, approvals and inputs are still there; only the state of an
operation may have moved. -/
structure Extends (j j' : Journal) : Prop where
  plans : ∀ {k p}, j.plans.get? k = some p → j'.plans.get? k = some p
  approvals : ∀ {k a}, j.approvals.get? k = some a → j'.approvals.get? k = some a
  operations : ∀ {id o}, j.operations.get? id = some o →
    ∃ s, j'.operations.get? id = some { o with state := s }
  inputs : ∀ {id}, j.Known id → j'.operationInputs.get? id = j.operationInputs.get? id

theorem Extends.refl (j : Journal) : Extends j j :=
  ⟨fun h => h, fun h => h, fun {_ o} h => ⟨o.state, h⟩, fun _ => rfl⟩

theorem Extends.known (h : Extends j j') (hk : j.Known id) : j'.Known id := by
  obtain ⟨o, ho⟩ := Option.isSome_iff_exists.mp hk
  obtain ⟨s, hs⟩ := h.operations ho
  simp [Known, hs]

theorem Extends.trans (h : Extends j j') (h' : Extends j' j'') : Extends j j'' := by
  refine ⟨fun hp => h'.plans (h.plans hp), fun ha => h'.approvals (h.approvals ha), ?_, ?_⟩
  · intro id o ho
    obtain ⟨s, hs⟩ := h.operations ho
    obtain ⟨s', hs'⟩ := h'.operations hs
    exact ⟨s', hs'⟩
  · intro id hk
    rw [h'.inputs (h.known hk), h.inputs hk]

/-- An accepted operation stays accepted with the same claims. -/
theorem Extends.acceptedRow? (h : Extends j j') {r : AcceptedRow}
    (hr : j.acceptedRow? id = some r) : ∃ s, j'.acceptedRow? id = some (r.inState s) := by
  obtain ⟨ho, ha, hp⟩ := acceptedRow?_eq_some.mp hr
  obtain ⟨s, hs⟩ := h.operations ho
  exact ⟨s, acceptedRow?_eq_some.mpr ⟨hs, h.approvals ha, h.plans hp⟩⟩

omit [Platform] in
theorem wrapIntegrity_eq_ok {α : Type} {message : String} {x : Result α} {a : α} :
    wrapIntegrity message x = .ok a ↔ x = .ok a := by
  cases x with
  | ok b => rfl
  | error e => cases e <;> simp [wrapIntegrity]

theorem loadExecutionInputTx_eq_ok {input : ExecutionInput} :
    j.loadExecutionInputTx id = .ok input ↔ ∃ r row, j.acceptedRow? id = some r ∧
      j.operationInputs.get? id = some row ∧ reconcileExecutionInput r row = .ok input := by
  unfold loadExecutionInputTx
  constructor
  · intro h
    split at h
    · rename_i r row hr hrow
      exact ⟨r, row, hr, hrow, wrapIntegrity_eq_ok.mp h⟩
    · exact absurd h (by simp)
  · rintro ⟨r, row, hr, hrow, h⟩
    rw [hr, hrow]
    exact wrapIntegrity_eq_ok.mpr h

theorem known_of_acceptedRow? {r : AcceptedRow} (h : j.acceptedRow? id = some r) :
    j.Known id := by
  simp [Known, (acceptedRow?_eq_some.mp h).1]

theorem known_of_loadExecutionInputTx {input : ExecutionInput}
    (h : j.loadExecutionInputTx id = .ok input) : j.Known id := by
  obtain ⟨r, -, hr, -⟩ := loadExecutionInputTx_eq_ok.mp h
  exact known_of_acceptedRow? hr

/-- The execution input of an operation never changes. -/
theorem Extends.loadExecutionInputTx (h : Extends j j') {input : ExecutionInput}
    (hi : j.loadExecutionInputTx id = .ok input) : j'.loadExecutionInputTx id = .ok input := by
  obtain ⟨r, row, hr, hrow, hrec⟩ := loadExecutionInputTx_eq_ok.mp hi
  obtain ⟨s, hs⟩ := h.acceptedRow? hr
  refine loadExecutionInputTx_eq_ok.mpr ⟨r.inState s, row, hs, ?_, ?_⟩
  · rw [h.inputs (known_of_acceptedRow? hr), hrow]
  · rw [reconcileExecutionInput_inState]
    exact hrec

/-- The control record of a known operation depends on its control row and its input. -/
theorem controlTx_congr (hk : j.Known id) (hk' : j'.Known id)
    (hc : j'.operationControls.get? id = j.operationControls.get? id)
    (hi : j'.operationInputs.get? id = j.operationInputs.get? id) :
    j'.controlTx id = j.controlTx id := by
  obtain ⟨o, ho⟩ := Option.isSome_iff_exists.mp hk
  obtain ⟨o', ho'⟩ := Option.isSome_iff_exists.mp hk'
  unfold controlTx
  rw [ho, ho', hc, hi]

/-! ### The invariant -/

/-- The host stream consists of the operation events, one to one. -/
structure Mirror (j : Journal) : Prop where
  eventIds : ∀ e ∈ j.operationEvents.rows, ∀ e' ∈ j.operationEvents.rows,
    e.eventId = e'.eventId → e = e'
  shape : ∀ h ∈ j.hostEvents.rows, h.eventType = .operation ∧ h.workloadRunId = none ∧
    ∃ id, h.operationId = some id ∧ j.Known id
  mirrored : ∀ h ∈ j.hostEvents.rows, ∃ e ∈ j.operationEvents.rows, e.eventId = h.eventId ∧
    e.eventDigest = h.eventDigest ∧ e.payloadJson = h.payloadJson
  count : j.hostEvents.rows.length = j.operationEvents.rows.length

theorem Mirror.mono (h : Mirror j) (he : j'.operationEvents = j.operationEvents)
    (hh : j'.hostEvents = j.hostEvents) (hk : ∀ {id}, j.Known id → j'.Known id) : Mirror j' := by
  refine ⟨?_, ?_, ?_, ?_⟩
  · rw [he]
    exact h.eventIds
  · rw [hh]
    intro x hx
    obtain ⟨ht, hw, id, hid, hknown⟩ := h.shape x hx
    exact ⟨ht, hw, id, hid, hk hknown⟩
  · rw [he, hh]
    exact h.mirrored
  · rw [he, hh]
    exact h.count

/-- The tables of the daemon are empty. -/
def DaemonIdle (j : Journal) : Prop :=
  j.daemonPlanRequests = [] ∧ j.hostState = [] ∧ j.hostObservations = [] ∧ j.agentState = [] ∧
    j.agentCommands = [] ∧ j.workloadRuns = [] ∧ j.workloadRunEvents = []

/-- What every write of the store keeps. -/
structure Coherent (j : Journal) : Prop where
  plans : ∀ a ∈ j.approvals.rows, (j.plans.get? a.planId).isSome = true
  idempotency : ∀ i ∈ j.idempotencyKeys.rows, j.Known i.operationId
  events : ∀ e ∈ j.operationEvents.rows, j.Known e.operationId
  leases : ∀ l ∈ j.operationLeases.rows, j.Known l.operationId
  scopeLeases : ∀ l ∈ j.executionScopeLeases.rows, j.Known l.operationId
  receipts : ∀ r ∈ j.terminalReceipts.rows, j.Known r.operationId
  history : ∀ {id}, j.Known id → ∃ events, j.verifiedEvents id = .ok events
  mirror : Mirror j
  delivery : ∀ d ∈ j.eventDelivery.rows, d.acknowledgedCursor ≤ j.latestCursor
  inputs : ∀ i ∈ j.operationInputs.rows, ∃ input, j.loadExecutionInputTx i.operationId = .ok input
  controls : ∀ c ∈ j.operationControls.rows, j.Known c.operationId ∧
    ∃ control, j.controlTx c.operationId = .ok control
  lifecycle : ∀ {id}, j.Known id → ∃ history, j.verifiedRevisionHistory id = .ok history
  bound : ∀ row ∈ j.revisionLifecycle.rows, ∃ input history,
    j.loadExecutionInputTx row.operationId = .ok input ∧
    j.verifiedRevisionHistory row.operationId = .ok history ∧ historyBinds input history = true
  daemon : DaemonIdle j

theorem Coherent.fresh : Coherent fresh := by
  refine ⟨?_, ?_, ?_, ?_, ?_, ?_, ?_, ⟨?_, ?_, ?_, rfl⟩, ?_, ?_, ?_, ?_, ?_,
    ⟨rfl, rfl, rfl, rfl, rfl, rfl, rfl⟩⟩ <;>
  simp [Journal.fresh, Known]

/-- The verified history of a known operation. -/
theorem Coherent.exists_history (h : Coherent j) (hk : j.Known id) :
    ∃ r claims events p, History j id r claims events p := by
  obtain ⟨events, hevents⟩ := h.history hk
  obtain ⟨r, claims, p, hh⟩ := verifiedEvents_eq_ok.mp hevents
  exact ⟨r, claims, events, p, hh⟩

theorem known_of_get? {o : OperationRow} (h : j.operations.get? id = some o) : j.Known id := by
  simp [Known, h]

/-- Histories only read acceptance, events and receipts. -/
theorem verifiedEvents_congr (ha : j'.acceptedRow? id = j.acceptedRow? id)
    (he : j'.eventRows id = j.eventRows id) (hr : j'.receipt? id = j.receipt? id) :
    j'.verifiedEvents id = j.verifiedEvents id := by
  unfold verifiedEvents
  rw [ha, he, hr]

theorem verifiedRevisionHistory_congr (h : j'.lifecycleRows id = j.lifecycleRows id) :
    j'.verifiedRevisionHistory id = j.verifiedRevisionHistory id := by
  unfold verifiedRevisionHistory
  rw [h]

/-! ### Writes that only touch one table -/

/-- Changing leases keeps the journal coherent as long as they belong to operations. -/
theorem Coherent.withLeases (h : Coherent j) {leases : Table LeaseRow.operationId}
    {scopeLeases : Table ScopeLeaseRow.scope}
    (hl : ∀ l ∈ leases.rows, j.Known l.operationId)
    (hs : ∀ l ∈ scopeLeases.rows, j.Known l.operationId) :
    Coherent { j with operationLeases := leases, executionScopeLeases := scopeLeases } :=
  ⟨h.plans, h.idempotency, h.events, hl, hs, h.receipts, h.history,
    h.mirror.mono rfl rfl fun hk => hk, h.delivery, h.inputs,
    h.controls, h.lifecycle, h.bound, h.daemon⟩

/-- The active revisions and the success markers are none of its business. -/
theorem Coherent.withActives (h : Coherent j) (actives : Table ActiveRow.scope)
    (atomics : Table AtomicSuccessRow.operationId) :
    Coherent { j with activeRevisions := actives, atomicSuccessCommits := atomics } :=
  ⟨h.plans, h.idempotency, h.events, h.leases, h.scopeLeases, h.receipts, h.history,
    h.mirror.mono rfl rfl fun hk => hk, h.delivery, h.inputs,
    h.controls, h.lifecycle, h.bound, h.daemon⟩

theorem Coherent.withDelivery (h : Coherent j) {row : DeliveryRow}
    (hrow : row.acknowledgedCursor ≤ j.latestCursor) :
    Coherent { j with eventDelivery := j.eventDelivery.put row } :=
  ⟨h.plans, h.idempotency, h.events, h.leases, h.scopeLeases, h.receipts, h.history,
    h.mirror.mono rfl rfl fun hk => hk,
    by
      intro d hd
      rcases Table.mem_put.mp hd with rfl | ⟨hd, -⟩
      · exact hrow
      · exact h.delivery d hd,
    h.inputs, h.controls, h.lifecycle, h.bound, h.daemon⟩

/-- The control record after a first cancellation request. -/
theorem controlTx_withCancellation (hk : j.Known id) (actor : Actor) (requestedAt : Utc) :
    (j.withCancellation id actor requestedAt).controlTx id =
      .ok ⟨id, (j.operationInputs.get? id).map (·.deadline), some (actor.masked, requestedAt)⟩ := by
  obtain ⟨o, ho⟩ := Option.isSome_iff_exists.mp hk
  unfold controlTx
  rw [show (j.withCancellation id actor requestedAt).operations = j.operations from rfl, ho]
  have hrow : (j.withCancellation id actor requestedAt).operationControls.get? id =
      some ⟨id, some (Actor.schema.canonicalJson actor), some requestedAt⟩ :=
    Table.get?_put_self _ _
  have hread : readCancellation
      ⟨id, some (Actor.schema.canonicalJson actor), some requestedAt⟩ =
        .ok (some (actor.masked, requestedAt)) := by
    simp only [readCancellation, Option.mapM, loadsObject_canonicalJson, Result.ok_bind,
      Actor.fromPayload_toDict]
    rfl
  simp only [hrow, hread, Result.ok_bind]
  refine wrapIntegrity_eq_ok.mpr (Results.bind_ok (ensure_of ?_) rfl)
  simp [Actor.canonicalJson_masked]

theorem Coherent.withCancellation (h : Coherent j) (hk : j.Known id) (actor : Actor)
    (requestedAt : Utc) : Coherent (j.withCancellation id actor requestedAt) :=
  ⟨h.plans, h.idempotency, h.events, h.leases, h.scopeLeases, h.receipts, h.history,
    h.mirror.mono rfl rfl fun hk => hk, h.delivery, h.inputs,
    by
      intro c hc
      rcases Table.mem_put.mp hc with rfl | ⟨hc, hne⟩
      · exact ⟨hk, _, controlTx_withCancellation hk actor requestedAt⟩
      · obtain ⟨hknown, control, hcontrol⟩ := h.controls c hc
        refine ⟨hknown, control, ?_⟩
        rw [← hcontrol]
        exact controlTx_congr hknown hknown (Table.get?_put_ne _ hne) rfl,
    h.lifecycle, h.bound, h.daemon⟩

end Journal

end Ophelia
