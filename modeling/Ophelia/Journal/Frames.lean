import Ophelia.Journal.Calls

/-!
# Ophelia.Journal.Frames

What calls leave alone. Acceptance is extended by every call. A terminal operation is
settled: its row, its events, its receipt and its lifecycle never change again. Only lease
calls touch leases, and only swaps touch the active revisions.
-/

namespace Ophelia

variable [Platform]

namespace Journal

variable {j j' j'' : Journal} {id : EntityId .operation}

/-! ### Settled operations -/

/-- A terminal operation keeps its row, its events, its receipt and its lifecycle. -/
structure Settled (j j' : Journal) : Prop where
  operation : ∀ {id o}, j.operations.get? id = some o → o.state.terminal = true →
    j'.operations.get? id = some o
  events : ∀ {id o}, j.operations.get? id = some o → o.state.terminal = true →
    j'.eventRows id = j.eventRows id
  receipt : ∀ {id o}, j.operations.get? id = some o → o.state.terminal = true →
    j'.receipt? id = j.receipt? id
  lifecycle : ∀ {id o}, j.operations.get? id = some o → o.state.terminal = true →
    j'.lifecycleRows id = j.lifecycleRows id

theorem Settled.refl (j : Journal) : Settled j j :=
  ⟨fun h _ => h, fun _ _ => rfl, fun _ _ => rfl, fun _ _ => rfl⟩

theorem Settled.trans (h : Settled j j') (h' : Settled j' j'') : Settled j j'' := by
  refine ⟨?_, ?_, ?_, ?_⟩
  · intro id o ho ht
    exact h'.operation (h.operation ho ht) ht
  · intro id o ho ht
    rw [h'.events (h.operation ho ht) ht, h.events ho ht]
  · intro id o ho ht
    rw [h'.receipt (h.operation ho ht) ht, h.receipt ho ht]
  · intro id o ho ht
    rw [h'.lifecycle (h.operation ho ht) ht, h.lifecycle ho ht]

/-- Acceptance grows and terminal operations are settled. -/
structure Grows (j j' : Journal) : Prop where
  extends_ : Extends j j'
  settled : Settled j j'

theorem Grows.refl (j : Journal) : Grows j j :=
  ⟨Extends.refl j, Settled.refl j⟩

theorem Grows.trans (h : Grows j j') (h' : Grows j' j'') : Grows j j'' :=
  ⟨h.extends_.trans h'.extends_, h.settled.trans h'.settled⟩

/-- Acceptance, events, receipts and lifecycles are the same tables. -/
theorem Grows.of_eq (hp : j'.plans = j.plans) (ha : j'.approvals = j.approvals)
    (ho : j'.operations = j.operations) (hi : j'.operationInputs = j.operationInputs)
    (he : j'.operationEvents = j.operationEvents)
    (hr : j'.terminalReceipts = j.terminalReceipts)
    (hl : j'.revisionLifecycle = j.revisionLifecycle) : Grows j j' := by
  refine ⟨⟨?_, ?_, ?_, ?_⟩, ⟨?_, ?_, ?_, ?_⟩⟩
  · rw [hp]; exact fun h => h
  · rw [ha]; exact fun h => h
  · rw [ho]; exact fun {_ o} h => ⟨o.state, h⟩
  · rw [hi]; exact fun _ => rfl
  · rw [ho]; exact fun h _ => h
  · intro id o _ _
    unfold eventRows
    rw [he]
  · intro id o _ _
    unfold receipt?
    rw [hr]
  · intro id o _ _
    unfold lifecycleRows
    rw [hl]

theorem ne_of_nonterminal {o o' : OperationRow} {id' : EntityId .operation}
    (ho : j.operations.get? id = some o) (ht : o.state.terminal = true)
    (ho' : j.operations.get? id' = some o') (ht' : o'.state.terminal = false) : id ≠ id' := by
  rintro rfl
  rw [ho] at ho'
  obtain rfl := Option.some.inj ho'
  rw [ht] at ht'
  exact absurd ht' (by simp)

theorem grows_withEvent {o : OperationRow} {event : OperationEvent} {b : Bool} {t : String}
    (happ : Appends j o event b) : Grows j (j.withEvent o event t) := by
  refine ⟨extends_withEvent happ, ⟨?_, ?_, fun _ _ => rfl, fun _ _ => rfl⟩⟩
  · intro id o' ho' ht
    rw [operations_withEvent_ne happ (ne_of_nonterminal ho' ht happ.found happ.nonterminal)]
    exact ho'
  · intro id o' ho' ht
    exact eventRows_withEvent_ne happ
      (ne_of_nonterminal ho' ht happ.found happ.nonterminal).symm

theorem grows_withCommit {r : AcceptedRow} {receipt : TerminalReceipt} {event : OperationEvent}
    (hc : Commits j r receipt event) (hid : event.operationId = receipt.operationId) :
    Grows j (j.withCommit r receipt event) := by
  have hev := grows_withEvent (t := OperationEvent.schema.canonicalJson event) hc.appends
  refine ⟨extends_withCommit hc, ⟨hev.settled.operation, hev.settled.events, ?_, fun _ _ => rfl⟩⟩
  intro id o ho ht
  refine receipt?_withReceipt_ne (j := j.withEvent r.operation event _) hc.free ?_
  rw [← hid]
  exact ne_of_nonterminal ho ht hc.appends.found hc.appends.nonterminal

theorem grows_withLifecycle {o : OperationRow} {input : ExecutionInput}
    {entry : RevisionLifecycleEntry} (ht : Transitions j o input entry) (f : ExecutionFence) :
    Grows j (j.withLifecycle entry f) := by
  refine ⟨extends_withLifecycle j entry f, ⟨fun h _ => h, fun _ _ => rfl, fun _ _ => rfl, ?_⟩⟩
  intro id o' ho' hterm
  exact lifecycleRows_withLifecycle_ne ht
    (ne_of_nonterminal ho' hterm ht.found ht.nonterminal).symm

theorem Accepts.grows {actor : Actor} {request : OperationRequest} {approved : ApprovedPlanRef}
    {input : Option ExecutionInput} {freshId : EntityId .operation} {acceptedAt : Utc}
    (h : Accepts j j' actor request approved input freshId acceptedAt) : Grows j j' := by
  refine ⟨h.extends_, ⟨?_, ?_, ?_, ?_⟩⟩
  · intro id o ho _
    rw [h.operations_old (h.ne_of_known (known_of_get? ho))]
    exact ho
  · intro id o _ _
    rw [h.result]
    rfl
  · intro id o _ _
    rw [h.result]
    rfl
  · intro id o _ _
    rw [h.result]
    rfl

/-! ### Tables a call does not touch -/

/-- The lease tables are the same. -/
def SameLeases (j j' : Journal) : Prop :=
  j'.operationLeases = j.operationLeases ∧ j'.executionScopeLeases = j.executionScopeLeases

/-- The active revisions and the success markers are the same. -/
def SameActives (j j' : Journal) : Prop :=
  j'.activeRevisions = j.activeRevisions ∧ j'.atomicSuccessCommits = j.atomicSuccessCommits

/-- What appending phase events does to everything but the events. -/
structure EventsOnly (j j' : Journal) : Prop where
  grows : Grows j j'
  leases : SameLeases j j'
  actives : SameActives j j'
  receipts : j'.terminalReceipts = j.terminalReceipts
  lifecycle : j'.revisionLifecycle = j.revisionLifecycle
  inputs : j'.operationInputs = j.operationInputs

theorem EventsOnly.refl (j : Journal) : EventsOnly j j :=
  ⟨Grows.refl j, ⟨rfl, rfl⟩, ⟨rfl, rfl⟩, rfl, rfl, rfl⟩

theorem EventsOnly.trans (h : EventsOnly j j') (h' : EventsOnly j' j'') : EventsOnly j j'' :=
  ⟨h.grows.trans h'.grows, ⟨h'.leases.1.trans h.leases.1, h'.leases.2.trans h.leases.2⟩,
    ⟨h'.actives.1.trans h.actives.1, h'.actives.2.trans h.actives.2⟩,
    h'.receipts.trans h.receipts, h'.lifecycle.trans h.lifecycle, h'.inputs.trans h.inputs⟩

theorem eventsOnly_withEvent {o : OperationRow} {event : OperationEvent} {b : Bool} {t : String}
    (happ : Appends j o event b) : EventsOnly j (j.withEvent o event t) :=
  ⟨grows_withEvent happ, ⟨rfl, rfl⟩, ⟨rfl, rfl⟩, rfl, rfl, rfl⟩

theorem eventsOnly_appendPhaseEvents {receipt : TerminalReceipt}
    {freshId : Nat → EntityId .event} {phases : List (Text 128 × Digests)}
    (h : appendPhaseEvents receipt freshId j phases = .ok j') : EventsOnly j j' :=
  appendPhaseEvents_induction (P := EventsOnly j)
    (fun hk happ _ => hk.trans (eventsOnly_withEvent happ)) (EventsOnly.refl j) h

/-- What a commit of a receipt does, replayed or new. -/
theorem grows_commitReceiptTx {receipt : TerminalReceipt} {freshId : Nat → EntityId .event}
    {b : Bool} (h : j.commitReceiptTx receipt receipt.canonicalJson freshId = .ok (j', b)) :
    Grows j j' ∧ SameLeases j j' ∧ SameActives j j' := by
  rcases commitReceiptTx_eq_ok h with ⟨rfl, -⟩ | ⟨r, hc, rfl⟩
  · exact ⟨Grows.refl j', ⟨rfl, rfl⟩, ⟨rfl, rfl⟩⟩
  · exact ⟨grows_withCommit hc rfl, ⟨rfl, rfl⟩, ⟨rfl, rfl⟩⟩

/-- What the steps of a success do. -/
theorem Succeeds.frames {j₁ j₂ j₃ : Journal} {receipt : TerminalReceipt}
    {expected : Option String} {fence : ExecutionFence} {clock : Nat → Option Int}
    {freshId : Nat → EntityId .event} {active : ActiveRevision}
    (hs : Succeeds j j₁ j₂ j₃ receipt expected fence clock freshId active) :
    Grows j j₁ ∧ SameLeases j j₁ ∧ EventsOnly j₁ j₂ ∧
      Grows j₂ j₃ ∧ SameLeases j₂ j₃ ∧ SameActives j₂ j₃ := by
  obtain ⟨o, input, entry, -, hswap, -, rfl⟩ := casActiveRevisionTx_eq_ok hs.swapped
  obtain ⟨events, -, -, hphases⟩ := appendSuccessPhaseEventsTx_eq_ok hs.phases
  obtain ⟨b, hcommit⟩ := hs.committed
  have hlife := grows_withLifecycle hswap.transitions fence
  refine ⟨hlife.trans (Grows.of_eq rfl rfl rfl rfl rfl rfl rfl), ⟨rfl, rfl⟩,
    eventsOnly_appendPhaseEvents hphases, grows_commitReceiptTx hcommit⟩

theorem Write.grows (h : Write j j') : Grows j j' := by
  cases h with
  | accept ha => exact ha.grows
  | event happ => exact grows_withEvent happ
  | commit hterse hc => exact grows_withCommit hc rfl
  | lifecycle ht fence => exact grows_withLifecycle ht fence
  | _ => exact Grows.of_eq rfl rfl rfl rfl rfl rfl rfl

/-- **Every successful call extends acceptance and leaves terminal operations alone.** -/
theorem grows_run {c : Call} (hrun : c.run j = .ok j') : Grows j j' := by
  cases hack : c.acknowledges with
  | false =>
      have hwrites := writesTo_run hack hrun
      clear hrun
      induction hwrites with
      | refl => exact Grows.refl j
      | tail _ hstep ih => exact ih.trans hstep.grows
  | true =>
      obtain ⟨row, rfl, -⟩ := delivery_run hack hrun
      exact Grows.of_eq rfl rfl rfl rfl rfl rfl rfl

/-- The tables that a call leaves alone, by its kind. -/
structure Frame (c : Call) (j j' : Journal) : Prop where
  leases : c.leases = false → SameLeases j j'
  actives : c.swaps = false → SameActives j j'
  lifecycle : c.transitions = false → j'.revisionLifecycle = j.revisionLifecycle

theorem Frame.lease {c : Call} (hc : c.leases = true) (leases : Table LeaseRow.operationId)
    (scopeLeases : Table ScopeLeaseRow.scope) :
    Frame c j { j with operationLeases := leases, executionScopeLeases := scopeLeases } :=
  ⟨fun h => absurd (hc.symm.trans h) (by simp), fun _ => ⟨rfl, rfl⟩, fun _ => rfl⟩

/-- **Only lease calls touch leases, only swaps and successes the active revisions, and only
three calls append to lifecycles.** -/
theorem frame_run {c : Call} (hrun : c.run j = .ok j') : Frame c j j' := by
  cases c with
  | accept actor request approved input clock freshId =>
      rw [Call.run] at hrun
      obtain ⟨ref, hrun⟩ := map_fst_eq_ok hrun
      rcases accept_eq_ok hrun with rfl | ⟨acceptedAt, ha⟩
      · exact ⟨fun _ => ⟨rfl, rfl⟩, fun _ => ⟨rfl, rfl⟩, fun _ => rfl⟩
      · rw [ha.result]
        exact ⟨fun _ => ⟨rfl, rfl⟩, fun _ => ⟨rfl, rfl⟩, fun _ => rfl⟩
  | requestCancellation id actor clock =>
      rw [Call.run] at hrun
      obtain ⟨control, hrun⟩ := map_fst_eq_ok hrun
      obtain ⟨o, -, -, hcase, -⟩ := requestCancellation_eq_ok hrun
      rcases hcase with ⟨rfl, -⟩ | ⟨-, requestedAt, rfl⟩ <;>
        exact ⟨fun _ => ⟨rfl, rfl⟩, fun _ => ⟨rfl, rfl⟩, fun _ => rfl⟩
  | acquireFence id owner ttl clock =>
      rw [Call.run] at hrun
      obtain ⟨f, hrun⟩ := map_fst_eq_ok hrun
      obtain ⟨o, now, -, -, -, -, rfl⟩ := acquireFence_eq_ok hrun
      exact Frame.lease rfl _ _
  | heartbeatFence fence ttl clock =>
      rw [Call.run] at hrun
      obtain ⟨f, hrun⟩ := map_fst_eq_ok hrun
      obtain ⟨l, o, s, now, -, -, -, -, -, rfl⟩ := heartbeatFence_eq_ok hrun
      exact Frame.lease rfl _ _
  | releaseFence fence clock =>
      rw [Call.run] at hrun
      obtain ⟨u, hrun⟩ := map_fst_eq_ok hrun
      obtain ⟨l, o, s, now, -, -, -, rfl⟩ := releaseFence_eq_ok hrun
      exact Frame.lease rfl _ _
  | acquireLease id owner ttl clock =>
      rw [Call.run] at hrun
      obtain ⟨f, hrun⟩ := map_fst_eq_ok hrun
      obtain ⟨o, now, -, -, -, -, -, -, -, rfl⟩ := acquireLease_eq_ok hrun
      exact Frame.lease rfl _ _
  | heartbeatLease id owner token ttl clock =>
      rw [Call.run] at hrun
      obtain ⟨f, hrun⟩ := map_fst_eq_ok hrun
      obtain ⟨l, now, -, -, -, rfl⟩ := heartbeatLease_eq_ok hrun
      exact Frame.lease rfl _ _
  | releaseLease id owner token clock =>
      rw [Call.run] at hrun
      obtain ⟨u, hrun⟩ := map_fst_eq_ok hrun
      obtain ⟨l, now, -, -, rfl⟩ := releaseLease_eq_ok hrun
      exact Frame.lease rfl _ _
  | append event owner token clock =>
      rw [Call.run] at hrun
      obtain ⟨u, hrun⟩ := map_fst_eq_ok hrun
      obtain ⟨-, o, happ, rfl⟩ := append_eq_ok hrun
      exact ⟨fun _ => ⟨rfl, rfl⟩, fun _ => ⟨rfl, rfl⟩, fun _ => rfl⟩
  | appendRevisionState id state fence clock =>
      rw [Call.run] at hrun
      obtain ⟨entry, hrun⟩ := map_fst_eq_ok hrun
      obtain ⟨-, -, -, -, rfl⟩ := appendRevisionState_eq_ok hrun
      exact ⟨fun _ => ⟨rfl, rfl⟩, fun _ => ⟨rfl, rfl⟩, fun h => (by cases h)⟩
  | compareAndSwapActiveRevision id expected fence clock =>
      rw [Call.run] at hrun
      obtain ⟨active, hrun⟩ := map_fst_eq_ok hrun
      obtain ⟨o, input, entry, -, -, rfl⟩ := compareAndSwapActiveRevision_eq_ok hrun
      exact ⟨fun _ => ⟨rfl, rfl⟩, fun h => (by cases h), fun h => (by cases h)⟩
  | commitReceipt receipt owner token clock freshId =>
      rw [Call.run] at hrun
      obtain ⟨u, hrun⟩ := map_fst_eq_ok hrun
      obtain ⟨-, -, b, hrun⟩ := commitReceipt_eq_ok hrun
      rcases commitReceiptTx_eq_ok hrun with ⟨rfl, -⟩ | ⟨r, -, rfl⟩ <;>
        exact ⟨fun _ => ⟨rfl, rfl⟩, fun _ => ⟨rfl, rfl⟩, fun _ => rfl⟩
  | commitSuccess receipt expected fence clock freshId =>
      rw [Call.run] at hrun
      obtain ⟨active, hrun⟩ := map_fst_eq_ok hrun
      refine ⟨fun _ => ?_, fun h => (by cases h), fun h => (by cases h)⟩
      obtain ⟨-, -, -, ⟨rfl, -⟩ | ⟨j₁, j₂, j₃, hs, rfl⟩⟩ := commitSuccess_eq_ok hrun
      · exact ⟨rfl, rfl⟩
      · obtain ⟨-, l₁, h₂, -, l₃, -⟩ := hs.frames
        exact ⟨l₃.1.trans (h₂.leases.1.trans l₁.1), l₃.2.trans (h₂.leases.2.trans l₁.2)⟩
  | acknowledgeHostEvents =>
      obtain ⟨row, rfl, -⟩ := delivery_run rfl hrun
      exact ⟨fun _ => ⟨rfl, rfl⟩, fun _ => ⟨rfl, rfl⟩, fun _ => rfl⟩

end Journal

end Ophelia
