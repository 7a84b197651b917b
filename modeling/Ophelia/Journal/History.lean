import Ophelia.Journal.Writes

/-!
# Ophelia.Journal.History

Reading back what was stored. A stored contract parses to the contract it was printed from,
up to masking, and prints to the same text again; so the chain of an operation's events,
its lifecycle and its receipt verify after every write that was checked to continue them.
-/

namespace Ophelia

variable [Platform]

/-! ### Stored texts -/

section Texts

variable {α : Type} (s : Schema α) (a : α)

omit [Platform] in
theorem jsonLoads_canonicalJson :
    jsonLoads (s.canonicalJson a) = .ok (s.toDict a).sortKeys := by
  rw [jsonLoads, Schema.loads_canonicalJson]

omit [Platform] in
theorem loadsObject_canonicalJson :
    loadsObject (s.canonicalJson a) = .ok (s.toDict a).sortKeys := by
  rw [loadsObject, Schema.loads_canonicalJson, Schema.toDict_eq, Schema.raw, mask, Json.sortKeys]

end Texts

omit [Platform] in
theorem Actor.fromPayload_toDict (a : Actor) :
    Actor.fromPayload (Actor.schema.toDict a).sortKeys = .ok a.masked := by
  have h := Actor.codec.read_enc "actor" a
  rwa [show Actor.codec.enc a = Actor.schema.toDict a from rfl, Schema.mask_toDict] at h

omit [Platform] in
theorem Actor.canonicalJson_masked (a : Actor) :
    Actor.schema.canonicalJson a.masked = Actor.schema.canonicalJson a := by
  rw [Schema.canonicalJson, Schema.canonicalJson, Actor.schema.toDict_congr]
  simp only [Actor.schema, Actor.masked, maskMembers, Codec.mask_enc]

theorem ApprovedPlanRef.fromPayload_toDict (a : ApprovedPlanRef) :
    ApprovedPlanRef.fromPayload (ApprovedPlanRef.schema.toDict a).sortKeys = .ok a.masked := by
  have h := ApprovedPlanRef.codec.read_enc "approved_plan" a
  rwa [show ApprovedPlanRef.codec.enc a = ApprovedPlanRef.schema.toDict a from rfl,
    Schema.mask_toDict] at h

theorem ApprovedPlanRef.canonicalJson_masked (a : ApprovedPlanRef) :
    ApprovedPlanRef.schema.canonicalJson a.masked = ApprovedPlanRef.schema.canonicalJson a := by
  rw [Schema.canonicalJson, Schema.canonicalJson, ApprovedPlanRef.toDict_masked]

theorem OperationEvent.toDict_masked (e : OperationEvent) :
    OperationEvent.schema.toDict e.masked = OperationEvent.schema.toDict e :=
  OperationEvent.schema.toDict_congr
    (by simp only [OperationEvent.schema, OperationEvent.masked, maskMembers, Codec.mask_enc])

@[simp] theorem OperationEvent.canonicalJson_masked (e : OperationEvent) :
    OperationEvent.schema.canonicalJson e.masked = OperationEvent.schema.canonicalJson e := by
  rw [Schema.canonicalJson, Schema.canonicalJson, OperationEvent.toDict_masked]

@[simp] theorem OperationEvent.digest_masked (e : OperationEvent) :
    OperationEvent.schema.digest e.masked = OperationEvent.schema.digest e := by
  rw [Schema.digest, Schema.digest, OperationEvent.canonicalJson_masked]

@[simp] theorem TerminalReceipt.digest_masked (r : TerminalReceipt) :
    r.masked.digest = r.digest := by
  rw [TerminalReceipt.digest, TerminalReceipt.digest, TerminalReceipt.canonicalJson_masked]

/-- Redaction changes the type and the message of an event. -/
theorem OperationEvent.masked_place (e : OperationEvent) :
    e.masked.operationId = e.operationId ∧ e.masked.sequence = e.sequence ∧
      e.masked.eventId = e.eventId ∧ e.masked.hostId = e.hostId ∧ e.masked.app = e.app ∧
      e.masked.environment = e.environment ∧ e.masked.revisionId = e.revisionId ∧
      e.masked.previousEventDigest = e.previousEventDigest := by
  simp only [OperationEvent.masked, and_self]

namespace Journal

variable {j j' : Journal} {id : EntityId .operation}

theorem eventFromJson_canonicalJson (e : OperationEvent) :
    eventFromJson (OperationEvent.schema.canonicalJson e) = .ok e.masked := by
  rw [eventFromJson, jsonLoads_canonicalJson, Result.ok_bind]
  exact OperationEvent.fromPayload_of_holds (OperationEvent.schema.holds e)

theorem receiptFromJson_canonicalJson {r : TerminalReceipt}
    (h : r.verification.terse = true) : receiptFromJson r.canonicalJson = .ok r.masked := by
  rw [receiptFromJson, TerminalReceipt.canonicalJson, loadsObject_canonicalJson, Result.ok_bind]
  exact r.fromPayload_toDict h

/-! ### The event chain -/

/-- A step reads one event and reconciles it. -/
theorem eventStep_eq_ok {o : OperationRow} {p p' : Nat × Option Digest} {row : EventRow}
    {event : OperationEvent} :
    eventStep o p row = .ok (event, p') ↔
      eventFromJson row.payloadJson = .ok event ∧ eventReconciles o p.1 p.2 row event ∧
        p' = (p.1 + 1, some (OperationEvent.schema.digest event)) := by
  unfold eventStep
  rw [Results.bind_eq_ok]
  constructor
  · rintro ⟨e, he, h⟩
    obtain ⟨_, hrec, h⟩ := Results.bind_eq_ok.mp h
    obtain ⟨rfl, rfl⟩ := Prod.mk.inj (Except.ok.inj h)
    refine ⟨?_, ensure_eq_ok.mp hrec, rfl⟩
    cases hj : eventFromJson row.payloadJson with
    | error f => simp [hj, Except.mapError] at he
    | ok e' => simpa [hj, Except.mapError] using he
  · rintro ⟨he, hrec, rfl⟩
    refine ⟨event, by simp [he, Except.mapError], ?_⟩
    exact Results.bind_ok (ensure_of hrec) rfl

/-- What a verified chain says about its rows: they are numbered from one on, and the
position is the one after the last row. -/
structure ChainEnd (rows : List EventRow) (events : List OperationEvent)
    (p : Nat × Option Digest) : Prop where
  position : p.1 = rows.length + 1
  length : events.length = rows.length
  sequence : ∀ r ∈ rows, r.sequence.1 ≤ rows.length
  texts : events.map OperationEvent.schema.canonicalJson = rows.map (·.payloadJson)
  last : rows.getLast?.map (fun r => (r.sequence.1 + 1, some r.eventDigest)) =
    if rows = [] then none else some p
  start : rows = [] → p.2 = none
  lastEvent : ∀ e, events.getLast? = some e → p.2 = some (OperationEvent.schema.digest e)

theorem chainEnd_of_verifyChain {o : OperationRow} {rows : List EventRow}
    {events : List OperationEvent} {p : Nat × Option Digest}
    (h : verifyChain o rows = .ok (events, p)) : ChainEnd rows events p := by
  refine walk.invariant (P := ChainEnd) ?_ ?_ h
  · intro rows events p row event p' hend hstep
    obtain ⟨-, hrec, rfl⟩ := eventStep_eq_ok.mp hstep
    obtain ⟨hseq, -, -, -, -, -, -, -, hdig, -, htext⟩ := hrec
    have hpos := hend.position
    refine ⟨by simp [hpos], by simp [hend.length], ?_, ?_, ?_, by simp, by simp⟩
    · intro r hr
      rcases List.mem_append.mp hr with hr | hr
      · have := hend.sequence r hr
        simp only [List.length_append, List.length_cons, List.length_nil]
        omega
      · obtain rfl := List.mem_singleton.mp hr
        simp only [List.length_append, List.length_cons, List.length_nil]
        omega
    · simp [hend.texts, htext]
    · simp [hseq, hdig]
  · exact ⟨rfl, rfl, by simp, rfl, rfl, fun _ => rfl, by simp⟩

/-- The next event of an operation continues where the chain ends. -/
theorem nextEvent_of_verifyChain {o : OperationRow} {events : List OperationEvent}
    {p : Nat × Option Digest} (h : verifyChain o (j.eventRows id) = .ok (events, p)) :
    (j.nextEvent id).1.1 = p.1 ∧ (j.nextEvent id).2 = p.2 := by
  have hend := chainEnd_of_verifyChain h
  have hlast := hend.last
  unfold nextEvent
  cases hrows : (j.eventRows id).getLast? with
  | none =>
      have hnil : j.eventRows id = [] := List.getLast?_eq_none_iff.mp hrows
      have hpos := hend.position
      rw [hnil] at hpos
      exact ⟨hpos.symm, (hend.start hnil).symm⟩
  | some r =>
      have hne : j.eventRows id ≠ [] := by
        intro hnil
        simp [hnil] at hrows
      rw [hrows, if_neg hne] at hlast
      have := Option.some.inj hlast
      rw [← this]
      exact ⟨rfl, rfl⟩

/-- The stored row of an event. -/
def eventRow (event : OperationEvent) : EventRow :=
  ⟨event.operationId, event.sequence, event.eventId, OperationEvent.schema.digest event,
    OperationEvent.schema.canonicalJson event⟩

theorem eventRows_withEvent_ne {o : OperationRow} {event : OperationEvent} {b : Bool}
    (happ : Appends j o event b) {t : String} (hne : event.operationId ≠ id) :
    (j.withEvent o event t).eventRows id = j.eventRows id :=
  Table.log_put_ne happ.free hne

/-- **An appended event is the last row of its operation.** -/
theorem eventRows_withEvent {o : OperationRow} {event : OperationEvent} {b : Bool}
    (happ : Appends j o event b) {events : List OperationEvent} {p : Nat × Option Digest}
    (h : verifyChain o (j.eventRows event.operationId) = .ok (events, p)) :
    (j.withEvent o event (OperationEvent.schema.canonicalJson event)).eventRows
      event.operationId = j.eventRows event.operationId ++ [eventRow event] := by
  refine Table.log_put (r := eventRow event) happ.free fun r hr => ?_
  have hle := (chainEnd_of_verifyChain h).sequence r hr
  have hpos := (chainEnd_of_verifyChain h).position
  show r.sequence.1 ≤ event.sequence.1
  rw [happ.sequence, (nextEvent_of_verifyChain h).1, hpos]
  omega

/-- **Appending an event extends the chain** by the event that is read back. -/
theorem verifyChain_withEvent {o : OperationRow} {event : OperationEvent} {b : Bool}
    (happ : Appends j o event b) (hop : o.operationId = event.operationId)
    {events : List OperationEvent} {p : Nat × Option Digest}
    (h : verifyChain o (j.eventRows event.operationId) = .ok (events, p)) :
    verifyChain o ((j.withEvent o event (OperationEvent.schema.canonicalJson event)).eventRows
      event.operationId) =
        .ok (events ++ [event.masked], p.1 + 1, some (OperationEvent.schema.digest event)) := by
  rw [eventRows_withEvent happ h]
  refine walk.concat h (eventStep_eq_ok.mpr ⟨eventFromJson_canonicalJson event, ?_, by simp⟩)
  obtain ⟨hseq, hprev⟩ := nextEvent_of_verifyChain h
  have hs : event.sequence.1 = p.1 := by rw [happ.sequence, hseq]
  -- redaction leaves the place of the event alone
  obtain ⟨hop', hseq', hid', hhost', happ', henv', hrev', hprev'⟩ := event.masked_place
  refine ⟨hs, ?_, ?_, hid', ?_, ?_, ?_, ?_, by simp [eventRow], ?_, by simp [eventRow]⟩
  · rw [hseq', hs]
  · rw [hop', hop]
  · rw [hhost', happ.hostId]
  · rw [happ', happ.app]
  · rw [henv', happ.environment]
  · rw [hrev']
    exact happ.revisionId
  · rw [hprev', happ.previous, hprev]

/-! ### The lifecycle of a revision -/

/-- A step reads one entry and reconciles it. -/
theorem lifecycleStep_eq_ok {p p' : Nat × Option RevisionState} {row : LifecycleRow}
    {entry : RevisionLifecycleEntry} :
    lifecycleStep id p row = .ok (entry, p') ↔
      (jsonLoads row.payloadJson >>= RevisionLifecycleEntry.fromPayload) = .ok entry ∧
        lifecycleReconciles id p.1 p.2 row entry ∧ p' = (p.1 + 1, some entry.state) := by
  unfold lifecycleStep
  rw [Results.bind_eq_ok]
  constructor
  · rintro ⟨e, he, h⟩
    obtain ⟨_, hrec, h⟩ := Results.bind_eq_ok.mp h
    obtain ⟨rfl, rfl⟩ := Prod.mk.inj (Except.ok.inj h)
    refine ⟨?_, ensure_eq_ok.mp hrec, rfl⟩
    cases hj : jsonLoads row.payloadJson >>= RevisionLifecycleEntry.fromPayload with
    | error f => simp [hj, Except.mapError] at he
    | ok e' => simpa [hj, Except.mapError] using he
  · rintro ⟨he, hrec, rfl⟩
    refine ⟨entry, by simp [he, Except.mapError], ?_⟩
    exact Results.bind_ok (ensure_of hrec) rfl

/-- What a verified lifecycle says about its rows. -/
structure LifecycleEnd (rows : List LifecycleRow) (history : List RevisionLifecycleEntry)
    (p : Nat × Option RevisionState) : Prop where
  position : p.1 = rows.length + 1
  length : history.length = rows.length
  sequence : ∀ r ∈ rows, r.sequence.1 ≤ rows.length
  next : (nextLifecycle rows).1 = p.2 ∧ (nextLifecycle rows).2.1 = p.1
  last : history.getLast?.map (·.state) = p.2

theorem lifecycleEnd_of_walk {rows : List LifecycleRow} {history : List RevisionLifecycleEntry}
    {p : Nat × Option RevisionState}
    (h : walk (lifecycleStep id) (1, none) rows = .ok (history, p)) :
    LifecycleEnd rows history p := by
  refine walk.invariant (P := LifecycleEnd) ?_ ?_ h
  · intro rows history p row entry p' hend hstep
    obtain ⟨-, hrec, rfl⟩ := lifecycleStep_eq_ok.mp hstep
    obtain ⟨-, -, hseq, -, -, hstate, -⟩ := hrec
    have hpos := hend.position
    refine ⟨by simp [hpos], by simp [hend.length], ?_, ?_, by simp⟩
    · intro r hr
      rcases List.mem_append.mp hr with hr | hr
      · have := hend.sequence r hr
        simp only [List.length_append, List.length_cons, List.length_nil]
        omega
      · obtain rfl := List.mem_singleton.mp hr
        simp only [List.length_append, List.length_cons, List.length_nil]
        omega
    · simp [nextLifecycle, hstate, hseq]
  · exact ⟨rfl, rfl, by simp, ⟨rfl, rfl⟩, rfl⟩

theorem verifiedRevisionHistory_eq_ok {history : List RevisionLifecycleEntry} :
    j.verifiedRevisionHistory id = .ok history ↔
      ∃ p, walk (lifecycleStep id) (1, none) (j.lifecycleRows id) = .ok (history, p) := by
  unfold verifiedRevisionHistory
  rw [Results.bind_eq_ok]
  constructor
  · rintro ⟨⟨h', p⟩, hwalk, h⟩
    obtain rfl := Except.ok.inj h
    exact ⟨p, hwalk⟩
  · rintro ⟨p, hwalk⟩
    exact ⟨(history, p), hwalk, rfl⟩

theorem lifecycleRows_withLifecycle_ne {o : OperationRow} {input : ExecutionInput}
    {entry : RevisionLifecycleEntry} {f : ExecutionFence} (ht : Transitions j o input entry)
    (hne : entry.operationId ≠ id) :
    (j.withLifecycle entry f).lifecycleRows id = j.lifecycleRows id :=
  Table.log_put_ne ht.free hne

/-- **Appending an entry extends the lifecycle** by the entry that is read back. -/
theorem verifiedRevisionHistory_withLifecycle {o : OperationRow} {input : ExecutionInput}
    {entry : RevisionLifecycleEntry} {f : ExecutionFence} (ht : Transitions j o input entry)
    {history : List RevisionLifecycleEntry}
    (h : j.verifiedRevisionHistory entry.operationId = .ok history) :
    (j.withLifecycle entry f).verifiedRevisionHistory entry.operationId =
      .ok (history ++ [entry]) := by
  obtain ⟨p, hwalk⟩ := verifiedRevisionHistory_eq_ok.mp h
  have hend := lifecycleEnd_of_walk hwalk
  have hseq : entry.sequence.1 = p.1 := by rw [ht.sequence]; exact hend.next.2
  have hrows : (j.withLifecycle entry f).lifecycleRows entry.operationId =
      j.lifecycleRows entry.operationId ++ [lifecycleRow entry f] := by
    refine Table.log_put (r := lifecycleRow entry f) ht.free fun r hr => ?_
    have hle := hend.sequence r hr
    have hpos := hend.position
    show r.sequence.1 ≤ entry.sequence.1
    omega
  rw [verifiedRevisionHistory_eq_ok, hrows]
  refine ⟨_, walk.concat hwalk (lifecycleStep_eq_ok.mpr ⟨?_, ?_, rfl⟩)⟩
  · show (jsonLoads (RevisionLifecycleEntry.schema.canonicalJson entry) >>= _) = _
    rw [jsonLoads_canonicalJson, Result.ok_bind, RevisionLifecycleEntry.fromPayload_toDict]
  · have hperm := ht.permitted
    rw [hend.next.1] at hperm
    exact ⟨rfl, hseq, hseq, rfl, rfl, rfl, rfl, rfl, hperm⟩

/-! ### Accepted operations -/

theorem acceptedRow?_eq_some {r : AcceptedRow} :
    j.acceptedRow? id = some r ↔ j.operations.get? id = some r.operation ∧
      j.approvals.get? r.operation.decisionId = some r.approval ∧
      j.plans.get? r.approval.planId = some r.plan := by
  simp only [acceptedRow?, Option.bind_eq_bind, Option.bind_eq_some_iff]
  constructor
  · rintro ⟨o, ho, a, ha, p, hp, hr⟩
    obtain rfl := Option.some.inj hr
    exact ⟨ho, ha, hp⟩
  · rintro ⟨ho, ha, hp⟩
    exact ⟨r.operation, ho, r.approval, ha, r.plan, hp, rfl⟩

theorem verifiedAcceptanceClaims_eq_ok {r : AcceptedRow} {claims : AcceptedClaims} :
    verifiedAcceptanceClaims r = .ok claims ↔
      parseAcceptance r = .ok claims ∧ acceptanceReconciles r claims := by
  unfold verifiedAcceptanceClaims
  rw [Results.bind_eq_ok]
  constructor
  · rintro ⟨c, hc, h⟩
    obtain ⟨_, hrec, h⟩ := Results.bind_eq_ok.mp h
    obtain rfl := Except.ok.inj h
    refine ⟨?_, ensure_eq_ok.mp hrec⟩
    cases hp : parseAcceptance r with
    | error f => simp [hp, Except.mapError] at hc
    | ok c' => simpa [hp, Except.mapError] using hc
  · rintro ⟨hp, hrec⟩
    refine ⟨claims, by simp [hp, Except.mapError], ?_⟩
    exact Results.bind_ok (ensure_of hrec) rfl

/-- The same acceptance with the operation in another state. -/
def AcceptedRow.inState (r : AcceptedRow) (s : OperationState) : AcceptedRow :=
  { r with operation := { r.operation with state := s } }

theorem reconcileExecutionInput_inState (r : AcceptedRow) (s : OperationState)
    (row : InputRow) :
    reconcileExecutionInput (r.inState s) row = reconcileExecutionInput r row := rfl

/-! ### Verified histories -/

/-- The terminal receipt and the events agree: without a receipt nothing is terminal. -/
def ReceiptAgrees (r : AcceptedRow) (claims : AcceptedClaims) (events : List OperationEvent) :
    Option ReceiptRow → Prop
  | none => r.operation.state.terminal = false ∧ ∀ e ∈ events, e.state.terminal = false
  | some row => ∃ receipt, receiptFromJson row.payloadJson = .ok receipt ∧
      receiptReconciles r.operation r claims events row receipt

/-- What `_verified_events` establishes. -/
structure History (j : Journal) (id : EntityId .operation) (r : AcceptedRow)
    (claims : AcceptedClaims) (events : List OperationEvent) (p : Nat × Option Digest) :
    Prop where
  accepted : j.acceptedRow? id = some r
  verified : verifiedAcceptanceClaims r = .ok claims
  chain : verifyChain r.operation (j.eventRows id) = .ok (events, p)
  state : r.operation.state = events.getLast?.elim .accepted (·.state)
  receipt : ReceiptAgrees r claims events (j.receipt? id)

theorem verifiedEvents_eq_ok {events : List OperationEvent} :
    j.verifiedEvents id = .ok events ↔ ∃ r claims p, History j id r claims events p := by
  unfold verifiedEvents
  constructor
  · intro h
    split at h
    · exact absurd h (by simp)
    · rename_i r hr
      obtain ⟨claims, hclaims, h⟩ := Results.bind_eq_ok.mp h
      obtain ⟨⟨events', p⟩, hchain, h⟩ := Results.bind_eq_ok.mp h
      obtain ⟨_, hstate, h⟩ := Results.bind_eq_ok.mp h
      split at h
      · rename_i hnone
        obtain ⟨_, hterm, h⟩ := Results.bind_eq_ok.mp h
        obtain rfl := Except.ok.inj h
        refine ⟨r, claims, p, hr, hclaims, hchain, ensure_eq_ok.mp hstate, ?_⟩
        have hterm := ensure_eq_ok.mp hterm
        rw [hnone]
        exact hterm
      · rename_i row hrow
        obtain ⟨receipt, hreceipt, h⟩ := Results.bind_eq_ok.mp h
        obtain ⟨_, hrec, h⟩ := Results.bind_eq_ok.mp h
        obtain rfl := Except.ok.inj h
        refine ⟨r, claims, p, hr, hclaims, hchain, ensure_eq_ok.mp hstate, ?_⟩
        rw [hrow]
        refine ⟨receipt, ?_, ensure_eq_ok.mp hrec⟩
        cases hp : receiptFromJson row.payloadJson with
        | error f => simp [hp, Except.mapError] at hreceipt
        | ok c' => simpa [hp, Except.mapError] using hreceipt
  · rintro ⟨r, claims, p, hr, hclaims, hchain, hstate, hreceipt⟩
    rw [hr]
    simp only [hclaims, hchain, Result.ok_bind]
    refine Results.bind_ok (ensure_of hstate) ?_
    split
    · rename_i hnone
      rw [hnone] at hreceipt
      exact Results.bind_ok (ensure_of ⟨hreceipt.1, hreceipt.2⟩) rfl
    · rename_i row hrow
      rw [hrow] at hreceipt
      obtain ⟨receipt, hparse, hrec⟩ := hreceipt
      refine Results.bind_ok (a := receipt) (by simp [hparse, Except.mapError]) ?_
      exact Results.bind_ok (ensure_of hrec) rfl

end Journal

end Ophelia
