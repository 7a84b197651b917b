import Ophelia.Journal.Commit
import Ophelia.Journal.LeaseWrites
import Mathlib.Control.Traversable.Instances

/-!
# Ophelia.Journal.Writes

What the other calls of the store do when they succeed: one inversion lemma per call, with
the checks it made and the journal it leaves. The elementary writes have names, so that
invariants are proved once per write: `withEvent` appends an event, `withLifecycle` a
lifecycle row, `withReceipt` a receipt, `withActive` the active revision.
-/

namespace Ophelia

variable [Platform]

omit [Platform] in
theorem boundedJson_eq_ok {payload text : String} (h : boundedJson payload = .ok text) :
    text = payload := by
  unfold boundedJson at h
  split at h
  · exact (Except.ok.inj h).symm
  · exact absurd h (by simp)

namespace Journal

variable {j j' : Journal}

/-! ### Events -/

/-- The journal after an event of an operation. -/
def withEvent (j : Journal) (o : OperationRow) (event : OperationEvent) (payloadJson : String) :
    Journal :=
  { j with
    operationEvents := j.operationEvents.put
      ⟨event.operationId, event.sequence, event.eventId, OperationEvent.schema.digest event,
        payloadJson⟩
    hostEvents := j.hostEvents.put
      { cursor := j.latestCursor + 1, eventId := event.eventId, eventType := .operation,
        operationId := some event.operationId, workloadRunId := none,
        eventDigest := OperationEvent.schema.digest event, occurredAt := event.occurredAt,
        payloadJson }
    operations := j.operations.put { o with state := event.state } }

/-- What an appended event was checked against. -/
structure Appends (j : Journal) (o : OperationRow) (event : OperationEvent)
    (allowTerminal : Bool) : Prop where
  found : j.operations.get? event.operationId = some o
  nonterminal : o.state.terminal = false
  allowed : event.state.terminal = true → allowTerminal = true
  hostId : event.hostId = o.hostId
  app : event.app = o.app
  environment : event.environment = o.environment
  revisionId : ∀ r, event.revisionId = some r → r = o.revisionId
  sequence : event.sequence = (j.nextEvent event.operationId).1
  previous : event.previousEventDigest = (j.nextEvent event.operationId).2
  eventId : ∀ r ∈ j.operationEvents.rows, r.eventId ≠ event.eventId
  hostEventId : ∀ r ∈ j.hostEvents.rows, r.eventId ≠ event.eventId
  free : j.operationEvents.get? (event.operationId, event.sequence) = none
  freeCursor : j.hostEvents.get? (j.latestCursor + 1) = none

theorem appendEvent_eq_ok {event : OperationEvent} {payloadJson : String} {allow : Bool}
    (h : j.appendEvent event payloadJson allow = .ok j') :
    ∃ o, Appends j o event allow ∧ j' = j.withEvent o event payloadJson := by
  unfold appendEvent at h
  split at h
  · exact absurd h (by simp [throw, throwThe, MonadExceptOf.throw])
  · rename_i o ho
    obtain ⟨_, hterm, h⟩ := Results.bind_eq_ok.mp h
    obtain ⟨_, hallow, h⟩ := Results.bind_eq_ok.mp h
    obtain ⟨_, hident, h⟩ := Results.bind_eq_ok.mp h
    obtain ⟨_, hseq, h⟩ := Results.bind_eq_ok.mp h
    obtain ⟨_, hprev, h⟩ := Results.bind_eq_ok.mp h
    obtain ⟨_, hid, h⟩ := Results.bind_eq_ok.mp h
    obtain ⟨events, hevents, h⟩ := Results.bind_eq_ok.mp h
    obtain ⟨_, hhost, h⟩ := Results.bind_eq_ok.mp h
    obtain ⟨hosts, hhosts, h⟩ := Results.bind_eq_ok.mp h
    obtain ⟨hfree, rfl⟩ := insertRow_eq_ok hevents
    obtain ⟨hcursor, rfl⟩ := insertRow_eq_ok hhosts
    obtain ⟨hh, happ, henv, hrev⟩ := ensure_eq_ok.mp hident
    refine ⟨o, ?_, (Except.ok.inj h).symm⟩
    exact ⟨ho, ensure_eq_ok.mp hterm, ensure_eq_ok.mp hallow, hh, happ, henv, hrev,
      ensure_eq_ok.mp hseq, ensure_eq_ok.mp hprev, ensure_eq_ok.mp hid, ensure_eq_ok.mp hhost,
      hfree, hcursor⟩

theorem append_eq_ok {event : OperationEvent} {owner : Option String}
    {token clock : Option Int} {u : Unit}
    (h : j.append event owner token clock = .ok (j', u)) :
    j.assertFence event.operationId owner token clock = .ok () ∧
    ∃ o, Appends j o event false ∧
      j' = j.withEvent o event (OperationEvent.schema.canonicalJson event) := by
  unfold append at h
  obtain ⟨payload, hp, h⟩ := Results.bind_eq_ok.mp h
  obtain rfl := boundedJson_eq_ok hp
  obtain ⟨_, hf, h⟩ := Results.bind_eq_ok.mp h
  obtain ⟨j₁, hj, h⟩ := Results.bind_eq_ok.mp h
  obtain ⟨o, ho, rfl⟩ := appendEvent_eq_ok hj
  exact ⟨hf, o, ho, (Prod.mk.inj (Except.ok.inj h)).1.symm⟩

/-- An event without a terminal state is not a terminal event. -/
theorem Appends.state_nonterminal {o : OperationRow} {event : OperationEvent}
    (h : Appends j o event false) : event.state.terminal = false := by
  cases ht : event.state.terminal with
  | false => rfl
  | true => exact absurd (h.allowed ht) (by simp)

/-! ### Lifecycle -/

/-- The row of a lifecycle entry. -/
def lifecycleRow (entry : RevisionLifecycleEntry) (fence : ExecutionFence) : LifecycleRow :=
  { operationId := entry.operationId, sequence := entry.sequence,
    revisionId := entry.revisionId, revisionDigest := entry.revisionDigest,
    state := entry.state, occurredAt := entry.occurredAt, leaseOwner := fence.ownerId,
    fencingToken := fence.fencingToken,
    payloadJson := RevisionLifecycleEntry.schema.canonicalJson entry }

/-- The journal after a lifecycle entry. -/
def withLifecycle (j : Journal) (entry : RevisionLifecycleEntry) (fence : ExecutionFence) :
    Journal :=
  { j with revisionLifecycle := j.revisionLifecycle.put (lifecycleRow entry fence) }

/-- What a lifecycle entry was checked against. -/
structure Transitions (j : Journal) (o : OperationRow) (input : ExecutionInput)
    (entry : RevisionLifecycleEntry) : Prop where
  found : j.operations.get? entry.operationId = some o
  nonterminal : o.state.terminal = false
  loaded : j.loadExecutionInputTx entry.operationId = .ok input
  revisionId : entry.revisionId = input.revision.revisionId
  revisionDigest : entry.revisionDigest = input.revision.contentDigest
  permitted : permitted (nextLifecycle (j.lifecycleRows entry.operationId)).1 entry.state = true
  sequence : entry.sequence = (nextLifecycle (j.lifecycleRows entry.operationId)).2
  free : j.revisionLifecycle.get? (entry.operationId, entry.sequence) = none

theorem appendRevisionStateTx_eq_ok {id : EntityId .operation} {state : RevisionState}
    {fence : ExecutionFence} {clock : Option Int} {entry : RevisionLifecycleEntry}
    (h : j.appendRevisionStateTx id state fence clock = .ok (j', entry)) :
    entry.operationId = id ∧ entry.state = state ∧
      (∃ o input, Transitions j o input entry) ∧ j' = j.withLifecycle entry fence := by
  unfold appendRevisionStateTx at h
  split at h
  · exact absurd h (by simp)
  · rename_i o ho
    obtain ⟨_, hterm, h⟩ := Results.bind_eq_ok.mp h
    obtain ⟨input, hinput, h⟩ := Results.bind_eq_ok.mp h
    obtain ⟨_, -, h⟩ := Results.bind_eq_ok.mp h
    obtain ⟨_, hperm, h⟩ := Results.bind_eq_ok.mp h
    obtain ⟨now, -, h⟩ := Results.bind_eq_ok.mp h
    obtain ⟨at', -, h⟩ := Results.bind_eq_ok.mp h
    obtain ⟨payload, hp, h⟩ := Results.bind_eq_ok.mp h
    obtain ⟨rows, hrows, h⟩ := Results.bind_eq_ok.mp h
    obtain rfl := boundedJson_eq_ok hp
    obtain ⟨hfree, rfl⟩ := insertRow_eq_ok hrows
    obtain ⟨rfl, rfl⟩ := Prod.mk.inj (Except.ok.inj h)
    exact ⟨rfl, rfl, ⟨o, input, ho, ensure_eq_ok.mp hterm, hinput, rfl, rfl,
      ensure_eq_ok.mp hperm, rfl, hfree⟩, rfl⟩

theorem appendRevisionState_eq_ok {id : String} {state : RevisionState}
    {fence : ExecutionFence} {clock : Nat → Option Int} {entry : RevisionLifecycleEntry}
    (h : j.appendRevisionState id state fence clock = .ok (j', entry)) :
    fence.operationId.val = id ∧ entry.operationId = fence.operationId ∧ entry.state = state ∧
      (∃ o input, Transitions j o input entry) ∧ j' = j.withLifecycle entry fence := by
  unfold appendRevisionState at h
  obtain ⟨_, hf, h⟩ := Results.bind_eq_ok.mp h
  exact ⟨(assertExecutionFence_eq_ok.mp hf).1, appendRevisionStateTx_eq_ok h⟩

/-! ### Active revision -/

/-- The row of an active revision. -/
def activeRow (active : ActiveRevision) : ActiveRow :=
  { scope := active.scope, operationId := active.operationId,
    revisionId := active.revisionId, revisionDigest := active.revisionDigest,
    generation := active.generation, updatedAt := active.updatedAt,
    payloadJson := ActiveRevision.schema.canonicalJson active }

/-- The journal after a swap of the active revision. -/
def withActive (j : Journal) (active : ActiveRevision) : Journal :=
  { j with activeRevisions := j.activeRevisions.put (activeRow active) }

/-- What a swap was checked against. -/
structure Swaps (j : Journal) (o : OperationRow) (input : ExecutionInput)
    (entry : RevisionLifecycleEntry) (active : ActiveRevision) : Prop where
  transitions : Transitions j o input entry
  operationId : entry.operationId = active.operationId
  state : entry.state = .active
  scope : active.scope = o.scope
  revisionId : active.revisionId = input.revision.revisionId
  revisionDigest : active.revisionDigest = input.revision.contentDigest
  generation : active.generation.1 =
    (j.activeRevisions.get? o.scope).elim 0 (·.generation.1) + 1

theorem casActiveRevisionTx_eq_ok {id : EntityId .operation} {expected : Option String}
    {fence : ExecutionFence} {clock : Nat → Option Int} {active : ActiveRevision}
    (h : j.casActiveRevisionTx id expected fence clock = .ok (j', active)) :
    ∃ o input entry, active.operationId = id ∧ Swaps j o input entry active ∧
      (j.activeRevisions.get? o.scope).map (·.revisionDigest.val) = expected ∧
      j' = (j.withLifecycle entry fence).withActive active := by
  unfold casActiveRevisionTx at h
  obtain ⟨_, -, h⟩ := Results.bind_eq_ok.mp h
  split at h
  · exact absurd h (by simp [throw, throwThe, MonadExceptOf.throw])
  · rename_i o ho
    obtain ⟨_, hcas, h⟩ := Results.bind_eq_ok.mp h
    obtain ⟨input, hinput, h⟩ := Results.bind_eq_ok.mp h
    obtain ⟨⟨j₁, entry⟩, hentry, h⟩ := Results.bind_eq_ok.mp h
    obtain ⟨now, -, h⟩ := Results.bind_eq_ok.mp h
    obtain ⟨at', -, h⟩ := Results.bind_eq_ok.mp h
    obtain ⟨payload, hp, h⟩ := Results.bind_eq_ok.mp h
    obtain rfl := boundedJson_eq_ok hp
    obtain ⟨hid, hstate, ⟨o', input', ht⟩, rfl⟩ := appendRevisionStateTx_eq_ok hentry
    obtain ⟨rfl, rfl⟩ := Prod.mk.inj (Except.ok.inj h)
    obtain rfl : o' = o := by
      have := ht.found
      rw [hid, ho] at this
      exact (Option.some.inj this).symm
    obtain rfl : input' = input := by
      have := ht.loaded
      rw [hid, hinput] at this
      exact (Except.ok.inj this).symm
    exact ⟨o', input', entry, rfl, ⟨ht, hid, hstate, rfl, rfl, rfl, rfl⟩,
      ensure_eq_ok.mp hcas, rfl⟩

theorem compareAndSwapActiveRevision_eq_ok {id : String} {expected : Option String}
    {fence : ExecutionFence} {clock : Nat → Option Int} {active : ActiveRevision}
    (h : j.compareAndSwapActiveRevision id expected fence clock = .ok (j', active)) :
    ∃ o input entry, active.operationId = fence.operationId ∧ Swaps j o input entry active ∧
      j' = (j.withLifecycle entry fence).withActive active := by
  unfold compareAndSwapActiveRevision at h
  obtain ⟨_, -, h⟩ := Results.bind_eq_ok.mp h
  obtain ⟨o, input, entry, hid, hs, -, rfl⟩ := casActiveRevisionTx_eq_ok h
  exact ⟨o, input, entry, hid, hs, rfl⟩

/-! ### Receipts -/

/-- The row of a terminal receipt. -/
def receiptRow (receipt : TerminalReceipt) : ReceiptRow :=
  ⟨receipt.receiptId, receipt.operationId, receipt.outcome, receipt.digest,
    receipt.canonicalJson⟩

/-- The journal after a terminal receipt. -/
def withReceipt (j : Journal) (receipt : TerminalReceipt) : Journal :=
  { j with terminalReceipts := j.terminalReceipts.put (receiptRow receipt) }

/-- The journal after a receipt and its terminal event. -/
def withCommit (j : Journal) (r : AcceptedRow) (receipt : TerminalReceipt)
    (event : OperationEvent) : Journal :=
  (j.withEvent r.operation event (OperationEvent.schema.canonicalJson event)).withReceipt receipt

theorem revalidateReceipt_eq_ok {receipt : TerminalReceipt} {u : Unit}
    (h : revalidateReceipt receipt = .ok u) : receipt.verification.terse = true := by
  unfold revalidateReceipt VerificationResult.rejectSummaryProse at h
  simpa [VerificationResult.terse] using h

/-- What a newly committed receipt was checked against: the terminal event is appended
first, then the receipt. -/
structure Commits (j : Journal) (r : AcceptedRow) (receipt : TerminalReceipt)
    (event : OperationEvent) : Prop where
  noReceipt : j.receipt? receipt.operationId = none
  accepted : j.acceptedRow? receipt.operationId = some r
  binds : bindReceipt r receipt = .ok ()
  appends : Appends j r.operation event true
  free : j.terminalReceipts.get? receipt.receiptId = none

theorem commitReceiptTx_eq_ok {receipt : TerminalReceipt} {freshId : Nat → EntityId .event}
    {b : Bool} (h : j.commitReceiptTx receipt receipt.canonicalJson freshId = .ok (j', b)) :
    (j' = j ∧ ∃ row, j.receipt? receipt.operationId = some row ∧
      row.payloadJson = receipt.canonicalJson) ∨
    ∃ r, Commits j r receipt (j.terminalEvent receipt freshId) ∧
      j' = j.withCommit r receipt (j.terminalEvent receipt freshId) := by
  unfold commitReceiptTx at h
  split at h
  · rename_i row hrow
    left
    obtain ⟨_, -, h⟩ := Results.bind_eq_ok.mp h
    split at h
    · rename_i heq
      exact ⟨(Prod.mk.inj (Except.ok.inj h)).1.symm, row, hrow, heq⟩
    · exact absurd h (by simp [throw, throwThe, MonadExceptOf.throw])
  · rename_i hnone
    right
    split at h
    · exact absurd h (by simp)
    · rename_i r hr
      obtain ⟨_, -, h⟩ := Results.bind_eq_ok.mp h
      obtain ⟨_, hbind, h⟩ := Results.bind_eq_ok.mp h
      obtain ⟨payload, hp, h⟩ := Results.bind_eq_ok.mp h
      obtain ⟨j₁, hj, h⟩ := Results.bind_eq_ok.mp h
      obtain ⟨rows, hrows, h⟩ := Results.bind_eq_ok.mp h
      obtain rfl := boundedJson_eq_ok hp
      obtain ⟨o, ho, rfl⟩ := appendEvent_eq_ok hj
      obtain ⟨hfree, rfl⟩ := insertRow_eq_ok hrows
      obtain rfl : o = r.operation := by
        have hr' := hr
        simp only [acceptedRow?, Option.bind_eq_bind, Option.bind_eq_some_iff] at hr'
        obtain ⟨o', ho', a, -, p, -, hr'⟩ := hr'
        obtain rfl := Option.some.inj hr'
        have := ho.found
        simp only [terminalEvent] at this
        rw [ho'] at this
        exact (Option.some.inj this).symm
      exact ⟨r, ⟨hnone, hr, hbind, ho, hfree⟩, (Prod.mk.inj (Except.ok.inj h)).1.symm⟩

theorem commitReceipt_eq_ok {receipt : TerminalReceipt} {owner : Option String}
    {token clock : Option Int} {freshId : Nat → EntityId .event} {u : Unit}
    (h : j.commitReceipt receipt owner token clock freshId = .ok (j', u)) :
    receipt.verification.terse = true ∧
    j.assertFence receipt.operationId owner token clock = .ok () ∧
    ∃ b, j.commitReceiptTx receipt receipt.canonicalJson freshId = .ok (j', b) := by
  unfold commitReceipt at h
  obtain ⟨_, hterse, h⟩ := Results.bind_eq_ok.mp h
  obtain ⟨payload, hp, h⟩ := Results.bind_eq_ok.mp h
  obtain rfl := boundedJson_eq_ok hp
  obtain ⟨_, hf, h⟩ := Results.bind_eq_ok.mp h
  obtain ⟨⟨j₁, b⟩, hj, h⟩ := Results.bind_eq_ok.mp h
  obtain rfl := (Prod.mk.inj (Except.ok.inj h)).1
  exact ⟨revalidateReceipt_eq_ok hterse, hf, b, hj⟩

/-! ### Success -/

/-- Appending the phase events keeps what appending one of them keeps. -/
theorem appendPhaseEvents_induction {receipt : TerminalReceipt}
    {freshId : Nat → EntityId .event} {P : Journal → Prop}
    (step : ∀ {j : Journal} {o : OperationRow} {event : OperationEvent}, P j →
      Appends j o event false → event.operationId = receipt.operationId →
      P (j.withEvent o event (OperationEvent.schema.canonicalJson event)))
    {phases : List (Text 128 × Digests)} (hj : P j)
    (h : appendPhaseEvents receipt freshId j phases = .ok j') : P j' := by
  induction phases generalizing j with
  | nil =>
      obtain rfl := Except.ok.inj h
      exact hj
  | cons phase phases ih =>
      obtain ⟨eventType, evidence⟩ := phase
      simp only [appendPhaseEvents] at h
      obtain ⟨payload, hp, h⟩ := Results.bind_eq_ok.mp h
      obtain ⟨j₁, hj₁, h⟩ := Results.bind_eq_ok.mp h
      obtain rfl := boundedJson_eq_ok hp
      obtain ⟨o, ho, rfl⟩ := appendEvent_eq_ok hj₁
      exact ih (step hj ho rfl) h

/-- The journal after the marker of an atomic success. -/
def withAtomic (j : Journal) (operationId : EntityId .operation) (generation : Pos) : Journal :=
  { j with atomicSuccessCommits := j.atomicSuccessCommits.put ⟨operationId, generation⟩ }

theorem toDatetime_eq_ok {now d : Int} (h : toDatetime now = .ok d) :
    Platform.fromTimestamp now = some d := by
  unfold toDatetime at h
  split at h
  · rename_i d' hd
    rw [hd, Except.ok.inj h]
  · exact absurd h (by simp)

/-- What a success was admitted on: no cancellation, a deadline ahead, and the receipt
names the revision that is still active. -/
structure Admits (j : Journal) (receipt : TerminalReceipt) (clock : Option Int) : Prop where
  control : ∃ c, j.controlTx receipt.operationId = .ok c ∧ c.cancellationRequested = false ∧
    ∃ now d deadline, clock = some now ∧ Platform.fromTimestamp now = some d ∧
      c.deadline = some deadline ∧ d < deadline.instant
  previous : receipt.previousRevisionId =
    (j.activeRevisions.get? ⟨receipt.hostId, receipt.app, receipt.environment⟩).map (·.revisionId)

theorem admitSuccess_eq_ok {receipt : TerminalReceipt} {clock : Option Int} {u : Unit}
    (h : j.admitSuccess receipt clock = .ok u) : Admits j receipt clock := by
  unfold admitSuccess at h
  obtain ⟨c, hc, h⟩ := Results.bind_eq_ok.mp h
  obtain ⟨now, hnow, h⟩ := Results.bind_eq_ok.mp h
  obtain ⟨d, hd, h⟩ := Results.bind_eq_ok.mp h
  obtain ⟨_, hcancel, h⟩ := Results.bind_eq_ok.mp h
  obtain ⟨_, hdead, h⟩ := Results.bind_eq_ok.mp h
  have hdead := ensure_eq_ok.mp hdead
  simp only [Option.any_eq_true_iff_get, decide_eq_true_eq] at hdead
  obtain ⟨hsome, hlt⟩ := hdead
  refine ⟨⟨c, hc, ensure_eq_ok.mp hcancel, now, d, c.deadline.get hsome,
    clockSample_eq_ok.mp hnow, toDatetime_eq_ok hd, (Option.some_get hsome).symm, hlt⟩, ?_⟩
  exact ensure_eq_ok.mp h

/-- What a newly committed success went through. -/
structure Succeeds (j j₁ j₂ j₃ : Journal) (receipt : TerminalReceipt)
    (expectedDigest : Option String) (fence : ExecutionFence) (clock : Nat → Option Int)
    (freshId : Nat → EntityId .event) (active : ActiveRevision) : Prop where
  noReceipt : j.receipt? receipt.operationId = none
  admitted : Admits j receipt (clock 1)
  swapped : j.casActiveRevisionTx receipt.operationId expectedDigest fence
    (fun i => clock (i + 2)) = .ok (j₁, active)
  binds : receipt.activeRevisionId = some active.revisionId ∧
    receipt.activeRevisionDigest = some active.revisionDigest
  phases : j₁.appendSuccessPhaseEventsTx receipt freshId = .ok j₂
  committed : ∃ b, j₂.commitReceiptTx receipt receipt.canonicalJson freshId = .ok (j₃, b)
  free : j₃.atomicSuccessCommits.get? receipt.operationId = none

/-- **A successful `commit_success`** replays a committed receipt, or goes through all of
its steps. -/
theorem commitSuccess_eq_ok {receipt : TerminalReceipt} {expected : Option String}
    {fence : ExecutionFence} {clock : Nat → Option Int} {freshId : Nat → EntityId .event}
    {active : ActiveRevision}
    (h : j.commitSuccess receipt expected fence clock freshId = .ok (j', active)) :
    receipt.verification.terse = true ∧ receipt.outcome = .succeeded ∧
    j.assertExecutionFence receipt.operationId.val fence (clock 0) = .ok () ∧
    ((j' = j ∧ (∃ row, j.receipt? receipt.operationId = some row ∧
        row.payloadJson = receipt.canonicalJson) ∧ j.replayedSuccess receipt = .ok active) ∨
      ∃ j₁ j₂ j₃, Succeeds j j₁ j₂ j₃ receipt expected fence clock freshId active ∧
        j' = j₃.withAtomic receipt.operationId active.generation) := by
  unfold commitSuccess at h
  obtain ⟨_, hterse, h⟩ := Results.bind_eq_ok.mp h
  obtain ⟨_, hout, h⟩ := Results.bind_eq_ok.mp h
  obtain ⟨payload, hp, h⟩ := Results.bind_eq_ok.mp h
  obtain ⟨_, hf, h⟩ := Results.bind_eq_ok.mp h
  obtain rfl := boundedJson_eq_ok hp
  refine ⟨revalidateReceipt_eq_ok hterse, ensure_eq_ok.mp hout, hf, ?_⟩
  split at h
  · rename_i row hrow
    left
    obtain ⟨_, heq, h⟩ := Results.bind_eq_ok.mp h
    obtain ⟨a, ha, h⟩ := Results.bind_eq_ok.mp h
    obtain ⟨rfl, rfl⟩ := Prod.mk.inj (Except.ok.inj h)
    exact ⟨rfl, ⟨row, hrow, ensure_eq_ok.mp heq⟩, ha⟩
  · rename_i hnone
    right
    obtain ⟨_, hadm, h⟩ := Results.bind_eq_ok.mp h
    obtain ⟨⟨j₁, a⟩, hswap, h⟩ := Results.bind_eq_ok.mp h
    obtain ⟨_, hbind, h⟩ := Results.bind_eq_ok.mp h
    obtain ⟨j₂, hphases, h⟩ := Results.bind_eq_ok.mp h
    obtain ⟨⟨j₃, b⟩, hcommit, h⟩ := Results.bind_eq_ok.mp h
    obtain ⟨rows, hrows, h⟩ := Results.bind_eq_ok.mp h
    obtain ⟨hfree, rfl⟩ := insertRow_eq_ok hrows
    obtain ⟨rfl, rfl⟩ := Prod.mk.inj (Except.ok.inj h)
    exact ⟨j₁, j₂, j₃, ⟨hnone, admitSuccess_eq_ok hadm, hswap, ensure_eq_ok.mp hbind, hphases,
      ⟨b, hcommit⟩, hfree⟩, rfl⟩

/-! ### Acceptance -/

/-- The row of a new operation. -/
def acceptedOperation (actor : Actor) (request : OperationRequest) (approved : ApprovedPlanRef)
    (operationId : EntityId .operation) (acceptedAt : Utc) : OperationRow :=
  { operationId, requestId := request.requestId, actorId := actor.actorId,
    operationClass := request.operation, requestDigest := request.intentDigest,
    state := .accepted, hostId := request.hostId, app := request.app,
    environment := request.environment, revisionId := request.revisionId,
    decisionId := approved.decisionId,
    requestJson := canonicalJson (request.claims (digestText request.idempotencyKey.val)),
    actorJson := Actor.schema.canonicalJson actor, acceptedAt := acceptedAt.val }

/-- The rows an acceptance needs in the tables of plans and approvals. -/
def acceptedPlan (approved : ApprovedPlanRef) : PlanRow :=
  ⟨approved.planId, approved.planDigest, approved.requestDigest,
    canonicalJson approved.planClaims⟩

def acceptedApproval (approved : ApprovedPlanRef) : ApprovalRow :=
  ⟨approved.decisionId, approved.planId, approved.actorId, approved.approvalDigest,
    ApprovedPlanRef.schema.canonicalJson approved⟩

def acceptedInput (operationId : EntityId .operation) (input : ExecutionInput) : InputRow :=
  ⟨operationId, input.inputDigest, input.deadline, input.canonicalJson⟩

/-- What a new acceptance was checked against, and the journal it leaves. -/
structure Accepts (j j' : Journal) (actor : Actor) (request : OperationRequest)
    (approved : ApprovedPlanRef) (input : Option ExecutionInput)
    (operationId : EntityId .operation) (acceptedAt : Utc) : Prop where
  binding : validateAcceptanceBinding actor request approved request.intentDigest = .ok ()
  inputs : ∀ i, input = some i →
    validateExecutionInput request approved i request.intentDigest = .ok ()
  plan : (Table.putNew j.plans (acceptedPlan approved)).get? approved.planId =
    some (acceptedPlan approved)
  approval : (Table.putNew j.approvals (acceptedApproval approved)).get? approved.decisionId =
    some (acceptedApproval approved)
  fresh : j.operations.get? operationId = none
  freshInput : input.isSome = true → j.operationInputs.get? operationId = none
  result : j' =
    { j with
      plans := Table.putNew j.plans (acceptedPlan approved)
      approvals := Table.putNew j.approvals (acceptedApproval approved)
      operations :=
        j.operations.put (acceptedOperation actor request approved operationId acceptedAt)
      operationInputs := input.elim j.operationInputs fun i =>
        j.operationInputs.put (acceptedInput operationId i)
      idempotencyKeys := j.idempotencyKeys.put
        ⟨⟨actor.actorId, request.operation, digestText request.idempotencyKey.val⟩,
          request.intentDigest, operationId⟩ }

theorem acceptanceTexts_eq_ok {actor : Actor} {request : OperationRequest}
    {approved : ApprovedPlanRef} {input : Option ExecutionInput} {texts : AcceptanceTexts}
    (h : acceptanceTexts actor request approved input = .ok texts) :
    texts = ⟨Actor.schema.canonicalJson actor,
      canonicalJson (request.claims (digestText request.idempotencyKey.val)),
      ApprovedPlanRef.schema.canonicalJson approved, input.map (·.canonicalJson),
      canonicalJson approved.planClaims⟩ := by
  unfold acceptanceTexts at h
  obtain ⟨a, ha, h⟩ := Results.bind_eq_ok.mp h
  obtain ⟨r, hr, h⟩ := Results.bind_eq_ok.mp h
  obtain ⟨ap, hap, h⟩ := Results.bind_eq_ok.mp h
  obtain ⟨i, hi, h⟩ := Results.bind_eq_ok.mp h
  obtain ⟨p, hp, h⟩ := Results.bind_eq_ok.mp h
  obtain rfl := boundedJson_eq_ok ha
  obtain rfl := boundedJson_eq_ok hr
  obtain rfl := boundedJson_eq_ok hap
  obtain rfl := boundedJson_eq_ok hp
  obtain rfl := Except.ok.inj h
  cases input with
  | none =>
      obtain rfl : none = i := Except.ok.inj hi
      rfl
  | some x =>
      obtain ⟨y, hy, hi⟩ : ∃ y, boundedJson x.canonicalJson = .ok y ∧ some y = i := by
        cases hb : boundedJson x.canonicalJson with
        | error e => simp [Option.mapM, hb, Functor.map, Except.map] at hi
        | ok y => exact ⟨y, rfl, by simpa [Option.mapM, hb, Functor.map, Except.map] using hi⟩
      obtain rfl := boundedJson_eq_ok hy
      subst hi
      rfl

omit [Platform] in
/-- A row that is there already stays. -/
theorem putNew_eq_ok {κ ρ : Type} [DecidableEq κ] {key : ρ → κ} {t : Table key} {r : ρ} {k : κ}
    {x : ρ} (h : t.get? k = some x) : (Table.putNew t r).get? k = some x := by
  unfold Table.putNew
  split
  · exact h
  · rename_i hnone
    rw [Table.get?_put, if_neg]
    · exact h
    · rintro rfl
      rw [h] at hnone
      exact absurd hnone (by simp)

theorem recordPlan_eq_ok {approved : ApprovedPlanRef}
    (h : j.recordPlan approved (canonicalJson approved.planClaims) = .ok j') :
    (Table.putNew j.plans (acceptedPlan approved)).get? approved.planId =
        some (acceptedPlan approved) ∧
      j' = { j with plans := Table.putNew j.plans (acceptedPlan approved) } := by
  unfold recordPlan at h
  obtain ⟨_, hplan, h⟩ := Results.bind_eq_ok.mp h
  exact ⟨ensure_eq_ok.mp hplan, (Except.ok.inj h).symm⟩

theorem recordApproval_eq_ok {approved : ApprovedPlanRef}
    (h : j.recordApproval approved (ApprovedPlanRef.schema.canonicalJson approved) = .ok j') :
    (Table.putNew j.approvals (acceptedApproval approved)).get? approved.decisionId =
        some (acceptedApproval approved) ∧
      j' = { j with approvals := Table.putNew j.approvals (acceptedApproval approved) } := by
  unfold recordApproval at h
  obtain ⟨_, -, h⟩ := Results.bind_eq_ok.mp h
  obtain ⟨_, happroval, h⟩ := Results.bind_eq_ok.mp h
  exact ⟨ensure_eq_ok.mp happroval, (Except.ok.inj h).symm⟩

theorem recordInput_eq_ok {id : EntityId .operation} {input : Option ExecutionInput}
    {t : Table InputRow.operationId}
    (h : j.recordInput id input (input.map (·.canonicalJson)) = .ok t) :
    (input.isSome = true → j.operationInputs.get? id = none) ∧
      t = input.elim j.operationInputs fun i => j.operationInputs.put (acceptedInput id i) := by
  cases input with
  | none => exact ⟨by simp, (Except.ok.inj h).symm⟩
  | some i =>
      obtain ⟨hnone, rfl⟩ := insertRow_eq_ok h
      exact ⟨fun _ => hnone, rfl⟩

/-- A successful `accept` returns the operation its key identifies, or records a new one with
the time of its clock. -/
theorem accept_stamped {actor : Actor} {request : OperationRequest} {approved : ApprovedPlanRef}
    {input : Option ExecutionInput} {clock : Option Int} {freshId : EntityId .operation}
    {ref : OperationRef}
    (h : j.accept actor request approved input clock freshId = .ok (j', ref)) :
    j' = j ∨ ∃ now acceptedAt, timestamp now = .ok acceptedAt ∧
      Accepts j j' actor request approved input freshId acceptedAt := by
  unfold accept at h
  obtain ⟨_, hbind, h⟩ := Results.bind_eq_ok.mp h
  obtain ⟨_, hinput, h⟩ := Results.bind_eq_ok.mp h
  obtain ⟨texts, htexts, h⟩ := Results.bind_eq_ok.mp h
  obtain rfl := acceptanceTexts_eq_ok htexts
  dsimp only at h
  split at h
  · left
    obtain ⟨_, -, h⟩ := Results.bind_eq_ok.mp h
    obtain ⟨_, -, h⟩ := Results.bind_eq_ok.mp h
    exact (Prod.mk.inj (Except.ok.inj h)).1.symm
  · right
    obtain ⟨now, -, h⟩ := Results.bind_eq_ok.mp h
    obtain ⟨d, -, h⟩ := Results.bind_eq_ok.mp h
    obtain ⟨_, -, h⟩ := Results.bind_eq_ok.mp h
    obtain ⟨_, -, h⟩ := Results.bind_eq_ok.mp h
    obtain ⟨acceptedAt, htime, h⟩ := Results.bind_eq_ok.mp h
    obtain ⟨j₁, h₁, h⟩ := Results.bind_eq_ok.mp h
    obtain ⟨j₂, h₂, h⟩ := Results.bind_eq_ok.mp h
    obtain ⟨j₃, h₃, h⟩ := Results.bind_eq_ok.mp h
    obtain ⟨rfl, -⟩ := Prod.mk.inj (Except.ok.inj h)
    obtain ⟨hplan, rfl⟩ := recordPlan_eq_ok h₁
    obtain ⟨happroval, rfl⟩ := recordApproval_eq_ok h₂
    unfold recordOperation at h₃
    obtain ⟨ops, hops, h₃⟩ := Results.bind_eq_ok.mp h₃
    obtain ⟨ins, hins, h₃⟩ := Results.bind_eq_ok.mp h₃
    obtain ⟨_, -, h₃⟩ := Results.bind_eq_ok.mp h₃
    obtain ⟨keys, hkeys, h₃⟩ := Results.bind_eq_ok.mp h₃
    obtain ⟨hfresh, rfl⟩ := insertRow_eq_ok hops
    obtain ⟨-, rfl⟩ := insertRow_eq_ok hkeys
    obtain ⟨hfreshInput, rfl⟩ := recordInput_eq_ok hins
    refine ⟨now, acceptedAt, htime, hbind, ?_, hplan, happroval, hfresh, hfreshInput,
      (Except.ok.inj h₃).symm⟩
    intro i hi
    subst hi
    exact hinput

/-- **A successful `accept`** returns the operation its key identifies, or records a new
one. -/
theorem accept_eq_ok {actor : Actor} {request : OperationRequest} {approved : ApprovedPlanRef}
    {input : Option ExecutionInput} {clock : Option Int} {freshId : EntityId .operation}
    {ref : OperationRef}
    (h : j.accept actor request approved input clock freshId = .ok (j', ref)) :
    j' = j ∨ ∃ acceptedAt, Accepts j j' actor request approved input freshId acceptedAt := by
  rcases accept_stamped h with hsame | ⟨-, acceptedAt, -, ha⟩
  · exact .inl hsame
  · exact .inr ⟨acceptedAt, ha⟩

/-! ### Cancellation and delivery -/

/-- The journal after a first cancellation request. -/
def withCancellation (j : Journal) (id : EntityId .operation) (actor : Actor)
    (requestedAt : Utc) : Journal :=
  { j with
    operationControls :=
      j.operationControls.put ⟨id, some (Actor.schema.canonicalJson actor), some requestedAt⟩ }

/-- **A successful `request_cancellation`** finds the operation still running; it changes
nothing when a request is recorded already. -/
theorem requestCancellation_eq_ok {id : String} {actor : Actor} {clock : Option Int}
    {c : ExecutionControl} (h : j.requestCancellation id actor clock = .ok (j', c)) :
    ∃ o, j.operation? id = some o ∧ o.state.terminal = false ∧
      ((j' = j ∧ (j.operationControls.get? o.operationId).isSome = true) ∨
        (j.operationControls.get? o.operationId = none ∧
          ∃ requestedAt, j' = j.withCancellation o.operationId actor requestedAt)) ∧
      j'.controlTx o.operationId = .ok c := by
  unfold requestCancellation at h
  obtain ⟨payload, hp, h⟩ := Results.bind_eq_ok.mp h
  obtain rfl := boundedJson_eq_ok hp
  split at h
  · exact absurd h (by simp [throw, throwThe, MonadExceptOf.throw])
  · rename_i o ho
    obtain ⟨_, hterm, h⟩ := Results.bind_eq_ok.mp h
    refine ⟨o, ho, ensure_eq_ok.mp hterm, ?_⟩
    split at h
    · rename_i row hrow
      obtain ⟨control, hc, h⟩ := Results.bind_eq_ok.mp h
      obtain ⟨rfl, rfl⟩ := Prod.mk.inj (Except.ok.inj h)
      exact ⟨Or.inl ⟨rfl, by simp [hrow]⟩, hc⟩
    · rename_i hrow
      obtain ⟨now, -, h⟩ := Results.bind_eq_ok.mp h
      obtain ⟨requestedAt, -, h⟩ := Results.bind_eq_ok.mp h
      obtain ⟨control, hc, h⟩ := Results.bind_eq_ok.mp h
      obtain ⟨rfl, rfl⟩ := Prod.mk.inj (Except.ok.inj h)
      exact ⟨Or.inr ⟨hrow, requestedAt, rfl⟩, hc⟩

/-- **A successful acknowledgement** stays within the stream. -/
theorem acknowledgeHostEvents_eq_ok {consumerId : String} {cursor : Int} {clock : Option Int}
    {n : Nat} (h : j.acknowledgeHostEvents consumerId cursor clock = .ok (j', n)) :
    ∃ row : DeliveryRow, j' = { j with eventDelivery := j.eventDelivery.put row } ∧
      (row.acknowledgedCursor ≤ j.latestCursor ∨
        ∃ d ∈ j.eventDelivery.rows, row.acknowledgedCursor = d.acknowledgedCursor) := by
  unfold acknowledgeHostEvents at h
  obtain ⟨consumer, -, h⟩ := Results.bind_eq_ok.mp h
  obtain ⟨_, -, h⟩ := Results.bind_eq_ok.mp h
  obtain ⟨_, hle, h⟩ := Results.bind_eq_ok.mp h
  obtain ⟨now, -, h⟩ := Results.bind_eq_ok.mp h
  obtain ⟨at', -, h⟩ := Results.bind_eq_ok.mp h
  obtain ⟨rfl, -⟩ := Prod.mk.inj (Except.ok.inj h)
  refine ⟨_, rfl, ?_⟩
  have hle := ensure_eq_ok.mp hle
  cases hrow : j.eventDelivery.get? consumer with
  | none =>
      left
      simp only [Option.elim_none]
      omega
  | some d =>
      simp only [Option.elim_some]
      rcases le_total d.acknowledgedCursor cursor.toNat with hcase | hcase
      · left
        rw [max_eq_left hcase]
        omega
      · right
        exact ⟨d, Table.mem_of_get? hrow, by rw [max_eq_right hcase]⟩

end Journal

end Ophelia
