import Ophelia.Journal.Accepted
import Mathlib.Data.List.Induction
import Mathlib.Logic.Relation

/-!
# Ophelia.Journal.Calls

The mutating calls of the operation store as data, and runs of them. A call is one
serializable transaction: a rejected call rolls back, so it leaves the journal as it was.
The calls of all clients interleave in some order, which is the order of the list.

Apart from the acknowledgement of host events, every call is a sequence of a few elementary
writes (`Journal.Write`). An invariant of the store is proved write by write.
-/

namespace Ophelia

variable [Platform]

/-- A mutating call of the operation store, with the clock samples and fresh identifiers it
gets. -/
inductive Call where
  | accept (actor : Actor) (request : OperationRequest) (approved : ApprovedPlanRef)
      (input : Option ExecutionInput) (clock : Option Int) (freshId : EntityId .operation)
  | requestCancellation (operationId : String) (actor : Actor) (clock : Option Int)
  | acquireFence (operationId ownerId : String) (ttlSeconds clock : Option Int)
  | heartbeatFence (fence : ExecutionFence) (ttlSeconds clock : Option Int)
  | releaseFence (fence : ExecutionFence) (clock : Option Int)
  | acquireLease (operationId ownerId : String) (ttlSeconds clock : Option Int)
  | heartbeatLease (operationId : EntityId .operation) (ownerId : String) (fencingToken : Int)
      (ttlSeconds clock : Option Int)
  | releaseLease (operationId : EntityId .operation) (ownerId : String) (fencingToken : Int)
      (clock : Option Int)
  | append (event : OperationEvent) (leaseOwner : Option String) (fencingToken clock : Option Int)
  | appendRevisionState (operationId : String) (state : RevisionState) (fence : ExecutionFence)
      (clock : Nat → Option Int)
  | compareAndSwapActiveRevision (operationId : String) (expectedDigest : Option String)
      (fence : ExecutionFence) (clock : Nat → Option Int)
  | commitReceipt (receipt : TerminalReceipt) (leaseOwner : Option String)
      (fencingToken clock : Option Int) (freshId : Nat → EntityId .event)
  | commitSuccess (receipt : TerminalReceipt) (expectedDigest : Option String)
      (fence : ExecutionFence) (clock : Nat → Option Int) (freshId : Nat → EntityId .event)
  | acknowledgeHostEvents (consumerId : String) (cursor : Int) (clock : Option Int)

namespace Call

/-- The journal a call leaves when it succeeds. -/
def run (j : Journal) : Call → Result Journal
  | accept actor request approved input clock freshId =>
      (j.accept actor request approved input clock freshId).map Prod.fst
  | requestCancellation id actor clock => (j.requestCancellation id actor clock).map Prod.fst
  | acquireFence id owner ttl clock => (j.acquireFence id owner ttl clock).map Prod.fst
  | heartbeatFence fence ttl clock => (j.heartbeatFence fence ttl clock).map Prod.fst
  | releaseFence fence clock => (j.releaseFence fence clock).map Prod.fst
  | acquireLease id owner ttl clock => (j.acquireLease id owner ttl clock).map Prod.fst
  | heartbeatLease id owner token ttl clock =>
      (j.heartbeatLease id owner token ttl clock).map Prod.fst
  | releaseLease id owner token clock => (j.releaseLease id owner token clock).map Prod.fst
  | append event owner token clock => (j.append event owner token clock).map Prod.fst
  | appendRevisionState id state fence clock =>
      (j.appendRevisionState id state fence clock).map Prod.fst
  | compareAndSwapActiveRevision id expected fence clock =>
      (j.compareAndSwapActiveRevision id expected fence clock).map Prod.fst
  | commitReceipt receipt owner token clock freshId =>
      (j.commitReceipt receipt owner token clock freshId).map Prod.fst
  | commitSuccess receipt expected fence clock freshId =>
      (j.commitSuccess receipt expected fence clock freshId).map Prod.fst
  | acknowledgeHostEvents consumer cursor clock =>
      (j.acknowledgeHostEvents consumer cursor clock).map Prod.fst

/-- One transaction: committed, or rolled back. -/
def apply (j : Journal) (c : Call) : Journal :=
  match c.run j with
  | .ok j' => j'
  | .error _ => j

/-- The calls with execution fences, without the legacy operation leases and the bare swap
of the active revision. -/
def kernel : Call → Bool
  | acquireLease .. | heartbeatLease .. | releaseLease .. | compareAndSwapActiveRevision .. =>
      false
  | _ => true

/-- The bare swap of the active revision. -/
def bareSwap : Call → Bool
  | compareAndSwapActiveRevision .. => true
  | _ => false

/-- The calls that change active revisions. -/
def swaps : Call → Bool
  | compareAndSwapActiveRevision .. | commitSuccess .. => true
  | _ => false

/-- The calls that append to lifecycles. -/
def transitions : Call → Bool
  | appendRevisionState .. | compareAndSwapActiveRevision .. | commitSuccess .. => true
  | _ => false

/-- The calls that accept operations. -/
def accepts : Call → Bool
  | accept .. => true
  | _ => false

/-- The acknowledgements of host events. -/
def acknowledges : Call → Bool
  | acknowledgeHostEvents .. => true
  | _ => false

/-- The calls that change leases. -/
def leases : Call → Bool
  | acquireFence .. | heartbeatFence .. | releaseFence .. | acquireLease .. | heartbeatLease ..
  | releaseLease .. => true
  | _ => false

end Call

namespace Journal

/-- A sequence of calls, in the order they are serialized. -/
def runCalls (j : Journal) (calls : List Call) : Journal :=
  calls.foldl Call.apply j

variable {j j' : Journal}

/-- An invariant that successful calls keep holds along every run. -/
theorem runCalls_induction {P : Journal → Prop} {allowed : Call → Prop}
    (step : ∀ {j j' : Journal} {c : Call}, allowed c → P j → c.run j = .ok j' → P j')
    {calls : List Call} (hcalls : ∀ c ∈ calls, allowed c) (hj : P j) : P (j.runCalls calls) := by
  induction calls generalizing j with
  | nil => exact hj
  | cons c calls ih =>
      refine ih (fun d hd => hcalls d (by simp [hd])) ?_
      unfold Call.apply
      split
      · rename_i j' hrun
        exact step (hcalls c (by simp)) hj hrun
      · exact hj

theorem runCalls_cons (c : Call) (calls : List Call) :
    j.runCalls (c :: calls) = (c.apply j).runCalls calls := rfl

theorem runCalls_concat (calls : List Call) (c : Call) :
    j.runCalls (calls ++ [c]) = c.apply (j.runCalls calls) := by
  simp [Journal.runCalls]

/-- A property of runs that one more call keeps exactly when it does not break it holds of
every part of a run exactly when no successful call of the run breaks it. -/
theorem parts_iff {P : List Call → Prop} (breaks : Journal → Call → Prop) (nil : P [])
    (step : ∀ done c, P done → (P (done ++ [c]) ↔
      ∀ j', c.run (j.runCalls done) = .ok j' → ¬ breaks (j.runCalls done) c))
    (calls : List Call) :
    (∀ done rest, calls = done ++ rest → P done) ↔
      ∀ done c rest j', calls = done ++ c :: rest → c.run (j.runCalls done) = .ok j' →
        ¬ breaks (j.runCalls done) c := by
  constructor
  · intro hall done c rest j' hcalls hrun
    have hdone := hall done (c :: rest) hcalls
    exact (step done c hdone).mp (hall (done ++ [c]) rest (by simpa using hcalls)) j' hrun
  · intro hnone done
    induction done using List.reverseRec with
    | nil => exact fun _ _ => nil
    | append_singleton done c ih =>
        intro rest hcalls
        have hsplit : calls = done ++ c :: rest := by simpa using hcalls
        refine (step done c (ih (c :: rest) hsplit)).mpr fun j' hrun => ?_
        exact hnone done c rest j' hsplit hrun

theorem map_fst_eq_ok {α : Type} {x : Result (Journal × α)} (h : x.map Prod.fst = .ok j') :
    ∃ a, x = .ok (j', a) := by
  cases x with
  | error e => exact absurd h (by simp [Except.map])
  | ok p =>
      obtain ⟨j₁, a⟩ := p
      obtain rfl : j₁ = j' := by simpa [Except.map] using h
      exact ⟨a, rfl⟩

/-! ### Elementary writes -/

/-- The operation exists, or has a lease already. -/
def Leased (j : Journal) (id : EntityId .operation) : Prop :=
  j.Known id ∨ ∃ l ∈ j.operationLeases.rows, l.operationId = id

/-- One write of a successful call, with what it was checked against. -/
inductive Write : Journal → Journal → Prop where
  | accept {j j' : Journal} {actor : Actor} {request : OperationRequest}
      {approved : ApprovedPlanRef} {input : Option ExecutionInput} {id : EntityId .operation}
      {acceptedAt : Utc} (h : Accepts j j' actor request approved input id acceptedAt) : Write j j'
  | cancel {j : Journal} {id : EntityId .operation} (h : j.Known id) (actor : Actor)
      (requestedAt : Utc) : Write j (j.withCancellation id actor requestedAt)
  | lease {j : Journal} {leases : Table LeaseRow.operationId}
      {scopeLeases : Table ScopeLeaseRow.scope} (hl : ∀ l ∈ leases.rows, j.Leased l.operationId)
      (hs : ∀ l ∈ scopeLeases.rows, j.Known l.operationId ∨ l ∈ j.executionScopeLeases.rows) :
      Write j { j with operationLeases := leases, executionScopeLeases := scopeLeases }
  | active {j : Journal} (actives : Table ActiveRow.scope)
      (atomics : Table AtomicSuccessRow.operationId) :
      Write j { j with activeRevisions := actives, atomicSuccessCommits := atomics }
  | event {j : Journal} {o : OperationRow} {event : OperationEvent} (h : Appends j o event false) :
      Write j (j.withEvent o event (OperationEvent.schema.canonicalJson event))
  | commit {j : Journal} {r : AcceptedRow} {receipt : TerminalReceipt}
      {freshId : Nat → EntityId .event} (hterse : receipt.verification.terse = true)
      (h : Commits j r receipt (j.terminalEvent receipt freshId)) :
      Write j (j.withCommit r receipt (j.terminalEvent receipt freshId))
  | lifecycle {j : Journal} {o : OperationRow} {input : ExecutionInput}
      {entry : RevisionLifecycleEntry} (h : Transitions j o input entry) (fence : ExecutionFence) :
      Write j (j.withLifecycle entry fence)

/-- A write that accepts nothing. -/
inductive Update : Journal → Journal → Prop where
  | cancel {j : Journal} {id : EntityId .operation} (h : j.Known id) (actor : Actor)
      (requestedAt : Utc) : Update j (j.withCancellation id actor requestedAt)
  | lease {j : Journal} {leases : Table LeaseRow.operationId}
      {scopeLeases : Table ScopeLeaseRow.scope} (hl : ∀ l ∈ leases.rows, j.Leased l.operationId)
      (hs : ∀ l ∈ scopeLeases.rows, j.Known l.operationId ∨ l ∈ j.executionScopeLeases.rows) :
      Update j { j with operationLeases := leases, executionScopeLeases := scopeLeases }
  | active {j : Journal} (actives : Table ActiveRow.scope)
      (atomics : Table AtomicSuccessRow.operationId) :
      Update j { j with activeRevisions := actives, atomicSuccessCommits := atomics }
  | event {j : Journal} {o : OperationRow} {event : OperationEvent} (h : Appends j o event false) :
      Update j (j.withEvent o event (OperationEvent.schema.canonicalJson event))
  | commit {j : Journal} {r : AcceptedRow} {receipt : TerminalReceipt}
      {freshId : Nat → EntityId .event} (hterse : receipt.verification.terse = true)
      (h : Commits j r receipt (j.terminalEvent receipt freshId)) :
      Update j (j.withCommit r receipt (j.terminalEvent receipt freshId))
  | lifecycle {j : Journal} {o : OperationRow} {input : ExecutionInput}
      {entry : RevisionLifecycleEntry} (h : Transitions j o input entry) (fence : ExecutionFence) :
      Update j (j.withLifecycle entry fence)

theorem Update.write (h : Update j j') : Write j j' := by
  cases h with
  | cancel h actor requestedAt => exact .cancel h actor requestedAt
  | lease hl hs => exact .lease hl hs
  | active actives atomics => exact .active actives atomics
  | event h => exact .event h
  | commit hterse h => exact .commit hterse h
  | lifecycle h fence => exact .lifecycle h fence

/-- Any number of writes. -/
abbrev WritesTo (j j' : Journal) : Prop := Relation.ReflTransGen Write j j'

/-- Any number of writes that accept nothing. -/
abbrev UpdatesTo (j j' : Journal) : Prop := Relation.ReflTransGen Update j j'

theorem UpdatesTo.writes (h : UpdatesTo j j') : WritesTo j j' :=
  Relation.ReflTransGen.mono (fun _ _ => Update.write) _ _ h

theorem leased_of_mem {l : LeaseRow} (h : l ∈ j.operationLeases.rows) : j.Leased l.operationId :=
  Or.inr ⟨l, h, rfl⟩

theorem leased_put {l : LeaseRow} (h : j.Leased l.operationId) :
    ∀ x ∈ (j.operationLeases.put l).rows, j.Leased x.operationId := by
  intro x hx
  rcases Table.mem_put.mp hx with rfl | ⟨hx, -⟩
  · exact h
  · exact leased_of_mem hx

theorem known_putScopeLease {s : ScopeLeaseRow} (h : j.Known s.operationId) :
    ∀ x ∈ (j.executionScopeLeases.put s).rows,
      j.Known x.operationId ∨ x ∈ j.executionScopeLeases.rows := by
  intro x hx
  rcases Table.mem_put.mp hx with rfl | ⟨hx, -⟩
  · exact Or.inl h
  · exact Or.inr hx

theorem LeaseHeld.leased {id : EntityId .operation} {owner : String} {token now : Int}
    {l : LeaseRow} (hl : LeaseHeld j id owner token now l) : j.Leased l.operationId :=
  leased_of_mem (Table.mem_of_get? hl.row)

theorem ScopeHeld.known {id : EntityId .operation} {owner : String} {token now : Int}
    {o : OperationRow} {s : ScopeLeaseRow} (hs : ScopeHeld j id owner token now o s) :
    j.Known s.operationId := by
  rw [hs.holder]
  exact known_of_get? hs.operation

theorem updatesTo_appendPhaseEvents {receipt : TerminalReceipt}
    {freshId : Nat → EntityId .event} {phases : List (Text 128 × Digests)}
    (hrun : appendPhaseEvents receipt freshId j phases = .ok j') : UpdatesTo j j' :=
  appendPhaseEvents_induction (P := UpdatesTo j) (fun hj happ _ => hj.tail (.event happ)) .refl hrun

theorem appendSuccessPhaseEventsTx_eq_ok {receipt : TerminalReceipt}
    {freshId : Nat → EntityId .event} (h : j.appendSuccessPhaseEventsTx receipt freshId = .ok j') :
    ∃ events, j.verifiedEvents receipt.operationId = .ok events ∧
      (∀ t ∈ COMPLETION_EVENTS, t ∉ events.map (·.eventType.val)) ∧
      Journal.appendPhaseEvents receipt freshId j (successPhases receipt
        ((events.map (·.eventType.val)).contains "phase.commit.started")) = .ok j' := by
  unfold appendSuccessPhaseEventsTx at h
  obtain ⟨events, hevents, h⟩ := Results.bind_eq_ok.mp h
  obtain ⟨_, hnew, h⟩ := Results.bind_eq_ok.mp h
  exact ⟨events, hevents, ensure_eq_ok.mp hnew, h⟩

theorem updatesTo_commitReceiptTx {receipt : TerminalReceipt}
    (hterse : receipt.verification.terse = true) {freshId : Nat → EntityId .event} {b : Bool}
    (hrun : j.commitReceiptTx receipt receipt.canonicalJson freshId = .ok (j', b)) :
    UpdatesTo j j' := by
  rcases commitReceiptTx_eq_ok hrun with ⟨rfl, -⟩ | ⟨r, hc, rfl⟩
  · exact .refl
  · exact .single (.commit hterse hc)

/-- The swap of the active revision, behind its lifecycle entry. -/
theorem updatesTo_swap {o : OperationRow} {input : ExecutionInput}
    {entry : RevisionLifecycleEntry} (h : Transitions j o input entry) (fence : ExecutionFence)
    (active : ActiveRevision) : UpdatesTo j ((j.withLifecycle entry fence).withActive active) :=
  .tail (.single (.lifecycle h fence)) (.active _ _)

/-- What a call that accepts nothing is made of. -/
theorem updatesTo_run {c : Call} (hc : c.accepts = false) (hack : c.acknowledges = false)
    (hrun : c.run j = .ok j') : UpdatesTo j j' := by
  cases c with
  | accept actor request approved input clock freshId => cases hc
  | requestCancellation id actor clock =>
      rw [Call.run] at hrun
      obtain ⟨control, hrun⟩ := map_fst_eq_ok hrun
      obtain ⟨o, ho, -, hcase, -⟩ := requestCancellation_eq_ok hrun
      rcases hcase with ⟨rfl, -⟩ | ⟨-, requestedAt, rfl⟩
      · exact .refl
      · exact .single (.cancel (known_of_get? (operation?_eq_some ho).2) actor requestedAt)
  | acquireFence id owner ttl clock =>
      rw [Call.run] at hrun
      obtain ⟨f, hrun⟩ := map_fst_eq_ok hrun
      obtain ⟨o, now, -, -, -, hg, rfl⟩ := acquireFence_eq_ok hrun
      have hk : j.Known f.operationId := by
        rw [hg.operation]
        exact known_of_get? hg.found
      exact .single (.lease (leased_put (Or.inl hk)) (known_putScopeLease hk))
  | heartbeatFence fence ttl clock =>
      rw [Call.run] at hrun
      obtain ⟨f, hrun⟩ := map_fst_eq_ok hrun
      obtain ⟨l, o, s, now, -, hl, hs, -, -, rfl⟩ := heartbeatFence_eq_ok hrun
      have hk : j.Leased l.operationId := hl.leased
      have hk' : j.Known s.operationId := hs.known
      exact .single (.lease (leased_put hk) (known_putScopeLease hk'))
  | releaseFence fence clock =>
      rw [Call.run] at hrun
      obtain ⟨u, hrun⟩ := map_fst_eq_ok hrun
      obtain ⟨l, o, s, now, -, hl, hs, rfl⟩ := releaseFence_eq_ok hrun
      have hk : j.Leased l.operationId := hl.leased
      have hk' : j.Known s.operationId := hs.known
      exact .single (.lease (leased_put hk) (known_putScopeLease hk'))
  | acquireLease id owner ttl clock =>
      rw [Call.run] at hrun
      obtain ⟨f, hrun⟩ := map_fst_eq_ok hrun
      obtain ⟨o, now, -, ho, -, -, -, -, -, rfl⟩ := acquireLease_eq_ok hrun
      exact .single (.lease (leased_put (Or.inl (known_of_get? ho))) fun _ hs => Or.inr hs)
  | heartbeatLease id owner token ttl clock =>
      rw [Call.run] at hrun
      obtain ⟨f, hrun⟩ := map_fst_eq_ok hrun
      obtain ⟨l, now, -, hl, -, rfl⟩ := heartbeatLease_eq_ok hrun
      have hk : j.Leased l.operationId := hl.leased
      exact .single (.lease (leased_put hk) fun _ hs => Or.inr hs)
  | releaseLease id owner token clock =>
      rw [Call.run] at hrun
      obtain ⟨u, hrun⟩ := map_fst_eq_ok hrun
      obtain ⟨l, now, -, hl, rfl⟩ := releaseLease_eq_ok hrun
      have hk : j.Leased l.operationId := hl.leased
      exact .single (.lease (leased_put hk) fun _ hs => Or.inr hs)
  | append event owner token clock =>
      rw [Call.run] at hrun
      obtain ⟨u, hrun⟩ := map_fst_eq_ok hrun
      obtain ⟨-, o, happ, rfl⟩ := append_eq_ok hrun
      exact .single (.event happ)
  | appendRevisionState id state fence clock =>
      rw [Call.run] at hrun
      obtain ⟨entry, hrun⟩ := map_fst_eq_ok hrun
      obtain ⟨-, -, -, ⟨o, input, ht⟩, rfl⟩ := appendRevisionState_eq_ok hrun
      exact .single (.lifecycle ht fence)
  | compareAndSwapActiveRevision id expected fence clock =>
      rw [Call.run] at hrun
      obtain ⟨active, hrun⟩ := map_fst_eq_ok hrun
      obtain ⟨o, input, entry, -, hs, rfl⟩ := compareAndSwapActiveRevision_eq_ok hrun
      exact updatesTo_swap hs.transitions fence active
  | commitReceipt receipt owner token clock freshId =>
      rw [Call.run] at hrun
      obtain ⟨u, hrun⟩ := map_fst_eq_ok hrun
      obtain ⟨hterse, -, b, hrun⟩ := commitReceipt_eq_ok hrun
      exact updatesTo_commitReceiptTx hterse hrun
  | commitSuccess receipt expected fence clock freshId =>
      rw [Call.run] at hrun
      obtain ⟨active, hrun⟩ := map_fst_eq_ok hrun
      obtain ⟨hterse, -, -, ⟨rfl, -⟩ | ⟨j₁, j₂, j₃, hs, rfl⟩⟩ := commitSuccess_eq_ok hrun
      · exact .refl
      · obtain ⟨events, -, -, hphases⟩ := appendSuccessPhaseEventsTx_eq_ok hs.phases
        obtain ⟨b, hcommit⟩ := hs.committed
        obtain ⟨o, input, entry, -, hswap, -, rfl⟩ := casActiveRevisionTx_eq_ok hs.swapped
        have hfirst := updatesTo_swap hswap.transitions fence active
        have hsecond := hfirst.trans (updatesTo_appendPhaseEvents hphases)
        exact (hsecond.trans (updatesTo_commitReceiptTx hterse hcommit)).tail (.active _ _)
  | acknowledgeHostEvents consumer cursor clock => cases hack

/-- **Every successful call but an acknowledgement is made of writes.** -/
theorem writesTo_run {c : Call} (hc : c.acknowledges = false) (hrun : c.run j = .ok j') :
    WritesTo j j' := by
  cases c with
  | accept actor request approved input clock freshId =>
      rw [Call.run] at hrun
      obtain ⟨ref, hrun⟩ := map_fst_eq_ok hrun
      rcases accept_eq_ok hrun with rfl | ⟨acceptedAt, ha⟩
      · exact .refl
      · exact .single (.accept ha)
  | _ => exact (updatesTo_run rfl hc hrun).writes

/-! ### Coherence along runs -/

theorem Coherent.known_of_leased (h : Coherent j) {id : EntityId .operation} (hl : j.Leased id) :
    j.Known id := by
  rcases hl with hk | ⟨l, hl, rfl⟩
  · exact hk
  · exact h.leases l hl

theorem Coherent.withActive (h : Coherent j) (active : ActiveRevision) :
    Coherent (j.withActive active) :=
  h.withActives (j.activeRevisions.put (activeRow active)) j.atomicSuccessCommits

theorem Coherent.write (h : Coherent j) (hw : Write j j') : Coherent j' := by
  cases hw with
  | accept ha => exact ha.coherent h
  | cancel hk actor requestedAt => exact h.withCancellation hk actor requestedAt
  | lease hl hs =>
      exact h.withLeases (fun l hmem => h.known_of_leased (hl l hmem))
        fun l hmem => (hs l hmem).elim id (h.scopeLeases l)
  | active actives atomics => exact h.withActives actives atomics
  | event happ => exact h.withEvent happ
  | commit hterse hc => exact h.withCommit hterse hc
  | lifecycle ht fence => exact h.withLifecycle ht

theorem Coherent.writesTo (h : Coherent j) (hw : WritesTo j j') : Coherent j' := by
  induction hw with
  | refl => exact h
  | tail _ hstep ih => exact ih.write hstep

/-- An acknowledgement writes the cursor of a consumer. -/
theorem delivery_run {c : Call} (hack : c.acknowledges = true) (hrun : c.run j = .ok j') :
    ∃ row : DeliveryRow, j' = { j with eventDelivery := j.eventDelivery.put row } ∧
      (row.acknowledgedCursor ≤ j.latestCursor ∨
        ∃ d ∈ j.eventDelivery.rows, row.acknowledgedCursor = d.acknowledgedCursor) := by
  cases c with
  | acknowledgeHostEvents consumer cursor clock =>
      rw [Call.run] at hrun
      obtain ⟨n, hrun⟩ := map_fst_eq_ok hrun
      exact acknowledgeHostEvents_eq_ok hrun
  | _ => cases hack

/-- **Every successful call keeps the journal coherent.** -/
theorem Coherent.run (h : Coherent j) {c : Call} (hrun : c.run j = .ok j') : Coherent j' := by
  cases hc : c.acknowledges with
  | false => exact h.writesTo (writesTo_run hc hrun)
  | true =>
      obtain ⟨row, rfl, hrow⟩ := delivery_run hc hrun
      refine h.withDelivery ?_
      rcases hrow with hrow | ⟨d, hd, hrow⟩
      · exact hrow
      · rw [hrow]
        exact h.delivery d hd

/-- **Coherence along every run of every call.** -/
theorem Coherent.runCalls (h : Coherent j) (calls : List Call) : Coherent (j.runCalls calls) :=
  runCalls_induction (fun _ hj hrun => hj.run hrun) (fun _ _ => trivial) h

end Journal

end Ophelia
