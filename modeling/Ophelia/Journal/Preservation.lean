import Ophelia.Journal.Coherence

/-!
# Ophelia.Journal.Preservation

The writes that touch several tables keep the journal coherent: appending an event,
committing a receipt with its terminal event, appending a lifecycle entry, and accepting an
operation.
-/

namespace Ophelia

variable [Platform]

namespace Journal

variable {j j' : Journal} {id : EntityId .operation}

/-! ### Appending an event -/

section Events

variable {o : OperationRow} {event : OperationEvent} {b : Bool} {t : String}

theorem Appends.operationId (happ : Appends j o event b) : o.operationId = event.operationId :=
  Table.key_of_get? happ.found

theorem operations_withEvent (happ : Appends j o event b) :
    (j.withEvent o event t).operations.get? event.operationId =
      some { o with state := event.state } := by
  rw [← happ.operationId]
  exact Table.get?_put_self j.operations { o with state := event.state }

theorem operations_withEvent_ne (happ : Appends j o event b) (hne : id ≠ event.operationId) :
    (j.withEvent o event t).operations.get? id = j.operations.get? id := by
  refine Table.get?_put_ne _ ?_
  show id ≠ o.operationId
  rwa [happ.operationId]

theorem extends_withEvent (happ : Appends j o event b) :
    Extends j (j.withEvent o event t) := by
  refine ⟨fun h => h, fun h => h, ?_, fun _ => rfl⟩
  intro id o' ho'
  by_cases hid : id = event.operationId
  · subst hid
    rw [happ.found] at ho'
    obtain rfl := Option.some.inj ho'
    exact ⟨event.state, operations_withEvent happ⟩
  · refine ⟨o'.state, ?_⟩
    rw [operations_withEvent_ne happ hid]
    exact ho'

theorem acceptedRow?_withEvent_ne (happ : Appends j o event b) (hne : id ≠ event.operationId) :
    (j.withEvent o event t).acceptedRow? id = j.acceptedRow? id := by
  unfold acceptedRow?
  rw [operations_withEvent_ne happ hne]
  rfl

theorem acceptedRow?_withEvent (happ : Appends j o event b) {r : AcceptedRow}
    (hr : j.acceptedRow? event.operationId = some r) :
    r.operation = o ∧
      (j.withEvent o event t).acceptedRow? event.operationId =
        some (r.inState event.state) := by
  obtain ⟨ho, ha, hp⟩ := acceptedRow?_eq_some.mp hr
  obtain rfl : r.operation = o := by
    rw [happ.found] at ho
    exact (Option.some.inj ho).symm
  exact ⟨rfl, acceptedRow?_eq_some.mpr ⟨operations_withEvent happ, ha, hp⟩⟩

/-- The cursor of the host stream moves by one. -/
theorem latestCursor_withEvent (happ : Appends j o event b) :
    (j.withEvent o event t).latestCursor = j.latestCursor + 1 := by
  have hrows := Table.rows_put_of_get?_none (t := j.hostEvents)
    (r := { cursor := j.latestCursor + 1, eventId := event.eventId, eventType := .operation,
            operationId := some event.operationId, workloadRunId := none,
            eventDigest := OperationEvent.schema.digest event, occurredAt := event.occurredAt,
            payloadJson := t }) happ.freeCursor
  have hmax : ∀ (l : List Nat) (n : Nat), (l ++ [n]).foldr max 0 = max (l.foldr max 0) n := by
    intro l n
    induction l with
    | nil => simp
    | cons x l ih =>
        rw [List.cons_append, List.foldr_cons, ih, List.foldr_cons, max_assoc]
  unfold latestCursor withEvent
  simp only
  rw [hrows, List.map_append, List.map_singleton, hmax]
  exact max_eq_right (Nat.le_succ _)

theorem mirror_withEvent (hm : Mirror j) (happ : Appends j o event b) :
    Mirror (j.withEvent o event t) := by
  have hext := extends_withEvent (t := t) happ
  have hknown : (j.withEvent o event t).Known event.operationId :=
    known_of_get? (operations_withEvent happ)
  refine ⟨?_, ?_, ?_, ?_⟩
  · intro e he e' he' heq
    rcases Table.mem_put.mp he with rfl | ⟨he, -⟩ <;>
    rcases Table.mem_put.mp he' with rfl | ⟨he', -⟩
    · rfl
    · exact absurd heq.symm (happ.eventId e' he')
    · exact absurd heq (happ.eventId e he)
    · exact hm.eventIds e he e' he' heq
  · intro h hh
    rcases Table.mem_put.mp hh with rfl | ⟨hh, -⟩
    · exact ⟨rfl, rfl, event.operationId, rfl, hknown⟩
    · obtain ⟨ht, hw, id, hid, hk⟩ := hm.shape h hh
      exact ⟨ht, hw, id, hid, hext.known hk⟩
  · intro h hh
    rcases Table.mem_put.mp hh with rfl | ⟨hh, -⟩
    · exact ⟨_, Table.mem_put.mpr (Or.inl rfl), rfl, rfl, rfl⟩
    · obtain ⟨e, he, heq⟩ := hm.mirrored h hh
      refine ⟨e, Table.mem_put.mpr (Or.inr ⟨he, fun hk => ?_⟩), heq⟩
      have hfree := Table.get?_eq_none.mp happ.free e he
      exact hfree hk
  · unfold withEvent
    simp only
    rw [Table.rows_put_of_get?_none happ.freeCursor, Table.rows_put_of_get?_none happ.free,
      List.length_append, List.length_append, hm.count]
    rfl

/-- The journal with another table of receipts. -/
def withReceipts (j : Journal) (receipts : Table ReceiptRow.receiptId) : Journal :=
  { j with terminalReceipts := receipts }

theorem extends_withReceipts (j : Journal) (receipts : Table ReceiptRow.receiptId) :
    Extends j (j.withReceipts receipts) :=
  ⟨fun h => h, fun h => h, fun {_ o} h => ⟨o.state, h⟩, fun _ => rfl⟩

/-- The operations of the journal are those from before the event. -/
theorem known_of_known_withEvent (happ : Appends j o event b)
    (hk : (j.withEvent o event t).Known id) : j.Known id := by
  by_cases hid : id = event.operationId
  · subst hid
    exact known_of_get? happ.found
  · unfold Known at hk ⊢
    rwa [operations_withEvent_ne happ hid] at hk

/-- Everything but the history of the operation survives an event, and receipts of other
operations may not change with it. -/
theorem Coherent.withEvent_of_history (h : Coherent j) (happ : Appends j o event b)
    (receipts : Table ReceiptRow.receiptId)
    (hreceipts : ∀ r ∈ receipts.rows, j.Known r.operationId)
    (hother : ∀ id, id ≠ event.operationId →
      (j.withReceipts receipts).receipt? id = j.receipt? id)
    (hhist : ∃ events, ((j.withEvent o event t).withReceipts receipts).verifiedEvents
      event.operationId = .ok events) :
    Coherent ((j.withEvent o event t).withReceipts receipts) := by
  have hext : Extends j ((j.withEvent o event t).withReceipts receipts) :=
    (extends_withEvent happ).trans (extends_withReceipts _ _)
  refine ⟨h.plans, fun i hi => hext.known (h.idempotency i hi), ?_,
    fun l hl => hext.known (h.leases l hl), fun l hl => hext.known (h.scopeLeases l hl),
    fun r hr => hext.known (hreceipts r hr), ?_,
    (mirror_withEvent h.mirror happ).mono rfl rfl fun hk => hk, ?_, ?_, ?_, ?_, ?_, h.daemon⟩
  · intro e he
    rcases Table.mem_put.mp he with rfl | ⟨he, -⟩
    · exact hext.known (known_of_get? happ.found)
    · exact hext.known (h.events e he)
  · intro id hk
    by_cases hid : id = event.operationId
    · subst hid
      exact hhist
    · have hsame : ((j.withEvent o event t).withReceipts receipts).verifiedEvents id =
          j.verifiedEvents id :=
        verifiedEvents_congr (acceptedRow?_withEvent_ne (t := t) happ hid)
          (eventRows_withEvent_ne (t := t) happ (Ne.symm hid)) (hother id hid)
      rw [hsame]
      exact h.history (known_of_known_withEvent (t := t) happ hk)
  · intro d hd
    refine le_trans (h.delivery d hd) ?_
    exact le_of_lt (by rw [← Nat.succ_le_iff]; exact (latestCursor_withEvent happ).ge)
  · intro i hi
    obtain ⟨input, hinput⟩ := h.inputs i hi
    exact ⟨input, hext.loadExecutionInputTx hinput⟩
  · intro c hc
    obtain ⟨hk, control, hcontrol⟩ := h.controls c hc
    exact ⟨hext.known hk, control, (controlTx_congr hk (hext.known hk) rfl rfl).trans hcontrol⟩
  · intro id hk
    exact h.lifecycle (known_of_known_withEvent (t := t) happ hk)
  · intro row hrow
    obtain ⟨input, history, hinput, hhistory, hbinds⟩ := h.bound row hrow
    exact ⟨input, history, hext.loadExecutionInputTx hinput, hhistory, hbinds⟩

/-- Operations that are not terminal have no receipt. -/
theorem Coherent.receipt?_eq_none (h : Coherent j) (ho : j.operations.get? id = some o)
    (hterm : o.state.terminal = false) : j.receipt? id = none := by
  obtain ⟨r, claims, events, p, hh⟩ := h.exists_history (known_of_get? ho)
  have hr := (acceptedRow?_eq_some.mp hh.accepted).1
  obtain rfl : r.operation = o := by
    rw [ho] at hr
    exact (Option.some.inj hr).symm
  cases hreceipt : j.receipt? id with
  | none => rfl
  | some row =>
      have hagree := hh.receipt
      rw [hreceipt] at hagree
      obtain ⟨receipt, -, hrec⟩ := hagree
      have hterm' : r.operation.state.terminal = true := by
        unfold receiptReconciles at hrec
        tauto
      rw [hterm] at hterm'
      exact absurd hterm' (by simp)

/-- **Appending a nonterminal event** extends the history by the event as it is read
back. -/
theorem History.withEvent (h : Coherent j) (happ : Appends j o event false) {r : AcceptedRow}
    {claims : AcceptedClaims} {events : List OperationEvent} {p : Nat × Option Digest}
    (hh : History j event.operationId r claims events p) :
    History (j.withEvent o event (OperationEvent.schema.canonicalJson event)) event.operationId
      (r.inState event.state) claims (events ++ [event.masked])
      (p.1 + 1, some (OperationEvent.schema.digest event)) := by
  obtain ⟨rfl, haccepted⟩ := acceptedRow?_withEvent
    (t := OperationEvent.schema.canonicalJson event) happ hh.accepted
  have hnone := h.receipt?_eq_none happ.found happ.nonterminal
  have hagree := hh.receipt
  rw [hnone] at hagree
  have hterm := happ.state_nonterminal
  refine ⟨haccepted, hh.verified, ?_, by simp [AcceptedRow.inState, OperationEvent.masked], ?_⟩
  · exact verifyChain_withEvent happ happ.operationId hh.chain
  · rw [show (j.withEvent r.operation event
      (OperationEvent.schema.canonicalJson event)).receipt? event.operationId =
        j.receipt? event.operationId from rfl, hnone]
    refine ⟨hterm, fun e he => ?_⟩
    rcases List.mem_append.mp he with he | he
    · exact hagree.2 e he
    · obtain rfl := List.mem_singleton.mp he
      exact hterm

theorem Coherent.withEvent (h : Coherent j) (happ : Appends j o event false) :
    Coherent (j.withEvent o event (OperationEvent.schema.canonicalJson event)) := by
  obtain ⟨r, claims, events, p, hh⟩ := h.exists_history (known_of_get? happ.found)
  exact h.withEvent_of_history happ j.terminalReceipts h.receipts (fun _ _ => rfl)
    ⟨_, verifiedEvents_eq_ok.mpr ⟨_, _, _, hh.withEvent h happ⟩⟩

end Events

/-! ### Committing a receipt -/

section Receipts

variable {r : AcceptedRow} {receipt : TerminalReceipt} {event : OperationEvent}
  {freshId : Nat → EntityId .event}

theorem receipt?_withReceipt (hfree : j.terminalReceipts.get? receipt.receiptId = none)
    (hnone : j.receipt? receipt.operationId = none) :
    (j.withReceipt receipt).receipt? receipt.operationId = some (receiptRow receipt) := by
  have hrows := Table.rows_put_of_get?_none (t := j.terminalReceipts) (r := receiptRow receipt)
    hfree
  unfold receipt? at hnone ⊢
  unfold withReceipt
  rw [hrows, List.find?_append, hnone]
  simp [receiptRow]

theorem receipt?_withReceipt_ne (hfree : j.terminalReceipts.get? receipt.receiptId = none)
    (hne : id ≠ receipt.operationId) : (j.withReceipt receipt).receipt? id = j.receipt? id := by
  have hrows := Table.rows_put_of_get?_none (t := j.terminalReceipts) (r := receiptRow receipt)
    hfree
  unfold receipt? withReceipt
  rw [hrows, List.find?_append]
  simp [receiptRow, Ne.symm hne]

omit [Platform] in
/-- Digests are stored as they are. -/
theorem stored_digest (d : Digest) : (mask (Codec.digest.enc d)).sortKeys = .str d.val := by
  show (mask (.str d.val)).sortKeys = .str d.val
  rw [mask, maskText_eq_self (not_secret_of_isSha256 d.ok)]
  simp [Json.sortKeys]

omit [Platform] in
theorem stored_digests (name : String) (d : Digests) :
    (mask ((Codec.digests name).enc d)).sortKeys = .arr (d.1.map fun x => .str x.val) := by
  show (mask (.arr (d.1.map Codec.digest.enc))).sortKeys = _
  rw [mask, maskItems_eq, List.map_map, Json.sortKeys, Json.sortKeysItems_eq, List.map_map]
  have hfun : (Json.sortKeys ∘ mask ∘ Codec.digest.enc) = fun x : Digest => Json.str x.val :=
    funext stored_digest
  rw [hfun]

/-- What the plan claims in the journal say about the desired revision. -/
theorem bindReceipt_eq_ok {claims : AcceptedClaims}
    (hclaims : verifiedAcceptanceClaims r = .ok claims) (h : bindReceipt r receipt = .ok ()) :
    receipt.operation = r.operation.operationClass ∧ receipt.planId = r.approval.planId ∧
      receipt.planDigest = r.plan.planDigest ∧ receipt.decisionId = r.operation.decisionId ∧
      receipt.hostId = r.operation.hostId ∧ receipt.app = r.operation.app ∧
      receipt.environment = r.operation.environment ∧
      receipt.desiredRevisionId = r.operation.revisionId ∧
      receipt.desiredRevisionDigest = claims.approval.revisionDigest ∧
      receipt.artifactDigests = claims.approval.artifactDigests := by
  obtain ⟨-, hrec⟩ := verifiedAcceptanceClaims_eq_ok.mp hclaims
  have htext := hrec.2.2.1
  rw [ApprovedPlanRef.canonicalJson_planClaims] at htext
  have hholds := ApprovedPlanRef.claimsSchema.holds claims.approval
  unfold bindReceipt at h
  rw [← htext, jsonLoads_canonicalJson] at h
  obtain ⟨payload, hpayload, h⟩ := Results.bind_eq_ok.mp h
  obtain rfl := Except.ok.inj hpayload
  obtain ⟨_, hident, h⟩ := Results.bind_eq_ok.mp h
  obtain ⟨rd, hrd, h⟩ := Results.bind_eq_ok.mp h
  obtain ⟨_, hrevision, h⟩ := Results.bind_eq_ok.mp h
  obtain ⟨ad, had, h⟩ := Results.bind_eq_ok.mp h
  have hartifacts := ensure_eq_ok.mp h
  obtain ⟨h₁, h₂, h₃, h₄, h₅, h₆, h₇, h₈⟩ := ensure_eq_ok.mp hident
  have hrevision := ensure_eq_ok.mp hrevision
  have hget : ∀ {key : String} {v w : Json}, (key, w) ∈
      ApprovedPlanRef.claimsSchema.fields claims.approval →
      item (ApprovedPlanRef.claimsSchema.toDict claims.approval).sortKeys key = .ok v →
      v = (mask w).sortKeys := by
    intro key v w hmem hitem
    simp only [item, hholds (key, w) hmem] at hitem
    exact (Except.ok.inj hitem).symm
  refine ⟨h₁, h₂, h₃, h₄, h₅, h₆, h₇, h₈, ?_, ?_⟩
  · rw [hget (w := Codec.digest.enc claims.approval.revisionDigest)
      (by simp [ApprovedPlanRef.claimsSchema]) hrd, stored_digest] at hrevision
    exact Refined.val_inj.mp (Json.str.inj hrevision)
  · rw [hget (w := (Codec.digests "artifact_digests").enc claims.approval.artifactDigests)
      (by simp [ApprovedPlanRef.claimsSchema]) had, stored_digests] at hartifacts
    apply Subtype.ext
    refine List.map_injective_iff.mpr ?_ (Json.arr.inj hartifacts)
    intro d d' hdd
    exact Refined.val_inj.mp (Json.str.inj hdd)

omit [Platform] in
/-- A text without slashes is not masked. -/
theorem text128_masked {t : Text 128} (h : '/' ∉ t.val.toList) : Codec.text128.masked t = t :=
  Refined.ext (maskText_eq_self (not_secret_of_no_slash h))

/-- The terminal event of a receipt is read back as it was written. -/
theorem terminalEvent_masked (j : Journal) (receipt : TerminalReceipt)
    (freshId : Nat → EntityId .event) :
    (j.terminalEvent receipt freshId).masked = j.terminalEvent receipt freshId := by
  have htype : Codec.text128.masked (j.terminalEvent receipt freshId).eventType =
      (j.terminalEvent receipt freshId).eventType :=
    text128_masked (t := ⟨"operation.terminal", by decide⟩) (by decide)
  unfold OperationEvent.masked
  rw [htype]
  rfl

/-- **Committing a receipt** ends the history with the terminal event, and the receipt
reconciles with it. -/
theorem History.withCommit (hterse : receipt.verification.terse = true)
    (hc : Commits j r receipt (j.terminalEvent receipt freshId)) {r' : AcceptedRow}
    {claims : AcceptedClaims} {events : List OperationEvent} {p : Nat × Option Digest}
    (hh : History j receipt.operationId r' claims events p) :
    History (j.withCommit r receipt (j.terminalEvent receipt freshId)) receipt.operationId
      (r.inState receipt.outcome.state) claims (events ++ [j.terminalEvent receipt freshId])
      (p.1 + 1, some (OperationEvent.schema.digest (j.terminalEvent receipt freshId))) := by
  obtain rfl : r' = r := by
    have := hh.accepted
    rw [hc.accepted] at this
    exact (Option.some.inj this).symm
  have hmask := terminalEvent_masked j receipt freshId
  set event := j.terminalEvent receipt freshId with hevent
  have hid : event.operationId = receipt.operationId := rfl
  obtain ⟨-, haccepted⟩ := acceptedRow?_withEvent
    (t := OperationEvent.schema.canonicalJson event) hc.appends (r := r') hc.accepted
  have hbind := bindReceipt_eq_ok hh.verified hc.binds
  have hagree := hh.receipt
  rw [hc.noReceipt] at hagree
  have hchain := verifyChain_withEvent hc.appends hc.appends.operationId hh.chain
  rw [hmask] at hchain
  refine ⟨haccepted, hh.verified, hchain, by simp [AcceptedRow.inState, hevent, terminalEvent], ?_⟩
  have hreceipt : (j.withCommit r' receipt event).receipt? receipt.operationId =
      some (receiptRow receipt) :=
    receipt?_withReceipt (j := j.withEvent r'.operation event
      (OperationEvent.schema.canonicalJson event)) hc.free hc.noReceipt
  rw [hreceipt]
  refine ⟨receipt.masked, receiptFromJson_canonicalJson hterse, ?_⟩
  obtain ⟨h₁, h₂, h₃, h₄, h₅, h₆, h₇, h₈, h₉, h₁₀⟩ := hbind
  have hdecision : claims.approval.decisionId = r'.operation.decisionId := by
    have := (verifiedAcceptanceClaims_eq_ok.mp hh.verified).2
    unfold acceptanceReconciles at this
    tauto
  have hop : r'.operation.operationId = receipt.operationId := hc.appends.operationId
  have hfilter : (events.filter fun e => e.state.terminal) = [] := by
    rw [List.filter_eq_nil_iff]
    intro e he
    simp [hagree.2 e he]
  have hstate : event.state = receipt.outcome.state := rfl
  have hterm := ReceiptOutcome.terminal_state receipt.outcome
  refine ⟨by simp [receiptRow], by simp [receiptRow], rfl, hop.symm, rfl, h₁, h₂, h₃, h₄, h₅, h₆,
    h₇, h₈, h₉, h₁₀, hdecision.trans h₄.symm, hterm, rfl, ?_, ?_⟩
  · rw [List.filter_append, hfilter, List.filter_cons_of_pos (by rw [hstate]; exact hterm)]
    rfl
  · rw [List.getLast?_concat]
    simp [AcceptedRow.inState, hevent, terminalEvent, hterm, TerminalReceipt.masked,
      ReceiptClaims.masked]

theorem extends_withCommit (hc : Commits j r receipt event) :
    Extends j (j.withCommit r receipt event) :=
  (extends_withEvent hc.appends).trans (extends_withReceipts _ _)

theorem Coherent.withCommit (h : Coherent j) (hterse : receipt.verification.terse = true)
    (hc : Commits j r receipt (j.terminalEvent receipt freshId)) :
    Coherent (j.withCommit r receipt (j.terminalEvent receipt freshId)) := by
  obtain ⟨r', claims, events, p, hh⟩ := h.exists_history (known_of_acceptedRow? hc.accepted)
  refine h.withEvent_of_history hc.appends _ ?_ ?_
    ⟨_, verifiedEvents_eq_ok.mpr ⟨_, _, _, hh.withCommit hterse hc⟩⟩
  · intro row hrow
    rcases Table.mem_put.mp hrow with rfl | ⟨hrow, -⟩
    · exact known_of_acceptedRow? hc.accepted
    · exact h.receipts row hrow
  · intro id hid
    exact receipt?_withReceipt_ne hc.free hid

end Receipts

/-! ### Appending to a lifecycle -/

section Lifecycle

variable {o : OperationRow} {input : ExecutionInput} {entry : RevisionLifecycleEntry}
  {fence : ExecutionFence}

theorem extends_withLifecycle (j : Journal) (entry : RevisionLifecycleEntry)
    (fence : ExecutionFence) : Extends j (j.withLifecycle entry fence) :=
  ⟨fun h => h, fun h => h, fun {_ o} h => ⟨o.state, h⟩, fun _ => rfl⟩

/-- Every entry of a lifecycle names the revision of the operation's input. -/
theorem Coherent.historyBinds (h : Coherent j) {input : ExecutionInput}
    (hi : j.loadExecutionInputTx id = .ok input) {history : List RevisionLifecycleEntry}
    (hh : j.verifiedRevisionHistory id = .ok history) : historyBinds input history = true := by
  cases hrows : j.lifecycleRows id with
  | nil =>
      obtain ⟨p, hwalk⟩ := verifiedRevisionHistory_eq_ok.mp hh
      rw [hrows] at hwalk
      obtain ⟨rfl, -⟩ := Prod.mk.inj (Except.ok.inj hwalk)
      rfl
  | cons row rows =>
      have hmem : row ∈ j.lifecycleRows id := by simp [hrows]
      obtain ⟨hrow, hop⟩ := Table.mem_log.mp hmem
      obtain ⟨input', history', hinput', hhistory', hbinds⟩ := h.bound row hrow
      rw [hop] at hinput' hhistory'
      rw [hi] at hinput'
      rw [hh] at hhistory'
      rwa [Except.ok.inj hinput', Except.ok.inj hhistory']

theorem Coherent.withLifecycle (h : Coherent j) (ht : Transitions j o input entry) :
    Coherent (j.withLifecycle entry fence) := by
  have hk : j.Known entry.operationId := known_of_get? ht.found
  obtain ⟨history, hhistory⟩ := h.lifecycle hk
  have hnew := verifiedRevisionHistory_withLifecycle (f := fence) ht hhistory
  refine ⟨h.plans, h.idempotency, h.events, h.leases, h.scopeLeases, h.receipts, h.history,
    h.mirror.mono rfl rfl fun hk => hk, h.delivery, h.inputs, h.controls, ?_, ?_, h.daemon⟩
  · intro id hk
    by_cases hid : entry.operationId = id
    · subst hid
      exact ⟨_, hnew⟩
    · rw [verifiedRevisionHistory_congr (lifecycleRows_withLifecycle_ne ht hid)]
      exact h.lifecycle hk
  · intro row hrow
    by_cases hid : entry.operationId = row.operationId
    · rw [← hid]
      refine ⟨input, _, ht.loaded, hnew, ?_⟩
      have hold := h.historyBinds ht.loaded hhistory
      unfold Journal.historyBinds at hold ⊢
      rw [List.all_append, hold]
      simp [ht.revisionId, ht.revisionDigest]
    · rcases Table.mem_put.mp hrow with rfl | ⟨hrow, -⟩
      · exact absurd rfl hid
      · obtain ⟨input', history', hinput, hhist, hbinds⟩ := h.bound row hrow
        refine ⟨input', history', hinput, ?_, hbinds⟩
        rw [verifiedRevisionHistory_congr (lifecycleRows_withLifecycle_ne ht hid)]
        exact hhist

end Lifecycle

end Journal

end Ophelia
