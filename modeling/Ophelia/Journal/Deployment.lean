import Ophelia.Journal.Inputs

/-!
# Ophelia.Journal.Deployment

What the holder of a fence can get done. The other modules say what a successful call has done;
here a call is shown to succeed. The first fence of a scope is granted, the states of a revision
are appended along every permitted path, a ready candidate is swapped in, and a receipt that
binds its operation is committed together with the phases, the terminal event and the marker.
-/

namespace Ophelia

variable [Platform]

theorem Call.apply_ok {j j' : Journal} {c : Call} (h : c.run j = .ok j') : c.apply j = j' := by
  unfold apply
  rw [h]

namespace Journal

variable {j j' : Journal}

/-- The fence of a new operation in a scope nobody has fenced. -/
theorem acquireFence_first {o : OperationRow} (owner : Text 255) {t now : Int}
    (ho : j.operations.get? o.operationId = some o) (hterm : o.state.terminal = false)
    (ht : 0 < t ∧ t ≤ 86400 * Platform.second) (hleases : j.operationLeases.rows = [])
    (hscope : j.executionScopeLeases.get? o.scope = none) :
    j.acquireFence o.operationId.val owner.val (some t) (some now) =
      .ok (j.withFence o.scope ⟨o.operationId, owner, ⟨1, Nat.one_pos⟩, Platform.addSeconds now t⟩,
        ⟨o.operationId, owner, ⟨1, Nat.one_pos⟩, Platform.addSeconds now t⟩) := by
  have hvalid : validateLeaseInput owner.val (some t) = .ok (owner, t) := by
    unfold validateLeaseInput
    rw [requireText_val, Result.ok_bind]
    exact Results.bind_ok (ensure_of ht) rfl
  have hfound : j.requireNonterminalOperation o.operationId.val = .ok o := by
    simp [requireNonterminalOperation, operation?_val, ho, hterm]
  have hnone : j.operationLeases.get? o.operationId = none := by
    rw [Table.get?_eq_none, hleases]
    simp
  have hforeign : j.foreignLease o owner now = false := by
    simp [foreignLease, hleases]
  have hmax : j.maxScopeToken o.scope = 0 := by
    simp [maxScopeToken, scopeTokens, hleases]
  simp only [acquireFence, hvalid, hfound, Result.ok_bind, clockSample, hnone, hforeign, hscope]
  simp [ensure, scopeToken, hmax, withFence]
  rfl

/-! ### What the holder of a fence may append -/

/-- A lifecycle entry fits. -/
theorem RevisionLifecycleEntry.length_canonicalJson_le (e : RevisionLifecycleEntry)
    (hseq : (Codec.positive.enc e.sequence).weight ≤ 20)
    (hat : Json.textWeight e.occurredAt.val ≤ 2000) :
    (RevisionLifecycleEntry.schema.canonicalJson e).toList.length ≤ 65536 := by
  refine Nat.le_trans (RevisionLifecycleEntry.schema.length_canonicalJson_le e) ?_
  have hkeys : RevisionLifecycleEntry.schema.keysWeight ≤ 3000 := by
    simp only [Schema.keysWeight, RevisionLifecycleEntry.schema]
    decide
  have hstate : (RevisionState.codec.enc e.state).weight ≤ 300 := by
    cases e.state <;> decide
  have hvalues : RevisionLifecycleEntry.schema.valuesWeight e ≤ _ :=
    Nat.add_le_add (Codec.weight_entityId_le e.operationId) <| Nat.add_le_add hseq <|
    Nat.add_le_add (Codec.weight_entityId_le e.revisionId) <|
    Nat.add_le_add (Codec.weight_digest e.revisionDigest).le <|
    Nat.add_le_add hstate <| Nat.add_le_add hat (Nat.le_refl 0)
  omega

/-- An active revision fits. -/
theorem ActiveRevision.length_canonicalJson_le (a : ActiveRevision)
    (hgen : (Codec.positive.enc a.generation).weight ≤ 20)
    (hat : Json.textWeight a.updatedAt.val ≤ 2000) :
    (ActiveRevision.schema.canonicalJson a).toList.length ≤ 65536 := by
  refine Nat.le_trans (ActiveRevision.schema.length_canonicalJson_le a) ?_
  have hkeys : ActiveRevision.schema.keysWeight ≤ 3000 := by
    simp only [Schema.keysWeight, ActiveRevision.schema]
    decide
  have hvalues : ActiveRevision.schema.valuesWeight a ≤ _ :=
    Nat.add_le_add (Codec.weight_entityId_le a.scope.hostId) <|
    Nat.add_le_add (Codec.weight_slug_le a.scope.app) <|
    Nat.add_le_add (Codec.weight_slug_le a.scope.environment) <|
    Nat.add_le_add (Codec.weight_entityId_le a.operationId) <|
    Nat.add_le_add (Codec.weight_entityId_le a.revisionId) <|
    Nat.add_le_add (Codec.weight_digest a.revisionDigest).le <|
    Nat.add_le_add hgen <| Nat.add_le_add hat (Nat.le_refl 0)
  omega

omit [Platform] in
theorem weight_digit {n : Pos} (h : n.1 < 10) : (Codec.positive.enc n).weight ≤ 20 := by
  have hdigit : ∀ n : Nat, n < 10 → (Json.int n).weight ≤ 20 := by decide
  exact hdigit n.1 h

theorem timestamp_val {now d : Int} {u : Utc} (hnow : Platform.fromTimestamp now = some d)
    (h : timestamp now = .ok u) : u.val = Platform.isoformat d := by
  unfold timestamp at h
  split at h
  · rename_i d' hd'
    rw [hnow] at hd'
    rw [← Except.ok.inj h, Option.some.inj hd']
  · exact absurd h (by simp)

/-- An operation whose fence is held at a moment, with the lifecycle it has so far. -/
structure Executing (j : Journal) (fence : ExecutionFence) (now : Int)
    (history : List RevisionLifecycleEntry) : Prop where
  coherent : Coherent j
  held : j.assertExecutionFence fence.operationId.val fence (some now) = .ok ()
  operation : ∃ o, j.operations.get? fence.operationId = some o ∧ o.state.terminal = false
  loaded : ∃ input, j.loadExecutionInputTx fence.operationId = .ok input
  history : j.verifiedRevisionHistory fence.operationId = .ok history

section Executing

variable {fence : ExecutionFence} {now d : Int} {history : List RevisionLifecycleEntry}

theorem Executing.withLifecycle (h : Executing j fence now history) {o : OperationRow}
    {input : ExecutionInput} {entry : RevisionLifecycleEntry} (ht : Transitions j o input entry)
    (hop : entry.operationId = fence.operationId) :
    Executing (j.withLifecycle entry fence) fence now (history ++ [entry]) := by
  obtain ⟨input', hinput⟩ := h.loaded
  refine ⟨h.coherent.withLifecycle ht, h.held, h.operation,
    ⟨input', (extends_withLifecycle j entry fence).loadExecutionInputTx hinput⟩, ?_⟩
  have hhistory := h.history
  rw [← hop] at hhistory ⊢
  exact verifiedRevisionHistory_withLifecycle ht hhistory

/-- **A permitted state is appended.** -/
theorem Executing.appendRevisionStateTx (h : Executing j fence now history)
    (hnow : Platform.fromTimestamp now = some d)
    (hiso : Json.textWeight (Platform.isoformat d) ≤ 2000) (hlen : history.length < 9)
    {state : RevisionState} (hperm : permitted (history.getLast?.map (·.state)) state = true) :
    ∃ j' entry, j.appendRevisionStateTx fence.operationId state fence (some now) =
      .ok (j', entry) := by
  obtain ⟨o, ho, hterm⟩ := h.operation
  obtain ⟨input, hinput⟩ := h.loaded
  obtain ⟨p, hwalk⟩ := verifiedRevisionHistory_eq_ok.mp h.history
  have hend := lifecycleEnd_of_walk hwalk
  have hnext : (nextLifecycle (j.lifecycleRows fence.operationId)).2.1 = history.length + 1 := by
    rw [hend.next.2, hend.position, hend.length]
  have hperm' : permitted (nextLifecycle (j.lifecycleRows fence.operationId)).1 state = true := by
    rw [hend.next.1, ← hend.last]
    exact hperm
  have hfirst : (nextLifecycle (j.lifecycleRows fence.operationId)).1 = none →
      state = .created := by
    intro hnone
    rw [hnone] at hperm'
    simpa [permitted] using hperm'
  -- the next number is above the numbers of the rows
  have hfree : j.revisionLifecycle.get?
      (fence.operationId, (nextLifecycle (j.lifecycleRows fence.operationId)).2) = none := by
    rw [Table.get?_eq_none]
    intro r hr hkey
    obtain ⟨hop, hseq⟩ := Prod.mk.inj hkey
    have hle := hend.sequence r (Table.mem_log.mpr ⟨hr, hop⟩)
    rw [hseq, hnext, hend.length] at hle
    omega
  obtain ⟨at', hat, -⟩ := timestamp_ok hnow
  let entry : RevisionLifecycleEntry :=
    ⟨fence.operationId, (nextLifecycle (j.lifecycleRows fence.operationId)).2,
      input.revision.revisionId, input.revision.contentDigest, state, at'⟩
  have hsize : (RevisionLifecycleEntry.schema.canonicalJson entry).toList.length ≤ 65536 := by
    refine RevisionLifecycleEntry.length_canonicalJson_le _ (weight_digit ?_) ?_
    · show (nextLifecycle (j.lifecycleRows fence.operationId)).2.1 < 10
      rw [hnext]
      omega
    · rw [timestamp_val hnow hat]
      exact hiso
  unfold Journal.appendRevisionStateTx
  rw [ho]
  exact ⟨_, _, Results.bind_ok (ensure_of hterm) <| Results.bind_ok hinput <|
    Results.bind_ok (ensure_of hfirst) <| Results.bind_ok (ensure_of hperm') <|
    Results.bind_ok (a := now) rfl <| Results.bind_ok hat <|
    Results.bind_ok (boundedJson_of_le hsize) <| Results.bind_ok (insertRow_of_free hfree) rfl⟩

/-- The holder of a fence appends a permitted state. -/
theorem Executing.append (h : Executing j fence now history)
    (hnow : Platform.fromTimestamp now = some d)
    (hiso : Json.textWeight (Platform.isoformat d) ≤ 2000) (hlen : history.length < 9)
    (state : RevisionState) (hperm : permitted (history.getLast?.map (·.state)) state = true) :
    ∃ entry, (Call.appendRevisionState fence.operationId.val state fence fun _ => some now).run
        j = .ok (j.withLifecycle entry fence) ∧
      Executing (j.withLifecycle entry fence) fence now (history ++ [entry]) ∧
      entry.state = state := by
  obtain ⟨j', entry, hrun⟩ := h.appendRevisionStateTx hnow hiso hlen hperm
  have happend : j.appendRevisionState fence.operationId.val state fence (fun _ => some now) =
      .ok (j', entry) :=
    Results.bind_ok h.held hrun
  obtain ⟨-, hop, hstate, ⟨o, input, ht⟩, rfl⟩ := appendRevisionState_eq_ok happend
  refine ⟨entry, ?_, h.withLifecycle ht hop, hstate⟩
  rw [Call.run, happend]
  rfl

/-- A lifecycle may go through the states one after the other. -/
def permittedAll : Option RevisionState → List RevisionState → Bool
  | _, [] => true
  | previous, state :: states => permitted previous state && permittedAll (some state) states

/-- **The holder of a fence appends every permitted path**, and keeps what lifecycle entries
keep. -/
theorem Executing.appendAll (h : Executing j fence now history)
    (hnow : Platform.fromTimestamp now = some d)
    (hiso : Json.textWeight (Platform.isoformat d) ≤ 2000) (states : List RevisionState)
    (hlen : history.length + states.length ≤ 9)
    (hpath : permittedAll (history.getLast?.map (·.state)) states = true) {P : Journal → Prop}
    (hkeep : ∀ k entry, P k → P (k.withLifecycle entry fence)) (hP : P j) :
    ∃ j' entries, j.runCalls (states.map fun state =>
        Call.appendRevisionState fence.operationId.val state fence fun _ => some now) = j' ∧
      Executing j' fence now (history ++ entries) ∧ entries.map (·.state) = states ∧ P j' := by
  induction states generalizing j history with
  | nil => exact ⟨j, [], rfl, by rwa [List.append_nil], rfl, hP⟩
  | cons state states ih =>
      rw [List.length_cons] at hlen
      rw [permittedAll, Bool.and_eq_true] at hpath
      obtain ⟨entry, hrun, hexec, hstate⟩ := h.append hnow hiso (by omega) state hpath.1
      obtain ⟨j', entries, hcalls, hexec', hstates, hP'⟩ := ih hexec
        (by rw [List.length_append, List.length_singleton]; omega)
        (by rw [List.getLast?_concat, Option.map_some, hstate]; exact hpath.2) (hkeep j entry hP)
      refine ⟨j', entry :: entries, ?_, ?_, by rw [List.map_cons, hstate, hstates], hP'⟩
      · rw [List.map_cons, runCalls_cons, Call.apply_ok hrun, hcalls]
      · rwa [List.append_assoc, List.singleton_append] at hexec'

/-- A ready candidate is swapped in as the first active revision of its scope. -/
theorem Executing.casActiveRevisionTx (h : Executing j fence now history)
    (hnow : Platform.fromTimestamp now = some d)
    (hiso : Json.textWeight (Platform.isoformat d) ≤ 2000) (hlen : history.length < 9)
    (hactives : j.activeRevisions.rows = [])
    (hperm : permitted (history.getLast?.map (·.state)) .active = true) :
    ∃ entry active, j.casActiveRevisionTx fence.operationId none fence (fun _ => some now) =
        .ok ((j.withLifecycle entry fence).withActive active, active) ∧
      Executing ((j.withLifecycle entry fence).withActive active) fence now (history ++ [entry]) ∧
      entry.state = .active ∧ active.operationId = fence.operationId ∧
      active.generation.1 = 1 := by
  obtain ⟨o, ho, hterm⟩ := h.operation
  obtain ⟨input, hinput⟩ := h.loaded
  obtain ⟨j₁, entry, hentry⟩ := h.appendRevisionStateTx hnow hiso hlen hperm
  obtain ⟨at', hat, -⟩ := timestamp_ok hnow
  have hnone : j.activeRevisions.get? o.scope = none := by
    rw [Table.get?_eq_none, hactives]
    simp
  have hgen : (j.activeRevisions.get? o.scope).elim 0 (·.generation.1) + 1 = 1 := by
    rw [hnone, Option.elim_none]
  let active : ActiveRevision :=
    ⟨o.scope, fence.operationId, input.revision.revisionId, input.revision.contentDigest,
      ⟨(j.activeRevisions.get? o.scope).elim 0 (·.generation.1) + 1, Nat.succ_pos _⟩, at'⟩
  have hsize : (ActiveRevision.schema.canonicalJson active).toList.length ≤ 65536 := by
    refine ActiveRevision.length_canonicalJson_le _ (weight_digit ?_) ?_
    · show (j.activeRevisions.get? o.scope).elim 0 (·.generation.1) + 1 < 10
      rw [hgen]
      decide
    · rw [timestamp_val hnow hat]
      exact hiso
  have hcas : j.casActiveRevisionTx fence.operationId none fence (fun _ => some now) =
      .ok (j₁.withActive active, active) := by
    refine Results.bind_ok (ensure_of rfl) ?_
    rw [ho]
    exact Results.bind_ok (ensure_of (by rw [hnone]; rfl)) <| Results.bind_ok hinput <|
      Results.bind_ok hentry <| Results.bind_ok (a := now) rfl <| Results.bind_ok hat <|
      Results.bind_ok (boundedJson_of_le hsize) rfl
  obtain ⟨hop, hstate, ⟨o', input', ht⟩, rfl⟩ := appendRevisionStateTx_eq_ok hentry
  have hexec := h.withLifecycle ht hop
  exact ⟨entry, active, hcas, ⟨hexec.coherent.withActive active, hexec.held, hexec.operation,
    hexec.loaded, hexec.history⟩, hstate, rfl, hgen⟩

/-- **A ready candidate becomes the first active revision of its scope.** -/
theorem Executing.swap (h : Executing j fence now history)
    (hnow : Platform.fromTimestamp now = some d)
    (hiso : Json.textWeight (Platform.isoformat d) ≤ 2000) (hlen : history.length < 9)
    (hactives : j.activeRevisions.rows = [])
    (hperm : permitted (history.getLast?.map (·.state)) .active = true) :
    ∃ j' entry, (Call.compareAndSwapActiveRevision fence.operationId.val none fence
        fun _ => some now).run j = .ok j' ∧ Executing j' fence now (history ++ [entry]) ∧
      entry.state = .active ∧ ∃ row ∈ j'.activeRevisions.rows, row.operationId = fence.operationId := by
  obtain ⟨entry, active, hcas, hexec, hstate, hop, -⟩ :=
    h.casActiveRevisionTx hnow hiso hlen hactives hperm
  refine ⟨_, entry, ?_, hexec, hstate, activeRow active, Table.mem_put.mpr (Or.inl rfl), hop⟩
  have hrun : j.compareAndSwapActiveRevision fence.operationId.val none fence
      (fun _ => some now) = .ok ((j.withLifecycle entry fence).withActive active, active) :=
    Results.bind_ok h.held hcas
  rw [Call.run, hrun]
  rfl

end Executing

section Receipts

variable {receipt : TerminalReceipt} {freshId : Nat → EntityId .event} {n : Nat}

/-! ### Events -/

/-- An event that passes its checks is appended. -/
theorem Appends.appendEvent {o : OperationRow} {event : OperationEvent} {allow : Bool}
    (h : Appends j o event allow) (payloadJson : String) :
    j.appendEvent event payloadJson allow = .ok (j.withEvent o event payloadJson) := by
  unfold Journal.appendEvent
  rw [h.found]
  exact Results.bind_ok (ensure_of h.nonterminal) <| Results.bind_ok (ensure_of h.allowed) <|
    Results.bind_ok (ensure_of ⟨h.hostId, h.app, h.environment, h.revisionId⟩) <|
    Results.bind_ok (ensure_of h.sequence) <| Results.bind_ok (ensure_of h.previous) <|
    Results.bind_ok (ensure_of h.eventId) <| Results.bind_ok (insertRow_of_free h.free) <|
    Results.bind_ok (ensure_of h.hostEventId) <|
    Results.bind_ok (insertRow_of_free h.freeCursor) rfl

/-- The cursor after the last one is free. -/
theorem hostEvents_freeCursor (j : Journal) : j.hostEvents.get? (j.latestCursor + 1) = none := by
  rw [Table.get?_eq_none]
  intro r hr hcursor
  have hle : ∀ l : List Nat, ∀ x ∈ l, x ≤ l.foldr max 0 := by
    intro l
    induction l with
    | nil => simp
    | cons y l ih =>
        intro x hx
        rcases List.mem_cons.mp hx with rfl | hx
        · exact Nat.le_max_left _ _
        · exact Nat.le_trans (ih x hx) (Nat.le_max_right _ _)
  have hmem := hle _ _ (List.mem_map_of_mem hr : r.cursor ∈ j.hostEvents.rows.map (·.cursor))
  unfold latestCursor at hcursor
  omega

/-- The operation a receipt is for is open, and the events of the journal carry the first
identifiers of a supply. -/
structure Open (j : Journal) (receipt : TerminalReceipt) (freshId : Nat → EntityId .event)
    (n : Nat) : Prop where
  coherent : Coherent j
  operation : ∃ o, j.operations.get? receipt.operationId = some o ∧ o.state.terminal = false ∧
    receipt.hostId = o.hostId ∧ receipt.app = o.app ∧ receipt.environment = o.environment ∧
    receipt.desiredRevisionId = o.revisionId
  next : (j.nextEvent receipt.operationId).1.1 = n + 1
  written : ∀ r ∈ j.operationEvents.rows, ∃ i ≤ n, r.eventId = freshId i

/-- The next event of an open operation passes its checks. -/
theorem Open.appends (h : Open j receipt freshId n)
    (hsupply : ∀ i ≤ n, freshId i ≠ freshId (n + 1)) (eventType : Text 128) (evidence : Digests)
    (state : OperationState) (allow : Bool) (hallow : state.terminal = true → allow = true) :
    ∃ o, Appends j o { j.phaseEvent receipt freshId eventType evidence with state } allow := by
  obtain ⟨o, ho, hterm, hhost, happ, henv, hrev⟩ := h.operation
  obtain ⟨r, claims, events, p, hh⟩ := h.coherent.exists_history (known_of_get? ho)
  have hend := chainEnd_of_verifyChain hh.chain
  have hseq := (nextEvent_of_verifyChain hh.chain).1
  have hpos := hend.position
  have hid : freshId (j.nextEvent receipt.operationId).1.1 = freshId (n + 1) := by rw [h.next]
  have hnew : ∀ r ∈ j.operationEvents.rows,
      r.eventId ≠ freshId (j.nextEvent receipt.operationId).1.1 := by
    intro r hr
    obtain ⟨i, hi, heq⟩ := h.written r hr
    rw [heq, hid]
    exact hsupply i hi
  refine ⟨o, ho, hterm, hallow, hhost, happ, henv, ?_, rfl, rfl, hnew, ?_, ?_,
    hostEvents_freeCursor j⟩
  · intro r hr
    rw [← Option.some.inj hr]
    exact hrev
  · -- host events carry the identifiers of operation events
    intro r hr
    obtain ⟨e, he, heid, -⟩ := h.coherent.mirror.mirrored r hr
    rw [← heid]
    exact hnew e he
  · rw [Table.get?_eq_none]
    intro r hr hkey
    obtain ⟨hop, hsame⟩ := Prod.mk.inj hkey
    have hle := hend.sequence r (Table.mem_log.mpr ⟨hr, hop⟩)
    rw [hsame] at hle
    simp only [phaseEvent] at hle
    omega

/-- An open operation after its next event. -/
theorem Open.withEvent (h : Open j receipt freshId n) {o : OperationRow} {eventType : Text 128}
    {evidence : Digests}
    (happ : Appends j o (j.phaseEvent receipt freshId eventType evidence) false) :
    Open (j.withEvent o (j.phaseEvent receipt freshId eventType evidence)
      (OperationEvent.schema.canonicalJson (j.phaseEvent receipt freshId eventType evidence)))
      receipt freshId (n + 1) := by
  set event := j.phaseEvent receipt freshId eventType evidence with hevent
  obtain ⟨o', ho', hterm, hhost, happ', henv, hrev⟩ := h.operation
  obtain rfl : o' = o := Option.some.inj (ho'.symm.trans happ.found)
  obtain ⟨r, claims, events, p, hh⟩ := h.coherent.exists_history (known_of_get? ho')
  obtain rfl : r.operation = o' :=
    Option.some.inj ((acceptedRow?_eq_some.mp hh.accepted).1.symm.trans ho')
  have hrows := eventRows_withEvent happ hh.chain
  refine ⟨h.coherent.withEvent happ, ⟨_, operations_withEvent happ, rfl, hhost, happ', henv, hrev⟩,
    ?_, ?_⟩
  · have hlast : ((j.withEvent r.operation event (OperationEvent.schema.canonicalJson event)).eventRows
        receipt.operationId).getLast? = some (eventRow event) := by
      rw [show receipt.operationId = event.operationId from rfl, hrows]
      simp
    unfold nextEvent
    rw [hlast]
    exact congrArg (· + 1) h.next
  · intro r hr
    rcases Table.mem_put.mp hr with rfl | ⟨hr, -⟩
    · exact ⟨n + 1, Nat.le_refl _, congrArg freshId h.next⟩
    · obtain ⟨i, hi, heq⟩ := h.written r hr
      exact ⟨i, Nat.le_succ_of_le hi, heq⟩

/-- The next event of an open operation fits. -/
theorem Open.fits (h : Open j receipt freshId n) (hn : n < 9)
    (hat : Json.textWeight receipt.completedAt.val ≤ 242) (eventType : Text 128)
    (evidence : Digests) (hevidence : evidence.1.length ≤ 1) (state : OperationState) :
    (OperationEvent.schema.canonicalJson
      { j.phaseEvent receipt freshId eventType evidence with state }).toList.length ≤ 65536 := by
  refine OperationEvent.length_canonicalJson_le _ (weight_digit ?_) (Nat.le_trans hat (by decide))
    rfl hevidence
  show (j.nextEvent receipt.operationId).1.1 < 10
  rw [h.next]
  omega

/-- **The phases of a success are recorded** one after the other. -/
theorem Open.appendPhaseEvents (phases : List (Text 128 × Digests))
    (h : Open j receipt freshId n) (hn : n + phases.length < 9)
    (hsupply : ∀ k ≤ 9, ∀ i < k, freshId i ≠ freshId k)
    (hat : Json.textWeight receipt.completedAt.val ≤ 242)
    (hevidence : ∀ p ∈ phases, p.2.1.length ≤ 1) :
    ∃ j', appendPhaseEvents receipt freshId j phases = .ok j' ∧
      Open j' receipt freshId (n + phases.length) := by
  induction phases generalizing j n with
  | nil => exact ⟨j, rfl, h⟩
  | cons phase phases ih =>
      obtain ⟨eventType, evidence⟩ := phase
      rw [List.length_cons] at hn ⊢
      obtain ⟨o, happ⟩ := h.appends (fun i hi => hsupply (n + 1) (by omega) i (by omega))
        eventType evidence .executing false (by simp [OperationState.terminal])
      have hfits := h.fits (by omega) hat eventType evidence
        (hevidence (eventType, evidence) List.mem_cons_self) .executing
      obtain ⟨j', hj', hopen⟩ := ih (h.withEvent happ) (by omega)
        fun p hp => hevidence p (List.mem_cons_of_mem _ hp)
      refine ⟨j', ?_, ?_⟩
      · exact Results.bind_ok (boundedJson_of_le hfits) <| Results.bind_ok (happ.appendEvent _) hj'
      · rw [show n + (phases.length + 1) = n + 1 + phases.length by omega]
        exact hopen

theorem revalidateReceipt_of_terse (h : receipt.verification.terse = true) :
    revalidateReceipt receipt = .ok () := by
  unfold revalidateReceipt VerificationResult.rejectSummaryProse
  exact if_neg (by simpa [VerificationResult.terse] using h)

theorem receipt?_of_nil (h : j.terminalReceipts.rows = []) (id : EntityId .operation) :
    j.receipt? id = none := by
  simp [receipt?, h]

/-- **The receipt of an open operation is committed**, with its terminal event. -/
theorem Open.commitReceiptTx (h : Open j receipt freshId n) (hn : n < 9)
    (hsupply : ∀ k ≤ 9, ∀ i < k, freshId i ≠ freshId k)
    (hat : Json.textWeight receipt.completedAt.val ≤ 242) {r : AcceptedRow}
    (hr : j.acceptedRow? receipt.operationId = some r) (hbind : bindReceipt r receipt = .ok ())
    (hreceipts : j.terminalReceipts.rows = []) :
    j.commitReceiptTx receipt receipt.canonicalJson freshId =
      .ok (j.withCommit r receipt (j.terminalEvent receipt freshId), true) := by
  obtain ⟨o, happ⟩ := h.appends (fun i hi => hsupply (n + 1) (by omega) i (by omega))
    ⟨"operation.terminal", by decide⟩ ⟨[], by decide⟩ receipt.outcome.state
    true fun _ => rfl
  have hfits := h.fits hn hat ⟨"operation.terminal", by decide⟩ ⟨[], by decide⟩
    (by simp) receipt.outcome.state
  obtain rfl : r.operation = o :=
    Option.some.inj ((acceptedRow?_eq_some.mp hr).1.symm.trans happ.found)
  have hfree : j.terminalReceipts.get? receipt.receiptId = none := by
    rw [Table.get?_eq_none, hreceipts]
    simp
  unfold Journal.commitReceiptTx
  rw [receipt?_of_nil hreceipts, hr]
  exact Results.bind_ok (ensure_of happ.nonterminal) <| Results.bind_ok hbind <|
    Results.bind_ok (boundedJson_of_le hfits) <| Results.bind_ok (happ.appendEvent _) <|
    Results.bind_ok (insertRow_of_free hfree) rfl

/-- The first success of a journal: the operation of the receipt binds it, and nothing of a
success is written yet. -/
structure Awaits (j : Journal) (receipt : TerminalReceipt) (now : Int) : Prop where
  outcome : receipt.outcome = .succeeded
  terse : receipt.verification.terse = true
  fits : receipt.canonicalJson.toList.length ≤ 65536
  completed : Json.textWeight receipt.completedAt.val ≤ 242
  accepted : ∃ r, j.acceptedRow? receipt.operationId = some r ∧ bindReceipt r receipt = .ok ()
  input : ∃ input, j.loadExecutionInputTx receipt.operationId = .ok input ∧
    receipt.activeRevisionId = some input.revision.revisionId ∧
    receipt.activeRevisionDigest = some input.revision.contentDigest
  admitted : j.admitSuccess receipt (some now) = .ok ()
  events : j.operationEvents.rows = []
  receipts : j.terminalReceipts.rows = []
  actives : j.activeRevisions.rows = []
  markers : j.atomicSuccessCommits.rows = []

/-- The plan claims of an approval bind a receipt of its revision. -/
theorem bindReceipt_of_claims {r : AcceptedRow} (approved : ApprovedPlanRef)
    (hclaims : r.plan.payloadJson = canonicalJson approved.planClaims)
    (hplace : receipt.operation = r.operation.operationClass ∧
      receipt.planId = r.approval.planId ∧ receipt.planDigest = r.plan.planDigest ∧
      receipt.decisionId = r.operation.decisionId ∧ receipt.hostId = r.operation.hostId ∧
      receipt.app = r.operation.app ∧ receipt.environment = r.operation.environment ∧
      receipt.desiredRevisionId = r.operation.revisionId)
    (hrevision : receipt.desiredRevisionDigest = approved.revisionDigest)
    (hartifacts : receipt.artifactDigests = approved.artifactDigests) :
    bindReceipt r receipt = .ok () := by
  have hholds := ApprovedPlanRef.claimsSchema.holds approved
  have hload : jsonLoads r.plan.payloadJson =
      .ok (ApprovedPlanRef.claimsSchema.toDict approved).sortKeys := by
    rw [hclaims, ApprovedPlanRef.canonicalJson_planClaims, jsonLoads_canonicalJson]
  have hdigest : item (ApprovedPlanRef.claimsSchema.toDict approved).sortKeys "revision_digest" =
      .ok (.str approved.revisionDigest.val) := by
    have h := hholds ("revision_digest", Codec.digest.enc approved.revisionDigest)
      (by simp [ApprovedPlanRef.claimsSchema])
    simp only [item, h, stored_digest]
  have hdigests : item (ApprovedPlanRef.claimsSchema.toDict approved).sortKeys
      "artifact_digests" = .ok (.arr (approved.artifactDigests.1.map fun d => .str d.val)) := by
    have h := hholds
      ("artifact_digests", (Codec.digests "artifact_digests").enc approved.artifactDigests)
      (by simp [ApprovedPlanRef.claimsSchema])
    simp only [item, h, stored_digests]
  unfold bindReceipt
  refine Results.bind_ok hload <| Results.bind_ok (ensure_of hplace) <| Results.bind_ok hdigest <|
    Results.bind_ok (ensure_of ?_) <| Results.bind_ok hdigests <| ensure_of ?_
  · rw [hrevision]
  · rw [hartifacts]

/-- The phases of a success carry at most one digest each. -/
theorem successPhases_brief (receipt : TerminalReceipt) (started : Bool) :
    (successPhases receipt started).length ≤ 4 ∧
      ∀ p ∈ successPhases receipt started, p.2.1.length ≤ 1 := by
  cases started <;> simp [successPhases, oneDigest]

/-- An operation without events is open for the receipt that binds it. -/
theorem Open.of_bound (hc : Coherent j) {r : AcceptedRow}
    (hr : j.acceptedRow? receipt.operationId = some r) (hbind : bindReceipt r receipt = .ok ())
    (hnonterminal : r.operation.state.terminal = false) (hevents : j.operationEvents.rows = []) :
    Open j receipt freshId 0 ∧ j.verifiedEvents receipt.operationId = .ok [] := by
  have hnone : j.eventRows receipt.operationId = [] := by
    simp [eventRows, Table.log, hevents]
  obtain ⟨r', claims, events, p, hh⟩ := hc.exists_history (known_of_acceptedRow? hr)
  obtain rfl : r' = r := Option.some.inj (hh.accepted.symm.trans hr)
  have hchain := hh.chain
  rw [hnone] at hchain
  have hlength := (chainEnd_of_verifyChain hchain).length
  obtain rfl : events = [] := List.eq_nil_of_length_eq_zero hlength
  obtain ⟨-, -, -, -, hhost, happ, henv, hrev, -, -⟩ := bindReceipt_eq_ok hh.verified hbind
  refine ⟨⟨hc, ⟨r'.operation, (acceptedRow?_eq_some.mp hr).1, hnonterminal, hhost, happ, henv,
    hrev⟩, ?_, ?_⟩, verifiedEvents_eq_ok.mpr ⟨r', claims, p, hh⟩⟩
  · unfold nextEvent
    rw [hnone]
    rfl
  · simp [hevents]

/-- **The success of an operation without events is recorded**: its phases, its receipt and the
terminal event. -/
theorem Open.recordSuccess (h : Open j receipt freshId 0)
    (hverified : j.verifiedEvents receipt.operationId = .ok [])
    (hsupply : ∀ k ≤ 9, ∀ i < k, freshId i ≠ freshId k)
    (hat : Json.textWeight receipt.completedAt.val ≤ 242) {r : AcceptedRow}
    (hr : j.acceptedRow? receipt.operationId = some r) (hbind : bindReceipt r receipt = .ok ())
    (hreceipts : j.terminalReceipts.rows = []) :
    ∃ j₁ j₂, j.appendSuccessPhaseEventsTx receipt freshId = .ok j₁ ∧
      j₁.commitReceiptTx receipt receipt.canonicalJson freshId = .ok (j₂, true) ∧
      j₂.activeRevisions = j.activeRevisions ∧
      j₂.atomicSuccessCommits = j.atomicSuccessCommits := by
  obtain ⟨hfour, hbrief⟩ := successPhases_brief receipt false
  obtain ⟨j₁, hphases, hopen⟩ :=
    h.appendPhaseEvents (successPhases receipt false) (by omega) hsupply hat hbrief
  have hframe := eventsOnly_appendPhaseEvents hphases
  obtain ⟨state, hr₁⟩ := hframe.grows.extends_.acceptedRow? hr
  have hcommit := hopen.commitReceiptTx (by omega) hsupply hat hr₁ hbind
    ((congrArg Table.rows hframe.receipts).trans hreceipts)
  exact ⟨j₁, _, Results.bind_ok hverified <|
    Results.bind_ok (ensure_of (by simp)) hphases, hcommit, hframe.actives⟩

/-- **A ready candidate is released**: the swap, the phases, the receipt and the marker of the
first success of a journal go through. -/
theorem Executing.commitSuccess {fence : ExecutionFence} {now d : Int}
    {history : List RevisionLifecycleEntry} (h : Executing j fence now history)
    (hawaits : Awaits j receipt now) (hop : receipt.operationId = fence.operationId)
    (hnow : Platform.fromTimestamp now = some d)
    (hiso : Json.textWeight (Platform.isoformat d) ≤ 2000) (hlen : history.length < 9)
    (hperm : permitted (history.getLast?.map (·.state)) .active = true)
    (hsupply : ∀ k ≤ 9, ∀ i < k, freshId i ≠ freshId k) :
    ∃ j' active, j.commitSuccess receipt none fence (fun _ => some now) freshId =
        .ok (j', active) ∧ active.operationId = receipt.operationId ∧ active.generation.1 = 1 ∧
      j'.activeRevisions.get? ⟨receipt.hostId, receipt.app, receipt.environment⟩ =
        some (activeRow active) := by
  obtain ⟨entry, active, hswap, hexec, -, -, hgen⟩ :=
    h.casActiveRevisionTx hnow hiso hlen hawaits.actives hperm
  rw [← hop] at hswap
  obtain ⟨o, input, entry', hid, hs, -, -⟩ := casActiveRevisionTx_eq_ok hswap
  set j₁ := (j.withLifecycle entry fence).withActive active with hj₁
  -- the operation and its claims are those the receipt binds
  obtain ⟨r, hr, hbind⟩ := hawaits.accepted
  have hentry : entry'.operationId = receipt.operationId := hs.operationId.trans hid
  have ho := hs.transitions.found
  rw [hentry, (acceptedRow?_eq_some.mp hr).1] at ho
  obtain rfl : r.operation = o := Option.some.inj ho
  have hloaded := hs.transitions.loaded
  obtain ⟨input', hinput, hrevisionId, hrevisionDigest⟩ := hawaits.input
  rw [hentry, hinput] at hloaded
  obtain rfl : input' = input := Except.ok.inj hloaded
  -- the swap has written none of its events
  obtain ⟨hopen, hverified⟩ : Open j₁ receipt freshId 0 ∧
      j₁.verifiedEvents receipt.operationId = .ok [] :=
    Open.of_bound hexec.coherent hr hbind hs.transitions.nonterminal hawaits.events
  obtain ⟨j₂, j₃, hphases, hcommit, hactives, hcommits⟩ := hopen.recordSuccess hverified hsupply
    hawaits.completed hr hbind hawaits.receipts
  have hmarkers : j₃.atomicSuccessCommits.get? receipt.operationId = none := by
    have hrows : j₃.atomicSuccessCommits.rows = [] :=
      (congrArg Table.rows hcommits).trans hawaits.markers
    rw [Table.get?_eq_none, hrows]
    simp
  have hheld : j.assertExecutionFence receipt.operationId.val fence (some now) = .ok () := by
    rw [hop]
    exact h.held
  refine ⟨j₃.withAtomic receipt.operationId active.generation, active, ?_, hid, hgen, ?_⟩
  · unfold Journal.commitSuccess
    refine Results.bind_ok (revalidateReceipt_of_terse hawaits.terse) <|
      Results.bind_ok (ensure_of hawaits.outcome) <|
      Results.bind_ok (boundedJson_of_le hawaits.fits) <| Results.bind_ok hheld ?_
    rw [receipt?_of_nil hawaits.receipts]
    have hbinds : receipt.activeRevisionId = some active.revisionId ∧
        receipt.activeRevisionDigest = some active.revisionDigest := by
      rw [hs.revisionId, hs.revisionDigest]
      exact ⟨hrevisionId, hrevisionDigest⟩
    exact Results.bind_ok hawaits.admitted <| Results.bind_ok hswap <|
      Results.bind_ok (ensure_of hbinds) <| Results.bind_ok hphases <| Results.bind_ok hcommit <|
      Results.bind_ok (insertRow_of_free hmarkers) rfl
  · show j₃.activeRevisions.get? _ = _
    obtain ⟨o, ho, -, hhost, happ, henv, -⟩ := hopen.operation
    obtain rfl : r.operation = o := Option.some.inj ((acceptedRow?_eq_some.mp hr).1.symm.trans ho)
    have hscope : (⟨receipt.hostId, receipt.app, receipt.environment⟩ : Scope) =
        (activeRow active).scope := by
      show _ = active.scope
      rw [hs.scope, hhost, happ, henv]
      rfl
    rw [hactives, hscope]
    exact Table.get?_put_self _ _

end Receipts

end Journal

end Ophelia

namespace Ophelia.Reference

attribute [local instance] platform

def owner : Text 255 := ⟨"owner", by decide⟩

/-- The fence that the second call is granted. -/
def fence : ExecutionFence := ⟨firstId, owner, ⟨1, Nat.one_pos⟩, EPOCH + 60⟩

/-- The fence holder appends a state of its revision. -/
def appendState (state : RevisionState) : Call :=
  .appendRevisionState fence.operationId.val state fence fun _ => some EPOCH

/-- A deployment is accepted and its revision gets ready. -/
def readyDeployment : List Call :=
  [.accept actor deploy deployApproval (some (deployInput stagedRoot staged_relative))
      (some EPOCH) firstId,
    .acquireFence "operation_a" "owner" (some 60) (some EPOCH),
    appendState .created, appendState .staged, appendState .preflightPassed,
    appendState .starting, appendState .ready]

/-- What the receipt of the deployment claims. -/
def deployReceiptClaims : ReceiptClaims where
  receiptId := ⟨"receipt_a", Eq.refl true⟩
  operationId := firstId
  operation := deploy.operation
  planId := deployPlan.planId
  planDigest := deployPlan.planDigest
  decisionId := deployApproval.decisionId
  hostId := deploy.hostId
  app := deploy.app
  environment := deploy.environment
  previousRevisionId := none
  desiredRevisionId := revision.revisionId
  desiredRevisionDigest := revision.contentDigest
  activeRevisionId := some revision.revisionId
  activeRevisionDigest := some revision.contentDigest
  artifactDigests := revision.artifactDigests
  verification :=
    { status := .passed
      observedRevisionDigest := some revision.contentDigest
      observedStateDigest := some (digestText "observed")
      observedAt := revision.createdAt
      checks := []
      passed_observed := fun _ => ⟨Option.some_ne_none _, Option.some_ne_none _⟩
      passed_checks := fun _ _ hc => absurd hc List.not_mem_nil }
  compensation :=
    { attempted := false
      status := .notNeeded
      restoredRevisionId := none
      restoredRevisionDigest := none
      evidenceDigests := ⟨[], Eq.refl true⟩
      idle_not_needed := fun h => absurd h.2 Bool.false_ne_true
      outcome_attempted := fun h => h.1 rfl
      restored_together := Eq.refl true }
  effect := .runtimeActivated
  outcome := .succeeded
  startedAt := revision.createdAt
  completedAt := revision.createdAt
  inputsRedacted := true

theorem truthful_deployReceipt : ∀ v ∈ deployReceiptClaims.violations, v.1 = false := by
  have horder : ¬ deployReceiptClaims.completedAt.instant < deployReceiptClaims.startedAt.instant :=
    lt_irrefl _
  have houtcome : deployReceiptClaims.outcome = .succeeded := rfl
  have heffect : expectedEffect deployReceiptClaims.operation.val =
      some deployReceiptClaims.effect := by
    decide
  have hrevision :
      (deployReceiptClaims.activeRevisionId = some deployReceiptClaims.desiredRevisionId ∧
        deployReceiptClaims.activeRevisionDigest =
          some deployReceiptClaims.desiredRevisionDigest) ∧
      deployReceiptClaims.verification.observedRevisionDigest =
        some deployReceiptClaims.desiredRevisionDigest :=
    ⟨⟨rfl, rfl⟩, rfl⟩
  have hidle : ¬ deployReceiptClaims.compensation.status = .failed := by decide
  simpa [ReceiptClaims.violations, horder, houtcome, heffect] using ⟨rfl, rfl, hrevision, hidle⟩

/-- The receipt of the deployment. -/
def deployReceipt : TerminalReceipt where
  toReceiptClaims := deployReceiptClaims
  truthful := truthful_deployReceipt

def eventIds : List (EntityId .event) :=
  [⟨"event_0", by decide⟩, ⟨"event_1", by decide⟩, ⟨"event_2", by decide⟩, ⟨"event_3", by decide⟩,
    ⟨"event_4", by decide⟩, ⟨"event_5", by decide⟩, ⟨"event_6", by decide⟩,
    ⟨"event_7", by decide⟩, ⟨"event_8", by decide⟩]

/-- A supply of identifiers for the events of the deployment. -/
def eventId (n : Nat) : EntityId .event :=
  eventIds.getD n ⟨"event_9", by decide⟩

theorem eventId_ne : ∀ k ≤ 9, ∀ i < k, eventId i ≠ eventId k := by
  decide +kernel

/-- The operation of the deployment awaits its receipt. -/
theorem awaits_deployReceipt {j : Journal} {acceptedAt : Utc}
    (ha : Journal.Accepts Journal.fresh j actor deploy deployApproval
      (some (deployInput stagedRoot staged_relative)) firstId acceptedAt) (scope : Scope) :
    Journal.Awaits (j.withFence scope fence) deployReceipt EPOCH := by
  have hbind : Journal.bindReceipt
      (Journal.newRow actor deploy deployApproval firstId acceptedAt) deployReceipt = .ok () :=
    Journal.bindReceipt_of_claims deployApproval rfl
      ⟨rfl, rfl, rfl, rfl, rfl, rfl, rfl, rfl⟩ rfl rfl
  have htime : Json.textWeight revision.createdAt.val ≤ 242 := by decide
  have hfits : deployReceipt.canonicalJson.toList.length ≤ 65536 := by
    refine ReceiptClaims.length_canonicalJson_le _ (by decide) ?_ ?_ htime htime
    · exact VerificationResult.weight_toDict_le _ rfl htime
    · exact CompensationResult.weight_toDict_le _ (by decide)
  have hcontrol : (j.withFence scope fence).controlTx firstId = .ok ⟨firstId, some deadline, none⟩ := by
    have hfound : (j.withFence scope fence).operations.get? firstId =
        some (Journal.acceptedOperation actor deploy deployApproval firstId acceptedAt) :=
      (Journal.acceptedRow?_eq_some.mp ha.acceptedRow?_new).1
    have hrow : (j.withFence scope fence).operationControls.get? firstId = none := by
      show j.operationControls.get? firstId = none
      rw [ha.result]
      rfl
    have hinput : (j.withFence scope fence).operationInputs.get? firstId =
        some (Journal.acceptedInput firstId (deployInput stagedRoot staged_relative)) := by
      show j.operationInputs.get? firstId = _
      rw [ha.result]
      exact Table.get?_put_self _ _
    unfold Journal.controlTx
    rw [hfound, hrow, hinput]
    rfl
  have hlive : EPOCH * 1000000 < deadline.instant := by decide +kernel
  have hadmit : (j.withFence scope fence).admitSuccess deployReceipt (some EPOCH) = .ok () := by
    have hdatetime : toDatetime EPOCH = .ok (EPOCH * 1000000) := by
      rw [toDatetime, show Platform.fromTimestamp EPOCH = _ from fromTimestamp_epoch]
    refine Results.bind_ok hcontrol <| Results.bind_ok (a := EPOCH) rfl <|
      Results.bind_ok hdatetime <| Results.bind_ok (ensure_of rfl) <|
      Results.bind_ok (ensure_of (by simpa using hlive)) <| ensure_of ?_
    show none = (j.activeRevisions.get? _).map _
    rw [ha.result]
    rfl
  refine ⟨rfl, rfl, hfits, htime, ⟨_, ha.acceptedRow?_new, hbind⟩,
    ⟨_, ha.loadExecutionInputTx_new rfl, rfl, ?_⟩, hadmit, ?_, ?_, ?_, ?_⟩
  · exact congrArg some (Revision.contentDigest_masked revision).symm
  all_goals
    rw [ha.result]
    rfl

/-- The operation of the deployment is executing under its fence, with nothing written yet. -/
theorem executing_deploy : ∃ j₁ j₂,
    Call.apply Journal.fresh (.accept actor deploy deployApproval
      (some (deployInput stagedRoot staged_relative)) (some EPOCH) firstId) = j₁ ∧
    Call.apply j₁ (.acquireFence "operation_a" "owner" (some 60) (some EPOCH)) = j₂ ∧
    Journal.Executing j₂ fence EPOCH [] ∧ Journal.Awaits j₂ deployReceipt EPOCH := by
  obtain ⟨j, haccept⟩ := accept_deploy stagedRoot staged_relative (by decide)
  rcases Journal.accept_cases haccept with ⟨i, o, hkey, -, -⟩ | ⟨-, -, acceptedAt, ha⟩
  · exact absurd hkey (by simp [Journal.idempotent?, Journal.fresh])
  let o := Journal.acceptedOperation actor deploy deployApproval firstId acceptedAt
  have hfound : j.operations.get? o.operationId = some o := by
    rw [ha.result]
    exact Table.get?_put_self _ _
  have hfence : j.acquireFence "operation_a" "owner" (some 60) (some EPOCH) =
      .ok (j.withFence o.scope fence, fence) :=
    Journal.acquireFence_first owner hfound rfl (by decide)
      (by rw [ha.result]; rfl) (by rw [ha.result]; rfl)
  have hrun : (Call.acquireFence "operation_a" "owner" (some 60) (some EPOCH)).run j =
      .ok (j.withFence o.scope fence) :=
    congrArg (Except.map Prod.fst) hfence
  have hlive : EPOCH < EPOCH + 60 := by decide
  have hcoherent : Journal.Coherent j := ha.coherent Journal.Coherent.fresh
  refine ⟨j, _, Call.apply_accept haccept, Call.apply_ok hrun, ?_,
    awaits_deployReceipt ha o.scope⟩
  refine ⟨hcoherent.run hrun, ?_, ⟨o, hfound, rfl⟩, ?_, ?_⟩
  · refine Journal.assertExecutionFence_eq_ok.mpr ⟨rfl, EPOCH, rfl,
      ⟨⟨firstId, some owner, ⟨1, Nat.one_pos⟩, EPOCH + 60⟩, ?_⟩, o,
      ⟨o.scope, firstId, some owner, ⟨1, Nat.one_pos⟩, EPOCH + 60⟩, ?_⟩
    · exact ⟨Table.get?_put_self j.operationLeases
        ⟨firstId, some owner, ⟨1, Nat.one_pos⟩, EPOCH + 60⟩, rfl, rfl, hlive⟩
    · exact ⟨hfound, Table.get?_put_self j.executionScopeLeases
        ⟨o.scope, firstId, some owner, ⟨1, Nat.one_pos⟩, EPOCH + 60⟩, rfl, rfl, rfl, hlive⟩
  · exact ⟨_, (Journal.grows_run hrun).extends_.loadExecutionInputTx
      (ha.loadExecutionInputTx_new rfl)⟩
  · have hrows : (j.withFence o.scope fence).lifecycleRows firstId = [] := by
      rw [ha.result]
      rfl
    rw [Journal.verifiedRevisionHistory, show fence.operationId = firstId from rfl, hrows]
    rfl

theorem isoformat_epoch : Json.textWeight (isoformat (EPOCH * 1000000)) ≤ 2000 := by
  have hlen : (MINUTE ++ (seconds (EPOCH * 1000000) ++ ['Z'])).length = 20 := by decide
  rw [Json.textWeight, isoformat, String.toList_ofList, hlen]
  decide

/-- The revision of the deployment is ready, and its operation still awaits its receipt. -/
theorem executing_readyDeployment : ∃ history,
    Journal.Executing (Journal.fresh.runCalls readyDeployment) fence EPOCH history ∧
      history.map (·.state) = [.created, .staged, .preflightPassed, .starting, .ready] ∧
      Journal.Awaits (Journal.fresh.runCalls readyDeployment) deployReceipt EPOCH := by
  obtain ⟨j₁, j₂, h₁, h₂, hexec, hawaits⟩ := executing_deploy
  obtain ⟨j₃, history, h₃, hexec, hstates, hawaits⟩ := hexec.appendAll fromTimestamp_epoch
    isoformat_epoch [.created, .staged, .preflightPassed, .starting, .ready] (by simp) (by decide)
    (P := fun j => Journal.Awaits j deployReceipt EPOCH)
    (fun k entry hk => ⟨hk.outcome, hk.terse, hk.fits, hk.completed, hk.accepted, hk.input,
      hk.admitted, hk.events, hk.receipts, hk.actives, hk.markers⟩) hawaits
  have hrun : Journal.fresh.runCalls readyDeployment = j₃ := by
    rw [readyDeployment, Journal.runCalls_cons, h₁, Journal.runCalls_cons, h₂]
    exact h₃
  rw [hrun]
  exact ⟨history, hexec, hstates, hawaits⟩

/-- The ready revision is released. -/
def releasedDeployment : List Call :=
  readyDeployment ++ [.commitSuccess deployReceipt none fence (fun _ => some EPOCH) eventId]

/-- **The deployment is released**: it becomes the active revision of its scope, of the first
generation. -/
theorem active_releasedDeployment : ∃ active : ActiveRevision,
    (Journal.fresh.runCalls releasedDeployment).activeRevisions.get?
        ⟨deploy.hostId, deploy.app, deploy.environment⟩ = some (Journal.activeRow active) ∧
      active.operationId = firstId ∧ active.generation.1 = 1 := by
  obtain ⟨history, hexec, hstates, hawaits⟩ := executing_readyDeployment
  have hlen : history.length < 9 := by
    have h := congrArg List.length hstates
    rw [List.length_map] at h
    exact h.trans_lt (by decide)
  have hperm : Journal.permitted (history.getLast?.map (·.state)) .active = true := by
    rw [← List.getLast?_map, hstates]
    rfl
  obtain ⟨j, active, hcommit, hop, hgen, hactive⟩ := hexec.commitSuccess hawaits rfl
    fromTimestamp_epoch isoformat_epoch hlen hperm eventId_ne
  have hrun : (Call.commitSuccess deployReceipt none fence (fun _ => some EPOCH) eventId).run
      (Journal.fresh.runCalls readyDeployment) = .ok j := by
    rw [Call.run, hcommit]
    rfl
  refine ⟨active, ?_, hop, hgen⟩
  rw [releasedDeployment, Journal.runCalls_concat, Call.apply_ok hrun]
  exact hactive

end Ophelia.Reference
