import Ophelia.Journal.Frames

/-!
# Ophelia.Journal.Activation

The history of a scope's active revision. Every success leaves a marker with the generation
it produced; `Linear` says that the generations of a scope are numbered from one to the
active one without gaps or repeats, and that the receipt of each success names the revision
of the generation before it as its predecessor.
-/

namespace Ophelia

variable [Platform]

namespace Journal

variable {j j' : Journal} {id : EntityId .operation}

/-! ### What a success is -/

/-- The plan of an execution input is about the scope and the revision of its operation. -/
theorem loadExecutionInputTx_binds {input : ExecutionInput} {o : OperationRow}
    (h : j.loadExecutionInputTx id = .ok input) (ho : j.operations.get? id = some o) :
    o.scope = ⟨input.plan.hostId, input.plan.app, input.plan.environment⟩ ∧
      input.revision.revisionId = o.revisionId := by
  obtain ⟨r, row, hr, -, hrec⟩ := loadExecutionInputTx_eq_ok.mp h
  obtain rfl : r.operation = o := by
    have := (acceptedRow?_eq_some.mp hr).1
    rw [ho] at this
    exact (Option.some.inj this).symm
  unfold reconcileExecutionInput at hrec
  obtain ⟨claims, hclaims, hrec⟩ := Results.bind_eq_ok.mp hrec
  obtain ⟨payload, -, hrec⟩ := Results.bind_eq_ok.mp hrec
  obtain ⟨input', -, hrec⟩ := Results.bind_eq_ok.mp hrec
  obtain ⟨request, hrequest, hrec⟩ := Results.bind_eq_ok.mp hrec
  obtain ⟨approval, -, hrec⟩ := Results.bind_eq_ok.mp hrec
  obtain ⟨_, hvalid, hrec⟩ := Results.bind_eq_ok.mp hrec
  obtain ⟨_, -, hrec⟩ := Results.bind_eq_ok.mp hrec
  obtain rfl := Except.ok.inj hrec
  obtain ⟨hparse, hreconciles⟩ := verifiedAcceptanceClaims_eq_ok.mp hclaims
  have hreq : claims.request = request := by
    unfold parseAcceptance at hparse
    obtain ⟨rc, hrc, hparse⟩ := Results.bind_eq_ok.mp hparse
    obtain ⟨_, -, hparse⟩ := Results.bind_eq_ok.mp hparse
    obtain ⟨_, -, hparse⟩ := Results.bind_eq_ok.mp hparse
    obtain ⟨_, -, hparse⟩ := Results.bind_eq_ok.mp hparse
    obtain ⟨_, -, hparse⟩ := Results.bind_eq_ok.mp hparse
    obtain ⟨request', hrequest', hparse⟩ := Results.bind_eq_ok.mp hparse
    obtain ⟨_, -, hparse⟩ := Results.bind_eq_ok.mp hparse
    obtain ⟨_, -, hparse⟩ := Results.bind_eq_ok.mp hparse
    obtain rfl := Except.ok.inj hparse
    rw [hrc, Result.ok_bind, hrequest'] at hrequest
    exact Except.ok.inj hrequest
  subst hreq
  unfold validateExecutionInput at hvalid
  obtain ⟨_, -, hvalid⟩ := Results.bind_eq_ok.mp hvalid
  obtain ⟨-, -, hhost, happ, henv, hrev, -, -⟩ := ensure_eq_ok.mp hvalid
  obtain ⟨-, -, -, -, -, -, hhost', happ', henv', hrev', -⟩ := hreconciles
  refine ⟨?_, ?_⟩
  · simp only [OperationRow.scope, hhost, happ, henv, hhost', happ', henv']
  · have hplan : input'.revision.revisionId = input'.plan.revisionId := by
      have := input'.reconciled
      simp only [ExecutionClaims.reconciles, Bool.and_eq_true, beq_iff_eq] at this
      tauto
    rw [hplan, hrev, hrev']

/-- A succeeded receipt names its desired revision as the active one. -/
theorem active_of_succeeded {receipt : TerminalReceipt} (h : receipt.outcome = .succeeded) :
    receipt.activeRevisionId = some receipt.desiredRevisionId ∧
      receipt.activeRevisionDigest = some receipt.desiredRevisionDigest := by
  have htruth := receipt.truthful
  simp only [ReceiptClaims.violations, List.forall_mem_cons, h] at htruth
  have hfive := htruth.2.2.2.2.1
  simp only [beq_self_eq_true, Bool.true_and, Bool.not_eq_false', Bool.and_eq_true,
    beq_iff_eq] at hfive
  exact ⟨hfive.1.1, hfive.1.2⟩

/-- A marker, with the operation and the receipt of its success. -/
structure ActivatedBy (j : Journal) (a : AtomicSuccessRow) (o : OperationRow)
    (receipt : TerminalReceipt) : Prop where
  operation : j.operations.get? a.operationId = some o
  terminal : o.state.terminal = true
  stored : ∃ row, j.receipt? a.operationId = some row ∧ row.outcome = .succeeded ∧
    row.payloadJson = receipt.canonicalJson
  terse : receipt.verification.terse = true
  receiptOf : receipt.operationId = a.operationId
  revision : receipt.desiredRevisionId = o.revisionId
  lifecycle : ∃ input history last, j.loadExecutionInputTx a.operationId = .ok input ∧
    j.verifiedRevisionHistory a.operationId = .ok history ∧ history.getLast? = some last ∧
    last.state = .active ∧ last.revisionId = receipt.desiredRevisionId ∧
    last.revisionDigest = receipt.desiredRevisionDigest ∧
    input.revision.revisionId = receipt.desiredRevisionId ∧
    input.revision.contentDigest = receipt.desiredRevisionDigest

theorem ActivatedBy.grows {a : AtomicSuccessRow} {o : OperationRow} {receipt : TerminalReceipt}
    (h : ActivatedBy j a o receipt) (hg : Grows j j') : ActivatedBy j' a o receipt := by
  obtain ⟨row, hrow, hout, hjson⟩ := h.stored
  obtain ⟨input, history, last, hinput, hhistory, hlast⟩ := h.lifecycle
  refine ⟨hg.settled.operation h.operation h.terminal, h.terminal, ⟨row, ?_, hout, hjson⟩, h.terse,
    h.receiptOf, h.revision, ⟨input, history, last, hg.extends_.loadExecutionInputTx hinput, ?_, hlast⟩⟩
  · rw [hg.settled.receipt h.operation h.terminal]
    exact hrow
  · rw [verifiedRevisionHistory_congr (hg.settled.lifecycle h.operation h.terminal)]
    exact hhistory

/-- The receipt names the revision of the generation before its own. -/
def Follows (j : Journal) (a : AtomicSuccessRow) (o : OperationRow)
    (receipt : TerminalReceipt) : Prop :=
  (a.activeGeneration.1 = 1 ∧ receipt.previousRevisionId = none) ∨
    ∃ a' ∈ j.atomicSuccessCommits.rows, ∃ o', j.operations.get? a'.operationId = some o' ∧
      o'.scope = o.scope ∧ a'.activeGeneration.1 + 1 = a.activeGeneration.1 ∧
      receipt.previousRevisionId = some o'.revisionId

/-- **The active revisions have a linear history.** -/
structure Linear (j : Journal) : Prop where
  active : ∀ row ∈ j.activeRevisions.rows,
    ActiveRevision.schema.canonicalJson (activeRevisionFromRow row) = row.payloadJson ∧
    j.atomicSuccessCommits.get? row.operationId = some ⟨row.operationId, row.generation⟩ ∧
    ∃ o receipt, ActivatedBy j ⟨row.operationId, row.generation⟩ o receipt ∧
      o.scope = row.scope ∧ row.revisionId = receipt.desiredRevisionId ∧
      row.revisionDigest = receipt.desiredRevisionDigest
  markers : ∀ a ∈ j.atomicSuccessCommits.rows, ∃ o receipt,
    ActivatedBy j a o receipt ∧ Follows j a o receipt
  bounded : ∀ a ∈ j.atomicSuccessCommits.rows, ∀ o, j.operations.get? a.operationId = some o →
    ∃ act, j.activeRevisions.get? o.scope = some act ∧
      a.activeGeneration.1 ≤ act.generation.1
  unique : ∀ a ∈ j.atomicSuccessCommits.rows, ∀ a' ∈ j.atomicSuccessCommits.rows, ∀ o o',
    j.operations.get? a.operationId = some o → j.operations.get? a'.operationId = some o' →
    o.scope = o'.scope → a.activeGeneration = a'.activeGeneration → a = a'
  dense : ∀ row ∈ j.activeRevisions.rows, ∀ n, 0 < n → n ≤ row.generation.1 →
    ∃ a ∈ j.atomicSuccessCommits.rows, a.activeGeneration.1 = n ∧
      ∃ o, j.operations.get? a.operationId = some o ∧ o.scope = row.scope

theorem Linear.fresh : Linear fresh := by
  refine ⟨?_, ?_, ?_, ?_, ?_⟩ <;> simp [Journal.fresh]

/-- The operation of a marker. -/
theorem Linear.operation (h : Linear j) {a : AtomicSuccessRow}
    (ha : a ∈ j.atomicSuccessCommits.rows) :
    ∃ o, j.operations.get? a.operationId = some o ∧ o.state.terminal = true := by
  obtain ⟨o, receipt, hact, -⟩ := h.markers a ha
  exact ⟨o, hact.operation, hact.terminal⟩

/-- Calls that swap nothing keep the history. -/
theorem Linear.grows (h : Linear j) (hg : Grows j j') (hs : SameActives j j') : Linear j' := by
  obtain ⟨hactive, hatomic⟩ := hs
  -- the operations of the markers are settled
  have hback : ∀ a ∈ j.atomicSuccessCommits.rows, ∀ o,
      j'.operations.get? a.operationId = some o → j.operations.get? a.operationId = some o := by
    intro a ha o ho
    obtain ⟨o₀, ho₀, ht⟩ := h.operation ha
    rw [hg.settled.operation ho₀ ht] at ho
    rw [ho₀, ho]
  refine ⟨?_, ?_, ?_, ?_, ?_⟩
  · rw [hactive, hatomic]
    intro row hrow
    obtain ⟨hjson, hmarker, o, receipt, hact, hrest⟩ := h.active row hrow
    exact ⟨hjson, hmarker, o, receipt, hact.grows hg, hrest⟩
  · rw [hatomic]
    intro a ha
    obtain ⟨o, receipt, hact, hfol⟩ := h.markers a ha
    refine ⟨o, receipt, hact.grows hg, ?_⟩
    rcases hfol with hfirst | ⟨a', ha', o', ho', hrest⟩
    · exact Or.inl hfirst
    · obtain ⟨o₀, ho₀, ht⟩ := h.operation ha'
      obtain rfl : o₀ = o' := by
        rw [ho'] at ho₀
        exact (Option.some.inj ho₀).symm
      refine Or.inr ⟨a', ?_, o₀, hg.settled.operation ho₀ ht, hrest⟩
      rw [hatomic]
      exact ha'
  · rw [hactive, hatomic]
    intro a ha o ho
    exact h.bounded a ha o (hback a ha o ho)
  · rw [hatomic]
    intro a ha a' ha' o o' ho ho'
    exact h.unique a ha a' ha' o o' (hback a ha o ho) (hback a' ha' o' ho')
  · rw [hactive, hatomic]
    intro row hrow n hpos hle
    obtain ⟨a, ha, hgen, o, ho, hscope⟩ := h.dense row hrow n hpos hle
    obtain ⟨o₀, ho₀, ht⟩ := h.operation ha
    obtain rfl : o₀ = o := by
      rw [ho] at ho₀
      exact (Option.some.inj ho₀).symm
    exact ⟨a, ha, hgen, o₀, hg.settled.operation ho₀ ht, hscope⟩

/-! ### A new success -/

section Success

variable {j₁ j₂ j₃ : Journal} {receipt : TerminalReceipt} {expected : Option String}
  {fence : ExecutionFence} {clock : Nat → Option Int} {freshId : Nat → EntityId .event}
  {active : ActiveRevision}

/-- What a success leaves behind. -/
structure Outcome (j j' : Journal) (receipt : TerminalReceipt) (active : ActiveRevision)
    (o : OperationRow) : Prop where
  operation : j.operations.get? receipt.operationId = some o
  nonterminal : o.state.terminal = false
  grows : Grows j j'
  actives : j'.activeRevisions = j.activeRevisions.put (activeRow active)
  markers : j'.atomicSuccessCommits =
    j.atomicSuccessCommits.put ⟨receipt.operationId, active.generation⟩
  free : j.atomicSuccessCommits.get? receipt.operationId = none
  activeOf : active.operationId = receipt.operationId
  scope : active.scope = o.scope
  revisionId : active.revisionId = receipt.desiredRevisionId
  revisionDigest : active.revisionDigest = receipt.desiredRevisionDigest
  generation : active.generation.1 =
    (j.activeRevisions.get? o.scope).elim 0 (·.generation.1) + 1
  previous : receipt.previousRevisionId = (j.activeRevisions.get? o.scope).map (·.revisionId)
  activated : ActivatedBy j' ⟨receipt.operationId, active.generation⟩
    { o with state := .succeeded } receipt

/-- **A success activates its operation**: the marker, the receipt, the active revision and
the lifecycle of the new journal agree. -/
theorem Succeeds.outcome (h : Coherent j) (hterse : receipt.verification.terse = true)
    (hout : receipt.outcome = .succeeded)
    (hs : Succeeds j j₁ j₂ j₃ receipt expected fence clock freshId active) :
    ∃ o, Outcome j (j₃.withAtomic receipt.operationId active.generation) receipt active o := by
  obtain ⟨g₁, -, g₂, g₃, -, s₃⟩ := hs.frames
  obtain ⟨o, input, entry, hid, hswap, -, rfl⟩ := casActiveRevisionTx_eq_ok hs.swapped
  obtain ⟨b, hcommit⟩ := hs.committed
  have ht := hswap.transitions
  have hop : entry.operationId = receipt.operationId := by rw [hswap.operationId, hid]
  have ho : j.operations.get? receipt.operationId = some o := by
    have := ht.found
    rwa [hop] at this
  have hnone : j₂.receipt? receipt.operationId = none := by
    have hsame : j₂.receipt? receipt.operationId = j.receipt? receipt.operationId := by
      unfold receipt?
      rw [g₂.receipts]
      rfl
    rw [hsame]
    exact hs.noReceipt
  rcases commitReceiptTx_eq_ok hcommit with ⟨-, row, hrow, -⟩ | ⟨r, hc, rfl⟩
  · rw [hnone] at hrow
    exact absurd hrow (by simp)
  -- the accepted row of the commit is the operation, in some state
  have hcoh₁ := h.writesTo (updatesTo_swap ht fence active).writes
  obtain ⟨events, -, -, hphases⟩ := appendSuccessPhaseEventsTx_eq_ok hs.phases
  have hcoh₂ := hcoh₁.writesTo (updatesTo_appendPhaseEvents hphases).writes
  obtain ⟨s, hs₂⟩ := (g₁.trans g₂.grows).extends_.operations ho
  have hrop : r.operation = { o with state := s } := by
    have := (acceptedRow?_eq_some.mp hc.accepted).1
    rw [hs₂] at this
    exact (Option.some.inj this).symm
  obtain ⟨r', claims, evs, p, hh⟩ := hcoh₂.exists_history (known_of_acceptedRow? hc.accepted)
  obtain rfl : r' = r := by
    have := hh.accepted
    rw [hc.accepted] at this
    exact (Option.some.inj this).symm
  obtain ⟨-, -, -, -, hhost, happ, henv, hrev, -, -⟩ := bindReceipt_eq_ok hh.verified hc.binds
  rw [hrop] at hhost happ henv hrev
  have hscope : (⟨receipt.hostId, receipt.app, receipt.environment⟩ : Scope) = o.scope := by
    simp only [OperationRow.scope, hhost, happ, henv]
  obtain ⟨hactId, hactDigest⟩ := active_of_succeeded hout
  have hrevId : active.revisionId = receipt.desiredRevisionId :=
    Option.some.inj (hs.binds.1.symm.trans hactId)
  have hrevDigest : active.revisionDigest = receipt.desiredRevisionDigest :=
    Option.some.inj (hs.binds.2.symm.trans hactDigest)
  set j₃ := j₂.withCommit r' receipt (j₂.terminalEvent receipt freshId) with hj₃
  have gall : Grows j (j₃.withAtomic receipt.operationId active.generation) :=
    ((g₁.trans g₂.grows).trans g₃).trans (Grows.of_eq rfl rfl rfl rfl rfl rfl rfl)
  refine ⟨o, ⟨ho, ht.nonterminal, gall, ?_, ?_, ?_, hid, hswap.scope, hrevId, hrevDigest,
    hswap.generation, ?_, ?_⟩⟩
  · show j₃.activeRevisions = _
    rw [s₃.1, g₂.actives.1]
    rfl
  · show j₃.atomicSuccessCommits.put _ = _
    rw [s₃.2, g₂.actives.2]
    rfl
  · have := hs.free
    rw [s₃.2, g₂.actives.2] at this
    exact this
  · rw [hs.admitted.previous, hscope]
  · obtain ⟨history, hhistory⟩ := h.lifecycle (known_of_get? ho)
    rw [← hop] at hhistory
    have hlife := verifiedRevisionHistory_withLifecycle (f := fence) ht hhistory
    refine ⟨?_, rfl, ⟨receiptRow receipt, ?_, hout, rfl⟩, hterse, rfl, hrev,
      ⟨input, history ++ [entry], entry, ?_, ?_, by simp, hswap.state, ?_, ?_, ?_, ?_⟩⟩
    · have hst : (j₂.terminalEvent receipt freshId).state = .succeeded := by
        show receipt.outcome.state = .succeeded
        rw [hout]
        rfl
      refine (operations_withEvent (t := OperationEvent.schema.canonicalJson
        (j₂.terminalEvent receipt freshId)) hc.appends).trans ?_
      rw [hst, hrop]
    · exact receipt?_withReceipt (j := j₂.withEvent r'.operation
        (j₂.terminalEvent receipt freshId) _) hc.free hc.noReceipt
    · have := ht.loaded
      rw [hop] at this
      exact gall.extends_.loadExecutionInputTx this
    · rw [← hop, ← hlife]
      apply verifiedRevisionHistory_congr
      unfold lifecycleRows
      show j₂.revisionLifecycle.log _ _ _ = _
      rw [g₂.lifecycle]
      rfl
    · rw [ht.revisionId, ← hswap.revisionId, hrevId]
    · rw [ht.revisionDigest, ← hswap.revisionDigest, hrevDigest]
    · rw [← hswap.revisionId, hrevId]
    · rw [← hswap.revisionDigest, hrevDigest]

/-- The operation of a marker is not the one that just succeeded. -/
theorem Outcome.ne_of_marker {o : OperationRow} (h : Linear j) (ho : Outcome j j' receipt active o)
    {a : AtomicSuccessRow} (ha : a ∈ j.atomicSuccessCommits.rows) :
    a.operationId ≠ receipt.operationId := by
  obtain ⟨o', ho', ht⟩ := h.operation ha
  exact ne_of_nonterminal ho' ht ho.operation ho.nonterminal

/-- The new marker and the old ones. -/
theorem Outcome.mem_markers {o : OperationRow} (h : Linear j)
    (ho : Outcome j j' receipt active o) {a : AtomicSuccessRow} :
    a ∈ j'.atomicSuccessCommits.rows ↔
      a = ⟨receipt.operationId, active.generation⟩ ∨ a ∈ j.atomicSuccessCommits.rows := by
  rw [ho.markers, Table.mem_put]
  constructor
  · rintro (rfl | ⟨ha, -⟩)
    · exact Or.inl rfl
    · exact Or.inr ha
  · rintro (rfl | ha)
    · exact Or.inl rfl
    · exact Or.inr ⟨ha, ho.ne_of_marker h ha⟩

/-- The operations of old markers are where they were. -/
theorem Outcome.operation_of_marker {o o' : OperationRow} (h : Linear j)
    (ho : Outcome j j' receipt active o) {a : AtomicSuccessRow}
    (ha : a ∈ j.atomicSuccessCommits.rows) :
    j'.operations.get? a.operationId = some o' ↔ j.operations.get? a.operationId = some o' := by
  obtain ⟨o₀, ho₀, ht⟩ := h.operation ha
  rw [ho.grows.settled.operation ho₀ ht, ho₀]

theorem Outcome.follows {o : OperationRow} (h : Linear j) (ho : Outcome j j' receipt active o) :
    Follows j' ⟨receipt.operationId, active.generation⟩ { o with state := .succeeded } receipt := by
  have hgen := ho.generation
  have hprev := ho.previous
  cases hact : j.activeRevisions.get? o.scope with
  | none =>
      rw [hact] at hgen hprev
      exact Or.inl ⟨hgen, hprev⟩
  | some row =>
      rw [hact] at hgen hprev
      obtain ⟨-, hmarker, o', receipt', hact', hscope, hrev, -⟩ :=
        h.active row (Table.mem_of_get? hact)
      have hmem := Table.mem_of_get? hmarker
      refine Or.inr ⟨_, (ho.mem_markers h).mpr (Or.inr hmem), o',
        (ho.operation_of_marker h hmem).mpr hact'.operation, ?_, hgen.symm, ?_⟩
      · rw [hscope]
        exact Table.key_of_get? hact
      · rw [hprev, Option.map_some, hrev, hact'.revision]

/-- **A success continues the history of its scope.** -/
theorem Outcome.linear {o : OperationRow} (h : Linear j) (ho : Outcome j j' receipt active o) :
    Linear j' := by
  have hnew : j'.operations.get? receipt.operationId = some { o with state := .succeeded } :=
    ho.activated.operation
  refine ⟨?_, ?_, ?_, ?_, ?_⟩
  · intro row hrow
    rw [ho.actives] at hrow
    rcases Table.mem_put.mp hrow with rfl | ⟨hrow, -⟩
    · refine ⟨rfl, ?_, { o with state := .succeeded }, receipt, ?_, ho.scope.symm, ho.revisionId,
        ho.revisionDigest⟩
      · rw [ho.markers]
        show (j.atomicSuccessCommits.put _).get? active.operationId = some ⟨active.operationId, _⟩
        rw [ho.activeOf]
        exact Table.get?_put_self j.atomicSuccessCommits ⟨receipt.operationId, active.generation⟩
      · show ActivatedBy j' ⟨active.operationId, _⟩ _ receipt
        rw [ho.activeOf]
        exact ho.activated
    · obtain ⟨hjson, hmarker, o', receipt', hact, hrest⟩ := h.active row hrow
      refine ⟨hjson, ?_, o', receipt', hact.grows ho.grows, hrest⟩
      have hne := ho.ne_of_marker h (Table.mem_of_get? hmarker)
      rw [ho.markers]
      exact (Table.get?_put_ne j.atomicSuccessCommits
        (r := ⟨receipt.operationId, active.generation⟩) hne).trans hmarker
  · intro a ha
    rcases (ho.mem_markers h).mp ha with rfl | ha
    · exact ⟨_, receipt, ho.activated, ho.follows h⟩
    · obtain ⟨o', receipt', hact, hfol⟩ := h.markers a ha
      refine ⟨o', receipt', hact.grows ho.grows, ?_⟩
      rcases hfol with hfirst | ⟨b, hb, ob, hob, hrest⟩
      · exact Or.inl hfirst
      · exact Or.inr ⟨b, (ho.mem_markers h).mpr (Or.inr hb), ob,
          (ho.operation_of_marker h hb).mpr hob, hrest⟩
  · intro a ha o' ho'
    rcases (ho.mem_markers h).mp ha with rfl | ha
    · obtain rfl : ({ o with state := .succeeded } : OperationRow) = o' := by
        rw [hnew] at ho'
        exact Option.some.inj ho'
      refine ⟨activeRow active, ?_, le_refl _⟩
      rw [ho.actives, show ({ o with state := .succeeded } : OperationRow).scope = active.scope from
        ho.scope.symm]
      exact Table.get?_put_self j.activeRevisions (activeRow active)
    · obtain ⟨act, hact, hle⟩ := h.bounded a ha o' ((ho.operation_of_marker h ha).mp ho')
      by_cases hscope : o'.scope = active.scope
      · refine ⟨activeRow active, ?_, ?_⟩
        · rw [ho.actives, hscope]
          exact Table.get?_put_self j.activeRevisions (activeRow active)
        · have hgen := ho.generation
          rw [← ho.scope, ← hscope, hact] at hgen
          show a.activeGeneration.1 ≤ active.generation.1
          simp only [Option.elim_some] at hgen
          omega
      · refine ⟨act, ?_, hle⟩
        rw [ho.actives]
        exact (Table.get?_put_ne j.activeRevisions (r := activeRow active) hscope).trans hact
  · -- generations of old markers of the scope are below the new one
    have hbelow : ∀ a ∈ j.atomicSuccessCommits.rows, ∀ o', j.operations.get? a.operationId = some o' →
        o'.scope = o.scope → a.activeGeneration ≠ active.generation := by
      intro a ha o' ho' hscope heq
      obtain ⟨act, hact, hle⟩ := h.bounded a ha o' ho'
      have hgen := ho.generation
      rw [← hscope, hact] at hgen
      simp only [Option.elim_some] at hgen
      rw [heq] at hle
      omega
    intro a ha a' ha' oa oa' hoa hoa' hscope hgen
    rcases (ho.mem_markers h).mp ha with rfl | ha <;> rcases (ho.mem_markers h).mp ha' with rfl | ha'
    · rfl
    · rw [hnew] at hoa
      obtain rfl := Option.some.inj hoa
      exact absurd hgen.symm
        (hbelow a' ha' oa' ((ho.operation_of_marker h ha').mp hoa') hscope.symm)
    · rw [hnew] at hoa'
      obtain rfl := Option.some.inj hoa'
      exact absurd hgen (hbelow a ha oa ((ho.operation_of_marker h ha).mp hoa) hscope)
    · exact h.unique a ha a' ha' oa oa' ((ho.operation_of_marker h ha).mp hoa)
        ((ho.operation_of_marker h ha').mp hoa') hscope hgen
  · intro row hrow n hpos hle
    have hold : ∀ row ∈ j.activeRevisions.rows, n ≤ row.generation.1 →
        ∃ a ∈ j'.atomicSuccessCommits.rows, a.activeGeneration.1 = n ∧
          ∃ o, j'.operations.get? a.operationId = some o ∧ o.scope = row.scope := by
      intro row hrow hle
      obtain ⟨a, ha, hgen, oa, hoa, hscope⟩ := h.dense row hrow n hpos hle
      exact ⟨a, (ho.mem_markers h).mpr (Or.inr ha), hgen, oa,
        (ho.operation_of_marker h ha).mpr hoa, hscope⟩
    rw [ho.actives] at hrow
    rcases Table.mem_put.mp hrow with rfl | ⟨hrow, -⟩
    · have hgen := ho.generation
      by_cases hn : n = active.generation.1
      · exact ⟨_, (ho.mem_markers h).mpr (Or.inl rfl), hn.symm, _, hnew, ho.scope.symm⟩
      · have hle' : n ≤ active.generation.1 := hle
        cases hact : j.activeRevisions.get? o.scope with
        | none =>
            rw [hact] at hgen
            simp only [Option.elim_none] at hgen
            omega
        | some act =>
            rw [hact] at hgen
            simp only [Option.elim_some] at hgen
            obtain ⟨a, ha, hgena, oa, hoa, hscope⟩ := hold act (Table.mem_of_get? hact) (by omega)
            refine ⟨a, ha, hgena, oa, hoa, hscope.trans ?_⟩
            rw [show (activeRow active).scope = active.scope from rfl, ho.scope]
            exact Table.key_of_get? hact
    · exact hold row hrow hle

end Success

/-! ### Along runs -/

/-- Successes of a coherent journal with a linear history continue it. -/
theorem Linear.commitSuccess {receipt : TerminalReceipt} {expected : Option String}
    {fence : ExecutionFence} {clock : Nat → Option Int} {freshId : Nat → EntityId .event}
    {active : ActiveRevision} (h : Coherent j) (hl : Linear j)
    (hrun : j.commitSuccess receipt expected fence clock freshId = .ok (j', active)) :
    Linear j' := by
  obtain ⟨hterse, hout, -, ⟨rfl, -⟩ | ⟨j₁, j₂, j₃, hs, rfl⟩⟩ := commitSuccess_eq_ok hrun
  · exact hl
  · obtain ⟨o, ho⟩ := hs.outcome h hterse hout
    exact ho.linear hl

/-- **Every successful call but a bare swap keeps the history linear.** -/
theorem Linear.run {c : Call} (h : Coherent j) (hl : Linear j) (hc : c.bareSwap = false)
    (hrun : c.run j = .ok j') : Linear j' := by
  cases hswap : c.swaps with
  | false => exact hl.grows (grows_run hrun) ((frame_run hrun).actives hswap)
  | true =>
      cases c with
      | commitSuccess receipt expected fence clock freshId =>
          rw [Call.run] at hrun
          obtain ⟨active, hrun⟩ := map_fst_eq_ok hrun
          exact hl.commitSuccess h hrun
      | compareAndSwapActiveRevision => exact absurd hc (by simp [Call.bareSwap])
      | _ => exact absurd hswap (by simp [Call.swaps])

end Journal

end Ophelia
