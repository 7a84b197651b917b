import Ophelia.Journal.Activation
import Ophelia.Journal.Deployment

/-!
# Ophelia.Journal.Closure

A healthy journal opens again. The kernel calls keep the journal coherent, its scope leases
in step with its operation leases, and its active revisions linear; a journal with these
three properties passes the integrity check.
-/

namespace Ophelia

variable [Platform]

namespace Journal

variable {j j' : Journal} {id : EntityId .operation}

/-! ### Scope leases -/

/-- The greatest token of a scope is the greatest token of a lease of one of its
operations. -/
theorem maxScopeToken_le {scope : Scope} {n : Nat} :
    j.maxScopeToken scope ≤ n ↔ ∀ l ∈ j.operationLeases.rows, ∀ o,
      j.operations.get? l.operationId = some o → o.scope = scope → l.fencingToken.1 ≤ n := by
  unfold maxScopeToken scopeTokens
  rw [foldr_max_le]
  constructor
  · intro h l hl o ho hscope
    refine h _ (List.mem_map.mpr ⟨l, List.mem_filter.mpr ⟨hl, ?_⟩, rfl⟩)
    simp [ho, hscope]
  · intro h m hm
    obtain ⟨l, hl, rfl⟩ := List.mem_map.mp hm
    obtain ⟨hl, hany⟩ := List.mem_filter.mp hl
    obtain ⟨o, ho⟩ : ∃ o, j.operations.get? l.operationId = some o := by
      cases hop : j.operations.get? l.operationId with
      | none => simp [hop] at hany
      | some o => exact ⟨o, rfl⟩
    exact h l hl o ho (by simpa [ho] using hany)

/-- Scope leases agree with the leases of their operations. -/
def Fenced (j : Journal) : Prop :=
  ∀ s ∈ j.executionScopeLeases.rows, j.scopeLeaseReconciles s

theorem Fenced.fresh : Fenced fresh := by
  intro s hs
  simp [Journal.fresh] at hs

/-- Calls that leave the leases alone keep them in step. -/
theorem Fenced.sameLeases (h : Fenced j) (hj : Coherent j) (hext : Extends j j')
    (hs : SameLeases j j') : Fenced j' := by
  obtain ⟨hl, hsl⟩ := hs
  intro s hmem
  rw [hsl] at hmem
  obtain ⟨hop, hmax, hlease⟩ := h s hmem
  refine ⟨?_, ?_, by rw [hl]; exact hlease⟩
  · obtain ⟨o, ho, hscope⟩ := Option.map_eq_some_iff.mp hop
    obtain ⟨st, hst⟩ := hext.operations ho
    rw [hst]
    exact congrArg some hscope
  · rw [maxScopeToken_le] at hmax ⊢
    rw [hl]
    intro l hlmem o' ho' hscope
    obtain ⟨o, ho⟩ := Option.isSome_iff_exists.mp (hj.leases l hlmem)
    obtain ⟨st, hst⟩ := hext.operations ho
    rw [hst] at ho'
    obtain rfl := Option.some.inj ho'
    exact hmax l hlmem o ho hscope

/-- A row written to both lease tables of a scope, with a token no lease of the scope
exceeds. -/
theorem Fenced.put (h : Fenced j) {o : OperationRow}
    (ho : j.operations.get? o.operationId = some o) (owner : Option (Text 255)) {token : Pos}
    (expiresAt : Int) (hmax : j.maxScopeToken o.scope ≤ token.1) :
    Fenced { j with
      operationLeases := j.operationLeases.put ⟨o.operationId, owner, token, expiresAt⟩
      executionScopeLeases :=
        j.executionScopeLeases.put ⟨o.scope, o.operationId, owner, token, expiresAt⟩ } := by
  intro s hs
  rw [maxScopeToken_le] at hmax
  rcases Table.mem_put.mp hs with rfl | ⟨hs, hne⟩
  · refine ⟨?_, ?_, ?_⟩
    · show (j.operations.get? o.operationId).map _ = _
      rw [ho]
      rfl
    · rw [maxScopeToken_le]
      intro l hl o' ho' hscope
      rcases Table.mem_put.mp hl with rfl | ⟨hl, -⟩
      · exact le_refl _
      · exact hmax l hl o' ho' hscope
    · show ((j.operationLeases.put ⟨o.operationId, owner, token, expiresAt⟩).get? o.operationId).map
        _ = _
      rw [Table.get?_put_self j.operationLeases ⟨o.operationId, owner, token, expiresAt⟩]
      rfl
  · -- the row of another scope belongs to another operation
    obtain ⟨hop, hmax', hlease⟩ := h s hs
    obtain ⟨o', ho', hscope'⟩ := Option.map_eq_some_iff.mp hop
    have hother : s.operationId ≠ o.operationId := by
      intro heq
      rw [heq, ho] at ho'
      obtain rfl := Option.some.inj ho'
      exact hne hscope'.symm
    refine ⟨hop, ?_, ?_⟩
    · rw [maxScopeToken_le] at hmax' ⊢
      intro l hl o'' ho'' hscope''
      rcases Table.mem_put.mp hl with rfl | ⟨hl, -⟩
      · change j.operations.get? o.operationId = some o'' at ho''
        rw [ho] at ho''
        obtain rfl := Option.some.inj ho''
        exact absurd hscope''.symm hne
      · exact hmax' l hl o'' ho'' hscope''
    · rw [← hlease]
      congr 1
      exact Table.get?_put_ne j.operationLeases hother

theorem LeaseHeld.owner_eq {owner : Text 255} {token now : Int} {l : LeaseRow}
    (h : LeaseHeld j id owner.val token now l) : l.ownerId = some owner := by
  obtain ⟨o, ho, hval⟩ := Option.map_eq_some_iff.mp h.owner
  rw [ho, Refined.val_inj.mp hval]

theorem ScopeHeld.owner_eq {owner : Text 255} {token now : Int} {o : OperationRow}
    {s : ScopeLeaseRow} (h : ScopeHeld j id owner.val token now o s) : s.ownerId = some owner := by
  obtain ⟨x, hx, hval⟩ := Option.map_eq_some_iff.mp h.owner
  rw [hx, Refined.val_inj.mp hval]

/-- The two rows a valid fence stands for. -/
theorem rows_of_held {fence : ExecutionFence} {now : Int} {l : LeaseRow} {o : OperationRow}
    {s : ScopeLeaseRow}
    (hl : LeaseHeld j fence.operationId fence.ownerId.val fence.fencingToken.1 now l)
    (hs : ScopeHeld j fence.operationId fence.ownerId.val fence.fencingToken.1 now o s) :
    l = ⟨o.operationId, some fence.ownerId, fence.fencingToken, l.expiresAt⟩ ∧
      s = ⟨o.scope, o.operationId, some fence.ownerId, fence.fencingToken, s.expiresAt⟩ := by
  have hop : o.operationId = fence.operationId := Table.key_of_get? hs.operation
  have hkey : l.operationId = fence.operationId := Table.key_of_get? hl.row
  have hscope : s.scope = o.scope := Table.key_of_get? hs.row
  have htl : l.fencingToken = fence.fencingToken := Subtype.ext (by exact_mod_cast hl.token)
  have hts : s.fencingToken = fence.fencingToken := Subtype.ext (by exact_mod_cast hs.token)
  obtain ⟨lo, low, lt, le⟩ := l
  obtain ⟨sc, so, sow, st, se⟩ := s
  have how := hl.owner_eq
  have how' := hs.owner_eq
  have hholder := hs.holder
  simp only at *
  subst hkey htl hts how how' hscope
  simp [hop, hholder]

/-- The token of a granted fence tops the leases of its scope. -/
theorem Granted.token_le (h : Fenced j) {o : OperationRow} {now : Int} {f : ExecutionFence}
    (hg : Granted j o now f) : j.maxScopeToken o.scope ≤ f.fencingToken.1 := by
  rcases hg.token with ⟨s, hs, -, -, -, htoken⟩ | ⟨-, htoken⟩
  · rw [htoken]
    have := (h s (Table.mem_of_get? hs)).2.1
    rwa [Table.key_of_get? hs] at this
  · rw [htoken]
    exact le_trans (le_max_right _ _) (Nat.le_succ _)

/-- **The fence calls keep both lease tables in step.** -/
theorem Fenced.runLease {c : Call} (h : Fenced j) (hc : c.kernel = true)
    (hlease : c.leases = true) (hrun : c.run j = .ok j') : Fenced j' := by
  cases c with
  | acquireFence id owner ttl clock =>
      rw [Call.run] at hrun
      obtain ⟨f, hrun⟩ := map_fst_eq_ok hrun
      obtain ⟨o, now, -, -, -, hg, rfl⟩ := acquireFence_eq_ok hrun
      have hput := h.put hg.found (some f.ownerId) f.expiresAt (hg.token_le h)
      rw [← hg.operation] at hput
      exact hput
  | heartbeatFence fence ttl clock =>
      rw [Call.run] at hrun
      obtain ⟨f, hrun⟩ := map_fst_eq_ok hrun
      obtain ⟨l, o, s, now, -, hl, hs, -, -, rfl⟩ := heartbeatFence_eq_ok hrun
      obtain ⟨hl', hs'⟩ := rows_of_held hl hs
      have hmax : j.maxScopeToken o.scope ≤ fence.fencingToken.1 := by
        have := (h s (Table.mem_of_get? hs.row)).2.1
        rw [hs'] at this
        exact this
      have hop : o.operationId = fence.operationId := Table.key_of_get? hs.operation
      have hput := h.put (by rw [hop]; exact hs.operation) (some fence.ownerId) f.expiresAt hmax
      rw [hl', hs']
      exact hput
  | releaseFence fence clock =>
      rw [Call.run] at hrun
      obtain ⟨u, hrun⟩ := map_fst_eq_ok hrun
      obtain ⟨l, o, s, now, -, hl, hs, rfl⟩ := releaseFence_eq_ok hrun
      obtain ⟨hl', hs'⟩ := rows_of_held hl hs
      have hmax : j.maxScopeToken o.scope ≤ fence.fencingToken.1 := by
        have := (h s (Table.mem_of_get? hs.row)).2.1
        rw [hs'] at this
        exact this
      have hop : o.operationId = fence.operationId := Table.key_of_get? hs.operation
      have hput := h.put (by rw [hop]; exact hs.operation) none now hmax
      rw [hl', hs']
      exact hput
  | acquireLease => exact absurd hc (by simp [Call.kernel])
  | heartbeatLease => exact absurd hc (by simp [Call.kernel])
  | releaseLease => exact absurd hc (by simp [Call.kernel])
  | _ => exact absurd hlease (by simp [Call.leases])

theorem Fenced.run {c : Call} (h : Fenced j) (hj : Coherent j) (hc : c.kernel = true)
    (hrun : c.run j = .ok j') : Fenced j' := by
  cases hlease : c.leases with
  | true => exact h.runLease hc hlease hrun
  | false => exact h.sameLeases hj (grows_run hrun).extends_ ((frame_run hrun).leases hlease)

/-- The journal is as the kernel calls leave it. -/
structure Healthy (j : Journal) : Prop where
  coherent : Coherent j
  fenced : Fenced j
  linear : Linear j

theorem Healthy.fresh : Healthy fresh :=
  ⟨Coherent.fresh, Fenced.fresh, Linear.fresh⟩

theorem Healthy.run {c : Call} (h : Healthy j) (hc : c.kernel = true)
    (hrun : c.run j = .ok j') : Healthy j' := by
  have hbare : c.bareSwap = false := by cases c <;> simp_all [Call.kernel, Call.bareSwap]
  exact ⟨h.coherent.run hrun, h.fenced.run h.coherent hc hrun, h.linear.run h.coherent hbare hrun⟩

/-! ### The check passes -/

omit [Platform] in
theorem forM_ok {α : Type} {f : α → Result Unit} {l : List α} (h : ∀ x ∈ l, f x = .ok ()) :
    l.forM f = .ok () := by
  induction l with
  | nil => rfl
  | cons x l ih =>
      show (f x >>= fun _ => l.forM f) = .ok ()
      rw [h x (by simp)]
      exact ih fun y hy => h y (by simp [hy])

theorem foreignKeys_of_healthy (h : Healthy j) : j.foreignKeys := by
  have hc := h.coherent
  refine ⟨hc.plans, ?_, hc.idempotency, hc.events, hc.leases, hc.receipts, ?_, ?_, ?_, ?_, ?_,
    hc.scopeLeases, ?_, ?_, ?_⟩
  · intro o ho
    have hget := Table.get?_of_mem ho
    obtain ⟨r, claims, events, p, hh⟩ := hc.exists_history (known_of_get? hget)
    obtain ⟨hop, happroval, -⟩ := acceptedRow?_eq_some.mp hh.accepted
    rw [hget] at hop
    rw [Option.some.inj hop, happroval]
    rfl
  · intro i hi
    obtain ⟨input, hinput⟩ := hc.inputs i hi
    exact known_of_loadExecutionInputTx hinput
  · intro c hctl
    exact (hc.controls c hctl).1
  · intro l hl
    obtain ⟨input, -, hinput, -⟩ := hc.bound l hl
    exact known_of_loadExecutionInputTx hinput
  · intro a ha
    obtain ⟨-, -, o, receipt, hact, -⟩ := h.linear.active a ha
    exact known_of_get? hact.operation
  · intro a ha
    obtain ⟨o, receipt, hact, -⟩ := h.linear.markers a ha
    obtain ⟨row, hrow, -⟩ := hact.stored
    rw [hrow]
    rfl
  · intro e he id hid
    obtain ⟨-, -, id', hid', hk⟩ := hc.mirror.shape e he
    rw [hid] at hid'
    rw [Option.some.inj hid']
    exact hk
  · rw [hc.daemon.2.2.2.2.2.2]
    simp
  · rw [hc.daemon.2.2.1]
    simp

theorem checkHostEvents_ok (h : Mirror j) : j.checkHostEvents = .ok () := by
  have hfilter : (j.hostEvents.rows.filter fun x => x.eventType = .operation) =
      j.hostEvents.rows := by
    rw [List.filter_eq_self]
    intro x hx
    simpa using (h.shape x hx).1
  refine Results.bind_ok (ensure_of ?_) <| ensure_eq_ok.mpr ?_
  · rw [hfilter]
    refine ⟨h.count, fun x hx => ?_⟩
    obtain ⟨-, -, id, hid, -⟩ := h.shape x hx
    obtain ⟨e, he, heid, hdig, hjson⟩ := h.mirrored x hx
    have hfind : j.mirrored? x = some e := by
      unfold mirrored?
      cases hf : j.operationEvents.rows.find? fun e => e.eventId = x.eventId with
      | none =>
          have := List.find?_eq_none.mp hf e he
          simp [heid] at this
      | some e' =>
          have hid' : e'.eventId = x.eventId := by simpa using List.find?_some hf
          rw [h.eventIds e' (List.mem_of_find?_eq_some hf) e he (hid'.trans heid.symm)]
    simp [hid, hfind, hdig, hjson]
  · intro x hx
    obtain ⟨htype, hrun, id, hid, -⟩ := h.shape x hx
    simp [hostEventShape, htype, hrun, hid]

theorem checkDelivery_ok (h : Coherent j) : j.checkDelivery = .ok () := by
  refine forM_ok fun d hd => ?_
  have hd := mem_orderBy.mp hd
  have hutc : requireUtc d.updatedAt.val = .ok () := ensure_eq_ok.mpr d.updatedAt.ok
  simp only [requireText_val, Result.ok_bind, hutc]
  exact ensure_eq_ok.mpr (h.delivery d hd)

/-- The checks of the daemon's tables, which are empty. -/
theorem checkDaemon_ok (h : DaemonIdle j) (hm : Mirror j) :
    j.checkDaemonPlanRequests = .ok () ∧ j.checkHostState = .ok () ∧
      j.checkHostObservations = .ok () ∧ j.checkAgent = .ok () ∧
      j.checkWorkloadRuns = .ok () := by
  obtain ⟨h₁, h₂, h₃, h₄, h₅, h₆, h₇⟩ := h
  have hfilter : (j.hostEvents.rows.filter fun x => x.eventType = .workload) = [] := by
    rw [List.filter_eq_nil_iff]
    intro x hx
    simp [(hm.shape x hx).1]
  refine ⟨?_, ?_, ?_, ?_, ?_⟩
  · rw [checkDaemonPlanRequests, h₁]
    rfl
  · rw [checkHostState, h₂]
    rfl
  · rw [checkHostObservations, h₃]
    rfl
  · rw [checkAgent, h₄, h₅]
    rfl
  · rw [checkWorkloadRuns, h₆, hfilter]
    rfl

theorem checkLifecycle_ok (h : Coherent j) : j.checkLifecycle = .ok () := by
  refine forM_ok fun row hrow => ?_
  obtain ⟨input, history, hinput, hhistory, hbinds⟩ := h.bound row hrow
  simp only [hinput, hhistory, Result.ok_bind]
  exact ensure_eq_ok.mpr hbinds

theorem checkActive_ok (h : Linear j) : j.checkActive = .ok () := by
  refine forM_ok fun row hrow => ?_
  obtain ⟨hjson, -, o, receipt, hact, hscope, hrev, hdig⟩ := h.active row hrow
  obtain ⟨input, history, last, hinput, hhistory, hlast, hstate, -, -, hrev', hdig'⟩ := hact.lifecycle
  simp only [hinput, hhistory, Result.ok_bind]
  refine ensure_eq_ok.mpr ⟨hjson, ?_, ?_, ?_, ?_⟩
  · rw [hlast, Option.map_some, hstate]
  · rw [hrev, hrev']
  · rw [hdig, hdig']
  · rw [← hscope]
    exact (loadExecutionInputTx_binds hinput hact.operation).1

theorem checkScopeLeases_ok (h : Fenced j) : j.checkScopeLeases = .ok () :=
  forM_ok fun s hs => ensure_eq_ok.mpr (h s hs)

/-! ### The markers -/

/-- A joined marker comes from a marker, its receipt and its operation. -/
theorem atomicRow?_eq_some {a : AtomicSuccessRow} {row : AtomicRow} :
    j.atomicRow? a = some row ↔ ∃ r o, j.receipt? a.operationId = some r ∧
      j.operations.get? a.operationId = some o ∧
      row = ⟨a.operationId, a.activeGeneration.1, r.outcome, r.payloadJson, o.scope⟩ := by
  simp only [atomicRow?, Option.bind_eq_bind, Option.bind_eq_some_iff, Option.pure_def,
    Option.some.injEq]
  constructor
  · rintro ⟨r, hr, o, ho, rfl⟩
    exact ⟨r, o, hr, ho, rfl⟩
  · rintro ⟨r, o, hr, ho, rfl⟩
    exact ⟨r, hr, o, ho, rfl⟩

theorem mem_atomicRows {row : AtomicRow} :
    row ∈ j.atomicRows ↔ ∃ a ∈ j.atomicSuccessCommits.rows, j.atomicRow? a = some row := by
  rw [atomicRows, mem_orderBy, List.mem_filterMap]

/-- No operation has two markers. -/
theorem atomicRows_nodup : j.atomicRows.Pairwise fun a b => a.operationId ≠ b.operationId := by
  have hmarkers := List.pairwise_map.mp j.atomicSuccessCommits.unique
  have hjoined : (j.atomicSuccessCommits.rows.filterMap j.atomicRow?).Pairwise
      fun a b => a.operationId ≠ b.operationId := by
    refine List.pairwise_filterMap.mpr (hmarkers.imp ?_)
    intro a a' hne row hrow row' hrow'
    obtain ⟨r, o, -, -, rfl⟩ := atomicRow?_eq_some.mp hrow
    obtain ⟨r', o', -, -, rfl⟩ := atomicRow?_eq_some.mp hrow'
    exact hne
  exact (List.Perm.pairwise_iff (fun h => h.symm) (List.perm_insertionSort _ _)).mpr hjoined

/-- The markers of a scope come in the order of their generations. -/
theorem atomicRows_ascending (h : Linear j) : j.atomicRows.Pairwise
    fun a b => a.scope = b.scope → a.generation < b.generation := by
  have hsorted : j.atomicRows.Pairwise fun a b => a.order ≤ b.order := by
    unfold atomicRows orderBy
    exact List.pairwise_insertionSort _ _
  refine (hsorted.and atomicRows_nodup).imp_of_mem ?_
  rintro row row' hrow hrow' ⟨hle, hne⟩ hscope
  have hgen : row.generation ≤ row'.generation := by
    simp only [AtomicRow.order, hscope, Prod.Lex.toLex_le_toLex, lt_irrefl, false_or,
      true_and] at hle
    rcases hle with hlt | ⟨heq, -⟩
    · exact le_of_lt hlt
    · exact le_of_eq heq
  refine lt_of_le_of_ne hgen fun heq => hne ?_
  -- two successes of one scope with one generation are one success
  obtain ⟨a, ha, hjoin⟩ := mem_atomicRows.mp hrow
  obtain ⟨a', ha', hjoin'⟩ := mem_atomicRows.mp hrow'
  obtain ⟨r, o, -, ho, rfl⟩ := atomicRow?_eq_some.mp hjoin
  obtain ⟨r', o', -, ho', rfl⟩ := atomicRow?_eq_some.mp hjoin'
  rw [h.unique a ha a' ha' o o' ho ho' hscope (Subtype.ext heq)]

/-- One marker passes, when the last marker seen in its scope is an earlier one. -/
theorem atomicStep_ok (h : Linear j) {latest : LatestAtomic} {row : AtomicRow}
    (hrow : row ∈ j.atomicRows)
    (hlatest : ∀ p, latest.get? row.scope = some p → p.2.2 < row.generation) :
    j.atomicStep latest row =
      .ok ((), latest.put (row.scope, row.operationId, row.generation)) := by
  obtain ⟨a, ha, hjoin⟩ := mem_atomicRows.mp hrow
  obtain ⟨r, o, hr, ho, rfl⟩ := atomicRow?_eq_some.mp hjoin
  obtain ⟨o', receipt, hact, -⟩ := h.markers a ha
  obtain ⟨row, hstored, hout, hjson⟩ := hact.stored
  obtain rfl : row = r := Option.some.inj (hstored.symm.trans hr)
  obtain ⟨input, history, last, hinput, hhistory, hlast, hstate, hrev, hdig, hrev', hdig'⟩ :=
    hact.lifecycle
  have hparse : (jsonLoads row.payloadJson >>= TerminalReceipt.fromPayload) =
      .ok receipt.masked := by
    rw [hjson, TerminalReceipt.canonicalJson, jsonLoads_canonicalJson, Result.ok_bind]
    exact receipt.fromPayload_toDict hact.terse
  have hreconciles : atomicReconciles ⟨a.operationId, a.activeGeneration.1, row.outcome,
      row.payloadJson, o.scope⟩ (latest.get? o.scope) history receipt.masked input := by
    refine ⟨hout, ?_, hact.receiptOf, hrev'.symm, hdig'.symm, ?_, ?_, ?_⟩
    · rw [hlast, Option.map_some, hstate]
    · rw [hlast, Option.map_some, hrev]
      rfl
    · rw [hlast, Option.map_some, hdig]
      rfl
    · cases hp : latest.get? o.scope with
      | none => rfl
      | some p => simpa using hlatest p hp
  simp only [atomicStep, hhistory, hparse, hinput, Result.ok_bind]
  exact Results.bind_ok (ensure_of hreconciles) rfl

/-- **The success markers reconcile** with the receipts, the lifecycles and the active
revisions. -/
theorem checkAtomic_ok (h : Linear j) : j.checkAtomic = .ok () := by
  -- along the walk, the last marker of a scope is one that was passed
  let Seen (done : List AtomicRow) (latest : LatestAtomic) : Prop :=
    ∀ l ∈ latest.rows, ∃ row ∈ done,
      row.scope = l.1 ∧ row.operationId = l.2.1 ∧ row.generation = l.2.2
  have hwalk : ∃ units latest, walk j.atomicStep .empty j.atomicRows = .ok (units, latest) ∧
      Seen j.atomicRows latest := by
    refine walk.progress (P := Seen) (by simp [Seen]) ?_
    intro done latest row rest hrows hseen
    have hmem : row ∈ j.atomicRows := by simp [hrows]
    refine ⟨(), _, atomicStep_ok h hmem ?_, ?_⟩
    · intro p hp
      obtain ⟨row', hrow', hscope, -, hgen⟩ := hseen p (Table.mem_of_get? hp)
      have hasc := atomicRows_ascending h
      rw [hrows, List.pairwise_append] at hasc
      rw [← hgen]
      refine hasc.2.2 row' hrow' row (by simp) ?_
      rw [hscope, Table.key_of_get? hp]
    · intro l hl
      rcases Table.mem_put.mp hl with rfl | ⟨hl, -⟩
      · exact ⟨row, by simp, rfl, rfl, rfl⟩
      · obtain ⟨row', hrow', hrest⟩ := hseen l hl
        exact ⟨row', by simp [hrow'], hrest⟩
  obtain ⟨units, latest, hwalk, hseen⟩ := hwalk
  simp only [checkAtomic, hwalk, Result.ok_bind]
  refine forM_ok fun l hl => ensure_eq_ok.mpr ?_
  obtain ⟨row, hrow, hscope, hop, hgen⟩ := hseen l hl
  obtain ⟨a, ha, hjoin⟩ := mem_atomicRows.mp hrow
  obtain ⟨r, o, -, ho, rfl⟩ := atomicRow?_eq_some.mp hjoin
  obtain ⟨act, hact, hle⟩ := h.bounded a ha o ho
  simp only at hscope hop hgen
  rw [latestReconciles, ← hscope, ← hop, ← hgen, hact]
  have hsame : act.generation.1 = a.activeGeneration.1 → act.operationId = a.operationId := by
    intro heq
    obtain ⟨-, hmarker, o', receipt, hact', hscope', -⟩ := h.active act (Table.mem_of_get? hact)
    have := h.unique a ha _ (Table.mem_of_get? hmarker) o o' ho hact'.operation
      (by rw [hscope', Table.key_of_get? hact]) (Subtype.ext heq.symm)
    rw [this]
  rw [Option.any_some, Bool.and_eq_true, decide_eq_true_eq, Bool.or_eq_true, bne_iff_ne,
    decide_eq_true_eq]
  refine ⟨hle, ?_⟩
  by_cases heq : act.generation.1 = a.activeGeneration.1
  · exact Or.inr (hsame heq)
  · exact Or.inl heq

/-! ### The journal opens again -/

/-- **A healthy journal passes the integrity check.** -/
theorem checkIntegrity_of_healthy (h : Healthy j) : j.checkIntegrity = .ok () := by
  have hc := h.coherent
  obtain ⟨hplan, hstate, hobs, hagent, hruns⟩ := checkDaemon_ok hc.daemon hc.mirror
  have hverified : (orderBy (·.operationId.val) j.operations.rows).forM (fun o => do
      let _ ← j.verifiedEvents o.operationId
      return ()) = .ok () := by
    refine forM_ok fun o ho => ?_
    obtain ⟨r, claims, events, p, hh⟩ :=
      hc.exists_history (known_of_get? (Table.get?_of_mem (mem_orderBy.mp ho)))
    rw [verifiedEvents_eq_ok.mpr ⟨r, claims, p, hh⟩]
    rfl
  have hinputs : (orderBy (·.operationId.val) j.operationInputs.rows).forM (fun i => do
      let _ ← j.loadExecutionInputTx i.operationId
      return ()) = .ok () := by
    refine forM_ok fun i hi => ?_
    obtain ⟨input, hinput⟩ := hc.inputs i (mem_orderBy.mp hi)
    rw [hinput]
    rfl
  have hcontrols : (orderBy (·.operationId.val) j.operationControls.rows).forM (fun c => do
      let _ ← j.controlTx c.operationId
      return ()) = .ok () := by
    refine forM_ok fun c hctl => ?_
    obtain ⟨-, control, hcontrol⟩ := hc.controls c (mem_orderBy.mp hctl)
    rw [hcontrol]
    rfl
  refine Results.bind_ok (ensure_of (foreignKeys_of_healthy h)) <| wrapIntegrity_eq_ok.mpr ?_
  simp only [semanticIntegrity, hverified, checkHostEvents_ok hc.mirror, checkDelivery_ok hc, hplan,
    hstate, hobs, hagent, hruns, hinputs, hcontrols, checkScopeLeases_ok h.fenced,
    checkLifecycle_ok hc, checkActive_ok h.linear, checkAtomic_ok h.linear, Result.ok_bind]

/-- **The journal the kernel writes always opens again**: after any sequence of kernel calls
on a fresh journal, accepted or refused, the integrity check passes. -/
theorem checkIntegrity_runCalls (calls : List Call) (hcalls : ∀ c ∈ calls, c.kernel = true) :
    (Journal.fresh.runCalls calls).checkIntegrity = .ok () := by
  exact checkIntegrity_of_healthy
    (runCalls_induction (fun hc h hrun => h.run hc hrun) hcalls Healthy.fresh)

end Journal

end Ophelia

namespace Ophelia.Reference

attribute [local instance] platform

/-- The journal that released a deployment passes the integrity check. -/
theorem checkIntegrity_releasedDeployment : (∀ c ∈ releasedDeployment, c.kernel = true) ∧
    (∃ active ∈ (Journal.fresh.runCalls releasedDeployment).activeRevisions.rows,
      active.operationId = firstId ∧ active.generation.1 = 1) ∧
    (Journal.fresh.runCalls releasedDeployment).checkIntegrity = .ok () := by
  have hcalls : ∀ c ∈ releasedDeployment, c.kernel = true := by
    simp [releasedDeployment, readyDeployment, appendState, Call.kernel]
  obtain ⟨active, hactive, hop, hgen⟩ := active_releasedDeployment
  exact ⟨hcalls, ⟨_, Table.mem_of_get? hactive, hop, hgen⟩,
    Journal.checkIntegrity_runCalls releasedDeployment hcalls⟩

end Ophelia.Reference
