import Ophelia.Journal.Inputs
import Ophelia.Journal.Integrity
import Ophelia.Journal.ScopeLeases

/-!
# Ophelia.Journal.Recovery

The recovery queue: the operations with an execution input that are not terminal and whose
own lease nobody holds, in the order of their acceptance. The fence that a worker then takes
also looks at the scope, which the queue does not.
-/

namespace Ophelia

variable [Platform]

namespace Journal

/-- `WHERE o.state NOT IN … AND (l.operation_id IS NULL OR …)`, over the joined tables. -/
def recoverable (j : Journal) (now : Int) (o : OperationRow) : Bool :=
  (j.operationInputs.get? o.operationId).isSome && !o.state.terminal &&
    (j.operationLeases.get? o.operationId).all fun l => !leaseActive l.ownerId l.expiresAt now

/-- `… ORDER BY o.accepted_at, o.operation_id`. -/
def recoverableRows (j : Journal) (now : Int) : List OperationRow :=
  orderBy (fun o => toLex (o.acceptedAt, o.operationId.val))
    (j.operations.rows.filter (j.recoverable now))

/-- An entry of the queue. Its input must still load. -/
def recoverableRef (j : Journal) (o : OperationRow) : Result OperationRef := do
  let _ ← j.loadExecutionInputTx o.operationId
  return ⟨o.operationId, o.requestId, o.state⟩

/-- `list_recoverable`. -/
def listRecoverable (j : Journal) (limit : Int) (clock : Option Int) :
    Result (List OperationRef) := do
  ensure (1 ≤ limit ∧ limit ≤ 1000)
    (.contractValidation "limit must be an integer from 1 through 1000.")
  let now ← clockSample clock
  ((j.recoverableRows now).take limit.toNat).mapM j.recoverableRef

variable {j : Journal} {now : Int} {o : OperationRow}

theorem mem_recoverableRows :
    o ∈ j.recoverableRows now ↔ o ∈ j.operations.rows ∧ j.recoverable now o = true := by
  rw [recoverableRows, mem_orderBy, List.mem_filter]

theorem recoverableRef_eq_ok {ref : OperationRef} (h : j.recoverableRef o = .ok ref) :
    ref = ⟨o.operationId, o.requestId, o.state⟩ := by
  obtain ⟨-, -, h⟩ := Results.bind_eq_ok.mp h
  exact (Except.ok.inj h).symm

theorem mapM_recoverableRef {rows : List OperationRow} {refs : List OperationRef}
    (h : rows.mapM j.recoverableRef = .ok refs) :
    refs = rows.map fun o => ⟨o.operationId, o.requestId, o.state⟩ := by
  induction rows generalizing refs with
  | nil => exact (Except.ok.inj h).symm
  | cons o rows ih =>
      rw [List.mapM_cons] at h
      obtain ⟨ref, href, h⟩ := Results.bind_eq_ok.mp h
      obtain ⟨rest, hrest, h⟩ := Results.bind_eq_ok.mp h
      rw [← Except.ok.inj h, recoverableRef_eq_ok href, ih hrest]
      rfl

/-- The queue lists the first of the recoverable operations. -/
theorem listRecoverable_eq_ok {limit : Int} {clock : Option Int} {refs : List OperationRef}
    (h : j.listRecoverable limit clock = .ok refs) :
    ∃ now, clock = some now ∧ refs = ((j.recoverableRows now).take limit.toNat).map fun o =>
      ⟨o.operationId, o.requestId, o.state⟩ := by
  obtain ⟨-, -, h⟩ := Results.bind_eq_ok.mp h
  obtain ⟨now, hnow, h⟩ := Results.bind_eq_ok.mp h
  exact ⟨now, clockSample_eq_ok.mp hnow, mapM_recoverableRef h⟩

/-! ### Claiming what is listed -/

/-- Somebody works in the scope of an operation: an active lease of another operation of the
scope, or an active lease of the scope itself. -/
def ScopeBusy (j : Journal) (now : Int) (o : OperationRow) : Prop :=
  (∃ l ∈ j.operationLeases.rows, l.operationId ≠ o.operationId ∧
      leaseActive l.ownerId l.expiresAt now = true ∧
      ∃ o', j.operations.get? l.operationId = some o' ∧ o'.scope = o.scope) ∨
    ∃ s, j.executionScopeLeases.get? o.scope = some s ∧
      leaseActive s.ownerId s.expiresAt now = true

/-- An owner that holds no lease. -/
def FreshOwner (j : Journal) (owner : Text 255) : Prop :=
  (∀ l ∈ j.operationLeases.rows, l.ownerId ≠ some owner) ∧
    ∀ s ∈ j.executionScopeLeases.rows, s.ownerId ≠ some owner

theorem foreignLease_eq_false_iff {owner : Text 255}
    (hown : ∀ l, j.operationLeases.get? o.operationId = some l →
      leaseActive l.ownerId l.expiresAt now = false) :
    j.foreignLease o owner now = false ↔
      ¬ ∃ l ∈ j.operationLeases.rows, l.operationId ≠ o.operationId ∧
        leaseActive l.ownerId l.expiresAt now = true ∧
        ∃ o', j.operations.get? l.operationId = some o' ∧ o'.scope = o.scope := by
  rw [← Bool.not_eq_true, not_iff_not, foreignLease, List.any_eq_true]
  constructor
  · rintro ⟨l, hl, h⟩
    simp only [Bool.and_eq_true, Option.any_eq_true, decide_eq_true_eq] at h
    obtain ⟨⟨⟨o', ho', hscope⟩, hactive⟩, -⟩ := h
    refine ⟨l, hl, fun hid => ?_, hactive, o', ho', hscope⟩
    -- the lease of the operation itself has lapsed
    have hlapsed := hown l (by rw [← hid]; exact Table.get?_of_mem hl)
    rw [hactive] at hlapsed
    cases hlapsed
  · rintro ⟨l, hl, hid, hactive, o', ho', hscope⟩
    refine ⟨l, hl, ?_⟩
    simp only [Bool.and_eq_true, Option.any_eq_true, decide_eq_true_eq, Bool.or_eq_true]
    exact ⟨⟨⟨o', ho', hscope⟩, hactive⟩, .inl hid⟩

/-- A recoverable operation is fenced by a fresh owner exactly when nobody works in its
scope. -/
theorem acquireFence_recoverable_iff {owner : Text 255} {t : Int}
    (ho : j.operations.get? o.operationId = some o) (hrec : j.recoverable now o = true)
    (howner : FreshOwner j owner) (ht : 0 < t ∧ t ≤ 86400 * Platform.second) :
    (∃ r, j.acquireFence o.operationId.val owner.val (some t) (some now) = .ok r) ↔
      ¬ ScopeBusy j now o := by
  simp only [recoverable, Bool.and_eq_true, Bool.not_eq_true'] at hrec
  obtain ⟨⟨-, hterm⟩, hlease⟩ := hrec
  have hown : ∀ l, j.operationLeases.get? o.operationId = some l →
      leaseActive l.ownerId l.expiresAt now = false := by
    intro l hl
    rw [hl, Option.all_some, Bool.not_eq_true'] at hlease
    exact hlease
  constructor
  · rintro ⟨⟨j', f⟩, h⟩
    obtain ⟨o', now', hnow, hid, hfowner, hg, -⟩ := acquireFence_eq_ok h
    obtain rfl := Option.some.inj hnow
    obtain rfl : o' = o :=
      Option.some.inj (hg.found.symm.trans (by rw [Refined.ext hid]; exact ho))
    obtain rfl : f.ownerId = owner := Refined.ext hfowner
    rintro (hforeign | ⟨s, hs, hactive⟩)
    · exact (foreignLease_eq_false_iff hown).mp hg.noForeign hforeign
    · rcases hg.token with ⟨s', hs', -, -, hheld, -⟩ | ⟨hfree, -⟩
      · exact howner.2 s' (Table.mem_of_get? hs') hheld
      · rw [hs, Option.all_some, hactive] at hfree
        cases hfree
  · intro hfree
    have hvalid : validateLeaseInput owner.val (some t) = .ok (owner, t) := by
      unfold validateLeaseInput
      rw [requireText_val, Result.ok_bind]
      exact Results.bind_ok (ensure_of ht) rfl
    have hfound : j.requireNonterminalOperation o.operationId.val = .ok o := by
      simp [requireNonterminalOperation, operation?_val, ho, hterm]
    have hself : (j.operationLeases.get? o.operationId).all (fun l =>
        !leaseActive l.ownerId l.expiresAt now || l.ownerId = some owner) = true := by
      rw [Option.all_eq_true]
      intro l hl
      rw [hown l hl]
      rfl
    have hforeign : j.foreignLease o owner now = false :=
      (foreignLease_eq_false_iff hown).mpr fun h => hfree (.inl h)
    have hscope : (j.executionScopeLeases.get? o.scope).filter
        (fun l => leaseActive l.ownerId l.expiresAt now) = none := by
      rw [Option.filter_eq_none_iff]
      exact fun s hs hactive => hfree (.inr ⟨s, hs, hactive⟩)
    have hheld : ((j.executionScopeLeases.get? o.scope).filter
        (fun l => leaseActive l.ownerId l.expiresAt now)).all (fun l =>
          l.operationId = o.operationId && l.ownerId = some owner) = true := by
      rw [hscope]
      rfl
    exact ⟨_, Results.bind_ok hvalid <| Results.bind_ok hfound <| Results.bind_ok (a := now) rfl <|
      Results.bind_ok (ensure_of hself) <| Results.bind_ok (ensure_of hforeign) <|
      Results.bind_ok (ensure_of hheld) rfl⟩

/-- A queue of one. -/
theorem recoverableRows_singleton (ho : o ∈ j.operations.rows) (hrec : j.recoverable now o = true)
    (honly : ∀ o' ∈ j.operations.rows, j.recoverable now o' = true → o' = o) :
    j.recoverableRows now = [o] := by
  have hnodup : (j.operations.rows.filter (j.recoverable now)).Nodup :=
    (List.Nodup.of_map _ j.operations.unique).filter _
  have hrows : (j.operations.rows.filter (j.recoverable now)).Perm [o] := by
    refine (List.perm_ext_iff_of_nodup hnodup (List.nodup_singleton o)).mpr fun o' => ?_
    rw [List.mem_filter, List.mem_singleton]
    exact ⟨fun h => honly o' h.1 h.2, fun h => h ▸ ⟨ho, hrec⟩⟩
  exact List.perm_singleton.mp ((List.perm_insertionSort _ _).trans hrows)

theorem listRecoverable_singleton {x : ExecutionInput} {limit : Int}
    (hrows : j.recoverableRows now = [o]) (hload : j.loadExecutionInputTx o.operationId = .ok x)
    (hlimit : 1 ≤ limit ∧ limit ≤ 1000) :
    j.listRecoverable limit (some now) = .ok [⟨o.operationId, o.requestId, o.state⟩] := by
  have htake : (j.recoverableRows now).take limit.toNat = [o] := by
    rw [hrows]
    exact List.take_of_length_le (by rw [List.length_singleton]; omega)
  have href : j.recoverableRef o = .ok ⟨o.operationId, o.requestId, o.state⟩ :=
    Results.bind_ok hload rfl
  refine Results.bind_ok (ensure_of hlimit) <| Results.bind_ok (a := now) rfl ?_
  rw [htake, List.mapM_cons, href]
  rfl

/-- **What is listed can be claimed** by a fresh owner exactly when nobody works in the scope
of anything listed. -/
theorem acquireFence_listRecoverable_iff (calls : List Call) {limit t : Int} {owner : Text 255}
    {refs : List OperationRef}
    (hlist : (fresh.runCalls calls).listRecoverable limit (some now) = .ok refs)
    (howner : FreshOwner (fresh.runCalls calls) owner)
    (ht : 0 < t ∧ t ≤ 86400 * Platform.second) :
    (∀ ref ∈ refs, ∃ r, (fresh.runCalls calls).acquireFence ref.operationId.val owner.val (some t)
        (some now) = .ok r) ↔
      ∀ o ∈ ((fresh.runCalls calls).recoverableRows now).take limit.toNat,
        ¬ ScopeBusy (fresh.runCalls calls) now o := by
  obtain ⟨now', hnow, rfl⟩ := listRecoverable_eq_ok hlist
  obtain rfl := Option.some.inj hnow
  rw [List.forall_mem_map]
  refine forall₂_congr fun o ho => ?_
  obtain ⟨hmem, hrec⟩ := mem_recoverableRows.mp (List.mem_of_mem_take ho)
  exact acquireFence_recoverable_iff (Table.get?_of_mem hmem) hrec howner ht

end Journal

end Ophelia

/-! ### Two deployments of a scope -/

namespace Ophelia.Reference

attribute [local instance] platform

/-- The deployment again, under another key. -/
def deployAgain : OperationRequest :=
  { deploy with idempotencyKey := secondKey }

/-- An owner that has not worked yet. -/
def newcomer : Text 255 := ⟨"newcomer", by decide⟩

theorem intentDigest_deployAgain : deploy.intentDigest = deployAgain.intentDigest := by
  rw [OperationRequest.intentDigest, OperationRequest.intentDigest, OperationRequest.intent_eq,
    OperationRequest.intent_eq]
  rfl

theorem validateAcceptanceBinding_deployAgain :
    validateAcceptanceBinding actor deployAgain deployApproval deployAgain.intentDigest =
      .ok () :=
  Journal.validateAcceptanceBinding_bound rfl ⟨intentDigest_deployAgain, rfl, rfl, rfl, rfl, rfl⟩

theorem keyAgain_ne : idempotencyKey actor deployAgain ≠ idempotencyKey actor deploy := by
  decide +kernel

/-- The deployment with its input, and nothing else. -/
def oneDeployment : List Call :=
  [.accept actor deploy deployApproval (some (deployInput stagedRoot staged_relative)) (some EPOCH)
    firstId]

/-- The row of the deployment. -/
def deployed (acceptedAt : Utc) : OperationRow :=
  Journal.acceptedOperation actor deploy deployApproval firstId acceptedAt

theorem accepts_oneDeployment : ∃ acceptedAt,
    Journal.Accepts Journal.fresh (Journal.fresh.runCalls oneDeployment) actor deploy
      deployApproval (some (deployInput stagedRoot staged_relative)) firstId acceptedAt := by
  obtain ⟨j, haccept⟩ := accept_deploy stagedRoot staged_relative (by decide)
  have hrun : Journal.fresh.runCalls oneDeployment = j := by
    unfold Journal.runCalls oneDeployment
    rw [List.foldl_cons, List.foldl_nil, Call.apply_accept haccept]
  rcases Journal.accept_cases haccept with ⟨i, o, hkey, -, -⟩ | ⟨-, -, acceptedAt, ha⟩
  · exact absurd hkey (by simp [Journal.idempotent?, Journal.fresh])
  · exact ⟨acceptedAt, hrun ▸ ha⟩

/-- The deployment alone is listed, and its scope is free. -/
theorem acquireFence_oneDeployment : ∃ refs,
    (Journal.fresh.runCalls oneDeployment).listRecoverable 1 (some EPOCH) = .ok refs ∧
    Journal.FreshOwner (Journal.fresh.runCalls oneDeployment) newcomer ∧ refs ≠ [] ∧
    ∀ ref ∈ refs, ∃ r, (Journal.fresh.runCalls oneDeployment).acquireFence ref.operationId.val
      newcomer.val (some 60) (some EPOCH) = .ok r := by
  obtain ⟨acceptedAt, ha⟩ := accepts_oneDeployment
  have hfree : (Journal.fresh.runCalls oneDeployment).operationLeases = .empty ∧
      (Journal.fresh.runCalls oneDeployment).executionScopeLeases = .empty := by
    rw [ha.result]
    exact ⟨rfl, rfl⟩
  have hoperations : (Journal.fresh.runCalls oneDeployment).operations.rows =
      [deployed acceptedAt] := by
    rw [ha.result]
    rfl
  have hrec : (Journal.fresh.runCalls oneDeployment).recoverable EPOCH (deployed acceptedAt) =
      true := by
    rw [Journal.recoverable, hfree.1, ha.result]
    rfl
  have hrows := Journal.recoverableRows_singleton (j := Journal.fresh.runCalls oneDeployment)
    (by rw [hoperations]; exact List.mem_singleton_self _) hrec (by
      intro o' ho' _
      rw [hoperations] at ho'
      exact List.mem_singleton.mp ho')
  have hlist : (Journal.fresh.runCalls oneDeployment).listRecoverable 1 (some EPOCH) = .ok _ :=
    Journal.listRecoverable_singleton hrows (ha.loadExecutionInputTx_new rfl) (by decide)
  have hfresh : Journal.FreshOwner (Journal.fresh.runCalls oneDeployment) newcomer := by
    rw [Journal.FreshOwner, hfree.1, hfree.2]
    simp
  refine ⟨_, hlist, hfresh, by simp, ?_⟩
  refine (Journal.acquireFence_listRecoverable_iff oneDeployment hlist hfresh (by decide)).mpr ?_
  rintro o - (⟨l, hl, -⟩ | ⟨s, hs, -⟩)
  · rw [hfree.1] at hl
    simp at hl
  · rw [hfree.2] at hs
    simp at hs

/-- The deployment waits while the same deployment under another key works in its scope. -/
def contested : List Call :=
  oneDeployment ++
    [.accept actor deployAgain deployApproval none (some EPOCH) secondId,
      .acquireFence "operation_b" "owner" (some 60) (some EPOCH)]

/-- **A listed operation cannot be claimed.** -/
theorem not_acquireFence_contested : ∃ refs,
    (Journal.fresh.runCalls contested).listRecoverable 1 (some EPOCH) = .ok refs ∧
    Journal.FreshOwner (Journal.fresh.runCalls contested) newcomer ∧
    ¬ ∀ ref ∈ refs, ∃ r, (Journal.fresh.runCalls contested).acquireFence ref.operationId.val
      newcomer.val (some 60) (some EPOCH) = .ok r := by
  obtain ⟨at₁, ha₁⟩ := accepts_oneDeployment
  obtain ⟨texts, hargs, htexts⟩ := Journal.acceptArguments_none
    validateAcceptanceBinding_deployAgain (by decide) (by decide) (by decide)
  obtain ⟨j₂, at₂, hsecond, ha₂⟩ : ∃ j₂ at₂, (Journal.fresh.runCalls oneDeployment).accept actor
      deployAgain deployApproval none (some EPOCH) secondId =
        .ok (j₂, ⟨secondId, deployAgain.requestId, .accepted⟩) ∧
      Journal.Accepts (Journal.fresh.runCalls oneDeployment) j₂ actor deployAgain deployApproval
        none secondId at₂ :=
    ha₁.accept_again hargs htexts keyAgain_ne (by decide) fromTimestamp_epoch rfl (by decide +kernel)
  let o := Journal.acceptedOperation actor deployAgain deployApproval secondId at₂
  let f : ExecutionFence := ⟨secondId, owner, ⟨1, Nat.one_pos⟩, EPOCH + 60⟩
  have hfound : j₂.operations.get? o.operationId = some o := by
    rw [ha₂.result]
    exact Table.get?_put_self _ _
  have hleases : j₂.operationLeases = .empty ∧ j₂.executionScopeLeases = .empty := by
    rw [ha₂.result, ha₁.result]
    exact ⟨rfl, rfl⟩
  have hfence : j₂.acquireFence "operation_b" "owner" (some 60) (some EPOCH) =
      .ok (j₂.withFence o.scope f, f) :=
    Journal.acquireFence_first owner hfound rfl (by decide) (by rw [hleases.1]; rfl)
      (by rw [hleases.2]; rfl)
  have hrun : Journal.fresh.runCalls contested = j₂.withFence o.scope f := by
    have h₂ := Call.apply_accept hsecond
    have h₃ := Call.apply_ok (c := .acquireFence "operation_b" "owner" (some 60) (some EPOCH))
      (congrArg (Except.map Prod.fst) hfence)
    rw [contested, Journal.runCalls, List.foldl_append]
    show List.foldl Call.apply (Journal.fresh.runCalls oneDeployment) _ = _
    rw [List.foldl_cons, List.foldl_cons, List.foldl_nil, h₂, h₃]
  have hload : (Journal.fresh.runCalls contested).loadExecutionInputTx firstId =
      .ok (deployInput stagedRoot staged_relative).masked := by
    rw [contested, Journal.runCalls, List.foldl_append]
    exact Journal.loadExecutionInputTx_runCalls (ha₁.loadExecutionInputTx_new rfl) _
  have hoperations : (j₂.withFence o.scope f).operations.rows = [deployed at₁, o] := by
    show j₂.operations.rows = _
    rw [ha₂.result, ha₁.result]
    rfl
  have hinputs : (j₂.withFence o.scope f).operationInputs.get? firstId =
        some (Journal.acceptedInput firstId (deployInput stagedRoot staged_relative)) ∧
      (j₂.withFence o.scope f).operationInputs.get? secondId = none := by
    show j₂.operationInputs.get? firstId = _ ∧ j₂.operationInputs.get? secondId = none
    rw [ha₂.result, ha₁.result]
    exact ⟨rfl, rfl⟩
  have hlease : (j₂.withFence o.scope f).operationLeases.get? firstId = none := by
    show (j₂.operationLeases.put _).get? firstId = none
    rw [hleases.1]
    rfl
  have hscope : (j₂.withFence o.scope f).executionScopeLeases.get? (deployed at₁).scope =
      some ⟨o.scope, secondId, some owner, ⟨1, Nat.one_pos⟩, EPOCH + 60⟩ := by
    show (j₂.executionScopeLeases.put _).get? (deployed at₁).scope = _
    rw [hleases.2]
    rfl
  have hfresh : Journal.FreshOwner (j₂.withFence o.scope f) newcomer := by
    have hne : owner ≠ newcomer := by decide
    constructor
    · intro l hl
      rcases Table.mem_put.mp hl with rfl | ⟨hl, -⟩
      · exact fun h => hne (Option.some.inj h)
      · rw [hleases.1] at hl
        simp at hl
    · intro s hs
      rcases Table.mem_put.mp hs with rfl | ⟨hs, -⟩
      · exact fun h => hne (Option.some.inj h)
      · rw [hleases.2] at hs
        simp at hs
  rw [hrun] at hload ⊢
  have hdeployed : deployed at₁ ∈ (j₂.withFence o.scope f).operations.rows := by
    rw [hoperations]
    exact List.mem_cons_self
  have hrec : (j₂.withFence o.scope f).recoverable EPOCH (deployed at₁) = true := by
    have hid : (deployed at₁).operationId = firstId := rfl
    rw [Journal.recoverable, hid, hinputs.1, hlease]
    rfl
  have hrows := Journal.recoverableRows_singleton hdeployed hrec (by
    -- the second operation has no input
    intro o' ho' hrec'
    rw [hoperations] at ho'
    rcases List.mem_pair.mp ho' with rfl | rfl
    · rfl
    · have hid : o.operationId = secondId := rfl
      rw [Journal.recoverable, hid, hinputs.2] at hrec'
      cases hrec')
  have hlist : (j₂.withFence o.scope f).listRecoverable 1 (some EPOCH) = .ok _ :=
    Journal.listRecoverable_singleton hrows hload (by decide)
  refine ⟨_, hlist, hfresh, ?_⟩
  intro hall
  have hclaimed := hall _ (List.mem_singleton_self _)
  refine (Journal.acquireFence_recoverable_iff (Table.get?_of_mem hdeployed) hrec hfresh
    (by decide)).mp hclaimed (.inr ⟨_, hscope, ?_⟩)
  show Journal.leaseActive (some owner) (EPOCH + 60) EPOCH = true
  decide

end Ophelia.Reference
