import Ophelia.Journal.Closure
import Ophelia.Journal.Deployment

/-!
# Ophelia.Journal.ActiveLifecycle

The active revision of a scope against the lifecycle of the operation that activated it. A
swap of the active revision moves the lifecycle of its operation to ACTIVE, but nothing ties
the lifecycle to the active revision after that: while the operation is not terminal, the
holder of its fence may append the states that follow ACTIVE.
-/

namespace Ophelia

variable [Platform]

namespace Call

/-- An appended state moves the lifecycle of an operation that an active revision names. -/
def retires (j : Journal) : Call → Prop
  | appendRevisionState id _ _ _ => ∃ row ∈ j.activeRevisions.rows, row.operationId.val = id
  | _ => False

end Call

namespace Journal

variable {j j' : Journal} {id : EntityId .operation}

/-- The lifecycle of the operation of an active revision ended in ACTIVE, with the revision of
the row, and the row reconciles with the input of the operation. -/
def LiveRow (j : Journal) (row : ActiveRow) : Prop :=
  ∃ input history last, j.loadExecutionInputTx row.operationId = .ok input ∧
    j.verifiedRevisionHistory row.operationId = .ok history ∧ history.getLast? = some last ∧
    last.state = .active ∧ last.revisionId = row.revisionId ∧
    last.revisionDigest = row.revisionDigest ∧ activeReconciles row input history

/-- Every active revision is live. -/
def ActivesLive (j : Journal) : Prop :=
  ∀ row ∈ j.activeRevisions.rows, LiveRow j row

theorem ActivesLive.fresh : ActivesLive fresh := by
  intro row hrow
  simp [Journal.fresh] at hrow

theorem LiveRow.congr {row : ActiveRow} (h : LiveRow j row) (hext : Extends j j')
    (hlife : j'.lifecycleRows row.operationId = j.lifecycleRows row.operationId) :
    LiveRow j' row := by
  obtain ⟨input, history, last, hinput, hhistory, hrest⟩ := h
  refine ⟨input, history, last, hext.loadExecutionInputTx hinput, ?_, hrest⟩
  rw [verifiedRevisionHistory_congr hlife]
  exact hhistory

/-- The scope of a live row is the scope of its operation. -/
theorem LiveRow.scope {row : ActiveRow} {o : OperationRow} (h : LiveRow j row)
    (ho : j.operations.get? row.operationId = some o) : row.scope = o.scope := by
  obtain ⟨input, history, last, hinput, -, -, -, -, -, hrec⟩ := h
  rw [hrec.2.2.2.2]
  exact (loadExecutionInputTx_binds hinput ho).1.symm

/-- Calls that leave the active revisions and all lifecycles alone. -/
theorem ActivesLive.same (h : ActivesLive j) (hext : Extends j j')
    (hactive : j'.activeRevisions = j.activeRevisions)
    (hlife : j'.revisionLifecycle = j.revisionLifecycle) : ActivesLive j' := by
  intro row hrow
  rw [hactive] at hrow
  refine (h row hrow).congr hext ?_
  unfold lifecycleRows
  rw [hlife]

/-! ### Lifecycles -/

/-! ### Swaps -/

theorem grows_withActive (j : Journal) (active : ActiveRevision) :
    Grows j (j.withActive active) :=
  Grows.of_eq rfl rfl rfl rfl rfl rfl rfl

theorem grows_withAtomic (j : Journal) (id : EntityId .operation) (generation : Pos) :
    Grows j (j.withAtomic id generation) :=
  Grows.of_eq rfl rfl rfl rfl rfl rfl rfl

/-- **A swap leaves every active revision live**: its own, whose lifecycle it moved, and those
of the other scopes. -/
theorem ActivesLive.swap (h : ActivesLive j) (hj : Coherent j) {o : OperationRow}
    {input : ExecutionInput} {entry : RevisionLifecycleEntry} {active : ActiveRevision}
    (hs : Swaps j o input entry active) (fence : ExecutionFence) :
    ActivesLive ((j.withLifecycle entry fence).withActive active) := by
  have ht := hs.transitions
  have hop := hs.operationId
  have ho : j.operations.get? active.operationId = some o := by
    rw [← hop]
    exact ht.found
  intro row hrow
  rcases Table.mem_put.mp hrow with rfl | ⟨hrow, hne⟩
  · obtain ⟨history, hhistory⟩ := hj.lifecycle (known_of_get? ht.found)
    have hlife := verifiedRevisionHistory_withLifecycle (f := fence) ht hhistory
    have hinput : j.loadExecutionInputTx active.operationId = .ok input := by
      rw [← hop]
      exact ht.loaded
    refine ⟨input, history ++ [entry], entry, ?_, ?_, by simp, hs.state, ?_, ?_, ?_⟩
    · exact (extends_withLifecycle j entry fence).loadExecutionInputTx hinput
    · rw [hop] at hlife
      exact hlife
    · exact ht.revisionId.trans hs.revisionId.symm
    · exact ht.revisionDigest.trans hs.revisionDigest.symm
    · refine ⟨rfl, ?_, hs.revisionId, hs.revisionDigest, ?_⟩
      · simp [hs.state]
      · exact hs.scope.trans (loadExecutionInputTx_binds hinput ho).1
  · -- a row of the swapped operation would be a row of the swapped scope
    have hother : entry.operationId ≠ row.operationId := by
      intro heq
      rw [hop] at heq
      rw [heq] at ho
      exact hne (((h row hrow).scope ho).trans hs.scope.symm)
    have hext := (extends_withLifecycle j entry fence).trans (grows_withActive _ active).extends_
    exact (h row hrow).congr hext (lifecycleRows_withLifecycle_ne ht hother)

/-! ### Appended states -/

omit [Platform] in
theorem permitted_active {state : RevisionState} (h : permitted (some .active) state = true) :
    state ≠ .active := by
  cases state <;> simp_all [permitted, REVISION_TRANSITIONS]

/-- An appended state keeps the active revisions live exactly when none of them names its
operation. -/
theorem ActivesLive.withLifecycle_iff (h : ActivesLive j) {o : OperationRow}
    {input : ExecutionInput} {entry : RevisionLifecycleEntry} (ht : Transitions j o input entry)
    (fence : ExecutionFence) : ActivesLive (j.withLifecycle entry fence) ↔
      ∀ row ∈ j.activeRevisions.rows, row.operationId ≠ entry.operationId := by
  constructor
  · intro hlive row hrow hop
    obtain ⟨input', history, last, -, hhistory, hlast, hstate, -⟩ := h row hrow
    rw [hop] at hhistory
    have hafter := verifiedRevisionHistory_withLifecycle (f := fence) ht hhistory
    obtain ⟨input'', history', last', -, hhistory', hlast', hstate', -⟩ := hlive row hrow
    rw [hop, hafter] at hhistory'
    obtain rfl := Except.ok.inj hhistory'
    -- the lifecycle was in ACTIVE, and ACTIVE does not follow ACTIVE
    obtain rfl : entry = last' := by simpa using hlast'
    obtain ⟨p, hwalk⟩ := verifiedRevisionHistory_eq_ok.mp hhistory
    have hend := lifecycleEnd_of_walk hwalk
    have hperm := ht.permitted
    rw [hend.next.1, ← hend.last, hlast, Option.map_some, hstate] at hperm
    exact permitted_active hperm hstate'
  · intro hnone row hrow
    exact (h row hrow).congr (extends_withLifecycle j entry fence)
      (lifecycleRows_withLifecycle_ne ht (hnone row hrow).symm)

/-! ### Runs -/

/-- **One step**: from live active revisions, a successful call leaves them live exactly when
it does not retire one. -/
theorem ActivesLive.run_iff {c : Call} (h : ActivesLive j) (hj : Coherent j)
    (hrun : c.run j = .ok j') : ActivesLive j' ↔ ¬ c.retires j := by
  have hext := (grows_run hrun).extends_
  cases c with
  | appendRevisionState id state fence clock =>
      rw [Call.run] at hrun
      obtain ⟨entry, hrun⟩ := map_fst_eq_ok hrun
      obtain ⟨hid, hop, -, ⟨o, input, ht⟩, rfl⟩ := appendRevisionState_eq_ok hrun
      rw [h.withLifecycle_iff ht fence]
      simp only [Call.retires, not_exists, not_and]
      refine forall_congr' fun row => imp_congr_right fun _ => ?_
      rw [hop, ← hid, Refined.val_inj]
  | compareAndSwapActiveRevision id expected fence clock =>
      rw [Call.run] at hrun
      obtain ⟨active, hrun⟩ := map_fst_eq_ok hrun
      obtain ⟨o, input, entry, -, hs, rfl⟩ := compareAndSwapActiveRevision_eq_ok hrun
      exact iff_of_true (h.swap hj hs fence) (by simp [Call.retires])
  | commitSuccess receipt expected fence clock freshId =>
      rw [Call.run] at hrun
      obtain ⟨active, hrun⟩ := map_fst_eq_ok hrun
      refine iff_of_true ?_ (by simp [Call.retires])
      obtain ⟨-, -, -, ⟨rfl, -⟩ | ⟨j₁, j₂, j₃, hs, rfl⟩⟩ := commitSuccess_eq_ok hrun
      · exact h
      · -- the swap, the phase events, the receipt and the marker
        obtain ⟨-, -, h₂, h₃, -, a₃⟩ := hs.frames
        obtain ⟨o, input, entry, -, hswap, -, rfl⟩ := casActiveRevisionTx_eq_ok hs.swapped
        obtain ⟨b, hcommit⟩ := hs.committed
        have hlife₃ : j₃.revisionLifecycle = j₂.revisionLifecycle := by
          rcases commitReceiptTx_eq_ok hcommit with ⟨rfl, -⟩ | ⟨r, -, rfl⟩ <;> rfl
        have hlive₂ := (h.swap hj hswap fence).same h₂.grows.extends_ h₂.actives.1 h₂.lifecycle
        have hlive₃ := hlive₂.same h₃.extends_ a₃.1 hlife₃
        exact hlive₃.same (grows_withAtomic j₃ receipt.operationId active.generation).extends_
          rfl rfl
  | _ =>
      refine iff_of_true ?_ (by simp [Call.retires])
      exact h.same hext ((frame_run hrun).actives rfl).1 ((frame_run hrun).lifecycle rfl)

/-- **Active revisions and lifecycles along every run**: in every state of a run the lifecycle
of every active revision ends in ACTIVE, exactly when no successful call of the run appends a
state to the lifecycle of an operation an active revision names. -/
theorem activesLive_iff (calls : List Call) :
    (∀ done rest, calls = done ++ rest → ActivesLive (Journal.fresh.runCalls done)) ↔
      ∀ done c rest j', calls = done ++ c :: rest → c.run (Journal.fresh.runCalls done) = .ok j' →
        ¬ c.retires (Journal.fresh.runCalls done) := by
  refine parts_iff (P := fun done => ActivesLive (Journal.fresh.runCalls done))
    (fun j c => c.retires j) ActivesLive.fresh (fun done c hdone => ?_) calls
  rw [runCalls_concat]
  unfold Call.apply
  split
  · rename_i j' hrun
    rw [hdone.run_iff (Coherent.fresh.runCalls done) hrun]
    simp [hrun]
  · rename_i e hrun
    simp [hrun, hdone]

/-- The active revision of an operation that moved on is not live. -/
theorem Executing.not_live {fence : ExecutionFence} {now : Int}
    {history : List RevisionLifecycleEntry} {last : RevisionLifecycleEntry}
    (h : Executing j fence now (history ++ [last])) (hstate : last.state ≠ .active)
    {row : ActiveRow} (hrow : row ∈ j.activeRevisions.rows) (hop : row.operationId = fence.operationId) :
    ¬ ActivesLive j := by
  intro hlive
  obtain ⟨input, history', last', -, hhistory', hlast', hstate', -⟩ := hlive row hrow
  rw [hop, h.history] at hhistory'
  obtain rfl := Except.ok.inj hhistory'
  obtain rfl : last = last' := by simpa using hlast'
  exact hstate hstate'

end Journal

end Ophelia

namespace Ophelia.Reference

attribute [local instance] platform

/-- A deployment becomes active by a bare swap, and its lifecycle moves on. -/
def drainAfterSwap : List Call :=
  readyDeployment ++
    [.compareAndSwapActiveRevision fence.operationId.val none fence fun _ => some EPOCH,
      appendState .draining]

/-- **An active revision whose lifecycle is draining.** -/
theorem not_activesLive_drainAfterSwap :
    ¬ Journal.ActivesLive (Journal.fresh.runCalls drainAfterSwap) := by
  obtain ⟨history, hexec, hstates, hawaits⟩ := executing_readyDeployment
  have hlen : history.length = 5 := by
    have h := congrArg List.length hstates
    rwa [List.length_map] at h
  have hready : Journal.permitted (history.getLast?.map (·.state)) .active = true := by
    rw [← List.getLast?_map, hstates]
    rfl
  obtain ⟨j₁, active, hswap, hexec, hactive, row, hrow, hop⟩ :=
    hexec.swap fromTimestamp_epoch isoformat_epoch (by omega) hawaits.actives hready
  obtain ⟨draining, hdrain, hexec, hmoved⟩ := hexec.append fromTimestamp_epoch isoformat_epoch
    (by simp [hlen]) .draining (by simp [hactive]; rfl)
  have hrun : Journal.fresh.runCalls drainAfterSwap = j₁.withLifecycle draining fence := by
    unfold drainAfterSwap appendState
    rw [Journal.runCalls, List.foldl_append]
    show (Journal.fresh.runCalls readyDeployment).runCalls _ = _
    rw [Journal.runCalls_cons, Call.apply_ok hswap, Journal.runCalls_cons, Call.apply_ok hdrain]
    rfl
  rw [hrun]
  have hstate : draining.state ≠ .active := by
    rw [hmoved]
    decide
  exact hexec.not_live hstate hrow hop

end Ophelia.Reference
