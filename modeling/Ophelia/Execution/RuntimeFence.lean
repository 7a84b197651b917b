import Ophelia.Lib.Table
import Ophelia.Domain.Contracts

/-!
# Ophelia.Execution.RuntimeFence

The durable fence in front of the side effects on one runtime
(`execution/runtime_fence.py`). A runtime keeps the record of the last fence it let in; a
fence with a smaller token, or with the same token and another operation, is rejected. The
lock of the runtime is held from entering to leaving, so whoever is inside is the one the
record names.

A record is written to a temporary file and renamed into place. A fault before the rename
leaves the old record, a fault after it leaves the new one; both times nobody gets in.
-/

namespace Ophelia

/-! ### Identifiers -/

/-- `^[A-Za-z0-9][A-Za-z0-9._:-]{0,127}$`. -/
def isStoredIdentifier : List Char → Bool
  | [] => false
  | c :: cs =>
      c.isAlphanum && decide (cs.length ≤ 127) &&
        cs.all fun c => c.isAlphanum || c == '.' || c == '_' || c == ':' || c == '-'

abbrev StoredIdentifier := Refined isStoredIdentifier

/-- The errors of the runtime fence, with their messages. -/
inductive RuntimeFenceFailure where
  | invalidRuntimeFence (message : String)
  | runtimeFenceRejected (message : String)
  | runtimeFenceRecordError (message : String)
deriving DecidableEq, Repr

/-- Check an argument of the fence. -/
def validateIdentifier (p : List Char → Bool) (message value : String) :
    Except RuntimeFenceFailure (Refined p) :=
  if h : p value.toList = true then .ok ⟨value, h⟩ else .error (.invalidRuntimeFence message)

/-- `_validate_stored_identifier`. -/
def validateStoredIdentifier (value field : String) :
    Except RuntimeFenceFailure StoredIdentifier :=
  validateIdentifier isStoredIdentifier (field ++ " must be a safe identifier") value

/-- `_validate_path_identifier`. -/
def validatePathIdentifier (value field : String) : Except RuntimeFenceFailure Slug :=
  validateIdentifier isSlug (field ++ " must be a lowercase DNS-style identifier") value

/-! ### Records -/

/-- The runtime a fence stands in front of. -/
structure RuntimeScope where
  hostId : StoredIdentifier
  app : Slug
  environment : Slug
deriving DecidableEq

/-- The content of `fence.json`. -/
structure FenceRecord where
  scope : RuntimeScope
  operationId : StoredIdentifier
  ownerId : StoredIdentifier
  fencingToken : Pos
deriving DecidableEq

/-- `RuntimeSideEffectFence(…)`: the record a fence asks for. -/
def runtimeSideEffectFence (hostId app environment operationId ownerId : String)
    (fencingToken : Int) : Except RuntimeFenceFailure FenceRecord := do
  let hostId ← validateStoredIdentifier hostId "host_id"
  let app ← validatePathIdentifier app "app"
  let environment ← validatePathIdentifier environment "environment"
  let operationId ← validateStoredIdentifier operationId "operation_id"
  let ownerId ← validateStoredIdentifier ownerId "owner_id"
  if h : 0 < fencingToken then
    return { scope := { hostId, app, environment }, operationId, ownerId,
             fencingToken := ⟨fencingToken.toNat, by omega⟩ }
  else throw (.invalidRuntimeFence "fencing_token must be a positive integer")

/-- The runtimes of a host: the durable records, and the fences that are inside. -/
structure RuntimeFences where
  records : Table FenceRecord.scope
  entered : Table FenceRecord.scope

/-- Where persisting a record fails. -/
inductive PersistFault where
  | beforeReplace
  | afterReplace
deriving DecidableEq, Repr

namespace RuntimeFences

def fresh : RuntimeFences := ⟨.empty, .empty⟩

/-- `_authorize`. -/
def authorize (current : Option FenceRecord) (fence : FenceRecord) :
    Except RuntimeFenceFailure Unit :=
  match current with
  | none => .ok ()
  | some record =>
      if fence.fencingToken.1 < record.fencingToken.1 then
        .error (.runtimeFenceRejected "runtime mutation rejected by a newer fence")
      else if fence.fencingToken = record.fencingToken ∧ fence.operationId ≠ record.operationId then
        .error (.runtimeFenceRejected "runtime mutation fence is assigned to another operation")
      else .ok ()

/-- `__enter__`, with the lock of the runtime taken: the runtimes afterwards, and whether the
fence is inside. -/
def enter (r : RuntimeFences) (fence : FenceRecord) (fault : Option PersistFault) :
    RuntimeFences × Except RuntimeFenceFailure Unit :=
  match authorize (r.records.get? fence.scope) fence with
  | .error e => (r, .error e)
  | .ok () =>
      let failure : RuntimeFenceFailure :=
        .runtimeFenceRecordError "runtime fence record could not be persisted durably"
      match fault with
      | some .beforeReplace => (r, .error failure)
      | some .afterReplace => ({ r with records := r.records.put fence }, .error failure)
      | none => (⟨r.records.put fence, r.entered.put fence⟩, .ok ())

/-- `__exit__`, also when the process inside dies: the lock is free again. -/
def exit (r : RuntimeFences) (scope : RuntimeScope) : RuntimeFences :=
  { r with entered :=
      ⟨r.entered.rows.filter fun f => f.scope ≠ scope,
        (r.entered.unique.sublist (List.filter_sublist.map _))⟩ }

/-! ### What the fence lets through -/

theorem authorize_eq_ok {current : Option FenceRecord} {fence : FenceRecord} :
    authorize current fence = .ok () ↔ ∀ record, current = some record →
      record.fencingToken.1 ≤ fence.fencingToken.1 ∧
        (fence.fencingToken = record.fencingToken → fence.operationId = record.operationId) := by
  cases current with
  | none => simp [authorize]
  | some record =>
      by_cases hlt : fence.fencingToken.1 < record.fencingToken.1
      · simp only [authorize, hlt, if_true, Option.some.injEq, forall_eq', reduceCtorEq, false_iff]
        rintro ⟨hle, -⟩
        omega
      · simp only [authorize, hlt, if_false, Option.some.injEq, forall_eq', Nat.not_lt.mp hlt,
          true_and]
        split
        · rename_i hsame
          simp [hsame.1, hsame.2]
        · rename_i hsame
          simp only [true_iff]
          intro heq
          by_contra hne
          exact hsame ⟨heq, hne⟩

/-- What entering does: nothing, a record without the right to enter, or both. A record is
only ever replaced by one that it authorizes. -/
theorem enter_cases (r : RuntimeFences) (fence : FenceRecord) (fault : Option PersistFault) :
    (∃ e, r.enter fence fault = (r, .error e)) ∨
      (authorize (r.records.get? fence.scope) fence = .ok () ∧
        ((∃ e, r.enter fence fault = ({ r with records := r.records.put fence }, .error e)) ∨
          r.enter fence fault = (⟨r.records.put fence, r.entered.put fence⟩, .ok ()))) := by
  unfold enter
  cases hauth : authorize (r.records.get? fence.scope) fence with
  | error e => exact Or.inl ⟨e, rfl⟩
  | ok u =>
      cases fault with
      | none => exact Or.inr ⟨rfl, Or.inr rfl⟩
      | some fault =>
          cases fault with
          | beforeReplace => exact Or.inl ⟨_, rfl⟩
          | afterReplace => exact Or.inr ⟨rfl, Or.inl ⟨_, rfl⟩⟩

theorem get?_exit {r : RuntimeFences} {scope : RuntimeScope} {k : RuntimeScope} {f : FenceRecord}
    (h : (r.exit scope).entered.get? k = some f) : r.entered.get? k = some f := by
  rw [Table.get?_eq_some] at h ⊢
  exact ⟨(List.mem_filter.mp h.1).1, h.2⟩

end RuntimeFences

end Ophelia
