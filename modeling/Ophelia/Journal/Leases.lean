import Ophelia.Journal.State

/-!
# Ophelia.Journal.Leases

Leases and fencing tokens. An operation lease is held by one owner for one operation; an
execution fence also holds the lease of the operation's *scope*, so that at most one
operation of an application environment executes at a time. Every call samples the
journal clock once.
-/

namespace Ophelia

variable [Platform]

/-- `_validate_lease_input`. -/
def validateLeaseInput (ownerId : String) (ttlSeconds : Option Int) :
    Result (Text 255 × Int) := do
  let owner ← requireText 255 "owner_id" (.str ownerId)
  match ttlSeconds with
  | some ttl =>
      ensure (0 < ttl ∧ ttl ≤ 86400 * Platform.second)
        (.contractValidation "ttl_seconds must be greater than zero and no more than 86400.")
      return (owner, ttl)
  | none =>
      throw (.contractValidation "ttl_seconds must be greater than zero and no more than 86400.")

namespace Journal

/-- `_require_nonterminal_operation`, with the row it looked at. -/
def requireNonterminalOperation (j : Journal) (operationId : String) : Result OperationRow :=
  match j.operation? operationId with
  | none => .error (.operationConflict "Unknown operation.")
  | some o =>
      if o.state.terminal then .error (.operationConflict "Terminal operations cannot be leased.")
      else .ok o

/-- The lease is held by somebody and has not expired. -/
def leaseActive (ownerId : Option (Text 255)) (expiresAt now : Int) : Bool :=
  ownerId.isSome && decide (now < expiresAt)

/-- `_active_lease`: the lease of an operation, if owner, token and expiry still hold. -/
def activeLease (j : Journal) (operationId : EntityId .operation) (ownerId : String)
    (fencingToken : Int) (now : Int) : Result LeaseRow :=
  match j.operationLeases.get? operationId with
  | some l =>
      if l.ownerId.map Refined.val = some ownerId ∧ (l.fencingToken.1 : Int) = fencingToken ∧
          now < l.expiresAt then .ok l
      else .error (.leaseConflict "Lease owner or fencing token is stale.")
  | none => .error (.leaseConflict "Lease owner or fencing token is stale.")

/-- `_active_scope_lease`: the lease of the operation's scope, if it is the operation's. -/
def activeScopeLease (j : Journal) (operationId : EntityId .operation) (ownerId : String)
    (fencingToken : Int) (now : Int) : Result ScopeLeaseRow :=
  match j.operations.get? operationId with
  | none => .error (.operationConflict "Unknown operation.")
  | some o =>
      match j.executionScopeLeases.get? o.scope with
      | some l =>
          if l.operationId = operationId ∧ l.ownerId.map Refined.val = some ownerId ∧
              (l.fencingToken.1 : Int) = fencingToken ∧ now < l.expiresAt then .ok l
          else
            .error (.leaseConflict
              "Application execution scope owner or fencing token is stale.")
      | none =>
          .error (.leaseConflict "Application execution scope owner or fencing token is stale.")

/-- `_assert_fence`: operations without a lease need none, leased ones need theirs, and
leased executions need the scope as well. -/
def assertFence (j : Journal) (operationId : EntityId .operation) (ownerId : Option String)
    (fencingToken : Option Int) (clock : Option Int) : Result Unit :=
  match j.operationLeases.get? operationId with
  | none =>
      ensure (ownerId = none ∧ fencingToken = none)
        (.leaseConflict "No durable lease exists for this operation.")
  | some _ =>
      match ownerId, fencingToken with
      | some owner, some token => do
          let now ← clockSample clock
          let _ ← j.activeLease operationId owner token now
          if (j.operationInputs.get? operationId).isSome then
            let _ ← j.activeScopeLease operationId owner token now
            return ()
          else return ()
      | _, _ =>
          .error (.leaseConflict "A leased operation requires its owner and fencing token.")

/-- `_assert_execution_fence`. -/
def assertExecutionFence (j : Journal) (operationId : String) (fence : ExecutionFence)
    (clock : Option Int) : Result Unit := do
  ensure (fence.operationId.val = operationId)
    (.leaseConflict "Execution fence identifies a different operation.")
  let now ← clockSample clock
  let _ ← j.activeLease fence.operationId fence.ownerId.val fence.fencingToken.1 now
  let _ ← j.activeScopeLease fence.operationId fence.ownerId.val fence.fencingToken.1 now
  return ()

/-! ### Operation leases -/

/-- A live lease keeps its token, otherwise the next token of the operation is taken. -/
def leaseToken (row : Option LeaseRow) (now : Int) : Pos :=
  match row.filter fun l => leaseActive l.ownerId l.expiresAt now with
  | some l => l.fencingToken
  | none => ⟨row.elim 0 (·.fencingToken.1) + 1, Nat.succ_pos _⟩

/-- `acquire_lease`. -/
def acquireLease (j : Journal) (operationId ownerId : String) (ttlSeconds clock : Option Int) :
    Result (Journal × ExecutionFence) := do
  let (owner, ttl) ← validateLeaseInput ownerId ttlSeconds
  let o ← j.requireNonterminalOperation operationId
  let now ← clockSample clock
  let row := j.operationLeases.get? o.operationId
  let proposed := Platform.addSeconds now ttl
  let held := row.filter fun l => leaseActive l.ownerId l.expiresAt now
  ensure (held.all fun l => l.ownerId = some owner)
    (.leaseConflict "Operation lease is held by another owner.")
  let token := leaseToken row now
  let expiresAt :=
    match row with
    | some l => if l.ownerId = some owner then max l.expiresAt proposed else proposed
    | none => proposed
  let leases := j.operationLeases.put ⟨o.operationId, some owner, token, expiresAt⟩
  return ({ j with operationLeases := leases }, ⟨o.operationId, owner, token, expiresAt⟩)

/-- `heartbeat_lease`. -/
def heartbeatLease (j : Journal) (operationId : EntityId .operation) (ownerId : String)
    (fencingToken : Int) (ttlSeconds clock : Option Int) : Result (Journal × ExecutionFence) := do
  let (owner, ttl) ← validateLeaseInput ownerId ttlSeconds
  let now ← clockSample clock
  let l ← j.activeLease operationId ownerId fencingToken now
  let expiresAt := max l.expiresAt (Platform.addSeconds now ttl)
  let leases := j.operationLeases.put { l with expiresAt := expiresAt }
  return ({ j with operationLeases := leases }, ⟨operationId, owner, l.fencingToken, expiresAt⟩)

/-- `release_lease`. -/
def releaseLease (j : Journal) (operationId : EntityId .operation) (ownerId : String)
    (fencingToken : Int) (clock : Option Int) : Result (Journal × Unit) := do
  let now ← clockSample clock
  let l ← j.activeLease operationId ownerId fencingToken now
  let leases := j.operationLeases.put { l with ownerId := none, expiresAt := now }
  return ({ j with operationLeases := leases }, ())

/-! ### Execution fences -/

/-- An active lease on another operation of the scope, or by another owner. -/
def foreignLease (j : Journal) (o : OperationRow) (owner : Text 255) (now : Int) : Bool :=
  j.operationLeases.rows.any fun l =>
    (j.operations.get? l.operationId).any (fun o' => o'.scope = o.scope) &&
      leaseActive l.ownerId l.expiresAt now &&
      (decide (l.operationId ≠ o.operationId) || decide (l.ownerId ≠ some owner))

/-- A held scope keeps its token; a free one gets a token above every token the scope has
seen, on its own lease or on the lease of one of its operations. -/
def scopeToken (row : Option ScopeLeaseRow) (maximum : Nat) (now : Int) : Pos :=
  match row.filter fun l => leaseActive l.ownerId l.expiresAt now with
  | some l => l.fencingToken
  | none => ⟨max (row.elim 0 (·.fencingToken.1)) maximum + 1, Nat.succ_pos _⟩

/-- `acquire_fence`. -/
def acquireFence (j : Journal) (operationId ownerId : String) (ttlSeconds clock : Option Int) :
    Result (Journal × ExecutionFence) := do
  let (owner, ttl) ← validateLeaseInput ownerId ttlSeconds
  let o ← j.requireNonterminalOperation operationId
  let now ← clockSample clock
  ensure ((j.operationLeases.get? o.operationId).all fun l =>
      !leaseActive l.ownerId l.expiresAt now || l.ownerId = some owner)
    (.leaseConflict "Operation lease is held by another owner.")
  ensure (j.foreignLease o owner now = false)
    (.leaseConflict "Application execution scope has an active legacy operation lease.")
  let scopeLease := j.executionScopeLeases.get? o.scope
  let held := scopeLease.filter fun l => leaseActive l.ownerId l.expiresAt now
  ensure (held.all fun l => l.operationId = o.operationId && l.ownerId = some owner)
    (.leaseConflict "Application execution scope is held by another operation.")
  let proposed := Platform.addSeconds now ttl
  let token := scopeToken scopeLease (j.maxScopeToken o.scope) now
  let expiresAt := held.elim proposed fun l => max l.expiresAt proposed
  let scopeLeases :=
    j.executionScopeLeases.put ⟨o.scope, o.operationId, some owner, token, expiresAt⟩
  let leases := j.operationLeases.put ⟨o.operationId, some owner, token, expiresAt⟩
  return ({ j with executionScopeLeases := scopeLeases, operationLeases := leases },
    ⟨o.operationId, owner, token, expiresAt⟩)

/-- `heartbeat_fence`. -/
def heartbeatFence (j : Journal) (fence : ExecutionFence) (ttlSeconds clock : Option Int) :
    Result (Journal × ExecutionFence) := do
  let (_, ttl) ← validateLeaseInput fence.ownerId.val ttlSeconds
  let now ← clockSample clock
  let l ← j.activeLease fence.operationId fence.ownerId.val fence.fencingToken.1 now
  let s ← j.activeScopeLease fence.operationId fence.ownerId.val fence.fencingToken.1 now
  let expiresAt := max (max l.expiresAt s.expiresAt) (Platform.addSeconds now ttl)
  let leases := j.operationLeases.put { l with expiresAt := expiresAt }
  let scopeLeases := j.executionScopeLeases.put { s with expiresAt := expiresAt }
  return ({ j with operationLeases := leases, executionScopeLeases := scopeLeases },
    { fence with expiresAt := expiresAt })

/-- `release_fence`. -/
def releaseFence (j : Journal) (fence : ExecutionFence) (clock : Option Int) :
    Result (Journal × Unit) := do
  let now ← clockSample clock
  let l ← j.activeLease fence.operationId fence.ownerId.val fence.fencingToken.1 now
  let s ← j.activeScopeLease fence.operationId fence.ownerId.val fence.fencingToken.1 now
  let leases := j.operationLeases.put { l with ownerId := none, expiresAt := now }
  let scopeLeases := j.executionScopeLeases.put { s with ownerId := none, expiresAt := now }
  return ({ j with operationLeases := leases, executionScopeLeases := scopeLeases }, ())

end Journal

end Ophelia
