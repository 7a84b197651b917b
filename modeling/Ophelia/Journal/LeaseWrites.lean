import Ophelia.Journal.Leases

/-!
# Ophelia.Journal.LeaseWrites

What a successful lease call does. Each of the six calls has one inversion lemma that names
what it read, what it checked and the journal it leaves; nothing else unfolds the calls.
-/

namespace Ophelia

variable [Platform]

omit [Platform] in
/-- A bind goes through when its parts do. -/
theorem Result.exists_bind {α β : Type} {x : Result α} {f : α → Result β} {a : α}
    (hx : x = .ok a) (hf : ∃ b, f a = .ok b) : ∃ b, (x >>= f) = .ok b := by
  obtain ⟨b, hb⟩ := hf
  exact ⟨b, Results.bind_ok hx hb⟩

omit [Platform] in
@[simp] theorem clockSample_eq_ok {reading : Option Int} {now : Int} :
    clockSample reading = .ok now ↔ reading = some now := by
  cases reading <;> simp [clockSample]

omit [Platform] in
theorem insertRow_eq_ok {κ ρ : Type} [DecidableEq κ] {key : ρ → κ} {t t' : Table key} {r : ρ}
    {c : String} (h : insertRow t r c = .ok t') : t.get? (key r) = none ∧ t' = t.put r := by
  unfold insertRow at h
  split at h
  · rename_i t'' ht
    obtain rfl : t'' = t' := by simpa using h
    exact Table.insert?_eq_some ht
  · exact absurd h (by simp)

omit [Platform] in
theorem boundedJson_of_le {payload : String} (h : payload.toList.length ≤ 65536) :
    boundedJson payload = .ok payload :=
  if_pos h

omit [Platform] in
theorem insertRow_of_free {κ ρ : Type} [DecidableEq κ] {key : ρ → κ} {t : Table key} {r : ρ}
    {constraint : String} (h : t.get? (key r) = none) :
    insertRow t r constraint = .ok (t.put r) := by
  have hnot : key r ∉ t.rows.map key := by
    intro hmem
    obtain ⟨x, hx, hk⟩ := List.mem_map.mp hmem
    exact Table.get?_eq_none.mp h x hx hk
  simp [insertRow, Table.insert?, hnot]

theorem timestamp_ok {now d : Int} (h : Platform.fromTimestamp now = some d) :
    ∃ u : Utc, timestamp now = .ok u ∧ u.instant = d := by
  refine ⟨⟨Platform.isoformat d, by simp [isUtc, Platform.parseUtc_isoformat h]⟩, ?_, ?_⟩
  · unfold timestamp
    split
    · rename_i d' hd
      obtain rfl : d' = d := by rw [h] at hd; exact (Option.some.inj hd).symm
      rfl
    · rename_i hd
      rw [h] at hd
      exact absurd hd (by simp)
  · simp [Utc.instant, Platform.parseUtc_isoformat h]

omit [Platform] in
theorem requireText_eq_ok {n : Nat} {name s : String} {t : Text n}
    (h : requireText n name (.str s) = .ok t) : t.val = s := by
  unfold requireText at h
  simp only at h
  split at h
  · exact (congrArg Refined.val (Except.ok.inj h)).symm
  · split at h <;> exact absurd h (by simp)

theorem validateLeaseInput_eq_ok {ownerId : String} {ttl : Option Int} {p : Text 255 × Int}
    (h : validateLeaseInput ownerId ttl = .ok p) :
    p.1.val = ownerId ∧ ttl = some p.2 ∧ 0 < p.2 := by
  unfold validateLeaseInput at h
  obtain ⟨owner, howner, h⟩ := Results.bind_eq_ok.mp h
  cases ttl with
  | none => exact absurd h (by simp [throw, throwThe, MonadExceptOf.throw])
  | some t =>
      obtain ⟨_, ht, h⟩ := Results.bind_eq_ok.mp h
      obtain rfl : (owner, t) = p := Except.ok.inj h
      exact ⟨requireText_eq_ok howner, rfl, (ensure_eq_ok.mp ht).1⟩

namespace Journal

variable {j j' : Journal}

/-- The row a lookup by text finds. -/
theorem operation?_eq_some {id : String} {o : OperationRow} (h : j.operation? id = some o) :
    o.operationId.val = id ∧ j.operations.get? o.operationId = some o := by
  have hid : o.operationId.val = id := by simpa using List.find?_some h
  exact ⟨hid, Table.get?_of_mem (List.mem_of_find?_eq_some h)⟩

/-- A lookup by text is a lookup by key. -/
theorem operation?_val (id : EntityId .operation) :
    j.operation? id.val = j.operations.get? id := by
  simp only [operation?, Table.get?, Refined.val_inj]

theorem requireNonterminalOperation_eq_ok {id : String} {o : OperationRow}
    (h : j.requireNonterminalOperation id = .ok o) :
    o.operationId.val = id ∧ j.operations.get? o.operationId = some o ∧
      o.state.terminal = false := by
  unfold requireNonterminalOperation at h
  split at h
  · exact absurd h (by simp)
  · rename_i o' ho
    split at h
    · exact absurd h (by simp)
    · rename_i hterm
      obtain rfl : o' = o := Except.ok.inj h
      exact ⟨(operation?_eq_some ho).1, (operation?_eq_some ho).2, by simpa using hterm⟩

/-- The lease row of an operation is live under owner and token. -/
structure LeaseHeld (j : Journal) (id : EntityId .operation) (owner : String) (token now : Int)
    (l : LeaseRow) : Prop where
  row : j.operationLeases.get? id = some l
  owner : l.ownerId.map Refined.val = some owner
  token : (l.fencingToken.1 : Int) = token
  live : now < l.expiresAt

theorem activeLease_eq_ok {id : EntityId .operation} {owner : String} {token now : Int}
    {l : LeaseRow} : j.activeLease id owner token now = .ok l ↔ LeaseHeld j id owner token now l := by
  unfold activeLease
  constructor
  · intro h
    split at h
    · rename_i l' hl
      split at h
      · rename_i hc
        obtain rfl : l' = l := Except.ok.inj h
        exact ⟨hl, hc.1, hc.2.1, hc.2.2⟩
      · exact absurd h (by simp)
    · exact absurd h (by simp)
  · rintro ⟨hrow, howner, htoken, hlive⟩
    simp [hrow, howner, htoken, hlive]

/-- The scope of an operation is leased to it under owner and token. -/
structure ScopeHeld (j : Journal) (id : EntityId .operation) (owner : String) (token now : Int)
    (o : OperationRow) (s : ScopeLeaseRow) : Prop where
  operation : j.operations.get? id = some o
  row : j.executionScopeLeases.get? o.scope = some s
  holder : s.operationId = id
  owner : s.ownerId.map Refined.val = some owner
  token : (s.fencingToken.1 : Int) = token
  live : now < s.expiresAt

theorem activeScopeLease_eq_ok {id : EntityId .operation} {owner : String} {token now : Int}
    {s : ScopeLeaseRow} :
    j.activeScopeLease id owner token now = .ok s ↔ ∃ o, ScopeHeld j id owner token now o s := by
  unfold activeScopeLease
  constructor
  · intro h
    split at h
    · exact absurd h (by simp)
    · rename_i o ho
      split at h
      · rename_i s' hs
        split at h
        · rename_i hc
          obtain rfl : s' = s := Except.ok.inj h
          exact ⟨o, ho, hs, hc.1, hc.2.1, hc.2.2.1, hc.2.2.2⟩
        · exact absurd h (by simp)
      · exact absurd h (by simp)
  · rintro ⟨o, hop, hrow, hholder, howner, htoken, hlive⟩
    simp [hop, hrow, hholder, howner, htoken, hlive]

/-- **The fence check**: the operation's lease and the scope's lease both are live under
the fence. -/
theorem assertExecutionFence_eq_ok {id : String} {fence : ExecutionFence} {clock : Option Int} :
    j.assertExecutionFence id fence clock = .ok () ↔
      fence.operationId.val = id ∧ ∃ now, clock = some now ∧
        (∃ l, LeaseHeld j fence.operationId fence.ownerId.val fence.fencingToken.1 now l) ∧
        ∃ o s, ScopeHeld j fence.operationId fence.ownerId.val fence.fencingToken.1 now o s := by
  unfold assertExecutionFence
  simp only [Results.bind_eq_ok, ensure_eq_ok, clockSample_eq_ok, activeLease_eq_ok,
    activeScopeLease_eq_ok]
  constructor
  · rintro ⟨-, hid, now, hclock, l, hl, s, ⟨o, ho⟩, -⟩
    exact ⟨hid, now, hclock, ⟨l, hl⟩, o, s, ho⟩
  · rintro ⟨hid, now, hclock, ⟨l, hl⟩, o, s, ho⟩
    exact ⟨(), hid, now, hclock, l, hl, s, ⟨o, ho⟩, rfl⟩

/-! ### Operation leases -/

/-- `acquire_lease` keeps the token of the lease the owner holds, or takes the next one of
the operation. -/
theorem acquireLease_eq_ok {id owner : String} {ttl clock : Option Int} {f : ExecutionFence}
    (h : j.acquireLease id owner ttl clock = .ok (j', f)) :
    ∃ o now, clock = some now ∧ j.operations.get? o.operationId = some o ∧
      o.operationId.val = id ∧ o.state.terminal = false ∧ f.operationId = o.operationId ∧
      f.ownerId.val = owner ∧
      ((∃ l, j.operationLeases.get? o.operationId = some l ∧
          leaseActive l.ownerId l.expiresAt now = true ∧ l.ownerId = some f.ownerId ∧
          f.fencingToken = l.fencingToken) ∨
        ((j.operationLeases.get? o.operationId).all
            (fun l => !leaseActive l.ownerId l.expiresAt now) = true ∧
          f.fencingToken.1 =
            (j.operationLeases.get? o.operationId).elim 0 (·.fencingToken.1) + 1)) ∧
      j' = { j with operationLeases :=
        j.operationLeases.put ⟨o.operationId, some f.ownerId, f.fencingToken, f.expiresAt⟩ } := by
  unfold acquireLease at h
  obtain ⟨⟨own, t⟩, hval, h⟩ := Results.bind_eq_ok.mp h
  obtain ⟨o, ho, h⟩ := Results.bind_eq_ok.mp h
  obtain ⟨now, hnow, h⟩ := Results.bind_eq_ok.mp h
  obtain ⟨_, hheld, h⟩ := Results.bind_eq_ok.mp h
  obtain ⟨hid, hop, hterm⟩ := requireNonterminalOperation_eq_ok ho
  obtain ⟨hown, -, -⟩ := validateLeaseInput_eq_ok hval
  obtain ⟨rfl, rfl⟩ := Prod.mk.inj (Except.ok.inj h)
  refine ⟨o, now, clockSample_eq_ok.mp hnow, hop, hid, hterm, rfl, hown, ?_, rfl⟩
  have hheld := ensure_eq_ok.mp hheld
  simp only
  cases hrow : j.operationLeases.get? o.operationId with
  | none => exact .inr ⟨rfl, rfl⟩
  | some l =>
      rw [hrow] at hheld
      cases hact : leaseActive l.ownerId l.expiresAt now with
      | true =>
          left
          simp only [Option.filter, hact, ↓reduceIte, Option.all_some, decide_eq_true_eq] at hheld
          exact ⟨l, rfl, hact, hheld, by simp [leaseToken, Option.filter, hact]⟩
      | false =>
          right
          simp [leaseToken, Option.filter, hact]

/-- `heartbeat_lease` only moves the expiry. -/
theorem heartbeatLease_eq_ok {id : EntityId .operation} {owner : String} {token : Int}
    {ttl clock : Option Int} {f : ExecutionFence}
    (h : j.heartbeatLease id owner token ttl clock = .ok (j', f)) :
    ∃ l now, clock = some now ∧ LeaseHeld j id owner token now l ∧ l.expiresAt ≤ f.expiresAt ∧
      j' = { j with operationLeases :=
        j.operationLeases.put { l with expiresAt := f.expiresAt } } := by
  unfold heartbeatLease at h
  obtain ⟨⟨own, t⟩, -, h⟩ := Results.bind_eq_ok.mp h
  obtain ⟨now, hnow, h⟩ := Results.bind_eq_ok.mp h
  obtain ⟨l, hl, h⟩ := Results.bind_eq_ok.mp h
  obtain ⟨rfl, rfl⟩ := Prod.mk.inj (Except.ok.inj h)
  exact ⟨l, now, clockSample_eq_ok.mp hnow, activeLease_eq_ok.mp hl, le_max_left _ _, rfl⟩

/-- `release_lease` takes the owner away. -/
theorem releaseLease_eq_ok {id : EntityId .operation} {owner : String} {token : Int}
    {clock : Option Int} {u : Unit} (h : j.releaseLease id owner token clock = .ok (j', u)) :
    ∃ l now, clock = some now ∧ LeaseHeld j id owner token now l ∧
      j' = { j with operationLeases :=
        j.operationLeases.put { l with ownerId := none, expiresAt := now } } := by
  unfold releaseLease at h
  obtain ⟨now, hnow, h⟩ := Results.bind_eq_ok.mp h
  obtain ⟨l, hl, h⟩ := Results.bind_eq_ok.mp h
  obtain ⟨rfl, -⟩ := Prod.mk.inj (Except.ok.inj h)
  exact ⟨l, now, clockSample_eq_ok.mp hnow, activeLease_eq_ok.mp hl, rfl⟩

/-! ### Execution fences -/

/-- The journal with a fence of a scope written to both lease tables. -/
def withFence (j : Journal) (scope : Scope) (f : ExecutionFence) : Journal :=
  { j with
    executionScopeLeases := j.executionScopeLeases.put
      ⟨scope, f.operationId, some f.ownerId, f.fencingToken, f.expiresAt⟩
    operationLeases := j.operationLeases.put
      ⟨f.operationId, some f.ownerId, f.fencingToken, f.expiresAt⟩ }

/-- What a granted fence was checked against. The scope was held by the same holder, who
keeps the token, or by nobody, and the token is above every token of the scope. -/
structure Granted (j : Journal) (o : OperationRow) (now : Int) (f : ExecutionFence) : Prop where
  found : j.operations.get? o.operationId = some o
  nonterminal : o.state.terminal = false
  operation : f.operationId = o.operationId
  ownLease : (j.operationLeases.get? o.operationId).all
    (fun l => !leaseActive l.ownerId l.expiresAt now || l.ownerId = some f.ownerId) = true
  noForeign : j.foreignLease o f.ownerId now = false
  token :
    (∃ s, j.executionScopeLeases.get? o.scope = some s ∧
      leaseActive s.ownerId s.expiresAt now = true ∧ s.operationId = o.operationId ∧
      s.ownerId = some f.ownerId ∧ f.fencingToken = s.fencingToken) ∨
    ((j.executionScopeLeases.get? o.scope).all
        (fun s => !leaseActive s.ownerId s.expiresAt now) = true ∧
      f.fencingToken.1 = max ((j.executionScopeLeases.get? o.scope).elim 0 (·.fencingToken.1))
        (j.maxScopeToken o.scope) + 1)

theorem acquireFence_eq_ok {id owner : String} {ttl clock : Option Int} {f : ExecutionFence}
    (h : j.acquireFence id owner ttl clock = .ok (j', f)) :
    ∃ o now, clock = some now ∧ o.operationId.val = id ∧ f.ownerId.val = owner ∧
      Granted j o now f ∧ j' = j.withFence o.scope f := by
  unfold acquireFence at h
  obtain ⟨⟨own, t⟩, hval, h⟩ := Results.bind_eq_ok.mp h
  obtain ⟨o, ho, h⟩ := Results.bind_eq_ok.mp h
  obtain ⟨now, hnow, h⟩ := Results.bind_eq_ok.mp h
  obtain ⟨_, hlease, h⟩ := Results.bind_eq_ok.mp h
  obtain ⟨_, hforeign, h⟩ := Results.bind_eq_ok.mp h
  obtain ⟨_, hheld, h⟩ := Results.bind_eq_ok.mp h
  obtain ⟨hid, hop, hterm⟩ := requireNonterminalOperation_eq_ok ho
  obtain ⟨hown, -, -⟩ := validateLeaseInput_eq_ok hval
  obtain ⟨rfl, rfl⟩ := Prod.mk.inj (Except.ok.inj h)
  refine ⟨o, now, clockSample_eq_ok.mp hnow, hid, hown, ?_, rfl⟩
  refine ⟨hop, hterm, rfl, ensure_eq_ok.mp hlease, ensure_eq_ok.mp hforeign, ?_⟩
  have hheld := ensure_eq_ok.mp hheld
  simp only
  cases hrow : j.executionScopeLeases.get? o.scope with
  | none => right; simp [scopeToken]
  | some s =>
      rw [hrow] at hheld
      cases hact : leaseActive s.ownerId s.expiresAt now with
      | true =>
          left
          simp only [Option.filter, hact, ↓reduceIte, Option.all_some, Bool.and_eq_true,
            decide_eq_true_eq] at hheld
          exact ⟨s, rfl, hact, hheld.1, hheld.2, by simp [scopeToken, Option.filter, hact]⟩
      | false =>
          right
          simp [scopeToken, Option.filter, hact]

/-- `heartbeat_fence` moves both expiries to the same moment. -/
theorem heartbeatFence_eq_ok {fence f : ExecutionFence} {ttl clock : Option Int}
    (h : j.heartbeatFence fence ttl clock = .ok (j', f)) :
    ∃ l o s now, clock = some now ∧
      LeaseHeld j fence.operationId fence.ownerId.val fence.fencingToken.1 now l ∧
      ScopeHeld j fence.operationId fence.ownerId.val fence.fencingToken.1 now o s ∧
      s.expiresAt ≤ f.expiresAt ∧ l.expiresAt ≤ f.expiresAt ∧
      j' = { j with
        operationLeases := j.operationLeases.put { l with expiresAt := f.expiresAt }
        executionScopeLeases :=
          j.executionScopeLeases.put { s with expiresAt := f.expiresAt } } := by
  unfold heartbeatFence at h
  obtain ⟨⟨own, t⟩, -, h⟩ := Results.bind_eq_ok.mp h
  obtain ⟨now, hnow, h⟩ := Results.bind_eq_ok.mp h
  obtain ⟨l, hl, h⟩ := Results.bind_eq_ok.mp h
  obtain ⟨s, hs, h⟩ := Results.bind_eq_ok.mp h
  obtain ⟨rfl, rfl⟩ := Prod.mk.inj (Except.ok.inj h)
  obtain ⟨o, hs⟩ := activeScopeLease_eq_ok.mp hs
  exact ⟨l, o, s, now, clockSample_eq_ok.mp hnow, activeLease_eq_ok.mp hl, hs,
    le_max_of_le_left (le_max_right _ _), le_max_of_le_left (le_max_left _ _), rfl⟩

/-- `release_fence` takes the owner of both leases away. -/
theorem releaseFence_eq_ok {fence : ExecutionFence} {clock : Option Int} {u : Unit}
    (h : j.releaseFence fence clock = .ok (j', u)) :
    ∃ l o s now, clock = some now ∧
      LeaseHeld j fence.operationId fence.ownerId.val fence.fencingToken.1 now l ∧
      ScopeHeld j fence.operationId fence.ownerId.val fence.fencingToken.1 now o s ∧
      j' = { j with
        operationLeases := j.operationLeases.put { l with ownerId := none, expiresAt := now }
        executionScopeLeases :=
          j.executionScopeLeases.put { s with ownerId := none, expiresAt := now } } := by
  unfold releaseFence at h
  obtain ⟨now, hnow, h⟩ := Results.bind_eq_ok.mp h
  obtain ⟨l, hl, h⟩ := Results.bind_eq_ok.mp h
  obtain ⟨s, hs, h⟩ := Results.bind_eq_ok.mp h
  obtain ⟨rfl, -⟩ := Prod.mk.inj (Except.ok.inj h)
  obtain ⟨o, hs⟩ := activeScopeLease_eq_ok.mp hs
  exact ⟨l, o, s, now, clockSample_eq_ok.mp hnow, activeLease_eq_ok.mp hl, hs, rfl⟩

end Journal

end Ophelia
