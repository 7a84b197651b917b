import Ophelia.Journal.Closure
import Ophelia.Journal.Deployment

/-!
# Ophelia.Journal.ScopeLeases

The two lease tables under all six lease calls. The fence calls write both tables; the
operation lease calls write only the leases of operations, whether or not a scope lease names
the operation. The tables stay in step exactly as long as no operation lease call moves the
lease of an operation that holds its scope, or a lease past the token of the scope.
-/

namespace Ophelia

variable [Platform]

namespace Call

/-- An operation lease call writes a lease that the lease of the scope does not follow. -/
def splits (j : Journal) : Call → Prop
  | acquireLease id _ ttl clock => ∃ o s now t, j.operation? id = some o ∧
      j.executionScopeLeases.get? o.scope = some s ∧ clock = some now ∧ ttl = some t ∧
      if s.operationId = o.operationId then
        -- the holder renews past the expiry of the scope, or takes a lapsed lease again
        ¬ (Journal.leaseActive s.ownerId s.expiresAt now = true ∧
          Platform.addSeconds now t ≤ s.expiresAt)
      else
        -- another operation of the scope whose lapsed lease has the scope's token
        ∃ l, j.operationLeases.get? o.operationId = some l ∧
          Journal.leaseActive l.ownerId l.expiresAt now = false ∧
          s.fencingToken.1 ≤ l.fencingToken.1
  | heartbeatLease id _ _ ttl clock => ∃ s ∈ j.executionScopeLeases.rows, ∃ now t,
      s.operationId = id ∧ clock = some now ∧ ttl = some t ∧
      s.expiresAt < Platform.addSeconds now t
  | releaseLease id _ _ _ => ∃ s ∈ j.executionScopeLeases.rows, s.operationId = id
  | _ => False

/-- The lease or fence a call issues a token with. -/
def issued (j : Journal) : Call → Option ExecutionFence
  | acquireLease id owner ttl clock => (j.acquireLease id owner ttl clock).toOption.map Prod.snd
  | acquireFence id owner ttl clock => (j.acquireFence id owner ttl clock).toOption.map Prod.snd
  | _ => none

end Call

namespace Journal

variable {j j' : Journal} {id : EntityId .operation} {issued : List ExecutionFence}

/-- The leases and fences issued along a run. -/
def issuedFences (j : Journal) : List Call → List ExecutionFence
  | [] => []
  | c :: calls => (c.issued j).toList ++ issuedFences (c.apply j) calls

/-- Every scope lease has owner, token and expiry of the lease of the operation it names, and
no token issued in its scope is above its own. -/
structure ScopesReconciled (j : Journal) (issued : List ExecutionFence) : Prop where
  leases : ∀ s ∈ j.executionScopeLeases.rows, ∃ o l,
    j.operations.get? s.operationId = some o ∧ o.scope = s.scope ∧
    j.operationLeases.get? s.operationId = some l ∧ l.ownerId = s.ownerId ∧
    l.fencingToken = s.fencingToken ∧ l.expiresAt = s.expiresAt
  tokens : ∀ s ∈ j.executionScopeLeases.rows, ∀ f ∈ issued, ∀ o,
    j.operations.get? f.operationId = some o → o.scope = s.scope →
    f.fencingToken.1 ≤ s.fencingToken.1

/-! ### One operation lease -/

/-- A lease of an operation agrees with the lease of its scope. -/
def LeaseFollows (s : ScopeLeaseRow) (l : LeaseRow) : Prop :=
  if s.operationId = l.operationId then
    l.ownerId = s.ownerId ∧ l.fencingToken = s.fencingToken ∧ l.expiresAt = s.expiresAt
  else l.fencingToken.1 ≤ s.fencingToken.1

theorem scopeLeaseReconciles_iff {s : ScopeLeaseRow} : j.scopeLeaseReconciles s ↔
    (∃ o, j.operations.get? s.operationId = some o ∧ o.scope = s.scope) ∧
      j.maxScopeToken s.scope ≤ s.fencingToken.1 ∧
      ∃ l, j.operationLeases.get? s.operationId = some l ∧ l.ownerId = s.ownerId ∧
        l.fencingToken = s.fencingToken ∧ l.expiresAt = s.expiresAt := by
  unfold scopeLeaseReconciles
  simp only [Option.map_eq_some_iff, Prod.mk.injEq]

/-- **One operation lease keeps the tables in step** exactly when the lease of its scope, if
there is one, agrees with it. -/
theorem Fenced.putLease (h : Fenced j) {o : OperationRow} {l : LeaseRow}
    (ho : j.operations.get? l.operationId = some o) :
    Fenced { j with operationLeases := j.operationLeases.put l } ↔
      ∀ s, j.executionScopeLeases.get? o.scope = some s → LeaseFollows s l := by
  constructor
  · intro hput s hs
    obtain ⟨-, hmax, l', hl', hrow⟩ :=
      scopeLeaseReconciles_iff.mp (hput s (Table.mem_of_get? hs))
    unfold LeaseFollows
    split
    · rename_i hop
      rw [hop] at hl'
      change (j.operationLeases.put l).get? l.operationId = some l' at hl'
      rw [Table.get?_put_self j.operationLeases l] at hl'
      rw [Option.some.inj hl']
      exact hrow
    · refine maxScopeToken_le.mp hmax l (Table.mem_put.mpr (Or.inl rfl)) o ho ?_
      exact (Table.key_of_get? hs).symm
  · intro hfollows s hs
    obtain ⟨⟨os, hos, hscope⟩, hmax, ls, hls, hrow⟩ := scopeLeaseReconciles_iff.mp (h s hs)
    by_cases hop : s.operationId = l.operationId
    · -- the scope is held by the operation whose lease is written
      obtain rfl : os = o := Option.some.inj (hos.symm.trans (by rw [hop]; exact ho))
      have hfol := hfollows s (by rw [hscope]; exact Table.get?_of_mem hs)
      unfold LeaseFollows at hfol
      rw [if_pos hop] at hfol
      refine scopeLeaseReconciles_iff.mpr ⟨⟨os, hos, hscope⟩, ?_, l, ?_, hfol⟩
      · rw [maxScopeToken_le] at hmax ⊢
        intro x hx ox hox hsx
        rcases Table.mem_put.mp hx with rfl | ⟨hx, -⟩
        · rw [hfol.2.1]
        · exact hmax x hx ox hox hsx
      · rw [hop]
        exact Table.get?_put_self j.operationLeases l
    · refine scopeLeaseReconciles_iff.mpr ⟨⟨os, hos, hscope⟩, ?_, ls, ?_, hrow⟩
      · rw [maxScopeToken_le] at hmax ⊢
        intro x hx ox hox hsx
        rcases Table.mem_put.mp hx with rfl | ⟨hx, -⟩
        · obtain rfl : ox = o := Option.some.inj (hox.symm.trans ho)
          have hfol := hfollows s (by rw [hsx]; exact Table.get?_of_mem hs)
          unfold LeaseFollows at hfol
          rw [if_neg hop] at hfol
          exact hfol
        · exact hmax x hx ox hox hsx
      · show (j.operationLeases.put l).get? s.operationId = some ls
        rw [Table.get?_put_ne j.operationLeases hop]
        exact hls

/-- The lease of an operation that holds its scope. -/
theorem Fenced.lease_of_holder (h : Fenced j) {s : ScopeLeaseRow} {l : LeaseRow}
    (hs : s ∈ j.executionScopeLeases.rows) (hl : j.operationLeases.get? s.operationId = some l) :
    l.ownerId = s.ownerId ∧ l.fencingToken = s.fencingToken ∧ l.expiresAt = s.expiresAt := by
  obtain ⟨-, -, l', hl', hrow⟩ := scopeLeaseReconciles_iff.mp (h s hs)
  rw [hl] at hl'
  rw [Option.some.inj hl']
  exact hrow

/-- The scope lease that names an operation is the lease of the operation's scope. -/
theorem Fenced.scope_of_holder (h : Fenced j) {s : ScopeLeaseRow} {o : OperationRow}
    (hs : s ∈ j.executionScopeLeases.rows) (ho : j.operations.get? s.operationId = some o) :
    j.executionScopeLeases.get? o.scope = some s := by
  obtain ⟨⟨o', ho', hscope⟩, -⟩ := scopeLeaseReconciles_iff.mp (h s hs)
  rw [ho] at ho'
  rw [Option.some.inj ho', hscope]
  exact Table.get?_of_mem hs

/-- The time a renewed lease runs to. -/
theorem acquireLease_expiresAt {id owner : String} {ttl clock : Option Int} {f : ExecutionFence}
    (h : j.acquireLease id owner ttl clock = .ok (j', f)) :
    ∃ o now t, j.operation? id = some o ∧ clock = some now ∧ ttl = some t ∧
      ∀ l, j.operationLeases.get? o.operationId = some l → l.ownerId = some f.ownerId →
        f.expiresAt = max l.expiresAt (Platform.addSeconds now t) := by
  unfold acquireLease at h
  obtain ⟨⟨own, t⟩, hval, h⟩ := Results.bind_eq_ok.mp h
  obtain ⟨o, ho, h⟩ := Results.bind_eq_ok.mp h
  obtain ⟨now, hnow, h⟩ := Results.bind_eq_ok.mp h
  obtain ⟨_, -, h⟩ := Results.bind_eq_ok.mp h
  obtain ⟨-, httl, -⟩ := validateLeaseInput_eq_ok hval
  obtain ⟨hid, hop, -⟩ := requireNonterminalOperation_eq_ok ho
  obtain ⟨rfl, rfl⟩ := Prod.mk.inj (Except.ok.inj h)
  refine ⟨o, now, t, ?_, clockSample_eq_ok.mp hnow, httl, fun l hl howner => ?_⟩
  · rw [← hid, operation?_val]
    exact hop
  · simp only at howner ⊢
    rw [hl]
    exact if_pos howner

theorem heartbeatLease_expiresAt {owner : String} {token : Int} {ttl clock : Option Int}
    {f : ExecutionFence} (h : j.heartbeatLease id owner token ttl clock = .ok (j', f)) :
    ∃ l now t, j.operationLeases.get? id = some l ∧ clock = some now ∧ ttl = some t ∧
      f.expiresAt = max l.expiresAt (Platform.addSeconds now t) := by
  unfold heartbeatLease at h
  obtain ⟨⟨own, t⟩, hval, h⟩ := Results.bind_eq_ok.mp h
  obtain ⟨now, hnow, h⟩ := Results.bind_eq_ok.mp h
  obtain ⟨l, hl, h⟩ := Results.bind_eq_ok.mp h
  obtain ⟨-, httl, -⟩ := validateLeaseInput_eq_ok hval
  obtain ⟨-, rfl⟩ := Prod.mk.inj (Except.ok.inj h)
  exact ⟨l, now, t, (activeLease_eq_ok.mp hl).row, clockSample_eq_ok.mp hnow, httl, rfl⟩

/-! ### The operation lease calls -/

theorem Fenced.acquireLease_iff (h : Fenced j) {id owner : String} {ttl clock : Option Int}
    (hrun : (Call.acquireLease id owner ttl clock).run j = .ok j') :
    Fenced j' ↔ ¬ (Call.acquireLease id owner ttl clock).splits j := by
  rw [Call.run] at hrun
  obtain ⟨f, hrun⟩ := map_fst_eq_ok hrun
  obtain ⟨o', now', t, hop, hclock', httl, hexp⟩ := acquireLease_expiresAt hrun
  obtain ⟨o, now, hclock, ho, hid, -, -, -, htoken, rfl⟩ := acquireLease_eq_ok hrun
  rw [← hid, operation?_val, ho] at hop
  obtain rfl := Option.some.inj hop
  obtain rfl : now = now' := Option.some.inj (hclock.symm.trans hclock')
  rw [h.putLease ho]
  have hsplits : (Call.acquireLease id owner ttl clock).splits j ↔
      ∃ s, j.executionScopeLeases.get? o.scope = some s ∧
        if s.operationId = o.operationId then
          ¬ (leaseActive s.ownerId s.expiresAt now = true ∧
            Platform.addSeconds now t ≤ s.expiresAt)
        else ∃ l, j.operationLeases.get? o.operationId = some l ∧
          leaseActive l.ownerId l.expiresAt now = false ∧
          s.fencingToken.1 ≤ l.fencingToken.1 := by
    have hfound : j.operation? id = some o := by rw [← hid, operation?_val, ho]
    simp [Call.splits, hfound, hclock, httl]
  rw [hsplits, not_exists]
  refine forall_congr' fun s => Iff.trans (imp_congr_right fun hs => ?_) not_and.symm
  have hmem := Table.mem_of_get? hs
  unfold LeaseFollows
  by_cases hholder : s.operationId = o.operationId
  · obtain ⟨-, -, l, hl, hrow⟩ := scopeLeaseReconciles_iff.mp (h s hmem)
    rw [hholder] at hl
    obtain ⟨howner, htok, hexpiry⟩ := hrow
    simp only [hholder, ↓reduceIte, not_not]
    rw [← howner, ← hexpiry]
    rcases htoken with ⟨l', hl', hactive, hown, hkeep⟩ | ⟨hlapsed, hnext⟩
    · -- the holder renews: only the expiry can move
      rw [hl] at hl'
      obtain rfl := Option.some.inj hl'
      rw [hexp l hl hown, hkeep, hown]
      rw [hown] at hactive
      simp [htok, hactive]
    · have hdead : leaseActive l.ownerId l.expiresAt now = false := by simpa [hl] using hlapsed
      rw [hl, Option.elim_some] at hnext
      have hne : f.fencingToken ≠ s.fencingToken := by
        intro heq
        rw [heq, ← htok] at hnext
        omega
      simp [hdead, hne]
  · simp only [hholder, ↓reduceIte, not_exists, not_and, not_le]
    rcases htoken with ⟨l, hl, hactive, -, hkeep⟩ | ⟨hlapsed, hnext⟩
    · -- the other operation keeps its token, which the scope's token already covers
      have hle : l.fencingToken.1 ≤ s.fencingToken.1 := by
        refine maxScopeToken_le.mp (scopeLeaseReconciles_iff.mp (h s hmem)).2.1 l
          (Table.mem_of_get? hl) o ?_ (Table.key_of_get? hs).symm
        rw [Table.key_of_get? hl]
        exact ho
      rw [hkeep]
      simp [hl, hactive, hle]
    · cases hl : j.operationLeases.get? o.operationId with
      | none =>
          rw [hl, Option.elim_none, zero_add] at hnext
          have hpos := s.fencingToken.2
          refine iff_of_true ?_ (by simp)
          rw [hnext]
          exact hpos
      | some l =>
          have hdead : leaseActive l.ownerId l.expiresAt now = false := by simpa [hl] using hlapsed
          rw [hl, Option.elim_some] at hnext
          rw [hnext, Nat.succ_le_iff]
          simp [hdead]

theorem Fenced.heartbeatLease_iff (h : Fenced j) (hj : Coherent j) {owner : String} {token : Int}
    {ttl clock : Option Int}
    (hrun : (Call.heartbeatLease id owner token ttl clock).run j = .ok j') :
    Fenced j' ↔ ¬ (Call.heartbeatLease id owner token ttl clock).splits j := by
  rw [Call.run] at hrun
  obtain ⟨f, hrun⟩ := map_fst_eq_ok hrun
  obtain ⟨l', now', t, hl', hclock', httl, hexp⟩ := heartbeatLease_expiresAt hrun
  obtain ⟨l, now, hclock, hl, -, rfl⟩ := heartbeatLease_eq_ok hrun
  obtain rfl : l' = l := Option.some.inj (hl'.symm.trans hl.row)
  obtain rfl : now = now' := Option.some.inj (hclock.symm.trans hclock')
  obtain ⟨o, ho⟩ := Option.isSome_iff_exists.mp (hj.known_of_leased hl.leased)
  have hid : l'.operationId = id := Table.key_of_get? hl.row
  refine (h.putLease (l := { l' with expiresAt := f.expiresAt }) ho).trans ?_
  simp only [Call.splits, not_exists, not_and, not_lt, hclock, httl, Option.some.injEq]
  constructor
  · rintro hfollows s hs now' t' rfl rfl rfl
    have hfol := hfollows s (h.scope_of_holder hs (by rw [← hid]; exact ho))
    have hrow := h.lease_of_holder hs hl.row
    simp only [LeaseFollows, hid, ↓reduceIte, hexp, ← hrow.2.2] at hfol
    rw [← hrow.2.2]
    exact max_eq_left_iff.mp hfol.2.2
  · intro hbound s hs
    have hmem := Table.mem_of_get? hs
    unfold LeaseFollows
    split
    · rename_i hholder
      have hs' : s.operationId = id := hholder.trans hid
      have hrow := h.lease_of_holder hmem (by rw [hs']; exact hl.row)
      have hle := hbound s hmem now t hs' rfl rfl
      refine ⟨hrow.1, hrow.2.1, ?_⟩
      rw [hexp, hrow.2.2, max_eq_left hle]
    · refine maxScopeToken_le.mp (scopeLeaseReconciles_iff.mp (h s hmem)).2.1 l'
        (Table.mem_of_get? hl.row) o ho (Table.key_of_get? hs).symm

theorem Fenced.releaseLease_iff (h : Fenced j) (hj : Coherent j) {owner : String} {token : Int}
    {clock : Option Int} (hrun : (Call.releaseLease id owner token clock).run j = .ok j') :
    Fenced j' ↔ ¬ (Call.releaseLease id owner token clock).splits j := by
  rw [Call.run] at hrun
  obtain ⟨u, hrun⟩ := map_fst_eq_ok hrun
  obtain ⟨l, now, hclock, hl, rfl⟩ := releaseLease_eq_ok hrun
  obtain ⟨o, ho⟩ := Option.isSome_iff_exists.mp (hj.known_of_leased hl.leased)
  have hid : l.operationId = id := Table.key_of_get? hl.row
  refine (h.putLease (l := { l with ownerId := none, expiresAt := now }) ho).trans ?_
  simp only [Call.splits, not_exists, not_and]
  constructor
  · intro hfollows s hs hs'
    subst hs'
    have hfol := hfollows s (h.scope_of_holder hs (by rw [← hid]; exact ho))
    have hrow := h.lease_of_holder hs hl.row
    simp only [LeaseFollows, hid, ↓reduceIte, ← hrow.1] at hfol
    -- the released lease had an owner
    have howner := hl.owner
    rw [← hfol.1] at howner
    exact absurd howner (by simp)
  · intro hnone s hs
    have hmem := Table.mem_of_get? hs
    unfold LeaseFollows
    rw [if_neg fun hholder => hnone s hmem (hholder.trans hid)]
    exact maxScopeToken_le.mp (scopeLeaseReconciles_iff.mp (h s hmem)).2.1 l
      (Table.mem_of_get? hl.row) o ho (Table.key_of_get? hs).symm

/-- **One step**: from tables in step, a successful call leaves them in step exactly when it
does not split them. -/
theorem Fenced.run_iff {c : Call} (h : Fenced j) (hj : Coherent j) (hrun : c.run j = .ok j') :
    Fenced j' ↔ ¬ c.splits j := by
  cases c with
  | acquireLease id owner ttl clock => exact h.acquireLease_iff hrun
  | heartbeatLease id owner token ttl clock => exact h.heartbeatLease_iff hj hrun
  | releaseLease id owner token clock => exact h.releaseLease_iff hj hrun
  | compareAndSwapActiveRevision id expected fence clock =>
      refine iff_of_true ?_ (by simp [Call.splits])
      exact h.sameLeases hj (grows_run hrun).extends_ ((frame_run hrun).leases rfl)
  | _ => exact iff_of_true (h.run hj rfl hrun) (by simp [Call.splits])

/-! ### The issued tokens -/

/-- The leases of operations carry issued tokens, and none below one issued for the same
operation. -/
structure Logged (j : Journal) (issued : List ExecutionFence) : Prop where
  carried : ∀ l ∈ j.operationLeases.rows, ∃ f ∈ issued,
    f.operationId = l.operationId ∧ f.fencingToken = l.fencingToken
  kept : ∀ f ∈ issued, ∃ l, j.operationLeases.get? f.operationId = some l ∧
    f.fencingToken.1 ≤ l.fencingToken.1

theorem Logged.fresh : Logged fresh [] :=
  ⟨by simp [Journal.fresh], by simp⟩

theorem Logged.sameLeases (h : Logged j issued) (hs : SameLeases j j') : Logged j' issued := by
  refine ⟨?_, ?_⟩
  · rw [hs.1]
    exact h.carried
  · rw [hs.1]
    exact h.kept

/-- A lease that keeps the token of the one it replaces. -/
theorem Logged.renew (h : Logged j issued) {l l' : LeaseRow}
    (hl : j.operationLeases.get? l.operationId = some l') (ht : l.fencingToken = l'.fencingToken)
    (hj' : j'.operationLeases = j.operationLeases.put l) : Logged j' issued := by
  refine ⟨fun x hx => ?_, fun f hf => ?_⟩
  · rw [hj'] at hx
    rcases Table.mem_put.mp hx with rfl | ⟨hx, -⟩
    · obtain ⟨f, hf, hop, htoken⟩ := h.carried l' (Table.mem_of_get? hl)
      exact ⟨f, hf, hop.trans (Table.key_of_get? hl), htoken.trans ht.symm⟩
    · exact h.carried x hx
  · obtain ⟨x, hx, hle⟩ := h.kept f hf
    rw [hj']
    by_cases hop : f.operationId = l.operationId
    · rw [hop, hl] at hx
      obtain rfl := Option.some.inj hx
      refine ⟨l, by rw [hop]; exact Table.get?_put_self j.operationLeases l, ?_⟩
      rw [ht]
      exact hle
    · exact ⟨x, by rw [Table.get?_put_ne j.operationLeases hop]; exact hx, hle⟩

theorem LeaseHeld.row_self {owner : String} {token now : Int} {l : LeaseRow}
    (h : LeaseHeld j id owner token now l) : j.operationLeases.get? l.operationId = some l :=
  Table.get?_of_mem (Table.mem_of_get? h.row)

/-- A lease with a newly issued token, not below the one it replaces. -/
theorem Logged.issue (h : Logged j issued) {l : LeaseRow} {f : ExecutionFence}
    (hop : f.operationId = l.operationId) (ht : f.fencingToken = l.fencingToken)
    (hle : ∀ l', j.operationLeases.get? l.operationId = some l' →
      l'.fencingToken.1 ≤ l.fencingToken.1)
    (hj' : j'.operationLeases = j.operationLeases.put l) : Logged j' (issued ++ [f]) := by
  refine ⟨fun x hx => ?_, fun g hg => ?_⟩
  · rw [hj'] at hx
    rcases Table.mem_put.mp hx with rfl | ⟨hx, -⟩
    · exact ⟨f, by simp, hop, ht⟩
    · obtain ⟨g, hg, hgx⟩ := h.carried x hx
      exact ⟨g, by simp [hg], hgx⟩
  · rw [hj']
    have hself := Table.get?_put_self j.operationLeases l
    rcases List.mem_append.mp hg with hg | hg
    · obtain ⟨x, hx, hgx⟩ := h.kept g hg
      by_cases hgop : g.operationId = l.operationId
      · rw [hgop] at hx ⊢
        exact ⟨l, hself, le_trans hgx (hle x hx)⟩
      · exact ⟨x, by rw [Table.get?_put_ne j.operationLeases hgop]; exact hx, hgx⟩
    · obtain rfl := List.mem_singleton.mp hg
      refine ⟨l, by rw [hop]; exact hself, ?_⟩
      rw [ht]

/-- The log of issued tokens grows with every call. -/
theorem Logged.run {c : Call} (h : Logged j issued) (hf : Fenced j) (hrun : c.run j = .ok j') :
    Logged j' (issued ++ (c.issued j).toList) := by
  cases c with
  | acquireFence id owner ttl clock =>
      rw [Call.run] at hrun
      obtain ⟨f, hrun⟩ := map_fst_eq_ok hrun
      have hissued : (Call.acquireFence id owner ttl clock).issued j = some f := by
        simp [Call.issued, hrun, Except.toOption]
      rw [hissued]
      obtain ⟨o, now, -, -, -, hg, rfl⟩ := acquireFence_eq_ok hrun
      refine h.issue (l := ⟨f.operationId, some f.ownerId, f.fencingToken, f.expiresAt⟩) rfl rfl
        (fun l hl => ?_) rfl
      refine maxScopeToken_le.mp (hg.token_le hf) l (Table.mem_of_get? hl) o ?_ rfl
      rw [Table.key_of_get? hl, hg.operation]
      exact hg.found
  | acquireLease id owner ttl clock =>
      rw [Call.run] at hrun
      obtain ⟨f, hrun⟩ := map_fst_eq_ok hrun
      have hissued : (Call.acquireLease id owner ttl clock).issued j = some f := by
        simp [Call.issued, hrun, Except.toOption]
      rw [hissued]
      obtain ⟨o, now, -, -, -, -, hop, -, htoken, rfl⟩ := acquireLease_eq_ok hrun
      refine h.issue (l := ⟨o.operationId, some f.ownerId, f.fencingToken, f.expiresAt⟩) hop rfl
        (fun l hl => ?_) rfl
      rcases htoken with ⟨l', hl', -, -, hkeep⟩ | ⟨-, hnext⟩
      · rw [hl] at hl'
        rw [hkeep, Option.some.inj hl']
      · rw [hl, Option.elim_some] at hnext
        simp only [hnext]
        exact Nat.le_succ _
  | heartbeatFence fence ttl clock =>
      rw [Call.run] at hrun
      obtain ⟨f, hrun⟩ := map_fst_eq_ok hrun
      obtain ⟨l, o, s, now, -, hl, hs, -, -, rfl⟩ := heartbeatFence_eq_ok hrun
      show Logged _ (issued ++ [])
      rw [List.append_nil]
      exact h.renew (l := { l with expiresAt := f.expiresAt }) hl.row_self rfl rfl
  | releaseFence fence clock =>
      rw [Call.run] at hrun
      obtain ⟨u, hrun⟩ := map_fst_eq_ok hrun
      obtain ⟨l, o, s, now, -, hl, hs, rfl⟩ := releaseFence_eq_ok hrun
      show Logged _ (issued ++ [])
      rw [List.append_nil]
      exact h.renew (l := { l with ownerId := none, expiresAt := now }) hl.row_self rfl rfl
  | heartbeatLease id owner token ttl clock =>
      rw [Call.run] at hrun
      obtain ⟨f, hrun⟩ := map_fst_eq_ok hrun
      obtain ⟨l, now, -, hl, -, rfl⟩ := heartbeatLease_eq_ok hrun
      show Logged _ (issued ++ [])
      rw [List.append_nil]
      exact h.renew (l := { l with expiresAt := f.expiresAt }) hl.row_self rfl rfl
  | releaseLease id owner token clock =>
      rw [Call.run] at hrun
      obtain ⟨u, hrun⟩ := map_fst_eq_ok hrun
      obtain ⟨l, now, -, hl, rfl⟩ := releaseLease_eq_ok hrun
      show Logged _ (issued ++ [])
      rw [List.append_nil]
      exact h.renew (l := { l with ownerId := none, expiresAt := now }) hl.row_self rfl rfl
  | _ =>
      show Logged _ (issued ++ [])
      rw [List.append_nil]
      exact h.sameLeases ((frame_run hrun).leases rfl)

/-- A refused call issues nothing. -/
theorem issued_of_error {c : Call} {e : Failure} (hrun : c.run j = .error e) :
    c.issued j = none := by
  cases c with
  | acquireLease id owner ttl clock =>
      rw [Call.run] at hrun
      cases hcall : j.acquireLease id owner ttl clock with
      | error e' => simp [Call.issued, hcall, Except.toOption]
      | ok p => simp [hcall, Except.map] at hrun
  | acquireFence id owner ttl clock =>
      rw [Call.run] at hrun
      cases hcall : j.acquireFence id owner ttl clock with
      | error e' => simp [Call.issued, hcall, Except.toOption]
      | ok p => simp [hcall, Except.map] at hrun
  | _ => rfl

/-- With every issued token on a lease, the scope leases reconcile with the leases and with
the issued tokens together. -/
theorem Logged.reconciled_iff (h : Logged j issued) : ScopesReconciled j issued ↔ Fenced j := by
  constructor
  · intro hr s hs
    obtain ⟨o, l, ho, hscope, hl, hrow⟩ := hr.leases s hs
    refine scopeLeaseReconciles_iff.mpr ⟨⟨o, ho, hscope⟩, maxScopeToken_le.mpr ?_, l, hl, hrow⟩
    intro x hx ox hox hsx
    obtain ⟨f, hf, hop, htoken⟩ := h.carried x hx
    rw [← htoken]
    exact hr.tokens s hs f hf ox (by rw [hop]; exact hox) hsx
  · intro hf
    refine ⟨fun s hs => ?_, fun s hs f hfmem o ho hscope => ?_⟩
    · obtain ⟨⟨o, ho, hscope⟩, -, l, hl, hrow⟩ := scopeLeaseReconciles_iff.mp (hf s hs)
      exact ⟨o, l, ho, hscope, hl, hrow⟩
    · obtain ⟨l, hl, hle⟩ := h.kept f hfmem
      refine le_trans hle (maxScopeToken_le.mp (hf s hs).2.1 l (Table.mem_of_get? hl) o ?_ hscope)
      rw [Table.key_of_get? hl]
      exact ho

/-! ### Runs -/

theorem issuedFences_concat (calls : List Call) (c : Call) :
    j.issuedFences (calls ++ [c]) = j.issuedFences calls ++ (c.issued (j.runCalls calls)).toList := by
  induction calls generalizing j with
  | nil => simp [issuedFences, Journal.runCalls]
  | cons d calls ih =>
      rw [List.cons_append, issuedFences, issuedFences, ih, List.append_assoc]
      rfl

/-- One more call of a run whose tables are in step. -/
theorem Logged.concat {calls : List Call}
    (h : Logged (Journal.fresh.runCalls calls) (Journal.fresh.issuedFences calls))
    (hf : Fenced (Journal.fresh.runCalls calls)) (c : Call) :
    Logged (Journal.fresh.runCalls (calls ++ [c])) (Journal.fresh.issuedFences (calls ++ [c])) := by
  rw [runCalls_concat, issuedFences_concat]
  unfold Call.apply
  split
  · rename_i j' hrun
    exact h.run hf hrun
  · rename_i e hrun
    rw [issued_of_error hrun, Option.toList_none, List.append_nil]
    exact h

theorem Fenced.concat_iff {calls : List Call} (h : Fenced (Journal.fresh.runCalls calls))
    (c : Call) : Fenced (Journal.fresh.runCalls (calls ++ [c])) ↔
      ∀ j', c.run (Journal.fresh.runCalls calls) = .ok j' →
        ¬ c.splits (Journal.fresh.runCalls calls) := by
  rw [runCalls_concat]
  unfold Call.apply
  split
  · rename_i j' hrun
    rw [h.run_iff (Coherent.fresh.runCalls calls) hrun]
    simp [hrun]
  · rename_i e hrun
    simp [hrun, h]

/-- **The scope leases along every run**: the lease of every scope agrees with the lease of
the operation it names and tops every token issued in the scope, in every state of a run,
exactly when no successful call of the run splits the two tables. -/
theorem scopesReconciled_iff (calls : List Call) :
    (∀ done rest, calls = done ++ rest →
      ScopesReconciled (Journal.fresh.runCalls done) (Journal.fresh.issuedFences done)) ↔
    ∀ done c rest j', calls = done ++ c :: rest → c.run (Journal.fresh.runCalls done) = .ok j' →
      ¬ c.splits (Journal.fresh.runCalls done) := by
  -- the tables and the log of the first part of the run decide both sides
  let InStep (done : List Call) : Prop := Fenced (Journal.fresh.runCalls done) ∧
    Logged (Journal.fresh.runCalls done) (Journal.fresh.issuedFences done)
  have hfresh : InStep [] := ⟨Fenced.fresh, Logged.fresh⟩
  have hsteps := parts_iff (P := InStep) (fun j c => c.splits j) hfresh (fun done c hdone => by
      refine Iff.trans ⟨And.left, fun hf => ⟨hf, hdone.2.concat hdone.1 c⟩⟩ (hdone.1.concat_iff c))
    calls
  rw [← hsteps]
  constructor
  · intro hall done
    induction done using List.reverseRec with
    | nil => exact fun _ _ => hfresh
    | append_singleton done c ih =>
        intro rest hcalls
        obtain ⟨hf, hl⟩ := ih (c :: rest) (by simpa using hcalls)
        have hl' := hl.concat hf c
        exact ⟨hl'.reconciled_iff.mp (hall _ rest hcalls), hl'⟩
  · intro hall done rest hcalls
    obtain ⟨hf, hl⟩ := hall done rest hcalls
    exact hl.reconciled_iff.mpr hf

end Journal

end Ophelia

namespace Ophelia.Reference

attribute [local instance] platform

/-- The holder of a fence releases the lease of its operation alone. -/
def releaseUnderFence : List Call :=
  [.accept actor (request firstKey) approval none (some EPOCH) firstId,
    .acquireFence "operation_a" "owner" (some 60) (some EPOCH),
    .releaseLease firstId "owner" 1 (some EPOCH)]

/-- **The scope lease outlives the lease of its operation.** -/
theorem not_scopesReconciled_releaseUnderFence :
    ¬ Journal.ScopesReconciled (Journal.fresh.runCalls releaseUnderFence)
      (Journal.fresh.issuedFences releaseUnderFence) := by
  obtain ⟨j, haccept⟩ := accept_first
  rcases Journal.accept_cases haccept with ⟨i, o, hkey, -, -⟩ | ⟨-, -, acceptedAt, ha⟩
  · exact absurd hkey (by simp [Journal.idempotent?, Journal.fresh])
  let o := Journal.acceptedOperation actor (request firstKey) approval firstId acceptedAt
  have hfound : j.operations.get? o.operationId = some o := by
    rw [ha.result]
    exact Table.get?_put_self _ _
  have hfence : j.acquireFence "operation_a" "owner" (some 60) (some EPOCH) =
      .ok (j.withFence o.scope fence, fence) :=
    Journal.acquireFence_first owner hfound rfl (by decide)
      (by rw [ha.result]; rfl) (by rw [ha.result]; rfl)
  let l : LeaseRow := ⟨firstId, some owner, ⟨1, Nat.one_pos⟩, EPOCH + 60⟩
  have hheld : (j.withFence o.scope fence).activeLease firstId "owner" 1 EPOCH = .ok l :=
    Journal.activeLease_eq_ok.mpr
      ⟨Table.get?_put_self j.operationLeases l, rfl, rfl, by decide⟩
  have hrelease : (j.withFence o.scope fence).releaseLease firstId "owner" 1 (some EPOCH) =
      .ok ({ j.withFence o.scope fence with
        operationLeases := (j.withFence o.scope fence).operationLeases.put
          { l with ownerId := none, expiresAt := EPOCH } }, ()) := by
    simp only [Journal.releaseLease, clockSample, Result.ok_bind, hheld]
    rfl
  have hrun : Journal.fresh.runCalls releaseUnderFence =
      { j.withFence o.scope fence with
        operationLeases := (j.withFence o.scope fence).operationLeases.put
          { l with ownerId := none, expiresAt := EPOCH } } := by
    have h₁ := Call.apply_accept haccept
    have h₂ := Call.apply_ok (c := .acquireFence "operation_a" "owner" (some 60) (some EPOCH))
      (congrArg (Except.map Prod.fst) hfence)
    have h₃ := Call.apply_ok (c := .releaseLease firstId "owner" 1 (some EPOCH))
      (congrArg (Except.map Prod.fst) hrelease)
    unfold Journal.runCalls releaseUnderFence
    rw [List.foldl_cons, List.foldl_cons, List.foldl_cons, List.foldl_nil, h₁, h₂, h₃]
  intro hr
  obtain ⟨-, l', -, -, hl', howner, -⟩ := hr.leases
    ⟨o.scope, firstId, some owner, ⟨1, Nat.one_pos⟩, EPOCH + 60⟩
    (by rw [hrun]; exact Table.mem_put.mpr (Or.inl rfl))
  rw [hrun] at hl'
  have hself := Table.get?_put_self (j.withFence o.scope fence).operationLeases
    { l with ownerId := none, expiresAt := EPOCH }
  obtain rfl := Option.some.inj (hself.symm.trans hl')
  exact absurd howner (by simp)

end Ophelia.Reference
