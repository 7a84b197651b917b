import Ophelia.Journal.Closure
import Ophelia.Execution.RuntimeFence

/-!
# Ophelia.Execution.Fencing

Fencing end to end. The journal hands out fencing tokens for scopes, the runtime fence lets
side effects through by token. The system keeps two logs that no code reads: the fences the
journal granted, and the fences under which a runtime was entered or changed, each in order.
Any client may issue any call of the operation store and any fence at a runtime, at any
clock reading.
-/

namespace Ophelia

variable [Platform]

/-- A fence as `acquire_fence` handed it out for a scope. -/
structure Grant where
  scope : Scope
  fence : ExecutionFence
  /-- The scope had a lease, and it was released or expired. -/
  lapsed : Bool

namespace Grant

/-- Who holds the fence: the operation and the owner that executes it. -/
def holder (g : Grant) : EntityId .operation × Text 255 :=
  (g.fence.operationId, g.fence.ownerId)

def token (g : Grant) : Nat :=
  g.fence.fencingToken.1

end Grant

/-- The fence a call hands out, if it is an `acquire_fence` that succeeds. -/
def Call.grants (j : Journal) : Call → List Grant
  | .acquireFence id owner ttl clock =>
      match j.acquireFence id owner ttl clock, j.operation? id, clock with
      | .ok (_, fence), some o, some now =>
          [⟨o.scope, fence, (j.executionScopeLeases.get? o.scope).any fun s =>
            !Journal.leaseActive s.ownerId s.expiresAt now⟩]
      | _, _, _ => []
  | _ => []

theorem Call.grants_acquire {j : Journal} {id owner : String} {ttl clock : Option Int} :
    (Call.acquireFence id owner ttl clock).grants j =
      match j.acquireFence id owner ttl clock, j.operation? id, clock with
      | .ok (_, fence), some o, some now =>
          [⟨o.scope, fence, (j.executionScopeLeases.get? o.scope).any fun s =>
            !Journal.leaseActive s.ownerId s.expiresAt now⟩]
      | _, _, _ => [] := rfl

/-- The journal, the runtimes, and the two logs. -/
structure Fencing where
  journal : Journal
  runtimes : RuntimeFences
  grants : List Grant
  effects : List FenceRecord

namespace Fencing

def fresh : Fencing := ⟨.fresh, .fresh, [], []⟩

/-- What can happen: a call of the operation store, and entering, changing and leaving a
runtime. -/
inductive Step where
  | call (c : Call)
  | enter (hostId app environment operationId ownerId : String) (fencingToken : Int)
      (fault : Option PersistFault)
  | mutate (scope : RuntimeScope)
  | exit (scope : RuntimeScope)

/-- One step. Whoever wants to enter a runtime waits for its lock, and only whoever is inside
changes it. -/
def step (s : Fencing) : Step → Fencing
  | .call c =>
      { s with journal := c.apply s.journal, grants := s.grants ++ c.grants s.journal }
  | .enter hostId app environment operationId ownerId token fault =>
      match runtimeSideEffectFence hostId app environment operationId ownerId token with
      | .error _ => s
      | .ok fence =>
          if (s.runtimes.entered.get? fence.scope).isSome then s
          else
            match s.runtimes.enter fence fault with
            | (runtimes, .ok ()) => { s with runtimes, effects := s.effects ++ [fence] }
            | (runtimes, .error _) => { s with runtimes }
  | .mutate scope =>
      match s.runtimes.entered.get? scope with
      | some fence => { s with effects := s.effects ++ [fence] }
      | none => s
  | .exit scope => { s with runtimes := s.runtimes.exit scope }

def run (s : Fencing) (steps : List Step) : Fencing :=
  steps.foldl step s

end Fencing

/-! ### Tokens of the journal -/

namespace Journal

variable {j j' : Journal}

/-- The lease of a scope keeps its operation and its token, and its owner or none. -/
def Keeps (row row' : Option ScopeLeaseRow) : Prop :=
  row' = none ∧ row = none ∨
    ∃ s s', row = some s ∧ row' = some s' ∧ s'.operationId = s.operationId ∧
      s'.fencingToken = s.fencingToken ∧ (s'.ownerId = s.ownerId ∨ s'.ownerId = none)

omit [Platform] in
theorem Keeps.refl (row : Option ScopeLeaseRow) : Keeps row row := by
  cases row with
  | none => exact Or.inl ⟨rfl, rfl⟩
  | some s => exact Or.inr ⟨s, s, rfl, rfl, rfl, rfl, Or.inl rfl⟩

theorem Keeps.put {s s' : ScopeLeaseRow} (hs : j.executionScopeLeases.get? s.scope = some s)
    (hscope : s'.scope = s.scope) (hop : s'.operationId = s.operationId)
    (htoken : s'.fencingToken = s.fencingToken)
    (howner : s'.ownerId = s.ownerId ∨ s'.ownerId = none) (scope : Scope) :
    Keeps (j.executionScopeLeases.get? scope) ((j.executionScopeLeases.put s').get? scope) := by
  by_cases heq : scope = s'.scope
  · subst heq
    rw [Table.get?_put_self j.executionScopeLeases s', hscope, hs]
    exact Or.inr ⟨s, s', rfl, rfl, hop, htoken, howner⟩
  · have hsame := Table.get?_put_ne j.executionScopeLeases (r := s') heq
    rw [hsame]
    exact Keeps.refl _

/-- The fence a successful `acquire_fence` hands out. -/
theorem grants_acquireFence {id owner : String} {ttl clock : Option Int} {f : ExecutionFence}
    (h : j.acquireFence id owner ttl clock = .ok (j', f)) :
    ∃ o now, Granted j o now f ∧ j' = j.withFence o.scope f ∧
      (Call.acquireFence id owner ttl clock).grants j =
        [⟨o.scope, f, (j.executionScopeLeases.get? o.scope).any fun s =>
          !leaseActive s.ownerId s.expiresAt now⟩] := by
  obtain ⟨o, now, rfl, rfl, -, hg, hj⟩ := acquireFence_eq_ok h
  refine ⟨o, now, hg, hj, ?_⟩
  have hop : j.operation? o.operationId.val = some o := by
    rw [operation?_val]
    exact hg.found
  rw [Call.grants_acquire, h, hop]

/-- **What a call does to the leases of the scopes**: it grants a fence, or it keeps the
operation and the token of every lease. -/
theorem scopeLeases_run {c : Call} (hrun : c.run j = .ok j') :
    (c.grants j = [] ∧
      ∀ scope, Keeps (j.executionScopeLeases.get? scope) (j'.executionScopeLeases.get? scope)) ∨
    ∃ o now f, Granted j o now f ∧ j' = j.withFence o.scope f ∧
      c.grants j = [⟨o.scope, f, (j.executionScopeLeases.get? o.scope).any fun s =>
        !leaseActive s.ownerId s.expiresAt now⟩] := by
  have hsame : j'.executionScopeLeases = j.executionScopeLeases →
      ∀ scope, Keeps (j.executionScopeLeases.get? scope) (j'.executionScopeLeases.get? scope) := by
    intro heq scope
    rw [heq]
    exact Keeps.refl _
  cases c with
  | acquireFence id owner ttl clock =>
      rw [Call.run] at hrun
      obtain ⟨f, hrun⟩ := map_fst_eq_ok hrun
      obtain ⟨o, now, hg, hj, hgrants⟩ := grants_acquireFence hrun
      exact Or.inr ⟨o, now, f, hg, hj, hgrants⟩
  | heartbeatFence fence ttl clock =>
      rw [Call.run] at hrun
      obtain ⟨f, hrun⟩ := map_fst_eq_ok hrun
      obtain ⟨l, o, s, now, -, -, hs, -, -, rfl⟩ := heartbeatFence_eq_ok hrun
      have hrow := hs.row
      rw [← Table.key_of_get? hrow] at hrow
      exact Or.inl ⟨rfl, Keeps.put hrow rfl rfl rfl (Or.inl rfl)⟩
  | releaseFence fence clock =>
      rw [Call.run] at hrun
      obtain ⟨u, hrun⟩ := map_fst_eq_ok hrun
      obtain ⟨l, o, s, now, -, -, hs, rfl⟩ := releaseFence_eq_ok hrun
      have hrow := hs.row
      rw [← Table.key_of_get? hrow] at hrow
      exact Or.inl ⟨rfl, Keeps.put hrow rfl rfl rfl (Or.inr rfl)⟩
  | acquireLease id owner ttl clock =>
      rw [Call.run] at hrun
      obtain ⟨f, hrun⟩ := map_fst_eq_ok hrun
      obtain ⟨o, now, -, -, -, -, -, -, -, rfl⟩ := acquireLease_eq_ok hrun
      exact Or.inl ⟨rfl, hsame rfl⟩
  | heartbeatLease id owner token ttl clock =>
      rw [Call.run] at hrun
      obtain ⟨f, hrun⟩ := map_fst_eq_ok hrun
      obtain ⟨l, now, -, -, -, rfl⟩ := heartbeatLease_eq_ok hrun
      exact Or.inl ⟨rfl, hsame rfl⟩
  | releaseLease id owner token clock =>
      rw [Call.run] at hrun
      obtain ⟨u, hrun⟩ := map_fst_eq_ok hrun
      obtain ⟨l, now, -, -, rfl⟩ := releaseLease_eq_ok hrun
      exact Or.inl ⟨rfl, hsame rfl⟩
  | _ => exact Or.inl ⟨rfl, hsame ((frame_run hrun).leases rfl).2⟩

/-- A call that is refused grants nothing. -/
theorem grants_of_error {c : Call} {e : Failure} (h : c.run j = .error e) : c.grants j = [] := by
  cases c with
  | acquireFence id owner ttl clock =>
      rw [Call.run] at h
      cases hrun : j.acquireFence id owner ttl clock with
      | error e' => rw [Call.grants_acquire, hrun]
      | ok p => simp [hrun, Except.map] at h
  | _ => rfl

end Journal

namespace Fencing

/-- The grants of a scope and its lease. No token exceeds the one of the lease; while the
lease is held, the token of the lease was granted to nobody but its holder; and tokens grow
from one holder to the next and over a lapse. -/
structure Granting (j : Journal) (grants : List Grant) : Prop where
  bounded : ∀ g ∈ grants, ∃ row, j.executionScopeLeases.get? g.scope = some row ∧
    g.token ≤ row.fencingToken.1
  held : ∀ g ∈ grants, ∀ row, j.executionScopeLeases.get? g.scope = some row →
    ∀ owner, row.ownerId = some owner → g.token = row.fencingToken.1 →
      g.holder = (row.operationId, owner)
  ordered : grants.Pairwise fun g g' => g.scope = g'.scope →
    g.token ≤ g'.token ∧ (g.holder ≠ g'.holder ∨ g'.lapsed = true → g.token < g'.token)

section Granting

variable {j j' : Journal} {grants : List Grant}

/-- Calls that keep the leases of the scopes grant nothing. -/
theorem Granting.keeps (h : Granting j grants)
    (hkeeps : ∀ scope, Journal.Keeps (j.executionScopeLeases.get? scope)
      (j'.executionScopeLeases.get? scope)) : Granting j' grants := by
  refine ⟨?_, ?_, h.ordered⟩
  · intro g hg
    obtain ⟨row, hrow, hle⟩ := h.bounded g hg
    rcases hkeeps g.scope with ⟨-, hnone⟩ | ⟨r, r', hr, hr', -, htoken, -⟩
    · rw [hrow] at hnone
      exact absurd hnone (by simp)
    · obtain rfl : row = r := Option.some.inj (hrow.symm.trans hr)
      exact ⟨r', hr', by rw [htoken]; exact hle⟩
  · intro g hg row' hrow' owner howner htoken
    rcases hkeeps g.scope with ⟨hnone, -⟩ | ⟨r, r', hr, hr', hop, htok, hown⟩
    · rw [hrow'] at hnone
      exact absurd hnone (by simp)
    · obtain rfl : row' = r' := Option.some.inj (hrow'.symm.trans hr')
      -- a lease without an owner has no holder to disagree with
      cases hown with
      | inl hown =>
          rw [hop]
          exact h.held g hg r hr owner (hown.symm.trans howner) (by rw [← htok]; exact htoken)
      | inr hown =>
          rw [howner] at hown
          exact absurd hown (by simp)

/-- A grant is ordered against the grants before it. -/
theorem Granting.newest (h : Granting j grants) {o : OperationRow} {now : Int}
    {f : ExecutionFence} (hg : Journal.Granted j o now f) {g : Grant} (hmem : g ∈ grants)
    (hscope : g.scope = o.scope) :
    g.token ≤ f.fencingToken.1 ∧
      (g.holder ≠ (f.operationId, f.ownerId) ∨
        ((j.executionScopeLeases.get? o.scope).any fun l =>
          !Journal.leaseActive l.ownerId l.expiresAt now) = true → g.token < f.fencingToken.1) := by
  obtain ⟨row, hrow, hle⟩ := h.bounded g hmem
  rw [hscope] at hrow
  rcases hg.token with ⟨l, hl, hlive, hop, howner, htoken⟩ | ⟨-, htoken⟩
  · -- the holder asks again and keeps the token
    obtain rfl : row = l := Option.some.inj (hrow.symm.trans hl)
    rw [htoken]
    refine ⟨hle, ?_⟩
    intro hcase
    cases hcase with
    | inl hne =>
        refine lt_of_le_of_ne hle fun heq => hne ?_
        rw [h.held g hmem row (by rw [hscope]; exact hrow) f.ownerId howner heq, hop, hg.operation]
    | inr hlapsed => simp [hl, hlive] at hlapsed
  · -- the scope is free, and the token is new
    have hlt : g.token < f.fencingToken.1 := by
      rw [htoken, hrow]
      exact Nat.lt_succ_of_le (le_trans hle (le_max_left _ _))
    exact ⟨le_of_lt hlt, fun _ => hlt⟩

/-- A granted fence is the new lease of its scope. -/
theorem Granting.granted (h : Granting j grants) {o : OperationRow} {now : Int}
    {f : ExecutionFence} (hg : Journal.Granted j o now f) :
    Granting (j.withFence o.scope f) (grants ++ [⟨o.scope, f,
      (j.executionScopeLeases.get? o.scope).any fun l =>
        !Journal.leaseActive l.ownerId l.expiresAt now⟩]) := by
  have hself : (j.withFence o.scope f).executionScopeLeases.get? o.scope =
      some ⟨o.scope, f.operationId, some f.ownerId, f.fencingToken, f.expiresAt⟩ :=
    Table.get?_put_self j.executionScopeLeases
      ⟨o.scope, f.operationId, some f.ownerId, f.fencingToken, f.expiresAt⟩
  have hother : ∀ scope, scope ≠ o.scope →
      (j.withFence o.scope f).executionScopeLeases.get? scope =
        j.executionScopeLeases.get? scope := fun scope hne =>
    Table.get?_put_ne j.executionScopeLeases
      (r := ⟨o.scope, f.operationId, some f.ownerId, f.fencingToken, f.expiresAt⟩) hne
  refine ⟨?_, ?_, ?_⟩
  · intro g hmem
    rcases List.mem_append.mp hmem with hmem | hmem
    · by_cases hscope : g.scope = o.scope
      · exact ⟨_, by rw [hscope]; exact hself, (h.newest hg hmem hscope).1⟩
      · rw [hother _ hscope]
        exact h.bounded g hmem
    · obtain rfl := List.mem_singleton.mp hmem
      exact ⟨_, hself, le_refl _⟩
  · intro g hmem row hrow owner howner htoken
    rcases List.mem_append.mp hmem with hmem | hmem
    · by_cases hscope : g.scope = o.scope
      · rw [hscope, hself] at hrow
        obtain rfl := Option.some.inj hrow
        obtain rfl := Option.some.inj howner
        by_contra hne
        have := (h.newest hg hmem hscope).2 (Or.inl hne)
        exact absurd htoken (Nat.ne_of_lt this)
      · rw [hother _ hscope] at hrow
        exact h.held g hmem row hrow owner howner htoken
    · obtain rfl := List.mem_singleton.mp hmem
      rw [hself] at hrow
      obtain rfl := Option.some.inj hrow
      obtain rfl := Option.some.inj howner
      rfl
  · rw [List.pairwise_append]
    refine ⟨h.ordered, List.pairwise_singleton _ _, ?_⟩
    intro g hmem g' hmem' hscope
    obtain rfl := List.mem_singleton.mp hmem'
    exact h.newest hg hmem hscope

end Granting

/-! ### Tokens at the runtime -/

/-- Whoever is inside a runtime is named by its record, no side effect had a greater token
than the record, and tokens of side effects never decrease. -/
structure Guarding (r : RuntimeFences) (effects : List FenceRecord) : Prop where
  inside : ∀ k f, r.entered.get? k = some f → r.records.get? k = some f
  bounded : ∀ e ∈ effects, ∃ record, r.records.get? e.scope = some record ∧
    e.fencingToken.1 ≤ record.fencingToken.1
  ordered : effects.Pairwise fun e e' =>
    e.scope = e'.scope → e.fencingToken.1 ≤ e'.fencingToken.1

section Guarding

variable {r : RuntimeFences} {effects : List FenceRecord} {f : FenceRecord}

omit [Platform]

/-- Side effects under the record of a runtime keep their order. -/
theorem Guarding.effect (h : Guarding r effects) (hrecord : r.records.get? f.scope = some f) :
    Guarding r (effects ++ [f]) := by
  refine ⟨h.inside, ?_, ?_⟩
  · intro e he
    rcases List.mem_append.mp he with he | he
    · exact h.bounded e he
    · obtain rfl := List.mem_singleton.mp he
      exact ⟨_, hrecord, le_refl _⟩
  · rw [List.pairwise_append]
    refine ⟨h.ordered, List.pairwise_singleton _ _, ?_⟩
    intro e he e' he' hscope
    obtain rfl := List.mem_singleton.mp he'
    obtain ⟨record, hrow, hle⟩ := h.bounded e he
    rw [hscope, hrecord] at hrow
    obtain rfl := Option.some.inj hrow
    exact hle

/-- A record is replaced by one that it authorizes, while nobody is inside. -/
theorem Guarding.replace (h : Guarding r effects) (hfree : r.entered.get? f.scope = none)
    (hauth : RuntimeFences.authorize (r.records.get? f.scope) f = .ok ()) :
    Guarding { r with records := r.records.put f } effects := by
  refine ⟨?_, ?_, h.ordered⟩
  · intro k f' hin
    have hne : k ≠ f.scope := by
      intro heq
      rw [heq] at hin
      exact absurd (hfree.symm.trans hin) (by simp)
    exact (Table.get?_put_ne r.records (r := f) hne).trans (h.inside k f' hin)
  · intro e he
    obtain ⟨record, hrow, hle⟩ := h.bounded e he
    by_cases hscope : e.scope = f.scope
    · refine ⟨f, ?_, ?_⟩
      · rw [hscope]
        exact Table.get?_put_self r.records f
      · rw [hscope] at hrow
        exact le_trans hle (RuntimeFences.authorize_eq_ok.mp hauth record hrow).1
    · exact ⟨record, (Table.get?_put_ne r.records (r := f) hscope).trans hrow, hle⟩

/-- Whoever enters is the one the record names. -/
theorem Guarding.enter (h : Guarding r effects) (hrecord : r.records.get? f.scope = some f) :
    Guarding { r with entered := r.entered.put f } effects := by
  refine ⟨?_, h.bounded, h.ordered⟩
  intro k f' hin
  by_cases hk : k = f.scope
  · subst hk
    have hself := Table.get?_put_self r.entered f
    obtain rfl := Option.some.inj (hself.symm.trans hin)
    exact hrecord
  · have hsame := Table.get?_put_ne r.entered (r := f) hk
    exact h.inside k f' (hsame.symm.trans hin)

end Guarding

/-! ### Every step -/

variable {s : Fencing}

/-- The two halves of the system together. -/
structure Inv (s : Fencing) : Prop where
  granting : Granting s.journal s.grants
  guarding : Guarding s.runtimes s.effects

theorem Inv.fresh : Inv fresh := by
  refine ⟨⟨?_, ?_, ?_⟩, ⟨?_, ?_, ?_⟩⟩ <;> simp [Fencing.fresh, RuntimeFences.fresh]

theorem Inv.call (h : Inv s) (c : Call) : Inv (s.step (.call c)) := by
  refine ⟨?_, h.guarding⟩
  simp only [step, Call.apply]
  cases hrun : c.run s.journal with
  | error e =>
      rw [Journal.grants_of_error hrun, List.append_nil]
      exact h.granting
  | ok j' =>
      rcases Journal.scopeLeases_run hrun with ⟨hnone, hkeeps⟩ | ⟨o, now, f, hg, rfl, hgrants⟩
      · rw [hnone, List.append_nil]
        exact h.granting.keeps hkeeps
      · rw [hgrants]
        exact h.granting.granted hg

theorem Inv.enter (h : Inv s) (hostId app environment operationId ownerId : String) (token : Int)
    (fault : Option PersistFault) :
    Inv (s.step (.enter hostId app environment operationId ownerId token fault)) := by
  simp only [step]
  cases runtimeSideEffectFence hostId app environment operationId ownerId token with
  | error e => exact h
  | ok f =>
      simp only
      split
      · exact h
      · rename_i hlock
        have hfree : s.runtimes.entered.get? f.scope = none := by simpa using hlock
        rcases RuntimeFences.enter_cases s.runtimes f fault with
          ⟨e, he⟩ | ⟨hauth, ⟨e, he⟩ | he⟩
        · simp only [he]
          exact h
        · simp only [he]
          exact ⟨h.granting, h.guarding.replace hfree hauth⟩
        · simp only [he]
          have hself := Table.get?_put_self s.runtimes.records f
          exact ⟨h.granting, ((h.guarding.replace hfree hauth).enter hself).effect hself⟩

/-- **Every step keeps the order of tokens.** -/
theorem Inv.step (h : Inv s) (a : Step) : Inv (s.step a) := by
  cases a with
  | call c => exact h.call c
  | enter hostId app environment operationId ownerId token fault =>
      exact h.enter hostId app environment operationId ownerId token fault
  | mutate scope =>
      simp only [Fencing.step]
      cases hin : s.runtimes.entered.get? scope with
      | none => exact h
      | some f =>
          have hrecord := h.guarding.inside scope f hin
          rw [← Table.key_of_get? hrecord] at hrecord
          exact ⟨h.granting, h.guarding.effect hrecord⟩
  | exit scope =>
      exact ⟨h.granting, ⟨fun k f hin => h.guarding.inside k f (RuntimeFences.get?_exit hin),
        h.guarding.bounded, h.guarding.ordered⟩⟩

theorem Inv.run (h : Inv s) (steps : List Step) : Inv (s.run steps) := by
  induction steps generalizing s with
  | nil => exact h
  | cons a steps ih => exact ih (h.step a)

/-! ### Safety -/

/-- The runtime stands behind the fence of the scope. -/
def Guards (runtime : RuntimeScope) (scope : Scope) : Prop :=
  runtime.hostId.val = scope.hostId.val ∧ runtime.app = scope.app ∧
    runtime.environment = scope.environment

/-- What fencing promises about the logs and about the next check.

* Tokens of a scope never decrease, and increase when the holder changes or the lease before
  had lapsed.
* Nobody is handed the token of another holder.
* The journal accepts no fence with a token below one it has handed out for the scope.
* After a side effect under the token of a grant, none happens under the token of an earlier
  grant to another holder. -/
structure Safe (s : Fencing) : Prop where
  ordered : s.grants.Pairwise fun g g' => g.scope = g'.scope →
    g.token ≤ g'.token ∧ (g.holder ≠ g'.holder ∨ g'.lapsed = true → g.token < g'.token)
  distinct : ∀ g ∈ s.grants, ∀ g' ∈ s.grants, g.scope = g'.scope → g.token = g'.token →
    g.holder = g'.holder
  superseded : ∀ g ∈ s.grants, ∀ id fence clock o,
    s.journal.operations.get? fence.operationId = some o → o.scope = g.scope →
    fence.fencingToken.1 < g.token → s.journal.assertExecutionFence id fence clock ≠ .ok ()
  fenced : s.effects.Pairwise fun e e' => ∀ g' g, [g', g].Sublist s.grants →
    g'.scope = g.scope → Guards e.scope g.scope → e'.scope = e.scope → g'.holder ≠ g.holder →
    e.fencingToken.1 = g.token → e'.fencingToken.1 ≠ g'.token

theorem Inv.safe (h : Inv s) : Safe s := by
  have hlt : ∀ g g', [g, g'].Sublist s.grants → g.scope = g'.scope → g.holder ≠ g'.holder →
      g.token < g'.token := fun g g' hsub hscope hne =>
    (List.pairwise_iff_forall_sublist.mp h.granting.ordered hsub hscope).2 (Or.inl hne)
  refine ⟨h.granting.ordered, ?_, ?_, ?_⟩
  · -- one of the two grants came first
    have hsame : s.grants.Pairwise fun g g' => g.scope = g'.scope → g.token = g'.token →
        g.holder = g'.holder := by
      refine h.granting.ordered.imp fun {g g'} hord hscope htoken => ?_
      by_contra hne
      exact absurd htoken (Nat.ne_of_lt ((hord hscope).2 (Or.inl hne)))
    refine hsame.forall_of_forall_of_flip (fun _ _ _ _ => rfl) (hsame.imp fun hab => ?_)
    intro hscope htoken
    exact (hab hscope.symm htoken.symm).symm
  · intro g hg id fence clock o ho hscope hlower hok
    obtain ⟨-, now, -, -, o', row, hheld⟩ := Journal.assertExecutionFence_eq_ok.mp hok
    obtain rfl : o = o' := Option.some.inj (ho.symm.trans hheld.operation)
    obtain ⟨row', hrow', hle⟩ := h.granting.bounded g hg
    rw [← hscope] at hrow'
    obtain rfl : row = row' := Option.some.inj (hheld.row.symm.trans hrow')
    have := hheld.token
    omega
  · refine h.guarding.ordered.imp fun {e e'} hord => ?_
    intro g' g hsub hscope _ hruntime hne htoken hequal
    have := hlt g' g hsub hscope hne
    have := hord hruntime.symm
    omega

/-- **Fencing is safe end to end**, whatever calls, clock readings, runtime fences and faults
interleave. -/
theorem safe_run (steps : List Step) : Safe (fresh.run steps) :=
  (Inv.fresh.run steps).safe

end Fencing

end Ophelia
