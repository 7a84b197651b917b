import Ophelia.Journal.Closure

/-!
# Ophelia.Journal.Readings

What a client that reads the journal twice can rely on, whatever other clients call in between.
A replayed history only gets longer; a terminal operation reads the same forever; and the
successes of a scope are one chain of releases, numbered from one to the active generation,
each of which names the release before it. A chain that was read once is a part of every chain
that is read later.
-/

namespace Ophelia

variable [Platform]

namespace Journal

variable {j j' : Journal} {id : EntityId .operation}

/-! ### Replays -/

theorem runCalls_append (calls more : List Call) :
    j.runCalls (calls ++ more) = (j.runCalls calls).runCalls more :=
  List.foldl_append

/-- A write leaves the replay of an operation, or adds events at its end. -/
theorem Coherent.verifiedEvents_write (h : Coherent j) (hw : Write j j')
    {events : List OperationEvent} (he : j.verifiedEvents id = .ok events) :
    ∃ more, j'.verifiedEvents id = .ok (events ++ more) := by
  obtain ⟨r, claims, p, hh⟩ := verifiedEvents_eq_ok.mp he
  have hsame : j'.verifiedEvents id = j.verifiedEvents id →
      ∃ more, j'.verifiedEvents id = .ok (events ++ more) :=
    fun hs => ⟨[], by rw [hs, he, List.append_nil]⟩
  cases hw with
  | accept ha => exact hsame (ha.verifiedEvents_old h (known_of_acceptedRow? hh.accepted))
  | cancel => exact hsame (verifiedEvents_congr rfl rfl rfl)
  | lease => exact hsame (verifiedEvents_congr rfl rfl rfl)
  | active => exact hsame (verifiedEvents_congr rfl rfl rfl)
  | @event o event happ =>
      by_cases hid : id = event.operationId
      · subst hid
        exact ⟨[event.masked], verifiedEvents_eq_ok.mpr ⟨_, _, _, hh.withEvent h happ⟩⟩
      · exact hsame (verifiedEvents_congr (acceptedRow?_withEvent_ne happ hid)
          (eventRows_withEvent_ne happ (Ne.symm hid)) rfl)
  | @commit r' receipt freshId hterse hc =>
      by_cases hid : id = receipt.operationId
      · subst hid
        exact ⟨[j.terminalEvent receipt freshId],
          verifiedEvents_eq_ok.mpr ⟨_, _, _, hh.withCommit hterse hc⟩⟩
      · have hrow := acceptedRow?_withEvent_ne
          (t := OperationEvent.schema.canonicalJson (j.terminalEvent receipt freshId))
          hc.appends hid
        refine hsame (verifiedEvents_congr hrow
          (eventRows_withEvent_ne hc.appends (Ne.symm hid)) ?_)
        exact receipt?_withReceipt_ne (j := j.withEvent r'.operation
          (j.terminalEvent receipt freshId) _) hc.free hid
  | lifecycle => exact hsame (verifiedEvents_congr rfl rfl rfl)

theorem Coherent.verifiedEvents_writesTo (h : Coherent j) (hw : WritesTo j j')
    {events : List OperationEvent} (he : j.verifiedEvents id = .ok events) :
    ∃ more, j'.verifiedEvents id = .ok (events ++ more) := by
  induction hw with
  | refl => exact ⟨[], by rw [he, List.append_nil]⟩
  | tail hinit hstep ih =>
      obtain ⟨more, hmore⟩ := ih
      obtain ⟨last, hlast⟩ := (h.writesTo hinit).verifiedEvents_write hstep hmore
      exact ⟨more ++ last, by rw [hlast, List.append_assoc]⟩

theorem Coherent.verifiedEvents_run (h : Coherent j) {c : Call} (hrun : c.run j = .ok j')
    {events : List OperationEvent} (he : j.verifiedEvents id = .ok events) :
    ∃ more, j'.verifiedEvents id = .ok (events ++ more) := by
  cases hc : c.acknowledges with
  | false => exact h.verifiedEvents_writesTo (writesTo_run hc hrun) he
  | true =>
      obtain ⟨row, rfl, -⟩ := delivery_run hc hrun
      refine ⟨[], ?_⟩
      rw [List.append_nil, ← he]
      exact verifiedEvents_congr rfl rfl rfl

/-- Every operation of the first journal replays in both, and the second replay starts with the
events of the first one. -/
def ReplaysOn (j j' : Journal) : Prop :=
  ∀ id, j.Known id → ∃ events more, j.verifiedEvents id = .ok events ∧
    j'.verifiedEvents id = .ok (events ++ more)

/-- **Replays only grow.** Between two replays of an operation any clients may make any calls:
both succeed, and the events of the first one are the beginning of the second one. -/
theorem replay_prefix (calls more : List Call) :
    ReplaysOn (Journal.fresh.runCalls calls) (Journal.fresh.runCalls (calls ++ more)) := by
  have hj := Coherent.fresh.runCalls calls
  intro id hk
  obtain ⟨events, he⟩ := hj.history hk
  rw [runCalls_append]
  -- the induction is on the calls made since the first replay
  have hlater : Coherent ((Journal.fresh.runCalls calls).runCalls more) ∧ ∃ last,
      ((Journal.fresh.runCalls calls).runCalls more).verifiedEvents id = .ok (events ++ last) :=
    runCalls_induction (P := fun j => Coherent j ∧ ∃ last,
      j.verifiedEvents id = .ok (events ++ last)) (by
        intro j j' c _ hP hrun
        obtain ⟨h, last, hlast⟩ := hP
        obtain ⟨next, hnext⟩ := h.verifiedEvents_run hrun hlast
        exact ⟨h.run hrun, last ++ next, by rw [hnext, List.append_assoc]⟩)
      (fun _ _ => trivial) ⟨hj, [], by rw [he, List.append_nil]⟩
  obtain ⟨-, last, hlast⟩ := hlater
  exact ⟨events, last, he, hlast⟩

/-! ### Terminal operations -/

theorem grows_runCalls (calls : List Call) : Grows j (j.runCalls calls) :=
  runCalls_induction (P := Grows j) (fun _ hj hrun => hj.trans (grows_run hrun))
    (fun _ _ => trivial) (Grows.refl j)

/-- The acceptance of a terminal operation is read as before. -/
theorem Grows.acceptedRow? (h : Grows j j') {r : AcceptedRow} (hr : j.acceptedRow? id = some r)
    (ht : r.operation.state.terminal = true) : j'.acceptedRow? id = some r := by
  obtain ⟨ho, ha, hp⟩ := acceptedRow?_eq_some.mp hr
  exact acceptedRow?_eq_some.mpr ⟨h.settled.operation ho ht, h.extends_.approvals ha,
    h.extends_.plans hp⟩

/-- The terminal operations of the first journal read the same in the second one. -/
structure Frozen (j j' : Journal) : Prop where
  operation : ∀ id o, j.operations.get? id = some o → o.state.terminal = true →
    j'.operations.get? id = some o
  replay : ∀ id o, j.operations.get? id = some o → o.state.terminal = true →
    j'.verifiedEvents id = j.verifiedEvents id
  receipt : ∀ id o, j.operations.get? id = some o → o.state.terminal = true →
    j'.receipt? id = j.receipt? id
  lifecycle : ∀ id o, j.operations.get? id = some o → o.state.terminal = true →
    j'.verifiedRevisionHistory id = j.verifiedRevisionHistory id
  input : ∀ id o, j.operations.get? id = some o → o.state.terminal = true →
    ∀ input, j.loadExecutionInputTx id = .ok input → j'.loadExecutionInputTx id = .ok input

theorem Grows.frozen (h : Grows j j') (hj : Coherent j) : Frozen j j' where
  operation _ _ ho ht := h.settled.operation ho ht
  replay id o ho ht := by
    obtain ⟨r, claims, events, p, hh⟩ := hj.exists_history (known_of_get? ho)
    obtain rfl := Option.some.inj ((acceptedRow?_eq_some.mp hh.accepted).1.symm.trans ho)
    exact verifiedEvents_congr ((h.acceptedRow? hh.accepted ht).trans hh.accepted.symm)
      (h.settled.events ho ht) (h.settled.receipt ho ht)
  receipt _ _ ho ht := h.settled.receipt ho ht
  lifecycle _ _ ho ht := verifiedRevisionHistory_congr (h.settled.lifecycle ho ht)
  input _ _ _ _ _ hinput := h.extends_.loadExecutionInputTx hinput

/-- **A terminal operation is frozen.** Once a reachable journal has an operation in a terminal
state, its row, its replay, its receipt, its revision history and its execution input are the
same after any further calls of any clients. -/
theorem terminal_frozen (calls more : List Call) :
    Frozen (Journal.fresh.runCalls calls) (Journal.fresh.runCalls (calls ++ more)) := by
  have hg : Grows (Journal.fresh.runCalls calls) (Journal.fresh.runCalls (calls ++ more)) := by
    rw [runCalls_append]
    exact grows_runCalls more
  exact hg.frozen (Coherent.fresh.runCalls calls)

/-! ### Releases -/

/-- The operation and the receipt of the success that produced a generation of a scope. -/
structure Released (j : Journal) (scope : Scope) (generation : Nat) (o : OperationRow)
    (receipt : TerminalReceipt) : Prop where
  marker : ∃ a ∈ j.atomicSuccessCommits.rows, a.operationId = o.operationId ∧
    a.activeGeneration.1 = generation
  operation : j.operations.get? o.operationId = some o
  terminal : o.state.terminal = true
  scope : o.scope = scope
  stored : ∃ row, j.receipt? o.operationId = some row ∧ row.outcome = .succeeded ∧
    row.payloadJson = receipt.canonicalJson

/-- Success markers are never taken back. -/
theorem Linear.markers_run {c : Call} (h : Coherent j) (hl : Linear j) (hc : c.bareSwap = false)
    (hrun : c.run j = .ok j') {a : AtomicSuccessRow} (ha : a ∈ j.atomicSuccessCommits.rows) :
    a ∈ j'.atomicSuccessCommits.rows := by
  cases hswap : c.swaps with
  | false =>
      rw [((frame_run hrun).actives hswap).2]
      exact ha
  | true =>
      cases c with
      | commitSuccess receipt expected fence clock freshId =>
          rw [Call.run] at hrun
          obtain ⟨active, hrun⟩ := map_fst_eq_ok hrun
          obtain ⟨hterse, hout, -, ⟨rfl, -⟩ | ⟨j₁, j₂, j₃, hs, rfl⟩⟩ := commitSuccess_eq_ok hrun
          · exact ha
          · obtain ⟨o, ho⟩ := hs.outcome h hterse hout
            exact (ho.mem_markers hl).mpr (Or.inr ha)
      | compareAndSwapActiveRevision => exact absurd hc (by simp [Call.bareSwap])
      | _ => exact absurd hswap (by simp [Call.swaps])

/-- A release stays one. -/
theorem Released.run {c : Call} {scope : Scope} {n : Nat} {o : OperationRow}
    {receipt : TerminalReceipt} (hr : Released j scope n o receipt) (h : Coherent j)
    (hl : Linear j) (hc : c.bareSwap = false) (hrun : c.run j = .ok j') :
    Released j' scope n o receipt := by
  obtain ⟨a, ha, hid, hn⟩ := hr.marker
  have hg := (grows_run hrun).settled
  refine ⟨⟨a, hl.markers_run h hc hrun ha, hid, hn⟩, hg.operation hr.operation hr.terminal,
    hr.terminal, hr.scope, ?_⟩
  rw [hg.receipt hr.operation hr.terminal]
  exact hr.stored

/-- The release of a generation is unique, its receipt up to what is stored of it. -/
theorem Released.unique (hl : Linear j) {scope : Scope} {n : Nat} {o o' : OperationRow}
    {receipt receipt' : TerminalReceipt} (hr : Released j scope n o receipt)
    (hr' : Released j scope n o' receipt') :
    o = o' ∧ receipt.canonicalJson = receipt'.canonicalJson := by
  obtain ⟨a, ha, hid, hn⟩ := hr.marker
  obtain ⟨a', ha', hid', hn'⟩ := hr'.marker
  have hop : j.operations.get? a.operationId = some o := by rw [hid]; exact hr.operation
  have hop' : j.operations.get? a'.operationId = some o' := by rw [hid']; exact hr'.operation
  obtain rfl := hl.unique a ha a' ha' o o' hop hop' (hr.scope.trans hr'.scope.symm)
    (Subtype.ext (hn.trans hn'.symm))
  obtain rfl := Option.some.inj (hop.symm.trans hop')
  obtain ⟨row, hrow, -, hjson⟩ := hr.stored
  obtain ⟨row', hrow', -, hjson'⟩ := hr'.stored
  obtain rfl := Option.some.inj (hrow.symm.trans hrow')
  exact ⟨rfl, hjson.symm.trans hjson'⟩

theorem linear_runCalls {calls : List Call} (hcalls : ∀ c ∈ calls, c.bareSwap = false) :
    Coherent (Journal.fresh.runCalls calls) ∧ Linear (Journal.fresh.runCalls calls) :=
  runCalls_induction (P := fun j => Coherent j ∧ Linear j)
    (fun hc hP hrun => ⟨hP.1.run hrun, hP.2.run hP.1 hc hrun⟩) hcalls
    ⟨Coherent.fresh, Linear.fresh⟩

/-- The releases of the first journal are the releases of the same generations in the second
one. -/
def ReleasesKept (j j' : Journal) : Prop :=
  ∀ scope n o receipt, Released j scope n o receipt → Released j' scope n o receipt ∧
    ∀ o' receipt', Released j' scope n o' receipt' →
      o' = o ∧ receipt'.canonicalJson = receipt.canonicalJson

/-- **Two readers agree on every release.** What one client reads as the release of a
generation is what any other client reads for that generation later, however many releases
have followed. -/
theorem releases_agree (calls more : List Call)
    (hcalls : ∀ c ∈ calls ++ more, c.bareSwap = false) :
    ReleasesKept (Journal.fresh.runCalls calls) (Journal.fresh.runCalls (calls ++ more)) := by
  intro scope n o receipt hr
  have hbefore := linear_runCalls fun c hc => hcalls c (List.mem_append_left more hc)
  have hafter := linear_runCalls hcalls
  have hkept : Released (Journal.fresh.runCalls (calls ++ more)) scope n o receipt := by
    rw [runCalls_append]
    refine (runCalls_induction (P := fun j => (Coherent j ∧ Linear j) ∧
      Released j scope n o receipt) (fun hc hP hrun => ⟨⟨hP.1.1.run hrun,
        hP.1.2.run hP.1.1 hc hrun⟩, hP.2.run hP.1.1 hP.1.2 hc hrun⟩)
      (fun c hc => hcalls c (List.mem_append_right calls hc)) ⟨hbefore, hr⟩).2
  exact ⟨hkept, fun o' receipt' hr' => hr'.unique hafter.2 hkept⟩

/-- Every generation up to the active one has a release, which names the release of the
generation before it. -/
theorem Linear.released (hl : Linear j) {row : ActiveRow} (hrow : row ∈ j.activeRevisions.rows)
    {n : Nat} (hpos : 0 < n) (hle : n ≤ row.generation.1) :
    ∃ o receipt, Released j row.scope n o receipt ∧
      ((n = 1 ∧ receipt.previousRevisionId = none) ∨ ∃ o' receipt',
        Released j row.scope (n - 1) o' receipt' ∧
          receipt.previousRevisionId = some o'.revisionId) := by
  have hreleased : ∀ {a : AtomicSuccessRow} {o : OperationRow},
      a ∈ j.atomicSuccessCommits.rows → j.operations.get? a.operationId = some o →
      o.scope = row.scope → ∃ receipt, Released j row.scope a.activeGeneration.1 o receipt ∧
        Follows j a o receipt := by
    intro a o ha ho hscope
    obtain ⟨o₁, receipt, hact, hfollows⟩ := hl.markers a ha
    obtain rfl := Option.some.inj (hact.operation.symm.trans ho)
    have hid : o₁.operationId = a.operationId := Table.key_of_get? ho
    refine ⟨receipt, ⟨⟨a, ha, hid.symm, rfl⟩, ?_, hact.terminal, hscope, ?_⟩, hfollows⟩
    · rw [hid]; exact ho
    · rw [hid]; exact hact.stored
  obtain ⟨a, ha, hgen, o, ho, hscope⟩ := hl.dense row hrow n hpos hle
  obtain ⟨receipt, hr, hfollows⟩ := hreleased ha ho hscope
  rw [hgen] at hr
  refine ⟨o, receipt, hr, ?_⟩
  rcases hfollows with ⟨hone, hnone⟩ | ⟨a', ha', o', ho', hscope', hsucc, hprevious⟩
  · exact Or.inl ⟨hgen.symm.trans hone, hnone⟩
  · obtain ⟨receipt', hr', -⟩ := hreleased ha' ho' (hscope'.trans hscope)
    have hbefore : a'.activeGeneration.1 = n - 1 := by omega
    rw [hbefore] at hr'
    exact Or.inr ⟨o', receipt', hr', hprevious⟩

/-- A numbering of the releases of an active revision. -/
theorem Linear.numbering (hl : Linear j) {row : ActiveRow} (hrow : row ∈ j.activeRevisions.rows) :
    ∃ release : Nat → OperationRow × TerminalReceipt, ∀ n, 0 < n → n ≤ row.generation.1 →
      Released j row.scope n (release n).1 (release n).2 ∧
        (release n).2.previousRevisionId =
          if n = 1 then none else some (release (n - 1)).1.revisionId := by
  have hchoice : ∀ n : Nat, ∃ r : OperationRow × TerminalReceipt,
      0 < n → n ≤ row.generation.1 → Released j row.scope n r.1 r.2 ∧
        ((n = 1 ∧ r.2.previousRevisionId = none) ∨ ∃ o' receipt',
          Released j row.scope (n - 1) o' receipt' ∧
            r.2.previousRevisionId = some o'.revisionId) := by
    intro n
    obtain ⟨o₀, receipt₀, -⟩ := hl.released hrow row.generation.2 (le_refl _)
    by_cases hn : 0 < n ∧ n ≤ row.generation.1
    · obtain ⟨o, receipt, hr⟩ := hl.released hrow hn.1 hn.2
      exact ⟨(o, receipt), fun _ _ => hr⟩
    · exact ⟨(o₀, receipt₀), fun h₁ h₂ => absurd ⟨h₁, h₂⟩ hn⟩
  choose release hrelease using hchoice
  refine ⟨release, fun n hpos hle => ?_⟩
  obtain ⟨hr, hprevious⟩ := hrelease n hpos hle
  refine ⟨hr, ?_⟩
  rcases hprevious with ⟨rfl, hnone⟩ | ⟨o', receipt', hr', hprevious⟩
  · rw [if_pos rfl, hnone]
  · obtain ⟨a', -, -, hgen'⟩ := hr'.marker
    have hpos' := a'.activeGeneration.2
    obtain ⟨hbefore, -⟩ := hrelease (n - 1) (by omega) (by omega)
    rw [if_neg (by omega), hprevious, (hr'.unique hl hbefore).1]

/-- The releases of a scope as one chain, from the first to the active one. -/
structure Chain (j : Journal) (scope : Scope) (releases : List (OperationRow × TerminalReceipt)) :
    Prop where
  length : releases.length = (j.activeRevisions.get? scope).elim 0 (·.generation.1)
  released : ∀ n r, releases[n]? = some r → Released j scope (n + 1) r.1 r.2
  linked : ∀ n r, releases[n]? = some r → r.2.previousRevisionId =
    if n = 0 then none else releases[n - 1]?.map (·.1.revisionId)
  active : (j.activeRevisions.get? scope).map (fun row => (row.operationId, row.revisionId)) =
    releases.getLast?.map fun r => (r.1.operationId, r.1.revisionId)
  complete : ∀ a ∈ j.atomicSuccessCommits.rows, ∀ o, j.operations.get? a.operationId = some o →
    o.scope = scope → o ∈ releases.map (·.1)

/-- The release of the active revision. -/
theorem Linear.active_released (hl : Linear j) {row : ActiveRow}
    (hrow : row ∈ j.activeRevisions.rows) : ∃ o receipt,
      Released j row.scope row.generation.1 o receipt ∧ o.operationId = row.operationId ∧
        o.revisionId = row.revisionId := by
  obtain ⟨-, hmarker, o, receipt, hact, hscope, hrev, -⟩ := hl.active row hrow
  have hid : o.operationId = row.operationId := Table.key_of_get? hact.operation
  refine ⟨o, receipt, ⟨⟨_, Table.mem_of_get? hmarker, hid.symm, rfl⟩, ?_, hact.terminal, hscope,
    ?_⟩, hid, hact.revision.symm.trans hrev.symm⟩
  · rw [hid]; exact hact.operation
  · rw [hid]; exact hact.stored

theorem Linear.chain (hl : Linear j) (scope : Scope) : ∃ releases, Chain j scope releases := by
  cases hget : j.activeRevisions.get? scope with
  | none =>
      refine ⟨[], ⟨by rw [hget]; rfl, by simp, by simp, by rw [hget]; rfl, ?_⟩⟩
      intro a ha o ho hscope
      obtain ⟨act, hact, -⟩ := hl.bounded a ha o ho
      rw [hscope, hget] at hact
      exact absurd hact (by simp)
  | some row =>
      have hrow := Table.mem_of_get? hget
      obtain rfl : row.scope = scope := Table.key_of_get? hget
      obtain ⟨release, hrelease⟩ := hl.numbering hrow
      have hat : ∀ {n r}, ((List.range row.generation.1).map fun i => release (i + 1))[n]? =
          some r → n < row.generation.1 ∧ release (n + 1) = r := by
        intro n r hn
        simpa [List.getElem?_map, List.getElem?_range, Option.map_eq_some_iff,
          List.getElem?_eq_some_iff] using hn
      have hlast := (hrelease row.generation.1 row.generation.2 (le_refl _)).1
      obtain ⟨o, receipt, hactive, hop, hrev⟩ := hl.active_released hrow
      obtain ⟨hsame, -⟩ := hlast.unique hl hactive
      refine ⟨(List.range row.generation.1).map fun i => release (i + 1),
        ⟨by rw [hget]; simp, ?_, ?_, ?_, ?_⟩⟩
      · intro n r hn
        obtain ⟨hlt, rfl⟩ := hat hn
        exact (hrelease (n + 1) (Nat.succ_pos n) hlt).1
      · intro n r hn
        obtain ⟨hlt, rfl⟩ := hat hn
        rw [(hrelease (n + 1) (Nat.succ_pos n) hlt).2]
        cases n with
        | zero => simp
        | succ n =>
            have hpred : n < row.generation.1 := Nat.lt_of_succ_lt hlt
            simp [hpred]
      · have hne : row.generation.1 ≠ 0 := Nat.pos_iff_ne_zero.mp row.generation.2
        rw [hget, List.getLast?_map, List.getLast?_range, if_neg hne]
        have hsucc : row.generation.1 - 1 + 1 = row.generation.1 :=
          Nat.sub_add_cancel row.generation.2
        simp [hsucc, hsame, hop, hrev]
      · intro a ha o₁ ho₁ hscope₁
        obtain ⟨act, hact, hle⟩ := hl.bounded a ha o₁ ho₁
        rw [hscope₁, hget] at hact
        obtain rfl := Option.some.inj hact
        obtain ⟨o₂, receipt₂, hact₂, -⟩ := hl.markers a ha
        obtain rfl := Option.some.inj (hact₂.operation.symm.trans ho₁)
        have hid₂ : o₂.operationId = a.operationId := Table.key_of_get? ho₁
        have hr₂ : Released j row.scope a.activeGeneration.1 o₂ receipt₂ :=
          ⟨⟨a, ha, hid₂.symm, rfl⟩, by rw [hid₂]; exact ho₁, hact₂.terminal, hscope₁,
            by rw [hid₂]; exact hact₂.stored⟩
        have hpos := a.activeGeneration.2
        obtain ⟨hsame₂, -⟩ := hr₂.unique hl (hrelease _ hpos hle).1
        rw [List.map_map]
        refine List.mem_map.mpr ⟨a.activeGeneration.1 - 1, List.mem_range.mpr (by omega), ?_⟩
        show (release (a.activeGeneration.1 - 1 + 1)).1 = o₂
        rw [Nat.sub_add_cancel hpos, hsame₂]

/-- **The releases of a scope are one chain.** In every reachable journal the releases of a
scope are numbered from one to the active generation: the first one had no predecessor, the
receipt of each other one names the revision of the release before it, the last one is the
active revision, and no success of the scope is outside the chain. -/
theorem releases_linked (calls : List Call) (hcalls : ∀ c ∈ calls, c.bareSwap = false)
    (scope : Scope) : ∃ releases, Chain (Journal.fresh.runCalls calls) scope releases :=
  (linear_runCalls hcalls).2.chain scope

end Journal

end Ophelia

namespace Ophelia.Reference

attribute [local instance] platform

/-- The scope of the deployment. -/
def deployScope : Scope :=
  ⟨deploy.hostId, deploy.app, deploy.environment⟩

/-- Calls after the release: a consumer acknowledges its events, the holder of the fence lets
go, and the receipt is committed again. -/
def afterRelease : List Call :=
  [.acknowledgeHostEvents "lumen" 5 (some EPOCH), .releaseFence fence (some EPOCH),
    .commitSuccess deployReceipt none fence (fun _ => some EPOCH) eventId]

theorem bareSwap_releasedDeployment :
    ∀ c ∈ releasedDeployment ++ afterRelease, c.bareSwap = false := by
  simp [releasedDeployment, readyDeployment, appendState, afterRelease, Call.bareSwap]

/-- The chain of the deployment: one release, the active one. -/
theorem releases_linked_releasedDeployment :
    (∀ c ∈ releasedDeployment, c.bareSwap = false) ∧
    ∃ releases, Journal.Chain (Journal.fresh.runCalls releasedDeployment) deployScope releases ∧
      releases.length = 1 := by
  have hcalls : ∀ c ∈ releasedDeployment, c.bareSwap = false :=
    fun c hc => bareSwap_releasedDeployment c (List.mem_append_left _ hc)
  obtain ⟨active, hactive, -, hgen⟩ := active_releasedDeployment
  obtain ⟨releases, hchain⟩ :=
    Journal.releases_linked releasedDeployment hcalls deployScope
  refine ⟨hcalls, releases, hchain, ?_⟩
  rw [hchain.length, deployScope, hactive]
  exact hgen

/-- What is read of the release stays what it is. -/
theorem releases_agree_releasedDeployment :
    (∀ c ∈ releasedDeployment ++ afterRelease, c.bareSwap = false) ∧
    Journal.ReleasesKept (Journal.fresh.runCalls releasedDeployment)
      (Journal.fresh.runCalls (releasedDeployment ++ afterRelease)) ∧
    ∃ o receipt, Journal.Released (Journal.fresh.runCalls releasedDeployment) deployScope 1
      o receipt := by
  refine ⟨bareSwap_releasedDeployment, Journal.releases_agree releasedDeployment afterRelease
    bareSwap_releasedDeployment, ?_⟩
  obtain ⟨active, hactive, hop, hgen⟩ := active_releasedDeployment
  have hcalls : ∀ c ∈ releasedDeployment, c.bareSwap = false :=
    fun c hc => bareSwap_releasedDeployment c (List.mem_append_left _ hc)
  obtain ⟨o, receipt, hreleased, -⟩ :=
    (Journal.linear_runCalls hcalls).2.active_released (Table.mem_of_get? hactive)
  rw [show (Journal.activeRow active).generation.1 = 1 from hgen,
    show (Journal.activeRow active).scope = deployScope from Table.key_of_get? hactive] at hreleased
  exact ⟨o, receipt, hreleased⟩

end Ophelia.Reference
