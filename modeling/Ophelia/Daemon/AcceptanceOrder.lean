import Ophelia.Lib.Calendar
import Ophelia.Journal.Recovery
import Ophelia.Daemon.Replacement

/-!
# Ophelia.Daemon.AcceptanceOrder

In which order the daemon takes waiting work. `list_recoverable` and `acquire_run` order their
rows by the text of the time of acceptance, and the text of a whole second comes after the
texts of its own fractions. So the order is that of the acceptances exactly when no two rows
that wait were accepted within one second, one of them on the second.
-/

namespace Ophelia

variable [Platform]

open Calendar

/-! ### Stamps -/

/-- `datetime` counts days by the Gregorian calendar and prints its fields. -/
def Platform.Gregorian : Prop :=
  ∀ {t d : Int}, Platform.fromTimestamp t = some d →
    ∃ moment : DateTime, moment.instant = d ∧ Platform.isoformat d = moment.isoformat

/-- A text that the clock has written. -/
def Stamped (text : String) : Prop :=
  ∃ now u, timestamp now = .ok u ∧ text = u.val

/-- The instant of a stamp. -/
def instantOf (text : String) : Int :=
  (parseUtc text).getD 0

theorem Stamped.moment (hcal : Platform.Gregorian) {text : String} (h : Stamped text) :
    ∃ moment : DateTime, text = moment.isoformat ∧ instantOf text = moment.instant := by
  obtain ⟨now, u, htime, rfl⟩ := h
  unfold timestamp at htime
  split at htime
  · rename_i d hd
    obtain ⟨moment, hinstant, htext⟩ := hcal hd
    have hval : u.val = Platform.isoformat d := by rw [← Except.ok.inj htime]
    refine ⟨moment, hval.trans htext, ?_⟩
    rw [instantOf, hval]
    simp [Platform.parseUtc_isoformat hd, hinstant]
  · cases htime

/-- Stamps are ordered as their instants, but for a whole second and its own fractions. -/
theorem Stamped.lt_iff (hcal : Platform.Gregorian) {a b : String} (ha : Stamped a)
    (hb : Stamped b) : a < b ↔ DateTime.FractionOverWhole (instantOf a) (instantOf b) ∨
      instantOf a < instantOf b ∧
        ¬ DateTime.FractionOverWhole (instantOf b) (instantOf a) := by
  obtain ⟨m, htext, hinstant⟩ := ha.moment hcal
  obtain ⟨n, htext', hinstant'⟩ := hb.moment hcal
  rw [hinstant, hinstant', htext, htext']
  exact DateTime.isoformat_lt

/-! ### Queues -/

variable {α : Type} {text id : α → String}

omit [Platform] in
theorem pairwise_orderBy {β : Type} [LinearOrder β] (column : α → β) (rows : List α) :
    (orderBy column rows).Pairwise fun a b => column a ≤ column b :=
  List.pairwise_insertionSort _ rows

/-- A queue in the order of the stamps of its rows. -/
def queue (text id : α → String) (rows : List α) : List α :=
  orderBy (fun x => toLex (text x, id x)) rows

/-- **A queue is in the order of the instants** exactly when no fraction of a second waits
together with the second itself. -/
theorem queue_ordered_iff (hcal : Platform.Gregorian) {rows : List α}
    (hstamps : ∀ x ∈ rows, Stamped (text x)) :
    (queue text id rows).Pairwise (fun a b => instantOf (text a) ≤ instantOf (text b)) ↔
      ∀ a ∈ rows, ∀ b ∈ rows,
        ¬ DateTime.FractionOverWhole (instantOf (text a)) (instantOf (text b)) := by
  have hsorted := pairwise_orderBy (fun x => toLex (text x, id x)) rows
  constructor
  · intro hordered a ha b hb hmixed
    have hlt : text a < text b :=
      ((hstamps a ha).lt_iff hcal (hstamps b hb)).mpr (.inl hmixed)
    -- both orders at once, in one direction or the other
    have hboth : ∀ ⦃x⦄, x ∈ queue text id rows → ∀ ⦃y⦄, y ∈ queue text id rows →
        toLex (text x, id x) ≤ toLex (text y, id y) ∧
            instantOf (text x) ≤ instantOf (text y) ∨
          toLex (text y, id y) ≤ toLex (text x, id x) ∧
            instantOf (text y) ≤ instantOf (text x) := by
      have hpairs := hsorted.and hordered
      exact List.Pairwise.forall_of_forall_of_flip (fun x _ => .inl ⟨le_rfl, le_rfl⟩)
        (hpairs.imp fun h => .inl h) (hpairs.imp fun h => .inr h)
    rcases hboth (mem_orderBy.mpr ha) (mem_orderBy.mpr hb) with ⟨-, hle⟩ | ⟨hle, -⟩
    · obtain ⟨hsecond, hfraction, hwhole⟩ := hmixed
      omega
    · rw [Prod.Lex.toLex_le_toLex] at hle
      rcases hle with hle | ⟨heq, -⟩
      · exact absurd hlt (lt_asymm hle)
      · exact absurd heq hlt.ne'
  · intro hplain
    refine hsorted.imp_of_mem fun {a b} ha hb hle => ?_
    have ha' := mem_orderBy.mp ha
    have hb' := mem_orderBy.mp hb
    rw [Prod.Lex.toLex_le_toLex] at hle
    rcases hle with hlt | ⟨heq, -⟩
    · rcases ((hstamps a ha').lt_iff hcal (hstamps b hb')).mp hlt with hmixed | ⟨h, -⟩
      · exact absurd hmixed (hplain a ha' b hb')
      · exact h.le
    · exact (congrArg instantOf heq).le

/-! ### Operations -/

namespace Journal

variable {j j' : Journal}

/-- Every operation carries the stamp of its acceptance. -/
def OperationsStamped (j : Journal) : Prop :=
  ∀ o ∈ j.operations.rows, Stamped o.acceptedAt

theorem OperationsStamped.put (h : OperationsStamped j) {o : OperationRow}
    (ho : Stamped o.acceptedAt) : ∀ x ∈ (j.operations.put o).rows, Stamped x.acceptedAt := by
  intro x hx
  rcases Table.mem_put.mp hx with rfl | ⟨hx, -⟩
  · exact ho
  · exact h x hx

theorem OperationsStamped.update (h : OperationsStamped j) (hupdate : Update j j') :
    OperationsStamped j' := by
  cases hupdate with
  | event happ =>
      have hrow := h _ (Table.mem_of_get? happ.found)
      exact h.put hrow
  | commit hterse hc =>
      have hrow := h _ (Table.mem_of_get? hc.appends.found)
      exact h.put hrow
  | _ => exact h

theorem OperationsStamped.updates (h : OperationsStamped j) (hupdates : UpdatesTo j j') :
    OperationsStamped j' := by
  induction hupdates with
  | refl => exact h
  | tail _ hstep ih => exact ih.update hstep

theorem OperationsStamped.run (h : OperationsStamped j) {c : Call} (hrun : c.run j = .ok j') :
    OperationsStamped j' := by
  cases hc : c.accepts with
  | true =>
      cases c with
      | accept actor request approved input clock freshId =>
          rw [Call.run] at hrun
          obtain ⟨ref, hrun⟩ := map_fst_eq_ok hrun
          rcases accept_stamped hrun with rfl | ⟨now, acceptedAt, htime, ha⟩
          · exact h
          · rw [ha.result]
            exact h.put ⟨now, acceptedAt, htime, rfl⟩
      | _ => cases hc
  | false =>
      cases hack : c.acknowledges with
      | false => exact h.updates (updatesTo_run hc hack hrun)
      | true =>
          obtain ⟨row, rfl, -⟩ := delivery_run hack hrun
          exact h

theorem OperationsStamped.runCalls (calls : List Call) :
    OperationsStamped (fresh.runCalls calls) :=
  runCalls_induction (fun _ hj hrun => hj.run hrun) (fun _ _ => trivial)
    (fun o ho => absurd ho (by simp [fresh]))

end Journal

/-! ### Runs -/

namespace RunStore

variable {s s' : RunStore}

/-- `… ORDER BY accepted_at, run_id`: the runs that `acquire_run` takes the first of. -/
def availableRows (s : RunStore) (now : Int) : List WorkloadRun :=
  queue (·.acceptedAt.val) (·.runId)
    (s.runs.rows.filter fun r => r.state.terminal = false ∧ lapsed now r = true)

/-- Every run carries the stamp of its acceptance. -/
def RunsStamped (s : RunStore) : Prop :=
  ∀ r ∈ s.runs.rows, Stamped r.acceptedAt.val

theorem RunsStamped.put (h : RunsStamped s) {r : WorkloadRun} (hr : Stamped r.acceptedAt.val) :
    ∀ x ∈ (s.runs.put r).rows, Stamped x.acceptedAt.val := by
  intro x hx
  rcases Table.mem_put.mp hx with rfl | ⟨hx, -⟩
  · exact hr
  · exact h x hx

theorem Change.acceptedAt {r r' : WorkloadRun} {t : Option RunEventType} (h : Change r r' t) :
    r'.acceptedAt = r.acceptedAt := by
  cases h <;> rfl

theorem RunsStamped.changes (h : RunsStamped s) (hchange : Changes s s') : RunsStamped s' := by
  obtain ⟨row, row', t, hfound, -, hc, hruns⟩ := hchange.exists_put
  unfold RunsStamped
  rw [hruns]
  refine h.put ?_
  rw [hc.acceptedAt]
  exact h row (Table.mem_of_get? hfound)

theorem RunsStamped.run (h : RunsStamped s) {c : RunCall} (hrun : c.run s = .ok s') :
    RunsStamped s' := by
  rcases run_eq_ok hrun with rfl | hchange | ⟨_, _, _, _, clock, _, _, s₁, r, e, -, ha⟩
  · exact h
  · exact h.changes hchange
  · have hcleared : RunsStamped s₁ := by
      rcases ha.cleared.changes with rfl | hchange
      · exact h
      · exact h.changes hchange
    unfold RunsStamped
    rw [ha.logged.runs]
    exact hcleared.put ⟨clock 0, r.acceptedAt, ha.time, rfl⟩

theorem RunsStamped.runCalls (calls : List RunCall) :
    RunsStamped (RunStore.empty.runCalls calls) := by
  suffices h : ∀ s : RunStore, RunsStamped s → RunsStamped (s.runCalls calls) from
    h RunStore.empty fun r hr => absurd hr (by simp [RunStore.empty])
  induction calls with
  | nil => exact fun s hs => hs
  | cons c calls ih =>
      intro s hs
      refine ih (c.apply s) ?_
      unfold RunCall.apply
      split
      · rename_i s' hrun
        exact hs.run hrun
      · exact hs

/-- An acceptance leases nothing. -/
theorem acceptRun_unleased {actor : Actor} {q : RunRequest} {key : String}
    {policy : ConcurrencyPolicy} {clock : Nat → Int} {runId : String}
    {eventId : Nat → EntityId .event} {r : WorkloadRun}
    (hfree : ∀ x ∈ s.runs.rows, x.leaseOwner = none)
    (h : s.acceptRun actor q key policy clock runId eventId = .ok (s', r)) :
    ∀ x ∈ s'.runs.rows, x.leaseOwner = none := by
  have hput : ∀ {s₁ : RunStore} {row : WorkloadRun}, (∀ x ∈ s₁.runs.rows, x.leaseOwner = none) →
      row.leaseOwner = none → ∀ x ∈ (s₁.runs.put row).rows, x.leaseOwner = none := by
    intro s₁ row hs₁ hrow x hx
    rcases Table.mem_put.mp hx with rfl | ⟨hx, -⟩
    · exact hrow
    · exact hs₁ x hx
  unfold acceptRun at h
  obtain ⟨acceptedAt, htime, h⟩ := Results.bind_eq_ok.mp h
  dsimp only at h
  split at h
  · obtain ⟨_, -, h⟩ := Results.bind_eq_ok.mp h
    obtain ⟨rfl, rfl⟩ := Prod.mk.inj (Except.ok.inj h)
    exact hfree
  · obtain ⟨s₁, hpolicy, h⟩ := Results.bind_eq_ok.mp h
    obtain ⟨requestJson, -, h⟩ := Results.bind_eq_ok.mp h
    obtain ⟨runs, hruns, h⟩ := Results.bind_eq_ok.mp h
    obtain ⟨s₂, hs₂, h⟩ := Results.bind_eq_ok.mp h
    obtain ⟨rfl, -⟩ := Prod.mk.inj (Except.ok.inj h)
    obtain ⟨-, rfl⟩ := insertRow_eq_ok hruns
    obtain ⟨e, hlog⟩ := appendRunEvent_eq_ok (steady_scalars _ _ (by simp only [List.map]; decide)
      (by simp [Json.isScalar])) hs₂
    rw [hlog.runs]
    refine hput ?_ rfl
    -- the policy marks a row at most
    cases applyPolicy_eq_ok hpolicy with
    | idle => exact hfree
    | marked => exact hfree
    | marks row at_ e s₁ _ hactive _ hmark =>
        rw [hmark.runs]
        exact hput hfree (hfree row (Table.mem_of_get? (active?_eq_some hactive).1))

end RunStore

/-- **Waiting work is taken in the order of its acceptance** exactly when no work accepted on a
whole second waits together with work accepted in a fraction of it: for the operations that
`list_recoverable` lists from the first on, and for the runs of which `acquire_run` takes the
first. -/
theorem acceptanceOrder_iff (hcal : Platform.Gregorian) (calls : List Call)
    (runs : List RunCall) (now : Int) :
    (((Journal.fresh.runCalls calls).recoverableRows now).Pairwise
          (fun a b => instantOf a.acceptedAt ≤ instantOf b.acceptedAt) ↔
        ∀ a ∈ (Journal.fresh.runCalls calls).operations.rows,
          (Journal.fresh.runCalls calls).recoverable now a = true →
        ∀ b ∈ (Journal.fresh.runCalls calls).operations.rows,
          (Journal.fresh.runCalls calls).recoverable now b = true →
            ¬ DateTime.FractionOverWhole (instantOf a.acceptedAt) (instantOf b.acceptedAt)) ∧
      (((RunStore.empty.runCalls runs).availableRows now).Pairwise
          (fun a b => a.acceptedAt.instant ≤ b.acceptedAt.instant) ↔
        ∀ a ∈ (RunStore.empty.runCalls runs).runs.rows,
          (a.state.terminal = false ∧ RunStore.lapsed now a = true) →
        ∀ b ∈ (RunStore.empty.runCalls runs).runs.rows,
          (b.state.terminal = false ∧ RunStore.lapsed now b = true) →
            ¬ DateTime.FractionOverWhole a.acceptedAt.instant b.acceptedAt.instant) := by
  constructor
  · have hstamps := Journal.OperationsStamped.runCalls calls
    refine (queue_ordered_iff hcal fun o ho => hstamps o (List.mem_filter.mp ho).1).trans ?_
    simp only [List.mem_filter, and_imp]
  · have hstamps := RunStore.RunsStamped.runCalls runs
    refine (queue_ordered_iff hcal fun r hr => hstamps r (List.mem_filter.mp hr).1).trans ?_
    simp only [List.mem_filter, and_imp, decide_eq_true_eq]
    rfl

end Ophelia

/-! ### Two runs within a second -/

namespace Ophelia.Reference

open Calendar

/-- The first minute of the year 2026 in steps of half a second. -/
def moment (n : Nat) : DateTime where
  year := 2026
  month := 1
  day := 1
  hour := 0
  minute := 0
  second := n / 2 % 60
  microsecond := n % 2 * 500000
  year_range := year_2026
  month_range := first_month
  day_range := first_day
  hour_range := Nat.zero_le (nat_lit 23)
  minute_range := Nat.zero_le (nat_lit 59)
  second_range := by omega
  microsecond_range := by omega

theorem instant_moment {n : Nat} (h : n < 120) :
    (moment n).instant = (2 * EPOCH + n) * 500000 := by
  have hday : (moment n).ordinal = 739617 := by
    show daysBeforeYear 2026 + (daysBeforeMonth (isLeap 2026) 1 + 1) = 739617
    decide
  have hclock : (moment n).secondOfDay = n / 2 % 60 := by
    simp [DateTime.secondOfDay, moment]
  have hmicro : (moment n).microsecond = n % 2 * 500000 := rfl
  have hepoch : EPOCH = 1767225600 := rfl
  simp only [DateTime.instant, DateTime.timestamp, hday, hclock, hmicro, hepoch,
    DateTime.UNIX_ORDINAL]
  omega

/-- The step of the minute that a clock reads. -/
def step? (t : Int) : Option Nat :=
  if 2 * EPOCH ≤ t ∧ t < 2 * EPOCH + 120 then some (t - 2 * EPOCH).toNat else none

theorem step?_eq_some {t : Int} {n : Nat} (h : step? t = some n) :
    n < 120 ∧ t = 2 * EPOCH + n := by
  unfold step? at h
  split at h
  · rename_i hrange
    obtain rfl := Option.some.inj h
    omega
  · cases h

def halfParseUtc (s : String) : Option Int :=
  ((List.range 120).find? fun n => (moment n).isoformat = s).map fun n => (moment n).instant

theorem halfParseUtc_isoformat {n : Nat} (h : n < 120) :
    halfParseUtc (moment n).isoformat = some (moment n).instant := by
  unfold halfParseUtc
  cases hfind : (List.range 120).find? fun m => (moment m).isoformat = (moment n).isoformat with
  | none =>
      have hnone := List.find?_eq_none.mp hfind n (List.mem_range.mpr h)
      simp at hnone
  | some m =>
      have htext : (moment m).isoformat = (moment n).isoformat := by
        simpa using List.find?_some hfind
      rw [Option.map_some, DateTime.instant_eq_of_isoformat htext]

theorem count_slash_of_halfParseUtc {s : String} {d : Int} (h : halfParseUtc s = some d) :
    s.toList.count '/' ≤ 1 := by
  unfold halfParseUtc at h
  obtain ⟨n, hfind, -⟩ := Option.map_eq_some_iff.mp h
  have htext : (moment n).isoformat = s := by simpa using List.find?_some hfind
  rw [← htext, List.count_eq_zero_of_not_mem (moment n).slash_not_mem_isoformat]
  exact Nat.zero_le 1

/-- The reference platform with a clock that counts half seconds. -/
@[reducible] def halves : Platform where
  digestText := digestText
  parseUtc := halfParseUtc
  fromTimestamp t := (step? t).map fun n => (moment n).instant
  isoformat d := (moment (d / 500000 - 2 * EPOCH).toNat).isoformat
  addSeconds a b := a + b
  second := 2
  parseUtc_isoformat := by
    intro t d h
    obtain ⟨n, hn, rfl⟩ := Option.map_eq_some_iff.mp h
    obtain ⟨hlt, -⟩ := step?_eq_some hn
    have hstep : ((moment n).instant / 500000 - 2 * EPOCH).toNat = n := by
      rw [instant_moment hlt]
      omega
    rw [hstep]
    exact halfParseUtc_isoformat hlt
  count_slash_of_parseUtc := count_slash_of_halfParseUtc

theorem gregorian_halves : @Platform.Gregorian halves := by
  intro t d h
  obtain ⟨n, hn, rfl⟩ := Option.map_eq_some_iff.mp h
  obtain ⟨hlt, -⟩ := step?_eq_some hn
  refine ⟨moment n, rfl, ?_⟩
  show (moment ((moment n).instant / 500000 - 2 * EPOCH).toNat).isoformat = _
  have hstep : ((moment n).instant / 500000 - 2 * EPOCH).toNat = n := by
    rw [instant_moment hlt]
    omega
  rw [hstep]

section Seconds

attribute [local instance] platform

theorem gregorian_platform : Platform.Gregorian := by
  intro t d h
  have hiso : ∀ n < 60, isoformat ((EPOCH + (n : Nat)) * 1000000) = (moment (2 * n)).isoformat := by
    decide +kernel
  change fromTimestamp t = some d at h
  unfold fromTimestamp at h
  split at h
  · rename_i hrange
    obtain rfl := Option.some.inj h
    obtain ⟨n, rfl⟩ : ∃ n : Nat, t = EPOCH + n := ⟨(t - EPOCH).toNat, by omega⟩
    refine ⟨moment (2 * n), ?_, hiso n (by omega)⟩
    rw [instant_moment (by omega)]
    push_cast
    omega
  · cases h

/-- A clock of whole seconds writes no fractions. -/
theorem not_fraction_of_stamped {text : String} (h : Stamped text) (b : Int) :
    ¬ DateTime.FractionOverWhole (instantOf text) b := by
  obtain ⟨now, u, htime, rfl⟩ := h
  obtain ⟨d, hd, hval⟩ := timestamp_eq_ok htime
  have hinstant : instantOf u.val = d := by
    rw [instantOf, hval]
    show (parseUtc (isoformat d)).getD 0 = d
    rw [parseUtc_isoformat hd]
    rfl
  rw [hinstant]
  unfold fromTimestamp at hd
  split at hd
  · rintro ⟨-, hfraction, -⟩
    have hd := Option.some.inj hd
    omega
  · cases hd

/-- The deployment, and a second later the same one under another key. -/
def twoDeployments : List Call :=
  oneDeployment ++ [.accept actor deployAgain deployApproval
    (some (deployInput stagedRoot staged_relative)) (some (EPOCH + 1)) secondId]

theorem waiting_twoDeployments :
    ∃ a ∈ (Journal.fresh.runCalls twoDeployments).recoverableRows (EPOCH + 2),
      ∃ b ∈ (Journal.fresh.runCalls twoDeployments).recoverableRows (EPOCH + 2),
        a.operationId ≠ b.operationId := by
  obtain ⟨at₁, ha₁⟩ := accepts_oneDeployment
  have hlate : deadline.instant ≤ deployApproval.expiresAt.instant := by decide +kernel
  have hinput : validateExecutionInput deployAgain deployApproval
      (deployInput stagedRoot staged_relative) deployAgain.intentDigest = .ok () :=
    Results.bind_ok (ensure_of hlate) <|
    ensure_of ⟨intentDigest_deployAgain, rfl, rfl, rfl, rfl, rfl, rfl, rfl⟩
  obtain ⟨texts, htexts⟩ : ∃ texts, acceptanceTexts actor deployAgain deployApproval
      (some (deployInput stagedRoot staged_relative)) = .ok texts :=
    Journal.acceptanceTexts_ok (by decide) (by decide) (by decide) (by
      intro i hi
      rw [← Option.some.inj hi]
      exact length_deployInput stagedRoot staged_relative (by decide))
  have htime : fromTimestamp (EPOCH + 1) = some ((EPOCH + 1) * 1000000) := by decide
  have hlive : (EPOCH + 1) * 1000000 < deadline.instant := by decide +kernel
  obtain ⟨j₂, at₂, hsecond, ha₂⟩ := ha₁.accept_again
    (acceptArguments_some validateAcceptanceBinding_deployAgain hinput htexts) htexts keyAgain_ne
    (show secondId ≠ firstId by decide) htime (by rw [Option.all_some, decide_eq_true_eq]; exact hlive)
    (by decide +kernel)
  have hrun : Journal.fresh.runCalls twoDeployments = j₂ := by
    rw [twoDeployments, Journal.runCalls_concat]
    exact Call.apply_accept hsecond
  have hrows : j₂.operations.rows = [deployed at₁,
      Journal.acceptedOperation actor deployAgain deployApproval secondId at₂] := by
    rw [ha₂.result, ha₁.result]
    rfl
  have hwaits : ∀ o ∈ j₂.operations.rows, j₂.recoverable (EPOCH + 2) o = true := by
    intro o ho
    rw [hrows, List.mem_cons, List.mem_singleton] at ho
    rcases ho with rfl | rfl
    · rw [Journal.recoverable, ha₂.result, ha₁.result]
      rfl
    · rw [Journal.recoverable, ha₂.result, ha₁.result]
      rfl
  have hmem : ∀ o ∈ j₂.operations.rows, o ∈ j₂.recoverableRows (EPOCH + 2) := fun o ho =>
    mem_orderBy.mpr (List.mem_filter.mpr ⟨ho, hwaits o ho⟩)
  rw [hrun]
  refine ⟨_, hmem (deployed at₁) (by simp [hrows]), _,
    hmem (Journal.acceptedOperation actor deployAgain deployApproval secondId at₂)
      (by simp [hrows]), ?_⟩
  show firstId ≠ secondId
  decide

/-- Two runs that wait: the second has asked the first to stop. -/
theorem waiting_twoReplacements :
    ∃ a ∈ (RunStore.empty.runCalls twoReplacements).availableRows (EPOCH + 2),
      ∃ b ∈ (RunStore.empty.runCalls twoReplacements).availableRows (EPOCH + 2),
        a.runId ≠ b.runId := by
  obtain ⟨s₁, p₁, r₁, e₁, haccept₁, -, ha₁, hafter₁⟩ := After.empty.accept (by decide)
  obtain ⟨s₂, p₂, r₂, e₂, haccept₂, -, ha₂, hafter₂⟩ := hafter₁.accept (by decide)
  have hrun : RunStore.empty.runCalls twoReplacements = s₂ := by
    rw [RunStore.runCalls, twoReplacements, List.foldl_cons, List.foldl_cons, List.foldl_nil,
      RunStore.apply_acceptRun haccept₁, RunStore.apply_acceptRun haccept₂]
  have hleases : ∀ x ∈ s₂.runs.rows, x.leaseOwner = none :=
    RunStore.acceptRun_unleased (RunStore.acceptRun_unleased
      (fun x hx => absurd hx (by simp [RunStore.empty])) haccept₁) haccept₂
  have hmem : ∀ x ∈ s₂.activeRuns nightlyRun.workload, x ∈ s₂.availableRows (EPOCH + 2) := by
    intro x hx
    obtain ⟨hrow, -, hlive⟩ := RunStore.mem_activeRuns.mp hx
    have hlapsed : RunStore.lapsed (EPOCH + 2) x = true := by
      rw [RunStore.lapsed, hleases x hrow]
      rfl
    exact mem_orderBy.mpr (List.mem_filter.mpr ⟨hrow, by simp [hlive, hlapsed]⟩)
  rw [hrun]
  obtain ⟨x, hx, hxtime⟩ := ha₂.cleared.activeRuns (ha₁.mem_activeRuns.mpr (Or.inl rfl))
  have hx₂ := ha₂.mem_activeRuns.mpr (Or.inr hx)
  have hr₂ := ha₂.mem_activeRuns.mpr (Or.inl rfl)
  refine ⟨x, hmem x hx₂, r₂, hmem r₂ hr₂, fun hid => ?_⟩
  -- the two were accepted at different times
  obtain rfl := Table.eq_of_mem_of_key_eq (RunStore.mem_activeRuns.mp hx₂).1
    (RunStore.mem_activeRuns.mp hr₂).1 hid
  obtain ⟨d₁, hd₁, hval₁⟩ := timestamp_eq_ok ha₁.time
  obtain ⟨d₂, hd₂, hval₂⟩ := timestamp_eq_ok ha₂.time
  obtain rfl : (EPOCH + 0) * 1000000 = d₁ := Option.some.inj hd₁
  obtain rfl : (EPOCH + 1) * 1000000 = d₂ := Option.some.inj hd₂
  have hsame := acceptedAt_lt
  rw [← hval₁, ← hval₂, hxtime] at hsame
  exact absurd hsame (lt_irrefl _)

/-- Two operations and two runs that were accepted on whole seconds wait in order. -/
theorem ordered_onSeconds : Platform.Gregorian ∧
    (∃ a ∈ (Journal.fresh.runCalls twoDeployments).recoverableRows (EPOCH + 2),
      ∃ b ∈ (Journal.fresh.runCalls twoDeployments).recoverableRows (EPOCH + 2),
        a.operationId ≠ b.operationId) ∧
    ((Journal.fresh.runCalls twoDeployments).recoverableRows (EPOCH + 2)).Pairwise
      (fun a b => instantOf a.acceptedAt ≤ instantOf b.acceptedAt) ∧
    (∃ a ∈ (RunStore.empty.runCalls twoReplacements).availableRows (EPOCH + 2),
      ∃ b ∈ (RunStore.empty.runCalls twoReplacements).availableRows (EPOCH + 2),
        a.runId ≠ b.runId) ∧
    ((RunStore.empty.runCalls twoReplacements).availableRows (EPOCH + 2)).Pairwise
      (fun a b => a.acceptedAt.instant ≤ b.acceptedAt.instant) := by
  have hiff := acceptanceOrder_iff gregorian_platform twoDeployments twoReplacements (EPOCH + 2)
  refine ⟨gregorian_platform, waiting_twoDeployments, hiff.1.mpr ?_, waiting_twoReplacements,
    hiff.2.mpr ?_⟩
  · exact fun a ha _ b _ _ =>
      not_fraction_of_stamped (Journal.OperationsStamped.runCalls twoDeployments a ha) _
  · exact fun a ha _ b _ _ =>
      not_fraction_of_stamped (RunStore.RunsStamped.runCalls twoReplacements a ha) _

end Seconds

attribute [local instance] halves

open RunStore (Unused Fits Short Sound Accepted)

/-- A task that somebody runs by hand. -/
def handRun : RunStore.RunRequest :=
  ⟨⟨"host_a", "web", "production", "nightly"⟩, "rev_a", "sha256:a", "task", "manual"⟩

/-- The first run is accepted on the second, the next one half a second later. -/
def halfClock (i : Nat) : Nat → Int := fun _ => 2 * EPOCH + i

theorem fromTimestamp_halfClock {i : Nat} (hi : i < 2) (n : Nat) :
    Platform.fromTimestamp (halfClock i n) = some (moment i).instant := by
  have hrange : 2 * EPOCH ≤ 2 * EPOCH + (i : Int) ∧ 2 * EPOCH + (i : Int) < 2 * EPOCH + 120 := by
    omega
  have hstep : step? (2 * EPOCH + i) = some i := by
    rw [step?, if_pos hrange]
    congr 1
    omega
  show (step? (2 * EPOCH + i)).map _ = _
  rw [hstep]
  rfl

theorem acceptedAt_halfClock {i n : Nat} (hi : i < 2) {u : Utc}
    (h : timestamp (halfClock i n) = .ok u) : u.val = (moment i).isoformat := by
  obtain ⟨v, hv, hinstant⟩ := timestamp_ok (fromTimestamp_halfClock hi n)
  unfold timestamp at h
  split at h
  · rename_i d hd
    rw [fromTimestamp_halfClock hi n] at hd
    obtain rfl := Option.some.inj hd
    rw [← Except.ok.inj h]
    show (moment ((moment i).instant / 500000 - 2 * EPOCH).toNat).isoformat = _
    have hstep : ((moment i).instant / 500000 - 2 * EPOCH).toNat = i := by
      rw [instant_moment (by omega)]
      omega
    rw [hstep]
  · cases h

theorem short_halfClock {i n : Nat} (hi : i < 2) {u : Utc}
    (h : timestamp (halfClock i n) = .ok u) : Short u.val := by
  have hshort : ∀ i < 2, Json.textWeight (moment i).isoformat ≤ 3000 := by decide +kernel
  rw [acceptedAt_halfClock hi h]
  exact hshort i hi

theorem fits_hand : ∀ i < 2, Fits (runId i) actor := by
  intro i hi
  have hshort : ∀ i < 2, Json.textWeight (runId i) ≤ 3000 := by decide +kernel
  have hactor : Json.textWeight actor.actorId.val ≤ 3000 := by decide +kernel
  exact ⟨hshort i hi, hactor⟩

theorem length_handRun : (canonicalJson (handRun.toJson actor)).toList.length ≤ 65536 := by
  have hplain : plain (handRun.toJson actor) = true := by decide +kernel
  have hweight : (handRun.toJson actor).weight ≤ 65536 := by decide +kernel
  rw [RunStore.RunRequest.toJson] at hplain hweight ⊢
  rw [canonicalJson_of_plain hplain]
  exact Nat.le_trans (Json.length_dumps_le _) (Nat.le_trans (weight_mask_le _) hweight)

def acceptHand (i : Nat) : RunCall :=
  .acceptRun actor handRun (runKey i) .replace (halfClock i) (runId i) (runEvent i)

/-- The next acceptance goes through. -/
theorem accept_hand {i : Nat} (hi : i < 2) {s : RunStore} (hsound : Sound s)
    (hkey : s.keyed? actor.actorId (Ophelia.digestText (runKey i)) = none)
    (hfree : s.runs.get? (runId i) = none) (hevents : s.runEvents (runId i) = [])
    (hunused : ∀ n, Unused s (runEvent i n)) (hleases : ∀ x ∈ s.runs.rows, x.leaseOwner = none)
    (hactive : ∀ row, s.active? handRun.workload = some row → Fits row.runId actor ∧
      (s.runEvents row.runId).length < 9) :
    ∃ s' s₁ r e, (acceptHand i).apply s = s' ∧ Sound s' ∧
      Accepted s s₁ s' actor handRun (runKey i) .replace (halfClock i) (runId i) r e ∧
      (∀ x ∈ s'.runs.rows, x.leaseOwner = none) ∧
      ∀ other, Unused s other → other ≠ runEvent i 0 → other ≠ runEvent i 1 → Unused s' other := by
  have hids : ∀ i < 2, runEvent i 1 ≠ runEvent i 0 := by decide +kernel
  obtain ⟨s', r, haccept, hother⟩ := RunStore.acceptRun_replace_ok hsound hkey
    (fromTimestamp_halfClock hi) (fun n u hu => short_halfClock hi hu) length_handRun hfree
    hevents hunused (hids i hi) (fits_hand i hi) hactive
  rcases RunStore.acceptRun_eq_ok haccept with ⟨hold, -⟩ | ⟨-, s₁, e, ha⟩
  · rw [hkey] at hold
    cases hold
  have hrun : (acceptHand i).run s = .ok s' := by
    rw [acceptHand, RunCall.run, haccept]
    rfl
  exact ⟨s', s₁, r, e, RunStore.apply_acceptRun haccept,
    hsound.movesTo (RunStore.movesTo_run hrun), ha,
    RunStore.acceptRun_unleased hleases haccept, hother⟩

/-- The run on the second goes through, and leaves a store of one run. -/
theorem accept_onSecond : ∃ s s₁ r e, RunStore.empty.runCalls [acceptHand 0] = s ∧ Sound s ∧
    Accepted RunStore.empty s₁ s actor handRun (runKey 0) .replace (halfClock 0) (runId 0) r e ∧
    (∀ x ∈ s.runs.rows, x.leaseOwner = none) ∧ ∀ n, Unused s (runEvent 1 n) := by
  have hunused : ∀ id, Unused RunStore.empty id := fun id =>
    ⟨fun e he => absurd he (by simp [RunStore.empty]),
      fun e he => absurd he (by simp [RunStore.empty])⟩
  obtain ⟨s, s₁, r, e, hs, hsound, ha, hleases, hother⟩ := accept_hand (i := 0) (by decide)
    Sound.empty rfl rfl rfl (fun n => hunused _) (fun x hx => absurd hx (by simp [RunStore.empty]))
    (fun row hrow => by cases hrow)
  have hne : ∀ m < 2, runEvent 1 m ≠ runEvent 0 0 ∧ runEvent 1 m ≠ runEvent 0 1 := by
    decide +kernel
  have hrun : RunStore.empty.runCalls [acceptHand 0] = s := by
    rw [RunStore.runCalls, List.foldl_cons, List.foldl_nil]
    exact hs
  refine ⟨s, s₁, r, e, hrun, hsound, ha, hleases, fun n => ?_⟩
  rw [runEvent_eq 1 n]
  have hn := hne (min n 1) (by omega)
  exact hother _ (hunused _) hn.1 hn.2

/-- **The run accepted half a second later is taken first.** -/
theorem not_ordered_halfSecond :
    ¬ ((RunStore.empty.runCalls [acceptHand 0, acceptHand 1]).availableRows
      (2 * EPOCH)).Pairwise (fun a b => a.acceptedAt.instant ≤ b.acceptedAt.instant) := by
  obtain ⟨s, p, r, e, hs, hsound, ha, hleases, hunused⟩ := accept_onSecond
  have hrows : ∀ x ∈ s.runs.rows, x.runId = runId 0 ∧
      x.idempotencyKeyDigest = Ophelia.digestText (runKey 0) := by
    intro x hx
    rcases ha.mem_rows hx with rfl | ⟨y, hy, -⟩
    · exact ⟨ha.id, ha.digest⟩
    · exact absurd hy (by simp [RunStore.empty])
  have hkeys : Ophelia.digestText (runKey 0) ≠ Ophelia.digestText (runKey 1) := by
    intro h
    exact absurd (congrArg (·.val) h) (by decide +kernel)
  have hids : runId 0 ≠ runId 1 := by decide
  have hfree : s.runs.get? (runId 1) = none :=
    Table.get?_eq_none.mpr fun x hx hid => hids ((hrows x hx).1.symm.trans hid)
  obtain ⟨s', p', r', e', hs', -, ha', hleases', -⟩ := accept_hand (i := 1) (by decide) hsound
    (by
      rw [RunStore.keyed?_eq_none]
      exact fun x hx hsame => hkeys ((hrows x hx).2.symm.trans hsame.2))
    hfree
    (by
      rw [(ha.chains Sound.empty.contiguous (runId 1)).2 hids.symm rfl]
      rfl)
    hunused hleases
    (fun row hrow => by
      have hrow' := (hrows row (Table.mem_of_get? (RunStore.active?_eq_some hrow).1)).1
      refine ⟨hrow' ▸ fits_hand 0 (by decide), ?_⟩
      have hchain := (ha.chains Sound.empty.contiguous row.runId).1
      have hempty : (RunStore.empty.runEvents row.runId).length = 0 := rfl
      omega)
  have hrun : RunStore.empty.runCalls [acceptHand 0, acceptHand 1] = s' := by
    rw [← hs', ← hs, RunStore.runCalls, RunStore.runCalls, List.foldl_cons, List.foldl_cons,
      List.foldl_cons, List.foldl_nil, List.foldl_nil]
  obtain ⟨x, hx, hxtime⟩ := ha'.cleared.activeRuns (ha.mem_activeRuns.mpr (Or.inl rfl))
  obtain ⟨hxmem, -, hxlive⟩ := RunStore.mem_activeRuns.mp (ha'.mem_activeRuns.mpr (Or.inr hx))
  obtain ⟨hrmem, -, hrlive⟩ := RunStore.mem_activeRuns.mp (ha'.mem_activeRuns.mpr (Or.inl rfl))
  have hlapsed : ∀ y ∈ s'.runs.rows, RunStore.lapsed (2 * EPOCH) y = true := by
    intro y hy
    rw [RunStore.lapsed, hleases' y hy]
    rfl
  rw [hrun]
  intro hordered
  have hstamps : RunStore.RunsStamped s' := hrun ▸ RunStore.RunsStamped.runCalls _
  refine (queue_ordered_iff gregorian_halves fun y hy => hstamps y (List.mem_filter.mp hy).1).mp
    hordered r' (List.mem_filter.mpr ⟨hrmem, ?_⟩) x (List.mem_filter.mpr ⟨hxmem, ?_⟩) ?_
  · simp [hrlive, hlapsed r' hrmem]
  · simp [hxlive, hlapsed x hxmem]
  · have hinstant : ∀ i < 2, instantOf (moment i).isoformat = (moment i).instant := by
      intro i hi
      show (halfParseUtc _).getD 0 = _
      rw [halfParseUtc_isoformat (by omega)]
      rfl
    rw [hxtime, acceptedAt_halfClock (by decide) ha'.time, acceptedAt_halfClock (by decide) ha.time,
      hinstant 1 (by decide), hinstant 0 (by decide), instant_moment (by decide),
      instant_moment (by decide)]
    unfold DateTime.FractionOverWhole
    decide

end Ophelia.Reference
