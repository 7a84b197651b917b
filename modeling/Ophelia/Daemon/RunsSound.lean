import Ophelia.Daemon.Runs
import Ophelia.Domain.Reencoding
import Ophelia.Journal.LeaseWrites
import Mathlib.Logic.Relation

/-!
# Ophelia.Daemon.RunsSound

The state machine of workload runs. Every call is made of five kinds of moves
(`RunStore.Moves`): a run is recorded, asked to stop, claimed, completed, or has its lease
renewed. Each of them touches one run, which is not terminal, and appends at most one event
to its chain. What holds of all reachable stores follows from what the moves keep.
-/

namespace Ophelia

open Json (isScalar)

variable [Platform]

/-! ### Payloads -/

omit [Platform] in
/-- Scalars under keys that name no command are printed the same way again. -/
theorem steady_scalars {ms : List (String × Json)} (b : Bool) (k : Option String)
    (hkeys : ∀ key ∈ ms.map Prod.fst, looksLikeCommandKey key = false)
    (hvalues : ∀ value ∈ ms.map Prod.snd, isScalar value = true) :
    steady b k (.obj ms) = true := by
  rw [steady_obj]
  intro m hm
  rw [steady_of_isScalar _ _ (hvalues m.2 (List.mem_map_of_mem hm))]
  unfold steadyScalar
  split
  · simp [hkeys m.1 (List.mem_map_of_mem hm)]
  · rfl

theorem RunEventPayload.steady_toJson (p : RunEventPayload)
    (h : steady false (some "detail") p.detail = true) : steady false none p.toJson = true := by
  have hsplit : p.toJson = .obj ([("schema_version", Json.int 1),
      ("kind", .str "ophelia.workload-run-event"), ("run_id", .str p.runId),
      ("sequence", .int p.sequence), ("event_type", .str p.eventType.value),
      ("occurred_at", .str p.occurredAt.val),
      ("previous_event_digest", p.previousEventDigest.elim Json.null fun d => .str d.val)] ++
    [("detail", p.detail)]) := rfl
  have hdetail : isSensitiveKey "detail".toList = false := by decide
  rw [hsplit, steady_obj]
  intro m hm
  rcases List.mem_append.mp hm with hm | hm
  · refine steady_obj.mp (steady_scalars false none ?_ ?_) m hm
    · simp only [List.map]
      decide
    · cases p.previousEventDigest <;> simp [isScalar]
  · rw [List.mem_singleton.mp hm, hdetail]
    exact h

namespace RunStore

variable {s s' s'' : RunStore} {id : String} {r : WorkloadRun}

/-- `SELECT COALESCE(MAX(cursor), 0) FROM host_events`. -/
def latestCursor (s : RunStore) : Nat :=
  (s.hostEvents.rows.map (·.cursor)).foldr max 0

/-! ### Events -/

/-- The row of an event in the host stream, under a cursor. -/
def hostRow (e : RunEvent) (cursor : Nat) : HostEventRow :=
  { cursor, eventId := e.eventId, eventType := .workload, operationId := none,
    workloadRunId := some e.runId, eventDigest := e.eventDigest,
    occurredAt := e.payload.occurredAt, payloadJson := canonicalJson e.payload.toJson }

/-- The store after the next event of a run, of the given type. -/
structure Logged (s s' : RunStore) (runId : String) (eventType : RunEventType) (e : RunEvent) :
    Prop where
  runs : s'.runs = s.runs
  free : s.events.get? (e.runId, e.sequence) = none
  events : s'.events = s.events.put e
  owner : e.runId = runId
  type : e.payload.eventType = eventType
  next : e.sequence = (s.runEvents runId).getLast?.elim 1 (·.sequence + 1)
  digest : e.eventDigest = digestText (canonicalJson e.payload.toJson)
  steady : steady false none e.payload.toJson = true
  eventId : ∀ x ∈ s.events.rows, x.eventId ≠ e.eventId
  hostEventId : ∀ h ∈ s.hostEvents.rows, h.eventId ≠ e.eventId
  freeCursor : s.hostEvents.get? (s.latestCursor + 1) = none
  hostEvents : s'.hostEvents = s.hostEvents.put (hostRow e (s.latestCursor + 1))

theorem appendRunEvent_eq_ok {eventType : RunEventType} {detail : Json} {clock : Int}
    {eventId : EntityId .event} (hdetail : steady false (some "detail") detail = true)
    (h : s.appendRunEvent id eventType detail clock eventId = .ok s') :
    ∃ e, Logged s s' id eventType e := by
  unfold appendRunEvent at h
  obtain ⟨occurredAt, -, h⟩ := Results.bind_eq_ok.mp h
  obtain ⟨_, -, h⟩ := Results.bind_eq_ok.mp h
  obtain ⟨_, hid, h⟩ := Results.bind_eq_ok.mp h
  obtain ⟨events, hevents, h⟩ := Results.bind_eq_ok.mp h
  obtain ⟨_, hhost, h⟩ := Results.bind_eq_ok.mp h
  obtain ⟨hostEvents, hhosts, h⟩ := Results.bind_eq_ok.mp h
  obtain ⟨hfree, rfl⟩ := insertRow_eq_ok hevents
  obtain ⟨hcursor, rfl⟩ := insertRow_eq_ok hhosts
  obtain rfl := Except.ok.inj h
  exact ⟨_, ⟨rfl, hfree, rfl, rfl, rfl, rfl, rfl, RunEventPayload.steady_toJson _ hdetail, ensure_eq_ok.mp hid,
    ensure_eq_ok.mp hhost, hcursor, rfl⟩⟩

/-- The events of every run are numbered from one without gaps. -/
def Contiguous (s : RunStore) : Prop :=
  ∀ id, (s.runEvents id).map (·.sequence) = List.range' 1 (s.runEvents id).length

theorem Contiguous.le_length (h : Contiguous s) {e : RunEvent} (he : e ∈ s.runEvents id) :
    e.sequence ≤ (s.runEvents id).length := by
  have hmem : e.sequence ∈ (s.runEvents id).map (·.sequence) := List.mem_map_of_mem he
  rw [h id, List.mem_range'_1] at hmem
  omega

/-- The number of the next event is one above the number of events. -/
theorem Contiguous.next_eq (h : Contiguous s) :
    (s.runEvents id).getLast?.elim 1 (·.sequence + 1) = (s.runEvents id).length + 1 := by
  cases hlast : (s.runEvents id).getLast? with
  | none =>
      rw [List.getLast?_eq_none_iff] at hlast
      simp [hlast]
  | some e =>
      have hmap : ((s.runEvents id).map (·.sequence)).getLast? = some e.sequence := by
        rw [List.getLast?_map, hlast]
        rfl
      rw [h id, List.getLast?_range'] at hmap
      split at hmap
      · exact absurd hmap (by simp)
      · simp only [Option.some.injEq] at hmap
        simp only [Option.elim_some]
        omega

section Logged

variable {eventType : RunEventType} {e : RunEvent}

/-- The event goes to the end of the chain of its run. -/
theorem Logged.runEvents (hl : Logged s s' id eventType e) (h : Contiguous s) :
    s'.runEvents id = s.runEvents id ++ [e] := by
  have howner := hl.owner
  subst howner
  unfold RunStore.runEvents
  rw [hl.events]
  refine Table.log_put hl.free fun x hx => ?_
  have hle := h.le_length hx
  rw [hl.next, h.next_eq]
  omega

/-- The chains of the other runs are left alone. -/
theorem Logged.runEvents_ne (hl : Logged s s' id eventType e) {other : String}
    (hne : other ≠ id) : s'.runEvents other = s.runEvents other := by
  unfold RunStore.runEvents
  rw [hl.events]
  refine Table.log_put_ne hl.free ?_
  rw [hl.owner]
  exact hne.symm

theorem Logged.contiguous (hl : Logged s s' id eventType e) (h : Contiguous s) :
    Contiguous s' := by
  intro other
  by_cases hid : other = id
  · subst hid
    rw [hl.runEvents h, List.map_append, h other, List.map_singleton, hl.next, h.next_eq,
      List.length_append, List.length_singleton, List.range'_concat]
    simp [Nat.add_comm]
  · rw [hl.runEvents_ne hid]
    exact h other

end Logged

/-! ### Moves -/

/-- A new run, as `accept_run` records it. -/
structure Recorded (r : WorkloadRun) : Prop where
  state : r.state = .accepted
  unmarked : r.cancellationRequestedAt = none

/-- What a call does to the row of one run. -/
inductive Change : WorkloadRun → WorkloadRun → Option RunEventType → Prop where
  | marked (r : WorkloadRun) (at_ : Utc) :
      Change r { r with cancellationRequestedAt := some at_ } (some .cancellationRequested)
  | claimed (r : WorkloadRun) (startedAt : Utc) (owner : String) (expires : Int) :
      Change r
        { r with
          state := .running, startedAt := some startedAt, leaseOwner := some owner,
          leaseExpires := some expires, fencingToken := r.fencingToken + 1 }
        (some (.reached .running))
  | completed (r : WorkloadRun) (state : RunState) (at_ : Utc) (result : String)
      (exitCode : Option Int) (exitReason : String) (hstate : state.terminal = true) :
      Change r
        { r with
          state, completedAt := some at_, resultDigest := some result, exitCode,
          exitReason := some exitReason, leaseOwner := none, leaseExpires := none }
        (some (.reached state))
  | renewed (r : WorkloadRun) (expires : Int) :
      Change r { r with leaseExpires := some expires } none

/-- A run that is not terminal is changed, with the event of the change if it has one. -/
inductive Changes (s : RunStore) : RunStore → Prop where
  | logged (row row' : WorkloadRun) (t : RunEventType) (e : RunEvent) (s' : RunStore)
      (hfound : s.runs.get? row.runId = some row) (hlive : row.state.terminal = false)
      (hchange : Change row row' (some t))
      (hlog : Logged { s with runs := s.runs.put row' } s' row.runId t e) : Changes s s'
  | silent (row row' : WorkloadRun) (hfound : s.runs.get? row.runId = some row)
      (hlive : row.state.terminal = false) (hchange : Change row row' none) :
      Changes s { s with runs := s.runs.put row' }

/-- One move of the store: a new run with its first event, or a change of a run. -/
inductive Moves (s : RunStore) : RunStore → Prop where
  | records (row : WorkloadRun) (e : RunEvent) (s' : RunStore)
      (hfree : s.runs.get? row.runId = none)
      (hkey : s.keyed? row.actorId row.idempotencyKeyDigest = none) (hrow : Recorded row)
      (hlog : Logged { s with runs := s.runs.put row } s' row.runId (.reached .accepted) e) :
      Moves s s'
  | changes (s' : RunStore) (h : Changes s s') : Moves s s'

/-- Any number of moves. -/
abbrev MovesTo (s s' : RunStore) : Prop := Relation.ReflTransGen Moves s s'

theorem requestCancelTx_eq_ok {actor : Actor} {clock : Nat → Int} {eventId : EntityId .event}
    (h : s.requestCancelTx r actor clock eventId = .ok s') :
    (r.cancellationRequestedAt.isSome = true ∧ s' = s) ∨
      (r.cancellationRequestedAt = none ∧ ∃ at_ e, Logged
        { s with runs := s.runs.put { r with cancellationRequestedAt := some at_ } } s' r.runId
        .cancellationRequested e) := by
  unfold requestCancelTx at h
  split at h
  · rename_i hmarked
    exact Or.inl ⟨hmarked, (Except.ok.inj h).symm⟩
  · rename_i hmarked
    obtain ⟨at_, -, h⟩ := Results.bind_eq_ok.mp h
    obtain ⟨e, hlog⟩ := appendRunEvent_eq_ok (steady_scalars _ _ (by simp only [List.map]; decide)
      (by simp [isScalar])) h
    exact Or.inr ⟨by simpa using hmarked, at_, e, hlog⟩

theorem completeTx_eq_ok {state : RunState} {result : String} {exitCode : Option Int}
    {exitReason : String} {clock : Nat → Int} {eventId : EntityId .event} {r' : WorkloadRun}
    (h : s.completeTx r state result exitCode exitReason clock eventId = .ok (s', r'))
    (hstate : state.terminal = true) :
    ∃ e, Change r r' (some (.reached state)) ∧
      Logged { s with runs := s.runs.put r' } s' r.runId (.reached state) e := by
  unfold completeTx at h
  obtain ⟨at_, -, h⟩ := Results.bind_eq_ok.mp h
  obtain ⟨s₁, hs₁, h⟩ := Results.bind_eq_ok.mp h
  obtain ⟨rfl, rfl⟩ := Prod.mk.inj (Except.ok.inj h)
  obtain ⟨e, hlog⟩ := appendRunEvent_eq_ok (steady_scalars _ _ (by simp only [List.map]; decide)
      (by cases exitCode <;> simp [isScalar])) hs₁
  exact ⟨e, .completed r state at_ result exitCode exitReason hstate, hlog⟩

theorem available?_eq_some {now : Int} (h : s.available? now = some r) :
    s.runs.get? r.runId = some r ∧ r.state.terminal = false := by
  have hmem := mem_orderBy.mp (List.mem_of_mem_head? h)
  rw [List.mem_filter] at hmem
  exact ⟨Table.get?_of_mem hmem.1, (of_decide_eq_true hmem.2).1⟩

theorem active?_eq_some {w : WorkloadKey} (h : s.active? w = some r) :
    s.runs.get? r.runId = some r ∧ r.workload = w ∧ r.state.terminal = false := by
  have hmem := mem_orderBy.mp (List.mem_of_mem_head? h)
  unfold activeRuns at hmem
  rw [List.mem_filter] at hmem
  exact ⟨Table.get?_of_mem hmem.1, of_decide_eq_true hmem.2⟩

/-- The columns no call changes, and the token, which only grows. -/
structure Kept (r r' : WorkloadRun) : Prop where
  runId : r'.runId = r.runId
  actorId : r'.actorId = r.actorId
  key : r'.idempotencyKeyDigest = r.idempotencyKeyDigest
  workload : r'.workload = r.workload
  token : r.fencingToken ≤ r'.fencingToken

theorem Change.kept {r r' : WorkloadRun} {t : Option RunEventType} (h : Change r r' t) :
    Kept r r' := by
  cases h with
  | claimed startedAt owner expires => exact ⟨rfl, rfl, rfl, rfl, Nat.le_succ _⟩
  | _ => exact ⟨rfl, rfl, rfl, rfl, Nat.le_refl _⟩

theorem keyed?_eq_none {actorId : EntityId .actor} {keyDigest : Digest} :
    s.keyed? actorId keyDigest = none ↔
      ∀ r ∈ s.runs.rows, ¬ (r.actorId = actorId ∧ r.idempotencyKeyDigest = keyDigest) := by
  simp [keyed?, List.find?_eq_none]

/-- Changing a run takes no key. -/
theorem keyed?_put {actorId : EntityId .actor} {keyDigest : Digest} {r r' : WorkloadRun}
    (h : s.keyed? actorId keyDigest = none) (hfound : s.runs.get? r.runId = some r)
    (hkept : Kept r r') {s₁ : RunStore} (hruns : s₁.runs = s.runs.put r') :
    s₁.keyed? actorId keyDigest = none := by
  rw [keyed?_eq_none] at h ⊢
  intro x hx
  rw [hruns] at hx
  rcases Table.mem_put.mp hx with rfl | ⟨hx, -⟩
  · rw [hkept.actorId, hkept.key]
    exact h r (Table.mem_of_get? hfound)
  · exact h x hx

/-! ### Calls are made of moves -/

/-- What the policy let through, and what it did: nothing, or it asked the active run to
stop. -/
inductive Cleared (s : RunStore) (active : Option WorkloadRun) (policy : ConcurrencyPolicy) :
    RunStore → Prop where
  | idle (h : active = none ∨ policy = .allow) : Cleared s active policy s
  | marked (row : WorkloadRun) (hpolicy : policy = .replace) (hactive : active = some row)
      (hmarked : row.cancellationRequestedAt.isSome = true) : Cleared s active policy s
  | marks (row : WorkloadRun) (at_ : Utc) (e : RunEvent) (s' : RunStore)
      (hpolicy : policy = .replace) (hactive : active = some row)
      (hunmarked : row.cancellationRequestedAt = none)
      (hlog : Logged
        { s with runs := s.runs.put { row with cancellationRequestedAt := some at_ } } s'
        row.runId .cancellationRequested e) : Cleared s active policy s'

theorem applyPolicy_eq_ok {active : Option WorkloadRun} {policy : ConcurrencyPolicy}
    {actor : Actor} {clock : Nat → Int} {eventId : EntityId .event}
    (h : s.applyPolicy active policy actor clock eventId = .ok s') :
    Cleared s active policy s' := by
  cases active with
  | none =>
      obtain rfl := Except.ok.inj h
      exact .idle (Or.inl rfl)
  | some row =>
      cases policy with
      | forbid => exact absurd h (by simp [applyPolicy])
      | allow =>
          obtain rfl := Except.ok.inj h
          exact .idle (Or.inr rfl)
      | replace =>
          rcases requestCancelTx_eq_ok h with ⟨hmarked, rfl⟩ | ⟨hunmarked, at_, e, hlog⟩
          · exact .marked row rfl rfl hmarked
          · exact .marks row at_ e s' rfl rfl hunmarked hlog

/-- Under the policy that forbids overlap a run is only recorded when none is active. -/
theorem Cleared.none_of_forbid {active : Option WorkloadRun}
    (h : Cleared s active .forbid s') : active = none ∧ s' = s := by
  cases h with
  | idle hidle => exact ⟨hidle.resolve_right (by decide), rfl⟩
  | marked row hpolicy => exact absurd hpolicy (by decide)
  | marks row at_ e s' hpolicy => exact absurd hpolicy (by decide)

/-- The policy changes one run, or nothing. -/
theorem Cleared.changes {w : WorkloadKey} {policy : ConcurrencyPolicy}
    (h : Cleared s (s.active? w) policy s') : s' = s ∨ Changes s s' := by
  cases h with
  | idle => exact Or.inl rfl
  | marked => exact Or.inl rfl
  | marks row at_ e s' hpolicy hactive hunmarked hlog =>
      obtain ⟨hfound, -, hlive⟩ := active?_eq_some hactive
      exact Or.inr (.logged row _ _ e s' hfound hlive (.marked row at_) hlog)

theorem Cleared.keyed? {w : WorkloadKey} {policy : ConcurrencyPolicy} {actorId : EntityId .actor}
    {keyDigest : Digest} (h : Cleared s (s.active? w) policy s')
    (hkey : s.keyed? actorId keyDigest = none) : s'.keyed? actorId keyDigest = none := by
  cases h with
  | idle => exact hkey
  | marked => exact hkey
  | marks row at_ e s' hpolicy hactive hunmarked hlog =>
      obtain ⟨hfound, -, -⟩ := active?_eq_some hactive
      exact keyed?_put hkey hfound (Change.marked row at_).kept hlog.runs

/-- A new run, and the store it was recorded in. -/
structure Accepted (s s₁ s' : RunStore) (actor : Actor) (q : RunRequest) (key : String)
    (policy : ConcurrencyPolicy) (clock : Nat → Int) (runId : String) (r : WorkloadRun)
    (e : RunEvent) : Prop where
  cleared : Cleared s (s.active? q.workload) policy s₁
  free : s₁.runs.get? r.runId = none
  unused : s₁.keyed? r.actorId r.idempotencyKeyDigest = none
  recorded : Recorded r
  id : r.runId = runId
  workload : r.workload = q.workload
  actor : r.actorId = actor.actorId
  digest : r.idempotencyKeyDigest = digestText key
  time : timestamp (clock 0) = .ok r.acceptedAt
  logged : Logged { s₁ with runs := s₁.runs.put r } s' r.runId (.reached .accepted) e

/-- **A successful `accept_run`** returns the run of the key, or records a new one. -/
theorem acceptRun_eq_ok {actor : Actor} {q : RunRequest} {key : String}
    {policy : ConcurrencyPolicy} {clock : Nat → Int} {runId : String}
    {eventId : Nat → EntityId .event}
    (h : s.acceptRun actor q key policy clock runId eventId = .ok (s', r)) :
    (s.keyed? actor.actorId (digestText key) = some r ∧ s' = s) ∨
      (s.keyed? actor.actorId (digestText key) = none ∧
        ∃ s₁ e, Accepted s s₁ s' actor q key policy clock runId r e) := by
  unfold acceptRun at h
  obtain ⟨acceptedAt, htime, h⟩ := Results.bind_eq_ok.mp h
  dsimp only at h
  split at h
  · rename_i existing hkey
    obtain ⟨_, -, h⟩ := Results.bind_eq_ok.mp h
    obtain ⟨rfl, rfl⟩ := Prod.mk.inj (Except.ok.inj h)
    exact Or.inl ⟨hkey, rfl⟩
  · rename_i hkey
    obtain ⟨s₁, hpolicy, h⟩ := Results.bind_eq_ok.mp h
    obtain ⟨requestJson, -, h⟩ := Results.bind_eq_ok.mp h
    obtain ⟨runs, hruns, h⟩ := Results.bind_eq_ok.mp h
    obtain ⟨s₂, hs₂, h⟩ := Results.bind_eq_ok.mp h
    obtain ⟨rfl, rfl⟩ := Prod.mk.inj (Except.ok.inj h)
    obtain ⟨hfree, rfl⟩ := insertRow_eq_ok hruns
    obtain ⟨e, hlog⟩ := appendRunEvent_eq_ok (steady_scalars _ _ (by simp only [List.map]; decide)
      (by simp [isScalar])) hs₂
    have hcleared := applyPolicy_eq_ok hpolicy
    exact Or.inr ⟨hkey, s₁, e, ⟨hcleared, hfree, hcleared.keyed? hkey, ⟨rfl, rfl⟩, rfl, rfl,
      rfl, rfl, htime, hlog⟩⟩

/-- **A successful `acquire_run`** finds nothing, cancels a run that never started, or claims
one under the next token. -/
theorem acquireRun_eq_ok {owner : String} {lease : Int} {clock : Nat → Int}
    {eventId : EntityId .event} {r? : Option WorkloadRun}
    (h : s.acquireRun owner lease clock eventId = .ok (s', r?)) :
    (r? = none ∧ s' = s) ∨
      ∃ row row' t e, r? = some row' ∧ s.runs.get? row.runId = some row ∧
        row.state.terminal = false ∧ Change row row' (some (.reached t)) ∧
        (t = .cancelled ∨ t = .running ∧ row'.fencingToken = row.fencingToken + 1 ∧
          row'.leaseOwner = some owner) ∧ row'.state = t ∧
        Logged { s with runs := s.runs.put row' } s' row.runId (.reached t) e := by
  unfold acquireRun at h
  split at h
  · obtain ⟨rfl, rfl⟩ := Prod.mk.inj (Except.ok.inj h)
    exact Or.inl ⟨rfl, rfl⟩
  · rename_i row hrow
    obtain ⟨hfound, hlive⟩ := available?_eq_some hrow
    right
    split at h
    · obtain ⟨⟨s₁, updated⟩, hcomplete, h⟩ := Results.bind_eq_ok.mp h
      obtain ⟨rfl, rfl⟩ := Prod.mk.inj (Except.ok.inj h)
      obtain ⟨e, hchange, hlog⟩ := completeTx_eq_ok hcomplete rfl
      have hstate : updated.state = .cancelled := by
        cases hchange
        rfl
      exact ⟨row, updated, .cancelled, e, rfl, hfound, hlive, hchange, Or.inl rfl, hstate, hlog⟩
    · obtain ⟨startedAt, -, h⟩ := Results.bind_eq_ok.mp h
      obtain ⟨s₁, hs₁, h⟩ := Results.bind_eq_ok.mp h
      obtain ⟨rfl, rfl⟩ := Prod.mk.inj (Except.ok.inj h)
      obtain ⟨e, hlog⟩ := appendRunEvent_eq_ok (steady_scalars _ _ (by simp only [List.map]; decide)
      (by simp [isScalar])) hs₁
      exact ⟨row, _, .running, e, rfl, hfound, hlive, .claimed row startedAt owner _,
        Or.inr ⟨rfl, rfl, rfl⟩, rfl, hlog⟩

/-- **A successful `complete_run`** finds a terminal run, or completes one under its fence. -/
theorem completeRun_eq_ok {owner : String} {token : Int} {state : RunState} {result : String}
    {exitCode : Option Int} {exitReason : String} {clock : Nat → Int}
    {eventId : EntityId .event}
    (h : s.completeRun id owner token state result exitCode exitReason clock eventId =
      .ok (s', r)) :
    ∃ row, s.runs.get? id = some row ∧
      ((row.state.terminal = true ∧ s' = s ∧ r = row) ∨
        (row.state.terminal = false ∧ row.leaseOwner = some owner ∧
          (row.fencingToken : Int) = token ∧ ∃ e, Change row r (some (.reached state)) ∧
            Logged { s with runs := s.runs.put r } s' row.runId (.reached state) e)) := by
  unfold completeRun at h
  obtain ⟨_, hstate, h⟩ := Results.bind_eq_ok.mp h
  have hstate := ensure_eq_ok.mp hstate
  split at h
  · exact absurd h (by simp [throw, throwThe, MonadExceptOf.throw])
  · rename_i row hrow
    refine ⟨row, hrow, ?_⟩
    split at h
    · rename_i hterminal
      obtain ⟨rfl, rfl⟩ := Prod.mk.inj (Except.ok.inj h)
      exact Or.inl ⟨hterminal, rfl, rfl⟩
    · rename_i hlive
      obtain ⟨_, hfence, h⟩ := Results.bind_eq_ok.mp h
      obtain ⟨howner, htoken⟩ := ensure_eq_ok.mp hfence
      obtain ⟨e, hchange, hlog⟩ := completeTx_eq_ok h hstate
      exact Or.inr ⟨by simpa using hlive, howner, htoken, e, hchange, hlog⟩

/-- **A successful `renew_run_lease`** renews under the fence, or changes nothing. -/
theorem renewRunLease_eq_ok {owner : String} {token lease clock : Int} {b : Bool}
    (h : s.renewRunLease id owner token lease clock = .ok (s', b)) :
    (b = false ∧ s' = s) ∨
      ∃ row row', b = true ∧ s.runs.get? id = some row ∧ row.state.terminal = false ∧
        (row.fencingToken : Int) = token ∧ Change row row' none ∧
        s' = { s with runs := s.runs.put row' } := by
  unfold renewRunLease at h
  obtain ⟨_, -, h⟩ := Results.bind_eq_ok.mp h
  split at h
  · obtain ⟨rfl, rfl⟩ := Prod.mk.inj (Except.ok.inj h)
    exact Or.inl ⟨rfl, rfl⟩
  · rename_i row hrow
    split at h
    · rename_i hheld
      obtain ⟨rfl, rfl⟩ := Prod.mk.inj (Except.ok.inj h)
      refine Or.inr ⟨row, _, rfl, hrow, ?_, hheld.2.2, .renewed row _, rfl⟩
      rw [hheld.1]
      rfl
    · obtain ⟨rfl, rfl⟩ := Prod.mk.inj (Except.ok.inj h)
      exact Or.inl ⟨rfl, rfl⟩

/-- **A successful `request_cancellation`** marks a run that is not terminal, once. -/
theorem requestCancellation_eq_ok {actor : Actor} {clock : Nat → Int} {eventId : EntityId .event}
    {u : Unit} (h : s.requestCancellation id actor clock eventId = .ok (s', u)) :
    s' = s ∨ ∃ row at_ e, s.runs.get? id = some row ∧ row.state.terminal = false ∧
      Logged { s with runs := s.runs.put { row with cancellationRequestedAt := some at_ } } s'
        row.runId .cancellationRequested e := by
  unfold requestCancellation at h
  split at h
  · exact absurd h (by simp)
  · rename_i row hrow
    split at h
    · exact Or.inl (Prod.mk.inj (Except.ok.inj h)).1.symm
    · rename_i hlive
      obtain ⟨s₁, hs₁, h⟩ := Results.bind_eq_ok.mp h
      obtain ⟨rfl, -⟩ := Prod.mk.inj (Except.ok.inj h)
      rcases requestCancelTx_eq_ok hs₁ with ⟨-, rfl⟩ | ⟨-, at_, e, hlog⟩
      · exact Or.inl rfl
      · exact Or.inr ⟨row, at_, e, hrow, by simpa using hlive, hlog⟩

theorem map_fst_eq_ok {α : Type} {x : Result (RunStore × α)} (h : x.map Prod.fst = .ok s') :
    ∃ a, x = .ok (s', a) := by
  cases x with
  | error e => exact absurd h (by simp [Except.map])
  | ok p =>
      obtain ⟨s₁, a⟩ := p
      obtain rfl : s₁ = s' := by simpa [Except.map] using h
      exact ⟨a, rfl⟩

theorem get?_runId (h : s.runs.get? id = some r) : s.runs.get? r.runId = some r := by
  rw [Table.key_of_get? h]
  exact h

/-- **What a successful call does**: nothing, a change of one run, or a new run. -/
theorem run_eq_ok {c : RunCall} (h : c.run s = .ok s') :
    s' = s ∨ Changes s s' ∨ ∃ actor q key policy clock runId eventId s₁ r e,
      c = .acceptRun actor q key policy clock runId eventId ∧
        Accepted s s₁ s' actor q key policy clock runId r e := by
  cases c with
  | acceptRun actor q key policy clock runId eventId =>
      rw [RunCall.run] at h
      obtain ⟨row, h⟩ := map_fst_eq_ok h
      rcases acceptRun_eq_ok h with ⟨-, rfl⟩ | ⟨-, s₁, e, ha⟩
      · exact Or.inl rfl
      · exact Or.inr (Or.inr ⟨actor, q, key, policy, clock, runId, eventId, s₁, row, e, rfl, ha⟩)
  | acquireRun owner lease clock eventId =>
      rw [RunCall.run] at h
      obtain ⟨r?, h⟩ := map_fst_eq_ok h
      rcases acquireRun_eq_ok h with ⟨-, rfl⟩ | ⟨row, row', t, e, -, hfound, hlive, hc, -, -, hlog⟩
      · exact Or.inl rfl
      · exact Or.inr (Or.inl (.logged row row' _ e s' hfound hlive hc hlog))
  | completeRun runId owner token state result exitCode exitReason clock eventId =>
      rw [RunCall.run] at h
      obtain ⟨row', h⟩ := map_fst_eq_ok h
      obtain ⟨row, hrow, ⟨-, rfl, -⟩ | ⟨hlive, -, -, e, hc, hlog⟩⟩ := completeRun_eq_ok h
      · exact Or.inl rfl
      · exact Or.inr (Or.inl (.logged row row' _ e s' (get?_runId hrow) hlive hc hlog))
  | renewRunLease runId owner token lease clock =>
      rw [RunCall.run] at h
      obtain ⟨b, h⟩ := map_fst_eq_ok h
      rcases renewRunLease_eq_ok h with ⟨-, rfl⟩ | ⟨row, row', -, hrow, hlive, -, hc, rfl⟩
      · exact Or.inl rfl
      · exact Or.inr (Or.inl (.silent row row' (get?_runId hrow) hlive hc))
  | requestCancellation runId actor clock eventId =>
      rw [RunCall.run] at h
      obtain ⟨u, h⟩ := map_fst_eq_ok h
      rcases requestCancellation_eq_ok h with rfl | ⟨row, at_, e, hrow, hlive, hlog⟩
      · exact Or.inl rfl
      · exact Or.inr (Or.inl
          (.logged row _ _ e s' (get?_runId hrow) hlive (.marked row at_) hlog))

/-- **Every successful call is made of moves.** -/
theorem movesTo_run {c : RunCall} (h : c.run s = .ok s') : MovesTo s s' := by
  rcases run_eq_ok h with rfl | hchange | ⟨_, _, _, _, _, _, _, s₁, r, e, -, ha⟩
  · exact .refl
  · exact .single (.changes s' hchange)
  · have hlast : Moves s₁ s' := .records r e s' ha.free ha.unused ha.recorded ha.logged
    rcases ha.cleared.changes with rfl | hchange
    · exact .single hlast
    · exact .tail (.single (.changes s₁ hchange)) hlast

theorem movesTo_runCalls (s : RunStore) (calls : List RunCall) : MovesTo s (s.runCalls calls) := by
  induction calls generalizing s with
  | nil => exact .refl
  | cons c calls ih =>
      refine Relation.ReflTransGen.trans ?_ (ih (c.apply s))
      unfold RunCall.apply
      split
      · rename_i s' hrun
        exact movesTo_run hrun
      · exact .refl

/-! ### What moves keep -/

/-- A run stays, keeps its identity and its token, and stays as it is once terminal. -/
structure Follows (s s' : RunStore) : Prop where
  kept : ∀ {id r}, s.runs.get? id = some r → ∃ r', s'.runs.get? id = some r' ∧ Kept r r'
  settled : ∀ {id r}, s.runs.get? id = some r → r.state.terminal = true →
    s'.runs.get? id = some r

theorem Kept.refl (r : WorkloadRun) : Kept r r :=
  ⟨rfl, rfl, rfl, rfl, Nat.le_refl _⟩

theorem Kept.trans {r₁ r₂ r₃ : WorkloadRun} (h : Kept r₁ r₂) (h' : Kept r₂ r₃) : Kept r₁ r₃ :=
  ⟨h'.runId.trans h.runId, h'.actorId.trans h.actorId, h'.key.trans h.key,
    h'.workload.trans h.workload, Nat.le_trans h.token h'.token⟩

/-- Changing one run that is not terminal. -/
theorem follows_put {r r' : WorkloadRun} (hfound : s.runs.get? r.runId = some r)
    (hlive : r.state.terminal = false) (hkept : Kept r r') (hruns : s'.runs = s.runs.put r') :
    Follows s s' := by
  refine ⟨?_, ?_⟩
  · intro id x hx
    rw [hruns, Table.get?_put, hkept.runId]
    by_cases hid : id = r.runId
    · subst hid
      rw [if_pos rfl]
      rw [hfound] at hx
      obtain rfl := Option.some.inj hx
      exact ⟨r', rfl, hkept⟩
    · rw [if_neg hid]
      exact ⟨x, hx, Kept.refl x⟩
  · intro id x hx hterminal
    rw [hruns, Table.get?_put, hkept.runId, if_neg]
    · exact hx
    · rintro rfl
      rw [hfound] at hx
      obtain rfl := Option.some.inj hx
      rw [hlive] at hterminal
      exact absurd hterminal (by simp)

/-- A change replaces one run that is not terminal. -/
theorem Changes.exists_put (h : Changes s s') : ∃ r r' t, s.runs.get? r.runId = some r ∧
    r.state.terminal = false ∧ Change r r' t ∧ s'.runs = s.runs.put r' := by
  cases h with
  | logged row row' t e s' hfound hlive hchange hlog =>
      exact ⟨row, row', t, hfound, hlive, hchange, hlog.runs⟩
  | silent row row' hfound hlive hchange => exact ⟨row, row', _, hfound, hlive, hchange, rfl⟩

theorem Moves.follows (h : Moves s s') : Follows s s' := by
  cases h with
  | records row e s' hfree hkey hrow hlog =>
      have hother : ∀ {id x}, s.runs.get? id = some x → s'.runs.get? id = some x := by
        intro id x hx
        rw [hlog.runs]
        refine (Table.get?_put_ne s.runs ?_).trans hx
        rintro rfl
        rw [hfree] at hx
        exact absurd hx (by simp)
      exact ⟨fun hx => ⟨_, hother hx, Kept.refl _⟩, fun hx _ => hother hx⟩
  | changes s' h =>
      obtain ⟨row, row', t, hfound, hlive, hchange, hruns⟩ := h.exists_put
      exact follows_put hfound hlive hchange.kept hruns

theorem MovesTo.follows (h : MovesTo s s') : Follows s s' := by
  induction h with
  | refl => exact ⟨fun {_ r} hr => ⟨r, hr, Kept.refl r⟩, fun hr _ => hr⟩
  | tail _ hstep ih =>
      refine ⟨?_, ?_⟩
      · intro id r hr
        obtain ⟨r₁, hr₁, hk₁⟩ := ih.kept hr
        obtain ⟨r₂, hr₂, hk₂⟩ := hstep.follows.kept hr₁
        exact ⟨r₂, hr₂, hk₁.trans hk₂⟩
      · intro id r hr hterminal
        exact hstep.follows.settled (ih.settled hr hterminal) hterminal

/-- A terminal run ends with the event of its state, and nobody holds its lease. -/
structure Ended (s : RunStore) (r : WorkloadRun) : Prop where
  owner : r.leaseOwner = none
  expires : r.leaseExpires = none
  last : (s.runEvents r.runId).getLast?.map (·.payload.eventType) = some (.reached r.state)

/-- What holds of every reachable store. -/
structure Sound (s : RunStore) : Prop where
  contiguous : Contiguous s
  begun : ∀ r ∈ s.runs.rows, s.runEvents r.runId ≠ []
  ended : ∀ r ∈ s.runs.rows, r.state.terminal = true → Ended s r
  keys : ∀ r ∈ s.runs.rows, ∀ r' ∈ s.runs.rows, r.actorId = r'.actorId →
    r.idempotencyKeyDigest = r'.idempotencyKeyDigest → r = r'

theorem Sound.empty : Sound RunStore.empty := by
  refine ⟨fun _ => rfl, ?_, ?_, ?_⟩ <;> intro r hr <;> exact absurd hr (by simp [RunStore.empty])

/-- Writing a run takes no key of another run. -/
theorem keys_put {row : WorkloadRun}
    (h : ∀ r ∈ s.runs.rows, ∀ r' ∈ s.runs.rows, r.actorId = r'.actorId →
      r.idempotencyKeyDigest = r'.idempotencyKeyDigest → r = r')
    (hkey : ∀ x ∈ s.runs.rows, x.runId ≠ row.runId →
      ¬ (x.actorId = row.actorId ∧ x.idempotencyKeyDigest = row.idempotencyKeyDigest)) :
    ∀ r ∈ (s.runs.put row).rows, ∀ r' ∈ (s.runs.put row).rows, r.actorId = r'.actorId →
      r.idempotencyKeyDigest = r'.idempotencyKeyDigest → r = r' := by
  intro x hx y hy hactor hdigest
  rcases Table.mem_put.mp hx with rfl | ⟨hold, hne⟩
  · rcases Table.mem_put.mp hy with rfl | ⟨hold, hne⟩
    · rfl
    · exact absurd ⟨hactor.symm, hdigest.symm⟩ (hkey y hold hne)
  · rcases Table.mem_put.mp hy with rfl | ⟨hold', -⟩
    · exact absurd ⟨hactor, hdigest⟩ (hkey x hold hne)
    · exact h x hold y hold' hactor hdigest

/-- Writing a run with its event keeps a sound store sound, as long as no other run has its
key and a terminal run gets the event of its state. -/
theorem Sound.logged (h : Sound s) {row : WorkloadRun} {t : RunEventType} {e : RunEvent}
    (hlog : Logged { s with runs := s.runs.put row } s' row.runId t e)
    (hkey : ∀ x ∈ s.runs.rows, x.runId ≠ row.runId →
      ¬ (x.actorId = row.actorId ∧ x.idempotencyKeyDigest = row.idempotencyKeyDigest))
    (hended : row.state.terminal = true →
      t = .reached row.state ∧ row.leaseOwner = none ∧ row.leaseExpires = none) : Sound s' := by
  have hcontiguous : Contiguous { s with runs := s.runs.put row } := h.contiguous
  have hown : s'.runEvents row.runId = s.runEvents row.runId ++ [e] := hlog.runEvents hcontiguous
  have hother : ∀ x : WorkloadRun, x.runId ≠ row.runId →
      s'.runEvents x.runId = s.runEvents x.runId :=
    fun x hne => hlog.runEvents_ne hne
  have hrows : ∀ x, x ∈ s'.runs.rows ↔ x = row ∨ (x ∈ s.runs.rows ∧ x.runId ≠ row.runId) := by
    intro x
    rw [hlog.runs]
    exact Table.mem_put
  refine ⟨hlog.contiguous hcontiguous, ?_, ?_, ?_⟩
  · intro x hx
    rcases (hrows x).mp hx with rfl | ⟨hx, hne⟩
    · rw [hown]
      simp
    · rw [hother x hne]
      exact h.begun x hx
  · intro x hx hterminal
    rcases (hrows x).mp hx with rfl | ⟨hx, hne⟩
    · obtain ⟨ht, howner, hexpires⟩ := hended hterminal
      refine ⟨howner, hexpires, ?_⟩
      rw [hown, List.getLast?_concat, ← ht, ← hlog.type]
      rfl
    · obtain ⟨howner, hexpires, hlast⟩ := h.ended x hx hterminal
      refine ⟨howner, hexpires, ?_⟩
      rw [hother x hne]
      exact hlast
  · rw [hlog.runs]
    exact keys_put h.keys hkey

/-- Another run has another key. -/
theorem Sound.key_ne (h : Sound s) {row row' : WorkloadRun} (hfound : s.runs.get? row.runId = some row)
    (hkept : Kept row row') : ∀ x ∈ s.runs.rows, x.runId ≠ row'.runId →
      ¬ (x.actorId = row'.actorId ∧ x.idempotencyKeyDigest = row'.idempotencyKeyDigest) := by
  intro x hx hne hsame
  rw [hkept.actorId, hkept.key] at hsame
  have heq := h.keys x hx row (Table.mem_of_get? hfound) hsame.1 hsame.2
  rw [heq, hkept.runId] at hne
  exact hne rfl

/-- **Moves keep the store sound.** -/
theorem Sound.moves (h : Sound s) (hmove : Moves s s') : Sound s' := by
  cases hmove with
  | records row e s' hfree hkey hrow hlog =>
      refine h.logged hlog (fun x hx _ => keyed?_eq_none.mp hkey x hx) ?_
      intro hterminal
      rw [hrow.state] at hterminal
      exact absurd hterminal (by decide)
  | changes s' hmove =>
      cases hmove with
      | logged row row' t e s' hfound hlive hchange hlog =>
          rw [← hchange.kept.runId] at hlog
          refine h.logged hlog (h.key_ne hfound hchange.kept) ?_
          intro hterminal
          -- only a completion makes a run terminal
          cases hchange with
          | marked at_ => rw [hlive] at hterminal; exact absurd hterminal (by simp)
          | claimed startedAt owner expires =>
              exact absurd hterminal (by simp [RunState.terminal])
          | completed state at_ result exitCode exitReason hstate => exact ⟨rfl, rfl, rfl⟩
      | silent row row' hfound hlive hchange =>
          have hkept := hchange.kept
          have hstate : row'.state.terminal = false := by
            cases hchange
            exact hlive
          refine ⟨h.contiguous, ?_, ?_, keys_put h.keys (h.key_ne hfound hkept)⟩
          · intro x hx
            rcases Table.mem_put.mp hx with rfl | ⟨hx, -⟩
            · rw [hkept.runId]
              exact h.begun row (Table.mem_of_get? hfound)
            · exact h.begun x hx
          · intro x hx hterminal
            rcases Table.mem_put.mp hx with rfl | ⟨hx, -⟩
            · rw [hstate] at hterminal
              exact absurd hterminal (by simp)
            · obtain ⟨howner, hexpires, hlast⟩ := h.ended x hx hterminal
              exact ⟨howner, hexpires, hlast⟩

theorem Sound.movesTo (h : Sound s) (hmoves : MovesTo s s') : Sound s' := by
  induction hmoves with
  | refl => exact h
  | tail _ hstep ih => exact ih.moves hstep

/-- **Every reachable store is sound.** -/
theorem Sound.runCalls (calls : List RunCall) : Sound (RunStore.empty.runCalls calls) :=
  Sound.empty.movesTo (movesTo_runCalls _ calls)

/-! ### Fences -/

/-- A superseded fence completes nothing. -/
theorem completeRun_superseded {r : WorkloadRun} (hr : s.runs.get? id = some r) {owner : String}
    {token : Int} (hold : token < r.fencingToken) (state : RunState) (result : String)
    (exitCode : Option Int) (exitReason : String) (clock : Nat → Int)
    (eventId : EntityId .event) :
    RunCall.apply s
      (.completeRun id owner token state result exitCode exitReason clock eventId) = s := by
  unfold RunCall.apply
  split
  · rename_i s' hrun
    rw [RunCall.run] at hrun
    obtain ⟨row', hrun⟩ := map_fst_eq_ok hrun
    obtain ⟨row, hrow, ⟨-, rfl, -⟩ | ⟨-, -, htoken, -⟩⟩ := completeRun_eq_ok hrun
    · rfl
    · rw [hr] at hrow
      obtain rfl := Option.some.inj hrow
      omega
  · rfl

/-- A superseded fence renews nothing. -/
theorem renewRunLease_superseded {r : WorkloadRun} (hr : s.runs.get? id = some r) {owner : String}
    {token lease clock : Int} (hold : token < r.fencingToken) {b : Bool}
    (h : s.renewRunLease id owner token lease clock = .ok (s', b)) : b = false ∧ s' = s := by
  rcases renewRunLease_eq_ok h with h | ⟨row, row', -, hrow, -, htoken, -, -⟩
  · exact h
  · rw [hr] at hrow
    obtain rfl := Option.some.inj hrow
    omega

/-! ### Overlap -/

/-- At most one run of a workload is not terminal. -/
def AtMostOne (s : RunStore) (w : WorkloadKey) : Prop :=
  ∀ r ∈ s.activeRuns w, ∀ r' ∈ s.activeRuns w, r = r'

theorem mem_activeRuns {w : WorkloadKey} :
    r ∈ s.activeRuns w ↔ r ∈ s.runs.rows ∧ r.workload = w ∧ r.state.terminal = false := by
  simp [activeRuns]

/-- A change makes no other run active, and none active with a property that no change brings
about. -/
theorem Changes.atMostOne {w : WorkloadKey} {p : WorkloadRun → Prop} (hchange : Changes s s')
    (hp : ∀ {r r' t}, Change r r' t → p r' → p r)
    (h : ∀ r ∈ s.activeRuns w, ∀ r' ∈ s.activeRuns w, p r → p r' → r = r') :
    ∀ r ∈ s'.activeRuns w, ∀ r' ∈ s'.activeRuns w, p r → p r' → r = r' := by
  obtain ⟨r, r', t, hfound, hlive, hchange, hruns⟩ := hchange.exists_put
  -- such a run of the new store was one before, under the same id
  have hback : ∀ x ∈ s'.activeRuns w, p x → ∃ y ∈ s.activeRuns w, p y ∧ y.runId = x.runId := by
    intro x hx hpx
    rw [mem_activeRuns, hruns] at hx
    obtain ⟨hmem, hw, hactive⟩ := hx
    rcases Table.mem_put.mp hmem with rfl | ⟨hold, -⟩
    · exact ⟨r, mem_activeRuns.mpr ⟨Table.mem_of_get? hfound, hchange.kept.workload ▸ hw, hlive⟩,
        hp hchange hpx, hchange.kept.runId.symm⟩
    · exact ⟨x, mem_activeRuns.mpr ⟨hold, hw, hactive⟩, hpx, rfl⟩
  intro x hx y hy hpx hpy
  obtain ⟨x₀, hx₀, hpx₀, hidx⟩ := hback x hx hpx
  obtain ⟨y₀, hy₀, hpy₀, hidy⟩ := hback y hy hpy
  refine Table.eq_of_mem_of_key_eq (mem_activeRuns.mp hx).1 (mem_activeRuns.mp hy).1 ?_
  rw [← hidx, ← hidy, h x₀ hx₀ y₀ hy₀ hpx₀ hpy₀]

theorem AtMostOne.changes {w : WorkloadKey} (h : AtMostOne s w) (hchange : Changes s s') :
    AtMostOne s' w := fun x hx y hy =>
  hchange.atMostOne (p := fun _ => True) (fun _ h => h) (fun x hx y hy _ _ => h x hx y hy) x hx y
    hy trivial trivial

/-- A workload none of whose runs is active has no active run. -/
theorem activeRuns_of_active?_none {w : WorkloadKey} (h : s.active? w = none) :
    s.activeRuns w = [] := by
  have hnil : orderBy (·.acceptedAt.val) (s.activeRuns w) = [] := List.head?_eq_none_iff.mp h
  refine List.eq_nil_iff_forall_not_mem.mpr fun x hx => ?_
  have hmem : x ∈ orderBy (fun r : WorkloadRun => r.acceptedAt.val) (s.activeRuns w) :=
    mem_orderBy.mpr hx
  rw [hnil] at hmem
  exact absurd hmem (by simp)

end RunStore

/-- A call accepts no run of the workload but under the policy that forbids overlap. -/
def RunCall.Forbids (w : WorkloadKey) : RunCall → Prop
  | .acceptRun _ q _ policy _ _ _ => q.workload = w → policy = .forbid
  | _ => True

namespace RunStore

variable {s s' : RunStore} {r : WorkloadRun}

/-- An acceptance makes its own run active, and no other. -/
theorem Accepted.active_cases {w : WorkloadKey} {s₁ : RunStore} {actor : Actor} {q : RunRequest}
    {key : String} {policy : ConcurrencyPolicy} {clock : Nat → Int} {runId : String} {e : RunEvent}
    (ha : Accepted s s₁ s' actor q key policy clock runId r e) {x : WorkloadRun}
    (hx : x ∈ s'.activeRuns w) : x = r ∧ q.workload = w ∨ x ∈ s₁.activeRuns w := by
  rw [mem_activeRuns, ha.logged.runs] at hx
  obtain ⟨hmem, hw, hlive⟩ := hx
  rcases Table.mem_put.mp hmem with rfl | ⟨hold, -⟩
  · exact Or.inl ⟨rfl, ha.workload.symm.trans hw⟩
  · exact Or.inr (mem_activeRuns.mpr ⟨hold, hw, hlive⟩)

theorem AtMostOne.accepted {w : WorkloadKey} (h : AtMostOne s w) {s₁ : RunStore} {actor : Actor}
    {q : RunRequest} {key : String} {policy : ConcurrencyPolicy} {clock : Nat → Int}
    {runId : String} {e : RunEvent}
    (ha : Accepted s s₁ s' actor q key policy clock runId r e) (hforbid : q.workload = w → policy = .forbid) :
    AtMostOne s' w := by
  by_cases hw : q.workload = w
  · -- no run of the workload was active, so the new one is the only one
    have hcleared := ha.cleared
    rw [hforbid hw] at hcleared
    obtain ⟨hnone, rfl⟩ := hcleared.none_of_forbid
    rw [hw] at hnone
    have honly : ∀ x ∈ s'.activeRuns w, x = r := by
      intro x hx
      rcases ha.active_cases hx with ⟨rfl, -⟩ | hx
      · rfl
      · rw [activeRuns_of_active?_none hnone] at hx
        exact absurd hx (by simp)
    intro x hx y hy
    rw [honly x hx, honly y hy]
  · -- the new run is of another workload
    have h₁ : AtMostOne s₁ w := by
      rcases ha.cleared.changes with rfl | hchange
      · exact h
      · exact h.changes hchange
    have hold : ∀ x ∈ s'.activeRuns w, x ∈ s₁.activeRuns w := fun x hx =>
      (ha.active_cases hx).resolve_left fun hnew => hw hnew.2
    intro x hx y hy
    exact h₁ x (hold x hx) y (hold y hy)

theorem AtMostOne.apply {w : WorkloadKey} (h : AtMostOne s w) {c : RunCall}
    (hforbid : c.Forbids w) : AtMostOne (c.apply s) w := by
  unfold RunCall.apply
  split
  · rename_i s' hrun
    rcases run_eq_ok hrun with rfl | hchange | ⟨_, _, _, _, _, _, _, s₁, r, e, rfl, ha⟩
    · exact h
    · exact h.changes hchange
    · exact h.accepted ha hforbid
  · exact h

/-- **Without overlap**: when every acceptance for a workload forbids it. -/
theorem AtMostOne.runCalls {w : WorkloadKey} (h : AtMostOne s w) {calls : List RunCall}
    (hforbid : ∀ c ∈ calls, c.Forbids w) : AtMostOne (s.runCalls calls) w := by
  induction calls generalizing s with
  | nil => exact h
  | cons c calls ih =>
      exact ih (h.apply (hforbid c (by simp))) fun c' hc' => hforbid c' (by simp [hc'])

/-! ### The state machine -/

/-- A claim raises the token of the run above all the tokens it had. -/
theorem acquireRun_token {owner : String} {lease : Int} {clock : Nat → Int}
    {eventId : EntityId .event} {r r' : WorkloadRun} (hfollows : Follows s s')
    {s₁ : RunStore} (h : s'.acquireRun owner lease clock eventId = .ok (s₁, some r'))
    (hrunning : r'.state = .running) (hr : s.runs.get? r'.runId = some r) :
    r.fencingToken < r'.fencingToken := by
  rcases acquireRun_eq_ok h with ⟨hnone, -⟩ | ⟨row, row', t, e, hsome, hfound, -, hc, ht, hstate, -⟩
  · exact absurd hnone (by simp)
  · obtain rfl := Option.some.inj hsome
    rcases ht with rfl | ⟨-, htoken, -⟩
    · rw [hstate] at hrunning
      exact absurd hrunning (by decide)
    · obtain ⟨row₁, hrow₁, hkept⟩ := hfollows.kept hr
      rw [hc.kept.runId, hfound] at hrow₁
      obtain rfl := Option.some.inj hrow₁
      have hle := hkept.token
      omega

/-- The run of a key. -/
theorem acceptRun_keyed {actor : Actor} {q : RunRequest} {key : String}
    {policy : ConcurrencyPolicy} {clock : Nat → Int} {runId : String}
    {eventId : Nat → EntityId .event}
    (h : s.acceptRun actor q key policy clock runId eventId = .ok (s', r)) :
    r ∈ s'.runs.rows ∧ r.actorId = actor.actorId ∧ r.idempotencyKeyDigest = digestText key := by
  rcases acceptRun_eq_ok h with ⟨hkey, rfl⟩ | ⟨-, s₁, e, ha⟩
  · have hfound := List.find?_some hkey
    exact ⟨List.mem_of_find?_eq_some hkey, of_decide_eq_true hfound⟩
  · refine ⟨?_, ha.actor, ha.digest⟩
    rw [ha.logged.runs]
    exact Table.mem_put.mpr (Or.inl rfl)

/-- **The state machine of workload runs.** Along every interleaving of calls: a terminal run
stays as it is; every claim of a run raises its token; a token below the current one neither
renews nor completes the run; the events of a run are numbered without gaps, and those of a
terminal run end with its state, with the lease cleared; a key names one run; and a workload
whose acceptances all forbid overlap has at most one run that is not terminal. -/
theorem runs_state_machine (calls later : List RunCall) :
    let s := RunStore.empty.runCalls calls
    let s' := s.runCalls later
    (∀ id r, s.runs.get? id = some r → r.state.terminal = true → s'.runs.get? id = some r) ∧
    (∀ id r, s.runs.get? id = some r → ∀ owner lease clock eventId s₁ r',
      s'.acquireRun owner lease clock eventId = .ok (s₁, some r') → r'.runId = id →
      r'.state = .running → r.fencingToken < r'.fencingToken) ∧
    (∀ id r, s.runs.get? id = some r → ∀ owner (token : Int), token < r.fencingToken →
      (∀ lease clock s₁ b, s'.renewRunLease id owner token lease clock = .ok (s₁, b) →
        b = false ∧ s₁ = s') ∧
      ∀ state result exitCode exitReason clock eventId, RunCall.apply s'
        (.completeRun id owner token state result exitCode exitReason clock eventId) = s') ∧
    (∀ id, (s'.runEvents id).map (·.sequence) = List.range' 1 (s'.runEvents id).length) ∧
    (∀ r ∈ s'.runs.rows, r.state.terminal = true →
      r.leaseOwner = none ∧ r.leaseExpires = none ∧
        (s'.runEvents r.runId).getLast?.map (·.payload.eventType) = some (.reached r.state)) ∧
    (∀ actor q key policy clock runId eventId s₁ r,
      s.acceptRun actor q key policy clock runId eventId = .ok (s₁, r) →
      ∃ r' ∈ (s₁.runCalls later).runs.rows, r'.runId = r.runId ∧
        ∀ x ∈ (s₁.runCalls later).runs.rows, x.actorId = actor.actorId →
          x.idempotencyKeyDigest = digestText key → x = r') ∧
    (∀ w, (∀ c ∈ calls ++ later, c.Forbids w) →
      ∀ r ∈ s'.activeRuns w, ∀ r' ∈ s'.activeRuns w, r = r') := by
  intro s s'
  have hfollows : Follows s s' := (movesTo_runCalls s later).follows
  have hsound : Sound s := Sound.runCalls calls
  have hsound' : Sound s' := hsound.movesTo (movesTo_runCalls s later)
  refine ⟨fun id r hr hterminal => hfollows.settled hr hterminal, ?_, ?_, hsound'.contiguous,
    ?_, ?_, ?_⟩
  · intro id r hr owner lease clock eventId s₁ r' hacquire hid hrunning
    subst hid
    exact acquireRun_token hfollows hacquire hrunning hr
  · intro id r hr owner token hold
    obtain ⟨r', hr', hkept⟩ := hfollows.kept hr
    have hold' : token < r'.fencingToken := by
      have hle := hkept.token
      omega
    exact ⟨fun lease clock s₁ b h => renewRunLease_superseded hr' hold' h,
      fun state result exitCode exitReason clock eventId =>
        completeRun_superseded hr' hold' state result exitCode exitReason clock eventId⟩
  · intro r hr hterminal
    obtain ⟨howner, hexpires, hlast⟩ := hsound'.ended r hr hterminal
    exact ⟨howner, hexpires, hlast⟩
  · intro actor q key policy clock runId eventId s₁ r haccept
    have hrun : (RunCall.acceptRun actor q key policy clock runId eventId).run s = .ok s₁ := by
      rw [RunCall.run, haccept]
      rfl
    have hmoves := (movesTo_run hrun).trans (movesTo_runCalls s₁ later)
    obtain ⟨hmem, hactor, hdigest⟩ := acceptRun_keyed haccept
    obtain ⟨r', hr', hkept⟩ :=
      (movesTo_runCalls s₁ later).follows.kept (Table.get?_of_mem hmem)
    have hmem' := Table.mem_of_get? hr'
    refine ⟨r', hmem', hkept.runId, ?_⟩
    intro x hx hxactor hxdigest
    refine (hsound.movesTo hmoves).keys x hx r' hmem' ?_ ?_
    · rw [hxactor, hkept.actorId, hactor]
    · rw [hxdigest, hkept.key, hdigest]
  · intro w hforbid
    have hempty : AtMostOne RunStore.empty w := by
      intro x hx
      exact absurd (mem_activeRuns.mp hx).1 (by simp [RunStore.empty])
    have hbefore : AtMostOne s w :=
      hempty.runCalls fun c hc => hforbid c (List.mem_append_left later hc)
    exact hbefore.runCalls fun c hc => hforbid c (List.mem_append_right calls hc)

end RunStore

end Ophelia
