import Ophelia.Journal.Integrity

/-!
# Ophelia.Daemon.Runs

The workload runs of the daemon (`daemon/store.py`): one-shot executions of a workload of
the active revision, accepted under an idempotency key and a concurrency policy, leased to
a runner under a fencing token, and completed or cancelled. Every change of a run is an
event in the chain of the run, mirrored into the host event stream.

The three tables of the store are kept as typed rows. A call is one transaction, so it is a
function from a store to a `Result`; a rejected call changes nothing.
-/

namespace Ophelia

/-! ### Rows -/

inductive RunState where
  | accepted
  | running
  | succeeded
  | failed
  | cancelled
deriving DecidableEq, Repr

namespace RunState

def value : RunState → String
  | accepted => "accepted"
  | running => "running"
  | succeeded => "succeeded"
  | failed => "failed"
  | cancelled => "cancelled"

def terminal : RunState → Bool
  | accepted | running => false
  | _ => true

end RunState

/-- What to do about a run that is still active. -/
inductive ConcurrencyPolicy where
  | forbid
  | replace
  | allow
deriving DecidableEq, Repr

/-- A workload of an application environment on a host. -/
structure WorkloadKey where
  hostId : String
  app : String
  environment : String
  workloadName : String
deriving DecidableEq

/-- A row of `workload_runs`. -/
structure WorkloadRun [Platform] where
  runId : String
  actorId : EntityId .actor
  idempotencyKeyDigest : Digest
  workload : WorkloadKey
  revisionId : String
  revisionDigest : String
  workloadKind : String
  triggerKind : String
  state : RunState
  requestDigest : Digest
  requestJson : String
  acceptedAt : Utc
  startedAt : Option Utc
  completedAt : Option Utc
  cancellationRequestedAt : Option Utc
  leaseOwner : Option String
  leaseExpires : Option Int
  fencingToken : Nat
  resultDigest : Option String
  exitCode : Option Int
  exitReason : Option String
deriving DecidableEq

/-- The type of an event: a state the run has reached, or a request to cancel it. -/
inductive RunEventType where
  | reached (state : RunState)
  | cancellationRequested
deriving DecidableEq, Repr

def RunEventType.value : RunEventType → String
  | reached state => state.value
  | cancellationRequested => "cancellation_requested"

/-- The payload of an event, chained to its predecessor by digest. -/
structure RunEventPayload [Platform] where
  runId : String
  sequence : Nat
  eventType : RunEventType
  occurredAt : Utc
  previousEventDigest : Option Digest
  detail : Json

def RunEventPayload.toJson [Platform] (p : RunEventPayload) : Json :=
  .obj [("schema_version", .int 1), ("kind", .str "ophelia.workload-run-event"),
    ("run_id", .str p.runId), ("sequence", .int p.sequence),
    ("event_type", .str p.eventType.value), ("occurred_at", .str p.occurredAt.val),
    ("previous_event_digest", p.previousEventDigest.elim .null fun d => .str d.val),
    ("detail", p.detail)]

/-- A row of `workload_run_events`, with its payload before it is printed. -/
structure RunEvent [Platform] where
  runId : String
  sequence : Nat
  eventId : EntityId .event
  eventDigest : Digest
  payload : RunEventPayload

/-- The tables of the store. -/
structure RunStore [Platform] where
  runs : Table WorkloadRun.runId
  events : Table fun e : RunEvent => (e.runId, e.sequence)
  hostEvents : Table HostEventRow.cursor

namespace RunStore

variable [Platform]

def empty : RunStore := ⟨.empty, .empty, .empty⟩

/-! ### Queries -/

/-- The events of a run, `ORDER BY sequence`. -/
def runEvents (s : RunStore) (runId : String) : List RunEvent :=
  s.events.log (·.runId) (·.sequence) runId

/-- The runs of a workload that are not terminal. -/
def activeRuns (s : RunStore) (w : WorkloadKey) : List WorkloadRun :=
  s.runs.rows.filter fun r => r.workload = w ∧ r.state.terminal = false

/-- `… ORDER BY accepted_at LIMIT 1`: the active run `accept_run` looks at. -/
def active? (s : RunStore) (w : WorkloadKey) : Option WorkloadRun :=
  (orderBy (·.acceptedAt.val) (s.activeRuns w)).head?

/-- The lease of a run is free or has lapsed. -/
def lapsed (now : Int) (r : WorkloadRun) : Bool :=
  r.leaseOwner.isNone || r.leaseExpires.any (· ≤ now)

/-- `… ORDER BY accepted_at, run_id LIMIT 1`: the run `acquire_run` takes. -/
def available? (s : RunStore) (now : Int) : Option WorkloadRun :=
  (orderBy (fun r => toLex (r.acceptedAt.val, r.runId))
    (s.runs.rows.filter fun r => r.state.terminal = false ∧ lapsed now r = true)).head?

/-- The run of an actor under an idempotency key. -/
def keyed? (s : RunStore) (actorId : EntityId .actor) (keyDigest : Digest) :
    Option WorkloadRun :=
  s.runs.rows.find? fun r => r.actorId = actorId ∧ r.idempotencyKeyDigest = keyDigest

/-! ### Events -/

/-- `_append_run_event`. -/
def appendRunEvent (s : RunStore) (runId : String) (eventType : RunEventType) (detail : Json)
    (clock : Int) (eventId : EntityId .event) : Result RunStore := do
  let previous := (s.runEvents runId).getLast?
  let sequence := previous.elim 1 (·.sequence + 1)
  let occurredAt ← timestamp clock
  let payload : RunEventPayload :=
    { runId, sequence, eventType, occurredAt,
      previousEventDigest := previous.map (·.eventDigest), detail }
  let payloadJson := canonicalJson payload.toJson
  ensure (payloadJson.toList.length ≤ 65536)
    (.valueError "Workload-run event exceeds its storage bound.")
  let eventDigest := digestText payloadJson
  ensure (∀ e ∈ s.events.rows, e.eventId ≠ eventId)
    (.sqliteIntegrity "UNIQUE constraint failed: workload_run_events.event_id")
  let events ← insertRow s.events { runId, sequence, eventId, eventDigest, payload }
    "workload_run_events"
  ensure (∀ h ∈ s.hostEvents.rows, h.eventId ≠ eventId)
    (.sqliteIntegrity "UNIQUE constraint failed: host_events.event_id")
  let hostEvents ← insertRow s.hostEvents
    { cursor := (s.hostEvents.rows.map (·.cursor)).foldr max 0 + 1, eventId,
      eventType := .workload, operationId := none, workloadRunId := some runId, eventDigest,
      occurredAt, payloadJson }
    "host_events.cursor"
  return { s with events, hostEvents }

/-- `_request_cancel_tx`. -/
def requestCancelTx (s : RunStore) (row : WorkloadRun) (actor : Actor) (clock : Nat → Int)
    (eventId : EntityId .event) : Result RunStore :=
  if row.cancellationRequestedAt.isSome then .ok s
  else do
    let requestedAt ← timestamp (clock 0)
    let s := { s with runs := s.runs.put { row with cancellationRequestedAt := some requestedAt } }
    s.appendRunEvent row.runId .cancellationRequested
      (.obj [("state", .str row.state.value), ("actor_id", .str actor.actorId.val)])
      (clock 1) eventId

/-- `_complete_tx`. -/
def completeTx (s : RunStore) (row : WorkloadRun) (state : RunState) (resultDigest : String)
    (exitCode : Option Int) (exitReason : String) (clock : Nat → Int)
    (eventId : EntityId .event) : Result (RunStore × WorkloadRun) := do
  let completedAt ← timestamp (clock 0)
  let updated := { row with
    state, completedAt := some completedAt, resultDigest := some resultDigest, exitCode,
    exitReason := some exitReason, leaseOwner := none, leaseExpires := none }
  let s := { s with runs := s.runs.put updated }
  let s ← s.appendRunEvent row.runId (.reached state)
    (.obj [("state", .str state.value), ("result_digest", .str resultDigest),
      ("exit_code", exitCode.elim .null .int), ("exit_reason", .str exitReason)])
    (clock 1) eventId
  return (s, updated)

/-! ### Calls -/

/-- What a run is requested for. -/
structure RunRequest where
  workload : WorkloadKey
  revisionId : String
  revisionDigest : String
  workloadKind : String
  triggerKind : String

def RunRequest.toJson (q : RunRequest) (actor : Actor) : Json :=
  .obj [("schema_version", .int 1), ("kind", .str "ophelia.workload-run-request"),
    ("actor_id", .str actor.actorId.val), ("host_id", .str q.workload.hostId),
    ("app", .str q.workload.app), ("environment", .str q.workload.environment),
    ("revision_id", .str q.revisionId), ("revision_digest", .str q.revisionDigest),
    ("workload_name", .str q.workload.workloadName), ("workload_kind", .str q.workloadKind),
    ("trigger_kind", .str q.triggerKind)]

/-- The policy's part of `accept_run`: refuse an overlap, or ask the active run to stop. -/
def applyPolicy (s : RunStore) (active : Option WorkloadRun) (policy : ConcurrencyPolicy)
    (actor : Actor) (clock : Nat → Int) (eventId : EntityId .event) : Result RunStore :=
  match active, policy with
  | some _, .forbid =>
      .error (.operationConflict
        "A workload run is already active and its concurrency policy forbids overlap.")
  | some row, .replace => s.requestCancelTx row actor clock eventId
  | _, _ => .ok s

/-- `accept_run`. -/
def acceptRun (s : RunStore) (actor : Actor) (q : RunRequest) (idempotencyKey : String)
    (policy : ConcurrencyPolicy) (clock : Nat → Int) (runId : String)
    (eventId : Nat → EntityId .event) : Result (RunStore × WorkloadRun) := do
  let request := q.toJson actor
  let requestDigest := digestText (canonicalJson request)
  let keyDigest := digestText idempotencyKey
  let acceptedAt ← timestamp (clock 0)
  match s.keyed? actor.actorId keyDigest with
  | some existing =>
      ensure (existing.requestDigest = requestDigest)
        (.idempotencyConflict "Workload-run idempotency key identifies different intent.")
      return (s, existing)
  | none =>
      let s ← s.applyPolicy (s.active? q.workload) policy actor (fun n => clock (n + 1)) (eventId 0)
      let requestJson ← boundedJson (canonicalJson request)
      let row : WorkloadRun :=
        { runId, actorId := actor.actorId, idempotencyKeyDigest := keyDigest,
          workload := q.workload, revisionId := q.revisionId,
          revisionDigest := q.revisionDigest, workloadKind := q.workloadKind,
          triggerKind := q.triggerKind, state := .accepted, requestDigest, requestJson,
          acceptedAt, startedAt := none, completedAt := none,
          cancellationRequestedAt := none, leaseOwner := none, leaseExpires := none,
          fencingToken := 0, resultDigest := none, exitCode := none, exitReason := none }
      let runs ← insertRow s.runs row "workload_runs.run_id"
      let s ← { s with runs }.appendRunEvent runId (.reached .accepted)
        (.obj [("state", .str "accepted"), ("actor_id", .str actor.actorId.val)])
        (clock 3) (eventId 1)
      return (s, row)

/-- The result of a run that is cancelled before it starts. -/
def cancelledDigest : String :=
  (digestText (canonicalJson (.obj [("cancelled", .bool true)]))).val

/-- `acquire_run`. The lease is taken for `leaseSeconds`, from the first clock sample on. -/
def acquireRun (s : RunStore) (ownerId : String) (leaseSeconds : Int) (clock : Nat → Int)
    (eventId : EntityId .event) : Result (RunStore × Option WorkloadRun) :=
  match s.available? (clock 0) with
  | none => .ok (s, none)
  | some row =>
      if row.cancellationRequestedAt.isSome ∧ row.state = .accepted then do
        let (s, updated) ← s.completeTx row .cancelled cancelledDigest none "cancelled"
          (fun n => clock (n + 1)) eventId
        return (s, some updated)
      else do
        let token := row.fencingToken + 1
        let startedAt ← row.startedAt.elim (timestamp (clock 1)) .ok
        let claimed := { row with
          state := .running, startedAt := some startedAt, leaseOwner := some ownerId,
          leaseExpires := some (Platform.addSeconds (clock 0) leaseSeconds),
          fencingToken := token }
        let s := { s with runs := s.runs.put claimed }
        let s ← s.appendRunEvent row.runId (.reached .running)
          (.obj [("state", .str "running"), ("fencing_token", .int token)]) (clock 2) eventId
        return (s, some claimed)

/-- `complete_run`. -/
def completeRun (s : RunStore) (runId ownerId : String) (fencingToken : Int) (state : RunState)
    (resultDigest : String) (exitCode : Option Int) (exitReason : String) (clock : Nat → Int)
    (eventId : EntityId .event) : Result (RunStore × WorkloadRun) := do
  ensure (state.terminal = true) (.valueError "Terminal workload-run state is invalid.")
  match s.runs.get? runId with
  | none => throw (.keyError runId)
  | some row =>
      if row.state.terminal then return (s, row)
      else
        ensure (row.leaseOwner = some ownerId ∧ (row.fencingToken : Int) = fencingToken)
          (.operationConflict "Workload-run execution fence is stale.")
        s.completeTx row state resultDigest exitCode exitReason clock eventId

/-- `renew_run_lease`: whether the lease was still the caller's. -/
def renewRunLease (s : RunStore) (runId ownerId : String) (fencingToken leaseSeconds : Int)
    (clock : Int) : Result (RunStore × Bool) := do
  ensure (0 < leaseSeconds ∧ leaseSeconds ≤ 3600 * Platform.second)
    (.valueError
      "Workload-run lease must be greater than zero and at most 3600 seconds.")
  match s.runs.get? runId with
  | none => return (s, false)
  | some row =>
      if row.state = .running ∧ row.leaseOwner = some ownerId ∧
          (row.fencingToken : Int) = fencingToken then
        let renewed := { row with
          leaseExpires := some (Platform.addSeconds clock leaseSeconds) }
        return ({ s with runs := s.runs.put renewed }, true)
      else return (s, false)

/-- `request_cancellation`. -/
def requestCancellation (s : RunStore) (runId : String) (actor : Actor) (clock : Nat → Int)
    (eventId : EntityId .event) : Result (RunStore × Unit) :=
  match s.runs.get? runId with
  | none => .error (.keyError runId)
  | some row =>
      if row.state.terminal then .ok (s, ())
      else do
        let s ← s.requestCancelTx row actor clock eventId
        return (s, ())

end RunStore

/-- A call of the store, with the clock samples and the fresh identifiers it gets. -/
inductive RunCall [Platform] where
  | acceptRun (actor : Actor) (q : RunStore.RunRequest) (idempotencyKey : String)
      (policy : ConcurrencyPolicy) (clock : Nat → Int) (runId : String)
      (eventId : Nat → EntityId .event)
  | acquireRun (ownerId : String) (leaseSeconds : Int) (clock : Nat → Int)
      (eventId : EntityId .event)
  | completeRun (runId ownerId : String) (fencingToken : Int) (state : RunState)
      (resultDigest : String) (exitCode : Option Int) (exitReason : String)
      (clock : Nat → Int) (eventId : EntityId .event)
  | renewRunLease (runId ownerId : String) (fencingToken leaseSeconds : Int) (clock : Int)
  | requestCancellation (runId : String) (actor : Actor) (clock : Nat → Int)
      (eventId : EntityId .event)

namespace RunCall

variable [Platform]

/-- The store a call leaves when it succeeds. -/
def run (s : RunStore) : RunCall → Result RunStore
  | acceptRun actor q key policy clock runId eventId =>
      (s.acceptRun actor q key policy clock runId eventId).map Prod.fst
  | acquireRun owner lease clock eventId => (s.acquireRun owner lease clock eventId).map Prod.fst
  | completeRun runId owner token state result exitCode exitReason clock eventId =>
      (s.completeRun runId owner token state result exitCode exitReason clock eventId).map Prod.fst
  | renewRunLease runId owner token lease clock =>
      (s.renewRunLease runId owner token lease clock).map Prod.fst
  | requestCancellation runId actor clock eventId =>
      (s.requestCancellation runId actor clock eventId).map Prod.fst

/-- One transaction: committed, or rolled back. -/
def apply (s : RunStore) (c : RunCall) : RunStore :=
  match c.run s with
  | .ok s' => s'
  | .error _ => s

end RunCall

/-- A sequence of calls by any clients, in the order they are serialized. -/
def RunStore.runCalls [Platform] (s : RunStore) (calls : List RunCall) : RunStore :=
  calls.foldl RunCall.apply s

end Ophelia
