import Ophelia.Daemon.RunsSound
import Ophelia.Domain.Canonical
import Ophelia.Journal.Calls
import Ophelia.Lib.Feed

/-!
# Ophelia.Daemon.HostEvents

The host event stream and its delivery. The operation journal and the workload runs write
into one table of host events, in the order in which their transactions commit; a consumer
reads batches behind the cursor it has acknowledged (`host_events_after`) and acknowledges
what it has received.

A `HostStore` is the whole database as far as the stream goes: the journal, whose host events
are those of both writers, and the tables of the runs. Every row that is read is verified
against the table it was written with, so the point of the invariant (`HostStore.Sound`) is
that this verification never fails; what a consumer sees is then the feed of `Lib.Feed`.
-/

namespace Ophelia

variable [Platform]

/-! ### The store -/

/-- The journal and the workload runs of one database. -/
structure HostStore where
  journal : Journal
  runs : Table WorkloadRun.runId
  runEvents : Table fun e : RunEvent => (e.runId, e.sequence)

/-- An entry of the stream as a consumer gets it. -/
structure HostEvent where
  cursor : Nat
  eventId : EntityId .event
  eventType : HostEventType
  operationId : Option (EntityId .operation)
  workloadRunId : Option String
  eventDigest : Digest
  occurredAt : Utc
  payload : Json

/-- The row an entry was read from. -/
def HostEvent.row (e : HostEvent) : HostEventRow :=
  { cursor := e.cursor, eventId := e.eventId, eventType := e.eventType,
    operationId := e.operationId, workloadRunId := e.workloadRunId, eventDigest := e.eventDigest,
    occurredAt := e.occurredAt, payloadJson := canonicalJson e.payload }

namespace HostStore

/-- A freshly migrated database. -/
def fresh : HostStore := ⟨.fresh, .empty, .empty⟩

/-- The tables of the runs, with the stream they write into. -/
def runStore (h : HostStore) : RunStore :=
  ⟨h.runs, h.runEvents, h.journal.hostEvents⟩

def withRuns (h : HostStore) (s : RunStore) : HostStore :=
  ⟨{ h.journal with hostEvents := s.hostEvents }, s.runs, s.events⟩

/-- A workload entry agrees with the event of its run. -/
def workloadReconciles (h : HostStore) (row : HostEventRow) : Bool :=
  match h.runEvents.rows.find? fun e => e.eventId = row.eventId with
  | none => false
  | some e => row.workloadRunId = some e.runId ∧ e.eventDigest = row.eventDigest ∧
      canonicalJson e.payload.toJson = row.payloadJson

/-- The checks on one row of a batch. -/
def readHostEvent (h : HostStore) (row : HostEventRow) : Result HostEvent := do
  ensure (row.eventType = .workload → h.workloadReconciles row = true)
    (.integrity "Host workload event does not reconcile.")
  let payload ← (jsonLoads row.payloadJson).mapError fun _ =>
    .integrity "Host event payload is malformed."
  ensure (canonicalJson payload = row.payloadJson ∧
      digestText (canonicalJson payload) = row.eventDigest)
    (.integrity "Host event payload failed digest validation.")
  return { cursor := row.cursor, eventId := row.eventId, eventType := row.eventType,
           operationId := row.operationId, workloadRunId := row.workloadRunId,
           eventDigest := row.eventDigest, occurredAt := row.occurredAt, payload }

/-- `SELECT … FROM host_events WHERE cursor > ? ORDER BY cursor LIMIT ?`. -/
def rowsAfter (h : HostStore) (cursor : Int) (limit : Nat) : List HostEventRow :=
  (orderBy (·.cursor) (h.journal.hostEvents.rows.filter fun r => cursor < r.cursor)).take limit

/-- `host_events_after`. -/
def hostEventsAfter (h : HostStore) (cursor limit : Int) : Result (List HostEvent) := do
  ensure (0 ≤ cursor) (.contractValidation "cursor must be a non-negative integer.")
  ensure (1 ≤ limit ∧ limit ≤ 1000)
    (.contractValidation "limit must be an integer from 1 through 1000.")
  let rows := h.rowsAfter cursor limit.toNat
  (rows.filterMap (·.operationId)).dedup.forM fun id => do
    let _ ← h.journal.verifiedEvents id
  rows.mapM h.readHostEvent

/-- `host_event_acknowledgement`. -/
def acknowledged (h : HostStore) (consumer : Text 2048) : Nat :=
  (h.journal.eventDelivery.get? consumer).elim 0 (·.acknowledgedCursor)

end HostStore

/-! ### A consumer -/

/-- The acknowledgements of one consumer. -/
def Call.acknowledgesFor (consumer : Text 2048) : Call → Bool
  | .acknowledgeHostEvents consumerId _ _ => consumerId = consumer.val
  | _ => false

/-- What happens around a consumer: calls of the journal and of the runs by anybody, a batch
that the consumer reads, and an acknowledgement that it sends. The acknowledgements of the
consumer are its own. -/
inductive DeliveryStep (consumer : Text 2048) where
  | call (c : Call) (foreign : c.acknowledgesFor consumer = false)
  | run (c : RunCall)
  | poll (limit : Int)
  | acknowledge (cursor : Nat) (clock : Option Int)

/-- The database, and what the consumer has received so far, in the order it came. -/
structure Delivery where
  store : HostStore
  received : List HostEvent

namespace Delivery

/-- The consumer has got to a cursor. -/
def reached (d : Delivery) (cursor : Nat) : Bool :=
  d.received.any fun e => cursor ≤ e.cursor

/-- One step. A consumer reads behind the cursor that is recorded for it; it acknowledges
nothing it has not got to. A call that is refused changes nothing. -/
def step (consumer : Text 2048) (d : Delivery) : DeliveryStep consumer → Delivery
  | .call c _ => { d with store := { d.store with journal := c.apply d.store.journal } }
  | .run c => { d with store := d.store.withRuns (c.apply d.store.runStore) }
  | .poll limit =>
      match d.store.hostEventsAfter (d.store.acknowledged consumer) limit with
      | .ok batch => { d with received := d.received ++ batch }
      | .error _ => d
  | .acknowledge cursor clock =>
      if d.reached cursor = true then
        { d with store := { d.store with journal :=
            (Call.acknowledgeHostEvents consumer.val cursor clock).apply d.store.journal } }
      else d

/-- The state after a run of steps, from a fresh database on. -/
def after (consumer : Text 2048) (steps : List (DeliveryStep consumer)) : Delivery :=
  steps.foldl (step consumer) ⟨.fresh, []⟩

end Delivery

end Ophelia
