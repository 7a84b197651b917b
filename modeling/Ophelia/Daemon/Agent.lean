import Ophelia.Journal.Integrity
import Mathlib.Algebra.Group.Int.Defs

/-!
# Ophelia.Daemon.Agent

The durable command queue of the outbound agent (`daemon/agent_store.py`). Commands arrive
from the control plane under consecutive sequence numbers, are executed, and their results
are delivered until the control plane acknowledges them.

A store belongs to one host: `register_host` refuses a second identity before the agent is
registered. A call is one transaction, so it is a function from a store to a `Result`; a
rejected call, and a crash before the commit, changes nothing.
-/

namespace Ophelia

/-! ### Rows -/

inductive CommandState where
  | accepted
  | running
  | succeeded
  | failed
deriving DecidableEq, Repr

def CommandState.terminal : CommandState → Bool
  | accepted | running => false
  | succeeded | failed => true

/-- A row of `agent_commands`. -/
structure AgentCommand [Platform] where
  commandId : String
  sequence : Nat
  operation : String
  actorId : String
  idempotencyKeyDigest : Digest
  envelopeDigest : Digest
  requestDigest : Digest
  payloadJson : String
  state : CommandState
  acceptedAt : Utc
  startedAt : Option Utc
  completedAt : Option Utc
  resultDigest : Option Digest
  resultJson : Option String

/-- The queue and the acknowledgement of its host. -/
structure AgentStore [Platform] where
  hostId : String
  acknowledged : Nat
  commands : Table AgentCommand.commandId

/-- `_COMMAND_ID`. -/
def isCommandId (cs : List Char) : Bool :=
  let tag := "command_".toList
  let tail := cs.drop tag.length
  tag.isPrefixOf cs && (1 ≤ tail.length && tail.length ≤ 247) &&
    tail.all fun c => c.isAlphanum || c = '_' || c = '-'

/-- What SQLite stores as an integer. -/
def sqliteInteger (n : Int) : Result Unit :=
  ensure (-2 ^ 63 ≤ n ∧ n < 2 ^ 63)
    (.overflowError "Python int too large to convert to SQLite INTEGER")

/-- `LIMIT ?`: a negative limit is none. -/
def sqlLimit {α : Type} (limit : Int) (rows : List α) : List α :=
  if limit < 0 then rows else rows.take limit.toNat

namespace AgentStore

variable [Platform]

/-- The store of a host after `register`. -/
def register (hostId : String) : AgentStore := ⟨hostId, 0, .empty⟩

/-! ### Acceptance -/

/-- A command as it is accepted. -/
structure Command where
  commandId : String
  sequence : Int
  operation : String
  actorId : String
  idempotencyKey : String
  envelopeDigest : String
  payload : Json

/-- The checks on a command, in order. -/
def Command.validate (q : Command) : Result Digest := do
  ensure (isCommandId q.commandId.toList = true) (.valueError "Agent command id is invalid.")
  ensure (1 ≤ q.sequence) (.valueError "Agent command sequence must be a positive integer.")
  ensure (q.operation ≠ "" ∧ q.operation.toList.length ≤ 128)
    (.valueError "Agent command operation is invalid.")
  ensure ("actor_".toList.isPrefixOf q.actorId.toList = true)
    (.valueError "Agent command actor is invalid.")
  ensure (q.idempotencyKey ≠ "" ∧ q.idempotencyKey.toList.length ≤ 255)
    (.valueError "Agent command idempotency key is invalid.")
  ensure ((match q.payload with | .obj _ => true | _ => false) = true)
    (.valueError "Agent command payload must be an object.")
  if ok : isSha256 q.envelopeDigest.toList = true then return ⟨q.envelopeDigest, ok⟩
  else throw (.valueError "Agent command envelope digest is invalid.")

/-- The content a command is bound to. -/
def Command.normalized (q : Command) : Json :=
  .obj [("schema_version", .int 1), ("kind", .str "ophelia.agent-command"),
    ("command_id", .str q.commandId), ("sequence", .int q.sequence),
    ("operation", .str q.operation), ("actor_id", .str q.actorId),
    ("envelope_digest", .str q.envelopeDigest), ("payload", q.payload)]

def Command.requestDigest (q : Command) : Digest :=
  digestText (canonicalJson q.normalized)

/-- `SELECT * FROM agent_commands WHERE command_id = ? OR sequence = ?`. -/
def existing? (s : AgentStore) (q : Command) : Option AgentCommand :=
  s.commands.rows.find? fun c => c.commandId = q.commandId ∨ (c.sequence : Int) = q.sequence

/-- `SELECT COALESCE(MAX(sequence), 0) FROM agent_commands`. -/
def maximum (s : AgentStore) : Nat :=
  (s.commands.rows.map (·.sequence)).foldr max 0

/-- `accept`. Neither the id nor the sequence of a new row is taken, or `existing?` had
found it. -/
def accept (s : AgentStore) (q : Command) (clock : Int) : Result (AgentStore × AgentCommand) := do
  let envelopeDigest ← q.validate
  let payloadJson ← boundedJson (canonicalJson q.payload)
  let keyDigest := digestText q.idempotencyKey
  sqliteInteger q.sequence
  match s.existing? q with
  | some existing =>
      ensure (existing.commandId = q.commandId ∧ (existing.sequence : Int) = q.sequence ∧
          existing.requestDigest = q.requestDigest ∧ existing.idempotencyKeyDigest = keyDigest)
        (.idempotencyConflict "Agent command identity was replayed with different content.")
      return (s, existing)
  | none =>
      let expected := max s.maximum s.acknowledged + 1
      ensure (q.sequence = expected)
        (.operationConflict "Agent command sequence is not the next durable sequence.")
      let acceptedAt ← timestamp clock
      let row : AgentCommand :=
        { commandId := q.commandId, sequence := expected, operation := q.operation,
          actorId := q.actorId, idempotencyKeyDigest := keyDigest, envelopeDigest,
          requestDigest := q.requestDigest, payloadJson, state := .accepted, acceptedAt,
          startedAt := none, completedAt := none, resultDigest := none, resultJson := none }
      return ({ s with commands := s.commands.put row }, row)

/-! ### Execution -/

/-- `pending`: the commands that are not terminal, `ORDER BY sequence LIMIT ?`. -/
def pending (s : AgentStore) (limit : Int) : Result (List AgentCommand) := do
  ensure (1 ≤ limit ∧ limit ≤ 1000)
    (.valueError "Agent command limit must be from 1 through 1000.")
  return sqlLimit limit
    (orderBy (·.sequence) (s.commands.rows.filter fun c => c.state.terminal = false))

/-- `mark_running`. -/
def markRunning (s : AgentStore) (commandId : String) (clock : Int) :
    Result (AgentStore × AgentCommand) :=
  match s.commands.get? commandId with
  | none => .error (.keyError commandId)
  | some row =>
      if row.state.terminal then .ok (s, row)
      else do
        let startedAt ← row.startedAt.elim (timestamp clock) .ok
        let running := { row with state := .running, startedAt := some startedAt }
        return ({ s with commands := s.commands.put running }, running)

/-- `complete`. -/
def complete (s : AgentStore) (commandId : String) (succeeded : Bool) (result : Json)
    (clock : Int) : Result (AgentStore × AgentCommand) := do
  let resultJson ← boundedJson (canonicalJson result)
  let resultDigest := digestText (canonicalJson result)
  let state := if succeeded then CommandState.succeeded else .failed
  match s.commands.get? commandId with
  | none => throw (.keyError commandId)
  | some row =>
      if row.state.terminal then
        ensure (row.state = state ∧ row.resultDigest = some resultDigest ∧
            row.resultJson = some resultJson)
          (.idempotencyConflict "Terminal agent command result cannot be replaced.")
        return (s, row)
      else
        let completedAt ← timestamp clock
        let completed := { row with
          state, completedAt := some completedAt, resultDigest := some resultDigest,
          resultJson := some resultJson }
        return ({ s with commands := s.commands.put completed }, completed)

/-! ### Delivery -/

/-- `pending_results`: the results from the acknowledged one on, up to the first command that
is not terminal. -/
def pendingResults (s : AgentStore) (hostId : String) (limit : Int) :
    Result (List AgentCommand) := do
  ensure (hostId = s.hostId) (.keyError hostId)
  sqliteInteger limit
  let rows := sqlLimit limit
    (orderBy (·.sequence) (s.commands.rows.filter fun c => s.acknowledged < c.sequence))
  return rows.takeWhile (·.state.terminal)

/-- `acknowledge_results`. -/
def acknowledgeResults (s : AgentStore) (hostId : String) (sequence : Int) (clock : Int) :
    Result (AgentStore × Nat) := do
  ensure (0 ≤ sequence) (.valueError "Acknowledged command sequence must be non-negative.")
  ensure (hostId = s.hostId) (.keyError hostId)
  if sequence ≤ s.acknowledged then return (s, s.acknowledged)
  else
    sqliteInteger sequence
    ensure (∀ c ∈ s.commands.rows, (c.sequence : Int) ≤ sequence → c.state.terminal = true)
      (.operationConflict "Command acknowledgement crosses a nonterminal durable command.")
    let _ ← timestamp clock
    return ({ s with acknowledged := sequence.toNat }, sequence.toNat)

end AgentStore

/-- A call of the store, with the clock sample it gets. -/
inductive AgentCall where
  | accept (q : AgentStore.Command) (clock : Int)
  | markRunning (commandId : String) (clock : Int)
  | complete (commandId : String) (succeeded : Bool) (result : Json) (clock : Int)
  | acknowledgeResults (hostId : String) (sequence : Int) (clock : Int)
  | pendingResults (hostId : String) (limit : Int)

namespace AgentCall

variable [Platform]

/-- The store a call leaves when it succeeds. -/
def run (s : AgentStore) : AgentCall → Result AgentStore
  | accept q clock => (s.accept q clock).map Prod.fst
  | markRunning commandId clock => (s.markRunning commandId clock).map Prod.fst
  | complete commandId succeeded result clock =>
      (s.complete commandId succeeded result clock).map Prod.fst
  | acknowledgeResults hostId sequence clock =>
      (s.acknowledgeResults hostId sequence clock).map Prod.fst
  | pendingResults hostId limit => (s.pendingResults hostId limit).map fun _ => s

/-- One transaction: committed, or rolled back. -/
def apply (s : AgentStore) (c : AgentCall) : AgentStore :=
  match c.run s with
  | .ok s' => s'
  | .error _ => s

end AgentCall

/-- A sequence of calls, in the order they are serialized. A crash falls between two of
them. -/
def AgentStore.runCalls [Platform] (s : AgentStore) (calls : List AgentCall) : AgentStore :=
  calls.foldl AgentCall.apply s

end Ophelia
