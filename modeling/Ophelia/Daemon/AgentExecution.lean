import Ophelia.Daemon.AgentSound
import Ophelia.Domain.Sizes
import Ophelia.Domain.Reference
import Mathlib.Data.Finset.Card

/-!
# Ophelia.Daemon.AgentExecution

The execution of queued commands (`OutboundHostAgent._execute_pending`). A pass takes the
commands that are not terminal in the order of their sequences, executes each one and records
its outcome. The record of a command that succeeds is written outside the `try` that catches
its failures, and the journal refuses records over its bound: such a command stays running,
ends the pass, and ends every later pass at the same place.
-/

namespace Ophelia

/-- What `_execute` does with a command: it returns a result, or raises an exception of some
type. -/
inductive Outcome where
  | returned (result : Json)
  | raised (errorType : String)

namespace Outcome

/-- The record of a command that failed. -/
def failedResult (commandId errorType : String) : Json :=
  .obj [("schema_version", .int 1), ("kind", .str "ophelia.agent-command-result"),
    ("command_id", .str commandId), ("status", .str "failed"),
    ("error_code", .str "command_failed"), ("error_type", .str errorType)]

/-- Whether the command succeeded, and what is recorded of it. -/
def record (commandId : String) : Outcome → Bool × Json
  | returned result => (true, result)
  | raised errorType => (false, failedResult commandId errorType)

/-- `value.get(key, default)`, which only an object has. -/
def getMember (value : Json) (key : String) (default : Json) : Result Json :=
  match value with
  | .obj ms => .ok ((ms.lookup key).getD default)
  | _ => .error (.attributeError "object has no attribute 'get'")

/-- `result.get("result", {}).get("restart_required") is True`, asked of a command that
succeeded. -/
def restarts : Outcome → Result Bool
  | raised _ => .ok false
  | returned result => do
      let inner ← getMember result "result" (.obj [])
      let flag ← getMember inner "restart_required" .null
      return match flag with
        | .bool true => true
        | _ => false

/-- The record is within the bound of the journal. -/
def Fits (commandId : String) (o : Outcome) : Prop :=
  (canonicalJson (o.record commandId).2).toList.length ≤ 65536

/-- The record of a failure fits, unless the type of the exception has a very long name. -/
theorem fits_raised {commandId errorType : String} (hid : Json.textWeight commandId ≤ 4000)
    (htype : Json.textWeight errorType ≤ 4000) : (raised errorType).Fits commandId := by
  have hkeys : (["schema_version", "kind", "command_id", "status", "error_code",
      "error_type"].all plainKey) = true := by
    decide +kernel
  simp only [List.all_cons, List.all_nil, Bool.and_eq_true, Bool.and_true] at hkeys
  obtain ⟨h₁, h₂, h₃, h₄, h₅, h₆⟩ := hkeys
  have hplain : plain (failedResult commandId errorType) = true := by
    simp only [failedResult, plain, plainMembers, h₁, h₂, h₃, h₄, h₅, h₆, Bool.and_true]
  have hlabels : Json.textWeight "schema_version" + Json.textWeight "kind" +
      Json.textWeight "ophelia.agent-command-result" + Json.textWeight "command_id" +
      Json.textWeight "status" + Json.textWeight "failed" + Json.textWeight "error_code" +
      Json.textWeight "command_failed" + Json.textWeight "error_type" ≤ 4000 := by decide
  have hone : (Json.intText 1).length = 1 := by decide
  unfold Fits record
  simp only [failedResult] at hplain ⊢
  rw [canonicalJson_of_plain hplain]
  refine Nat.le_trans (Json.length_dumps_le _) (Nat.le_trans (weight_mask_le _) ?_)
  simp only [Json.weight, Json.membersWeight, hone]
  omega

end Outcome

/-- How a pass ends. -/
inductive Stop where
  | finished
  | restarting
  | raised (e : Failure)

/-- What a pass leaves: the store, with every transaction that was committed, the commands it
started, and how it ended. -/
structure Pass [Platform] where
  store : AgentStore
  started : List String
  stop : Stop

namespace AgentStore

variable [Platform]

/-- The loop of `_execute_pending`. Each command reads the clock twice. -/
def executeLoop (outcome : String → Outcome) :
    List AgentCommand → (Nat → Int) → AgentStore → Pass
  | [], _, s => ⟨s, [], .finished⟩
  | c :: rest, clock, s =>
      match s.markRunning c.commandId (clock 0) with
      | .error e => ⟨s, [], .raised e⟩
      | .ok (s₁, running) =>
          let o := outcome running.commandId
          let (succeeded, result) := o.record running.commandId
          match s₁.complete running.commandId succeeded result (clock 1) with
          | .error e => ⟨s₁, [c.commandId], .raised e⟩
          | .ok (s₂, _) =>
              match o.restarts with
              | .error e => ⟨s₂, [c.commandId], .raised e⟩
              | .ok true => ⟨s₂, [c.commandId], .restarting⟩
              | .ok false =>
                  let pass := executeLoop outcome rest (fun n => clock (n + 2)) s₂
                  { pass with started := c.commandId :: pass.started }

/-- `_execute_pending`. -/
def executePending (s : AgentStore) (limit : Int) (outcome : String → Outcome)
    (clock : Nat → Int) : Pass :=
  match s.pending limit with
  | .error e => ⟨s, [], .raised e⟩
  | .ok commands => executeLoop outcome commands clock s

/-- The store after a number of passes. -/
def passes (limit : Int) (outcome : String → Outcome) (clock : Nat → Nat → Int) :
    Nat → AgentStore → AgentStore
  | 0, s => s
  | n + 1, s => (executePending (passes limit outcome clock n s) limit outcome (clock n)).store

/-! ### One command -/

variable {s s' : AgentStore} {id : String} {outcome : String → Outcome} {clock : Nat → Int}

/-- The command is in the store and not terminal. -/
def Live (s : AgentStore) (id : String) : Prop :=
  ∃ c, s.commands.get? id = some c ∧ c.state.terminal = false

/-- The command is in the store and terminal. -/
def Done (s : AgentStore) (id : String) : Prop :=
  ∃ c, s.commands.get? id = some c ∧ c.state.terminal = true

/-- The other commands are as they were. -/
def Apart (s s' : AgentStore) (id : String) : Prop :=
  ∀ other, other ≠ id → s'.commands.get? other = s.commands.get? other

theorem not_done_of_live (h : Live s id) : ¬ Done s id := by
  rintro ⟨c, hc, hterminal⟩
  obtain ⟨c', hc', hlive⟩ := h
  rw [hc] at hc'
  obtain rfl := Option.some.inj hc'
  rw [hlive] at hterminal
  exact absurd hterminal (by simp)

theorem Apart.live (h : Apart s s' id) {other : String} (hne : other ≠ id) :
    Live s' other ↔ Live s other := by
  unfold Live
  rw [h other hne]

theorem Apart.done (h : Apart s s' id) {other : String} (hne : other ≠ id) :
    Done s' other ↔ Done s other := by
  unfold Done
  rw [h other hne]

theorem apart_put (s : AgentStore) {row : AgentCommand} (hrow : row.commandId = id) :
    Apart s { s with commands := s.commands.put row } id := by
  intro other hne
  rw [← hrow] at hne
  exact Table.get?_put_ne s.commands hne

/-- The first step of a live command: it is running. -/
theorem markRunning_of_live (h : Live s id) {t d : Int}
    (ht : Platform.fromTimestamp t = some d) :
    ∃ s₁ running, s.markRunning id t = .ok (s₁, running) ∧ running.commandId = id ∧
      Live s₁ id ∧ Apart s s₁ id ∧ Moves s s₁ := by
  obtain ⟨c, hc, hlive⟩ := h
  obtain ⟨startedAt, hstarted⟩ : ∃ u : Utc, c.startedAt.elim (timestamp t) .ok = .ok u := by
    cases hstarted : c.startedAt with
    | none =>
        obtain ⟨u, hu, -⟩ := timestamp_ok ht
        exact ⟨u, hu⟩
    | some u => exact ⟨u, rfl⟩
  have hid : c.commandId = id := Table.key_of_get? hc
  let running := { c with state := CommandState.running, startedAt := some startedAt }
  refine ⟨{ s with commands := s.commands.put running }, running, ?_, hid, ⟨running, ?_, rfl⟩,
    apart_put s hid, .changes c running (get?_commandId hc) hlive (.started c startedAt)⟩
  · have hnot : ¬ c.state.terminal = true := by
      rw [hlive]
      simp
    unfold markRunning
    rw [hc]
    simp only
    rw [if_neg hnot, hstarted]
    rfl
  · rw [← hid]
    exact Table.get?_put_self s.commands running

/-- The second step: a record that fits makes it terminal. -/
theorem complete_of_live (h : Live s id) (succeeded : Bool) {result : Json} {t d : Int}
    (ht : Platform.fromTimestamp t = some d)
    (hfits : (canonicalJson result).toList.length ≤ 65536) :
    ∃ s₁ row, s.complete id succeeded result t = .ok (s₁, row) ∧ Done s₁ id ∧
      Apart s s₁ id := by
  obtain ⟨c, hc, hlive⟩ := h
  obtain ⟨completedAt, htime, -⟩ := timestamp_ok ht
  have hid : c.commandId = id := Table.key_of_get? hc
  let row := { c with
    state := if succeeded then CommandState.succeeded else .failed
    completedAt := some completedAt
    resultDigest := some (digestText (canonicalJson result))
    resultJson := some (canonicalJson result) }
  refine ⟨{ s with commands := s.commands.put row }, row, ?_, ⟨row, ?_, ?_⟩, apart_put s hid⟩
  · have hnot : ¬ c.state.terminal = true := by
      rw [hlive]
      simp
    refine Results.bind_ok (boundedJson_of_le hfits) ?_
    dsimp only
    rw [hc]
    simp only
    rw [if_neg hnot, htime]
    rfl
  · rw [← hid]
    exact Table.get?_put_self s.commands row
  · cases succeeded <;> rfl

/-- A record that does not fit is refused, whatever the command. -/
theorem complete_of_not_fits (s : AgentStore) (id : String) (succeeded : Bool) (t : Int)
    {result : Json} (hfits : ¬ (canonicalJson result).toList.length ≤ 65536) :
    ∃ e, s.complete id succeeded result t = .error e := by
  cases h : s.complete id succeeded result t with
  | error e => exact ⟨e, rfl⟩
  | ok p =>
      obtain ⟨json, hjson, -⟩ := Results.bind_eq_ok.mp h
      unfold boundedJson at hjson
      rw [if_neg hfits] at hjson
      exact absurd hjson (by simp)

/-! ### A pass -/

section Pass

variable {c : AgentCommand}

/-- What the loop does with a command whose record fits: it makes it terminal, and stops or
goes on. -/
theorem executeLoop_of_fits (rest : List AgentCommand) (hlive : Live s c.commandId)
    (hclock : ∀ n, (Platform.fromTimestamp (clock n)).isSome = true)
    (hfits : (outcome c.commandId).Fits c.commandId) :
    ∃ s₂, Done s₂ c.commandId ∧ Apart s s₂ c.commandId ∧
      ((∃ stop, executeLoop outcome (c :: rest) clock s = ⟨s₂, [c.commandId], stop⟩) ∨
        executeLoop outcome (c :: rest) clock s =
          { executeLoop outcome rest (fun n => clock (n + 2)) s₂ with
            started := c.commandId ::
              (executeLoop outcome rest (fun n => clock (n + 2)) s₂).started }) := by
  obtain ⟨d₀, hd₀⟩ := Option.isSome_iff_exists.mp (hclock 0)
  obtain ⟨d₁, hd₁⟩ := Option.isSome_iff_exists.mp (hclock 1)
  obtain ⟨s₁, running, hrunning, hid, hlive₁, hapart₁, -⟩ := markRunning_of_live hlive hd₀
  obtain ⟨s₂, row, hcomplete, hdone, hapart₂⟩ :=
    complete_of_live hlive₁ ((outcome c.commandId).record c.commandId).1 hd₁ hfits
  refine ⟨s₂, hdone, fun other hne => (hapart₂ other hne).trans (hapart₁ other hne), ?_⟩
  rw [executeLoop, hrunning]
  simp only
  rw [hid, hcomplete]
  simp only
  cases (outcome c.commandId).restarts with
  | error e => exact Or.inl ⟨_, rfl⟩
  | ok restart =>
      cases restart with
      | true => exact Or.inl ⟨_, rfl⟩
      | false => exact Or.inr rfl

/-- What the loop does with a command whose record does not fit: the command stays, and the
loop ends. -/
theorem executeLoop_of_not_fits (rest : List AgentCommand) (hlive : Live s c.commandId)
    (hclock : ∀ n, (Platform.fromTimestamp (clock n)).isSome = true)
    (hfits : ¬ (outcome c.commandId).Fits c.commandId) :
    ∃ s₁ e, Live s₁ c.commandId ∧ Apart s s₁ c.commandId ∧ Moves s s₁ ∧
      executeLoop outcome (c :: rest) clock s = ⟨s₁, [c.commandId], .raised e⟩ := by
  obtain ⟨d₀, hd₀⟩ := Option.isSome_iff_exists.mp (hclock 0)
  obtain ⟨s₁, running, hrunning, hid, hlive₁, hapart₁, hmoves⟩ := markRunning_of_live hlive hd₀
  obtain ⟨e, hcomplete⟩ := complete_of_not_fits s₁ c.commandId
    ((outcome c.commandId).record c.commandId).1 (clock 1) hfits
  refine ⟨s₁, e, hlive₁, hapart₁, hmoves, ?_⟩
  rw [executeLoop, hrunning]
  simp only
  rw [hid, hcomplete]

/-- A live command whose record does not fit stays live. -/
theorem Live.executeLoop {commands : List AgentCommand} (hlive : Live s id)
    (hfits : ¬ (outcome id).Fits id) (hcommands : ∀ c ∈ commands, Live s c.commandId)
    (hnodup : (commands.map (·.commandId)).Nodup)
    (hclock : ∀ n, (Platform.fromTimestamp (clock n)).isSome = true) :
    Live (executeLoop outcome commands clock s).store id := by
  induction commands generalizing s clock with
  | nil => exact hlive
  | cons c rest ih =>
      obtain ⟨hnotin, hnodup⟩ := List.nodup_cons.mp hnodup
      by_cases hcfits : (outcome c.commandId).Fits c.commandId
      · have hne : id ≠ c.commandId := by
          rintro rfl
          exact hfits hcfits
        obtain ⟨s₂, -, hapart, ⟨stop, hstop⟩ | hrest⟩ := executeLoop_of_fits rest
          (hcommands c (by simp)) hclock hcfits
        · rw [hstop]
          exact (hapart.live hne).mpr hlive
        · rw [hrest]
          refine ih ((hapart.live hne).mpr hlive) ?_ hnodup fun n => hclock (n + 2)
          intro c' hc'
          refine (hapart.live ?_).mpr (hcommands c' (by simp [hc']))
          intro heq
          exact hnotin (List.mem_map.mpr ⟨c', hc', heq⟩)
      · obtain ⟨s₁, e, hlive₁, hapart, -, hstop⟩ := executeLoop_of_not_fits rest
          (hcommands c (by simp)) hclock hcfits
        rw [hstop]
        by_cases heq : id = c.commandId
        · subst heq
          exact hlive₁
        · exact (hapart.live heq).mpr hlive

/-- What a pass whose records all fit does. -/
structure Settled (s : AgentStore) (pass : Pass) : Prop where
  started : ∀ id ∈ pass.started, Done pass.store id
  done : ∀ id, Done s id → Done pass.store id
  live : ∀ id, Live s id → Live pass.store id ∨ Done pass.store id
  fewer : ∀ id, Live pass.store id → Live s id

theorem settled_executeLoop {commands : List AgentCommand}
    (hcommands : ∀ c ∈ commands, Live s c.commandId ∧ (outcome c.commandId).Fits c.commandId)
    (hnodup : (commands.map (·.commandId)).Nodup)
    (hclock : ∀ n, (Platform.fromTimestamp (clock n)).isSome = true) :
    Settled s (AgentStore.executeLoop outcome commands clock s) ∧ ∀ c ∈ commands.head?,
      Done (AgentStore.executeLoop outcome commands clock s).store c.commandId := by
  induction commands generalizing s clock with
  | nil =>
      exact ⟨⟨fun id hid => absurd hid (by simp [AgentStore.executeLoop]), fun _ h => h,
        fun _ h => Or.inl h, fun _ h => h⟩, fun c hc => absurd hc (by simp)⟩
  | cons c rest ih =>
      obtain ⟨hnotin, hnodup⟩ := List.nodup_cons.mp hnodup
      obtain ⟨hlive, hfits⟩ := hcommands c (by simp)
      obtain ⟨s₂, hdone, hapart, hnext⟩ := executeLoop_of_fits rest hlive hclock hfits
      -- the command is terminal now, and the others are as they were
      have hstep : Settled s ⟨s₂, [c.commandId], .finished⟩ := by
        refine ⟨?_, ?_, ?_, ?_⟩
        · intro id hid
          rw [List.mem_singleton.mp hid]
          exact hdone
        · intro id hid
          by_cases heq : id = c.commandId
          · rw [heq]
            exact hdone
          · exact (hapart.done heq).mpr hid
        · intro id hid
          by_cases heq : id = c.commandId
          · rw [heq]
            exact Or.inr hdone
          · exact Or.inl ((hapart.live heq).mpr hid)
        · intro id hid
          by_cases heq : id = c.commandId
          · rw [heq]
            exact hlive
          · exact (hapart.live heq).mp hid
      rcases hnext with ⟨stop, hstop⟩ | hrest
      · rw [hstop]
        refine ⟨⟨hstep.started, hstep.done, hstep.live, hstep.fewer⟩, ?_⟩
        intro x hx
        obtain rfl := Option.some.inj hx
        exact hdone
      · have hothers : ∀ c' ∈ rest, Live s₂ c'.commandId ∧
            (outcome c'.commandId).Fits c'.commandId := by
          intro c' hc'
          obtain ⟨hlive', hfits'⟩ := hcommands c' (by simp [hc'])
          refine ⟨(hapart.live ?_).mpr hlive', hfits'⟩
          intro heq
          exact hnotin (List.mem_map.mpr ⟨c', hc', heq⟩)
        obtain ⟨hsettled, -⟩ := ih hothers hnodup fun n => hclock (n + 2)
        rw [hrest]
        refine ⟨⟨?_, ?_, ?_, ?_⟩, ?_⟩
        · intro id hid
          rcases List.mem_cons.mp hid with rfl | hid
          · exact hsettled.done _ hdone
          · exact hsettled.started id hid
        · exact fun id hid => hsettled.done id (hstep.done id hid)
        · intro id hid
          rcases hstep.live id hid with h | h
          · exact hsettled.live id h
          · exact Or.inr (hsettled.done id h)
        · exact fun id hid => hstep.fewer id (hsettled.fewer id hid)
        · intro x hx
          obtain rfl := Option.some.inj hx
          exact hsettled.done _ hdone

end Pass

/-! ### Passes -/

section Passes

variable {limit : Int}

/-- The commands of a pass: live, each one once, and one at least while there are any. -/
theorem pending_eq_ok (s : AgentStore) (hlimit : 1 ≤ limit ∧ limit ≤ 1000) :
    ∃ commands, s.pending limit = .ok commands ∧ (∀ c ∈ commands, Live s c.commandId) ∧
      (commands.map (·.commandId)).Nodup ∧
      ((∃ id, Live s id) → ∃ c, commands.head? = some c ∧ Live s c.commandId) := by
  let open_ := orderBy (·.sequence) (s.commands.rows.filter fun c => c.state.terminal = false)
  have hmem : ∀ c ∈ open_, Live s c.commandId := by
    intro c hc
    have hrow := List.mem_filter.mp (mem_orderBy.mp hc)
    exact ⟨c, Table.get?_of_mem hrow.1, of_decide_eq_true hrow.2⟩
  have hnodup : (open_.map (·.commandId)).Nodup := by
    have hperm : open_.Perm (s.commands.rows.filter fun c => c.state.terminal = false) :=
      List.perm_insertionSort _ _
    rw [(hperm.map _).nodup_iff]
    exact s.commands.unique.sublist ((List.filter_sublist).map _)
  have htake : sqlLimit limit open_ = open_.take limit.toNat := by
    unfold sqlLimit
    rw [if_neg (by omega)]
  refine ⟨sqlLimit limit open_, Results.bind_ok (ensure_of hlimit) rfl, ?_, ?_, ?_⟩
  · intro c hc
    rw [htake] at hc
    exact hmem c (List.mem_of_mem_take hc)
  · rw [htake]
    exact hnodup.sublist ((List.take_sublist _ _).map _)
  · rintro ⟨id, c, hc, hlive⟩
    have hin : c ∈ open_ := mem_orderBy.mpr
      (List.mem_filter.mpr ⟨Table.mem_of_get? hc, decide_eq_true hlive⟩)
    rw [htake]
    cases hopen : open_ with
    | nil =>
        rw [hopen] at hin
        exact absurd hin (by simp)
    | cons x rest =>
        have hpos : limit.toNat = limit.toNat - 1 + 1 := by omega
        rw [hpos, List.take_succ_cons]
        exact ⟨x, rfl, hmem x (by rw [hopen]; simp)⟩

/-- The live commands. -/
def liveIds (s : AgentStore) : Finset String :=
  ((s.commands.rows.filter fun c => c.state.terminal = false).map (·.commandId)).toFinset

theorem mem_liveIds : id ∈ s.liveIds ↔ Live s id := by
  unfold liveIds Live
  rw [List.mem_toFinset, List.mem_map]
  constructor
  · rintro ⟨c, hc, rfl⟩
    rw [List.mem_filter] at hc
    exact ⟨c, Table.get?_of_mem hc.1, of_decide_eq_true hc.2⟩
  · rintro ⟨c, hc, hlive⟩
    exact ⟨c, List.mem_filter.mpr ⟨Table.mem_of_get? hc, decide_eq_true hlive⟩,
      Table.key_of_get? hc⟩

/-- **A pass whose records fit** settles what it starts, and leaves fewer live commands. -/
theorem settled_executePending (hlimit : 1 ≤ limit ∧ limit ≤ 1000)
    (hclock : ∀ n, (Platform.fromTimestamp (clock n)).isSome = true)
    (hfits : ∀ id, Live s id → (outcome id).Fits id) :
    Settled s (s.executePending limit outcome clock) ∧
      (s.executePending limit outcome clock).store.liveIds.card ≤ s.liveIds.card - 1 := by
  obtain ⟨commands, hpending, hlive, hnodup, hhead⟩ := pending_eq_ok s hlimit
  have hcommands : ∀ c ∈ commands, Live s c.commandId ∧ (outcome c.commandId).Fits c.commandId :=
    fun c hc => ⟨hlive c hc, hfits _ (hlive c hc)⟩
  obtain ⟨hsettled, hfirst⟩ := settled_executeLoop hcommands hnodup hclock
  have hpass : s.executePending limit outcome clock =
      AgentStore.executeLoop outcome commands clock s := by
    unfold executePending
    rw [hpending]
  rw [hpass]
  refine ⟨hsettled, ?_⟩
  have hsubset : (AgentStore.executeLoop outcome commands clock s).store.liveIds ⊆ s.liveIds :=
    fun id hid => mem_liveIds.mpr (hsettled.fewer id (mem_liveIds.mp hid))
  by_cases hany : ∃ id, Live s id
  · obtain ⟨c, hc, hclive⟩ := hhead hany
    -- the first command was live and is terminal now
    have hnot : c.commandId ∉ (AgentStore.executeLoop outcome commands clock s).store.liveIds :=
      fun hmem => not_done_of_live (mem_liveIds.mp hmem) (hfirst c hc)
    have hlt := Finset.card_lt_card (Finset.ssubset_iff_subset_ne.mpr ⟨hsubset, fun heq =>
      hnot (heq ▸ mem_liveIds.mpr hclive)⟩)
    omega
  · have hempty : s.liveIds = ∅ :=
      Finset.eq_empty_of_forall_notMem fun id hid => hany ⟨id, mem_liveIds.mp hid⟩
    rw [hempty, Finset.subset_empty] at hsubset
    rw [hsubset]
    exact Nat.zero_le _

/-- A command that does not fit stays live through every pass. -/
theorem Live.passes {clock : Nat → Nat → Int} (hlive : Live s id)
    (hfits : ¬ (outcome id).Fits id) (hlimit : 1 ≤ limit ∧ limit ≤ 1000)
    (hclock : ∀ n m, (Platform.fromTimestamp (clock n m)).isSome = true) (n : Nat) :
    Live (passes limit outcome clock n s) id := by
  induction n with
  | zero => exact hlive
  | succ n ih =>
      obtain ⟨commands, hpending, hcommands, hnodup, -⟩ :=
        pending_eq_ok (AgentStore.passes limit outcome clock n s) hlimit
      rw [AgentStore.passes, executePending, hpending]
      exact ih.executeLoop hfits hcommands hnodup (hclock n)

/-- Commands that all fit are settled, one at least with every pass. -/
theorem settled_passes {clock : Nat → Nat → Int} (hlimit : 1 ≤ limit ∧ limit ≤ 1000)
    (hclock : ∀ n m, (Platform.fromTimestamp (clock n m)).isSome = true)
    (hfits : ∀ id, Live s id → (outcome id).Fits id) (n : Nat) :
    Settled s ⟨passes limit outcome clock n s, [], .finished⟩ ∧
      (passes limit outcome clock n s).liveIds.card ≤ s.liveIds.card - n := by
  induction n with
  | zero =>
      exact ⟨⟨fun id hid => absurd hid (by simp), fun _ h => h, fun _ h => Or.inl h,
        fun _ h => h⟩, Nat.le_refl _⟩
  | succ n ih =>
      obtain ⟨hsettled, hcard⟩ := ih
      have hstill : ∀ id, Live (AgentStore.passes limit outcome clock n s) id →
          (outcome id).Fits id := fun id hid => hfits id (hsettled.fewer id hid)
      obtain ⟨hstep, hless⟩ := settled_executePending hlimit (hclock n) hstill
      refine ⟨⟨fun id hid => absurd hid (by simp), ?_, ?_, ?_⟩, ?_⟩
      · exact fun id hid => hstep.done id (hsettled.done id hid)
      · intro id hid
        rcases hsettled.live id hid with h | h
        · exact hstep.live id h
        · exact Or.inr (hstep.done id h)
      · exact fun id hid => hsettled.fewer id (hstep.fewer id hid)
      · rw [AgentStore.passes]
        omega

end Passes

/-! ### Poison -/

/-- The command is live and comes first. -/
structure First (s : AgentStore) (id : String) : Prop where
  sound : Sound s
  live : Live s id
  least : ∀ c, s.commands.get? id = some c → ∀ c' ∈ s.commands.rows,
    c'.state.terminal = false → c.sequence ≤ c'.sequence

/-- The first command is the first of a pass. -/
theorem First.pending (h : First s id) {limit : Int} (hlimit : 1 ≤ limit ∧ limit ≤ 1000) :
    ∃ c rest, s.pending limit = .ok (c :: rest) ∧ c.commandId = id := by
  obtain ⟨c, hc, hlive⟩ := h.live
  have hmem : c ∈ orderBy (·.sequence)
      (s.commands.rows.filter fun c => c.state.terminal = false) :=
    mem_orderBy.mpr (List.mem_filter.mpr ⟨Table.mem_of_get? hc, decide_eq_true hlive⟩)
  have hsorted : (orderBy (fun c : AgentCommand => c.sequence)
      (s.commands.rows.filter fun c => c.state.terminal = false)).Pairwise
        fun a b => a.sequence ≤ b.sequence :=
    List.pairwise_insertionSort _ _
  have hpending : s.pending limit = .ok (sqlLimit limit (orderBy (·.sequence)
      (s.commands.rows.filter fun c => c.state.terminal = false))) :=
    Results.bind_ok (ensure_of hlimit) rfl
  cases hopen : orderBy (fun c : AgentCommand => c.sequence)
      (s.commands.rows.filter fun c => c.state.terminal = false) with
  | nil =>
      rw [hopen] at hmem
      exact absurd hmem (by simp)
  | cons x rest =>
      have hx := List.mem_filter.mp (mem_orderBy.mp (hopen ▸ List.mem_cons_self))
      -- the head has the least sequence, which is the one of the first command
      have hle : x.sequence ≤ c.sequence := by
        rw [hopen] at hsorted hmem
        rcases List.mem_cons.mp hmem with rfl | hin
        · exact Nat.le_refl _
        · exact List.rel_of_pairwise_cons hsorted hin
      have hge := h.least c hc x hx.1 (of_decide_eq_true hx.2)
      have hxc : x = c := h.sound.sequences x hx.1 c (Table.mem_of_get? hc) (by omega)
      have hpos : limit.toNat = limit.toNat - 1 + 1 := by omega
      refine ⟨x, rest.take (limit.toNat - 1), ?_, ?_⟩
      · rw [hpending, hopen, sqlLimit, if_neg (by omega), hpos, List.take_succ_cons]
        rfl
      · rw [hxc]
        exact Table.key_of_get? hc

/-- A pass that starts with a record that does not fit leaves every command as live as it
was. -/
theorem First.executePending (h : First s id) (hfits : ¬ (outcome id).Fits id) {limit : Int}
    (hlimit : 1 ≤ limit ∧ limit ≤ 1000)
    (hclock : ∀ n, (Platform.fromTimestamp (clock n)).isSome = true) :
    First (s.executePending limit outcome clock).store id ∧
      ∀ other, Live s other → Live (s.executePending limit outcome clock).store other := by
  obtain ⟨c, rest, hpending, rfl⟩ := h.pending hlimit
  obtain ⟨s₁, e, hlive, hapart, hmoves, hloop⟩ := executeLoop_of_not_fits rest h.live hclock hfits
  have hstore : (s.executePending limit outcome clock).store = s₁ := by
    unfold AgentStore.executePending
    rw [hpending]
    simp only
    rw [hloop]
  rw [hstore]
  refine ⟨⟨h.sound.moves hmoves, hlive, ?_⟩, ?_⟩
  · intro x hx x' hx' hlive'
    by_cases heq : x'.commandId = c.commandId
    · have hsame : x' = x :=
        Table.eq_of_mem_of_key_eq hx' (Table.mem_of_get? hx) (heq.trans (Table.key_of_get? hx).symm)
      rw [hsame]
    · have hold : s.commands.get? x'.commandId = some x' := by
        rw [← hapart x'.commandId heq]
        exact Table.get?_of_mem hx'
      obtain ⟨c₀, hc₀, -⟩ := h.live
      obtain ⟨c₁, hc₁, hcontent⟩ := hmoves.follows.content c₀ (Table.mem_of_get? hc₀)
      have hsame : c₁ = x := by
        refine Table.eq_of_mem_of_key_eq hc₁ (Table.mem_of_get? hx) ?_
        exact hcontent.commandId.trans ((Table.key_of_get? hc₀).trans (Table.key_of_get? hx).symm)
      rw [← hsame, hcontent.sequence]
      exact h.least c₀ hc₀ x' (Table.mem_of_get? hold) hlive'
  · intro other hother
    by_cases heq : other = c.commandId
    · rw [heq]
      exact hlive
    · exact (hapart.live heq).mpr hother

/-- **Poison**: behind a command whose record does not fit nothing ever becomes terminal. -/
theorem First.passes (h : First s id) (hfits : ¬ (outcome id).Fits id) {limit : Int}
    {clock : Nat → Nat → Int} (hlimit : 1 ≤ limit ∧ limit ≤ 1000)
    (hclock : ∀ n m, (Platform.fromTimestamp (clock n m)).isSome = true) (n : Nat) :
    First (AgentStore.passes limit outcome clock n s) id ∧
      ∀ other, Live s other → Live (AgentStore.passes limit outcome clock n s) other := by
  induction n with
  | zero => exact ⟨h, fun _ hother => hother⟩
  | succ n ih =>
      obtain ⟨hfirst, hlive⟩ := ih
      obtain ⟨hfirst', hlive'⟩ := hfirst.executePending hfits hlimit (hclock n)
      exact ⟨hfirst', fun other hother => hlive' other (hlive other hother)⟩

/-- **No command poisons the queue exactly when every record fits.** A pass leaves every
command it started terminal, and passes make every command terminal, if and only if the
record of each command that is not terminal is within the bound of the journal. -/
theorem no_poison_iff (s : AgentStore) (limit : Int) (outcome : String → Outcome)
    (clock : Nat → Nat → Int) (hlimit : 1 ≤ limit ∧ limit ≤ 1000)
    (hclock : ∀ n m, (Platform.fromTimestamp (clock n m)).isSome = true) :
    ((∀ id ∈ (s.executePending limit outcome (clock 0)).started,
        Done (s.executePending limit outcome (clock 0)).store id) ∧
      ∀ c ∈ s.commands.rows, ∃ n, Done (passes limit outcome clock n s) c.commandId) ↔
    ∀ c ∈ s.commands.rows, c.state.terminal = false →
      (outcome c.commandId).Fits c.commandId := by
  constructor
  · rintro ⟨-, hdone⟩ c hc hterminal
    by_contra hfits
    have hlive : Live s c.commandId := ⟨c, Table.get?_of_mem hc, hterminal⟩
    obtain ⟨n, hn⟩ := hdone c hc
    exact not_done_of_live (hlive.passes hfits hlimit hclock n) hn
  · intro hfits
    have hfits' : ∀ id, Live s id → (outcome id).Fits id := by
      rintro id ⟨c, hc, hterminal⟩
      have h := hfits c (Table.mem_of_get? hc) hterminal
      rwa [Table.key_of_get? hc] at h
    refine ⟨(settled_executePending hlimit (hclock 0) hfits').1.started, ?_⟩
    intro c hc
    obtain ⟨hsettled, hcard⟩ := settled_passes hlimit hclock hfits' s.liveIds.card
    refine ⟨s.liveIds.card, ?_⟩
    have hnone : ∀ id, ¬ Live (passes limit outcome clock s.liveIds.card s) id := by
      intro id hid
      have hpos := Finset.card_pos.mpr ⟨id, mem_liveIds.mpr hid⟩
      omega
    cases hterminal : c.state.terminal with
    | true => exact hsettled.done _ ⟨c, Table.get?_of_mem hc, hterminal⟩
    | false =>
        rcases hsettled.live _ ⟨c, Table.get?_of_mem hc, hterminal⟩ with h | h
        · exact absurd h (hnone _)
        · exact h

end AgentStore

end Ophelia

/-! ### A queue behind a large result -/

namespace Ophelia.Reference

attribute [local instance] platform

open AgentStore (Live Done First Sound)

/-- A command to drain the host. -/
def drainCommand (commandId : String) (sequence : Int) : AgentStore.Command where
  commandId := commandId
  sequence := sequence
  operation := "host.drain"
  actorId := "actor_ada"
  idempotencyKey := commandId
  envelopeDigest := "sha256:0000000000000000000000000000000000000000000000000000000000000000"
  payload := .obj [("enabled", .bool true)]

def drainCalls : List AgentCall :=
  [.accept (drainCommand "command_a" 1) EPOCH, .accept (drainCommand "command_b" 2) EPOCH]

/-- Two commands that have been accepted. -/
def drainQueue : AgentStore :=
  (AgentStore.register "host_a").runCalls drainCalls

/-- A result with a number of items. -/
def itemsResult (n : Nat) : Json :=
  .obj [("result", .obj [("items", .arr (List.replicate n (.int 1)))])]

theorem length_itemsResult (n : Nat) : n < (canonicalJson (itemsResult n)).toList.length := by
  have hplain : plain (itemsResult n) = true := by
    have hkeys : plainKey "result" = true ∧ plainKey "items" = true := by decide +kernel
    have hitems : plain (.arr (List.replicate n (.int 1))) = true := by
      refine plain_arr.mpr fun x hx => ?_
      rw [List.eq_of_mem_replicate hx]
      rfl
    simp only [itemsResult, plain, plainMembers, hkeys, Bool.and_true] at hitems ⊢
    simp only [hitems, Bool.and_true]
  have hmask : mask (itemsResult n) = itemsResult n := by
    simp only [itemsResult, mask, maskMembers_eq, maskItems_eq, List.map_cons, List.map_nil,
      List.map_replicate]
  have hsort : (itemsResult n).sortKeys = itemsResult n := by
    simp only [itemsResult, Json.sortKeys, Json.sortKeysMembers, Json.sortKeysItems_eq,
      List.map_replicate, Json.sortMembers, List.insertionSort_cons, List.insertionSort_nil,
      List.orderedInsert_nil]
  have hcanonical : canonicalJson (itemsResult n) = (itemsResult n).dumps := by
    rw [itemsResult] at hplain hmask ⊢
    rw [canonicalJson_of_plain hplain, hmask]
  rw [hcanonical, Json.dumps, hsort, String.toList_ofList]
  have hitems := Json.length_lt_text (List.replicate n (.int 1))
  rw [List.length_replicate] at hitems
  simp only [itemsResult, Json.text, List.length_cons, List.length_append]
  omega

/-- The first command returns a large result, the others fail. -/
def drainOutcome (commandId : String) : Outcome :=
  if commandId = "command_a" then .returned (itemsResult 65536) else .raised "ValueError"

theorem not_fits_largeResult : ¬ (drainOutcome "command_a").Fits "command_a" :=
  Nat.not_le.mpr (length_itemsResult 65536)

/-- The next command is accepted. -/
theorem accept_drainCommand {s : AgentStore} {commandId : String} {n : Nat}
    (hvalid : ∃ d, (drainCommand commandId n).validate = .ok d) (hn : n < 10)
    (hfree : ∀ c ∈ s.commands.rows, c.commandId ≠ commandId ∧ c.sequence < n)
    (hnext : max s.maximum s.acknowledged + 1 = n) :
    ∃ row : AgentCommand, row.commandId = commandId ∧ row.sequence = n ∧
      row.state = .accepted ∧
      AgentCall.apply s (.accept (drainCommand commandId n) EPOCH) =
        { s with commands := s.commands.put row } := by
  obtain ⟨d, hd⟩ := hvalid
  have hnow : Platform.fromTimestamp EPOCH = some (EPOCH * 1000000) := by decide
  obtain ⟨acceptedAt, htime, -⟩ := timestamp_ok hnow
  have hpayload : (canonicalJson (.obj [("enabled", .bool true)])).toList.length ≤ 65536 := by
    decide +kernel
  have hrange : -2 ^ 63 ≤ (n : Int) ∧ (n : Int) < 2 ^ 63 := by omega
  have hsequence : (n : Int) = ((max s.maximum s.acknowledged + 1 : Nat) : Int) := by omega
  have hnone : s.existing? (drainCommand commandId n) = none := by
    refine AgentStore.existing?_eq_none.mpr fun c hc => ?_
    obtain ⟨hid, hlt⟩ := hfree c hc
    refine ⟨hid, ?_⟩
    show (c.sequence : Int) ≠ (n : Int)
    omega
  have haccept : ∃ p, s.accept (drainCommand commandId n) EPOCH = .ok p := by
    refine Result.exists_bind hd (Result.exists_bind (boundedJson_of_le hpayload)
      (Result.exists_bind (ensure_of hrange) ?_))
    rw [hnone]
    exact Result.exists_bind (ensure_of hsequence) (Result.exists_bind htime ⟨_, rfl⟩)
  obtain ⟨⟨s', row⟩, haccept⟩ := haccept
  obtain ⟨hbinds, ⟨hfound, -⟩ | ⟨-, hrowsequence, hstate, hs'⟩⟩ :=
    AgentStore.accept_eq_ok haccept
  · rw [hnone] at hfound
    exact absurd hfound (by simp)
  · refine ⟨row, hbinds.commandId, hrowsequence.trans hnext, hstate, ?_⟩
    unfold AgentCall.apply
    rw [AgentCall.run, haccept, hs']
    rfl

/-- The queue holds both commands, and the first one is the first of a pass. -/
theorem first_drainQueue : First drainQueue "command_a" ∧ Live drainQueue "command_b" ∧
    ∀ c ∈ drainQueue.commands.rows, c.commandId = "command_a" ∨ c.commandId = "command_b" := by
  have hsound : Sound drainQueue := Sound.runCalls "host_a" drainCalls
  have hempty : ∀ c ∈ (AgentStore.register "host_a").commands.rows,
      c.commandId ≠ "command_a" ∧ c.sequence < 1 :=
    fun c hc => absurd hc (by simp [AgentStore.register])
  obtain ⟨a, haid, hasequence, hastate, ha⟩ :=
    accept_drainCommand ⟨_, rfl⟩ (by decide) hempty rfl
  set s₁ : AgentStore :=
    { AgentStore.register "host_a" with
      commands := (AgentStore.register "host_a").commands.put a } with hs₁
  have hrows₁ : s₁.commands.rows = [a] := Table.rows_put_of_get?_none rfl
  have hone : ∀ c ∈ s₁.commands.rows, c.commandId ≠ "command_b" ∧ c.sequence < 2 := by
    intro c hc
    rw [hrows₁, List.mem_singleton] at hc
    subst hc
    rw [haid, hasequence]
    decide
  have hnext : max s₁.maximum s₁.acknowledged + 1 = 2 := by
    have hmax : s₁.maximum = 1 := by
      rw [AgentStore.maximum, hrows₁, List.map_singleton, hasequence]
      rfl
    rw [hmax]
    rfl
  obtain ⟨b, hbid, hbsequence, hbstate, hb⟩ := accept_drainCommand ⟨_, rfl⟩ (by decide) hone hnext
  have hqueue : drainQueue = { s₁ with commands := s₁.commands.put b } := by
    unfold drainQueue AgentStore.runCalls drainCalls
    rw [List.foldl_cons, List.foldl_cons, List.foldl_nil]
    rw [show AgentCall.apply (AgentStore.register "host_a")
      (.accept (drainCommand "command_a" 1) EPOCH) = s₁ from ha]
    exact hb
  have hgeta : drainQueue.commands.get? "command_a" = some a := by
    rw [hqueue]
    have hne : "command_a" ≠ b.commandId := by
      rw [hbid]
      decide
    refine (Table.get?_put_ne s₁.commands hne).trans ?_
    rw [← haid]
    exact Table.get?_put_self _ a
  have hgetb : drainQueue.commands.get? "command_b" = some b := by
    rw [hqueue, ← hbid]
    exact Table.get?_put_self s₁.commands b
  have hrows : ∀ c ∈ drainQueue.commands.rows, c = a ∨ c = b := by
    intro c hc
    rw [hqueue] at hc
    rcases Table.mem_put.mp hc with hnew | ⟨hold, -⟩
    · exact Or.inr hnew
    · rw [hrows₁, List.mem_singleton] at hold
      exact Or.inl hold
  refine ⟨⟨hsound, ⟨a, hgeta, by rw [hastate]; rfl⟩, ?_⟩, ⟨b, hgetb, by rw [hbstate]; rfl⟩, ?_⟩
  · intro c hc c' hc' _
    rw [hgeta] at hc
    obtain rfl := Option.some.inj hc
    rcases hrows c' hc' with rfl | rfl <;> omega
  · intro c hc
    rcases hrows c hc with rfl | rfl
    · exact Or.inl haid
    · exact Or.inr hbid

/-- **The queue is poisoned**: the first command is started by every pass and becomes terminal
in none, and neither does the second one, whose record would fit. -/
theorem drainQueue_poisoned : (drainOutcome "command_b").Fits "command_b" ∧
    ∀ n, ¬ Done (AgentStore.passes 100 drainOutcome (fun _ _ => EPOCH) n drainQueue) "command_a" ∧
      ¬ Done (AgentStore.passes 100 drainOutcome (fun _ _ => EPOCH) n drainQueue) "command_b" := by
  have hfits : (drainOutcome "command_b").Fits "command_b" :=
    Outcome.fits_raised (by decide) (by decide)
  refine ⟨hfits, fun n => ?_⟩
  obtain ⟨hfirst, hlive, -⟩ := first_drainQueue
  have hlimit : (1 : Int) ≤ 100 ∧ (100 : Int) ≤ 1000 := by decide
  have hclock : ∀ n m : Nat, (Platform.fromTimestamp ((fun _ _ => EPOCH) n m)).isSome = true :=
    fun _ _ => rfl
  obtain ⟨hfirst', hlive'⟩ := hfirst.passes not_fits_largeResult hlimit hclock n
  exact ⟨AgentStore.not_done_of_live hfirst'.live, AgentStore.not_done_of_live (hlive' _ hlive)⟩

/-- When both commands fail instead, the queue is drained. -/
theorem drainQueue_drained : ∃ n, Done
    (AgentStore.passes 100 (fun _ => .raised "ValueError") (fun _ _ => EPOCH) n drainQueue)
    "command_b" := by
  obtain ⟨-, ⟨b, hb, -⟩, hrows⟩ := first_drainQueue
  have hlimit : (1 : Int) ≤ 100 ∧ (100 : Int) ≤ 1000 := by decide
  have hfits : ∀ c ∈ drainQueue.commands.rows, c.state.terminal = false →
      (Outcome.raised "ValueError").Fits c.commandId := by
    intro c hc _
    rcases hrows c hc with hid | hid <;> rw [hid] <;> exact Outcome.fits_raised (by decide) (by decide)
  have hdone := (AgentStore.no_poison_iff drainQueue 100 (fun _ => .raised "ValueError")
    (fun _ _ => EPOCH) hlimit (fun _ _ => rfl)).mpr hfits
  have hb' := hdone.2 b (Table.mem_of_get? hb)
  rwa [Table.key_of_get? hb] at hb'

end Ophelia.Reference
