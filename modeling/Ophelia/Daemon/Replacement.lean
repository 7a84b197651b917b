import Ophelia.Daemon.RunsSound
import Ophelia.Journal.Idempotency
import Mathlib.Tactic.IntervalCases

/-!
# Ophelia.Daemon.Replacement

The policy under which a new run replaces the active one. `accept_run` looks at one active
run of the workload, the one accepted first, and asks it to stop. The other active runs are
left alone, so the new run is the only one that goes on exactly when those had been asked to
stop before (`RunStore.Replaceable`).
-/

namespace Ophelia

variable [Platform]

namespace RunStore

variable {s s' s₁ : RunStore} {r : WorkloadRun} {w : WorkloadKey}

/-- Every active run but the one accepted first has been asked to stop. -/
def Replaceable (s : RunStore) (w : WorkloadKey) : Prop :=
  ∀ x ∈ s.activeRuns w, s.active? w ≠ some x → x.cancellationRequestedAt.isSome = true

/-- Every active run but the given one has been asked to stop. -/
def OthersMarked (s : RunStore) (w : WorkloadKey) (runId : String) : Prop :=
  ∀ x ∈ s.activeRuns w, x.runId ≠ runId → x.cancellationRequestedAt.isSome = true

/-- The active runs once the policy has been applied: those before, with the one accepted
first now marked. -/
theorem Cleared.replaceable_iff (h : Cleared s (s.active? w) .replace s₁) :
    (∀ x ∈ s₁.activeRuns w, x.cancellationRequestedAt.isSome = true) ↔ Replaceable s w := by
  cases h with
  | idle hidle =>
      have hnone := hidle.resolve_right (by decide)
      simp [Replaceable, activeRuns_of_active?_none hnone]
  | marked row hpolicy hactive hmarked =>
      constructor
      · exact fun h x hx _ => h x hx
      · intro h x hx
        by_cases hrow : s.active? w = some x
        · rw [hactive] at hrow
          obtain rfl := Option.some.inj hrow
          exact hmarked
        · exact h x hx hrow
  | marks row at_ e s' hpolicy hactive hunmarked hlog =>
      obtain ⟨hfound, hw, hlive⟩ := active?_eq_some hactive
      constructor
      · intro h x hx hne
        obtain ⟨hmem, hxw, hxlive⟩ := mem_activeRuns.mp hx
        have hid : x.runId ≠ row.runId := by
          intro heq
          rw [hactive] at hne
          exact hne (congrArg some
            (Table.eq_of_mem_of_key_eq (Table.mem_of_get? hfound) hmem heq.symm))
        refine h x (mem_activeRuns.mpr ⟨?_, hxw, hxlive⟩)
        rw [hlog.runs]
        exact Table.mem_put.mpr (Or.inr ⟨hmem, hid⟩)
      · intro h x hx
        rw [mem_activeRuns, hlog.runs] at hx
        obtain ⟨hmem, hxw, hxlive⟩ := hx
        rcases Table.mem_put.mp hmem with rfl | ⟨hmem, hid⟩
        · rfl
        · refine h x (mem_activeRuns.mpr ⟨hmem, hxw, hxlive⟩) ?_
          rw [hactive]
          intro heq
          have hsame : x.runId = row.runId := by
            rw [Option.some.inj heq]
          exact hid hsame

section Accepted

variable {actor : Actor} {q : RunRequest} {key : String} {policy : ConcurrencyPolicy}
  {clock : Nat → Int} {runId : String} {e : RunEvent}

/-- The active runs after an acceptance: the new one, and those the policy left. -/
theorem Accepted.mem_activeRuns (ha : Accepted s s₁ s' actor q key policy clock runId r e)
    {x : WorkloadRun} : x ∈ s'.activeRuns q.workload ↔ x = r ∨ x ∈ s₁.activeRuns q.workload := by
  refine ⟨fun hx => (ha.active_cases hx).imp_left And.left, ?_⟩
  rw [RunStore.mem_activeRuns, RunStore.mem_activeRuns, ha.logged.runs]
  rintro (rfl | ⟨hmem, hw, hlive⟩)
  · refine ⟨Table.mem_put.mpr (Or.inl rfl), ha.workload, ?_⟩
    rw [ha.recorded.state]
    rfl
  · refine ⟨Table.mem_put.mpr (Or.inr ⟨hmem, ?_⟩), hw, hlive⟩
    exact Table.get?_eq_none.mp ha.free x hmem

/-- **What a replacement leaves**: the other active runs are marked exactly when all but the
one accepted first were. -/
theorem Accepted.othersMarked_iff
    (ha : Accepted s s₁ s' actor q key .replace clock runId r e) :
    OthersMarked s' q.workload r.runId ↔ Replaceable s q.workload := by
  rw [← ha.cleared.replaceable_iff]
  constructor
  · intro h x hx
    refine h x (ha.mem_activeRuns.mpr (Or.inr hx)) ?_
    exact Table.get?_eq_none.mp ha.free x (RunStore.mem_activeRuns.mp hx).1
  · intro h x hx hne
    rcases ha.mem_activeRuns.mp hx with rfl | hx
    · exact absurd rfl hne
    · exact h x hx

end Accepted

/-- The policy takes no run out of the active ones. -/
theorem Cleared.activeRuns {policy : ConcurrencyPolicy}
    (h : Cleared s (s.active? w) policy s₁) {x : WorkloadRun} (hx : x ∈ s.activeRuns w) :
    ∃ x' ∈ s₁.activeRuns w, x'.acceptedAt = x.acceptedAt := by
  cases h with
  | idle => exact ⟨x, hx, rfl⟩
  | marked => exact ⟨x, hx, rfl⟩
  | marks row at_ e s' hpolicy hactive hunmarked hlog =>
      obtain ⟨hfound, hw, hlive⟩ := active?_eq_some hactive
      obtain ⟨hmem, hxw, hxlive⟩ := mem_activeRuns.mp hx
      by_cases hid : x.runId = row.runId
      · obtain rfl := Table.eq_of_mem_of_key_eq hmem (Table.mem_of_get? hfound) hid
        refine ⟨{ x with cancellationRequestedAt := some at_ },
          mem_activeRuns.mpr ⟨?_, hxw, hxlive⟩, rfl⟩
        rw [hlog.runs]
        exact Table.mem_put.mpr (Or.inl rfl)
      · refine ⟨x, mem_activeRuns.mpr ⟨?_, hxw, hxlive⟩, rfl⟩
        rw [hlog.runs]
        exact Table.mem_put.mpr (Or.inr ⟨hmem, hid⟩)

/-! ### Runs of replacements -/

/-- At most one active run of a workload has not been asked to stop. -/
def AtMostOneUnmarked (s : RunStore) (w : WorkloadKey) : Prop :=
  ∀ r ∈ s.activeRuns w, ∀ r' ∈ s.activeRuns w, r.cancellationRequestedAt = none →
    r'.cancellationRequestedAt = none → r = r'

/-- No change takes a cancellation request back. -/
theorem Change.unmarked {r r' : WorkloadRun} {t : Option RunEventType} (h : Change r r' t)
    (hnone : r'.cancellationRequestedAt = none) : r.cancellationRequestedAt = none := by
  cases h with
  | marked at_ => exact absurd hnone (by simp)
  | _ => exact hnone

theorem AtMostOneUnmarked.changes (h : AtMostOneUnmarked s w) (hchange : Changes s s') :
    AtMostOneUnmarked s' w := hchange.atMostOne (fun hc => hc.unmarked) h

end RunStore

/-- The call accepts no run of the workload, or it replaces the active one and finds the other
active ones asked to stop. -/
def RunCall.Replaces (s : RunStore) (w : WorkloadKey) : RunCall → Prop
  | .acceptRun _ q _ policy _ _ _ => q.workload = w → policy = .replace ∧ s.Replaceable w
  | _ => True

namespace RunStore

variable {s s' : RunStore} {w : WorkloadKey}

/-- Every call of the sequence does so in the store it is made in. -/
def ReplacesAll (s : RunStore) (w : WorkloadKey) : List RunCall → Prop
  | [] => True
  | c :: calls => c.Replaces s w ∧ ReplacesAll (c.apply s) w calls

theorem AtMostOneUnmarked.accepted (h : AtMostOneUnmarked s w) {s₁ : RunStore} {actor : Actor}
    {q : RunRequest} {key : String} {policy : ConcurrencyPolicy} {clock : Nat → Int}
    {runId : String} {r : WorkloadRun} {e : RunEvent}
    (ha : Accepted s s₁ s' actor q key policy clock runId r e)
    (hreplaces : q.workload = w → policy = .replace ∧ s.Replaceable w) :
    AtMostOneUnmarked s' w := by
  by_cases hw : q.workload = w
  · -- every active run but the new one is marked
    obtain ⟨rfl, hreplaceable⟩ := hreplaces hw
    subst hw
    have hmarked := ha.othersMarked_iff.mpr hreplaceable
    have honly : ∀ x ∈ s'.activeRuns q.workload, x.cancellationRequestedAt = none →
        x.runId = r.runId := by
      intro x hx hnone
      by_contra hne
      have hsome := hmarked x hx hne
      rw [hnone] at hsome
      exact absurd hsome (by simp)
    intro x hx y hy hxnone hynone
    refine Table.eq_of_mem_of_key_eq (mem_activeRuns.mp hx).1 (mem_activeRuns.mp hy).1 ?_
    rw [honly x hx hxnone, honly y hy hynone]
  · -- the new run is of another workload
    have h₁ : AtMostOneUnmarked s₁ w := by
      rcases ha.cleared.changes with rfl | hchange
      · exact h
      · exact h.changes hchange
    have hold : ∀ x ∈ s'.activeRuns w, x ∈ s₁.activeRuns w := fun x hx =>
      (ha.active_cases hx).resolve_left fun hnew => hw hnew.2
    intro x hx y hy
    exact h₁ x (hold x hx) y (hold y hy)

theorem AtMostOneUnmarked.apply (h : AtMostOneUnmarked s w) {c : RunCall}
    (hreplaces : c.Replaces s w) : AtMostOneUnmarked (c.apply s) w := by
  unfold RunCall.apply
  split
  · rename_i s' hrun
    rcases run_eq_ok hrun with rfl | hchange | ⟨_, _, _, _, _, _, _, s₁, r, e, rfl, ha⟩
    · exact h
    · exact h.changes hchange
    · exact h.accepted ha hreplaces
  · exact h

theorem AtMostOneUnmarked.runCalls (h : AtMostOneUnmarked s w) {calls : List RunCall}
    (hreplaces : s.ReplacesAll w calls) : AtMostOneUnmarked (s.runCalls calls) w := by
  induction calls generalizing s with
  | nil => exact h
  | cons c calls ih => exact ih (h.apply hreplaces.1) hreplaces.2

/-- An event identifier the store has not used. -/
structure Unused (s : RunStore) (eventId : EntityId .event) : Prop where
  events : ∀ e ∈ s.events.rows, e.eventId ≠ eventId
  hostEvents : ∀ h ∈ s.hostEvents.rows, h.eventId ≠ eventId

/-- Texts short enough for an event. -/
def Short (s : String) : Prop := Json.textWeight s ≤ 3000

/-- An event about a state of a run, with who caused it, fits. -/
theorem length_payload_le {p : RunEventPayload} {state actorId : String}
    (hdetail : p.detail = .obj [("state", .str state), ("actor_id", .str actorId)])
    (hsequence : p.sequence < 10) (hrun : Short p.runId) (htype : Short p.eventType.value)
    (htime : Short p.occurredAt.val) (hstate : Short state) (hactor : Short actorId) :
    (canonicalJson p.toJson).toList.length ≤ 65536 := by
  have hkeys : (["schema_version", "kind", "run_id", "sequence", "event_type", "occurred_at",
      "previous_event_digest", "detail", "state", "actor_id"].all plainKey) = true := by
    decide +kernel
  simp only [List.all_cons, List.all_nil, Bool.and_eq_true, Bool.and_true] at hkeys
  obtain ⟨h₁, h₂, h₃, h₄, h₅, h₆, h₇, h₈, h₉, h₁₀⟩ := hkeys
  have hprevious : ∀ d : Option Digest,
      plain (d.elim .null fun d => .str d.val) = true ∧
        (d.elim Json.null fun d => .str d.val).weight ≤ 854 := by
    intro d
    cases d with
    | none => exact ⟨rfl, by decide⟩
    | some d => exact ⟨rfl, Nat.le_of_eq (Codec.weight_digest d)⟩
  obtain ⟨hplain, hweight⟩ := hprevious p.previousEventDigest
  have hplain : plain p.toJson = true := by
    simp only [RunEventPayload.toJson, hdetail, plain, plainMembers, h₁, h₂, h₃, h₄, h₅, h₆, h₇,
      h₈, h₉, h₁₀, hplain, Bool.and_true]
  rw [RunEventPayload.toJson] at hplain ⊢
  rw [canonicalJson_of_plain hplain]
  refine Nat.le_trans (Json.length_dumps_le _) (Nat.le_trans (weight_mask_le _) ?_)
  have hnumber : ∀ n < 10, (Json.intText (n : Nat)).length = 1 := by decide
  have hnumber := hnumber p.sequence hsequence
  have hone : (Json.intText 1).length = 1 := by decide
  have hlabels : Json.textWeight "schema_version" + Json.textWeight "kind" +
      Json.textWeight "ophelia.workload-run-event" + Json.textWeight "run_id" +
      Json.textWeight "sequence" + Json.textWeight "event_type" + Json.textWeight "occurred_at" +
      Json.textWeight "previous_event_digest" + Json.textWeight "detail" +
      Json.textWeight "state" + Json.textWeight "actor_id" ≤ 3000 := by decide
  unfold Short at hrun htype htime hstate hactor
  simp only [hdetail, Json.weight, Json.membersWeight] at hweight hone hnumber ⊢
  omega

/-- **An event is appended** when its identifier is new and its text fits. -/
theorem appendRunEvent_ok {id : String} {eventType : RunEventType} {detail : Json}
    {clock d : Int} {eventId : EntityId .event} (hcontiguous : Contiguous s)
    (hclock : Platform.fromTimestamp clock = some d) (hunused : Unused s eventId)
    (hfits : ∀ p : RunEventPayload, p.runId = id → p.eventType = eventType → p.detail = detail →
      p.sequence = (s.runEvents id).length + 1 → timestamp clock = .ok p.occurredAt →
      (canonicalJson p.toJson).toList.length ≤ 65536) :
    ∃ s', s.appendRunEvent id eventType detail clock eventId = .ok s' ∧
      ∀ other, Unused s other → other ≠ eventId → Unused s' other := by
  obtain ⟨occurredAt, htime, -⟩ := timestamp_ok hclock
  have hnext : (s.runEvents id).getLast?.elim 1 (·.sequence + 1) = (s.runEvents id).length + 1 :=
    hcontiguous.next_eq
  have hfree : ∀ e : RunEvent, e.runId = id →
      e.sequence = (s.runEvents id).getLast?.elim 1 (·.sequence + 1) →
      s.events.get? (e.runId, e.sequence) = none := by
    intro e hrun hsequence
    refine Table.get?_eq_none.mpr fun x hx hkey => ?_
    obtain ⟨hxrun, hxsequence⟩ := Prod.mk.inj hkey
    have hmem : x ∈ s.runEvents id := Table.mem_log.mpr ⟨hx, hxrun.trans hrun⟩
    have hle := hcontiguous.le_length hmem
    omega
  have hcursor : ∀ h : HostEventRow,
      h.cursor = (s.hostEvents.rows.map (·.cursor)).foldr max 0 + 1 →
      s.hostEvents.get? h.cursor = none := by
    intro h hnew
    refine Table.get?_eq_none.mpr fun x hx hkey => ?_
    have hle : x.cursor ≤ (s.hostEvents.rows.map (·.cursor)).foldr max 0 :=
      foldr_max_le.mp (Nat.le_refl _) x.cursor (List.mem_map_of_mem hx)
    rw [hkey] at hle
    omega
  refine ⟨_, Results.bind_ok htime <|
    Results.bind_ok (ensure_of (hfits _ rfl rfl rfl hnext htime)) <|
    Results.bind_ok (ensure_of hunused.events) <|
    Results.bind_ok (insertRow_of_free (hfree _ rfl rfl)) <|
    Results.bind_ok (ensure_of hunused.hostEvents) <|
    Results.bind_ok (insertRow_of_free (hcursor _ rfl)) rfl, ?_⟩
  intro other hother hne
  refine ⟨?_, ?_⟩
  · intro e he
    rcases Table.mem_put.mp he with rfl | ⟨he, -⟩
    · exact hne.symm
    · exact hother.events e he
  · intro e he
    rcases Table.mem_put.mp he with rfl | ⟨he, -⟩
    · exact hne.symm
    · exact hother.hostEvents e he

/-- The texts of a run fit into its events. -/
structure Fits (runId : String) (actor : Actor) : Prop where
  runId : Short runId
  actor : Short actor.actorId.val

/-- Events of a short chain about a state of a run fit. -/
theorem Fits.payload {runId : String} {actor : Actor} (h : Fits runId actor)
    {clock : Int} (hclock : ∀ u, timestamp clock = .ok u → Short u.val) {n : Nat} (hn : n < 9)
    (eventType : RunEventType) (state : RunState) :
    ∀ p : RunEventPayload, p.runId = runId → p.eventType = eventType →
      p.detail = .obj [("state", .str state.value), ("actor_id", .str actor.actorId.val)] →
      p.sequence = n + 1 → timestamp clock = .ok p.occurredAt →
      (canonicalJson p.toJson).toList.length ≤ 65536 := by
  intro p hrun htype hdetail hsequence htime
  have hstates : ∀ state : RunState, Short state.value := by
    intro state
    cases state <;> unfold Short <;> decide
  refine length_payload_le hdetail (by omega) (hrun ▸ h.runId) ?_ (hclock _ htime)
    (hstates state) h.actor
  cases p.eventType with
  | reached state => exact hstates state
  | cancellationRequested =>
      unfold Short
      decide

/-- A run is asked to stop. -/
theorem requestCancelTx_ok {actor : Actor} {clock : Nat → Int} {d : Nat → Int}
    {eventId : EntityId .event} (hcontiguous : Contiguous s)
    (hclock : ∀ n, Platform.fromTimestamp (clock n) = some (d n))
    (hshort : ∀ n u, timestamp (clock n) = .ok u → Short u.val)
    (hunused : Unused s eventId) (hfits : Fits r.runId actor)
    (hlength : (s.runEvents r.runId).length < 9) :
    ∃ s', s.requestCancelTx r actor clock eventId = .ok s' ∧
      ∀ other, Unused s other → other ≠ eventId → Unused s' other := by
  by_cases hmarked : r.cancellationRequestedAt.isSome = true
  · exact ⟨s, if_pos hmarked, fun other hother _ => hother⟩
  · obtain ⟨requestedAt, htime, -⟩ := timestamp_ok (hclock 0)
    obtain ⟨s', hs', hother⟩ := appendRunEvent_ok
      (s := { s with runs := s.runs.put { r with cancellationRequestedAt := some requestedAt } })
      hcontiguous (hclock 1) ⟨hunused.events, hunused.hostEvents⟩
      (hfits.payload (hshort 1) hlength .cancellationRequested r.state)
    refine ⟨s', ?_, fun other h => hother other ⟨h.events, h.hostEvents⟩⟩
    unfold requestCancelTx
    rw [if_neg hmarked]
    exact Results.bind_ok htime hs'

/-- **A replacement goes through** when its key, its run and its events are new and its texts
fit. -/
theorem acceptRun_replace_ok {actor : Actor} {q : RunRequest} {key : String}
    {clock : Nat → Int} {d : Nat → Int} {runId : String} {eventId : Nat → EntityId .event}
    (hsound : Sound s) (hkey : s.keyed? actor.actorId (digestText key) = none)
    (hclock : ∀ n, Platform.fromTimestamp (clock n) = some (d n))
    (hshort : ∀ n u, timestamp (clock n) = .ok u → Short u.val)
    (hrequest : (canonicalJson (q.toJson actor)).toList.length ≤ 65536)
    (hfree : s.runs.get? runId = none) (hevents : s.runEvents runId = [])
    (hunused : ∀ n, Unused s (eventId n)) (hids : eventId 1 ≠ eventId 0)
    (hfits : Fits runId actor)
    (hactive : ∀ row, s.active? q.workload = some row → Fits row.runId actor ∧
      (s.runEvents row.runId).length < 9) :
    ∃ s' r, s.acceptRun actor q key .replace clock runId eventId = .ok (s', r) ∧
      ∀ other, Unused s other → other ≠ eventId 0 → other ≠ eventId 1 → Unused s' other := by
  obtain ⟨acceptedAt, htime, -⟩ := timestamp_ok (hclock 0)
  -- the policy goes through, and leaves the chain of the new run empty
  have hpolicy : ∃ s₁, s.applyPolicy (s.active? q.workload) .replace actor
      (fun n => clock (n + 1)) (eventId 0) = .ok s₁ ∧
      ∀ other, Unused s other → other ≠ eventId 0 → Unused s₁ other := by
    cases hrow : s.active? q.workload with
    | none => exact ⟨s, rfl, fun other hother _ => hother⟩
    | some row =>
        obtain ⟨hrowfits, hlength⟩ := hactive row hrow
        exact requestCancelTx_ok hsound.contiguous (fun n => hclock (n + 1))
          (fun n => hshort (n + 1)) (hunused 0) hrowfits hlength
  obtain ⟨s₁, hs₁, hother₁⟩ := hpolicy
  have hcleared := applyPolicy_eq_ok hs₁
  have hcontiguous₁ : Contiguous s₁ := by
    rcases hcleared.changes with rfl | hchange
    · exact hsound.contiguous
    · exact (hsound.moves (.changes s₁ hchange)).contiguous
  have hfree₁ : s₁.runs.get? runId = none ∧ s₁.runEvents runId = [] := by
    cases hcleared with
    | idle => exact ⟨hfree, hevents⟩
    | marked => exact ⟨hfree, hevents⟩
    | marks row at_ e s₁ _ hrow _ hlog =>
        have hfound := (active?_eq_some hrow).1
        have hne : runId ≠ row.runId := by
          rintro rfl
          rw [hfree] at hfound
          exact absurd hfound (by simp)
        refine ⟨?_, ?_⟩
        · rw [hlog.runs]
          exact (Table.get?_put_ne (r := { row with cancellationRequestedAt := some at_ }) s.runs
            hne).trans hfree
        · exact (hlog.runEvents_ne hne).trans hevents
  obtain ⟨hfree₁, hevents₁⟩ := hfree₁
  have hlength₁ : (s₁.runEvents runId).length < 9 := by
    rw [hevents₁]
    exact Nat.zero_lt_succ 8
  let row : WorkloadRun :=
    { runId, actorId := actor.actorId, idempotencyKeyDigest := digestText key,
      workload := q.workload, revisionId := q.revisionId, revisionDigest := q.revisionDigest,
      workloadKind := q.workloadKind, triggerKind := q.triggerKind, state := .accepted,
      requestDigest := digestText (canonicalJson (q.toJson actor)),
      requestJson := canonicalJson (q.toJson actor), acceptedAt, startedAt := none,
      completedAt := none, cancellationRequestedAt := none, leaseOwner := none,
      leaseExpires := none, fencingToken := 0, resultDigest := none, exitCode := none,
      exitReason := none }
  have hunused₁ := hother₁ (eventId 1) (hunused 1) hids
  obtain ⟨s₂, hs₂, hother₂⟩ := appendRunEvent_ok (s := { s₁ with runs := s₁.runs.put row })
    hcontiguous₁ (hclock 3) ⟨hunused₁.events, hunused₁.hostEvents⟩
    (hfits.payload (hshort 3) hlength₁ (.reached .accepted) .accepted)
  refine ⟨s₂, row, ?_, ?_⟩
  · refine Results.bind_ok htime ?_
    dsimp only
    rw [hkey]
    exact Results.bind_ok hs₁ <| Results.bind_ok (boundedJson_of_le hrequest) <|
      Results.bind_ok (insertRow_of_free (r := row) hfree₁) <| Results.bind_ok hs₂ rfl
  · intro other hother hne₀ hne₁
    have h₁ := hother₁ other hother hne₀
    exact hother₂ other ⟨h₁.events, h₁.hostEvents⟩ hne₁

/-- A call makes a chain longer by one event. -/
theorem Logged.length_le {t : RunEventType} {e : RunEvent} {runId : String}
    (hl : Logged s s' runId t e) (h : Contiguous s) (id : String) :
    (s'.runEvents id).length ≤ (s.runEvents id).length + 1 := by
  by_cases hid : id = runId
  · subst hid
    rw [hl.runEvents h]
    simp
  · rw [hl.runEvents_ne hid]
    exact Nat.le_succ _

section Accepted

variable {actor : Actor} {q : RunRequest} {key : String} {policy : ConcurrencyPolicy}
  {clock : Nat → Int} {runId : String} {e : RunEvent}

/-- The runs after an acceptance: the new one, and those before. -/
theorem Accepted.mem_rows (ha : Accepted s s₁ s' actor q key policy clock runId r e)
    {x : WorkloadRun} (hx : x ∈ s'.runs.rows) : x = r ∨ ∃ y ∈ s.runs.rows, Kept y x := by
  rw [ha.logged.runs] at hx
  rcases Table.mem_put.mp hx with rfl | ⟨hx, -⟩
  · exact Or.inl rfl
  · right
    cases ha.cleared with
    | idle => exact ⟨x, hx, Kept.refl x⟩
    | marked => exact ⟨x, hx, Kept.refl x⟩
    | marks row at_ e s₁ _ hactive _ hlog =>
        rw [hlog.runs] at hx
        rcases Table.mem_put.mp hx with rfl | ⟨hx, -⟩
        · exact ⟨row, Table.mem_of_get? (active?_eq_some hactive).1, (Change.marked row at_).kept⟩
        · exact ⟨x, hx, Kept.refl x⟩

/-- The chains after an acceptance. -/
theorem Accepted.chains (ha : Accepted s s₁ s' actor q key policy clock runId r e)
    (h : Contiguous s) (id : String) :
    (s'.runEvents id).length ≤ (s.runEvents id).length + 2 ∧
      (id ≠ runId → s.runs.get? id = none → s'.runEvents id = s.runEvents id) := by
  have hlogged : ∀ hc : Contiguous s₁,
      (s'.runEvents id).length ≤ (s₁.runEvents id).length + 1 :=
    fun hc => ha.logged.length_le (s := { s₁ with runs := s₁.runs.put r }) hc id
  have hother : id ≠ runId → s'.runEvents id = s₁.runEvents id := by
    intro hne
    rw [← ha.id] at hne
    exact ha.logged.runEvents_ne hne
  cases ha.cleared with
  | idle => exact ⟨Nat.le_succ_of_le (hlogged h), fun hne _ => hother hne⟩
  | marked => exact ⟨Nat.le_succ_of_le (hlogged h), fun hne _ => hother hne⟩
  | marks row at_ e s₁ _ hactive _ hlog =>
      have hfound := (active?_eq_some hactive).1
      have hmark := hlog.length_le h id
      have hnew := hlogged (hlog.contiguous h)
      refine ⟨Nat.le_trans hnew (Nat.add_le_add_right hmark 1), ?_⟩
      intro hne hfree
      rw [hother hne]
      refine hlog.runEvents_ne ?_
      rintro rfl
      rw [hfree] at hfound
      exact absurd hfound (by simp)

end Accepted

theorem apply_acceptRun {actor : Actor} {q : RunRequest} {key : String}
    {policy : ConcurrencyPolicy} {clock : Nat → Int} {runId : String}
    {eventId : Nat → EntityId .event}
    (h : s.acceptRun actor q key policy clock runId eventId = .ok (s', r)) :
    RunCall.apply s (.acceptRun actor q key policy clock runId eventId) = s' := by
  unfold RunCall.apply
  rw [RunCall.run, h]
  rfl

end RunStore

end Ophelia

/-! ### Three replacements -/

namespace Ophelia.Reference

attribute [local instance] platform

open RunStore (Unused Fits Short Sound Accepted)

theorem length_isoformat (d : Int) : (isoformat d).toList.length = 20 := by
  have hminute : MINUTE.length = 17 := by decide
  simp [isoformat, seconds, hminute]

theorem timestamp_eq_ok {t : Int} {u : Utc} (h : timestamp t = .ok u) :
    ∃ d, fromTimestamp t = some d ∧ u.val = isoformat d := by
  unfold timestamp at h
  split at h
  · rename_i d hd
    exact ⟨d, hd, congrArg (·.val) (Except.ok.inj h).symm⟩
  · exact absurd h (by simp)

theorem short_timestamp {t : Int} {u : Utc} (h : timestamp t = .ok u) : Short u.val := by
  obtain ⟨d, -, hval⟩ := timestamp_eq_ok h
  rw [hval, Short, Json.textWeight, length_isoformat]
  decide

def nightly : WorkloadKey := ⟨"host_a", "web", "production", "nightly"⟩

def nightlyRun : RunStore.RunRequest :=
  ⟨nightly, "rev_a", "sha256:a", "job", "manual"⟩

/-- The key of the first, the second and the third acceptance. -/
def runKey : Nat → String
  | 0 => "a"
  | 1 => "b"
  | _ => "c"

def runId (i : Nat) : String := "run_" ++ runKey i

def runEvent : Nat → Nat → EntityId .event
  | 0, 0 => ⟨"event_a", by decide⟩
  | 0, _ => ⟨"event_b", by decide⟩
  | 1, 0 => ⟨"event_c", by decide⟩
  | 1, _ => ⟨"event_d", by decide⟩
  | _, 0 => ⟨"event_e", by decide⟩
  | _, _ => ⟨"event_f", by decide⟩

/-- The acceptances are a second apart. -/
def runClock (i : Nat) : Nat → Int := fun _ => EPOCH + i

theorem runKey_injective {i j : Nat} (hi : i < 3) (hj : j < 3)
    (h : Ophelia.digestText (runKey i) = Ophelia.digestText (runKey j)) : i = j := by
  have hval := congrArg (·.val) h
  interval_cases i <;> interval_cases j <;> first | rfl | exact absurd hval (by decide +kernel)

theorem runId_injective : ∀ i < 3, ∀ j < 3, runId i = runId j → i = j := by
  decide +kernel

theorem runEvent_ne : ∀ i < 3, ∀ j < 3, i < j → ∀ m < 2, ∀ n < 2,
    runEvent j m ≠ runEvent i n := by
  decide +kernel

theorem fits_runId : ∀ i < 3, Fits (runId i) actor := by
  intro i hi
  have hshort : ∀ i < 3, Json.textWeight (runId i) ≤ 3000 := by decide +kernel
  have hactor : Json.textWeight actor.actorId.val ≤ 3000 := by decide +kernel
  exact ⟨hshort i hi, hactor⟩

theorem length_nightlyRun : (canonicalJson (nightlyRun.toJson actor)).toList.length ≤ 65536 := by
  have hplain : plain (nightlyRun.toJson actor) = true := by decide +kernel
  have hweight : (nightlyRun.toJson actor).weight ≤ 65536 := by decide +kernel
  rw [RunStore.RunRequest.toJson] at hplain hweight ⊢
  rw [canonicalJson_of_plain hplain]
  exact Nat.le_trans (Json.length_dumps_le _) (Nat.le_trans (weight_mask_le _) hweight)

/-- A store after the first `i` acceptances. -/
structure After (i : Nat) (s : RunStore) : Prop where
  sound : Sound s
  rows : ∀ x ∈ s.runs.rows, ∃ j < i, x.runId = runId j ∧
    x.idempotencyKeyDigest = Ophelia.digestText (runKey j)
  chains : ∀ id, (s.runEvents id).length ≤ 2 * i
  later : ∀ j < 3, i ≤ j → s.runEvents (runId j) = []
  unused : ∀ j < 3, i ≤ j → ∀ n, Unused s (runEvent j n)

theorem After.empty : After 0 RunStore.empty :=
  ⟨Sound.empty, fun x hx => absurd hx (by simp [RunStore.empty]), fun _ => Nat.le_refl _,
    fun _ _ _ => rfl, fun _ _ _ _ => ⟨fun e he => absurd he (by simp [RunStore.empty]),
      fun e he => absurd he (by simp [RunStore.empty])⟩⟩

theorem runEvent_eq (i n : Nat) : runEvent i n = runEvent i (min n 1) := by
  match i, n with
  | 0, 0 | 0, n + 1 | 1, 0 | 1, n + 1 | i + 2, 0 | i + 2, n + 1 => simp [runEvent]

/-- The next acceptance goes through. -/
theorem After.accept {i : Nat} {s : RunStore} (h : After i s) (hi : i < 3) :
    ∃ s' s₁ r e, s.acceptRun actor nightlyRun (runKey i) .replace (runClock i) (runId i)
        (runEvent i) = .ok (s', r) ∧
      s.keyed? actor.actorId (Ophelia.digestText (runKey i)) = none ∧
      Accepted s s₁ s' actor nightlyRun (runKey i) .replace (runClock i) (runId i) r e ∧
      After (i + 1) s' := by
  have hkey : s.keyed? actor.actorId (Ophelia.digestText (runKey i)) = none := by
    rw [RunStore.keyed?_eq_none]
    intro x hx hsame
    obtain ⟨j, hj, -, hdigest⟩ := h.rows x hx
    have hij := runKey_injective (by omega) hi (hdigest.symm.trans hsame.2)
    omega
  have hfree : ∀ j < 3, i ≤ j → s.runs.get? (runId j) = none := by
    intro j hj hij
    refine Table.get?_eq_none.mpr fun x hx hid => ?_
    obtain ⟨j', hj', hrun, -⟩ := h.rows x hx
    have hjj := runId_injective j' (by omega) j hj (hrun.symm.trans hid)
    omega
  have hclock : ∀ n, Platform.fromTimestamp (runClock i n) = some ((EPOCH + i) * 1000000) := by
    intro n
    have hrange : EPOCH ≤ EPOCH + (i : Int) ∧ EPOCH + (i : Int) < EPOCH + 60 := by omega
    exact if_pos hrange
  have hactive : ∀ row, s.active? nightlyRun.workload = some row → Fits row.runId actor ∧
      (s.runEvents row.runId).length < 9 := by
    intro row hrow
    obtain ⟨j, hj, hrun, -⟩ := h.rows row (Table.mem_of_get? (RunStore.active?_eq_some hrow).1)
    refine ⟨hrun ▸ fits_runId j (by omega), ?_⟩
    have hchain := h.chains row.runId
    omega
  have hids : runEvent i 1 ≠ runEvent i 0 := by
    have hne : ∀ i < 3, runEvent i 1 ≠ runEvent i 0 := by decide +kernel
    exact hne i hi
  obtain ⟨s', r, haccept, hother⟩ := RunStore.acceptRun_replace_ok h.sound hkey hclock
    (fun n u hu => short_timestamp hu) length_nightlyRun (hfree i hi (Nat.le_refl i))
    (h.later i hi (Nat.le_refl i)) (h.unused i hi (Nat.le_refl i)) hids (fits_runId i hi) hactive
  rcases RunStore.acceptRun_eq_ok haccept with ⟨hold, -⟩ | ⟨-, s₁, e, ha⟩
  · rw [hkey] at hold
    exact absurd hold (by simp)
  have hrun : (RunCall.acceptRun actor nightlyRun (runKey i) .replace (runClock i) (runId i)
      (runEvent i)).run s = .ok s' := by
    rw [RunCall.run, haccept]
    rfl
  refine ⟨s', s₁, r, e, haccept, hkey, ha, ?_⟩
  refine ⟨h.sound.movesTo (RunStore.movesTo_run hrun), ?_, ?_, ?_, ?_⟩
  · intro x hx
    rcases ha.mem_rows hx with rfl | ⟨y, hy, hkept⟩
    · exact ⟨i, Nat.lt_succ_self i, ha.id, ha.digest⟩
    · obtain ⟨j, hj, hid, hdigest⟩ := h.rows y hy
      exact ⟨j, Nat.lt_succ_of_lt hj, hkept.runId.trans hid, hkept.key.trans hdigest⟩
  · intro id
    have hlength := (ha.chains h.sound.contiguous id).1
    have hchain := h.chains id
    omega
  · intro j hj hij
    have hne : runId j ≠ runId i := by
      intro heq
      have hji := runId_injective j hj i hi heq
      omega
    rw [(ha.chains h.sound.contiguous (runId j)).2 hne (hfree j hj (by omega))]
    exact h.later j hj (by omega)
  · intro j hj hij n
    have hne := runEvent_ne i hi j hj (by omega) (min n 1) (by omega)
    rw [runEvent_eq j n]
    exact hother _ (h.unused j hj (by omega) _) (hne 0 (by decide)) (hne 1 (by decide))

/-- The first two acceptances, both replacements. -/
def twoReplacements : List RunCall :=
  [.acceptRun actor nightlyRun (runKey 0) .replace (runClock 0) (runId 0) (runEvent 0),
    .acceptRun actor nightlyRun (runKey 1) .replace (runClock 1) (runId 1) (runEvent 1)]

theorem acceptedAt_lt : isoformat ((EPOCH + 0) * 1000000) < isoformat ((EPOCH + 1) * 1000000) := by
  decide +kernel

end Ophelia.Reference
