import Ophelia.Daemon.HostEvents
import Ophelia.Journal.Closure
import Mathlib.Data.List.Dedup

/-!
# Ophelia.Daemon.Delivery

Nothing is skipped in the host event stream. The journal alone is coherent
(`Journal.Coherent`) when its host events are those of its operations; with the events of
workload runs among them it is coherent up to the stream, which is all that the verification
of histories reads. `HostStore.Sound` adds what ties the rows of the stream to the two tables
of events, and it is kept by every write of the journal and every move of the runs.
-/

namespace Ophelia

/-! ### Texts that are read back -/

/-- The keys of a plain value name no commands. -/
theorem steady_of_plain {j : Json} (h : plain j = true) (b : Bool) {k : Option String}
    (hk : k.any looksLikeCommandKey = false) : steady b k j = true := by
  induction j using Json.induction generalizing b k with
  | arr xs ih =>
      rw [steady_arr]
      exact fun x hx => ih x hx (plain_arr.mp h x hx) b hk
  | obj ms ih =>
      rw [steady_obj]
      intro m hm
      obtain ⟨hkey, hvalue⟩ := plain_obj.mp h m hm
      have hcommand : looksLikeCommandKey m.1 = false := by
        simp only [plainKey, Bool.and_eq_true, Bool.not_eq_true'] at hkey
        exact hkey.1.2
      exact ih m hm hvalue _ (by simpa using hcommand)
  | str s => simp [steady, steadyScalar, hk]
  | null => rfl
  | bool x => rfl
  | int n => rfl
  | float r => rfl

variable [Platform]

/-- The text of a row reads, prints the same and has the digest of the row. -/
def HostEventRow.Readable (row : HostEventRow) : Prop :=
  ∃ payload, Json.loads row.payloadJson = some payload ∧ canonicalJson payload = row.payloadJson ∧
    digestText row.payloadJson = row.eventDigest

theorem readable_of_steady {row : HostEventRow} {v : Json} (hv : steady false none v = true)
    (htext : row.payloadJson = canonicalJson v) (hdigest : row.eventDigest = digestText row.payloadJson) :
    row.Readable := by
  have hloads := canonicalJson_loads hv
  rw [← htext, Option.map_eq_some_iff] at hloads
  obtain ⟨payload, hpayload, hsame⟩ := hloads
  exact ⟨payload, hpayload, hsame, hdigest.symm⟩

/-! ### Rows and their events -/

/-- A row of the stream was written with an event of an operation. -/
structure HostEventRow.Mirrors (row : HostEventRow) (e : EventRow) : Prop where
  type : row.eventType = .operation
  operationId : row.operationId = some e.operationId
  eventId : row.eventId = e.eventId

/-- The events of one operation, in their order. -/
def EventRow.Precedes (e e' : EventRow) : Prop :=
  e.operationId = e'.operationId ∧ e.sequence.1 < e'.sequence.1

namespace HostStore

variable {h : HostStore} {j j' : Journal} {s' : RunStore}

/-- The journal is coherent up to its stream. -/
def Coherent (j : Journal) : Prop :=
  ∃ stream, Journal.Coherent { j with hostEvents := stream, eventDelivery := .empty }

/-- What holds of the store whatever is written. -/
structure Sound (h : HostStore) : Prop where
  coherent : Coherent h.journal
  ascending : Feed.Ascending HostEventRow.cursor h.journal.hostEvents.rows
  readable : ∀ row ∈ h.journal.hostEvents.rows, row.Readable
  origin : ∀ row ∈ h.journal.hostEvents.rows,
    (∃ e ∈ h.journal.operationEvents.rows, row.Mirrors e) ∨
      ∃ e ∈ h.runEvents.rows, row = RunStore.hostRow e row.cursor
  mirrored : ∀ e ∈ h.journal.operationEvents.rows, ∃ row ∈ h.journal.hostEvents.rows, row.Mirrors e
  eventIds : (h.journal.hostEvents.rows.map (·.eventId)).Nodup
  inOrder : ∀ row ∈ h.journal.hostEvents.rows, ∀ row' ∈ h.journal.hostEvents.rows,
    ∀ e ∈ h.journal.operationEvents.rows, ∀ e' ∈ h.journal.operationEvents.rows,
      row.Mirrors e → row'.Mirrors e' → e.Precedes e' → row.cursor < row'.cursor
  runEventIds : ∀ e ∈ h.runEvents.rows, ∀ e' ∈ h.runEvents.rows, e.eventId = e'.eventId → e = e'

theorem Sound.fresh : Sound fresh where
  coherent := ⟨.empty, Journal.Coherent.fresh⟩
  ascending := List.Pairwise.nil
  readable := by simp [HostStore.fresh, Journal.fresh]
  origin := by simp [HostStore.fresh, Journal.fresh]
  mirrored := by simp [HostStore.fresh, Journal.fresh]
  eventIds := by simp [HostStore.fresh, Journal.fresh]
  inOrder := by simp [HostStore.fresh, Journal.fresh]
  runEventIds := by simp [HostStore.fresh]

/-! ### Coherence up to the stream -/

theorem le_latestCursor {row : HostEventRow} (hrow : row ∈ j.hostEvents.rows) :
    row.cursor ≤ j.latestCursor :=
  foldr_max_le.mp le_rfl _ (List.mem_map_of_mem hrow)

/-- An event that the journal takes would also be taken with a stream of operations only. -/
theorem appends_up_to {stream : Table HostEventRow.cursor} {o : OperationRow}
    {event : OperationEvent} {b : Bool}
    (hcoh : Journal.Coherent { j with hostEvents := stream, eventDelivery := .empty })
    (happ : Journal.Appends j o event b) :
    Journal.Appends { j with hostEvents := stream, eventDelivery := .empty } o event b where
  found := happ.found
  nonterminal := happ.nonterminal
  allowed := happ.allowed
  hostId := happ.hostId
  app := happ.app
  environment := happ.environment
  revisionId := happ.revisionId
  sequence := happ.sequence
  previous := happ.previous
  eventId := happ.eventId
  hostEventId row hrow heq := by
    obtain ⟨e, he, hid, -⟩ := hcoh.mirror.mirrored row hrow
    exact happ.eventId e he (hid.trans heq)
  free := happ.free
  freeCursor := by
    refine Table.get?_eq_none.mpr fun row hrow heq => ?_
    have hle := le_latestCursor (j := { j with hostEvents := stream, eventDelivery := .empty }) hrow
    omega

theorem coherent_write (hj : Coherent j) (hw : Journal.Write j j') : Coherent j' := by
  obtain ⟨stream, hcoh⟩ := hj
  cases hw with
  | accept ha =>
      obtain ⟨h₁, h₂, h₃, h₄, h₅, h₆, rfl⟩ := ha
      exact ⟨stream, hcoh.write (.accept ⟨h₁, h₂, h₃, h₄, h₅, h₆, rfl⟩)⟩
  | cancel hk actor requestedAt => exact ⟨stream, hcoh.withCancellation hk actor requestedAt⟩
  | lease hl hs => exact ⟨stream, hcoh.write (.lease hl hs)⟩
  | active actives atomics => exact ⟨stream, hcoh.write (.active actives atomics)⟩
  | event happ => exact ⟨_, hcoh.write (.event (appends_up_to hcoh happ))⟩
  | commit hterse hc =>
      exact ⟨_, hcoh.write (.commit hterse
        ⟨hc.noReceipt, hc.accepted, hc.binds, appends_up_to hcoh hc.appends, hc.free⟩)⟩
  | lifecycle ht fence =>
      exact ⟨stream, hcoh.withLifecycle ⟨ht.found, ht.nonterminal, ht.loaded, ht.revisionId,
        ht.revisionDigest, ht.permitted, ht.sequence, ht.free⟩⟩

/-- The histories of operations verify, whatever else is in the stream. -/
theorem Sound.verifiedEvents (hh : Sound h) {id : EntityId .operation}
    (hk : h.journal.Known id) : ∃ events, h.journal.verifiedEvents id = .ok events := by
  obtain ⟨stream, hcoh⟩ := hh.coherent
  exact hcoh.history hk

theorem Sound.known (hh : Sound h) {e : EventRow} (he : e ∈ h.journal.operationEvents.rows) :
    h.journal.Known e.operationId := by
  obtain ⟨stream, hcoh⟩ := hh.coherent
  exact hcoh.events e he

/-! ### Growth -/

/-- The stream gets longer behind its last cursor. -/
def Grows (h h' : HostStore) : Prop :=
  ∃ new, h'.journal.hostEvents.rows = h.journal.hostEvents.rows ++ new ∧
    ∀ row ∈ new, h.journal.latestCursor < row.cursor

theorem Grows.of_eq {h' : HostStore} (heq : h'.journal.hostEvents = h.journal.hostEvents) :
    Grows h h' :=
  ⟨[], by rw [heq, List.append_nil], by simp⟩

theorem Grows.latestCursor_le {h' : HostStore} (hg : Grows h h') :
    h.journal.latestCursor ≤ h'.journal.latestCursor := by
  obtain ⟨new, hrows, -⟩ := hg
  rw [Journal.latestCursor, foldr_max_le]
  intro m hm
  obtain ⟨row, hrow, rfl⟩ := List.mem_map.mp hm
  exact le_latestCursor (hrows ▸ List.mem_append_left _ hrow)

theorem Grows.trans {h' h'' : HostStore} (hg : Grows h h') (hg' : Grows h' h'') :
    Grows h h'' := by
  have hle := hg.latestCursor_le
  obtain ⟨new, hrows, hnew⟩ := hg
  obtain ⟨new', hrows', hnew'⟩ := hg'
  refine ⟨new ++ new', by rw [hrows', hrows, List.append_assoc], fun row hrow => ?_⟩
  rcases List.mem_append.mp hrow with hrow | hrow
  · exact hnew row hrow
  · exact hle.trans_lt (hnew' row hrow)

/-- Both writers add their row at the next cursor. -/
theorem grows_put {h' : HostStore} {row : HostEventRow}
    (hcursor : row.cursor = h.journal.latestCursor + 1)
    (hput : h'.journal.hostEvents = h.journal.hostEvents.put row) :
    h'.journal.hostEvents.rows = h.journal.hostEvents.rows ++ [row] ∧ Grows h h' := by
  have hfree : h.journal.hostEvents.get? row.cursor = none := by
    refine Table.get?_eq_none.mpr fun x hx heq => ?_
    have hle := le_latestCursor hx
    omega
  have hrows : h'.journal.hostEvents.rows = h.journal.hostEvents.rows ++ [row] := by
    rw [hput, Table.rows_put_of_get?_none hfree]
  refine ⟨hrows, [row], hrows, fun x hx => ?_⟩
  rw [List.mem_singleton.mp hx]
  omega

theorem ascending_put {rows : List HostEventRow} {row : HostEventRow}
    (hasc : Feed.Ascending HostEventRow.cursor rows) (hlt : ∀ x ∈ rows, x.cursor < row.cursor) :
    Feed.Ascending HostEventRow.cursor (rows ++ [row]) :=
  List.pairwise_append.mpr ⟨hasc, List.pairwise_singleton _ _, fun x hx _ hy =>
    List.mem_singleton.mp hy ▸ hlt x hx⟩

theorem nodup_put {rows : List HostEventRow} {row : HostEventRow}
    (hn : (rows.map (·.eventId)).Nodup) (hne : ∀ x ∈ rows, x.eventId ≠ row.eventId) :
    ((rows ++ [row]).map (·.eventId)).Nodup := by
  rw [List.map_append, List.map_singleton, List.nodup_append]
  refine ⟨hn, List.nodup_singleton _, fun a ha b hb => ?_⟩
  obtain ⟨x, hx, rfl⟩ := List.mem_map.mp ha
  exact List.mem_singleton.mp hb ▸ hne x hx

/-! ### Events of operations -/

/-- The next event of an operation is numbered above all its events. -/
theorem Sound.sequence_lt (hh : Sound h) {o : OperationRow} {event : OperationEvent} {b : Bool}
    (happ : Journal.Appends h.journal o event b) {e : EventRow}
    (he : e ∈ h.journal.operationEvents.rows) (hid : e.operationId = event.operationId) :
    e.sequence.1 < event.sequence.1 := by
  obtain ⟨events, hevents⟩ := hh.verifiedEvents (hid ▸ hh.known he)
  obtain ⟨r, claims, p, hhist⟩ := Journal.verifiedEvents_eq_ok.mp hevents
  have hend := Journal.chainEnd_of_verifyChain hhist.chain
  have hnext := (Journal.nextEvent_of_verifyChain hhist.chain).1
  have hmem : e ∈ h.journal.eventRows event.operationId := Table.mem_log.mpr ⟨he, hid⟩
  have hle := hend.sequence e hmem
  have hposition := hend.position
  rw [happ.sequence, hnext]
  omega

/-- The stream after an event of an operation. -/
theorem Sound.operation (hh : Sound h) {o : OperationRow} {event : OperationEvent} {b : Bool}
    (happ : Journal.Appends h.journal o event b) (hcoh : Coherent j')
    (hevents : j'.operationEvents = (h.journal.withEvent o event
      (OperationEvent.schema.canonicalJson event)).operationEvents)
    (hstream : j'.hostEvents = (h.journal.withEvent o event
      (OperationEvent.schema.canonicalJson event)).hostEvents) :
    Sound { h with journal := j' } ∧ Grows h { h with journal := j' } := by
  have hput : ({ h with journal := j' } : HostStore).journal.hostEvents =
      h.journal.hostEvents.put _ := hstream
  obtain ⟨hrows, hgrows⟩ := grows_put rfl hput
  have hlog : j'.operationEvents.rows = h.journal.operationEvents.rows ++
      [Journal.eventRow event] := by
    rw [hevents]
    exact Table.rows_put_of_get?_none happ.free
  set row : HostEventRow :=
    { cursor := h.journal.latestCursor + 1, eventId := event.eventId, eventType := .operation,
      operationId := some event.operationId, workloadRunId := none,
      eventDigest := OperationEvent.schema.digest event, occurredAt := event.occurredAt,
      payloadJson := OperationEvent.schema.canonicalJson event } with hrow
  have hlt : ∀ x ∈ h.journal.hostEvents.rows, x.cursor < row.cursor :=
    fun x hx => Nat.lt_succ_of_le (le_latestCursor hx)
  have hmirrors : row.Mirrors (Journal.eventRow event) := ⟨rfl, rfl, rfl⟩
  refine ⟨⟨hcoh, ?_, ?_, ?_, ?_, ?_, ?_, hh.runEventIds⟩, hgrows⟩
  · rw [hrows]
    exact ascending_put hh.ascending hlt
  · intro x hx
    rw [hrows] at hx
    rcases List.mem_append.mp hx with hx | hx
    · exact hh.readable x hx
    · rw [List.mem_singleton.mp hx]
      refine readable_of_steady (steady_of_plain (OperationEvent.schema.plain_raw event) _ rfl) ?_ rfl
      exact (OperationEvent.schema.canonicalJson_raw event).symm
  · intro x hx
    rw [hrows] at hx
    rcases List.mem_append.mp hx with hx | hx
    · rcases hh.origin x hx with ⟨e, he, hm⟩ | hrun
      · exact Or.inl ⟨e, hlog ▸ List.mem_append_left _ he, hm⟩
      · exact Or.inr hrun
    · rw [List.mem_singleton.mp hx]
      exact Or.inl ⟨_, hlog ▸ List.mem_append_right _ (List.mem_singleton_self _), hmirrors⟩
  · intro e he
    rw [hlog] at he
    rw [hrows]
    rcases List.mem_append.mp he with he | he
    · obtain ⟨x, hx, hm⟩ := hh.mirrored e he
      exact ⟨x, List.mem_append_left _ hx, hm⟩
    · rw [List.mem_singleton.mp he]
      exact ⟨row, List.mem_append_right _ (List.mem_singleton_self _), hmirrors⟩
  · rw [hrows]
    exact nodup_put hh.eventIds happ.hostEventId
  · intro x hx x' hx' e he e' he' hm hm' hprec
    rw [hrows] at hx hx'
    rw [hlog] at he he'
    -- a row of the old stream mirrors an old event, the new row the new one
    have hold : ∀ {x : HostEventRow} {e : EventRow}, x ∈ h.journal.hostEvents.rows →
        e ∈ h.journal.operationEvents.rows ++ [Journal.eventRow event] → x.Mirrors e →
        e ∈ h.journal.operationEvents.rows := by
      intro x e hx he hm
      rcases List.mem_append.mp he with he | he
      · exact he
      · rw [List.mem_singleton.mp he] at hm
        exact absurd hm.eventId (happ.hostEventId x hx)
    rcases List.mem_append.mp hx' with hx' | hx'
    · have he' := hold hx' he' hm'
      rcases List.mem_append.mp hx with hx | hx
      · exact hh.inOrder x hx x' hx' e (hold hx he hm) e' he' hm hm' hprec
      · exfalso
        rw [List.mem_singleton.mp hx] at hm
        rcases List.mem_append.mp he with he | he
        · exact happ.eventId e he hm.eventId.symm
        · rw [List.mem_singleton.mp he] at hprec
          exact absurd (hh.sequence_lt happ he' hprec.1.symm) (not_lt.mpr hprec.2.le)
    · rw [List.mem_singleton.mp hx'] at hm' ⊢
      rcases List.mem_append.mp hx with hx | hx
      · exact hlt x hx
      · exfalso
        rw [List.mem_singleton.mp hx] at hm
        have hsame : e = e' := by
          have hid : e.eventId = e'.eventId := hm.eventId.symm.trans hm'.eventId
          rcases List.mem_append.mp he with he | he
          · exact absurd hm.eventId.symm (happ.eventId e he)
          · rcases List.mem_append.mp he' with he' | he'
            · exact absurd hm'.eventId.symm (happ.eventId e' he')
            · rw [List.mem_singleton.mp he, List.mem_singleton.mp he']
        exact absurd hprec.2 (hsame ▸ lt_irrefl _)

/-- A write of the journal leaves the stream alone, or appends an event to it. -/
theorem write_stream (hw : Journal.Write j j') :
    j'.eventDelivery = j.eventDelivery ∧
    ((j'.operationEvents = j.operationEvents ∧ j'.hostEvents = j.hostEvents) ∨
      ∃ o event b, Journal.Appends j o event b ∧
        j'.operationEvents = (j.withEvent o event
          (OperationEvent.schema.canonicalJson event)).operationEvents ∧
        j'.hostEvents = (j.withEvent o event
          (OperationEvent.schema.canonicalJson event)).hostEvents) := by
  cases hw with
  | accept ha =>
      obtain ⟨-, -, -, -, -, -, rfl⟩ := ha
      exact ⟨rfl, Or.inl ⟨rfl, rfl⟩⟩
  | cancel hk actor requestedAt => exact ⟨rfl, Or.inl ⟨rfl, rfl⟩⟩
  | lease hl hs => exact ⟨rfl, Or.inl ⟨rfl, rfl⟩⟩
  | active actives atomics => exact ⟨rfl, Or.inl ⟨rfl, rfl⟩⟩
  | event happ => exact ⟨rfl, Or.inr ⟨_, _, _, happ, rfl, rfl⟩⟩
  | commit hterse hc => exact ⟨rfl, Or.inr ⟨_, _, _, hc.appends, rfl, rfl⟩⟩
  | lifecycle ht fence => exact ⟨rfl, Or.inl ⟨rfl, rfl⟩⟩

theorem Sound.write (hh : Sound h) (hw : Journal.Write h.journal j') :
    Sound { h with journal := j' } ∧ Grows h { h with journal := j' } := by
  have hcoh := coherent_write hh.coherent hw
  rcases (write_stream hw).2 with ⟨hevents, hstream⟩ | ⟨o, event, b, happ, hevents, hstream⟩
  · refine ⟨⟨hcoh, ?_, ?_, ?_, ?_, ?_, ?_, hh.runEventIds⟩, Grows.of_eq hstream⟩
    · exact hstream ▸ hh.ascending
    · exact hstream ▸ hh.readable
    · exact hstream ▸ hevents ▸ hh.origin
    · exact hstream ▸ hevents ▸ hh.mirrored
    · exact hstream ▸ hh.eventIds
    · exact hstream ▸ hevents ▸ hh.inOrder
  · exact hh.operation happ hcoh hevents hstream

theorem Sound.writesTo (hh : Sound h) (hw : Journal.WritesTo h.journal j') :
    Sound { h with journal := j' } ∧ Grows h { h with journal := j' } ∧
      j'.eventDelivery = h.journal.eventDelivery := by
  induction hw with
  | refl => exact ⟨hh, Grows.of_eq rfl, rfl⟩
  | @tail j₁ j₂ _ hstep ih =>
      obtain ⟨hsound, hgrows, hdelivery⟩ := ih
      obtain ⟨hsound', hgrows'⟩ := hsound.write (h := { h with journal := j₁ }) hstep
      exact ⟨hsound', hgrows.trans hgrows', (write_stream hstep).1.trans hdelivery⟩

/-! ### Events of runs -/

/-- The stream after an event of a run. -/
theorem Sound.logged (hh : Sound h) {runs : Table WorkloadRun.runId} {runId : String}
    {t : RunEventType} {e : RunEvent}
    (hlog : RunStore.Logged { h.runStore with runs := runs } s' runId t e) :
    Sound (h.withRuns s') ∧ Grows h (h.withRuns s') := by
  set row := RunStore.hostRow e (h.journal.latestCursor + 1) with hrow
  have hput : (h.withRuns s').journal.hostEvents = h.journal.hostEvents.put row := hlog.hostEvents
  obtain ⟨hrows, hgrows⟩ := grows_put rfl hput
  have hlog' : s'.events.rows = h.runEvents.rows ++ [e] := by
    rw [hlog.events]
    exact Table.rows_put_of_get?_none hlog.free
  have hlt : ∀ x ∈ h.journal.hostEvents.rows, x.cursor < row.cursor :=
    fun x hx => Nat.lt_succ_of_le (le_latestCursor hx)
  -- a row of a run mirrors no event of an operation
  have hforeign : ∀ {e' : EventRow}, ¬ row.Mirrors e' := fun hm => absurd hm.type (by simp [hrow,
    RunStore.hostRow])
  refine ⟨⟨hh.coherent, ?_, ?_, ?_, ?_, ?_, ?_, ?_⟩, hgrows⟩
  · rw [hrows]
    exact ascending_put hh.ascending hlt
  · intro x hx
    rw [hrows] at hx
    rcases List.mem_append.mp hx with hx | hx
    · exact hh.readable x hx
    · rw [List.mem_singleton.mp hx]
      exact readable_of_steady hlog.steady rfl hlog.digest
  · intro x hx
    rw [hrows] at hx
    rcases List.mem_append.mp hx with hx | hx
    · rcases hh.origin x hx with hop | ⟨e', he', heq⟩
      · exact Or.inl hop
      · exact Or.inr ⟨e', hlog' ▸ List.mem_append_left _ he', heq⟩
    · rw [List.mem_singleton.mp hx]
      exact Or.inr ⟨e, hlog' ▸ List.mem_append_right _ (List.mem_singleton_self _), rfl⟩
  · intro e' he'
    obtain ⟨x, hx, hm⟩ := hh.mirrored e' he'
    exact ⟨x, hrows ▸ List.mem_append_left _ hx, hm⟩
  · rw [hrows]
    exact nodup_put hh.eventIds hlog.hostEventId
  · intro x hx x' hx' e₁ he₁ e₂ he₂ hm hm' hprec
    rw [hrows] at hx hx'
    rcases List.mem_append.mp hx with hx | hx
    · rcases List.mem_append.mp hx' with hx' | hx'
      · exact hh.inOrder x hx x' hx' e₁ he₁ e₂ he₂ hm hm' hprec
      · exact absurd (List.mem_singleton.mp hx' ▸ hm') hforeign
    · exact absurd (List.mem_singleton.mp hx ▸ hm) hforeign
  · intro e₁ he₁ e₂ he₂ hid
    have he₁ : e₁ ∈ h.runEvents.rows ++ [e] := hlog' ▸ he₁
    have he₂ : e₂ ∈ h.runEvents.rows ++ [e] := hlog' ▸ he₂
    rcases List.mem_append.mp he₁ with he₁ | he₁
    · rcases List.mem_append.mp he₂ with he₂ | he₂
      · exact hh.runEventIds e₁ he₁ e₂ he₂ hid
      · exact absurd (List.mem_singleton.mp he₂ ▸ hid) (hlog.eventId e₁ he₁)
    · rcases List.mem_append.mp he₂ with he₂ | he₂
      · exact absurd (List.mem_singleton.mp he₁ ▸ hid.symm) (hlog.eventId e₂ he₂)
      · rw [List.mem_singleton.mp he₁, List.mem_singleton.mp he₂]

theorem Sound.moves (hh : Sound h) (hm : RunStore.Moves h.runStore s') :
    Sound (h.withRuns s') ∧ Grows h (h.withRuns s') := by
  cases hm with
  | records row e s' hfree hkey hrow hlog => exact hh.logged hlog
  | changes s' hc =>
      cases hc with
      | logged row row' t e s' hfound hlive hchange hlog => exact hh.logged hlog
      | silent row row' hfound hlive hchange =>
          exact ⟨⟨hh.coherent, hh.ascending, hh.readable, hh.origin, hh.mirrored, hh.eventIds,
            hh.inOrder, hh.runEventIds⟩, Grows.of_eq rfl⟩

theorem Sound.movesTo (hh : Sound h) (hm : RunStore.MovesTo h.runStore s') :
    Sound (h.withRuns s') ∧ Grows h (h.withRuns s') := by
  induction hm with
  | refl => exact ⟨hh, Grows.of_eq rfl⟩
  | @tail s₁ s₂ _ hstep ih =>
      obtain ⟨hsound, hgrows⟩ := ih
      obtain ⟨hsound', hgrows'⟩ := hsound.moves (h := h.withRuns s₁) hstep
      exact ⟨hsound', hgrows.trans hgrows'⟩

/-! ### Reading -/

theorem Sound.rowsAfter (hh : Sound h) (cursor limit : Nat) :
    h.rowsAfter cursor limit =
      Feed.batch HostEventRow.cursor h.journal.hostEvents.rows cursor limit := by
  have hsorted : (h.journal.hostEvents.rows.filter fun r => (cursor : Int) < r.cursor).Pairwise
      fun a b => a.cursor ≤ b.cursor :=
    (hh.ascending.filter _).imp le_of_lt
  rw [HostStore.rowsAfter, orderBy, hsorted.insertionSort_eq, Feed.batch]
  simp only [Int.ofNat_lt]

/-- No row of the stream fails its checks. -/
theorem Sound.readHostEvent (hh : Sound h) {row : HostEventRow}
    (hrow : row ∈ h.journal.hostEvents.rows) : ∃ e, h.readHostEvent row = .ok e ∧ e.row = row := by
  obtain ⟨payload, hloads, hcanonical, hdigest⟩ := hh.readable row hrow
  have hreconciles : row.eventType = .workload → h.workloadReconciles row = true := by
    intro htype
    rcases hh.origin row hrow with ⟨e, -, hm⟩ | ⟨e, he, heq⟩
    · exact absurd (htype.symm.trans hm.type) (by simp)
    · have hfind : (h.runEvents.rows.find? fun x => x.eventId = row.eventId) = some e := by
        obtain ⟨x, hx⟩ : ∃ x, (h.runEvents.rows.find? fun x => x.eventId = row.eventId) = some x := by
          refine Option.isSome_iff_exists.mp (List.find?_isSome.mpr ⟨e, he, ?_⟩)
          rw [heq]
          simp [RunStore.hostRow]
        have hid : x.eventId = e.eventId := by
          have hmatch : x.eventId = row.eventId := by simpa using List.find?_some hx
          rw [hmatch, heq]
          rfl
        rw [hx, hh.runEventIds x (List.mem_of_find?_eq_some hx) e he hid]
      rw [workloadReconciles, hfind, heq]
      simp [RunStore.hostRow]
  have hread : h.readHostEvent row = .ok
      { cursor := row.cursor, eventId := row.eventId, eventType := row.eventType,
        operationId := row.operationId, workloadRunId := row.workloadRunId,
        eventDigest := row.eventDigest, occurredAt := row.occurredAt, payload } := by
    unfold HostStore.readHostEvent
    refine Results.bind_ok (ensure_of hreconciles) ?_
    refine Results.bind_ok (a := payload) (by rw [jsonLoads, hloads]; rfl) ?_
    exact Results.bind_ok (ensure_of ⟨hcanonical, hcanonical ▸ hdigest⟩) rfl
  refine ⟨_, hread, ?_⟩
  rw [HostEvent.row]
  simp only [hcanonical]

omit [Platform] in
theorem mapM_rows {α β : Type} {f : α → Result β} {g : β → α} {xs : List α}
    (hf : ∀ x ∈ xs, ∃ y, f x = .ok y ∧ g y = x) : ∃ ys, xs.mapM f = .ok ys ∧ ys.map g = xs := by
  induction xs with
  | nil => exact ⟨[], rfl, rfl⟩
  | cons x xs ih =>
      obtain ⟨y, hy, hg⟩ := hf x List.mem_cons_self
      obtain ⟨ys, hys, hgs⟩ := ih fun z hz => hf z (List.mem_cons_of_mem _ hz)
      refine ⟨y :: ys, ?_, by rw [List.map_cons, hg, hgs]⟩
      rw [List.mapM_cons, hy, Result.ok_bind, hys, Result.ok_bind]
      rfl

/-- A batch is read whole, from the cursor on. -/
theorem Sound.hostEventsAfter (hh : Sound h) (cursor : Nat) {limit : Int}
    (hlimit : 1 ≤ limit ∧ limit ≤ 1000) :
    ∃ batch, h.hostEventsAfter cursor limit = .ok batch ∧ batch.map HostEvent.row =
      Feed.batch HostEventRow.cursor h.journal.hostEvents.rows cursor limit.toNat := by
  have hmem : ∀ row ∈ h.rowsAfter cursor limit.toNat, row ∈ h.journal.hostEvents.rows :=
    fun row hrow => (Feed.mem_of_mem_batch (hh.rowsAfter cursor _ ▸ hrow)).1
  obtain ⟨batch, hbatch, hrows⟩ := mapM_rows fun row hrow => hh.readHostEvent (hmem row hrow)
  refine ⟨batch, ?_, hrows.trans (hh.rowsAfter cursor _)⟩
  unfold HostStore.hostEventsAfter
  refine Results.bind_ok (ensure_of (Int.natCast_nonneg cursor)) ?_
  refine Results.bind_ok (ensure_of hlimit) ?_
  refine Results.bind_ok (Journal.forM_ok fun id hid => ?_) hbatch
  -- the operations of a batch are known, and the histories of these verify
  obtain ⟨row, hrow, hop⟩ := List.mem_filterMap.mp (List.mem_dedup.mp hid)
  rcases hh.origin row (hmem row hrow) with ⟨e, he, hm⟩ | ⟨e, he, heq⟩
  · obtain rfl := Option.some.inj (hop.symm.trans hm.operationId)
    obtain ⟨events, hevents⟩ := hh.verifiedEvents (hh.known he)
    exact Results.bind_ok hevents rfl
  · rw [heq] at hop
    exact absurd hop (by simp [RunStore.hostRow])

end HostStore

/-! ### The consumer -/

namespace Journal

variable {j j' : Journal}

/-- The row that an acknowledgement leaves for its consumer. -/
theorem acknowledgeHostEvents_put {consumerId : String} {cursor : Int} {clock : Option Int}
    {n : Nat} (h : j.acknowledgeHostEvents consumerId cursor clock = .ok (j', n)) :
    ∃ (consumer : Text 2048) (at_ : Utc), consumer.val = consumerId ∧ cursor ≤ j.latestCursor ∧
      j' = { j with eventDelivery := j.eventDelivery.put ⟨consumer,
        max cursor.toNat ((j.eventDelivery.get? consumer).elim 0 (·.acknowledgedCursor)), at_⟩ } := by
  unfold acknowledgeHostEvents at h
  obtain ⟨consumer, hconsumer, h⟩ := Results.bind_eq_ok.mp h
  obtain ⟨_, -, h⟩ := Results.bind_eq_ok.mp h
  obtain ⟨_, hle, h⟩ := Results.bind_eq_ok.mp h
  obtain ⟨now, -, h⟩ := Results.bind_eq_ok.mp h
  obtain ⟨at_, -, h⟩ := Results.bind_eq_ok.mp h
  obtain ⟨rfl, -⟩ := Prod.mk.inj (Except.ok.inj h)
  exact ⟨consumer, at_, requireText_eq_ok hconsumer, ensure_eq_ok.mp hle, rfl⟩

end Journal

namespace Delivery

variable {consumer : Text 2048} {d : Delivery} {store' : HostStore}

/-- The stream and its consumer as a feed. -/
def feed (consumer : Text 2048) (d : Delivery) : Feed.Consumer HostEventRow :=
  ⟨d.store.journal.hostEvents.rows, d.store.acknowledged consumer, d.received.map HostEvent.row⟩

/-- What holds of the consumer at every point. -/
structure Follows (consumer : Text 2048) (d : Delivery) : Prop where
  sound : d.store.Sound
  follows : (d.feed consumer).Follows HostEventRow.cursor
  bound : d.store.acknowledged consumer ≤ d.store.journal.latestCursor

/-- A write of the store that leaves the acknowledgement of the consumer alone. -/
theorem Follows.grow (hd : d.Follows consumer) (hsound : store'.Sound)
    (hgrows : HostStore.Grows d.store store')
    (hack : store'.acknowledged consumer = d.store.acknowledged consumer) :
    Follows consumer { d with store := store' } := by
  have hbound := hd.bound
  have hle := hgrows.latestCursor_le
  obtain ⟨new, hrows, hnew⟩ := hgrows
  refine ⟨hsound, ?_, hack ▸ hbound.trans hle⟩
  have hasc : Feed.Ascending HostEventRow.cursor (d.store.journal.hostEvents.rows ++ new) :=
    hrows ▸ hsound.ascending
  have happend := hd.follows.append hasc fun row hrow => hbound.trans_lt (hnew row hrow)
  rw [feed, hrows, hack]
  exact happend

/-- Another consumer's acknowledgement. -/
theorem acknowledged_put {other : Text 2048} (hne : other ≠ consumer) {n : Nat} {at_ : Utc}
    {h : HostStore} :
    ({ h with journal := { h.journal with
      eventDelivery := h.journal.eventDelivery.put ⟨other, n, at_⟩ } } : HostStore).acknowledged
        consumer = h.acknowledged consumer := by
  rw [HostStore.acknowledged, HostStore.acknowledged]
  simp only
  rw [Table.get?_put_ne _ (Ne.symm hne)]

theorem Follows.call (hd : d.Follows consumer) {c : Call}
    (hc : c.acknowledgesFor consumer = false) {j' : Journal}
    (hrun : c.run d.store.journal = .ok j') :
    Follows consumer { d with store := { d.store with journal := j' } } ∧
      ({ d.store with journal := j' } : HostStore).acknowledged consumer =
        d.store.acknowledged consumer := by
  cases hack : c.acknowledges with
  | false =>
      obtain ⟨hsound, hgrows, hdelivery⟩ := hd.sound.writesTo (Journal.writesTo_run hack hrun)
      have hsame : ({ d.store with journal := j' } : HostStore).acknowledged consumer =
          d.store.acknowledged consumer := by
        rw [HostStore.acknowledged, hdelivery]
        rfl
      exact ⟨hd.grow hsound hgrows hsame, hsame⟩
  | true =>
      cases c with
      | acknowledgeHostEvents consumerId cursor clock =>
          rw [Call.run] at hrun
          obtain ⟨n, hrun⟩ := Journal.map_fst_eq_ok hrun
          obtain ⟨other, at_, hother, -, rfl⟩ := Journal.acknowledgeHostEvents_put hrun
          have hne : other ≠ consumer := by
            intro heq
            rw [Call.acknowledgesFor, ← hother, heq] at hc
            exact absurd hc (by simp)
          have hsound := hd.sound
          refine ⟨hd.grow ?_ (.of_eq rfl) (acknowledged_put hne), acknowledged_put hne⟩
          exact ⟨hsound.coherent, hsound.ascending, hsound.readable, hsound.origin,
            hsound.mirrored, hsound.eventIds, hsound.inOrder, hsound.runEventIds⟩
      | _ => exact absurd hack (by simp [Call.acknowledges])

theorem Follows.acknowledge (hd : d.Follows consumer) {cursor : Nat}
    (hreached : d.reached cursor = true) {clock : Option Int} {j' : Journal}
    (hrun : (Call.acknowledgeHostEvents consumer.val cursor clock).run d.store.journal = .ok j') :
    Follows consumer { d with store := { d.store with journal := j' } } ∧
      d.store.acknowledged consumer ≤
        ({ d.store with journal := j' } : HostStore).acknowledged consumer := by
  rw [Call.run] at hrun
  obtain ⟨n, hrun⟩ := Journal.map_fst_eq_ok hrun
  obtain ⟨other, at_, hother, hle, rfl⟩ := Journal.acknowledgeHostEvents_put hrun
  obtain rfl : other = consumer := Refined.ext hother
  obtain ⟨e, he, hcursor⟩ := List.any_eq_true.mp hreached
  set store' : HostStore := { d.store with journal := { d.store.journal with
    eventDelivery := d.store.journal.eventDelivery.put ⟨other, max (cursor : Int).toNat
      ((d.store.journal.eventDelivery.get? other).elim 0 (·.acknowledgedCursor)), at_⟩ } } with hstore
  have hack : store'.acknowledged other = max cursor (d.store.acknowledged other) := by
    rw [hstore, HostStore.acknowledged]
    simp only
    rw [Table.get?_put_self]
    simp [HostStore.acknowledged]
  have hsound := hd.sound
  have hfollows := hd.follows.acknowledge (r := e.row) (List.mem_map_of_mem he)
    (of_decide_eq_true hcursor)
  refine ⟨⟨⟨hsound.coherent, hsound.ascending, hsound.readable, hsound.origin, hsound.mirrored,
    hsound.eventIds, hsound.inOrder, hsound.runEventIds⟩, ?_, ?_⟩, hack ▸ le_max_right _ _⟩
  · rw [feed, hack]
    exact hfollows
  · have hlatest : cursor ≤ d.store.journal.latestCursor := Int.ofNat_le.mp hle
    exact hack ▸ max_le hlatest hd.bound

/-- **One step** keeps the consumer in place and never takes its acknowledgement back. -/
theorem Follows.step (hd : d.Follows consumer) (s : DeliveryStep consumer) :
    Follows consumer (d.step consumer s) ∧
      d.store.acknowledged consumer ≤ (d.step consumer s).store.acknowledged consumer := by
  cases s with
  | call c foreign =>
      rw [Delivery.step, Call.apply]
      cases hrun : c.run d.store.journal with
      | error e => exact ⟨hd, le_rfl⟩
      | ok j' =>
          obtain ⟨hfollows, hsame⟩ := hd.call foreign hrun
          exact ⟨hfollows, hsame.ge⟩
  | run c =>
      rw [Delivery.step, RunCall.apply]
      cases hrun : c.run d.store.runStore with
      | error e => exact ⟨hd, le_rfl⟩
      | ok s' =>
          obtain ⟨hsound, hgrows⟩ := hd.sound.movesTo (RunStore.movesTo_run hrun)
          exact ⟨hd.grow hsound hgrows rfl, le_rfl⟩
  | poll limit =>
      rw [Delivery.step]
      by_cases hlimit : 1 ≤ limit ∧ limit ≤ 1000
      · obtain ⟨batch, hbatch, hrows⟩ :=
          hd.sound.hostEventsAfter (d.store.acknowledged consumer) hlimit
        rw [hbatch]
        refine ⟨⟨hd.sound, ?_, hd.bound⟩, le_rfl⟩
        rw [feed, List.map_append, hrows]
        exact hd.follows.poll limit.toNat
      · -- a batch of another size is refused
        split
        · rename_i batch hbatch
          unfold HostStore.hostEventsAfter at hbatch
          obtain ⟨_, -, hbatch⟩ := Results.bind_eq_ok.mp hbatch
          obtain ⟨_, hok, -⟩ := Results.bind_eq_ok.mp hbatch
          exact absurd (ensure_eq_ok.mp hok) hlimit
        · exact ⟨hd, le_rfl⟩
  | acknowledge cursor clock =>
      rw [Delivery.step]
      by_cases hreached : d.reached cursor = true
      · rw [if_pos hreached, Call.apply]
        cases hrun : (Call.acknowledgeHostEvents consumer.val cursor clock).run d.store.journal with
        | error e => exact ⟨hd, le_rfl⟩
        | ok j' => exact hd.acknowledge hreached hrun
      · rw [if_neg hreached]
        exact ⟨hd, le_rfl⟩

theorem Follows.fresh : Follows consumer ⟨.fresh, []⟩ :=
  ⟨HostStore.Sound.fresh, Feed.Consumer.Follows.empty, le_rfl⟩

theorem Follows.steps (hd : d.Follows consumer) (steps : List (DeliveryStep consumer)) :
    Follows consumer (steps.foldl (Delivery.step consumer) d) ∧
      d.store.acknowledged consumer ≤
        (steps.foldl (Delivery.step consumer) d).store.acknowledged consumer := by
  induction steps generalizing d with
  | nil => exact ⟨hd, le_rfl⟩
  | cons s steps ih =>
      obtain ⟨hstep, hle⟩ := hd.step s
      obtain ⟨hrest, hle'⟩ := ih hstep
      exact ⟨hrest, hle.trans hle'⟩

/-- **Delivery of host events.** After any run of calls, batches and acknowledgements, what is
acknowledged has been received; the next batch holds exactly the first events behind it;
the acknowledgement stays within the stream and never goes back; and an event comes after
all events before it in the stream, in particular after the earlier ones of its operation. -/
theorem host_events_delivered (consumer : Text 2048) (steps more : List (DeliveryStep consumer)) :
    let d := after consumer steps
    let rows := d.store.journal.hostEvents.rows
    let cursor := d.store.acknowledged consumer
    (∀ row ∈ rows, row.cursor ≤ cursor → row ∈ d.received.map HostEvent.row) ∧
    (∀ limit : Int, 1 ≤ limit → limit ≤ 1000 → ∃ batch,
      d.store.hostEventsAfter cursor limit = .ok batch ∧ batch.map HostEvent.row =
        (orderBy HostEventRow.cursor (rows.filter fun row => cursor < row.cursor)).take
          limit.toNat) ∧
    cursor ≤ d.store.journal.latestCursor ∧
    cursor ≤ (after consumer (steps ++ more)).store.acknowledged consumer ∧
    (∀ front e back, d.received = front ++ e :: back →
      (∀ row ∈ rows, row.cursor < e.cursor → row ∈ front.map HostEvent.row) ∧
      ∀ r ∈ d.store.journal.operationEvents.rows, ∀ r' ∈ d.store.journal.operationEvents.rows,
        e.row.Mirrors r' → r.Precedes r' → ∃ x ∈ front, x.row.Mirrors r) := by
  intro d rows cursor
  have hd : d.Follows consumer := (Follows.fresh.steps steps).1
  have hinOrder : ∀ front e back, d.received = front ++ e :: back →
      ∀ row ∈ rows, row.cursor < e.cursor → row ∈ front.map HostEvent.row := by
    intro front e back hsplit row hrow hlt
    refine hd.follows.inOrder (front.map HostEvent.row) e.row (back.map HostEvent.row) ?_ row hrow hlt
    change d.received.map HostEvent.row = _
    rw [hsplit, List.map_append, List.map_cons]
  refine ⟨hd.follows.acknowledged, fun limit hlow hhigh => ?_, hd.bound, ?_,
    fun front e back hsplit => ⟨hinOrder front e back hsplit, ?_⟩⟩
  · obtain ⟨batch, hbatch, hbatchRows⟩ := hd.sound.hostEventsAfter cursor ⟨hlow, hhigh⟩
    refine ⟨batch, hbatch, ?_⟩
    rw [hbatchRows, ← hd.sound.rowsAfter, HostStore.rowsAfter]
    simp only [Int.ofNat_lt]
    rfl
  · rw [after, List.foldl_append]
    exact (hd.steps more).2
  · intro r hr r' hr' hmirrors hprec
    obtain ⟨row, hrow, hm⟩ := hd.sound.mirrored r hr
    have hmem : e.row ∈ rows := hd.follows.received e.row (by
      change e.row ∈ d.received.map HostEvent.row
      rw [hsplit]
      simp)
    have hlt := hd.sound.inOrder row hrow e.row hmem r hr r' hr' hm hmirrors hprec
    obtain ⟨x, hx, rfl⟩ := List.mem_map.mp (hinOrder front e back hsplit row hrow hlt)
    exact ⟨x, hx, hm⟩

end Delivery

end Ophelia
