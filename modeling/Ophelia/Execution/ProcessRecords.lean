import Ophelia.Execution.ProcessBackend
import Ophelia.Domain.Reference

/-!
# Ophelia.Execution.ProcessRecords

Process records across releases. A start leaves a record of as many replicas as its bundle
asks for (`yields_start`); a backend reads a record only if it names as many replicas as its
own bundle does. A release with another number of replicas therefore neither drains nor
restores its predecessor (`actsOnReplicas_iff`).
-/

namespace Ophelia

open Program

/-! ### Moments -/

section Moments

variable {P Q : ProductHost → Prop} {e : ProductFailure}

/-- What a moment cannot break: processes exit and the tape is read. -/
def Steady (P : ProductHost → Prop) : Prop :=
  ∀ h m tape, h.tape = m :: tape → P h → P { h.exit m.exits with tape }

theorem keeps_nextEvent (hP : Steady P) : Keeps P nextEvent := by
  intro h hh
  unfold nextEvent
  cases htape : h.tape with
  | nil => exact hh
  | cons m tape => exact hP h m tape htape hh

theorem keeps_gate (hP : Steady P) : Keeps P (gate e) := by
  refine Keeps.bind (keeps_nextEvent hP) fun event => ?_
  cases event with
  | fails => exact Keeps.raise
  | dies => exact Keeps.crash
  | proceeds _ => exact Keeps.ret
  | writeFails => exact Keeps.ret
  | signalFails => exact Keeps.ret
  | vanishes => exact Keeps.ret
  | survives => exact Keeps.ret

theorem keeps_write (hP : Steady P) : Keeps P write := by
  refine Keeps.bind (keeps_nextEvent hP) fun event => ?_
  cases event with
  | writeFails => exact Keeps.raise
  | dies => exact Keeps.crash
  | proceeds _ => exact Keeps.ret
  | fails => exact Keeps.ret
  | signalFails => exact Keeps.ret
  | vanishes => exact Keeps.ret
  | survives => exact Keeps.ret

theorem triple_act (hP : Steady P) {f : ProductHost → ProductHost} (hQ : ∀ h, P h → Q (f h)) :
    Triple P (act f) (fun _ => Q) (fun _ => P) P :=
  Triple.bind (keeps_write hP) fun _ => Triple.modify hQ

end Moments

/-! ### What a start records -/

namespace ProcessBackend

variable (b : ProcessBackend)

/-- The shape of the records that a start of the bundle leaves: one entry for each replica, in
order. -/
def Wrote (record : ProcessRecord) : Prop :=
  record.replicaRecords.length = b.replicaCount ∧
    ∀ replicas, record.replicas = .replicated replicas →
      replicas.map Replica.index = List.range replicas.length

/-- The record of a revision. -/
def Recorded (id : EntityId .rev) (record : ProcessRecord) (h : ProductHost) : Prop :=
  ∃ directory, h.revisions id = some directory ∧ directory.record = .file record

theorem steady_recorded (id : EntityId .rev) (record : ProcessRecord) :
    Steady (Recorded id record) := fun _ _ _ _ h => h

theorem Recorded.unique {id : EntityId .rev} {record record' : ProcessRecord} {h : ProductHost}
    (hrecord : Recorded id record h) (hrecord' : Recorded id record' h) : record = record' := by
  obtain ⟨directory, hdirectory, hfile⟩ := hrecord
  obtain ⟨directory', hdirectory', hfile'⟩ := hrecord'
  obtain rfl := Option.some.inj (hdirectory.symm.trans hdirectory')
  exact RecordFile.file.inj (hfile.symm.trans hfile')

/-- The record that is read is the one on disk. -/
theorem readProcessRecord_eq {id : EntityId .rev} {required : Bool} {h h' : ProductHost}
    {record : ProcessRecord}
    (hread : b.readProcessRecord id required h = (h', .returned (some record))) :
    h' = h ∧ Recorded id record h ∧ ∀ replicas, record.replicas = .replicated replicas →
      replicas.length = b.replicaCount ∧ replicas.map Replica.index = List.range replicas.length := by
  unfold readProcessRecord at hread
  rw [get_bind_apply] at hread
  cases hdirectory : h.revisions id with
  | none =>
      cases required <;> simp [hdirectory, backendError, Program.raise] at hread
  | some directory =>
      cases hrecord : directory.record with
      | missing => cases required <;> simp [hdirectory, hrecord, backendError, Program.raise] at hread
      | malformed => simp [hdirectory, hrecord, backendError, Program.raise] at hread
      | file found =>
          simp only [hdirectory, hrecord, Option.map_some] at hread
          cases hreplicas : found.replicas with
          | single replica =>
              simp only [hreplicas, ret_apply, Prod.mk.injEq, Program.Outcome.returned.injEq,
                Option.some.injEq] at hread
              obtain ⟨rfl, rfl⟩ := hread
              refine ⟨rfl, ⟨directory, hdirectory, hrecord⟩, fun replicas h => ?_⟩
              rw [hreplicas] at h
              cases h
          | replicated replicas =>
              simp only [hreplicas] at hread
              split at hread
              · rename_i hshape
                simp only [ret_apply, Prod.mk.injEq, Program.Outcome.returned.injEq,
                  Option.some.injEq] at hread
                obtain ⟨rfl, rfl⟩ := hread
                refine ⟨rfl, ⟨directory, hdirectory, hrecord⟩, fun replicas' h => ?_⟩
                obtain rfl := ReplicaSet.replicated.inj (hreplicas.symm.trans h)
                exact hshape
              · simp [backendError, Program.raise] at hread

/-- A record is read by a backend of as many replicas. -/
theorem readProcessRecord_of_recorded {id : EntityId .rev} {h : ProductHost}
    {record : ProcessRecord} (required : Bool) (hrecorded : Recorded id record h) (hwrote : b.Wrote record) :
    b.readProcessRecord id required h = (h, .returned (some record)) := by
  obtain ⟨directory, hdirectory, hrecord⟩ := hrecorded
  obtain ⟨hlength, hindices⟩ := hwrote
  unfold readProcessRecord
  rw [get_bind_apply]
  simp only [hdirectory, hrecord, Option.map_some]
  cases hreplicas : record.replicas with
  | single replica => rfl
  | replicated replicas =>
      have hcount : replicas.length = b.replicaCount := by
        rw [← hlength, ProcessRecord.replicaRecords, hreplicas]
      simp only
      rw [if_pos ⟨hcount, hindices replicas hreplicas⟩]
      rfl

theorem readProcessRecord_fst (id : EntityId .rev) (required : Bool) (h : ProductHost) :
    (b.readProcessRecord id required h).1 = h := by
  unfold readProcessRecord
  rw [get_bind_apply]
  cases (h.revisions id).map RevisionDirectory.record with
  | none => cases required <;> rfl
  | some file =>
      cases file with
      | missing => cases required <;> rfl
      | malformed => rfl
      | file record =>
          cases hreplicas : record.replicas with
          | single replica => simp only [hreplicas, ret_apply]
          | replicated replicas =>
              simp only [hreplicas]
              split <;> rfl

/-- Reading a record changes nothing, and only what is recorded is read. -/
theorem triple_readProcessRecord (id : EntityId .rev) (required : Bool)
    {P : ProductHost → Prop} :
    Triple P (b.readProcessRecord id required)
      (fun r h => P h ∧ ∀ record, Recorded id record h ↔ r = some record) (fun _ => P) P := by
  intro h hh
  have hfst := b.readProcessRecord_fst id required h
  cases hread : b.readProcessRecord id required h with
  | mk h₁ o =>
      rw [hread] at hfst
      obtain rfl : h₁ = h := hfst
      cases o with
      | raised e => exact hh
      | crashed => exact hh
      | returned r =>
          refine ⟨hh, fun record => ⟨fun hrecorded => ?_, fun hsome => ?_⟩⟩
          · obtain ⟨directory, hdirectory, hfile⟩ := hrecorded
            unfold readProcessRecord at hread
            rw [get_bind_apply] at hread
            simp only [hdirectory, hfile, Option.map_some] at hread
            cases hreplicas : record.replicas with
            | single replica =>
                simp only [hreplicas] at hread
                cases hread
                rfl
            | replicated replicas =>
                simp only [hreplicas] at hread
                split at hread
                · cases hread
                  rfl
                · cases hread
          · subst hsome
            exact (b.readProcessRecord_eq hread).2.1

/-- Reading a record changes nothing. -/
theorem yields_readProcessRecord (id : EntityId .rev) (required : Bool)
    {P : ProductHost → Prop} :
    Yields P (b.readProcessRecord id required) fun r h =>
      P h ∧ ∀ record, r = some record → Recorded id record h ∧
        ∀ replicas, record.replicas = .replicated replicas →
          replicas.length = b.replicaCount ∧
            replicas.map Replica.index = List.range replicas.length := by
  intro h hh h₁ r hread
  have hfst := b.readProcessRecord_fst id required h
  rw [hread] at hfst
  obtain rfl : h₁ = h := hfst
  refine ⟨hh, fun record hrecord => ?_⟩
  subst hrecord
  exact (b.readProcessRecord_eq hread).2

theorem length_of_recordHealthy {record : ProcessRecord} {h : ProductHost}
    (hhealthy : b.recordHealthy record h = true) :
    record.replicaRecords.length = b.replicaCount := by
  simp only [recordHealthy, recordProcessAlive, Bool.and_eq_true, decide_eq_true_eq] at hhealthy
  exact hhealthy.1.1

/-- A revision that has a directory. -/
def Materialized (id : EntityId .rev) (h : ProductHost) : Prop :=
  (h.revisions id).isSome = true

theorem steady_materialized (id : EntityId .rev) : Steady (Materialized id) :=
  fun _ _ _ _ h => h

/-- The replicas of a start carry their indices in order. -/
def Entered (id : EntityId .rev) (indices : List Nat) (h : ProductHost) : Prop :=
  Materialized id h ∧ h.started.map Replica.index = indices

theorem steady_entered (id : EntityId .rev) (indices : List Nat) : Steady (Entered id indices) :=
  fun _ _ _ _ h => h

/-- Where a start has gone through, the revision has a record of its own shape. -/
def HasRecord (id : EntityId .rev) (h : ProductHost) : Prop :=
  ∃ record, Recorded id record h ∧ b.Wrote record

theorem steady_hasRecord (id : EntityId .rev) : Steady (b.HasRecord id) := fun _ _ _ _ h => h

theorem keeps_probeDeclaredPort {P : ProductHost → Prop} (hP : Steady P) :
    Keeps P probeDeclaredPort := by
  refine Keeps.bind (keeps_gate hP) fun choice => Keeps.bind Keeps.get fun h => ?_
  cases h.active with
  | missing => exact Keeps.ret
  | malformed => exact Keeps.ret
  | file state =>
      dsimp only
      split
      · exact Keeps.ret
      · exact Keeps.ret

theorem keeps_terminateReplica {P : ProductHost → Prop} (hP : Steady P)
    (hexit : ∀ h pids, P h → P (ProductHost.exit pids h)) (executable : String)
    (replica : Replica) : Keeps P (terminateReplica executable replica) := by
  refine Keeps.bind (keeps_nextEvent hP) fun event => Keeps.bind Keeps.get fun h => ?_
  have hkill : Keeps P (modify (ProductHost.exit [replica.pid]) : ProductProgram Unit) :=
    Keeps.modify fun h hh => hexit h _ hh
  refine Keeps.ite ?_ Keeps.ret
  cases event with
  | dies => exact Keeps.crash
  | signalFails => exact Keeps.raise
  | vanishes => exact Keeps.bind hkill fun _ => Keeps.raise
  | survives => exact Keeps.ret
  | proceeds _ => exact hkill
  | fails => exact hkill
  | writeFails => exact hkill

theorem keeps_terminateReplicas {P : ProductHost → Prop} (hP : Steady P)
    (hexit : ∀ h pids, P h → P (ProductHost.exit pids h)) (executable : String)
    (replicas : List Replica) : Keeps P (terminateReplicas executable replicas) := by
  induction replicas with
  | nil => exact Keeps.ret
  | cons replica replicas ih =>
      exact Keeps.bind (keeps_terminateReplica hP hexit executable replica) fun _ => ih

section Start

variable [Platform]

omit [Platform] in
/-- After materialization the revision has a directory. -/
theorem yields_materialize (revision : ProductRevision) (createdAt : Option String) :
    Yields (fun _ => True) (b.materialize revision createdAt)
      fun _ => Materialized revision.revisionId := by
  have hgate : ∀ {e : ProductFailure}, Yields (Materialized revision.revisionId) (gate e)
      fun _ => Materialized revision.revisionId :=
    Yields.of_triple (keeps_gate (steady_materialized _))
  refine Yields.bind_get fun h _ => ?_
  cases hdirectory : h.revisions revision.revisionId with
  | some directory =>
      have hthere : Materialized revision.revisionId h := by
        rw [Materialized, hdirectory]
        rfl
      refine Yields.pre ?_ fun t ht => (ht ▸ hthere : Materialized revision.revisionId t)
      dsimp only
      cases directory.metadata with
      | none => exact Yields.raise
      | some metadata =>
          refine Yields.ite (fun _ => Yields.raise) fun _ => ?_
          exact Yields.bind hgate fun _ => Yields.pure fun _ h => h
  | none =>
      refine Yields.bind (R := fun _ _ => True) (fun _ _ _ _ _ => trivial) fun _ => ?_
      refine Yields.bind (R := fun _ => Materialized revision.revisionId) ?_ fun _ => ?_
      · refine Yields.of_triple (triple_act (P := fun _ => True) (fun _ _ _ _ _ => trivial) ?_)
        intro h _
        simp [Materialized, ProductHost.setRevision]
      · exact Yields.bind hgate fun _ => Yields.pure fun _ h => h

theorem yields_spawnReplica (revision : ProductRevision) (executable : String) (index : Nat)
    (id : EntityId .rev) (indices : List Nat) :
    Yields (Entered id indices) (b.spawnReplica revision executable index)
      fun _ => Entered id (indices ++ [index]) := by
  have hgate : ∀ {e : ProductFailure} {is : List Nat},
      Yields (Entered id is) (gate e) fun _ => Entered id is :=
    Yields.of_triple (keeps_gate (steady_entered _ _))
  unfold spawnReplica
  refine Yields.bind_get fun h hh => Yields.pre (P := Entered id indices) ?_ fun t ht => ht ▸ hh
  refine Yields.bind (Yields.ofExcept fun _ _ _ h => h) fun port => ?_
  refine Yields.bind (Yields.ofExcept fun _ _ _ h => h) fun argv => ?_
  refine Yields.bind hgate fun choice => ?_
  refine Yields.bind (R := fun _ => Entered id (indices ++ [index])) (Yields.modify ?_) fun _ => ?_
  · intro h hh
    exact ⟨hh.1, by simp [hh.2]⟩
  · exact Yields.bind hgate fun _ => Yields.pure fun _ h => h

theorem yields_spawnReplicas (revision : ProductRevision) (executable : String)
    (id : EntityId .rev) (indices done : List Nat) :
    Yields (Entered id done) (b.spawnReplicas revision executable indices)
      fun _ => Entered id (done ++ indices) := by
  induction indices generalizing done with
  | nil => exact Yields.ret fun _ h => by simpa using h
  | cons index indices ih =>
      refine Yields.bind (b.yields_spawnReplica revision executable index id done) fun _ => ?_
      exact Yields.post (ih (done ++ [index])) fun _ _ h => by simpa using h

omit [Platform] in
/-- The record of what has been spawned has the shape the backend asks for. -/
theorem wrote_started {started : List Replica} (revision : ProductRevision)
    (hstarted : started.map Replica.index = List.range b.replicaCount) :
    b.Wrote
      { revisionId := revision.revisionId, revisionDigest := revision.revisionDigest
        artifactDigest := b.bundle.artifactDigest, declaredPort := b.declaredPort
        executable := b.executablePath revision.revisionId, replicas := .replicated started } := by
  have hlength : started.length = b.replicaCount := by
    simpa using congrArg List.length hstarted
  refine ⟨hlength, fun replicas hreplicas => ?_⟩
  obtain rfl := ReplicaSet.replicated.inj hreplicas
  rw [hstarted, hlength]

theorem yields_launchReplicas (revision : ProductRevision) :
    Yields (Materialized revision.revisionId) (b.launchReplicas revision)
      fun _ => b.HasRecord revision.revisionId := by
  unfold launchReplicas
  refine Yields.bind (Yields.of_triple (keeps_gate (steady_materialized _))) fun _ => ?_
  refine Yields.bind (R := fun _ => Entered revision.revisionId [])
    (Yields.modify fun h hh => ⟨hh, rfl⟩) fun _ => ?_
  refine Yields.bind (Yields.cleanup (b.yields_spawnReplicas revision _ revision.revisionId _ []))
    fun _ => ?_
  refine Yields.bind_get fun h hentered => ?_
  refine Yields.pre (P := Materialized revision.revisionId) ?_ fun t ht => ht ▸ hentered.1
  refine Yields.bind (Yields.of_triple (keeps_write (steady_materialized _))) fun _ => ?_
  refine Yields.bind (R := fun _ => b.HasRecord revision.revisionId) ?_ fun _ => ?_
  · refine Yields.of_triple (triple_act (steady_materialized _) fun t ht => ?_)
    obtain ⟨directory, hdirectory⟩ := Option.isSome_iff_exists.mp ht
    refine ⟨_, ⟨{ directory with record := .file _ }, ?_, rfl⟩, b.wrote_started revision hentered.2⟩
    simp only [ProductHost.setRecord, ProductHost.setRevision, hdirectory, Option.map_some,
      if_pos]
  · exact Yields.of_triple (keeps_write (b.steady_hasRecord _))

/-- A start that returns leaves a record with an entry for each replica of its bundle. -/
theorem yields_start (revision : ProductRevision) (createdAt : Option String) :
    Yields (fun _ => True) (b.start revision createdAt)
      fun handle h => handle = handleFor revision ∧ b.HasRecord revision.revisionId h := by
  have hany : ∀ {α : Type} {m : ProductProgram α}, Yields (fun _ => True) m fun _ _ => True :=
    fun _ _ _ _ _ => trivial
  have hlaunch : Yields (Materialized revision.revisionId)
      (b.launchReplicas revision >>= fun _ => Program.ret (handleFor revision))
      fun handle h => handle = handleFor revision ∧ b.HasRecord revision.revisionId h :=
    Yields.bind (b.yields_launchReplicas revision) fun _ => Yields.ret fun _ h => ⟨rfl, h⟩
  unfold start
  refine Yields.bind hany fun _ => Yields.bind hany fun _ => Yields.bind hany fun _ => ?_
  refine Yields.bind (b.yields_materialize revision createdAt) fun _ => ?_
  refine Yields.bind (b.yields_readProcessRecord revision.revisionId false) fun existing => ?_
  cases existing with
  | none => exact hlaunch.pre fun _ h => h.1
  | some existing =>
      refine Yields.bind_get fun h hh => ?_
      have hmaterialized : ∀ t, t = h → Materialized revision.revisionId t := fun t ht => ht ▸ hh.1
      refine Yields.ite (fun hhealthy => ?_) fun _ => ?_
      · -- the record that is there is kept
        refine Yields.ret fun t ht => ⟨rfl, existing, ht ▸ (hh.2 existing rfl).1, ?_⟩
        exact ⟨b.length_of_recordHealthy hhealthy, fun replicas h => ((hh.2 existing rfl).2 replicas h).2⟩
      · refine Yields.bind (Yields.pre ?_ hmaterialized) fun _ => hlaunch
        exact Yields.of_triple (keeps_terminateReplicas (steady_materialized _) (fun _ _ h => h) _ _)

end Start

/-! ### Draining and restoring -/

theorem exit_exit (h : ProductHost) (pids pids' : List Nat) :
    (h.exit pids).exit pids' = h.exit (pids ++ pids') := by
  simp only [ProductHost.exit, List.filter_filter]
  congr 2
  funext p
  simp [not_or, Bool.and_comm]

theorem replicaAlive_exit {h : ProductHost} {replica : Replica} {executable : String}
    (halive : h.replicaAlive replica executable = true) (pids : List Nat) :
    (h.exit pids).replicaAlive replica executable = true ↔ replica.pid ∉ pids := by
  simp only [ProductHost.replicaAlive, ProductHost.exit, List.any_eq_true, List.mem_filter,
    Bool.and_eq_true, decide_eq_true_eq] at halive ⊢
  obtain ⟨p, hp, hpid, hcommand⟩ := halive
  constructor
  · intro ⟨q, ⟨_, hq⟩, hqpid, _⟩
    exact hqpid ▸ hq
  · intro hpids
    exact ⟨p, ⟨hp, hpid ▸ hpids⟩, hpid, hcommand⟩

theorem nextEvent_quiet {h : ProductHost} (htape : h.tape = []) :
    nextEvent h = (h, .returned (.proceeds 0)) := by
  unfold nextEvent
  rw [htape]

theorem gate_quiet {h : ProductHost} (htape : h.tape = []) (e : ProductFailure) :
    gate e h = (h, .returned 0) := bind_of_returned (nextEvent_quiet htape)

theorem act_quiet {h : ProductHost} (htape : h.tape = []) (f : ProductHost → ProductHost) :
    act f h = (f h, .returned ()) :=
  bind_of_returned (bind_of_returned (nextEvent_quiet htape))

/-- A signal ends a replica that is alive, and only that. -/
theorem terminateReplica_quiet {h : ProductHost} (htape : h.tape = []) {replica : Replica}
    {executable : String} (halive : h.replicaAlive replica executable = true)
    (killed : List Nat) :
    terminateReplica executable replica (h.exit killed) =
      (h.exit (killed ++ [replica.pid]), .returned ()) := by
  have hnext : nextEvent (h.exit killed) = (h.exit killed, .returned (.proceeds 0)) :=
    nextEvent_quiet htape
  unfold terminateReplica
  rw [bind_of_returned hnext, get_bind_apply]
  by_cases hpid : replica.pid ∈ killed
  · -- it shares its process with a replica before it
    rw [if_neg fun h => (replicaAlive_exit halive killed).mp h hpid]
    have hsame : h.exit (killed ++ [replica.pid]) = h.exit killed := by
      simp only [ProductHost.exit]
      congr 2
      funext p
      simp only [List.mem_append, List.mem_singleton, decide_eq_decide]
      constructor
      · exact fun h hp => h (.inl hp)
      · exact fun h hp => h (hp.elim id fun heq => heq ▸ hpid)
    rw [hsame]
    rfl
  · rw [if_pos ((replicaAlive_exit halive killed).mpr hpid), ← exit_exit]
    rfl

theorem terminateReplicas_quiet {h : ProductHost} (htape : h.tape = []) {executable : String}
    (replicas : List Replica) (killed : List Nat)
    (halive : ∀ replica ∈ replicas, h.replicaAlive replica executable = true) :
    terminateReplicas executable replicas (h.exit killed) =
      (h.exit (killed ++ replicas.map Replica.pid), .returned ()) := by
  induction replicas generalizing killed with
  | nil => simp [terminateReplicas]
  | cons replica replicas ih =>
      have hfirst := terminateReplica_quiet htape (halive replica (by simp)) killed
      have hrest := ih (killed ++ [replica.pid]) fun r hr => halive r (by simp [hr])
      rw [terminateReplicas, bind_of_returned hfirst, hrest]
      simp

section Releases

variable [Platform]

/-- What a release owes its predecessor, whose record is `record`: it reads the record; a drain
ends the replicas of the record and nothing else; a restore points the traffic at them, or at
those of the record of a restart. -/
structure ActsOnReplicas (previous candidate : RuntimeHandle) (record : ProcessRecord) : Prop where
  accepted : ∀ h, Recorded previous.revisionId record h →
    b.readProcessRecord previous.revisionId true h = (h, .returned (some record))
  drained : ∀ h state, Recorded previous.revisionId record h → h.active = .file state →
    state.revisionDigest = candidate.revisionDigest → h.tape = [] →
    (∀ replica ∈ record.replicaRecords, h.replicaAlive replica record.executable = true) →
    b.drainPrevious previous candidate h =
      (h.exit (record.replicaRecords.map Replica.pid), .returned true)
  restored : ∀ h failed, Recorded previous.revisionId record h →
    Recorded candidate.revisionId failed h → b.Wrote failed → h.tape = [] → h.proxy = true →
    (∀ replica ∈ record.replicaRecords, h.replicaAlive replica record.executable = true ∧
      h.answers replica.internalPort = true) →
    b.restore previous candidate h =
      ({ h with active := .file (activeState previous record) },
        .returned ⟨some candidate.revisionDigest, some previous.revisionDigest⟩)
  selected : ∀ h h' result, b.restore previous candidate h = (h', .returned result) →
    ∃ record', Recorded previous.revisionId record' h' ∧
      h'.active = .file (activeState previous record')

variable {b} {previous candidate : RuntimeHandle} {record : ProcessRecord}

omit [Platform] in
theorem recordProcessAlive_of_all {h : ProductHost} (hwrote : b.Wrote record)
    (halive : ∀ replica ∈ record.replicaRecords,
      h.replicaAlive replica record.executable = true) :
    b.recordProcessAlive record h = true := by
  simp only [recordProcessAlive, Bool.and_eq_true, decide_eq_true_eq, List.all_eq_true]
  exact ⟨hwrote.1, halive⟩

omit [Platform] in
theorem nonempty_of_wrote (hwrote : b.Wrote record) : record.replicaRecords ≠ [] := by
  intro hnil
  have hlength : 0 = b.replicaCount := by simpa [hnil] using hwrote.1
  have hpos : 1 ≤ b.replicaCount := b.bundle.replicas_pos
  omega

omit [Platform] in
/-- A record that is read and alive is stopped by ending its replicas. -/
theorem stop_quiet {h : ProductHost} (hrecorded : Recorded previous.revisionId record h)
    (hwrote : b.Wrote record) (htape : h.tape = [])
    (halive : ∀ replica ∈ record.replicaRecords,
      h.replicaAlive replica record.executable = true) :
    b.stop previous h = (h.exit (record.replicaRecords.map Replica.pid), .returned true) := by
  have hread := b.readProcessRecord_of_recorded false hrecorded hwrote
  have hterminate := terminateReplicas_quiet htape record.replicaRecords [] halive
  have hnone : h.exit [] = h := by
    simp [ProductHost.exit]
  rw [hnone, List.nil_append] at hterminate
  -- there is a first replica, and it is gone
  have hgone : b.recordProcessAlive record
      (h.exit (record.replicaRecords.map Replica.pid)) = false := by
    cases hreplicas : record.replicaRecords with
    | nil => exact absurd hreplicas (nonempty_of_wrote hwrote)
    | cons first rest =>
        have hfirst := halive first (by simp [hreplicas])
        have hnot := mt (replicaAlive_exit hfirst ((first :: rest).map Replica.pid)).mp (by simp)
        simp only [recordProcessAlive, hreplicas, List.all_cons, Bool.eq_false_iff.mpr hnot,
          Bool.false_and, Bool.and_false]
  unfold stop
  rw [bind_of_returned hread]
  simp only [get_bind_apply, recordProcessAlive_of_all hwrote halive, if_pos]
  have hfence : fence h = (h, .returned ()) := bind_of_returned (gate_quiet htape _)
  rw [bind_of_returned hfence, terminateRecord, bind_of_returned hterminate]
  simp only [get_bind_apply, hgone, Bool.not_false, ret_apply]

omit [Platform] in
theorem drainPrevious_eq_stop {h : ProductHost} {state : ActiveState}
    (hactive : h.active = .file state)
    (hdigest : state.revisionDigest = candidate.revisionDigest) :
    b.drainPrevious previous candidate h = b.stop previous h := by
  have hread : readActive true h = (h, .returned (some state)) := by
    simp only [readActive, get_bind_apply, hactive, ret_apply]
  unfold drainPrevious
  rw [bind_of_returned hread]
  simp only [hdigest, ne_eq, not_true_eq_false, if_false]

omit [Platform] in
/-- Every upstream answers, so the one the proxy picks does. -/
theorem probeDeclaredPort_quiet {h : ProductHost} (hreplicas : record.replicaRecords ≠ [])
    (hanswers : ∀ replica ∈ record.replicaRecords, h.answers replica.internalPort = true)
    (htape : h.tape = []) (hproxy : h.proxy = true) :
    probeDeclaredPort { h with active := .file (activeState previous record) } =
      ({ h with active := .file (activeState previous record) }, .returned true) := by
  have hgate := gate_quiet
    (h := { h with active := .file (activeState previous record) }) htape .osError
  unfold probeDeclaredPort
  rw [bind_of_returned hgate, get_bind_apply]
  cases hrecords : record.replicaRecords with
  | nil => exact absurd hrecords hreplicas
  | cons first rest =>
      have hfirst : h.answers first.internalPort = true := hanswers first (by simp [hrecords])
      simp [activeState, hrecords, hproxy, hfirst]

/-- A release of as many replicas puts its predecessor back. -/
theorem restore_quiet {h : ProductHost} {failed : ProcessRecord}
    (hrecorded : Recorded previous.revisionId record h) (hwrote : b.Wrote record)
    (hfailed : Recorded candidate.revisionId failed h) (hfailedWrote : b.Wrote failed)
    (htape : h.tape = []) (hproxy : h.proxy = true)
    (halive : ∀ replica ∈ record.replicaRecords,
      h.replicaAlive replica record.executable = true ∧ h.answers replica.internalPort = true) :
    b.restore previous candidate h =
      ({ h with active := .file (activeState previous record) },
        .returned ⟨some candidate.revisionDigest, some previous.revisionDigest⟩) := by
  have hhealthy : b.recordHealthy record h = true := by
    rw [recordHealthy, recordProcessAlive_of_all hwrote fun r hr => (halive r hr).1]
    simpa using fun r hr => (halive r hr).2
  have hretained : b.ensureRetainedRevisionRunning previous h = (h, .returned record) := by
    unfold ensureRetainedRevisionRunning
    rw [bind_of_returned (b.readProcessRecord_of_recorded false hrecorded hwrote)]
    simp only [get_bind_apply, hhealthy, if_pos, ret_apply]
  have hread := b.readProcessRecord_of_recorded true hfailed hfailedWrote
  have hfence : fence h = (h, .returned ()) := bind_of_returned (gate_quiet htape _)
  have hact := act_quiet htape fun h => { h with active := .file (activeState previous record) }
  have hprobe : probeDeclaredPort { h with active := .file (activeState previous record) } =
      ({ h with active := .file (activeState previous record) }, .returned true) :=
    probeDeclaredPort_quiet (nonempty_of_wrote hwrote) (fun r hr => (halive r hr).2) htape hproxy
  unfold restore
  rw [bind_of_returned hretained, bind_of_returned hread]
  simp only
  rw [bind_of_returned hfence, bind_of_returned hact, bind_of_returned hprobe]
  rfl

/-- What a restore returns with is the record of the predecessor. -/
theorem yields_ensureRetainedRevisionRunning :
    Yields (fun _ => True) (b.ensureRetainedRevisionRunning previous)
      fun record => Recorded previous.revisionId record := by
  have hany : ∀ {α : Type} {P : ProductHost → Prop} {m : ProductProgram α},
      Yields P m fun _ _ => True := fun _ _ _ _ _ => trivial
  have hrestart : ∀ backend bundle createdAt, Yields (fun _ => True)
      (ensureRetainedRevisionRunning.restart b previous backend bundle createdAt)
      fun record => Recorded previous.revisionId record := by
    intro backend bundle createdAt
    refine Yields.bind hany fun _ => ?_
    refine Yields.bind (b.yields_readProcessRecord previous.revisionId true) fun found => ?_
    cases found with
    | none => exact Yields.raise
    | some record => exact Yields.ret fun _ h => (h.2 record rfl).1
  have hretained : ∀ found, Yields (fun _ => True)
      (ensureRetainedRevisionRunning.retained b previous found)
      fun record => Recorded previous.revisionId record := by
    intro found
    refine Yields.bind hany fun h => ?_
    split
    · exact Yields.raise
    split
    · exact Yields.raise
    · exact Yields.raise
    split
    · exact Yields.raise
    refine Yields.ite (fun _ => Yields.raise) fun _ => Yields.ite (fun _ => Yields.raise) fun _ => ?_
    dsimp only
    split
    · refine Yields.bind hany fun _ => Yields.ite (fun _ => ?_) fun _ => hrestart _ _ _
      exact Yields.bind hany fun _ => hrestart _ _ _
    · exact hrestart _ _ _
  unfold ensureRetainedRevisionRunning
  refine Yields.bind (b.yields_readProcessRecord previous.revisionId false) fun found => ?_
  cases found with
  | none => exact (hretained none).pre fun _ _ => trivial
  | some record =>
      refine Yields.bind_get fun h hh => Yields.ite (fun _ => ?_) fun _ => ?_
      · exact Yields.ret fun t ht => ht ▸ (hh.2 record rfl).1
      · exact (hretained _).pre fun _ _ => trivial

theorem yields_restore :
    Yields (fun _ => True) (b.restore previous candidate) fun _ h =>
      ∃ record, Recorded previous.revisionId record h ∧
        h.active = .file (activeState previous record) := by
  unfold restore
  refine Yields.bind yields_ensureRetainedRevisionRunning fun record => ?_
  refine Yields.bind (b.yields_readProcessRecord candidate.revisionId true) fun found => ?_
  cases found with
  | none => exact Yields.raise
  | some failed =>
      -- from here on the record stays, and the traffic is on it once it is published
      have hkeep : Steady fun h => Recorded previous.revisionId record h ∧
          h.active = .file (activeState previous record) := fun _ _ _ _ h => h
      refine Yields.bind (R := fun _ => Recorded previous.revisionId record) ?_ fun _ => ?_
      · refine Yields.of_triple (Triple.pre (Keeps.bind ?_ fun _ => Keeps.pure) fun _ h => h.1)
        exact keeps_gate (steady_recorded _ _)
      refine Yields.bind (Yields.of_triple (triple_act
        (Q := fun h => Recorded previous.revisionId record h ∧
          h.active = .file (activeState previous record))
        (steady_recorded _ _) fun h hh => ⟨hh, rfl⟩)) fun _ => ?_
      refine Yields.bind (Yields.of_triple (keeps_probeDeclaredPort hkeep)) fun healthy => ?_
      · refine Yields.ite (fun _ => Yields.ret fun h hh => ⟨record, hh⟩) fun _ => ?_
        refine Yields.bind_get fun h _ => Yields.ite (fun _ => ?_) fun _ => Yields.raise
        exact Yields.bind (R := fun _ _ => True) (fun _ _ _ _ _ => trivial) fun _ =>
          Yields.bind (R := fun _ _ => True) (fun _ _ _ _ _ => trivial) fun _ => Yields.raise

/-- A record of another number of replicas is not acted on. -/
theorem not_actsOnReplicas_of_wrote {w : ProcessBackend} {h : ProductHost}
    (hrecorded : Recorded previous.revisionId record h) (hwrote : w.Wrote record)
    (hcount : w.replicaCount ≠ b.replicaCount) : ¬ b.ActsOnReplicas previous candidate record := by
  intro hacts
  cases hreplicas : record.replicas with
  | replicated replicas =>
      -- the record is refused
      have haccepted := hacts.accepted h hrecorded
      have hshape := (b.readProcessRecord_eq haccepted).2.2 replicas hreplicas
      have hlength : replicas.length = w.replicaCount := by
        simpa [ProcessRecord.replicaRecords, hreplicas] using hwrote.1
      exact hcount (hlength.symm.trans hshape.1)
  | single replica =>
      -- the record is read, but its process counts as stopped
      have hrecords : record.replicaRecords = [replica] := by
        rw [ProcessRecord.replicaRecords, hreplicas]
      have hlength : 1 = w.replicaCount := by simpa [hrecords] using hwrote.1
      let state : ActiveState :=
        ⟨candidate.revisionId, candidate.revisionDigest, record.artifactDigest, []⟩
      let running : ProductHost :=
        { h with
          active := .file state
          processes := [⟨replica.pid, record.executable, some previous.revisionId⟩]
          tape := [] }
      have halive : ∀ r ∈ record.replicaRecords,
          running.replicaAlive r record.executable = true := by
        intro r hr
        obtain rfl : r = replica := by simpa [hrecords] using hr
        simp [running, ProductHost.replicaAlive, PyText.contains_iff]
      have hdrained := hacts.drained running state hrecorded rfl rfl rfl halive
      have hread : b.readProcessRecord previous.revisionId false running =
          (running, .returned (some record)) := by
        obtain ⟨directory, hdirectory, hrecord⟩ := hrecorded
        simp only [readProcessRecord, get_bind_apply, running, hdirectory, hrecord,
          Option.map_some, hreplicas, ret_apply]
      have hdead : b.recordProcessAlive record running = false := by
        have hone : ¬ [replica].length = b.replicaCount := fun h => hcount (hlength.symm.trans h)
        simp only [recordProcessAlive, hrecords, hone, decide_false, Bool.false_and]
      have hstop : b.stop previous running = (running, .returned true) := by
        rw [stop, bind_of_returned hread]
        simp only [get_bind_apply, hdead, Bool.false_eq_true, if_false, ret_apply]
      rw [drainPrevious_eq_stop rfl rfl, hstop] at hdrained
      have hprocesses := congrArg (fun out => (Prod.fst out).processes.length) hdrained
      simp [running, ProductHost.exit, hrecords] at hprocesses

/-- Neither is what a start of another number of replicas has left. -/
theorem not_actsOnReplicas {w r : ProcessBackend} {revision : ProductRevision}
    {createdAt : Option String} {h h' : ProductHost} {handle : RuntimeHandle}
    (hstart : w.start revision createdAt h = (h', .returned handle))
    (hcount : w.replicaCount ≠ r.replicaCount) :
    ¬ ∃ record, Recorded revision.revisionId record h' ∧
      r.ActsOnReplicas handle candidate record := by
  intro ⟨record, hrecord, hacts⟩
  obtain ⟨rfl, written, hwritten, hwrote⟩ :=
    w.yields_start revision createdAt h trivial h' handle hstart
  obtain rfl := hrecord.unique hwritten
  exact not_actsOnReplicas_of_wrote hrecord hwrote hcount hacts

/-- A release acts on the replicas of its predecessor exactly if both bundles ask for as many
replicas. -/
theorem actsOnReplicas_iff (w r : ProcessBackend) (revision : ProductRevision)
    (createdAt : Option String) (candidate : RuntimeHandle) {h h' : ProductHost}
    {handle : RuntimeHandle} (hstart : w.start revision createdAt h = (h', .returned handle)) :
    (∃ record, Recorded revision.revisionId record h' ∧
      r.ActsOnReplicas handle candidate record) ↔ w.bundle.replicas = r.bundle.replicas := by
  constructor
  · intro hacts
    by_contra hcount
    exact not_actsOnReplicas hstart hcount hacts
  · intro hcount
    obtain ⟨rfl, record, hrecorded, hwrote⟩ :=
      w.yields_start revision createdAt h trivial h' handle hstart
    have hr : r.Wrote record := ⟨hwrote.1.trans hcount, hwrote.2⟩
    refine ⟨record, hrecorded, ?_, ?_, ?_, ?_⟩
    · exact fun t ht => r.readProcessRecord_of_recorded true ht hr
    · intro t state ht hactive hdigest htape halive
      rw [drainPrevious_eq_stop hactive hdigest]
      exact stop_quiet ht hr htape halive
    · intro t failed ht hfailed hfailedWrote htape hproxy halive
      exact restore_quiet ht hr hfailed hfailedWrote htape hproxy halive
    · exact fun t t' result ht => yields_restore t trivial t' result ht

end Releases

end ProcessBackend

end Ophelia

namespace Ophelia.Reference

attribute [local instance] platform

open ProcessBackend

def productRevision : ProductRevision := ⟨⟨"rev_live", Eq.refl true⟩, digestText "live"⟩

/-- A product with the given number of replicas. -/
def productBackend (replicas : Nat) (hpos : 1 ≤ replicas) : ProcessBackend where
  bundle :=
    { productId := "shop", bundleDigest := digestText "bundle"
      artifactDigest := digestText "artifact", artifactPath := "bin/shop"
      argv := ["shop", "--port=8080"], replicas, replicas_pos := hpos
      port := 8080, protocol := "http", exposure := "public", healthPath := "/health"
      revision := fun _ => productRevision }
  startedAt := 0

/-- A scope in which nothing has run yet. -/
def productHost : ProductHost where
  revisions := fun _ => none
  active := .missing
  processes := []
  answers := fun _ => true
  proxy := false
  available := fun _ => true
  started := []
  tape := []

def productCandidate : RuntimeHandle :=
  ⟨backendName, ⟨"rev_next", by decide⟩, digestText "next"⟩

/-- The product with one replica, once it runs. -/
def productRunning : ProductHost :=
  ((productBackend 1 (by decide)).start productRevision none productHost).1

theorem run_eq {σ α : Type} {run : σ × α} {a : α} (h : run.2 = a) : run = (run.1, a) := by
  rw [← h]

theorem productBackend_start :
    (productBackend 1 (by decide)).start productRevision none productHost =
      (productRunning, .returned (handleFor productRevision)) := by
  have hreturns : ((productBackend 1 (by decide)).start productRevision none productHost).2 =
      .returned (handleFor productRevision) := by decide +kernel
  unfold productRunning
  exact run_eq hreturns

/-- The next bundle of the product, with two replicas as the one before. -/
def nextBackend : ProcessBackend :=
  { productBackend 2 (Nat.succ_pos 1) with
    bundle :=
      { (productBackend 2 (Nat.succ_pos 1)).bundle with
        bundleDigest := digestText "next bundle"
        artifactDigest := digestText "next artifact"
        argv := ["shop", "--port=8080", "--cache"] } }

/-- The next bundle acts on the two replicas of its predecessor. -/
theorem actsOnReplicas_pair :
    trafficContractCompatible nextBackend.bundle (productBackend 2 (Nat.succ_pos 1)).bundle = true ∧
      ∃ running, (productBackend 2 (Nat.succ_pos 1)).start productRevision none productHost =
          (running, .returned (handleFor productRevision)) ∧
        running.processes.length = 2 ∧
        ∃ record, Recorded productRevision.revisionId record running ∧
          nextBackend.ActsOnReplicas (handleFor productRevision) productCandidate record := by
  have hstart : ((productBackend 2 (Nat.succ_pos 1)).start productRevision none productHost).2 =
        .returned (handleFor productRevision) ∧
      ((productBackend 2 (Nat.succ_pos 1)).start productRevision none
        productHost).1.processes.length = 2 := by decide +kernel
  have hrun := run_eq hstart.1
  exact ⟨by decide, _, hrun, hstart.2, (actsOnReplicas_iff _ nextBackend productRevision none
    productCandidate hrun).mpr rfl⟩

/-- A release that scales a product from one replica to two does not act on its predecessor. -/
theorem not_actsOnReplicas_scaled :
    let one := productBackend 1 (by decide)
    let two := productBackend 2 (by decide)
    one.bundle.productId = two.bundle.productId ∧
      trafficContractCompatible two.bundle one.bundle = true ∧
      one.start productRevision none productHost =
        (productRunning, .returned (handleFor productRevision)) ∧
      ¬ ∃ record, Recorded productRevision.revisionId record productRunning ∧
        two.ActsOnReplicas (handleFor productRevision) productCandidate record :=
  ⟨rfl, by decide, productBackend_start, not_actsOnReplicas productBackend_start (by decide)⟩

end Ophelia.Reference
