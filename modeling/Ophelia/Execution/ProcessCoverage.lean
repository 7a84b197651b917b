import Ophelia.Execution.ProcessRecords

/-!
# Ophelia.Execution.ProcessCoverage

Whether a stopped or removed revision has processes left. A stop knows only the processes that
the record names, and it looks at them only as a whole: it signals the replicas if all of them
are alive, and it reports the revision stopped as soon as one of them is not.

`Covered` says that every live process of a revision is named in the record of the revision.
Starts keep it unless they are cut off between the first spawn and the record; the other calls
keep it. A stop or a removal of a covered revision whose replicas are all alive or all dead
leaves nothing running (`reports_truthful`).
-/

namespace Ophelia

open Program

/-! ### Tapes -/

/-- What a call gets over without leaving anything behind: failed checks, probes and commands. -/
def ProcessEvent.Gentle : ProcessEvent → Prop
  | .proceeds _ | .fails => True
  | _ => False

/-- The events to come. -/
def ProductHost.Expects (A : ProcessEvent → Prop) (h : ProductHost) : Prop :=
  ∀ m ∈ h.tape, A m.event

section Events

variable {A : ProcessEvent → Prop} {I J : ProductHost → Prop} {e : ProductFailure}

/-- What neither a moment nor the end of a process can break. -/
structure Lasting (I : ProductHost → Prop) : Prop where
  exit : ∀ h pids, I h → I (h.exit pids)
  tape : ∀ h tape, I h → I { h with tape }

theorem Lasting.steady (hI : Lasting I) : Steady I :=
  fun h m tape _ hh => hI.tape (h.exit m.exits) tape (hI.exit h m.exits hh)

theorem Lasting.and (hI : Lasting I) (hJ : Lasting J) : Lasting fun h => I h ∧ J h :=
  ⟨fun h pids hh => ⟨hI.exit h pids hh.1, hJ.exit h pids hh.2⟩,
    fun h tape hh => ⟨hI.tape h tape hh.1, hJ.tape h tape hh.2⟩⟩

theorem steady_expects (hI : Lasting I) : Steady fun h => h.Expects A ∧ I h :=
  fun h m tape htape hh =>
    ⟨fun m' hm' => hh.1 m' (by rw [htape]; exact List.mem_cons_of_mem _ hm'),
      hI.steady h m tape htape hh.2⟩

/-- The next event is one of those expected, or the tape is at its end. -/
theorem triple_nextEvent (hI : Lasting I) (hA : ∀ n, A (.proceeds n)) :
    Triple (fun h => h.Expects A ∧ I h) nextEvent (fun event h => A event ∧ h.Expects A ∧ I h)
      (fun _ _ => False) fun _ => False := by
  intro h hh
  unfold nextEvent
  cases htape : h.tape with
  | nil => exact ⟨hA 0, hh⟩
  | cons m tape =>
      exact ⟨hh.1 m (by rw [htape]; exact List.mem_cons_self), steady_expects hI h m tape htape hh⟩

theorem triple_gate_gentle (hI : Lasting I) :
    Triple (fun h => h.Expects ProcessEvent.Gentle ∧ I h) (gate e) (fun _ h => h.Expects ProcessEvent.Gentle ∧ I h)
      (fun _ h => h.Expects ProcessEvent.Gentle ∧ I h) fun _ => False := by
  refine Triple.bind ((triple_nextEvent hI fun _ => trivial).conseq (fun _ h => h)
    (fun _ _ h => h) (fun _ _ h => h.elim) fun _ h => h.elim) fun event => ?_
  refine Triple.assuming fun hevent => ?_
  cases event with
  | proceeds _ => exact Triple.ret fun _ h => h
  | fails => exact Triple.raise fun _ h => h
  | writeFails => exact hevent.elim
  | signalFails => exact hevent.elim
  | vanishes => exact hevent.elim
  | survives => exact hevent.elim
  | dies => exact hevent.elim

theorem triple_write_gentle (hI : Lasting I) :
    Triple (fun h => h.Expects ProcessEvent.Gentle ∧ I h) write (fun _ h => h.Expects ProcessEvent.Gentle ∧ I h)
      (fun _ _ => False) fun _ => False := by
  refine Triple.bind (triple_nextEvent hI fun _ => trivial) fun event => ?_
  refine Triple.assuming fun hevent => ?_
  cases event with
  | proceeds _ => exact Triple.ret fun _ h => h
  | fails => exact Triple.ret fun _ h => h
  | writeFails => exact hevent.elim
  | signalFails => exact hevent.elim
  | vanishes => exact hevent.elim
  | survives => exact hevent.elim
  | dies => exact hevent.elim

end Events

namespace ProcessBackend

/-! ### Ending replicas -/

section Terminate

variable {A : ProcessEvent → Prop} {I : ProductHost → Prop}

/-- A replica of which no process is left. -/
def Dead (executable : String) (replica : Replica) (h : ProductHost) : Prop :=
  h.replicaAlive replica executable = false

theorem replicaAlive_of_exit {h : ProductHost} {pids : List Nat} {replica : Replica}
    {executable : String} (halive : (h.exit pids).replicaAlive replica executable = true) :
    h.replicaAlive replica executable = true ∧ replica.pid ∉ pids := by
  simp only [ProductHost.replicaAlive, ProductHost.exit, List.any_eq_true, List.mem_filter,
    Bool.and_eq_true, decide_eq_true_eq] at halive ⊢
  obtain ⟨p, ⟨hp, hpids⟩, hpid, hcommand⟩ := halive
  exact ⟨⟨p, hp, hpid, hcommand⟩, hpid ▸ hpids⟩

theorem dead_exit_self (executable : String) (replica : Replica) (h : ProductHost) :
    Dead executable replica (h.exit [replica.pid]) := by
  unfold Dead
  rw [Bool.eq_false_iff]
  intro halive
  exact (replicaAlive_of_exit halive).2 (by simp)

theorem lasting_dead (executable : String) (replica : Replica) :
    Lasting (Dead executable replica) where
  exit h pids hdead := by
    unfold Dead at hdead ⊢
    rw [Bool.eq_false_iff] at hdead ⊢
    exact fun halive => hdead (replicaAlive_of_exit halive).1
  tape _ _ hdead := hdead

/-- A signal that no process outlives ends the replica. What raises or crashes was not
gentle. -/
theorem triple_terminateReplica (hI : Lasting I) (hA : ∀ n, A (.proceeds n))
    (hsurvives : ¬ A .survives) (executable : String) (replica : Replica) :
    Triple (fun h => h.Expects A ∧ I h) (terminateReplica executable replica)
      (fun _ h => h.Expects A ∧ I h ∧ Dead executable replica h)
      (fun _ h => I h ∧ ∃ event, A event ∧ ¬ event.Gentle)
      fun h => I h ∧ ∃ event, A event ∧ ¬ event.Gentle := by
  refine Triple.bind ((triple_nextEvent hI hA).conseq (fun _ h => h) (fun _ _ h => h)
    (fun _ _ h => h.elim) fun _ h => h.elim) fun event => ?_
  refine Triple.bind_get fun h hh => ?_
  obtain ⟨hevent, htape, hh⟩ := hh
  refine Triple.ite (fun _ => ?_) fun hdead => ?_
  · have hharsh : ¬ event.Gentle → ∃ event, A event ∧ ¬ event.Gentle := fun h => ⟨event, hevent, h⟩
    have hkill : ∀ t, t = h → (t.exit [replica.pid]).Expects A ∧ I (t.exit [replica.pid]) ∧
        Dead executable replica (t.exit [replica.pid]) := by
      intro t ht
      subst ht
      exact ⟨htape, hI.exit t _ hh, dead_exit_self executable replica t⟩
    cases event with
    | dies => exact Triple.crash fun t ht => ⟨ht ▸ hh, hharsh id⟩
    | signalFails => exact Triple.raise fun t ht => ⟨ht ▸ hh, hharsh id⟩
    | vanishes =>
        refine Triple.bind (Triple.modify (R := fun _ => I) fun t ht => (hkill t ht).2.1) fun _ => ?_
        exact Triple.raise fun t ht => ⟨ht, hharsh id⟩
    | survives => exact absurd hevent hsurvives
    | proceeds _ => exact Triple.modify hkill
    | fails => exact Triple.modify hkill
    | writeFails => exact Triple.modify hkill
  · exact Triple.ret fun t ht => ht ▸ ⟨htape, hh, Bool.eq_false_iff.mpr hdead⟩

/-- The replicas of a list, one after the other. -/
theorem triple_terminateReplicas (hI : Lasting I) (hA : ∀ n, A (.proceeds n))
    (hsurvives : ¬ A .survives) (executable : String) (replicas : List Replica) :
    Triple (fun h => h.Expects A ∧ I h) (terminateReplicas executable replicas)
      (fun _ h => h.Expects A ∧ I h ∧ ∀ replica ∈ replicas, Dead executable replica h)
      (fun _ h => I h ∧ ∃ event, A event ∧ ¬ event.Gentle)
      fun h => I h ∧ ∃ event, A event ∧ ¬ event.Gentle := by
  induction replicas generalizing I with
  | nil => exact Triple.ret fun _ h => ⟨h.1, h.2, by simp⟩
  | cons replica replicas ih =>
      -- the replicas that are gone stay gone
      refine Triple.bind (triple_terminateReplica hI hA hsurvives executable replica) fun _ => ?_
      refine (ih (hI.and (lasting_dead executable replica))).conseq (fun _ h => h) ?_
        (fun _ _ h => ⟨h.1.1, h.2⟩) fun _ h => ⟨h.1.1, h.2⟩
      intro _ h hh
      refine ⟨hh.1, hh.2.1.1, fun r hr => ?_⟩
      cases List.mem_cons.mp hr with
      | inl heq => exact heq ▸ hh.2.1.2
      | inr hrest => exact hh.2.2 r hrest

end Terminate

/-! ### Coverage -/

/-- The record names the process. -/
def Named (record : ProcessRecord) (p : ProductProcess) : Prop :=
  ∃ replica ∈ record.replicaRecords, replica.pid = p.pid ∧
    PyText.contains record.executable.toList p.command.toList = true

/-- Every live process of a revision is named in the record of the revision. -/
def Covered (h : ProductHost) : Prop :=
  ∀ p ∈ h.processes, ∀ id, p.revision = some id → ∃ record, Recorded id record h ∧ Named record p

/-- No process of the revision is alive. -/
def Idle (id : EntityId .rev) (h : ProductHost) : Prop :=
  ∀ p ∈ h.processes, p.revision ≠ some id

theorem mem_of_mem_exit {h : ProductHost} {pids : List Nat} {p : ProductProcess}
    (hp : p ∈ (h.exit pids).processes) : p ∈ h.processes := (List.mem_filter.mp hp).1

theorem lasting_covered : Lasting Covered where
  exit _ _ hh p hp := hh p (mem_of_mem_exit hp)
  tape _ _ hh := hh

theorem lasting_idle (id : EntityId .rev) : Lasting (Idle id) where
  exit _ _ hh p hp := hh p (mem_of_mem_exit hp)
  tape _ _ hh := hh

theorem lasting_recorded (id : EntityId .rev) (record : ProcessRecord) :
    Lasting (Recorded id record) := ⟨fun _ _ h => h, fun _ _ h => h⟩

theorem lasting_materialized (id : EntityId .rev) : Lasting (Materialized id) :=
  ⟨fun _ _ h => h, fun _ _ h => h⟩

/-- A named process keeps its replica alive. -/
theorem Named.not_dead {record : ProcessRecord} {p : ProductProcess} {h : ProductHost}
    (hnamed : Named record p) (hp : p ∈ h.processes) :
    ∃ replica ∈ record.replicaRecords, ¬ Dead record.executable replica h := by
  obtain ⟨replica, hreplica, hpid, hcommand⟩ := hnamed
  refine ⟨replica, hreplica, ?_⟩
  rw [Dead, Bool.not_eq_false, ProductHost.replicaAlive, List.any_eq_true]
  exact ⟨p, hp, by simp [hpid, hcommand]⟩

/-- A covered revision whose replicas are dead is idle. -/
theorem Covered.idle {h : ProductHost} (hcovered : Covered h) {id : EntityId .rev}
    (hdead : ∀ record, Recorded id record h →
      ∀ replica ∈ record.replicaRecords, Dead record.executable replica h) : Idle id h := by
  intro p hp hid
  obtain ⟨record, hrecorded, hnamed⟩ := hcovered p hp id hid
  obtain ⟨replica, hreplica, halive⟩ := hnamed.not_dead hp
  exact halive (hdead record hrecorded replica hreplica)

/-! ### Starting -/

/-- In the middle of a start: the processes of other revisions are covered, those of its own
are on its list. -/
structure Spawning (id : EntityId .rev) (executable : String) (h : ProductHost) : Prop where
  materialized : Materialized id h
  others : ∀ p ∈ h.processes, ∀ id', id' ≠ id → p.revision = some id' →
    ∃ record, Recorded id' record h ∧ Named record p
  own : ∀ p ∈ h.processes, p.revision = some id → ∃ replica ∈ h.started,
    replica.pid = p.pid ∧ PyText.contains executable.toList p.command.toList = true

section Start

variable (b : ProcessBackend) {id : EntityId .rev} {executable : String}

theorem lasting_spawning : Lasting (Spawning id executable) where
  exit _ _ hh :=
    ⟨hh.materialized, fun p hp => hh.others p (mem_of_mem_exit hp),
      fun p hp => hh.own p (mem_of_mem_exit hp)⟩
  tape _ _ hh := ⟨hh.materialized, hh.others, hh.own⟩

/-- Nothing of the revision runs, and nothing is on the list yet. -/
theorem Spawning.begin {h : ProductHost} (hmaterialized : Materialized id h)
    (hcovered : Covered h) (hidle : Idle id h) :
    Spawning id executable { h with started := [] } where
  materialized := hmaterialized
  others := fun p hp id' _ hid' => hcovered p hp id' hid'
  own := fun p hp hid => absurd hid (hidle p hp)

/-- Once the processes on the list are gone, the rest is covered. -/
theorem Spawning.covered {h : ProductHost} (hspawning : Spawning id executable h)
    (hdead : ∀ replica ∈ h.started, Dead executable replica h) : Covered h := by
  intro p hp id' hid'
  by_cases hown : id' = id
  · subst hown
    obtain ⟨replica, hreplica, hpid, hcommand⟩ := hspawning.own p hp hid'
    have halive : h.replicaAlive replica executable = true := by
      rw [ProductHost.replicaAlive, List.any_eq_true]
      exact ⟨p, hp, by simp [hpid, hcommand]⟩
    exact absurd halive (Bool.eq_false_iff.mp (hdead replica hreplica))
  · exact hspawning.others p hp id' hown hid'

/-- A record of the list covers the revision. -/
theorem Spawning.covered_setRecord {h : ProductHost} (hspawning : Spawning id executable h)
    {record : ProcessRecord} (hexecutable : record.executable = executable)
    (hreplicas : record.replicaRecords = h.started) :
    Covered (h.setRecord id (.file record)) := by
  intro p hp id' hid'
  by_cases hown : id' = id
  · subst hown
    obtain ⟨replica, hreplica, hpid, hcommand⟩ := hspawning.own p hp hid'
    obtain ⟨directory, hdirectory⟩ := Option.isSome_iff_exists.mp hspawning.materialized
    refine ⟨record, ⟨{ directory with record := .file record }, ?_, rfl⟩, ?_⟩
    · simp [ProductHost.setRecord, ProductHost.setRevision, hdirectory]
    · exact ⟨replica, hreplicas ▸ hreplica, hpid, hexecutable ▸ hcommand⟩
  · obtain ⟨found, ⟨directory, hdirectory, hrecord⟩, hnamed⟩ :=
      hspawning.others p hp id' hown hid'
    refine ⟨found, ⟨directory, ?_, hrecord⟩, hnamed⟩
    simp [ProductHost.setRecord, ProductHost.setRevision, hown, hdirectory]

/-- The command line of a replica starts with its executable. -/
theorem contains_intercalate (executable : String) (arguments : List String) :
    PyText.contains executable.toList
      (" ".intercalate (executable :: arguments)).toList = true := by
  rw [PyText.contains_iff]
  cases arguments with
  | nil => simp
  | cons argument arguments =>
      rw [String.intercalate_cons_cons, String.toList_append, String.toList_append]
      rw [List.append_assoc]
      exact (List.prefix_append _ _).isInfix

/-- A start with gentle moments to come. -/
def Midway (id : EntityId .rev) (executable : String) (h : ProductHost) : Prop :=
  h.Expects ProcessEvent.Gentle ∧ Spawning id executable h

/-- The cleanup ends everything the start has spawned. -/
theorem triple_terminateStarted :
    Triple (Midway id executable) (terminateStarted executable)
      (fun _ h => h.Expects ProcessEvent.Gentle ∧ Covered h) (fun _ _ => False)
      fun _ => False := by
  refine Triple.bind_get fun h hh => ?_
  have hlasting : Lasting fun t => Spawning id executable t ∧
      t.started = h.started :=
    lasting_spawning.and ⟨fun _ _ h => h, fun _ _ h => h⟩
  refine (triple_terminateReplicas (A := ProcessEvent.Gentle) hlasting (fun _ => trivial)
    (fun h => h) executable h.started).conseq ?_ ?_ ?_ ?_
  · intro t ht
    subst ht
    exact ⟨hh.1, hh.2, rfl⟩
  · intro _ t ht
    refine ⟨ht.1, ht.2.1.1.covered ?_⟩
    rw [ht.2.1.2]
    exact ht.2.2
  · intro _ t ht
    obtain ⟨-, event, hgentle, hharsh⟩ := ht
    exact hharsh hgentle
  · intro t ht
    obtain ⟨-, event, hgentle, hharsh⟩ := ht
    exact hharsh hgentle

/-- The moments to come are gentle and every process is covered. -/
def Safe (h : ProductHost) : Prop :=
  h.Expects ProcessEvent.Gentle ∧ Covered h

variable [Platform]

-- its 512 candidate ports are not to be computed
attribute [local irreducible] allocateInternalPort

theorem triple_spawnReplica (revision : ProductRevision) (index : Nat) :
    Triple (Midway revision.revisionId executable) (b.spawnReplica revision executable index)
      (fun _ => Midway revision.revisionId executable)
      (fun _ => Midway revision.revisionId executable) fun _ => False := by
  unfold spawnReplica
  refine Triple.bind (Triple.get (R := fun _ => Midway revision.revisionId executable)
    fun _ h => h) fun h => ?_
  refine Triple.bind (Triple.ofExcept (fun _ _ _ h => h) fun _ _ _ h => h) fun port => ?_
  refine Triple.bind (Triple.ofExcept (fun _ _ _ h => h) fun _ _ _ h => h) fun argv => ?_
  refine Triple.bind (triple_gate_gentle lasting_spawning) fun choice => ?_
  refine Triple.bind (Triple.modify ?_) fun _ =>
    Triple.bind (triple_gate_gentle lasting_spawning) fun _ => Triple.pure fun _ h => h
  intro h hh
  refine ⟨hh.1, hh.2.materialized, ?_, ?_⟩
  · intro p hp id' hother hid'
    cases List.mem_cons.mp hp with
    | inl heq =>
        subst heq
        exact absurd (Option.some.inj hid').symm hother
    | inr hrest => exact hh.2.others p hrest id' hother hid'
  · intro p hp hid
    cases List.mem_cons.mp hp with
    | inl heq =>
        subst heq
        exact ⟨_, List.mem_append_right _ (List.mem_singleton_self _), rfl,
          contains_intercalate executable _⟩
    | inr hrest =>
        obtain ⟨replica, hreplica, hown⟩ := hh.2.own p hrest hid
        exact ⟨replica, List.mem_append_left _ hreplica, hown⟩

theorem triple_spawnReplicas (revision : ProductRevision) (indices : List Nat) :
    Triple (Midway revision.revisionId executable)
      (b.spawnReplicas revision executable indices)
      (fun _ => Midway revision.revisionId executable)
      (fun _ => Midway revision.revisionId executable) fun _ => False := by
  induction indices with
  | nil => exact Triple.ret fun _ h => h
  | cons index indices ih => exact Triple.bind (b.triple_spawnReplica revision index) fun _ => ih

theorem triple_launchReplicas (revision : ProductRevision) :
    Triple (fun h => h.Expects ProcessEvent.Gentle ∧ Materialized revision.revisionId h ∧
        Covered h ∧ Idle revision.revisionId h)
      (b.launchReplicas revision) (fun _ => Safe) (fun _ => Safe) Safe := by
  have hlasting : Lasting fun h => Materialized revision.revisionId h ∧ Covered h ∧
      Idle revision.revisionId h :=
    (lasting_materialized _).and (lasting_covered.and (lasting_idle _))
  unfold launchReplicas
  refine Triple.bind ((triple_gate_gentle hlasting).conseq (fun _ h => h) (fun _ _ h => h)
    (fun _ _ h => ⟨h.1, h.2.2.1⟩) fun _ h => h.elim) fun _ => ?_
  refine Triple.bind (Triple.modify (R := fun _ => Midway revision.revisionId
    (b.executablePath revision.revisionId)) ?_) fun _ => ?_
  · exact fun h hh => ⟨hh.1, Spawning.begin hh.2.1 hh.2.2.1 hh.2.2.2⟩
  -- a start that fails on the way cleans up
  refine Triple.bind (R := fun _ => Midway revision.revisionId
    (b.executablePath revision.revisionId)) (Triple.cleanup (b.triple_spawnReplicas revision _ |>.conseq
    (fun _ h => h) (fun _ _ h => h) (fun _ _ h => h) fun _ h => h.elim) fun _ => ?_) fun _ => ?_
  · exact triple_terminateStarted.conseq (fun _ h => h) (fun _ _ h => h)
      (fun _ _ h => h.elim) fun _ h => h.elim
  refine Triple.bind_get fun h hh => ?_
  have hlist : Lasting fun t => Spawning revision.revisionId
      (b.executablePath revision.revisionId) t ∧ t.started = h.started :=
    lasting_spawning.and ⟨fun _ _ h => h, fun _ _ h => h⟩
  refine Triple.bind ((triple_write_gentle hlist).conseq ?_ (fun _ _ h => h)
    (fun _ _ h => h.elim) fun _ h => h.elim) fun _ => ?_
  · intro t ht
    subst ht
    exact ⟨hh.1, hh.2, rfl⟩
  refine Triple.bind (R := fun _ => Safe) (Triple.bind ((triple_write_gentle hlist).conseq
    (fun _ h => h) (fun _ _ h => h) (fun _ _ h => h.elim) fun _ h => h.elim) fun _ => ?_) fun _ => ?_
  · refine Triple.modify fun t ht => ⟨ht.1, ht.2.1.covered_setRecord rfl ?_⟩
    exact ht.2.2.symm
  · exact (triple_write_gentle lasting_covered).conseq (fun _ h => h) (fun _ _ h => h)
      (fun _ _ h => h.elim) fun _ h => h.elim

omit [Platform] in
/-- A directory that is made covers its revision: nothing of it ran before. -/
theorem triple_materialize (revision : ProductRevision) (createdAt : Option String) :
    Triple Safe (b.materialize revision createdAt)
      (fun _ h => h.Expects ProcessEvent.Gentle ∧ Covered h ∧ Materialized revision.revisionId h)
      (fun _ => Safe) Safe := by
  have hthere : Lasting fun h => Covered h ∧ Materialized revision.revisionId h :=
    lasting_covered.and (lasting_materialized _)
  have hgate : ∀ {e : ProductFailure}, Triple
      (fun h => h.Expects ProcessEvent.Gentle ∧ Covered h ∧ Materialized revision.revisionId h)
      (gate e)
      (fun _ h => h.Expects ProcessEvent.Gentle ∧ Covered h ∧ Materialized revision.revisionId h)
      (fun _ => Safe) Safe :=
    (triple_gate_gentle hthere).conseq (fun _ h => h) (fun _ _ h => h)
      (fun _ _ h => ⟨h.1, h.2.1⟩) fun _ h => h.elim
  refine Triple.bind_get fun h hh => ?_
  cases hdirectory : h.revisions revision.revisionId with
  | some directory =>
      have hmaterialized : Materialized revision.revisionId h := by
        rw [Materialized, hdirectory]
        rfl
      dsimp only
      cases directory.metadata with
      | none => exact Triple.raise fun t ht => ht ▸ hh
      | some metadata =>
          refine Triple.ite (fun _ => Triple.raise fun t ht => ht ▸ hh) fun _ => ?_
          refine Triple.bind (hgate.pre fun t ht => ?_) fun _ => Triple.pure fun _ h => h
          subst ht
          exact ⟨hh.1, hh.2, hmaterialized⟩
  | none =>
      have hmissing : Lasting fun h => Covered h ∧ h.revisions revision.revisionId = none :=
        lasting_covered.and ⟨fun _ _ h => h, fun _ _ h => h⟩
      refine Triple.bind ((triple_gate_gentle hmissing).conseq ?_ (fun _ _ h => h)
        (fun _ _ h => ⟨h.1, h.2.1⟩) fun _ h => h.elim) fun _ => ?_
      · intro t ht
        subst ht
        exact ⟨hh.1, hh.2, hdirectory⟩
      refine Triple.bind (Triple.bind ((triple_write_gentle hmissing).conseq (fun _ h => h)
        (fun _ _ h => h) (fun _ _ h => h.elim) fun _ h => h.elim) fun _ => Triple.modify ?_)
        fun _ => Triple.bind hgate fun _ => Triple.pure fun _ h => h
      intro t ht
      refine ⟨ht.1, fun p hp id hid => ?_, by simp [Materialized, ProductHost.setRevision]⟩
      obtain ⟨record, ⟨directory, hfound, hrecord⟩, hnamed⟩ := ht.2.1 p hp id hid
      have hother : id ≠ revision.revisionId := by
        intro heq
        rw [heq, ht.2.2] at hfound
        cases hfound
      exact ⟨record, ⟨directory, by simp [ProductHost.setRevision, hother, hfound], hrecord⟩, hnamed⟩

/-- A start with gentle moments keeps every process covered. -/
theorem keeps_start (revision : ProductRevision) (createdAt : Option String) :
    Keeps Safe (b.start revision createdAt) := by
  have hgate : ∀ {e : ProductFailure}, Keeps Safe (gate e) :=
    (triple_gate_gentle lasting_covered).conseq (fun _ h => h) (fun _ _ h => h)
      (fun _ _ h => h) fun _ h => h.elim
  have hlaunch : Triple (fun h => h.Expects ProcessEvent.Gentle ∧
      (Covered h ∧ Materialized revision.revisionId h) ∧ Idle revision.revisionId h)
      (b.launchReplicas revision >>= fun _ => Program.ret (handleFor revision))
      (fun _ => Safe) (fun _ => Safe) Safe :=
    Triple.bind ((b.triple_launchReplicas revision).pre fun h hh =>
      ⟨hh.1, hh.2.1.2, hh.2.1.1, hh.2.2⟩) fun _ => Triple.ret fun _ h => h
  unfold start
  refine Triple.bind hgate fun _ => Triple.bind (Keeps.bind hgate fun _ => Keeps.pure) fun _ =>
    Triple.bind hgate fun _ => ?_
  refine Triple.bind (b.triple_materialize revision createdAt) fun _ => ?_
  refine Triple.bind ((b.triple_readProcessRecord revision.revisionId false).conseq
    (fun _ h => h) (fun _ _ h => h) (fun _ _ h => ⟨h.1, h.2.1⟩) fun _ h => ⟨h.1, h.2.1⟩)
    fun existing => ?_
  cases existing with
  | none =>
      -- nothing is recorded, so nothing runs
      refine hlaunch.pre fun h hh => ⟨hh.1.1, hh.1.2, hh.1.2.1.idle fun record hrecord => ?_⟩
      cases (hh.2 record).mp hrecord
  | some existing =>
      refine Triple.bind_get fun h hh => Triple.ite (fun _ => ?_) fun _ => ?_
      · exact Triple.ret fun t ht => ht ▸ ⟨hh.1.1, hh.1.2.1⟩
      · -- what is recorded is ended first
        have hlasting : Lasting fun h => (Covered h ∧ Materialized revision.revisionId h) ∧
            Recorded revision.revisionId existing h :=
          (lasting_covered.and (lasting_materialized _)).and (lasting_recorded _ _)
        refine Triple.bind (R := fun _ h => h.Expects ProcessEvent.Gentle ∧
          (Covered h ∧ Materialized revision.revisionId h) ∧ Idle revision.revisionId h)
          ((triple_terminateReplicas (A := ProcessEvent.Gentle) hlasting (fun _ => trivial)
            (fun h => h) existing.executable existing.replicaRecords).conseq ?_ ?_ ?_ ?_)
          fun _ => hlaunch
        · intro t ht
          subst ht
          exact ⟨hh.1.1, hh.1.2, (hh.2 existing).mpr rfl⟩
        · intro _ t ht
          refine ⟨ht.1, ht.2.1.1, ht.2.1.1.1.idle fun record hrecord => ?_⟩
          obtain rfl := hrecord.unique ht.2.1.2
          exact ht.2.2
        · intro _ t ht
          obtain ⟨-, event, hgentle, hharsh⟩ := ht
          exact absurd hgentle hharsh
        · intro t ht
          obtain ⟨-, event, hgentle, hharsh⟩ := ht
          exact absurd hgentle hharsh

end Start

/-! ### Stopping and removing -/

section Stop

variable (b : ProcessBackend) {A : ProcessEvent → Prop}

/-- What a stop can handle: the recorded replicas are alive as a whole, or none of them is. -/
def Settled (id : EntityId .rev) (h : ProductHost) : Prop :=
  ∀ record, Recorded id record h → b.recordProcessAlive record h = true ∨
    ∀ replica ∈ record.replicaRecords, h.replicaAlive replica record.executable = false

theorem keeps_fence {I : ProductHost → Prop} (hI : Lasting I) :
    Keeps (fun h => h.Expects A ∧ I h) fence :=
  Keeps.bind (keeps_gate (steady_expects hI)) fun _ => Keeps.pure

/-- A stop that returns leaves nothing of the revision running. -/
theorem triple_stop (hA : ∀ n, A (.proceeds n)) (hsurvives : ¬ A .survives)
    (handle : RuntimeHandle) :
    Triple (fun h => h.Expects A ∧ Covered h ∧ b.Settled handle.revisionId h) (b.stop handle)
      (fun _ h => Covered h ∧ Idle handle.revisionId h) (fun _ => Covered) Covered := by
  unfold stop
  refine Triple.bind ((b.triple_readProcessRecord handle.revisionId false).conseq (fun _ h => h)
    (fun _ _ h => h) (fun _ _ h => h.2.1) fun _ h => h.2.1) fun found => ?_
  cases found with
  | none =>
      refine Triple.ret fun h hh => ⟨hh.1.2.1, hh.1.2.1.idle fun record hrecord => ?_⟩
      cases (hh.2 record).mp hrecord
  | some record =>
      refine Triple.bind_get fun h hh => ?_
      obtain ⟨⟨htape, hcovered, hsettled⟩, hread⟩ := hh
      have hrecord : Recorded handle.revisionId record h := (hread record).mpr rfl
      have hlasting : Lasting fun h => Covered h ∧ Recorded handle.revisionId record h :=
        lasting_covered.and (lasting_recorded _ _)
      have hidle : ∀ t, Covered t → Recorded handle.revisionId record t →
          (∀ replica ∈ record.replicaRecords, Dead record.executable replica t) →
          Idle handle.revisionId t := by
        intro t ht hrecord hdead
        refine ht.idle fun record' hrecord' => ?_
        obtain rfl := hrecord'.unique hrecord
        exact hdead
      refine Triple.ite (fun _ => ?_) fun halive => ?_
      · -- the replicas are ended one after the other
        refine Triple.bind ((keeps_fence (A := A) hlasting).conseq ?_ (fun _ _ h => h)
          (fun _ _ h => h.2.1) fun _ h => h.2.1) fun _ => ?_
        · exact fun t ht => ht ▸ ⟨htape, hcovered, hrecord⟩
        refine Triple.bind ((triple_terminateReplicas hlasting hA hsurvives record.executable
          record.replicaRecords).conseq (fun _ h => h) (fun _ _ h => h) (fun _ _ h => h.1.1)
          fun _ h => h.1.1) fun _ => ?_
        refine Triple.bind_get fun t ht => Triple.ret fun t' heq => ?_
        subst heq
        exact ⟨ht.2.1.1, hidle t' ht.2.1.1 ht.2.1.2 ht.2.2⟩
      · -- none of the recorded replicas is alive
        have hdead := (hsettled record hrecord).resolve_left halive
        refine Triple.ret fun t ht => ?_
        subst ht
        exact ⟨hcovered, hidle t hcovered hrecord hdead⟩

/-- Whatever happens, a stop only ends processes. -/
theorem keeps_stop {I : ProductHost → Prop} (hI : Lasting I) (handle : RuntimeHandle) :
    Keeps (fun h => h.Expects A ∧ I h) (b.stop handle) := by
  have hexit : ∀ h pids, h.Expects A ∧ I h → (h.exit pids).Expects A ∧ I (h.exit pids) :=
    fun h pids hh => ⟨hh.1, hI.exit h pids hh.2⟩
  refine Keeps.bind ((b.triple_readProcessRecord handle.revisionId false).conseq (fun _ h => h)
    (fun _ _ h => h.1) (fun _ _ h => h) fun _ h => h) fun found => ?_
  cases found with
  | none => exact Keeps.ret
  | some record =>
      refine Keeps.bind Keeps.get fun h => Keeps.ite ?_ Keeps.ret
      refine Keeps.bind (keeps_fence hI) fun _ => ?_
      exact Keeps.bind (keeps_terminateReplicas (steady_expects hI) hexit _ _) fun _ =>
        Keeps.bind Keeps.get fun _ => Keeps.ret

theorem keeps_readActive {P : ProductHost → Prop} (required : Bool) :
    Keeps P (readActive required) := by
  refine Keeps.bind Keeps.get fun h => ?_
  cases h.active with
  | missing => exact Keeps.ite Keeps.raise Keeps.ret
  | malformed => exact Keeps.raise
  | file state => exact Keeps.ret

theorem triple_drainPrevious (hA : ∀ n, A (.proceeds n)) (hsurvives : ¬ A .survives)
    (previous candidate : RuntimeHandle) :
    Triple (fun h => h.Expects A ∧ Covered h ∧ b.Settled previous.revisionId h)
      (b.drainPrevious previous candidate)
      (fun _ h => Covered h ∧ Idle previous.revisionId h) (fun _ => Covered) Covered := by
  refine Triple.bind ((keeps_readActive true).conseq (fun _ h => h) (fun _ _ h => h)
    (fun _ _ h => h.2.1) fun _ h => h.2.1) fun active => ?_
  cases active with
  | none => exact Triple.raise fun _ h => h.2.1
  | some active =>
      refine Triple.ite (fun _ => Triple.raise fun _ h => h.2.1) fun _ => ?_
      exact b.triple_stop hA hsurvives previous

/-- The files of an idle revision cover nothing. -/
theorem Covered.setRevision {h : ProductHost} {id : EntityId .rev} (hcovered : Covered h)
    (hidle : Idle id h) (directory : Option RevisionDirectory) :
    Covered (h.setRevision id directory) := by
  intro p hp id' hid'
  have hother : id' ≠ id := fun heq => hidle p hp (heq ▸ hid')
  obtain ⟨record, ⟨found, hfound, hrecord⟩, hnamed⟩ := hcovered p hp id' hid'
  exact ⟨record, ⟨found, by simp [ProductHost.setRevision, hother, hfound], hrecord⟩, hnamed⟩

theorem keeps_removeDirectory (id : EntityId .rev) :
    Keeps (fun h => Covered h ∧ Idle id h) (removeDirectory id) := by
  have hsteady : Steady fun h => Covered h ∧ Idle id h :=
    (lasting_covered.and (lasting_idle id)).steady
  have hact : ∀ f : ProductHost → ProductHost, (∀ h, ∃ directory, f h = h.setRevision id directory) →
      Keeps (fun h => Covered h ∧ Idle id h) (act f) := by
    intro f hf
    refine triple_act hsteady fun h hh => ?_
    obtain ⟨directory, heq⟩ := hf h
    rw [heq]
    exact ⟨hh.1.setRevision hh.2 directory, hh.2⟩
  refine Keeps.bind (keeps_gate hsteady) fun order => ?_
  refine Keeps.bind (hact _ fun h => ?_) fun _ => Keeps.bind (hact _ fun h => ?_) fun _ =>
    hact _ fun h => ⟨none, rfl⟩
  · split
    · exact ⟨_, rfl⟩
    · exact ⟨_, rfl⟩
  · split
    · exact ⟨_, rfl⟩
    · exact ⟨_, rfl⟩

/-- A removal that returns leaves nothing of the revision running. -/
theorem triple_remove (hA : ∀ n, A (.proceeds n)) (hsurvives : ¬ A .survives)
    (handle : RuntimeHandle) :
    Triple (fun h => h.Expects A ∧ Covered h ∧ b.Settled handle.revisionId h) (b.remove handle)
      (fun _ h => Covered h ∧ Idle handle.revisionId h) (fun _ => Covered) Covered := by
  have hsteady : Steady fun h => Covered h ∧ Idle handle.revisionId h :=
    (lasting_covered.and (lasting_idle _)).steady
  have hkeep : ∀ {α : Type} {m : ProductProgram α},
      Keeps (fun h => Covered h ∧ Idle handle.revisionId h) m →
      Triple (fun h => Covered h ∧ Idle handle.revisionId h) m
        (fun _ h => Covered h ∧ Idle handle.revisionId h) (fun _ => Covered) Covered :=
    fun h => h.conseq (fun _ h => h) (fun _ _ h => h) (fun _ _ h => h.1) fun _ h => h.1
  have hinactive : Triple
      (fun h => h.Expects A ∧ Covered h ∧ b.Settled handle.revisionId h)
      (remove.removeInactive b handle)
      (fun _ h => Covered h ∧ Idle handle.revisionId h) (fun _ => Covered) Covered := by
    refine Triple.bind (b.triple_stop hA hsurvives handle) fun _ => hkeep ?_
    refine Keeps.bind (Keeps.bind (keeps_gate hsteady) fun _ => Keeps.pure) fun _ => ?_
    refine Keeps.bind Keeps.get fun h => Keeps.ite ?_ Keeps.ret
    exact Keeps.bind (keeps_removeDirectory _) fun _ => Keeps.bind Keeps.get fun _ => Keeps.ret
  unfold remove
  refine Triple.bind ((keeps_readActive false).conseq (fun _ h => h) (fun _ _ h => h)
    (fun _ _ h => h.2.1) fun _ h => h.2.1) fun active => ?_
  cases active with
  | none => exact hinactive
  | some active =>
      exact Triple.ite (fun _ => Triple.raise fun _ h => h.2.1) fun _ => hinactive

end Stop

/-! ### Traffic -/

section Traffic

variable (b : ProcessBackend)

theorem steady_safe : Steady Safe := steady_expects lasting_covered

theorem keeps_act_active (state : ActiveStateFile) :
    Keeps Covered (act fun h => { h with active := state }) :=
  triple_act lasting_covered.steady fun _ h => h

theorem keeps_activate (candidate : RuntimeHandle) (expectedActive : Option Digest) :
    Keeps Covered (b.activate candidate expectedActive) := by
  have hgate : ∀ {e : ProductFailure}, Keeps Covered (gate e) := keeps_gate lasting_covered.steady
  refine Keeps.bind ((b.triple_readProcessRecord candidate.revisionId true).conseq (fun _ h => h)
    (fun _ _ h => h.1) (fun _ _ h => h) fun _ h => h) fun found => ?_
  cases found with
  | none => exact Keeps.raise
  | some record =>
      refine Keeps.bind Keeps.get fun h => Keeps.ite Keeps.raise ?_
      refine Keeps.bind (Keeps.bind hgate fun _ => Keeps.pure) fun _ => ?_
      refine Keeps.bind (keeps_readActive false) fun active => ?_
      refine Keeps.ite (Keeps.ite Keeps.ret Keeps.raise) (Keeps.bind hgate fun _ => ?_)
      refine Keeps.bind (Keeps.modify fun _ h => h) fun _ => ?_
      exact Keeps.bind (keeps_act_active _) fun _ => Keeps.ret

theorem keeps_deactivate (failedCandidate : RuntimeHandle) :
    Keeps Covered (deactivate failedCandidate) := by
  refine Keeps.bind (Keeps.bind (keeps_gate lasting_covered.steady) fun _ => Keeps.pure) fun _ => ?_
  refine Keeps.bind (keeps_readActive false) fun active => ?_
  cases active with
  | none => exact Keeps.ret
  | some active => exact Keeps.ite Keeps.raise (Keeps.bind (keeps_act_active _) fun _ => Keeps.ret)

variable [Platform]

/-- A restore may start its predecessor again. -/
theorem keeps_ensureRetainedRevisionRunning (previous : RuntimeHandle) :
    Keeps Safe (b.ensureRetainedRevisionRunning previous) := by
  have hread : ∀ required, Keeps Safe (b.readProcessRecord previous.revisionId required) :=
    fun required => (b.triple_readProcessRecord previous.revisionId required).conseq
      (fun _ h => h) (fun _ _ h => h.1) (fun _ _ h => h) fun _ h => h
  have hrestart : ∀ backend bundle createdAt,
      Keeps Safe (ensureRetainedRevisionRunning.restart b previous backend bundle createdAt) := by
    intro backend bundle createdAt
    refine Keeps.bind (backend.keeps_start _ _) fun _ => Keeps.bind (hread true) fun found => ?_
    cases found with
    | none => exact Keeps.raise
    | some record => exact Keeps.ret
  have hretained : ∀ found, Keeps Safe (ensureRetainedRevisionRunning.retained b previous found) := by
    intro found
    refine Keeps.bind Keeps.get fun h => ?_
    split
    · exact Keeps.raise
    split
    · exact Keeps.raise
    · exact Keeps.raise
    split
    · exact Keeps.raise
    refine Keeps.ite Keeps.raise (Keeps.ite Keeps.raise ?_)
    dsimp only
    split
    · refine Keeps.bind Keeps.get fun h => Keeps.ite ?_ (hrestart _ _ _)
      exact Keeps.bind (keeps_stop _ lasting_covered previous) fun _ => hrestart _ _ _
    · exact hrestart _ _ _
  refine Keeps.bind (hread false) fun found => ?_
  cases found with
  | none => exact hretained none
  | some record => exact Keeps.bind Keeps.get fun h => Keeps.ite Keeps.ret (hretained _)

theorem keeps_restore (previous failedCandidate : RuntimeHandle) :
    Keeps Safe (b.restore previous failedCandidate) := by
  have hfence : Keeps Safe fence := Keeps.bind (keeps_gate steady_safe) fun _ => Keeps.pure
  have hactive : ∀ state : ActiveStateFile, Keeps Safe (act fun h => { h with active := state }) :=
    fun _ => triple_act steady_safe fun _ h => h
  refine Keeps.bind (b.keeps_ensureRetainedRevisionRunning previous) fun record => ?_
  refine Keeps.bind ((b.triple_readProcessRecord failedCandidate.revisionId true).conseq
    (fun _ h => h) (fun _ _ h => h.1) (fun _ _ h => h) fun _ h => h) fun found => ?_
  cases found with
  | none => exact Keeps.raise
  | some candidateRecord =>
      refine Keeps.bind hfence fun _ => Keeps.bind (hactive _) fun _ => ?_
      refine Keeps.bind (keeps_probeDeclaredPort steady_safe) fun healthy => ?_
      refine Keeps.ite Keeps.ret (Keeps.bind Keeps.get fun h => Keeps.ite ?_ Keeps.raise)
      exact Keeps.bind hfence fun _ => Keeps.bind (hactive _) fun _ => Keeps.raise

end Traffic

end ProcessBackend

/-! ### Runs -/

/-- What happens to a product scope: a call of one of its backends with the moments it meets, or
something outside of every call. -/
inductive ProductStep where
  | start (b : ProcessBackend) (revision : ProductRevision) (createdAt : Option String)
      (tape : List ProcessMoment)
  | activate (b : ProcessBackend) (candidate : RuntimeHandle) (expectedActive : Option Digest)
      (tape : List ProcessMoment)
  | restore (b : ProcessBackend) (previous failedCandidate : RuntimeHandle)
      (tape : List ProcessMoment)
  | deactivate (failedCandidate : RuntimeHandle) (tape : List ProcessMoment)
  | drainPrevious (b : ProcessBackend) (previous candidate : RuntimeHandle)
      (tape : List ProcessMoment)
  | stop (b : ProcessBackend) (handle : RuntimeHandle) (tape : List ProcessMoment)
  | remove (b : ProcessBackend) (handle : RuntimeHandle) (tape : List ProcessMoment)
  /-- Processes die. -/
  | exits (pids : List Nat)
  /-- Someone else starts a process. -/
  | foreign (pid : Nat) (command : String)

namespace ProductHost

open ProcessBackend

variable [Platform]

/-- The scope after a step. -/
def step (h : ProductHost) : ProductStep → ProductHost
  | .start b revision createdAt tape => (b.start revision createdAt { h with tape }).1
  | .activate b candidate expectedActive tape =>
      (b.activate candidate expectedActive { h with tape }).1
  | .restore b previous failedCandidate tape =>
      (b.restore previous failedCandidate { h with tape }).1
  | .deactivate failedCandidate tape => (deactivate failedCandidate { h with tape }).1
  | .drainPrevious b previous candidate tape =>
      (b.drainPrevious previous candidate { h with tape }).1
  | .stop b handle tape => (b.stop handle { h with tape }).1
  | .remove b handle tape => (b.remove handle { h with tape }).1
  | .exits pids => h.exit pids
  | .foreign pid command =>
      { h with processes := ⟨h.freshPid pid, command, none⟩ :: h.processes }

def after (h : ProductHost) (steps : List ProductStep) : ProductHost :=
  steps.foldl step h

omit [Platform] in
/-- What a step may meet. A start (also one inside a restore) is not cut off, and its writes and
signals go through; a stop or a removal finds the recorded replicas alive as a whole or dead as
a whole, and none of them outlives its signals. -/
def Careful (h : ProductHost) : ProductStep → Prop
  | .start _ _ _ tape => ∀ m ∈ tape, m.event.Gentle
  | .restore _ _ _ tape => ∀ m ∈ tape, m.event.Gentle
  | .drainPrevious b previous _ tape =>
      (∀ m ∈ tape, m.event ≠ .survives) ∧ b.Settled previous.revisionId h
  | .stop b handle tape => (∀ m ∈ tape, m.event ≠ .survives) ∧ b.Settled handle.revisionId h
  | .remove b handle tape => (∀ m ∈ tape, m.event ≠ .survives) ∧ b.Settled handle.revisionId h
  | _ => True

/-- Every step of a run is careful in the state it is taken in. -/
def CarefulRun (h : ProductHost) : List ProductStep → Prop
  | [] => True
  | s :: steps => h.Careful s ∧ CarefulRun (h.step s) steps

/-- The last step of a run is taken in the state that the others leave. -/
theorem carefulRun_append {h : ProductHost} {steps : List ProductStep} {s : ProductStep} :
    h.CarefulRun (steps ++ [s]) ↔ h.CarefulRun steps ∧ (h.after steps).Careful s := by
  induction steps generalizing h with
  | nil => simp [CarefulRun, after]
  | cons first steps ih =>
      rw [List.cons_append, CarefulRun, CarefulRun, ih, and_assoc]
      rfl

omit [Platform] in
/-- A revision that is reported stopped or removed has no process left. -/
def Truthful (h : ProductHost) : ProductStep → Prop
  | .stop b handle tape =>
      ∀ h', b.stop handle { h with tape } = (h', .returned true) → Idle handle.revisionId h'
  | .remove b handle tape =>
      ∀ h', b.remove handle { h with tape } = (h', .returned true) → Idle handle.revisionId h'
  | .drainPrevious b previous candidate tape =>
      ∀ h', b.drainPrevious previous candidate { h with tape } = (h', .returned true) →
        Idle previous.revisionId h'
  | _ => True

omit [Platform] in
/-- The states at which the three reporting calls are made. -/
theorem report_pre {h : ProductHost} {b : ProcessBackend} {id : EntityId .rev}
    {tape : List ProcessMoment} (hcovered : Covered h)
    (hcareful : (∀ m ∈ tape, m.event ≠ .survives) ∧ b.Settled id h) :
    ProductHost.Expects (fun event => event ≠ .survives) { h with tape } ∧
      Covered { h with tape } ∧ b.Settled id { h with tape } :=
  ⟨hcareful.1, hcovered, hcareful.2⟩

theorem covered_step {h : ProductHost} (hcovered : Covered h) {s : ProductStep}
    (hcareful : h.Careful s) : Covered (h.step s) := by
  have hharmless : ∀ n, ProcessEvent.proceeds n ≠ .survives := fun n h => by cases h
  have hreport : ∀ {m : ProductProgram Bool} {Q : Bool → ProductHost → Prop} {h' : ProductHost}
      {P : ProductHost → Prop}, Triple P m (fun r t => Covered t ∧ Q r t) (fun _ => Covered) Covered →
      P h' → Covered (m h').1 := fun htriple hpre =>
    (htriple.post fun _ _ h => h.1).always hpre
  cases s with
  | start b revision createdAt tape =>
      exact ((b.keeps_start revision createdAt).run (s := { h with tape }) ⟨hcareful, hcovered⟩).2
  | restore b previous failedCandidate tape =>
      exact ((b.keeps_restore previous failedCandidate).run (s := { h with tape })
        ⟨hcareful, hcovered⟩).2
  | activate b candidate expectedActive tape =>
      exact (b.keeps_activate candidate expectedActive).run (s := { h with tape }) hcovered
  | deactivate failedCandidate tape =>
      exact (keeps_deactivate failedCandidate).run (s := { h with tape }) hcovered
  | drainPrevious b previous candidate tape =>
      exact hreport (b.triple_drainPrevious hharmless (fun h => h rfl) previous candidate)
        (report_pre hcovered hcareful)
  | stop b handle tape =>
      exact hreport (b.triple_stop hharmless (fun h => h rfl) handle) (report_pre hcovered hcareful)
  | remove b handle tape =>
      exact hreport (b.triple_remove hharmless (fun h => h rfl) handle)
        (report_pre hcovered hcareful)
  | exits pids => exact lasting_covered.exit h pids hcovered
  | foreign pid command =>
      intro p hp id hid
      cases List.mem_cons.mp hp with
      | inl heq =>
          subst heq
          cases hid
      | inr hrest => exact hcovered p hrest id hid

omit [Platform] in
theorem truthful_of_careful {h : ProductHost} (hcovered : Covered h) {s : ProductStep}
    (hcareful : h.Careful s) : h.Truthful s := by
  have hharmless : ∀ n, ProcessEvent.proceeds n ≠ .survives := fun n h => by cases h
  cases s with
  | stop b handle tape =>
      intro h' hreport
      exact (Yields.of_triple (b.triple_stop hharmless (fun h => h rfl) handle) _
        (report_pre hcovered hcareful) h' true hreport).2
  | remove b handle tape =>
      intro h' hreport
      exact (Yields.of_triple (b.triple_remove hharmless (fun h => h rfl) handle) _
        (report_pre hcovered hcareful) h' true hreport).2
  | drainPrevious b previous candidate tape =>
      intro h' hreport
      exact (Yields.of_triple (b.triple_drainPrevious hharmless (fun h => h rfl) previous candidate)
        _ (report_pre hcovered hcareful) h' true hreport).2
  | start b revision createdAt tape => trivial
  | restore b previous failedCandidate tape => trivial
  | activate b candidate expectedActive tape => trivial
  | deactivate failedCandidate tape => trivial
  | exits pids => trivial
  | foreign pid command => trivial

/-- Along a careful run every process stays covered, and every step ahead is careful. -/
theorem covered_after {h : ProductHost} (hcovered : Covered h) (done ahead : List ProductStep)
    (hcareful : h.CarefulRun (done ++ ahead)) :
    Covered (h.after done) ∧ (h.after done).CarefulRun ahead := by
  induction done generalizing h with
  | nil => exact ⟨hcovered, hcareful⟩
  | cons s done ih => exact ih (covered_step hcovered hcareful.1) hcareful.2

/-- In a scope in which nothing was started before, every report of a careful run is true. -/
theorem reports_truthful (h : ProductHost) (hfresh : ∀ p ∈ h.processes, p.revision = none)
    (steps : List ProductStep) (hcareful : h.CarefulRun steps) (done : List ProductStep)
    (s : ProductStep) (ahead : List ProductStep) (hsteps : steps = done ++ s :: ahead) :
    (h.after done).Truthful s := by
  have hcovered : Covered h := by
    intro p hp id hid
    rw [hfresh p hp] at hid
    cases hid
  subst hsteps
  obtain ⟨hnow, hrest⟩ := covered_after hcovered done (s :: ahead) hcareful
  exact truthful_of_careful hnow hrest.1

end ProductHost

end Ophelia

namespace Ophelia.Reference

attribute [local instance] platform

open ProcessBackend ProductHost

/-- A process that a stop leaves behind. -/
theorem not_truthful_of_left {h : ProductHost} {b : ProcessBackend} {handle : RuntimeHandle}
    {tape : List ProcessMoment} (hleft : (b.stop handle { h with tape }).2 = .returned true ∧
      ∃ p ∈ (b.stop handle { h with tape }).1.processes, p.revision = some handle.revisionId) :
    ¬ h.Truthful (.stop b handle tape) := by
  obtain ⟨hstopped, p, hp, hrevision⟩ := hleft
  exact fun htruthful => htruthful _ (run_eq hstopped) p hp hrevision

/-- A product of two replicas of which one has died is reported stopped, and the other replica
runs on. -/
theorem not_truthful_halfDead :
    ¬ (productHost.after
        [.start (productBackend 2 (by decide)) productRevision none [], .exits [0]]).Truthful
      (.stop (productBackend 2 (by decide)) (handleFor productRevision) []) := by
  refine not_truthful_of_left ?_
  decide +kernel

/-- The probe of the second replica fails. -/
def failingProbe : List ProcessMoment :=
  List.replicate 10 ⟨[], .proceeds 0⟩ ++ [⟨[], .fails⟩]

/-- A start that fails after it has spawned both replicas, and the start again. -/
def retriedStart : List ProductStep :=
  [.start (productBackend 2 (by decide)) productRevision none failingProbe,
    .start (productBackend 2 (by decide)) productRevision none []]

/-- Two replicas, alive when they are stopped. -/
theorem reports_truthful_retried :
    ((productBackend 2 (by decide)).start productRevision none
        { productHost with tape := failingProbe }).2 ≠ .returned (handleFor productRevision) ∧
      (productHost.after retriedStart).processes.length = 2 ∧
      (productHost.after retriedStart).Truthful
        (.stop (productBackend 2 (by decide)) (handleFor productRevision) []) := by
  have hruns : ((productBackend 2 (by decide)).start productRevision none
        { productHost with tape := failingProbe }).2 ≠ .returned (handleFor productRevision) ∧
      (productHost.after retriedStart).processes.length = 2 ∧
      (((productHost.after retriedStart).revisions productRevision.revisionId).map
        fun directory =>
        match directory.record with
        | .file record => (productBackend 2 (by decide)).recordProcessAlive record
            (productHost.after retriedStart)
        | _ => false) = some true := by decide +kernel
  obtain ⟨hfailed, hpair, halive⟩ := hruns
  have hsettled : (productBackend 2 (by decide)).Settled productRevision.revisionId
      (productHost.after retriedStart) := by
    intro record hrecord
    obtain ⟨directory, hdirectory, hfile⟩ := hrecord
    rw [hdirectory, Option.map_some, hfile] at halive
    exact .inl (Option.some.inj halive)
  have hgentle : ∀ m ∈ failingProbe, m.event.Gentle := by
    intro m hm
    rcases List.mem_append.mp hm with hm | hm
    · rw [List.eq_of_mem_replicate hm]
      trivial
    · rw [List.mem_singleton.mp hm]
      trivial
  have hcareful : productHost.CarefulRun (retriedStart ++
      [.stop (productBackend 2 (by decide)) (handleFor productRevision) []]) :=
    carefulRun_append.mpr ⟨⟨hgentle, by simp [Careful], trivial⟩, by simp, hsettled⟩
  exact ⟨hfailed, hpair, reports_truthful productHost (by simp [productHost]) _ hcareful _ _ [] rfl⟩

end Ophelia.Reference
