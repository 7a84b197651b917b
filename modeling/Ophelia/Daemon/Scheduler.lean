import Ophelia.Lib.Handlers
import Ophelia.Domain.Revisions
import Ophelia.Daemon.CronFields
import Ophelia.Daemon.Replacement

/-!
# Ophelia.Daemon.Scheduler

The scheduler of the daemon (`_schedule_minute`): once a minute it goes through the cron
registries of the applications and requests a run for every schedule that matches. The
`try` stands around the loop over the schedules of a registry, so the first schedule that is
refused ends its registry, and an exception that the handler does not name ends the minute.
-/

namespace Ophelia

/-! ### Acceptance -/

/-- What a request of the scheduler can raise. -/
inductive ScheduleFailure where
  | osError
  | workloadExecution (message : String)
  | raised (failure : Failure)

/-- The exceptions that `_schedule_minute` catches. -/
def ScheduleFailure.caught : ScheduleFailure → Bool
  | osError | workloadExecution _ => true
  | raised (.valueError _) | raised (.contractValidation _) => true
  | raised (.keyError _) | raised (.operationConflict _) => true
  | raised _ => false

abbrev Scheduled := Except ScheduleFailure

/-- A call into the store. -/
def Result.lift {α : Type} (x : Result α) : Scheduled α :=
  x.mapError .raised

/-- What the cron parser raises is a `ValueError`: a `CronExpressionError` is one too. -/
def ofCron : CronFields.CronFailure → ScheduleFailure
  | .cronExpressionError message => .raised (.valueError message)
  | .valueError => .raised (.valueError "invalid literal for int()")

/-- `cron_matches`, on the expression that a registry holds. -/
def matchesMinute (expression : Json) (now : Calendar.DateTime) : Scheduled Bool :=
  match expression with
  | .str text => (CronFields.cronMatches CronFields.unicode text now).mapError ofCron
  | _ => .error (ofCron (.cronExpressionError "Cron expression must be text."))

/-- The active revision, as the traffic switch has left it. -/
structure ActiveEvidence where
  hostId : String
  app : String
  environment : String
  revisionId : String
  revisionDigest : String

structure RevisionRecord where
  revisionId : String
  revisionDigest : String

/-- A workload of a locked manifest, as far as runs are concerned. -/
structure LockedWorkload where
  name : Slug
  kind : WorkloadKind
  concurrencyPolicy : ConcurrencyPolicy

structure LockedManifest where
  app : String
  environment : String
  workloads : Table LockedWorkload.name

/-- The files of an application environment: the evidence (`none` where there is no plain file,
`some none` where it cannot be read), and the manifest and the record of each revision. -/
structure RunScope where
  active : Option (Option ActiveEvidence)
  manifest : String → Scheduled LockedManifest
  revision : String → Scheduled RevisionRecord

/-- The host: its id, and the files of the scopes with a valid name. -/
structure RunHost where
  hostId : String
  scope : String → String → Option RunScope

/-- `_active_manifest`. -/
def RunHost.activeManifest (host : RunHost) (app environment : String) :
    Scheduled (ActiveEvidence × LockedManifest) :=
  match host.scope app environment with
  | none => .error (.workloadExecution "Application scope is invalid.")
  | some files =>
      match files.active with
      | none => .error (.workloadExecution "Application has no trusted active revision.")
      | some none => .error (.workloadExecution "Active revision evidence is malformed.")
      | some (some active) => do
          let manifest ← files.manifest active.revisionId
          let revision ← files.revision active.revisionId
          if active.hostId ≠ host.hostId ∨ active.app ≠ app ∨ active.environment ≠ environment ∨
              revision.revisionId ≠ active.revisionId ∨
              revision.revisionDigest ≠ active.revisionDigest ∨ manifest.app ≠ app ∨
              manifest.environment ≠ environment then
            .error (.workloadExecution "Active revision evidence does not reconcile.")
          else return (active, manifest)

/-- `ManifestV2.workload`. -/
def LockedManifest.workload (manifest : LockedManifest) (name : Json) : Scheduled LockedWorkload :=
  match manifest.workloads.rows.find? fun w => name = .str w.name.val with
  | some w => .ok w
  | none => .error (.raised (.keyError "workload"))

/-- The clock samples and the identifiers that a request draws. -/
structure Draws where
  clock : Nat → Int
  runId : String
  eventId : Nat → EntityId .event

section Acceptance

variable [Platform]

/-- `WorkloadRunManager.accept`; `null` stands for a digest that is not expected. -/
def RunHost.accept (host : RunHost) (s : RunStore) (actor : Actor) (app environment : String)
    (workloadName : Json) (triggerKind idempotencyKey : String) (expectedDigest : Json)
    (draws : Draws) : Scheduled (RunStore × WorkloadRun) := do
  let (active, manifest) ← host.activeManifest app environment
  if expectedDigest ≠ .null ∧ expectedDigest ≠ .str active.revisionDigest then
    .error (.workloadExecution "Scheduled workload belongs to a superseded revision.")
  else
    let workload ← manifest.workload workloadName
    let expected := if triggerKind = "cron" then WorkloadKind.cron else .task
    if workload.kind ≠ expected then
      .error (.workloadExecution
        (workload.name.val ++ " is not a " ++ expected.value ++ " workload."))
    else
      let policy := if expected = .cron then workload.concurrencyPolicy else .forbid
      Result.lift (s.acceptRun actor
        ⟨⟨host.hostId, app, environment, workload.name.val⟩, active.revisionId,
          active.revisionDigest, workload.kind.value, triggerKind⟩
        idempotencyKey policy draws.clock draws.runId draws.eventId)

/-! ### The minute -/

/-- A registry `cron/active.json`, with what `json.loads` made of it. -/
structure CronRegistry where
  app : String
  environment : String
  content : Scheduled Json

/-- `value.get("schedules", [])`, iterated over: the keys of an object and the characters of a
text are no schedules. -/
def schedulesOf : Json → Scheduled (List Json)
  | .obj members =>
      match members.lookup "schedules" with
      | none => .ok []
      | some (.arr items) => .ok items
      | some (.obj _) | some (.str _) => .ok []
      | some _ => .error (.raised (.typeError "object is not iterable"))
  | _ => .ok []

/-- An element of a registry with its place, or the exception its registry raises. -/
structure Registered where
  file : Nat
  index : Nat
  app : String
  environment : String
  schedule : Scheduled Json

/-- The elements of a registry. -/
def CronRegistry.registered (registry : CronRegistry) (file : Nat) : List Registered :=
  match registry.content >>= schedulesOf with
  | .error e => [⟨file, 0, registry.app, registry.environment, .error e⟩]
  | .ok schedules => schedules.zipIdx.map fun p =>
      ⟨file, p.2, registry.app, registry.environment, .ok p.1⟩

/-- The registries in the order of their paths. -/
def registered (registries : List CronRegistry) : List (List Registered) :=
  registries.zipIdx.map fun p => p.1.registered p.2

/-- `schedule[key]`. -/
def scheduleMember (schedule : Json) (key : String) : Scheduled Json :=
  match schedule.get? key with
  | some value => .ok value
  | none => .error (.raised (.keyError key))

/-- `"%s" % value`; other values than these never reach the store. -/
def formatted : Json → String
  | .str s => s
  | .null => "None"
  | value => String.ofList value.text

/-- One minute of the scheduler. -/
structure Minute where
  host : RunHost
  actor : Actor
  now : Calendar.DateTime
  draws : Nat → Nat → Draws

namespace Minute

variable (m : Minute)

def idempotencyKey (digest name : Json) : String :=
  "cron:" ++ formatted digest ++ ":" ++ formatted name ++ ":" ++ m.now.isoformat

/-- The body of the loop over the schedules: `none` for one that does not match. -/
def attempt (x : Registered) (s : RunStore) : Scheduled (Option RunStore) := do
  let schedule ← x.schedule
  match schedule with
  | .obj _ =>
      let expression ← scheduleMember schedule "schedule"
      if ← matchesMinute expression m.now then
        let name ← scheduleMember schedule "name"
        let digest ← scheduleMember schedule "revision_digest"
        let (s, _) ← m.host.accept s m.actor x.app x.environment name "cron"
          (m.idempotencyKey digest name) digest (m.draws x.file x.index)
        return some s
      else return none
  | _ => return none

/-- `_schedule_minute`: the schedules that got their run, the store, and the exception that ended
the minute. -/
def scheduleMinute (registries : List CronRegistry) (s : RunStore) :
    List Registered × RunStore × Option ScheduleFailure :=
  Handlers.runGroups m.attempt ScheduleFailure.caught (registered registries) s

/-- The schedules that get their run when each one is requested by itself: only the runs of the
store decide, and no refusal of another schedule. -/
def acceptable (registries : List CronRegistry) (s : RunStore) : List Registered :=
  Handlers.taken m.attempt (registered registries).flatten s

end Minute

end Acceptance

/-! ### Places -/

theorem file_of_mem_registered {registry : CronRegistry} {file : Nat} {x : Registered}
    (h : x ∈ registry.registered file) : x.file = file := by
  unfold CronRegistry.registered at h
  split at h
  · rw [List.mem_singleton.mp h]
  · obtain ⟨p, -, rfl⟩ := List.mem_map.mp h
    rfl

theorem nodup_zipIdx_map {α β : Type} {f : α × Nat → β} (place : β → Nat)
    (hplace : ∀ p, place (f p) = p.2) (xs : List α) : (xs.zipIdx.map f).Nodup := by
  have hindices : ((xs.zipIdx.map f).map place).Nodup := by
    have hmap : place ∘ f = Prod.snd := funext hplace
    rw [List.map_map, hmap, List.zipIdx_map_snd]
    exact List.nodup_range'
  exact hindices.of_map place

theorem CronRegistry.nodup_registered (registry : CronRegistry) (file : Nat) :
    (registry.registered file).Nodup := by
  unfold CronRegistry.registered
  split
  · exact List.nodup_singleton _
  · exact nodup_zipIdx_map Registered.index (fun _ => rfl) _

/-- No two elements have one place. -/
theorem nodup_registered (registries : List CronRegistry) :
    (registered registries).flatten.Nodup := by
  rw [List.nodup_flatten]
  constructor
  · intro group hgroup
    obtain ⟨p, -, rfl⟩ := List.mem_map.mp hgroup
    exact p.1.nodup_registered p.2
  · have hindices : registries.zipIdx.Pairwise fun p q => p.2 ≠ q.2 := by
      have hnodup : (registries.zipIdx.map Prod.snd).Nodup := by
        rw [List.zipIdx_map_snd]
        exact List.nodup_range'
      exact List.pairwise_map.mp hnodup
    refine List.pairwise_map.mpr (hindices.imp fun {p q} hne x hx hx' => hne ?_)
    rw [← file_of_mem_registered hx, ← file_of_mem_registered hx']

/-! ### Independence -/

section Independence

variable [Platform]

/-- Whether a schedule gets its run in a minute depends on nothing but its own request, exactly
when no registry has a schedule that is refused with one after it that could get its run, and no
exception that the handler does not catch comes before such a schedule of any registry. -/
theorem scheduled_independently_iff (m : Minute) (registries : List CronRegistry) (s : RunStore) :
    (∀ x ∈ (registered registries).flatten,
      x ∈ (m.scheduleMinute registries s).1 ↔ x ∈ m.acceptable registries s) ↔
      Handlers.Harmless m.attempt ScheduleFailure.caught (registered registries) s :=
  Handlers.runGroups_taken_iff (nodup_registered registries) s

/-- A schedule that matches is requested. -/
theorem Minute.attempt_of_match {m : Minute} {x : Registered} {members : List (String × Json)}
    {expression name digest : Json} (hx : x.schedule = .ok (.obj members))
    (hexpression : members.lookup "schedule" = some expression)
    (hname : members.lookup "name" = some name)
    (hdigest : members.lookup "revision_digest" = some digest)
    (hmatch : matchesMinute expression m.now = .ok true) (s : RunStore) :
    m.attempt x s = (m.host.accept s m.actor x.app x.environment name "cron"
      (m.idempotencyKey digest name) digest (m.draws x.file x.index)).map fun p => some p.1 := by
  have hmember : ∀ {key value}, members.lookup key = some value →
      scheduleMember (.obj members) key = .ok value := by
    intro key value h
    simp [scheduleMember, Json.get?, h]
  unfold Minute.attempt
  rw [hx]
  simp only [Except.bind, bind, hmember hexpression, hmember hname, hmember hdigest, hmatch]
  cases m.host.accept s m.actor x.app x.environment name "cron" (m.idempotencyKey digest name)
    digest (m.draws x.file x.index) with
  | error e => rfl
  | ok p => rfl

/-- Without an active run the policy does not matter. -/
theorem RunStore.acceptRun_of_idle {s : RunStore} {q : RunStore.RunRequest}
    (h : s.active? q.workload = none) (actor : Actor) (key : String)
    (policy policy' : ConcurrencyPolicy) (clock : Nat → Int) (runId : String)
    (eventId : Nat → EntityId .event) :
    s.acceptRun actor q key policy clock runId eventId =
      s.acceptRun actor q key policy' clock runId eventId := by
  unfold RunStore.acceptRun
  simp only [h, RunStore.applyPolicy]

/-- A run that is still active refuses the next one under the policy `forbid`. -/
theorem RunStore.acceptRun_of_active {s : RunStore} {q : RunStore.RunRequest} {row : WorkloadRun}
    {actor : Actor} {key : String} {clock : Nat → Int} {acceptedAt : Utc}
    (htime : timestamp (clock 0) = .ok acceptedAt)
    (hkey : s.keyed? actor.actorId (digestText key) = none)
    (h : s.active? q.workload = some row) (runId : String) (eventId : Nat → EntityId .event) :
    s.acceptRun actor q key .forbid clock runId eventId = .error (.operationConflict
      "A workload run is already active and its concurrency policy forbids overlap.") := by
  unfold RunStore.acceptRun
  simp only [htime, hkey, h, bind, Except.bind, RunStore.applyPolicy]

end Independence

end Ophelia

namespace Ophelia.Reference

attribute [local instance] platform

open RunStore (Unused Fits Sound Accepted)

/-! ### A backup that takes longer than a minute -/

def cronWorkload (name : Slug) : LockedWorkload := ⟨name, .cron, .forbid⟩

def nightWork : LockedManifest where
  app := "web"
  environment := "production"
  workloads := ⟨[cronWorkload ⟨"backup", by decide⟩, cronWorkload ⟨"report", by decide⟩],
    by decide⟩

/-- A host with one active revision. -/
def nightHost : RunHost where
  hostId := "host_a"
  scope app environment :=
    if app = "web" ∧ environment = "production" then
      some ⟨some (some ⟨"host_a", "web", "production", "rev_a", "sha256:a"⟩),
        fun _ => .ok nightWork, fun _ => .ok ⟨"rev_a", "sha256:a"⟩⟩
    else none

def scheduleJson (name : String) : List (String × Json) :=
  [("name", .str name), ("schedule", .str "* * * * *"), ("revision_digest", .str "sha256:a")]

def nightRegistry : CronRegistry where
  app := "web"
  environment := "production"
  content := .ok (.obj [("schema_version", .int 1), ("schedules",
    .arr [.obj (scheduleJson "backup"), .obj (scheduleJson "report")])])

def midnight : Calendar.DateTime :=
  ⟨2026, 1, 1, 0, 0, 0, 0, by decide, by decide, by decide, by decide, by decide, by decide,
    by decide⟩

def nightMinute : Minute where
  host := nightHost
  actor := actor
  now := midnight
  draws _ index := ⟨runClock (index + 1), runId (index + 1), runEvent (index + 1)⟩

def cronRun (name : String) : RunStore.RunRequest :=
  ⟨⟨"host_a", "web", "production", name⟩, "rev_a", "sha256:a", "cron", "cron"⟩

def backupItem : Registered := ⟨0, 0, "web", "production", .ok (.obj (scheduleJson "backup"))⟩

def reportItem : Registered := ⟨0, 1, "web", "production", .ok (.obj (scheduleJson "report"))⟩

theorem registered_night : registered [nightRegistry] = [[backupItem, reportItem]] := rfl

theorem everyMinute : matchesMinute (.str "* * * * *") midnight = .ok true := by
  have hmatch : CronFields.cronMatches CronFields.unicode "* * * * *" midnight = .ok true := by
    decide +kernel
  unfold matchesMinute
  simp only [hmatch]
  rfl

/-- The key of a schedule at midnight. -/
def nightKey (name : String) : String :=
  "cron:sha256:a:" ++ name ++ ":2026-01-01T00:00:00Z"

theorem nightKey_ne : ∀ name ∈ ["backup", "report"],
    Ophelia.digestText (nightKey name) ≠ Ophelia.digestText (runKey 0) := by
  decide +kernel

theorem length_cronRun : ∀ name ∈ ["backup", "report"],
    (canonicalJson ((cronRun name).toJson actor)).toList.length ≤ 65536 := by
  have hplain : ∀ name ∈ ["backup", "report"], plain ((cronRun name).toJson actor) = true := by
    decide +kernel
  have hweight : ∀ name ∈ ["backup", "report"], ((cronRun name).toJson actor).weight ≤ 65536 := by
    decide +kernel
  intro name hname
  have hplain := hplain name hname
  have hweight := hweight name hname
  rw [RunStore.RunRequest.toJson] at hplain hweight ⊢
  rw [canonicalJson_of_plain hplain]
  exact Nat.le_trans (Json.length_dumps_le _) (Nat.le_trans (weight_mask_le _) hweight)

theorem runClock_ok {i : Nat} (hi : i < 3) (n : Nat) :
    Platform.fromTimestamp (runClock i n) = some ((EPOCH + i) * 1000000) := by
  have hrange : EPOCH ≤ EPOCH + (i : Int) ∧ EPOCH + (i : Int) < EPOCH + 60 := by omega
  exact if_pos hrange

/-- The request of a schedule of the night, as it reaches the store. -/
theorem attempt_night (name : String) (hname : name ∈ ["backup", "report"]) {i : Nat}
    (x : Registered)
    (hx : x = ⟨0, i, "web", "production", .ok (.obj (scheduleJson name))⟩) (s : RunStore) :
    nightMinute.attempt x s =
      ((Result.lift (s.acceptRun actor (cronRun name) (nightKey name) .forbid (runClock (i + 1))
        (runId (i + 1)) (runEvent (i + 1)))).map fun p => some p.1) := by
  subst hx
  rw [Minute.attempt_of_match rfl rfl rfl rfl everyMinute]
  simp only [List.mem_cons, List.not_mem_nil, or_false] at hname
  rcases hname with rfl | rfl
  · rfl
  · rfl

theorem unused_empty (id : EntityId .event) : Unused RunStore.empty id :=
  ⟨fun e he => absurd he (by simp [RunStore.empty]), fun e he => absurd he (by simp [RunStore.empty])⟩

/-- What the store looks like while the backup runs. -/
structure BackingUp (s : RunStore) (r : WorkloadRun) : Prop where
  sound : Sound s
  rows : ∀ x ∈ s.runs.rows, x = r
  id : r.runId = runId 0
  workload : r.workload = (cronRun "backup").workload
  digest : r.idempotencyKeyDigest = Ophelia.digestText (runKey 0)
  active : r ∈ s.activeRuns (cronRun "backup").workload
  chain : s.runEvents (runId 2) = []
  unused : ∀ n, Unused s (runEvent 2 n)

theorem backup_accepted : ∃ s r, RunStore.empty.acceptRun actor (cronRun "backup") (runKey 0) .forbid
      (runClock 0) (runId 0) (runEvent 0) = .ok (s, r) ∧ BackingUp s r := by
  have hfirst : ∃ s r, RunStore.empty.acceptRun actor (cronRun "backup") (runKey 0) .replace
        (runClock 0) (runId 0) (runEvent 0) = .ok (s, r) ∧
      ∀ other, Unused RunStore.empty other → other ≠ runEvent 0 0 → other ≠ runEvent 0 1 →
        Unused s other :=
    RunStore.acceptRun_replace_ok Sound.empty rfl (runClock_ok (by decide))
      (fun n u hu => short_timestamp hu) (length_cronRun "backup" (by simp)) rfl rfl
      (fun n => unused_empty _) (by decide +kernel) (fits_runId 0 (by decide))
      (fun row hrow => absurd hrow (by simp [RunStore.active?, RunStore.activeRuns, orderBy,
        RunStore.empty]))
  obtain ⟨s, r, haccept, hunused⟩ := hfirst
  rw [RunStore.acceptRun_of_idle rfl actor (runKey 0) .replace .forbid] at haccept
  refine ⟨s, r, haccept, ?_⟩
  rcases RunStore.acceptRun_eq_ok haccept with ⟨hold, -⟩ | ⟨-, s₁, e, ha⟩
  · exact absurd hold (by simp [RunStore.keyed?, RunStore.empty])
  have hrun : (RunCall.acceptRun actor (cronRun "backup") (runKey 0) .forbid (runClock 0) (runId 0)
      (runEvent 0)).run RunStore.empty = .ok s := by
    rw [RunCall.run, haccept]
    rfl
  refine ⟨Sound.empty.movesTo (RunStore.movesTo_run hrun), ?_, ha.id, ha.workload, ha.digest,
    ha.mem_activeRuns.mpr (.inl rfl), ?_, fun n => ?_⟩
  · intro x hx
    rcases ha.mem_rows hx with rfl | ⟨y, hy, -⟩
    · rfl
    · exact absurd hy (by simp [RunStore.empty])
  · exact (ha.chains Sound.empty.contiguous (runId 2)).2 (by decide +kernel) rfl
  · have hne := runEvent_ne 0 (by decide) 2 (by decide) (by decide) (min n 1) (by omega)
    rw [runEvent_eq 2 n]
    exact hunused _ (unused_empty _) (hne 0 (by decide)) (hne 1 (by decide))

section

variable {s : RunStore} {r : WorkloadRun}

theorem BackingUp.keyed? (h : BackingUp s r) {name : String} (hname : name ∈ ["backup", "report"]) :
    s.keyed? actor.actorId (Ophelia.digestText (nightKey name)) = none := by
  rw [RunStore.keyed?_eq_none]
  rintro x hx ⟨-, hdigest⟩
  rw [h.rows x hx, h.digest] at hdigest
  exact nightKey_ne name hname hdigest.symm

/-- The next backup is refused. -/
theorem BackingUp.backup_refused (h : BackingUp s r) :
    nightMinute.attempt backupItem s = .error (.raised (.operationConflict
      "A workload run is already active and its concurrency policy forbids overlap.")) := by
  have hactive : ∃ row, s.active? (cronRun "backup").workload = some row := by
    cases hrow : s.active? (cronRun "backup").workload with
    | none =>
        have hnone := h.active
        rw [RunStore.activeRuns_of_active?_none hrow] at hnone
        exact absurd hnone List.not_mem_nil
    | some row => exact ⟨row, rfl⟩
  obtain ⟨row, hrow⟩ := hactive
  obtain ⟨acceptedAt, htime, -⟩ := timestamp_ok (runClock_ok (i := 1) (by decide) 0)
  rw [attempt_night "backup" (by simp) backupItem rfl,
    RunStore.acceptRun_of_active htime (h.keyed? (by simp)) hrow]
  rfl

/-- The report gets its run. -/
theorem BackingUp.report_accepted (h : BackingUp s r) :
    ∃ s', nightMinute.attempt reportItem s = .ok (some s') := by
  have hidle : s.active? (cronRun "report").workload = none := by
    cases hrow : s.active? (cronRun "report").workload with
    | none => rfl
    | some row =>
        obtain ⟨hget, hworkload, -⟩ := RunStore.active?_eq_some hrow
        rw [h.rows row (Table.mem_of_get? hget), h.workload] at hworkload
        exact absurd hworkload (by decide +kernel)
  have hfree : s.runs.get? (runId 2) = none := by
    refine Table.get?_eq_none.mpr fun x hx hid => ?_
    rw [h.rows x hx, h.id] at hid
    exact absurd hid (by decide +kernel)
  have hsecond : ∃ s' r', s.acceptRun actor (cronRun "report") (nightKey "report") .replace
        (runClock 2) (runId 2) (runEvent 2) = .ok (s', r') ∧
      ∀ other, Unused s other → other ≠ runEvent 2 0 → other ≠ runEvent 2 1 → Unused s' other :=
    RunStore.acceptRun_replace_ok h.sound (h.keyed? (by simp)) (runClock_ok (by decide))
      (fun n u hu => short_timestamp hu) (length_cronRun "report" (by simp)) hfree h.chain
      h.unused (by decide +kernel) (fits_runId 2 (by decide))
      (fun row hrow => absurd hrow (by simp [hidle]))
  obtain ⟨s', r', haccept, -⟩ := hsecond
  refine ⟨s', ?_⟩
  rw [attempt_night "report" (by simp) reportItem rfl,
    RunStore.acceptRun_of_idle hidle actor (nightKey "report") .forbid .replace, haccept]
  rfl

end

/-- **The backup of the minute before keeps the report from being scheduled**, which would get
its run when requested by itself. -/
theorem report_dropped : ∃ s r, RunStore.empty.acceptRun actor (cronRun "backup") (runKey 0) .forbid
      (runClock 0) (runId 0) (runEvent 0) = .ok (s, r) ∧
    reportItem ∈ nightMinute.acceptable [nightRegistry] s ∧
    reportItem ∉ (nightMinute.scheduleMinute [nightRegistry] s).1 := by
  obtain ⟨s, r, haccept, hbusy⟩ := backup_accepted
  obtain ⟨s', hreport⟩ := hbusy.report_accepted
  refine ⟨s, r, haccept, ?_, ?_⟩
  · rw [Minute.acceptable, registered_night]
    simp [Handlers.taken, Handlers.takes, Handlers.next, hbusy.backup_refused, hreport]
  · rw [Minute.scheduleMinute, registered_night]
    simp [Handlers.runGroups, Handlers.runGroup, hbusy.backup_refused, ScheduleFailure.caught]

end Ophelia.Reference
