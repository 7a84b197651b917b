import Mathlib.Data.Bool.AllAny
import Ophelia.Execution.ComposeStop
import Ophelia.Products.Identity

/-!
# Ophelia.Execution.ComposeMigrations

The migrations of a revision, `_run_migrations` of `execution/compose_backend.py`, within
`start`. That a migration has completed is on record twice: in a marker file of the revision
directory, and in the state of the container that ran it. Either record may be there without
the other, since a start can be cut off between the command and the marker, and since a run
that times out leaves its container behind in any state.

A ghost log says what has really happened. Every event in it is justified by what came before
(`Justified`), over any number of starts by any operations.
-/

namespace Ophelia

open PyText Program

/-! ### Container names -/

/-- `"operation_" + uuid.uuid4().hex`, the form of the identifiers that the journal gives out. -/
def isJournalId (cs : List Char) : Bool :=
  "operation_".toList.isPrefixOf cs && decide (cs.length = 42) &&
    (cs.drop "operation_".toList.length).all fun c => c.isDigit || ('a' ≤ c && c ≤ 'f')

abbrev JournalId := Refined isJournalId

/-- The characters that a container name may end in no more. -/
def isNameMark (c : Char) : Bool :=
  c == '.' || c == '-' || c == '_'

/-- `value.strip(".-_")`. -/
def stripMarks (cs : List Char) : List Char :=
  (cs.dropWhile isNameMark).reverse.dropWhile isNameMark |>.reverse

/-- A character of a container name. -/
def dockerChar (c : Char) : Char :=
  if c.isAlphanum || isNameMark c then c else '-'

/-- `_docker_name`, on ASCII text. -/
def dockerName (value : String) : String :=
  String.ofList ((stripMarks ((lower value.toList).map dockerChar)).take 128)

/-- The container of a migration under an operation. -/
def migrationContainer (operation : JournalId) (migration : Slug) : String :=
  dockerName ("ophelia-" ++ operation.val ++ "-" ++ migration.val)

/-- The characters of the names of operations and migrations. -/
def IsNameChar (c : Char) : Prop :=
  isLowerAlnum c = true ∨ c = '-' ∨ c = '_'

instance : DecidablePred IsNameChar := fun c =>
  inferInstanceAs (Decidable (isLowerAlnum c = true ∨ c = '-' ∨ c = '_'))

theorem lowerChar_of_isNameChar {c : Char} (h : IsNameChar c) : lowerChar c = [c] := by
  rcases h with h | rfl | rfl
  · have hrange := toNat_of_isLowerAlnum h
    have hnot : ¬ (65 ≤ c.toNat ∧ c.toNat ≤ 90) := by omega
    have hupper : c.isUpper = false := by
      simpa [Char.isUpper, UInt32.le_iff_toNat_le] using hnot
    unfold lowerChar
    rw [hupper, if_neg (by simp), if_neg (by omega), if_neg (by omega)]
  · rfl
  · rfl

theorem dockerChar_of_isNameChar {c : Char} (h : IsNameChar c) : dockerChar c = c := by
  rcases h with h | rfl | rfl
  · rw [dockerChar, isAlphanum_of_isLowerAlnum h]
    rfl
  · rfl
  · rfl

theorem isNameMark_of_isLowerAlnum {c : Char} (h : isLowerAlnum c = true) :
    isNameMark c = false := by
  have hrange := toNat_of_isLowerAlnum h
  simp only [isNameMark, Bool.or_eq_false_iff, beq_eq_false_iff_ne]
  refine ⟨⟨?_, ?_⟩, ?_⟩
  all_goals
    rintro rfl
    revert hrange
    decide

theorem lower_of_isNameChar {cs : List Char} (h : ∀ c ∈ cs, IsNameChar c) : lower cs = cs := by
  induction cs with
  | nil => rfl
  | cons c cs ih =>
      have htail : lower cs = cs := ih fun d hd => h d (List.mem_cons_of_mem c hd)
      have hhead : lowerChar c = [c] := lowerChar_of_isNameChar (h c List.mem_cons_self)
      unfold lower at htail ⊢
      rw [List.flatMap_cons, hhead, htail, List.singleton_append]

theorem isNameChar_of_slug (m : Slug) : ∀ c ∈ m.val.toList, IsNameChar c := by
  intro c hc
  exact (mem_of_isSlug m c hc).imp_right Or.inl

theorem isNameChar_of_journalId (op : JournalId) : ∀ c ∈ op.val.toList, IsNameChar c := by
  have hok := op.ok
  simp only [isJournalId, Bool.and_eq_true, List.isPrefixOf_iff_prefix] at hok
  obtain ⟨⟨⟨digits, hdigits⟩, -⟩, hall⟩ := hok
  rw [← hdigits, List.drop_left, List.all_eq_true] at hall
  intro c hc
  rw [← hdigits, List.mem_append] at hc
  rcases hc with hc | hc
  · exact List.all_iff_forall_prop.mp (by decide) c hc
  · have hdigit := hall c hc
    simp only [Bool.or_eq_true, Bool.and_eq_true, decide_eq_true_eq] at hdigit
    refine Or.inl ?_
    rw [isLowerAlnum, Bool.or_eq_true]
    rcases hdigit with hd | ⟨ha, hf⟩
    · exact Or.inr hd
    · refine Or.inl ?_
      simp only [Char.isLower, Bool.and_eq_true, decide_eq_true_eq]
      exact ⟨ha, le_trans hf (by decide)⟩

theorem length_journalId (op : JournalId) : op.val.toList.length = 42 := by
  have hok := op.ok
  simp only [isJournalId, Bool.and_eq_true, decide_eq_true_eq] at hok
  exact hok.1.2

/-- The name of a container is the text it is made from. -/
theorem migrationContainer_eq (op : JournalId) (m : Slug) :
    migrationContainer op m = "ophelia-" ++ op.val ++ "-" ++ m.val := by
  obtain ⟨last, hlast, hlastOk⟩ := last_of_isSlug m
  have hlength : m.val.toList.length ≤ 63 :=
    of_decide_eq_true (Bool.and_eq_true _ _ |>.mp m.ok).1
  have hop := length_journalId op
  have hchars : ∀ c ∈ ("ophelia-" ++ op.val ++ "-" ++ m.val).toList, IsNameChar c := by
    intro c hc
    simp only [String.toList_append, List.mem_append] at hc
    rcases hc with ((hc | hc) | hc) | hc
    · exact List.all_iff_forall_prop.mp (by decide) c hc
    · exact isNameChar_of_journalId op c hc
    · exact List.all_iff_forall_prop.mp (by decide) c hc
    · exact isNameChar_of_slug m c hc
  have hmap : (lower ("ophelia-" ++ op.val ++ "-" ++ m.val).toList).map dockerChar =
      ("ophelia-" ++ op.val ++ "-" ++ m.val).toList := by
    rw [lower_of_isNameChar hchars]
    exact (List.map_congr_left fun c hc => dockerChar_of_isNameChar (hchars c hc)).trans
      (List.map_id _)
  have hstrip : stripMarks ("ophelia-" ++ op.val ++ "-" ++ m.val).toList =
      ("ophelia-" ++ op.val ++ "-" ++ m.val).toList := by
    have hhead : ("ophelia-" ++ op.val ++ "-" ++ m.val).toList =
        'o' :: ("phelia-".toList ++ (op.val.toList ++ ("-".toList ++ m.val.toList))) := by
      simp only [String.toList_append, List.append_assoc]
      rfl
    rw [hhead]
    refine stripChars_of_ends (by decide) (isNameMark_of_isLowerAlnum hlastOk) ?_
    rw [← hhead, String.toList_append, List.getLast?_append, hlast]
    rfl
  rw [migrationContainer, dockerName, hmap, hstrip, List.take_of_length_le, String.ofList_toList]
  simp only [String.toList_append, List.length_append, hop]
  have hpre : "ophelia-".toList.length = 8 := rfl
  have hdash : "-".toList.length = 1 := rfl
  omega

/-- Different migrations of different operations have different containers. -/
theorem migrationContainer_inj {op op' : JournalId} {m m' : Slug}
    (h : migrationContainer op m = migrationContainer op' m') : op = op' ∧ m = m' := by
  rw [migrationContainer_eq, migrationContainer_eq] at h
  have hlist := congrArg String.toList h
  simp only [String.toList_append, List.append_assoc, List.append_cancel_left_eq] at hlist
  have hlen : op.val.toList.length = op'.val.toList.length := by
    rw [length_journalId, length_journalId]
  obtain ⟨hop, hrest⟩ := List.append_inj hlist hlen
  rw [List.append_cancel_left_eq] at hrest
  exact ⟨Refined.ext (String.toList_inj.mp hop), Refined.ext (String.toList_inj.mp hrest)⟩

/-! ### Containers and markers -/

inductive ContainerStatus where
  | created
  | running
  | paused
  | restarting
  | removing
  | exited
  | dead
deriving DecidableEq

def ContainerStatus.text : ContainerStatus → String
  | .created => "created"
  | .running => "running"
  | .paused => "paused"
  | .restarting => "restarting"
  | .removing => "removing"
  | .exited => "exited"
  | .dead => "dead"

/-- `.State` of a container. -/
structure ContainerState where
  status : ContainerStatus
  exitCode : Nat
deriving DecidableEq

namespace ContainerState

/-- `{{.State.Status}}:{{.State.ExitCode}}`. -/
def text (state : ContainerState) : String :=
  state.status.text ++ ":" ++ toString state.exitCode

/-- The container has ended with exit status 0. -/
def succeeded (state : ContainerState) : Bool :=
  state.status = .exited && state.exitCode = 0

theorem succeeded_of_text {state : ContainerState} (h : state.text = "exited:0") :
    state.succeeded = true := by
  obtain ⟨status, exitCode⟩ := state
  rw [text] at h
  cases status with
  | exited =>
      have hlist : "exited:".toList ++ exitCode.repr.toList = "exited:".toList ++ ['0'] := by
        rw [← String.toList_append]
        exact congrArg String.toList h
      -- the digits of the exit code determine it
      have hdigits : Nat.toDigits 10 exitCode = Nat.toDigits 10 0 := by
        rw [← Nat.toList_repr, Nat.toDigits_zero]
        exact List.append_cancel_left hlist
      have hcode := congrArg (fun cs => Nat.ofDigitChars 10 cs 0) hdigits
      simp only [Nat.ofDigitChars_toDigits (by decide : 1 < 10) (Nat.le_refl 10)] at hcode
      rw [hcode]
      rfl
  | created | running | paused | restarting | removing | dead =>
      have hlist := congrArg String.toList h
      simp [ContainerStatus.text] at hlist

end ContainerState

/-- A container that ran a migration. -/
structure MigrationContainer where
  migration : Slug
  state : ContainerState

/-- The marker file of a migration, as far as it reads. -/
inductive MarkerFile where
  | missing
  /-- A symbolic link or a directory. -/
  | irregular
  | undecodable
  | recorded (revisionDigest : Digest)
deriving DecidableEq

/-- What has happened to the migrations of a revision. -/
inductive MigrationEvent where
  /-- `docker compose run` has made the container of a migration. -/
  | started (operation : JournalId) (migration : Slug)
  /-- A container of the migration has ended with exit status 0. -/
  | completed (migration : Slug)
  | marked (migration : Slug)
  /-- The marker is gone, with the revision directory. -/
  | lost (migration : Slug)
  /-- A container is gone. -/
  | gone (container : String)

/-- What goes on beside a docker command: what becomes of containers until then, and the state
in which a run leaves the container it makes, if it makes one. -/
structure DockerTurn where
  changes : List (String × Option ContainerState)
  left : Option ContainerState

/-- A host with the migrations of one revision. The log has its newest event first. -/
structure MigrationHost where
  host : Host
  markers : Slug → MarkerFile
  containers : String → Option MigrationContainer
  turns : List DockerTurn
  log : List MigrationEvent

abbrev MigrationProc := Program MigrationHost ComposeFailure

namespace MigrationHost

def setMarker (s : MigrationHost) (migration : Slug) (file : MarkerFile) : MigrationHost :=
  { s with markers := fun m => if m = migration then file else s.markers m }

def setContainer (s : MigrationHost) (name : String) (container : Option MigrationContainer) :
    MigrationHost :=
  { s with containers := fun n => if n = name then container else s.containers n }

def record (s : MigrationHost) (event : MigrationEvent) : MigrationHost :=
  { s with log := event :: s.log }

/-- A container comes into a state. -/
def enterState (s : MigrationHost) (name : String) (migration : Slug) (state : ContainerState) :
    MigrationHost :=
  (if state.succeeded then s.record (.completed migration) else s).setContainer name
    (some ⟨migration, state⟩)

/-- A container that is there changes its state, or is removed. -/
def change (s : MigrationHost) (name : String) (state : Option ContainerState) : MigrationHost :=
  match s.containers name with
  | none => s
  | some container =>
      match state with
      | some state => s.enterState name container.migration state
      | none => (s.setContainer name none).record (.gone name)

/-- A run makes the container of a migration. -/
def create (s : MigrationHost) (operation : JournalId) (migration : Slug) : MigrationHost :=
  (s.record (.started operation migration)).setContainer (migrationContainer operation migration)
    (some ⟨migration, ⟨.created, 0⟩⟩)

/-- The marker of a migration is written. -/
def mark (s : MigrationHost) (migration : Slug) (digest : Digest) : MigrationHost :=
  (s.setMarker migration (.recorded digest)).record (.marked migration)

end MigrationHost

/-- A procedure on the files of the host. -/
def onFiles {α : Type} (m : Proc α) : MigrationProc α :=
  Program.zoom MigrationHost.host (fun h s => { s with host := h }) m

/-! ### The loop -/

/-- A backend whose manifest has these migrations, in this order. -/
structure MigratingBackend where
  backend : ComposeBackend
  operation : JournalId
  migrations : List Slug
  distinct : migrations.Nodup

namespace MigratingBackend

variable (b : MigratingBackend)

/-- The next turn; the containers change in the meantime. -/
def nextTurn : MigrationProc (Option ContainerState) := fun s =>
  match s.turns with
  | [] => (s, .returned none)
  | turn :: turns =>
      (turn.changes.foldl (fun s c => s.change c.1 c.2) { s with turns }, .returned turn.left)

/-- `docker inspect`, with `check=False`: the state, when it succeeds. -/
def inspect (name : String) : MigrationProc (Option String) := do
  let _ ← nextTurn
  let s ← Program.get
  let succeeds ← onFiles (Host.command false)
  return if succeeds then (s.containers name).map fun c => c.state.text else none

/-- What a run leaves behind. -/
def makeContainer (migration : Slug) : Option ContainerState → MigrationProc Unit
  | none => Program.ret ()
  | some state => Program.modify fun s =>
      (s.create b.operation migration).enterState (migrationContainer b.operation migration)
        migration state

/-- `docker compose run --name …`. A container of this name that is there already refuses it;
otherwise it may make a container, and leave it in any state, whether or not it comes back. -/
def composeRun (migration : Slug) : MigrationProc Unit := do
  let left ← nextTurn
  let s ← Program.get
  let made :=
    if (s.containers (migrationContainer b.operation migration)).isNone then left else none
  b.makeContainer migration made
  match ← onFiles Host.moment with
  | .proceeds =>
      if made.any ContainerState.succeeded then Program.ret ()
      else Program.raise .processFailure
  | .fails => Program.raise .processFailure
  | .breaks => Program.raise .osError
  | .crashes | .torn _ => Program.crash

/-- `_atomic_json` of a marker. The file is there from the rename on. -/
def writeMarker (migration : Slug) : MigrationProc Unit := do
  let s ← Program.get
  if s.markers migration = .irregular then Program.raise Host.symbolicLinkError
  else
    match ← onFiles Host.moment with
    | .proceeds => Program.modify fun s => s.mark migration b.backend.revisionDigest
    | .fails => Program.raise .osError
    | .breaks => do
        Program.modify fun s => s.mark migration b.backend.revisionDigest
        Program.raise .osError
    | .crashes => Program.crash
    | .torn _ => do
        Program.modify fun s => s.mark migration b.backend.revisionDigest
        Program.crash

/-- A migration without a marker. -/
def completeMigration (migration : Slug) : MigrationProc Unit := do
  match ← inspect (migrationContainer b.operation migration) with
  | some text =>
      if text = "exited:0" then b.writeMarker migration
      else Program.raise <|
        (.composeBackendError "Migration container exists without a successful result.")
  | none => do
      b.composeRun migration
      b.writeMarker migration

/-- The loop of `_run_migrations`. -/
def runMigrations : List Slug → MigrationProc Unit
  | [] => Program.ret ()
  | migration :: migrations => do
      let s ← Program.get
      match s.markers migration with
      | .recorded digest =>
          if digest ≠ b.backend.revisionDigest then
            Program.raise (.composeBackendError "Migration marker binds another revision.")
          else runMigrations migrations
      | .undecodable => Program.raise .unicodeDecodeError
      | _ => do
          b.completeMigration migration
          runMigrations migrations

/-- What `start` does before the migrations, under the fence. -/
def prepareStart [Platform] : Proc Unit := do
  Host.preparation
  b.backend.fenced do
    b.backend.materializeRevision
    Host.preparation
    b.backend.materializeRouteAuth
    Host.preparation

/-- What `start` does after the migrations. -/
def startWorkloads : Proc Unit := do
  if b.backend.recreate = true then do
    let active ← b.backend.readActive
    let previous ← b.backend.previousRuntime active
    ComposeBackend.stopServices (previous.elim [] RetainedRuntime.longRunning)
    ComposeBackend.startServices b.backend.candidateStartServices
  else ComposeBackend.startServices b.backend.candidateStartServices

/-- `start`. -/
def start [Platform] : MigrationProc RuntimeHandle := do
  onFiles b.prepareStart
  b.runMigrations b.migrations
  onFiles b.startWorkloads
  return b.backend.candidateHandle

end MigratingBackend

/-! ### Runs -/

/-- The identifier of an operation is one that a fence takes. -/
theorem isStoredIdentifier_of_journalId (op : JournalId) :
    isStoredIdentifier op.val.toList = true := by
  have hchars : ∀ c ∈ op.val.toList, c.isAlphanum = true ∨ c = '-' ∨ c = '_' := fun c hc =>
    (isNameChar_of_journalId op c hc).imp_left isAlphanum_of_isLowerAlnum
  have hpre : "operation_".toList <+: op.val.toList := by
    have hok := op.ok
    simp only [isJournalId, Bool.and_eq_true, List.isPrefixOf_iff_prefix] at hok
    exact hok.1.1
  obtain ⟨digits, hdigits⟩ := hpre
  have hlength := length_journalId op
  rw [← hdigits] at hchars hlength ⊢
  change isStoredIdentifier ('o' :: ("peration_".toList ++ digits)) = true
  rw [isStoredIdentifier, Bool.and_eq_true, Bool.and_eq_true]
  refine ⟨⟨by decide, decide_eq_true ?_⟩, List.all_eq_true.mpr fun c hc => ?_⟩
  · have htotal : ('o' :: ("peration_".toList ++ digits)).length = 42 := hlength
    rw [List.length_cons] at htotal
    omega
  · rcases hchars c (List.mem_cons_of_mem 'o' hc) with h | rfl | rfl
    · simp [h]
    · decide
    · decide

/-- One call of `start`: by which operation, under which fence, and what happens meanwhile. -/
structure StartAttempt where
  operation : JournalId
  ownerId : StoredIdentifier
  fencingToken : Pos
  tape : List Moment
  turns : List DockerTurn

/-- What may happen on a host with the migrations of one revision. -/
inductive MigrationStep where
  | start (attempt : StartAttempt)
  /-- A container changes, or is removed. -/
  | change (container : String) (state : Option ContainerState)
  /-- A marker goes with the revision directory; a removal that breaks off leaves some. -/
  | lose (migration : Slug)
  /-- A file comes to stand in place of a marker, with a candidate that is copied. -/
  | plant (migration : Slug) (file : MarkerFile)
  /-- Any other call changes the files of the host. -/
  | files (host : Host)

namespace MigratingBackend

variable [Platform] (b : MigratingBackend)

/-- The backend as an attempt builds it anew. -/
def resumed (a : StartAttempt) : MigratingBackend :=
  { b with
    operation := a.operation
    backend := { b.backend with
      fence := ⟨b.backend.scope, ⟨a.operation.val, isStoredIdentifier_of_journalId a.operation⟩,
        a.ownerId, a.fencingToken⟩ } }

/-- An attempt at `start`. -/
def attempt (a : StartAttempt) (s : MigrationHost) :
    MigrationHost × Program.Outcome ComposeFailure RuntimeHandle :=
  (b.resumed a).start { s with host := { s.host with tape := a.tape }, turns := a.turns }

def step (s : MigrationHost) : MigrationStep → MigrationHost
  | .start a => (b.attempt a s).1
  | .change container state => s.change container state
  | .lose migration => (s.setMarker migration .missing).record (.lost migration)
  | .plant migration file =>
      if file = .recorded b.backend.revisionDigest ∨
          s.markers migration = .recorded b.backend.revisionDigest then s
      else s.setMarker migration file
  | .files host => { s with host }

/-- The host after these steps. -/
def after (s : MigrationHost) (steps : List MigrationStep) : MigrationHost :=
  steps.foldl b.step s

/-- Before the first start of the revision: no markers of it, and no containers under the names
of its migrations. -/
structure Untouched (s : MigrationHost) : Prop where
  log : s.log = []
  markers : ∀ m, s.markers m ≠ .recorded b.backend.revisionDigest
  containers : ∀ op m, s.containers (migrationContainer op m) = none

end MigratingBackend

/-! ### The history -/

/-- The success of a migration is recorded: its marker was written and has not been lost. -/
def Marked (m : Slug) : List MigrationEvent → Prop
  | [] => False
  | .marked m' :: earlier => m' = m ∨ Marked m earlier
  | .lost m' :: earlier => m' ≠ m ∧ Marked m earlier
  | .started _ _ :: earlier | .completed _ :: earlier | .gone _ :: earlier => Marked m earlier

/-- An operation has a container of the migration. -/
def Present (op : JournalId) (m : Slug) : List MigrationEvent → Prop
  | [] => False
  | .started op' m' :: earlier => (op' = op ∧ m' = m) ∨ Present op m earlier
  | .gone name :: earlier => name ≠ migrationContainer op m ∧ Present op m earlier
  | .marked _ :: earlier | .lost _ :: earlier | .completed _ :: earlier => Present op m earlier

theorem marked_marked {m m' : Slug} {earlier : List MigrationEvent} :
    Marked m (.marked m' :: earlier) ↔ m' = m ∨ Marked m earlier := Iff.rfl

theorem marked_lost {m m' : Slug} {earlier : List MigrationEvent} :
    Marked m (.lost m' :: earlier) ↔ m' ≠ m ∧ Marked m earlier := Iff.rfl

theorem present_started {op op' : JournalId} {m m' : Slug} {earlier : List MigrationEvent} :
    Present op m (.started op' m' :: earlier) ↔ (op' = op ∧ m' = m) ∨ Present op m earlier :=
  Iff.rfl

theorem present_gone {op : JournalId} {m : Slug} {name : String}
    {earlier : List MigrationEvent} :
    Present op m (.gone name :: earlier) ↔
      name ≠ migrationContainer op m ∧ Present op m earlier := Iff.rfl

/-- An event is justified by what came before: a migration is run only when the ones before it
have completed, when its success is not recorded, and when the operation has no container of it;
a marker is written only for a migration that has completed. -/
def Justified (migrations : List Slug) (earlier : List MigrationEvent) : MigrationEvent → Prop
  | .started op m =>
      (∀ before after, migrations = before ++ m :: after →
        ∀ p ∈ before, .completed p ∈ earlier) ∧
      ¬ Marked m earlier ∧ ¬ Present op m earlier
  | .marked m => .completed m ∈ earlier
  | .completed _ | .lost _ | .gone _ => True

/-- Every event is justified by the ones before it. -/
def JustifiedLog (migrations : List Slug) (log : List MigrationEvent) : Prop :=
  ∀ earlier event, event :: earlier <:+ log → Justified migrations earlier event

theorem JustifiedLog.cons {migrations : List Slug} {log : List MigrationEvent}
    {event : MigrationEvent} (h : JustifiedLog migrations log)
    (hevent : Justified migrations log event) : JustifiedLog migrations (event :: log) := by
  intro earlier e hsuffix
  rcases List.suffix_cons_iff.mp hsuffix with heq | hsuffix
  · cases heq
    exact hevent
  · exact h earlier e hsuffix

/-- What is recorded has completed. -/
theorem completed_of_marked {migrations : List Slug} {log : List MigrationEvent} {m : Slug}
    (h : JustifiedLog migrations log) (hm : Marked m log) : .completed m ∈ log := by
  induction log with
  | nil => exact hm.elim
  | cons event log ih =>
      have hlog : JustifiedLog migrations log := fun earlier e hsuffix =>
        h earlier e (hsuffix.trans (List.suffix_cons event log))
      refine List.mem_cons_of_mem event ?_
      cases event with
      | marked m' =>
          rcases hm with rfl | hm
          · exact h log _ List.suffix_rfl
          · exact ih hlog hm
      | lost m' => exact ih hlog hm.2
      | started | completed | gone => exact ih hlog hm

/-- The records agree with the history. -/
structure Accounted (digest : Digest) (migrations : List Slug) (s : MigrationHost) : Prop where
  justified : JustifiedLog migrations s.log
  marker : ∀ m, s.markers m = .recorded digest ↔ Marked m s.log
  container : ∀ op m, (s.containers (migrationContainer op m)).isSome = true ↔ Present op m s.log
  named : ∀ op m c, s.containers (migrationContainer op m) = some c → c.migration = m
  succeeded : ∀ op m c, s.containers (migrationContainer op m) = some c →
    c.state.succeeded = true → .completed m ∈ s.log

/-! ### What keeps the account -/

namespace MigrationHost

variable (s : MigrationHost)

theorem containers_setContainer (name other : String) (c : Option MigrationContainer) :
    (s.setContainer name c).containers other = if other = name then c else s.containers other :=
  rfl

theorem markers_setMarker (m m' : Slug) (file : MarkerFile) :
    (s.setMarker m file).markers m' = if m' = m then file else s.markers m' :=
  rfl

@[simp] theorem log_setContainer (name : String) (c : Option MigrationContainer) :
    (s.setContainer name c).log = s.log := rfl

@[simp] theorem log_setMarker (m : Slug) (file : MarkerFile) :
    (s.setMarker m file).log = s.log := rfl

@[simp] theorem log_record (event : MigrationEvent) :
    (s.record event).log = event :: s.log := rfl

@[simp] theorem containers_record (event : MigrationEvent) :
    (s.record event).containers = s.containers := rfl

@[simp] theorem markers_record (event : MigrationEvent) :
    (s.record event).markers = s.markers := rfl

theorem containers_create (op : JournalId) (m : Slug) (name : String) :
    (s.create op m).containers name =
      if name = migrationContainer op m then some ⟨m, ⟨.created, 0⟩⟩ else s.containers name := by
  rw [create, containers_setContainer, containers_record]

theorem log_create (op : JournalId) (m : Slug) :
    (s.create op m).log = .started op m :: s.log := by
  rw [create, log_setContainer, log_record]

@[simp] theorem markers_setContainer (name : String) (c : Option MigrationContainer) :
    (s.setContainer name c).markers = s.markers := rfl

end MigrationHost

namespace Accounted

variable {digest : Digest} {migrations : List Slug} {s : MigrationHost} {name : String}
  {c : MigrationContainer} {m : Slug}

theorem record_completed (h : Accounted digest migrations s) :
    Accounted digest migrations (s.record (.completed m)) where
  justified := h.justified.cons trivial
  marker := h.marker
  container := h.container
  named := h.named
  succeeded op m' c hc hsucceeded := List.mem_cons_of_mem _ (h.succeeded op m' c hc hsucceeded)

/-- The state of a container that is there changes. -/
theorem setState (h : Accounted digest migrations s) (hc : s.containers name = some c)
    {state : ContainerState} (hstate : state.succeeded = true → .completed c.migration ∈ s.log) :
    Accounted digest migrations (s.setContainer name (some ⟨c.migration, state⟩)) where
  justified := h.justified
  marker := h.marker
  container op m' := by
    rw [MigrationHost.containers_setContainer]
    split
    · rename_i hname
      have hpresent := h.container op m'
      rw [hname, hc] at hpresent
      exact hpresent
    · exact h.container op m'
  named op m' c' hc' := by
    rw [MigrationHost.containers_setContainer] at hc'
    split at hc'
    · rename_i hname
      cases hc'
      exact h.named op m' c (hname ▸ hc)
    · exact h.named op m' c' hc'
  succeeded op m' c' hc' hsucceeded := by
    rw [MigrationHost.containers_setContainer] at hc'
    split at hc'
    · rename_i hname
      cases hc'
      rw [← h.named op m' c (hname ▸ hc)]
      exact hstate hsucceeded
    · exact h.succeeded op m' c' hc' hsucceeded

theorem enterState (h : Accounted digest migrations s) (hc : s.containers name = some c)
    (state : ContainerState) :
    Accounted digest migrations (s.enterState name c.migration state) := by
  unfold MigrationHost.enterState
  by_cases hstate : state.succeeded = true
  · rw [if_pos hstate]
    exact h.record_completed.setState hc fun _ => List.mem_cons_self
  · rw [if_neg hstate]
    exact h.setState hc fun hsucceeded => absurd hsucceeded hstate

theorem remove (h : Accounted digest migrations s) :
    Accounted digest migrations ((s.setContainer name none).record (.gone name)) where
  justified := h.justified.cons trivial
  marker := h.marker
  container op m' := by
    rw [MigrationHost.containers_record, MigrationHost.containers_setContainer,
      MigrationHost.log_record, MigrationHost.log_setContainer, present_gone, ← h.container op m']
    split
    · rename_i hname
      exact iff_of_false (by simp) fun hne => hne.1 hname.symm
    · rename_i hname
      exact (and_iff_right (Ne.symm hname)).symm
  named op m' c' hc' := by
    rw [MigrationHost.containers_record, MigrationHost.containers_setContainer] at hc'
    split at hc'
    · cases hc'
    · exact h.named op m' c' hc'
  succeeded op m' c' hc' hsucceeded := by
    rw [MigrationHost.containers_record, MigrationHost.containers_setContainer] at hc'
    split at hc'
    · cases hc'
    · exact List.mem_cons_of_mem _ (h.succeeded op m' c' hc' hsucceeded)

theorem change (h : Accounted digest migrations s) (name : String)
    (state : Option ContainerState) : Accounted digest migrations (s.change name state) := by
  unfold MigrationHost.change
  cases hc : s.containers name with
  | none => exact h
  | some c =>
      cases state with
      | none => exact h.remove
      | some state => exact h.enterState hc state

/-- A run that is justified makes a container. -/
theorem create (h : Accounted digest migrations s) {op : JournalId}
    (hrun : Justified migrations s.log (.started op m)) :
    Accounted digest migrations (s.create op m) where
  justified := h.justified.cons hrun
  marker m' := by
    rw [MigrationHost.log_create]
    exact h.marker m'
  container op' m' := by
    rw [MigrationHost.containers_create, MigrationHost.log_create, present_started,
      ← h.container op' m']
    split
    · rename_i hname
      obtain ⟨rfl, rfl⟩ := migrationContainer_inj hname
      exact iff_of_true rfl (Or.inl ⟨rfl, rfl⟩)
    · rename_i hname
      refine (or_iff_right fun heq => hname ?_).symm
      rw [heq.1, heq.2]
  named op' m' c' hc' := by
    rw [MigrationHost.containers_create] at hc'
    split at hc'
    · rename_i hname
      cases hc'
      exact (migrationContainer_inj hname).2.symm
    · exact h.named op' m' c' hc'
  succeeded op' m' c' hc' hsucceeded := by
    rw [MigrationHost.containers_create] at hc'
    split at hc'
    · cases hc'
      exact absurd hsucceeded Bool.false_ne_true
    · exact List.mem_cons_of_mem _ (h.succeeded op' m' c' hc' hsucceeded)

/-- A marker is written for a migration that has completed. -/
theorem mark (h : Accounted digest migrations s) (hdone : .completed m ∈ s.log) :
    Accounted digest migrations (s.mark m digest) where
  justified := h.justified.cons hdone
  marker m' := by
    rw [MigrationHost.mark, MigrationHost.markers_record, MigrationHost.markers_setMarker,
      MigrationHost.log_record, MigrationHost.log_setMarker, marked_marked, ← h.marker m']
    split
    · rename_i heq
      exact iff_of_true rfl (Or.inl heq.symm)
    · rename_i hne
      exact (or_iff_right (Ne.symm hne)).symm
  container := h.container
  named := h.named
  succeeded op m' c hc hsucceeded := List.mem_cons_of_mem _ (h.succeeded op m' c hc hsucceeded)

theorem lose (h : Accounted digest migrations s) :
    Accounted digest migrations ((s.setMarker m .missing).record (.lost m)) where
  justified := h.justified.cons trivial
  marker m' := by
    rw [MigrationHost.markers_record, MigrationHost.markers_setMarker,
      MigrationHost.log_record, MigrationHost.log_setMarker, marked_lost, ← h.marker m']
    split
    · rename_i heq
      exact iff_of_false (by simp) fun hne => hne.1 heq.symm
    · rename_i hne
      exact (and_iff_right (Ne.symm hne)).symm
  container := h.container
  named := h.named
  succeeded op m' c hc hsucceeded := List.mem_cons_of_mem _ (h.succeeded op m' c hc hsucceeded)

/-- A foreign file in place of a missing marker is no record. -/
theorem plant (h : Accounted digest migrations s) {file : MarkerFile}
    (hfile : file ≠ .recorded digest) (hmarker : s.markers m ≠ .recorded digest) :
    Accounted digest migrations (s.setMarker m file) where
  justified := h.justified
  marker m' := by
    rw [MigrationHost.markers_setMarker, MigrationHost.log_setMarker, ← h.marker m']
    split
    · rename_i heq
      rw [heq]
      exact iff_of_false hfile hmarker
    · exact Iff.rfl
  container := h.container
  named := h.named
  succeeded := h.succeeded

theorem files (h : Accounted digest migrations s) (host : Host) (turns : List DockerTurn) :
    Accounted digest migrations { s with host, turns } :=
  ⟨h.justified, h.marker, h.container, h.named, h.succeeded⟩

end Accounted

/-! ### The loop keeps the account -/

namespace MigrationHost

variable (s : MigrationHost)

theorem log_enterState (name : String) (m : Slug) (state : ContainerState) :
    s.log <:+ (s.enterState name m state).log := by
  rw [enterState, log_setContainer]
  split
  · exact List.suffix_cons _ s.log
  · exact List.suffix_rfl

theorem markers_enterState (name : String) (m : Slug) (state : ContainerState) :
    (s.enterState name m state).markers = s.markers := by
  rw [enterState, markers_setContainer]
  split
  · rfl
  · rfl

theorem log_change (name : String) (state : Option ContainerState) :
    s.log <:+ (s.change name state).log := by
  unfold change
  cases s.containers name with
  | none => exact List.suffix_rfl
  | some c =>
      cases state with
      | none => exact List.suffix_cons _ s.log
      | some state => exact s.log_enterState name c.migration state

theorem markers_change (name : String) (state : Option ContainerState) :
    (s.change name state).markers = s.markers := by
  unfold change
  cases s.containers name with
  | none => rfl
  | some c =>
      cases state with
      | none => rfl
      | some state => exact s.markers_enterState name c.migration state

end MigrationHost

/-- The records agree with the history, and these migrations have completed. -/
structure Underway (digest : Digest) (migrations done : List Slug) (s : MigrationHost) :
    Prop where
  accounted : Accounted digest migrations s
  completed : ∀ p ∈ done, .completed p ∈ s.log

/-- The same, and the migration has no marker. -/
structure Ready (digest : Digest) (migrations done : List Slug) (m : Slug) (s : MigrationHost) :
    Prop extends Underway digest migrations done s where
  unmarked : s.markers m ≠ .recorded digest

section Loop

variable {digest : Digest} {migrations done : List Slug} {m : Slug}

theorem Ready.change {s : MigrationHost} (h : Ready digest migrations done m s) (name : String)
    (state : Option ContainerState) : Ready digest migrations done m (s.change name state) where
  accounted := h.accounted.change name state
  completed p hp := (s.log_change name state).mem (h.completed p hp)
  unmarked := by
    rw [s.markers_change]
    exact h.unmarked

theorem Underway.files {s : MigrationHost} (h : Underway digest migrations done s)
    (host : Host) : Underway digest migrations done { s with host } :=
  ⟨h.accounted.files host s.turns, h.completed⟩

theorem Ready.files {s : MigrationHost} (h : Ready digest migrations done m s) (host : Host) :
    Ready digest migrations done m { s with host } :=
  ⟨h.toUnderway.files host, h.unmarked⟩

open MigratingBackend

/-- Whatever becomes of containers before a command. -/
theorem triple_nextTurn :
    Triple (Ready digest migrations done m) nextTurn (fun _ => Ready digest migrations done m)
      (fun _ => Accounted digest migrations) (Accounted digest migrations) := by
  intro s hs
  unfold nextTurn
  cases hturns : s.turns with
  | nil => exact hs
  | cons turn turns =>
      have hstart : Ready digest migrations done m { s with turns } :=
        ⟨⟨hs.accounted.files s.host turns, hs.completed⟩, hs.unmarked⟩
      dsimp only
      generalize ({ s with turns } : MigrationHost) = t at hstart
      induction turn.changes generalizing t with
      | nil => exact hstart
      | cons c cs ih => exact ih _ (hstart.change c.1 c.2)

/-- What the files of the host do not show. -/
theorem triple_onFiles {α : Type} {P : MigrationHost → Prop} (proc : Proc α)
    (hP : ∀ s host, P s → P { s with host })
    (hA : ∀ s, P s → Accounted digest migrations s) :
    Triple P (onFiles proc) (fun _ => P) (fun _ => Accounted digest migrations)
      (Accounted digest migrations) :=
  (Keeps.zoom fun host s hs => hP s host hs).conseq (fun _ h => h) (fun _ _ h => h)
    (fun _ s h => hA s h) hA

/-- An answer of `docker inspect` that shows a success is one. -/
theorem triple_inspect {op : JournalId} :
    Triple (Ready digest migrations done m) (inspect (migrationContainer op m))
      (fun text s => Ready digest migrations done m s ∧
        (text = some "exited:0" → .completed m ∈ s.log))
      (fun _ => Accounted digest migrations) (Accounted digest migrations) := by
  refine Triple.bind triple_nextTurn fun _ => ?_
  refine Triple.bind_get fun s hs => ?_
  -- the container is the one of the turn, and the files do not matter
  refine Triple.bind (R := fun _ t => Ready digest migrations done m t ∧
    t.containers = s.containers ∧ t.log = s.log) ?_ fun succeeds => ?_
  · refine (Keeps.zoom fun host t ht => ?_).conseq
      (fun t ht => by rw [ht]; exact ⟨hs, rfl, rfl⟩) (fun _ _ h => h) (fun _ t h => h.1.accounted)
      fun t h => h.1.accounted
    exact ⟨ht.1.files host, ht.2⟩
  · refine Triple.pure fun t ht => ⟨ht.1, fun htext => ?_⟩
    cases succeeds with
    | false => cases htext
    | true =>
        obtain ⟨c, hc, hstate⟩ := Option.map_eq_some_iff.mp htext
        rw [ht.2.2]
        exact hs.accounted.succeeded op m c hc (ContainerState.succeeded_of_text hstate)

/-- A run makes a container only where the operation has none, and comes back only from one that
has ended with exit status 0. -/
theorem triple_composeRun (b : MigratingBackend)
    (hbefore : ∀ before after, migrations = before ++ m :: after → ∀ p ∈ before, p ∈ done) :
    Triple (Ready digest migrations done m) (b.composeRun m)
      (fun _ s => Ready digest migrations done m s ∧ .completed m ∈ s.log)
      (fun _ => Accounted digest migrations) (Accounted digest migrations) := by
  refine Triple.bind triple_nextTurn fun left => ?_
  refine Triple.bind_get fun s hs => ?_
  generalize hmade : (if (s.containers (migrationContainer b.operation m)).isNone then left
    else none) = made
  -- what holds once the container is made, or not
  refine Triple.bind (R := fun _ t => Ready digest migrations done m t ∧
    (made.any ContainerState.succeeded = true → .completed m ∈ t.log)) ?_ fun _ => ?_
  · cases made with
    | none =>
        refine Triple.ret fun t ht => ?_
        rw [ht]
        exact ⟨hs, fun h => nomatch h⟩
    | some state =>
        have habsent : s.containers (migrationContainer b.operation m) = none := by
          rw [← Option.isNone_iff_eq_none]
          by_contra hsome
          rw [if_neg hsome] at hmade
          cases hmade
        have hrun : Justified migrations s.log (.started b.operation m) := by
          refine ⟨fun before after heq p hp => hs.completed p (hbefore before after heq p hp),
            fun hmarked => hs.unmarked ((hs.accounted.marker m).mpr hmarked), fun hpresent => ?_⟩
          have hsome := (hs.accounted.container b.operation m).mpr hpresent
          rw [habsent] at hsome
          cases hsome
        have hcreated := hs.accounted.create hrun
        have hthere : (s.create b.operation m).containers (migrationContainer b.operation m) =
            some ⟨m, ⟨.created, 0⟩⟩ := by rw [s.containers_create, if_pos rfl]
        refine Triple.modify fun t ht => ?_
        subst ht
        refine ⟨⟨⟨hcreated.enterState hthere state, fun p hp => ?_⟩, ?_⟩, fun hsucceeded => ?_⟩
        · refine (MigrationHost.log_enterState _ _ _ _).mem ?_
          rw [t.log_create]
          exact List.mem_cons_of_mem _ (hs.completed p hp)
        · rw [MigrationHost.markers_enterState]
          exact hs.unmarked
        · have hstate : state.succeeded = true := hsucceeded
          rw [MigrationHost.enterState, if_pos hstate]
          exact List.mem_cons_self
  · refine Triple.bind (triple_onFiles Host.moment (fun t host ht => ⟨ht.1.files host, ht.2⟩)
      fun t ht => ht.1.accounted) fun moment => ?_
    cases moment with
    | proceeds =>
        refine Triple.ite (fun hsucceeded => Triple.ret fun t ht => ⟨ht.1, ht.2 hsucceeded⟩)
          fun _ => Triple.raise fun t ht => ht.1.accounted
    | fails | breaks => exact Triple.raise fun t ht => ht.1.accounted
    | crashes | torn => exact Triple.crash fun t ht => ht.1.accounted

/-- A marker is written for a migration that has completed. -/
theorem triple_writeMarker (b : MigratingBackend) (hdigest : b.backend.revisionDigest = digest) :
    Triple (fun s => Underway digest migrations done s ∧ .completed m ∈ s.log) (b.writeMarker m)
      (fun _ s => Underway digest migrations done s ∧ .completed m ∈ s.log)
      (fun _ => Accounted digest migrations) (Accounted digest migrations) := by
  have hmark : ∀ s, Underway digest migrations done s ∧ .completed m ∈ s.log →
      Underway digest migrations done (s.mark m b.backend.revisionDigest) ∧
        .completed m ∈ (s.mark m b.backend.revisionDigest).log := by
    intro s hs
    rw [hdigest]
    exact ⟨⟨hs.1.accounted.mark hs.2, fun p hp => List.mem_cons_of_mem _ (hs.1.completed p hp)⟩,
      List.mem_cons_of_mem _ hs.2⟩
  have hmodify : Triple (fun s => Underway digest migrations done s ∧ .completed m ∈ s.log)
      (Program.modify fun s => s.mark m b.backend.revisionDigest : MigrationProc Unit)
      (fun _ s => Underway digest migrations done s ∧ .completed m ∈ s.log)
      (fun _ => Accounted digest migrations) (Accounted digest migrations) :=
    Triple.modify hmark
  refine Triple.bind_get fun s hs => ?_
  refine Triple.ite (fun _ => Triple.raise fun t ht => ht ▸ hs.1.accounted) fun _ => ?_
  refine Triple.bind ((triple_onFiles Host.moment (fun t host ht => ⟨ht.1.files host, ht.2⟩)
    fun t ht => ht.1.accounted).pre fun t ht => ht ▸ hs) fun moment => ?_
  cases moment with
  | proceeds => exact hmodify
  | fails => exact Triple.raise fun t ht => ht.1.accounted
  | crashes => exact Triple.crash fun t ht => ht.1.accounted
  | breaks =>
      exact Triple.bind hmodify fun _ => Triple.raise fun t ht => ht.1.accounted
  | torn =>
      exact Triple.bind hmodify fun _ => Triple.crash fun t ht => ht.1.accounted

theorem triple_completeMigration (b : MigratingBackend)
    (hdigest : b.backend.revisionDigest = digest)
    (hbefore : ∀ before after, migrations = before ++ m :: after → ∀ p ∈ before, p ∈ done) :
    Triple (Ready digest migrations done m) (b.completeMigration m)
      (fun _ s => Underway digest migrations done s ∧ .completed m ∈ s.log)
      (fun _ => Accounted digest migrations) (Accounted digest migrations) := by
  refine Triple.bind triple_inspect fun text => ?_
  cases text with
  | none =>
      refine Triple.bind ((triple_composeRun b hbefore).pre fun s hs => hs.1) fun _ => ?_
      exact (triple_writeMarker b hdigest).pre fun s hs => ⟨hs.1.toUnderway, hs.2⟩
  | some text =>
      refine Triple.ite (fun htext => ?_) fun _ => Triple.raise fun s hs => hs.1.accounted
      refine (triple_writeMarker b hdigest).pre fun s hs => ⟨hs.1.toUnderway, hs.2 ?_⟩
      rw [htext]

/-- Only one part of a list without repetitions stands before an element. -/
theorem before_of_nodup {before before' after after' : List Slug}
    (hnodup : (before ++ m :: after).Nodup)
    (heq : before ++ m :: after = before' ++ m :: after') : before' = before := by
  induction before generalizing before' with
  | nil =>
      cases before' with
      | nil => rfl
      | cons p ps =>
          obtain ⟨rfl, htail⟩ := List.cons.inj heq
          have hnot := (List.nodup_cons.mp hnodup).1
          rw [htail] at hnot
          exact absurd (List.mem_append_right _ List.mem_cons_self) hnot
  | cons q qs ih =>
      cases before' with
      | nil =>
          obtain ⟨rfl, -⟩ := List.cons.inj heq
          have hnot := (List.nodup_cons.mp hnodup).1
          exact absurd (List.mem_append_right _ List.mem_cons_self) hnot
      | cons p ps =>
          obtain ⟨rfl, htail⟩ := List.cons.inj heq
          rw [ih (List.nodup_cons.mp hnodup).2 htail]

/-- The loop goes through the migrations in order. -/
theorem triple_runMigrations (b : MigratingBackend)
    (hdigest : b.backend.revisionDigest = digest) (hnodup : migrations.Nodup)
    (rest : List Slug) (hrest : migrations = done ++ rest) :
    Triple (Underway digest migrations done) (b.runMigrations rest)
      (fun _ => Underway digest migrations migrations)
      (fun _ => Accounted digest migrations) (Accounted digest migrations) := by
  induction rest generalizing done with
  | nil =>
      rw [List.append_nil] at hrest
      exact Triple.ret fun s hs => hrest ▸ hs
  | cons m rest ih =>
      have hsplit : migrations = (done ++ [m]) ++ rest := by rw [hrest, List.append_assoc]; rfl
      have hnext : ∀ s, Underway digest migrations done s ∧ .completed m ∈ s.log →
          Underway digest migrations (done ++ [m]) s := by
        intro s hs
        refine ⟨hs.1.accounted, fun p hp => ?_⟩
        rcases List.mem_append.mp hp with hp | hp
        · exact hs.1.completed p hp
        · rw [List.mem_singleton.mp hp]
          exact hs.2
      have hbefore : ∀ before after, migrations = before ++ m :: after →
          ∀ p ∈ before, p ∈ done := by
        intro before after heq p hp
        have hnd : (done ++ m :: rest).Nodup := hrest ▸ hnodup
        rwa [before_of_nodup hnd (hrest.symm.trans heq)] at hp
      have hready : ∀ s, Underway digest migrations done s → s.markers m ≠ .recorded digest →
          Triple (fun t => t = s) (b.completeMigration m >>= fun _ => b.runMigrations rest)
            (fun _ => Underway digest migrations migrations)
            (fun _ => Accounted digest migrations) (Accounted digest migrations) := by
        intro s hs hmarker
        refine Triple.bind ((triple_completeMigration b hdigest hbefore).pre fun t ht => ?_)
          fun _ => (ih hsplit).pre hnext
        rw [ht]
        exact ⟨hs, hmarker⟩
      refine Triple.bind_get fun s hs => ?_
      cases hm : s.markers m with
      | recorded d =>
          refine Triple.ite (fun _ => Triple.raise fun t ht => ht ▸ hs.accounted) fun hd => ?_
          have hown : d = digest := hdigest ▸ not_not.mp hd
          refine (ih hsplit).pre fun t ht => ht ▸ hnext s ⟨hs, ?_⟩
          -- a marker of this revision stands for a migration that has completed
          refine completed_of_marked hs.accounted.justified ((hs.accounted.marker m).mp ?_)
          rw [hm, hown]
      | undecodable => exact Triple.raise fun t ht => ht ▸ hs.accounted
      | missing | irregular =>
          refine hready s hs ?_
          rw [hm]
          exact fun h => nomatch h

end Loop

/-! ### Every run -/

namespace MigratingBackend

variable [Platform] (b : MigratingBackend)

theorem triple_start :
    Triple (Accounted b.backend.revisionDigest b.migrations) b.start
      (fun _ => Underway b.backend.revisionDigest b.migrations b.migrations)
      (fun _ => Accounted b.backend.revisionDigest b.migrations)
      (Accounted b.backend.revisionDigest b.migrations) := by
  refine Triple.bind (triple_onFiles _ (fun s host hs => hs.files host s.turns) fun _ hs => hs)
    fun _ => ?_
  have hloop : Triple (Underway b.backend.revisionDigest b.migrations []) _ _ _ _ :=
    triple_runMigrations b rfl b.distinct b.migrations rfl
  refine Triple.bind (hloop.pre fun s hs => ⟨hs, fun p hp => absurd hp List.not_mem_nil⟩)
    fun _ => ?_
  refine Triple.bind (triple_onFiles _ (fun s host hs => hs.files host)
    fun _ hs => hs.accounted) fun _ => ?_
  exact Triple.pure fun _ hs => hs

/-- Another operation is a backend with the same revision and the same migrations. -/
theorem triple_attempt (a : StartAttempt) :
    Triple (Accounted b.backend.revisionDigest b.migrations) (b.attempt a)
      (fun _ => Underway b.backend.revisionDigest b.migrations b.migrations)
      (fun _ => Accounted b.backend.revisionDigest b.migrations)
      (Accounted b.backend.revisionDigest b.migrations) :=
  fun s hs => (b.resumed a).triple_start _ (hs.files { s.host with tape := a.tape } a.turns)

theorem accounted_step {s : MigrationHost}
    (h : Accounted b.backend.revisionDigest b.migrations s) (step : MigrationStep) :
    Accounted b.backend.revisionDigest b.migrations (b.step s step) := by
  cases step with
  | start a =>
      exact ((b.triple_attempt a).conseq (fun _ h => h) (fun _ _ h => h.accounted)
        (fun _ _ h => h) fun _ h => h).always h
  | change container state => exact h.change container state
  | lose m => exact h.lose
  | plant m file =>
      refine iteInduction (fun _ => h) fun hforeign => ?_
      rw [not_or] at hforeign
      exact h.plant hforeign.1 hforeign.2
  | files host => exact h.files host s.turns

theorem accounted_after {s : MigrationHost}
    (h : Accounted b.backend.revisionDigest b.migrations s) (steps : List MigrationStep) :
    Accounted b.backend.revisionDigest b.migrations (b.after s steps) := by
  induction steps generalizing s with
  | nil => exact h
  | cons step steps ih => exact ih (b.accounted_step h step)

omit [Platform] in
theorem Untouched.accounted {s : MigrationHost} (h : b.Untouched s) :
    Accounted b.backend.revisionDigest b.migrations s where
  justified := by
    intro earlier event hsuffix
    rw [h.log] at hsuffix
    cases List.suffix_nil.mp hsuffix
  marker m := by
    rw [h.log]
    exact iff_of_false (h.markers m) id
  container op m := by
    rw [h.log, h.containers op m]
    exact iff_of_false (by simp) id
  named op m c hc := by
    rw [h.containers op m] at hc
    cases hc
  succeeded op m c hc := by
    rw [h.containers op m] at hc
    cases hc

/-- Over any steps, every run and every marker of a migration is justified by what came before,
the markers that stand are the ones that were written and not lost, and a start that returns has
seen every migration complete. -/
theorem migrations_once_in_order {s : MigrationHost} (h : b.Untouched s)
    (steps : List MigrationStep) :
    JustifiedLog b.migrations (b.after s steps).log ∧
    (∀ m, (b.after s steps).markers m = .recorded b.backend.revisionDigest ↔
      Marked m (b.after s steps).log) ∧
    ∀ (a : StartAttempt) (s' : MigrationHost) (handle : RuntimeHandle),
      b.attempt a (b.after s steps) = (s', .returned handle) →
      ∀ m ∈ b.migrations, .completed m ∈ s'.log := by
  have hafter := b.accounted_after h.accounted steps
  refine ⟨hafter.justified, hafter.marker, fun a s' handle hrun => ?_⟩
  have hend := b.triple_attempt a _ hafter
  rw [hrun] at hend
  exact hend.completed

end MigratingBackend

end Ophelia

namespace Ophelia.Reference

attribute [local instance] platform

def schemaMigration : Slug := ⟨"schema", Eq.refl true⟩

def seedMigration : Slug := ⟨"seed", Eq.refl true⟩

theorem nodup_shopMigrations : [schemaMigration, seedMigration].Nodup := by decide

/-- A revision of a shop with two migrations. -/
def shopMigrations : MigratingBackend where
  backend := shopCandidate
  operation := ⟨"operation_00000000000000000000000000000001", by decide⟩
  migrations := [schemaMigration, seedMigration]
  distinct := nodup_shopMigrations

/-- A host on which nothing has happened yet. -/
def newHost : MigrationHost where
  host := (bothRun .missing []).host.setRevision shopCandidate.scope shopCandidate.revisionId none
  markers := fun _ => .missing
  containers := fun _ => none
  turns := []
  log := []

/-- A start of the revision. -/
def shopStart (tape : List Moment) (turns : List DockerTurn) : StartAttempt where
  operation := shopMigrations.operation
  ownerId := ⟨"owner", Eq.refl true⟩
  fencingToken := ⟨1, Nat.one_pos⟩
  tape
  turns

/-- The first start is cut off between the first migration and its marker. -/
def cutOff : StartAttempt :=
  shopStart (List.replicate 8 .proceeds ++ [.crashes]) [⟨[], none⟩, ⟨[], some ⟨.exited, 0⟩⟩]

/-- The second start finds the container of the first migration, and runs the other one. -/
def resumption : StartAttempt :=
  shopStart [] [⟨[], none⟩, ⟨[], none⟩, ⟨[], some ⟨.exited, 0⟩⟩]

theorem resumption_returns : ∃ s' handle,
    shopMigrations.attempt resumption (shopMigrations.after newHost [.start cutOff]) =
      (s', .returned handle) :=
  ⟨_, _, rfl⟩

/-- Each of the two is run once, in their order. -/
theorem migrations_once_in_order_shop :
    JustifiedLog shopMigrations.migrations
        (shopMigrations.after newHost [.start cutOff, .start resumption]).log ∧
      (shopMigrations.after newHost [.start cutOff, .start resumption]).log =
        [.marked seedMigration, .completed seedMigration,
          .started shopMigrations.operation seedMigration, .marked schemaMigration,
          .completed schemaMigration, .started shopMigrations.operation schemaMigration] ∧
      ∃ s' handle, shopMigrations.attempt resumption
          (shopMigrations.after newHost [.start cutOff]) = (s', .returned handle) ∧
        ∀ m ∈ shopMigrations.migrations, .completed m ∈ s'.log := by
  obtain ⟨s', handle, hrun⟩ := resumption_returns
  have huntouched : shopMigrations.Untouched newHost :=
    ⟨rfl, fun _ h => MarkerFile.noConfusion h, fun _ _ => rfl⟩
  refine ⟨(shopMigrations.migrations_once_in_order huntouched _).1, rfl, s', handle, hrun, ?_⟩
  exact (shopMigrations.migrations_once_in_order huntouched _).2.2 _ s' handle hrun

end Ophelia.Reference
