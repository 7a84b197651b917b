import Ophelia.Domain.Reference
import Ophelia.Execution.ComposeBackend

/-!
# Ophelia.Execution.ComposeStop

The calls of the Compose backend that end workloads: `stop`, `drain_previous` and `remove`,
with the containers that run in the project of each revision, and the two phases of
`execution/executor.py` that read their results.

Both results are inferred. A stop asks what still runs, and takes a question that fails for the
answer that nothing does; a removal asks whether the directory is gone. Whether the containers
were taken down is what neither of them looks at (`ended_iff`).
-/

namespace Ophelia

/-! ### Containers -/

/-- A host with the services that run in the project of each revision. -/
structure ContainerHost where
  host : Host
  running : RuntimeScope → EntityId .rev → List String

abbrev ContainerProc := Program ContainerHost ComposeFailure

/-- A procedure on the files of the host. -/
def onHost {α : Type} (m : Proc α) : ContainerProc α :=
  Program.zoom ContainerHost.host (fun h s => { s with host := h }) m

namespace ContainerHost

/-- The outcome of the `n`-th command from here on. -/
def outcome (s : ContainerHost) (n : Nat) : Moment :=
  s.host.tape.getD n .proceeds

/-- End everything that runs in the project of a revision. -/
def takeDown (s : ContainerHost) (scope : RuntimeScope) (id : EntityId .rev) : ContainerHost :=
  { s with running := fun scope' id' =>
      if scope' = scope ∧ id' = id then [] else s.running scope' id' }

/-- Nothing runs in the project of a revision. -/
def Idle (s : ContainerHost) (scope : RuntimeScope) (id : EntityId .rev) : Prop :=
  s.running scope id = []

end ContainerHost

/-- What `stop` reports. -/
structure StopResult where
  stopped : Bool
  observedStateDigest : Digest

/-- What `remove` reports. -/
structure RemoveResult where
  removed : Bool
  observedStateDigest : Digest

/-! ### The calls -/

namespace ComposeBackend

variable [Platform] (b : ComposeBackend)

/-- `Path(root).is_dir()` for the directory of a revision. -/
def hasDirectory (id : EntityId .rev) (s : ContainerHost) : Bool :=
  ((b.files s.host).revisions id).isSome

/-- `docker compose … down`, with `check=False`. Without a compose file it fails. -/
def down (id : EntityId .rev) : ContainerProc Unit := do
  let succeeds ← onHost (Host.command false)
  let s ← Program.get
  Program.when (succeeds = true ∧ b.hasDirectory id s = true)
    (Program.modify fun s => s.takeDown b.scope id)

/-- `_running_services`: `docker compose … ps --status running --services`. -/
def runningServices (id : EntityId .rev) : ContainerProc (List String) := do
  let s ← Program.get
  if b.hasDirectory id s = true then do
    let succeeds ← onHost (Host.command false)
    if succeeds then return s.running b.scope id else return []
  else return []

/-- `with self._fence():` around what follows. -/
def enterFence : ContainerProc Unit :=
  onHost (b.fenced (Program.ret ()))

/-- `sorted(running)`. -/
def sortedNames (names : List String) : List String :=
  names.mergeSort fun a c => decide (a ≤ c)

/-- `stop`. How long the containers are given to end is not visible here. -/
def stop (handle : RuntimeHandle) : ContainerProc StopResult := do
  let _ ← onHost (b.runtimeForHandle handle.revisionId handle.revisionDigest)
  b.enterFence
  b.down handle.revisionId
  let running ← b.runningServices handle.revisionId
  return {
    stopped := running.isEmpty
    observedStateDigest := digestText (canonicalJson (.obj [
      ("revision_digest", .str handle.revisionDigest.val),
      ("running", .arr ((sortedNames running).map .str))])) }

/-- `drain_previous`. -/
def drainPrevious (previous candidate : RuntimeHandle) : ContainerProc StopResult := do
  match ← onHost b.readActive with
  | none => Program.raise (.composeBackendError "Active revision evidence is missing.")
  | some (_, digest) =>
      if digest ≠ candidate.revisionDigest then
        Program.raise (.composeBackendError "Candidate must be active before predecessor drain.")
      else b.stop previous

/-- `_runtime_for_handle` with `allow_candidate=True`: the candidate needs no documents. -/
def runtimeOrCandidate (handle : RuntimeHandle) : ContainerProc Unit := do
  if handle.revisionId = b.revisionId then onHost Host.preparation
  else do
    let _ ← onHost (b.runtimeForHandle handle.revisionId handle.revisionDigest)
    onHost Host.preparation

/-- `shutil.rmtree` on the directory of a revision. What a removal that breaks off leaves
behind no longer reads. -/
def removeDirectory (id : EntityId .rev) : ContainerProc Unit := do
  let s ← Program.get
  Program.when (b.hasDirectory id s = true) <| onHost do
    match ← Host.moment with
    | .proceeds => Program.modify fun h => h.setRevision b.scope id none
    | .fails => Program.raise .osError
    | .breaks => do
        Program.modify fun h => h.setRevision b.scope id (some ⟨none, none⟩)
        Program.raise .osError
    | .crashes => Program.crash
    | .torn _ => do
        Program.modify fun h => h.setRevision b.scope id (some ⟨none, none⟩)
        Program.crash

/-- `remove`. Secrets, route credentials and static files are a preparation. -/
def removeRuntime (handle : RuntimeHandle) : ContainerProc RemoveResult := do
  let active ← onHost b.readActive
  if active.map Prod.snd = some handle.revisionDigest then
    Program.raise (.composeBackendError "An active revision cannot be removed.")
  else do
    b.runtimeOrCandidate handle
    b.enterFence
    b.down handle.revisionId
    b.removeDirectory handle.revisionId
    onHost Host.preparation
    let s ← Program.get
    let removed := !b.hasDirectory handle.revisionId s
    return {
      removed
      observedStateDigest := digestText (canonicalJson (.obj [
        ("revision_digest", .str handle.revisionDigest.val), ("removed", .bool removed)])) }

/-! ### The executor -/

/-- What ends a phase of the executor. -/
inductive PhaseFailure where
  | backend (failure : ComposeFailure)
  /-- `BackendContractError`. -/
  | contract (message : String)
deriving DecidableEq

/-- The drain of `_phase_drain_previous`. -/
def phaseDrainPrevious (previous candidate : RuntimeHandle) :
    Program ContainerHost PhaseFailure Digest := do
  let result ← Program.handle (b.drainPrevious previous candidate) fun e =>
    Program.raise (.backend e)
  if result.stopped then return result.observedStateDigest
  else Program.raise (.contract "Runtime backend did not verify predecessor drain.")

/-- The cleanup of `_finish_interrupted`. -/
def cleanupCandidate (candidate : RuntimeHandle) : Program ContainerHost PhaseFailure Digest := do
  let removal ← Program.handle (b.removeRuntime candidate) fun e => Program.raise (.backend e)
  if removal.removed then return removal.observedStateDigest
  else Program.raise (.contract "Candidate cleanup did not verify removal.")

end ComposeBackend

/-! ### Runs that return -/

open Program

namespace Host

theorem moment_eq (h : Host) :
    moment h = ({ h with tape := h.tape.tail }, .returned (h.tape.getD 0 .proceeds)) := by
  obtain ⟨sitesRoot, sites, env, sharedCompose, scopes, fences, tape⟩ := h
  cases tape with
  | nil => rfl
  | cons m ms => rfl

/-- A command that returns has taken one moment, and succeeded when that one proceeds. -/
theorem command_returned {h h' : Host} {ok : Bool} (hrun : command false h = (h', .returned ok)) :
    h' = { h with tape := h.tape.tail } ∧
      (ok = true ↔ h.tape.getD 0 .proceeds = .proceeds) := by
  rw [command, bind_of_returned (moment_eq h)] at hrun
  cases hm : h.tape.getD 0 Moment.proceeds with
  | proceeds | fails =>
      rw [hm] at hrun
      cases hrun
      simp
  | breaks | crashes | torn =>
      rw [hm] at hrun
      cases hrun

theorem preparation_returned {h h' : Host} (hrun : preparation h = (h', .returned ())) :
    h' = { h with tape := h.tape.tail } := by
  rw [preparation, bind_of_returned (moment_eq h)] at hrun
  cases hm : h.tape.getD 0 Moment.proceeds with
  | proceeds =>
      rw [hm] at hrun
      cases hrun
      rfl
  | fails | breaks | crashes | torn =>
      rw [hm] at hrun
      cases hrun

end Host

/-- A procedure on the files leaves the containers as they are. -/
theorem yields_onHost {α : Type} {m : Proc α} {P : ContainerHost → Prop}
    {Q : α → ContainerHost → Prop}
    (h : ∀ s, P s → ∀ h' a, m s.host = (h', .returned a) → Q a { s with host := h' }) :
    Yields P (onHost m) Q :=
  Yields.zoom h

namespace ContainerHost

theorem outcome_tail (s : ContainerHost) (n : Nat) :
    ({ s with host := { s.host with tape := s.host.tape.tail } } : ContainerHost).outcome n =
      s.outcome (n + 1) := by
  unfold outcome
  cases s.host.tape with
  | nil => simp
  | cons m ms => simp

theorem idle_takeDown (s : ContainerHost) (scope : RuntimeScope) (id : EntityId .rev) :
    (s.takeDown scope id).Idle scope id := by
  simp [Idle, takeDown]

end ContainerHost

namespace ComposeBackend

section Passed

variable (b : ComposeBackend)

/-- `k` moments after `s`, with the directory of the revision as it was, the revision is idle
exactly when `idle` holds. -/
structure Passed (s : ContainerHost) (id : EntityId .rev) (k : Nat) (idle : Prop)
    (t : ContainerHost) : Prop where
  outcomes : ∀ n, t.outcome n = s.outcome (k + n)
  directory : b.hasDirectory id t = b.hasDirectory id s
  idle : t.Idle b.scope id ↔ idle

variable {b} {s t : ContainerHost} {id : EntityId .rev} {k : Nat} {idle : Prop}

theorem Passed.start : b.Passed s id 0 (s.Idle b.scope id) s :=
  ⟨fun n => by rw [Nat.zero_add], rfl, Iff.rfl⟩

theorem Passed.of_eq (h : t = s) : b.Passed s id 0 (s.Idle b.scope id) t :=
  h ▸ Passed.start

/-- One moment later. -/
theorem Passed.next (h : b.Passed s id k idle t) {h' : Host} (htape : h'.tape = t.host.tape.tail)
    (hscopes : h'.scopes = t.host.scopes) :
    b.Passed s id (k + 1) idle { t with host := h' } where
  outcomes n := by
    have htail := t.outcome_tail n
    have hn := h.outcomes (n + 1)
    rw [Nat.add_right_comm, Nat.add_assoc, ← hn, ← htail]
    simp only [ContainerHost.outcome, htape]
  directory := by
    have hd := h.directory
    simpa only [hasDirectory, files, hscopes] using hd
  idle := h.idle

theorem Passed.outcome_zero (h : b.Passed s id k idle t) :
    t.host.tape.getD 0 .proceeds = s.outcome k :=
  h.outcomes 0

theorem yields_command :
    Yields (b.Passed s id k idle) (onHost (Host.command false))
      (fun ok t => (ok = true ↔ s.outcome k = .proceeds) ∧ b.Passed s id (k + 1) idle t) := by
  refine yields_onHost fun t ht h' ok hrun => ?_
  obtain ⟨rfl, hok⟩ := Host.command_returned hrun
  rw [ht.outcome_zero] at hok
  exact ⟨hok, ht.next rfl rfl⟩

theorem yields_preparation :
    Yields (b.Passed s id k idle) (onHost Host.preparation)
      (fun _ => b.Passed s id (k + 1) idle) := by
  refine yields_onHost fun t ht h' _ hrun => ?_
  rw [Host.preparation_returned hrun]
  exact ht.next rfl rfl

theorem yields_enterFence :
    Yields (b.Passed s id k idle) b.enterFence (fun _ => b.Passed s id (k + 1) idle) := by
  refine yields_onHost fun t ht h' _ hrun => ?_
  simp only [fenced, get_bind_apply] at hrun
  cases hauth : RuntimeFences.authorize (t.host.fences.get? b.scope) b.fence with
  | error e =>
      rw [hauth] at hrun
      cases hrun
  | ok _ =>
      rw [hauth] at hrun
      simp only [bind_of_returned (Host.moment_eq t.host)] at hrun
      cases hm : t.host.tape.getD 0 Moment.proceeds with
      | proceeds =>
          rw [hm] at hrun
          cases hrun
          exact ht.next rfl rfl
      | fails | breaks | crashes | torn =>
          rw [hm] at hrun
          cases hrun

/-- `down` ends the workloads when it goes through on a directory that is there. -/
theorem yields_down :
    Yields (b.Passed s id k idle) (b.down id)
      (fun _ => b.Passed s id (k + 1)
        (idle ∨ (s.outcome k = .proceeds ∧ b.hasDirectory id s = true))) := by
  refine Yields.bind yields_command fun ok => ?_
  refine Yields.bind_get fun t ht => ?_
  obtain ⟨hok, ht⟩ := ht
  have hdone : ok = true ∧ b.hasDirectory id t = true ↔
      s.outcome k = .proceeds ∧ b.hasDirectory id s = true := by rw [hok, ht.directory]
  by_cases hc : ok = true ∧ b.hasDirectory id t = true
  · rw [when_of hc]
    refine Yields.modify fun t' ht' => ?_
    subst ht'
    exact ⟨ht.outcomes, ht.directory,
      iff_of_true (t'.idle_takeDown b.scope id) (Or.inr (hdone.mp hc))⟩
  · rw [when_of_not hc]
    refine Yields.ret fun t' ht' => ?_
    subst ht'
    refine ⟨ht.outcomes, ht.directory, ht.idle.trans ?_⟩
    rw [← hdone]
    exact (or_iff_left hc).symm

/-- The services that run, unless the question fails. -/
theorem yields_runningServices (hdir : b.hasDirectory id s = true) :
    Yields (b.Passed s id k idle) (b.runningServices id)
      (fun names t => (t.Idle b.scope id ↔ idle) ∧
        (names = [] ↔ idle ∨ s.outcome k ≠ .proceeds)) := by
  refine Yields.bind_get fun t ht => ?_
  rw [if_pos (ht.directory.trans hdir)]
  refine Yields.bind (yields_command.pre fun u hu => hu ▸ ht) fun ok => ?_
  cases ok with
  | true =>
      refine Yields.pure fun u hu => ?_
      obtain ⟨hok, hu⟩ := hu
      refine ⟨hu.idle, ?_⟩
      rw [or_iff_left (not_not_intro (hok.mp rfl)), ← ht.idle]
      rfl
  | false =>
      refine Yields.pure fun u hu => ?_
      obtain ⟨hok, hu⟩ := hu
      exact ⟨hu.idle, iff_of_true rfl (Or.inr fun hp => Bool.noConfusion (hok.mpr hp))⟩

theorem yields_runtimeForHandle {digest : Digest} :
    Yields (fun t => t = s) (onHost (b.runtimeForHandle id digest))
      (fun _ t => b.hasDirectory id s = true ∧ t = s) := by
  refine yields_onHost fun t ht h' runtime hrun => ?_
  subst ht
  simp only [runtimeForHandle, get_bind_apply] at hrun
  cases hrev : (b.files t.host).revisions id with
  | none =>
      rw [hrev] at hrun
      cases hrun
  | some revision =>
      rw [hrev, Option.bind_some] at hrun
      cases hread : revision.runtime with
      | none =>
          rw [hread] at hrun
          cases hrun
      | some retained =>
          rw [hread] at hrun
          dsimp only at hrun
          split at hrun
          · cases hrun
            exact ⟨by rw [hasDirectory, hrev]; rfl, rfl⟩
          · cases hrun

theorem yields_readActive :
    Yields (fun t => t = s) (onHost b.readActive) (fun _ t => t = s) := by
  refine yields_onHost fun t ht h' active hrun => ?_
  subst ht
  simp only [readActive, get_bind_apply] at hrun
  cases hactive : (b.files t.host).active with
  | missing | linked | evidence =>
      rw [hactive] at hrun
      cases hrun
      rfl
  | malformed =>
      rw [hactive] at hrun
      cases hrun

end Passed

/-! ### What the results say -/

section Results

variable [Platform] (b : ComposeBackend)

/-- A stop is seen to the end: nothing runs, or `down` goes through, or the question what still
runs goes through. The moments of a stop are the fence, `down` and `ps`. -/
def StopSeen (s : ContainerHost) (id : EntityId .rev) : Prop :=
  s.Idle b.scope id ∨ s.outcome 1 = .proceeds ∨ s.outcome 2 = .proceeds

/-- A removal ends the workloads: nothing runs, or `down` goes through while the compose file is
still there. The moments of a removal start with the documents, the fence and `down`. -/
def RemovalSeen (s : ContainerHost) (id : EntityId .rev) : Prop :=
  s.Idle b.scope id ∨ (s.outcome 2 = .proceeds ∧ b.hasDirectory id s = true)

variable {b} {s : ContainerHost}

/-- A failing `ps` is read as an empty one. -/
theorem yields_stop (handle : RuntimeHandle) :
    Yields (fun t => t = s) (b.stop handle)
      (fun r t =>
        (t.Idle b.scope handle.revisionId ↔
          s.Idle b.scope handle.revisionId ∨ s.outcome 1 = .proceeds) ∧
        (r.stopped = true ↔
          (s.Idle b.scope handle.revisionId ∨ s.outcome 1 = .proceeds) ∨
            s.outcome 2 ≠ .proceeds)) := by
  refine Yields.bind yields_runtimeForHandle fun _ => ?_
  -- the revision is there, so `down` fails only when its command does
  refine Yields.assuming fun hdir => ?_
  have hfence : Yields (fun t => t = s) b.enterFence fun _ =>
      b.Passed s handle.revisionId 1 (s.Idle b.scope handle.revisionId) :=
    yields_enterFence.pre fun _ => Passed.of_eq
  refine Yields.bind hfence fun _ => ?_
  refine Yields.bind yields_down fun _ => ?_
  refine Yields.bind (yields_runningServices hdir) fun names => Yields.pure fun u hu => ?_
  obtain ⟨hidle, hnames⟩ := hu
  simp only [hdir, and_true] at hidle hnames
  exact ⟨hidle, List.isEmpty_iff.trans hnames⟩

theorem yields_drainPrevious (previous candidate : RuntimeHandle) :
    Yields (fun t => t = s) (b.drainPrevious previous candidate)
      (fun r t =>
        (t.Idle b.scope previous.revisionId ↔
          s.Idle b.scope previous.revisionId ∨ s.outcome 1 = .proceeds) ∧
        (r.stopped = true ↔
          (s.Idle b.scope previous.revisionId ∨ s.outcome 1 = .proceeds) ∨
            s.outcome 2 ≠ .proceeds)) := by
  refine Yields.bind yields_readActive fun active => ?_
  cases active with
  | none => exact Yields.raise
  | some evidence => exact Yields.ite (fun _ => Yields.raise) fun _ => yields_stop previous

omit [Platform] in
theorem yields_runtimeOrCandidate (handle : RuntimeHandle) :
    Yields (fun t => t = s) (b.runtimeOrCandidate handle)
      (fun _ => b.Passed s handle.revisionId 1 (s.Idle b.scope handle.revisionId)) := by
  refine Yields.ite (fun _ => yields_preparation.pre fun _ => Passed.of_eq) fun _ => ?_
  refine Yields.bind yields_runtimeForHandle fun _ => ?_
  exact yields_preparation.pre fun _ ht => Passed.of_eq ht.2

omit [Platform] in
/-- The directory is gone after a removal that returns. -/
theorem yields_removeDirectory {id : EntityId .rev} {idle : Prop} :
    Yields (fun t => t.Idle b.scope id ↔ idle) (b.removeDirectory id)
      (fun _ t => b.hasDirectory id t = false ∧ (t.Idle b.scope id ↔ idle)) := by
  refine Yields.bind_get fun t ht => Yields.ite (fun _ => ?_) fun habsent => Yields.ret ?_
  · refine yields_onHost fun u hu h' _ hrun => ?_
    subst hu
    rw [bind_of_returned (Host.moment_eq u.host)] at hrun
    cases hm : u.host.tape.getD 0 Moment.proceeds with
    | proceeds =>
        rw [hm] at hrun
        cases hrun
        exact ⟨by simp [hasDirectory, files, Host.setRevision, Host.setScope], ht⟩
    | fails | breaks | crashes | torn =>
        rw [hm] at hrun
        cases hrun
  · intro u hu
    subst hu
    exact ⟨Bool.eq_false_of_not_eq_true habsent, ht⟩

/-- A removal that returns has taken the directory with it, whatever runs. -/
theorem yields_removeRuntime (handle : RuntimeHandle) :
    Yields (fun t => t = s) (b.removeRuntime handle)
      (fun r t => r.removed = true ∧
        (t.Idle b.scope handle.revisionId ↔ b.RemovalSeen s handle.revisionId)) := by
  refine Yields.bind yields_readActive fun active => Yields.ite (fun _ => Yields.raise) fun _ => ?_
  refine Yields.bind (yields_runtimeOrCandidate handle) fun _ => ?_
  refine Yields.bind yields_enterFence fun _ => Yields.bind yields_down fun _ => ?_
  refine Yields.bind (yields_removeDirectory.pre fun _ ht => ht.idle) fun _ => ?_
  refine Yields.bind (R := fun _ t => b.hasDirectory handle.revisionId t = false ∧
    (t.Idle b.scope handle.revisionId ↔ b.RemovalSeen s handle.revisionId)) ?_ fun _ => ?_
  · refine yields_onHost fun t ht h' _ hrun => ?_
    rw [Host.preparation_returned hrun]
    exact ht
  · refine Yields.bind_get fun t ht => Yields.pure fun u hu => ?_
    subst hu
    exact ⟨by rw [ht.1]; rfl, ht.2⟩

omit [Platform] in
/-- A failing `ps` makes a stop wrong exactly when the workloads were not seen to end. -/
theorem stopSeen_of_stopped {id : EntityId .rev} {t : ContainerHost} {stopped : Bool}
    (hidle : t.Idle b.scope id ↔ s.Idle b.scope id ∨ s.outcome 1 = .proceeds)
    (hstopped : stopped = true ↔
      (s.Idle b.scope id ∨ s.outcome 1 = .proceeds) ∨ s.outcome 2 ≠ .proceeds) :
    (stopped = true → t.Idle b.scope id) ↔ b.StopSeen s id := by
  rw [hidle, hstopped, StopSeen, ← or_assoc]
  constructor
  · intro h
    by_cases hps : s.outcome 2 = .proceeds
    · exact Or.inr hps
    · exact Or.inl (h (Or.inr hps))
  · intro h hrun
    rcases hrun with hdown | hps
    · exact hdown
    · exact h.resolve_right hps

/-- The drain phase completes only on a stop. -/
theorem yields_phaseDrainPrevious (previous candidate : RuntimeHandle) :
    Yields (fun t => t = s) (b.phaseDrainPrevious previous candidate)
      (fun _ t => t.Idle b.scope previous.revisionId ↔ b.StopSeen s previous.revisionId) := by
  refine Yields.bind (Yields.handle_raise (yields_drainPrevious previous candidate)) fun r => ?_
  refine Yields.ite (fun hr => Yields.pure fun t ht => ?_) fun _ => Yields.raise
  rw [← stopSeen_of_stopped ht.1 ht.2]
  exact ⟨fun h _ => h, fun h => h hr⟩

/-- A cleanup returns only after a removal. -/
theorem yields_cleanupCandidate (candidate : RuntimeHandle) :
    Yields (fun t => t = s) (b.cleanupCandidate candidate)
      (fun _ t => t.Idle b.scope candidate.revisionId ↔
        b.RemovalSeen s candidate.revisionId) := by
  refine Yields.bind (Yields.handle_raise (yields_removeRuntime candidate)) fun r => ?_
  exact Yields.ite (fun _ => Yields.pure fun t ht => ht.2) fun _ => Yields.raise

/-- A stop, a drain, a removal and the phases of the executor behind them are right that nothing
runs any more exactly when the workloads were seen to end. -/
theorem ended_iff (s s' : ContainerHost) (previous candidate : RuntimeHandle) :
    (∀ r, b.stop previous s = (s', .returned r) →
      ((r.stopped = true → s'.Idle b.scope previous.revisionId) ↔
        b.StopSeen s previous.revisionId)) ∧
    (∀ r, b.drainPrevious previous candidate s = (s', .returned r) →
      ((r.stopped = true → s'.Idle b.scope previous.revisionId) ↔
        b.StopSeen s previous.revisionId)) ∧
    (∀ evidence, b.phaseDrainPrevious previous candidate s = (s', .returned evidence) →
      (s'.Idle b.scope previous.revisionId ↔ b.StopSeen s previous.revisionId)) ∧
    (∀ r, b.removeRuntime candidate s = (s', .returned r) →
      ((r.removed = true → s'.Idle b.scope candidate.revisionId) ↔
        b.RemovalSeen s candidate.revisionId)) ∧
    (∀ evidence, b.cleanupCandidate candidate s = (s', .returned evidence) →
      (s'.Idle b.scope candidate.revisionId ↔ b.RemovalSeen s candidate.revisionId)) := by
  refine ⟨fun r hrun => ?_, fun r hrun => ?_, fun evidence hrun => ?_, fun r hrun => ?_,
    fun evidence hrun => ?_⟩
  · obtain ⟨hidle, hstopped⟩ := yields_stop previous s rfl s' r hrun
    exact stopSeen_of_stopped hidle hstopped
  · obtain ⟨hidle, hstopped⟩ := yields_drainPrevious previous candidate s rfl s' r hrun
    exact stopSeen_of_stopped hidle hstopped
  · exact yields_phaseDrainPrevious previous candidate s rfl s' evidence hrun
  · obtain ⟨hremoved, hidle⟩ := yields_removeRuntime candidate s rfl s' r hrun
    rw [← hidle]
    exact ⟨fun h => h hremoved, fun h _ => h⟩
  · exact yields_cleanupCandidate candidate s rfl s' evidence hrun

end Results

/-- Whenever a stop, a drain or a removal of a backend reports that it is done, and whenever the
phase of the executor behind it completes, nothing of the revision runs. -/
def EvidenceTruthful [Platform] (b : ComposeBackend) : Prop :=
  ∀ (s s' : ContainerHost) (previous candidate : RuntimeHandle),
    (∀ r, b.stop previous s = (s', .returned r) → r.stopped = true →
      s'.Idle b.scope previous.revisionId) ∧
    (∀ r, b.drainPrevious previous candidate s = (s', .returned r) → r.stopped = true →
      s'.Idle b.scope previous.revisionId) ∧
    (∀ evidence, b.phaseDrainPrevious previous candidate s = (s', .returned evidence) →
      s'.Idle b.scope previous.revisionId) ∧
    (∀ r, b.removeRuntime candidate s = (s', .returned r) → r.removed = true →
      s'.Idle b.scope candidate.revisionId) ∧
    (∀ evidence, b.cleanupCandidate candidate s = (s', .returned evidence) →
      s'.Idle b.scope candidate.revisionId)

end ComposeBackend

end Ophelia

namespace Ophelia.Reference

open Program

attribute [local instance] platform

/-- The second revision of a shop, ready to take over from the first. -/
def shopCandidate : ComposeBackend where
  fence := ⟨⟨⟨"host", Eq.refl true⟩, ⟨"shop", by decide⟩, ⟨"production", Eq.refl true⟩⟩,
    ⟨"operation", Eq.refl true⟩, ⟨"owner", Eq.refl true⟩, ⟨1, Nat.one_pos⟩⟩
  revisionId := ⟨"rev_2", by decide⟩
  revisionDigest := digestText "second"
  routes := []
  workloads := []
  migrations := []
  recreate := false
  bundleRoutes := []
  requireEdgeRuntime := false
  secretResolver := none

def firstHandle : RuntimeHandle :=
  ⟨ComposeBackend.backendName, ⟨"rev_1", by decide⟩, digestText "first"⟩

/-- Both revisions are there and run, with the second one active or not, and the outcomes of the
commands to come. -/
def bothRun (active : ActiveFile) (tape : List Moment) : ContainerHost where
  host := {
    sitesRoot := .directory
    sites := .empty
    env := none
    sharedCompose := false
    scopes := fun _ =>
      { active
        revisions := fun id =>
          some ⟨none, some ⟨if id = firstHandle.revisionId then digestText "first"
            else digestText "second", [], []⟩⟩
        displaced := fun _ => ⟨.missing, .missing, none, none, false⟩ }
    fences := .empty
    tape }
  running := fun _ _ => ["web"]

/-- The second revision is active, and a drain finds these outcomes. -/
def drained (tape : List Moment) : ContainerHost :=
  bothRun (.evidence shopCandidate.revisionId shopCandidate.revisionDigest) tape

theorem drained_returned (tape : List Moment)
    (htape : tape = [] ∨ tape = [.proceeds, .fails, .fails]) :
    ∃ s' evidence, shopCandidate.phaseDrainPrevious firstHandle shopCandidate.candidateHandle
      (drained tape) = (s', .returned evidence) := by
  rcases htape with rfl | rfl
  · exact ⟨_, _, rfl⟩
  · exact ⟨_, _, rfl⟩

/-- The drain and the cleanup when every command goes through. -/
theorem ended_iff_shop :
    ∃ s' evidence, shopCandidate.phaseDrainPrevious firstHandle shopCandidate.candidateHandle
        (drained []) = (s', .returned evidence) ∧
      s'.Idle shopCandidate.scope firstHandle.revisionId := by
  obtain ⟨s', evidence, hrun⟩ := drained_returned [] (Or.inl rfl)
  refine ⟨s', evidence, hrun, ?_⟩
  refine ((ComposeBackend.ended_iff _ _ firstHandle _).2.2.1 evidence hrun).mpr ?_
  exact Or.inr (Or.inl rfl)

/-- `down` and `ps` fail: the drain completes while the predecessor goes on running. -/
theorem evidence_not_truthful : ¬ shopCandidate.EvidenceTruthful := by
  intro h
  have hrun : (shopCandidate.phaseDrainPrevious firstHandle shopCandidate.candidateHandle
      (drained [.proceeds, .fails, .fails])).1.running = (drained []).running := rfl
  obtain ⟨s', evidence, hs'⟩ := drained_returned _ (Or.inr rfl)
  have hidle := (h _ s' firstHandle shopCandidate.candidateHandle).2.2.1 evidence hs'
  rw [hs'] at hrun
  rw [ContainerHost.Idle, hrun] at hidle
  exact absurd hidle (List.cons_ne_nil _ _)

end Ophelia.Reference
