import Ophelia.Execution.ComposeBackend

/-!
# Ophelia.Execution.ProcessBackend

The backend that runs the processes of a product (`execution/process_backend.py`). A revision
is a directory with the bundle it was made from; starting it spawns its replicas one by one,
each on a port of its own, and then writes the record that names them. Traffic goes to the
upstreams of `active.json` through a proxy on the declared port.

A call runs against a tape of moments. Every effect and every check of the environment takes
the next moment, at which processes may exit first; then it goes through, fails, or the
backend dies. Spawned processes are sessions of their own and outlive the backend.
-/

namespace Ophelia

/-! ### Bundles -/

/-- A revision as the backend is given it. -/
structure ProductRevision where
  revisionId : EntityId .rev
  revisionDigest : Digest

/-- A product operations bundle, as far as the backend reads it: its only process, its only
port and its first health probe. -/
structure ProductBundle where
  productId : String
  bundleDigest : Digest
  artifactDigest : Digest
  artifactPath : String
  argv : List String
  replicas : Nat
  /-- The bundle validator asks for at least one replica. -/
  replicas_pos : 1 ≤ replicas
  port : Nat
  protocol : String
  exposure : String
  healthPath : String
  /-- `_revision(bundle, created_at)`. -/
  revision : String → ProductRevision

/-- `_traffic_contract_compatible`. -/
def trafficContractCompatible (target predecessor : ProductBundle) : Bool :=
  target.port = predecessor.port ∧ target.protocol = predecessor.protocol ∧
    target.exposure = predecessor.exposure ∧ target.healthPath = predecessor.healthPath

/-! ### Records -/

structure Replica where
  index : Nat
  pid : Nat
  internalPort : Nat
  argvDigest : Digest
  startedAtEpoch : Int
deriving DecidableEq

/-- The two schemas of a process record: one process, or a list of replicas. -/
inductive ReplicaSet where
  | single (replica : Replica)
  | replicated (replicas : List Replica)
deriving DecidableEq

/-- `ophelia-process.json`. -/
structure ProcessRecord where
  revisionId : EntityId .rev
  revisionDigest : Digest
  artifactDigest : Digest
  declaredPort : Nat
  executable : String
  replicas : ReplicaSet
deriving DecidableEq

/-- `_replica_records`. -/
def ProcessRecord.replicaRecords (record : ProcessRecord) : List Replica :=
  match record.replicas with
  | .single replica => [replica]
  | .replicated replicas => replicas

/-- A record file: missing, a file that is no record, or a record. -/
inductive RecordFile where
  | missing
  | malformed
  | file (record : ProcessRecord)
deriving DecidableEq

/-- `traffic/active.json`: the selected revision and the ports of its upstreams. -/
structure ActiveState where
  revisionId : EntityId .rev
  revisionDigest : Digest
  artifactDigest : Digest
  upstreams : List Nat
deriving DecidableEq

inductive ActiveStateFile where
  | missing
  | malformed
  | file (state : ActiveState)
deriving DecidableEq

/-- `ophelia-revision.json`. -/
structure RevisionMetadata where
  revisionDigest : Digest
  createdAt : Option String
deriving DecidableEq

/-- `revisions/<revision>`: the metadata and the bundle as far as they read, and the record. -/
structure RevisionDirectory where
  metadata : Option RevisionMetadata
  bundle : Option ProductBundle
  record : RecordFile

/-! ### The host -/

/-- A live process: its command line as `ps` prints it, and the revision whose start spawned
it, if any did. -/
structure ProductProcess where
  pid : Nat
  command : String
  revision : Option (EntityId .rev)
deriving DecidableEq

/-- What happens next. An event of another kind than what is going on lets it go through. -/
inductive ProcessEvent where
  /-- It goes through; where there is something to choose, this chooses it. -/
  | proceeds (choice : Nat)
  /-- A check, a probe or a command fails. -/
  | fails
  /-- A file cannot be written. -/
  | writeFails
  /-- A process cannot be signalled. -/
  | signalFails
  /-- A process exits between the check and the signal. -/
  | vanishes
  /-- A signalled process outlives the signals. -/
  | survives
  /-- The backend dies first. -/
  | dies
deriving DecidableEq

/-- The processes that exit, and what happens next. -/
structure ProcessMoment where
  exits : List Nat
  event : ProcessEvent

/-- One product scope. `answers` says which loopback ports answer the health probe, `proxy`
whether the proxy serves the declared port, `available` which ports can be bound. `started` is
the local list `replicas` of a start. -/
structure ProductHost where
  revisions : EntityId .rev → Option RevisionDirectory
  active : ActiveStateFile
  processes : List ProductProcess
  answers : Nat → Bool
  proxy : Bool
  available : Nat → Bool
  started : List Replica
  tape : List ProcessMoment

inductive ProductFailure where
  | productProcessBackendError (message : String)
  | productBundleError
  | osError
  | runtimeFence
deriving DecidableEq

abbrev ProductProgram := Program ProductHost ProductFailure

namespace ProductHost

/-- `pid` and command of a replica are those of a live process (`_replica_alive`). -/
def replicaAlive (h : ProductHost) (replica : Replica) (executable : String) : Bool :=
  h.processes.any fun p =>
    p.pid = replica.pid && PyText.contains executable.toList p.command.toList

def exit (pids : List Nat) (h : ProductHost) : ProductHost :=
  { h with processes := h.processes.filter fun p => p.pid ∉ pids }

/-- A process identifier that is not in use. -/
def freshPid (h : ProductHost) (choice : Nat) : Nat :=
  if h.processes.any fun p => p.pid = choice then
    (h.processes.map ProductProcess.pid).foldr max 0 + 1
  else choice

def setRevision (id : EntityId .rev) (directory : Option RevisionDirectory) (h : ProductHost) :
    ProductHost :=
  { h with revisions := fun r => if r = id then directory else h.revisions r }

def setRecord (id : EntityId .rev) (record : RecordFile) (h : ProductHost) : ProductHost :=
  h.setRevision id ((h.revisions id).map fun directory => { directory with record })

end ProductHost

open Program

/-! ### Moments -/

def backendError {α : Type} (message : String) : ProductProgram α :=
  .raise (.productProcessBackendError message)

/-- The next moment of the tape; the processes that exit are gone. -/
def nextEvent : ProductProgram ProcessEvent := fun h =>
  match h.tape with
  | [] => (h, .returned (.proceeds 0))
  | m :: tape => ({ h.exit m.exits with tape }, .returned m.event)

/-- A check of the environment, a command or a preparation; `e` is what it raises. -/
def gate (e : ProductFailure) : ProductProgram Nat := do
  match ← nextEvent with
  | .proceeds choice => .ret choice
  | .fails => .raise e
  | .dies => .crash
  | _ => .ret 0

/-- The writing of a file, apart from its effect. -/
def write : ProductProgram Unit := do
  match ← nextEvent with
  | .writeFails => .raise .osError
  | .dies => .crash
  | _ => .ret ()

/-- An effect on the files of the host. -/
def act (f : ProductHost → ProductHost) : ProductProgram Unit := do
  write
  modify f

/-! ### The backend -/

/-- `ProductProcessBackend(…)`: its bundle and the reading of its clock. -/
structure ProcessBackend where
  bundle : ProductBundle
  startedAt : Int

namespace ProcessBackend

def backendName : String := "product-process-v1"

variable (b : ProcessBackend)

def replicaCount : Nat := b.bundle.replicas

def declaredPort : Nat := b.bundle.port

/-- `_read_process_record`. -/
def readProcessRecord (id : EntityId .rev) (required : Bool) :
    ProductProgram (Option ProcessRecord) := do
  let h ← get
  match (h.revisions id).map RevisionDirectory.record with
  | none | some .missing =>
      if required then backendError "Product process evidence is unavailable." else .ret none
  | some .malformed => backendError "Product process evidence is malformed."
  | some (.file record) =>
      match record.replicas with
      | .single _ => .ret (some record)
      | .replicated replicas =>
          if replicas.length = b.replicaCount ∧
              replicas.map Replica.index = List.range replicas.length then
            .ret (some record)
          else backendError "Product process evidence is malformed."

/-- `_record_process_alive`. -/
def recordProcessAlive (record : ProcessRecord) (h : ProductHost) : Bool :=
  record.replicaRecords.length = b.replicaCount &&
    record.replicaRecords.all fun replica => h.replicaAlive replica record.executable

/-- `_record_healthy`. -/
def recordHealthy (record : ProcessRecord) (h : ProductHost) : Bool :=
  b.recordProcessAlive record h &&
    record.replicaRecords.all fun replica => h.answers replica.internalPort

/-- `_terminate_replica`. -/
def terminateReplica (executable : String) (replica : Replica) : ProductProgram Unit := do
  let event ← nextEvent
  if (← get).replicaAlive replica executable then
    match event with
    | .dies => .crash
    | .signalFails => .raise .osError
    | .vanishes => do
        modify (ProductHost.exit [replica.pid])
        .raise .osError
    | .survives => .ret ()
    | _ => modify (ProductHost.exit [replica.pid])
  else .ret ()

def terminateReplicas (executable : String) : List Replica → ProductProgram Unit
  | [] => .ret ()
  | replica :: replicas => do
      terminateReplica executable replica
      terminateReplicas executable replicas

/-- `_terminate_record`. -/
def terminateRecord (record : ProcessRecord) : ProductProgram Unit :=
  terminateReplicas record.executable record.replicaRecords

/-- `_read_active`. -/
def readActive (required : Bool) : ProductProgram (Option ActiveState) := do
  match (← get).active with
  | .missing => if required then backendError "Active product state is unavailable." else .ret none
  | .malformed => backendError "Active product state is malformed."
  | .file state => .ret (some state)

/-- `_active_state`. -/
def activeState (handle : RuntimeHandle) (record : ProcessRecord) : ActiveState :=
  { revisionId := handle.revisionId, revisionDigest := handle.revisionDigest
    artifactDigest := record.artifactDigest
    upstreams := record.replicaRecords.map Replica.internalPort }

/-- Entering the side-effect fence of the scope. -/
def fence : ProductProgram Unit := do
  let _ ← gate .runtimeFence

/-- `_probe` of the declared port: the proxy hands the connection to one of the upstreams. -/
def probeDeclaredPort : ProductProgram Bool := do
  let choice ← gate .osError
  let h ← get
  match h.active with
  | .file state =>
      match state.upstreams[choice % state.upstreams.length]? with
      | some port => .ret (h.proxy && h.answers port)
      | none => .ret false
  | _ => .ret false

def handleFor (revision : ProductRevision) : RuntimeHandle :=
  ⟨backendName, revision.revisionId, revision.revisionDigest⟩

/-! ### Starting -/

/-- `_rewrite_argv`: the declared port becomes the internal one, wherever a token is the port
or ends in `=port` or `:port`. -/
def rewriteToken (declared internal : List Char) (token : String) : String :=
  let value := token.toList
  if value = declared then String.ofList internal
  else if ('=' :: declared).isSuffixOf value then
    String.ofList (value.take (value.length - declared.length) ++ internal)
  else if (':' :: declared).isSuffixOf value then
    -- everything up to the last `=` is kept
    let kept := (value.reverse.dropWhile fun c => c ≠ '=').reverse
    String.ofList (kept ++ "127.0.0.1:".toList ++ internal)
  else token

def rewriteArgv (internalPort : Nat) : Except ProductFailure (List String) :=
  let declared := (toString b.declaredPort).toList
  let internal := (toString internalPort).toList
  match b.bundle.argv with
  | [] => .error (.productProcessBackendError
      "Process argv does not expose its declared port for candidate isolation.")
  | first :: rest =>
      let result := rest.map (rewriteToken declared internal)
      if result = rest then
        .error (.productProcessBackendError
          "Process argv does not expose its declared port for candidate isolation.")
      else .ok (first :: result)

/-- `_allocate_internal_port`; `base` comes from the digest of the revision and the index. -/
def allocateInternalPort (base : Nat) (reserved : List Nat) (available : Nat → Bool) :
    Except ProductFailure Nat :=
  let ports := (List.range 512).map fun offset => 20000 + (base + offset) % 30000
  match ports.find? fun port =>
      port ≠ b.declaredPort ∧ port ∉ reserved ∧ available port = true with
  | some port => .ok port
  | none => .error (.productProcessBackendError "No candidate loopback port is available.")

variable [Platform]

/-- `canonical_digest(argv)`. -/
def argvDigest (argv : List String) : Digest :=
  digestText (canonicalJson (.arr (argv.map .str)))

/-- `int(seed[:8], 16)` of the digest of the revision and the index. -/
def portSeed (revision : Digest) (index : Nat) : Nat :=
  let seed := digestText (revision.val ++ ":" ++ toString index)
  ((seed.val.toList.drop 7).take 8).foldl
    (fun n c => 16 * n + (if c.isDigit then c.toNat - 48 else c.toNat - 87)) 0

/-- `subprocess.Popen`, and the replica it is entered as. -/
def spawnReplica (revision : ProductRevision) (executable : String) (index : Nat) :
    ProductProgram Unit := do
  let h ← get
  let reserved := h.started.map Replica.internalPort
  let port ← ofExcept
    (b.allocateInternalPort (portSeed revision.revisionDigest index) reserved h.available)
  let argv ← ofExcept (b.rewriteArgv port)
  let choice ← gate .osError
  modify fun h =>
    let pid := h.freshPid choice
    { h with
      processes := ⟨pid, " ".intercalate (executable :: argv.tail), some revision.revisionId⟩ ::
        h.processes
      started := h.started ++ [⟨index, pid, port, argvDigest argv, b.startedAt⟩] }
  -- `_wait_healthy`
  let _ ← gate (.productProcessBackendError "Product health probe did not pass before deadline.")

def spawnReplicas (revision : ProductRevision) (executable : String) :
    List Nat → ProductProgram Unit
  | [] => .ret ()
  | index :: indices => do
      b.spawnReplica revision executable index
      spawnReplicas revision executable indices

/-- Terminate what the start has spawned, in order. -/
def terminateStarted (executable : String) : ProductProgram Unit := do
  terminateReplicas executable (← get).started

/-- `_materialize`. -/
def materialize (revision : ProductRevision) (createdAt : Option String) :
    ProductProgram Unit := do
  match (← get).revisions revision.revisionId with
  | some directory =>
      match directory.metadata with
      | none => backendError "Managed product record is unavailable or unsafe."
      | some metadata =>
          if metadata.revisionDigest ≠ revision.revisionDigest then
            backendError "Immutable revision id collision."
          else do
            let _ ← gate (.productProcessBackendError
              "Existing product revision failed verification.")
  | none => do
      let _ ← gate (.productProcessBackendError "Materialized product revision failed verification.")
      act (ProductHost.setRevision revision.revisionId
        (some ⟨some ⟨revision.revisionDigest, createdAt⟩, some b.bundle, .missing⟩))
      let _ ← gate .osError

/-- The path of the executable inside its revision. -/
def executablePath (id : EntityId .rev) : String :=
  "revisions/" ++ id.val ++ "/" ++ b.bundle.artifactPath

/-- The part of a start behind an unhealthy record: the replicas and their record. -/
def launchReplicas (revision : ProductRevision) : ProductProgram Unit := do
  let executable := b.executablePath revision.revisionId
  let _ ← gate .osError
  modify fun h => { h with started := [] }
  Program.cleanup (b.spawnReplicas revision executable (List.range b.replicaCount))
    (terminateStarted executable)
  let h ← get
  -- `_write_process_record`: a temporary file, its rename and the directory
  write
  act (ProductHost.setRecord revision.revisionId (.file
    { revisionId := revision.revisionId, revisionDigest := revision.revisionDigest
      artifactDigest := b.bundle.artifactDigest, declaredPort := b.declaredPort, executable
      replicas := .replicated h.started }))
  write

/-- `start`. The preflight is made twice, the second time inside the fence. -/
def start (revision : ProductRevision) (createdAt : Option String) :
    ProductProgram RuntimeHandle := do
  let _ ← gate (.productProcessBackendError "product_runtime_contract_unsatisfied")
  fence
  let _ ← gate (.productProcessBackendError "product_runtime_contract_unsatisfied")
  b.materialize revision createdAt
  match ← b.readProcessRecord revision.revisionId false with
  | some existing =>
      if b.recordHealthy existing (← get) then .ret (handleFor revision)
      else do
        terminateRecord existing
        b.launchReplicas revision
        .ret (handleFor revision)
  | none => do
      b.launchReplicas revision
      .ret (handleFor revision)

/-! ### Stopping -/

/-- `stop`: whether the revision is reported stopped. -/
def stop (handle : RuntimeHandle) : ProductProgram Bool := do
  match ← b.readProcessRecord handle.revisionId false with
  | none => .ret true
  | some record => do
      if b.recordProcessAlive record (← get) then do
        fence
        terminateRecord record
        .ret (!b.recordProcessAlive record (← get))
      else .ret true

/-- `shutil.rmtree` of a revision, which may be cut off on the way. -/
def removeDirectory (id : EntityId .rev) : ProductProgram Unit := do
  let order ← gate .osError
  let dropRecord := ProductHost.setRecord id .missing
  let dropMetadata := fun h : ProductHost => h.setRevision id
    ((h.revisions id).map fun directory => { directory with metadata := none, bundle := none })
  act (if order % 2 = 0 then dropRecord else dropMetadata)
  act (if order % 2 = 0 then dropMetadata else dropRecord)
  act (ProductHost.setRevision id none)

/-- `remove`: whether the revision is reported removed. -/
def remove (handle : RuntimeHandle) : ProductProgram Bool := do
  match ← readActive false with
  | some active =>
      if active.revisionDigest = handle.revisionDigest then
        backendError "An active product revision cannot be removed."
      else removeInactive
  | none => removeInactive
where
  /-- Behind the check of the active revision; what `stop` reports is not looked at. -/
  removeInactive : ProductProgram Bool := do
    let _ ← b.stop handle
    fence
    if ((← get).revisions handle.revisionId).isSome then do
      removeDirectory handle.revisionId
      .ret ((← get).revisions handle.revisionId).isNone
    else .ret true

/-! ### Traffic -/

/-- `inspect` and `verify`: the candidate is running as recorded. -/
def inspect (handle : RuntimeHandle) : ProductProgram Bool := do
  match ← b.readProcessRecord handle.revisionId false with
  | none => .ret false
  | some record =>
      .ret (record.revisionDigest = handle.revisionDigest &&
        record.artifactDigest = b.bundle.artifactDigest && b.recordHealthy record (← get))

/-- `activate`: the digest of the revision that is active now. -/
def activate (candidate : RuntimeHandle) (expectedActive : Option Digest) :
    ProductProgram TrafficActivationResult := do
  match ← b.readProcessRecord candidate.revisionId true with
  | none => backendError "Product process evidence is unavailable."
  | some record =>
      if ¬ b.recordHealthy record (← get) then
        backendError "Candidate is not healthy at activation."
      else do
        fence
        let previous := (← readActive false).map ActiveState.revisionDigest
        if previous ≠ expectedActive then
          if previous = some candidate.revisionDigest then
            .ret ⟨previous, some candidate.revisionDigest⟩
          else backendError "Active product revision changed before activation."
        else do
          -- `_ensure_proxy`
          let _ ← gate (.productProcessBackendError "Product proxy did not become ready.")
          modify fun h => { h with proxy := true }
          act fun h => { h with active := .file (activeState candidate record) }
          .ret ⟨previous, some candidate.revisionDigest⟩

/-- `verify_active`. -/
def verifyActive (handle : RuntimeHandle) : ProductProgram Bool := do
  match ← readActive false with
  | some active =>
      if active.revisionId = handle.revisionId ∧ active.revisionDigest = handle.revisionDigest then
        probeDeclaredPort
      else .ret false
  | none => .ret false

/-- `_ensure_retained_revision_running`. -/
def ensureRetainedRevisionRunning (previous : RuntimeHandle) : ProductProgram ProcessRecord := do
  let record ← b.readProcessRecord previous.revisionId false
  match record with
  | some r => if b.recordHealthy r (← get) then .ret r else retained record
  | none => retained record
where
  /-- Start the retained revision again, with a backend of its own bundle. -/
  retained (record : Option ProcessRecord) : ProductProgram ProcessRecord := do
    match (← get).revisions previous.revisionId with
    | none => backendError "Managed product record is unavailable or unsafe."
    | some directory =>
        match directory.metadata with
        | none => backendError "Managed product record is unavailable or unsafe."
        | some ⟨_, none⟩ =>
            backendError "Previous product revision creation evidence is unavailable."
        | some ⟨_, some createdAt⟩ =>
            match directory.bundle with
            | none => .raise .productBundleError
            | some bundle =>
                if ¬ trafficContractCompatible bundle b.bundle then
                  backendError "Previous product revision has an incompatible traffic contract."
                else if (bundle.revision createdAt).revisionId ≠ previous.revisionId ∨
                    (bundle.revision createdAt).revisionDigest ≠ previous.revisionDigest then
                  backendError "Previous product revision does not match retained evidence."
                else do
                  let backend : ProcessBackend := { b with bundle }
                  match record with
                  | some r =>
                      if backend.recordProcessAlive r (← get) then do
                        let _ ← backend.stop previous
                        restart backend bundle createdAt
                      else restart backend bundle createdAt
                  | none => restart backend bundle createdAt
  restart (backend : ProcessBackend) (bundle : ProductBundle) (createdAt : String) :
      ProductProgram ProcessRecord := do
    let _ ← backend.start (bundle.revision createdAt) (some createdAt)
    match ← b.readProcessRecord previous.revisionId true with
    | some record => .ret record
    | none => backendError "Product process evidence is unavailable."

/-- `restore`. -/
def restore (previous failedCandidate : RuntimeHandle) :
    ProductProgram TrafficActivationResult := do
  let record ← b.ensureRetainedRevisionRunning previous
  match ← b.readProcessRecord failedCandidate.revisionId true with
  | none => backendError "Product process evidence is unavailable."
  | some candidateRecord => do
      fence
      act fun h => { h with active := .file (activeState previous record) }
      if ← probeDeclaredPort then
        .ret ⟨some failedCandidate.revisionDigest, some previous.revisionDigest⟩
      else if b.recordHealthy candidateRecord (← get) then do
        fence
        act fun h => { h with active := .file (activeState failedCandidate candidateRecord) }
        backendError "Restored product revision did not pass its public health probe."
      else backendError "Restored product revision did not pass its public health probe."

/-- `deactivate`. -/
def deactivate (failedCandidate : RuntimeHandle) : ProductProgram TrafficActivationResult := do
  fence
  match ← readActive false with
  | some active =>
      if active.revisionDigest ≠ failedCandidate.revisionDigest then
        backendError "Refusing to deactivate a different revision."
      else do
        act fun h => { h with active := .missing }
        .ret ⟨some failedCandidate.revisionDigest, none⟩
  | none => .ret ⟨some failedCandidate.revisionDigest, none⟩

/-- `drain_previous`. -/
def drainPrevious (previous candidate : RuntimeHandle) : ProductProgram Bool := do
  match ← readActive true with
  | none => backendError "Active product state is unavailable."
  | some active =>
      if active.revisionDigest ≠ candidate.revisionDigest then
        backendError "Candidate must be active before predecessor drain."
      else b.stop previous

end ProcessBackend

end Ophelia
