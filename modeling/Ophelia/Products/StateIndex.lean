import Ophelia.Domain.EnvMasking
import Ophelia.Products.ReceiptTimeline

/-!
# Ophelia.Products.StateIndex

The rows that a rebuild of the state index writes (`state_db.py`), each with its payload. Most
writers sweep what they store; those of routes and of releases store it as it was read, and the
sweep masks an entry of an `env` mapping only for its key or its look.
-/

namespace Ophelia

open Json

abbrev JsonMembers := List (String × Json)

/-- The tables that hold a payload. -/
inductive StateTable where
  | apps
  | environments
  | manifests
  | routes
  | releases
  | receipts
  | backups
  | observabilityRuns
  | observabilityAppSnapshots
  | trafficState
  | providerSnapshots
  | githubProvisioning
  | workflowStates
  | workflowNodes
deriving DecidableEq

/-- What is written to a column `payload_json`. -/
structure StateRow where
  table : StateTable
  payload : Json

/-- Python's part: `str` of a value, and where a path lies below the runtime root. -/
structure StateTools where
  text : Json → String
  relative : String → String
  /-- `_backup_id_to_timestamp`. -/
  backupTime : String → Option String

/-- The release records of an application, each file with its stem. -/
structure AppReleases where
  app : String
  records : List (String × JsonMembers)
  /-- `release.json` -/
  legacy : JsonMembers
  /-- `active_release.json` -/
  active : JsonMembers

/-- The backups of an application: the path of the directory of each, and its manifest. -/
structure AppBackups where
  app : String
  manifests : List (String × JsonMembers)

/-- A file of a directory, with its stem. -/
structure IndexedFile where
  stem : String
  payload : JsonMembers

/-- The contents that a rebuild reads. A file that cannot be read writes no row, and when a rebuild
raises nothing is kept. -/
structure StateSources [Platform] where
  locks : List (String × JsonMembers)
  releases : List AppReleases
  store : ReceiptStore
  timeline : ReceiptTimeline
  scanned : receiptTimeline store ⟨none, none, none, none⟩ none none = .ok timeline
  backups : List AppBackups
  runs : List IndexedFile
  workflows : List IndexedFile
  /-- The applications of the manifests of the repository, with their environments. -/
  registry : List (String × Option String)
  /-- The applications that have a directory. -/
  directories : List String

/-! ### Values -/

def lookupMember (members : JsonMembers) (key : String) : Json := member (.obj members) key

/-- `value if isinstance(value, str) else None`. -/
def textMember (members : JsonMembers) (key : String) : Option String :=
  match lookupMember members key with
  | .str s => some s
  | _ => none

/-- `[item for item in value if isinstance(item, dict)]`, of a list. -/
def mappingItems : Json → List JsonMembers
  | .arr items => items.filterMap fun item =>
      match item with
      | .obj members => some members
      | _ => none
  | _ => []

section Writers

variable (tools : StateTools)

/-- `_relative_path`. -/
def relativePath (path : Json) : Json :=
  match path with
  | .null => .null
  | path =>
      let text := strOf tools.text path
      if text = "" then .null
      else if "sqlite:".toList.isPrefixOf text.toList then .str text
      else .str (tools.relative text)

/-! ### Manifest locks -/

/-- `_index_environment`. -/
def environmentPayload (app : String) (environment : Option String) (lock : JsonMembers) : Json :=
  .obj [("app", .str app), ("environment", optionalText environment),
    ("kind", lookupMember lock "kind"), ("image", lookupMember lock "image"),
    ("profile", lookupMember lock "profile")]

/-- `_index_manifests`, for one lock. -/
def manifestRows (app : String) (lock : JsonMembers) : List StateRow :=
  let redacted := redactManifestLock lock
  [⟨.manifests, .obj redacted⟩,
    ⟨.environments, environmentPayload app (textMember redacted "environment") redacted⟩]

/-- `_index_routes`, for one lock. -/
def routeRows (lock : JsonMembers) : List StateRow :=
  ((mappingItems (lookupMember lock "routes")).filter fun route =>
    (nonemptyText (lookupMember route "domain")).isSome).map fun route => ⟨.routes, .obj route⟩

/-! ### Releases -/

/-- `payload.setdefault(key, value)`. -/
def setDefault (members : JsonMembers) (key : String) (value : Json) : JsonMembers :=
  if (members.lookup key).isSome then members else members ++ [(key, value)]

/-- `active_release_id`. -/
def AppReleases.activeId (app : AppReleases) : Option String :=
  let release :=
    if app.active ≠ [] then app.active
    else if lookupMember app.legacy "applied" = .bool true then app.legacy
    else []
  nonemptyText (lookupMember release "release_id")

/-- `latest_release_id`. -/
def AppReleases.latestId (app : AppReleases) : Option String :=
  nonemptyText (lookupMember app.legacy "release_id")

/-- `list_releases`. -/
def AppReleases.listReleases (app : AppReleases) : List JsonMembers :=
  let records := app.records.map fun (stem, payload) => setDefault payload "release_id" (.str stem)
  let records :=
    if records = [] ∧ app.legacy ≠ [] then
      [setDefault app.legacy "release_id" (.str "legacy-current")]
    else records
  let flagged := records.map fun record =>
    let id := lookupMember record "release_id"
    let active := app.activeId.any fun active => id = .str active
    let latest := app.latestId.any fun latest => id = .str latest
    setMember (setMember record "active" (.bool active)) "latest" (.bool latest)
  let deployedAt (record : JsonMembers) : String :=
    (record.lookup "deployed_at").elim "" (strOf tools.text)
  flagged.insertionSort fun a b => deployedAt a ≤ deployedAt b

/-- The entry of a release in `release_registry`. -/
def registryEntry (app : String) (release : JsonMembers) : JsonMembers :=
  let field (key : String) : Json := lookupMember release key
  [("app", (release.lookup "app").getD (.str app)), ("environment", field "environment"),
    ("release_id", field "release_id"), ("git_sha", field "git_sha"),
    ("images", (release.lookup "images").getD (.obj [])),
    ("image_digests", (release.lookup "image_digests").getD (.obj [])),
    ("manifest_hash", field "manifest_hash"), ("deployed_at", field "deployed_at"),
    ("active", field "active"), ("latest", field "latest"), ("applied", field "applied"),
    ("verified", field "verified"),
    ("verification_status", member (field "verification") "status"),
    ("rollback_eligible", .bool (truthy (field "bundle_path")))]

/-- `_index_releases`, for one application. -/
def releaseRows (app : AppReleases) : List StateRow :=
  (((app.listReleases tools).map (registryEntry app.app)).filter fun release =>
    (textMember release "app").isSome && (textMember release "release_id").isSome).map
      fun release => ⟨.releases, .obj release⟩

/-! ### Receipts -/

def ReceiptSource.text : ReceiptSource → String
  | .file => "file"
  | .journal => "journal"
  | .product => "product"

/-- A member that a record has only if it is set. -/
def optionalMember (key : String) (value : Option String) : JsonMembers :=
  value.toList.map fun text => (key, .str text)

/-- The mapping of an entry of the timeline. -/
def TimelineEntry.members (entry : TimelineEntry) : JsonMembers :=
  let record := entry.record
  [("receipt_id", Json.str record.receiptId), ("operation", record.operation),
    ("status", record.status), ("app", record.app), ("environment", record.environment),
    ("started_at", record.startedAt), ("completed_at", record.completedAt),
    ("path", .str record.path)] ++
  optionalMember "storage_path" record.storagePath ++
  [("source", Json.str record.source.text), ("inputs_redacted", record.inputsRedacted),
    ("aliases", .arr (record.aliases.map .str))] ++
  (if record.payloadReadable then [] else [("payload_readable", Json.bool false)]) ++
  [("sources", Json.arr (record.sources.map fun source => .str source.text)),
    ("receipt_locators", .arr (record.receiptLocators.map .str))] ++
  optionalMember "journal_locator" record.journalLocator ++
  optionalMember "product_receipt_path" record.productReceiptPath ++
  optionalMember "file_receipt_path" record.fileReceiptPath ++
  [("artifact_paths", Json.arr (entry.artifactPaths.map .str)),
    ("rollback_available", .bool entry.rollbackAvailable)]

/-- A row whose payload is swept. -/
def sweptRow (table : StateTable) (payload : JsonMembers) : StateRow :=
  ⟨table, redactPayloadEnv (.obj payload)⟩

/-! ### Backups -/

/-- A record of `_backup_records`. -/
def backupRecord (directory : String) (payload : JsonMembers) : JsonMembers :=
  let field (key : String) (default : Json) : Json :=
    deepRedact ((payload.lookup key).getD default)
  let id := strOf tools.text (orElse (lookupMember payload "backup_id")
    (.str (String.ofList (PyText.pathName directory.toList))))
  let created := strOf tools.text (orElse (lookupMember payload "created_at")
    (.str ((tools.backupTime id).getD "")))
  [("backup_id", .str id), ("created_at", if created = "" then .null else .str created),
    ("path", .str directory), ("manifest_path", .str (directory ++ "/backup-manifest.json")),
    ("coverage", field "coverage" (.obj [])), ("database", field "database" (.obj [])),
    ("warnings", field "warnings" (.arr [])), ("secrets_redacted_in_report", .bool true)]

/-- What `_index_backups` stores of a record, before the sweep. -/
def storedBackup (app : String) (record : JsonMembers) : JsonMembers :=
  let path (key : String) : Json := relativePath tools (lookupMember record key)
  setMember (setMember (setMember record "app" (.str app)) "path" (path "path"))
    "manifest_path" (path "manifest_path")

/-- The backups of an application in the order of their times, then of their names. -/
def backupRecords (app : AppBackups) : List JsonMembers :=
  let time (record : JsonMembers) : String :=
    strOf tools.text (orElse (lookupMember record "created_at") (.str ""))
  let id (record : JsonMembers) : String := strOf tools.text (lookupMember record "backup_id")
  (app.manifests.map fun (directory, payload) => backupRecord tools directory payload).insertionSort
    fun a b => time a < time b ∨ time a = time b ∧ id a ≤ id b

def backupPayloads (app : AppBackups) : List JsonMembers :=
  ((backupRecords tools app).filter fun record =>
    (nonemptyText (lookupMember record "backup_id")).isSome).map (storedBackup tools app.app)

/-! ### Observability -/

/-- The runs, each identity once. -/
def distinctRuns (seen : List String) : List IndexedFile → List JsonMembers
  | [] => []
  | file :: files =>
      let id := (textMember file.payload "operation_id").getD file.stem
      if id ∈ seen then distinctRuns seen files
      else file.payload :: distinctRuns (id :: seen) files

/-- The applications of a run. -/
def runItems (run : JsonMembers) : List JsonMembers :=
  (mappingItems (lookupMember run "apps")).filter fun item =>
    (nonemptyText (lookupMember item "app")).isSome

/-! ### Workflows -/

/-- The nodes of a workflow graph. -/
def workflowNodes (workflow : JsonMembers) : List JsonMembers :=
  (mappingItems (lookupMember workflow "nodes")).filter fun node =>
    (nonemptyText (lookupMember node "id")).isSome

/-! ### Traffic -/

/-- What is known of the traffic of an application in an environment. -/
structure TrafficState where
  app : String
  environment : String
  latestApply : Option JsonMembers
  latestRollback : Option JsonMembers
  status : Json

def TrafficState.payload (state : TrafficState) : JsonMembers :=
  [("app", .str state.app),
    ("environment", if state.environment = "" then .null else .str state.environment),
    ("latest_apply", (state.latestApply.map .obj).getD .null),
    ("latest_rollback", (state.latestRollback.map .obj).getD .null), ("status", state.status)]

/-- The states so far, in the order they came up, and the snapshots. -/
structure TrafficIndex where
  states : List TrafficState := []
  snapshots : List JsonMembers := []

/-- The summary of a receipt of the traffic. -/
def receiptSummary (entry : TimelineEntry) (payload : JsonMembers) : JsonMembers :=
  let record := entry.record
  [("receipt_id", .str record.receiptId), ("operation", record.operation),
    ("status", orElse (lookupMember payload "status") record.status),
    ("completed_at", orElse (lookupMember payload "completed_at") record.completedAt),
    ("path", relativePath tools (.str record.path)),
    ("provider_mutation_performed",
      .bool (truthy (lookupMember payload "provider_mutation_performed")))]

/-- `_index_provider_snapshots`: the mutations, and the validation. -/
def providerSnapshots (payload : JsonMembers) : List JsonMembers :=
  mappingItems (lookupMember payload "provider_mutations") ++
    match lookupMember payload "provider_config_validation" with
    | .obj validation => [validation]
    | _ => []

/-- Take up a receipt of the traffic: the first apply and the first rollback count. -/
def TrafficState.take (state : TrafficState) (apply : Bool) (summary : JsonMembers) :
    TrafficState :=
  if apply then
    if state.latestApply.isNone then
      { state with latestApply := some summary
                   status := orElse (lookupMember summary "status") (.str "unknown") }
    else state
  else if state.latestRollback.isNone then { state with latestRollback := some summary }
  else state

/-- Put a state in its place, or behind the others. -/
def setState (states : List TrafficState) (state : TrafficState) : List TrafficState :=
  if states.any fun other => other.app = state.app ∧ other.environment = state.environment then
    states.map fun other =>
      if other.app = state.app ∧ other.environment = state.environment then state else other
  else states ++ [state]

def TIMELINE_TRAFFIC : List String := ["app.traffic.apply", "app.traffic.rollback.apply"]

variable [Platform]

/-- `_safe_receipt_payload`. -/
def safeReceiptPayload (store : ReceiptStore) (entry : TimelineEntry) : Option JsonMembers :=
  match store.receiptPayload entry.record with
  | some (.obj payload) => some payload
  | _ => none

/-- One entry of the timeline in `_index_traffic_provider_state`. -/
def trafficStep (store : ReceiptStore) (index : TrafficIndex) (entry : TimelineEntry) :
    TrafficIndex :=
  match entry.record.operation, nonemptyText entry.record.app with
  | .str operation, some app =>
      if operation ∈ TIMELINE_TRAFFIC then
        let environment := (textMember entry.members "environment").getD ""
        let state := (index.states.find? fun state =>
          state.app = app ∧ state.environment = environment).getD
            ⟨app, environment, none, none, .str "unknown"⟩
        let payload := (safeReceiptPayload store entry).getD []
        let apply := operation == "app.traffic.apply"
        { states := setState index.states (state.take apply (receiptSummary tools entry payload))
          snapshots := index.snapshots ++
            if apply && state.latestApply.isNone then providerSnapshots payload else [] }
      else index
  | _, _ => index

/-- The states and the snapshots of a timeline. -/
def trafficIndex (store : ReceiptStore) (entries : List TimelineEntry) : TrafficIndex :=
  entries.foldl (trafficStep tools store) {}

/-! ### GitHub -/

def GITHUB_OPERATIONS : List String := ["app.github.provision.plan", "app.github.provision.apply"]

/-- The entries that `_index_github_provisioning` takes up. -/
def githubEntries (entries : List TimelineEntry) : List TimelineEntry :=
  entries.filter fun entry =>
    decide (∃ operation ∈ GITHUB_OPERATIONS, entry.record.operation = .str operation) &&
      decide (entry.record.receiptId ≠ "")

/-- What is stored of one: its receipt, or the entry itself. -/
def githubPayload (store : ReceiptStore) (entry : TimelineEntry) : JsonMembers :=
  match safeReceiptPayload store entry with
  | some (member :: payload) => member :: payload
  | _ => entry.members

/-! ### The rebuild -/

variable (sources : StateSources)

/-- The applications that come up, with their environments. -/
def notedApps : List (String × Option String) :=
  let ofMembers (members : JsonMembers) : List (String × Option String) :=
    (nonemptyText (lookupMember members "app")).toList.map fun app =>
      (app, textMember members "environment")
  (sources.locks.map fun (app, lock) => (app, textMember (redactManifestLock lock) "environment")) ++
  (sources.releases.flatMap fun app => (releaseRows tools app).flatMap fun row =>
    match row.payload with
    | .obj release => (textMember release "app").toList.map fun app =>
        (app, textMember release "environment")
    | _ => []) ++
  (sources.directories.map fun app => (app, none)) ++
  ((distinctRuns [] sources.runs).flatMap fun run => (runItems run).flatMap ofMembers) ++
  ((sources.timeline.receipts.filter fun entry =>
    decide (∃ operation ∈ TIMELINE_TRAFFIC, entry.record.operation = .str operation)).flatMap
      fun entry => ofMembers entry.members) ++
  ((githubEntries sources.timeline.receipts).flatMap fun entry => ofMembers entry.members) ++
  (sources.workflows.flatMap fun file => ofMembers file.payload) ++ sources.registry

/-- `_index_apps`. -/
def appRows (noted : List (String × Option String)) : List StateRow :=
  (textSet (noted.map Prod.fst)).map fun app =>
    let environments := textSet ((noted.filter fun n => n.1 = app).filterMap fun n =>
      n.2.filter fun environment => environment ≠ "")
    ⟨.apps, .obj [("app", .str app), ("environments", .arr (environments.map .str))]⟩

/-- What the sweep is given, table by table. -/
def sweptPayloads : List (StateTable × JsonMembers) :=
  ((sources.timeline.receipts.filter fun entry => entry.record.receiptId ≠ "").map fun entry =>
    (StateTable.receipts, entry.members)) ++
  (sources.backups.flatMap (backupPayloads tools)).map (fun stored => (StateTable.backups, stored)) ++
  ((distinctRuns [] sources.runs).flatMap fun run =>
    (StateTable.observabilityRuns, run) :: (runItems run).map fun item =>
      (StateTable.observabilityAppSnapshots, item)) ++
  ((trafficIndex tools sources.store sources.timeline.receipts).snapshots.map fun snapshot =>
    (StateTable.providerSnapshots, snapshot)) ++
  ((trafficIndex tools sources.store sources.timeline.receipts).states.map fun state =>
    (StateTable.trafficState, state.payload)) ++
  ((githubEntries sources.timeline.receipts).map fun entry =>
    (StateTable.githubProvisioning, githubPayload sources.store entry)) ++
  (sources.workflows.flatMap fun file =>
    (StateTable.workflowStates, file.payload) :: (workflowNodes file.payload).map fun node =>
      (StateTable.workflowNodes, node))

/-- `_populate`: every payload that is written. -/
def populate : List StateRow :=
  (sources.locks.flatMap fun (app, lock) => manifestRows app lock) ++
  (sources.locks.flatMap fun (_, lock) => routeRows lock) ++
  sources.releases.flatMap (releaseRows tools) ++
  ((sweptPayloads tools sources).map fun (table, payload) => sweptRow table payload) ++
  appRows (notedApps tools sources)

end Writers

end Ophelia
