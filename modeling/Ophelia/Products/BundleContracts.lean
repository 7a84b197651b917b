import Ophelia.Products.ReceiptSources

/-!
# Ophelia.Products.BundleContracts

The contract documents of a product operations bundle and the checks of their shapes
(`product_bundle.py`): the bundle index, the runtime requirements, the release manifest and the
recovery contract. A check of an object is a record of its fields; each field has the check of its
value, in the order of the source.

Documents are read with `_strict_object`, so no object of theirs repeats a key.
-/

namespace Ophelia

/-- A check that raises `ProductBundleError`. -/
abbrev ContractCheck := Except String Unit

namespace BundleContracts

/-! ### Checks of values -/

/-- `text.capitalize()`. -/
def capitalize (text : String) : String :=
  match text.toList with
  | [] => ""
  | c :: cs => String.ofList (c.toUpper :: cs.map Char.toLower)

def names (keys : List String) : String :=
  ", ".intercalate (keys.mergeSort fun a b => decide (a ≤ b))

/-- `_shape`. -/
def shape (value : Json) (owner : String) (required optional : List String) : ContractCheck :=
  if isMapping value = false then
    .error (capitalize owner ++ " must be an object.")
  else
    let missing := required.filter fun key => key ∉ value.keys
    let unknown := value.keys.filter fun key => key ∉ required ∧ key ∉ optional
    if missing ≠ [] then
      .error (capitalize owner ++ " is missing fields: " ++ names missing)
    else if unknown ≠ [] then
      .error (capitalize owner ++ " has unknown fields: " ++ names unknown)
    else .ok ()

/-- `_list`. -/
def list (value : Json) (owner : String) (minimum : Nat) : Except String (List Json) :=
  match value with
  | .arr items =>
      if items.length < minimum then
        .error (capitalize owner ++ " must contain at least " ++ toString minimum ++ " item(s).")
      else .ok items
  | _ => .error (capitalize owner ++ " must contain at least " ++ toString minimum ++ " item(s).")

/-- `_constant`. -/
def constant (value : Json) (name expected : String) : ContractCheck :=
  if value = .str expected then .ok () else .error (name ++ " must be " ++ expected ++ ".")

/-- A string with a property of its characters. -/
def textWith (p : List Char → Bool) (message : String) (value : Json) : ContractCheck :=
  match value with
  | .str s => if p s.toList then .ok () else .error message
  | _ => .error message

/-- `_id`. -/
def identifier (value : Json) (owner : String) : ContractCheck :=
  textWith isBundleId (capitalize owner ++ " is invalid.") value

/-- The pattern `[0-9]+` and what follows it. -/
def dropDigits (cs : List Char) : Option (List Char) :=
  match cs with
  | c :: cs => if c.isDigit then some (cs.dropWhile Char.isDigit) else none
  | [] => none

/-- What may follow the third number of a version. -/
def isVersionSuffix : List Char → Bool
  | [] => true
  | '-' :: c :: cs => (c :: cs).all fun d => d.isLower || d.isDigit || d == '.' || d == '-'
  | _ => false

/-- `_VERSION`. -/
def isVersionPattern (cs : List Char) : Bool :=
  match dropDigits cs with
  | some ('.' :: cs) =>
      match dropDigits cs with
      | some ('.' :: cs) =>
          match dropDigits cs with
          | some cs => isVersionSuffix cs
          | none => false
      | _ => false
  | _ => false

/-- `_version`. -/
def version (value : Json) (owner : String) : ContractCheck :=
  textWith (fun cs => decide (cs.length ≤ 80) && isVersionPattern cs)
    (capitalize owner ++ " is invalid.") value

/-- `_ENV`. -/
def isEnvironmentName : List Char → Bool
  | [] => false
  | c :: cs => c.isUpper && cs.all fun d => d.isUpper || d.isDigit || d == '_'

/-- `_env`. -/
def environmentName (value : Json) : ContractCheck :=
  textWith isEnvironmentName "Environment variable name is invalid." value

/-- `_digest`. -/
def digest (value : Json) (owner : String) : ContractCheck :=
  textWith isSha256 (capitalize owner ++ " is invalid.") value

/-- `_integer`. -/
def integer (value : Json) (owner : String) (minimum : Int) (maximum : Option Int) :
    ContractCheck :=
  match value with
  | .int n =>
      if n < minimum ∨ maximum.any (· < n) then
        .error (capitalize owner ++ " is outside its allowed range.")
      else .ok ()
  | _ => .error (capitalize owner ++ " is outside its allowed range.")

/-- `_boolean`. -/
def boolean (value : Json) (owner : String) : ContractCheck :=
  match value with
  | .bool _ => .ok ()
  | _ => .error (capitalize owner ++ " must be boolean.")

/-- `_text`. -/
def text (value : Json) (owner : String) : ContractCheck :=
  textWith (fun cs => decide (PyText.strip cs ≠ []) && !cs.contains '\x00')
    (capitalize owner ++ " must be non-empty text.") value

open PyText (posixParts)

/-- `PurePosixPath(value).as_posix()` of a relative path. -/
def asPosix (cs : List Char) : List Char :=
  if posixParts cs = [] then ['.'] else List.intercalate ['/'] (posixParts cs)

/-- The paths that `_safe_path` accepts. -/
def isSafePath (cs : List Char) : Bool :=
  decide (cs ≠ []) && decide (cs.length ≤ 2048) && !cs.contains '\\' &&
    cs.head? != some '/' && asPosix cs == cs && !(posixParts cs).contains ['.', '.']

/-- `_safe_path`. -/
def safePath (value : Json) (owner : String) : ContractCheck :=
  textWith isSafePath (capitalize owner ++ " is unsafe.") value

/-- `_safe_path_or_dot`. -/
def safePathOrDot (value : Json) (owner : String) : ContractCheck :=
  if value = .str "." then .ok () else safePath value owner

/-- `_paths_overlap`, for relative paths. -/
def pathsOverlap (left right : List Char) : Bool :=
  posixParts left == [] || posixParts right == [] ||
    (posixParts left).isPrefixOf (posixParts right) ||
    (posixParts right).isPrefixOf (posixParts left)

/-- `value not in options`, for a set of strings; lists and objects cannot be looked up. -/
def member? (value : Json) (options : List String) (message : String) : ContractCheck :=
  match value with
  | .arr _ => .error "unhashable type: 'list'"
  | .obj _ => .error "unhashable type: 'dict'"
  | .str s => if s ∈ options then .ok () else .error message
  | _ => .error message

/-- `_unique_strings`. -/
def uniqueStrings (value : Json) (owner : String) : Except String (List String) := do
  let items ← list value owner 1
  let texts := items.filterMap fun item =>
    match item with
    | .str s => some s
    | _ => none
  if texts.length ≠ items.length ∨ ¬ texts.Nodup then
    throw (capitalize owner ++ " must contain unique strings.")
  return texts

/-- `_unique_ids`. -/
def uniqueIds (value : Json) (owner : String) : Except String (List String) := do
  let items ← uniqueStrings value owner
  items.forM fun item => identifier (.str item) owner
  return items

/-! ### Records -/

/-- A step of the check of an object: the check of a field, or one that concerns several. The check
sees the whole object. -/
inductive RecordStep where
  | field (name : String) (required : Bool) (check : Json → ContractCheck)
  | also (check : Json → ContractCheck)

def RecordStep.check : RecordStep → Json → ContractCheck
  | field _ _ check => check
  | also check => check

/-- A field that has to be there. -/
def required (name : String) (check : Json → ContractCheck) : RecordStep :=
  .field name true fun item => check (member item name)

/-- A field with one possible value. -/
def constantField (name expected : String) : RecordStep :=
  required name fun value => constant value name expected

/-- A field that may be left out. -/
def optional (name : String) (check : Json → ContractCheck) : RecordStep :=
  .field name false fun item =>
    match item.get? name with
    | none => .ok ()
    | some value => check value

def fieldNames (isRequired : Bool) (steps : List RecordStep) : List String :=
  steps.filterMap fun step =>
    match step with
    | .field name r _ => if r = isRequired then some name else none
    | .also _ => none

/-- `_shape`, and then the checks of the fields. -/
def record (owner : String) (steps : List RecordStep) (item : Json) : ContractCheck := do
  shape item owner (fieldNames true steps) (fieldNames false steps)
  steps.forM fun step => step.check item

/-- A loop over items, each of which is checked with those before it at hand. -/
def eachItem (body : List Json → Json → ContractCheck) : List Json → List Json → ContractCheck
  | _, [] => .ok ()
  | seen, item :: rest => do
      body seen item
      eachItem body (seen ++ [item]) rest

/-- `if item[key] in seen: raise`. -/
def fresh (key message : String) (seen : List Json) (item : Json) : ContractCheck :=
  if member item key ∈ seen.map (member · key) then .error message else .ok ()

/-- A list of records. -/
def listOf (owner : String) (minimum : Nat) (body : List Json → Json → ContractCheck)
    (value : Json) : ContractCheck := do
  eachItem body [] (← list value owner minimum)

/-- The strings of a field over a list of checked objects. -/
def fieldTexts (key : String) (value : Json) : List String :=
  match value with
  | .arr items => items.filterMap fun item =>
      match member item key with
      | .str s => some s
      | _ => none
  | _ => []

/-! ### Shared parts -/

/-- One facet of `_validate_stack`. -/
def stackFacet (seen : List Json) : Json → ContractCheck :=
  record "stack facet" [
    required "id" (identifier · "stack facet id"),
    .also (fresh "id" "Resolved stack repeats a facet id." seen),
    required "kind" (member? · ["server", "web", "mobile", "operations"]
      "Resolved stack facet kind is invalid."),
    required "root" (safePathOrDot · "stack facet root"),
    required "toolchain" (identifier · "stack facet toolchain"),
    .also fun item =>
      let root := fieldTexts "root" (.arr [item])
      let existing := fieldTexts "root" (.arr seen)
      if root.any fun r => existing.any fun e => pathsOverlap r.toList e.toList then
        .error "Resolved stack facet roots overlap."
      else .ok ()]

/-- `_validate_stack`. -/
def validateStack : Json → ContractCheck :=
  record "resolved stack" [
    required "id" (identifier · "stack id"),
    required "version" (version · "stack version"),
    required "manifest_digest" (digest · "stack manifest digest"),
    required "blueprint_digest" (digest · "stack blueprint digest"),
    optional "facets" (listOf "stack facets" 0 stackFacet)]

/-- The facets that `_validate_stack` returns. -/
def stackFacets (value : Json) : List String := fieldTexts "id" (member value "facets")

/-- One dataset of `_validate_datasets`. -/
def dataset (owner : String) (seen : List Json) : Json → ContractCheck :=
  let policy := "Dataset binding or recovery policy is invalid."
  record "dataset" [
    required "id" (identifier · "dataset id"),
    required "owner" (identifier · "dataset owner"),
    required "kind" (text · "dataset kind"),
    optional "path" (safePath · "dataset path"),
    required "binding" (member? · ["stack-owned", "provider-selected"] policy),
    required "backup" (member? · ["required", "optional", "excluded"] policy),
    required "quiescence" (member? · ["application-stop", "provider-snapshot", "none"] policy),
    required "consistency" (text · "dataset consistency"),
    required "consistency_group" (identifier · "consistency group"),
    required "backup_order" (integer · "backup order" 1 none),
    required "restore_validations" fun value => do
      let _ ← uniqueIds value "restore validations",
    .also (fresh "id" (owner ++ " repeats a dataset id.") seen)]

/-- `_validate_datasets`. -/
def validateDatasets (owner : String) : Json → ContractCheck :=
  listOf owner 1 (dataset owner)

/-! ### The bundle index -/

def bundleDocument (_ : List Json) : Json → ContractCheck :=
  record "document" [
    required "kind" (member? · ["runtime-requirements", "release-manifest", "recovery-contract"]
      "Operations bundle has an unknown document kind."),
    required "path" (safePath · "document path"),
    required "digest" (digest · "document digest")]

def bundleDocuments (value : Json) : ContractCheck := do
  let documents ← list value "documents" 3
  if documents.length ≠ 3 then .error "Operations bundle must contain exactly three documents."
  else do
    eachItem bundleDocument [] documents
    if ¬ (fieldTexts "kind" value).Nodup ∨ ¬ (fieldTexts "path" value).Nodup then
      .error "Operations bundle document kinds and paths must be unique."
    else .ok ()

/-- `_validate_bundle`. -/
def validateBundle : Json → ContractCheck :=
  record "bundle" [
    constantField "schema_version" "product.operations-bundle/v1",
    constantField "kind" "product.operations-bundle",
    required "product_id" (identifier · "product_id"),
    required "release_id" (identifier · "release_id"),
    required "bundle_digest" (digest · "bundle_digest"),
    required "composition_digest" (digest · "composition_digest"),
    required "documents" bundleDocuments]

/-! ### The runtime requirements -/

def processArgv (value : Json) : ContractCheck := do
  let argv ← list value "process argv" 1
  argv.forM <| textWith (fun cs => !cs.contains '\x00')
    "Process argv must contain strings without NUL bytes."

/-- The facet of a process: one of the stack's, and there if the stack has several. -/
def processFacet (facets : List String) : RecordStep :=
  .field "facet" false fun item =>
    match item.get? "facet" with
    | none | some .null =>
        if 1 < facets.length then
          .error "Runtime process must declare a facet for a multi-facet stack."
        else .ok ()
    | some facet => do
        identifier facet "process facet"
        member? facet facets "Runtime process references an unknown stack facet."

def runtimeProcess (facets : List String) (seen : List Json) : Json → ContractCheck :=
  record "process" [
    required "id" (identifier · "process id"),
    required "artifact_id" (identifier · "artifact id"),
    processFacet facets,
    required "argv" processArgv,
    required "replicas" (integer · "replicas" 1 none),
    required "shutdown_seconds" (integer · "shutdown_seconds" 1 (some 900)),
    .also (fresh "id" "Runtime process ids must be unique." seen)]

def runtimePort (processes : List String) (seen : List Json) : Json → ContractCheck :=
  let invalid := "Runtime port protocol or exposure is invalid."
  record "port" [
    required "id" (identifier · "port id"),
    required "process_id" (member? · processes "Runtime port references an unknown process."),
    required "protocol" (member? · ["http", "https", "tcp"] invalid),
    required "exposure" (member? · ["public", "internal", "loopback"] invalid),
    required "port" (integer · "port" 1 (some 65535)),
    .also (fresh "id" "Runtime port ids must be unique." seen)]

/-- `isinstance(value, int)`, as a bound. -/
def lowerBound (value : Json) : Int :=
  match value with
  | .int n => n
  | _ => 0

def runtimeHealth (processes ports : List String) (seen : List Json) : Json → ContractCheck :=
  let unknown := "Health probe references an unknown process or port."
  let invalid := "Health probe kind or path is invalid."
  record "health probe" [
    required "id" (identifier · "health id"),
    required "process_id" (member? · processes unknown),
    required "port_id" (member? · ports unknown),
    required "kind" (member? · ["liveness", "readiness"] invalid),
    required "path" (textWith (fun cs => cs.head? == some '/') invalid),
    required "timeout_seconds" (integer · "health timeout" 1 none),
    .field "interval_seconds" true fun item =>
      integer (member item "interval_seconds") "health interval"
        (lowerBound (member item "timeout_seconds")) none,
    .also (fresh "id" "Runtime health ids must be unique." seen)]

def runtimeEnvironment (seen : List Json) : Json → ContractCheck :=
  record "environment requirement" [
    required "name" environmentName,
    required "owner" (identifier · "environment owner"),
    required "purpose" (text · "environment purpose"),
    required "required" (boolean · "environment required"),
    required "secret" (boolean · "environment secret"),
    optional "environments" fun value => do
      let _ ← uniqueStrings value "environments",
    .also (fresh "name" "Runtime environment names must be unique." seen)]

def runtimeSecret (seen : List Json) : Json → ContractCheck :=
  record "secret reference" [
    required "name" environmentName,
    required "owner" (identifier · "secret owner"),
    required "purpose" (text · "secret purpose"),
    required "required" (boolean · "secret required"),
    .also (fresh "name" "Runtime secret reference names must be unique." seen)]

def runtimeProvider (seen : List Json) : Json → ContractCheck :=
  record "provider" [
    required "id" (identifier · "provider id"),
    required "owner" (identifier · "provider owner"),
    required "required" (boolean · "provider required"),
    .also (fresh "id" "Runtime provider ids must be unique." seen)]

def runtimeLifecycle : Json → ContractCheck :=
  record "lifecycle" [
    required "startup" (member? · ["single-process", "ordered-processes"]
      "Runtime lifecycle is invalid."),
    required "shutdown_signal" (member? · ["SIGTERM", "SIGINT"] "Runtime lifecycle is invalid."),
    required "shutdown_timeout_seconds" (integer · "shutdown timeout" 1 (some 900))]

/-- `_validate_runtime`. -/
def validateRuntime : Json → ContractCheck :=
  record "runtime requirements" [
    constantField "schema_version" "product.runtime-requirements/v1",
    constantField "kind" "product.runtime-requirements",
    required "product_id" (identifier · "product_id"),
    required "contract_digest" (digest · "contract_digest"),
    required "composition_digest" (digest · "composition_digest"),
    required "stack" validateStack,
    .field "processes" true fun item =>
      listOf "processes" 1 (runtimeProcess (stackFacets (member item "stack")))
        (member item "processes"),
    .field "ports" true fun item =>
      listOf "ports" 1 (runtimePort (fieldTexts "id" (member item "processes")))
        (member item "ports"),
    .field "health" true fun item =>
      listOf "health" 1 (runtimeHealth (fieldTexts "id" (member item "processes"))
        (fieldTexts "id" (member item "ports"))) (member item "health"),
    optional "environment" (listOf "environment" 0 runtimeEnvironment),
    optional "secret_references" (listOf "secret references" 0 runtimeSecret),
    optional "providers" (listOf "providers" 0 runtimeProvider),
    required "data" (validateDatasets "runtime data"),
    required "lifecycle" runtimeLifecycle]

/-! ### The release manifest -/

def MAX_ARTIFACT_BYTES : Int := 2147483648

def releaseProvenance : Json → ContractCheck :=
  record "release provenance" [
    required "plan_digest" (digest · "plan_digest"),
    required "product_spec_digest" (digest · "product_spec_digest"),
    required "registry_digest" (digest · "registry_digest")]

def artifactPlatform : Json → ContractCheck :=
  record "artifact platform" [
    required "os" (member? · ["darwin", "linux", "windows", "freebsd"]
      "Artifact operating system is invalid."),
    required "arch" (text · "artifact architecture"),
    required "cgo_enabled" (boolean · "cgo_enabled"),
    required "toolchain" (text · "artifact toolchain")]

def releaseArtifact (seen : List Json) : Json → ContractCheck :=
  record "release artifact" [
    required "id" (identifier · "artifact id"),
    .also (fresh "id" "Release artifact ids must be unique." seen),
    required "kind" (member? · ["executable", "archive", "static"]
      "Release artifact kind is invalid."),
    required "path" (safePath · "artifact path"),
    required "digest" (digest · "artifact digest"),
    required "build_digest" (digest · "build digest"),
    required "size_bytes" (integer · "artifact size" 1 (some MAX_ARTIFACT_BYTES)),
    required "platform" artifactPlatform]

def releaseConfiguration (seen : List Json) : Json → ContractCheck :=
  record "release configuration" [
    required "name" environmentName,
    required "required" (boolean · "configuration required"),
    required "secret" (boolean · "configuration secret"),
    .also (fresh "name" "Release configuration names must be unique." seen)]

def releaseMigration (seen : List Json) : Json → ContractCheck :=
  record "release migration" [
    required "id" (identifier · "migration id"),
    required "capability_id" (identifier · "migration capability id"),
    required "digest" (digest · "migration digest"),
    .also (fresh "id" "Release migration ids must be unique." seen)]

def releaseCapability (seen : List Json) : Json → ContractCheck :=
  record "resolved capability" [
    required "id" (identifier · "id"),
    required "adapter_id" (identifier · "adapter_id"),
    required "version" (version · "version"),
    required "adapter_version" (version · "adapter_version"),
    required "manifest_digest" (digest · "manifest_digest"),
    required "adapter_digest" (digest · "adapter_digest"),
    .also (fresh "id" "Resolved capability ids must be unique." seen)]

def releaseCompatibility : Json → ContractCheck :=
  let sameFamily := fun (expected : String) (value : Json) =>
    if value = .str expected then .ok () else .error "Release compatibility family is invalid."
  record "release compatibility" [
    required "runtime_requirements" (sameFamily "product.runtime-requirements/v1"),
    required "release_manifest" (sameFamily "product.release-manifest/v1"),
    required "recovery_contract" (sameFamily "product.recovery-contract/v1")]

def releaseRollout : Json → ContractCheck :=
  let invalid := "Release rollout policy is invalid."
  record "release rollout" [
    required "strategy" (member? · ["replace", "rolling", "blue-green"] invalid),
    required "migration_behavior"
      (member? · ["forward-only-at-startup", "external-before-start"] invalid),
    required "rollback" (member? · ["restore-required", "artifact-only", "not-supported"] invalid),
    required "preconditions" fun value => do
      let _ ← uniqueIds value "rollout preconditions"]

/-- `_validate_release`. -/
def validateRelease : Json → ContractCheck :=
  record "release manifest" [
    constantField "schema_version" "product.release-manifest/v1",
    constantField "kind" "product.release-manifest",
    required "manifest_digest" (digest · "manifest_digest"),
    required "release_id" (identifier · "release_id"),
    required "product_id" (identifier · "product_id"),
    required "stack" validateStack,
    required "provenance" releaseProvenance,
    required "artifacts" (listOf "artifacts" 1 releaseArtifact),
    optional "configuration" (listOf "configuration" 0 releaseConfiguration),
    optional "migrations" (listOf "migrations" 0 releaseMigration),
    required "capabilities" (listOf "capabilities" 0 releaseCapability),
    required "compatibility" releaseCompatibility,
    required "rollout" releaseRollout]

/-! ### The recovery contract -/

def recoveryObjectives : Json → ContractCheck :=
  record "recovery objectives" [
    required "rpo_hours" (integer · "rpo_hours" 1 none),
    required "rto_hours" (integer · "rto_hours" 1 none),
    required "retention_days" (integer · "retention_days" 1 none)]

/-- The identifiers of the datasets that are not excluded from backups. -/
def recoverableIds (datasets : Json) : List String :=
  match datasets with
  | .arr items => fieldTexts "id" (.arr (items.filter fun item =>
      decide (member item "backup" ≠ .str "excluded")))
  | _ => []

/-- `set(left) == set(right)`. -/
def sameNames (left right : List String) : Bool :=
  left.all (· ∈ right) && right.all (· ∈ left)

def recoveryValidation (datasets : List String) (_ : List Json) : Json → ContractCheck :=
  record "recovery validation" [
    required "dataset_id" (member? · datasets "Recovery validation references an unknown dataset."),
    required "checks" fun value => do
      let _ ← uniqueIds value "recovery checks"]

/-- `_validate_recovery`. -/
def validateRecovery : Json → ContractCheck :=
  record "recovery contract" [
    constantField "schema_version" "product.recovery-contract/v1",
    constantField "kind" "product.recovery-contract",
    required "contract_digest" (digest · "contract_digest"),
    required "product_id" (identifier · "product_id"),
    required "composition_digest" (digest · "composition_digest"),
    required "objectives" recoveryObjectives,
    required "datasets" (validateDatasets "recovery datasets"),
    required "backup_order" fun value => do
      let _ ← uniqueIds value "backup order",
    required "restore_order" fun value => do
      let _ ← uniqueIds value "restore order",
    .also fun item =>
      let recoverable := recoverableIds (member item "datasets")
      let order := fun name => match uniqueStrings (member item name) name with
        | .ok texts => texts
        | .error _ => []
      if sameNames (order "backup_order") recoverable = false ∨
          sameNames (order "restore_order") recoverable = false then
        .error "Backup and restore order must cover every non-excluded recovery dataset."
      else .ok (),
    .field "validation_order" true fun item =>
      listOf "validation order" 1
        (recoveryValidation (fieldTexts "id" (member item "datasets")))
        (member item "validation_order"),
    .also fun item =>
      let validated := fieldTexts "dataset_id" (member item "validation_order")
      if ¬ validated.Nodup then .error "Recovery validation datasets must be unique."
      else if sameNames validated (recoverableIds (member item "datasets")) = false then
        .error "Recovery validation must cover every non-excluded recovery dataset."
      else .ok ()]

/-! ### Documents -/

/-- The four contracts. -/
inductive Contract where
  | bundle
  | runtime
  | release
  | recovery
deriving DecidableEq

/-- The shape validator of a contract. -/
def Contract.validate : Contract → Json → ContractCheck
  | .bundle => validateBundle
  | .runtime => validateRuntime
  | .release => validateRelease
  | .recovery => validateRecovery

/-- The field that holds the digest of the value. -/
def Contract.digestField : Contract → String
  | .bundle => "bundle_digest"
  | .runtime => "contract_digest"
  | .release => "manifest_digest"
  | .recovery => "contract_digest"

end BundleContracts

end Ophelia
