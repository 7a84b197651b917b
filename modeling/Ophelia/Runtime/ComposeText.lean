import Ophelia.Lib.Replacing
import Ophelia.Lib.PyLines
import Ophelia.Products.ReceiptSources
import Ophelia.Runtime.DataExport

/-!
# Ophelia.Runtime.ComposeText

The compose file of a version 1 application (`render_compose`, `templates.py`), line by line,
and its redacted text (`redacted_compose_text`, `redaction.py`). The renderer puts the lines
of the services and of the networks into a template by two replacements, one after the other;
the redactor knows nothing of them and masks what looks like an entry of an `environment`
mapping: an indented line with a name before its first colon.
-/

namespace Ophelia

open PyText Replacing

/-- What the methods of `str` take from the tables of Unicode, and `str()` of a value that is
no string. -/
class PyStrings where
  isalpha : Char → Bool
  isalnum : Char → Bool
  str : Json → String
  isalnum_ascii : ∀ c, c.toNat < 128 → isalnum c = c.isAlphanum
  /-- Letters, digits and numerals are no blanks. -/
  isSpace_of_isalnum : ∀ c, isalnum c = true → isSpace c = false

export PyStrings (isalpha isalnum)

namespace V1

variable [PyStrings]

/-! ### The manifest -/

/-- `_is_env_key_name`. -/
def isEnvKeyName : List Char → Bool
  | [] => false
  | c :: cs => (c == '_' || isalpha c) && (c :: cs).all fun c => c == '_' || isalnum c

/-- Values by environment names, as `_validate_env_key_names` lets them through. -/
structure EnvMap where
  table : Table (Prod.fst : String × String → String)
  named : ∀ p ∈ table.rows, isEnvKeyName p.1.toList = true

structure HealthCheck where
  path : String := "/health"
  interval : String := "10s"
  timeout : String := "5s"
  retries : Int := 5
  command : List String := []

/-- The fields of a service that only its compose file reads. -/
structure ServiceSettings where
  command : List String
  env : EnvMap
  healthcheck : HealthCheck

/-- A manifest with the fields that only its compose file reads. -/
structure ComposeManifest where
  base : Manifest
  settings : Slug → ServiceSettings
  env : EnvMap
  postgres : Bool
  redis : Bool
  memory : String
  /-- `networking.internal` is `per-app`, and not `shared`. -/
  perApp : Bool

/-! ### Files of the bundle -/

/-- `f"{number:02d}"`. -/
def twoDigits (number : Nat) : String :=
  if number < 10 then "0" ++ toString number else toString number

/-- `bundle_env_file_path`. -/
def bundleEnvFilePath (source : String) (service_name : Option Slug) (index : Nat) : String :=
  "env.d/" ++ service_name.elim "" (fun name => name.val ++ "-") ++ twoDigits (index + 1) ++ "-" ++
    String.ofList (pathName source.toList)

/-- `bundle_mount_path`. -/
def bundleMountPath (service_name : Slug) (source : String) (index : Nat) : String :=
  "artifacts/" ++ service_name.val ++ "-" ++ twoDigits (index + 1) ++ "-" ++
    String.ofList (pathName source.toList)

/-! ### Environment values -/

/-- `RUNTIME_INJECTED_ENV_KEYS`. -/
def RUNTIME_INJECTED_ENV_KEYS : List String :=
  ["OPHELIA_ENVIRONMENT", "OPHELIA_APP", "OPHELIA_SERVICE", "OPHELIA_RELEASE_ID",
    "OPHELIA_IMAGE_REF", "OPHELIA_IMAGE_DIGEST", "OPHELIA_COMMIT_SHA", "OPHELIA_BUILD_TIME", "PORT"]

/-- `value if isinstance(value, dict) else {}`. -/
def mappingOr (value : Json) : Json :=
  if isMapping value then value else .obj []

def optionalImage (image : Option NonBlank) : Json :=
  image.elim .null fun image => .str image.val

/-- `_image_digest_from_ref`. -/
def imageDigestFromRef (image_ref : String) : String :=
  if contains "@sha256:".toList image_ref.toList then
    String.ofList ((image_ref.toList.dropWhile (· ≠ '@')).drop 1)
  else ""

/-- `_runtime_env_values`. -/
def runtimeEnvValues (m : ComposeManifest) (service : ServiceConfig)
    (release_metadata : Option Json) : List (String × String) :=
  let metadata := orElse (release_metadata.getD .null) (.obj [])
  let service_metadata := mappingOr (member metadata "services")
  let service_values := mappingOr (member service_metadata service.name.val)
  let image_ref := strOf PyStrings.str (orElse (member service_values "image_ref")
    (orElse (member metadata "image_ref")
      (orElse (optionalImage service.image) (orElse (optionalImage m.base.image) (.str "")))))
  let image_digest := strOf PyStrings.str (orElse (member service_values "image_digest")
    (orElse (member metadata "image_digest") (.str (imageDigestFromRef image_ref))))
  [("OPHELIA_ENVIRONMENT", strOf PyStrings.str (orElse (member metadata "environment")
      (.str (m.base.environment.elim "unknown" Environment.value)))),
    ("OPHELIA_APP", m.base.app.val),
    ("OPHELIA_SERVICE", service.name.val),
    ("OPHELIA_RELEASE_ID", strOf PyStrings.str (orElse (member metadata "release_id") (.str "unreleased"))),
    ("OPHELIA_IMAGE_REF", image_ref),
    ("OPHELIA_IMAGE_DIGEST", image_digest),
    ("OPHELIA_COMMIT_SHA", strOf PyStrings.str (orElse (member metadata "commit_sha") (.str ""))),
    ("OPHELIA_BUILD_TIME", strOf PyStrings.str (orElse (member metadata "build_time") (.str ""))),
    ("PORT", toString service.port.val)]

/-- `sorted(env.items())`; no name occurs twice. -/
def EnvMap.sorted (env : EnvMap) : List (String × String) :=
  env.table.rows.insertionSort fun a b => a.1 ≤ b.1

/-- `OrderedDict(sorted(manifest.env.items()))`, updated with the sorted entries of the
service: a name of both keeps its place and takes the value of the service. -/
def envMap (m : ComposeManifest) (service : ServiceConfig) : List (String × String) :=
  let own := (m.settings service.name).env
  (m.env.sorted.map fun p => (p.1, ((own.table.get? p.1).map Prod.snd).getD p.2)) ++
    own.sorted.filter fun p => (m.env.table.get? p.1).isNone

/-- The entries of the `environment` mapping of a service. -/
def serviceEntries (m : ComposeManifest) (service : ServiceConfig)
    (release_metadata : Option Json) : List (String × String) :=
  runtimeEnvValues m service release_metadata ++
    (envMap m service).filter fun p => p.1 ∉ RUNTIME_INJECTED_ENV_KEYS

/-! ### Lines -/

/-- `_quote`. -/
def quote (value : String) : List Char :=
  Json.stringText value

/-- A line of the services: an entry of an `environment` mapping, or anything else. -/
inductive ComposeLine where
  | plain (text : List Char)
  | entry (key value : String)

/-- `f"      {key}: {_quote(value)}"`. -/
def ComposeLine.text : ComposeLine → List Char
  | .plain text => text
  | .entry key value => "      ".toList ++ key.toList ++ ": ".toList ++ quote value

omit [PyStrings] in
theorem ComposeLine.text_entry (key value : String) :
    (ComposeLine.entry key value).text = "      ".toList ++ key.toList ++ ": ".toList ++ quote value :=
  rfl

/-- `f"      - {_quote(item)}"`. -/
def itemLine (item : String) : List Char :=
  "      - ".toList ++ quote item

/-- `internal_network_name`. -/
def internalNetworkName (m : ComposeManifest) : String :=
  if m.perApp then m.base.app.val ++ "-" ++ environmentName m.base ++ "-internal"
  else "ophelia-internal"

/-- `_data_volume_mount_source`. -/
def dataVolumeMountSource (m : ComposeManifest) (volume : DataVolumeConfig) : String :=
  match volume.source with
  | some source => composeHostSource source.val
  | none => dataVolumeName m.base volume

/-- `_data_volumes_for_service`, with the mounts. -/
def dataVolumesForService (m : ComposeManifest) (service : ServiceConfig) :
    List (DataVolumeConfig × NonBlank) :=
  let default_service : Option Slug :=
    match m.base.services.rows with
    | [only] => some only.name
    | _ => none
  m.base.data.volumes.filterMap fun volume =>
    volume.mount.bind fun mount =>
      if volume.service.orElse (fun _ => default_service) = some service.name then
        some (volume, mount)
      else none

/-- `_render_service_volume_lines`. -/
def serviceVolumeLines (m : ComposeManifest) (service : ServiceConfig) : List (List Char) :=
  (service.mounts.zipIdx.map fun (mount, index) =>
    let bundle_source :=
      if mount.bind then mount.source.val
      else "./" ++ bundleMountPath service.name mount.source.val index
    itemLine (bundle_source ++ ":" ++ mount.target.val ++ if mount.read_only then ":ro" else "")) ++
  (dataVolumesForService m service).map fun (volume, mount) =>
    itemLine (dataVolumeMountSource m volume ++ ":" ++ mount.val)

/-- `_render_healthcheck_block`. -/
def healthcheckBlock (service : ServiceConfig) (healthcheck : HealthCheck) : List (List Char) :=
  let address := "http://127.0.0.1:" ++ toString service.port.val ++ healthcheck.path
  let command :=
    if healthcheck.command = [] then
      ["CMD-SHELL",
        "if command -v curl >/dev/null 2>&1; then curl -fsS " ++ address ++ " >/dev/null; " ++
          "elif command -v wget >/dev/null 2>&1; then wget -qO- " ++ address ++ " >/dev/null; " ++
          "else exit 1; fi"]
    else healthcheck.command
  ["    healthcheck:".toList,
    "      test: [".toList ++ ", ".toList.intercalate (command.map quote) ++ [']'],
    "      interval: ".toList ++ quote healthcheck.interval,
    "      timeout: ".toList ++ quote healthcheck.timeout,
    "      retries: ".toList ++ Json.intText healthcheck.retries]

/-- The lines of `_render_service_block`. -/
def serviceBlock (m : ComposeManifest) (release_metadata : Option Json) (service : ServiceConfig) :
    List ComposeLine :=
  let settings := m.settings service.name
  let plain := fun text : String => ComposeLine.plain text.toList
  let aliasLine := ComposeLine.plain ("          - ".toList ++ quote (m.base.serviceAlias service.name))
  let volume_lines := serviceVolumeLines m service
  [plain ("  " ++ service.name.val ++ ":"),
    .plain ("    image: ".toList ++ quote (strOf PyStrings.str (orElse (optionalImage service.image)
      (orElse (optionalImage m.base.image) (.str ""))))),
    plain "    restart: unless-stopped", plain "    env_file:", plain "      - ./env"] ++
  (m.base.env_files.zipIdx.map fun (source, index) =>
    .plain (itemLine ("./" ++ bundleEnvFilePath source none index))) ++
  (service.env_files.zipIdx.map fun (source, index) =>
    .plain (itemLine ("./" ++ bundleEnvFilePath source (some service.name) index))) ++
  [plain "    environment:"] ++
  ((serviceEntries m service release_metadata).map fun p => .entry p.1 p.2) ++
  [plain "    expose:", .plain (itemLine (toString service.port.val))] ++
  (service.host_port.elim [] fun host_port =>
    [plain "    ports:", .plain (itemLine ("127.0.0.1:" ++ toString host_port.val ++ ":" ++
      toString service.port.val))]) ++
  (if volume_lines = [] then [] else plain "    volumes:" :: volume_lines.map .plain) ++
  (if settings.command = [] then []
    else plain "    command:" :: settings.command.map fun item => .plain (itemLine item)) ++
  (healthcheckBlock service settings.healthcheck).map .plain ++
  [.plain ("    mem_limit: ".toList ++ quote m.memory), plain "    networks:",
    plain "      ophelia-edge:", plain "        aliases:", aliasLine,
    plain ("      " ++ internalNetworkName m ++ ":"), plain "        aliases:", aliasLine] ++
  if m.perApp then
    .plain ("          - ".toList ++ quote service.name.val) ::
      if m.postgres || m.redis then [plain "      ophelia-internal:"] else []
  else []

/-- The lines of `_render_networks_block`. -/
def networksBlock (m : ComposeManifest) : List (List Char) :=
  let shared := ["  ophelia-internal:".toList, "    external: true".toList]
  ["  ophelia-edge:".toList, "    external: true".toList] ++
  if m.perApp then
    [("  " ++ internalNetworkName m ++ ":").toList,
      "    name: ".toList ++ quote (internalNetworkName m), "    labels:".toList,
      "      ophelia.app: ".toList ++ quote m.base.app.val,
      "      ophelia.environment: ".toList ++
        quote (m.base.environment.elim "unknown" Environment.value)] ++
      if m.postgres || m.redis then shared else []
  else shared

/-- The lines of `_render_volumes_block`. -/
def volumesBlock (m : ComposeManifest) : List (List Char) :=
  (m.base.data.volumes.filter fun volume => volume.mount.isSome && volume.source.isNone).flatMap
    fun volume =>
      let name := dataVolumeName m.base volume
      [("  " ++ name ++ ":").toList, "    name: ".toList ++ quote name, "    labels:".toList,
        "      ophelia.app: ".toList ++ quote m.base.app.val,
        "      ophelia.environment: ".toList ++
          quote (m.base.environment.elim "unknown" Environment.value),
        "      ophelia.data.volume: ".toList ++ quote volume.name.val]

/-! ### Texts -/

/-- `"\n".join(lines)`. -/
def joined (lines : List (List Char)) : List Char :=
  ['\n'].intercalate lines

/-- `s.rstrip()`. -/
def rstrip (cs : List Char) : List Char :=
  (cs.reverse.dropWhile isSpace).reverse

/-- `{{SERVICES_BLOCK}}`. -/
def SERVICES_BLOCK : List Char :=
  '{' :: '{' :: "SERVICES_BLOCK".toList ++ ['}', '}']

/-- `{{NETWORKS_BLOCK}}`. -/
def NETWORKS_BLOCK : List Char :=
  '{' :: '{' :: "NETWORKS_BLOCK".toList ++ ['}', '}']

/-- `compose/app.compose.tpl`. -/
def composeTemplate : List Char :=
  "services:\n".toList ++ SERVICES_BLOCK ++ "\n\nnetworks:\n".toList ++ NETWORKS_BLOCK ++ ['\n']

def servicesLines (m : ComposeManifest) (release_metadata : Option Json) : List ComposeLine :=
  m.base.services.rows.flatMap (serviceBlock m release_metadata)

/-- `render_compose`. -/
def renderCompose (m : ComposeManifest) (release_metadata : Option Json) : Option (List Char) :=
  if m.base.kind.rendersCompose then
    let services_block := joined ((servicesLines m release_metadata).map ComposeLine.text)
    let rendered := replaceAll id NETWORKS_BLOCK (rstrip (joined (networksBlock m)))
      (replaceAll id SERVICES_BLOCK (rstrip services_block) composeTemplate)
    let volumes_block := joined (volumesBlock m)
    some (if volumes_block = [] then rendered
      else rendered ++ "\n\nvolumes:\n".toList ++ rstrip volumes_block)
  else none

/-! ### Redaction -/

/-- `COMPOSE_SAFE_KEYS`. -/
def COMPOSE_SAFE_KEYS : List String := ["OPHELIA_APP", "OPHELIA_SERVICE", "PORT"]

/-- `s.isalnum()`. -/
def isalnumText (cs : List Char) : Bool :=
  !cs.isEmpty && cs.all isalnum

/-- One round of the loop in `redacted_compose_text`. -/
def redactComposeLine (line : List Char) : List Char :=
  let stripped := strip line
  let key := before ':' stripped
  if ':' ∈ stripped ∧ key ≠ [] ∧ isalnumText (key.filter (· ≠ '_')) = true ∧
      String.ofList key ∉ COMPOSE_SAFE_KEYS ∧ "      ".toList <+: line then
    line.takeWhile isSpace ++ key ++ ": \"".toList ++ REDACTED.toList ++ ['"']
  else line

/-- `redacted_compose_text`. -/
def redactedComposeText (content : List Char) : List Char :=
  joined ((splitlines content).map redactComposeLine) ++ ['\n']

end V1

end Ophelia
