import Mathlib.Data.List.Induction
import Ophelia.Domain.Revisions
import Ophelia.Lib.Json
import Ophelia.Runtime.ComposeText
import Ophelia.Runtime.Manifest
import Ophelia.Validation.HttpPath

/-!
# Ophelia.ManifestV2.Migration

The conversion of version 1 documents (`migrate_v1_document`, `manifest_v2.py`). It copies four
keys of every service and three of every route, and names one artifact for each image it meets;
the rest of the document is left behind. What the document meant is read off the renderers of
the two versions (`_render_matcher`, `_rewrite_target` and `_resolve_upstream` of `templates.py`,
`_render_caddy` of `manifest_v2_renderer.py`).
-/

namespace Ophelia.Migration

open V1

/-! ### Documents -/

/-- The members of a service that the conversion copies as they stand, and those of its health
check. -/
structure RawService where
  command : Option Json
  env : Option Json
  env_files : Option Json
  healthcheck : Mapping

/-- `parse_domain`, which takes the labels of other scripts from a package. -/
class DomainReader where
  parseDomain : String → Option Domain

export DomainReader (parseDomain)

section Conversion

variable [DomainReader]

/-- A route as it is written, and what the loader makes of it. -/
structure RawRoute where
  config : RouteConfig
  domain : String
  parsed_domain : parseDomain domain = some config.domain
  path_prefix : Option String
  parsed : match path_prefix with
    | none => config.path_prefix = none
    | some raw => ∃ path, HttpPath.parseHttpPath .prefixed raw.toList = .ok path ∧
        config.path_prefix = some (String.ofList path.value)

/-- A document of version 1: the manifest it loads as, and what the manifest does not tell. -/
structure Document where
  manifest : Manifest
  routes : List RawRoute
  loaded : manifest.routes = routes.map RawRoute.config
  services : Slug → RawService
  env : Mapping
  required_env : List String
  /-- `resources.memory`. -/
  memory : Option String
  postgres : Bool
  redis : Bool
  /-- `networking.internal` is `per-app`, and not `shared`. -/
  perApp : Bool
  /-- `edge.tls` renders a directive: its mode, as the loader leaves it, is not `auto`. -/
  edge_tls : Bool

inductive Artifact where
  | image (ref : Option NonBlank)
  | staticRoot (root : Option NonBlank)
deriving DecidableEq

/-- A workload of the result; `fields` are the copied keys. -/
structure Workload where
  name : String
  kind : WorkloadKind
  artifact : String
  fields : Mapping

structure Route where
  name : String
  domain : String
  workload : String
  port : Option Json
  path_prefix : Option String

structure Secret where
  name : String
  ref : String

/-- The version 2 document. -/
structure Candidate where
  app : Slug
  environment : Environment
  artifacts : Table (Prod.fst : String × Artifact → String)
  workloads : Table Workload.name
  routes : List Route
  strategy : String
  secrets : List Secret

inductive Failure where
  | manifestV2Error (message : String)
  | keyError (key : String)

/-! ### The conversion -/

/-- `service_raw.get("image") or default_image`. -/
def effectiveImage (m : Manifest) (service : ServiceConfig) : Option NonBlank :=
  service.image.orElse fun _ => m.image

/-- `sorted(services.items())`. -/
def sortedServices (m : Manifest) : List ServiceConfig :=
  m.services.rows.insertionSort fun a b => a.name.val ≤ b.name.val

/-- The members of a service under `command`, `port`, `env` and `env_files`. -/
def copiedFields (d : Document) (service : ServiceConfig) : Mapping :=
  let raw := d.services service.name
  (raw.command.elim [] fun command => [("command", command)]) ++
  [("port", .int service.port.val)] ++
  (raw.env.elim [] fun env => [("env", env)]) ++
  (raw.env_files.elim [] fun env_files => [("env_files", env_files)])

/-- Artifacts and workloads. -/
structure Migrated where
  artifacts : Table (Prod.fst : String × Artifact → String)
  workloads : Table Workload.name

/-- The name of the artifact for an image: the shared one, unless that has another image. -/
def artifactName (artifacts : Table (Prod.fst : String × Artifact → String)) (service : Slug)
    (image : Option NonBlank) : String :=
  match artifacts.get? "app-image" with
  | none => "app-image"
  | some artifact => if artifact.2 = .image image then "app-image" else service.val ++ "-image"

/-- The body of the loop over the services. -/
def migrateService (d : Document) (state : Migrated) (service : ServiceConfig) : Migrated :=
  let image := effectiveImage d.manifest service
  let artifact_name := artifactName state.artifacts service.name image
  let routed := d.routes.any fun route => route.config.service = some service.name
  { artifacts := state.artifacts.put (artifact_name, .image image)
    workloads := state.workloads.put {
      name := service.name.val
      kind := if routed then .web else .internal
      artifact := artifact_name
      fields := copiedFields d service } }

def migrateServices (d : Document) (services : List ServiceConfig) : Migrated :=
  services.foldl (migrateService d) ⟨.empty, .empty⟩

/-- Artifacts, workloads and the target of a route without a service. -/
def migrateWorkloads (d : Document) : Migrated × String :=
  if d.manifest.kind = .static then
    (⟨Table.empty.put ("static", .staticRoot d.manifest.static_root),
      Table.empty.put ⟨"static", .static, "static", []⟩⟩, "static")
  else
    (migrateServices d (sortedServices d.manifest),
      ((sortedServices d.manifest).head?.map fun service => service.name.val).getD "web")

/-- The body of the loop over the routes. -/
def migrateRoute (state : Migrated) (target_name : String) (entry : RawRoute × Nat) :
    Except Failure Route :=
  let target := entry.1.config.service.elim target_name Refined.val
  match state.workloads.get? target with
  | none => .error (.keyError target)
  | some workload => .ok {
      name := "route-" ++ toString (entry.2 + 1)
      domain := entry.1.domain
      workload := target
      port := if workload.kind = .web then workload.fields.lookup "port" else none
      path_prefix := RawRoute.path_prefix entry.1 }

def migrateSecret (app : Slug) (environment : Environment) (name : String) : Secret where
  name := name
  ref := "secret://" ++ app.val ++ "/" ++ environment.value ++ "/" ++
    String.ofList ((PyText.lower name.toList).map fun c => if c = '_' then '-' else c)

/-- `migrate_v1_document`. -/
def migrateV1Document (d : Document) : Except Failure Candidate :=
  let m := d.manifest
  let environment := m.environment.getD .staging
  if m.kind = .service ∨ m.kind = .multiService ∨ m.kind = .static then do
    let (state, target_name) := migrateWorkloads d
    let routes ← d.routes.zipIdx.mapM (migrateRoute state target_name)
    return {
      app := m.app
      environment := environment
      artifacts := state.artifacts
      workloads := state.workloads
      routes := routes
      strategy :=
        if m.kind = .static then "static_atomic"
        else if state.workloads.rows.any fun workload => workload.kind = .web then "blue_green"
        else "recreate"
      secrets := d.required_env.map (migrateSecret m.app environment) }
  else
    .error (.manifestV2Error
      "Automatic v2 migration supports service, multi-service, and static manifests.")

/-! ### Meanings -/

/-- The patterns of the Caddy path matcher: a path, and a path with `*` behind it. -/
inductive PathPattern where
  | exact (path : List Char)
  | under (path : List Char)

def PathPattern.Matches : PathPattern → List Char → Prop
  | .exact path, request => request = path
  | .under path, request => path <+: request

/-- `s.rstrip("/")`. -/
def rstripSlash (cs : List Char) : List Char :=
  (cs.reverse.dropWhile (· = '/')).reverse

/-- `_render_matcher`. -/
def renderMatcher (route : RouteConfig) : Option (List PathPattern) :=
  match route.path, route.path_prefix with
  | some path, _ => some [.exact path.toList]
  | none, some pre =>
      let stripped := rstripSlash pre.toList
      if stripped = [] then some [.under ['/']]
      else some [.exact stripped, .under (stripped ++ ['/'])]
  | none, none => none

/-- The requests that a matcher lets through. -/
def Admits (matcher : Option (List PathPattern)) (request : List Char) : Prop :=
  ∀ patterns, matcher = some patterns → ∃ pattern ∈ patterns, pattern.Matches request

/-- The matcher of a version 2 route: `route.path_prefix + "*"`. -/
def Route.matcher (route : Route) : Option (List PathPattern) :=
  route.path_prefix.map fun pre => [.under pre.toList]

/-- `_rewrite_target`, for a prefix that is in front of the URI; `none` stands for the URI. -/
def rewriteTarget (pre : String) : Option (List Char) :=
  let normalized := rstripSlash pre.toList
  if normalized = [] then none else some normalized

/-- What a version 1 route strips from a request, and what it puts in front of it. -/
def rewriting (route : RouteConfig) : Option String × Option (List Char) :=
  ( route.strip_prefix, route.rewrite_prefix.bind rewriteTarget)

/-- The settings of a document beside the services and the routes themselves. -/
inductive Setting where
  | healthcheck (service : Slug)
  | mounts (service : Slug)
  | hostPort (service : Slug)
  | dataVolumes
  | env (name : String)
  | envFile (source : String)
  | memory
  | addons
  | networking
  | edge
  | console

/-- The document declares a setting that the renderer of version 1 puts into what runs. The
surface and the asset path of a console do not count: only the template of the environment file
and the checks after a deployment read them. -/
def Declares (d : Document) : Setting → Prop
  | .healthcheck service =>
      ∃ config ∈ d.manifest.services.rows, config.name = service ∧ (d.services service).healthcheck ≠ []
  | .mounts service =>
      ∃ config ∈ d.manifest.services.rows, config.name = service ∧ config.mounts ≠ []
  | .hostPort service =>
      ∃ config ∈ d.manifest.services.rows, config.name = service ∧ config.host_port.isSome = true
  | .dataVolumes => ∃ volume ∈ d.manifest.data.volumes, volume.mount.isSome = true
  | .env name => d.manifest.kind.serviceBased = true ∧ name ∈ d.env.map Prod.fst ∧
      name ∉ RUNTIME_INJECTED_ENV_KEYS
  | .envFile source => d.manifest.kind.serviceBased = true ∧ source ∈ d.manifest.env_files
  | .memory => d.manifest.kind.serviceBased = true ∧ d.memory.isSome = true
  | .addons => d.manifest.kind.serviceBased = true ∧ (d.postgres || d.redis) = true
  | .networking => d.manifest.kind.serviceBased = true ∧ d.perApp = true
  | .edge =>
      d.manifest.edge.on_demand_tls.isSome = true ∨ d.manifest.edge.catch_all.isSome = true ∨
        d.edge_tls = true
  | .console => d.manifest.profile = some .console ∧
      ∃ console domain, d.manifest.console = some console ∧ console.admin_domain = some domain ∧
        domain ∉ d.manifest.routes.map RouteConfig.domain

/-- A workload has one of some keys. -/
def Workload.HasKey (workload : Workload) (keys : List String) : Prop :=
  ∃ key ∈ keys, key ∈ workload.fields.map Prod.fst

/-- A version 2 document says something about a setting. There is no key for host ports, and
routes have no TLS key in the result. -/
def Represents (d : Document) (out : Candidate) : Setting → Prop
  | .healthcheck service => ∃ workload ∈ out.workloads.rows, workload.name = service.val ∧
      workload.HasKey ["startup", "readiness", "liveness"]
  | .mounts service => ∃ workload ∈ out.workloads.rows, workload.name = service.val ∧
      workload.HasKey ["mounts", "file_mounts"]
  | .hostPort _ => False
  | .dataVolumes => ∃ workload ∈ out.workloads.rows, workload.HasKey ["mounts"]
  | .env name => ∀ workload ∈ out.workloads.rows, ∃ env, workload.fields.lookup "env" = some env ∧
      name ∈ env.keys
  | .envFile source => ∀ workload ∈ out.workloads.rows, ∃ items,
      workload.fields.lookup "env_files" = some (.arr items) ∧ Json.str source ∈ items
  | .memory => ∃ workload ∈ out.workloads.rows, workload.HasKey ["resources"]
  | .addons => ∃ workload ∈ out.workloads.rows, workload.HasKey ["networks"]
  | .networking => ∃ workload ∈ out.workloads.rows, workload.HasKey ["networks"]
  | .edge => False
  | .console => ∃ console domain, d.manifest.console = some console ∧
      console.admin_domain = some domain ∧
      ∃ route ∈ out.routes, parseDomain route.domain = some domain

/-- The result has a service as a workload, with its image and the copied keys. -/
def KeepsService (d : Document) (out : Candidate) (service : ServiceConfig) : Prop :=
  ∃ workload, out.workloads.get? service.name.val = some workload ∧
    workload.fields = copiedFields d service ∧
    out.artifacts.get? workload.artifact =
      some (workload.artifact, .image (effectiveImage d.manifest service))

/-- The result has a route with its domain, its requests, its rewriting and its target. A target
is a workload, so that it is no upstream. -/
structure KeepsRoute (d : Document) (out : Candidate) (raw : RawRoute) (route : Route) : Prop where
  domain : route.domain = raw.domain
  requests : ∀ request, Admits (renderMatcher raw.config) request ↔ Admits route.matcher request
  rewriting : rewriting raw.config = (none, none)
  upstream : raw.config.upstream = none
  target : match raw.config.service with
    | some service => route.workload = service.val ∧
        ∃ config ∈ d.manifest.services.rows, config.name = service ∧
          route.port = some (.int config.port.val)
    | none => ∃ workload, out.workloads.get? route.workload = some workload ∧
        workload.kind = .static ∧ out.artifacts.get? workload.artifact =
          some (workload.artifact, .staticRoot d.manifest.static_root)

/-- The conversion keeps what the document means. -/
structure Preserves (d : Document) (out : Candidate) : Prop where
  services : ∀ service ∈ d.manifest.services.rows, KeepsService d out service
  routes : List.Forall₂ (KeepsRoute d out) d.routes out.routes
  settings : ∀ setting, Declares d setting → Represents d out setting

/-- The conversion refuses a document with its own error, or keeps what it means. -/
def Faithful (d : Document) : Except Failure Candidate → Prop
  | .ok out => Preserves d out
  | .error (.manifestV2Error _) => True
  | .error (.keyError _) => False

/-- A setting that the copied keys of the services say already. -/
def Copied (d : Document) : Setting → Prop
  | .env name => ∀ service ∈ d.manifest.services.rows, ∃ env,
      (d.services service.name).env = some env ∧ name ∈ env.keys
  | .envFile source => ∀ service ∈ d.manifest.services.rows, ∃ items,
      (d.services service.name).env_files = some (.arr items) ∧ Json.str source ∈ items
  | _ => False

/-- A route that goes to a service, has no path condition and rewrites nothing. -/
def Bare (raw : RawRoute) : Prop :=
  raw.config.upstream = none ∧ raw.config.path = none ∧ raw.path_prefix = none ∧
    rewriting raw.config = (none, none)

/-- The documents that the conversion keeps: a service called `app` has the image of the first
service, routes go to services and match and rewrite nothing, and no setting is declared that the
services do not repeat. -/
structure Convertible (d : Document) : Prop where
  image : ∀ service ∈ d.manifest.services.rows, service.name.val = "app" →
    ∀ first, (sortedServices d.manifest).head? = some first →
      effectiveImage d.manifest service = effectiveImage d.manifest first
  routes : ∀ raw ∈ d.routes, Bare raw
  settings : ∀ setting, Declares d setting → Copied d setting

end Conversion

/-! ### Artifacts -/

section Artifacts

theorem append_image_inj {a b : String} : a ++ "-image" = b ++ "-image" ↔ a = b := by
  rw [← String.toList_inj, String.toList_append, String.toList_append, List.append_left_inj,
    String.toList_inj]

theorem app_image : "app" ++ "-image" = "app-image" := by decide

theorem own_ne_shared {service : Slug} (h : service.val ≠ "app") :
    service.val ++ "-image" ≠ "app-image" := by
  rw [← app_image, ne_eq, append_image_inj]
  exact h

theorem head?_append_of_ne_nil {services : List ServiceConfig} (h : services ≠ [])
    (service : ServiceConfig) : (services ++ [service]).head? = services.head? := by
  obtain ⟨first, rest, rfl⟩ := List.exists_cons_of_ne_nil h
  rfl

variable [DomainReader] {d : Document}

/-- The image of the shared artifact behind some services: that of the first, or of the service
called `app`, whose own artifact has the same name. -/
def sharedImage (d : Document) (services : List ServiceConfig) : Option NonBlank :=
  match services.find? fun service => service.name.val = "app" with
  | some service => effectiveImage d.manifest service
  | none => (services.head?.map (effectiveImage d.manifest)).getD none

/-- The workload of a service, with one of two artifacts: the shared one, or its own. -/
structure HasWorkload (d : Document) (services : List ServiceConfig) (state : Migrated)
    (service : ServiceConfig) (workload : Workload) : Prop where
  found : state.workloads.get? service.name.val = some workload
  kind : workload.kind = if d.routes.any fun route => route.config.service = some service.name
    then .web else .internal
  fields : workload.fields = copiedFields d service
  artifact : (workload.artifact = "app-image" ∧
      (some (effectiveImage d.manifest service) = services.head?.map (effectiveImage d.manifest) ∨
        effectiveImage d.manifest service = sharedImage d services)) ∨
    (workload.artifact = service.name.val ++ "-image" ∧ service.name.val ≠ "app" ∧
      state.artifacts.get? workload.artifact =
        some (workload.artifact, .image (effectiveImage d.manifest service)))

/-- What the loop has built from some services. -/
structure Built (d : Document) (services : List ServiceConfig) (state : Migrated) : Prop where
  shared : state.artifacts.get? "app-image" =
    if services = [] then none else some ("app-image", .image (sharedImage d services))
  workloads : ∀ service ∈ services, ∃ workload, HasWorkload d services state service workload
  first : ∀ first, services.head? = some first → ∃ workload,
    state.workloads.get? first.name.val = some workload ∧ workload.artifact = "app-image"
  only : ∀ workload ∈ state.workloads.rows, ∃ service ∈ services,
    workload.name = service.name.val ∧ workload.fields = copiedFields d service

/-- Only the service called `app` may change the shared image. -/
theorem sharedImage_append {services : List ServiceConfig} (h : services ≠ [])
    {service : ServiceConfig} (hname : service.name.val ≠ "app") :
    sharedImage d (services ++ [service]) = sharedImage d services := by
  rw [sharedImage, sharedImage, List.find?_append, head?_append_of_ne_nil h]
  cases services.find? fun service => service.name.val = "app" with
  | some other => rfl
  | none => simp [hname]

theorem sharedImage_append_app {services : List ServiceConfig} {service : ServiceConfig}
    (hname : service.name.val = "app") (hfresh : ∀ other ∈ services, other.name ≠ service.name) :
    sharedImage d (services ++ [service]) = effectiveImage d.manifest service ∧
      sharedImage d services = (services.head?.map (effectiveImage d.manifest)).getD none := by
  have hnone : services.find? (fun other => other.name.val = "app") = none := by
    rw [List.find?_eq_none]
    intro other hother heq
    have hval : other.name.val = service.name.val := by simpa [hname] using heq
    exact hfresh other hother (Refined.ext hval)
  constructor
  · rw [sharedImage, List.find?_append, hnone]
    simp [hname]
  · rw [sharedImage, hnone]

/-- The name of the artifact of the next service, and what the shared image is then. -/
theorem artifactName_cases {services : List ServiceConfig} {state : Migrated}
    (hstate : Built d services state) {service : ServiceConfig}
    (hfresh : ∀ other ∈ services, other.name ≠ service.name) :
    let image := effectiveImage d.manifest service
    let name := artifactName state.artifacts service.name image
    (name = "app-image" ∧ sharedImage d (services ++ [service]) = image) ∨
      (name = service.name.val ++ "-image" ∧ service.name.val ≠ "app" ∧ services ≠ []) := by
  intro image name
  by_cases hnil : services = []
  · refine Or.inl ⟨?_, ?_⟩
    · have hshared := hstate.shared
      rw [if_pos hnil] at hshared
      simp only [name, artifactName, hshared]
    · rw [hnil, sharedImage]
      by_cases hname : service.name.val = "app"
      · simp [hname, image]
      · simp [hname, image]
  · have hshared := hstate.shared
    rw [if_neg hnil] at hshared
    have hcases : name = if Artifact.image (sharedImage d services) = .image image then "app-image"
        else service.name.val ++ "-image" := by
      simp only [name, artifactName, hshared]
    by_cases hname : service.name.val = "app"
    · refine Or.inl ⟨?_, (sharedImage_append_app hname hfresh).1⟩
      rw [hcases, hname, app_image, ite_self]
    · by_cases heq : sharedImage d services = image
      · refine Or.inl ⟨?_, (sharedImage_append hnil hname).trans heq⟩
        rw [hcases, heq, if_pos rfl]
      · refine Or.inr ⟨?_, hname, hnil⟩
        rw [hcases, if_neg fun h => heq (Artifact.image.inj h)]

/-- One round of the loop. -/
theorem built_step {services : List ServiceConfig} {state : Migrated}
    (hstate : Built d services state) {service : ServiceConfig}
    (hfresh : ∀ other ∈ services, other.name ≠ service.name) :
    Built d (services ++ [service]) (migrateService d state service) := by
  have hother : ∀ other ∈ services, other.name.val ≠ service.name.val := fun other hmem heq =>
    hfresh other hmem (Refined.ext heq)
  have hcases := artifactName_cases hstate hfresh
  simp only at hcases
  generalize hname : artifactName state.artifacts service.name (effectiveImage d.manifest service) =
    name at hcases
  have hstep : migrateService d state service = {
      artifacts := state.artifacts.put (name, .image (effectiveImage d.manifest service))
      workloads := state.workloads.put {
        name := service.name.val
        kind := if d.routes.any fun route => route.config.service = some service.name then .web
          else .internal
        artifact := name
        fields := copiedFields d service } } := by
    rw [migrateService, hname]
  have hold : ∀ other ∈ services, (migrateService d state service).workloads.get? other.name.val =
      state.workloads.get? other.name.val := by
    intro other hmem
    rw [hstep]
    exact Table.get?_put_ne _ (hother other hmem)
  have hself : (migrateService d state service).workloads.get? service.name.val = some {
      name := service.name.val
      kind := if d.routes.any fun route => route.config.service = some service.name then .web
        else .internal
      artifact := name
      fields := copiedFields d service } := by
    rw [hstep]
    exact Table.get?_put_self _ _
  refine ⟨?_, ?_, ?_, ?_⟩
  · -- the shared artifact has the image that the next service gave it, or the one it had
    rw [if_neg (by simp), hstep]
    rcases hcases with ⟨rfl, hshared⟩ | ⟨rfl, happ, hnil⟩
    · rw [hshared]
      exact Table.get?_put_self _ _
    · have hne : "app-image" ≠ service.name.val ++ "-image" := fun h => own_ne_shared happ h.symm
      rw [sharedImage_append hnil happ]
      refine (Table.get?_put_ne state.artifacts hne).trans ?_
      rw [hstate.shared, if_neg hnil]
  · intro other hmem
    rcases List.mem_append.mp hmem with hmem | hmem
    · obtain ⟨workload, hworkload⟩ := hstate.workloads other hmem
      have hnil : services ≠ [] := List.ne_nil_of_mem hmem
      refine ⟨workload, (hold other hmem).trans hworkload.found, hworkload.kind, hworkload.fields, ?_⟩
      rcases hworkload.artifact with ⟨hartifact, himage⟩ | ⟨hartifact, happ, hget⟩
      · refine Or.inl ⟨hartifact, ?_⟩
        rw [head?_append_of_ne_nil hnil]
        by_cases happ : service.name.val = "app"
        · refine Or.inl ?_
          rw [(sharedImage_append_app happ hfresh).2] at himage
          obtain ⟨first, rest, rfl⟩ := List.exists_cons_of_ne_nil hnil
          simpa using himage
        · rwa [sharedImage_append hnil happ]
      · refine Or.inr ⟨hartifact, happ, ?_⟩
        have hne : workload.artifact ≠ name := by
          rw [hartifact]
          rcases hcases with ⟨rfl, -⟩ | ⟨rfl, -, -⟩
          · exact own_ne_shared happ
          · exact fun h => hother other hmem (append_image_inj.mp h)
        rw [hstep, Table.get?_put_ne _ hne, hget]
    · obtain rfl := List.mem_singleton.mp hmem
      refine ⟨_, hself, rfl, rfl, ?_⟩
      rcases hcases with ⟨rfl, hshared⟩ | ⟨rfl, happ, -⟩
      · exact Or.inl ⟨rfl, Or.inr hshared.symm⟩
      · refine Or.inr ⟨rfl, happ, ?_⟩
        rw [hstep]
        exact Table.get?_put_self _ _
  · intro first hfirst
    by_cases hnil : services = []
    · rw [hnil] at hfirst
      obtain rfl : service = first := by simpa using hfirst
      refine ⟨_, hself, ?_⟩
      rcases hcases with ⟨rfl, -⟩ | ⟨-, -, hne⟩
      · rfl
      · exact absurd hnil hne
    · rw [head?_append_of_ne_nil hnil] at hfirst
      obtain ⟨workload, hget, hartifact⟩ := hstate.first first hfirst
      exact ⟨workload, (hold first (List.mem_of_mem_head? hfirst)).trans hget, hartifact⟩
  · intro workload hmem
    rw [hstep, Table.mem_put] at hmem
    rcases hmem with rfl | ⟨hmem, -⟩
    · exact ⟨service, List.mem_append_right _ (List.mem_singleton_self _), rfl, rfl⟩
    · obtain ⟨other, hother, hrest⟩ := hstate.only workload hmem
      exact ⟨other, List.mem_append_left _ hother, hrest⟩

theorem built_empty : Built d [] ⟨.empty, .empty⟩ :=
  ⟨rfl, fun _ h => absurd h List.not_mem_nil, fun _ h => by simp at h,
    fun _ h => absurd h (by simp)⟩

/-- The whole loop, over services of different names. -/
theorem built_migrateServices {services : List ServiceConfig}
    (h : (services.map ServiceConfig.name).Nodup) : Built d services (migrateServices d services) := by
  induction services using List.reverseRecOn with
  | nil => exact built_empty
  | append_singleton services service ih =>
      rw [List.map_append, List.map_singleton, List.nodup_append] at h
      have hfresh : ∀ other ∈ services, other.name ≠ service.name := fun other hmem =>
        h.2.2 _ (List.mem_map_of_mem hmem) _ (List.mem_singleton_self _)
      rw [migrateServices, List.foldl_append]
      exact built_step (ih h.1) hfresh

/-- The artifacts are those of the services exactly when a service called `app` has the image of
the first one. -/
theorem artifacts_iff {services : List ServiceConfig} {state : Migrated}
    (hstate : Built d services state) (hnames : (services.map ServiceConfig.name).Nodup) :
    (∀ service ∈ services, ∃ workload, state.workloads.get? service.name.val = some workload ∧
      workload.fields = copiedFields d service ∧ state.artifacts.get? workload.artifact =
        some (workload.artifact, .image (effectiveImage d.manifest service))) ↔
      ∀ service ∈ services, service.name.val = "app" → ∀ first, services.head? = some first →
        effectiveImage d.manifest service = effectiveImage d.manifest first := by
  have hshared : services ≠ [] → state.artifacts.get? "app-image" =
      some ("app-image", .image (sharedImage d services)) := by
    intro hnil
    rw [hstate.shared, if_neg hnil]
  have happ : ∀ service ∈ services, service.name.val = "app" →
      sharedImage d services = effectiveImage d.manifest service := by
    intro service hmem hname
    have hsome : (services.find? fun other => other.name.val = "app").isSome = true := by
      rw [List.find?_isSome]
      exact ⟨service, hmem, by simp [hname]⟩
    obtain ⟨other, hother⟩ := Option.isSome_iff_exists.mp hsome
    have hval : other.name.val = "app" := by simpa using List.find?_some hother
    have heq : other = service :=
      List.inj_on_of_nodup_map hnames (List.mem_of_find?_eq_some hother) hmem
        (Refined.ext (hval.trans hname.symm))
    rw [sharedImage, hother, heq]
  constructor
  · intro h service hmem hname first hfirst
    obtain ⟨workload, hget, hartifact⟩ := hstate.first first hfirst
    obtain ⟨workload', hget', -, hartifact'⟩ := h first (List.mem_of_mem_head? hfirst)
    rw [hget, Option.some.injEq] at hget'
    rw [← hget', hartifact, hshared (List.ne_nil_of_mem hmem), happ service hmem hname] at hartifact'
    simpa using hartifact'
  · intro h service hmem
    obtain ⟨workload, hworkload⟩ := hstate.workloads service hmem
    refine ⟨workload, hworkload.found, hworkload.fields, ?_⟩
    have hnil : services ≠ [] := List.ne_nil_of_mem hmem
    rcases hworkload.artifact with ⟨hartifact, himage⟩ | ⟨-, -, hget⟩
    · rw [hartifact, hshared hnil]
      -- the shared image is that of the first service
      have hfirst : some (sharedImage d services) = services.head?.map (effectiveImage d.manifest) := by
        obtain ⟨first, rest, rfl⟩ := List.exists_cons_of_ne_nil hnil
        rw [sharedImage]
        cases hfind : (first :: rest).find? fun other => other.name.val = "app" with
        | none => rfl
        | some other =>
            have hval : other.name.val = "app" := by simpa using List.find?_some hfind
            exact congrArg some (h other (List.mem_of_find?_eq_some hfind) hval first rfl)
      have heq : effectiveImage d.manifest service = sharedImage d services := by
        rcases himage with himage | himage
        · rw [← hfirst] at himage
          exact Option.some.inj himage
        · exact himage
      rw [heq]
    · exact hget

end Artifacts

/-! ### Requests -/

section Requests

theorem admits_none (request : List Char) : Admits none request := fun _ h => by cases h

theorem admits_some {patterns : List PathPattern} {request : List Char} :
    Admits (some patterns) request ↔ ∃ pattern ∈ patterns, pattern.Matches request :=
  ⟨fun h => h patterns rfl, fun h _ heq => Option.some.inj heq ▸ h⟩

/-- A text and one character more. -/
theorem append_ne_self (cs : List Char) : cs ++ ['x'] ≠ cs := by
  intro h
  have hlength := congrArg List.length h
  simp at hlength

variable [DomainReader] {raw : RawRoute} {route : Route}

/-- A prefix in version 1 ends at a segment, in version 2 anywhere. -/
theorem requests_prefix (raw : RawRoute) {pre : String} (hpre : raw.path_prefix = some pre) :
    ¬ ∀ request, Admits (renderMatcher raw.config) request ↔
      Admits (some [.under pre.toList]) request := by
  intro h
  have hparsed := raw.parsed
  rw [hpre] at hparsed
  obtain ⟨path, hpath, hconfig⟩ := hparsed
  have hunder (request : List Char) : Admits (some [.under pre.toList]) request ↔
      pre.toList <+: request := by
    simp [admits_some, PathPattern.Matches]
  simp only [hunder] at h
  cases hexact : raw.config.path with
  | some exact =>
      -- one request against all that begin with the prefix
      have hone (request : List Char) : Admits (renderMatcher raw.config) request ↔
          request = exact.toList := by
        simp [renderMatcher, hexact, admits_some, PathPattern.Matches]
      have hself := (hone _).mp ((h pre.toList).mpr (List.prefix_refl _))
      have hmore := (hone _).mp ((h (pre.toList ++ ['x'])).mpr (List.prefix_append _ _))
      rw [← hself] at hmore
      exact append_ne_self _ hmore
  | none =>
      by_cases hstripped : rstripSlash path.value = []
      · -- no prefix is the root
        have hroot (request : List Char) : Admits (renderMatcher raw.config) request ↔
            ['/'] <+: request := by
          simp [renderMatcher, hexact, hconfig, hstripped, admits_some, PathPattern.Matches]
        have hshort : pre.toList <+: ['/'] := (h _).mp ((hroot _).mpr (List.prefix_refl _))
        rcases List.prefix_cons_iff.mp hshort with hnil | ⟨rest, hrest, hrestnil⟩
        · have herror : (HttpPath.parseHttpPath .prefixed []).isOk = false := by decide
          rw [← hnil, hpath] at herror
          cases herror
        · rw [List.prefix_nil.mp hrestnil] at hrest
          have herror : (HttpPath.parseHttpPath .prefixed ['/']).isOk = false := by decide
          rw [← hrest, hpath] at herror
          cases herror
      · have htwo (request : List Char) : Admits (renderMatcher raw.config) request ↔
            request = rstripSlash path.value ∨ rstripSlash path.value ++ ['/'] <+: request := by
          simp [renderMatcher, hexact, hconfig, hstripped, admits_some, PathPattern.Matches]
        have hself := (h _).mp ((htwo (rstripSlash path.value)).mpr (Or.inl rfl))
        have hmore := (htwo _).mp ((h (rstripSlash path.value ++ ['x'])).mpr
          (hself.trans (List.prefix_append _ _)))
        rcases hmore with heq | hsegment
        · exact append_ne_self _ heq
        · rw [List.prefix_append_right_inj] at hsegment
          exact absurd hsegment (by decide)

/-- A route keeps its requests exactly when it has no path condition. -/
theorem requests_iff (hroute : route.path_prefix = raw.path_prefix) :
    (∀ request, Admits (renderMatcher raw.config) request ↔ Admits route.matcher request) ↔
      raw.config.path = none ∧ raw.path_prefix = none := by
  rw [Route.matcher, hroute]
  cases hpre : raw.path_prefix with
  | some pre => exact iff_of_false ( requests_prefix raw hpre) (by simp)
  | none =>
      have hparsed := raw.parsed
      rw [hpre] at hparsed
      cases hexact : raw.config.path with
      | none =>
          refine iff_of_true (fun request => ?_) ⟨rfl, rfl⟩
          have hnone : renderMatcher raw.config = none := by
            simp only [renderMatcher, hexact, hparsed]
          rw [hnone]
          rfl
      | some exact =>
          refine iff_of_false (fun h => ?_) (by simp)
          have hone := (h (exact.toList ++ ['x'])).mpr (admits_none _)
          simp only [renderMatcher, hexact, admits_some, List.mem_singleton, exists_eq_left,
            PathPattern.Matches] at hone
          exact append_ne_self _ hone

end Requests

/-! ### Accepted documents -/

section Accepted

variable {m : Manifest}

theorem forM_eq_ok {α : Type} {f : α → Except String Unit} {l : List α} :
    l.forM f = .ok () ↔ ∀ a ∈ l, f a = .ok () := by
  induction l with
  | nil => exact iff_of_true rfl fun _ h => absurd h List.not_mem_nil
  | cons a l ih =>
      have hcons : (a :: l).forM f = (f a >>= fun _ => l.forM f) := rfl
      rw [hcons, seq_eq_ok, ih, List.forall_mem_cons]

/-- Routes of a static application say nothing but their domains. -/
theorem static_routes (h : m.Accepted) (hkind : m.kind = .static) :
    m.services.rows = [] ∧ ∀ route ∈ m.routes, route.service = none ∧ route.upstream = none ∧
      route.path = none ∧ route.path_prefix = none ∧ route.strip_prefix = none ∧
      route.rewrite_prefix = none := by
  obtain ⟨hvalid, -, hroutes, -⟩ := h.parts
  constructor
  · rw [validateKind] at hvalid
    have hservices := (seq_eq_ok.mp (seq_eq_ok.mp (seq_eq_ok.mp hvalid).2).2).1
    simpa [rejectIf_eq_ok, hkind] using hservices
  · intro route hroute
    rw [validateRoutes, if_neg (by simp [hkind, Kind.proxyCapable]), validateNonProxyRoutes,
      forM_eq_ok] at hroutes
    obtain ⟨htarget, hpath⟩ := seq_eq_ok.mp (hroutes route hroute)
    rw [rejectIf_eq_ok] at htarget hpath
    simpa [and_assoc] using And.intro htarget hpath

theorem validateProxyRoutes_ok {routes : List RouteConfig} {seen : List (Domain × RouteMatch)}
    (h : validateProxyRoutes m routes seen = .ok ()) :
    ∀ route ∈ routes, validateProxyRoute m route = .ok () := by
  induction routes generalizing seen with
  | nil => exact fun _ h => absurd h List.not_mem_nil
  | cons route rest ih =>
      rw [validateProxyRoutes] at h
      obtain ⟨hroute, h⟩ := seq_eq_ok.mp h
      exact List.forall_mem_cons.mpr ⟨hroute, ih (seq_eq_ok.mp h).2⟩

/-- Routes of services have a service of the manifest, or an upstream. -/
theorem service_routes (h : m.Accepted) (hkind : m.kind.serviceBased = true) :
    m.services.rows ≠ [] ∧ ∀ route ∈ m.routes,
      (∀ name, route.service = some name → ∃ service ∈ m.services.rows, service.name = name) ∧
      (route.service = none → route.upstream.isSome = true) := by
  obtain ⟨hvalid, -, hroutes, -⟩ := h.parts
  constructor
  · rw [validateKind] at hvalid
    have hservices := (seq_eq_ok.mp hvalid).1
    simpa [rejectIf_eq_ok, hkind] using hservices
  · intro route hroute
    have hproxy : m.kind.proxyCapable = true := by
      cases hk : m.kind <;> simp_all [Kind.serviceBased, Kind.proxyCapable]
    rw [validateRoutes, if_pos hproxy] at hroutes
    have hone := validateProxyRoutes_ok hroutes route hroute
    rw [validateProxyRoute] at hone
    obtain ⟨-, hone⟩ := seq_eq_ok.mp hone
    obtain ⟨-, hone⟩ := seq_eq_ok.mp hone
    obtain ⟨-, hone⟩ := seq_eq_ok.mp hone
    obtain ⟨hknown, hone⟩ := seq_eq_ok.mp hone
    have htarget := (seq_eq_ok.mp hone).1
    refine ⟨fun name hname => ?_, fun hnone => ?_⟩
    · rw [hname] at hknown
      have hhas : m.hasService name = true := by
        have hrejected : rejectIf (!m.hasService name) _ = .ok () := hknown
        simpa [rejectIf_eq_ok] using hrejected
      obtain ⟨service, hservice⟩ := Option.isSome_iff_exists.mp hhas
      exact ⟨service, Table.mem_of_get? hservice, Table.key_of_get? hservice⟩
    · rw [rejectIf_eq_ok, hkind, hnone] at htarget
      cases hup : route.upstream with
      | none => simp [hup] at htarget
      | some upstream => rfl

end Accepted

/-! ### The whole document -/

section Document

variable [DomainReader] {d : Document}

theorem mem_sortedServices {service : ServiceConfig} :
    service ∈ sortedServices d.manifest ↔ service ∈ d.manifest.services.rows :=
  List.mem_insertionSort _

theorem nodup_sortedServices : ((sortedServices d.manifest).map ServiceConfig.name).Nodup :=
  ((List.perm_insertionSort _ _).map _).nodup_iff.mpr d.manifest.services.unique

theorem mem_routes {raw : RawRoute} (h : raw ∈ d.routes) : raw.config ∈ d.manifest.routes := by
  rw [d.loaded]
  exact List.mem_map_of_mem h

/-- The document with the results of the loops in it. -/
def converted (d : Document) (routes : List Route) : Candidate where
  app := d.manifest.app
  environment := d.manifest.environment.getD .staging
  artifacts := (migrateWorkloads d).1.artifacts
  workloads := (migrateWorkloads d).1.workloads
  routes := routes
  strategy :=
    if d.manifest.kind = .static then "static_atomic"
    else if (migrateWorkloads d).1.workloads.rows.any fun workload => workload.kind = .web then
      "blue_green"
    else "recreate"
  secrets := d.required_env.map
    (migrateSecret d.manifest.app (d.manifest.environment.getD .staging))

/-- The kinds that the conversion takes. -/
def Kind.Migrates (kind : Kind) : Prop := kind = .service ∨ kind = .multiService ∨ kind = .static

theorem migrate_of_migrates (h : Kind.Migrates d.manifest.kind) :
    migrateV1Document d =
      (d.routes.zipIdx.mapM (migrateRoute (migrateWorkloads d).1 (migrateWorkloads d).2) >>=
        fun routes => .ok (converted d routes)) := by
  rw [migrateV1Document]
  exact if_pos h

/-- The workload that a route of the document goes to. -/
def targetOf (d : Document) (raw : RawRoute) : String :=
  raw.config.service.elim (migrateWorkloads d).2 Refined.val

/-- The result for a document all of whose targets are workloads. -/
theorem migrate_eq_ok (h : Kind.Migrates d.manifest.kind)
    (htargets : ∀ raw ∈ d.routes, ∃ workload,
      (migrateWorkloads d).1.workloads.get? (targetOf d raw) = some workload) :
    ∃ routes, migrateV1Document d = .ok (converted d routes) ∧
      List.Forall₂ (fun raw route => ∃ index,
        migrateRoute (migrateWorkloads d).1 (migrateWorkloads d).2 (raw, index) = .ok route)
        d.routes routes := by
  have hroutes : ∃ routes, d.routes.zipIdx.mapM
      (migrateRoute (migrateWorkloads d).1 (migrateWorkloads d).2) = .ok routes := by
    refine Results.mapM_isOk_iff.mpr fun entry hentry => ?_
    have hmem : entry.1 ∈ d.routes := by
      have hfst := List.mem_map_of_mem (f := Prod.fst) hentry
      rwa [List.zipIdx_map_fst] at hfst
    obtain ⟨workload, hworkload⟩ := htargets entry.1 hmem
    rw [targetOf] at hworkload
    simp only [migrateRoute, hworkload]
    exact ⟨_, rfl⟩
  obtain ⟨routes, hroutes⟩ := hroutes
  refine ⟨routes, ?_, ?_⟩
  · rw [migrate_of_migrates h, hroutes]
    rfl
  · have hall := Results.mapM_eq_ok.mp hroutes
    rw [← List.zipIdx_map_fst 0 d.routes, List.forall₂_map_left_iff]
    exact hall.imp fun entry route hroute => ⟨entry.2, hroute⟩

/-! What the loop over the services makes of an accepted document. -/

theorem built_sortedServices : Built d (sortedServices d.manifest)
    (migrateServices d (sortedServices d.manifest)) :=
  built_migrateServices nodup_sortedServices

theorem ne_static_of_serviceBased (h : d.manifest.kind.serviceBased = true) :
    d.manifest.kind ≠ .static := by
  intro hstatic
  rw [hstatic] at h
  cases h

theorem migrateWorkloads_of_serviceBased (h : d.manifest.kind.serviceBased = true) :
    (migrateWorkloads d).1 = migrateServices d (sortedServices d.manifest) := by
  rw [migrateWorkloads, if_neg (ne_static_of_serviceBased h)]

theorem migrateWorkloads_of_static (h : d.manifest.kind = .static) : migrateWorkloads d =
    (⟨Table.empty.put ("static", .staticRoot d.manifest.static_root),
      Table.empty.put ⟨"static", .static, "static", []⟩⟩, "static") := by
  rw [migrateWorkloads, if_pos h]

theorem migrates_cases (h : Kind.Migrates d.manifest.kind) :
    d.manifest.kind.serviceBased = true ∨ d.manifest.kind = .static := by
  rcases h with hkind | hkind | hkind
  · exact Or.inl (by rw [hkind]; rfl)
  · exact Or.inl (by rw [hkind]; rfl)
  · exact Or.inr hkind

/-- Every route of an accepted document goes to a workload. -/
theorem targets (h : d.manifest.Accepted) (hkind : Kind.Migrates d.manifest.kind) :
    ∀ raw ∈ d.routes, ∃ workload,
      (migrateWorkloads d).1.workloads.get? (targetOf d raw) = some workload := by
  intro raw hraw
  rcases migrates_cases hkind with hservices | hstatic
  · obtain ⟨hnil, hroutes⟩ := service_routes h hservices
    have hbuilt := built_sortedServices (d := d)
    rw [targetOf, migrateWorkloads_of_serviceBased hservices]
    cases hservice : raw.config.service with
    | some name =>
        obtain ⟨service, hmem, rfl⟩ := (hroutes _ (mem_routes hraw)).1 name hservice
        obtain ⟨workload, hworkload⟩ := hbuilt.workloads service (mem_sortedServices.mpr hmem)
        exact ⟨workload, hworkload.found⟩
    | none =>
        -- the first service is the target
        obtain ⟨service, hmem⟩ := List.exists_mem_of_ne_nil _ hnil
        have hsorted : sortedServices d.manifest ≠ [] :=
          List.ne_nil_of_mem (mem_sortedServices.mpr hmem)
        obtain ⟨first, rest, hcons⟩ := List.exists_cons_of_ne_nil hsorted
        have htarget : (migrateWorkloads d).2 = first.name.val := by
          rw [migrateWorkloads, if_neg (ne_static_of_serviceBased hservices), hcons]
          rfl
        obtain ⟨workload, hget, -⟩ := hbuilt.first first (by rw [hcons]; rfl)
        exact ⟨workload, by rw [Option.elim_none, htarget]; exact hget⟩
  · have hservice := ((static_routes h hstatic).2 _ (mem_routes hraw)).1
    rw [targetOf, hservice, migrateWorkloads_of_static hstatic]
    exact ⟨_, Table.get?_put_self _ _⟩

/-- The services are kept exactly when the shared artifact has one image. -/
theorem services_iff (hkind : d.manifest.kind.serviceBased = true) (routes : List Route) :
    (∀ service ∈ d.manifest.services.rows, KeepsService d (converted d routes) service) ↔
      ∀ service ∈ d.manifest.services.rows, service.name.val = "app" →
        ∀ first, (sortedServices d.manifest).head? = some first →
          effectiveImage d.manifest service = effectiveImage d.manifest first := by
  have hiff := artifacts_iff (built_sortedServices (d := d)) nodup_sortedServices
  simp only [mem_sortedServices] at hiff
  rw [← hiff]
  simp only [KeepsService, converted, migrateWorkloads_of_serviceBased hkind]

/-! The routes. -/

/-- What a route of the result is. -/
theorem migrateRoute_eq_ok {state : Migrated} {target_name : String} {entry : RawRoute × Nat}
    {route : Route} : migrateRoute state target_name entry = .ok route ↔
      ∃ workload, state.workloads.get? (entry.1.config.service.elim target_name Refined.val) =
          some workload ∧
        route = {
          name := "route-" ++ toString (entry.2 + 1)
          domain := entry.1.domain
          workload := entry.1.config.service.elim target_name Refined.val
          port := if workload.kind = .web then workload.fields.lookup "port" else none
          path_prefix := RawRoute.path_prefix entry.1 } := by
  simp only [migrateRoute]
  cases state.workloads.get? (entry.1.config.service.elim target_name Refined.val) with
  | none => simp
  | some workload => simp [eq_comm]

theorem lookup_port (service : ServiceConfig) :
    (copiedFields d service).lookup "port" = some (.int service.port.val) := by
  rw [copiedFields]
  cases (d.services service.name).command with
  | none => rfl
  | some command => rfl

/-- The target of a route is kept, when the route has one. -/
theorem keepsTarget (h : d.manifest.Accepted) (hkind : Kind.Migrates d.manifest.kind)
    {raw : RawRoute} (hraw : raw ∈ d.routes) (hupstream : raw.config.upstream = none) {index : Nat}
    {route : Route} (hroute : migrateRoute (migrateWorkloads d).1 (migrateWorkloads d).2
      (raw, index) = .ok route) (routes : List Route) :
    match raw.config.service with
    | some service => route.workload = service.val ∧
        ∃ config ∈ d.manifest.services.rows, config.name = service ∧
          route.port = some (.int config.port.val)
    | none => ∃ workload, (converted d routes).workloads.get? route.workload = some workload ∧
        workload.kind = .static ∧ (converted d routes).artifacts.get? workload.artifact =
          some (workload.artifact, .staticRoot d.manifest.static_root) := by
  obtain ⟨workload, hget, rfl⟩ := migrateRoute_eq_ok.mp hroute
  simp only at hget ⊢
  rcases migrates_cases hkind with hservices | hstatic
  · obtain ⟨hknown, hsome⟩ := (service_routes h hservices).2 _ (mem_routes hraw)
    cases hservice : raw.config.service with
    | none =>
        have hup := hsome hservice
        rw [hupstream] at hup
        cases hup
    | some name =>
        obtain ⟨service, hmem, rfl⟩ := hknown name hservice
        obtain ⟨workload', hworkload⟩ :=
          (built_sortedServices (d := d)).workloads service (mem_sortedServices.mpr hmem)
        rw [hservice, Option.elim_some, migrateWorkloads_of_serviceBased hservices,
          hworkload.found, Option.some.injEq] at hget
        -- a routed service is a web workload
        have hweb : workload.kind = .web := by
          rw [← hget, hworkload.kind, if_pos]
          exact List.any_eq_true.mpr ⟨raw, hraw, by simp [hservice]⟩
        refine ⟨rfl, service, hmem, rfl, ?_⟩
        rw [if_pos hweb, ← hget, hworkload.fields, lookup_port]
  · rw [((static_routes h hstatic).2 _ (mem_routes hraw)).1]
    simp only [converted, Option.elim_none, migrateWorkloads_of_static hstatic]
    exact ⟨_, Table.get?_put_self _ _, rfl, Table.get?_put_self _ _⟩

/-- A route is kept exactly when it is bare. -/
theorem keepsRoute_iff (h : d.manifest.Accepted) (hkind : Kind.Migrates d.manifest.kind)
    {raw : RawRoute} (hraw : raw ∈ d.routes) {index : Nat} {route : Route}
    (hroute : migrateRoute (migrateWorkloads d).1 (migrateWorkloads d).2 (raw, index) = .ok route)
    (routes : List Route) : KeepsRoute d (converted d routes) raw route ↔ Bare raw := by
  obtain ⟨workload, -, heq⟩ := migrateRoute_eq_ok.mp hroute
  have hpath : route.path_prefix = raw.path_prefix := by rw [heq]
  have hdomain : route.domain = raw.domain := by rw [heq]
  constructor
  · intro hkeeps
    obtain ⟨hexact, hprefix⟩ := (requests_iff hpath).mp hkeeps.requests
    exact ⟨hkeeps.upstream, hexact, hprefix, hkeeps.rewriting⟩
  · rintro ⟨hupstream, hexact, hprefix, hrewriting⟩
    exact {
      domain := hdomain
      requests := (requests_iff hpath).mpr ⟨hexact, hprefix⟩
      rewriting := hrewriting
      upstream := hupstream
      target := keepsTarget h hkind hraw hupstream hroute routes }

/-- All the routes are. -/
theorem routes_iff (h : d.manifest.Accepted) (hkind : Kind.Migrates d.manifest.kind)
    {routes : List Route} (hroutes : List.Forall₂ (fun raw route => ∃ index,
      migrateRoute (migrateWorkloads d).1 (migrateWorkloads d).2 (raw, index) = .ok route)
      d.routes routes) :
    List.Forall₂ (KeepsRoute d (converted d routes)) d.routes routes ↔
      ∀ raw ∈ d.routes, Bare raw := by
  rw [List.forall₂_iff_get] at hroutes ⊢
  obtain ⟨hlength, hroutes⟩ := hroutes
  have hone (i : Nat) (hi : i < d.routes.length) (hi' : i < routes.length) :
      KeepsRoute d (converted d routes) (d.routes.get ⟨i, hi⟩) (routes.get ⟨i, hi'⟩) ↔
        Bare (d.routes.get ⟨i, hi⟩) := by
    obtain ⟨index, hroute⟩ := hroutes i hi hi'
    exact keepsRoute_iff h hkind (List.get_mem _ _) hroute routes
  constructor
  · rintro ⟨-, hkeeps⟩ raw hraw
    obtain ⟨⟨i, hi⟩, rfl⟩ := List.mem_iff_get.mp hraw
    exact (hone i hi (hlength ▸ hi)).mp (hkeeps i hi (hlength ▸ hi))
  · intro hbare
    exact ⟨hlength, fun i hi hi' => (hone i hi hi').mpr (hbare _ (List.get_mem _ _))⟩

/-! The settings. -/

def copiedKeys : List String := ["command", "port", "env", "env_files"]

theorem keys_copiedFields (service : ServiceConfig) :
    ∀ key ∈ (copiedFields d service).map Prod.fst, key ∈ copiedKeys := by
  intro key hkey
  rw [copiedFields] at hkey
  cases hcommand : (d.services service.name).command <;>
    cases henv : (d.services service.name).env <;>
      cases hfiles : (d.services service.name).env_files <;>
        simp_all [copiedKeys]
  all_goals tauto

theorem lookup_env (service : ServiceConfig) :
    (copiedFields d service).lookup "env" = (d.services service.name).env := by
  rw [copiedFields]
  cases (d.services service.name).command <;> cases (d.services service.name).env <;>
    cases (d.services service.name).env_files <;> rfl

theorem lookup_env_files (service : ServiceConfig) :
    (copiedFields d service).lookup "env_files" = (d.services service.name).env_files := by
  rw [copiedFields]
  cases (d.services service.name).command <;> cases (d.services service.name).env <;>
    cases (d.services service.name).env_files <;> rfl

/-- The workloads of the result have the copied keys of a service, or none. -/
theorem workloads_cases (hkind : Kind.Migrates d.manifest.kind) :
    ∀ workload ∈ (migrateWorkloads d).1.workloads.rows,
      workload.fields = [] ∨ ∃ service, workload.fields = copiedFields d service := by
  intro workload hmem
  rcases migrates_cases hkind with hservices | hstatic
  · rw [migrateWorkloads_of_serviceBased hservices] at hmem
    obtain ⟨service, -, -, hfields⟩ := built_sortedServices.only workload hmem
    exact Or.inr ⟨service, hfields⟩
  · rw [migrateWorkloads_of_static hstatic, Table.mem_put] at hmem
    rcases hmem with rfl | ⟨hmem, -⟩
    · exact Or.inl rfl
    · exact absurd hmem List.not_mem_nil

/-- No workload has a key beside the copied ones. -/
theorem not_hasKey (hkind : Kind.Migrates d.manifest.kind) {keys : List String}
    (hkeys : keys.all (fun key => !copiedKeys.contains key) = true) :
    ∀ workload ∈ (migrateWorkloads d).1.workloads.rows, ¬ workload.HasKey keys := by
  rintro workload hmem ⟨key, hkey, hfound⟩
  have hnot : key ∉ copiedKeys := by simpa using List.all_eq_true.mp hkeys key hkey
  rcases workloads_cases hkind workload hmem with hfields | ⟨service, hfields⟩
  · rw [hfields] at hfound
    exact absurd hfound List.not_mem_nil
  · rw [hfields] at hfound
    exact hnot (keys_copiedFields service key hfound)

/-- What all workloads say, all services do. -/
theorem forall_workloads_iff (hkind : d.manifest.kind.serviceBased = true)
    {p : Mapping → Prop} :
    (∀ workload ∈ (migrateWorkloads d).1.workloads.rows, p workload.fields) ↔
      ∀ service ∈ d.manifest.services.rows, p (copiedFields d service) := by
  have hbuilt := built_sortedServices (d := d)
  rw [migrateWorkloads_of_serviceBased hkind]
  constructor
  · intro h service hmem
    obtain ⟨workload, hworkload⟩ := hbuilt.workloads service (mem_sortedServices.mpr hmem)
    rw [← hworkload.fields]
    exact h workload (Table.mem_of_get? hworkload.found)
  · intro h workload hmem
    obtain ⟨service, hservice, -, hfields⟩ := hbuilt.only workload hmem
    rw [hfields]
    exact h service (mem_sortedServices.mp hservice)

/-- The domains of the result are those of the document. -/
theorem domain_of_mem {routes : List Route} (hroutes : List.Forall₂ (fun raw route => ∃ index,
      migrateRoute (migrateWorkloads d).1 (migrateWorkloads d).2 (raw, index) = .ok route)
      d.routes routes) {route : Route} (hroute : route ∈ routes) :
    ∃ domain ∈ d.manifest.routes.map RouteConfig.domain, parseDomain route.domain = some domain := by
  rw [List.forall₂_iff_get] at hroutes
  obtain ⟨hlength, hroutes⟩ := hroutes
  obtain ⟨⟨i, hi⟩, rfl⟩ := List.mem_iff_get.mp hroute
  obtain ⟨index, heq⟩ := hroutes i (hlength ▸ hi) hi
  obtain ⟨workload, -, heq⟩ := migrateRoute_eq_ok.mp heq
  have hraw : d.routes.get ⟨i, hlength ▸ hi⟩ ∈ d.routes := List.get_mem _ _
  refine ⟨_, List.mem_map_of_mem (mem_routes hraw), ?_⟩
  rw [heq]
  exact (d.routes.get ⟨i, hlength ▸ hi⟩).parsed_domain

/-- A declared setting is in the result exactly when the services repeat it. -/
theorem represents_iff (hkind : Kind.Migrates d.manifest.kind) {routes : List Route}
    (hroutes : List.Forall₂ (fun raw route => ∃ index,
      migrateRoute (migrateWorkloads d).1 (migrateWorkloads d).2 (raw, index) = .ok route)
      d.routes routes) {setting : Setting} (h : Declares d setting) :
    Represents d (converted d routes) setting ↔ Copied d setting := by
  have hno {keys : List String} (hkeys : keys.all (fun key => !copiedKeys.contains key) = true) :
      ¬ ∃ workload ∈ (converted d routes).workloads.rows, workload.HasKey keys := by
    rintro ⟨workload, hmem, hhas⟩
    exact not_hasKey hkind hkeys workload hmem hhas
  cases setting with
  | healthcheck service =>
      refine iff_of_false ?_ id
      rintro ⟨workload, hmem, -, hhas⟩
      exact hno (by decide) ⟨workload, hmem, hhas⟩
  | mounts service =>
      refine iff_of_false ?_ id
      rintro ⟨workload, hmem, -, hhas⟩
      exact hno (by decide) ⟨workload, hmem, hhas⟩
  | hostPort service => exact Iff.rfl
  | dataVolumes => exact iff_of_false (hno (by decide)) id
  | env name =>
      have hall := forall_workloads_iff (d := d) h.1
        (p := fun fields => ∃ env, fields.lookup "env" = some env ∧ name ∈ env.keys)
      simp only [lookup_env] at hall
      exact hall
  | envFile source =>
      have hall := forall_workloads_iff (d := d) h.1
        (p := fun fields => ∃ items, fields.lookup "env_files" = some (.arr items) ∧
          Json.str source ∈ items)
      simp only [lookup_env_files] at hall
      exact hall
  | memory => exact iff_of_false (hno (by decide)) id
  | addons => exact iff_of_false (hno (by decide)) id
  | networking => exact iff_of_false (hno (by decide)) id
  | edge => exact Iff.rfl
  | console =>
      refine iff_of_false ?_ id
      rintro ⟨console, admin, hconsole, hadmin, route, hroute, hparsed⟩
      obtain ⟨-, console', admin', hconsole', hadmin', hnew⟩ := h
      obtain ⟨domain, hdomain, hparsed'⟩ := domain_of_mem hroutes hroute
      rw [hconsole, Option.some.injEq] at hconsole'
      rw [← hconsole', hadmin, Option.some.injEq] at hadmin'
      rw [hparsed, Option.some.injEq] at hparsed'
      rw [← hadmin', hparsed'] at hnew
      exact hnew hdomain

theorem images_iff (h : d.manifest.Accepted) (hkind : Kind.Migrates d.manifest.kind)
    (routes : List Route) :
    (∀ service ∈ d.manifest.services.rows, KeepsService d (converted d routes) service) ↔
      ∀ service ∈ d.manifest.services.rows, service.name.val = "app" →
        ∀ first, (sortedServices d.manifest).head? = some first →
          effectiveImage d.manifest service = effectiveImage d.manifest first := by
  rcases migrates_cases hkind with hservices | hstatic
  · exact services_iff hservices routes
  · rw [(static_routes h hstatic).1]
    exact iff_of_true (fun _ hmem => absurd hmem List.not_mem_nil)
      (fun _ hmem => absurd hmem List.not_mem_nil)

/-- An accepted document is converted to one of the same meaning exactly when it is of the kind
that loses nothing. -/
theorem faithful_iff (h : d.manifest.Accepted) (hkind : Kind.Migrates d.manifest.kind) :
    Faithful d (migrateV1Document d) ↔ Convertible d := by
  obtain ⟨routes, hout, hroutes⟩ := migrate_eq_ok hkind (targets h hkind)
  rw [hout]
  have himages := images_iff h hkind routes
  have hbare := routes_iff h hkind hroutes
  have hsettings {setting : Setting} (hdeclares : Declares d setting) :=
    represents_iff hkind hroutes hdeclares
  constructor
  · intro hkeeps
    exact {
      image := himages.mp hkeeps.services
      routes := hbare.mp hkeeps.routes
      settings := fun setting hdeclares => (hsettings hdeclares).mp (hkeeps.settings setting hdeclares) }
  · intro hconvertible
    exact {
      services := himages.mpr hconvertible.image
      routes := hbare.mpr hconvertible.routes
      settings := fun setting hdeclares =>
        (hsettings hdeclares).mpr (hconvertible.settings setting hdeclares) }

end Document

/-! ### Two documents -/

/-- The reader, on names that are domains as they stand. -/
@[reducible] def asciiDomains : DomainReader where
  parseDomain name := if h : isDomain name.toList = true then some ⟨name, h⟩ else none

attribute [local instance] asciiDomains

def webService : ServiceConfig := { name := ⟨"web", Eq.refl true⟩, port := ⟨8080, Nat.succ_pos (nat_lit 8079)⟩ }

/-- A document that declares nothing beside an image, services and the routes to them. -/
def plainDocument (services : Table ServiceConfig.name) (service : Slug) : Document where
  manifest := {
    app := ⟨"shop", Eq.refl true⟩
    kind := .multiService
    image := some ⟨"registry.example/web:1", Eq.refl true⟩
    services := services
    routes := [{ domain := ⟨"shop.example.com", Eq.refl true⟩, service := some service }] }
  routes := [{
    config := { domain := ⟨"shop.example.com", Eq.refl true⟩, service := some service }
    domain := "shop.example.com"
    parsed_domain := dif_pos (Eq.refl true)
    path_prefix := none
    parsed := rfl }]
  loaded := rfl
  services _ := { command := none, env := none, env_files := none, healthcheck := [] }
  env := []
  required_env := []
  memory := none
  postgres := false
  redis := false
  perApp := false
  edge_tls := false

/-- A document with a variable that its service repeats. -/
def shopDocument : Document :=
  { plainDocument (Table.empty.put webService) webService.name with
    env := [("MODE", .str "live")]
    services _ :=
      { command := none, env := some (.obj [("MODE", .str "live"), ("PORT", .str "8080")])
        env_files := none, healthcheck := [] } }

theorem shopDocument_convertible : Convertible shopDocument where
  image service hmem hname := by
    obtain rfl := List.mem_singleton.mp hmem
    exact absurd hname (by decide)
  routes raw hraw := by
    obtain rfl := List.mem_singleton.mp hraw
    exact ⟨rfl, rfl, rfl, rfl⟩
  settings setting hdeclares := by
    cases setting with
    | healthcheck service =>
        obtain ⟨_, _, _, hsome⟩ := hdeclares
        exact absurd rfl hsome
    | mounts service =>
        obtain ⟨config, hmem, -, hsome⟩ := hdeclares
        obtain rfl := List.mem_singleton.mp hmem
        exact absurd rfl hsome
    | hostPort service =>
        obtain ⟨config, hmem, -, hsome⟩ := hdeclares
        obtain rfl := List.mem_singleton.mp hmem
        cases hsome
    | dataVolumes =>
        obtain ⟨volume, hmem, -⟩ := hdeclares
        exact absurd hmem List.not_mem_nil
    | env name =>
        obtain ⟨-, hname, -⟩ := hdeclares
        obtain rfl := List.mem_singleton.mp hname
        exact fun service _ => ⟨_, rfl, List.mem_cons_self⟩
    | envFile source => exact absurd hdeclares.2 List.not_mem_nil
    | memory => cases hdeclares.2
    | addons => cases hdeclares.2
    | networking => cases hdeclares.2
    | edge => rcases hdeclares with hnone | hnone | hnone <;> cases hnone
    | console => cases hdeclares.1

theorem shopDocument_faithful : shopDocument.manifest.Accepted ∧
    Declares shopDocument (.env "MODE") ∧
    Faithful shopDocument (migrateV1Document shopDocument) := by
  have haccepted : shopDocument.manifest.Accepted := rfl
  have hkind : Kind.Migrates shopDocument.manifest.kind := Or.inr (Or.inl rfl)
  have hinjected : "MODE" ∉ RUNTIME_INJECTED_ENV_KEYS := by decide
  exact ⟨haccepted, ⟨rfl, List.mem_singleton_self _, hinjected⟩,
    (faithful_iff haccepted hkind).mpr shopDocument_convertible⟩

/-- The service `api` with the image of the document, and the service `app` with its own. -/
def apiService : ServiceConfig := { name := ⟨"api", Eq.refl true⟩, port := ⟨8080, Nat.succ_pos (nat_lit 8079)⟩ }

def appService : ServiceConfig where
  name := ⟨"app", by decide⟩
  port := ⟨8081, by decide⟩
  image := some ⟨"registry.example/app:1", by decide⟩

def appDocument : Document :=
  plainDocument ((Table.empty.put apiService).put appService) apiService.name

theorem not_faithful : ¬ ∀ d : Document, d.manifest.Accepted → Kind.Migrates d.manifest.kind →
    Faithful d (migrateV1Document d) := by
  intro h
  have haccepted : appDocument.manifest.Accepted := rfl
  have hkind : Kind.Migrates appDocument.manifest.kind := Or.inr (Or.inl rfl)
  obtain ⟨routes, hout, -⟩ := migrate_eq_ok hkind (targets haccepted hkind)
  have hkeeps := h appDocument haccepted hkind
  rw [hout] at hkeeps
  -- `api` is the first service, and `app` has taken its artifact
  have himage := (images_iff haccepted hkind routes).mp hkeeps.services appService
    (List.mem_cons_of_mem _ (List.mem_singleton_self _)) rfl apiService (by decide)
  exact absurd himage (by decide)

end Ophelia.Migration
