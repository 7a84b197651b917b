import Ophelia.Domain.Contracts
import Ophelia.Lib.PyText
import Ophelia.Lib.Table

/-!
# Ophelia.Runtime.Manifest

Version 1 manifests, as far as the renderer, the conflict scan, the bundle writer and the
export of data read them. What a field parser of the source checks by itself is part of
the field's type; what `_validate_manifest` checks across fields is `validateManifest`, in
the order of the source and with its messages.
-/

namespace Ophelia.V1

/-! ### Field types -/

/-- `_optional_str` and `_require_str`: a string that is not blank. -/
def isNonBlank (cs : List Char) : Bool :=
  !(PyText.strip cs).isEmpty

abbrev NonBlank := Refined isNonBlank

/-- `^[a-z0-9](?:[a-z0-9-]{0,61}[a-z0-9])?$`. -/
def isDomainLabel (cs : List Char) : Bool :=
  decide (cs.length ≤ 63) && cs.all (fun c => isLowerAlnum c || c == '-') &&
    cs.head?.any isLowerAlnum && cs.getLast?.any isLowerAlnum

/-- What `parse_domain` returns: ASCII labels in lower case, at least two of them. -/
def isDomain (cs : List Char) : Bool :=
  decide (2 ≤ (cs.splitOn '.').length) && (cs.splitOn '.').all isDomainLabel &&
    decide (cs.length ≤ 253)

abbrev Domain := Refined isDomain

/-- `parse_environment`. -/
inductive Environment where
  | dev | staging | production
deriving DecidableEq

def Environment.value : Environment → String
  | .dev => "dev"
  | .staging => "staging"
  | .production => "production"

inductive Kind where
  | service | multiService | static | tunnel | redirect
deriving DecidableEq

namespace Kind

/-- `kind in {"service", "multi-service"}`. -/
def serviceBased : Kind → Bool
  | service | multiService => true
  | static | tunnel | redirect => false

/-- `kind in {"service", "multi-service", "tunnel"}`. -/
def proxyCapable : Kind → Bool
  | service | multiService | tunnel => true
  | static | redirect => false

/-- `kind.title()`. -/
def title : Kind → String
  | service => "Service"
  | multiService => "Multi-Service"
  | static => "Static"
  | tunnel => "Tunnel"
  | redirect => "Redirect"

end Kind

/-- `profile`, which `_validate_manifest` restricts to this one word. -/
inductive Profile where
  | console
deriving DecidableEq

/-! ### The dataclasses -/

structure MountConfig where
  source : NonBlank
  target : NonBlank
  read_only : Bool := true
  bind : Bool := false
deriving DecidableEq

structure ServiceConfig where
  name : Slug
  port : Pos
  host_port : Option Pos := none
  image : Option NonBlank := none
  env_files : List String := []
  mounts : List MountConfig := []
deriving DecidableEq

structure RouteConfig where
  domain : Domain
  service : Option Slug := none
  upstream : Option NonBlank := none
  path : Option String := none
  path_prefix : Option String := none
  strip_prefix : Option String := none
  rewrite_prefix : Option String := none
deriving DecidableEq

structure OnDemandTLSConfig where
  ask : NonBlank
deriving DecidableEq

structure CatchAllEdgeConfig where
  service : Option Slug := none
  upstream : Option NonBlank := none
  http_redirect : Bool := true
  http_redirect_status : Nat := 308
deriving DecidableEq

structure EdgeConfig where
  on_demand_tls : Option OnDemandTLSConfig := none
  catch_all : Option CatchAllEdgeConfig := none
deriving DecidableEq

inductive ConsoleSurface where
  | console | root
deriving DecidableEq

structure ConsoleConfig where
  admin_domain : Option Domain := none
  surface : ConsoleSurface := .console
deriving DecidableEq

/-- A free-form mapping of the manifest. -/
abbrev Mapping := List (String × Json)

structure DataServiceConfig where
  export_config : Mapping := []
  import_config : Mapping := []
  verify : Mapping := []

structure DataVolumeConfig where
  name : Slug
  mount : Option NonBlank := none
  source : Option NonBlank := none
  service : Option Slug := none
  export_config : Option Json := none
  import_config : Option Json := none
  verify : Mapping := []
  extra : Mapping := []

structure DataConfig where
  postgres : Option DataServiceConfig := none
  redis : Option DataServiceConfig := none
  volumes : List DataVolumeConfig := []

structure HooksConfig where
  pre_export : Option NonBlank := none
  freeze : Option NonBlank := none
  unfreeze : Option NonBlank := none
  post_import : Option NonBlank := none
  post_cutover : Option NonBlank := none
deriving DecidableEq

inductive CheckType where
  | http | command | internal
deriving DecidableEq

structure VerificationCheck where
  type : CheckType := .http
  url : Option String := none
  name : Option String := none
  service : Option Slug := none
  command : Option (List String) := none
deriving DecidableEq

structure Manifest where
  app : Slug
  kind : Kind
  environment : Option Environment := none
  profile : Option Profile := none
  image : Option NonBlank := none
  services : Table ServiceConfig.name := Table.empty
  routes : List RouteConfig
  env_files : List String := []
  edge : EdgeConfig := {}
  static_root : Option NonBlank := none
  tunnel_target : Option NonBlank := none
  redirect_to : Option NonBlank := none
  redirect_status : Nat := 308
  verify : List VerificationCheck := []
  console : Option ConsoleConfig := none
  data : DataConfig := {}
  hooks : HooksConfig := {}

namespace Manifest

/-- `name in manifest.services`. -/
def hasService (m : Manifest) (name : Slug) : Bool :=
  (m.services.get? name).isSome

/-- `Manifest.service_alias`. -/
def serviceAlias (m : Manifest) (service : Slug) : String :=
  m.app.val ++ "-" ++ service.val

end Manifest

/-! ### Validation -/

/-- `ManifestError` under a condition. -/
def rejectIf (violated : Bool) (message : String) : Except String Unit :=
  if violated then .error message else .ok ()

def redirectStatuses : List Nat := [301, 302, 307, 308]

/-- What a route matches, and in which way. -/
inductive RouteMatch where
  | path (value : String)
  | prefixed (value : String)
  | default
deriving DecidableEq

def RouteMatch.words : RouteMatch → String × String
  | .path value => ("exact path", value)
  | .prefixed value => ("path prefix", value)
  | .default => ("catch-all", "*")

/-- `route_key` without the domain. -/
def RouteConfig.routeMatch (route : RouteConfig) : RouteMatch :=
  match route.path, route.path_prefix with
  | some path, _ => .path path
  | none, some pre => .prefixed pre
  | none, none => .default

/-- The loop of `_validate_host_ports`; `host_ports` holds the owners so far. -/
def validateHostPorts : List ServiceConfig → List (Pos × Slug) → Except String Unit
  | [], _ => .ok ()
  | service :: rest, host_ports =>
      match service.host_port with
      | none => validateHostPorts rest host_ports
      | some port =>
          match host_ports.lookup port with
          | some owner =>
              .error ("Services `" ++ owner.val ++ "` and `" ++ service.name.val ++
                "` both request host_port " ++ toString port.val ++ ".")
          | none => validateHostPorts rest ((port, service.name) :: host_ports)

/-- The checks of `_validate_proxy_routes` on one route by itself. -/
def validateProxyRoute (m : Manifest) (route : RouteConfig) : Except String Unit := do
  let label := "Route for `" ++ route.domain.val ++ "` "
  rejectIf (route.service.isSome && route.upstream.isSome)
    (label ++ "may not set both `service` and `upstream`.")
  rejectIf (route.path.isSome && route.path_prefix.isSome)
    (label ++ "may not set both `path` and `path_prefix`.")
  rejectIf (route.path.isSome && route.strip_prefix.isSome)
    (label ++ "may not use `strip_prefix` with exact `path`.")
  route.service.forM fun name =>
    rejectIf (!m.hasService name) (label ++ "references unknown service `" ++ name.val ++ "`.")
  rejectIf (m.kind.serviceBased && route.service.isNone && route.upstream.isNone)
    (label ++ "must include `service` or `upstream`.")
  rejectIf (m.kind == .tunnel && route.service.isNone && route.upstream.isNone &&
      m.tunnel_target.isNone)
    (label ++ "must include `upstream`, `service`, or inherit `tunnel_target`.")

/-- The loop of `_validate_proxy_routes`; `seen_route_matches` holds the keys so far. A second
default route of a domain is such a key, so the count after the loop never finds one. -/
def validateProxyRoutes (m : Manifest) :
    List RouteConfig → List (Domain × RouteMatch) → Except String Unit
  | [], _ => .ok ()
  | route :: rest, seen_route_matches => do
      validateProxyRoute m route
      let route_key := (route.domain, route.routeMatch)
      rejectIf (seen_route_matches.contains route_key)
        ("Duplicate " ++ route.routeMatch.words.1 ++ " route for `" ++ route.domain.val ++
          "` with matcher `" ++ route.routeMatch.words.2 ++ "`.")
      validateProxyRoutes m rest (route_key :: seen_route_matches)

def validateNonProxyRoutes (m : Manifest) : Except String Unit :=
  m.routes.forM fun route => do
    rejectIf (route.service.isSome || route.upstream.isSome)
      (m.kind.title ++ " apps may not declare `service` or `upstream` routes.")
    rejectIf (route.path.isSome || route.path_prefix.isSome || route.strip_prefix.isSome ||
        route.rewrite_prefix.isSome)
      (m.kind.title ++ " apps may not declare path-matching or rewrite route options.")

def validateCatchAll (m : Manifest) (catch_all : CatchAllEdgeConfig) : Except String Unit := do
  rejectIf (!m.kind.proxyCapable) "`edge.catch_all` requires a proxy-capable manifest kind."
  rejectIf m.edge.on_demand_tls.isNone "`edge.catch_all` requires `edge.on_demand_tls.ask`."
  rejectIf (catch_all.service.isSome && catch_all.upstream.isSome)
    "`edge.catch_all` may not set both `service` and `upstream`."
  rejectIf (catch_all.service.isNone && catch_all.upstream.isNone)
    "`edge.catch_all` requires `service` or `upstream`."
  catch_all.service.forM fun name =>
    rejectIf (!m.hasService name)
      ("`edge.catch_all.service` references unknown service `" ++ name.val ++ "`.")
  rejectIf (!redirectStatuses.contains catch_all.http_redirect_status)
    "`edge.catch_all.http_redirect_status` must be one of 301, 302, 307, or 308."

def validateEdge (m : Manifest) : Except String Unit :=
  m.edge.catch_all.elim (.ok ()) (validateCatchAll m)

/-- The checks of `_validate_data_volumes` on one volume by itself. -/
def validateDataVolume (m : Manifest) (field_name : String) (volume : DataVolumeConfig) :
    Except String Unit := do
  rejectIf (volume.mount.any fun mount => !mount.val.toList.head?.any (· == '/'))
    ("`" ++ field_name ++ ".mount` must start with `/`.")
  volume.service.forM fun name =>
    rejectIf (!m.hasService name)
      ("`" ++ field_name ++ ".service` references unknown service `" ++ name.val ++ "`.")
  rejectIf (volume.mount.isSome && !m.kind.serviceBased)
    ("`" ++ field_name ++ ".mount` requires a service-based manifest.")
  rejectIf (volume.mount.isSome && decide (1 < m.services.rows.length) && volume.service.isNone)
    ("`" ++ field_name ++
      ".service` is required when mounting a data volume in a multi-service manifest.")

def volumeField (index : Nat) : String := "data.volumes[" ++ toString index ++ "]"

/-- The loop of `_validate_data_volumes`; `names` holds the indices of the names so far. -/
def validateDataVolumes (m : Manifest) :
    Nat → List DataVolumeConfig → List (Slug × Nat) → Except String Unit
  | _, [], _ => .ok ()
  | index, volume :: rest, names =>
      match names.lookup volume.name with
      | some previous =>
          .error ("`" ++ volumeField index ++ ".name` duplicates `" ++ volumeField previous ++
            ".name`.")
      | none => do
          validateDataVolume m (volumeField index) volume
          validateDataVolumes m (index + 1) rest ((volume.name, index) :: names)

def CheckType.value : CheckType → String
  | .http => "http"
  | .command => "command"
  | .internal => "internal"

/-- `_validate_verification_checks`. A check of the service `app` is one of the only service. -/
def validateVerificationChecks (m : Manifest) : Except String Unit :=
  m.verify.zipIdx.forM fun (check, index) => do
    let field_name := "verify[" ++ toString index ++ "]"
    rejectIf (check.type != .http && !m.kind.serviceBased)
      ("`" ++ field_name ++ "` " ++ check.type.value ++ " checks require a service-based manifest.")
    check.service.forM fun name =>
      rejectIf (check.type != .http && !(name.val == "app" && m.services.rows.length == 1) &&
          !m.hasService name)
        ("`" ++ field_name ++ ".service` references unknown service `" ++ name.val ++ "`.")

/-- Images and host ports of a service-based application. -/
def validateServices (m : Manifest) : Except String Unit :=
  if m.kind.serviceBased then do
    m.services.rows.forM fun service =>
      rejectIf (service.image.isNone && m.image.isNone)
        ("Service `" ++ service.name.val ++
          "` must define `image` or inherit a top-level `image`.")
    validateHostPorts m.services.rows []
  else .ok ()

/-- The part of `_validate_manifest` that reads `kind`. -/
def validateKind (m : Manifest) : Except String Unit := do
  rejectIf (m.kind.serviceBased && m.services.rows.isEmpty)
    "Service-based apps require at least one service."
  validateServices m
  rejectIf ((m.kind == .static || m.kind == .redirect) && !m.services.rows.isEmpty)
    (m.kind.title ++ " apps may not declare `services`.")
  rejectIf ((m.kind == .static || m.kind == .redirect) && m.image.isSome)
    (m.kind.title ++ " apps may not declare a top-level `image`.")
  rejectIf (m.kind == .redirect && m.redirect_to.isNone) "Redirect apps require `redirect_to`."
  rejectIf (m.kind == .redirect && !redirectStatuses.contains m.redirect_status)
    "`redirect_status` must be one of 301, 302, 307, or 308."
  rejectIf (m.kind == .static && m.static_root.isNone) "Static apps require `static_root`."
  rejectIf (m.kind == .tunnel && m.tunnel_target.isNone &&
      !m.routes.any fun route => route.upstream.isSome)
    "Tunnel apps require `tunnel_target` or per-route `upstream` values."

def validateConsole (m : Manifest) : Except String Unit :=
  match m.profile with
  | none => .ok ()
  | some .console => do
      rejectIf (!m.kind.serviceBased) "`profile: console` requires a service-based manifest."
      rejectIf m.console.isNone "`profile: console` requires a `console` mapping."
      rejectIf ((m.console.bind (·.admin_domain)).isSome &&
          !m.routes.any fun route => route.service.isSome || route.upstream.isSome)
        "Console manifests need at least one proxy route target."

def validateRoutes (m : Manifest) : Except String Unit :=
  if m.kind.proxyCapable then validateProxyRoutes m m.routes [] else validateNonProxyRoutes m

/-- `_validate_manifest`, and the check of `_parse_routes` that there is a route. -/
def validateManifest (m : Manifest) : Except String Unit := do
  rejectIf m.routes.isEmpty "`routes` must be a non-empty list."
  validateKind m
  validateConsole m
  validateRoutes m
  validateEdge m
  validateDataVolumes m 0 m.data.volumes []
  validateVerificationChecks m

/-- A manifest that `load_manifest` accepts. -/
def Manifest.Accepted (m : Manifest) : Prop :=
  validateManifest m = .ok ()

/-! ### Accepted manifests -/

theorem seq_eq_ok {α : Type} {first : Except String Unit} {second : Except String α} {a : α} :
    (first >>= fun _ => second) = .ok a ↔ first = .ok () ∧ second = .ok a := by
  cases first with
  | error e =>
      constructor
      · intro h
        cases h
      · intro h
        cases h.1
  | ok _ => exact ⟨fun h => ⟨rfl, h⟩, fun h => h.2⟩

theorem rejectIf_eq_ok {violated : Bool} {message : String} :
    rejectIf violated message = .ok () ↔ violated = false := by
  cases violated <;> simp [rejectIf]

namespace Manifest.Accepted

variable {m : Manifest}

theorem parts (h : m.Accepted) :
    validateKind m = .ok () ∧ validateConsole m = .ok () ∧ validateRoutes m = .ok () ∧
      validateEdge m = .ok () ∧ validateDataVolumes m 0 m.data.volumes [] = .ok () := by
  unfold Manifest.Accepted validateManifest at h
  obtain ⟨-, h⟩ := seq_eq_ok.mp h
  obtain ⟨hkind, h⟩ := seq_eq_ok.mp h
  obtain ⟨hconsole, h⟩ := seq_eq_ok.mp h
  obtain ⟨hroutes, h⟩ := seq_eq_ok.mp h
  obtain ⟨hedge, h⟩ := seq_eq_ok.mp h
  exact ⟨hkind, hconsole, hroutes, hedge, (seq_eq_ok.mp h).1⟩

end Manifest.Accepted

/-- The loop over the volumes lets no name pass that came before. -/
theorem nodup_of_validateDataVolumes {m : Manifest} {index : Nat}
    {volumes : List DataVolumeConfig} {names : List (Slug × Nat)}
    (h : validateDataVolumes m index volumes names = .ok ()) :
    (volumes.map (·.name)).Nodup ∧ ∀ volume ∈ volumes, ∀ i, (volume.name, i) ∉ names := by
  induction volumes generalizing index names with
  | nil => simp
  | cons volume rest ih =>
      rw [validateDataVolumes] at h
      cases hlookup : names.lookup volume.name with
      | some previous =>
          rw [hlookup] at h
          cases h
      | none =>
          rw [hlookup] at h
          obtain ⟨hnodup, hfresh⟩ := ih (seq_eq_ok.mp h).2
          have hnotin : ∀ i, (volume.name, i) ∉ names := by
            intro i hmem
            have hne := List.lookup_eq_none_iff.mp hlookup _ hmem
            simp at hne
          refine ⟨List.nodup_cons.mpr ⟨?_, hnodup⟩, ?_⟩
          · intro hmem
            obtain ⟨other, hother, heq⟩ := List.mem_map.mp hmem
            exact hfresh other hother index (by simp [heq])
          · intro other hother i hmem
            rcases List.mem_cons.mp hother with rfl | hother
            · exact hnotin i hmem
            · exact hfresh other hother i (List.mem_cons_of_mem _ hmem)

/-- The data volumes of an accepted manifest have different names. -/
theorem Manifest.Accepted.nodup_volumes {m : Manifest} (h : m.Accepted) :
    (m.data.volumes.map (·.name)).Nodup :=
  (nodup_of_validateDataVolumes h.parts.2.2.2.2).1

end Ophelia.V1
