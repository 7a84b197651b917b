import Mathlib.Data.Bool.AllAny
import Ophelia.Domain.Slugs
import Ophelia.Runtime.Manifest

/-!
# Ophelia.Runtime.Rendering

The names that `templates.py` gives a version 1 application on its host: the addresses of its
Caddy sites, the ports that its compose file publishes, its aliases on the shared edge
network, its named data volumes and the directory that its static files are served from.
-/

namespace Ophelia.V1

open PyText

/-! ### Caddy sites -/

def webService : Slug := ⟨"web", Eq.refl true⟩

/-- `_default_service_name`. -/
def defaultServiceName (m : Manifest) : Except String Slug :=
  if m.hasService webService then .ok webService
  else
    match m.services.rows with
    | service :: _ => .ok service.name
    | [] =>
        .error ("Manifest " ++ m.app.val ++ " does not expose a service for console routing.")

/-- `console.admin_domain`, where the profile makes it count. -/
def adminDomain (m : Manifest) : Option Domain :=
  match m.profile with
  | some .console => m.console.bind (·.admin_domain)
  | none => none

/-- `effective_routes`. -/
def effectiveRoutes (m : Manifest) : Except String (List RouteConfig) :=
  match adminDomain m with
  | none => .ok m.routes
  | some admin =>
      if m.routes.any fun route => route.domain = admin then .ok m.routes
      else do
        let service ← defaultServiceName m
        return m.routes ++ [{ domain := admin, service := some service }]

/-- The addresses of `_render_catch_all_edge_block`. -/
def catchAllAddresses (catch_all : CatchAllEdgeConfig) : List String :=
  (if catch_all.http_redirect then ["http://"] else []) ++ ["https://"]

/-- The addresses of the site blocks of `render_caddy`: the keys of `_group_routes_by_domain`,
and those of the catch-all. -/
def siteAddresses (m : Manifest) : Except String (List String) := do
  let routes ← effectiveRoutes m
  return (routes.map (·.domain.val)).dedup ++ m.edge.catch_all.elim [] catchAllAddresses

/-! ### Compose -/

/-- `render_compose` writes a file. -/
def Kind.rendersCompose : Kind → Bool
  | .service | .multiService => true
  | .static | .tunnel | .redirect => false

def publishedHostPorts (m : Manifest) : List Pos :=
  if m.kind.rendersCompose then m.services.rows.filterMap (·.host_port) else []

def edgeAliases (m : Manifest) : List String :=
  if m.kind.rendersCompose then m.services.rows.map fun service => m.serviceAlias service.name
  else []

/-! ### Data volumes -/

/-- `[A-Za-z0-9_.-]`. -/
def isDockerChar (c : Char) : Bool :=
  c.isAlphanum || c == '_' || c == '.' || c == '-'

/-- `re.sub(r"[^A-Za-z0-9_.-]+", "-", value)`; `inRun` says that the last character was replaced. -/
def dashRuns : Bool → List Char → List Char
  | _, [] => []
  | inRun, c :: cs =>
      if isDockerChar c then c :: dashRuns false cs
      else if inRun then dashRuns true cs
      else '-' :: dashRuns true cs

def isDockerMark (c : Char) : Bool :=
  c == '.' || c == '_' || c == '-'

/-- `_safe_docker_name`. -/
def safeDockerName (value : String) : String :=
  let cleaned := stripChars isDockerMark (dashRuns false value.toList)
  match cleaned with
  | [] => "volume"
  | c :: _ => if c.isAlphanum then String.ofList cleaned else "v-" ++ String.ofList cleaned

def environmentName (m : Manifest) : String :=
  m.environment.elim "default" Environment.value

/-- `data_volume_name`. -/
def dataVolumeName (m : Manifest) (volume : DataVolumeConfig) : String :=
  safeDockerName (m.app.val ++ "-" ++ environmentName m ++ "-" ++ volume.name.val)

/-- The volumes that `_render_volumes_block` declares. -/
def namedVolumes (m : Manifest) : List String :=
  if m.kind.rendersCompose then
    (m.data.volumes.filter fun volume => volume.mount.isSome && volume.source.isNone).map
      (dataVolumeName m)
  else []

/-! ### Static files -/

/-- `static_runtime_app_name`. -/
def staticRuntimeAppName (m : Manifest) : String :=
  safeDockerName m.app.val

def isAbsolute (path : String) : Bool :=
  path.toList.head? == some '/'

/-- `static_caddy_root`, of a manifest with a static root. -/
def staticCaddyRoot (m : Manifest) : Option String :=
  if m.kind = .static then
    m.static_root.map fun root =>
      if isAbsolute root.val then root.val
      else "{$OPHELIA_STATIC_ROOT}/" ++ staticRuntimeAppName m ++ "/current"
  else none

/-! ### Names made of slugs -/

theorem isDockerChar_of_slugChar {c : Char} (h : isLowerAlnum c = true ∨ c = '-') :
    isDockerChar c = true := by
  cases h with
  | inl h => simp [isDockerChar, isAlphanum_of_isLowerAlnum h]
  | inr h =>
      subst h
      decide

theorem isDockerMark_of_isLowerAlnum {c : Char} (h : isLowerAlnum c = true) :
    isDockerMark c = false := by
  have hrange := toNat_of_isLowerAlnum h
  simp only [isDockerMark, Bool.or_eq_false_iff, beq_eq_false_iff_ne]
  refine ⟨⟨?_, ?_⟩, ?_⟩
  all_goals
    intro hc
    subst hc
    revert hrange
    decide

theorem dashRuns_eq_self {cs : List Char} (h : ∀ c ∈ cs, isDockerChar c = true) :
    dashRuns false cs = cs := by
  induction cs with
  | nil => rfl
  | cons c cs ih =>
      rw [dashRuns, if_pos (h c List.mem_cons_self), ih fun d hd => h d (List.mem_cons_of_mem c hd)]

theorem safeDockerName_eq_self {value : String} (h : PlainName value) :
    safeDockerName value = value := by
  obtain ⟨c, cs, hvalue, hc⟩ := h.head
  obtain ⟨d, hlast, hd⟩ := h.last
  have hruns : dashRuns false value.toList = c :: cs := by
    rw [dashRuns_eq_self fun e he => isDockerChar_of_slugChar (h.chars e he), hvalue]
  have hstrip : stripChars isDockerMark (c :: cs) = c :: cs :=
    stripChars_of_ends (isDockerMark_of_isLowerAlnum hc) (isDockerMark_of_isLowerAlnum hd)
      (hvalue ▸ hlast)
  rw [safeDockerName, hruns, hstrip]
  simp only [isAlphanum_of_isLowerAlnum hc, if_true]
  rw [← hvalue, String.ofList_toList]

theorem plainName_environment (m : Manifest) : PlainName (environmentName m) := by
  unfold environmentName
  cases m.environment with
  | none =>
      exact ⟨⟨_, _, rfl, by decide⟩, ⟨_, rfl, by decide⟩, List.all_iff_forall_prop.mp (by decide)⟩
  | some environment =>
      cases environment <;>
        exact ⟨⟨_, _, rfl, by decide⟩, ⟨_, rfl, by decide⟩, List.all_iff_forall_prop.mp (by decide)⟩

/-- The text that the name of a data volume is made from. -/
theorem plainName_volume (m : Manifest) (volume : DataVolumeConfig) :
    PlainName (m.app.val ++ "-" ++ environmentName m ++ "-" ++ volume.name.val) :=
  ((PlainName.of_slug m.app).join (plainName_environment m)).join (PlainName.of_slug volume.name)

/-- The name of a data volume is that text. -/
theorem dataVolumeName_eq (m : Manifest) (volume : DataVolumeConfig) :
    dataVolumeName m volume = m.app.val ++ "-" ++ environmentName m ++ "-" ++ volume.name.val :=
  safeDockerName_eq_self (plainName_volume m volume)

/-- One application name goes on with a hyphen inside the other. -/
def HyphenPrefix (app app' : Slug) : Prop :=
  app.val.toList ++ ['-'] <+: app'.val.toList

instance (app app' : Slug) : Decidable (HyphenPrefix app app') :=
  inferInstanceAs (Decidable (_ <+: _))

/-- The volumes of two applications have the same name only where one application name is a
hyphenated beginning of the other. -/
theorem hyphenPrefix_of_dataVolumeName_eq {m m' : Manifest} {volume volume' : DataVolumeConfig}
    (h : dataVolumeName m volume = dataVolumeName m' volume') (happ : m.app ≠ m'.app) :
    HyphenPrefix m.app m'.app ∨ HyphenPrefix m'.app m.app := by
  rw [dataVolumeName_eq, dataVolumeName_eq] at h
  have hlist := congrArg String.toList h
  simp only [String.toList_append, List.append_assoc] at hlist
  rcases hyphen_prefix hlist with heq | hpre
  · exact absurd (Refined.ext (String.toList_inj.mp heq)) happ
  · exact hpre

end Ophelia.V1
