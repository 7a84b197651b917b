import Ophelia.Lib.Grouping
import Ophelia.Runtime.Rendering

/-!
# Ophelia.Runtime.Conflicts

The conflict scan over declared and active version 1 manifests (`conflicts.py`). It reads the
declared routes, host ports, service names and edge settings of the manifests, not what is
rendered from them. What the rendered bundles of two applications still share after a scan
without conflicts is one of three things that the scan does not read (`Unscanned`); everything
else that is rendered at the level of the host is disjoint.
-/

namespace Ophelia.V1

open PyText

/-! ### Owners -/

inductive OwnerSource where
  | manifest | active_runtime
deriving DecidableEq

/-- What a conflict says of the owner of a claim. The field `route_source` repeats `source`. -/
structure Owner where
  app : Slug
  environment : Option Environment
  manifest_path : String
  source : OwnerSource
  release_id : Option String := none
  runtime_bundle_path : Option String := none
deriving DecidableEq

/-- A claim of an owner, with the details that its record carries. -/
abbrev Claim (α : Type) := Owner × α

variable {α : Type}

/-- An active claim of an application and environment that is declared among the same claims. -/
def superseded (claims : List (Claim α)) (claim : Claim α) : Bool :=
  claim.1.source == .active_runtime && claims.any fun other =>
    other.1.source == .manifest && other.1.app == claim.1.app &&
      other.1.environment == claim.1.environment

/-- `_dedupe_active_runtime_owners`. -/
def dedupeActiveRuntimeOwners (claims : List (Claim α)) : List (Claim α) :=
  claims.filter fun claim => !superseded claims claim

/-- `_owner_keys`. -/
def ownerKeys (claims : List (Claim α)) : List (Slug × Option Environment × String) :=
  ((dedupeActiveRuntimeOwners claims).map fun claim =>
    (claim.1.app, claim.1.environment, claim.1.manifest_path)).dedup

/-! ### Manifests under scan -/

/-- A bundle under `apps/`, with its lock and the identifier of the active release. -/
structure ActiveBundle where
  path : String
  lock : Except String Manifest
  release_id : Option String

structure ScanInput where
  /-- The files `*.ophelia.yml` in order, with what `load_manifest` makes of each. -/
  declared : List (String × Except String Manifest)
  /-- The bundles with a lock, when a runtime root is given. -/
  active : List ActiveBundle

structure Scanned where
  path : String
  manifest : Manifest
  owner : Owner

/-- `_owner` of a declared manifest. -/
def declaredOwner (path : String) (m : Manifest) : Owner where
  app := m.app
  environment := m.environment
  manifest_path := path
  source := .manifest

/-- `_owner` of the manifest in the lock of a bundle. -/
def activeOwner (bundle : ActiveBundle) (lock_path : String) (m : Manifest) : Owner where
  app := m.app
  environment := m.environment
  manifest_path := lock_path
  source := .active_runtime
  release_id := bundle.release_id
  runtime_bundle_path := some bundle.path

def declaredManifests (input : ScanInput) : List Scanned :=
  input.declared.filterMap fun (path, loaded) =>
    match loaded with
    | .ok m => some ⟨path, m, declaredOwner path m⟩
    | .error _ => none

/-- `_active_runtime_manifests`: a lock that does not load is passed over. -/
def activeRuntimeManifests (input : ScanInput) : List Scanned :=
  input.active.filterMap fun bundle =>
    let lock_path := bundle.path ++ "/manifest.lock.json"
    match bundle.lock with
    | .ok m => some ⟨lock_path, m, activeOwner bundle lock_path m⟩
    | .error _ => none

def scannedManifests (input : ScanInput) : List Scanned :=
  declaredManifests input ++ activeRuntimeManifests input

/-! ### Conflicts -/

structure CatchAllClaim where
  ask : Option String
  target_kind : String
  service : Option Slug
deriving DecidableEq

inductive Conflict where
  | duplicate_app_id (app : Slug) (owners : List Owner)
  | duplicate_domain (domain : String) (owners : List (Claim String))
  | duplicate_route (domain route : String) (owners : List (Claim String))
  | duplicate_host_port (host_port : Pos) (owners : List (Claim Slug))
  | duplicate_docker_alias (name : String) (owners : List (Claim Slug))
  | conflicting_on_demand_tls_ask (ask_endpoint_count : Nat) (ask_endpoints : List String)
      (owners : List (Claim String))
  | duplicate_catch_all_edge (owners : List (Claim CatchAllClaim))
  | manifest_invalid (path error : String)

/-- `value.rstrip(mark)` for one character. -/
def rstripMark (mark : Char) (cs : List Char) : List Char :=
  (cs.reverse.dropWhile fun c => c == mark).reverse

/-- `_normalize_domain`. -/
def normalizeDomain (domain : String) : String :=
  String.ofList (rstripMark '.' (lower (strip domain.toList)))

/-- `value.rstrip("/") or "/"`. -/
def trimmedPath (path : String) : String :=
  match rstripMark '/' path.toList with
  | [] => "/"
  | cs => String.ofList cs

/-- `_route_match`. -/
def routeMatchText (route : RouteConfig) : String :=
  match route.path, route.path_prefix with
  | some path, _ => "path:" ++ trimmedPath path
  | none, some pre => "path_prefix:" ++ trimmedPath pre
  | none, none => "default:*"

def duplicateAppIds (manifests : List Scanned) : List Conflict :=
  (grouped (fun a b : Slug => a.val ≤ b.val)
      (manifests.map fun scanned => (scanned.manifest.app, (scanned.owner, ())))).filterMap
    fun (app, owners) =>
      let kept := dedupeActiveRuntimeOwners owners
      if 1 < kept.length then some (.duplicate_app_id app (kept.map Prod.fst)) else none

/-- The domain of each declared route, with its owner. -/
def domainClaims (manifests : List Scanned) : List (String × Claim String) :=
  manifests.flatMap fun scanned => scanned.manifest.routes.map fun route =>
    (normalizeDomain route.domain.val, (scanned.owner, routeMatchText route))

def duplicateDomains (manifests : List Scanned) : List Conflict :=
  (grouped (· ≤ ·) (domainClaims manifests)).filterMap fun (domain, owners) =>
    if 1 < (ownerKeys owners).length then some (.duplicate_domain domain owners) else none

def duplicateRoutes (manifests : List Scanned) : List Conflict :=
  (grouped (fun a b : String × String => a.1 < b.1 ∨ a.1 = b.1 ∧ a.2 ≤ b.2)
      ((domainClaims manifests).map fun entry => ((entry.1, entry.2.2), entry.2))).filterMap
    fun ((domain, route), owners) =>
      if 1 < (ownerKeys owners).length then some (.duplicate_route domain route owners) else none

/-- The declared host port of each service, with its owner. -/
def hostPortClaims (manifests : List Scanned) : List (Pos × Claim Slug) :=
  manifests.flatMap fun scanned => scanned.manifest.services.rows.filterMap fun service =>
    service.host_port.map fun port => (port, (scanned.owner, service.name))

def duplicateHostPorts (manifests : List Scanned) : List Conflict :=
  (grouped (fun a b : Pos => a.val ≤ b.val) (hostPortClaims manifests)).filterMap
    fun (port, owners) =>
      let kept := dedupeActiveRuntimeOwners owners
      if 1 < kept.length then some (.duplicate_host_port port kept) else none

def aliasClaims (manifests : List Scanned) : List (String × Claim Slug) :=
  manifests.flatMap fun scanned => scanned.manifest.services.rows.map fun service =>
    (scanned.manifest.serviceAlias service.name, (scanned.owner, service.name))

def duplicateAliases (manifests : List Scanned) : List Conflict :=
  (grouped (· ≤ ·) (aliasClaims manifests)).filterMap fun (name, owners) =>
    let kept := dedupeActiveRuntimeOwners owners
    if 1 < kept.length then some (.duplicate_docker_alias name kept) else none

/-- The ask endpoints, `_ask_identity`. -/
def askClaims (manifests : List Scanned) : List (Claim NonBlank) :=
  manifests.filterMap fun scanned =>
    scanned.manifest.edge.on_demand_tls.map fun on_demand => (scanned.owner, on_demand.ask)

section
-- `redaction.redact_url`, which shapes what a record shows of an endpoint
variable (redactUrl : String → String)

/-- What a record shows of a catch-all declaration. -/
def catchAllDetail (m : Manifest) (catch_all : CatchAllEdgeConfig) : CatchAllClaim where
  ask := m.edge.on_demand_tls.map fun on_demand => redactUrl on_demand.ask.val
  target_kind := if catch_all.service.isSome then "service" else "upstream"
  service := catch_all.service

def catchAllClaims (manifests : List Scanned) : List (Claim CatchAllClaim) :=
  manifests.filterMap fun scanned => scanned.manifest.edge.catch_all.map fun catch_all =>
    (scanned.owner, catchAllDetail redactUrl scanned.manifest catch_all)

/-- `_edge_resource_conflicts`. -/
def edgeResourceConflicts (manifests : List Scanned) : List Conflict :=
  let ask_owners := dedupeActiveRuntimeOwners (askClaims manifests)
  let ask_identities := (ask_owners.map fun claim => claim.2).dedup
  let public_owners := ask_owners.map fun claim => (claim.1, redactUrl claim.2.val)
  let catch_all_owners := dedupeActiveRuntimeOwners (catchAllClaims redactUrl manifests)
  (if 1 < ask_identities.length then
    [.conflicting_on_demand_tls_ask ask_identities.length
      ((public_owners.map Prod.snd).dedup.insertionSort (· ≤ ·)) public_owners]
  else []) ++
    if 1 < catch_all_owners.length then [.duplicate_catch_all_edge catch_all_owners] else []

def invalidManifests (input : ScanInput) : List Conflict :=
  input.declared.filterMap fun (path, loaded) =>
    match loaded with
    | .ok _ => none
    | .error error => some (.manifest_invalid path error)

def conflicts (input : ScanInput) : List Conflict :=
  let manifests := scannedManifests input
  duplicateAppIds manifests ++ duplicateDomains manifests ++ duplicateRoutes manifests ++
    duplicateHostPorts manifests ++ duplicateAliases manifests ++
    edgeResourceConflicts redactUrl manifests ++ invalidManifests input

end

/-! ### Warnings -/

inductive Warning where
  | staging_manifest_using_production_like_host (path : String) (app : Slug) (owner : Owner)
      (domains : List String)
  | production_manifest_using_staging_like_host (path : String) (app : Slug) (owner : Owner)
      (domains : List String)
  | missing_verification_checks (path : String) (app : Slug) (owner : Owner)

/-- `"staging" in domain or "-staging" in domain`. -/
def stagingLike (domain : String) : Bool :=
  contains "staging".toList domain.toList || contains "-staging".toList domain.toList

/-- `_environment_host_warnings` for one manifest. -/
def environmentHostWarnings (scanned : Scanned) : List Warning :=
  let domains := ((scanned.manifest.routes.map fun route =>
    normalizeDomain route.domain.val).dedup).insertionSort (· ≤ ·)
  match scanned.manifest.environment with
  | some .staging =>
      let production_like := domains.filter fun domain => !stagingLike domain
      if production_like.isEmpty then []
      else [.staging_manifest_using_production_like_host scanned.path scanned.manifest.app
        scanned.owner production_like]
  | some .production =>
      let staging_like := domains.filter stagingLike
      if staging_like.isEmpty then []
      else [.production_manifest_using_staging_like_host scanned.path scanned.manifest.app
        scanned.owner staging_like]
  | some .dev | none => []

/-- `verify.verification_checks`. -/
def verificationChecks (m : Manifest) : List VerificationCheck :=
  if !m.verify.isEmpty then m.verify
  else
    match m.profile with
    | none => []
    | some .console =>
        let domains := (adminDomain m).toList ++ m.routes.map (·.domain)
        match domains with
        | [] => []
        | primary :: _ =>
            let check (name path : String) : VerificationCheck :=
              { name := some name, url := some ("https://" ++ primary.val ++ path) }
            if m.console.any fun console => console.surface = .root then
              [check "health" "/health", check "landing" "/", check "console-fallback" "/console"]
            else [check "health" "/health", check "console" "/console"]

/-- `_missing_verification_warnings` for one manifest. -/
def missingVerificationWarnings (scanned : Scanned) : List Warning :=
  if (verificationChecks scanned.manifest).isEmpty then
    [.missing_verification_checks scanned.path scanned.manifest.app scanned.owner]
  else []

def warnings (input : ScanInput) : List Warning :=
  (scannedManifests input).flatMap environmentHostWarnings ++
    (scannedManifests input).flatMap missingVerificationWarnings

structure ScanReport where
  ok : Bool
  conflicts : List Conflict
  warnings : List Warning
  manifest_count : Nat
  summary : String

/-- `scan_conflicts`. -/
def scanConflicts (redactUrl : String → String) (input : ScanInput) : ScanReport :=
  let found := conflicts redactUrl input
  let warned := warnings input
  let count := (scannedManifests input).length
  { ok := found.isEmpty
    conflicts := found
    warnings := warned
    manifest_count := count
    summary := toString found.length ++ " conflict(s), " ++ toString warned.length ++
      " warning(s) across " ++ toString count ++ " manifest(s)." }

/-! ### What is rendered on the host -/

inductive HostResource where
  | siteAddress (address : String)
  | hostPort (port : Pos)
  | edgeAlias (name : String)
  | namedVolume (name : String)
  | staticRoot (root : String)
deriving DecidableEq

/-- The resources of the host that the rendered bundle of a manifest claims; nothing is rendered
where `render_caddy` raises. -/
def hostResources (m : Manifest) : List HostResource :=
  (match siteAddresses m with
    | .ok addresses => addresses.map .siteAddress
    | .error _ => []) ++
  (publishedHostPorts m).map .hostPort ++ (edgeAliases m).map .edgeAlias ++
  (namedVolumes m).map .namedVolume ++ (staticCaddyRoot m).toList.map .staticRoot

/-- A resource that two manifests may both render though the scan is without conflicts: the
domain of an admin console, which is no declared route of one of them; a static root outside
the managed tree; a data volume, where one application name is a hyphenated beginning of the
other and the hyphens do not tell the names apart. -/
def Unscanned (m m' : Manifest) : HostResource → Prop
  | .siteAddress address =>
      ∃ admin : Domain, address = admin.val ∧ (adminDomain m = some admin ∨ adminDomain m' = some admin)
  | .staticRoot root => isAbsolute root = true
  | .namedVolume _ => HyphenPrefix m.app m'.app ∨ HyphenPrefix m'.app m.app
  | .hostPort _ => False
  | .edgeAlias _ => False

/-! ### One owner of each application survives -/

theorem exists_dedupe_of_app {claims : List (Claim α)} {claim : Claim α} (h : claim ∈ claims) :
    ∃ kept ∈ dedupeActiveRuntimeOwners claims, kept.1.app = claim.1.app := by
  by_cases hsuper : superseded claims claim = true
  · have hany := (Bool.and_eq_true _ _ |>.mp hsuper).2
    obtain ⟨other, hother, hmatch⟩ := List.any_eq_true.mp hany
    simp only [Bool.and_eq_true, beq_iff_eq] at hmatch
    obtain ⟨⟨hsource, happ⟩, -⟩ := hmatch
    refine ⟨other, List.mem_filter.mpr ⟨hother, ?_⟩, happ⟩
    -- a declared claim is never superseded
    simp [superseded, hsource]
  · exact ⟨claim, List.mem_filter.mpr ⟨h, by simpa using hsuper⟩, rfl⟩

theorem one_lt_dedupe {claims : List (Claim α)} {claim claim' : Claim α} (h : claim ∈ claims)
    (h' : claim' ∈ claims) (hne : claim.1.app ≠ claim'.1.app) :
    1 < (dedupeActiveRuntimeOwners claims).length := by
  obtain ⟨kept, hkept, happ⟩ := exists_dedupe_of_app h
  obtain ⟨kept', hkept', happ'⟩ := exists_dedupe_of_app h'
  refine one_lt_length hkept hkept' fun heq => hne ?_
  rw [← happ, ← happ', heq]

theorem one_lt_ownerKeys {claims : List (Claim α)} {claim claim' : Claim α} (h : claim ∈ claims)
    (h' : claim' ∈ claims) (hne : claim.1.app ≠ claim'.1.app) :
    1 < (ownerKeys claims).length := by
  obtain ⟨kept, hkept, happ⟩ := exists_dedupe_of_app h
  obtain ⟨kept', hkept', happ'⟩ := exists_dedupe_of_app h'
  have hmem : ∀ c ∈ dedupeActiveRuntimeOwners claims,
      (c.1.app, c.1.environment, c.1.manifest_path) ∈ ownerKeys claims := fun c hc =>
    List.mem_dedup.mpr (List.mem_map.mpr ⟨c, hc, rfl⟩)
  refine one_lt_length (hmem kept hkept) (hmem kept' hkept') fun heq => hne ?_
  rw [← happ, ← happ']
  exact congrArg Prod.fst heq

/-- Where no group is reported, a key belongs to one application. -/
theorem app_eq_of_unreported {κ β : Type} [DecidableEq κ] {le : κ → κ → Prop} [DecidableRel le]
    {entries : List (κ × Claim α)} {count : List (Claim α) → Nat}
    {report : κ × List (Claim α) → β}
    (hcount : ∀ claims claim claim', claim ∈ claims → claim' ∈ claims →
      claim.1.app ≠ claim'.1.app → 1 < count claims)
    (h : (grouped le entries).filterMap (fun group =>
      if 1 < count group.2 then some (report group) else none) = [])
    {key : κ} {claim claim' : Claim α} (hclaim : (key, claim) ∈ entries)
    (hclaim' : (key, claim') ∈ entries) : claim.1.app = claim'.1.app := by
  obtain ⟨group, hgroup, hall⟩ := exists_grouped le hclaim
  by_contra hne
  have hmany : 1 < count group :=
    hcount group claim claim' (hall claim hclaim) (hall claim' hclaim') hne
  have hnone := List.filterMap_eq_nil_iff.mp h (key, group) hgroup
  rw [if_pos hmany] at hnone
  cases hnone

/-! ### A scan without conflicts -/

section

variable {redactUrl : String → String} {input : ScanInput}

theorem app_scanned {scanned : Scanned} (h : scanned ∈ scannedManifests input) :
    scanned.owner.app = scanned.manifest.app := by
  rcases List.mem_append.mp h with h | h
  · obtain ⟨⟨path, loaded⟩, -, heq⟩ := List.mem_filterMap.mp h
    cases loaded with
    | error _ => cases heq
    | ok m =>
        cases heq
        rfl
  · obtain ⟨⟨path, loaded, release_id⟩, -, heq⟩ := List.mem_filterMap.mp h
    cases loaded with
    | error _ => cases heq
    | ok m =>
        cases heq
        rfl

theorem ok_scanConflicts (redactUrl : String → String) (input : ScanInput) :
    (scanConflicts redactUrl input).ok = (conflicts redactUrl input).isEmpty := by
  simp only [scanConflicts]

/-- The conflicts of each kind, where there is none at all. -/
theorem parts_of_ok (h : (scanConflicts redactUrl input).ok = true) :
    duplicateDomains (scannedManifests input) = [] ∧
      duplicateHostPorts (scannedManifests input) = [] ∧
      duplicateAliases (scannedManifests input) = [] ∧
      edgeResourceConflicts redactUrl (scannedManifests input) = [] := by
  rw [ok_scanConflicts, List.isEmpty_iff] at h
  simp only [conflicts, List.append_eq_nil_iff] at h
  obtain ⟨⟨⟨⟨⟨⟨-, hdomains⟩, -⟩, hports⟩, haliases⟩, hedge⟩, -⟩ := h
  exact ⟨hdomains, hports, haliases, hedge⟩

variable {scanned scanned' : Scanned}

theorem disjoint_routes (h : (scanConflicts redactUrl input).ok = true)
    (hmem : scanned ∈ scannedManifests input) (hmem' : scanned' ∈ scannedManifests input)
    {route route' : RouteConfig} (hroute : route ∈ scanned.manifest.routes)
    (hroute' : route' ∈ scanned'.manifest.routes) (hdomain : route.domain = route'.domain) :
    scanned.manifest.app = scanned'.manifest.app := by
  have hentry : ∀ {s : Scanned} {r : RouteConfig}, s ∈ scannedManifests input →
      r ∈ s.manifest.routes →
      (normalizeDomain r.domain.val, (s.owner, routeMatchText r)) ∈
        domainClaims (scannedManifests input) := fun hs hr =>
    List.mem_flatMap.mpr ⟨_, hs, List.mem_map.mpr ⟨_, hr, rfl⟩⟩
  have happ := app_eq_of_unreported (fun _ _ _ => one_lt_ownerKeys) (parts_of_ok h).1
    (hentry hmem hroute) (hdomain ▸ hentry hmem' hroute')
  rwa [app_scanned hmem, app_scanned hmem'] at happ

theorem disjoint_hostPorts (h : (scanConflicts redactUrl input).ok = true)
    (hmem : scanned ∈ scannedManifests input) (hmem' : scanned' ∈ scannedManifests input)
    {port : Pos} (hport : port ∈ publishedHostPorts scanned.manifest)
    (hport' : port ∈ publishedHostPorts scanned'.manifest) :
    scanned.manifest.app = scanned'.manifest.app := by
  have hentry : ∀ {s : Scanned}, s ∈ scannedManifests input →
      port ∈ publishedHostPorts s.manifest →
      ∃ service, (port, (s.owner, service)) ∈ hostPortClaims (scannedManifests input) := by
    intro s hs hpublished
    unfold publishedHostPorts at hpublished
    split at hpublished
    · obtain ⟨service, hservice, hsome⟩ := List.mem_filterMap.mp hpublished
      refine ⟨service.name, List.mem_flatMap.mpr ⟨s, hs, List.mem_filterMap.mpr
        ⟨service, hservice, ?_⟩⟩⟩
      rw [hsome]
      rfl
    · cases hpublished
  obtain ⟨service, hclaim⟩ := hentry hmem hport
  obtain ⟨service', hclaim'⟩ := hentry hmem' hport'
  have hnil : (grouped (fun a b : Pos => a.val ≤ b.val) (hostPortClaims (scannedManifests input))).filterMap
      (fun group => if 1 < (dedupeActiveRuntimeOwners group.2).length then
        some (Conflict.duplicate_host_port group.1 (dedupeActiveRuntimeOwners group.2))
      else none) = [] := (parts_of_ok h).2.1
  have happ := app_eq_of_unreported (fun _ _ _ => one_lt_dedupe) hnil hclaim hclaim'
  rwa [app_scanned hmem, app_scanned hmem'] at happ

theorem disjoint_aliases (h : (scanConflicts redactUrl input).ok = true)
    (hmem : scanned ∈ scannedManifests input) (hmem' : scanned' ∈ scannedManifests input)
    {name : String} (hname : name ∈ edgeAliases scanned.manifest)
    (hname' : name ∈ edgeAliases scanned'.manifest) :
    scanned.manifest.app = scanned'.manifest.app := by
  have hentry : ∀ {s : Scanned}, s ∈ scannedManifests input → name ∈ edgeAliases s.manifest →
      ∃ service, (name, (s.owner, service)) ∈ aliasClaims (scannedManifests input) := by
    intro s hs halias
    unfold edgeAliases at halias
    split at halias
    · obtain ⟨service, hservice, heq⟩ := List.mem_map.mp halias
      exact ⟨service.name, List.mem_flatMap.mpr ⟨s, hs, List.mem_map.mpr
        ⟨service, hservice, by rw [heq]⟩⟩⟩
    · cases halias
  obtain ⟨service, hclaim⟩ := hentry hmem hname
  obtain ⟨service', hclaim'⟩ := hentry hmem' hname'
  have hnil : (grouped (· ≤ ·) (aliasClaims (scannedManifests input))).filterMap
      (fun group => if 1 < (dedupeActiveRuntimeOwners group.2).length then
        some (Conflict.duplicate_docker_alias group.1 (dedupeActiveRuntimeOwners group.2))
      else none) = [] := (parts_of_ok h).2.2.1
  have happ := app_eq_of_unreported (fun _ _ _ => one_lt_dedupe) hnil hclaim hclaim'
  rwa [app_scanned hmem, app_scanned hmem'] at happ

theorem edge_of_ok (h : (scanConflicts redactUrl input).ok = true) :
    ((dedupeActiveRuntimeOwners (askClaims (scannedManifests input))).map fun claim =>
        claim.2).dedup.length ≤ 1 ∧
      (dedupeActiveRuntimeOwners (catchAllClaims redactUrl (scannedManifests input))).length ≤ 1 := by
  have hnil := (parts_of_ok h).2.2.2
  simp only [edgeResourceConflicts, List.append_eq_nil_iff, ite_eq_right_iff,
    imp_false, not_lt, List.cons_ne_nil] at hnil
  exact hnil

/-- The catch-all sites belong to one application. -/
theorem disjoint_catchAll (h : (scanConflicts redactUrl input).ok = true)
    (hmem : scanned ∈ scannedManifests input) (hmem' : scanned' ∈ scannedManifests input)
    (hcatch : scanned.manifest.edge.catch_all.isSome)
    (hcatch' : scanned'.manifest.edge.catch_all.isSome) :
    scanned.manifest.app = scanned'.manifest.app := by
  have hentry : ∀ {s : Scanned}, s ∈ scannedManifests input → s.manifest.edge.catch_all.isSome →
      ∃ detail, (s.owner, detail) ∈ catchAllClaims redactUrl (scannedManifests input) := by
    intro s hs hsome
    obtain ⟨catch_all, heq⟩ := Option.isSome_iff_exists.mp hsome
    refine ⟨catchAllDetail redactUrl s.manifest catch_all, List.mem_filterMap.mpr ⟨s, hs, ?_⟩⟩
    rw [heq, Option.map_some]
  obtain ⟨detail, hclaim⟩ := hentry hmem hcatch
  obtain ⟨detail', hclaim'⟩ := hentry hmem' hcatch'
  by_contra hne
  have hmany := one_lt_dedupe hclaim hclaim' (by rwa [app_scanned hmem, app_scanned hmem'])
  exact absurd (edge_of_ok h).2 (by omega)

/-- The ask endpoints that are not superseded are one. -/
theorem ask_eq (h : (scanConflicts redactUrl input).ok = true) {claim claim' : Claim NonBlank}
    (hclaim : claim ∈ dedupeActiveRuntimeOwners (askClaims (scannedManifests input)))
    (hclaim' : claim' ∈ dedupeActiveRuntimeOwners (askClaims (scannedManifests input))) :
    claim.2 = claim'.2 := by
  by_contra hne
  have hmem : ∀ c ∈ dedupeActiveRuntimeOwners (askClaims (scannedManifests input)),
      c.2 ∈ ((dedupeActiveRuntimeOwners (askClaims (scannedManifests input))).map fun claim =>
        claim.2).dedup := fun c hc => List.mem_dedup.mpr (List.mem_map.mpr ⟨c, hc, rfl⟩)
  have hmany := one_lt_length (hmem claim hclaim) (hmem claim' hclaim') hne
  exact absurd (edge_of_ok h).1 (by omega)

end

/-! ### Completeness -/

theorem slash_notMem_domain (d : Domain) : '/' ∉ d.val.toList := by
  intro hmem
  have hok := d.ok
  simp only [isDomain, Bool.and_eq_true, List.all_eq_true] at hok
  obtain ⟨part, hpart, hin⟩ : ∃ part ∈ d.val.toList.splitOn '.', '/' ∈ part := by
    by_contra hnone
    push Not at hnone
    have hjoin : d.val.toList = ['.'].intercalate (d.val.toList.splitOn '.') :=
      (List.intercalate_splitOn '.').symm
    rw [hjoin] at hmem
    rcases mem_intercalate hmem with h | ⟨part, hpart, h⟩
    · exact absurd h (by decide)
    · exact hnone part hpart h
  have hlabel := hok.1.2 part hpart
  simp only [isDomainLabel, Bool.and_eq_true, List.all_eq_true] at hlabel
  exact absurd (hlabel.1.1.2 '/' hin) (by decide)

/-- An effective route is declared, or it is that of the admin domain. -/
theorem mem_effectiveRoutes {m : Manifest} {routes : List RouteConfig} {route : RouteConfig}
    (h : effectiveRoutes m = .ok routes) (hmem : route ∈ routes) :
    route ∈ m.routes ∨ adminDomain m = some route.domain := by
  unfold effectiveRoutes at h
  cases hadmin : adminDomain m with
  | none =>
      rw [hadmin] at h
      cases h
      exact Or.inl hmem
  | some admin =>
      rw [hadmin] at h
      dsimp only at h
      split at h
      · cases h
        exact Or.inl hmem
      · cases hservice : defaultServiceName m with
        | error _ =>
            rw [hservice] at h
            cases h
        | ok service =>
            rw [hservice] at h
            cases h
            refine (List.mem_append.mp hmem).imp_right fun hlast => ?_
            rw [List.mem_singleton.mp hlast]

/-- An address of a site is the domain of a declared route, an admin domain or one of the two
catch-all addresses. -/
theorem siteAddress_cases {m : Manifest} {addresses : List String} {address : String}
    (h : siteAddresses m = .ok addresses) (hmem : address ∈ addresses) :
    (∃ route ∈ m.routes, address = route.domain.val) ∨
      (∃ admin, adminDomain m = some admin ∧ address = admin.val) ∨
      m.edge.catch_all.isSome ∧ '/' ∈ address.toList := by
  have hcatch : ∀ address ∈ m.edge.catch_all.elim [] catchAllAddresses,
      m.edge.catch_all.isSome ∧ '/' ∈ address.toList := by
    cases hall : m.edge.catch_all with
    | none => simp
    | some catch_all =>
        intro address haddress
        refine ⟨rfl, ?_⟩
        simp only [Option.elim, catchAllAddresses, List.mem_append, List.mem_singleton] at haddress
        rcases haddress with haddress | rfl
        · split at haddress
          · rw [List.mem_singleton.mp haddress]
            decide
          · cases haddress
        · decide
  obtain ⟨routes, hroutes, heq⟩ : ∃ routes, effectiveRoutes m = .ok routes ∧
      addresses = (routes.map (·.domain.val)).dedup ++ m.edge.catch_all.elim [] catchAllAddresses := by
    unfold siteAddresses at h
    cases hroutes : effectiveRoutes m with
    | error _ =>
        rw [hroutes] at h
        cases h
    | ok routes =>
        rw [hroutes] at h
        cases h
        exact ⟨routes, rfl, rfl⟩
  rw [heq, List.mem_append, List.mem_dedup, List.mem_map] at hmem
  rcases hmem with ⟨route, hroute, rfl⟩ | hmem
  · rcases mem_effectiveRoutes hroutes hroute with hdeclared | hadmin
    · exact Or.inl ⟨route, hdeclared, rfl⟩
    · exact Or.inr (Or.inl ⟨route.domain, hadmin, rfl⟩)
  · exact Or.inr (Or.inr (hcatch address hmem))

/-- Managed static roots are told apart by the application. -/
theorem app_eq_of_staticCaddyRoot {m m' : Manifest} {root : String}
    (hrelative : isAbsolute root = false) (h : staticCaddyRoot m = some root)
    (h' : staticCaddyRoot m' = some root) : m.app = m'.app := by
  have hroot : ∀ {m : Manifest}, staticCaddyRoot m = some root →
      root = "{$OPHELIA_STATIC_ROOT}/" ++ m.app.val ++ "/current" := by
    intro m h
    unfold staticCaddyRoot at h
    split at h
    · obtain ⟨declared, -, heq⟩ := Option.map_eq_some_iff.mp h
      split at heq
      · rename_i habsolute
        rw [heq, hrelative] at habsolute
        cases habsolute
      · rw [← heq, staticRuntimeAppName, safeDockerName_eq_self (PlainName.of_slug _)]
    · cases h
  have heq := (hroot h).symm.trans (hroot h')
  exact Refined.ext (String.append_right_inj _ |>.mp (String.append_left_inj _ |>.mp heq))

/-- What it means for a resource to be rendered. -/
theorem mem_hostResources {m : Manifest} {resource : HostResource} :
    resource ∈ hostResources m ↔
      match resource with
      | .siteAddress address => ∃ addresses, siteAddresses m = .ok addresses ∧ address ∈ addresses
      | .hostPort port => port ∈ publishedHostPorts m
      | .edgeAlias name => name ∈ edgeAliases m
      | .namedVolume name => name ∈ namedVolumes m
      | .staticRoot root => staticCaddyRoot m = some root := by
  unfold hostResources
  cases hsites : siteAddresses m with
  | error _ => cases resource <;> simp
  | ok addresses => cases resource <;> simp

theorem exists_volume_of_named {m : Manifest} {name : String} (h : name ∈ namedVolumes m) :
    ∃ volume, dataVolumeName m volume = name := by
  unfold namedVolumes at h
  split at h
  · obtain ⟨volume, -, heq⟩ := List.mem_map.mp h
    exact ⟨volume, heq⟩
  · cases h

/-- What two scanned manifests of different applications have in common, when the scan reports
no conflict: nothing but what it does not read. The ask endpoint is one for the whole host,
unless a declaration has taken the place of an active one. -/
theorem scan_complete (redactUrl : String → String) (input : ScanInput)
    (h : (scanConflicts redactUrl input).ok = true) :
    (∀ scanned ∈ scannedManifests input, ∀ scanned' ∈ scannedManifests input,
      scanned.manifest.app ≠ scanned'.manifest.app →
        (∀ resource ∈ hostResources scanned.manifest, resource ∈ hostResources scanned'.manifest →
          Unscanned scanned.manifest scanned'.manifest resource) ∧
        (scanned.manifest.edge.catch_all = none ∨ scanned'.manifest.edge.catch_all = none)) ∧
    ∀ claim ∈ dedupeActiveRuntimeOwners (askClaims (scannedManifests input)),
      ∀ claim' ∈ dedupeActiveRuntimeOwners (askClaims (scannedManifests input)),
        claim.2 = claim'.2 := by
  refine ⟨fun scanned hmem scanned' hmem' hne => ⟨fun resource hres hres' => ?_, ?_⟩,
    fun claim hclaim claim' hclaim' => ask_eq h hclaim hclaim'⟩
  · rw [mem_hostResources] at hres hres'
    cases resource with
    | siteAddress address =>
        obtain ⟨addresses, haddresses, hin⟩ := hres
        obtain ⟨addresses', haddresses', hin'⟩ := hres'
        rcases siteAddress_cases haddresses hin with ⟨route, hroute, rfl⟩ | ⟨admin, hadmin, rfl⟩ | hall
        · rcases siteAddress_cases haddresses' hin' with
            ⟨route', hroute', hdomain⟩ | ⟨admin, hadmin, hdomain⟩ | hall'
          · exact absurd (disjoint_routes h hmem hmem' hroute hroute' (Refined.ext hdomain)) hne
          · exact ⟨admin, hdomain, Or.inr hadmin⟩
          · exact absurd hall'.2 (slash_notMem_domain _)
        · exact ⟨admin, rfl, Or.inl hadmin⟩
        · rcases siteAddress_cases haddresses' hin' with
            ⟨route', hroute', rfl⟩ | ⟨admin, hadmin, rfl⟩ | hall'
          · exact absurd hall.2 (slash_notMem_domain _)
          · exact absurd hall.2 (slash_notMem_domain _)
          · exact absurd (disjoint_catchAll h hmem hmem' hall.1 hall'.1) hne
    | hostPort port => exact absurd (disjoint_hostPorts h hmem hmem' hres hres') hne
    | edgeAlias name => exact absurd (disjoint_aliases h hmem hmem' hres hres') hne
    | namedVolume name =>
        obtain ⟨volume, hvolume⟩ := exists_volume_of_named hres
        obtain ⟨volume', hvolume'⟩ := exists_volume_of_named hres'
        exact hyphenPrefix_of_dataVolumeName_eq (hvolume.trans hvolume'.symm) hne
    | staticRoot root =>
        by_contra hrelative
        exact hne (app_eq_of_staticCaddyRoot (Bool.eq_false_iff.mpr hrelative) hres hres')
  · by_contra hboth
    rw [not_or] at hboth
    exact hne (disjoint_catchAll h hmem hmem' (Option.isSome_iff_ne_none.mpr hboth.1)
      (Option.isSome_iff_ne_none.mpr hboth.2))

/-! ### Two applications with one directory -/

/-- The inputs whose manifests are all accepted. -/
def ScanInput.Accepted (input : ScanInput) : Prop :=
  ∀ scanned ∈ scannedManifests input, scanned.manifest.Accepted

/-- Nothing that is rendered on the host belongs to two applications, when the scan reports no
conflict. -/
def ScanCoversHost (redactUrl : String → String) : Prop :=
  ∀ input : ScanInput, input.Accepted → (scanConflicts redactUrl input).ok = true →
    ∀ scanned ∈ scannedManifests input, ∀ scanned' ∈ scannedManifests input,
      scanned.manifest.app ≠ scanned'.manifest.app →
        (hostResources scanned.manifest).Disjoint (hostResources scanned'.manifest)

/-- A site of files that an operator keeps below `/srv/site`. -/
def siteApp (app : Slug) (domain : Domain) : Manifest where
  app := app
  kind := .static
  environment := some .production
  routes := [{ domain := domain }]
  static_root := some ⟨"/srv/site", by decide⟩

/-- Two applications that serve the same directory. -/
def siteInput : ScanInput where
  declared :=
    [("docs.ophelia.yml", .ok (siteApp ⟨"docs", by decide⟩ ⟨"docs.example.org", by decide⟩)),
      ("press.ophelia.yml", .ok (siteApp ⟨"press", by decide⟩ ⟨"press.example.org", by decide⟩))]
  active := []

theorem not_scanCoversHost : ¬ ∃ redactUrl, ScanCoversHost redactUrl := by
  intro ⟨redactUrl, hcovers⟩
  have haccepted : siteInput.Accepted := by
    intro scanned hmem
    rcases List.mem_cons.mp hmem with rfl | hmem
    · rfl
    · rw [List.mem_singleton.mp hmem]
      rfl
  have hserved : ∀ app domain,
      HostResource.staticRoot "/srv/site" ∈ hostResources (siteApp app domain) :=
    fun _ _ => mem_hostResources.mpr rfl
  exact hcovers siteInput haccepted rfl _ (List.mem_cons_self ..) _
    (List.mem_cons_of_mem _ (List.mem_cons_self ..)) (by decide) (hserved _ _) (hserved _ _)

/-- An application with a published service, a volume and certificates on demand. -/
def shopApp (app : Slug) (domain : Domain) (port : Pos)
    (catch_all : Option CatchAllEdgeConfig) : Manifest where
  app := app
  kind := .service
  environment := some .production
  image := some ⟨"registry.example/web:1", by decide⟩
  services := Table.empty.put { name := webService, port := ⟨8080, by decide⟩, host_port := some port }
  routes := [{ domain := domain, service := some webService }]
  edge := { on_demand_tls := some ⟨⟨"http://ask.example/check", by decide⟩⟩, catch_all := catch_all }
  data := { volumes := [{ name := ⟨"data", by decide⟩, mount := some ⟨"/data", by decide⟩ }] }

/-- A shop that also answers for every other domain. -/
def shop : Manifest :=
  shopApp ⟨"shop", Eq.refl true⟩ ⟨"shop.example.com", by decide⟩ ⟨9001, by decide⟩
    (some { service := some webService })

def blog : Manifest :=
  shopApp ⟨"blog", by decide⟩ ⟨"blog.example.com", by decide⟩ ⟨9002, by decide⟩ none

def shopInput : ScanInput where
  declared := [("blog.ophelia.yml", .ok blog), ("shop.ophelia.yml", .ok shop)]
  active := []

/-- Two applications of one host, with nothing in common but the ask endpoint. -/
theorem scan_complete_shop :
    (scanConflicts id shopInput).ok = true ∧
      (∀ resource ∈ hostResources shop, resource ∈ hostResources blog →
        Unscanned shop blog resource) ∧
      (shop.edge.catch_all = none ∨ blog.edge.catch_all = none) ∧
      (askClaims (scannedManifests shopInput)).length = 2 ∧
      ∀ claim ∈ dedupeActiveRuntimeOwners (askClaims (scannedManifests shopInput)),
        ∀ claim' ∈ dedupeActiveRuntimeOwners (askClaims (scannedManifests shopInput)),
          claim.2 = claim'.2 := by
  have hok : (scanConflicts id shopInput).ok = true := by decide
  obtain ⟨hdisjoint, hask⟩ := scan_complete id shopInput hok
  have happs := hdisjoint ⟨_, shop, declaredOwner "shop.ophelia.yml" shop⟩
    (List.mem_cons_of_mem _ List.mem_cons_self) ⟨_, blog, declaredOwner "blog.ophelia.yml" blog⟩
    List.mem_cons_self (by decide)
  exact ⟨hok, happs.1, happs.2, by decide, hask⟩

end Ophelia.V1
