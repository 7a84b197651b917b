import Mathlib.Data.List.Dedup
import Mathlib.Data.List.Induction
import Ophelia.Lib.EnvFile
import Ophelia.Lib.Results
import Ophelia.ManifestV2.Secrets
import Mathlib.Data.List.Infix

/-!
# Ophelia.ManifestV2.SecretDelivery

From a plan without a secret blocker to the containers. The plan asks whether the references of
a manifest resolve to values of the right form (`manifest_secret_bindings_available`), and
reports a blocker only for a manifest with secrets of its own; the backend resolves them again
and writes them (`_materialize_secrets`, `_materialize_route_auth`), values of environment
secrets as they stand; Compose reads the environment file by rules of its own, below the
`environment` mapping of the service.
-/

namespace Ophelia.V2

open PyText

/-! ### Manifests -/

/-- `RouteClientAuthV2`, with the reference of `forward`. -/
structure RouteClientAuth where
  trust_pool_ref : String
  trust_pool_encoding : SecretEncoding
  authorization_ref : Option String

structure AuthRoute where
  name : Slug
  client_auth : Option RouteClientAuth

/-- What a service finds in its environment besides the secrets. -/
structure ServiceValues where
  env : Table (Prod.fst : String × String → String)
  image : String
  image_digest : String

/-- The values of a revision that every service finds in its environment. -/
structure RevisionValues where
  app : String
  environment : String
  revision_id : String
  revision_digest : String
  manifest_digest : String
  release_id : Option String
  commit_sha : Option String
  build_time : Option String

structure SecretManifest where
  base : Manifest
  routes : List AuthRoute
  values : Runtime → ServiceValues
  revision : RevisionValues

namespace SecretManifest

variable (m : SecretManifest)

/-- The routes with client authentication. -/
def protectedRoutes : List (Slug × RouteClientAuth) :=
  m.routes.filterMap fun route => route.client_auth.map fun auth => (route.name, auth)

/-- `secret_references`. -/
def secretReferences : List String :=
  (m.base.secrets.rows.map Secret.ref ++ m.protectedRoutes.flatMap fun route =>
    route.2.trust_pool_ref :: route.2.authorization_ref.toList).dedup.insertionSort (· ≤ ·)

/-- The `environment` mapping of a rendered service. -/
def environment (r : Runtime) : Table (Prod.fst : String × String → String) :=
  let values := m.values r
  let revision := m.revision
  let entries := [("OPHELIA_APP", revision.app), ("OPHELIA_ENVIRONMENT", revision.environment),
    ("OPHELIA_REVISION_ID", revision.revision_id),
    ("OPHELIA_REVISION_DIGEST", revision.revision_digest), ("OPHELIA_WORKLOAD", r.workload),
    ("OPHELIA_SERVICE", r.workload),
    ("OPHELIA_RELEASE_ID", revision.release_id.getD revision.revision_id),
    ("OPHELIA_IMAGE_REF", values.image), ("OPHELIA_IMAGE_DIGEST", values.image_digest),
    ("OPHELIA_MANIFEST_HASH", revision.manifest_digest)] ++
    (revision.commit_sha.elim [] fun commit_sha => [("OPHELIA_COMMIT_SHA", commit_sha)]) ++
    (revision.build_time.elim [] fun build_time => [("OPHELIA_BUILD_TIME", build_time)]) ++
    ((m.base.targeted r).filter fun secret => secret.mode = .file).map fun secret =>
      (secret.name.val, secret.target.getD "")
  entries.foldl (fun environment entry => environment.put entry) values.env

end SecretManifest

/-! ### Availability -/

/-- `_decoded_file_value`. -/
def decodedFileValue (source : SecretSource) (value : String) (encoding : SecretEncoding) :
    Option FileBytes :=
  if value.isEmpty || value.toList.contains '\x00' then none
  else
    let decoded := match encoding with
      | .plain => some (encode value)
      | .base64 => source.decode64 value
    decoded.filter fun bytes =>
      !(bytes.isEmpty || decide (2 * 1024 * 1024 < bytes.length) || bytes.contains 0)

/-- `-----BEGIN CERTIFICATE-----`. -/
def CERTIFICATE_MARK : FileBytes :=
  encode "-----BEGIN CERTIFICATE-----"

def secretAvailable (source : SecretSource) (secret : Secret) : Bool :=
  match source.resolve secret.ref with
  | none => false
  | some value =>
      !(value.isEmpty || value.toList.contains '\x00') &&
        match secret.mode with
        | .env => !(value.toList.contains '\r' || value.toList.contains '\n')
        | .file => (decodedFileValue source value secret.encoding).isSome

def routeAvailable (source : SecretSource) (auth : RouteClientAuth) : Bool :=
  match source.resolve auth.trust_pool_ref with
  | none => false
  | some trust =>
      (decodedFileValue source trust auth.trust_pool_encoding).any
          (fun bytes => decide (CERTIFICATE_MARK <:+: bytes)) &&
        match auth.authorization_ref with
        | none => true
        | some authorization_ref => (source.resolve authorization_ref).any isAuthorization

/-- `manifest_secret_bindings_available`. -/
def bindingsAvailable (source : SecretSource) (m : SecretManifest) : Bool :=
  m.base.secrets.rows.all (secretAvailable source) &&
    m.protectedRoutes.all fun route => routeAvailable source route.2

/-- `plan_manifest_v2` reports `secret_bindings_unavailable`. -/
def secretBlocker (source : Option SecretSource) (m : SecretManifest) : Bool :=
  let secret_refs_available :=
    if m.secretReferences.isEmpty then true
    else match source with
      | none => false
      | some source => bindingsAvailable source m
  !m.base.secrets.rows.isEmpty && !secret_refs_available

/-! ### Route credentials -/

/-- Trust pools and authorizations by route. -/
structure RouteAuthFiles where
  trust : List (Slug × FileBytes)
  authorizations : List (Slug × String)

/-- The body of the loop over the routes. -/
def materializeRoute (source : SecretSource) (files : RouteAuthFiles)
    (route : Slug × RouteClientAuth) : Except String RouteAuthFiles :=
  match source.resolve route.2.trust_pool_ref with
  | none => .error "Route trust resolver returned an invalid value."
  | some trust =>
      if trust.isEmpty || trust.toList.contains '\x00' then
        .error "Route trust resolver returned an invalid value."
      else do
        let bytes ← decodeSecretFile source trust route.2.trust_pool_encoding
        if ¬ CERTIFICATE_MARK <:+: bytes then
          .error "Route trust pool is not a PEM certificate bundle."
        else
          let files := { files with trust := files.trust ++ [(route.1, bytes)] }
          match route.2.authorization_ref with
          | none => .ok files
          | some authorization_ref =>
              match source.resolve authorization_ref with
              | none => .error "Route authorization resolver returned an invalid value."
              | some authorization =>
                  if isAuthorization authorization then
                    .ok { files with
                      authorizations := files.authorizations ++ [(route.1, authorization)] }
                  else .error "Route authorization resolver returned an invalid value."

/-- `_materialize_route_auth`. -/
def materializeRouteAuth (source : Option SecretSource) (m : SecretManifest) :
    Except String RouteAuthFiles :=
  if m.protectedRoutes.isEmpty then .ok ⟨[], []⟩
  else
    match source with
    | none => .error "No secret resolver is configured."
    | some source => m.protectedRoutes.foldlM (materializeRoute source) ⟨[], []⟩

/-! ### Containers -/

/-- The workload behind a service of the compose document: the last one of that name. -/
def rendered? (m : Manifest) (service : String) : Option Runtime :=
  m.composeWorkloads.reverse.find? fun r => r.service = service

/-- `"\n".join(lines) + "\n"`. -/
def envFileText (lines : List (EnvName × String)) : List Char :=
  joinLines (lines.map fun p => EnvFile.assignment p.1.val.toList p.2.toList)

/-- The value of a name in the container of a service: that of the `environment` mapping, or else
what Compose reads from the environment file of the secrets, which is the last one listed. -/
def containerValue (vars : List Char → List Char) (m : SecretManifest) (tree : SecretTree)
    (r : Runtime) (name : EnvName) : Option (List Char) :=
  match (m.environment r).get? name.val with
  | some entry => some entry.2.toList
  | none =>
      if (composeService m.base r).envFile then
        (tree.envFiles r.service).bind fun lines =>
          EnvFile.lookup? name.val.toList (EnvFile.parse vars (envFileText lines))
      else none

/-- The secrets are delivered: no step of the backend raises on one, and the container of every
service finds the environment secrets of the service as they were resolved, whatever the
variables are that Compose puts into values. -/
def Delivers (source : SecretSource) (m : SecretManifest) : Prop :=
  ∃ tree files, materializeSecrets (some source) m.base = .ok tree ∧
    materializeRouteAuth (some source) m = .ok files ∧
    ∀ service r, rendered? m.base service = some r → ∀ secret ∈ m.base.targeted r,
      secret.mode = .env → ∀ vars, ∃ value, source.resolve secret.ref = some value ∧
        containerValue vars m tree r secret.name = some value.toList

/-- The credentials of the routes are available though no secret is declared, and every
environment secret has a literal value and a name that the service does not use otherwise. -/
def Deliverable (source : SecretSource) (m : SecretManifest) : Prop :=
  (m.base.secrets.rows = [] → ∀ route ∈ m.protectedRoutes, routeAvailable source route.2 = true) ∧
    ∀ service r, rendered? m.base service = some r → ∀ secret ∈ m.base.targeted r,
      secret.mode = .env → ∀ value, source.resolve secret.ref = some value →
        match (m.environment r).get? secret.name.val with
        | some entry => entry.2 = value
        | none => EnvFile.Literal value.toList

/-! ### Validation and materialization -/

theorem foldlM_isOk_iff {α β ε : Type} {f : β → α → Except ε β} {P : α → Prop}
    (hf : ∀ b a, (∃ b', f b a = .ok b') ↔ P a) (l : List α) (b : β) :
    (∃ b', l.foldlM f b = .ok b') ↔ ∀ a ∈ l, P a := by
  induction l generalizing b with
  | nil => exact iff_of_true ⟨b, rfl⟩ fun _ h => absurd h List.not_mem_nil
  | cons a l ih =>
      rw [List.forall_mem_cons, List.foldlM_cons]
      constructor
      · rintro ⟨b', h⟩
        obtain ⟨next, hnext, hrest⟩ := Results.bind_eq_ok.mp h
        exact ⟨(hf b a).mp ⟨next, hnext⟩, (ih next).mp ⟨b', hrest⟩⟩
      · rintro ⟨ha, hl⟩
        obtain ⟨next, hnext⟩ := (hf b a).mpr ha
        obtain ⟨b', hrest⟩ := (ih next).mpr hl
        exact ⟨b', Results.bind_ok hnext hrest⟩

section Validation

variable {source : SecretSource}

/-- The validator decodes what the backend decodes. -/
theorem decodeSecretFile_iff {value : String}
    (h : (value.isEmpty || value.toList.contains '\x00') = false) {encoding : SecretEncoding}
    {bytes : FileBytes} :
    decodeSecretFile source value encoding = .ok bytes ↔
      decodedFileValue source value encoding = some bytes := by
  have hbound (decoded : FileBytes) (message : String) :
      (if (decoded.isEmpty || decide (2 * 1024 * 1024 < decoded.length) || decoded.contains 0) = true
        then (.error message : Except String FileBytes) else .ok decoded) = .ok bytes ↔
      (some decoded).filter (fun bytes =>
        !(bytes.isEmpty || decide (2 * 1024 * 1024 < bytes.length) || bytes.contains 0)) =
        some bytes := by
    rw [Option.filter_some]
    cases decoded.isEmpty || decide (2 * 1024 * 1024 < decoded.length) || decoded.contains 0 with
    | true => simp
    | false => simp
  unfold decodeSecretFile decodedFileValue
  rw [if_neg (ne_true_of_eq_false h)]
  cases encoding with
  | plain => exact hbound _ _
  | base64 =>
      cases source.decode64 value with
      | none => simp
      | some decoded => exact hbound _ _

theorem materializeSecret_isOk_iff (service : String) (state : SecretTree × List (EnvName × String))
    (secret : Secret) :
    (∃ state', materializeSecret source service state secret = .ok state') ↔
      secretAvailable source secret = true := by
  rw [secretAvailable]
  unfold materializeSecret
  cases source.resolve secret.ref with
  | none => simp
  | some value =>
      simp only
      cases hvalue : (value.isEmpty || value.toList.contains '\x00') with
      | true => simp
      | false =>
          simp only [Bool.false_eq_true, if_false, Bool.not_false, Bool.true_and]
          cases secret.mode with
          | env =>
              simp only
              cases hlines : (value.toList.contains '\r' || value.toList.contains '\n') with
              | true => simp
              | false => simp
          | file =>
              simp only [Option.isSome_iff_exists]
              constructor
              · rintro ⟨state', h⟩
                obtain ⟨bytes, hbytes, -⟩ := Results.bind_eq_ok.mp h
                exact ⟨bytes, (decodeSecretFile_iff hvalue).mp hbytes⟩
              · rintro ⟨bytes, hbytes⟩
                exact ⟨_, Results.bind_ok ((decodeSecretFile_iff hvalue).mpr hbytes) rfl⟩

theorem materializeRoute_isOk_iff (files : RouteAuthFiles) (route : Slug × RouteClientAuth) :
    (∃ files', materializeRoute source files route = .ok files') ↔
      routeAvailable source route.2 = true := by
  rw [routeAvailable]
  unfold materializeRoute
  cases source.resolve route.2.trust_pool_ref with
  | none => simp
  | some trust =>
      simp only
      cases hvalue : (trust.isEmpty || trust.toList.contains '\x00') with
      | true =>
          have hnone : decodedFileValue source trust route.2.trust_pool_encoding = none := by
            unfold decodedFileValue
            rw [if_pos hvalue]
          simp [hnone]
      | false =>
          rw [if_neg (by decide)]
          cases hdecoded : decodedFileValue source trust route.2.trust_pool_encoding with
          | none =>
              refine iff_of_false ?_ (by simp)
              rintro ⟨files', h⟩
              obtain ⟨bytes, hbytes, -⟩ := Results.bind_eq_ok.mp h
              rw [decodeSecretFile_iff hvalue, hdecoded] at hbytes
              exact absurd hbytes (by simp)
          | some bytes =>
              have hbytes := (decodeSecretFile_iff hvalue).mpr hdecoded
              rw [hbytes]
              simp only [Option.any_some, Bool.and_eq_true, decide_eq_true_eq]
              simp only [bind, Except.bind]
              by_cases hmark : CERTIFICATE_MARK <:+: bytes
              · rw [if_neg (not_not_intro hmark)]
                cases route.2.authorization_ref with
                | none => exact iff_of_true ⟨_, rfl⟩ ⟨hmark, rfl⟩
                | some authorization_ref =>
                    simp only
                    cases source.resolve authorization_ref with
                    | none => simp
                    | some authorization =>
                        simp only [Option.any_some]
                        cases isAuthorization authorization with
                        | false => simp
                        | true => exact iff_of_true ⟨_, rfl⟩ ⟨hmark, rfl⟩
              · rw [if_pos hmark]
                exact iff_of_false (fun ⟨_, h⟩ => by cases h) fun hand => hmark hand.1

end Validation

/-! ### Rendered services -/

theorem mem_of_rendered? {m : Manifest} {service : String} {r : Runtime}
    (h : rendered? m service = some r) : r ∈ m.composeWorkloads ∧ r.service = service := by
  refine ⟨List.mem_reverse.mp (List.mem_of_find?_eq_some h), ?_⟩
  simpa using List.find?_some h

/-! ### The environment files -/

section EnvFiles

variable {source : SecretSource} {m : Manifest}

/-- A line of an environment file is the name of a secret and what its reference resolves to. -/
def Resolved (source : SecretSource) (m : Manifest) (p : EnvName × String) : Prop :=
  ∃ secret ∈ m.secrets.rows, secret.name = p.1 ∧ source.resolve secret.ref = some p.2 ∧
    '\n' ∉ p.2.toList

def SecretTree.Resolved (source : SecretSource) (m : Manifest) (tree : SecretTree) : Prop :=
  ∀ service lines, tree.envFiles service = some lines → ∀ p ∈ lines, V2.Resolved source m p

theorem materializeSecret_resolved {service : String} {secret : Secret}
    (hsecret : secret ∈ m.secrets.rows) {before after : SecretTree × List (EnvName × String)}
    (h : materializeSecret source service before secret = .ok after)
    (hlines : ∀ p ∈ before.2, V2.Resolved source m p) :
    ∀ p ∈ after.2, V2.Resolved source m p := by
  unfold materializeSecret at h
  cases hresolve : source.resolve secret.ref with
  | none =>
      rw [hresolve] at h
      cases h
  | some value =>
      rw [hresolve] at h
      simp only at h
      split at h
      · cases h
      · cases hmode : secret.mode with
        | env =>
            rw [hmode] at h
            simp only at h
            split at h
            · cases h
            · rename_i hmulti
              cases h
              intro p hp
              rcases List.mem_append.mp hp with hp | hp
              · exact hlines p hp
              · rw [List.mem_singleton.mp hp]
                refine ⟨secret, hsecret, rfl, hresolve, fun hfeed => hmulti ?_⟩
                simp [hfeed]
        | file =>
            rw [hmode] at h
            obtain ⟨bytes, -, h⟩ := Results.bind_eq_ok.mp h
            cases h
            exact hlines

theorem foldlM_resolved {service : String} {secrets : List Secret}
    (hsecrets : ∀ secret ∈ secrets, secret ∈ m.secrets.rows)
    {before after : SecretTree × List (EnvName × String)}
    (h : secrets.foldlM (materializeSecret source service) before = .ok after)
    (hlines : ∀ p ∈ before.2, V2.Resolved source m p) :
    ∀ p ∈ after.2, V2.Resolved source m p := by
  induction secrets generalizing before with
  | nil =>
      cases h
      exact hlines
  | cons secret secrets ih =>
      rw [List.foldlM_cons] at h
      obtain ⟨next, hnext, h⟩ := Results.bind_eq_ok.mp h
      exact ih (fun s hs => hsecrets s (List.mem_cons_of_mem _ hs)) h
        (materializeSecret_resolved (hsecrets secret List.mem_cons_self) hnext hlines)

theorem materializeRuntime_resolved {tree tree' : SecretTree} {r : Runtime}
    (h : materializeRuntime source m tree r = .ok tree') (htree : tree.Resolved source m) :
    tree'.Resolved source m := by
  unfold materializeRuntime at h
  split at h
  · cases h
    exact htree
  · obtain ⟨⟨next, lines⟩, hnext, h⟩ := Results.bind_eq_ok.mp h
    have hlines := foldlM_resolved (fun s hs => (mem_targeted.mp hs).1) hnext
      (fun p hp => absurd hp List.not_mem_nil)
    have henv : next.envFiles = tree.envFiles := (foldlM_lays _ hnext).envFiles
    simp only at h
    split at h
    · cases h
      intro service lines' hget
      rw [henv] at hget
      exact htree service lines' hget
    · cases h
      intro service lines' hget
      by_cases hservice : service = r.service
      · subst hservice
        simp only [Function.update_self, Option.some.injEq] at hget
        exact hget ▸ hlines
      · simp only [Function.update_of_ne hservice, henv] at hget
        exact htree service lines' hget

theorem foldlM_runtime_resolved {rs : List Runtime} {tree tree' : SecretTree}
    (h : rs.foldlM (materializeRuntime source m) tree = .ok tree') (htree : tree.Resolved source m) :
    tree'.Resolved source m := by
  induction rs generalizing tree with
  | nil =>
      cases h
      exact htree
  | cons r rs ih =>
      rw [List.foldlM_cons] at h
      obtain ⟨next, hnext, h⟩ := Results.bind_eq_ok.mp h
      exact ih h (materializeRuntime_resolved hnext htree)

theorem materializeSecrets_resolved {tree : SecretTree}
    (h : materializeSecrets (some source) m = .ok tree) : tree.Resolved source m := by
  have hempty : SecretTree.empty.Resolved source m := by
    intro service lines hget
    exact absurd hget (by simp [SecretTree.empty])
  unfold materializeSecrets at h
  split at h
  · cases h
    exact hempty
  · exact foldlM_runtime_resolved h hempty

/-- A service with secrets is one the backend selects for. -/
theorem materializeRuntime_isOk_iff (tree : SecretTree) (r : Runtime) :
    (∃ tree', materializeRuntime source m tree r = .ok tree') ↔
      ∀ secret ∈ m.targeted r, secretAvailable source secret = true := by
  rw [← foldlM_isOk_iff (materializeSecret_isOk_iff r.service) (m.targeted r) (tree, [])]
  unfold materializeRuntime
  split
  · rename_i hnone
    rw [List.isEmpty_iff.mp hnone]
    exact iff_of_true ⟨tree, rfl⟩ ⟨_, rfl⟩
  · constructor
    · rintro ⟨tree', h⟩
      obtain ⟨state, hstate, -⟩ := Results.bind_eq_ok.mp h
      exact ⟨state, hstate⟩
    · rintro ⟨⟨next, lines⟩, hstate⟩
      rw [hstate]
      by_cases hlines : lines.isEmpty = true
      · exact ⟨next, by simp [bind, Except.bind, hlines, pure, Except.pure]⟩
      · exact ⟨_, by simp [bind, Except.bind, hlines, pure, Except.pure]; rfl⟩

/-- The backend writes what the validator let through. -/
theorem materializeSecrets_isOk
    (h : ∀ secret ∈ m.secrets.rows, secretAvailable source secret = true) :
    ∃ tree, materializeSecrets (some source) m = .ok tree := by
  unfold materializeSecrets
  split
  · exact ⟨_, rfl⟩
  · exact (foldlM_isOk_iff materializeRuntime_isOk_iff _ _).mpr fun r _ secret hsecret =>
      h secret (mem_targeted.mp hsecret).1

end EnvFiles

/-! ### Delivery -/

section Delivery

variable {source : SecretSource} {m : SecretManifest}

theorem secretReferences_isEmpty :
    m.secretReferences.isEmpty = true ↔ m.base.secrets.rows = [] ∧ m.protectedRoutes = [] := by
  rw [SecretManifest.secretReferences, List.isEmpty_iff, ← List.length_eq_zero_iff,
    List.length_insertionSort, List.length_eq_zero_iff, List.dedup_eq_nil, List.append_eq_nil_iff,
    List.map_eq_nil_iff, List.flatMap_eq_nil_iff, List.eq_nil_iff_forall_not_mem (l := m.protectedRoutes)]
  refine and_congr_right fun _ => forall_congr' fun route => ?_
  exact imp_congr_right fun _ => iff_of_false (List.cons_ne_nil _ _) id

/-- Without a blocker a manifest with secrets of its own has all its bindings. -/
theorem bindingsAvailable_of_not_blocked (h : secretBlocker (some source) m = false)
    (hsecrets : m.base.secrets.rows ≠ []) : bindingsAvailable source m = true := by
  have hempty : m.secretReferences.isEmpty = false := by
    rw [Bool.eq_false_iff]
    exact fun hempty => hsecrets (secretReferences_isEmpty.mp hempty).1
  simpa [secretBlocker, hempty, hsecrets] using h

theorem materializeRouteAuth_isOk_iff :
    (∃ files, materializeRouteAuth (some source) m = .ok files) ↔
      ∀ route ∈ m.protectedRoutes, routeAvailable source route.2 = true := by
  rw [← foldlM_isOk_iff materializeRoute_isOk_iff m.protectedRoutes ⟨[], []⟩]
  unfold materializeRouteAuth
  split
  · rename_i hnone
    rw [List.isEmpty_iff.mp hnone]
    exact iff_of_true ⟨_, rfl⟩ ⟨_, rfl⟩
  · rfl

omit m in
theorem isName_envName (n : EnvName) : EnvFile.IsName n.val.toList := by
  have hn : isEnvName n.val.toList = true := n.ok
  have hchar (c : Char) (h : (c.isUpper || c.isDigit || c == '_') = true) :
      EnvFile.isBlank c = false ∧ c ≠ '=' ∧ c ≠ '#' ∧ c ≠ '\n' := by
    refine ⟨?_, ?_, ?_, ?_⟩
    · simp only [Char.isUpper, Char.isDigit, Bool.or_eq_true, Bool.and_eq_true, decide_eq_true_eq,
        beq_iff_eq, ge_iff_le, UInt32.le_iff_toNat_le] at h
      have hletters : 'A'.val.toNat = 65 ∧ 'Z'.val.toNat = 90 ∧ '0'.val.toNat = 48 ∧
          '9'.val.toNat = 57 := by decide
      simp only [EnvFile.isBlank, Char.toNat, Bool.or_eq_false_iff, Bool.and_eq_false_iff,
        decide_eq_false_iff_not, beq_eq_false_iff_ne]
      rcases h with h | rfl
      · omega
      · decide
    all_goals
      rintro rfl
      exact absurd h (by decide)
  cases hname : n.val.toList with
  | nil =>
      rw [hname] at hn
      exact absurd hn (by decide)
  | cons c cs =>
      rw [hname, isEnvName, Bool.and_eq_true, List.all_eq_true] at hn
      refine ⟨List.cons_ne_nil c cs, fun d hd => hchar d ?_⟩
      rcases List.mem_cons.mp hd with rfl | hd
      · have hfirst := hn.1
        rw [Bool.or_eq_true] at hfirst
        rcases hfirst with hupper | hline
        · rw [hupper]
          rfl
        · rw [hline, Bool.or_true]
      · exact hn.2 d hd

/-- What the container of a service finds under the name of one of its environment secrets. -/
theorem containerValue_eq {tree : SecretTree} (h : materializeSecrets (some source) m.base = .ok tree)
    {service : String} {r : Runtime} (hr : rendered? m.base service = some r) {secret : Secret}
    (hsecret : secret ∈ m.base.targeted r) (hmode : secret.mode = .env) {value : String}
    (hvalue : source.resolve secret.ref = some value) (vars : List Char → List Char) :
    containerValue vars m tree r secret.name =
      match (m.environment r).get? secret.name.val with
      | some entry => some entry.2.toList
      | none => some (EnvFile.valueOf vars value.toList) := by
  rw [containerValue]
  cases (m.environment r).get? secret.name.val with
  | some entry => rfl
  | none =>
      obtain ⟨hmem, -⟩ := mem_of_rendered? hr
      have henvFile : (composeService m.base r).envFile = true :=
        List.any_eq_true.mpr ⟨secret, hsecret, by simp [hmode]⟩
      -- the file of the service has a line for the secret
      obtain ⟨lines, hlines, hname⟩ := ((materializeSecrets_covers h).assigns r.service secret.name).mpr
        ⟨r, mem_runtimeWorkloads_of_compose hmem, rfl, secret, hsecret, hmode, rfl⟩
      have hresolved := materializeSecrets_resolved h r.service lines hlines
      have hparse : EnvFile.parse vars (envFileText lines) =
          lines.map fun p => (p.1.val.toList, EnvFile.valueOf vars p.2.toList) := by
        have hentries := @EnvFile.parse_joinLines vars
          (lines.map fun p => (p.1.val.toList, p.2.toList)) (by
            intro q hq
            obtain ⟨p, hp, rfl⟩ := List.mem_map.mp hq
            obtain ⟨-, -, -, -, hfeed⟩ := hresolved p hp
            exact ⟨isName_envName p.1, hfeed⟩)
        rw [List.map_map, List.map_map] at hentries
        exact hentries
      -- and every line under its name has its value
      have hvalues : ∀ q ∈ EnvFile.parse vars (envFileText lines), q.1 = secret.name.val.toList →
          q.2 = EnvFile.valueOf vars value.toList := by
        rw [hparse]
        intro q hq hkey
        obtain ⟨p, hp, rfl⟩ := List.mem_map.mp hq
        obtain ⟨secret', hsecret', hname', hvalue', -⟩ := hresolved p hp
        have hsame : secret'.name = secret.name := by
          rw [hname']
          exact Refined.ext (String.toList_inj.mp hkey)
        have heq := Table.eq_of_mem_of_key_eq hsecret' (mem_targeted.mp hsecret).1 hsame
        rw [heq, hvalue, Option.some.injEq] at hvalue'
        rw [hvalue']
      have hfound : ((EnvFile.parse vars (envFileText lines)).reverse.find?
          fun q => q.1 = secret.name.val.toList).isSome = true := by
        obtain ⟨p, hp, hpname⟩ := List.mem_map.mp hname
        rw [List.find?_isSome, hparse]
        exact ⟨_, List.mem_reverse.mpr (List.mem_map_of_mem hp), by simp [hpname]⟩
      obtain ⟨q, hq⟩ := Option.isSome_iff_exists.mp hfound
      have hqmem := List.mem_reverse.mp (List.mem_of_find?_eq_some hq)
      have hqname : q.1 = secret.name.val.toList := by simpa using List.find?_some hq
      simp only [henvFile, if_true, hlines, Option.bind_some]
      rw [EnvFile.lookup?, hq, Option.map_some, hvalues q hqmem hqname]

/-- The secrets of an unblocked plan are delivered exactly when the credentials of the routes
resolve where no secret is declared, and every environment secret is a literal value under a name
of its own. -/
theorem delivers_iff (h : secretBlocker (some source) m = false) :
    Delivers source m ↔ Deliverable source m := by
  constructor
  · rintro ⟨tree, files, htree, hfiles, hvalues⟩
    refine ⟨fun _ => materializeRouteAuth_isOk_iff.mp ⟨files, hfiles⟩, ?_⟩
    intro service r hr secret hsecret hmode value hvalue
    have hread := containerValue_eq htree hr hsecret hmode hvalue
    cases hentry : (m.environment r).get? secret.name.val with
    | some entry =>
        obtain ⟨value', hvalue', hcontainer⟩ := hvalues service r hr secret hsecret hmode fun _ => []
        rw [hvalue, Option.some.injEq] at hvalue'
        rw [hread, hentry, ← hvalue', Option.some.injEq] at hcontainer
        exact String.toList_inj.mp hcontainer
    | none =>
        refine EnvFile.valueOf_eq_iff.mp fun vars => ?_
        obtain ⟨value', hvalue', hcontainer⟩ := hvalues service r hr secret hsecret hmode vars
        rw [hvalue, Option.some.injEq] at hvalue'
        rw [hread, hentry, ← hvalue', Option.some.injEq] at hcontainer
        exact hcontainer
  · rintro ⟨hroutes, hvalues⟩
    -- the bindings were validated, or there are none
    have havailable : (∀ secret ∈ m.base.secrets.rows, secretAvailable source secret = true) ∧
        ∀ route ∈ m.protectedRoutes, routeAvailable source route.2 = true := by
      by_cases hsecrets : m.base.secrets.rows = []
      · refine ⟨fun secret hsecret => ?_, hroutes hsecrets⟩
        rw [hsecrets] at hsecret
        exact absurd hsecret List.not_mem_nil
      · have hbindings := bindingsAvailable_of_not_blocked h hsecrets
        rwa [bindingsAvailable, Bool.and_eq_true, List.all_eq_true, List.all_eq_true] at hbindings
    obtain ⟨tree, htree⟩ := materializeSecrets_isOk havailable.1
    obtain ⟨files, hfiles⟩ := materializeRouteAuth_isOk_iff.mpr havailable.2
    refine ⟨tree, files, htree, hfiles, ?_⟩
    intro service r hr secret hsecret hmode vars
    obtain ⟨value, hvalue⟩ : ∃ value, source.resolve secret.ref = some value := by
      have hsome := havailable.1 secret (mem_targeted.mp hsecret).1
      rw [secretAvailable] at hsome
      cases hresolve : source.resolve secret.ref with
      | none => simp [hresolve] at hsome
      | some value => exact ⟨value, rfl⟩
    refine ⟨value, hvalue, ?_⟩
    have hcondition := hvalues service r hr secret hsecret hmode value hvalue
    rw [containerValue_eq htree hr hsecret hmode hvalue]
    cases hentry : (m.environment r).get? secret.name.val with
    | some entry =>
        rw [hentry] at hcondition
        exact congrArg (fun value : String => some value.toList) hcondition
    | none =>
        rw [hentry] at hcondition
        rw [EnvFile.valueOf_eq_iff.mpr hcondition]

end Delivery

/-! ### A password with a dollar sign -/

theorem nodup_tokenWorker :
    (([⟨⟨"api", Eq.refl true⟩, .worker⟩] : List Workload).map (·.name)).Nodup := by
  decide

/-- A worker `api` with the secret `TOKEN`. -/
def tokenWorker : SecretManifest where
  base := {
    workloads := ⟨[⟨⟨"api", Eq.refl true⟩, .worker⟩], nodup_tokenWorker⟩
    migrations := ⟨[], by decide⟩
    secrets := ⟨[⟨⟨"TOKEN", Eq.refl true⟩, "secret://shop/production/token", [], .env, none, .plain⟩],
      by decide⟩
    consumers_known := by
      intro secret hsecret consumer hconsumer
      rw [List.mem_singleton.mp hsecret] at hconsumer
      exact absurd hconsumer List.not_mem_nil }
  routes := []
  values _ := {
    env := Table.empty
    image := "registry.example/api@sha256:0"
    image_digest := "sha256:0" }
  revision := {
    app := "shop"
    environment := "production"
    revision_id := "rev_1"
    revision_digest := "sha256:1"
    manifest_digest := "sha256:2"
    release_id := none
    commit_sha := none
    build_time := none }

/-- A resolver that gives one value for every reference. -/
def constantSecret (value : String) : SecretSource where
  resolve _ := some value
  decode64 _ := none

theorem environment_tokenWorker (r : Runtime) : (tokenWorker.environment r).get? "TOKEN" = none := by
  simp [SecretManifest.environment, Manifest.targeted, tokenWorker, Table.get?_put]

/-- The token is a literal value. -/
theorem tokenWorker_delivers : Delivers (constantSecret "tok-1") tokenWorker := by
  refine (delivers_iff (by decide)).mpr ⟨by decide, ?_⟩
  intro service r hr secret hsecret hmode value hvalue
  rw [List.mem_singleton.mp (List.mem_of_mem_filter hsecret), environment_tokenWorker,
    ← Option.some.inj hvalue]
  have hfirst : ∀ c ∈ "tok-1".toList, EnvFile.isBlank c = false :=
    List.forall_iff_forall_mem.mp (by decide)
  have hdollar : '$' ∉ "tok-1".toList := by decide
  exact ⟨fun c hc => hfirst c (List.mem_of_mem_head? hc), fun c hc =>
    hfirst c (List.mem_of_mem_getLast? hc), by decide, by decide, fun front rest heq =>
    absurd (heq ▸ List.mem_append_right front List.mem_cons_self) hdollar⟩

/-- The environment file holds `TOKEN=pa$word`. -/
theorem not_delivers : ¬ ∀ (source : SecretSource) (m : SecretManifest),
    secretBlocker (some source) m = false → Delivers source m := by
  intro h
  obtain ⟨tree, files, htree, -, hvalues⟩ := h (constantSecret "pa$word") tokenWorker (by decide)
  have hr : rendered? tokenWorker.base "api" = some ⟨"api", "api"⟩ := by decide
  obtain ⟨value, hvalue, hcontainer⟩ := hvalues "api" ⟨"api", "api"⟩ hr _
    (List.mem_singleton_self _) rfl fun _ => []
  have hread := containerValue_eq htree hr (List.mem_singleton_self _) rfl hvalue fun _ => []
  rw [hread, environment_tokenWorker, ← Option.some.inj hvalue] at hcontainer
  exact absurd hcontainer (by decide)

end Ophelia.V2
