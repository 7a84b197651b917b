import Ophelia.Execution.ComposeHost
import Ophelia.Domain.Revisions
import Ophelia.Domain.Slugs

/-!
# Ophelia.ManifestV2.Secrets

Who gets the secrets of a version 2 manifest. A secret may list its consumers by the names of
their services: a workload by its own name, a migration by its name behind `migration-`. The
renderer puts environment files and mounts into the services of the compose file, and the
backend writes the files; both select by the name of the workload or the name of the service,
and the workload of a migration has the name of the migration.
-/

namespace Ophelia.V2

/-! ### Manifests -/

inductive SecretMode where
  | env
  | file
deriving DecidableEq, Repr

inductive SecretEncoding where
  | plain
  | base64
deriving DecidableEq, Repr

/-- `_ENV_NAME`. -/
def isEnvName : List Char → Bool
  | [] => false
  | c :: cs => (c.isUpper || c == '_') && cs.all fun d => d.isUpper || d.isDigit || d == '_'

abbrev EnvName := Refined isEnvName

structure Secret where
  name : EnvName
  ref : String
  workloads : List String
  mode : SecretMode
  target : Option String
  encoding : SecretEncoding

structure Workload where
  name : Slug
  kind : WorkloadKind

/-- The service of a migration. -/
def migrationService (migration : Slug) : String :=
  "migration-" ++ migration.val

/-- The part of a manifest that decides who gets its secrets. -/
structure Manifest where
  workloads : Table Workload.name
  migrations : Table (id : Slug → Slug)
  secrets : Table Secret.name
  consumers_known : ∀ secret ∈ secrets.rows, ∀ consumer ∈ secret.workloads,
    (∃ w ∈ workloads.rows, w.name.val = consumer) ∨
      ∃ g ∈ migrations.rows, migrationService g = consumer

/-- The name of a service, and that of the workload it runs. -/
structure Runtime where
  service : String
  workload : String
deriving DecidableEq

namespace Manifest

variable (m : Manifest)

def workloadRuntimes (ws : List Workload) : List Runtime :=
  ws.map fun w => ⟨w.name.val, w.name.val⟩

def migrationRuntimes : List Runtime :=
  m.migrations.rows.map fun g => ⟨migrationService g, g.val⟩

/-- `_runtime_workloads`. -/
def runtimeWorkloads : List Runtime :=
  workloadRuntimes m.workloads.rows ++ m.migrationRuntimes

/-- The services of the compose document, in the order they are rendered. -/
def composeWorkloads : List Runtime :=
  workloadRuntimes (m.workloads.rows.filter fun w => w.kind ≠ .static) ++ m.migrationRuntimes

/-- The secrets of a service. -/
def targeted (r : Runtime) : List Secret :=
  m.secrets.rows.filter fun secret =>
    secret.workloads.isEmpty || secret.workloads.contains r.workload ||
      secret.workloads.contains r.service

end Manifest

/-! ### Rendering -/

/-- What a rendered service takes of the secrets: the environment file, and mounted files. -/
structure ComposeService where
  name : String
  envFile : Bool
  mounts : List EnvName

/-- `_compose_service`, as far as secrets go. -/
def composeService (m : Manifest) (r : Runtime) : ComposeService where
  name := r.service
  envFile := (m.targeted r).any fun secret => secret.mode = .env
  mounts := ((m.targeted r).filter fun secret => secret.mode = .file).map Secret.name

/-- The services of `_compose_document`; a later one takes the place of an earlier one. -/
def composeServices (m : Manifest) : Table ComposeService.name :=
  m.composeWorkloads.foldl (fun services r => services.put (composeService m r)) .empty

/-! ### Files -/

/-- The files below the secret root: assignments of environment files by service, and mounted
files by service and name. -/
structure SecretTree where
  envFiles : String → Option (List (EnvName × String))
  files : String → EnvName → Option FileBytes

def SecretTree.empty : SecretTree := ⟨fun _ => none, fun _ _ => none⟩

/-- The resolver of secret references, and `base64.b64decode(…, validate=True)`. -/
structure SecretSource where
  resolve : String → Option String
  decode64 : String → Option FileBytes

/-- `_decode_secret_file`. -/
def decodeSecretFile (source : SecretSource) (value : String) (encoding : SecretEncoding) :
    Except String FileBytes :=
  let decoded := match encoding with
    | .plain => some (PyText.encode value)
    | .base64 => source.decode64 value
  match decoded with
  | none => .error "File secret uses invalid encoding."
  | some bytes =>
      if bytes.isEmpty || decide (2 * 1024 * 1024 < bytes.length) || bytes.contains 0 then
        .error "File secret exceeds its content boundary."
      else .ok bytes

/-- The body of the loop over the secrets of a service; `lines` is its environment file. -/
def materializeSecret (source : SecretSource) (service : String)
    (state : SecretTree × List (EnvName × String)) (secret : Secret) :
    Except String (SecretTree × List (EnvName × String)) :=
  match source.resolve secret.ref with
  | none => .error "Secret resolver returned an invalid value."
  | some value =>
      if value.isEmpty || value.toList.contains '\x00' then
        .error "Secret resolver returned an invalid value."
      else
        match secret.mode with
        | .env =>
            if value.toList.contains '\r' || value.toList.contains '\n' then
              .error "Environment secret resolver returned a multiline value."
            else .ok (state.1, state.2 ++ [(secret.name, value)])
        | .file => do
            let bytes ← decodeSecretFile source value secret.encoding
            let files := Function.update state.1.files service
              (Function.update (state.1.files service) secret.name (some bytes))
            return ({ state.1 with files }, state.2)

/-- The body of the loop over the services. -/
def materializeRuntime (source : SecretSource) (m : Manifest) (tree : SecretTree) (r : Runtime) :
    Except String SecretTree :=
  if (m.targeted r).isEmpty then .ok tree
  else do
    let (tree, lines) ← (m.targeted r).foldlM (materializeSecret source r.service) (tree, [])
    if lines.isEmpty then return tree
    else return { tree with envFiles := Function.update tree.envFiles r.service (some lines) }

/-- `_materialize_secrets`. -/
def materializeSecrets (source : Option SecretSource) (m : Manifest) : Except String SecretTree :=
  if m.secrets.rows.isEmpty then .ok .empty
  else
    match source with
    | none => .error "No secret resolver is configured."
    | some source => m.runtimeWorkloads.foldlM (materializeRuntime source m) .empty

/-- A secret reaches a service: through its environment file, or through a mounted file. -/
def Delivered (m : Manifest) (tree : SecretTree) (secret : Secret) (service : String) : Prop :=
  ∃ rendered, (composeServices m).get? service = some rendered ∧
    match secret.mode with
    | .env => rendered.envFile = true ∧ ∃ lines, tree.envFiles service = some lines ∧
        secret.name ∈ lines.map Prod.fst
    | .file => secret.name ∈ rendered.mounts ∧ (tree.files service secret.name).isSome = true

/-! ### Who is selected -/

theorem migrationService_injective {g g' : Slug} (h : migrationService g = migrationService g') :
    g = g' := by
  have hlist := congrArg String.toList h
  simp only [migrationService, String.toList_append, List.append_cancel_left_eq] at hlist
  exact Refined.ext (String.toList_inj.mp hlist)

/-- The selection without the name of the workload: a migration is also selected by its own. -/
def Reaches (m : Manifest) (secret : Secret) (service : String) : Prop :=
  secret.workloads = [] ∨ service ∈ secret.workloads ∨
    ∃ g ∈ m.migrations.rows, migrationService g = service ∧ g.val ∈ secret.workloads

section Selection

variable {m : Manifest} {secret : Secret} {r r' : Runtime}

theorem mem_targeted : secret ∈ m.targeted r ↔ secret ∈ m.secrets.rows ∧
    (secret.workloads = [] ∨ r.workload ∈ secret.workloads ∨ r.service ∈ secret.workloads) := by
  simp [Manifest.targeted, or_assoc]

theorem mem_workloadRuntimes {ws : List Workload} :
    r ∈ Manifest.workloadRuntimes ws ↔ ∃ w ∈ ws, r = ⟨w.name.val, w.name.val⟩ := by
  simp [Manifest.workloadRuntimes, eq_comm]

theorem mem_migrationRuntimes :
    r ∈ m.migrationRuntimes ↔ ∃ g ∈ m.migrations.rows, r = ⟨migrationService g, g.val⟩ := by
  simp [Manifest.migrationRuntimes, eq_comm]

theorem mem_runtimeWorkloads_of_compose (h : r ∈ m.composeWorkloads) : r ∈ m.runtimeWorkloads := by
  rw [Manifest.composeWorkloads, List.mem_append] at h
  rw [Manifest.runtimeWorkloads, List.mem_append]
  refine h.imp_left fun h => ?_
  obtain ⟨w, hw, rfl⟩ := mem_workloadRuntimes.mp h
  exact mem_workloadRuntimes.mpr ⟨w, List.mem_of_mem_filter hw, rfl⟩

theorem reaches_of_mem_targeted (hr : r ∈ m.runtimeWorkloads) (h : secret ∈ m.targeted r) :
    Reaches m secret r.service := by
  rw [Manifest.runtimeWorkloads, List.mem_append] at hr
  rcases (mem_targeted.mp h).2 with hnil | hname | hservice
  · exact .inl hnil
  · rcases hr with hr | hr
    · obtain ⟨w, -, rfl⟩ := mem_workloadRuntimes.mp hr
      exact .inr (.inl hname)
    · obtain ⟨g, hg, rfl⟩ := mem_migrationRuntimes.mp hr
      exact .inr (.inr ⟨g, hg, rfl, hname⟩)
  · exact .inr (.inl hservice)

end Selection

/-! ### One service after another

A worker may have the name of the service of a migration. The later of two services of one name
takes what the earlier one was given, and it is given no less. -/

section Order

variable {m : Manifest}

/-- The later of two services of one name is selected for no fewer secrets. -/
def Widens (m : Manifest) (r r' : Runtime) : Prop :=
  r.service = r'.service → m.targeted r ⊆ m.targeted r'

theorem widens_of_pairwise_ne {rs : List Runtime} (h : (rs.map Runtime.service).Nodup) :
    rs.Pairwise (Widens m) := by
  rw [List.Nodup, List.pairwise_map] at h
  exact h.imp fun hne heq => absurd heq hne

theorem nodup_migrationRuntimes (m : Manifest) :
    (m.migrationRuntimes.map Runtime.service).Nodup := by
  have hunique := m.migrations.unique
  rw [List.map_id] at hunique
  simp only [Manifest.migrationRuntimes, List.map_map]
  exact hunique.map fun g g' h => migrationService_injective h

theorem nodup_workloadRuntimes {ws : List Workload} (h : (ws.map Workload.name).Nodup) :
    ((Manifest.workloadRuntimes ws).map Runtime.service).Nodup := by
  have hval : (Manifest.workloadRuntimes ws).map Runtime.service =
      (ws.map Workload.name).map Refined.val := by
    simp [Manifest.workloadRuntimes]
  rw [hval]
  exact h.map fun n n' heq => Refined.ext heq

theorem widens_migration {w : Workload} {g : Slug} :
    Widens m ⟨w.name.val, w.name.val⟩ ⟨migrationService g, g.val⟩ := by
  intro heq secret h
  obtain ⟨hs, hsel⟩ := mem_targeted.mp h
  refine mem_targeted.mpr ⟨hs, ?_⟩
  rcases hsel with hnil | hname | hname
  · exact .inl hnil
  · exact .inr (.inr (heq ▸ hname))
  · exact .inr (.inr (heq ▸ hname))

theorem pairwise_widens {ws : List Workload} (h : (ws.map Workload.name).Nodup) :
    (Manifest.workloadRuntimes ws ++ m.migrationRuntimes).Pairwise (Widens m) := by
  refine List.pairwise_append.mpr ⟨widens_of_pairwise_ne (nodup_workloadRuntimes h),
    widens_of_pairwise_ne (nodup_migrationRuntimes m), ?_⟩
  intro r hr r' hr'
  obtain ⟨w, -, rfl⟩ := mem_workloadRuntimes.mp hr
  obtain ⟨g, -, rfl⟩ := mem_migrationRuntimes.mp hr'
  exact widens_migration

theorem pairwise_runtimeWorkloads (m : Manifest) : m.runtimeWorkloads.Pairwise (Widens m) :=
  pairwise_widens m.workloads.unique

theorem pairwise_composeWorkloads (m : Manifest) : m.composeWorkloads.Pairwise (Widens m) :=
  pairwise_widens (m.workloads.unique.sublist (List.filter_sublist.map _))

end Order

/-! ### The files of a service -/

section Files

variable {source : SecretSource} {service : String} {secret : Secret}

/-- What the loop over `secrets` adds for a service: the names of the environment file, and
mounted files of its own. -/
structure Lays (service : String) (secrets : List Secret)
    (before after : SecretTree × List (EnvName × String)) : Prop where
  envFiles : after.1.envFiles = before.1.envFiles
  lines : after.2.map Prod.fst =
    before.2.map Prod.fst ++ (secrets.filter fun s => s.mode = .env).map Secret.name
  files : ∀ s n, (after.1.files s n).isSome = true ↔ (before.1.files s n).isSome = true ∨
    s = service ∧ ∃ secret ∈ secrets, secret.mode = .file ∧ secret.name = n

theorem materializeSecret_lays {before after : SecretTree × List (EnvName × String)}
    (h : materializeSecret source service before secret = .ok after) :
    Lays service [secret] before after := by
  unfold materializeSecret at h
  split at h
  · cases h
  · split at h
    · cases h
    · split at h
      · rename_i hmode
        split at h
        · cases h
        · cases h
          exact ⟨rfl, by simp [hmode], by simp [hmode]⟩
      · rename_i hmode
        obtain ⟨bytes, -, h⟩ := Results.bind_eq_ok.mp h
        cases h
        refine ⟨rfl, by simp [hmode], fun s n => ?_⟩
        by_cases hs : s = service
        · subst hs
          by_cases hn : n = secret.name
          · simp [hn, hmode]
          · simp [hn, hmode, Ne.symm hn]
        · simp [hs]

theorem foldlM_lays (secrets : List Secret) {before after : SecretTree × List (EnvName × String)}
    (h : secrets.foldlM (materializeSecret source service) before = .ok after) :
    Lays service secrets before after := by
  induction secrets generalizing before with
  | nil =>
      cases h
      exact ⟨rfl, by simp, by simp⟩
  | cons secret secrets ih =>
      rw [List.foldlM_cons] at h
      obtain ⟨next, hnext, h⟩ := Results.bind_eq_ok.mp h
      have hfirst := materializeSecret_lays hnext
      have hrest := ih h
      refine ⟨hrest.envFiles.trans hfirst.envFiles, ?_, fun s n => ?_⟩
      · rw [hrest.lines, hfirst.lines, List.append_assoc, ← List.map_append, ← List.filter_append]
        rfl
      · rw [hrest.files, hfirst.files]
        simp only [List.mem_cons, List.not_mem_nil, or_false, exists_eq_or_imp, exists_eq_left]
        tauto

end Files

/-! ### The whole tree -/

section Tree

variable {source : SecretSource} {m : Manifest}

/-- The name of a secret stands in the environment file of a service. -/
def SecretTree.Assigns (tree : SecretTree) (service : String) (n : EnvName) : Prop :=
  ∃ lines, tree.envFiles service = some lines ∧ n ∈ lines.map Prod.fst

/-- The files below the secret root are those of the services handled so far. -/
structure Covers (m : Manifest) (done : List Runtime) (tree : SecretTree) : Prop where
  assigns : ∀ s n, tree.Assigns s n ↔ ∃ r ∈ done, r.service = s ∧
    ∃ secret ∈ m.targeted r, secret.mode = .env ∧ secret.name = n
  files : ∀ s n, (tree.files s n).isSome = true ↔ ∃ r ∈ done, r.service = s ∧
    ∃ secret ∈ m.targeted r, secret.mode = .file ∧ secret.name = n

theorem covers_empty (m : Manifest) : Covers m [] .empty :=
  ⟨by simp [SecretTree.Assigns, SecretTree.empty], by simp [SecretTree.empty]⟩

/-- One service: its environment file takes the place of one of the same name. -/
theorem materializeRuntime_effect {tree tree' : SecretTree} {r : Runtime}
    (h : materializeRuntime source m tree r = .ok tree') :
    (∀ s n, tree'.Assigns s n ↔
      if s = r.service ∧ ∃ secret ∈ m.targeted r, secret.mode = .env then
        ∃ secret ∈ m.targeted r, secret.mode = .env ∧ secret.name = n
      else tree.Assigns s n) ∧
    ∀ s n, (tree'.files s n).isSome = true ↔ (tree.files s n).isSome = true ∨
      s = r.service ∧ ∃ secret ∈ m.targeted r, secret.mode = .file ∧ secret.name = n := by
  unfold materializeRuntime at h
  split at h
  · rename_i hnone
    cases h
    simp [List.isEmpty_iff.mp hnone]
  · obtain ⟨⟨next, lines⟩, hnext, h⟩ := Results.bind_eq_ok.mp h
    have hlays := foldlM_lays _ hnext
    have henv : next.envFiles = tree.envFiles := hlays.envFiles
    have hnames : ∀ n, n ∈ lines.map Prod.fst ↔
        ∃ secret ∈ m.targeted r, secret.mode = .env ∧ secret.name = n := by
      intro n
      rw [hlays.lines]
      simp [and_assoc]
    have hlines : lines = [] ↔ ¬ ∃ secret ∈ m.targeted r, secret.mode = .env := by
      rw [← List.map_eq_nil_iff (f := Prod.fst), List.eq_nil_iff_forall_not_mem]
      simp only [hnames]
      grind
    simp only at h
    split at h
    · rename_i hempty
      cases h
      refine ⟨fun s n => ?_, hlays.files⟩
      rw [if_neg fun hs => hlines.mp (List.isEmpty_iff.mp hempty) hs.2]
      simp only [SecretTree.Assigns, henv]
    · rename_i hempty
      cases h
      refine ⟨fun s n => ?_, hlays.files⟩
      have hsome : ∃ secret ∈ m.targeted r, secret.mode = .env := by
        by_contra hnone
        exact hempty (List.isEmpty_iff.mpr (hlines.mpr hnone))
      by_cases hs : s = r.service
      · subst hs
        rw [if_pos ⟨rfl, hsome⟩, ← hnames]
        simp [SecretTree.Assigns]
      · rw [if_neg fun h => hs h.1]
        simp [SecretTree.Assigns, hs, henv]

theorem materializeRuntime_covers {done : List Runtime} {tree tree' : SecretTree} {r : Runtime}
    (hdone : ∀ r' ∈ done, Widens m r' r) (hc : Covers m done tree)
    (h : materializeRuntime source m tree r = .ok tree') : Covers m (done ++ [r]) tree' := by
  obtain ⟨hassigns, hfiles⟩ := materializeRuntime_effect h
  constructor
  · intro s n
    rw [hassigns]
    simp only [List.mem_append, List.mem_singleton, or_and_right, exists_or, exists_eq_left]
    split
    · rename_i hs
      obtain ⟨rfl, -⟩ := hs
      -- What an earlier service of this name was given is among what this one is given.
      constructor
      · intro h
        exact .inr ⟨rfl, h⟩
      · rintro (⟨r', hr', heq, secret, hsecret, hrest⟩ | ⟨-, h⟩)
        · exact ⟨secret, hdone r' hr' heq hsecret, hrest⟩
        · exact h
    · rename_i hs
      rw [hc.assigns]
      constructor
      · exact .inl
      · rintro (h | ⟨heq, secret, hsecret, hmode, -⟩)
        · exact h
        · exact absurd ⟨heq.symm, secret, hsecret, hmode⟩ hs
  · intro s n
    rw [hfiles, hc.files]
    simp only [List.mem_append, List.mem_singleton, or_and_right, exists_or, exists_eq_left]
    rw [eq_comm (a := s)]

theorem foldlM_covers (rest : List Runtime) {done : List Runtime} {tree tree' : SecretTree}
    (hpair : (done ++ rest).Pairwise (Widens m)) (hc : Covers m done tree)
    (h : rest.foldlM (materializeRuntime source m) tree = .ok tree') :
    Covers m (done ++ rest) tree' := by
  induction rest generalizing done tree with
  | nil =>
      cases h
      simpa using hc
  | cons r rest ih =>
      rw [List.foldlM_cons] at h
      obtain ⟨next, hnext, h⟩ := Results.bind_eq_ok.mp h
      have hdone : ∀ r' ∈ done, Widens m r' r := fun r' hr' =>
        (List.pairwise_append.mp hpair).2.2 r' hr' r List.mem_cons_self
      have hassoc : done ++ r :: rest = (done ++ [r]) ++ rest := by simp
      rw [hassoc] at hpair ⊢
      exact ih hpair (materializeRuntime_covers hdone hc hnext) h

theorem materializeSecrets_covers {source : Option SecretSource} {tree : SecretTree}
    (h : materializeSecrets source m = .ok tree) : Covers m m.runtimeWorkloads tree := by
  unfold materializeSecrets at h
  split at h
  · rename_i hnone
    cases h
    have htargeted : ∀ r, m.targeted r = [] := by
      intro r
      simp [Manifest.targeted, List.isEmpty_iff.mp hnone]
    exact ⟨by simp [htargeted, SecretTree.Assigns, SecretTree.empty],
      by simp [htargeted, SecretTree.empty]⟩
  · split at h
    · cases h
    · have hcovers := foldlM_covers m.runtimeWorkloads
        (by simpa using pairwise_runtimeWorkloads m) (covers_empty m) h
      simpa using hcovers

end Tree

/-! ### The rendered services -/

section Rendered

variable {m : Manifest}

/-- The service under a name is that of the last workload with it. -/
structure Renders (m : Manifest) (done : List Runtime) (services : Table ComposeService.name) :
    Prop where
  found : ∀ r ∈ done, ∃ c, services.get? r.service = some c
  last : ∀ s c, services.get? s = some c → ∃ r ∈ done, r.service = s ∧ c = composeService m r ∧
    ∀ r' ∈ done, r'.service = s → m.targeted r' ⊆ m.targeted r

theorem renders_put {done : List Runtime} {services : Table ComposeService.name} {r : Runtime}
    (hdone : ∀ r' ∈ done, Widens m r' r) (hs : Renders m done services) :
    Renders m (done ++ [r]) (services.put (composeService m r)) := by
  have hkey : (composeService m r).name = r.service := rfl
  constructor
  · intro r' hr'
    rw [Table.get?_put, hkey]
    split
    · exact ⟨_, rfl⟩
    · rename_i hne
      rcases List.mem_append.mp hr' with hr' | hr'
      · exact hs.found r' hr'
      · exact absurd (congrArg Runtime.service (List.mem_singleton.mp hr')) hne
  · intro s c hget
    rw [Table.get?_put, hkey] at hget
    split at hget
    · rename_i heq
      cases hget
      refine ⟨r, by simp, heq.symm, rfl, fun r' hr' hr's => ?_⟩
      rcases List.mem_append.mp hr' with hr' | hr'
      · exact hdone r' hr' (hr's.trans heq)
      · rw [List.mem_singleton.mp hr']
        exact List.Subset.refl _
    · rename_i hne
      obtain ⟨r₀, hr₀, hservice, hc, hlast⟩ := hs.last s c hget
      refine ⟨r₀, List.mem_append_left _ hr₀, hservice, hc, fun r' hr' hr's => ?_⟩
      rcases List.mem_append.mp hr' with hr' | hr'
      · exact hlast r' hr' hr's
      · rw [List.mem_singleton.mp hr'] at hr's
        exact absurd hr's.symm hne

theorem foldl_renders (rest : List Runtime) {done : List Runtime}
    {services : Table ComposeService.name} (hpair : (done ++ rest).Pairwise (Widens m))
    (hs : Renders m done services) :
    Renders m (done ++ rest)
      (rest.foldl (fun services r => services.put (composeService m r)) services) := by
  induction rest generalizing done services with
  | nil => simpa using hs
  | cons r rest ih =>
      have hdone : ∀ r' ∈ done, Widens m r' r := fun r' hr' =>
        (List.pairwise_append.mp hpair).2.2 r' hr' r List.mem_cons_self
      have hassoc : done ++ r :: rest = (done ++ [r]) ++ rest := by simp
      rw [hassoc] at hpair ⊢
      rw [List.foldl_cons]
      exact ih hpair (renders_put hdone hs)

theorem composeServices_renders (m : Manifest) :
    Renders m m.composeWorkloads (composeServices m) := by
  have hnone : Renders m [] Table.empty := ⟨by simp, by simp⟩
  have hrenders := foldl_renders m.composeWorkloads
    (by simpa using pairwise_composeWorkloads m) hnone
  rwa [List.nil_append] at hrenders

/-- A rendered service is selected for exactly the secrets that reach its name. -/
theorem rendered_targeted {s : String} {c : ComposeService}
    (hget : (composeServices m).get? s = some c) :
    ∃ r ∈ m.composeWorkloads, r.service = s ∧ c = composeService m r ∧
      ∀ secret, secret ∈ m.targeted r ↔ secret ∈ m.secrets.rows ∧ Reaches m secret s := by
  obtain ⟨r, hr, rfl, hc, hlast⟩ := (composeServices_renders m).last s c hget
  refine ⟨r, hr, rfl, hc, fun secret => ⟨fun h => ?_, fun h => ?_⟩⟩
  · exact ⟨(mem_targeted.mp h).1,
      reaches_of_mem_targeted (mem_runtimeWorkloads_of_compose hr) h⟩
  · obtain ⟨hs, hreach⟩ := h
    rcases hreach with hnil | hservice | ⟨g, hg, heq, hname⟩
    · exact mem_targeted.mpr ⟨hs, .inl hnil⟩
    · exact mem_targeted.mpr ⟨hs, .inr (.inr hservice)⟩
    · -- The service of the migration is rendered under this name, so it is not the earlier one.
      have hmigration : ⟨migrationService g, g.val⟩ ∈ m.composeWorkloads :=
        List.mem_append_right _ (mem_migrationRuntimes.mpr ⟨g, hg, rfl⟩)
      exact hlast _ hmigration heq (mem_targeted.mpr ⟨hs, .inr (.inl hname)⟩)

end Rendered

/-! ### Delivery -/

section Delivery

variable {m : Manifest} {source : Option SecretSource} {tree : SecretTree}

/-- A secret is delivered to the rendered services whose names it reaches. -/
theorem delivered_iff (h : materializeSecrets source m = .ok tree) {secret : Secret}
    (hsecret : secret ∈ m.secrets.rows) (service : String) :
    Delivered m tree secret service ↔
      ((composeServices m).get? service).isSome = true ∧ Reaches m secret service := by
  have hcovers := materializeSecrets_covers h
  have hwritten : ∀ mode, (∃ r ∈ m.runtimeWorkloads, r.service = service ∧
      ∃ secret' ∈ m.targeted r, secret'.mode = mode ∧ secret'.name = secret.name) →
      Reaches m secret service := by
    rintro mode ⟨r, hr, rfl, secret', hsecret', -, hname⟩
    have heq := Table.eq_of_mem_of_key_eq (mem_targeted.mp hsecret').1 hsecret hname
    exact reaches_of_mem_targeted hr (heq ▸ hsecret')
  constructor
  · rintro ⟨c, hget, hdelivered⟩
    refine ⟨by simp [hget], ?_⟩
    cases hmode : secret.mode with
    | env =>
        simp only [hmode] at hdelivered
        exact hwritten .env ((hcovers.assigns service secret.name).mp hdelivered.2)
    | file =>
        simp only [hmode] at hdelivered
        exact hwritten .file ((hcovers.files service secret.name).mp hdelivered.2)
  · rintro ⟨hsome, hreach⟩
    obtain ⟨c, hget⟩ := Option.isSome_iff_exists.mp hsome
    obtain ⟨r, hr, rfl, rfl, htargeted⟩ := rendered_targeted hget
    have hmem := (htargeted secret).mpr ⟨hsecret, hreach⟩
    have hruntime := mem_runtimeWorkloads_of_compose hr
    refine ⟨_, hget, ?_⟩
    cases hmode : secret.mode with
    | env =>
        refine ⟨?_, (hcovers.assigns _ _).mpr ⟨r, hruntime, rfl, secret, hmem, hmode, rfl⟩⟩
        exact List.any_eq_true.mpr ⟨secret, hmem, by simp [hmode]⟩
    | file =>
        refine ⟨?_, (hcovers.files _ _).mpr ⟨r, hruntime, rfl, secret, hmem, hmode, rfl⟩⟩
        exact List.mem_map_of_mem (List.mem_filter.mpr ⟨hmem, by simp [hmode]⟩)

/-- Every secret with consumers is delivered to the services it names and to no other one,
exactly when a secret for a workload that has the name of a migration is also one for the
service of that migration. -/
theorem secrets_scoped_iff (h : materializeSecrets source m = .ok tree) :
    (∀ secret ∈ m.secrets.rows, secret.workloads ≠ [] →
      ∀ service ∈ m.composeWorkloads.map Runtime.service,
        (Delivered m tree secret service ↔ service ∈ secret.workloads)) ↔
      ∀ secret ∈ m.secrets.rows, ∀ g ∈ m.migrations.rows,
        g.val ∈ secret.workloads → migrationService g ∈ secret.workloads := by
  have hfound : ∀ service ∈ m.composeWorkloads.map Runtime.service,
      ((composeServices m).get? service).isSome = true := by
    intro service hservice
    obtain ⟨r, hr, rfl⟩ := List.mem_map.mp hservice
    exact Option.isSome_iff_exists.mpr ((composeServices_renders m).found r hr)
  constructor
  · intro hscoped secret hsecret g hg hname
    have hmem : migrationService g ∈ m.composeWorkloads.map Runtime.service :=
      List.mem_map.mpr ⟨⟨migrationService g, g.val⟩,
        List.mem_append_right _ (mem_migrationRuntimes.mpr ⟨g, hg, rfl⟩), rfl⟩
    refine (hscoped secret hsecret (List.ne_nil_of_mem hname) _ hmem).mp ?_
    exact (delivered_iff h hsecret _).mpr ⟨hfound _ hmem, .inr (.inr ⟨g, hg, rfl, hname⟩)⟩
  · intro hnamed secret hsecret hne service hservice
    rw [delivered_iff h hsecret]
    constructor
    · rintro ⟨-, hnil | hmem | ⟨g, hg, rfl, hname⟩⟩
      · exact absurd hnil hne
      · exact hmem
      · exact hnamed secret hsecret g hg hname
    · intro hmem
      exact ⟨hfound service hservice, .inr (.inl hmem)⟩

end Delivery

/-! ### A migration with the name of a workload -/

/-- A worker and a migration, both called `api`, with a secret for the worker. -/
def twinNames : Manifest where
  workloads := ⟨[⟨⟨"api", Eq.refl true⟩, .worker⟩], by decide⟩
  migrations := ⟨[⟨"api", Eq.refl true⟩], by decide⟩
  secrets := ⟨[⟨⟨"TOKEN", by decide⟩, "secret://shop/production/token", ["api"], .env, none, .plain⟩], by decide⟩
  consumers_known := by
    intro secret hsecret consumer hconsumer
    rw [List.mem_singleton.mp hsecret] at hconsumer
    exact .inl ⟨_, List.mem_singleton.mpr rfl, (List.mem_singleton.mp hconsumer).symm⟩

/-- A resolver that knows one reference. -/
def oneSecret : SecretSource where
  resolve ref := if ref = "secret://shop/production/token" then some "value" else none
  decode64 _ := none

/-- The secret of the worker is also written for the migration, which it does not name. -/
theorem twinNames_shared : ∃ tree, materializeSecrets (some oneSecret) twinNames = .ok tree ∧
    ∃ secret ∈ twinNames.secrets.rows, secret.workloads = ["api"] ∧
      Delivered twinNames tree secret "migration-api" := by
  refine ⟨_, rfl, _, List.mem_singleton.mpr rfl, rfl, _, rfl, ?_⟩
  exact ⟨by decide, _, rfl, by decide⟩

/-- The same with a migration of another name, and a secret for both. -/
def ownNames : Manifest where
  workloads := ⟨[⟨⟨"api", Eq.refl true⟩, .worker⟩, ⟨⟨"web", Eq.refl true⟩, .web⟩], by decide⟩
  migrations := ⟨[⟨"schema", by decide⟩], by decide⟩
  secrets := ⟨[⟨⟨"TOKEN", Eq.refl true⟩, "secret://shop/production/token", ["api", "migration-schema"], .env, none,
    .plain⟩], by decide⟩
  consumers_known := by
    intro secret hsecret consumer hconsumer
    rw [List.mem_singleton.mp hsecret] at hconsumer
    rcases List.mem_cons.mp hconsumer with rfl | hconsumer
    · exact .inl ⟨_, List.mem_cons_self, rfl⟩
    · exact .inr ⟨_, List.mem_singleton.mpr rfl, (List.mem_singleton.mp hconsumer).symm⟩

theorem ownNames_scoped : ∃ tree, materializeSecrets (some oneSecret) ownNames = .ok tree ∧
    ∀ secret ∈ ownNames.secrets.rows, secret.workloads ≠ [] →
      ∀ service ∈ ownNames.composeWorkloads.map Runtime.service,
        (Delivered ownNames tree secret service ↔ service ∈ secret.workloads) := by
  have hrun : ∃ tree, materializeSecrets (some oneSecret) ownNames = .ok tree := ⟨_, rfl⟩
  obtain ⟨tree, htree⟩ := hrun
  refine ⟨tree, htree, (secrets_scoped_iff htree).mpr ?_⟩
  intro secret hsecret g hg hname
  rw [List.mem_singleton.mp hsecret, List.mem_singleton.mp hg] at hname
  exact absurd hname (by decide)

end Ophelia.V2
