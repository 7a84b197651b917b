import Ophelia.Domain.Reference
import Ophelia.Products.StateIndex

/-!
# Ophelia.Products.StateRedaction

When no environment value reaches the state index: routes and releases must hold none, since they
are stored as they were read, and each value that stands in an `env` mapping elsewhere must be one
that the redaction recognizes as a secret.
-/

namespace Ophelia

open Json

/-! ### What is promised -/

/-- A way into an `env` mapping. -/
def inEnvMapping (way : Way) : Bool := underKey "env" false way

/-- The flag that a lock gets once it is redacted. -/
def IsFlag (row : StateRow) (way : Way) (v : Json) : Prop :=
  row.table = .manifests ∧ way = [.member "secret_values_redacted"] ∧ v = .bool true

/-- A payload shows no value of an `env` mapping and none below a sensitive key. -/
structure RowMasked (row : StateRow) : Prop where
  env : ∀ way w, Leaf row.payload way w → inEnvMapping way = true → Hidden w
  keys : ∀ way w, Leaf row.payload way w → sensitive way = true → Hidden w ∨ IsFlag row way w

/-- Nothing in a value is to be masked. -/
def Bare (j : Json) : Prop :=
  ∀ way w, Leaf j way w → inEnvMapping way = true ∨ sensitive way = true → Hidden w

/-- Which contents are masked: locks whose `env` values lie where they are masked, or are hidden by
the rules for scalars; routes and releases without anything to mask; and elsewhere `env` values that
the sweep recognizes. -/
structure Maskable [Platform] (tools : StateTools) (sources : StateSources) : Prop where
  locks : ∀ app lock, (app, lock) ∈ sources.locks → ∀ way v, Leaf (.obj lock) way v →
    inEnvMapping way = true → LockSwept way v
  routes : ∀ app lock, (app, lock) ∈ sources.locks →
    ∀ route ∈ mappingItems (lookupMember lock "routes"),
      (nonemptyText (lookupMember route "domain")).isSome = true → Bare (.obj route)
  releases : ∀ app ∈ sources.releases, ∀ release ∈ app.listReleases tools,
    (textMember (registryEntry app.app release) "app").isSome = true →
    (textMember (registryEntry app.app release) "release_id").isSome = true →
    ∀ m ∈ registryEntry app.app release, Bare m.2
  swept : ∀ table payload, (table, payload) ∈ sweptPayloads tools sources →
    ∀ way v, Leaf (.obj payload) way v → inEnvMapping way = true → Swept way v

/-! ### Rows as they were read -/

theorem rowMasked_iff_bare {table : StateTable} (htable : table ≠ .manifests) {payload : Json} :
    RowMasked ⟨table, payload⟩ ↔ Bare payload := by
  constructor
  · rintro ⟨henv, hkeys⟩ way w hw (hway | hway)
    · exact henv way w hw hway
    · exact (hkeys way w hw hway).resolve_right fun hflag => htable hflag.1
  · intro h
    exact ⟨fun way w hw hway => h way w hw (.inl hway),
      fun way w hw hway => .inl (h way w hw (.inr hway))⟩

/-- A mapping under plain keys has nothing to mask if its values have not. -/
theorem bare_obj_iff {members : JsonMembers}
    (hkeys : ∀ m ∈ members, m.1 ≠ "env" ∧ isSensitiveKey m.1.toList = false) :
    Bare (.obj members) ↔ ∀ m ∈ members, Bare m.2 := by
  have hstep : ∀ m ∈ members, ∀ rest : Way,
      inEnvMapping (.member m.1 :: rest) = inEnvMapping rest ∧
      sensitive (.member m.1 :: rest) = sensitive rest := by
    intro m hm rest
    obtain ⟨henv, hsensitive⟩ := hkeys m hm
    constructor
    · rw [inEnvMapping, underKey, beq_eq_false_iff_ne.mpr henv, Bool.false_or]
      rfl
    · rw [sensitive, through, hsensitive, Bool.false_or]
      rfl
  constructor
  · rintro h ⟨k, x⟩ hm way w hw hway
    obtain ⟨henv, hsensitive⟩ := hstep (k, x) hm way
    refine h _ w (.member hm hw) ?_
    rwa [henv, hsensitive]
  · intro h way w hw hway
    obtain ⟨k, x, hm, rest, rfl, hx⟩ := leaf_obj.mp hw
    obtain ⟨henv, hsensitive⟩ := hstep (k, x) hm rest
    rw [henv, hsensitive] at hway
    exact h (k, x) hm rest w hx hway

/-- The keys that the registry stores releases under are plain. -/
theorem registryEntry_keys (app : String) (release : JsonMembers) :
    ∀ m ∈ registryEntry app release, m.1 ≠ "env" ∧ isSensitiveKey m.1.toList = false := by
  have hplain : ∀ key ∈ (registryEntry app release).map Prod.fst,
      key ≠ "env" ∧ isSensitiveKey key.toList = false := by
    have hkeys : (registryEntry app release).map Prod.fst =
        ["app", "environment", "release_id", "git_sha", "images", "image_digests", "manifest_hash",
          "deployed_at", "active", "latest", "applied", "verified", "verification_status",
          "rollback_eligible"] := rfl
    rw [hkeys]
    decide +kernel
  exact fun m hm => hplain m.1 (List.mem_map_of_mem hm)

/-! ### Swept rows -/

theorem sweptRow_masked_iff {table : StateTable} {payload : JsonMembers} :
    RowMasked (sweptRow table payload) ↔
      ∀ way v, Leaf (.obj payload) way v → inEnvMapping way = true → Swept way v := by
  have hkeys : ∀ way w, Leaf (sweptRow table payload).payload way w → sensitive way = true →
      Hidden w := fun way w hw hway => hidden_of_sensitive hw hway
  constructor
  · rintro ⟨henv, -⟩
    exact env_hidden_iff.mp henv
  · intro h
    exact ⟨env_hidden_iff.mpr h, fun way w hw hway => .inl (hkeys way w hw hway)⟩

/-! ### Locks -/

/-- What is set in a mapping, and what was there under other keys. -/
theorem leaf_setMember {members : JsonMembers} {key : String} {b : Bool} {way : Way} {w : Json} :
    Leaf (.obj (setMember members key (.bool b))) way w ↔
      (way = [.member key] ∧ w = .bool b) ∨
        ∃ k x rest, (k, x) ∈ members ∧ k ≠ key ∧ way = .member k :: rest ∧ Leaf x rest w := by
  rw [leaf_obj]
  unfold setMember
  split
  · rename_i hany
    constructor
    · rintro ⟨k, x, hmem, rest, rfl, hw⟩
      obtain ⟨m, hm, heq⟩ := List.mem_map.mp hmem
      split at heq
      · obtain ⟨rfl, rfl⟩ := Prod.mk.inj heq
        obtain ⟨rfl, rfl⟩ := leaf_bool.mp hw
        exact .inl ⟨rfl, rfl⟩
      · rename_i hne
        subst heq
        exact .inr ⟨k, x, rest, hm, fun h => hne (beq_iff_eq.mpr h), rfl, hw⟩
    · rintro (⟨rfl, rfl⟩ | ⟨k, x, rest, hm, hne, rfl, hw⟩)
      · obtain ⟨m, hm, hkey⟩ := List.any_eq_true.mp hany
        exact ⟨key, .bool b, List.mem_map.mpr ⟨m, hm, if_pos hkey⟩, [], rfl, .here rfl⟩
      · exact ⟨k, x, List.mem_map.mpr ⟨(k, x), hm, if_neg fun h => hne (beq_iff_eq.mp h)⟩, rest,
          rfl, hw⟩
  · rename_i hany
    constructor
    · rintro ⟨k, x, hmem, rest, rfl, hw⟩
      rcases List.mem_append.mp hmem with hm | hm
      · refine .inr ⟨k, x, rest, hm, ?_, rfl, hw⟩
        rintro rfl
        exact hany (List.any_eq_true.mpr ⟨_, hm, beq_self_eq_true k⟩)
      · obtain ⟨rfl, rfl⟩ := Prod.mk.inj (List.mem_singleton.mp hm)
        obtain ⟨rfl, rfl⟩ := leaf_bool.mp hw
        exact .inl ⟨rfl, rfl⟩
    · rintro (⟨rfl, rfl⟩ | ⟨k, x, rest, hm, -, rfl, hw⟩)
      · exact ⟨key, .bool b, List.mem_append_right _ (List.mem_singleton_self _), [], rfl,
          .here rfl⟩
      · exact ⟨k, x, List.mem_append_left _ hm, rest, rfl, hw⟩

theorem sensitive_flag (rest : Way) :
    sensitive (.member "secret_values_redacted" :: rest) = true := by
  have hkey : isSensitiveKey "secret_values_redacted".toList = true := by decide +kernel
  rw [sensitive, through, hkey, Bool.true_or]

theorem lockRow_masked_iff {lock : JsonMembers} :
    RowMasked ⟨.manifests, .obj (redactManifestLock lock)⟩ ↔
      ∀ way v, Leaf (.obj lock) way v → inEnvMapping way = true → LockSwept way v := by
  rw [← lock_hidden_iff]
  have hmasked : Json.obj (maskedLock lock) =
      deepRedact (.obj (maskServices (maskLockEnv lock))) := rfl
  constructor
  · rintro ⟨henv, -⟩ way w hw hway
    obtain ⟨k, x, hm, rest, rfl, hx⟩ := leaf_obj.mp hw
    by_cases hkey : k = "secret_values_redacted"
    · -- what stands under the flag is masked before it is overwritten
      subst hkey
      exact hidden_of_sensitive (hmasked ▸ hw) (sensitive_flag rest)
    · exact henv _ w (leaf_setMember.mpr (.inr ⟨k, x, rest, hm, hkey, rfl, hx⟩)) hway
  · intro h
    constructor
    · intro way w hw hway
      rcases leaf_setMember.mp hw with ⟨rfl, rfl⟩ | ⟨k, x, rest, hm, -, rfl, hx⟩
      · cases hway
      · exact h _ w (.member hm hx) hway
    · intro way w hw hway
      rcases leaf_setMember.mp hw with ⟨rfl, rfl⟩ | ⟨k, x, rest, hm, -, rfl, hx⟩
      · exact .inr ⟨rfl, rfl, rfl⟩
      · have hleaf : Leaf (.obj (maskedLock lock)) (.member k :: rest) w := .member hm hx
        exact .inl (hidden_of_sensitive (hmasked ▸ hleaf) hway)

/-- The columns of an environment are those of its lock. -/
theorem environment_masked {app : String} {environment : Option String} {lock : JsonMembers}
    (h : RowMasked ⟨.manifests, .obj lock⟩) :
    RowMasked ⟨.environments, environmentPayload app environment lock⟩ := by
  refine (rowMasked_iff_bare (by decide)).mpr ((bare_obj_iff ?_).mpr ?_)
  · have hplain : ∀ key ∈ ["app", "environment", "kind", "image", "profile"],
        key ≠ "env" ∧ isSensitiveKey key.toList = false := by decide +kernel
    intro m hm
    refine hplain m.1 ?_
    have := List.mem_map_of_mem (f := Prod.fst) hm
    exact this
  · have hfield : ∀ key, key ≠ "env" → isSensitiveKey key.toList = false →
        Bare (lookupMember lock key) := by
      intro key henv hsensitive way w hw hway
      have hfound : lookupMember lock key = (lock.lookup key).getD .null := rfl
      rw [hfound] at hw
      cases hlookup : lock.lookup key with
      | none =>
          rw [hlookup] at hw
          obtain ⟨rfl, rfl⟩ := leaf_null.mp hw
          exact .inl rfl
      | some x =>
          rw [hlookup] at hw
          obtain ⟨front, rest, rfl, -⟩ := List.lookup_eq_some_iff.mp hlookup
          have hleaf : Leaf (.obj (front ++ (key, x) :: rest)) (.member key :: way) w :=
            .member (List.mem_append_right _ List.mem_cons_self) hw
          rcases hway with hway | hway
          · refine h.env _ w hleaf ?_
            rw [inEnvMapping, underKey, beq_eq_false_iff_ne.mpr henv]
            exact hway
          · refine (h.keys _ w hleaf ?_).resolve_right ?_
            · rw [sensitive, through, hsensitive]
              exact hway
            · rintro ⟨-, hflag, -⟩
              obtain ⟨-, rfl⟩ := List.cons.inj hflag
              cases hway
    have htext : ∀ s : Option String, Bare (optionalText s) := by
      intro s way w hw hway
      cases s with
      | none =>
          obtain ⟨rfl, rfl⟩ := leaf_null.mp hw
          exact .inl rfl
      | some s =>
          obtain ⟨rfl, -⟩ := leaf_str.mp hw
          rcases hway with hway | hway <;> cases hway
    simp only [List.mem_cons, List.not_mem_nil, or_false, forall_eq_or_imp, forall_eq]
    exact ⟨htext (some app), htext environment, hfield "kind" (by decide) (by decide +kernel),
      hfield "image" (by decide) (by decide +kernel),
      hfield "profile" (by decide) (by decide +kernel)⟩

theorem appRow_masked {noted : List (String × Option String)} {row : StateRow}
    (h : row ∈ appRows noted) : RowMasked row := by
  obtain ⟨app, -, rfl⟩ := List.mem_map.mp h
  refine (rowMasked_iff_bare (by decide)).mpr ((bare_obj_iff ?_).mpr ?_)
  · have hplain : ∀ key ∈ ["app", "environments"],
        key ≠ "env" ∧ isSensitiveKey key.toList = false := by decide +kernel
    intro m hm
    have hkey := List.mem_map_of_mem (f := Prod.fst) hm
    exact hplain m.1 hkey
  · simp only [List.mem_cons, List.not_mem_nil, or_false, forall_eq_or_imp, forall_eq]
    constructor
    · intro way w hw hway
      obtain ⟨rfl, -⟩ := leaf_str.mp hw
      rcases hway with hway | hway <;> cases hway
    · intro way w hw hway
      obtain ⟨x, hx, rest, rfl, hw⟩ := leaf_arr.mp hw
      obtain ⟨s, -, rfl⟩ := List.mem_map.mp hx
      obtain ⟨rfl, -⟩ := leaf_str.mp hw
      rcases hway with hway | hway <;> cases hway

/-! ### The index -/

section Index

variable [Platform] {tools : StateTools} {sources : StateSources}

theorem mem_populate {row : StateRow} :
    row ∈ populate tools sources ↔
      (∃ app lock, (app, lock) ∈ sources.locks ∧ row ∈ manifestRows app lock) ∨
      (∃ app lock, (app, lock) ∈ sources.locks ∧ row ∈ routeRows lock) ∨
      (∃ app ∈ sources.releases, row ∈ releaseRows tools app) ∨
      (∃ table payload, (table, payload) ∈ sweptPayloads tools sources ∧
        row = sweptRow table payload) ∨
      row ∈ appRows (notedApps tools sources) := by
  unfold populate
  simp only [List.mem_append, List.mem_flatMap, List.mem_map, Prod.exists, or_assoc, eq_comm]

omit [Platform] in
theorem mem_routeRows {lock : JsonMembers} {row : StateRow} :
    row ∈ routeRows lock ↔ ∃ route ∈ mappingItems (lookupMember lock "routes"),
      (nonemptyText (lookupMember route "domain")).isSome = true ∧ row = ⟨.routes, .obj route⟩ := by
  unfold routeRows
  simp only [List.mem_map, List.mem_filter, and_assoc, eq_comm]

omit [Platform] in
theorem mem_releaseRows {app : AppReleases} {row : StateRow} :
    row ∈ releaseRows tools app ↔ ∃ release ∈ app.listReleases tools,
      (textMember (registryEntry app.app release) "app").isSome = true ∧
      (textMember (registryEntry app.app release) "release_id").isSome = true ∧
      row = ⟨.releases, .obj (registryEntry app.app release)⟩ := by
  unfold releaseRows
  simp only [List.mem_map, List.mem_filter, Bool.and_eq_true]
  constructor
  · rintro ⟨_, ⟨⟨release, hrelease, rfl⟩, happ, hid⟩, rfl⟩
    exact ⟨release, hrelease, happ, hid, rfl⟩
  · rintro ⟨release, hrelease, happ, hid, rfl⟩
    exact ⟨_, ⟨⟨release, hrelease, rfl⟩, happ, hid⟩, rfl⟩

/-- **No environment value reaches the index** exactly if the contents are ones it masks. -/
theorem populate_masked_iff (tools : StateTools) (sources : StateSources) :
    (∀ row ∈ populate tools sources, RowMasked row) ↔ Maskable tools sources := by
  constructor
  · intro h
    constructor
    · intro app lock hlock
      refine lockRow_masked_iff.mp (h _ (mem_populate.mpr (.inl ⟨app, lock, hlock, ?_⟩)))
      exact List.mem_cons_self
    · intro app lock hlock route hroute hdomain
      refine (rowMasked_iff_bare (by decide)).mp (h ⟨.routes, .obj route⟩ ?_)
      exact mem_populate.mpr (.inr (.inl ⟨app, lock, hlock,
        mem_routeRows.mpr ⟨route, hroute, hdomain, rfl⟩⟩))
    · intro app happ release hrelease hname hid
      refine (bare_obj_iff (registryEntry_keys app.app release)).mp ((rowMasked_iff_bare (by decide)).mp
        (h ⟨.releases, .obj (registryEntry app.app release)⟩ ?_))
      exact mem_populate.mpr (.inr (.inr (.inl ⟨app, happ,
        mem_releaseRows.mpr ⟨release, hrelease, hname, hid, rfl⟩⟩)))
    · intro table payload hpayload
      refine sweptRow_masked_iff.mp (h (sweptRow table payload) ?_)
      exact mem_populate.mpr (.inr (.inr (.inr (.inl ⟨table, payload, hpayload, rfl⟩))))
  · intro h row hrow
    rcases mem_populate.mp hrow with ⟨app, lock, hlock, hrow⟩ | ⟨app, lock, hlock, hrow⟩ |
      ⟨app, happ, hrow⟩ | ⟨table, payload, hpayload, rfl⟩ | hrow
    · have hmasked := lockRow_masked_iff.mpr (h.locks app lock hlock)
      rcases List.mem_cons.mp hrow with rfl | hrow
      · exact hmasked
      · rw [List.mem_singleton.mp hrow]
        exact environment_masked hmasked
    · obtain ⟨route, hroute, hdomain, rfl⟩ := mem_routeRows.mp hrow
      exact (rowMasked_iff_bare (by decide)).mpr (h.routes app lock hlock route hroute hdomain)
    · obtain ⟨release, hrelease, hname, hid, rfl⟩ := mem_releaseRows.mp hrow
      exact (rowMasked_iff_bare (by decide)).mpr
        ((bare_obj_iff (registryEntry_keys app.app release)).mpr
          (h.releases app happ release hrelease hname hid))
    · exact sweptRow_masked_iff.mpr (h.swept table payload hpayload)
    · exact appRow_masked hrow

end Index

/-! ### A route with a secret -/

namespace Reference

attribute [local instance] platform

/-- A host without receipts. -/
def emptyStore : ReceiptStore where
  files := []
  database := "/srv/operations.db"
  journal := Journal.fresh
  below := fun _ h => absurd h List.not_mem_nil

/-- The lock of an application whose route has an environment of its own. -/
def routedLock : JsonMembers :=
  [("app", .str "shop"), ("routes", .arr [.obj [("domain", .str "shop.example"),
    ("env", .obj [("API_TOKEN", .str "hunter2")])]])]

theorem emptyStore_timeline : receiptTimeline emptyStore ⟨none, none, none, none⟩ none none =
    .ok ⟨⟨none, none, none, none⟩, none, none, [], [], timelineSummary [] []⟩ := by
  have hrecords : emptyStore.records = [] := by decide +kernel
  have hwarnings : emptyStore.warnings = [] := by decide +kernel
  have hscan : receiptScan emptyStore none none = ([], []) := by
    unfold receiptScan
    rw [hrecords, hwarnings]
    simp [ReceiptStore.mergeRecords]
  have hkinds : KindsHashable emptyStore := fun _ h => absurd h List.not_mem_nil
  refine Results.bind_ok ((scan_eq_ok emptyStore).mpr ⟨hkinds, hscan.symm⟩) ?_
  exact Results.bind_ok (a := []) rfl <| by simp only [List.map_nil, List.mergeSort_nil]; rfl

def routedSources : StateSources where
  locks := [("shop", routedLock)]
  releases := []
  store := emptyStore
  timeline := _
  scanned := emptyStore_timeline
  backups := []
  runs := []
  workflows := []
  registry := []
  directories := ["shop"]

def stateTools : StateTools := ⟨fun j => j.dumps, fun path => path, fun _ => none⟩

/-- The token of the route is stored as it is. -/
theorem route_not_masked : ¬ ∀ row ∈ populate stateTools routedSources, RowMasked row := by
  intro h
  have hrow : (⟨.routes, .obj [("domain", .str "shop.example"),
      ("env", .obj [("API_TOKEN", .str "hunter2")])]⟩ : StateRow) ∈
        populate stateTools routedSources := by
    refine mem_populate.mpr (.inr (.inl ⟨"shop", routedLock, List.mem_cons_self, ?_⟩))
    exact mem_routeRows.mpr ⟨_, List.mem_cons_self, rfl, rfl⟩
  have hleaf : Leaf (.obj [("domain", .str "shop.example"),
      ("env", .obj [("API_TOKEN", .str "hunter2")])]) [.member "env", .member "API_TOKEN"]
        (.str "hunter2") :=
    .member (List.mem_cons_of_mem _ List.mem_cons_self) (.member List.mem_cons_self (.here rfl))
  exact absurd ((h _ hrow).env _ _ hleaf (by decide)) (by decide)

end Reference

end Ophelia
