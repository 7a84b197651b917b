import Ophelia.Domain.Revisions
import Ophelia.Execution.ComposeBackend
import Ophelia.Products.Scopes

/-!
# Ophelia.Products.Observation

The workload of a product, twice. `product_execution.py` builds the revision it wants from the
bundle, and the process backend builds the workload it observes (`inspect`) from the same bundle.
The revision names the workload by the slug of the process; the backend only writes hyphens for
dots and leaves underscores and the length as they are, which the kernel may refuse.
-/

namespace Ophelia

/-! ### What the kernel makes of its arguments -/

/-- `require_slug`. -/
def requireSlug (value name : String) : Result Slug :=
  Refined.require isSlug (name ++ " must be a 1-63 character lowercase Ophelia slug.") (.str value)

theorem requireSlug_of {value : String} (h : isSlug value.toList = true) (name : String) :
    requireSlug value name = .ok ⟨value, h⟩ :=
  dif_pos h

theorem isSlug_of_requireSlug {value name : String} {s : Slug}
    (h : requireSlug value name = .ok s) : isSlug value.toList = true := by
  by_contra hvalue
  have herror : requireSlug value name = .error (.contractValidation
      (name ++ " must be a 1-63 character lowercase Ophelia slug.")) := dif_neg hvalue
  rw [herror] at h
  cases h

/-- `Workload(…)`. -/
def Workload.create (workloadId : String) (workloadKind : WorkloadKind) (artifactDigest : Digest)
    (routeIds : List String) (overlapSafe : Bool) : Result Workload := do
  let workloadId ← requireSlug workloadId "workload_id"
  let routeIds ← routeIds.mapM fun routeId => requireSlug routeId "route_id"
  if routes_sorted : sortedUnique routeIds = true then
    if routes_allowed : routeIds = [] ∨ workloadKind.receivesTraffic = true then
      if overlap_allowed : overlapSafe = true → workloadKind.mayOverlap = true then
        return { workloadId, workloadKind, artifactDigest, routeIds, overlapSafe, routes_sorted,
                 routes_allowed, overlap_allowed }
      else throw (.contractValidation "This workload kind cannot opt into revision overlap.")
    else throw (.contractValidation "Only web and static workloads may declare routes.")
  else throw (.contractValidation "route_ids must be sorted and contain no duplicates.")

/-- The workload of one process with one route. -/
theorem Workload.create_web {workloadId routeId : String} {digest : Digest}
    (hid : isSlug workloadId.toList = true) (hroute : isSlug routeId.toList = true) :
    Workload.create workloadId .web digest [routeId] true = .ok
      { workloadId := ⟨workloadId, hid⟩, workloadKind := .web, artifactDigest := digest,
        routeIds := [⟨routeId, hroute⟩], overlapSafe := true,
        routes_sorted := by simp [sortedUnique], routes_allowed := .inr rfl,
        overlap_allowed := fun _ => rfl } := by
  unfold Workload.create
  rw [requireSlug_of hid, Result.ok_bind, List.mapM_cons, List.mapM_nil, requireSlug_of hroute]
  rfl

theorem Workload.exists_create_web {workloadId routeId : String} (digest : Digest)
    (hid : isSlug workloadId.toList = true) (hroute : isSlug routeId.toList = true) :
    ∃ w, Workload.create workloadId .web digest [routeId] true = .ok w ∧
      w.workloadId.val = workloadId ∧ w.workloadKind = .web ∧ w.artifactDigest = digest :=
  ⟨_, Workload.create_web hid hroute, rfl, rfl, rfl⟩

/-- A workload that is built carries accepted names. -/
theorem Workload.create_names {workloadId routeId : String} {kind : WorkloadKind} {digest : Digest}
    {overlapSafe : Bool} {w : Workload}
    (h : Workload.create workloadId kind digest [routeId] overlapSafe = .ok w) :
    isSlug workloadId.toList = true ∧ isSlug routeId.toList = true := by
  obtain ⟨id, hid, h⟩ := Results.bind_eq_ok.mp h
  obtain ⟨routes, hroutes, -⟩ := Results.bind_eq_ok.mp h
  rw [List.mapM_cons] at hroutes
  obtain ⟨route, hroute, -⟩ := Results.bind_eq_ok.mp hroutes
  exact ⟨isSlug_of_requireSlug hid, isSlug_of_requireSlug hroute⟩

theorem isEntityChar_of_isHexDigit {c : Char} (h : isHexDigit c = true) :
    isEntityChar c = true := by
  rw [isEntityChar, isAlphanum_of_isHexDigit h]
  rfl

theorem isEntityTail_digest (digest : Digest) :
    isEntityTail ((digest.val.toList.drop 7).take 24) = true := by
  have hdigest := digest.ok
  rw [isSha256, Bool.and_eq_true, Bool.and_eq_true, List.all_eq_true, beq_iff_eq] at hdigest
  obtain ⟨⟨-, hhex⟩, hlength⟩ := hdigest
  cases hcs : digest.val.toList.drop 7 with
  | nil =>
      rw [hcs] at hlength
      exact absurd hlength (by decide)
  | cons c cs =>
      rw [hcs] at hhex
      rw [List.take_succ_cons, isEntityTail, isAlphanum_of_isHexDigit (hhex c List.mem_cons_self),
        Bool.true_and, Bool.and_eq_true, List.all_eq_true, decide_eq_true_eq]
      refine ⟨fun d hd => isEntityChar_of_isHexDigit
        (hhex d (List.mem_cons_of_mem _ (List.mem_of_mem_take hd))), ?_⟩
      rw [List.length_take]
      omega

theorem isEntityId_append (e : Entity) {cs : List Char} (h : isEntityTail cs = true) :
    isEntityId e (e.tag ++ cs) = true := by
  rw [isEntityId, Bool.and_eq_true, List.drop_left]
  exact ⟨List.isPrefixOf_iff_prefix.mpr (List.prefix_append _ _), h⟩

/-- `"rev_" + digest[7:31]`. -/
def revisionIdOf (digest : Digest) : EntityId .rev :=
  ⟨String.ofList (Entity.rev.tag ++ (digest.val.toList.drop 7).take 24), by
    rw [String.toList_ofList]
    exact isEntityId_append .rev (isEntityTail_digest digest)⟩

theorem lawful_digest : LawfulBEq Digest := inferInstance

attribute [local instance] lawful_digest in
/-- `Revision.create`. -/
def Revision.create [Platform] (app environment : String) (manifestDigest : Digest)
    (artifactDigests : Digests) (rendererVersion : Text 128) (workloads : List Workload)
    (createdAt : Utc) : Result Revision := do
  let app ← requireSlug app "app"
  let environment ← requireSlug environment "environment"
  if workloads_ne_nil : workloads ≠ [] then
    if workloads_sorted : sortedUnique (workloads.map (·.workloadId)) = true then
      if artifacts_listed : ∀ w ∈ workloads, w.artifactDigest ∈ artifactDigests.1 then
        let provisional : Revision :=
          { revisionId := ⟨"rev_pending", by decide⟩, app, environment, manifestDigest,
            artifactDigests, rendererVersion, workloads, createdAt, workloads_ne_nil,
            workloads_sorted, artifacts_listed }
        return { provisional with revisionId := revisionIdOf provisional.contentDigest }
      else
        throw (.contractValidation
          "Every workload artifact_digest must appear in revision artifact_digests.")
    else throw (.contractValidation "workloads must be sorted by unique workload_id.")
  else throw (.contractValidation "workloads must be a non-empty immutable tuple.")

theorem sortedUnique_singleton {p : List Char → Bool} (x : Refined p) : sortedUnique [x] = true := by
  simp [sortedUnique]

/-- A revision of one workload is always built. -/
theorem Revision.create_one [Platform] {app environment : String} (happ : isSlug app.toList = true)
    (henvironment : isSlug environment.toList = true) (manifestDigest : Digest)
    (rendererVersion : Text 128) (w : Workload) (createdAt : Utc) :
    ∃ r, Revision.create app environment manifestDigest
        ⟨[w.artifactDigest], sortedUnique_singleton _⟩ rendererVersion [w] createdAt = .ok r ∧
      r.workloads = [w] := by
  have hsorted : sortedUnique ([w].map (·.workloadId)) = true := sortedUnique_singleton _
  have hlisted : ∀ w' ∈ [w], w'.artifactDigest ∈ [w.artifactDigest] := by simp
  unfold Revision.create
  rw [requireSlug_of happ, Result.ok_bind, requireSlug_of henvironment, Result.ok_bind,
    dif_pos (List.cons_ne_nil w []), dif_pos hsorted, dif_pos hlisted]
  exact ⟨_, rfl, rfl⟩

/-! ### Bundles -/

/-- A process of `runtime-requirements`. -/
structure BundleProcess where
  id : BundleId
  artifactId : BundleId

/-- A port of `runtime-requirements`. -/
structure BundlePort where
  id : BundleId

/-- An artifact of the release manifest. -/
structure ReleaseArtifact where
  id : BundleId
  digest : Digest

/-- A bundle that was loaded and has the shape of the process backend (`_validate_shape`), as far
as revisions and observations read it. -/
structure OperationsBundle where
  productId : BundleId
  process : BundleProcess
  port : BundlePort
  artifacts : List ReleaseArtifact
  artifacts_unique : (artifacts.map (·.id)).Nodup
  artifact_declared : ∃ a ∈ artifacts, a.id = process.artifactId
  /-- `document_digests["release-manifest"]`. -/
  releaseManifest : Digest

namespace OperationsBundle

variable (b : OperationsBundle)

/-- `ProductOperationsBundle.artifact`. -/
def artifact (id : BundleId) : Result ReleaseArtifact :=
  match b.artifacts.find? fun a => a.id = id with
  | some a => .ok a
  | none => .error (.valueError ("Release artifact is not declared: " ++ id.val))

/-- The artifact of the process is declared. -/
theorem artifact_process : ∃ a, b.artifact b.process.artifactId = .ok a := by
  obtain ⟨a, ha, hid⟩ := b.artifact_declared
  unfold artifact
  cases hfind : b.artifacts.find? fun a => a.id = b.process.artifactId with
  | some found => exact ⟨found, rfl⟩
  | none => exact absurd hid (by simpa using List.find?_eq_none.mp hfind a ha)

/-! ### The desired revision -/

/-- `_revision`. -/
def revision [Platform] (createdAt : Utc) : Result Revision := do
  let artifact ← b.artifact b.process.artifactId
  let workload ← Workload.create (slug b.process.id.val) .web artifact.digest
    [slug b.port.id.val] true
  Revision.create (slug b.productId.val) "production" b.releaseManifest
    ⟨[artifact.digest], sortedUnique_singleton _⟩
    ⟨"product-operations-bundle-v1", by decide⟩ [workload] createdAt

/-! ### The observation -/

/-- `value.replace(".", "-")`. -/
def dotless (value : String) : String :=
  String.ofList (value.toList.map fun c => if c = '.' then '-' else c)

/-- `_revision_workload`. -/
def revisionWorkload : Result Workload := do
  let artifact ← b.artifact b.process.artifactId
  Workload.create (dotless b.process.id.val) .web artifact.digest [dotless b.port.id.val] true

end OperationsBundle

structure ObservedWorkload where
  workloadId : Slug
  workloadKind : WorkloadKind
  runtimeState : Text 128
  artifactDigest : Digest
  ready : Bool
  fencingTokenDigest : Option Digest
deriving DecidableEq

structure ObservedRevision [Platform] where
  hostId : EntityId .host
  app : Slug
  environment : Slug
  revisionId : Option (EntityId .rev)
  revisionDigest : Option Digest
  state : RevisionState
  workloads : List ObservedWorkload
  observedAt : Utc
  workloads_sorted : sortedUnique (workloads.map (·.workloadId)) = true

namespace OperationsBundle

variable (b : OperationsBundle)

/-- `inspect`. Whether the revision is running is read off its process record. -/
def inspect [Platform] (hostId : EntityId .host) (handle : RuntimeHandle) (running : Bool)
    (now : Utc) : Result ObservedRevision := do
  let workload ← b.revisionWorkload
  let observed : ObservedWorkload := {
    workloadId := workload.workloadId
    workloadKind := workload.workloadKind
    runtimeState := if running then ⟨"healthy", by decide⟩ else ⟨"unavailable", by decide⟩
    artifactDigest := workload.artifactDigest
    ready := running
    fencingTokenDigest := none }
  let app ← requireSlug (productSlug b.productId.val) "app"
  return {
    hostId
    app
    environment := ⟨"production", Eq.refl true⟩
    revisionId := some handle.revisionId
    revisionDigest := if running then some handle.revisionDigest else none
    state := if running then .ready else .failed
    workloads := [observed]
    observedAt := now
    workloads_sorted := sortedUnique_singleton _ }

/-! ### Agreement -/

/-- An identifier that the kernel takes with its dots written as hyphens. -/
def Plain (id : BundleId) : Prop :=
  id.val.toList.length ≤ 63 ∧ '_' ∉ id.val.toList

/-- Without underscores, only dots are written as hyphens. -/
theorem toList_dotless_of_plain {id : BundleId} (h : Plain id) :
    (dotless id.val).toList = inHyphens id := by
  rw [dotless, String.toList_ofList, inHyphens]
  refine List.map_congr_left fun c hc => ?_
  have hunderscore : c ≠ '_' := fun heq => h.2 (heq ▸ hc)
  by_cases hdot : c = '.'
  · rw [if_pos hdot, hdot]
    rfl
  · rw [if_neg hdot, asHyphen]
    split
    · rename_i hsep
      simp only [isIdSeparator, Bool.or_eq_true, beq_iff_eq] at hsep
      rcases hsep with (rfl | rfl) | rfl
      · exact absurd rfl hdot
      · exact absurd rfl hunderscore
      · rfl
    · rfl

theorem isSlug_dotless_iff (id : BundleId) : isSlug (dotless id.val).toList = true ↔ Plain id := by
  constructor
  · intro h
    have hslug := h
    rw [isSlug, Bool.and_eq_true, decide_eq_true_eq, dotless, String.toList_ofList,
      List.length_map] at h
    refine ⟨h.1, fun hmem => ?_⟩
    have hmem' : '_' ∈ (dotless id.val).toList := by
      rw [dotless, String.toList_ofList]
      exact List.mem_map.mpr ⟨'_', hmem, rfl⟩
    rcases mem_of_isSlug ⟨dotless id.val, hslug⟩ '_' hmem' with hchar | hchar
    · exact absurd hchar (by decide)
    · exact absurd hchar (by decide)
  · intro h
    rw [toList_dotless_of_plain h, isSlug, isSlugPattern_inHyphens, length_inHyphens,
      decide_eq_true h.1]
    rfl

/-- The slug of a plain identifier only writes hyphens for dots. -/
theorem slug_of_plain [Platform] {id : BundleId} (h : Plain id) :
    slug id.val = dotless id.val := by
  rw [← String.toList_inj, toList_slug, toList_dotless_of_plain h, if_neg (Nat.not_lt.mpr h.1)]

/-- The revision is always built, with the workload under the slug of its process. -/
theorem revision_eq_ok [Platform] {a : ReleaseArtifact}
    (ha : b.artifact b.process.artifactId = .ok a) (createdAt : Utc) :
    ∃ r w, b.revision createdAt = .ok r ∧ r.workloads = [w] ∧
      w.workloadId.val = slug b.process.id.val ∧ w.workloadKind = .web ∧
      w.artifactDigest = a.digest := by
  obtain ⟨w, hw, hid, hkind, hdigest⟩ :=
    Workload.exists_create_web a.digest (isSlug_slug b.process.id) (isSlug_slug b.port.id)
  have henvironment : isSlug "production".toList = true := by decide
  obtain ⟨r, hr, hworkloads⟩ := Revision.create_one (isSlug_slug b.productId) henvironment
    b.releaseManifest ⟨"product-operations-bundle-v1", by decide⟩ w createdAt
  refine ⟨r, w, ?_, hworkloads, hid, hkind, hdigest⟩
  unfold revision
  rw [ha, Result.ok_bind, hw, Result.ok_bind, ← hdigest]
  exact hr

/-- What a workload is known by. -/
def identity (w : Workload) : Slug × WorkloadKind × Digest :=
  (w.workloadId, w.workloadKind, w.artifactDigest)

def observedIdentity (w : ObservedWorkload) : Slug × WorkloadKind × Digest :=
  (w.workloadId, w.workloadKind, w.artifactDigest)

/-- The observation is built, and it reports the workload of the revision of the bundle. -/
def Agrees [Platform] (createdAt : Utc) (hostId : EntityId .host) (handle : RuntimeHandle)
    (running : Bool) (now : Utc) : Prop :=
  ∃ r o, b.revision createdAt = .ok r ∧ b.inspect hostId handle running now = .ok o ∧
    o.workloads.map observedIdentity = r.workloads.map identity

/-- **Observed and desired workloads agree** exactly if the process and its port have names that
are slugs once their dots are hyphens. -/
theorem agrees_iff [Platform] (createdAt : Utc) (hostId : EntityId .host)
    (handle : RuntimeHandle) (running : Bool) (now : Utc) :
    b.Agrees createdAt hostId handle running now ↔ Plain b.process.id ∧ Plain b.port.id := by
  obtain ⟨a, ha⟩ := b.artifact_process
  constructor
  · rintro ⟨r, o, -, ho, -⟩
    obtain ⟨w, hw, -⟩ := Results.bind_eq_ok.mp ho
    rw [revisionWorkload, ha, Result.ok_bind] at hw
    have hnames := Workload.create_names hw
    exact ⟨(isSlug_dotless_iff _).mp hnames.1, (isSlug_dotless_iff _).mp hnames.2⟩
  · rintro ⟨hprocess, hport⟩
    obtain ⟨r, w, hr, hworkloads, hid, hkind, hdigest⟩ := b.revision_eq_ok ha createdAt
    have hw := @Workload.create_web _ _ a.digest ((isSlug_dotless_iff _).mpr hprocess)
      ((isSlug_dotless_iff _).mpr hport)
    have happ := requireSlug_of (isSlug_slug b.productId) "app"
    have hinspect : ∃ o, b.inspect hostId handle running now = .ok o ∧
        o.workloads.map observedIdentity =
          [(⟨dotless b.process.id.val, (isSlug_dotless_iff _).mpr hprocess⟩, .web, a.digest)] := by
      rw [inspect, revisionWorkload, ha, Result.ok_bind, hw, Result.ok_bind]
      change ∃ o, (requireSlug (slug b.productId.val) "app" >>= _) = .ok o ∧ _
      rw [happ, Result.ok_bind]
      exact ⟨_, rfl, rfl⟩
    obtain ⟨o, ho, hobserved⟩ := hinspect
    refine ⟨r, o, hr, ho, ?_⟩
    have hid' : w.workloadId =
        ⟨dotless b.process.id.val, (isSlug_dotless_iff _).mpr hprocess⟩ :=
      Refined.ext (hid.trans (slug_of_plain hprocess))
    rw [hobserved, hworkloads, List.map_cons, List.map_nil, identity, hid', hkind, hdigest]

end OperationsBundle

end Ophelia

namespace Ophelia.Reference

attribute [local instance] platform

/-- A bundle with a process `web_server`. -/
def webServerBundle : OperationsBundle where
  productId := acmeShop
  process := ⟨⟨"web_server", by decide⟩, ⟨"server", by decide⟩⟩
  port := ⟨⟨"http", by decide⟩⟩
  artifacts := [⟨⟨"server", by decide⟩, digestText "server"⟩]
  artifacts_unique := by decide
  artifact_declared := ⟨_, List.mem_singleton.mpr rfl, rfl⟩
  releaseManifest := digestText "release"

/-- Its revision is built, and every observation of it raises. -/
theorem webServer_disagrees : ¬ ∀ (b : OperationsBundle) createdAt hostId handle running now,
    b.Agrees createdAt hostId handle running now := by
  intro h
  obtain ⟨r, o, -, ho, -⟩ := h webServerBundle ⟨"2026-01-01T00:00:00Z", by decide +kernel⟩
    ⟨"host_1", by decide⟩ ⟨"product-process-v1", ⟨"rev_1", by decide⟩, digestText "revision"⟩ true
    ⟨"2026-01-01T00:00:01Z", by decide +kernel⟩
  obtain ⟨w, hw, -⟩ := Results.bind_eq_ok.mp ho
  obtain ⟨a, -, hcreate⟩ := Results.bind_eq_ok.mp hw
  exact absurd (Workload.create_names hcreate).1 (by decide)

end Ophelia.Reference
