import Ophelia.Products.StagedRelease

/-!
# Ophelia.Products.ReleaseRetries

Series of attempts at one product release, any of which may be killed. Once an attempt has written
its evidence all later ones return its time of creation. The directory of the operation is made
exclusively and its name is fixed by the confirmation, so an attempt that is killed between these
two leaves a directory that `create` refuses and that has no evidence to go on from: no later
attempt with this confirmation returns (`series_goesOn`, `killed_after_mkdir`).
-/

namespace Ophelia

namespace ReleaseStaging

open BundleLoader

variable {r : ReleaseRequest} {b : LoadedBundle}

/-! ### Series of attempts -/

/-- An attempt goes on: it returns the time of creation, which is on record then, or it is killed
and leaves that time on record or no directory at all. -/
def GoesOn (createdAt : String) (s : StagingStep) : Prop :=
  (s.outcome = .returned createdAt ∧ recordedAt s.after = some createdAt) ∨
    (s.outcome = .crashed ∧ s.attempt.calls ≠ none ∧
      (s.after = none ∨ recordedAt s.after = some createdAt))

/-- All attempts of a series go on, with one time of creation. -/
def AllGoOn (steps : List StagingStep) : Prop :=
  ∃ createdAt, ∀ s ∈ steps, GoesOn createdAt s

/-- An attempt that is to make the directory is killed before its first call, or not before the
text of the evidence is written. -/
def Undisturbed (b : LoadedBundle) (s : StagingStep) : Prop :=
  s.before = none →
    s.attempt.calls = some 0 ∨ ∀ n, s.attempt.calls = some n → stagingCalls b ≤ n

/-- One attempt of a series, and the others. -/
theorem series_cons {confirm : String} {dir : Option OperationDir} {a : StagingAttempt}
    {w : StagingWorld} {outcome : Program.Outcome StagingFailure String}
    (h : applyProductRelease r confirm a.now ⟨dir, a.calls⟩ = (w, outcome))
    (rest : List StagingAttempt) :
    series r confirm dir (a :: rest) =
      ⟨dir, a, outcome, w.dir⟩ :: series r confirm w.dir rest := by
  rw [series, h]

/-- What an accepted request does once its token is confirmed. -/
theorem applyProductRelease_eq (h : Accepted r b) {confirm : String} (hne : confirm ≠ "")
    (hexpected : r.expected = confirm) (now : String) :
    applyProductRelease r confirm now = (inputs r b).stageRelease now := by
  have htoken : ¬ (confirm = "" ∨ r.expected ≠ confirm) := by
    rintro (hempty | hother)
    · exact hne hempty
    · exact hother hexpected
  unfold applyProductRelease
  rw [if_neg htoken, h.loads]
  unfold bundleCheck
  simp only [Program.ret_bind, h.verifies]
  rfl

/-- One attempt, from what its program does. -/
theorem goesOn_of_triple {m : StagingProgram String} (hspared : Spared m) {createdAt : String}
    {dir : Option OperationDir} {a : StagingAttempt} {P : StagingWorld → Prop}
    (hrule : Program.Triple P m (fun c w => c = createdAt ∧ Staged r b createdAt w.dir)
      (fun _ => never) (fun w => Staged r b createdAt w.dir)) (hP : P ⟨dir, a.calls⟩) :
    GoesOn createdAt ⟨dir, a, (m ⟨dir, a.calls⟩).2, (m ⟨dir, a.calls⟩).1.dir⟩ ∧
      Staged r b createdAt (m ⟨dir, a.calls⟩).1.dir := by
  have hrun := hrule _ hP
  have hlives := hspared ⟨dir, a.calls⟩
  cases hm : m ⟨dir, a.calls⟩ with
  | mk w outcome =>
      rw [hm] at hrun hlives
      cases outcome with
      | returned c =>
          obtain ⟨rfl, hstaged⟩ := hrun
          exact ⟨.inl ⟨rfl, recordedAt_of_staged hstaged⟩, hstaged⟩
      | raised e => exact hrun.elim
      | crashed => exact ⟨.inr ⟨rfl, hlives, .inr (recordedAt_of_staged hrun)⟩, hrun⟩

/-- From a directory with its evidence on, all attempts go on. -/
theorem series_staged (h : Accepted r b) {confirm : String} (hne : confirm ≠ "")
    (hexpected : r.expected = confirm) {createdAt : String} (attempts : List StagingAttempt)
    {dir : Option OperationDir} (hstaged : Staged r b createdAt dir) :
    ∀ s ∈ series r confirm dir attempts, GoesOn createdAt s := by
  induction attempts generalizing dir with
  | nil => exact fun s hs => absurd hs List.not_mem_nil
  | cons a rest ih =>
      obtain ⟨hgoes, hafter⟩ := goesOn_of_triple (a := a)
        (Spared.stageRelease (inputs r b) a.now) (stageRelease_staged h createdAt a.now) hstaged
      intro s hs
      rw [series, applyProductRelease_eq h hne hexpected] at hs
      rcases List.mem_cons.mp hs with rfl | hs
      · exact hgoes
      · exact ih hafter s hs

/-- In a series of undisturbed attempts all go on, with one time of creation. -/
theorem series_goesOn {confirm : String} (h : Accepted r b) (hclear : Clear b)
    (hne : confirm ≠ "") (hexpected : r.expected = confirm) (attempts : List StagingAttempt)
    (hundisturbed : ∀ s ∈ series r confirm none attempts, Undisturbed b s) :
    AllGoOn (series r confirm none attempts) := by
  induction attempts with
  | nil => exact ⟨"", fun s hs => absurd hs List.not_mem_nil⟩
  | cons a rest ih =>
      rw [series, applyProductRelease_eq h hne hexpected] at hundisturbed ⊢
      rcases hundisturbed _ List.mem_cons_self rfl with hdead | hleft
      · -- the attempt is killed before its first call: the next one starts where it did
        have hcrashed := stageRelease_dead (inputs r b) a.now none ⟨none, some 0⟩ rfl
        rw [hdead] at hundisturbed ⊢
        cases hrun : (inputs r b).stageRelease a.now ⟨none, some 0⟩ with
        | mk w outcome =>
            rw [hrun] at hcrashed hundisturbed
            cases outcome with
            | returned c => exact hcrashed.elim
            | raised e => exact hcrashed.elim
            | crashed =>
                subst hcrashed
                obtain ⟨createdAt, hgoes⟩ := ih fun s hs =>
                  hundisturbed s (List.mem_cons_of_mem _ hs)
                refine ⟨createdAt, fun s hs => ?_⟩
                rcases List.mem_cons.mp hs with rfl | hs
                · refine .inr ⟨rfl, ?_, .inl rfl⟩
                  rw [hdead]
                  exact fun hnone => nomatch hnone
                · exact hgoes s hs
      · obtain ⟨hgoes, hafter⟩ := goesOn_of_triple (a := a)
          (Spared.stageRelease (inputs r b) a.now) (stageRelease_none h hclear a.now)
          ⟨hleft, rfl⟩
        refine ⟨a.now, fun s hs => ?_⟩
        rcases List.mem_cons.mp hs with rfl | hs
        · exact hgoes
        · exact series_staged h hne hexpected rest hafter s hs

/-! ### A product with one process -/

/-- The digest of all that the sample refers to and does not hold. -/
def sampleDigest : String :=
  "sha256:0123456789abcdef0123456789abcdef0123456789abcdef0123456789abcdef"

def artifactDigest : String :=
  "sha256:a8076d3d28d21e02012b20eaf7dbf75409a6277134439025f282e368e3305abf"

def recoveryDigest : String :=
  "sha256:39f8a9d4aa3ea2b1cc54027c6490c827fa2d658c8940ea125341b83b79bb378c"

def indexDigest : String :=
  "sha256:f343e0d951f7b928dfd830585a3fb8e41df262eaff89876f674912d74e91d702"

def recoveryFileDigest : String :=
  "sha256:bd9834a3a2fe0413137bac6d1f1d0b25cb767064ca8c9c4f29d00756cf0a6ade"

def indexFileDigest : String :=
  "sha256:caf3f870a4c7f5b8e48c4fd0b0efa567aa0b2b00af8482de70dbc13823a8e4b8"

def runtimeDigest : String :=
  "sha256:35502d669bef067cad53fd8441b468301be7cc14bfa4cafb96c242805fb53871"

def runtimeFileDigest : String :=
  "sha256:0174ccb2ef8919703a1f1d3a222a6c83ed0eab3a6d7dd8c47bfb4c791c6c6c30"

def releaseDigest : String :=
  "sha256:ff751e444261243d4d8d8e6a2e9d328663e425c31be87ae61cbce30f3e0f3357"

def releaseFileDigest : String :=
  "sha256:c4e1ae044a52f71352aacdae816d2e96d7e376cb28c48e578ef0864233fda621"

def sampleStack : Json :=
  .obj [
    ("id", .str "acme"), ("version", .str "1.0.0"), ("manifest_digest", .str sampleDigest),
    ("blueprint_digest", .str sampleDigest)]

def sampleDataset : Json :=
  .obj [
    ("id", .str "main"), ("owner", .str "acme"), ("kind", .str "sqlite"),
    ("binding", .str "stack-owned"), ("consistency", .str "crash-consistent"),
    ("consistency_group", .str "main"), ("backup", .str "required"), ("quiescence", .str "none"),
    ("backup_order", .int 1), ("restore_validations", .arr [.str "rows"])]

/-- `runtime.json`. -/
def sampleRuntime : Json :=
  .obj [
    ("schema_version", .str "product.runtime-requirements/v1"),
    ("kind", .str "product.runtime-requirements"), ("product_id", .str "acme"),
    ("contract_digest", .str runtimeDigest),
    ("composition_digest", .str sampleDigest), ("stack", sampleStack),
    ("processes", .arr [
      .obj [
        ("id", .str "web"), ("artifact_id", .str "server"), ("argv", .arr [.str "bin/acme"]),
        ("replicas", .int 1), ("shutdown_seconds", .int 30)]]),
    ("ports", .arr [
      .obj [
        ("id", .str "http"), ("process_id", .str "web"), ("protocol", .str "http"),
        ("exposure", .str "public"), ("port", .int 8080)]]),
    ("health", .arr [
      .obj [
        ("id", .str "ready"), ("process_id", .str "web"), ("port_id", .str "http"),
        ("kind", .str "readiness"), ("path", .str "/ready"), ("timeout_seconds", .int 2),
        ("interval_seconds", .int 5)]]),
    ("data", .arr [sampleDataset]),
    ("lifecycle", .obj [
      ("startup", .str "single-process"), ("shutdown_signal", .str "SIGTERM"),
      ("shutdown_timeout_seconds", .int 30)])]

/-- `release.json`. -/
def sampleRelease : Json :=
  .obj [
    ("schema_version", .str "product.release-manifest/v1"),
    ("kind", .str "product.release-manifest"),
    ("manifest_digest", .str releaseDigest),
    ("release_id", .str "acme-1"), ("product_id", .str "acme"), ("stack", sampleStack),
    ("provenance", .obj [
      ("plan_digest", .str sampleDigest), ("product_spec_digest", .str sampleDigest),
      ("registry_digest", .str sampleDigest)]),
    ("artifacts", .arr [
      .obj [
        ("id", .str "server"), ("kind", .str "executable"), ("path", .str "bin/acme"),
        ("digest", .str artifactDigest),
        ("build_digest", .str sampleDigest), ("size_bytes", .int 10),
        ("platform", .obj [
          ("os", .str "linux"), ("arch", .str "amd64"), ("cgo_enabled", .bool false),
          ("toolchain", .str "go1.24")])]]),
    ("capabilities", .arr []),
    ("compatibility", .obj [
      ("runtime_requirements", .str "product.runtime-requirements/v1"),
      ("release_manifest", .str "product.release-manifest/v1"),
      ("recovery_contract", .str "product.recovery-contract/v1")]),
    ("rollout", .obj [
      ("strategy", .str "replace"), ("migration_behavior", .str "external-before-start"),
      ("rollback", .str "artifact-only"), ("preconditions", .arr [.str "backup"])])]

/-- `recovery.json`. -/
def sampleRecovery : Json :=
  .obj [
    ("schema_version", .str "product.recovery-contract/v1"),
    ("kind", .str "product.recovery-contract"),
    ("contract_digest", .str recoveryDigest),
    ("product_id", .str "acme"), ("composition_digest", .str sampleDigest),
    ("objectives", .obj [
      ("rpo_hours", .int 24), ("rto_hours", .int 4), ("retention_days", .int 30)]),
    ("datasets", .arr [sampleDataset]), ("backup_order", .arr [.str "main"]),
    ("restore_order", .arr [.str "main"]),
    ("validation_order", .arr [.obj [("dataset_id", .str "main"), ("checks", .arr [.str "rows"])]])]

/-- `bundle.json`. -/
def sampleIndex : Json :=
  .obj [
    ("schema_version", .str "product.operations-bundle/v1"),
    ("kind", .str "product.operations-bundle"), ("product_id", .str "acme"),
    ("release_id", .str "acme-1"),
    ("bundle_digest", .str indexDigest),
    ("composition_digest", .str sampleDigest),
    ("documents", .arr [
      .obj [
        ("kind", .str "runtime-requirements"), ("path", .str "runtime.json"),
        ("digest", .str runtimeFileDigest)],
      .obj [
        ("kind", .str "release-manifest"), ("path", .str "release.json"),
        ("digest", .str releaseFileDigest)],
      .obj [
        ("kind", .str "recovery-contract"), ("path", .str "recovery.json"),
        ("digest", .str recoveryFileDigest)]])]

/-- The SHA-256 digests of the sample's texts, by their lengths. -/
def sampleDigests : List (Nat × String) := [
  (10, artifactDigest), (625, recoveryDigest), (660, indexDigest), (695, recoveryFileDigest),
  (730, indexFileDigest), (1113, runtimeDigest), (1183, runtimeFileDigest), (1325, releaseDigest),
  (1395, releaseFileDigest)]

def sampleDocuments : List (FileParts × Json) :=
  [(indexPath, sampleIndex), (["runtime.json".toList], sampleRuntime),
    (["release.json".toList], sampleRelease), (["recovery.json".toList], sampleRecovery)]

/-- The request for the sample, on a host it runs on. -/
def sampleRequest : ReleaseRequest where
  tools := {
    parse := fun raw =>
      (sampleDocuments.find? fun d => decide (utf8Bytes d.2.plainText = raw)).map (·.2)
    sha256 := fun bytes =>
      ((sampleDigests.find? fun d => decide (d.1 = bytes.length)).map (·.2)).getD ""
    system := "linux"
    machine := "x86_64" }
  source path := (sampleDocuments.find? fun d => decide (d.1 = path)).map fun d =>
    utf8Bytes d.2.plainText
  artifact := some (utf8Bytes "#!/bin/sh\n".toList)
  expected := "token"

instance (b : LoadedBundle) : Decidable (Clear b) :=
  inferInstanceAs (Decidable (∀ f ∈ stagedPaths b,
    ¬ f <+: artifactPath b ∧ ¬ artifactPath b <+: f))

/-- A file of the sample lies at the top of the bundle. -/
theorem length_of_sampleSource {path : FileParts} (h : sampleRequest.source path ≠ none) :
    path.length = 1 := by
  have hsome : (sampleDocuments.find? fun d => decide (d.1 = path)) ≠ none := by
    intro hnone
    refine h ?_
    change Option.map _ (sampleDocuments.find? fun d => decide (d.1 = path)) = none
    rw [hnone]
    rfl
  obtain ⟨d, hd⟩ := Option.ne_none_iff_exists'.mp hsome
  have hfound := List.find?_some hd
  have hpath : d.1 = path := of_decide_eq_true hfound
  have hall : ∀ d ∈ sampleDocuments, d.1.length = 1 :=
    List.forall_iff_forall_mem.mp ⟨rfl, rfl, rfl, rfl⟩
  rw [← hpath]
  exact hall d (List.mem_of_find?_eq_some hd)

/-! ### The sample is accepted -/

/-- A document is the first one with its text, when all texts have different lengths. -/
theorem find?_text {docs : List (FileParts × Json)} {d : FileParts × Json}
    (hlengths : (docs.map fun d => (utf8Bytes d.2.plainText).length).Nodup) (hd : d ∈ docs) :
    docs.find? (fun e => decide (utf8Bytes e.2.plainText = utf8Bytes d.2.plainText)) = some d := by
  induction docs with
  | nil => cases hd
  | cons e docs ih =>
      obtain ⟨hnew, hrest⟩ := List.nodup_cons.mp hlengths
      rcases List.mem_cons.mp hd with rfl | hd
      · exact List.find?_cons_of_pos (decide_eq_true rfl)
      · rw [List.find?_cons_of_neg, ih hrest hd]
        intro heq
        exact hnew (List.mem_map.mpr ⟨d, hd, congrArg List.length (of_decide_eq_true heq).symm⟩)

/-- How long the texts of the sample are. -/
theorem textLengths_sample :
    (utf8Bytes sampleIndex.plainText).length = 730 ∧
    (utf8Bytes sampleRuntime.plainText).length = 1183 ∧
    (utf8Bytes sampleRelease.plainText).length = 1395 ∧
    (utf8Bytes sampleRecovery.plainText).length = 695 := by
  simp only [sampleIndex, sampleRuntime, sampleRelease, sampleRecovery, sampleStack,
    sampleDataset, sampleDigest, indexDigest, runtimeDigest, releaseDigest, recoveryDigest,
    artifactDigest, runtimeFileDigest, releaseFileDigest, recoveryFileDigest, Json.plainText,
    Json.pieces, Json.itemsPieces, Json.membersPieces]
  refine ⟨?_, ?_, ?_, ?_⟩
  all_goals
    repeat rw [Json.Piece.quoted_ofList]
    decide +kernel

theorem lengths_sample :
    (sampleDocuments.map fun d => (utf8Bytes d.2.plainText).length) = [730, 1183, 1395, 695] := by
  obtain ⟨hindex, hruntime, hrelease, hrecovery⟩ := textLengths_sample
  simp only [sampleDocuments, List.map, hindex, hruntime, hrelease, hrecovery]

theorem parse_sample {d : FileParts × Json} (hd : d ∈ sampleDocuments) :
    sampleRequest.tools.parse (utf8Bytes d.2.plainText) = some d.2 := by
  have hfind := find?_text (by rw [lengths_sample]; decide) hd
  show ((sampleDocuments.find? _).map Prod.snd) = some d.2
  rw [hfind]
  rfl

/-- The digest of a text is the one on the list for its length. -/
theorem sha256_sample {bytes : Bytes} {n : Nat} (hlength : bytes.length = n) :
    sampleRequest.tools.sha256 bytes =
      ((sampleDigests.find? fun d => decide (d.1 = n)).map (·.2)).getD "" := by
  rw [← hlength]
  rfl

theorem readJson_sample {d : FileParts × Json} (hd : d ∈ sampleDocuments)
    (hsource : sampleRequest.source d.1 = some (utf8Bytes d.2.plainText))
    (hmapping : isMapping d.2 = true) :
    readJson sampleRequest.tools sampleRequest.source d.1 =
      .ok (d.2, utf8Bytes d.2.plainText) := by
  have hlength : ¬ MAX_CONTRACT_BYTES < (utf8Bytes d.2.plainText).length := by
    have hall : ∀ n ∈ [730, 1183, 1395, 695], ¬ MAX_CONTRACT_BYTES < n :=
      List.forall_iff_forall_mem.mp (by decide)
    refine hall _ ?_
    rw [← lengths_sample]
    exact List.mem_map_of_mem hd
  unfold readJson
  simp only [hsource, if_neg hlength, parse_sample hd, hmapping, if_true]

/-- How much of the sample is hashed. -/
theorem hashedLengths_sample :
    (hashedBytes "bundle_digest" sampleIndex).length = 660 ∧
    (hashedBytes "contract_digest" sampleRuntime).length = 1113 ∧
    (hashedBytes "manifest_digest" sampleRelease).length = 1325 ∧
    (hashedBytes "contract_digest" sampleRecovery).length = 625 := by
  simp only [hashedBytes, emptied, sampleIndex, sampleRuntime, sampleRelease, sampleRecovery,
    sampleStack, sampleDataset, sampleDigest, indexDigest, artifactDigest, runtimeFileDigest,
    releaseFileDigest, recoveryFileDigest, Json.plainText, Json.pieces, Json.itemsPieces,
    Json.membersPieces, List.map, String.reduceEq, if_true, if_false]
  refine ⟨?_, ?_, ?_, ?_⟩
  all_goals
    repeat rw [Json.Piece.quoted_ofList]
    decide +kernel

theorem validateValueDigest_sample {value : Json} {field owner : String} {n : Nat}
    (hlength : (hashedBytes field value).length = n)
    (hdigest : Json.str (((sampleDigests.find? fun d => decide (d.1 = n)).map (·.2)).getD "") =
      member value field) :
    validateValueDigest sampleRequest.tools value field owner = .ok () := by
  rw [validateValueDigest, sha256_sample hlength, if_pos hdigest]

/-- A document that the index names, as it is read. -/
theorem readDocument_sample {d : FileParts × Json} (hd : d ∈ sampleDocuments)
    (hsource : sampleRequest.source d.1 = some (utf8Bytes d.2.plainText))
    (hmapping : isMapping d.2 = true) {n : Nat} {digest : String} (kind path : String)
    (hpath : partsOf path = d.1) (hlength : (utf8Bytes d.2.plainText).length = n)
    (hlisted : ((sampleDigests.find? fun d => decide (d.1 = n)).map (·.2)).getD "" = digest) :
    readDocument sampleRequest.tools sampleRequest.source
        (.obj [("kind", .str kind), ("path", .str path), ("digest", .str digest)]) =
      .ok (kind, d.2, digest) := by
  have hread := readJson_sample hd hsource hmapping
  rw [← hpath] at hread
  refine Results.bind_ok hread ?_
  have hactual : sampleRequest.tools.sha256 (utf8Bytes d.2.plainText) = digest :=
    (sha256_sample hlength).trans hlisted
  show (if Json.str (sampleRequest.tools.sha256 (utf8Bytes d.2.plainText)) ≠ .str digest then _
    else Except.ok (kind, d.2, sampleRequest.tools.sha256 (utf8Bytes d.2.plainText))) = _
  rw [hactual, if_neg (not_not_intro rfl)]

/-- The sample is loaded. -/
theorem load_sample : load sampleRequest.tools sampleRequest.source =
    .ok ⟨sampleIndex, sampleRuntime, sampleRelease, sampleRecovery,
      [("runtime-requirements", runtimeFileDigest), ("release-manifest", releaseFileDigest),
        ("recovery-contract", recoveryFileDigest)]⟩ := by
  obtain ⟨hindexText, hruntimeText, hreleaseText, hrecoveryText⟩ := textLengths_sample
  obtain ⟨hindexHashed, hruntimeHashed, hreleaseHashed, hrecoveryHashed⟩ := hashedLengths_sample
  have hindex := readJson_sample (d := (indexPath, sampleIndex)) (by simp [sampleDocuments]) rfl rfl
  have hdocuments : (itemsOf (member sampleIndex "documents")).mapM
      (readDocument sampleRequest.tools sampleRequest.source) =
        .ok [("runtime-requirements", sampleRuntime, runtimeFileDigest),
          ("release-manifest", sampleRelease, releaseFileDigest),
          ("recovery-contract", sampleRecovery, recoveryFileDigest)] := by
    have hruntime := readDocument_sample (d := (["runtime.json".toList], sampleRuntime))
      (by simp [sampleDocuments]) rfl rfl "runtime-requirements" "runtime.json" rfl hruntimeText rfl
    have hrelease := readDocument_sample (d := (["release.json".toList], sampleRelease))
      (by simp [sampleDocuments]) rfl rfl "release-manifest" "release.json" rfl hreleaseText rfl
    have hrecovery := readDocument_sample (d := (["recovery.json".toList], sampleRecovery))
      (by simp [sampleDocuments]) rfl rfl "recovery-contract" "recovery.json" rfl hrecoveryText rfl
    have hreferences : itemsOf (member sampleIndex "documents") =
        [_, _, _] := rfl
    rw [hreferences, List.mapM_cons, List.mapM_cons, List.mapM_cons]
    exact Results.bind_ok hruntime <| Results.bind_ok
      (Results.bind_ok hrelease <| Results.bind_ok (Results.bind_ok hrecovery rfl) rfl) rfl
  refine Results.bind_ok hindex <| Results.bind_ok (a := ()) ?_ <| Results.bind_ok hdocuments ?_
  · show BundleContracts.validateBundle sampleIndex = .ok ()
    decide +kernel
  · have hsame : sampleRequest.tools.sha256 (utf8Bytes sampleIndex.plainText) = indexFileDigest :=
      sha256_sample hindexText
    unfold assemble
    refine Results.bind_ok (a := ()) (by decide +kernel) <|
      Results.bind_ok (a := ()) (by decide +kernel) <|
      Results.bind_ok (a := ()) (by decide +kernel) ?_
    refine Results.bind_ok (validateValueDigest_sample hruntimeHashed rfl) ?_
    refine Results.bind_ok (validateValueDigest_sample hreleaseHashed rfl) ?_
    refine Results.bind_ok (validateValueDigest_sample hrecoveryHashed rfl) ?_
    refine Results.bind_ok (validateValueDigest_sample hindexHashed rfl) ?_
    refine Results.bind_ok (a := ()) (by decide +kernel) ?_
    rw [hsame]
    rfl

/-- The sample is accepted. -/
theorem accepted_sample : ∃ b, Accepted sampleRequest b ∧ Clear b := by
  refine ⟨_, ⟨fun p q hp hq hprefix => hprefix.eq_of_length ?_, load_sample, ?_⟩, ?_⟩
  · rw [length_of_sampleSource hp, length_of_sampleSource hq]
  · decide +kernel
  · decide +kernel

theorem attempt_mem {r : ReleaseRequest} {confirm : String} {attempts : List StagingAttempt}
    {dir : Option OperationDir} {s : StagingStep} (h : s ∈ series r confirm dir attempts) :
    s.attempt ∈ attempts := by
  induction attempts generalizing dir with
  | nil => exact absurd h List.not_mem_nil
  | cons a rest ih =>
      rw [series] at h
      rcases List.mem_cons.mp h with rfl | h
      · exact List.mem_cons_self
      · exact List.mem_cons_of_mem a (ih h)

/-- The first attempt is killed before its first call, the others are not killed. -/
theorem sample_goesOn : AllGoOn (series sampleRequest "token" none
    [⟨"2026-01-01T00:00:00Z", some 0⟩, ⟨"2026-01-01T00:01:00Z", none⟩,
      ⟨"2026-01-01T00:02:00Z", none⟩]) := by
  obtain ⟨b, haccepted, hclear⟩ := accepted_sample
  refine series_goesOn haccepted hclear (by decide) rfl _ fun s hs _ => ?_
  rcases List.mem_cons.mp (attempt_mem hs) with hattempt | hattempt
  · exact .inl (by rw [hattempt])
  · refine .inr fun n hn => ?_
    rcases List.mem_cons.mp hattempt with hattempt | hattempt
    · rw [hattempt] at hn
      cases hn
    · rw [List.mem_singleton.mp hattempt] at hn
      cases hn

/-- The first attempt is killed after it has made the directory of the operation; the second one,
with nothing in its way, raises. -/
theorem killed_after_mkdir : ∃ b, Accepted sampleRequest b ∧ Clear b ∧
    ¬ AllGoOn (series sampleRequest "token" none
      [⟨"2026-01-01T00:00:00Z", some 1⟩, ⟨"2026-01-01T00:01:00Z", none⟩]) := by
  obtain ⟨b, haccepted, hclear⟩ := accepted_sample
  refine ⟨b, haccepted, hclear, ?_⟩
  rintro ⟨createdAt, hall⟩
  have hfirst : (inputs sampleRequest b).stageRelease "2026-01-01T00:00:00Z" ⟨none, some 1⟩ =
      (⟨some ⟨none, false, none⟩, some 0⟩, .crashed) := rfl
  have hsecond : (inputs sampleRequest b).stageRelease "2026-01-01T00:01:00Z"
      ⟨some ⟨none, false, none⟩, none⟩ = (⟨some ⟨none, false, none⟩, none⟩,
        .raised (.staging "Uploaded plan candidate is missing.")) := rfl
  rw [← applyProductRelease_eq haccepted (show "token" ≠ "" by decide) rfl] at hfirst hsecond
  rw [series_cons (a := ⟨"2026-01-01T00:00:00Z", some 1⟩) hfirst,
    series_cons (a := ⟨"2026-01-01T00:01:00Z", none⟩) hsecond] at hall
  have hgoes := hall _ (List.mem_cons_of_mem _ List.mem_cons_self)
  rcases hgoes with ⟨houtcome, -⟩ | ⟨houtcome, -⟩
  · cases houtcome
  · cases houtcome

end ReleaseStaging

end Ophelia
