import Ophelia.Lib.Results
import Ophelia.Products.GoEncoding

/-!
# Ophelia.Products.BundleLoader

Loading a product operations bundle and verifying one of its artifacts (`product_bundle.py`). A
directory is a reader of the regular files below it. The reader of JSON and SHA-256 are the ones of
the standard library.

A bundle is loaded from its index and the documents that the index names, and from nothing else
(`load_congr`): a copy of these files is loaded like the original.
-/

namespace Ophelia

/-- The parts of a relative path. -/
abbrev FileParts := List (List Char)

/-- The regular files below a directory. -/
abbrev FileReader := FileParts → Option Bytes

/-- What the loader uses of the standard library and of the host. -/
structure BundleTools where
  /-- `json.loads`, where no object repeats a key. -/
  parse : Bytes → Option Json
  /-- `"sha256:" + hashlib.sha256(value).hexdigest()`. -/
  sha256 : Bytes → String
  /-- `platform.system().lower()`. -/
  system : String
  /-- `platform.machine()`. -/
  machine : String

/-- `ProductOperationsBundle`, without the directory it was read from. -/
structure LoadedBundle where
  bundle : Json
  runtime : Json
  release : Json
  recovery : Json
  documentDigests : List (String × String)

namespace BundleLoader

open BundleContracts

/-- `str(value)` of a string. -/
def textOf (value : Json) : String :=
  match value with
  | .str s => s
  | _ => ""

def itemsOf (value : Json) : List Json :=
  match value with
  | .arr items => items
  | _ => []

/-- The parts of a path that `_safe_path` accepts. -/
def partsOf (path : String) : FileParts := PyText.posixParts path.toList

def MAX_CONTRACT_BYTES : Nat := 4194304

/-- `_read_json`. -/
def readJson (tools : BundleTools) (read : FileReader) (path : FileParts) :
    Except String (Json × Bytes) :=
  let name := String.ofList (path.getLast?.getD [])
  match read path with
  | none => .error ("Contract must be a real regular file: " ++ name)
  | some raw =>
      if MAX_CONTRACT_BYTES < raw.length then .error ("Contract exceeds 4194304 bytes: " ++ name)
      else
        match tools.parse raw with
        | none => .error ("Contract is unreadable or malformed: " ++ name)
        | some value =>
            if isMapping value then .ok (value, raw)
            else .error ("Contract root must be an object: " ++ name)

/-- One document of the index: its kind, its value and its digest. -/
def readDocument (tools : BundleTools) (read : FileReader) (reference : Json) :
    Except String (String × Json × String) := do
  let kind := textOf (member reference "kind")
  let (value, raw) ← readJson tools read (partsOf (textOf (member reference "path")))
  let actual := tools.sha256 raw
  if Json.str actual ≠ member reference "digest" then
    .error ("Bundle document digest mismatch: " ++ kind)
  else .ok (kind, value, actual)

/-- `_validate_value_digest`. -/
def validateValueDigest (tools : BundleTools) (value : Json) (field owner : String) :
    ContractCheck :=
  if Json.str (tools.sha256 (hashedBytes field value)) = member value field then .ok ()
  else .error (capitalize owner ++ " canonical digest mismatch.")

/-- Names and secrecy of configuration entries. -/
def configuration (value : Json) (key : String) : List (String × Json) :=
  (itemsOf (member value key)).map fun item => (textOf (member item "name"), member item "secret")

/-- Equality of dictionaries, as lists of their entries. -/
def sameEntries (left right : List (String × Json)) : Bool :=
  left.all (· ∈ right) && right.all (· ∈ left)

/-- What a dataset of the runtime and the one of its consistency group in the recovery contract
have to share. -/
def sameDataset (runtime recovery : Json) : ContractCheck :=
  if member runtime "binding" ≠ member recovery "binding" then
    .error "Runtime and recovery dataset bindings differ."
  else if member runtime "kind" ≠ member recovery "kind" ∨
      member runtime "quiescence" ≠ member recovery "quiescence" then
    .error "Runtime and recovery dataset kinds or quiescence policies differ."
  else if member recovery "binding" = .str "stack-owned" ∧
      member runtime "path" ≠ member recovery "path" then
    .error "Runtime and recovery stack-owned dataset paths differ."
  else .ok ()

/-- `_validate_cross_document`. -/
def validateCrossDocument (bundle runtime release recovery : Json) : ContractCheck := do
  let product := member bundle "product_id"
  let composition := member bundle "composition_digest"
  if [runtime, release, recovery].any (fun d => decide (member d "product_id" ≠ product)) ∨
      [runtime, recovery].any (fun d => decide (member d "composition_digest" ≠ composition)) ∨
      member (member release "provenance") "plan_digest" ≠ composition then
    throw "Operations documents do not share product and composition identity."
  if member bundle "release_id" ≠ member release "release_id" ∨
      (member runtime "stack").sortKeys ≠ (member release "stack").sortKeys then
    throw "Release identity or resolved stack differs across documents."
  let artifacts := fieldTexts "id" (member release "artifacts")
  if (itemsOf (member runtime "processes")).any fun p =>
      decide (textOf (member p "artifact_id") ∉ artifacts) then
    throw "Runtime process references an undeclared release artifact."
  if sameEntries (configuration runtime "environment") (configuration release "configuration") =
      false then
    throw "Runtime and release configuration declarations differ."
  let runtimeGroups := fieldTexts "consistency_group" (member runtime "data")
  let recoveryGroups := fieldTexts "consistency_group" (member recovery "datasets")
  if ¬ recoveryGroups.Nodup ∨ sameNames runtimeGroups recoveryGroups = false then
    throw "Runtime and recovery consistency groups differ."
  (itemsOf (member runtime "data")).forM fun item =>
    match (itemsOf (member recovery "datasets")).find? fun dataset =>
      decide (member dataset "consistency_group" = member item "consistency_group") with
    | none => .ok ()
    | some dataset => sameDataset item dataset

/-- The document of a kind. -/
def document (documents : List (String × Json × String)) (kind : String) : Json :=
  ((documents.find? fun d => decide (d.1 = kind)).map fun d => d.2.1).getD .null

/-- What the loader makes of the index and the documents. -/
def assemble (tools : BundleTools) (index : Json × Bytes)
    (documents : List (String × Json × String)) : Except String LoadedBundle := do
  let (bundle, bundleBytes) := index
  let runtime := document documents "runtime-requirements"
  let release := document documents "release-manifest"
  let recovery := document documents "recovery-contract"
  validateRuntime runtime
  validateRelease release
  validateRecovery recovery
  validateValueDigest tools runtime "contract_digest" "runtime contract"
  validateValueDigest tools release "manifest_digest" "release manifest"
  validateValueDigest tools recovery "contract_digest" "recovery contract"
  validateValueDigest tools bundle "bundle_digest" "operations bundle"
  validateCrossDocument bundle runtime release recovery
  if tools.sha256 bundleBytes ∈ documents.map fun d => d.2.2 then
    throw "Bundle index aliases a contract document digest."
  return {
    bundle, runtime, release, recovery
    documentDigests := documents.map fun d => (d.1, d.2.2) }

/-- The index of a bundle. -/
def indexPath : FileParts := ["bundle.json".toList]

/-- `load_product_operations_bundle`. -/
def load (tools : BundleTools) (read : FileReader) : Except String LoadedBundle := do
  let index ← readJson tools read indexPath
  validateBundle index.1
  let documents ← (itemsOf (member index.1 "documents")).mapM (readDocument tools read)
  assemble tools index documents

end BundleLoader

namespace LoadedBundle

open BundleLoader

def bundleDigest (b : LoadedBundle) : String := textOf (member b.bundle "bundle_digest")

/-- `bundle.artifact(id)`. -/
def artifact (b : LoadedBundle) (id : String) : Except String Json :=
  match (itemsOf (member b.release "artifacts")).find? fun item =>
    decide (member item "id" = .str id) with
  | some item => .ok item
  | none => .error ("Release artifact is not declared: " ++ id)

/-- The artifact of the first process. -/
def artifactId (b : LoadedBundle) : String :=
  textOf (member ((itemsOf (member b.runtime "processes")).headD .null) "artifact_id")

/-- The paths of the documents, relative to the bundle. -/
def documentPaths (b : LoadedBundle) : List FileParts :=
  (itemsOf (member b.bundle "documents")).map fun d => partsOf (textOf (member d "path"))

end LoadedBundle

namespace BundleLoader

open BundleContracts

/-- `_normalize_arch`. -/
def normalizeArch (value : String) : String :=
  let lowered := String.ofList (PyText.lower value.toList)
  if lowered = "x86_64" then "amd64" else if lowered = "aarch64" then "arm64" else lowered

/-- `verify_product_artifact`, for the content of the artifact's file. -/
def verifyArtifact (tools : BundleTools) (b : LoadedBundle) (id : String)
    (content : Option Bytes) : ContractCheck := do
  let declaration ← b.artifact id
  match content with
  | none => .error ("Artifact must be a real regular file: " ++ id)
  | some bytes =>
      let target := member declaration "platform"
      if bytes.length < 1 ∨ MAX_ARTIFACT_BYTES < bytes.length then
        .error ("Artifact size is outside Ophelia's bounds: " ++ id)
      else if Json.int bytes.length ≠ member declaration "size_bytes" then
        .error ("Artifact size does not match the release: " ++ id)
      else if Json.str (tools.sha256 bytes) ≠ member declaration "digest" then
        .error ("Artifact digest does not match the release: " ++ id)
      else if textOf (member target "os") ≠ tools.system ∨
          normalizeArch (textOf (member target "arch")) ≠ normalizeArch tools.machine then
        .error "Artifact platform cannot execute on this host."
      else .ok ()

/-! ### What the loader reads -/

theorem readJson_congr {tools : BundleTools} {read read' : FileReader} {path : FileParts}
    (h : read' path = read path) : readJson tools read' path = readJson tools read path := by
  unfold readJson
  rw [h]

theorem readDocument_congr {tools : BundleTools} {read read' : FileReader} {reference : Json}
    (h : read' (partsOf (textOf (member reference "path"))) =
      read (partsOf (textOf (member reference "path")))) :
    readDocument tools read' reference = readDocument tools read reference := by
  unfold readDocument
  rw [readJson_congr h]

theorem mapM_congr {ε α β : Type} {f g : α → Except ε β} {l : List α} (h : ∀ a ∈ l, f a = g a) :
    l.mapM f = l.mapM g := by
  induction l with
  | nil => rfl
  | cons a l ih =>
      rw [List.mapM_cons, List.mapM_cons, h a List.mem_cons_self,
        ih fun b hb => h b (List.mem_cons_of_mem a hb)]

theorem bundle_of_assemble {tools : BundleTools} {index : Json × Bytes}
    {documents : List (String × Json × String)} {b : LoadedBundle}
    (h : assemble tools index documents = .ok b) : b.bundle = index.1 := by
  unfold assemble at h
  obtain ⟨_, -, h⟩ := Results.bind_eq_ok.mp h
  obtain ⟨_, -, h⟩ := Results.bind_eq_ok.mp h
  obtain ⟨_, -, h⟩ := Results.bind_eq_ok.mp h
  obtain ⟨_, -, h⟩ := Results.bind_eq_ok.mp h
  obtain ⟨_, -, h⟩ := Results.bind_eq_ok.mp h
  obtain ⟨_, -, h⟩ := Results.bind_eq_ok.mp h
  obtain ⟨_, -, h⟩ := Results.bind_eq_ok.mp h
  obtain ⟨_, -, h⟩ := Results.bind_eq_ok.mp h
  obtain ⟨-, h⟩ := Results.guard_eq_ok.mp h
  cases h
  rfl

/-- A bundle is loaded from the index and from the documents it names. -/
theorem load_congr {tools : BundleTools} {read read' : FileReader} {b : LoadedBundle}
    (h : load tools read = .ok b) (hindex : read' indexPath = read indexPath)
    (hdocuments : ∀ path ∈ b.documentPaths, read' path = read path) :
    load tools read' = .ok b := by
  unfold load at h ⊢
  obtain ⟨index, hread, h⟩ := Results.bind_eq_ok.mp h
  obtain ⟨u, hvalidate, h⟩ := Results.bind_eq_ok.mp h
  obtain ⟨documents, hmap, h⟩ := Results.bind_eq_ok.mp h
  have hbundle := bundle_of_assemble h
  refine Results.bind_ok ((readJson_congr hindex).trans hread) ?_
  refine Results.bind_ok hvalidate <| Results.bind_ok ?_ h
  rw [← hmap]
  refine mapM_congr fun reference hreference => readDocument_congr (hdocuments _ ?_)
  rw [LoadedBundle.documentPaths, hbundle]
  exact List.mem_map_of_mem hreference

end BundleLoader

end Ophelia
