import Mathlib.Data.List.Infix
import Ophelia.Lib.Program
import Ophelia.Products.BundleLoader

/-!
# Ophelia.Products.ReleaseStaging

Staging a confirmed product release (`_stage_release` in `product_execution.py`, over
`execution/staging.py`). The confirmation names the directory of the operation; the directory is
made exclusively, the bundle and the artifact are copied below it and verified there, and the
evidence is written last. An attempt that finds the directory reads the evidence of an earlier one
instead.

An attempt makes its system calls one after another and may die between any two of them. What an
earlier attempt has made stays; the next attempt starts from there. The directories that one
`mkdir` with `parents` makes are made in one call. Modes are not read by this code and left out.
-/

namespace Ophelia

open BundleLoader

/-! ### The directory of an operation -/

/-- What stands at a path below the candidate. -/
inductive StagedNode where
  | directory
  | file (content : Bytes)
deriving DecidableEq

/-- The candidate, by the parts of paths below it. -/
abbrev StagedTree := FileParts → Option StagedNode

/-- The value of `product-release.json`. -/
structure ReleaseEvidence where
  bundleDigest : String
  artifactDigest : String
  createdAt : String
deriving DecidableEq

/-- The file `product-release.json`: a text that breaks off, or the text of a value. -/
inductive EvidenceFile where
  | cut
  | complete (evidence : ReleaseEvidence)
deriving DecidableEq

/-- The directory of an operation, below `staging`. -/
structure OperationDir where
  candidate : Option StagedTree
  evidence : Bool
  record : Option EvidenceFile

/-- The directory of the operation, if it is there, and the number of calls after which the process
dies, if it does. -/
structure StagingWorld where
  dir : Option OperationDir
  calls : Option Nat

/-- What is raised. -/
inductive StagingFailure where
  /-- `StagingError`. -/
  | staging (message : String)
  /-- `OSError`. -/
  | os
  /-- `ValueError`, of which `ProductBundleError` is a kind. -/
  | value (message : String)
  /-- `ProductExecutionError`. -/
  | execution (message : String)
deriving DecidableEq

abbrev StagingProgram := Program StagingWorld StagingFailure

namespace ReleaseStaging

/-! ### System calls -/

/-- A call, unless the process is dead by then. -/
def call {α : Type} (f : Option OperationDir → Except StagingFailure (Option OperationDir × α)) :
    StagingProgram α := fun w =>
  if w.calls = some 0 then (w, .crashed)
  else
    match f w.dir with
    | .ok (dir, a) => (⟨dir, w.calls.map (· - 1)⟩, .returned a)
    | .error e => (⟨w.dir, w.calls.map (· - 1)⟩, .raised e)

/-- A call on the candidate. -/
def candidateCall (f : StagedTree → Except StagingFailure StagedTree) : StagingProgram Unit :=
  call fun dir =>
    match dir with
    | some ⟨some tree, evidence, record⟩ => do
        let tree ← f tree
        .ok (some ⟨some tree, evidence, record⟩, ())
    | _ => .error .os

/-- The tree of an empty directory. -/
def emptyTree : StagedTree := fun path => if path = [] then some .directory else none

/-- A tree with one more node. -/
def putNode (tree : StagedTree) (path : FileParts) (node : StagedNode) : StagedTree := fun p =>
  if p = path then some node else tree p

def unableToCreate : StagingFailure := .staging "Unable to create plan staging."

/-- `root.mkdir(mode=0o700, exist_ok=False)`. -/
def makeRoot : StagingProgram Unit :=
  call fun dir =>
    match dir with
    | none => .ok (some ⟨none, false, none⟩, ())
    | some _ => .error unableToCreate

/-- `candidate.mkdir(mode=0o700)`. -/
def makeCandidate : StagingProgram Unit :=
  call fun dir =>
    match dir with
    | some ⟨none, evidence, record⟩ => .ok (some ⟨some emptyTree, evidence, record⟩, ())
    | _ => .error unableToCreate

/-- `evidence.mkdir(mode=0o700)`. -/
def makeEvidence : StagingProgram Unit :=
  call fun dir =>
    match dir with
    | some ⟨candidate, false, record⟩ => .ok (some ⟨candidate, true, record⟩, ())
    | _ => .error unableToCreate

/-- `path.mkdir(mode=0o700)`. -/
def makeDirectory (path : FileParts) : StagingProgram Unit :=
  candidateCall fun tree =>
    if tree path = none ∧ tree path.dropLast = some .directory then
      .ok (putNode tree path .directory)
    else .error .os

/-- `path.mkdir(mode=0o700, parents=True, exist_ok=True)`. -/
def makeParents (path : FileParts) : StagingProgram Unit :=
  candidateCall fun tree =>
    if path.inits.all fun p => decide (tree p = none ∨ tree p = some .directory) then
      .ok fun p => if p <+: path then some .directory else tree p
    else .error .os

/-- `open(path, "wb")`: the file is there, and empty. -/
def openFile (path : FileParts) : StagingProgram Unit :=
  candidateCall fun tree =>
    if tree path ≠ some .directory ∧ tree path.dropLast = some .directory then
      .ok (putNode tree path (.file []))
    else .error .os

def writeFile (path : FileParts) (content : Bytes) : StagingProgram Unit :=
  candidateCall fun tree => .ok (putNode tree path (.file content))

/-- `shutil.copyfile(source, path, follow_symlinks=False)`. -/
def copyFile (content : Option Bytes) (path : FileParts) : StagingProgram Unit :=
  match content with
  | none => Program.raise .os
  | some bytes => do
      openFile path
      writeFile path bytes

/-- `path.chmod(mode)`. -/
def chmod : StagingProgram Unit := call fun dir => .ok (dir, ())

/-- `target.open("x")`. -/
def openRecord : StagingProgram Unit :=
  call fun dir =>
    match dir with
    | some ⟨candidate, true, none⟩ => .ok (some ⟨candidate, true, some .cut⟩, ())
    | _ => .error (.staging "Unable to write plan evidence.")

/-- The text of the evidence is written. -/
def writeRecord (evidence : ReleaseEvidence) : StagingProgram Unit :=
  call fun dir =>
    match dir with
    | some ⟨candidate, made, some _⟩ =>
        .ok (some ⟨candidate, made, some (.complete evidence)⟩, ())
    | _ => .error .os

/-- `OperationStaging.create`. -/
def create : StagingProgram Unit := do
  makeRoot
  makeCandidate
  makeEvidence

/-- `OperationStaging.open_confirmed`. -/
def openConfirmed : StagingProgram Unit :=
  call fun dir =>
    match dir with
    | some ⟨some _, true, _⟩ => .ok (dir, ())
    | some ⟨some _, false, _⟩ => .error (.staging "Plan evidence is missing.")
    | _ => .error (.staging "Uploaded plan candidate is missing.")

/-! ### Staging -/

/-- `.product/operations`. -/
def operations : FileParts := [".product".toList, "operations".toList]

/-- The regular files below `.product/operations`. -/
def stagedFiles (tree : StagedTree) : FileReader := fun path =>
  match tree (operations ++ path) with
  | some (.file content) => some content
  | _ => none

def fileAt (tree : StagedTree) (path : FileParts) : Option Bytes :=
  match tree path with
  | some (.file content) => some content
  | _ => none

/-- A check of the candidate. -/
def inspect {α : Type} (f : StagedTree → Except String α) : StagingProgram α :=
  call fun dir =>
    match dir with
    | some ⟨some tree, _, _⟩ =>
        match f tree with
        | .ok a => .ok (dir, a)
        | .error message => .error (.value message)
    | _ => .error .os

/-- What the attempts are given: the bundle's directory, the artifact's file and the bundle that is
loaded from the directory. -/
structure StagingInputs where
  tools : BundleTools
  source : FileReader
  artifact : Option Bytes
  bundle : LoadedBundle

namespace StagingInputs

variable (i : StagingInputs)

/-- `bundle.artifact(...)`. -/
def declaration : Except StagingFailure Json :=
  match i.bundle.artifact i.bundle.artifactId with
  | .ok declaration => .ok declaration
  | .error message => .error (.value message)

/-- Copy one document of the bundle. -/
def copyDocument (path : FileParts) : StagingProgram Unit := do
  makeParents (operations ++ path).dropLast
  copyFile (i.source path) (operations ++ path)

/-- The bundle that is loaded from the candidate, and the artifact there. -/
def verifyStaged (declaration : Json) (differs : String) : StagingProgram Unit := do
  let staged ← inspect fun tree => load i.tools (stagedFiles tree)
  if staged.bundleDigest ≠ i.bundle.bundleDigest then
    Program.raise (.execution differs)
  else
    inspect fun tree => verifyArtifact i.tools staged (textOf (member declaration "id"))
      (fileAt tree (partsOf (textOf (member declaration "path"))))

/-- The first branch of `_stage_release`. -/
def stageAnew (now : String) : StagingProgram String := do
  create
  makeDirectory (operations.take 1)
  makeDirectory operations
  copyFile (i.source indexPath) (operations ++ indexPath)
  i.bundle.documentPaths.forM i.copyDocument
  let declaration ← Program.ofExcept i.declaration
  let target := partsOf (textOf (member declaration "path"))
  makeParents target.dropLast
  copyFile i.artifact target
  i.verifyStaged declaration "Staged product bundle differs from the approved bundle."
  chmod
  openRecord
  writeRecord ⟨i.bundle.bundleDigest, textOf (member declaration "digest"), now⟩
  chmod
  return now

/-- The evidence of an earlier attempt. -/
def readRecord : StagingProgram ReleaseEvidence :=
  call fun dir =>
    match dir with
    | some ⟨_, _, some (.complete evidence)⟩ => .ok (dir, evidence)
    | some ⟨_, _, some .cut⟩ => .error (.value "Expecting value")
    | _ => .error (.execution "Existing product staging has no release evidence.")

/-- The branch of `_stage_release` for a directory that is there. -/
def resume : StagingProgram String := do
  openConfirmed
  let evidence ← readRecord
  if evidence.bundleDigest ≠ i.bundle.bundleDigest then
    Program.raise (.execution "Existing product staging binds a different bundle.")
  else
    let declaration ← Program.ofExcept i.declaration
    i.verifyStaged declaration "Existing product staging binds different bundle bytes."
    return evidence.createdAt

/-- `_stage_release`. -/
def stageRelease (now : String) : StagingProgram String :=
  (i.stageAnew now).handle fun e =>
    match e with
    | .staging _ => i.resume.handle fun e =>
        match e with
        | .os | .value _ =>
            Program.raise (.execution "Existing product staging failed verification.")
        | e => Program.raise e
    | .os | .value _ => Program.raise (.execution "Staged product release failed verification.")
    | e => Program.raise e

end StagingInputs

/-! ### Confirmed attempts -/

/-- What stays the same over the attempts with one confirmation: the bundle's directory, the
artifact's file, the host, and so the token of the plan. -/
structure ReleaseRequest where
  tools : BundleTools
  source : FileReader
  artifact : Option Bytes
  expected : String

/-- A check of the bundle; what it raises is a `ValueError`. -/
def bundleCheck {α : Type} (x : Except String α) : StagingProgram α :=
  match x with
  | .ok a => Program.ret a
  | .error message => Program.raise (.value message)

/-- `apply_product_release`, to where the release is staged: the time of its creation. -/
def applyProductRelease (r : ReleaseRequest) (confirm now : String) : StagingProgram String :=
  if confirm = "" ∨ r.expected ≠ confirm then
    Program.raise
      (.execution "Confirmation token does not match the current product release plan.")
  else do
    let bundle ← bundleCheck (load r.tools r.source)
    bundleCheck (verifyArtifact r.tools bundle bundle.artifactId r.artifact)
    StagingInputs.stageRelease ⟨r.tools, r.source, r.artifact, bundle⟩ now

/-- One attempt: its clock, and the number of calls after which it dies, if it does. -/
structure StagingAttempt where
  now : String
  calls : Option Nat

/-- An attempt in a series, with the directory before and after it. -/
structure StagingStep where
  before : Option OperationDir
  attempt : StagingAttempt
  outcome : Program.Outcome StagingFailure String
  after : Option OperationDir

/-- A series of attempts with one confirmation. -/
def series (r : ReleaseRequest) (confirm : String) :
    Option OperationDir → List StagingAttempt → List StagingStep
  | _, [] => []
  | dir, a :: rest =>
      let (w, outcome) := applyProductRelease r confirm a.now ⟨dir, a.calls⟩
      ⟨dir, a, outcome, w.dir⟩ :: series r confirm w.dir rest

/-- The time of creation on record. -/
def recordedAt (dir : Option OperationDir) : Option String :=
  match dir with
  | some ⟨_, _, some (.complete evidence)⟩ => some evidence.createdAt
  | _ => none

/-! ### Rules of the calls -/

/-- The process makes at least so many more calls. -/
def Left (k : Nat) (w : StagingWorld) : Prop := ∀ n, w.calls = some n → k ≤ n

theorem Left.alive {k : Nat} {w : StagingWorld} (h : Left (k + 1) w) : w.calls ≠ some 0 := by
  intro hzero
  exact absurd (h 0 hzero) (by omega)

theorem Left.next {k : Nat} {w : StagingWorld} (h : Left (k + 1) w) (dir : Option OperationDir) :
    Left k ⟨dir, w.calls.map (· - 1)⟩ := by
  intro n hn
  obtain ⟨m, hm, rfl⟩ := Option.map_eq_some_iff.mp hn
  have hle := h m hm
  omega

/-- The candidate is being filled, has a property, and so many calls are left. -/
def OnTree (k : Nat) (R : StagedTree → Prop) (w : StagingWorld) : Prop :=
  Left k w ∧ ∃ tree, w.dir = some ⟨some tree, true, none⟩ ∧ R tree

/-- No state. -/
def never {α : Type} : α → Prop := fun _ => False

theorem candidateCall_rule {f : StagedTree → Except StagingFailure StagedTree} {k : Nat}
    {R R' : StagedTree → Prop} (h : ∀ tree, R tree → ∃ tree', f tree = .ok tree' ∧ R' tree') :
    Program.Triple (OnTree (k + 1) R) (candidateCall f) (fun _ => OnTree k R') (fun _ => never)
      never := by
  rintro w ⟨hleft, tree, hdir, hR⟩
  obtain ⟨tree', htree', hR'⟩ := h tree hR
  unfold candidateCall call
  rw [if_neg hleft.alive]
  simp only [hdir, htree', bind, Except.bind]
  exact ⟨hleft.next _, tree', rfl, hR'⟩

theorem inspect_rule {α : Type} {f : StagedTree → Except String α} {a : α} {k : Nat}
    {R : StagedTree → Prop} (h : ∀ tree, R tree → f tree = .ok a) :
    Program.Triple (OnTree (k + 1) R) (inspect f) (fun a' w => a' = a ∧ OnTree k R w)
      (fun _ => never) never := by
  rintro w ⟨hleft, tree, hdir, hR⟩
  unfold inspect call
  rw [if_neg hleft.alive]
  simp only [hdir, h tree hR]
  exact ⟨trivial, hleft.next _, tree, rfl, hR⟩

/-! ### The candidate -/

/-- None of these paths is the root, and none lies above another. -/
structure Apart (files : List FileParts) : Prop where
  nonempty : [] ∉ files
  apart : ∀ f ∈ files, ∀ g ∈ files, f <+: g → f = g

/-- A candidate that holds some of these files, and above them directories. -/
structure Fits (files : List FileParts) (tree : StagedTree) : Prop where
  root : tree [] = some .directory
  directories : ∀ p, tree p = some .directory → p = [] ∨ ∃ f ∈ files, p <+: f ∧ p ≠ f
  regular : ∀ p content, tree p = some (.file content) → p ∈ files

/-- Some of the files are copied, with the content they are to have. -/
def Copied (files : List FileParts) (wanted : FileReader) (copied : List FileParts)
    (tree : StagedTree) : Prop :=
  Fits files tree ∧ ∀ p ∈ copied, ∃ content, wanted p = some content ∧ tree p = some (.file content)

variable {files copied : List FileParts} {wanted : FileReader} {tree : StagedTree}

theorem Fits.above (h : Fits files tree) (hapart : Apart files) {f p : FileParts} (hf : f ∈ files)
    (hp : p <+: f) (hne : p ≠ f) : tree p = none ∨ tree p = some .directory := by
  cases hnode : tree p with
  | none => exact .inl rfl
  | some node =>
      cases node with
      | directory => exact .inr rfl
      | file content => exact absurd (hapart.apart p (h.regular p content hnode) f hf hp) hne

theorem Fits.notDirectory (h : Fits files tree) (hapart : Apart files) {f : FileParts}
    (hf : f ∈ files) : tree f ≠ some .directory := by
  intro hnode
  rcases h.directories f hnode with rfl | ⟨g, hg, hprefix, hne⟩
  · exact hapart.nonempty hf
  · exact hne (hapart.apart f hf g hg hprefix)

theorem prefix_dropLast {f p : FileParts} (hp : p <+: f.dropLast) (hf : f ≠ []) :
    p <+: f ∧ p ≠ f := by
  refine ⟨hp.trans (List.dropLast_prefix f), ?_⟩
  rintro rfl
  have hlength := hp.length_le
  rw [List.length_dropLast] at hlength
  have hpos := List.length_pos_of_ne_nil hf
  omega

/-- The directories above one of the files are made. -/
theorem makeParents_rule (hapart : Apart files) {f : FileParts} (hf : f ∈ files) (k : Nat) :
    Program.Triple (OnTree (k + 1) (Copied files wanted copied)) (makeParents f.dropLast)
      (fun _ => OnTree k fun tree =>
        Copied files wanted copied tree ∧ tree f.dropLast = some .directory)
      (fun _ => never) never := by
  have hne : f ≠ [] := fun h => hapart.nonempty (h ▸ hf)
  refine candidateCall_rule fun tree h => ?_
  obtain ⟨hfits, hcopied⟩ := h
  have hall : f.dropLast.inits.all
      (fun p => decide (tree p = none ∨ tree p = some .directory)) = true := by
    refine List.all_eq_true.mpr fun p hp => decide_eq_true ?_
    have hprefix := prefix_dropLast ((List.mem_inits _ _).mp hp) hne
    exact hfits.above hapart hf hprefix.1 hprefix.2
  refine ⟨_, if_pos hall, ⟨⟨?_, ?_, ?_⟩, ?_⟩, ?_⟩
  · exact if_pos (List.nil_prefix)
  · intro p hp
    by_cases hprefix : p <+: f.dropLast
    · exact .inr ⟨f, hf, prefix_dropLast hprefix hne⟩
    · rw [if_neg hprefix] at hp
      exact hfits.directories p hp
  · intro p content hp
    by_cases hprefix : p <+: f.dropLast
    · rw [if_pos hprefix] at hp
      cases hp
    · rw [if_neg hprefix] at hp
      exact hfits.regular p content hp
  · intro p hp
    obtain ⟨content, hcontent, hnode⟩ := hcopied p hp
    have hprefix : ¬ p <+: f.dropLast := by
      intro hprefix
      obtain ⟨hlong, hneq⟩ := prefix_dropLast hprefix hne
      exact hneq (hapart.apart p (hfits.regular p content hnode) f hf hlong)
    exact ⟨content, hcontent, (if_neg hprefix).trans hnode⟩
  · exact if_pos (List.prefix_refl _)

/-- A file of the candidate is written anew. -/
theorem copied_putNode (hapart : Apart files) {f : FileParts} (hf : f ∈ files) (content : Bytes)
    (h : Copied files wanted copied tree) (hcopied : f ∉ copied) :
    Copied files wanted copied (putNode tree f (.file content)) := by
  obtain ⟨hfits, hx⟩ := h
  refine ⟨⟨?_, ?_, ?_⟩, ?_⟩
  · have hne : [] ≠ f := by
      rintro rfl
      exact hapart.nonempty hf
    rw [putNode, if_neg hne]
    exact hfits.root
  · intro p hp
    unfold putNode at hp
    split at hp
    · cases hp
    · exact hfits.directories p hp
  · intro p c hp
    unfold putNode at hp
    split at hp
    · rename_i heq
      rwa [heq]
    · exact hfits.regular p c hp
  · intro p hp
    have hne : p ≠ f := by
      rintro rfl
      exact hcopied hp
    rw [putNode, if_neg hne]
    exact hx p hp

/-- One of the files is copied, for the first time or again. -/
theorem copyFile_rule (hapart : Apart files) {f : FileParts} (hf : f ∈ files) {content : Bytes}
    (hwanted : wanted f = some content) (k : Nat) :
    Program.Triple
      (OnTree (k + 2) fun tree =>
        Copied files wanted copied tree ∧ tree f.dropLast = some .directory)
      (copyFile (some content) f) (fun _ => OnTree k (Copied files wanted (f :: copied)))
      (fun _ => never) never := by
  -- between the two calls the file is empty, so only the others hold what was copied
  let others := copied.filter fun p => decide (p ≠ f)
  have hothers : f ∉ others := fun h => of_decide_eq_true (List.mem_filter.mp h).2 rfl
  have hopen : Program.Triple
      (OnTree (k + 2) fun tree =>
        Copied files wanted copied tree ∧ tree f.dropLast = some .directory)
      (openFile f) (fun _ => OnTree (k + 1) (Copied files wanted others)) (fun _ => never) never := by
    refine candidateCall_rule fun tree h => ?_
    obtain ⟨⟨hfits, hx⟩, hparent⟩ := h
    refine ⟨_, if_pos ⟨hfits.notDirectory hapart hf, hparent⟩, ?_⟩
    refine copied_putNode hapart hf [] ⟨hfits, fun p hp => ?_⟩ hothers
    exact hx p (List.mem_filter.mp hp).1
  have hwrite : Program.Triple (OnTree (k + 1) (Copied files wanted others)) (writeFile f content)
      (fun _ => OnTree k (Copied files wanted (f :: copied))) (fun _ => never) never := by
    refine candidateCall_rule fun tree h => ⟨_, rfl, ?_⟩
    obtain ⟨hfits, hx⟩ := copied_putNode hapart hf content h hothers
    refine ⟨hfits, fun p hp => ?_⟩
    by_cases heq : p = f
    · exact ⟨content, heq ▸ hwanted, if_pos heq⟩
    · have hmem := (List.mem_cons.mp hp).resolve_left heq
      exact hx p (List.mem_filter.mpr ⟨hmem, decide_eq_true heq⟩)
  exact hopen.bind fun _ => hwrite

/-- One document of the bundle is copied. -/
theorem copyDocument_rule (i : StagingInputs) (hapart : Apart files) {path : FileParts}
    (hf : operations ++ path ∈ files) {content : Bytes} (hsource : i.source path = some content)
    (hwanted : wanted (operations ++ path) = some content) (k : Nat) :
    Program.Triple (OnTree (k + 3) (Copied files wanted copied)) (i.copyDocument path)
      (fun _ => OnTree k (Copied files wanted ((operations ++ path) :: copied)))
      (fun _ => never) never := by
  unfold StagingInputs.copyDocument
  rw [hsource]
  exact (makeParents_rule hapart hf (k + 2)).bind fun _ => copyFile_rule hapart hf hwanted k

/-- All documents of a list are copied. -/
theorem copyDocuments_rule (i : StagingInputs) (hapart : Apart files) {paths : List FileParts}
    (hfiles : ∀ path ∈ paths, operations ++ path ∈ files)
    (hsource : ∀ path ∈ paths, ∃ content, i.source path = some content ∧
      wanted (operations ++ path) = some content) (k : Nat) :
    Program.Triple (OnTree (k + 3 * paths.length) (Copied files wanted copied))
      (paths.forM i.copyDocument)
      (fun _ => OnTree k (Copied files wanted
        ((paths.map (operations ++ ·)).reverse ++ copied)))
      (fun _ => never) never := by
  induction paths generalizing copied with
  | nil => exact Program.Triple.pure fun _ h => h
  | cons path paths ih =>
      obtain ⟨content, hcontent, hwanted⟩ := hsource path List.mem_cons_self
      have hcount : k + 3 * (path :: paths).length = k + 3 * paths.length + 3 := by
        rw [List.length_cons]
        omega
      have hfirst := @copyDocument_rule files copied wanted i hapart path
        (hfiles path List.mem_cons_self) content hcontent hwanted (k + 3 * paths.length)
      have hrest := @ih ((operations ++ path) :: copied)
        (fun p hp => hfiles p (List.mem_cons_of_mem path hp))
        (fun p hp => hsource p (List.mem_cons_of_mem path hp))
      rw [hcount, List.map_cons, List.reverse_cons, List.append_assoc, List.singleton_append]
      exact hfirst.bind fun _ => hrest

end ReleaseStaging

end Ophelia
