import Ophelia.Products.ReleaseStaging

/-!
# Ophelia.Products.StagedRelease

What one attempt at a product release does. Where there is no directory of the operation and the
attempt gets as far as the text of the evidence (`stagingCalls`), the directory is `Staged` after
it (`stageRelease_none`). From a staged directory an attempt returns the time of creation on record
and keeps the directory, wherever it is killed (`stageRelease_staged`).
-/

namespace Ophelia

namespace ReleaseStaging

open BundleLoader

/-! ### Processes that are not killed -/

/-- A process that is not killed does not crash. -/
def Spared {α : Type} (m : StagingProgram α) : Prop :=
  Program.Triple (fun w => w.calls = none) m (fun _ w => w.calls = none)
    (fun _ w => w.calls = none) never

namespace Spared

variable {α β : Type}

theorem call (f : Option OperationDir → Except StagingFailure (Option OperationDir × α)) :
    Spared (ReleaseStaging.call f) := by
  intro w hw
  have halive : w.calls ≠ some 0 := by
    rw [hw]
    exact fun h => nomatch h
  unfold ReleaseStaging.call
  rw [if_neg halive, hw]
  cases f w.dir with
  | ok result => rfl
  | error e => rfl

theorem candidateCall (f : StagedTree → Except StagingFailure StagedTree) :
    Spared (ReleaseStaging.candidateCall f) := call _

theorem ret (a : α) : Spared (Program.ret a) := Program.Triple.ret fun _ h => h

theorem raise (e : StagingFailure) : Spared (Program.raise e : StagingProgram α) :=
  Program.Triple.raise fun _ h => h

theorem ofExcept (x : Except StagingFailure α) : Spared (Program.ofExcept x) :=
  Program.Triple.ofExcept (fun _ _ _ h => h) fun _ _ _ h => h

theorem bind {m : StagingProgram α} {f : α → StagingProgram β} (hm : Spared m)
    (hf : ∀ a, Spared (f a)) : Spared (m >>= f) := Program.Triple.bind hm hf

theorem handle {m : StagingProgram α} {h : StagingFailure → StagingProgram α} (hm : Spared m)
    (hh : ∀ e, Spared (h e)) : Spared (m.handle h) := Program.Triple.handle hm hh

theorem ite {c : Prop} [Decidable c] {m m' : StagingProgram α} (hm : Spared m) (hm' : Spared m') :
    Spared (if c then m else m') := Program.Triple.ite (fun _ => hm) fun _ => hm'

theorem copyFile (content : Option Bytes) (path : FileParts) :
    Spared (ReleaseStaging.copyFile content path) := by
  cases content with
  | none => exact raise .os
  | some bytes => exact bind (candidateCall _) fun _ => candidateCall _

theorem copyDocuments (i : StagingInputs) (paths : List FileParts) :
    Spared (paths.forM i.copyDocument) := by
  induction paths with
  | nil => exact ret ()
  | cons path paths ih => exact bind (bind (candidateCall _) fun _ => copyFile _ _) fun _ => ih

theorem inspect (f : StagedTree → Except String α) : Spared (ReleaseStaging.inspect f) := call _

theorem verifyStaged (i : StagingInputs) (declaration : Json) (differs : String) :
    Spared (i.verifyStaged declaration differs) :=
  bind (inspect _) fun _ => ite (raise _) (inspect _)

theorem stageAnew (i : StagingInputs) (now : String) : Spared (i.stageAnew now) := by
  unfold StagingInputs.stageAnew
  refine bind (bind (call _) fun _ => bind (call _) fun _ => call _) fun _ => ?_
  refine bind (candidateCall _) fun _ => bind (candidateCall _) fun _ =>
    bind (copyFile _ _) fun _ => ?_
  refine bind (copyDocuments i _) fun _ => bind (ofExcept _) fun declaration => ?_
  refine bind (candidateCall _) fun _ => bind (copyFile _ _) fun _ =>
    bind (verifyStaged i _ _) fun _ => ?_
  exact bind (call _) fun _ => bind (call _) fun _ => bind (call _) fun _ =>
    bind (call _) fun _ => ret now

theorem resume (i : StagingInputs) : Spared i.resume := by
  unfold StagingInputs.resume
  refine bind (call _) fun _ => bind (call _) fun evidence => ite (raise _) ?_
  exact bind (ofExcept _) fun declaration => bind (verifyStaged i _ _) fun _ => ret _

theorem stageRelease (i : StagingInputs) (now : String) : Spared (i.stageRelease now) := by
  refine handle (stageAnew i now) fun e => ?_
  cases e with
  | staging message =>
      refine handle (resume i) fun e => ?_
      cases e <;> exact raise _
  | os => exact raise _
  | value message => exact raise _
  | execution message => exact raise _

end Spared

/-! ### Valid requests -/

/-- The artifact's place below the candidate. -/
def artifactPath (b : LoadedBundle) : FileParts :=
  match b.artifact b.artifactId with
  | .ok declaration => partsOf (textOf (member declaration "path"))
  | .error _ => []

/-- Where the index and the documents go, below the candidate. -/
def stagedPaths (b : LoadedBundle) : List FileParts :=
  (operations ++ indexPath) :: b.documentPaths.map (operations ++ ·)

/-- The artifact's place is neither on nor above nor below a file of the staged bundle. -/
def Clear (b : LoadedBundle) : Prop :=
  ∀ f ∈ stagedPaths b, ¬ f <+: artifactPath b ∧ ¬ artifactPath b <+: f

/-- Nothing lies below a regular file. -/
def FileTree (read : FileReader) : Prop :=
  ∀ p q, read p ≠ none → read q ≠ none → p <+: q → p = q

/-- The bundle and the artifact of a request are in order. -/
structure Accepted (r : ReleaseRequest) (b : LoadedBundle) : Prop where
  tree : FileTree r.source
  loads : load r.tools r.source = .ok b
  verifies : verifyArtifact r.tools b b.artifactId r.artifact = .ok ()

/-- The calls of the first attempt, to the text of the evidence. -/
def stagingCalls (b : LoadedBundle) : Nat := 15 + 3 * b.documentPaths.length

/-- What the staging of a request is given. -/
def inputs (r : ReleaseRequest) (b : LoadedBundle) : StagingInputs :=
  ⟨r.tools, r.source, r.artifact, b⟩

/-- The candidate holds the bundle and the artifact of the request. -/
def Holds (r : ReleaseRequest) (b : LoadedBundle) (tree : StagedTree) : Prop :=
  load r.tools (stagedFiles tree) = .ok b ∧ fileAt tree (artifactPath b) = r.artifact

/-- The directory of the operation after the evidence is written. -/
def Staged (r : ReleaseRequest) (b : LoadedBundle) (createdAt : String)
    (dir : Option OperationDir) : Prop :=
  ∃ tree evidence, dir = some ⟨some tree, true, some (.complete evidence)⟩ ∧
    evidence.createdAt = createdAt ∧ evidence.bundleDigest = b.bundleDigest ∧ Holds r b tree

variable {r : ReleaseRequest} {b : LoadedBundle}

theorem recordedAt_of_staged {createdAt : String} {dir : Option OperationDir}
    (h : Staged r b createdAt dir) : recordedAt dir = some createdAt := by
  obtain ⟨tree, evidence, rfl, rfl, -⟩ := h
  rfl

/-! ### The files of a request -/

/-- What the candidate is to hold. -/
def stagedContent (r : ReleaseRequest) (b : LoadedBundle) : FileReader := fun p =>
  if p = artifactPath b then r.artifact else r.source (p.drop operations.length)

theorem operations_drop (path : FileParts) :
    (operations ++ path).drop operations.length = path := List.drop_left

theorem readJson_isSome {tools : BundleTools} {read : FileReader} {path : FileParts}
    {result : Json × Bytes} (h : readJson tools read path = .ok result) : read path ≠ none := by
  intro hnone
  unfold readJson at h
  rw [hnone] at h
  cases h

theorem readDocument_isSome {tools : BundleTools} {read : FileReader} {reference : Json}
    {result : String × Json × String} (h : readDocument tools read reference = .ok result) :
    read (partsOf (textOf (member reference "path"))) ≠ none := by
  unfold readDocument at h
  obtain ⟨value, hread, -⟩ := Results.bind_eq_ok.mp h
  exact readJson_isSome hread

/-- The index and the documents of a bundle that loads are regular files. -/
theorem Accepted.isSome (h : Accepted r b) {path : FileParts}
    (hpath : path = indexPath ∨ path ∈ b.documentPaths) : r.source path ≠ none := by
  have hload := h.loads
  unfold load at hload
  obtain ⟨index, hread, hload⟩ := Results.bind_eq_ok.mp hload
  obtain ⟨_, -, hload⟩ := Results.bind_eq_ok.mp hload
  obtain ⟨documents, hmap, hload⟩ := Results.bind_eq_ok.mp hload
  rcases hpath with rfl | hpath
  · exact readJson_isSome hread
  · rw [LoadedBundle.documentPaths, bundle_of_assemble hload] at hpath
    obtain ⟨reference, hreference, rfl⟩ := List.mem_map.mp hpath
    obtain ⟨result, hresult⟩ := Results.mapM_isOk_iff.mp ⟨_, hmap⟩ _ hreference
    exact readDocument_isSome hresult

/-- The artifact that is declared, with the identity asked for. -/
theorem Accepted.declared (h : Accepted r b) : ∃ declaration,
    b.artifact b.artifactId = .ok declaration ∧ textOf (member declaration "id") = b.artifactId := by
  have hverifies := h.verifies
  unfold verifyArtifact at hverifies
  obtain ⟨declaration, hartifact, -⟩ := Results.bind_eq_ok.mp hverifies
  refine ⟨declaration, hartifact, ?_⟩
  unfold LoadedBundle.artifact at hartifact
  split at hartifact
  · rename_i item hfind
    cases hartifact
    have hid := List.find?_some hfind
    rw [of_decide_eq_true hid]
    rfl
  · cases hartifact

/-- The artifact is a regular file. -/
theorem Accepted.artifact_isSome (h : Accepted r b) : ∃ bytes, r.artifact = some bytes := by
  have hverifies := h.verifies
  unfold verifyArtifact at hverifies
  obtain ⟨declaration, -, hverifies⟩ := Results.bind_eq_ok.mp hverifies
  cases hartifact : r.artifact with
  | none =>
      rw [hartifact] at hverifies
      cases hverifies
  | some bytes => exact ⟨bytes, rfl⟩

theorem mem_stagedPaths {f : FileParts} : f ∈ stagedPaths b ↔
    ∃ path, (path = indexPath ∨ path ∈ b.documentPaths) ∧ f = operations ++ path := by
  unfold stagedPaths
  rw [List.mem_cons, List.mem_map]
  constructor
  · rintro (rfl | ⟨path, hpath, rfl⟩)
    · exact ⟨indexPath, .inl rfl, rfl⟩
    · exact ⟨path, .inr hpath, rfl⟩
  · rintro ⟨path, rfl | hpath, rfl⟩
    · exact .inl rfl
    · exact .inr ⟨path, hpath, rfl⟩

/-- All files of the candidate. -/
def candidateFiles (b : LoadedBundle) : List FileParts := artifactPath b :: stagedPaths b

theorem Clear.artifactPath_ne_nil (hclear : Clear b) : artifactPath b ≠ [] := by
  intro hnil
  have hindex := (hclear _ (List.mem_cons_self (l := b.documentPaths.map (operations ++ ·)))).2
  rw [hnil] at hindex
  exact hindex List.nil_prefix

theorem apart_candidateFiles (h : Accepted r b) (hclear : Clear b) :
    Apart (candidateFiles b) := by
  constructor
  · intro hmem
    rcases List.mem_cons.mp hmem with heq | hmem
    · exact hclear.artifactPath_ne_nil heq.symm
    · obtain ⟨path, -, heq⟩ := mem_stagedPaths.mp hmem
      cases heq
  · intro f hf g hg hprefix
    rcases List.mem_cons.mp hf with rfl | hf <;> rcases List.mem_cons.mp hg with rfl | hg
    · rfl
    · exact absurd hprefix (hclear g hg).2
    · exact absurd hprefix (hclear f hf).1
    · -- two files of the bundle, which come from one directory
      obtain ⟨p, hp, rfl⟩ := mem_stagedPaths.mp hf
      obtain ⟨q, hq, rfl⟩ := mem_stagedPaths.mp hg
      have hbelow := (List.prefix_append_right_inj operations).mp hprefix
      rw [h.tree p q (h.isSome hp) (h.isSome hq) hbelow]

theorem stagedContent_artifact : stagedContent r b (artifactPath b) = r.artifact := if_pos rfl

theorem stagedContent_staged (hclear : Clear b) {path : FileParts}
    (hpath : operations ++ path ∈ stagedPaths b) :
    stagedContent r b (operations ++ path) = r.source path := by
  have hne : operations ++ path ≠ artifactPath b := by
    intro heq
    exact (hclear _ hpath).1 (heq ▸ List.prefix_refl _)
  rw [stagedContent, if_neg hne, operations_drop]

/-! ### The attempt that makes the directory -/

/-- So many calls are left, and the directory has a property. -/
def Leaving (k : Nat) (P : Option OperationDir → Prop) (w : StagingWorld) : Prop :=
  Left k w ∧ P w.dir

theorem call_leaving {α : Type}
    {f : Option OperationDir → Except StagingFailure (Option OperationDir × α)} {k : Nat}
    {P : Option OperationDir → Prop} {Q : α → Option OperationDir → Prop}
    (h : ∀ dir, P dir → ∃ dir' a, f dir = .ok (dir', a) ∧ Q a dir') :
    Program.Triple (Leaving (k + 1) P) (call f) (fun a => Leaving k (Q a)) (fun _ => never)
      never := by
  rintro w ⟨hleft, hP⟩
  obtain ⟨dir', a, hf, hQ⟩ := h w.dir hP
  unfold call
  rw [if_neg hleft.alive, hf]
  exact ⟨hleft.next dir', hQ⟩

/-- A call that may be the last one. -/
theorem call_keeps {α : Type}
    {f : Option OperationDir → Except StagingFailure (Option OperationDir × α)}
    {P : Option OperationDir → Prop} {Q : α → Option OperationDir → Prop}
    (h : ∀ dir, P dir → ∃ dir' a, f dir = .ok (dir', a) ∧ Q a dir') :
    Program.Triple (fun w => P w.dir) (call f) (fun a w => Q a w.dir) (fun _ => never)
      (fun w => P w.dir) := by
  intro w hP
  obtain ⟨dir', a, hf, hQ⟩ := h w.dir hP
  unfold call
  by_cases hdead : w.calls = some 0
  · rw [if_pos hdead]
    exact hP
  · rw [if_neg hdead, hf]
    exact hQ

/-- The candidate after `.product/operations` is made. -/
def operationsTree : StagedTree :=
  putNode (putNode emptyTree (operations.take 1) .directory) operations .directory

theorem operationsTree_eq (p : FileParts) :
    operationsTree p = if p <+: operations then some .directory else none := by
  have hprefixes : p <+: operations ↔ p = operations ∨ p = operations.take 1 ∨ p = [] := by
    constructor
    · intro hprefix
      have hmem := (List.mem_inits _ _).mpr hprefix
      rcases List.mem_cons.mp hmem with rfl | hmem
      · exact .inr (.inr rfl)
      · rcases List.mem_cons.mp hmem with rfl | hmem
        · exact .inr (.inl rfl)
        · exact .inl (List.mem_singleton.mp hmem)
    · rintro (rfl | rfl | rfl)
      · exact List.prefix_refl _
      · exact List.take_prefix _ _
      · exact List.nil_prefix
  unfold operationsTree putNode emptyTree
  by_cases hfull : p = operations
  · rw [if_pos hfull, if_pos (hprefixes.mpr (.inl hfull))]
  · by_cases hfirst : p = operations.take 1
    · rw [if_neg hfull, if_pos hfirst, if_pos (hprefixes.mpr (.inr (.inl hfirst)))]
    · by_cases hroot : p = []
      · rw [if_neg hfull, if_neg hfirst, if_pos hroot, if_pos (hprefixes.mpr (.inr (.inr hroot)))]
      · rw [if_neg hfull, if_neg hfirst, if_neg hroot, if_neg]
        intro hprefix
        rcases hprefixes.mp hprefix with h | h | h
        · exact hfull h
        · exact hfirst h
        · exact hroot h

theorem copied_operationsTree {files : List FileParts} {wanted : FileReader} {path : FileParts}
    (hfile : operations ++ path ∈ files) (hne : path ≠ []) :
    Copied files wanted [] operationsTree := by
  refine ⟨⟨rfl, ?_, ?_⟩, fun p hp => absurd hp List.not_mem_nil⟩
  · intro p hp
    rw [operationsTree_eq] at hp
    split at hp
    · rename_i hprefix
      refine .inr ⟨_, hfile, hprefix.trans (List.prefix_append _ _), ?_⟩
      rintro rfl
      have hlength := hprefix.length_le
      rw [List.length_append] at hlength
      have hpos := List.length_pos_of_ne_nil hne
      omega
    · cases hp
  · intro p content hp
    rw [operationsTree_eq] at hp
    split at hp <;> cases hp

/-- The directories of the operation are made. -/
theorem makeDirectories_rule (k : Nat) :
    Program.Triple (Leaving (k + 5) (· = none))
      (create >>= fun _ => makeDirectory (operations.take 1) >>= fun _ => makeDirectory operations)
      (fun _ => OnTree k (· = operationsTree)) (fun _ => never) never := by
  have hroot : Program.Triple (Leaving (k + 5) (· = none)) makeRoot
      (fun _ => Leaving (k + 4) (· = some ⟨none, false, none⟩)) (fun _ => never) never := by
    refine call_leaving fun dir hdir => ?_
    subst hdir
    exact ⟨_, _, rfl, rfl⟩
  have hcandidate : Program.Triple (Leaving (k + 4) (· = some ⟨none, false, none⟩)) makeCandidate
      (fun _ => Leaving (k + 3) (· = some ⟨some emptyTree, false, none⟩)) (fun _ => never)
      never := by
    refine call_leaving fun dir hdir => ?_
    subst hdir
    exact ⟨_, _, rfl, rfl⟩
  have hevidence : Program.Triple (Leaving (k + 3) (· = some ⟨some emptyTree, false, none⟩))
      makeEvidence (fun _ => OnTree (k + 2) (· = emptyTree)) (fun _ => never) never := by
    refine call_leaving (Q := fun _ dir => ∃ tree, dir = some ⟨some tree, true, none⟩ ∧
      tree = emptyTree) fun dir hdir => ?_
    subst hdir
    exact ⟨_, _, rfl, _, rfl, rfl⟩
  have hproduct : Program.Triple (OnTree (k + 2) (· = emptyTree))
      (makeDirectory (operations.take 1))
      (fun _ => OnTree (k + 1) (· = putNode emptyTree (operations.take 1) .directory))
      (fun _ => never) never := by
    refine candidateCall_rule fun tree htree => ?_
    subst htree
    exact ⟨_, if_pos ⟨rfl, rfl⟩, rfl⟩
  have hoperations : Program.Triple
      (OnTree (k + 1) (· = putNode emptyTree (operations.take 1) .directory))
      (makeDirectory operations) (fun _ => OnTree k (· = operationsTree)) (fun _ => never)
      never := by
    refine candidateCall_rule fun tree htree => ?_
    subst htree
    exact ⟨_, if_pos ⟨rfl, rfl⟩, rfl⟩
  have hcreate := hroot.bind fun _ => hcandidate.bind fun _ => hevidence
  exact hcreate.bind fun _ => hproduct.bind fun _ => hoperations

/-- The files that the candidate is to hold are a copy of the request's. -/
theorem holds_of_copied (h : Accepted r b) (hclear : Clear b) {copied : List FileParts}
    (hall : ∀ f ∈ candidateFiles b, f ∈ copied) {tree : StagedTree}
    (hcopied : Copied (candidateFiles b) (stagedContent r b) copied tree) : Holds r b tree := by
  have hstaged : ∀ path, path = indexPath ∨ path ∈ b.documentPaths →
      stagedFiles tree path = r.source path := by
    intro path hpath
    have hmem : operations ++ path ∈ stagedPaths b := mem_stagedPaths.mpr ⟨path, hpath, rfl⟩
    obtain ⟨content, hcontent, hnode⟩ := hcopied.2 _ (hall _ (List.mem_cons_of_mem _ hmem))
    rw [stagedContent_staged hclear hmem] at hcontent
    rw [stagedFiles, hnode, hcontent]
  constructor
  · exact load_congr h.loads (hstaged indexPath (.inl rfl))
      fun path hpath => hstaged path (.inr hpath)
  · obtain ⟨content, hcontent, hnode⟩ := hcopied.2 _ (hall _ List.mem_cons_self)
    rw [stagedContent_artifact] at hcontent
    rw [fileAt, hnode, hcontent]

/-- The checks of the candidate pass, as calls of either kind do. -/
theorem verifyArtifact_of_holds (h : Accepted r b) {declaration : Json}
    (hdeclaration : b.artifact b.artifactId = .ok declaration) {tree : StagedTree}
    (hholds : Holds r b tree) :
    verifyArtifact r.tools b (textOf (member declaration "id"))
      (fileAt tree (partsOf (textOf (member declaration "path")))) = .ok () := by
  obtain ⟨declaration', hdeclared, hid⟩ := h.declared
  rw [hdeclaration] at hdeclared
  cases hdeclared
  have hpath : partsOf (textOf (member declaration "path")) = artifactPath b := by
    rw [artifactPath, hdeclaration]
  rw [hid, hpath, hholds.2]
  exact h.verifies

/-- The candidate is verified before the evidence is written. -/
theorem verifyStaged_rule (h : Accepted r b) {declaration : Json}
    (hdeclaration : b.artifact b.artifactId = .ok declaration) (differs : String) (k : Nat) :
    Program.Triple (OnTree (k + 2) (Holds r b)) ((inputs r b).verifyStaged declaration differs)
      (fun _ => OnTree k (Holds r b)) (fun _ => never) never := by
  have hfirst := inspect_rule (f := fun tree => load (inputs r b).tools (stagedFiles tree))
    (k := k + 1) (R := Holds r b) fun tree hholds => hholds.1
  refine hfirst.bind fun staged => Program.Triple.assuming fun hstaged => ?_
  subst hstaged
  refine Program.Triple.ite (fun hne => absurd rfl hne) fun _ => ?_
  exact (inspect_rule fun tree hholds => verifyArtifact_of_holds h hdeclaration hholds).post
    fun _ _ hpost => hpost.2

/-- The documents and the artifact are copied. -/
theorem copies_rule (h : Accepted r b) (hclear : Clear b) {target : FileParts}
    (htarget : target = artifactPath b) (k : Nat) :
    Program.Triple (OnTree (k + 5 + 3 * b.documentPaths.length) (· = operationsTree))
      (copyFile ((inputs r b).source indexPath) (operations ++ indexPath) >>= fun _ =>
        b.documentPaths.forM (inputs r b).copyDocument >>= fun _ =>
          makeParents target.dropLast >>= fun _ => copyFile r.artifact target)
      (fun _ => OnTree k (Holds r b)) (fun _ => never) never := by
  subst htarget
  have hapart := apart_candidateFiles h hclear
  have hmem : ∀ path, path = indexPath ∨ path ∈ b.documentPaths →
      operations ++ path ∈ stagedPaths b := fun path hpath => mem_stagedPaths.mpr ⟨path, hpath, rfl⟩
  have hfile : ∀ path, path = indexPath ∨ path ∈ b.documentPaths →
      operations ++ path ∈ candidateFiles b := fun path hpath =>
    List.mem_cons_of_mem _ (hmem path hpath)
  have hsource : ∀ path, path = indexPath ∨ path ∈ b.documentPaths → ∃ content,
      r.source path = some content ∧ stagedContent r b (operations ++ path) = some content := by
    intro path hpath
    obtain ⟨content, hcontent⟩ := Option.ne_none_iff_exists'.mp (h.isSome hpath)
    exact ⟨content, hcontent, (stagedContent_staged hclear (hmem path hpath)).trans hcontent⟩
  obtain ⟨bytes, hbytes⟩ := h.artifact_isSome
  obtain ⟨content, hcontent, hwanted⟩ := hsource indexPath (.inl rfl)
  have hindexFile := hfile indexPath (.inl rfl)
  have hindex := @copyFile_rule _ [] _ hapart _ hindexFile _ hwanted
    (k + 3 + 3 * b.documentPaths.length)
  have hdocuments := @copyDocuments_rule _ [operations ++ indexPath] _ (inputs r b) hapart _
    (fun path hpath => hfile path (.inr hpath)) (fun path hpath => hsource path (.inr hpath)) (k + 3)
  have hparents := @makeParents_rule _
    ((b.documentPaths.map (operations ++ ·)).reverse ++ [operations ++ indexPath])
    (stagedContent r b) hapart _ List.mem_cons_self (k + 2)
  have hartifact := @copyFile_rule _
    ((b.documentPaths.map (operations ++ ·)).reverse ++ [operations ++ indexPath])
    _ hapart _ List.mem_cons_self _ (stagedContent_artifact.trans hbytes) k
  have hsourceIndex : (inputs r b).source indexPath = some content := hcontent
  rw [hsourceIndex, hbytes]
  refine (Program.Triple.pre hindex fun w hw => ?_).bind fun _ => hdocuments.bind fun _ =>
    hparents.bind fun _ => hartifact.post fun _ w hw => ?_
  · obtain ⟨hleft, tree, hdir, rfl⟩ := hw
    have hcount : k + 5 + 3 * b.documentPaths.length = k + 3 + 3 * b.documentPaths.length + 2 := by
      omega
    refine ⟨hcount ▸ hleft, _, hdir, copied_operationsTree hindexFile ?_, rfl⟩
    exact List.cons_ne_nil _ _
  · obtain ⟨hleft, tree, hdir, hcopied⟩ := hw
    refine ⟨hleft, tree, hdir, holds_of_copied h hclear (fun f hf => ?_) hcopied⟩
    rcases List.mem_cons.mp hf with rfl | hf
    · exact List.mem_cons_self
    · refine List.mem_cons_of_mem _ (List.mem_append.mpr ?_)
      rcases List.mem_cons.mp hf with rfl | hf
      · exact .inr List.mem_cons_self
      · exact .inl (List.mem_reverse.mpr hf)

theorem bind_assoc {α β γ : Type} (m : StagingProgram α) (f : α → StagingProgram β)
    (g : β → StagingProgram γ) : (m >>= f) >>= g = m >>= fun a => f a >>= g := by
  funext w
  change Program.andThen (Program.andThen m f) g w = Program.andThen m (fun a => f a >>= g) w
  unfold Program.andThen
  cases m w with
  | mk w₁ o => cases o <;> rfl

/-- The end of the first branch: the evidence is written. -/
def recordEvidence (evidence : ReleaseEvidence) : StagingProgram String := do
  chmod
  openRecord
  writeRecord evidence
  chmod
  return evidence.createdAt

/-- The candidate is verified, and there is no evidence yet. -/
def Verified (r : ReleaseRequest) (b : LoadedBundle) (dir : Option OperationDir) : Prop :=
  ∃ tree, dir = some ⟨some tree, true, none⟩ ∧ Holds r b tree

/-- The evidence is opened. -/
def Recording (r : ReleaseRequest) (b : LoadedBundle) (dir : Option OperationDir) : Prop :=
  ∃ tree, dir = some ⟨some tree, true, some .cut⟩ ∧ Holds r b tree

/-- A rule for a program without crashes, with one that has them. -/
theorem before_crashes {α : Type} {m : StagingProgram α} {P : StagingWorld → Prop}
    {Q : α → StagingWorld → Prop} {E : StagingFailure → StagingWorld → Prop}
    (C : StagingWorld → Prop) (h : Program.Triple P m Q E never) : Program.Triple P m Q E C :=
  h.conseq (fun _ h => h) (fun _ _ h => h) (fun _ _ h => h) fun _ h => h.elim

/-- The evidence is written, and the attempt may die after that. -/
theorem recordEvidence_rule {evidence : ReleaseEvidence}
    (hdigest : evidence.bundleDigest = b.bundleDigest) :
    Program.Triple (OnTree 3 (Holds r b)) (recordEvidence evidence)
      (fun a w => a = evidence.createdAt ∧ Staged r b evidence.createdAt w.dir) (fun _ => never)
      (fun w => Staged r b evidence.createdAt w.dir) := by
  let staged := Staged r b evidence.createdAt
  have hfirst : Program.Triple (Leaving 3 (Verified r b)) chmod (fun _ => Leaving 2 (Verified r b))
      (fun _ => never) never :=
    call_leaving fun dir hdir => ⟨dir, (), rfl, hdir⟩
  have hopen : Program.Triple (Leaving 2 (Verified r b)) openRecord
      (fun _ => Leaving 1 (Recording r b)) (fun _ => never) never := by
    refine call_leaving fun dir hdir => ?_
    obtain ⟨tree, rfl, hholds⟩ := hdir
    exact ⟨_, _, rfl, tree, rfl, hholds⟩
  have hwrite : Program.Triple (Leaving 1 (Recording r b)) (writeRecord evidence)
      (fun _ => Leaving 0 staged) (fun _ => never) never := by
    refine call_leaving fun dir hdir => ?_
    obtain ⟨tree, rfl, hholds⟩ := hdir
    exact ⟨_, _, rfl, tree, evidence, rfl, rfl, hdigest, hholds⟩
  have hlast : Program.Triple (fun w => staged w.dir) chmod (fun _ w => staged w.dir)
      (fun _ => never) (fun w => staged w.dir) :=
    call_keeps fun dir hdir => ⟨dir, (), rfl, hdir⟩
  have hreturn : Program.Triple (fun w => staged w.dir)
      (pure evidence.createdAt : StagingProgram String)
      (fun a w => a = evidence.createdAt ∧ staged w.dir) (fun _ => never)
      (fun w => staged w.dir) := Program.Triple.pure fun w hw => ⟨rfl, hw⟩
  have hbefore := hfirst.bind fun _ => hopen.bind fun _ => hwrite
  have hafter := hlast.bind fun _ => hreturn
  have hall := (before_crashes (fun w => staged w.dir) hbefore).bind fun _ =>
    hafter.pre fun w hw => hw.2
  simp only [bind_assoc] at hall
  exact hall

theorem declaration_eq {declaration : Json}
    (hdeclaration : b.artifact b.artifactId = .ok declaration) :
    (inputs r b).declaration = .ok declaration := by
  change (match b.artifact b.artifactId with
    | .ok declaration => Except.ok declaration
    | .error message => Except.error (StagingFailure.value message)) = _
  rw [hdeclaration]

/-- The first branch, in parts. -/
theorem stageAnew_eq {declaration : Json}
    (hdeclaration : b.artifact b.artifactId = .ok declaration) (now : String) :
    (inputs r b).stageAnew now =
      (create >>= fun _ => makeDirectory (operations.take 1) >>= fun _ =>
        makeDirectory operations) >>= fun _ =>
      (copyFile ((inputs r b).source indexPath) (operations ++ indexPath) >>= fun _ =>
        b.documentPaths.forM (inputs r b).copyDocument >>= fun _ =>
          makeParents (partsOf (textOf (member declaration "path"))).dropLast >>= fun _ =>
            copyFile r.artifact (partsOf (textOf (member declaration "path")))) >>= fun _ =>
      (inputs r b).verifyStaged declaration
        "Staged product bundle differs from the approved bundle." >>= fun _ =>
      recordEvidence ⟨b.bundleDigest, textOf (member declaration "digest"), now⟩ := by
  unfold StagingInputs.stageAnew recordEvidence
  rw [declaration_eq hdeclaration]
  simp only [bind_assoc, Program.ofExcept_ok, Program.ret_bind]
  rfl

/-- The attempt that makes the directory and gets as far as the evidence. -/
theorem stageAnew_rule (h : Accepted r b) (hclear : Clear b) (now : String) :
    Program.Triple (Leaving (stagingCalls b) (· = none)) ((inputs r b).stageAnew now)
      (fun a w => a = now ∧ Staged r b now w.dir) (fun _ => never)
      (fun w => Staged r b now w.dir) := by
  obtain ⟨declaration, hdeclaration, -⟩ := h.declared
  have hpath : partsOf (textOf (member declaration "path")) = artifactPath b := by
    rw [artifactPath, hdeclaration]
  rw [stageAnew_eq hdeclaration]
  have hdirectories := makeDirectories_rule (10 + 3 * b.documentPaths.length)
  have hcopies := copies_rule h hclear hpath 5
  have hverify := verifyStaged_rule h hdeclaration
    "Staged product bundle differs from the approved bundle." 3
  have hrecord := @recordEvidence_rule r b
    ⟨b.bundleDigest, textOf (member declaration "digest"), now⟩ rfl
  have hbefore := hdirectories.bind fun _ => hcopies.bind fun _ => hverify
  have hall := (before_crashes (fun w => Staged r b now w.dir) hbefore).bind fun _ => hrecord
  have hcount : stagingCalls b = 10 + 3 * b.documentPaths.length + 5 := by
    unfold stagingCalls
    omega
  rw [hcount]
  simpa only [bind_assoc] using hall

/-! ### The attempts that find the directory -/

/-- The directory is refused by `create`. -/
theorem stageAnew_staged (createdAt now : String) :
    Program.Triple (fun w => Staged r b createdAt w.dir) ((inputs r b).stageAnew now)
      (fun _ => never) (fun e w => e = unableToCreate ∧ Staged r b createdAt w.dir)
      (fun w => Staged r b createdAt w.dir) := by
  have hroot : Program.Triple (fun w => Staged r b createdAt w.dir) makeRoot (fun _ => never)
      (fun e w => e = unableToCreate ∧ Staged r b createdAt w.dir)
      (fun w => Staged r b createdAt w.dir) := by
    intro w hstaged
    unfold makeRoot call
    by_cases hdead : w.calls = some 0
    · rw [if_pos hdead]
      exact hstaged
    · obtain ⟨tree, evidence, hdir, hrest⟩ := hstaged
      rw [if_neg hdead, hdir]
      exact ⟨rfl, tree, evidence, rfl, hrest⟩
  have hrest : ∀ {α : Type} (m : StagingProgram α), Program.Triple never m (fun _ => never)
      (fun e w => e = unableToCreate ∧ Staged r b createdAt w.dir)
      (fun w => Staged r b createdAt w.dir) := fun m w hw => hw.elim
  unfold StagingInputs.stageAnew create
  rw [bind_assoc]
  exact hroot.bind fun _ => hrest _

/-- A check that a full candidate passes. -/
theorem inspect_staged {α : Type} {f : StagedTree → Except String α} {a : α} (createdAt : String)
    (hf : ∀ tree, Holds r b tree → f tree = .ok a) :
    Program.Triple (fun w => Staged r b createdAt w.dir) (inspect f)
      (fun a' w => a' = a ∧ Staged r b createdAt w.dir) (fun _ => never)
      (fun w => Staged r b createdAt w.dir) := by
  refine call_keeps (Q := fun a' dir => a' = a ∧ Staged r b createdAt dir) fun dir hstaged => ?_
  obtain ⟨tree, evidence, rfl, hrest⟩ := id hstaged
  refine ⟨_, a, ?_, rfl, hstaged⟩
  simp only [hf tree hrest.2.2]

/-- What is verified of the candidate is there. -/
theorem verifyStaged_staged (h : Accepted r b) {declaration : Json}
    (hdeclaration : b.artifact b.artifactId = .ok declaration) (differs createdAt : String) :
    Program.Triple (fun w => Staged r b createdAt w.dir)
      ((inputs r b).verifyStaged declaration differs)
      (fun _ w => Staged r b createdAt w.dir) (fun _ => never)
      (fun w => Staged r b createdAt w.dir) := by
  have hload := inspect_staged (r := r) (b := b)
    (f := fun tree => load (inputs r b).tools (stagedFiles tree)) createdAt
    fun tree hholds => hholds.1
  refine hload.bind fun staged => Program.Triple.assuming fun hstaged => ?_
  subst hstaged
  refine Program.Triple.ite (fun hne => absurd rfl hne) fun _ => ?_
  have hverify := inspect_staged createdAt fun tree hholds =>
    verifyArtifact_of_holds h hdeclaration hholds
  exact hverify.post fun _ _ hpost => hpost.2

/-- An attempt that finds the directory returns the time on record. -/
theorem resume_rule (h : Accepted r b) (createdAt : String) :
    Program.Triple (fun w => Staged r b createdAt w.dir) (inputs r b).resume
      (fun a w => a = createdAt ∧ Staged r b createdAt w.dir) (fun _ => never)
      (fun w => Staged r b createdAt w.dir) := by
  obtain ⟨declaration, hdeclaration, -⟩ := h.declared
  have hopen : Program.Triple (fun w => Staged r b createdAt w.dir) openConfirmed
      (fun _ w => Staged r b createdAt w.dir) (fun _ => never)
      (fun w => Staged r b createdAt w.dir) := by
    refine call_keeps (Q := fun _ dir => Staged r b createdAt dir) fun dir hstaged => ?_
    obtain ⟨tree, evidence, rfl, -⟩ := id hstaged
    exact ⟨_, (), rfl, hstaged⟩
  have hread : Program.Triple (fun w => Staged r b createdAt w.dir) StagingInputs.readRecord
      (fun evidence w => (evidence.createdAt = createdAt ∧ evidence.bundleDigest = b.bundleDigest) ∧
        Staged r b createdAt w.dir) (fun _ => never) (fun w => Staged r b createdAt w.dir) := by
    refine call_keeps (Q := fun (evidence : ReleaseEvidence) dir =>
      (evidence.createdAt = createdAt ∧ evidence.bundleDigest = b.bundleDigest) ∧
        Staged r b createdAt dir) fun dir hstaged => ?_
    obtain ⟨tree, evidence, rfl, hcreated, hdigest, -⟩ := id hstaged
    exact ⟨_, evidence, rfl, ⟨hcreated, hdigest⟩, hstaged⟩
  have hdeclared : (inputs r b).declaration = .ok declaration := declaration_eq hdeclaration
  unfold StagingInputs.resume
  refine hopen.bind fun _ => hread.bind fun evidence => Program.Triple.assuming fun hrecord => ?_
  obtain ⟨hcreated, hdigest⟩ := hrecord
  refine Program.Triple.ite (fun hne => absurd hdigest hne) fun _ => ?_
  rw [hdeclared, hcreated]
  exact (verifyStaged_staged h hdeclaration _ createdAt).bind fun _ =>
    Program.Triple.pure fun w hw => ⟨rfl, hw⟩

/-- Staging goes on from a directory with its evidence. -/
theorem stageRelease_staged (h : Accepted r b) (createdAt now : String) :
    Program.Triple (fun w => Staged r b createdAt w.dir) ((inputs r b).stageRelease now)
      (fun a w => a = createdAt ∧ Staged r b createdAt w.dir) (fun _ => never)
      (fun w => Staged r b createdAt w.dir) := by
  refine Program.Triple.handle ((stageAnew_staged createdAt now).post fun _ _ hw => hw.elim)
    fun e => Program.Triple.assuming fun he => ?_
  subst he
  exact (resume_rule h createdAt).handle fun _ _ hw => hw.elim

/-- Staging starts where there is no directory. -/
theorem stageRelease_none (h : Accepted r b) (hclear : Clear b) (now : String) :
    Program.Triple (Leaving (stagingCalls b) (· = none)) ((inputs r b).stageRelease now)
      (fun a w => a = now ∧ Staged r b now w.dir) (fun _ => never)
      (fun w => Staged r b now w.dir) :=
  (stageAnew_rule h hclear now).handle fun _ _ hw => hw.elim

/-- A process that is dead makes no call. -/
theorem stageRelease_dead (i : StagingInputs) (now : String) (dir : Option OperationDir) :
    Program.Triple (fun w => w = ⟨dir, some 0⟩) (i.stageRelease now) (fun _ => never)
      (fun _ => never) (fun w => w = ⟨dir, some 0⟩) := by
  have hroot : Program.Triple (fun w => w = ⟨dir, some 0⟩) makeRoot (fun _ => never)
      (fun _ => never) (fun w => w = ⟨dir, some 0⟩) := by
    rintro w rfl
    rfl
  have hrest : ∀ {α : Type} (m : StagingProgram α), Program.Triple never m (fun _ => never)
      (fun _ => never) (fun w => w = ⟨dir, some 0⟩) := fun m w hw => hw.elim
  unfold StagingInputs.stageRelease StagingInputs.stageAnew create
  rw [bind_assoc]
  exact (hroot.bind fun _ => hrest _).handle fun _ => hrest _

end ReleaseStaging

end Ophelia
