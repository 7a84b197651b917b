import Mathlib.Data.List.Sort
import Ophelia.Lib.PathLookups
import Ophelia.Lib.Results
import Ophelia.Runtime.FileRules
import Ophelia.Runtime.Rendering

/-!
# Ophelia.Runtime.GarbageCollection

What the collector of the version 1 runtime takes away (`gc.py`): bundles and static releases but
for the last ones, and what lies in `tmp`. Which are the last is decided by their names, and the
names of releases need not grow. Besides, the active and the latest release are kept, and what the
link `current` of a site leads to.
-/

namespace Ophelia.V1

open FileTree PyText Program

/-- How `json.loads` ends on a file: with a value, with a decoding error, or with another
exception, as on a text that is not UTF-8. -/
inductive RecordText where
  | payload (value : Json)
  | invalid
  | raised

structure Candidate where
  path : RuntimePath
  reason : String
deriving DecidableEq

/-- Python's part in the collector: the reader of records, `str` of what they hold, and the digest
of a plan. -/
structure GcTools where
  loads : List UInt8 → RecordText
  text : Json → String
  token : RuntimePath → List Candidate → String

section Plan

variable (tools : GcTools) (fs : FileSystem) (disk : RuntimeDisk)

/-! ### Reading -/

def below (path : RuntimePath) (names : List String) : RuntimePath := path ++ pathOf names

/-- `path.iterdir()`. -/
def iterdir (path : RuntimePath) : Except FileError (List String) :=
  match resolve disk.view fs.links [] path with
  | .error e => .error (.call (.lookup e))
  | .ok place =>
      if (disk.view place).any FileTree.Node.isDirectory then .ok (disk.children place)
      else .error (.call .notDirectory)

/-- `sorted` of names. -/
def sortedNames (names : List String) : List String := names.insertionSort (· ≤ ·)

/-- The directories in a directory, in the order of their names; none if there is no such
directory. -/
def directoriesIn (path : RuntimePath) : Except FileError (List String) :=
  if existsAt fs disk path then
    (iterdir fs disk path).map fun names =>
      sortedNames (names.filter fun name => isDirAt fs disk (below path [name]))
  else .ok []

/-- `_load_release_json`. -/
def loadReleaseJson (path : RuntimePath) : Except FileError Mapping :=
  match disk.target fs.links path with
  | some (.regular _ content) =>
      match tools.loads content with
      | .payload (.obj members) => .ok members
      | .payload _ => .ok []
      | .invalid => .ok []
      | .raised => .error (.value "release record")
  | _ => .ok []

/-- `_release_id_from_path`. -/
def releaseIdFromPath (path : RuntimePath) : Except FileError (Option String) :=
  if existsAt fs disk path then
    (loadReleaseJson tools fs disk path).map fun payload =>
      match payload.lookup "release_id" with
      | some (.str id) => some id
      | _ => none
  else .ok none

/-- `_protected_release_ids`. -/
def protectedReleaseIds (appRoot : RuntimePath) : Except FileError (List String) := do
  let latest ← releaseIdFromPath tools fs disk (below appRoot ["release.json"])
  let active ← releaseIdFromPath tools fs disk (below appRoot ["active_release.json"])
  return latest.toList ++ active.toList

/-- `_current_static_release_id`. -/
def currentStaticReleaseId (appRoot releasesRoot : RuntimePath) :
    Except FileError (Option String) :=
  match disk.entryNode fs.links (below appRoot ["current"]) with
  | some (.link steps) => do
      let resolved ← resolvedPath disk (appRoot ++ steps)
      let root ← resolvedPath disk releasesRoot
      match root.isPrefixOf resolved, resolved.drop root.length with
      | true, [name] => return some name
      | _, _ => return none
  | _ => .ok none

/-! ### The plan -/

/-- `names[-keep:]`. -/
def lastNames (keep : Nat) (names : List String) : List String := names.drop (names.length - keep)

/-- The bundles of an application. -/
def bundleNames (appRoot : RuntimePath) : Except FileError (List String) :=
  directoriesIn fs disk (below appRoot ["release-bundles"])

/-- The old ones among them. -/
def bundleCandidates (keep : Nat) (appRoot : RuntimePath) : Except FileError (List Candidate) := do
  let protectedReleases ← protectedReleaseIds tools fs disk appRoot
  let bundles ← bundleNames fs disk appRoot
  let kept := protectedReleases ++ lastNames keep bundles
  return (bundles.filter fun name => name ∉ kept).map fun name =>
    ⟨below appRoot ["release-bundles", name], "old release bundle"⟩

/-- The static releases of a site. -/
def staticNames (siteRoot : RuntimePath) : Except FileError (List String) :=
  let releasesRoot := below siteRoot ["releases"]
  if existsAt fs disk releasesRoot && !isSymlinkAt fs disk releasesRoot then
    (iterdir fs disk releasesRoot).map fun names =>
      sortedNames (names.filter fun name =>
        isDirAt fs disk (below releasesRoot [name]) && !isSymlinkAt fs disk (below releasesRoot [name]))
  else .ok []

/-- The old ones among them. -/
def staticCandidates (keep : Nat) (appRoot siteRoot : RuntimePath) :
    Except FileError (List Candidate) := do
  let releases ← staticNames fs disk siteRoot
  let current ← currentStaticReleaseId fs disk siteRoot (below siteRoot ["releases"])
  let protectedReleases ← protectedReleaseIds tools fs disk appRoot
  let kept := lastNames keep releases ++ current.toList ++ protectedReleases
  return (releases.filter fun name => name ∉ kept).map fun name =>
    ⟨below siteRoot ["releases", name], "old static release"⟩

/-- The candidates of all directories in a directory. -/
def collect (candidates : String → Except FileError (List Candidate)) (path : RuntimePath) :
    Except FileError (List Candidate) := do
  let names ← directoriesIn fs disk path
  return (← names.mapM candidates).flatten

def temporaryCandidates (path : RuntimePath) : Except FileError (List Candidate) :=
  if existsAt fs disk path then
    (iterdir fs disk path).map fun names =>
      names.map fun name => ⟨below path [name], "runtime temp artifact"⟩
  else .ok []

/-- `gc_plan`: the candidates. -/
def gcPlan (root : RuntimePath) (keepReleases : Int) : Except FileError (List Candidate) :=
  if keepReleases < 1 then .error (.value "keep_releases must be a positive integer.")
  else do
    let bundles ← collect fs disk
      (fun app => bundleCandidates tools fs disk keepReleases.toNat (below root ["apps", app]))
      (below root ["apps"])
    let statics ← collect fs disk
      (fun app => staticCandidates tools fs disk keepReleases.toNat (below root ["apps", app])
        (below root ["static", app]))
      (below root ["static"])
    let temporary ← temporaryCandidates fs disk (below root ["tmp"])
    return bundles ++ statics ++ temporary

end Plan

/-! ### Applying it -/

section Apply

variable (tools : GcTools) (fs : FileSystem)

/-- `_inside_runtime`. -/
def insideRuntime (disk : RuntimeDisk) (root path : RuntimePath) : Except FileError Bool := do
  let place ← resolvedPath disk path
  let rootPlace ← resolvedPath disk root
  return rootPlace.isPrefixOf place

/-- One candidate of `apply_gc`. -/
def collectCandidate (root path : RuntimePath) : Filing Unit := do
  let disk ← readDisk
  if existsAt fs disk path then do
    let inside ← Program.ofExcept (insideRuntime disk root path)
    if inside then
      if isSymlinkAt fs disk path || isFileAt fs disk path then osUnlink fs path
      else if isDirAt fs disk path then rmtree fs fs.depth path
      else osUnlink fs path
    else return ()
  else return ()

def collectCandidates (root : RuntimePath) : List Candidate → Filing Unit
  | [] => return ()
  | candidate :: rest => do
      collectCandidate fs root candidate.path
      collectCandidates root rest

/-- `apply_gc`. -/
def applyGc (root : RuntimePath) (confirm : String) : Filing Unit := do
  let disk ← readDisk
  let candidates ← Program.ofExcept (gcPlan tools fs disk root 5)
  if confirm ≠ tools.token root candidates then
    Program.raise (.value "GC confirmation token did not match the plan.")
  else collectCandidates fs root candidates

end Apply

/-! ### The releases of an application -/

section Releases

variable (tools : GcTools) (fs : FileSystem) (disk : RuntimeDisk)

/-- A text that is not empty. -/
def textOf (release : Mapping) (field : String) : Option String :=
  match release.lookup field with
  | some (.str s) => if s = "" then none else some s
  | _ => none

/-- `active_release`. -/
def activeRelease (appRoot : RuntimePath) : Except FileError Mapping := do
  let active ← loadReleaseJson tools fs disk (below appRoot ["active_release.json"])
  if active ≠ [] then return active
  else
    let legacy ← loadReleaseJson tools fs disk (below appRoot ["release.json"])
    if legacy.lookup "applied" = some (.bool true) then return legacy else return []

/-- `latest_release_id`. -/
def latestReleaseId (appRoot : RuntimePath) : Except FileError (Option String) :=
  (loadReleaseJson tools fs disk (below appRoot ["release.json"])).map (textOf · "release_id")

/-- `path.stem` of a name that ends in `.json`. -/
def recordStem (name : String) : String := String.ofList (name.toList.dropLast.dropLast.dropLast.dropLast.dropLast)

/-- `payload.setdefault("release_id", stem)`. -/
def withReleaseId (stem : String) (release : Mapping) : Mapping :=
  if (release.lookup "release_id").isSome then release else release ++ [("release_id", .str stem)]

/-- `list_releases`: the records, in the order of their `deployed_at`. -/
def listReleases (appRoot : RuntimePath) : Except FileError (List Mapping) := do
  let releasesRoot := below appRoot ["releases"]
  let names ← if existsAt fs disk releasesRoot then iterdir fs disk releasesRoot else .ok []
  let records ← (sortedNames (names.filter fun name => endsWith ".json".toList name.toList)).mapM
    fun name => (loadReleaseJson tools fs disk (below releasesRoot [name])).map
      (withReleaseId (recordStem name))
  let legacy ← loadReleaseJson tools fs disk (below appRoot ["release.json"])
  let records := if records = [] ∧ legacy ≠ [] then [withReleaseId "legacy-current" legacy]
    else records
  let deployedAt (release : Mapping) : String :=
    (release.lookup "deployed_at").elim "" tools.text
  return records.insertionSort fun a b => deployedAt a ≤ deployedAt b

end Releases

/-! ### What is taken away -/

/-- Nothing came new or changed, and only what is owned is gone. -/
structure Collected (base : RuntimeDisk) (owned : List String → Prop) (disk : RuntimeDisk) :
    Prop where
  shrunk : Shrunk base disk
  only : ∀ place, disk.view place ≠ base.view place → owned place

namespace Collected

variable {fs : FileSystem} {base disk : RuntimeDisk} {owned : List String → Prop}

theorem refl (base : RuntimeDisk) (owned : List String → Prop) : Collected base owned base :=
  ⟨Shrunk.refl base, fun _ h => absurd rfl h⟩

theorem removes {place : List String} (h : owned place) : Removes (Collected base owned) place := by
  intro disk disk' hdisk hsets
  refine ⟨Shrunk.removes base place disk disk' hdisk.shrunk hsets, fun q hq => ?_⟩
  by_cases heq : q = place
  · exact heq ▸ h
  · rw [hsets q, if_neg heq] at hq
    exact hdisk.only q hq

theorem resolve_eq (h : Collected base owned disk) {path : RuntimePath} {place : List String}
    (hplace : resolve disk.view fs.links [] path = .ok place) :
    resolve base.view fs.links [] path = .ok place :=
  resolve_mono (fun _ _ hnode => h.shrunk.view_eq hnode) hplace

/-- What is found on a smaller disk was found before. -/
theorem entry_eq (h : Collected base owned disk) {path : RuntimePath} {place : List String}
    (hplace : disk.entry fs.links path = .ok place) : base.entry fs.links path = .ok place := by
  rcases List.eq_nil_or_concat path with rfl | ⟨front, step, rfl⟩
  · exact h.resolve_eq hplace
  · rw [List.concat_eq_append] at hplace ⊢
    cases step with
    | up =>
        unfold Disk.entry at hplace ⊢
        rw [List.getLast?_concat] at hplace ⊢
        exact h.resolve_eq hplace
    | down name =>
        cases hmid : resolve disk.view fs.links [] front with
        | error e =>
            unfold Disk.entry at hplace
            rw [List.getLast?_concat, List.dropLast_concat] at hplace
            simp only [hmid] at hplace
            cases hplace
        | ok mid =>
            rw [Disk.entry_concat hmid] at hplace
            by_cases hdir : (disk.view mid).any FileTree.Node.isDirectory = true
            · rw [if_pos hdir] at hplace
              obtain ⟨node, hnode, hnodeDir⟩ := (Option.any_eq_true _ _).mp hdir
              have hbase : (base.view mid).any FileTree.Node.isDirectory = true := by
                rw [h.shrunk.view_eq hnode]
                exact hnodeDir
              rw [Disk.entry_concat (h.resolve_eq hmid), if_pos hbase]
              exact hplace
            · rw [if_neg hdir] at hplace
              cases hplace

theorem keeps_unlink {path : RuntimePath}
    (h : ∀ place, base.entry fs.links path = .ok place → owned place) :
    KeepsDisk (Collected base owned) (osUnlink fs path) := by
  refine KeepsDisk.call fun disk disk' hdisk hop => ?_
  obtain ⟨place, node, hentry, -, -, hsets⟩ := Disk.unlinkAt_eq_ok hop
  exact removes (h place (hdisk.entry_eq hentry)) disk disk' hdisk hsets

/-- A directory is removed with what stands below it: no link is followed. -/
theorem keeps_rmtree {depth : Nat} {path : RuntimePath}
    (h : ∀ place, resolve base.view fs.links [] path = .ok place →
      ∀ q, place <+: q → owned q) :
    KeepsDisk (Collected base owned) (rmtree fs depth path) := by
  induction depth generalizing path with
  | zero => exact Keeps.raise
  | succ depth ih =>
      refine Triple.bind (KeepsDisk.triple_scandir (P := Collected base owned) _) fun entries => ?_
      intro host hhost
      obtain ⟨hhost, place, hplace, hdir, rfl⟩ := hhost
      have hbase := hhost.resolve_eq hplace
      have hentries : KeepsDisk (Collected base owned)
          (removeEntries fs (rmtree fs depth) path
            ((host.disk.children place).map fun name => (name, host.disk.view (place ++ [name])))) := by
        refine KeepsDisk.removeEntries fun name node hmem => ?_
        obtain ⟨name', -, heq⟩ := List.mem_map.mp hmem
        obtain ⟨rfl, rfl⟩ := Prod.mk.inj heq
        have hunlink : KeepsDisk (Collected base owned) (osUnlink fs (path ++ [.down name'])) := by
          refine keeps_unlink fun q hq => ?_
          rw [Disk.entry_concat hbase] at hq
          split at hq
          · obtain rfl := Except.ok.inj hq
            exact h place hbase _ (List.prefix_append _ _)
          · cases hq
        unfold removeEntry
        split
        · rename_i mode hnode
          refine ih fun q hq below hbelow => ?_
          have hnext := resolve_concat hbase ?_ (hhost.shrunk.view_eq hnode)
          · obtain rfl := Except.ok.inj (hnext.symm.trans hq)
            exact h place hbase below ((List.prefix_append _ _).trans hbelow)
          · obtain ⟨top, htop, htopDir⟩ := (Option.any_eq_true _ _).mp hdir
            rw [hhost.shrunk.view_eq htop]
            exact htopDir
        · exact hunlink
      have hself : KeepsDisk (Collected base owned) (osRmdir fs path) := by
        refine KeepsDisk.call fun disk disk' hdisk hop => ?_
        obtain ⟨q, mode, hentry, hnode, hsets⟩ := Disk.rmdirAt_eq_ok hop
        have hq := hdisk.resolve_eq (Disk.resolve_of_entry hentry hnode)
        exact removes (h q hq q List.prefix_rfl) disk disk' hdisk hsets
      have hrest : KeepsDisk (Collected base owned) (do
          removeEntries fs (rmtree fs depth) path
            ((host.disk.children place).map fun name => (name, host.disk.view (place ++ [name])))
          osRmdir fs path) := Keeps.bind hentries fun _ => hself
      exact hrest host hhost

theorem keeps_candidate {root path : RuntimePath}
    (h : ∀ place, base.entry fs.links path = .ok place → ∀ q, place <+: q → owned q) :
    KeepsDisk (Collected base owned) (collectCandidate fs root path) := by
  have hunlink : KeepsDisk (Collected base owned) (osUnlink fs path) :=
    keeps_unlink fun place hplace => h place hplace place List.prefix_rfl
  refine KeepsDisk.bind_readDisk fun disk hdisk => Triple.ite
    (fun _ => Keeps.bind Keeps.ofExcept fun inside => Keeps.ite ?_ Keeps.pure) fun _ => Keeps.pure
  refine Triple.ite (fun _ => hunlink) fun hfile => Triple.ite (fun hdir => ?_) fun _ => hunlink
  refine keeps_rmtree fun place hplace => ?_
  -- the path is no link, so it leads to its own entry
  rw [isDirAt, Disk.target] at hdir
  cases hfound : resolve disk.view fs.links [] path with
  | error e =>
      rw [hfound] at hdir
      cases hdir
  | ok found =>
      obtain rfl := Except.ok.inj ((hdisk.resolve_eq hfound).symm.trans hplace)
      have hlink : isSymlinkAt fs disk path = false := by
        rw [Bool.or_eq_true, not_or, Bool.not_eq_true] at hfile
        exact hfile.1
      exact h found (hdisk.entry_eq (Disk.entry_of_resolve hfound hlink))

theorem keeps_candidates {root : RuntimePath} {candidates : List Candidate}
    (h : ∀ candidate ∈ candidates, ∀ place, base.entry fs.links candidate.path = .ok place →
      ∀ q, place <+: q → owned q) :
    KeepsDisk (Collected base owned) (collectCandidates fs root candidates) := by
  induction candidates with
  | nil => exact Keeps.pure
  | cons candidate rest ih =>
      obtain ⟨hcandidate, hrest⟩ := List.forall_mem_cons.mp h
      exact Keeps.bind (keeps_candidate hcandidate) fun _ => ih hrest

end Collected

/-- The subtrees of the candidates of a plan. -/
def OwnedBy (fs : FileSystem) (disk : RuntimeDisk) (candidates : List Candidate)
    (q : List String) : Prop :=
  ∃ candidate ∈ candidates, ∃ place, disk.entry fs.links candidate.path = .ok place ∧ place <+: q

/-- **The collector takes away nothing but subtrees of its candidates**, however it ends. -/
theorem applyGc_collected (tools : GcTools) (fs : FileSystem) (root : RuntimePath)
    (confirm : String) (host : FileHost) :
    Collected host.disk
      (fun q => ∃ candidates, gcPlan tools fs host.disk root 5 = .ok candidates ∧
        OwnedBy fs host.disk candidates q)
      (applyGc tools fs root confirm host).1.disk := by
  have hfrom : KeepsDisk.From (Collected host.disk (fun q => ∃ candidates,
      gcPlan tools fs host.disk root 5 = .ok candidates ∧ OwnedBy fs host.disk candidates q))
      host.disk (applyGc tools fs root confirm) := by
    refine KeepsDisk.From.readDisk ?_
    refine KeepsDisk.From.of_keeps (Collected.refl _ _) ?_
    cases hplan : gcPlan tools fs host.disk root 5 with
    | error e => exact Keeps.raise
    | ok candidates =>
        refine Keeps.ite Keeps.raise (Collected.keeps_candidates fun candidate hmem place hplace q
          hq => ?_)
        exact ⟨candidates, rfl, candidate, hmem, place, hplace, hq⟩
  exact Triple.always hfrom rfl

/-! ### What is promised -/

section Promise

variable (tools : GcTools) (fs : FileSystem) (disk : RuntimeDisk) (root : RuntimePath)

/-- The directory of an application. -/
def appDirectory (app : Slug) : RuntimePath := below root ["apps", app.val]

/-- `static_runtime_root`: the directory of its static releases. -/
def siteDirectory (app : Slug) : RuntimePath := below root ["static", safeDockerName app.val]

/-- The release before the active one. -/
def PreviousRelease (app : Slug) (id : String) : Prop :=
  ∃ release, activeRelease tools fs disk (appDirectory root app) = .ok release ∧
    textOf release "previous_release_id" = some id

/-- One of the last releases to be deployed. -/
def RecentRelease (keep : Nat) (app : Slug) (id : String) : Prop :=
  ∃ releases, listReleases tools fs disk (appDirectory root app) = .ok releases ∧
    ∃ release ∈ releases.drop (releases.length - keep), textOf release "release_id" = some id

/-- The releases that are to be kept. -/
inductive InWindow (keep : Nat) (app : Slug) (id : String) : Prop where
  | active (release : Mapping)
      (h : activeRelease tools fs disk (appDirectory root app) = .ok release)
      (hid : textOf release "release_id" = some id)
  | latest (h : latestReleaseId tools fs disk (appDirectory root app) = .ok (some id))
  | previous (h : PreviousRelease tools fs disk root app id)
  | recent (h : RecentRelease tools fs disk root keep app id)

/-- A plan lists no bundle and no static release of a release that is to be kept, and when a plan is
applied, nothing goes but subtrees of its candidates. -/
structure GcKeepsWindow (keep : Int) : Prop where
  window : ∀ candidates, gcPlan tools fs disk root keep = .ok candidates → ∀ app id,
    InWindow tools fs disk root keep.toNat app id → ∀ candidate ∈ candidates,
      candidate.path ≠ below (appDirectory root app) ["release-bundles", id] ∧
      candidate.path ≠ below (siteDirectory root app) ["releases", id]
  removal : ∀ confirm faults,
    Collected disk
      (fun q => ∃ candidates, gcPlan tools fs disk root 5 = .ok candidates ∧
        OwnedBy fs disk candidates q)
      (applyGc tools fs root confirm ⟨disk, faults⟩).1.disk

/-- `keep` is one that is taken, and what a plan looks into can be read. -/
structure PlanReadable (keep : Int) : Prop where
  positive : 1 ≤ keep
  apps : ∃ apps, directoriesIn fs disk (below root ["apps"]) = .ok apps ∧ ∀ app ∈ apps,
    (∃ protectedReleases,
      protectedReleaseIds tools fs disk (below root ["apps", app]) = .ok protectedReleases) ∧
    ∃ bundles, bundleNames fs disk (below root ["apps", app]) = .ok bundles
  sites : ∃ sites, directoriesIn fs disk (below root ["static"]) = .ok sites ∧ ∀ site ∈ sites,
    (∃ releases, staticNames fs disk (below root ["static", site]) = .ok releases) ∧
    (∃ current, currentStaticReleaseId fs disk (below root ["static", site])
      (below (below root ["static", site]) ["releases"]) = .ok current) ∧
    ∃ protectedReleases,
      protectedReleaseIds tools fs disk (below root ["apps", site]) = .ok protectedReleases
  temporary : existsAt fs disk (below root ["tmp"]) = true →
    ∃ names, iterdir fs disk (below root ["tmp"]) = .ok names

/-- The release is the active or the latest one, or its bundle is among the last by name. -/
def BundleStays (keep : Nat) (app : Slug) (id : String) : Prop :=
  ∀ apps protectedReleases bundles,
    directoriesIn fs disk (below root ["apps"]) = .ok apps → app.val ∈ apps →
    protectedReleaseIds tools fs disk (appDirectory root app) = .ok protectedReleases →
    bundleNames fs disk (appDirectory root app) = .ok bundles →
    id ∈ bundles → id ∈ protectedReleases ∨ id ∈ lastNames keep bundles

/-- The release is the active, the latest or the current one, or its static files are among the last
by name. -/
def StaticStays (keep : Nat) (app : Slug) (id : String) : Prop :=
  ∀ sites protectedReleases releases current,
    directoriesIn fs disk (below root ["static"]) = .ok sites → safeDockerName app.val ∈ sites →
    protectedReleaseIds tools fs disk (appDirectory root app) = .ok protectedReleases →
    staticNames fs disk (siteDirectory root app) = .ok releases →
    currentStaticReleaseId fs disk (siteDirectory root app)
      (below (siteDirectory root app) ["releases"]) = .ok current →
    id ∈ releases → id ∈ protectedReleases ∨ current = some id ∨ id ∈ lastNames keep releases

end Promise

/-! ### Which candidates there are -/

section Candidates

variable {tools : GcTools} {fs : FileSystem} {disk : RuntimeDisk} {root : RuntimePath}

theorem below_below (path : RuntimePath) (names names' : List String) :
    below (below path names) names' = below path (names ++ names') := by
  simp [below, pathOf]

theorem below_injective {path : RuntimePath} {names names' : List String}
    (h : below path names = below path names') : names = names' := by
  have hpaths := List.append_cancel_left h
  refine List.map_injective_iff.mpr (fun a b hab => ?_) hpaths
  exact Step.down.inj hab

theorem mem_collect {candidates : String → Except FileError (List Candidate)} {path : RuntimePath}
    {found : List Candidate} (h : collect fs disk candidates path = .ok found) {c : Candidate} :
    c ∈ found ↔ ∃ names, directoriesIn fs disk path = .ok names ∧
      ∃ name ∈ names, ∃ own, candidates name = .ok own ∧ c ∈ own := by
  obtain ⟨names, hnames, h⟩ := Results.bind_eq_ok.mp h
  obtain ⟨lists, hlists, h⟩ := Results.bind_eq_ok.mp h
  obtain rfl := Except.ok.inj h
  have hmem : ∀ {names : List String} {lists : List (List Candidate)},
      List.Forall₂ (fun name own => candidates name = .ok own) names lists →
      (c ∈ lists.flatten ↔ ∃ name ∈ names, ∃ own, candidates name = .ok own ∧ c ∈ own) := by
    intro names lists hall
    induction hall with
    | nil => simp
    | cons hown _ ih =>
        rw [List.flatten_cons, List.mem_append, ih]
        constructor
        · rintro (hc | ⟨name, hname, own, hfound, hc⟩)
          · exact ⟨_, List.mem_cons_self, _, hown, hc⟩
          · exact ⟨name, List.mem_cons_of_mem _ hname, own, hfound, hc⟩
        · rintro ⟨name, hname, own, hfound, hc⟩
          rcases List.mem_cons.mp hname with rfl | hname
          · obtain rfl := Except.ok.inj (hown.symm.trans hfound)
            exact .inl hc
          · exact .inr ⟨name, hname, own, hfound, hc⟩
  rw [hmem (Results.mapM_eq_ok.mp hlists)]
  constructor
  · exact fun hc => ⟨names, hnames, hc⟩
  · rintro ⟨names', hnames', hc⟩
    obtain rfl := Except.ok.inj (hnames.symm.trans hnames')
    exact hc

theorem mem_bundleCandidates {keep : Nat} {appRoot : RuntimePath} {found : List Candidate}
    (h : bundleCandidates tools fs disk keep appRoot = .ok found) {c : Candidate} :
    c ∈ found ↔ ∃ protectedReleases bundles,
      protectedReleaseIds tools fs disk appRoot = .ok protectedReleases ∧
      bundleNames fs disk appRoot = .ok bundles ∧
      ∃ name ∈ bundles, (name ∉ protectedReleases ∧ name ∉ lastNames keep bundles) ∧
        c = ⟨below appRoot ["release-bundles", name], "old release bundle"⟩ := by
  obtain ⟨protectedReleases, hprotected, h⟩ := Results.bind_eq_ok.mp h
  obtain ⟨bundles, hbundles, h⟩ := Results.bind_eq_ok.mp h
  obtain rfl := Except.ok.inj h
  simp only [hprotected, hbundles, Except.ok.injEq, List.mem_map, List.mem_filter,
    decide_eq_true_eq, List.mem_append, not_or]
  constructor
  · rintro ⟨name, ⟨hname, hkept⟩, rfl⟩
    exact ⟨_, _, rfl, rfl, name, hname, hkept, rfl⟩
  · rintro ⟨_, _, rfl, rfl, name, hname, hkept, rfl⟩
    exact ⟨name, ⟨hname, hkept⟩, rfl⟩

theorem mem_staticCandidates {keep : Nat} {appRoot siteRoot : RuntimePath}
    {found : List Candidate}
    (h : staticCandidates tools fs disk keep appRoot siteRoot = .ok found) {c : Candidate} :
    c ∈ found ↔ ∃ protectedReleases releases current,
      protectedReleaseIds tools fs disk appRoot = .ok protectedReleases ∧
      staticNames fs disk siteRoot = .ok releases ∧
      currentStaticReleaseId fs disk siteRoot (below siteRoot ["releases"]) = .ok current ∧
      ∃ name ∈ releases, (name ∉ protectedReleases ∧ current ≠ some name ∧
          name ∉ lastNames keep releases) ∧
        c = ⟨below siteRoot ["releases", name], "old static release"⟩ := by
  obtain ⟨releases, hreleases, h⟩ := Results.bind_eq_ok.mp h
  obtain ⟨current, hcurrent, h⟩ := Results.bind_eq_ok.mp h
  obtain ⟨protectedReleases, hprotected, h⟩ := Results.bind_eq_ok.mp h
  obtain rfl := Except.ok.inj h
  simp only [hprotected, hreleases, hcurrent, Except.ok.injEq, List.mem_map, List.mem_filter,
    decide_eq_true_eq, List.mem_append, not_or, Option.mem_toList]
  constructor
  · rintro ⟨name, ⟨hname, ⟨hlast, hcurrent⟩, hprotected⟩, rfl⟩
    exact ⟨_, _, _, rfl, rfl, rfl, name, hname, ⟨hprotected, hcurrent, hlast⟩, rfl⟩
  · rintro ⟨_, _, _, rfl, rfl, rfl, name, hname, ⟨hprotected, hcurrent, hlast⟩, rfl⟩
    exact ⟨name, ⟨hname, ⟨hlast, hcurrent⟩, hprotected⟩, rfl⟩

theorem gcPlan_eq_ok {keep : Int} {found : List Candidate}
    (h : gcPlan tools fs disk root keep = .ok found) :
    ∃ bundles statics temporary,
      collect fs disk (fun app => bundleCandidates tools fs disk keep.toNat
        (below root ["apps", app])) (below root ["apps"]) = .ok bundles ∧
      collect fs disk (fun app => staticCandidates tools fs disk keep.toNat
        (below root ["apps", app]) (below root ["static", app])) (below root ["static"]) =
          .ok statics ∧
      temporaryCandidates fs disk (below root ["tmp"]) = .ok temporary ∧
      found = bundles ++ statics ++ temporary := by
  unfold gcPlan at h
  split at h
  · cases h
  · obtain ⟨bundles, hbundles, h⟩ := Results.bind_eq_ok.mp h
    obtain ⟨statics, hstatics, h⟩ := Results.bind_eq_ok.mp h
    obtain ⟨temporary, htemporary, h⟩ := Results.bind_eq_ok.mp h
    exact ⟨bundles, statics, temporary, hbundles, hstatics, htemporary,
      (Except.ok.inj h).symm⟩

theorem collect_isOk_iff {candidates : String → Except FileError (List Candidate)}
    {path : RuntimePath} :
    (∃ found, collect fs disk candidates path = .ok found) ↔
      ∃ names, directoriesIn fs disk path = .ok names ∧
        ∀ name ∈ names, ∃ own, candidates name = .ok own := by
  unfold collect
  simp only [Results.bind_eq_ok]
  constructor
  · rintro ⟨found, names, hnames, lists, hlists, -⟩
    exact ⟨names, hnames, Results.mapM_isOk_iff.mp ⟨lists, hlists⟩⟩
  · rintro ⟨names, hnames, hall⟩
    obtain ⟨lists, hlists⟩ := Results.mapM_isOk_iff.mpr hall
    exact ⟨lists.flatten, names, hnames, lists, hlists, rfl⟩

theorem bundleCandidates_isOk_iff {keep : Nat} {appRoot : RuntimePath} :
    (∃ found, bundleCandidates tools fs disk keep appRoot = .ok found) ↔
      (∃ protectedReleases, protectedReleaseIds tools fs disk appRoot = .ok protectedReleases) ∧
      ∃ bundles, bundleNames fs disk appRoot = .ok bundles := by
  unfold bundleCandidates
  simp only [Results.bind_eq_ok]
  constructor
  · rintro ⟨_, protectedReleases, hprotected, bundles, hbundles, -⟩
    exact ⟨⟨protectedReleases, hprotected⟩, bundles, hbundles⟩
  · rintro ⟨⟨protectedReleases, hprotected⟩, bundles, hbundles⟩
    exact ⟨_, protectedReleases, hprotected, bundles, hbundles, rfl⟩

theorem staticCandidates_isOk_iff {keep : Nat} {appRoot siteRoot : RuntimePath} :
    (∃ found, staticCandidates tools fs disk keep appRoot siteRoot = .ok found) ↔
      (∃ releases, staticNames fs disk siteRoot = .ok releases) ∧
      (∃ current, currentStaticReleaseId fs disk siteRoot (below siteRoot ["releases"]) =
        .ok current) ∧
      ∃ protectedReleases, protectedReleaseIds tools fs disk appRoot = .ok protectedReleases := by
  unfold staticCandidates
  simp only [Results.bind_eq_ok]
  constructor
  · rintro ⟨_, releases, hreleases, current, hcurrent, protectedReleases, hprotected, -⟩
    exact ⟨⟨releases, hreleases⟩, ⟨current, hcurrent⟩, protectedReleases, hprotected⟩
  · rintro ⟨⟨releases, hreleases⟩, ⟨current, hcurrent⟩, protectedReleases, hprotected⟩
    exact ⟨_, releases, hreleases, current, hcurrent, protectedReleases, hprotected, rfl⟩

theorem temporaryCandidates_isOk_iff {path : RuntimePath} :
    (∃ found, temporaryCandidates fs disk path = .ok found) ↔
      (existsAt fs disk path = true → ∃ names, iterdir fs disk path = .ok names) := by
  unfold temporaryCandidates
  split
  · rename_i hexists
    cases hnames : iterdir fs disk path with
    | error e => simp [Except.map, hexists]
    | ok names => simp [Except.map]
  · rename_i hmissing
    simp [hmissing]

/-- A plan is made exactly if all it looks into can be read. -/
theorem gcPlan_isOk_iff {keep : Int} :
    (∃ found, gcPlan tools fs disk root keep = .ok found) ↔
      PlanReadable tools fs disk root keep := by
  constructor
  · rintro ⟨found, h⟩
    have hpositive : 1 ≤ keep := by
      by_contra hlow
      rw [gcPlan, if_pos (by omega)] at h
      cases h
    obtain ⟨bundles, statics, temporary, hbundles, hstatics, htemporary, -⟩ := gcPlan_eq_ok h
    obtain ⟨apps, happs, hall⟩ := collect_isOk_iff.mp ⟨bundles, hbundles⟩
    obtain ⟨sites, hsites, heach⟩ := collect_isOk_iff.mp ⟨statics, hstatics⟩
    exact ⟨hpositive,
      ⟨apps, happs, fun app happ => bundleCandidates_isOk_iff.mp (hall app happ)⟩,
      ⟨sites, hsites, fun site hsite => staticCandidates_isOk_iff.mp (heach site hsite)⟩,
      temporaryCandidates_isOk_iff.mp ⟨temporary, htemporary⟩⟩
  · rintro ⟨hpositive, ⟨apps, happs, hall⟩, ⟨sites, hsites, heach⟩, htemporary⟩
    obtain ⟨bundles, hbundles⟩ := collect_isOk_iff.mpr
      ⟨apps, happs, fun app happ => bundleCandidates_isOk_iff.mpr (hall app happ)⟩
    obtain ⟨statics, hstatics⟩ := collect_isOk_iff.mpr
      ⟨sites, hsites, fun site hsite => staticCandidates_isOk_iff.mpr (heach site hsite)⟩
    obtain ⟨temporary, htemporary⟩ := temporaryCandidates_isOk_iff.mpr htemporary
    rw [gcPlan, if_neg (by omega)]
    exact ⟨bundles ++ statics ++ temporary, Results.bind_ok hbundles <| Results.bind_ok hstatics <|
      Results.bind_ok htemporary rfl⟩

theorem path_of_temporary {path : RuntimePath} {found : List Candidate}
    (h : temporaryCandidates fs disk path = .ok found) {c : Candidate} (hc : c ∈ found) :
    ∃ name, c.path = below path [name] := by
  unfold temporaryCandidates at h
  split at h
  · cases hnames : iterdir fs disk path with
    | error e =>
        rw [hnames] at h
        cases h
    | ok names =>
        rw [hnames] at h
        obtain rfl := Except.ok.inj h
        obtain ⟨name, -, rfl⟩ := List.mem_map.mp hc
        exact ⟨name, rfl⟩
  · obtain rfl := Except.ok.inj h
    cases hc

/-- The paths of a plan, told apart by the name below the root. -/
theorem path_of_bundle {keep : Nat} {bundles : List Candidate}
    (h : collect fs disk (fun app => bundleCandidates tools fs disk keep (below root ["apps", app]))
      (below root ["apps"]) = .ok bundles) {c : Candidate} (hc : c ∈ bundles) :
    ∃ app name, c.path = below root ["apps", app, "release-bundles", name] := by
  obtain ⟨-, -, app, -, own, hown, hc⟩ := (mem_collect h).mp hc
  obtain ⟨-, -, -, -, name, -, -, rfl⟩ := (mem_bundleCandidates hown).mp hc
  exact ⟨app, name, below_below _ _ _⟩

theorem path_of_static {keep : Nat} {statics : List Candidate}
    (h : collect fs disk (fun app => staticCandidates tools fs disk keep (below root ["apps", app])
      (below root ["static", app])) (below root ["static"]) = .ok statics)
    {c : Candidate} (hc : c ∈ statics) :
    ∃ site name, c.path = below root ["static", site, "releases", name] := by
  obtain ⟨-, -, site, -, own, hown, hc⟩ := (mem_collect h).mp hc
  obtain ⟨-, -, -, -, -, -, name, -, -, rfl⟩ := (mem_staticCandidates hown).mp hc
  exact ⟨site, name, below_below _ _ _⟩

theorem siteDirectory_eq (app : Slug) : siteDirectory root app = below root ["static", app.val] := by
  unfold siteDirectory
  rw [safeDockerName_eq_self (PlainName.of_slug app)]

/-- A bundle is a candidate exactly if nothing makes it stay. -/
theorem bundle_listed_iff {keep : Int} {found : List Candidate}
    (h : gcPlan tools fs disk root keep = .ok found) {app : Slug} {id : String} :
    (∃ c ∈ found, c.path = below (appDirectory root app) ["release-bundles", id]) ↔
      ¬ BundleStays tools fs disk root keep.toNat app id := by
  obtain ⟨bundles, statics, temporary, hbundles, hstatics, htemporary, rfl⟩ := gcPlan_eq_ok h
  unfold BundleStays appDirectory
  rw [below_below]
  constructor
  · rintro ⟨c, hc, hpath⟩ hstays
    rcases List.mem_append.mp hc with hc | hc
    · rcases List.mem_append.mp hc with hc | hc
      · obtain ⟨apps, happs, name, hname, own, hown, hc⟩ := (mem_collect hbundles).mp hc
        obtain ⟨protectedReleases, found, hprotected, hfound, id', hid, hkept, rfl⟩ :=
          (mem_bundleCandidates hown).mp hc
        rw [below_below] at hpath
        have hnames := below_injective hpath
        simp only [List.cons_append, List.nil_append, List.cons.injEq, and_true, true_and] at hnames
        obtain ⟨rfl, rfl⟩ := hnames
        exact (hstays apps protectedReleases found happs hname hprotected hfound hid).elim
          hkept.1 hkept.2
      · obtain ⟨site, name, hsite⟩ := path_of_static hstatics hc
        have hnames := below_injective (hsite.symm.trans hpath)
        simp at hnames
    · obtain ⟨name, hname⟩ := path_of_temporary htemporary hc
      rw [below_below] at hname
      have hnames := below_injective (hname.symm.trans hpath)
      simp at hnames
  · intro hgoes
    push Not at hgoes
    obtain ⟨apps, protectedReleases, found, happs, happ, hprotected, hfound, hid, hkept⟩ := hgoes
    obtain ⟨names, hnames, hcollect⟩ := Results.bind_eq_ok.mp hbundles
    obtain rfl := Except.ok.inj (happs.symm.trans hnames)
    obtain ⟨lists, hlists, -⟩ := Results.bind_eq_ok.mp hcollect
    obtain ⟨own, hown⟩ := Results.mapM_isOk_iff.mp ⟨lists, hlists⟩ app.val happ
    refine ⟨⟨below (below root ["apps", app.val]) ["release-bundles", id], "old release bundle"⟩,
      ?_, below_below _ _ _⟩
    refine List.mem_append_left _ (List.mem_append_left _ ((mem_collect hbundles).mpr
      ⟨apps, happs, app.val, happ, own, hown, (mem_bundleCandidates hown).mpr ?_⟩))
    exact ⟨protectedReleases, found, hprotected, hfound, id, hid, hkept, rfl⟩

/-- A static release is one exactly if nothing makes it stay. -/
theorem static_listed_iff {keep : Int} {found : List Candidate}
    (h : gcPlan tools fs disk root keep = .ok found) {app : Slug} {id : String} :
    (∃ c ∈ found, c.path = below (siteDirectory root app) ["releases", id]) ↔
      ¬ StaticStays tools fs disk root keep.toNat app id := by
  obtain ⟨bundles, statics, temporary, hbundles, hstatics, htemporary, rfl⟩ := gcPlan_eq_ok h
  unfold StaticStays appDirectory
  rw [siteDirectory_eq, safeDockerName_eq_self (PlainName.of_slug app), below_below]
  constructor
  · rintro ⟨c, hc, hpath⟩ hstays
    rcases List.mem_append.mp hc with hc | hc
    · rcases List.mem_append.mp hc with hc | hc
      · obtain ⟨app', name, happ⟩ := path_of_bundle hbundles hc
        have hnames := below_injective (happ.symm.trans hpath)
        simp at hnames
      · obtain ⟨sites, hsites, name, hname, own, hown, hc⟩ := (mem_collect hstatics).mp hc
        obtain ⟨protectedReleases, found, current, hprotected, hfound, hcurrent, id', hid, hkept,
          rfl⟩ := (mem_staticCandidates hown).mp hc
        rw [below_below] at hpath
        have hnames := below_injective hpath
        simp only [List.cons_append, List.nil_append, List.cons.injEq, and_true, true_and] at hnames
        obtain ⟨rfl, rfl⟩ := hnames
        rcases hstays sites protectedReleases found current hsites hname hprotected hfound
          (below_below root _ _ ▸ hcurrent) hid with hid | hid | hid
        · exact hkept.1 hid
        · exact hkept.2.1 hid
        · exact hkept.2.2 hid
    · obtain ⟨name, hname⟩ := path_of_temporary htemporary hc
      rw [below_below] at hname
      have hnames := below_injective (hname.symm.trans hpath)
      simp at hnames
  · intro hgoes
    push Not at hgoes
    obtain ⟨sites, protectedReleases, found, current, hsites, hsite, hprotected, hfound, hcurrent,
      hid, hkept⟩ := hgoes
    obtain ⟨names, hnames, hcollect⟩ := Results.bind_eq_ok.mp hstatics
    obtain rfl := Except.ok.inj (hsites.symm.trans hnames)
    obtain ⟨lists, hlists, -⟩ := Results.bind_eq_ok.mp hcollect
    obtain ⟨own, hown⟩ := Results.mapM_isOk_iff.mp ⟨lists, hlists⟩ app.val hsite
    refine ⟨⟨below (below root ["static", app.val]) ["releases", id], "old static release"⟩,
      ?_, below_below _ _ _⟩
    refine List.mem_append_left _ (List.mem_append_right _ ((mem_collect hstatics).mpr
      ⟨sites, hsites, app.val, hsite, own, hown, (mem_staticCandidates hown).mpr ?_⟩))
    exact ⟨protectedReleases, found, current, hprotected, hfound, below_below root _ _ ▸ hcurrent,
      id, hid, hkept, rfl⟩

/-! ### Which releases stay -/

theorem releaseIdFromPath_of_load {path : RuntimePath} {release : Mapping} {id : String}
    (h : loadReleaseJson tools fs disk path = .ok release)
    (hid : textOf release "release_id" = some id) :
    releaseIdFromPath tools fs disk path = .ok (some id) := by
  have hlookup : release.lookup "release_id" = some (.str id) := by
    unfold textOf at hid
    split at hid
    · rename_i s hs
      split at hid
      · cases hid
      · rw [hs, Option.some.inj hid]
    · cases hid
  have hexists : existsAt fs disk path = true := by
    unfold existsAt
    cases htarget : disk.target fs.links path with
    | some node => rfl
    | none =>
        unfold loadReleaseJson at h
        rw [htarget] at h
        obtain rfl := Except.ok.inj h
        cases hlookup
  unfold releaseIdFromPath
  rw [if_pos hexists, h]
  simp only [Except.map, hlookup]

/-- The active and the latest release are protected. -/
theorem mem_protected {app : Slug} {id : String} {protectedReleases : List String}
    (hprotected : protectedReleaseIds tools fs disk (appDirectory root app) =
      .ok protectedReleases)
    (h : (∃ release, activeRelease tools fs disk (appDirectory root app) = .ok release ∧
        textOf release "release_id" = some id) ∨
      latestReleaseId tools fs disk (appDirectory root app) = .ok (some id)) :
    id ∈ protectedReleases := by
  obtain ⟨latest, hlatest, hprotected⟩ := Results.bind_eq_ok.mp hprotected
  obtain ⟨active, hactive, hprotected⟩ := Results.bind_eq_ok.mp hprotected
  obtain rfl := Except.ok.inj hprotected
  have hfirst : ∀ {release : Mapping}, loadReleaseJson tools fs disk
      (below (appDirectory root app) ["release.json"]) = .ok release →
      textOf release "release_id" = some id → id ∈ latest.toList ++ active.toList := by
    intro release hload hid
    obtain rfl := Except.ok.inj (hlatest.symm.trans (releaseIdFromPath_of_load hload hid))
    exact List.mem_append_left _ (List.mem_singleton_self id)
  rcases h with ⟨release, hrelease, hid⟩ | h
  · obtain ⟨current, hcurrent, hrelease⟩ := Results.bind_eq_ok.mp hrelease
    split at hrelease
    · obtain rfl := Except.ok.inj hrelease
      obtain rfl := Except.ok.inj (hactive.symm.trans (releaseIdFromPath_of_load hcurrent hid))
      exact List.mem_append_right _ (List.mem_singleton_self id)
    · obtain ⟨legacy, hlegacy, hrelease⟩ := Results.bind_eq_ok.mp hrelease
      split at hrelease
      · obtain rfl := Except.ok.inj hrelease
        exact hfirst hlegacy hid
      · obtain rfl := Except.ok.inj hrelease
        cases hid
  · unfold latestReleaseId at h
    cases hload : loadReleaseJson tools fs disk (below (appDirectory root app) ["release.json"]) with
    | error e =>
        rw [hload] at h
        cases h
    | ok release =>
        rw [hload] at h
        exact hfirst hload (Except.ok.inj h)

/-- **The rollback window.** No plan lists a release that is to be kept, and nothing else is taken
away, exactly if the release before the active one and the last ones to be deployed have names
that make them stay. -/
theorem gcKeepsWindow_iff (tools : GcTools) (fs : FileSystem) (disk : RuntimeDisk)
    (root : RuntimePath) (keep : Int) :
    GcKeepsWindow tools fs disk root keep ↔
      (PlanReadable tools fs disk root keep → ∀ app id,
        PreviousRelease tools fs disk root app id ∨
          RecentRelease tools fs disk root keep.toNat app id →
        BundleStays tools fs disk root keep.toNat app id ∧
          StaticStays tools fs disk root keep.toNat app id) := by
  constructor
  · intro h hreadable app id hid
    obtain ⟨candidates, hplan⟩ := gcPlan_isOk_iff.mpr hreadable
    have hwindow : InWindow tools fs disk root keep.toNat app id :=
      hid.elim .previous .recent
    have hapart := h.window candidates hplan app id hwindow
    constructor
    · by_contra hgoes
      obtain ⟨c, hc, hpath⟩ := (bundle_listed_iff hplan).mpr hgoes
      exact (hapart c hc).1 hpath
    · by_contra hgoes
      obtain ⟨c, hc, hpath⟩ := (static_listed_iff hplan).mpr hgoes
      exact (hapart c hc).2 hpath
  · intro h
    refine ⟨fun candidates hplan app id hwindow c hc => ?_, fun confirm faults =>
      applyGc_collected tools fs root confirm ⟨disk, faults⟩⟩
    have hprotected : ((∃ release, activeRelease tools fs disk (appDirectory root app) = .ok release ∧
        textOf release "release_id" = some id) ∨
        latestReleaseId tools fs disk (appDirectory root app) = .ok (some id)) →
        BundleStays tools fs disk root keep.toNat app id ∧
          StaticStays tools fs disk root keep.toNat app id := fun hid =>
      ⟨fun _ _ _ _ _ hp _ _ => .inl (mem_protected hp hid),
        fun _ _ _ _ _ _ hp _ _ _ => .inl (mem_protected hp hid)⟩
    have hstays : BundleStays tools fs disk root keep.toNat app id ∧
        StaticStays tools fs disk root keep.toNat app id := by
      cases hwindow with
      | active release hrelease hid => exact hprotected (.inl ⟨release, hrelease, hid⟩)
      | latest hlatest => exact hprotected (.inr hlatest)
      | previous hid => exact h (gcPlan_isOk_iff.mp ⟨candidates, hplan⟩) app id (.inl hid)
      | recent hid => exact h (gcPlan_isOk_iff.mp ⟨candidates, hplan⟩) app id (.inr hid)
    exact ⟨fun hpath => (bundle_listed_iff hplan).mp ⟨c, hc, hpath⟩ hstays.1,
      fun hpath => (static_listed_iff hplan).mp ⟨c, hc, hpath⟩ hstays.2⟩

end Candidates

/-! ### A release that is lost -/

namespace Reference

/-- A record of a release and what came before it. -/
def recordText : List UInt8 :=
  "\x7b\"release_id\": \"a\", \"previous_release_id\": \"b\"\x7d".toUTF8.toList

def gcRecord : Mapping := [("release_id", .str "a"), ("previous_release_id", .str "b")]

def gcTools : GcTools where
  loads content := if content = recordText then .payload (.obj gcRecord) else .invalid
  text _ := ""
  token _ _ := ""

def demo : Slug := ⟨"demo", by decide⟩

def gcSystem : FileSystem := ⟨40, 40, 0o755, 0o644, fun _ => none⟩

def gcRows : List (FileTree.Slot String (List UInt8)) :=
  [⟨["srv"], .directory 0o755⟩, ⟨["srv", "apps"], .directory 0o755⟩,
   ⟨["srv", "apps", "demo"], .directory 0o755⟩,
   ⟨["srv", "apps", "demo", "release.json"], .regular 0o644 recordText⟩,
   ⟨["srv", "apps", "demo", "active_release.json"], .regular 0o644 recordText⟩,
   ⟨["srv", "apps", "demo", "release-bundles"], .directory 0o755⟩,
   ⟨["srv", "apps", "demo", "release-bundles", "d"], .directory 0o755⟩,
   ⟨["srv", "apps", "demo", "release-bundles", "c"], .directory 0o755⟩,
   ⟨["srv", "apps", "demo", "release-bundles", "b"], .directory 0o755⟩,
   ⟨["srv", "apps", "demo", "release-bundles", "a"], .directory 0o755⟩]

/-- Four releases, the first named last. -/
def gcDisk : RuntimeDisk where
  slots := ⟨gcRows, by decide⟩
  closed := List.forall_iff_forall_mem.mp (by decide)

theorem loadReleaseJson_gcDisk {name : String}
    (h : name = "release.json" ∨ name = "active_release.json") :
    loadReleaseJson gcTools gcSystem gcDisk (below (pathOf ["srv", "apps", "demo"]) [name]) =
      .ok gcRecord := by
  have htarget : gcDisk.target gcSystem.links (below (pathOf ["srv", "apps", "demo"]) [name]) =
      some (.regular 0o644 recordText) := by
    rcases h with rfl | rfl <;> rfl
  unfold loadReleaseJson
  rw [htarget]
  simp [gcTools]

theorem protectedReleaseIds_gcDisk :
    protectedReleaseIds gcTools gcSystem gcDisk (pathOf ["srv", "apps", "demo"]) =
      .ok ["a", "a"] := by
  have hid {name : String} (h : name = "release.json" ∨ name = "active_release.json") :
      releaseIdFromPath gcTools gcSystem gcDisk (below (pathOf ["srv", "apps", "demo"]) [name]) =
        .ok (some "a") := releaseIdFromPath_of_load (loadReleaseJson_gcDisk h) rfl
  unfold protectedReleaseIds
  rw [hid (.inl rfl), hid (.inr rfl)]
  rfl

theorem bundleNames_gcDisk :
    bundleNames gcSystem gcDisk (pathOf ["srv", "apps", "demo"]) = .ok ["a", "b", "c", "d"] := rfl

theorem directoriesIn_gcDisk :
    directoriesIn gcSystem gcDisk (below (pathOf ["srv"]) ["apps"]) = .ok ["demo"] := rfl

theorem planReadable_gcDisk : PlanReadable gcTools gcSystem gcDisk (pathOf ["srv"]) 2 where
  positive := by decide
  apps := by
    refine ⟨["demo"], directoriesIn_gcDisk, fun app happ => ?_⟩
    obtain rfl := List.mem_singleton.mp happ
    exact ⟨⟨_, protectedReleaseIds_gcDisk⟩, _, bundleNames_gcDisk⟩
  sites := ⟨[], rfl, fun _ hsite => absurd hsite List.not_mem_nil⟩
  temporary := fun h => absurd h (by decide)

/-- The release before the active one is listed, by its name. -/
theorem previous_not_kept : ¬ ∀ (tools : GcTools) (fs : FileSystem) (disk : RuntimeDisk)
    (root : RuntimePath) (keep : Int), GcKeepsWindow tools fs disk root keep := by
  intro h
  obtain ⟨found, hplan⟩ := gcPlan_isOk_iff.mpr planReadable_gcDisk
  have hprevious : PreviousRelease gcTools gcSystem gcDisk (pathOf ["srv"]) demo "b" := by
    refine ⟨gcRecord, ?_, rfl⟩
    refine Results.bind_ok (loadReleaseJson_gcDisk (.inr rfl)) ?_
    exact if_pos (List.cons_ne_nil _ _)
  have hlisted : ∃ c ∈ found, c.path =
      below (appDirectory (pathOf ["srv"]) demo) ["release-bundles", "b"] := by
    refine (bundle_listed_iff hplan).mpr fun hstays => ?_
    have hkept := hstays _ _ _ directoriesIn_gcDisk (List.mem_singleton_self _)
      protectedReleaseIds_gcDisk bundleNames_gcDisk (by decide)
    exact absurd hkept (by decide)
  obtain ⟨c, hc, hpath⟩ := hlisted
  exact ((h gcTools gcSystem gcDisk (pathOf ["srv"]) 2).window found hplan _ "b"
    (.previous hprevious) c hc).1 hpath

end Reference

end Ophelia.V1
