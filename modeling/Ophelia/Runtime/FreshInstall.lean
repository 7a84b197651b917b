import Ophelia.Lib.Results
import Ophelia.Runtime.DataExport

/-!
# Ophelia.Runtime.FreshInstall

The reset of an application's data (`fresh_install_apply` of `portability.py`). It exports the
application first and then empties the declared sources and removes the named volumes of the
others. The export looks for a volume in more places than the reset, so a named volume can be
removed when something else has been archived under its name. `Recoverable` says when the two
mean the same data; what a reset deletes is then in the archive of its volume
(`destroysOnlyExported`), however the commands turn out and wherever the run breaks off.
-/

namespace Ophelia.V1

open FileTree

/-! ### Reset targets -/

inductive ResetTarget where
  | host_path (name : Slug) (path : Route)
  | docker_volume (name : Slug) (volume : String)

/-- The target of one volume in `_fresh_install_reset_targets`. -/
def resetTarget (machine : Machine) (m : Manifest) (manifestDir : List String)
    (volume : DataVolumeConfig) : Except String ResetTarget :=
  match volume.source with
  | some source => do
      let path ← resolvePackPath machine manifestDir source.val
      return .host_path volume.name path
  | none => .ok (.docker_volume volume.name (dataVolumeName m volume))

/-- How the operations on one target turn out. -/
structure ResetOutcome where
  /-- The directories that `mkdir` makes on the way to a path that is not there. -/
  made : List (List String)
  /-- What is left below the path when a removal fails. -/
  survives : List String → Bool
  inspect : Bool
  remove : Bool
  create : Bool

inductive ResetStatus where
  | reset | blocked | failed
deriving DecidableEq

/-- `mkdir`: directories at places that are free. -/
def Machine.makeDirectories (machine : Machine) (places : List (List String)) : Machine :=
  { machine with
    files := fun place =>
      if (machine.files place).isNone && places.contains place then some (.directory 0o777)
      else machine.files place }

/-- A place strictly inside a directory. -/
def isBelow (dir place : List String) : Bool :=
  dir.isPrefixOf place && place ≠ dir

/-- Remove what stands below a directory. -/
def Machine.clear (machine : Machine) (dir : List String) (survives : List String → Bool) :
    Machine :=
  { machine with
    files := fun place =>
      if isBelow dir place && !survives place then none else machine.files place }

/-- `_unsafe_reset_path`, and the test on the directory of the manifest. -/
def unsafeResetPath (machine : Machine) (manifestDir place : List String) : Bool :=
  place.length < 2 || machine.home "" == some place || place.isPrefixOf manifestDir

/-- `_reset_host_path_target`. -/
def resetHostPath (machine : Machine) (manifestDir : List String) (outcome : ResetOutcome)
    (path : Route) : Machine × ResetStatus :=
  match machine.leads path with
  | none => (machine.makeDirectories outcome.made, .reset)
  | some place =>
      if unsafeResetPath machine manifestDir place then (machine, .blocked)
      else if (machine.lstat path).any FileTree.Node.isLink then (machine, .blocked)
      else if !(machine.files place).any FileTree.Node.isDirectory then (machine, .blocked)
      else (machine.clear place outcome.survives, .reset)

def Machine.setVolume (machine : Machine) (name : String) (content : Option Tree) : Machine :=
  { machine with
    volumes := fun other => if other = name then content else machine.volumes other }

/-- `_reset_docker_volume_target`. To create a volume that is there leaves it as it is. -/
def resetDockerVolume (machine : Machine) (outcome : ResetOutcome) (name : String) :
    Machine × ResetStatus :=
  let found := outcome.inspect && (machine.volumes name).isSome
  if found && !outcome.remove then (machine, .failed)
  else
    let removed := if found then machine.setVolume name none else machine
    if !outcome.create then (removed, .failed)
    else if (removed.volumes name).isSome then (removed, .reset)
    else (removed.setVolume name (some fun _ => none), .reset)

/-- `_reset_fresh_install_target`. -/
def resetOne (machine : Machine) (manifestDir : List String) (outcomes : Slug → ResetOutcome) :
    ResetTarget → Machine × ResetStatus
  | .host_path name path => resetHostPath machine manifestDir (outcomes name) path
  | .docker_volume name volume => resetDockerVolume machine (outcomes name) volume

structure ResetStep where
  target : ResetTarget
  status : ResetStatus
  before : Machine
  after : Machine

def resetAll (manifestDir : List String) (outcomes : Slug → ResetOutcome) :
    List ResetTarget → Machine → List ResetStep
  | [], _ => []
  | target :: rest, machine =>
      let (after, status) := resetOne machine manifestDir outcomes target
      ⟨target, status, machine, after⟩ :: resetAll manifestDir outcomes rest after

/-! ### The export before the reset -/

/-- Where the archive file of a volume stands. -/
def archivePlace (bundle : List String) (volume : DataVolumeConfig) : List String :=
  bundle ++ ["data", "volumes", safeArtifactName volume.name.val ++ ".tar"]

/-- What an export that succeeded has put on the machine: entries under names that were free, the
archives among them. -/
structure ExportFiles (machine : Machine) (m : Manifest) (appRoot : List String) where
  view : Files
  bundle : List String
  fresh : ∀ place node, view place = some node → machine.files place = none
  stored : ∀ volume ∈ m.data.volumes, ∃ mode content,
    view (archivePlace bundle volume) = some (.regular mode content)

/-- The machine after the export. -/
def ExportFiles.machine {machine : Machine} {m : Manifest} {appRoot : List String}
    (written : ExportFiles machine m appRoot) : Machine :=
  { machine with files := fun place => (machine.files place).or (written.view place) }

structure FreshInstallReport where
  archives : Archives
  steps : List ResetStep

section

variable (machine : Machine) (m : Manifest) (manifestDir appRoot : List String)

/-- How a call turns out: the blockers of its plan, its export, and its resets, of which the call
gets through the first few. -/
structure FreshInstallOutcome where
  blocked : Bool
  exportBlocked : Bool
  others : Bool
  archiving : Slug → ArchiveOutcome
  written : ExportFiles machine m appRoot
  resetting : Slug → ResetOutcome
  completed : Nat

/-- `fresh_install_apply` with the export before the reset. -/
def freshInstallApply (outcome : FreshInstallOutcome machine m appRoot) :
    Except String FreshInstallReport :=
  if outcome.blocked then .ok ⟨fun _ => none, []⟩
  else do
    let pre_reset_export ← exportCreate machine m manifestDir appRoot outcome.exportBlocked
      outcome.others outcome.archiving
    if pre_reset_export.status ≠ .succeeded then .ok ⟨pre_reset_export.archives, []⟩
    else do
      let targets ← m.data.volumes.mapM (resetTarget machine m manifestDir)
      return ⟨pre_reset_export.archives,
        resetAll manifestDir outcome.resetting (targets.take outcome.completed)
          outcome.written.machine⟩

end

/-! ### What a reset may delete -/

section

variable (machine : Machine) (m : Manifest) (manifestDir appRoot : List String)

/-- The entry at a place is in the archive of a volume that was made from its own reset target. -/
def FileArchived (archives : Archives) (place : List String) (node : FileTree.Node String (List UInt8)) :
    Prop :=
  ∃ volume ∈ m.data.volumes, ∃ path target rel archive,
    resetTarget machine m manifestDir volume = .ok (.host_path volume.name path) ∧
      machine.leads path = some target ∧ place = target ++ rel ∧ rel ≠ [] ∧
      archives (artifactFile volume) = some archive ∧
      Holds archive.content machine.files target ∧ archive.content rel = some node

/-- The content of a named volume is that of the archive of the volume it belongs to. -/
def VolumeArchived (archives : Archives) (name : String) (content : Tree) : Prop :=
  ∃ volume ∈ m.data.volumes, ∃ archive,
    resetTarget machine m manifestDir volume = .ok (.docker_volume volume.name name) ∧
      archives (artifactFile volume) = some archive ∧ archive.content = content

/-- Everything that a run deletes is archived, and the archives stay. -/
def DestroysOnlyExported (written : ExportFiles machine m appRoot) (report : FreshInstallReport) :
    Prop :=
  ∀ step ∈ report.steps,
    (∀ place node, step.before.files place = some node → node.isDirectory = false →
      step.after.files place ≠ some node →
        FileArchived machine m manifestDir report.archives place node) ∧
    (∀ name content, step.before.volumes name = some content →
      step.after.volumes name ≠ some content →
        VolumeArchived machine m manifestDir report.archives name content) ∧
    ∀ volume ∈ m.data.volumes, ∃ mode content,
      step.after.files (archivePlace written.bundle volume) = some (.regular mode content)

/-- Nothing, or a directory. -/
def isBare (node : Option (FileTree.Node String (List UInt8))) : Bool :=
  node.all FileTree.Node.isDirectory

/-- A place that is below the target of a volume, if the safety guard lets the target pass. -/
def Cleared (place : List String) : Prop :=
  ∃ volume ∈ m.data.volumes, ∃ path target,
    resetTarget machine m manifestDir volume = .ok (.host_path volume.name path) ∧
      machine.leads path = some target ∧ unsafeResetPath machine manifestDir target = false ∧
      isBelow target place = true

/-- What resets make of a file system: entries below the targets may be gone, and directories may
come and go. -/
def Remains (start files : Files) : Prop :=
  ∀ place, files place = start place ∨
    isBare (files place) = true ∧
      (isBare (start place) = true ∨ Cleared machine m manifestDir place)

/-- The export and the reset mean the same data. For a volume without a source, the export finds
no host path. The source of another volume leads to the place that it led to at the export, and
the export has put nothing below that, or to nothing but directories, whatever has been reset
before, unless it leads to a place that the safety guard refuses to reset. -/
def Recoverable (written : ExportFiles machine m appRoot) (volume : DataVolumeConfig) : Prop :=
  match resetTarget machine m manifestDir volume with
  | .error _ => True
  | .ok (.docker_volume _ _) => volumeSource machine manifestDir appRoot volume = .ok none
  | .ok (.host_path _ path) =>
      ∀ files, Remains machine m manifestDir written.machine.files files →
        ∀ place, Machine.leads { machine with files := files } path = some place →
          unsafeResetPath machine manifestDir place = false →
            machine.leads path = some place ∧
                (∀ below, isBelow place below = true → written.view below = none) ∨
              ∀ below, isBelow place below = true → isBare (files below) = true

end

/-! ### What a step keeps -/

section

variable {machine : Machine} {m : Manifest} {manifestDir appRoot : List String}
  {start files : Files}

theorem isBelow_iff {dir place : List String} :
    isBelow dir place = true ↔ ∃ rel, rel ≠ [] ∧ place = dir ++ rel := by
  simp only [isBelow, Bool.and_eq_true, List.isPrefixOf_iff_prefix, decide_eq_true_eq]
  constructor
  · intro ⟨⟨rel, hrel⟩, hne⟩
    refine ⟨rel, ?_, hrel.symm⟩
    intro hnil
    rw [hnil, List.append_nil] at hrel
    exact hne hrel.symm
  · intro ⟨rel, hne, heq⟩
    refine ⟨⟨rel, heq.symm⟩, ?_⟩
    intro hself
    rw [hself] at heq
    exact hne (by simpa using heq)

theorem Remains.refl : Remains machine m manifestDir start start :=
  fun _ => Or.inl rfl

/-- A file that is still there is the one that was there at the start. -/
theorem Remains.of_file (h : Remains machine m manifestDir start files) {place : List String}
    {node : FileTree.Node String (List UInt8)} (hnode : files place = some node)
    (hfile : node.isDirectory = false) : start place = some node := by
  rcases h place with heq | ⟨hbare, -⟩
  · rw [← heq, hnode]
  · rw [hnode] at hbare
    simp only [isBare, Option.all_some, hfile] at hbare
    cases hbare

theorem Remains.bare (h : Remains machine m manifestDir start files) {place : List String}
    (hbare : isBare (files place) = true) :
    isBare (start place) = true ∨ Cleared machine m manifestDir place := by
  rcases h place with heq | ⟨-, hstart⟩
  · exact Or.inl (heq ▸ hbare)
  · exact hstart

theorem Remains.makeDirectories {current : Machine}
    (h : Remains machine m manifestDir start current.files) (places : List (List String)) :
    Remains machine m manifestDir start (current.makeDirectories places).files := by
  intro place
  unfold Machine.makeDirectories
  dsimp only
  split
  · rename_i hmade
    have hnone : current.files place = none := by
      rw [Bool.and_eq_true, Option.isNone_iff_eq_none] at hmade
      exact hmade.1
    exact Or.inr ⟨rfl, h.bare (by rw [hnone]; rfl)⟩
  · exact h place

/-- To clear a target, or a directory with nothing but directories in it. -/
theorem Remains.clear {current : Machine}
    (h : Remains machine m manifestDir start current.files) {dir : List String}
    (hdir : ∀ place, isBelow dir place = true →
      isBare (current.files place) = true ∨ Cleared machine m manifestDir place)
    (survives : List String → Bool) :
    Remains machine m manifestDir start (current.clear dir survives).files := by
  intro place
  unfold Machine.clear
  dsimp only
  split
  · rename_i hcut
    refine Or.inr ⟨rfl, ?_⟩
    rcases hdir place (Bool.and_eq_true _ _ |>.mp hcut).1 with hbare | hcleared
    · exact h.bare hbare
    · exact Or.inr hcleared
  · exact h place

end

/-! ### A machine with a file system -/

/-- A machine whose files are those of a file system: whatever stands, stands in a directory. -/
structure Host where
  disk : Disk String (List UInt8)
  volumes : String → Option Tree
  home : String → Option (List String)
  links : Nat

def Host.machine (host : Host) : Machine :=
  ⟨host.disk.view, host.volumes, host.home, host.links⟩

/-- Nothing stands below a file. -/
theorem Host.directory_of_below (host : Host) {place rel : List String}
    {node : FileTree.Node String (List UInt8)} (h : host.machine.files (place ++ rel) = some node)
    (hrel : rel ≠ []) :
    (host.machine.files place).any FileTree.Node.isDirectory = true := by
  by_cases hroot : place = []
  · rw [hroot]
    rfl
  · have hopened := Disk.opened_of_view h
    have hpre : place <+: (place ++ rel).dropLast :=
      prefix_dropLast_of_ne (List.prefix_append _ _) (by simpa using hrel)
    obtain ⟨mode, hmode⟩ := hopened place hpre hroot
    have hfiles : host.machine.files place = some (.directory mode) := hmode
    rw [hfiles]
    rfl

/-! ### What the export has of a target -/

section

variable {machine : Machine} {m : Manifest} {manifestDir appRoot : List String}
  {volume : DataVolumeConfig}

theorem resetTarget_host {name : Slug} {path : Route}
    (h : resetTarget machine m manifestDir volume = .ok (.host_path name path)) :
    name = volume.name ∧ ∃ source, volume.source = some source ∧
      resolvePackPath machine manifestDir source.val = .ok path := by
  unfold resetTarget at h
  cases hsource : volume.source with
  | none =>
      rw [hsource] at h
      cases h
  | some source =>
      rw [hsource] at h
      dsimp only at h
      cases hpath : resolvePackPath machine manifestDir source.val with
      | error _ =>
          rw [hpath] at h
          cases h
      | ok path' =>
          rw [hpath] at h
          cases h
          exact ⟨rfl, source, rfl, hpath⟩

theorem resetTarget_docker {name : Slug} {target : String}
    (h : resetTarget machine m manifestDir volume = .ok (.docker_volume name target)) :
    name = volume.name ∧ target = dataVolumeName m volume ∧ volume.source = none := by
  unfold resetTarget at h
  cases hsource : volume.source with
  | none =>
      rw [hsource] at h
      cases h
      exact ⟨rfl, rfl, rfl⟩
  | some source =>
      rw [hsource] at h
      dsimp only at h
      cases hpath : resolvePackPath machine manifestDir source.val with
      | error _ =>
          rw [hpath] at h
          cases h
      | ok path' =>
          rw [hpath] at h
          cases h

/-- A declared source that exists is what the export takes. -/
theorem volumeSource_declared {name : Slug} {path : Route} {place : List String}
    {found : Option (Route × List String)}
    (htarget : resetTarget machine m manifestDir volume = .ok (.host_path name path))
    (hleads : machine.leads path = some place)
    (h : volumeSource machine manifestDir appRoot volume = .ok found) :
    found = some (path, place) := by
  obtain ⟨-, source, hsource, hpath⟩ := resetTarget_host htarget
  unfold volumeSource volumeCandidates rawSources at h
  rw [hsource] at h
  simp only [Option.toList_some, List.map_cons, List.map_nil, List.singleton_append,
    List.mapM_cons, hpath, bind, Except.bind] at h
  split at h
  · cases h
  · rename_i candidates hcandidates
    split at hcandidates
    · cases hcandidates
    · rename_i declared hdeclared
      split at hdeclared
      · cases hdeclared
      · cases hdeclared
        cases hcandidates
        cases h
        simp [firstExisting, hleads]

/-- The archive of a volume whose source exists. -/
theorem archives_declared {blocked others : Bool} {outcomes : Slug → ArchiveOutcome}
    {report : ExportReport} (haccepted : m.Accepted)
    (h : exportCreate machine m manifestDir appRoot blocked others outcomes = .ok report)
    (hstatus : report.status = .succeeded) (hmem : volume ∈ m.data.volumes) {name : Slug}
    {path : Route} {place : List String}
    (htarget : resetTarget machine m manifestDir volume = .ok (.host_path name path))
    (hleads : machine.leads path = some place) :
    report.archives (artifactFile volume) =
      some ⟨.host place, tarContent machine path place⟩ := by
  rcases exportCreate_archived haccepted h hstatus hmem with
    ⟨route, place', hsource, harchive⟩ | ⟨content, hsource, -, -⟩
  · cases volumeSource_declared htarget hleads hsource
    exact harchive
  · cases volumeSource_declared htarget hleads hsource

/-- The archive of a volume for which no host path is found. -/
theorem archives_docker {blocked others : Bool} {outcomes : Slug → ArchiveOutcome}
    {report : ExportReport} (haccepted : m.Accepted)
    (h : exportCreate machine m manifestDir appRoot blocked others outcomes = .ok report)
    (hstatus : report.status = .succeeded) (hmem : volume ∈ m.data.volumes)
    (hnone : volumeSource machine manifestDir appRoot volume = .ok none) :
    ∃ content, machine.volumes (dataVolumeName m volume) = some content ∧
      report.archives (artifactFile volume) =
        some ⟨.docker (dataVolumeName m volume), content⟩ := by
  rcases exportCreate_archived haccepted h hstatus hmem with
    ⟨route, place', hsource, -⟩ | ⟨content, -, hvolume, harchive⟩
  · cases hsource.symm.trans hnone
  · exact ⟨content, hvolume, harchive⟩

end

/-! ### One reset -/

/-- What the resets so far have left of the machine, for the volumes that are still to come. -/
structure Untouched (machine : Machine) (m : Manifest) (manifestDir : List String) (start : Files)
    (rest : List DataVolumeConfig) (current : Machine) : Prop where
  files : Remains machine m manifestDir start current.files
  home : current.home = machine.home
  links : current.links = machine.links
  volumes : ∀ volume ∈ rest, current.volumes (dataVolumeName m volume) =
    machine.volumes (dataVolumeName m volume)

/-- A reset changes one named volume at most. -/
theorem resetDockerVolume_other {machine : Machine} {outcome : ResetOutcome} {name other : String}
    (hne : other ≠ name) :
    (resetDockerVolume machine outcome name).1.volumes other = machine.volumes other := by
  unfold resetDockerVolume Machine.setVolume
  dsimp only
  split
  · rfl
  · split
    · split <;> simp [hne]
    · split
      · split <;> simp [hne]
      · split <;> simp [hne]

theorem resetDockerVolume_files (machine : Machine) (outcome : ResetOutcome) (name : String) :
    (resetDockerVolume machine outcome name).1.files = machine.files ∧
      (resetDockerVolume machine outcome name).1.home = machine.home ∧
      (resetDockerVolume machine outcome name).1.links = machine.links := by
  unfold resetDockerVolume Machine.setVolume
  dsimp only
  split
  · exact ⟨rfl, rfl, rfl⟩
  · split
    · split <;> exact ⟨rfl, rfl, rfl⟩
    · split
      · split <;> exact ⟨rfl, rfl, rfl⟩
      · split <;> exact ⟨rfl, rfl, rfl⟩

/-- A reset of a host path clears the directory it leads to, or makes directories. -/
theorem resetHostPath_cases (machine : Machine) (manifestDir : List String)
    (outcome : ResetOutcome) (path : Route) :
    (resetHostPath machine manifestDir outcome path).1 = machine ∨
      (resetHostPath machine manifestDir outcome path).1 = machine.makeDirectories outcome.made ∨
      ∃ place, machine.leads path = some place ∧
        unsafeResetPath machine manifestDir place = false ∧
        (resetHostPath machine manifestDir outcome path).1 =
          machine.clear place outcome.survives := by
  unfold resetHostPath
  cases hleads : machine.leads path with
  | none => exact Or.inr (Or.inl rfl)
  | some place =>
      dsimp only
      split
      · exact Or.inl rfl
      · rename_i hsafe
        split
        · exact Or.inl rfl
        · split
          · exact Or.inl rfl
          · exact Or.inr (Or.inr ⟨place, rfl, by simpa using hsafe, rfl⟩)

/-! ### A whole run -/

section

variable {host : Host} {m : Manifest} {manifestDir appRoot : List String}

/-- What an export that succeeded says of every volume. -/
structure ArchivesAll (machine : Machine) (m : Manifest) (manifestDir appRoot : List String)
    (archives : Archives) : Prop where
  declared : ∀ volume ∈ m.data.volumes, ∀ name path place,
    resetTarget machine m manifestDir volume = .ok (.host_path name path) →
      machine.leads path = some place →
        archives (artifactFile volume) = some ⟨.host place, tarContent machine path place⟩
  docker : ∀ volume ∈ m.data.volumes,
    volumeSource machine manifestDir appRoot volume = .ok none →
      ∃ content, machine.volumes (dataVolumeName m volume) = some content ∧
        archives (artifactFile volume) = some ⟨.docker (dataVolumeName m volume), content⟩

variable {written : ExportFiles host.machine m appRoot}

theorem written_of_fresh {place : List String} {node : FileTree.Node String (List UInt8)}
    (h : written.view place = some node) : written.machine.files place = some node := by
  change (host.machine.files place).or (written.view place) = some node
  rw [written.fresh place node h, h]
  rfl

/-- A place is a target at the export; it is one after the export too. -/
theorem leads_written {path : Route} {place : List String}
    (h : host.machine.leads path = some place) : written.machine.leads path = some place := by
  have hgrow : ∀ place node, host.machine.files place = some node →
      written.machine.files place = some node := by
    intro place node hnode
    change (host.machine.files place).or (written.view place) = some node
    rw [hnode]
    rfl
  unfold Machine.leads at h ⊢
  split at h
  · rename_i found hresolve
    split at h
    · rename_i hsome
      cases h
      have hresolve' : resolve written.machine.files written.machine.links path.start path.steps =
          .ok place := resolve_mono hgrow hresolve
      obtain ⟨node, hnode⟩ := Option.isSome_iff_exists.mp hsome
      rw [hresolve']
      dsimp only
      rw [hgrow place node hnode]
      rfl
    · cases h
  · cases h

/-- The archive files are below no target. -/
theorem not_cleared_archive (hrecover : ∀ volume ∈ m.data.volumes,
      Recoverable host.machine m manifestDir appRoot written volume)
    {volume : DataVolumeConfig} (hmem : volume ∈ m.data.volumes) :
    ¬ Cleared host.machine m manifestDir (archivePlace written.bundle volume) := by
  intro ⟨other, hother, path, target, htarget, hleads, hsafe, hbelow⟩
  obtain ⟨mode, content, hstored⟩ := written.stored volume hmem
  have hrec := hrecover other hother
  unfold Recoverable at hrec
  rw [htarget] at hrec
  rcases hrec written.machine.files Remains.refl target (leads_written hleads) hsafe with
    ⟨-, hnone⟩ | hbare
  · rw [hnone _ hbelow] at hstored
    cases hstored
  · have hfile := hbare _ hbelow
    rw [written_of_fresh hstored] at hfile
    cases hfile

/-- The archive files stay as long as only targets and directories are cleared. -/
theorem archive_stays (hrecover : ∀ volume ∈ m.data.volumes,
      Recoverable host.machine m manifestDir appRoot written volume)
    {files : Files} (h : Remains host.machine m manifestDir written.machine.files files)
    {volume : DataVolumeConfig} (hmem : volume ∈ m.data.volumes) :
    ∃ mode content, files (archivePlace written.bundle volume) = some (.regular mode content) := by
  obtain ⟨mode, content, hstored⟩ := written.stored volume hmem
  have hstart := written_of_fresh hstored
  refine ⟨mode, content, ?_⟩
  rcases h (archivePlace written.bundle volume) with heq | ⟨-, hbare | hcleared⟩
  · rw [heq, hstart]
  · rw [hstart] at hbare
    cases hbare
  · exact absurd hcleared (not_cleared_archive hrecover hmem)

/-- A target that is cleared leads where it led at the export, or holds directories only. -/
theorem cleared_or_bare {current : Machine} {rest : List DataVolumeConfig}
    (h : Untouched host.machine m manifestDir written.machine.files rest current)
    {volume : DataVolumeConfig}
    (hrec : Recoverable host.machine m manifestDir appRoot written volume) {name : Slug}
    {path : Route} {place : List String}
    (htarget : resetTarget host.machine m manifestDir volume = .ok (.host_path name path))
    (hleads : current.leads path = some place)
    (hsafe : unsafeResetPath host.machine manifestDir place = false) :
    host.machine.leads path = some place ∧
        (∀ below, isBelow place below = true → written.view below = none) ∨
      ∀ below, isBelow place below = true → isBare (current.files below) = true := by
  unfold Recoverable at hrec
  rw [htarget] at hrec
  refine hrec current.files h.files place ?_ hsafe
  rw [← hleads]
  unfold Machine.leads
  rw [h.links]

/-- What is cleared below a place that the export took is in its archive. -/
theorem fileArchived_of_cleared {archives : Archives}
    (harchives : ArchivesAll host.machine m manifestDir appRoot archives)
    {volume : DataVolumeConfig} (hmem : volume ∈ m.data.volumes) {path : Route}
    (htarget : resetTarget host.machine m manifestDir volume = .ok (.host_path volume.name path))
    {target place : List String} {node : FileTree.Node String (List UInt8)} {files : Files}
    (hleads : host.machine.leads path = some target)
    (hnone : ∀ below, isBelow target below = true → written.view below = none)
    (h : Remains host.machine m manifestDir written.machine.files files)
    (hnode : files place = some node) (hfile : node.isDirectory = false)
    (hbelow : isBelow target place = true) :
    FileArchived host.machine m manifestDir archives place node := by
  obtain ⟨rel, hrel, rfl⟩ := isBelow_iff.mp hbelow
  -- the file was there before the export
  have hstart : (host.machine.files (target ++ rel)).or (written.view (target ++ rel)) =
      some node := h.of_file hnode hfile
  rw [hnone _ hbelow, Option.or_none] at hstart
  have hdir := host.directory_of_below hstart hrel
  have hholds : Holds (tarContent host.machine path target) host.machine.files target :=
    (holds_tarContent_iff hleads).mpr (Or.inl hdir)
  refine ⟨volume, hmem, path, target, rel, _, htarget, hleads, rfl, hrel,
    harchives.declared volume hmem _ _ _ htarget hleads, hholds, ?_⟩
  obtain ⟨mode, hmode⟩ := any_isDirectory.mp hdir
  unfold Holds at hholds
  rw [hmode] at hholds
  have hcontent : tarContent host.machine path target rel =
      if rel = [] then none else host.machine.files (target ++ rel) := hholds rel
  change tarContent host.machine path target rel = some node
  rw [hcontent, if_neg hrel, hstart]

/-- One reset of a host path: what it deletes is archived, and the others are left as they
were. -/
theorem resetHostPath_spec {archives : Archives}
    (harchives : ArchivesAll host.machine m manifestDir appRoot archives)
    {volume : DataVolumeConfig} {rest : List DataVolumeConfig} (hmem : volume ∈ m.data.volumes)
    (hrec : Recoverable host.machine m manifestDir appRoot written volume) {path : Route}
    (htarget : resetTarget host.machine m manifestDir volume = .ok (.host_path volume.name path))
    {current : Machine}
    (h : Untouched host.machine m manifestDir written.machine.files (volume :: rest) current)
    (outcome : ResetOutcome) :
    Untouched host.machine m manifestDir written.machine.files rest
        (resetHostPath current manifestDir outcome path).1 ∧
      (∀ place node, current.files place = some node → node.isDirectory = false →
        (resetHostPath current manifestDir outcome path).1.files place ≠ some node →
          FileArchived host.machine m manifestDir archives place node) ∧
      (resetHostPath current manifestDir outcome path).1.volumes = current.volumes := by
  have hrest : ∀ other ∈ rest, current.volumes (dataVolumeName m other) =
      host.machine.volumes (dataVolumeName m other) := fun other hother =>
    h.volumes other (List.mem_cons_of_mem _ hother)
  rcases resetHostPath_cases current manifestDir outcome path with
    heq | heq | ⟨place, hleads, hguard, heq⟩
  · rw [heq]
    exact ⟨⟨h.files, h.home, h.links, hrest⟩, fun place node hnode _ hgone => absurd hnode hgone,
      rfl⟩
  · rw [heq]
    refine ⟨⟨h.files.makeDirectories outcome.made, h.home, h.links, hrest⟩,
      fun place node hnode _ hgone => absurd ?_ hgone, rfl⟩
    unfold Machine.makeDirectories
    dsimp only
    rw [hnode]
    rfl
  · rw [heq]
    have hsafe : unsafeResetPath host.machine manifestDir place = false := by
      unfold unsafeResetPath at hguard ⊢
      rwa [← h.home]
    have hwhere := cleared_or_bare h hrec htarget hleads hsafe
    have hdir : ∀ below, isBelow place below = true →
        isBare (current.files below) = true ∨ Cleared host.machine m manifestDir below := by
      intro below hbelow
      rcases hwhere with ⟨horigin, -⟩ | hbare
      · exact Or.inr ⟨volume, hmem, path, place, htarget, horigin, hsafe, hbelow⟩
      · exact Or.inl (hbare below hbelow)
    refine ⟨⟨h.files.clear hdir outcome.survives, h.home, h.links, hrest⟩,
      fun gone node hnode hfile hgone => ?_, rfl⟩
    have hbelow : isBelow place gone = true := by
      by_contra hout
      refine hgone ?_
      unfold Machine.clear
      dsimp only
      rw [if_neg (by simp [hout])]
      exact hnode
    rcases hwhere with ⟨horigin, hnone⟩ | hbare
    · exact fileArchived_of_cleared harchives hmem htarget horigin hnone h.files hnode hfile hbelow
    · have hbad := hbare gone hbelow
      rw [hnode] at hbad
      simp only [isBare, Option.all_some, hfile] at hbad
      cases hbad

/-- One reset of a named volume: it removes what has been archived. -/
theorem resetDockerVolume_spec {archives : Archives}
    (harchives : ArchivesAll host.machine m manifestDir appRoot archives)
    {volume : DataVolumeConfig} {rest : List DataVolumeConfig} (hmem : volume ∈ m.data.volumes)
    (hfresh : volume.name ∉ rest.map (·.name))
    (hrec : Recoverable host.machine m manifestDir appRoot written volume)
    (htarget : resetTarget host.machine m manifestDir volume =
      .ok (.docker_volume volume.name (dataVolumeName m volume)))
    {current : Machine}
    (h : Untouched host.machine m manifestDir written.machine.files (volume :: rest) current)
    (outcome : ResetOutcome) :
    Untouched host.machine m manifestDir written.machine.files rest
        (resetDockerVolume current outcome (dataVolumeName m volume)).1 ∧
      ∀ name content, current.volumes name = some content →
        (resetDockerVolume current outcome (dataVolumeName m volume)).1.volumes name ≠
            some content →
          VolumeArchived host.machine m manifestDir archives name content := by
  obtain ⟨hfiles, hhome, hlinks⟩ :=
    resetDockerVolume_files current outcome (dataVolumeName m volume)
  refine ⟨⟨by rw [hfiles]; exact h.files, hhome.trans h.home, hlinks.trans h.links,
    fun other hother => ?_⟩, fun name content hcontent hgone => ?_⟩
  · rw [resetDockerVolume_other]
    · exact h.volumes other (List.mem_cons_of_mem _ hother)
    · intro heq
      rw [dataVolumeName_eq, dataVolumeName_eq, String.append_right_inj] at heq
      exact hfresh (Refined.ext heq ▸ List.mem_map_of_mem (f := (·.name)) hother)
  · have hname : name = dataVolumeName m volume := by
      by_contra hne
      exact hgone ((resetDockerVolume_other hne).trans hcontent)
    unfold Recoverable at hrec
    rw [htarget] at hrec
    obtain ⟨exported, hexported, harchive⟩ := harchives.docker volume hmem hrec
    have hsame := h.volumes volume List.mem_cons_self
    rw [← hname] at hsame hexported harchive htarget
    rw [hcontent, hexported] at hsame
    exact ⟨volume, hmem, _, htarget, harchive, (Option.some.inj hsame).symm⟩

/-- One reset: what it deletes is archived, and the others are left as they were. -/
theorem resetOne_spec {archives : Archives}
    (harchives : ArchivesAll host.machine m manifestDir appRoot archives)
    (hrecover : ∀ volume ∈ m.data.volumes,
      Recoverable host.machine m manifestDir appRoot written volume)
    {volume : DataVolumeConfig} {rest : List DataVolumeConfig} (hmem : volume ∈ m.data.volumes)
    (hfresh : volume.name ∉ rest.map (·.name)) {current : Machine} {target : ResetTarget}
    (htarget : resetTarget host.machine m manifestDir volume = .ok target)
    (h : Untouched host.machine m manifestDir written.machine.files (volume :: rest) current)
    (outcomes : Slug → ResetOutcome) :
    Untouched host.machine m manifestDir written.machine.files rest
        (resetOne current manifestDir outcomes target).1 ∧
      (∀ place node, current.files place = some node → node.isDirectory = false →
        (resetOne current manifestDir outcomes target).1.files place ≠ some node →
          FileArchived host.machine m manifestDir archives place node) ∧
      (∀ name content, current.volumes name = some content →
        (resetOne current manifestDir outcomes target).1.volumes name ≠ some content →
          VolumeArchived host.machine m manifestDir archives name content) := by
  cases target with
  | host_path name path =>
      obtain ⟨rfl, -⟩ := resetTarget_host htarget
      obtain ⟨hafter, hfiles, hvolumes⟩ := resetHostPath_spec harchives hmem
        (hrecover volume hmem) htarget h (outcomes volume.name)
      refine ⟨hafter, hfiles, fun name content hcontent hgone => absurd ?_ hgone⟩
      exact (congrFun hvolumes name).trans hcontent
  | docker_volume name target =>
      obtain ⟨rfl, rfl, -⟩ := resetTarget_docker htarget
      obtain ⟨hafter, hvolumes⟩ := resetDockerVolume_spec harchives hmem hfresh
        (hrecover volume hmem) htarget h (outcomes volume.name)
      refine ⟨hafter, fun place node hnode _ hgone => absurd ?_ hgone, hvolumes⟩
      exact (congrFun (resetDockerVolume_files _ _ _).1 place).trans hnode

/-- Every step of the resets deletes archived data only. -/
theorem resetAll_spec {archives : Archives}
    (harchives : ArchivesAll host.machine m manifestDir appRoot archives)
    (hrecover : ∀ volume ∈ m.data.volumes,
      Recoverable host.machine m manifestDir appRoot written volume)
    (outcomes : Slug → ResetOutcome) {volumes : List DataVolumeConfig}
    {targets : List ResetTarget} (hsub : ∀ volume ∈ volumes, volume ∈ m.data.volumes)
    (hnodup : (volumes.map (·.name)).Nodup)
    (htargets : List.Forall₂ (fun volume target =>
      resetTarget host.machine m manifestDir volume = .ok target) volumes targets)
    {current : Machine}
    (h : Untouched host.machine m manifestDir written.machine.files volumes current) :
    DestroysOnlyExported host.machine m manifestDir appRoot written
      ⟨archives, resetAll manifestDir outcomes targets current⟩ := by
  induction htargets generalizing current with
  | nil =>
      intro step hstep
      cases hstep
  | cons htarget _ ih =>
      rw [List.map_cons, List.nodup_cons] at hnodup
      obtain ⟨hafter, hfiles, hvolumes⟩ := resetOne_spec harchives hrecover
        (hsub _ List.mem_cons_self) hnodup.1 htarget h outcomes
      intro step hstep
      rcases List.mem_cons.mp hstep with rfl | hstep
      · exact ⟨hfiles, hvolumes, fun other hother => archive_stays hrecover hafter.files hother⟩
      · exact ih (fun other hother => hsub other (List.mem_cons_of_mem _ hother)) hnodup.2 hafter
          step hstep

/-- A fresh install deletes nothing but what it has exported, when the export and the reset mean
the same data. -/
theorem destroysOnlyExported {outcome : FreshInstallOutcome host.machine m appRoot}
    {report : FreshInstallReport} (haccepted : m.Accepted)
    (h : freshInstallApply host.machine m manifestDir appRoot outcome = .ok report)
    (hrecover : ∀ volume ∈ m.data.volumes,
      Recoverable host.machine m manifestDir appRoot outcome.written volume) :
    DestroysOnlyExported host.machine m manifestDir appRoot outcome.written report := by
  unfold freshInstallApply at h
  split at h
  · cases h
    intro step hstep
    cases hstep
  · cases hexport : exportCreate host.machine m manifestDir appRoot outcome.exportBlocked
      outcome.others outcome.archiving with
    | error _ =>
        rw [hexport] at h
        cases h
    | ok exported =>
        rw [hexport] at h
        simp only [bind, Except.bind] at h
        split at h
        · cases h
          intro step hstep
          cases hstep
        · rename_i hstatus
          rw [ne_eq, not_not] at hstatus
          split at h
          · cases h
          · rename_i targets htargets
            cases h
            have harchives : ArchivesAll host.machine m manifestDir appRoot exported.archives :=
              ⟨fun volume hmem name path place htarget hleads =>
                archives_declared haccepted hexport hstatus hmem htarget hleads,
              fun volume hmem hnone => archives_docker haccepted hexport hstatus hmem hnone⟩
            have hall := List.forall₂_take outcome.completed (Results.mapM_eq_ok.mp htargets)
            refine resetAll_spec harchives hrecover outcome.resetting
              (fun volume hmem => List.mem_of_mem_take hmem) ?_ hall
              ⟨Remains.refl, rfl, rfl, fun _ _ => rfl⟩
            rw [List.map_take]
            exact haccepted.nodup_volumes.sublist (List.take_sublist _ _)

/-- A path without links leads to the place that it spells. -/
theorem leads_plain {machine : Machine} {start names place : List String}
    (hfree : LinkFree machine.files (start ++ names))
    (h : machine.leads ⟨start, names.map .down⟩ = some place) : place = start ++ names := by
  unfold Machine.leads at h
  split at h
  · rename_i found hresolve
    split at h
    · cases h
      cases hlinks : machine.links with
      | zero =>
          rw [hlinks] at hresolve
          exact hfree.walk_eq hresolve
      | succ links =>
          rw [hlinks] at hresolve
          exact hfree.walk_eq hresolve
    · cases h
  · cases h

/-- A source that is reached by names alone, with no link on the way, and that is apart from the
directories that the export writes to; these are no links. -/
theorem recoverable_of_plain (written : ExportFiles host.machine m appRoot)
    (hinside : ∀ place node, written.view place = some node →
      appRoot ++ ["export-bundles"] <+: place ∨ appRoot ++ ["receipts"] <+: place)
    {volume : DataVolumeConfig} {name : Slug} {start names : List String}
    (htarget : resetTarget host.machine m manifestDir volume =
      .ok (.host_path name ⟨start, names.map .down⟩))
    (hfree : LinkFree host.machine.files (start ++ names))
    (hapart : ∀ top ∈ [appRoot ++ ["export-bundles"], appRoot ++ ["receipts"]],
      ¬ start ++ names <+: top ∧ ¬ top <+: start ++ names) :
    Recoverable host.machine m manifestDir appRoot written volume := by
  have hview : ∀ place node, written.view place = some node →
      ¬ place <+: start ++ names ∧ ¬ start ++ names <+: place := by
    intro place node hnode
    obtain ⟨top, htop, hin⟩ : ∃ top ∈ [appRoot ++ ["export-bundles"], appRoot ++ ["receipts"]],
        top <+: place := by
      rcases hinside place node hnode with hin | hin
      · exact ⟨_, by simp, hin⟩
      · exact ⟨_, by simp, hin⟩
    refine ⟨fun hpre => (hapart top htop).2 (hin.trans hpre), fun hpre => ?_⟩
    rcases List.prefix_or_prefix_of_prefix hpre hin with habove | hbelow
    · exact (hapart top htop).1 habove
    · exact (hapart top htop).2 hbelow
  have hnone : ∀ below, isBelow (start ++ names) below = true → written.view below = none := by
    intro below hbelow
    obtain ⟨rel, -, rfl⟩ := isBelow_iff.mp hbelow
    by_contra hsome
    obtain ⟨node, hnode⟩ := Option.ne_none_iff_exists'.mp hsome
    exact (hview _ node hnode).2 (List.prefix_append _ _)
  unfold Recoverable
  rw [htarget]
  intro files hremains place hleads _
  -- no state that the resets leave has a link on the way
  have hplain : LinkFree files (start ++ names) := by
    intro prefix' hpre node hnode
    by_contra hlink
    have hisLink : node.isLink = true := by simpa using hlink
    have hfile : node.isDirectory = false := by
      cases node with
      | directory mode => cases hisLink
      | regular mode content => rfl
      | link steps => rfl
      | special => rfl
    have hstart : (host.machine.files prefix').or (written.view prefix') = some node :=
      hremains.of_file hnode hfile
    cases hold : host.machine.files prefix' with
    | none =>
        rw [hold, Option.none_or] at hstart
        exact (hview prefix' node hstart).1 hpre
    | some old =>
        rw [hold] at hstart
        obtain rfl : old = node := Option.some.inj hstart
        rw [hfree prefix' hpre old hold] at hisLink
        cases hisLink
  have hplace : place = start ++ names := leads_plain hplain hleads
  subst hplace
  cases hexport : host.machine.leads ⟨start, names.map .down⟩ with
  | some place => exact Or.inl ⟨by rw [leads_plain hfree hexport], hnone⟩
  | none =>
      refine Or.inr fun below hbelow => ?_
      by_contra hfull
      obtain ⟨node, hnode⟩ : ∃ node, files below = some node := by
        cases hbelowNode : files below with
        | none =>
            rw [hbelowNode] at hfull
            exact absurd rfl hfull
        | some node => exact ⟨node, rfl⟩
      have hfile : node.isDirectory = false := by
        rw [hnode] at hfull
        simpa [isBare] using hfull
      have hstart : (host.machine.files below).or (written.view below) = some node :=
        hremains.of_file hnode hfile
      rw [hnone below hbelow, Option.or_none] at hstart
      -- a file below the path makes the path lead there
      obtain ⟨rel, hrel, rfl⟩ := isBelow_iff.mp hbelow
      have hopened : Opened host.machine.files (start ++ names) :=
        (Disk.opened_of_view hstart).of_front
          (prefix_dropLast_of_ne (List.prefix_append _ _) (by simpa using hrel))
      have hresolve : resolve host.machine.files host.machine.links start (names.map .down) =
          .ok (start ++ names) := by
        have hlookup := lookup_opened hopened host.machine.links
        unfold lookup at hlookup
        rwa [List.map_append, resolve_opened (hopened.of_front (List.prefix_append _ _))] at hlookup
      have hsome : (host.machine.files (start ++ names)).isSome = true := by
        by_cases hroot : start ++ names = []
        · rw [hroot]
          rfl
        · obtain ⟨mode, hmode⟩ := hopened.directory hroot
          rw [hmode]
          rfl
      unfold Machine.leads at hexport
      rw [hresolve] at hexport
      simp [hsome] at hexport

end

/-! ### A host directory in place of a named volume -/

section

/-- A named volume `data`. -/
def dataVolume : DataVolumeConfig where
  name := ⟨"data", Eq.refl true⟩
  mount := some ⟨"/data", Eq.refl true⟩

def resetApp : Manifest where
  app := ⟨"shop", Eq.refl true⟩
  kind := .service
  image := some ⟨"registry.example/web:1", Eq.refl true⟩
  services := Table.empty.put { name := webService, port := ⟨8080, Nat.succ_pos (nat_lit 8079)⟩ }
  routes := [{ domain := ⟨"shop.example.com", Eq.refl true⟩, service := some webService }]
  data := { volumes := [dataVolume] }

/-- One file. -/
def orders : Tree := fun rel =>
  if rel = ["orders.db"] then some (.regular 0o644 [1]) else none

/-- A host whose runtime root has the entries given, and the Docker volume of `data`. -/
def shopHost (disk : Disk String (List UInt8)) : Host where
  disk := disk
  volumes name := if name = "shop-default-data" then some orders else none
  home _ := none
  links := 40

def directories (paths : List (List String)) : Table (FileTree.Slot.path : FileTree.Slot String (List UInt8) → _) :=
  paths.foldl (fun table path => table.put ⟨path, .directory 0o755⟩) Table.empty

/-- A runtime root with the directory `volumes/data`. -/
def leftoverDisk : Disk String (List UInt8) where
  slots := directories [["apps"], ["apps", "shop"], ["apps", "shop", "volumes"],
    ["apps", "shop", "volumes", "data"]]
  closed := by decide

def plainDisk : Disk String (List UInt8) where
  slots := directories [["apps"], ["apps", "shop"]]
  closed := by decide

def shopBundle : List String := ["apps", "shop", "export-bundles", "bundle"]

/-- The files of an export: the archive of `data`. -/
def shopWritten (disk : Disk String (List UInt8))
    (hfree : disk.view (archivePlace shopBundle dataVolume) = none) :
    ExportFiles (shopHost disk).machine resetApp ["apps", "shop"] where
  view place :=
    if place = archivePlace shopBundle dataVolume then some (.regular 0o644 []) else none
  bundle := shopBundle
  fresh place node h := by
    split at h
    · rename_i heq
      rw [heq]
      exact hfree
    · cases h
  stored volume hmem := by
    rw [List.mem_singleton.mp hmem]
    exact ⟨_, _, if_pos rfl⟩

def goodReset : ResetOutcome where
  made := []
  survives _ := false
  inspect := true
  remove := true
  create := true

def shopOutcome (disk : Disk String (List UInt8))
    (hfree : disk.view (archivePlace shopBundle dataVolume) = none) :
    FreshInstallOutcome (shopHost disk).machine resetApp ["apps", "shop"] where
  blocked := false
  exportBlocked := false
  others := true
  archiving _ := goodOutcome
  written := shopWritten disk hfree
  resetting _ := goodReset
  completed := 1

theorem not_destroysOnlyExported :
    ¬ ∀ (host : Host) (m : Manifest) (manifestDir appRoot : List String)
      (outcome : FreshInstallOutcome host.machine m appRoot) (report : FreshInstallReport),
      m.Accepted → freshInstallApply host.machine m manifestDir appRoot outcome = .ok report →
        DestroysOnlyExported host.machine m manifestDir appRoot outcome.written report := by
  intro hall
  have hreport := hall (shopHost leftoverDisk) resetApp ["apps", "shop"] ["apps", "shop"]
    (shopOutcome leftoverDisk (by decide)) _ rfl rfl
  obtain ⟨-, hvolumes, -⟩ := hreport _ List.mem_cons_self
  obtain ⟨volume, hmem, archive, -, harchive, hcontent⟩ :=
    hvolumes "shop-default-data" orders rfl (by
      intro hsame
      have hempty := congrFun (Option.some.inj hsame) ["orders.db"]
      cases hempty)
  rw [List.mem_singleton.mp hmem] at harchive
  -- the archive is that of the empty host directory
  have hmapped := congrArg (Option.map fun a : Archive => a.content ["orders.db"]) harchive
  have hnone : some (none : Option (FileTree.Node String (List UInt8))) =
      some (archive.content ["orders.db"]) := hmapped
  rw [hcontent] at hnone
  cases hnone

theorem destroysOnlyExported_shop :
    ∃ report, freshInstallApply (shopHost plainDisk).machine resetApp ["apps", "shop"]
        ["apps", "shop"] (shopOutcome plainDisk (by decide)) = .ok report ∧
      DestroysOnlyExported (shopHost plainDisk).machine resetApp ["apps", "shop"]
        ["apps", "shop"] (shopOutcome plainDisk (by decide)).written report := by
  refine ⟨_, rfl, destroysOnlyExported rfl rfl fun volume hmem => ?_⟩
  rw [List.mem_singleton.mp hmem]
  rfl

end

end Ophelia.V1
