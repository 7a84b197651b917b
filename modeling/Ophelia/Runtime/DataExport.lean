import Ophelia.Lib.FileTree
import Ophelia.Runtime.Rendering

/-!
# Ophelia.Runtime.DataExport

The data archives of an export (`portability.py`), next to what the rendered compose file
mounts. The exporter looks for a volume under a list of host paths, with the directory of the
manifest as the base, and falls back to the named Docker volume; Compose mounts the declared
source, with the directory of the compose file as the base, or the named Docker volume when
there is none. The archive is the one of what is mounted exactly where the two readings meet
(`Agrees`).
-/

namespace Ophelia.V1

open FileTree PyText

abbrev Files := View String (List UInt8)

/-- What stands below a directory, by relative paths. -/
abbrev Tree := View String (List UInt8)

/-- The machine that an application runs on. -/
structure Machine where
  files : Files
  /-- The named Docker volumes. -/
  volumes : String → Option Tree
  /-- The home directory of a user; the empty name stands for the one who runs the command. -/
  home : String → Option (List String)
  /-- How many links one lookup follows. -/
  links : Nat

/-! ### Paths -/

/-- A path as `pathlib` reads it: without empty components and without `.`. -/
structure PathText where
  absolute : Bool
  parts : List String
deriving DecidableEq

def pathText (text : String) : PathText where
  absolute := isAbsolute text
  parts := (posixParts text.toList).map String.ofList

def pathStep (part : String) : Step String :=
  if part = ".." then .up else .down part

/-- `Path.expanduser`. -/
def expandUser (machine : Machine) (path : PathText) : Except String PathText :=
  if path.absolute then .ok path
  else
    match path.parts with
    | [] => .ok path
    | first :: rest =>
        if first.toList.head? = some '~' then
          match machine.home (String.ofList first.toList.tail) with
          | some home => .ok ⟨true, home ++ rest⟩
          | none => .error "Could not determine home directory."
        else .ok path

/-- A directory, and steps to take from it. -/
structure Route where
  start : List String
  steps : List (Step String)
deriving DecidableEq

/-- `_resolve_pack_path`. -/
def resolvePackPath (machine : Machine) (manifestDir : List String) (value : String) :
    Except String Route := do
  let path ← expandUser machine (pathText value)
  return ⟨if path.absolute then [] else manifestDir, path.parts.map pathStep⟩

/-- Where a path leads to, if it exists. -/
def Machine.leads (machine : Machine) (route : Route) : Option (List String) :=
  match resolve machine.files machine.links route.start route.steps with
  | .ok place => if (machine.files place).isSome then some place else none
  | .error _ => none

/-- What stands under the last name of a path, a link not followed. A path without a last name
is one of a directory. -/
def Machine.lstat (machine : Machine) (route : Route) : Option (FileTree.Node String (List UInt8)) :=
  match route.steps.getLast? with
  | some (.down name) =>
      match resolve machine.files machine.links route.start route.steps.dropLast with
      | .ok dir => machine.files (dir ++ [name])
      | .error _ => none
  | some .up | none => none

/-! ### What the compose file mounts -/

inductive Location where
  | host (place : List String)
  | docker (name : String)
deriving DecidableEq

/-- `_compose_host_source`. -/
def composeHostSource (source : String) : String :=
  if ["/", "./", "../", "~/"].any fun front => front.toList.isPrefixOf source.toList then source
  else "./" ++ source

/-- The components of a path with the `..` removed by the text alone; `front` is in reverse. -/
def cleanParts : List String → List String → List String
  | front, [] => front.reverse
  | front, part :: rest =>
      if part = ".." then cleanParts front.tail rest else cleanParts (part :: front) rest

/-- The host directory of a bind mount. Compose takes a relative source from the directory of the
compose file and `~/` from the home directory, and cleans the path before it is used. A source
has no `$` here: what Compose interpolates is not modelled. -/
def composeRoute (machine : Machine) (composeDir : List String) (source : String) :
    Option Route :=
  let text := composeHostSource source
  let parts := (pathText text).parts
  if isAbsolute text then some ⟨[], (cleanParts [] parts).map .down⟩
  else if "~/".toList.isPrefixOf text.toList then
    (machine.home "").map fun home => ⟨[], (cleanParts home.reverse parts.tail).map .down⟩
  else some ⟨[], (cleanParts composeDir.reverse parts).map .down⟩

/-- What the rendered `compose.yml` mounts for a volume. -/
def mountedLocation (machine : Machine) (m : Manifest) (appRoot : List String)
    (volume : DataVolumeConfig) : Option Location :=
  match volume.source with
  | some source =>
      ((composeRoute machine appRoot source.val).bind machine.leads).map .host
  | none => some (.docker (dataVolumeName m volume))

/-! ### Where the exporter looks -/

/-- `volume.extra.get(key)`, where it is a string that is not empty. -/
def extraPath (volume : DataVolumeConfig) (key : String) : Option String :=
  match volume.extra.lookup key with
  | some (.str raw) => if raw = "" then none else some raw
  | _ => none

def rawSources (volume : DataVolumeConfig) : List String :=
  volume.source.toList.map (·.val) ++
    ["path", "source_path", "host_path"].filterMap (extraPath volume)

/-- The candidates of `_volume_source`. -/
def volumeCandidates (machine : Machine) (manifestDir appRoot : List String)
    (volume : DataVolumeConfig) : Except String (List Route) := do
  let declared ← (rawSources volume).mapM (resolvePackPath machine manifestDir)
  return declared ++
    [⟨appRoot, [.down "data", .down "volumes", .down volume.name.val]⟩,
      ⟨appRoot, [.down "volumes", .down volume.name.val]⟩]

/-- The first candidate that exists, with the place that it leads to. -/
def firstExisting (machine : Machine) (candidates : List Route) : Option (Route × List String) :=
  candidates.findSome? fun route => (machine.leads route).map fun place => (route, place)

/-- `_volume_source`. -/
def volumeSource (machine : Machine) (manifestDir appRoot : List String)
    (volume : DataVolumeConfig) : Except String (Option (Route × List String)) := do
  let candidates ← volumeCandidates machine manifestDir appRoot volume
  return firstExisting machine candidates

/-- `_safe_artifact_name`, on ASCII text. -/
def safeArtifactName (value : String) : String :=
  let safe := value.toList.map fun c =>
    if c.isAlphanum || c == '-' || c == '_' || c == '.' then c else '-'
  match stripChars (fun c => c == '.' || c == '-') safe with
  | [] => "artifact"
  | cs => String.ofList cs

/-- `_docker_data_volume_name`. -/
def dockerDataVolumeName (m : Manifest) (volume : DataVolumeConfig) : String :=
  safeArtifactName (m.app.val ++ "-" ++ environmentName m ++ "-" ++ volume.name.val)

/-- The archive file of a volume, in the bundle. -/
def artifactFile (volume : DataVolumeConfig) : String :=
  "data/volumes/" ++ safeArtifactName volume.name.val ++ ".tar"

/-! ### Archives -/

/-- A lossless archive: what it was made from, and what it holds. -/
structure Archive where
  location : Location
  content : Tree

/-- `_create_tar_from_path`: everything below a directory, or the one file under its name. Every
entry can be read: `rglob` and `tarfile` skip nothing here. -/
def tarContent (machine : Machine) (route : Route) (place : List String) : Tree :=
  match machine.files place with
  | some (.directory _) => fun rel => if rel = [] then none else machine.files (place ++ rel)
  | _ => fun rel =>
      match route.steps.getLast? with
      | some (.down name) => if rel = [name] then machine.lstat route else none
      | _ => none

/-- How the commands for one volume turn out. -/
structure ArchiveOutcome where
  /-- The tar file of a host path can be written. -/
  tar : Bool
  /-- `docker volume inspect` goes through. -/
  inspect : Bool
  helper_image : Option String
  /-- `docker run … tar` goes through, and its file is there. -/
  run : Bool

inductive ArchiveStatus where
  | archived | archive_failed | source_unresolved
deriving DecidableEq

structure VolumeRecord where
  name : Slug
  status : ArchiveStatus
  archive : Option Archive := none

section

variable (machine : Machine) (m : Manifest) (manifestDir appRoot : List String)

/-- `_archive_docker_volume`, and the record of a volume that is nowhere. -/
def archiveDockerVolume (outcome : ArchiveOutcome) (volume : DataVolumeConfig) : VolumeRecord :=
  let name := dockerDataVolumeName m volume
  match if outcome.inspect then machine.volumes name else none with
  | none => { name := volume.name, status := .source_unresolved }
  | some content =>
      if outcome.helper_image.isSome && outcome.run then
        { name := volume.name, status := .archived, archive := some ⟨.docker name, content⟩ }
      else { name := volume.name, status := .archive_failed }

/-- The pass of the loop of `_create_data_archives` for one volume. -/
def archiveVolume (outcome : ArchiveOutcome) (volume : DataVolumeConfig) :
    Except String VolumeRecord := do
  match ← volumeSource machine manifestDir appRoot volume with
  | none => return archiveDockerVolume machine m outcome volume
  | some (route, place) =>
      if outcome.tar then
        return { name := volume.name, status := .archived,
                 archive := some ⟨.host place, tarContent machine route place⟩ }
      else throw "The archive could not be written."

/-- The archives of a bundle, by file. -/
abbrev Archives := String → Option Archive

def Archives.write (archives : Archives) (file : String) (archive : Archive) : Archives :=
  fun other => if other = file then some archive else archives other

/-- `_create_data_archives`, on the volumes. -/
def createDataArchives (outcomes : Slug → ArchiveOutcome) :
    List DataVolumeConfig → Archives → Except String (List VolumeRecord × Archives)
  | [], archives => .ok ([], archives)
  | volume :: rest, archives => do
      let record ← archiveVolume machine m manifestDir appRoot (outcomes volume.name) volume
      let written := match record.archive with
        | some archive => archives.write (artifactFile volume) archive
        | none => archives
      let (records, final) ← createDataArchives outcomes rest written
      return (record :: records, final)

inductive ExportStatus where
  | blocked | failed | succeeded
deriving DecidableEq

structure ExportReport where
  status : ExportStatus
  records : List VolumeRecord
  archives : Archives

/-- `export_create`. `blocked` says that the plan has blockers or the token does not match, and
`others` that the static assets and the database dump, which no volume depends on, are done. -/
def exportCreate (blocked others : Bool) (outcomes : Slug → ArchiveOutcome) :
    Except String ExportReport :=
  if blocked then .ok ⟨.blocked, [], fun _ => none⟩
  else do
    let (records, archives) ← createDataArchives machine m manifestDir appRoot outcomes
      m.data.volumes fun _ => none
    let data_failed := records.any fun record => record.status ≠ .archived
    return ⟨if data_failed || !others then .failed else .succeeded, records, archives⟩

end

/-! ### Artifact names -/

theorem safeArtifactName_eq_self {value : String} (h : PlainName value) :
    safeArtifactName value = value := by
  obtain ⟨c, cs, hvalue, hc⟩ := h.head
  obtain ⟨d, hlast, hd⟩ := h.last
  have hmark : ∀ {e : Char}, isLowerAlnum e = true → (e == '.' || e == '-') = false := by
    intro e he
    have hnone := isDockerMark_of_isLowerAlnum he
    simp only [isDockerMark, Bool.or_eq_false_iff] at hnone ⊢
    exact ⟨hnone.1.1, hnone.2⟩
  have hmap : (value.toList.map fun c =>
      if c.isAlphanum || c == '-' || c == '_' || c == '.' then c else '-') = c :: cs := by
    rw [← hvalue]
    refine (List.map_congr_left fun e he => ?_).trans (List.map_id _)
    rw [if_pos]
    · rfl
    · rcases h.chars e he with he | rfl
      · simp [isAlphanum_of_isLowerAlnum he]
      · decide
  rw [safeArtifactName, hmap,
    stripChars_of_ends (hmark hc) (hmark hd) (hvalue ▸ hlast)]
  show String.ofList (c :: cs) = value
  rw [← hvalue, String.ofList_toList]

theorem dockerDataVolumeName_eq (m : Manifest) (volume : DataVolumeConfig) :
    dockerDataVolumeName m volume = dataVolumeName m volume := by
  rw [dockerDataVolumeName, safeArtifactName_eq_self (plainName_volume m volume),
    dataVolumeName_eq]

/-- Each volume has an archive file of its own. -/
theorem artifactFile_inj {volume volume' : DataVolumeConfig}
    (h : artifactFile volume = artifactFile volume') : volume.name = volume'.name := by
  unfold artifactFile at h
  rw [safeArtifactName_eq_self (PlainName.of_slug _), safeArtifactName_eq_self (PlainName.of_slug _)]
    at h
  exact Refined.ext ((String.append_right_inj _).mp ((String.append_left_inj _).mp h))

/-! ### What an export leaves in the bundle -/

section

variable {machine : Machine} {m : Manifest} {manifestDir appRoot : List String}

/-- A record that says archived has the archive of the place that was found, or of the named
volume when none was. -/
theorem archiveVolume_archived {outcome : ArchiveOutcome} {volume : DataVolumeConfig}
    {record : VolumeRecord}
    (h : archiveVolume machine m manifestDir appRoot outcome volume = .ok record)
    (hstatus : record.status = .archived) :
    (∃ route place, volumeSource machine manifestDir appRoot volume = .ok (some (route, place)) ∧
      record.archive = some ⟨.host place, tarContent machine route place⟩) ∨
    ∃ content, volumeSource machine manifestDir appRoot volume = .ok none ∧
      machine.volumes (dataVolumeName m volume) = some content ∧
      record.archive = some ⟨.docker (dataVolumeName m volume), content⟩ := by
  unfold archiveVolume at h
  cases hsource : volumeSource machine manifestDir appRoot volume with
  | error _ =>
      rw [hsource] at h
      cases h
  | ok found =>
      rw [hsource] at h
      cases found with
      | some found =>
          obtain ⟨route, place⟩ := found
          cases htar : outcome.tar with
          | false =>
              simp only [bind, Except.bind, htar] at h
              cases h
          | true =>
              simp only [bind, Except.bind, htar, if_true] at h
              cases h
              exact Or.inl ⟨route, place, rfl, rfl⟩
      | none =>
          cases h
          refine Or.inr ?_
          rw [archiveDockerVolume, dockerDataVolumeName_eq] at hstatus ⊢
          cases hinspect : outcome.inspect with
          | false => simp [hinspect] at hstatus
          | true =>
              cases hcontent : machine.volumes (dataVolumeName m volume) with
              | none => simp [hinspect, hcontent] at hstatus
              | some content =>
                  simp only [hinspect, hcontent, if_true] at hstatus ⊢
                  split at hstatus
                  · rename_i hrun
                    exact ⟨content, trivial, rfl, by rw [if_pos hrun]⟩
                  · cases hstatus

theorem createDataArchives_cons {outcomes : Slug → ArchiveOutcome} {volume : DataVolumeConfig}
    {rest : List DataVolumeConfig} {archives final : Archives} {records : List VolumeRecord}
    (h : createDataArchives machine m manifestDir appRoot outcomes (volume :: rest) archives =
      .ok (records, final)) :
    ∃ record others, records = record :: others ∧
      archiveVolume machine m manifestDir appRoot (outcomes volume.name) volume = .ok record ∧
      createDataArchives machine m manifestDir appRoot outcomes rest
        (match record.archive with
          | some archive => archives.write (artifactFile volume) archive
          | none => archives) = .ok (others, final) := by
  rw [createDataArchives] at h
  cases hrecord : archiveVolume machine m manifestDir appRoot (outcomes volume.name) volume with
  | error _ =>
      rw [hrecord] at h
      cases h
  | ok record =>
      rw [hrecord] at h
      simp only [bind, Except.bind] at h
      split at h
      · cases h
      · rename_i result hrest
        obtain ⟨others, final'⟩ := result
        cases h
        exact ⟨record, others, rfl, rfl, hrest⟩

/-- Files that belong to none of the volumes are left as they are. -/
theorem createDataArchives_frame {outcomes : Slug → ArchiveOutcome} {file : String}
    {volumes : List DataVolumeConfig} {archives final : Archives} {records : List VolumeRecord}
    (h : createDataArchives machine m manifestDir appRoot outcomes volumes archives =
      .ok (records, final)) (hfile : ∀ volume ∈ volumes, artifactFile volume ≠ file) :
    final file = archives file := by
  induction volumes generalizing archives records with
  | nil =>
      cases h
      rfl
  | cons volume rest ih =>
      obtain ⟨record, others, -, -, hrest⟩ := createDataArchives_cons h
      rw [ih hrest fun other hother => hfile other (List.mem_cons_of_mem _ hother)]
      cases record.archive with
      | none => rfl
      | some archive => exact if_neg (hfile volume List.mem_cons_self).symm

/-- What is made of one volume is not undone by the others. -/
theorem createDataArchives_spec {outcomes : Slug → ArchiveOutcome}
    {volumes : List DataVolumeConfig} {archives final : Archives} {records : List VolumeRecord}
    (h : createDataArchives machine m manifestDir appRoot outcomes volumes archives =
      .ok (records, final)) (hnodup : (volumes.map (·.name)).Nodup)
    {volume : DataVolumeConfig} (hmem : volume ∈ volumes) :
    ∃ record ∈ records,
      archiveVolume machine m manifestDir appRoot (outcomes volume.name) volume = .ok record ∧
      ∀ archive, record.archive = some archive → final (artifactFile volume) = some archive := by
  induction volumes generalizing archives records with
  | nil => cases hmem
  | cons first rest ih =>
      obtain ⟨record, others, rfl, hrecord, hrest⟩ := createDataArchives_cons h
      rw [List.map_cons, List.nodup_cons] at hnodup
      rcases List.mem_cons.mp hmem with rfl | hmem
      · refine ⟨record, List.mem_cons_self, hrecord, fun archive harchive => ?_⟩
        have hother : ∀ other ∈ rest, artifactFile other ≠ artifactFile volume :=
          fun other hother heq => hnodup.1 (artifactFile_inj heq ▸ List.mem_map_of_mem hother)
        have hframe := createDataArchives_frame hrest hother
        rw [hframe, harchive]
        exact if_pos rfl
      · obtain ⟨record', hin, hspec⟩ := ih hrest hnodup.2 hmem
        exact ⟨record', List.mem_cons_of_mem _ hin, hspec⟩

/-- After an export that succeeded, every volume has been archived. -/
theorem exportCreate_archived {blocked others : Bool} {outcomes : Slug → ArchiveOutcome}
    {report : ExportReport} (haccepted : m.Accepted)
    (h : exportCreate machine m manifestDir appRoot blocked others outcomes = .ok report)
    (hstatus : report.status = .succeeded) {volume : DataVolumeConfig}
    (hmem : volume ∈ m.data.volumes) :
    (∃ route place, volumeSource machine manifestDir appRoot volume = .ok (some (route, place)) ∧
      report.archives (artifactFile volume) =
        some ⟨.host place, tarContent machine route place⟩) ∨
    ∃ content, volumeSource machine manifestDir appRoot volume = .ok none ∧
      machine.volumes (dataVolumeName m volume) = some content ∧
      report.archives (artifactFile volume) =
        some ⟨.docker (dataVolumeName m volume), content⟩ := by
  unfold exportCreate at h
  cases blocked with
  | true =>
      cases h
      cases hstatus
  | false =>
      simp only [Bool.false_eq_true, if_false, bind, Except.bind] at h
      split at h
      · cases h
      · rename_i result hcreate
        obtain ⟨records, archives⟩ := result
        cases h
        obtain ⟨record, hin, hrecord, hfinal⟩ :=
          createDataArchives_spec hcreate haccepted.nodup_volumes hmem
        have harchived : record.status = .archived := by
          simp only [Bool.or_eq_true, List.any_eq_true, decide_eq_true_eq, Bool.not_eq_true',
            ite_eq_right_iff, reduceCtorEq, imp_false, not_or, not_exists, not_and,
            Decidable.not_not] at hstatus
          exact hstatus.1 record hin
        rcases archiveVolume_archived hrecord harchived with
          ⟨route, place, hsource, harchive⟩ | ⟨content, hsource, hvolume, harchive⟩
        · exact Or.inl ⟨route, place, hsource, hfinal _ harchive⟩
        · exact Or.inr ⟨content, hsource, hvolume, hfinal _ harchive⟩

end

/-! ### The archive of what is mounted -/

/-- An archive holds what stands at a place: everything below a directory, or the one file. -/
def Holds (content : Tree) (files : Files) (place : List String) : Prop :=
  match files place with
  | some (.directory _) => ∀ rel, content rel = if rel = [] then none else files (place ++ rel)
  | some node => ∃ name, ∀ rel, content rel = if rel = [name] then some node else none
  | none => False

/-- The archive of a volume is that of the host directory or named volume that is mounted. -/
def Captured (machine : Machine) (m : Manifest) (appRoot : List String) (archives : Archives)
    (volume : DataVolumeConfig) : Prop :=
  ∃ archive, archives (artifactFile volume) = some archive ∧
    mountedLocation machine m appRoot volume = some archive.location ∧
    match archive.location with
    | .host place => Holds archive.content machine.files place
    | .docker name => machine.volumes name = some archive.content

/-- The exporter and Compose read the declaration of a volume alike: the first path that the
exporter finds is the mounted one, and not a link to a file; for a volume without a source it
finds none. -/
def Agrees (machine : Machine) (manifestDir appRoot : List String) (volume : DataVolumeConfig) :
    Prop :=
  match volume.source with
  | some source =>
      ∃ route place, volumeSource machine manifestDir appRoot volume = .ok (some (route, place)) ∧
        (composeRoute machine appRoot source.val).bind machine.leads = some place ∧
        ((machine.files place).any FileTree.Node.isDirectory = true ∨
          machine.lstat route = machine.files place)
  | none => volumeSource machine manifestDir appRoot volume = .ok none

/-- An export captures what the application mounts. -/
def CapturesMounted (machine : Machine) (m : Manifest) (appRoot : List String)
    (archives : Archives) : Prop :=
  (m.data.volumes.map artifactFile).Nodup ∧
    ∀ volume ∈ m.data.volumes, volume.mount.isSome → Captured machine m appRoot archives volume

theorem firstExisting_leads {machine : Machine} {candidates : List Route} {route : Route}
    {place : List String} (h : firstExisting machine candidates = some (route, place)) :
    machine.leads route = some place := by
  obtain ⟨route', -, heq⟩ := List.exists_of_findSome?_eq_some h
  obtain ⟨place', hleads, hpair⟩ := Option.map_eq_some_iff.mp heq
  cases hpair
  exact hleads

theorem volumeSource_leads {machine : Machine} {manifestDir appRoot : List String}
    {volume : DataVolumeConfig} {route : Route} {place : List String}
    (h : volumeSource machine manifestDir appRoot volume = .ok (some (route, place))) :
    machine.leads route = some place := by
  unfold volumeSource at h
  cases hcandidates : volumeCandidates machine manifestDir appRoot volume with
  | error _ =>
      rw [hcandidates] at h
      cases h
  | ok candidates =>
      rw [hcandidates] at h
      exact firstExisting_leads (Except.ok.inj h)

theorem isSome_of_leads {machine : Machine} {route : Route} {place : List String}
    (h : machine.leads route = some place) : (machine.files place).isSome = true := by
  unfold Machine.leads at h
  split at h
  · split at h
    · rename_i hsome
      cases h
      exact hsome
    · cases h
  · cases h

/-- A tar file holds what stands at a place, unless the path ends in a link to a file. -/
theorem holds_tarContent_iff {machine : Machine} {route : Route} {place : List String}
    (h : machine.leads route = some place) :
    Holds (tarContent machine route place) machine.files place ↔
      (machine.files place).any FileTree.Node.isDirectory = true ∨
        machine.lstat route = machine.files place := by
  obtain ⟨node, hnode⟩ := Option.isSome_iff_exists.mp (isSome_of_leads h)
  have hfile : node.isDirectory = false →
      ((∃ name, ∀ rel, (match route.steps.getLast? with
          | some (.down name) => if rel = [name] then machine.lstat route else none
          | _ => none) = if rel = [name] then some node else none) ↔
        machine.lstat route = some node) := by
    intro _
    cases hlast : route.steps.getLast? with
    | none =>
        have hnone : machine.lstat route = none := by rw [Machine.lstat, hlast]
        rw [hnone]
        refine ⟨fun ⟨name, hall⟩ => ?_, fun heq => by cases heq⟩
        simpa using hall [name]
    | some step =>
        cases step with
        | up =>
            have hnone : machine.lstat route = none := by rw [Machine.lstat, hlast]
            rw [hnone]
            refine ⟨fun ⟨name, hall⟩ => ?_, fun heq => by cases heq⟩
            simpa using hall [name]
        | down last =>
            refine ⟨fun ⟨name, hall⟩ => ?_, fun heq => ⟨last, fun rel => by rw [heq]⟩⟩
            have hone := hall [name]
            rw [if_pos rfl] at hone
            dsimp only at hone
            split at hone
            · exact hone
            · cases hone
  unfold Holds tarContent
  rw [hnode]
  cases node with
  | directory mode => simp [FileTree.Node.isDirectory]
  | regular mode content => simpa [FileTree.Node.isDirectory] using hfile rfl
  | link steps => simpa [FileTree.Node.isDirectory] using hfile rfl
  | special => simpa [FileTree.Node.isDirectory] using hfile rfl

/-- An export that succeeded has captured what the application mounts exactly when the two
readings of each mounted volume agree. -/
theorem capturesMounted_iff {machine : Machine} {m : Manifest} {manifestDir appRoot : List String}
    {blocked others : Bool} {outcomes : Slug → ArchiveOutcome} {report : ExportReport}
    (haccepted : m.Accepted)
    (h : exportCreate machine m manifestDir appRoot blocked others outcomes = .ok report)
    (hstatus : report.status = .succeeded) :
    CapturesMounted machine m appRoot report.archives ↔
      ∀ volume ∈ m.data.volumes, volume.mount.isSome →
        Agrees machine manifestDir appRoot volume := by
  have hfiles : (m.data.volumes.map artifactFile).Nodup := by
    have hnames := haccepted.nodup_volumes
    rw [List.Nodup, List.pairwise_map] at hnames ⊢
    exact hnames.imp fun hne heq => hne (artifactFile_inj heq)
  have hone : ∀ volume ∈ m.data.volumes,
      (Captured machine m appRoot report.archives volume ↔
        Agrees machine manifestDir appRoot volume) := by
    intro volume hmem
    unfold Captured Agrees mountedLocation
    rcases exportCreate_archived haccepted h hstatus hmem with
      ⟨route, place, hsource, harchive⟩ | ⟨content, hsource, hvolume, harchive⟩
    · -- a host path was archived
      have hholds := holds_tarContent_iff (volumeSource_leads hsource)
      cases hdeclared : volume.source with
      | none =>
          refine ⟨fun ⟨archive, hin, hlocation, _⟩ => ?_, fun hnone => ?_⟩
          · cases harchive.symm.trans hin
            cases hlocation
          · cases hsource.symm.trans hnone
      | some source =>
          constructor
          · intro ⟨archive, hin, hlocation, hcontent⟩
            cases harchive.symm.trans hin
            obtain ⟨mounted, hmounted, heq⟩ := Option.map_eq_some_iff.mp hlocation
            cases heq
            exact ⟨route, place, hsource, hmounted, hholds.mp hcontent⟩
          · intro ⟨route', place', hsource', hmounted, hplace⟩
            cases hsource.symm.trans hsource'
            exact ⟨_, harchive, Option.map_eq_some_iff.mpr ⟨place, hmounted, rfl⟩, hholds.mpr hplace⟩
    · -- the named volume was archived
      cases hdeclared : volume.source with
      | none => exact ⟨fun _ => hsource, fun _ => ⟨_, harchive, rfl, hvolume⟩⟩
      | some source =>
          refine ⟨fun ⟨archive, hin, hlocation, _⟩ => ?_, fun ⟨_, _, hsome, _⟩ => ?_⟩
          · cases harchive.symm.trans hin
            obtain ⟨mounted, -, heq⟩ := Option.map_eq_some_iff.mp hlocation
            cases heq
          · cases hsource.symm.trans hsome
  constructor
  · intro hcaptures volume hmem hmount
    exact (hone volume hmem).mp (hcaptures.2 volume hmem hmount)
  · intro hagrees
    exact ⟨hfiles, fun volume hmem hmount => (hone volume hmem).mpr (hagrees volume hmem hmount)⟩

/-! ### A manifest away from its bundle -/

section

/-- The volume `uploads`, from a relative source. -/
def uploadsVolume : DataVolumeConfig where
  name := ⟨"uploads", by decide⟩
  mount := some ⟨"/uploads", by decide⟩
  source := some ⟨"uploads", by decide⟩

def uploadsApp : Manifest where
  app := ⟨"shop", Eq.refl true⟩
  kind := .service
  image := some ⟨"registry.example/web:1", Eq.refl true⟩
  services := Table.empty.put { name := webService, port := ⟨8080, Nat.succ_pos (nat_lit 8079)⟩ }
  routes := [{ domain := ⟨"shop.example.com", Eq.refl true⟩, service := some webService }]
  data := { volumes := [uploadsVolume] }

/-- A checkout and a runtime root, each with a directory `uploads`. -/
def checkoutMachine : Machine where
  files path :=
    if path ∈ [["checkout"], ["checkout", "uploads"], ["apps"], ["apps", "shop"],
      ["apps", "shop", "uploads"]] then some (.directory 0o755) else none
  volumes _ := none
  home _ := none
  links := 40

def goodOutcome : ArchiveOutcome where
  tar := true
  inspect := true
  helper_image := some "busybox:1.36"
  run := true

theorem not_capturesMounted :
    ¬ ∀ (m : Manifest) (machine : Machine) (manifestDir appRoot : List String)
      (blocked others : Bool) (outcomes : Slug → ArchiveOutcome) (report : ExportReport),
      m.Accepted →
      exportCreate machine m manifestDir appRoot blocked others outcomes = .ok report →
      report.status = .succeeded → CapturesMounted machine m appRoot report.archives := by
  intro hall
  have hcaptures := hall uploadsApp checkoutMachine ["checkout"] ["apps", "shop"] false true
    (fun _ => goodOutcome) _ rfl rfl rfl
  obtain ⟨archive, harchive, hlocation, -⟩ :=
    hcaptures.2 uploadsVolume (List.mem_singleton.mpr rfl) rfl
  -- the archive was made from the checkout, the mount is below the runtime root
  have hmounted : mountedLocation checkoutMachine uploadsApp ["apps", "shop"] uploadsVolume =
      some (.host ["apps", "shop", "uploads"]) := by decide
  have hmade : some (.host ["checkout", "uploads"]) = some archive.location :=
    congrArg (Option.map Archive.location) harchive
  rw [hmounted, ← hmade] at hlocation
  exact absurd hlocation (by decide)

/-- The export of `shop` with the manifest beside its bundle. -/
def besideExport : Except String ExportReport :=
  exportCreate checkoutMachine uploadsApp ["apps", "shop"] ["apps", "shop"] false true
    fun _ => goodOutcome

theorem capturesMounted_iff_beside :
    ∃ report, besideExport = .ok report ∧ report.status = .succeeded ∧
      (CapturesMounted checkoutMachine uploadsApp ["apps", "shop"] report.archives ↔
        ∀ volume ∈ uploadsApp.data.volumes, volume.mount.isSome →
          Agrees checkoutMachine ["apps", "shop"] ["apps", "shop"] volume) := by
  have hstatus : besideExport.map (·.status) = .ok .succeeded := rfl
  cases hexport : besideExport with
  | error _ =>
      rw [hexport] at hstatus
      cases hstatus
  | ok report =>
      rw [hexport] at hstatus
      have hsucceeded : report.status = .succeeded := Except.ok.inj hstatus
      exact ⟨report, rfl, hsucceeded, capturesMounted_iff rfl hexport hsucceeded⟩

end

end Ophelia.V1
