import Mathlib.Data.List.Basic
import Ophelia.Lib.PyText
import Mathlib.Algebra.GroupWithZero.Nat

/-!
# Ophelia.Validation.Archives

The inspection of tar archives (`validation/artifacts.py`): the headers are read one after
another, and an archive is rejected for the first member with an unsafe kind, size or path, for
a path that two members claim, and for totals beyond the limits. Nothing is extracted.

An archive is what `tarfile` reads of it. Unicode normalization enters as a function.
-/

namespace Ophelia

/-! ### Archives -/

/-- `ArchiveInspectionError`. -/
structure ArchiveRejection where
  code : String
  message : String
deriving DecidableEq

/-- The type flag of a member. -/
inductive MemberType where
  | directory
  | regular
  | symlink
  | hardlink
  | character
  | block
  | fifo
  | sparse
  | other
deriving DecidableEq

/-- A member as `tarfile` reports it. -/
structure TarMember where
  name : String
  type : MemberType
  /-- `info.sparse` or the extended headers describe holes. -/
  sparse : Bool
  size : Int
  content : List UInt8
deriving DecidableEq

/-- A file that is opened as an archive. -/
structure TarArchive where
  name : String
  sourceBytes : Nat
  /-- The file starts with the zstd magic. -/
  zstd : Bool
  members : List TarMember
  /-- `tarfile` opens the file and reads its headers to the end. -/
  readable : Bool
  /-- Two zero blocks follow the last payload. -/
  terminated : Bool

/-- `ArchiveLimits`. -/
structure ArchiveLimits where
  maxSourceBytes : Nat
  maxMembers : Nat
  maxTotalUnpackedBytes : Nat
  maxMemberBytes : Nat
  maxPathBytes : Nat
  maxPathDepth : Nat
  maxExpansionRatio : Nat

/-! ### Member paths -/

/-- `"/".join(parts)`. -/
def joinPath (parts : List (List Char)) : List Char :=
  List.intercalate ['/'] parts

/-- `ord(character) < 32 or ord(character) == 127`. -/
def isControl (c : Char) : Bool :=
  decide (c.toNat < 32) || c.toNat == 127

/-- `_DRIVE_PATH`. -/
def isDrivePath : List Char → Bool
  | c :: ':' :: _ => c.isAlpha
  | _ => false

/-- The name without one leading `./`. -/
def withoutDot : List Char → List Char
  | '.' :: '/' :: rest => rest
  | cs => cs

/-- The name of a directory without its last slash. -/
def withoutSlash (isDirectory : Bool) (cs : List Char) : List Char :=
  if isDirectory && cs.getLast? == some '/' then cs.dropLast else cs

/-- The number of bytes of a text in UTF-8. -/
def utf8Length (cs : List Char) : Nat :=
  (cs.map Char.utf8Size).sum

theorem lawful_segments : LawfulBEq (List Char) := inferInstance

attribute [local instance] lawful_segments in
/-- `_canonical_path`. -/
def canonicalPath (nfc : List Char → List Char) (limits : ArchiveLimits) (isDirectory : Bool)
    (name : String) : Except ArchiveRejection (List (List Char)) := do
  if name.toList = [] then
    throw ⟨"archive_member_path_invalid", "archive member path is empty or invalid."⟩
  if '\\' ∈ name.toList then
    throw ⟨"archive_member_path_backslash", "archive member path contains a backslash."⟩
  if name.toList.any isControl then
    throw ⟨"archive_member_path_control", "archive member path contains a control character."⟩
  let candidate := withoutDot name.toList
  if ['.', '/'].isPrefixOf candidate then
    throw ⟨"archive_member_path_invalid", "archive member path has repeated dot prefixes."⟩
  if candidate.head? = some '/' ∨ isDrivePath candidate then
    throw ⟨"archive_member_path_absolute", "archive member path is absolute."⟩
  let candidate := nfc (withoutSlash isDirectory candidate)
  let segments := candidate.splitOn '/'
  if candidate = [] ∨ segments.any fun segment => segment ∈ [[], ['.'], ['.', '.']] then
    throw ⟨"archive_member_path_invalid", "archive member path has a non-canonical segment."⟩
  if limits.maxPathBytes < utf8Length candidate then
    throw ⟨"archive_member_path_too_long", "archive member path exceeds the configured limit."⟩
  if limits.maxPathDepth < segments.length then
    throw ⟨"archive_member_path_too_deep", "archive member path exceeds the configured depth."⟩
  return segments

/-! ### Inspection -/

/-- `_member_kind`: whether a member is a directory, if it is that or a file. -/
def memberKind : MemberType → Except ArchiveRejection Bool
  | .directory => .ok true
  | .regular => .ok false
  | .symlink => .error ⟨"archive_member_symlink", "archive contains a symbolic link."⟩
  | .hardlink => .error ⟨"archive_member_hardlink", "archive contains a hard link."⟩
  | .character => .error ⟨"archive_member_device", "archive contains a device member."⟩
  | .block => .error ⟨"archive_member_device", "archive contains a device member."⟩
  | .fifo => .error ⟨"archive_member_fifo", "archive contains a FIFO member."⟩
  | .sparse => .error ⟨"archive_member_sparse", "archive contains sparse member metadata."⟩
  | .other =>
      .error ⟨"archive_member_special", "archive contains an unsupported special member."⟩

/-- What the loop over the headers has collected. Paths are lists of segments. -/
structure Inspected where
  members : Nat
  destinations : List (List (List Char))
  fileDestinations : List (List (List Char))
  requiredDirectories : List (List (List Char))
  total : Nat

def Inspected.start : Inspected := ⟨0, [], [], [], 0⟩

/-- The proper ancestors of a path below the root. -/
def ancestors {α : Type} (parts : List α) : List (List α) :=
  (List.range parts.length).tail.map fun length => parts.take length

/-- One turn of the loop over the headers. -/
def inspectMember (nfc : List Char → List Char) (limits : ArchiveLimits) (sourceBytes : Nat)
    (seen : Inspected) (info : TarMember) : Except ArchiveRejection Inspected := do
  if limits.maxMembers ≤ seen.members then
    throw ⟨"archive_member_count_exceeded", "archive member count exceeds the configured limit."⟩
  if info.type = .sparse ∨ info.sparse then
    throw ⟨"archive_member_sparse", "archive contains sparse member metadata."⟩
  let isDirectory ← memberKind info.type
  if info.size < 0 then
    throw ⟨"archive_member_size_invalid", "archive member has an invalid declared size."⟩
  let size := info.size.toNat
  if isDirectory ∧ size ≠ 0 then
    throw ⟨"archive_member_size_invalid", "archive directory has a non-zero declared size."⟩
  if limits.maxMemberBytes < size then
    throw ⟨"archive_member_size_exceeded", "archive member exceeds the configured size limit."⟩
  let canonical ← canonicalPath nfc limits isDirectory info.name
  if canonical ∈ seen.destinations then
    throw ⟨"archive_member_duplicate", "archive has duplicate canonical destinations."⟩
  if (ancestors canonical).any fun ancestor => ancestor ∈ seen.fileDestinations then
    throw ⟨"archive_member_path_conflict",
      "archive member is nested beneath a file destination."⟩
  if isDirectory = false ∧ canonical ∈ seen.requiredDirectories then
    throw ⟨"archive_member_path_conflict",
      "archive file destination is already required as a directory."⟩
  let total := seen.total + size
  if limits.maxTotalUnpackedBytes < total then
    throw ⟨"archive_total_size_exceeded", "archive declared size exceeds the configured limit."⟩
  if sourceBytes * limits.maxExpansionRatio < total then
    throw ⟨"archive_expansion_ratio_exceeded",
      "archive declared expansion ratio exceeds the configured limit."⟩
  return {
    members := seen.members + 1
    destinations := canonical :: seen.destinations
    fileDestinations :=
      if isDirectory then seen.fileDestinations else canonical :: seen.fileDestinations
    requiredDirectories := ancestors canonical ++ seen.requiredDirectories
    total }

/-- The loop over the headers. -/
def inspectMembers (nfc : List Char → List Char) (limits : ArchiveLimits) (sourceBytes : Nat) :
    Inspected → List TarMember → Except ArchiveRejection Inspected
  | seen, [] => .ok seen
  | seen, info :: rest => do
      inspectMembers nfc limits sourceBytes
        (← inspectMember nfc limits sourceBytes seen info) rest

/-- `_unsupported_format`. -/
def isZstdArchive (archive : TarArchive) : Bool :=
  let name := PyText.lower archive.name.toList
  PyText.endsWith ".tar.zst".toList name || PyText.endsWith ".tar.zstd".toList name ||
    PyText.endsWith ".tzst".toList name || archive.zstd

/-- `inspect_archive` of a regular file that does not change meanwhile. -/
def inspectArchive (nfc : List Char → List Char) (limits : ArchiveLimits)
    (archive : TarArchive) : Except ArchiveRejection Inspected := do
  if limits.maxSourceBytes < archive.sourceBytes then
    throw ⟨"archive_source_size_exceeded", "archive source exceeds the configured size limit."⟩
  if archive.sourceBytes = 0 then
    throw ⟨"archive_malformed", "archive is empty."⟩
  if isZstdArchive archive then
    throw ⟨"archive_compression_unsupported", "zstd-compressed tar archives are unsupported."⟩
  let seen ← inspectMembers nfc limits archive.sourceBytes .start archive.members
  if ¬ archive.readable then
    throw ⟨"archive_malformed", "archive is malformed, truncated, or unsupported."⟩
  if ¬ archive.terminated then
    throw ⟨"archive_malformed", "archive is missing its required zero-block terminator."⟩
  return seen

end Ophelia
