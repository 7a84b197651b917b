import Ophelia.Domain.Contracts
import Ophelia.Validation.Archives
import Mathlib.Algebra.GroupWithZero.Nat
import Ophelia.Journal.Events

/-!
# Ophelia.Daemon.HostRecovery

The evidence of a host backup (`daemon/recovery.py`): the paths and modes of a recovery
manifest, its entries with the checks of `_validate_entries`, and the internal and the external
manifest. An accepted list of entries names no path twice, and every symbolic link of it points
to an entry.
-/

namespace Ophelia

/-! ### Failures -/

/-- What stops a backup or a restore. -/
inductive RecoveryError where
  /-- `HostRecoveryError`. -/
  | recovery (message : String)
  | archive (rejection : ArchiveRejection)
  | install (message : String)
  | os
  | value
deriving DecidableEq

abbrev Recovered := Except RecoveryError

/-- Raise a `HostRecoveryError` unless `p` holds. -/
def demand (p : Prop) [Decidable p] (message : String) : Recovered Unit :=
  if p then .ok () else .error (.recovery message)

@[simp] theorem demand_eq_ok {p : Prop} [Decidable p] {message : String} {u : Unit} :
    demand p message = .ok u ↔ p := by
  unfold demand
  split <;> simp_all

/-! ### Paths and modes -/

/-- `Path(value).parts` of a relative path. -/
def relativeParts (value : String) : List String :=
  (PyText.posixParts value.toList).map String.ofList

/-- A relative path that does not climb. -/
structure SafePath where
  parts : List String
  parts_ne_nil : parts ≠ []
  no_up : ".." ∉ parts

instance : DecidableEq SafePath := fun a b =>
  decidable_of_iff (a.parts = b.parts) ⟨fun h => by cases a; cases b; cases h; rfl, congrArg _⟩

/-- `path.as_posix()`. -/
def SafePath.asPosix (path : SafePath) : List Char :=
  joinPath (path.parts.map String.toList)

/-- `_safe_relative`. -/
def safeRelative : Option Json → Recovered SafePath
  | some (.str value) =>
      if h : value.toList.head? ≠ some '/' ∧ relativeParts value ≠ [] ∧ ".." ∉ relativeParts value then
        .ok ⟨relativeParts value, h.2.1, h.2.2⟩
      else .error (.recovery "Recovery manifest path is unsafe.")
  | _ => .error (.recovery "Recovery manifest path is invalid.")

/-- Permission bits. -/
abbrev Mode := {n : Nat // n ≤ 0o777}

/-- The check of `_safe_mode`. -/
def safeMode : Option Json → Recovered Mode
  | some (.int n) =>
      if h : 0 ≤ n ∧ n.toNat ≤ 0o777 then .ok ⟨n.toNat, h.2⟩
      else .error (.recovery "Recovery manifest mode is invalid.")
  | _ => .error (.recovery "Recovery manifest mode is invalid.")

/-- `_safe_mode`: the mode that is set, not zero. -/
def Mode.normalized (mode : Mode) (directory : Bool) : Nat :=
  if mode.val = 0 then if directory then 0o700 else 0o600 else mode.val

/-! ### Entries -/

/-- An entry of a recovery manifest. -/
inductive RecoveryEntry where
  | directory (path : SafePath) (mode : Mode)
  | file (path : SafePath) (mode : Mode) (size : Nat) (sha256 : Digest)
  | symlink (path target : SafePath)
deriving DecidableEq

namespace RecoveryEntry

def path : RecoveryEntry → SafePath
  | .directory path _ => path
  | .file path _ _ _ => path
  | .symlink path _ => path

def target? : RecoveryEntry → Option SafePath
  | .symlink _ target => some target
  | _ => none

/-- Two sets of keys are equal. -/
def hasKeys (entry : Json) (expected : List String) : Bool :=
  entry.keys.all (fun key => expected.contains key) &&
    expected.all fun key => entry.keys.contains key

/-- The keys of the entries of a kind. -/
def expectedKeys : Option Json → Option (List String)
  | some (.str "directory") => some ["path", "kind", "mode"]
  | some (.str "file") => some ["path", "kind", "mode", "size", "sha256"]
  | some (.str "symlink") => some ["path", "kind", "target"]
  | _ => none

def isObject : Json → Bool
  | .obj _ => true
  | _ => false

/-- The evidence about the content of a file. -/
def fileEvidence (entry : Json) : Recovered (Nat × Digest) :=
  match entry.get? "size", entry.get? "sha256" with
  | some (.int size), some (.str sha256) =>
      if h : 0 ≤ size ∧ isSha256 sha256.toList = true then .ok (size.toNat, ⟨sha256, h.2⟩)
      else .error (.recovery "Recovery manifest file evidence is invalid.")
  | _, _ => .error (.recovery "Recovery manifest file evidence is invalid.")

/-- The checks of one entry, against the paths before it. -/
def parse (seen : List SafePath) (entry : Json) : Recovered RecoveryEntry := do
  demand (isObject entry = true) "Recovery manifest entry must be an object."
  let kind := entry.get? "kind"
  demand ((expectedKeys kind).any (hasKeys entry) = true)
    "Recovery manifest entry fields are invalid."
  let path ← safeRelative (entry.get? "path")
  demand (path.parts.length ≤ 64 ∧ path.asPosix.length ≤ 4096 ∧ path ∉ seen)
    "Recovery manifest entry path is duplicated or too large."
  if kind = some (.str "symlink") then
    return .symlink path (← safeRelative (entry.get? "target"))
  let mode ← safeMode (entry.get? "mode")
  if kind = some (.str "directory") then
    return .directory path mode
  let evidence ← fileEvidence entry
  return .file path mode evidence.1 evidence.2

theorem path_not_mem_of_parse {seen : List SafePath} {entry : Json} {parsed : RecoveryEntry}
    (h : parse seen entry = .ok parsed) : parsed.path ∉ seen := by
  unfold parse at h
  obtain ⟨_, -, h⟩ := Results.bind_eq_ok.mp h
  obtain ⟨_, -, h⟩ := Results.bind_eq_ok.mp h
  obtain ⟨path, -, h⟩ := Results.bind_eq_ok.mp h
  obtain ⟨_, hpath, h⟩ := Results.bind_eq_ok.mp h
  have hseen := (demand_eq_ok.mp hpath).2.2
  -- every kind keeps the path that was checked
  split at h
  · obtain ⟨target, -, h⟩ := Results.bind_eq_ok.mp h
    obtain rfl := Except.ok.inj h
    exact hseen
  · obtain ⟨mode, -, h⟩ := Results.bind_eq_ok.mp h
    split at h
    · obtain rfl := Except.ok.inj h
      exact hseen
    · obtain ⟨evidence, -, h⟩ := Results.bind_eq_ok.mp h
      obtain rfl := Except.ok.inj h
      exact hseen

end RecoveryEntry

/-- Accepted entries. -/
structure RecoveryEntries where
  list : List RecoveryEntry
  distinct : (list.map RecoveryEntry.path).Nodup
  present : ∀ entry ∈ list, ∀ target, entry.target? = some target →
    target ∈ list.map RecoveryEntry.path

namespace RecoveryEntries

/-- The loop of `_validate_entries`; the entries that passed come in reverse order. -/
def validateLoop (seen : {list : List RecoveryEntry // (list.map RecoveryEntry.path).Nodup}) :
    List Json → Recovered {list : List RecoveryEntry // (list.map RecoveryEntry.path).Nodup}
  | [] => .ok seen
  | entry :: rest =>
      match h : RecoveryEntry.parse (seen.val.map RecoveryEntry.path) entry with
      | .error e => .error e
      | .ok parsed =>
          validateLoop ⟨parsed :: seen.val,
            List.nodup_cons.mpr ⟨RecoveryEntry.path_not_mem_of_parse h, seen.property⟩⟩ rest

/-- `_validate_entries`. -/
def validate (entries : List Json) : Recovered RecoveryEntries := do
  demand (entries.length ≤ 100000) "Recovery manifest contains too many entries."
  let parsed ← validateLoop ⟨[], List.nodup_nil⟩ entries
  if h : ∀ entry ∈ parsed.val, ∀ target ∈ entry.target?,
      target ∈ parsed.val.map RecoveryEntry.path then
    .ok {
      list := parsed.val.reverse
      distinct := by
        rw [List.map_reverse]
        exact List.nodup_reverse.mpr parsed.property
      present := by
        intro entry hentry target htarget
        rw [List.map_reverse, List.mem_reverse]
        exact h entry (List.mem_reverse.mp hentry) target htarget }
  else .error (.recovery "Recovery symlink target is not present in the backup.")

/-- `_entries_total_bytes`. -/
def totalBytes (entries : RecoveryEntries) : Nat :=
  (entries.list.map fun
    | .file _ _ size _ => size
    | _ => 0).sum

end RecoveryEntries

/-! ### Manifests -/

/-- `tag_` and then up to `maximum` characters of an identifier. -/
def isTagged (tag : List Char) (maximum : Nat) (cs : List Char) : Bool :=
  tag.isPrefixOf cs && (cs.drop tag.length).head?.any Char.isAlphanum &&
    decide ((cs.drop tag.length).length ≤ maximum + 1) &&
    (cs.drop tag.length).all fun c => c.isAlphanum || c == '.' || c == '_' || c == '-'

def isBackupId (cs : List Char) : Bool := isTagged "backup_".toList 119 cs

def isHostId (cs : List Char) : Bool := isTagged "host_".toList 126 cs

abbrev BackupId := Refined isBackupId

abbrev HostId := Refined isHostId

/-- `_valid_version`. -/
def isRecoveryVersion (cs : List Char) : Bool :=
  !cs.isEmpty && decide (cs.length ≤ 128) && cs.all fun c => c != '\x00' && !PyText.isSpace c

variable [Platform]

/-- `_valid_utc`. -/
def isZulu (cs : List Char) : Bool :=
  cs.getLast? == some 'Z' && (parseUtc (String.ofList (cs.dropLast ++ "+00:00".toList))).isSome

/-- `value != 1` does not hold: `True` and `1.0` are equal to 1. -/
def equalsOne : Option Json → Bool
  | some (.int n) => n == 1
  | some (.bool b) => b
  | some (.float r) => r.text == "1.0".toList
  | _ => false

/-- `canonical_digest`. -/
def canonicalDigest (value : Json) : Digest :=
  digestText (canonicalJson value)

/-- The manifest inside a recovery archive. -/
structure InternalManifest where
  hostId : HostId
  backupId : BackupId
  createdAt : Refined isZulu
  version : Refined isRecoveryVersion
  entries : RecoveryEntries
  entriesDigest : Digest

/-- The manifest beside an encrypted backup object, with what a restore reads of it. -/
structure ExternalManifest where
  hostId : HostId
  backupId : BackupId
  entriesDigest : Digest

def internalManifestKeys : List String :=
  ["schema_version", "kind", "host_id", "backup_id", "created_at", "ophelia_version", "entries",
    "entries_digest"]

/-- A text field of a manifest. -/
def manifestField (p : List Char → Bool) (value : Json) (key : String) (message : String) :
    Recovered (Refined p) :=
  match value.get? key with
  | some (.str s) => if h : p s.toList = true then .ok ⟨s, h⟩ else .error (.recovery message)
  | _ => .error (.recovery message)

/-- `_load_internal_manifest` of the value that was read. -/
def InternalManifest.load (value : Json) : Recovered InternalManifest := do
  let invalid := "Encrypted host recovery manifest is invalid."
  demand (RecoveryEntry.isObject value = true) "Recovery JSON evidence must be an object."
  demand (RecoveryEntry.hasKeys value internalManifestKeys = true) invalid
  demand (equalsOne (value.get? "schema_version") = true) invalid
  demand (value.get? "kind" = some (.str "ophelia.host-recovery-manifest")) invalid
  match value.get? "entries" with
  | some (.arr entries) =>
      let entriesDigest ← manifestField isSha256 value "entries_digest" invalid
      demand (canonicalDigest (.arr entries) = entriesDigest) invalid
      let hostId ← manifestField isHostId value "host_id" invalid
      let createdAt ← manifestField isZulu value "created_at" invalid
      let version ← manifestField isRecoveryVersion value "ophelia_version" invalid
      let backupId ← manifestField isBackupId value "backup_id" "Host backup id is invalid."
      let entries ← RecoveryEntries.validate entries
      return { hostId, backupId, createdAt, version, entries, entriesDigest }
  | _ => .error (.recovery invalid)

end Ophelia
