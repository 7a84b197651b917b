import Ophelia.Daemon.RestoreContainment
import Ophelia.Domain.Reference

/-!
# Ophelia.Daemon.RestorePublished

The published tree of a clean restore. The payload keeps what the restore built when the journal
is checked and the receipt is written, and it is published as it is, so a link of the manifest
leads where its declared target leads. `restore_contained` puts the parts together.
-/

namespace Ophelia

open FileTree Program

variable {tools : RestoreTools} {restore : CleanRestore}

/-! ### Leaving the receipt -/

/-- The payload with all its links, on the disk alone. -/
structure Arranged (restore : CleanRestore) (entries : List RecoveryEntry) (disk : HostDisk) :
    Prop where
  opened : Opened disk.view restore.extracted
  stands : ∀ entry ∈ entries, Stands restore disk entry
  declared : ∀ path steps, restore.extracted <+: path → disk.view path = some (.link steps) →
    ∃ s t, .symlink s t ∈ entries ∧ path = restore.payload ++ s.parts
  linked : ∀ s t, .symlink s t ∈ entries → disk.view (restore.payload ++ s.parts) =
    some (.link (relative (restore.payload ++ t.parts) (restore.payload ++ s.parts).dropLast))

theorem Built.arranged {entries : List RecoveryEntry} {work : Work}
    (h : Built restore entries entries work) : Arranged restore entries work.disk :=
  ⟨h.opened, h.stands, h.declared, h.linked⟩

namespace Arranged

variable {entries : List RecoveryEntry} {disk : HostDisk}

theorem mono {disk' : HostDisk} (h : Arranged restore entries disk)
    (hextends : Extends disk disk') : Arranged restore entries disk' where
  opened := hextends.grows.opened h.opened
  stands entry hentry := (h.stands entry hentry).grows hextends.grows
  declared path steps hpath hnode := h.declared path steps hpath (hextends.links path steps hnode)
  linked s t hst := hextends.grows _ _ (h.linked s t hst)

/-- A file in the place of what is no link. -/
theorem put {place : List String} {mode : Nat} {content : List UInt8}
    (h : Arranged restore entries disk) (hreplaces : disk.Replaces place (.regular mode content))
    (hlink : ∀ steps, disk.view place ≠ some (.link steps)) :
    Arranged restore entries (disk.put place (.regular mode content) hreplaces) where
  opened := by
    intro q hq hne
    obtain ⟨m, hm⟩ := h.opened q hq hne
    refine ⟨m, ?_⟩
    rw [Disk.view_put, if_neg]
    · exact hm
    · intro heq
      have hdirectory := hreplaces.2.2
      rw [← heq, hm] at hdirectory
      cases hdirectory rfl
  stands entry hentry htarget := by
    obtain ⟨node, hnode, hplain⟩ := h.stands entry hentry htarget
    rw [Disk.view_put]
    by_cases heq : restore.payload ++ entry.path.parts = place
    · exact ⟨_, if_pos heq, rfl⟩
    · exact ⟨node, by rw [if_neg heq, hnode], hplain⟩
  declared path steps hpath hnode := by
    rw [Disk.view_put] at hnode
    by_cases heq : path = place
    · rw [if_pos heq] at hnode
      cases hnode
    · rw [if_neg heq] at hnode
      exact h.declared path steps hpath hnode
  linked s t hst := by
    have hnode := h.linked s t hst
    rw [Disk.view_put, if_neg]
    · exact hnode
    · exact fun heq => hlink _ (heq ▸ hnode)

end Arranged

theorem yields_secureWrite {entries : List RecoveryEntry} (path : List String) (mode : Nat)
    (content : List UInt8) :
    Yields (fun work => Arranged restore entries work.disk) (secureWrite tools path mode content)
      fun _ work => Arranged restore entries work.disk := by
  refine Yields.bind (R := fun _ work => Arranged restore entries work.disk) ?_ fun _ => ?_
  · intro work hwork
    have hkeeps : Keeps (fun w => Extends work.disk w.disk)
        (makeDirectories tools 0o750 path.dropLast.reverse) := keeps_extends_makeDirectories _ _
    exact (Yields.of_triple hkeeps).post (fun _ w hw => hwork.mono hw) work (Extends.refl _)
  · refine Yields.bind_get fun work hwork => Yields.ite (fun _ => Yields.raise) fun hsafe => ?_
    simp only [Bool.or_eq_true, not_or] at hsafe
    intro w hw final result hrun
    subst hw
    unfold replaceFile at hrun
    cases hplace : w.disk.place tools.links path with
    | error e =>
        rw [hplace] at hrun
        cases hrun
    | ok place =>
        simp only [hplace] at hrun
        by_cases hreplaces : w.disk.Replaces place (.regular mode content)
        · rw [dif_pos hreplaces] at hrun
          cases hrun
          refine hwork.put hreplaces fun steps hsteps => hsafe.1 ?_
          simp only [isSymlink, Disk.lstat, hplace, hsteps]
          rfl
        · rw [dif_neg hreplaces] at hrun
          cases hrun

/-- What is published is a payload with all its links. -/
theorem yields_publish {entries : List RecoveryEntry} (planned : Option Bool) :
    Yields (fun work => Arranged restore entries work.disk) (publish tools restore planned)
      fun view work => view = published restore work ∧ Arranged restore entries work.disk := by
  refine Yields.bind (R := fun _ work => Arranged restore entries work.disk) ?_ fun _ => ?_
  · refine Yields.bind_get fun work hwork => Yields.pre (P := fun w => Arranged restore entries
      w.disk) ?_ fun w hw => hw ▸ hwork
    refine Yields.ite (fun _ => Yields.ofExcept fun _ _ _ h => h) fun _ => ?_
    split
    · exact Yields.ofExcept fun _ _ _ h => h
    · exact Yields.ofExcept fun _ _ _ h => h
  · refine Yields.bind (yields_secureWrite _ _ _) fun _ => Yields.bind_get fun work hwork => ?_
    refine Yields.bind (R := fun _ w => w = work) (Yields.ofExcept fun _ _ _ h => h) fun _ => ?_
    refine Yields.pure fun w hw => ?_
    subst hw
    exact ⟨rfl, hwork⟩

/-! ### The published tree -/

section Published

variable {work : Work}

theorem published_targetRoot (path : List String) :
    published restore work (restore.targetRoot ++ path) =
      work.disk.view (restore.payload ++ path) := by
  unfold published
  rw [if_pos (List.prefix_append _ _), List.drop_left]

/-- Outside of what is moved everything stays. -/
theorem published_of_not_below {path : List String} (htarget : ¬ restore.targetRoot <+: path)
    (hpayload : ¬ restore.payload <+: path) :
    published restore work path = work.disk.view path := by
  unfold published
  rw [if_neg htarget, if_neg hpayload]

theorem parent_prefix_extracted : restore.parent <+: restore.extracted :=
  (List.prefix_append _ _).trans (List.prefix_append _ _)

/-- A canonical directory of the payload is one of the published tree. -/
theorem opened_published {path : List String} (hparent : Opened work.disk.view restore.parent)
    (h : Opened work.disk.view (restore.payload ++ path)) :
    Opened (published restore work) (restore.targetRoot ++ path) := by
  intro q hq hne
  by_cases htarget : restore.targetRoot <+: q
  · obtain ⟨rest, rfl⟩ := htarget
    rw [published_targetRoot]
    exact h _ ((List.prefix_append_right_inj _).mpr ((List.prefix_append_right_inj _).mp hq))
      (by simp [CleanRestore.payload])
  · -- the path ends above the target
    have habove : q <+: restore.targetRoot :=
      (List.prefix_or_prefix_of_prefix hq (List.prefix_append _ _)).resolve_right htarget
    have hqparent : q <+: restore.parent := by
      rcases List.prefix_concat_iff.mp habove with heq | hqparent
      · exact absurd (heq ▸ List.prefix_refl _) htarget
      · exact hqparent
    rw [published_of_not_below htarget]
    · exact hparent q hqparent hne
    · intro hpayload
      have hlength := (hpayload.trans hqparent).length_le
      simp only [CleanRestore.payload, CleanRestore.extracted, CleanRestore.staging,
        List.length_append, List.length_singleton] at hlength
      omega

variable {entries : List RecoveryEntry}

namespace Arranged

theorem openedParent (h : Arranged restore entries work.disk) :
    Opened work.disk.view restore.parent :=
  h.opened.of_front parent_prefix_extracted

/-- The directory of a path of the payload that is there. -/
theorem opened_published_dropLast (h : Arranged restore entries work.disk) {path : SafePath}
    {node : FileTree.Node String (List UInt8)}
    (hnode : work.disk.view (restore.payload ++ path.parts) = some node) :
    Opened (published restore work) (restore.targetRoot ++ path.parts.dropLast) := by
  have hopened := Disk.opened_of_view hnode
  rw [List.dropLast_append_of_ne_nil path.parts_ne_nil] at hopened
  exact opened_published h.openedParent hopened

theorem append_parts (base : List String) (path : SafePath) :
    base ++ path.parts = (base ++ path.parts.dropLast) ++ [path.parts.getLast path.parts_ne_nil] := by
  rw [List.append_assoc, List.dropLast_append_getLast]

/-- An entry that is no link is found where it was declared. -/
theorem lookup_standing (h : Arranged restore entries work.disk) {entry : RecoveryEntry}
    (hentry : entry ∈ entries) (htarget : entry.target? = none) (links : Nat) :
    lookup (published restore work) links (restore.targetRoot ++ entry.path.parts) =
      .ok (restore.targetRoot ++ entry.path.parts) := by
  obtain ⟨node, hnode, hlink⟩ := h.stands entry hentry htarget
  have hopened := h.opened_published_dropLast hnode
  rw [← published_targetRoot] at hnode
  rw [append_parts] at hnode ⊢
  exact FileTree.lookup_standing hopened hnode hlink links

/-- A link is followed to its declared target. -/
theorem lookup_link (h : Arranged restore entries work.disk) {path target : SafePath}
    (hentry : .symlink path target ∈ entries) (links : Nat) :
    lookup (published restore work) (links + 1) (restore.targetRoot ++ path.parts) =
      lookup (published restore work) links (restore.targetRoot ++ target.parts) := by
  have hnode := h.linked path target hentry
  have hopened := h.opened_published_dropLast hnode
  rw [List.dropLast_append_of_ne_nil path.parts_ne_nil, relative_append,
    ← relative_append restore.targetRoot, ← published_targetRoot] at hnode
  rw [append_parts] at hnode ⊢
  exact FileTree.lookup_link hopened hnode links

theorem lookup_link_zero (h : Arranged restore entries work.disk) {path target : SafePath}
    (hentry : .symlink path target ∈ entries) :
    lookup (published restore work) 0 (restore.targetRoot ++ path.parts) =
      .error .tooManyLinks := by
  have hnode := h.linked path target hentry
  have hopened := h.opened_published_dropLast hnode
  rw [← published_targetRoot] at hnode
  rw [append_parts] at hnode ⊢
  exact FileTree.lookup_link_zero hopened hnode

end Arranged

end Published

/-! ### Links that end -/

section LinkEnds

variable {work : Work} {entries : RecoveryEntries}

/-- Declared targets that end are found in the target root. -/
theorem lookup_of_ends (h : Arranged restore entries.list work.disk) {path : SafePath}
    (hpath : path ∈ entries.list.map RecoveryEntry.path) (hends : LinkEnds entries.list path) :
    ∃ links place, lookup (published restore work) links (restore.targetRoot ++ path.parts) =
      .ok place ∧ restore.targetRoot <+: place := by
  induction hends with
  | standing hnone =>
      obtain ⟨entry, hentry, rfl⟩ := List.mem_map.mp hpath
      refine ⟨0, _, h.lookup_standing hentry ?_ 0, List.prefix_append _ _⟩
      cases entry with
      | directory path mode => rfl
      | file path mode size sha256 => rfl
      | symlink path target => exact absurd hentry (hnone target)
  | @link path target hentry _ ih =>
      obtain ⟨links, place, hplace, hinside⟩ := ih (entries.present _ hentry target rfl)
      exact ⟨links + 1, place, (h.lookup_link hentry links).trans hplace, hinside⟩

/-- What is found ends. -/
theorem ends_of_lookup (h : Arranged restore entries.list work.disk) {links : Nat}
    {path : SafePath} {place : List String}
    (hlookup : lookup (published restore work) links (restore.targetRoot ++ path.parts) =
      .ok place) : LinkEnds entries.list path := by
  induction links generalizing path with
  | zero =>
      refine .standing fun t ht => ?_
      rw [h.lookup_link_zero ht] at hlookup
      cases hlookup
  | succ links ih =>
      by_cases hlink : ∃ t, .symlink path t ∈ entries.list
      · obtain ⟨t, ht⟩ := hlink
        rw [h.lookup_link ht] at hlookup
        exact .link ht (ih hlookup)
      · exact .standing fun t ht => hlink ⟨t, ht⟩

/-- The links of a published tree lead into it exactly if the declared targets end. -/
theorem linksInside_iff (h : Arranged restore entries.list work.disk) :
    LinksInside restore (published restore work) ↔
      ∀ s t, .symlink s t ∈ entries.list → LinkEnds entries.list s := by
  constructor
  · intro hinside s t hst
    have hnode := h.linked s t hst
    rw [← published_targetRoot] at hnode
    obtain ⟨links, place, hlookup, -⟩ := hinside _ _ (List.prefix_append _ _) hnode
    exact ends_of_lookup h hlookup
  · intro hends path steps hpath hnode
    obtain ⟨rest, rfl⟩ := hpath
    rw [published_targetRoot] at hnode
    obtain ⟨s, t, hst, heq⟩ := h.declared _ steps (extracted_below restore rest) hnode
    rw [List.append_cancel_left heq]
    exact lookup_of_ends h (List.mem_map_of_mem hst) (hends s t hst)

end LinkEnds

/-! ### Whole restores -/

/-- The log is read from here on. -/
def Work.observed (work : Work) : Work := { work with touched := [] }

theorem Unpacked.unlinked {work : Work} (h : Unpacked restore restore.extracted work.disk) :
    Unlinked restore work.observed where
  opened := h.opened
  inside := nofun
  exact := nofun
  plain path node hpath hnode :=
    h.plain path node ((List.prefix_append _ _).trans hpath) hnode
  unlinked := nofun

variable [Platform]

/-- Verification and the making of links touch the payload only, every link is made at its
declared path, and the links of the published tree lead into it. -/
structure StaysInside (tools : RestoreTools) (restore : CleanRestore) (planned : Option Bool)
    (internal : InternalManifest) (work : Work) : Prop where
  inside : ∀ touch ∈ (buildPayload tools restore internal work).1.touched,
    restore.payload <+: touch.place
  exact : ∀ declared place,
    .linked declared place ∈ (buildPayload tools restore internal work).1.touched →
      place = declared
  resolves : ∀ final view,
    rebuild tools restore planned internal work = (final, .returned view) →
      LinksInside restore view

/-- A rebuild that returns has built the payload. -/
theorem buildPayload_of_rebuild {planned : Option Bool} {internal : InternalManifest}
    {work final : Work} {view : View String (List UInt8)}
    (h : rebuild tools restore planned internal work = (final, .returned view)) :
    ∃ built, buildPayload tools restore internal work = (built, .returned ()) ∧
      publish tools restore planned built = (final, .returned view) := by
  change andThen (buildPayload tools restore internal) (fun _ => publish tools restore planned)
    work = _ at h
  unfold andThen at h
  cases hbuild : buildPayload tools restore internal work with
  | mk built outcome =>
      rw [hbuild] at h
      cases outcome with
      | returned u => exact ⟨built, rfl, h⟩
      | raised e => cases h
      | crashed => cases h

/-- Without a link below another a restore stays inside, as far as it comes. -/
theorem staysInside_of_noneBelow {planned : Option Bool} {internal : InternalManifest}
    {work : Work} (hwork : Unlinked restore work) (hbelow : NoneBelow internal.entries.list)
    (hends : ∀ s t, .symlink s t ∈ internal.entries.list → LinkEnds internal.entries.list s) :
    StaysInside tools restore planned internal work := by
  have hcontains : Contains restore (buildPayload tools restore internal work).1 :=
    Triple.always ((triple_buildPayload hbelow).post fun _ _ h => h.toContains) hwork
  refine ⟨hcontains.inside, hcontains.exact, fun final view hrebuild => ?_⟩
  obtain ⟨built, hbuilt, hpublish⟩ := buildPayload_of_rebuild hrebuild
  have harranged := (Yields.of_triple (triple_buildPayload hbelow) work hwork built ()
    hbuilt).arranged
  obtain ⟨rfl, hfinal⟩ := yields_publish planned built harranged final view hpublish
  exact (linksInside_iff hfinal).mpr hends

/-- A restore whose archive and manifest are accepted stays inside its target if no link is
declared below another and the links come to an end, and, when it publishes, only then. -/
theorem restore_contained {disk : HostDisk} {internal : InternalManifest} {work : Work}
    {planned : Option Bool}
    (hunpack : unpack tools restore ⟨disk, []⟩ = (work, .returned internal)) :
    let inside := StaysInside tools restore planned internal work.observed
    let safe := NoneBelow internal.entries.list ∧
      ∀ s t, .symlink s t ∈ internal.entries.list → LinkEnds internal.entries.list s
    (safe → inside) ∧
      ((∃ final view, rebuild tools restore planned internal work.observed =
        (final, .returned view)) → (inside ↔ safe)) := by
  intro inside safe
  have hunlinked := (yields_unpack ⟨disk, []⟩ trivial work internal hunpack).unlinked
  have hsafe : safe → inside := fun h => staysInside_of_noneBelow hunlinked h.1 h.2
  refine ⟨hsafe, fun ⟨final, view, hrebuild⟩ => ⟨fun hinside => ?_, hsafe⟩⟩
  obtain ⟨built, hbuilt, hpublish⟩ := buildPayload_of_rebuild hrebuild
  have hexact := hinside.exact
  rw [hbuilt] at hexact
  -- the links stand where they were declared, so none is declared below another
  obtain ⟨all, hall, htraced⟩ := yields_buildPayload internal work.observed hunlinked built () hbuilt
  have hbelow := htraced.noneBelow hall hexact
  have harranged := (Yields.of_triple (triple_buildPayload hbelow) _ hunlinked built () hbuilt).arranged
  obtain ⟨rfl, hfinal⟩ := yields_publish planned built harranged final view hpublish
  exact ⟨hbelow, (linksInside_iff hfinal).mp (hinside.resolves final _ hrebuild)⟩

end Ophelia

namespace Ophelia.Reference

open FileTree

/-! ### A restore to run -/

def zeroDigest : Digest := ⟨String.ofList ("sha256:".toList ++ List.replicate 64 '0'), by decide +kernel⟩

/-- The reference platform, with one digest for every text, reading one time with an offset. -/
@[reducible] def offsetPlatform : Platform where
  digestText _ := zeroDigest
  parseUtc s :=
    if s = "2026-01-01T00:00:01+00:00" then some 1767225601000000 else platform.parseUtc s
  fromTimestamp := platform.fromTimestamp
  isoformat := platform.isoformat
  addSeconds := platform.addSeconds
  second := platform.second
  parseUtc_isoformat := by
    intro t d h
    rw [if_neg]
    · exact platform.parseUtc_isoformat h
    · intro heq
      change isoformat d = _ at heq
      have hlast := congrArg (fun s : String => s.toList.getLast?) heq
      simp [isoformat] at hlast
  count_slash_of_parseUtc := by
    intro s d h
    by_cases heq : s = "2026-01-01T00:00:01+00:00"
    · rw [heq]
      decide
    · rw [if_neg heq] at h
      exact platform.count_slash_of_parseUtc h

attribute [local instance] offsetPlatform

def recoveryManifest (entries : List Json) : Json :=
  .obj [("schema_version", .int 1), ("kind", .str "ophelia.host-recovery-manifest"),
    ("host_id", .str "host_a"), ("backup_id", .str "backup_a"),
    ("created_at", .str "2026-01-01T00:00:01Z"), ("ophelia_version", .str "1.0"),
    ("entries", .arr entries), ("entries_digest", .str zeroDigest.val)]

/-- Tools for which the manifest of every archive has the given entries. -/
def restoreTools (entries : List Json) : RestoreTools where
  links := 40
  parentMode := 0o755
  nfc := id
  readJson _ := some (recoveryManifest entries)
  sha256 _ := zeroDigest
  database _ _ := .ok ()

def directoryEntry (path : String) : Json :=
  .obj [("path", .str path), ("kind", .str "directory"), ("mode", .int 0o755)]

def symlinkEntry (path target : String) : Json :=
  .obj [("path", .str path), ("kind", .str "symlink"), ("target", .str target)]

def databaseEntry : Json :=
  .obj [("path", .str "host-state/operations.db"), ("kind", .str "file"), ("mode", .int 0o600),
    ("size", .int 0), ("sha256", .str zeroDigest.val)]

def tarDirectory (name : String) : TarMember := ⟨name, .directory, false, 0, []⟩

def tarFile (name : String) : TarMember := ⟨name, .regular, false, 0, []⟩

/-- An archive with a directory and the journal in it. -/
def cleanRestore : CleanRestore where
  parent := []
  target := "ophelia"
  nonce := "0"
  manifest := ⟨⟨"host_a", by decide⟩, ⟨"backup_a", by decide⟩, zeroDigest⟩
  archive := {
    name := "recovery.tar.gz"
    sourceBytes := 1
    zstd := false
    members := [tarFile "recovery-manifest.json", tarDirectory "payload",
      tarDirectory "payload/host-state", tarFile "payload/host-state/operations.db"]
    readable := true
    terminated := true }
  maximumBytes := 1048576
  receipt := []

def emptyDisk : HostDisk := ⟨.empty, nofun⟩

/-- A run that returns, with a test of its end. -/
def returns {σ ε α : Type} (run : σ × Program.Outcome ε α) (test : σ → α → Bool) : Bool :=
  match run with
  | (s, .returned a) => test s a
  | _ => false

theorem exists_of_returns {σ ε α : Type} {run : σ × Program.Outcome ε α} {test : σ → α → Bool}
    (h : returns run test = true) : ∃ s a, run = (s, .returned a) ∧ test s a = true := by
  obtain ⟨s, a | e | -⟩ := run
  · exact ⟨s, a, rfl, h⟩
  · cases h
  · cases h

/-- A run of a clean restore that publishes, with a test of its end. -/
def publishes (entries : List Json)
    (test : InternalManifest → List Touch → Bool) : Bool :=
  returns (unpack (restoreTools entries) cleanRestore ⟨emptyDisk, []⟩) fun work internal =>
    returns (rebuild (restoreTools entries) cleanRestore (some false) internal work.observed)
      fun _ _ => test internal
        (buildPayload (restoreTools entries) cleanRestore internal work.observed).1.touched

theorem exists_of_publishes {entries : List Json} {test : InternalManifest → List Touch → Bool}
    (h : publishes entries test = true) :
    ∃ work internal final view,
      unpack (restoreTools entries) cleanRestore ⟨emptyDisk, []⟩ = (work, .returned internal) ∧
      rebuild (restoreTools entries) cleanRestore (some false) internal work.observed =
        (final, .returned view) ∧
      test internal (buildPayload (restoreTools entries) cleanRestore internal
        work.observed).1.touched = true := by
  obtain ⟨work, internal, hunpack, h⟩ := exists_of_returns h
  obtain ⟨final, view, hrebuild, h⟩ := exists_of_returns h
  exact ⟨work, internal, final, view, hunpack, hrebuild, h⟩

/-- A link beside the directory it leads to. -/
def plainEntries : List Json :=
  [directoryEntry "host-state", databaseEntry, symlinkEntry "current" "host-state"]

/-- The declared links of a list of entries. -/
def declaredLinks (entries : List RecoveryEntry) : List (List String × List String) :=
  entries.filterMap fun entry => entry.target?.map fun target => (entry.path.parts, target.parts)

theorem mem_declaredLinks {entries : List RecoveryEntry} {s t : SafePath}
    (h : .symlink s t ∈ entries) : (s.parts, t.parts) ∈ declaredLinks entries :=
  List.mem_filterMap.mpr ⟨_, h, rfl⟩

theorem restore_contained_plain :
    ∃ work internal final view,
      unpack (restoreTools plainEntries) cleanRestore ⟨emptyDisk, []⟩ =
        (work, .returned internal) ∧
      rebuild (restoreTools plainEntries) cleanRestore (some false) internal work.observed =
        (final, .returned view) ∧
      NoneBelow internal.entries.list ∧
      StaysInside (restoreTools plainEntries) cleanRestore (some false) internal
        work.observed := by
  have hrun : publishes plainEntries (fun internal _ =>
      declaredLinks internal.entries.list == [(["current"], ["host-state"])]) = true := by
    decide +kernel
  obtain ⟨work, internal, final, view, hunpack, hrebuild, hlinks⟩ := exists_of_publishes hrun
  have hlink : ∀ s t, .symlink s t ∈ internal.entries.list →
      s.parts = ["current"] ∧ t.parts = ["host-state"] := by
    intro s t hst
    have hmem := mem_declaredLinks hst
    rw [eq_of_beq hlinks, List.mem_singleton] at hmem
    exact Prod.mk.inj hmem
  have hbelow : NoneBelow internal.entries.list :=
    fun s t s' t' hst hst' _ => (hlink s t hst).1.trans (hlink s' t' hst').1.symm
  have hends : ∀ s t, .symlink s t ∈ internal.entries.list → LinkEnds internal.entries.list s := by
    intro s t hst
    refine .link hst (.standing fun t' ht' => ?_)
    have hparts := (hlink s t hst).2.symm.trans (hlink t t' ht').1
    simp at hparts
  exact ⟨work, internal, final, view, hunpack, hrebuild, hbelow,
    ((restore_contained hunpack).2 ⟨final, view, hrebuild⟩).mpr ⟨hbelow, hends⟩⟩

/-- A link below the link: it is made in the directory that the first one leads to. -/
def nestedEntries : List Json :=
  plainEntries ++ [symlinkEntry "current/more" "host-state"]

theorem not_contained_nested :
    ∃ work internal final view,
      unpack (restoreTools nestedEntries) cleanRestore ⟨emptyDisk, []⟩ =
        (work, .returned internal) ∧
      rebuild (restoreTools nestedEntries) cleanRestore (some false) internal work.observed =
        (final, .returned view) ∧
      ¬ StaysInside (restoreTools nestedEntries) cleanRestore (some false) internal
        work.observed := by
  have hrun : publishes nestedEntries (fun _ touched => touched.any fun
      | .linked declared place => place != declared
      | _ => false) = true := by
    decide +kernel
  obtain ⟨work, internal, final, view, hunpack, hrebuild, htest⟩ := exists_of_publishes hrun
  refine ⟨work, internal, final, view, hunpack, hrebuild, fun hinside => ?_⟩
  obtain ⟨touch, htouch, hplace⟩ := List.any_eq_true.mp htest
  cases touch with
  | made place => cases hplace
  | moded place => cases hplace
  | linked declared place =>
      rw [hinside.exact declared place htouch] at hplace
      simp at hplace

end Ophelia.Reference