import Mathlib
import Ophelia.Lib.Incremental
import Ophelia.Lib.Results
import Ophelia.Lib.Segments
import Ophelia.Validation.Archives

/-!
# Ophelia.Validation.ArchiveExact

What the inspection of archives accepts: the requirements on members, paths and totals, stated
without an order, and the checks of the loop over the headers, which see one member after another.

Paths are normalized in the middle of their checks. All of them but one could be made afterwards as
well. The drive letter cannot: normalization turns the Kelvin sign into the letter `K`, so that a
drive path comes out of a name that is none (`inspection_exact_iff`).
-/

namespace Ophelia

open Results

/-! ### Normalization -/

/-- Characters that no normalization form touches, composes or produces. -/
def Structural (c : Char) : Prop :=
  c ∈ ['/', '.', '\\', ':'] ∨ isControl c = true

instance (c : Char) : Decidable (Structural c) := inferInstanceAs (Decidable (_ ∨ _))

/-- What is documented of the normalization form C and used here: it is idempotent, it keeps ASCII
text, and it keeps structural characters and normalizes what stands before and behind them. -/
structure IsNormalization (nfc : List Char → List Char) : Prop where
  idempotent : ∀ cs, nfc (nfc cs) = nfc cs
  ascii : ∀ cs, (∀ c ∈ cs, c.toNat < 128) → nfc cs = cs
  split : ∀ c, Structural c → ∀ cs ds, nfc (cs ++ c :: ds) = nfc cs ++ c :: nfc ds
  none_new : ∀ c, Structural c → ∀ cs, c ∈ nfc cs → c ∈ cs
  nonempty : ∀ cs, nfc cs = [] → cs = []

namespace IsNormalization

variable {nfc : List Char → List Char}

theorem nil (h : IsNormalization nfc) : nfc [] = [] := h.ascii [] (by simp)

theorem cons (h : IsNormalization nfc) {c : Char} (hc : Structural c) (cs : List Char) :
    nfc (c :: cs) = c :: nfc cs := by
  have hsplit := h.split c hc [] cs
  rwa [h.nil] at hsplit

theorem mem_iff (h : IsNormalization nfc) {c : Char} (hc : Structural c) {cs : List Char} :
    c ∈ nfc cs ↔ c ∈ cs := by
  constructor
  · exact h.none_new c hc cs
  · intro hmem
    obtain ⟨before, after, rfl⟩ := List.append_of_mem hmem
    rw [h.split c hc]
    exact List.mem_append_right _ List.mem_cons_self

end IsNormalization

/-! ### Checks of one path -/

namespace TarMember

def isDirectory (info : TarMember) : Bool := decide (info.type = .directory)

/-- The path of a member before it is normalized. -/
def candidate (info : TarMember) : List Char := withoutDot info.name.toList

def normalized (info : TarMember) (nfc : List Char → List Char) : List Char :=
  nfc (withoutSlash info.isDirectory info.candidate)

/-- The canonical path of a member. -/
def path (info : TarMember) (nfc : List Char → List Char) : List (List Char) :=
  (info.normalized nfc).splitOn '/'

end TarMember

/-- The checks of `_canonical_path`. -/
structure PathChecks (nfc : List Char → List Char) (limits : ArchiveLimits) (info : TarMember) :
    Prop where
  named : info.name.toList ≠ []
  backslash : '\\' ∉ info.name.toList
  control : ∀ c ∈ info.name.toList, isControl c = false
  dotted : ['.', '/'].isPrefixOf info.candidate = false
  relative : info.candidate.head? ≠ some '/'
  drive : isDrivePath info.candidate = false
  nonempty : info.normalized nfc ≠ []
  segments : ∀ segment ∈ info.path nfc, segment ∉ [[], ['.'], ['.', '.']]
  length : utf8Length (info.normalized nfc) ≤ limits.maxPathBytes
  depth : (info.path nfc).length ≤ limits.maxPathDepth

theorem canonicalPath_eq_ok_iff {nfc : List Char → List Char} {limits : ArchiveLimits}
    {info : TarMember} {parts : List (List Char)} :
    canonicalPath nfc limits info.isDirectory info.name = .ok parts ↔
      PathChecks nfc limits info ∧ parts = info.path nfc := by
  unfold canonicalPath
  simp only [throw, throwThe, MonadExceptOf.throw, bind, Except.bind, pure, Except.pure]
  constructor
  · intro h
    split_ifs at h with hnamed hbackslash hcontrol hdotted habsolute hsegments hlength hdepth
    cases h
    rw [not_or] at habsolute hsegments
    refine ⟨⟨hnamed, hbackslash, fun c hc => ?_, Bool.eq_false_iff.mpr hdotted, habsolute.1,
      Bool.eq_false_iff.mpr habsolute.2, hsegments.1, fun segment hsegment hmem => ?_,
      not_lt.mp hlength, not_lt.mp hdepth⟩, rfl⟩
    · exact Bool.eq_false_iff.mpr fun h => hcontrol (List.any_eq_true.mpr ⟨c, hc, h⟩)
    · exact hsegments.2 (List.any_eq_true.mpr ⟨segment, hsegment, decide_eq_true hmem⟩)
  · rintro ⟨h, rfl⟩
    have hcontrol : ¬ info.name.toList.any isControl = true := by
      intro hany
      obtain ⟨c, hc, hany⟩ := List.any_eq_true.mp hany
      rw [h.control c hc] at hany
      cases hany
    have hsegments : ¬ (info.normalized nfc = [] ∨ (info.path nfc).any (fun segment =>
        decide (segment ∈ [[], ['.'], ['.', '.']])) = true) := by
      rintro (hempty | hany)
      · exact h.nonempty hempty
      · obtain ⟨segment, hsegment, hmem⟩ := List.any_eq_true.mp hany
        exact h.segments segment hsegment (of_decide_eq_true hmem)
    have habsolute : ¬ (info.candidate.head? = some '/' ∨ isDrivePath info.candidate = true) :=
      not_or.mpr ⟨h.relative, Bool.eq_false_iff.mp h.drive⟩
    rw [if_neg h.named, if_neg h.backslash, if_neg hcontrol]
    refine (if_neg (Bool.eq_false_iff.mp h.dotted)).trans ?_
    refine (if_neg habsolute).trans ((if_neg hsegments).trans ?_)
    exact (if_neg (not_lt.mpr h.length)).trans (if_neg (not_lt.mpr h.depth))

/-! ### What paths are required to be -/

/-- A canonical path that stays below the root, as a text after normalization; whether it begins
with a drive letter is left open. -/
structure CanonicalPath (limits : ArchiveLimits) (cs : List Char) : Prop where
  nonempty : cs ≠ []
  relative : cs.head? ≠ some '/'
  backslash : '\\' ∉ cs
  control : ∀ c ∈ cs, isControl c = false
  segments : ∀ segment ∈ cs.splitOn '/', segment ∉ [[], ['.'], ['.', '.']]
  length : utf8Length cs ≤ limits.maxPathBytes
  depth : (cs.splitOn '/').length ≤ limits.maxPathDepth

theorem mem_candidate {info : TarMember} {c : Char} (hc : c ≠ '.') (hslash : c ≠ '/') :
    c ∈ info.candidate ↔ c ∈ info.name.toList := by
  rw [TarMember.candidate]
  unfold withoutDot
  split
  · rename_i rest heq
    rw [heq]
    simp [hc, hslash]
  · rfl

theorem mem_withoutSlash {isDirectory : Bool} {cs : List Char} {c : Char} (hslash : c ≠ '/') :
    c ∈ withoutSlash isDirectory cs ↔ c ∈ cs := by
  rw [withoutSlash]
  split
  · rename_i h
    rw [Bool.and_eq_true, beq_iff_eq] at h
    obtain ⟨init, rfl⟩ := List.getLast?_eq_some_iff.mp h.2
    simp [hslash]
  · rfl

theorem withoutSlash_nil (isDirectory : Bool) : withoutSlash isDirectory [] = [] := by
  cases isDirectory <;> rfl

theorem withoutSlash_cons_cons (isDirectory : Bool) (c d : Char) (cs : List Char) :
    withoutSlash isDirectory (c :: d :: cs) = c :: withoutSlash isDirectory (d :: cs) := by
  rw [withoutSlash, withoutSlash, List.getLast?_cons_cons, List.dropLast_cons_cons]
  split
  · rfl
  · rfl

theorem withoutSlash_singleton {isDirectory : Bool} {c : Char} (hc : c ≠ '/') :
    withoutSlash isDirectory [c] = [c] := by
  rw [withoutSlash, if_neg]
  simp [hc]

/-- Behind its first character a path loses its last slash like any other. -/
theorem withoutSlash_cons {isDirectory : Bool} {c : Char} {cs : List Char}
    (h : c ≠ '/' ∨ cs ≠ []) :
    withoutSlash isDirectory (c :: cs) = c :: withoutSlash isDirectory cs := by
  cases cs with
  | nil =>
      rw [withoutSlash_nil]
      exact withoutSlash_singleton (h.resolve_right fun hne => hne rfl)
  | cons d cs => exact withoutSlash_cons_cons isDirectory c d cs

theorem withoutSlash_slash {isDirectory : Bool} {rest : List Char}
    (h : withoutSlash isDirectory ('/' :: rest) ≠ []) :
    ∃ cs, withoutSlash isDirectory ('/' :: rest) = '/' :: cs := by
  rw [withoutSlash] at h ⊢
  split
  · rename_i hlast
    rw [if_pos hlast] at h
    cases rest with
    | nil => exact absurd rfl h
    | cons c cs => exact ⟨(c :: cs).dropLast, rfl⟩
  · exact ⟨rest, rfl⟩

theorem structural_slash : Structural '/' := .inl (by decide)

theorem structural_dot : Structural '.' := .inl (by decide)

theorem structural_backslash : Structural '\\' := .inl (by decide)

theorem structural_colon : Structural ':' := .inl (by decide)

section Checks

variable {nfc : List Char → List Char} {limits : ArchiveLimits} {info : TarMember}

/-- Normalization keeps the characters that are forbidden. -/
theorem mem_normalized (hnfc : IsNormalization nfc) {c : Char} (hc : Structural c)
    (hdot : c ≠ '.') (hslash : c ≠ '/') :
    c ∈ info.normalized nfc ↔ c ∈ info.name.toList := by
  rw [TarMember.normalized, hnfc.mem_iff hc, mem_withoutSlash hslash, mem_candidate hdot hslash]

theorem ascii_of_isAlpha {c : Char} (h : c.isAlpha = true) : c.toNat < 128 := by
  simp only [Char.isAlpha, Char.isUpper, Char.isLower, Bool.or_eq_true, Bool.and_eq_true,
    decide_eq_true_eq] at h
  rcases h with h | h
  · exact Nat.lt_of_le_of_lt h.2 (by decide)
  · exact Nat.lt_of_le_of_lt h.2 (by decide)

/-- A drive path as written is one after normalization. -/
theorem isDrivePath_normalized (hnfc : IsNormalization nfc)
    (h : isDrivePath info.candidate = true) : isDrivePath (info.normalized nfc) = true := by
  rw [TarMember.normalized]
  cases hcandidate : info.candidate with
  | nil =>
      rw [hcandidate] at h
      cases h
  | cons c rest =>
      rw [hcandidate] at h
      unfold isDrivePath at h
      split at h
      · rename_i rest' heq
        cases heq
        have hne : c ≠ '/' := by
          rintro rfl
          exact absurd h (by decide)
        have hascii : ∀ d ∈ [c], d.toNat < 128 := by
          intro d hd
          rw [List.mem_singleton.mp hd]
          exact ascii_of_isAlpha h
        rw [withoutSlash_cons (.inl hne), withoutSlash_cons (.inl (by decide))]
        have hsplit := hnfc.split ':' structural_colon [c] (withoutSlash info.isDirectory rest')
        rw [hnfc.ascii [c] hascii] at hsplit
        rw [List.singleton_append, List.singleton_append] at hsplit
        rw [hsplit]
        exact h
      · cases h

theorem nil_mem_splitOn_of_head {cs : List Char} (h : cs.head? = some '/') :
    [] ∈ cs.splitOn '/' := by
  cases cs with
  | nil => cases h
  | cons c cs =>
      rw [Option.some.inj (show some c = some '/' from h), Segments.splitOn_cons_self]
      exact List.mem_cons_self

theorem mem_normalized_control (hnfc : IsNormalization nfc) {c : Char}
    (hc : isControl c = true) : c ∈ info.normalized nfc ↔ c ∈ info.name.toList := by
  refine mem_normalized hnfc (.inr hc) ?_ ?_
  · rintro rfl
    exact absurd hc (by decide)
  · rintro rfl
    exact absurd hc (by decide)

/-- A path that begins with a dot segment keeps it. -/
theorem dot_mem_path (hnfc : IsNormalization nfc)
    (h : ['.', '/'].isPrefixOf info.candidate = true) : ['.'] ∈ info.path nfc := by
  rw [List.isPrefixOf_iff_prefix] at h
  obtain ⟨rest, hrest⟩ := h
  rw [TarMember.path, TarMember.normalized, ← hrest, List.cons_append, List.singleton_append,
    withoutSlash_cons (.inl (by decide)), hnfc.cons structural_dot]
  by_cases hempty : withoutSlash info.isDirectory ('/' :: rest) = []
  · rw [hempty, hnfc.nil]
    exact List.mem_cons_self
  · obtain ⟨cs, hcs⟩ := withoutSlash_slash hempty
    rw [hcs, hnfc.cons structural_slash, Segments.splitOn_cons_ne (by decide),
      Segments.splitOn_cons_self]
    exact List.mem_cons_self

/-- An absolute path is absolute or empty after normalization. -/
theorem head_normalized (hnfc : IsNormalization nfc) (h : info.candidate.head? = some '/') :
    info.normalized nfc = [] ∨ (info.normalized nfc).head? = some '/' := by
  rw [TarMember.normalized]
  cases hcandidate : info.candidate with
  | nil =>
      rw [hcandidate] at h
      cases h
  | cons c rest =>
      rw [hcandidate] at h
      obtain rfl : c = '/' := Option.some.inj h
      by_cases hempty : withoutSlash info.isDirectory ('/' :: rest) = []
      · rw [hempty, hnfc.nil]
        exact .inl rfl
      · obtain ⟨cs, hcs⟩ := withoutSlash_slash hempty
        rw [hcs, hnfc.cons structural_slash]
        exact .inr rfl

/-- The checks of a path are made on the name and on the normalized path; on the normalized path
alone they are the same, the drive letter aside. -/
theorem pathChecks_iff (hnfc : IsNormalization nfc) : PathChecks nfc limits info ↔
    CanonicalPath limits (info.normalized nfc) ∧ isDrivePath info.candidate = false := by
  constructor
  · intro h
    refine ⟨⟨h.nonempty, ?_, ?_, ?_, h.segments, h.length, h.depth⟩, h.drive⟩
    · intro hhead
      exact h.segments [] (nil_mem_splitOn_of_head hhead) (by simp)
    · rw [mem_normalized hnfc structural_backslash (by decide) (by decide)]
      exact h.backslash
    · intro c hc
      by_contra hcontrol
      rw [Bool.not_eq_false] at hcontrol
      have hname := (mem_normalized_control hnfc hcontrol).mp hc
      rw [h.control c hname] at hcontrol
      cases hcontrol
  · rintro ⟨h, hdrive⟩
    refine ⟨?_, ?_, ?_, ?_, ?_, hdrive, h.nonempty, h.segments, h.length, h.depth⟩
    · intro hname
      refine h.nonempty ?_
      rw [TarMember.normalized, TarMember.candidate, hname]
      change nfc (withoutSlash _ []) = []
      rw [withoutSlash_nil, hnfc.nil]
    · rw [← mem_normalized hnfc structural_backslash (by decide) (by decide)]
      exact h.backslash
    · intro c hc
      by_contra hcontrol
      rw [Bool.not_eq_false] at hcontrol
      rw [h.control c ((mem_normalized_control hnfc hcontrol).mpr hc)] at hcontrol
      cases hcontrol
    · by_contra hdotted
      rw [Bool.not_eq_false] at hdotted
      exact h.segments ['.'] (dot_mem_path hnfc hdotted) (by simp)
    · intro hhead
      rcases head_normalized hnfc hhead with hempty | hslash
      · exact h.nonempty hempty
      · exact h.relative hslash

/-! ### Checks of one member -/

/-- The kind, size and path of a member, as the loop checks them before it compares the path. -/
structure MemberChecks (nfc : List Char → List Char) (limits : ArchiveLimits)
    (info : TarMember) : Prop where
  kind : info.type = .regular ∨ info.type = .directory
  dense : info.sparse = false
  sized : 0 ≤ info.size
  emptyDirectory : info.type = .directory → info.size = 0
  bounded : info.size.toNat ≤ limits.maxMemberBytes
  path : PathChecks nfc limits info

/-- The state after one more member. -/
def Inspected.add (seen : Inspected) (nfc : List Char → List Char) (info : TarMember) :
    Inspected where
  members := seen.members + 1
  destinations := info.path nfc :: seen.destinations
  fileDestinations :=
    if info.isDirectory then seen.fileDestinations else info.path nfc :: seen.fileDestinations
  requiredDirectories := ancestors (info.path nfc) ++ seen.requiredDirectories
  total := seen.total + info.size.toNat

/-- What a member is compared with. -/
structure SeenChecks (nfc : List Char → List Char) (limits : ArchiveLimits) (sourceBytes : Nat)
    (seen : Inspected) (info : TarMember) : Prop where
  count : seen.members + 1 ≤ limits.maxMembers
  fresh : info.path nfc ∉ seen.destinations
  above : ∀ ancestor ∈ ancestors (info.path nfc), ancestor ∉ seen.fileDestinations
  below : info.isDirectory = false → info.path nfc ∉ seen.requiredDirectories
  total : seen.total + info.size.toNat ≤ limits.maxTotalUnpackedBytes
  ratio : seen.total + info.size.toNat ≤ sourceBytes * limits.maxExpansionRatio

theorem memberKind_eq_ok_iff {type : MemberType} {isDirectory : Bool} :
    memberKind type = .ok isDirectory ↔
      (type = .regular ∨ type = .directory) ∧ isDirectory = decide (type = .directory) := by
  cases type <;> cases isDirectory <;> simp [memberKind]

/-- A turn of the loop goes on with exactly the members that pass all checks. -/
theorem inspectMember_eq_ok_iff {sourceBytes : Nat} {seen next : Inspected} :
    inspectMember nfc limits sourceBytes seen info = .ok next ↔
      MemberChecks nfc limits info ∧ SeenChecks nfc limits sourceBytes seen info ∧
        next = seen.add nfc info := by
  unfold inspectMember
  constructor
  · intro h
    obtain ⟨hcount, h⟩ := guard_eq_ok.mp h
    obtain ⟨hsparse, h⟩ := guard_eq_ok.mp h
    obtain ⟨isDirectory, hkind, h⟩ := bind_eq_ok.mp h
    obtain ⟨hkinds, rfl⟩ := memberKind_eq_ok_iff.mp hkind
    obtain ⟨hnegative, h⟩ := guard_eq_ok.mp h
    obtain ⟨hdirectory, h⟩ := guard_eq_ok.mp h
    obtain ⟨hlarge, h⟩ := guard_eq_ok.mp h
    obtain ⟨parts, hpath, h⟩ := bind_eq_ok.mp h
    obtain ⟨hchecks, rfl⟩ := canonicalPath_eq_ok_iff.mp hpath
    obtain ⟨hfresh, h⟩ := guard_eq_ok.mp h
    obtain ⟨habove, h⟩ := guard_eq_ok.mp h
    obtain ⟨hbelow, h⟩ := guard_eq_ok.mp h
    obtain ⟨htotal, h⟩ := guard_eq_ok.mp h
    obtain ⟨hratio, h⟩ := guard_eq_ok.mp h
    rw [not_or, Bool.not_eq_true] at hsparse
    have hsized : 0 ≤ info.size := not_lt.mp hnegative
    refine ⟨⟨hkinds, hsparse.2, hsized, fun htype => ?_, not_lt.mp hlarge, hchecks⟩,
      ⟨by omega, hfresh, fun ancestor hmem hfile => ?_, fun hfile hmem => hbelow ⟨hfile, hmem⟩,
        not_lt.mp htotal, not_lt.mp hratio⟩, (Except.ok.inj h).symm⟩
    · by_contra hne
      exact hdirectory ⟨decide_eq_true htype, by omega⟩
    · exact habove (List.any_eq_true.mpr ⟨ancestor, hmem, decide_eq_true hfile⟩)
  · rintro ⟨hmember, hseen, rfl⟩
    refine guard_eq_ok.mpr ⟨by have hcount := hseen.count; omega, ?_⟩
    refine guard_eq_ok.mpr ⟨?_, ?_⟩
    · rintro (hsparse | hsparse)
      · rcases hmember.kind with hkind | hkind
        · cases hsparse.symm.trans hkind
        · cases hsparse.symm.trans hkind
      · rw [hmember.dense] at hsparse
        cases hsparse
    refine bind_eq_ok.mpr ⟨info.isDirectory, memberKind_eq_ok_iff.mpr ⟨hmember.kind, rfl⟩, ?_⟩
    refine guard_eq_ok.mpr ⟨not_lt.mpr hmember.sized, guard_eq_ok.mpr ⟨?_, ?_⟩⟩
    · rintro ⟨hdirectory, hsize⟩
      have hempty := hmember.emptyDirectory (of_decide_eq_true hdirectory)
      rw [hempty] at hsize
      exact hsize rfl
    refine guard_eq_ok.mpr ⟨not_lt.mpr hmember.bounded, ?_⟩
    refine bind_eq_ok.mpr ⟨_, canonicalPath_eq_ok_iff.mpr ⟨hmember.path, rfl⟩, ?_⟩
    refine guard_eq_ok.mpr ⟨hseen.fresh, guard_eq_ok.mpr ⟨?_, guard_eq_ok.mpr ⟨?_, ?_⟩⟩⟩
    · intro hany
      obtain ⟨ancestor, hmem, hfile⟩ := List.any_eq_true.mp hany
      exact hseen.above ancestor hmem (of_decide_eq_true hfile)
    · rintro ⟨hfile, hmem⟩
      exact hseen.below hfile hmem
    exact guard_eq_ok.mpr ⟨not_lt.mpr hseen.total, guard_eq_ok.mpr ⟨not_lt.mpr hseen.ratio, rfl⟩⟩

end Checks

/-! ### The loop over the headers -/

/-- The declared sizes of members, added up. -/
def unpacked (members : List TarMember) : Nat := (members.map fun info => info.size.toNat).sum

/-- What the three sets and the counters of the loop stand for. -/
structure Represents (nfc : List Char → List Char) (state : Inspected)
    (seen : List TarMember) : Prop where
  members : state.members = seen.length
  destinations : ∀ path, path ∈ state.destinations ↔ ∃ info ∈ seen, info.path nfc = path
  fileDestinations : ∀ path, path ∈ state.fileDestinations ↔
    ∃ info ∈ seen, info.isDirectory = false ∧ info.path nfc = path
  requiredDirectories : ∀ path, path ∈ state.requiredDirectories ↔
    ∃ info ∈ seen, path ∈ ancestors (info.path nfc)
  total : state.total = unpacked seen

/-- Two members may stand in one archive: their paths differ, and none that is a file lies above
the other. -/
structure Fit (nfc : List Char → List Char) (first second : TarMember) : Prop where
  distinct : first.path nfc ≠ second.path nfc
  above : first.isDirectory = false → first.path nfc ∉ ancestors (second.path nfc)
  below : second.isDirectory = false → second.path nfc ∉ ancestors (first.path nfc)

/-- The limits on all members together. -/
structure Within (limits : ArchiveLimits) (sourceBytes : Nat) (members : List TarMember) :
    Prop where
  count : members.length ≤ limits.maxMembers
  total : unpacked members ≤ limits.maxTotalUnpackedBytes
  ratio : unpacked members ≤ sourceBytes * limits.maxExpansionRatio

theorem Fit.symm {nfc : List Char → List Char} {first second : TarMember}
    (h : Fit nfc first second) : Fit nfc second first :=
  ⟨h.distinct.symm, h.below, h.above⟩

instance (nfc : List Char → List Char) : Std.Symm (Fit nfc) := ⟨fun _ _ => Fit.symm⟩

theorem unpacked_cons (info : TarMember) (members : List TarMember) :
    unpacked (info :: members) = info.size.toNat + unpacked members := by
  rw [unpacked, List.map_cons, List.sum_cons, unpacked]

theorem unpacked_perm {members members' : List TarMember} (h : members.Perm members') :
    unpacked members = unpacked members' := by
  rw [unpacked, unpacked]
  exact (h.map fun info => info.size.toNat).sum_nat

section Loop

variable {nfc : List Char → List Char} {limits : ArchiveLimits} {sourceBytes : Nat}

theorem represents_start : Represents nfc .start [] := by
  constructor <;> simp [Inspected.start, unpacked]

theorem represents_add {state : Inspected} {seen : List TarMember}
    (h : Represents nfc state seen) (info : TarMember) :
    Represents nfc (state.add nfc info) (info :: seen) where
  members := by rw [Inspected.add, h.members, List.length_cons]
  destinations := by
    intro path
    rw [Inspected.add, List.mem_cons, List.exists_mem_cons_iff, h.destinations]
    exact or_congr_left eq_comm
  fileDestinations := by
    intro path
    rw [Inspected.add, List.exists_mem_cons_iff, ← h.fileDestinations]
    cases hdirectory : info.isDirectory with
    | true => simp
    | false =>
        simp only [Bool.false_eq_true, if_false, List.mem_cons, true_and]
        exact or_congr_left eq_comm
  requiredDirectories := by
    intro path
    rw [Inspected.add, List.mem_append, List.exists_mem_cons_iff, h.requiredDirectories]
  total := by
    change state.total + info.size.toNat = _
    rw [h.total, unpacked_cons, Nat.add_comm]

/-- In a state that represents what is seen, the checks against the state are comparisons with the
members seen. -/
theorem seenChecks_iff {state : Inspected} {seen : List TarMember} (h : Represents nfc state seen)
    {info : TarMember} : SeenChecks nfc limits sourceBytes state info ↔
      (∀ other ∈ seen, Fit nfc other info) ∧ Within limits sourceBytes (info :: seen) := by
  have htotal : state.total + info.size.toNat = unpacked (info :: seen) := by
    rw [h.total, unpacked_cons, Nat.add_comm]
  constructor
  · intro hc
    refine ⟨fun other hother => ⟨?_, ?_, ?_⟩, ⟨?_, ?_, ?_⟩⟩
    · exact fun heq => hc.fresh ((h.destinations _).mpr ⟨other, hother, heq⟩)
    · exact fun hfile hmem =>
        hc.above _ hmem ((h.fileDestinations _).mpr ⟨other, hother, hfile, rfl⟩)
    · exact fun hfile hmem =>
        hc.below hfile ((h.requiredDirectories _).mpr ⟨other, hother, hmem⟩)
    · rw [List.length_cons, ← h.members]
      exact hc.count
    · rw [← htotal]
      exact hc.total
    · rw [← htotal]
      exact hc.ratio
  · rintro ⟨hfit, hwithin⟩
    constructor
    case count =>
      rw [h.members]
      exact hwithin.count
    case fresh =>
      intro hmem
      obtain ⟨other, hother, heq⟩ := (h.destinations _).mp hmem
      exact (hfit other hother).distinct heq
    case above =>
      intro ancestor hmem hfiles
      obtain ⟨other, hother, hfile, rfl⟩ := (h.fileDestinations _).mp hfiles
      exact (hfit other hother).above hfile hmem
    case below =>
      intro hfile hrequired
      obtain ⟨other, hother, hmem⟩ := (h.requiredDirectories _).mp hrequired
      exact (hfit other hother).below hfile hmem
    case total =>
      rw [htotal]
      exact hwithin.total
    case ratio =>
      rw [htotal]
      exact hwithin.ratio

theorem within_tail {info : TarMember} {seen : List TarMember}
    (h : Within limits sourceBytes (info :: seen)) : Within limits sourceBytes seen := by
  obtain ⟨hcount, htotal, hratio⟩ := h
  rw [List.length_cons] at hcount
  rw [unpacked_cons] at htotal hratio
  exact ⟨by omega, by omega, by omega⟩

/-- The loop is an incremental checker. -/
theorem inspectMember_checker : Incremental.Checker (inspectMember nfc limits sourceBytes)
    (Represents nfc) (MemberChecks nfc limits) (Fit nfc) (Within limits sourceBytes) where
  accepts := by
    intro state seen h info
    rw [← seenChecks_iff h]
    constructor
    · rintro ⟨next, hnext⟩
      obtain ⟨hmember, hseen, -⟩ := inspectMember_eq_ok_iff.mp hnext
      exact ⟨hmember, hseen⟩
    · rintro ⟨hmember, hseen⟩
      exact ⟨_, inspectMember_eq_ok_iff.mpr ⟨hmember, hseen, rfl⟩⟩
  represents := by
    intro state seen h info next hnext
    obtain ⟨-, -, rfl⟩ := inspectMember_eq_ok_iff.mp hnext
    exact represents_add h info
  within := within_tail

theorem inspectMembers_eq_run (state : Inspected) (members : List TarMember) :
    inspectMembers nfc limits sourceBytes state members =
      Incremental.run (inspectMember nfc limits sourceBytes) state members := by
  induction members generalizing state with
  | nil => rfl
  | cons info rest ih =>
      rw [inspectMembers, Incremental.run]
      cases inspectMember nfc limits sourceBytes state info with
      | error e => rfl
      | ok next => exact ih next

theorem within_nil : Within limits sourceBytes [] := by
  constructor <;> simp [unpacked]

theorem within_perm {members members' : List TarMember} (h : members.Perm members') :
    Within limits sourceBytes members ↔ Within limits sourceBytes members' := by
  constructor
  · rintro ⟨hcount, htotal, hratio⟩
    rw [h.length_eq] at hcount
    rw [unpacked_perm h] at htotal hratio
    exact ⟨hcount, htotal, hratio⟩
  · rintro ⟨hcount, htotal, hratio⟩
    rw [← h.length_eq] at hcount
    rw [← unpacked_perm h] at htotal hratio
    exact ⟨hcount, htotal, hratio⟩

/-! ### What an archive is required to be -/

/-- The file around the members can be read as a tar archive. -/
structure Container (limits : ArchiveLimits) (archive : TarArchive) : Prop where
  bounded : archive.sourceBytes ≤ limits.maxSourceBytes
  nonempty : archive.sourceBytes ≠ 0
  supported : isZstdArchive archive = false
  readable : archive.readable = true
  terminated : archive.terminated = true

/-- The requirements on the members, whatever their order. The drive letters of their paths are
left open. -/
structure Requirements (nfc : List Char → List Char) (limits : ArchiveLimits)
    (archive : TarArchive) : Prop where
  container : Container limits archive
  plain : ∀ info ∈ archive.members, info.sparse = false ∧ 0 ≤ info.size ∧
    (info.type = .regular ∨ info.type = .directory ∧ info.size = 0)
  bounded : ∀ info ∈ archive.members, info.size ≤ limits.maxMemberBytes
  canonical : ∀ info ∈ archive.members, CanonicalPath limits (info.normalized nfc)
  distinct : (archive.members.map (·.path nfc)).Nodup
  unshadowed : ∀ file ∈ archive.members, file.type = .regular →
    ∀ info ∈ archive.members, file.path nfc ∉ ancestors (info.path nfc)
  count : archive.members.length ≤ limits.maxMembers
  total : unpacked archive.members ≤ limits.maxTotalUnpackedBytes
  ratio : unpacked archive.members ≤ archive.sourceBytes * limits.maxExpansionRatio

/-- The requirements, and no canonical path that begins with a drive letter. -/
def Conforms (nfc : List Char → List Char) (limits : ArchiveLimits) (archive : TarArchive) : Prop :=
  Requirements nfc limits archive ∧
    ∀ info ∈ archive.members, isDrivePath (info.normalized nfc) = false

/-- No member has a drive path as it is written. -/
def Driveless (archive : TarArchive) : Prop :=
  ∀ info ∈ archive.members, isDrivePath info.candidate = false

theorem not_mem_ancestors_self (path : List (List Char)) : path ∉ ancestors path := by
  intro hmem
  obtain ⟨n, hn, heq⟩ := List.mem_map.mp hmem
  have hlt : n < path.length := List.mem_range.mp (List.mem_of_mem_tail hn)
  have hlength := congrArg List.length heq
  rw [List.length_take] at hlength
  omega

theorem isDirectory_eq_false_iff {info : TarMember}
    (hkind : info.type = .regular ∨ info.type = .directory) :
    info.isDirectory = false ↔ info.type = .regular := by
  rw [TarMember.isDirectory, decide_eq_false_iff_not]
  constructor
  · exact fun hne => hkind.resolve_right hne
  · intro heq hdirectory
    cases heq.symm.trans hdirectory

theorem pairwise_fit_iff {members : List TarMember} (hkind : ∀ info ∈ members,
    info.type = .regular ∨ info.type = .directory) : members.Pairwise (Fit nfc) ↔
      (members.map (·.path nfc)).Nodup ∧ ∀ file ∈ members, file.type = .regular →
        ∀ info ∈ members, file.path nfc ∉ ancestors (info.path nfc) := by
  constructor
  · intro h
    refine ⟨List.pairwise_map.mpr (h.imp Fit.distinct), ?_⟩
    intro file hfile htype info hinfo
    by_cases heq : file = info
    · rw [heq]
      exact not_mem_ancestors_self _
    · have hfit := h.forall hfile hinfo heq
      exact hfit.above ((isDirectory_eq_false_iff (hkind file hfile)).mpr htype)
  · rintro ⟨hnodup, hfiles⟩
    refine (List.pairwise_map.mp hnodup).imp_of_mem ?_
    intro first second hfirst hsecond hne
    refine ⟨hne, fun hfile => ?_, fun hfile => ?_⟩
    · have htype := (isDirectory_eq_false_iff (hkind first hfirst)).mp hfile
      exact hfiles first hfirst htype second hsecond
    · have htype := (isDirectory_eq_false_iff (hkind second hsecond)).mp hfile
      exact hfiles second hsecond htype first hfirst

theorem memberChecks_iff (hnfc : IsNormalization nfc) {info : TarMember} :
    MemberChecks nfc limits info ↔
      (info.sparse = false ∧ 0 ≤ info.size ∧
        (info.type = .regular ∨ info.type = .directory ∧ info.size = 0)) ∧
      info.size ≤ limits.maxMemberBytes ∧ CanonicalPath limits (info.normalized nfc) ∧
      isDrivePath info.candidate = false := by
  rw [← pathChecks_iff hnfc]
  constructor
  · intro h
    have hsized := h.sized
    have hbounded := h.bounded
    refine ⟨⟨h.dense, h.sized, h.kind.imp_right fun htype => ⟨htype, h.emptyDirectory htype⟩⟩,
      by omega, h.path⟩
  · rintro ⟨⟨hdense, hsized, hkind⟩, hbounded, hpath⟩
    refine ⟨hkind.imp_right And.left, hdense, hsized, fun htype => ?_, by omega, hpath⟩
    rcases hkind with hregular | hdirectory
    · cases hregular.symm.trans htype
    · exact hdirectory.2

/-- The loop accepts exactly the members that meet the requirements and have no drive path as
written. -/
theorem inspectMembers_accepts_iff {members : List TarMember} :
    Incremental.Accepts (inspectMembers nfc limits sourceBytes .start members) ↔
      (∀ info ∈ members, MemberChecks nfc limits info) ∧ members.Pairwise (Fit nfc) ∧
        Within limits sourceBytes members := by
  rw [inspectMembers_eq_run,
    inspectMember_checker.run_isOk_iff represents_start within_nil members,
    within_perm (List.reverse_perm members)]

theorem inspectArchive_eq_ok_iff {archive : TarArchive} {seen : Inspected} :
    inspectArchive nfc limits archive = .ok seen ↔ Container limits archive ∧
      inspectMembers nfc limits archive.sourceBytes .start archive.members = .ok seen := by
  unfold inspectArchive
  constructor
  · intro h
    obtain ⟨hbounded, h⟩ := guard_eq_ok.mp h
    obtain ⟨hnonempty, h⟩ := guard_eq_ok.mp h
    obtain ⟨hsupported, h⟩ := guard_eq_ok.mp h
    obtain ⟨_, hmembers, h⟩ := bind_eq_ok.mp h
    obtain ⟨hreadable, h⟩ := guard_eq_ok.mp h
    obtain ⟨hterminated, h⟩ := guard_eq_ok.mp h
    cases h
    exact ⟨⟨not_lt.mp hbounded, hnonempty, Bool.eq_false_iff.mpr hsupported,
      not_not.mp hreadable, not_not.mp hterminated⟩, hmembers⟩
  · rintro ⟨h, hmembers⟩
    refine guard_eq_ok.mpr ⟨not_lt.mpr h.bounded, guard_eq_ok.mpr ⟨h.nonempty, ?_⟩⟩
    refine guard_eq_ok.mpr ⟨Bool.eq_false_iff.mp h.supported, ?_⟩
    refine bind_eq_ok.mpr ⟨seen, hmembers, ?_⟩
    exact guard_eq_ok.mpr ⟨not_not.mpr h.readable, guard_eq_ok.mpr ⟨not_not.mpr h.terminated, rfl⟩⟩

theorem inspectArchive_accepts {archive : TarArchive} :
    (∃ seen, inspectArchive nfc limits archive = .ok seen) ↔
      Container limits archive ∧ Incremental.Accepts
        (inspectMembers nfc limits archive.sourceBytes .start archive.members) := by
  simp only [inspectArchive_eq_ok_iff, exists_and_left, Incremental.Accepts]

/-- The inspection accepts exactly the archives that meet the requirements and have no drive path
as written. -/
theorem inspectArchive_accepts_iff (hnfc : IsNormalization nfc) {archive : TarArchive} :
    (∃ seen, inspectArchive nfc limits archive = .ok seen) ↔
      Requirements nfc limits archive ∧ Driveless archive := by
  rw [inspectArchive_accepts, inspectMembers_accepts_iff]
  constructor
  · rintro ⟨hcontainer, hmembers, hpairwise, hwithin⟩
    have hkind := fun info hinfo => (hmembers info hinfo).kind
    obtain ⟨hnodup, hfiles⟩ := (pairwise_fit_iff hkind).mp hpairwise
    have hall := fun info hinfo => (memberChecks_iff hnfc).mp (hmembers info hinfo)
    exact ⟨⟨hcontainer, fun info hinfo => (hall info hinfo).1,
      fun info hinfo => (hall info hinfo).2.1, fun info hinfo => (hall info hinfo).2.2.1, hnodup,
      hfiles, hwithin.count, hwithin.total, hwithin.ratio⟩,
      fun info hinfo => (hall info hinfo).2.2.2⟩
  · rintro ⟨h, hdriveless⟩
    have hmembers : ∀ info ∈ archive.members, MemberChecks nfc limits info := fun info hinfo =>
      (memberChecks_iff hnfc).mpr ⟨h.plain info hinfo, h.bounded info hinfo,
        h.canonical info hinfo, hdriveless info hinfo⟩
    have hkind := fun info hinfo => (hmembers info hinfo).kind
    exact ⟨h.container, hmembers, (pairwise_fit_iff hkind).mpr ⟨h.distinct, h.unshadowed⟩,
      h.count, h.total, h.ratio⟩

/-- The order of the members does not matter. -/
theorem inspectArchive_perm {archive : TarArchive} {members : List TarMember}
    (h : archive.members.Perm members) :
    (∃ seen, inspectArchive nfc limits archive = .ok seen) ↔
      ∃ seen, inspectArchive nfc limits { archive with members } = .ok seen := by
  have hcontainer : Container limits { archive with members } ↔ Container limits archive :=
    ⟨fun h => ⟨h.bounded, h.nonempty, h.supported, h.readable, h.terminated⟩,
      fun h => ⟨h.bounded, h.nonempty, h.supported, h.readable, h.terminated⟩⟩
  rw [inspectArchive_accepts, inspectArchive_accepts, hcontainer, inspectMembers_eq_run,
    inspectMembers_eq_run]
  exact and_congr_right' (inspectMember_checker.run_perm represents_start within_nil Fit.symm
    within_perm h)

/-! ### Inspecting canonical paths again -/

/-- A member under its canonical path. -/
def TarMember.renamed (info : TarMember) (nfc : List Char → List Char) : TarMember :=
  { info with name := String.ofList (info.normalized nfc) }

/-- An archive whose members carry their canonical paths. -/
def TarArchive.renamed (archive : TarArchive) (nfc : List Char → List Char) : TarArchive :=
  { archive with members := archive.members.map (·.renamed nfc) }

theorem withoutDot_of_canonical {cs : List Char} (h : CanonicalPath limits cs) :
    withoutDot cs = cs := by
  unfold withoutDot
  split
  · rename_i rest
    refine absurd ?_ (h.segments ['.'] · (by simp))
    rw [Segments.splitOn_cons_ne (by decide), Segments.splitOn_cons_self]
    exact List.mem_cons_self
  · rfl

theorem withoutSlash_of_canonical {cs : List Char} (h : CanonicalPath limits cs)
    (isDirectory : Bool) : withoutSlash isDirectory cs = cs := by
  rw [withoutSlash, if_neg]
  rw [Bool.and_eq_true, beq_iff_eq]
  rintro ⟨-, hlast⟩
  obtain ⟨init, rfl⟩ := List.getLast?_eq_some_iff.mp hlast
  refine h.segments [] ?_ (by simp)
  rw [List.splitOn_append_cons_self]
  exact List.mem_append_right _ List.mem_cons_self

theorem candidate_renamed {info : TarMember} (h : CanonicalPath limits (info.normalized nfc)) :
    (info.renamed nfc).candidate = info.normalized nfc := by
  rw [TarMember.candidate, TarMember.renamed, String.toList_ofList]
  exact withoutDot_of_canonical h

theorem normalized_renamed (hnfc : IsNormalization nfc) {info : TarMember}
    (h : CanonicalPath limits (info.normalized nfc)) :
    (info.renamed nfc).normalized nfc = info.normalized nfc := by
  rw [TarMember.normalized, candidate_renamed h, withoutSlash_of_canonical h]
  exact hnfc.idempotent _

/-- A member under its canonical path changes the state as before, unless this path begins with a
drive letter. -/
theorem inspectMember_renamed (hnfc : IsNormalization nfc) {info : TarMember}
    (hdrive : isDrivePath (info.normalized nfc) = false) {state next : Inspected}
    (h : inspectMember nfc limits sourceBytes state info = .ok next) :
    inspectMember nfc limits sourceBytes state (info.renamed nfc) = .ok next := by
  obtain ⟨hmember, hseen, rfl⟩ := inspectMember_eq_ok_iff.mp h
  obtain ⟨hplain, hbounded, hcanonical, -⟩ := (memberChecks_iff hnfc).mp hmember
  have hnormalized := normalized_renamed hnfc hcanonical
  have hpath : (info.renamed nfc).path nfc = info.path nfc := by
    rw [TarMember.path, hnormalized]
    rfl
  have hmember' : MemberChecks nfc limits (info.renamed nfc) := by
    refine (memberChecks_iff hnfc).mpr ⟨hplain, hbounded, ?_, ?_⟩
    · rw [hnormalized]
      exact hcanonical
    · rw [candidate_renamed hcanonical]
      exact hdrive
  have hseen' : SeenChecks nfc limits sourceBytes state (info.renamed nfc) := by
    obtain ⟨hcount, hfresh, habove, hbelow, htotal, hratio⟩ := hseen
    exact ⟨hcount, hpath ▸ hfresh, hpath ▸ habove, hpath ▸ hbelow, htotal, hratio⟩
  refine inspectMember_eq_ok_iff.mpr ⟨hmember', hseen', ?_⟩
  rw [Inspected.add, Inspected.add, hpath]
  rfl

theorem inspectArchive_renamed (hnfc : IsNormalization nfc) {archive : TarArchive}
    (hdrive : ∀ info ∈ archive.members, isDrivePath (info.normalized nfc) = false)
    {seen : Inspected} (h : inspectArchive nfc limits archive = .ok seen) :
    inspectArchive nfc limits (archive.renamed nfc) = .ok seen := by
  obtain ⟨hcontainer, hmembers⟩ := inspectArchive_eq_ok_iff.mp h
  refine inspectArchive_eq_ok_iff.mpr ⟨⟨hcontainer.bounded, hcontainer.nonempty,
    hcontainer.supported, hcontainer.readable, hcontainer.terminated⟩, ?_⟩
  rw [inspectMembers_eq_run] at hmembers ⊢
  exact Incremental.run_map
    (fun info hinfo _ _ hstep => inspectMember_renamed hnfc (hdrive info hinfo) hstep) hmembers

end Loop

/-! ### The inspection as a whole -/

/-- An archive is accepted if and only if it conforms, whatever the order of its members, and is
accepted again with its canonical paths: this holds of exactly the archives in which no name that
is not a drive path becomes one, or which are rejected for another reason. -/
theorem inspection_exact_iff {nfc : List Char → List Char} (hnfc : IsNormalization nfc)
    (limits : ArchiveLimits) (archive : TarArchive) :
    (((∃ seen, inspectArchive nfc limits archive = .ok seen) ↔ Conforms nfc limits archive) ∧
      (∀ members, archive.members.Perm members →
        ((∃ seen, inspectArchive nfc limits archive = .ok seen) ↔
          ∃ seen, inspectArchive nfc limits { archive with members } = .ok seen)) ∧
      ∀ seen, inspectArchive nfc limits archive = .ok seen →
        inspectArchive nfc limits (archive.renamed nfc) = .ok seen) ↔
      (Requirements nfc limits archive → Driveless archive →
        ∀ info ∈ archive.members, isDrivePath (info.normalized nfc) = false) := by
  rw [inspectArchive_accepts_iff hnfc]
  constructor
  · rintro ⟨hexact, -, -⟩ hrequirements hdriveless
    exact (hexact.mp ⟨hrequirements, hdriveless⟩).2
  · intro h
    refine ⟨⟨?_, ?_⟩, ?_, ?_⟩
    · rintro ⟨hrequirements, hdriveless⟩
      exact ⟨hrequirements, h hrequirements hdriveless⟩
    · rintro ⟨hrequirements, hdrive⟩
      refine ⟨hrequirements, fun info hinfo => Bool.eq_false_iff.mpr fun hcandidate => ?_⟩
      have hnormalized := isDrivePath_normalized hnfc hcandidate
      rw [hdrive info hinfo] at hnormalized
      cases hnormalized
    · intro members hperm
      rw [← inspectArchive_accepts_iff hnfc]
      exact inspectArchive_perm hperm
    · intro seen hseen
      obtain ⟨hrequirements, hdriveless⟩ := (inspectArchive_accepts_iff hnfc).mp ⟨seen, hseen⟩
      exact inspectArchive_renamed hnfc (h hrequirements hdriveless) hseen

/-- Normalization, as far as it concerns the Kelvin sign: it is the letter `K`. -/
def kelvinForm (cs : List Char) : List Char :=
  cs.map fun c => if c = '\u212a' then 'K' else c

theorem isNormalization_kelvinForm : IsNormalization kelvinForm where
  idempotent := by
    intro cs
    rw [kelvinForm, kelvinForm, List.map_map]
    refine List.map_congr_left fun c _ => ?_
    by_cases hc : c = '\u212a'
    · simp [hc]
    · simp [hc]
  ascii := by
    intro cs hcs
    refine (List.map_congr_left fun c hc => if_neg ?_).trans (List.map_id cs)
    rintro rfl
    exact absurd (hcs _ hc) (by decide)
  split := by
    intro c hc cs ds
    have hne : c ≠ '\u212a' := by
      rintro rfl
      exact absurd hc (by decide)
    rw [kelvinForm, List.map_append, List.map_cons, if_neg hne]
    rfl
  none_new := by
    intro c hc cs hmem
    obtain ⟨d, hd, hdc⟩ := List.mem_map.mp hmem
    split at hdc
    · rw [← hdc] at hc
      exact absurd hc (by decide)
    · rwa [← hdc]
  nonempty := fun cs h => List.map_eq_nil_iff.mp h

/-- An archive with one file. -/
def oneMember (name : String) : TarArchive where
  name := "bundle.tar"
  sourceBytes := 10240
  zstd := false
  members := [{ name, type := .regular, sparse := false, size := 3, content := [1, 2, 3] }]
  readable := true
  terminated := true

def usualLimits : ArchiveLimits where
  maxSourceBytes := 1073741824
  maxMembers := 100000
  maxTotalUnpackedBytes := 4294967296
  maxMemberBytes := 1073741824
  maxPathBytes := 4096
  maxPathDepth := 64
  maxExpansionRatio := 100

theorem inspection_exact_readme :
    (∃ seen, inspectArchive kelvinForm usualLimits (oneMember "./docs/README") = .ok seen) ↔
      Conforms kelvinForm usualLimits (oneMember "./docs/README") :=
  ((inspection_exact_iff isNormalization_kelvinForm usualLimits (oneMember "./docs/README")).mpr
    (fun _ _ => List.forall_iff_forall_mem.mp (by decide +kernel))).1

/-- A name that begins with the Kelvin sign and a colon is accepted; its canonical path is a drive
path, and not accepted again. -/
theorem kelvin_drive_accepted : IsNormalization kelvinForm ∧
    (∃ seen, inspectArchive kelvinForm usualLimits (oneMember "\u212a:/x") = .ok seen) ∧
    ¬ Conforms kelvinForm usualLimits (oneMember "\u212a:/x") ∧
    ∀ seen, inspectArchive kelvinForm usualLimits
      ((oneMember "\u212a:/x").renamed kelvinForm) ≠ .ok seen := by
  refine ⟨isNormalization_kelvinForm, ?_, ?_, ?_⟩
  · exact ⟨_, rfl⟩
  · rintro ⟨-, hdrive⟩
    exact absurd (hdrive _ List.mem_cons_self) (by decide +kernel)
  · intro seen hseen
    cases hseen

end Ophelia
