import Ophelia.Execution.ComposeMigrations
import Ophelia.Runtime.Manifest

/-!
# Ophelia.ManifestV2.VolumeNames

The Docker volumes of a version 2 manifest, `_volume_name` of `manifest_v2_renderer.py`. The
name joins application, environment and source by hyphens, folds every character outside
`[a-z0-9_-]` into a hyphen, drops the marks at its ends and is cut to 128 characters.

What is left of the source is its `visible` part behind the text of the scope, and two names
are the same exactly when scopes and visible parts are, or when the text of one scope goes on
inside the source of the other (`SharesVolume`).
-/

namespace Ophelia.V2

open PyText

/-! ### Docker names -/

/-- `[a-z0-9_-]`. -/
def isDockerChar (c : Char) : Bool :=
  isLowerAlnum c || c == '_' || c == '-'

/-- `re.sub(r"[^a-z0-9_-]+", "-", value)`; `inRun` says that the last character was replaced. -/
def hyphenRuns : Bool → List Char → List Char
  | _, [] => []
  | inRun, c :: cs =>
      if isDockerChar c then c :: hyphenRuns false cs
      else if inRun then hyphenRuns true cs
      else '-' :: hyphenRuns true cs

def isMark (c : Char) : Bool :=
  c == '-' || c == '_'

/-- `_docker_name`. -/
def dockerName (value : String) : Result String :=
  let normalized := stripChars isMark (hyphenRuns false (lower value.toList))
  if normalized.isEmpty then .error (.valueError "Docker resource name cannot be empty.")
  else .ok (String.ofList (normalized.take 128))

/-! ### Mounts -/

/-- What `_mount` accepts as a source: a bounded text that is a relative path without a step
up. -/
def isVolumeSource (cs : List Char) : Bool :=
  !cs.isEmpty && decide (cs.length ≤ 4096) && !cs.contains '\x00' && cs.head? != some '/' &&
    !(cs.splitOn '/').contains ['.', '.']

abbrev VolumeSource := Refined isVolumeSource

/-- The scope of a manifest with the source of one of its mounts. -/
structure Volume where
  app : Slug
  environment : V1.Environment
  source : VolumeSource
deriving DecidableEq

/-- `_volume_name`. -/
def volumeName (v : Volume) : Result String :=
  dockerName ("ophelia-" ++ v.app.val ++ "-" ++ v.environment.value ++ "-" ++ v.source.val)

/-! ### What a name shows -/

/-- What every name starts with. -/
def TAG : List Char := "ophelia-".toList

/-- The text of the scope in front of the source. -/
def scopeText (v : Volume) : List Char :=
  TAG ++ (v.app.val.toList ++ '-' :: v.environment.value.toList)

/-- The source in lower case, with a hyphen for every run of other characters and without the
marks at the end. -/
def sourceKey (source : VolumeSource) : List Char :=
  ((hyphenRuns false (lower source.val.toList)).reverse.dropWhile isMark).reverse

/-- As much of the source as the limit leaves room for. -/
def visible (v : Volume) : List Char :=
  (sourceKey v.source).take (127 - (scopeText v).length)

/-- The end of a name: nothing, or a hyphen and what is visible. -/
def ending (cs : List Char) : List Char :=
  if cs.isEmpty then [] else '-' :: cs

/-- Two volumes with one name: of one scope with sources that look alike, or of two scopes of
which one goes on inside the source of the other. -/
inductive SharesVolume (v w : Volume) : Prop where
  | alike (happ : v.app = w.app) (henv : v.environment = w.environment)
      (h : visible v = visible w) : SharesVolume v w
  | inside (rest : List Char) (hscope : scopeText w = scopeText v ++ '-' :: rest)
      (h : visible v = rest ++ ending (visible w)) : SharesVolume v w
  | around (rest : List Char) (hscope : scopeText v = scopeText w ++ '-' :: rest)
      (h : visible w = rest ++ ending (visible v)) : SharesVolume v w

/-! ### Folding -/

theorem hyphenRuns_append {cs rest : List Char} (h : ∀ c ∈ cs, isDockerChar c = true) :
    hyphenRuns false (cs ++ rest) = cs ++ hyphenRuns false rest := by
  induction cs with
  | nil => rfl
  | cons c cs ih =>
      rw [List.cons_append, hyphenRuns, if_pos (h c List.mem_cons_self),
        ih fun d hd => h d (List.mem_cons_of_mem c hd), List.cons_append]

theorem isDockerChar_of_isNameChar {c : Char} (h : IsNameChar c) : isDockerChar c = true := by
  rcases h with h | rfl | rfl
  · simp [isDockerChar, h]
  · rfl
  · rfl

theorem lower_append (cs rest : List Char) : lower (cs ++ rest) = lower cs ++ lower rest :=
  List.flatMap_append

theorem isNameChar_environment (e : V1.Environment) : ∀ c ∈ e.value.toList, IsNameChar c := by
  cases e with
  | dev => exact List.all_iff_forall_prop.mp (by decide)
  | staging => exact List.all_iff_forall_prop.mp (by decide)
  | production => exact List.all_iff_forall_prop.mp (by decide)

theorem isNameChar_scopeText (v : Volume) : ∀ c ∈ scopeText v, IsNameChar c := by
  intro c hc
  simp only [scopeText, List.mem_append, List.mem_cons] at hc
  rcases hc with hc | hc | rfl | hc
  · have htag : TAG.all IsNameChar = true := by decide
    exact List.all_iff_forall_prop.mp htag c hc
  · exact isNameChar_of_slug v.app c hc
  · exact .inr (.inl rfl)
  · exact isNameChar_environment v.environment c hc

/-! ### Stripping -/

/-- Stripping the end of a text that goes on. -/
theorem stripEnd_append (p : Char → Bool) (cs rest : List Char) :
    ((cs ++ rest).reverse.dropWhile p).reverse =
      if ((rest.reverse.dropWhile p).reverse).isEmpty then (cs.reverse.dropWhile p).reverse
      else cs ++ (rest.reverse.dropWhile p).reverse := by
  rw [List.reverse_append, List.dropWhile_append, List.isEmpty_reverse]
  split <;> simp

/-- The last character of a scope is a letter. -/
theorem stripEnd_scopeText (v : Volume) :
    ((scopeText v).reverse.dropWhile isMark).reverse = scopeText v := by
  have hlast : ∀ e : V1.Environment, ∃ c cs, e.value.toList.reverse = c :: cs ∧
      isMark c = false := by
    intro e
    cases e with
    | dev => exact ⟨'v', ['e', 'd'], by decide, by decide⟩
    | staging => exact ⟨'g', ['n', 'i', 'g', 'a', 't', 's'], by decide, by decide⟩
    | production =>
        exact ⟨'n', ['o', 'i', 't', 'c', 'u', 'd', 'o', 'r', 'p'], by decide, by decide⟩
  obtain ⟨c, cs, hrev, hc⟩ := hlast v.environment
  have hscope : (scopeText v).reverse =
      c :: (cs ++ '-' :: (v.app.val.toList.reverse ++ TAG.reverse)) := by
    simp [scopeText, hrev]
  rw [hscope, List.dropWhile_cons_of_neg (by simp [hc]), ← hscope, List.reverse_reverse]

theorem length_scopeText (v : Volume) : (scopeText v).length ≤ 82 := by
  have happ : v.app.val.toList.length ≤ 63 := by
    have hok := v.app.ok
    simp only [isSlug, Bool.and_eq_true, decide_eq_true_eq] at hok
    exact hok.1
  have henv : ∀ e : V1.Environment, e.value.toList.length ≤ 10 := by
    intro e
    cases e with
    | dev => decide
    | staging => decide
    | production => decide
  have henv := henv v.environment
  simp only [scopeText, List.length_append, List.length_cons]
  have htag : TAG.length = 8 := by decide
  omega

/-! ### Names -/

/-- The cut leaves the scope and what is visible of the source. -/
theorem take_scopeText (v : Volume) :
    (scopeText v ++ ending (sourceKey v.source)).take 128 = scopeText v ++ ending (visible v) := by
  have hlength := length_scopeText v
  rw [List.take_append, List.take_of_length_le (by omega), List.append_cancel_left_eq]
  unfold ending
  by_cases hkey : sourceKey v.source = []
  · simp [visible, hkey]
  · have hvisible : visible v ≠ [] := by
      rw [visible, ne_eq, List.take_eq_nil_iff]
      exact not_or.mpr ⟨by omega, hkey⟩
    have hroom : 128 - (scopeText v).length = (127 - (scopeText v).length) + 1 := by omega
    rw [if_neg (by simpa using hkey), if_neg (by simpa using hvisible), hroom,
      List.take_succ_cons, visible]

theorem toList_volume (v : Volume) :
    ("ophelia-" ++ v.app.val ++ "-" ++ v.environment.value ++ "-" ++ v.source.val).toList =
      scopeText v ++ ('-' :: v.source.val.toList) := by
  have htag : "ophelia-".toList = TAG := rfl
  have hhyphen : "-".toList = ['-'] := by decide
  simp only [String.toList_append, htag, hhyphen, scopeText, List.append_assoc,
    List.cons_append, List.nil_append]

/-- The source is folded on its own: the scope in front of it has nothing to fold. -/
theorem hyphenRuns_volume (v : Volume) :
    hyphenRuns false (lower (scopeText v ++ ('-' :: v.source.val.toList))) =
      scopeText v ++ ('-' :: hyphenRuns false (lower v.source.val.toList)) := by
  have hscope := isNameChar_scopeText v
  have hhyphen : lower ('-' :: v.source.val.toList) = '-' :: lower v.source.val.toList := rfl
  rw [lower_append, lower_of_isNameChar hscope, hhyphen,
    hyphenRuns_append fun c hc => isDockerChar_of_isNameChar (hscope c hc)]
  rfl

/-- Stripping takes the marks at the end of the source, and the hyphen in front of a source
that consists of marks. -/
theorem stripChars_volume (v : Volume) :
    stripChars isMark (scopeText v ++ ('-' :: hyphenRuns false (lower v.source.val.toList))) =
      scopeText v ++ ending (sourceKey v.source) := by
  have hstart : ∀ rest, (scopeText v ++ rest).dropWhile isMark = scopeText v ++ rest := by
    intro rest
    have htag : TAG = 'o' :: ['p', 'h', 'e', 'l', 'i', 'a', '-'] := by decide
    rw [scopeText, htag]
    rfl
  have hend := stripEnd_append isMark ['-'] (hyphenRuns false (lower v.source.val.toList))
  rw [stripChars, hstart, stripEnd_append, ← List.singleton_append, hend, stripEnd_scopeText]
  show _ = scopeText v ++ if (sourceKey v.source).isEmpty then [] else '-' :: sourceKey v.source
  by_cases hkey : sourceKey v.source = []
  · have hmarks : ((hyphenRuns false (lower v.source.val.toList)).reverse.dropWhile
        isMark).reverse = [] := hkey
    simp [hmarks, hkey, isMark]
  · have hmarks : ((hyphenRuns false (lower v.source.val.toList)).reverse.dropWhile
        isMark).reverse.isEmpty = false := by
      simpa [sourceKey] using hkey
    simp only [hmarks, Bool.false_eq_true, if_false]
    rw [if_neg (by simp), if_neg (by simpa using hkey)]
    rfl

/-- **The name of a volume** is the text of its scope and what is visible of its source. -/
theorem volumeName_eq (v : Volume) :
    volumeName v = .ok (String.ofList (scopeText v ++ ending (visible v))) := by
  have hne : (scopeText v ++ ending (sourceKey v.source)).isEmpty = false := by
    have htag : TAG = 'o' :: ['p', 'h', 'e', 'l', 'i', 'a', '-'] := by decide
    rw [scopeText, htag]
    rfl
  unfold volumeName dockerName
  rw [toList_volume, hyphenRuns_volume, stripChars_volume]
  simp only [hne, Bool.false_eq_true, if_false, take_scopeText]

theorem ending_injective {cs ds : List Char} (h : ending cs = ending ds) : cs = ds := by
  unfold ending at h
  cases cs with
  | nil =>
      cases ds with
      | nil => rfl
      | cons d ds => cases h
  | cons c cs =>
      cases ds with
      | nil => cases h
      | cons d ds => exact (List.cons.inj h).2

/-- Ends that go on with a hyphen. -/
theorem ending_eq_cons {cs rest : List Char} {c : Char} (h : ending cs = c :: rest) :
    c = '-' ∧ cs = rest := by
  unfold ending at h
  split at h
  · cases h
  · obtain ⟨hc, hcs⟩ := List.cons.inj h
    exact ⟨hc.symm, hcs⟩

/-- An environment has no hyphen, so its scope ends with the last one. -/
theorem scopeText_injective {v w : Volume} (h : scopeText v = scopeText w) :
    v.app = w.app ∧ v.environment = w.environment := by
  have hplain : ∀ e : V1.Environment, '-' ∉ e.value.toList := by
    intro e
    cases e with
    | dev => decide
    | staging => decide
    | production => decide
  have hvalue : ∀ e e' : V1.Environment, e.value.toList = e'.value.toList → e = e' := by
    intro e e' he
    have hvalue : e.value = e'.value := String.toList_injective he
    cases e <;> cases e' <;> first | rfl | exact absurd hvalue (by decide)
  have hparts : v.app.val.toList ++ '-' :: v.environment.value.toList =
      w.app.val.toList ++ '-' :: w.environment.value.toList := List.append_cancel_left h
  have hsplit : v.app.val.toList = w.app.val.toList ∧
      v.environment.value.toList = w.environment.value.toList := by
    rcases List.append_eq_append_iff.mp hparts with ⟨m, happ, hm⟩ | ⟨m, happ, hm⟩
    · cases m with
      | nil => exact ⟨by simpa using happ.symm, by simpa using hm⟩
      | cons c m =>
          refine absurd ?_ (hplain v.environment)
          rw [(List.cons.inj hm).2]
          simp
    · cases m with
      | nil => exact ⟨by simpa using happ, by simpa using hm.symm⟩
      | cons c m =>
          refine absurd ?_ (hplain w.environment)
          rw [(List.cons.inj hm).2]
          simp
  exact ⟨Refined.ext (String.toList_injective hsplit.1), hvalue _ _ hsplit.2⟩

/-- A scope goes on with more than a hyphen. -/
theorem ending_rest {v w : Volume} {rest : List Char}
    (hscope : scopeText w = scopeText v ++ '-' :: rest) (cs : List Char) :
    ending (rest ++ cs) = '-' :: (rest ++ cs) := by
  cases rest with
  | cons c rest => rfl
  | nil =>
      have hstrip := stripEnd_append isMark (scopeText v) ['-']
      rw [← hscope, stripEnd_scopeText, stripEnd_scopeText] at hstrip
      have hlength := congrArg List.length (hscope.symm.trans hstrip)
      simp [isMark] at hlength

/-- Two names are the same exactly when the volumes share one. -/
theorem volumeName_eq_iff (v w : Volume) : volumeName v = volumeName w ↔ SharesVolume v w := by
  rw [volumeName_eq, volumeName_eq, Except.ok.injEq, String.ofList_inj]
  constructor
  · intro h
    rcases List.append_eq_append_iff.mp h with ⟨m, hscope, hend⟩ | ⟨m, hscope, hend⟩
    · cases m with
      | nil =>
          obtain ⟨happ, henv⟩ := scopeText_injective (by simpa using hscope.symm)
          exact .alike happ henv (ending_injective (by simpa using hend))
      | cons c m =>
          obtain ⟨rfl, hvisible⟩ := ending_eq_cons hend
          exact .inside m hscope hvisible
    · cases m with
      | nil =>
          obtain ⟨happ, henv⟩ := scopeText_injective (by simpa using hscope)
          exact .alike happ henv (ending_injective (by simpa using hend.symm))
      | cons c m =>
          obtain ⟨rfl, hvisible⟩ := ending_eq_cons hend
          exact .around m hscope hvisible
  · intro h
    cases h with
    | alike happ henv h => rw [scopeText, scopeText, happ, henv, h]
    | inside rest hscope h =>
        rw [h, ending_rest hscope, hscope, List.append_assoc, List.cons_append]
    | around rest hscope h =>
        rw [h, ending_rest hscope, hscope, List.append_assoc, List.cons_append]

/-- **Volumes have names of their own** exactly when they do not share one: their sources do not
look alike in one scope, and neither of two scopes goes on inside the source of the other. -/
theorem volumeName_ne_iff (v w : Volume) :
    (v ≠ w → volumeName v ≠ volumeName w) ↔ (v ≠ w → ¬ SharesVolume v w) := by
  rw [ne_eq (volumeName v), volumeName_eq_iff]

/-- A directory of uploads, and a volume that is named after it. -/
def uploads : Volume :=
  ⟨⟨"shop", Eq.refl true⟩, .production, ⟨"uploads/images", by decide⟩⟩

def uploadsFlat : Volume :=
  ⟨⟨"shop", Eq.refl true⟩, .production, ⟨"uploads-images", by decide⟩⟩

/-- **Two mounts share their data.** -/
theorem not_distinct_uploads :
    uploads ≠ uploadsFlat ∧ volumeName uploads = volumeName uploadsFlat := by
  decide +kernel

end Ophelia.V2
