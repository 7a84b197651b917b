import Ophelia.Lib.Segments
import Ophelia.Runtime.ComposeText

/-!
# Ophelia.Runtime.ComposeRedaction

What the redacted text of a compose file keeps of its environment values. The renderer and
the redactor meet on every name with a letter or a digit in it: the redacted text is the
compose file with the marker at each entry (`maskedLine`). They miss each other on names of
underscores alone, which are admitted and not recognised, and on values that hold the name
of the second placeholder of the template, which are torn apart by the second replacement.
-/

namespace Ophelia.V1

open PyText Replacing

/-! ### Lines and texts -/

theorem isLine_append {cs ds : List Char} (hc : IsLine cs) (hd : IsLine ds) : IsLine (cs ++ ds) := by
  intro c h
  rcases List.mem_append.mp h with h | h
  · exact hc c h
  · exact hd c h

theorem joinLines_append (ls ls' : List (List Char)) :
    joinLines (ls ++ ls') = joinLines ls ++ joinLines ls' := by
  rw [joinLines, List.flatMap_append]
  rfl

theorem joinLines_cons (l : List Char) (ls : List (List Char)) :
    joinLines (l :: ls) = l ++ '\n' :: joinLines ls := by
  rw [joinLines, List.flatMap_cons, List.append_assoc]
  rfl

theorem joinLines_between (l : List Char) (ls ls' : List (List Char)) :
    joinLines (l :: ls ++ ls') = l ++ '\n' :: (joinLines ls ++ joinLines ls') := by
  rw [List.cons_append, joinLines_cons, joinLines_append]

/-- `"\n".join(lines)`, ended. -/
theorem joined_append {ls : List (List Char)} (h : ls ≠ []) : joined ls ++ ['\n'] = joinLines ls := by
  induction ls with
  | nil => exact absurd rfl h
  | cons l ls ih =>
      cases ls with
      | nil => simp [joined, joinLines]
      | cons l' ls =>
          rw [joined, List.intercalate_cons_cons, joinLines_cons, ← ih (List.cons_ne_nil _ _),
            List.append_assoc, List.append_assoc]
          rfl

theorem linesFrom_of_isLine {cs : List Char} (h : IsLine cs) (line : List Char) :
    linesFrom line cs = if line.reverse ++ cs = [] then [] else [line.reverse ++ cs] := by
  induction cs generalizing line with
  | nil =>
      rw [linesFrom, List.append_nil]
      cases line <;> simp
  | cons c cs ih =>
      have hc : isLineBreak c = false := h c List.mem_cons_self
      have hcs : IsLine cs := fun x hx => h x (List.mem_cons_of_mem _ hx)
      have hstep : linesFrom line (c :: cs) = linesFrom (c :: line) cs := by
        rw [linesFrom.eq_def]
        split
        · rename_i heq
          exact absurd heq (by simp)
        · rename_i heq
          rw [(List.cons.inj heq).1] at hc
          exact absurd hc (by decide)
        · rename_i x xs _ heq
          obtain ⟨rfl, rfl⟩ := List.cons.inj heq
          rw [hc]
          rfl
      rw [hstep, ih hcs]
      simp

/-- Lines of which the last is not ended. -/
theorem splitlines_joinLines_append {ls : List (List Char)} (h : ∀ l ∈ ls, IsLine l)
    {l : List Char} (hl : IsLine l) (hne : l ≠ []) : splitlines (joinLines ls ++ l) = ls ++ [l] := by
  induction ls with
  | nil =>
      rw [joinLines, List.flatMap_nil, List.nil_append, splitlines, linesFrom_of_isLine hl]
      exact if_neg hne
  | cons l' ls ih =>
      have hrest := ih fun x hx => h x (List.mem_cons_of_mem _ hx)
      rw [splitlines] at hrest ⊢
      rw [joinLines_cons, List.append_assoc, List.cons_append,
        linesFrom_append (h l' List.mem_cons_self), List.reverse_nil, List.nil_append, hrest]
      rfl

theorem joinLines_injective {ls ls' : List (List Char)} (h : ∀ l ∈ ls, IsLine l)
    (h' : ∀ l ∈ ls', IsLine l) (heq : joinLines ls = joinLines ls') : ls = ls' := by
  rw [← splitlines_joinLines h, heq, splitlines_joinLines h']

/-- The lines between line feeds. -/
theorem joinLines_splitOn (cs : List Char) : joinLines (cs.splitOn '\n') = cs ++ ['\n'] := by
  have hne : cs.splitOn '\n' ≠ [] := List.splitOn_ne_nil _ _
  rw [← joined_append hne, joined, List.intercalate_splitOn]

theorem not_mem_of_mem_splitOn {sep : Char} {cs part : List Char} (h : part ∈ cs.splitOn sep) :
    sep ∉ part := by
  induction cs generalizing part with
  | nil =>
      rw [List.splitOn_nil, List.mem_singleton] at h
      rw [h]
      exact List.not_mem_nil
  | cons c cs ih =>
      by_cases hc : c = sep
      · subst hc
        rw [Segments.splitOn_cons_self] at h
        rcases List.mem_cons.mp h with rfl | h
        · exact List.not_mem_nil
        · exact ih h
      · rw [Segments.splitOn_cons_ne hc] at h
        cases hsplit : cs.splitOn sep with
        | nil => exact absurd hsplit (List.splitOn_ne_nil _ _)
        | cons first parts =>
            rw [hsplit] at h ih
            rcases List.mem_cons.mp h with rfl | h
            · intro hmem
              rcases List.mem_cons.mp hmem with heq | hmem
              · exact hc heq.symm
              · exact ih List.mem_cons_self hmem
            · exact ih (List.mem_cons_of_mem _ h)

theorem isLine_of_splitOn {cs : List Char} (h : ∀ c ∈ cs, c = '\n' ∨ isLineBreak c = false) :
    ∀ l ∈ cs.splitOn '\n', IsLine l := by
  intro l hl c hc
  rcases h c (mem_of_mem_splitOn hl hc) with rfl | hbreak
  · exact absurd hc (not_mem_of_mem_splitOn hl)
  · exact hbreak

/-- Lists that agree as a whole agree piece by piece when no piece is longer. -/
theorem eq_of_flatMap_eq {α β : Type} {f g : α → List β} {l : List α}
    (hle : ∀ x ∈ l, (g x).length ≤ (f x).length) (h : l.flatMap f = l.flatMap g) :
    ∀ x ∈ l, f x = g x := by
  have hsum : ∀ l : List α, (∀ x ∈ l, (g x).length ≤ (f x).length) →
      (l.flatMap g).length ≤ (l.flatMap f).length := by
    intro l
    induction l with
    | nil => exact fun _ => Nat.le_refl _
    | cons x l ih =>
        intro hle
        have hrest := ih fun y hy => hle y (List.mem_cons_of_mem _ hy)
        have hx := hle x List.mem_cons_self
        simp only [List.flatMap_cons, List.length_append]
        omega
  induction l with
  | nil => exact fun x hx => absurd hx List.not_mem_nil
  | cons x l ih =>
      have hle' : ∀ y ∈ l, (g y).length ≤ (f y).length := fun y hy => hle y (List.mem_cons_of_mem _ hy)
      rw [List.flatMap_cons, List.flatMap_cons] at h
      have hlength := congrArg List.length h
      have hrest := hsum l hle'
      have hx := hle x List.mem_cons_self
      rw [List.length_append, List.length_append] at hlength
      obtain ⟨heq, htail⟩ := List.append_inj h (by omega)
      intro y hy
      rcases List.mem_cons.mp hy with rfl | hy
      · exact heq
      · exact ih hle' htail y hy

/-! ### The masked file -/

variable [PyStrings]

/-- What the networks do to a line of the services: a placeholder in it becomes their lines. -/
def placed (m : ComposeManifest) (text : List Char) : List Char :=
  replaceAll id NETWORKS_BLOCK (joined (networksBlock m)) text

/-- A line of the services with the marker at an entry; the structural entries stay, and what
is no entry is redacted as it stands in the file. -/
def maskedLine (m : ComposeManifest) : ComposeLine → List (List Char)
  | .plain text => ((placed m text).splitOn '\n').map redactComposeLine
  | .entry key value =>
      if key ∈ COMPOSE_SAFE_KEYS then [(ComposeLine.entry key value).text]
      else ["      ".toList ++ key.toList ++ ": \"".toList ++ REDACTED.toList ++ ['"']]

/-- The lines around those of the services. -/
def linesAfter (m : ComposeManifest) : List (List Char) :=
  [] :: "networks:".toList :: networksBlock m ++
    if volumesBlock m = [] then [] else [] :: [] :: "volumes:".toList :: volumesBlock m

/-- Lines in a text; no lines are a blank one. -/
def orBlank (lines : List (List Char)) : List (List Char) :=
  if lines = [] then [[]] else lines

/-- The lines of the file. -/
def composeLines (m : ComposeManifest) (release_metadata : Option Json) : List (List Char) :=
  "services:".toList ::
    orBlank ((servicesLines m release_metadata).flatMap fun line => (placed m line.text).splitOn '\n') ++
    linesAfter m

/-- The lines of the file with the marker at every entry that is not structural. -/
def maskedLines (m : ComposeManifest) (release_metadata : Option Json) : List (List Char) :=
  "services:".toList :: orBlank ((servicesLines m release_metadata).flatMap (maskedLine m)) ++
    (linesAfter m).map redactComposeLine

/-- The redacted text of the file has the marker at every entry that is not structural. -/
def Masked (m : ComposeManifest) (release_metadata : Option Json) : Prop :=
  ∀ text, renderCompose m release_metadata = some text →
    redactedComposeText text = joinLines (maskedLines m release_metadata)

/-! ### Single lines -/

section Lines

omit [PyStrings]

theorem isLine_quote (value : String) : IsLine (quote value) :=
  Json.isLine_stringText value

theorem isLineBreak_of_isLowerAlnum {c : Char} (h : isLowerAlnum c = true ∨ c = '-') :
    isLineBreak c = false := by
  rcases h with h | rfl
  · have hrange := toNat_of_isLowerAlnum h
    simp only [isLineBreak, Bool.or_eq_false_iff, Bool.and_eq_false_iff, decide_eq_false_iff_not,
      beq_eq_false_iff_ne]
    omega
  · decide

theorem isLine_plainName {value : String} (h : PlainName value) : IsLine value.toList :=
  fun c hc => isLineBreak_of_isLowerAlnum (h.chars c hc)

theorem isLine_toDigits (n : Nat) : IsLine (Nat.toDigits 10 n) := by
  intro c hc
  have hdigit := Json.isDigit_toDigits hc
  simp only [Char.isDigit, Bool.and_eq_true, decide_eq_true_eq, ge_iff_le, UInt32.le_iff_toNat_le]
    at hdigit
  have hbounds : '0'.val.toNat = 48 ∧ '9'.val.toNat = 57 := by decide
  simp only [isLineBreak, Char.toNat, Bool.or_eq_false_iff, Bool.and_eq_false_iff,
    decide_eq_false_iff_not, beq_eq_false_iff_ne]
  omega

theorem isLine_intText (n : Int) : IsLine (Json.intText n) := by
  cases n with
  | ofNat n => exact isLine_toDigits n
  | negSucc n => exact @isLine_append ['-'] _ (by decide) (isLine_toDigits (n + 1))

theorem isLine_itemLine (item : String) : IsLine (itemLine item) :=
  isLine_append (by decide) (isLine_quote item)

theorem isLine_intercalate {sep : List Char} (hsep : IsLine sep) {parts : List (List Char)}
    (h : ∀ p ∈ parts, IsLine p) : IsLine (sep.intercalate parts) := by
  induction parts with
  | nil => exact fun c hc => absurd hc (by simp)
  | cons part parts ih =>
      cases parts with
      | nil => simpa using h part List.mem_cons_self
      | cons next parts =>
          rw [List.intercalate_cons_cons]
          exact isLine_append (isLine_append (h part List.mem_cons_self) hsep)
            (ih fun p hp => h p (List.mem_cons_of_mem _ hp))

end Lines

omit [PyStrings] in
/-- A piece of a name, between two pieces of a line. -/
theorem isLine_between {front back : String} (hfront : IsLine front.toList)
    (hback : IsLine back.toList) {name : String} (hname : IsLine name.toList) :
    IsLine (front ++ name ++ back).toList := by
  rw [String.toList_append, String.toList_append]
  exact isLine_append (isLine_append hfront hname) hback

theorem isLine_internalNetworkName (m : ComposeManifest) :
    IsLine (internalNetworkName m).toList := by
  rw [internalNetworkName]
  split
  · rw [String.toList_append, String.toList_append, String.toList_append]
    exact isLine_append (isLine_append (isLine_append (isLine_plainName (.of_slug m.base.app))
      (by decide)) (isLine_plainName (plainName_environment m.base))) (by decide)
  · decide

theorem isLine_networksBlock (m : ComposeManifest) : ∀ l ∈ networksBlock m, IsLine l := by
  have hname := isLine_internalNetworkName m
  rw [networksBlock]
  simp only [List.forall_mem_append, List.forall_mem_cons]
  refine ⟨⟨by decide, by decide, fun _ h => absurd h List.not_mem_nil⟩, ?_⟩
  split
  · simp only [List.forall_mem_append, List.forall_mem_cons]
    refine ⟨⟨isLine_between (by decide) (by decide) hname, isLine_append (by decide) (isLine_quote _),
      by decide, isLine_append (by decide) (isLine_quote _),
      isLine_append (by decide) (isLine_quote _), fun _ h => absurd h List.not_mem_nil⟩, ?_⟩
    split
    · exact List.forall_iff_forall_mem.mp (by decide)
    · exact fun _ h => absurd h List.not_mem_nil
  · exact List.forall_iff_forall_mem.mp (by decide)

theorem isLine_volumesBlock (m : ComposeManifest) : ∀ l ∈ volumesBlock m, IsLine l := by
  intro l hl
  obtain ⟨volume, -, hl⟩ := List.mem_flatMap.mp hl
  have hname : IsLine (dataVolumeName m.base volume).toList := by
    rw [dataVolumeName_eq]
    exact isLine_plainName (plainName_volume m.base volume)
  simp only [List.mem_cons, List.not_mem_nil, or_false] at hl
  rcases hl with h | h | h | h | h | h <;> rw [h]
  · exact isLine_between (by decide) (by decide) hname
  · exact isLine_append (by decide) (isLine_quote _)
  · decide
  · exact isLine_append (by decide) (isLine_quote _)
  · exact isLine_append (by decide) (isLine_quote _)
  · exact isLine_append (by decide) (isLine_quote _)

/-! ### Entries -/

/-- The names of an environment: underscores and what is alphanumeric. -/
def IsEnvKey (key : String) : Prop :=
  key ≠ "" ∧ ∀ c ∈ key.toList, c = '_' ∨ isalnum c = true

theorem isEnvKey_of_isEnvKeyName {key : String} (h : isEnvKeyName key.toList = true) :
    IsEnvKey key := by
  cases hkey : key.toList with
  | nil =>
      rw [hkey] at h
      exact absurd h (by nofun)
  | cons c cs =>
      rw [hkey, isEnvKeyName, Bool.and_eq_true, List.all_eq_true] at h
      refine ⟨fun hempty => ?_, fun d hd => ?_⟩
      · rw [hempty] at hkey
        exact absurd hkey (by simp)
      · have hd' := h.2 d (hkey ▸ hd)
        simpa using hd'

theorem isEnvKey_of_injected {key : String} (h : key ∈ RUNTIME_INJECTED_ENV_KEYS) : IsEnvKey key := by
  have hall : ∀ key ∈ RUNTIME_INJECTED_ENV_KEYS, key ≠ "" ∧
      key.toList.all (fun c => c.toNat < 128 && (c == '_' || c.isAlphanum)) = true :=
    List.forall_iff_forall_mem.mp (by decide)
  obtain ⟨hne, hchars⟩ := hall key h
  refine ⟨hne, fun c hc => ?_⟩
  have hchar := List.all_eq_true.mp hchars c hc
  simp only [Bool.and_eq_true, decide_eq_true_eq, Bool.or_eq_true, beq_iff_eq] at hchar
  rcases hchar.2 with heq | halnum
  · exact Or.inl heq
  · exact Or.inr ((PyStrings.isalnum_ascii c hchar.1).trans halnum)

theorem IsEnvKey.isSpace {key : String} (h : IsEnvKey key) {c : Char} (hc : c ∈ key.toList) :
    isSpace c = false := by
  rcases h.2 c hc with rfl | halnum
  · decide
  · exact PyStrings.isSpace_of_isalnum c halnum

theorem IsEnvKey.ne_mark {key : String} (h : IsEnvKey key) {d : Char} (hd : d.toNat < 128)
    (halnum : d.isAlphanum = false) (hne : d ≠ '_') : d ∉ key.toList := by
  intro hmem
  rcases h.2 d hmem with heq | hd'
  · exact hne heq
  · rw [PyStrings.isalnum_ascii d hd, halnum] at hd'
    exact absurd hd' (by decide)

theorem mem_envMap {m : ComposeManifest} {service : ServiceConfig} {p : String × String}
    (h : p ∈ envMap m service) : IsEnvKey p.1 := by
  rcases List.mem_append.mp h with h | h
  · obtain ⟨q, hq, rfl⟩ := List.mem_map.mp h
    rw [EnvMap.sorted, List.mem_insertionSort] at hq
    exact isEnvKey_of_isEnvKeyName (m.env.named q hq)
  · have hmem := (List.mem_filter.mp h).1
    rw [EnvMap.sorted, List.mem_insertionSort] at hmem
    exact isEnvKey_of_isEnvKeyName ((m.settings service.name).env.named p hmem)

theorem map_fst_runtimeEnvValues (m : ComposeManifest) (service : ServiceConfig)
    (release_metadata : Option Json) :
    (runtimeEnvValues m service release_metadata).map Prod.fst = RUNTIME_INJECTED_ENV_KEYS := rfl

theorem isEnvKey_of_mem {m : ComposeManifest} {service : ServiceConfig}
    {release_metadata : Option Json} {p : String × String}
    (h : p ∈ serviceEntries m service release_metadata) : IsEnvKey p.1 := by
  rcases List.mem_append.mp h with h | h
  · refine isEnvKey_of_injected ?_
    rw [← map_fst_runtimeEnvValues m service release_metadata]
    exact List.mem_map_of_mem h
  · exact mem_envMap (List.mem_filter.mp h).1

theorem isLine_entry {key : String} (h : IsEnvKey key) (value : String) :
    IsLine (ComposeLine.entry key value).text := by
  have hkey : IsLine key.toList := by
    intro c hc
    by_contra hbreak
    rw [Bool.not_eq_false] at hbreak
    exact absurd (isSpace_of_isLineBreak hbreak) (by simp [h.isSpace hc])
  exact isLine_append (isLine_append (isLine_append (by decide) hkey) (by decide)) (isLine_quote value)

theorem isLine_serviceVolumeLines (m : ComposeManifest) (service : ServiceConfig) :
    ∀ l ∈ serviceVolumeLines m service, IsLine l := by
  intro l hl
  rcases List.mem_append.mp hl with hl | hl
  · obtain ⟨⟨mount, index⟩, -, rfl⟩ := List.mem_map.mp hl
    exact isLine_itemLine _
  · obtain ⟨⟨volume, mount⟩, -, rfl⟩ := List.mem_map.mp hl
    exact isLine_itemLine _

omit [PyStrings] in
theorem isLine_healthcheckBlock (service : ServiceConfig) (healthcheck : HealthCheck) :
    ∀ l ∈ healthcheckBlock service healthcheck, IsLine l := by
  simp only [healthcheckBlock, List.forall_mem_cons]
  refine ⟨by decide, ?_, isLine_append (by decide) (isLine_quote _),
    isLine_append (by decide) (isLine_quote _), isLine_append (by decide) (isLine_intText _),
    fun _ h => absurd h List.not_mem_nil⟩
  refine isLine_append (isLine_append (by decide) (isLine_intercalate (by decide) ?_)) (by decide)
  intro p hp
  obtain ⟨item, -, rfl⟩ := List.mem_map.mp hp
  exact isLine_quote item

/-- Every line of a service is one line. -/
theorem isLine_serviceBlock (m : ComposeManifest) (release_metadata : Option Json)
    (service : ServiceConfig) : ∀ l ∈ serviceBlock m release_metadata service, IsLine l.text := by
  have hname := isLine_plainName (.of_slug service.name)
  have halias : IsLine ("          - ".toList ++ quote (m.base.serviceAlias service.name)) :=
    isLine_append (by decide) (isLine_quote _)
  have hnil : ∀ l ∈ ([] : List ComposeLine), IsLine l.text := fun _ h => absurd h List.not_mem_nil
  simp only [serviceBlock, List.forall_mem_append, List.forall_mem_cons, List.forall_mem_map]
  refine ⟨⟨⟨⟨⟨⟨⟨⟨⟨⟨⟨⟨?_, ?_, ?_, ?_, ?_, hnil⟩, ?_⟩, ?_⟩, ?_, hnil⟩, ?_⟩, ?_, ?_, hnil⟩, ?_⟩, ?_⟩,
    ?_⟩, ?_⟩, ?_, ?_, ?_, ?_, ?_, ?_, ?_, ?_, hnil⟩, ?_⟩
  · exact isLine_between (by decide) (by decide) hname
  · exact @isLine_append "    image: ".toList _ (by decide) (isLine_quote _)
  · decide
  · decide
  · decide
  · exact fun _ _ => isLine_itemLine _
  · exact fun _ _ => isLine_itemLine _
  · decide
  · exact fun p hp => isLine_entry (isEnvKey_of_mem hp) p.2
  · decide
  · exact isLine_itemLine _
  · cases service.host_port with
    | none => exact hnil
    | some host_port =>
        simp only [Option.elim_some, List.forall_mem_cons]
        exact ⟨by decide, isLine_itemLine _, hnil⟩
  · split
    · exact hnil
    · simp only [List.forall_mem_cons, List.forall_mem_map]
      exact ⟨by decide, fun l hl => isLine_serviceVolumeLines m service l hl⟩
  · split
    · exact hnil
    · simp only [List.forall_mem_cons, List.forall_mem_map]
      exact ⟨by decide, fun _ _ => isLine_itemLine _⟩
  · exact fun l hl => isLine_healthcheckBlock service _ l hl
  · exact @isLine_append "    mem_limit: ".toList _ (by decide) (isLine_quote _)
  · decide
  · decide
  · decide
  · exact halias
  · exact isLine_between (by decide) (by decide) (isLine_internalNetworkName m)
  · decide
  · exact halias
  · split
    · simp only [List.forall_mem_cons]
      refine ⟨@isLine_append "          - ".toList _ (by decide) (isLine_quote _), ?_⟩
      split
      · simp only [List.forall_mem_cons]
        exact ⟨by decide, hnil⟩
      · exact hnil
    · exact hnil

/-! ### Ends -/

section Ends

omit [PyStrings]

/-- A text that `rstrip` leaves as it is. -/
def EndsBare (cs : List Char) : Prop :=
  ∃ front c, cs = front ++ [c] ∧ isSpace c = false

theorem EndsBare.append (front : List Char) {cs : List Char} (h : EndsBare cs) :
    EndsBare (front ++ cs) := by
  obtain ⟨front', c, rfl, hc⟩ := h
  exact ⟨front ++ front', c, (List.append_assoc _ _ _).symm, hc⟩

theorem EndsBare.ne_nil {cs : List Char} (h : EndsBare cs) : cs ≠ [] := by
  obtain ⟨front, c, rfl, -⟩ := h
  simp

theorem EndsBare.rstrip_eq {cs : List Char} (h : EndsBare cs) : rstrip cs = cs := by
  obtain ⟨front, c, rfl, hc⟩ := h
  rw [rstrip, List.reverse_append, List.reverse_singleton, List.singleton_append,
    List.dropWhile_cons_of_neg (by simp [hc]), List.reverse_cons, List.reverse_reverse]

theorem endsBare_quote (value : String) : EndsBare (quote value) :=
  ⟨'"' :: value.toList.flatMap Json.escapeChar, '"', rfl, by decide⟩

/-- Joined lines end as the last of them. -/
theorem EndsBare.joined {ls : List (List Char)} {l : List Char} (h : EndsBare l) :
    EndsBare (joined (ls ++ [l])) := by
  induction ls with
  | nil => simpa [V1.joined] using h
  | cons l' ls ih =>
      cases hls : ls ++ [l] with
      | nil => exact absurd hls (by simp)
      | cons next rest =>
          rw [List.cons_append, hls, V1.joined, List.intercalate_cons_cons]
          rw [hls] at ih
          exact ih.append _

theorem joined_append_last (ls : List (List Char)) (l : List Char) :
    joined (ls ++ [l]) = joinLines ls ++ l := by
  induction ls with
  | nil => simp [joined, joinLines]
  | cons l' ls ih =>
      cases hls : ls ++ [l] with
      | nil => exact absurd hls (by simp)
      | cons next rest =>
          rw [List.cons_append, hls, joined, List.intercalate_cons_cons, joinLines_cons]
          rw [hls, joined] at ih
          rw [ih]
          simp

/-- The last of some lines ends bare. -/
def LastBare {α : Type} (text : α → List Char) (lines : List α) : Prop :=
  ∃ ls l, lines = ls ++ [l] ∧ EndsBare (text l)

variable {α : Type} {text : α → List Char}

theorem LastBare.singleton {l : α} (h : EndsBare (text l)) : LastBare text [l] := ⟨[], l, rfl, h⟩

theorem LastBare.append (front : List α) {lines : List α} (h : LastBare text lines) :
    LastBare text (front ++ lines) := by
  obtain ⟨ls, l, rfl, hl⟩ := h
  exact ⟨front ++ ls, l, (List.append_assoc _ _ _).symm, hl⟩

theorem LastBare.cons (x : α) {lines : List α} (h : LastBare text lines) :
    LastBare text (x :: lines) := h.append [x]

theorem LastBare.ne_nil {lines : List α} (h : LastBare text lines) : lines ≠ [] := by
  obtain ⟨ls, l, rfl, -⟩ := h
  simp

theorem LastBare.flatMap {γ : Type} {f : γ → List α} (h : ∀ x, LastBare text (f x)) {xs : List γ}
    (hne : xs ≠ []) : LastBare text (xs.flatMap f) := by
  induction xs with
  | nil => exact absurd rfl hne
  | cons x xs ih =>
      rw [List.flatMap_cons]
      cases xs with
      | nil => simpa using h x
      | cons y ys => exact (ih (List.cons_ne_nil y ys)).append _

/-- Joined lines are not stripped. -/
theorem LastBare.rstrip_joined {lines : List α} (h : LastBare text lines) :
    rstrip (V1.joined (lines.map text)) = V1.joined (lines.map text) := by
  obtain ⟨ls, l, rfl, hl⟩ := h
  rw [List.map_append, List.map_singleton]
  exact hl.joined.rstrip_eq

end Ends

theorem lastBare_serviceBlock (m : ComposeManifest) (release_metadata : Option Json)
    (service : ServiceConfig) :
    LastBare ComposeLine.text (serviceBlock m release_metadata service) := by
  have halias : EndsBare (ComposeLine.plain
      ("          - ".toList ++ quote (m.base.serviceAlias service.name))).text :=
    (endsBare_quote _).append _
  rw [serviceBlock]
  by_cases happ : m.perApp = true
  · rw [if_pos happ]
    refine LastBare.append _ ?_
    split
    · exact .cons _ (.singleton ⟨"      ophelia-internal".toList, ':', by decide, by decide⟩)
    · exact .singleton ((endsBare_quote _).append _)
  · rw [if_neg happ, List.append_nil]
    refine LastBare.append _ ?_
    exact .cons _ (.cons _ (.cons _ (.cons _ (.cons _ (.cons _ (.cons _ (.singleton halias)))))))

omit [PyStrings] in
theorem endsBare_external : EndsBare "    external: true".toList :=
  ⟨"    external: tru".toList, 'e', by decide, by decide⟩

theorem lastBare_networksBlock (m : ComposeManifest) : LastBare id (networksBlock m) := by
  rw [networksBlock]
  refine LastBare.append _ ?_
  by_cases happ : m.perApp = true
  · rw [if_pos happ]
    split
    · exact .append _ (.cons _ (.singleton endsBare_external))
    · rw [List.append_nil]
      exact .cons _ (.cons _ (.cons _ (.cons _ (.singleton ((endsBare_quote _).append _)))))
  · rw [if_neg happ]
    exact .cons _ (.singleton endsBare_external)

theorem lastBare_volumesBlock (m : ComposeManifest) (h : volumesBlock m ≠ []) :
    LastBare id (volumesBlock m) := by
  rw [volumesBlock]
  refine LastBare.flatMap (fun volume => ?_) fun hnil => h ?_
  · exact .cons _ (.cons _ (.cons _ (.cons _ (.cons _ (.singleton
      ((endsBare_quote _).append _))))))
  · rw [volumesBlock, hnil]
    rfl

/-! ### The whole text -/

omit [PyStrings] in
/-- A replacement works line by line. -/
theorem replaceAll_joinLines {old new : List Char} (hold : old ≠ []) (hbreak : '\n' ∉ old)
    (ls : List (List Char)) :
    replaceAll id old new (joinLines ls) = joinLines (ls.map (replaceAll id old new)) := by
  induction ls with
  | nil => rfl
  | cons l ls ih => rw [joinLines_cons, replaceAll_append_cons hold hbreak, ih, List.map_cons,
      joinLines_cons]

omit [PyStrings] in
/-- Lines with line feeds in them are more lines. -/
theorem joinLines_flatMap_splitOn (ls : List (List Char)) :
    joinLines (ls.flatMap (·.splitOn '\n')) = joinLines ls := by
  induction ls with
  | nil => rfl
  | cons l ls ih =>
      rw [List.flatMap_cons, joinLines_append, ih, joinLines_splitOn, joinLines_cons,
        List.append_assoc]
      rfl

omit [PyStrings] in
theorem joined_orBlank (ls : List (List Char)) : joined ls ++ ['\n'] = joinLines (orBlank ls) := by
  by_cases h : ls = []
  · rw [h]
    rfl
  · rw [joined_append h, orBlank, if_neg h]

omit [PyStrings] in
theorem placeholders : SERVICES_BLOCK ≠ [] ∧ NETWORKS_BLOCK ≠ [] ∧ '\n' ∉ SERVICES_BLOCK ∧
    '\n' ∉ NETWORKS_BLOCK ∧ ¬ SERVICES_BLOCK <:+: NETWORKS_BLOCK := by decide

omit [PyStrings] in
/-- The template, with lines in the place of the first placeholder. -/
theorem replaceAll_template (ls : List (List Char)) :
    replaceAll id SERVICES_BLOCK (joined ls) composeTemplate =
      joinLines ("services:".toList :: orBlank ls ++ [[], "networks:".toList, NETWORKS_BLOCK]) := by
  obtain ⟨hservices, -, hbreak, -, hother⟩ := placeholders
  have htemplate : composeTemplate =
      joinLines ["services:".toList, SERVICES_BLOCK, [], "networks:".toList, NETWORKS_BLOCK] := by
    decide +kernel
  have h₁ : ¬ SERVICES_BLOCK <:+: "services:".toList := by decide
  have h₂ : ¬ SERVICES_BLOCK <:+: "networks:".toList := by decide
  rw [htemplate, replaceAll_joinLines hservices hbreak]
  simp only [List.map_cons, List.map_nil, replaceAll_nil, replaceAll_self hservices,
    replaceAll_of_not_infix h₁, replaceAll_of_not_infix h₂, replaceAll_of_not_infix hother]
  rw [joinLines_cons, joinLines_cons, joinLines_between, ← joined_orBlank, List.append_assoc]
  rfl

/-- The lines of the services with the networks placed in them. -/
def placedLines (m : ComposeManifest) (ls : List (List Char)) : List (List Char) :=
  ls.flatMap fun l => (placed m l).splitOn '\n'

theorem joinLines_placedLines (m : ComposeManifest) (ls : List (List Char)) :
    joinLines ((orBlank ls).map (placed m)) = joinLines (orBlank (placedLines m ls)) := by
  by_cases h : ls = []
  · rw [h]
    rfl
  · have hne : placedLines m ls ≠ [] := by
      obtain ⟨l, ls', rfl⟩ := List.exists_cons_of_ne_nil h
      rw [placedLines, List.flatMap_cons]
      exact List.append_ne_nil_of_left_ne_nil (List.splitOn_ne_nil _ _) _
    rw [orBlank, if_neg h, orBlank, if_neg hne, placedLines, ← joinLines_flatMap_splitOn,
      List.flatMap_map]

/-- The file without its volumes. -/
theorem placed_template (m : ComposeManifest) (ls : List (List Char)) :
    placed m (joinLines ("services:".toList :: orBlank ls ++ [[], "networks:".toList, NETWORKS_BLOCK])) =
      joinLines ("services:".toList :: orBlank (placedLines m ls) ++
        [] :: "networks:".toList :: networksBlock m) := by
  obtain ⟨-, hnetworks, -, hbreak, -⟩ := placeholders
  have h₁ : ¬ NETWORKS_BLOCK <:+: "services:".toList := by decide
  have h₂ : ¬ NETWORKS_BLOCK <:+: "networks:".toList := by decide
  rw [placed, replaceAll_joinLines hnetworks hbreak]
  simp only [List.map_cons, List.map_append, List.map_nil, replaceAll_nil, replaceAll_self hnetworks,
    replaceAll_of_not_infix h₁, replaceAll_of_not_infix h₂]
  have hplaced := joinLines_placedLines m ls
  have hnetwork : joinLines [[], "networks:".toList, joined (networksBlock m)] =
      joinLines ([] :: "networks:".toList :: networksBlock m) := by
    rw [joinLines_cons, joinLines_cons, joinLines_cons, joinLines_cons, joinLines_cons,
      ← joined_append (lastBare_networksBlock m).ne_nil]
    rfl
  rw [joinLines_between, joinLines_between, hnetwork, ← hplaced]
  rfl

/-- The lines of the file are those of the services with the networks placed in them, and
those around them. -/
theorem splitlines_renderCompose {m : ComposeManifest} {release_metadata : Option Json}
    {text : List Char} (h : renderCompose m release_metadata = some text)
    (hlines : ∀ l ∈ composeLines m release_metadata, IsLine l) :
    splitlines text = composeLines m release_metadata := by
  rw [renderCompose] at h
  split_ifs at h with hkind
  -- neither block ends in a blank
  have hnetworks : rstrip (joined (networksBlock m)) = joined (networksBlock m) := by
    simpa using (lastBare_networksBlock m).rstrip_joined
  have hservices : rstrip (joined ((servicesLines m release_metadata).map ComposeLine.text)) =
      joined ((servicesLines m release_metadata).map ComposeLine.text) := by
    by_cases hnil : m.base.services.rows = []
    · rw [servicesLines, hnil]
      rfl
    · exact (LastBare.flatMap (lastBare_serviceBlock m release_metadata) hnil).rstrip_joined
  have hplaced := placed_template m ((servicesLines m release_metadata).map ComposeLine.text)
  rw [← replaceAll_template, placed] at hplaced
  simp only [hnetworks, hservices, hplaced] at h
  have hbody : composeLines m release_metadata =
      ("services:".toList ::
        orBlank (placedLines m ((servicesLines m release_metadata).map ComposeLine.text)) ++
        [] :: "networks:".toList :: networksBlock m) ++
      if volumesBlock m = [] then [] else [] :: [] :: "volumes:".toList :: volumesBlock m := by
    rw [composeLines, linesAfter, placedLines, List.flatMap_map, List.append_assoc]
  rw [hbody] at hlines ⊢
  by_cases hvolumes : volumesBlock m = []
  · rw [if_pos hvolumes, List.append_nil] at hlines ⊢
    have hblank : joined (volumesBlock m) = [] := by rw [hvolumes]; rfl
    rw [if_pos hblank] at h
    rw [← Option.some.inj h, splitlines_joinLines hlines]
  · rw [if_neg hvolumes] at hlines ⊢
    have hlast := lastBare_volumesBlock m hvolumes
    have hvol : rstrip (joined (volumesBlock m)) = joined (volumesBlock m) := by
      simpa using hlast.rstrip_joined
    obtain ⟨ls, l, hsplit, hbare⟩ := hlast
    have hne : joined (volumesBlock m) ≠ [] := by
      rw [hsplit]
      exact (EndsBare.joined hbare).ne_nil
    rw [if_neg hne, hvol] at h
    rw [hsplit] at h hlines ⊢
    generalize "services:".toList ::
        orBlank (placedLines m ((servicesLines m release_metadata).map ComposeLine.text)) ++
        [] :: "networks:".toList :: networksBlock m = body at h hlines ⊢
    have hhead : joinLines ([] :: [] :: "volumes:".toList :: ls) =
        "\n\nvolumes:\n".toList ++ joinLines ls := by
      rw [joinLines_cons, joinLines_cons, joinLines_cons]
      rfl
    have htext : text = joinLines (body ++ [] :: [] :: "volumes:".toList :: ls) ++ l := by
      rw [← Option.some.inj h, joined_append_last, joinLines_append, hhead]
      simp only [List.append_assoc]
    have hrest : ∀ x ∈ body ++ [] :: [] :: "volumes:".toList :: ls, IsLine x := by
      intro x hx
      refine hlines x ?_
      rcases List.mem_append.mp hx with hx | hx
      · exact List.mem_append_left _ hx
      · refine List.mem_append_right _ ?_
        rw [← List.cons_append, ← List.cons_append, ← List.cons_append]
        exact List.mem_append_left _ hx
    have hl : IsLine l := hlines l (by simp)
    rw [htext, splitlines_joinLines_append hrest hl hbare.ne_nil]
    simp

/-! ### Every line of the file is one -/

omit [PyStrings] in
theorem mem_joined {c : Char} {ls : List (List Char)} (h : c ∈ joined ls) :
    c = '\n' ∨ ∃ l ∈ ls, c ∈ l := by
  induction ls with
  | nil => exact absurd h (by simp [joined])
  | cons l ls ih =>
      cases ls with
      | nil => exact Or.inr ⟨l, List.mem_cons_self, by simpa [joined] using h⟩
      | cons next ls =>
          rw [joined, List.intercalate_cons_cons, List.append_assoc] at h
          rcases List.mem_append.mp h with h | h
          · exact Or.inr ⟨l, List.mem_cons_self, h⟩
          · rcases List.mem_append.mp h with h | h
            · exact Or.inl (List.mem_singleton.mp h)
            · exact (ih h).imp_right fun ⟨l', hl', hc⟩ => ⟨l', List.mem_cons_of_mem l hl', hc⟩

/-- The networks put lines into a line, and nothing else. -/
theorem isLine_placed (m : ComposeManifest) {text : List Char} (h : IsLine text) :
    ∀ l ∈ (placed m text).splitOn '\n', IsLine l := by
  refine isLine_of_splitOn fun c hc => ?_
  rcases mem_of_mem_replaceAll placeholders.2.1 hc with hc | hc
  · exact Or.inr (h c hc)
  · exact (mem_joined hc).imp_right fun ⟨l, hl, hmem⟩ => isLine_networksBlock m l hl c hmem

omit [PyStrings] in
theorem isLine_orBlank {ls : List (List Char)} (h : ∀ l ∈ ls, IsLine l) :
    ∀ l ∈ orBlank ls, IsLine l := by
  rw [orBlank]
  split
  · simp only [List.forall_mem_singleton]
    exact fun c hc => absurd hc List.not_mem_nil
  · exact h

theorem isLine_linesAfter (m : ComposeManifest) : ∀ l ∈ linesAfter m, IsLine l := by
  have hnil : IsLine [] := fun c hc => absurd hc List.not_mem_nil
  simp only [linesAfter, List.forall_mem_append, List.forall_mem_cons]
  refine ⟨⟨hnil, by decide, isLine_networksBlock m⟩, ?_⟩
  split
  · exact fun _ h => absurd h List.not_mem_nil
  · simp only [List.forall_mem_cons]
    exact ⟨hnil, hnil, by decide, isLine_volumesBlock m⟩

theorem isLine_servicesLines {m : ComposeManifest} {release_metadata : Option Json}
    {line : ComposeLine} (h : line ∈ servicesLines m release_metadata) : IsLine line.text := by
  obtain ⟨service, -, hline⟩ := List.mem_flatMap.mp h
  exact isLine_serviceBlock m release_metadata service line hline

theorem isLine_composeLines (m : ComposeManifest) (release_metadata : Option Json) :
    ∀ l ∈ composeLines m release_metadata, IsLine l := by
  simp only [composeLines, List.forall_mem_append, List.forall_mem_cons]
  refine ⟨⟨by decide, isLine_orBlank fun l hl => ?_⟩, isLine_linesAfter m⟩
  obtain ⟨line, hline, hmem⟩ := List.mem_flatMap.mp hl
  exact isLine_placed m (isLine_servicesLines hline) l hmem

omit [PyStrings] in
theorem mem_of_mem_strip {c : Char} {cs : List Char} (h : c ∈ strip cs) : c ∈ cs :=
  (List.dropWhile_sublist _).mem
    (List.mem_reverse.mp ((List.dropWhile_sublist _).mem (List.mem_reverse.mp h)))

/-- Redacting keeps lines apart. -/
theorem isLine_redactComposeLine {line : List Char} (h : IsLine line) :
    IsLine (redactComposeLine line) := by
  rw [redactComposeLine]
  split
  · have hkey : IsLine (before ':' (strip line)) := fun c hc =>
      h c (mem_of_mem_strip ((List.takeWhile_sublist _).mem hc))
    have hblank : IsLine (line.takeWhile isSpace) := fun c hc =>
      h c ((List.takeWhile_sublist _).mem hc)
    exact isLine_append (isLine_append (isLine_append (isLine_append hblank hkey) (by decide))
      (by decide)) (by decide)
  · exact h

/-- The entries of the file are those of its services. -/
theorem mem_servicesLines_entry {m : ComposeManifest} {release_metadata : Option Json}
    {key value : String} :
    ComposeLine.entry key value ∈ servicesLines m release_metadata ↔
      ∃ service ∈ m.base.services.rows, (key, value) ∈ serviceEntries m service release_metadata := by
  rw [servicesLines, List.mem_flatMap]
  refine exists_congr fun service => and_congr_right fun _ => ?_
  have hmap {α : Type} (f : α → List Char) (xs : List α) :
      ComposeLine.entry key value ∉ xs.map fun x => ComposeLine.plain (f x) := by
    intro h
    obtain ⟨x, -, heq⟩ := List.mem_map.mp h
    exact absurd heq (by nofun)
  simp only [serviceBlock, List.mem_append]
  constructor
  · intro h
    rcases h with ((((((((((h | h) | h) | h) | h) | h) | h) | h) | h) | h) | h) | h
    · exact absurd h (by nofun)
    · exact absurd h (hmap _ _)
    · exact absurd h (hmap _ _)
    · exact absurd h (by nofun)
    · -- the entries are the only lines that are no plain ones
      obtain ⟨p, hp, heq⟩ := List.mem_map.mp h
      obtain ⟨rfl, rfl⟩ := ComposeLine.entry.inj heq
      exact hp
    · exact absurd h (by nofun)
    · cases hport : service.host_port with
      | none =>
          rw [hport] at h
          exact absurd h List.not_mem_nil
      | some host_port =>
          rw [hport] at h
          exact absurd h (by nofun)
    · split_ifs at h
      · exact absurd h List.not_mem_nil
      · exact absurd ((List.mem_cons.mp h).resolve_left (by nofun)) (hmap _ _)
    · split_ifs at h
      · exact absurd h List.not_mem_nil
      · exact absurd ((List.mem_cons.mp h).resolve_left (by nofun)) (hmap _ _)
    · exact absurd h (hmap _ _)
    · exact absurd h (by nofun)
    · split_ifs at h
      · exact absurd h (by nofun)
      · exact absurd h (by nofun)
      · exact absurd h List.not_mem_nil
  · intro h
    refine Or.inl (Or.inl (Or.inl (Or.inl (Or.inl (Or.inl (Or.inl (Or.inr ?_)))))))
    exact List.mem_map_of_mem (f := fun p => ComposeLine.entry p.1 p.2) h

omit [PyStrings] in
/-- The line with the marker is the entry with the marker as its value. -/
theorem markerLine_eq (key : String) :
    "      ".toList ++ key.toList ++ ": \"".toList ++ REDACTED.toList ++ ['"'] =
      (ComposeLine.entry key REDACTED).text := by
  have hquote : quote REDACTED = ['"'] ++ (REDACTED.toList ++ ['"']) := by decide
  have hcolon : ": \"".toList = ": ".toList ++ ['"'] := by decide
  rw [ComposeLine.text_entry, hquote, hcolon]
  simp only [List.append_assoc]

theorem isLine_maskedLine {m : ComposeManifest} {release_metadata : Option Json}
    {line : ComposeLine} (h : line ∈ servicesLines m release_metadata) :
    ∀ l ∈ maskedLine m line, IsLine l := by
  cases line with
  | plain text =>
      intro l hl
      obtain ⟨l', hl', rfl⟩ := List.mem_map.mp hl
      exact isLine_redactComposeLine (isLine_placed m (isLine_servicesLines h) l' hl')
  | entry key value =>
      obtain ⟨service, -, hentry⟩ := mem_servicesLines_entry.mp h
      have hline := isLine_entry (isEnvKey_of_mem hentry)
      rw [maskedLine]
      split
      · simp only [List.forall_mem_singleton]
        exact hline value
      · simp only [List.forall_mem_singleton]
        rw [markerLine_eq]
        exact hline REDACTED

theorem isLine_maskedLines (m : ComposeManifest) (release_metadata : Option Json) :
    ∀ l ∈ maskedLines m release_metadata, IsLine l := by
  simp only [maskedLines, List.forall_mem_append, List.forall_mem_cons, List.forall_mem_map]
  refine ⟨⟨by decide, isLine_orBlank fun l hl => ?_⟩, fun l hl =>
    isLine_redactComposeLine (isLine_linesAfter m l hl)⟩
  obtain ⟨line, hline, hmem⟩ := List.mem_flatMap.mp hl
  exact isLine_maskedLine hline l hmem

/-! ### Redacting an entry -/

omit [PyStrings] in
theorem strip_eq_rstrip (cs : List Char) : strip cs = rstrip (cs.dropWhile isSpace) := rfl

/-- The blanks in front of an entry, and what follows them. -/
theorem strip_entry {key : String} (h : IsEnvKey key) (value : String) :
    strip (ComposeLine.entry key value).text = key.toList ++ ": ".toList ++ quote value ∧
      (ComposeLine.entry key value).text.takeWhile isSpace = "      ".toList := by
  have hblank : ∀ c ∈ "      ".toList, isSpace c = true :=
    List.forall_iff_forall_mem.mp (by decide)
  obtain ⟨c, cs, hcs⟩ := List.exists_cons_of_ne_nil fun hnil : key.toList = [] =>
    h.1 (String.toList_eq_nil_iff.mp hnil)
  have hc : isSpace c = false := h.isSpace (hcs ▸ List.mem_cons_self)
  rw [ComposeLine.text_entry, List.append_assoc, List.append_assoc, hcs, List.cons_append]
  constructor
  · rw [strip_eq_rstrip, List.dropWhile_append_of_pos hblank, List.dropWhile_cons_of_neg (by simp [hc])]
    rw [← List.cons_append, ← List.append_assoc]
    exact ((endsBare_quote value).append _).rstrip_eq
  · rw [List.takeWhile_append_of_pos hblank, List.takeWhile_cons_of_neg (by simp [hc]), List.append_nil]

/-- Only a name of underscores is not recognised. -/
theorem isalnumText_key {key : String} (h : IsEnvKey key) :
    isalnumText (key.toList.filter (· ≠ '_')) = !key.toList.all (· == '_') := by
  have hall : (key.toList.filter (· ≠ '_')).all isalnum = true := by
    rw [List.all_eq_true]
    intro c hc
    obtain ⟨hc, hne⟩ := List.mem_filter.mp hc
    exact (h.2 c hc).resolve_left (by simpa using hne)
  rw [isalnumText, hall, Bool.and_true]
  congr 1
  rw [Bool.eq_iff_iff, List.isEmpty_iff, List.filter_eq_nil_iff, List.all_eq_true]
  simp

theorem redactComposeLine_entry {key : String} (h : IsEnvKey key) (value : String) :
    redactComposeLine (ComposeLine.entry key value).text =
      if key.toList.all (· == '_') = true ∨ key ∈ COMPOSE_SAFE_KEYS then
        (ComposeLine.entry key value).text
      else (ComposeLine.entry key REDACTED).text := by
  obtain ⟨hstrip, hblank⟩ := strip_entry h value
  have hcolon : ':' ∉ key.toList := h.ne_mark (by decide) (by decide) (by decide)
  have hbefore : before ':' (key.toList ++ ": ".toList ++ quote value) = key.toList := by
    rw [before, List.append_assoc, List.takeWhile_append_of_pos]
    · simp
    · intro c hc
      simpa using fun heq : c = ':' => hcolon (heq ▸ hc)
  have hprefix : "      ".toList <+: (ComposeLine.entry key value).text := by
    rw [ComposeLine.text_entry, List.append_assoc, List.append_assoc]
    exact List.prefix_append _ _
  have hmem : ':' ∈ key.toList ++ ": ".toList ++ quote value := by simp
  have hne : key.toList ≠ [] := fun hnil => h.1 (String.toList_eq_nil_iff.mp hnil)
  rw [redactComposeLine]
  simp only [hstrip, hblank, hbefore, isalnumText_key h, String.ofList_toList, hprefix, hmem, hne,
    ne_eq, not_false_eq_true, true_and, and_true, Bool.not_eq_eq_eq_not, Bool.not_true]
  by_cases hsafe : key ∈ COMPOSE_SAFE_KEYS
  · rw [if_neg fun hand => hand.2 hsafe, if_pos (Or.inr hsafe)]
  · cases hall : key.toList.all (· == '_')
    · rw [if_pos ⟨rfl, hsafe⟩, if_neg (by simp [hsafe]), ← markerLine_eq]
    · rw [if_neg (by simp), if_pos (Or.inl rfl)]

omit [PyStrings] in
theorem quote_injective {value value' : String} (h : quote value = quote value') : value = value' := by
  have hread := Json.readString?_stringText value (quote value).length (Nat.le_succ _) []
  have hread' := Json.readString?_stringText value' (quote value).length
    (by rw [h]; exact Nat.le_succ _) []
  rw [quote] at h hread hread'
  rw [h, quote] at hread
  rw [h, quote, hread, Option.some.injEq, Prod.mk.injEq] at hread'
  exact String.toList_inj.mp hread'.1

omit [PyStrings] in
theorem entry_text_inj {key value value' : String} :
    (ComposeLine.entry key value).text = (ComposeLine.entry key value').text ↔ value = value' := by
  constructor
  · intro h
    rw [ComposeLine.text_entry, ComposeLine.text_entry] at h
    exact quote_injective (List.append_cancel_left h)
  · rintro rfl
    rfl

/-! ### Where the second placeholder stands -/

section Placeholder

omit [PyStrings]

theorem networksBlock_eq_cons : ∃ rest, NETWORKS_BLOCK = '{' :: rest := ⟨_, rfl⟩

theorem escapeChar_placeholder (c : Char) :
    Json.escapeChar c = [c] ∨ ∀ d ∈ Json.escapeChar c, d ∉ NETWORKS_BLOCK := by
  have hdigit : ∀ n < 16, Json.hexDigit n ∉ NETWORKS_BLOCK := by decide
  have hunit : ∀ n, ∀ d ∈ Json.escapeUnit n, d ∉ NETWORKS_BLOCK := by
    intro n
    simp only [Json.escapeUnit, List.forall_mem_cons]
    exact ⟨by decide, by decide, hdigit _ (Nat.mod_lt _ (by decide)), hdigit _ (Nat.mod_lt _ (by decide)),
      hdigit _ (Nat.mod_lt _ (by decide)), hdigit _ (Nat.mod_lt _ (by decide)),
      fun d hd => absurd hd List.not_mem_nil⟩
  rw [Json.escapeChar]
  split_ifs
  all_goals first
    | exact Or.inl rfl
    | exact Or.inr (hunit _)
    | exact Or.inr (List.forall_mem_append.mpr ⟨hunit _, hunit _⟩)
    | exact Or.inr (List.forall_iff_forall_mem.mp (by decide))

/-- The text of an entry holds the placeholder only in its value. -/
theorem placeholder_entry_iff {key value : String} (h : '{' ∉ key.toList) :
    NETWORKS_BLOCK <:+: (ComposeLine.entry key value).text ↔ NETWORKS_BLOCK <:+: value.toList := by
  have hmark : '"' ∉ NETWORKS_BLOCK := by decide
  have hself : ∀ c ∈ NETWORKS_BLOCK, Json.escapeChar c = [c] :=
    List.forall_iff_forall_mem.mp (by decide)
  have hescape : NETWORKS_BLOCK <:+: value.toList.flatMap Json.escapeChar ↔
      NETWORKS_BLOCK <:+: value.toList := infix_flatMap_iff placeholders.2.1
    (fun c => List.length_pos_iff.mp (Json.length_escapeChar_pos c)) hself escapeChar_placeholder
  rw [← hescape]
  constructor
  · intro hpart
    obtain ⟨rest, hrest⟩ := networksBlock_eq_cons
    rw [ComposeLine.text_entry, quote, Json.stringText] at hpart
    have hfront : '{' ∉ "      ".toList ++ key.toList ++ ": ".toList ++ ['"'] := by simp [h]
    refine infix_of_back placeholders.2.1 hmark ?_
    rw [hrest] at hpart ⊢
    exact infix_of_front hfront (by simpa using hpart)
  · intro hpart
    refine hpart.trans ⟨"      ".toList ++ key.toList ++ ": ".toList ++ ['"'], ['"'], ?_⟩
    simp [ComposeLine.text_entry, quote, Json.stringText]

end Placeholder

/-! ### Entry by entry -/

omit [PyStrings] in
theorem splitOn_of_not_mem {sep : Char} {cs : List Char} (h : sep ∉ cs) : cs.splitOn sep = [cs] := by
  have hsplit := Segments.splitOn_append h []
  simpa using hsplit

/-- A placeholder in a line makes lines of it. -/
theorem not_singleton_placed (m : ComposeManifest) {text : List Char} (h : NETWORKS_BLOCK <:+: text)
    (line : List Char) : (placed m text).splitOn '\n' ≠ [line] := by
  intro hsplit
  have hfeed : '\n' ∈ joined (networksBlock m) := by
    obtain ⟨first, second, rest, hblock⟩ : ∃ first second rest,
        networksBlock m = first :: second :: rest := ⟨_, _, _, rfl⟩
    rw [hblock, joined, List.intercalate_cons_cons]
    simp
  have hmem : '\n' ∈ placed m text := (infix_replaceAll placeholders.2.1 h).mem hfeed
  have hjoin : ['\n'].intercalate ((placed m text).splitOn '\n') = placed m text :=
    List.intercalate_splitOn '\n'
  rw [hsplit] at hjoin
  have hline : line = placed m text := by simpa using hjoin
  exact not_mem_of_mem_splitOn (hsplit ▸ List.mem_singleton_self line) (hline ▸ hmem)

/-- An entry comes out as it should exactly when its value holds no placeholder, and its name is
recognised or its value is the marker. -/
theorem maskedLine_entry_iff (m : ComposeManifest) {key value : String} (h : IsEnvKey key)
    (hsafe : key ∈ COMPOSE_SAFE_KEYS → '{' ∉ value.toList) :
    ((placed m (ComposeLine.entry key value).text).splitOn '\n').map redactComposeLine =
        maskedLine m (.entry key value) ↔
      (key ∉ COMPOSE_SAFE_KEYS → ¬ NETWORKS_BLOCK <:+: value.toList ∧
        (key.toList.all (· == '_') = true → value = REDACTED)) := by
  have hbrace : '{' ∉ key.toList := h.ne_mark (by decide) (by decide) (by decide)
  have hplaceholder := @placeholder_entry_iff key value hbrace
  -- without a placeholder the line of the entry stays one line
  have hone (hnot : ¬ NETWORKS_BLOCK <:+: value.toList) :
      ((placed m (ComposeLine.entry key value).text).splitOn '\n').map redactComposeLine =
        [redactComposeLine (ComposeLine.entry key value).text] := by
    have hfeed : '\n' ∉ (ComposeLine.entry key value).text := fun hmem =>
      absurd (isLine_entry h value '\n' hmem) (by decide)
    rw [placed, replaceAll_of_not_infix fun hpart => hnot (hplaceholder.mp hpart),
      splitOn_of_not_mem hfeed, List.map_singleton]
  rw [maskedLine]
  by_cases hkey : key ∈ COMPOSE_SAFE_KEYS
  · have hnot : ¬ NETWORKS_BLOCK <:+: value.toList := by
      obtain ⟨rest, hrest⟩ := networksBlock_eq_cons
      rw [hrest]
      exact fun hpart => hsafe hkey (hpart.mem List.mem_cons_self)
    rw [if_pos hkey, hone hnot, redactComposeLine_entry h, if_pos (Or.inr hkey)]
    exact iff_of_true rfl fun hnsafe => absurd hkey hnsafe
  · rw [if_neg hkey, markerLine_eq]
    simp only [hkey, not_false_eq_true, forall_true_left]
    by_cases hpart : NETWORKS_BLOCK <:+: value.toList
    · refine iff_of_false (fun heq => ?_) fun hand => hand.1 hpart
      rw [List.map_eq_singleton_iff] at heq
      obtain ⟨line, hline, -⟩ := heq
      exact not_singleton_placed m (hplaceholder.mpr hpart) line hline
    · rw [hone hpart, redactComposeLine_entry h, List.singleton_inj]
      simp only [hpart, hkey, or_false, not_false_eq_true, true_and]
      cases key.toList.all (· == '_')
      · simp
      · rw [if_pos rfl, entry_text_inj]
        simp

/-! ### The whole file -/

theorem redactComposeLine_of_not_prefix {line : List Char} (h : ¬ "      ".toList <+: line) :
    redactComposeLine line = line := by
  rw [redactComposeLine, if_neg fun hand => h hand.2.2.2.2]

theorem map_orBlank (ls : List (List Char)) :
    (orBlank ls).map redactComposeLine = orBlank (ls.map redactComposeLine) := by
  have hblank : redactComposeLine [] = [] := redactComposeLine_of_not_prefix (by decide)
  by_cases h : ls = []
  · rw [h, orBlank, if_pos rfl, List.map_singleton, hblank]
    rfl
  · rw [orBlank, if_neg h, orBlank, if_neg (by simpa using h)]

theorem length_maskedLine_le (m : ComposeManifest) (line : ComposeLine) :
    (maskedLine m line).length ≤ (((placed m line.text).splitOn '\n').map redactComposeLine).length := by
  cases line with
  | plain text => exact Nat.le_refl _
  | entry key value =>
      have hne : (placed m (ComposeLine.entry key value).text).splitOn '\n' ≠ [] :=
        List.splitOn_ne_nil _ _
      have hpos := List.length_pos_iff.mpr hne
      rw [maskedLine, List.length_map]
      split
      · exact hpos
      · exact hpos

theorem maskedLine_ne_nil (m : ComposeManifest) (line : ComposeLine) : maskedLine m line ≠ [] := by
  cases line with
  | plain text =>
      rw [maskedLine, ne_eq, List.map_eq_nil_iff]
      exact List.splitOn_ne_nil _ _
  | entry key value =>
      rw [maskedLine]
      split
      · exact List.cons_ne_nil _ _
      · exact List.cons_ne_nil _ _

/-- The lines of the redacted text are the masked ones exactly when this is so line by line. -/
theorem map_composeLines_iff (m : ComposeManifest) (release_metadata : Option Json) :
    (composeLines m release_metadata).map redactComposeLine = maskedLines m release_metadata ↔
      ∀ line ∈ servicesLines m release_metadata,
        ((placed m line.text).splitOn '\n').map redactComposeLine = maskedLine m line := by
  have hhead : redactComposeLine "services:".toList = "services:".toList :=
    redactComposeLine_of_not_prefix (by decide)
  have hmap : (composeLines m release_metadata).map redactComposeLine =
      "services:".toList :: orBlank ((servicesLines m release_metadata).flatMap fun line =>
        ((placed m line.text).splitOn '\n').map redactComposeLine) ++
        (linesAfter m).map redactComposeLine := by
    rw [composeLines, List.map_append, List.map_cons, hhead, map_orBlank, List.map_flatMap]
  rw [hmap, maskedLines, List.append_cancel_right_eq, List.cons_inj_right]
  constructor
  · intro h line hline
    have hne (f : ComposeLine → List (List Char)) (hf : ∀ line, f line ≠ []) :
        (servicesLines m release_metadata).flatMap f ≠ [] := fun hnil =>
      hf line (List.flatMap_eq_nil_iff.mp hnil line hline)
    rw [orBlank, if_neg (hne _ fun line => by simp), orBlank,
      if_neg (hne _ (maskedLine_ne_nil m))] at h
    exact eq_of_flatMap_eq (fun line _ => length_maskedLine_le m line) h line hline
  · intro h
    rw [List.flatMap_congr h]

/-- The redacted text, line by line. -/
theorem redactedComposeText_eq {m : ComposeManifest} {release_metadata : Option Json}
    {text : List Char} (h : renderCompose m release_metadata = some text) :
    redactedComposeText text = joinLines ((composeLines m release_metadata).map redactComposeLine) := by
  have hlines := splitlines_renderCompose h (isLine_composeLines m release_metadata)
  rw [redactedComposeText, hlines, joined_append]
  rw [composeLines]
  exact List.cons_ne_nil _ _

omit [PyStrings] in
theorem not_brace_of_plainName {value : String} (h : PlainName value) : '{' ∉ value.toList := by
  intro hc
  rcases h.chars '{' hc with hlower | heq
  · exact absurd hlower (by decide)
  · exact absurd heq (by decide)

/-- The structural entries hold no placeholder. -/
theorem structural_entry {m : ComposeManifest} {service : ServiceConfig}
    {release_metadata : Option Json} {p : String × String}
    (h : p ∈ serviceEntries m service release_metadata) (hsafe : p.1 ∈ COMPOSE_SAFE_KEYS) :
    '{' ∉ p.2.toList := by
  have hinjected : ∀ key ∈ COMPOSE_SAFE_KEYS, key ∈ RUNTIME_INJECTED_ENV_KEYS :=
    List.forall_iff_forall_mem.mp (by decide)
  rcases List.mem_append.mp h with h | h
  · rw [runtimeEnvValues] at h
    simp only [List.mem_cons, List.not_mem_nil, or_false] at h
    have hother (key : String) (hkey : p.1 = key) (hnot : key ∉ COMPOSE_SAFE_KEYS) :
        '{' ∉ p.2.toList := absurd (hkey ▸ hsafe) hnot
    rcases h with h | h | h | h | h | h | h | h | h
    · exact hother "OPHELIA_ENVIRONMENT" (congrArg Prod.fst h) (by decide)
    · rw [congrArg Prod.snd h]
      exact not_brace_of_plainName (.of_slug m.base.app)
    · rw [congrArg Prod.snd h]
      exact not_brace_of_plainName (.of_slug service.name)
    · exact hother "OPHELIA_RELEASE_ID" (congrArg Prod.fst h) (by decide)
    · exact hother "OPHELIA_IMAGE_REF" (congrArg Prod.fst h) (by decide)
    · exact hother "OPHELIA_IMAGE_DIGEST" (congrArg Prod.fst h) (by decide)
    · exact hother "OPHELIA_COMMIT_SHA" (congrArg Prod.fst h) (by decide)
    · exact hother "OPHELIA_BUILD_TIME" (congrArg Prod.fst h) (by decide)
    · rw [congrArg Prod.snd h]
      intro hc
      rw [Nat.toString_eq_repr, Nat.toList_repr] at hc
      exact absurd (Json.isDigit_toDigits hc) (by decide)
  · simpa [hinjected _ hsafe] using (List.mem_filter.mp h).2

/-- No entry that is not structural holds the second placeholder of the template, and none is
named by underscores alone, unless its value is the marker. -/
def Clean (m : ComposeManifest) (release_metadata : Option Json) : Prop :=
  m.base.kind.rendersCompose = true → ∀ service ∈ m.base.services.rows,
    ∀ p ∈ serviceEntries m service release_metadata, p.1 ∉ COMPOSE_SAFE_KEYS →
      ¬ NETWORKS_BLOCK <:+: p.2.toList ∧ (p.1.toList.all (· == '_') = true → p.2 = REDACTED)

theorem masked_iff (m : ComposeManifest) (release_metadata : Option Json) :
    Masked m release_metadata ↔ Clean m release_metadata := by
  have hlines : (∀ line ∈ servicesLines m release_metadata,
      ((placed m line.text).splitOn '\n').map redactComposeLine = maskedLine m line) ↔
      ∀ service ∈ m.base.services.rows, ∀ p ∈ serviceEntries m service release_metadata,
        p.1 ∉ COMPOSE_SAFE_KEYS →
          ¬ NETWORKS_BLOCK <:+: p.2.toList ∧ (p.1.toList.all (· == '_') = true → p.2 = REDACTED) := by
    constructor
    · intro h service hservice p hp
      exact (maskedLine_entry_iff m (isEnvKey_of_mem hp) (structural_entry hp)).mp
        (h (.entry p.1 p.2) (mem_servicesLines_entry.mpr ⟨service, hservice, hp⟩))
    · intro h line hline
      cases line with
      | plain text => rfl
      | entry key value =>
          obtain ⟨service, hservice, hp⟩ := mem_servicesLines_entry.mp hline
          exact (maskedLine_entry_iff m (isEnvKey_of_mem hp) (structural_entry hp)).mpr
            (h service hservice (key, value) hp)
  rw [Masked, Clean, ← hlines, ← map_composeLines_iff]
  have hredacted : ∀ l ∈ (composeLines m release_metadata).map redactComposeLine, IsLine l := by
    intro l hl
    obtain ⟨line, hline, rfl⟩ := List.mem_map.mp hl
    exact isLine_redactComposeLine (isLine_composeLines m release_metadata line hline)
  constructor
  · intro h hkind
    obtain ⟨text, htext⟩ : ∃ text, renderCompose m release_metadata = some text :=
      ⟨_, by rw [renderCompose, if_pos hkind]⟩
    have hjoin := h text htext
    rw [redactedComposeText_eq htext] at hjoin
    exact joinLines_injective hredacted (isLine_maskedLines m release_metadata) hjoin
  · intro h text htext
    have hkind : m.base.kind.rendersCompose = true := by
      rw [renderCompose] at htext
      split_ifs at htext with hkind
      exact hkind
    rw [redactedComposeText_eq htext, h hkind]

/-! ### Two manifests -/

/-- The names of an environment. -/
def EnvMap.names (env : EnvMap) : List String :=
  env.table.rows.map Prod.fst

/-- The manifest with other environments. -/
def ComposeManifest.withEnv (m : ComposeManifest) (env : EnvMap) (envs : Slug → EnvMap) :
    ComposeManifest :=
  { m with env := env, settings := fun name => { m.settings name with env := envs name } }

/-- Two manifests that differ at most in the values of their environments. -/
def SameButEnvValues (m m' : ComposeManifest) : Prop :=
  ∃ env envs, env.names = m.env.names ∧ (∀ name, (envs name).names = (m.settings name).env.names) ∧
    m' = m.withEnv env envs

theorem names_sorted (env : EnvMap) : env.sorted.map Prod.fst = env.names.insertionSort (· ≤ ·) :=
  List.map_insertionSort _ _ Prod.fst _ fun _ _ _ _ => Iff.rfl

theorem isNone_get? {env : EnvMap} {key : String} :
    (env.table.get? key).isNone = decide (key ∉ env.names) := by
  rw [Bool.eq_iff_iff, Option.isNone_iff_eq_none, Table.get?_eq_none, decide_eq_true_eq]
  constructor
  · intro h hmem
    obtain ⟨p, hp, hkey⟩ := List.mem_map.mp hmem
    exact h p hp hkey
  · intro h p hp hkey
    exact h (List.mem_map.mpr ⟨p, hp, hkey⟩)

/-- The names of the entries of a service are those of the two environments. -/
theorem names_envMap (m : ComposeManifest) (service : ServiceConfig) :
    (envMap m service).map Prod.fst = m.env.names.insertionSort (· ≤ ·) ++
      ((m.settings service.name).env.names.insertionSort (· ≤ ·)).filter
        fun key => decide (key ∉ m.env.names) := by
  rw [envMap, List.map_append, List.map_map, ← names_sorted, ← names_sorted, List.filter_map]
  simp only [isNone_get?]
  rfl

/-- The masked entries of an environment show its names. -/
theorem flatMap_maskedLine_entries (m : ComposeManifest) {entries : List (String × String)}
    (h : ∀ p ∈ entries, p.1 ∉ COMPOSE_SAFE_KEYS) :
    (entries.map fun p => ComposeLine.entry p.1 p.2).flatMap (maskedLine m) =
      (entries.map Prod.fst).map fun key => (ComposeLine.entry key REDACTED).text := by
  induction entries with
  | nil => rfl
  | cons p entries ih =>
      rw [List.map_cons, List.flatMap_cons, ih fun q hq => h q (List.mem_cons_of_mem p hq), maskedLine,
        if_neg (h p List.mem_cons_self), markerLine_eq]
      rfl

section WithEnv

variable {m : ComposeManifest} {env : EnvMap} {envs : Slug → EnvMap}

theorem maskedLine_withEnv : maskedLine (m.withEnv env envs) = maskedLine m := by
  funext line
  cases line <;> rfl

/-- The entries of a service, masked: the injected ones, and the names of the rest. -/
theorem flatMap_maskedLine_serviceEntries (m : ComposeManifest) (service : ServiceConfig)
    (release_metadata : Option Json) :
    ((serviceEntries m service release_metadata).map fun p => ComposeLine.entry p.1 p.2).flatMap
        (maskedLine m) =
      ((runtimeEnvValues m service release_metadata).map fun p =>
        ComposeLine.entry p.1 p.2).flatMap (maskedLine m) ++
      (((envMap m service).map Prod.fst).filter (· ∉ RUNTIME_INJECTED_ENV_KEYS)).map fun key =>
        (ComposeLine.entry key REDACTED).text := by
  have hinjected : ∀ key ∈ COMPOSE_SAFE_KEYS, key ∈ RUNTIME_INJECTED_ENV_KEYS :=
    List.forall_iff_forall_mem.mp (by decide)
  have hother : ∀ p ∈ (envMap m service).filter fun p => p.1 ∉ RUNTIME_INJECTED_ENV_KEYS,
      p.1 ∉ COMPOSE_SAFE_KEYS := by
    intro p hp hsafe
    simpa [hinjected _ hsafe] using (List.mem_filter.mp hp).2
  rw [serviceEntries, List.map_append, List.flatMap_append, flatMap_maskedLine_entries m hother,
    List.filter_map]
  rfl

/-- The masked block of a service does not show the values of the environments. -/
theorem flatMap_maskedLine_serviceBlock (henv : env.names = m.env.names)
    (henvs : ∀ name, (envs name).names = (m.settings name).env.names)
    (release_metadata : Option Json) (service : ServiceConfig) :
    (serviceBlock (m.withEnv env envs) release_metadata service).flatMap (maskedLine m) =
      (serviceBlock m release_metadata service).flatMap (maskedLine m) := by
  have hnames : (envMap (m.withEnv env envs) service).map Prod.fst =
      (envMap m service).map Prod.fst := by
    rw [names_envMap, names_envMap]
    simp only [ComposeManifest.withEnv, henv, henvs]
  have hentries :
      ((serviceEntries (m.withEnv env envs) service release_metadata).map fun p =>
        ComposeLine.entry p.1 p.2).flatMap (maskedLine m) =
      ((serviceEntries m service release_metadata).map fun p =>
        ComposeLine.entry p.1 p.2).flatMap (maskedLine m) := by
    have hleft := flatMap_maskedLine_serviceEntries (m.withEnv env envs) service release_metadata
    rw [maskedLine_withEnv, hnames] at hleft
    rw [hleft, flatMap_maskedLine_serviceEntries]
    rfl
  rw [serviceBlock, serviceBlock]
  simp only [List.flatMap_append, hentries]
  rfl

/-- The masked lines do not show the values of the environments. -/
theorem maskedLines_withEnv (henv : env.names = m.env.names)
    (henvs : ∀ name, (envs name).names = (m.settings name).env.names)
    (release_metadata : Option Json) :
    maskedLines (m.withEnv env envs) release_metadata = maskedLines m release_metadata := by
  have hservices : (servicesLines (m.withEnv env envs) release_metadata).flatMap (maskedLine m) =
      (servicesLines m release_metadata).flatMap (maskedLine m) := by
    rw [servicesLines, servicesLines, List.flatMap_assoc, List.flatMap_assoc]
    exact List.flatMap_congr fun service _ =>
      flatMap_maskedLine_serviceBlock henv henvs release_metadata service
  rw [maskedLines, maskedLines, maskedLine_withEnv, hservices]
  rfl

end WithEnv

/-- The redacted text of a compose file keeps no value of an environment: every entry has the
marker, and manifests that differ in such values have one redacted text. -/
def RedactsEnvironment (m : ComposeManifest) (release_metadata : Option Json) : Prop :=
  Masked m release_metadata ∧
    ∀ m', SameButEnvValues m m' → Clean m' release_metadata →
      (renderCompose m' release_metadata).map redactedComposeText =
        (renderCompose m release_metadata).map redactedComposeText

/-- A compose file is redacted exactly when no entry holds the second placeholder of the template
and none is named by underscores alone. -/
theorem redactsEnvironment_iff (m : ComposeManifest) (release_metadata : Option Json) :
    RedactsEnvironment m release_metadata ↔ Clean m release_metadata := by
  constructor
  · exact fun h => (masked_iff m release_metadata).mp h.1
  · intro h
    have hmasked := (masked_iff m release_metadata).mpr h
    refine ⟨hmasked, ?_⟩
    rintro m' ⟨env, envs, henv, henvs, rfl⟩ hclean
    have hmasked' := (masked_iff _ release_metadata).mpr hclean
    cases htext : renderCompose m release_metadata with
    | none =>
        rw [renderCompose] at htext ⊢
        split_ifs at htext with hkind
        rw [if_neg (by exact hkind)]
    | some text =>
        obtain ⟨text', htext'⟩ : ∃ text', renderCompose (m.withEnv env envs) release_metadata =
            some text' := by
          rw [renderCompose] at htext ⊢
          split_ifs at htext with hkind
          exact ⟨_, if_pos hkind⟩
        rw [htext', Option.map_some, Option.map_some, hmasked text htext, hmasked' text' htext',
          maskedLines_withEnv henv henvs]

end Ophelia.V1

namespace Ophelia.Reference

open V1

/-- The tables of Unicode, on ASCII. -/
@[reducible] def asciiStrings : PyStrings where
  isalpha := Char.isAlpha
  isalnum := Char.isAlphanum
  str _ := ""
  isalnum_ascii _ _ := rfl
  isSpace_of_isalnum c h := by
    have hletters : 'A'.val.toNat = 65 ∧ 'Z'.val.toNat = 90 ∧ 'a'.val.toNat = 97 ∧
        'z'.val.toNat = 122 ∧ '0'.val.toNat = 48 ∧ '9'.val.toNat = 57 := by decide
    simp only [Char.isAlphanum, Char.isAlpha, Char.isUpper, Char.isLower, Char.isDigit, Bool.or_eq_true,
      Bool.and_eq_true, decide_eq_true_eq, ge_iff_le, UInt32.le_iff_toNat_le] at h
    simp only [PyText.isSpace, Char.toNat, Bool.or_eq_false_iff, Bool.and_eq_false_iff,
      decide_eq_false_iff_not, beq_eq_false_iff_ne]
    omega

attribute [local instance] asciiStrings

def noEnv : EnvMap where
  table := Table.empty
  named _ h := absurd h List.not_mem_nil

/-- An application with `_: hunter2` in its environment. -/
def underscoreApp : ComposeManifest where
  base := {
    app := ⟨"shop", Eq.refl true⟩
    kind := .service
    image := some ⟨"registry.example/web:1", Eq.refl true⟩
    services := Table.empty.put { name := webService, port := ⟨8080, Nat.succ_pos (nat_lit 8079)⟩ }
    routes := [{ domain := ⟨"shop.example.com", Eq.refl true⟩, service := some webService }] }
  settings _ := { command := [], env := noEnv, healthcheck := {} }
  env := {
    table := Table.empty.put ("_", "hunter2")
    named := List.forall_iff_forall_mem.mp (by decide) }
  postgres := false
  redis := false
  memory := "512m"
  perApp := true

theorem not_redactsEnvironment :
    ¬ ∀ (m : ComposeManifest) (release_metadata : Option Json), m.base.Accepted →
      RedactsEnvironment m release_metadata := by
  intro h
  have hmasked := (h underscoreApp none rfl).1
  have hentry : ("_", "hunter2") ∈
      serviceEntries underscoreApp { name := webService, port := ⟨8080, by decide⟩ } none :=
    List.mem_append_right _ (by decide)
  have hvalue := ((masked_iff underscoreApp none).mp hmasked rfl _ (List.mem_singleton_self _) _ hentry
    (by decide)).2 (by decide)
  exact absurd hvalue (by decide)

end Ophelia.Reference
