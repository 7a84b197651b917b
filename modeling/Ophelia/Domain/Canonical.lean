import Ophelia.Domain.Reencoding

/-!
# Ophelia.Domain.Canonical

Reading a canonical text and encoding it again. `canonical_json` redacts from the inside
out, so a scalar is redacted once for every mapping around it. On values without a fragile
word all these passes together are the single walk `onePass`: the rule of the key right above
a scalar, and the mask on top of it when a key further out is sensitive. This walk is
idempotent, its results stay fixed when their keys are sorted, and so the text that the
journal stores is the text it computes when it checks the row.
-/

namespace Ophelia

open PyText

open Json (isScalar)

/-! ### The secret-safe walk -/

/-- `_secret_safe` below a given key: redact, then put the digests back. -/
def safeWalk (keyIsSensitive : Bool) (keyName : Option String) (j : Json) : Json :=
  restoreDigestMetadata j (redactWalk REDACTED keyIsSensitive keyName j)

theorem secretSafe_eq (j : Json) : secretSafe j = safeWalk false none j := rfl

theorem safeWalk_of_isScalar (b : Bool) (k : Option String) {value : Json}
    (hscalar : isScalar value = true) : safeWalk b k value = redactScalar REDACTED b k value := by
  cases value with
  | arr xs => exact absurd hscalar (by simp [isScalar])
  | obj ms => exact absurd hscalar (by simp [isScalar])
  | _ => rfl

theorem safeWalk_arr (b : Bool) (k : Option String) (xs : List Json) :
    safeWalk b k (.arr xs) = .arr (xs.map (safeWalk b k)) := by
  simp only [safeWalk, redactWalk, restoreDigestMetadata, Json.arr.injEq]
  induction xs with
  | nil => rfl
  | cons x xs ih => simp only [redactItems, restoreItems, List.map_cons, ih, safeWalk]

/-- A member of a secret-safe mapping. -/
def safeMember (keyIsSensitive : Bool) (m : String × Json) : String × Json :=
  (m.1, if isSafeDigestMetadata m.1 m.2 then m.2
    else safeWalk (isSensitiveKey m.1.toList || keyIsSensitive) (some m.1) m.2)

theorem safeWalk_obj (b : Bool) (k : Option String) (ms : List (String × Json)) :
    safeWalk b k (.obj ms) = .obj (ms.map (safeMember b)) := by
  simp only [safeWalk, redactWalk, restoreDigestMetadata, Json.obj.injEq]
  induction ms with
  | nil => rfl
  | cons m ms ih =>
      simp only [redactMembers, restoreMembers, List.map_cons, ih, safeMember, safeWalk]

theorem serializeMembers_eq (ms : List (String × Json)) :
    serializeMembers ms =
      (ms.filter fun m => !isForbiddenKey m.1).map fun m => (m.1, serialize m.2) := by
  induction ms with
  | nil => rfl
  | cons m ms ih =>
      obtain ⟨key, v⟩ := m
      by_cases hkey : isForbiddenKey key = true
      · simp [serializeMembers, hkey, ih]
      · simp [serializeMembers, hkey, ih]

/-! ### One pass -/

/-- What the key right above a scalar makes of it. -/
def ownScalar : Option String → Json → Json
  | none, value => value
  | some key, value => redactScalar REDACTED (isSensitiveKey key.toList) (some key) value

mutual

/-- The walk that all the passes of `_serialize` amount to. `keyIsSensitive` is set below a
sensitive key. -/
def onePass (keyIsSensitive : Bool) (keyName : Option String) : Json → Json
  | .arr xs => .arr (onePassItems keyIsSensitive keyName xs)
  | .obj ms => .obj (onePassMembers keyIsSensitive ms)
  | value =>
      if keyIsSensitive then redactValue REDACTED (ownScalar keyName value)
      else ownScalar keyName value

def onePassItems (keyIsSensitive : Bool) (keyName : Option String) : List Json → List Json
  | [] => []
  | x :: xs => onePass keyIsSensitive keyName x :: onePassItems keyIsSensitive keyName xs

def onePassMembers (keyIsSensitive : Bool) : List (String × Json) → List (String × Json)
  | [] => []
  | (k, v) :: ms =>
      if isForbiddenKey k then onePassMembers keyIsSensitive ms
      else
        (k, if isSafeDigestMetadata k v then v
          else onePass (isSensitiveKey k.toList || keyIsSensitive) (some k) v) ::
          onePassMembers keyIsSensitive ms

end

/-- A member after one pass. -/
def onePassMember (keyIsSensitive : Bool) (m : String × Json) : String × Json :=
  (m.1, if isSafeDigestMetadata m.1 m.2 then m.2
    else onePass (isSensitiveKey m.1.toList || keyIsSensitive) (some m.1) m.2)

theorem onePass_arr (b : Bool) (k : Option String) (xs : List Json) :
    onePass b k (.arr xs) = .arr (xs.map (onePass b k)) := by
  simp only [onePass, Json.arr.injEq]
  induction xs with
  | nil => rfl
  | cons x xs ih => simp only [onePassItems, List.map_cons, ih]

theorem onePass_obj (b : Bool) (k : Option String) (ms : List (String × Json)) :
    onePass b k (.obj ms) =
      .obj ((ms.filter fun m => !isForbiddenKey m.1).map (onePassMember b)) := by
  simp only [onePass, Json.obj.injEq]
  induction ms with
  | nil => rfl
  | cons m ms ih =>
      obtain ⟨key, v⟩ := m
      by_cases hkey : isForbiddenKey key = true
      · simp [onePassMembers, hkey, ih]
      · simp [onePassMembers, hkey, ih, onePassMember]

section Member

variable (b : Bool) {key : String} {v : Json}

theorem safeMember_of_digest (h : isSafeDigestMetadata key v = true) :
    safeMember b (key, v) = (key, v) := by
  simp only [safeMember, h, if_true]

theorem safeMember_of_other (h : ¬ isSafeDigestMetadata key v = true) :
    safeMember b (key, v) = (key, safeWalk (isSensitiveKey key.toList || b) (some key) v) := by
  simp only [safeMember, if_neg h]

theorem onePassMember_of_digest (h : isSafeDigestMetadata key v = true) :
    onePassMember b (key, v) = (key, v) := by
  simp only [onePassMember, h, if_true]

theorem onePassMember_of_other (h : ¬ isSafeDigestMetadata key v = true) :
    onePassMember b (key, v) = (key, onePass (isSensitiveKey key.toList || b) (some key) v) := by
  simp only [onePassMember, if_neg h]

end Member

theorem onePass_of_isScalar (b : Bool) (k : Option String) {value : Json}
    (hscalar : isScalar value = true) :
    onePass b k value =
      if b then redactValue REDACTED (ownScalar k value) else ownScalar k value := by
  cases value with
  | arr xs => exact absurd hscalar (by simp [isScalar])
  | obj ms => exact absurd hscalar (by simp [isScalar])
  | _ => rfl

theorem isScalar_ownScalar (k : Option String) {value : Json} (hscalar : isScalar value = true) :
    isScalar (ownScalar k value) = true := by
  cases k with
  | none => exact hscalar
  | some key => exact isScalar_redactScalar _ _ hscalar

theorem isScalar_onePass (b : Bool) (k : Option String) (value : Json) :
    isScalar (onePass b k value) = isScalar value := by
  by_cases hscalar : isScalar value = true
  · rw [onePass_of_isScalar b k hscalar, hscalar]
    cases b with
    | true => exact isScalar_redactValue _
    | false => exact isScalar_ownScalar k hscalar
  · cases value with
    | arr xs => rfl
    | obj ms => rfl
    | _ => exact absurd rfl hscalar

/-! ### Digests -/

/-- A key of digests is no command. -/
theorem not_command_of_digests {key : String}
    (h : endsWith "_digest".toList (lower key.toList) = true ∨
      endsWith "_digests".toList (lower key.toList) = true) :
    looksLikeCommandKey key = false := by
  have hsuffixes : ∀ pat : List Char, pat <:+ lower key.toList → pat.length = 8 ∨ pat.length = 9 →
      ("_digest".toList <:+ pat ∨ "_digests".toList <:+ pat) := by
    intro pat hpat hlength
    simp only [endsWith, List.isSuffixOf_iff_suffix] at h
    rcases h with h | h
    · refine .inl (List.suffix_of_suffix_length_le h hpat ?_)
      rcases hlength with hlength | hlength <;> rw [hlength] <;> decide
    · refine .inr (List.suffix_of_suffix_length_le h hpat ?_)
      rcases hlength with hlength | hlength <;> rw [hlength] <;> decide
  simp only [looksLikeCommandKey, Bool.or_eq_false_iff]
  refine ⟨⟨?_, ?_⟩, ?_⟩
  · rw [List.any_eq_false]
    intro name hname heq
    rw [beq_iff_eq] at heq
    rw [← heq] at h
    simp only [COMMAND_STRING_KEYS, List.mem_cons, List.not_mem_nil, or_false] at hname
    revert h
    rcases hname with rfl | rfl | rfl | rfl <;> decide
  · rw [← Bool.not_eq_true]
    intro hcommand
    have := hsuffixes _ (List.isSuffixOf_iff_suffix.mp hcommand) (by decide)
    revert this
    decide
  · rw [← Bool.not_eq_true]
    intro hcommand
    have := hsuffixes _ (List.isSuffixOf_iff_suffix.mp hcommand) (by decide)
    revert this
    decide

/-- The string a digest came from was a digest, unless it was a command. -/
theorem isDigestValue_onePass {b : Bool} {k : Option String} {v : Json}
    (hkey : k.any looksLikeCommandKey = false) (h : isDigestValue (onePass b k v) = true) :
    isDigestValue v = true := by
  have hscalar : isScalar v = true := by
    rw [← isScalar_onePass b k v]
    cases hv : onePass b k v with
    | str s => rfl
    | _ => simp [hv, isDigestValue] at h
  have hmasked : ∀ w, isDigestValue (redactValue REDACTED w) = false := by
    intro w
    cases w with
    | str s =>
        simp only [redactValue]
        split <;> decide
    | _ => rfl
  rw [onePass_of_isScalar b k hscalar] at h
  cases b with
  | true => exact absurd h (by rw [if_pos rfl, hmasked]; decide)
  | false =>
      rw [if_neg (by decide)] at h
      cases k with
      | none => exact h
      | some key =>
          simp only [ownScalar] at h
          cases hsensitive : isSensitiveKey key.toList with
          | true => exact absurd h (by simp [hsensitive, redactScalar, hmasked])
          | false =>
              rw [hsensitive] at h
              cases v with
              | str s =>
                  rw [redactScalar_false, if_neg (by simp [hkey])] at h
                  unfold maskText at h
                  split at h
                  · exact absurd h (by decide)
                  · exact h
              | arr xs => exact absurd hscalar (by simp [isScalar])
              | obj ms => exact absurd hscalar (by simp [isScalar])
              | _ => exact absurd h (by simp [redactScalar, isDigestValue])

/-- Digest metadata, by its key. -/
theorem isSafeDigestMetadata_iff {key : String} {v : Json} :
    isSafeDigestMetadata key v = true ↔
      (endsWith "_digest".toList (lower key.toList) = true ∧ isDigestValue v = true) ∨
      (endsWith "_digest".toList (lower key.toList) = false ∧
        endsWith "_digests".toList (lower key.toList) = true ∧
        ∃ xs, v = .arr xs ∧ ∀ x ∈ xs, isDigestValue x = true) := by
  simp only [isSafeDigestMetadata]
  generalize endsWith "_digest".toList (lower key.toList) = one
  generalize endsWith "_digests".toList (lower key.toList) = many
  cases one with
  | true => simp
  | false =>
      cases many with
      | true => cases v <;> simp
      | false => simp

/-- A value that is no digest metadata stays none. -/
theorem not_digest_onePass (b : Bool) {key : String} {k : Option String} {v : Json}
    (hk : k = none ∨ k = some key) (hsafe : ¬ isSafeDigestMetadata key v = true) :
    ¬ isSafeDigestMetadata key (onePass b k v) = true := by
  have hcommand : (endsWith "_digest".toList (lower key.toList) = true ∨
      endsWith "_digests".toList (lower key.toList) = true) →
      k.any looksLikeCommandKey = false := by
    intro hdigests
    rcases hk with rfl | rfl
    · rfl
    · exact not_command_of_digests hdigests
  refine fun h => hsafe ?_
  rw [isSafeDigestMetadata_iff] at h ⊢
  rcases h with ⟨hone, hv⟩ | ⟨hone, hmany, ys, hys, hdigests⟩
  · exact .inl ⟨hone, isDigestValue_onePass (hcommand (.inl hone)) hv⟩
  · have hscalar := isScalar_onePass b k v
    refine .inr ⟨hone, hmany, ?_⟩
    cases v with
    | arr xs =>
        rw [onePass_arr, Json.arr.injEq] at hys
        refine ⟨xs, rfl, fun x hx => ?_⟩
        exact isDigestValue_onePass (hcommand (.inr hmany))
          (hdigests _ (hys ▸ List.mem_map_of_mem hx))
    | obj ms => simp [onePass] at hys
    | _ => simp [hys, isScalar] at hscalar

/-- Digest metadata is left alone while its key is not looked at. -/
theorem onePass_of_isDigestValue {v : Json} (h : isDigestValue v = true) :
    onePass false none v = v := by
  cases v with
  | str s => rfl
  | _ => simp [isDigestValue] at h

theorem onePass_of_isSafeDigestMetadata {key : String} {v : Json}
    (h : isSafeDigestMetadata key v = true) : onePass false none v = v := by
  rcases isSafeDigestMetadata_iff.mp h with ⟨-, hv⟩ | ⟨-, -, xs, rfl, hxs⟩
  · exact onePass_of_isDigestValue hv
  · rw [onePass_arr, Json.arr.injEq]
    exact (List.map_congr_left fun x hx => onePass_of_isDigestValue (hxs x hx)).trans
      (List.map_id' xs)

/-! ### The passes are one -/

/-- What the key of a scalar does to it is done once. -/
theorem redactScalar_onePass {c : Bool} {key : String} {value : Json}
    (hscalar : isScalar value = true)
    (hsteady : steady (isSensitiveKey key.toList) (some key) value = true)
    (hc : isSensitiveKey key.toList = true → c = true) (b : Bool) :
    redactScalar REDACTED (c || b) (some key) (onePass c (some key) value) =
      onePass (c || b) (some key) value := by
  rw [onePass_of_isScalar _ _ hscalar, onePass_of_isScalar _ _ hscalar]
  cases c with
  | true => exact redactValue_twice _
  | false =>
      have hkey : isSensitiveKey key.toList = false := by
        rw [← Bool.not_eq_true]
        intro h
        exact absurd (hc h) (by decide)
      cases b with
      | true => rfl
      | false =>
          rw [steady_of_isScalar _ _ hscalar, hkey] at hsteady
          simp only [ownScalar, hkey]
          exact (redactScalar_twice false (some key) hscalar).mpr hsteady

/-- The members of a mapping, when the walk below each of them is known. -/
theorem safeWalk_onePass_obj {c b : Bool} {ms : List (String × Json)}
    (h : ∀ m ∈ ms, safeWalk (isSensitiveKey m.1.toList || c || b) (some m.1)
        (onePass (isSensitiveKey m.1.toList || c) (some m.1) m.2) =
      onePass (isSensitiveKey m.1.toList || c || b) (some m.1) m.2) (k k' k'' : Option String) :
    safeWalk (c || b) k (onePass c k' (.obj ms)) = onePass (c || b) k'' (.obj ms) := by
  rw [onePass_obj, safeWalk_obj, onePass_obj, List.map_map, Json.obj.injEq]
  refine List.map_congr_left fun m hm => ?_
  have hwalk := h m (List.mem_of_mem_filter hm)
  obtain ⟨key, v⟩ := m
  rw [Function.comp]
  by_cases hsafe : isSafeDigestMetadata key v = true
  · rw [onePassMember_of_digest c hsafe, safeMember_of_digest _ hsafe,
      onePassMember_of_digest _ hsafe]
  · have hstill := not_digest_onePass (isSensitiveKey key.toList || c) (.inr rfl) hsafe
    rw [onePassMember_of_other c hsafe, safeMember_of_other _ hstill,
      onePassMember_of_other _ hsafe, ← Bool.or_assoc, hwalk]

/-- **Redacting again, from further out.** The key of the value has been looked at, and `c`
says whether it or a key between is sensitive. -/
theorem safeWalk_onePass {c : Bool} {key : String} {j : Json}
    (hsteady : steady (isSensitiveKey key.toList) (some key) j = true)
    (hc : isSensitiveKey key.toList = true → c = true) (b : Bool) :
    safeWalk (c || b) (some key) (onePass c (some key) j) = onePass (c || b) (some key) j := by
  induction j using Json.scalarInduction generalizing c key with
  | scalar value hscalar =>
      rw [safeWalk_of_isScalar _ _ ((isScalar_onePass _ _ _).trans hscalar)]
      exact redactScalar_onePass hscalar hsteady hc b
  | arr xs ih =>
      rw [onePass_arr, safeWalk_arr, onePass_arr, List.map_map, Json.arr.injEq]
      rw [steady_arr] at hsteady
      exact List.map_congr_left fun x hx => ih x hx (hsteady x hx) hc
  | obj ms ih =>
      rw [steady_obj] at hsteady
      refine safeWalk_onePass_obj (fun m hm => ?_) _ _ _
      exact ih m hm (hsteady m hm) fun h => by rw [h, Bool.true_or]

/-- The first pass over a value that stands under a key. -/
theorem safeWalk_onePass_none {key : String} {j : Json}
    (hsteady : steady (isSensitiveKey key.toList) (some key) j = true) :
    safeWalk (isSensitiveKey key.toList) (some key) (onePass false none j) =
      onePass (isSensitiveKey key.toList) (some key) j := by
  induction j using Json.scalarInduction with
  | scalar value hscalar =>
      rw [onePass_of_isScalar _ _ hscalar, onePass_of_isScalar _ _ hscalar, if_neg (by decide),
        ownScalar, safeWalk_of_isScalar _ _ hscalar]
      cases hkey : isSensitiveKey key.toList with
      | true =>
          simp only [ownScalar, hkey, redactScalar, if_true]
          exact (redactValue_twice value).symm
      | false => simp [ownScalar, hkey]
  | arr xs ih =>
      rw [onePass_arr, safeWalk_arr, onePass_arr, List.map_map, Json.arr.injEq]
      rw [steady_arr] at hsteady
      exact List.map_congr_left fun x hx => ih x hx (hsteady x hx)
  | obj ms _ =>
      rw [steady_obj] at hsteady
      rw [← Bool.false_or (isSensitiveKey key.toList)]
      refine safeWalk_onePass_obj (fun m hm => ?_) _ _ _
      exact safeWalk_onePass (hsteady m hm) (fun h => by rw [h, Bool.true_or]) _

/-- **Serialization is one pass** on values without a fragile word. -/
theorem serialize_eq_onePass {k : Option String} {b : Bool} {j : Json}
    (hsteady : steady b k j = true) : serialize j = onePass false none j := by
  induction j using Json.induction generalizing k b with
  | arr xs ih =>
      rw [steady_arr] at hsteady
      rw [serialize, serializeItems_eq, onePass_arr, Json.arr.injEq]
      exact List.map_congr_left fun x hx => ih x hx (hsteady x hx)
  | obj ms ih =>
      rw [steady_obj] at hsteady
      rw [serialize, secretSafe_eq, safeWalk_obj, onePass_obj, serializeMembers_eq, List.map_map,
        Json.obj.injEq]
      refine List.map_congr_left fun m hm => ?_
      have hmem := List.mem_of_mem_filter hm
      obtain ⟨key, v⟩ := m
      rw [Function.comp, ih (key, v) hmem (hsteady (key, v) hmem)]
      by_cases hsafe : isSafeDigestMetadata key v = true
      · rw [onePass_of_isSafeDigestMetadata hsafe, safeMember_of_digest _ hsafe,
          onePassMember_of_digest _ hsafe]
      · have hstill := not_digest_onePass false (.inl rfl) hsafe
        rw [safeMember_of_other _ hstill, onePassMember_of_other _ hsafe, Bool.or_false,
          safeWalk_onePass_none (hsteady (key, v) hmem)]
  | _ => rfl

/-! ### One pass is enough -/

/-- What a masked scalar can be. -/
theorem steadyScalar_redactValue (b : Bool) (k : Option String) (value : Json) :
    steadyScalar b k (redactValue REDACTED value) = true := by
  have hempty : fragileCommand "" = false := by decide
  have hmarker : fragileCommand REDACTED = false := by decide
  rcases redactValue_cases value with h | h | h <;> rw [h] <;> simp [steadyScalar, hempty, hmarker]

/-- The rule of its key leaves a masked scalar masked. -/
theorem redactValue_ownScalar (k : Option String) (value : Json) :
    redactValue REDACTED (ownScalar k (redactValue REDACTED value)) =
      redactValue REDACTED value := by
  cases k with
  | none => exact redactValue_twice value
  | some key =>
      -- under a command key the marker is quoted, and masked again
      simp only [ownScalar, redactScalar, Option.any_some]
      by_cases hsensitive : isSensitiveKey key.toList = true
      · simp only [if_pos hsensitive, redactValue_twice]
      · by_cases hcommand : looksLikeCommandKey key = true
        · simp only [if_neg hsensitive, if_pos hcommand]
          rcases redactValue_cases value with h | h | h <;> rw [h] <;> decide
        · simp only [if_neg hsensitive, if_neg hcommand]
          rcases redactValue_cases value with h | h | h <;> rw [h] <;> decide

/-- The key a scalar stands under, as `steady` has it. -/
def ownKey : Option String → Bool
  | none => false
  | some key => isSensitiveKey key.toList

theorem ownScalar_ownScalar {k : Option String} {value : Json} (hscalar : isScalar value = true)
    (hsteady : steadyScalar (ownKey k) k value = true) :
    ownScalar k (ownScalar k value) = ownScalar k value := by
  cases k with
  | none => rfl
  | some key => exact (redactScalar_twice _ _ hscalar).mpr hsteady

theorem steadyScalar_ownScalar {k : Option String} {value : Json} (hscalar : isScalar value = true)
    (hsteady : steadyScalar (ownKey k) k value = true) :
    steadyScalar (ownKey k) k (ownScalar k value) = true := by
  cases k with
  | none => exact hsteady
  | some key =>
      have htwice := (redactScalar_twice _ _ hscalar).mpr hsteady
      refine (redactScalar_twice _ _ (isScalar_redactScalar _ _ hscalar)).mp ?_
      rw [ownKey] at htwice ⊢
      rw [htwice, htwice]

/-- One pass leaves no fragile word. -/
theorem steady_onePass (b : Bool) {k : Option String} {j : Json}
    (hsteady : steady (ownKey k) k j = true) : steady (ownKey k) k (onePass b k j) = true := by
  induction j using Json.scalarInduction generalizing b k with
  | scalar value hscalar =>
      rw [steady_of_isScalar _ _ hscalar] at hsteady
      rw [steady_of_isScalar _ _ ((isScalar_onePass _ _ _).trans hscalar),
        onePass_of_isScalar _ _ hscalar]
      cases b with
      | true => exact steadyScalar_redactValue _ _ _
      | false => exact steadyScalar_ownScalar hscalar hsteady
  | arr xs ih =>
      rw [steady_arr] at hsteady
      rw [onePass_arr, steady_arr]
      simp only [List.mem_map, forall_exists_index, and_imp, forall_apply_eq_imp_iff₂]
      exact fun x hx => ih x hx b (hsteady x hx)
  | obj ms ih =>
      rw [steady_obj] at hsteady
      rw [onePass_obj, steady_obj]
      simp only [List.mem_map, forall_exists_index, and_imp, forall_apply_eq_imp_iff₂]
      intro m hm
      have hmem := List.mem_of_mem_filter hm
      obtain ⟨key, v⟩ := m
      by_cases hsafe : isSafeDigestMetadata key v = true
      · rw [onePassMember_of_digest _ hsafe]
        exact hsteady (key, v) hmem
      · rw [onePassMember_of_other _ hsafe]
        have hvalue : steady (ownKey (some key)) (some key) v = true := hsteady (key, v) hmem
        have hagain := ih (key, v) hmem (isSensitiveKey key.toList || b) hvalue
        rw [ownKey] at hagain
        exact hagain

/-- A mapping that one pass leaves alone. -/
theorem onePass_obj_eq_self {b : Bool} {k : Option String} {ms : List (String × Json)} :
    onePass b k (.obj ms) = .obj ms ↔
      ∀ m ∈ ms, isForbiddenKey m.1 = false ∧ onePassMember b m = m := by
  rw [onePass_obj, Json.obj.injEq]
  constructor
  · intro h m hm
    have hlength : (ms.filter fun m => !isForbiddenKey m.1).length = ms.length := by
      rw [← List.length_map (f := onePassMember b), h]
    have hfilter := List.filter_eq_self.mp (List.filter_sublist.eq_of_length hlength)
    rw [List.filter_eq_self.mpr hfilter] at h
    have hkept := hfilter m hm
    refine ⟨by simpa using hkept, ?_⟩
    exact List.map_inj_left.mp (h.trans (List.map_id' ms).symm) m hm
  · intro h
    rw [List.filter_eq_self.mpr fun m hm => by simp [(h m hm).1]]
    exact (List.map_congr_left fun m hm => (h m hm).2).trans (List.map_id' ms)

/-- A member that one pass leaves alone. -/
theorem onePassMember_eq_self {b : Bool} {key : String} {v : Json} :
    onePassMember b (key, v) = (key, v) ↔
      isSafeDigestMetadata key v = true ∨
        onePass (isSensitiveKey key.toList || b) (some key) v = v := by
  by_cases hsafe : isSafeDigestMetadata key v = true
  · simp [onePassMember_of_digest b hsafe, hsafe]
  · simp [onePassMember_of_other b hsafe, hsafe]

/-- **One pass is enough.** -/
theorem onePass_onePass (b : Bool) {k : Option String} {j : Json}
    (hsteady : steady (ownKey k) k j = true) :
    onePass b k (onePass b k j) = onePass b k j := by
  induction j using Json.scalarInduction generalizing b k with
  | scalar value hscalar =>
      rw [steady_of_isScalar _ _ hscalar] at hsteady
      rw [onePass_of_isScalar _ _ ((isScalar_onePass _ _ _).trans hscalar),
        onePass_of_isScalar _ _ hscalar]
      cases b with
      | true => exact redactValue_ownScalar k _
      | false => exact ownScalar_ownScalar hscalar hsteady
  | arr xs ih =>
      rw [steady_arr] at hsteady
      rw [onePass_arr, onePass_arr, List.map_map, Json.arr.injEq]
      exact List.map_congr_left fun x hx => ih x hx b (hsteady x hx)
  | obj ms ih =>
      rw [steady_obj] at hsteady
      rw [onePass_obj b k ms, onePass_obj_eq_self]
      intro m' hm'
      obtain ⟨⟨key, v⟩, hm, rfl⟩ := List.mem_map.mp hm'
      obtain ⟨hmem, hkept⟩ := List.mem_filter.mp hm
      refine ⟨by simpa [onePassMember] using hkept, ?_⟩
      by_cases hsafe : isSafeDigestMetadata key v = true
      · rw [onePassMember_of_digest b hsafe, onePassMember_of_digest b hsafe]
      · rw [onePassMember_of_other b hsafe, onePassMember_eq_self]
        have hvalue : steady (ownKey (some key)) (some key) v = true := hsteady (key, v) hmem
        exact .inr (ih (key, v) hmem _ hvalue)

/-! ### Sorted keys -/

/-- The members of a mapping with sorted keys. -/
theorem mem_sortKeys {ms : List (String × Json)} {m' : String × Json} :
    m' ∈ Json.sortMembers (Json.sortKeysMembers ms) ↔
      ∃ m ∈ ms, (m.1, m.2.sortKeys) = m' := by
  rw [Json.sortMembers, (List.perm_insertionSort _ _).mem_iff, Json.sortKeysMembers_eq,
    List.mem_map]

/-- Sorting keys makes no fragile word. -/
theorem steady_sortKeys {b : Bool} {k : Option String} {j : Json} (h : steady b k j = true) :
    steady b k j.sortKeys = true := by
  induction j using Json.induction generalizing b k with
  | arr xs ih =>
      rw [steady_arr] at h
      rw [Json.sortKeys, Json.sortKeysItems_eq, steady_arr]
      simp only [List.mem_map, forall_exists_index, and_imp, forall_apply_eq_imp_iff₂]
      exact fun x hx => ih x hx (h x hx)
  | obj ms ih =>
      rw [steady_obj] at h
      rw [Json.sortKeys, steady_obj]
      intro m' hm'
      obtain ⟨m, hm, rfl⟩ := mem_sortKeys.mp hm'
      exact ih m hm (h m hm)
  | _ => exact h

theorem sortKeys_of_digest {key : String} {v : Json} (h : isSafeDigestMetadata key v = true) :
    v.sortKeys = v := by
  have hdigest : ∀ x, isDigestValue x = true → x.sortKeys = x := by
    intro x hx
    cases x with
    | str s => rfl
    | _ => simp [isDigestValue] at hx
  rcases isSafeDigestMetadata_iff.mp h with ⟨-, hv⟩ | ⟨-, -, xs, rfl, hxs⟩
  · exact hdigest v hv
  · rw [Json.sortKeys, Json.sortKeysItems_eq, Json.arr.injEq]
    exact (List.map_congr_left fun x hx => hdigest x (hxs x hx)).trans (List.map_id' xs)

/-- What one pass leaves alone, it leaves alone with its keys sorted. -/
theorem onePass_sortKeys {b : Bool} {k : Option String} {j : Json} (h : onePass b k j = j) :
    onePass b k j.sortKeys = j.sortKeys := by
  induction j using Json.induction generalizing b k with
  | arr xs ih =>
      rw [onePass_arr, Json.arr.injEq] at h
      rw [Json.sortKeys, Json.sortKeysItems_eq, onePass_arr, List.map_map, Json.arr.injEq]
      have hitems := List.map_inj_left.mp (h.trans (List.map_id' xs).symm)
      exact List.map_congr_left fun x hx => ih x hx (hitems x hx)
  | obj ms ih =>
      rw [onePass_obj_eq_self] at h
      rw [Json.sortKeys, onePass_obj_eq_self]
      intro m' hm'
      obtain ⟨⟨key, v⟩, hm, rfl⟩ := mem_sortKeys.mp hm'
      obtain ⟨hkept, hself⟩ := h _ hm
      refine ⟨hkept, ?_⟩
      rw [onePassMember_eq_self] at hself ⊢
      rcases hself with hsafe | hself
      · exact .inl (by rw [sortKeys_of_digest hsafe]; exact hsafe)
      · exact .inr (ih _ hm hself)
  | _ => exact h

/-- `_serialize` is idempotent on values without a fragile word, up to the order of keys. -/
theorem serialize_sortKeys_serialize {v : Json} (hsteady : steady false none v = true) :
    serialize (serialize v).sortKeys = (serialize v).sortKeys := by
  have hone := serialize_eq_onePass hsteady
  have hagain : steady false none (serialize v) = true := by
    rw [hone]
    exact steady_onePass (k := none) false hsteady
  rw [serialize_eq_onePass (steady_sortKeys hagain)]
  refine onePass_sortKeys ?_
  rw [hone]
  exact onePass_onePass (k := none) false hsteady

/-- The text that is stored is the text that the check computes from it. -/
theorem canonicalJson_loads {v : Json} (hsteady : steady false none v = true) :
    (Json.loads (canonicalJson v)).map canonicalJson = some (canonicalJson v) := by
  rw [canonicalJson, Json.loads_dumps, Option.map_some, canonicalJson,
    serialize_sortKeys_serialize hsteady]
  exact congrArg some (Json.dumps_eq_iff.mpr (Json.sortKeys_sortKeys _))

/-! ### Both forms of `deep_redact` -/

/-- Redacting the propagating way again. -/
theorem redactWalk_twice {b₀ b : Bool} {k : Option String} {j : Json}
    (hsteady : steady b₀ k j = true) (hb : b₀ = true → b = true) :
    redactWalk REDACTED b k (redactWalk REDACTED b k j) = redactWalk REDACTED b k j := by
  induction j using Json.scalarInduction generalizing b₀ b k with
  | scalar value hscalar =>
      rw [steady_of_isScalar _ _ hscalar] at hsteady
      rw [redactWalk_of_isScalar b k hscalar,
        redactWalk_of_isScalar b k (isScalar_redactScalar b k hscalar)]
      refine (redactScalar_twice b k hscalar).mpr ?_
      cases b with
      | true => cases value <;> rfl
      | false =>
          have hb₀ : b₀ = false := Bool.eq_false_iff.mpr fun h => absurd (hb h) (by decide)
          exact hb₀ ▸ hsteady
  | arr xs ih =>
      rw [steady_arr] at hsteady
      simp only [redactWalk, redactItems_eq, List.map_map, Json.arr.injEq]
      exact List.map_congr_left fun x hx => ih x hx (hsteady x hx) hb
  | obj ms ih =>
      rw [steady_obj] at hsteady
      simp only [redactWalk, redactMembers_eq, List.map_map, Json.obj.injEq]
      refine List.map_congr_left fun m hm => ?_
      simp only [Function.comp]
      rw [ih m hm (hsteady m hm) fun h => by rw [h, Bool.true_or]]

/-- **Encoding again.** Redaction and the canonical text are fixpoints of themselves exactly
on the values without a fragile word. -/
theorem reencoding_iff_steady (v : Json) :
    (deepRedactLocal (deepRedactLocal v) = deepRedactLocal v ∧
        deepRedact (deepRedact v) = deepRedact v ∧
        (Json.loads (canonicalJson v)).map canonicalJson = some (canonicalJson v)) ↔
      steady false none v = true := by
  constructor
  · intro h
    exact (localWalk_twice false none v).mp h.1
  · intro hsteady
    exact ⟨(localWalk_twice false none v).mpr hsteady, redactWalk_twice hsteady id,
      canonicalJson_loads hsteady⟩

/-- A word that is masked for its value and looks like a connection string all the same. -/
def fragileValue : Json :=
  .obj [("command", .str "postgres://x?y=http://u:p@h")]

theorem fragileValue_changes :
    deepRedactLocal (deepRedactLocal fragileValue) ≠ deepRedactLocal fragileValue ∧
      (Json.loads (canonicalJson fragileValue)).map canonicalJson ≠
        some (canonicalJson fragileValue) := by
  decide +kernel

end Ophelia
