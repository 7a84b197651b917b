import Ophelia.Domain.Canonical

/-!
# Ophelia.Domain.SecretSafety

What the secret-safe serialization leaves of a value: below a sensitive key only the marker,
what is empty and validated digests, and elsewhere no string with the shape of a credential.
-/

namespace Ophelia

open Json (isScalar)

/-! ### The scalars of a value -/

/-- A scalar of a value, with the keys above it from the outside in and the member that its own
key names. -/
inductive ScalarIn : Json → List String → Option (String × Json) → Json → Prop where
  | self {value : Json} (h : isScalar value = true) : ScalarIn value [] none value
  | item {xs : List Json} {x : Json} {keys : List String} {own : Option (String × Json)}
      {leaf : Json} (hmem : x ∈ xs) (h : ScalarIn x keys own leaf) :
      ScalarIn (.arr xs) keys own leaf
  | member {ms : List (String × Json)} {key : String} {value : Json} {keys : List String}
      {own : Option (String × Json)} {leaf : Json} (hmem : (key, value) ∈ ms)
      (h : ScalarIn value keys own leaf) :
      ScalarIn (.obj ms) (key :: keys) (some (own.getD (key, value))) leaf

/-- What may stand below a sensitive key: nothing, the marker, or a digest under a digest key. -/
inductive Masked (own : Option (String × Json)) : Json → Prop where
  | null : Masked own .null
  | empty : Masked own (.str "")
  | marker : Masked own (.str REDACTED)
  | digest {key : String} {value leaf : Json} (hown : own = some (key, value))
      (h : isSafeDigestMetadata key value = true) : Masked own leaf

variable {keys : List String} {own : Option (String × Json)} {leaf : Json}

theorem ScalarIn.of_isScalar {value : Json} (h : ScalarIn value keys own leaf)
    (hvalue : isScalar value = true) : keys = [] ∧ own = none ∧ leaf = value := by
  cases h with
  | self _ => exact ⟨rfl, rfl, rfl⟩
  | item _ _ => cases hvalue
  | member _ _ => cases hvalue

theorem ScalarIn.of_isDigestValue {value : Json} (h : ScalarIn value keys own leaf)
    (hvalue : isDigestValue value = true) :
    own = none ∧ ∃ s, leaf = .str s ∧ isSha256 s.toList = true := by
  cases value with
  | str s =>
      obtain ⟨-, hown, hleaf⟩ := h.of_isScalar rfl
      exact ⟨hown, s, hleaf, hvalue⟩
  | _ => cases hvalue

/-- The scalars of digest metadata are digests. -/
theorem ScalarIn.of_isSafeDigestMetadata {key : String} {value : Json}
    (h : ScalarIn value keys own leaf) (hvalue : isSafeDigestMetadata key value = true) :
    own = none ∧ ∃ s, leaf = .str s ∧ isSha256 s.toList = true := by
  unfold isSafeDigestMetadata at hvalue
  simp only at hvalue
  split_ifs at hvalue
  · exact h.of_isDigestValue hvalue
  · cases value with
    | arr xs =>
        cases h with
        | self hscalar => cases hscalar
        | item hmem h => exact h.of_isDigestValue (List.all_eq_true.mp hvalue _ hmem)
    | _ => cases hvalue

/-! ### What the walk leaves -/

/-- What is known of a scalar below a key, `sensitive` when it or a key above it is. -/
structure SafeScalar (sensitive : Bool) (keyName : Option String) (keys : List String)
    (own : Option (String × Json)) (leaf : Json) : Prop where
  masked : (sensitive = true ∨ ∃ key ∈ keys, isSensitiveKey key.toList = true) → Masked own leaf
  shape : ∀ s, leaf = .str s → ((own.map (·.1)).or keyName).any looksLikeCommandKey = false →
    looksLikeSecretValue s.toList = false

theorem not_secret_marker : looksLikeSecretValue REDACTED.toList = false := by decide

theorem masked_redactValue (value : Json) : Masked own (redactValue REDACTED value) := by
  unfold redactValue
  split
  · exact .null
  · split
    · exact .empty
    · exact .marker
  · exact .marker

theorem not_secret_redactValue {value : Json} {s : String}
    (h : redactValue REDACTED value = .str s) : looksLikeSecretValue s.toList = false := by
  unfold redactValue at h
  split at h
  · cases h
  · split at h
    · cases h
      decide
    · cases h
      exact not_secret_marker
  · cases h
    exact not_secret_marker

theorem safeScalar_redactScalar (sensitive : Bool) (keyName : Option String) (value : Json) :
    SafeScalar sensitive keyName [] none (redactScalar REDACTED sensitive keyName value) where
  masked h := by
    have hsensitive : sensitive = true := h.resolve_right (by simp)
    unfold redactScalar
    rw [if_pos hsensitive]
    exact masked_redactValue value
  shape s hs hcommand := by
    unfold redactScalar at hs
    split at hs
    · exact not_secret_redactValue hs
    · split at hs
      · rename_i text
        have hkey : keyName.any looksLikeCommandKey = false := hcommand
        rw [hkey, if_neg Bool.false_ne_true] at hs
        by_cases hsecret : looksLikeSecretValue text.toList = true
        · exact not_secret_redactValue ((if_pos hsecret).symm.trans hs)
        · rw [if_neg hsecret] at hs
          cases hs
          exact Bool.eq_false_iff.mpr hsecret
      · rename_i hvalue
        exact absurd hs (hvalue s)

/-- What is known of a scalar of a member is known of it as one of the mapping. -/
theorem SafeScalar.member {sensitive : Bool} {keyName : Option String} {key : String} {value : Json}
    (h : SafeScalar (isSensitiveKey key.toList || sensitive) (some key) keys own leaf) :
    SafeScalar sensitive keyName (key :: keys) (some (own.getD (key, value))) leaf where
  masked hsensitive := by
    have hmasked : Masked own leaf := by
      refine h.masked ?_
      rw [Bool.or_eq_true]
      cases hsensitive with
      | inl hsensitive => exact .inl (.inr hsensitive)
      | inr hkeys =>
          obtain ⟨k, hk, hkey⟩ := hkeys
          cases hk with
          | head => exact .inl (.inl hkey)
          | tail _ hk => exact .inr ⟨k, hk, hkey⟩
    cases hmasked with
    | null => exact .null
    | empty => exact .empty
    | marker => exact .marker
    | digest hown hdigest => exact .digest (by rw [hown, Option.getD_some]) hdigest
  shape s hs hcommand := by
    refine h.shape s hs ?_
    cases own with
    | none => exact hcommand
    | some member => exact hcommand

theorem safeScalar_of_scalar {value : Json} {sensitive : Bool} {keyName : Option String}
    (hvalue : isScalar value = true)
    (h : ScalarIn (safeWalk sensitive keyName value) keys own leaf) :
    SafeScalar sensitive keyName keys own leaf := by
  rw [safeWalk_of_isScalar _ _ hvalue] at h
  obtain ⟨rfl, rfl, rfl⟩ := h.of_isScalar (isScalar_redactScalar _ _ hvalue)
  exact safeScalar_redactScalar sensitive keyName value

theorem safeScalar_of_safeWalk {j : Json} {sensitive : Bool} {keyName : Option String}
    (h : ScalarIn (safeWalk sensitive keyName j) keys own leaf) :
    SafeScalar sensitive keyName keys own leaf := by
  induction j using Json.induction generalizing sensitive keyName keys own with
  | arr xs ih =>
      rw [safeWalk_arr] at h
      cases h with
      | self hself => cases hself
      | item hmem h =>
          obtain ⟨x, hx, rfl⟩ := List.mem_map.mp hmem
          exact ih x hx h
  | obj ms ih =>
      rw [safeWalk_obj] at h
      cases h with
      | self hself => cases hself
      | member hmem h =>
          obtain ⟨⟨k, v⟩, hm, heq⟩ := List.mem_map.mp hmem
          by_cases hdigest : isSafeDigestMetadata k v = true
          · -- the digests are put back
            rw [safeMember_of_digest _ hdigest] at heq
            obtain ⟨rfl, rfl⟩ := Prod.mk.inj heq
            obtain ⟨rfl, s, rfl, hsha⟩ := h.of_isSafeDigestMetadata hdigest
            refine ⟨fun _ => .digest rfl hdigest, fun s' hs' _ => ?_⟩
            cases hs'
            exact not_secret_of_isSha256 hsha
          · rw [safeMember_of_other _ hdigest] at heq
            obtain ⟨rfl, rfl⟩ := Prod.mk.inj heq
            exact (ih (k, v) hm h).member
  | _ => exact safeScalar_of_scalar rfl h

/-- What the encoder makes of a mapping is what the redaction makes of one. -/
theorem ScalarIn.of_serialize {j : Json} (h : ScalarIn (serialize j) keys own leaf)
    (hkeys : keys ≠ []) : ∃ ms, ScalarIn (secretSafe (.obj ms)) keys own leaf := by
  induction j using Json.induction generalizing keys own with
  | arr xs ih =>
      rw [serialize, serializeItems_eq] at h
      cases h with
      | self hself => cases hself
      | item hmem h =>
          obtain ⟨x, hx, rfl⟩ := List.mem_map.mp hmem
          exact ih x hx h hkeys
  | obj ms _ => exact ⟨serializeMembers ms, h⟩
  | _ => exact absurd (h.of_isScalar rfl).1 hkeys

/-- **What is redacted holds no secret in place**, neither in the result of `_secret_safe` nor
below the mappings that the encoder prints. Below a sensitive key stands only the marker, what
is empty, or a digest under a digest key; and no string but a command has the shape of a
credential. -/
theorem secretSafe_sound {j : Json} (h : ScalarIn (secretSafe j) keys own leaf ∨
      ScalarIn (serialize j) keys own leaf ∧ keys ≠ []) :
    ((∃ key ∈ keys, isSensitiveKey key.toList = true) → Masked own leaf) ∧
      ∀ s, leaf = .str s → (own.map (·.1)).any looksLikeCommandKey = false →
        looksLikeSecretValue s.toList = false := by
  obtain ⟨v, hv⟩ : ∃ v, ScalarIn (secretSafe v) keys own leaf := by
    rcases h with h | ⟨h, hkeys⟩
    · exact ⟨j, h⟩
    · obtain ⟨ms, hms⟩ := h.of_serialize hkeys
      exact ⟨.obj ms, hms⟩
  have hsafe : SafeScalar false none keys own leaf := safeScalar_of_safeWalk hv
  refine ⟨fun hkeys => hsafe.masked (.inr hkeys), fun s hs hcommand => hsafe.shape s hs ?_⟩
  rwa [Option.or_none]

/-- A mapping with a list of passwords below a sensitive key. -/
def nestedSecrets : Json :=
  .obj [("credentials", .obj [("items", .arr [.str "hunter2"])])]

theorem secretSafe_sound_nested :
    ScalarIn (secretSafe nestedSecrets) ["credentials", "items"]
      (some ("items", .arr [.str REDACTED])) (.str REDACTED) ∧
    Masked (some ("items", .arr [.str REDACTED])) (.str REDACTED) := by
  have hwalk : secretSafe nestedSecrets =
      .obj [("credentials", .obj [("items", .arr [.str REDACTED])])] := by
    decide +kernel
  have h : ScalarIn (secretSafe nestedSecrets) ["credentials", "items"]
      (some ("items", .arr [.str REDACTED])) (.str REDACTED) := by
    rw [hwalk]
    exact .member List.mem_cons_self (.member List.mem_cons_self
      (.item List.mem_cons_self (.self rfl)))
  exact ⟨h, (secretSafe_sound (.inl h)).1 ⟨"credentials", List.mem_cons_self, by decide⟩⟩

end Ophelia
