import Ophelia.Domain.Redaction
import Ophelia.Lib.JsonLeaves
import Ophelia.Lib.JsonSound

/-!
# Ophelia.Domain.RedactionSound

What redaction does to the values the kernel writes. Contracts only have keys that are
neither sensitive, nor commands, nor forbidden (`plain`); on such values serialization is
the single map `mask` over the strings, which is idempotent. Everything the journal
proofs need about secrecy is in `secretSafe_of_plain`, `serialize_of_plain` and
`mask_mask`; none of them unfolds a walk again.
-/

namespace Ophelia

open PyText

/-! ### Credential shapes have two slashes

Every credential shape is spelled with `://`, and stripping blanks or lowering case
never makes a slash. So a text with at most one slash is not masked. -/

theorem count_slash_lowerChar (c : Char) :
    (lowerChar c).count '/' = if c = '/' then 1 else 0 := by
  unfold lowerChar
  split_ifs with h₁ h₂ h₃ h₄ h₅ h₆ h₇
  · subst h₂; exact absurd h₁ (by decide)
  · have hup : 65 ≤ c.toNat ∧ c.toNat ≤ 90 := by
      have hval : 65 ≤ c.val ∧ c.val ≤ 90 := of_decide_eq_true h₁
      simpa [UInt32.le_iff_toNat_le, ← Char.toNat_val] using hval
    have hne : ∀ n ≤ 90, 65 ≤ n → Char.ofNat (n + 32) ≠ '/' := by decide
    simp [hne c.toNat hup.2 hup.1]
  · subst h₄; exact absurd h₃ (by decide)
  · decide
  · subst h₆; exact absurd h₅ (by decide)
  · decide
  · subst h₇; decide
  · simp [*]

theorem count_slash_lower (cs : List Char) : (lower cs).count '/' = cs.count '/' := by
  induction cs with
  | nil => rfl
  | cons c cs ih =>
      rw [lower, List.flatMap_cons, List.count_append, ← lower, ih, count_slash_lowerChar,
        List.count_cons]
      by_cases hc : c = '/'
      · simp [hc, Nat.add_comm]
      · simp [hc]

theorem strip_sublist (cs : List Char) : (strip cs).Sublist cs := by
  have h := (List.dropWhile_sublist isSpace (l := (cs.dropWhile isSpace).reverse)).reverse
  rw [List.reverse_reverse] at h
  exact h.trans (List.dropWhile_sublist isSpace)

theorem infix_of_cut? {sep cs : List Char} {p : List Char × List Char}
    (h : cut? sep cs = some p) : sep <:+: cs := by
  induction cs generalizing p with
  | nil =>
      cases sep with
      | nil => exact List.infix_rfl
      | cons c sep => simp [cut?] at h
  | cons c cs ih =>
      simp only [cut?] at h
      split at h
      · rename_i hp
        exact (List.isPrefixOf_iff_prefix.mp hp).isInfix
      · cases hq : cut? sep cs with
        | none => simp [hq] at h
        | some q => exact (ih hq).trans (List.suffix_cons c cs).isInfix

theorem count_slash_prefixes :
    ∀ pre ∈ SECRET_VALUE_PREFIXES, pre.toList.count '/' = 2 := by
  decide

/-- **A credential shape needs two slashes.** -/
theorem two_slashes_of_looksLikeSecretValue {cs : List Char}
    (h : looksLikeSecretValue cs = true) : 2 ≤ cs.count '/' := by
  have hstrip : (strip cs).count '/' ≤ cs.count '/' := (strip_sublist cs).count_le '/'
  refine le_trans ?_ hstrip
  simp only [looksLikeSecretValue, Bool.or_eq_true, List.any_eq_true] at h
  rcases h with ⟨pre, hmem, hpre⟩ | h
  · rw [← count_slash_lower, ← count_slash_prefixes pre hmem]
    exact (List.isPrefixOf_iff_prefix.mp hpre).sublist.count_le '/'
  · unfold hasUserInfo at h
    cases hcut : cut? "://".toList (strip cs) with
    | none => rw [hcut] at h; exact absurd h (by decide)
    | some p => exact (infix_of_cut? hcut).sublist.count_le '/'

theorem not_secret_of_no_slash {cs : List Char} (h : '/' ∉ cs) :
    looksLikeSecretValue cs = false := by
  by_contra hs
  have := two_slashes_of_looksLikeSecretValue (Bool.not_eq_false _ ▸ hs)
  rw [List.count_eq_zero.mpr h] at this
  omega

theorem isHexDigit_ne_slash {c : Char} (h : isHexDigit c = true) : c ≠ '/' := by
  rintro rfl
  exact absurd h (by decide)

/-- A digest is never mistaken for a credential. -/
theorem not_secret_of_isSha256 {cs : List Char} (h : isSha256 cs = true) :
    looksLikeSecretValue cs = false := by
  apply not_secret_of_no_slash
  simp only [isSha256, Bool.and_eq_true, List.isPrefixOf_iff_prefix, List.all_eq_true] at h
  obtain ⟨⟨⟨rest, rfl⟩, hhex⟩, -⟩ := h
  intro hmem
  rcases List.mem_append.mp hmem with hmem | hmem
  · exact absurd hmem (by decide)
  · exact isHexDigit_ne_slash (hhex '/' (by simpa using hmem)) rfl

/-! ### Masking -/

/-- Mask one string by its shape alone. -/
def maskText (s : String) : String :=
  if looksLikeSecretValue s.toList then REDACTED else s

theorem maskText_eq_self {s : String} (h : looksLikeSecretValue s.toList = false) :
    maskText s = s := by
  simp [maskText, h]

theorem looksLikeSecretValue_maskText (s : String) :
    looksLikeSecretValue (maskText s).toList = false := by
  unfold maskText
  split
  · decide
  · rename_i h
    simpa using h

@[simp] theorem maskText_maskText (s : String) : maskText (maskText s) = maskText s :=
  maskText_eq_self (looksLikeSecretValue_maskText s)

mutual

/-- Mask every string of a value by its shape. -/
def mask : Json → Json
  | .str s => .str (maskText s)
  | .arr xs => .arr (maskItems xs)
  | .obj ms => .obj (maskMembers ms)
  | j => j

def maskItems : List Json → List Json
  | [] => []
  | x :: xs => mask x :: maskItems xs

def maskMembers : List (String × Json) → List (String × Json)
  | [] => []
  | (k, v) :: ms => (k, mask v) :: maskMembers ms

end

theorem maskItems_eq (xs : List Json) : maskItems xs = xs.map mask := by
  induction xs with
  | nil => rfl
  | cons x xs ih => simp only [maskItems, List.map_cons, ih]

theorem maskMembers_eq (ms : List (String × Json)) :
    maskMembers ms = ms.map fun m => (m.1, mask m.2) := by
  induction ms with
  | nil => rfl
  | cons m ms ih => simp only [maskMembers, List.map_cons, ih]

/-- Masking twice is masking once. -/
@[simp] theorem mask_mask (j : Json) : mask (mask j) = mask j := by
  induction j using Json.induction with
  | null => rfl
  | bool => rfl
  | int => rfl
  | float => rfl
  | str s => simp only [mask, maskText_maskText]
  | arr xs ih =>
      simp only [mask, maskItems_eq, List.map_map]
      congr 1
      exact List.map_congr_left fun x hx => ih x hx
  | obj ms ih =>
      simp only [mask, maskMembers_eq, List.map_map]
      congr 1
      exact List.map_congr_left fun m hm => by simp only [Function.comp, ih m hm]

/-! ### Plain keys -/

/-- A key that triggers no rule of its own. -/
def plainKey (k : String) : Bool :=
  !isSensitiveKey k.toList && !looksLikeCommandKey k && !isForbiddenKey k

mutual

/-- Every key of a value is plain. -/
def plain : Json → Bool
  | .arr xs => plainItems xs
  | .obj ms => plainMembers ms
  | _ => true

def plainItems : List Json → Bool
  | [] => true
  | x :: xs => plain x && plainItems xs

def plainMembers : List (String × Json) → Bool
  | [] => true
  | (k, v) :: ms => plainKey k && plain v && plainMembers ms

end

theorem plain_arr {xs : List Json} : plain (.arr xs) = true ↔ ∀ x ∈ xs, plain x = true := by
  induction xs with
  | nil => simp [plain, plainItems]
  | cons x xs ih =>
      simp only [plain, plainItems, Bool.and_eq_true] at ih ⊢
      simp [ih]

theorem plain_obj {ms : List (String × Json)} :
    plain (.obj ms) = true ↔ ∀ m ∈ ms, plainKey m.1 = true ∧ plain m.2 = true := by
  induction ms with
  | nil => simp [plain, plainMembers]
  | cons m ms ih =>
      obtain ⟨k, v⟩ := m
      simp only [plain, plainMembers, Bool.and_eq_true] at ih ⊢
      simp [ih]

theorem plain_mask (j : Json) : plain (mask j) = plain j := by
  induction j using Json.induction with
  | null => rfl
  | bool => rfl
  | int => rfl
  | float => rfl
  | str => rfl
  | arr xs ih =>
      rw [Bool.eq_iff_iff, mask, maskItems_eq, plain_arr, plain_arr]
      simp only [List.mem_map, forall_exists_index, and_imp, forall_apply_eq_imp_iff₂]
      exact forall₂_congr fun x hx => by rw [ih x hx]
  | obj ms ih =>
      rw [Bool.eq_iff_iff, mask, maskMembers_eq, plain_obj, plain_obj]
      simp only [List.mem_map, forall_exists_index, and_imp, forall_apply_eq_imp_iff₂]
      exact forall₂_congr fun m hm => by rw [ih m hm]

/-! ### The rewrites are `mask` on plain values -/

theorem redactItems_eq (mk : String) (b : Bool) (k : Option String) (xs : List Json) :
    redactItems mk b k xs = xs.map (redactWalk mk b k) := by
  induction xs with
  | nil => rfl
  | cons x xs ih => simp only [redactItems, List.map_cons, ih]

theorem redactMembers_eq (mk : String) (b : Bool) (ms : List (String × Json)) :
    redactMembers mk b ms =
      ms.map fun m => (m.1, redactWalk mk (isSensitiveKey m.1.toList || b) (some m.1) m.2) := by
  induction ms with
  | nil => rfl
  | cons m ms ih => simp only [redactMembers, List.map_cons, ih]

/-- On plain values the walk only looks at the shape of strings. -/
theorem redactWalk_of_plain {j : Json} (hj : plain j = true) (k : Option String)
    (hk : k.any looksLikeCommandKey = false) :
    redactWalk REDACTED false k j = mask j := by
  induction j using Json.induction generalizing k with
  | null => rfl
  | bool => rfl
  | int => rfl
  | float => rfl
  | str s =>
      simp only [redactWalk, redactScalar, hk, mask, maskText]
      by_cases hs : looksLikeSecretValue s.toList = true
      · have hne : s ≠ "" := by
          rintro rfl
          exact absurd hs (by decide)
        simp [hs, redactValue, hne]
      · simp [hs]
  | arr xs ih =>
      rw [plain_arr] at hj
      simp only [redactWalk, redactItems_eq, mask, maskItems_eq]
      congr 1
      exact List.map_congr_left fun x hx => ih x hx (hj x hx) k hk
  | obj ms ih =>
      rw [plain_obj] at hj
      simp only [redactWalk, redactMembers_eq, mask, maskMembers_eq]
      congr 1
      refine List.map_congr_left fun m hm => ?_
      obtain ⟨hkey, hval⟩ := hj m hm
      simp only [plainKey, Bool.and_eq_true, Bool.not_eq_true'] at hkey
      rw [hkey.1.1, Bool.false_or, ih m hm hval (some m.1) (by simpa using hkey.1.2)]

theorem mask_of_isDigestValue {v : Json} (h : isDigestValue v = true) : mask v = v := by
  cases v with
  | str s => simp only [mask, maskText_eq_self (not_secret_of_isSha256 h)]
  | _ => simp [isDigestValue] at h

theorem mask_of_isSafeDigestMetadata {k : String} {v : Json}
    (h : isSafeDigestMetadata k v = true) : mask v = v := by
  unfold isSafeDigestMetadata at h
  simp only at h
  split_ifs at h
  · exact mask_of_isDigestValue h
  · cases v with
    | arr xs =>
        simp only [List.all_eq_true] at h
        simp only [mask, maskItems_eq]
        congr 1
        exact (List.map_congr_left fun x hx => mask_of_isDigestValue (h x hx)).trans
          (List.map_id' xs)
    | _ => simp at h

/-- Restoring digests into a masked value changes nothing: masking kept them. -/
theorem restoreDigestMetadata_mask (j : Json) : restoreDigestMetadata j (mask j) = mask j := by
  induction j using Json.induction with
  | null => rfl
  | bool => rfl
  | int => rfl
  | float => rfl
  | str => rfl
  | arr xs ih =>
      simp only [mask, restoreDigestMetadata]
      congr 1
      induction xs with
      | nil => rfl
      | cons x xs ihx =>
          simp only [maskItems, restoreItems, ih x (by simp),
            ihx fun y hy => ih y (by simp [hy])]
  | obj ms ih =>
      simp only [mask, restoreDigestMetadata]
      congr 1
      induction ms with
      | nil => rfl
      | cons m ms ihm =>
          obtain ⟨k, v⟩ := m
          have hv : restoreDigestMetadata v (mask v) = mask v := ih (k, v) (by simp)
          simp only [maskMembers, restoreMembers, hv, ihm fun y hy => ih y (by simp [hy])]
          by_cases hd : isSafeDigestMetadata k v = true
          · simp [hd, mask_of_isSafeDigestMetadata hd]
          · simp [hd]

/-- **Secret-safe serialization of plain values** masks strings by shape and does
nothing else. -/
theorem secretSafe_of_plain {j : Json} (hj : plain j = true) : secretSafe j = mask j := by
  rw [secretSafe, deepRedact, redactWalk_of_plain hj none rfl, restoreDigestMetadata_mask]

theorem serializeItems_eq (xs : List Json) : serializeItems xs = xs.map serialize := by
  induction xs with
  | nil => rfl
  | cons x xs ih => simp only [serializeItems, List.map_cons, ih]

theorem serializeMembers_of_plain {ms : List (String × Json)}
    (h : ∀ m ∈ ms, plainKey m.1 = true) :
    serializeMembers ms = ms.map fun m => (m.1, serialize m.2) := by
  induction ms with
  | nil => rfl
  | cons m ms ih =>
      obtain ⟨k, v⟩ := m
      have hk := h (k, v) (by simp)
      simp only [plainKey, Bool.and_eq_true, Bool.not_eq_true'] at hk
      rw [serializeMembers, hk.2, if_neg (by decide), List.map_cons,
        ih fun m hm => h m (by simp [hm])]

/-- Serializing a plain value masks some of its strings, possibly not all: a string
outside any mapping is left for the mapping around it. -/
theorem mask_serialize {j : Json} (hj : plain j = true) :
    mask (serialize j) = mask j ∧ plain (serialize j) = true := by
  induction j using Json.induction with
  | null => exact ⟨rfl, hj⟩
  | bool => exact ⟨rfl, hj⟩
  | int => exact ⟨rfl, hj⟩
  | float => exact ⟨rfl, hj⟩
  | str => exact ⟨rfl, hj⟩
  | arr xs ih =>
      rw [plain_arr] at hj
      refine ⟨?_, ?_⟩
      · simp only [serialize, serializeItems_eq, mask, maskItems_eq, List.map_map]
        congr 1
        exact List.map_congr_left fun x hx => (ih x hx (hj x hx)).1
      · simp only [serialize, serializeItems_eq, plain_arr, List.mem_map, forall_exists_index,
          and_imp, forall_apply_eq_imp_iff₂]
        exact fun x hx => (ih x hx (hj x hx)).2
  | obj ms ih =>
      rw [plain_obj] at hj
      have hser := serializeMembers_of_plain fun m hm => (hj m hm).1
      have hplain : plain (.obj (serializeMembers ms)) = true := by
        rw [hser, plain_obj]
        simp only [List.mem_map, forall_exists_index, and_imp, forall_apply_eq_imp_iff₂]
        exact fun m hm => ⟨(hj m hm).1, (ih m hm (hj m hm).2).2⟩
      have hmask : mask (.obj (serializeMembers ms)) = mask (.obj ms) := by
        rw [hser]
        simp only [mask, maskMembers_eq, List.map_map]
        congr 1
        exact List.map_congr_left fun m hm => by
          simp only [Function.comp, (ih m hm (hj m hm).2).1]
      rw [serialize, secretSafe_of_plain hplain, hmask, mask_mask, plain_mask, plain_obj]
      exact ⟨rfl, hj⟩

/-- **Serialization of a plain mapping** is `mask`. -/
theorem serialize_of_plain {ms : List (String × Json)} (hj : plain (.obj ms) = true) :
    serialize (.obj ms) = mask (.obj ms) := by
  have hmem := plain_obj.mp hj
  have hser := serializeMembers_of_plain fun m hm => (hmem m hm).1
  have hplain : plain (.obj (serializeMembers ms)) = true := by
    rw [hser, plain_obj]
    simp only [List.mem_map, forall_exists_index, and_imp, forall_apply_eq_imp_iff₂]
    exact fun m hm => ⟨(hmem m hm).1, (mask_serialize (hmem m hm).2).2⟩
  rw [serialize, secretSafe_of_plain hplain, hser]
  simp only [mask, maskMembers_eq, List.map_map]
  congr 1
  exact List.map_congr_left fun m hm => by
    simp only [Function.comp, (mask_serialize (hmem m hm).2).1]

/-- The canonical text of a plain mapping. -/
theorem canonicalJson_of_plain {ms : List (String × Json)} (hj : plain (.obj ms) = true) :
    canonicalJson (.obj ms) = (mask (.obj ms)).dumps := by
  rw [canonicalJson, serialize_of_plain hj]

/-! ### Scalars -/

open Json (isScalar)

/-- What is masked is empty, or the mask. -/
theorem redactValue_cases (v : Json) :
    redactValue REDACTED v = .null ∨ redactValue REDACTED v = .str "" ∨
      redactValue REDACTED v = .str REDACTED := by
  unfold redactValue
  split
  · exact .inl rfl
  · split
    · exact .inr (.inl rfl)
    · exact .inr (.inr rfl)
  · exact .inr (.inr rfl)

theorem isScalar_redactValue (v : Json) : isScalar (redactValue REDACTED v) = true := by
  rcases redactValue_cases v with h | h | h <;> rw [h] <;> rfl

/-- Redacted scalars are scalars. -/
theorem isScalar_redactScalar (b : Bool) (k : Option String) {v : Json} (hv : isScalar v = true) :
    isScalar (redactScalar REDACTED b k v) = true := by
  unfold redactScalar
  split
  · exact isScalar_redactValue v
  · split
    · split
      · rfl
      · split
        · exact isScalar_redactValue _
        · rfl
    · exact hv

theorem redactWalk_of_isScalar (b : Bool) (k : Option String) {v : Json} (hv : isScalar v = true) :
    redactWalk REDACTED b k v = redactScalar REDACTED b k v := by
  cases v with
  | arr => cases hv
  | obj => cases hv
  | _ => rfl

end Ophelia
