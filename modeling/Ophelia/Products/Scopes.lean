import Ophelia.Domain.Reference
import Ophelia.Products.Identity

/-!
# Ophelia.Products.Scopes

Which products share a scope. The runtime keeps a product below the slug of its identifier; both
`product_execution.py` and `execution/process_backend.py` compute that slug. It writes a hyphen for
each of the three separators of identifiers, and a long one is cut and told apart by a hash.

A slug is always a name the kernel accepts (`isSlug_slug`). Two identifiers share one when they
differ in their separators only, and when one of them is the shortened form of the other
(`slug_eq_iff`).
-/

namespace Ophelia

/-! ### The slug of an identifier -/

/-- `_product_slug` of the process backend. -/
def productSlug [Platform] (value : String) : String :=
  let normalized := lettered (hyphenated value.toList)
  if normalized.length > 63 then
    let suffix := ((digestText value).val.toList.drop 7).take 10
    String.ofList (rstripHyphens (normalized.take 52) ++ '-' :: suffix)
  else String.ofList normalized

/-- `self.scope_root`, below the runtime root. -/
def scopeRoot [Platform] (id : BundleId) : List String :=
  ["apps", productSlug id.val, "environments", "production"]

/-- `self.data_root` of a product without one of its own. -/
def dataRoot [Platform] (id : BundleId) : List String :=
  scopeRoot id ++ ["data"]

/-- A separator reads as a hyphen. -/
def asHyphen (c : Char) : Char :=
  if isIdSeparator c then '-' else c

/-- An identifier with its separators read as hyphens. -/
def inHyphens (id : BundleId) : List Char :=
  id.val.toList.map asHyphen

/-- The ten digits that tell a long identifier apart. -/
def idHash [Platform] (id : BundleId) : List Char :=
  ((digestText id.val).val.toList.drop 7).take 10

/-- The slug of a long identifier. -/
def shortened [Platform] (id : BundleId) : List Char :=
  rstripHyphens ((inHyphens id).take 52) ++ '-' :: idHash id

/-! ### Slugs put together -/

theorem asHyphen_of_isLowerAlnum {c : Char} (h : isLowerAlnum c = true) : asHyphen c = c := by
  have hsep : isIdSeparator c = false := by
    cases hc : isIdSeparator c with
    | false => rfl
    | true =>
        simp only [isIdSeparator, Bool.or_eq_true, beq_iff_eq] at hc
        rcases hc with (rfl | rfl) | rfl
        · exact absurd h (by decide)
        · exact absurd h (by decide)
        · exact absurd h (by decide)
  rw [asHyphen, hsep]
  rfl

theorem isSlugTail_asHyphen {cs : List Char} (h : isBundleIdTail cs = true) :
    isSlugTail (cs.map asHyphen) = true := by
  fun_induction isBundleIdTail cs with
  | case1 => rfl
  | case2 c d cs hsep ih =>
      rw [Bool.and_eq_true] at h
      have hc : asHyphen c = '-' := if_pos hsep
      rw [List.map_cons, List.map_cons, hc, isSlugTail, asHyphen_of_isLowerAlnum h.1, h.1]
      exact ih h.2
  | case3 c d cs hsep ih =>
      rw [Bool.and_eq_true] at h
      rw [List.map_cons, asHyphen_of_isLowerAlnum h.1, isSlugTail_cons (isLowerAlnum_ne_hyphen h.1),
        h.1]
      exact ih h.2
  | case4 c =>
      rw [List.map_cons, asHyphen_of_isLowerAlnum h, isSlugTail_cons (isLowerAlnum_ne_hyphen h), h]
      rfl

theorem isSlugTail_append {cs ds : List Char} (hcs : isSlugTail cs = true)
    (hds : isSlugTail ds = true) : isSlugTail (cs ++ ds) = true := by
  fun_induction isSlugTail cs with
  | case1 => exact hds
  | case2 c cs ih =>
      rw [Bool.and_eq_true] at hcs
      rw [List.cons_append, List.cons_append, isSlugTail, hcs.1]
      exact ih hcs.2
  | case3 c cs _ ih =>
      rw [Bool.and_eq_true] at hcs
      rw [List.cons_append, isSlugTail_cons (isLowerAlnum_ne_hyphen hcs.1), hcs.1]
      exact ih hcs.2

theorem isSlugTail_of_all {cs : List Char} (h : ∀ c ∈ cs, isLowerAlnum c = true) :
    isSlugTail cs = true := by
  induction cs with
  | nil => rfl
  | cons c cs ih =>
      have hc := h c List.mem_cons_self
      rw [isSlugTail_cons (isLowerAlnum_ne_hyphen hc), hc]
      exact ih fun d hd => h d (List.mem_cons_of_mem _ hd)

/-- Only hyphens at the end are stripped. -/
theorem rstripHyphens_cons (c : Char) (cs : List Char) :
    rstripHyphens (c :: cs) =
      if rstripHyphens cs = [] ∧ c = '-' then [] else c :: rstripHyphens cs := by
  unfold rstripHyphens
  rw [List.reverse_cons, List.dropWhile_append]
  cases hrest : cs.reverse.dropWhile fun c => c == '-' with
  | nil =>
      by_cases hc : c = '-'
      · simp [hc]
      · simp [hc]
  | cons d ds => simp

theorem rstripHyphens_cons_of_ne {c : Char} (hne : c ≠ '-') (cs : List Char) :
    rstripHyphens (c :: cs) = c :: rstripHyphens cs := by
  rw [rstripHyphens_cons, if_neg fun h => hne h.2]

/-- What is left of a slug that was cut is the tail of a slug. -/
theorem isSlugTail_cut {cs : List Char} (h : isSlugTail cs = true) (n : Nat) :
    isSlugTail (rstripHyphens (cs.take n)) = true := by
  fun_induction isSlugTail cs generalizing n with
  | case1 =>
      rw [List.take_nil]
      rfl
  | case2 c cs ih =>
      rw [Bool.and_eq_true] at h
      rcases n with _ | _ | n
      · rfl
      · rfl
      · rw [List.take_succ_cons, List.take_succ_cons, rstripHyphens_cons,
          rstripHyphens_cons_of_ne (isLowerAlnum_ne_hyphen h.1), if_neg (by simp), isSlugTail, h.1]
        exact ih h.2 n
  | case3 c cs _ ih =>
      rw [Bool.and_eq_true] at h
      cases n with
      | zero => rfl
      | succ n =>
          rw [List.take_succ_cons, rstripHyphens_cons_of_ne (isLowerAlnum_ne_hyphen h.1),
            isSlugTail_cons (isLowerAlnum_ne_hyphen h.1), h.1]
          exact ih h.2 n

/-! ### The slug of an identifier, once more -/

section Identifiers

variable (id : BundleId)

theorem inHyphens_shape : ∃ c cs, id.val.toList = c :: cs ∧ c.isLower = true ∧
    isBundleIdTail cs = true ∧ inHyphens id = c :: cs.map asHyphen := by
  have hid := id.ok
  rw [isBundleId, Bool.and_eq_true] at hid
  cases hcs : id.val.toList with
  | nil =>
      rw [hcs] at hid
      exact absurd hid.2 (by decide)
  | cons c cs =>
      rw [hcs, isBundleIdPattern, Bool.and_eq_true] at hid
      have hc : asHyphen c = c := asHyphen_of_isLowerAlnum (by rw [isLowerAlnum, hid.2.1]; rfl)
      exact ⟨c, cs, rfl, hid.2.1, hid.2.2, by rw [inHyphens, hcs, List.map_cons, hc]⟩

theorem isSlugPattern_inHyphens : isSlugPattern (inHyphens id) = true := by
  obtain ⟨c, cs, -, hlower, htail, heq⟩ := inHyphens_shape id
  rw [heq, isSlugPattern, hlower, isSlugTail_asHyphen htail]
  rfl

theorem length_inHyphens : (inHyphens id).length = id.val.toList.length :=
  List.length_map ..

/-- Reading a separator as a hyphen makes no difference to the slug. -/
theorem hyphenated_inHyphens : hyphenated (inHyphens id) = hyphenated id.val.toList := by
  have hchar : ∀ c : Char, (if (asHyphen c).toLower.isAlphanum then (asHyphen c).toLower else '-') =
      if c.toLower.isAlphanum then c.toLower else '-' := by
    intro c
    unfold asHyphen
    split
    · rename_i hsep
      simp only [isIdSeparator, Bool.or_eq_true, beq_iff_eq] at hsep
      rcases hsep with (rfl | rfl) | rfl
      · decide
      · decide
      · decide
    · rfl
  unfold hyphenated inHyphens
  simp only [List.map_map, Function.comp_def, hchar]

theorem normalized_eq : lettered (hyphenated id.val.toList) = inHyphens id := by
  rw [← hyphenated_inHyphens, hyphenated_of_isSlugPattern (isSlugPattern_inHyphens id)]
  obtain ⟨c, cs, -, hlower, -, heq⟩ := inHyphens_shape id
  rw [heq, lettered, if_pos]
  simp [Char.isAlpha, hlower]

/-- The slug of an identifier: its hyphens, or their shortened form. -/
theorem toList_slug [Platform] : (slug id.val).toList =
    if 63 < id.val.toList.length then shortened id else inHyphens id := by
  unfold slug
  simp only [normalized_eq, length_inHyphens, gt_iff_lt]
  split
  · rw [String.toList_ofList]
    rfl
  · exact String.toList_ofList

theorem isLowerAlnum_of_isHexDigit {c : Char} (h : isHexDigit c = true) :
    isLowerAlnum c = true := by
  simp only [isHexDigit, Bool.or_eq_true, Bool.and_eq_true, decide_eq_true_eq] at h
  cases h with
  | inl h => simp [isLowerAlnum, h]
  | inr h =>
      have hlower : c.isLower = true := by
        simp only [Char.isLower, Bool.and_eq_true, decide_eq_true_eq]
        exact ⟨h.1, Nat.le_trans h.2 (by decide)⟩
      simp [isLowerAlnum, hlower]

theorem isLowerAlnum_idHash [Platform] : ∀ c ∈ idHash id, isLowerAlnum c = true := by
  intro c hc
  have hdigest := (digestText id.val).ok
  rw [isSha256, Bool.and_eq_true, Bool.and_eq_true, List.all_eq_true] at hdigest
  exact isLowerAlnum_of_isHexDigit (hdigest.1.2 c (List.mem_of_mem_take hc))

theorem length_idHash [Platform] : (idHash id).length = 10 := by
  have hdigest := (digestText id.val).ok
  rw [isSha256, Bool.and_eq_true, beq_iff_eq] at hdigest
  rw [idHash, List.length_take, hdigest.2]
  rfl

end Identifiers

/-! ### Scopes -/

section Scopes

variable [Platform]

/-- Every product has a name that the kernel accepts. -/
theorem isSlug_slug (id : BundleId) : isSlug (slug id.val).toList = true := by
  rw [isSlug, Bool.and_eq_true, decide_eq_true_eq]
  refine ⟨length_slug_le id.val, ?_⟩
  rw [toList_slug]
  split
  · obtain ⟨c, cs, -, hlower, htail, heq⟩ := inHyphens_shape id
    have hne : c ≠ '-' := isLowerAlnum_ne_hyphen (by rw [isLowerAlnum, hlower]; rfl)
    rw [shortened, heq, List.take_succ_cons, rstripHyphens_cons_of_ne hne, List.cons_append,
      isSlugPattern, hlower, Bool.true_and]
    refine isSlugTail_append (isSlugTail_cut (isSlugTail_asHyphen htail) 51) ?_
    have hhash := isLowerAlnum_idHash id
    cases hcs : idHash id with
    | nil =>
        have hlength := length_idHash id
        rw [hcs] at hlength
        cases hlength
    | cons d ds =>
        rw [hcs] at hhash
        rw [isSlugTail, hhash d List.mem_cons_self]
        exact isSlugTail_of_all fun e he => hhash e (List.mem_cons_of_mem _ he)
  · exact isSlugPattern_inHyphens id

/-- Two identifiers that differ in their separators only, and are too short to be cut. -/
def SamePlain (v w : BundleId) : Prop :=
  v.val.toList.length ≤ 63 ∧ w.val.toList.length ≤ 63 ∧ inHyphens v = inHyphens w

/-- An identifier that is the shortened form of another one. -/
def Shortens (v w : BundleId) : Prop :=
  v.val.toList.length ≤ 63 ∧ 63 < w.val.toList.length ∧ inHyphens v = shortened w

theorem shortened_inj {v w : BundleId} (h : shortened v = shortened w) : idHash v = idHash w := by
  have hlength : ('-' :: idHash v).length = ('-' :: idHash w).length := by
    rw [List.length_cons, List.length_cons, length_idHash, length_idHash]
  exact (List.cons.inj (List.append_inj' h hlength).2).2

/-- **Shared slugs.** The hashes of two long identifiers are assumed to tell them apart. -/
theorem slug_eq_iff {v w : BundleId}
    (hfree : 63 < v.val.toList.length → 63 < w.val.toList.length → idHash v ≠ idHash w) :
    slug v.val = slug w.val ↔ SamePlain v w ∨ Shortens v w ∨ Shortens w v := by
  rw [← String.toList_inj, toList_slug, toList_slug]
  by_cases hv : 63 < v.val.toList.length
  · by_cases hw : 63 < w.val.toList.length
    · rw [if_pos hv, if_pos hw]
      constructor
      · intro h
        exact absurd (shortened_inj h) (hfree hv hw)
      · rintro (⟨hle, -⟩ | ⟨hle, -⟩ | ⟨hle, -⟩)
        · omega
        · omega
        · omega
    · rw [if_pos hv, if_neg hw]
      constructor
      · intro h
        exact .inr (.inr ⟨Nat.not_lt.mp hw, hv, h.symm⟩)
      · rintro (⟨hle, -⟩ | ⟨hle, -⟩ | ⟨-, -, h⟩)
        · omega
        · omega
        · exact h.symm
  · rw [if_neg hv]
    by_cases hw : 63 < w.val.toList.length
    · rw [if_pos hw]
      constructor
      · intro h
        exact .inr (.inl ⟨Nat.not_lt.mp hv, hw, h⟩)
      · rintro (⟨-, hle, -⟩ | ⟨-, -, h⟩ | ⟨hle, -⟩)
        · omega
        · exact h
        · omega
    · rw [if_neg hw]
      constructor
      · intro h
        exact .inl ⟨Nat.not_lt.mp hv, Nat.not_lt.mp hw, h⟩
      · rintro (⟨-, -, h⟩ | ⟨-, hlt, -⟩ | ⟨-, hlt, -⟩)
        · exact h
        · omega
        · omega

/-- Two products that share nothing: both parts of the program know each of them under one
accepted name, and neither the names nor the directories are the same. -/
structure Separate (v w : BundleId) : Prop where
  agree : ∀ id ∈ [v, w], slug id.val = productSlug id.val
  accepted : ∀ id ∈ [v, w], isSlug (slug id.val).toList = true
  names : slug v.val ≠ slug w.val
  scopes : scopeRoot v ≠ scopeRoot w
  data : dataRoot v ≠ dataRoot w

/-- **Separate scopes.** Two products are separate unless one of the two kinds of shared slugs
applies to them. -/
theorem separate_iff {v w : BundleId}
    (hfree : 63 < v.val.toList.length → 63 < w.val.toList.length → idHash v ≠ idHash w) :
    Separate v w ↔ ¬ (SamePlain v w ∨ Shortens v w ∨ Shortens w v) := by
  rw [← slug_eq_iff hfree]
  constructor
  · intro h
    exact h.names
  · intro hnames
    have hscopes : scopeRoot v ≠ scopeRoot w := by
      intro heq
      have heq' := List.cons.inj (List.cons.inj heq).2
      exact hnames heq'.1
    refine ⟨fun _ _ => rfl, fun id _ => isSlug_slug id, hnames, hscopes, ?_⟩
    intro heq
    exact hscopes (List.append_cancel_right heq)

end Scopes

end Ophelia

namespace Ophelia.Reference

attribute [local instance] platform

def acmeShop : BundleId := ⟨"acme.shop", by decide⟩

def acmeNorth : BundleId :=
  ⟨"acme.catalogue-of-everything-a-coyote-has-ever-ordered-by-mail.north", by decide⟩

def acmeSouth : BundleId :=
  ⟨"acme.catalogue-of-everything-a-coyote-has-ever-ordered-by-mail.south", by decide⟩

/-- Two long names with one beginning: only the digits of the hash tell their slugs apart. -/
theorem separate_acme : Separate acmeNorth acmeSouth := by
  have hhash : idHash acmeNorth ≠ idHash acmeSouth := by decide +kernel
  refine (separate_iff fun _ _ => hhash).mpr ?_
  rintro (⟨h, -, -⟩ | ⟨h, -, -⟩ | ⟨h, -, -⟩)
  · exact absurd h (by decide)
  · exact absurd h (by decide)
  · exact absurd h (by decide)

/-- A dot and a hyphen make no difference. -/
theorem shared_acme : ¬ ∀ v w : BundleId, v ≠ w →
    (63 < v.val.toList.length → 63 < w.val.toList.length → idHash v ≠ idHash w) →
      Separate v w := by
  intro h
  have hseparate := h acmeShop ⟨"acme-shop", by decide⟩ (by decide) fun h => absurd h (by decide)
  exact hseparate.names (by decide)

end Ophelia.Reference
