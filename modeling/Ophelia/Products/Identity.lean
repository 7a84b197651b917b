import Mathlib.Data.Bool.AllAny
import Ophelia.Domain.Slugs

/-!
# Ophelia.Products.Identity

The names of products. A bundle may name its product with dots, underscores and hyphens
(`product_bundle.py`); the kernel knows the product as an application, under the slug that
`product_execution.py` makes of that name. The slug keeps exactly the names that are slugs
already (`slug_eq_self_iff`).
-/

namespace Ophelia

/-! ### Product identifiers -/

def isIdSeparator (c : Char) : Bool :=
  c == '.' || c == '_' || c == '-'

/-- What may follow the first letter of an identifier: lower-case letters and digits, with single
separators between them. -/
def isBundleIdTail : List Char → Bool
  | [] => true
  | c :: d :: cs =>
      if isIdSeparator c then isLowerAlnum d && isBundleIdTail cs
      else isLowerAlnum c && isBundleIdTail (d :: cs)
  | [c] => isLowerAlnum c

/-- `^[a-z][a-z0-9]*(?:[._-][a-z0-9]+)*$`. -/
def isBundleIdPattern : List Char → Bool
  | [] => false
  | c :: cs => c.isLower && isBundleIdTail cs

/-- `_id`: an identifier of at most 160 characters. -/
def isBundleId (cs : List Char) : Bool :=
  decide (cs.length ≤ 160) && isBundleIdPattern cs

abbrev BundleId := Refined isBundleId

/-! ### Slugs -/

/-- `value.rstrip("-")`. -/
def rstripHyphens (cs : List Char) : List Char :=
  (cs.reverse.dropWhile fun c => c == '-').reverse

/-- The runs of letters and digits of a text, in lower case, joined by hyphens. -/
def hyphenated (cs : List Char) : List Char :=
  let mapped := (cs.map Char.toLower).map fun c => if c.isAlphanum then c else '-'
  List.intercalate ['-'] ((mapped.splitOn '-').filter fun part => part ≠ [])

/-- A name that starts with a letter. -/
def lettered (cs : List Char) : List Char :=
  if cs.head?.any Char.isAlpha then cs else "product-".toList ++ cs

/-- `_slug`: a name of at most 63 characters; a longer one is cut and told apart by a hash. -/
def slug [Platform] (value : String) : String :=
  let normalized := lettered (hyphenated value.toList)
  if normalized.length > 63 then
    let suffix := ((digestText value).val.toList.drop 7).take 10
    String.ofList (rstripHyphens (normalized.take 52) ++ '-' :: suffix)
  else String.ofList normalized

/-! ### Names that are slugs already -/

/-- The characters of a slug, its hyphens included, are left as they are. -/
theorem slugChar_mapped {c : Char} (h : isLowerAlnum c = true ∨ c = '-') :
    (if c.toLower.isAlphanum then c.toLower else '-') = c := by
  cases h with
  | inl h => rw [toLower_of_isLowerAlnum h, if_pos (isAlphanum_of_isLowerAlnum h)]
  | inr h =>
      subst h
      decide

/-- Only the first part of the tail of a slug may be empty. -/
theorem splitOn_of_isSlugTail {cs : List Char} (h : isSlugTail cs = true) :
    ∃ part parts, cs.splitOn '-' = part :: parts ∧ ∀ p ∈ parts, p ≠ [] := by
  fun_induction isSlugTail cs with
  | case1 => exact ⟨[], [], rfl, by simp⟩
  | case2 c cs ih =>
      rw [Bool.and_eq_true] at h
      obtain ⟨part, parts, hsplit, hparts⟩ := ih h.2
      have hc : (c == '-') = false := by simpa using isLowerAlnum_ne_hyphen h.1
      refine ⟨[], (c :: part) :: parts, ?_, ?_⟩
      · simp only [List.splitOn] at hsplit ⊢
        simp [List.splitOnP_cons_eq_if_modifyHead, hc, hsplit]
      · intro p hp
        rcases List.mem_cons.mp hp with rfl | hp
        · simp
        · exact hparts p hp
  | case3 c cs _ ih =>
      rw [Bool.and_eq_true] at h
      obtain ⟨part, parts, hsplit, hparts⟩ := ih h.2
      have hc : (c == '-') = false := by simpa using isLowerAlnum_ne_hyphen h.1
      refine ⟨c :: part, parts, ?_, hparts⟩
      simp only [List.splitOn] at hsplit ⊢
      simp [List.splitOnP_cons_eq_if_modifyHead, hc, hsplit]

/-- A slug is made of its own parts. -/
theorem hyphenated_of_isSlugPattern {cs : List Char} (h : isSlugPattern cs = true) :
    hyphenated cs = cs := by
  cases cs with
  | nil => exact absurd h (by decide)
  | cons c cs =>
      rw [isSlugPattern, Bool.and_eq_true] at h
      have hc : isLowerAlnum c = true := by rw [isLowerAlnum, h.1, Bool.true_or]
      have hmapped : ((c :: cs).map Char.toLower).map
          (fun c => if c.isAlphanum then c else '-') = c :: cs := by
        rw [List.map_map]
        refine (List.map_congr_left fun d hd => ?_).trans (List.map_id _)
        rcases List.mem_cons.mp hd with rfl | hd
        · exact slugChar_mapped (.inl hc)
        · exact slugChar_mapped (mem_of_isSlugTail h.2 d hd)
      obtain ⟨part, parts, hsplit, hparts⟩ := splitOn_of_isSlugTail h.2
      have hne : (c == '-') = false := by simpa using isLowerAlnum_ne_hyphen hc
      have hwhole : (c :: cs).splitOn '-' = (c :: part) :: parts := by
        simp only [List.splitOn] at hsplit ⊢
        simp [List.splitOnP_cons_eq_if_modifyHead, hne, hsplit]
      have hfilter : ((c :: part) :: parts).filter (fun part => part ≠ []) =
          (c :: part) :: parts := by
        rw [List.filter_eq_self]
        intro p hp
        rcases List.mem_cons.mp hp with rfl | hp
        · simp
        · simpa using hparts p hp
      unfold hyphenated
      rw [hmapped]
      simp only [hwhole, hfilter]
      rw [← hwhole]
      exact List.intercalate_splitOn '-'

/-- What is a slug already stays. -/
theorem slug_of_isSlug [Platform] {value : String} (h : isSlug value.toList = true) :
    slug value = value := by
  rw [isSlug, Bool.and_eq_true, decide_eq_true_eq] at h
  have hlettered : lettered value.toList = value.toList := by
    unfold lettered
    rw [if_pos]
    cases hcs : value.toList with
    | nil =>
        rw [hcs] at h
        exact absurd h.2 (by decide)
    | cons c cs =>
        rw [hcs, isSlugPattern, Bool.and_eq_true] at h
        simp [Char.isAlpha, h.2.1]
  have hnot : ¬ (lettered (hyphenated value.toList)).length > 63 := by
    rw [hyphenated_of_isSlugPattern h.2, hlettered]
    omega
  unfold slug
  simp only [if_neg hnot]
  rw [hyphenated_of_isSlugPattern h.2, hlettered, String.ofList_toList]

/-! ### Names that are not -/

theorem length_rstripHyphens_le (cs : List Char) : (rstripHyphens cs).length ≤ cs.length := by
  unfold rstripHyphens
  rw [List.length_reverse]
  exact (List.dropWhile_sublist _).length_le.trans_eq List.length_reverse

theorem length_slug_le [Platform] (value : String) : (slug value).toList.length ≤ 63 := by
  unfold slug
  simp only
  split
  · have hcut := length_rstripHyphens_le
      ((lettered (hyphenated value.toList)).take 52)
    simp only [List.length_take, String.toList_ofList, List.length_append, List.length_cons] at hcut ⊢
    omega
  · rename_i h
    rw [String.toList_ofList]
    omega

theorem mem_rstripHyphens {cs : List Char} {c : Char} (h : c ∈ rstripHyphens cs) : c ∈ cs := by
  unfold rstripHyphens at h
  rw [List.mem_reverse] at h
  exact List.mem_reverse.mp ((List.dropWhile_sublist _).subset h)

theorem mem_hyphenated {cs : List Char} {c : Char} (h : c ∈ hyphenated cs) :
    c.isAlphanum = true ∨ c = '-' := by
  unfold hyphenated at h
  cases PyText.mem_intercalate h with
  | inl heq => exact .inr heq
  | inr hpart =>
      obtain ⟨part, hpart, hc⟩ := hpart
      have hmem := PyText.mem_of_mem_splitOn (List.mem_filter.mp hpart).1 hc
      obtain ⟨d, -, rfl⟩ := List.mem_map.mp hmem
      by_cases hd : d.isAlphanum = true
      · rw [if_pos hd]
        exact .inl hd
      · rw [if_neg hd]
        exact .inr rfl

theorem mem_lettered {cs : List Char} {c : Char} (h : c ∈ lettered cs) :
    c ∈ cs ∨ c.isAlphanum = true ∨ c = '-' := by
  unfold lettered at h
  split at h
  · exact .inl h
  · cases List.mem_append.mp h with
    | inr h => exact .inl h
    | inl h =>
        have hall : ∀ c ∈ "product-".toList, c.isAlphanum = true ∨ c = '-' :=
          List.all_iff_forall_prop.mp (by decide)
        exact .inr (hall c h)

theorem isAlphanum_of_isHexDigit {c : Char} (h : isHexDigit c = true) : c.isAlphanum = true := by
  simp only [isHexDigit, Bool.or_eq_true, Bool.and_eq_true, decide_eq_true_eq] at h
  cases h with
  | inl h => simp [Char.isAlphanum, h]
  | inr h =>
      have hlower : c.isLower = true := by
        simp only [Char.isLower, Bool.and_eq_true, decide_eq_true_eq]
        exact ⟨h.1, Nat.le_trans h.2 (by decide)⟩
      simp [Char.isAlphanum, Char.isAlpha, hlower]

/-- A slug has letters, digits and hyphens only. -/
theorem mem_slug [Platform] {value : String} {c : Char} (h : c ∈ (slug value).toList) :
    c.isAlphanum = true ∨ c = '-' := by
  have hnormalized : ∀ c ∈ lettered (hyphenated value.toList), c.isAlphanum = true ∨ c = '-' := by
    intro c hc
    cases mem_lettered hc with
    | inl hc => exact mem_hyphenated hc
    | inr hc => exact hc
  unfold slug at h
  simp only at h
  split at h
  · rw [String.toList_ofList, List.mem_append, List.mem_cons] at h
    rcases h with hcut | heq | hsuffix
    · exact hnormalized c (List.mem_of_mem_take (mem_rstripHyphens hcut))
    · exact .inr heq
    · have hdigest := (digestText value).ok
      rw [isSha256, Bool.and_eq_true, Bool.and_eq_true, List.all_eq_true] at hdigest
      exact .inl (isAlphanum_of_isHexDigit (hdigest.1.2 c (List.mem_of_mem_take hsuffix)))
  · rw [String.toList_ofList] at h
    exact hnormalized c h

theorem isSlugTail_cons {c : Char} (hne : c ≠ '-') (cs : List Char) :
    isSlugTail (c :: cs) = (isLowerAlnum c && isSlugTail cs) := by
  rw [isSlugTail.eq_def]
  split
  · rename_i heq
    cases heq
  · rename_i heq
    cases heq
    exact absurd rfl hne
  · rename_i heq
    cases heq
    rfl

/-- The tail of an identifier without dots and underscores is the tail of a slug. -/
theorem isSlugTail_of_isBundleIdTail {cs : List Char} (h : isBundleIdTail cs = true)
    (hplain : ∀ c ∈ cs, c.isAlphanum = true ∨ c = '-') : isSlugTail cs = true := by
  fun_induction isBundleIdTail cs with
  | case1 => rfl
  | case2 c d cs hsep ih =>
      rw [Bool.and_eq_true] at h
      have hc : c = '-' := by
        cases hplain c (by simp) with
        | inr heq => exact heq
        | inl halnum =>
            simp only [isIdSeparator, Bool.or_eq_true, beq_iff_eq] at hsep
            rcases hsep with (rfl | rfl) | rfl
            · exact absurd halnum (by decide)
            · exact absurd halnum (by decide)
            · rfl
      subst hc
      rw [isSlugTail, Bool.and_eq_true]
      exact ⟨h.1, ih h.2 fun c hc => hplain c (by simp [hc])⟩
  | case3 c d cs hsep ih =>
      rw [Bool.and_eq_true] at h
      rw [isSlugTail_cons (isLowerAlnum_ne_hyphen h.1), Bool.and_eq_true]
      exact ⟨h.1, ih h.2 fun c hc => hplain c (List.mem_cons_of_mem _ hc)⟩
  | case4 c =>
      rw [isSlugTail_cons (isLowerAlnum_ne_hyphen h), h]
      rfl

/-- A product keeps its name exactly if the name is a slug: no dots, no underscores, and at most
63 characters. -/
theorem slug_eq_self_iff [Platform] (id : BundleId) :
    slug id.val = id.val ↔ isSlug id.val.toList = true := by
  constructor
  · intro h
    have hplain : ∀ c ∈ id.val.toList, c.isAlphanum = true ∨ c = '-' := by
      intro c hc
      rw [← h] at hc
      exact mem_slug hc
    have hlength := length_slug_le id.val
    rw [h] at hlength
    have hid := id.ok
    rw [isBundleId, Bool.and_eq_true] at hid
    rw [isSlug, Bool.and_eq_true, decide_eq_true_eq]
    refine ⟨hlength, ?_⟩
    cases hcs : id.val.toList with
    | nil =>
        rw [hcs] at hid
        exact absurd hid.2 (by decide)
    | cons c cs =>
        rw [hcs] at hid hplain
        rw [isBundleIdPattern, Bool.and_eq_true] at hid
        rw [isSlugPattern, Bool.and_eq_true]
        exact ⟨hid.2.1, isSlugTail_of_isBundleIdTail hid.2.2 fun c hc => hplain c (by simp [hc])⟩
  · exact slug_of_isSlug

end Ophelia
