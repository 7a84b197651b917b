import Ophelia.Lib.GoJson
import Ophelia.Products.BundleContracts

/-!
# Ophelia.Products.GoEncoding

The digest of a contract document (`_validate_value_digest` in `product_bundle.py`). The producer
hashes what Go's `encoding/json` writes for a value; the consumer hashes what Python writes for it,
with three bytes replaced by the escapes that Go uses for them.

Go escapes two more characters, the line separators U+2028 and U+2029. The bytes are Go's exactly
for documents without these characters in their texts (`hashedBytes_eq_iff`), and no check of a
document's shape excludes them.
-/

namespace Ophelia

open Json (Piece GoRelease)

/-! ### The bytes -/

abbrev Bytes := List UInt8

/-- `text.encode("utf-8")`. -/
def utf8Bytes (cs : List Char) : Bytes := cs.flatMap String.utf8EncodeChar

/-- `data.replace(old, new)`, for a single byte. -/
def replaceByte (old : UInt8) (new : Bytes) (data : Bytes) : Bytes :=
  data.flatMap fun b => if b = old then new else [b]

/-- `replacement[field] = ""`. -/
def emptied (value : Json) (field : String) : Json :=
  match value with
  | .obj ms => .obj (ms.map fun m => if m.1 = field then (m.1, .str "") else m)
  | j => j

/-- `encoded.replace(b"<", ...).replace(b">", ...).replace(b"&", ...)`. -/
def htmlEscaped (data : Bytes) : Bytes :=
  replaceByte 0x26 (utf8Bytes "\\u0026".toList)
    (replaceByte 0x3e (utf8Bytes "\\u003e".toList)
      (replaceByte 0x3c (utf8Bytes "\\u003c".toList) data))

/-- The bytes that `_validate_value_digest` hashes. -/
def hashedBytes (field : String) (value : Json) : Bytes :=
  htmlEscaped (utf8Bytes (emptied value field).plainText ++ [0x0a])

/-- The bytes that Go writes for the value with its digest field emptied. -/
def goBytes (go : GoRelease) (field : String) (value : Json) : Bytes :=
  utf8Bytes ((emptied value field).goText go)

/-! ### Piece by piece -/

/-- What is hashed for a piece. -/
def hashedPiece (p : Piece) : Bytes := htmlEscaped (utf8Bytes (Json.plainPiece p))

def goBytesPiece (go : GoRelease) (p : Piece) : Bytes := utf8Bytes (Json.goPiece go p)

theorem replaceByte_append (old : UInt8) (new a b : Bytes) :
    replaceByte old new (a ++ b) = replaceByte old new a ++ replaceByte old new b :=
  List.flatMap_append

theorem replaceByte_flatMap {α : Type} (old : UInt8) (new : Bytes) (f : α → Bytes) (l : List α) :
    replaceByte old new (l.flatMap f) = l.flatMap fun a => replaceByte old new (f a) :=
  List.flatMap_assoc

theorem hashedBytes_eq_flatMap (field : String) (value : Json) :
    hashedBytes field value = (emptied value field).pieces.flatMap hashedPiece ++ [0x0a] := by
  have hutf8 : utf8Bytes (emptied value field).plainText =
      (emptied value field).pieces.flatMap fun p => utf8Bytes (Json.plainPiece p) :=
    List.flatMap_assoc
  rw [hashedBytes, htmlEscaped, hutf8, replaceByte_append, replaceByte_append, replaceByte_append,
    replaceByte_flatMap, replaceByte_flatMap, replaceByte_flatMap]
  rfl

theorem goBytes_eq_flatMap (go : GoRelease) (field : String) (value : Json) :
    goBytes go field value =
      (emptied value field).pieces.flatMap (goBytesPiece go) ++ [0x0a] := by
  rw [goBytes, Json.goText, utf8Bytes, List.flatMap_append, List.flatMap_assoc]
  rfl

/-! ### Characters -/

/-- The characters of which Go writes more than is hashed. -/
def isCorner (go : GoRelease) (c : Char) : Bool :=
  c == '\u2028' || c == '\u2029' || (!go.shortEscapes && (c == '\x08' || c == '\x0c'))

theorem mem_utf8EncodeChar {c : Char} (hc : 128 ≤ c.toNat) {b : UInt8}
    (hb : b ∈ String.utf8EncodeChar c) : 128 ≤ b.toNat := by
  have hval : ¬ c.val.toNat ≤ 0x7f := by
    have heq : c.toNat = c.val.toNat := rfl
    omega
  unfold String.utf8EncodeChar at hb
  simp only [if_neg hval] at hb
  split at hb
  · simp only [List.mem_cons, List.not_mem_nil, or_false] at hb
    rcases hb with rfl | rfl
    all_goals
      rw [UInt8.toNat_ofNat']
      omega
  · split at hb
    · simp only [List.mem_cons, List.not_mem_nil, or_false] at hb
      rcases hb with rfl | rfl | rfl
      all_goals
        rw [UInt8.toNat_ofNat']
        omega
    · simp only [List.mem_cons, List.not_mem_nil, or_false] at hb
      rcases hb with rfl | rfl | rfl | rfl
      all_goals
        rw [UInt8.toNat_ofNat']
        omega

theorem replaceByte_of_high {old : UInt8} (hold : old.toNat < 128) (new : Bytes) {data : Bytes}
    (h : ∀ b ∈ data, 128 ≤ b.toNat) : replaceByte old new data = data := by
  induction data with
  | nil => rfl
  | cons b data ih =>
      have hne : b ≠ old := by
        rintro rfl
        have hb := h b List.mem_cons_self
        omega
      rw [replaceByte, List.flatMap_cons, if_neg hne, List.singleton_append]
      exact congrArg (b :: ·) (ih fun d hd => h d (List.mem_cons_of_mem b hd))

/-- Bytes of characters outside ASCII are not replaced. -/
theorem htmlEscaped_of_high {data : Bytes} (h : ∀ b ∈ data, 128 ≤ b.toNat) :
    htmlEscaped data = data := by
  rw [htmlEscaped, replaceByte_of_high (by decide) _ h, replaceByte_of_high (by decide) _ h,
    replaceByte_of_high (by decide) _ h]

/-- The two writers on one character: they agree, or Go writes more. -/
def Compared (go : GoRelease) (c : Char) : Prop :=
  if isCorner go c then (hashedPiece (.text c)).length < (goBytesPiece go (.text c)).length
  else hashedPiece (.text c) = goBytesPiece go (.text c)

theorem compared_low (go : GoRelease) {c : Char} (hc : c.toNat < 128) : Compared go c := by
  have hall : ∀ short : Bool, ∀ n : Nat, n < 128 →
      if isCorner ⟨short, fun _ => []⟩ (Char.ofNat n) then
        (hashedPiece (.text (Char.ofNat n))).length <
          (goBytesPiece ⟨short, fun _ => []⟩ (.text (Char.ofNat n))).length
      else hashedPiece (.text (Char.ofNat n)) =
        goBytesPiece ⟨short, fun _ => []⟩ (.text (Char.ofNat n)) := by decide +kernel
  have hchar := hall go.shortEscapes c.toNat hc
  rwa [Char.ofNat_toNat] at hchar

theorem compared_high (go : GoRelease) {c : Char} (hc : 128 ≤ c.toNat) : Compared go c := by
  have hne : ∀ d : Char, d.toNat < 128 → c ≠ d := by
    rintro d hd rfl
    omega
  have hplain : Json.plainEscape c = [c] := by
    unfold Json.plainEscape
    rw [if_neg (hne _ (by decide)), if_neg (hne _ (by decide)), if_neg (hne _ (by decide)),
      if_neg (hne _ (by decide)), if_neg (hne _ (by decide)), if_neg (hne _ (by decide)),
      if_neg (hne _ (by decide)), if_neg (by omega)]
  have hgo : Json.goEscape go c = if c = '\u2028' ∨ c = '\u2029' then Json.escapeUnit c.toNat
      else [c] := by
    unfold Json.goEscape
    rw [if_neg (hne _ (by decide)), if_neg (hne _ (by decide)), if_neg (hne _ (by decide)),
      if_neg (hne _ (by decide)), if_neg (hne _ (by decide)),
      if_neg (fun h => hne _ (by decide) h.1), if_neg (fun h => hne _ (by decide) h.1)]
    have hlow : ¬ c.toNat < 32 := by omega
    simp only [hlow, false_or, List.mem_cons, List.not_mem_nil, or_false,
      hne '<' (by decide), hne '>' (by decide), hne '&' (by decide)]
  have hcorner : isCorner go c = decide (c = '\u2028' ∨ c = '\u2029') := by
    rw [isCorner, beq_false_of_ne (hne '\x08' (by decide)),
      beq_false_of_ne (hne '\x0c' (by decide)), Bool.or_false, Bool.and_false, Bool.or_false,
      Bool.decide_or]
    rfl
  have hhashed : hashedPiece (.text c) = String.utf8EncodeChar c := by
    rw [hashedPiece, Json.plainPiece, hplain, utf8Bytes, List.flatMap_singleton]
    exact htmlEscaped_of_high fun b hb => mem_utf8EncodeChar hc hb
  unfold Compared
  rw [hhashed, hcorner, goBytesPiece, Json.goPiece, hgo]
  by_cases h : c = '\u2028' ∨ c = '\u2029'
  · rw [if_pos (by exact decide_eq_true h), if_pos h]
    rcases h with rfl | rfl
    · decide
    · decide
  · rw [if_neg (by simpa using h), if_neg h, utf8Bytes, List.flatMap_singleton]

theorem compared (go : GoRelease) (c : Char) : Compared go c := by
  rcases Nat.lt_or_ge c.toNat 128 with hc | hc
  · exact compared_low go hc
  · exact compared_high go hc

theorem hashedPiece_mark {c : Char} (h : Json.isMark c = true) (go : GoRelease) :
    hashedPiece (.mark c) = goBytesPiece go (.mark c) := by
  have hall : ∀ n : Nat, n < 128 → Json.isMark (Char.ofNat n) = true →
      htmlEscaped (utf8Bytes [Char.ofNat n]) = utf8Bytes [Char.ofNat n] := by decide +kernel
  rw [Json.isMark, Bool.and_eq_true, decide_eq_true_eq] at h
  have hchar := hall c.toNat h.1
  rw [Char.ofNat_toNat] at hchar
  exact hchar (by rw [Json.isMark, Bool.and_eq_true, decide_eq_true_eq]; exact h)

/-! ### Documents without floating-point numbers -/

/-- On a value without floating-point numbers the two writers agree if and only if no text of it
holds a character of which Go writes more. -/
theorem hashedBytes_eq_iff_of_floatFree (go : GoRelease) {field : String} {value : Json}
    (h : (emptied value field).FloatFree) : hashedBytes field value = goBytes go field value ↔
      ∀ c ∈ (emptied value field).textChars, isCorner go c = false := by
  have hcompare : ∀ p ∈ (emptied value field).pieces, hashedPiece p = goBytesPiece go p ∨
      (hashedPiece p).length < (goBytesPiece go p).length := by
    intro p hp
    cases p with
    | mark c => exact .inl (hashedPiece_mark (Json.marksOk_pieces _ c hp) go)
    | float r => exact absurd hp (h r)
    | text c =>
        have hc := compared go c
        unfold Compared at hc
        split at hc
        · exact .inr hc
        · exact .inl hc
  rw [hashedBytes_eq_flatMap, goBytes_eq_flatMap, List.append_left_inj, Json.flatMap_eq_iff hcompare]
  constructor
  · intro hall c hc
    have heq := hall _ (Json.mem_textChars.mp hc)
    by_contra hcorner
    have hlt := compared go c
    unfold Compared at hlt
    rw [if_pos (Bool.not_eq_false _ ▸ hcorner), heq] at hlt
    exact lt_irrefl _ hlt
  · intro hall p hp
    cases p with
    | mark c => exact hashedPiece_mark (Json.marksOk_pieces _ c hp) go
    | float r => exact absurd hp (h r)
    | text c =>
        have hc := compared go c
        unfold Compared at hc
        rwa [hall c (Json.mem_textChars.mpr hp), if_neg Bool.false_ne_true] at hc

/-! ### Accepted documents hold no floating-point numbers -/

namespace BundleContracts

/-- A check that accepts no value with a floating-point number. -/
def Sound (check : Json → ContractCheck) : Prop :=
  ∀ v, v.strict = true → check v = .ok () → v.FloatFree

theorem sound_textWith {p : List Char → Bool} {message : String} : Sound (textWith p message) := by
  intro v _ h
  cases v with
  | str s => exact Json.floatFree_str s
  | _ => cases h

theorem sound_integer {owner : String} {minimum : Int} {maximum : Option Int} :
    Sound (integer · owner minimum maximum) := by
  intro v _ h
  cases v with
  | int n => exact Json.floatFree_int n
  | _ => cases h

theorem sound_boolean {owner : String} : Sound (boolean · owner) := by
  intro v _ h
  cases v with
  | bool b => exact Json.floatFree_bool b
  | _ => cases h

theorem sound_member? {options : List String} {message : String} :
    Sound (member? · options message) := by
  intro v _ h
  cases v with
  | str s => exact Json.floatFree_str s
  | _ => cases h

theorem sound_equal {expected message : String} :
    Sound fun v => if v = .str expected then .ok () else .error message := by
  intro v _ h
  by_cases hv : v = .str expected
  · rw [hv]
    exact Json.floatFree_str expected
  · cases (if_neg hv).symm.trans h

theorem sound_safePathOrDot {owner : String} : Sound (safePathOrDot · owner) := by
  intro v hstrict h
  by_cases hv : v = .str "."
  · rw [hv]
    exact Json.floatFree_str "."
  · exact sound_textWith v hstrict ((if_neg hv).symm.trans h)

/-- What a list holds, if it is one. -/
theorem list_eq_ok {value : Json} {owner : String} {minimum : Nat} {items : List Json}
    (h : list value owner minimum = .ok items) : value = .arr items := by
  cases value with
  | arr xs =>
      change (if _ then _ else _) = _ at h
      split_ifs at h
      cases h
      rfl
  | _ => cases h

theorem eachItem_eq_ok {body : List Json → Json → ContractCheck} {seen items : List Json}
    (h : eachItem body seen items = .ok ()) : ∀ item ∈ items, ∃ seen, body seen item = .ok () := by
  induction items generalizing seen with
  | nil => exact fun _ hitem => absurd hitem List.not_mem_nil
  | cons first rest ih =>
      rw [eachItem] at h
      cases hbody : body seen first with
      | error e =>
          rw [hbody] at h
          cases h
      | ok u =>
          rw [hbody] at h
          exact List.forall_mem_cons.mpr ⟨⟨seen, hbody⟩, ih h⟩

theorem forM_eq_ok {α : Type} {f : α → ContractCheck} {l : List α} (h : l.forM f = .ok ()) :
    ∀ a ∈ l, f a = .ok () := by
  induction l with
  | nil => exact fun _ ha => absurd ha List.not_mem_nil
  | cons first rest ih =>
      change (f first >>= fun _ => rest.forM f) = _ at h
      cases hfirst : f first with
      | error e =>
          rw [hfirst] at h
          cases h
      | ok u =>
          rw [hfirst] at h
          exact List.forall_mem_cons.mpr ⟨hfirst, ih h⟩

theorem sound_listOf {body : List Json → Json → ContractCheck} (hbody : ∀ seen, Sound (body seen))
    {owner : String} {minimum : Nat} : Sound (listOf owner minimum body) := by
  intro v hstrict h
  unfold listOf at h
  cases hlist : list v owner minimum with
  | error e =>
      rw [hlist] at h
      cases h
  | ok items =>
      rw [hlist] at h
      obtain rfl := list_eq_ok hlist
      refine Json.floatFree_arr fun item hitem => ?_
      obtain ⟨seen, hseen⟩ := eachItem_eq_ok h item hitem
      exact hbody seen item (Json.strict_of_mem_items hstrict hitem) hseen

theorem floatFree_of_uniqueStrings {owner : String} {v : Json} {texts : List String}
    (h : uniqueStrings v owner = .ok texts) : v.FloatFree := by
  unfold uniqueStrings at h
  cases hlist : list v owner 1 with
  | error e =>
      rw [hlist] at h
      cases h
  | ok items =>
      rw [hlist] at h
      obtain rfl := list_eq_ok hlist
      refine Json.floatFree_arr fun item hitem => ?_
      cases item with
      | str s => exact Json.floatFree_str s
      | _ =>
          change (if _ then _ else _) = _ at h
          rw [if_pos] at h
          · cases h
          · refine .inl fun hlength => ?_
            have hsome := List.filterMap_length_eq_length.mp hlength _ hitem
            cases hsome

theorem sound_uniqueStrings {owner : String} :
    Sound (fun v => do let _ ← uniqueStrings v owner) := by
  intro v _ h
  cases htexts : uniqueStrings v owner with
  | error e =>
      simp only [htexts] at h
      cases h
  | ok texts => exact floatFree_of_uniqueStrings htexts

theorem sound_uniqueIds {owner : String} :
    Sound (fun v => do let _ ← uniqueIds v owner) := by
  intro v _ h
  cases htexts : uniqueStrings v owner with
  | error e =>
      simp only [uniqueIds, htexts] at h
      cases h
  | ok texts => exact floatFree_of_uniqueStrings htexts

/-! ### Records -/

/-- A step that accepts no object with a floating-point number in its field. -/
def RecordStep.Sound : RecordStep → Prop
  | .field name _ check => ∀ item v, item.strict = true → v.strict = true →
      item.get? name = some v → check item = .ok () → v.FloatFree
  | .also _ => True

theorem sound_required {check : Json → ContractCheck} (h : Sound check) {name : String} :
    (required name check).Sound := by
  intro item v _ hv hget hcheck
  change check (member item name) = .ok () at hcheck
  rw [member, hget] at hcheck
  exact h v hv hcheck

theorem sound_optional {check : Json → ContractCheck} (h : Sound check) {name : String} :
    (optional name check).Sound := by
  intro item v _ hv hget hcheck
  simp only [hget] at hcheck
  exact h v hv hcheck

theorem mem_fieldNames {isRequired : Bool} {steps : List RecordStep} {name : String}
    (h : name ∈ fieldNames isRequired steps) : ∃ check, .field name isRequired check ∈ steps := by
  obtain ⟨step, hstep, hname⟩ := List.mem_filterMap.mp h
  cases step with
  | field n r check =>
      simp only at hname
      split at hname
      · rename_i hr
        cases hname
        exact ⟨check, hr ▸ hstep⟩
      · cases hname
  | also check => cases hname

/-- What `_shape` accepts is an object, and each of its keys is one of the fields. -/
theorem shape_eq_ok {value : Json} {owner : String} {required optional : List String}
    (h : shape value owner required optional = .ok ()) :
    ∃ ms, value = .obj ms ∧ ∀ m ∈ ms, m.1 ∈ required ∨ m.1 ∈ optional := by
  unfold shape at h
  cases value with
  | obj ms =>
      simp only [isMapping, Bool.true_eq_false, if_false] at h
      split_ifs at h with hmissing hunknown
      refine ⟨ms, rfl, fun m hm => ?_⟩
      by_contra hnot
      rw [not_or] at hnot
      rw [not_ne_iff, List.filter_eq_nil_iff] at hunknown
      exact hunknown m.1 (List.mem_map_of_mem hm) (decide_eq_true hnot)
  | _ => cases h

theorem sound_record {owner : String} {steps : List RecordStep} (hsteps : steps.Forall RecordStep.Sound) :
    Sound (record owner steps) := by
  intro v hstrict h
  unfold record at h
  cases hshape : shape v owner (fieldNames true steps) (fieldNames false steps) with
  | error e =>
      rw [hshape] at h
      cases h
  | ok u =>
      rw [hshape] at h
      obtain ⟨ms, rfl, hkeys⟩ := shape_eq_ok hshape
      have hchecks := forM_eq_ok h
      refine Json.floatFree_obj fun m hm => ?_
      have hfield : ∃ r check, .field m.1 r check ∈ steps := by
        rcases hkeys m hm with hkey | hkey
        · exact ⟨true, mem_fieldNames hkey⟩
        · exact ⟨false, mem_fieldNames hkey⟩
      obtain ⟨r, check, hstep⟩ := hfield
      exact List.forall_iff_forall_mem.mp hsteps _ hstep _ m.2 hstrict (Json.strict_of_mem_members hstrict hm)
        (Json.get?_of_mem_members hstrict hm) (hchecks _ hstep)

/-! ### The contracts -/

theorem sound_stackFacet (seen : List Json) : Sound (stackFacet seen) :=
  sound_record ⟨sound_required sound_textWith, trivial, sound_required sound_member?,
    sound_required sound_safePathOrDot, sound_required sound_textWith, trivial⟩

theorem sound_validateStack : Sound validateStack :=
  sound_record ⟨sound_required sound_textWith, sound_required sound_textWith,
    sound_required sound_textWith, sound_required sound_textWith,
    sound_optional (sound_listOf sound_stackFacet)⟩

theorem sound_dataset (owner : String) (seen : List Json) : Sound (dataset owner seen) :=
  sound_record ⟨sound_required sound_textWith, sound_required sound_textWith,
    sound_required sound_textWith, sound_optional sound_textWith,
    sound_required sound_member?, sound_required sound_member?,
    sound_required sound_member?, sound_required sound_textWith,
    sound_required sound_textWith, sound_required sound_integer,
    sound_required sound_uniqueIds, trivial⟩

theorem sound_validateDatasets {owner : String} : Sound (validateDatasets owner) :=
  sound_listOf (sound_dataset owner)

theorem sound_bundleDocument (seen : List Json) : Sound (bundleDocument seen) :=
  sound_record ⟨sound_required sound_member?, sound_required sound_textWith,
    sound_required sound_textWith⟩

theorem sound_constantField {name expected : String} : (constantField name expected).Sound :=
  sound_required sound_equal

theorem sound_bundleDocuments : Sound bundleDocuments := by
  have hlisted : Sound (listOf "documents" 3 bundleDocument) := sound_listOf sound_bundleDocument
  intro v hstrict h
  refine hlisted v hstrict ?_
  unfold bundleDocuments at h
  unfold listOf
  cases hlist : list v "documents" 3 with
  | error e =>
      rw [hlist] at h
      cases h
  | ok items =>
      rw [hlist] at h
      change (if _ then _ else _) = _ at h
      split at h
      · cases h
      · cases heach : eachItem bundleDocument [] items with
        | error e =>
            rw [heach] at h
            cases h
        | ok u => exact heach

theorem sound_validateBundle : Sound validateBundle :=
  sound_record ⟨sound_constantField, sound_constantField, sound_required sound_textWith,
    sound_required sound_textWith, sound_required sound_textWith,
    sound_required sound_textWith, sound_required sound_bundleDocuments⟩

theorem sound_processArgv : Sound processArgv := by
  intro v hstrict h
  unfold processArgv at h
  cases hlist : list v "process argv" 1 with
  | error e =>
      rw [hlist] at h
      cases h
  | ok items =>
      rw [hlist] at h
      obtain rfl := list_eq_ok hlist
      refine Json.floatFree_arr fun item hitem => ?_
      exact sound_textWith item (Json.strict_of_mem_items hstrict hitem)
        (forM_eq_ok h item hitem)

theorem sound_processFacet {facets : List String} : (processFacet facets).Sound := by
  intro item v _ hv hget hcheck
  cases v with
  | null => exact Json.floatFree_null
  | str s => exact Json.floatFree_str s
  | _ =>
      simp only [hget] at hcheck
      cases hcheck

/-- A field whose check sees the whole object. -/
theorem sound_field {check : Json → Json → ContractCheck} (h : ∀ item, Sound (check item))
    {name : String} {isRequired : Bool} :
    (RecordStep.field name isRequired fun item => check item (member item name)).Sound := by
  intro item v _ hv hget hcheck
  change check item (member item name) = .ok () at hcheck
  rw [member, hget] at hcheck
  exact h item v hv hcheck

theorem sound_runtimeProcess (facets : List String) (seen : List Json) :
    Sound (runtimeProcess facets seen) :=
  sound_record ⟨sound_required sound_textWith, sound_required sound_textWith,
    sound_processFacet, sound_required sound_processArgv,
    sound_required sound_integer, sound_required sound_integer, trivial⟩

theorem sound_runtimePort (processes : List String) (seen : List Json) :
    Sound (runtimePort processes seen) :=
  sound_record ⟨sound_required sound_textWith, sound_required sound_member?,
    sound_required sound_member?, sound_required sound_member?,
    sound_required sound_integer, trivial⟩

theorem sound_runtimeHealth (processes ports : List String) (seen : List Json) :
    Sound (runtimeHealth processes ports seen) :=
  sound_record ⟨sound_required sound_textWith, sound_required sound_member?,
    sound_required sound_member?, sound_required sound_member?,
    sound_required sound_textWith, sound_required sound_integer,
    sound_field (fun _ => sound_integer),
    trivial⟩

theorem sound_runtimeEnvironment (seen : List Json) : Sound (runtimeEnvironment seen) :=
  sound_record ⟨sound_required sound_textWith, sound_required sound_textWith,
    sound_required sound_textWith, sound_required sound_boolean,
    sound_required sound_boolean, sound_optional sound_uniqueStrings, trivial⟩

theorem sound_runtimeSecret (seen : List Json) : Sound (runtimeSecret seen) :=
  sound_record ⟨sound_required sound_textWith, sound_required sound_textWith,
    sound_required sound_textWith, sound_required sound_boolean, trivial⟩

theorem sound_runtimeProvider (seen : List Json) : Sound (runtimeProvider seen) :=
  sound_record ⟨sound_required sound_textWith, sound_required sound_textWith,
    sound_required sound_boolean, trivial⟩

theorem sound_runtimeLifecycle : Sound runtimeLifecycle :=
  sound_record ⟨sound_required sound_member?, sound_required sound_member?,
    sound_required sound_integer⟩

theorem sound_validateRuntime : Sound validateRuntime :=
  sound_record ⟨sound_constantField, sound_constantField, sound_required sound_textWith,
    sound_required sound_textWith, sound_required sound_textWith,
    sound_required sound_validateStack,
    sound_field (fun _ => sound_listOf (sound_runtimeProcess _)),
    sound_field (fun _ => sound_listOf (sound_runtimePort _)),
    sound_field (fun _ => sound_listOf (sound_runtimeHealth _ _)),
    sound_optional (sound_listOf sound_runtimeEnvironment),
    sound_optional (sound_listOf sound_runtimeSecret),
    sound_optional (sound_listOf sound_runtimeProvider),
    sound_required sound_validateDatasets, sound_required sound_runtimeLifecycle⟩

theorem sound_releaseProvenance : Sound releaseProvenance :=
  sound_record ⟨sound_required sound_textWith, sound_required sound_textWith,
    sound_required sound_textWith⟩

theorem sound_artifactPlatform : Sound artifactPlatform :=
  sound_record ⟨sound_required sound_member?, sound_required sound_textWith,
    sound_required sound_boolean, sound_required sound_textWith⟩

theorem sound_releaseArtifact (seen : List Json) : Sound (releaseArtifact seen) :=
  sound_record ⟨sound_required sound_textWith, trivial, sound_required sound_member?,
    sound_required sound_textWith, sound_required sound_textWith,
    sound_required sound_textWith, sound_required sound_integer,
    sound_required sound_artifactPlatform⟩

theorem sound_releaseConfiguration (seen : List Json) : Sound (releaseConfiguration seen) :=
  sound_record ⟨sound_required sound_textWith, sound_required sound_boolean,
    sound_required sound_boolean, trivial⟩

theorem sound_releaseMigration (seen : List Json) : Sound (releaseMigration seen) :=
  sound_record ⟨sound_required sound_textWith, sound_required sound_textWith,
    sound_required sound_textWith, trivial⟩

theorem sound_releaseCapability (seen : List Json) : Sound (releaseCapability seen) :=
  sound_record ⟨sound_required sound_textWith, sound_required sound_textWith,
    sound_required sound_textWith, sound_required sound_textWith,
    sound_required sound_textWith, sound_required sound_textWith, trivial⟩

theorem sound_releaseCompatibility : Sound releaseCompatibility :=
  sound_record ⟨sound_required sound_equal, sound_required sound_equal,
    sound_required sound_equal⟩

theorem sound_releaseRollout : Sound releaseRollout :=
  sound_record ⟨sound_required sound_member?, sound_required sound_member?,
    sound_required sound_member?, sound_required sound_uniqueIds⟩

theorem sound_validateRelease : Sound validateRelease :=
  sound_record ⟨sound_constantField, sound_constantField, sound_required sound_textWith,
    sound_required sound_textWith, sound_required sound_textWith,
    sound_required sound_validateStack, sound_required sound_releaseProvenance,
    sound_required (sound_listOf sound_releaseArtifact),
    sound_optional (sound_listOf sound_releaseConfiguration),
    sound_optional (sound_listOf sound_releaseMigration),
    sound_required (sound_listOf sound_releaseCapability),
    sound_required sound_releaseCompatibility, sound_required sound_releaseRollout⟩

theorem sound_recoveryObjectives : Sound recoveryObjectives :=
  sound_record ⟨sound_required sound_integer, sound_required sound_integer,
    sound_required sound_integer⟩

theorem sound_recoveryValidation (datasets : List String) (seen : List Json) :
    Sound (recoveryValidation datasets seen) :=
  sound_record ⟨sound_required sound_member?, sound_required sound_uniqueIds⟩

theorem sound_validateRecovery : Sound validateRecovery :=
  sound_record ⟨sound_constantField, sound_constantField, sound_required sound_textWith,
    sound_required sound_textWith, sound_required sound_textWith,
    sound_required sound_recoveryObjectives, sound_required sound_validateDatasets,
    sound_required sound_uniqueIds, sound_required sound_uniqueIds, trivial,
    sound_field (fun _ => sound_listOf (sound_recoveryValidation _)), trivial⟩

/-- No document that a shape validator accepts holds a floating-point number. -/
theorem sound_validate (contract : Contract) : Sound contract.validate := by
  cases contract with
  | bundle => exact sound_validateBundle
  | runtime => exact sound_validateRuntime
  | release => exact sound_validateRelease
  | recovery => exact sound_validateRecovery

end BundleContracts

/-! ### The digest of a document -/

theorem floatFree_emptied {value : Json} (h : value.FloatFree) (field : String) :
    (emptied value field).FloatFree := by
  cases value with
  | obj ms =>
      refine Json.floatFree_obj fun m hm => ?_
      obtain ⟨n, hn, rfl⟩ := List.mem_map.mp hm
      split
      · exact Json.floatFree_str ""
      · exact h.member hn
  | _ => exact h

open BundleContracts

/-- The bytes hashed for an accepted document are Go's if and only if no text of it holds a line
separator (or, for releases of Go without short escapes for them, a backspace or a form feed). -/
theorem hashedBytes_eq_iff (go : GoRelease) (contract : Contract) {document : Json}
    (hstrict : document.strict = true) (h : contract.validate document = .ok ()) :
    hashedBytes contract.digestField document = goBytes go contract.digestField document ↔
      ∀ c ∈ (emptied document contract.digestField).textChars, isCorner go c = false :=
  hashedBytes_eq_iff_of_floatFree go
    (floatFree_emptied (sound_validate contract document hstrict h) contract.digestField)

/-- A recovery contract of one dataset, of the given kind. -/
def recoveryDocument (kind : String) : Json :=
  let digest := "sha256:0123456789abcdef0123456789abcdef0123456789abcdef0123456789abcdef"
  .obj [
    ("schema_version", .str "product.recovery-contract/v1"),
    ("kind", .str "product.recovery-contract"),
    ("contract_digest", .str digest),
    ("product_id", .str "acme"),
    ("composition_digest", .str digest),
    ("objectives", .obj [("rpo_hours", .int 24), ("rto_hours", .int 4), ("retention_days", .int 30)]),
    ("datasets", .arr [.obj [
      ("id", .str "main"), ("owner", .str "acme"), ("kind", .str kind),
      ("binding", .str "stack-owned"), ("consistency", .str "crash-consistent"),
      ("consistency_group", .str "main"), ("backup", .str "required"),
      ("quiescence", .str "none"), ("backup_order", .int 1),
      ("restore_validations", .arr [.str "rows"])]]),
    ("backup_order", .arr [.str "main"]),
    ("restore_order", .arr [.str "main"]),
    ("validation_order", .arr [.obj [("dataset_id", .str "main"), ("checks", .arr [.str "rows"])]])]

/-- A release of Go with the short escapes. -/
def currentGo : GoRelease where
  shortEscapes := true
  float r := r.text

/-- The comparison sign is escaped by both. -/
theorem hashedBytes_eq_sqlite :
    hashedBytes "contract_digest" (recoveryDocument "sqlite > 3") =
      goBytes currentGo "contract_digest" (recoveryDocument "sqlite > 3") := by
  have hstrict : (recoveryDocument "sqlite > 3").strict = true := by decide +kernel
  have haccepted : Contract.recovery.validate (recoveryDocument "sqlite > 3") = .ok () := by
    decide +kernel
  refine (hashedBytes_eq_iff currentGo .recovery hstrict haccepted).mpr ?_
  exact List.forall_iff_forall_mem.mp (by decide +kernel)

/-- A dataset kind with a line separator is accepted, and the bytes differ. -/
theorem lineSeparator_differs : (recoveryDocument "sqlite\u20283").strict = true ∧
    Contract.recovery.validate (recoveryDocument "sqlite\u20283") = .ok () ∧
    hashedBytes "contract_digest" (recoveryDocument "sqlite\u20283") ≠
      goBytes currentGo "contract_digest" (recoveryDocument "sqlite\u20283") := by
  have hstrict : (recoveryDocument "sqlite\u20283").strict = true := by decide +kernel
  have haccepted : Contract.recovery.validate (recoveryDocument "sqlite\u20283") = .ok () := by
    decide +kernel
  have hseparator : '\u2028' ∈
      (emptied (recoveryDocument "sqlite\u20283") "contract_digest").textChars := by
    decide +kernel
  have hfloatFree := floatFree_emptied (sound_validate .recovery _ hstrict haccepted) "contract_digest"
  refine ⟨hstrict, haccepted, fun heq => ?_⟩
  have hcorner := (hashedBytes_eq_iff_of_floatFree currentGo hfloatFree).mp heq _ hseparator
  revert hcorner
  decide

end Ophelia
