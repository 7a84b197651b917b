import Ophelia.Domain.Contracts

/-!
# Ophelia.Domain.Codec

The codecs of the field types, and how they combine into the codec of a contract.

A contract is serialized as a mapping of its schema version, its kind and its fields
(`contract`), made secret-safe. Reading goes through `Holds`: the parsed payload of a
contract holds, under each key, the serialized field with its strings masked. A
`from_payload` function is proved right by citing `Codec.field_of_holds` once per field;
the order of the keys in the text and the redaction of the whole never come up again.
-/

namespace Ophelia

/-! ### Fields -/

namespace Codec

variable {α : Type}

def digest : Codec Digest :=
  refined isSha256 (fun name => name ++ " must be a sha256:<64 lowercase hex> digest.")
    fun _ h => not_secret_of_isSha256 h

def slug : Codec Slug :=
  refined isSlug (fun name => name ++ " must be a 1-63 character lowercase Ophelia slug.")
    isSlug_safe

def entityId (e : Entity) : Codec (EntityId e) :=
  refined (isEntityId e) (fun name => name ++ " must be an Ophelia " ++ e.name ++ " identifier.")
    (isEntityId_safe e)

def operationName : Codec OperationName :=
  refined isOperation (fun _ => "operation must be a dotted lowercase operation name.")
    isOperation_safe

def utc [Platform] : Codec Utc :=
  refined isUtc (fun name => name ++ " must be a UTC timestamp.") isUtc_safe

end Codec

theorem isText_maskText {n : Nat} (hn : 10 ≤ n) {s : String} (h : isText n s.toList = true) :
    isText n (maskText s).toList = true := by
  unfold maskText
  split
  · have hlen : REDACTED.toList.length = 10 := by decide
    simp only [isText, hlen, Bool.and_eq_true, decide_eq_true_eq]
    exact ⟨⟨by decide, hn⟩, by decide⟩
  · exact h

/-- `require_text`: the length is checked before the control characters. -/
def requireText (n : Nat) (name : String) (j : Json) : Result (Text n) :=
  match j with
  | .str s =>
      if h : isText n s.toList = true then .ok ⟨s, h⟩
      else if s = "" ∨ n < s.toList.length then
        .error (.contractValidation
          (name ++ " must be a non-empty string of at most " ++ n.repr ++ " characters."))
      else .error (.contractValidation (name ++ " must not contain control characters."))
  | _ =>
      .error (.contractValidation
        (name ++ " must be a non-empty string of at most " ++ n.repr ++ " characters."))

@[simp] theorem requireText_val {n : Nat} (name : String) (t : Text n) :
    requireText n name (.str t.val) = .ok t := by
  simp [requireText, t.ok]

/-- Free text with the shape of a credential is masked. -/
def Text.masked {n : Nat} (hn : 10 ≤ n) (t : Text n) : Text n :=
  ⟨maskText t.val, isText_maskText hn t.ok⟩

namespace Codec

variable {α : Type}

/-- Free text of at most `n` characters. -/
def text (n : Nat) (hn : 10 ≤ n) : Codec (Text n) where
  enc t := .str t.val
  read name := requireText n name
  masked := Text.masked hn
  plain_enc _ := rfl
  read_enc name t := by
    rw [mask, Json.sortKeys]
    · exact requireText_val name (Text.masked hn t)
    all_goals simp
  mask_enc t := by simp [mask, Text.masked]

/-- Free text under the bounds the contracts use. -/
def text128 : Codec (Text 128) := text 128 (by decide)

def text255 : Codec (Text 255) := text 255 (by decide)

def text1024 : Codec (Text 1024) := text 1024 (by decide)

def text2048 : Codec (Text 2048) := text 2048 (by decide)

def bool : Codec Bool where
  enc b := .bool b
  read name
    | .bool b => .ok b
    | _ => .error (.typeError (name ++ " must be a boolean."))
  masked b := b
  plain_enc _ := rfl
  read_enc _ _ := rfl
  mask_enc _ := rfl

/-- Positive integers. -/
def positive : Codec Pos where
  enc n := .int n.1
  read name
    | .int (.ofNat n) =>
        if h : 0 < n then .ok ⟨n, h⟩
        else .error (.contractValidation (name ++ " must be a positive integer."))
    | _ => .error (.contractValidation (name ++ " must be a positive integer."))
  masked n := n
  plain_enc _ := rfl
  read_enc _ n := by
    obtain ⟨n, hn⟩ := n
    exact dif_pos hn
  mask_enc _ := rfl

/-- An enumeration, by its table of values. -/
def enum {E : Type} [DecidableEq E] (values : List E) (value : E → String)
    (complete : ∀ e, values.find? (fun e' => value e' == value e) = some e)
    (safe : ∀ e, looksLikeSecretValue (value e).toList = false) : Codec E where
  enc e := .str (value e)
  read name
    | .str s =>
        match values.find? fun e => value e == s with
        | some e => .ok e
        | none => .error (.valueError (s ++ " is not a valid " ++ name))
    | _ => .error (.valueError ("not a valid " ++ name))
  masked e := e
  plain_enc _ := rfl
  read_enc name e := by
    rw [mask, maskText_eq_self (safe e), Json.sortKeys]
    · simp only [complete e]
    all_goals simp
  mask_enc _ := rfl

theorem mapM_ok {β γ : Type} {f : β → Result γ} {g : β → γ} {xs : List β}
    (h : ∀ x ∈ xs, f x = .ok (g x)) : xs.mapM f = .ok (xs.map g) := by
  induction xs with
  | nil => rfl
  | cons x xs ih =>
      rw [List.mapM_cons, h x (by simp), ih fun y hy => h y (by simp [hy])]
      rfl

/-- Immutable tuples, read from JSON lists. -/
def list (c : Codec α) : Codec (List α) where
  enc xs := .arr (xs.map c.enc)
  read name
    | .arr xs => xs.mapM (c.read name)
    | _ => .error (.contractValidation (name ++ " must be a list."))
  masked xs := xs.map c.masked
  plain_enc xs := by simp [plain_arr]
  read_enc name xs := by
    simp only [mask, maskItems_eq, Json.sortKeys, Json.sortKeysItems_eq, List.map_map]
    rw [List.mapM_map, mapM_ok (g := c.masked)]
    intro x _
    exact c.read_enc name x
  mask_enc xs := by simp [mask, maskItems_eq, Function.comp_def]

theorem mask_sortKeys_ne_null {j : Json} (h : j ≠ .null) : (mask j).sortKeys ≠ .null := by
  cases j <;> simp_all [mask, Json.sortKeys]

/-- A field that may be absent. -/
def optional (c : Codec α) (hne : ∀ a, c.enc a ≠ .null) : Codec (Option α) where
  enc
    | none => .null
    | some a => c.enc a
  read name
    | .null => .ok none
    | j => some <$> c.read name j
  masked := Option.map c.masked
  plain_enc
    | none => rfl
    | some a => c.plain_enc a
  read_enc name
    | none => rfl
    | some a => by
        have h := mask_sortKeys_ne_null (hne a)
        have hread := c.read_enc name a
        generalize (mask (c.enc a)).sortKeys = j at h hread
        cases j with
        | null => exact absurd rfl h
        | _ => simp only [hread]; rfl
  mask_enc
    | none => rfl
    | some a => c.mask_enc a

/-- A field that has to pass a further check, which masking does not disturb. -/
def checked (c : Codec α) (check : α → Bool) (message : String)
    (stable : ∀ a, check a = true → check (c.masked a) = true) :
    Codec {a : α // check a = true} where
  enc a := c.enc a.1
  read name j := do
    let a ← c.read name j
    if h : check a = true then .ok ⟨a, h⟩ else .error (.contractValidation message)
  masked a := ⟨c.masked a.1, stable a.1 a.2⟩
  plain_enc a := c.plain_enc a.1
  read_enc name a := by
    rw [c.read_enc]
    show (if h : check (c.masked a.1) = true then _ else _) = _
    rw [dif_pos (stable a.1 a.2)]
  mask_enc a := c.mask_enc a.1

end Codec

/-! ### Sorted digests -/

/-- Sorted and without duplicates, by the strings. -/
def sortedUnique {p : List Char → Bool} (xs : List (Refined p)) : Bool :=
  decide (xs.Pairwise fun a b => a.val < b.val)

/-- A sorted tuple of digests without duplicates. -/
abbrev Digests := {xs : List Digest // sortedUnique xs = true}

def Codec.digests (name : String) : Codec Digests :=
  (Codec.list Codec.digest).checked sortedUnique
    (name ++ " must be sorted and contain no duplicates.")
    (fun _ h => by simpa [Codec.list, Codec.digest, Codec.refined] using h)

/-! ### Absent fields and tuples of the contracts -/

namespace Codec

def optionalRevision : Codec (Option (EntityId .rev)) :=
  (entityId .rev).optional fun _ => by simp [entityId, refined]

def optionalDigest : Codec (Option Digest) :=
  digest.optional fun _ => by simp [digest, refined]

def optionalText2048 : Codec (Option (Text 2048)) :=
  text2048.optional fun _ => by simp [text2048, text]

theorem masked_optionalRevision (o : Option (EntityId .rev)) :
    optionalRevision.masked o = o := by
  cases o <;> rfl

theorem masked_optionalDigest (o : Option Digest) : optionalDigest.masked o = o := by
  cases o <;> rfl

theorem masked_digests (name : String) (d : Digests) : (digests name).masked d = d := by
  apply Subtype.ext
  simp [digests, checked, list, digest, refined]

end Codec

/-! ### Contracts -/

/-- `_serialize` of a contract: schema version, kind and fields, made secret-safe. -/
def contract (kind : String) (fields : List (String × Json)) : Json :=
  secretSafe (.obj (("schema_version", .int 1) :: ("kind", .str kind) :: fields))

/-- A parsed payload holds the given fields, as redaction leaves them. -/
def Holds (payload : Json) (fields : List (String × Json)) : Prop :=
  ∀ m ∈ fields, payload.get? m.1 = some (mask m.2).sortKeys

/-- Reading a field a payload holds. -/
theorem Codec.field_of_holds {α : Type} (c : Codec α) {payload : Json} {key : String} {a : α}
    (h : payload.get? key = some (mask (c.enc a)).sortKeys) :
    c.field key payload = .ok (c.masked a) := by
  simp only [Codec.field, item, h]
  exact c.read_enc key a

/-- Reading a field a payload holds, when the reader would also do without it. -/
theorem Codec.getD_of_holds {α : Type} (c : Codec α) {payload default : Json} {key : String}
    {a : α} (h : payload.get? key = some (mask (c.enc a)).sortKeys) :
    c.getD key default payload = .ok (c.masked a) := by
  rw [Codec.getD, h]
  exact c.read_enc key a

/-- What a contract class has to keep to: its kind and its keys trigger no redaction rule,
and no key occurs twice. -/
structure Schema (α : Type) where
  kind : String
  keys : List String
  fields : α → List (String × Json)
  keys_eq : ∀ a, (fields a).map Prod.fst = keys
  kind_safe : '/' ∉ kind.toList
  keys_plain : keys.all plainKey = true
  keys_nodup : ("schema_version" :: "kind" :: keys).Nodup
  values_plain : ∀ a, (fields a).all (fun m => plain m.2) = true

namespace Schema

variable {α : Type}

/-- The mapping of a contract before redaction. -/
def raw (s : Schema α) (a : α) : Json :=
  .obj (("schema_version", .int 1) :: ("kind", .str s.kind) :: s.fields a)

/-- `to_dict()`. -/
def toDict (s : Schema α) (a : α) : Json :=
  contract s.kind (s.fields a)

/-- `canonical_json` of a contract. -/
def canonicalJson (s : Schema α) (a : α) : String :=
  (s.toDict a).dumps

/-- `canonical_digest` of a contract. -/
def digest [Platform] (s : Schema α) (a : α) : Digest :=
  digestText (s.canonicalJson a)

theorem plainKey_header : plainKey "schema_version" = true ∧ plainKey "kind" = true := by
  decide +kernel

theorem plain_raw (s : Schema α) (a : α) : plain (s.raw a) = true := by
  rw [raw, plain_obj]
  intro m hm
  rcases List.mem_cons.mp hm with rfl | hm
  · exact ⟨plainKey_header.1, rfl⟩
  rcases List.mem_cons.mp hm with rfl | hm
  · exact ⟨plainKey_header.2, rfl⟩
  · have hkey : m.1 ∈ s.keys := by
      rw [← s.keys_eq a]
      exact List.mem_map_of_mem hm
    exact ⟨List.all_eq_true.mp s.keys_plain _ hkey,
      List.all_eq_true.mp (s.values_plain a) m hm⟩

/-- A contract is serialized by masking its strings. -/
theorem toDict_eq (s : Schema α) (a : α) : s.toDict a = mask (s.raw a) :=
  secretSafe_of_plain (s.plain_raw a)

/-- Masking a contract that is already serialized changes nothing. -/
@[simp] theorem mask_toDict (s : Schema α) (a : α) : mask (s.toDict a) = s.toDict a := by
  rw [toDict_eq, mask_mask]

theorem nodup_raw (s : Schema α) (a : α) :
    ((("schema_version", Json.int 1) :: ("kind", Json.str s.kind) :: s.fields a).map
      Prod.fst).Nodup := by
  rw [List.map_cons, List.map_cons, s.keys_eq]
  exact s.keys_nodup

/-- A member of a masked and key-sorted mapping. -/
theorem get?_mask_sortKeys {ms : List (String × Json)} (hn : (ms.map Prod.fst).Nodup)
    {k : String} {v : Json} (h : (k, v) ∈ ms) :
    (mask (.obj ms)).sortKeys.get? k = some (mask v).sortKeys := by
  have hlookup : ms.lookup k = some v := by
    induction ms with
    | nil => simp at h
    | cons m ms ih =>
        obtain ⟨k', v'⟩ := m
        rw [List.map_cons, List.nodup_cons] at hn
        rw [List.lookup_cons]
        rcases List.mem_cons.mp h with h | h
        · cases h
          simp
        · have hne : (k == k') = false :=
            beq_false_of_ne fun he => hn.1 (List.mem_map.mpr ⟨(k, v), h, he⟩)
          rw [hne]
          exact ih hn.2 h
  have hn' : ((maskMembers ms).map Prod.fst).Nodup := by
    simpa [maskMembers_eq, List.map_map, Function.comp_def] using hn
  rw [mask, Json.get?_sortKeys_obj hn', maskMembers_eq, Json.lookup_mapValues, hlookup]
  rfl

/-- The payload read back from a contract holds the contract's fields. -/
theorem holds (s : Schema α) (a : α) : Holds (s.toDict a).sortKeys (s.fields a) := by
  intro m hm
  rw [toDict_eq, raw]
  exact get?_mask_sortKeys (s.nodup_raw a) (by simp [hm])

/-- A mapping with the schema of a contract has the canonical text of the contract. -/
theorem canonicalJson_raw (s : Schema α) (a : α) :
    Ophelia.canonicalJson (s.raw a) = s.canonicalJson a := by
  rw [canonicalJson, toDict_eq, raw, canonicalJson_of_plain]
  exact s.plain_raw a

/-- Serializing a contract that is already serialized changes nothing. -/
theorem canonicalJson_toDict (s : Schema α) (a : α) :
    Ophelia.canonicalJson (s.toDict a) = s.canonicalJson a := by
  have hplain : plain (mask (s.raw a)) = true := by rw [plain_mask, plain_raw]
  rw [canonicalJson, toDict_eq]
  rw [raw, mask] at hplain ⊢
  rw [canonicalJson_of_plain hplain, ← mask, mask_mask]

/-- What the journal reads from the text of a contract. -/
theorem loads_canonicalJson (s : Schema α) (a : α) :
    Json.loads (s.canonicalJson a) = some (s.toDict a).sortKeys :=
  Json.loads_dumps _

/-- Masking the fields of a contract does not show in its serialized form. -/
theorem toDict_congr (s : Schema α) {a b : α}
    (h : maskMembers (s.fields a) = maskMembers (s.fields b)) : s.toDict a = s.toDict b := by
  rw [toDict_eq, toDict_eq, raw, raw]
  simp only [mask, maskMembers, h]

/-- The codec of a contract, from its reader. -/
def codec (s : Schema α) (fromPayload : Json → Result α) (masked : α → α)
    (read_holds : ∀ a payload, Holds payload (s.fields a) → fromPayload payload = .ok (masked a))
    (mask_fields : ∀ a, maskMembers (s.fields (masked a)) = maskMembers (s.fields a)) :
    Codec α where
  enc := s.toDict
  read _ := fromPayload
  masked := masked
  plain_enc a := by rw [toDict_eq, plain_mask, plain_raw]
  read_enc _ a := by
    rw [mask_toDict]
    exact read_holds a _ (s.holds a)
  mask_enc a := by
    rw [s.toDict_congr (mask_fields a)]

end Schema

end Ophelia
