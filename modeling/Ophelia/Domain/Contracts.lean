import Ophelia.Domain.RedactionSound
import Ophelia.Lib.Results

/-!
# Ophelia.Domain.Contracts

The shared primitives of the kernel contracts (`domain/_contracts.py`): the validated
field types, the checks that build them, and the canonical text and digest of a value.

A validated field is a string with the proof that it passed its check, so a contract
cannot hold an invalid one. How a field travels through JSON is a `Codec`: how it is
written, how it is read back and checked, and the two laws that tie the directions
together *through redaction*. Reading a serialized field gives the field back with its
free text masked, and masking changes nothing about the serialized form.

The host platform enters as the class `Platform`: SHA-256, the calendar and floating-point
addition are used, never computed with.
-/

namespace Ophelia

/-! ### Failures -/

/-- The exceptions of the kernel and of the journal, with their messages. -/
inductive Failure where
  | contractValidation (message : String)
  | keyError (key : String)
  | typeError (message : String)
  | valueError (message : String)
  | operationConflict (message : String)
  | leaseConflict (message : String)
  | idempotencyConflict (message : String)
  | integrity (message : String)
  | sqliteIntegrity (message : String)
  | overflowError (message : String)
  | attributeError (message : String)
deriving DecidableEq, Repr

abbrev Result := Except Failure

theorem Result.ok_bind {α β : Type} (a : α) (f : α → Result β) :
    ((Except.ok a : Result α) >>= f) = f a := rfl

/-- Raise `e` unless `p` holds. -/
def ensure (p : Prop) [Decidable p] (e : Failure) : Result Unit :=
  if p then .ok () else .error e

@[simp] theorem ensure_eq_ok {p : Prop} [Decidable p] {e : Failure} {u : Unit} :
    ensure p e = .ok u ↔ p := by
  unfold ensure
  split <;> simp_all

theorem ensure_of {p : Prop} [Decidable p] {e : Failure} (h : p) : ensure p e = .ok () :=
  if_pos h

theorem ensure_of_not {p : Prop} [Decidable p] {e : Failure} (h : ¬ p) : ensure p e = .error e :=
  if_neg h

/-- Raise the message of the first check that is violated. -/
def refuse (violations : List (Bool × String)) : Result Unit :=
  match violations.find? (·.1) with
  | some v => .error (.contractValidation v.2)
  | none => .ok ()

theorem refuse_eq_ok {violations : List (Bool × String)} :
    refuse violations = .ok () ↔ ∀ v ∈ violations, v.1 = false := by
  unfold refuse
  cases h : violations.find? (·.1) with
  | none => simpa using h
  | some v =>
      have hv := List.find?_some h
      have hmem := List.mem_of_find?_eq_some h
      simp only [reduceCtorEq, false_iff, not_forall]
      exact ⟨v, hmem, by simpa using hv⟩

/-! ### Validated strings -/

/-- A string that passed the check `p`. -/
structure Refined (p : List Char → Bool) where
  val : String
  ok : p val.toList = true
deriving DecidableEq

namespace Refined

variable {p : List Char → Bool}

theorem ext {a b : Refined p} (h : a.val = b.val) : a = b := by
  cases a
  cases b
  cases h
  rfl

theorem val_inj {a b : Refined p} : a.val = b.val ↔ a = b :=
  ⟨ext, congrArg val⟩

/-- Check a JSON value: a string that passes `p`. -/
def require (p : List Char → Bool) (message : String) : Json → Result (Refined p)
  | .str s =>
      if h : p s.toList = true then .ok ⟨s, h⟩ else .error (.contractValidation message)
  | _ => .error (.contractValidation message)

@[simp] theorem require_val (message : String) (a : Refined p) :
    require p message (.str a.val) = .ok a := by
  simp [require, a.ok]

end Refined

/-! ### The checks on names -/

def isLowerAlnum (c : Char) : Bool :=
  c.isLower || c.isDigit

/-- What may follow the first letter of a slug: lower-case letters and digits, with single
hyphens between them. -/
def isSlugTail : List Char → Bool
  | [] => true
  | '-' :: c :: cs => isLowerAlnum c && isSlugTail cs
  | c :: cs => isLowerAlnum c && isSlugTail cs

/-- `^[a-z][a-z0-9]*(?:-[a-z0-9]+)*$`. -/
def isSlugPattern : List Char → Bool
  | [] => false
  | c :: cs => c.isLower && isSlugTail cs

/-- A slug of at most 63 characters. -/
def isSlug (cs : List Char) : Bool :=
  decide (cs.length ≤ 63) && isSlugPattern cs

def isEntityChar (c : Char) : Bool :=
  c.isAlphanum || c == '.' || c == '_' || c == '-'

/-- The part of an identifier after its prefix. -/
def isEntityTail : List Char → Bool
  | [] => false
  | c :: cs => c.isAlphanum && cs.all isEntityChar && decide (cs.length ≤ 126)

/-- The kinds of things with an identifier. -/
inductive Entity where
  | operation
  | request
  | plan
  | decision
  | actor
  | host
  | rev
  | event
  | receipt
deriving DecidableEq, Repr

/-- The prefix of an identifier, with its underscore. -/
def Entity.tag : Entity → List Char
  | .operation => "operation_".toList
  | .request => "request_".toList
  | .plan => "plan_".toList
  | .decision => "decision_".toList
  | .actor => "actor_".toList
  | .host => "host_".toList
  | .rev => "rev_".toList
  | .event => "event_".toList
  | .receipt => "receipt_".toList

def Entity.name (e : Entity) : String :=
  String.ofList e.tag.dropLast

/-- An Ophelia identifier `tag_…`. Every tag matches `[a-z][a-z0-9]*_`, so the first
underscore of the identifier is the one of its tag. -/
def isEntityId (e : Entity) (cs : List Char) : Bool :=
  e.tag.isPrefixOf cs && isEntityTail (cs.drop e.tag.length)

/-- The dot-separated parts of a name. -/
def dotParts (part : List Char) : List Char → List (List Char)
  | [] => [part.reverse]
  | c :: cs => if c = '.' then part.reverse :: dotParts [] cs else dotParts (c :: part) cs

/-- A dotted operation name: at least two slugs. -/
def isOperation (cs : List Char) : Bool :=
  let parts := dotParts [] cs
  decide (cs.length ≤ 127) && decide (2 ≤ parts.length) && parts.all isSlugPattern

/-- Non-empty text of bounded length without control characters. -/
def isText (maximum : Nat) (cs : List Char) : Bool :=
  !cs.isEmpty && decide (cs.length ≤ maximum) &&
    cs.all fun c => decide (32 ≤ c.toNat) || c == '\n' || c == '\t'

abbrev Pos := {n : Nat // 0 < n}

abbrev Digest := Refined isSha256
abbrev Slug := Refined isSlug
abbrev EntityId (e : Entity) := Refined (isEntityId e)
abbrev OperationName := Refined isOperation
abbrev Text (maximum : Nat) := Refined (isText maximum)

/-! ### The platform -/

/-- What the kernel takes from the host platform. Instants and clock readings are
integers: `datetime` values in microseconds, floating-point seconds in an arbitrary unit
of which `second` make one second. -/
class Platform where
  /-- `"sha256:" + hashlib.sha256(text).hexdigest()`, an arbitrary function of the text. -/
  digestText : String → Digest
  /-- `datetime.fromisoformat` with the offset checked to be UTC. -/
  parseUtc : String → Option Int
  /-- `datetime.fromtimestamp(…, timezone.utc)`; fails outside the calendar. -/
  fromTimestamp : Int → Option Int
  /-- `isoformat().replace("+00:00", "Z")`. -/
  isoformat : Int → String
  /-- Floating-point addition of two finite numbers of which one is at most a day. -/
  addSeconds : Int → Int → Int
  second : Int
  /-- What the calendar prints it also reads. -/
  parseUtc_isoformat : ∀ {t d}, fromTimestamp t = some d → parseUtc (isoformat d) = some d
  /-- An ISO-8601 date and time has one free separator character, so at most one slash. -/
  count_slash_of_parseUtc : ∀ {s d}, parseUtc s = some d → s.toList.count '/' ≤ 1

export Platform (digestText parseUtc)

/-- A text accepted as a UTC timestamp. -/
def isUtc [Platform] (cs : List Char) : Bool :=
  (parseUtc (String.ofList cs)).isSome

abbrev Utc [Platform] := Refined isUtc

/-- `parse_utc` of a validated timestamp. -/
def Utc.instant [Platform] (u : Utc) : Int :=
  (parseUtc u.val).getD 0

/-! ### Field codecs -/

/-- How a field of type `α` is written to and read from JSON. `masked` is what a trip
through redaction does to the field. -/
structure Codec (α : Type) where
  enc : α → Json
  /-- Read and check a value; the field name goes into the messages. -/
  read : String → Json → Result α
  masked : α → α
  plain_enc : ∀ a, plain (enc a) = true
  read_enc : ∀ name a, read name (mask (enc a)).sortKeys = .ok (masked a)
  mask_enc : ∀ a, mask (enc (masked a)) = mask (enc a)

attribute [simp] Codec.plain_enc Codec.read_enc Codec.mask_enc

/-- `payload[key]`. -/
def item (payload : Json) (key : String) : Result Json :=
  match payload.get? key with
  | some v => .ok v
  | none => .error (.keyError key)

namespace Codec

variable {α : Type}

/-- Read the required field `key` of a payload. -/
def field (c : Codec α) (key : String) (payload : Json) : Result α :=
  item payload key >>= c.read key

/-- Read the field `key` of a payload, with a default for a missing one. -/
def getD (c : Codec α) (key : String) (default : Json) (payload : Json) : Result α :=
  c.read key ((payload.get? key).getD default)

/-- Strings whose check rules out the shape of a credential. -/
def refined (p : List Char → Bool) (message : String → String)
    (safe : ∀ s : String, p s.toList = true → looksLikeSecretValue s.toList = false) :
    Codec (Refined p) where
  enc a := .str a.val
  read name := Refined.require p (message name)
  masked a := a
  plain_enc _ := rfl
  read_enc name a := by
    simp [mask, maskText_eq_self (safe a.val a.ok), Json.sortKeys]
  mask_enc _ := rfl

end Codec

/-! ### No name is mistaken for a credential -/

theorem isLowerAlnum_ne_slash {c : Char} (h : isLowerAlnum c = true) : c ≠ '/' := by
  rintro rfl
  exact absurd h (by decide)

theorem slash_notMem_of_isSlugTail {cs : List Char} (h : isSlugTail cs = true) : '/' ∉ cs := by
  induction cs using isSlugTail.induct with
  | case1 => simp
  | case2 c cs ih =>
      simp only [isSlugTail, Bool.and_eq_true] at h
      simp only [List.mem_cons, not_or]
      exact ⟨by decide, (isLowerAlnum_ne_slash h.1).symm, ih h.2⟩
  | case3 c cs hne ih =>
      rw [isSlugTail] at h
      · simp only [Bool.and_eq_true] at h
        simp only [List.mem_cons, not_or]
        exact ⟨(isLowerAlnum_ne_slash h.1).symm, ih h.2⟩
      · exact hne

theorem slash_notMem_of_isSlugPattern {cs : List Char} (h : isSlugPattern cs = true) :
    '/' ∉ cs := by
  cases cs with
  | nil => simp
  | cons c cs =>
      simp only [isSlugPattern, Bool.and_eq_true] at h
      simp only [List.mem_cons, not_or]
      refine ⟨?_, slash_notMem_of_isSlugTail h.2⟩
      rintro rfl
      exact absurd h.1 (by decide)

theorem isSlug_safe (s : String) (h : isSlug s.toList = true) :
    looksLikeSecretValue s.toList = false := by
  simp only [isSlug, Bool.and_eq_true] at h
  exact not_secret_of_no_slash (slash_notMem_of_isSlugPattern h.2)

theorem mem_dotParts (part : List Char) {cs : List Char} {c : Char} (hc : c ∈ part ++ cs) (hdot : c ≠ '.') :
    ∃ q ∈ dotParts part cs, c ∈ q := by
  induction cs generalizing part with
  | nil => exact ⟨part.reverse, by simp [dotParts], by simpa using hc⟩
  | cons d cs ih =>
      simp only [List.mem_append, List.mem_cons] at hc
      by_cases hd : d = '.'
      · rw [dotParts, if_pos hd]
        rcases hc with hc | hc | hc
        · exact ⟨part.reverse, by simp, by simpa using hc⟩
        · exact absurd (hc.trans hd) hdot
        · obtain ⟨q, hq, hcq⟩ := ih [] (by simpa using hc)
          exact ⟨q, List.mem_cons_of_mem _ hq, hcq⟩
      · rw [dotParts, if_neg hd]
        apply ih
        simp only [List.mem_append, List.mem_cons]
        tauto

theorem isOperation_safe (s : String) (h : isOperation s.toList = true) :
    looksLikeSecretValue s.toList = false := by
  simp only [isOperation, Bool.and_eq_true, List.all_eq_true] at h
  apply not_secret_of_no_slash
  intro hmem
  obtain ⟨q, hq, hcq⟩ := mem_dotParts [] (c := '/') (by simpa using hmem) (by decide)
  exact slash_notMem_of_isSlugPattern (h.2 q hq) hcq

theorem slash_notMem_tag (e : Entity) : '/' ∉ e.tag := by
  cases e <;> decide

theorem isEntityId_safe (e : Entity) (s : String) (h : isEntityId e s.toList = true) :
    looksLikeSecretValue s.toList = false := by
  simp only [isEntityId, Bool.and_eq_true, List.isPrefixOf_iff_prefix] at h
  obtain ⟨⟨tail, htail⟩, h⟩ := h
  rw [← htail, List.drop_left] at h
  apply not_secret_of_no_slash
  rw [← htail]
  intro hmem
  rcases List.mem_append.mp hmem with hmem | hmem
  · exact slash_notMem_tag e hmem
  · cases tail with
    | nil => simp [isEntityTail] at h
    | cons c cs =>
        simp only [isEntityTail, Bool.and_eq_true, List.all_eq_true] at h
        rcases List.mem_cons.mp hmem with rfl | hmem
        · exact absurd h.1.1 (by decide)
        · exact absurd (h.1.2 '/' hmem) (by decide)

theorem isUtc_safe [Platform] (s : String) (h : isUtc s.toList = true) :
    looksLikeSecretValue s.toList = false := by
  simp only [isUtc, String.ofList_toList, Option.isSome_iff_exists] at h
  obtain ⟨d, hd⟩ := h
  by_contra hs
  have htwo := two_slashes_of_looksLikeSecretValue (Bool.not_eq_false _ ▸ hs)
  have hone := Platform.count_slash_of_parseUtc hd
  omega

end Ophelia
