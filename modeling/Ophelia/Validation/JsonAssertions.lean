import Ophelia.Domain.RedactionSound
import Ophelia.Lib.LazySplit
import Ophelia.Lib.Results
import Ophelia.Validation.AssertionPaths

/-!
# Ophelia.Validation.JsonAssertions

The assertions that a verification makes on a JSON document (`verify.py`). They are texts such as
`$.ok is true`, `$.checks.runtime exists`, `$.kind == "health"` and `$.version =~ "^1\\."`, and are
taken apart by four patterns that are tried in turn on the whole text. An operator that stands in a
key or in a literal is an operator as well.
-/

namespace Ophelia

open PyText

/-! ### Python's library -/

/-- How `json.loads` ends: with a value, with a decoding error, or with another exception, at
numbers and nestings beyond the limits of the interpreter. -/
inductive Loaded where
  | value (v : Json)
  | decodeError
  | raised

/-- How `re.search` ends; a pattern error is caught. -/
inductive Searched where
  | found (b : Bool)
  | patternError (text : String)
  | raised

/-- What an assertion is evaluated with. Comparing and printing may raise on deep values. -/
structure AssertionTools where
  digits : Digits
  loads : List Char → Loaded
  search : String → String → Searched
  equal : Json → Json → Option Bool
  text : Json → Option String

/-! ### Parsing -/

inductive AssertionKind where
  | invalid (error : String)
  | regex (expected : String)
  | equals (expected : Json)
  | present (expected : Bool)
  | boolean (expected : Bool)

structure JsonAssertion where
  path : List Char
  kind : AssertionKind
  condition : String

/-- `\s*(?:…)\s*(.+)$` at the start of a text without blanks at its end: the last group. -/
def behindOperator (operators : List String) (text : List Char) : Option (List Char) :=
  operators.findSome? fun operator =>
    let text := text.dropWhile isSpace
    if operator.toList.isPrefixOf text then
      let operand := (text.drop operator.toList.length).dropWhile isSpace
      if operand ≠ [] ∧ '\n' ∉ operand then some operand else none
    else none

/-- A character as `re.IGNORECASE` compares it with a letter of these words. -/
def foldChar (c : Char) : Char :=
  if c = 'İ' ∨ c = 'ı' then 'i'
  else if c = 'ſ' then 's'
  else c.toLower

def isWord (word : String) (text : List Char) : Bool := text.map foldChar == word.toList

/-- `\s+`: what stands behind the blanks. -/
def behindBlanks (text : List Char) : Option (List Char) :=
  if text.head?.any isSpace then some (text.dropWhile isSpace) else none

/-- `\s+(?:exists|present)$`. -/
def readsPresent (text : List Char) : Option Unit := do
  let word ← behindBlanks text
  if isWord "exists" word || isWord "present" word then return () else none

/-- `\s+is\s+(true|false)$`. -/
def readsBoolean (text : List Char) : Option Bool := do
  let word ← behindBlanks text
  if isWord "is" (word.take 2) then
    let value ← behindBlanks (word.drop 2)
    if isWord "true" value then return true
    else if isWord "false" value then return false
    else none
  else none

/-- Which of the patterns a text matches, and its groups. -/
inductive AssertionForm where
  | regex (path literal : List Char)
  | equals (path literal : List Char)
  | present (path : List Char)
  | boolean (path : List Char) (expected : Bool)
  | unsupported
deriving DecidableEq

def regexOperators : List String := ["=~", "matches"]

def assertionForm (text : List Char) : AssertionForm :=
  match lazily (behindOperator regexOperators) text with
  | some (path, literal) => .regex (strip path) (strip literal)
  | none =>
      match lazily (behindOperator ["=="]) text with
      | some (path, literal) => .equals (strip path) (strip literal)
      | none =>
          match lazily readsPresent text with
          | some (path, _) => .present (strip path)
          | none =>
              match lazily readsBoolean text with
              | some (path, expected) => .boolean (strip path) expected
              | none => .unsupported

/-- `_parse_literal`. -/
def parseLiteral (tools : AssertionTools) (value : List Char) : Except String Json :=
  match tools.loads value with
  | .value v => .ok v
  | .decodeError => .ok (.str (String.ofList (stripChars (fun c => c = '"' || c = '\'') value)))
  | .raised => .error "json.loads"

/-- The operand of a regex assertion. -/
def patternText (tools : AssertionTools) : Json → Except String String
  | .str s => .ok s
  | v =>
      match tools.text v with
      | some s => .ok s
      | none => .error "str"

/-- `_assertion_from_string`. -/
def assertionFromString (tools : AssertionTools) (expression : List Char) :
    Except String JsonAssertion :=
  let text := strip expression
  match assertionForm text with
  | .regex path literal => do
      let value ← parseLiteral tools literal
      let expected ← patternText tools value
      return ⟨path, .regex expected, "matches regex"⟩
  | .equals path literal => do
      let expected ← parseLiteral tools literal
      return ⟨path, .equals expected, "equals"⟩
  | .present path => .ok ⟨path, .present true, "present"⟩
  | .boolean path expected =>
      .ok ⟨path, .boolean expected, if expected then "is true" else "is false"⟩
  | .unsupported =>
      .ok ⟨if text = [] then "<empty>".toList else text,
        .invalid ("Use `$.path == value`, `$.path exists`, `$.path is true`, or " ++
          "`$.path =~ \"regex\"`."), "supported assertion"⟩

/-! ### Evaluating -/

structure AssertionResult where
  path : List Char
  condition : String
  present : Option Bool
  ok : Bool
  expected : Option Json
  actual : Option Json
  error : Option String
  message : String

/-- `_assertion_message`. -/
def assertionMessage (path : List Char) (ok : Bool) (condition : String) : String :=
  if ok then "JSON path `" ++ String.ofList path ++ "` satisfied `" ++ condition ++ "`."
  else "JSON path `" ++ String.ofList path ++ "` did not satisfy `" ++ condition ++ "`."

/-- `_json_path_contains_sensitive_key`. -/
def jsonPathContainsSensitiveKey (digits : Digits) (fieldPath : List Char) : Except String Bool :=
  (jsonPathTokens digits fieldPath).map fun tokens =>
    (tokens.getD []).any fun
      | .key name => isSensitiveKey name
      | .index _ => false

/-- `_redact_assertion_result`. -/
def redactAssertionResult (digits : Digits) (result : AssertionResult) (regex : Bool) :
    Except String AssertionResult :=
  (jsonPathContainsSensitiveKey digits result.path).map fun sensitive =>
    { result with
      expected := if sensitive || regex then result.expected.map (redactValue REDACTED)
        else result.expected
      actual := if sensitive then result.actual.map (redactValue REDACTED) else result.actual }

/-- The operand as it is reported. -/
def AssertionKind.operand : AssertionKind → Json
  | invalid _ => .null
  | regex expected => .str expected
  | equals expected => expected
  | present expected => .bool expected
  | boolean expected => .bool expected

/-- Whether a value that is there meets the assertion, and what is reported of a pattern. -/
def judge (tools : AssertionTools) (actual : Json) :
    AssertionKind → Except String (Bool × Option String)
  | .invalid _ => .ok (false, none)
  | .present expected => .ok (expected, none)
  | .equals expected =>
      match tools.equal actual expected with
      | some ok => .ok (ok, none)
      | none => .error "=="
  | .boolean expected =>
      match actual with
      | .bool b => .ok (b == expected, none)
      | _ => .ok (false, none)
  | .regex expected =>
      match actual with
      | .str s =>
          match tools.search expected s with
          | .found ok => .ok (ok, none)
          | .patternError text => .ok (false, some ("Invalid regex: " ++ text))
          | .raised => .error "re.search"
      | _ => .ok (false, none)

/-- `_evaluate_json_assertion`. -/
def evaluateJsonAssertion (tools : AssertionTools) (payload : Json) (assertion : JsonAssertion) :
    Except String AssertionResult :=
  let result (ok : Bool) (found : Option Json) (expected actual : Option Json)
      (error : Option String) : AssertionResult :=
    ⟨assertion.path, assertion.condition, some found.isSome, ok, expected, actual, error,
      assertionMessage assertion.path ok assertion.condition⟩
  match assertion.kind with
  | .invalid error =>
      .ok ⟨assertion.path, assertion.condition, none, false, none, none, none, error⟩
  | .present expected => do
      let found ← jsonPath tools.digits payload assertion.path
      redactAssertionResult tools.digits
        (result (found.isSome == expected) found (some (.bool expected)) none none) false
  | kind => do
      let found ← jsonPath tools.digits payload assertion.path
      let regex := match kind with
        | .regex _ => true
        | _ => false
      match found with
      | none =>
          redactAssertionResult tools.digits
            (result false none (some kind.operand) (some (.str "<missing>")) none) regex
      | some actual =>
          let (ok, error) ← judge tools actual kind
          redactAssertionResult tools.digits
            (result ok (some actual) (some kind.operand) (some actual) error) regex

/-! ### What is promised -/

/-- A text that `json.loads` reads as a value, without blanks at its ends. -/
structure JsonLiteral (tools : AssertionTools) (value : Json) where
  text : List Char
  loads : tools.loads text = .value value
  nonempty : text ≠ []
  trimmed : strip text = text

/-- Assertions are read as they are written, the tokens of a path are found again, and no text at
all makes reading or evaluating raise. -/
structure AssertionLanguage (tools : AssertionTools) (path : JsonPath) {value : Json}
    {pattern : String} (literal : JsonLiteral tools value)
    (regex : JsonLiteral tools (.str pattern)) (expression : List Char) (payload : Json) :
    Prop where
  equals : assertionFromString tools (path.text ++ " == ".toList ++ literal.text) =
    .ok ⟨path.text, .equals value, "equals"⟩
  present : assertionFromString tools (path.text ++ " exists".toList) =
    .ok ⟨path.text, .present true, "present"⟩
  isTrue : assertionFromString tools (path.text ++ " is true".toList) =
    .ok ⟨path.text, .boolean true, "is true"⟩
  isFalse : assertionFromString tools (path.text ++ " is false".toList) =
    .ok ⟨path.text, .boolean false, "is false"⟩
  matched : assertionFromString tools (path.text ++ " =~ ".toList ++ regex.text) =
    .ok ⟨path.text, .regex pattern, "matches regex"⟩
  tokens : jsonPathTokens tools.digits path.text = .ok (some path.tokens)
  total : ∃ assertion result, assertionFromString tools expression = .ok assertion ∧
    evaluateJsonAssertion tools payload assertion = .ok result

/-! ### When it holds -/

/-- A path and two literals that are read as they are written: no operator stands in the path
behind its first character, and neither `=~` nor `matches` in the literal of an equation with
something behind it; there are no line ends, no blanks at the ends of the path, no empty keys, no
index that is too long for `int`; and without a dollar sign in front, the first key is none. -/
structure ReadAsWritten (digits : Digits) (path : JsonPath) (literal regex : List Char) :
    Prop where
  trimmed : strip path.text = path.text
  lines : '\n' ∉ path.text ∧ '\n' ∉ literal ∧ '\n' ∉ regex
  operators : ∀ operator ∈ "==" :: regexOperators, ¬ operator.toList <:+: path.text.tail
  literals : ∀ operator ∈ regexOperators, ∀ a b, literal = a ++ operator.toList ++ b → b = []
  tokens : ∀ t ∈ path.tokens, t.Read digits
  dollar : path.rooted = false → path.tokens.head? ≠ some (.key ['$'])

/-- Nothing that Python's library is asked for raises: `int` reads the indices of the path,
`json.loads` the literal, and the comparison or the search comes to an end. -/
def Evaluable (tools : AssertionTools) (payload : Json) (expression : List Char) : Prop :=
  match assertionForm (strip expression) with
  | .regex path literal =>
      ∃ value pattern, parseLiteral tools literal = .ok value ∧
        patternText tools value = .ok pattern ∧ PathReadable tools.digits path ∧
        ∀ s, jsonPath tools.digits payload path = .ok (some (.str s)) →
          tools.search pattern s ≠ .raised
  | .equals path literal =>
      ∃ value, parseLiteral tools literal = .ok value ∧ PathReadable tools.digits path ∧
        ∀ actual, jsonPath tools.digits payload path = .ok (some actual) →
          tools.equal actual value ≠ none
  | .present path => PathReadable tools.digits path
  | .boolean path _ => PathReadable tools.digits path
  | .unsupported => True

/-! ### Operators -/

/-- A text is an operator and an operand, behind blanks. -/
def Behind (operator : String) (text operand : List Char) : Prop :=
  ∃ rest, text.dropWhile isSpace = operator.toList ++ rest ∧ operand = rest.dropWhile isSpace ∧
    operand ≠ [] ∧ '\n' ∉ operand

theorem behind_iff {operator : String} {text operand : List Char} :
    (let text := text.dropWhile isSpace
    if operator.toList.isPrefixOf text then
      let operand := (text.drop operator.toList.length).dropWhile isSpace
      if operand ≠ [] ∧ '\n' ∉ operand then some operand else none
    else none) = some operand ↔ Behind operator text operand := by
  simp only
  constructor
  · intro h
    split_ifs at h with hprefix hoperand
    obtain rfl := Option.some.inj h
    obtain ⟨rest, hrest⟩ := List.isPrefixOf_iff_prefix.mp hprefix
    refine ⟨rest, hrest.symm, ?_, hoperand⟩
    rw [← hrest, List.drop_left]
  · rintro ⟨rest, hrest, rfl, hoperand⟩
    rw [hrest, if_pos (List.isPrefixOf_iff_prefix.mpr (List.prefix_append _ _)), List.drop_left,
      if_pos hoperand]

theorem exists_of_behindOperator {operators : List String} {text operand : List Char}
    (h : behindOperator operators text = some operand) :
    ∃ operator ∈ operators, Behind operator text operand := by
  obtain ⟨operator, hmem, hsome⟩ := List.exists_of_findSome?_eq_some h
  exact ⟨operator, hmem, behind_iff.mp hsome⟩

theorem behindOperator_eq_none_iff {operators : List String} {text : List Char} :
    behindOperator operators text = none ↔
      ∀ operator ∈ operators, ∀ operand, ¬ Behind operator text operand := by
  constructor
  · intro h operator hmem operand hbehind
    have hnone := List.findSome?_eq_none_iff.mp h operator hmem
    rw [behind_iff.mpr hbehind] at hnone
    cases hnone
  · intro h
    cases hsome : behindOperator operators text with
    | none => rfl
    | some operand =>
        obtain ⟨operator, hmem, hbehind⟩ := exists_of_behindOperator hsome
        exact absurd hbehind (h operator hmem operand)

theorem behindOperator_cons {operator : String} {operators : List String} {text operand : List Char}
    (h : Behind operator text operand) :
    behindOperator (operator :: operators) text = some operand := by
  unfold behindOperator
  rw [List.findSome?_cons, behind_iff.mpr h]

/-- An operator: a text without blanks. -/
def Solid (operator : String) : Prop :=
  operator.toList ≠ [] ∧ ∀ c ∈ operator.toList, isSpace c = false

instance (operator : String) : Decidable (Solid operator) :=
  @instDecidableAnd _ _ inferInstance (List.decidableBAll _ _)

theorem solid_of_mem {operator : String} (h : operator ∈ "==" :: regexOperators) :
    Solid operator := by
  have hall : ∀ operator ∈ ["==", "=~", "matches"], Solid operator :=
    List.forall_iff_forall_mem.mp (by decide)
  exact hall operator h

/-- A word without a blank stands on one side of it. -/
theorem infix_beside {A B x w z : List Char} (hblank : ' ' ∉ w)
    (h : A ++ ' ' :: B = x ++ w ++ z) :
    (∃ y, A = x ++ w ++ y) ∨ ∃ y, x = A ++ ' ' :: y ∧ B = y ++ w ++ z := by
  rcases List.append_eq_append_iff.mp h with ⟨y, hfront, hback⟩ | ⟨y, hfront, -⟩
  · cases y with
    | nil => exact .inl ⟨[], by simpa using hfront.symm⟩
    | cons d y =>
        obtain ⟨rfl, rfl⟩ := List.cons.inj hback
        rcases List.append_eq_append_iff.mp hfront with ⟨v, rfl, hword⟩ | ⟨v, rfl, hword⟩
        · exact absurd (hword ▸ List.mem_append_right _ List.mem_cons_self) hblank
        · cases v with
          | nil =>
              rw [List.nil_append] at hword
              exact absurd (hword ▸ List.mem_cons_self) hblank
          | cons d v =>
              obtain ⟨rfl, rfl⟩ := List.cons.inj hword
              exact .inr ⟨v, rfl, rfl⟩
  · exact .inl ⟨y, hfront⟩

theorem Solid.blank_not_mem {operator : String} (h : Solid operator) : ' ' ∉ operator.toList :=
  fun hmem => absurd (h.2 ' ' hmem) (by decide)

theorem Solid.dropWhile_append {operator : String} (h : Solid operator) (rest : List Char) :
    (operator.toList ++ rest).dropWhile isSpace = operator.toList ++ rest := by
  obtain ⟨hne, hall⟩ := h
  cases hop : operator.toList with
  | nil => exact absurd hop hne
  | cons c cs =>
      exact List.dropWhile_cons_of_neg (by simp [hall c (hop ▸ List.mem_cons_self)])

theorem behind_append {operator : String} (h : Solid operator) {rest : List Char}
    (hrest : EndsPlain rest) (hline : '\n' ∉ rest) :
    Behind operator (operator.toList ++ rest) (rest.dropWhile isSpace) :=
  ⟨rest, h.dropWhile_append rest, rfl, hrest.dropWhile.ne_nil,
    fun hmem => hline ((List.dropWhile_sublist isSpace).mem hmem)⟩

theorem Behind.exists_append {operator : String} {text operand : List Char}
    (h : Behind operator text operand) :
    ∃ blanks rest, text = blanks ++ operator.toList ++ rest ∧ rest ≠ [] := by
  obtain ⟨rest, htext, rfl, hne, -⟩ := h
  refine ⟨text.takeWhile isSpace, rest, ?_, ?_⟩
  · rw [List.append_assoc, ← htext, List.takeWhile_append_dropWhile]
  · rintro rfl
    exact hne rfl

section Splits

variable {path rest : List Char}

/-- A text of a path, a blank and something else holds no operator exactly if none stands in the
path behind its first character, and none in the rest with something behind it. -/
theorem lazily_operators_eq_none_iff {operators : List String}
    (hsolid : ∀ operator ∈ operators, Solid operator) (hpath : EndsPlain path)
    (hpathLine : '\n' ∉ path) (hrest : EndsPlain rest) (hrestLine : '\n' ∉ rest) :
    lazily (behindOperator operators) (path ++ ' ' :: rest) = none ↔
      ∀ operator ∈ operators, ¬ operator.toList <:+: path.tail ∧
        ∀ a b, rest = a ++ operator.toList ++ b → b = [] := by
  rw [lazily_eq_none_iff]
  constructor
  · intro h operator hmem
    constructor
    · rintro ⟨x, y, htail⟩
      cases path with
      | nil => exact hpath.ne_nil rfl
      | cons c cs =>
          have htail : x ++ operator.toList ++ y = cs := htail
          subst htail
          have hends : EndsPlain (y ++ ' ' :: rest) := by
            rw [← List.singleton_append, ← List.append_assoc]
            exact hrest.append _
          have hline : '\n' ∉ y ++ ' ' :: rest := by
            simp only [List.mem_cons, List.mem_append, not_or] at hpathLine ⊢
            exact ⟨hpathLine.2.2, by decide, hrestLine⟩
          have hnone := h (c :: x) (operator.toList ++ (y ++ ' ' :: rest)) (by simp)
            (List.cons_ne_nil _ _) (by simp at hpathLine ⊢; tauto)
          exact behindOperator_eq_none_iff.mp hnone operator hmem _
            (behind_append (hsolid operator hmem) hends hline)
    · rintro a b rfl
      by_contra hb
      have hends : EndsPlain b := hrest.of_append hb
      have hline : '\n' ∉ b := fun hmem => hrestLine (List.mem_append_right _ hmem)
      have hnone := h (path ++ ' ' :: a) (operator.toList ++ b) (by simp) (by simp)
        (by simp at hrestLine hpathLine ⊢; tauto)
      exact behindOperator_eq_none_iff.mp hnone operator hmem _
        (behind_append (hsolid operator hmem) hends hline)
  · intro h group tail heq hne hline
    refine behindOperator_eq_none_iff.mpr fun operator hmem operand hbehind => ?_
    obtain ⟨blanks, z, rfl, hz⟩ := hbehind.exists_append
    obtain ⟨hwithin, hback⟩ := h operator hmem
    have heq : path ++ ' ' :: rest = group ++ blanks ++ operator.toList ++ z := by
      rw [heq]
      simp
    rcases infix_beside (hsolid operator hmem).blank_not_mem heq with ⟨y, rfl⟩ | ⟨y, -, hrest⟩
    · cases group with
      | nil => exact hne rfl
      | cons c cs => exact hwithin ⟨cs ++ blanks, y, rfl⟩
    · exact hz (hback y z hrest)

/-- What stands before the blank is the group, where the rest is accepted behind it and nowhere in
the path. -/
theorem lazily_path {β : Type*} {accepts : List Char → Option β} {b : β} (hpath : EndsPlain path)
    (hline : '\n' ∉ path) (hrest : accepts (' ' :: rest) = some b)
    (hnone : ∀ part, EndsPlain part → part <:+ path.tail → accepts (part ++ ' ' :: rest) = none) :
    lazily accepts (path ++ ' ' :: rest) = some (path, b) := by
  refine lazily_eq_some_iff.mpr ⟨_, rfl, hpath.ne_nil, hline, hrest, fun x y heq hx hy => ?_⟩
  refine hnone y (EndsPlain.of_append (heq ▸ hpath) hy) ?_
  cases x with
  | nil => exact absurd rfl hx
  | cons c cs => exact ⟨cs, by rw [heq]; rfl⟩

theorem lazily_operator {operator : String} {operators : List String} {operand : List Char}
    (hsolid : ∀ o ∈ operator :: operators, Solid o) (hpath : EndsPlain path)
    (hline : '\n' ∉ path) (hoperators : ∀ o ∈ operator :: operators, ¬ o.toList <:+: path.tail)
    (hoperand : strip operand = operand) (hne : operand ≠ []) (hoperandLine : '\n' ∉ operand) :
    lazily (behindOperator (operator :: operators))
        (path ++ ' ' :: (operator.toList ++ ' ' :: operand)) = some (path, operand) := by
  refine lazily_path hpath hline ?_ fun part hpart hsuffix => ?_
  · refine behindOperator_cons ⟨' ' :: operand, ?_, ?_, hne, hoperandLine⟩
    · rw [List.dropWhile_cons_of_pos (by decide)]
      exact (hsolid _ List.mem_cons_self).dropWhile_append _
    · rw [List.dropWhile_cons_of_pos (by decide)]
      exact (strip_eq_self_iff.mp hoperand).1.symm
  · refine behindOperator_eq_none_iff.mpr fun o ho r hbehind => ?_
    obtain ⟨z, hz, -⟩ := hbehind
    rw [hpart.dropWhile_append] at hz
    rcases infix_beside (x := []) (hsolid o ho).blank_not_mem hz with ⟨y, hy⟩ | ⟨y, hy, -⟩
    · have hwithin : o.toList <:+: part.dropWhile isSpace := ⟨[], y, hy.symm⟩
      exact hoperators o ho
        (hwithin.trans ((List.dropWhile_suffix isSpace).isInfix.trans hsuffix.isInfix))
    · exact absurd hy.symm (by simp)

end Splits

/-! ### Words -/

theorem length_of_isWord {word : String} {text : List Char} (h : isWord word text = true) :
    text.length = word.toList.length := by
  rw [← beq_iff_eq.mp h, List.length_map]

theorem behindBlanks_eq {text word : List Char} (h : behindBlanks text = some word) :
    word = text.dropWhile isSpace := by
  unfold behindBlanks at h
  split at h
  · exact (Option.some.inj h).symm
  · cases h

/-- A text that begins with a plain character stays behind blanks. -/
theorem suffix_dropWhile {c : Char} {cs : List Char} (hc : isSpace c = false) (front : List Char) :
    c :: cs <:+ (front ++ c :: cs).dropWhile isSpace := by
  rw [List.dropWhile_append]
  split
  · rw [List.dropWhile_cons_of_neg (by simp [hc])]
  · exact List.suffix_append _ _

theorem readsPresent_eq_none {part : List Char} (h : EndsPlain part) :
    readsPresent (part ++ ' ' :: "exists".toList) = none := by
  have hlong : ∀ word, behindBlanks (part ++ ' ' :: "exists".toList) = some word →
      8 ≤ word.length := by
    intro word hword
    rw [behindBlanks_eq hword, h.dropWhile_append, List.length_append]
    have hpos := List.length_pos_of_ne_nil h.dropWhile.ne_nil
    change 8 ≤ _ + 7
    omega
  unfold readsPresent
  cases hword : behindBlanks (part ++ ' ' :: "exists".toList) with
  | none => rfl
  | some word =>
      refine if_neg fun hread => ?_
      have hlength := hlong word hword
      rcases Bool.or_eq_true_iff.mp hread with hread | hread
      · have heq : word.length = 6 := length_of_isWord hread
        omega
      · have heq : word.length = 7 := length_of_isWord hread
        omega

theorem readsPresent_ends {text : List Char} (h : readsPresent text ≠ none) :
    ∃ c, text.getLast? = some c ∧ (foldChar c = 's' ∨ foldChar c = 't') := by
  have hlast : ∀ {name : String} {word : List Char} {c : Char}, isWord name word = true →
      name.toList.getLast? = some c → ∃ d, word.getLast? = some d ∧ foldChar d = c := by
    intro name word c hword hc
    rw [← beq_iff_eq.mp hword, List.getLast?_map] at hc
    exact Option.map_eq_some_iff.mp hc
  have hback : ∀ {word : List Char} {d : Char}, behindBlanks text = some word →
      word.getLast? = some d → text.getLast? = some d := by
    intro word d hword hd
    have hsplit := List.takeWhile_append_dropWhile (p := isSpace) (l := text)
    rw [← behindBlanks_eq hword] at hsplit
    rw [← hsplit, List.getLast?_append, hd]
    rfl
  unfold readsPresent at h
  cases hword : behindBlanks text with
  | none =>
      rw [hword] at h
      exact absurd rfl h
  | some word =>
      rw [hword] at h
      by_cases hread : (isWord "exists" word || isWord "present" word) = true
      · rcases Bool.or_eq_true_iff.mp hread with hread | hread
        · obtain ⟨d, hd, hfold⟩ := hlast hread (c := 's') (by decide)
          exact ⟨d, hback hword hd, .inl hfold⟩
        · obtain ⟨d, hd, hfold⟩ := hlast hread (c := 't') (by decide)
          exact ⟨d, hback hword hd, .inr hfold⟩
      · exact absurd (if_neg hread) h

theorem readsBoolean_eq_none {part value : List Char} (h : EndsPlain part)
    (hvalue : 4 ≤ value.length) :
    readsBoolean (part ++ ' ' :: ('i' :: 's' :: ' ' :: value)) = none := by
  unfold readsBoolean
  cases hword : behindBlanks (part ++ ' ' :: ('i' :: 's' :: ' ' :: value)) with
  | none => rfl
  | some word =>
      have hparts := behindBlanks_eq hword
      rw [h.dropWhile_append] at hparts
      obtain ⟨c, cs, hcs⟩ := List.exists_cons_of_ne_nil h.dropWhile.ne_nil
      rw [hcs] at hparts
      subst hparts
      cases cs with
      | nil =>
          refine if_neg fun hread => ?_
          have hfold := (List.cons.inj (List.cons.inj (beq_iff_eq.mp hread)).2).1
          revert hfold
          decide
      | cons d cs =>
          -- Behind two characters, at least seven are left.
          have hlong : ∀ rest, behindBlanks (cs ++ ' ' :: ('i' :: 's' :: ' ' :: value)) = some rest →
              7 ≤ rest.length := by
            intro rest hrest
            have hsuffix := @suffix_dropWhile 'i' ('s' :: ' ' :: value) (by decide)
              (cs ++ [' '])
            rw [List.append_assoc, List.singleton_append, ← behindBlanks_eq hrest] at hsuffix
            have hle := hsuffix.length_le
            simp only [List.length_cons] at hle
            omega
          have hnone : (do
              let value ← behindBlanks (cs ++ ' ' :: ('i' :: 's' :: ' ' :: value))
              if isWord "true" value then return true
              else if isWord "false" value then return false
              else none : Option Bool) = none := by
            cases hrest : behindBlanks (cs ++ ' ' :: ('i' :: 's' :: ' ' :: value)) with
            | none => rfl
            | some rest =>
                have hlength := hlong rest hrest
                have htrue : ¬ isWord "true" rest = true := fun hread => by
                  have heq : rest.length = 4 := length_of_isWord hread
                  omega
                have hfalse : ¬ isWord "false" rest = true := fun hread => by
                  have heq : rest.length = 5 := length_of_isWord hread
                  omega
                change (if isWord "true" rest then some true
                  else if isWord "false" rest then some false else none) = none
                rw [if_neg htrue, if_neg hfalse]
          change (if isWord "is" [c, d] then _ else none) = none
          split
          · exact hnone
          · rfl

/-! ### The forms -/

section Forms

variable {path rest : List Char}

theorem strip_text (hpath : strip path = path) (hne : path ≠ []) (hrest : EndsPlain rest) :
    strip (path ++ ' ' :: rest) = path ++ ' ' :: rest := by
  obtain ⟨c, cs, rfl⟩ := List.exists_cons_of_ne_nil hne
  have hends := hrest.append (c :: cs ++ [' '])
  rw [List.append_assoc, List.singleton_append] at hends
  exact strip_of_ends (head_of_strip hpath) hends

/-- None of some operators stands in a path behind its first character. -/
def Free (operators : List String) (path : List Char) : Prop :=
  ∀ operator ∈ operators, ¬ operator.toList <:+: path.tail

theorem free_cons {operator : String} {operators : List String} :
    Free (operator :: operators) path ↔
      ¬ operator.toList <:+: path.tail ∧ Free operators path :=
  List.forall_mem_cons

/-- Nothing stands behind one of the operators in a text. -/
def LastIn (operators : List String) (text : List Char) : Prop :=
  ∀ operator ∈ operators, ∀ a b, text = a ++ operator.toList ++ b → b = []

theorem lazily_none_iff {operators : List String} (hsub : operators ⊆ "==" :: regexOperators)
    (hpath : EndsPlain path) (hpathLine : '\n' ∉ path) (hrest : EndsPlain rest)
    (hrestLine : '\n' ∉ rest) :
    lazily (behindOperator operators) (path ++ ' ' :: rest) = none ↔
      Free operators path ∧ LastIn operators rest := by
  rw [lazily_operators_eq_none_iff (fun o ho => solid_of_mem (hsub ho)) hpath hpathLine hrest
    hrestLine]
  exact forall₂_and

theorem lastIn_of_not_infix {operators : List String} {text : List Char}
    (h : ∀ operator ∈ operators, ¬ operator.toList <:+: text) : LastIn operators text :=
  fun operator hmem a b heq => absurd ⟨a, b, heq.symm⟩ (h operator hmem)

theorem lastIn_equation_iff {literal : List Char} :
    LastIn regexOperators ("==".toList ++ ' ' :: literal) ↔ LastIn regexOperators literal := by
  constructor
  · rintro h operator hmem a b rfl
    exact h operator hmem ("==".toList ++ ' ' :: a) b (by simp)
  · intro h operator hmem a b heq
    rcases infix_beside (solid_of_mem (List.mem_cons_of_mem _ hmem)).blank_not_mem heq with
      ⟨y, hy⟩ | ⟨y, -, hy⟩
    · have hwithin : operator.toList <:+: "==".toList := ⟨a, y, hy.symm⟩
      have hall : ∀ operator ∈ regexOperators, ¬ operator.toList <:+: "==".toList :=
        List.forall_iff_forall_mem.mp (by decide)
      exact absurd hwithin (hall operator hmem)
    · exact h operator hmem y b hy

/-- The words behind a path. -/
def flagWords : List (List Char) := ["exists".toList, "is true".toList, "is false".toList]

theorem flagWords_spec {word : List Char} (h : word ∈ flagWords) :
    EndsPlain word ∧ '\n' ∉ word ∧ LastIn regexOperators word ∧ LastIn ["=="] word := by
  have hend : ∀ word ∈ flagWords, word.getLast?.any (fun c => !isSpace c) = true ∧ '\n' ∉ word ∧
      (∀ operator ∈ regexOperators, ¬ operator.toList <:+: word) ∧
      ∀ operator ∈ ["=="], ¬ operator.toList <:+: word := by
    decide
  obtain ⟨hlast, hline, hregex, hequals⟩ := hend word h
  refine ⟨?_, hline, lastIn_of_not_infix hregex, lastIn_of_not_infix hequals⟩
  obtain ⟨c, hc, hplain⟩ := (Option.any_eq_true _ _).mp hlast
  exact ⟨word.dropLast, c, (List.dropLast_append_getLast? c hc).symm, by simpa using hplain⟩

theorem lazily_flag_none_iff {word : List Char} (hword : word ∈ flagWords)
    (hpath : EndsPlain path) (hline : '\n' ∉ path) :
    (lazily (behindOperator regexOperators) (path ++ ' ' :: word) = none ∧
      lazily (behindOperator ["=="]) (path ++ ' ' :: word) = none) ↔
      Free ("==" :: regexOperators) path := by
  obtain ⟨hends, hwordLine, hregex, hequals⟩ := flagWords_spec hword
  rw [lazily_none_iff (List.subset_cons_self _ _) hpath hline hends hwordLine,
    lazily_none_iff (by simp) hpath hline hends hwordLine, free_cons, free_cons]
  have hnil : Free [] path := fun operator hmem => absurd hmem List.not_mem_nil
  tauto

theorem assertionForm_flag {word : List Char} (hword : word ∈ flagWords)
    (hpath : EndsPlain path) (hline : '\n' ∉ path) (hfree : Free ("==" :: regexOperators) path) :
    assertionForm (path ++ ' ' :: word) =
      match lazily readsPresent (path ++ ' ' :: word) with
      | some (path, _) => .present (strip path)
      | none =>
          match lazily readsBoolean (path ++ ' ' :: word) with
          | some (path, expected) => .boolean (strip path) expected
          | none => .unsupported := by
  obtain ⟨hregex, hequals⟩ := (lazily_flag_none_iff hword hpath hline).mpr hfree
  unfold assertionForm
  rw [hregex, hequals]

theorem assertionForm_present (htrim : strip path = path) (hpath : EndsPlain path)
    (hline : '\n' ∉ path) (hfree : Free ("==" :: regexOperators) path) :
    assertionForm (path ++ ' ' :: "exists".toList) = .present path := by
  rw [assertionForm_flag (by decide) hpath hline hfree,
    lazily_path hpath hline (by decide : readsPresent (' ' :: "exists".toList) = some ())
      fun part hpart _ => readsPresent_eq_none hpart]
  simp only [htrim]

theorem assertionForm_boolean (htrim : strip path = path) (hpath : EndsPlain path)
    (hline : '\n' ∉ path) (hfree : Free ("==" :: regexOperators) path) (b : Bool) :
    assertionForm (path ++ ' ' :: (if b then "is true".toList else "is false".toList)) =
      .boolean path b := by
  have hlast : ∀ word : List Char, word.getLast? = some 'e' →
      lazily readsPresent (path ++ ' ' :: word) = none := by
    intro word hlast
    refine lazily_eq_none_iff.mpr fun group tail heq hne hgroup => ?_
    by_contra hread
    obtain ⟨c, hc, hfold⟩ := readsPresent_ends hread
    have hend : (path ++ ' ' :: word).getLast? = some 'e' := by
      rw [List.getLast?_append, List.getLast?_cons, hlast]
      rfl
    rw [heq, List.getLast?_append, hc] at hend
    obtain rfl := Option.some.inj hend
    revert hfold
    decide
  cases b with
  | true =>
      have hboolean : lazily readsBoolean (path ++ ' ' :: "is true".toList) = some (path, true) :=
        lazily_path hpath hline (by decide) fun part hpart _ =>
          @readsBoolean_eq_none _ "true".toList hpart (by decide)
      rw [if_pos rfl, assertionForm_flag (by decide) hpath hline hfree, hlast _ (by decide),
        hboolean]
      simp only [htrim]
  | false =>
      have hboolean : lazily readsBoolean (path ++ ' ' :: "is false".toList) =
          some (path, false) :=
        lazily_path hpath hline (by decide) fun part hpart _ =>
          @readsBoolean_eq_none _ "false".toList hpart (by decide)
      rw [if_neg (by decide), assertionForm_flag (by decide) hpath hline hfree,
        hlast _ (by decide), hboolean]
      simp only [htrim]

theorem endsPlain_operand {operator : String} {operand : List Char}
    (htrim : strip operand = operand) (hne : operand ≠ []) :
    EndsPlain (operator.toList ++ ' ' :: operand) := by
  have hends := (endsPlain_of_strip htrim hne).append (operator.toList ++ [' '])
  rwa [List.append_assoc, List.singleton_append] at hends

theorem assertionForm_equals {operand : List Char} (htrim : strip path = path)
    (hpath : EndsPlain path) (hline : '\n' ∉ path) (hfree : Free ("==" :: regexOperators) path)
    (hoperand : strip operand = operand) (hne : operand ≠ []) (hoperandLine : '\n' ∉ operand)
    (hlast : LastIn regexOperators operand) :
    assertionForm (path ++ ' ' :: ("==".toList ++ ' ' :: operand)) = .equals path operand := by
  obtain ⟨hequals, hregex⟩ := free_cons.mp hfree
  have hrestLine : '\n' ∉ "==".toList ++ ' ' :: operand := by
    simp [hoperandLine]
  have hnone := (lazily_none_iff (List.subset_cons_self _ _) hpath hline
    (endsPlain_operand hoperand hne) hrestLine).mpr ⟨hregex, lastIn_equation_iff.mpr hlast⟩
  have hsome := @lazily_operator _ "==" [] _
    (fun o ho => solid_of_mem (List.mem_singleton.mp ho ▸ List.mem_cons_self)) hpath hline
    (fun o ho => List.mem_singleton.mp ho ▸ hequals) hoperand hne hoperandLine
  unfold assertionForm
  rw [hnone, hsome]
  simp only [htrim, hoperand]

theorem assertionForm_regex {operand : List Char} (htrim : strip path = path)
    (hpath : EndsPlain path) (hline : '\n' ∉ path) (hfree : Free regexOperators path)
    (hoperand : strip operand = operand) (hne : operand ≠ []) (hoperandLine : '\n' ∉ operand) :
    assertionForm (path ++ ' ' :: ("=~".toList ++ ' ' :: operand)) = .regex path operand := by
  have hsome := @lazily_operator _ "=~" ["matches"] _
    (fun o ho => solid_of_mem (List.mem_cons_of_mem _ ho)) hpath hline hfree hoperand hne
    hoperandLine
  have hsome : lazily (behindOperator regexOperators)
      (path ++ ' ' :: ("=~".toList ++ ' ' :: operand)) = some (path, operand) := hsome
  unfold assertionForm
  rw [hsome]
  simp only [htrim, hoperand]

end Forms

/-! ### What the form says -/

section Read

variable {tools : AssertionTools} {path : List Char}

/-- The form of a text that was read. -/
theorem form_of_read {expression : List Char} {assertion : JsonAssertion}
    (h : assertionFromString tools expression = .ok assertion) :
    match assertion.kind with
    | .invalid _ => True
    | .regex _ => ∃ literal, assertionForm (strip expression) = .regex assertion.path literal
    | .equals _ => ∃ literal, assertionForm (strip expression) = .equals assertion.path literal
    | .present _ => assertionForm (strip expression) = .present assertion.path
    | .boolean expected =>
        assertionForm (strip expression) = .boolean assertion.path expected := by
  unfold assertionFromString at h
  simp only at h
  cases hform : assertionForm (strip expression) with
  | regex path literal =>
      rw [hform] at h
      obtain ⟨value, -, h⟩ := Results.bind_eq_ok.mp h
      obtain ⟨expected, -, h⟩ := Results.bind_eq_ok.mp h
      obtain rfl := Except.ok.inj h
      exact ⟨literal, rfl⟩
  | equals path literal =>
      rw [hform] at h
      obtain ⟨value, -, h⟩ := Results.bind_eq_ok.mp h
      obtain rfl := Except.ok.inj h
      exact ⟨literal, rfl⟩
  | present path =>
      rw [hform] at h
      obtain rfl := Except.ok.inj h
      rfl
  | boolean path expected =>
      rw [hform] at h
      obtain rfl := Except.ok.inj h
      rfl
  | unsupported =>
      rw [hform] at h
      obtain rfl := Except.ok.inj h
      trivial

theorem group_of_regex {text literal : List Char} (h : assertionForm text = .regex path literal) :
    ∃ group operand, lazily (behindOperator regexOperators) text = some (group, operand) ∧
      path = strip group := by
  unfold assertionForm at h
  split at h
  · rename_i group operand hsome
    exact ⟨group, operand, hsome, (AssertionForm.regex.inj h).1.symm⟩
  · split at h
    · cases h
    · split at h
      · cases h
      · split at h <;> cases h

theorem group_of_equals {text literal : List Char}
    (h : assertionForm text = .equals path literal) :
    lazily (behindOperator regexOperators) text = none ∧
      ∃ group operand, lazily (behindOperator ["=="]) text = some (group, operand) ∧
        path = strip group := by
  unfold assertionForm at h
  split at h
  · cases h
  · rename_i hnone
    refine ⟨hnone, ?_⟩
    split at h
    · rename_i group operand hsome
      exact ⟨group, operand, hsome, (AssertionForm.equals.inj h).1.symm⟩
    · split at h
      · cases h
      · split at h <;> cases h

theorem group_of_present {text : List Char} (h : assertionForm text = .present path) :
    lazily (behindOperator regexOperators) text = none ∧
      lazily (behindOperator ["=="]) text = none ∧
      ∃ group, lazily readsPresent text = some (group, ()) ∧ path = strip group := by
  unfold assertionForm at h
  split at h
  · cases h
  · rename_i hregex
    split at h
    · cases h
    · rename_i hequals
      refine ⟨hregex, hequals, ?_⟩
      split at h
      · rename_i group _ hsome
        exact ⟨group, hsome, (AssertionForm.present.inj h).symm⟩
      · split at h <;> cases h

theorem present_only_if {condition : String} (hne : path ≠ [])
    (h : assertionFromString tools (path ++ ' ' :: "exists".toList) =
      .ok ⟨path, .present true, condition⟩) :
    strip path = path ∧ '\n' ∉ path ∧ Free ("==" :: regexOperators) path := by
  obtain ⟨hregex, hequals, group, hgroup, hpath⟩ := group_of_present (form_of_read h)
  have hpath : path = strip group := hpath
  have htrim : strip path = path := by
    rw [hpath]
    exact strip_strip group
  have hline : '\n' ∉ path := by
    obtain ⟨tail, -, -, hline, -⟩ := lazily_eq_some_iff.mp hgroup
    rw [hpath]
    exact fun hmem => hline ((strip_sublist group).mem hmem)
  have hends := endsPlain_of_strip htrim hne
  have hword : "exists".toList ∈ flagWords := by decide
  rw [strip_text htrim hne (flagWords_spec hword).1] at hregex hequals
  exact ⟨htrim, hline, (lazily_flag_none_iff hword hends hline).mp ⟨hregex, hequals⟩⟩

/-- An operand that was read has no line end. -/
theorem line_of_lazily {operator : String} {operators : List String}
    (hsolid : ∀ o ∈ operators, Solid o) (hmem : operator ∈ operators)
    (honly : ∀ o ∈ operators, o.toList.head? = operator.toList.head? → o = operator)
    {operand group found : List Char} (htrim : strip path = path) (hne : path ≠ [])
    (hoperand : strip operand = operand)
    (h : lazily (behindOperator operators)
      (path ++ ' ' :: (operator.toList ++ ' ' :: operand)) = some (group, found))
    (hgroup : path = strip group) : '\n' ∉ operand := by
  obtain ⟨tail, htext, hgroupNe, -, htail, -⟩ := lazily_eq_some_iff.mp h
  obtain ⟨o, ho, rest, hrest, rfl, -, hline⟩ := exists_of_behindOperator htail
  obtain ⟨c, cs, rfl⟩ := List.exists_cons_of_ne_nil hgroupNe
  obtain ⟨d, ds, rfl⟩ := List.exists_cons_of_ne_nil hne
  obtain rfl : d = c := (List.cons.inj htext).1
  obtain ⟨blanks, hblanks, hall⟩ := @eq_strip_append _ cs (head_of_strip htrim)
  rw [hblanks, ← hgroup, List.append_assoc] at htext
  have hrests := List.append_cancel_left htext
  have hdropped : (blanks ++ tail).dropWhile isSpace = o.toList ++ rest := by
    rw [List.dropWhile_append_of_pos hall, hrest]
  rw [← hrests, List.dropWhile_cons_of_pos (by decide),
    (hsolid operator hmem).dropWhile_append] at hdropped
  have hhead : o.toList.head? = operator.toList.head? := by
    have hheads := congrArg List.head? hdropped
    rw [List.head?_append_of_ne_nil _ (hsolid operator hmem).1,
      List.head?_append_of_ne_nil _ (hsolid o ho).1] at hheads
    exact hheads.symm
  obtain rfl := honly o ho hhead
  obtain rfl := List.append_cancel_left hdropped
  rw [List.dropWhile_cons_of_pos (by decide), (strip_eq_self_iff.mp hoperand).1] at hline
  exact hline

theorem equals_only_if {operand : List Char} {value : Json} {condition : String}
    (htrim : strip path = path) (hne : path ≠ []) (hline : '\n' ∉ path)
    (hoperand : strip operand = operand) (hoperandNe : operand ≠ [])
    (h : assertionFromString tools (path ++ ' ' :: ("==".toList ++ ' ' :: operand)) =
      .ok ⟨path, .equals value, condition⟩) :
    '\n' ∉ operand ∧ LastIn regexOperators operand := by
  have hrest := @endsPlain_operand "==" _ hoperand hoperandNe
  obtain ⟨literal, hform⟩ := form_of_read h
  rw [strip_text htrim hne hrest] at hform
  obtain ⟨hnone, group, found, hsome, hgroup⟩ := group_of_equals hform
  have hoperandLine : '\n' ∉ operand :=
    line_of_lazily (fun o ho => solid_of_mem (List.mem_singleton.mp ho ▸ List.mem_cons_self))
      List.mem_cons_self (fun o ho _ => List.mem_singleton.mp ho) htrim hne hoperand hsome hgroup
  refine ⟨hoperandLine, lastIn_equation_iff.mp ?_⟩
  have hrestLine : '\n' ∉ "==".toList ++ ' ' :: operand := by
    simp [hoperandLine]
  exact ((lazily_none_iff (List.subset_cons_self _ _) (endsPlain_of_strip htrim hne) hline hrest
    hrestLine).mp hnone).2

theorem regex_only_if {operand : List Char} {pattern condition : String}
    (htrim : strip path = path) (hne : path ≠ []) (hoperand : strip operand = operand)
    (hoperandNe : operand ≠ [])
    (h : assertionFromString tools (path ++ ' ' :: ("=~".toList ++ ' ' :: operand)) =
      .ok ⟨path, .regex pattern, condition⟩) :
    '\n' ∉ operand := by
  have hrest := @endsPlain_operand "=~" _ hoperand hoperandNe
  obtain ⟨literal, hform⟩ := form_of_read h
  rw [strip_text htrim hne hrest] at hform
  obtain ⟨group, found, hsome, hgroup⟩ := group_of_regex hform
  have honly : ∀ o ∈ regexOperators, o.toList.head? = "=~".toList.head? → o = "=~" :=
    List.forall_iff_forall_mem.mp (by decide)
  exact line_of_lazily (fun o ho => solid_of_mem (List.mem_cons_of_mem _ ho)) List.mem_cons_self
    honly htrim hne hoperand hsome hgroup

end Read

/-! ### No exceptions -/

section Total

variable {tools : AssertionTools} {payload : Json}

theorem pathReadable_iff {digits : Digits} {path : List Char} :
    PathReadable digits path ↔ ∃ tokens, jsonPathTokens digits path = .ok tokens := by
  rw [← not_iff_not, ← jsonPathTokens_raises_iff]
  cases jsonPathTokens digits path <;> simp

theorem redact_ok {digits : Digits} {result : AssertionResult} {regex : Bool}
    (h : PathReadable digits result.path) :
    ∃ redacted, redactAssertionResult digits result regex = .ok redacted := by
  obtain ⟨tokens, htokens⟩ := pathReadable_iff.mp h
  unfold redactAssertionResult jsonPathContainsSensitiveKey
  rw [htokens]
  exact ⟨_, rfl⟩

theorem jsonPath_ok {digits : Digits} {path : List Char} :
    PathReadable digits path ↔ ∃ found, jsonPath digits payload path = .ok found := by
  rw [pathReadable_iff]
  unfold jsonPath
  cases jsonPathTokens digits path <;> simp [Except.map]

/-- What judging needs. -/
def Judged (tools : AssertionTools) (actual : Json) : AssertionKind → Prop
  | .equals expected => tools.equal actual expected ≠ none
  | .regex expected => ∀ s, actual = .str s → tools.search expected s ≠ .raised
  | _ => True

theorem judged_iff {actual : Json} {kind : AssertionKind} :
    Judged tools actual kind ↔ ∃ verdict, judge tools actual kind = .ok verdict := by
  cases kind with
  | invalid error => exact iff_of_true trivial ⟨_, rfl⟩
  | present expected => exact iff_of_true trivial ⟨_, rfl⟩
  | equals expected =>
      cases hequal : tools.equal actual expected <;> simp [Judged, judge, hequal]
  | boolean expected =>
      refine iff_of_true trivial ?_
      cases actual <;> exact ⟨_, rfl⟩
  | regex expected =>
      cases actual with
      | str s =>
          cases hsearch : tools.search expected s <;> simp [Judged, judge, hsearch]
      | _ => exact iff_of_true (fun s hs => by cases hs) ⟨_, rfl⟩

/-- When evaluating comes to an end: the path can be read, and a value that is there be judged. -/
theorem evaluates_iff {assertion : JsonAssertion}
    (hvalid : ∀ error, assertion.kind ≠ .invalid error) :
    (∃ result, evaluateJsonAssertion tools payload assertion = .ok result) ↔
      PathReadable tools.digits assertion.path ∧
        ∀ actual, jsonPath tools.digits payload assertion.path = .ok (some actual) →
          Judged tools actual assertion.kind := by
  by_cases hread : PathReadable tools.digits assertion.path
  · obtain ⟨found, hfound⟩ := (@jsonPath_ok payload _ _).mp hread
    have hredact : ∀ {result : AssertionResult} {regex : Bool}, result.path = assertion.path →
        ∃ redacted, redactAssertionResult tools.digits result regex = .ok redacted :=
      fun heq => redact_ok (heq ▸ hread)
    simp only [hread, true_and, hfound, Except.ok.injEq]
    unfold evaluateJsonAssertion
    obtain ⟨path, kind, condition⟩ := assertion
    cases kind with
    | invalid error => exact absurd rfl (hvalid error)
    | present expected =>
        simp only [hfound]
        exact iff_of_true (hredact rfl) fun actual _ => trivial
    | _ =>
        simp only [hfound]
        cases found with
        | none => exact iff_of_true (hredact rfl) fun actual h => by cases h
        | some actual =>
            constructor
            · rintro ⟨result, hresult⟩ actual' heq
              obtain rfl := Option.some.inj heq
              obtain ⟨found, hsome, hresult⟩ := Results.bind_eq_ok.mp hresult
              obtain rfl := Except.ok.inj hsome
              obtain ⟨verdict, hverdict, -⟩ := Results.bind_eq_ok.mp hresult
              exact judged_iff.mpr ⟨verdict, hverdict⟩
            · intro hjudged
              obtain ⟨verdict, hverdict⟩ := judged_iff.mp (hjudged actual rfl)
              simp only [bind, Except.bind, hverdict]
              exact hredact rfl
  · refine iff_of_false ?_ fun h => hread h.1
    have hraises : ∀ found, jsonPath tools.digits payload assertion.path ≠ .ok found :=
      fun found hfound => hread (jsonPath_ok.mpr ⟨found, hfound⟩)
    rintro ⟨result, hresult⟩
    unfold evaluateJsonAssertion at hresult
    obtain ⟨path, kind, condition⟩ := assertion
    cases kind with
    | invalid error => exact absurd rfl (hvalid error)
    | _ =>
        obtain ⟨found, hfound, -⟩ := Results.bind_eq_ok.mp hresult
        exact hraises found hfound

/-- When a text is read and evaluated without an exception. -/
theorem total_iff {expression : List Char} :
    (∃ assertion result, assertionFromString tools expression = .ok assertion ∧
      evaluateJsonAssertion tools payload assertion = .ok result) ↔
      Evaluable tools payload expression := by
  unfold assertionFromString Evaluable
  simp only
  cases hform : assertionForm (strip expression) with
  | regex path literal =>
      simp only
      constructor
      · rintro ⟨assertion, result, hread, hresult⟩
        obtain ⟨value, hvalue, hread⟩ := Results.bind_eq_ok.mp hread
        obtain ⟨pattern, hpattern, hread⟩ := Results.bind_eq_ok.mp hread
        obtain rfl := Except.ok.inj hread
        obtain ⟨hpath, hjudged⟩ := (evaluates_iff (by simp)).mp ⟨result, hresult⟩
        exact ⟨value, pattern, hvalue, hpattern, hpath, fun s hs => hjudged (.str s) hs s rfl⟩
      · rintro ⟨value, pattern, hvalue, hpattern, hpath, hsearch⟩
        obtain ⟨result, hresult⟩ := (@evaluates_iff tools payload
          ⟨path, .regex pattern, "matches regex"⟩ (by simp)).mpr
          ⟨hpath, fun actual hactual s hs => hsearch s (hs ▸ hactual)⟩
        exact ⟨_, result, Results.bind_ok hvalue <| Results.bind_ok hpattern rfl, hresult⟩
  | equals path literal =>
      simp only
      constructor
      · rintro ⟨assertion, result, hread, hresult⟩
        obtain ⟨value, hvalue, hread⟩ := Results.bind_eq_ok.mp hread
        obtain rfl := Except.ok.inj hread
        exact ⟨value, hvalue, (evaluates_iff (by simp)).mp ⟨result, hresult⟩⟩
      · rintro ⟨value, hvalue, hevaluates⟩
        obtain ⟨result, hresult⟩ := (@evaluates_iff tools payload
          ⟨path, .equals value, "equals"⟩ (by simp)).mpr hevaluates
        exact ⟨_, result, Results.bind_ok hvalue rfl, hresult⟩
  | present path =>
      simp only [Except.ok.injEq, ↓existsAndEq, true_and]
      rw [evaluates_iff (by simp)]
      exact and_iff_left fun actual _ => trivial
  | boolean path expected =>
      simp only [Except.ok.injEq, ↓existsAndEq, true_and]
      rw [evaluates_iff (by simp)]
      exact and_iff_left fun actual _ => trivial
  | unsupported => exact iff_of_true ⟨_, _, rfl, rfl⟩ trivial

end Total

/-! ### The language -/

theorem JsonPath.text_ne_nil {digits : Digits} {path : JsonPath}
    (h : ∀ t ∈ path.tokens, t.Read digits) : path.text ≠ [] := by
  obtain ⟨rooted, tokens, hwf, hbare⟩ := path
  cases rooted with
  | true => exact List.cons_ne_nil _ _
  | false =>
      cases tokens with
      | nil => exact absurd rfl (hbare rfl)
      | cons token tokens =>
          intro hempty
          have hopening := (List.append_eq_nil_iff.mp hempty).1
          cases token with
          | key name => exact (h _ List.mem_cons_self).1 (congrArg PathToken.key hopening)
          | index n => cases hopening

section Language

variable {tools : AssertionTools} {path : JsonPath} {value : Json} {pattern : String}
  {literal : JsonLiteral tools value} {regex : JsonLiteral tools (.str pattern)}
  {expression : List Char} {payload : Json}

theorem parseLiteral_of_literal (literal : JsonLiteral tools value) :
    parseLiteral tools literal.text = .ok value := by
  unfold parseLiteral
  rw [literal.loads]

theorem readAsWritten_of_language
    (h : AssertionLanguage tools path literal regex expression payload) :
    ReadAsWritten tools.digits path literal.text regex.text := by
  have hne : path.text ≠ [] := by
    intro hempty
    have htokens := h.tokens
    rw [hempty] at htokens
    cases htokens
  obtain ⟨htrim, hline, hfree⟩ := present_only_if hne h.present
  have hequals := h.equals
  rw [List.append_assoc] at hequals
  obtain ⟨hliteral, hlast⟩ := equals_only_if htrim hne hline literal.trimmed literal.nonempty
    hequals
  have hmatched := h.matched
  rw [List.append_assoc] at hmatched
  have hregex := regex_only_if htrim hne regex.trimmed regex.nonempty hmatched
  obtain ⟨hread, hdollar⟩ := (jsonPathTokens_text_iff htrim).mp h.tokens
  exact ⟨htrim, ⟨hline, hliteral, hregex⟩, hfree, hlast, hread, hdollar⟩

theorem language_of_readAsWritten (h : ReadAsWritten tools.digits path literal.text regex.text)
    (htotal : Evaluable tools payload expression) :
    AssertionLanguage tools path literal regex expression payload := by
  obtain ⟨htrim, ⟨hline, hliteral, hregex⟩, hfree, hlast, hread, hdollar⟩ := h
  have hne := JsonPath.text_ne_nil hread
  have hends := endsPlain_of_strip htrim hne
  refine ⟨?_, ?_, ?_, ?_, ?_, (jsonPathTokens_text_iff htrim).mpr ⟨hread, hdollar⟩,
    total_iff.mpr htotal⟩
  · have hform := assertionForm_equals htrim hends hline hfree literal.trimmed literal.nonempty
      hliteral hlast
    rw [← strip_text htrim hne (endsPlain_operand literal.trimmed literal.nonempty)] at hform
    rw [List.append_assoc]
    change assertionFromString tools (path.text ++ ' ' :: ("==".toList ++ ' ' :: literal.text)) = _
    unfold assertionFromString
    simp only [hform, parseLiteral_of_literal]
    rfl
  · have hform := assertionForm_present htrim hends hline hfree
    rw [← strip_text htrim hne (flagWords_spec (by decide)).1] at hform
    change assertionFromString tools (path.text ++ ' ' :: "exists".toList) = _
    unfold assertionFromString
    simp only [hform]
  · have hform := assertionForm_boolean htrim hends hline hfree true
    rw [← strip_text htrim hne (flagWords_spec (by decide)).1] at hform
    change assertionFromString tools (path.text ++ ' ' :: "is true".toList) = _
    unfold assertionFromString
    have hform : assertionForm (strip (path.text ++ ' ' :: "is true".toList)) =
      .boolean path.text true := hform
    simp only [hform]
    rfl
  · have hform := assertionForm_boolean htrim hends hline hfree false
    rw [← strip_text htrim hne (flagWords_spec (by decide)).1] at hform
    change assertionFromString tools (path.text ++ ' ' :: "is false".toList) = _
    unfold assertionFromString
    have hform : assertionForm (strip (path.text ++ ' ' :: "is false".toList)) =
      .boolean path.text false := hform
    simp only [hform]
    rfl
  · have hform := assertionForm_regex htrim hends hline (free_cons.mp hfree).2 regex.trimmed
      regex.nonempty hregex
    rw [← strip_text htrim hne (endsPlain_operand regex.trimmed regex.nonempty)] at hform
    rw [List.append_assoc]
    change assertionFromString tools (path.text ++ ' ' :: ("=~".toList ++ ' ' :: regex.text)) = _
    unfold assertionFromString
    simp only [hform, parseLiteral_of_literal]
    rfl

/-- **The assertion language.** The assertions on a path are read as they are written, and a text
is read and evaluated without an exception, exactly if no operator, line end, blank or index stands
in the way and Python's library raises nothing. -/
theorem assertionLanguage_iff (tools : AssertionTools) (path : JsonPath) {value : Json}
    {pattern : String} (literal : JsonLiteral tools value)
    (regex : JsonLiteral tools (.str pattern)) (expression : List Char) (payload : Json) :
    AssertionLanguage tools path literal regex expression payload ↔
      ReadAsWritten tools.digits path literal.text regex.text ∧
        Evaluable tools payload expression :=
  ⟨fun h => ⟨readAsWritten_of_language h, total_iff.mp h.total⟩,
    fun h => language_of_readAsWritten h.1 h.2⟩

end Language

/-! ### An operator in a key -/

namespace Reference

/-- ASCII digits, and the reader of canonical texts. -/
def asciiTools : AssertionTools where
  digits := ⟨Char.isDigit, fun c => if c.isDigit then some (c.toNat - '0'.toNat) else none, none,
    fun _ hc => ⟨hc, if_pos hc⟩⟩
  loads cs := (Json.loads (String.ofList cs)).elim .decodeError .value
  search _ _ := .found false
  equal a b := some (a.same b)
  text j := some j.dumps

def matchesCount : JsonPath where
  rooted := true
  tokens := [.key "matches_count".toList]
  wellFormed t ht := by
    rw [List.mem_singleton.mp ht]
    have hall : ∀ c ∈ "matches_count".toList, PathToken.isKeyChar c = true :=
      List.forall_iff_forall_mem.mp (by decide)
    exact hall
  nonempty h := Bool.noConfusion h

def three : JsonLiteral asciiTools (.int 3) :=
  ⟨"3".toList, rfl, by decide, by decide⟩

def anchored : JsonLiteral asciiTools (.str "^1") :=
  ⟨"\"^1\"".toList, rfl, by decide, by decide⟩

/-- `$.matches_count == 3` is taken for a pattern on the path `$.`. -/
theorem matchesCount_form :
    assertionForm (strip (matchesCount.text ++ " == ".toList ++ three.text)) =
      .regex "$.".toList "_count == 3".toList := by
  decide

theorem matchesCount_not_read : ¬ ∀ (tools : AssertionTools) (path : JsonPath) (value : Json)
    (pattern : String) (literal : JsonLiteral tools value)
    (regex : JsonLiteral tools (.str pattern)) (expression : List Char) (payload : Json),
    AssertionLanguage tools path literal regex expression payload := by
  intro h
  have hread := (h asciiTools matchesCount _ _ three anchored [] .null).equals
  obtain ⟨literal, hform⟩ := form_of_read hread
  rw [matchesCount_form] at hform
  cases hform

end Reference

end Ophelia
