import Mathlib.Data.List.DropRight
import Ophelia.Lib.Json
import Ophelia.Lib.JsonSound
import Ophelia.Lib.PyText

/-!
# Ophelia.Validation.AssertionPaths

The paths of JSON assertions (`verify.py`). A path is a dollar sign and a list of keys and indices;
the dollar sign may be left out. `_json_path_tokens` reads such a text with a loop of its own over
arbitrary Unicode text. It returns the tokens of a path exactly if its keys are not empty, its ends
are no blanks, and `int` reads its indices (`jsonPathTokens_text_iff`). It raises where `isdigit`
holds of an index that `int` does not read (`jsonPathTokens_raises_iff`).
-/

namespace Ophelia

open PyText

/-! ### Reading -/

inductive PathToken where
  | key (name : List Char)
  | index (n : Nat)
deriving DecidableEq

/-- The digits of Unicode: those that `isdigit` knows, those that `int` reads, and how many of them
it reads at most. -/
structure Digits where
  isDigit : Char → Bool
  decimal : Char → Option Nat
  maxDigits : Option Nat
  ascii : ∀ c, c.isDigit = true → isDigit c = true ∧ decimal c = some (c.toNat - '0'.toNat)

namespace Digits

variable (digits : Digits)

/-- `s.isdigit()`. -/
def isDigits (cs : List Char) : Bool := !cs.isEmpty && cs.all digits.isDigit

/-- Whether `int` reads a text of so many digits. -/
def Fits (length : Nat) : Prop := ∀ most, digits.maxDigits = some most → length ≤ most

instance (length : Nat) : Decidable (digits.Fits length) :=
  decidable_of_iff (digits.maxDigits.all fun most => decide (length ≤ most)) (by
    unfold Fits
    cases digits.maxDigits <;> simp)

/-- `int(s)` of a text of digits. -/
def int? (cs : List Char) : Option Nat :=
  if digits.Fits cs.length then
    cs.foldlM (fun n c => (digits.decimal c).map (10 * n + ·)) 0
  else none

end Digits

/-- The loop of `_json_path_tokens`; it raises where `int` does. -/
def tokensLoop (digits : Digits) : List Char → Except String (Option (List PathToken))
  | [] => .ok (some [])
  | c :: cs =>
      if c = '.' then tokensLoop digits cs
      else if c = '[' then
        if ']' ∈ cs then
          let rawIndex := strip (cs.takeWhile fun d => d ≠ ']')
          if digits.isDigits rawIndex = false then .ok none
          else
            match digits.int? rawIndex with
            | none => .error "ValueError"
            | some n =>
                (tokensLoop digits ((cs.dropWhile fun d => d ≠ ']').drop 1)).map
                  (Option.map (.index n :: ·))
        else .ok none
      else
        (tokensLoop digits (cs.dropWhile fun d => d ≠ '.' && d ≠ '[')).map
          (Option.map (.key (c :: cs.takeWhile fun d => d ≠ '.' && d ≠ '[') :: ·))
termination_by text => text.length
decreasing_by
  · exact Nat.lt_succ_self _
  · have hle := (List.dropWhile_sublist (fun d => d ≠ ']') (l := cs)).length_le
    simp only [List.length_drop, List.length_cons]
    omega
  · exact Nat.lt_succ_of_le (List.dropWhile_sublist _).length_le

/-- `_json_path_tokens`. -/
def jsonPathTokens (digits : Digits) (fieldPath : List Char) :
    Except String (Option (List PathToken)) :=
  let text := strip fieldPath
  if text = [] then .ok none
  else if text = ['$'] then .ok (some [])
  else if "$.".toList.isPrefixOf text then tokensLoop digits (text.drop 2)
  else if "$[".toList.isPrefixOf text then tokensLoop digits (text.drop 1)
  else tokensLoop digits text

/-- A step of `_json_path`. -/
def pathStep (current : Json) : PathToken → Option Json
  | .key name => current.get? (String.ofList name)
  | .index n =>
      match current with
      | .arr items => items[n]?
      | _ => none

/-- `_json_path`: the value, if it is present. -/
def jsonPath (digits : Digits) (payload : Json) (fieldPath : List Char) :
    Except String (Option Json) :=
  (jsonPathTokens digits fieldPath).map fun tokens =>
    tokens.bind fun tokens => tokens.foldlM pathStep payload

/-! ### Paths -/

namespace PathToken

/-- Neither dots nor brackets. -/
def isKeyChar (c : Char) : Bool := c ≠ '.' && c ≠ '[' && c ≠ ']'

def WellFormed : PathToken → Prop
  | key name => ∀ c ∈ name, isKeyChar c = true
  | index _ => True

/-- A token behind others. -/
def segment : PathToken → List Char
  | key name => '.' :: name
  | index n => '[' :: (Nat.toDigits 10 n ++ [']'])

/-- A token at the start of a path without a dollar sign. -/
def opening : PathToken → List Char
  | key name => name
  | index n => (index n).segment

end PathToken

/-- A path, with or without the dollar sign in front. -/
structure JsonPath where
  rooted : Bool
  tokens : List PathToken
  wellFormed : ∀ t ∈ tokens, t.WellFormed
  nonempty : rooted = false → tokens ≠ []

/-- The text of a path. -/
def JsonPath.text (path : JsonPath) : List Char :=
  if path.rooted then '$' :: path.tokens.flatMap PathToken.segment
  else
    match path.tokens with
    | [] => []
    | token :: tokens => token.opening ++ tokens.flatMap PathToken.segment

namespace PathToken

/-- The digits of an index are not too many for `int`. -/
def Fits (digits : Digits) : PathToken → Prop
  | key _ => True
  | index n => digits.Fits (Nat.toDigits 10 n).length

instance (digits : Digits) (token : PathToken) : Decidable (token.Fits digits) :=
  match token with
  | key _ => inferInstanceAs (Decidable True)
  | index n => inferInstanceAs (Decidable (digits.Fits (Nat.toDigits 10 n).length))

end PathToken

/-- What the loop needs of a token. -/
def PathToken.Read (digits : Digits) (token : PathToken) : Prop :=
  token ≠ .key [] ∧ token.Fits digits

/-! ### Reading what was written -/

section Written

variable {digits : Digits}

theorem foldlM_decimal {cs : List Char} (h : ∀ c ∈ cs, c.isDigit = true) (init : Nat) :
    cs.foldlM (fun n c => (digits.decimal c).map (10 * n + ·)) init =
      some (Nat.ofDigitChars 10 cs init) := by
  induction cs generalizing init with
  | nil => rfl
  | cons c cs ih =>
      obtain ⟨hc, hcs⟩ := List.forall_mem_cons.mp h
      rw [List.foldlM_cons, (digits.ascii c hc).2]
      exact ih hcs _

theorem int?_toDigits (n : Nat) : digits.int? (Nat.toDigits 10 n) =
    if digits.Fits (Nat.toDigits 10 n).length then some n else none := by
  unfold Digits.int?
  rw [foldlM_decimal fun c hc => Json.isDigit_toDigits hc, Nat.ofDigitChars_ten_toDigits]

theorem isSpace_of_isDigit {c : Char} (h : c.isDigit = true) : isSpace c = false := by
  simp only [Char.isDigit, Bool.and_eq_true, decide_eq_true_eq] at h
  have hlow : 48 ≤ c.toNat := h.1
  have hhigh : c.toNat ≤ 57 := h.2
  simp only [isSpace, Bool.or_eq_false_iff, Bool.and_eq_false_iff, decide_eq_false_iff_not,
    beq_eq_false_iff_ne]
  omega

theorem strip_toDigits (n : Nat) : strip (Nat.toDigits 10 n) = Nat.toDigits 10 n := by
  have hends : ∀ cs : List Char, (∀ c ∈ cs, c.isDigit = true) → cs.dropWhile isSpace = cs := by
    intro cs hcs
    cases cs with
    | nil => rfl
    | cons c cs =>
        exact List.dropWhile_cons_of_neg
          (by simp [isSpace_of_isDigit (hcs c List.mem_cons_self)])
  unfold strip
  rw [hends _ fun c hc => Json.isDigit_toDigits hc,
    hends _ fun c hc => Json.isDigit_toDigits (List.mem_reverse.mp hc), List.reverse_reverse]

theorem isDigits_toDigits (n : Nat) : digits.isDigits (Nat.toDigits 10 n) = true := by
  unfold Digits.isDigits
  rw [Bool.and_eq_true, Bool.not_eq_true', List.isEmpty_eq_false_iff, List.all_eq_true]
  exact ⟨Nat.toDigits_ne_nil, fun c hc => (digits.ascii c (Json.isDigit_toDigits hc)).1⟩

/-- The text behind a path begins with a dot or a bracket. -/
def Continues (rest : List Char) : Prop := ∀ c, rest.head? = some c → c = '.' ∨ c = '['

theorem continues_segments (tokens : List PathToken) :
    Continues (tokens.flatMap PathToken.segment) := by
  intro c hc
  cases tokens with
  | nil => cases hc
  | cons token tokens =>
      cases token with
      | key name => exact .inl (Option.some.inj hc).symm
      | index n => exact .inr (Option.some.inj hc).symm

theorem tokensLoop_key {c : Char} {cs rest : List Char}
    (hkey : ∀ d ∈ c :: cs, PathToken.isKeyChar d = true) (hrest : Continues rest) :
    tokensLoop digits (c :: cs ++ rest) =
      (tokensLoop digits rest).map (Option.map (.key (c :: cs) :: ·)) := by
  have hstop : ∀ d ∈ c :: cs, (d ≠ '.' && d ≠ '[') = true := by
    intro d hd
    have hd := hkey d hd
    simp only [PathToken.isKeyChar, Bool.and_eq_true] at hd ⊢
    exact hd.1
  obtain ⟨hc, hcs⟩ := List.forall_mem_cons.mp hstop
  simp only [Bool.and_eq_true, decide_eq_true_eq] at hc
  have htake : rest.takeWhile (fun d => d ≠ '.' && d ≠ '[') = [] ∧
      rest.dropWhile (fun d => d ≠ '.' && d ≠ '[') = rest := by
    cases rest with
    | nil => exact ⟨rfl, rfl⟩
    | cons d rest =>
        rcases hrest d rfl with rfl | rfl
        · exact ⟨rfl, rfl⟩
        · exact ⟨rfl, rfl⟩
  rw [List.cons_append, tokensLoop, if_neg hc.1, if_neg hc.2,
    List.takeWhile_append_of_pos hcs, List.dropWhile_append_of_pos hcs, htake.1, htake.2,
    List.append_nil]

theorem tokensLoop_index (n : Nat) (rest : List Char) :
    tokensLoop digits ((PathToken.index n).segment ++ rest) =
      if digits.Fits (Nat.toDigits 10 n).length then
        (tokensLoop digits rest).map (Option.map (.index n :: ·))
      else .error "ValueError" := by
  have hne : ∀ d ∈ Nat.toDigits 10 n, decide (d ≠ ']') = true := fun d hd =>
    decide_eq_true (Json.isDigit_ne (Json.isDigit_toDigits hd) (by decide))
  have htake : (Nat.toDigits 10 n ++ ']' :: rest).takeWhile (fun d => d ≠ ']') =
      Nat.toDigits 10 n := by
    rw [List.takeWhile_append_of_pos hne, List.takeWhile_cons_of_neg (by decide), List.append_nil]
  have hdrop : ((Nat.toDigits 10 n ++ ']' :: rest).dropWhile fun d => d ≠ ']').drop 1 = rest := by
    rw [List.dropWhile_append_of_pos hne, List.dropWhile_cons_of_neg (by decide)]
    rfl
  have hsegment : (PathToken.index n).segment ++ rest = '[' :: (Nat.toDigits 10 n ++ ']' :: rest) := by
    simp [PathToken.segment]
  rw [hsegment, tokensLoop, if_neg (by decide), if_pos rfl,
    if_pos (List.mem_append_right _ List.mem_cons_self)]
  simp only [htake, strip_toDigits, isDigits_toDigits, int?_toDigits, hdrop]
  rw [if_neg (by decide)]
  split_ifs <;> rfl

theorem tokensLoop_opening (token : PathToken) (rest : List Char) :
    tokensLoop digits (token.opening ++ rest) = tokensLoop digits (token.segment ++ rest) := by
  cases token with
  | index n => rfl
  | key name =>
      change _ = tokensLoop digits ('.' :: (name ++ rest))
      rw [tokensLoop, if_pos rfl]
      rfl

/-- The loop loses empty keys, and raises at an index that is too long for `int`. -/
theorem tokensLoop_segments {tokens : List PathToken} (h : ∀ t ∈ tokens, t.WellFormed) :
    tokensLoop digits (tokens.flatMap PathToken.segment) =
      if ∀ t ∈ tokens, t.Fits digits then .ok (some (tokens.filter fun t => t ≠ .key []))
      else .error "ValueError" := by
  induction tokens with
  | nil =>
      rw [if_pos fun t ht => absurd ht List.not_mem_nil]
      exact tokensLoop.eq_1 digits
  | cons token tokens ih =>
      obtain ⟨htoken, htokens⟩ := List.forall_mem_cons.mp h
      specialize ih htokens
      rw [List.flatMap_cons, ← tokensLoop_opening]
      simp only [List.forall_mem_cons]
      cases token with
      | key name =>
          have hkey : (PathToken.key name).Fits digits := trivial
          simp only [hkey, true_and]
          cases name with
          | nil =>
              rw [List.filter_cons_of_neg (by simp)]
              exact ih
          | cons c cs =>
              rw [List.filter_cons_of_pos (by simp)]
              refine (tokensLoop_key htoken (continues_segments tokens)).trans ?_
              rw [ih]
              split_ifs <;> rfl
      | index n =>
          rw [tokensLoop_opening, tokensLoop_index, ih, List.filter_cons_of_pos (by simp)]
          change (if (PathToken.index n).Fits digits then _ else _) = _
          by_cases hn : (PathToken.index n).Fits digits
          · simp only [hn, true_and, if_true]
            split_ifs <;> rfl
          · simp only [hn, false_and, if_false]

theorem tokensLoop_segments_iff {tokens : List PathToken} (h : ∀ t ∈ tokens, t.WellFormed) :
    tokensLoop digits (tokens.flatMap PathToken.segment) = .ok (some tokens) ↔
      ∀ t ∈ tokens, t.Read digits := by
  rw [tokensLoop_segments h]
  simp only [PathToken.Read, forall_and]
  split_ifs with hfits
  · simp only [Except.ok.injEq, Option.some.injEq, List.filter_eq_self, decide_eq_true_eq]
    exact (and_iff_left hfits).symm
  · exact iff_of_false (by simp) fun hread => hfits hread.2

/-- Behind a dollar sign the loop reads all tokens. -/
theorem jsonPathTokens_rooted {tokens : List PathToken}
    (h : strip ('$' :: tokens.flatMap PathToken.segment) =
      '$' :: tokens.flatMap PathToken.segment) :
    jsonPathTokens digits ('$' :: tokens.flatMap PathToken.segment) =
      tokensLoop digits (tokens.flatMap PathToken.segment) := by
  unfold jsonPathTokens
  simp only [h]
  rw [if_neg (List.cons_ne_nil _ _)]
  cases tokens with
  | nil =>
      have hroot : '$' :: [].flatMap PathToken.segment = ['$'] := rfl
      rw [if_pos hroot]
      exact (tokensLoop.eq_1 digits).symm
  | cons token tokens =>
      cases token with
      | key name =>
          have hdot : "$.".toList.isPrefixOf
              ('$' :: (PathToken.key name :: tokens).flatMap PathToken.segment) = true := rfl
          rw [if_neg (by simp [PathToken.segment]), if_pos hdot]
          exact tokensLoop_opening (.key name) (tokens.flatMap PathToken.segment)
      | index n =>
          have hbracket : "$[".toList.isPrefixOf
              ('$' :: (PathToken.index n :: tokens).flatMap PathToken.segment) = true := rfl
          rw [if_neg (by simp [PathToken.segment]), if_neg (by simp [PathToken.segment]),
            if_pos hbracket]
          rfl

/-- Without a dollar sign it does, unless the first key is one itself. -/
theorem jsonPathTokens_bare {token : PathToken} {tokens : List PathToken}
    (h : strip (token.opening ++ tokens.flatMap PathToken.segment) =
      token.opening ++ tokens.flatMap PathToken.segment)
    (hne : token.opening ++ tokens.flatMap PathToken.segment ≠ [])
    (htoken : token.WellFormed) (hdollar : token ≠ .key ['$']) :
    jsonPathTokens digits (token.opening ++ tokens.flatMap PathToken.segment) =
      tokensLoop digits ((token :: tokens).flatMap PathToken.segment) := by
  have hstart : ∀ c, c = '.' ∨ c = '[' →
      ∀ more, token.opening ++ tokens.flatMap PathToken.segment ≠ '$' :: c :: more := by
    intro c hc more heq
    cases token with
    | index n => exact absurd (List.cons.inj heq).1 (by decide)
    | key name =>
        rcases List.append_eq_cons_iff.mp heq with ⟨hname, htail⟩ | ⟨name', hname, htail⟩
        · have hhead := continues_segments tokens '$' (by rw [htail]; rfl)
          revert hhead
          decide
        · have hname : name = '$' :: name' := hname
          cases name' with
          | nil => exact hdollar (by rw [hname])
          | cons d name' =>
              obtain ⟨rfl, -⟩ := List.cons.inj htail
              have hkey := htoken c (by rw [hname]; simp)
              rcases hc with rfl | rfl
              · exact absurd hkey (by decide)
              · exact absurd hkey (by decide)
  have halone : token.opening ++ tokens.flatMap PathToken.segment ≠ ['$'] := by
    intro heq
    cases token with
    | index n => exact absurd (List.cons.inj heq).1 (by decide)
    | key name =>
        rcases List.append_eq_singleton_iff.mp heq with ⟨-, htail⟩ | ⟨hname, -⟩
        · have hhead := continues_segments tokens '$' (by rw [htail]; rfl)
          revert hhead
          decide
        · exact hdollar (congrArg PathToken.key hname)
  have hnot : ∀ c, c = '.' ∨ c = '[' →
      ¬ ['$', c].isPrefixOf (token.opening ++ tokens.flatMap PathToken.segment) = true := by
    intro c hc hprefix
    obtain ⟨more, hmore⟩ := List.isPrefixOf_iff_prefix.mp hprefix
    exact hstart c hc more hmore.symm
  have hdot : ¬ "$.".toList.isPrefixOf (token.opening ++ tokens.flatMap PathToken.segment) = true :=
    hnot '.' (.inl rfl)
  have hbracket :
      ¬ "$[".toList.isPrefixOf (token.opening ++ tokens.flatMap PathToken.segment) = true :=
    hnot '[' (.inr rfl)
  unfold jsonPathTokens
  simp only [h]
  rw [if_neg hne, if_neg halone, if_neg hdot, if_neg hbracket, tokensLoop_opening]
  rfl

/-- With a dollar sign for its first key, the path is taken for one behind a dollar sign. -/
theorem jsonPathTokens_dollar {tokens : List PathToken}
    (h : strip ('$' :: tokens.flatMap PathToken.segment) =
      '$' :: tokens.flatMap PathToken.segment) (hwf : ∀ t ∈ tokens, t.WellFormed) :
    jsonPathTokens digits ('$' :: tokens.flatMap PathToken.segment) ≠
      .ok (some (.key ['$'] :: tokens)) := by
  rw [jsonPathTokens_rooted h, tokensLoop_segments hwf]
  split_ifs
  · intro heq
    have hlength := congrArg List.length (Option.some.inj (Except.ok.inj heq))
    have hle := List.length_filter_le (fun t => decide (t ≠ PathToken.key [])) tokens
    rw [hlength, List.length_cons] at hle
    omega
  · intro heq
    cases heq

/-- Which tokens a path without blanks at its ends is read with. -/
theorem jsonPathTokens_text_iff {path : JsonPath} (h : strip path.text = path.text) :
    jsonPathTokens digits path.text = .ok (some path.tokens) ↔
      (∀ t ∈ path.tokens, t.Read digits) ∧
      (path.rooted = false → path.tokens.head? ≠ some (.key ['$'])) := by
  obtain ⟨rooted, tokens, hwf, hbare⟩ := path
  cases rooted with
  | true =>
      change jsonPathTokens digits ('$' :: _) = _ ↔ _
      rw [jsonPathTokens_rooted h, tokensLoop_segments_iff hwf]
      exact (and_iff_left fun hrooted => Bool.noConfusion hrooted).symm
  | false =>
      cases tokens with
      | nil => exact absurd rfl (hbare rfl)
      | cons token tokens =>
          by_cases hdollar : token = .key ['$']
          · subst hdollar
            exact iff_of_false (jsonPathTokens_dollar h (List.forall_mem_cons.mp hwf).2)
              fun hread => hread.2 rfl rfl
          · change jsonPathTokens digits (token.opening ++ _) = _ ↔ _
            have hhead : (false = false → (token :: tokens).head? ≠ some (.key ['$'])) :=
              fun _ heq => hdollar (Option.some.inj heq)
            refine Iff.trans ?_ (and_iff_left hhead).symm
            by_cases hempty : token.opening ++ tokens.flatMap PathToken.segment = []
            · refine iff_of_false ?_ fun hread => ?_
              · rw [hempty]
                intro heq
                cases heq
              · have hopening := (List.append_eq_nil_iff.mp hempty).1
                cases token with
                | key name =>
                    exact (hread _ List.mem_cons_self).1 (congrArg PathToken.key hopening)
                | index n => cases hopening
            · rw [jsonPathTokens_bare h hempty (hwf _ List.mem_cons_self) hdollar,
                tokensLoop_segments_iff hwf]

end Written

/-! ### Where reading raises -/

/-- What stands between brackets, up to one that is not closed. -/
def brackets : List Char → List (List Char)
  | [] => []
  | c :: cs =>
      if c = '[' then
        if ']' ∈ cs then
          (cs.takeWhile fun d => d ≠ ']') :: brackets ((cs.dropWhile fun d => d ≠ ']').drop 1)
        else []
      else brackets cs
termination_by text => text.length
decreasing_by
  · have hle := (List.dropWhile_sublist (fun d => d ≠ ']') (l := cs)).length_le
    simp only [List.length_drop, List.length_cons]
    omega
  · exact Nat.lt_succ_self _

/-- An index between brackets, if it is one that `int` reads. -/
def Digits.index? (digits : Digits) (raw : List Char) : Option Nat :=
  if digits.isDigits (strip raw) then digits.int? (strip raw) else none

/-- The first brackets that hold no readable index hold no digits. -/
def PathReadable (digits : Digits) (fieldPath : List Char) : Prop :=
  ∀ raw, (brackets (strip fieldPath)).find? (fun raw => (digits.index? raw).isNone) = some raw →
    digits.isDigits (strip raw) = false

section Raises

variable {digits : Digits}

theorem brackets_cons {c : Char} (h : c ≠ '[') (cs : List Char) :
    brackets (c :: cs) = brackets cs := by
  rw [brackets, if_neg h]

theorem brackets_append {cs : List Char} (h : '[' ∉ cs) (rest : List Char) :
    brackets (cs ++ rest) = brackets rest := by
  induction cs with
  | nil => rfl
  | cons c cs ih =>
      rw [List.mem_cons, not_or] at h
      rw [List.cons_append, brackets_cons (Ne.symm h.1), ih h.2]

theorem tokensLoop_raises_iff (text : List Char) :
    (∃ e, tokensLoop digits text = .error e) ↔
      ∃ raw, (brackets text).find? (fun raw => (digits.index? raw).isNone) = some raw ∧
        digits.isDigits (strip raw) = true := by
  have hmap : ∀ {x : Except String (Option (List PathToken))} {f : Option (List PathToken) →
      Option (List PathToken)}, (∃ e, x.map f = .error e) ↔ ∃ e, x = .error e := by
    intro x f
    cases x <;> simp [Except.map]
  fun_induction tokensLoop digits text with
  | case1 => simp [brackets]
  | case2 cs ih => rwa [brackets_cons (by decide)]
  | case3 cs hclosed rawIndex hdigits =>
      have hnone : digits.index? (cs.takeWhile fun d => d ≠ ']') = none :=
        if_neg (by rw [hdigits]; decide)
      rw [brackets, if_pos rfl, if_pos hclosed, List.find?_cons_of_pos (by rw [hnone]; rfl)]
      refine iff_of_false (by simp) ?_
      rintro ⟨raw, hraw, htrue⟩
      obtain rfl := Option.some.inj hraw
      exact absurd (hdigits.symm.trans htrue) (by decide)
  | case4 cs hclosed rawIndex hdigits hint =>
      rw [Bool.not_eq_false] at hdigits
      have hnone : digits.index? (cs.takeWhile fun d => d ≠ ']') = none :=
        (if_pos hdigits).trans hint
      rw [brackets, if_pos rfl, if_pos hclosed, List.find?_cons_of_pos (by rw [hnone]; rfl)]
      exact iff_of_true ⟨_, rfl⟩ ⟨_, rfl, hdigits⟩
  | case5 cs hclosed rawIndex hdigits n hint _ ih =>
      rw [Bool.not_eq_false] at hdigits
      have hsome : digits.index? (cs.takeWhile fun d => d ≠ ']') = some n :=
        (if_pos hdigits).trans hint
      refine hmap.trans (ih.trans ?_)
      conv_rhs => rw [brackets]
      rw [if_pos rfl, if_pos hclosed, List.find?_cons_of_neg (by rw [hsome]; exact Bool.false_ne_true)]
  | case6 cs hopen =>
      rw [brackets, if_pos rfl, if_neg hopen]
      exact iff_of_false (by simp) (by simp)
  | case7 c cs hdot hbracket ih =>
      refine hmap.trans (ih.trans ?_)
      rw [brackets_cons hbracket]
      have hsplit := List.takeWhile_append_dropWhile (p := fun d => d ≠ '.' && d ≠ '[') (l := cs)
      conv_rhs => rw [← hsplit]
      rw [brackets_append]
      intro hmem
      have hmem := List.mem_takeWhile_imp hmem
      revert hmem
      decide

/-- Reading a path raises where `isdigit` holds of an index that `int` does not read. -/
theorem jsonPathTokens_raises_iff {fieldPath : List Char} :
    (∃ e, jsonPathTokens digits fieldPath = .error e) ↔ ¬ PathReadable digits fieldPath := by
  have hreadable : ¬ PathReadable digits fieldPath ↔
      ∃ raw, (brackets (strip fieldPath)).find? (fun raw => (digits.index? raw).isNone) = some raw ∧
        digits.isDigits (strip raw) = true := by
    unfold PathReadable
    push Not
    simp only [Bool.ne_false_iff]
  rw [hreadable]
  unfold jsonPathTokens
  simp only
  split_ifs with hempty hroot hdot hbracket
  · rw [hempty]
    simp [brackets]
  · rw [hroot]
    simp [brackets]
  · obtain ⟨more, hmore⟩ := List.isPrefixOf_iff_prefix.mp hdot
    rw [← hmore]
    change (∃ e, tokensLoop digits more = .error e) ↔ _
    rw [tokensLoop_raises_iff, brackets_append (by decide)]
  · obtain ⟨more, hmore⟩ := List.isPrefixOf_iff_prefix.mp hbracket
    rw [← hmore]
    change (∃ e, tokensLoop digits ('[' :: more) = .error e) ↔ _
    have hdollar : brackets ("$[".toList ++ more) = brackets ('[' :: more) :=
      brackets_cons (by decide) _
    rw [tokensLoop_raises_iff, hdollar]
  · exact tokensLoop_raises_iff _

end Raises

end Ophelia
