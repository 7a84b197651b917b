import Mathlib.Data.List.Basic

/-!
# Ophelia.Lib.Urls

How `urllib.parse.urlsplit` takes a text apart. It drops control characters and blanks in front and
tabs and line ends everywhere, then cuts off the scheme, the network location, the fragment and the
query; what is left is the path.
-/

namespace Urls

structure SplitResult where
  scheme : List Char
  netloc : List Char
  path : List Char
  query : List Char
  fragment : List Char

/-- The checks of a network location that rest on tables: its normal form and its IP literals. -/
structure NetlocChecks where
  passes : List Char → Bool
  plain : ∀ netloc, (∀ c ∈ netloc, c.isAlphanum = true) → passes netloc = true

def isControlOrSpace (c : Char) : Bool := decide (c.toNat ≤ 32)

/-- `_UNSAFE_URL_BYTES_TO_REMOVE`. -/
def isRemoved (c : Char) : Bool := c == '\t' || c == '\r' || c == '\n'

def isSchemeChar (c : Char) : Bool := c.isAlphanum || c == '+' || c == '-' || c == '.'

/-- What stands before the first such character, and what stands behind it. -/
def cut (mark : Char) (cs : List Char) : List Char × List Char :=
  (cs.takeWhile fun c => c ≠ mark, (cs.dropWhile fun c => c ≠ mark).drop 1)

/-- The scheme, in lower case, and the rest. -/
def splitScheme (cs : List Char) : List Char × List Char :=
  let scheme := cs.takeWhile fun c => c ≠ ':'
  if ':' ∈ cs ∧ scheme.head?.any Char.isAlpha ∧ scheme.all isSchemeChar then
    (scheme.map Char.toLower, (cut ':' cs).2)
  else ([], cs)

/-- `_splitnetloc`. -/
def splitNetloc (cs : List Char) : List Char × List Char :=
  if "//".toList.isPrefixOf cs then
    ((cs.drop 2).takeWhile fun c => c ≠ '/' && c ≠ '?' && c ≠ '#',
      (cs.drop 2).dropWhile fun c => c ≠ '/' && c ≠ '?' && c ≠ '#')
  else ([], cs)

/-- The text that is taken apart. -/
def cleaned (url : List Char) : List Char :=
  (url.dropWhile isControlOrSpace).filter fun c => !isRemoved c

/-- `urllib.parse.urlsplit`, without a value where it raises. -/
def urlsplit (checks : NetlocChecks) (url : List Char) : Option SplitResult :=
  let (scheme, rest) := splitScheme (cleaned url)
  let (netloc, rest) := splitNetloc rest
  if decide ('[' ∈ netloc) ≠ decide (']' ∈ netloc) ∨ checks.passes netloc = false then none
  else
    let (rest, fragment) := cut '#' rest
    let (path, query) := cut '?' rest
    some ⟨scheme, netloc, path, query, fragment⟩

namespace SplitResult

/-- Behind the last `@` of the network location. -/
def hostinfo (parsed : SplitResult) : List Char :=
  (parsed.netloc.reverse.takeWhile fun c => c ≠ '@').reverse

/-- `hostname`, before its case is changed; empty where there is none. -/
def hostname (parsed : SplitResult) : List Char :=
  if '[' ∈ parsed.hostinfo then (cut ']' (cut '[' parsed.hostinfo).2).1
  else (cut ':' parsed.hostinfo).1

end SplitResult

/-! ### Lists and filters -/

section Lists

variable {α : Type*} {p q : α → Bool} {l : List α}

/-- Filtering keeps a cut at a character that is kept. -/
theorem takeWhile_filter (h : ∀ a, q a = false → p a = true) :
    (l.filter p).takeWhile q = (l.takeWhile q).filter p := by
  induction l with
  | nil => rfl
  | cons a l ih =>
      cases hq : q a with
      | true =>
          rw [List.takeWhile_cons_of_pos hq]
          cases hp : p a with
          | true => rw [List.filter_cons_of_pos hp, List.takeWhile_cons_of_pos hq, ih,
              List.filter_cons_of_pos hp]
          | false =>
              have hnot : ¬ p a = true := Bool.not_eq_true _ ▸ hp
              rw [List.filter_cons_of_neg hnot, ih, List.filter_cons_of_neg hnot]
      | false =>
          have hnot : ¬ q a = true := Bool.not_eq_true _ ▸ hq
          rw [List.takeWhile_cons_of_neg hnot, List.filter_cons_of_pos (h a hq),
            List.takeWhile_cons_of_neg hnot]
          rfl

theorem dropWhile_filter (h : ∀ a, q a = false → p a = true) :
    (l.filter p).dropWhile q = (l.dropWhile q).filter p := by
  have hsplit := List.takeWhile_append_dropWhile (p := q) (l := l.filter p)
  have hparts : l.filter p = (l.takeWhile q).filter p ++ (l.dropWhile q).filter p := by
    rw [← List.filter_append, List.takeWhile_append_dropWhile]
  rw [takeWhile_filter h] at hsplit
  exact List.append_cancel_left (hsplit.trans hparts)

/-- A text that a filter leaves at the end stands there spread out, from its first element on. -/
theorem exists_of_suffix_filter {a : α} {suffix : List α} (h : a :: suffix <:+ l.filter p) :
    ∃ front back, l = front ++ a :: back ∧ (a :: back).filter p = a :: suffix := by
  obtain ⟨before, hbefore⟩ := h
  obtain ⟨l₁, l₂, rfl, -, hsuffix⟩ := List.filter_eq_append_iff.mp hbefore.symm
  obtain ⟨skipped, back, rfl, -, ha, hback⟩ := List.filter_eq_cons_iff.mp hsuffix
  refine ⟨l₁ ++ skipped, back, (List.append_assoc _ _ _).symm, ?_⟩
  rw [List.filter_cons_of_pos ha, hback]

end Lists

end Urls
