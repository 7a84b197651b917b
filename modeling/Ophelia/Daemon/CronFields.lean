import Ophelia.Lib.Calendar
import Ophelia.Lib.PyText
import Ophelia.Lib.Results

/-!
# Ophelia.Daemon.CronFields

Cron expressions (`cron.py`) against the sets of values they stand for. A field is a list of items
between commas; an item is a number, a range, or a mark for the whole range, and may go in steps.

`Denotes` gives each field its set, and `cron_semantics` says that the parser agrees with it: an
instant matches exactly if each of its five values is in the set of its field, and what stands for
nothing is refused with a `CronExpressionError`. Left out of the second half are texts in which a
number has digits that `str.isdigit` accepts and `int` does not read.
-/

namespace Ophelia

namespace CronFields

open PyText Calendar

open Results (bind_eq_ok bind_eq_error mapM_eq_ok mem_of_mapM_error)

/-! ### Numbers -/

/-- The digits of Unicode, as `str.isdigit` and `int` know them, and the longest text of digits
that `int` converts. -/
structure DigitTable where
  /-- The value of a decimal digit. -/
  value : Char → Option Nat
  /-- Digits that are not decimal, such as superscripts. -/
  other : Char → Bool
  limit : Option Nat
  other_value : ∀ c, other c = true → value c = none
  marks : ∀ c ∈ [',', '/', '-', '*', '?'], value c = none

inductive CronFailure where
  | cronExpressionError (message : String)
  /-- `int` refuses its argument. -/
  | valueError
deriving DecidableEq

abbrev Parsed := Except CronFailure

/-- Raise a `CronExpressionError` unless `p` holds. -/
def require (p : Prop) [Decidable p] (message : String) : Parsed Unit :=
  if p then .ok () else .error (.cronExpressionError message)

namespace DigitTable

variable (D : DigitTable)

/-- `value.isdigit()`. -/
def isdigit (cs : List Char) : Bool :=
  !cs.isEmpty && cs.all fun c => (D.value c).isSome || D.other c

/-- `int(value)`, on a text of digits. -/
def int (cs : List Char) : Option Nat :=
  if D.limit.any (· < cs.length) then none
  else cs.foldlM (fun n c => (D.value c).map (n * 10 + ·)) 0

/-- A text of digits that reads as a number. -/
def Reads (cs : List Char) (n : Nat) : Prop := D.isdigit cs = true ∧ D.int cs = some n

/-- A text of digits that reads as none. -/
def Odd (cs : List Char) : Prop := D.isdigit cs = true ∧ D.int cs = none

end DigitTable

variable (D : DigitTable)

/-- `_number`. -/
def number (value : List Char) (minimum maximum : Nat) : Parsed Nat :=
  if D.isdigit value = false then .error (.cronExpressionError "Cron values must be integers.")
  else
    match D.int value with
    | none => .error .valueError
    | some parsed =>
        if minimum ≤ parsed ∧ parsed ≤ maximum then .ok parsed
        else .error (.cronExpressionError ("Cron value " ++ toString parsed ++ " is outside " ++
          toString minimum ++ " through " ++ toString maximum ++ "."))

/-! ### Fields -/

/-- The values between the slash of an item and its end. -/
def stepOf (minimum maximum : Nat) : Option (List Char) → Parsed Nat
  | none => .ok 1
  | some step => number D step 1 (maximum - minimum + 1)

/-- The first and the last value of the base of an item. -/
def bounds (minimum maximum : Nat) (base : List Char) (stepped : Bool) : Parsed (Nat × Nat) :=
  if base = ['*'] ∨ base = ['?'] then .ok (minimum, maximum)
  else
    match cut? ['-'] base with
    | some (rawStart, rawEnd) => do
        let start ← number D rawStart minimum maximum
        let last ← number D rawEnd minimum maximum
        require (start ≤ last) "Cron ranges must be ascending."
        return (start, last)
    | none => do
        let start ← number D base minimum maximum
        return (start, if stepped then maximum else start)

/-- `range(start, end + 1, increment)`. -/
def stepped (first last increment : Nat) : List Nat :=
  (List.range (last + 1)).filter fun n => first ≤ n ∧ (n - first) % increment = 0

/-- One round of the loop of `_field`. -/
def part (minimum maximum : Nat) (item : List Char) : Parsed (List Nat) := do
  require (item ≠ []) "Cron fields may not contain empty list items."
  let (base, step) := match cut? ['/'] item with
    | some (base, step) => (base, some step)
    | none => (item, none)
  let increment ← stepOf D minimum maximum step
  let (start, last) ← bounds D minimum maximum base step.isSome
  return stepped start last increment

/-- `_field`. -/
def field (value : List Char) (minimum maximum : Nat) (weekday : Bool) : Parsed (List Nat) := do
  let parts ← (value.splitOn ',').mapM (part D minimum maximum)
  let result := parts.flatten
  -- Sunday is 0, and 7 too.
  let result := if weekday && result.contains 7 then 0 :: result.filter (· ≠ 7) else result
  require (result ≠ []) "Cron field selects no values."
  return result

/-- `_RANGES`, with the position of the weekday. -/
def ranges : List (Nat × Nat × Bool) :=
  [(0, 59, false), (0, 23, false), (1, 31, false), (1, 12, false), (0, 7, true)]

/-- `_parse`. -/
def parse (expression : String) : Parsed (List (List Nat)) := do
  let fields := splitWords [] expression.toList
  require (fields.length = 5) "Cron expression must contain five fields."
  (fields.zip ranges).mapM fun (value, minimum, maximum, weekday) =>
    field D value minimum maximum weekday

/-- `datetime.weekday`: Monday is 0. -/
def weekday (t : DateTime) : Nat := (t.ordinal + 6) % 7

/-- The values of an instant that the fields are about. -/
def observed (instant : DateTime) : List Nat :=
  [instant.minute, instant.hour, instant.day, instant.month, (weekday instant + 1) % 7]

/-- `cron_matches`. -/
def cronMatches (expression : String) (instant : DateTime) : Parsed Bool := do
  let values ← parse D expression
  return ((observed instant).zip values).all fun p => p.2.contains p.1

/-! ### What a field stands for -/

/-- The base of an item, with its first and last value, and whether it is a single number. -/
inductive Base (marks : List Char) (lo hi : Nat) : List Char → Nat → Nat → Bool → Prop
  | whole {c : Char} (hc : c ∈ marks) : Base marks lo hi [c] lo hi false
  | range {a b : List Char} {m n : Nat} (ha : D.Reads a m) (hb : D.Reads b n) (hlo : lo ≤ m)
      (hle : m ≤ n) (hhi : n ≤ hi) : Base marks lo hi (a ++ '-' :: b) m n false
  | single {a : List Char} {m : Nat} (ha : D.Reads a m) (hlo : lo ≤ m) (hhi : m ≤ hi) :
      Base marks lo hi a m m true

/-- An item and its values. A single number with a step goes on to the end of the range. -/
inductive Item (marks : List Char) (lo hi : Nat) : List Char → (Nat → Prop) → Prop
  | plain {base : List Char} {m n : Nat} {single : Bool}
      (hbase : Base D marks lo hi base m n single) :
      Item marks lo hi base fun v => m ≤ v ∧ v ≤ n
  | stepped {base step : List Char} {m n k : Nat} {single : Bool}
      (hbase : Base D marks lo hi base m n single) (hstep : D.Reads step k) (hpos : 1 ≤ k)
      (hk : k ≤ hi - lo + 1) :
      Item marks lo hi (base ++ '/' :: step) fun v =>
        m ≤ v ∧ v ≤ (if single then hi else n) ∧ (v - m) % k = 0

/-- A field and its values: those of its items, where on a weekday 7 is the same as 0. -/
def Field (marks : List Char) (lo hi : Nat) (weekday : Bool) (value : List Char)
    (S : Nat → Prop) : Prop :=
  ∃ sets, List.Forall₂ (Item D marks lo hi) (value.splitOn ',') sets ∧
    ∀ v, S v ↔ (∃ T ∈ sets, T v) ∧ ¬ (weekday = true ∧ v = 7) ∨
      weekday = true ∧ v = 0 ∧ ∃ T ∈ sets, T 7

/-- An expression and the values of its five fields. -/
def Denotes (marks : List Char) (expression : String) (sets : List (Nat → Prop)) : Prop :=
  (splitWords [] expression.toList).length = 5 ∧
    List.Forall₂ (fun (p : List Char × Nat × Nat × Bool) S =>
      Field D marks p.2.1 p.2.2.1 p.2.2.2 p.1 S)
      ((splitWords [] expression.toList).zip ranges) sets

/-- What stands for the whole range of a field. -/
def wholeMarks : List Char := ['*', '?']

/-! ### Reading numbers -/

section Numbers

variable {D} {cs : List Char} {n minimum maximum : Nat}

theorem foldlM_value_isSome {k : Nat}
    (h : cs.foldlM (fun n c => (D.value c).map (n * 10 + ·)) k = some n) :
    ∀ c ∈ cs, (D.value c).isSome = true := by
  induction cs generalizing k with
  | nil => simp
  | cons c cs ih =>
      rw [List.foldlM_cons] at h
      cases hc : D.value c with
      | none =>
          rw [hc] at h
          cases h
      | some v =>
          rw [hc] at h
          intro d hd
          rcases List.mem_cons.mp hd with rfl | hd
          · rw [hc]
            rfl
          · exact ih h d hd

/-- A number has none of the marks of the grammar. -/
theorem Reads.not_mem (h : D.Reads cs n) {c : Char} (hc : c ∈ [',', '/', '-', '*', '?']) :
    c ∉ cs := by
  intro hmem
  have hint := h.2
  unfold DigitTable.int at hint
  split at hint
  · cases hint
  · have hsome := foldlM_value_isSome hint c hmem
    rw [D.marks c hc] at hsome
    cases hsome

theorem number_eq_ok : number D cs minimum maximum = .ok n ↔
    D.Reads cs n ∧ minimum ≤ n ∧ n ≤ maximum := by
  unfold number DigitTable.Reads
  cases hdigit : D.isdigit cs with
  | false => simp
  | true =>
      cases hint : D.int cs with
      | none => simp
      | some m =>
          by_cases hrange : minimum ≤ m ∧ m ≤ maximum
          · simp only [Bool.true_eq_false, if_false, hrange, and_self, if_true, Except.ok.injEq,
              Option.some.injEq, true_and]
            constructor
            · rintro rfl
              exact ⟨rfl, hrange⟩
            · intro h
              exact h.1
          · simp only [Bool.true_eq_false, if_false, if_neg hrange, reduceCtorEq, false_iff,
              Option.some.injEq, true_and]
            rintro ⟨rfl, h⟩
            exact hrange h

/-- What a parser raises on a text: a `CronExpressionError`, unless a part of the text is made of
digits that `int` does not read. -/
def Refused (D : DigitTable) (cs : List Char) (e : CronFailure) : Prop :=
  (∃ message, e = .cronExpressionError message) ∨ e = .valueError ∧ ∃ w, w <:+: cs ∧ D.Odd w

theorem Refused.mono {ds : List Char} {e : CronFailure} (h : Refused D cs e) (hsub : cs <:+: ds) :
    Refused D ds e := by
  rcases h with h | ⟨he, w, hw, hodd⟩
  · exact .inl h
  · exact .inr ⟨he, w, hw.trans hsub, hodd⟩

theorem refused_of_number {e : CronFailure} (h : number D cs minimum maximum = .error e) :
    Refused D cs e := by
  unfold number at h
  cases hdigit : D.isdigit cs with
  | false =>
      rw [hdigit] at h
      cases h
      exact .inl ⟨_, rfl⟩
  | true =>
      rw [hdigit] at h
      cases hint : D.int cs with
      | none =>
          rw [hint] at h
          cases h
          exact .inr ⟨rfl, cs, List.infix_rfl, hdigit, hint⟩
      | some m =>
          rw [hint] at h
          simp only [Bool.true_eq_false, if_false] at h
          split at h
          · cases h
          · cases h
            exact .inl ⟨_, rfl⟩

theorem refused_of_require {p : Prop} [Decidable p] {message : String} {e : CronFailure}
    (h : require p message = .error e) : Refused D cs e := by
  unfold require at h
  split at h
  · cases h
  · cases h
    exact .inl ⟨_, rfl⟩

theorem require_eq_ok {p : Prop} [Decidable p] {message : String} {u : Unit} :
    require p message = .ok u ↔ p := by
  unfold require
  by_cases hp : p
  · simp [hp]
  · simp [hp]

end Numbers

/-! ### Searching for a mark -/

section Marks

variable {c : Char} {cs a b : List Char}

theorem cut?_mark_append (ha : c ∉ a) : cut? [c] (a ++ c :: b) = some (a, b) := by
  induction a with
  | nil => simp [cut?]
  | cons d a ih =>
      have hd : c ≠ d := fun h => ha (h ▸ List.mem_cons_self)
      have ha' : c ∉ a := fun h => ha (List.mem_cons_of_mem _ h)
      simp [cut?, hd, ih ha']

theorem cut?_mark_of_not_mem (h : c ∉ cs) : cut? [c] cs = none := by
  induction cs with
  | nil => rfl
  | cons d cs ih =>
      have hd : c ≠ d := fun heq => h (heq ▸ List.mem_cons_self)
      have hcs : c ∉ cs := fun hmem => h (List.mem_cons_of_mem _ hmem)
      simp [cut?, hd, ih hcs]

theorem append_of_cut?_mark (h : cut? [c] cs = some (a, b)) : cs = a ++ c :: b := by
  by_cases hmem : c ∈ cs
  · obtain ⟨a', b', rfl, ha'⟩ := List.eq_append_cons_of_mem hmem
    rw [cut?_mark_append ha'] at h
    cases h
    rfl
  · rw [cut?_mark_of_not_mem hmem] at h
    cases h

end Marks

/-! ### Items -/

section Items

variable {D} {lo hi m n : Nat} {base step item : List Char} {S : Nat → Prop}

theorem Base.not_mem_slash {single : Bool} (h : Base D wholeMarks lo hi base m n single) :
    '/' ∉ base := by
  cases h with
  | whole hc =>
      intro hmem
      rw [← List.mem_singleton.mp hmem] at hc
      exact absurd hc (by decide)
  | range ha hb =>
      intro hmem
      rcases List.mem_append.mp hmem with hmem | hmem
      · exact Reads.not_mem ha (by simp) hmem
      · rcases List.mem_cons.mp hmem with heq | hmem
        · exact absurd heq (by decide)
        · exact Reads.not_mem hb (by simp) hmem
  | single ha =>
      exact Reads.not_mem ha (by simp)

theorem Reads.ne_mark {cs : List Char} (h : D.Reads cs n) : ¬ (cs = ['*'] ∨ cs = ['?']) := by
  rintro (rfl | rfl)
  · exact Reads.not_mem h (c := '*') (by simp) (by simp)
  · exact Reads.not_mem h (c := '?') (by simp) (by simp)

theorem bounds_of_base {single : Bool} (h : Base D wholeMarks lo hi base m n single)
    (stepped : Bool) :
    bounds D lo hi base stepped = .ok (m, if single && stepped then hi else n) := by
  unfold bounds
  cases h with
  | whole hc =>
      rw [if_pos]
      · rfl
      · simpa [wholeMarks] using hc
  | range ha hb hlo hle hhi =>
      rename_i a b
      have hmark : ¬ (a ++ '-' :: b = ['*'] ∨ a ++ '-' :: b = ['?']) := by
        rintro (heq | heq)
        · exact absurd (heq ▸ List.mem_append_right a List.mem_cons_self) (by decide : '-' ∉ ['*'])
        · exact absurd (heq ▸ List.mem_append_right a List.mem_cons_self) (by decide : '-' ∉ ['?'])
      rw [if_neg hmark, cut?_mark_append (Reads.not_mem ha (by simp))]
      have hstart := number_eq_ok.mpr ⟨ha, hlo, hle.trans hhi⟩
      have hlast := number_eq_ok.mpr ⟨hb, hlo.trans hle, hhi⟩
      have hascending : require (m ≤ n) "Cron ranges must be ascending." = .ok () := if_pos hle
      simp only [hstart, hlast, hascending, bind, Except.bind]
      rfl
  | single ha hlo hhi =>
      rw [if_neg (Reads.ne_mark ha), cut?_mark_of_not_mem (Reads.not_mem ha (by simp))]
      have hstart := number_eq_ok.mpr ⟨ha, hlo, hhi⟩
      simp only [hstart, bind, Except.bind]
      cases stepped with
      | true => rfl
      | false => rfl

theorem base_of_bounds {stepped : Bool} {p : Nat × Nat}
    (h : bounds D lo hi base stepped = .ok p) :
    ∃ m n single, Base D wholeMarks lo hi base m n single ∧
      p = (m, if single && stepped then hi else n) := by
  unfold bounds at h
  split at h
  · rename_i hmark
    cases h
    refine ⟨lo, hi, false, ?_, rfl⟩
    rcases hmark with rfl | rfl
    · exact .whole (by simp [wholeMarks])
    · exact .whole (by simp [wholeMarks])
  · split at h
    · rename_i a b hcut
      obtain ⟨start, hstart, h⟩ := bind_eq_ok.mp h
      obtain ⟨last, hlast, h⟩ := bind_eq_ok.mp h
      obtain ⟨u, hle, h⟩ := bind_eq_ok.mp h
      cases h
      rw [number_eq_ok] at hstart hlast
      rw [append_of_cut?_mark hcut]
      exact ⟨start, last, false, .range hstart.1 hlast.1 hstart.2.1 (require_eq_ok.mp hle)
        hlast.2.2, rfl⟩
    · obtain ⟨start, hstart, h⟩ := bind_eq_ok.mp h
      cases h
      rw [number_eq_ok] at hstart
      refine ⟨start, start, true, .single hstart.1 hstart.2.1 hstart.2.2, ?_⟩
      cases stepped with
      | true => rfl
      | false => rfl

theorem refused_of_bounds {stepped : Bool} {e : CronFailure}
    (h : bounds D lo hi base stepped = .error e) : Refused D base e := by
  unfold bounds at h
  split at h
  · cases h
  · split at h
    · rename_i a b hcut
      have hbase := append_of_cut?_mark hcut
      rcases bind_eq_error.mp h with h | ⟨start, -, h⟩
      · exact (refused_of_number h).mono ⟨[], '-' :: b, by rw [hbase, List.nil_append]⟩
      · rcases bind_eq_error.mp h with h | ⟨last, -, h⟩
        · exact (refused_of_number h).mono ⟨a ++ ['-'], [], by simp [hbase]⟩
        · rcases bind_eq_error.mp h with h | ⟨u, -, h⟩
          · exact refused_of_require h
          · cases h
    · rcases bind_eq_error.mp h with h | ⟨start, -, h⟩
      · exact refused_of_number h
      · cases h

theorem mem_stepped {v k : Nat} : v ∈ stepped m n k ↔ m ≤ v ∧ v ≤ n ∧ (v - m) % k = 0 := by
  unfold stepped
  simp only [List.mem_filter, List.mem_range, decide_eq_true_eq]
  omega

/-- An item is read as its values. -/
theorem part_of_item (h : Item D wholeMarks lo hi item S) :
    ∃ values, part D lo hi item = .ok values ∧ ∀ v, v ∈ values ↔ S v := by
  cases h with
  | plain hbase =>
      rename_i m n single
      have hne : require (item ≠ []) "Cron fields may not contain empty list items." = .ok () := by
        refine if_pos ?_
        rintro rfl
        have hbounds := bounds_of_base hbase false
        rw [bounds, if_neg (by simp)] at hbounds
        cases hbounds
      refine ⟨stepped m n 1, ?_, fun v => ?_⟩
      · unfold part
        rw [hne, cut?_mark_of_not_mem hbase.not_mem_slash]
        simp only [bind, Except.bind, stepOf, Option.isSome_none, bounds_of_base hbase,
          Bool.and_false]
        rfl
      · rw [mem_stepped, Nat.mod_one]
        simp
  | stepped hbase hstep hpos hk =>
      rename_i base step m n k single
      have hne : require (base ++ '/' :: step ≠ [])
          "Cron fields may not contain empty list items." = .ok () := if_pos (by simp)
      have hnumber := number_eq_ok.mpr ⟨hstep, hpos, hk⟩
      refine ⟨stepped m (if single then hi else n) k, ?_, fun v => mem_stepped⟩
      unfold part
      rw [hne, cut?_mark_append hbase.not_mem_slash]
      simp only [bind, Except.bind, stepOf, hnumber, Option.isSome_some, bounds_of_base hbase,
        Bool.and_true]
      rfl

/-- What is read is an item. -/
theorem item_of_part {values : List Nat} (h : part D lo hi item = .ok values) :
    ∃ S, Item D wholeMarks lo hi item S ∧ ∀ v, v ∈ values ↔ S v := by
  unfold part at h
  obtain ⟨u, -, h⟩ := bind_eq_ok.mp h
  cases hcut : cut? ['/'] item with
  | none =>
      rw [hcut] at h
      obtain ⟨k, hk, h⟩ := bind_eq_ok.mp h
      obtain ⟨p, hp, h⟩ := bind_eq_ok.mp h
      obtain ⟨m, n, single, hbase, rfl⟩ := base_of_bounds hp
      cases hk
      cases h
      refine ⟨_, .plain hbase, fun v => ?_⟩
      rw [mem_stepped, Nat.mod_one]
      simp
  | some cutAt =>
      obtain ⟨base, step⟩ := cutAt
      rw [hcut] at h
      obtain ⟨k, hk, h⟩ := bind_eq_ok.mp h
      obtain ⟨p, hp, h⟩ := bind_eq_ok.mp h
      obtain ⟨m, n, single, hbase, rfl⟩ := base_of_bounds hp
      have hk' := number_eq_ok.mp hk
      cases h
      rw [append_of_cut?_mark hcut]
      refine ⟨_, .stepped hbase hk'.1 hk'.2.1 hk'.2.2, fun v => ?_⟩
      rw [mem_stepped]
      simp

theorem refused_of_part {e : CronFailure} (h : part D lo hi item = .error e) :
    Refused D item e := by
  unfold part at h
  rcases bind_eq_error.mp h with h | ⟨u, -, h⟩
  · exact refused_of_require h
  cases hcut : cut? ['/'] item with
  | none =>
      rw [hcut] at h
      rcases bind_eq_error.mp h with h | ⟨k, -, h⟩
      · cases h
      · rcases bind_eq_error.mp h with h | ⟨p, -, h⟩
        · exact refused_of_bounds h
        · cases h
  | some cutAt =>
      obtain ⟨base, step⟩ := cutAt
      have hitem := append_of_cut?_mark hcut
      rw [hcut] at h
      rcases bind_eq_error.mp h with h | ⟨k, -, h⟩
      · exact (refused_of_number h).mono ⟨base ++ ['/'], [], by simp [hitem]⟩
      · rcases bind_eq_error.mp h with h | ⟨p, -, h⟩
        · exact (refused_of_bounds h).mono ⟨[], '/' :: step, by rw [hitem, List.nil_append]⟩
        · cases h

end Items

/-! ### Whole fields -/

section Fields

variable {D} {lo hi : Nat} {weekday : Bool} {value : List Char} {S : Nat → Prop}

/-- An item has values. -/
theorem Item.nonempty {item : List Char} (hle : lo ≤ hi) (h : Item D wholeMarks lo hi item S) :
    ∃ v, S v := by
  have hbase : ∀ {base : List Char} {m n : Nat} {single : Bool},
      Base D wholeMarks lo hi base m n single → m ≤ n ∧ m ≤ hi := by
    intro base m n single hbase
    cases hbase with
    | whole => exact ⟨hle, hle⟩
    | range _ _ _ hmn hhi => exact ⟨hmn, hmn.trans hhi⟩
    | single _ _ hhi => exact ⟨le_refl _, hhi⟩
  cases h with
  | plain h => exact ⟨_, le_refl _, (hbase h).1⟩
  | stepped h =>
      rename_i base step m n k single hstep hpos hk
      refine ⟨m, le_refl _, ?_, by simp⟩
      cases single with
      | true => exact (hbase h).2
      | false => exact (hbase h).1

/-- What is selected when 7 is read as 0. -/
def selected (weekday : Bool) (result : List Nat) : List Nat :=
  if weekday && result.contains 7 then 0 :: result.filter (· ≠ 7) else result

theorem mem_selected {result : List Nat} {v : Nat} : v ∈ selected weekday result ↔
    v ∈ result ∧ ¬ (weekday = true ∧ v = 7) ∨ weekday = true ∧ v = 0 ∧ 7 ∈ result := by
  unfold selected
  cases weekday with
  | false => simp
  | true =>
      by_cases h7 : 7 ∈ result
      · simp [h7]
        tauto
      · have hne : v ∈ result → v ≠ 7 := fun hv heq => h7 (heq ▸ hv)
        simp [h7]
        tauto

theorem selected_ne_nil {result : List Nat} (h : result ≠ []) : selected weekday result ≠ [] := by
  unfold selected
  split
  · simp
  · exact h

theorem field_eq (value : List Char) : field D value lo hi weekday =
    (value.splitOn ',').mapM (part D lo hi) >>= fun parts =>
      require (selected weekday parts.flatten ≠ []) "Cron field selects no values." >>= fun _ =>
        .ok (selected weekday parts.flatten) := rfl

/-- The parts of a field and the sets of its items have the same members. -/
theorem mem_flatten_iff {parts : List (List Nat)} {sets : List (Nat → Prop)}
    (h : List.Forall₂ (fun values T => ∀ v, v ∈ values ↔ T v) parts sets) (v : Nat) :
    v ∈ parts.flatten ↔ ∃ T ∈ sets, T v := by
  induction h with
  | nil => simp
  | cons hv _ ih =>
      rw [List.flatten_cons, List.mem_append, hv, ih]
      simp

theorem parts_of_items {items : List (List Char)} {sets : List (Nat → Prop)}
    (h : List.Forall₂ (Item D wholeMarks lo hi) items sets) :
    ∃ parts, items.mapM (part D lo hi) = .ok parts ∧
      List.Forall₂ (fun values T => ∀ v, v ∈ values ↔ T v) parts sets := by
  induction h with
  | nil => exact ⟨[], rfl, .nil⟩
  | cons hitem _ ih =>
      obtain ⟨values, hvalues, hmem⟩ := part_of_item hitem
      obtain ⟨parts, hparts, hall⟩ := ih
      refine ⟨values :: parts, ?_, .cons hmem hall⟩
      exact mapM_eq_ok.mpr (.cons hvalues (mapM_eq_ok.mp hparts))

theorem items_of_parts {items : List (List Char)} {parts : List (List Nat)}
    (h : items.mapM (part D lo hi) = .ok parts) :
    ∃ sets, List.Forall₂ (Item D wholeMarks lo hi) items sets ∧
      List.Forall₂ (fun values T => ∀ v, v ∈ values ↔ T v) parts sets := by
  have hall := mapM_eq_ok.mp h
  clear h
  induction hall with
  | nil => exact ⟨[], .nil, .nil⟩
  | cons hpart _ ih =>
      obtain ⟨T, hitem, hmem⟩ := item_of_part hpart
      obtain ⟨sets, hitems, hsets⟩ := ih
      exact ⟨T :: sets, .cons hitem hitems, .cons hmem hsets⟩

/-- The first item of a field has a value. -/
theorem exists_value {items : List (List Char)} {sets : List (Nat → Prop)} (hle : lo ≤ hi)
    (hne : items ≠ []) (h : List.Forall₂ (Item D wholeMarks lo hi) items sets) :
    ∃ T ∈ sets, ∃ v, T v := by
  cases h with
  | nil => exact absurd rfl hne
  | cons hitem _ => exact ⟨_, List.mem_cons_self, hitem.nonempty hle⟩

theorem field_of_denotes (hle : lo ≤ hi) (h : Field D wholeMarks lo hi weekday value S) :
    ∃ values, field D value lo hi weekday = .ok values ∧ ∀ v, v ∈ values ↔ S v := by
  obtain ⟨sets, hitems, hS⟩ := h
  obtain ⟨parts, hparts, hsets⟩ := parts_of_items hitems
  have hne : parts.flatten ≠ [] := by
    obtain ⟨T, hT, v, hv⟩ := exists_value hle (List.splitOn_ne_nil ',' value) hitems
    exact List.ne_nil_of_mem ((mem_flatten_iff hsets v).mpr ⟨T, hT, hv⟩)
  refine ⟨selected weekday parts.flatten, ?_, fun v => ?_⟩
  · rw [field_eq, hparts]
    exact bind_eq_ok.mpr ⟨parts, rfl,
      bind_eq_ok.mpr ⟨(), if_pos (selected_ne_nil hne), rfl⟩⟩
  · rw [mem_selected, hS, mem_flatten_iff hsets, mem_flatten_iff hsets]

theorem denotes_of_field {values : List Nat} (h : field D value lo hi weekday = .ok values) :
    ∃ S, Field D wholeMarks lo hi weekday value S ∧ ∀ v, v ∈ values ↔ S v := by
  rw [field_eq] at h
  obtain ⟨parts, hparts, h⟩ := bind_eq_ok.mp h
  obtain ⟨u, -, h⟩ := bind_eq_ok.mp h
  cases h
  obtain ⟨sets, hitems, hsets⟩ := items_of_parts hparts
  refine ⟨_, ⟨sets, hitems, fun v => Iff.rfl⟩, fun v => ?_⟩
  rw [mem_selected, mem_flatten_iff hsets, mem_flatten_iff hsets]

theorem infix_intercalate {x : List Char} {xs : List (List Char)} {sep : List Char} (h : x ∈ xs) :
    x <:+: sep.intercalate xs := by
  induction xs with
  | nil => cases h
  | cons y ys ih =>
      cases ys with
      | nil =>
          rw [List.mem_singleton.mp h]
          simp [List.intercalate]
      | cons z zs =>
          have hcons : sep.intercalate (y :: z :: zs) = y ++ (sep ++ sep.intercalate (z :: zs)) := by
            simp [List.intercalate]
          rw [hcons]
          rcases List.mem_cons.mp h with rfl | h
          · exact (List.prefix_append _ _).isInfix
          · exact (ih h).trans ⟨y ++ sep, [], by simp⟩

theorem refused_of_field {e : CronFailure} (h : field D value lo hi weekday = .error e) :
    Refused D value e := by
  rw [field_eq] at h
  rcases bind_eq_error.mp h with h | ⟨parts, -, h⟩
  · obtain ⟨item, hitem, h⟩ := mem_of_mapM_error h
    have hinfix : item <:+: [','].intercalate (value.splitOn ',') := infix_intercalate hitem
    rw [List.intercalate_splitOn] at hinfix
    exact (refused_of_part h).mono hinfix
  · rcases bind_eq_error.mp h with h | ⟨u, -, h⟩
    · exact refused_of_require h
    · cases h

end Fields

/-! ### Whole expressions -/

section Expressions

variable {D} {expression : String} {sets : List (Nat → Prop)}

/-- A field with its range. -/
def readField (D : DigitTable) (p : List Char × Nat × Nat × Bool) : Parsed (List Nat) :=
  field D p.1 p.2.1 p.2.2.1 p.2.2.2

theorem fields_of_denotes {ps : List (List Char × Nat × Nat × Bool)}
    (hle : ∀ p ∈ ps, p.2.1 ≤ p.2.2.1)
    (h : List.Forall₂ (fun p S => Field D wholeMarks p.2.1 p.2.2.1 p.2.2.2 p.1 S) ps sets) :
    ∃ values, ps.mapM (readField D) = .ok values ∧
      List.Forall₂ (fun vs S => ∀ v, v ∈ vs ↔ S v) values sets := by
  induction h with
  | nil => exact ⟨[], rfl, .nil⟩
  | cons hfield _ ih =>
      obtain ⟨vs, hvs, hmem⟩ := field_of_denotes (hle _ List.mem_cons_self) hfield
      obtain ⟨values, hvalues, hall⟩ := ih fun p hp => hle p (List.mem_cons_of_mem _ hp)
      exact ⟨vs :: values, mapM_eq_ok.mpr (.cons hvs (mapM_eq_ok.mp hvalues)), .cons hmem hall⟩

theorem denotes_of_fields {ps : List (List Char × Nat × Nat × Bool)} {values : List (List Nat)}
    (h : ps.mapM (readField D) = .ok values) :
    ∃ sets, List.Forall₂ (fun p S => Field D wholeMarks p.2.1 p.2.2.1 p.2.2.2 p.1 S) ps sets := by
  have hall := mapM_eq_ok.mp h
  clear h
  induction hall with
  | nil => exact ⟨[], .nil⟩
  | cons hfield _ ih =>
      obtain ⟨S, hS, -⟩ := denotes_of_field hfield
      obtain ⟨sets, hsets⟩ := ih
      exact ⟨S :: sets, .cons hS hsets⟩

theorem parse_eq : parse D expression =
    require ((splitWords [] expression.toList).length = 5)
      "Cron expression must contain five fields." >>= fun _ =>
        ((splitWords [] expression.toList).zip ranges).mapM (readField D) := rfl

theorem parse_of_denotes (h : Denotes D wholeMarks expression sets) :
    ∃ values, parse D expression = .ok values ∧
      List.Forall₂ (fun vs S => ∀ v, v ∈ vs ↔ S v) values sets := by
  have hle : ∀ p ∈ (splitWords [] expression.toList).zip ranges, p.2.1 ≤ p.2.2.1 := by
    intro p hp
    have hranges : ∀ r ∈ ranges, r.1 ≤ r.2.1 := by simp [ranges]
    exact hranges p.2 (List.of_mem_zip hp).2
  obtain ⟨values, hvalues, hall⟩ := fields_of_denotes hle h.2
  refine ⟨values, ?_, hall⟩
  rw [parse_eq]
  exact bind_eq_ok.mpr ⟨(), if_pos h.1, hvalues⟩

/-- The words of a text are parts of it. -/
theorem infix_splitWords {word cs w : List Char} (h : w ∈ splitWords word cs) :
    w <:+: word.reverse ++ cs := by
  fun_induction splitWords word cs with
  | case1 => cases h
  | case2 word hword =>
      obtain rfl := List.mem_singleton.mp h
      exact (List.prefix_append _ _).isInfix
  | case3 word c cs hspace hword ih =>
      exact (ih h).trans ⟨word.reverse ++ [c], [], by simp⟩
  | case4 word c cs hspace hword ih =>
      rcases List.mem_cons.mp h with rfl | h
      · exact (List.prefix_append _ _).isInfix
      · exact (ih h).trans ⟨word.reverse ++ [c], [], by simp⟩
  | case5 word c cs hspace ih =>
      have hih := ih h
      rwa [List.reverse_cons, List.append_assoc, List.singleton_append] at hih

theorem refused_of_parse {e : CronFailure} (h : parse D expression = .error e) :
    Refused D expression.toList e := by
  rw [parse_eq] at h
  rcases bind_eq_error.mp h with h | ⟨u, -, h⟩
  · exact refused_of_require h
  · obtain ⟨p, hp, h⟩ := mem_of_mapM_error h
    exact (refused_of_field h).mono (infix_splitWords (List.of_mem_zip hp).1)

/-- Every value is in its set. -/
theorem all_zip_iff {os : List Nat} {values : List (List Nat)}
    (hlength : os.length = values.length)
    (h : List.Forall₂ (fun vs S => ∀ v, v ∈ vs ↔ S v) values sets) :
    (os.zip values).all (fun p => p.2.contains p.1) = true ↔
      List.Forall₂ (fun v S => S v) os sets := by
  induction h generalizing os with
  | nil =>
      rw [List.length_eq_zero_iff.mp hlength]
      simp
  | cons hmem _ ih =>
      rename_i vs S values sets hall
      cases os with
      | nil => cases hlength
      | cons o os =>
          have hrest := ih (Nat.succ.inj hlength)
          rw [List.zip_cons_cons, List.all_cons, Bool.and_eq_true, hrest, List.contains_iff_mem,
            hmem, List.forall₂_cons]

/-- **Cron semantics.** An expression of the grammar is parsed, and an instant matches exactly if
each of its values is in the set of its field. An expression outside of it is refused with a
`CronExpressionError`, unless a part of its text is made of digits that `int` does not read. -/
theorem cron_semantics (D : DigitTable) (expression : String) :
    (∀ sets, Denotes D wholeMarks expression sets → ∀ instant,
      ∃ matched, cronMatches D expression instant = .ok matched ∧
        (matched = true ↔ List.Forall₂ (fun v S => S v) (observed instant) sets)) ∧
    ((∀ w, w <:+: expression.toList → ¬ D.Odd w) →
      (∀ sets, ¬ Denotes D wholeMarks expression sets) →
        ∃ message, parse D expression = .error (.cronExpressionError message) ∧
          ∀ instant, cronMatches D expression instant =
            .error (.cronExpressionError message)) := by
  constructor
  · intro sets h instant
    obtain ⟨values, hvalues, hall⟩ := parse_of_denotes h
    have hlength : (observed instant).length = values.length := by
      rw [hall.length_eq, ← h.2.length_eq, List.length_zip, h.1]
      rfl
    refine ⟨_, ?_, all_zip_iff hlength hall⟩
    unfold cronMatches
    rw [hvalues]
    rfl
  · intro hodd hnone
    cases hparse : parse D expression with
    | ok values =>
        rw [parse_eq] at hparse
        obtain ⟨u, hfive, hfields⟩ := bind_eq_ok.mp hparse
        obtain ⟨sets, hsets⟩ := denotes_of_fields hfields
        exact absurd ⟨require_eq_ok.mp hfive, hsets⟩ (hnone sets)
    | error e =>
        rcases refused_of_parse hparse with ⟨message, rfl⟩ | ⟨-, w, hw, hwodd⟩
        · refine ⟨message, rfl, fun instant => ?_⟩
          unfold cronMatches
          rw [hparse]
          rfl
        · exact absurd hwodd (hodd w hw)

end Expressions

/-! ### Unicode -/

/-- The digits zero of Unicode; the other nine follow each of them. -/
def decimalZeros : List Nat :=
  [0x30, 0x660, 0x6f0, 0x7c0, 0x966, 0x9e6, 0xa66, 0xae6, 0xb66, 0xbe6, 0xc66, 0xce6, 0xd66, 0xde6,
    0xe50, 0xed0, 0xf20, 0x1040, 0x1090, 0x17e0, 0x1810, 0x1946, 0x19d0, 0x1a80, 0x1a90, 0x1b50,
    0x1bb0, 0x1c40, 0x1c50, 0xa620, 0xa8d0, 0xa900, 0xa9d0, 0xa9f0, 0xaa50, 0xabf0, 0xff10,
    0x104a0, 0x10d30, 0x11066, 0x110f0, 0x11136, 0x111d0, 0x112f0, 0x11450, 0x114d0, 0x11650,
    0x116c0, 0x11730, 0x118e0, 0x11950, 0x11c50, 0x11d50, 0x11da0, 0x16a60, 0x16ac0, 0x16b50,
    0x1d7ce, 0x1d7d8, 0x1d7e2, 0x1d7ec, 0x1d7f6, 0x1e140, 0x1e2f0, 0x1e950, 0x1fbf0]

/-- The value of a decimal digit. -/
def decimal? (c : Char) : Option Nat :=
  (decimalZeros.find? fun first => first ≤ c.toNat ∧ c.toNat < first + 10).map (c.toNat - ·)

/-- The digits of Unicode that are not decimal. -/
def otherDigits : List Nat :=
  [0xb2, 0xb3, 0xb9, 0x19da, 0x2070, 0x24ea, 0x24ff] ++ List.range' 0x1369 9 ++
    List.range' 0x2074 6 ++ List.range' 0x2080 10 ++ List.range' 0x2460 9 ++
    List.range' 0x2474 9 ++ List.range' 0x2488 9 ++ List.range' 0x24f5 9 ++
    List.range' 0x2776 9 ++ List.range' 0x2780 9 ++ List.range' 0x278a 9 ++
    List.range' 0x10a40 4 ++ List.range' 0x10e60 9 ++ List.range' 0x11052 9 ++
    List.range' 0x1f100 11

theorem find?_otherDigits : ∀ n ∈ otherDigits,
    (decimalZeros.find? fun first => first ≤ n ∧ n < first + 10) = none :=
  List.forall_iff_forall_mem.mp (by decide +kernel)

/-- The digits as the interpreter knows them. -/
def unicode : DigitTable where
  value := decimal?
  other c := otherDigits.contains c.toNat
  limit := some 4300
  other_value c hc := by
    rw [decimal?, find?_otherDigits c.toNat (List.contains_iff_mem.mp hc)]
    rfl
  marks := List.forall_iff_forall_mem.mp (by decide)

theorem Field.single {D : DigitTable} {marks : List Char} {lo hi : Nat} {value : List Char}
    {S : Nat → Prop} (hsplit : value.splitOn ',' = [value]) (h : Item D marks lo hi value S) :
    Field D marks lo hi false value S := by
  refine ⟨[S], ?_, fun v => by simp⟩
  rw [hsplit]
  exact .cons h .nil

/-- The values of the five fields of `*/30 9-17 * 1,7 6-7`. -/
def weekendHours : List (Nat → Prop) :=
  [fun v => 0 ≤ v ∧ v ≤ 59 ∧ (v - 0) % 30 = 0, fun v => 9 ≤ v ∧ v ≤ 17, fun v => 1 ≤ v ∧ v ≤ 31,
    fun v => v = 1 ∨ v = 7, fun v => v = 6 ∨ v = 0]

theorem denotes_weekendHours :
    Denotes unicode wholeMarks "*/30 9-17 * 1,7 6-7" weekendHours := by
  have hreads : ∀ p ∈ [("30", 30), ("9", 9), ("17", 17), ("1", 1), ("7", 7), ("6", 6)],
      unicode.Reads p.1.toList p.2 :=
    List.forall_iff_forall_mem.mp ⟨⟨by decide, by decide⟩, ⟨by decide, by decide⟩,
      ⟨by decide, by decide⟩, ⟨by decide, by decide⟩, ⟨by decide, by decide⟩,
      ⟨by decide, by decide⟩⟩
  have whole {lo hi : Nat} : Base unicode wholeMarks lo hi ['*'] lo hi false := .whole (by decide)
  have hwords : (splitWords [] "*/30 9-17 * 1,7 6-7".toList).zip ranges =
      ("*/30".toList, 0, 59, false) :: ("9-17".toList, 0, 23, false) ::
        ("*".toList, 1, 31, false) :: ("1,7".toList, 1, 12, false) ::
          [("6-7".toList, 0, 7, true)] := by decide
  refine ⟨by decide, ?_⟩
  rw [hwords]
  refine .cons ?_ (.cons ?_ (.cons ?_ (.cons ?_ (.cons ?_ .nil))))
  · exact .single (by decide) (.stepped whole (hreads ("30", 30) (by decide)) (by decide)
      (by decide))
  · exact .single (by decide) (.plain (.range (hreads ("9", 9) (by decide))
      (hreads ("17", 17) (by decide)) (by decide) (by decide) (by decide)))
  · exact .single (by decide) (.plain whole)
  · refine ⟨[fun v => 1 ≤ v ∧ v ≤ 1, fun v => 7 ≤ v ∧ v ≤ 7], ?_, fun v => ?_⟩
    · exact .cons (.plain (.single (hreads ("1", 1) (by decide)) (by decide) (by decide)))
        (.cons (.plain (.single (hreads ("7", 7) (by decide)) (by decide) (by decide))) .nil)
    · simp
      omega
  · refine ⟨[fun v => 6 ≤ v ∧ v ≤ 7], .cons (.plain (.range (hreads ("6", 6) (by decide))
      (hreads ("7", 7) (by decide)) (by decide) (by decide) (by decide))) .nil, fun v => ?_⟩
    simp
    omega

/-- In the minute of half past nine on a Sunday, which the last field names as the day 7. -/
def sunday : DateTime :=
  ⟨2027, 7, 4, 9, 30, 15, 250000, by decide, by decide, by decide, by decide, by decide, by decide,
    by decide⟩

theorem cron_semantics_sunday :
    cronMatches unicode "*/30 9-17 * 1,7 6-7" sunday = .ok true := by
  obtain ⟨matched, hmatched, hiff⟩ :=
    (cron_semantics unicode "*/30 9-17 * 1,7 6-7").1 weekendHours denotes_weekendHours sunday
  have hall : List.Forall₂ (fun v S => S v) (observed sunday) weekendHours := by
    have hobserved : observed sunday = [30, 9, 4, 7, 0] := by decide
    rw [hobserved]
    simp [weekendHours]
  rw [hmatched, hiff.mpr hall]

theorem not_item_question {S : Nat → Prop} : ¬ Item unicode ['*'] 0 59 ['?'] S := by
  intro h
  generalize hitem : ['?'] = item at h
  cases h with
  | plain hbase =>
      cases hbase with
      | whole hc =>
          cases hitem
          exact absurd hc (by decide)
      | range =>
          rename_i a b _ _ _ _ _
          cases a with
          | nil => cases hitem
          | cons => simp at hitem
      | single ha =>
          exact Reads.not_mem ha (c := '?') (by simp) (hitem ▸ List.mem_cons_self)
  | stepped =>
      rename_i base step _ _ _ _ _ _ _ _
      cases base with
      | nil => cases hitem
      | cons => simp at hitem

/-- A question mark is taken for the whole range. -/
theorem question_accepted : ¬ ∀ expression, (∀ sets, ¬ Denotes unicode ['*'] expression sets) →
    ∃ message, parse unicode expression = .error (.cronExpressionError message) := by
  intro h
  obtain ⟨message, hparse⟩ := h "? * * * *" (by
    rintro sets ⟨-, hall⟩
    have hwords : (splitWords [] "? * * * *".toList).zip ranges =
        (['?'], 0, 59, false) :: (['*'], 0, 23, false) :: (['*'], 1, 31, false) ::
          [(['*'], 1, 12, false), (['*'], 0, 7, true)] := by decide
    rw [hwords] at hall
    cases hall with
    | cons hfield =>
        obtain ⟨Ts, hitems, -⟩ := hfield
        have hsplit : ['?'].splitOn ',' = [['?']] := by decide
        rw [hsplit] at hitems
        cases hitems with
        | cons hitem => exact not_item_question hitem)
  have haccepted : (parse unicode "? * * * *").isOk = true := by decide +kernel
  rw [hparse] at haccepted
  cases haccepted

end CronFields

end Ophelia
