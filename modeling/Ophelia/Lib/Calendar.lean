import Mathlib.Data.String.Basic
import Mathlib.Data.List.Sort
import Mathlib.Algebra.GroupWithZero.Nat

/-!
# Ophelia.Lib.Calendar

Date and time of the proleptic Gregorian calendar, the instant it names, and the text that
ISO 8601 writes for it. The text drops a fraction of zero, so texts are ordered as instants
only from one second to the next: within a second the whole one comes last.
-/

namespace Calendar

/-! ### Digits of fixed width -/

def digit (n : Nat) : Char :=
  Char.ofNat (48 + n % 10)

/-- The last `k` decimal digits of a number. -/
def digits : Nat → Nat → List Char
  | 0, _ => []
  | k + 1, n => digits k (n / 10) ++ [digit n]

@[simp] theorem length_digits (k n : Nat) : (digits k n).length = k := by
  induction k generalizing n with
  | zero => rfl
  | succ k ih => rw [digits, List.length_append, ih, List.length_singleton]

/-- Texts of one length in front decide the order, unless they are the same. -/
theorem append_lt_append {u u' v v' : List Char} (h : u.length = u'.length) :
    u ++ v < u' ++ v' ↔ u < u' ∨ u = u' ∧ v < v' := by
  induction u generalizing u' with
  | nil =>
      obtain rfl := List.length_eq_zero_iff.mp h.symm
      simp
  | cons c u ih =>
      cases u' with
      | nil => cases h
      | cons c' u' =>
          have hrest := ih (Nat.succ.inj h)
          simp only [List.cons_append, List.cons_lt_cons_iff, hrest, List.cons.injEq]
          tauto

theorem digit_lt_digit : ∀ n < 10, ∀ m < 10, (digit n < digit m ↔ n < m) := by
  decide

theorem digit_lt {n m : Nat} : digit n < digit m ↔ n % 10 < m % 10 := by
  have h := digit_lt_digit (n % 10) (Nat.mod_lt _ (by decide)) (m % 10) (Nat.mod_lt _ (by decide))
  simpa only [digit, Nat.mod_mod] using h

theorem digit_inj {n m : Nat} : digit n = digit m ↔ n % 10 = m % 10 := by
  constructor
  · intro h
    have hn := mt digit_lt.mpr (not_lt_of_ge h.ge)
    have hm := mt digit_lt.mpr (not_lt_of_ge h.le)
    omega
  · intro h
    rw [digit, digit, h]

theorem append_eq_append {u u' v v' : List Char} (h : u.length = u'.length) :
    u ++ v = u' ++ v' ↔ u = u' ∧ v = v' :=
  ⟨fun heq => List.append_inj heq h, fun ⟨hu, hv⟩ => by rw [hu, hv]⟩

theorem digits_inj {k n m : Nat} (hn : n < 10 ^ k) (hm : m < 10 ^ k) :
    digits k n = digits k m ↔ n = m := by
  induction k generalizing n m with
  | zero =>
      rw [pow_zero] at hn hm
      simp only [digits, true_iff]
      omega
  | succ k ih =>
      rw [pow_succ] at hn hm
      rw [digits, digits, append_eq_append (by simp), ih (by omega) (by omega), List.cons.injEq,
        digit_inj]
      simp only [and_true]
      omega

/-- Digits are ordered as the numbers they write. -/
theorem digits_lt {k n m : Nat} (hn : n < 10 ^ k) (hm : m < 10 ^ k) :
    digits k n < digits k m ↔ n < m := by
  induction k generalizing n m with
  | zero =>
      rw [pow_zero] at hn hm
      simp only [digits, List.lt_irrefl, false_iff]
      omega
  | succ k ih =>
      rw [pow_succ] at hn hm
      have hn' : n / 10 < 10 ^ k := by omega
      have hm' : m / 10 < 10 ^ k := by omega
      rw [digits, digits, append_lt_append (by simp), ih hn' hm', digits_inj hn' hm']
      simp only [List.cons_lt_cons_iff, List.lt_irrefl, and_false, or_false, digit_lt]
      omega

theorem digits_append_lt {k n m : Nat} {v v' : List Char} (hn : n < 10 ^ k) (hm : m < 10 ^ k) :
    digits k n ++ v < digits k m ++ v' ↔ n < m ∨ n = m ∧ v < v' := by
  rw [append_lt_append (by simp), digits_lt hn hm, digits_inj hn hm]

theorem not_mem_digits {c : Char} (hc : ∀ n < 10, digit n ≠ c) (k n : Nat) :
    c ∉ digits k n := by
  induction k generalizing n with
  | zero => exact List.not_mem_nil
  | succ k ih =>
      have hdigit : digit n ≠ c := by
        have h := hc (n % 10) (Nat.mod_lt _ (by decide))
        rwa [digit, Nat.mod_mod] at h
      rw [digits, List.mem_append, List.mem_singleton]
      exact not_or.mpr ⟨ih (n / 10), hdigit.symm⟩

/-! ### Days -/

def isLeap (year : Nat) : Bool :=
  year % 4 = 0 ∧ (year % 100 ≠ 0 ∨ year % 400 = 0)

def daysInMonth (leap : Bool) : Nat → Nat
  | 2 => if leap then 29 else 28
  | 4 | 6 | 9 | 11 => 30
  | _ => 31

/-- The days of the years before one. -/
def daysBeforeYear (year : Nat) : Nat :=
  let y := year - 1
  y * 365 + y / 4 - y / 100 + y / 400

/-- The days of the year before one of its months. -/
def daysBeforeMonth (leap : Bool) (month : Nat) : Nat :=
  ((List.range (month - 1)).map fun m => daysInMonth leap (m + 1)).sum

theorem daysBeforeYear_succ {year : Nat} (h : 1 ≤ year) :
    daysBeforeYear (year + 1) = daysBeforeYear year + (if isLeap year then 366 else 365) := by
  obtain ⟨y, rfl⟩ := Nat.exists_eq_add_of_le' h
  have hleap : isLeap (y + 1) = true ↔ 4 ∣ y + 1 ∧ (¬ 100 ∣ y + 1 ∨ 400 ∣ y + 1) := by
    simp [isLeap, Nat.dvd_iff_mod_eq_zero]
  have hcentury : y / 100 ≤ y / 4 := Nat.div_le_div_left (by decide) (by decide)
  have h₄ : 400 ∣ y + 1 → 100 ∣ y + 1 := Nat.dvd_trans (by decide)
  have h₁ : 100 ∣ y + 1 → 4 ∣ y + 1 := Nat.dvd_trans (by decide)
  simp only [daysBeforeYear, hleap, Nat.add_sub_cancel, Nat.succ_div]
  split_ifs <;> omega

theorem daysBeforeYear_le {a b : Nat} (ha : 1 ≤ a) (h : a < b) :
    daysBeforeYear a + (if isLeap a then 366 else 365) ≤ daysBeforeYear b := by
  induction b, h using Nat.le_induction with
  | base => exact (daysBeforeYear_succ ha).ge
  | succ b hb ih =>
      have hsucc := @daysBeforeYear_succ b (by omega)
      split at hsucc <;> omega

/-- A month ends before the next one starts, and the last before the year does. -/
theorem daysBeforeMonth_le : ∀ leap : Bool, ∀ a < 13, ∀ b < 13, 1 ≤ a → a < b →
    daysBeforeMonth leap a + daysInMonth leap a ≤ daysBeforeMonth leap b := by
  decide

theorem daysBeforeMonth_year : ∀ leap : Bool, ∀ a < 13, 1 ≤ a →
    daysBeforeMonth leap a + daysInMonth leap a ≤ if leap then 366 else 365 := by
  decide

/-! ### Date and time -/

theorem year_2026 : 1 ≤ 2026 ∧ 2026 ≤ 9999 := by decide

theorem first_month : 1 ≤ 1 ∧ 1 ≤ 12 := by decide

theorem first_day : 1 ≤ 1 ∧ 1 ≤ daysInMonth (isLeap 2026) 1 := by decide

/-- `datetime` in UTC. -/
structure DateTime where
  year : Nat
  month : Nat
  day : Nat
  hour : Nat
  minute : Nat
  second : Nat
  microsecond : Nat
  year_range : 1 ≤ year ∧ year ≤ 9999
  month_range : 1 ≤ month ∧ month ≤ 12
  day_range : 1 ≤ day ∧ day ≤ daysInMonth (isLeap year) month
  hour_range : hour ≤ 23
  minute_range : minute ≤ 59
  second_range : second ≤ 59
  microsecond_range : microsecond ≤ 999999

namespace DateTime

/-- The day in the year, from one. -/
def dayOfYear (t : DateTime) : Nat :=
  daysBeforeMonth (isLeap t.year) t.month + t.day

/-- `toordinal`: the day since the year one, from one. -/
def ordinal (t : DateTime) : Nat :=
  daysBeforeYear t.year + t.dayOfYear

def secondOfDay (t : DateTime) : Nat :=
  t.hour * 3600 + t.minute * 60 + t.second

/-- The first of January 1970. -/
def UNIX_ORDINAL : Nat := 719163

/-- Seconds since 1970. -/
def timestamp (t : DateTime) : Int :=
  ((t.ordinal : Int) - UNIX_ORDINAL) * 86400 + t.secondOfDay

/-- Microseconds since 1970. -/
def instant (t : DateTime) : Int :=
  t.timestamp * 1000000 + t.microsecond

/-- `YYYY-MM-DDTHH:MM:SS`. -/
def clockText (t : DateTime) : List Char :=
  digits 4 t.year ++ '-' :: (digits 2 t.month ++ '-' :: (digits 2 t.day ++ 'T' ::
    (digits 2 t.hour ++ ':' :: (digits 2 t.minute ++ ':' :: digits 2 t.second))))

/-- The fraction of the second, nothing for a whole one, and the zone. -/
def fraction (microsecond : Nat) : List Char :=
  if microsecond = 0 then ['Z'] else '.' :: (digits 6 microsecond ++ ['Z'])

/-- `isoformat`, with `Z` for the zone. -/
def isoformat (t : DateTime) : String :=
  String.ofList (t.clockText ++ fraction t.microsecond)

theorem slash_not_mem_isoformat (t : DateTime) : '/' ∉ t.isoformat.toList := by
  have hdigits := not_mem_digits (c := '/') (by decide)
  have hmarks : ('/' : Char) ≠ '-' ∧ ('/' : Char) ≠ 'T' ∧ ('/' : Char) ≠ ':' ∧
      ('/' : Char) ≠ '.' ∧ ('/' : Char) ≠ 'Z' := by decide
  have hfraction : '/' ∉ fraction t.microsecond := by
    unfold fraction
    split <;> simp [hdigits, hmarks]
  simp [isoformat, clockText, hdigits, hmarks, hfraction]

/-! ### Seconds in order -/

/-- The order of the fields down to the second. -/
def Before (a b : DateTime) : Prop :=
  a.year < b.year ∨ a.year = b.year ∧ (a.month < b.month ∨ a.month = b.month ∧
    (a.day < b.day ∨ a.day = b.day ∧ (a.hour < b.hour ∨ a.hour = b.hour ∧
      (a.minute < b.minute ∨ a.minute = b.minute ∧ a.second < b.second))))

variable {a b : DateTime}

theorem dayOfYear_range (t : DateTime) :
    1 ≤ t.dayOfYear ∧ t.dayOfYear ≤ if isLeap t.year then 366 else 365 := by
  have hmonth := daysBeforeMonth_year (isLeap t.year) t.month
    (by have := t.month_range; omega) t.month_range.1
  have hday := t.day_range
  unfold dayOfYear
  exact ⟨by omega, by omega⟩

theorem ordinal_lt_of_year (h : a.year < b.year) : a.ordinal < b.ordinal := by
  have hyear := daysBeforeYear_le a.year_range.1 h
  have ha := a.dayOfYear_range.2
  have hb := b.dayOfYear_range.1
  unfold ordinal
  omega

theorem ordinal_lt_of_month (hyear : a.year = b.year) (h : a.month < b.month) :
    a.ordinal < b.ordinal := by
  have hmonth := daysBeforeMonth_le (isLeap a.year) a.month (by have := a.month_range; omega)
    b.month (by have := b.month_range; omega) a.month_range.1 h
  have ha := a.day_range
  have hb := b.day_range
  unfold ordinal dayOfYear
  rw [← hyear]
  omega

theorem timestamp_lt (h : a.Before b) : a.timestamp < b.timestamp := by
  have hclock (t : DateTime) : t.secondOfDay < 86400 := by
    have := t.hour_range
    have := t.minute_range
    have := t.second_range
    unfold secondOfDay
    omega
  have hday (h : a.ordinal < b.ordinal) : a.timestamp < b.timestamp := by
    have := hclock a
    unfold timestamp
    omega
  rcases h with h | ⟨hyear, h | ⟨hmonth, h | ⟨hd, h⟩⟩⟩
  · exact hday (ordinal_lt_of_year h)
  · exact hday (ordinal_lt_of_month hyear h)
  · refine hday ?_
    unfold ordinal dayOfYear
    rw [hyear, hmonth]
    omega
  · -- the same day
    have hordinal : a.ordinal = b.ordinal := by
      unfold ordinal dayOfYear
      rw [hyear, hmonth, hd]
    have hsecond : a.secondOfDay < b.secondOfDay := by
      have := a.minute_range
      have := a.second_range
      unfold secondOfDay
      omega
    unfold timestamp
    omega

theorem clockText_lt : a.clockText < b.clockText ↔ a.Before b := by
  have hy (t : DateTime) : t.year < 10 ^ 4 := Nat.lt_succ_of_le t.year_range.2
  have hmo (t : DateTime) : t.month < 10 ^ 2 := by have := t.month_range; omega
  have hd (t : DateTime) : t.day < 10 ^ 2 := by
    have hmonth : ∀ leap : Bool, ∀ m < 13, daysInMonth leap m ≤ 31 := by decide
    have := hmonth (isLeap t.year) t.month (by have := t.month_range; omega)
    have := t.day_range
    omega
  have hh (t : DateTime) : t.hour < 10 ^ 2 := by have := t.hour_range; omega
  have hmi (t : DateTime) : t.minute < 10 ^ 2 := by have := t.minute_range; omega
  have hs (t : DateTime) : t.second < 10 ^ 2 := by have := t.second_range; omega
  simp only [clockText, digits_append_lt (hy a) (hy b), digits_append_lt (hmo a) (hmo b),
    digits_append_lt (hd a) (hd b), digits_append_lt (hh a) (hh b),
    digits_append_lt (hmi a) (hmi b), digits_lt (hs a) (hs b), List.cons_lt_cons_iff, lt_irrefl,
    false_or, true_and, Before]

theorem before_trichotomy (a b : DateTime) :
    a.Before b ∨ b.Before a ∨ a.clockText = b.clockText ∧ a.timestamp = b.timestamp := by
  by_cases hab : a.Before b
  · exact .inl hab
  · by_cases hba : b.Before a
    · exact .inr (.inl hba)
    · refine .inr (.inr ?_)
      unfold Before at hab hba
      have hyear : a.year = b.year := by omega
      have hmonth : a.month = b.month := by omega
      have hday : a.day = b.day := by omega
      have hhour : a.hour = b.hour := by omega
      have hminute : a.minute = b.minute := by omega
      have hsecond : a.second = b.second := by omega
      constructor
      · rw [clockText, clockText, hyear, hmonth, hday, hhour, hminute, hsecond]
      · unfold timestamp ordinal dayOfYear secondOfDay
        rw [hyear, hmonth, hday, hhour, hminute, hsecond]

theorem timestamp_lt_iff : a.timestamp < b.timestamp ↔ a.Before b := by
  refine ⟨fun h => ?_, timestamp_lt⟩
  rcases before_trichotomy a b with hab | hba | ⟨-, heq⟩
  · exact hab
  · have := timestamp_lt hba
    omega
  · omega

theorem clockText_eq_iff : a.clockText = b.clockText ↔ a.timestamp = b.timestamp := by
  constructor
  · intro h
    rcases before_trichotomy a b with hab | hba | ⟨-, heq⟩
    · exact absurd (clockText_lt.mpr hab) (by rw [h]; exact lt_irrefl _)
    · exact absurd (clockText_lt.mpr hba) (by rw [h]; exact lt_irrefl _)
    · exact heq
  · intro h
    rcases before_trichotomy a b with hab | hba | ⟨heq, -⟩
    · have := timestamp_lt hab
      omega
    · have := timestamp_lt hba
      omega
    · exact heq

/-! ### Instants in order -/

theorem instant_div (t : DateTime) : t.instant / 1000000 = t.timestamp := by
  have := t.microsecond_range
  unfold instant
  omega

theorem instant_mod (t : DateTime) : t.instant % 1000000 = t.microsecond := by
  have := t.microsecond_range
  unfold instant
  omega

/-- Fractions are ordered as the numbers, and nothing comes after every fraction. -/
theorem fraction_lt {m n : Nat} (hm : m ≤ 999999) (hn : n ≤ 999999) :
    fraction m < fraction n ↔ m ≠ 0 ∧ (n = 0 ∨ m < n) := by
  have hpoint : ('.' : Char) < 'Z' := by decide
  have hzone : ¬ ('Z' : Char) < '.' := by decide
  have hne : ¬ ('Z' : Char) = '.' := by decide
  unfold fraction
  split_ifs with hm0 hn0 hn0
  · simp [hm0]
  · rw [List.cons_lt_cons_iff]
    simp [hm0, hzone, hne]
  · rw [List.cons_lt_cons_iff]
    simp [hn0, hm0, hpoint]
  · have hlt : digits 6 m ++ ['Z'] < digits 6 n ++ ['Z'] ↔ m < n := by
      rw [digits_append_lt (by omega) (by omega)]
      simp
    rw [List.cons_lt_cons_iff]
    simp [hlt, hm0, hn0]

/-- Two instants of one second, the first with a fraction and the second without. -/
def FractionOverWhole (a b : Int) : Prop :=
  a / 1000000 = b / 1000000 ∧ a % 1000000 ≠ 0 ∧ b % 1000000 = 0

/-- **Texts are ordered as instants**, but for a whole second and its own fractions. -/
theorem isoformat_lt : a.isoformat < b.isoformat ↔
    FractionOverWhole a.instant b.instant ∨
      a.instant < b.instant ∧ ¬ FractionOverWhole b.instant a.instant := by
  have ha := a.microsecond_range
  have hb := b.microsecond_range
  have hlength : a.clockText.length = b.clockText.length := by simp [clockText]
  have htext : a.isoformat < b.isoformat ↔ a.Before b ∨
      a.timestamp = b.timestamp ∧ a.microsecond ≠ 0 ∧
        (b.microsecond = 0 ∨ a.microsecond < b.microsecond) := by
    rw [isoformat, isoformat, String.lt_iff_toList_lt, String.toList_ofList, String.toList_ofList,
      append_lt_append hlength, clockText_lt, clockText_eq_iff, fraction_lt ha hb]
  rw [htext, ← timestamp_lt_iff]
  unfold FractionOverWhole
  rw [instant_div, instant_div, instant_mod, instant_mod]
  unfold instant
  omega

theorem instant_eq_of_isoformat (h : a.isoformat = b.isoformat) : a.instant = b.instant := by
  have hab := mt isoformat_lt.mpr (not_lt_of_ge h.ge)
  have hba := mt isoformat_lt.mpr (not_lt_of_ge h.le)
  unfold FractionOverWhole at hab hba
  omega

end DateTime

end Calendar
