import Mathlib.Data.List.Pairwise
import Ophelia.Lib.Calendar

/-!
# Ophelia.Lib.Timestamps

Texts of instants in UTC with either form of the zone, `Z` or `+00:00`, and bare dates. Texts of
different seconds are ordered as their instants. Within a second a whole one with an offset comes
first, then come the fractions, and a whole one with `Z` comes last; of two texts of one instant
the one with the offset comes first.
-/

namespace Calendar

/-! ### Days -/

namespace DateTime

variable {a b : DateTime}

/-- `YYYY-MM-DD`. -/
def dateText (t : DateTime) : List Char :=
  digits 4 t.year ++ '-' :: (digits 2 t.month ++ '-' :: digits 2 t.day)

@[simp] theorem length_dateText (t : DateTime) : t.dateText.length = 10 := by
  simp [dateText]

/-- The first instant of the day. -/
def midnight (t : DateTime) : DateTime :=
  { t with
    hour := 0
    minute := 0
    second := 0
    microsecond := 0
    hour_range := Nat.zero_le (nat_lit 23)
    minute_range := Nat.zero_le (nat_lit 59)
    second_range := Nat.zero_le (nat_lit 59)
    microsecond_range := Nat.zero_le (nat_lit 999999) }

/-- The time of the day, behind the date. -/
def dayTimeText (t : DateTime) : List Char :=
  'T' :: (digits 2 t.hour ++ ':' :: (digits 2 t.minute ++ ':' :: digits 2 t.second))

theorem clockText_eq (t : DateTime) : t.clockText = t.dateText ++ t.dayTimeText := by
  simp [clockText, dateText, dayTimeText]

theorem timestamp_midnight (t : DateTime) :
    t.midnight.timestamp = ((t.ordinal : Int) - UNIX_ORDINAL) * 86400 := by
  have hday : t.midnight.ordinal = t.ordinal := rfl
  have hclock : t.midnight.secondOfDay = 0 := by simp [secondOfDay, midnight]
  rw [timestamp, hday, hclock]
  omega

theorem instant_midnight (t : DateTime) :
    t.midnight.instant = ((t.ordinal : Int) - UNIX_ORDINAL) * 86400000000 := by
  have hwhole : t.midnight.microsecond = 0 := rfl
  rw [instant, timestamp_midnight, hwhole]
  omega

/-- Every instant lies in its day. -/
theorem instant_day (t : DateTime) :
    t.midnight.instant ≤ t.instant ∧ t.instant < t.midnight.instant + 86400000000 := by
  have := t.hour_range
  have := t.minute_range
  have := t.second_range
  have := t.microsecond_range
  rw [instant_midnight]
  unfold instant timestamp secondOfDay
  constructor <;> omega

/-- Dates are ordered as days. -/
theorem dateText_lt : a.dateText < b.dateText ↔ a.midnight.instant < b.midnight.instant := by
  have hlength : a.dateText.length = b.dateText.length := by rw [length_dateText, length_dateText]
  have hclock : a.midnight.clockText < b.midnight.clockText ↔ a.dateText < b.dateText := by
    have hdate (t : DateTime) : t.midnight.clockText = t.dateText ++ t.midnight.dayTimeText :=
      clockText_eq _
    have hsame : ¬ a.midnight.dayTimeText < b.midnight.dayTimeText := lt_irrefl _
    rw [hdate, hdate, append_lt_append hlength]
    exact or_iff_left fun h => hsame h.2
  rw [← hclock, clockText_lt, ← timestamp_lt_iff, timestamp_midnight, timestamp_midnight,
    instant_midnight, instant_midnight]
  constructor <;> intro h <;> omega

end DateTime

/-! ### Zoned texts -/

/-- How the zone of a text in UTC is written. -/
inductive Zone where
  | z
  | offset
deriving DecidableEq

def Zone.text : Zone → List Char
  | .z => ['Z']
  | .offset => ['+', '0', '0', ':', '0', '0']

/-- A text in UTC: the time, and how the zone is written. -/
structure Stamp where
  time : DateTime
  zone : Zone

namespace Stamp

/-- What stands behind the second: its fraction, if it has one, and the zone. -/
def tail (microsecond : Nat) (zone : Zone) : List Char :=
  if microsecond = 0 then zone.text else '.' :: (digits 6 microsecond ++ zone.text)

/-- `isoformat`, with either form of the zone. -/
def text (s : Stamp) : String :=
  String.ofList (s.time.clockText ++ tail s.time.microsecond s.zone)

def instant (s : Stamp) : Int :=
  s.time.instant

theorem text_ne_empty (s : Stamp) : s.text ≠ "" := by
  intro h
  have hlist := congrArg String.toList h
  simp [text, DateTime.clockText] at hlist

/-- Whole seconds with an offset come first, then the fractions in order, then whole seconds with
`Z`. -/
theorem tail_lt {m n : Nat} (hm : m ≤ 999999) (hn : n ≤ 999999) {p q : Zone} :
    tail m p < tail n q ↔
      m < n ∧ ¬ (m = 0 ∧ p = .z) ∨ m ≠ 0 ∧ n = 0 ∧ q = .z ∨ m = n ∧ p = .offset ∧ q = .z := by
  have hzones : p.text < q.text ↔ p = .offset ∧ q = .z := by
    cases p <;> cases q <;> decide
  have hpoint : ('.' : Char) < 'Z' ∧ ('+' : Char) < '.' ∧ ¬ ('Z' : Char) < '.' ∧
      ¬ ('.' : Char) < '+' ∧ ('Z' : Char) ≠ '.' ∧ ('+' : Char) ≠ '.' := by decide
  obtain ⟨hpz, hop, hzp, hpo, hz, ho⟩ := hpoint
  unfold tail
  split_ifs with hm0 hn0 hn0
  · simp [hm0, hn0, hzones]
  · have hpos := Nat.pos_of_ne_zero hn0
    cases p <;> simp [Zone.text, List.cons_lt_cons_iff, hzp, hop, hz, ho, hm0, hn0, hpos, Ne.symm hn0]
  · cases q <;> simp [Zone.text, List.cons_lt_cons_iff, hpz, hpo, hz.symm, ho.symm, hm0, hn0]
  · rw [List.cons_lt_cons_iff, digits_append_lt (by omega) (by omega), hzones]
    simp [hm0, hn0]

/-- A fraction and the whole second it is a part of, written with `Z`: the text of the fraction
comes first. -/
def Inverted (a b : Stamp) : Prop :=
  a.time.timestamp = b.time.timestamp ∧ a.time.microsecond ≠ 0 ∧ b.time.microsecond = 0 ∧
    b.zone = .z

instance (a b : Stamp) : Decidable (Inverted a b) :=
  inferInstanceAs (Decidable (_ ∧ _ ∧ _ ∧ _))

/-- One instant, written with an offset and with `Z`. -/
def Respelled (a b : Stamp) : Prop :=
  a.instant = b.instant ∧ a.zone = .offset ∧ b.zone = .z

instance (a b : Stamp) : Decidable (Respelled a b) :=
  inferInstanceAs (Decidable (_ ∧ _ ∧ _))

variable {a b : Stamp}

/-- Where texts are not ordered as instants. -/
theorem text_lt : a.text < b.text ↔
    a.instant < b.instant ∧ ¬ Inverted b a ∨ Inverted a b ∨ Respelled a b := by
  have ha := a.time.microsecond_range
  have hb := b.time.microsecond_range
  have hlength : a.time.clockText.length = b.time.clockText.length := by
    simp [DateTime.clockText]
  rw [text, text, String.lt_iff_toList_lt, String.toList_ofList, String.toList_ofList,
    append_lt_append hlength, DateTime.clockText_lt, DateTime.clockText_eq_iff, tail_lt ha hb,
    ← DateTime.timestamp_lt_iff]
  unfold Inverted Respelled instant DateTime.instant
  constructor
  · rintro (hlt | ⟨heq, ⟨hlt, hnot⟩ | ⟨hm, hn, hz⟩ | ⟨hmn, hy, hz⟩⟩)
    · exact .inl ⟨by omega, fun h => by omega⟩
    · exact .inl ⟨by omega, fun h => hnot ⟨h.2.2.1, h.2.2.2⟩⟩
    · exact .inr (.inl ⟨heq, hm, hn, hz⟩)
    · exact .inr (.inr ⟨by omega, hy, hz⟩)
  · rintro (⟨hlt, hnot⟩ | ⟨heq, hm, hn, hz⟩ | ⟨heq, hy, hz⟩)
    · rcases lt_trichotomy a.time.timestamp b.time.timestamp with h | h | h
      · exact .inl h
      · refine .inr ⟨h, .inl ⟨by omega, fun hzero => hnot ⟨h.symm, by omega, hzero.1, hzero.2⟩⟩⟩
      · omega
    · exact .inr ⟨heq, .inr (.inl ⟨hm, hn, hz⟩)⟩
    · exact .inr ⟨by omega, .inr (.inr ⟨by omega, hy, hz⟩)⟩

/-- Two texts that compare otherwise than their instants do. -/
def Misread (a b : Stamp) : Prop :=
  Inverted a b ∨ Inverted b a ∨ Respelled a b

instance (a b : Stamp) : Decidable (Misread a b) :=
  inferInstanceAs (Decidable (_ ∨ _ ∨ _))

theorem instant_of_inverted (h : Inverted a b) : b.instant < a.instant := by
  obtain ⟨heq, hm, hn, -⟩ := h
  unfold instant DateTime.instant
  omega

/-- **Texts compare as instants** exactly if they are not misread. -/
theorem text_lt_iff_instant_lt :
    (a.text < b.text ↔ a.instant < b.instant) ↔ ¬ Misread a b := by
  rw [text_lt]
  unfold Misread
  by_cases hab : Inverted a b
  · have hlt := instant_of_inverted hab
    have hnot : ¬ a.instant < b.instant := by omega
    simp [hab, hnot]
  · by_cases hba : Inverted b a
    · have hlt := instant_of_inverted hba
      have hrespelled : ¬ Respelled a b := fun h => by
        have := h.1
        omega
      simp [hab, hba, hrespelled, hlt]
    · by_cases hrespelled : Respelled a b
      · have hnot : ¬ a.instant < b.instant := by
          have := hrespelled.1
          omega
        simp [hrespelled, hnot]
      · simp [hab, hba, hrespelled]

/-- A text comes before the text of a day exactly if the instant does. -/
theorem text_lt_date {s : Stamp} {d : DateTime} :
    s.text < String.ofList d.dateText ↔ s.instant < d.midnight.instant := by
  have hlength : s.time.dateText.length = d.dateText.length := by simp
  have hday := s.time.instant_day
  have htext : s.text < String.ofList d.dateText ↔ s.time.dateText < d.dateText := by
    have happend : d.dateText = d.dateText ++ [] := (List.append_nil _).symm
    have hempty : ∀ cs : List Char, ¬ cs < [] := List.not_lt_nil
    rw [text, String.lt_iff_toList_lt, String.toList_ofList, String.toList_ofList,
      DateTime.clockText_eq, List.append_assoc]
    conv_lhs => rw [happend]
    rw [append_lt_append hlength]
    exact or_iff_left fun h => hempty _ h.2
  rw [htext, DateTime.dateText_lt]
  rw [DateTime.instant_midnight] at hday ⊢
  rw [DateTime.instant_midnight]
  unfold instant
  omega

/-- The text of a day, completed by what stands behind the date of a text. -/
theorem date_lt_text {s : Stamp} {d : DateTime} {rest : List Char}
    (hrest : s.text.toList = s.time.dateText ++ rest) :
    String.ofList (d.dateText ++ rest) < s.text ↔
      d.midnight.instant + 86400000000 ≤ s.instant := by
  have hlength : d.dateText.length = s.time.dateText.length := by simp
  have hday := s.time.instant_day
  have htext : String.ofList (d.dateText ++ rest) < s.text ↔ d.dateText < s.time.dateText := by
    rw [String.lt_iff_toList_lt, String.toList_ofList, hrest, append_lt_append hlength]
    exact or_iff_left fun h => lt_irrefl _ h.2
  rw [htext, DateTime.dateText_lt]
  rw [DateTime.instant_midnight] at hday ⊢
  rw [DateTime.instant_midnight]
  unfold instant
  omega

/-! ### Sorted texts -/

section Sorted

variable {α : Type*} {l : List α} {g : α → Stamp}

theorem not_inverted_self (s : Stamp) : ¬ Inverted s s := fun h => h.2.1 h.2.2.1

/-- What is sorted by text, later texts first, is newest first exactly if no whole second with `Z`
meets a fraction of it. -/
theorem newest_iff (hsorted : l.Pairwise fun a b => (g b).text ≤ (g a).text) :
    l.Pairwise (fun a b => (g b).instant ≤ (g a).instant) ↔
      ∀ a ∈ l, ∀ b ∈ l, ¬ Inverted (g a) (g b) := by
  constructor
  · intro hnewest
    have hboth := hsorted.and hnewest
    have hapart : l.Pairwise fun a b => ¬ Inverted (g a) (g b) ∧ ¬ Inverted (g b) (g a) := by
      refine hboth.imp fun {a b} h => ⟨fun hab => ?_, fun hba => ?_⟩
      · exact absurd (text_lt.mpr (.inr (.inl hab))) (not_lt_of_ge h.1)
      · exact absurd (instant_of_inverted hba) (not_lt_of_ge h.2)
    intro a ha b hb
    by_cases hab : a = b
    · rw [hab]
      exact not_inverted_self _
    · have : Std.Symm fun a b => ¬ Inverted (g a) (g b) ∧ ¬ Inverted (g b) (g a) :=
        ⟨fun _ _ h => ⟨h.2, h.1⟩⟩
      exact (hapart.forall ha hb hab).1
  · intro hapart
    refine hsorted.imp_of_mem fun {a b} ha hb h => ?_
    by_contra hlt
    exact not_lt_of_ge h (text_lt.mpr (.inl ⟨not_le.mp hlt, hapart b hb a ha⟩))

/-- The first of them is a newest one exactly if a whole second with `Z` that meets a fraction of
it is not in the last second. -/
theorem newest_head_iff (hsorted : l.Pairwise fun a b => (g b).text ≤ (g a).text) {x : α}
    (hx : l.head? = some x) :
    (∀ a ∈ l, (g a).instant ≤ (g x).instant) ↔
      ∀ a ∈ l, ∀ b ∈ l, Inverted (g a) (g b) →
        ∃ c ∈ l, (g b).time.timestamp < (g c).time.timestamp := by
  have hfirst : ∀ a ∈ l, (g a).text ≤ (g x).text := by
    cases l with
    | nil => cases hx
    | cons y rest =>
        obtain rfl := Option.some.inj hx
        intro a ha
        rcases List.mem_cons.mp ha with rfl | ha
        · exact le_refl _
        · exact (List.pairwise_cons.mp hsorted).1 a ha
  have hmem : x ∈ l := List.mem_of_mem_head? hx
  constructor
  · intro hnewest a ha b hb hab
    refine ⟨x, hmem, ?_⟩
    by_contra hlast
    -- then the first one is a fraction of that second, and stands behind the whole one
    have hax := hnewest a ha
    have hm := (g x).time.microsecond_range
    have hm' := (g a).time.microsecond_range
    obtain ⟨hsecond, hfraction, hwhole, hzone⟩ := hab
    unfold instant DateTime.instant at hax
    have hxb : Inverted (g x) (g b) := ⟨by omega, by omega, hwhole, hzone⟩
    exact absurd (text_lt.mpr (.inr (.inl hxb))) (not_lt_of_ge (hfirst b hb))
  · intro hlater a ha
    by_contra hlt
    have hnot := not_lt_of_ge (hfirst a ha)
    have hax : Inverted (g a) (g x) := by
      by_contra hax
      exact hnot (text_lt.mpr (.inl ⟨not_le.mp hlt, hax⟩))
    obtain ⟨c, hc, hsecond⟩ := hlater a ha x hmem hax
    have hm := (g x).time.microsecond_range
    have hcx : (g x).instant < (g c).instant := by
      unfold instant DateTime.instant
      omega
    have hapart : ¬ Inverted (g c) (g x) := fun h => by
      have := h.1
      omega
    exact not_lt_of_ge (hfirst c hc) (text_lt.mpr (.inl ⟨hcx, hapart⟩))

end Sorted

end Stamp

end Calendar
