import Mathlib.Data.List.Basic

/-!
# Ophelia.Lib.Utf8

Decoding UTF-8 one byte at a time, with a replacement character for what is broken: each
longest run of bytes that begins a character and is not continued comes to one replacement
character, and so does every byte that begins none.

The decoder is a machine on bytes, so the text of a byte string cut anywhere is what the
machine has written so far, and one replacement character when it is inside a character.
-/

namespace Utf8

/-- Before a character, or inside one: then `owed + 1` bytes are to come, the next of them
from `low` to `high`. -/
inductive State where
  | start
  | within (owed low high code : Nat)
deriving DecidableEq

/-- U+FFFD. -/
def replacement : Char := Char.ofNat 0xFFFD

/-- A byte where a character may begin. -/
def first (b : Nat) : List Char × State :=
  if b < 0x80 then ([Char.ofNat b], .start)
  else if 0xC2 ≤ b ∧ b ≤ 0xDF then ([], .within 0 0x80 0xBF (b - 0xC0))
  else if 0xE0 ≤ b ∧ b ≤ 0xEF then
    ([], .within 1 (if b = 0xE0 then 0xA0 else 0x80) (if b = 0xED then 0x9F else 0xBF) (b - 0xE0))
  else if 0xF0 ≤ b ∧ b ≤ 0xF4 then
    ([], .within 2 (if b = 0xF0 then 0x90 else 0x80) (if b = 0xF4 then 0x8F else 0xBF) (b - 0xF0))
  else ([replacement], .start)

/-- One byte. A byte that does not continue a character is read again as a first byte. -/
def step : State → Nat → List Char × State
  | .start, b => first b
  | .within 0 low high code, b =>
      if low ≤ b ∧ b ≤ high then ([Char.ofNat (code * 64 + (b - 0x80))], .start)
      else (replacement :: (first b).1, (first b).2)
  | .within (owed + 1) low high code, b =>
      if low ≤ b ∧ b ≤ high then ([], .within owed 0x80 0xBF (code * 64 + (b - 0x80)))
      else (replacement :: (first b).1, (first b).2)

/-- Any number of bytes. -/
def run : State → List UInt8 → List Char × State
  | s, [] => ([], s)
  | s, b :: bs =>
      ((step s b.toNat).1 ++ (run (step s b.toNat).2 bs).1, (run (step s b.toNat).2 bs).2)

/-- What an unfinished character comes to. -/
def flush : State → List Char
  | .start => []
  | .within .. => [replacement]

/-- `bytes.decode("utf-8", errors="replace")`. -/
def decode (bytes : List UInt8) : List Char :=
  (run .start bytes).1 ++ flush (run .start bytes).2

/-- The encoding of a text. -/
def encode (cs : List Char) : List UInt8 :=
  cs.flatMap String.utf8EncodeChar

/-- The characters of a text that are complete after `k` bytes of it. -/
def whole (k : Nat) : List Char → List Char
  | [] => []
  | c :: cs => if c.utf8Size ≤ k then c :: whole (k - c.utf8Size) cs else []

/-! ### Runs -/

theorem run_append (s : State) (bs bs' : List UInt8) :
    run s (bs ++ bs') = ((run s bs).1 ++ (run (run s bs).2 bs').1, (run (run s bs).2 bs').2) := by
  induction bs generalizing s with
  | nil => rfl
  | cons b bs ih =>
      rw [List.cons_append, run, run, ih, List.append_assoc]

/-- The next byte of a character under way is a continuation byte. -/
def State.Bounded : State → Prop
  | .start => True
  | .within _ low high _ => 0x80 ≤ low ∧ high ≤ 0xBF

theorem bounded_first (b : Nat) : (first b).2.Bounded := by
  rw [first]
  split_ifs <;> simp [State.Bounded]

theorem bounded_step (s : State) (b : Nat) : (step s b).2.Bounded := by
  rcases s with _ | ⟨_ | owed, low, high, code⟩
  · exact bounded_first b
  · rw [step]
    split_ifs
    · exact trivial
    · exact bounded_first b
  · rw [step]
    split_ifs
    · exact ⟨Nat.le_refl _, Nat.le_refl _⟩
    · exact bounded_first b

theorem bounded_run {s : State} (hs : s.Bounded) (bs : List UInt8) : (run s bs).2.Bounded := by
  induction bs generalizing s with
  | nil => exact hs
  | cons b bs ih => exact ih (bounded_step s b.toNat)

/-- A byte that begins a character ends the one under way. -/
theorem run_of_lead {s : State} (hs : s.Bounded) {b : UInt8} (hb : b.toNat < 0x80 ∨ 0xC0 ≤ b.toNat)
    (bs : List UInt8) :
    run s (b :: bs) = (flush s ++ (run .start (b :: bs)).1, (run .start (b :: bs)).2) := by
  have hstep : step s b.toNat = (flush s ++ (first b.toNat).1, (first b.toNat).2) := by
    rcases s with _ | ⟨_ | owed, low, high, code⟩
    · rfl
    · rw [step, if_neg (by simp only [State.Bounded] at hs; omega)]
      rfl
    · rw [step, if_neg (by simp only [State.Bounded] at hs; omega)]
      rfl
  rw [run, run, hstep, step, List.append_assoc]

/-! ### Encodings -/

theorem encode_cons (c : Char) (cs : List Char) :
    encode (c :: cs) = String.utf8EncodeChar c ++ encode cs := rfl

theorem toNat_ofNat {n : Nat} (h : n < 256) : (UInt8.ofNat n).toNat = n := by
  rw [UInt8.toNat_ofNat', Nat.mod_eq_of_lt h]

theorem ofNat_of_toNat {c : Char} {n : Nat} (h : n = c.val.toNat) : Char.ofNat n = c := by
  rw [h]
  exact Char.ofNat_toNat c

theorem step_last {low high code b : Nat} (h : low ≤ b ∧ b ≤ high) :
    step (.within 0 low high code) b = ([Char.ofNat (code * 64 + (b - 0x80))], .start) := by
  rw [step, if_pos h]

theorem step_more {owed low high code b : Nat} (h : low ≤ b ∧ b ≤ high) :
    step (.within (owed + 1) low high code) b =
      ([], .within owed 0x80 0xBF (code * 64 + (b - 0x80))) := by
  rw [step, if_pos h]

theorem first_two {b : Nat} (h : 0xC2 ≤ b ∧ b ≤ 0xDF) :
    step .start b = ([], .within 0 0x80 0xBF (b - 0xC0)) := by
  rw [step, first, if_neg (by omega), if_pos h]

theorem first_three {b : Nat} (h : 0xE0 ≤ b ∧ b ≤ 0xEF) :
    step .start b = ([], .within 1 (if b = 0xE0 then 0xA0 else 0x80)
      (if b = 0xED then 0x9F else 0xBF) (b - 0xE0)) := by
  rw [step, first, if_neg (by omega), if_neg (by omega), if_pos h]

theorem first_four {b : Nat} (h : 0xF0 ≤ b ∧ b ≤ 0xF4) :
    step .start b = ([], .within 2 (if b = 0xF0 then 0x90 else 0x80)
      (if b = 0xF4 then 0x8F else 0xBF) (b - 0xF0)) := by
  rw [step, first, if_neg (by omega), if_neg (by omega), if_neg (by omega), if_pos h]

/-- The bytes of a character, as numbers, with the states between them. -/
inductive Bytes (c : Char) : List Nat → Prop
  | one {a : Nat} (ha : a < 0x80) (hc : c.val.toNat = a) : Bytes c [a]
  | two {a b : Nat} (ha : 0xC2 ≤ a ∧ a ≤ 0xDF) (hb : 0x80 ≤ b ∧ b ≤ 0xBF)
      (hc : c.val.toNat = (a - 0xC0) * 64 + (b - 0x80)) : Bytes c [a, b]
  | three {a b d : Nat} (ha : 0xE0 ≤ a ∧ a ≤ 0xEF)
      (hb : (if a = 0xE0 then 0xA0 else 0x80) ≤ b ∧ b ≤ if a = 0xED then 0x9F else 0xBF)
      (hd : 0x80 ≤ d ∧ d ≤ 0xBF)
      (hc : c.val.toNat = ((a - 0xE0) * 64 + (b - 0x80)) * 64 + (d - 0x80)) : Bytes c [a, b, d]
  | four {a b d e : Nat} (ha : 0xF0 ≤ a ∧ a ≤ 0xF4)
      (hb : (if a = 0xF0 then 0x90 else 0x80) ≤ b ∧ b ≤ if a = 0xF4 then 0x8F else 0xBF)
      (hd : 0x80 ≤ d ∧ d ≤ 0xBF) (he : 0x80 ≤ e ∧ e ≤ 0xBF)
      (hc : c.val.toNat =
        (((a - 0xF0) * 64 + (b - 0x80)) * 64 + (d - 0x80)) * 64 + (e - 0x80)) : Bytes c [a, b, d, e]

theorem bytes_utf8EncodeChar (c : Char) :
    Bytes c ((String.utf8EncodeChar c).map UInt8.toNat) := by
  have hvalid : c.val.toNat < 0xD800 ∨ 0xDFFF < c.val.toNat ∧ c.val.toNat < 0x110000 := c.valid
  rw [String.utf8EncodeChar]
  split_ifs with h1 h2 h3
  · rw [List.map_singleton, toNat_ofNat (by omega)]
    exact .one (by omega) rfl
  · rw [List.map_cons, List.map_singleton, toNat_ofNat (by omega), toNat_ofNat (by omega)]
    exact .two (by omega) (by omega) (by omega)
  · rw [List.map_cons, List.map_cons, List.map_singleton, toNat_ofNat (by omega),
      toNat_ofNat (by omega), toNat_ofNat (by omega)]
    -- the second byte excludes overlong forms and surrogates
    refine .three (by omega) ?_ (by omega) (by omega)
    split_ifs <;> omega
  · rw [List.map_cons, List.map_cons, List.map_cons, List.map_singleton, toNat_ofNat (by omega),
      toNat_ofNat (by omega), toNat_ofNat (by omega), toNat_ofNat (by omega)]
    refine .four (by omega) ?_ (by omega) (by omega) (by omega)
    split_ifs <;> omega

/-- Inside a character nothing is written. -/
def Silent (bs : List UInt8) : Prop :=
  ∃ owed low high code, run .start bs = ([], .within owed low high code)

/-- The bytes of a character lead back to the start, and on the way nothing is written. -/
theorem run_utf8EncodeChar (c : Char) :
    run .start (String.utf8EncodeChar c) = ([c], .start) ∧
    (∀ k, 0 < k → k < c.utf8Size → Silent ((String.utf8EncodeChar c).take k)) ∧
    ∃ b bs, String.utf8EncodeChar c = b :: bs ∧ (b.toNat < 0x80 ∨ 0xC0 ≤ b.toNat) := by
  have hlength := String.length_utf8EncodeChar c
  have hbytes := bytes_utf8EncodeChar c
  generalize String.utf8EncodeChar c = bytes at hlength hbytes
  generalize hnums : bytes.map UInt8.toNat = nums at hbytes
  rw [← hlength]
  cases hbytes with
  | one ha hc =>
      obtain ⟨x, rfl, rfl⟩ := List.map_eq_singleton_iff.mp hnums
      refine ⟨?_, fun k hk hlt => absurd hlt (by simp; omega), x, [], rfl, Or.inl ha⟩
      rw [run, step, first, if_pos ha, run, ofNat_of_toNat hc.symm]
      rfl
  | two ha hb hc =>
      obtain ⟨x, xs, rfl, rfl, hxs⟩ := List.map_eq_cons_iff.mp hnums
      obtain ⟨y, rfl, rfl⟩ := List.map_eq_singleton_iff.mp hxs
      refine ⟨?_, fun k hk hlt => ?_, x, _, rfl, Or.inr (by omega)⟩
      · rw [run, run, run, first_two ha, step_last hb, ofNat_of_toNat hc.symm]
        rfl
      · obtain rfl : k = 1 := by simp at hlt; omega
        exact ⟨_, _, _, _, by rw [List.take_succ_cons, List.take_zero, run, run, first_two ha]; rfl⟩
  | three ha hb hd hc =>
      obtain ⟨x, xs, rfl, rfl, hxs⟩ := List.map_eq_cons_iff.mp hnums
      obtain ⟨y, ys, rfl, rfl, hys⟩ := List.map_eq_cons_iff.mp hxs
      obtain ⟨z, rfl, rfl⟩ := List.map_eq_singleton_iff.mp hys
      refine ⟨?_, fun k hk hlt => ?_, x, _, rfl, Or.inr (by omega)⟩
      · rw [run, run, run, run, first_three ha, step_more hb, step_last hd,
          ofNat_of_toNat hc.symm]
        rfl
      · obtain rfl | rfl : k = 1 ∨ k = 2 := by simp at hlt; omega
        · exact ⟨_, _, _, _, by rw [List.take_succ_cons, List.take_zero, run, run, first_three ha]; rfl⟩
        · exact ⟨_, _, _, _, by
            rw [List.take_succ_cons, List.take_succ_cons, List.take_zero, run, run, run,
              first_three ha, step_more hb]
            rfl⟩
  | four ha hb hd he hc =>
      obtain ⟨x, xs, rfl, rfl, hxs⟩ := List.map_eq_cons_iff.mp hnums
      obtain ⟨y, ys, rfl, rfl, hys⟩ := List.map_eq_cons_iff.mp hxs
      obtain ⟨z, zs, rfl, rfl, hzs⟩ := List.map_eq_cons_iff.mp hys
      obtain ⟨w, rfl, rfl⟩ := List.map_eq_singleton_iff.mp hzs
      refine ⟨?_, fun k hk hlt => ?_, x, _, rfl, Or.inr (by omega)⟩
      · rw [run, run, run, run, run, first_four ha, step_more hb, step_more hd, step_last he,
          ofNat_of_toNat hc.symm]
        rfl
      · obtain rfl | rfl | rfl : k = 1 ∨ k = 2 ∨ k = 3 := by simp at hlt; omega
        · exact ⟨_, _, _, _, by rw [List.take_succ_cons, List.take_zero, run, run, first_four ha]; rfl⟩
        · exact ⟨_, _, _, _, by
            rw [List.take_succ_cons, List.take_succ_cons, List.take_zero, run, run, run,
              first_four ha, step_more hb]
            rfl⟩
        · exact ⟨_, _, _, _, by
            rw [List.take_succ_cons, List.take_succ_cons, List.take_succ_cons, List.take_zero,
              run, run, run, run, first_four ha, step_more hb, step_more hd]
            rfl⟩

/-- A text after anything: the character under way is broken off, and the text is read. -/
theorem run_encode {s : State} (hs : s.Bounded) (cs : List Char) :
    run s (encode cs) = if cs = [] then ([], s) else (flush s ++ cs, .start) := by
  induction cs generalizing s with
  | nil => rfl
  | cons c cs ih =>
      obtain ⟨hrun, -, b, bs, hbytes, hlead⟩ := run_utf8EncodeChar c
      rw [if_neg (List.cons_ne_nil c cs), encode_cons, run_append]
      have hhead : run s (String.utf8EncodeChar c) = (flush s ++ [c], .start) := by
        rw [hbytes, run_of_lead hs hlead, ← hbytes, hrun]
      have hrest : run .start (encode cs) = (cs, .start) := by
        rw [@ih .start trivial]
        split
        · rename_i hnil
          rw [hnil]
        · rfl
      rw [hhead, hrest, List.append_assoc]
      rfl

/-- The bytes of a text up to a cut: its complete characters, and a piece of the next one. -/
theorem take_encode (cs : List Char) {k : Nat} (hk : k < (encode cs).length) :
    ∃ c j, j < c.utf8Size ∧
      (encode cs).take k = encode (whole k cs) ++ (String.utf8EncodeChar c).take j := by
  induction cs generalizing k with
  | nil => exact absurd hk (Nat.not_lt_zero k)
  | cons c cs ih =>
      rw [encode_cons, List.length_append, String.length_utf8EncodeChar] at hk
      rw [whole, encode_cons]
      by_cases hfits : c.utf8Size ≤ k
      · obtain ⟨d, j, hj, htake⟩ := ih (by omega : k - c.utf8Size < (encode cs).length)
        refine ⟨d, j, hj, ?_⟩
        rw [if_pos hfits, List.take_append, String.length_utf8EncodeChar,
          List.take_of_length_le (by rw [String.length_utf8EncodeChar]; exact hfits)]
        rw [htake, encode_cons, List.append_assoc]
      · refine ⟨c, k, by omega, ?_⟩
        rw [if_neg hfits, List.take_append_of_le_length
          (by rw [String.length_utf8EncodeChar]; omega)]
        rfl

/-- A cut inside a text that stands behind anything: what stands before it is decoded as if
it were alone, then come the complete characters, and at most one replacement character. -/
theorem decode_cut (before : List UInt8) (cs : List Char) (after : List UInt8) {limit : Nat}
    (hlow : before.length < limit) (hhigh : limit < before.length + (encode cs).length) :
    ∃ rest, (rest = [] ∨ rest = [replacement]) ∧
      decode ((before ++ encode cs ++ after).take limit) =
        decode before ++ whole (limit - before.length) cs ++ rest := by
  have hpos : 0 < limit - before.length := by omega
  obtain ⟨c, j, hj, htake⟩ := take_encode cs (by omega : limit - before.length < (encode cs).length)
  have hcut : (before ++ encode cs ++ after).take limit =
      before ++ (encode (whole (limit - before.length) cs) ++ (String.utf8EncodeChar c).take j) := by
    rw [← htake, List.append_assoc, List.take_append, List.take_of_length_le (by omega),
      List.take_append_of_le_length (by omega)]
  rw [hcut, decode, run_append]
  have hs : (run .start before).2.Bounded := @bounded_run .start trivial before
  -- the piece of the next character, from the start
  have hpiece : ∃ rest, (rest = [] ∨ rest = [replacement]) ∧
      (run .start ((String.utf8EncodeChar c).take j)).1 = [] ∧
      flush (run .start ((String.utf8EncodeChar c).take j)).2 = rest := by
    rcases Nat.eq_zero_or_pos j with rfl | hjpos
    · exact ⟨[], Or.inl rfl, rfl, rfl⟩
    · obtain ⟨owed, low, high, code, hrun⟩ := (run_utf8EncodeChar c).2.1 j hjpos hj
      rw [hrun]
      exact ⟨[replacement], Or.inr rfl, rfl, rfl⟩
  obtain ⟨rest, hrest, hwritten, hflush⟩ := hpiece
  refine ⟨rest, hrest, ?_⟩
  rw [run_append, run_encode hs, decode]
  by_cases hnil : whole (limit - before.length) cs = []
  · -- the cut is inside the first character
    rw [hnil] at htake ⊢
    have hjpos : 0 < j := by
      rcases Nat.eq_zero_or_pos j with rfl | hjpos
      · have hlength := congrArg List.length htake
        rw [List.length_take, Nat.min_eq_left (by omega)] at hlength
        exact absurd hlength (by simp [encode]; omega)
      · exact hjpos
    obtain ⟨b, bs, hbytes, hlead⟩ := (run_utf8EncodeChar c).2.2
    have hfirst : (String.utf8EncodeChar c).take j = b :: bs.take (j - 1) := by
      obtain ⟨i, rfl⟩ := Nat.exists_eq_succ_of_ne_zero (Nat.ne_of_gt hjpos)
      rw [hbytes]
      rfl
    rw [hfirst] at hwritten hflush ⊢
    rw [if_pos rfl, run_of_lead hs hlead, hwritten, hflush]
    simp
  · rw [if_neg hnil, hwritten, hflush]
    simp

end Utf8
