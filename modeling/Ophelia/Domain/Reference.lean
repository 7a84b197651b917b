import Ophelia.Domain.Contracts

/-!
# Ophelia.Domain.Reference

A platform to run the kernel on: a polynomial digest in the place of SHA-256, and the first
minute of the year 2026 as its calendar, to the second. On this minute it prints and reads
timestamps as the calendar of the host does.
-/

namespace Ophelia

namespace Reference

/-! ### The digest -/

def hexDigit (n : Nat) : Char :=
  if n < 10 then Char.ofNat (48 + n) else Char.ofNat (87 + n)

/-- The last `k` hexadecimal digits of a number. -/
def hexDigits : Nat → Nat → List Char
  | 0, _ => []
  | k + 1, n => hexDigits k (n / 16) ++ [hexDigit (n % 16)]

/-- A polynomial hash of 127 bits. -/
def hash (cs : List Char) : Nat :=
  cs.foldl (fun h c => (h * 257 + c.toNat + 1) % (2 ^ 127 - 1)) 7

theorem length_hexDigits (k n : Nat) : (hexDigits k n).length = k := by
  induction k generalizing n with
  | zero => rfl
  | succ k ih => simp [hexDigits, ih]

theorem isHexDigit_hexDigit : ∀ n < 16, isHexDigit (hexDigit n) = true := by
  decide

theorem all_hexDigits (k n : Nat) : (hexDigits k n).all isHexDigit = true := by
  induction k generalizing n with
  | zero => rfl
  | succ k ih =>
      rw [hexDigits, List.all_append, ih, Bool.true_and]
      simp [isHexDigit_hexDigit (n % 16) (Nat.mod_lt _ (by decide))]

/-- The digest of a text, its lowest digit first. -/
def digestText (s : String) : Digest where
  val := String.ofList ("sha256:".toList ++ (hexDigits 64 (hash s.toList)).reverse)
  ok := by
    have htag : "sha256:".toList = ['s', 'h', 'a', '2', '5', '6', ':'] := by decide
    simp [isSha256, htag, all_hexDigits, length_hexDigits]

/-! ### The calendar -/

/-- Midnight of the first of January 2026, in seconds. -/
def EPOCH : Int := 1767225600

/-- The date, the hour and the minute of every instant. -/
def MINUTE : List Char := "2026-01-01T00:00:".toList

/-- The two digits of the second. -/
def seconds (d : Int) : List Char :=
  let s := (d / 1000000 - EPOCH).toNat
  [Char.ofNat (48 + s / 10), Char.ofNat (48 + s % 10)]

/-- The instants of the minute, in microseconds. -/
def instants : List Int :=
  (List.range 60).map fun s : Nat => (EPOCH + (s : Int)) * 1000000

def isoformat (d : Int) : String :=
  String.ofList (MINUTE ++ (seconds d ++ ['Z']))

def parseUtc (s : String) : Option Int :=
  if MINUTE.isPrefixOf s.toList then
    instants.find? fun d => seconds d ++ ['Z'] = s.toList.drop MINUTE.length
  else none

def fromTimestamp (t : Int) : Option Int :=
  if EPOCH ≤ t ∧ t < EPOCH + 60 then some (t * 1000000) else none

theorem find?_seconds : ∀ d ∈ instants,
    (instants.find? fun e => seconds e ++ ['Z'] = seconds d ++ ['Z']) = some d := by
  decide +kernel

theorem parseUtc_isoformat {t d : Int} (h : fromTimestamp t = some d) :
    parseUtc (isoformat d) = some d := by
  have hparse : parseUtc (isoformat d) =
      instants.find? fun e => seconds e ++ ['Z'] = seconds d ++ ['Z'] := by
    simp [parseUtc, isoformat]
  rw [hparse]
  unfold fromTimestamp at h
  split at h
  · rename_i hrange
    obtain rfl := Option.some.inj h
    refine find?_seconds _ (List.mem_map.mpr ⟨(t - EPOCH).toNat, ?_, ?_⟩)
    · rw [List.mem_range]
      omega
    · have hback : EPOCH + ((t - EPOCH).toNat : Int) = t := by omega
      show (EPOCH + ((t - EPOCH).toNat : Int)) * 1000000 = t * 1000000
      rw [hback]
  · exact absurd h (by simp)

theorem count_slash_seconds : ∀ d ∈ instants,
    MINUTE.count '/' + (seconds d ++ ['Z']).count '/' ≤ 1 := by
  decide +kernel

theorem count_slash_of_parseUtc {s : String} {d : Int} (h : parseUtc s = some d) :
    s.toList.count '/' ≤ 1 := by
  unfold parseUtc at h
  split at h
  · rename_i hpre
    obtain ⟨rest, hrest⟩ := List.isPrefixOf_iff_prefix.mp hpre
    rw [← hrest] at h ⊢
    have hs : seconds d ++ ['Z'] = rest := by simpa using List.find?_some h
    rw [List.count_append, ← hs]
    exact count_slash_seconds d (List.mem_of_find?_eq_some h)
  · exact absurd h (by simp)

/-- The reference platform, with clock readings in seconds. -/
@[reducible] def platform : Platform where
  digestText := digestText
  parseUtc := parseUtc
  fromTimestamp := fromTimestamp
  isoformat := isoformat
  addSeconds a b := a + b
  second := 1
  parseUtc_isoformat := parseUtc_isoformat
  count_slash_of_parseUtc := count_slash_of_parseUtc

attribute [local instance] platform in
theorem isUtc_newYear : isUtc "2026-01-01T00:00:00Z".toList = true := by decide +kernel

end Reference

end Ophelia
