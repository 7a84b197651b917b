import Mathlib.Data.List.Dedup
import Mathlib.Data.List.Sort
import Ophelia.Lib.Utf8
import Ophelia.Lib.Replacing

/-!
# Ophelia.Execution.Subprocesses

The output of external processes (`execution/subprocesses.py`). A pipe is drained to its end
while only so many bytes of it are kept; what is kept is decoded, and in the text every
redact value is replaced by a marker, the longest values first.

The bytes kept are a front of the stream however it was read, so neither text nor flag
depends on the reads, and no redact value is left in the text. But the values are replaced
after the cut: of a value that the limit cuts the front stays, unless other values cover it.
-/

namespace Ophelia

open Replacing

/-- `_BoundedOutput`. -/
structure BoundedOutput where
  maximum : Nat
  value : List UInt8
  truncated : Bool
deriving DecidableEq

namespace BoundedOutput

def init (maximum : Nat) : BoundedOutput := ⟨maximum, [], false⟩

/-- One round of the loop in `drain`. -/
def extend (o : BoundedOutput) (chunk : List UInt8) : BoundedOutput :=
  let remaining : Int := o.maximum - o.value.length
  { o with
    value := if remaining > 0 then o.value ++ chunk.take remaining.toNat else o.value
    truncated := o.truncated || decide ((chunk.length : Int) > remaining) }

/-- `drain`, on what the reads return one after the other; an empty read is the end. -/
def drain (o : BoundedOutput) : List (List UInt8) → BoundedOutput
  | [] => o
  | chunk :: chunks => if chunk = [] then o else (o.extend chunk).drain chunks

/-- What has been kept of the bytes read so far. -/
structure Follows (o : BoundedOutput) (seen : List UInt8) : Prop where
  value : o.value = seen.take o.maximum
  truncated : o.truncated = decide (o.maximum < seen.length)

theorem Follows.extend {o : BoundedOutput} {seen : List UInt8} (h : o.Follows seen)
    (chunk : List UInt8) : (o.extend chunk).Follows (seen ++ chunk) := by
  have hlength : o.value.length = min o.maximum seen.length := by
    rw [h.value, List.length_take]
  constructor
  · change (if (o.maximum : Int) - o.value.length > 0 then
        o.value ++ chunk.take ((o.maximum : Int) - o.value.length).toNat else o.value) =
      (seen ++ chunk).take o.maximum
    rw [List.take_append]
    split_ifs with hroom
    · have hremaining : ((o.maximum : Int) - o.value.length).toNat = o.maximum - seen.length := by
        omega
      rw [hremaining, h.value]
    · -- the limit is reached
      have hfull : o.maximum - seen.length = 0 := by omega
      rw [hfull, List.take_zero, List.append_nil, h.value]
  · change (o.truncated || decide ((chunk.length : Int) > o.maximum - o.value.length)) =
      decide (o.maximum < (seen ++ chunk).length)
    rw [h.truncated, List.length_append, Bool.eq_iff_iff]
    simp only [Bool.or_eq_true, decide_eq_true_eq]
    omega

theorem Follows.drain {chunks : List (List UInt8)} (hchunks : ∀ c ∈ chunks, c ≠ [])
    {o : BoundedOutput} {seen : List UInt8} (h : o.Follows seen) :
    (o.drain chunks).Follows (seen ++ chunks.flatten) ∧ (o.drain chunks).maximum = o.maximum := by
  induction chunks generalizing o seen with
  | nil =>
      rw [List.flatten_nil, List.append_nil]
      exact ⟨h, rfl⟩
  | cons chunk chunks ih =>
      rw [BoundedOutput.drain, if_neg (hchunks chunk List.mem_cons_self), List.flatten_cons,
        ← List.append_assoc]
      exact ih (fun c hc => hchunks c (List.mem_cons_of_mem _ hc)) (h.extend chunk)

end BoundedOutput

/-- The ways a stream can be read: in pieces that are not empty, of 64 KiB at most. -/
def Reads (chunks : List (List UInt8)) (stream : List UInt8) : Prop :=
  chunks.flatten = stream ∧ ∀ c ∈ chunks, c ≠ [] ∧ c.length ≤ 64 * 1024

/-- However the stream is read, its first bytes are kept. -/
theorem drain_init {chunks : List (List UInt8)} {stream : List UInt8} (h : Reads chunks stream)
    (maximum : Nat) :
    (BoundedOutput.init maximum).drain chunks =
      ⟨maximum, stream.take maximum, decide (maximum < stream.length)⟩ := by
  have hinit : (BoundedOutput.init maximum).Follows [] := ⟨by simp [BoundedOutput.init], rfl⟩
  obtain ⟨⟨hvalue, htruncated⟩, hmaximum⟩ := hinit.drain fun c hc => (h.2 c hc).1
  rw [List.nil_append, h.1, hmaximum] at hvalue htruncated
  have hmax : (BoundedOutput.init maximum).maximum = maximum := rfl
  rw [hmax] at hvalue htruncated hmaximum
  generalize (BoundedOutput.init maximum).drain chunks = o at hvalue htruncated hmaximum
  obtain ⟨m, v, t⟩ := o
  rw [BoundedOutput.mk.injEq]
  exact ⟨hmaximum, hvalue, htruncated⟩

/-- A stream can be read byte by byte. -/
theorem exists_reads (stream : List UInt8) : ∃ chunks, Reads chunks stream := by
  refine ⟨stream.map fun b => [b], ?_, fun c hc => ?_⟩
  · rw [← List.flatMap_def, List.flatMap_singleton']
  · obtain ⟨b, -, rfl⟩ := List.mem_map.mp hc
    exact ⟨List.cons_ne_nil b [], by simp⟩

/-! ### The runner -/

/-- `"[REDACTED]"`. -/
def REDACTION_MARKER : List Char := "[REDACTED]".toList

/-- `SubprocessRunner`: the redact values are not empty and stand in an order of decreasing
length; values of one length stand in any order, as a set gives them. -/
structure SubprocessRunner where
  maxOutputBytes : Nat
  redactValues : List (List Char)
  bounded : 1 ≤ maxOutputBytes ∧ maxOutputBytes ≤ 16 * 1024 * 1024
  nonempty : ∀ v ∈ redactValues, v ≠ []
  unique : redactValues.Nodup
  longestFirst : redactValues.Pairwise fun v w => w.length ≤ v.length

namespace SubprocessRunner

/-- At least as long. -/
def AsLong (v w : List Char) : Prop :=
  w.length ≤ v.length

instance : DecidableRel AsLong := fun v w => Nat.decLe w.length v.length

instance : Std.Total AsLong := ⟨fun v w => Nat.le_total w.length v.length⟩

instance : IsTrans (List Char) AsLong := ⟨fun _ _ _ h h' => Nat.le_trans h' h⟩

/-- `SubprocessRunner.__init__`, on one of the orders in which the set gives its values. -/
def init? (maxOutputBytes : Int) (redactValues : List (List Char)) :
    Except String SubprocessRunner :=
  if h : 1 ≤ maxOutputBytes ∧ maxOutputBytes ≤ 16 * 1024 * 1024 then
    .ok {
      maxOutputBytes := maxOutputBytes.toNat
      redactValues := (redactValues.filter (· ≠ [])).dedup.insertionSort AsLong
      bounded := by omega
      nonempty := fun v hv => by
        rw [List.mem_insertionSort, List.mem_dedup, List.mem_filter] at hv
        exact of_decide_eq_true hv.2
      unique := (List.perm_insertionSort _ _).nodup_iff.mpr (List.nodup_dedup _)
      longestFirst := List.pairwise_insertionSort AsLong _ }
  else .error "max_output_bytes must be between 1 and 16777216."

/-- `_redact`. -/
def redact (r : SubprocessRunner) (value : List Char) : List Char :=
  r.redactValues.foldl (fun result secret => replaceAll id secret REDACTION_MARKER result) value

/-- The texts and flags of a `ProcessResult`. -/
structure Output where
  stdout : List Char
  stderr : List Char
  stdoutTruncated : Bool
  stderrTruncated : Bool
deriving DecidableEq

/-- What `run` returns for the reads of the two pipes. -/
def output (r : SubprocessRunner) (out err : List (List UInt8)) : Output :=
  let stdout := (BoundedOutput.init r.maxOutputBytes).drain out
  let stderr := (BoundedOutput.init r.maxOutputBytes).drain err
  { stdout := r.redact (Utf8.decode stdout.value)
    stderr := r.redact (Utf8.decode stderr.value)
    stdoutTruncated := stdout.truncated
    stderrTruncated := stderr.truncated }

/-! ### What is kept of a value -/

/-- `redact` on characters with their positions. -/
def redactMarked (r : SubprocessRunner) (value : List Char) : List (Char × Option Nat) :=
  r.redactValues.foldl
    (fun result secret =>
      replaceAll Prod.fst secret (REDACTION_MARKER.map fun c => (c, none)) result)
    (withOrigins value)

/-- The characters of the marked text are those of the redacted one. -/
theorem map_redactMarked (r : SubprocessRunner) (value : List Char) :
    (r.redactMarked value).map Prod.fst = r.redact value := by
  have hstart : (withOrigins value).map Prod.fst = value := by
    rw [withOrigins, List.map_map]
    exact List.zipIdx_map_fst 0 value
  have hwalk : ∀ (words : List (List Char)), (∀ w ∈ words, w ≠ []) →
      ∀ text : List (Char × Option Nat),
      (words.foldl (fun result secret =>
          replaceAll Prod.fst secret (REDACTION_MARKER.map fun c => (c, none)) result) text).map
        Prod.fst =
      words.foldl (fun result secret => replaceAll id secret REDACTION_MARKER result)
        (text.map Prod.fst) := by
    intro words hwords
    induction words with
    | nil => exact fun text => rfl
    | cons w words ih =>
        intro text
        rw [List.foldl_cons, List.foldl_cons, ih fun v hv => hwords v (List.mem_cons_of_mem _ hv),
          @map_replaceAll _ _ _ _ Prod.fst id Prod.fst (fun _ => rfl) _
            (hwords w List.mem_cons_self), List.map_map]
        rfl
  rw [redactMarked, hwalk r.redactValues r.nonempty, hstart, redact]

/-- The limit cuts an occurrence of a redact value behind `before`. -/
structure Cuts (r : SubprocessRunner) (stream before : List UInt8) (v : List Char) : Prop where
  mem : v ∈ r.redactValues
  occurs : ∃ after, stream = before ++ Utf8.encode v ++ after
  low : before.length < r.maxOutputBytes
  high : r.maxOutputBytes < before.length + (Utf8.encode v).length

/-- The positions in the text of the characters that the limit has left of a value behind
`before`. -/
def LeftOver (r : SubprocessRunner) (before : List UInt8) (v : List Char) (i : Nat) : Prop :=
  (Utf8.decode before).length ≤ i ∧
    i < (Utf8.decode before).length + (Utf8.whole (r.maxOutputBytes - before.length) v).length

/-- No character of a value that is cut is still in the text. -/
def KeepsNoPart (r : SubprocessRunner) (stream kept : List UInt8) : Prop :=
  ∀ before v, r.Cuts stream before v → ∀ i, r.LeftOver before v i →
    ∀ c, (c, some i) ∉ r.redactMarked (Utf8.decode kept)

/-- Bounded output hides secrets, for the bytes that a child has written to its pipes. -/
structure Hides (r : SubprocessRunner) (out err : List UInt8) : Prop where
  independent : ∀ outs outs' errs errs', Reads outs out → Reads outs' out → Reads errs err →
    Reads errs' err → r.output outs errs = r.output outs' errs'
  absent : ∀ outs errs, Reads outs out → Reads errs err → ∀ v ∈ r.redactValues,
    ¬ v <:+: (r.output outs errs).stdout ∧ ¬ v <:+: (r.output outs errs).stderr
  cut : ∀ outs errs, Reads outs out → Reads errs err →
    r.KeepsNoPart out ((BoundedOutput.init r.maxOutputBytes).drain outs).value ∧
      r.KeepsNoPart err ((BoundedOutput.init r.maxOutputBytes).drain errs).value
  truncated : ∀ outs errs, Reads outs out → Reads errs err →
    ((r.output outs errs).stdoutTruncated = true ↔
      ((BoundedOutput.init r.maxOutputBytes).drain outs).value ≠ out) ∧
    ((r.output outs errs).stderrTruncated = true ↔
      ((BoundedOutput.init r.maxOutputBytes).drain errs).value ≠ err)

/-- Every character that the limit leaves of a value it cuts is in a replaced occurrence of a
redact value. -/
def Covered (r : SubprocessRunner) (stream : List UInt8) : Prop :=
  ∀ before v, r.Cuts stream before v → ∀ i, r.LeftOver before v i →
    Replacing.Hidden r.redactValues (Utf8.decode (stream.take r.maxOutputBytes)) i

variable {r : SubprocessRunner}

/-- No value shares a character with the marker. -/
def Disjoint (r : SubprocessRunner) : Prop :=
  ∀ v ∈ r.redactValues, ∀ c ∈ v, c ∉ REDACTION_MARKER

theorem not_infix_redact (h : r.Disjoint) {v : List Char} (hv : v ∈ r.redactValues)
    (text : List Char) : ¬ v <:+: r.redact text := by
  have hmarker : ∀ w ∈ r.redactValues, ∀ c ∈ w, c ∉ REDACTION_MARKER.map id := by
    intro w hw c hc
    rw [List.map_id]
    exact h w hw c hc
  have hne : REDACTION_MARKER ≠ [] := by decide
  -- what one step has removed, the later ones do not bring back
  have hwalk : ∀ (words : List (List Char)), (∀ w ∈ words, w ∈ r.redactValues) →
      ∀ text : List Char, v ∈ words ∨ ¬ v <:+: text →
      ¬ v <:+: words.foldl (fun result w => replaceAll id w REDACTION_MARKER result) text := by
    intro words
    induction words with
    | nil => exact fun _ text h => h.resolve_left List.not_mem_nil
    | cons w words ih =>
        intro hwords text hv'
        have hw := hwords w List.mem_cons_self
        refine ih (fun u hu => hwords u (List.mem_cons_of_mem _ hu)) _ ?_
        rcases hv' with hv' | hv'
        · rcases List.mem_cons.mp hv' with rfl | hv'
          · have hgone := not_infix_replaceAll (r.nonempty v hw) hne (hmarker v hw) text
            rw [List.map_id] at hgone
            exact Or.inr hgone
          · exact Or.inl hv'
        · refine Or.inr fun hinfix => hv' ?_
          have hbefore := @infix_of_replaceAll _ _ _ id w v REDACTION_MARKER (r.nonempty w hw) hne
            (hmarker v hv) (r.nonempty v hv) text
          rw [List.map_id, List.map_id] at hbefore
          exact hbefore hinfix
  exact hwalk r.redactValues (fun _ hw => hw) text (Or.inl hv)

/-- What is left of a value stands in the text. -/
theorem LeftOver.lt_length {stream before : List UInt8} {v : List Char} {i : Nat}
    (h : r.LeftOver before v i) (hcut : r.Cuts stream before v) :
    i < (Utf8.decode (stream.take r.maxOutputBytes)).length := by
  obtain ⟨after, rfl⟩ := hcut.occurs
  obtain ⟨rest, -, hdecode⟩ := Utf8.decode_cut before v after hcut.low hcut.high
  rw [hdecode, List.length_append, List.length_append]
  exact Nat.lt_of_lt_of_le h.2 (Nat.le_add_right _ _)

theorem keepsNoPart_iff (h : r.Disjoint) (stream : List UInt8) :
    r.KeepsNoPart stream (stream.take r.maxOutputBytes) ↔ r.Covered stream := by
  have hne : REDACTION_MARKER ≠ [] := by decide
  refine forall_congr' fun before => forall_congr' fun v => forall_congr' fun hcut =>
    forall_congr' fun i => forall_congr' fun hleft => ?_
  exact not_mem_replaceEach_iff hne r.nonempty h (hleft.lt_length hcut)

theorem take_ne_iff (stream : List UInt8) (n : Nat) : n < stream.length ↔ stream.take n ≠ stream := by
  rw [ne_eq, List.take_eq_self_iff, not_le]

/-- A stream is covered when the limit cuts no redact value in it. -/
theorem covered_of_uncut {stream : List UInt8} (h : ∀ before v, ¬ r.Cuts stream before v) :
    r.Covered stream :=
  fun before v hcut => absurd hcut (h before v)

/-- The limit cuts nothing in a stream that it does not shorten. -/
theorem not_cuts_of_le {stream : List UInt8} (h : stream.length ≤ r.maxOutputBytes)
    (before : List UInt8) (v : List Char) : ¬ r.Cuts stream before v := by
  intro hcut
  obtain ⟨after, rfl⟩ := hcut.occurs
  have hhigh := hcut.high
  rw [List.length_append, List.length_append] at h
  omega

/-- Bounded output hides secrets exactly when every part that the limit leaves of a redact
value is covered by occurrences that are replaced. -/
theorem hides_iff_covered (h : r.Disjoint) (out err : List UInt8) :
    r.Hides out err ↔ r.Covered out ∧ r.Covered err := by
  constructor
  · intro hhides
    obtain ⟨outs, houts⟩ := exists_reads out
    obtain ⟨errs, herrs⟩ := exists_reads err
    obtain ⟨hout, herr⟩ := hhides.cut outs errs houts herrs
    rw [drain_init houts] at hout
    rw [drain_init herrs] at herr
    exact ⟨(keepsNoPart_iff h out).mp hout, (keepsNoPart_iff h err).mp herr⟩
  · rintro ⟨hout, herr⟩
    refine ⟨?_, ?_, ?_, ?_⟩
    · intro outs outs' errs errs' houts houts' herrs herrs'
      simp only [output, drain_init houts, drain_init houts', drain_init herrs, drain_init herrs']
    · intro outs errs _ _ v hv
      exact ⟨not_infix_redact h hv _, not_infix_redact h hv _⟩
    · intro outs errs houts herrs
      rw [drain_init houts, drain_init herrs]
      exact ⟨(keepsNoPart_iff h out).mpr hout, (keepsNoPart_iff h err).mpr herr⟩
    · intro outs errs houts herrs
      simp only [output, drain_init houts, drain_init herrs, decide_eq_true_eq]
      exact ⟨take_ne_iff out _, take_ne_iff err _⟩

end SubprocessRunner

namespace Reference

/-- A runner that keeps eight bytes and redacts one value. -/
def hunterRunner : SubprocessRunner where
  maxOutputBytes := 8
  redactValues := ["hunter2".toList]
  bounded := by decide
  nonempty v hv := by
    rw [List.mem_singleton.mp hv]
    decide
  unique := List.nodup_singleton _
  longestFirst := List.pairwise_singleton _ _

/-- The child writes `key=hunter2`. -/
def hunterStream : List UInt8 :=
  Utf8.encode "key=hunter2".toList

/-- The limit cuts the value, and `hunt` stays. -/
theorem not_hides_hunter :
    hunterRunner.Disjoint ∧ (hunterRunner.output [hunterStream] []).stdout = "key=hunt".toList ∧
      ¬ hunterRunner.Hides hunterStream [] := by
  refine ⟨?_, by decide +kernel, fun hhides => ?_⟩
  · intro v hv
    rw [List.mem_singleton.mp hv]
    exact List.forall_iff_forall_mem.mp (by decide)
  · have hreads : Reads [hunterStream] hunterStream :=
      ⟨List.append_nil _, fun c hc => by rw [List.mem_singleton.mp hc]; decide⟩
    have hcuts : hunterRunner.Cuts hunterStream (Utf8.encode "key=".toList) "hunter2".toList :=
      ⟨List.mem_singleton_self _, ⟨[], by decide⟩, by decide, by decide⟩
    have hempty : Reads [] [] := ⟨rfl, fun c hc => absurd hc List.not_mem_nil⟩
    -- the first character of the value stands at position 4
    have hleft : hunterRunner.LeftOver (Utf8.encode "key=".toList) "hunter2".toList 4 := by
      constructor <;> decide +kernel
    refine (hhides.cut [hunterStream] [] hreads hempty).1 _ _ hcuts 4 hleft 'h' ?_
    decide +kernel

/-- The runner also redacts the beginning of the value. -/
def huntRunner : SubprocessRunner where
  maxOutputBytes := 8
  redactValues := ["hunter2".toList, "hunt".toList]
  bounded := by decide
  nonempty := by decide
  unique := by decide
  longestFirst := by decide

/-- The limit cuts the value, and what it leaves of it is redacted as a value of its own. -/
theorem hides_hunter : huntRunner.Cuts hunterStream (Utf8.encode "key=".toList) "hunter2".toList ∧
    huntRunner.Hides hunterStream [] := by
  have hdisjoint : huntRunner.Disjoint := by
    intro v hv
    rcases List.mem_pair.mp hv with rfl | rfl
    · exact List.forall_iff_forall_mem.mp (by decide)
    · exact List.forall_iff_forall_mem.mp (by decide)
  have hcuts : huntRunner.Cuts hunterStream (Utf8.encode "key=".toList) "hunter2".toList :=
    ⟨List.mem_cons_self, ⟨[], by decide⟩, by decide, by decide⟩
  refine ⟨hcuts, (SubprocessRunner.hides_iff_covered hdisjoint _ _).mpr ⟨?_, ?_⟩⟩
  · intro before v hcut i hleft
    -- no other occurrence is cut
    have honly : ∀ k < 8, ∀ v ∈ huntRunner.redactValues,
        Utf8.encode v <+: hunterStream.drop k → 8 < k + (Utf8.encode v).length →
          k = 4 ∧ v = "hunter2".toList := by
      decide +kernel
    obtain ⟨after, hstream⟩ := hcut.occurs
    have hbefore : before = hunterStream.take before.length := by
      rw [hstream, List.append_assoc, List.take_left]
    have hprefix : Utf8.encode v <+: hunterStream.drop before.length := by
      rw [hstream, List.append_assoc, List.drop_left]
      exact List.prefix_append _ _
    obtain ⟨hlength, rfl⟩ := honly before.length hcut.low v hcut.mem hprefix hcut.high
    rw [hlength] at hbefore
    obtain ⟨hlow, hhigh⟩ := hleft
    rw [hbefore] at hlow hhigh
    have htext : Utf8.decode (hunterStream.take 8) = "key=hunt".toList := by decide
    have hcrossed : huntRunner.redactValues.foldl (fun xs word => Replacing.hideAll word xs)
        ("key=hunt".toList.map fun c => (c, false)) =
          "key=".toList.map (fun c => (c, false)) ++ "hunt".toList.map fun c => (c, true) := by
      decide
    have hhunt : ∀ i < 8, 4 ≤ i → Replacing.Hidden huntRunner.redactValues
        (Utf8.decode (hunterStream.take 8)) i := by
      intro i hi hi'
      rw [htext, Replacing.Hidden, hcrossed, List.getElem?_append_right (by exact hi')]
      have hlast : i - 4 < "hunt".toList.length := by
        have hfour : "hunt".toList.length = 4 := rfl
        omega
      refine ⟨"hunt".toList[i - 4], ?_⟩
      show ("hunt".toList.map fun c => (c, true))[i - 4]? = _
      rw [List.getElem?_map, List.getElem?_eq_getElem hlast]
      rfl
    have hstart : (Utf8.decode (hunterStream.take 4)).length = 4 := by decide
    have hrest : (Utf8.whole (huntRunner.maxOutputBytes - (hunterStream.take 4).length)
        "hunter2".toList).length = 4 := by
      decide
    exact hhunt i (by omega) (by omega)
  · exact SubprocessRunner.covered_of_uncut (SubprocessRunner.not_cuts_of_le (Nat.zero_le 8))

end Reference

end Ophelia
