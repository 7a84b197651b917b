import Mathlib.Data.List.Basic
import Mathlib.Logic.Function.Basic

/-!
# Ophelia.Execution.ServiceProxy

The TCP switch of product releases (`execution/service_proxy.py`): one loop relays both directions
of a connection over sockets that do not block.

What the network does comes as a schedule of turns. In each turn one peer is readable, with so many
bytes, and the other one accepts so much at each send; or nothing happens until the idle timeout.
A peer that is readable with nothing left to read has ended its stream.

The loop returns at the first end of a stream, whatever is still to come in the other direction,
and at the first send that would block. So nothing is lost exactly when neither comes too early
(`lossless_iff`).
-/

namespace Ophelia

namespace ServiceProxy

def BUFFER_BYTES : Nat := 64 * 1024

theorem BUFFER_BYTES_pos : 0 < BUFFER_BYTES := by decide

/-- The two ends of a connection through the switch. -/
inductive Peer where
  | client
  | upstream
deriving DecidableEq

namespace Peer

def other : Peer → Peer
  | client => upstream
  | upstream => client

@[simp] theorem other_other (p : Peer) : p.other.other = p := by cases p <;> rfl

theorem other_ne (p : Peer) : p.other ≠ p := by cases p <;> decide

theorem eq_or_eq_other (p q : Peer) : q = p ∨ q = p.other := by
  cases p <;> cases q <;> decide

end Peer

/-- What the selector reports next. -/
inductive Turn where
  | idle
  /-- `chunk + 1` bytes have arrived, if the stream has so many left; the other socket accepts so
  much at each send, where nothing means that the send would block. -/
  | readable (peer : Peer) (chunk : Nat) (accepts : List Nat)

/-- The handler of a connection: what each peer sends and the handler has not read, what each peer
has received, and whether the handler has returned. -/
structure Relay where
  unread : Peer → List UInt8
  received : Peer → List UInt8
  returned : Bool

/-- `sendall` on a socket that does not block: what is sent, and whether it is all. -/
def sendall : List UInt8 → List Nat → List UInt8 × Bool
  | [], _ => ([], true)
  | _ :: _, [] => ([], false)
  | _ :: _, 0 :: _ => ([], false)
  | b :: data, (k + 1) :: accepts =>
      let (sent, complete) := sendall (data.drop k) accepts
      ((b :: data).take (k + 1) ++ sent, complete)

/-- How much one read takes of what is left. -/
def readSize (left chunk : Nat) : Nat := min left (min BUFFER_BYTES (chunk + 1))

/-- One round of the loop of `handle`. -/
def turn (r : Relay) : Turn → Relay
  | .idle => { r with returned := true }
  | .readable peer chunk accepts =>
      let data := (r.unread peer).take (readSize (r.unread peer).length chunk)
      if data = [] then { r with returned := true }
      else
        let (sent, complete) := sendall data accepts
        { unread := Function.update r.unread peer ((r.unread peer).drop data.length)
          received := Function.update r.received peer.other (r.received peer.other ++ sent)
          returned := !complete }

/-- `handle`, on a schedule of turns. -/
def run (r : Relay) : List Turn → Relay
  | [] => r
  | t :: turns => if r.returned then r else run (turn r t) turns

/-- A connection on which nothing has been relayed. -/
def connected (sent : Peer → List UInt8) : Relay := ⟨sent, fun _ => [], false⟩

/-! ### What is lost -/

/-- Each peer receives what the other one sends, in order: all of it once the handler has returned,
and before that all that has been read. -/
def Lossless (sent : Peer → List UInt8) (r : Relay) : Prop :=
  ∀ p, r.received p.other ++ (if r.returned then [] else r.unread p) = sent p

/-- The socket accepts so many bytes before a send would block. -/
def accepted : Nat → List Nat → Bool
  | 0, _ => true
  | _ + 1, [] => false
  | _ + 1, 0 :: _ => false
  | n + 1, (k + 1) :: accepts => accepted (n - k) accepts

/-- A schedule on which the handler, with so much left to read of each peer, does not return too
early. No send would block, and the first end of a stream or idle timeout comes when everything
has been read. -/
def Patient (left : Peer → Nat) : List Turn → Prop
  | [] => True
  | .idle :: _ => ∀ p, left p = 0
  | .readable peer chunk accepts :: turns =>
      if left peer = 0 then left peer.other = 0
      else
        accepted (readSize (left peer) chunk) accepts = true ∧
          Patient (Function.update left peer (left peer - readSize (left peer) chunk)) turns

theorem readSize_le (left chunk : Nat) : readSize left chunk ≤ left := Nat.min_le_left _ _

theorem readSize_pos {left : Nat} (h : left ≠ 0) (chunk : Nat) : 0 < readSize left chunk := by
  have hbuffer := BUFFER_BYTES_pos
  unfold readSize
  omega

/-- What `sendall` sends is the beginning of its data. -/
theorem sendall_prefix (data : List UInt8) (accepts : List Nat) :
    ∃ rest, (sendall data accepts).1 ++ rest = data ∧
      ((sendall data accepts).2 = true ↔ rest = []) := by
  fun_induction sendall data accepts with
  | case1 => exact ⟨[], rfl, by simp⟩
  | case2 b data => exact ⟨b :: data, rfl, by simp⟩
  | case3 b data => exact ⟨b :: data, rfl, by simp⟩
  | case4 b data k accepts sent complete heq ih =>
      rw [heq] at ih
      obtain ⟨rest, hrest, hcomplete⟩ := ih
      refine ⟨rest, ?_, hcomplete⟩
      rw [List.append_assoc, hrest, List.take_succ_cons, List.cons_append, List.take_append_drop]

theorem sendall_complete (data : List UInt8) (accepts : List Nat) :
    (sendall data accepts).2 = accepted data.length accepts := by
  fun_induction sendall data accepts with
  | case1 => rw [List.length_nil, accepted]
  | case2 => rfl
  | case3 => rfl
  | case4 b data k accepts sent complete heq ih =>
      rw [heq, List.length_drop] at ih
      rw [ih, List.length_cons, accepted]

/-! ### Runs -/

section Runs

variable {sent : Peer → List UInt8} {r : Relay}

/-- What a handler has relayed so far, and what it has left. -/
def Relays (sent : Peer → List UInt8) (r : Relay) : Prop :=
  ∀ p, r.received p.other ++ r.unread p = sent p

theorem run_returned (h : r.returned = true) (turns : List Turn) : run r turns = r := by
  cases turns with
  | nil => rfl
  | cons t turns => exact if_pos h

/-- Where the handler returns, everything must have been read. -/
theorem lossless_stop_iff (hr : Relays sent r) :
    Lossless sent { r with returned := true } ↔ ∀ p, (r.unread p).length = 0 := by
  refine forall_congr' fun p => ?_
  rw [← hr p, List.length_eq_zero_iff]
  simp

/-- A read chunk of which a part is not sent is lost. -/
theorem not_lossless_of_cut (hr : Relays sent r) {p : Peer} {done rest : List UInt8} {n : Nat}
    (hsplit : done ++ rest = (r.unread p).take n) (hrest : rest ≠ []) {unread : Peer → List UInt8} :
    ¬ Lossless sent
      ⟨unread, Function.update r.received p.other (r.received p.other ++ done), true⟩ := by
  intro h
  have hp := h p
  simp only [Function.update_self, if_true, List.append_nil] at hp
  rw [← hr p] at hp
  have hall : done = r.unread p := List.append_cancel_left hp
  have hlength := congrArg List.length hsplit
  rw [List.length_append, hall, List.length_take] at hlength
  have hpos : 0 < rest.length := List.length_pos_iff.mpr hrest
  omega

/-- A chunk that is sent whole goes from the one side to the other. -/
theorem relays_chunk (hr : Relays sent r) (p : Peer) (n : Nat) (returned : Bool) :
    Relays sent
      ⟨Function.update r.unread p ((r.unread p).drop n),
        Function.update r.received p.other (r.received p.other ++ (r.unread p).take n),
        returned⟩ := by
  intro q
  rcases Peer.eq_or_eq_other p q with rfl | rfl
  · simp only [Function.update_self]
    rw [List.append_assoc, List.take_append_drop]
    exact hr q
  · simp only [Peer.other_other, Function.update_of_ne (Peer.other_ne p),
      Function.update_of_ne (Peer.other_ne p).symm]
    have hq := hr p.other
    rwa [Peer.other_other] at hq

/-- **Nothing is lost** from here on exactly if the schedule is patient. -/
theorem lossless_run_iff (hopen : r.returned = false) (hr : Relays sent r) (turns : List Turn) :
    Lossless sent (run r turns) ↔ Patient (fun p => (r.unread p).length) turns := by
  induction turns generalizing r with
  | nil =>
      refine iff_of_true (fun p => ?_) trivial
      rw [run, hopen]
      exact hr p
  | cons t turns ih =>
      rw [run, if_neg (by simp [hopen])]
      cases t with
      | idle =>
          rw [turn, run_returned rfl]
          exact lossless_stop_iff hr
      | readable p chunk accepts =>
          by_cases hempty : (r.unread p).length = 0
          · -- The stream has ended, and with it the handler returns.
            have hdata : (r.unread p).take (readSize (r.unread p).length chunk) = [] := by
              rw [List.length_eq_zero_iff.mp hempty, List.take_nil]
            rw [turn, if_pos hdata, run_returned rfl, lossless_stop_iff hr, Patient, if_pos hempty]
            constructor
            · intro h
              exact h p.other
            · intro h q
              rcases Peer.eq_or_eq_other p q with rfl | rfl
              · exact hempty
              · exact h
          · set n := readSize (r.unread p).length chunk with hn
            have hlength : ((r.unread p).take n).length = n := by
              rw [List.length_take]
              exact Nat.min_eq_left (readSize_le _ _)
            have hdata : (r.unread p).take n ≠ [] := by
              intro h
              rw [h] at hlength
              exact absurd hlength (Nat.ne_of_lt (readSize_pos hempty chunk))
            obtain ⟨rest, hsplit, hcomplete⟩ := sendall_prefix ((r.unread p).take n) accepts
            have haccepted := sendall_complete ((r.unread p).take n) accepts
            rw [hlength] at haccepted
            rw [turn, ← hn, if_neg hdata, Patient, if_neg hempty, ← hn, ← haccepted, hlength]
            generalize sendall ((r.unread p).take n) accepts = outcome at hsplit hcomplete
            obtain ⟨done, all⟩ := outcome
            cases all with
            | false =>
                have hrest : rest ≠ [] := by
                  intro h
                  cases hcomplete.mpr h
                rw [run_returned rfl]
                simp only [Bool.not_false, Bool.false_eq_true, false_and, iff_false]
                exact not_lossless_of_cut hr hsplit hrest
            | true =>
                rw [hcomplete.mp rfl, List.append_nil] at hsplit
                cases hsplit
                have hleft : (fun q => (Function.update r.unread p ((r.unread p).drop n) q).length) =
                    Function.update (fun q => (r.unread q).length) p ((r.unread p).length - n) := by
                  funext q
                  by_cases hq : q = p
                  · rw [hq, Function.update_self, Function.update_self, List.length_drop]
                  · rw [Function.update_of_ne hq, Function.update_of_ne hq]
                refine (ih rfl (relays_chunk hr p n false)).trans ?_
                rw [hleft]
                simp

/-- **Lossless relaying.** On every two streams and every schedule, the switch loses nothing
exactly if the schedule is patient. -/
theorem lossless_iff (sent : Peer → List UInt8) (turns : List Turn) :
    Lossless sent (run (connected sent) turns) ↔ Patient (fun p => (sent p).length) turns :=
  lossless_run_iff rfl (fun _ => rfl) turns

end Runs

/-- The client sends one byte and ends its stream; the answer is lost. -/
def halfClosed : List Turn := [.readable .client 0 [1], .readable .client 0 []]

/-- One byte each way. -/
def oneByteEach : Peer → List UInt8
  | .client => [1]
  | .upstream => [2]

theorem not_lossless_halfClosed : ¬ ∀ (sent : Peer → List UInt8) (turns : List Turn),
    Lossless sent (run (connected sent) turns) := by
  intro h
  exact absurd (h oneByteEach halfClosed .upstream) (by decide)

end ServiceProxy

end Ophelia
