import Mathlib.Data.List.Basic
import Mathlib.Order.MinMax

/-!
# Ophelia.Lib.Feed

An append-only feed and one consumer of it. The items of the feed stand at ascending
positions. The consumer asks for a batch of items behind the position it has acknowledged,
and it acknowledges positions up to the last one it has received; a late or repeated
acknowledgement does not take it back.

The invariant is `Feed.Consumer.Follows`: whenever an item is delivered, every item before it
has been delivered before. It holds along any interleaving of appends, batches and
acknowledgements, and it says all there is to say about skipped and reordered items.
-/

namespace Feed

variable {ε : Type} (position : ε → Nat)

/-- Items at ascending positions. -/
def Ascending (items : List ε) : Prop :=
  items.Pairwise fun a b => position a < position b

/-- The first `limit` items behind a position. -/
def batch (items : List ε) (cursor limit : Nat) : List ε :=
  (items.filter fun e => cursor < position e).take limit

/-- A feed with what one consumer has acknowledged and received, in the order of delivery. -/
structure Consumer (ε : Type) where
  items : List ε
  acknowledged : Nat
  received : List ε

variable {position} {items new : List ε} {cursor limit : Nat} {e r : ε}

theorem mem_of_mem_batch (h : e ∈ batch position items cursor limit) :
    e ∈ items ∧ cursor < position e := by
  have hmem := List.mem_filter.mp (List.mem_of_mem_take h)
  exact ⟨hmem.1, of_decide_eq_true hmem.2⟩

/-- In front of an item of a batch stands everything between the position and the item. -/
theorem mem_front_of_batch (hasc : Ascending position items) {front back : List ε}
    (h : batch position items cursor limit = front ++ r :: back) (he : e ∈ items)
    (hcursor : cursor < position e) (hlt : position e < position r) : e ∈ front := by
  have hall : items.filter (fun e => cursor < position e) =
      front ++ r :: (back ++ (items.filter fun e => cursor < position e).drop limit) := by
    have hsplit := List.take_append_drop limit (items.filter fun e => decide (cursor < position e))
    rw [batch] at h
    rw [h] at hsplit
    simpa using hsplit.symm
  have hmem : e ∈ items.filter fun e => cursor < position e :=
    List.mem_filter.mpr ⟨he, decide_eq_true hcursor⟩
  have hpair := (List.Pairwise.filter (fun e => cursor < position e) hasc)
  rw [hall] at hmem hpair
  rcases List.mem_append.mp hmem with hfront | hrest
  · exact hfront
  · -- behind `r` the positions are larger
    exfalso
    have hafter := (List.pairwise_append.mp hpair).2.1
    rcases List.mem_cons.mp hrest with rfl | hback
    · exact lt_irrefl _ hlt
    · exact absurd (List.rel_of_pairwise_cons hafter hback) (not_lt.mpr hlt.le)

namespace Consumer

variable {c : Consumer ε}

/-- **Nothing is skipped.** What is delivered stands in the feed, everything in front of a
delivered item was delivered earlier, and everything acknowledged has been delivered. -/
structure Follows (position : ε → Nat) (c : Consumer ε) : Prop where
  ascending : Ascending position c.items
  received : ∀ r ∈ c.received, r ∈ c.items
  inOrder : ∀ front r back, c.received = front ++ r :: back →
    ∀ e ∈ c.items, position e < position r → e ∈ front
  acknowledged : ∀ e ∈ c.items, position e ≤ c.acknowledged → e ∈ c.received

/-- What the consumer has not gone past. -/
theorem Follows.mem_received (h : Follows position c) (hr : r ∈ c.received) (he : e ∈ c.items)
    (hle : position e ≤ position r) : e ∈ c.received := by
  obtain ⟨front, back, hsplit⟩ := List.append_of_mem hr
  rcases lt_or_eq_of_le hle with hlt | heq
  · rw [hsplit]
    exact List.mem_append_left _ (h.inOrder front r back hsplit e he hlt)
  · -- there is one item at a position
    obtain rfl : e = r := by
      by_contra hne
      have hr' := h.received r hr
      have hpair := List.pairwise_iff_getElem.mp h.ascending
      obtain ⟨i, hi, rfl⟩ := List.getElem_of_mem he
      obtain ⟨k, hk, rfl⟩ := List.getElem_of_mem hr'
      rcases lt_trichotomy i k with hik | rfl | hik
      · exact absurd heq (hpair i k hi hk hik).ne
      · exact hne rfl
      · exact absurd heq (hpair k i hk hi hik).ne'
    exact hr

theorem Follows.empty : Follows position (⟨[], 0, []⟩ : Consumer ε) :=
  ⟨List.Pairwise.nil, by simp, by simp, by simp⟩

/-- New items come behind everything that is there and acknowledged. -/
theorem Follows.append (h : Follows position c)
    (hasc : Ascending position (c.items ++ new))
    (hnew : ∀ e ∈ new, c.acknowledged < position e) :
    Follows position { c with items := c.items ++ new } where
  ascending := hasc
  received r hr := List.mem_append_left _ (h.received r hr)
  inOrder front r back hsplit e he hlt := by
    rcases List.mem_append.mp he with he | he
    · exact h.inOrder front r back hsplit e he hlt
    · have hr : r ∈ c.items := h.received r (by simp [show c.received = _ from hsplit])
      exact absurd ((List.pairwise_append.mp hasc).2.2 r hr e he) (not_lt.mpr hlt.le)
  acknowledged e he hle := by
    rcases List.mem_append.mp he with he | he
    · exact h.acknowledged e he hle
    · exact absurd (hnew e he) (not_lt.mpr hle)

/-- A batch behind the acknowledged position. -/
theorem Follows.poll (h : Follows position c) (limit : Nat) :
    Follows position
      { c with received := c.received ++ batch position c.items c.acknowledged limit } where
  ascending := h.ascending
  received r hr := by
    rcases List.mem_append.mp hr with hr | hr
    · exact h.received r hr
    · exact (mem_of_mem_batch hr).1
  inOrder front r back hsplit e he hlt := by
    rcases List.append_eq_append_iff.mp hsplit with ⟨rest, rfl, hbatch⟩ | ⟨rest, hold, hbatch⟩
    · -- the item comes with the new batch
      by_cases hack : position e ≤ c.acknowledged
      · exact List.mem_append_left _ (h.acknowledged e he hack)
      · exact List.mem_append_right _
          (mem_front_of_batch h.ascending hbatch he (not_le.mp hack) hlt)
    · cases rest with
      | nil =>
          rw [List.append_nil] at hold
          rw [List.nil_append] at hbatch
          by_cases hack : position e ≤ c.acknowledged
          · exact hold ▸ h.acknowledged e he hack
          · have hfront : e ∈ ([] : List ε) :=
              mem_front_of_batch h.ascending hbatch.symm he (not_le.mp hack) hlt
            exact absurd hfront List.not_mem_nil
      | cons x rest =>
          obtain ⟨rfl, -⟩ := List.cons.inj hbatch
          exact h.inOrder front _ rest hold e he hlt
  acknowledged e he hle := List.mem_append_left _ (h.acknowledged e he hle)

/-- An acknowledgement of a position that the consumer has got to. -/
theorem Follows.acknowledge (h : Follows position c) (hr : r ∈ c.received)
    (hle : cursor ≤ position r) :
    Follows position { c with acknowledged := max cursor c.acknowledged } where
  ascending := h.ascending
  received := h.received
  inOrder := h.inOrder
  acknowledged e he hack := by
    rcases le_max_iff.mp hack with hack | hack
    · exact h.mem_received hr he (hack.trans hle)
    · exact h.acknowledged e he hack

end Consumer

end Feed
