import Mathlib.Data.List.Basic
import Mathlib.Data.Sum.Basic

/-!
# Ophelia.Lib.Framing

Concatenated records without lengths. A stream is the concatenation of items; an item is a
self-delimiting head, and some heads announce a body of arbitrary symbols that runs up to a
fixed tail. Nothing says where a body ends, so the body of one item can swallow the items
after it, and a body can contain items of its own.

`unique_iff` says exactly which lists can be read back from their stream among all
admissible lists: those whose items before the last have no body and whose last body does
not end in further items.
-/

namespace Framing

/-- A record of a stream: closed by its head alone, or with a body. -/
inductive Item (C R β : Type) where
  | closed (head : C)
  | raw (head : R) (body : List β)
deriving DecidableEq, Repr

variable {C R β : Type}

/-- A field is read up to its terminator. -/
theorem eq_of_terminated {z : β} {a b s t : List β} (ha : z ∉ a) (hb : z ∉ b)
    (h : a ++ z :: s = b ++ z :: t) : a = b ∧ s = t := by
  induction a generalizing b with
  | nil =>
      cases b with
      | nil => exact ⟨rfl, (List.cons.inj h).2⟩
      | cons y b => exact absurd (List.cons.inj h).1 (fun hz => hb (by simp [hz]))
  | cons x a ih =>
      cases b with
      | nil => exact absurd (List.cons.inj h).1.symm (fun hz => ha (by simp [hz]))
      | cons y b =>
          obtain ⟨hxy, hrest⟩ := List.cons.inj h
          obtain ⟨hab, hst⟩ := ih (fun hz => ha (List.mem_cons_of_mem _ hz))
            (fun hz => hb (List.mem_cons_of_mem _ hz)) hrest
          exact ⟨by rw [hxy, hab], hst⟩

/-- What announces an item. -/
def Item.kind : Item C R β → C ⊕ R
  | .closed c => .inl c
  | .raw r _ => .inr r

section Stream

variable (head : C ⊕ R → List β) (tail : List β)

/-- The symbols of one item. -/
def Item.frame : Item C R β → List β
  | .closed c => head (.inl c)
  | .raw r body => head (.inr r) ++ (body ++ tail)

/-- The symbols of a list of items. -/
def stream (items : List (Item C R β)) : List β :=
  items.flatMap (Item.frame head tail)

@[simp] theorem stream_nil : stream head tail ([] : List (Item C R β)) = [] := rfl

@[simp] theorem stream_cons (item : Item C R β) (items : List (Item C R β)) :
    stream head tail (item :: items) = item.frame head tail ++ stream head tail items := rfl

@[simp] theorem stream_append (xs ys : List (Item C R β)) :
    stream head tail (xs ++ ys) = stream head tail xs ++ stream head tail ys :=
  List.flatMap_append

variable (admissible : List (C ⊕ R) → Prop)

/-- What makes admissible lists readable: they are cut off anywhere, their heads are not
empty and none is the beginning of another one, and an item without a body ends like a body
does. -/
structure Readable : Prop where
  cut : ∀ xs ys, admissible (xs ++ ys) → admissible xs
  head_ne_nil : ∀ xs, admissible xs → ∀ x ∈ xs, head x ≠ []
  head_inj : ∀ xs ys, admissible xs → admissible ys → ∀ x ∈ xs, ∀ y ∈ ys, ∀ s t,
    head x ++ s = head y ++ t → x = y ∧ s = t
  tail_closed : ∀ xs, admissible xs → ∀ c, .inl c ∈ xs → tail <:+ head (.inl c)

/-- An item of the list has a body, and other items follow it or could be read out of it. -/
def Exposed (items : List (Item C R β)) : Prop :=
  ∃ before r body rest, items = before ++ .raw r body :: rest ∧
    (rest ≠ [] ∨ ∃ body' item more,
      admissible ((before ++ .raw r body' :: item :: more).map Item.kind) ∧
      body ++ tail = body' ++ tail ++ stream head tail (item :: more))

end Stream

section Unique

variable {head : C ⊕ R → List β} {tail : List β} {admissible : List (C ⊕ R) → Prop}

/-- The items of a stream end in the tail. -/
theorem tail_suffix_stream {items : List (Item C R β)}
    (htail : ∀ c, .closed c ∈ items → tail <:+ head (.inl c)) (hne : items ≠ []) :
    tail <:+ stream head tail items := by
  induction items with
  | nil => exact absurd rfl hne
  | cons item items ih =>
      rw [stream_cons]
      by_cases hlast : items = []
      · rw [hlast, stream_nil, List.append_nil]
        cases item with
        | closed c => exact htail c (by simp)
        | raw r body =>
            rw [Item.frame, ← List.append_assoc]
            exact List.suffix_append _ _
      · have hrest := ih (fun c hc => htail c (List.mem_cons_of_mem _ hc)) hlast
        exact hrest.trans (List.suffix_append _ _)

theorem frame_eq_head_append (head : C ⊕ R → List β) (tail : List β) (item : Item C R β) :
    ∃ rest, item.frame head tail = head item.kind ++ rest := by
  cases item with
  | closed c => exact ⟨[], (List.append_nil _).symm⟩
  | raw r body => exact ⟨body ++ tail, rfl⟩

theorem stream_eq_nil {items : List (Item C R β)} (hhead : ∀ item ∈ items, head item.kind ≠ [])
    (h : stream head tail items = []) : items = [] := by
  cases items with
  | nil => rfl
  | cons item items =>
      obtain ⟨rest, hrest⟩ := frame_eq_head_append head tail item
      rw [stream_cons, hrest, List.append_assoc, List.append_eq_nil_iff] at h
      exact absurd h.1 (hhead item (by simp))

/-- The body of an item swallows what follows it. -/
theorem swallow (before : List (Item C R β)) {rest : List (Item C R β)} (r : R) (body : List β)
    (htail : ∀ c, .closed c ∈ rest → tail <:+ head (.inl c)) (hne : rest ≠ []) :
    ∃ body', stream head tail (before ++ [.raw r body']) =
      stream head tail (before ++ .raw r body :: rest) := by
  obtain ⟨init, hinit⟩ := tail_suffix_stream htail hne
  refine ⟨body ++ tail ++ init, ?_⟩
  simp [Item.frame, ← hinit, List.append_assoc]

/-- Reading in step: two lists with the same stream and the same beginning agree, unless an
item of the first one is exposed. -/
theorem eq_of_stream_eq (hread : Readable head tail admissible) (before : List (Item C R β))
    {xs ys : List (Item C R β)} (hadmx : admissible ((before ++ xs).map Item.kind))
    (hadmy : admissible ((before ++ ys).map Item.kind))
    (hxs : ¬ Exposed head tail admissible (before ++ xs))
    (h : stream head tail ys = stream head tail xs) : ys = xs := by
  induction xs generalizing before ys with
  | nil =>
      refine stream_eq_nil (fun y hy => ?_) h
      exact hread.head_ne_nil _ hadmy _ (List.mem_map_of_mem (List.mem_append_right _ hy))
  | cons x xs ih =>
      have hxmem : x.kind ∈ (before ++ x :: xs).map Item.kind :=
        List.mem_map_of_mem (List.mem_append_right _ (by simp))
      obtain ⟨xrest, hxrest⟩ := frame_eq_head_append head tail x
      cases ys with
      | nil =>
          rw [stream_nil, stream_cons, hxrest, List.append_assoc] at h
          have hnil := (List.append_eq_nil_iff.mp h.symm).1
          exact absurd hnil (hread.head_ne_nil _ hadmx _ hxmem)
      | cons y ys =>
          have hymem : y.kind ∈ (before ++ y :: ys).map Item.kind :=
            List.mem_map_of_mem (List.mem_append_right _ (by simp))
          obtain ⟨yrest, hyrest⟩ := frame_eq_head_append head tail y
          have hkind : y.kind = x.kind := by
            rw [stream_cons, stream_cons, hyrest, hxrest, List.append_assoc,
              List.append_assoc] at h
            exact (hread.head_inj _ _ hadmy hadmx _ hymem _ hxmem _ _ h).1
          cases x with
          | closed c =>
              cases y with
              | raw r body => exact absurd hkind (by simp [Item.kind])
              | closed c' =>
                  obtain rfl : c' = c := Sum.inl.inj hkind
                  rw [stream_cons, stream_cons] at h
                  have hrest := List.append_cancel_left h
                  rw [ih (before ++ [.closed c']) (by simpa using hadmx) (by simpa using hadmy)
                    (by simpa using hxs) hrest]
          | raw r body =>
              cases y with
              | closed c => exact absurd hkind (by simp [Item.kind])
              | raw r' body' =>
                  obtain rfl : r' = r := Sum.inr.inj hkind
                  -- nothing follows the body, so it is the rest of the stream
                  have hlast : xs = [] := by
                    by_contra hne
                    exact hxs ⟨before, r', body, xs, rfl, .inl hne⟩
                  subst hlast
                  rw [stream_cons, stream_cons, stream_nil, List.append_nil, Item.frame,
                    Item.frame, List.append_assoc] at h
                  have hbody := List.append_cancel_left h
                  cases ys with
                  | nil =>
                      rw [stream_nil, List.append_nil] at hbody
                      rw [List.append_cancel_right hbody]
                  | cons item more =>
                      exact absurd ⟨before, r', body, [], rfl,
                        .inr ⟨body', item, more, hadmy, hbody.symm⟩⟩ hxs

/-- **Unique reading.** A list can be told from every other admissible one by its stream
exactly when none of its items is exposed. -/
theorem unique_iff (hread : Readable head tail admissible) {items : List (Item C R β)}
    (hadm : admissible (items.map Item.kind)) :
    (∀ items' : List (Item C R β), admissible (items'.map Item.kind) →
        stream head tail items' = stream head tail items → items' = items) ↔
      ¬ Exposed head tail admissible items := by
  constructor
  · rintro hunique ⟨before, r, body, rest, rfl, hwhy⟩
    by_cases hrest : rest = []
    · -- nothing follows, so the items are read out of the body
      subst hrest
      rcases hwhy with hne | ⟨body', item, more, hmore, hbody⟩
      · exact hne rfl
      · have hstream : stream head tail (before ++ .raw r body' :: item :: more) =
            stream head tail (before ++ [.raw r body]) := by
          rw [stream_append, stream_append, stream_cons, stream_cons head tail (.raw r body),
            Item.frame, Item.frame, hbody, stream_nil, List.append_nil, List.append_assoc]
        have hsame := List.append_cancel_left (hunique _ hmore hstream)
        exact absurd hsame (by simp)
    · have htail : ∀ c, .closed c ∈ rest → tail <:+ head (.inl c) := by
        intro c hc
        refine hread.tail_closed _ hadm c ?_
        exact List.mem_map.mpr ⟨.closed c, by simp [hc], rfl⟩
      obtain ⟨body', hbody⟩ := swallow before r body htail hrest
      have hadm' := hread.cut ((before ++ [Item.raw r body']).map Item.kind)
        (rest.map Item.kind) (by simpa [Item.kind] using hadm)
      have hsame := List.append_cancel_left (hunique _ hadm' hbody)
      exact hrest (List.cons.inj hsame).2.symm
  · intro hexposed items' hadm' h
    exact eq_of_stream_eq hread [] hadm hadm' hexposed h

end Unique

end Framing
