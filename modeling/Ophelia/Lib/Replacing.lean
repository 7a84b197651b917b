import Mathlib.Data.List.Infix
import Mathlib.Data.List.Basic

/-!
# Ophelia.Lib.Replacing

Replacing the occurrences of a word in a text, from left to right and none over another, by
a marker that shares no character with any of the words. The text may be a list of anything
that shows a character, so that the same function also runs on characters with their origin.

After the replacement of a word it does not occur, and no other word occurs that did not
occur before (`infix_of_replaceAll`, `not_infix_replaceAll`). Which characters are gone after
several words are replaced is said without the marker, by `hideAll`: the same walk over a
text in which the replaced characters stay and are only crossed out.
-/

namespace Replacing

variable {α β : Type} [DecidableEq β]

/-- The walk over a text, with a number of elements of a match still to skip. -/
def replaceFrom (char : α → β) (old : List β) (new : List α) : Nat → List α → List α
  | _, [] => []
  | skip + 1, _ :: xs => replaceFrom char old new skip xs
  | 0, x :: xs =>
      if old.isPrefixOf ((x :: xs).map char) = true then
        new ++ replaceFrom char old new (old.length - 1) xs
      else x :: replaceFrom char old new 0 xs

/-- `str.replace`, for a word that is not empty. -/
def replaceAll (char : α → β) (old : List β) (new xs : List α) : List α :=
  replaceFrom char old new 0 xs

/-- The walk that crosses out; an element crossed out is part of no match. -/
def hideFrom (old : List β) : Nat → List (β × Bool) → List (β × Bool)
  | _, [] => []
  | skip + 1, x :: xs => (x.1, true) :: hideFrom old skip xs
  | 0, x :: xs =>
      if (old.map fun c => (c, false)).isPrefixOf (x :: xs) = true then
        (x.1, true) :: hideFrom old (old.length - 1) xs
      else x :: hideFrom old 0 xs

/-- Cross out the occurrences of a word. -/
def hideAll (old : List β) (xs : List (β × Bool)) : List (β × Bool) :=
  hideFrom old 0 xs

/-- The character at a position is crossed out when the words are replaced one by one. -/
def Hidden (words : List (List β)) (text : List β) (i : Nat) : Prop :=
  ∃ c, (words.foldl (fun xs word => hideAll word xs) (text.map fun c => (c, false)))[i]? =
    some (c, true)

/-! ### Steps -/

theorem replaceFrom_eq_drop (char : α → β) (old : List β) (new : List α) (skip : Nat)
    (xs : List α) : replaceFrom char old new skip xs = replaceAll char old new (xs.drop skip) := by
  induction skip generalizing xs with
  | zero => rfl
  | succ skip ih =>
      cases xs with
      | nil => rfl
      | cons x xs =>
          rw [replaceFrom, ih]
          rfl

@[simp] theorem replaceAll_nil (char : α → β) (old : List β) (new : List α) :
    replaceAll char old new [] = [] := rfl

theorem replaceAll_of_match {char : α → β} {old : List β} {xs : List α} (hold : old ≠ [])
    (h : old <+: xs.map char) (new : List α) :
    replaceAll char old new xs = new ++ replaceAll char old new (xs.drop old.length) := by
  cases xs with
  | nil => exact absurd (List.prefix_nil.mp h) hold
  | cons x xs =>
      rw [replaceAll, replaceFrom, if_pos (List.isPrefixOf_iff_prefix.mpr h), replaceFrom_eq_drop]
      obtain ⟨c, cs, rfl⟩ := List.exists_cons_of_ne_nil hold
      rfl

theorem replaceAll_of_not_match {char : α → β} {old : List β} {x : α} {xs : List α}
    (h : ¬ old <+: (x :: xs).map char) (new : List α) :
    replaceAll char old new (x :: xs) = x :: replaceAll char old new xs := by
  rw [replaceAll, replaceFrom, if_neg fun hmatch => h (List.isPrefixOf_iff_prefix.mp hmatch)]
  rfl

/-- Induction along the walk: a match is passed over as a whole. -/
@[elab_as_elim]
theorem replaceInduction (char : α → β) {old : List β} (hold : old ≠ []) {motive : List α → Prop}
    (nil : motive []) (hit : ∀ xs, old <+: xs.map char → motive (xs.drop old.length) → motive xs)
    (miss : ∀ x xs, ¬ old <+: (x :: xs).map char → motive xs → motive (x :: xs)) (xs : List α) :
    motive xs := by
  induction hn : xs.length using Nat.strong_induction_on generalizing xs with
  | _ n ih =>
      cases xs with
      | nil => exact nil
      | cons x xs =>
          rw [List.length_cons] at hn
          by_cases hmatch : old <+: (x :: xs).map char
          · refine hit _ hmatch (ih _ ?_ _ rfl)
            have hpos := List.length_pos_iff.mpr hold
            rw [List.length_drop, List.length_cons]
            omega
          · exact miss x xs hmatch (ih _ (by omega) xs rfl)

theorem hideFrom_eq (old : List β) (skip : Nat) (xs : List (β × Bool)) :
    hideFrom old skip xs =
      ((xs.take skip).map fun x => (x.1, true)) ++ hideAll old (xs.drop skip) := by
  induction skip generalizing xs with
  | zero => rfl
  | succ skip ih =>
      cases xs with
      | nil => rfl
      | cons x xs =>
          rw [hideFrom, ih]
          rfl

theorem hideAll_of_match {old : List β} {xs : List (β × Bool)} (hold : old ≠ [])
    (h : old.map (fun c => (c, false)) <+: xs) :
    hideAll old xs =
      ((xs.take old.length).map fun x => (x.1, true)) ++ hideAll old (xs.drop old.length) := by
  obtain ⟨c, cs, rfl⟩ := List.exists_cons_of_ne_nil hold
  cases xs with
  | nil => exact absurd (List.prefix_nil.mp h) (by simp)
  | cons x xs =>
      rw [hideAll, hideFrom, if_pos (List.isPrefixOf_iff_prefix.mpr h), hideFrom_eq]
      rfl

theorem hideAll_of_not_match {old : List β} {x : β × Bool} {xs : List (β × Bool)}
    (h : ¬ old.map (fun c => (c, false)) <+: x :: xs) :
    hideAll old (x :: xs) = x :: hideAll old xs := by
  rw [hideAll, hideFrom, if_neg fun hmatch => h (List.isPrefixOf_iff_prefix.mp hmatch)]
  rfl

/-- The walk does not look beyond the characters. -/
theorem map_replaceAll {γ : Type} {char : α → β} {char' : γ → β} {g : α → γ}
    (hchar : ∀ x, char' (g x) = char x) {old : List β} (hold : old ≠ []) (new xs : List α) :
    (replaceAll char old new xs).map g = replaceAll char' old (new.map g) (xs.map g) := by
  have hmap : ∀ ys : List α, (ys.map g).map char' = ys.map char := by
    intro ys
    rw [List.map_map]
    exact List.map_congr_left fun y _ => hchar y
  induction xs using replaceInduction char hold with
  | nil => rfl
  | hit xs hmatch ih =>
      have hmatch' : old <+: (xs.map g).map char' := by rwa [hmap]
      rw [replaceAll_of_match hold hmatch, List.map_append, ih, replaceAll_of_match hold hmatch',
        List.map_drop]
  | miss x xs hmatch ih =>
      have hmatch' : ¬ old <+: (g x :: xs.map g).map char' := by
        rwa [← List.map_cons, hmap]
      rw [replaceAll_of_not_match hmatch, List.map_cons, List.map_cons,
        replaceAll_of_not_match hmatch', ih]

/-! ### Occurrences -/

section Occurrences

variable {char : α → β} {old word : List β} {new : List α}

omit [DecidableEq β] in
/-- A word that shares no character with the marker does not begin in it. -/
theorem infix_of_infix_append (hnew : ∀ c ∈ word, c ∉ new.map char) (hword : word ≠ [])
    {cs : List β} (h : word <:+: new.map char ++ cs) : word <:+: cs := by
  induction new with
  | nil => exact h
  | cons x new ih =>
      rw [List.map_cons, List.cons_append, List.infix_cons_iff] at h
      rcases h with h | h
      · obtain ⟨c, rest, rfl⟩ := List.exists_cons_of_ne_nil hword
        obtain ⟨rfl, -⟩ := List.cons_prefix_cons.mp h
        exact absurd List.mem_cons_self (hnew _ List.mem_cons_self)
      · exact ih (fun c hc hmem => hnew c hc (List.mem_cons_of_mem _ hmem)) h

/-- What stands at the front of the result stood there before. -/
theorem prefix_of_replaceAll (hold : old ≠ []) (hne : new ≠ [])
    (hnew : ∀ c ∈ word, c ∉ new.map char) {xs : List α}
    (h : word <+: (replaceAll char old new xs).map char) : word <+: xs.map char := by
  induction word generalizing xs with
  | nil => exact List.nil_prefix
  | cons c word ih =>
      cases xs with
      | nil => exact h
      | cons x xs =>
          by_cases hmatch : old <+: (x :: xs).map char
          · -- the result begins with the marker
            rw [replaceAll_of_match hold hmatch] at h
            obtain ⟨y, ys, rfl⟩ := List.exists_cons_of_ne_nil hne
            obtain ⟨rfl, -⟩ := List.cons_prefix_cons.mp h
            exact absurd List.mem_cons_self (hnew _ List.mem_cons_self)
          · rw [replaceAll_of_not_match hmatch] at h
            obtain ⟨rfl, hrest⟩ := List.cons_prefix_cons.mp h
            exact List.cons_prefix_cons.mpr
              ⟨rfl, ih (fun d hd => hnew d (List.mem_cons_of_mem _ hd)) hrest⟩

omit [DecidableEq β] in
theorem infix_of_infix_drop {n : Nat} {xs : List α} (h : word <:+: (xs.drop n).map char) :
    word <:+: xs.map char := by
  rw [List.map_drop] at h
  exact h.trans (List.drop_suffix n _).isInfix

/-- A replacement makes no other word. -/
theorem infix_of_replaceAll (hold : old ≠ []) (hne : new ≠ [])
    (hnew : ∀ c ∈ word, c ∉ new.map char) (hword : word ≠ []) {xs : List α}
    (h : word <:+: (replaceAll char old new xs).map char) : word <:+: xs.map char := by
  induction xs using replaceInduction char hold with
  | nil => exact h
  | hit xs hmatch ih =>
      rw [replaceAll_of_match hold hmatch, List.map_append] at h
      exact infix_of_infix_drop (ih (infix_of_infix_append hnew hword h))
  | miss x xs hmatch ih =>
      have hall := h
      rw [replaceAll_of_not_match hmatch, List.map_cons, List.infix_cons_iff] at h
      rcases h with h | h
      · rw [← List.map_cons, ← replaceAll_of_not_match hmatch] at h
        exact (prefix_of_replaceAll hold hne hnew h).isInfix
      · exact (ih h).trans (List.suffix_cons (char x) (xs.map char)).isInfix

/-- The word that was replaced does not occur. -/
theorem not_infix_replaceAll (hold : old ≠ []) (hne : new ≠ [])
    (hnew : ∀ c ∈ old, c ∉ new.map char) (xs : List α) :
    ¬ old <:+: (replaceAll char old new xs).map char := by
  induction xs using replaceInduction char hold with
  | nil => exact fun h => hold (List.infix_nil.mp h)
  | hit xs hmatch ih =>
      rw [replaceAll_of_match hold hmatch, List.map_append]
      exact fun h => ih (infix_of_infix_append hnew hold h)
  | miss x xs hmatch ih =>
      intro h
      rw [replaceAll_of_not_match hmatch, List.map_cons, List.infix_cons_iff] at h
      rcases h with h | h
      · rw [← List.map_cons, ← replaceAll_of_not_match hmatch] at h
        exact hmatch (prefix_of_replaceAll hold hne hnew h)
      · exact ih h

end Occurrences

/-! ### Where nothing or something is replaced -/

section Pieces

variable {old new : List β}

theorem replaceAll_of_not_infix {xs : List β} (h : ¬ old <:+: xs) :
    replaceAll id old new xs = xs := by
  induction xs with
  | nil => rfl
  | cons x xs ih =>
      have hmatch : ¬ old <+: (x :: xs).map id := by
        rw [List.map_id]
        exact fun hprefix => h hprefix.isInfix
      rw [replaceAll_of_not_match hmatch,
        ih fun hpart => h (hpart.trans (List.suffix_cons x xs).isInfix)]

theorem replaceAll_self (hold : old ≠ []) : replaceAll id old new old = new := by
  have hmatch : old <+: old.map id := by rw [List.map_id]
  rw [replaceAll_of_match hold hmatch, List.drop_length, replaceAll_nil, List.append_nil]

/-- Where the word occurs the marker stands in the result. -/
theorem infix_replaceAll (hold : old ≠ []) {xs : List β} (h : old <:+: xs) :
    new <:+: replaceAll id old new xs := by
  induction xs with
  | nil => exact absurd (List.infix_nil.mp h) hold
  | cons x xs ih =>
      by_cases hmatch : old <+: (x :: xs).map id
      · rw [replaceAll_of_match hold hmatch]
        exact (List.prefix_append _ _).isInfix
      · rw [replaceAll_of_not_match hmatch]
        rw [List.map_id] at hmatch
        have hrest := (List.infix_cons_iff.mp h).resolve_left hmatch
        exact (ih hrest).trans (List.suffix_cons x _).isInfix

/-- The result has the elements of the text and of the marker. -/
theorem mem_of_mem_replaceAll (hold : old ≠ []) {c : β} {xs : List β}
    (h : c ∈ replaceAll id old new xs) : c ∈ xs ∨ c ∈ new := by
  induction xs using replaceInduction id hold with
  | nil => exact absurd h List.not_mem_nil
  | hit xs hmatch ih =>
      rw [replaceAll_of_match hold hmatch] at h
      rcases List.mem_append.mp h with h | h
      · exact Or.inr h
      · exact (ih h).imp_left List.mem_of_mem_drop
  | miss x xs hmatch ih =>
      rw [replaceAll_of_not_match hmatch] at h
      rcases List.mem_cons.mp h with rfl | h
      · exact Or.inl List.mem_cons_self
      · exact (ih h).imp_left (List.mem_cons_of_mem x)

omit [DecidableEq β] in
/-- A word does not begin in front of its first element. -/
theorem infix_of_front {a : β} {word front cs : List β} (ha : a ∉ front)
    (h : a :: word <:+: front ++ cs) : a :: word <:+: cs := by
  induction front with
  | nil => exact h
  | cons x front ih =>
      rcases List.infix_cons_iff.mp h with hprefix | hpart
      · exact absurd (List.cons_prefix_cons.mp hprefix).1 fun heq => ha (heq ▸ List.mem_cons_self)
      · exact ih (fun hmem => ha (List.mem_cons_of_mem x hmem)) hpart

omit [DecidableEq β] in
/-- A word does not end behind its elements. -/
theorem infix_of_back {word cs : List β} {d : β} (hword : word ≠ []) (hd : d ∉ word)
    (h : word <:+: cs ++ [d]) : word <:+: cs := by
  rcases List.infix_concat_iff.mp h with hsuffix | hpart
  · rcases List.suffix_concat_iff.mp hsuffix with hnil | ⟨t, rfl, -⟩
    · exact absurd hnil hword
    · exact absurd (List.mem_append_right t (List.mem_singleton_self d)) hd
  · exact hpart

section Escaping

omit [DecidableEq β]

variable {esc : β → List β} {word : List β}

/-- An escape that leaves the elements of a word alone, and whose other results share none with
it, keeps where the word begins. -/
theorem prefix_of_flatMap (hne : ∀ c, esc c ≠ [])
    (hesc : ∀ c, esc c = [c] ∨ ∀ d ∈ esc c, d ∉ word) {cs : List β}
    (h : word <+: cs.flatMap esc) : word <+: cs := by
  induction word generalizing cs with
  | nil => exact List.nil_prefix
  | cons w word ih =>
      cases cs with
      | nil => exact absurd (List.prefix_nil.mp h) (List.cons_ne_nil w word)
      | cons c cs =>
          rw [List.flatMap_cons] at h
          rcases hesc c with hself | hother
          · rw [hself, List.singleton_append] at h
            obtain ⟨rfl, htail⟩ := List.cons_prefix_cons.mp h
            refine List.cons_prefix_cons.mpr ⟨rfl, ih (fun c' => ?_) htail⟩
            exact (hesc c').imp_right fun hc d hd hmem => hc d hd (List.mem_cons_of_mem w hmem)
          · obtain ⟨d, ds, hds⟩ := List.exists_cons_of_ne_nil (hne c)
            rw [hds, List.cons_append] at h
            have hd : d ∈ esc c := hds ▸ List.mem_cons_self
            exact absurd ((List.cons_prefix_cons.mp h).1 ▸ List.mem_cons_self) (hother d hd)

theorem infix_flatMap_iff (hword : word ≠ []) (hne : ∀ c, esc c ≠ [])
    (hself : ∀ c ∈ word, esc c = [c]) (hesc : ∀ c, esc c = [c] ∨ ∀ d ∈ esc c, d ∉ word)
    {cs : List β} : word <:+: cs.flatMap esc ↔ word <:+: cs := by
  constructor
  · intro h
    induction cs with
    | nil => exact absurd (List.infix_nil.mp h) hword
    | cons c cs ih =>
        have hfull : word <+: (c :: cs).flatMap esc → word <:+: c :: cs := fun hprefix =>
          (prefix_of_flatMap hne hesc hprefix).isInfix
        have htail : word <:+: cs → word <:+: c :: cs := fun hpart =>
          hpart.trans (List.suffix_cons c cs).isInfix
        rw [List.flatMap_cons] at h hfull
        rcases hesc c with hc | hc
        · rw [hc, List.singleton_append] at h hfull
          rcases List.infix_cons_iff.mp h with hprefix | hpart
          · exact hfull hprefix
          · exact htail (ih hpart)
        · obtain ⟨w, ws, rfl⟩ := List.exists_cons_of_ne_nil hword
          exact htail (ih (infix_of_front (fun hmem => hc w hmem List.mem_cons_self) h))
  · rintro ⟨front, back, rfl⟩
    have hmap : word.flatMap esc = word := by
      have hcongr := List.flatMap_congr (g := fun c => [c]) hself
      rw [hcongr, List.flatMap_singleton']
    rw [List.flatMap_append, List.flatMap_append, hmap]
    exact ⟨_, _, rfl⟩

end Escaping

omit [DecidableEq β] in
/-- A match does not reach a separator that is not in the word. -/
theorem prefix_append_cons_iff {sep : β} (hsep : sep ∉ old) (xs ys : List β) :
    old <+: (xs ++ sep :: ys).map id ↔ old <+: xs.map id := by
  rw [List.map_id, List.map_id]
  refine ⟨fun hprefix => ?_, fun hprefix => hprefix.trans (List.prefix_append _ _)⟩
  rcases List.prefix_or_prefix_of_prefix hprefix (List.prefix_append xs (sep :: ys)) with hle | hle
  · exact hle
  · obtain ⟨rest, rfl⟩ := hle
    cases rest with
    | nil => rw [List.append_nil]
    | cons c rest =>
        rw [List.prefix_append_right_inj] at hprefix
        obtain ⟨rfl, -⟩ := List.cons_prefix_cons.mp hprefix
        exact absurd (List.mem_append_right _ List.mem_cons_self) hsep

/-- A separator that is not in the word keeps the pieces apart. -/
theorem replaceAll_append_cons (hold : old ≠ []) {sep : β} (hsep : sep ∉ old) (xs ys : List β) :
    replaceAll id old new (xs ++ sep :: ys) =
      replaceAll id old new xs ++ sep :: replaceAll id old new ys := by
  induction xs using replaceInduction id hold with
  | nil =>
      have hmatch : ¬ old <+: ([] ++ sep :: ys).map id := fun h =>
        hold (List.prefix_nil.mp ((prefix_append_cons_iff hsep [] ys).mp h))
      exact replaceAll_of_not_match hmatch new
  | hit xs hmatch ih =>
      have hle : old.length ≤ xs.length := by
        have hlength := hmatch.length_le
        rwa [List.length_map] at hlength
      rw [replaceAll_of_match hold ((prefix_append_cons_iff hsep xs ys).mpr hmatch),
        replaceAll_of_match hold hmatch, List.drop_append_of_le_length hle, ih, List.append_assoc]
  | miss x xs hmatch ih =>
      have hmatch' : ¬ old <+: (x :: (xs ++ sep :: ys)).map id := fun h =>
        hmatch ((prefix_append_cons_iff hsep (x :: xs) ys).mp h)
      rw [List.cons_append, replaceAll_of_not_match hmatch', replaceAll_of_not_match hmatch, ih,
        List.cons_append]

end Pieces

/-! ### Origins -/

section Origins

variable {new : List β}

/-- A text with the positions of its characters; what a marker has brought in has none. -/
def withOrigins (text : List β) : List (β × Option Nat) :=
  text.zipIdx.map fun p => (p.1, some p.2)

/-- The text with origins and the one with characters crossed out say the same: characters
that are not crossed out are still there under their positions, in order, and markers stand
for runs of characters crossed out. -/
inductive Shows (new : List β) : Nat → List (β × Option Nat) → List (β × Bool) → Prop
  | nil (i) : Shows new i [] []
  | shown {i c t m} (h : Shows new (i + 1) t m) : Shows new i ((c, some i) :: t) ((c, false) :: m)
  | hidden {i t m} (block : List (β × Bool)) (hne : block ≠ []) (hblock : ∀ x ∈ block, x.2 = true)
      (h : Shows new (i + block.length) t m) :
      Shows new i (new.map (fun c => (c, none)) ++ t) (block ++ m)

omit [DecidableEq β] in
theorem shows_withOrigins (new text : List β) :
    Shows new 0 (withOrigins text) (text.map fun c => (c, false)) := by
  suffices h : ∀ i, Shows new i ((text.zipIdx i).map fun p => (p.1, some p.2))
      (text.map fun c => (c, false)) from h 0
  induction text with
  | nil => exact fun i => .nil i
  | cons c text ih => exact fun i => .shown (ih (i + 1))

variable {word : List β} {i : Nat} {t : List (β × Option Nat)} {m : List (β × Bool)}

omit [DecidableEq β] in
/-- The same words stand at the front, and they are the same characters. -/
theorem Shows.front (hne : new ≠ []) (hnew : ∀ c ∈ word, c ∉ new) (h : Shows new i t m) :
    (word <+: t.map Prod.fst ↔ word.map (fun c => (c, false)) <+: m) ∧
      (word <+: t.map Prod.fst →
        Shows new (i + word.length) (t.drop word.length) (m.drop word.length)) := by
  induction word generalizing i t m with
  | nil => exact ⟨by simp, fun _ => h⟩
  | cons c word ih =>
      have hword : ∀ d ∈ word, d ∉ new := fun d hd => hnew d (List.mem_cons_of_mem _ hd)
      cases h with
      | nil => simp
      | @shown _ d t m h =>
          obtain ⟨hiff, hdrop⟩ := ih hword h
          rw [List.map_cons, List.map_cons, List.cons_prefix_cons, List.cons_prefix_cons, hiff,
            Prod.mk.injEq]
          refine ⟨by simp, fun hfront => ?_⟩
          rw [List.length_cons, List.drop_succ_cons, List.drop_succ_cons,
            Nat.add_comm word.length 1, ← Nat.add_assoc]
          exact hdrop (hiff.mpr hfront.2)
      | @hidden _ t m block hnil hblock h =>
          -- one text begins with the marker, the other with a character crossed out
          obtain ⟨x, new', rfl⟩ := List.exists_cons_of_ne_nil hne
          obtain ⟨y, block', rfl⟩ := List.exists_cons_of_ne_nil hnil
          have hfront : ¬ c :: word <+:
              (((x :: new').map fun c => (c, (none : Option Nat))) ++ t).map Prod.fst := by
            intro hprefix
            obtain ⟨rfl, -⟩ := List.cons_prefix_cons.mp hprefix
            exact hnew _ List.mem_cons_self List.mem_cons_self
          refine ⟨⟨fun hprefix => absurd hprefix hfront, fun hprefix => ?_⟩,
            fun hprefix => absurd hprefix hfront⟩
          rw [List.map_cons, List.cons_append] at hprefix
          obtain ⟨rfl, -⟩ := List.cons_prefix_cons.mp hprefix
          exact absurd (hblock _ List.mem_cons_self) (by simp)

theorem hideAll_hidden (word : List β) (hword : word ≠ []) {block : List (β × Bool)}
    (hblock : ∀ x ∈ block, x.2 = true) (m : List (β × Bool)) :
    hideAll word (block ++ m) = block ++ hideAll word m := by
  induction block with
  | nil => rfl
  | cons y block ih =>
      have hmatch : ¬ word.map (fun c => (c, false)) <+: y :: (block ++ m) := by
        intro hprefix
        obtain ⟨c, cs, rfl⟩ := List.exists_cons_of_ne_nil hword
        rw [List.map_cons] at hprefix
        obtain ⟨rfl, -⟩ := List.cons_prefix_cons.mp hprefix
        exact absurd (hblock _ List.mem_cons_self) (by simp)
      rw [List.cons_append, hideAll_of_not_match hmatch,
        ih fun x hx => hblock x (List.mem_cons_of_mem _ hx)]
      rfl

/-- A marker is passed over. -/
theorem replaceAll_marker (hword : word ≠ []) {front : List β} (hnew : ∀ c ∈ word, c ∉ front)
    (marker : List (β × Option Nat)) (t : List (β × Option Nat)) :
    replaceAll Prod.fst word marker (front.map (fun c => (c, none)) ++ t) =
      front.map (fun c => (c, none)) ++ replaceAll Prod.fst word marker t := by
  induction front with
  | nil => rfl
  | cons x front ih =>
      have hmatch : ¬ word <+:
          ((x, (none : Option Nat)) :: (front.map (fun c => (c, none)) ++ t)).map Prod.fst := by
        intro hprefix
        obtain ⟨c, cs, rfl⟩ := List.exists_cons_of_ne_nil hword
        obtain ⟨rfl, -⟩ := List.cons_prefix_cons.mp hprefix
        exact hnew _ List.mem_cons_self List.mem_cons_self
      rw [List.map_cons, List.cons_append, replaceAll_of_not_match hmatch,
        ih fun c hc hmem => hnew c hc (List.mem_cons_of_mem _ hmem)]
      rfl

/-- Replacing a word and crossing it out say the same. -/
theorem Shows.replaceAll (hne : new ≠ []) (hword : word ≠ []) (hnew : ∀ c ∈ word, c ∉ new)
    (h : Shows new i t m) :
    Shows new i (replaceAll Prod.fst word (new.map fun c => (c, none)) t) (hideAll word m) := by
  induction hn : m.length using Nat.strong_induction_on generalizing i t m with
  | _ n ih =>
      cases h with
      | nil => exact .nil i
      | @shown _ c t m h =>
          have hall : Shows new i ((c, some i) :: t) ((c, false) :: m) := .shown h
          obtain ⟨hiff, hdrop⟩ := hall.front hne hnew
          by_cases hmatch : word <+: ((c, some i) :: t).map Prod.fst
          · have hlength : word.length ≤ ((c, false) :: m).length := by
              have hle := (hiff.mp hmatch).length_le
              rwa [List.length_map] at hle
            have hshort : (((c, false) :: m).drop word.length).length < n := by
              have hpos := List.length_pos_iff.mpr hword
              rw [← hn, List.length_drop, List.length_cons]
              omega
            rw [replaceAll_of_match hword hmatch, hideAll_of_match hword (hiff.mp hmatch)]
            have hblock : ((((c, false) :: m).take word.length).map fun x => (x.1, true)).length =
                word.length := by
              rw [List.length_map, List.length_take, Nat.min_eq_left hlength]
            refine .hidden _ (fun hnil => ?_) (fun x hx => ?_) ?_
            · rw [hnil] at hblock
              exact hword (List.length_eq_zero_iff.mp hblock.symm)
            · obtain ⟨y, -, rfl⟩ := List.mem_map.mp hx
              rfl
            · rw [hblock]
              exact ih _ hshort (hdrop hmatch) rfl
          · rw [replaceAll_of_not_match hmatch,
              hideAll_of_not_match fun hprefix => hmatch (hiff.mpr hprefix)]
            exact .shown (ih m.length (by rw [← hn]; exact Nat.lt_succ_self _) h rfl)
      | @hidden _ t m block hnil hblock h =>
          rw [replaceAll_marker hword hnew, hideAll_hidden word hword hblock]
          refine .hidden block hnil hblock (ih m.length ?_ h rfl)
          have hpos := List.length_pos_iff.mpr hnil
          rw [← hn, List.length_append]
          omega

omit [DecidableEq β] in
/-- A position is still there exactly when it is not crossed out. -/
theorem Shows.mem_iff (h : Shows new i t m) (j : Nat) :
    (∃ c, (c, some j) ∈ t) ↔ i ≤ j ∧ ∃ c, m[j - i]? = some (c, false) := by
  induction h with
  | nil i => simp
  | @shown i c t m h ih =>
      constructor
      · rintro ⟨d, hd⟩
        rcases List.mem_cons.mp hd with heq | hd
        · obtain ⟨rfl, hj⟩ := Prod.mk.inj heq
          obtain rfl := Option.some.inj hj
          exact ⟨Nat.le_refl _, d, by simp⟩
        · obtain ⟨hle, e, he⟩ := ih.mp ⟨d, hd⟩
          refine ⟨by omega, e, ?_⟩
          rw [show j - i = j - (i + 1) + 1 by omega, List.getElem?_cons_succ, he]
      · rintro ⟨hle, d, hd⟩
        rcases Nat.eq_or_lt_of_le hle with rfl | hlt
        · exact ⟨c, List.mem_cons_self⟩
        · rw [show j - i = j - (i + 1) + 1 by omega, List.getElem?_cons_succ] at hd
          obtain ⟨e, he⟩ := ih.mpr ⟨hlt, d, hd⟩
          exact ⟨e, List.mem_cons_of_mem _ he⟩
  | @hidden i t m block hnil hblock h ih =>
      have hmarker : ∀ d, (d, some j) ∉ new.map fun c => (c, (none : Option Nat)) := by
        intro d hd
        obtain ⟨c, -, heq⟩ := List.mem_map.mp hd
        exact absurd (Prod.mk.inj heq).2 (by simp)
      constructor
      · rintro ⟨d, hd⟩
        obtain ⟨hle, e, he⟩ := ih.mp ⟨d, (List.mem_append.mp hd).resolve_left (hmarker d)⟩
        refine ⟨by omega, e, ?_⟩
        rw [List.getElem?_append_right (by omega), show j - i - block.length = j - (i + block.length) by omega, he]
      · rintro ⟨hle, d, hd⟩
        have hright : block.length ≤ j - i := by
          by_contra hlt
          rw [List.getElem?_append_left (by omega)] at hd
          exact absurd (hblock _ (List.mem_of_getElem? hd)) (by simp)
        rw [List.getElem?_append_right hright, show j - i - block.length = j - (i + block.length) by omega] at hd
        obtain ⟨e, he⟩ := ih.mpr ⟨by omega, d, hd⟩
        exact ⟨e, List.mem_append_right _ he⟩

/-- Any number of words. -/
theorem Shows.replaceEach (hne : new ≠ []) {words : List (List β)} (hwords : ∀ w ∈ words, w ≠ [])
    (hnew : ∀ w ∈ words, ∀ c ∈ w, c ∉ new) (h : Shows new i t m) :
    Shows new i
      (words.foldl (fun xs w => Replacing.replaceAll Prod.fst w (new.map fun c => (c, none)) xs) t)
      (words.foldl (fun xs w => hideAll w xs) m) := by
  induction words generalizing t m with
  | nil => exact h
  | cons w words ih =>
      exact ih (fun v hv => hwords v (List.mem_cons_of_mem _ hv))
        (fun v hv => hnew v (List.mem_cons_of_mem _ hv))
        (h.replaceAll hne (hwords w List.mem_cons_self) (hnew w List.mem_cons_self))

theorem length_hideFrom (word : List β) (skip : Nat) (m : List (β × Bool)) :
    (hideFrom word skip m).length = m.length := by
  induction m generalizing skip with
  | nil => cases skip <;> rfl
  | cons x m ih =>
      cases skip with
      | zero =>
          rw [hideFrom]
          split <;> rw [List.length_cons, List.length_cons, ih]
      | succ skip => rw [hideFrom, List.length_cons, List.length_cons, ih]

theorem length_hideEach (words : List (List β)) (m : List (β × Bool)) :
    (words.foldl (fun xs w => hideAll w xs) m).length = m.length := by
  induction words generalizing m with
  | nil => rfl
  | cons w words ih => rw [List.foldl_cons, ih, hideAll, length_hideFrom]

/-- Nothing of a position is left exactly when it is crossed out. -/
theorem not_mem_replaceEach_iff (hne : new ≠ []) {words : List (List β)}
    (hwords : ∀ w ∈ words, w ≠ []) (hnew : ∀ w ∈ words, ∀ c ∈ w, c ∉ new) {text : List β} {j : Nat}
    (hj : j < text.length) :
    (∀ c, (c, some j) ∉ words.foldl
        (fun xs w => Replacing.replaceAll Prod.fst w (new.map fun c => (c, none)) xs)
        (withOrigins text)) ↔ Hidden words text j := by
  have hshows := (shows_withOrigins new text).replaceEach hne hwords hnew
  have hmem := hshows.mem_iff j
  rw [← not_exists, hmem, Nat.sub_zero, Hidden]
  have hlength : (words.foldl (fun xs w => hideAll w xs)
      (text.map fun c => (c, false))).length = text.length := by
    rw [length_hideEach, List.length_map]
  -- the position holds a character, crossed out or not
  obtain ⟨c, hidden, hget⟩ : ∃ c hidden, (words.foldl (fun xs w => hideAll w xs)
      (text.map fun c => (c, false)))[j]? = some (c, hidden) :=
    ⟨_, _, List.getElem?_eq_getElem (hlength ▸ hj)⟩
  rw [hget]
  cases hidden <;> simp

end Origins

end Replacing
