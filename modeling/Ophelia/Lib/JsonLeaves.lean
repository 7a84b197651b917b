import Ophelia.Lib.Json

/-!
# Ophelia.Lib.JsonLeaves

The scalars of a JSON value, each with the way that leads to it. A rewrite that keeps the shape of
a value is known by what it does to the leaves, and what holds of a value wherever it stands is a
statement about leaves.
-/

namespace Json

/-- One step down: to the value of a member, or to an item. -/
inductive WayStep where
  | member (key : String)
  | item
deriving DecidableEq

abbrev Way := List WayStep

/-- Neither a list nor a mapping. -/
def isScalar : Json → Bool
  | .arr _ => false
  | .obj _ => false
  | _ => true

/-- Structural induction with one case for the values that are neither lists nor mappings. -/
@[elab_as_elim]
theorem scalarInduction {P : Json → Prop} (scalar : ∀ j, j.isScalar = true → P j)
    (arr : ∀ xs, (∀ x ∈ xs, P x) → P (.arr xs))
    (obj : ∀ ms, (∀ m ∈ ms, P m.2) → P (.obj ms)) (j : Json) : P j :=
  Json.induction (scalar _ rfl) (fun _ => scalar _ rfl) (fun _ => scalar _ rfl)
    (fun _ => scalar _ rfl) (fun _ => scalar _ rfl) arr obj j

/-- A scalar of a value, and the way to it. -/
inductive Leaf : Json → Way → Json → Prop where
  | here {j : Json} (h : j.isScalar = true) : Leaf j [] j
  | item {xs : List Json} {x : Json} {way : Way} {v : Json} (hmem : x ∈ xs) (h : Leaf x way v) :
      Leaf (.arr xs) (.item :: way) v
  | member {ms : List (String × Json)} {k : String} {x : Json} {way : Way} {v : Json}
      (hmem : (k, x) ∈ ms) (h : Leaf x way v) : Leaf (.obj ms) (.member k :: way) v

@[simp] theorem leaf_arr {xs : List Json} {way : Way} {v : Json} :
    Leaf (.arr xs) way v ↔ ∃ x ∈ xs, ∃ rest, way = .item :: rest ∧ Leaf x rest v := by
  constructor
  · rintro (h | ⟨hmem, h⟩)
    · cases h
    · exact ⟨_, hmem, _, rfl, h⟩
  · rintro ⟨x, hmem, rest, rfl, h⟩
    exact .item hmem h

@[simp] theorem leaf_obj {ms : List (String × Json)} {way : Way} {v : Json} :
    Leaf (.obj ms) way v ↔
      ∃ k x, (k, x) ∈ ms ∧ ∃ rest, way = .member k :: rest ∧ Leaf x rest v := by
  constructor
  · rintro (h | h | ⟨hmem, h⟩)
    · cases h
    · exact ⟨_, _, hmem, _, rfl, h⟩
  · rintro ⟨k, x, hmem, rest, rfl, h⟩
    exact .member hmem h

/-- The leaves of a mapping whose values are rewritten. -/
theorem leaf_obj_map {ms : List (String × Json)} {f : String → Json → Json} {way : Way} {v : Json} :
    Leaf (.obj (ms.map fun (k, x) => (k, f k x))) way v ↔
      ∃ k x rest, (k, x) ∈ ms ∧ way = .member k :: rest ∧ Leaf (f k x) rest v := by
  rw [leaf_obj]
  constructor
  · rintro ⟨k, _, hmem, rest, rfl, h⟩
    obtain ⟨⟨k', x⟩, hx, heq⟩ := List.mem_map.mp hmem
    obtain ⟨rfl, rfl⟩ := Prod.mk.inj heq
    exact ⟨_, x, rest, hx, rfl, h⟩
  · rintro ⟨k, x, rest, hx, rfl, h⟩
    exact ⟨k, _, List.mem_map.mpr ⟨(k, x), hx, rfl⟩, rest, rfl, h⟩

theorem leaf_of_isScalar {j : Json} (hj : j.isScalar = true) {way : Way} {v : Json} :
    Leaf j way v ↔ way = [] ∧ v = j := by
  constructor
  · rintro (h | h | h)
    · exact ⟨rfl, rfl⟩
    · cases hj
    · cases hj
  · rintro ⟨rfl, rfl⟩
    exact .here hj

@[simp] theorem leaf_str {s : String} {way : Way} {v : Json} :
    Leaf (.str s) way v ↔ way = [] ∧ v = .str s := leaf_of_isScalar rfl

@[simp] theorem leaf_bool {b : Bool} {way : Way} {v : Json} :
    Leaf (.bool b) way v ↔ way = [] ∧ v = .bool b := leaf_of_isScalar rfl

@[simp] theorem leaf_null {way : Way} {v : Json} :
    Leaf .null way v ↔ way = [] ∧ v = .null := leaf_of_isScalar rfl

/-- The key that stands next above the end of a way; `key` if no step goes to a member. -/
def enclosing (key : Option String) : Way → Option String
  | [] => key
  | .member k :: way => enclosing (some k) way
  | .item :: way => enclosing key way

/-- A way through the value of a member whose key has a property. -/
def through (p : String → Bool) : Way → Bool
  | [] => false
  | .member k :: way => p k || through p way
  | .item :: way => through p way

/-- A way through a member of a mapping that stands under a key. `held` says whether it starts in
such a mapping. -/
def underKey (key : String) (held : Bool) : Way → Bool
  | [] => false
  | .member k :: way => held || underKey key (k == key) way
  | .item :: way => underKey key false way

/-- A way that ends at a member of a mapping that stands under a key. -/
def rightUnder (key : String) (held : Bool) : Way → Bool
  | [] => false
  | [.member _] => held
  | .member k :: way => rightUnder key (k == key) way
  | .item :: way => rightUnder key false way

end Json
