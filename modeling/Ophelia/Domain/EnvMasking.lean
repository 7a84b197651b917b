import Ophelia.Domain.RedactionSound
import Ophelia.Lib.JsonLeaves

/-!
# Ophelia.Domain.EnvMasking

The masking of environment values that comes before `deep_redact`: the sweep of the state index
(`_redact_payload_env`) and the redaction of manifest locks (`_redact_manifest_lock`). The leaves of
what they return are told by the leaves of what they are given. The sweep looks at the entries of an
`env` mapping as at any others: by the key, and by the shape of the value. A lock has two places
where all entries are masked.
-/

namespace Ophelia

open Json

/-! ### The source -/

/-- A text that looks like a credential. -/
def isSecretText : Json → Bool
  | .str s => looksLikeSecretValue s.toList
  | _ => false

/-- Whether `redact_mapping` masks an entry. -/
def masksEntry (key : String) (value : Json) : Bool :=
  isSensitiveKey key.toList || isSecretText value

mutual

/-- The walk of `_mask_env_in_place`. A mapping that stands under `env` comes in as it is, and its
entries are masked on the way, as `redact_mapping` masks them: a masked entry is a scalar, so the
walk of the source goes past it. -/
def maskEnvNode (underEnv : Bool) : Json → Json
  | .arr items => .arr (maskEnvItems items)
  | .obj members => .obj (maskEnvMembers underEnv members)
  | value => value

def maskEnvItems : List Json → List Json
  | [] => []
  | x :: xs => maskEnvNode false x :: maskEnvItems xs

def maskEnvMembers (underEnv : Bool) : List (String × Json) → List (String × Json)
  | [] => []
  | (k, v) :: members =>
      (k, if underEnv && masksEntry k v then redactValue REDACTED v
        else maskEnvNode (k == "env") v) :: maskEnvMembers underEnv members

end

/-- `_mask_env_in_place`. -/
def maskEnvInPlace (node : Json) : Json := maskEnvNode false node

/-- `_redact_payload_env`. -/
def redactPayloadEnv (payload : Json) : Json := deepRedact (maskEnvInPlace payload)

/-- A member of a lock or of a service: in an `env` mapping every entry is masked. -/
def lockEnvValue (key : String) : Json → Json
  | .obj env =>
      if key = "env" then .obj (env.map fun (name, _) => (name, .str REDACTED)) else .obj env
  | value => value

def maskLockEnv (members : List (String × Json)) : List (String × Json) :=
  members.map fun (key, value) => (key, lockEnvValue key value)

def maskService : Json → Json
  | .obj service => .obj (maskLockEnv service)
  | service => service

/-- A member of a lock: the services are masked one by one. -/
def servicesValue (key : String) : Json → Json
  | .obj services =>
      if key = "services" then .obj (services.map fun (name, service) => (name, maskService service))
      else .obj services
  | value => value

def maskServices (members : List (String × Json)) : List (String × Json) :=
  members.map fun (key, value) => (key, servicesValue key value)

/-- `redacted[key] = value`. -/
def setMember (members : List (String × Json)) (key : String) (value : Json) :
    List (String × Json) :=
  if members.any fun m => m.1 == key then
    members.map fun m => if m.1 == key then (key, value) else m
  else members ++ [(key, value)]

/-- What `_redact_manifest_lock` masks before the flag is set. -/
def maskedLock (payload : List (String × Json)) : List (String × Json) :=
  redactMembers REDACTED false (maskServices (maskLockEnv payload))

/-- `_redact_manifest_lock`. -/
def redactManifestLock (payload : List (String × Json)) : List (String × Json) :=
  setMember (maskedLock payload) "secret_values_redacted" (.bool true)

/-! ### The walk, as the source has it -/

theorem maskEnvItems_eq (xs : List Json) : maskEnvItems xs = xs.map (maskEnvNode false) := by
  induction xs with
  | nil => rfl
  | cons x xs ih => rw [maskEnvItems, ih, List.map_cons]

theorem maskEnvMembers_eq (b : Bool) (ms : List (String × Json)) :
    maskEnvMembers b ms = ms.map fun m =>
      (m.1, if b && masksEntry m.1 m.2 then redactValue REDACTED m.2
        else maskEnvNode (m.1 == "env") m.2) := by
  induction ms with
  | nil => rfl
  | cons m ms ih => rw [maskEnvMembers, ih, List.map_cons]

theorem maskEnvNode_of_isScalar {j : Json} (h : j.isScalar = true) (b : Bool) :
    maskEnvNode b j = j := by
  cases j with
  | arr => cases h
  | obj => cases h
  | _ => rfl

/-! ### What is hidden -/

/-- A scalar that tells nothing: none, the empty text, or the mask, plain or quoted for a shell. -/
def Hidden (v : Json) : Prop :=
  v = .null ∨ v = .str "" ∨ v = .str REDACTED ∨ v = .str "'<redacted>'"

instance (v : Json) : Decidable (Hidden v) := inferInstanceAs (Decidable (_ ∨ _ ∨ _ ∨ _))

/-- A way through a sensitive key. -/
def sensitive (way : Way) : Bool := through (fun k => isSensitiveKey k.toList) way

theorem hidden_redactValue (v : Json) : Hidden (redactValue REDACTED v) := by
  rcases redactValue_cases v with h | h | h <;> rw [h]
  · exact .inl rfl
  · exact .inr (.inl rfl)
  · exact .inr (.inr (.inl rfl))

theorem redactCommandString_mask : redactCommandString REDACTED REDACTED = "'<redacted>'" := by
  decide +kernel

/-- What is masked stays hidden when it is redacted again. -/
theorem hidden_redactScalar_redactValue (b : Bool) (key : Option String) (v : Json) :
    Hidden (redactScalar REDACTED b key (redactValue REDACTED v)) := by
  cases b with
  | true => exact hidden_redactValue _
  | false =>
      rcases redactValue_cases v with h | h | h <;> rw [h]
      · exact .inl rfl
      · by_cases hkey : key.any looksLikeCommandKey = true
        · rw [redactScalar, if_neg Bool.false_ne_true]
          simp only [hkey, if_true]
          exact .inr (.inl rfl)
        · rw [redactScalar, if_neg Bool.false_ne_true]
          simp only [hkey]
          exact .inr (.inl (by decide +kernel))
      · by_cases hkey : key.any looksLikeCommandKey = true
        · rw [redactScalar, if_neg Bool.false_ne_true]
          simp only [hkey, if_true, redactCommandString_mask]
          exact .inr (.inr (.inr rfl))
        · rw [redactScalar, if_neg Bool.false_ne_true]
          simp only [hkey]
          exact .inr (.inr (.inl (by decide +kernel)))

/-! ### The leaves of what is redacted -/

theorem leaf_walk_of_isScalar {j : Json} (hj : j.isScalar = true) {b : Bool}
    {key : Option String} {way : Way} {w : Json} :
    Leaf (redactWalk REDACTED b key j) way w ↔ ∃ v, Leaf j way v ∧
      w = redactScalar REDACTED (b || sensitive way) (enclosing key way) v := by
  have hflag : (b || sensitive []) = b := Bool.or_false b
  rw [redactWalk_of_isScalar _ _ hj, leaf_of_isScalar (isScalar_redactScalar _ _ hj)]
  constructor
  · rintro ⟨rfl, rfl⟩
    exact ⟨j, .here hj, by rw [hflag]; rfl⟩
  · rintro ⟨v, hv, rfl⟩
    obtain ⟨rfl, rfl⟩ := (leaf_of_isScalar hj).mp hv
    exact ⟨rfl, by rw [hflag]; rfl⟩

/-- The walk keeps the ways and rewrites the leaves, each by the keys on its way. -/
theorem leaf_redactWalk {j : Json} {b : Bool} {key : Option String} {way : Way} {w : Json} :
    Leaf (redactWalk REDACTED b key j) way w ↔ ∃ v, Leaf j way v ∧
      w = redactScalar REDACTED (b || sensitive way) (enclosing key way) v := by
  induction j using Json.induction generalizing b key way w with
  | arr xs ih =>
      rw [redactWalk, redactItems_eq, leaf_arr]
      constructor
      · rintro ⟨_, hmem, rest, rfl, h⟩
        obtain ⟨x, hx, rfl⟩ := List.mem_map.mp hmem
        obtain ⟨v, hv, rfl⟩ := (ih x hx).mp h
        exact ⟨v, .item hx hv, rfl⟩
      · rintro ⟨v, hv, rfl⟩
        obtain ⟨x, hx, rest, rfl, hleaf⟩ := leaf_arr.mp hv
        exact ⟨_, List.mem_map.mpr ⟨x, hx, rfl⟩, rest, rfl, (ih x hx).mpr ⟨v, hleaf, rfl⟩⟩
  | obj ms ih =>
      rw [redactWalk, redactMembers_eq, leaf_obj]
      -- a key counts for all that is below it
      have hflag (k : String) (rest : Way) :
          (b || sensitive (.member k :: rest)) =
            (isSensitiveKey k.toList || b || sensitive rest) := by
        rw [sensitive, through, ← sensitive, ← Bool.or_assoc, Bool.or_comm b]
      constructor
      · rintro ⟨k, _, hmem, rest, rfl, h⟩
        obtain ⟨⟨k', x⟩, hx, heq⟩ := List.mem_map.mp hmem
        obtain ⟨rfl, rfl⟩ := Prod.mk.inj heq
        obtain ⟨v, hv, rfl⟩ := (ih _ hx).mp h
        exact ⟨v, .member hx hv, by rw [hflag]; rfl⟩
      · rintro ⟨v, hv, rfl⟩
        obtain ⟨k, x, hx, rest, rfl, hleaf⟩ := leaf_obj.mp hv
        refine ⟨k, _, List.mem_map.mpr ⟨(k, x), hx, rfl⟩, rest, rfl, (ih _ hx).mpr ⟨v, hleaf, ?_⟩⟩
        rw [hflag]
        rfl
  | null | bool | int | float | str => exact leaf_walk_of_isScalar rfl

theorem leaf_deepRedact {j : Json} {way : Way} {w : Json} :
    Leaf (deepRedact j) way w ↔
      ∃ v, Leaf j way v ∧ w = redactScalar REDACTED (sensitive way) (enclosing none way) v := by
  rw [deepRedact, leaf_redactWalk]
  simp only [Bool.false_or]

/-- **Nothing below a sensitive key shows** in what is redacted. -/
theorem hidden_of_sensitive {j : Json} {way : Way} {w : Json} (h : Leaf (deepRedact j) way w)
    (hway : sensitive way = true) : Hidden w := by
  obtain ⟨v, -, rfl⟩ := leaf_deepRedact.mp h
  rw [hway]
  exact hidden_redactValue v

/-! ### The leaves of what is masked -/

/-- An entry of an `env` mapping that is masked for the look of its text. -/
def masksText (underEnv : Bool) (way : Way) (v : Json) : Bool :=
  rightUnder "env" underEnv way && isSecretText v

/-- A leaf of what was masked is one of what was given, or a mask. -/
theorem leaf_of_maskEnvNode {j : Json} {b : Bool} {way : Way} {w : Json}
    (h : Leaf (maskEnvNode b j) way w) :
    (∃ v, w = redactValue REDACTED v) ∨ (Leaf j way w ∧ masksText b way w = false) := by
  induction j using Json.induction generalizing b way w with
  | arr xs ih =>
      rw [maskEnvNode, maskEnvItems_eq, leaf_arr] at h
      obtain ⟨_, hmem, rest, rfl, h⟩ := h
      obtain ⟨x, hx, rfl⟩ := List.mem_map.mp hmem
      exact (ih x hx h).imp_right fun ⟨hw, htext⟩ => ⟨.item hx hw, htext⟩
  | obj ms ih =>
      rw [maskEnvNode, maskEnvMembers_eq, leaf_obj] at h
      obtain ⟨k, _, hmem, rest, rfl, h⟩ := h
      obtain ⟨⟨k', x⟩, hx, heq⟩ := List.mem_map.mp hmem
      obtain ⟨rfl, rfl⟩ := Prod.mk.inj heq
      simp only at h
      split at h
      · obtain ⟨rfl, rfl⟩ := (leaf_of_isScalar (isScalar_redactValue x)).mp h
        exact .inl ⟨x, rfl⟩
      · rename_i hkept
        refine (ih _ hx h).imp_right fun ⟨hw, htext⟩ => ⟨.member hx hw, ?_⟩
        cases rest with
        | cons step rest => exact htext
        | nil =>
            -- the entry itself is the text, and it was not masked
            rw [masksText, rightUnder]
            by_contra hmasks
            rw [Bool.not_eq_false, Bool.and_eq_true] at hmasks
            cases hw with
            | here hscalar =>
                rw [maskEnvNode_of_isScalar hscalar] at h
                rw [hmasks.1, masksEntry, hmasks.2, Bool.or_true] at hkept
                exact hkept rfl
  | null | bool | int | float | str =>
      rw [maskEnvNode_of_isScalar rfl] at h
      refine .inr ⟨h, ?_⟩
      obtain ⟨rfl, -⟩ := (leaf_of_isScalar rfl).mp h
      rfl

/-- A leaf below no sensitive key stays, unless its text is masked. -/
theorem leaf_maskEnvNode {j : Json} {b : Bool} {way : Way} {v : Json} (h : Leaf j way v)
    (hway : sensitive way = false) (htext : masksText b way v = false) :
    Leaf (maskEnvNode b j) way v := by
  induction h generalizing b with
  | here h =>
      rw [maskEnvNode_of_isScalar h]
      exact .here h
  | item hmem h ih =>
      rw [maskEnvNode, maskEnvItems_eq]
      exact .item (List.mem_map.mpr ⟨_, hmem, rfl⟩) (ih hway htext)
  | @member ms k x way v hmem h ih =>
      rw [maskEnvNode, maskEnvMembers_eq]
      obtain ⟨hkey, hrest⟩ : isSensitiveKey k.toList = false ∧ sensitive way = false :=
        Bool.or_eq_false_iff.mp hway
      have hkept : (b && masksEntry k x) = false := by
        by_contra hmasked
        rw [Bool.not_eq_false, Bool.and_eq_true, masksEntry, hkey, Bool.false_or] at hmasked
        have hscalar : x.isScalar = true := by
          cases x <;> first | rfl | cases hmasked.2
        obtain ⟨rfl, rfl⟩ := (leaf_of_isScalar hscalar).mp h
        rw [masksText, rightUnder, hmasked.1, hmasked.2] at htext
        cases htext
      have hleaf : Leaf (maskEnvNode (k == "env") x) way v := by
        refine ih hrest ?_
        cases way with
        | nil => rfl
        | cons step way => exact htext
      refine .member (List.mem_map.mpr ⟨(k, x), hmem, rfl⟩) ?_
      simp only [hkept, Bool.false_eq_true, if_false]
      exact hleaf

/-! ### The sweep -/

/-- A leaf that the sweep hides: it is below a sensitive key, it is an entry of an `env` mapping that
looks like a credential, or the rule for scalars hides it. -/
def Swept (way : Way) (v : Json) : Prop :=
  sensitive way = true ∨ masksText false way v = true ∨
    Hidden (redactScalar REDACTED false (enclosing none way) v)

/-- **The sweep hides an `env` mapping exactly if it hides each leaf of it.** -/
theorem env_hidden_iff {payload : Json} {p : Way → Prop} :
    (∀ way w, Leaf (redactPayloadEnv payload) way w → p way → Hidden w) ↔
      ∀ way v, Leaf payload way v → p way → Swept way v := by
  constructor
  · intro h way v hv hway
    by_cases hsensitive : sensitive way = true
    · exact .inl hsensitive
    · rw [Bool.not_eq_true] at hsensitive
      by_cases htext : masksText false way v = true
      · exact .inr (.inl htext)
      · rw [Bool.not_eq_true] at htext
        have hmasked : Leaf (maskEnvInPlace payload) way v := leaf_maskEnvNode hv hsensitive htext
        refine .inr (.inr (h way _ (leaf_deepRedact.mpr ⟨v, hmasked, ?_⟩) hway))
        rw [hsensitive]
  · intro h way w hw hway
    obtain ⟨v, hv, rfl⟩ := leaf_deepRedact.mp hw
    rcases leaf_of_maskEnvNode hv with ⟨u, rfl⟩ | ⟨hv, htext⟩
    · exact hidden_redactScalar_redactValue _ _ u
    · cases hsensitive : sensitive way with
      | true => exact hidden_redactValue v
      | false =>
          rcases h way v hv hway with hs | ht | hhidden
          · rw [hsensitive] at hs
            cases hs
          · rw [htext] at ht
            cases ht
          · exact hhidden

/-! ### Manifest locks -/

/-- A way into the value of a member `env`. -/
def inEnv : Way → Bool
  | .member key :: .member _ :: _ => key == "env"
  | _ => false

/-- A way into the `env` of a lock or of one of its services. -/
def inLockEnv : Way → Bool
  | .member key :: .member _ :: rest => key == "env" || key == "services" && inEnv rest
  | _ => false

theorem leaf_of_maskLockEnv {members : List (String × Json)} {way : Way} {w : Json}
    (h : Leaf (.obj (maskLockEnv members)) way w) :
    w = .str REDACTED ∨ (Leaf (.obj members) way w ∧ inEnv way = false) := by
  obtain ⟨k, x, rest, hmem, rfl, h⟩ := leaf_obj_map.mp h
  cases x with
  | obj env =>
      rw [lockEnvValue] at h
      split at h
      · obtain ⟨_, _, _, _, _, h⟩ := (leaf_obj_map (f := fun _ _ => .str REDACTED)).mp h
        exact .inl (leaf_str.mp h).2
      · rename_i hkey
        refine .inr ⟨.member hmem h, ?_⟩
        cases rest with
        | nil => rfl
        | cons step rest =>
            cases step with
            | item => rfl
            | member name => exact beq_eq_false_iff_ne.mpr hkey
  | arr xs =>
      refine .inr ⟨.member hmem h, ?_⟩
      obtain ⟨_, _, _, rfl, _⟩ := leaf_arr.mp h
      rfl
  | null | bool | int | float | str =>
      refine .inr ⟨.member hmem h, ?_⟩
      obtain ⟨rfl, -⟩ := (leaf_of_isScalar rfl).mp h
      rfl

theorem leaf_maskLockEnv {members : List (String × Json)} {way : Way} {v : Json}
    (h : Leaf (.obj members) way v) (hway : inEnv way = false) :
    Leaf (.obj (maskLockEnv members)) way v := by
  obtain ⟨k, x, hmem, rest, rfl, h⟩ := leaf_obj.mp h
  refine leaf_obj_map.mpr ⟨k, x, rest, hmem, rfl, ?_⟩
  cases x with
  | obj env =>
      rw [lockEnvValue]
      split
      · rename_i hkey
        obtain ⟨_, _, _, _, rfl, _⟩ := leaf_obj.mp h
        rw [inEnv, hkey] at hway
        cases hway
      · exact h
  | _ => exact h

theorem leaf_of_maskServices {members : List (String × Json)} {way : Way} {w : Json}
    (h : Leaf (.obj (maskServices members)) way w) :
    w = .str REDACTED ∨ (Leaf (.obj members) way w ∧ ∀ name rest,
      way = .member "services" :: .member name :: rest → inEnv rest = false) := by
  obtain ⟨k, x, rest, hmem, rfl, h⟩ := leaf_obj_map.mp h
  cases x with
  | obj services =>
      rw [servicesValue] at h
      split at h
      · rename_i hkey
        obtain ⟨name, service, below, hservice, rfl, h⟩ :=
          (leaf_obj_map (f := fun _ service => maskService service)).mp h
        cases service with
        | obj entries =>
            refine (leaf_of_maskLockEnv h).imp_right fun ⟨hleaf, hbelow⟩ => ?_
            refine ⟨.member hmem (.member hservice hleaf), ?_⟩
            rintro name' rest' heq
            rwa [← (List.cons.inj (List.cons.inj heq).2).2]
        | arr xs =>
            refine .inr ⟨.member hmem (.member hservice h), ?_⟩
            rintro name' rest' heq
            obtain ⟨_, _, _, rfl, _⟩ := leaf_arr.mp h
            rw [← (List.cons.inj (List.cons.inj heq).2).2]
            rfl
        | null | bool | int | float | str =>
            refine .inr ⟨.member hmem (.member hservice h), ?_⟩
            rintro name' rest' heq
            obtain ⟨rfl, -⟩ := (leaf_of_isScalar rfl).mp h
            rw [← (List.cons.inj (List.cons.inj heq).2).2]
            rfl
      · rename_i hkey
        refine .inr ⟨.member hmem h, ?_⟩
        rintro name rest' heq
        exact absurd (WayStep.member.inj (List.cons.inj heq).1) hkey
  | arr xs =>
      refine .inr ⟨.member hmem h, ?_⟩
      obtain ⟨_, _, _, rfl, _⟩ := leaf_arr.mp h
      rintro name rest' heq
      cases (List.cons.inj heq).2
  | null | bool | int | float | str =>
      refine .inr ⟨.member hmem h, ?_⟩
      obtain ⟨rfl, -⟩ := (leaf_of_isScalar rfl).mp h
      rintro name rest' heq
      cases (List.cons.inj heq).2

theorem leaf_maskServices {members : List (String × Json)} {way : Way} {v : Json}
    (h : Leaf (.obj members) way v)
    (hway : ∀ name rest, way = .member "services" :: .member name :: rest → inEnv rest = false) :
    Leaf (.obj (maskServices members)) way v := by
  obtain ⟨k, x, hmem, rest, rfl, h⟩ := leaf_obj.mp h
  refine leaf_obj_map.mpr ⟨k, x, rest, hmem, rfl, ?_⟩
  cases x with
  | obj services =>
      rw [servicesValue]
      split
      · rename_i hkey
        obtain ⟨name, service, hservice, below, rfl, h⟩ := leaf_obj.mp h
        refine (leaf_obj_map (f := fun _ service => maskService service)).mpr
          ⟨name, service, below, hservice, rfl, ?_⟩
        cases service with
        | obj entries => exact leaf_maskLockEnv h (hway name below (by rw [hkey]))
        | _ => exact h
      · exact h
  | _ => exact h

/-- A leaf that the redaction of a lock hides. -/
def LockSwept (way : Way) (v : Json) : Prop :=
  sensitive way = true ∨ inLockEnv way = true ∨
    Hidden (redactScalar REDACTED false (enclosing none way) v)

theorem inLockEnv_eq_false_iff {way : Way} :
    inLockEnv way = false ↔ inEnv way = false ∧ ∀ name rest,
      way = .member "services" :: .member name :: rest → inEnv rest = false := by
  rcases way with _ | ⟨step, _ | ⟨step', rest⟩⟩
  · simp [inLockEnv, inEnv]
  · cases step <;> simp [inLockEnv, inEnv]
  · cases step with
    | item => simp [inLockEnv, inEnv]
    | member key =>
        cases step' with
        | item => simp [inLockEnv, inEnv]
        | member name =>
            rw [inLockEnv, inEnv, Bool.or_eq_false_iff, Bool.and_eq_false_iff]
            refine and_congr_right fun _ => ?_
            constructor
            · rintro h name' rest' heq
              obtain ⟨hkey, heq⟩ := List.cons.inj heq
              obtain ⟨-, rfl⟩ := List.cons.inj heq
              rw [WayStep.member.inj hkey, beq_self_eq_true] at h
              exact h.resolve_left (by decide)
            · intro h
              by_cases hkey : key = "services"
              · exact .inr (h name rest (by rw [hkey]))
              · exact .inl (beq_eq_false_iff_ne.mpr hkey)

/-- **A lock hides what lies in its own `env` and in those of its services**; the rest as far as
the rules for scalars do. -/
theorem lock_hidden_iff {payload : List (String × Json)} {p : Way → Prop} :
    (∀ way w, Leaf (.obj (maskedLock payload)) way w → p way → Hidden w) ↔
      ∀ way v, Leaf (.obj payload) way v → p way → LockSwept way v := by
  have hwalk : Json.obj (maskedLock payload) =
      deepRedact (.obj (maskServices (maskLockEnv payload))) := rfl
  rw [hwalk]
  constructor
  · intro h way v hv hway
    by_cases hsensitive : sensitive way = true
    · exact .inl hsensitive
    · by_cases hlock : inLockEnv way = true
      · exact .inr (.inl hlock)
      · rw [Bool.not_eq_true] at hsensitive hlock
        obtain ⟨hroot, hservices⟩ := inLockEnv_eq_false_iff.mp hlock
        have hmasked := leaf_maskServices (leaf_maskLockEnv hv hroot) hservices
        refine .inr (.inr (h way _ (leaf_deepRedact.mpr ⟨v, hmasked, ?_⟩) hway))
        rw [hsensitive]
  · intro h way w hw hway
    obtain ⟨v, hv, rfl⟩ := leaf_deepRedact.mp hw
    have hmask : Hidden (redactScalar REDACTED (sensitive way) (enclosing none way)
        (.str REDACTED)) :=
      hidden_redactScalar_redactValue _ _ (.bool true)
    rcases leaf_of_maskServices hv with rfl | ⟨hv, hservices⟩
    · exact hmask
    · rcases leaf_of_maskLockEnv hv with rfl | ⟨hv, hroot⟩
      · exact hmask
      · cases hsensitive : sensitive way with
        | true => exact hidden_redactValue v
        | false =>
            rcases h way v hv hway with hs | hl | hhidden
            · rw [hsensitive] at hs
              cases hs
            · rw [inLockEnv_eq_false_iff.mpr ⟨hroot, hservices⟩] at hl
              cases hl
            · exact hhidden

end Ophelia
