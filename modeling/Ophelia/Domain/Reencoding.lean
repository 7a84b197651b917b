import Ophelia.Domain.RedactionSound
import Ophelia.Lib.ShellWords

/-!
# Ophelia.Domain.Reencoding

Redacting twice. The journal checks its rows by reading the stored text and encoding it
again, so redaction should leave its own output alone. It does for everything but the words
`option=value` of a command: masking the value of a word keeps the option, and an option
that looks like a credential itself makes the masked word a credential on the next pass
(`fragileParts`). Nothing else goes wrong: without such a word (`steady`) both `deep_redact`
and `canonical_json` are fixpoints, and with one `deep_redact` is not.
-/

namespace Ophelia

open PyText

open Json (isScalar)

/-! ### Words -/

/-- Some word of a command is masked for its value alone, and still looks like a credential
after that. `redactNext` is set where the word is masked whatever it is. -/
def fragileParts (marker : List Char) : Bool → List (List Char) → Bool
  | _, [] => false
  | true, _ :: parts => fragileParts marker false parts
  | false, part :: parts =>
      let option := before '=' part
      let separator := part.contains '='
      let optionValue := part.drop (option.length + 1)
      if separator && (namesSensitiveFlag option || isSensitiveKey option) then
        fragileParts marker false parts
      else if separator && looksLikeSecretValue optionValue then
        looksLikeSecretValue (option ++ '=' :: marker) || fragileParts marker false parts
      else if part.head? == some '-' && namesSensitiveFlag option then
        fragileParts marker true parts
      else fragileParts marker false parts

/-- The option of a masked word, and its value. -/
theorem before_masked {option : List Char} (marker : List Char) (h : '=' ∉ option) :
    before '=' (option ++ '=' :: marker) = option ∧
      (option ++ '=' :: marker).contains '=' = true ∧
      (option ++ '=' :: marker).drop (option.length + 1) = marker := by
  refine ⟨?_, by simp, by simp [List.drop_append]⟩
  unfold before
  rw [List.takeWhile_append_of_pos]
  · simp
  · intro c hc
    simp only [decide_eq_true_eq]
    rintro rfl
    exact h hc

/-- The marker is an ordinary word. -/
theorem redactParts_marker (parts : List (List Char)) :
    redactParts REDACTED.toList false (REDACTED.toList :: parts) =
      REDACTED.toList :: redactParts REDACTED.toList false parts := by
  have hseparator : REDACTED.toList.contains '=' = false := by decide
  have hdash : (REDACTED.toList.head? == some '-') = false := by decide
  have hsecret : looksLikeSecretValue REDACTED.toList = false := by decide
  simp only [redactParts, hseparator, hdash, hsecret, Bool.false_and, Bool.false_eq_true, if_false]

/-- A masked word on the next pass. -/
theorem redactParts_masked {option : List Char} (h : '=' ∉ option) (parts : List (List Char)) :
    redactParts REDACTED.toList false ((option ++ '=' :: REDACTED.toList) :: parts) =
      (if namesSensitiveFlag option = false ∧ isSensitiveKey option = false ∧
          looksLikeSecretValue (option ++ '=' :: REDACTED.toList) = true then REDACTED.toList
        else option ++ '=' :: REDACTED.toList) ::
        redactParts REDACTED.toList false parts := by
  obtain ⟨hbefore, hcontains, hdrop⟩ := before_masked REDACTED.toList h
  have hsecret : looksLikeSecretValue REDACTED.toList = false := by decide
  simp only [redactParts, hbefore, hcontains, hdrop, hsecret, Bool.true_and, Bool.or_false]
  cases namesSensitiveFlag option <;> cases isSensitiveKey option <;>
    cases looksLikeSecretValue (option ++ '=' :: REDACTED.toList) <;> simp

theorem masked_ne_marker (option : List Char) :
    REDACTED.toList ≠ option ++ '=' :: REDACTED.toList := by
  intro h
  have hmem : '=' ∈ REDACTED.toList := by
    rw [h]
    simp
  exact absurd hmem (by decide)

section Part

variable {part : List Char} (parts : List (List Char))

/-- A word masked for the name of its option. -/
theorem part_named (hsep : part.contains '=' = true)
    (hname : (namesSensitiveFlag (before '=' part) || isSensitiveKey (before '=' part)) = true) :
    redactParts REDACTED.toList false (part :: parts) =
        (before '=' part ++ '=' :: REDACTED.toList) :: redactParts REDACTED.toList false parts ∧
      fragileParts REDACTED.toList false (part :: parts) =
        fragileParts REDACTED.toList false parts := by
  simp only [redactParts, fragileParts, hsep, hname, Bool.true_and, Bool.true_or, if_true,
    and_self]

/-- A word masked for the shape of its value. -/
theorem part_valued (hsep : part.contains '=' = true)
    (hname : (namesSensitiveFlag (before '=' part) || isSensitiveKey (before '=' part)) = false)
    (hvalue : looksLikeSecretValue (part.drop ((before '=' part).length + 1)) = true) :
    redactParts REDACTED.toList false (part :: parts) =
        (before '=' part ++ '=' :: REDACTED.toList) :: redactParts REDACTED.toList false parts ∧
      fragileParts REDACTED.toList false (part :: parts) =
        (looksLikeSecretValue (before '=' part ++ '=' :: REDACTED.toList) ||
          fragileParts REDACTED.toList false parts) := by
  simp only [redactParts, fragileParts, hsep, hname, hvalue, Bool.true_and, Bool.or_true, if_true,
    Bool.false_eq_true, if_false, and_self]

/-- A word that is no masked assignment: an option whose value follows, a credential, or an
ordinary word. -/
theorem part_whole
    (hsep : (part.contains '=' && (namesSensitiveFlag (before '=' part) ||
      isSensitiveKey (before '=' part) ||
      looksLikeSecretValue (part.drop ((before '=' part).length + 1)))) = false) :
    redactParts REDACTED.toList false (part :: parts) =
        (if part.head? == some '-' && namesSensitiveFlag (before '=' part) then
          part :: redactParts REDACTED.toList true parts
        else (if looksLikeSecretValue part then REDACTED.toList else part) ::
          redactParts REDACTED.toList false parts) ∧
      fragileParts REDACTED.toList false (part :: parts) =
        if part.head? == some '-' && namesSensitiveFlag (before '=' part) then
          fragileParts REDACTED.toList true parts
        else fragileParts REDACTED.toList false parts := by
  have hnamed : (part.contains '=' && (namesSensitiveFlag (before '=' part) ||
      isSensitiveKey (before '=' part))) = false := by
    revert hsep
    cases part.contains '=' <;> cases namesSensitiveFlag (before '=' part) <;>
      cases isSensitiveKey (before '=' part) <;> simp
  have hvalued : (part.contains '=' &&
      looksLikeSecretValue (part.drop ((before '=' part).length + 1))) = false := by
    revert hsep
    cases part.contains '=' <;>
      cases looksLikeSecretValue (part.drop ((before '=' part).length + 1)) <;> simp
  simp only [redactParts, fragileParts, hsep, hnamed, hvalued, Bool.false_eq_true, if_false,
    and_true]
  split
  · rfl
  · split <;> rfl

end Part

/-- **Masking the words of a command again** changes them exactly when one is fragile. -/
theorem redactParts_redactParts (redactNext : Bool) (parts : List (List Char)) :
    redactParts REDACTED.toList redactNext (redactParts REDACTED.toList redactNext parts) =
        redactParts REDACTED.toList redactNext parts ↔
      fragileParts REDACTED.toList redactNext parts = false := by
  induction parts generalizing redactNext with
  | nil => cases redactNext <;> simp [redactParts, fragileParts]
  | cons part parts ih =>
      cases redactNext with
      | true => simp [redactParts, fragileParts, ih]
      | false =>
          have hmasked := redactParts_masked (not_mem_before '=' part)
          by_cases hsep : (part.contains '=' && (namesSensitiveFlag (before '=' part) ||
              isSensitiveKey (before '=' part) ||
              looksLikeSecretValue (part.drop ((before '=' part).length + 1)))) = true
          · obtain ⟨hsep, hwhy⟩ := Bool.and_eq_true_iff.mp hsep
            by_cases hname : (namesSensitiveFlag (before '=' part) ||
                isSensitiveKey (before '=' part)) = true
            · -- masked for its option, which is still there
              obtain ⟨hredact, hfragile⟩ := part_named parts hsep hname
              rw [hredact, hfragile, hmasked, if_neg, List.cons.injEq, and_iff_right rfl, ih]
              rintro ⟨h₁, h₂, -⟩
              rw [h₁, h₂] at hname
              exact absurd hname (by simp)
            · have hname := Bool.not_eq_true _ |>.mp hname
              rw [hname, Bool.false_or] at hwhy
              obtain ⟨hredact, hfragile⟩ := part_valued parts hsep hname hwhy
              obtain ⟨h₁, h₂⟩ := Bool.or_eq_false_iff.mp hname
              rw [hredact, hfragile, hmasked, Bool.or_eq_false_iff]
              by_cases hsecret : looksLikeSecretValue
                  (before '=' part ++ '=' :: REDACTED.toList) = true
              · -- the masked word is a credential again
                rw [if_pos ⟨h₁, h₂, hsecret⟩, List.cons.injEq]
                simp [masked_ne_marker, hsecret]
              · rw [if_neg fun h => hsecret h.2.2, List.cons.injEq, and_iff_right rfl, ih,
                  and_iff_right (by simpa using hsecret)]
          · -- whatever is left of the word is treated the same way again
            have hsep := Bool.not_eq_true _ |>.mp hsep
            obtain ⟨hredact, hfragile⟩ := part_whole parts hsep
            rw [hredact, hfragile]
            by_cases hflag : (part.head? == some '-' &&
                namesSensitiveFlag (before '=' part)) = true
            · rw [if_pos hflag, if_pos hflag, (part_whole _ hsep).1, if_pos hflag,
                List.cons.injEq, and_iff_right rfl, ih]
            · rw [if_neg hflag, if_neg hflag]
              by_cases hsecret : looksLikeSecretValue part = true
              · rw [if_pos hsecret, redactParts_marker, List.cons.injEq, and_iff_right rfl, ih]
              · rw [if_neg hsecret, (part_whole _ hsep).1, if_neg hflag, if_neg hsecret,
                  List.cons.injEq, and_iff_right rfl, ih]

/-! ### Command strings -/

/-- The command has a fragile word. -/
def fragileCommand (command : String) : Bool :=
  fragileParts REDACTED.toList false (commandParts command.toList)

theorem redactCommandString_eq {command : String} (h : command ≠ "") :
    redactCommandString command REDACTED =
      String.ofList (shellJoin (redactParts REDACTED.toList false (commandParts command.toList))) :=
  if_neg h

/-- The words of a joined command. -/
theorem commandParts_shellJoin (words : List (List Char)) :
    commandParts (shellJoin words) = words := by
  rw [commandParts, shellSplit_shellJoin]
  rfl

/-- **Masking a command again** changes it exactly when it has a fragile word. -/
theorem redactCommandString_twice (command : String) :
    redactCommandString (redactCommandString command REDACTED) REDACTED =
        redactCommandString command REDACTED ↔ fragileCommand command = false := by
  by_cases hempty : command = ""
  · subst hempty
    exact iff_of_true rfl rfl
  · rw [redactCommandString_eq hempty, fragileCommand, ← redactParts_redactParts]
    by_cases hnil : redactParts REDACTED.toList false (commandParts command.toList) = []
    · rw [hnil]
      exact iff_of_true rfl rfl
    · have hne : String.ofList
          (shellJoin (redactParts REDACTED.toList false (commandParts command.toList))) ≠ "" := by
        intro h
        have hlist := congrArg String.toList h
        rw [String.toList_ofList] at hlist
        exact hnil (shellJoin_eq_nil.mp hlist)
      rw [redactCommandString_eq hne, String.toList_ofList, commandParts_shellJoin,
        String.ofList_inj, shellJoin_injective.eq_iff]

/-! ### Scalars -/

/-- A scalar that redaction does not change any more after one pass. -/
def steadyScalar (keyIsSensitive : Bool) (keyName : Option String) : Json → Bool
  | .str s => keyIsSensitive || !keyName.any looksLikeCommandKey || !fragileCommand s
  | _ => true

theorem redactValue_twice (value : Json) :
    redactValue REDACTED (redactValue REDACTED value) = redactValue REDACTED value := by
  cases value with
  | str s =>
      by_cases hs : s = ""
      · subst hs
        rfl
      · simp [redactValue, hs]
  | _ => rfl

/-- What a scalar is under a key that is not sensitive. -/
theorem redactScalar_false (keyName : Option String) (s : String) :
    redactScalar REDACTED false keyName (.str s) =
      .str (if keyName.any looksLikeCommandKey then redactCommandString s REDACTED
        else maskText s) := by
  simp only [redactScalar, Bool.false_eq_true, if_false]
  split
  · rfl
  · unfold maskText
    split
    · rename_i hsecret
      have hne : s ≠ "" := by
        rintro rfl
        exact absurd hsecret (by decide)
      simp [redactValue, hne]
    · rfl

/-- **Redacting a scalar again.** -/
theorem redactScalar_twice (b : Bool) (k : Option String) {value : Json}
    (hscalar : isScalar value = true) :
    redactScalar REDACTED b k (redactScalar REDACTED b k value) =
        redactScalar REDACTED b k value ↔ steadyScalar b k value = true := by
  cases b with
  | true => exact iff_of_true (redactValue_twice value) (by cases value <;> rfl)
  | false =>
      cases value with
      | str s =>
          rw [redactScalar_false, redactScalar_false]
          by_cases hcommand : k.any looksLikeCommandKey = true
          · rw [if_pos hcommand, if_pos hcommand, Json.str.injEq, redactCommandString_twice]
            simp [steadyScalar, hcommand]
          · rw [if_neg hcommand, if_neg hcommand, maskText_maskText]
            simp [steadyScalar, hcommand]
      | arr xs => exact absurd hscalar (by simp [isScalar])
      | obj ms => exact absurd hscalar (by simp [isScalar])
      | _ => exact iff_of_true rfl rfl

/-! ### `deep_redact` -/

mutual

/-- No command string that redaction works on has a fragile word. A command string is worked
on unless the key right above it is sensitive. -/
def steady (keyIsSensitive : Bool) (keyName : Option String) : Json → Bool
  | .arr xs => steadyItems keyIsSensitive keyName xs
  | .obj ms => steadyMembers ms
  | value => steadyScalar keyIsSensitive keyName value

def steadyItems (keyIsSensitive : Bool) (keyName : Option String) : List Json → Bool
  | [] => true
  | x :: xs => steady keyIsSensitive keyName x && steadyItems keyIsSensitive keyName xs

def steadyMembers : List (String × Json) → Bool
  | [] => true
  | (k, v) :: ms => steady (isSensitiveKey k.toList) (some k) v && steadyMembers ms

end

theorem steady_arr {b : Bool} {k : Option String} {xs : List Json} :
    steady b k (.arr xs) = true ↔ ∀ x ∈ xs, steady b k x = true := by
  induction xs with
  | nil => simp [steady, steadyItems]
  | cons x xs ih =>
      simp only [steady, steadyItems, Bool.and_eq_true] at ih ⊢
      simp [ih]

theorem steady_obj {b : Bool} {k : Option String} {ms : List (String × Json)} :
    steady b k (.obj ms) = true ↔
      ∀ m ∈ ms, steady (isSensitiveKey m.1.toList) (some m.1) m.2 = true := by
  induction ms with
  | nil => simp [steady, steadyMembers]
  | cons m ms ih =>
      obtain ⟨key, v⟩ := m
      simp only [steady, steadyMembers, Bool.and_eq_true] at ih ⊢
      simp [ih]

theorem localItems_eq (mk : String) (b : Bool) (k : Option String) (xs : List Json) :
    localItems mk b k xs = xs.map (localWalk mk b k) := by
  induction xs with
  | nil => rfl
  | cons x xs ih => simp only [localItems, List.map_cons, ih]

theorem localMembers_eq (mk : String) (ms : List (String × Json)) :
    localMembers mk ms =
      ms.map fun m => (m.1, localWalk mk (isSensitiveKey m.1.toList) (some m.1) m.2) := by
  induction ms with
  | nil => rfl
  | cons m ms ih => simp only [localMembers, List.map_cons, ih]

theorem localWalk_of_isScalar (b : Bool) (k : Option String) {value : Json}
    (hscalar : isScalar value = true) :
    localWalk REDACTED b k value = redactScalar REDACTED b k value := by
  cases value with
  | arr xs => exact absurd hscalar (by simp [isScalar])
  | obj ms => exact absurd hscalar (by simp [isScalar])
  | _ => rfl

theorem steady_of_isScalar (b : Bool) (k : Option String) {value : Json}
    (hscalar : isScalar value = true) : steady b k value = steadyScalar b k value := by
  cases value with
  | arr xs => exact absurd hscalar (by simp [isScalar])
  | obj ms => exact absurd hscalar (by simp [isScalar])
  | _ => rfl

/-- **`deep_redact` is a fixpoint exactly on values without a fragile word.** -/
theorem localWalk_twice (b : Bool) (k : Option String) (j : Json) :
    localWalk REDACTED b k (localWalk REDACTED b k j) = localWalk REDACTED b k j ↔
      steady b k j = true := by
  induction j using Json.scalarInduction generalizing b k with
  | scalar value hscalar =>
      rw [localWalk_of_isScalar b k hscalar, steady_of_isScalar b k hscalar,
        localWalk_of_isScalar b k (isScalar_redactScalar b k hscalar)]
      exact redactScalar_twice b k hscalar
  | arr xs ih =>
      simp only [localWalk, localItems_eq, List.map_map, Json.arr.injEq]
      rw [List.map_inj_left, steady_arr]
      exact forall₂_congr fun x hx => ih x hx b k
  | obj ms ih =>
      simp only [localWalk, localMembers_eq, List.map_map, Json.obj.injEq]
      rw [List.map_inj_left, steady_obj]
      refine forall₂_congr fun m hm => ?_
      have hvalue := ih m hm (isSensitiveKey m.1.toList) (some m.1)
      refine Iff.trans ?_ hvalue
      simp

end Ophelia
