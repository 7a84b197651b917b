import Ophelia.Lib.PyText

/-!
# Ophelia.Lib.ShellWords

Quoting and splitting shell words. What `shlex.quote` prints, `shlex.split` reads back as one
word, whatever the word is: so the words of a command survive being quoted, joined with blanks
and split again, and a joined command determines its words.
-/

namespace PyText

/-- `" ".join(shlex.quote(word) for word in words)`. -/
def shellJoin (words : List (List Char)) : List Char :=
  [' '].intercalate (words.map shellQuote)

/-- What may follow a word: nothing, or a blank and the rest of the command. -/
inductive AfterWord : List Char → Prop where
  | done : AfterWord []
  | blank (rest : List Char) : AfterWord (' ' :: rest)

/-- The words after a finished word. -/
def wordsAfter : List Char → Option (List (List Char))
  | [] => some []
  | _ :: rest => shellSplit .blank [] false rest

/-- A word that has been read ends before a blank, and at the end. -/
theorem shellSplit_word_end {rest : List Char} (word : List Char) (quoted : Bool)
    (hword : word ≠ [] ∨ quoted = true) (hrest : AfterWord rest) :
    shellSplit .word word.reverse quoted rest = (wordsAfter rest).map (word :: ·) := by
  have hopen : (word.reverse.isEmpty && !quoted) = false := by
    rcases hword with hne | rfl
    · cases word with
      | nil => exact absurd rfl hne
      | cons c word => simp
    · simp
  cases hrest with
  | done =>
      rw [shellSplit, hopen]
      simp [wordsAfter]
  | blank rest =>
      rw [shellSplit, hopen]
      simp [wordsAfter]

/-! ### Words without special characters -/

/-- A character `shlex.quote` leaves alone is nothing special to `shlex.split`. -/
theorem not_special_of_isShellSafe {c : Char} (h : isShellSafe c = true) :
    c ≠ ' ' ∧ c ≠ '\t' ∧ c ≠ '\r' ∧ c ≠ '\n' ∧ c ≠ '\'' ∧ c ≠ '"' ∧ c ≠ '\\' := by
  refine ⟨?_, ?_, ?_, ?_, ?_, ?_, ?_⟩ <;> rintro rfl <;> exact absurd h (by decide)

theorem shellSplit_word_safe {cs rest : List Char} {token : List Char} {quoted : Bool}
    (hsafe : cs.all isShellSafe = true) :
    shellSplit .word token quoted (cs ++ rest) =
      shellSplit .word (cs.reverse ++ token) quoted rest := by
  induction cs generalizing token with
  | nil => rfl
  | cons c cs ih =>
      simp only [List.all_cons, Bool.and_eq_true] at hsafe
      obtain ⟨h₁, h₂, h₃, h₄, h₅, h₆, h₇⟩ := not_special_of_isShellSafe hsafe.1
      rw [List.cons_append, shellSplit]
      simp only [h₁, h₂, h₃, h₄, h₅, h₆, h₇, decide_false, Bool.or_false, Bool.false_eq_true,
        if_false]
      rw [ih hsafe.2, List.reverse_cons, List.append_assoc]
      rfl

/-! ### Quoted words -/

/-- Inside single quotes every character stands for itself, and a single quote is written as
a quotation of its own. -/
theorem shellSplit_quote_body (cs rest token : List Char) :
    shellSplit (.quote '\'') token true
        ((cs.flatMap fun c => if c = '\'' then ['\'', '"', '\'', '"', '\''] else [c]) ++
          '\'' :: rest) =
      shellSplit .word (cs.reverse ++ token) true rest := by
  induction cs generalizing token with
  | nil => simp [shellSplit]
  | cons c cs ih =>
      rw [List.flatMap_cons, List.append_assoc]
      by_cases hc : c = '\''
      · subst hc
        simp only [if_true, List.cons_append, List.nil_append]
        simp only [shellSplit]
        simp [ih]
      · rw [if_neg hc, List.singleton_append, shellSplit]
        simp [hc, ih]

/-- **One word**: the quoted form of a word is read back as the word. -/
theorem shellSplit_shellQuote (word : List Char) {rest : List Char} (hrest : AfterWord rest) :
    shellSplit .blank [] false (shellQuote word ++ rest) = (wordsAfter rest).map (word :: ·) := by
  unfold shellQuote
  split
  · -- the empty word is a pair of quotes
    rename_i hempty
    obtain rfl : word = [] := List.isEmpty_iff.mp hempty
    have hend := shellSplit_word_end [] true (Or.inr rfl) hrest
    simpa [shellSplit] using hend
  · rename_i hne
    split
    · rename_i hsafe
      cases word with
      | nil => exact absurd rfl hne
      | cons c cs =>
          have hall := hsafe
          simp only [List.all_cons, Bool.and_eq_true] at hsafe
          obtain ⟨h₁, h₂, h₃, h₄, h₅, h₆, h₇⟩ := not_special_of_isShellSafe hsafe.1
          rw [List.cons_append, shellSplit]
          simp only [h₁, h₂, h₃, h₄, h₅, h₆, h₇, decide_false, Bool.or_false,
            Bool.false_eq_true, if_false]
          rw [shellSplit_word_safe hsafe.2, ← List.reverse_cons]
          exact shellSplit_word_end (c :: cs) false (Or.inl (by simp)) hrest
    · rw [List.cons_append, List.append_assoc, shellSplit]
      have hbody := shellSplit_quote_body word rest []
      rw [List.append_nil] at hbody
      have hend := shellSplit_word_end word true (Or.inr rfl) hrest
      simpa using hbody.trans hend

/-! ### Commands -/

theorem shellJoin_cons (word : List Char) (words : List (List Char)) :
    shellJoin (word :: words) =
      shellQuote word ++ (if words.isEmpty then [] else ' ' :: shellJoin words) := by
  cases words with
  | nil => simp [shellJoin, List.intercalate]
  | cons w words => simp [shellJoin, List.intercalate]

/-- **Round trip**: joined words are split into the same words. -/
theorem shellSplit_shellJoin (words : List (List Char)) :
    shellSplit .blank [] false (shellJoin words) = some words := by
  induction words with
  | nil => rfl
  | cons word words ih =>
      rw [shellJoin_cons]
      cases words with
      | nil => exact shellSplit_shellQuote word .done
      | cons w words =>
          rw [if_neg (by simp), shellSplit_shellQuote word (.blank _), wordsAfter, ih]
          rfl

theorem shellJoin_injective : Function.Injective shellJoin := by
  intro words words' h
  have hsplit := congrArg (shellSplit .blank [] false) h
  rw [shellSplit_shellJoin, shellSplit_shellJoin] at hsplit
  exact Option.some.inj hsplit

theorem shellQuote_ne_nil (word : List Char) : shellQuote word ≠ [] := by
  unfold shellQuote
  split
  · simp
  · rename_i hne
    split
    · intro h
      rw [h] at hne
      exact hne rfl
    · simp

theorem shellJoin_eq_nil {words : List (List Char)} : shellJoin words = [] ↔ words = [] := by
  cases words with
  | nil => simp [shellJoin, List.intercalate]
  | cons word words =>
      rw [shellJoin_cons]
      simp [shellQuote_ne_nil word]

/-! ### What quoting does to a text -/

/-- What stands between the quotes of a quoted word. -/
def quoteBody (cs : List Char) : List Char :=
  cs.flatMap fun c => if c = '\'' then ['\'', '"', '\'', '"', '\''] else [c]

theorem shellQuote_of_safe {cs : List Char} (hne : cs ≠ []) (h : cs.all isShellSafe = true) :
    shellQuote cs = cs := by
  simp [shellQuote, hne, h]

theorem shellQuote_of_special {cs : List Char} (h : cs.all isShellSafe = false) :
    shellQuote cs = '\'' :: (quoteBody cs ++ ['\'']) := by
  have hne : cs ≠ [] := by
    rintro rfl
    exact absurd h (by simp)
  simp [shellQuote, hne, h, quoteBody]

theorem quoteBody_quote (cs : List Char) :
    quoteBody ('\'' :: cs) = '\'' :: '"' :: '\'' :: '"' :: '\'' :: quoteBody cs := by
  simp [quoteBody]

theorem quoteBody_cons {c : Char} (h : c ≠ '\'') (cs : List Char) :
    quoteBody (c :: cs) = c :: quoteBody cs := by
  simp [quoteBody, h]

theorem quoteBody_append (cs ds : List Char) :
    quoteBody (cs ++ ds) = quoteBody cs ++ quoteBody ds :=
  List.flatMap_append

theorem mem_quoteBody {c : Char} {cs : List Char} (h : c ∈ quoteBody cs) :
    c ∈ cs ∨ c = '\'' ∨ c = '"' := by
  obtain ⟨d, hd, hc⟩ := List.mem_flatMap.mp h
  split at hc
  · simp only [List.mem_cons, List.not_mem_nil, or_false] at hc
    tauto
  · rw [List.mem_singleton.mp hc]
    exact .inl hd

theorem mem_quoteBody_iff {c : Char} (hq : c ≠ '\'') (hqq : c ≠ '"') {cs : List Char} :
    c ∈ quoteBody cs ↔ c ∈ cs := by
  constructor
  · intro h
    rcases mem_quoteBody h with h | h | h
    · exact h
    · exact absurd h hq
    · exact absurd h hqq
  · intro h
    exact List.mem_flatMap.mpr ⟨c, h, by rw [if_neg hq]; exact List.mem_singleton_self c⟩

theorem quoteBody_lowerChar {c : Char} (hc : c ≠ '\'') : quoteBody (lowerChar c) = lowerChar c := by
  unfold lowerChar
  split_ifs with hupper h₁ h₂
  · have hrange : 65 ≤ c.val ∧ c.val ≤ 90 := of_decide_eq_true hupper
    have hnat : 65 ≤ c.toNat ∧ c.toNat ≤ 90 := by
      simpa [UInt32.le_iff_toNat_le, ← Char.toNat_val] using hrange
    have hne : ∀ n ≤ 90, 65 ≤ n → Char.ofNat (n + 32) ≠ '\'' := by decide
    exact quoteBody_cons (hne _ hnat.2 hnat.1) []
  · rfl
  · rfl
  · exact quoteBody_cons hc []

/-- Quoting and lowering do not meet. -/
theorem lower_quoteBody (cs : List Char) : lower (quoteBody cs) = quoteBody (lower cs) := by
  induction cs with
  | nil => rfl
  | cons c cs ih =>
      have hcons : ∀ d ds, lower (d :: ds) = lowerChar d ++ lower ds := fun _ _ => List.flatMap_cons
      by_cases hc : c = '\''
      · subst hc
        have hquote : lowerChar '\'' = ['\''] ∧ lowerChar '"' = ['"'] := by decide
        simp only [quoteBody_quote, hcons, hquote.1, hquote.2, ih, List.singleton_append]
      · rw [quoteBody_cons hc, hcons, hcons, quoteBody_append, quoteBody_lowerChar hc, ih]

/-! ### Searching in what goes on or is quoted -/

section Searching

variable {pat : List Char} {c : Char}

theorem isPrefixOf_append_of_not_mem (hc : c ∉ pat) (cs tail : List Char) :
    pat.isPrefixOf (cs ++ c :: tail) = pat.isPrefixOf cs := by
  induction pat generalizing cs with
  | nil => simp
  | cons p pat ih =>
      rw [List.mem_cons, not_or] at hc
      cases cs with
      | nil => simp [List.isPrefixOf, Ne.symm hc.1]
      | cons d cs => simp [List.isPrefixOf, ih hc.2]

theorem isPrefixOf_quoteBody (hq : '\'' ∉ pat) (cs : List Char) :
    pat.isPrefixOf (quoteBody cs) = pat.isPrefixOf cs := by
  induction pat generalizing cs with
  | nil => simp
  | cons p pat ih =>
      rw [List.mem_cons, not_or] at hq
      cases cs with
      | nil => rfl
      | cons d cs =>
          by_cases hd : d = '\''
          · subst hd
            have hp : (p == '\'') = false := beq_eq_false_iff_ne.mpr (Ne.symm hq.1)
            rw [quoteBody_quote]
            simp only [List.isPrefixOf, hp, Bool.false_and]
          · simp [List.isPrefixOf, quoteBody_cons hd, ih hq.2]

variable (hpat : pat ≠ [])

include hpat

/-- A character that the pattern does not have is passed over. -/
theorem cut?_cons_of_not_mem (hc : c ∉ pat) (cs : List Char) :
    cut? pat (c :: cs) = (cut? pat cs).map fun p => (c :: p.1, p.2) := by
  have hhead : pat.isPrefixOf (c :: cs) = false := by
    have happend := isPrefixOf_append_of_not_mem hc [] cs
    rw [List.nil_append] at happend
    rw [happend]
    cases pat with
    | nil => exact absurd rfl hpat
    | cons p pat => rfl
  rw [cut?, hhead]
  rfl

theorem cut?_nil : cut? pat [] = none := by
  simp [cut?, hpat]

theorem cut?_append_of_not_mem (hc : c ∉ pat) {tail : List Char} (htail : cut? pat tail = none)
    (cs : List Char) :
    cut? pat (cs ++ c :: tail) = (cut? pat cs).map fun p => (p.1, p.2 ++ c :: tail) := by
  induction cs with
  | nil => simp [cut?_cons_of_not_mem hpat hc, htail, cut?_nil hpat]
  | cons d cs ih =>
      have hhead := isPrefixOf_append_of_not_mem hc (d :: cs) tail
      rw [List.cons_append] at hhead ⊢
      rw [cut?, cut?, hhead]
      split
      · rename_i hprefix
        have hlength := (List.isPrefixOf_iff_prefix.mp hprefix).length_le
        rw [← List.cons_append, List.drop_append_of_le_length hlength]
        rfl
      · rw [ih]
        cases cut? pat cs <;> rfl

theorem cut?_quoteBody (hq : '\'' ∉ pat) (hqq : '"' ∉ pat) (cs : List Char) :
    cut? pat (quoteBody cs) = (cut? pat cs).map fun p => (quoteBody p.1, quoteBody p.2) := by
  induction cs with
  | nil => simp [quoteBody, cut?_nil hpat]
  | cons d cs ih =>
      by_cases hd : d = '\''
      · subst hd
        simp only [quoteBody_quote, cut?_cons_of_not_mem hpat hq, cut?_cons_of_not_mem hpat hqq, ih]
        cases cut? pat cs with
        | none => rfl
        | some p => simp [quoteBody_quote]
      · have hhead := isPrefixOf_quoteBody hq (d :: cs)
        rw [quoteBody_cons hd] at hhead ⊢
        rw [cut?, cut?, hhead]
        split
        · rename_i hprefix
          obtain ⟨rest, hrest⟩ := List.isPrefixOf_iff_prefix.mp hprefix
          have hquoted : d :: quoteBody cs = pat ++ quoteBody rest := by
            have hself : quoteBody pat = pat := by
              have hsingle : quoteBody pat = pat.flatMap fun c => [c] := by
                refine List.flatMap_congr fun c hc => if_neg ?_
                rintro rfl
                exact hq hc
              rw [hsingle, List.flatMap_singleton']
            rw [← quoteBody_cons hd, ← hrest, quoteBody, List.flatMap_append, ← quoteBody, hself]
            rfl
          rw [hquoted, ← hrest]
          simp [quoteBody]
        · rw [ih]
          cases cut? pat cs with
          | none => rfl
          | some p => simp [quoteBody_cons hd]

end Searching

/-! ### Words between blanks -/

/-- No blank in a text. -/
def Blankless (cs : List Char) : Prop := ∀ c ∈ cs, isSpace c = false

theorem not_isSpace_of_isShellSafe {c : Char} (h : isShellSafe c = true) : isSpace c = false := by
  have hrange : 0x21 ≤ c.toNat ∧ c.toNat < 0x7f := by
    delta isShellSafe Char.isAlphanum Char.isAlpha Char.isUpper Char.isLower Char.isDigit at h
    simp only [Bool.or_eq_true, Bool.and_eq_true, decide_eq_true_eq, beq_iff_eq,
      UInt32.le_iff_toNat_le, Char.toNat_val] at h
    rcases h with (((((((((((h | h) | h) | rfl) | rfl) | rfl) | rfl) | rfl) | rfl) | rfl) | rfl) |
      rfl) | rfl
    all_goals first | decide | (simp at h; omega)
  simp only [isSpace, Bool.or_eq_false_iff, Bool.and_eq_false_iff, decide_eq_false_iff_not,
    beq_eq_false_iff_ne]
  omega

theorem splitWords_word {cs : List Char} (h : Blankless cs) (word rest : List Char) :
    splitWords word (cs ++ rest) = splitWords (cs.reverse ++ word) rest := by
  induction cs generalizing word with
  | nil => rfl
  | cons c cs ih =>
      rw [List.cons_append, splitWords, h c List.mem_cons_self]
      simp only [Bool.false_eq_true, if_false]
      rw [ih fun d hd => h d (List.mem_cons_of_mem c hd)]
      simp

theorem splitWords_of_blankless {cs : List Char} (hne : cs ≠ []) (h : Blankless cs) :
    splitWords [] cs = [cs] := by
  have hword := splitWords_word h [] []
  rw [List.append_nil, List.append_nil] at hword
  rw [hword, splitWords]
  simp [hne]

theorem splitWords_append_blank {b : Char} (hb : isSpace b = true) (word cs rest : List Char) :
    splitWords word (cs ++ b :: rest) = splitWords word cs ++ splitWords [] rest := by
  induction cs generalizing word with
  | nil =>
      simp only [List.nil_append, splitWords, hb, if_true]
      split
      · rfl
      · rfl
  | cons c cs ih =>
      rw [List.cons_append, splitWords, splitWords]
      split
      · split
        · exact ih []
        · rw [ih [], List.cons_append]
      · exact ih (c :: word)

/-- A text with a blank, cut at the first one. -/
theorem exists_of_not_blankless {cs : List Char} (h : ¬ Blankless cs) : ∃ b rest,
    isSpace b = true ∧ cs.dropWhile (fun c => !isSpace c) = b :: rest ∧
      Blankless (cs.takeWhile fun c => !isSpace c) ∧
      cs = cs.takeWhile (fun c => !isSpace c) ++ b :: rest := by
  have hfront : Blankless (cs.takeWhile fun c => !isSpace c) := fun c hc => by
    simpa using List.all_eq_true.mp List.all_takeWhile c hc
  have hparts := List.takeWhile_append_dropWhile (p := fun c => !isSpace c) (l := cs)
  cases hrest : cs.dropWhile fun c => !isSpace c with
  | nil =>
      rw [hrest, List.append_nil] at hparts
      exact absurd (hparts ▸ hfront) h
  | cons b rest =>
      refine ⟨b, rest, ?_, rfl, hfront, ?_⟩
      · have hhead := List.head?_dropWhile_not (fun c => !isSpace c) cs
        simpa [hrest] using hhead
      · rw [← hrest]
        exact hparts.symm

/-- The words of a joined text are those of its parts. -/
theorem splitWords_intercalate (words : List (List Char)) :
    splitWords [] ([' '].intercalate words) = words.flatMap (splitWords []) := by
  induction words with
  | nil => rfl
  | cons word words ih =>
      cases words with
      | nil => simp
      | cons next words =>
          rw [List.intercalate_cons_cons, List.append_assoc, List.singleton_append,
            splitWords_append_blank (by decide), ih, ← List.flatMap_cons]

theorem strip_of_blankless {cs : List Char} (h : Blankless cs) : strip cs = cs := by
  have hdrop : ∀ {ds : List Char}, Blankless ds → ds.dropWhile isSpace = ds := by
    intro ds hds
    cases ds with
    | nil => rfl
    | cons d ds => exact List.dropWhile_cons_of_neg (by simp [hds d List.mem_cons_self])
  have hrev : Blankless cs.reverse := fun c hc => h c (List.mem_reverse.mp hc)
  rw [strip, hdrop h, hdrop hrev, List.reverse_reverse]

theorem Blankless.quoteBody {cs : List Char} (h : Blankless cs) : Blankless (quoteBody cs) := by
  intro c hc
  rcases mem_quoteBody hc with hc | rfl | rfl
  · exact h c hc
  · decide
  · decide

theorem Blankless.shellQuote {cs : List Char} (h : Blankless cs) : Blankless (shellQuote cs) := by
  have hquote : isSpace '\'' = false := by decide
  cases hsafe : cs.all isShellSafe with
  | true =>
      cases cs with
      | nil =>
          intro c hc
          simp only [PyText.shellQuote, List.isEmpty_nil, if_true, List.mem_cons, List.not_mem_nil,
            or_false, or_self] at hc
          rw [hc]
          exact hquote
      | cons d cs => rwa [shellQuote_of_safe (by simp) hsafe]
  | false =>
      rw [shellQuote_of_special hsafe]
      intro c hc
      simp only [List.mem_cons, List.mem_append, List.not_mem_nil, or_false] at hc
      rcases hc with rfl | hc | rfl
      · exact hquote
      · exact h.quoteBody c hc
      · exact hquote

end PyText
