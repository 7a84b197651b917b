import Ophelia.Lib.PyLines
import Ophelia.Lib.Segments

/-!
# Ophelia.Lib.EnvFile

Environment files: an assignment a line. The reader removes the white space around a value and
the quotes around that, ends a value without quotes at a comment, and puts the values of
variables in the place of their names. The texts that come back as they were written, whatever
the variables are, are the literal ones (`valueOf_eq_iff`).
-/

namespace EnvFile

open PyText

/-! ### Values -/

/-- White space. -/
def isBlank (c : Char) : Bool :=
  let n := c.toNat
  (9 ≤ n && n ≤ 13) || n == 0x20 || n == 0x85 || n == 0xa0 || n == 0x1680 ||
    (0x2000 ≤ n && n ≤ 0x200a) || n == 0x2028 || n == 0x2029 || n == 0x202f || n == 0x205f ||
    n == 0x3000

def trim (cs : List Char) : List Char :=
  stripChars isBlank cs

/-- The text between quotes. -/
def unquoted? : List Char → Option (List Char)
  | [] => none
  | q :: cs => if (q = '"' ∨ q = '\'') ∧ cs.getLast? = some q then some cs.dropLast else none

/-- The text in front of a comment: a space, and a hash sign. -/
def beforeComment : List Char → List Char
  | [] => []
  | c :: cs => if c = ' ' ∧ cs.head? = some '#' then [] else c :: beforeComment cs

def isNameStart (c : Char) : Bool :=
  c.isAlpha || c == '_'

def isNameChar (c : Char) : Bool :=
  c.isAlphanum || c == '_'

/-- The name of a variable behind a dollar sign, bare or in braces, and how many characters it
takes. -/
def reference? : List Char → Option (List Char × Nat)
  | [] => none
  | '{' :: cs =>
      let name := cs.takeWhile isNameChar
      if (name.head?.any isNameStart) = true ∧ (cs.dropWhile isNameChar).head? = some '}' then
        some (name, name.length + 2)
      else none
  | c :: cs =>
      let name := cs.takeWhile isNameChar
      if isNameStart c then some (c :: name, name.length + 1) else none

/-- The walk that replaces names by values; `skip` characters belong to a reference. -/
def interpolateFrom (vars : List Char → List Char) : Nat → List Char → List Char
  | _, [] => []
  | skip + 1, _ :: cs => interpolateFrom vars skip cs
  | 0, c :: cs =>
      if c = '$' then
        match reference? cs with
        | some (name, taken) => vars name ++ interpolateFrom vars taken cs
        | none => c :: interpolateFrom vars 0 cs
      else c :: interpolateFrom vars 0 cs

def interpolate (vars : List Char → List Char) (cs : List Char) : List Char :=
  interpolateFrom vars 0 cs

/-- What a reader makes of the text behind an equals sign. -/
def valueOf (vars : List Char → List Char) (raw : List Char) : List Char :=
  let cs := trim raw
  interpolate vars ((unquoted? cs).getD (trim (beforeComment cs)))

/-! ### Files -/

/-- The assignments of a file, line by line. -/
def parse (vars : List Char → List Char) (text : List Char) : List (List Char × List Char) :=
  (text.splitOn '\n').filterMap fun line =>
    if line.dropWhile isBlank = [] ∨ (line.dropWhile isBlank).head? = some '#' ∨ '=' ∉ line then none
    else some (trim (before '=' line), valueOf vars ((line.dropWhile (· ≠ '=')).drop 1))

/-- The value of a name; the last assignment counts. -/
def lookup? (name : List Char) (assignments : List (List Char × List Char)) :
    Option (List Char) :=
  (assignments.reverse.find? fun p => p.1 = name).map Prod.snd

/-- A line that assigns a value. -/
def assignment (name value : List Char) : List Char :=
  name ++ '=' :: value

/-! ### Literal values -/

/-- Nothing behind a dollar sign is a variable. -/
def NoReference (cs : List Char) : Prop :=
  ∀ front rest, cs = front ++ '$' :: rest → reference? rest = none

/-- A text that is read as it stands. -/
structure Literal (cs : List Char) : Prop where
  first : ∀ c, cs.head? = some c → isBlank c = false
  last : ∀ c, cs.getLast? = some c → isBlank c = false
  unquoted : unquoted? cs = none
  uncut : ¬ [' ', '#'] <:+: cs
  noReference : NoReference cs

theorem trim_eq_self {cs : List Char} (first : ∀ c, cs.head? = some c → isBlank c = false)
    (last : ∀ c, cs.getLast? = some c → isBlank c = false) : trim cs = cs := by
  have hdrop : ∀ ds : List Char, (∀ c, ds.head? = some c → isBlank c = false) →
      ds.dropWhile isBlank = ds := by
    intro ds hds
    cases ds with
    | nil => rfl
    | cons d ds => rw [List.dropWhile_cons_of_neg (by simp [hds d rfl])]
  rw [trim, stripChars, hdrop cs first, hdrop cs.reverse (by simpa using last), List.reverse_reverse]

theorem length_trim_le (cs : List Char) : (trim cs).length ≤ cs.length := by
  rw [trim, stripChars, List.length_reverse]
  exact (List.dropWhile_sublist _).length_le.trans
    (by simpa using (List.dropWhile_sublist isBlank (l := cs)).length_le)

/-- Where nothing is trimmed, no white space stands at the ends. -/
theorem ends_of_length_trim {cs : List Char} (h : (trim cs).length = cs.length) :
    (∀ c, cs.head? = some c → isBlank c = false) ∧ ∀ c, cs.getLast? = some c → isBlank c = false := by
  have hhead : ∀ ds : List Char, ds.dropWhile isBlank = ds →
      ∀ c, ds.head? = some c → isBlank c = false := by
    intro ds hds c hc
    cases ds with
    | nil => exact absurd hc (by simp)
    | cons d ds =>
        obtain rfl : d = c := by simpa using hc
        by_contra hblank
        rw [List.dropWhile_cons_of_pos (by simpa using hblank)] at hds
        have hlength := (List.dropWhile_sublist isBlank (l := ds)).length_le
        rw [hds, List.length_cons] at hlength
        omega
  have hfront := (List.dropWhile_sublist isBlank (l := cs)).length_le
  have hback := (List.dropWhile_sublist isBlank (l := (cs.dropWhile isBlank).reverse)).length_le
  rw [trim, stripChars, List.length_reverse] at h
  rw [List.length_reverse] at hback
  have heq : cs.dropWhile isBlank = cs := (List.dropWhile_sublist _).eq_of_length (by omega)
  rw [heq] at h
  have heq' : cs.reverse.dropWhile isBlank = cs.reverse :=
    (List.dropWhile_sublist _).eq_of_length (by rw [h, List.length_reverse])
  exact ⟨hhead cs heq, fun c hc => hhead cs.reverse heq' c (by rwa [List.head?_reverse])⟩

theorem length_of_unquoted? {cs inner : List Char} (h : unquoted? cs = some inner) :
    inner.length + 2 = cs.length := by
  cases cs with
  | nil => exact absurd h (by simp [unquoted?])
  | cons q cs =>
      rw [unquoted?] at h
      split at h
      · rename_i hquoted
        have hne : cs ≠ [] := by
          rintro rfl
          exact absurd hquoted.2 (by simp)
        have hpos := List.length_pos_iff.mpr hne
        rw [← Option.some.inj h, List.length_dropLast, List.length_cons]
        omega
      · exact absurd h (by simp)

theorem isPrefix_beforeComment (cs : List Char) : beforeComment cs <+: cs := by
  induction cs with
  | nil => exact List.prefix_refl _
  | cons c cs ih =>
      rw [beforeComment]
      split
      · exact List.nil_prefix
      · exact List.cons_prefix_cons.mpr ⟨rfl, ih⟩

/-- A text is left whole exactly when it has no comment. -/
theorem beforeComment_eq_iff {cs : List Char} : beforeComment cs = cs ↔ ¬ [' ', '#'] <:+: cs := by
  induction cs with
  | nil => simp [beforeComment]
  | cons c cs ih =>
      rw [beforeComment, List.infix_cons_iff, not_or]
      have hfront : [' ', '#'] <+: c :: cs ↔ c = ' ' ∧ cs.head? = some '#' := by
        rw [List.cons_prefix_cons, eq_comm]
        refine and_congr_right fun _ => ?_
        cases cs with
        | nil => simp
        | cons d ds => simp [eq_comm]
      rw [hfront]
      split
      · rename_i hcut
        exact iff_of_false (List.cons_ne_nil c cs).symm fun hand => hand.1 hcut
      · rename_i hcut
        rw [List.cons_inj_right, ih]
        exact (and_iff_right hcut).symm

section Interpolation

variable {vars : List Char → List Char}

theorem interpolateFrom_eq_drop (skip : Nat) (cs : List Char) :
    interpolateFrom vars skip cs = interpolate vars (cs.drop skip) := by
  induction skip generalizing cs with
  | zero => rfl
  | succ skip ih =>
      cases cs with
      | nil => rfl
      | cons c cs => exact ih cs

theorem interpolate_cons {c : Char} {cs : List Char} (h : c = '$' → reference? cs = none) :
    interpolate vars (c :: cs) = c :: interpolate vars cs := by
  rw [interpolate, interpolateFrom]
  split
  · rename_i hc
    rw [h hc]
    rfl
  · rfl

theorem interpolate_reference {cs name : List Char} {taken : Nat}
    (h : reference? cs = some (name, taken)) :
    interpolate vars ('$' :: cs) = vars name ++ interpolate vars (cs.drop taken) := by
  rw [interpolate, interpolateFrom, if_pos rfl, h]
  simp only [interpolateFrom_eq_drop]

theorem noReference_cons {c : Char} {cs : List Char} :
    NoReference (c :: cs) ↔ (c = '$' → reference? cs = none) ∧ NoReference cs := by
  constructor
  · intro h
    exact ⟨fun hc => h [] cs (by rw [hc]; rfl), fun front rest heq =>
      h (c :: front) rest (by rw [heq]; rfl)⟩
  · rintro ⟨hhead, htail⟩ front rest heq
    cases front with
    | nil =>
        obtain ⟨rfl, rfl⟩ := List.cons.inj heq
        exact hhead rfl
    | cons d front => exact htail front rest (List.cons.inj heq).2

theorem interpolate_eq_self {cs : List Char} (h : NoReference cs) : interpolate vars cs = cs := by
  induction cs with
  | nil => rfl
  | cons c cs ih =>
      obtain ⟨hhead, htail⟩ := noReference_cons.mp h
      rw [interpolate_cons hhead, ih htail]

/-- Without variables a text loses its references. -/
theorem length_interpolate_le (cs : List Char) :
    (interpolate (fun _ => []) cs).length ≤ cs.length ∧
      ((interpolate (fun _ => []) cs).length = cs.length → NoReference cs) := by
  induction hn : cs.length using Nat.strong_induction_on generalizing cs with
  | _ n ih =>
      cases cs with
      | nil => exact ⟨Nat.zero_le _, fun _ front rest heq => by simp at heq⟩
      | cons c cs =>
          rw [List.length_cons] at hn
          by_cases hhead : c = '$' → reference? cs = none
          · obtain ⟨hle, heq⟩ := ih cs.length (by omega) cs rfl
            rw [interpolate_cons hhead, List.length_cons]
            exact ⟨by omega, fun h => noReference_cons.mpr ⟨hhead, heq (by omega)⟩⟩
          · push Not at hhead
            obtain ⟨rfl, hsome⟩ := hhead
            obtain ⟨⟨name, taken⟩, href⟩ := Option.ne_none_iff_exists'.mp hsome
            obtain ⟨hle, -⟩ := ih (cs.drop taken).length
              (by rw [List.length_drop]; omega) (cs.drop taken) rfl
            rw [interpolate_reference href, List.nil_append]
            rw [List.length_drop] at hle
            exact ⟨by omega, fun h => absurd h (by omega)⟩

end Interpolation

/-- A value comes back as it was written, whatever the variables are, exactly when it is
literal. -/
theorem valueOf_eq_iff {cs : List Char} : (∀ vars, valueOf vars cs = cs) ↔ Literal cs := by
  constructor
  · intro h
    -- without variables every step of the reader makes a text shorter or leaves it
    have hvalue := congrArg List.length (h fun _ => [])
    rw [valueOf] at hvalue
    have htrim := length_trim_le cs
    cases hquoted : unquoted? (trim cs) with
    | some inner =>
        rw [hquoted, Option.getD_some] at hvalue
        have hinner := length_of_unquoted? hquoted
        have hle := (length_interpolate_le inner).1
        omega
    | none =>
        rw [hquoted, Option.getD_none] at hvalue
        have hle := length_interpolate_le (trim (beforeComment (trim cs)))
        have hcut := (isPrefix_beforeComment (trim cs)).length_le
        have hright := length_trim_le (beforeComment (trim cs))
        obtain ⟨first, last⟩ := @ends_of_length_trim cs (by omega)
        rw [trim_eq_self first last] at hle hcut hright hquoted hvalue
        have hwhole : beforeComment cs = cs := (isPrefix_beforeComment cs).eq_of_length (by omega)
        rw [hwhole, trim_eq_self first last] at hle hvalue
        exact ⟨first, last, hquoted, beforeComment_eq_iff.mp hwhole, hle.2 hvalue⟩
  · intro h vars
    rw [valueOf, trim_eq_self h.first h.last]
    simp only [h.unquoted, Option.getD_none, beforeComment_eq_iff.mpr h.uncut,
      trim_eq_self h.first h.last, interpolate_eq_self h.noReference]

/-! ### Reading assignments back -/

/-- A name that a line can begin with. -/
structure IsName (name : List Char) : Prop where
  ne_nil : name ≠ []
  chars : ∀ c ∈ name, isBlank c = false ∧ c ≠ '=' ∧ c ≠ '#' ∧ c ≠ '\n'

/-- A line is read as the assignment it is. -/
theorem parse_assignment {vars : List Char → List Char} {name value : List Char} (h : IsName name)
    (hvalue : '\n' ∉ value) (text : List Char) :
    parse vars (assignment name value ++ '\n' :: text) =
      (name, valueOf vars value) :: parse vars text := by
  have hfeed : '\n' ∉ assignment name value := by
    rw [assignment, List.mem_append, List.mem_cons, not_or, not_or]
    exact ⟨fun hmem => (h.chars _ hmem).2.2.2 rfl, by decide, hvalue⟩
  obtain ⟨c, cs, hcs⟩ := List.exists_cons_of_ne_nil h.ne_nil
  have hfirst := h.chars c (hcs ▸ List.mem_cons_self)
  have hdrop : (assignment name value).dropWhile isBlank = assignment name value := by
    rw [assignment, hcs, List.cons_append, List.dropWhile_cons_of_neg (by simp [hfirst.1])]
  have hequals : ∀ d ∈ name, (d ≠ '=') = true := fun d hd => by simpa using (h.chars d hd).2.1
  have hname : before '=' (assignment name value) = name := by
    rw [before, assignment, List.takeWhile_append_of_pos (by simpa using hequals)]
    simp
  have hafter : ((assignment name value).dropWhile (· ≠ '=')).drop 1 = value := by
    rw [assignment, List.dropWhile_append_of_pos (by simpa using hequals)]
    simp
  have htrim : trim name = name := by
    refine trim_eq_self (fun d hd => ?_) fun d hd => ?_
    · exact (h.chars d (List.mem_of_mem_head? hd)).1
    · exact (h.chars d (List.mem_of_mem_getLast? hd)).1
  have hline : ¬ (assignment name value = [] ∨ (assignment name value).head? = some '#' ∨
      '=' ∉ assignment name value) := by
    rw [assignment, hcs, List.cons_append]
    simp [hfirst.2.2.1]
  rw [parse, Segments.splitOn_append hfeed, Segments.splitOn_cons_self]
  rw [List.modifyHead_cons, List.append_nil, List.filterMap_cons, hdrop, if_neg hline, hname, hafter,
    htrim]
  rfl

/-- A file of assignments is read assignment by assignment. -/
theorem parse_joinLines {vars : List Char → List Char} {entries : List (List Char × List Char)}
    (h : ∀ p ∈ entries, IsName p.1 ∧ '\n' ∉ p.2) :
    parse vars (joinLines (entries.map fun p => assignment p.1 p.2)) =
      entries.map fun p => (p.1, valueOf vars p.2) := by
  induction entries with
  | nil => rfl
  | cons p entries ih =>
      obtain ⟨hname, hvalue⟩ := h p List.mem_cons_self
      rw [List.map_cons, joinLines, List.flatMap_cons, List.append_assoc, List.singleton_append,
        parse_assignment hname hvalue, ← joinLines, ih fun q hq => h q (List.mem_cons_of_mem p hq)]
      rfl

end EnvFile
