import Mathlib.Data.List.TakeWhile
import Ophelia.Domain.Reference
import Ophelia.Lib.Percent
import Ophelia.Lib.Urls
import Ophelia.Products.Identity

/-!
# Ophelia.Products.DrillDatabases

The database that a restore drill may overwrite (`product_recovery.py`). `pg_restore --clean` is
given a URL, and the drill checks before that the path of the URL ends with a suffix of its own.
The check takes the URL apart as Python does; libpq takes it apart again, lets a query parameter
override the path, knows no fragments, and keeps what Python drops.
-/

namespace Ophelia

open Urls

/-! ### The check -/

/-- What may follow the first character of a recovery identifier. -/
def isRecoveryChar (c : Char) : Bool :=
  c.isAlphanum || c == '.' || c == '_' || c == '-'

/-- `_RECOVERY_ID`. -/
def isRecoveryId : List Char → Bool
  | [] => false
  | c :: cs => c.isAlphanum && cs.all isRecoveryChar && decide (cs.length ≤ 95)

abbrev RecoveryId := Refined isRecoveryId

section Check

variable [Platform]

/-- A drill as its database names it. -/
def normalizedDrill (drillId : String) : List Char :=
  (slug drillId).toList.map fun c => if c = '-' then '_' else c

/-- What the name of the database of a drill ends with. -/
def drillSuffix (drillId : String) : List Char :=
  "_ophelia_drill_".toList ++ normalizedDrill drillId

/-- `_isolated_postgres_target`. -/
def isolatedPostgresTarget (checks : NetlocChecks) (databaseUrl : Option String)
    (drillId : String) : Bool :=
  match databaseUrl with
  | none => false
  | some url =>
      if url = "" ∨ Char.ofNat 0 ∈ url.toList then false
      else
        match urlsplit checks url.toList with
        | none => false
        | some parsed =>
            let database := parsed.path.dropWhile fun c => c = '/'
            (parsed.scheme == "postgres".toList || parsed.scheme == "postgresql".toList) &&
              !parsed.hostname.isEmpty && !database.isEmpty &&
              (drillSuffix drillId).isSuffixOf database

/-- The tools of a restore, and how their runs end: without a result where a tool cannot be run,
and with what `int` reads of the output. -/
structure PostgresTools where
  pgRestore : Option String
  psql : Option String
  restored : Option Int
  verified : Option (Int × Option Int)

/-- A command, and the database it is given. -/
structure PostgresCommand where
  arguments : List String
  pgDatabase : String

/-- `_restore_postgresql`: the commands it runs, and how it ends. -/
def restorePostgresql (checks : NetlocChecks) (tools : PostgresTools) (archive : String)
    (databaseUrl : Option String) (drillId : String) : List PostgresCommand × Except String Unit :=
  if isolatedPostgresTarget checks databaseUrl drillId = false then
    ([], .error "PostgreSQL restore target is not drill-isolated.")
  else
    match tools.pgRestore, tools.psql with
    | some pgRestore, some psql =>
        let url := databaseUrl.getD "None"
        let restore : PostgresCommand :=
          ⟨[pgRestore, "--clean", "--if-exists", "--no-owner", "--exit-on-error", archive], url⟩
        let verify : PostgresCommand :=
          ⟨[psql, "--no-psqlrc", "--tuples-only", "--no-align", "--command",
            "SELECT count(*) FROM goose_db_version WHERE is_applied = true;"], url⟩
        match tools.restored with
        | none => ([restore], .error "PostgreSQL provider restore failed.")
        | some code =>
            if code ≠ 0 then ([restore], .error "PostgreSQL provider restore failed.")
            else
              match tools.verified with
              | none => ([restore, verify], .error "PostgreSQL provider restore failed.")
              | some (code, count) =>
                  if code ≠ 0 ∨ count.getD 0 < 1 then
                    ([restore, verify],
                      .error "PostgreSQL restore did not retain applied migration evidence.")
                  else ([restore, verify], .ok ())
    | _, _ => ([], .error "PostgreSQL restore tools are unavailable.")

end Check

/-! ### What libpq connects to -/

/-- Behind the prefix of a connection URI. -/
def uriRest (url : List Char) : Option (List Char) :=
  if "postgres://".toList.isPrefixOf url then some (url.drop 11)
  else if "postgresql://".toList.isPrefixOf url then some (url.drop 13)
  else none

/-- Behind the user and the password, which may hold question marks. -/
def uriHosts (rest : List Char) : List Char :=
  if '@' ∈ rest.takeWhile fun c => c ≠ '/' then (cut '@' rest).2 else rest

/-- The path behind the authority, and the query. -/
def uriParts (rest : List Char) : List Char × List Char :=
  match (uriHosts rest).dropWhile fun c => c ≠ '/' && c ≠ '?' with
  | '/' :: cs => cut '?' cs
  | cs => ([], cs.drop 1)

/-- Percent-decoded; a malformed escape and a NUL are refused. -/
def uriDecode (cs : List Char) : Option (List Nat) :=
  (Percent.decode? cs).filter fun bytes => 0 ∉ bytes

/-- One parameter of a query: a keyword and a value. -/
def uriParameter (part : List Char) : Option (List Nat × List Nat) := do
  let (keyword, value) := cut '=' part
  if '=' ∉ part ∨ '=' ∈ value then none
  else return (← uriDecode keyword, ← uriDecode value)

/-- The parameters of a query. -/
def uriParameters (query : List Char) : Option (List (List Nat × List Nat)) :=
  let parts := query.splitOn '&'
  (if parts.getLast? = some [] then parts.dropLast else parts).mapM uriParameter

/-- The bytes of a text, where a character beyond ASCII counts as one. -/
def bytesOf (cs : List Char) : List Nat := cs.map Char.toNat

/-- The last value of a keyword. -/
def lastParameter (keyword : String) (parameters : List (List Nat × List Nat)) :
    Option (List Nat) :=
  ((parameters.filter fun p => p.1 = bytesOf keyword.toList).getLast?).map Prod.snd

/-- The blanks of a list of settings. -/
def isSettingSpace (c : Char) : Bool :=
  c == ' ' || (decide (9 ≤ c.toNat) && decide (c.toNat ≤ 13))

def isKeywordChar (c : Char) : Bool := c.isLower || c == '_'

/-- Whether a text begins with a keyword and an equals sign, as a list of settings has to. -/
def beginsAsSettings (text : List Char) : Bool :=
  (((text.dropWhile isSettingSpace).dropWhile isKeywordChar).dropWhile isSettingSpace).head? =
    some '='

/-- The database that a connection text names: for a URI its path, unless the query has a
parameter `dbname`; a text that is neither a URI nor a list of settings is itself the name. -/
def namedDatabase (settings : List Char → Option (List Nat)) (url : List Char) :
    Option (List Nat) :=
  match uriRest url with
  | none =>
      if '=' ∉ url then some (bytesOf url)
      else if beginsAsSettings url then settings url
      else none
  | some rest => do
      let path ← uriDecode (uriParts rest).1
      let parameters ← uriParameters (uriParts rest).2
      return (lastParameter "dbname" parameters).getD path

/-- libpq: the database that it is told to connect to, if it accepts the text. An empty name
stands for the user's own, and what a list of settings names is left open. -/
structure Libpq where
  database : String → Option (List Nat)
  settings : List Char → Option (List Nat)
  documented : ∀ url name, database url = some name →
    namedDatabase settings url.toList = some name

/-! ### Isolation -/

section Isolation

variable [Platform]

/-- A URL that is accepted for the first drill leads into a database of that drill, nothing is
restored into another one, and no URL is accepted for both of two drills. -/
structure DrillIsolated (checks : NetlocChecks) (libpq : Libpq) (url : String)
    (first second : RecoveryId) : Prop where
  target : isolatedPostgresTarget checks (some url) first.val = true →
    ∀ name, libpq.database url = some name → bytesOf (drillSuffix first.val) <:+ name
  restored : ∀ tools archive,
    ∀ command ∈ (restorePostgresql checks tools archive (some url) first.val).1,
    ∀ name, libpq.database command.pgDatabase = some name →
      bytesOf (drillSuffix first.val) <:+ name
  apart : normalizedDrill first.val ≠ normalizedDrill second.val → ∀ other,
    ¬ (isolatedPostgresTarget checks (some other) first.val = true ∧
      isolatedPostgresTarget checks (some other) second.val = true)

/-- The last value of `dbname` ends with the suffix; without one the path does, as it stands in the
text, or, if it holds a number sign, decoded. -/
def NamesDrill (url suffix : List Char) : Prop :=
  match uriRest url with
  | none => suffix <:+ url
  | some rest =>
      match (uriParameters (uriParts rest).2).bind (lastParameter "dbname") with
      | some value => bytesOf suffix <:+ value
      | none =>
          if '#' ∈ (uriParts rest).1 then
            ∃ name, uriDecode (uriParts rest).1 = some name ∧ bytesOf suffix <:+ name
          else suffix <:+ (uriParts rest).1

/-! ### Suffixes -/

/-- A letter of a drill's suffix. -/
def IsPlain (c : Char) : Prop := c.isAlphanum = true ∨ c = '_'

theorem mem_drillSuffix {drillId : String} {c : Char} (h : c ∈ drillSuffix drillId) : IsPlain c := by
  rcases List.mem_append.mp h with h | h
  · have hall : ∀ c ∈ "_ophelia_drill_".toList, c.isAlphanum = true ∨ c = '_' :=
      List.forall_iff_forall_mem.mp (by decide)
    exact hall c h
  · obtain ⟨d, hd, rfl⟩ := List.mem_map.mp h
    by_cases hyphen : d = '-'
    · rw [if_pos hyphen]
      exact .inr rfl
    · rw [if_neg hyphen]
      exact .inl ((mem_slug hd).resolve_right hyphen)

omit [Platform] in
theorem IsPlain.ne {c d : Char} (h : IsPlain c) (hd : d.isAlphanum = false) (hd' : d ≠ '_') :
    c ≠ d := by
  rintro rfl
  rcases h with h | h
  · rw [hd] at h
    cases h
  · exact hd' h

theorem drillSuffix_eq (drillId : String) : ∃ rest, drillSuffix drillId = '_' :: rest :=
  ⟨"ophelia_drill_".toList ++ normalizedDrill drillId, rfl⟩

omit [Platform] in
theorem bytesOf_suffix_iff {s l : List Char} : bytesOf s <:+ bytesOf l ↔ s <:+ l := by
  constructor
  · rintro ⟨front, h⟩
    obtain ⟨l₁, l₂, rfl, -, hback⟩ := List.map_eq_append_iff.mp h.symm
    have heq : l₂ = s := List.map_injective_iff.mpr (fun _ _ h => Char.toNat_inj.mp h) hback
    exact heq ▸ List.suffix_append l₁ l₂
  · exact fun h => h.map _

omit [Platform] in
/-- A suffix that Python finds after it has dropped characters is the suffix of the decoded text
exactly if none of them stood in it. -/
theorem suffix_decode_iff {suffix cs : List Char} {rest : List Char} (heq : suffix = '_' :: rest)
    (hplain : ∀ c ∈ suffix, IsPlain c) (h : suffix <:+ cs.filter fun c => !isRemoved c)
    {name : List Nat} (hname : uriDecode cs = some name) :
    bytesOf suffix <:+ name ↔ suffix <:+ cs := by
  subst heq
  obtain ⟨front, back, rfl, hback⟩ := exists_of_suffix_filter h
  have hlength : ('_' :: rest).length ≤ ('_' :: back).length :=
    hback ▸ List.length_filter_le _ _
  have hpercent : '%' ∉ '_' :: back := by
    intro hmem
    have hkept : '%' ∈ ('_' :: back).filter fun c => !isRemoved c :=
      List.mem_filter.mpr ⟨hmem, by decide⟩
    rw [hback] at hkept
    exact (hplain _ hkept).ne (by decide) (by decide) rfl
  obtain ⟨hdecoded, -⟩ := Option.filter_eq_some_iff.mp hname
  obtain ⟨before, rfl⟩ := Percent.decode?_append (by decide) hpercent hdecoded
  have hshort : ∀ {α : Type} {s x y : List α}, s.length ≤ y.length → (s <:+ x ++ y ↔ s <:+ y) :=
    fun hle => ⟨fun hs => List.suffix_of_suffix_length_le hs (List.suffix_append _ _) hle,
      fun hs => hs.trans (List.suffix_append _ _)⟩
  rw [hshort (by simpa [bytesOf] using hlength), hshort hlength]
  exact bytesOf_suffix_iff

/-! ### Accepted texts -/

omit [Platform] in
theorem splitScheme_of_uriRest {url rest : List Char} (h : uriRest url = some rest) :
    (splitScheme (cleaned url)).2 = '/' :: '/' :: rest.filter fun c => !isRemoved c := by
  unfold uriRest at h
  split at h
  · rename_i hprefix
    obtain ⟨tail, rfl⟩ := List.isPrefixOf_iff_prefix.mp hprefix
    obtain rfl := Option.some.inj h
    rfl
  · split at h
    · rename_i hprefix
      obtain ⟨tail, rfl⟩ := List.isPrefixOf_iff_prefix.mp hprefix
      obtain rfl := Option.some.inj h
      rfl
    · cases h

omit [Platform] in
theorem path_of_urlsplit {checks : NetlocChecks} {url : List Char} {parsed : SplitResult}
    (h : urlsplit checks url = some parsed) :
    parsed.path = ((splitNetloc (splitScheme (cleaned url)).2).2.takeWhile fun c => c ≠ '#').takeWhile
      fun c => c ≠ '?' := by
  unfold urlsplit at h
  simp only at h
  split at h
  · cases h
  · obtain rfl := Option.some.inj h
    rfl

omit [Platform] in
theorem scheme_of_urlsplit {checks : NetlocChecks} {url : List Char} {parsed : SplitResult}
    (h : urlsplit checks url = some parsed) :
    parsed.scheme = (splitScheme (cleaned url)).1 := by
  unfold urlsplit at h
  simp only at h
  split at h
  · cases h
  · obtain rfl := Option.some.inj h
    rfl

omit [Platform] in
/-- Before the first colon of a text with this scheme stands no equals sign. -/
theorem before_colon {url : List Char}
    (h : (splitScheme (cleaned url)).1 = "postgres".toList ∨
      (splitScheme (cleaned url)).1 = "postgresql".toList) :
    ∃ before after, url = before ++ ':' :: after ∧ '=' ∉ before := by
  unfold splitScheme at h
  simp only at h
  split at h
  · rename_i hcolon
    have hcolon : ':' ∈ url := by
      have hmem := List.mem_of_mem_filter hcolon.1
      exact (List.dropWhile_sublist _).mem hmem
    obtain ⟨before, after, rfl, hbefore⟩ := List.eq_append_cons_of_mem hcolon
    refine ⟨before, after, rfl, fun hequals => ?_⟩
    have hmem : '=' ∈ (cleaned (before ++ ':' :: after)).takeWhile fun c => c ≠ ':' := by
      obtain ⟨front, back, rfl⟩ := List.append_of_mem hequals
      have hkept : ∀ c : Char, decide (c ≠ ':') = false → (!isRemoved c) = true := by
        intro c hc
        rw [decide_eq_false_iff_not, not_not] at hc
        subst hc
        decide
      have hback : ∀ c ∈ '=' :: back, decide (c ≠ ':') = true := fun c hc =>
        decide_eq_true (ne_of_mem_of_not_mem (List.mem_append_right front hc) hbefore)
      have hfront : ∀ c ∈ front, decide (c ≠ ':') = true := fun c hc =>
        decide_eq_true (ne_of_mem_of_not_mem (List.mem_append_left _ hc) hbefore)
      have hdrop : (front ++ '=' :: back ++ ':' :: after).dropWhile isControlOrSpace =
          front.dropWhile isControlOrSpace ++ '=' :: (back ++ ':' :: after) := by
        rw [List.append_assoc, List.cons_append, List.dropWhile_append]
        split
        · rename_i hempty
          rw [List.isEmpty_iff.mp hempty, List.dropWhile_cons_of_neg (by decide)]
          rfl
        · rfl
      unfold cleaned
      rw [takeWhile_filter hkept, hdrop]
      refine List.mem_filter.mpr ⟨?_, by decide⟩
      rw [List.takeWhile_append_of_pos fun c hc => hfront c ((List.dropWhile_sublist _).mem hc)]
      refine List.mem_append_right _ ?_
      rw [List.takeWhile_cons_of_pos (by decide)]
      exact List.mem_cons_self
    have hlower := List.mem_map_of_mem (f := Char.toLower) hmem
    change List.map Char.toLower _ = _ ∨ List.map Char.toLower _ = _ at h
    rcases h with h | h
    · rw [h] at hlower
      revert hlower
      decide
    · rw [h] at hlower
      revert hlower
      decide
  · rcases h with h | h <;> cases h

theorem accepted_iff {checks : NetlocChecks} {url drillId : String} :
    isolatedPostgresTarget checks (some url) drillId = true ↔
      ∃ parsed, urlsplit checks url.toList = some parsed ∧ url ≠ "" ∧ Char.ofNat 0 ∉ url.toList ∧
        (parsed.scheme = "postgres".toList ∨ parsed.scheme = "postgresql".toList) ∧
        parsed.hostname ≠ [] ∧ drillSuffix drillId <:+ parsed.path.dropWhile fun c => c = '/' := by
  obtain ⟨tail, hdrill⟩ := drillSuffix_eq drillId
  have hnonempty : ∀ {l : List Char}, drillSuffix drillId <:+ l → l ≠ [] := by
    rintro l h rfl
    rw [hdrill] at h
    cases List.suffix_nil.mp h
  unfold isolatedPostgresTarget
  simp only
  split
  · rename_i hbad
    simp only [Bool.false_eq_true, false_iff, not_exists]
    rintro parsed ⟨-, hne, hnul, -⟩
    exact hbad.elim hne hnul
  · rename_i hgood
    rw [not_or] at hgood
    split
    · rename_i hnone
      simp [hnone]
    · rename_i parsed hparsed
      simp only [Bool.and_eq_true, Bool.or_eq_true, beq_iff_eq, Bool.not_eq_true',
        List.isEmpty_eq_false_iff, List.isSuffixOf_iff_suffix]
      constructor
      · rintro ⟨⟨⟨hscheme, hhost⟩, -⟩, hsuffix⟩
        exact ⟨parsed, hparsed, hgood.1, hgood.2, hscheme, hhost, hsuffix⟩
      · rintro ⟨other, hother, -, -, hscheme, hhost, hsuffix⟩
        obtain rfl : parsed = other := Option.some.inj (hparsed.symm.trans hother)
        exact ⟨⟨⟨hscheme, hhost⟩, hnonempty hsuffix⟩, hsuffix⟩

omit [Platform] in
/-- Where a slash ends the authority for Python, it does for libpq. -/
theorem uriParts_of_slash {rest before more : List Char} (heq : rest = before ++ '/' :: more)
    (h : ∀ c ∈ before, c ≠ '/' ∧ c ≠ '?') : uriParts rest = cut '?' more := by
  subst heq
  have hbehind : ∀ front : List Char, (∀ c ∈ front, c ≠ '/' ∧ c ≠ '?') →
      (front ++ '/' :: more).dropWhile (fun c => c ≠ '/' && c ≠ '?') = '/' :: more := by
    intro front hfront
    rw [List.dropWhile_append_of_pos fun c hc => by simpa using hfront c hc]
    rfl
  have hhosts : (uriHosts (before ++ '/' :: more)).dropWhile (fun c => c ≠ '/' && c ≠ '?') =
      '/' :: more := by
    unfold uriHosts
    split
    · rename_i hat
      rw [List.takeWhile_append_of_pos fun c hc => decide_eq_true (h c hc).1] at hat
      have hat : '@' ∈ before := by
        rcases List.mem_append.mp hat with hat | hat
        · exact hat
        · cases hat
      obtain ⟨user, hosts, hbefore, huser⟩ := List.eq_append_cons_of_mem hat
      have hcut : (cut '@' (before ++ '/' :: more)).2 = hosts ++ '/' :: more := by
        unfold cut
        rw [hbefore, List.append_assoc, List.cons_append,
          List.dropWhile_append_of_pos fun c hc => decide_eq_true (ne_of_mem_of_not_mem hc huser)]
        rfl
      rw [hcut]
      refine hbehind hosts fun c hc => h c ?_
      rw [hbefore]
      exact List.mem_append_right _ (List.mem_cons_of_mem _ hc)
    · exact hbehind before h
  unfold uriParts
  rw [hhosts]
  rfl

/-- Where a URI is accepted, its path in the sense of libpq ends with the suffix, but for what
Python drops; if it holds no number sign. -/
theorem suffix_of_uri {checks : NetlocChecks} {url drillId : String} {rest : List Char}
    (hrest : uriRest url.toList = some rest)
    (h : isolatedPostgresTarget checks (some url) drillId = true)
    (hmark : '#' ∉ (uriParts rest).1) :
    drillSuffix drillId <:+ (uriParts rest).1.filter fun c => !isRemoved c := by
  obtain ⟨parsed, hparsed, -, -, -, -, hsuffix⟩ := accepted_iff.mp h
  obtain ⟨tail, hdrill⟩ := drillSuffix_eq drillId
  have hpath := path_of_urlsplit hparsed
  rw [splitScheme_of_uriRest hrest] at hpath
  have hne : parsed.path ≠ [] := by
    intro hnil
    rw [hnil, hdrill] at hsuffix
    cases List.suffix_nil.mp hsuffix
  have hkept : ∀ c, (c ≠ '/' && c ≠ '?' && c ≠ '#') = false → (!isRemoved c) = true := by
    intro c hc
    simp only [Bool.and_eq_false_iff, decide_not, Bool.not_eq_false',
      decide_eq_true_eq] at hc
    rcases hc with (rfl | rfl) | rfl <;> decide
  have hraw : (splitNetloc ('/' :: '/' :: rest.filter fun c => !isRemoved c)).2 =
      (rest.dropWhile fun c => c ≠ '/' && c ≠ '?' && c ≠ '#').filter fun c => !isRemoved c :=
    dropWhile_filter hkept
  rw [hraw] at hpath
  cases hbehind : rest.dropWhile fun c => c ≠ '/' && c ≠ '?' && c ≠ '#' with
  | nil =>
      rw [hbehind] at hpath
      exact absurd hpath hne
  | cons x more =>
      rw [hbehind] at hpath
      have hx := List.head?_dropWhile_not (fun c => c ≠ '/' && c ≠ '?' && c ≠ '#') rest
      rw [hbehind] at hx
      change (x ≠ '/' && x ≠ '?' && x ≠ '#') = false at hx
      rw [List.filter_cons_of_pos (p := fun c => !isRemoved c) (hkept x hx)] at hpath
      have hslash : x = '/' := by
        simp only [Bool.and_eq_false_iff, decide_not, Bool.not_eq_false', decide_eq_true_eq] at hx
        rcases hx with (hx | rfl) | rfl
        · exact hx
        · exact absurd hpath hne
        · exact absurd hpath hne
      subst hslash
      have hparts : uriParts rest = cut '?' more := by
        have hsplit := List.takeWhile_append_dropWhile
          (p := fun c => c ≠ '/' && c ≠ '?' && c ≠ '#') (l := rest)
        rw [hbehind] at hsplit
        refine uriParts_of_slash hsplit.symm fun c hc => ?_
        have hc := List.mem_takeWhile_imp hc
        simp only [Bool.and_eq_true, decide_eq_true_eq] at hc
        exact hc.1
      rw [hparts] at hmark ⊢
      have hwhole : parsed.path = '/' :: (cut '?' more).1.filter fun c => !isRemoved c := by
        have hcut : ∀ mark : Char, isRemoved mark = false →
            ∀ l : List Char, (l.filter fun c => !isRemoved c).takeWhile (fun c => c ≠ mark) =
              (l.takeWhile fun c => c ≠ mark).filter fun c => !isRemoved c := by
          intro mark hmark l
          refine takeWhile_filter fun c hc => ?_
          rw [decide_eq_false_iff_not, not_not] at hc
          rw [hc, hmark]
          rfl
        have hnone : (more.takeWhile fun c => c ≠ '#').takeWhile (fun c => c ≠ '?') =
            more.takeWhile fun c => c ≠ '?' := by
          have hswap : (more.takeWhile fun c => c ≠ '#').takeWhile (fun c => c ≠ '?') =
              (more.takeWhile fun c => c ≠ '?').takeWhile fun c => c ≠ '#' := by
            rw [List.takeWhile_takeWhile, List.takeWhile_takeWhile]
            simp only [and_comm]
          rw [hswap, List.takeWhile_eq_self_iff]
          exact fun c hc => decide_eq_true fun heq => hmark (heq ▸ hc)
        rw [hpath]
        change '/' :: ((more.filter fun c => !isRemoved c).takeWhile fun c => c ≠ '#').takeWhile
          (fun c => c ≠ '?') = _
        rw [hcut '#' (by decide), hcut '?' (by decide), hnone]
        rfl
      rw [hwhole] at hsuffix
      change drillSuffix drillId <:+
        List.dropWhile _ ((cut '?' more).1.filter fun c => !isRemoved c) at hsuffix
      exact hsuffix.trans (List.dropWhile_suffix _)

/-- A text without the prefix of a URI that is accepted is no list of settings. -/
theorem not_beginsAsSettings {checks : NetlocChecks} {url drillId : String}
    (h : isolatedPostgresTarget checks (some url) drillId = true) :
    beginsAsSettings url.toList = false := by
  obtain ⟨parsed, hparsed, -, -, hscheme, -, -⟩ := accepted_iff.mp h
  have hparts : parsed.scheme = (splitScheme (cleaned url.toList)).1 := scheme_of_urlsplit hparsed
  rw [hparts] at hscheme
  obtain ⟨before, after, hurl, hequals⟩ := before_colon hscheme
  -- Nothing that is skipped reaches beyond the colon.
  have hskip : ∀ (p : Char → Bool), p ':' = false → ∀ l : List Char, '=' ∉ l →
      ∃ l', '=' ∉ l' ∧ (l ++ ':' :: after).dropWhile p = l' ++ ':' :: after := by
    intro p hp l hl
    refine ⟨l.dropWhile p, fun hmem => hl ((List.dropWhile_sublist p).mem hmem), ?_⟩
    rw [List.dropWhile_append]
    split
    · rename_i hempty
      rw [List.isEmpty_iff.mp hempty, List.dropWhile_cons_of_neg (by simp [hp])]
      rfl
    · rfl
  unfold beginsAsSettings
  rw [hurl]
  obtain ⟨first, hfirst, heq⟩ := hskip isSettingSpace (by decide) before hequals
  rw [heq]
  obtain ⟨second, hsecond, heq⟩ := hskip isKeywordChar (by decide) first hfirst
  rw [heq]
  obtain ⟨third, hthird, heq⟩ := hskip isSettingSpace (by decide) second hsecond
  rw [heq, decide_eq_false_iff_not]
  intro hhead
  cases third with
  | nil => cases hhead
  | cons c third => exact hthird (Option.some.inj hhead ▸ List.mem_cons_self)

/-- What an accepted URL leads to. -/
theorem names_iff {checks : NetlocChecks} {settings : List Char → Option (List Nat)}
    {url drillId : String} (h : isolatedPostgresTarget checks (some url) drillId = true)
    {name : List Nat} (hname : namedDatabase settings url.toList = some name) :
    bytesOf (drillSuffix drillId) <:+ name ↔ NamesDrill url.toList (drillSuffix drillId) := by
  unfold namedDatabase at hname
  unfold NamesDrill
  cases hrest : uriRest url.toList with
  | none =>
      simp only [hrest, not_beginsAsSettings h] at hname
      split at hname
      · obtain rfl := Option.some.inj hname
        exact bytesOf_suffix_iff
      · cases hname
  | some rest =>
      simp only [hrest] at hname
      obtain ⟨path, hpath, hname⟩ := Option.bind_eq_some_iff.mp hname
      obtain ⟨parameters, hparameters, hname⟩ := Option.bind_eq_some_iff.mp hname
      obtain rfl := Option.some.inj hname
      simp only [hparameters, Option.bind_some]
      cases lastParameter "dbname" parameters with
      | some value => exact Iff.rfl
      | none =>
          by_cases hmark : '#' ∈ (uriParts rest).1
          · rw [if_pos hmark]
            constructor
            · exact fun hsuffix => ⟨path, hpath, hsuffix⟩
            · rintro ⟨other, hother, hsuffix⟩
              obtain rfl := Option.some.inj (hpath.symm.trans hother)
              exact hsuffix
          · rw [if_neg hmark]
            obtain ⟨tail, hdrill⟩ := drillSuffix_eq drillId
            exact suffix_decode_iff hdrill (fun c hc => mem_drillSuffix hc)
              (suffix_of_uri hrest h hmark) hpath

/-- Every command of a restore is given an accepted URL. -/
theorem accepted_of_mem_restore {checks : NetlocChecks} {tools : PostgresTools}
    {archive url drillId : String} {command : PostgresCommand}
    (h : command ∈ (restorePostgresql checks tools archive (some url) drillId).1) :
    isolatedPostgresTarget checks (some url) drillId = true ∧ command.pgDatabase = url := by
  have hurl : ∀ {commands : List PostgresCommand}, command ∈ commands →
      (∀ c ∈ commands, c.pgDatabase = url) → command.pgDatabase = url := fun hc hall => hall _ hc
  unfold restorePostgresql at h
  split at h
  · cases h
  · rename_i haccepted
    refine ⟨by simpa using haccepted, ?_⟩
    split at h
    · simp only [Option.getD_some] at h
      split at h
      · exact hurl h (by simp)
      · split at h
        · exact hurl h (by simp)
        · split at h
          · exact hurl h (by simp)
          · split at h <;> exact hurl h (by simp)
    · cases h

omit [Platform] in
theorem urlsplit_plain (checks : NetlocChecks) {path : List Char} (h : ∀ c ∈ path, IsPlain c) :
    urlsplit checks ("postgres://h/".toList ++ path) =
      some ⟨"postgres".toList, ['h'], '/' :: path, [], []⟩ := by
  have hkept : ∀ c ∈ "postgres://h/".toList ++ path, (!isRemoved c) = true := by
    intro c hc
    rcases List.mem_append.mp hc with hc | hc
    · have hall : ∀ c ∈ "postgres://h/".toList, (!isRemoved c) = true :=
        List.forall_iff_forall_mem.mp (by decide)
      exact hall c hc
    · have hc := h c hc
      simp [isRemoved, hc.ne (d := '\t') (by decide) (by decide),
        hc.ne (d := '\r') (by decide) (by decide), hc.ne (d := '\n') (by decide) (by decide)]
  have hcleaned : cleaned ("postgres://h/".toList ++ path) = "postgres://h/".toList ++ path :=
    List.filter_eq_self.mpr hkept
  have hscheme : splitScheme ("postgres://h/".toList ++ path) =
      ("postgres".toList, "//h/".toList ++ path) := by
    unfold splitScheme
    rw [if_pos]
    · rfl
    · exact ⟨List.mem_append_left _ (by decide), rfl, rfl⟩
  have hcut : ∀ mark : Char, mark ≠ '/' → (∀ c ∈ path, c ≠ mark) →
      cut mark ('/' :: path) = ('/' :: path, []) := by
    intro mark hmark hpath
    have hall : ∀ c ∈ '/' :: path, decide (c ≠ mark) = true := by
      intro c hc
      rcases List.mem_cons.mp hc with rfl | hc
      · exact decide_eq_true hmark.symm
      · exact decide_eq_true (hpath c hc)
    unfold cut
    rw [List.takeWhile_eq_self_iff.mpr hall, List.dropWhile_eq_nil_iff.mpr hall]
    rfl
  have hnetloc : splitNetloc ("//h/".toList ++ path) = (['h'], '/' :: path) := rfl
  unfold urlsplit
  simp only [hcleaned, hscheme, hnetloc]
  rw [if_neg, hcut '#' (by decide) fun c hc => (h c hc).ne (by decide) (by decide)]
  · simp only
    rw [hcut '?' (by decide) fun c hc => (h c hc).ne (by decide) (by decide)]
  · rw [checks.plain ['h'] (List.forall_iff_forall_mem.mp (by decide))]
    decide

/-- A URL on a plain host whose path is a drill's suffix is accepted for each drill whose suffix it
ends with. -/
theorem accepted_of_suffix {checks : NetlocChecks} {drillId other : String}
    (h : drillSuffix drillId <:+ drillSuffix other) :
    isolatedPostgresTarget checks
      (some (String.ofList ("postgres://h/".toList ++ drillSuffix other))) drillId = true := by
  have hplain : ∀ c ∈ drillSuffix other, IsPlain c := fun c hc => mem_drillSuffix hc
  obtain ⟨tail, hdrill⟩ := drillSuffix_eq other
  have htext := String.toList_ofList (l := "postgres://h/".toList ++ drillSuffix other)
  have hparsed := urlsplit_plain checks hplain
  rw [← htext] at hparsed
  refine accepted_iff.mpr ⟨_, hparsed, ?_, ?_, .inl rfl, List.cons_ne_nil 'h' [], ?_⟩
  · intro hempty
    rw [hempty] at htext
    cases htext
  · rw [htext]
    refine fun hmem => (List.mem_append.mp hmem).elim (by decide) fun hmem => ?_
    exact (hplain _ hmem).ne (by decide) (by decide) rfl
  · change drillSuffix drillId <:+ (drillSuffix other).dropWhile fun c => c = '/'
    have hstays : (drillSuffix other).dropWhile (fun c => c = '/') = drillSuffix other := by
      rw [hdrill]
      exact List.dropWhile_cons_of_neg (by decide)
    rw [hstays]
    exact h

/-- **Drill isolation.** What is accepted leads into a database of the drill, and no URL is
accepted for two drills, exactly if an accepted URL names that database where libpq looks for it,
and the suffix of neither drill ends with that of the other. -/
theorem drillIsolated_iff (checks : NetlocChecks) (libpq : Libpq) (url : String)
    (first second : RecoveryId) :
    DrillIsolated checks libpq url first second ↔
      (isolatedPostgresTarget checks (some url) first.val = true → libpq.database url ≠ none →
        NamesDrill url.toList (drillSuffix first.val)) ∧
      (normalizedDrill first.val ≠ normalizedDrill second.val →
        ¬ drillSuffix first.val <:+ drillSuffix second.val ∧
        ¬ drillSuffix second.val <:+ drillSuffix first.val) := by
  constructor
  · intro h
    refine ⟨fun haccepted hlibpq => ?_, fun hne => ⟨fun hsuffix => ?_, fun hsuffix => ?_⟩⟩
    · obtain ⟨name, hname⟩ := Option.ne_none_iff_exists'.mp hlibpq
      exact (names_iff haccepted (libpq.documented url name hname)).mp
        (h.target haccepted name hname)
    · exact h.apart hne _ ⟨accepted_of_suffix hsuffix, accepted_of_suffix List.suffix_rfl⟩
    · exact h.apart hne _ ⟨accepted_of_suffix List.suffix_rfl, accepted_of_suffix hsuffix⟩
  · rintro ⟨hnames, hsuffixes⟩
    have htarget : isolatedPostgresTarget checks (some url) first.val = true →
        ∀ name, libpq.database url = some name → bytesOf (drillSuffix first.val) <:+ name :=
      fun haccepted name hname =>
        (names_iff haccepted (libpq.documented url name hname)).mpr
          (hnames haccepted (Option.ne_none_iff_exists'.mpr ⟨name, hname⟩))
    refine ⟨htarget, fun tools archive command hcommand name hname => ?_, fun hne other hboth => ?_⟩
    · obtain ⟨haccepted, hurl⟩ := accepted_of_mem_restore hcommand
      exact htarget haccepted name (hurl ▸ hname)
    · obtain ⟨parsed, hparsed, -, -, -, -, hfirst⟩ := accepted_iff.mp hboth.1
      obtain ⟨again, hagain, -, -, -, -, hsecond⟩ := accepted_iff.mp hboth.2
      obtain rfl := Option.some.inj (hparsed.symm.trans hagain)
      rcases List.suffix_or_suffix_of_suffix hfirst hsecond with hsuffix | hsuffix
      · exact (hsuffixes hne).1 hsuffix
      · exact (hsuffixes hne).2 hsuffix

end Isolation

/-! ### A database behind a parameter -/

namespace Reference

attribute [local instance] platform

/-- A location is well formed, and libpq accepts every URI. -/
def anyLocation : NetlocChecks := ⟨fun _ => true, fun _ _ => rfl⟩

def plainLibpq : Libpq :=
  ⟨fun url => namedDatabase (fun _ => none) url.toList, fun _ => none, fun _ _ h => h⟩

def overriddenUrl : String := "postgres://h/x_ophelia_drill_a?dbname=prod"

/-- The path names a database of the drill, and the query the one of production. -/
theorem overridden_accepted : isolatedPostgresTarget anyLocation (some overriddenUrl) "a" = true ∧
    plainLibpq.database overriddenUrl = some (bytesOf "prod".toList) := by
  have hslug : slug "a" = "a" := slug_of_isSlug (by decide)
  have hsuffix : drillSuffix "a" = "_ophelia_drill_a".toList := by
    unfold drillSuffix normalizedDrill
    rw [hslug]
    decide
  refine ⟨?_, by decide +kernel⟩
  unfold isolatedPostgresTarget
  rw [hsuffix]
  decide +kernel

theorem overridden_not_isolated : ¬ ∀ (checks : NetlocChecks) (libpq : Libpq) (url : String)
    (first second : RecoveryId), DrillIsolated checks libpq url first second := by
  intro h
  have hisolated := h anyLocation plainLibpq overriddenUrl ⟨"a", by decide⟩ ⟨"b", by decide⟩
  have hends := hisolated.target overridden_accepted.1 _ overridden_accepted.2
  exact absurd hends.length_le (by decide)

end Reference

end Ophelia
