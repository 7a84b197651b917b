import Ophelia.Runtime.MutationSafety

/-!
# Ophelia.Runtime.SettledFiles

What `write_bytes`, `replace_bytes` and `copy_in` leave, however their system calls end: the
destination is the entry that was there or the new file, nothing else is changed, and only the
cleanup failure goes with a temporary file that remains (`mutation_settles`). The random name of
the temporary file may be the destination's own; then the file that remains stands at the
destination (`collision_leaves_part`).
-/

namespace Ophelia

namespace Filesystem

namespace ManagedRoot

/-! ### The pinned parent -/

/-- Where names lead from a directory. -/
def resolve (entries : Entries) : DirId → List Name → Option DirId
  | dir, [] => some dir
  | dir, name :: names =>
      match (entries dir name).map Entry.node with
      | some (.directory id) => resolve entries id names
      | _ => none

variable {before : Entries} {dir : DirId} {name : Name} {data u : Octets} {mode : Nat}

theorem Rule.cleanup {α : Type} {P E : Held → Prop} {m : FileProgram α} {Q : α → Held → Prop}
    {f : FileProgram Unit} (hm : Rule P m Q E) (hf : Quiet f) : Rule P (m.cleanup f) Q E :=
  Rule.handle hm fun _ => (Rule.quiet hf).bind fun _ => Rule.raise fun _ h => h

/-- A failed descent is told apart, and raised. -/
theorem traversalOSError_rule {α : Type} {P : Held → Prop} {Q : α → Held → Prop} (errno : Errno)
    (r : Request) : Rule P (traversalOSError errno dir name r) Q P :=
  (Rule.quiet (Quiet.entryKind dir name r)).bind fun _ =>
    Rule.ite (fun _ => Rule.fail fun _ h => h) fun _ =>
      Rule.ite (fun _ => Rule.fail fun _ h => h) fun _ =>
        Rule.ite (fun _ => Rule.fail fun _ h => h) fun _ => Rule.fail fun _ h => h

theorem Rule.look {α : Type} {f : Disk → Except Errno α} {P : Held → Prop} {Q : α → Held → Prop}
    (h : ∀ (w : World) a, P w.held → f w.disk = .ok a → Q a w.held) :
    Rule P (ManagedRoot.look f) Q P := by
  refine Rule.call fun count w w' a hw hf => ?_
  cases hlook : f w.disk with
  | error errno =>
      rw [hlook] at hf
      cases hf
  | ok b =>
      rw [hlook] at hf
      cases hf
      exact h w a hw hlook

/-- The directory that is opened is the one that the entry stands for. -/
theorem openDirectory_rule :
    Rule (Start before u) (openDirectory dir name)
      (fun next s => Start before u s ∧
        (before dir name).map Entry.node = some (.directory next)) (Start before u) := by
  refine Rule.look fun w next hstart hf => ?_
  have hdisk : w.disk.entry = before := hstart.1
  rw [hdisk] at hf
  cases hnode : (before dir name).map Entry.node with
  | none =>
      rw [hnode] at hf
      cases hf
  | some node =>
      rw [hnode] at hf
      cases node with
      | directory id =>
          cases hf
          exact ⟨hstart, rfl⟩
      | regular content => cases hf
      | symlink target => cases hf
      | special => cases hf

/-- The walk ends where the names lead. -/
theorem descend_rule (root : ManagedRoot) (r : Request) (names : List Name) (dir : DirId) :
    Rule (Start before u) (descend root r names dir)
      (fun last s => Start before u s ∧ resolve before dir names = some last)
      (Start before u) := by
  induction names generalizing dir with
  | nil => exact Rule.ret fun s h => ⟨h, rfl⟩
  | cons name names ih =>
      have hopen : Rule (Start before u)
          (onOSError (openDirectory dir name) fun errno => traversalOSError errno dir name r)
          (fun next s => Start before u s ∧
            (before dir name).map Entry.node = some (.directory next)) (Start before u) :=
        Rule.onOSError openDirectory_rule fun errno => traversalOSError_rule errno r
      refine Rule.bind (R := fun next s => Start before u s ∧
        (before dir name).map Entry.node = some (.directory next))
        (Rule.cleanup (hopen.bind fun next => ?_) Quiet.touch) fun next => ?_
      · refine ((Rule.quiet (Quiet.checked root r next _)).conseq (fun _ h => h) (fun _ _ h => h)
          fun _ h => h.1).bind fun _ => ?_
        refine ((Rule.quiet Quiet.touch).conseq (fun _ h => h) (fun _ _ h => h)
          fun _ h => h.1).bind fun _ => ?_
        exact Rule.ret fun _ h => h
      · intro w hw
        obtain ⟨hstart, hnode⟩ := hw
        have hresolve : resolve before dir (name :: names) = resolve before next names := by
          rw [resolve, hnode]
        rw [hresolve]
        exact ih next w hstart

theorem requireOpen_rule {P : Held → Prop} (root : ManagedRoot) (operation : String) :
    Rule P (requireOpen root operation) (fun top s => P s ∧ root.descriptor = some top) P := by
  unfold requireOpen
  cases root.descriptor with
  | none => exact Rule.raise fun _ h => h
  | some top => exact Rule.ret fun _ h => ⟨h, rfl⟩

/-- A fact beside the precondition. -/
theorem Rule.assuming {α : Type} {p : Prop} {P E : Held → Prop} {m : FileProgram α}
    {Q : α → Held → Prop} (h : p → Rule P m Q E) : Rule (fun s => P s ∧ p) m Q E :=
  fun w hw => h hw.2 w hw.1

theorem walkDirectories_rule (root : ManagedRoot) (r : Request) (names : List Name) :
    Rule (Start before u) (walkDirectories root names r)
      (fun last s => Start before u s ∧
        (root.descriptor.bind fun top => resolve before top names) = some last)
      (Start before u) := by
  refine (requireOpen_rule root r.operation).bind fun top => Rule.assuming fun htop => ?_
  rw [htop]
  refine (Rule.quiet (Quiet.orFail Quiet.touch _ _ _)).bind fun _ => ?_
  exact (Rule.quiet (Quiet.checked root r top _)).bind fun _ => descend_rule root r names top

/-! ### The ends of an operation -/

def IsCleanupFailure (e : Raised) : Prop := ∃ error, e = .safety error ∧ error.code = .CLEANUP_FAILURE

/-- The new file is at its place. -/
def Succeeded (place : Option (DirId × Name)) (before : Entries) (data : Octets) (mode : Nat)
    (s : Held) : Prop :=
  ∃ dir name, place = some (dir, name) ∧ Done before dir name data mode s

/-- What is left with an exception. -/
def Ended (place : Option (DirId × Name)) (before : Entries) (data : Octets) (mode : Nat)
    (e : Raised) (s : Held) : Prop :=
  Unchanged before s ∨ ∃ dir name, place = some (dir, name) ∧
    (Done before dir name data mode s ∨ (IsCleanupFailure e ∧ Leftover before dir s))

variable {place : Option (DirId × Name)}

/-- A program that ends in one of these ways. -/
def Settling (P : Held → Prop) (place : Option (DirId × Name)) (before : Entries)
    (data : Octets) (mode : Nat) (m : FileProgram Unit) : Prop :=
  Program.Triple (On P) m (fun _ => On (Succeeded place before data mode))
    (fun e => On (Ended place before data mode e)) fun _ => True

theorem Succeeded.ended {s : Held} (h : Succeeded place before data mode s) (e : Raised) :
    Ended place before data mode e s := by
  obtain ⟨dir, name, hplace, hdone⟩ := h
  exact .inr ⟨dir, name, hplace, .inl hdone⟩

theorem Ended.cleanup {e e' : Raised} {s : Held} (h : Ended place before data mode e s)
    (he' : IsCleanupFailure e') : Ended place before data mode e' s := by
  rcases h with h | ⟨dir, name, hplace, h | ⟨-, h⟩⟩
  · exact .inl h
  · exact .inr ⟨dir, name, hplace, .inl h⟩
  · exact .inr ⟨dir, name, hplace, .inr ⟨he', h⟩⟩

theorem isCleanupFailure_combined (primary : Option Raised) (r : Request) (noted : List String) :
    IsCleanupFailure (combinedCleanupError primary r noted) := ⟨_, rfl, rfl⟩

/-- The end of a `try` that succeeded. -/
theorem conclude_none (r : Request) (noted : List String) :
    Settling (Succeeded place before data mode) place before data mode (conclude none r noted) := by
  refine Program.Triple.ite (fun _ => ?_) fun _ => ?_
  · exact Program.Triple.raise fun w h => h.ended _
  · exact Program.Triple.ret fun w h => h

/-- The end of a `try` with an exception: it is raised if nothing was noted. -/
theorem conclude_some {P : Held → Prop} (r : Request) (e : Raised) (noted : List String)
    (hnoted : noted ≠ [] → ∀ e' s, IsCleanupFailure e' → P s → Ended place before data mode e' s)
    (hquiet : noted = [] → ∀ s, P s → Ended place before data mode e s) :
    Settling P place before data mode (conclude (some e) r noted) := by
  refine Program.Triple.ite (fun hne => ?_) fun hempty => ?_
  · exact Program.Triple.raise fun w h =>
      hnoted hne _ w.held (isCleanupFailure_combined _ r noted) h
  · exact Program.Triple.raise fun w h => hquiet (Decidable.not_not.mp hempty) w.held h

/-- The destination of a path: its pinned parent and its name. -/
def destination (root : ManagedRoot) (entries : Entries) (components : List Name) :
    Option (DirId × Name) :=
  (root.descriptor.bind fun top => resolve entries top components.dropLast).map fun dir =>
    (dir, components.getLast?.getD [])

/-- The shared mutation, with its cleanup. -/
theorem atomicFileMutation_settles (process : Process) (root : ManagedRoot)
    (components : List Name) {content : DirId → Name → FileProgram Unit}
    (hfills : Fills u data mode content) (r : Request) (requireExisting : Bool) :
    Settling (Start before u) (destination root before components) before data mode
      (atomicFileMutation process root components mode content r requireExisting) := by
  let name := components.getLast?.getD []
  have hwalk := @walkDirectories_rule before u root r components.dropLast
  refine Program.Triple.bind (Program.Triple.conseq hwalk (fun _ h => h) (fun _ _ h => h)
    (fun _ _ h => .inl ⟨h.1, h.2.1⟩) fun _ h => h) fun dir => ?_
  refine Program.Triple.pre (P := fun w => (root.descriptor.bind fun top =>
    resolve before top components.dropLast) = some dir ∧ On (Start before u) w)
    (Program.Triple.assuming fun hdir => ?_) fun _ h => ⟨h.2, h.1⟩
  have hplace : destination root before components = some (dir, name) := by
    rw [destination, hdir]
    rfl
  have hmutate := @mutate_rule before dir name data u mode process root
    components.dropLast _ hfills r requireExisting
  refine (Program.Triple.attempt hmutate).bind fun primary => ?_
  cases primary with
  | none =>
      refine Program.Triple.bind (Program.Triple.conseq cleanUp_done (fun _ h => h)
        (fun _ _ h => h) (fun _ _ h => h.elim) fun _ h => h) fun noted => ?_
      exact (conclude_none r noted).pre fun w h => ⟨dir, name, hplace, h⟩
  | some e =>
      refine Program.Triple.bind (Program.Triple.conseq cleanUp_rule (fun _ h => h)
        (fun _ _ h => h) (fun _ _ h => h.elim) fun _ h => h) fun noted => ?_
      refine conclude_some r e noted (fun _ e' s he' h => ?_) fun hempty s h => ?_
      · rcases h with h | ⟨-, h⟩ | h
        · exact .inl h
        · exact .inr ⟨dir, name, hplace, .inr ⟨he', h⟩⟩
        · exact .inr ⟨dir, name, hplace, .inl h⟩
      · rcases h with h | ⟨hnoted, -⟩ | h
        · exact .inl h
        · exact absurd hempty hnoted
        · exact .inr ⟨dir, name, hplace, .inl h⟩

/-! ### The operations -/

/-- `write_bytes`, `replace_bytes` or `copy_in`, with what it is given. -/
inductive Mutation where
  | writeBytes (data : Octets)
  | replaceBytes (data : Octets)
  | copyIn (path : Name) (source : Source)

def Mutation.run (process : Process) (root : ManagedRoot) (path : Name) (mode : Int) :
    Mutation → FileProgram Unit
  | .writeBytes data => ManagedRoot.writeBytes process root path data mode
  | .replaceBytes data => ManagedRoot.replaceBytes process root path data mode
  | .copyIn source node => ManagedRoot.copyIn process root source node path mode

/-- The new content. -/
def Mutation.bytes : Mutation → Octets
  | .writeBytes data => data
  | .replaceBytes data => data
  | .copyIn _ (.regular content) => content
  | .copyIn _ _ => []

/-- The destination of a path, if it is one. -/
def placeOf (root : ManagedRoot) (entries : Entries) (path : Name) : Option (DirId × Name) :=
  match destinationComponents path "" with
  | .ok components => destination root entries components
  | .error _ => none

theorem placeOf_eq {root : ManagedRoot} {entries : Entries} {path : Name} {operation : String}
    {components : List Name} (h : destinationComponents path operation = .ok components) :
    placeOf root entries path = destination root entries components := by
  have hany : destinationComponents path "" = .ok components := by
    unfold destinationComponents at h ⊢
    -- the operation is named by the errors only
    split at h
    · cases h
    rename_i hempty
    split at h
    · cases h
    rename_i hcontrol
    split at h
    · cases h
    rename_i habsolute
    split at h
    · cases h
    rename_i hseparator
    rw [if_neg hempty, if_neg hcontrol, if_neg habsolute, if_neg hseparator]
    dsimp only at h ⊢
    split at h
    · cases h
    rename_i hcomponent
    split at h
    · cases h
    rename_i hdots
    rw [if_neg hcomponent, if_neg hdots]
    exact h
  rw [placeOf, hany]

theorem validateMode_eq {mode : Int} {r : Request} {value : Nat}
    (h : validateMode mode r = .ok value) : value = mode.toNat := by
  unfold validateMode at h
  split at h
  · cases h
  · cases h
    rfl

/-- Checks that come before anything is opened. -/
theorem settling_ofExcept {α : Type} {x : Except Raised α} {f : α → FileProgram Unit}
    (hf : ∀ a, x = .ok a → Settling (Start before u) place before data mode (f a)) :
    Settling (Start before u) place before data mode (Program.ofExcept x >>= f) := by
  cases x with
  | ok a => exact hf a rfl
  | error e => exact fun w hw => .inl ⟨hw.1, hw.2.1⟩

theorem writeFile_settles (process : Process) (root : ManagedRoot) (r : Request) (data : Octets)
    (mode : Int) (requireExisting : Bool) :
    Settling (Start before u) (placeOf root before r.display) before data mode.toNat
      (writeFile process root r data mode requireExisting) := by
  refine settling_ofExcept fun components hcomponents => settling_ofExcept fun value hvalue => ?_
  rw [placeOf_eq hcomponents, validateMode_eq hvalue]
  exact atomicFileMutation_settles process root components (fills_writeAll r u data _) r _

/-- A failure before the mutation leaves everything as it was. -/
theorem Rule.settling {P : Held → Prop} {α : Type} {m : FileProgram α} {R : α → Held → Prop}
    {f : α → FileProgram Unit} (hm : Rule P m R (Unchanged before))
    (hf : ∀ a, Settling (R a) place before data mode (f a)) :
    Settling P place before data mode (m >>= f) :=
  Program.Triple.bind (Program.Triple.conseq hm (fun _ h => h) (fun _ _ h => h)
    (fun _ _ h => .inl h) fun _ h => h) hf

theorem unchanged_of_start {s : Held} (h : Start before u s) : Unchanged before s := ⟨h.1, h.2.1⟩

/-- The source is open: it is what is to be read. -/
theorem openSource_rule (source : Source) :
    Rule (Start before u) (openSource source)
      (fun _ s => ∃ unread, Start before unread s ∧
        ∀ content, source = .regular content → unread = content) (Start before u) := by
  refine Rule.call fun count w w' a hstart hf => ?_
  obtain ⟨hentry, hrenamed, hlocals, hunread⟩ := hstart
  cases source with
  | regular content =>
      cases hf
      refine ⟨content, ⟨hentry, hrenamed, hlocals, rfl⟩, fun content' h => ?_⟩
      cases h
      rfl
  | special =>
      cases hf
      exact ⟨u, ⟨hentry, hrenamed, hlocals, hunread⟩, fun content' h => nomatch h⟩
  | symlink => cases hf
  | missing => cases hf

theorem copyOpened_settles (process : Process) (root : ManagedRoot) (r : Request) (path : Name)
    (source : Source) (components : List Name) (hunread : ∀ content, source = .regular content →
      u = content) :
    Settling (Start before u) (destination root before components) before
      (Mutation.copyIn path source).bytes mode
      (copyOpened process root r source components mode) := by
  have hsignature : Rule (Start before u)
      (orFail sourceSignature r .IO_FAILURE "could not inspect copy source")
      (fun _ => Start before u) (Unchanged before) := by
    refine Rule.conseq (Rule.orFail (Rule.call (Q := fun _ => Start before u)
      fun count w w' a h hf => ?_)) (fun _ h => h) (fun _ _ h => h) fun _ => unchanged_of_start
    cases hf
    exact h
  refine Rule.settling hsignature fun signature => ?_
  cases source with
  | regular content =>
      have hcontent := hunread content rfl
      subst hcontent
      exact atomicFileMutation_settles process root components (fills_copyContent r signature u _)
        r false
  | special => exact Program.Triple.raise fun _ h => .inl (unchanged_of_start h)
  | symlink => exact Program.Triple.raise fun _ h => .inl (unchanged_of_start h)
  | missing => exact Program.Triple.raise fun _ h => .inl (unchanged_of_start h)

theorem copyIn_settles (process : Process) (root : ManagedRoot) (path : Name) (source : Source)
    (target : Name) (mode : Int) :
    Settling (Start before u) (placeOf root before target) before
      (Mutation.copyIn path source).bytes mode.toNat
      (copyIn process root path source target mode) := by
  refine settling_ofExcept fun _ _ => settling_ofExcept fun components hcomponents =>
    settling_ofExcept fun value hvalue => ?_
  rw [placeOf_eq hcomponents, validateMode_eq hvalue]
  have hopen : Rule (Start before u) (orFail (openSource source) ⟨"copy_in", target⟩
      .INVALID_SOURCE "copy source must be a non-symlink regular file")
      (fun _ s => ∃ unread, Start before unread s ∧
        ∀ content, source = .regular content → unread = content) (Unchanged before) :=
    (Rule.orFail (openSource_rule source)).conseq (fun _ h => h) (fun _ _ h => h)
      fun _ => unchanged_of_start
  refine Rule.settling hopen fun _ => ?_
  rintro w ⟨unread, hstart, hunread⟩
  have hcopy := @copyOpened_settles before _ mode.toNat process root
    ⟨"copy_in", target⟩ path source components hunread
  have hclose : ∀ P : Held → Prop, Rule P (closeNoting "close_copy_source") (fun _ => P) nowhere :=
    fun _ => noting_rule ["close_copy_source"]
  refine (Program.Triple.attempt hcopy).bind (fun primary => ?_) w hstart
  cases primary with
  | none =>
      exact Program.Triple.bind (Program.Triple.conseq (hclose _) (fun _ h => h) (fun _ _ h => h)
        (fun _ _ h => h.elim) fun _ h => h) fun noted => conclude_none _ noted
  | some e =>
      refine Program.Triple.bind (Program.Triple.conseq (hclose _) (fun _ h => h) (fun _ _ h => h)
        (fun _ _ h => h.elim) fun _ h => h) fun noted => ?_
      exact conclude_some _ e noted (fun _ e' _ he' h => h.cleanup he') fun _ _ h => h

/-- Each operation settles. -/
theorem run_settles (process : Process) (root : ManagedRoot) (path : Name) (mode : Int)
    (m : Mutation) :
    Settling (Start before u) (placeOf root before path) before m.bytes mode.toNat
      (m.run process root path mode) := by
  cases m with
  | writeBytes data => exact writeFile_settles process root ⟨"write_bytes", path⟩ data mode false
  | replaceBytes data =>
      exact writeFile_settles process root ⟨"replace_bytes", path⟩ data mode true
  | copyIn source node => exact copyIn_settles process root source node path mode

/-! ### Settled files -/

/-- The exception that was raised is the cleanup failure. -/
def CleanupRaised (o : Program.Outcome Raised Unit) : Prop :=
  ∃ e, o = .raised e ∧ IsCleanupFailure e

/-- What an operation leaves of the destination, of the entries beside it and of all others.
`exempt` is where the two statements about the destination are not made. -/
structure Settled (before : Entries) (dir : DirId) (name : Name) (data : Octets) (mode : Nat)
    (exempt : Prop) (w : World) (o : Program.Outcome Raised Unit) : Prop where
  destination : exempt ∨ w.disk.entry dir name = before dir name ∨
    ∃ e, w.disk.entry dir name = some e ∧ IsWhole data mode e
  /-- An exception from before the rename. -/
  early : exempt ∨ (w.renamed = false → w.disk.entry dir name = before dir name)
  returned : o = .returned () → ∃ e, w.disk.entry dir name = some e ∧ IsWhole data mode e
  beside : ∀ n, n ≠ name → w.disk.entry dir n ≠ before dir n → CleanupRaised o
  outside : ∀ d n, d ≠ dir → w.disk.entry d n = before d n

/-- The first state of a run. -/
def World.start (disk : Disk) (turns : List Turn) : World := ⟨disk, turns, [], {}, false⟩

/-- A run that has ended leaves its destination settled, or everything as it was. -/
def SettlesWith (exempt : Name → World → Program.Outcome Raised Unit → Prop) (process : Process)
    (root : ManagedRoot) (m : Mutation) (path : Name) (mode : Int) (disk : Disk)
    (turns : List Turn) : Prop :=
  ∀ w o, m.run process root path mode (World.start disk turns) = (w, o) → o ≠ .crashed →
    match placeOf root disk.entry path with
    | none => w.disk.entry = disk.entry
    | some (dir, name) =>
        Settled disk.entry dir name m.bytes mode.toNat (exempt name w o) w o

/-- The cleanup failed for a temporary file that was made under the destination's own name. -/
def Collided (name : Name) (w : World) (o : Program.Outcome Raised Unit) : Prop :=
  CleanupRaised o ∧ w.locals.temporaryName = some name

theorem settled_of_unchanged {before : Entries} {exempt : Prop} {w : World} {e : Raised}
    (h : w.disk.entry = before) : Settled before dir name data mode exempt w (.raised e) where
  destination := .inr (.inl (by rw [h]))
  early := .inr fun _ => by rw [h]
  returned := nofun
  beside n _ hne := absurd (by rw [h]) hne
  outside d n _ := by rw [h]

theorem set_of_ne {entries : Entries} {d : DirId} {n : Name} {e : Option Entry}
    (h : d ≠ dir ∨ n ≠ name) : entries.set dir name e d n = entries d n := by
  refine if_neg fun hboth => ?_
  rcases h with h | h
  · exact h hboth.1
  · exact h hboth.2

theorem settled_of_done {before : Entries} {exempt : Prop} {w : World}
    {o : Program.Outcome Raised Unit} (h : Done before dir name data mode w.held) :
    Settled before dir name data mode exempt w o := by
  obtain ⟨⟨hrenamed, e, hwhole, hentry⟩, -⟩ := h
  have hdisk : w.disk.entry = before.set dir name (some e) := hentry
  have hthere : w.disk.entry dir name = some e := by rw [hdisk, set_same]
  refine ⟨.inr (.inr ⟨e, hthere, hwhole⟩), .inr fun hno => ?_, fun _ => ⟨e, hthere, hwhole⟩,
    fun n hn hne => absurd ?_ hne, fun d n hd => ?_⟩
  · have hyes : w.renamed = true := hrenamed
    rw [hno] at hyes
    cases hyes
  · rw [hdisk, set_of_ne (.inr hn)]
  · rw [hdisk, set_of_ne (.inl hd)]

theorem settled_of_leftover {before : Entries} {w : World} {e : Raised}
    (he : IsCleanupFailure e) (h : Leftover before dir w.held) :
    Settled before dir name data mode (Collided name w (.raised e)) w (.raised e) := by
  obtain ⟨t, ⟨⟨hfree, -, -, e', -, hentry⟩, hname, -⟩⟩ := h
  have hdisk : w.disk.entry = before.set dir t (some e') := hentry
  have hraised : CleanupRaised (.raised e) := ⟨e, rfl, he⟩
  by_cases heq : t = name
  · have hcollided : Collided name w (.raised e) := ⟨hraised, heq ▸ hname⟩
    refine ⟨.inl hcollided, .inl hcollided, nofun, fun _ _ _ => hraised, fun d n hd => ?_⟩
    rw [hdisk, set_of_ne (.inl hd)]
  · have hsame : w.disk.entry dir name = before dir name := by
      rw [hdisk, set_of_ne (.inr fun h => heq h.symm)]
    refine ⟨.inr (.inl hsame), .inr fun _ => hsame, nofun, fun _ _ _ => hraised, fun d n hd => ?_⟩
    rw [hdisk, set_of_ne (.inl hd)]

/-- However its system calls end, an operation leaves its destination as it was or with the whole
new file, and changes nothing else, unless it raises the cleanup failure. -/
theorem mutation_settles (process : Process) (root : ManagedRoot) (m : Mutation) (path : Name)
    (mode : Int) (disk : Disk) (turns : List Turn) :
    SettlesWith Collided process root m path mode disk turns := by
  intro w o hrun hended
  have hsettles := @run_settles disk.entry [] process root path mode m
    (World.start disk turns) ⟨rfl, rfl, rfl, rfl⟩
  rw [hrun] at hsettles
  cases o with
  | crashed => exact absurd rfl hended
  | returned a =>
      obtain ⟨dir, name, hplace, hdone⟩ := hsettles
      rw [hplace]
      exact settled_of_done hdone
  | raised e =>
      rcases hsettles with hunchanged | ⟨dir, name, hplace, hdone | ⟨he, hleft⟩⟩
      · cases placeOf root disk.entry path with
        | none => exact hunchanged.1
        | some place => exact settled_of_unchanged hunchanged.1
      · rw [hplace]
        exact settled_of_done hdone
      · rw [hplace]
        exact settled_of_leftover he hleft

/-! ### A collision -/

/-- A process whose first random name is all zeros. -/
def zeroProcess : Process where
  token _ := List.replicate 32 '0'
  umask := 0o022
  euid := 1000
  renamesAt := true

def emptyDisk : Disk where
  entry _ _ := none
  info _ := ⟨1000, 0o700⟩
  inode := 7

/-- The disk is full after one byte, and the temporary file cannot be unlinked. -/
def fullDisk : List Turn :=
  List.replicate 11 (.goes 0) ++ [.goes 1, .fails (.other 28), .goes 0, .fails (.other 5), .goes 0,
    .goes 0]

/-- The destination has the name that the temporary file gets. -/
def collisionRun : World × Program.Outcome Raised Unit :=
  (Mutation.writeBytes [1, 2]).run zeroProcess ⟨some 0, 1000⟩ (temporaryName zeroProcess 0) 0o600
    (World.start emptyDisk fullDisk)

theorem collisionRun_ended : collisionRun.2 ≠ .crashed := by decide +kernel

theorem collisionRun_entry : collisionRun.1.disk.entry 0 (temporaryName zeroProcess 0) =
    some ⟨.regular [1], 7, 1000, 0o600⟩ := by decide +kernel

theorem placeOf_collision : placeOf ⟨some 0, 1000⟩ emptyDisk.entry (temporaryName zeroProcess 0) =
    some (0, temporaryName zeroProcess 0) := by decide +kernel

/-- The destination was absent, and is left with a part of the new file. -/
theorem collision_leaves_part :
    ¬ SettlesWith (fun _ _ _ => False) zeroProcess ⟨some 0, 1000⟩ (.writeBytes [1, 2])
      (temporaryName zeroProcess 0) 0o600 emptyDisk fullDisk := by
  intro h
  have hsettled := h collisionRun.1 collisionRun.2 (Prod.eta collisionRun).symm collisionRun_ended
  rw [placeOf_collision] at hsettled
  rcases hsettled.destination with hno | hsame | ⟨e, he, hwhole, -⟩
  · exact hno
  · rw [collisionRun_entry] at hsame
    cases hsame
  · rw [collisionRun_entry] at he
    cases he
    cases hwhole

end ManagedRoot

end Filesystem

end Ophelia
