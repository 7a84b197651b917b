import Ophelia.Runtime.AtomicMutation

/-!
# Ophelia.Runtime.MutationSafety

However the system calls of a mutation end, its destination is what it was or the whole new file.
Most of the calls look at the disk and leave it alone (`Quiet`); the others are followed through
three stages of the entries: as before, with a temporary file (`Made`), with the new file (`Done`).
-/

namespace Ophelia

namespace Filesystem

/-- What the calls that only look leave alone. -/
structure Held where
  entry : Entries
  renamed : Bool
  locals : Locals
  unread : Octets

def World.held (w : World) : Held := ⟨w.disk.entry, w.renamed, w.locals, w.unread⟩

/-- A property of what is held. -/
def On (P : Held → Prop) (w : World) : Prop := P w.held

namespace ManagedRoot

/-- A call that fails leaves everything as it was. -/
theorem call_rule {α : Type} {f : Nat → World → Except Errno (World × α)} {P : Held → Prop}
    {Q : α → Held → Prop}
    (h : ∀ count w w' a, P w.held → f count w = .ok (w', a) → Q a w'.held) :
    Program.Triple (On P) (call f) (fun a => On (Q a)) (fun _ => On P) (On P) := by
  intro w hw
  unfold call
  cases w.turns with
  | nil => exact hw
  | cons turn turns =>
      cases turn with
      | fails fault => exact hw
      | goes count =>
          cases hf : f count { w with turns } with
          | error errno =>
              simp only [hf]
              exact hw
          | ok result =>
              simp only [hf]
              exact h count { w with turns } result.1 result.2 hw hf

/-- A program that only looks. -/
def Quiet {α : Type} (m : FileProgram α) : Prop := ∀ P, Program.Keeps (On P) m

namespace Quiet

variable {α β : Type}

theorem ret (a : α) : Quiet (Program.ret a) := fun _ => Program.Keeps.ret

theorem raise (e : Raised) : Quiet (Program.raise e : FileProgram α) := fun _ => Program.Keeps.raise

theorem bind {m : FileProgram α} {f : α → FileProgram β} (hm : Quiet m) (hf : ∀ a, Quiet (f a)) :
    Quiet (m >>= f) := fun P => (hm P).bind fun a => hf a P

theorem ite {c : Prop} [Decidable c] {m m' : FileProgram α} (hm : Quiet m) (hm' : Quiet m') :
    Quiet (if c then m else m') := fun P => (hm P).ite (hm' P)

theorem handle {m : FileProgram α} {h : Raised → FileProgram α} (hm : Quiet m)
    (hh : ∀ e, Quiet (h e)) : Quiet (m.handle h) := fun P => (hm P).handle fun e => hh e P

theorem cleanup {m : FileProgram α} {f : FileProgram Unit} (hm : Quiet m) (hf : Quiet f) :
    Quiet (m.cleanup f) := fun P => (hm P).cleanup (hf P)

theorem finalize {m : FileProgram α} {f : FileProgram Unit} (hm : Quiet m) (hf : Quiet f) :
    Quiet (m.finalize f) := fun P => Program.Triple.finalize (hm P) (fun _ => hf P) fun _ => hf P

theorem look (f : Disk → Except Errno α) : Quiet (ManagedRoot.look f) := by
  intro P
  refine call_rule (Q := fun _ => P) fun count w w' a hw hf => ?_
  cases hlook : f w.disk with
  | error errno =>
      rw [hlook] at hf
      cases hf
  | ok b =>
      rw [hlook] at hf
      cases hf
      exact hw

theorem touch : Quiet ManagedRoot.touch := look _

theorem fail (r : Request) (code : FilesystemSafetyCode) (message : String) :
    Quiet (ManagedRoot.fail r code message : FileProgram α) := raise _

theorem onOSError {m : FileProgram α} {h : Errno → FileProgram α} (hm : Quiet m)
    (hh : ∀ errno, Quiet (h errno)) : Quiet (ManagedRoot.onOSError m h) := by
  refine handle hm fun e => ?_
  cases e with
  | os errno => exact hh errno
  | safety e => exact raise _
  | unsupported => exact raise _

theorem orFail {m : FileProgram α} (hm : Quiet m) (r : Request) (code : FilesystemSafetyCode)
    (message : String) : Quiet (ManagedRoot.orFail m r code message) :=
  onOSError hm fun _ => fail r code message

theorem requireSafeParent (root : ManagedRoot) (r : Request) (info : DirInfo) :
    Quiet (ManagedRoot.requireSafeParent root r info) :=
  ite (fail _ _ _) (ite (fail _ _ _) (ret ()))

theorem entryKind (dir : DirId) (name : Name) (r : Request) :
    Quiet (ManagedRoot.entryKind dir name r) :=
  onOSError (bind (look _) fun _ => ret _) fun _ => ite (ret _) (fail _ _ _)

theorem traversalOSError (errno : Errno) (dir : DirId) (name : Name) (r : Request) :
    Quiet (ManagedRoot.traversalOSError errno dir name r : FileProgram α) :=
  bind (entryKind dir name r) fun _ =>
    ite (fail _ _ _) (ite (fail _ _ _) (ite (fail _ _ _) (fail _ _ _)))

/-- The checks of a directory that a descriptor was opened on. -/
theorem checked (root : ManagedRoot) (r : Request) (dir : DirId) (message : String) :
    Quiet (Program.cleanup (do
      let info ← ManagedRoot.orFail (fstatDirectory dir) r .IO_FAILURE message
      ManagedRoot.requireSafeParent root r info) ManagedRoot.touch) :=
  cleanup (bind (orFail (look _) _ _ _) fun info => requireSafeParent root r info) touch

theorem descend (root : ManagedRoot) (r : Request) (components : List Name) (dir : DirId) :
    Quiet (ManagedRoot.descend root r components dir) := by
  induction components generalizing dir with
  | nil => exact ret dir
  | cons component components ih =>
      refine bind (cleanup ?_ touch) fun next => ih next
      refine bind (onOSError (look _) fun errno => traversalOSError errno _ _ _) fun next => ?_
      exact bind (checked root r next _) fun _ => bind touch fun _ => ret next

theorem requireOpen (root : ManagedRoot) (operation : String) :
    Quiet (ManagedRoot.requireOpen root operation) := by
  unfold ManagedRoot.requireOpen
  cases root.descriptor with
  | some dir => exact ret dir
  | none => exact raise _

theorem walkDirectories (root : ManagedRoot) (components : List Name) (r : Request) :
    Quiet (ManagedRoot.walkDirectories root components r) :=
  bind (requireOpen root r.operation) fun dir => bind (orFail touch _ _ _) fun _ =>
    bind (checked root r dir _) fun _ => descend root r components dir

theorem revalidateParent (root : ManagedRoot) (pinned : DirId) (components : List Name)
    (r : Request) : Quiet (ManagedRoot.revalidateParent root pinned components r) := by
  refine bind (handle (walkDirectories root components r) fun e => ?_) fun reached => ?_
  · cases e with
    | safety e => exact fail _ _ _
    | os errno => exact raise _
    | unsupported => exact raise _
  · refine finalize (orFail ?_ _ _ _) touch
    exact bind (look _) fun _ => bind (look _) fun _ => ite (fail _ _ _) (ret ())

theorem requireRegularDestination (dir : DirId) (name : Name) (r : Request)
    (requireExisting : Bool) :
    Quiet (ManagedRoot.requireRegularDestination dir name r requireExisting) :=
  bind (entryKind dir name r) fun _ =>
    ite (fail _ _ _) (ite (fail _ _ _) (ite (fail _ _ _) (ret ())))

theorem postMutationRevalidate (root : ManagedRoot) (pinned : DirId) (components : List Name)
    (name : Name) (ino : Nat) (r : Request) :
    Quiet (ManagedRoot.postMutationRevalidate root pinned components name ino r) :=
  bind (revalidateParent root pinned components r) fun _ => bind (orFail (look _) _ _ _) fun _ =>
    ite (fail _ _ _) (ret ())

theorem sync (r : Request) : Quiet (ManagedRoot.sync r) := orFail touch _ _ _

end Quiet

/-! ### Rules -/

/-- From `P`, the program returns in `Q` or raises in `E`. Nothing is said about a run that has not
ended. -/
def Rule {α : Type} (P : Held → Prop) (m : FileProgram α) (Q : α → Held → Prop)
    (E : Held → Prop) : Prop :=
  Program.Triple (On P) m (fun a => On (Q a)) (fun _ => On E) fun _ => True

namespace Rule

variable {α β : Type} {P P' E E' : Held → Prop} {m : FileProgram α} {Q Q' : α → Held → Prop}

theorem conseq (h : Rule P m Q E) (hP : ∀ s, P' s → P s) (hQ : ∀ a s, Q a s → Q' a s)
    (hE : ∀ s, E s → E' s) : Rule P' m Q' E' :=
  Program.Triple.conseq h (fun w hw => hP w.held hw) (fun a w hw => hQ a w.held hw)
    (fun _ w hw => hE w.held hw) fun _ _ => trivial

theorem call {f : Nat → World → Except Errno (World × α)}
    (h : ∀ count w w' a, P w.held → f count w = .ok (w', a) → Q a w'.held) :
    Rule P (ManagedRoot.call f) Q P :=
  Program.Triple.conseq (call_rule h) (fun _ hw => hw) (fun _ _ hw => hw) (fun _ _ hw => hw)
    fun _ _ => trivial

theorem quiet (h : Quiet m) : Rule P m (fun _ => P) P :=
  Program.Triple.conseq (h P) (fun _ hw => hw) (fun _ _ hw => hw) (fun _ _ hw => hw)
    fun _ _ => trivial

theorem ret {a : α} (h : ∀ s, P s → Q a s) : Rule P (Program.ret a) Q E :=
  Program.Triple.ret fun w hw => h w.held hw

theorem raise {e : Raised} (h : ∀ s, P s → E s) : Rule P (Program.raise e : FileProgram α) Q E :=
  Program.Triple.raise fun w hw => h w.held hw

theorem fail {r : Request} {code : FilesystemSafetyCode} {message : String}
    (h : ∀ s, P s → E s) : Rule P (ManagedRoot.fail r code message : FileProgram α) Q E := raise h

theorem bind {f : α → FileProgram β} {R : α → Held → Prop} {Q : β → Held → Prop}
    (hm : Rule P m R E) (hf : ∀ a, Rule (R a) (f a) Q E) : Rule P (m >>= f) Q E :=
  Program.Triple.bind hm hf

theorem ite {c : Prop} [Decidable c] {m' : FileProgram α} (hm : c → Rule P m Q E)
    (hm' : ¬ c → Rule P m' Q E) : Rule P (if c then m else m') Q E := Program.Triple.ite hm hm'

theorem handle {h : Raised → FileProgram α} (hm : Rule P m Q E) (hh : ∀ e, Rule E (h e) Q E') :
    Rule P (m.handle h) Q E' := Program.Triple.handle hm hh

theorem onOSError {h : Errno → FileProgram α} (hm : Rule P m Q E)
    (hh : ∀ errno, Rule E (h errno) Q E) : Rule P (ManagedRoot.onOSError m h) Q E := by
  refine handle hm fun e => ?_
  cases e with
  | os errno => exact hh errno
  | safety e => exact raise fun _ h => h
  | unsupported => exact raise fun _ h => h

theorem orFail {r : Request} {code : FilesystemSafetyCode} {message : String}
    (hm : Rule P m Q E) : Rule P (ManagedRoot.orFail m r code message) Q E :=
  onOSError hm fun _ => fail fun _ h => h

theorem setLocals {f : Locals → Locals} {Q : Unit → Held → Prop}
    (h : ∀ s, P s → Q () { s with locals := f s.locals }) :
    Rule P (ManagedRoot.setLocals f) Q E :=
  Program.Triple.modify fun w hw => h w.held hw

/-- A call that is made again when it was interrupted. -/
theorem unlessInterrupted (r : Request) (message : String) (hm : Rule P m Q P) :
    Rule P (ManagedRoot.unlessInterrupted m r message)
      (fun result s => match result with
        | none => P s
        | some a => Q a s) P := by
  refine onOSError (bind hm fun a => ret fun _ h => h) fun errno => ?_
  exact ite (fun _ => ret fun _ h => h) fun _ => fail fun _ h => h

/-- A loop, by what each of its rounds keeps. -/
theorem whileCalls {body : α → FileProgram (α ⊕ β)} {I : α → Held → Prop} {Q : β → Held → Prop}
    (hbody : ∀ a, Rule (I a) (body a)
      (fun next s => match next with
        | .inl a' => I a' s
        | .inr b => Q b s) E) (a : α) : Rule (I a) (ManagedRoot.whileCalls body a) Q E := by
  intro w hw
  refine Program.Triple.iterate (I := fun a => On (I a)) (fun _ _ _ => trivial) (fun a' => ?_) _ a w hw
  refine (hbody a').post fun next w h => ?_
  cases next with
  | inl _ => exact h
  | inr _ => exact h

end Rule

/-! ### The stages of the entries -/

theorem set_set (entries : Entries) (dir : DirId) (name : Name) (e e' : Option Entry) :
    (entries.set dir name e).set dir name e' = entries.set dir name e' := by
  funext d n
  unfold Entries.set
  split
  · rfl
  · rfl

theorem set_same (entries : Entries) (dir : DirId) (name : Name) (e : Option Entry) :
    entries.set dir name e dir name = e := if_pos ⟨rfl, rfl⟩

/-- An entry that was not there is taken away again. -/
theorem set_none {entries : Entries} {dir : DirId} {name : Name} (h : entries dir name = none)
    (e : Option Entry) : (entries.set dir name e).set dir name none = entries := by
  rw [set_set]
  funext d n
  unfold Entries.set
  split
  · rename_i heq
    rw [heq.1, heq.2, h]
  · rfl

/-- A regular file with exactly this content and mode. -/
def IsWhole (data : Octets) (mode : Nat) (e : Entry) : Prop :=
  e.node = .regular data ∧ e.mode = mode

variable {before : Entries} {dir : DirId} {name t : Name} {data u : Octets} {mode : Nat}

/-- The entries are as they were, and this much is to be read. -/
def Start (before : Entries) (u : Octets) (s : Held) : Prop :=
  s.entry = before ∧ s.renamed = false ∧ s.locals = {} ∧ s.unread = u

/-- A temporary file is made. -/
def Created (before : Entries) (dir : DirId) (t : Name) (R : Entry → Octets → Prop) (s : Held) :
    Prop :=
  before dir t = none ∧ TEMP_PREFIX <+: t ∧ s.renamed = false ∧
    ∃ e, R e s.unread ∧ s.entry = before.set dir t (some e)

/-- A temporary file is made, and its name is known to the cleanup. -/
def Made (before : Entries) (dir : DirId) (t : Name) (R : Entry → Octets → Prop) (s : Held) :
    Prop :=
  Created before dir t R s ∧ s.locals.temporaryName = some t ∧ s.locals.committed = false

/-- The rename went through. -/
def Renamed (before : Entries) (dir : DirId) (name : Name) (data : Octets) (mode : Nat)
    (s : Held) : Prop :=
  s.renamed = true ∧ ∃ e, IsWhole data mode e ∧ s.entry = before.set dir name (some e)

/-- The new file is at the destination, and the cleanup is to leave it there. -/
def Done (before : Entries) (dir : DirId) (name : Name) (data : Octets) (mode : Nat) (s : Held) :
    Prop :=
  Renamed before dir name data mode s ∧ s.locals.committed = true

/-- Where the mutation can be when it ends in an exception. -/
def Stopped (before : Entries) (dir : DirId) (name : Name) (data : Octets) (mode : Nat)
    (s : Held) : Prop :=
  (∃ u, Start before u s) ∨ (∃ t, Made before dir t (fun _ _ => True) s) ∨
    Done before dir name data mode s

theorem Made.weaken {R R' : Entry → Octets → Prop} {s : Held} (h : Made before dir t R s)
    (hR : ∀ e u, R e u → R' e u) : Made before dir t R' s := by
  obtain ⟨⟨hfree, hnamed, hrenamed, e, he, hentry⟩, hlocals⟩ := h
  exact ⟨⟨hfree, hnamed, hrenamed, e, hR e s.unread he, hentry⟩, hlocals⟩

/-- A call on the temporary file. -/
theorem change_rule {α : Type} {f : Nat → Entry → Entry} {g : Nat → α}
    {R : Entry → Octets → Prop} {R' : α → Entry → Octets → Prop}
    (h : ∀ count e u, R e u → R' (g count) (f count e) u) :
    Rule (Made before dir t R) (call fun count w => .ok (change dir t (f count) w, g count))
      (fun a => Made before dir t (R' a)) (Made before dir t R) := by
  refine Rule.call fun count w w' a hmade hf => ?_
  cases hf
  obtain ⟨⟨hfree, hnamed, hrenamed, e, he, hentry⟩, hlocals⟩ := hmade
  refine ⟨⟨hfree, hnamed, hrenamed, f count e, h count e _ he, ?_⟩, hlocals⟩
  change w.disk.entry.set dir t ((w.disk.entry dir t).map (f count)) = _
  have hdisk : w.disk.entry = before.set dir t (some e) := hentry
  rw [hdisk, set_same, set_set]
  rfl

/-! ### The temporary file -/

/-- A new file is empty. -/
def IsFresh (u : Octets) (e : Entry) (unread : Octets) : Prop :=
  e.node = .regular [] ∧ unread = u

theorem createFile_rule (process : Process) (hnamed : TEMP_PREFIX <+: t) :
    Rule (Start before u) (createFile process dir t)
      (fun _ s => Created before dir t (IsFresh u) s ∧ s.locals = {}) (Start before u) := by
  refine Rule.call fun count w w' a hstart hf => ?_
  obtain ⟨hentry, hrenamed, hlocals, hunread⟩ := hstart
  have hdisk : w.disk.entry = before := hentry
  cases hfree : w.disk.entry dir t with
  | some e =>
      rw [hfree] at hf
      cases hf
  | none =>
      rw [hfree] at hf
      cases hf
      let mode := DEFAULT_FILE_MODE - (DEFAULT_FILE_MODE &&& process.umask)
      let e : Entry := ⟨.regular [], w.disk.inode, process.euid, mode⟩
      refine ⟨⟨hdisk ▸ hfree, hnamed, hrenamed, e, ⟨rfl, hunread⟩, ?_⟩, hlocals⟩
      exact congrArg (fun entries : Entries => entries.set dir t _) hdisk

/-- A temporary file is made under some name, or nothing is. -/
theorem tryTemporary_rule (process : Process) (r : Request) (tries : Nat) :
    Rule (Start before u) (tryTemporary process dir r tries)
      (fun t s => Created before dir t (IsFresh u) s ∧ s.locals = {}) (Start before u) := by
  induction tries with
  | zero => exact Rule.fail fun _ h => h
  | succ tries ih =>
      have hnamed : TEMP_PREFIX <+: temporaryName process (127 - tries) := List.prefix_append _ _
      have hcreate : Rule (Start before u)
          (onOSError (createFile process dir (temporaryName process (127 - tries)) >>= fun _ =>
            Program.ret true) fun errno =>
              if errno = .eexist then Program.ret false
              else fail r .IO_FAILURE "could not create destination-local temporary file")
          (fun created s => if created = true then
            Created before dir (temporaryName process (127 - tries)) (IsFresh u) s ∧ s.locals = {}
            else Start before u s) (Start before u) := by
        refine Rule.onOSError ((createFile_rule process hnamed).bind fun _ =>
          Rule.ret fun s h => (if_pos rfl).mpr h) fun errno => ?_
        exact Rule.ite (fun _ => Rule.ret fun s h => h) fun _ => Rule.fail fun _ h => h
      refine hcreate.bind fun created => ?_
      cases created with
      | true => exact Rule.ret fun _ h => h
      | false => exact ih

/-- A new file with its mode. -/
def IsSecured (u : Octets) (mode : Nat) (e : Entry) (unread : Octets) : Prop :=
  IsWhole [] mode e ∧ unread = u

/-- The temporary file gets its mode, and is not touched otherwise. -/
theorem secureTemporary_rule (root : ManagedRoot) (r : Request) :
    Rule (Made before dir t (IsFresh u)) (secureTemporary root dir t mode r)
      (fun _ => Made before dir t (IsSecured u mode)) (Made before dir t fun _ _ => True) := by
  have hchmod : Rule (Made before dir t (IsFresh u)) (fchmod dir t mode)
      (fun _ => Made before dir t (IsSecured u mode)) (Made before dir t fun _ _ => True) := by
    have hchange : Rule (Made before dir t (IsFresh u)) (fchmod dir t mode)
        (fun _ => Made before dir t (IsSecured u mode)) (Made before dir t (IsFresh u)) :=
      change_rule fun _ e _ hfresh => ⟨⟨hfresh.1, rfl⟩, hfresh.2⟩
    exact hchange.conseq (fun _ h => h) (fun _ _ h => h) fun _ h => h.weaken fun _ _ _ => trivial
  have hlook : Rule (Made before dir t (IsSecured u mode)) (lstat dir t)
      (fun _ => Made before dir t (IsSecured u mode)) (Made before dir t fun _ _ => True) :=
    (Rule.quiet (Quiet.look _)).conseq (fun _ h => h) (fun _ _ h => h)
      fun _ h => h.weaken fun _ _ _ => trivial
  refine Rule.orFail (hchmod.bind fun _ => hlook.bind fun e => Rule.ite (fun _ => ?_) fun _ =>
    Rule.ite (fun _ => ?_) fun _ => Rule.ret fun _ h => h)
  · exact Rule.fail fun _ h => h.weaken fun _ _ _ => trivial
  · exact Rule.fail fun _ h => h.weaken fun _ _ _ => trivial

/-! ### The content -/

/-- A file to which this is still to be written. -/
def IsLacking (goal : Octets) (mode : Nat) (u remaining : Octets) (e : Entry) (unread : Octets) :
    Prop :=
  (∃ content, content ++ remaining = goal ∧ IsWhole content mode e) ∧ unread = u

theorem isLacking_nil {goal unread : Octets} {e : Entry}
    (h : IsLacking goal mode u [] e unread) : IsWhole goal mode e ∧ unread = u := by
  obtain ⟨⟨content, rfl, hwhole⟩, hunread⟩ := h
  rw [List.append_nil]
  exact ⟨hwhole, hunread⟩

/-- Writing takes a part of what is lacking. -/
theorem osWrite_rule (goal remaining : Octets) :
    Rule (Made before dir t (IsLacking goal mode u remaining)) (osWrite dir t remaining)
      (fun written => Made before dir t (IsLacking goal mode u (remaining.drop written)))
      (Made before dir t (IsLacking goal mode u remaining)) := by
  refine change_rule fun count e unread h => ?_
  obtain ⟨⟨content, hgoal, hnode, hmode⟩, hunread⟩ := h
  refine ⟨⟨content ++ remaining.take count, ?_, ?_, ?_⟩, hunread⟩
  · have hdrop : remaining.drop (min count remaining.length) = remaining.drop count := by
      rcases Nat.le_total count remaining.length with hle | hle
      · rw [Nat.min_eq_left hle]
      · rw [Nat.min_eq_right hle, List.drop_length, List.drop_eq_nil_of_le hle]
    rw [hdrop, List.append_assoc, List.take_append_drop]
    exact hgoal
  · unfold Entry.extend
    rw [hnode]
  · unfold Entry.extend
    rw [hnode]
    exact hmode

/-- All of the data is written, however the calls cut it up. -/
theorem writeAll_rule (r : Request) (goal remaining : Octets) :
    Rule (Made before dir t (IsLacking goal mode u remaining)) (writeAll dir t r remaining)
      (fun _ => Made before dir t fun e unread => IsWhole goal mode e ∧ unread = u)
      (Made before dir t fun _ _ => True) := by
  refine Rule.whileCalls (I := fun remaining => Made before dir t (IsLacking goal mode u remaining))
    (fun remaining => ?_) remaining
  refine Rule.ite (fun hempty => ?_) fun _ => ?_
  · subst hempty
    exact Rule.ret fun _ h => h.weaken fun _ _ => isLacking_nil
  · have hcall := Rule.unlessInterrupted r "could not write temporary file"
      (@osWrite_rule before dir t u mode goal remaining)
    refine Rule.bind (hcall.conseq (fun _ h => h) (fun _ _ h => h) fun _ h =>
      h.weaken fun _ _ _ => trivial) fun result => ?_
    cases result with
    | none => exact Rule.ret fun _ h => h
    | some written =>
        refine Rule.ite (fun _ => Rule.fail fun _ h => h.weaken fun _ _ _ => trivial) fun _ => ?_
        exact Rule.ret fun _ h => h

/-- A copy of what was read of the source. -/
def IsCopying (goal : Octets) (mode : Nat) (e : Entry) (unread : Octets) : Prop :=
  ∃ content, content ++ unread = goal ∧ IsWhole content mode e

/-- A chunk is read and is to be written. -/
def IsBehind (goal : Octets) (mode : Nat) (chunk : Octets) (e : Entry) (unread : Octets) : Prop :=
  ∃ content, content ++ (chunk ++ unread) = goal ∧ IsWhole content mode e ∧
    (chunk = [] → unread = [])

theorem osRead_rule (goal : Octets) :
    Rule (Made before dir t (IsCopying goal mode)) osRead
      (fun chunk => Made before dir t (IsBehind goal mode chunk))
      (Made before dir t (IsCopying goal mode)) := by
  refine Rule.call fun count w w' a hmade hf => ?_
  cases hf
  obtain ⟨⟨hfree, hnamed, hrenamed, e, ⟨content, hgoal, hwhole⟩, hentry⟩, hlocals⟩ := hmade
  refine ⟨⟨hfree, hnamed, hrenamed, e, ⟨content, ?_, hwhole, fun hempty => ?_⟩, hentry⟩, hlocals⟩
  · change content ++ (w.unread.take _ ++ w.unread.drop _) = goal
    rw [List.take_append_drop]
    exact hgoal
  · -- a read of at least one byte comes back empty at the end only
    have hpos : min (count + 1) COPY_BUFFER_SIZE ≠ 0 := by
      unfold COPY_BUFFER_SIZE
      omega
    have hnil : w.unread = [] := (List.take_eq_nil_iff.mp hempty).resolve_left hpos
    change w.unread.drop _ = []
    rw [hnil, List.drop_nil]

/-- A chunk is written, and the unread rest is left for the next rounds. -/
theorem writeChunk_rule (r : Request) (goal chunk : Octets) :
    Rule (Made before dir t (IsBehind goal mode chunk)) (writeAll dir t r chunk)
      (fun _ => Made before dir t (IsCopying goal mode)) (Made before dir t fun _ _ => True) := by
  intro w hw
  obtain ⟨⟨hfree, hnamed, hrenamed, e, ⟨content, hgoal, hwhole, -⟩, hentry⟩, hlocals⟩ := hw
  have hwrite := @writeAll_rule before dir t w.unread mode r (content ++ chunk) chunk
  refine Program.Triple.post hwrite (fun _ _ h => ?_) w
    ⟨⟨hfree, hnamed, hrenamed, e, ⟨⟨content, rfl, hwhole⟩, rfl⟩, hentry⟩, hlocals⟩
  refine Made.weaken h fun e' unread h => ⟨content ++ chunk, ?_, h.1⟩
  rw [h.2, List.append_assoc]
  exact hgoal

/-- The whole source is copied, however the calls cut it up. -/
theorem copyContent_rule (r : Request) (signature : Nat) (goal : Octets) :
    Rule (Made before dir t (IsCopying goal mode)) (copyContent signature r dir t)
      (fun _ => Made before dir t fun e _ => IsWhole goal mode e)
      (Made before dir t fun _ _ => True) := by
  refine Rule.whileCalls (I := fun _ => Made before dir t (IsCopying goal mode)) (fun _ => ?_) ()
  have hcall := Rule.unlessInterrupted r "could not read copy source"
    (@osRead_rule before dir t mode goal)
  refine Rule.bind (hcall.conseq (fun _ h => h) (fun _ _ h => h) fun _ h =>
    h.weaken fun _ _ _ => trivial) fun result => ?_
  cases result with
  | none => exact Rule.ret fun _ h => h
  | some chunk =>
      cases chunk with
      | nil =>
          have hend : Rule (Made before dir t (IsBehind goal mode []))
              (orFail sourceSignature r .IO_FAILURE "could not re-inspect copy source")
              (fun _ => Made before dir t fun e _ => IsWhole goal mode e)
              (Made before dir t fun _ _ => True) := by
            refine Rule.orFail (Rule.conseq (Rule.call (Q := fun _ =>
              Made before dir t (IsBehind goal mode [])) fun count w w' a h hf => ?_)
              (fun _ h => h) (fun _ _ h => h.weaken fun e unread h => ?_)
              fun _ h => h.weaken fun _ _ _ => trivial)
            · cases hf
              exact h
            · obtain ⟨content, hgoal, hwhole, hempty⟩ := h
              rw [hempty rfl, List.append_nil, List.append_nil] at hgoal
              exact hgoal ▸ hwhole
          refine hend.bind fun final => Rule.ite (fun _ => Rule.fail fun _ h =>
            h.weaken fun _ _ _ => trivial) fun _ => Rule.ret fun _ h => h
      | cons byte rest =>
          exact (writeChunk_rule r goal (byte :: rest)).bind fun _ => Rule.ret fun _ h => h

/-! ### The mutation -/

/-- The rename puts the file at the destination, also where the two names are one. -/
theorem replace_rule (process : Process) :
    Rule (Made before dir t fun e _ => IsWhole data mode e) (replace process dir t name)
      (fun _ => Renamed before dir name data mode) (Made before dir t fun e _ => IsWhole data mode e) := by
  refine Rule.ite (fun _ => Rule.raise fun _ h => h) fun _ => ?_
  refine Rule.call fun count w w' a hmade hf => ?_
  obtain ⟨⟨hfree, -, -, e, hwhole, hentry⟩, -⟩ := hmade
  have hdisk : w.disk.entry = before.set dir t (some e) := hentry
  rw [hdisk, set_same] at hf
  have hmoved : ((before.set dir t (some e)).set dir t none).set dir name (some e) =
      before.set dir name (some e) := by rw [set_none hfree]
  cases hnode : ((before.set dir t (some e)) dir name).map Entry.node with
  | none =>
      rw [hnode] at hf
      cases hf
      exact ⟨rfl, e, hwhole, hmoved⟩
  | some node =>
      rw [hnode] at hf
      cases node with
      | directory id => cases hf
      | regular content =>
          cases hf
          exact ⟨rfl, e, hwhole, hmoved⟩
      | symlink target =>
          cases hf
          exact ⟨rfl, e, hwhole, hmoved⟩
      | special =>
          cases hf
          exact ⟨rfl, e, hwhole, hmoved⟩

/-- A failed rename is told apart, and raised. -/
theorem mutationOSError_rule {α : Type} {P : Held → Prop} {Q : α → Held → Prop} (errno : Errno)
    (r : Request) : Rule P (mutationOSError errno dir name r) Q P :=
  (Rule.quiet (Quiet.entryKind dir name r)).bind fun _ =>
    Rule.ite (fun _ => Rule.fail fun _ h => h) fun _ =>
      Rule.ite (fun _ => Rule.fail fun _ h => h) fun _ => Rule.fail fun _ h => h

/-- What the writer of the content is to do. -/
def Fills (u data : Octets) (mode : Nat) (content : DirId → Name → FileProgram Unit) : Prop :=
  ∀ before dir t, Rule (Made before dir t (IsSecured u mode)) (content dir t)
    (fun _ => Made before dir t fun e _ => IsWhole data mode e) (Made before dir t fun _ _ => True)

theorem fills_writeAll (r : Request) (u data : Octets) (mode : Nat) :
    Fills u data mode fun dir name => writeAll dir name r data := by
  intro before dir t
  refine (writeAll_rule (u := u) r data data).conseq (fun s h => h.weaken fun e unread h => ?_)
    (fun _ _ h => h.weaken fun _ _ h => h.1) fun _ h => h
  exact ⟨⟨[], List.nil_append data, h.1⟩, h.2⟩

theorem fills_copyContent (r : Request) (signature : Nat) (data : Octets) (mode : Nat) :
    Fills data data mode (copyContent signature r) := by
  intro before dir t
  refine (copyContent_rule r signature data).conseq (fun s h => h.weaken fun e unread h => ?_)
    (fun _ _ h => h) fun _ h => h
  exact ⟨[], by rw [h.2, List.nil_append], h.1⟩

theorem Stopped.of_made {R : Entry → Octets → Prop} {s : Held} (h : Made before dir t R s) :
    Stopped before dir name data mode s :=
  .inr (.inl ⟨t, h.weaken fun _ _ _ => trivial⟩)

/-- The steps that only look, at each stage. -/
theorem Rule.quiet_stopped {α : Type} {m : FileProgram α} (h : Quiet m) {P : Held → Prop}
    (hP : ∀ s, P s → Stopped before dir name data mode s) :
    Rule P m (fun _ => P) (Stopped before dir name data mode) :=
  (Rule.quiet h).conseq (fun _ h => h) (fun _ _ h => h) hP

/-- The mutation gets through, or stops at one of its stages. -/
theorem mutate_rule (process : Process) (root : ManagedRoot) (components : List Name)
    {content : DirId → Name → FileProgram Unit} (hfills : Fills u data mode content) (r : Request)
    (requireExisting : Bool) :
    Rule (Start before u)
      (mutate process root dir components name mode content r requireExisting)
      (fun _ => Done before dir name data mode) (Stopped before dir name data mode) := by
  have hstart : ∀ s, Start before u s → Stopped before dir name data mode s :=
    fun s h => .inl ⟨u, h⟩
  have hwhole : ∀ t s, Made before dir t (fun e _ => IsWhole data mode e) s →
      Stopped before dir name data mode s := fun t s h => Stopped.of_made h
  have hdone : ∀ s, Done before dir name data mode s → Stopped before dir name data mode s :=
    fun s h => .inr (.inr h)
  -- before the temporary file
  refine (Rule.quiet_stopped (Quiet.revalidateParent root dir components r) hstart).bind fun _ => ?_
  refine (Rule.quiet_stopped (Quiet.requireRegularDestination dir name r requireExisting)
    hstart).bind fun _ => ?_
  refine ((tryTemporary_rule process r 128).conseq (fun _ h => h) (fun _ _ h => h) hstart).bind
    fun t => ?_
  -- with the temporary file
  refine (Rule.setLocals (Q := fun _ => Made before dir t (IsFresh u)) fun s h =>
    ⟨h.1, rfl, congrArg Locals.committed h.2⟩).bind fun _ => ?_
  refine ((secureTemporary_rule root r).conseq (fun _ h => h) (fun _ _ h => h)
    fun _ h => Stopped.of_made h).bind fun identity => ?_
  refine ((hfills before dir t).conseq (fun _ h => h) (fun _ _ h => h)
    fun _ h => Stopped.of_made h).bind fun _ => ?_
  refine (Rule.quiet_stopped (Quiet.sync r) (hwhole t)).bind fun _ => ?_
  refine (Rule.quiet_stopped Quiet.touch (hwhole t)).bind fun _ => ?_
  have hclosed : Rule (Made before dir t fun e _ => IsWhole data mode e)
      (setLocals fun l => { l with temporaryFd := false })
      (fun _ => Made before dir t fun e _ => IsWhole data mode e)
      (Stopped before dir name data mode) := Rule.setLocals fun _ h => h
  refine hclosed.bind fun _ => ?_
  refine (Rule.quiet_stopped (Quiet.revalidateParent root dir components r) (hwhole t)).bind
    fun _ => ?_
  refine (Rule.quiet_stopped (Quiet.requireRegularDestination dir name r requireExisting)
    (hwhole t)).bind fun _ => ?_
  refine Rule.bind (R := fun _ => Renamed before dir name data mode)
    (Rule.handle (Rule.onOSError (replace_rule process) fun errno =>
      mutationOSError_rule errno r) fun e => ?_) fun _ => ?_
  · cases e with
    | unsupported => exact Rule.fail (hwhole t)
    | safety e => exact Rule.raise (hwhole t)
    | os errno => exact Rule.raise (hwhole t)
  -- with the new file
  refine (Rule.setLocals (Q := fun _ => Done before dir name data mode) fun s h =>
    ⟨h, rfl⟩).bind fun _ => ?_
  refine (Rule.quiet_stopped (Quiet.sync r) hdone).bind fun _ => ?_
  exact Rule.quiet_stopped (Quiet.postMutationRevalidate root dir components name identity r) hdone

/-! ### The cleanup -/

/-- Nothing is raised. -/
def nowhere (_ : Held) : Prop := False

/-- What a call raises is an `OSError`: a fault, or what the entries say. -/
theorem call_raises {α : Type} {f : Nat → World → Except Errno (World × α)} {P : Held → Prop}
    {Q : α → Held → Prop}
    (h : ∀ count w w' a, P w.held → f count w = .ok (w', a) → Q a w'.held) :
    Program.Triple (On P) (call f) (fun a => On (Q a))
      (fun e w => ∃ errno, (e = .os errno ∧ ((∃ fault : Fault, errno = fault.errno) ∨
        ∃ count w', P w'.held ∧ f count w' = .error errno)) ∧ On P w) fun _ => True := by
  intro w hw
  unfold call
  cases w.turns with
  | nil => trivial
  | cons turn turns =>
      cases turn with
      | fails fault => exact ⟨fault.errno, ⟨rfl, .inl ⟨fault, rfl⟩⟩, hw⟩
      | goes count =>
          cases hf : f count { w with turns } with
          | error errno =>
              simp only [hf]
              exact ⟨errno, ⟨rfl, .inr ⟨count, { w with turns }, hw, hf⟩⟩, hw⟩
          | ok result =>
              simp only [hf]
              exact h count { w with turns } result.1 result.2 hw hf

/-- A call whose failures are all caught. -/
theorem caught_rule {α β : Type} {f : Nat → World → Except Errno (World × α)} {a' : β}
    {h : Errno → FileProgram β} {P : Held → Prop} {Q : β → Held → Prop} {E : Held → Prop}
    (hf : ∀ count w w' a, P w.held → f count w = .ok (w', a) → Q a' w'.held)
    (hh : ∀ errno, ((∃ fault : Fault, errno = fault.errno) ∨
      ∃ count w, P w.held ∧ f count w = .error errno) → Rule P (h errno) Q E) :
    Rule P (onOSError (call f >>= fun _ => Program.ret a') h) Q E := by
  have hcall := call_raises (Q := fun _ => Q a') hf
  refine Program.Triple.handle (hcall.bind fun _ => Program.Triple.ret fun _ h => h) fun e => ?_
  rintro w ⟨errno, ⟨rfl, hcause⟩, hw⟩
  exact hh errno hcause w hw

/-- A failure that is noted and not raised. -/
theorem noting_rule {P : Held → Prop} (noted : List String) :
    Rule P (onOSError (touch >>= fun _ => Program.ret []) fun _ => Program.ret noted)
      (fun _ => P) nowhere := by
  refine caught_rule (f := fun _ w => (Except.ok () : Except Errno Unit).map fun a => (w, a))
    (Q := fun _ => P) (fun count w w' a h hf => ?_) fun errno _ => Rule.ret fun _ h => h
  cases hf
  exact h

/-- The entries are as they were. -/
def Unchanged (before : Entries) (s : Held) : Prop := s.entry = before ∧ s.renamed = false

/-- Any temporary file. -/
def Leftover (before : Entries) (dir : DirId) (s : Held) : Prop :=
  ∃ t, Made before dir t (fun _ _ => True) s

theorem unlink_rule :
    Rule (Made before dir t fun _ _ => True)
      (onOSError (unlink dir t >>= fun _ => Program.ret []) fun errno =>
        if errno = .enoent then Program.ret [] else Program.ret ["unlink_temporary_file"])
      (fun noted s => Unchanged before s ∨ (noted ≠ [] ∧ Made before dir t (fun _ _ => True) s))
      nowhere := by
  refine caught_rule (fun count w w' a hmade hf => ?_) fun errno hcause => ?_
  · obtain ⟨⟨hfree, -, hrenamed, e, -, hentry⟩, -⟩ := hmade
    have hdisk : w.disk.entry = before.set dir t (some e) := hentry
    rw [hdisk, set_same] at hf
    have hback : (before.set dir t (some e)).set dir t none = before := set_none hfree _
    obtain ⟨node, ino, uid, mode⟩ := e
    cases node with
    | directory id => cases hf
    | regular content =>
        cases hf
        exact .inl ⟨hback, hrenamed⟩
    | symlink target =>
        cases hf
        exact .inl ⟨hback, hrenamed⟩
    | special =>
        cases hf
        exact .inl ⟨hback, hrenamed⟩
  · -- the entry is there, so the failure is noted
    have hnot : errno ≠ .enoent := by
      rintro rfl
      rcases hcause with ⟨fault, hfault⟩ | ⟨count, w, hmade, hf⟩
      · cases fault <;> cases hfault
      · obtain ⟨⟨-, -, -, e, -, hentry⟩, -⟩ := hmade
        have hdisk : w.disk.entry = before.set dir t (some e) := hentry
        rw [hdisk, set_same] at hf
        obtain ⟨node, ino, uid, mode⟩ := e
        cases node <;> cases hf
    rw [if_neg hnot]
    exact Rule.ret fun s h => .inr ⟨List.cons_ne_nil _ _, h⟩

/-- The temporary file is removed, or a failure is noted. -/
theorem cleanupTemporaryEntry_rule :
    Rule (Made before dir t fun _ _ => True) (cleanupTemporaryEntry dir t)
      (fun noted s => Unchanged before s ∨ (noted ≠ [] ∧ Leftover before dir s)) nowhere := by
  refine unlink_rule.bind fun removed => (noting_rule _).bind fun synced => ?_
  refine Program.Triple.pure fun w h => ?_
  rcases h with h | ⟨hnoted, h⟩
  · exact .inl h
  · exact .inr ⟨List.append_ne_nil_of_left_ne_nil hnoted _, t, h⟩

/-- What the cleanup leaves. -/
def Cleaned (before : Entries) (dir : DirId) (name : Name) (data : Octets) (mode : Nat)
    (noted : List String) (s : Held) : Prop :=
  Unchanged before s ∨ (noted ≠ [] ∧ Leftover before dir s) ∨ Done before dir name data mode s

/-- The descriptors are closed around the removal. -/
theorem cleanUpWith_rule {P : Held → Prop} {Q : List String → Held → Prop} (l : Locals)
    (hremove : Rule P (removeTemporary dir l) Q nowhere)
    (hQ : ∀ noted left right s, Q noted s → Q (left ++ noted ++ right) s) :
    Rule P (cleanUpWith dir l) Q nowhere := by
  have hclosed : Rule P (closeTemporary l) (fun _ => P) nowhere :=
    Rule.ite (fun _ => noting_rule ["close_temporary_file"]) fun _ => Rule.ret fun _ h => h
  have hparent : ∀ noted, Rule (Q noted) (closeNoting "close_destination_parent")
      (fun _ => Q noted) nowhere := fun noted => noting_rule ["close_destination_parent"]
  refine hclosed.bind fun closed => hremove.bind fun removed => (hparent removed).bind
    fun parent => ?_
  exact Program.Triple.pure fun w h => hQ removed closed parent w.held h

/-- The cleanup raises nothing, and removes what is not at the destination. -/
theorem cleanUp_rule :
    Rule (Stopped before dir name data mode) (cleanUp dir) (Cleaned before dir name data mode)
      nowhere := by
  have hkeep : ∀ noted left right s, Cleaned before dir name data mode noted s →
      Cleaned before dir name data mode (left ++ noted ++ right) s := by
    intro noted left right s h
    rcases h with h | ⟨hnoted, h⟩ | h
    · exact .inl h
    · refine .inr (.inl ⟨List.append_ne_nil_of_left_ne_nil ?_ _, h⟩)
      exact List.append_ne_nil_of_right_ne_nil _ hnoted
    · exact .inr (.inr h)
  refine Program.Triple.bind_get fun w hw => ?_
  rcases hw with ⟨u, hstart⟩ | ⟨t, hmade⟩ | hdone
  · have hlocals : w.locals = {} := hstart.2.2.1
    rw [hlocals]
    refine Program.Triple.pre (cleanUpWith_rule (P := Start before u) {} ?_ hkeep)
      fun _ h => h ▸ hstart
    exact Rule.ret fun s h => .inl ⟨h.1, h.2.1⟩
  · refine Program.Triple.pre (cleanUpWith_rule (P := Made before dir t fun _ _ => True) _ ?_ hkeep)
      fun _ h => h ▸ hmade
    have hname : w.locals.temporaryName = some t := hmade.2.1
    have hcommitted : w.locals.committed = false := hmade.2.2
    unfold removeTemporary
    rw [hname, hcommitted]
    refine cleanupTemporaryEntry_rule.conseq (fun _ h => h) (fun noted s h => ?_) fun _ h => h
    rcases h with h | h
    · exact .inl h
    · exact .inr (.inl h)
  · refine Program.Triple.pre (cleanUpWith_rule (P := Done before dir name data mode) _ ?_ hkeep)
      fun _ h => h ▸ hdone
    have hcommitted : w.locals.committed = true := hdone.2
    unfold removeTemporary
    rw [hcommitted]
    cases w.locals.temporaryName with
    | none => exact Rule.ret fun s h => .inr (.inr h)
    | some name => exact Rule.ret fun s h => .inr (.inr h)

/-- After the rename the cleanup leaves the entries alone. -/
theorem cleanUp_done :
    Rule (Done before dir name data mode) (cleanUp dir) (fun _ => Done before dir name data mode)
      nowhere := by
  refine Program.Triple.bind_get fun w hdone => ?_
  refine Program.Triple.pre (cleanUpWith_rule (P := Done before dir name data mode) _ ?_
    fun _ _ _ _ h => h) fun _ h => h ▸ hdone
  have hcommitted : w.locals.committed = true := hdone.2
  unfold removeTemporary
  rw [hcommitted]
  cases w.locals.temporaryName with
  | none => exact Rule.ret fun s h => h
  | some name => exact Rule.ret fun s h => h

end ManagedRoot

end Filesystem

end Ophelia
