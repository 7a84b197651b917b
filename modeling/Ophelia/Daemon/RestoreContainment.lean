import Ophelia.Daemon.HostRestore

/-!
# Ophelia.Daemon.RestoreContainment

Whether a clean restore stays inside its target. The paths of a manifest are checked as names,
but the symbolic links are made one after another in the tree the names are looked up in, so an
entry that is declared below a link lands where the link leads.

Until the first link is made the payload has none, and a path without links leads nowhere but to
itself. With no link declared below another that stays so for every path the restore looks up,
and every link leads to its declared target (`restore_contained`).
-/

namespace Ophelia

open FileTree Program

variable {tools : RestoreTools} {restore : CleanRestore}

/-! ### The property -/

/-- No symbolic link is declared below another. -/
def NoneBelow (entries : List RecoveryEntry) : Prop :=
  ∀ s t s' t', .symlink s t ∈ entries → .symlink s' t' ∈ entries → s.parts <+: s'.parts →
    s.parts = s'.parts

/-- Following the declared targets from an entry comes to an entry that is not a link. -/
inductive LinkEnds (entries : List RecoveryEntry) : SafePath → Prop where
  | standing {path : SafePath} (h : ∀ t, .symlink path t ∉ entries) : LinkEnds entries path
  | link {path target : SafePath} (h : .symlink path target ∈ entries) (hends : LinkEnds entries target) :
      LinkEnds entries path

/-- The links of a published runtime root lead into it. -/
def LinksInside (restore : CleanRestore) (view : View String (List UInt8)) : Prop :=
  ∀ path steps, restore.targetRoot <+: path → view path = some (.link steps) →
    ∃ links place, lookup view links path = .ok place ∧ restore.targetRoot <+: place

/-! ### Disks that grow -/

/-- Everything stays, and no link comes new. -/
structure Extends (base disk : HostDisk) : Prop where
  grows : Disk.Grows base disk
  links : ∀ path steps, disk.view path = some (.link steps) → base.view path = some (.link steps)

theorem Extends.refl (disk : HostDisk) : Extends disk disk :=
  ⟨Disk.Grows.refl disk, fun _ _ h => h⟩

theorem Extends.linkFree {base disk : HostDisk} (h : Extends base disk) {path : List String}
    (hfree : LinkFree base.view path) : LinkFree disk.view path := by
  intro place hplace node hnode
  cases node with
  | link steps => exact hfree place hplace _ (h.links place steps hnode)
  | directory mode => rfl
  | regular mode content => rfl
  | special => rfl

theorem Extends.put {base disk : HostDisk} (h : Extends base disk) {place : List String}
    {node : FileTree.Node String (List UInt8)} (hfree : disk.Free place) (hlink : node.isLink = false) :
    Extends base (disk.put place node (hfree.replaces node)) where
  grows := h.grows.trans (hfree.grows node)
  links := by
    intro path steps hpath
    rw [Disk.view_put] at hpath
    by_cases heq : path = place
    · rw [if_pos heq] at hpath
      rw [Option.some.inj hpath] at hlink
      cases hlink
    · rw [if_neg heq] at hpath
      exact h.links path steps hpath

/-! ### The system calls -/

/-- What the making of a node can do. -/
theorem triple_osMake (path : List String) (node : FileTree.Node String (List UInt8)) (work : Work) :
    Triple (fun w => w = work) (osMake tools path node)
      (fun result w => (∃ e, result = .error e ∧ w = work) ∨
        ∃ place, ∃ hfree : work.disk.Free place, result = .ok place ∧
          work.disk.place tools.links path = .ok place ∧
          w = { work with disk := work.disk.put place node (hfree.replaces node) })
      (fun _ w => w = work) fun _ => False := by
  intro w hw
  subst hw
  unfold osMake
  by_cases hnames : path.all nameAllowed = true
  · rw [if_pos hnames]
    cases hmake : w.disk.make tools.links path node with
    | error e => exact .inl ⟨e, rfl, rfl⟩
    | ok made =>
        obtain ⟨place, disk⟩ := made
        obtain ⟨hfree, hplace, rfl⟩ := Disk.make_eq_ok hmake
        exact .inr ⟨place, hfree, rfl, hplace, rfl⟩
  · rw [if_neg hnames]

/-- A directory is made where its path leads, and logged. -/
theorem triple_osMkdir (mode : Nat) (path : List String) (work : Work) :
    Triple (fun w => w = work) (osMkdir tools mode path)
      (fun result w => (∃ e, result = some e ∧ w = work) ∨
        ∃ place, ∃ hfree : work.disk.Free place, result = none ∧
          work.disk.place tools.links path = .ok place ∧
          w = {
            disk := work.disk.put place (.directory mode) (hfree.replaces _)
            touched := work.touched ++ [.made place] })
      (fun _ w => w = work) fun _ => False := by
  refine Triple.bind (triple_osMake path (.directory mode) work) fun result => ?_
  cases result with
  | error e =>
      refine Triple.pure fun w hw => ?_
      cases hw with
      | inl hw => exact .inl ⟨e, rfl, hw.choose_spec.2⟩
      | inr hw =>
          obtain ⟨place, hfree, hresult, -⟩ := hw
          cases hresult
  | ok place =>
      refine Triple.bind (R := fun _ w => ∃ hfree : work.disk.Free place,
        work.disk.place tools.links path = .ok place ∧ w = {
            disk := work.disk.put place (.directory mode) (hfree.replaces _)
            touched := work.touched ++ [.made place] }) ?_ fun _ => ?_
      · refine Triple.modify fun w hw => ?_
        cases hw with
        | inl hw =>
            obtain ⟨e, hresult, -⟩ := hw
            cases hresult
        | inr hw =>
            obtain ⟨place', hfree, hresult, hplace, rfl⟩ := hw
            obtain rfl := Except.ok.inj hresult
            exact ⟨hfree, hplace, rfl⟩
      · exact Triple.pure fun w hw => .inr ⟨place, hw.choose, rfl, hw.choose_spec⟩

/-- An invariant that a new directory keeps is kept by making directories. -/
theorem keeps_makeDirectories {I : Work → Prop} {reversed : List String}
    (h : ∀ mode path, path <+: reversed.reverse → Keeps I (osMkdir tools mode path)) (mode : Nat) :
    Keeps I (makeDirectories tools mode reversed) := by
  have haccept : ∀ path, Keeps I (acceptDirectory tools path) := by
    intro path
    exact Keeps.bind Keeps.get fun work => Keeps.ite Keeps.pure Keeps.raise
  induction reversed generalizing mode with
  | nil => exact Keeps.pure
  | cons name up ih =>
      have hself : ∀ mode, Keeps I (osMkdir tools mode (name :: up).reverse) :=
        fun mode => h mode _ (List.prefix_refl _)
      have hup : up.reverse <+: (name :: up).reverse := by
        rw [List.reverse_cons]
        exact List.prefix_append _ _
      have hparents : Keeps I (makeDirectories tools tools.parentMode up) :=
        ih (fun mode path hpath => h mode path (hpath.trans hup)) _
      refine Keeps.bind (hself mode) fun result => ?_
      cases result with
      | none => exact Keeps.pure
      | some e =>
          cases e with
          | taken => exact haccept _
          | lookup e =>
              cases e with
              | notDirectory => exact haccept _
              | tooManyLinks => exact haccept _
              | missing =>
                  refine Keeps.bind hparents fun _ => Keeps.bind (hself mode) fun again => ?_
                  cases again with
                  | none => exact Keeps.pure
                  | some e =>
                      cases e with
                      | taken => exact haccept _
                      | lookup e =>
                          cases e with
                          | notDirectory => exact haccept _
                          | tooManyLinks => exact haccept _
                          | missing => exact Keeps.raise

/-- An invariant that every new directory keeps. -/
theorem keeps_osMkdir {I : Work → Prop} {mode : Nat} {path : List String}
    (h : ∀ work place, ∀ hfree : work.disk.Free place, I work →
      work.disk.place tools.links path = .ok place →
      I { disk := work.disk.put place (.directory mode) (hfree.replaces _)
          touched := work.touched ++ [.made place] }) :
    Keeps I (osMkdir tools mode path) := by
  intro work hwork
  refine (triple_osMkdir mode path work).conseq (fun _ h => h) (fun result w hw => ?_)
    (fun _ w hw => ?_) (fun _ hw => hw.elim) work rfl
  · cases hw with
    | inl hw =>
        obtain ⟨e, -, rfl⟩ := hw
        exact hwork
    | inr hw =>
        obtain ⟨place, hfree, -, hplace, rfl⟩ := hw
        exact h work place hfree hwork hplace
  · subst hw
    exact hwork

/-! ### Inside the payload -/

/-- Nothing outside the payload was touched, and every link is where it was declared. -/
structure Contains (restore : CleanRestore) (work : Work) : Prop where
  opened : Opened work.disk.view restore.extracted
  inside : ∀ touch ∈ work.touched, restore.payload <+: touch.place
  exact : ∀ declared place, .linked declared place ∈ work.touched → place = declared

theorem payload_eq (restore : CleanRestore) : restore.payload = restore.extracted ++ ["payload"] :=
  rfl

theorem extracted_below (restore : CleanRestore) (parts : List String) :
    restore.extracted <+: restore.payload ++ parts :=
  (List.prefix_append _ _).trans (List.prefix_append _ _)

/-- A free place on the way to a path of the payload is in the payload. -/
theorem Contains.payload_below {work : Work} (h : Contains restore work) {place : List String}
    (hfree : work.disk.Free place) {parts : List String}
    (hplace : place <+: restore.payload ++ parts) : restore.payload <+: place := by
  rcases List.prefix_or_prefix_of_prefix hplace (List.prefix_append restore.payload parts) with
    hup | hdown
  · by_cases heq : place = restore.payload
    · exact heq ▸ List.prefix_refl _
    · -- a proper prefix of the payload is a directory that is there
      rcases List.prefix_concat_iff.mp (payload_eq restore ▸ hup) with hsame | hup
      · exact absurd hsame heq
      · obtain ⟨mode, hmode⟩ := h.opened place hup hfree.1
        rw [hfree.2.1] at hmode
        cases hmode
  · exact hdown

/-- Directories on the way to a path of the payload that passes no link. -/
theorem keeps_makeDirectories_contains {base : HostDisk} {path parts : List String}
    (hfree : LinkFree base.view path) (hpath : path <+: restore.payload ++ parts) (mode : Nat) :
    Keeps (fun work => Contains restore work ∧ Extends base work.disk)
      (makeDirectories tools mode path.reverse) := by
  refine keeps_makeDirectories (fun mode q hq => keeps_osMkdir ?_) mode
  rw [List.reverse_reverse] at hq
  intro work place hplace hwork hlookup
  -- the place is the path itself
  obtain rfl := Disk.place_eq
    (hwork.2.linkFree (hfree.of_front ((List.dropLast_prefix q).trans hq))) hlookup
  have hinside := hwork.1.payload_below hplace (hq.trans hpath)
  have hgrows := hplace.grows (.directory mode)
  refine ⟨⟨hgrows.opened hwork.1.opened, fun touch htouch => ?_,
    fun declared other hlinked => ?_⟩, hwork.2.put hplace rfl⟩
  · rcases List.mem_append.mp htouch with htouch | htouch
    · exact hwork.1.inside touch htouch
    · obtain rfl := List.mem_singleton.mp htouch
      exact hinside
  · rcases List.mem_append.mp hlinked with hlinked | hlinked
    · exact hwork.1.exact declared other hlinked
    · cases List.mem_singleton.mp hlinked

/-! ### Verification -/

/-- An entry that is no link stands at its declared path. -/
def Stands (restore : CleanRestore) (disk : HostDisk) (entry : RecoveryEntry) : Prop :=
  entry.target? = none → ∃ node, disk.view (restore.payload ++ entry.path.parts) = some node ∧
    node.isLink = false

/-- The payload before the first link is made. -/
structure Unlinked (restore : CleanRestore) (work : Work) : Prop extends Contains restore work where
  plain : ∀ path node, restore.extracted <+: path → work.disk.view path = some node →
    node.isLink = false
  unlinked : ∀ declared place, .linked declared place ∉ work.touched

theorem Unlinked.linkFree {work : Work} (h : Unlinked restore work) (parts : List String) :
    LinkFree work.disk.view (restore.payload ++ parts) := by
  intro place hplace node hnode
  rcases List.prefix_or_prefix_of_prefix hplace (extracted_below restore parts) with hup | hdown
  · by_cases hne : place = []
    · rw [hne, Disk.view_nil] at hnode
      rw [← Option.some.inj hnode]
      rfl
    · obtain ⟨mode, hmode⟩ := h.opened place hup hne
      rw [hnode] at hmode
      rw [Option.some.inj hmode]
      rfl
  · exact h.plain place node hdown hnode

/-- A change of permission bits. -/
theorem triple_osChmod {done : List RecoveryEntry} {parts : List String} (mode : Nat) :
    Triple (fun work => Unlinked restore work ∧ ∀ entry ∈ done, Stands restore work.disk entry)
      (osChmod tools (restore.payload ++ parts) mode)
      (fun _ work => Unlinked restore work ∧ (∀ entry ∈ done, Stands restore work.disk entry))
      (fun _ work => Contains restore work) fun _ => False := by
  intro work hwork
  unfold osChmod
  cases hchmod : work.disk.chmod tools.links (restore.payload ++ parts) mode with
  | error e => exact hwork.1.toContains
  | ok changed =>
      obtain ⟨place, disk⟩ := changed
      obtain ⟨hlookup, hview⟩ := Disk.chmod_eq_ok hchmod
      obtain rfl := (hwork.1.linkFree parts).lookup_eq hlookup
      -- what is there stays what it is
      have hkind : ∀ q node, disk.view q = some node → ∃ node', work.disk.view q = some node' ∧
          node.isLink = node'.isLink := by
        intro q node hnode
        rcases hview q with heq | ⟨-, heq⟩
        · exact ⟨node, heq ▸ hnode, rfl⟩
        · rw [heq, Option.map_eq_some_iff] at hnode
          obtain ⟨node', hnode', rfl⟩ := hnode
          exact ⟨node', hnode', by cases node' <;> rfl⟩
      have hstays : ∀ q node, work.disk.view q = some node → ∃ node', disk.view q = some node' ∧
          node'.isLink = node.isLink ∧ (∀ m, node = .directory m → ∃ m', node' = .directory m') := by
        intro q node hnode
        rcases hview q with heq | ⟨-, heq⟩
        · exact ⟨node, heq.trans hnode, rfl, fun m hm => ⟨m, hm⟩⟩
        · refine ⟨Disk.withMode mode node, by rw [heq, hnode]; rfl, by cases node <;> rfl, ?_⟩
          intro m hm
          subst hm
          exact ⟨mode, rfl⟩
      refine ⟨⟨⟨fun q hq hne => ?_, fun touch htouch => ?_, fun declared other hlinked => ?_⟩,
        fun q node hq hnode => ?_, fun declared other hlinked => ?_⟩, fun entry hentry htarget => ?_⟩
      · obtain ⟨m, hm⟩ := hwork.1.opened q hq hne
        obtain ⟨node', hnode', -, hdirectory⟩ := hstays q _ hm
        obtain ⟨m', rfl⟩ := hdirectory m rfl
        exact ⟨m', hnode'⟩
      · rcases List.mem_append.mp htouch with htouch | htouch
        · exact hwork.1.inside touch htouch
        · obtain rfl := List.mem_singleton.mp htouch
          exact List.prefix_append _ _
      · rcases List.mem_append.mp hlinked with hlinked | hlinked
        · exact hwork.1.exact declared other hlinked
        · cases List.mem_singleton.mp hlinked
      · obtain ⟨node', hnode', hlink⟩ := hkind q node hnode
        rw [hlink]
        exact hwork.1.plain q node' hq hnode'
      · rcases List.mem_append.mp hlinked with hlinked | hlinked
        · exact hwork.1.unlinked declared other hlinked
        · cases List.mem_singleton.mp hlinked
      · obtain ⟨node, hnode, hlink⟩ := hwork.2 entry hentry htarget
        obtain ⟨node', hnode', hsame, -⟩ := hstays _ node hnode
        exact ⟨node', hnode', hsame.trans hlink⟩

theorem triple_checkState {P : Work → Prop} (p : Work → Bool) (message : String) :
    Triple P (checkState p message) (fun _ work => P work ∧ p work = true) (fun _ => P)
      fun _ => False := by
  refine Triple.bind_get fun work hwork => Triple.ofExcept (fun _ hok w hw => ?_) fun _ _ w hw => ?_
  · subst hw
    exact ⟨hwork, demand_eq_ok.mp hok⟩
  · subst hw
    exact hwork

/-- What is found at a path of a payload without links stands at that path. -/
theorem Unlinked.view_of_stat {work : Work} (h : Unlinked restore work) {parts : List String}
    {node : FileTree.Node String (List UInt8)}
    (hstat : work.disk.stat tools.links (restore.payload ++ parts) = some node) :
    work.disk.view (restore.payload ++ parts) = some node := by
  unfold Disk.stat at hstat
  split at hstat
  · rename_i place hlookup
    rwa [(h.linkFree parts).lookup_eq hlookup] at hstat
  · cases hstat

/-- A check of one entry finds the entry, and touches its path only. -/
theorem triple_verifyEntry (done : List RecoveryEntry) (entry : RecoveryEntry) :
    Triple (fun work => Unlinked restore work ∧ ∀ e ∈ done, Stands restore work.disk e)
      (verifyEntry tools restore.payload entry)
      (fun _ work => Unlinked restore work ∧ ∀ e ∈ entry :: done, Stands restore work.disk e)
      (fun _ work => Contains restore work) fun _ => False := by
  cases entry with
  | directory path mode =>
      refine Triple.bind ((triple_checkState _ _).conseq (fun _ h => h) (fun _ _ h => h)
        (fun _ _ h => h.1.toContains) fun _ h => h) fun _ => ?_
      have hchmod : Triple (fun work => Unlinked restore work ∧
            ∀ e ∈ RecoveryEntry.directory path mode :: done, Stands restore work.disk e)
          (osChmod tools (restore.payload ++ path.parts) (mode.normalized true)) _ _ _ :=
        triple_osChmod _
      refine hchmod.pre fun work hwork => ⟨hwork.1.1, fun e he => ?_⟩
      rcases List.mem_cons.mp he with rfl | he
      · intro _
        simp only [isDir, Bool.and_eq_true] at hwork
        obtain ⟨m, hm⟩ := any_isDirectory.mp hwork.2.2
        exact ⟨_, hwork.1.1.view_of_stat hm, rfl⟩
      · exact hwork.1.2 e he
  | file path mode size sha256 =>
      refine Triple.bind ((triple_checkState _ _).conseq (fun _ h => h) (fun _ _ h => h)
        (fun _ _ h => h.1.toContains) fun _ h => h) fun _ => ?_
      refine Triple.bind ((triple_checkState _ _).conseq (fun _ h => h) (fun _ _ h => h)
        (fun _ _ h => h.1.1.toContains) fun _ h => h) fun _ => ?_
      have hchmod : Triple (fun work => Unlinked restore work ∧
            ∀ e ∈ RecoveryEntry.file path mode size sha256 :: done, Stands restore work.disk e)
          (osChmod tools (restore.payload ++ path.parts) (mode.normalized false)) _ _ _ :=
        triple_osChmod _
      refine hchmod.pre fun work hwork => ⟨hwork.1.1.1, fun e he => ?_⟩
      rcases List.mem_cons.mp he with rfl | he
      · intro _
        simp only [isFile, Bool.and_eq_true] at hwork
        obtain ⟨node, hnode, hregular⟩ := (Option.any_eq_true _ _).mp hwork.1.2.2
        refine ⟨node, hwork.1.1.1.view_of_stat hnode, ?_⟩
        cases node with
        | regular m content => rfl
        | directory m => rfl
        | link steps => cases hregular
        | special => rfl
      · exact hwork.1.1.2 e he
  | symlink path target =>
      refine (triple_checkState _ _).conseq (fun _ h => h) (fun _ work hwork => ?_)
        (fun _ _ h => h.1.toContains) fun _ h => h
      refine ⟨hwork.1.1, fun e he => ?_⟩
      rcases List.mem_cons.mp he with rfl | he
      · intro htarget
        cases htarget
      · exact hwork.1.2 e he

theorem triple_verifyEntries (done list : List RecoveryEntry) :
    Triple (fun work => Unlinked restore work ∧ ∀ e ∈ done, Stands restore work.disk e)
      (verifyEntries tools restore.payload list)
      (fun _ work => Unlinked restore work ∧ ∀ e, e ∈ done ∨ e ∈ list → Stands restore work.disk e)
      (fun _ work => Contains restore work) fun _ => False := by
  induction list generalizing done with
  | nil =>
      refine Triple.pure fun work hwork => ⟨hwork.1, fun e he => ?_⟩
      exact hwork.2 e (he.resolve_right (List.not_mem_nil))
  | cons entry list ih =>
      refine Triple.bind (triple_verifyEntry done entry) fun _ => (ih (entry :: done)).post ?_
      refine fun _ work hwork => ⟨hwork.1, fun e he => hwork.2 e ?_⟩
      rcases he with he | he
      · exact .inl (List.mem_cons_of_mem _ he)
      · rcases List.mem_cons.mp he with rfl | he
        · exact .inl List.mem_cons_self
        · exact .inr he

/-! ### Making the links -/

/-- The payload when the links of the entries in `done` are made. -/
structure Built (restore : CleanRestore) (entries done : List RecoveryEntry) (work : Work) :
    Prop extends Contains restore work where
  stands : ∀ entry ∈ entries, Stands restore work.disk entry
  /-- Every link is one of the manifest, at its declared path. -/
  declared : ∀ path steps, restore.extracted <+: path → work.disk.view path = some (.link steps) →
    ∃ s t, .symlink s t ∈ done ∧ path = restore.payload ++ s.parts
  /-- Every link of the manifest holds the way to its declared target. -/
  linked : ∀ s t, .symlink s t ∈ done → work.disk.view (restore.payload ++ s.parts) =
    some (.link (relative (restore.payload ++ t.parts) (restore.payload ++ s.parts).dropLast))

theorem Stands.grows {disk disk' : HostDisk} {entry : RecoveryEntry}
    (hgrows : Disk.Grows disk disk') (h : Stands restore disk entry) :
    Stands restore disk' entry := by
  intro htarget
  obtain ⟨node, hnode, hlink⟩ := h htarget
  exact ⟨node, hgrows _ _ hnode, hlink⟩

theorem Built.mono {entries done : List RecoveryEntry} {work work' : Work}
    (h : Built restore entries done work) (hextends : Extends work.disk work'.disk)
    (hcontains : Contains restore work') : Built restore entries done work' where
  toContains := hcontains
  stands entry hentry := (h.stands entry hentry).grows hextends.grows
  declared path steps hpath hnode := h.declared path steps hpath (hextends.links path steps hnode)
  linked s t hst := hextends.grows _ _ (h.linked s t hst)

/-- Above a link of the manifest there is no other link. -/
theorem Built.linkFree {entries done : List RecoveryEntry} {work : Work}
    (h : Built restore entries done work) (hbelow : NoneBelow entries) (hdone : done ⊆ entries)
    {path target : SafePath} (hentry : .symlink path target ∈ entries) :
    LinkFree work.disk.view (restore.payload ++ path.parts).dropLast := by
  rw [List.dropLast_append_of_ne_nil path.parts_ne_nil]
  intro place hplace node hnode
  cases node with
  | directory mode => rfl
  | regular mode content => rfl
  | special => rfl
  | link steps =>
      rcases List.prefix_or_prefix_of_prefix hplace (extracted_below restore _) with hup | hdown
      · by_cases hne : place = []
        · rw [hne, Disk.view_nil] at hnode
          cases hnode
        · obtain ⟨mode, hmode⟩ := h.opened place hup hne
          rw [hnode] at hmode
          cases hmode
      · -- a link above the path is declared above it
        obtain ⟨s, t, hst, rfl⟩ := h.declared place steps hdown hnode
        have hparts := (List.prefix_append_right_inj _).mp hplace
        have hsame := hbelow s t path target (hdone hst) hentry
          (hparts.trans (List.dropLast_prefix _))
        have hlength := hparts.length_le
        have hpositive := List.length_pos_of_ne_nil path.parts_ne_nil
        rw [hsame, List.length_dropLast] at hlength
        omega

/-- An entry that is no link changes nothing. -/
theorem Built.skip {entries done : List RecoveryEntry} {work : Work} {entry : RecoveryEntry}
    (h : Built restore entries done work) (hentry : entry.target? = none) :
    Built restore entries (entry :: done) work where
  toContains := h.toContains
  stands := h.stands
  declared path steps hpath hnode := by
    obtain ⟨s, t, hst, heq⟩ := h.declared path steps hpath hnode
    exact ⟨s, t, List.mem_cons_of_mem _ hst, heq⟩
  linked s t hst := by
    rcases List.mem_cons.mp hst with rfl | hst
    · cases hentry
    · exact h.linked s t hst

/-- A link at a free declared path. -/
theorem Built.link {entries done : List RecoveryEntry} {work : Work} {path target : SafePath}
    (h : Built restore entries done work)
    (hfree : work.disk.Free (restore.payload ++ path.parts)) :
    Built restore entries (.symlink path target :: done) {
      disk := work.disk.put (restore.payload ++ path.parts)
        (.link (relative (restore.payload ++ target.parts)
          (restore.payload ++ path.parts).dropLast)) (hfree.replaces _)
      touched := work.touched ++
        [.linked (restore.payload ++ path.parts) (restore.payload ++ path.parts)] } := by
  have hgrows := hfree.grows (.link (relative (restore.payload ++ target.parts)
    (restore.payload ++ path.parts).dropLast))
  refine ⟨⟨hgrows.opened h.opened, fun touch htouch => ?_, fun declared place hlinked => ?_⟩,
    fun entry hentry => (h.stands entry hentry).grows hgrows, fun q steps hq hnode => ?_,
    fun s t hst => ?_⟩
  · rcases List.mem_append.mp htouch with htouch | htouch
    · exact h.inside touch htouch
    · obtain rfl := List.mem_singleton.mp htouch
      exact List.prefix_append _ _
  · rcases List.mem_append.mp hlinked with hlinked | hlinked
    · exact h.exact declared place hlinked
    · cases List.mem_singleton.mp hlinked
      rfl
  · rw [Disk.view_put] at hnode
    by_cases heq : q = restore.payload ++ path.parts
    · exact ⟨path, target, List.mem_cons_self, heq⟩
    · rw [if_neg heq] at hnode
      obtain ⟨s, t, hst, hpath⟩ := h.declared q steps hq hnode
      exact ⟨s, t, List.mem_cons_of_mem _ hst, hpath⟩
  · rcases List.mem_cons.mp hst with heq | hst
    · cases heq
      rw [Disk.view_put, if_pos rfl]
    · exact hgrows _ _ (h.linked s t hst)

/-- A link is made at its declared path when no other is declared above it. -/
theorem triple_restoreSymlink {entries done : List RecoveryEntry} (hbelow : NoneBelow entries)
    (hdone : done ⊆ entries) {entry : RecoveryEntry} (hentry : entry ∈ entries) :
    Triple (Built restore entries done) (restoreSymlink tools restore.payload entry)
      (fun _ => Built restore entries (entry :: done)) (fun _ => Contains restore)
      (Contains restore) := by
  cases entry with
  | directory path mode => exact Triple.pure fun work h => h.skip rfl
  | file path mode size sha256 => exact Triple.pure fun work h => h.skip rfl
  | symlink path target =>
      intro work hwork
      have hfree := hwork.linkFree hbelow hdone hentry
      have hmake : Keeps _ (makeDirectories tools 0o700 (restore.payload ++ path.parts).dropLast.reverse) :=
        keeps_makeDirectories_contains hfree (List.dropLast_prefix _) 0o700
      refine Triple.bind (R := fun _ w => Built restore entries done w ∧
          LinkFree w.disk.view (restore.payload ++ path.parts).dropLast)
        ((hmake.at_state ⟨hwork.toContains, Extends.refl _⟩).conseq (fun _ h => h)
          (fun _ w hw => ⟨hwork.mono hw.2 hw.1, hw.2.linkFree hfree⟩) (fun _ w hw => hw.1)
          fun w hw => hw.1) (fun _ => ?_) work rfl
      intro w hw
      refine Triple.bind (triple_osMake _ _ w |>.conseq (fun _ h => h) (fun _ _ h => h)
        (fun _ w' hw' => ?_) fun _ h => h.elim) (fun result => ?_) w rfl
      · subst hw'
        exact hw.1.toContains
      · cases result with
        | error e =>
            refine Triple.raise fun w' hw' => ?_
            cases hw' with
            | inl hw' =>
                obtain ⟨-, -, rfl⟩ := hw'
                exact hw.1.toContains
            | inr hw' =>
                obtain ⟨place, -, hresult, -⟩ := hw'
                cases hresult
        | ok place =>
            refine Triple.modify fun w' hw' => ?_
            cases hw' with
            | inl hw' =>
                obtain ⟨e, hresult, -⟩ := hw'
                cases hresult
            | inr hw' =>
                obtain ⟨place', hplace, hresult, hlookup, rfl⟩ := hw'
                obtain rfl := Except.ok.inj hresult
                obtain rfl := Disk.place_eq hw.2 hlookup
                exact hw.1.link hplace

theorem triple_restoreSymlinks {entries : List RecoveryEntry} (hbelow : NoneBelow entries)
    (done list : List RecoveryEntry) (hdone : done ⊆ entries) (hlist : list ⊆ entries) :
    Triple (Built restore entries done) (restoreSymlinks tools restore.payload list)
      (fun _ work => ∃ all, all ⊆ entries ∧ (∀ e, e ∈ done ∨ e ∈ list → e ∈ all) ∧
        Built restore entries all work)
      (fun _ => Contains restore) (Contains restore) := by
  induction list generalizing done with
  | nil =>
      refine Triple.pure fun work h => ⟨done, hdone, fun e he => ?_, h⟩
      exact he.resolve_right List.not_mem_nil
  | cons entry list ih =>
      have hentry : entry ∈ entries := hlist List.mem_cons_self
      refine Triple.bind (triple_restoreSymlink hbelow hdone hentry) fun _ =>
        (ih (entry :: done) (List.cons_subset.mpr ⟨hentry, hdone⟩)
          fun e he => hlist (List.mem_cons_of_mem _ he)).post ?_
      refine fun _ work hwork => ?_
      obtain ⟨all, hall, hmem, hbuilt⟩ := hwork
      refine ⟨all, hall, fun e he => hmem e ?_, hbuilt⟩
      rcases he with he | he
      · exact .inl (List.mem_cons_of_mem _ he)
      · rcases List.mem_cons.mp he with rfl | he
        · exact .inl List.mem_cons_self
        · exact .inr he

theorem Built.of_all {entries all : List RecoveryEntry} {work : Work}
    (h : Built restore entries all work) (hall : all ⊆ entries) (hmem : entries ⊆ all) :
    Built restore entries entries work where
  toContains := h.toContains
  stands := h.stands
  declared path steps hpath hnode := by
    obtain ⟨s, t, hst, heq⟩ := h.declared path steps hpath hnode
    exact ⟨s, t, hall hst, heq⟩
  linked s t hst := h.linked s t (hmem hst)

/-- Before the first link. -/
theorem Unlinked.built {entries : List RecoveryEntry} {work : Work} (h : Unlinked restore work)
    (hstands : ∀ e ∈ entries, Stands restore work.disk e) : Built restore entries [] work where
  toContains := h.toContains
  stands := hstands
  declared path steps hpath hnode := by
    have hplain := h.plain path _ hpath hnode
    cases hplain
  linked s t hst := absurd hst List.not_mem_nil

/-! ### The log of the links -/

/-- Every link in the log is on the disk, and those of the entries in `done` are in the log. -/
structure Traced (restore : CleanRestore) (done : List RecoveryEntry) (work : Work) : Prop where
  standing : ∀ declared place, .linked declared place ∈ work.touched →
    ∃ steps, work.disk.view place = some (.link steps)
  logged : ∀ s t, .symlink s t ∈ done →
    ∃ place, .linked (restore.payload ++ s.parts) place ∈ work.touched

theorem Traced.later {done : List RecoveryEntry} {work work' : Work} (h : Traced restore done work)
    (hgrows : Disk.Grows work.disk work'.disk) {place : List String}
    (htouched : work'.touched = work.touched ++ [.made place]) : Traced restore done work' where
  standing declared other hlinked := by
    rw [htouched] at hlinked
    rcases List.mem_append.mp hlinked with hlinked | hlinked
    · obtain ⟨steps, hsteps⟩ := h.standing declared other hlinked
      exact ⟨steps, hgrows _ _ hsteps⟩
    · cases List.mem_singleton.mp hlinked
  logged s t hst := by
    obtain ⟨other, hother⟩ := h.logged s t hst
    exact ⟨other, htouched ▸ List.mem_append_left _ hother⟩

theorem keeps_makeDirectories_traced {done : List RecoveryEntry} (mode : Nat)
    (reversed : List String) :
    Keeps (Traced restore done) (makeDirectories tools mode reversed) :=
  keeps_makeDirectories (fun _ _ _ => keeps_osMkdir fun _ _ hfree hwork _ =>
    hwork.later (hfree.grows _) rfl) mode

theorem Traced.skip {done : List RecoveryEntry} {work : Work} {entry : RecoveryEntry}
    (h : Traced restore done work) (hentry : entry.target? = none) :
    Traced restore (entry :: done) work where
  standing := h.standing
  logged s t hst := by
    rcases List.mem_cons.mp hst with rfl | hst
    · cases hentry
    · exact h.logged s t hst

/-- A link that is made stands where it was made, wherever that is. -/
theorem yields_restoreSymlink (done : List RecoveryEntry) (entry : RecoveryEntry) :
    Yields (Traced restore done) (restoreSymlink tools restore.payload entry)
      fun _ => Traced restore (entry :: done) := by
  cases entry with
  | directory path mode => exact Yields.pure fun work h => h.skip rfl
  | file path mode size sha256 => exact Yields.pure fun work h => h.skip rfl
  | symlink path target =>
      refine Yields.bind (Yields.of_triple (keeps_makeDirectories_traced 0o700 _)) fun _ => ?_
      intro work hwork
      refine Yields.bind (Yields.of_triple (triple_osMake _ _ work)) (fun result => ?_) work rfl
      cases result with
      | error e => exact Yields.raise
      | ok place =>
          refine Yields.modify fun w hw => ?_
          cases hw with
          | inl hw =>
              obtain ⟨e, hresult, -⟩ := hw
              cases hresult
          | inr hw =>
              obtain ⟨place', hfree, hresult, -, rfl⟩ := hw
              obtain rfl := Except.ok.inj hresult
              refine ⟨fun declared other hlinked => ?_, fun s t hst => ?_⟩
              · rw [Disk.view_put]
                by_cases heq : other = place
                · exact ⟨_, if_pos heq⟩
                · rcases List.mem_append.mp hlinked with hlinked | hlinked
                  · obtain ⟨steps, hsteps⟩ := hwork.standing declared other hlinked
                    exact ⟨steps, by rw [if_neg heq, hsteps]⟩
                  · cases List.mem_singleton.mp hlinked
                    exact absurd rfl heq
              · rcases List.mem_cons.mp hst with hst | hst
                · cases hst
                  exact ⟨place, List.mem_append_right _ (List.mem_singleton_self _)⟩
                · obtain ⟨other, hother⟩ := hwork.logged s t hst
                  exact ⟨other, List.mem_append_left _ hother⟩

theorem yields_restoreSymlinks (done list : List RecoveryEntry) :
    Yields (Traced restore done) (restoreSymlinks tools restore.payload list)
      fun _ work => ∃ all, (∀ e ∈ list, e ∈ all) ∧ done ⊆ all ∧ Traced restore all work := by
  induction list generalizing done with
  | nil =>
      exact Yields.pure fun work h =>
        ⟨done, fun e he => absurd he List.not_mem_nil, List.Subset.refl _, h⟩
  | cons entry list ih =>
      refine Yields.bind (yields_restoreSymlink done entry) fun _ =>
        (ih (entry :: done)).post fun _ work hwork => ?_
      obtain ⟨all, hlist, hdone, htraced⟩ := hwork
      have hentry : entry ∈ all := hdone List.mem_cons_self
      refine ⟨all, fun e he => ?_, fun e he => hdone (List.mem_cons_of_mem _ he), htraced⟩
      rcases List.mem_cons.mp he with rfl | he
      · exact hentry
      · exact hlist e he

/-- Links that stand exactly where they were declared are not declared below one another. -/
theorem Traced.noneBelow {entries all : List RecoveryEntry} {work : Work}
    (h : Traced restore all work) (hall : ∀ e ∈ entries, e ∈ all)
    (hexact : ∀ declared place, .linked declared place ∈ work.touched → place = declared) :
    NoneBelow entries := by
  intro s t s' t' hst hst' hpre
  by_cases hparts : s.parts = s'.parts
  · exact hparts
  · obtain ⟨place, hplace⟩ := h.logged s t (hall _ hst)
    obtain ⟨place', hplace'⟩ := h.logged s' t' (hall _ hst')
    obtain ⟨steps, hsteps⟩ := h.standing _ _ hplace
    obtain ⟨steps', hsteps'⟩ := h.standing _ _ hplace'
    rw [hexact _ _ hplace] at hsteps
    rw [hexact _ _ hplace'] at hsteps'
    -- above the second link there are directories only
    have hopened := Disk.opened_of_view hsteps'
    rw [List.dropLast_append_of_ne_nil s'.parts_ne_nil] at hopened
    have habove : s.parts <+: s'.parts.dropLast := by
      rcases List.prefix_concat_iff.mp
        ((List.dropLast_append_getLast s'.parts_ne_nil).symm ▸ hpre) with heq | habove
      · rw [List.dropLast_append_getLast] at heq
        exact absurd heq hparts
      · exact habove
    obtain ⟨mode, hmode⟩ := hopened (restore.payload ++ s.parts)
      ((List.prefix_append_right_inj _).mpr habove) (by simp [s.parts_ne_nil])
    rw [hsteps] at hmode
    cases hmode

/-! ### Unpacking -/

/-- A directory that passes the checks of a trusted one is canonical. -/
theorem opened_of_trusted {path : List String} {work : Work}
    (h : trustedDirectory tools path work = true) : Opened work.disk.view path := by
  simp only [trustedDirectory, Bool.and_eq_true, List.all_eq_true] at h
  obtain ⟨hall, hdirectory⟩ := h
  have hfree : ∀ q, q <+: path → LinkFree work.disk.view q := by
    intro q
    induction q using List.reverseRecOn with
    | nil =>
        intro _ place hplace node hnode
        rw [List.prefix_nil.mp hplace, Disk.view_nil] at hnode
        rw [← Option.some.inj hnode]
        rfl
    | append_singleton q name ih =>
        intro hq place hplace node hnode
        have hfree := ih ((List.prefix_append q [name]).trans hq)
        rcases List.prefix_concat_iff.mp hplace with rfl | hplace
        · have hmem : q ++ [name] ∈ path.inits.tail := by
            cases path with
            | nil => exact absurd (List.prefix_nil.mp hq) (by simp)
            | cons first rest =>
                have hinits := List.mem_inits _ _ |>.mpr hq
                rw [List.inits_cons, List.mem_cons] at hinits
                exact hinits.resolve_left (by simp)
          obtain ⟨node', hnode', hlink⟩ := (Option.any_eq_true _ _).mp (hall _ hmem)
          unfold Disk.lstat at hnode'
          split at hnode'
          · rename_i found hfound
            rw [Disk.place_eq (by rwa [List.dropLast_concat]) hfound, hnode] at hnode'
            rw [Option.some.inj hnode']
            simpa using hlink
          · cases hnode'
        · exact hfree place hplace node hnode
  unfold Disk.stat at hdirectory
  cases hlookup : lookup work.disk.view tools.links path with
  | error e =>
      rw [hlookup] at hdirectory
      cases hdirectory
  | ok place =>
      obtain rfl := (hfree path (List.prefix_refl _)).lookup_eq hlookup
      rw [hlookup] at hdirectory
      simp only at hdirectory
      split at hdirectory
      · rename_i mode hmode
        exact (reached_of_lookup hlookup).opened hmode
      · cases hdirectory

/-- A staging directory that holds no link. -/
structure Unpacked (restore : CleanRestore) (root : List String) (disk : HostDisk) : Prop where
  opened : Opened disk.view root
  plain : ∀ path node, restore.staging <+: path → disk.view path = some node → node.isLink = false

theorem Unpacked.mono {root : List String} {disk disk' : HostDisk}
    (h : Unpacked restore root disk) (hextends : Extends disk disk') :
    Unpacked restore root disk' where
  opened := hextends.grows.opened h.opened
  plain path node hpath hnode := by
    cases node with
    | link steps => exact h.plain path _ hpath (hextends.links path steps hnode)
    | directory mode => rfl
    | regular mode content => rfl
    | special => rfl

theorem keeps_extends_makeDirectories {base : HostDisk} (mode : Nat) (reversed : List String) :
    Keeps (fun work => Extends base work.disk) (makeDirectories tools mode reversed) :=
  keeps_makeDirectories (fun _ _ _ => keeps_osMkdir fun _ _ hfree hwork _ => hwork.put hfree rfl)
    mode

theorem keeps_extends_extractMember {base : HostDisk} (target : List String) (member : TarMember) :
    Keeps (fun work => Extends base work.disk) (extractMember tools target member) := by
  refine Keeps.ite (keeps_extends_makeDirectories _ _) (Keeps.ite ?_ Keeps.ofExcept)
  refine Keeps.bind (keeps_extends_makeDirectories _ _) fun _ => Keeps.bind ?_ fun result => ?_
  · intro work hwork
    refine (triple_osMake _ _ work).conseq (fun _ h => h) (fun result w hw => ?_)
      (fun _ w hw => ?_) (fun _ hw => hw.elim) work rfl
    · cases hw with
      | inl hw =>
          obtain ⟨e, -, rfl⟩ := hw
          exact hwork
      | inr hw =>
          obtain ⟨place, hfree, -, -, rfl⟩ := hw
          exact hwork.put hfree rfl
    · subst hw
      exact hwork
  · cases result with
    | ok place => exact Keeps.pure
    | error e => exact Keeps.raise

theorem keeps_extends_extractArchive {base : HostDisk} (target : List String)
    (members : List TarMember) :
    Keeps (fun work => Extends base work.disk) (extractArchive tools target members) := by
  induction members with
  | nil => exact Keeps.pure
  | cons member rest ih =>
      exact Keeps.bind (keeps_extends_extractMember target member) fun _ => ih

/-- A directory that was made in a canonical one. -/
theorem yields_osMkdir {dir : List String} {work : Work} (h : Opened work.disk.view dir)
    (name : String) (mode : Nat) :
    Yields (fun w => w = work) (osMkdir tools mode (dir ++ [name]))
      fun result w => result = none → ∃ hfree : work.disk.Free (dir ++ [name]),
        w.disk = work.disk.put (dir ++ [name]) (.directory mode) (hfree.replaces _) := by
  refine (Yields.of_triple (triple_osMkdir mode (dir ++ [name]) work)).post ?_
  intro result w hw hnone
  cases hw with
  | inl hw =>
      obtain ⟨e, hresult, -⟩ := hw
      rw [hnone] at hresult
      cases hresult
  | inr hw =>
      obtain ⟨place, hfree, -, hplace, rfl⟩ := hw
      rw [Disk.place_of_opened h name] at hplace
      obtain rfl := Except.ok.inj hplace
      exact ⟨hfree, rfl⟩

theorem opened_put {dir : List String} {name : String} {disk : HostDisk} {mode : Nat}
    (h : Opened disk.view dir) (hfree : disk.Free (dir ++ [name])) :
    Opened (disk.put (dir ++ [name]) (.directory mode) (hfree.replaces _)).view (dir ++ [name]) :=
  ((hfree.grows _).opened h).concat ((Disk.view_put _ _ _).trans (if_pos rfl))

/-- A fresh staging directory is empty. -/
theorem yields_mkdir_staging (mode : Nat) :
    Yields (fun work => Opened work.disk.view restore.parent) (osMkdir tools mode restore.staging)
      fun result work => result = none → Unpacked restore restore.staging work.disk := by
  intro work hwork
  refine (yields_osMkdir hwork restore.stagingName mode).post (fun result w hw hnone => ?_) work rfl
  obtain ⟨hfree, hdisk⟩ := hw hnone
  rw [hdisk]
  refine ⟨opened_put hwork hfree, fun path node hpath hnode => ?_⟩
  rw [Disk.view_put] at hnode
  by_cases heq : path = restore.parent ++ [restore.stagingName]
  · rw [if_pos heq] at hnode
    rw [← Option.some.inj hnode]
    rfl
  · rw [if_neg heq, Disk.view_below_free hfree.2.1 hfree.1 hpath] at hnode
    cases hnode

theorem yields_mkdir_extracted (mode : Nat) :
    Yields (fun work => Unpacked restore restore.staging work.disk)
      (osMkdir tools mode restore.extracted)
      fun result work => result = none → Unpacked restore restore.extracted work.disk := by
  intro work hwork
  refine (yields_osMkdir hwork.opened "extracted" mode).post (fun result w hw hnone => ?_) work rfl
  obtain ⟨hfree, hdisk⟩ := hw hnone
  rw [hdisk]
  have hextends : Extends work.disk
      (work.disk.put _ (.directory mode) (hfree.replaces _)) := (Extends.refl work.disk).put hfree rfl
  exact ⟨opened_put hwork.opened hfree, (hwork.mono hextends).plain⟩

/-- Unpacking leaves no link in the staging directory. -/
theorem yields_extractArchive (members : List TarMember) :
    Yields (fun work => Unpacked restore restore.extracted work.disk)
      (extractArchive tools restore.extracted members)
      fun _ work => Unpacked restore restore.extracted work.disk := by
  intro work hwork
  have hkeeps : Keeps (fun w => Extends work.disk w.disk)
      (extractArchive tools restore.extracted members) := keeps_extends_extractArchive _ _
  exact (Yields.of_triple hkeeps).post (fun _ w hw => hwork.mono hw) work (Extends.refl _)

variable [Platform]

theorem triple_buildPayload {internal : InternalManifest}
    (hbelow : NoneBelow internal.entries.list) :
    Triple (Unlinked restore) (buildPayload tools restore internal)
      (fun _ => Built restore internal.entries.list internal.entries.list)
      (fun _ => Contains restore) (Contains restore) := by
  refine Triple.bind (R := fun _ => Built restore internal.entries.list []) ?_ fun _ => ?_
  · refine Triple.bind ((triple_verifyEntries [] internal.entries.list).conseq
      (fun _ h => ⟨h, fun e he => absurd he List.not_mem_nil⟩) (fun _ _ h => h) (fun _ _ h => h)
      fun _ h => h.elim) fun _ => ?_
    refine (triple_checkState _ _).conseq (fun _ h => h)
      (fun _ work h => h.1.1.built fun e he => h.1.2 e (.inr he)) (fun _ _ h => h.1.toContains)
      fun _ h => h.elim
  · refine (triple_restoreSymlinks hbelow [] internal.entries.list (List.nil_subset _)
      (List.Subset.refl _)).post fun _ work hwork => ?_
    obtain ⟨all, hall, hmem, hbuilt⟩ := hwork
    exact hbuilt.of_all hall fun e he => hmem e (.inr he)

/-- What is known of the links when the payload was built, whatever the manifest is. -/
theorem yields_buildPayload (internal : InternalManifest) :
    Yields (Unlinked restore) (buildPayload tools restore internal)
      fun _ work => ∃ all, (∀ e ∈ internal.entries.list, e ∈ all) ∧ Traced restore all work := by
  refine Yields.bind (R := fun _ => Traced restore []) ?_ fun _ => ?_
  · refine Yields.bind (Yields.of_triple ((triple_verifyEntries [] internal.entries.list).pre
      fun _ h => ⟨h, fun e he => absurd he List.not_mem_nil⟩)) fun _ => ?_
    refine (Yields.of_triple (triple_checkState _ _)).post fun _ work h => ⟨?_, nofun⟩
    exact fun declared place hlinked => absurd hlinked (h.1.1.unlinked declared place)
  · refine (yields_restoreSymlinks [] internal.entries.list).post fun _ work hwork => ?_
    obtain ⟨all, hall, -, htraced⟩ := hwork
    exact ⟨all, hall, htraced⟩

theorem yields_unpack :
    Yields (fun _ => True) (unpack tools restore)
      fun _ work => Unpacked restore restore.extracted work.disk := by
  have hcheck : ∀ {P : Work → Prop} {α : Type} (x : Recovered α),
      Yields P (Program.ofExcept x) fun _ => P := fun x => Yields.ofExcept fun _ _ _ h => h
  refine Yields.bind (Yields.of_triple (triple_checkState _ _)) fun _ => ?_
  refine Yields.bind ((Yields.of_triple (triple_checkState _ _)).post
    fun _ work h => opened_of_trusted h.1.2) fun _ => ?_
  refine Yields.bind (yields_mkdir_staging _) fun result => ?_
  cases result with
  | some e => exact Yields.raise
  | none =>
      refine Yields.pre (P := fun work => Unpacked restore restore.staging work.disk) ?_
        fun work hwork => hwork rfl
      refine Yields.bind (hcheck _) fun _ => ?_
      cases inspectArchive tools.nfc (recoveryLimits restore.maximumBytes) restore.archive with
      | error rejection => exact Yields.raise
      | ok _ =>
          refine Yields.bind (yields_mkdir_extracted _) fun result => ?_
          cases result with
          | some e => exact Yields.raise
          | none =>
              refine Yields.pre (P := fun work => Unpacked restore restore.extracted work.disk) ?_
                fun work hwork => hwork rfl
              refine Yields.bind (yields_extractArchive _) fun _ => Yields.bind_get fun work hwork =>
                Yields.pre (P := fun w => Unpacked restore restore.extracted w.disk) ?_
                  fun w hw => hw ▸ hwork
              exact Yields.bind (hcheck _) fun _ => Yields.bind (hcheck _) fun _ =>
                Yields.bind (hcheck _) fun _ => Yields.bind (hcheck _) fun _ =>
                  Yields.pure fun _ h => h

end Ophelia
