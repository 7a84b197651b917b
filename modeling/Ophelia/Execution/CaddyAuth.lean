import Ophelia.Execution.CaddyLegacy
import Mathlib

/-!
# Ophelia.Execution.CaddyAuth

The credentials of authenticated routes live in one environment file for all sites, under
names made of the scope and the route. A deployment writes the values of its candidate there
before it switches traffic, and a switch prunes what the sites of the moment do not refer to;
neither is undone when the operation is compensated.

The names that the predecessor's site refers to keep their entries in every run of attempts
in which the candidate gives them the value they have, the candidate's site (or another one)
refers to them as well, and no write is cut off in the middle.
-/

namespace Ophelia

open Program PyText

/-! ### References and entries -/

/-- The names a site refers to. -/
def siteKeys (content : FileBytes) : List (List Char) :=
  ((decode? content).map routeAuthKeys).getD []

/-- The entry of a name in the content of an environment file. -/
def contentEntry? (content : Option FileBytes) (name : List Char) : Option (List Char) :=
  (content.bind Host.envLines?).bind fun lines => entryFor? lines name

namespace Host

/-- The entry of a name in the environment file. -/
def envEntryFor? (h : Host) (name : List Char) : Option (List Char) :=
  contentEntry? (FileNode.readBytes h.env) name

theorem envLines?_encodeLines {lines : List (List Char)} (h : ∀ l ∈ lines, IsLine l) :
    envLines? (encodeLines lines) = some lines := by
  rw [envLines?, encodeLines, decode?_encode, Option.map_some, String.toList_ofList,
    splitlines_joinLines h]

theorem isLine_of_envLines? {content : FileBytes} {lines : List (List Char)}
    (h : envLines? content = some lines) : ∀ l ∈ lines, IsLine l := by
  obtain ⟨text, -, rfl⟩ := Option.map_eq_some_iff.mp h
  exact fun l hl => isLine_of_mem_splitlines hl

/-- A prune sees the names that any of the sites refers to. -/
theorem mem_activeKeys {sites : List SiteFile} {active : List (List Char)}
    (h : activeKeys sites = .ok active) {site : SiteFile} (hsite : site ∈ sites)
    {content : FileBytes} (hnode : site.node = .regular content) {name : List Char}
    (hname : name ∈ siteKeys content) : name ∈ active := by
  induction sites generalizing active with
  | nil => exact absurd hsite List.not_mem_nil
  | cons first sites ih =>
      rw [activeKeys] at h
      split at h
      · rename_i c hc
        split_ifs at h
        split at h
        · exact absurd h (by simp)
        · rename_i text htext
          cases hrest : activeKeys sites with
          | error e =>
              rw [hrest] at h
              exact absurd h (by simp [Bind.bind, Except.bind])
          | ok rest =>
              rw [hrest] at h
              have hactive : active = routeAuthKeys text ++ rest := (Except.ok.inj h).symm
              rw [hactive, List.mem_append]
              rcases List.mem_cons.mp hsite with rfl | hsite
              · rw [hnode] at hc
                obtain rfl := FileNode.regular.inj hc
                rw [siteKeys, htext] at hname
                exact Or.inl hname
              · exact Or.inr (ih hrest hsite)
      · exact absurd h (by simp)

theorem mem_siteFiles {h : Host} {name : String} {node : FileNode}
    (hsite : h.site? name = some node) (hname : endsWith ".caddy".toList name.toList = true) :
    ⟨name, node⟩ ∈ h.siteFiles := by
  obtain ⟨f, hf, hnode⟩ := Option.map_eq_some_iff.mp hsite
  obtain ⟨hmem, hkey⟩ := Table.get?_eq_some.mp hf
  obtain ⟨n, k⟩ := f
  obtain rfl : n = name := hkey
  obtain rfl : k = node := hnode
  rw [siteFiles, List.mem_insertionSort, List.mem_filter]
  exact ⟨hmem, hname⟩

/-- An effect that no crash cuts off in the middle. -/
theorem keeps_effect_whole {I : Host → Prop} {f : Host → Host} {partly : Nat → Host → Host}
    (htape : ∀ h, I h → I { h with tape := h.tape.tail })
    (hwhole : ∀ h n, I h → Moment.torn n ∉ h.tape) (hf : ∀ h, I h → I (f h)) :
    Keeps I (effect f partly) := by
  have hmoment : Triple I moment (fun m h => I h ∧ ∀ n, m ≠ .torn n) (fun _ => I) I := by
    refine ComposeBackend.triple_moment_tape (fun h hI _ => ⟨hI, by simp⟩) fun h m ms hI ht => ?_
    have htail := htape h hI
    rw [ht, List.tail_cons] at htail
    refine ⟨htail, fun n heq => hwhole h n hI ?_⟩
    rw [ht, heq]
    exact List.mem_cons_self
  refine Triple.bind hmoment fun m => ?_
  cases m with
  | crashes => exact Triple.crash fun _ hI => hI.1
  | torn n => exact fun h hI => absurd rfl (hI.2 n)
  | proceeds => exact Triple.modify fun h hI => hf h hI.1
  | fails => exact Triple.modify fun h hI => hf h hI.1
  | breaks => exact Triple.modify fun h hI => hf h hI.1

/-- A whole write of the environment file. -/
theorem keeps_writePrivateEnv_whole {I : Host → Prop} {value : FileBytes}
    (htape : ∀ h, I h → I { h with tape := h.tape.tail })
    (hwhole : ∀ h n, I h → Moment.torn n ∉ h.tape)
    (hvalue : ∀ h, I h → I { h with env := some (.regular value) }) :
    Keeps I (writePrivateEnv value) := by
  refine Keeps.bind Keeps.get fun h => ?_
  split
  · exact keeps_effect_whole htape hwhole hvalue
  · exact keeps_effect_whole htape hwhole hvalue
  · exact Keeps.raise
  · exact Keeps.raise

end Host

/-! ### Names of routes -/

/-- Letters, digits and underscores. -/
def isWordChar (c : Char) : Bool :=
  c.isAlphanum || c == '_'

theorem isEnvName_of_isWordChar {name : List Char} (hne : name ≠ [])
    (h : ∀ c ∈ name, isWordChar c = true) : IsEnvName name where
  ne_nil := hne
  noSpace := by
    intro c hc
    have hword := h c hc
    simp only [isWordChar, Char.isAlphanum, Char.isAlpha, Char.isUpper, Char.isLower, Char.isDigit,
      Bool.or_eq_true, Bool.and_eq_true, decide_eq_true_eq, beq_iff_eq, ge_iff_le,
      UInt32.le_iff_toNat_le] at hword
    have hbounds : 'A'.val.toNat = 65 ∧ 'Z'.val.toNat = 90 ∧ 'a'.val.toNat = 97 ∧
        'z'.val.toNat = 122 ∧ '0'.val.toNat = 48 ∧ '9'.val.toNat = 57 := by decide
    rcases hword with hword | rfl
    · simp only [isSpace, Char.toNat, Bool.or_eq_false_iff, Bool.and_eq_false_iff,
        decide_eq_false_iff_not, beq_eq_false_iff_ne]
      omega
    · decide
  noEquals hc := absurd (h _ hc) (by decide)
  noHash hc := absurd (h _ hc) (by decide)

theorem isWordChar_upperChar {c : Char} (h : isHexDigit c = true) :
    ∀ d ∈ upperChar c, isWordChar d = true := by
  have hall : ∀ n < 128, isHexDigit (Char.ofNat n) = true →
      (upperChar (Char.ofNat n)).all isWordChar = true := by decide
  have hlt : c.toNat < 128 := by
    simp only [isHexDigit, Char.isDigit, Bool.or_eq_true, Bool.and_eq_true, decide_eq_true_eq,
      ge_iff_le, Char.le_def, UInt32.le_iff_toNat_le] at h
    have hbounds : 'f'.val.toNat = 102 ∧ '9'.val.toNat = 57 := by decide
    unfold Char.toNat
    omega
  have hc := hall c.toNat hlt
  rw [Char.ofNat_toNat] at hc
  exact List.all_eq_true.mp (hc h)

theorem isEnvName_routeAuthEnvKey [Platform] (app environment : Slug) (route : String) :
    IsEnvName (routeAuthEnvKey app environment route) := by
  have hne : ROUTE_AUTH_PREFIX ≠ [] := by decide
  refine isEnvName_of_isWordChar (List.append_ne_nil_of_left_ne_nil hne _) ?_
  intro c hc
  rw [routeAuthEnvKey, List.mem_append] at hc
  rcases hc with hc | hc
  · have hall : ROUTE_AUTH_PREFIX.all isWordChar = true := by decide
    exact List.all_eq_true.mp hall c hc
  · obtain ⟨d, hd, hc⟩ := List.mem_flatMap.mp hc
    have hdigest := (digestText (app.val ++ "\x00" ++ environment.val ++ "\x00" ++ route)).ok
    simp only [isSha256, Bool.and_eq_true, List.all_eq_true] at hdigest
    exact isWordChar_upperChar (hdigest.1.2 d (List.mem_of_mem_take hd)) c hc

/-! ### What an operation preserves -/

namespace ComposeBackend

/-- What the candidate writes into the environment file: the authorizations of its routes. -/
def authorizations [Platform] (b : ComposeBackend) (resolve : String → Option String) :
    List (List Char × String) :=
  b.routes.filterMap fun route =>
    ((route.clientAuth.bind RouteClientAuth.forward).bind resolve).map fun value =>
      (routeAuthEnvKey b.scope.app b.scope.environment route.name, value)

/-- Every name with an entry that the predecessor's site refers to is also referred to by
`content`, or by a site under another name. -/
def Covers (b : ComposeBackend) (site : FileBytes) (h₀ : Host) (content : FileBytes) : Prop :=
  ∀ name ∈ siteKeys site, h₀.envEntryFor? name ≠ none →
    name ∈ siteKeys content ∨ ∃ file other, file ≠ b.caddyInclude ∧
      endsWith ".caddy".toList file.toList = true ∧ h₀.site? file = some (.regular other) ∧
        name ∈ siteKeys other

/-- The entries of the predecessor's site stand, whatever covers them is in place, and the
files that an attempt may install cover them as well. No moment ahead cuts a write off. -/
def Preserved (b : ComposeBackend) (site : FileBytes) (predecessor : EntityId .rev) (h₀ h : Host) :
    Prop :=
  (∀ name ∈ siteKeys site, h.envEntryFor? name = h₀.envEntryFor? name) ∧
  (∀ file, file ≠ b.caddyInclude → h.site? file = h₀.site? file) ∧
  (∃ content, h.site? b.caddyInclude = some (.regular content) ∧ b.Covers site h₀ content) ∧
  ((b.files h).active ≠ .missing ∧ ∀ id content, id = b.revisionId ∨ id = predecessor →
    b.routesFile h id = some (.regular content) → b.Covers site h₀ content) ∧
  ∀ n, Moment.torn n ∉ h.tape

variable {b : ComposeBackend} {site : FileBytes} {predecessor : EntityId .rev} {h₀ h : Host}

namespace Preserved

theorem popTape (hh : b.Preserved site predecessor h₀ h) :
    b.Preserved site predecessor h₀ { h with tape := h.tape.tail } :=
  ⟨hh.1, hh.2.1, hh.2.2.1, hh.2.2.2.1, fun n hn => hh.2.2.2.2 n (List.mem_of_mem_tail hn)⟩

theorem whole (h : Host) (n : Nat) (hh : b.Preserved site predecessor h₀ h) :
    Moment.torn n ∉ h.tape :=
  hh.2.2.2.2 n

/-- An environment file with the right entries. -/
theorem setEnv (hh : b.Preserved site predecessor h₀ h) {node : Option FileNode}
    (hnode : ∀ name ∈ siteKeys site,
      contentEntry? (FileNode.readBytes node) name = h₀.envEntryFor? name) :
    b.Preserved site predecessor h₀ { h with env := node } :=
  ⟨hnode, hh.2⟩

theorem putInclude (hh : b.Preserved site predecessor h₀ h) {content : FileBytes}
    (hcontent : b.Covers site h₀ content) :
    b.Preserved site predecessor h₀ (h.putSite b.caddyInclude (.regular content)) := by
  refine ⟨hh.1, fun file hfile => ?_, ⟨content, ?_, hcontent⟩, hh.2.2.2⟩
  · rw [Host.site?_putSite, if_neg hfile]
    exact hh.2.1 file hfile
  · rw [Host.site?_putSite, if_pos rfl]

theorem setActive (hh : b.Preserved site predecessor h₀ h) {a : ActiveFile} (ha : a ≠ .missing) :
    b.Preserved site predecessor h₀ (h.setScope b.scope fun s => { s with active := a }) := by
  refine ⟨hh.1, hh.2.1, hh.2.2.1, ⟨?_, fun id content hid hfile => ?_⟩, hh.2.2.2.2⟩
  · simpa [files, Host.setScope] using ha
  · refine hh.2.2.2.1.2 id content hid ?_
    simpa [routesFile, files, Host.setScope] using hfile

/-- A materialized revision whose routes cover the entries. -/
theorem setRevision (hh : b.Preserved site predecessor h₀ h) (id : EntityId .rev)
    {r : Option MaterializedRevision}
    (hr : ∀ content, r.bind MaterializedRevision.routes = some (.regular content) →
      b.Covers site h₀ content) :
    b.Preserved site predecessor h₀ (h.setRevision b.scope id r) := by
  refine ⟨hh.1, hh.2.1, hh.2.2.1, ⟨?_, fun id' content hid hfile => ?_⟩, hh.2.2.2.2⟩
  · simpa [files, Host.setRevision, Host.setScope] using hh.2.2.2.1.1
  · by_cases heq : id' = id
    · refine hr content ?_
      simpa [routesFile, files, Host.setRevision, Host.setScope, heq] using hfile
    · refine hh.2.2.2.1.2 id' content hid ?_
      simpa [routesFile, files, Host.setRevision, Host.setScope, heq] using hfile

/-- The names that matter are seen by a prune. -/
theorem mem_active (hh : b.Preserved site predecessor h₀ h) {active : List (List Char)}
    (hactive : Host.activeKeys h.siteFiles = .ok active) {name : List Char}
    (hname : name ∈ siteKeys site) (hentry : h₀.envEntryFor? name ≠ none) : name ∈ active := by
  obtain ⟨content, hinclude, hcovers⟩ := hh.2.2.1
  rcases hcovers name hname hentry with hkey | ⟨file, other, hfile, hends, hother, hkey⟩
  · have hends : endsWith ".caddy".toList b.caddyInclude.toList = true := by
      rw [endsWith, List.isSuffixOf_iff_suffix, caddyInclude, caddyIncludeName,
        String.toList_append]
      exact List.suffix_append _ _
    exact Host.mem_activeKeys hactive (Host.mem_siteFiles hinclude hends) rfl hkey
  · rw [← hh.2.1 file hfile] at hother
    exact Host.mem_activeKeys hactive (Host.mem_siteFiles hother hends) rfl hkey

end Preserved

/-! ### The environment file -/

theorem keeps_restorePrivateEnv_preserved {value : Option FileBytes}
    (hvalue : ∀ name ∈ siteKeys site, contentEntry? value name = h₀.envEntryFor? name) :
    Keeps (b.Preserved site predecessor h₀) (Host.restorePrivateEnv value) := by
  cases value with
  | some value =>
      exact Host.keeps_writePrivateEnv_whole (fun _ hh => hh.popTape) Preserved.whole
        fun _ hh => hh.setEnv hvalue
  | none =>
      refine Keeps.bind Keeps.get fun h => ?_
      split
      · exact Keeps.ret
      · exact Keeps.raise
      · exact Host.keeps_effect (fun _ hh => hh.popTape) (fun _ hh => hh.setEnv hvalue)
          fun _ _ hh => hh

/-- New lines with the right entries. -/
theorem keeps_writeLines {lines : List (List Char)} (hlines : ∀ l ∈ lines, IsLine l)
    (hentries : ∀ name ∈ siteKeys site, entryFor? lines name = h₀.envEntryFor? name) :
    Keeps (b.Preserved site predecessor h₀) (Host.writePrivateEnv (Host.encodeLines lines)) := by
  refine Host.keeps_writePrivateEnv_whole (fun _ hh => hh.popTape) Preserved.whole
    fun _ hh => hh.setEnv fun name hname => ?_
  rw [FileNode.readBytes, contentEntry?, Option.bind_some, Host.envLines?_encodeLines hlines,
    Option.bind_some]
  exact hentries name hname

theorem keeps_pruneRouteAuthEnv_preserved :
    Keeps (b.Preserved site predecessor h₀) Host.pruneRouteAuthEnv := by
  refine Triple.bind_get fun h hh => ?_
  refine Triple.ite (fun _ => Triple.raise fun _ hs => hs ▸ hh) fun _ =>
    Triple.ite (fun _ => Triple.raise fun _ hs => hs ▸ hh) fun _ => ?_
  cases hkeys : Host.activeKeys h.siteFiles with
  | error e => exact Triple.raise fun _ hs => hs ▸ hh
  | ok active =>
      rw [ofExcept_ok, ret_bind]
      split
      · rename_i content henv
        split
        · exact Triple.raise fun _ hs => hs ▸ hh
        · rename_i original horiginal
          split
          · exact Triple.raise fun _ hs => hs ▸ hh
          · rename_i output houtput
            refine Triple.at_state (Keeps.when (keeps_writeLines ?_ ?_)) hh
            · intro l hl
              exact Host.isLine_of_envLines? horiginal l (mem_of_mem_prunedEnv? houtput hl)
            · intro name hname
              -- the entry before the prune is the one from the start
              have hentry : entryFor? original name = h₀.envEntryFor? name := by
                rw [← hh.1 name hname, Host.envEntryFor?, henv, FileNode.readBytes, contentEntry?,
                  Option.bind_some, horiginal, Option.bind_some]
              by_cases hnone : h₀.envEntryFor? name = none
              · rw [hnone] at hentry ⊢
                rw [entryFor?, Option.map_eq_none_iff, List.find?_eq_none] at hentry ⊢
                exact fun l hl => hentry l (mem_of_mem_prunedEnv? houtput hl)
              · rw [← hentry]
                exact entryFor?_prunedEnv? houtput (Or.inr (hh.mem_active hkeys hname hnone))
      · exact Triple.ret fun _ hs => hs ▸ hh

/-- The candidate gives the names of the predecessor's site the values they have. -/
def SameValues [Platform] (b : ComposeBackend) (site : FileBytes) (h₀ : Host) : Prop :=
  ∀ resolve, b.secretResolver = some resolve → ∀ p ∈ b.authorizations resolve,
    p.1 ∈ siteKeys site → h₀.envEntryFor? p.1 = some (Json.stringText p.2)

variable [Platform]

theorem mem_routeAuthValues {resolve : String → Option String} {I : Host → Prop}
    (htape : ∀ h, I h → I { h with tape := h.tape.tail }) (routes : List BackendRoute)
    (values : EnvUpdates) :
    Triple I (b.routeAuthValues resolve routes values)
      (fun r h => I h ∧ ∀ p ∈ r.rows, p ∈ values.rows ∨
        p ∈ ({ b with routes := routes } : ComposeBackend).authorizations resolve)
      (fun _ => I) I := by
  induction routes generalizing values with
  | nil => exact Triple.ret fun _ hI => ⟨hI, fun p hp => Or.inl hp⟩
  | cons route routes ih =>
      -- a route that writes nothing, or one value
      have hskip : ∀ {m : Proc EnvUpdates} {values' : EnvUpdates},
          m = b.routeAuthValues resolve routes values' →
          (∀ p ∈ values'.rows, p ∈ values.rows ∨
            p ∈ ({ b with routes := route :: routes } : ComposeBackend).authorizations resolve) →
          Triple I m (fun r h => I h ∧ ∀ p ∈ r.rows, p ∈ values.rows ∨
            p ∈ ({ b with routes := route :: routes } : ComposeBackend).authorizations resolve)
            (fun _ => I) I := by
        intro m values' hm hvalues
        subst hm
        refine (ih values').post fun r h hr => ⟨hr.1, fun p hp => ?_⟩
        rcases hr.2 p hp with hp | hp
        · exact hvalues p hp
        · refine Or.inr ?_
          rw [authorizations, List.mem_filterMap] at hp ⊢
          obtain ⟨x, hx, hxp⟩ := hp
          exact ⟨x, List.mem_cons_of_mem _ hx, hxp⟩
      rw [routeAuthValues]
      split
      · exact hskip rfl fun p hp => Or.inl hp
      · rename_i clientAuth hauth
        refine Triple.bind (R := fun _ => I) (Host.keeps_preparation htape) fun _ => ?_
        split
        · exact hskip rfl fun p hp => Or.inl hp
        · rename_i ref hforward
          split
          · exact Triple.raise fun _ hI => hI
          · rename_i authorization hresolve
            refine Triple.ite (fun _ => hskip rfl fun p hp => ?_) fun _ => Triple.raise fun _ hI => hI
            rcases Table.mem_put.mp hp with rfl | ⟨hp, -⟩
            · refine Or.inr ?_
              rw [authorizations, List.mem_filterMap]
              refine ⟨route, List.mem_cons_self, ?_⟩
              simp [hauth, hforward, hresolve, scope]
            · exact Or.inl hp

theorem keeps_materializeRouteAuth_preserved (hsame : b.SameValues site h₀) :
    Keeps (b.Preserved site predecessor h₀) b.materializeRouteAuth := by
  refine Keeps.ite Keeps.ret ?_
  split
  · exact Keeps.raise
  rename_i resolve hresolve
  refine Triple.bind (mem_routeAuthValues (fun _ hh => hh.popTape) b.routes .empty) fun values => ?_
  refine Triple.when (fun _ => ?_) fun _ _ hh => hh.1
  refine Triple.bind_get fun h hh => ?_
  obtain ⟨hh, hvalues⟩ := hh
  have hauth : ∀ p ∈ values.rows, p ∈ b.authorizations resolve := fun p hp =>
    (hvalues p hp).resolve_left fun hempty => absurd hempty List.not_mem_nil
  have hnames : ∀ p ∈ values.rows, IsEnvName p.1 := by
    intro p hp
    obtain ⟨route, -, hroute⟩ := List.mem_filterMap.mp (hauth p hp)
    obtain ⟨value, -, rfl⟩ := Option.map_eq_some_iff.mp hroute
    exact isEnvName_routeAuthEnvKey _ _ _
  -- an update of the lines that the file holds
  have hwrite : ∀ {lines output : List (List Char)}, (∀ l ∈ lines, IsLine l) →
      (∀ name ∈ siteKeys site, entryFor? lines name = h₀.envEntryFor? name) →
      updatedEnv? values lines = some output →
      Keeps (b.Preserved site predecessor h₀)
        (Host.writePrivateEnv (Host.encodeLines (writtenLines output))) := by
    intro lines output hlines hentries hupdate
    refine keeps_writeLines (isLine_of_mem_writtenLines (isLine_of_mem_updatedEnv? hupdate hnames
      hlines)) fun name hname => ?_
    rw [← hentries name hname, entryFor?_writtenLines]
    refine entryFor?_updatedEnv? hupdate hnames fun p hp hpn => ?_
    rw [hentries name hname, ← hpn]
    exact hsame resolve hresolve p (hauth p hp) (hpn ▸ hname)
  split
  · exact Triple.raise fun _ hs => hs ▸ hh
  · exact Triple.raise fun _ hs => hs ▸ hh
  · rename_i henv
    split
    · exact Triple.raise fun _ hs => hs ▸ hh
    · rename_i output houtput
      refine Triple.at_state (hwrite (fun l hl => absurd hl List.not_mem_nil) (fun name hname => ?_)
        houtput) hh
      rw [← hh.1 name hname, Host.envEntryFor?, henv]
      rfl
  · rename_i content henv
    split
    · exact Triple.raise fun _ hs => hs ▸ hh
    · rename_i existing hexisting
      split
      · exact Triple.raise fun _ hs => hs ▸ hh
      · rename_i output houtput
        refine Triple.at_state (hwrite (Host.isLine_of_envLines? hexisting) (fun name hname => ?_)
          houtput) hh
        rw [← hh.1 name hname, Host.envEntryFor?, henv, FileNode.readBytes, contentEntry?,
          Option.bind_some, hexisting, Option.bind_some]

/-! ### The switch -/

omit [Platform] in
theorem keeps_atomicInclude_preserved {content : FileBytes} (hcontent : b.Covers site h₀ content) :
    Keeps (b.Preserved site predecessor h₀) (Host.atomicSite b.caddyInclude content) := by
  refine Keeps.bind (Host.keeps_mkdirSites (fun _ hh => hh.popTape) fun _ _ hh => hh) fun _ =>
    Keeps.bind Keeps.get fun h => Keeps.ite Keeps.raise (Keeps.ite Keeps.raise ?_)
  exact Host.keeps_effect (fun _ hh => hh.popTape) (fun _ hh => hh.putInclude hcontent)
    fun _ _ hh => hh

/-- With a predecessor, the switch goes from one covering include to another, and back. -/
theorem keeps_installCaddy_preserved {candidate : FileBytes}
    (hcandidate : b.Covers site h₀ candidate) :
    Keeps (b.Preserved site predecessor h₀) (b.installCaddy candidate) := by
  have hprune : Keeps (b.Preserved site predecessor h₀) Host.pruneRouteAuthEnv :=
    keeps_pruneRouteAuthEnv_preserved
  refine Keeps.bind (Host.keeps_mkdirSites (fun _ hh => hh.popTape) fun _ _ hh => hh) fun _ => ?_
  refine Triple.bind (R := fun r h => r = none ∧ b.Preserved site predecessor h₀ h) ?_ fun r =>
    Triple.assuming fun hr => ?_
  · refine Triple.bind_get fun h hh => ?_
    rw [if_pos (Or.inr hh.2.2.2.1.1)]
    exact Triple.ret fun _ hs => hs ▸ ⟨rfl, hh⟩
  subst hr
  refine Triple.bind (R := fun r h => (∃ content, r = some content ∧ b.Covers site h₀ content) ∧
    b.Preserved site predecessor h₀ h) ?_ fun target => Triple.assuming fun htarget => ?_
  · refine Triple.bind_get fun h hh => ?_
    obtain ⟨content, hinclude, hcovers⟩ := hh.2.2.1
    rw [hinclude]
    refine Triple.ofExcept (fun r hr _ hs => hs ▸ ⟨⟨content, ?_, hcovers⟩, hh⟩)
      fun _ _ _ hs => hs ▸ hh
    rcases safeCaddyBytes_ofBytes (some content) with ⟨e, herror⟩ | ⟨hok, -⟩
    · exact absurd (herror.symm.trans hr) (by simp)
    · exact (Except.ok.inj (hok.symm.trans hr)).symm
  obtain ⟨content, rfl, hcovers⟩ := htarget
  refine Triple.bind_get fun h hh => ?_
  have henv : Keeps (b.Preserved site predecessor h₀)
      (Host.restorePrivateEnv (FileNode.readBytes h.env)) :=
    keeps_restorePrivateEnv_preserved hh.1
  have hback : Keeps (b.Preserved site predecessor h₀)
      (b.restoreCaddyPredecessor (some content) none) := keeps_atomicInclude_preserved hcovers
  refine Triple.at_state (Keeps.bind (keeps_atomicInclude_preserved hcandidate) fun _ => ?_) hh
  refine Keeps.bind Keeps.get fun h' => Keeps.ite ?_ (Keeps.ite ?_ hprune)
  · refine Keeps.cleanup (Keeps.bind hprune fun _ =>
      keeps_validateAndReload fun _ hh => hh.popTape) ?_
    exact Keeps.bind hback fun _ => Keeps.bind henv fun _ => Keeps.bind hprune fun _ =>
      Keeps.bind (keeps_reload fun _ hh => hh.popTape) fun _ => Keeps.ret
  · exact Keeps.bind hback fun _ => Keeps.bind henv fun _ => Keeps.bind hprune fun _ =>
      Keeps.bind Keeps.ret fun _ => Keeps.raise

theorem keeps_activateRoutes_preserved {id : EntityId .rev}
    (hid : id = b.revisionId ∨ id = predecessor) :
    Keeps (b.Preserved site predecessor h₀) (b.activateRoutes id) := by
  refine Triple.bind_get fun h hh => Triple.ite (fun _ => Triple.ret fun _ hs => hs ▸ hh) fun _ => ?_
  split
  · rename_i content hfile
    exact Triple.at_state (keeps_installCaddy_preserved (hh.2.2.2.1.2 id content hid hfile)) hh
  · exact Triple.raise fun _ hs => hs ▸ hh

/-! ### Runs -/

/-- The state in which an operation finds the predecessor that it replaces: the predecessor is
active, its site is live, and what is materialized of the candidate is its bundle. -/
structure Replaces (b : ComposeBackend) (site : FileBytes) (predecessor : EntityId .rev)
    (h : Host) : Prop where
  active : ∃ digest, (b.files h).active = .evidence predecessor digest
  live : h.site? b.caddyInclude = some (.regular site)
  retained : b.routesFile h predecessor = some (.regular site)
  materialized : ∀ content, b.routesFile h b.revisionId = some (.regular content) →
    content = b.bundleRoutes

/-- The attempts of an operation with a predecessor: what it restores is that predecessor, and
the process does not die in the middle of a write. -/
def Returns (predecessor : EntityId .rev) (a : Attempt) : Prop :=
  (∀ n, Moment.torn n ∉ a.tape) ∧
    match a.call with
    | .restore previous _ => previous.revisionId = predecessor
    | .deactivate _ => False
    | .start | .activate _ _ | .remove _ => True

omit [Platform] in
theorem Replaces.preserved (hh : b.Replaces site predecessor h₀)
    (hcovers : b.Covers site h₀ b.bundleRoutes) :
    b.Preserved site predecessor h₀ { h₀ with tape := [] } := by
  -- the site itself refers to all its names
  have hsite : b.Covers site h₀ site := fun name hname _ => Or.inl hname
  obtain ⟨digest, hactive⟩ := hh.active
  refine ⟨fun _ _ => rfl, fun _ _ => rfl, ⟨site, hh.live, hsite⟩, ⟨?_, ?_⟩,
    fun n => List.not_mem_nil⟩
  · exact hactive ▸ ActiveFile.noConfusion
  · intro id content hid hfile
    rcases hid with rfl | rfl
    · exact hh.materialized content hfile ▸ hcovers
    · obtain rfl : content = site :=
        FileNode.regular.inj (Option.some.inj (hfile.symm.trans hh.retained))
      exact hsite

/-- One attempt of the operation. -/
theorem preserved_attempt (hsame : b.SameValues site h₀) (hcovers : b.Covers site h₀ b.bundleRoutes)
    (hh : b.Preserved site predecessor h₀ { h with tape := [] }) {a : Attempt}
    (ha : Returns predecessor a) :
    b.Preserved site predecessor h₀ { (b.attempt h a).1 with tape := [] } := by
  have hstart : (b.resumed a).Preserved site predecessor h₀ { h with tape := a.tape } :=
    ⟨hh.1, hh.2.1, hh.2.2.1, hh.2.2.2.1, ha.1⟩
  have hactive : ∀ h id digest, (b.resumed a).Preserved site predecessor h₀ h →
      (b.resumed a).Preserved site predecessor h₀ (h.setScope (b.resumed a).scope fun s =>
        { s with active := .evidence id digest }) :=
    fun h id digest hh => hh.setActive ActiveFile.noConfusion
  have hend : b.Preserved site predecessor h₀ (b.attempt h a).1 := by
    have hcall := ha.2
    unfold attempt
    cases hcase : a.call with
    | start =>
        rw [forget_fst]
        refine (keeps_start (b := b.resumed a) (fun _ hh => hh.popTape) (fun h hh => ?_)
          (fun _ _ hh => hh) (keeps_materializeRouteAuth_preserved hsame)).run hstart
        refine hh.setRevision _ fun content hcontent => ?_
        obtain rfl : b.bundleRoutes = content := FileNode.regular.inj (Option.some.inj hcontent)
        exact hcovers
    | activate candidate expected =>
        rw [forget_fst]
        exact (keeps_activate (b := b.resumed a) (fun _ hh => hh.popTape) hactive
          (fun _ _ hh => hh) (keeps_activateRoutes_preserved (Or.inl rfl)) candidate
          expected).run hstart
    | restore previous failed =>
        rw [hcase] at hcall
        rw [forget_fst]
        exact (keeps_restore (b := b.resumed a) (fun _ hh => hh.popTape) hactive
          (fun _ _ hh => hh) previous failed
          (keeps_activateRoutes_preserved (Or.inr hcall))).run hstart
    | deactivate failed =>
        rw [hcase] at hcall
        exact hcall.elim
    | remove handle =>
        rw [forget_fst]
        exact (keeps_remove (b := b.resumed a) (fun _ hh => hh.popTape)
          (fun _ id hh => hh.setRevision id fun _ hcontent => absurd hcontent (by simp))
          (fun _ _ hh => hh) handle).run hstart
  exact ⟨hend.1, hend.2.1, hend.2.2.1, hend.2.2.2.1, fun n => List.not_mem_nil⟩

theorem preserved_attempts (hsame : b.SameValues site h₀)
    (hcovers : b.Covers site h₀ b.bundleRoutes) {as : List Attempt}
    (has : ∀ a ∈ as, Returns predecessor a)
    (hh : b.Preserved site predecessor h₀ { h with tape := [] }) :
    b.Preserved site predecessor h₀ { b.attempts h as with tape := [] } := by
  induction as generalizing h with
  | nil => exact hh
  | cons a as ih =>
      exact ih (fun a ha => has a (List.mem_cons_of_mem _ ha))
        (preserved_attempt hsame hcovers hh (has a List.mem_cons_self))

/-- An operation replaces an active predecessor. When its candidate gives the names of the
predecessor's site the values they have, and when the candidate's site or a site under another
name refers to every one of them with an entry, then after any attempts of the operation that
die in no write all these names have the entries from before. -/
theorem routeAuth_entries_kept (b : ComposeBackend) (site : FileBytes)
    (predecessor : EntityId .rev) (h : Host) (hreplaces : b.Replaces site predecessor h)
    (hsame : b.SameValues site h) (hcovers : b.Covers site h b.bundleRoutes)
    (as : List Attempt) (has : ∀ a ∈ as, Returns predecessor a) :
    ∀ name ∈ siteKeys site, (b.attempts h as).envEntryFor? name = h.envEntryFor? name :=
  (preserved_attempts hsame hcovers has (hreplaces.preserved hcovers)).1

end ComposeBackend

end Ophelia

namespace Ophelia.Reference

open PyText

attribute [local instance] platform

/-- A site that refers to one name. -/
def authSite (name : List Char) : FileBytes :=
  encode (String.ofList ('{' :: '$' :: name ++ ['}']))

def liveRevision : RuntimeHandle :=
  ⟨ComposeBackend.backendName, ⟨"rev_live", by decide⟩, digestText "live"⟩

/-- A predecessor with an authenticated route is live, with its credential in the environment
file. -/
def authHost (name : List Char) (secret : String) : Host where
  sitesRoot := .directory
  sites := ⟨[⟨"web-production.caddy", .regular (authSite name)⟩], List.nodup_singleton _⟩
  env := some (.regular (Host.encodeLines [assignment name secret]))
  sharedCompose := false
  scopes := fun _ =>
    { active := .evidence liveRevision.revisionId liveRevision.revisionDigest
      revisions := fun id => if id = liveRevision.revisionId then
        some ⟨some (.regular (authSite name)), some ⟨liveRevision.revisionDigest, [], []⟩⟩ else none
      displaced := fun _ => ⟨.missing, .missing, none, none, false⟩ }
  fences := .empty
  tape := []

theorem envEntryFor?_authHost {name : List Char} (hname : IsEnvName name) (secret : String) :
    (authHost name secret).envEntryFor? name = some (Json.stringText secret) := by
  rw [Host.envEntryFor?, authHost, FileNode.readBytes, contentEntry?, Option.bind_some,
    Host.envLines?_encodeLines, Option.bind_some, entryFor?_cons_of_eq (hname.assigned?_assignment _),
    hname.assignedValue_assignment]
  intro l hl
  rw [List.mem_singleton.mp hl]
  exact hname.isLine_assignment secret

def webAttempt (call : BackendCall) : Attempt :=
  { compensate with call := call }

/-- The name of the route `api`. -/
def apiName : List Char :=
  routeAuthEnvKey webProd.app webProd.environment "api"

def apiSecret : String := "0123456789abcdef0123456789abcdef"

/-- A candidate with the same route, and with the same credential for it. -/
def apiCandidate : ComposeBackend :=
  { webCandidate with
    routes := [⟨"api", some ⟨some "credential"⟩⟩]
    bundleRoutes := authSite apiName
    secretResolver := some fun _ => some apiSecret }

theorem replaces_authHost (b : ComposeBackend) (name : List Char) (secret : String)
    (hscope : b.scope = webProd) (hid : b.revisionId ≠ liveRevision.revisionId) :
    b.Replaces (authSite name) liveRevision.revisionId (authHost name secret) where
  active := ⟨liveRevision.revisionDigest, rfl⟩
  live := by
    rw [ComposeBackend.caddyInclude, hscope]
    rfl
  retained := rfl
  materialized content hcontent := by
    simp [ComposeBackend.routesFile, ComposeBackend.files, authHost, hid] at hcontent

/-- Every attempt at a start keeps the credential of the live site. -/
theorem routeAuth_entries_kept_api : apiCandidate.bundleRoutes = authSite apiName ∧
    ∀ name ∈ siteKeys (authSite apiName),
      (apiCandidate.attempts (authHost apiName apiSecret) [webAttempt .start,
        webAttempt (.restore liveRevision apiCandidate.candidateHandle)]).envEntryFor? name =
          (authHost apiName apiSecret).envEntryFor? name := by
  have hbundle : apiCandidate.bundleRoutes = authSite apiName := by rw [apiCandidate]
  refine ⟨hbundle, ?_⟩
  refine ComposeBackend.routeAuth_entries_kept apiCandidate (authSite apiName)
    liveRevision.revisionId _ (replaces_authHost _ _ _ rfl (by decide)) ?_ ?_ _ ?_
  · intro resolve hresolve p hp hkey
    obtain rfl := Option.some.inj hresolve
    obtain ⟨route, hroute, hp⟩ := List.mem_filterMap.mp hp
    obtain rfl := List.mem_singleton.mp hroute
    obtain rfl : (apiName, apiSecret) = p := Option.some.inj hp
    exact envEntryFor?_authHost (isEnvName_routeAuthEnvKey _ _ _) apiSecret
  · rw [hbundle]
    exact fun name hname _ => Or.inl hname
  · intro a ha
    rcases List.mem_pair.mp ha with rfl | rfl
    · exact ⟨fun n => List.not_mem_nil, trivial⟩
    · exact ⟨fun n => List.not_mem_nil, rfl⟩

/-- The name that the site of a predecessor refers to, and that of its candidate does not. -/
def lostName : List Char :=
  ROUTE_AUTH_PREFIX ++ List.replicate 24 'A'

/-- A candidate is started and activated, and then the predecessor is restored. -/
def rolledBack : List Attempt :=
  [webAttempt .start,
    webAttempt (.activate webCandidate.candidateHandle (some liveRevision.revisionDigest))]

def restoreLive : Attempt :=
  webAttempt (.restore liveRevision webCandidate.candidateHandle)

/-- The compensation completes and the site of the predecessor is live again, but its
credential is gone: the activation of the candidate has pruned it. -/
theorem not_routeAuth_entries_kept :
    webCandidate.Replaces (authSite lostName) liveRevision.revisionId
      (authHost lostName apiSecret) ∧
    lostName ∈ siteKeys (authSite lostName) ∧
    (webCandidate.attempt (webCandidate.attempts (authHost lostName apiSecret) rolledBack)
      restoreLive).2 = .returned () ∧
    (webCandidate.attempts (authHost lostName apiSecret) (rolledBack ++ [restoreLive])).site?
      webCandidate.caddyInclude = some (.regular (authSite lostName)) ∧
    (authHost lostName apiSecret).envEntryFor? lostName = some (Json.stringText apiSecret) ∧
    (webCandidate.attempts (authHost lostName apiSecret) (rolledBack ++ [restoreLive])).envEntryFor?
      lostName = none := by
  have hname : IsEnvName lostName := isEnvName_of_isWordChar (by decide)
    (List.all_eq_true.mp (by decide))
  have hkeys : siteKeys (authSite lostName) = [lostName] := by
    rw [siteKeys, authSite, decode?_encode]
    decide +kernel
  refine ⟨replaces_authHost _ _ _ rfl (by decide), ?_, ?_⟩
  · rw [hkeys]
    exact List.mem_singleton_self _
  · rw [envEntryFor?_authHost hname]
    decide +kernel

end Ophelia.Reference
