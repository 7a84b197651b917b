import Mathlib.Data.List.Dedup
import Ophelia.Products.ReceiptDiscovery

/-!
# Ophelia.Products.ReceiptMerging

In which order a scan meets the records of one identity (`receipt_sources.py`). A record that is
met is merged into what there is: either it takes over, and then it keeps all locators, or it does
not, and then the locators of the shown record are reset to its own path before the new one is
added. So a third place loses a locator, unless every new record takes over, and that cannot be so
in every order: the merge is the same in every order exactly if all but the preferred record of an
identity lie at one path (`mergesAlike_iff`).
-/

namespace Ophelia

/-- A record without what merging collects in it. -/
def ReceiptRecord.bare (record : ReceiptRecord) : ReceiptRecord :=
  { record with
    sources := []
    receiptLocators := []
    aliases := []
    journalLocator := none
    productReceiptPath := none
    fileReceiptPath := none }

/-- What decides about a record when it is merged. -/
def ReceiptRecord.place (record : ReceiptRecord) : String × String × ReceiptSource × Bool :=
  (record.receiptId, record.path, record.source, record.payloadReadable)

/-- A record as it was read: at some path, and not merged yet. -/
structure Fresh (record : ReceiptRecord) : Prop where
  path : record.path ≠ ""
  sources : ∀ s ∈ record.sources, s = record.source
  locators : record.receiptLocators = []

theorem place_of_bare {a b : ReceiptRecord} (h : a.bare = b.bare) : a.place = b.place := by
  obtain ⟨hid, hpath, hsource, hreadable⟩ := And.intro (congrArg ReceiptRecord.receiptId h)
    (And.intro (congrArg ReceiptRecord.path h) (And.intro (congrArg ReceiptRecord.source h)
      (congrArg ReceiptRecord.payloadReadable h)))
  exact Prod.ext hid (Prod.ext hpath (Prod.ext hsource hreadable))

theorem path_of_place {a b : ReceiptRecord} (h : a.place = b.place) : a.path = b.path :=
  congrArg (fun p => p.2.1) h

theorem source_of_place {a b : ReceiptRecord} (h : a.place = b.place) : a.source = b.source :=
  congrArg (fun p => p.2.2.1) h

/-! ### One merge -/

theorem mem_sourceSet {s : ReceiptSource} {sources : List ReceiptSource} :
    s ∈ sourceSet sources ↔ s ∈ sources := by
  cases s <;> simp [sourceSet]

theorem mem_textSet {text : String} {texts : List String} :
    text ∈ textSet texts ↔ text ∈ texts := by
  rw [textSet, List.mem_mergeSort, List.mem_dedup]

theorem addSourceLocator_collects (result source : ReceiptRecord) :
    (addSourceLocator result source).bare = result.bare ∧
      (addSourceLocator result source).receiptLocators = result.receiptLocators := by
  unfold addSourceLocator
  split
  · exact ⟨rfl, rfl⟩
  · split <;> exact ⟨rfl, rfl⟩

theorem bare_withSourceMetadata (record : ReceiptRecord) :
    (recordWithSourceMetadata record).bare = record.bare :=
  (addSourceLocator_collects _ record).1

theorem locators_withSourceMetadata (record : ReceiptRecord) :
    (recordWithSourceMetadata record).receiptLocators =
      if record.path = "" then [] else [record.path] :=
  (addSourceLocator_collects _ record).2

theorem bare_merge (primary secondary : ReceiptRecord) :
    (mergeSourceMetadata primary secondary).bare = primary.bare :=
  (addSourceLocator_collects _ secondary).1.trans (bare_withSourceMetadata primary)

/-- The locators of the primary record itself are forgotten. -/
theorem mem_locators_merge {primary secondary : ReceiptRecord} (hp : primary.path ≠ "")
    (hs : secondary.path ≠ "") {locator : String} :
    locator ∈ (mergeSourceMetadata primary secondary).receiptLocators ↔
      locator = primary.path ∨ locator = secondary.path ∨ locator ∈ secondary.receiptLocators := by
  rw [mergeSourceMetadata, (addSourceLocator_collects _ _).2, mem_textSet,
    locators_withSourceMetadata, if_neg hp, if_neg hs]
  simp only [List.mem_append, List.mem_singleton]
  tauto

theorem mem_sources_merge {primary secondary : ReceiptRecord} {s : ReceiptSource} :
    s ∈ (mergeSourceMetadata primary secondary).sources ↔
      (s = primary.source ∨ s ∈ primary.sources) ∨ s = secondary.source ∨ s ∈ secondary.sources := by
  rw [(sameOrigin_merge primary secondary).2, mem_sourceSet, List.mem_append,
    (sameOrigin_withSourceMetadata primary).2, mem_sourceSet, List.mem_cons, List.mem_cons]

variable [Platform]

/-- Whether the record that is met is the one that is shown from now on. -/
def ReceiptStore.takesOver (store : ReceiptStore) (existing record : ReceiptRecord) : Bool :=
  let preferCurrent := decide (existing.source.priority < record.source.priority ∨
    record.source.priority = existing.source.priority ∧ record.path < existing.path)
  match recordForSource existing record .product, recordForSource existing record .journal with
  | some product, some journal =>
      if product.payloadReadable && store.correlationIntact product journal then preferCurrent
      else decide (record.source = .journal)
  | _, _ => preferCurrent

section Merge

variable (store : ReceiptStore)

theorem mergeRecord_some (existing record : ReceiptRecord) :
    (store.mergeRecord (some existing) record).1 =
      if store.takesOver existing record then mergeSourceMetadata record existing
      else mergeSourceMetadata existing record := by
  rcases hexisting : existing.source with _ | _ | _ <;>
    rcases hrecord : record.source with _ | _ | _ <;>
    simp [ReceiptStore.mergeRecord, ReceiptStore.takesOver, recordForSource, hexisting, hrecord,
      ReceiptSource.priority, ReceiptStore.productJournalIntegrityWarning]
  -- records of one source: the paths decide
  case file.file | journal.journal | product.product => split <;> rfl
  -- a wrapper and a row: the row is shown unless the wrapper is whole
  case journal.product =>
    cases record.payloadReadable <;> cases store.correlationIntact record existing <;> rfl
  case product.journal =>
    cases existing.payloadReadable <;> cases store.correlationIntact existing record <;> rfl

theorem receiptPayload_congr {a b : ReceiptRecord} (h : a.place = b.place) :
    store.receiptPayload a = store.receiptPayload b := by
  simp only [ReceiptRecord.place, Prod.mk.injEq] at h
  obtain ⟨hid, hpath, hsource, hreadable⟩ := h
  unfold ReceiptStore.receiptPayload
  rw [hid, hpath, hsource, hreadable]

theorem correlationIntact_congr {a a' b b' : ReceiptRecord} (ha : a.place = a'.place)
    (hb : b.place = b'.place) : store.correlationIntact a b = store.correlationIntact a' b' := by
  unfold ReceiptStore.correlationIntact
  rw [receiptPayload_congr store ha, receiptPayload_congr store hb]

/-- Which record is shown is decided by where the two lie. -/
theorem takesOver_congr {e e' r r' : ReceiptRecord} (he : e.place = e'.place)
    (hr : r.place = r'.place) : store.takesOver e r = store.takesOver e' r' := by
  have hintact := correlationIntact_congr store he hr
  have hintact' := correlationIntact_congr store hr he
  simp only [ReceiptRecord.place, Prod.mk.injEq] at he hr
  obtain ⟨-, hepath, hesource, hereadable⟩ := he
  obtain ⟨-, hrpath, hrsource, hrreadable⟩ := hr
  rcases hexisting : e'.source with _ | _ | _ <;> rcases hrecord : r'.source with _ | _ | _ <;>
    simp [ReceiptStore.takesOver, recordForSource, hepath, hesource, hereadable, hrpath, hrsource,
      hrreadable, hexisting, hrecord, hintact, hintact']

/-- A record does not take over from one of the same place. -/
theorem takesOver_same {e r : ReceiptRecord} (hpath : e.path = r.path) (hsource : e.source = r.source) :
    store.takesOver e r = false := by
  rcases hrecord : r.source with _ | _ | _ <;>
    simp [ReceiptStore.takesOver, recordForSource, hsource, hrecord, hpath]

theorem takesOver_asymm {e r : ReceiptRecord} (h : store.takesOver e r = true) :
    store.takesOver r e = false := by
  have hpaths : r.path < e.path → ¬ e.path < r.path := fun h h' => lt_asymm h h'
  rcases hexisting : e.source with _ | _ | _ <;> rcases hrecord : r.source with _ | _ | _ <;>
    simp [ReceiptStore.takesOver, recordForSource, hexisting, hrecord, ReceiptSource.priority,
      -String.lt_iff_ltb] at h ⊢
  case file.file | journal.journal | product.product => exact hpaths h
  case journal.product => exact h
  case product.journal => exact fun hreadable => h.resolve_left (by rw [hreadable]; decide)

/-- Of two records at different paths, one takes over from the other. -/
theorem takesOver_total {e r : ReceiptRecord} (hpath : e.path ≠ r.path) :
    store.takesOver e r = true ∨ store.takesOver r e = true := by
  rcases hexisting : e.source with _ | _ | _ <;> rcases hrecord : r.source with _ | _ | _ <;>
    simp [ReceiptStore.takesOver, recordForSource, hexisting, hrecord, ReceiptSource.priority,
      -String.lt_iff_ltb]
  case file.file | journal.journal | product.product => exact fun h => hpath h.symm
  case journal.product =>
    cases r.payloadReadable <;> cases store.correlationIntact r e <;> decide
  case product.journal =>
    cases e.payloadReadable <;> cases store.correlationIntact e r <;> decide

/-- Only another row, or a wrapper that goes with it, takes over from a row. -/
theorem source_of_takesOver {j r : ReceiptRecord} (hj : j.source = .journal)
    (h : store.takesOver j r = true) :
    r.source = .journal ∨
      r.source = .product ∧ (r.payloadReadable && store.correlationIntact r j) = true := by
  rcases hrecord : r.source with _ | _ | _ <;>
    simp [ReceiptStore.takesOver, recordForSource, hj, hrecord, ReceiptSource.priority,
      -String.lt_iff_ltb] at h ⊢
  exact h

/-! ### Runs of merges -/

/-- After some records were met, `m` shows the record `p` of them. -/
structure Shown (met : List ReceiptRecord) (m p : ReceiptRecord) : Prop where
  mem : p ∈ met
  bare : m.bare = p.bare
  sources : ∀ s, s ∈ m.sources ↔ ∃ x ∈ met, x.source = s
  own : p.path ∈ m.receiptLocators
  locators : ∀ l ∈ m.receiptLocators, ∃ x ∈ met, x.path = l

omit [Platform] in
theorem shown_first {x : ReceiptRecord} (hx : Fresh x) :
    Shown [x] (recordWithSourceMetadata x) x where
  mem := List.mem_singleton_self x
  bare := bare_withSourceMetadata x
  sources s := by
    rw [(sameOrigin_withSourceMetadata x).2, mem_sourceSet, List.mem_cons]
    constructor
    · rintro (rfl | hs)
      · exact ⟨x, List.mem_singleton_self x, rfl⟩
      · exact ⟨x, List.mem_singleton_self x, (hx.sources s hs).symm⟩
    · rintro ⟨y, hy, rfl⟩
      rw [List.mem_singleton.mp hy]
      exact .inl rfl
  own := by
    rw [locators_withSourceMetadata, if_neg hx.path]
    exact List.mem_singleton_self _
  locators l hl := by
    rw [locators_withSourceMetadata, if_neg hx.path] at hl
    exact ⟨x, List.mem_singleton_self x, (List.mem_singleton.mp hl).symm⟩

omit [Platform] in
/-- What is collected of the sources, whichever of the two is shown. -/
theorem sources_step {met : List ReceiptRecord} {m p x : ReceiptRecord} (h : Shown met m p)
    (hx : Fresh x) (s : ReceiptSource) :
    ((s = m.source ∨ s ∈ m.sources) ∨ s = x.source ∨ s ∈ x.sources) ↔
      ∃ y ∈ met ++ [x], y.source = s := by
  have hsource : m.source = p.source := source_of_place (place_of_bare h.bare)
  constructor
  · rintro ((rfl | hs) | rfl | hs)
    · exact ⟨p, List.mem_append_left _ h.mem, hsource.symm⟩
    · obtain ⟨y, hy, hys⟩ := (h.sources s).mp hs
      exact ⟨y, List.mem_append_left _ hy, hys⟩
    · exact ⟨x, List.mem_concat_self, rfl⟩
    · exact ⟨x, List.mem_concat_self, (hx.sources s hs).symm⟩
  · rintro ⟨y, hy, rfl⟩
    rcases List.mem_append.mp hy with hy | hy
    · exact .inl (.inr ((h.sources _).mpr ⟨y, hy, rfl⟩))
    · rw [List.mem_singleton.mp hy]
      exact .inr (.inl rfl)

variable {met : List ReceiptRecord} {m p x : ReceiptRecord}

/-- A record that takes over keeps all locators. -/
theorem shown_takesOver (h : Shown met m p) (hp : Fresh p) (hx : Fresh x)
    (hover : store.takesOver p x = true) :
    Shown (met ++ [x]) (store.mergeRecord (some m) x).1 x ∧
      ∀ l, l ∈ (store.mergeRecord (some m) x).1.receiptLocators ↔
        l = x.path ∨ l ∈ m.receiptLocators := by
  have hplace := place_of_bare h.bare
  have hpath := path_of_place hplace
  have hmerge : (store.mergeRecord (some m) x).1 = mergeSourceMetadata x m := by
    rw [mergeRecord_some, takesOver_congr store hplace rfl, hover, if_pos rfl]
  have hlocators : ∀ l, l ∈ (mergeSourceMetadata x m).receiptLocators ↔
      l = x.path ∨ l ∈ m.receiptLocators := by
    intro l
    rw [mem_locators_merge hx.path (hpath ▸ hp.path)]
    refine or_congr_right ⟨?_, .inr⟩
    rintro (rfl | hl)
    · rw [hpath]
      exact h.own
    · exact hl
  rw [hmerge]
  refine ⟨⟨List.mem_concat_self, bare_merge x m, fun s => ?_, (hlocators _).mpr (.inl rfl),
    fun l hl => ?_⟩, hlocators⟩
  · rw [mem_sources_merge, or_comm, sources_step h hx]
  · rcases (hlocators l).mp hl with rfl | hl
    · exact ⟨x, List.mem_concat_self, rfl⟩
    · obtain ⟨y, hy, hyl⟩ := h.locators l hl
      exact ⟨y, List.mem_append_left _ hy, hyl⟩

/-- Where the shown record stays, only its own locator and the new one are left. -/
theorem shown_stays (h : Shown met m p) (hp : Fresh p) (hx : Fresh x)
    (hover : store.takesOver p x = false) :
    Shown (met ++ [x]) (store.mergeRecord (some m) x).1 p ∧
      ∀ l, l ∈ (store.mergeRecord (some m) x).1.receiptLocators ↔ l = p.path ∨ l = x.path := by
  have hplace := place_of_bare h.bare
  have hpath := path_of_place hplace
  have hmerge : (store.mergeRecord (some m) x).1 = mergeSourceMetadata m x := by
    rw [mergeRecord_some, takesOver_congr store hplace rfl, hover, if_neg Bool.false_ne_true]
  have hlocators : ∀ l, l ∈ (mergeSourceMetadata m x).receiptLocators ↔
      l = p.path ∨ l = x.path := by
    intro l
    rw [mem_locators_merge (hpath ▸ hp.path) hx.path, hx.locators, hpath]
    simp
  rw [hmerge]
  refine ⟨⟨List.mem_append_left _ h.mem, (bare_merge m x).trans h.bare, fun s => ?_,
    (hlocators _).mpr (.inl rfl), fun l hl => ?_⟩, hlocators⟩
  · rw [mem_sources_merge, sources_step h hx]
  · rcases (hlocators l).mp hl with rfl | rfl
    · exact ⟨p, List.mem_append_left _ h.mem, rfl⟩
    · exact ⟨x, List.mem_concat_self, rfl⟩

theorem underIdentity_concat (met : List ReceiptRecord) (x : ReceiptRecord) :
    store.underIdentity none (met ++ [x]) =
      some (store.mergeRecord (store.underIdentity none met) x).1 := by
  rw [ReceiptStore.underIdentity, List.foldl_concat]
  rfl

/-- After every run some record is shown. -/
theorem exists_shown (hne : met ≠ []) (hfresh : ∀ x ∈ met, Fresh x) :
    ∃ m p, store.underIdentity none met = some m ∧ Shown met m p := by
  induction met using List.reverseRecOn with
  | nil => exact absurd rfl hne
  | append_singleton met x ih =>
      have hx := hfresh x List.mem_concat_self
      by_cases hempty : met = []
      · subst hempty
        exact ⟨_, x, rfl, shown_first hx⟩
      · have hbefore : ∀ y ∈ met, Fresh y := fun y hy => hfresh y (List.mem_append_left _ hy)
        obtain ⟨m, p, hm, hshown⟩ := ih hempty hbefore
        rw [underIdentity_concat, hm]
        cases hover : store.takesOver p x with
        | true => exact ⟨_, x, rfl, (shown_takesOver store hshown (hbefore p hshown.mem) hx hover).1⟩
        | false => exact ⟨_, p, rfl, (shown_stays store hshown (hbefore p hshown.mem) hx hover).1⟩

/-! ### Every order -/

/-- The records of one identity: as they were read, the same wherever the path is the same, and at
most one of them a row. -/
structure OneIdentity (records : List ReceiptRecord) : Prop where
  fresh : ∀ x ∈ records, Fresh x
  place : ∀ x ∈ records, ∀ y ∈ records, x.path = y.path → x.place = y.place
  row : ∀ x ∈ records, ∀ y ∈ records, x.source = .journal → y.source = .journal → x.path = y.path

/-- What is shown is the record `primary`, the row if some wrapper does not go with it, and it has
the sources and the locators of all records. -/
structure Lossless (records : List ReceiptRecord) (primary m : ReceiptRecord) : Prop where
  primary : m.bare = primary.bare
  journal : ∀ product ∈ records, ∀ journal ∈ records, product.source = .product →
    journal.source = .journal →
    (product.payloadReadable && store.correlationIntact product journal) = false →
    m.bare = journal.bare
  sources : ∀ s, s ∈ m.sources ↔ ∃ x ∈ records, x.source = s
  locators : ∀ l, l ∈ m.receiptLocators ↔ ∃ x ∈ records, x.path = l

/-- In whichever order the records are met, the merge loses nothing and shows the same record. -/
def MergedAlike (records : List ReceiptRecord) : Prop :=
  ∃ primary, ∀ met, met.Perm records → ∀ m, store.underIdentity none met = some m →
    Lossless store records primary m

/-- The records are copies of one another, or one of them is preferred to all others and these lie
at one path. -/
def OneApart (records : List ReceiptRecord) : Prop :=
  (∀ x ∈ records, ∀ y ∈ records, x.bare = y.bare) ∨
    ∃ w others, records.Perm (w :: others) ∧ ∃ path,
      ∀ o ∈ others, o.path = path ∧ store.takesOver o w = true

/-- Once the preferred record is met it stays, and nothing is lost. -/
theorem shown_preferred {w : ReceiptRecord} {others : List ReceiptRecord} {path : String}
    (hothers : ∀ o ∈ others, o.path = path ∧ store.takesOver o w = true) (hne : met ≠ [])
    (hfresh : ∀ y ∈ met, Fresh y) (hmet : ∀ y ∈ met, y = w ∨ y ∈ others)
    (hone : met.count w ≤ 1) :
    ∃ m p, store.underIdentity none met = some m ∧ Shown met m p ∧ (w ∈ met → p = w) ∧
      ∀ y ∈ met, y.path ∈ m.receiptLocators := by
  have hself : w ∉ others := fun h => by
    have hsame := (hothers w h).2
    rw [takesOver_same store rfl rfl] at hsame
    cases hsame
  induction met using List.reverseRecOn with
  | nil => exact absurd rfl hne
  | append_singleton met x ih =>
      have hx := hfresh x List.mem_concat_self
      by_cases hempty : met = []
      · subst hempty
        have hfirst := shown_first hx
        refine ⟨_, x, rfl, hfirst, fun h => (List.mem_singleton.mp h).symm, fun y hy => ?_⟩
        rw [List.mem_singleton.mp hy]
        exact hfirst.own
      · have hbefore : ∀ y ∈ met, Fresh y := fun y hy => hfresh y (List.mem_append_left _ hy)
        have hmember : ∀ y ∈ met, y = w ∨ y ∈ others :=
          fun y hy => hmet y (List.mem_append_left _ hy)
        rw [List.count_append] at hone
        obtain ⟨m, p, hm, hshown, hpreferred, hkept⟩ := ih hempty hbefore hmember (by omega)
        have hp := hbefore p hshown.mem
        rw [underIdentity_concat, hm]
        cases hover : store.takesOver p x with
        | true =>
            obtain ⟨hnext, hlocators⟩ := shown_takesOver store hshown hp hx hover
            refine ⟨_, x, rfl, hnext, fun hw => ?_, fun y hy => ?_⟩
            · rcases List.mem_append.mp hw with hw | hw
              · -- nothing takes over from the preferred record
                rw [hpreferred hw] at hover
                rcases hmet x List.mem_concat_self with rfl | hother
                · rfl
                · rw [takesOver_asymm store (hothers x hother).2] at hover
                  cases hover
              · exact (List.mem_singleton.mp hw).symm
            · rcases List.mem_append.mp hy with hy | hy
              · exact (hlocators _).mpr (.inr (hkept y hy))
              · rw [List.mem_singleton.mp hy]
                exact (hlocators _).mpr (.inl rfl)
        | false =>
            obtain ⟨hnext, hlocators⟩ := shown_stays store hshown hp hx hover
            have hnew : x = w → w ∈ met := by
              rintro rfl
              rcases hmember p hshown.mem with rfl | hother
              · exact hshown.mem
              · rw [(hothers p hother).2] at hover
                cases hover
            refine ⟨_, p, rfl, hnext, fun hw => ?_, fun y hy => ?_⟩
            · rcases List.mem_append.mp hw with hw | hw
              · exact hpreferred hw
              · exact hpreferred (hnew (List.mem_singleton.mp hw).symm)
            · rw [hlocators]
              rcases List.mem_append.mp hy with hy | hy
              · by_cases hw : w ∈ met
                · -- the new record lies where the others do
                  obtain rfl := hpreferred hw
                  have hxw : x ≠ p := fun heq => by
                    have hcount := List.count_pos_iff.mpr hw
                    rw [heq, List.count_singleton_self] at hone
                    omega
                  rcases hmember y hy with rfl | hother
                  · exact .inl rfl
                  · have hxother := (hmet x List.mem_concat_self).resolve_left hxw
                    exact .inr ((hothers y hother).1.trans (hothers x hxother).1.symm)
                · have hin : ∀ z ∈ met, z.path = path := fun z hz =>
                    (hothers z ((hmember z hz).resolve_left fun heq => hw (heq ▸ hz))).1
                  exact .inl ((hin y hy).trans (hin p hshown.mem).symm)
              · rw [List.mem_singleton.mp hy]
                exact .inr rfl

variable {records : List ReceiptRecord}

theorem mergedAlike_of_oneApart (h : OneIdentity records) (hapart : OneApart store records) :
    MergedAlike store records := by
  rcases hapart with hcopies | ⟨w, others, hperm, path, hothers⟩
  · cases records with
    | nil =>
        refine ⟨recordWithSourceMetadata (invalidRecord "" "" "" .null .null none .file),
          fun met hmet m hm => ?_⟩
        rw [hmet.eq_nil] at hm
        cases hm
    | cons first rest =>
        refine ⟨first, fun met hmet m hm => ?_⟩
        have hne : met ≠ [] := fun hnil => by
          rw [hnil] at hmet
          exact absurd hmet.symm.eq_nil (List.cons_ne_nil _ _)
        obtain ⟨m', p, hm', hshown⟩ :=
          exists_shown store hne fun x hx => h.fresh x (hmet.mem_iff.mp hx)
        obtain rfl := Option.some.inj (hm.symm.trans hm')
        have hbare : ∀ y ∈ first :: rest, m.bare = y.bare := fun y hy =>
          hshown.bare.trans (hcopies p (hmet.mem_iff.mp hshown.mem) y hy)
        refine ⟨hbare first List.mem_cons_self, fun _ _ j hj _ _ _ => hbare j hj, fun s => ?_,
          fun l => ⟨fun hl => ?_, ?_⟩⟩
        · simp only [hshown.sources, hmet.mem_iff]
        · obtain ⟨y, hy, hyl⟩ := hshown.locators l hl
          exact ⟨y, hmet.mem_iff.mp hy, hyl⟩
        · rintro ⟨y, hy, rfl⟩
          rw [← path_of_place (place_of_bare
            (hcopies p (hmet.mem_iff.mp hshown.mem) y hy))]
          exact hshown.own
  · have hfirst : w ∈ records := hperm.mem_iff.mpr List.mem_cons_self
    have hother : ∀ o ∈ others, o ∈ records := fun o ho =>
      hperm.mem_iff.mpr (List.mem_cons_of_mem w ho)
    have hself : w ∉ others := fun hw => by
      have hsame := (hothers w hw).2
      rw [takesOver_same store rfl rfl] at hsame
      cases hsame
    refine ⟨w, fun met hmet m hm => ?_⟩
    have hall := hmet.trans hperm
    have hcount : met.count w ≤ 1 := by
      rw [hall.count_eq, List.count_cons_self, List.count_eq_zero.mpr hself]
    have hne : met ≠ [] := fun hnil => by
      rw [hnil] at hall
      exact absurd hall.symm.eq_nil (List.cons_ne_nil _ _)
    obtain ⟨m', p, hm', hshown, hpreferred, hkept⟩ := shown_preferred store hothers hne
      (fun x hx => h.fresh x (hmet.mem_iff.mp hx))
      (fun y hy => List.mem_cons.mp (hall.mem_iff.mp hy)) hcount
    obtain rfl := Option.some.inj (hm.symm.trans hm')
    obtain rfl := hpreferred (hall.mem_iff.mpr List.mem_cons_self)
    refine ⟨hshown.bare, fun product hproduct journal hjournal hps hjs hbroken => ?_, fun s => ?_,
      fun l => ⟨fun hl => ?_, ?_⟩⟩
    · by_cases hshow : journal = p
      · rw [hshow, hshown.bare]
      · -- the row was passed over, so for a whole wrapper, and no other wrapper lies with it
        have hrow := (List.mem_cons.mp (hperm.mem_iff.mp hjournal)).resolve_left hshow
        exfalso
        rcases source_of_takesOver store hjs (hothers journal hrow).2 with hps' | ⟨-, hwhole⟩
        · have hsame := takesOver_same store (h.row journal hjournal p hfirst hjs hps')
            (hjs.trans hps'.symm)
          rw [(hothers journal hrow).2] at hsame
          cases hsame
        · by_cases hwrapper : product = p
          · rw [hwrapper, hwhole] at hbroken
            cases hbroken
          · have hin := (List.mem_cons.mp (hperm.mem_iff.mp hproduct)).resolve_left hwrapper
            have hplace := h.place product hproduct journal hjournal
              ((hothers product hin).1.trans (hothers journal hrow).1.symm)
            have hsources := source_of_place hplace
            rw [hps, hjs] at hsources
            cases hsources
    · simp only [hshown.sources, hmet.mem_iff]
    · obtain ⟨y, hy, hyl⟩ := hshown.locators l hl
      exact ⟨y, hmet.mem_iff.mp hy, hyl⟩
    · rintro ⟨y, hy, rfl⟩
      exact hkept y (hmet.mem_iff.mpr hy)

/-- A record that is met last and does not take over costs all locators but two. -/
theorem locators_of_stays (hne : met ≠ []) (hfresh : ∀ y ∈ met ++ [x], Fresh y) :
    ∃ m p, store.underIdentity none (met ++ [x]) = some m ∧ p ∈ met ∧
      (store.takesOver p x = true ∧ m.bare = x.bare ∨
        store.takesOver p x = false ∧ m.bare = p.bare ∧
          ∀ l, l ∈ m.receiptLocators ↔ l = p.path ∨ l = x.path) := by
  have hbefore : ∀ y ∈ met, Fresh y := fun y hy => hfresh y (List.mem_append_left _ hy)
  have hx := hfresh x List.mem_concat_self
  obtain ⟨m, p, hm, hshown⟩ := exists_shown store hne hbefore
  rw [underIdentity_concat, hm]
  cases hover : store.takesOver p x with
  | true =>
      have hnext := (shown_takesOver store hshown (hbefore p hshown.mem) hx hover).1
      exact ⟨_, p, rfl, hshown.mem, .inl ⟨hover, hnext.bare⟩⟩
  | false =>
      obtain ⟨hnext, hlocators⟩ := shown_stays store hshown (hbefore p hshown.mem) hx hover
      exact ⟨_, p, rfl, hshown.mem, .inr ⟨hover, hnext.bare, hlocators⟩⟩

/-- From a place that nothing else takes over from, the record that is met first stays. -/
theorem shown_place (hfresh : ∀ y ∈ x :: met, Fresh y)
    (hover : ∀ y ∈ met, store.takesOver x y = false) :
    ∃ m, store.underIdentity none (x :: met) = some m ∧ Shown (x :: met) m x := by
  induction met using List.reverseRecOn with
  | nil => exact ⟨_, rfl, shown_first (hfresh x List.mem_cons_self)⟩
  | append_singleton met y ih =>
      rw [← List.cons_append] at hfresh ⊢
      obtain ⟨m, hm, hshown⟩ := ih (fun z hz => hfresh z (List.mem_append_left _ hz))
        fun z hz => hover z (List.mem_append_left _ hz)
      rw [underIdentity_concat, hm]
      exact ⟨_, rfl, (shown_stays store hshown (hfresh x (List.mem_append_left _ List.mem_cons_self))
        (hfresh y List.mem_concat_self) (hover y List.mem_concat_self)).1⟩

/-- Three places lose a locator in some order, or show different records. -/
theorem not_three_paths (h : OneIdentity records) (halike : MergedAlike store records)
    {x y z : ReceiptRecord} (hx : x ∈ records) (hy : y ∈ records) (hz : z ∈ records)
    (hxy : x.path ≠ y.path) (hyz : y.path ≠ z.path) (hxz : x.path ≠ z.path) : False := by
  obtain ⟨primary, halike⟩ := halike
  have hthree : ∀ a b : String, ∃ r ∈ records, r.path ≠ a ∧ r.path ≠ b := by
    intro a b
    by_contra hnone
    have hall : ∀ r ∈ records, r.path = a ∨ r.path = b := by
      intro r hr
      by_contra hother
      exact hnone ⟨r, hr, not_or.mp hother⟩
    rcases hall x hx with hxa | hxa <;> rcases hall y hy with hya | hya <;>
      rcases hall z hz with hza | hza <;> simp_all
  -- whatever comes last is shown
  have hlast : ∀ r ∈ records, primary.bare = r.bare := by
    intro r hr
    have hperm : (records.erase r ++ [r]).Perm records :=
      (List.perm_append_comm).trans (List.perm_cons_erase hr).symm
    have hne : records.erase r ≠ [] := by
      obtain ⟨r', hr', hpath, -⟩ := hthree r.path r.path
      have hmem : r' ∈ records.erase r :=
        (List.mem_erase_of_ne fun heq => hpath (congrArg ReceiptRecord.path heq)).mpr hr'
      exact List.ne_nil_of_mem hmem
    obtain ⟨m, p, hm, hp, hcase⟩ := locators_of_stays store hne
      fun a ha => h.fresh a (hperm.mem_iff.mp ha)
    have hlossless := halike _ hperm m hm
    rcases hcase with ⟨-, hbare⟩ | ⟨-, -, hlocators⟩
    · exact hlossless.primary.symm.trans hbare
    · obtain ⟨r', hr', hnotp, hnotr⟩ := hthree p.path r.path
      have hin := (hlossless.locators r'.path).mpr ⟨r', hr', rfl⟩
      rcases (hlocators _).mp hin with heq | heq
      · exact absurd heq hnotp
      · exact absurd heq hnotr
  exact hxy (path_of_place (place_of_bare ((hlast x hx).symm.trans (hlast y hy))))

/-- Of two places the preferred one has a single record. -/
theorem single_preferred (h : OneIdentity records) (halike : MergedAlike store records)
    {x y : ReceiptRecord} (hx : x ∈ records) (hy : y ∈ records)
    (hpaths : ∀ z ∈ records, z.path = x.path ∨ z.path = y.path)
    (hover : store.takesOver y x = true) : OneApart store records := by
  have hxy : x.path ≠ y.path := fun heq => by
    rw [takesOver_congr store (h.place y hy x hx heq.symm) rfl, takesOver_same store rfl rfl] at hover
    cases hover
  have hwin : ∀ a ∈ records, ∀ b ∈ records, a.path = x.path → b.path = y.path →
      store.takesOver b a = true := by
    intro a ha b hb hpath hpath'
    rw [takesOver_congr store (h.place b hb y hy hpath') (h.place a ha x hx hpath)]
    exact hover
  let here := records.filter fun z => z.path = x.path
  let there := records.filter fun z => !decide (z.path = x.path)
  have hperm : (here ++ there).Perm records := List.filter_append_perm _ records
  have hhere : ∀ {z}, z ∈ here ↔ z ∈ records ∧ z.path = x.path := by simp [here]
  have hthere : ∀ {z}, z ∈ there ↔ z ∈ records ∧ z.path ≠ x.path := by simp [there]
  have hother : ∀ z ∈ there, z ∈ records ∧ z.path = y.path := fun z hz =>
    ⟨(hthere.mp hz).1, (hpaths z (hthere.mp hz).1).resolve_left (hthere.mp hz).2⟩
  have hxhere : x ∈ here := hhere.mpr ⟨hx, rfl⟩
  have hyhere : y ∈ there := hthere.mpr ⟨hy, hxy.symm⟩
  cases hlist : here with
  | nil =>
      rw [hlist] at hxhere
      cases hxhere
  | cons a rest =>
      have ha : a ∈ records ∧ a.path = x.path := hhere.mp (hlist ▸ List.mem_cons_self)
      rw [hlist] at hperm
      cases rest with
      | nil =>
          refine .inr ⟨a, there, hperm.symm, y.path, fun o ho => ⟨(hother o ho).2, ?_⟩⟩
          exact hwin a ha.1 o (hother o ho).1 ha.2 (hother o ho).2
      | cons b rest =>
          -- the first of the place stays, and the last drops what lies elsewhere
          exfalso
          obtain ⟨primary, halike⟩ := halike
          have hb : b ∈ records ∧ b.path = x.path :=
            hhere.mp (hlist ▸ List.mem_cons_of_mem a List.mem_cons_self)
          have hrest : ∀ z ∈ rest ++ there, z ∈ records := fun z hz =>
            hperm.mem_iff.mp (List.mem_cons_of_mem a (List.mem_cons_of_mem b hz))
          have hfresh : ∀ z ∈ (a :: (rest ++ there)) ++ [b], Fresh z := by
            intro z hz
            rcases List.mem_append.mp hz with hz | hz
            · rcases List.mem_cons.mp hz with rfl | hz
              · exact h.fresh z ha.1
              · exact h.fresh z (hrest z hz)
            · rw [List.mem_singleton.mp hz]
              exact h.fresh b hb.1
          have hstays : ∀ z ∈ records, store.takesOver a z = false := by
            intro z hz
            rcases hpaths z hz with hpath | hpath
            · have hplace := h.place a ha.1 z hz (ha.2.trans hpath.symm)
              exact takesOver_same store (path_of_place hplace) (source_of_place hplace)
            · exact takesOver_asymm store (hwin a ha.1 z hz ha.2 hpath)
          obtain ⟨m, hm, hshown⟩ := shown_place store
            (fun z hz => hfresh z (List.mem_append_left _ hz)) fun z hz => hstays z (hrest z hz)
          obtain ⟨-, hlocators⟩ := shown_stays store hshown (h.fresh a ha.1) (h.fresh b hb.1)
            (hstays b hb.1)
          have horder : ((a :: (rest ++ there)) ++ [b]).Perm records := by
            refine List.Perm.trans ?_ hperm
            rw [List.cons_append]
            exact (List.perm_append_singleton b (rest ++ there)).cons a
          have hlossless := halike _ horder _ (by rw [underIdentity_concat, hm])
          have hlost := (hlossless.locators y.path).mpr ⟨y, hy, rfl⟩
          rw [hlocators, ha.2, hb.2] at hlost
          rcases hlost with heq | heq <;> exact hxy heq.symm

theorem oneApart_of_mergedAlike (h : OneIdentity records) (halike : MergedAlike store records) :
    OneApart store records := by
  by_cases hone : ∀ x ∈ records, ∀ y ∈ records, x.path = y.path
  · refine .inl ?_
    obtain ⟨primary, halike⟩ := halike
    have hfirst : ∀ r ∈ records, primary.bare = r.bare := by
      intro r hr
      have hperm : (r :: records.erase r).Perm records := (List.perm_cons_erase hr).symm
      obtain ⟨m, hm, hshown⟩ := shown_place store (fun y hy => h.fresh y (hperm.mem_iff.mp hy))
        fun y hy => by
          have hy := List.mem_of_mem_erase hy
          have hplace := h.place r hr y hy (hone r hr y hy)
          exact takesOver_same store (path_of_place hplace) (source_of_place hplace)
      exact (halike _ hperm m hm).primary.symm.trans hshown.bare
    exact fun x hx y hy => (hfirst x hx).symm.trans (hfirst y hy)
  · push Not at hone
    obtain ⟨x, hx, y, hy, hxy⟩ := hone
    have htwo : ∀ z ∈ records, z.path = x.path ∨ z.path = y.path := by
      intro z hz
      by_contra hthird
      obtain ⟨hzx, hzy⟩ := not_or.mp hthird
      exact not_three_paths store h halike hx hy hz hxy (Ne.symm hzy) (Ne.symm hzx)
    rcases takesOver_total store hxy with hover | hover
    · exact single_preferred store h halike hy hx (fun z hz => (htwo z hz).symm) hover
    · exact single_preferred store h halike hx hy htwo hover

/-- The records of one identity are merged alike in every order exactly if one of them lies apart
from the others. -/
theorem mergedAlike_iff (h : OneIdentity records) :
    MergedAlike store records ↔ OneApart store records :=
  ⟨oneApart_of_mergedAlike store h, mergedAlike_of_oneApart store h⟩

end Merge

/-! ### Scans -/

/-- `receipt_scan` of a whole host, if it meets the records in this order. -/
def ReceiptStore.scanned (store : ReceiptStore) (met : List ReceiptRecord) : List ReceiptRecord :=
  ((store.mergeRecords met).1.map Prod.snd).mergeSort fun a b =>
    decide (a.time < b.time ∨ a.time = b.time ∧ a.receiptId ≤ b.receiptId)

/-- The records of a store under an identity. -/
def ReceiptStore.named (store : ReceiptStore) (id : String) : List ReceiptRecord :=
  store.records.filter fun record => record.receiptId = id

omit [Platform] in
/-- What the walk over the receipt directories finds: files of the two kinds, and where it comes
to one file twice, the same content. -/
structure Walked (files : List FoundReceipt) : Prop where
  kind : ∀ f ∈ files, f.defaultSource ≠ .journal
  content : ∀ f ∈ files, ∀ g ∈ files, f.path = g.path →
    f.payload = g.payload ∧ f.defaultSource = g.defaultSource

/-- In whichever order the records are met, a scan has one record of each identity, which shows the
same record and has lost nothing. -/
structure MergesAlike (store : ReceiptStore) : Prop where
  one : ∀ met, met.Perm store.records →
    ((store.scanned met).map ReceiptRecord.receiptId).Nodup ∧
      ∀ id, id ∈ (store.scanned met).map ReceiptRecord.receiptId ↔
        id ∈ store.records.map ReceiptRecord.receiptId
  lossless : ∃ primary : String → ReceiptRecord, ∀ met, met.Perm store.records →
    ∀ m ∈ store.scanned met, Lossless store (store.named m.receiptId) (primary m.receiptId) m

section Scan

variable (store : ReceiptStore)

theorem receiptScan_eq : (receiptScan store none none).1 = store.scanned store.records := by
  simp [receiptScan, ReceiptStore.scanned]

theorem receiptId_ne_empty (path : String) (payload : Json) : receiptId path payload ≠ "" := by
  unfold receiptId
  dsimp only
  split
  · rename_i id rest hnamed
    have hid : id ∈ ["receipt_id", "operation_id", "backup_id", "rollback_id"].filterMap fun key =>
        nonemptyText (member payload key) := hnamed ▸ List.mem_cons_self
    obtain ⟨key, -, hkey⟩ := List.mem_filterMap.mp hid
    unfold nonemptyText at hkey
    split at hkey
    · split at hkey
      · cases hkey
      · rename_i hne
        cases hkey
        exact hne
    · cases hkey
  · intro hempty
    have hlist := congrArg String.toList hempty
    simp at hlist

theorem fileRecord_fresh (file : FoundReceipt) (hpath : file.path ≠ "") :
    Fresh (fileRecord file).1 ∧ (fileRecord file).1.receiptId ≠ "" := by
  refine ⟨⟨(fileRecord_path file).1 ▸ hpath, ?_, ?_⟩, ?_⟩
  all_goals
    unfold fileRecord
    split
    · simp [invalidRecord, receiptId_ne_empty]
    · dsimp only
      split
      · simp [invalidRecord, receiptId_ne_empty]
      · simp [recordFromPayload, receiptId_ne_empty]

/-- The place of a record is read from the path, the content and the kind of its file. -/
theorem fileRecord_place {f g : FoundReceipt} (hpath : f.path = g.path)
    (hpayload : f.payload = g.payload) (hsource : f.defaultSource = g.defaultSource) :
    (fileRecord f).1.place = (fileRecord g).1.place := by
  obtain ⟨ownerApp, ownerEnvironment, path, defaultSource, payload⟩ := f
  obtain ⟨ownerApp', ownerEnvironment', _, _, _⟩ := g
  dsimp only at hpath hpayload hsource
  subst hpath hpayload hsource
  unfold fileRecord
  cases payload with
  | none => rfl
  | some payload =>
      dsimp only
      cases productWrapperIntegrityWarning path payload <;> rfl

theorem fileRecord_source {f : FoundReceipt} (h : f.defaultSource ≠ .journal) :
    (fileRecord f).1.source ≠ .journal := by
  unfold fileRecord
  split
  · exact h
  · dsimp only
    split
    · simp [invalidRecord]
    · rename_i payload _ _ _
      change (if isProductKind (member payload "kind") = true then ReceiptSource.product
        else f.defaultSource) ≠ .journal
      split
      · simp
      · exact h

theorem journalRecord_fresh (database : String) (row : ReceiptRow) :
    Fresh (journalRecord database row).1 ∧ (journalRecord database row).1.receiptId ≠ "" := by
  obtain ⟨hid, hpath⟩ := journalRecord_receiptId database row
  refine ⟨⟨?_, ?_, ?_⟩, ?_⟩
  · intro hempty
    have hlist := congrArg String.toList (hpath.symm.trans hempty)
    simp [journalLocator] at hlist
  · unfold journalRecord
    dsimp only
    split
    · simp [invalidRecord]
    · split <;> simp [invalidRecord, recordFromPayload]
  · unfold journalRecord
    dsimp only
    split
    · rfl
    · split <;> rfl
  · rw [hid]
    intro hempty
    have hok := row.receiptId.ok
    rw [hempty] at hok
    exact absurd hok (by decide)

theorem mem_records {x : ReceiptRecord} :
    x ∈ store.records ↔ (∃ f ∈ store.files, (fileRecord f).1 = x) ∨
      ∃ row ∈ store.rows, (journalRecord store.database row).1 = x := by
  rw [ReceiptStore.records, List.mem_append, List.mem_map, List.mem_map]

theorem fresh_of_mem_records {x : ReceiptRecord} (hx : x ∈ store.records) :
    Fresh x ∧ x.receiptId ≠ "" := by
  rcases (mem_records store).mp hx with ⟨f, hf, rfl⟩ | ⟨row, -, rfl⟩
  · refine fileRecord_fresh f fun hempty => ?_
    have hslash := (store.below f hf).1
    rw [hempty] at hslash
    cases hslash
  · exact journalRecord_fresh store.database row

/-- Records of one identity, as a scan meets them. -/
theorem oneIdentity_named (h : Walked store.files) (id : String) :
    OneIdentity (store.named id) := by
  have hsplit : ∀ x ∈ store.named id, x ∈ store.records ∧ x.receiptId = id := by
    intro x hx
    simpa [ReceiptStore.named] using hx
  refine ⟨fun x hx => (fresh_of_mem_records store (hsplit x hx).1).1, fun x hx y hy hpath => ?_,
    fun x hx y hy hxs hys => ?_⟩
  · rcases (mem_records store).mp (hsplit x hx).1 with ⟨f, hf, rfl⟩ | ⟨row, hrow, rfl⟩ <;>
      rcases (mem_records store).mp (hsplit y hy).1 with ⟨g, hg, rfl⟩ | ⟨row', hrow', rfl⟩
    · rw [(fileRecord_path f).1, (fileRecord_path g).1] at hpath
      obtain ⟨hpayload, hsource⟩ := h.content f hf g hg hpath
      exact fileRecord_place hpath hpayload hsource
    · rw [(fileRecord_path f).1, (journalRecord_receiptId _ row').2] at hpath
      exact absurd hpath (path_ne_journalLocator (store.below f hf).2 _ _)
    · rw [(fileRecord_path g).1, (journalRecord_receiptId _ row).2] at hpath
      exact absurd hpath.symm (path_ne_journalLocator (store.below g hg).2 _ _)
    · rw [(journalRecord_receiptId _ row).2, (journalRecord_receiptId _ row').2] at hpath
      rw [eq_of_mem_rows hrow hrow' (journalLocator_inj hpath)]
  · have hid := (hsplit x hx).2.trans (hsplit y hy).2.symm
    rcases (mem_records store).mp (hsplit x hx).1 with ⟨f, hf, rfl⟩ | ⟨row, hrow, rfl⟩
    · exact absurd hxs (fileRecord_source (h.kind f hf))
    · rcases (mem_records store).mp (hsplit y hy).1 with ⟨g, hg, rfl⟩ | ⟨row', hrow', rfl⟩
      · exact absurd hys (fileRecord_source (h.kind g hg))
      · rw [(journalRecord_receiptId _ row).1, (journalRecord_receiptId _ row').1] at hid
        rw [eq_of_mem_rows hrow hrow' hid]

/-- What a scan has under an identity is what its records were merged into. -/
theorem mem_scanned {met : List ReceiptRecord} (hmet : met.Perm store.records) {m : ReceiptRecord} :
    m ∈ store.scanned met ↔
      store.underIdentity none (met.filter fun x => x.receiptId = m.receiptId) = some m := by
  have hindexed := indexed_mergeRecords store met
  have hlookup : ∀ id, id ≠ "" → (store.mergeRecords met).1.lookup id =
      store.underIdentity none (met.filter fun x => x.receiptId = id) := by
    intro id hid
    rw [mergeRecords_eq, lookup_mergeRecords store met hid]
    rfl
  rw [ReceiptStore.scanned, List.mem_mergeSort, List.mem_map]
  constructor
  · rintro ⟨e, he, rfl⟩
    obtain ⟨hid, x, hx, hxid, -⟩ := hindexed.origin e he
    have hne : e.1 ≠ "" := hxid ▸ (fresh_of_mem_records store (hmet.mem_iff.mp hx)).2
    rw [hid, ← hlookup e.1 hne]
    cases hfound : (store.mergeRecords met).1.lookup e.1 with
    | none =>
        have hnone := List.lookup_eq_none_iff.mp hfound e he
        rw [bne_self_eq_false] at hnone
        cases hnone
    | some r =>
        have hpair := List.inj_on_of_nodup_map hindexed.nodup (mem_of_lookup_members hfound) he rfl
        exact congrArg some (congrArg Prod.snd hpair)
  · intro hm
    have hne : met.filter (fun x => x.receiptId = m.receiptId) ≠ [] := fun hnil => by
      rw [hnil] at hm
      cases hm
    obtain ⟨x, hx⟩ := List.exists_mem_of_ne_nil _ hne
    obtain ⟨hx, hxid⟩ := List.mem_filter.mp hx
    have hid : m.receiptId ≠ "" :=
      of_decide_eq_true hxid ▸ (fresh_of_mem_records store (hmet.mem_iff.mp hx)).2
    rw [← hlookup m.receiptId hid] at hm
    exact ⟨_, mem_of_lookup_members hm, rfl⟩

theorem named_of_perm {met : List ReceiptRecord} (hmet : met.Perm store.records) (id : String) :
    (met.filter fun x => x.receiptId = id).Perm (store.named id) :=
  hmet.filter _

/-- Every order of the records of an identity is met in some order of all records. -/
theorem exists_order {id : String} {first : List ReceiptRecord}
    (hfirst : first.Perm (store.named id)) :
    ∃ met : List ReceiptRecord, met.Perm store.records ∧
      met.filter (fun x => x.receiptId = id) = first := by
  let others := store.records.filter fun x => !decide (x.receiptId = id)
  refine ⟨first ++ others, ?_, ?_⟩
  · exact (hfirst.append_right others).trans (List.filter_append_perm _ store.records)
  · have hall : ∀ x ∈ first, x.receiptId = id := by
      intro x hx
      have hmem := hfirst.mem_iff.mp hx
      simpa using (List.mem_filter.mp hmem).2
    have hnone : others.filter (fun x => x.receiptId = id) = [] := by
      simp [others, List.filter_filter]
    rw [List.filter_append, hnone, List.append_nil, List.filter_eq_self]
    exact fun x hx => decide_eq_true (hall x hx)

/-- Merging keeps the identity. -/
theorem receiptId_underIdentity (h : Walked store.files) {met : List ReceiptRecord}
    (hmet : met.Perm store.records) {id : String} {m : ReceiptRecord}
    (hm : store.underIdentity none (met.filter fun x => x.receiptId = id) = some m) :
    m.receiptId = id := by
  have hperm := named_of_perm store hmet id
  have hne : met.filter (fun x => x.receiptId = id) ≠ [] := fun hnil => by
    rw [hnil] at hm
    cases hm
  obtain ⟨m', p, hm', hshown⟩ := exists_shown store hne
    fun x hx => (oneIdentity_named store h id).fresh x (hperm.mem_iff.mp hx)
  obtain rfl := Option.some.inj (hm.symm.trans hm')
  have hid : m.receiptId = p.receiptId := congrArg Prod.fst (place_of_bare hshown.bare)
  exact hid.trans (by simpa using (List.mem_filter.mp hshown.mem).2)

/-- There is one record of each identity, in every order. -/
theorem one_of_each (h : Walked store.files) {met : List ReceiptRecord}
    (hmet : met.Perm store.records) :
    ((store.scanned met).map ReceiptRecord.receiptId).Nodup ∧
      ∀ id, id ∈ (store.scanned met).map ReceiptRecord.receiptId ↔
        id ∈ store.records.map ReceiptRecord.receiptId := by
  have hindexed := indexed_mergeRecords store met
  constructor
  · have hkeys : ((store.mergeRecords met).1.map Prod.snd).map ReceiptRecord.receiptId =
        (store.mergeRecords met).1.map Prod.fst := by
      rw [List.map_map]
      exact List.map_congr_left fun e he => (hindexed.origin e he).1
    have hperm : (store.scanned met).Perm ((store.mergeRecords met).1.map Prod.snd) :=
      List.mergeSort_perm _ _
    rw [(hperm.map ReceiptRecord.receiptId).nodup_iff, hkeys]
    exact hindexed.nodup
  · intro id
    rw [List.mem_map, List.mem_map]
    constructor
    · rintro ⟨m, hm, rfl⟩
      rw [ReceiptStore.scanned, List.mem_mergeSort, List.mem_map] at hm
      obtain ⟨e, he, rfl⟩ := hm
      obtain ⟨hid, x, hx, hxid, -⟩ := hindexed.origin e he
      exact ⟨x, hmet.mem_iff.mp hx, hxid.trans hid.symm⟩
    · rintro ⟨x, hx, rfl⟩
      have hperm := named_of_perm store hmet x.receiptId
      have hin : x ∈ met.filter fun y => y.receiptId = x.receiptId :=
        List.mem_filter.mpr ⟨hmet.mem_iff.mpr hx, decide_eq_true rfl⟩
      obtain ⟨m, p, hm, -⟩ := exists_shown store (List.ne_nil_of_mem hin)
        fun y hy => (oneIdentity_named store h _).fresh y (hperm.mem_iff.mp hy)
      have hid := receiptId_underIdentity store h hmet hm
      exact ⟨m, (mem_scanned store hmet).mpr (hid ▸ hm), hid⟩

/-- A scan merges alike in every order exactly if under every identity all records but the
preferred one lie at one path: if the paths differ, exactly if no identity is carried by three
records. -/
theorem mergesAlike_iff (h : Walked store.files) :
    MergesAlike store ↔ ∀ id, OneApart store (store.named id) := by
  constructor
  · rintro ⟨-, primary, hlossless⟩ id
    rw [← mergedAlike_iff store (oneIdentity_named store h id)]
    refine ⟨primary id, fun first hfirst m hm => ?_⟩
    obtain ⟨met, hmet, rfl⟩ := exists_order store hfirst
    obtain rfl := receiptId_underIdentity store h hmet hm
    exact hlossless met hmet m ((mem_scanned store hmet).mpr hm)
  · intro hapart
    have halike := fun id =>
      (mergedAlike_iff store (oneIdentity_named store h id)).mpr (hapart id)
    choose primary hprimary using halike
    refine ⟨fun met hmet => one_of_each store h hmet, primary, fun met hmet m hm => ?_⟩
    exact hprimary m.receiptId _ (named_of_perm store hmet _) m ((mem_scanned store hmet).mp hm)

end Scan

end Ophelia

namespace Ophelia.Reference

attribute [local instance] platform

/-- A receipt without a wrapper, under the identity that all such receipts are given here. -/
def legacyFile (path : String) : FoundReceipt :=
  ⟨some "shop", none, path, .file, some (.obj [("receipt_id", .str "receipt_a")])⟩

/-- A host with some legacy receipts. -/
def legacyStore (files : List FoundReceipt) (h : ∀ f ∈ files, '/' ∈ f.path.toList ∧
    "sqlite:".toList.isPrefixOf f.path.toList = false) : ReceiptStore where
  files
  database := "/srv/operations.db"
  journal := Journal.fresh
  below := h

def twoFiles : ReceiptStore :=
  legacyStore [legacyFile "/a", legacyFile "/b"] (List.forall_iff_forall_mem.mp (by decide))

def threeFiles : ReceiptStore :=
  legacyStore [legacyFile "/a", legacyFile "/b", legacyFile "/c"]
    (List.forall_iff_forall_mem.mp (by decide))

theorem walked_legacy {paths : List String} :
    Walked (paths.map legacyFile) where
  kind f hf := by
    obtain ⟨path, -, rfl⟩ := List.mem_map.mp hf
    exact fun h => nomatch h
  content f hf g hg _ := by
    obtain ⟨path, -, rfl⟩ := List.mem_map.mp hf
    obtain ⟨path', -, rfl⟩ := List.mem_map.mp hg
    exact ⟨rfl, rfl⟩

/-- Two receipts of one identity are merged alike. -/
theorem mergesAlike_two : MergesAlike twoFiles := by
  have hwalked : Walked twoFiles.files := @walked_legacy ["/a", "/b"]
  refine (mergesAlike_iff twoFiles hwalked).mpr fun id => ?_
  by_cases hid : "receipt_a" = id
  · subst hid
    have hnamed : twoFiles.named "receipt_a" =
        [(fileRecord (legacyFile "/a")).1, (fileRecord (legacyFile "/b")).1] := by
      decide +kernel
    rw [hnamed]
    refine .inr ⟨_, _, List.Perm.refl _, "/b", fun o ho => ?_⟩
    rw [List.mem_singleton.mp ho]
    decide +kernel
  · have hrecords : ∀ x ∈ twoFiles.records, x.receiptId = "receipt_a" :=
      List.forall_iff_forall_mem.mp (by decide +kernel)
    have hnone : twoFiles.named id = [] :=
      List.filter_eq_nil_iff.mpr fun x hx => by simpa [hrecords x hx] using hid
    rw [hnone]
    exact .inl fun x hx => absurd hx List.not_mem_nil

/-- A scan that meets a third receipt has lost the path of the second. -/
theorem second_locator_lost :
    Walked threeFiles.files ∧ ¬ MergesAlike threeFiles ∧
      ∃ m ∈ (receiptScan threeFiles none none).1, "/b" ∉ m.receiptLocators ∧
        ∃ x ∈ threeFiles.named m.receiptId, x.path = "/b" := by
  have hrecords : threeFiles.records = [(fileRecord (legacyFile "/a")).1,
      (fileRecord (legacyFile "/b")).1, (fileRecord (legacyFile "/c")).1] := by
    decide +kernel
  have hnamed : threeFiles.named "receipt_a" = threeFiles.records := by decide +kernel
  have hfresh : ∀ x ∈ threeFiles.records, Fresh x := fun x hx =>
    (fresh_of_mem_records threeFiles hx).1
  rw [hrecords] at hfresh hnamed
  have hfirst : ∃ m, threeFiles.underIdentity none [(fileRecord (legacyFile "/a")).1,
      (fileRecord (legacyFile "/b")).1] = some m ∧
      Shown [(fileRecord (legacyFile "/a")).1, (fileRecord (legacyFile "/b")).1] m
        (fileRecord (legacyFile "/a")).1 := by
    refine shown_place threeFiles (fun y hy => hfresh y
      (List.mem_append_left [(fileRecord (legacyFile "/c")).1] hy)) fun y hy => ?_
    rw [List.mem_singleton.mp hy]
    decide +kernel
  obtain ⟨m, hm, hshown⟩ := hfirst
  obtain ⟨hnext, hlocators⟩ := shown_stays threeFiles hshown (hfresh _ List.mem_cons_self)
    (hfresh (fileRecord (legacyFile "/c")).1 (List.mem_of_getLast? rfl)) (by decide +kernel)
  have hid : (threeFiles.mergeRecord (some m) (fileRecord (legacyFile "/c")).1).1.receiptId =
      "receipt_a" := by
    have hplace := congrArg Prod.fst (place_of_bare hnext.bare)
    exact hplace.trans (by decide +kernel)
  have hscanned : (threeFiles.mergeRecord (some m) (fileRecord (legacyFile "/c")).1).1 ∈
      threeFiles.scanned threeFiles.records := by
    rw [mem_scanned threeFiles (List.Perm.refl _), hid]
    have hlast := underIdentity_concat threeFiles [(fileRecord (legacyFile "/a")).1,
      (fileRecord (legacyFile "/b")).1] (fileRecord (legacyFile "/c")).1
    rw [hm] at hlast
    rw [← hlast, ← ReceiptStore.named, hnamed]
    rfl
  have hlost : "/b" ∉ (threeFiles.mergeRecord (some m)
      (fileRecord (legacyFile "/c")).1).1.receiptLocators := by
    rw [hlocators]
    decide +kernel
  have hrecord : (fileRecord (legacyFile "/b")).1 ∈ threeFiles.named "receipt_a" := by
    decide +kernel
  refine ⟨@walked_legacy ["/a", "/b", "/c"], fun halike => ?_, _, ?_, hlost, _, hid ▸ hrecord,
    by decide +kernel⟩
  · obtain ⟨primary, hlossless⟩ := halike.lossless
    have hall := (hlossless _ (List.Perm.refl _) _ hscanned).locators "/b"
    exact hlost (hall.mpr ⟨_, hid ▸ hrecord, by decide +kernel⟩)
  · rw [receiptScan_eq]
    exact hscanned

end Ophelia.Reference
