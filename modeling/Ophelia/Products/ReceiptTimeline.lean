import Mathlib.Data.Prod.Lex
import Ophelia.Lib.Results
import Ophelia.Lib.Timestamps
import Ophelia.Products.ReceiptMerging

/-!
# Ophelia.Products.ReceiptTimeline

The timeline of receipts (`receipt_index.py`) and the reference `latest` (`operation_refs.py`).
Both compare the times of receipts as texts. Texts of one form are ordered as their instants, but
the program writes instants in several: a whole second with `Z` comes behind its own fractions, and
one instant has two spellings.
-/

namespace Ophelia

open Calendar

/-! ### The timeline -/

/-- An entry of the timeline: the record, and what its payload offers. -/
structure TimelineEntry where
  record : ReceiptRecord
  artifactPaths : List String
  rollbackAvailable : Bool

/-- The filters of a timeline and of a reference. -/
structure ReceiptFilters where
  app : Option String
  environment : Option String
  operation : Option String
  status : Option String

structure ReceiptTimeline where
  filters : ReceiptFilters
  since : Option String
  ceiling : Option String
  receipts : List TimelineEntry
  warnings : List SourceWarning
  summary : String

/-- `str(value or "")`. -/
def textOrEmpty (value : Json) : String :=
  match orElse value (.str "") with
  | .str s => s
  | other => other.dumps

/-- `_until_ceiling`. -/
def untilCeiling (ceiling startedAt : String) : String :=
  if 'T' ∉ ceiling.toList ∧ ceiling.length = 10 ∧ 10 ≤ startedAt.length then
    ceiling ++ String.ofList (startedAt.toList.drop 10)
  else ceiling

/-- `_within_bounds`. -/
def withinBounds (startedAt : Json) (since ceiling : Option String) : Bool :=
  if since.isNone ∧ ceiling.isNone then true
  else
    match startedAt with
    | .str s =>
        decide (s ≠ "") && since.all (fun bound => !decide (s < bound)) &&
          ceiling.all fun bound => !decide (untilCeiling bound s < s)
    | _ => false

/-- The paths of the artifacts of a receipt. -/
def artifactPaths : Json → List String
  | .arr items => items.filterMap fun item =>
      if isMapping item then nonemptyText (member item "path") else nonemptyText item
  | _ => []

/-- Whether a receipt offers a rollback; looking an operation up that is a list or a mapping
raises. -/
def rollbackAvailable (receipt : Json) : Except String Bool :=
  let rollback := member receipt "rollback"
  if isMapping rollback then .ok (truthy (member rollback "available"))
  else if member receipt "kind" ≠ .str "ophelia.kernel.terminal_receipt" then .ok false
  else do
    let operation := member receipt "operation"
    hashable operation
    return decide (operation = .str "deploy.apply" ∨ operation = .str "rollback.apply") &&
      truthy (member receipt "previous_revision_id")

variable [Platform]

/-- `_receipt_facets`, with the warnings it adds. -/
def ReceiptStore.receiptFacets (store : ReceiptStore) (record : ReceiptRecord) :
    Except String (TimelineEntry × List SourceWarning) :=
  if record.payloadReadable = false then .ok (⟨record, [], false⟩, [])
  else
    match store.receiptPayload record with
    | some (.obj members) => do
        let payload := Json.obj members
        let terminal := member payload "ophelia_receipt"
        let receipt := if isMapping terminal then terminal else payload
        let available ← rollbackAvailable receipt
        return (⟨record, artifactPaths (member receipt "artifacts"), available⟩, [])
    | _ =>
        .ok (⟨record, [], false⟩, [⟨"receipt_unreadable", "Receipt payload is not readable JSON.",
          if record.path = "" then "unknown" else record.path⟩])

/-- `_summary`. -/
def timelineSummary (entries : List TimelineEntry) (warnings : List SourceWarning) : String :=
  toString entries.length ++ " receipt(s) on the timeline" ++
    (if warnings.isEmpty then "" else ", " ++ toString warnings.length ++ " warning(s)") ++ "."

/-- Where an entry stands, later ones first. -/
def laterFirst (key : ReceiptRecord → String × String) (a b : ReceiptRecord) : Bool :=
  decide ((key b).1 < (key a).1 ∨ (key b).1 = (key a).1 ∧ (key b).2 ≤ (key a).2)

/-- Whether a record passes the filters of a timeline behind the scan. -/
def ReceiptFilters.keeps (filters : ReceiptFilters) (record : ReceiptRecord) : Bool :=
  filters.operation.all (fun operation => record.operation = .str operation) &&
    filters.status.all fun status => record.status = .str status

/-- `receipt_timeline`. -/
def receiptTimeline (store : ReceiptStore) (filters : ReceiptFilters)
    (since ceiling : Option String) : Except String ReceiptTimeline := do
  let scan ← store.scan filters.app filters.environment
  let kept := scan.1.filter fun record =>
    filters.keeps record && withinBounds record.startedAt since ceiling
  let entries ← kept.mapM store.receiptFacets
  let receipts := (entries.map Prod.fst).mergeSort fun a b =>
    laterFirst (fun r => (textOrEmpty r.startedAt, r.receiptId)) a.record b.record
  let warnings := scan.2 ++ entries.flatMap Prod.snd
  return ⟨filters, since, ceiling, receipts, warnings, timelineSummary receipts warnings⟩

/-! ### The latest receipt -/

/-- `_scope_blockers`: one for each filter that a record does not meet. -/
def scopeBlocker (field : String) (value : Json) (wanted : Option String) : List SourceWarning :=
  match wanted with
  | none => []
  | some text =>
      if value = .str text then []
      else [⟨"operation_ref_" ++ field ++ "_mismatch",
        "Reference " ++ field ++ " does not match '" ++ text ++ "'.", ""⟩]

omit [Platform] in
def scopeBlockers (record : ReceiptRecord) (filters : ReceiptFilters) : List SourceWarning :=
  scopeBlocker "app" record.app filters.app ++
    scopeBlocker "environment" record.environment filters.environment ++
    scopeBlocker "operation" record.operation filters.operation ++
    scopeBlocker "status" record.status filters.status

omit [Platform] in
/-- `_filter_records`. -/
def filterRecords (records : List ReceiptRecord) (filters : ReceiptFilters) : List ReceiptRecord :=
  (records.filter fun record => (scopeBlockers record filters).isEmpty).mergeSort
    (laterFirst fun r => (r.time, r.receiptId))

/-- What a reference resolves to. -/
structure Resolution where
  ok : Bool
  strategy : String
  record : Option ReceiptRecord
  payload : Option Json
  blockers : List SourceWarning

/-- `_resolved`. -/
def ReceiptStore.resolved (store : ReceiptStore) (record : ReceiptRecord) (strategy : String) :
    Resolution :=
  match store.receiptPayload record with
  | some (.obj members) => ⟨true, strategy, some record, some (.obj members), []⟩
  | _ => ⟨false, strategy, some record, none, [⟨"operation_ref_unreadable",
      "Receipt '" ++ record.receiptId ++ "' was discovered but its payload is unreadable.",
      record.path⟩]⟩

/-- `_combine_scope` without an alias: an empty name is none. -/
def combineScope (explicit : Option String) : Option String :=
  explicit.filter fun name => name ≠ ""

/-- The filters of a reference without a scope of its own. -/
def ReceiptFilters.scope (filters : ReceiptFilters) : ReceiptFilters :=
  { filters with
    app := combineScope filters.app
    operation := combineScope filters.operation }

/-- `resolve_receipt_ref` for the reference `latest`, where no file has that name. -/
def resolveLatest (store : ReceiptStore) (filters : ReceiptFilters) : Except String Resolution := do
  let timeline ← receiptTimeline store ⟨none, filters.environment, none, filters.status⟩ none none
  match filterRecords (timeline.receipts.map TimelineEntry.record) filters.scope with
  | [] => return ⟨false, "latest", none, none,
      [⟨"operation_ref_not_found", "No receipt matched reference 'latest'.", ""⟩]⟩
  | record :: _ => return store.resolved record "latest"

/-! ### Bounds -/

/-- A bound of a timeline: an instant or a day. -/
inductive Bound where
  | at (stamp : Stamp)
  | day (date : DateTime)

namespace Bound

def text : Bound → String
  | .at stamp => stamp.text
  | .day date => String.ofList date.dateText

/-- The first instant that a lower bound lets in. -/
def start : Bound → Int
  | .at stamp => stamp.instant
  | .day date => date.midnight.instant

/-- The last instant, in microseconds, that an upper bound lets in. -/
def finish : Bound → Int
  | .at stamp => stamp.instant
  | .day date => date.midnight.instant + 86399999999

/-- A lower bound whose text compares otherwise than its instant. -/
def MisreadBelow (stamp : Stamp) (bound : Bound) : Prop :=
  ∃ s, bound = .at s ∧ Stamp.Misread stamp s

/-- An upper bound whose text compares otherwise than its instant. -/
def MisreadAbove (stamp : Stamp) (bound : Bound) : Prop :=
  ∃ s, bound = .at s ∧ Stamp.Misread s stamp

omit [Platform] in
/-- A day stands before every time of it. -/
theorem text_lt_text_iff {stamp : Stamp} {bound : Bound} :
    (stamp.text < bound.text ↔ stamp.instant < bound.start) ↔ ¬ MisreadBelow stamp bound := by
  cases bound with
  | «at» s =>
      rw [text, start, Stamp.text_lt_iff_instant_lt]
      simp [MisreadBelow]
  | day d =>
      rw [text, start, Stamp.text_lt_date]
      simp [MisreadBelow]

omit [Platform] in
theorem untilCeiling_at (s : Stamp) (startedAt : String) :
    untilCeiling s.text startedAt = s.text := by
  have htime : 'T' ∈ s.text.toList := by
    rw [Stamp.text, String.toList_ofList, DateTime.clockText]
    simp
  rw [untilCeiling, if_neg fun h => h.1 htime]

omit [Platform] in
theorem untilCeiling_day (d : DateTime) (s : Stamp) :
    untilCeiling (Bound.day d).text s.text =
      String.ofList (d.dateText ++ (s.time.dayTimeText ++ Stamp.tail s.time.microsecond s.zone)) := by
  have htext : s.text.toList =
      s.time.dateText ++ (s.time.dayTimeText ++ Stamp.tail s.time.microsecond s.zone) := by
    rw [Stamp.text, String.toList_ofList, DateTime.clockText_eq, List.append_assoc]
  have hdate : 'T' ∉ d.dateText := by
    have hdigits := not_mem_digits (show ∀ n < 10, digit n ≠ 'T' by decide)
    simp [DateTime.dateText, hdigits]
  have hlong : 10 ≤ s.text.length := by
    rw [← String.length_toList, htext, List.length_append, DateTime.length_dateText]
    omega
  have hlength : (String.ofList d.dateText).length = 10 := by
    rw [String.length_ofList, DateTime.length_dateText]
  rw [untilCeiling, text, String.toList_ofList, if_pos ⟨hdate, hlength, hlong⟩, htext,
    List.drop_left' s.time.length_dateText, ← String.ofList_append]

omit [Platform] in
theorem ceiling_lt_iff {stamp : Stamp} {bound : Bound} :
    (untilCeiling bound.text stamp.text < stamp.text ↔ bound.finish < stamp.instant) ↔
      ¬ MisreadAbove stamp bound := by
  cases bound with
  | «at» s =>
      rw [text, finish, untilCeiling_at, Stamp.text_lt_iff_instant_lt]
      simp [MisreadAbove]
  | day d =>
      have htext : stamp.text.toList = stamp.time.dateText ++
          (stamp.time.dayTimeText ++ Stamp.tail stamp.time.microsecond stamp.zone) := by
        rw [Stamp.text, String.toList_ofList, DateTime.clockText_eq, List.append_assoc]
      have hday : ¬ MisreadAbove stamp (.day d) := by
        rintro ⟨_, h, _⟩
        cases h
      rw [untilCeiling_day, Stamp.date_lt_text htext, finish]
      exact iff_of_true ⟨fun h => by omega, fun h => by omega⟩ hday

end Bound

/-! ### Entries in order -/

section Entries

omit [Platform] in
/-- A list that is sorted later first is in the order of its keys. -/
theorem pairwise_laterFirst (key : ReceiptRecord → String × String) (f : α → ReceiptRecord)
    (l : List α) :
    (l.mergeSort fun a b => laterFirst key (f a) (f b)).Pairwise fun a b =>
      (key (f b)).1 ≤ (key (f a)).1 := by
  have hle : ∀ a b, laterFirst key a b = true ↔
      toLex ((key b).1, (key b).2) ≤ toLex ((key a).1, (key a).2) := by
    intro a b
    rw [laterFirst, decide_eq_true_eq, Prod.Lex.toLex_le_toLex]
  refine (List.pairwise_mergeSort (fun a b c hab hbc => ?_) (fun a b => ?_) l).imp
    fun {a b} h => ?_
  · rw [hle] at hab hbc ⊢
    exact hbc.trans hab
  · rw [Bool.or_eq_true, hle, hle]
    exact le_total _ _
  · rcases of_decide_eq_true h with h | h
    · exact h.le
    · exact h.1.le

variable (store : ReceiptStore)

theorem mem_receiptScan {app environment : Option String} {r : ReceiptRecord} :
    r ∈ (receiptScan store app environment).1 ↔ r ∈ (receiptScan store none none).1 ∧
      (∀ a, app = some a → r.app = .str a) ∧ ∀ e, environment = some e → r.environment = .str e := by
  simp only [receiptScan, List.mem_mergeSort, List.mem_filter, Option.all_none, Bool.and_true,
    Bool.and_eq_true, and_true]
  refine and_congr_right fun _ => and_congr ?_ ?_
  · cases app <;> simp
  · cases environment <;> simp

/-- An entry is of the record that was asked for. -/
theorem record_receiptFacets {r : ReceiptRecord} {e : TimelineEntry × List SourceWarning}
    (h : store.receiptFacets r = .ok e) : e.1.record = r := by
  unfold ReceiptStore.receiptFacets at h
  split at h
  · cases h
    rfl
  · split at h
    · obtain ⟨available, -, h⟩ := Results.bind_eq_ok.mp h
      cases h
      rfl
    · cases h
      rfl

theorem map_record_of_mapM {kept : List ReceiptRecord}
    {entries : List (TimelineEntry × List SourceWarning)}
    (h : kept.mapM store.receiptFacets = .ok entries) :
    entries.map (fun e => e.1.record) = kept := by
  have hall := Results.mapM_eq_ok.mp h
  clear h
  induction hall with
  | nil => rfl
  | cons hfacets _ ih => rw [List.map_cons, ih, record_receiptFacets store hfacets]

/-- The records of a timeline, before they are sorted. -/
def keptRecords (filters : ReceiptFilters) (since ceiling : Option String) : List ReceiptRecord :=
  (receiptScan store filters.app filters.environment).1.filter fun record =>
    filters.keeps record && withinBounds record.startedAt since ceiling

/-- No file has a list or a mapping for its kind. -/
def KindsHashable : Prop :=
  ∀ file ∈ store.files, ∀ payload, file.payload = some payload →
    hashable (member payload "kind") = .ok ()

theorem scan_eq_ok {app environment : Option String}
    {scan : List ReceiptRecord × List SourceWarning} :
    store.scan app environment = .ok scan ↔
      KindsHashable store ∧ scan = receiptScan store app environment := by
  have hkind : ∀ file : FoundReceipt, (∃ u : Unit, file.payload.elim (.ok ())
      (fun payload => hashable (member payload "kind")) = Except.ok (ε := String) u) ↔
        ∀ payload, file.payload = some payload → hashable (member payload "kind") = .ok () := by
    intro file
    cases file.payload with
    | none => simp
    | some payload =>
        simp only [Option.elim_some, Option.some.injEq, forall_eq']
        exact ⟨fun ⟨_, h⟩ => h, fun h => ⟨(), h⟩⟩
  rw [ReceiptStore.scan, Results.bind_eq_ok, KindsHashable]
  constructor
  · rintro ⟨kinds, hkinds, h⟩
    exact ⟨fun file hfile => (hkind file).mp (Results.mapM_isOk_iff.mp ⟨kinds, hkinds⟩ file hfile),
      (Except.ok.inj h).symm⟩
  · rintro ⟨hkinds, rfl⟩
    obtain ⟨kinds, h⟩ := Results.mapM_isOk_iff.mpr fun file hfile =>
      (hkind file).mpr (hkinds file hfile)
    exact ⟨kinds, h, rfl⟩

/-- A timeline has the records that are kept, later texts first; it fails exactly if a kind cannot
be looked up or some facets fail. -/
theorem receiptTimeline_spec (filters : ReceiptFilters) (since ceiling : Option String) :
    ((∃ t, receiptTimeline store filters since ceiling = .ok t) ↔ KindsHashable store ∧
      ∀ r ∈ keptRecords store filters since ceiling, ∃ e, store.receiptFacets r = .ok e) ∧
    ∀ t, receiptTimeline store filters since ceiling = .ok t →
      (∀ r, (∃ e ∈ t.receipts, e.record = r) ↔ r ∈ keptRecords store filters since ceiling) ∧
      t.receipts.Pairwise fun a b =>
        textOrEmpty b.record.startedAt ≤ textOrEmpty a.record.startedAt := by
  have heq : ∀ t, receiptTimeline store filters since ceiling = .ok t ↔ KindsHashable store ∧
      ((keptRecords store filters since ceiling).mapM store.receiptFacets >>= fun entries =>
        let receipts := (entries.map Prod.fst).mergeSort fun a b =>
          laterFirst (fun r => (textOrEmpty r.startedAt, r.receiptId)) a.record b.record
        let warnings := (receiptScan store filters.app filters.environment).2 ++
          entries.flatMap Prod.snd
        .ok ⟨filters, since, ceiling, receipts, warnings,
          timelineSummary receipts warnings⟩) = .ok t := by
    intro t
    rw [receiptTimeline, Results.bind_eq_ok]
    constructor
    · rintro ⟨scan, hscan, h⟩
      obtain ⟨hkinds, rfl⟩ := (scan_eq_ok store).mp hscan
      exact ⟨hkinds, h⟩
    · rintro ⟨hkinds, h⟩
      exact ⟨_, (scan_eq_ok store).mpr ⟨hkinds, rfl⟩, h⟩
  constructor
  · rw [← Results.mapM_isOk_iff]
    constructor
    · rintro ⟨t, h⟩
      obtain ⟨hkinds, h⟩ := (heq t).mp h
      obtain ⟨entries, hentries, -⟩ := Results.bind_eq_ok.mp h
      exact ⟨hkinds, entries, hentries⟩
    · rintro ⟨hkinds, entries, hentries⟩
      exact ⟨_, (heq _).mpr ⟨hkinds, Results.bind_ok hentries rfl⟩⟩
  · intro t h
    obtain ⟨-, h⟩ := (heq t).mp h
    obtain ⟨entries, hentries, h⟩ := Results.bind_eq_ok.mp h
    obtain rfl := (Except.ok.inj h).symm
    have hrecords : entries.map (fun e => e.1.record) = keptRecords store filters since ceiling :=
      map_record_of_mapM store hentries
    refine ⟨fun r => ?_, ?_⟩
    · rw [← hrecords, List.mem_map]
      simp only [List.mem_mergeSort, List.mem_map]
      exact ⟨fun ⟨e, ⟨x, hx, hxe⟩, hr⟩ => ⟨x, hx, hxe ▸ hr⟩, fun ⟨x, hx, hr⟩ => ⟨x.1, ⟨x, hx, rfl⟩, hr⟩⟩
    · exact pairwise_laterFirst (fun r => (textOrEmpty r.startedAt, r.receiptId))
        TimelineEntry.record (entries.map Prod.fst)

end Entries

/-! ### Texts and time -/

/-- A record that every filter lets through. -/
def ReceiptFilters.Matches (filters : ReceiptFilters) (r : ReceiptRecord) : Prop :=
  (∀ a, filters.app = some a → r.app = .str a) ∧
    (∀ e, filters.environment = some e → r.environment = .str e) ∧
    (∀ o, filters.operation = some o → r.operation = .str o) ∧
    ∀ s, filters.status = some s → r.status = .str s

/-- With both bounds, either or none, the timeline is newest first and has exactly the receipts
between the bounds; and `latest` is a receipt that none is newer than. -/
structure AgreesWithTime (store : ReceiptStore) (stamp : ReceiptRecord → Stamp)
    (filters : ReceiptFilters) (since ceiling : Option Bound) : Prop where
  listed : ∀ s u, s = none ∨ s = since → u = none ∨ u = ceiling →
    ∃ t, receiptTimeline store filters (s.map Bound.text) (u.map Bound.text) = .ok t ∧
      t.receipts.Pairwise (fun a b => (stamp b.record).instant ≤ (stamp a.record).instant) ∧
      ∀ r, (∃ e ∈ t.receipts, e.record = r) ↔
        r ∈ (receiptScan store none none).1 ∧ filters.Matches r ∧
          (∀ b ∈ s, b.start ≤ (stamp r).instant) ∧ ∀ b ∈ u, (stamp r).instant ≤ b.finish
  latest : ∃ resolution, resolveLatest store filters = .ok resolution ∧
    (∀ r, resolution.record = some r →
      r ∈ (receiptScan store none none).1 ∧ filters.scope.Matches r ∧
        ∀ r' ∈ (receiptScan store none none).1, filters.scope.Matches r' →
          (stamp r').instant ≤ (stamp r).instant) ∧
    (resolution.record = none →
      ∀ r ∈ (receiptScan store none none).1, ¬ filters.scope.Matches r)

/-- No text is compared otherwise than its instant, where that would matter, and the kind of every
file and the facets of every receipt of the environment and the status can be read. -/
structure ReadAsTime (store : ReceiptStore) (stamp : ReceiptRecord → Stamp)
    (filters : ReceiptFilters) (since ceiling : Option Bound) : Prop where
  kinds : KindsHashable store
  facets : ∀ r ∈ (receiptScan store none none).1,
    ReceiptFilters.Matches ⟨none, filters.environment, none, filters.status⟩ r →
      ∃ e, store.receiptFacets r = .ok e
  apart : ∀ a ∈ (receiptScan store none none).1, ∀ b ∈ (receiptScan store none none).1,
    filters.Matches a → filters.Matches b → ¬ Stamp.Inverted (stamp a) (stamp b)
  since : ∀ r ∈ (receiptScan store none none).1, filters.Matches r →
    ∀ b ∈ since, ¬ b.MisreadBelow (stamp r)
  ceiling : ∀ r ∈ (receiptScan store none none).1, filters.Matches r →
    ∀ b ∈ ceiling, ¬ b.MisreadAbove (stamp r)
  /-- A whole second with `Z` is not the last one, if there is a fraction of it. -/
  last : ∀ a ∈ (receiptScan store none none).1, ∀ b ∈ (receiptScan store none none).1,
    filters.scope.Matches a → filters.scope.Matches b → Stamp.Inverted (stamp a) (stamp b) →
      ∃ c ∈ (receiptScan store none none).1, filters.scope.Matches c ∧
        (stamp b).time.timestamp < (stamp c).time.timestamp

section Agreement

variable {store : ReceiptStore} {stamp : ReceiptRecord → Stamp} {filters : ReceiptFilters}
  {since ceiling : Option Bound}

omit [Platform] in
theorem keeps_iff {r : ReceiptRecord} : filters.keeps r = true ↔
    (∀ o, filters.operation = some o → r.operation = .str o) ∧
      ∀ s, filters.status = some s → r.status = .str s := by
  unfold ReceiptFilters.keeps
  cases filters.operation <;> cases filters.status <;> simp

omit [Platform] in
theorem withinBounds_iff {s : Stamp} {since ceiling : Option String} :
    withinBounds (.str s.text) since ceiling = true ↔
      (∀ b ∈ since, ¬ s.text < b) ∧ ∀ b ∈ ceiling, ¬ untilCeiling b s.text < s.text := by
  have hne := s.text_ne_empty
  unfold withinBounds
  cases since <;> cases ceiling <;> simp [hne, -String.lt_iff_ltb]

/-- What the timeline keeps, by the texts of the receipts. -/
theorem mem_keptRecords
    (hstamp : ∀ r ∈ (receiptScan store none none).1, r.startedAt = .str (stamp r).text)
    {r : ReceiptRecord} :
    r ∈ keptRecords store filters (since.map Bound.text) (ceiling.map Bound.text) ↔
      r ∈ (receiptScan store none none).1 ∧ filters.Matches r ∧
        (∀ b ∈ since, ¬ (stamp r).text < b.text) ∧
          ∀ b ∈ ceiling, ¬ untilCeiling b.text (stamp r).text < (stamp r).text := by
  rw [keptRecords, List.mem_filter, mem_receiptScan, Bool.and_eq_true, keeps_iff,
    ReceiptFilters.Matches]
  constructor
  · rintro ⟨⟨hr, happ, henvironment⟩, ⟨hoperation, hstatus⟩, hbounds⟩
    rw [hstamp r hr, withinBounds_iff] at hbounds
    refine ⟨hr, ⟨happ, henvironment, hoperation, hstatus⟩, ?_, ?_⟩
    · exact fun b hb => hbounds.1 b.text (Option.mem_map_of_mem _ hb)
    · exact fun b hb => hbounds.2 b.text (Option.mem_map_of_mem _ hb)
  · rintro ⟨hr, ⟨happ, henvironment, hoperation, hstatus⟩, hsince, hceiling⟩
    refine ⟨⟨hr, happ, henvironment⟩, ⟨hoperation, hstatus⟩, ?_⟩
    rw [hstamp r hr, withinBounds_iff]
    constructor
    · rintro text htext
      obtain ⟨b, hb, rfl⟩ := Option.mem_map.mp htext
      exact hsince b hb
    · rintro text htext
      obtain ⟨b, hb, rfl⟩ := Option.mem_map.mp htext
      exact hceiling b hb

omit [Platform] in
theorem scopeBlockers_isEmpty_iff {r : ReceiptRecord} :
    (scopeBlockers r filters).isEmpty = true ↔ filters.Matches r := by
  have hone : ∀ (field : String) (value : Json) (wanted : Option String),
      scopeBlocker field value wanted = [] ↔ ∀ text, wanted = some text → value = .str text := by
    intro field value wanted
    unfold scopeBlocker
    cases wanted with
    | none => simp
    | some text => by_cases h : value = .str text <;> simp [h]
  rw [List.isEmpty_iff, scopeBlockers, List.append_eq_nil_iff, List.append_eq_nil_iff,
    List.append_eq_nil_iff, hone, hone, hone, hone, ReceiptFilters.Matches]
  tauto

/-- What `latest` chooses from, later texts first. -/
theorem resolveLatest_eq {t : ReceiptTimeline}
    (h : receiptTimeline store ⟨none, filters.environment, none, filters.status⟩ none none = .ok t) :
    ∃ resolution, resolveLatest store filters = .ok resolution ∧ resolution.record =
      (filterRecords (t.receipts.map TimelineEntry.record) filters.scope).head? := by
  unfold resolveLatest
  rw [h]
  change ∃ resolution, (match filterRecords (t.receipts.map TimelineEntry.record) filters.scope with
    | [] => _
    | record :: _ => _) = Except.ok resolution ∧ _
  cases filterRecords (t.receipts.map TimelineEntry.record) filters.scope with
  | nil => exact ⟨_, rfl, rfl⟩
  | cons r rest =>
      refine ⟨_, rfl, ?_⟩
      unfold ReceiptStore.resolved
      split <;> rfl

theorem exists_timeline_of_resolveLatest {resolution : Resolution}
    (h : resolveLatest store filters = .ok resolution) :
    ∃ t, receiptTimeline store ⟨none, filters.environment, none, filters.status⟩ none none =
      .ok t := by
  obtain ⟨t, ht, -⟩ := Results.bind_eq_ok.mp h
  exact ⟨t, ht⟩

omit [Platform] in
theorem textOrEmpty_stamp {s : Stamp} {r : ReceiptRecord} (h : r.startedAt = .str s.text) :
    textOrEmpty r.startedAt = s.text ∧ r.time = s.text := by
  have htruthy : truthy (.str s.text) = true := by simp [truthy, s.text_ne_empty]
  rw [textOrEmpty, ReceiptRecord.time, h, orElse, if_pos htruthy, orElse, if_pos htruthy]
  exact ⟨rfl, rfl⟩

/-- A timeline in terms of the texts of its receipts. -/
theorem receipts_of_timeline
    (hstamp : ∀ r ∈ (receiptScan store none none).1, r.startedAt = .str (stamp r).text)
    {t : ReceiptTimeline} (h : receiptTimeline store filters (since.map Bound.text)
      (ceiling.map Bound.text) = .ok t) :
    (t.receipts.Pairwise fun a b => (stamp b.record).text ≤ (stamp a.record).text) ∧
      ∀ r, (∃ e ∈ t.receipts, e.record = r) ↔
        r ∈ (receiptScan store none none).1 ∧ filters.Matches r ∧
          (∀ b ∈ since, ¬ (stamp r).text < b.text) ∧
            ∀ b ∈ ceiling, ¬ untilCeiling b.text (stamp r).text < (stamp r).text := by
  obtain ⟨hmem, hsorted⟩ := (receiptTimeline_spec store filters _ _).2 t h
  have hscan : ∀ e ∈ t.receipts, e.record ∈ (receiptScan store none none).1 := fun e he =>
    ((mem_keptRecords hstamp).mp ((hmem e.record).mp ⟨e, he, rfl⟩)).1
  refine ⟨hsorted.imp_of_mem fun {a b} ha hb hab => ?_, fun r => ?_⟩
  · rw [(textOrEmpty_stamp (hstamp _ (hscan a ha))).1,
      (textOrEmpty_stamp (hstamp _ (hscan b hb))).1] at hab
    exact hab
  · rw [hmem, mem_keptRecords hstamp]

/-- The candidates of `latest`. -/
theorem candidates_of_timeline
    (hstamp : ∀ r ∈ (receiptScan store none none).1, r.startedAt = .str (stamp r).text)
    {t : ReceiptTimeline}
    (h : receiptTimeline store ⟨none, filters.environment, none, filters.status⟩ none none =
      .ok t) :
    ((filterRecords (t.receipts.map TimelineEntry.record) filters.scope).Pairwise fun a b =>
      (stamp b).text ≤ (stamp a).text) ∧
      ∀ r, r ∈ filterRecords (t.receipts.map TimelineEntry.record) filters.scope ↔
        r ∈ (receiptScan store none none).1 ∧ filters.scope.Matches r := by
  have htimeline := (@receipts_of_timeline _ _ _ _ none none hstamp _ h).2
  have hmem : ∀ r, r ∈ filterRecords (t.receipts.map TimelineEntry.record) filters.scope ↔
      r ∈ (receiptScan store none none).1 ∧ filters.scope.Matches r := by
    intro r
    rw [filterRecords, List.mem_mergeSort, List.mem_filter, scopeBlockers_isEmpty_iff, List.mem_map,
      htimeline]
    constructor
    · rintro ⟨⟨hr, -⟩, hscope⟩
      exact ⟨hr, hscope⟩
    · rintro ⟨hr, hscope⟩
      exact ⟨⟨hr, ⟨nofun, hscope.2.1, nofun, hscope.2.2.2⟩, nofun, nofun⟩, hscope⟩
  refine ⟨?_, hmem⟩
  have hsorted := pairwise_laterFirst (fun r => (r.time, r.receiptId)) id
    ((t.receipts.map TimelineEntry.record).filter fun r => (scopeBlockers r filters.scope).isEmpty)
  refine List.Pairwise.imp_of_mem (fun {a b} ha hb hab => ?_) hsorted
  have htime : ∀ r ∈ filterRecords (t.receipts.map TimelineEntry.record) filters.scope,
      r.time = (stamp r).text := fun r hr =>
    (textOrEmpty_stamp (hstamp r ((hmem r).mp hr).1)).2
  change b.time ≤ a.time at hab
  rw [htime a ha, htime b hb] at hab
  exact hab

theorem readAsTime_of_agrees
    (hstamp : ∀ r ∈ (receiptScan store none none).1, r.startedAt = .str (stamp r).text)
    (h : AgreesWithTime store stamp filters since ceiling) :
    ReadAsTime store stamp filters since ceiling := by
  obtain ⟨resolution, hlatest, hgreatest, -⟩ := h.latest
  obtain ⟨recent, hrecent⟩ := exists_timeline_of_resolveLatest hlatest
  refine
    { kinds := ((receiptTimeline_spec store _ _ _).1.mp ⟨recent, hrecent⟩).1
      facets := fun r hr hmatches => ?_
      apart := ?_
      since := fun r hr hmatches b hb => ?_
      ceiling := fun r hr hmatches b hb => ?_
      last := fun a ha b hb hma hmb hab => ?_ }
  · refine ((receiptTimeline_spec store _ _ _).1.mp ⟨recent, hrecent⟩).2 r ?_
    exact (@mem_keptRecords _ _ _ _ none none hstamp _).mpr
      ⟨hr, hmatches, nofun, nofun⟩
  · obtain ⟨t, ht, hnewest, -⟩ := h.listed none none (.inl rfl) (.inl rfl)
    obtain ⟨hsorted, hmem⟩ := receipts_of_timeline hstamp ht
    intro a ha b hb hma hmb
    obtain ⟨e, he, rfl⟩ := (hmem a).mpr ⟨ha, hma, nofun, nofun⟩
    obtain ⟨e', he', rfl⟩ := (hmem b).mpr ⟨hb, hmb, nofun, nofun⟩
    exact (Stamp.newest_iff hsorted).mp hnewest e he e' he'
  · obtain rfl : since = some b := hb
    obtain ⟨t, ht, -, hselected⟩ := h.listed (some b) none (.inr rfl) (.inl rfl)
    have htext := (@receipts_of_timeline _ _ _ _ (some b) none hstamp _ ht).2 r
    rw [hselected r] at htext
    have hboth : b.start ≤ (stamp r).instant ↔ ¬ (stamp r).text < b.text := by
      simpa [hr, hmatches, -String.lt_iff_ltb] using htext
    refine Bound.text_lt_text_iff.mp ?_
    rw [← not_iff_not, ← hboth]
    exact not_lt.symm
  · obtain rfl : ceiling = some b := hb
    obtain ⟨t, ht, -, hselected⟩ := h.listed none (some b) (.inl rfl) (.inr rfl)
    have htext := (@receipts_of_timeline _ _ _ _ none (some b) hstamp _ ht).2 r
    rw [hselected r] at htext
    have hboth : (stamp r).instant ≤ b.finish ↔
        ¬ untilCeiling b.text (stamp r).text < (stamp r).text := by
      simpa [hr, hmatches, -String.lt_iff_ltb] using htext
    refine Bound.ceiling_lt_iff.mp ?_
    rw [← not_iff_not, ← hboth]
    exact not_lt.symm
  · obtain ⟨hsorted, hmem⟩ := candidates_of_timeline hstamp hrecent
    obtain ⟨resolution', hlatest', hrecord⟩ := resolveLatest_eq hrecent
    obtain rfl := Except.ok.inj (hlatest.symm.trans hlatest')
    have hne : filterRecords (recent.receipts.map TimelineEntry.record) filters.scope ≠ [] :=
      List.ne_nil_of_mem ((hmem a).mpr ⟨ha, hma⟩)
    obtain ⟨x, rest, hlist⟩ := List.exists_cons_of_ne_nil hne
    have hhead := hrecord
    rw [hlist, List.head?_cons] at hhead
    have hnewest := (hgreatest x hhead).2.2
    obtain ⟨c, hc, hsecond⟩ := (Stamp.newest_head_iff hsorted (hrecord.symm.trans hhead)).mp
      (fun r hr => hnewest r ((hmem r).mp hr).1 ((hmem r).mp hr).2) a ((hmem a).mpr ⟨ha, hma⟩) b
      ((hmem b).mpr ⟨hb, hmb⟩) hab
    exact ⟨c, ((hmem c).mp hc).1, ((hmem c).mp hc).2, hsecond⟩

theorem agrees_of_readAsTime
    (hstamp : ∀ r ∈ (receiptScan store none none).1, r.startedAt = .str (stamp r).text)
    (h : ReadAsTime store stamp filters since ceiling) :
    AgreesWithTime store stamp filters since ceiling := by
  constructor
  · intro s u hs hu
    have hkept : ∀ r ∈ keptRecords store filters (s.map Bound.text) (u.map Bound.text),
        ∃ e, store.receiptFacets r = .ok e := by
      intro r hr
      obtain ⟨hr, hmatches, -⟩ := (mem_keptRecords hstamp).mp hr
      exact h.facets r hr ⟨nofun, hmatches.2.1, nofun, hmatches.2.2.2⟩
    obtain ⟨t, ht⟩ := (receiptTimeline_spec store filters _ _).1.mpr ⟨h.kinds, hkept⟩
    obtain ⟨hsorted, hmem⟩ := receipts_of_timeline hstamp ht
    refine ⟨t, ht, (Stamp.newest_iff hsorted).mpr fun a ha b hb => ?_, fun r => ?_⟩
    · obtain ⟨hra, hma, -⟩ := (hmem a.record).mp ⟨a, ha, rfl⟩
      obtain ⟨hrb, hmb, -⟩ := (hmem b.record).mp ⟨b, hb, rfl⟩
      exact h.apart _ hra _ hrb hma hmb
    · rw [hmem r]
      refine and_congr_right fun hr => and_congr_right fun hmatches => and_congr ?_ ?_
      · refine forall_congr' fun b => forall_congr' fun hb => ?_
        have hbound : b ∈ since := by
          rcases hs with rfl | rfl
          · cases hb
          · exact hb
        rw [Bound.text_lt_text_iff.mpr (h.since r hr hmatches b hbound), not_lt]
      · refine forall_congr' fun b => forall_congr' fun hb => ?_
        have hbound : b ∈ ceiling := by
          rcases hu with rfl | rfl
          · cases hb
          · exact hb
        rw [Bound.ceiling_lt_iff.mpr (h.ceiling r hr hmatches b hbound), not_lt]
  · have hkept : ∀ r ∈ keptRecords store ⟨none, filters.environment, none, filters.status⟩ none none,
        ∃ e, store.receiptFacets r = .ok e := by
      intro r hr
      obtain ⟨hr, hmatches, -⟩ :=
        (@mem_keptRecords _ _ _ _ none none hstamp _).mp hr
      exact h.facets r hr hmatches
    obtain ⟨t, ht⟩ := (receiptTimeline_spec store _ _ _).1.mpr ⟨h.kinds, hkept⟩
    obtain ⟨hsorted, hmem⟩ := candidates_of_timeline hstamp ht
    obtain ⟨resolution, hlatest, hrecord⟩ := resolveLatest_eq ht
    refine ⟨resolution, hlatest, fun r hr => ?_, fun hnone r hr hmatches => ?_⟩
    · have hhead := hrecord.symm.trans hr
      obtain ⟨hscan, hmatches⟩ := (hmem r).mp (List.mem_of_mem_head? hhead)
      refine ⟨hscan, hmatches, fun r' hr' hmatches' => ?_⟩
      refine (Stamp.newest_head_iff hsorted hhead).mpr (fun a ha b hb hab => ?_) r'
        ((hmem r').mpr ⟨hr', hmatches'⟩)
      obtain ⟨c, hc, hmc, hsecond⟩ := h.last a ((hmem a).mp ha).1 b ((hmem b).mp hb).1
        ((hmem a).mp ha).2 ((hmem b).mp hb).2 hab
      exact ⟨c, (hmem c).mpr ⟨hc, hmc⟩, hsecond⟩
    · have hempty := List.head?_eq_none_iff.mp (hrecord.symm.trans hnone)
      have hin := (hmem r).mpr ⟨hr, hmatches⟩
      rw [hempty] at hin
      cases hin

/-- **Where texts are read as times**, the timeline, its bounds and `latest` agree with time, and
nowhere else. -/
theorem agreesWithTime_iff
    (hstamp : ∀ r ∈ (receiptScan store none none).1, r.startedAt = .str (stamp r).text) :
    AgreesWithTime store stamp filters since ceiling ↔
      ReadAsTime store stamp filters since ceiling :=
  ⟨readAsTime_of_agrees hstamp, agrees_of_readAsTime hstamp⟩

end Agreement

end Ophelia

namespace Ophelia.Reference

open Calendar

attribute [local instance] platform

/-- A legacy receipt with a time. -/
def datedFile (path id : String) (startedAt : Stamp) : FoundReceipt :=
  ⟨some "shop", none, path, .file, some (.obj [("receipt_id", .str id),
    ("started_at", .str startedAt.text)])⟩

/-- A host with two of them. -/
def datedStore (first second : Stamp) : ReceiptStore where
  files := [datedFile "/a" "receipt_a" first, datedFile "/b" "receipt_b" second]
  database := "/srv/operations.db"
  journal := Journal.fresh
  below := by
    have hpaths : ∀ path ∈ ["/a", "/b"], '/' ∈ path.toList ∧
        "sqlite:".toList.isPrefixOf path.toList = false := by decide
    intro file hfile
    rcases List.mem_cons.mp hfile with rfl | hfile
    · exact hpaths "/a" (by decide)
    · rw [List.mem_singleton.mp hfile]
      exact hpaths "/b" (by decide)

/-- The first second of 2026, and instants of it. -/
def newYear (second microsecond : Nat) (hs : second ≤ 59 := by decide)
    (hm : microsecond ≤ 999999 := by decide) : DateTime :=
  ⟨2026, 1, 1, 0, 0, second, microsecond, year_2026, first_month, first_day, Nat.zero_le (nat_lit 23),
    Nat.zero_le (nat_lit 59), hs, hm⟩

def dated (first second : Stamp) (r : ReceiptRecord) : Stamp :=
  if r.path = "/a" then first else second

def allReceipts : ReceiptFilters := ⟨none, none, none, none⟩

/-- The records of the host. -/
def datedRecords (first second : Stamp) : List ReceiptRecord :=
  [recordWithSourceMetadata (fileRecord (datedFile "/a" "receipt_a" first)).1,
    recordWithSourceMetadata (fileRecord (datedFile "/b" "receipt_b" second)).1]

theorem mem_scan_dated {first second : Stamp} (h :
    ((datedStore first second).mergeRecords (datedStore first second).records).1.map Prod.snd =
      datedRecords first second) {r : ReceiptRecord} :
    r ∈ (receiptScan (datedStore first second) none none).1 ↔ r ∈ datedRecords first second := by
  rw [receiptScan_eq, ReceiptStore.scanned, List.mem_mergeSort, h]

def wholeSecond : Stamp := ⟨newYear 0 0 (Nat.zero_le (nat_lit 59)) (Nat.zero_le (nat_lit 999999)), .z⟩

def halfSecond : Stamp := ⟨newYear 0 500000 (Nat.zero_le (nat_lit 59)), .z⟩

def nextSecond : Stamp := ⟨newYear 1 0 (by decide) (Nat.zero_le (nat_lit 999999)), .offset⟩

/-- Receipts of different seconds, and bounds that no receipt shares its second with. -/
theorem agreesWithTime_seconds :
    AgreesWithTime (datedStore halfSecond nextSecond) (dated halfSecond nextSecond) allReceipts
      (some (.day (newYear 0 0))) (some (.at ⟨newYear 2 0, .z⟩)) := by
  have hrecords : ((datedStore halfSecond nextSecond).mergeRecords
      (datedStore halfSecond nextSecond).records).1.map Prod.snd =
        datedRecords halfSecond nextSecond := by
    decide +kernel
  have hall : ∀ P : ReceiptRecord → Prop, (∀ r ∈ datedRecords halfSecond nextSecond, P r) →
      ∀ r ∈ (receiptScan (datedStore halfSecond nextSecond) none none).1, P r :=
    fun P h r hr => h r ((mem_scan_dated hrecords).mp hr)
  have hapart : ∀ a ∈ datedRecords halfSecond nextSecond,
      ∀ b ∈ datedRecords halfSecond nextSecond,
        ¬ Stamp.Inverted (dated halfSecond nextSecond a) (dated halfSecond nextSecond b) := by
    decide +kernel
  refine (agreesWithTime_iff ?_).mpr
    { kinds := ?_
      facets := ?_
      apart := fun a ha b hb _ _ => hapart a ((mem_scan_dated hrecords).mp ha) b
        ((mem_scan_dated hrecords).mp hb)
      since := ?_
      ceiling := ?_
      last := fun a ha b hb _ _ h => absurd h (hapart a ((mem_scan_dated hrecords).mp ha) b
        ((mem_scan_dated hrecords).mp hb)) }
  · refine hall _ ?_
    decide +kernel
  · have hkinds : ∀ file ∈ (datedStore halfSecond nextSecond).files, ∀ payload ∈ file.payload,
        hashable (member payload "kind") = .ok () := by
      decide +kernel
    exact hkinds
  · refine hall _ fun r hr _ => ?_
    have hread : ∀ r ∈ datedRecords halfSecond nextSecond,
        ((datedStore halfSecond nextSecond).receiptFacets r).toOption.isSome = true := by
      decide +kernel
    have hsome := hread r hr
    cases hfacets : (datedStore halfSecond nextSecond).receiptFacets r with
    | ok e => exact ⟨e, rfl⟩
    | error e =>
        rw [hfacets] at hsome
        cases hsome
  · rintro r - - b ⟨⟩ ⟨s, hs, -⟩
    cases hs
  · have hread : ∀ r ∈ datedRecords halfSecond nextSecond,
        ¬ Stamp.Misread ⟨newYear 2 0, .z⟩ (dated halfSecond nextSecond r) := by
      decide +kernel
    refine hall _ fun r hr _ b hb => ?_
    obtain rfl := Option.some.inj hb
    rintro ⟨s, hs, hmisread⟩
    obtain rfl := Bound.at.inj hs
    exact hread r hr hmisread

/-- The timeline lists a whole second before its half, and `latest` is the whole second. -/
theorem not_agreesWithTime_half :
    (∀ r ∈ (receiptScan (datedStore wholeSecond halfSecond) none none).1,
      r.startedAt = .str (dated wholeSecond halfSecond r).text) ∧
    ¬ AgreesWithTime (datedStore wholeSecond halfSecond) (dated wholeSecond halfSecond) allReceipts
      none none := by
  have hrecords : ((datedStore wholeSecond halfSecond).mergeRecords
      (datedStore wholeSecond halfSecond).records).1.map Prod.snd =
        datedRecords wholeSecond halfSecond := by
    decide +kernel
  have hstamp : ∀ r ∈ (receiptScan (datedStore wholeSecond halfSecond) none none).1,
      r.startedAt = .str (dated wholeSecond halfSecond r).text := by
    have hread : ∀ r ∈ datedRecords wholeSecond halfSecond,
        r.startedAt = .str (dated wholeSecond halfSecond r).text := by
      decide +kernel
    exact fun r hr => hread r ((mem_scan_dated hrecords).mp hr)
  refine ⟨hstamp, fun h => ?_⟩
  have hmatches : ∀ r, allReceipts.Matches r := fun _ => ⟨nofun, nofun, nofun, nofun⟩
  have happart := (readAsTime_of_agrees hstamp h).apart
    (recordWithSourceMetadata (fileRecord (datedFile "/b" "receipt_b" halfSecond)).1)
    ((mem_scan_dated hrecords).mpr (List.mem_cons_of_mem _ List.mem_cons_self))
    (recordWithSourceMetadata (fileRecord (datedFile "/a" "receipt_a" wholeSecond)).1)
    ((mem_scan_dated hrecords).mpr List.mem_cons_self) (hmatches _) (hmatches _)
  exact happart (by decide +kernel)

end Ophelia.Reference
