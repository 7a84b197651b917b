import Mathlib.Data.List.Induction
import Ophelia.Products.ReceiptSources
import Ophelia.Journal.Idempotency

/-!
# Ophelia.Products.ReceiptDiscovery

What becomes of the receipt of a product. The wrapper agrees with its nested receipt on
everything but one field: it names the product by the identifier of its bundle, and the nested
receipt names it by the slug of that identifier. So a scan takes the wrapper for intact exactly
if the identifier is a slug already (`survives_iff`); then the wrapper and the row of the journal
become one record.
-/

namespace Ophelia

variable [Platform]

/-! ### The nested receipt -/

omit [Platform] in
theorem member_of_get? {payload v : Json} {key : String} (h : payload.get? key = some v) :
    member payload key = v := by
  rw [member, h]
  rfl

omit [Platform] in
/-- A key that a mapping does not have is not in its sorted copy either. -/
theorem member_sortKeys_missing {ms : List (String × Json)} (hn : (ms.map Prod.fst).Nodup)
    {key : String} (h : key ∉ ms.map Prod.fst) : member (Json.obj ms).sortKeys key = .null := by
  have hlookup : ms.lookup key = none := by
    rw [List.lookup_eq_none_iff]
    intro m hm
    rw [bne_iff_ne]
    exact fun heq => h (heq ▸ List.mem_map_of_mem hm)
  rw [member, Json.get?_sortKeys_obj hn, hlookup]
  rfl

/-- The receipt as it is read from the journal and from the wrapper. -/
def TerminalReceipt.payload (receipt : TerminalReceipt) : Json :=
  (ReceiptClaims.schema.toDict receipt.toReceiptClaims).sortKeys

namespace TerminalReceipt

variable (receipt : TerminalReceipt)

theorem isMapping_payload : isMapping receipt.payload = true := by
  rw [payload, Schema.toDict_eq, Schema.raw, mask, Json.sortKeys]
  rfl

/-- A field of a receipt that redaction leaves as it is. -/
theorem member_payload {key : String} {v : Json}
    (hfield : (key, v) ∈ ReceiptClaims.schema.fields receipt.toReceiptClaims)
    (hmask : (mask v).sortKeys = v) : member receipt.payload key = v := by
  have h := ReceiptClaims.schema.holds receipt.toReceiptClaims (key, v) hfield
  rw [hmask] at h
  exact member_of_get? h

theorem member_kind : member receipt.payload "kind" = .str "ophelia.kernel.terminal_receipt" := by
  have h := Schema.get?_mask_sortKeys (ReceiptClaims.schema.nodup_raw receipt.toReceiptClaims)
    (k := "kind") (v := .str "ophelia.kernel.terminal_receipt")
    (List.mem_cons_of_mem _ List.mem_cons_self)
  rw [← Schema.raw, ← Schema.toDict_eq] at h
  have hmask : (mask (.str "ophelia.kernel.terminal_receipt")).sortKeys =
      .str "ophelia.kernel.terminal_receipt" := by decide +kernel
  rw [hmask] at h
  exact member_of_get? h

omit [Platform] in
/-- A checked name reads back as itself. -/
theorem mask_refined {p : List Char → Bool} (a : Refined p)
    (hsafe : looksLikeSecretValue a.val.toList = false) :
    (mask (.str a.val)).sortKeys = .str a.val := by
  simp [mask, maskText_eq_self hsafe, Json.sortKeys]

theorem receiptId_ne_empty : receipt.receiptId.val ≠ "" := by
  have hok := receipt.receiptId.ok
  intro hempty
  rw [hempty] at hok
  exact absurd hok (by decide)

theorem member_receiptId : member receipt.payload "receipt_id" = .str receipt.receiptId.val :=
  receipt.member_payload (by simp [ReceiptClaims.schema, Codec.entityId, Codec.refined])
    (mask_refined _ (isEntityId_safe .receipt _ receipt.receiptId.ok))

theorem member_operationId :
    member receipt.payload "operation_id" = .str receipt.operationId.val :=
  receipt.member_payload (by simp [ReceiptClaims.schema, Codec.entityId, Codec.refined])
    (mask_refined _ (isEntityId_safe .operation _ receipt.operationId.ok))

theorem member_operation : member receipt.payload "operation" = .str receipt.operation.val :=
  receipt.member_payload (by simp [ReceiptClaims.schema, Codec.operationName, Codec.refined])
    (mask_refined _ (isOperation_safe _ receipt.operation.ok))

theorem member_app : member receipt.payload "app" = .str receipt.app.val :=
  receipt.member_payload (by simp [ReceiptClaims.schema, Codec.slug, Codec.refined])
    (mask_refined _ (isSlug_safe _ receipt.app.ok))

theorem member_outcome : member receipt.payload "outcome" = .str receipt.outcome.value := by
  refine receipt.member_payload
    (by simp [ReceiptClaims.schema, ReceiptOutcome.codec, Codec.enum]) ?_
  cases receipt.outcome <;> decide +kernel

theorem member_inputsRedacted : member receipt.payload "inputs_redacted" = .bool true := by
  have hredacted : receipt.inputsRedacted = true := by
    have h := receipt.truthful (!receipt.inputsRedacted,
      "Kernel receipts must declare inputs_redacted=true.") (by simp [ReceiptClaims.violations])
    simpa using h
  refine receipt.member_payload ?_ (by decide)
  simp [ReceiptClaims.schema, Codec.bool, hredacted]

/-- The receipt of a kernel operation has an outcome and no status. -/
theorem member_status : member receipt.payload "status" = .null := by
  rw [payload, Schema.toDict_eq, Schema.raw, mask]
  have hkeys : (maskMembers (("schema_version", Json.int 1) ::
      ("kind", .str ReceiptClaims.schema.kind) ::
      ReceiptClaims.schema.fields receipt.toReceiptClaims)).map Prod.fst =
      "schema_version" :: "kind" :: ReceiptClaims.schema.keys := by
    rw [maskMembers_eq, List.map_map]
    have h := ReceiptClaims.schema.keys_eq receipt.toReceiptClaims
    simp only [Function.comp_def, List.map_cons]
    rw [h]
  refine member_sortKeys_missing ?_ ?_
  · rw [hkeys]
    exact ReceiptClaims.schema.keys_nodup
  · rw [hkeys]
    simp [ReceiptClaims.schema]

/-- The digest of the receipt is the digest of what is read. -/
theorem payloadDigest_payload : payloadDigest receipt.payload = .str receipt.digest.val := by
  have h : receipt.payload.dumps = receipt.canonicalJson := by
    rw [payload, canonicalJson, Schema.canonicalJson, Json.dumps_eq_iff, Json.sortKeys_sortKeys]
  rw [payloadDigest, h]
  rfl

end TerminalReceipt

/-! ### The wrapper -/

/-- The members every wrapper starts with, as a scan reads them. -/
structure Wraps (bundle : ProductEvidence) (receipt : TerminalReceipt) (payload : Json) : Prop where
  kind : isProductKind (member payload "kind") = true
  nested : member payload "ophelia_receipt" = receipt.payload
  digest : member payload "ophelia_receipt_digest" = .str receipt.digest.val
  operation : member payload "operation" = .str receipt.operation.val
  status : member payload "status" = .str receipt.outcome.value
  productId : member payload "product_id" = .str bundle.productId.val
  inputsRedacted : member payload "inputs_redacted" = .bool true
  app : member payload "app" = .null
  environment : member payload "environment" = .null

/-- What a product operation or a recovery writes for a receipt. -/
def Correlated (bundle : ProductEvidence) (receipt : TerminalReceipt) (wrapper : Json) : Prop :=
  ∃ approval, correlatedReceipt bundle receipt approval = .ok wrapper ∨
    ∃ evidence, recoveryReceipt bundle receipt approval evidence = .ok wrapper

/-- The keys of the common members. -/
def COMMON_KEYS : List String :=
  ["schema_version", "kind", "status", "operation", "product_id", "release_id", "bundle_digest",
    "composition_digest", "runtime_contract_digest", "runtime_document_digest",
    "release_manifest_digest", "release_document_digest", "recovery_contract_digest",
    "recovery_document_digest", "ophelia_receipt_digest", "ophelia_receipt", "inputs_redacted"]

/-- The keys that come after them. -/
def LATER_KEYS : List String :=
  ["ophelia_request_digest", "ophelia_plan_digest", "ophelia_approval_digest",
    "ophelia_operation_digest", "ophelia_verification_digest", "backup_id", "restore_drill_id",
    "backup_manifest_digest", "backup_path", "restore_report_digest", "restore_path"]

theorem correlation_keys {message : String} {receipt : TerminalReceipt} {approval : ApprovedPlanRef}
    {correlation : List (String × Json)}
    (h : operationCorrelation message receipt approval = .ok correlation) :
    correlation.map Prod.fst =
      ["ophelia_request_digest", "ophelia_plan_digest", "ophelia_approval_digest",
        "ophelia_operation_digest", "ophelia_verification_digest"] := by
  unfold operationCorrelation at h
  split at h
  · cases h
  · cases h
    rfl

omit [Platform] in
theorem evidence_keys (evidence : RecoveryEvidence) :
    (["ophelia_request_digest", "ophelia_plan_digest", "ophelia_approval_digest",
      "ophelia_operation_digest", "ophelia_verification_digest"] ++
        evidence.values.map Prod.fst).Nodup ∧
      ∀ key ∈ evidence.values.map Prod.fst, key ∈ LATER_KEYS := by
  cases evidence with
  | backup backupId published =>
      cases published with
      | none => exact ⟨by simp [RecoveryEvidence.values], by simp [RecoveryEvidence.values, LATER_KEYS]⟩
      | some p => exact ⟨by simp [RecoveryEvidence.values], by simp [RecoveryEvidence.values, LATER_KEYS]⟩
  | restoreDrill backupId drillId verified =>
      cases verified with
      | none => exact ⟨by simp [RecoveryEvidence.values], by simp [RecoveryEvidence.values, LATER_KEYS]⟩
      | some p => exact ⟨by simp [RecoveryEvidence.values], by simp [RecoveryEvidence.values, LATER_KEYS]⟩

/-- Both kinds of wrappers read alike. -/
theorem wraps_members {kind : String} (hkind : kind ∈ PRODUCT_RECEIPT_KINDS)
    (bundle : ProductEvidence) (receipt : TerminalReceipt) {later : List (String × Json)}
    (hnodup : (later.map Prod.fst).Nodup) (hlater : ∀ key ∈ later.map Prod.fst, key ∈ LATER_KEYS) :
    Wraps bundle receipt
      (Json.obj (correlatedMembers kind bundle receipt ++ later)).sortKeys := by
  have hcommon : (correlatedMembers kind bundle receipt).map Prod.fst = COMMON_KEYS := rfl
  have hdisjoint : ∀ key ∈ COMMON_KEYS, key ∉ LATER_KEYS :=
    List.forall_iff_forall_mem.mp (by decide)
  have hn : ((correlatedMembers kind bundle receipt ++ later).map Prod.fst).Nodup := by
    rw [List.map_append, hcommon]
    exact List.Nodup.append (by decide) hnodup fun key h₁ h₂ => hdisjoint key h₁ (hlater key h₂)
  have hget : ∀ (key : String) (v : Json),
      (correlatedMembers kind bundle receipt).lookup key = some v →
      member (Json.obj (correlatedMembers kind bundle receipt ++ later)).sortKeys key =
        v.sortKeys := by
    intro key v hlookup
    rw [member, Json.get?_sortKeys_obj hn, List.lookup_append, hlookup]
    rfl
  have hmissing : ∀ key ∉ COMMON_KEYS, key ∉ LATER_KEYS →
      member (Json.obj (correlatedMembers kind bundle receipt ++ later)).sortKeys key = .null := by
    intro key h₁ h₂
    refine member_sortKeys_missing hn ?_
    rw [List.map_append, List.mem_append, hcommon]
    exact fun h => h.elim h₁ fun h => h₂ (hlater key h)
  refine
    { kind := ?_
      nested := hget "ophelia_receipt" (ReceiptClaims.schema.toDict receipt.toReceiptClaims) rfl
      digest := hget "ophelia_receipt_digest" (.str receipt.digest.val) rfl
      operation := hget "operation" (.str receipt.operation.val) rfl
      status := hget "status" (.str receipt.outcome.value) rfl
      productId := hget "product_id" (.str bundle.productId.val) rfl
      inputsRedacted := hget "inputs_redacted" (.bool true) rfl
      app := hmissing "app" (by decide) (by decide)
      environment := hmissing "environment" (by decide) (by decide) }
  have hread : member (Json.obj (correlatedMembers kind bundle receipt ++ later)).sortKeys "kind" =
      .str kind := hget "kind" (.str kind) rfl
  rw [hread, isProductKind, decide_eq_true_eq]
  exact hkind

/-- What is written for a receipt wraps it. -/
theorem Correlated.wraps {bundle : ProductEvidence} {receipt : TerminalReceipt} {wrapper : Json}
    (h : Correlated bundle receipt wrapper) : Wraps bundle receipt wrapper.sortKeys := by
  obtain ⟨approval, hwritten⟩ := h
  cases hwritten with
  | inl hwritten =>
      unfold correlatedReceipt at hwritten
      cases hcorrelation : operationCorrelation
          "Terminal receipt does not match its durable approval." receipt approval with
      | error message =>
          rw [hcorrelation] at hwritten
          cases hwritten
      | ok correlation =>
          rw [hcorrelation] at hwritten
          cases hwritten
          have hkeys := correlation_keys hcorrelation
          refine wraps_members (by simp [PRODUCT_RECEIPT_KINDS]) bundle receipt ?_ ?_
          · rw [hkeys]
            decide
          · rw [hkeys]
            decide
  | inr hwritten =>
      obtain ⟨evidence, hwritten⟩ := hwritten
      unfold recoveryReceipt at hwritten
      cases hcorrelation : operationCorrelation
          "Terminal recovery receipt does not match its durable approval." receipt approval with
      | error message =>
          rw [hcorrelation] at hwritten
          cases hwritten
      | ok correlation =>
          rw [hcorrelation] at hwritten
          cases hwritten
          have hkeys := correlation_keys hcorrelation
          obtain ⟨hnodup, hlater⟩ := evidence_keys evidence
          rw [List.append_assoc]
          refine wraps_members (by simp [PRODUCT_RECEIPT_KINDS]) bundle receipt ?_ ?_
          · rw [List.map_append, hkeys]
            exact hnodup
          · rw [List.map_append, hkeys]
            intro key hkey
            cases List.mem_append.mp hkey with
            | inl hkey =>
                have hall : ∀ key ∈ ["ophelia_request_digest", "ophelia_plan_digest",
                    "ophelia_approval_digest", "ophelia_operation_digest",
                    "ophelia_verification_digest"], key ∈ LATER_KEYS := by decide
                exact hall key hkey
            | inr hkey => exact hlater key hkey

/-- A wrapper is intact exactly if the nested receipt is of the product it names. -/
theorem Wraps.intact_iff {bundle : ProductEvidence} {receipt : TerminalReceipt} {payload : Json}
    (h : Wraps bundle receipt payload) :
    wrapperIntact payload = true ↔ bundle.productId.val = receipt.app.val := by
  have hid : (nonemptyText (.str receipt.receiptId.val)).isSome = true := by
    simp [nonemptyText, receipt.receiptId_ne_empty]
  have hstatus : orElse .null (.str receipt.outcome.value) = .str receipt.outcome.value := rfl
  unfold wrapperIntact
  simp only [h.nested, h.digest, h.operation, h.status, h.productId, h.inputsRedacted, h.app,
    h.environment, receipt.isMapping_payload, receipt.member_kind, receipt.member_receiptId,
    receipt.payloadDigest_payload, receipt.member_operation, receipt.member_status,
    receipt.member_outcome, receipt.member_app, receipt.member_inputsRedacted, hid, hstatus,
    decide_true, Bool.true_and, Bool.and_true, Bool.true_or]
  simp

/-! ### The two records -/

/-- The record of an intact wrapper. -/
theorem fileRecord_of_intact {bundle : ProductEvidence} {receipt : TerminalReceipt}
    {file : FoundReceipt} {payload : Json} (hpayload : file.payload = some payload)
    (h : Wraps bundle receipt payload) (hintact : wrapperIntact payload = true) :
    fileRecord file = (recordFromPayload file.path payload file.ownerApp file.ownerEnvironment
      .product none, []) := by
  have hwarning : productWrapperIntegrityWarning file.path payload = none := by
    rw [productWrapperIntegrityWarning, hintact, Bool.or_true, if_pos rfl]
  rw [fileRecord, hpayload]
  simp only [hwarning, h.kind, if_true]

/-- It has the identity of the receipt. -/
theorem receiptId_of_wraps {bundle : ProductEvidence} {receipt : TerminalReceipt} {payload : Json}
    (h : Wraps bundle receipt payload) (path : String) (app environment : Option String)
    (source : ReceiptSource) :
    (recordFromPayload path payload app environment source none).receiptId =
      receipt.receiptId.val := by
  have hid : nonemptyText (member receipt.payload "receipt_id") = some receipt.receiptId.val := by
    rw [receipt.member_receiptId, nonemptyText, if_neg receipt.receiptId_ne_empty]
  simp only [recordFromPayload, h.nested, receipt.isMapping_payload, if_true, receiptId,
    List.filterMap_cons, hid]

/-- The row of a committed receipt is intact. -/
theorem journalRow_receiptRow (database : String) (receipt : TerminalReceipt) :
    journalRow database (Journal.receiptRow receipt) = (some receipt.payload, []) := by
  have hloads : Json.loads receipt.canonicalJson = some receipt.payload :=
    Schema.loads_canonicalJson _ _
  have hstorage : journalStorageIntegrityWarning database (Journal.receiptRow receipt)
      receipt.payload = none := by
    rw [journalStorageIntegrityWarning, if_pos]
    exact ⟨receipt.payloadDigest_payload.symm, receipt.member_operationId.symm,
      receipt.member_outcome.symm⟩
  unfold journalRow
  simp only [Journal.receiptRow] at hstorage ⊢
  rw [hloads]
  simp only [receipt.isMapping_payload, if_true, hstorage]

theorem journalContractWarning_payload (database : String) (receipt : TerminalReceipt) :
    journalContractWarning database receipt.receiptId.val receipt.payload = none := by
  simp [journalContractWarning, receipt.member_receiptId, receipt.member_kind,
    receipt.member_inputsRedacted]

theorem journalRecord_receiptRow (database : String) (receipt : TerminalReceipt) :
    journalRecord database (Journal.receiptRow receipt) =
      ({ recordFromPayload database receipt.payload none none .journal
            (some receipt.receiptId.val) with
          storagePath := some database
          path := journalLocator database receipt.receiptId.val }, []) := by
  have hcontract := journalContractWarning_payload database receipt
  unfold journalRecord
  rw [journalRow_receiptRow]
  simp only [Journal.receiptRow, hcontract]

/-- A record of a row has the identity and the locator of the row. -/
theorem journalRecord_receiptId (database : String) (row : ReceiptRow) :
    (journalRecord database row).1.receiptId = row.receiptId.val ∧
      (journalRecord database row).1.path = journalLocator database row.receiptId.val := by
  unfold journalRecord
  dsimp only
  split
  · exact ⟨rfl, rfl⟩
  · split
    · exact ⟨rfl, rfl⟩
    · exact ⟨rfl, rfl⟩

/-! ### Merging -/

omit [Platform] in
theorem keys_setRecord (byId : List (String × ReceiptRecord)) (id : String)
    (record : ReceiptRecord) (hn : (byId.map Prod.fst).Nodup) :
    ((setRecord byId id record).map Prod.fst).Nodup := by
  unfold setRecord
  split
  · have hkeys : (byId.map fun e => if e.1 = id then (id, record) else e).map Prod.fst =
        byId.map Prod.fst := by
      rw [List.map_map]
      refine List.map_congr_left fun e _ => ?_
      by_cases he : e.1 = id
      · simp [he]
      · simp [he]
    rw [hkeys]
    exact hn
  · rename_i hid
    rw [List.map_append, List.map_singleton, ← List.concat_eq_append]
    exact hn.concat hid

omit [Platform] in
/-- Replacing the entries of a key replaces what is found under it. -/
theorem lookup_replaced (byId : List (String × ReceiptRecord)) (id key : String)
    (record : ReceiptRecord) :
    (byId.map fun e => if e.1 = id then (id, record) else e).lookup key =
      if key = id then (byId.lookup key).map fun _ => record else byId.lookup key := by
  induction byId with
  | nil => simp
  | cons e byId ih =>
      obtain ⟨k, r⟩ := e
      rw [List.map_cons, List.lookup_cons]
      by_cases hk : k = id
      · by_cases hkey : key = id
        · simp [hk, hkey]
        · have hbeq : (key == id) = false := by simpa using hkey
          simpa [hk, hkey, hbeq, List.lookup_cons] using ih
      · by_cases hkey : key = k
        · simp [hk, hkey]
        · have hbeq : (key == k) = false := by simpa using hkey
          simpa [hk, hbeq, List.lookup_cons] using ih

omit [Platform] in
theorem lookup_setRecord (byId : List (String × ReceiptRecord)) (id key : String)
    (record : ReceiptRecord) :
    (setRecord byId id record).lookup key = if key = id then some record else byId.lookup key := by
  unfold setRecord
  by_cases hid : id ∈ byId.map Prod.fst
  · rw [if_pos hid, lookup_replaced]
    by_cases hkey : key = id
    · obtain ⟨e, he, rfl⟩ := List.mem_map.mp hid
      have hsome : (byId.lookup e.1).isSome = true := by
        rw [Option.isSome_iff_ne_none, ne_eq, List.lookup_eq_none_iff]
        exact fun hall => absurd rfl (bne_iff_ne.mp (hall e he))
      obtain ⟨r, hr⟩ := Option.isSome_iff_exists.mp hsome
      simp [hkey, hr]
    · rw [if_neg hkey, if_neg hkey]
  · rw [if_neg hid, List.lookup_append]
    by_cases hkey : key = id
    · subst hkey
      have hnone : byId.lookup key = none := by
        rw [List.lookup_eq_none_iff]
        intro e he
        rw [bne_iff_ne]
        exact fun heq => hid (heq ▸ List.mem_map_of_mem he)
      simp [hnone]
    · have hbeq : (key == id) = false := by simpa using hkey
      simp [List.lookup_cons, hbeq, hkey]

/-- What a merge ends with under an identity comes from the records of that identity. -/
def ReceiptStore.underIdentity (store : ReceiptStore) (acc : Option ReceiptRecord)
    (records : List ReceiptRecord) : Option ReceiptRecord :=
  records.foldl (fun acc record => some (store.mergeRecord acc record).1) acc

/-- One step of a merge. -/
def ReceiptStore.mergeStep (store : ReceiptStore)
    (state : List (String × ReceiptRecord) × List SourceWarning) (record : ReceiptRecord) :
    List (String × ReceiptRecord) × List SourceWarning :=
  if record.receiptId = "" then state
  else
    let merged := store.mergeRecord (state.1.lookup record.receiptId) record
    (setRecord state.1 record.receiptId merged.1, state.2 ++ merged.2)

theorem mergeRecords_eq (store : ReceiptStore) (records : List ReceiptRecord) :
    store.mergeRecords records = records.foldl store.mergeStep ([], []) := rfl

theorem lookup_mergeStep (store : ReceiptStore)
    (state : List (String × ReceiptRecord) × List SourceWarning) (record : ReceiptRecord)
    {id : String} (hid : id ≠ "") :
    (store.mergeStep state record).1.lookup id =
      if record.receiptId = id then some (store.mergeRecord (state.1.lookup id) record).1
      else state.1.lookup id := by
  unfold ReceiptStore.mergeStep
  by_cases hempty : record.receiptId = ""
  · rw [if_pos hempty, if_neg fun h => hid (h.symm.trans hempty)]
  · rw [if_neg hempty]
    simp only [lookup_setRecord]
    by_cases hsame : record.receiptId = id
    · simp [hsame]
    · rw [if_neg hsame, if_neg fun h => hsame h.symm]

theorem lookup_mergeRecords (store : ReceiptStore) (records : List ReceiptRecord) {id : String}
    (hid : id ≠ "") (state : List (String × ReceiptRecord) × List SourceWarning) :
    (records.foldl store.mergeStep state).1.lookup id =
      store.underIdentity (state.1.lookup id)
        (records.filter fun record => record.receiptId = id) := by
  induction records generalizing state with
  | nil => rfl
  | cons record records ih =>
      rw [List.foldl_cons, ih, lookup_mergeStep store state record hid]
      by_cases hsame : record.receiptId = id
      · simp [hsame, ReceiptStore.underIdentity]
      · simp [hsame]

/-! ### Where merged records come from -/

/-- The fields that a merge takes from its primary record. -/
structure SameOrigin (merged primary : ReceiptRecord) : Prop where
  receiptId : merged.receiptId = primary.receiptId
  path : merged.path = primary.path
  source : merged.source = primary.source
  payloadReadable : merged.payloadReadable = primary.payloadReadable
  storagePath : merged.storagePath = primary.storagePath

omit [Platform] in
theorem sameOrigin_addSourceLocator (result source : ReceiptRecord) :
    SameOrigin (addSourceLocator result source) result ∧
      (addSourceLocator result source).sources = result.sources := by
  unfold addSourceLocator
  split
  · exact ⟨⟨rfl, rfl, rfl, rfl, rfl⟩, rfl⟩
  · split
    · exact ⟨⟨rfl, rfl, rfl, rfl, rfl⟩, rfl⟩
    · exact ⟨⟨rfl, rfl, rfl, rfl, rfl⟩, rfl⟩
    · exact ⟨⟨rfl, rfl, rfl, rfl, rfl⟩, rfl⟩

omit [Platform] in
theorem sameOrigin_withSourceMetadata (record : ReceiptRecord) :
    SameOrigin (recordWithSourceMetadata record) record ∧
      (recordWithSourceMetadata record).sources = sourceSet (record.source :: record.sources) := by
  obtain ⟨h, hsources⟩ := sameOrigin_addSourceLocator
    { record with
      sources := sourceSet (record.source :: record.sources)
      receiptLocators := if record.path = "" then [] else [record.path] } record
  exact ⟨⟨h.receiptId, h.path, h.source, h.payloadReadable, h.storagePath⟩, hsources⟩

omit [Platform] in
theorem sameOrigin_merge (primary secondary : ReceiptRecord) :
    SameOrigin (mergeSourceMetadata primary secondary) primary ∧
      (mergeSourceMetadata primary secondary).sources =
        sourceSet ((recordWithSourceMetadata primary).sources ++
          secondary.source :: secondary.sources) := by
  obtain ⟨h, -⟩ := sameOrigin_withSourceMetadata primary
  have hmerged := fun result => sameOrigin_addSourceLocator result secondary
  obtain ⟨h', hsources⟩ := hmerged
    { recordWithSourceMetadata primary with
      sources := sourceSet ((recordWithSourceMetadata primary).sources ++
        secondary.source :: secondary.sources)
      receiptLocators := textSet ((recordWithSourceMetadata primary).receiptLocators ++
        secondary.receiptLocators ++ if secondary.path = "" then [] else [secondary.path])
      aliases := if secondary.payloadReadable then
        textSet ((recordWithSourceMetadata primary).aliases ++ secondary.aliases)
        else (recordWithSourceMetadata primary).aliases }
  exact ⟨⟨h'.receiptId.trans h.receiptId, h'.path.trans h.path, h'.source.trans h.source,
    h'.payloadReadable.trans h.payloadReadable, h'.storagePath.trans h.storagePath⟩, hsources⟩

omit [Platform] in
theorem recordForSource_cases {first second record : ReceiptRecord} {source : ReceiptSource}
    (h : recordForSource first second source = some record) :
    record.source = source ∧ (record = first ∨ record = second) := by
  unfold recordForSource at h
  split at h
  · rename_i hsource
    cases h
    exact ⟨hsource, .inl rfl⟩
  · split at h
    · rename_i hsource
      cases h
      exact ⟨hsource, .inr rfl⟩
    · cases h

/-- A merge takes one of its records, and its warnings point at one of them. -/
theorem mergeRecord_origin (store : ReceiptStore) (acc : Option ReceiptRecord)
    (record : ReceiptRecord) :
    (∃ primary, (primary = record ∨ acc = some primary) ∧
      SameOrigin (store.mergeRecord acc record).1 primary) ∧
    ∀ w ∈ (store.mergeRecord acc record).2, w.path = "unknown" ∨
      ∃ primary, (primary = record ∨ acc = some primary) ∧ w.path = primary.path := by
  cases acc with
  | none => exact ⟨⟨record, .inl rfl, (sameOrigin_withSourceMetadata record).1⟩, by simp [ReceiptStore.mergeRecord]⟩
  | some existing =>
      have hone : ∀ x, x = existing ∨ x = record → x = record ∨ some existing = some x :=
        fun x hx => hx.elim (fun h => .inr (congrArg some h.symm)) .inl
      have hprimary : ∀ c : Prop, [Decidable c] →
          (if c then record else existing) = existing ∨
            (if c then record else existing) = record := by
        intro c _
        by_cases hc : c
        · exact .inr (if_pos hc)
        · exact .inl (if_neg hc)
      have hpath : ∀ p : ReceiptRecord, (if p.path = "" then "unknown" else p.path) = "unknown" ∨
          (if p.path = "" then "unknown" else p.path) = p.path := by
        intro p
        by_cases hp : p.path = ""
        · exact .inl (if_pos hp)
        · exact .inr (if_neg hp)
      unfold ReceiptStore.mergeRecord
      dsimp only
      split
      · rename_i product journal hproduct hjournal
        have hj := (recordForSource_cases hjournal).2
        split
        · exact ⟨⟨journal, hone journal hj, (sameOrigin_merge _ _).1⟩, by simp⟩
        · split
          · rename_i warning hwarning
            refine ⟨⟨journal, hone journal hj, (sameOrigin_merge _ _).1⟩, ?_⟩
            intro w hw
            obtain rfl := List.mem_singleton.mp hw
            refine .inr ⟨journal, hone journal hj, ?_⟩
            unfold ReceiptStore.productJournalIntegrityWarning at hwarning
            split at hwarning
            · cases hwarning
            · cases hwarning
              rfl
          · exact ⟨⟨_, hone _ (hprimary _), (sameOrigin_merge _ _).1⟩, by simp⟩
      · refine ⟨⟨_, hone _ (hprimary _), (sameOrigin_merge _ _).1⟩, ?_⟩
        intro w hw
        by_cases hequivalent : store.receiptPayloadsEquivalent existing record = true
        · rw [if_pos hequivalent] at hw
          cases hw
        · rw [if_neg hequivalent] at hw
          obtain rfl := List.mem_singleton.mp hw
          exact (hpath _).imp_right fun h => ⟨_, hone _ (hprimary _), h⟩

/-- The records of a merge, by where they come from. -/
structure Indexed (records : List ReceiptRecord) (byId : List (String × ReceiptRecord)) : Prop where
  nodup : (byId.map Prod.fst).Nodup
  origin : ∀ e ∈ byId, e.2.receiptId = e.1 ∧
    ∃ x ∈ records, x.receiptId = e.1 ∧ x.path = e.2.path

omit [Platform] in
theorem mem_setRecord {byId : List (String × ReceiptRecord)} {id : String} {record : ReceiptRecord}
    {e : String × ReceiptRecord} (h : e ∈ setRecord byId id record) :
    e = (id, record) ∨ e ∈ byId := by
  unfold setRecord at h
  split at h
  · obtain ⟨e', he', rfl⟩ := List.mem_map.mp h
    by_cases hk : e'.1 = id
    · rw [if_pos hk]
      exact .inl rfl
    · rw [if_neg hk]
      exact .inr he'
  · cases List.mem_append.mp h with
    | inl h => exact .inr h
    | inr h => exact .inl (List.mem_singleton.mp h)

omit [Platform] in
theorem mem_of_lookup_members {byId : List (String × ReceiptRecord)} {id : String} {record : ReceiptRecord}
    (h : byId.lookup id = some record) : (id, record) ∈ byId := by
  induction byId with
  | nil => cases h
  | cons e byId ih =>
      obtain ⟨k, r⟩ := e
      rw [List.lookup_cons] at h
      by_cases hk : id = k
      · subst hk
        simp only [beq_self_eq_true] at h
        obtain rfl := Option.some.inj h
        exact List.mem_cons_self
      · have hbeq : (id == k) = false := by simpa using hk
        simp only [hbeq] at h
        exact List.mem_cons_of_mem _ (ih h)

/-- One step keeps the index, and its warnings point at records of one identity. -/
theorem indexed_mergeStep (store : ReceiptStore) {done : List ReceiptRecord}
    {state : List (String × ReceiptRecord) × List SourceWarning} (h : Indexed done state.1)
    (record : ReceiptRecord) :
    Indexed (done ++ [record]) (store.mergeStep state record).1 ∧
      ∀ w ∈ (store.mergeStep state record).2, w ∈ state.2 ∨
        w ∈ (store.mergeRecord (state.1.lookup record.receiptId) record).2 ∧
          (w.path = "unknown" ∨ ∃ x ∈ done ++ [record], x.receiptId = record.receiptId ∧
            x.path = w.path) := by
  have hmore : ∀ e ∈ state.1, e.2.receiptId = e.1 ∧
      ∃ x ∈ done ++ [record], x.receiptId = e.1 ∧ x.path = e.2.path := by
    intro e he
    obtain ⟨hid, x, hx, hxid, hpath⟩ := h.origin e he
    exact ⟨hid, x, List.mem_append_left _ hx, hxid, hpath⟩
  have hsource : ∀ primary, primary = record ∨ state.1.lookup record.receiptId = some primary →
      primary.receiptId = record.receiptId ∧
        ∃ x ∈ done ++ [record], x.receiptId = record.receiptId ∧ x.path = primary.path := by
    intro primary hprimary
    cases hprimary with
    | inl heq => exact ⟨heq ▸ rfl, record, by simp, rfl, heq ▸ rfl⟩
    | inr hlookup =>
        obtain ⟨hid, x, hx, hxid, hpath⟩ := h.origin _ (mem_of_lookup_members hlookup)
        exact ⟨hid, x, List.mem_append_left _ hx, hxid, hpath⟩
  obtain ⟨⟨primary, hprimary, horigin⟩, hwarnings⟩ :=
    mergeRecord_origin store (state.1.lookup record.receiptId) record
  unfold ReceiptStore.mergeStep
  by_cases hempty : record.receiptId = ""
  · rw [if_pos hempty]
    exact ⟨⟨h.nodup, hmore⟩, fun w hw => .inl hw⟩
  · rw [if_neg hempty]
    refine ⟨⟨keys_setRecord _ _ _ h.nodup, fun e he => ?_⟩, fun w hw => ?_⟩
    · cases mem_setRecord he with
      | inr he => exact hmore e he
      | inl heq =>
          subst heq
          obtain ⟨hid, x, hx, hxid, hpath⟩ := hsource primary hprimary
          exact ⟨horigin.receiptId.trans hid, x, hx, hxid, hpath.trans horigin.path.symm⟩
    · cases List.mem_append.mp hw with
      | inl hw => exact .inl hw
      | inr hw =>
          refine .inr ⟨hw, (hwarnings w hw).imp_right fun ⟨p, hp, hpath⟩ => ?_⟩
          obtain ⟨-, x, hx, hxid, hxpath⟩ := hsource p hp
          exact ⟨x, hx, hxid, hxpath.trans hpath.symm⟩

theorem mergeRecords_concat (store : ReceiptStore) (done : List ReceiptRecord)
    (record : ReceiptRecord) :
    store.mergeRecords (done ++ [record]) = store.mergeStep (store.mergeRecords done) record := by
  rw [mergeRecords_eq, mergeRecords_eq, List.foldl_concat]

theorem indexed_mergeRecords (store : ReceiptStore) (records : List ReceiptRecord) :
    Indexed records (store.mergeRecords records).1 := by
  induction records using List.reverseRecOn with
  | nil => exact ⟨List.nodup_nil, by simp [ReceiptStore.mergeRecords]⟩
  | append_singleton done record ih =>
      rw [mergeRecords_concat]
      exact (indexed_mergeStep store ih record).1

/-- Every warning of a merge comes from one step, and points at a record of its identity. -/
theorem warning_of_mergeRecords (store : ReceiptStore) (records : List ReceiptRecord)
    {w : SourceWarning} (hw : w ∈ (store.mergeRecords records).2) :
    ∃ done record, done ++ [record] <+: records ∧
      w ∈ (store.mergeRecord ((store.mergeRecords done).1.lookup record.receiptId) record).2 ∧
        (w.path = "unknown" ∨
          ∃ x ∈ records, x.receiptId = record.receiptId ∧ x.path = w.path) := by
  induction records using List.reverseRecOn with
  | nil => simp [ReceiptStore.mergeRecords] at hw
  | append_singleton done record ih =>
      rw [mergeRecords_concat] at hw
      cases (indexed_mergeStep store (indexed_mergeRecords store done) record).2 w hw with
      | inr h => exact ⟨done, record, List.prefix_refl _, h.1, h.2⟩
      | inl h =>
          obtain ⟨done', record', hpre, hmem, horigin⟩ := ih h
          refine ⟨done', record', hpre.trans (List.prefix_append _ _), hmem, ?_⟩
          exact horigin.imp_right fun ⟨x, hx, hid, hpath⟩ =>
            ⟨x, List.mem_append_left _ hx, hid, hpath⟩

/-! ### A receipt among others -/

/-- The wrapper of a receipt lies among the files, and its row among the rows; no other file has
its path or its identity. -/
structure Stored (store : ReceiptStore) (bundle : ProductEvidence) (receipt : TerminalReceipt)
    (front : List FoundReceipt) (file : FoundReceipt) (back : List FoundReceipt) : Prop where
  files : store.files = front ++ file :: back
  written : ∃ wrapper, Correlated bundle receipt wrapper ∧ file.payload = some wrapper.sortKeys
  /-- The plan of a product is made for the application of its slug. -/
  app : receipt.app.val = slug bundle.productId.val
  committed : Journal.receiptRow receipt ∈ store.journal.terminalReceipts.rows
  apart : ∀ f ∈ front ++ back, f.path ≠ file.path ∧
    (fileRecord f).1.receiptId ≠ receipt.receiptId.val

/-- The receipt passes the check of wrappers, and a scan has one record of it, which is readable,
of both sources, shown from the product's side, and free of warnings. -/
structure Survives (store : ReceiptStore) (receipt : TerminalReceipt) (file : FoundReceipt) :
    Prop where
  intact : ∀ payload, file.payload = some payload →
    productWrapperIntegrityWarning file.path payload = none
  merged : ∃ record ∈ (receiptScan store none none).1,
    record.receiptId = receipt.receiptId.val ∧ record.source = .product ∧
      record.payloadReadable = true ∧ record.sources = [.journal, .product] ∧
      ∀ other ∈ (receiptScan store none none).1, other.receiptId = receipt.receiptId.val →
        other = record
  silent : ∀ w ∈ (receiptScan store none none).2, w.path ≠ file.path ∧
    w.path ≠ journalLocator store.database receipt.receiptId.val

section Scan

variable {store : ReceiptStore} {bundle : ProductEvidence} {receipt : TerminalReceipt}
  {front back : List FoundReceipt} {file : FoundReceipt}

omit [Platform] in
theorem journalLocator_inj {database id id' : String}
    (h : journalLocator database id = journalLocator database id') : id = id' := by
  have hlists := congrArg String.toList h
  simp only [journalLocator, String.toList_append, List.append_assoc, List.append_cancel_left_eq] at hlists
  exact String.toList_inj.mp hlists

omit [Platform] in
/-- A path below the runtime root is no locator. -/
theorem path_ne_journalLocator {path : String}
    (h : "sqlite:".toList.isPrefixOf path.toList = false) (database id : String) :
    path ≠ journalLocator database id := by
  intro heq
  rw [Bool.eq_false_iff, ne_eq, List.isPrefixOf_iff_prefix, heq] at h
  exact h (by simp [journalLocator])

theorem mem_rows {row : ReceiptRow} :
    row ∈ store.rows ↔ row ∈ store.journal.terminalReceipts.rows := by
  rw [ReceiptStore.rows, List.mem_mergeSort]

theorem eq_of_mem_rows {row row' : ReceiptRow} (h : row ∈ store.rows) (h' : row' ∈ store.rows)
    (hid : row.receiptId.val = row'.receiptId.val) : row = row' :=
  Table.eq_of_mem_of_key_eq (mem_rows.mp h) (mem_rows.mp h') (Refined.ext hid)

/-- The row of the receipt is the only one under its identity. -/
theorem rows_filter (h : Journal.receiptRow receipt ∈ store.journal.terminalReceipts.rows) :
    store.rows.filter (fun row => row.receiptId.val = receipt.receiptId.val) =
      [Journal.receiptRow receipt] := by
  have hn : store.rows.Nodup := by
    have hunique := store.journal.terminalReceipts.unique
    exact (List.mergeSort_perm _ _).nodup_iff.mpr (List.Nodup.of_map _ hunique)
  have hcongr : ∀ row ∈ store.rows,
      decide (row.receiptId.val = receipt.receiptId.val) =
        decide (row = Journal.receiptRow receipt) := by
    intro row hrow
    rw [decide_eq_decide]
    constructor
    · exact fun hid => eq_of_mem_rows hrow (mem_rows.mpr h) hid
    · intro heq
      rw [heq]
      rfl
  rw [List.filter_congr hcongr, List.filter_eq, List.count_eq_one_of_mem hn (mem_rows.mpr h)]
  rfl

/-- The records of the identity, in the order they are merged in. -/
theorem records_filter (h : Stored store bundle receipt front file back)
    (hfile : (fileRecord file).1.receiptId = receipt.receiptId.val) :
    store.records.filter (fun record => record.receiptId = receipt.receiptId.val) =
      [(fileRecord file).1, (journalRecord store.database (Journal.receiptRow receipt)).1] := by
  have hothers : ∀ files : List FoundReceipt, (∀ f ∈ files, f ∈ front ++ back) →
      (files.map fun f => (fileRecord f).1).filter
        (fun record => record.receiptId = receipt.receiptId.val) = [] := by
    intro files hsub
    rw [List.filter_eq_nil_iff]
    intro record hrecord
    obtain ⟨f, hf, rfl⟩ := List.mem_map.mp hrecord
    simpa using (h.apart f (hsub f hf)).2
  have hrows : (store.rows.map fun row => (journalRecord store.database row).1).filter
      (fun record => record.receiptId = receipt.receiptId.val) =
      [(journalRecord store.database (Journal.receiptRow receipt)).1] := by
    rw [List.filter_map]
    have hcongr : ((fun record : ReceiptRecord =>
        decide (record.receiptId = receipt.receiptId.val)) ∘
          fun row => (journalRecord store.database row).1) =
        fun row : ReceiptRow => decide (row.receiptId.val = receipt.receiptId.val) := by
      funext row
      simp only [Function.comp, (journalRecord_receiptId store.database row).1]
    rw [hcongr, rows_filter h.committed]
    rfl
  rw [ReceiptStore.records, h.files, List.filter_append, hrows, List.map_append, List.map_cons,
    List.filter_append, List.filter_cons, hothers front fun f hf => List.mem_append_left _ hf,
    hothers back fun f hf => List.mem_append_right _ hf]
  simp [hfile]

/-- What the scan reads behind the record of an intact wrapper. -/
theorem receiptPayload_file (h : Stored store bundle receipt front file back) {payload : Json}
    (hpayload : file.payload = some payload)
    (hwarning : productWrapperIntegrityWarning file.path payload = none) {record : ReceiptRecord}
    (hreadable : record.payloadReadable = true) (hsource : record.source = .product)
    (hpath : record.path = file.path) : store.receiptPayload record = some payload := by
  have hbelow := (store.below file (by simp [h.files])).2
  have hfind : store.files.find? (fun f => f.path = file.path) = some file := by
    have hfront : front.find? (fun f => f.path = file.path) = none := by
      rw [List.find?_eq_none]
      intro f hf
      simpa using (h.apart f (List.mem_append_left _ hf)).1
    rw [h.files, List.find?_append, hfront]
    simp
  have hnot : ¬ (record.source = .journal ∨
      "sqlite:".toList.isPrefixOf record.path.toList = true) := by
    rw [hsource, hpath, hbelow]
    simp
  have hread : ¬ record.payloadReadable = false := by
    rw [hreadable]
    exact Bool.noConfusion
  unfold ReceiptStore.receiptPayload
  rw [if_neg hread, if_neg hnot, hpath, hfind]
  simp [hpayload, hwarning]

/-- What it reads behind the record of the row. -/
theorem receiptPayload_journal
    (h : Journal.receiptRow receipt ∈ store.journal.terminalReceipts.rows) {record : ReceiptRecord}
    (hreadable : record.payloadReadable = true) (hsource : record.source = .journal)
    (hid : record.receiptId = receipt.receiptId.val) :
    store.receiptPayload record = some receipt.payload := by
  have hfind : store.rows.find? (fun row => row.receiptId.val = receipt.receiptId.val) =
      some (Journal.receiptRow receipt) := by
    rw [← List.head?_filter, rows_filter h]
    rfl
  have hread : ¬ record.payloadReadable = false := by
    rw [hreadable]
    exact Bool.noConfusion
  have hcontract := journalContractWarning_payload store.database receipt
  unfold ReceiptStore.receiptPayload
  rw [if_neg hread, if_pos (.inl hsource), hid, hfind]
  simp [journalRow_receiptRow, hcontract]

/-- The wrapper and the row of an intact pair correlate. -/
theorem correlationIntact_of_wraps {payload : Json} (hwraps : Wraps bundle receipt payload)
    {product journal : ReceiptRecord} (hproduct : store.receiptPayload product = some payload)
    (hjournal : store.receiptPayload journal = some receipt.payload) :
    store.correlationIntact product journal = true := by
  have hstatus : orElse .null (.str receipt.outcome.value) = .str receipt.outcome.value := rfl
  unfold ReceiptStore.correlationIntact
  rw [hproduct, hjournal]
  simp only [hwraps.nested, hwraps.digest, hwraps.operation, hwraps.status, hwraps.app,
    hwraps.environment, receipt.isMapping_payload, receipt.payloadDigest_payload,
    receipt.member_operation, receipt.member_status, receipt.member_outcome, hstatus, decide_true,
    Bool.and_true, Bool.true_or, Bool.or_true]

/-- Together they are one record, shown from the product's side. -/
theorem mergeRecord_of_stored (h : Stored store bundle receipt front file back) {payload : Json}
    (hpayload : file.payload = some payload) (hwraps : Wraps bundle receipt payload)
    (hwarning : productWrapperIntegrityWarning file.path payload = none)
    (hintact : wrapperIntact payload = true) :
    ∃ record, store.mergeRecord (some (recordWithSourceMetadata (fileRecord file).1))
        (journalRecord store.database (Journal.receiptRow receipt)).1 = (record, []) ∧
      record.receiptId = receipt.receiptId.val ∧ record.source = .product ∧
      record.payloadReadable = true ∧ record.sources = [.journal, .product] := by
  have hfile := fileRecord_of_intact hpayload hwraps hintact
  have hrow := journalRecord_receiptRow store.database receipt
  rw [hfile, hrow]
  generalize hproduct : recordFromPayload file.path payload file.ownerApp file.ownerEnvironment
    .product none = product
  generalize hjournal : { recordFromPayload store.database receipt.payload none none .journal
      (some receipt.receiptId.val) with
    storagePath := some store.database
    path := journalLocator store.database receipt.receiptId.val } = journal
  have hpid : product.receiptId = receipt.receiptId.val := by
    rw [← hproduct]
    exact receiptId_of_wraps hwraps file.path _ _ _
  obtain ⟨⟨hid₁, hpath₁, hsource₁, hreadable₁, -⟩, hsources₁⟩ := sameOrigin_withSourceMetadata product
  have hpayload₁ : store.receiptPayload (recordWithSourceMetadata product) = some payload := by
    refine receiptPayload_file h hpayload hwarning (hreadable₁.trans ?_) (hsource₁.trans ?_)
      (hpath₁.trans ?_)
    · rw [← hproduct]
      rfl
    · rw [← hproduct]
      rfl
    · rw [← hproduct]
      rfl
  have hpayload₂ : store.receiptPayload journal = some receipt.payload := by
    refine receiptPayload_journal h.committed ?_ ?_ ?_
    · rw [← hjournal]
      rfl
    · rw [← hjournal]
      rfl
    · rw [← hjournal]
      rfl
  have hsource : product.source = .product := by rw [← hproduct]; rfl
  have hsource' : journal.source = .journal := by rw [← hjournal]; rfl
  have hreadable : product.payloadReadable = true := by rw [← hproduct]; rfl
  have hsources' : journal.sources = [] := by rw [← hjournal]; rfl
  have hsources : product.sources = [] := by rw [← hproduct]; rfl
  have hcorrelated := correlationIntact_of_wraps hwraps hpayload₁ hpayload₂
  have hfirst : recordForSource (recordWithSourceMetadata product) journal .product =
      some (recordWithSourceMetadata product) := by
    rw [recordForSource, if_pos (hsource₁.trans hsource)]
  have hsecond : recordForSource (recordWithSourceMetadata product) journal .journal =
      some journal := by
    rw [recordForSource, if_neg, if_pos hsource']
    rw [hsource₁, hsource]
    exact fun h => nomatch h
  have hreadable' : ¬ (recordWithSourceMetadata product).payloadReadable = false := by
    rw [hreadable₁, hreadable]
    exact Bool.noConfusion
  have hnone : store.productJournalIntegrityWarning (recordWithSourceMetadata product) journal =
      none := by
    rw [ReceiptStore.productJournalIntegrityWarning, if_pos hcorrelated]
  -- a product outranks the journal
  have hprefer : ¬ ((recordWithSourceMetadata product).source.priority < journal.source.priority ∨
      journal.source.priority = (recordWithSourceMetadata product).source.priority ∧
        journal.path < (recordWithSourceMetadata product).path) := by
    rw [hsource₁, hsource, hsource']
    simp [ReceiptSource.priority]
  obtain ⟨⟨hid₂, -, hsource₂, hreadable₂, -⟩, hsources₂⟩ :=
    sameOrigin_merge (recordWithSourceMetadata product) journal
  refine ⟨mergeSourceMetadata (recordWithSourceMetadata product) journal, ?_,
    hid₂.trans (hid₁.trans hpid), hsource₂.trans (hsource₁.trans hsource),
    hreadable₂.trans (hreadable₁.trans hreadable), ?_⟩
  · unfold ReceiptStore.mergeRecord
    simp only [hfirst, hsecond, if_neg hreadable', hnone, if_neg hprefer]
  · rw [hsources₂, (sameOrigin_withSourceMetadata _).2, hsources₁, hsource₁, hsource, hsource',
      hsources, hsources']
    rfl

theorem fileRecord_path (file : FoundReceipt) :
    (fileRecord file).1.path = file.path ∧
      ∀ w ∈ (fileRecord file).2, w.path = file.path := by
  unfold fileRecord
  split
  · exact ⟨rfl, by simp⟩
  · dsimp only
    split
    · rename_i warning hwarning
      refine ⟨rfl, fun w hw => ?_⟩
      obtain rfl := List.mem_singleton.mp hw
      unfold productWrapperIntegrityWarning at hwarning
      split at hwarning
      · cases hwarning
      · cases hwarning
        rfl
    · exact ⟨rfl, by simp⟩

theorem journalRow_path (database : String) (row : ReceiptRow) :
    ∀ w ∈ (journalRow database row).2, w.path = journalLocator database row.receiptId.val := by
  intro w hw
  unfold journalRow at hw
  split at hw
  · obtain rfl := List.mem_singleton.mp hw
    rfl
  · split at hw
    · split at hw
      · rename_i warning hwarning
        obtain rfl := List.mem_singleton.mp hw
        unfold journalStorageIntegrityWarning at hwarning
        split at hwarning
        · cases hwarning
        · cases hwarning
          rfl
      · simp at hw
    · obtain rfl := List.mem_singleton.mp hw
      rfl

theorem journalRecord_warning_path (database : String) (row : ReceiptRow) :
    ∀ w ∈ (journalRecord database row).2, w.path = journalLocator database row.receiptId.val := by
  intro w hw
  unfold journalRecord at hw
  dsimp only at hw
  split at hw
  · simp at hw
  · split at hw
    · rename_i warning hwarning
      obtain rfl := List.mem_singleton.mp hw
      unfold journalContractWarning at hwarning
      dsimp only at hwarning
      repeat' split at hwarning
      all_goals cases hwarning
      all_goals rfl
    · simp at hw

/-- Nothing under another identity points at the receipt. -/
theorem path_apart (h : Stored store bundle receipt front file back) {x : ReceiptRecord}
    (hx : x ∈ store.records) (hid : x.receiptId ≠ receipt.receiptId.val)
    (hfile : (fileRecord file).1.receiptId = receipt.receiptId.val) :
    x.path ≠ file.path ∧ x.path ≠ journalLocator store.database receipt.receiptId.val := by
  have hbelow := (store.below file (by simp [h.files])).2
  rw [ReceiptStore.records, List.mem_append] at hx
  cases hx with
  | inl hx =>
      obtain ⟨f, hf, rfl⟩ := List.mem_map.mp hx
      rw [(fileRecord_path f).1]
      refine ⟨?_, path_ne_journalLocator (store.below f hf).2 _ _⟩
      have hother : f ∈ front ++ back := by
        rw [h.files, List.mem_append, List.mem_cons] at hf
        rcases hf with hf | rfl | hf
        · exact List.mem_append_left _ hf
        · exact absurd hfile hid
        · exact List.mem_append_right _ hf
      exact (h.apart f hother).1
  | inr hx =>
      obtain ⟨row, -, rfl⟩ := List.mem_map.mp hx
      obtain ⟨hrow, hpath⟩ := journalRecord_receiptId store.database row
      rw [hpath]
      refine ⟨(path_ne_journalLocator hbelow _ _).symm, fun heq => hid ?_⟩
      rw [hrow]
      exact journalLocator_inj heq

omit [Platform] in
theorem unknown_apart {path : String} (hslash : '/' ∈ path.toList) (database id : String) :
    "unknown" ≠ path ∧ "unknown" ≠ journalLocator database id := by
  refine ⟨fun heq => ?_, ?_⟩
  · rw [← heq] at hslash
    exact absurd hslash (by decide)
  · exact path_ne_journalLocator (by decide) database id

/-- The warnings about single receipts point elsewhere. -/
theorem warnings_apart (h : Stored store bundle receipt front file back)
    (hfile : (fileRecord file).2 = []) {w : SourceWarning} (hw : w ∈ store.warnings) :
    w.path ≠ file.path ∧ w.path ≠ journalLocator store.database receipt.receiptId.val := by
  have hbelow := (store.below file (by simp [h.files])).2
  have hrows : ∀ row ∈ store.rows, w.path = journalLocator store.database row.receiptId.val →
      row ≠ Journal.receiptRow receipt →
      w.path ≠ file.path ∧ w.path ≠ journalLocator store.database receipt.receiptId.val := by
    intro row hrow hpath hne
    rw [hpath]
    refine ⟨(path_ne_journalLocator hbelow _ _).symm, fun heq => hne ?_⟩
    exact eq_of_mem_rows hrow (mem_rows.mpr h.committed) (journalLocator_inj heq)
  rw [ReceiptStore.warnings, List.mem_append, List.mem_append] at hw
  rcases hw with (hw | hw) | hw
  · obtain ⟨f, hf, hw⟩ := List.mem_flatMap.mp hw
    rw [(fileRecord_path f).2 w hw]
    refine ⟨?_, path_ne_journalLocator (store.below f hf).2 _ _⟩
    rw [h.files, List.mem_append, List.mem_cons] at hf
    rcases hf with hf | rfl | hf
    · exact (h.apart f (List.mem_append_left _ hf)).1
    · rw [hfile] at hw
      cases hw
    · exact (h.apart f (List.mem_append_right _ hf)).1
  · obtain ⟨row, hrow, hw⟩ := List.mem_flatMap.mp hw
    refine hrows row hrow (journalRow_path _ row w hw) fun heq => ?_
    rw [heq, journalRow_receiptRow] at hw
    cases hw
  · obtain ⟨row, hrow, hw⟩ := List.mem_flatMap.mp hw
    refine hrows row hrow (journalRecord_warning_path _ row w hw) fun heq => ?_
    rw [heq, journalRecord_receiptRow] at hw
    cases hw

/-- Two records that merge without a warning do so in every step. -/
theorem merge_silent {p j x record : ReceiptRecord}
    (hmerge : store.mergeRecord (some (recordWithSourceMetadata p)) j = (record, []))
    {before behind : List ReceiptRecord} (h : before ++ x :: behind = [p, j]) :
    (store.mergeRecord (store.underIdentity none before) x).2 = [] := by
  cases before with
  | nil => rfl
  | cons first before =>
      cases before with
      | cons second before => simp at h
      | nil =>
          simp only [List.cons_append, List.nil_append, List.cons.injEq] at h
          obtain ⟨rfl, rfl, -⟩ := h
          have hfirst : store.underIdentity none [first] = some (recordWithSourceMetadata first) := rfl
          rw [hfirst, hmerge]

/-- The receipt of a product is discovered as one readable record exactly if the product is named
by a slug. -/
theorem survives_iff (h : Stored store bundle receipt front file back) :
    Survives store receipt file ↔ isSlug bundle.productId.val.toList = true := by
  obtain ⟨wrapper, hcorrelated, hpayload⟩ := h.written
  have hwraps := hcorrelated.wraps
  have hintact : wrapperIntact wrapper.sortKeys = true ↔
      isSlug bundle.productId.val.toList = true := by
    rw [hwraps.intact_iff, h.app, eq_comm]
    exact slug_eq_self_iff bundle.productId
  rw [← hintact]
  constructor
  · intro hsurvives
    have hnone := hsurvives.intact _ hpayload
    rw [productWrapperIntegrityWarning, hwraps.kind, Bool.not_true, Bool.false_or] at hnone
    by_contra hbroken
    rw [if_neg hbroken] at hnone
    cases hnone
  · intro hwhole
    have hwarning : productWrapperIntegrityWarning file.path wrapper.sortKeys = none := by
      rw [productWrapperIntegrityWarning, hwhole, Bool.or_true, if_pos rfl]
    have hrecord := fileRecord_of_intact hpayload hwraps hwhole
    have hfileId : (fileRecord file).1.receiptId = receipt.receiptId.val := by
      rw [hrecord]
      exact receiptId_of_wraps hwraps file.path _ _ _
    have hfilter := records_filter h hfileId
    obtain ⟨record, hmerge, hid, hsource, hreadable, hsources⟩ :=
      mergeRecord_of_stored h hpayload hwraps hwarning hwhole
    have hlookup : (store.mergeRecords store.records).1.lookup receipt.receiptId.val =
        some record := by
      rw [mergeRecords_eq, lookup_mergeRecords store store.records receipt.receiptId_ne_empty,
        hfilter]
      have hfirst : (store.mergeRecord none (fileRecord file).1).1 =
          recordWithSourceMetadata (fileRecord file).1 := rfl
      simp only [ReceiptStore.underIdentity, List.foldl_cons, List.foldl_nil, List.lookup_nil,
        hfirst, hmerge]
    have hindexed := indexed_mergeRecords store store.records
    have hscan : ∀ other, other ∈ (receiptScan store none none).1 ↔
        ∃ e ∈ (store.mergeRecords store.records).1, e.2 = other := by
      intro other
      simp [receiptScan]
    refine ⟨?_, ⟨record, (hscan record).mpr ⟨_, mem_of_lookup_members hlookup, rfl⟩, hid, hsource,
      hreadable, hsources, ?_⟩, ?_⟩
    · intro payload hfile
      obtain rfl := Option.some.inj (hpayload.symm.trans hfile)
      exact hwarning
    · intro other hother hotherId
      obtain ⟨e, he, rfl⟩ := (hscan other).mp hother
      have hkey : e.1 = receipt.receiptId.val := (hindexed.origin e he).1.symm.trans hotherId
      have hpair := List.inj_on_of_nodup_map hindexed.nodup he (mem_of_lookup_members hlookup) hkey
      rw [hpair]
    · intro w hw
      rw [receiptScan, List.mem_append] at hw
      cases hw with
      | inl hw =>
          refine warnings_apart h ?_ hw
          rw [hrecord]
      | inr hw =>
          obtain ⟨done, x, hpre, hmem, horigin⟩ := warning_of_mergeRecords store _ hw
          by_cases hxid : x.receiptId = receipt.receiptId.val
          · -- the two records of the receipt merge without a warning
            exfalso
            obtain ⟨later, hlater⟩ := hpre
            have hparts := congrArg
              (List.filter fun record => record.receiptId = receipt.receiptId.val) hlater
            rw [List.filter_append, List.filter_append, hfilter, List.filter_singleton] at hparts
            rw [hxid, mergeRecords_eq, lookup_mergeRecords store done receipt.receiptId_ne_empty] at hmem
            simp only [hxid, decide_true, List.lookup_nil] at hparts hmem
            rw [merge_silent hmerge (by simpa using hparts)] at hmem
            exact List.not_mem_nil hmem
          · cases horigin with
            | inl hunknown =>
                rw [hunknown]
                exact unknown_apart (store.below file (by simp [h.files])).1 _ _
            | inr horigin =>
                obtain ⟨y, hy, hyid, hpath⟩ := horigin
                rw [← hpath]
                exact path_apart h hy (hyid ▸ hxid) hfileId

end Scan

end Ophelia

namespace Ophelia.Reference

attribute [local instance] platform

/-- A product that was deployed under the approval of the reference plan. -/
def evidence (productId : BundleId) : ProductEvidence where
  productId
  releaseId := "release-1"
  bundleDigest := digestText "bundle"
  compositionDigest := digestText "composition"
  runtimeContractDigest := digestText "runtime"
  runtimeDocumentDigest := digestText "runtime-requirements"
  releaseManifestDigest := digestText "release"
  releaseDocumentDigest := digestText "release-manifest"
  recoveryContractDigest := digestText "recovery"
  recoveryDocumentDigest := digestText "recovery-contract"

def begun : Utc := ⟨"2026-01-01T00:00:00Z", isUtc_newYear⟩

def finished : Utc := ⟨"2026-01-01T00:00:01Z", by decide +kernel⟩

/-- The receipt of a cancelled deployment of an application. -/
def cancelledReceipt (app : Slug) : TerminalReceipt where
  receiptId := ⟨"receipt_a", Eq.refl true⟩
  operationId := ⟨"operation_a", Eq.refl true⟩
  operation := ⟨"deploy.apply", Eq.refl true⟩
  planId := approval.planId
  planDigest := approval.planDigest
  decisionId := approval.decisionId
  hostId := ⟨"host_a", Eq.refl true⟩
  app
  environment := ⟨"production", Eq.refl true⟩
  previousRevisionId := none
  desiredRevisionId := ⟨"rev_a", Eq.refl true⟩
  desiredRevisionDigest := digestText "revision"
  activeRevisionId := none
  activeRevisionDigest := none
  artifactDigests := ⟨[], Eq.refl true⟩
  verification :=
    { status := .notRun, observedRevisionDigest := none, observedStateDigest := none
      observedAt := finished, checks := []
      passed_observed := by decide, passed_checks := by decide }
  compensation :=
    { attempted := false, status := .notNeeded, restoredRevisionId := none
      restoredRevisionDigest := none, evidenceDigests := ⟨[], Eq.refl true⟩
      idle_not_needed := by decide, outcome_attempted := by decide, restored_together := rfl }
  effect := .none
  outcome := .cancelled
  startedAt := begun
  completedAt := finished
  inputsRedacted := true
  truthful := by
    have horder : ¬ finished.instant < begun.instant := by
      decide +kernel
    simp [ReceiptClaims.violations, horder]

def wrapperFile (wrapper : Json) : FoundReceipt :=
  ⟨none, none, "/srv/receipts/product/receipt_a.json", .product, some wrapper.sortKeys⟩

/-- A host with one product receipt and its row. -/
def wrapperStore (wrapper : Json) (receipt : TerminalReceipt) : ReceiptStore where
  files := [wrapperFile wrapper]
  database := "/srv/host-state/operations.db"
  journal := Journal.fresh.withReceipt receipt
  below := by
    intro file hfile
    obtain rfl := List.mem_singleton.mp hfile
    have hpath : '/' ∈ "/srv/receipts/product/receipt_a.json".toList ∧
        "sqlite:".toList.isPrefixOf "/srv/receipts/product/receipt_a.json".toList = false := by
      decide +kernel
    exact hpath

theorem correlatedReceipt_cancelled (productId : BundleId) (app : Slug) :
    ∃ wrapper, correlatedReceipt (evidence productId) (cancelledReceipt app) approval =
      .ok wrapper := by
  have hids : ¬ ((cancelledReceipt app).planId ≠ approval.planId ∨
      (cancelledReceipt app).planDigest ≠ approval.planDigest ∨
      (cancelledReceipt app).decisionId ≠ approval.decisionId) := by
    simp [cancelledReceipt]
  unfold correlatedReceipt operationCorrelation
  rw [if_neg hids]
  exact ⟨_, rfl⟩

theorem stored_wrapper {productId : BundleId} {app : Slug} (happ : app.val = slug productId.val)
    {wrapper : Json} (hwrapper : correlatedReceipt (evidence productId) (cancelledReceipt app)
      approval = .ok wrapper) :
    Stored (wrapperStore wrapper (cancelledReceipt app)) (evidence productId)
      (cancelledReceipt app) [] (wrapperFile wrapper) [] where
  files := rfl
  written := ⟨wrapper, ⟨approval, .inl hwrapper⟩, rfl⟩
  app := happ
  committed := Table.mem_put.mpr (.inl rfl)
  apart := by simp

theorem survives_shop :
    ∃ wrapper, correlatedReceipt (evidence ⟨"shop", by decide⟩)
        (cancelledReceipt ⟨"shop", by decide⟩) approval = .ok wrapper ∧
      Survives (wrapperStore wrapper (cancelledReceipt ⟨"shop", by decide⟩))
        (cancelledReceipt ⟨"shop", by decide⟩) (wrapperFile wrapper) := by
  obtain ⟨wrapper, hwrapper⟩ := correlatedReceipt_cancelled ⟨"shop", by decide⟩ ⟨"shop", by decide⟩
  have happ : "shop" = slug "shop" := by decide +kernel
  exact ⟨wrapper, hwrapper, (survives_iff (stored_wrapper happ hwrapper)).mpr (by decide +kernel)⟩

/-- The receipt of the product `shop.web` is taken for a broken one. -/
theorem not_survives_dotted :
    ∃ wrapper, correlatedReceipt (evidence ⟨"shop.web", by decide⟩)
        (cancelledReceipt ⟨"shop-web", by decide⟩) approval = .ok wrapper ∧
      "shop-web" = slug "shop.web" ∧
      ¬ Survives (wrapperStore wrapper (cancelledReceipt ⟨"shop-web", by decide⟩))
        (cancelledReceipt ⟨"shop-web", by decide⟩) (wrapperFile wrapper) := by
  obtain ⟨wrapper, hwrapper⟩ :=
    correlatedReceipt_cancelled ⟨"shop.web", by decide⟩ ⟨"shop-web", by decide⟩
  refine ⟨wrapper, hwrapper, by decide +kernel, fun hsurvives => ?_⟩
  have hcorrelated : Correlated (evidence ⟨"shop.web", by decide⟩)
      (cancelledReceipt ⟨"shop-web", by decide⟩) wrapper := ⟨approval, .inl hwrapper⟩
  have hwraps := hcorrelated.wraps
  have hnone := hsurvives.intact _ rfl
  rw [productWrapperIntegrityWarning, hwraps.kind, Bool.not_true, Bool.false_or, if_neg] at hnone
  · cases hnone
  · rw [hwraps.intact_iff]
    decide

end Ophelia.Reference
