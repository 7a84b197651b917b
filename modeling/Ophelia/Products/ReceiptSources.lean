import Ophelia.Journal.Writes
import Ophelia.Products.Identity

/-!
# Ophelia.Products.ReceiptSources

Receipts of products, and their discovery. A product operation leaves a terminal receipt in the
journal and, next to it, a file that wraps the same receipt with the product's own identity
(`product_execution.py`, `product_recovery.py`). `receipt_sources.py` finds receipts of every
kind, checks each one against the integrity contract of its source, and merges those of one
identity into one record.

The scan starts from the files it has found, in order; which paths are safe to follow is not
modelled. What a JSON file holds is the value that was written, its keys sorted. Equality of JSON
values does not identify numbers with booleans.
-/

namespace Ophelia

/-! ### Values of a mapping -/

/-- `payload.get(key)`; a missing value is `None`. -/
def member (payload : Json) (key : String) : Json :=
  (payload.get? key).getD .null

/-- `isinstance(value, Mapping)`. -/
def isMapping : Json → Bool
  | .obj _ => true
  | _ => false

/-- The truth of a value. -/
def truthy : Json → Bool
  | .null => false
  | .bool b => b
  | .int n => n ≠ 0
  | .float r => r.text.any fun c => '1' ≤ c && c ≤ '9'
  | .str s => s ≠ ""
  | .arr items => !items.isEmpty
  | .obj members => !members.isEmpty

/-- `first or second`. -/
def orElse (first second : Json) : Json :=
  if truthy first then first else second

/-- `str(value)`; `other` prints what is no string. -/
def strOf (other : Json → String) : Json → String
  | .str s => s
  | value => other value

/-- A string that is not empty. -/
def nonemptyText : Json → Option String
  | .str s => if s = "" then none else some s
  | _ => none

/-! ### Correlated receipts -/

/-- An operations bundle, as far as its receipts read it. -/
structure ProductEvidence where
  productId : BundleId
  releaseId : String
  bundleDigest : Digest
  compositionDigest : Digest
  runtimeContractDigest : Digest
  runtimeDocumentDigest : Digest
  releaseManifestDigest : Digest
  releaseDocumentDigest : Digest
  recoveryContractDigest : Digest
  recoveryDocumentDigest : Digest

/-- What a recovery operation adds to its receipt: the identities, and the evidence of a
success. -/
inductive RecoveryEvidence where
  | backup (backupId : String) (published : Option (Digest × String))
  | restoreDrill (backupId drillId : String) (verified : Option (Digest × Digest × String))

namespace RecoveryEvidence

def values : RecoveryEvidence → List (String × Json)
  | .backup backupId none => [("backup_id", .str backupId)]
  | .backup backupId (some (manifest, path)) =>
      [("backup_id", .str backupId), ("backup_manifest_digest", .str manifest.val),
       ("backup_path", .str path)]
  | .restoreDrill backupId drillId none =>
      [("backup_id", .str backupId), ("restore_drill_id", .str drillId)]
  | .restoreDrill backupId drillId (some (manifest, report, path)) =>
      [("backup_id", .str backupId), ("restore_drill_id", .str drillId),
       ("backup_manifest_digest", .str manifest.val), ("restore_report_digest", .str report.val),
       ("restore_path", .str path)]

end RecoveryEvidence

section Correlated

variable [Platform]

/-- `_operation_correlation`. -/
def operationCorrelation (message : String) (receipt : TerminalReceipt)
    (approval : ApprovedPlanRef) : Except String (List (String × Json)) :=
  if receipt.planId ≠ approval.planId ∨ receipt.planDigest ≠ approval.planDigest ∨
      receipt.decisionId ≠ approval.decisionId then .error message
  else
    .ok
      [("ophelia_request_digest", .str approval.requestDigest.val),
       ("ophelia_plan_digest", .str approval.planDigest.val),
       ("ophelia_approval_digest", .str approval.approvalDigest.val),
       ("ophelia_operation_digest", .str (digestText (canonicalJson (.obj
         [("operation_id", .str receipt.operationId.val),
          ("operation", .str receipt.operation.val),
          ("request_digest", .str approval.requestDigest.val),
          ("plan_digest", .str approval.planDigest.val),
          ("approval_digest", .str approval.approvalDigest.val)]))).val),
       ("ophelia_verification_digest",
         .str (VerificationResult.schema.digest receipt.verification).val)]

/-- The members that both kinds of correlated receipts have. -/
def correlatedMembers (kind : String) (bundle : ProductEvidence) (receipt : TerminalReceipt) :
    List (String × Json) :=
  [("schema_version", .int 1),
   ("kind", .str kind),
   ("status", .str receipt.outcome.value),
   ("operation", .str receipt.operation.val),
   ("product_id", .str bundle.productId.val),
   ("release_id", .str bundle.releaseId),
   ("bundle_digest", .str bundle.bundleDigest.val),
   ("composition_digest", .str bundle.compositionDigest.val),
   ("runtime_contract_digest", .str bundle.runtimeContractDigest.val),
   ("runtime_document_digest", .str bundle.runtimeDocumentDigest.val),
   ("release_manifest_digest", .str bundle.releaseManifestDigest.val),
   ("release_document_digest", .str bundle.releaseDocumentDigest.val),
   ("recovery_contract_digest", .str bundle.recoveryContractDigest.val),
   ("recovery_document_digest", .str bundle.recoveryDocumentDigest.val),
   ("ophelia_receipt_digest", .str receipt.digest.val),
   ("ophelia_receipt", ReceiptClaims.schema.toDict receipt.toReceiptClaims),
   ("inputs_redacted", .bool true)]

/-- `_correlated_receipt`. -/
def correlatedReceipt (bundle : ProductEvidence) (receipt : TerminalReceipt)
    (approval : ApprovedPlanRef) : Except String Json := do
  let correlation ← operationCorrelation "Terminal receipt does not match its durable approval."
    receipt approval
  return .obj (correlatedMembers "ophelia.product-operation-receipt" bundle receipt ++ correlation)

/-- `_recovery_receipt`. -/
def recoveryReceipt (bundle : ProductEvidence) (receipt : TerminalReceipt)
    (approval : ApprovedPlanRef) (evidence : RecoveryEvidence) : Except String Json := do
  let correlation ← operationCorrelation
    "Terminal recovery receipt does not match its durable approval." receipt approval
  return .obj (correlatedMembers "ophelia.product-recovery-receipt" bundle receipt ++
    correlation ++ evidence.values)

end Correlated

/-! ### Warnings and records -/

structure SourceWarning where
  code : String
  message : String
  path : String
deriving DecidableEq

inductive ReceiptSource where
  | file
  | journal
  | product
deriving DecidableEq

def ReceiptSource.priority : ReceiptSource → Nat
  | .file => 1
  | .journal => 2
  | .product => 3

/-- A set of sources, in the order of their names. -/
def sourceSet (sources : List ReceiptSource) : List ReceiptSource :=
  [.file, .journal, .product].filter fun s => s ∈ sources

/-- A sorted set of texts. -/
def textSet (texts : List String) : List String :=
  texts.dedup.mergeSort fun a b => decide (a ≤ b)

/-- One projected receipt. -/
structure ReceiptRecord where
  receiptId : String
  operation : Json
  status : Json
  app : Json
  environment : Json
  startedAt : Json
  completedAt : Json
  path : String
  storagePath : Option String
  source : ReceiptSource
  sources : List ReceiptSource
  inputsRedacted : Json
  aliases : List String
  payloadReadable : Bool
  receiptLocators : List String
  journalLocator : Option String
  productReceiptPath : Option String
  fileReceiptPath : Option String
deriving DecidableEq

/-- A receipt file that was found: where, under which owner, and the object it holds, if it
holds one. -/
structure FoundReceipt where
  ownerApp : Option String
  ownerEnvironment : Option String
  path : String
  defaultSource : ReceiptSource
  payload : Option Json

/-- What a scan reads: the files it has found below the runtime root, none of which looks like
the locator of a row, and the receipts of the journal. -/
structure ReceiptStore [Platform] where
  files : List FoundReceipt
  database : String
  journal : Journal
  below : ∀ file ∈ files, '/' ∈ file.path.toList ∧
    "sqlite:".toList.isPrefixOf file.path.toList = false

/-! ### Paths -/

/-- `path.stem`: the name up to its last dot, if that is not its first character. -/
def pathStem (path : String) : List Char :=
  let name := PyText.pathName path.toList
  let extension := name.reverse.takeWhile fun c => c ≠ '.'
  if extension.length + 1 < name.length then name.take (name.length - extension.length - 1)
  else name

theorem lawful_pathParts : LawfulBEq (List Char) := inferInstance

attribute [local instance] lawful_pathParts in
/-- `_operation_from_receipt_path`. -/
def operationFromReceiptPath (path : String) : String :=
  if PyText.pathName path.toList = "backup-manifest.json".toList then "backup.create"
  else if PyText.pathName path.toList = "restore-report.json".toList then "restore.apply"
  else if "rollback".toList ∈ path.toList.splitOn '/' then "rollback.apply"
  else String.ofList ((pathStem path).map fun c => if c = '-' then '.' else c)

/-! ### The integrity contracts -/

def PRODUCT_RECEIPT_KINDS : List String :=
  ["ophelia.product-operation-receipt", "ophelia.product-recovery-receipt"]

/-- `payload.get("kind") in PRODUCT_RECEIPT_KINDS` for a kind that a set can look up. -/
def isProductKind : Json → Bool
  | .str kind => kind ∈ PRODUCT_RECEIPT_KINDS
  | _ => false

section Checks

variable [Platform]

/-- `_payload_digest`. -/
def payloadDigest (payload : Json) : Json :=
  .str (digestText payload.dumps).val

/-- The integrity contract of a wrapper with its nested receipt. -/
def wrapperIntact (payload : Json) : Bool :=
  let nested := member payload "ophelia_receipt"
  isMapping nested &&
  decide (member nested "kind" = .str "ophelia.kernel.terminal_receipt") &&
  (nonemptyText (member nested "receipt_id")).isSome &&
  decide (member payload "ophelia_receipt_digest" = payloadDigest nested) &&
  decide (member payload "operation" = member nested "operation") &&
  decide (member payload "status" = orElse (member nested "status") (member nested "outcome")) &&
  (decide (member payload "app" = .null) ||
    decide (member payload "app" = member nested "app")) &&
  (decide (member payload "environment" = .null) ||
    decide (member payload "environment" = member nested "environment")) &&
  (decide (member payload "product_id" = .null) ||
    decide (member payload "product_id" = member nested "app")) &&
  decide (member payload "inputs_redacted" = .bool true) &&
  decide (member nested "inputs_redacted" = .bool true)

/-- `_product_wrapper_integrity_warning`. -/
def productWrapperIntegrityWarning (path : String) (payload : Json) : Option SourceWarning :=
  if !isProductKind (member payload "kind") || wrapperIntact payload then none
  else some ⟨"receipt_product_integrity_failed",
    "A product receipt wrapper is missing or mismatches its nested kernel receipt integrity contract.",
    path⟩

/-- `_journal_locator`. -/
def journalLocator (database : String) (receiptId : String) : String :=
  "sqlite:" ++ database ++ "#terminal_receipts/" ++ receiptId

/-- `_journal_storage_integrity_warning`. -/
def journalStorageIntegrityWarning (database : String) (row : ReceiptRow) (payload : Json) :
    Option SourceWarning :=
  if Json.str row.receiptDigest.val = payloadDigest payload ∧
      Json.str row.operationId.val = member payload "operation_id" ∧
      Json.str row.outcome.value = member payload "outcome" then none
  else some ⟨"receipt_journal_integrity_failed",
    "A kernel receipt row does not match its stored digest or authoritative columns.",
    journalLocator database row.receiptId.val⟩

omit [Platform] in
/-- `_journal_contract_warning`. -/
def journalContractWarning (database : String) (storedId : String) (payload : Json) :
    Option SourceWarning :=
  let locator := journalLocator database storedId
  if member payload "receipt_id" ≠ .str storedId then
    some ⟨"receipt_journal_identity_mismatch",
      "A kernel receipt row id does not match its payload identity.", locator⟩
  else if member payload "kind" ≠ .str "ophelia.kernel.terminal_receipt" then
    some ⟨"receipt_journal_contract_invalid",
      "A kernel receipt row has an unsupported payload kind.", locator⟩
  else if member payload "inputs_redacted" ≠ .bool true then
    some ⟨"receipt_journal_contract_invalid",
      "A kernel receipt row does not prove inputs_redacted=true.", locator⟩
  else none

/-- The row, the payload it holds if it is intact, and a warning if it is not. -/
def journalRow (database : String) (row : ReceiptRow) : Option Json × List SourceWarning :=
  match Json.loads row.payloadJson with
  | none =>
      (none, [⟨"receipt_journal_payload_invalid", "A kernel receipt payload is not valid JSON.",
        journalLocator database row.receiptId.val⟩])
  | some payload =>
      if isMapping payload then
        match journalStorageIntegrityWarning database row payload with
        | some warning => (none, [warning])
        | none => (some payload, [])
      else
        (none, [⟨"receipt_journal_payload_invalid",
          "A kernel receipt payload is not a JSON object.",
          journalLocator database row.receiptId.val⟩])

/-! ### Projection -/

/-- `_receipt_id`. -/
def receiptId (path : String) (payload : Json) : String :=
  let named := ["receipt_id", "operation_id", "backup_id", "rollback_id"].filterMap fun key =>
    nonemptyText (member payload key)
  match named with
  | id :: _ => id
  | [] =>
      let digest := ((digestText path).val.toList.drop 7).take 10
      String.ofList (pathStem path ++ '-' :: digest)

/-- A record of a receipt that cannot be read. -/
def invalidRecord (receiptId operation path : String) (app environment : Json)
    (storagePath : Option String) (source : ReceiptSource) : ReceiptRecord where
  receiptId
  operation := .str operation
  status := .str "invalid"
  app
  environment
  startedAt := .null
  completedAt := .null
  path
  storagePath
  source
  sources := [source]
  inputsRedacted := .bool true
  aliases := []
  payloadReadable := false
  receiptLocators := []
  journalLocator := none
  productReceiptPath := none
  fileReceiptPath := none

/-- An optional text as a value. -/
def optionalText : Option String → Json
  | some s => .str s
  | none => .null

/-- `_record_from_payload`. -/
def recordFromPayload (path : String) (payload : Json) (ownerApp ownerEnvironment : Option String)
    (source : ReceiptSource) (storedReceiptId : Option String) : ReceiptRecord :=
  let nested := member payload "ophelia_receipt"
  let terminal := if isMapping nested then nested else payload
  let receiptId := match storedReceiptId with
    | some id => id
    | none => receiptId path terminal
  let candidates := [payload, terminal].flatMap fun candidate =>
    ["verify_id", "restore_drill_id"].filterMap fun key => nonemptyText (member candidate key)
  let when (key : String) :=
    orElse (member payload key) (orElse (member terminal key)
      (orElse (member payload "created_at") (member payload "applied_at")))
  { receiptId
    operation := orElse (member payload "operation") (orElse (member terminal "operation")
      (.str (operationFromReceiptPath path)))
    status := orElse (member payload "status") (orElse (member terminal "status")
      (orElse (member terminal "outcome") (.str "unknown")))
    app := orElse (member payload "app") (orElse (member terminal "app") (optionalText ownerApp))
    environment := orElse (member payload "environment")
      (orElse (member terminal "environment") (optionalText ownerEnvironment))
    startedAt := when "started_at"
    completedAt := when "completed_at"
    path
    storagePath := none
    source
    sources := []
    inputsRedacted := (payload.get? "inputs_redacted").getD
      ((terminal.get? "inputs_redacted").getD (.bool true))
    aliases := textSet (candidates.filter fun value => value ≠ receiptId)
    payloadReadable := true
    receiptLocators := []
    journalLocator := none
    productReceiptPath := none
    fileReceiptPath := none }

/-! ### Records of the two stores -/

/-- The record of a file, and its warnings. -/
def fileRecord (file : FoundReceipt) : ReceiptRecord × List SourceWarning :=
  match file.payload with
  | none =>
      (invalidRecord (receiptId file.path (.obj [])) (operationFromReceiptPath file.path) file.path
          (optionalText file.ownerApp) (optionalText file.ownerEnvironment) none
          file.defaultSource,
        [⟨"receipt_unreadable", "A receipt file is not readable JSON.", file.path⟩])
  | some payload =>
      let source := if isProductKind (member payload "kind") then .product else file.defaultSource
      match productWrapperIntegrityWarning file.path payload with
      | some warning =>
          let nested := member payload "ophelia_receipt"
          let identity := if isMapping nested then nested else payload
          (invalidRecord (receiptId file.path identity) "product.receipt" file.path .null .null
            none .product, [warning])
      | none =>
          (recordFromPayload file.path payload file.ownerApp file.ownerEnvironment source none, [])

/-- The record of a row, and the warning about its contract. -/
def journalRecord (database : String) (row : ReceiptRow) : ReceiptRecord × List SourceWarning :=
  let storedId := row.receiptId.val
  let invalid := invalidRecord storedId "kernel.receipt" (journalLocator database storedId) .null
    .null (some database) .journal
  match (journalRow database row).1 with
  | none => (invalid, [])
  | some payload =>
      match journalContractWarning database storedId payload with
      | some warning => (invalid, [warning])
      | none =>
          ({ recordFromPayload database payload none none .journal (some storedId) with
              storagePath := some database
              path := journalLocator database storedId }, [])

/-- The rows in the order of their identities. -/
def ReceiptStore.rows (store : ReceiptStore) : List ReceiptRow :=
  store.journal.terminalReceipts.rows.mergeSort fun a b => decide (a.receiptId.val ≤ b.receiptId.val)

/-- `receipt_payload`. -/
def ReceiptStore.receiptPayload (store : ReceiptStore) (record : ReceiptRecord) : Option Json :=
  if record.payloadReadable = false then none
  else if record.source = .journal ∨ "sqlite:".toList.isPrefixOf record.path.toList then do
    let row ← store.rows.find? fun row => row.receiptId.val = record.receiptId
    let payload ← (journalRow store.database row).1
    if (journalContractWarning store.database record.receiptId payload).isSome then none
    else some payload
  else do
    let file ← store.files.find? fun file => file.path = record.path
    let payload ← file.payload
    if (productWrapperIntegrityWarning record.path payload).isSome then none else some payload

/-! ### Merging -/

omit [Platform] in
/-- `_add_source_locator`. -/
def addSourceLocator (result source : ReceiptRecord) : ReceiptRecord :=
  if source.path = "" then result
  else
    match source.source with
    | .journal => { result with journalLocator := some source.path }
    | .product => { result with productReceiptPath := some source.path }
    | .file => { result with fileReceiptPath := some (result.fileReceiptPath.getD source.path) }

omit [Platform] in
/-- `_record_with_source_metadata`. -/
def recordWithSourceMetadata (record : ReceiptRecord) : ReceiptRecord :=
  addSourceLocator
    { record with
      sources := sourceSet (record.source :: record.sources)
      receiptLocators := if record.path = "" then [] else [record.path] } record

omit [Platform] in
/-- `_merge_source_metadata`. -/
def mergeSourceMetadata (primary secondary : ReceiptRecord) : ReceiptRecord :=
  let result := recordWithSourceMetadata primary
  let merged : ReceiptRecord :=
    { result with
      sources := sourceSet (result.sources ++ secondary.source :: secondary.sources)
      receiptLocators := textSet (result.receiptLocators ++ secondary.receiptLocators ++
        if secondary.path = "" then [] else [secondary.path])
      aliases := if secondary.payloadReadable then textSet (result.aliases ++ secondary.aliases)
        else result.aliases }
  addSourceLocator merged secondary

omit [Platform] in
/-- `_record_for_source`. -/
def recordForSource (first second : ReceiptRecord) (source : ReceiptSource) :
    Option ReceiptRecord :=
  if first.source = source then some first
  else if second.source = source then some second
  else none

/-- The integrity contract of a wrapper with the row of its receipt. -/
def ReceiptStore.correlationIntact (store : ReceiptStore) (product journal : ReceiptRecord) : Bool :=
  match store.receiptPayload product, store.receiptPayload journal with
  | some wrapper, some payload =>
      let nested := member wrapper "ophelia_receipt"
      let agrees (own theirs : Json) := decide (own = .null) || decide (own = theirs)
      isMapping nested && decide (nested = payload) &&
        decide (member wrapper "ophelia_receipt_digest" = payloadDigest nested) &&
        agrees (member wrapper "operation") (member payload "operation") &&
        agrees (member wrapper "status")
          (orElse (member payload "status") (member payload "outcome")) &&
        agrees (member wrapper "app") (member payload "app") &&
        agrees (member wrapper "environment") (member payload "environment")
  | _, _ => false

/-- `_product_journal_integrity_warning`. -/
def ReceiptStore.productJournalIntegrityWarning (store : ReceiptStore)
    (product journal : ReceiptRecord) : Option SourceWarning :=
  if store.correlationIntact product journal then none
  else some ⟨"receipt_correlation_integrity_failed",
    "A correlated product receipt does not match its authoritative kernel journal receipt; the journal payload was retained.",
    journal.path⟩

/-- `_receipt_payloads_equivalent`. -/
def ReceiptStore.receiptPayloadsEquivalent (store : ReceiptStore)
    (first second : ReceiptRecord) : Bool :=
  match store.receiptPayload first, store.receiptPayload second with
  | some a, some b => decide (a = b)
  | _, _ => false

/-- One more record under an identity that has the record `existing`, if any. -/
def ReceiptStore.mergeRecord (store : ReceiptStore) (existing : Option ReceiptRecord)
    (record : ReceiptRecord) : ReceiptRecord × List SourceWarning :=
  match existing with
  | none => (recordWithSourceMetadata record, [])
  | some existing =>
      let preferCurrent := existing.source.priority < record.source.priority ∨
        record.source.priority = existing.source.priority ∧ record.path < existing.path
      let primary := if preferCurrent then record else existing
      let secondary := if preferCurrent then existing else record
      match recordForSource existing record .product, recordForSource existing record .journal with
      | some product, some journal =>
          if product.payloadReadable = false then (mergeSourceMetadata journal product, [])
          else
            match store.productJournalIntegrityWarning product journal with
            | some warning => (mergeSourceMetadata journal product, [warning])
            | none => (mergeSourceMetadata primary secondary, [])
      | _, _ =>
          let warnings :=
            if store.receiptPayloadsEquivalent existing record then []
            else [⟨"receipt_identity_collision",
              "Receipt id '" ++ record.receiptId ++
                "' resolves to different payloads; a deterministic primary record was retained.",
              if primary.path = "" then "unknown" else primary.path⟩]
          (mergeSourceMetadata primary secondary, warnings)

omit [Platform] in
/-- A mapping with one entry set; a new one goes to the end. -/
def setRecord (byId : List (String × ReceiptRecord)) (id : String) (record : ReceiptRecord) :
    List (String × ReceiptRecord) :=
  if id ∈ byId.map Prod.fst then byId.map fun e => if e.1 = id then (id, record) else e
  else byId ++ [(id, record)]

/-- The records under each identity, and the warnings about those that do not go together. -/
def ReceiptStore.mergeRecords (store : ReceiptStore) (records : List ReceiptRecord) :
    List (String × ReceiptRecord) × List SourceWarning :=
  records.foldl (fun state record =>
    if record.receiptId = "" then state
    else
      let merged := store.mergeRecord (state.1.lookup record.receiptId) record
      (setRecord state.1 record.receiptId merged.1, state.2 ++ merged.2)) ([], [])

/-- The records of both stores, in the order they are merged in. -/
def ReceiptStore.records (store : ReceiptStore) : List ReceiptRecord :=
  store.files.map (fun file => (fileRecord file).1) ++
    store.rows.map fun row => (journalRecord store.database row).1

/-- The warnings about single receipts. -/
def ReceiptStore.warnings (store : ReceiptStore) : List SourceWarning :=
  store.files.flatMap (fun file => (fileRecord file).2) ++
    store.rows.flatMap (fun row => (journalRow store.database row).2) ++
    store.rows.flatMap fun row => (journalRecord store.database row).2

omit [Platform] in
/-- The time by which a record is ordered. -/
def ReceiptRecord.time (record : ReceiptRecord) : String :=
  match orElse record.startedAt record.completedAt with
  | .str s => s
  | .null => ""
  | other => other.dumps

/-- `receipt_scan` where the kind of every file can be looked up. -/
def receiptScan (store : ReceiptStore) (app environment : Option String) :
    List ReceiptRecord × List SourceWarning :=
  let merged := store.mergeRecords store.records
  let wanted := (merged.1.map Prod.snd).filter fun record =>
    app.all (fun app => record.app = .str app) &&
      environment.all fun environment => record.environment = .str environment
  (wanted.mergeSort fun a b =>
      decide (a.time < b.time ∨ a.time = b.time ∧ a.receiptId ≤ b.receiptId),
    store.warnings ++ merged.2)

/-- Looking a value up in a set: a list or a mapping raises `TypeError`. -/
def hashable : Json → Except String Unit
  | .arr _ => .error "unhashable type: 'list'"
  | .obj _ => .error "unhashable type: 'dict'"
  | _ => .ok ()

/-- `receipt_scan`: the kind of each file that is read is looked up first. -/
def ReceiptStore.scan (store : ReceiptStore) (app environment : Option String) :
    Except String (List ReceiptRecord × List SourceWarning) := do
  let _ ← store.files.mapM fun file =>
    file.payload.elim (.ok ()) fun payload => hashable (member payload "kind")
  return receiptScan store app environment

end Checks

end Ophelia
