import Ophelia.Domain.Revisions

/-!
# Ophelia.Domain.Receipts

Terminal receipts derived from verified observed state (`domain/receipts.py`). The checks
of `TerminalReceipt` are the field `truthful` of the structure: success is impossible
without a passed verification of the desired revision, and a compensated failure names
exactly the revision its compensation restored.
-/

namespace Ophelia

/-! ### Enumerations -/

inductive CheckStatus where
  | passed
  | failed
  | skipped
deriving DecidableEq, Repr

namespace CheckStatus

def value : CheckStatus → String
  | passed => "passed"
  | failed => "failed"
  | skipped => "skipped"

def codec : Codec CheckStatus :=
  .enum [passed, failed, skipped] value (by intro e; cases e <;> rfl)
    (by intro e; cases e <;> decide +kernel)

end CheckStatus

inductive VerificationStatus where
  | passed
  | failed
  | notRun
deriving DecidableEq, Repr

namespace VerificationStatus

def value : VerificationStatus → String
  | passed => "passed"
  | failed => "failed"
  | notRun => "not_run"

def codec : Codec VerificationStatus :=
  .enum [passed, failed, notRun] value (by intro e; cases e <;> rfl)
    (by intro e; cases e <;> decide +kernel)

end VerificationStatus

inductive CompensationStatus where
  | notNeeded
  | succeeded
  | failed
deriving DecidableEq, Repr

namespace CompensationStatus

def value : CompensationStatus → String
  | notNeeded => "not_needed"
  | succeeded => "succeeded"
  | failed => "failed"

def codec : Codec CompensationStatus :=
  .enum [notNeeded, succeeded, failed] value (by intro e; cases e <;> rfl)
    (by intro e; cases e <;> decide +kernel)

end CompensationStatus

inductive ReceiptOutcome where
  | succeeded
  | failedCompensated
  | failedUncompensated
  | cancelled
deriving DecidableEq, Repr

namespace ReceiptOutcome

def value : ReceiptOutcome → String
  | succeeded => "succeeded"
  | failedCompensated => "failed_compensated"
  | failedUncompensated => "failed_uncompensated"
  | cancelled => "cancelled"

def codec : Codec ReceiptOutcome :=
  .enum [succeeded, failedCompensated, failedUncompensated, cancelled] value
    (by intro e; cases e <;> rfl) (by intro e; cases e <;> decide +kernel)

/-- `OperationState(outcome.value)`. -/
def state : ReceiptOutcome → OperationState
  | succeeded => .succeeded
  | failedCompensated => .failedCompensated
  | failedUncompensated => .failedUncompensated
  | cancelled => .cancelled

@[simp] theorem terminal_state (o : ReceiptOutcome) : o.state.terminal = true := by
  cases o <;> rfl

end ReceiptOutcome

inductive ReceiptEffect where
  | preview
  | filesOnly
  | runtimeActivated
  | backupCreated
  | restoreVerified
  | none
deriving DecidableEq, Repr

namespace ReceiptEffect

def value : ReceiptEffect → String
  | preview => "preview"
  | filesOnly => "files_only"
  | runtimeActivated => "runtime_activated"
  | backupCreated => "backup_created"
  | restoreVerified => "restore_verified"
  | none => "none"

def codec : Codec ReceiptEffect :=
  .enum [preview, filesOnly, runtimeActivated, backupCreated, restoreVerified, none] value
    (by intro e; cases e <;> rfl) (by intro e; cases e <;> decide +kernel)

end ReceiptEffect

/-! ### Verification -/

structure VerificationCheck where
  name : Text 128
  status : CheckStatus
  observedDigest : Option Digest
  summary : Option (Text 1024)
deriving DecidableEq

namespace VerificationCheck

def summaryCodec : Codec (Option (Text 1024)) :=
  Codec.text1024.optional fun _ => by simp [Codec.text1024, Codec.text]

def schema : Schema VerificationCheck where
  kind := "ophelia.kernel.verification_check"
  keys := ["name", "status", "observed_digest", "summary"]
  fields c :=
    [("name", Codec.text128.enc c.name),
     ("status", CheckStatus.codec.enc c.status),
     ("observed_digest", Codec.optionalDigest.enc c.observedDigest),
     ("summary", summaryCodec.enc c.summary)]
  keys_eq _ := rfl
  kind_safe := by decide
  keys_plain := by decide +kernel
  keys_nodup := by decide
  values_plain _ := by simp

def fromPayload (payload : Json) : Result VerificationCheck := do
  let name ← Codec.text128.field "name" payload
  let status ← CheckStatus.codec.field "status" payload
  let observedDigest ← Codec.optionalDigest.getD "observed_digest" .null payload
  let summary ← summaryCodec.getD "summary" .null payload
  return { name, status, observedDigest, summary }

def masked (c : VerificationCheck) : VerificationCheck :=
  { c with name := Codec.text128.masked c.name, summary := summaryCodec.masked c.summary }

def codec : Codec VerificationCheck :=
  schema.codec fromPayload masked
    (by
      intro c payload h
      simp only [schema, Holds, List.forall_mem_cons] at h
      obtain ⟨h₁, h₂, h₃, h₄, -⟩ := h
      simp only [fromPayload, Codec.field_of_holds _ h₁, Codec.field_of_holds _ h₂,
        Codec.getD_of_holds _ h₃, Codec.getD_of_holds _ h₄, Codec.masked_optionalDigest,
        Result.ok_bind]
      rfl)
    (by intro c; simp only [schema, masked, maskMembers, Codec.mask_enc])

end VerificationCheck

structure VerificationResult [Platform] where
  status : VerificationStatus
  observedRevisionDigest : Option Digest
  observedStateDigest : Option Digest
  observedAt : Utc
  checks : List VerificationCheck
  passed_observed : status = .passed →
    observedRevisionDigest ≠ none ∧ observedStateDigest ≠ none
  passed_checks : status = .passed → ∀ c ∈ checks, c.status = .passed

namespace VerificationResult

variable [Platform]

def schema : Schema VerificationResult where
  kind := "ophelia.kernel.verification_result"
  keys := ["status", "observed_revision_digest", "observed_state_digest", "observed_at",
    "checks"]
  fields v :=
    [("status", VerificationStatus.codec.enc v.status),
     ("observed_revision_digest", Codec.optionalDigest.enc v.observedRevisionDigest),
     ("observed_state_digest", Codec.optionalDigest.enc v.observedStateDigest),
     ("observed_at", Codec.utc.enc v.observedAt),
     ("checks", VerificationCheck.codec.list.enc v.checks)]
  keys_eq _ := rfl
  kind_safe := by decide
  keys_plain := by decide +kernel
  keys_nodup := by decide
  values_plain _ := by simp

/-- The checks of a result, summaries refused. -/
def rejectSummaryProse (checks : List VerificationCheck) : Result Unit :=
  if checks.any fun c => c.summary.isSome then
    .error (.contractValidation
      "Authoritative journal verification checks cannot contain summary prose.")
  else .ok ()

def fromPayload (payload : Json) : Result VerificationResult := do
  let checks ← VerificationCheck.codec.list.field "checks" payload
  rejectSummaryProse checks
  let status ← VerificationStatus.codec.field "status" payload
  let observedRevisionDigest ← Codec.optionalDigest.getD "observed_revision_digest" .null payload
  let observedStateDigest ← Codec.optionalDigest.getD "observed_state_digest" .null payload
  let observedAt ← Codec.utc.field "observed_at" payload
  if passed_observed : status = .passed →
      observedRevisionDigest ≠ none ∧ observedStateDigest ≠ none then
    if passed_checks : status = .passed → ∀ c ∈ checks, c.status = .passed then
      return { status, observedRevisionDigest, observedStateDigest, observedAt, checks,
               passed_observed, passed_checks }
    else
      throw (.contractValidation "Passed verification cannot contain failed or skipped checks.")
  else
    throw (.contractValidation
      "Passed verification requires observed revision and state digests.")

theorem passed_checks_masked (v : VerificationResult) : v.status = .passed →
    ∀ c ∈ VerificationCheck.codec.list.masked v.checks, c.status = .passed := by
  intro h c hc
  obtain ⟨c', hc', rfl⟩ := List.mem_map.mp hc
  exact v.passed_checks h c' hc'

def masked (v : VerificationResult) : VerificationResult :=
  { v with checks := VerificationCheck.codec.list.masked v.checks,
           passed_checks := v.passed_checks_masked }

/-- No check of the result carries summary prose. -/
def terse (v : VerificationResult) : Bool :=
  !v.checks.any fun c => c.summary.isSome

theorem terse_masked (v : VerificationResult) : v.masked.terse = v.terse := by
  simp only [terse, masked, Codec.list, List.any_map]
  congr 2
  funext c
  show (VerificationCheck.summaryCodec.masked c.summary).isSome = c.summary.isSome
  cases c.summary <;> rfl

theorem fromPayload_of_holds {v : VerificationResult} (hv : v.terse = true) {payload : Json}
    (h : Holds payload (schema.fields v)) : fromPayload payload = .ok v.masked := by
  simp only [schema, Holds, List.forall_mem_cons] at h
  obtain ⟨h₁, h₂, h₃, h₄, h₅, -⟩ := h
  have hterse : rejectSummaryProse (VerificationCheck.codec.list.masked v.checks) = .ok () := by
    have hm := v.terse_masked.trans hv
    simp only [terse, masked, Bool.not_eq_true'] at hm
    rw [rejectSummaryProse, hm]
    rfl
  simp only [fromPayload, Codec.field_of_holds _ h₁, Codec.getD_of_holds _ h₂,
    Codec.getD_of_holds _ h₃, Codec.field_of_holds _ h₄, Codec.field_of_holds _ h₅,
    Codec.masked_optionalDigest, Result.ok_bind, hterse]
  exact (dif_pos v.passed_observed).trans (dif_pos v.passed_checks_masked)

theorem mask_fields (v : VerificationResult) :
    maskMembers (schema.fields v.masked) = maskMembers (schema.fields v) := by
  simp only [schema, masked, maskMembers, Codec.mask_enc]

end VerificationResult

/-! ### Compensation -/

structure CompensationResult where
  attempted : Bool
  status : CompensationStatus
  restoredRevisionId : Option (EntityId .rev)
  restoredRevisionDigest : Option Digest
  evidenceDigests : Digests
  idle_not_needed : ¬ (status = .notNeeded ∧ attempted = true)
  outcome_attempted : ¬ (status ≠ .notNeeded ∧ attempted = false)
  restored_together : restoredRevisionId.isNone = restoredRevisionDigest.isNone
deriving DecidableEq

namespace CompensationResult

def schema : Schema CompensationResult where
  kind := "ophelia.kernel.compensation_result"
  keys := ["attempted", "status", "restored_revision_id", "restored_revision_digest",
    "evidence_digests"]
  fields c :=
    [("attempted", Codec.bool.enc c.attempted),
     ("status", CompensationStatus.codec.enc c.status),
     ("restored_revision_id", Codec.optionalRevision.enc c.restoredRevisionId),
     ("restored_revision_digest", Codec.optionalDigest.enc c.restoredRevisionDigest),
     ("evidence_digests", (Codec.digests "evidence_digests").enc c.evidenceDigests)]
  keys_eq _ := rfl
  kind_safe := by decide
  keys_plain := by decide +kernel
  keys_nodup := by decide
  values_plain _ := by simp

def fromPayload (payload : Json) : Result CompensationResult := do
  let attempted ← Codec.bool.field "attempted" payload
  let status ← CompensationStatus.codec.field "status" payload
  let restoredRevisionId ← Codec.optionalRevision.getD "restored_revision_id" .null payload
  let restoredRevisionDigest ←
    Codec.optionalDigest.getD "restored_revision_digest" .null payload
  let evidenceDigests ←
    (Codec.digests "evidence_digests").getD "evidence_digests" (.arr []) payload
  if idle_not_needed : ¬ (status = .notNeeded ∧ attempted = true) then
    if outcome_attempted : ¬ (status ≠ .notNeeded ∧ attempted = false) then
      if restored_together : restoredRevisionId.isNone = restoredRevisionDigest.isNone then
        return { attempted, status, restoredRevisionId, restoredRevisionDigest, evidenceDigests,
                 idle_not_needed, outcome_attempted, restored_together }
      else
        throw (.contractValidation
          "Compensation must identify restored revision id and digest together.")
    else throw (.contractValidation "A compensation outcome requires attempted=true.")
  else throw (.contractValidation "Compensation cannot be attempted with not_needed status.")

def codec : Codec CompensationResult :=
  schema.codec fromPayload id
    (by
      intro c payload h
      simp only [schema, Holds, List.forall_mem_cons] at h
      obtain ⟨h₁, h₂, h₃, h₄, h₅, -⟩ := h
      simp only [fromPayload, Codec.field_of_holds _ h₁, Codec.field_of_holds _ h₂,
        Codec.getD_of_holds _ h₃, Codec.getD_of_holds _ h₄, Codec.getD_of_holds _ h₅,
        Codec.masked_optionalRevision, Codec.masked_optionalDigest, Codec.masked_digests,
        Result.ok_bind]
      exact (dif_pos c.idle_not_needed).trans <| (dif_pos c.outcome_attempted).trans <|
        dif_pos c.restored_together)
    (fun _ => rfl)

end CompensationResult

/-! ### Receipts -/

/-- The effect a successful receipt of an operation has to report. -/
def expectedEffect (operation : String) : Option ReceiptEffect :=
  if operation = "deploy.apply" then some .runtimeActivated
  else if operation = "rollback.apply" then some .runtimeActivated
  else if operation = "backup.apply" then some .backupCreated
  else if operation = "restore-drill.apply" then some .restoreVerified
  else none

/-- The claims of a terminal receipt before they are checked against each other. -/
structure ReceiptClaims [Platform] where
  receiptId : EntityId .receipt
  operationId : EntityId .operation
  operation : OperationName
  planId : EntityId .plan
  planDigest : Digest
  decisionId : EntityId .decision
  hostId : EntityId .host
  app : Slug
  environment : Slug
  previousRevisionId : Option (EntityId .rev)
  desiredRevisionId : EntityId .rev
  desiredRevisionDigest : Digest
  activeRevisionId : Option (EntityId .rev)
  activeRevisionDigest : Option Digest
  artifactDigests : Digests
  verification : VerificationResult
  compensation : CompensationResult
  effect : ReceiptEffect
  outcome : ReceiptOutcome
  startedAt : Utc
  completedAt : Utc
  inputsRedacted : Bool

namespace ReceiptClaims

variable [Platform]

/-- The checks of a receipt: what would be violated, with its message, in order. -/
def violations (r : ReceiptClaims) : List (Bool × String) :=
  let succeeded := r.outcome == .succeeded
  let compensated := r.outcome == .failedCompensated
  let uncompensated := r.outcome == .failedUncompensated
  [(decide (r.completedAt.instant < r.startedAt.instant),
      "completed_at must not precede started_at."),
   (!r.inputsRedacted, "Kernel receipts must declare inputs_redacted=true."),
   (succeeded && expectedEffect r.operation.val != some r.effect,
      "A successful kernel receipt must report the effect for its operation."),
   (succeeded && r.verification.status != .passed,
      "A successful operation requires passed verification."),
   (succeeded && !(r.activeRevisionId == some r.desiredRevisionId &&
      r.activeRevisionDigest == some r.desiredRevisionDigest &&
      r.verification.observedRevisionDigest == some r.desiredRevisionDigest),
      "Success requires desired, active, and observed revision digests to match."),
   (succeeded && r.compensation.status == .failed,
      "A successful receipt cannot contain failed compensation."),
   (compensated && r.compensation.status != .succeeded,
      "failed_compensated requires successful compensation."),
   (compensated && (r.activeRevisionId != r.compensation.restoredRevisionId ||
      r.activeRevisionDigest != r.compensation.restoredRevisionDigest),
      "The active revision must match the compensated revision."),
   (uncompensated && r.compensation.status == .succeeded,
      "failed_uncompensated cannot claim successful compensation.")]

def schema : Schema ReceiptClaims where
  kind := "ophelia.kernel.terminal_receipt"
  keys := ["receipt_id", "operation_id", "operation", "plan_id", "plan_digest", "decision_id",
    "host_id", "app", "environment", "previous_revision_id", "desired_revision_id",
    "desired_revision_digest", "active_revision_id", "active_revision_digest",
    "artifact_digests", "verification", "compensation", "effect", "outcome", "started_at",
    "completed_at", "inputs_redacted"]
  fields r :=
    [("receipt_id", (Codec.entityId .receipt).enc r.receiptId),
     ("operation_id", (Codec.entityId .operation).enc r.operationId),
     ("operation", Codec.operationName.enc r.operation),
     ("plan_id", (Codec.entityId .plan).enc r.planId),
     ("plan_digest", Codec.digest.enc r.planDigest),
     ("decision_id", (Codec.entityId .decision).enc r.decisionId),
     ("host_id", (Codec.entityId .host).enc r.hostId),
     ("app", Codec.slug.enc r.app),
     ("environment", Codec.slug.enc r.environment),
     ("previous_revision_id", Codec.optionalRevision.enc r.previousRevisionId),
     ("desired_revision_id", (Codec.entityId .rev).enc r.desiredRevisionId),
     ("desired_revision_digest", Codec.digest.enc r.desiredRevisionDigest),
     ("active_revision_id", Codec.optionalRevision.enc r.activeRevisionId),
     ("active_revision_digest", Codec.optionalDigest.enc r.activeRevisionDigest),
     ("artifact_digests", (Codec.digests "artifact_digests").enc r.artifactDigests),
     ("verification", VerificationResult.schema.toDict r.verification),
     ("compensation", CompensationResult.codec.enc r.compensation),
     ("effect", ReceiptEffect.codec.enc r.effect),
     ("outcome", ReceiptOutcome.codec.enc r.outcome),
     ("started_at", Codec.utc.enc r.startedAt),
     ("completed_at", Codec.utc.enc r.completedAt),
     ("inputs_redacted", Codec.bool.enc r.inputsRedacted)]
  keys_eq _ := rfl
  kind_safe := by decide
  keys_plain := by decide +kernel
  keys_nodup := by decide
  values_plain r := by
    have h : plain (VerificationResult.schema.toDict r.verification) = true := by
      rw [Schema.toDict_eq, plain_mask, Schema.plain_raw]
    simp [h]

/-- The claims as redaction leaves them. -/
def masked (r : ReceiptClaims) : ReceiptClaims :=
  { r with verification := r.verification.masked }

theorem toDict_masked (r : ReceiptClaims) : schema.toDict r.masked = schema.toDict r := by
  apply schema.toDict_congr
  have h : VerificationResult.schema.toDict r.verification.masked =
      VerificationResult.schema.toDict r.verification :=
    VerificationResult.schema.toDict_congr r.verification.mask_fields
  simp only [schema, masked, h]

end ReceiptClaims

/-- Immutable terminal evidence. -/
structure TerminalReceipt [Platform] extends ReceiptClaims where
  truthful : ∀ v ∈ toReceiptClaims.violations, v.1 = false

namespace TerminalReceipt

variable [Platform]

/-- `canonical_json` of a receipt. -/
def canonicalJson (r : TerminalReceipt) : String :=
  ReceiptClaims.schema.canonicalJson r.toReceiptClaims

/-- `canonical_digest` of a receipt. -/
def digest (r : TerminalReceipt) : Digest :=
  digestText r.canonicalJson

/-- The checks every receipt goes through when it is built. -/
def build (claims : ReceiptClaims) : Result TerminalReceipt :=
  match h : refuse claims.violations with
  | .ok () => .ok { claims with truthful := refuse_eq_ok.mp h }
  | .error e => .error e

/-- `_receipt_from_payload`. -/
def fromPayload (payload : Json) : Result TerminalReceipt := do
  let verification ← item payload "verification" >>= VerificationResult.fromPayload
  let compensation ← CompensationResult.codec.field "compensation" payload
  let receiptId ← (Codec.entityId .receipt).field "receipt_id" payload
  let operationId ← (Codec.entityId .operation).field "operation_id" payload
  let operation ← Codec.operationName.field "operation" payload
  let planId ← (Codec.entityId .plan).field "plan_id" payload
  let planDigest ← Codec.digest.field "plan_digest" payload
  let decisionId ← (Codec.entityId .decision).field "decision_id" payload
  let hostId ← (Codec.entityId .host).field "host_id" payload
  let app ← Codec.slug.field "app" payload
  let environment ← Codec.slug.field "environment" payload
  let previousRevisionId ← Codec.optionalRevision.getD "previous_revision_id" .null payload
  let desiredRevisionId ← (Codec.entityId .rev).field "desired_revision_id" payload
  let desiredRevisionDigest ← Codec.digest.field "desired_revision_digest" payload
  let activeRevisionId ← Codec.optionalRevision.getD "active_revision_id" .null payload
  let activeRevisionDigest ← Codec.optionalDigest.getD "active_revision_digest" .null payload
  let artifactDigests ← (Codec.digests "artifact_digests").field "artifact_digests" payload
  let effect ← ReceiptEffect.codec.field "effect" payload
  let outcome ← ReceiptOutcome.codec.field "outcome" payload
  let startedAt ← Codec.utc.field "started_at" payload
  let completedAt ← Codec.utc.field "completed_at" payload
  let inputsRedacted ← Codec.bool.field "inputs_redacted" payload
  build { receiptId, operationId, operation, planId, planDigest, decisionId, hostId, app,
          environment, previousRevisionId, desiredRevisionId, desiredRevisionDigest,
          activeRevisionId, activeRevisionDigest, artifactDigests, verification, compensation,
          effect, outcome, startedAt, completedAt, inputsRedacted }

/-- The receipt as redaction leaves it. -/
def masked (r : TerminalReceipt) : TerminalReceipt :=
  { r.toReceiptClaims.masked with truthful := r.truthful }

theorem build_masked (r : TerminalReceipt) :
    build r.toReceiptClaims.masked = .ok r.masked := by
  have h : refuse r.toReceiptClaims.masked.violations = .ok () := refuse_eq_ok.mpr r.truthful
  unfold build
  split
  · rfl
  · rename_i e he
    rw [h] at he
    exact absurd he (by simp)

/-- **A receipt without summary prose is read back from its text**, the names of its
checks masked. -/
theorem fromPayload_toDict (r : TerminalReceipt) (hr : r.verification.terse = true) :
    fromPayload (ReceiptClaims.schema.toDict r.toReceiptClaims).sortKeys = .ok r.masked := by
  have h := ReceiptClaims.schema.holds r.toReceiptClaims
  generalize (ReceiptClaims.schema.toDict r.toReceiptClaims).sortKeys = payload at h ⊢
  simp only [ReceiptClaims.schema, Holds, List.forall_mem_cons] at h
  obtain ⟨h₁, h₂, h₃, h₄, h₅, h₆, h₇, h₈, h₉, h₁₀, h₁₁, h₁₂, h₁₃, h₁₄, h₁₅, h₁₆, h₁₇, h₁₈, h₁₉,
    h₂₀, h₂₁, h₂₂, -⟩ := h
  have hver : VerificationResult.fromPayload
      (mask (VerificationResult.schema.toDict r.verification)).sortKeys =
        .ok r.verification.masked := by
    rw [Schema.mask_toDict]
    exact VerificationResult.fromPayload_of_holds hr
      (VerificationResult.schema.holds r.verification)
  have hitem : (item payload "verification" >>= VerificationResult.fromPayload) =
      .ok r.verification.masked := by
    simp only [item, h₁₆, Result.ok_bind, hver]
  simp only [fromPayload, hitem, Codec.field_of_holds _ h₁, Codec.field_of_holds _ h₂,
    Codec.field_of_holds _ h₃, Codec.field_of_holds _ h₄, Codec.field_of_holds _ h₅,
    Codec.field_of_holds _ h₆, Codec.field_of_holds _ h₇, Codec.field_of_holds _ h₈,
    Codec.field_of_holds _ h₉, Codec.getD_of_holds _ h₁₀, Codec.field_of_holds _ h₁₁,
    Codec.field_of_holds _ h₁₂, Codec.getD_of_holds _ h₁₃, Codec.getD_of_holds _ h₁₄,
    Codec.field_of_holds _ h₁₅, Codec.field_of_holds _ h₁₇, Codec.field_of_holds _ h₁₈,
    Codec.field_of_holds _ h₁₉, Codec.field_of_holds _ h₂₀, Codec.field_of_holds _ h₂₁,
    Codec.field_of_holds _ h₂₂, Codec.masked_optionalRevision, Codec.masked_optionalDigest,
    Codec.masked_digests, Result.ok_bind]
  exact r.build_masked

@[simp] theorem canonicalJson_masked (r : TerminalReceipt) :
    r.masked.canonicalJson = r.canonicalJson := by
  rw [canonicalJson, canonicalJson, Schema.canonicalJson, Schema.canonicalJson,
    ← ReceiptClaims.toDict_masked r.toReceiptClaims]
  rfl

end TerminalReceipt

end Ophelia
