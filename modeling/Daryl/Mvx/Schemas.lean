import Daryl.Lib.Validated
import Daryl.Py.Str

/-!
# `multiversx.schemas`: the entries of an anchor

What the adapter writes to the log about one anchor.  Each entry is a validated
record: a field of an entry holds only what its declaration admits, and building one
from values that do not fit fails with the fields at fault.

## Main definitions

* `AnchorState`, `EpochRegime`, `Uuid` — states, regimes and intent ids.
* `Violation`, `FieldError` — what a field can do wrong.
* `AnchorIntent` — the entry written before any network call.
* `AnchorSubmittedEntry` … `AnchorStuckEntry` — the entries the state machine emits.
* `AnchorLogEntry` — any of them.
-/

namespace Daryl

open Py

namespace Mvx

/-- `uuid.UUID`: sixteen bytes. -/
structure Uuid where
  bytes : List Byte
  length_bytes : bytes.length = 16
  deriving DecidableEq

/-- `uuid.UUID(int=0)`. -/
def Uuid.zero : Uuid := ⟨List.replicate 16 0, by simp⟩

/-- `EpochRegime`. -/
inductive EpochRegime
  | andromeda
  | supernova
  deriving DecidableEq, Repr

/-- `AnchorState`. -/
inductive AnchorState
  | intentLogged
  | submitted
  | included
  | settled
  | failed
  | rejected
  | timedOut
  | stuck
  deriving DecidableEq, Repr

/-! ### Fields -/

/-- The error types of the checks on a field. -/
inductive Violation
  | stringUnicode
  | stringTooShort
  | greaterThanEqual
  | lessThanEqual
  | literalError
  deriving DecidableEq, Repr

/-- An error of a record: the field, and what is wrong with it. -/
structure FieldError where
  loc : PyStr
  type : Violation
  deriving DecidableEq, Repr

/-- The outcome of validating. -/
abbrev Checked := Validated FieldError

/-- A validated string: one with a surrogate is refused. -/
abbrev Text := {s : PyStr // Encodable s}

/-- A validated string of at least one character. -/
abbrev NonemptyText := {s : PyStr // Encodable s ∧ s ≠ []}

/-- A validated integer with `ge=0`. -/
abbrev NonNeg := {n : ℤ // 0 ≤ n}

/-- A validated status code, `ge=100, le=599`. -/
abbrev HttpStatus := {n : ℤ // 100 ≤ n ∧ n ≤ 599}

/-- A field declared `str`. -/
def str (loc : PyStr) (s : PyStr) : Checked Text :=
  .check ⟨loc, .stringUnicode⟩ Encodable s

/-- A field declared `str` with `min_length=1`. -/
def strNonempty (loc : PyStr) (s : PyStr) : Checked NonemptyText :=
  .check ⟨loc, if Encodable s then .stringTooShort else .stringUnicode⟩ _ s

/-- A field declared `int` with `ge=0`. -/
def nonNeg (loc : PyStr) (n : ℤ) : Checked NonNeg :=
  .check ⟨loc, .greaterThanEqual⟩ (0 ≤ ·) n

/-- The field `http_status`. -/
def httpStatus (n : ℤ) : Checked HttpStatus :=
  .check ⟨py "http_status", if 100 ≤ n then .lessThanEqual else .greaterThanEqual⟩ _ n

/-- A field declared `Optional[str]`. -/
def optStr (loc : PyStr) : Option PyStr → Checked (Option Text)
  | none => pure none
  | some s => some <$> str loc s

@[simp] theorem isOk_str {loc s : PyStr} : (str loc s).isOk = true ↔ Encodable s :=
  Validated.isOk_check

@[simp] theorem isOk_strNonempty {loc s : PyStr} :
    (strNonempty loc s).isOk = true ↔ Encodable s ∧ s ≠ [] := Validated.isOk_check

@[simp] theorem isOk_nonNeg {loc : PyStr} {n : ℤ} : (nonNeg loc n).isOk = true ↔ 0 ≤ n :=
  Validated.isOk_check

@[simp] theorem isOk_httpStatus {n : ℤ} : (httpStatus n).isOk = true ↔ 100 ≤ n ∧ n ≤ 599 :=
  Validated.isOk_check

@[simp] theorem isOk_optStr {loc : PyStr} {s : Option PyStr} :
    (optStr loc s).isOk = true ↔ ∀ t ∈ s, Encodable t := by
  cases s <;> simp [optStr]

/-! ### The intent -/

/-- `NetworkConfigSnapshot`. -/
structure NetworkConfigSnapshot where
  chainId : PyStr
  roundDurationMs : ℤ
  protocolVersion : PyStr
  capturedAtMs : ℤ
  deriving DecidableEq

/-- `NetworkConfigSnapshot` validates. -/
def NetworkConfigSnapshot.Valid (s : NetworkConfigSnapshot) : Prop :=
  Encodable s.chainId ∧ s.chainId ≠ [] ∧ 1 ≤ s.roundDurationMs ∧ Encodable s.protocolVersion ∧
    0 ≤ s.capturedAtMs

instance (s : NetworkConfigSnapshot) : Decidable s.Valid :=
  inferInstanceAs (Decidable (_ ∧ _ ∧ _ ∧ _ ∧ _))

/-- The fields of an `AnchorIntent`. -/
structure AnchorIntent where
  intentId : Uuid
  shardId : PyStr
  lastHash : PyStr
  entryNonce : ℤ
  epochRegime : EpochRegime
  networkConfigSnapshot : Option NetworkConfigSnapshot
  adapterVersion : Option PyStr
  signatureEd25519 : Option PyStr
  deriving DecidableEq

/-- A digit of `[0-9a-fA-F]`. -/
def IsHex (c : CodePoint) : Prop :=
  (48 ≤ c.val ∧ c.val ≤ 57) ∨ (97 ≤ c.val ∧ c.val ≤ 102) ∨ (65 ≤ c.val ∧ c.val ≤ 70)

instance (c : CodePoint) : Decidable (IsHex c) := inferInstanceAs (Decidable (_ ∨ _ ∨ _))

/-- `^0x[0-9a-fA-F]{64}$`. -/
def IsHash (s : PyStr) : Prop :=
  s.take 2 = py "0x" ∧ (s.drop 2).length = 64 ∧ ∀ c ∈ s.drop 2, IsHex c

instance (s : PyStr) : Decidable (IsHash s) :=
  have : Decidable (∀ c ∈ s.drop 2, IsHex c) := List.decidableBAll _ _
  inferInstanceAs (Decidable (_ ∧ _ ∧ _))

/-- `AnchorIntent` validates. -/
def AnchorIntent.Valid (i : AnchorIntent) : Prop :=
  (Encodable i.shardId ∧ 1 ≤ i.shardId.length ∧ i.shardId.length ≤ 64) ∧ IsHash i.lastHash ∧
    0 ≤ i.entryNonce ∧ (∀ s ∈ i.networkConfigSnapshot, s.Valid) ∧
    (∀ s ∈ i.adapterVersion, Encodable s) ∧ ∀ s ∈ i.signatureEd25519, Encodable s

/-! ### What the state machine emits -/

/-- `AnchorSubmittedEntry`. -/
structure AnchorSubmittedEntry where
  intentId : Uuid
  txHash : NonemptyText
  submittedAtMs : NonNeg
  senderNonce : NonNeg
  gasLimit : NonNeg
  gasPrice : NonNeg
  deriving DecidableEq

/-- `AnchorIncludedEntry`. -/
structure AnchorIncludedEntry where
  intentId : Uuid
  txHash : Text
  blockNonce : NonNeg
  blockHash : Text
  shard : NonNeg
  headerTimeMs : NonNeg
  consensusProofObservedAtMs : NonNeg
  deriving DecidableEq

/-- Which schema an execution result was read by. -/
inductive SchemaPath
  | supernovaLastExecutionResult
  | andromedaTopLevel
  deriving DecidableEq, Repr

/-- The text of a schema path. -/
def SchemaPath.text : SchemaPath → PyStr
  | .supernovaLastExecutionResult => py "supernova_lastExecutionResult"
  | .andromedaTopLevel => py "andromeda_top_level"

/-- The field `schema_path_used`, a literal. -/
def schemaPathUsed (s : PyStr) : Checked SchemaPath :=
  if s = SchemaPath.supernovaLastExecutionResult.text then pure .supernovaLastExecutionResult
  else if s = SchemaPath.andromedaTopLevel.text then pure .andromedaTopLevel
  else .failed [⟨py "schema_path_used", .literalError⟩]

@[simp] theorem isOk_schemaPathUsed_text (p : SchemaPath) :
    (schemaPathUsed p.text).isOk = true := by
  cases p <;> decide

/-- `AnchorSettledEntry`. -/
structure AnchorSettledEntry where
  intentId : Uuid
  executedInBlockNonce : NonNeg
  executionResultHash : Option Text
  gasUsed : NonNeg
  developerFees : Text
  settledAtMs : NonNeg
  schemaPathUsed : Option SchemaPath
  deriving DecidableEq

/-- `AnchorFailedEntry`. -/
structure AnchorFailedEntry where
  intentId : Uuid
  reason : Text
  gasUsed : Option NonNeg
  returnMessage : Text
  failedInBlockNonce : Option NonNeg
  deriving DecidableEq

/-- `AnchorRejectedEntry`. -/
structure AnchorRejectedEntry where
  intentId : Uuid
  httpStatus : HttpStatus
  proxyErrorMessage : Text
  retryEligible : Bool
  deriving DecidableEq

/-- Which threshold a timeout is about. -/
inductive TimeoutPhase
  | t1Inclusion
  | t3Settlement
  deriving DecidableEq, Repr

/-- `AnchorTimedOutEntry`. -/
structure AnchorTimedOutEntry where
  intentId : Uuid
  txHash : Text
  elapsedMs : NonNeg
  lastObservedBlockNonce : Option ℤ
  timeoutPhase : TimeoutPhase
  deriving DecidableEq

/-- `AnchorStuckEntry`. -/
structure AnchorStuckEntry where
  intentId : Uuid
  txHash : Option Text
  elapsedMs : NonNeg
  deriving DecidableEq

/-- The entries of one anchor round trip. -/
inductive AnchorLogEntry
  | submitted (e : AnchorSubmittedEntry)
  | included (e : AnchorIncludedEntry)
  | settled (e : AnchorSettledEntry)
  | failed (e : AnchorFailedEntry)
  | rejected (e : AnchorRejectedEntry)
  | timedOut (e : AnchorTimedOutEntry)
  | stuck (e : AnchorStuckEntry)
  deriving DecidableEq

/-- `intent_id` of an entry. -/
def AnchorLogEntry.intentId : AnchorLogEntry → Uuid
  | .submitted e => e.intentId
  | .included e => e.intentId
  | .settled e => e.intentId
  | .failed e => e.intentId
  | .rejected e => e.intentId
  | .timedOut e => e.intentId
  | .stuck e => e.intentId

end Mvx

end Daryl
