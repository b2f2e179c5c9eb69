import Daryl.Mvx.StateMachine
import Daryl.Dsm.Entry

/-!
# `multiversx.watcher`: from gateway responses to events

The watcher polls a gateway until a transaction is in a block, then until its outcome is
known, and yields one event for each.  What the gateway answers is arbitrary JSON, and it
may fail at any request.  The dual-schema reader makes an execution result of what the
gateway said, by one path before the Supernova upgrade and another after it.

What Python has built in and the watcher uses is a parameter: `str` of what is no string,
`str.lower`, `int` of what is no integer, and `dict` of what is no dict.

## Main definitions

* `PyBuiltins`, `Response` — the parameter, and an answer of the gateway.
* `readExecutionResult` — `DualSchemaReader.read_execution_result`.
* `watch` — `MinimalPollingWatcher.watch`.
* `ReportsTruly` — what a completed watch promises.
* `Conclusive` — when nothing pending is taken for a success.

## Main results

* `reportsTruly_iff` — **when a completed watch reports what was read.**
* `settled_while_pending` — a pending transaction reported as settled.
-/

namespace Daryl

open Py

namespace Mvx

/-! ### What the gateway says -/

/-- What a step of the watcher raises. -/
inductive WatchError
  | typeError
  | valueError
  | overflowError
  | attributeError
  | transport
  | notIncluded (maxPolls : ℤ)
  | notSettled (maxPolls : ℤ)
  | schemaUnknown
  deriving DecidableEq, Repr

/-- What the watcher takes from Python; `dict` says of the result what can be looked up
in it under a string, and whether it is empty. -/
structure PyBuiltins (F : Type) where
  str : PyVal F → PyStr
  lower : PyStr → PyStr
  int : PyVal F → Except WatchError ℤ
  dict : PyVal F → Except WatchError (List (Key F × PyVal F))

/-- An answer: a payload, or none when the request or its status raises. -/
abbrev Response (F : Type) := Option (PyVal F)

/-- A dict of fields. -/
abbrev Fields (F : Type) := List (Key F × PyVal F)

section

variable {F : Type}

namespace PyBuiltins

variable (b : PyBuiltins F)

/-- `str(v)`. -/
def strOf : PyVal F → PyStr
  | .str s => s
  | v => b.str v

/-- `int(v)`. -/
def intOf : PyVal F → Except WatchError ℤ
  | .int n => .ok n
  | .bool true => .ok 1
  | .bool false => .ok 0
  | v => b.int v

/-- `dict(v)`. -/
def dictOf : PyVal F → Except WatchError (Fields F)
  | .dict kvs => .ok kvs
  | v => b.dict v

end PyBuiltins

/-- `v.get(k)`. -/
def getOf (v : PyVal F) (k : PyStr) : Except WatchError (PyVal F) :=
  match v with
  | .dict kvs => .ok (getNone k kvs)
  | _ => .error .attributeError

/-- `v == text`. -/
def isText (text : PyStr) : PyVal F → Bool
  | .str s => s = text
  | _ => false

/-- The items of `for x in v`. -/
def iterate : PyVal F → Except WatchError (List (PyVal F))
  | .list vs => .ok vs
  | .tuple vs => .ok vs
  | .str s => .ok (s.map fun c => .str [c])
  -- the keys of a dict, none of which is a dict itself
  | .dict kvs => .ok (kvs.map fun kv => match kv.1 with | .str s => .str s | _ => .none)
  | _ => .error .typeError

variable [PyFloat F]

/-! ### Reading a transaction and a block -/

/-- `int(v or 0)`. -/
def intOrZero (b : PyBuiltins F) (v : PyVal F) : Except WatchError ℤ := b.intOf (pyOr v (.int 0))

/-- `_extract_tx`. -/
def extractTx (b : PyBuiltins F) (txResponse : PyVal F) : Except WatchError (Fields F) := do
  let data := (← getOf txResponse (py "data")).orEmpty
  b.dictOf (← getOf data (py "transaction")).orEmpty

/-- `_extract_block`.  A `data` that is a list or a text may contain `block`, but has no
item of that name. -/
def extractBlock (b : PyBuiltins F) (blockEnvelope : Fields F) : Except WatchError (Fields F) :=
  match dictGet (py "data") blockEnvelope with
  | none => .ok blockEnvelope
  | some data =>
    match data.orEmpty with
    | .dict kvs =>
      match dictGet (py "block") kvs with
      | none => .ok blockEnvelope
      | some block => b.dictOf block
    | .list vs => if vs.any (isText (py "block")) then .error .typeError else .ok blockEnvelope
    | .tuple vs => if vs.any (isText (py "block")) then .error .typeError else .ok blockEnvelope
    | .str s => if py "block" <:+: s then .error .typeError else .ok blockEnvelope
    | _ => .error .typeError

/-- `_extract_receipt_data`. -/
def extractReceiptData (b : PyBuiltins F) (tx : Fields F) : PyStr :=
  match getNone (py "receipt") tx with
  | .dict receipt => b.strOf (getNone (py "data") receipt).orText
  | _ => []

/-- `_is_tx_included_successfully`. -/
def isTxIncludedSuccessfully (tx : Fields F) : Bool :=
  isText (py "TxBlock") (getNone (py "miniblockType") tx) &&
    isText (py "success") (getNone (py "status") tx)

/-- `ExecutionResult.status`. -/
inductive ExecStatus
  | success
  | fail
  | pending
  deriving DecidableEq, Repr

/-- `_ANDROMEDA_STATUS_MAP`. -/
def andromedaStatusMap : List (PyStr × ExecStatus) :=
  [(py "success", .success), (py "fail", .fail), (py "invalid", .fail), (py "pending", .pending)]

/-- `_NON_TERMINAL_STATUS_VALUES`. -/
def nonTerminalStatusValues : List PyStr := [py "pending", py "included", py "consensus-final"]

/-- `ExecutionResult`. -/
structure ExecutionResult where
  status : ExecStatus
  executedInBlockNonce : ℤ
  executionResultHash : PyStr
  gasUsed : ℤ
  developerFees : PyStr
  returnMessage : PyStr
  schemaPathUsed : SchemaPath
  deriving DecidableEq

/-- The status `_read_andromeda` gives a transaction. -/
def andromedaStatus (b : PyBuiltins F) (tx : Fields F) : ExecStatus :=
  if isTxIncludedSuccessfully tx then .success
  else
    let statusRaw := b.lower (b.strOf ((dictGet (py "status") tx).getD (.str (py "pending"))))
    (andromedaStatusMap.lookup statusRaw).getD .pending

/-- `_read_andromeda`. -/
def readAndromeda (b : PyBuiltins F) (tx : Fields F) (containingBlock : Option (Fields F)) :
    Except WatchError ExecutionResult := do
  let status := andromedaStatus b tx
  let blockNonce ← intOrZero b (getNone (py "blockNonce") tx)
  let containing := containingBlock.getD []
  return {
    status := status
    executedInBlockNonce := blockNonce
    executionResultHash := b.strOf ((dictGet (py "rootHash") containing).getD (.str []))
    gasUsed := ← intOrZero b (getNone (py "gasUsed") tx)
    developerFees := b.strOf ((dictGet (py "developerFees") containing).getD (.str (py "0")))
    returnMessage := extractReceiptData b tx
    schemaPathUsed := .andromedaTopLevel }

/-- `any(p(x) for x in xs)`, where the test may raise. -/
def anyM (p : PyVal F → Except WatchError Bool) : List (PyVal F) → Except WatchError Bool
  | [] => .ok false
  | v :: vs => do if ← p v then return true else anyM p vs

/-- `int(v or 0) > 0`, where a `TypeError` or a `ValueError` counts as no. -/
def isPositive (b : PyBuiltins F) (v : PyVal F) : Except WatchError Bool :=
  match intOrZero b v with
  | .ok n => .ok (decide (0 < n))
  | .error .typeError => .ok false
  | .error .valueError => .ok false
  | .error e => .error e

/-- `_signal_invalid_block_miniblock`. -/
def signalInvalidBlockMiniblock (execResult : PyVal F) : Except WatchError Bool := do
  let headers := pyOr (← getOf execResult (py "miniBlockHeaders")) (.list [])
  anyM (fun mb => do return isText (py "InvalidBlock") (← getOf mb (py "type"))) (← iterate headers)

/-- `_signal_failed_tx_count`. -/
def signalFailedTxCount (b : PyBuiltins F) (execResult : PyVal F) : Except WatchError Bool := do
  isPositive b (← getOf execResult (py "failedTxCount"))

/-- `_signal_tx_miniblock_type_invalid`. -/
def signalTxMiniblockTypeInvalid (tx : Fields F) : Bool :=
  isText (py "InvalidBlock") (getNone (py "miniblockType") tx)

/-- `_classify_supernova_non_fail`. -/
def classifySupernovaNonFail (b : PyBuiltins F) (execResult : PyVal F) (tx : Fields F) :
    Except WatchError ExecStatus := do
  let executed ← isPositive b (← getOf execResult (py "executedTxCount"))
  let headers := pyOr (← getOf execResult (py "miniBlockHeaders")) (.list [])
  let hasTxBlock ← anyM (fun mb => do return isText (py "TxBlock") (← getOf mb.orEmpty (py "type")))
    (← iterate headers)
  if hasTxBlock && executed then return .success
  else
    let txStatus := b.lower (b.strOf (pyOr (getNone (py "status") tx) (.str (py "pending"))))
    if txStatus ∈ nonTerminalStatusValues then return .pending
    -- the transaction says so, the block does not yet
    else if txStatus = py "success" then return .pending
    else return .pending

/-- `_read_supernova`. -/
def readSupernova (b : PyBuiltins F) (tx : Fields F) (settlingBlock : Option (Fields F)) :
    Except WatchError ExecutionResult :=
  match settlingBlock with
  | none => .ok ⟨.pending, 0, [], 0, py "0", [], .supernovaLastExecutionResult⟩
  | some settlingBlock => do
    let settling ← extractBlock b settlingBlock
    let execResult := (getNone (py "lastExecutionResult") settling).orEmpty
    let base := (← getOf execResult (py "baseExecutionResult")).orEmpty
    let invalidBlock ← signalInvalidBlockMiniblock execResult
    let failedCount ← signalFailedTxCount b execResult
    let status ←
      if invalidBlock || failedCount || signalTxMiniblockTypeInvalid tx then pure ExecStatus.fail
      else classifySupernovaNonFail b execResult tx
    let nonce := getNone (py "nonce") settling
    let executedInNonce ←
      if nonce.truthy then b.intOf nonce
      else do
        let header ← getOf base (py "headerNonce")
        b.intOf (pyOr header (pyOr (getNone (py "executedInBlockNonce") tx) (.int 0)))
    let rootHash := b.strOf (pyOr (← getOf base (py "rootHash"))
      (← getOf execResult (py "rootHash")).orText)
    return {
      status := status
      executedInBlockNonce := executedInNonce
      executionResultHash := rootHash
      gasUsed := ← intOrZero b (← getOf execResult (py "gasUsed"))
      developerFees := b.strOf (pyOr (← getOf execResult (py "developerFees")) (.str (py "0")))
      returnMessage := extractReceiptData b tx
      schemaPathUsed := .supernovaLastExecutionResult }

/-- `sdk_schema`. -/
inductive SdkSchema
  | legacyOnly
  | dual
  | newOnly
  deriving DecidableEq, Repr

/-- The block names a last execution result. -/
def hasDiscriminator (block : Fields F) : Bool :=
  (dictGet (py "lastExecutionResult") block).isSome ||
    (dictGet (py "lastExecutionResultInfo") block).isSome

/-- The containing block as the reader looks at it; an empty one is none. -/
def containingOf (b : PyBuiltins F) : Option (Fields F) → Except WatchError (Option (Fields F))
  | some (kv :: kvs) => some <$> extractBlock b (kv :: kvs)
  | _ => pure none

/-- `DualSchemaReader.read_execution_result`. -/
def readExecutionResult (b : PyBuiltins F) (sdkSchema : SdkSchema) (txResponse : PyVal F)
    (containingBlock settlingBlock : Option (Fields F)) : Except WatchError ExecutionResult := do
  let tx ← extractTx b txResponse
  let containing ← containingOf b containingBlock
  if containing.any hasDiscriminator then
    if sdkSchema = .legacyOnly then throw .schemaUnknown
    else readSupernova b tx settlingBlock
  else if sdkSchema = .newOnly then throw .schemaUnknown
  else readAndromeda b tx containing

/-! ### Watching -/

/-- `MinimalPollingWatcher`. -/
structure MinimalPollingWatcher where
  sdkSchema : SdkSchema
  maxPolls : ℤ

/-- `AnchorSubmissionReceipt`, as far as the watcher reads it. -/
structure AnchorSubmissionReceipt where
  intentId : Uuid
  txHash : Text

/-- The next answer, or `transport` when the request raises. -/
def get : List (Response F) → Except WatchError (PyVal F × List (Response F))
  | some payload :: responses => .ok (payload, responses)
  | _ => .error .transport

/-- `_fetch_tx`. -/
def fetchTx (b : PyBuiltins F) (responses : List (Response F)) :
    Except WatchError (Fields F × List (Response F)) := do
  let (payload, responses) ← get responses
  let data := (← getOf payload (py "data")).orEmpty
  return (← b.dictOf (← getOf data (py "transaction")).orEmpty, responses)

/-- `_fetch_block`, of whatever shard and nonce. -/
def fetchBlock (b : PyBuiltins F) (responses : List (Response F)) :
    Except WatchError (Fields F × List (Response F)) := do
  let (payload, responses) ← get responses
  let data := (← getOf payload (py "data")).orEmpty
  return (← b.dictOf (← getOf data (py "block")).orEmpty, responses)

/-- The loop of `_poll_until_included`: the first transaction with a block nonce. -/
def pollTx (b : PyBuiltins F) (maxPolls : ℤ) : ℕ → List (Response F) →
    Except WatchError (Fields F × List (Response F))
  | 0, _ => .error (.notIncluded maxPolls)
  | n + 1, responses => do
    let (tx, responses) ← fetchTx b responses
    if (getNone (py "blockNonce") tx).truthy then return (tx, responses)
    else pollTx b maxPolls n responses

/-- `_poll_until_included`. -/
def pollUntilIncluded (b : PyBuiltins F) (maxPolls : ℤ) (responses : List (Response F)) :
    Except WatchError (Fields F × Fields F × List (Response F)) := do
  let (tx, responses) ← pollTx b maxPolls maxPolls.toNat responses
  -- the shard and the nonce the block is asked for by
  let _ ← intOrZero b (getNone (py "sourceShard") tx)
  let _ ← b.intOf (getNone (py "blockNonce") tx)
  let (block, responses) ← fetchBlock b responses
  return (tx, block, responses)

/-- `_ts_to_ms`. -/
def tsToMs (b : PyBuiltins F) (ts : PyVal F) : Except WatchError ℤ :=
  match intOrZero b ts with
  | .ok n => .ok (if n < 10 ^ 12 then n * 1000 else n)
  | .error .typeError => .ok 0
  | .error .valueError => .ok 0
  | .error e => .error e

/-- The `IncludeEvent` of `watch`. -/
def includeEvent (b : PyBuiltins F) (receipt : AnchorSubmissionReceipt) (tx block : Fields F) :
    Except WatchError IncludeEvent := do
  return {
    intentId := receipt.intentId
    txHash := receipt.txHash
    blockNonce := ← intOrZero b (getNone (py "blockNonce") tx)
    blockHash := b.strOf (getNone (py "blockHash") tx).orText
    shard := ← intOrZero b (getNone (py "sourceShard") tx)
    headerTimeMs := ← tsToMs b (getNone (py "timestamp") block)
    consensusProofObservedAtMs := 0 }

/-- `_build_terminal_event`. -/
def buildTerminalEvent (b : PyBuiltins F) (receipt : AnchorSubmissionReceipt)
    (result : ExecutionResult) (settledBlockTs : PyVal F) :
    Except WatchError AnchorTransitionEvent :=
  if result.status = .fail then
    .ok (.execFail {
      intentId := receipt.intentId
      reason := if result.returnMessage = [] then py "execution_failed_on_chain"
        else result.returnMessage
      gasUsed := result.gasUsed
      returnMessage := result.returnMessage
      failedInBlockNonce := result.executedInBlockNonce })
  else do
    return .execSuccess {
      intentId := receipt.intentId
      executedInBlockNonce := result.executedInBlockNonce
      executionResultHash := result.executionResultHash
      gasUsed := result.gasUsed
      developerFees := result.developerFees
      settledAtMs := ← tsToMs b settledBlockTs
      schemaPathUsed := result.schemaPathUsed.text }

/-- `{"data": {"transaction": tx}}`. -/
def txResponse (tx : Fields F) : PyVal F :=
  .dict [(.str (py "data"), .dict [(.str (py "transaction"), .dict tx)])]

/-- The nonce the settling block is asked for by. -/
def settlingNonce (b : PyBuiltins F) (tx freshTx : Fields F) : Except WatchError ℤ :=
  let executedIn := getNone (py "executedInBlockNonce") freshTx
  if executedIn.truthy then b.intOf executedIn
  else (· + 1) <$> intOrZero b (getNone (py "blockNonce") tx)

/-- The loop of `watch` on the Supernova path: the first result that is not pending, with
the settling block it was read from. -/
def pollUntilSettled (b : PyBuiltins F) (w : MinimalPollingWatcher) (tx containing : Fields F) :
    ℕ → List (Response F) → Except WatchError (ExecutionResult × Fields F)
  | 0, _ => .error (.notSettled w.maxPolls)
  | n + 1, responses => do
    let (freshTx, responses) ← fetchTx b responses
    let _ ← settlingNonce b tx freshTx
    let (settlingBlock, responses) ← fetchBlock b responses
    let result ← readExecutionResult b w.sdkSchema (txResponse freshTx) (some containing)
      (some settlingBlock)
    if result.status ≠ .pending then return (result, settlingBlock)
    else pollUntilSettled b w tx containing n responses

/-- The result the terminal event of `watch` is built from, and the time stamp of its
block. -/
def settlement (b : PyBuiltins F) (w : MinimalPollingWatcher) (tx containing : Fields F)
    (preliminary : ExecutionResult) (responses : List (Response F)) :
    Except WatchError (ExecutionResult × PyVal F) :=
  if preliminary.schemaPathUsed = .andromedaTopLevel then
    .ok (preliminary, getNone (py "timestamp") containing)
  else do
    let _ ← intOrZero b (getNone (py "sourceShard") tx)
    let (result, settlingBlock) ← pollUntilSettled b w tx containing w.maxPolls.toNat responses
    return (result, getNone (py "timestamp") settlingBlock)

/-- What a watch yielded, the status its terminal event stands for, and what it raised. -/
structure Watched where
  events : List AnchorTransitionEvent
  classified : Option ExecStatus
  raised : Option WatchError
  deriving DecidableEq

/-- `MinimalPollingWatcher.watch`, iterated to its end. -/
def watch (b : PyBuiltins F) (w : MinimalPollingWatcher) (receipt : AnchorSubmissionReceipt)
    (responses : List (Response F)) : Watched :=
  match pollUntilIncluded b w.maxPolls responses with
  | .error e => ⟨[], none, some e⟩
  | .ok (tx, containing, responses) =>
    match readExecutionResult b w.sdkSchema (txResponse tx) (some containing) none with
    | .error e => ⟨[], none, some e⟩
    | .ok preliminary =>
      match includeEvent b receipt tx containing with
      | .error e => ⟨[], none, some e⟩
      | .ok included =>
        match settlement b w tx containing preliminary responses with
        | .error e => ⟨[.include included], none, some e⟩
        | .ok (result, settledBlockTs) =>
          match buildTerminalEvent b receipt result settledBlockTs with
          | .error e => ⟨[.include included], none, some e⟩
          | .ok event => ⟨[.include included, event], some result.status, none⟩

/-! ### What a completed watch promises -/

/-- The events lead from `SUBMITTED` through `INCLUDED` to a terminal state, and the
auditor finds the entries in order only when the execution was read as a success. -/
def ReportsTruly (seen : Watched) (regime : EpochRegime) : Prop :=
  ∃ included terminal inclusion outcome, seen.events = [included, terminal] ∧
    nextState .submitted included regime = .ok inclusion ∧ inclusion.newState = .included ∧
    nextState inclusion.newState terminal regime = .ok outcome ∧
    isTerminal outcome.newState = true ∧
    ((verifyAnchorChain [inclusion.entryToEmit, outcome.entryToEmit]).verdict = .ok →
      seen.classified = some .success)

/-- The containing block names a last execution result. -/
def Discriminated (b : PyBuiltins F) (containing : Fields F) : Prop :=
  ∃ block, containingOf b (some containing) = .ok (some block) ∧ hasDiscriminator block = true

/-- The transaction has a status that says how it ended. -/
def Decided (b : PyBuiltins F) (tx : Fields F) : Prop :=
  isTxIncludedSuccessfully tx = true ∨
    b.lower (b.strOf ((dictGet (py "status") tx).getD (.str (py "pending")))) ∈
      [py "success", py "fail", py "invalid"]

/-- Not a negative number. -/
def Natural (n : Except WatchError ℤ) : Prop := ∀ k, n = .ok k → 0 ≤ k

/-- What the entry of the inclusion takes from the gateway fits it. -/
structure InclusionFits (b : PyBuiltins F) (tx block : Fields F) : Prop where
  blockNonce : Natural (intOrZero b (getNone (py "blockNonce") tx))
  blockHash : Encodable (b.strOf (getNone (py "blockHash") tx).orText)
  shard : Natural (intOrZero b (getNone (py "sourceShard") tx))
  headerTimeMs : Natural (tsToMs b (getNone (py "timestamp") block))

/-- An execution result fits the entry it is written to: that of a failure, or that of
a success. -/
def ExecutionResult.Fits (b : PyBuiltins F) (r : ExecutionResult) (settledBlockTs : PyVal F) :
    Prop :=
  0 ≤ r.executedInBlockNonce ∧ 0 ≤ r.gasUsed ∧
    if r.status = .fail then Encodable r.returnMessage
    else Encodable r.executionResultHash ∧ Encodable r.developerFees ∧
      Natural (tsToMs b settledBlockTs)

/-- What the gateway says of the outcome fits the entry. -/
def OutcomeFits (b : PyBuiltins F) (w : MinimalPollingWatcher) (tx containing : Fields F)
    (responses : List (Response F)) : Prop :=
  ∀ preliminary result settledBlockTs,
    readExecutionResult b w.sdkSchema (txResponse tx) (some containing) none = .ok preliminary →
    settlement b w tx containing preliminary responses = .ok (result, settledBlockTs) →
    result.Fits b settledBlockTs

/-- No result still pending is taken for a success, and all that is written fits. -/
structure Conclusive (b : PyBuiltins F) (w : MinimalPollingWatcher) (tx containing : Fields F)
    (responses : List (Response F)) : Prop where
  decided : Discriminated b containing ∨ Decided b tx
  inclusion : InclusionFits b tx containing
  outcome : OutcomeFits b w tx containing responses

/-! ### The reader -/

theorem ok_of_bind {α β : Type} {x : Except WatchError α} {f : α → Except WatchError β} {c : β}
    (h : x >>= f = .ok c) : ∃ a, x = .ok a ∧ f a = .ok c := by
  cases x with
  | error e => cases h
  | ok a => exact ⟨a, rfl, h⟩

@[simp] theorem extractTx_txResponse (b : PyBuiltins F) (tx : Fields F) :
    extractTx b (txResponse tx) = .ok tx := by
  cases tx <;> rfl

theorem lookup_ne_pending {s : PyStr} :
    (andromedaStatusMap.lookup s).getD .pending ≠ .pending ↔
      s ∈ [py "success", py "fail", py "invalid"] := by
  simp only [andromedaStatusMap, List.lookup_cons, List.lookup_nil, List.mem_cons,
    List.not_mem_nil, or_false]
  rw [← beq_iff_eq (b := py "success"), ← beq_iff_eq (b := py "fail"),
    ← beq_iff_eq (b := py "invalid")]
  -- one entry of the map after the other
  cases s == py "success" <;> cases s == py "fail" <;> cases s == py "invalid" <;>
    cases s == py "pending" <;> simp

omit [PyFloat F] in
theorem andromedaStatus_ne_pending {b : PyBuiltins F} {tx : Fields F} :
    andromedaStatus b tx ≠ .pending ↔ Decided b tx := by
  unfold andromedaStatus Decided
  split
  · next h => simp [h]
  · next h =>
    rw [lookup_ne_pending]
    simp [h]

/-- Whether the containing block is discriminated, from the block the reader looks at. -/
theorem discriminated_iff {b : PyBuiltins F} {containing : Fields F} {block : Option (Fields F)}
    (h : containingOf b (some containing) = .ok block) :
    Discriminated b containing ↔ block.any hasDiscriminator = true := by
  unfold Discriminated
  rw [h]
  cases block with
  | none => simp
  | some block => simp

/-- The first reading, before any settling block: by the Supernova path exactly when the
containing block is discriminated, else with the status of the transaction. -/
theorem preliminary_spec {b : PyBuiltins F} {schema : SdkSchema} {tx containing : Fields F}
    {r : ExecutionResult}
    (h : readExecutionResult b schema (txResponse tx) (some containing) none = .ok r) :
    (Discriminated b containing ∧ r.schemaPathUsed = .supernovaLastExecutionResult) ∨
      (¬Discriminated b containing ∧ r.schemaPathUsed = .andromedaTopLevel ∧
        r.status = andromedaStatus b tx) := by
  unfold readExecutionResult at h
  obtain ⟨tx', htx, h⟩ := ok_of_bind h
  rw [extractTx_txResponse, Except.ok.injEq] at htx
  subst htx
  obtain ⟨block, hblock, h⟩ := ok_of_bind h
  rw [discriminated_iff hblock]
  by_cases hdis : block.any hasDiscriminator = true
  · rw [if_pos hdis] at h
    refine .inl ⟨hdis, ?_⟩
    split at h
    · cases h
    · rw [← Except.ok.inj h]
  · rw [if_neg hdis] at h
    refine .inr ⟨hdis, ?_⟩
    split at h
    · cases h
    · unfold readAndromeda at h
      obtain ⟨nonce, -, h⟩ := ok_of_bind h
      obtain ⟨gas, -, h⟩ := ok_of_bind h
      rw [← Except.ok.inj h]
      exact ⟨rfl, rfl⟩

/-! ### The watch -/

/-- The poll for a settling block ends with a result that is not pending. -/
theorem pollUntilSettled_status {b : PyBuiltins F} {w : MinimalPollingWatcher}
    {tx containing : Fields F} {n : ℕ} {responses : List (Response F)} {r : ExecutionResult}
    {block : Fields F} (h : pollUntilSettled b w tx containing n responses = .ok (r, block)) :
    r.status ≠ .pending := by
  induction n generalizing responses with
  | zero => cases h
  | succ n ih =>
    rw [pollUntilSettled] at h
    obtain ⟨⟨freshTx, responses₁⟩, -, h⟩ := ok_of_bind h
    obtain ⟨nonce, -, h⟩ := ok_of_bind h
    obtain ⟨⟨settlingBlock, responses₂⟩, -, h⟩ := ok_of_bind h
    obtain ⟨result, -, h⟩ := ok_of_bind h
    split at h
    · next hstatus =>
      cases h
      exact hstatus
    · exact ih h

/-- The result a terminal event is built from is pending only when it is the first one
and the path is Andromeda's. -/
theorem settlement_status {b : PyBuiltins F} {w : MinimalPollingWatcher} {tx containing : Fields F}
    {preliminary r : ExecutionResult} {responses : List (Response F)} {ts : PyVal F}
    (h : settlement b w tx containing preliminary responses = .ok (r, ts)) :
    r.status = .pending ↔
      preliminary.schemaPathUsed = .andromedaTopLevel ∧ preliminary.status = .pending := by
  unfold settlement at h
  split at h
  · next hpath =>
    cases h
    exact ⟨fun hs => ⟨hpath, hs⟩, fun hs => hs.2⟩
  · next hpath =>
    obtain ⟨shard, -, h⟩ := ok_of_bind h
    obtain ⟨⟨result, block⟩, hpoll, h⟩ := ok_of_bind h
    cases h
    exact iff_of_false (pollUntilSettled_status hpoll) fun hs => hpath hs.1

/-- **A watch that ends without raising**, step by step. -/
theorem watch_completes {b : PyBuiltins F} {w : MinimalPollingWatcher}
    {receipt : AnchorSubmissionReceipt} {responses : List (Response F)}
    (h : (watch b w receipt responses).raised = none) :
    ∃ tx containing rest preliminary included result ts event,
      pollUntilIncluded b w.maxPolls responses = .ok (tx, containing, rest) ∧
      readExecutionResult b w.sdkSchema (txResponse tx) (some containing) none = .ok preliminary ∧
      includeEvent b receipt tx containing = .ok included ∧
      settlement b w tx containing preliminary rest = .ok (result, ts) ∧
      buildTerminalEvent b receipt result ts = .ok event ∧
      watch b w receipt responses = ⟨[.include included, event], some result.status, none⟩ := by
  unfold watch at h ⊢
  split at h
  · cases h
  next tx containing rest hpoll =>
  split at h
  · cases h
  next preliminary hpre =>
  split at h
  · cases h
  next included hinc =>
  split at h
  · cases h
  next result ts hset =>
  split at h
  · cases h
  next event hevent =>
  exact ⟨tx, containing, rest, preliminary, included, result, ts, event, hpoll, hpre, hinc, hset,
    hevent, rfl⟩

/-! ### The events in the state machine -/

theorem natural_ok {n : ℤ} : Natural (.ok n) ↔ 0 ≤ n :=
  ⟨fun h => h n rfl, fun h _ hk => Except.ok.inj hk ▸ h⟩

omit [PyFloat F] in
/-- What a handler emits, when its entry validates. -/
theorem exists_emit (state : AnchorState) {entry : Checked AnchorLogEntry} :
    (∃ result, emit state entry = .ok result) ↔ entry.isOk = true := by
  cases entry with
  | ok e => simp [emit]
  | failed es => simp [emit]

/-- The entry of the inclusion validates when what the gateway said fits. -/
theorem isOk_includedEntry {b : PyBuiltins F} {receipt : AnchorSubmissionReceipt}
    {tx block : Fields F} {event : IncludeEvent} (h : includeEvent b receipt tx block = .ok event) :
    (includedEntry event).isOk = true ↔ InclusionFits b tx block := by
  unfold includeEvent at h
  obtain ⟨blockNonce, hnonce, h⟩ := ok_of_bind h
  obtain ⟨shard, hshard, h⟩ := ok_of_bind h
  obtain ⟨time, htime, h⟩ := ok_of_bind h
  rw [← Except.ok.inj h]
  have htx := receipt.txHash.property
  unfold includedEntry
  simp only [Validated.isOk_map, Validated.isOk_seq, Bool.and_eq_true, isOk_str, isOk_nonNeg]
  constructor
  · rintro ⟨⟨⟨⟨⟨-, h₁⟩, h₂⟩, h₃⟩, h₄⟩, -⟩
    exact ⟨hnonce ▸ natural_ok.mpr h₁, h₂, hshard ▸ natural_ok.mpr h₃, htime ▸ natural_ok.mpr h₄⟩
  · rintro ⟨h₁, h₂, h₃, h₄⟩
    exact ⟨⟨⟨⟨⟨htx, h₁ _ hnonce⟩, h₂⟩, h₃ _ hshard⟩, h₄ _ htime⟩, le_rfl⟩

/-- The entry of the outcome validates when what the gateway said fits, and it is that of
a failure exactly when the result is one. -/
theorem terminal_spec {b : PyBuiltins F} {receipt : AnchorSubmissionReceipt} {r : ExecutionResult}
    {ts : PyVal F} {event : AnchorTransitionEvent} (regime : EpochRegime)
    (h : buildTerminalEvent b receipt r ts = .ok event) :
    (r.status = .fail → ∃ e, nextState .included event regime = emit .failed (failedEntry e) ∧
      ((failedEntry e).isOk = true ↔ r.Fits b ts)) ∧
    (r.status ≠ .fail → ∃ e, nextState .included event regime = emit .settled (settledEntry e) ∧
      ((settledEntry e).isOk = true ↔ r.Fits b ts)) := by
  unfold buildTerminalEvent at h
  split at h
  · next hfail =>
    cases h
    refine ⟨fun _ => ⟨_, rfl, ?_⟩, fun hne => absurd hfail hne⟩
    have hreason : Encodable (if r.returnMessage = [] then py "execution_failed_on_chain"
        else r.returnMessage) ↔ Encodable r.returnMessage := by
      split
      · next hnil => exact iff_of_true (by decide +kernel) (hnil ▸ encodable_nil)
      · rfl
    unfold failedEntry ExecutionResult.Fits
    simp only [Validated.isOk_map, Validated.isOk_seq, Bool.and_eq_true, isOk_str, isOk_nonNeg,
      hreason, hfail, if_true]
    tauto
  · next hfail =>
    obtain ⟨settledAt, hts, h⟩ := ok_of_bind h
    cases h
    refine ⟨fun hf => absurd hf hfail, fun _ => ⟨_, rfl, ?_⟩⟩
    unfold settledEntry ExecutionResult.Fits
    simp only [Validated.isOk_map, Validated.isOk_seq, Bool.and_eq_true, isOk_str, isOk_nonNeg,
      isOk_schemaPathUsed_text, hfail, if_false, hts, natural_ok]
    tauto

omit [PyFloat F] in
/-- The step on an inclusion. -/
theorem nextState_include {event : IncludeEvent} {regime : EpochRegime} {result : TransitionResult}
    (h : nextState .submitted (.include event) regime = .ok result) :
    result.newState = .included ∧ ∃ e, result.entryToEmit = .included e := by
  obtain ⟨hentry, hstate⟩ := emit_eq_ok.mp (show emit .included (includedEntry event) = _ from h)
  obtain ⟨e, -, he⟩ := Validated.map_eq_ok.mp hentry
  exact ⟨hstate, e, he.symm⟩

/-- A result is pending when neither the block nor the transaction says how it ended. -/
theorem status_ne_pending_iff {b : PyBuiltins F} {w : MinimalPollingWatcher}
    {tx containing : Fields F} {preliminary r : ExecutionResult} {responses : List (Response F)}
    {ts : PyVal F}
    (hpre : readExecutionResult b w.sdkSchema (txResponse tx) (some containing) none =
      .ok preliminary)
    (hset : settlement b w tx containing preliminary responses = .ok (r, ts)) :
    r.status ≠ .pending ↔ Discriminated b containing ∨ Decided b tx := by
  rw [ne_eq, settlement_status hset, ← andromedaStatus_ne_pending]
  rcases preliminary_spec hpre with ⟨hdis, hpath⟩ | ⟨hdis, hpath, hstatus⟩
  · rw [hpath]
    simp [hdis]
  · rw [hpath, hstatus]
    simp [hdis]

/-- **When a completed watch reports what was read**: when the containing block is
discriminated or the transaction says how it ended, and what the gateway said fits the
entries. -/
theorem reportsTruly_iff (b : PyBuiltins F) (w : MinimalPollingWatcher)
    (receipt : AnchorSubmissionReceipt) (responses : List (Response F)) (regime : EpochRegime)
    (h : (watch b w receipt responses).raised = none) :
    ReportsTruly (watch b w receipt responses) regime ↔
      ∀ tx containing rest,
        pollUntilIncluded b w.maxPolls responses = .ok (tx, containing, rest) →
        Conclusive b w tx containing rest := by
  obtain ⟨tx, containing, rest, preliminary, event, result, ts, terminal, hpoll, hpre, hinc, hset,
    hterm, hwatch⟩ := watch_completes h
  obtain ⟨hfail, hsucceed⟩ := terminal_spec regime hterm
  have hinclude : nextState .submitted (.include event) regime =
      emit .included (includedEntry event) := rfl
  rw [hwatch]
  constructor
  · rintro ⟨_, _, inclusion, outcome, hevents, hfirst, hincluded, hsecond, -, hok⟩ tx' containing'
      rest' hpoll'
    rw [hpoll, Except.ok.injEq, Prod.mk.injEq, Prod.mk.injEq] at hpoll'
    obtain ⟨rfl, rfl, rfl⟩ := hpoll'
    obtain ⟨rfl, rfl⟩ : _ = _ ∧ _ = _ := by simpa using hevents
    have hfits : result.Fits b ts ∧ result.status ≠ .pending := by
      rw [hincluded] at hsecond
      by_cases hstatus : result.status = .fail
      · obtain ⟨e, hnext, hiff⟩ := hfail hstatus
        rw [hnext] at hsecond
        exact ⟨hiff.mp ((exists_emit _).mp ⟨_, hsecond⟩), by rw [hstatus]; decide⟩
      · obtain ⟨e, hnext, hiff⟩ := hsucceed hstatus
        rw [hnext] at hsecond
        refine ⟨hiff.mp ((exists_emit _).mp ⟨_, hsecond⟩), ?_⟩
        -- the auditor finds the entries in order, so the result was a success
        obtain ⟨-, e₁, he₁⟩ := nextState_include hfirst
        obtain ⟨e₂, -, he₂⟩ := Validated.map_eq_ok.mp (emit_eq_ok.mp hsecond).1
        have hsuccess := hok (by rw [he₁, ← he₂]; rfl)
        rw [Option.some.inj hsuccess]
        decide
    refine ⟨(status_ne_pending_iff hpre hset).mp hfits.2,
      (isOk_includedEntry hinc).mp ((exists_emit _).mp ⟨_, hinclude ▸ hfirst⟩), ?_⟩
    intro preliminary' result' ts' hpre' hset'
    obtain rfl := Except.ok.inj (hpre.symm.trans hpre')
    obtain ⟨rfl, rfl⟩ := Prod.mk.inj (Except.ok.inj (hset.symm.trans hset'))
    exact hfits.1
  · intro hconclusive
    obtain ⟨hdecided, hinclusion, houtcome⟩ := hconclusive tx containing rest hpoll
    have hfits := houtcome _ _ _ hpre hset
    have hpending := (status_ne_pending_iff hpre hset).mpr hdecided
    obtain ⟨inclusion, hfirst⟩ := (exists_emit .included).mpr
      ((isOk_includedEntry hinc).mpr hinclusion)
    obtain ⟨hincluded, e₁, he₁⟩ := nextState_include (hinclude.trans hfirst)
    by_cases hstatus : result.status = .fail
    · obtain ⟨e, hnext, hiff⟩ := hfail hstatus
      obtain ⟨outcome, hout⟩ := (exists_emit .failed).mpr (hiff.mpr hfits)
      obtain ⟨hentry, hstate⟩ := emit_eq_ok.mp hout
      obtain ⟨e₂, -, he₂⟩ := Validated.map_eq_ok.mp hentry
      refine ⟨_, _, inclusion, outcome, rfl, hinclude.trans hfirst, hincluded, ?_, ?_, ?_⟩
      · rw [hincluded, hnext, hout]
      · rw [hstate]
        rfl
      · rw [he₁, ← he₂]
        exact fun hok => nomatch hok
    · obtain ⟨e, hnext, hiff⟩ := hsucceed hstatus
      obtain ⟨outcome, hout⟩ := (exists_emit .settled).mpr (hiff.mpr hfits)
      refine ⟨_, _, inclusion, outcome, rfl, hinclude.trans hfirst, hincluded, ?_, ?_, fun _ => ?_⟩
      · rw [hincluded, hnext, hout]
      · rw [(emit_eq_ok.mp hout).2]
        rfl
      · -- neither a failure nor pending
        revert hstatus hpending
        cases result.status <;> simp

end

/-! ### A transaction that is in a block and pending -/

/-- Built-in functions on what the samples hold: texts in lower case, whole numbers and
dicts. -/
def sampleBuiltins : PyBuiltins FloatLit where
  str _ := []
  lower s := s
  int _ := .error .typeError
  dict _ := .error .typeError

/-- A watcher. -/
def sampleWatcher : MinimalPollingWatcher := ⟨.dual, 20⟩

/-- A receipt. -/
def sampleReceipt : AnchorSubmissionReceipt := ⟨Uuid.zero, py "ab", by decide +kernel⟩

/-- A gateway that answers with a transaction of a status, in a block without a
discriminator. -/
def sampleResponses (status : PyStr) : List (Response FloatLit) :=
  [some (.dict [(.str (py "data"), .dict [(.str (py "transaction"),
      .dict [(.str (py "blockNonce"), .int 7), (.str (py "status"), .str status)])])]),
    some (.dict [(.str (py "data"), .dict [(.str (py "block"),
      .dict [(.str (py "rootHash"), .str (py "cd")), (.str (py "timestamp"), .int 1700000000)])])])]

/-- When the watch of a transaction reports truly, for one that failed. -/
theorem reportsTruly_iff_failed :
    ReportsTruly (watch sampleBuiltins sampleWatcher sampleReceipt
        (sampleResponses (py "invalid"))) .andromeda ↔
      ∀ tx containing rest,
        pollUntilIncluded sampleBuiltins sampleWatcher.maxPolls (sampleResponses (py "invalid")) =
          .ok (tx, containing, rest) →
        Conclusive sampleBuiltins sampleWatcher tx containing rest :=
  reportsTruly_iff sampleBuiltins sampleWatcher sampleReceipt (sampleResponses (py "invalid"))
    .andromeda (by decide +kernel)

/-- **A pending transaction reported as settled.** -/
theorem settled_while_pending :
    (watch sampleBuiltins sampleWatcher sampleReceipt (sampleResponses (py "pending"))).raised =
      none ∧
    (watch sampleBuiltins sampleWatcher sampleReceipt
      (sampleResponses (py "pending"))).classified = some .pending ∧
    (Run.run advance ⟨.submitted, []⟩ ((watch sampleBuiltins sampleWatcher sampleReceipt
      (sampleResponses (py "pending"))).events.map fun e => (e, .andromeda))).state = .settled ∧
    (verifyAnchorChain (Run.run advance ⟨.submitted, []⟩ ((watch sampleBuiltins sampleWatcher
      sampleReceipt (sampleResponses (py "pending"))).events.map fun e =>
        (e, .andromeda))).entries).verdict = .ok := by
  decide +kernel

end Mvx

end Daryl
