import Daryl.Py.Str

/-!
# `prl.swarm.types`: the records of a run

A run of a swarm is told by records of six kinds, each with an id of its own and the
id of its run.  They are claims, opinions and decisions; what they add up to is derived
elsewhere.  The fields that no derivation reads are left out.

## Main definitions

* `SwarmKind`, `SwarmRecord` — the kinds and the records.
* `SwarmRecord.swarmRunId`, `SwarmRecord.ownId` — the run and the id of a record.
* `recordId` — the id that a diagnostic names a record by.
-/

namespace Daryl

open Py

/-- `SwarmKind`. -/
inductive SwarmKind
  | run
  | task
  | work
  | review
  | decision
  | conflict
  deriving DecidableEq

/-- `RunStatus`. -/
inductive RunStatus
  | opened
  | closed
  | aborted
  deriving DecidableEq

/-- `TaskStatus`. -/
inductive TaskStatus
  | delegated
  | inProgress
  | claimedDone
  | accepted
  | abandoned
  | blocked
  deriving DecidableEq

/-- `DecisionStatus`. -/
inductive DecisionStatus
  | proposed
  | accepted
  | superseded
  | rejected
  deriving DecidableEq

/-- `ReviewVerdict`. -/
inductive ReviewVerdict
  | approve
  | reject
  | inconclusive
  deriving DecidableEq

/-- `ConflictState`. -/
inductive ConflictState
  | opened
  | acknowledged
  | resolved
  deriving DecidableEq

/-- The opening of a run. -/
structure SwarmRun where
  swarmRunId : PyStr
  status : RunStatus
  deriving DecidableEq

/-- A delegated unit of work. -/
structure TaskNode where
  taskNodeId : PyStr
  swarmRunId : PyStr
  status : TaskStatus
  parentTaskNodeId : Option PyStr
  deriving DecidableEq

/-- A claim of work done. -/
structure WorkReceipt where
  workId : PyStr
  swarmRunId : PyStr
  taskNodeId : Option PyStr
  requiredChecks : List PyStr
  claimedChecks : List PyStr
  limitations : List PyStr
  deriving DecidableEq

/-- A review. -/
structure ReviewReceipt where
  reviewId : PyStr
  swarmRunId : PyStr
  reviewedRef : PyStr
  limitations : List PyStr
  verdict : Option ReviewVerdict
  deriving DecidableEq

/-- A decision with its declared bases. -/
structure DecisionReceipt where
  decisionId : PyStr
  swarmRunId : PyStr
  subjectId : PyStr
  status : DecisionStatus
  taskNodeId : Option PyStr
  parentDecisionId : Option PyStr
  evidenceRefs : List PyStr
  supersedes : Option PyStr
  deriving DecidableEq

/-- An observed incompatibility. -/
structure ConflictRecord where
  conflictId : PyStr
  swarmRunId : PyStr
  competingRefs : List PyStr
  state : ConflictState
  deriving DecidableEq

/-- `SwarmRecord`. -/
inductive SwarmRecord
  | run (r : SwarmRun)
  | task (r : TaskNode)
  | work (r : WorkReceipt)
  | review (r : ReviewReceipt)
  | decision (r : DecisionReceipt)
  | conflict (r : ConflictRecord)
  deriving DecidableEq

namespace SwarmRecord

/-- The run a record belongs to. -/
def swarmRunId : SwarmRecord → PyStr
  | run r => r.swarmRunId
  | task r => r.swarmRunId
  | work r => r.swarmRunId
  | review r => r.swarmRunId
  | decision r => r.swarmRunId
  | conflict r => r.swarmRunId

/-- The id of a record. -/
def ownId : SwarmRecord → PyStr
  | run r => r.swarmRunId
  | task r => r.taskNodeId
  | work r => r.workId
  | review r => r.reviewId
  | decision r => r.decisionId
  | conflict r => r.conflictId

/-- The task a record is. -/
def task? : SwarmRecord → Option TaskNode
  | task r => some r
  | _ => none

/-- The work receipt a record is. -/
def work? : SwarmRecord → Option WorkReceipt
  | work r => some r
  | _ => none

/-- The review a record is. -/
def review? : SwarmRecord → Option ReviewReceipt
  | review r => some r
  | _ => none

/-- The decision a record is. -/
def decision? : SwarmRecord → Option DecisionReceipt
  | decision r => some r
  | _ => none

/-- The conflict a record is. -/
def conflict? : SwarmRecord → Option ConflictRecord
  | conflict r => some r
  | _ => none

/-- The run a record opens. -/
def run? : SwarmRecord → Option SwarmRun
  | run r => some r
  | _ => none

end SwarmRecord

/-- `_record_id`: the first id-like attribute that is set.  A receipt with a task goes by
the id of the task. -/
def recordId (r : SwarmRecord) : PyStr :=
  let attrs : List (Option PyStr) :=
    match r with
    | .run _ => []
    | .task t => [some t.taskNodeId]
    | .work w => [w.taskNodeId, some w.workId]
    | .review v => [some v.reviewId]
    | .decision d => [d.taskNodeId, some d.decisionId]
    | .conflict c => [some c.conflictId]
  ((attrs.filterMap id).find? fun value => value ≠ []).getD r.swarmRunId

end Daryl
