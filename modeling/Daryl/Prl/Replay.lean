import Daryl.Lib.Dict
import Daryl.Lib.Walk
import Daryl.Prl.Swarm
import Mathlib.Data.List.Dedup
import Mathlib.Data.List.Sort
import Mathlib.Data.Rat.Defs

/-!
# `prl.swarm.replay`: the projection of a run

The records of a run are folded, the later over the earlier of one id, and every
reading is derived from the folds: the standing of decisions with the supersessions
applied to them, the coverage of checks, the views of tasks.  Diagnostics say what was
found on the way; their free text is left out.

## Main definitions

* `Diagnostic`, `DecisionStanding`, `CheckCoverage`, `TaskView`, `RunProjection` — what a
  projection holds.
* `deriveDecisionStandings` — decision lines and the supersessions applied to them.
* `projectRun` — the projection.
-/

namespace Daryl

open Py

/-- The kinds of `DIAGNOSTIC_KINDS`. -/
inductive DiagnosticKind
  | crossRunRecord
  | taskUnknown
  | reviewOfUnknownRef
  | missingReference
  | selfSupersession
  | supersessionTypeMismatch
  | supersessionCycle
  | concurrentSupersession
  | reviewsDivergent
  | decisionOnSuperseded
  | requiredChecksUncovered
  | conflictUnresolved
  deriving DecidableEq

/-- `DERIVED_CONFLICT_KINDS`. -/
def derivedConflictKinds : List DiagnosticKind :=
  [.reviewsDivergent, .concurrentSupersession, .supersessionCycle, .decisionOnSuperseded,
    .requiredChecksUncovered]

/-- One observation. -/
structure Diagnostic where
  kind : DiagnosticKind
  refs : List PyStr
  deriving DecidableEq

/-- The coverage of checks of a work; `ratio` before it is rounded to a float. -/
structure CheckCoverage where
  workId : PyStr
  required : List PyStr
  claimed : List PyStr
  missing : List PyStr
  unrequested : List PyStr
  ratio : Option ℚ
  deriving DecidableEq

/-- The derived standing of a decision line. -/
@[ext]
structure DecisionStanding where
  decisionId : PyStr
  subjectId : PyStr
  status : DecisionStatus
  history : List DecisionStatus
  supersededBy : Option PyStr
  supersessionAmbiguous : Bool
  deriving DecidableEq

/-- How far the work on a task is claimed. -/
inductive WorkState
  | noWorkClaimed
  | workClaimed
  | workReviewed
  deriving DecidableEq

/-- The polarity of reviews. -/
inductive ReviewSignal
  | none
  | positive
  | negative
  | divergent
  | unpolarized
  deriving DecidableEq

/-- The derived view of a task. -/
structure TaskView where
  taskNodeId : PyStr
  status : TaskStatus
  statusHistory : List TaskStatus
  parentTaskNodeId : Option PyStr
  workIds : List PyStr
  reviewIds : List PyStr
  decisionIds : List PyStr
  workState : WorkState
  reviewSignal : ReviewSignal
  limitations : List PyStr
  deriving DecidableEq

/-- The derived view of a run. -/
structure RunProjection where
  swarmRunId : PyStr
  run : Option SwarmRun
  runStatus : Option RunStatus
  tasks : List (PyStr × TaskView)
  works : List (PyStr × WorkReceipt)
  reviews : List (PyStr × ReviewReceipt)
  decisions : List (PyStr × DecisionStanding)
  explicitConflicts : List (PyStr × ConflictRecord)
  checkCoverage : List (PyStr × CheckCoverage)
  limitations : List (PyStr × PyStr)
  orphanRecordIds : List PyStr
  diagnostics : List Diagnostic
  derivedConflicts : List Diagnostic

/-- `_review_signal`. -/
def reviewSignal (verdicts : List (Option ReviewVerdict)) : ReviewSignal :=
  if verdicts = [] then .none
  else
    match verdicts.any (· = some .approve), verdicts.any (· = some .reject) with
    | true, true => .divergent
    | true, false => .positive
    | false, true => .negative
    | false, false => .unpolarized

/-- `list(dict.fromkeys(xs))`: each value where it first stands. -/
def fromKeys (xs : List PyStr) : List PyStr :=
  xs.foldl (fun acc x => if x ∈ acc then acc else acc ++ [x]) []

/-- `_coverage`. -/
def coverage (work : WorkReceipt) : CheckCoverage :=
  let required := fromKeys work.requiredChecks
  let claimed := fromKeys work.claimedChecks
  let missing := required.filter (· ∉ claimed)
  { workId := work.workId
    required := required
    claimed := claimed
    missing := missing
    unrequested := claimed.filter (· ∉ required)
    ratio :=
      if required = [] then none
      else some (((required.length : ℚ) - missing.length) / required.length) }

/-! ### Decisions and their supersession -/

/-- `SUPERSESSION_MATRIX`: the kinds a kind may supersede. -/
def supersessionMatrix : SwarmKind → List SwarmKind
  | .decision => [.decision]
  | _ => []

/-- What comes of the target a decision declares. -/
inductive Declared
  | nothing
  | ignored (diag : Diagnostic)
  | edge (target : PyStr)

/-- The validation of a declared supersession. -/
def declared (kindOf : PyStr → Option SwarmKind) (d : DecisionReceipt) : Declared :=
  match d.supersedes with
  | none => .nothing
  | some target =>
    if target = d.decisionId then .ignored ⟨.selfSupersession, [d.decisionId]⟩
    else
      match kindOf target with
      | none => .ignored ⟨.missingReference, [d.decisionId, target]⟩
      | some targetKind =>
        if targetKind ∉ supersessionMatrix .decision then
          .ignored ⟨.supersessionTypeMismatch, [d.decisionId, target]⟩
        else .edge target

/-- The valid edges, each with the target first, in the order they are declared. -/
def validEdges (kindOf : PyStr → Option SwarmKind) (decisions : List DecisionReceipt) :
    List (PyStr × PyStr) :=
  decisions.filterMap fun d =>
    match declared kindOf d with
    | .edge target => some (target, d.decisionId)
    | _ => none

/-- `declared_edges`: the superseders of each target. -/
def declaredEdges (kindOf : PyStr → Option SwarmKind) (decisions : List DecisionReceipt) :
    List (PyStr × List PyStr) :=
  Dict.collect (validEdges kindOf decisions)

/-- `supersedes_of`: one target for each superseder, the last one set. -/
def supersedesOf (edges : List (PyStr × List PyStr)) : List (PyStr × PyStr) :=
  (edges.flatMap fun e => e.2.map fun s => (s, e.1)).foldl (fun d p => Dict.set p.1 p.2 d) []

/-- The cycle the walk from a decision runs into, over the one target of each. -/
def cycleOf (targets : List (PyStr × PyStr)) (start : PyStr) : List PyStr :=
  Walk.cycleFrom (fun n => Dict.get n targets) ((Dict.keys targets).length + 1) start

/-- `in_cycle`. -/
def inCycle (targets : List (PyStr × PyStr)) : List PyStr :=
  (Dict.keys targets).flatMap (cycleOf targets)

/-- `sorted(...)` of ids without repetition. -/
def sortedIds (ids : List PyStr) : List PyStr := ids.dedup.insertionSort (· ≤ ·)

/-- A diagnostic for each cycle with a member not met before. -/
def cycleDiagnostics (targets : List (PyStr × PyStr)) : List Diagnostic :=
  ((Dict.keys targets).foldl (fun (acc : List PyStr × List Diagnostic) start =>
    let members := sortedIds (cycleOf targets start)
    (acc.1 ++ members,
      if members.all (· ∈ acc.1) then acc.2 else acc.2 ++ [⟨.supersessionCycle, members⟩]))
    ([], [])).2

/-- The standing of a decision line, from its history and its superseders. -/
def standingOfLine (edges : List (PyStr × List PyStr)) (decisions : List DecisionReceipt)
    (decisionId : PyStr) (last : DecisionReceipt) : DecisionStanding :=
  let superseders := (Dict.get decisionId edges).getD []
  let cyclic := inCycle (supersedesOf edges)
  let reading : Option PyStr × Bool :=
    match superseders with
    | [] => (none, false)
    | [candidate] =>
      if candidate ∈ cyclic ∨ decisionId ∈ cyclic then (none, true) else (some candidate, false)
    | _ :: _ :: _ => (none, true)
  { decisionId := decisionId
    subjectId := last.subjectId
    status := last.status
    history := (decisions.filter fun d => d.decisionId = decisionId).map DecisionReceipt.status
    supersededBy := reading.1
    supersessionAmbiguous := reading.2 }

/-- `_derive_decision_standings`. -/
def deriveDecisionStandings (kindOf : PyStr → Option SwarmKind)
    (decisions : List DecisionReceipt) : List (PyStr × DecisionStanding) × List Diagnostic :=
  let edges := declaredEdges kindOf decisions
  let lines := Dict.latest DecisionReceipt.decisionId decisions
  let ignored := decisions.filterMap fun d =>
    match declared kindOf d with
    | .ignored diag => some diag
    | _ => none
  let concurrent := lines.filterMap fun line =>
    let superseders := (Dict.get line.1 edges).getD []
    if 1 < superseders.length then
      some ⟨.concurrentSupersession, line.1 :: superseders.insertionSort (· ≤ ·)⟩
    else none
  (lines.map fun line => (line.1, standingOfLine edges decisions line.1 line.2),
    ignored ++ cycleDiagnostics (supersedesOf edges) ++ concurrent)

/-! ### The projection -/

/-- The run id inferred from the records: that of the latest run, or the first there is. -/
def inferRunId (records : List SwarmRecord) : PyStr :=
  match (records.filterMap SwarmRecord.run?).getLast? with
  | some r => r.swarmRunId
  | none => ((records.map SwarmRecord.swarmRunId).find? fun i => i ≠ []).getD []

/-- `swarm_run_id or inferred`. -/
def runIdOf (swarmRunId : PyStr) (records : List SwarmRecord) : PyStr :=
  if swarmRunId = [] then inferRunId records else swarmRunId

/-- The records of the run. -/
def inRun (runId : PyStr) (records : List SwarmRecord) : List SwarmRecord :=
  records.filter fun r => r.swarmRunId = runId

section

variable (runId : PyStr) (rs : List SwarmRecord)

/-- `task_nodes`. -/
def taskNodes : List (PyStr × TaskNode) := Dict.latest TaskNode.taskNodeId (rs.filterMap SwarmRecord.task?)

/-- `proj.works`. -/
def latestWorks : List (PyStr × WorkReceipt) :=
  Dict.latest WorkReceipt.workId (rs.filterMap SwarmRecord.work?)

/-- `proj.reviews`. -/
def latestReviews : List (PyStr × ReviewReceipt) :=
  Dict.latest ReviewReceipt.reviewId (rs.filterMap SwarmRecord.review?)

/-- `proj.explicit_conflicts`. -/
def latestConflicts : List (PyStr × ConflictRecord) :=
  Dict.latest ConflictRecord.conflictId (rs.filterMap SwarmRecord.conflict?)

/-- The decisions, in order. -/
def decisionRecords : List DecisionReceipt := rs.filterMap SwarmRecord.decision?

/-- `known_kind_by_id`: the kinds are set one after the other. -/
def knownKindById : List (PyStr × SwarmKind) :=
  Dict.setAll (Dict.keys (latestConflicts rs)) .conflict
    (Dict.setAll ((decisionRecords rs).map DecisionReceipt.decisionId) .decision
      (Dict.setAll (Dict.keys (latestReviews rs)) .review
        (Dict.setAll (Dict.keys (latestWorks rs)) .work
          (Dict.setAll (Dict.keys (taskNodes rs)) .task [(runId, .run)]))))

/-- The kind an id is known by. -/
def kindOf (id : PyStr) : Option SwarmKind := Dict.get id (knownKindById runId rs)

/-- `proj.decisions`. -/
def decisionStandings : List (PyStr × DecisionStanding) :=
  (deriveDecisionStandings (kindOf runId rs) (decisionRecords rs)).1

/-- `_task_of`, without what it notes. -/
def taskOf (refTask : Option PyStr) : Option PyStr :=
  refTask.filter fun t => t ∈ Dict.keys (taskNodes rs)

/-- The calls of `_task_of`, each with the id it is made for. -/
def taskRefs : List (PyStr × Option PyStr) :=
  (latestWorks rs).map (fun w => (w.1, w.2.taskNodeId)) ++
    (decisionRecords rs).map fun d => (d.decisionId, d.taskNodeId)

/-- The references to unknown tasks, each with the id of the receipt. -/
def unknownTasks : List (PyStr × PyStr) :=
  (taskRefs rs).filterMap fun p =>
    match p.2 with
    | some t => if t ∈ Dict.keys (taskNodes rs) then none else some (p.1, t)
    | none => none

/-- `works_by_task`. -/
def worksByTask (tid : PyStr) : List PyStr :=
  ((latestWorks rs).filter fun w => taskOf rs w.2.taskNodeId = some tid).map Prod.fst

/-- `decisions_by_task`. -/
def decisionsByTask : List (PyStr × List PyStr) :=
  Dict.collect ((decisionRecords rs).filterMap fun d =>
    (taskOf rs d.taskNodeId).map fun t => (t, d.decisionId))

/-- The task a review is about: the task itself, or that of the work. -/
def reviewTask (review : ReviewReceipt) : Option PyStr :=
  match kindOf runId rs review.reviewedRef with
  | some .task => some review.reviewedRef
  | some .work =>
    (Dict.get review.reviewedRef (latestWorks rs)).bind fun work => taskOf rs work.taskNodeId
  | _ => none

/-- `reviews_by_task`: each review under the id it carries. -/
def reviewsByTask (tid : PyStr) : List PyStr :=
  (((latestReviews rs).map Prod.snd).filter fun v => reviewTask runId rs v = some tid).map
    ReviewReceipt.reviewId

/-- The view of a task. -/
def taskView (tid : PyStr) (node : TaskNode) : TaskView :=
  let history := ((rs.filterMap SwarmRecord.task?).filter fun t => t.taskNodeId = tid).map
    TaskNode.status
  let wids := worksByTask rs tid
  let rids := reviewsByTask runId rs tid
  let works := wids.filterMap fun wid => Dict.get wid (latestWorks rs)
  let reviews := rids.filterMap fun rid => Dict.get rid (latestReviews rs)
  { taskNodeId := tid
    status := history.getLastD node.status
    statusHistory := history
    parentTaskNodeId := node.parentTaskNodeId
    workIds := wids
    reviewIds := rids
    decisionIds := (Dict.get tid (decisionsByTask rs)).getD []
    workState :=
      if wids = [] then .noWorkClaimed else if rids = [] then .workClaimed else .workReviewed
    reviewSignal := reviewSignal (reviews.map ReviewReceipt.verdict)
    limitations :=
      works.flatMap WorkReceipt.limitations ++ reviews.flatMap ReviewReceipt.limitations }

/-- The diagnostics after those of the decisions, in order. -/
def laterDiagnostics (decisions : List (PyStr × DecisionStanding)) : List Diagnostic :=
  let reviews := (latestReviews rs).map Prod.snd
  let byRef := Dict.group ReviewReceipt.reviewedRef reviews
  let superseded := (decisions.filter fun d => d.2.supersededBy.isSome).map Prod.fst
  let unknownRefs := reviews.filterMap fun v =>
    if (kindOf runId rs v.reviewedRef).isSome then none
    else some ⟨.reviewOfUnknownRef, [v.reviewId, v.reviewedRef]⟩
  let divergent := (sortedIds (Dict.keys byRef)).filterMap fun ref =>
    let about := (Dict.get ref byRef).getD []
    if reviewSignal (about.map ReviewReceipt.verdict) = .divergent then
      some ⟨.reviewsDivergent, ref :: (about.map ReviewReceipt.reviewId).insertionSort (· ≤ ·)⟩
    else none
  let uncovered := (latestWorks rs).filterMap fun w =>
    let missing := (coverage w.2).missing
    if missing = [] then none else some ⟨.requiredChecksUncovered, w.1 :: missing⟩
  let stale := (decisionRecords rs).filterMap fun d =>
    let bases := (d.parentDecisionId.toList ++ d.evidenceRefs).filter fun b => b ≠ []
    let stale := (bases.filter fun b => b ∈ superseded ∧ some b ≠ d.supersedes).insertionSort (· ≤ ·)
    if stale = [] then none else some ⟨.decisionOnSuperseded, d.decisionId :: stale⟩
  let open_ := (sortedIds (Dict.keys (latestConflicts rs))).filterMap fun cid =>
    (Dict.get cid (latestConflicts rs)).bind fun c =>
      if c.state = .resolved then none else some ⟨.conflictUnresolved, cid :: c.competingRefs⟩
  unknownRefs ++ divergent ++ uncovered ++ stale ++ open_ ++
    (unknownTasks rs).map fun p => ⟨.taskUnknown, [p.1, p.2]⟩

end

/-- `project_run(records, swarm_run_id=...)`. -/
def projectRun (records : List SwarmRecord) (swarmRunId : PyStr) : RunProjection :=
  let runId := runIdOf swarmRunId records
  let rs := inRun runId records
  let run := (rs.filterMap SwarmRecord.run?).getLast?
  let derived := deriveDecisionStandings (kindOf runId rs) (decisionRecords rs)
  let crossRun := (records.filter fun r => r.swarmRunId ≠ runId).map fun r =>
    ⟨.crossRunRecord, [recordId r, r.swarmRunId]⟩
  let diagnostics := crossRun ++ derived.2 ++ laterDiagnostics runId rs derived.1
  { swarmRunId := runId
    run := run
    runStatus := run.map SwarmRun.status
    tasks := (taskNodes rs).map fun t => (t.1, taskView runId rs t.1 t.2)
    works := latestWorks rs
    reviews := latestReviews rs
    decisions := derived.1
    explicitConflicts := latestConflicts rs
    checkCoverage := (latestWorks rs).map fun w => (w.1, coverage w.2)
    limitations :=
      (latestWorks rs).flatMap (fun w => w.2.limitations.map fun text => (w.1, text)) ++
        (latestReviews rs).flatMap fun v => v.2.limitations.map fun text => (v.1, text)
    orphanRecordIds := fromKeys ((unknownTasks rs).map Prod.fst)
    diagnostics := diagnostics
    derivedConflicts := diagnostics.filter fun d => d.kind ∈ derivedConflictKinds }

end Daryl
