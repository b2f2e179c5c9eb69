import Daryl.Json.Model
import Daryl.Prl.Swarm
import Daryl.Prl.Types

/-!
# The thirteen models of `prl.types` and `prl.swarm.types`

Seven kinds of nodes and edges and six kinds of swarm records, with all their fields.
A value carries what the validators of its class check, so that one that fails them
cannot be built.  A model is its list of fields, in the order of the source, each with its
default: a codec, by which it is dumped and read.

## Main definitions

* `Library` — the reading of values, and the defaults that are not constants.
* `ProjectNode`, `FileNode`, `CommitNode`, `SessionNode`, `Edge`, `ConsultationNode` — with
  `ResolutionNode`, the nodes.
* `SwarmRun`, `TaskNode`, `WorkReceipt`, `ReviewReceipt`, `DecisionReceipt`,
  `ConflictRecord` — the records of a swarm.
* `projectNode`, …, `conflictRecord` — the models.
-/

namespace Daryl

open Py Json Model

namespace Records

/-! ### Enumerated string literals -/

/-- `ToolName`. -/
inductive ToolName
  | chatgpt
  | claude
  | cursor
  | vscode
  | terminal
  | other
  deriving DecidableEq

/-- `EdgeType`. -/
inductive EdgeType
  | produced
  | modified
  | references
  | follows
  | belongsTo
  deriving DecidableEq

/-- `ConsultationMode`. -/
inductive ConsultationMode
  | observation
  | proposal
  deriving DecidableEq

/-- `Role`. -/
inductive Role
  | planner
  | worker
  | reviewer
  | reconciler
  | other
  deriving DecidableEq

/-- `CheckOutcome`. -/
inductive CheckOutcome
  | pass
  | fail
  | error
  | skipped
  deriving DecidableEq

/-- `ConflictType`. -/
inductive ConflictType
  | decision
  | rule
  | context
  | workProduct
  | other
  deriving DecidableEq

/-- The literal of a tool. -/
def ToolName.text : ToolName → PyStr
  | chatgpt => py "chatgpt"
  | claude => py "claude"
  | cursor => py "cursor"
  | vscode => py "vscode"
  | terminal => py "terminal"
  | other => py "other"

/-- The literal of a type of edges. -/
def EdgeType.text : EdgeType → PyStr
  | produced => py "produced"
  | modified => py "modified"
  | references => py "references"
  | follows => py "follows"
  | belongsTo => py "belongs_to"

/-- The literal of a mode. -/
def ConsultationMode.text : ConsultationMode → PyStr
  | observation => py "observation"
  | proposal => py "proposal"

/-- The literal of a role. -/
def Role.text : Role → PyStr
  | planner => py "planner"
  | worker => py "worker"
  | reviewer => py "reviewer"
  | reconciler => py "reconciler"
  | other => py "other"

/-- The literal of an outcome. -/
def CheckOutcome.text : CheckOutcome → PyStr
  | pass => py "pass"
  | fail => py "fail"
  | error => py "error"
  | skipped => py "skipped"

/-- The literal of a type of conflicts. -/
def ConflictType.text : ConflictType → PyStr
  | decision => py "decision"
  | rule => py "rule"
  | context => py "context"
  | workProduct => py "work_product"
  | other => py "other"

/-- The literal of the status of a run. -/
def runStatusText : RunStatus → PyStr
  | .opened => py "open"
  | .closed => py "closed"
  | .aborted => py "aborted"

/-- The literal of the status of a task. -/
def taskStatusText : TaskStatus → PyStr
  | .delegated => py "delegated"
  | .inProgress => py "in_progress"
  | .claimedDone => py "claimed_done"
  | .accepted => py "accepted"
  | .abandoned => py "abandoned"
  | .blocked => py "blocked"

/-- The literal of the status of a decision. -/
def decisionStatusText : DecisionStatus → PyStr
  | .proposed => py "proposed"
  | .accepted => py "accepted"
  | .superseded => py "superseded"
  | .rejected => py "rejected"

/-- The literal of a verdict. -/
def reviewVerdictText : ReviewVerdict → PyStr
  | .approve => py "approve"
  | .reject => py "reject"
  | .inconclusive => py "inconclusive"

/-- The literal of the state of a conflict. -/
def conflictStateText : ConflictState → PyStr
  | .opened => py "open"
  | .acknowledged => py "acknowledged"
  | .resolved => py "resolved"

/-! ### Nodes -/

/-- A number between zero and one. -/
abbrev Confidence (F : Type) [PyFloat F] := {x : F // 0 ≤ PyFloat.val x ∧ PyFloat.val x ≤ 1}

/-- A dict of strings. -/
abbrev TextObject (F : Type) [PyFloat F] := {o : JsonObject F // o.AllText}

/-- `ProjectNode`. -/
structure ProjectNode where
  projectId : Text
  rootPath : Text
  name : Text
  orgId : Option Text

/-- `FileNode`. -/
structure FileNode where
  path : Text
  contentHash : Text
  size : ℤ
  mtimeMs : ℤ
  projectId : Text

/-- `CommitNode`. -/
structure CommitNode where
  sha : Text
  author : Text
  tsMs : ℤ
  message : Text
  files : List Text
  projectId : Text

/-- `SessionNode`. -/
structure SessionNode where
  sessionId : Text
  tool : ToolName
  title : Option Text
  startedMs : ℤ
  endedMs : Option ℤ
  textPreview : Text
  projectId : Option Text

/-- `Edge`. -/
structure Edge (F : Type) [PyFloat F] where
  edgeType : EdgeType
  srcId : Text
  dstId : Text
  confidence : Confidence F
  evidence : TextObject F

/-- `ConsultationNode`. -/
structure ConsultationNode (F : Type) [PyFloat F] where
  consultationId : Text
  subjectId : Text
  mode : ConsultationMode
  answer : Text
  mef : MEF F
  orgId : Option Text

/-! ### Records of a swarm -/

/-- `SwarmRun`. -/
structure SwarmRun (F : Type) [PyFloat F] where
  schemaVersion : Text
  swarmRunId : Text
  subjectId : Text
  orchestratorId : Text
  objective : Text
  startedAt : Text
  endedAt : Option Text
  status : RunStatus
  traceId : Option Text
  budgetConstraints : JsonObject F
  environmentRef : Option Text
  orgId : Option Text

/-- `TaskNode`. -/
structure TaskNode where
  schemaVersion : Text
  taskNodeId : Text
  swarmRunId : Text
  role : Role
  objective : Text
  status : TaskStatus
  parentTaskNodeId : Option Text
  assignedAgentId : Option Text
  assignedCarrier : Option Carrier
  acceptanceCriteria : List Text
  dependencies : List Text
  createdAt : Text

/-- `CheckResult`. -/
structure CheckResult where
  name : NonEmptyText
  outcome : CheckOutcome
  evidenceRef : Option Text

/-- `Finding`. -/
structure Finding where
  summary : NonEmptyText
  severity : Option Text
  evidenceRef : Option Text

/-- `WorkReceipt`. -/
structure WorkReceipt (F : Type) [PyFloat F] where
  schemaVersion : Text
  workId : Text
  swarmRunId : Text
  claimedActions : List Text
  taskNodeId : Option Text
  agentId : Option Text
  carrier : Option Carrier
  producedArtifacts : List Text
  requiredChecks : List Text
  claimedChecks : List Text
  actualChecks : List CheckResult
  limitations : List Text
  unresolvedIssues : List Text
  createdAt : Text
  mef : Option (MEF F)

/-- `ReviewReceipt`. -/
structure ReviewReceipt (F : Type) [PyFloat F] where
  schemaVersion : Text
  reviewId : Text
  swarmRunId : Text
  reviewedRef : Text
  lens : Text
  reviewerAgentId : Option Text
  reviewerCarrier : Option Carrier
  evidenceVisible : List Text
  claimsChecked : List Text
  findings : List Finding
  limitations : List Text
  conflictsDetected : List Text
  verdict : Option ReviewVerdict
  createdAt : Text
  mef : Option (MEF F)

/-- `DecisionReceipt`. -/
structure DecisionReceipt (F : Type) [PyFloat F] where
  schemaVersion : Text
  decisionId : Text
  swarmRunId : Text
  subjectId : Text
  decision : Text
  status : DecisionStatus
  taskNodeId : Option Text
  parentDecisionId : Option Text
  agentId : Option Text
  carrier : Option Carrier
  role : Option Role
  rationale : Option Text
  evidenceRefs : List Text
  alternativesConsidered : List Text
  scope : Option Text
  affectedComponents : List Text
  declaredInvariants : List Text
  confidence : Option (Confidence F)
  supersedes : Option Text
  createdAt : Text
  mef : Option (MEF F)

/-- The check of a resolved conflict: it names what resolves it. -/
def ResolvedBy (state : ConflictState) (resolutionRef : Option Text) : Prop :=
  state = .resolved → ∃ ref ∈ resolutionRef, strip ref.val ≠ []

instance (state : ConflictState) (ref : Option Text) : Decidable (ResolvedBy state ref) :=
  inferInstanceAs (Decidable (state = .resolved → ∃ t ∈ ref, strip t.val ≠ []))

/-- `ConflictRecord`. -/
structure ConflictRecord where
  schemaVersion : Text
  conflictId : Text
  swarmRunId : Text
  competingRefs : {refs : List Text // 2 ≤ refs.length}
  conflictType : ConflictType
  state : ConflictState
  detectedBy : Option Text
  supportingEvidence : List Text
  affectedTasks : List Text
  resolutionRef : Option Text
  createdAt : Text
  resolvedBy : ResolvedBy state resolutionRef

/-! ### The models of the parts -/

/-- What the models have from outside: the reading of values, the float `1.0`, and what
`utc_now_ms` says. -/
structure Library (F : Type) [PyFloat F] where
  reader : Reader F
  one : Confidence F
  one_eq : PyFloat.val one.val = 1
  now : Text

section

variable {F : Type} [PyFloat F] (lib : Library F)

/-- `str`. -/
def text : Codec F Text := .str lib.reader

/-- A string that `_non_empty` lets pass. -/
def nonEmptyText : Codec F NonEmptyText :=
  (text lib).refine (fun s => if h : strip s.val ≠ [] then some ⟨s.val, s.property, h⟩ else none)
    (fun s => ⟨s.val, s.property.1⟩) fun s => dif_pos s.property.2

/-- A float that `_check_confidence` lets pass. -/
def confidence : Codec F (Confidence F) :=
  (Codec.float lib.reader).guard fun x => 0 ≤ PyFloat.val x ∧ PyFloat.val x ≤ 1

/-- `tuple[str, ...]`. -/
def textTuple : Codec F (List Text) := .tuple lib.reader (text lib)

/-- A literal of one string, which is its default. -/
def tag (text : PyStr) (henc : Encodable text) : Model.Field F Unit :=
  (Codec.literal (fun _ => text) [()] (fun _ => henc) fun _ => by simp).withDefault ()

/-- `ToolName`. -/
def toolName : Codec F ToolName :=
  .literal ToolName.text [.chatgpt, .claude, .cursor, .vscode, .terminal, .other]
    (by intro a; cases a <;> decide) (by intro a; cases a <;> decide)

/-- `EdgeType`. -/
def edgeType : Codec F EdgeType :=
  .literal EdgeType.text [.produced, .modified, .references, .follows, .belongsTo]
    (by intro a; cases a <;> decide) (by intro a; cases a <;> decide)

/-- `ConsultationMode`. -/
def consultationMode : Codec F ConsultationMode :=
  .literal ConsultationMode.text [.observation, .proposal]
    (by intro a; cases a <;> decide) (by intro a; cases a <;> decide)

/-- `ResolutionDecision`. -/
def resolutionDecision : Codec F ResolutionDecision :=
  .literal ResolutionDecision.text [.accepted, .rejected, .superseded, .withdrawn]
    (by intro a; cases a <;> decide) (by intro a; cases a <;> decide)

/-- `Role`. -/
def role : Codec F Role :=
  .literal Role.text [.planner, .worker, .reviewer, .reconciler, .other]
    (by intro a; cases a <;> decide) (by intro a; cases a <;> decide)

/-- `RunStatus`. -/
def runStatus : Codec F RunStatus :=
  .literal runStatusText [.opened, .closed, .aborted]
    (by intro a; cases a <;> decide) (by intro a; cases a <;> decide)

/-- `TaskStatus`. -/
def taskStatus : Codec F TaskStatus :=
  .literal taskStatusText [.delegated, .inProgress, .claimedDone, .accepted, .abandoned, .blocked]
    (by intro a; cases a <;> decide) (by intro a; cases a <;> decide)

/-- `DecisionStatus`. -/
def decisionStatus : Codec F DecisionStatus :=
  .literal decisionStatusText [.proposed, .accepted, .superseded, .rejected]
    (by intro a; cases a <;> decide) (by intro a; cases a <;> decide)

/-- `CheckOutcome`. -/
def checkOutcome : Codec F CheckOutcome :=
  .literal CheckOutcome.text [.pass, .fail, .error, .skipped]
    (by intro a; cases a <;> decide) (by intro a; cases a <;> decide)

/-- `ReviewVerdict`. -/
def reviewVerdict : Codec F ReviewVerdict :=
  .literal reviewVerdictText [.approve, .reject, .inconclusive]
    (by intro a; cases a <;> decide) (by intro a; cases a <;> decide)

/-- `ConflictType`. -/
def conflictType : Codec F ConflictType :=
  .literal ConflictType.text [.decision, .rule, .context, .workProduct, .other]
    (by intro a; cases a <;> decide) (by intro a; cases a <;> decide)

/-- `ConflictState`. -/
def conflictState : Codec F ConflictState :=
  .literal conflictStateText [.opened, .acknowledged, .resolved]
    (by intro a; cases a <;> decide) (by intro a; cases a <;> decide)

/-- `Carrier`. -/
def carrier : Codec F Carrier :=
  ((Fields.cons (py "provider") (nonEmptyText lib).required <|
    Fields.cons (py "model") (text lib).optional <|
    Fields.cons (py "adapter") (text lib).optional Fields.nil).refine
      (fun (provider, model, adapter, _) => some ⟨provider, model, adapter⟩)
      (fun c => (c.provider, c.model, c.adapter, ())) fun _ => rfl).codec
    (by decide +kernel) (by decide +kernel)

/-- `MEF`. -/
def mef : Codec F (MEF F) :=
  ((Fields.cons (py "claim_id") (nonEmptyText lib).required <|
    Fields.cons (py "regime") (nonEmptyText lib).required <|
    Fields.cons (py "confidence") (confidence lib).required <|
    Fields.cons (py "contested") (Codec.bool lib.reader).required <|
    Fields.cons (py "producer") (nonEmptyText lib).required <|
    Fields.cons (py "agent_id") (nonEmptyText lib).optional <|
    Fields.cons (py "carrier") (carrier lib).optional Fields.nil).refine
      (fun (claimId, regime, confidence, contested, producer, agentId, carrier, _) =>
        some ⟨claimId, regime, confidence, contested, producer, agentId, carrier⟩)
      (fun m => (m.claimId, m.regime, m.confidence, m.contested, m.producer, m.agentId, m.carrier, ()))
      fun _ => rfl).codec
    (by decide +kernel) (by decide +kernel)

/-- `CheckResult`. -/
def checkResult : Codec F CheckResult :=
  ((Fields.cons (py "name") (nonEmptyText lib).required <|
    Fields.cons (py "outcome") checkOutcome.required <|
    Fields.cons (py "evidence_ref") (text lib).optional Fields.nil).refine
      (fun (name, outcome, evidenceRef, _) => some ⟨name, outcome, evidenceRef⟩)
      (fun c => (c.name, c.outcome, c.evidenceRef, ())) fun _ => rfl).codec
    (by decide +kernel) (by decide +kernel)

/-- `Finding`. -/
def finding : Codec F Finding :=
  ((Fields.cons (py "summary") (nonEmptyText lib).required <|
    Fields.cons (py "severity") (text lib).optional <|
    Fields.cons (py "evidence_ref") (text lib).optional Fields.nil).refine
      (fun (summary, severity, evidenceRef, _) => some ⟨summary, severity, evidenceRef⟩)
      (fun f => (f.summary, f.severity, f.evidenceRef, ())) fun _ => rfl).codec
    (by decide +kernel) (by decide +kernel)

/-! ### The models of the nodes -/

/-- `ProjectNode`. -/
def projectNode : Codec F ProjectNode :=
  ((Fields.cons (py "node_type") (tag (py "project") (by decide)) <|
    Fields.cons (py "project_id") (text lib).required <|
    Fields.cons (py "root_path") (text lib).required <|
    Fields.cons (py "name") (text lib).required <|
    Fields.cons (py "org_id") (text lib).optional Fields.nil).refine
      (fun (_, projectId, rootPath, name, orgId, _) => some ⟨projectId, rootPath, name, orgId⟩)
      (fun n => ((), n.projectId, n.rootPath, n.name, n.orgId, ())) fun _ => rfl).codec
    (by decide +kernel) (by decide +kernel)

/-- `FileNode`. -/
def fileNode : Codec F FileNode :=
  ((Fields.cons (py "node_type") (tag (py "file") (by decide)) <|
    Fields.cons (py "path") (text lib).required <|
    Fields.cons (py "content_hash") (text lib).required <|
    Fields.cons (py "size") (Codec.int lib.reader).required <|
    Fields.cons (py "mtime_ms") (Codec.int lib.reader).required <|
    Fields.cons (py "project_id") (text lib).required Fields.nil).refine
      (fun (_, path, contentHash, size, mtimeMs, projectId, _) =>
        some ⟨path, contentHash, size, mtimeMs, projectId⟩)
      (fun n => ((), n.path, n.contentHash, n.size, n.mtimeMs, n.projectId, ())) fun _ => rfl).codec
    (by decide +kernel) (by decide +kernel)

/-- `CommitNode`. -/
def commitNode : Codec F CommitNode :=
  ((Fields.cons (py "node_type") (tag (py "commit") (by decide)) <|
    Fields.cons (py "sha") (text lib).required <|
    Fields.cons (py "author") (text lib).required <|
    Fields.cons (py "ts_ms") (Codec.int lib.reader).required <|
    Fields.cons (py "message") (text lib).required <|
    Fields.cons (py "files") ((textTuple lib).withDefault []) <|
    Fields.cons (py "project_id") (text lib).required Fields.nil).refine
      (fun (_, sha, author, tsMs, message, files, projectId, _) =>
        some ⟨sha, author, tsMs, message, files, projectId⟩)
      (fun n => ((), n.sha, n.author, n.tsMs, n.message, n.files, n.projectId, ()))
      fun _ => rfl).codec
    (by decide +kernel) (by decide +kernel)

/-- `SessionNode`. -/
def sessionNode : Codec F SessionNode :=
  ((Fields.cons (py "node_type") (tag (py "session") (by decide)) <|
    Fields.cons (py "session_id") (text lib).required <|
    Fields.cons (py "tool") toolName.required <|
    Fields.cons (py "title") (text lib).optional <|
    Fields.cons (py "started_ms") (Codec.int lib.reader).required <|
    Fields.cons (py "ended_ms") (Codec.int lib.reader).optional <|
    Fields.cons (py "text_preview") ((text lib).withDefault ⟨[], by decide⟩) <|
    Fields.cons (py "project_id") (text lib).optional Fields.nil).refine
      (fun (_, sessionId, tool, title, startedMs, endedMs, textPreview, projectId, _) =>
        some ⟨sessionId, tool, title, startedMs, endedMs, textPreview, projectId⟩)
      (fun n => ((), n.sessionId, n.tool, n.title, n.startedMs, n.endedMs, n.textPreview,
        n.projectId, ())) fun _ => rfl).codec
    (by decide +kernel) (by decide +kernel)

/-- `{}`, as a dict of strings. -/
def noEvidence : TextObject F :=
  ⟨Quotient.mk _ ⟨[], List.nodup_nil, by simp, by simp⟩, fun kvs h kv hkv => by
    cases PyVal.dict.inj h
    cases hkv⟩

/-- `Edge`. -/
def edge : Codec F (Edge F) :=
  ((Fields.cons (py "edge_type") edgeType.required <|
    Fields.cons (py "src_id") (text lib).required <|
    Fields.cons (py "dst_id") (text lib).required <|
    Fields.cons (py "confidence") ((confidence lib).withDefault lib.one) <|
    Fields.cons (py "evidence") ((Codec.texts lib.reader).withDefault noEvidence) Fields.nil).refine
      (fun (edgeType, srcId, dstId, confidence, evidence, _) =>
        some ⟨edgeType, srcId, dstId, confidence, evidence⟩)
      (fun n => (n.edgeType, n.srcId, n.dstId, n.confidence, n.evidence, ())) fun _ => rfl).codec
    (by decide +kernel) (by decide +kernel)

/-- `ConsultationNode`. -/
def consultationNode : Codec F (ConsultationNode F) :=
  ((Fields.cons (py "node_type") (tag (py "consultation") (by decide)) <|
    Fields.cons (py "consultation_id") (text lib).required <|
    Fields.cons (py "subject_id") (text lib).required <|
    Fields.cons (py "mode") (consultationMode.withDefault .observation) <|
    Fields.cons (py "answer") (text lib).required <|
    Fields.cons (py "mef") (mef lib).required <|
    Fields.cons (py "org_id") (text lib).optional Fields.nil).refine
      (fun (_, consultationId, subjectId, mode, answer, mef, orgId, _) =>
        some ⟨consultationId, subjectId, mode, answer, mef, orgId⟩)
      (fun n => ((), n.consultationId, n.subjectId, n.mode, n.answer, n.mef, n.orgId, ()))
      fun _ => rfl).codec
    (by decide +kernel) (by decide +kernel)

/-- `ResolutionNode`. -/
def resolutionNode : Codec F (ResolutionNode F) :=
  ((Fields.cons (py "node_type") (tag (py "resolution") (by decide)) <|
    Fields.cons (py "resolution_id") (nonEmptyText lib).required <|
    Fields.cons (py "target_claim_id") (nonEmptyText lib).required <|
    Fields.cons (py "decision") resolutionDecision.required <|
    Fields.cons (py "mef") (mef lib).required <|
    Fields.cons (py "org_id") (text lib).optional Fields.nil).refine
      (fun (_, resolutionId, targetClaimId, decision, mef, orgId, _) =>
        some ⟨resolutionId, targetClaimId, decision, mef, orgId⟩)
      (fun n => ((), n.resolutionId, n.targetClaimId, n.decision, n.mef, n.orgId, ()))
      fun _ => rfl).codec
    (by decide +kernel) (by decide +kernel)

/-! ### The models of the records -/

/-- `SCHEMA_VERSION`, the default of every record. -/
def schemaVersion : Model.Field F Text := (text lib).withDefault ⟨py "swarm.v0.1", by decide⟩

/-- `created_at`, and `started_at`. -/
def timeField : Model.Field F Text := (text lib).withDefault lib.now

/-- A tuple of strings, empty by default. -/
def textsField : Model.Field F (List Text) := (textTuple lib).withDefault []

/-- `SwarmRun`. -/
def swarmRun : Codec F (SwarmRun F) :=
  ((Fields.cons (py "kind") (tag (py "run") (by decide)) <|
    Fields.cons (py "schema_version") (schemaVersion lib) <|
    Fields.cons (py "swarm_run_id") (text lib).required <|
    Fields.cons (py "subject_id") (text lib).required <|
    Fields.cons (py "orchestrator_id") (text lib).required <|
    Fields.cons (py "objective") (text lib).required <|
    Fields.cons (py "started_at") (timeField lib) <|
    Fields.cons (py "ended_at") (text lib).optional <|
    Fields.cons (py "status") (runStatus.withDefault .opened) <|
    Fields.cons (py "trace_id") (text lib).optional <|
    Fields.cons (py "budget_constraints")
      ((Codec.object lib.reader).withDefault noEvidence.val) <|
    Fields.cons (py "environment_ref") (text lib).optional <|
    Fields.cons (py "org_id") (text lib).optional Fields.nil).refine
      (fun (_, schemaVersion, swarmRunId, subjectId, orchestratorId, objective, startedAt, endedAt,
          status, traceId, budgetConstraints, environmentRef, orgId, _) =>
        some ⟨schemaVersion, swarmRunId, subjectId, orchestratorId, objective, startedAt, endedAt,
          status, traceId, budgetConstraints, environmentRef, orgId⟩)
      (fun r => ((), r.schemaVersion, r.swarmRunId, r.subjectId, r.orchestratorId, r.objective,
        r.startedAt, r.endedAt, r.status, r.traceId, r.budgetConstraints, r.environmentRef, r.orgId,
        ())) fun _ => rfl).codec
    (by decide +kernel) (by decide +kernel)

/-- `TaskNode`. -/
def taskNode : Codec F TaskNode :=
  ((Fields.cons (py "kind") (tag (py "task") (by decide)) <|
    Fields.cons (py "schema_version") (schemaVersion lib) <|
    Fields.cons (py "task_node_id") (text lib).required <|
    Fields.cons (py "swarm_run_id") (text lib).required <|
    Fields.cons (py "role") role.required <|
    Fields.cons (py "objective") (text lib).required <|
    Fields.cons (py "status") taskStatus.required <|
    Fields.cons (py "parent_task_node_id") (text lib).optional <|
    Fields.cons (py "assigned_agent_id") (text lib).optional <|
    Fields.cons (py "assigned_carrier") (carrier lib).optional <|
    Fields.cons (py "acceptance_criteria") (textsField lib) <|
    Fields.cons (py "dependencies") (textsField lib) <|
    Fields.cons (py "created_at") (timeField lib) Fields.nil).refine
      (fun (_, schemaVersion, taskNodeId, swarmRunId, role, objective, status, parentTaskNodeId,
          assignedAgentId, assignedCarrier, acceptanceCriteria, dependencies, createdAt, _) =>
        some ⟨schemaVersion, taskNodeId, swarmRunId, role, objective, status, parentTaskNodeId,
          assignedAgentId, assignedCarrier, acceptanceCriteria, dependencies, createdAt⟩)
      (fun r => ((), r.schemaVersion, r.taskNodeId, r.swarmRunId, r.role, r.objective, r.status,
        r.parentTaskNodeId, r.assignedAgentId, r.assignedCarrier, r.acceptanceCriteria,
        r.dependencies, r.createdAt, ())) fun _ => rfl).codec
    (by decide +kernel) (by decide +kernel)

/-- `WorkReceipt`. -/
def workReceipt : Codec F (WorkReceipt F) :=
  ((Fields.cons (py "kind") (tag (py "work") (by decide)) <|
    Fields.cons (py "schema_version") (schemaVersion lib) <|
    Fields.cons (py "work_id") (text lib).required <|
    Fields.cons (py "swarm_run_id") (text lib).required <|
    Fields.cons (py "claimed_actions") (textTuple lib).required <|
    Fields.cons (py "task_node_id") (text lib).optional <|
    Fields.cons (py "agent_id") (text lib).optional <|
    Fields.cons (py "carrier") (carrier lib).optional <|
    Fields.cons (py "produced_artifacts") (textsField lib) <|
    Fields.cons (py "required_checks") (textsField lib) <|
    Fields.cons (py "claimed_checks") (textsField lib) <|
    Fields.cons (py "actual_checks") ((Codec.tuple lib.reader (checkResult lib)).withDefault []) <|
    Fields.cons (py "limitations") (textsField lib) <|
    Fields.cons (py "unresolved_issues") (textsField lib) <|
    Fields.cons (py "created_at") (timeField lib) <|
    Fields.cons (py "mef") (mef lib).optional Fields.nil).refine
      (fun (_, schemaVersion, workId, swarmRunId, claimedActions, taskNodeId, agentId, carrier,
          producedArtifacts, requiredChecks, claimedChecks, actualChecks, limitations,
          unresolvedIssues, createdAt, mef, _) =>
        some ⟨schemaVersion, workId, swarmRunId, claimedActions, taskNodeId, agentId, carrier,
          producedArtifacts, requiredChecks, claimedChecks, actualChecks, limitations,
          unresolvedIssues, createdAt, mef⟩)
      (fun r => ((), r.schemaVersion, r.workId, r.swarmRunId, r.claimedActions, r.taskNodeId,
        r.agentId, r.carrier, r.producedArtifacts, r.requiredChecks, r.claimedChecks,
        r.actualChecks, r.limitations, r.unresolvedIssues, r.createdAt, r.mef, ()))
      fun _ => rfl).codec
    (by decide +kernel) (by decide +kernel)

/-- `ReviewReceipt`. -/
def reviewReceipt : Codec F (ReviewReceipt F) :=
  ((Fields.cons (py "kind") (tag (py "review") (by decide)) <|
    Fields.cons (py "schema_version") (schemaVersion lib) <|
    Fields.cons (py "review_id") (text lib).required <|
    Fields.cons (py "swarm_run_id") (text lib).required <|
    Fields.cons (py "reviewed_ref") (text lib).required <|
    Fields.cons (py "lens") (text lib).required <|
    Fields.cons (py "reviewer_agent_id") (text lib).optional <|
    Fields.cons (py "reviewer_carrier") (carrier lib).optional <|
    Fields.cons (py "evidence_visible") (textsField lib) <|
    Fields.cons (py "claims_checked") (textsField lib) <|
    Fields.cons (py "findings") ((Codec.tuple lib.reader (finding lib)).withDefault []) <|
    Fields.cons (py "limitations") (textsField lib) <|
    Fields.cons (py "conflicts_detected") (textsField lib) <|
    Fields.cons (py "verdict") reviewVerdict.optional <|
    Fields.cons (py "created_at") (timeField lib) <|
    Fields.cons (py "mef") (mef lib).optional Fields.nil).refine
      (fun (_, schemaVersion, reviewId, swarmRunId, reviewedRef, lens, reviewerAgentId,
          reviewerCarrier, evidenceVisible, claimsChecked, findings, limitations, conflictsDetected,
          verdict, createdAt, mef, _) =>
        some ⟨schemaVersion, reviewId, swarmRunId, reviewedRef, lens, reviewerAgentId,
          reviewerCarrier, evidenceVisible, claimsChecked, findings, limitations, conflictsDetected,
          verdict, createdAt, mef⟩)
      (fun r => ((), r.schemaVersion, r.reviewId, r.swarmRunId, r.reviewedRef, r.lens,
        r.reviewerAgentId, r.reviewerCarrier, r.evidenceVisible, r.claimsChecked, r.findings,
        r.limitations, r.conflictsDetected, r.verdict, r.createdAt, r.mef, ())) fun _ => rfl).codec
    (by decide +kernel) (by decide +kernel)

/-- `DecisionReceipt`. -/
def decisionReceipt : Codec F (DecisionReceipt F) :=
  ((Fields.cons (py "kind") (tag (py "decision") (by decide)) <|
    Fields.cons (py "schema_version") (schemaVersion lib) <|
    Fields.cons (py "decision_id") (text lib).required <|
    Fields.cons (py "swarm_run_id") (text lib).required <|
    Fields.cons (py "subject_id") (text lib).required <|
    Fields.cons (py "decision") (text lib).required <|
    Fields.cons (py "status") decisionStatus.required <|
    Fields.cons (py "task_node_id") (text lib).optional <|
    Fields.cons (py "parent_decision_id") (text lib).optional <|
    Fields.cons (py "agent_id") (text lib).optional <|
    Fields.cons (py "carrier") (carrier lib).optional <|
    Fields.cons (py "role") role.optional <|
    Fields.cons (py "rationale") (text lib).optional <|
    Fields.cons (py "evidence_refs") (textsField lib) <|
    Fields.cons (py "alternatives_considered") (textsField lib) <|
    Fields.cons (py "scope") (text lib).optional <|
    Fields.cons (py "affected_components") (textsField lib) <|
    Fields.cons (py "declared_invariants") (textsField lib) <|
    Fields.cons (py "confidence") (confidence lib).optional <|
    Fields.cons (py "supersedes") (text lib).optional <|
    Fields.cons (py "created_at") (timeField lib) <|
    Fields.cons (py "mef") (mef lib).optional Fields.nil).refine
      (fun (_, schemaVersion, decisionId, swarmRunId, subjectId, decision, status, taskNodeId,
          parentDecisionId, agentId, carrier, role, rationale, evidenceRefs, alternativesConsidered,
          scope, affectedComponents, declaredInvariants, confidence, supersedes, createdAt, mef, _) =>
        some ⟨schemaVersion, decisionId, swarmRunId, subjectId, decision, status, taskNodeId,
          parentDecisionId, agentId, carrier, role, rationale, evidenceRefs, alternativesConsidered,
          scope, affectedComponents, declaredInvariants, confidence, supersedes, createdAt, mef⟩)
      (fun r => ((), r.schemaVersion, r.decisionId, r.swarmRunId, r.subjectId, r.decision, r.status,
        r.taskNodeId, r.parentDecisionId, r.agentId, r.carrier, r.role, r.rationale, r.evidenceRefs,
        r.alternativesConsidered, r.scope, r.affectedComponents, r.declaredInvariants, r.confidence,
        r.supersedes, r.createdAt, r.mef, ())) fun _ => rfl).codec
    (by decide +kernel) (by decide +kernel)

/-- `ConflictRecord`. -/
def conflictRecord : Codec F ConflictRecord :=
  ((Fields.cons (py "kind") (tag (py "conflict") (by decide)) <|
    Fields.cons (py "schema_version") (schemaVersion lib) <|
    Fields.cons (py "conflict_id") (text lib).required <|
    Fields.cons (py "swarm_run_id") (text lib).required <|
    Fields.cons (py "competing_refs")
      ((textTuple lib).guard fun refs => 2 ≤ refs.length).required <|
    Fields.cons (py "conflict_type") conflictType.required <|
    Fields.cons (py "state") conflictState.required <|
    Fields.cons (py "detected_by") (text lib).optional <|
    Fields.cons (py "supporting_evidence") (textsField lib) <|
    Fields.cons (py "affected_tasks") (textsField lib) <|
    Fields.cons (py "resolution_ref") (text lib).optional <|
    Fields.cons (py "created_at") (timeField lib) Fields.nil).refine
      (fun (_, schemaVersion, conflictId, swarmRunId, competingRefs, conflictType, state, detectedBy,
          supportingEvidence, affectedTasks, resolutionRef, createdAt, _) =>
        if h : ResolvedBy state resolutionRef then
          some ⟨schemaVersion, conflictId, swarmRunId, competingRefs, conflictType, state, detectedBy,
            supportingEvidence, affectedTasks, resolutionRef, createdAt, h⟩
        else none)
      (fun r => ((), r.schemaVersion, r.conflictId, r.swarmRunId, r.competingRefs, r.conflictType,
        r.state, r.detectedBy, r.supportingEvidence, r.affectedTasks, r.resolutionRef, r.createdAt,
        ())) fun r => dif_pos r.resolvedBy).codec
    (by decide +kernel) (by decide +kernel)

end

end Records

end Daryl
