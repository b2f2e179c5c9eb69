import Daryl.Lib.Dict
import Daryl.Lib.Run
import Daryl.Mesh.Events
import Daryl.Py.Eq

/-!
# The mesh server

The routes of the server with the scheduler and the key registry, on the state they keep in
memory and the log.  A request is handled from its start to its end; for each of its writes
it brings what the clock says and whether the writer refuses it.

## Main definitions

* `Agent`, `Task`, `AppState` — the state.
* `assignTask`, `nextForAgent` — the scheduler.
* `registerAgent`, `createMission`, `createTask`, `getNextTask`, `submitTaskResult`,
  `getContext` — the routes.
* `Request`, `serve` — a request, and the state after it.

## Main results

* `serve_cases` — **what a request can do to the state.**
-/

namespace Daryl

open Py Json

namespace Mesh

variable {F : Type} [PyFloat F]

/-! ### State -/

/-- What is fixed for a server: its configuration, SHA-256, `verify_bytes` and the source of
identifiers. -/
structure Deployment where
  serverId : Text
  maxResultContentBytes : ℤ
  sha : Sha256
  verifyBytes : List Byte → PyStr → PyStr → Bool
  ulids : Ulids

/-- `Agent.status`. -/
inductive AgentStatus
  | active
  | inactive
  | suspended
  deriving DecidableEq

/-- An agent of the registry. -/
structure Agent where
  agentId : Text
  agentType : Text
  capabilities : List Text
  publicKey : Text
  status : AgentStatus

/-- `Task.status`. -/
inductive TaskStatus
  | pending
  | assigned
  | inProgress
  | completed
  | failed
  deriving DecidableEq

/-- A task. -/
structure Task (F : Type) [PyFloat F] where
  taskId : Text
  missionId : Text
  taskType : Text
  payload : JsonDict F
  assignedTo : Option Text
  status : TaskStatus
  result : Option (JsonDict F)

/-- A mission. -/
structure Mission where
  missionId : Text
  title : Text
  description : Text

/-- The state of a server, and `events.jsonl`. -/
structure AppState (F : Type) [PyFloat F] where
  registry : List (Text × Agent)
  keys : List (Text × Text)
  keyIds : List (Text × Text)
  missions : List (Text × Mission)
  tasks : List (Text × Task F)
  cursor : ℕ
  drawn : ℕ
  log : List (LoggedEvent F)

/-- What the clock says at a write, and whether the writer refuses it. -/
structure Attempt where
  time : Text
  refuse : Bool

/-! ### Answers -/

/-- `TaskRequest`. -/
structure TaskRequest (F : Type) [PyFloat F] where
  taskId : Text
  missionId : Text
  taskType : Text
  objective : PyVal F
  deadlineMs : PyVal F
  maxOutputTokens : PyVal F
  outputFormat : PyVal F

/-- The answer of a route: an `HTTPException`, another exception, or the body it returns. -/
inductive Answer (F : Type) [PyFloat F]
  | http (statusCode : ℕ) (detail : PyStr)
  | raised (e : PyError)
  | registered (keyId eventId : Text)
  | missionCreated (missionId eventId : Text)
  | taskCreated (taskId missionId eventId assignedTo : Text)
  | noContent
  | next (task : TaskRequest F)
  | submitted (taskId eventId receiptId : Text) (entryHash : PyStr)
  | contextPack (contextId eventId : Text)

/-- `dsm_write_failed`. -/
def writeFailed : Answer F := .http 500 (py "dsm_write_failed")

/-! ### The key registry -/

/-- `_derive_key_id`. -/
def deriveKeyId (sha : Sha256) (publicKey : Text) : Text :=
  ⟨py "key_" ++ (hexdigest sha (utf8Bytes publicKey.val)).take 12,
    encodable_append.mpr ⟨by decide, fun c hc =>
      encodable_hexdigest sha _ c (List.mem_of_mem_take hc)⟩⟩

/-- `compute_content_hash`. -/
def computeContentHash (sha : Sha256) (content : JsonDict F) : Except PyError Text :=
  match canonicalJson content.toPy with
  | .ok bs => .ok ⟨v1Prefix ++ hexdigest sha bs, encodable_hash sha bs⟩
  | .error err => .error (DumpsError.toPyError err)

/-- What is signed of a result. -/
def signingPayload (agentId keyId missionId taskId contributionId contentHash createdAt : Text) :
    PyVal F :=
  .dict (strItems [(py "schema_version", .str (py "signing.v1")), (py "agent_id", .str agentId.val),
    (py "key_id", .str keyId.val), (py "mission_id", .str missionId.val),
    (py "task_id", .str taskId.val), (py "contribution_id", .str contributionId.val),
    (py "contribution_type", .str (py "task_result")), (py "content_hash", .str contentHash.val),
    (py "created_at", .str createdAt.val)])

/-- `verify_contribution`: the reason why a signature is not accepted. -/
def verifyContribution (d : Deployment) (keys : List (Text × Text)) (agentId : Text)
    (payload : PyVal F) (signature : Text) : Except PyError (Option PyStr) :=
  match Dict.get agentId keys with
  | none => .ok (some (py "agent_unknown"))
  | some pk =>
    match canonicalJson payload with
    | .ok bs =>
      .ok (if d.verifyBytes bs signature.val pk.val then none else some (py "signature_invalid"))
    | .error err => .error (DumpsError.toPyError err)

/-! ### The scheduler -/

/-- `set(v)`. -/
def pySet (v : PyVal F) : Except PyError (List (PyVal F)) :=
  match iterate v with
  | .ok vs => if PyVal.hashesAll vs then .ok vs else .error .typeError
  | .error err => .error err

/-- `payload.get("required_capabilities") or [task_type]`. -/
def Task.required (t : Task F) : PyVal F :=
  pyOr ((t.payload.get (py "required_capabilities")).getD .none) (.list [.str t.taskType.val])

/-- `required.issubset(caps)`. -/
def issubset (required : List (PyVal F)) (caps : List PyStr) : Bool :=
  required.all fun v => pyIn v (caps.map .str)

/-- `list_active`. -/
def listActive (registry : List (Text × Agent)) : List Agent :=
  (registry.map Prod.snd).filter (·.status = .active)

/-- `assign_task`, with the cursor after it. -/
def assignTask (registry : List (Text × Agent)) (cursor : ℕ) (t : Task F) :
    Except PyError (Option Text × ℕ) :=
  (pySet t.required).map fun required =>
    let candidates := ((listActive registry).filter fun a =>
      issubset required (a.capabilities.map (·.val))).insertionSort fun a b =>
        a.agentId.val ≤ b.agentId.val
    match candidates[cursor % candidates.length]? with
    | none => (none, cursor)
    | some a => (some a.agentId, cursor + 1)

/-- A task, assigned to an agent. -/
def Task.assign (t : Task F) (agentId : Text) : Task F :=
  { t with assignedTo := some agentId, status := .assigned }

/-- What a poll makes of a task: the task as it is afterwards, if it is the one. -/
def Task.offer (t : Task F) (agentId : Text) (caps : List PyStr) :
    Except PyError (Option (Task F)) :=
  (pySet t.required).map fun required =>
    if issubset required caps then
      match t.status with
      | .pending => some (t.assign agentId)
      | .assigned =>
        if t.assignedTo = some agentId then some t
        else if t.assignedTo = none then some { t with assignedTo := some agentId }
        else none
      | .inProgress | .completed | .failed => none
    else none

/-- The task that a poll returns. -/
def Task.request (t : Task F) : Except PyError (TaskRequest F) :=
  match ((t.payload.get (py "constraints")).getD .none).orEmpty with
  | .dict constraints => .ok {
      taskId := t.taskId
      missionId := t.missionId
      taskType := t.taskType
      objective := (t.payload.get (py "objective")).getD (.str [])
      deadlineMs := (dictGet (py "deadline_ms") constraints).getD .none
      maxOutputTokens := (dictGet (py "max_output_tokens") constraints).getD (.int 1200)
      outputFormat := (dictGet (py "output_format") constraints).getD .none }
  | _ => .error .attributeError

/-- `next_for_agent`, with the tasks after it. -/
def nextForAgent (agentId : Text) (caps : List PyStr) :
    List (Text × Task F) → List (Text × Task F) × Except PyError (Option (TaskRequest F))
  | [] => ([], .ok none)
  | (id, t) :: tasks =>
    match t.offer agentId caps with
    | .error err => ((id, t) :: tasks, .error err)
    | .ok (some t') => ((id, t') :: tasks, t.request.map some)
    | .ok none =>
      let r := nextForAgent agentId caps tasks
      ((id, t) :: r.1, r.2)

/-! ### Routes -/

/-- `RegisterAgentRequest`. -/
structure RegisterAgentRequest where
  agentId : Text
  agentType : Text
  capabilities : List Text
  publicKey : Text

/-- `CreateMissionRequest`. -/
structure CreateMissionRequest (F : Type) [PyFloat F] where
  title : Text
  description : Text
  metadata : JsonDict F

/-- `CreateTaskRequest`. -/
structure CreateTaskRequest (F : Type) [PyFloat F] where
  missionId : Text
  taskType : Text
  payload : JsonDict F

/-- `SubmitTaskResultRequest`. -/
structure SubmitTaskResultRequest (F : Type) [PyFloat F] where
  agentId : Text
  contributionId : Text
  content : JsonDict F
  selfReportedConfidence : FloatVal F
  signature : Text
  createdAt : Text
  keyId : Option Text
  payloadHash : Option Text

/-- The event of a registration. -/
def registrationEvent (d : Deployment) (s : AppState F) (body : RegisterAgentRequest)
    (w : Attempt) : MeshEvent F :=
  systemEvent (d.ulids.next s.drawn) w.time registryScope d.serverId (.agentRegistered
    ⟨body.agentId, body.agentType, body.capabilities, deriveKeyId d.sha body.publicKey,
      body.publicKey⟩)

/-- `registry.register`. -/
def AppState.register (s : AppState F) (body : RegisterAgentRequest) : AppState F :=
  let agent : Agent :=
    ⟨body.agentId, body.agentType, body.capabilities, body.publicKey, .active⟩
  { s with registry := Dict.set body.agentId agent s.registry }

/-- `register_agent_key`, and the identifier of the event. -/
def AppState.registerKey (d : Deployment) (s : AppState F) (body : RegisterAgentRequest) :
    AppState F :=
  { s with
    keys := Dict.set body.agentId body.publicKey s.keys
    keyIds := Dict.set body.agentId (deriveKeyId d.sha body.publicKey) s.keyIds
    drawn := s.drawn + 1 }

/-- `register_agent`: the agent and its key are there before the event is written. -/
def registerAgent (d : Deployment) (s : AppState F) (body : RegisterAgentRequest) (w : Attempt) :
    AppState F × Answer F :=
  if (Dict.get body.agentId s.registry).isSome then
    (s, .http 409 (py "agent already registered"))
  else
    let s' := s.register body
    if (Dict.get body.agentId s.keys).isSome then (s', .raised .valueError)
    else
      let s' := s'.registerKey d body
      match write w.refuse (registrationEvent d s body w) with
      | .refused => (s', writeFailed)
      | .raised err => (s', .raised err)
      | .written l =>
        ({ s' with log := s.log ++ [l] },
          .registered (deriveKeyId d.sha body.publicKey) (d.ulids.next s.drawn))

/-- The event of a new mission. -/
def missionEvent (d : Deployment) (s : AppState F) (body : CreateMissionRequest F) (w : Attempt) :
    MeshEvent F :=
  missionServerAuthored (d.ulids.next (s.drawn + 1)) w.time (d.ulids.next s.drawn) d.serverId
    (.missionCreated ⟨d.ulids.next s.drawn, body.title, body.description, body.metadata⟩) none

/-- `create_mission`: the event is written first. -/
def createMission (d : Deployment) (s : AppState F) (body : CreateMissionRequest F) (w : Attempt) :
    AppState F × Answer F :=
  let missionId := d.ulids.next s.drawn
  let s' := { s with drawn := s.drawn + 2 }
  match write w.refuse (missionEvent d s body w) with
  | .refused => (s', writeFailed)
  | .raised err => (s', .raised err)
  | .written l =>
    ({ s' with
        log := s.log ++ [l]
        missions := Dict.set missionId ⟨missionId, body.title, body.description⟩ s.missions },
      .missionCreated missionId (d.ulids.next (s.drawn + 1)))

/-- A task as `create_task` makes it. -/
def newTask (d : Deployment) (s : AppState F) (body : CreateTaskRequest F) : Task F :=
  ⟨d.ulids.next s.drawn, body.missionId, body.taskType, body.payload, none, .pending, none⟩

/-- The event of a new task. -/
def createdEvent (d : Deployment) (s : AppState F) (body : CreateTaskRequest F) (w : Attempt) :
    MeshEvent F :=
  missionServerAuthored (d.ulids.next (s.drawn + 1)) w.time body.missionId d.serverId
    (.taskCreated ⟨d.ulids.next s.drawn, body.missionId, body.taskType, body.payload⟩) none

/-- The event of its assignment. -/
def assignedEvent (d : Deployment) (s : AppState F) (body : CreateTaskRequest F) (w : Attempt)
    (assignedTo : Text) : MeshEvent F :=
  missionServerAuthored (d.ulids.next (s.drawn + 2)) w.time body.missionId d.serverId
    (.taskAssigned ⟨d.ulids.next s.drawn, body.missionId, assignedTo⟩)
    (some (d.ulids.next (s.drawn + 1)))

/-- `state.tasks[task_id] = task`. -/
def AppState.setTask (s : AppState F) (task : Task F) : AppState F :=
  { s with tasks := Dict.set task.taskId task s.tasks }

/-- `create_task`: the task is there before either event is written. -/
def createTask (d : Deployment) (s : AppState F) (body : CreateTaskRequest F) (w w' : Attempt) :
    AppState F × Answer F :=
  if (Dict.get body.missionId s.missions).isNone then (s, .http 404 (py "mission not found"))
  else
    let task := newTask d s body
    let s' := { s.setTask task with drawn := s.drawn + 2 }
    match write w.refuse (createdEvent d s body w) with
    | .refused => (s', writeFailed)
    | .raised err => (s', .raised err)
    | .written l =>
      let s' := { s' with log := s.log ++ [l] }
      match assignTask s.registry s.cursor task with
      | .error err => (s', .raised err)
      | .ok (none, _) => (s', .http 503 (py "no_capable_agent_available"))
      | .ok (some assignedTo, cursor) =>
        let s' := { s'.setTask (task.assign assignedTo) with
          cursor := cursor
          drawn := s.drawn + 3 }
        match write w'.refuse (assignedEvent d s body w' assignedTo) with
        | .refused => (s', writeFailed)
        | .raised err => (s', .raised err)
        | .written l' =>
          ({ s' with log := s.log ++ [l] ++ [l'] },
            .taskCreated task.taskId body.missionId (d.ulids.next (s.drawn + 2)) assignedTo)

/-- `[c.strip() for c in capabilities.split(",") if c.strip()]`. -/
def capabilityNames (capabilities : Text) : List PyStr :=
  ((capabilities.val.splitOn 44).filter fun c => strip c ≠ []).map strip

/-- `get_next_task`. -/
def getNextTask (s : AppState F) (agentId capabilities : Text) : AppState F × Answer F :=
  let r := nextForAgent agentId (capabilityNames capabilities) s.tasks
  ({ s with tasks := r.1 },
    match r.2 with
    | .error err => .raised err
    | .ok none => .noContent
    | .ok (some task) => .next task)

/-- The style of `json.dumps(content, default=str)`. -/
def spacedStyle : Style := ⟨true, true, true⟩

/-- The payload of the event of a result. -/
def taskResult (contentHash taskId : Text) (task : Task F) (body : SubmitTaskResultRequest F) :
    TaskResult F :=
  ⟨taskId, task.missionId, body.agentId, body.contributionId, contentHash, body.signature,
    body.selfReportedConfidence, body.createdAt, body.content, body.payloadHash⟩

/-- The event of a result whose signature was verified. -/
def resultEvent (d : Deployment) (eventId time keyId contentHash taskId : Text) (task : Task F)
    (body : SubmitTaskResultRequest F) : MeshEvent F :=
  { missionAgentAuthored eventId time task.missionId d.serverId body.agentId
      (.taskResultSubmitted (taskResult contentHash taskId task body)) with
    auth := ⟨false, true, true, some keyId, some ⟨py "ed25519", by decide⟩⟩ }

/-- `submit_task_result`. -/
def submitTaskResult (d : Deployment) (s : AppState F) (taskId : Text)
    (body : SubmitTaskResultRequest F) (w : Attempt) : AppState F × Answer F :=
  match Dict.get taskId s.tasks with
  | none => (s, .http 404 (py "task not found"))
  | some task =>
  match Dict.get body.agentId s.keyIds with
  | none => (s, .http 422 (py "agent_unknown"))
  | some keyId =>
  if task.assignedTo ≠ some body.agentId then (s, .http 403 (py "agent_not_assignee"))
  else
  match dumps spacedStyle body.content.toPy with
  | .error err => (s, .raised (DumpsError.toPyError err))
  | .ok text =>
  if d.maxResultContentBytes < text.length then (s, .http 413 (py "result_content_too_large"))
  else
  match computeContentHash d.sha body.content with
  | .error err => (s, .raised err)
  | .ok contentHash =>
  match verifyContribution d s.keys body.agentId (signingPayload (F := F) body.agentId keyId
    task.missionId taskId body.contributionId contentHash body.createdAt) body.signature with
  | .error err => (s, .raised err)
  | .ok (some reason) => (s, .http 422 (py "signature_invalid:" ++ reason))
  | .ok none =>
  if body.keyId ≠ none ∧ body.keyId ≠ some keyId then (s, .http 422 (py "key_id_mismatch"))
  else
    let eventId := d.ulids.next s.drawn
    match write w.refuse (resultEvent d eventId w.time keyId contentHash taskId task body) with
    | .refused => ({ s with drawn := s.drawn + 1 }, writeFailed)
    | .raised err => ({ s with drawn := s.drawn + 1 }, .raised err)
    | .written l =>
      ({ s with
          drawn := s.drawn + 2
          log := s.log ++ [l]
          tasks := Dict.set taskId { task with status := .completed, result := some body.content }
            s.tasks },
        .submitted taskId eventId (d.ulids.next (s.drawn + 1)) (l.entryHash d.sha))

/-- The query of a context pack. -/
structure ContextQuery where
  consumerAgentId : Text
  scope : Text
  limit : ℤ

/-- What a request finds in the index database: whether a mission is there, and the identifiers of
the events of a scope, up to a limit. -/
structure IndexDB where
  hasMission : Text → Bool
  fetchEvents : Text → ℤ → List Text

/-- `f"ctx_{new_event_id()}"`. -/
def contextId (id : Text) : Text := ⟨py "ctx_" ++ id.val, encodable_append.mpr ⟨by decide, id.2⟩⟩

/-- The mission or the agent of the scope is known to nobody. -/
def scopeError (s : AppState F) (index : IndexDB) (scope : Text) : Option PyStr :=
  match scopeOf? (py "mission") scope, scopeOf? (py "agent") scope with
  | some missionId, _ =>
    if index.hasMission missionId || (Dict.get missionId s.missions).isSome then none
    else some (py "mission_not_found")
  | none, some agentId =>
    if (Dict.get agentId s.registry).isSome then none else some (py "agent_not_found")
  | none, none => none

/-- What is written of a context pack. -/
def contextPack (d : Deployment) (s : AppState F) (index : IndexDB) (query : ContextQuery) :
    ContextPackIssued :=
  ⟨contextId (d.ulids.next s.drawn), query.consumerAgentId, query.scope,
    index.fetchEvents query.scope query.limit⟩

/-- The event of a context pack. -/
def contextEvent (d : Deployment) (s : AppState F) (index : IndexDB) (query : ContextQuery)
    (w : Attempt) : MeshEvent F :=
  contextPackIssued (d.ulids.next (s.drawn + 1)) w.time d.serverId (contextPack d s index query)

/-- `get_context`.  Of the pack, the answer has its identifier and that of its event. -/
def getContext (d : Deployment) (s : AppState F) (index : IndexDB) (query : ContextQuery)
    (w : Attempt) : AppState F × Answer F :=
  match scopeError s index query.scope with
  | some detail => (s, .http 404 detail)
  | none =>
    let s' := { s with drawn := s.drawn + 2 }
    match write w.refuse (contextEvent d s index query w) with
    | .refused => (s', writeFailed)
    | .raised err => (s', .raised err)
    | .written l =>
      ({ s' with log := s.log ++ [l] },
        .contextPack (contextId (d.ulids.next s.drawn)) (d.ulids.next (s.drawn + 1)))

/-! ### Requests -/

/-- A request. -/
inductive Request (F : Type) [PyFloat F]
  | register (body : RegisterAgentRequest) (w : Attempt)
  | createMission (body : CreateMissionRequest F) (w : Attempt)
  | createTask (body : CreateTaskRequest F) (w w' : Attempt)
  | nextTask (agentId capabilities : Text)
  | submit (taskId : Text) (body : SubmitTaskResultRequest F) (w : Attempt)
  | getContext (index : IndexDB) (query : ContextQuery) (w : Attempt)

/-- The state after a request, and its answer. -/
def handle (d : Deployment) (s : AppState F) : Request F → AppState F × Answer F
  | .register body w => registerAgent d s body w
  | .createMission body w => createMission d s body w
  | .createTask body w w' => createTask d s body w w'
  | .nextTask agentId capabilities => getNextTask s agentId capabilities
  | .submit taskId body w => submitTaskResult d s taskId body w
  | .getContext index query w => getContext d s index query w

/-- The state after a request. -/
def serve (d : Deployment) (s : AppState F) (r : Request F) : AppState F := (handle d s r).1

/-- The event of a start. -/
def startedEvent (F : Type) [PyFloat F] (d : Deployment) (time : Text) : MeshEvent F :=
  systemEvent (d.ulids.next 0) time lifecycleScope d.serverId (.serverStarted d.serverId)

/-- The state of a server on an empty directory, after its `server_started`. -/
def started (F : Type) [PyFloat F] (d : Deployment) (time : Text) : AppState F where
  registry := []
  keys := []
  keyIds := []
  missions := []
  tasks := []
  cursor := 0
  drawn := 1
  log := (write false (startedEvent F d time)).lines

theorem log_started (d : Deployment) (time : Text) :
    (started F d time).log = (write false (startedEvent F d time)).lines := by
  rw [started]

/-- The writer refuses nothing of the request. -/
def Request.Unrefused : Request F → Prop
  | .register _ w | .createMission _ w | .submit _ _ w | .getContext _ _ w => w.refuse = false
  | .createTask _ w w' => w.refuse = false ∧ w'.refuse = false
  | .nextTask _ _ => True

/-! ### What a registration does -/

/-- **What a registration does.** -/
theorem registerAgent_cases (d : Deployment) (s : AppState F) (body : RegisterAgentRequest)
    (w : Attempt) :
    ((Dict.get body.agentId s.registry).isSome ∧ (registerAgent d s body w).1 = s) ∨
    (Dict.get body.agentId s.registry = none ∧ (Dict.get body.agentId s.keys).isSome ∧
      (registerAgent d s body w).1 = s.register body) ∨
    (Dict.get body.agentId s.registry = none ∧ Dict.get body.agentId s.keys = none ∧
      (registerAgent d s body w).1 = { (s.register body).registerKey d body with
        log := s.log ++ (write w.refuse (registrationEvent d s body w)).lines }) := by
  unfold registerAgent
  split
  · next h => exact .inl ⟨h, rfl⟩
  next h =>
  rw [Bool.not_eq_true, Option.isSome_eq_false_iff, Option.isNone_iff_eq_none] at h
  dsimp only
  split
  · next hkey => exact .inr (.inl ⟨h, hkey, rfl⟩)
  next hkey =>
  rw [Bool.not_eq_true, Option.isSome_eq_false_iff, Option.isNone_iff_eq_none] at hkey
  refine .inr (.inr ⟨h, hkey, ?_⟩)
  cases write w.refuse (registrationEvent d s body w) with
  | refused => rw [WriteEnd.lines, List.append_nil]; rfl
  | raised err => rw [WriteEnd.lines, List.append_nil]; rfl
  | written l => rfl

/-- **What a new mission does**: nothing, unless it is written. -/
theorem createMission_cases (d : Deployment) (s : AppState F) (body : CreateMissionRequest F)
    (w : Attempt) :
    (createMission d s body w).1 = { s with drawn := s.drawn + 2 } ∨
    ∃ l, l.event = missionEvent d s body w ∧ (createMission d s body w).1 = { s with
      drawn := s.drawn + 2
      log := s.log ++ [l]
      missions := Dict.set (d.ulids.next s.drawn)
        ⟨d.ulids.next s.drawn, body.title, body.description⟩ s.missions } := by
  unfold createMission
  dsimp only
  rcases write_cases w.refuse (missionEvent d s body w) with ⟨-, hw⟩ | ⟨-, -, err, hw⟩ |
    ⟨-, -, l, hl, hw⟩
  · exact .inl (by rw [hw])
  · exact .inl (by rw [hw])
  · exact .inr ⟨l, hl, by rw [hw]⟩

/-- **What a new task does**: it is pending in any case, and assigned in any case where an
agent can take it. -/
theorem createTask_cases (d : Deployment) (s : AppState F) (body : CreateTaskRequest F)
    (w w' : Attempt) :
    (Dict.get body.missionId s.missions = none ∧ (createTask d s body w w').1 = s) ∨
    ((Dict.get body.missionId s.missions).isSome ∧
      ¬ (w.refuse = false ∧ eachStr Encodable body.payload.toPy) ∧
      (createTask d s body w w').1 = { s.setTask (newTask d s body) with drawn := s.drawn + 2 }) ∨
    ((Dict.get body.missionId s.missions).isSome ∧
      (w.refuse = false ∧ eachStr Encodable body.payload.toPy) ∧
      ∃ l, l.event = createdEvent d s body w ∧
        (((∀ a n, assignTask s.registry s.cursor (newTask d s body) ≠ .ok (some a, n)) ∧
          (createTask d s body w w').1 = { s.setTask (newTask d s body) with
            drawn := s.drawn + 2
            log := s.log ++ [l] }) ∨
        ∃ a n, assignTask s.registry s.cursor (newTask d s body) = .ok (some a, n) ∧
          (createTask d s body w w').1 =
            { (s.setTask (newTask d s body)).setTask ((newTask d s body).assign a) with
              cursor := n
              drawn := s.drawn + 3
              log := s.log ++ [l] ++ (write w'.refuse (assignedEvent d s body w' a)).lines })) := by
  unfold createTask
  split
  · next h => exact .inl ⟨Option.isNone_iff_eq_none.mp h, rfl⟩
  next h =>
  have hmission : (Dict.get body.missionId s.missions).isSome := by
    rwa [Bool.not_eq_true, Option.isNone_eq_false_iff] at h
  dsimp only
  rcases write_cases w.refuse (createdEvent d s body w) with ⟨href, hw⟩ | ⟨-, henc, err, hw⟩ |
    ⟨href, henc, l, hl, hw⟩
  · -- the creation is refused
    refine .inr (.inl ⟨hmission, fun h' => ?_, by rw [hw]⟩)
    exact Bool.false_ne_true (h'.1.symm.trans href)
  · -- or does not encode
    exact .inr (.inl ⟨hmission, fun h' => henc h'.2, by rw [hw]⟩)
  -- it is written, and the task is offered to the agents
  refine .inr (.inr ⟨hmission, ⟨href, henc⟩, l, hl, ?_⟩)
  rw [hw]
  dsimp only
  cases hassign : assignTask s.registry s.cursor (newTask d s body) with
  | error err => exact .inl ⟨by rintro _ _ ⟨⟩, rfl⟩
  | ok r =>
    obtain ⟨_ | a, n⟩ := r
    · exact .inl ⟨by rintro _ _ ⟨⟩, rfl⟩
    refine .inr ⟨a, n, rfl, ?_⟩
    dsimp only
    cases write w'.refuse (assignedEvent d s body w' a) with
    | refused => rw [WriteEnd.lines, List.append_nil]; rfl
    | raised err => rw [WriteEnd.lines, List.append_nil]; rfl
    | written l' => rfl

/-! ### What a poll does -/

/-- A poll may take the task: it is pending, the agent's own or nobody's. -/
def Task.Free (agentId : Text) (t : Task F) : Prop :=
  t.status = .pending ∨ t.status = .assigned ∧ (t.assignedTo = some agentId ∨ t.assignedTo = none)

instance (agentId : Text) (t : Task F) : Decidable (t.Free agentId) :=
  inferInstanceAs (Decidable (_ ∨ _ ∧ (_ ∨ _)))

/-- The first task that suits the poll has an owner, unless the poll fails before it. -/
def Unclaimed (agentId : Text) (caps : List PyStr) : List (Text × Task F) → Prop
  | [] => True
  | (_, t) :: tasks =>
    match pySet t.required with
    | .error _ => True
    | .ok required =>
      if issubset required caps ∧ t.Free agentId then t.assignedTo ≠ none
      else Unclaimed agentId caps tasks

theorem offer_of_not_free {t : Task F} {agentId : Text} {caps : List PyStr}
    {required : List (PyVal F)} (hset : pySet t.required = .ok required)
    (h : ¬ (issubset required caps ∧ t.Free agentId)) : t.offer agentId caps = .ok none := by
  rw [Task.offer, hset, Except.map]
  congr 1
  split
  · next hsub =>
    have hfree : ¬ t.Free agentId := fun hf => h ⟨hsub, hf⟩
    rw [Task.Free, not_or, not_and] at hfree
    cases hstatus : t.status with
    | pending => exact absurd hstatus hfree.1
    | assigned =>
      obtain ⟨hown, hnone⟩ := not_or.mp (hfree.2 hstatus)
      dsimp only
      rw [if_neg hown, if_neg hnone]
    | inProgress | completed | failed => rfl
  · rfl

/-- A task that suits the poll and has an owner is returned as it is. -/
theorem offer_of_owned {t : Task F} {agentId : Text} {caps : List PyStr}
    {required : List (PyVal F)} (hset : pySet t.required = .ok required)
    (hsub : issubset required caps) (hfree : t.Free agentId) (howned : t.assignedTo ≠ none)
    (hpending : t.status = .pending → t.assignedTo = none) :
    t.offer agentId caps = .ok (some t) := by
  rw [Task.offer, hset, Except.map, if_pos hsub]
  congr 1
  rcases hfree with hstatus | ⟨hstatus, hown | hnone⟩
  · exact absurd (hpending hstatus) howned
  · rw [hstatus]
    dsimp only
    rw [if_pos hown]
  · exact absurd hnone howned

/-- A task that suits the poll and has none is given to the agent. -/
theorem offer_of_unowned {t : Task F} {agentId : Text} {caps : List PyStr}
    {required : List (PyVal F)} (hset : pySet t.required = .ok required)
    (hsub : issubset required caps) (hfree : t.Free agentId) (hnone : t.assignedTo = none) :
    t.offer agentId caps = .ok (some (t.assign agentId)) := by
  rw [Task.offer, hset, Except.map, if_pos hsub]
  congr 1
  obtain ⟨taskId, missionId, taskType, payload, assignedTo, status, result⟩ := t
  obtain rfl : assignedTo = none := hnone
  rcases hfree with hstatus | ⟨hstatus, -⟩
  · obtain rfl : status = .pending := hstatus
    rfl
  · obtain rfl : status = .assigned := hstatus
    rfl

/-- A poll that claims nothing leaves the tasks as they are. -/
theorem nextForAgent_of_unclaimed {agentId : Text} {caps : List PyStr}
    {tasks : List (Text × Task F)} (h : Unclaimed agentId caps tasks)
    (hpending : ∀ p ∈ tasks, p.2.status = .pending → p.2.assignedTo = none) :
    (nextForAgent agentId caps tasks).1 = tasks := by
  induction tasks with
  | nil => rfl
  | cons p tasks ih =>
    obtain ⟨id, t⟩ := p
    rw [Unclaimed] at h
    rw [nextForAgent]
    cases hset : pySet t.required with
    | error err => rw [Task.offer, hset]; rfl
    | ok required =>
      rw [hset] at h
      dsimp only at h
      split at h
      · next hsuits =>
        rw [offer_of_owned hset hsuits.1 hsuits.2 h (hpending (id, t) List.mem_cons_self)]
      · next hsuits =>
        rw [offer_of_not_free hset hsuits]
        dsimp only
        rw [ih h fun p hp => hpending p (List.mem_cons_of_mem _ hp)]

/-- **A poll that claims a task changes that task alone.** -/
theorem nextForAgent_of_claimed {agentId : Text} {caps : List PyStr}
    {tasks : List (Text × Task F)} (h : ¬ Unclaimed agentId caps tasks)
    (hnodup : (Dict.keys tasks).Nodup) :
    ∃ id t, Dict.get id tasks = some t ∧ t.assignedTo = none ∧
      (nextForAgent agentId caps tasks).1 = Dict.set id (t.assign agentId) tasks := by
  induction tasks with
  | nil => exact absurd trivial h
  | cons p tasks ih =>
    obtain ⟨id, t⟩ := p
    rw [Unclaimed] at h
    cases hset : pySet t.required with
    | error err =>
      rw [hset] at h
      exact absurd trivial h
    | ok required =>
      rw [hset] at h
      dsimp only at h
      split at h
      · next hsuits =>
        refine ⟨id, t, by rw [Dict.get, if_pos rfl], not_not.mp h, ?_⟩
        rw [nextForAgent, offer_of_unowned hset hsuits.1 hsuits.2 (not_not.mp h), Dict.set,
          if_pos rfl]
      · next hsuits =>
        rw [Dict.keys_cons, List.nodup_cons] at hnodup
        obtain ⟨id', t', hget, hnone, hset'⟩ := ih h hnodup.2
        have hne : id ≠ id' := fun heq =>
          hnodup.1 (heq ▸ Dict.get_isSome.mp (Option.isSome_of_mem hget))
        refine ⟨id', t', by rw [Dict.get, if_neg hne, hget], hnone, ?_⟩
        rw [nextForAgent, offer_of_not_free hset hsuits, Dict.set, if_neg hne, ← hset']

/-! ### What a submission does -/

/-- A submission that passes the checks of the route, and whose event can be written. -/
structure Accepted (d : Deployment) (s : AppState F) (taskId : Text)
    (body : SubmitTaskResultRequest F) (w : Attempt) (task : Task F) (keyId contentHash : Text) :
    Prop where
  found : Dict.get taskId s.tasks = some task
  known : Dict.get body.agentId s.keyIds = some keyId
  assignee : task.assignedTo = some body.agentId
  size : ∃ text, dumps spacedStyle body.content.toPy = .ok text ∧
    (text.length : ℤ) ≤ d.maxResultContentBytes
  hashed : computeContentHash d.sha body.content = .ok contentHash
  signature : verifyContribution d s.keys body.agentId (signingPayload (F := F) body.agentId keyId
    task.missionId taskId body.contributionId contentHash body.createdAt) body.signature = .ok none
  named : body.keyId = none ∨ body.keyId = some keyId
  allowed : w.refuse = false
  encodes : eachStr Encodable body.content.toPy

/-- The state after a submission was accepted. -/
def AppState.complete (s : AppState F) (taskId : Text) (task : Task F) (content : JsonDict F)
    (l : LoggedEvent F) : AppState F :=
  { s with
    drawn := s.drawn + 2
    log := s.log ++ [l]
    tasks := Dict.set taskId { task with status := .completed, result := some content } s.tasks }

/-- **What a submission does**: it is accepted, and the task completed, or nothing happens
but that an identifier may be used up. -/
theorem submit_cases (d : Deployment) (s : AppState F) (taskId : Text)
    (body : SubmitTaskResultRequest F) (w : Attempt) :
    (∃ task keyId contentHash l, Accepted d s taskId body w task keyId contentHash ∧
      l.event = resultEvent d (d.ulids.next s.drawn) w.time keyId contentHash taskId task body ∧
      submitTaskResult d s taskId body w = (s.complete taskId task body.content l,
        .submitted taskId (d.ulids.next s.drawn) (d.ulids.next (s.drawn + 1))
          (l.entryHash d.sha))) ∨
    ((∀ task keyId contentHash, ¬ Accepted d s taskId body w task keyId contentHash) ∧
      (∃ n, s.drawn ≤ n ∧ (submitTaskResult d s taskId body w).1 = { s with drawn := n }) ∧
      ∀ t e r h, (submitTaskResult d s taskId body w).2 ≠ .submitted t e r h) := by
  -- a check that fails refutes the acceptance, and the route returns there
  unfold submitTaskResult
  split
  · next htask =>
    exact .inr ⟨fun _ _ _ ha => (nomatch htask.symm.trans ha.found), ⟨_, le_rfl, rfl⟩, nofun⟩
  next task htask =>
  split
  · next hkey =>
    exact .inr ⟨fun _ _ _ ha => (nomatch hkey.symm.trans ha.known), ⟨_, le_rfl, rfl⟩, nofun⟩
  next keyId hkey =>
  have hsame {task' keyId' contentHash' : _} (ha : Accepted d s taskId body w task' keyId'
      contentHash') : task' = task ∧ keyId' = keyId :=
    ⟨Option.some.inj (ha.found.symm.trans htask), Option.some.inj (ha.known.symm.trans hkey)⟩
  split
  · next howner =>
    refine .inr ⟨fun _ _ _ ha => ?_, ⟨_, le_rfl, rfl⟩, nofun⟩
    obtain ⟨rfl, rfl⟩ := hsame ha
    exact howner ha.assignee
  next howner =>
  split
  · next htext =>
    refine .inr ⟨fun _ _ _ ha => ?_, ⟨_, le_rfl, rfl⟩, nofun⟩
    obtain ⟨_, htext', -⟩ := ha.size
    exact nomatch htext.symm.trans htext'
  next text htext =>
  split
  · next hsize =>
    refine .inr ⟨fun _ _ _ ha => ?_, ⟨_, le_rfl, rfl⟩, nofun⟩
    obtain ⟨text', htext', hle⟩ := ha.size
    obtain rfl : text' = text := Except.ok.inj (htext'.symm.trans htext)
    omega
  next hsize =>
  split
  · next hhash =>
    exact .inr ⟨fun _ _ _ ha => (nomatch hhash.symm.trans ha.hashed), ⟨_, le_rfl, rfl⟩, nofun⟩
  next contentHash hhash =>
  have hsig' {task' keyId' contentHash' : _} (ha : Accepted d s taskId body w task' keyId'
      contentHash') : verifyContribution d s.keys body.agentId (signingPayload (F := F)
        body.agentId keyId task.missionId taskId body.contributionId contentHash body.createdAt)
        body.signature = .ok none := by
    obtain ⟨rfl, rfl⟩ := hsame ha
    obtain rfl : contentHash' = contentHash := Except.ok.inj (ha.hashed.symm.trans hhash)
    exact ha.signature
  split
  · next hsig =>
    exact .inr ⟨fun _ _ _ ha => (nomatch hsig.symm.trans (hsig' ha)), ⟨_, le_rfl, rfl⟩, nofun⟩
  · next hsig =>
    exact .inr ⟨fun _ _ _ ha => (nomatch hsig.symm.trans (hsig' ha)), ⟨_, le_rfl, rfl⟩, nofun⟩
  next hsig =>
  split
  · next hnamed =>
    refine .inr ⟨fun _ _ _ ha => ?_, ⟨_, le_rfl, rfl⟩, nofun⟩
    obtain ⟨rfl, rfl⟩ := hsame ha
    exact ha.named.elim hnamed.1 hnamed.2
  next hnamed =>
  rw [not_and_or, not_not, not_not] at hnamed
  dsimp only
  rcases write_cases w.refuse (resultEvent d (d.ulids.next s.drawn) w.time keyId contentHash
    taskId task body) with ⟨href, hw⟩ | ⟨-, henc, err, hw⟩ | ⟨href, henc, l, hl, hw⟩
  · rw [hw]
    refine .inr ⟨fun _ _ _ ha => ?_, ⟨_, Nat.le_succ _, rfl⟩, nofun⟩
    exact Bool.false_ne_true (ha.allowed.symm.trans href)
  · rw [hw]
    exact .inr ⟨fun _ _ _ ha => henc ha.encodes, ⟨_, Nat.le_succ _, rfl⟩, nofun⟩
  · rw [hw]
    refine .inl ⟨task, keyId, contentHash, l, ?_, hl, rfl⟩
    exact ⟨htask, hkey, not_not.mp howner, ⟨text, htext, not_lt.mp hsize⟩, hhash, hsig, hnamed,
      href, henc⟩

/-! ### What a context pack does -/

/-- **A context pack writes its event, or none**, and changes nothing in memory but the
identifiers that are used up. -/
theorem getContext_cases (d : Deployment) (s : AppState F) (index : IndexDB) (query : ContextQuery)
    (w : Attempt) :
    ∃ n ls, s.drawn ≤ n ∧ (∀ l ∈ ls, l.event = contextEvent d s index query w) ∧
      (getContext d s index query w).1 = { s with drawn := n, log := s.log ++ ls } := by
  unfold getContext
  cases scopeError s index query.scope with
  | some detail => exact ⟨s.drawn, [], le_rfl, List.forall_mem_nil _, by rw [List.append_nil]⟩
  | none =>
    dsimp only
    refine ⟨s.drawn + 2, (write w.refuse (contextEvent d s index query w)).lines,
      Nat.le_add_right _ 2, fun l hl => event_of_mem_lines hl, ?_⟩
    cases write w.refuse (contextEvent d s index query w) with
    | refused => rw [WriteEnd.lines, List.append_nil]
    | raised err => rw [WriteEnd.lines, List.append_nil]
    | written l => rfl

theorem payload_contextPack {d : Deployment} {s : AppState F} {index : IndexDB}
    {query : ContextQuery} {w : Attempt} {ls : List (LoggedEvent F)}
    (h : ∀ l ∈ ls, l.event = contextEvent d s index query w) :
    ∀ l ∈ ls, l.event.payload = .contextPackIssued (contextPack d s index query) := by
  intro l hl
  rw [h l hl, contextEvent, (contextPackIssued_spec _ _ _ _).1]

/-! ### What holds in every state -/

/-- A task is pending and nobody's, or it has an owner. -/
def Task.Owned (t : Task F) : Prop :=
  (t.status = .pending ∧ t.assignedTo = none) ∨
    ((t.status = .assigned ∨ t.status = .completed) ∧ ∃ a, t.assignedTo = some a)

theorem Task.Owned.pending {t : Task F} (h : t.Owned) (hstatus : t.status = .pending) :
    t.assignedTo = none := by
  rcases h with ⟨-, hnone⟩ | ⟨h' | h', -⟩
  · exact hnone
  · exact nomatch hstatus.symm.trans h'
  · exact nomatch hstatus.symm.trans h'

theorem owned_assign (t : Task F) (a : Text) : (t.assign a).Owned := .inr ⟨.inl rfl, a, rfl⟩

/-- The tasks are kept under their identifiers, which were drawn. -/
structure TasksCoherent (ulids : Ulids) (drawn : ℕ) (tasks : List (Text × Task F)) : Prop where
  nodup : (Dict.keys tasks).Nodup
  named : ∀ id t, Dict.get id tasks = some t → t.taskId = id
  drawn : ∀ id t, Dict.get id tasks = some t → ∃ n < drawn, id = ulids.next n
  owned : ∀ id t, Dict.get id tasks = some t → t.Owned

/-- Every agent of the registry has its key, and no other has one. -/
structure KeysCoherent (sha : Sha256) (registry : List (Text × Agent))
    (keys keyIds : List (Text × Text)) : Prop where
  registered : ∀ id, Dict.get id keys = (Dict.get id registry).map Agent.publicKey
  derived : ∀ id, Dict.get id keyIds = (Dict.get id keys).map (deriveKeyId sha)

/-- The state is one that requests lead to. -/
structure Coherent (d : Deployment) (s : AppState F) : Prop where
  tasks : TasksCoherent d.ulids s.drawn s.tasks
  keys : KeysCoherent d.sha s.registry s.keys s.keyIds

theorem TasksCoherent.mono {ulids : Ulids} {m n : ℕ} {tasks : List (Text × Task F)}
    (h : TasksCoherent ulids m tasks) (hle : m ≤ n) : TasksCoherent ulids n tasks :=
  ⟨h.nodup, h.named, fun id t hget => (h.drawn id t hget).imp fun _ hk => ⟨hk.1.trans_le hle, hk.2⟩,
    h.owned⟩

theorem TasksCoherent.set {ulids : Ulids} {n : ℕ} {tasks : List (Text × Task F)}
    (h : TasksCoherent ulids n tasks) {t : Task F} (hid : ∃ k < n, t.taskId = ulids.next k)
    (howned : t.Owned) : TasksCoherent ulids n (Dict.set t.taskId t tasks) := by
  have hcases {id : Text} {u : Task F} (hget : Dict.get id (Dict.set t.taskId t tasks) = some u) :
      (t.taskId = id ∧ t = u) ∨ Dict.get id tasks = some u := by
    rw [Dict.get_set] at hget
    split_ifs at hget with heq
    · exact .inl ⟨heq, Option.some.inj hget⟩
    · exact .inr hget
  refine ⟨Dict.nodup_keys_set h.nodup, fun id u hget => ?_, fun id u hget => ?_, fun id u hget => ?_⟩
  · obtain ⟨heq, rfl⟩ | hget := hcases hget
    · exact heq
    · exact h.named id u hget
  · obtain ⟨rfl, rfl⟩ | hget := hcases hget
    · exact hid
    · exact h.drawn id u hget
  · obtain ⟨-, rfl⟩ | hget := hcases hget
    · exact howned
    · exact h.owned id u hget

/-- A task of the state, changed: it keeps its identifier. -/
theorem TasksCoherent.update {ulids : Ulids} {n : ℕ} {tasks : List (Text × Task F)}
    (h : TasksCoherent ulids n tasks) {id : Text} {t t' : Task F} (hget : Dict.get id tasks = some t)
    (hid : t'.taskId = t.taskId) (howned : t'.Owned) :
    TasksCoherent ulids n (Dict.set id t' tasks) := by
  obtain rfl : t'.taskId = id := hid.trans (h.named id t hget)
  exact h.set (h.drawn _ t hget) howned

/-- A new identifier is not the identifier of a task. -/
theorem TasksCoherent.fresh {ulids : Ulids} {n : ℕ} {tasks : List (Text × Task F)}
    (h : TasksCoherent ulids n tasks) : Dict.get (ulids.next n) tasks = none := by
  rw [Option.eq_none_iff_forall_ne_some]
  intro t hget
  obtain ⟨k, hk, heq⟩ := h.drawn _ t hget
  exact hk.ne' (ulids.injective heq)

theorem KeysCoherent.set {sha : Sha256} {registry : List (Text × Agent)}
    {keys keyIds : List (Text × Text)} (h : KeysCoherent sha registry keys keyIds) (agent : Agent) :
    KeysCoherent sha (Dict.set agent.agentId agent registry)
      (Dict.set agent.agentId agent.publicKey keys)
      (Dict.set agent.agentId (deriveKeyId sha agent.publicKey) keyIds) := by
  constructor
  · intro id
    rw [Dict.get_set, Dict.get_set]
    split_ifs
    · rfl
    · exact h.registered id
  · intro id
    rw [Dict.get_set, Dict.get_set]
    split_ifs
    · rfl
    · exact h.derived id

theorem coherent_started (d : Deployment) (time : Text) : Coherent d (started F d time) :=
  ⟨⟨List.nodup_nil, nofun, nofun, nofun⟩, ⟨fun _ => rfl, fun _ => rfl⟩⟩

/-- **What a request leaves is coherent.** -/
theorem coherent_serve {d : Deployment} {s : AppState F} (h : Coherent d s) (r : Request F) :
    Coherent d (serve d s r) := by
  cases r with
  | register body w =>
    rw [serve, handle]
    rcases registerAgent_cases d s body w with ⟨-, hs⟩ | ⟨hreg, hkey, -⟩ | ⟨-, -, hs⟩
    · rw [hs]; exact h
    · -- an agent that is not in the registry has no key
      rw [h.keys.registered, hreg] at hkey
      exact absurd hkey Bool.false_ne_true
    · rw [hs]
      exact ⟨h.tasks.mono (Nat.le_succ _), h.keys.set ⟨body.agentId, body.agentType,
        body.capabilities, body.publicKey, .active⟩⟩
  | createMission body w =>
    rw [serve, handle]
    rcases createMission_cases d s body w with hs | ⟨l, -, hs⟩
    · rw [hs]; exact ⟨h.tasks.mono (Nat.le_add_right _ 2), h.keys⟩
    · rw [hs]; exact ⟨h.tasks.mono (Nat.le_add_right _ 2), h.keys⟩
  | createTask body w w' =>
    rw [serve, handle]
    have hnew {n : ℕ} (hn : s.drawn < n) :
        TasksCoherent d.ulids n (Dict.set (newTask d s body).taskId (newTask d s body) s.tasks) :=
      (h.tasks.mono hn.le).set ⟨s.drawn, hn, rfl⟩ (.inl ⟨rfl, rfl⟩)
    rcases createTask_cases d s body w w' with ⟨-, hs⟩ | ⟨-, -, hs⟩ |
      ⟨-, -, l, -, ⟨-, hs⟩ | ⟨a, n, -, hs⟩⟩
    · rw [hs]; exact h
    · rw [hs]; exact ⟨hnew (by simp), h.keys⟩
    · rw [hs]; exact ⟨hnew (by simp), h.keys⟩
    · have hassigned := (hnew (show s.drawn < s.drawn + 3 by omega)).set
        (t := (newTask d s body).assign a) ⟨s.drawn, by omega, rfl⟩ (owned_assign _ a)
      rw [hs]; exact ⟨hassigned, h.keys⟩
  | nextTask agentId capabilities =>
    rw [serve, handle, getNextTask]
    refine ⟨?_, h.keys⟩
    dsimp only
    by_cases hclaim : Unclaimed agentId (capabilityNames capabilities) s.tasks
    · rw [nextForAgent_of_unclaimed hclaim fun p hp => (h.tasks.owned p.1 p.2
        (Dict.get_of_mem h.tasks.nodup hp)).pending]
      exact h.tasks
    · obtain ⟨id, t, hget, -, hs⟩ := nextForAgent_of_claimed hclaim h.tasks.nodup
      rw [hs]
      exact h.tasks.update hget rfl (owned_assign t agentId)
  | submit taskId body w =>
    rw [serve, handle]
    rcases submit_cases d s taskId body w with ⟨task, keyId, contentHash, l, hacc, -, hs⟩ |
      ⟨-, ⟨n, hn, hs⟩, -⟩
    · rw [hs]
      exact ⟨(h.tasks.mono (Nat.le_add_right _ 2)).update hacc.found rfl
        (.inr ⟨.inr rfl, _, hacc.assignee⟩), h.keys⟩
    · rw [hs]; exact ⟨h.tasks.mono hn, h.keys⟩
  | getContext index query w =>
    obtain ⟨n, ls, hn, -, hs⟩ := getContext_cases d s index query w
    rw [serve, handle, hs]
    exact ⟨h.tasks.mono hn, h.keys⟩

/-! ### A sample -/

/-- Identifiers that differ in length. -/
def sampleUlids : Ulids where
  next n := ⟨List.replicate (n + 1) 48, fun c hc => List.eq_of_mem_replicate hc ▸ by decide⟩
  injective m n h := by
    have hlength := congrArg (fun t : Text => t.val.length) h
    simpa using hlength
  ne_nil n := by simp

/-- A server whose agents all sign well. -/
def sampleDeployment : Deployment where
  serverId := ⟨py "server_main", by decide⟩
  maxResultContentBytes := 262144
  sha := fun _ => List.replicate 64 0
  verifyBytes := fun _ _ _ => true
  ulids := sampleUlids

/-- Some time. -/
def sampleTimeText : Text := ⟨py "2026-01-02T03:04:05.000Z", by decide⟩

/-- A write that is not refused. -/
def sampleAttempt : Attempt := ⟨sampleTimeText, false⟩

/-- The agent of the sample, and what it can do. -/
def sampleAgent : Text := ⟨py "ada", by decide⟩

@[inherit_doc sampleAgent]
def sampleSkill : Text := ⟨py "sum", by decide⟩

/-- `{}`. -/
def emptyDict (F : Type) [PyFloat F] : JsonDict F := ⟨[], rfl⟩

/-- An agent registers, and a mission gets a task. -/
def sampleSetup : List (Request FloatLit) :=
  [.register ⟨sampleAgent, sampleSkill, [sampleSkill], sampleAgent⟩ sampleAttempt,
    .createMission ⟨sampleSkill, sampleSkill, emptyDict FloatLit⟩ sampleAttempt,
    .createTask ⟨sampleUlids.next 2, sampleSkill, emptyDict FloatLit⟩ sampleAttempt sampleAttempt]

/-- The agent sends a result. -/
def sampleSubmission : Request FloatLit :=
  .submit (sampleUlids.next 4)
    ⟨sampleAgent, sampleSkill, emptyDict FloatLit, .finite ⟨false, 0, .frac 9 [] none⟩, sampleSkill,
      sampleTimeText, none, none⟩ sampleAttempt

end Mesh

end Daryl
