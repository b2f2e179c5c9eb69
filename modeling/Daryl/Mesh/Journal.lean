import Daryl.Mesh.Server

/-!
# The log as a journal of the tasks

The dashboard reconstructs the tasks from `events.jsonl`.  What it makes of a log of the server
is said event by event, and compared with the tasks the server has in memory.  Whether a
submission verifies is left out of the reconstruction: nothing else depends on it.

## Main definitions

* `buildTasks` — `_build_tasks`.
* `replayEvent`, `replayRows` — what one event, and a log, does to the reconstruction.
* `Mirrors`, `Faithful` — the reconstruction has the tasks of the server, with their owners, and
  a submission where they are completed.
* `Journaled` — what a request must not do.

## Main results

* `buildTasks_eventsJsonl` — **what the dashboard makes of a log.**
* `faithful_along_iff` — **the log is faithful in exactly the runs in which no poll claims a
  task and the payload of every new task can be written.**
* `claim_not_journaled` — a run in which a poll claims a task.
-/

namespace Daryl

open Py Json Run

namespace Mesh

variable {F : Type} [PyFloat F]

/-! ### The reconstruction -/

/-- A submission of a row. -/
structure Submission (F : Type) [PyFloat F] where
  agentId : PyVal F
  contributionId : PyVal F
  content : PyVal F
  contentHash : PyVal F
  signature : PyVal F
  selfReportedConfidence : PyVal F
  createdAt : PyVal F
  submittedAt : PyVal F
  eventId : PyVal F
  receiptId : PyVal F

/-- A task as the dashboard shows it. -/
structure TaskRow (F : Type) [PyFloat F] where
  taskId : PyVal F
  missionId : PyVal F
  taskType : PyVal F
  objective : PyVal F
  requiredCapabilities : PyVal F
  constraints : PyVal F
  assignedTo : PyVal F
  assignedAt : PyVal F
  createdAt : PyVal F
  submissions : List (Submission F)
  status : PyStr
  receiptId : PyVal F

/-- The items of a value that `.get` is asked of. -/
def itemsOf : PyVal F → Except PyError (List (Key F × PyVal F))
  | .dict kvs => .ok kvs
  | _ => .error .attributeError

/-- `tasks[tid] = row`. -/
def setRow (tid : PyVal F) (row : TaskRow F) :
    List (PyVal F × TaskRow F) → List (PyVal F × TaskRow F)
  | [] => [(tid, row)]
  | (k, r) :: rows => if pySame k tid then (k, row) :: rows else (k, r) :: setRow tid row rows

/-- A row changed in place, `if tid and tid in tasks`. -/
def updateRow (tid : PyVal F) (f : TaskRow F → TaskRow F) (rows : List (PyVal F × TaskRow F)) :
    Except PyError (List (PyVal F × TaskRow F)) :=
  if tid.truthy then
    if tid.hashes then .ok (rows.map fun p => (p.1, if pySame p.1 tid then f p.2 else p.2))
    else .error .typeError
  else .ok rows

/-- The row of a `task_created` event `ev`, its payload `p` and the task's payload `t`. -/
def createdRow (ev p t : List (Key F × PyVal F)) : TaskRow F where
  taskId := getNone (py "task_id") p
  missionId := getNone (py "mission_id") p
  taskType := (dictGet (py "task_type") p).getD (.str [])
  objective := (dictGet (py "objective") t).getD (.str [])
  requiredCapabilities := (dictGet (py "required_capabilities") t).getD (.list [])
  constraints := (dictGet (py "constraints") t).getD (.dict [])
  assignedTo := .none
  assignedAt := .none
  createdAt := getNone (py "timestamp") ev
  submissions := []
  status := py "pending"
  receiptId := .none

/-- A row after a `task_assigned` event. -/
def TaskRow.assign (row : TaskRow F) (ev p : List (Key F × PyVal F)) : TaskRow F :=
  { row with
    assignedTo := getNone (py "assigned_to") p
    assignedAt := getNone (py "timestamp") ev }

/-- A row after a `task_result_submitted` event. -/
def TaskRow.submit (row : TaskRow F) (ev p : List (Key F × PyVal F)) : TaskRow F :=
  let receiptId := getNone (py "receipt_id") p
  { row with
    submissions := row.submissions ++ [{
      agentId := getNone (py "agent_id") p
      contributionId := getNone (py "contribution_id") p
      content := getNone (py "content") p
      contentHash := getNone (py "content_hash") p
      signature := getNone (py "signature") p
      selfReportedConfidence := getNone (py "self_reported_confidence") p
      createdAt := getNone (py "created_at") p
      submittedAt := getNone (py "timestamp") ev
      eventId := getNone (py "event_id") ev
      receiptId := receiptId }]
    receiptId := if receiptId.truthy && !row.receiptId.truthy then receiptId else row.receiptId }

/-- What the loop has gathered: the rows, and the tasks that were validated. -/
structure Gathered (F : Type) [PyFloat F] where
  tasks : List (PyVal F × TaskRow F)
  validated : List (PyVal F)

/-- One event of the loop. -/
def gather (g : Gathered F) (event : PyVal F) : Except PyError (Gathered F) := do
  let ev ← itemsOf event
  let et := getNone (py "event_type") ev
  let payload := (getNone (py "payload") ev).orEmpty
  if pyEq et (.str (py "task_created")) then
    let p ← itemsOf payload
    let tid := getNone (py "task_id") p
    if tid.truthy then
      let t ← itemsOf (getNone (py "payload") p).orEmpty
      if tid.hashes then .ok { g with tasks := setRow tid (createdRow ev p t) g.tasks }
      else .error .typeError
    else .ok g
  else if pyEq et (.str (py "task_assigned")) then
    let p ← itemsOf payload
    let tasks ← updateRow (getNone (py "task_id") p) (fun row => row.assign ev p) g.tasks
    .ok { g with tasks := tasks }
  else if pyEq et (.str (py "task_result_submitted")) then
    let p ← itemsOf payload
    let tasks ← updateRow (getNone (py "task_id") p) (fun row => row.submit ev p) g.tasks
    .ok { g with tasks := tasks }
  else if pyEq et (.str (py "validation_completed")) then
    let p ← itemsOf payload
    let tid := getNone (py "task_id") p
    if tid.truthy then
      if tid.hashes then .ok { g with validated := g.validated ++ [tid] } else .error .typeError
    else .ok g
  else .ok g

/-- The status of a row. -/
def Gathered.statusOf (g : Gathered F) (tid : PyVal F) (row : TaskRow F) : PyStr :=
  if pyIn tid g.validated then py "validated"
  else if row.submissions.isEmpty then py "pending"
  else py "submitted"

/-- `_build_tasks`, of the events it reads. -/
def buildTasks (events : List (PyVal F)) : Except PyError (List (PyVal F × TaskRow F)) :=
  (events.foldlM gather ⟨[], []⟩).map fun g =>
    g.tasks.map fun p => (p.1, { p.2 with status := g.statusOf p.1 p.2 })

/-! ### A log of the server -/

/-- The items of a dict. -/
def entries : PyVal F → List (Key F × PyVal F)
  | .dict kvs => kvs
  | _ => []

/-- The payload of an event, as it is read back. -/
def LoggedEvent.payload (l : LoggedEvent F) : PyVal F :=
  readBack (.dict (strItems l.event.payload.items))

/-- What an event does to the rows of a log of the server. -/
def replayEvent (rows : List (Text × TaskRow F)) (l : LoggedEvent F) : List (Text × TaskRow F) :=
  let ev := entries l.stored
  let p := entries l.payload
  match l.event.payload with
  | .taskCreated t =>
    Dict.set t.taskId (createdRow ev p (entries (readBack t.payload.toPy))) rows
  | .taskAssigned t => rows.map fun q => (q.1, if q.1 = t.taskId then q.2.assign ev p else q.2)
  | .taskResultSubmitted t =>
    rows.map fun q => (q.1, if q.1 = t.taskId then q.2.submit ev p else q.2)
  | _ => rows

/-- The rows of a log. -/
def replayRows (log : List (LoggedEvent F)) : List (Text × TaskRow F) := log.foldl replayEvent []

/-- Rows under the texts of their keys. -/
def keyed (rows : List (Text × TaskRow F)) : List (PyVal F × TaskRow F) :=
  rows.map fun p => (.str p.1.val, p.2)

theorem itemsOf_orEmpty (kvs : List (Key F × PyVal F)) : itemsOf (PyVal.dict kvs).orEmpty = .ok kvs := by
  cases kvs with
  | nil => rfl
  | cons kv kvs => rfl

theorem itemsOf_stored (l : LoggedEvent F) : itemsOf l.stored = .ok (entries l.stored) := by
  obtain ⟨ev, hev, -⟩ := l.stored_get
  rw [hev]
  rfl

theorem getNone_stored (l : LoggedEvent F) {i : PyStr × PyVal F} (hi : i ∈ l.event.items) :
    getNone i.1 (entries l.stored) = readBack i.2 := by
  obtain ⟨ev, hev, hget⟩ := l.stored_get
  rw [hev, entries, getNone, hget i hi, Option.getD_some]

theorem eventType_stored (l : LoggedEvent F) :
    getNone (py "event_type") (entries l.stored) = .str l.event.payload.eventType :=
  getNone_stored l (i := (py "event_type", .str l.event.payload.eventType))
    (by simp [MeshEvent.items])

theorem payload_stored (l : LoggedEvent F) :
    getNone (py "payload") (entries l.stored) = l.payload :=
  getNone_stored l (i := (py "payload", .dict (strItems l.event.payload.items)))
    (by simp [MeshEvent.items])

theorem itemsOf_payload (l : LoggedEvent F) : itemsOf l.payload.orEmpty = .ok (entries l.payload) := by
  obtain ⟨p, hp, -⟩ := payload_get l.event.payload
  rw [LoggedEvent.payload, hp, itemsOf_orEmpty]
  rfl

theorem getNone_payload (l : LoggedEvent F) {i : PyStr × PyVal F}
    (hi : i ∈ l.event.payload.items) : getNone i.1 (entries l.payload) = readBack i.2 := by
  obtain ⟨p, hp, hget, -⟩ := payload_get l.event.payload
  rw [LoggedEvent.payload, hp, entries, getNone, hget i hi, Option.getD_some]

theorem setRow_keyed (id : Text) (row : TaskRow F) (rows : List (Text × TaskRow F)) :
    setRow (.str id.val) row (keyed rows) = keyed (Dict.set id row rows) := by
  induction rows with
  | nil => rfl
  | cons p rows ih =>
    obtain ⟨k, r⟩ := p
    rw [keyed, List.map_cons, setRow, Dict.set, ← keyed, ih]
    by_cases hk : k = id
    · rw [if_pos (pySame_str_right.mpr (by rw [hk])), if_pos hk]
      rfl
    · have hne : ¬ pySame (.str k.val : PyVal F) (.str id.val) = true := fun h =>
        hk (Subtype.ext (PyVal.str.inj (pySame_str_right.mp h)))
      rw [if_neg hne, if_neg hk]
      rfl

theorem updateRow_keyed (id : Text) (f : TaskRow F → TaskRow F) (hid : id.val ≠ [])
    (rows : List (Text × TaskRow F)) :
    updateRow (.str id.val) f (keyed rows) =
      .ok (keyed (rows.map fun q => (q.1, if q.1 = id then f q.2 else q.2))) := by
  have htruthy : (PyVal.str id.val : PyVal F).truthy = true := by simpa [PyVal.truthy] using hid
  have hhashes : (PyVal.str id.val : PyVal F).hashes = true := rfl
  rw [updateRow, if_pos htruthy, if_pos hhashes, keyed, List.map_map, keyed, List.map_map]
  congr 1
  apply List.map_congr_left
  intro q _
  simp only [Function.comp, pySame_str_right, PyVal.str.injEq, ← Subtype.ext_iff]

/-- The task of an event is named. -/
def Payload.Named : Payload F → Prop
  | .taskCreated t => t.taskId.val ≠ []
  | .taskAssigned t => t.taskId.val ≠ []
  | .taskResultSubmitted t => t.taskId.val ≠ []
  | _ => True

/-- The loop at an event of the server. -/
theorem gather_eq (g : Gathered F) (l : LoggedEvent F) :
    gather g l.stored =
      let ev := entries l.stored
      let p := entries l.payload
      let et := l.event.payload.eventType
      if et = py "task_created" then
        let tid := getNone (py "task_id") p
        if tid.truthy then
          (itemsOf (getNone (py "payload") p).orEmpty).bind fun t =>
            if tid.hashes then .ok { g with tasks := setRow tid (createdRow ev p t) g.tasks }
            else .error .typeError
        else .ok g
      else if et = py "task_assigned" then
        (updateRow (getNone (py "task_id") p) (fun row => row.assign ev p) g.tasks).map fun tasks =>
          { g with tasks := tasks }
      else if et = py "task_result_submitted" then
        (updateRow (getNone (py "task_id") p) (fun row => row.submit ev p) g.tasks).map fun tasks =>
          { g with tasks := tasks }
      else if et = py "validation_completed" then
        let tid := getNone (py "task_id") p
        if tid.truthy then
          if tid.hashes then .ok { g with validated := g.validated ++ [tid] } else .error .typeError
        else .ok g
      else .ok g := by
  rw [gather, itemsOf_stored l]
  simp only [bind, Except.bind, eventType_stored, payload_stored, itemsOf_payload, pyEq_str_right,
    PyVal.str.injEq]
  rfl

/-- **What the loop makes of an event of the server.** -/
theorem gather_stored (rows : List (Text × TaskRow F)) {l : LoggedEvent F}
    (h : l.event.payload.Named) :
    gather ⟨keyed rows, []⟩ l.stored = .ok ⟨keyed (replayEvent rows l), []⟩ := by
  have htid (t : Text) (hmem : (py "task_id", .str t.val) ∈ l.event.payload.items) :
      getNone (py "task_id") (entries l.payload) = .str t.val :=
    getNone_payload l (i := (py "task_id", .str t.val)) hmem
  rw [gather_eq, replayEvent]
  cases hp : l.event.payload with
  | taskCreated t =>
    rw [hp] at h
    have htask : getNone (py "payload") (entries l.payload) = readBack t.payload.toPy :=
      getNone_payload l (i := (py "payload", t.payload.toPy)) (by rw [hp]; simp [Payload.items])
    obtain ⟨kvs, hkvs⟩ := t.payload.exists_readBack
    have hne : t.taskId.val ≠ [] := h
    have htruthy : (PyVal.str t.taskId.val : PyVal F).truthy = true := by
      simpa [PyVal.truthy] using hne
    have hhashes : (PyVal.str t.taskId.val : PyVal F).hashes = true := rfl
    dsimp only [Payload.eventType]
    rw [if_pos rfl, htid t.taskId (by rw [hp]; simp [Payload.items]), if_pos htruthy, htask, hkvs,
      itemsOf_orEmpty, Except.bind, if_pos hhashes, setRow_keyed]
    rfl
  | taskAssigned t =>
    rw [hp] at h
    dsimp only [Payload.eventType]
    rw [if_neg (by decide), if_pos rfl, htid t.taskId (by rw [hp]; simp [Payload.items]),
      updateRow_keyed t.taskId _ h]
    rfl
  | taskResultSubmitted t =>
    rw [hp] at h
    dsimp only [Payload.eventType]
    rw [if_neg (by decide), if_neg (by decide), if_pos rfl,
      htid t.taskId (by rw [hp]; simp [Payload.items]), updateRow_keyed t.taskId _ h]
    rfl
  | serverStarted _ | serverStopped _ | serverRecovered _ | agentRegistered _ | missionCreated _
  | contextPackIssued _ =>
    dsimp only [Payload.eventType]
    rw [if_neg (by decide), if_neg (by decide), if_neg (by decide), if_neg (by decide)]

/-- A row with its status, where no task was validated. -/
def TaskRow.shown (row : TaskRow F) : TaskRow F :=
  { row with status := if row.submissions.isEmpty then py "pending" else py "submitted" }

/-- The rows of a log, with their status. -/
def shownRows (log : List (LoggedEvent F)) : List (Text × TaskRow F) :=
  (replayRows log).map fun p => (p.1, p.2.shown)

/-- **What the dashboard makes of a log.** -/
theorem buildTasks_eventsJsonl {log : List (LoggedEvent F)}
    (h : ∀ l ∈ log, l.event.payload.Named) :
    (readEventsFile (eventsJsonl log)).bind buildTasks = .ok (keyed (shownRows log)) := by
  have hfold : ∀ (rows : List (Text × TaskRow F)) (ls : List (LoggedEvent F)),
      (∀ l ∈ ls, l.event.payload.Named) →
        (ls.map LoggedEvent.stored).foldlM gather ⟨keyed rows, []⟩ =
          .ok ⟨keyed (ls.foldl replayEvent rows), []⟩ := by
    intro rows ls
    induction ls generalizing rows with
    | nil => exact fun _ => rfl
    | cons l ls ih =>
      intro hls
      rw [List.map_cons, List.foldlM_cons, gather_stored rows (hls l List.mem_cons_self)]
      exact ih _ fun l' hl' => hls l' (List.mem_cons_of_mem _ hl')
  rw [readEventsFile_eventsJsonl, Except.bind, buildTasks]
  have hlog := hfold [] log h
  rw [keyed, List.map_nil] at hlog
  rw [hlog, Except.map, shownRows, replayRows, keyed, keyed, List.map_map, List.map_map]
  rfl

/-! ### Faithful logs -/

/-- The row of a task: its owner, and a submission when it is completed. -/
def Mirrored (t : Task F) (row : TaskRow F) : Prop :=
  row.assignedTo = textOrNone t.assignedTo ∧ (row.submissions ≠ [] ↔ t.status = .completed)

/-- The rows are the ones of the tasks. -/
def Mirrors (tasks : List (Text × Task F)) (rows : List (Text × TaskRow F)) : Prop :=
  ∀ id, Option.Rel Mirrored (Dict.get id tasks) (Dict.get id rows)

/-- What the dashboard reconstructs from the log are the tasks the server has in memory. -/
def Faithful (s : AppState F) : Prop :=
  ∃ rows, (readEventsFile (eventsJsonl s.log)).bind buildTasks = .ok (keyed rows) ∧
    Mirrors s.tasks rows

/-- A poll claims nothing, and the payload of a new task can be written. -/
def Journaled (s : AppState F) : Request F → Prop
  | .createTask body _ _ => (Dict.get body.missionId s.missions).isSome →
    eachStr Encodable body.payload.toPy
  | .nextTask agentId capabilities => Unclaimed agentId (capabilityNames capabilities) s.tasks
  | .register _ _ | .createMission _ _ | .submit _ _ _ | .getContext _ _ _ => True

theorem keyed_injective : Function.Injective (keyed : List (Text × TaskRow F) → _) :=
  List.map_injective_iff.mpr fun p q h => by
    obtain ⟨hk, hv⟩ := Prod.mk.inj h
    exact Prod.ext (Subtype.ext (PyVal.str.inj hk)) hv

theorem mirrors_shownRows {tasks : List (Text × Task F)} {log : List (LoggedEvent F)} :
    Mirrors tasks (shownRows log) ↔ Mirrors tasks (replayRows log) := by
  refine forall_congr' fun id => ?_
  rw [shownRows, Dict.get_map fun (_ : Text) (row : TaskRow F) => row.shown]
  cases Dict.get id tasks <;> cases Dict.get id (replayRows log) <;>
    simp [Mirrored, TaskRow.shown]

theorem faithful_iff {s : AppState F} (h : ∀ l ∈ s.log, l.event.payload.Named) :
    Faithful s ↔ Mirrors s.tasks (replayRows s.log) := by
  rw [← mirrors_shownRows]
  unfold Faithful
  rw [buildTasks_eventsJsonl h]
  constructor
  · rintro ⟨rows, hrows, hmirrors⟩
    rwa [keyed_injective (Except.ok.inj hrows)]
  · exact fun hmirrors => ⟨_, rfl, hmirrors⟩

/-! ### One request -/

theorem replayRows_append (log log' : List (LoggedEvent F)) :
    replayRows (log ++ log') = log'.foldl replayEvent (replayRows log) := List.foldl_append

/-- A new task gets a row of its own. -/
theorem replayEvent_created {l : LoggedEvent F} {t : TaskCreated F}
    (hp : l.event.payload = .taskCreated t) (rows : List (Text × TaskRow F)) :
    ∃ row : TaskRow F, row.assignedTo = .none ∧ row.submissions = [] ∧
      replayEvent rows l = Dict.set t.taskId row rows := by
  rw [replayEvent, hp]
  exact ⟨_, rfl, rfl, rfl⟩

theorem get_replayEvent_assigned {l : LoggedEvent F} {t : TaskAssigned}
    (hp : l.event.payload = .taskAssigned t) (rows : List (Text × TaskRow F)) (id : Text) :
    ∃ f : TaskRow F → TaskRow F, (∀ row, (f row).submissions = row.submissions ∧
        (f row).assignedTo = if id = t.taskId then .str t.assignedTo.val else row.assignedTo) ∧
      Dict.get id (replayEvent rows l) = (Dict.get id rows).map f := by
  have howner : getNone (py "assigned_to") (entries l.payload) = .str t.assignedTo.val :=
    getNone_payload l (i := (py "assigned_to", .str t.assignedTo.val))
      (by rw [hp]; simp [Payload.items])
  rw [replayEvent, hp]
  dsimp only
  rw [Dict.get_map fun (k : Text) (row : TaskRow F) =>
    if k = t.taskId then row.assign (entries l.stored) (entries l.payload) else row]
  refine ⟨_, fun row => ?_, rfl⟩
  split_ifs
  · exact ⟨rfl, howner⟩
  · exact ⟨rfl, rfl⟩

theorem get_replayEvent_submitted {l : LoggedEvent F} {t : TaskResult F}
    (hp : l.event.payload = .taskResultSubmitted t) (rows : List (Text × TaskRow F)) (id : Text) :
    ∃ f : TaskRow F → TaskRow F, (∀ row, (f row).assignedTo = row.assignedTo ∧
        (id = t.taskId → (f row).submissions ≠ []) ∧
        (id ≠ t.taskId → (f row).submissions = row.submissions)) ∧
      Dict.get id (replayEvent rows l) = (Dict.get id rows).map f := by
  rw [replayEvent, hp]
  dsimp only
  rw [Dict.get_map fun (k : Text) (row : TaskRow F) =>
    if k = t.taskId then row.submit (entries l.stored) (entries l.payload) else row]
  refine ⟨_, fun row => ?_, rfl⟩
  split_ifs with h
  · exact ⟨rfl, fun _ => by simp [TaskRow.submit], fun hne => absurd h hne⟩
  · exact ⟨rfl, fun heq => absurd heq h, fun _ => rfl⟩

/-- The state is coherent, and the events name their tasks. -/
structure Logged (d : Deployment) (s : AppState F) : Prop where
  coherent : Coherent d s
  named : ∀ l ∈ s.log, l.event.payload.Named

theorem named_append {log : List (LoggedEvent F)} (h : ∀ l ∈ log, l.event.payload.Named)
    {ls : List (LoggedEvent F)} {p : Payload F} (hls : ∀ l ∈ ls, l.event.payload = p)
    (hp : p.Named) :
    ∀ l ∈ log ++ ls, l.event.payload.Named := by
  intro l hl
  rcases List.mem_append.mp hl with hl | hl
  · exact h l hl
  · rw [hls l hl]
    exact hp

theorem payload_of_mem_lines (refuse : Bool) (e : MeshEvent F) :
    ∀ l ∈ (write refuse e).lines, l.event.payload = e.payload :=
  fun _ hl => congrArg _ (event_of_mem_lines hl)

theorem payload_of_mem_singleton {l : LoggedEvent F} {e : MeshEvent F} (h : l.event = e) :
    ∀ l' ∈ [l], l'.event.payload = e.payload :=
  fun _ hl' => congrArg _ (List.mem_singleton.mp hl' ▸ h)

theorem logged_started (d : Deployment) (time : Text) : Logged d (started F d time) :=
  ⟨coherent_started d time, fun l hl => by
    rw [log_started] at hl
    rw [payload_of_mem_lines _ _ l hl]
    trivial⟩

/-- **A request leaves a state whose events name their tasks.** -/
theorem logged_serve {d : Deployment} {s : AppState F} (h : Logged d s) (r : Request F) :
    Logged d (serve d s r) := by
  refine ⟨coherent_serve h.coherent r, ?_⟩
  have hnew : (d.ulids.next s.drawn).val ≠ [] := d.ulids.ne_nil _
  cases r with
  | register body w =>
    rw [serve, handle]
    rcases registerAgent_cases d s body w with ⟨-, hs⟩ | ⟨-, -, hs⟩ | ⟨-, -, hs⟩
    · rw [hs]; exact h.named
    · rw [hs]; exact h.named
    · rw [hs]; exact named_append h.named (payload_of_mem_lines _ _) trivial
  | createMission body w =>
    rw [serve, handle]
    rcases createMission_cases d s body w with hs | ⟨l, hl, hs⟩
    · rw [hs]; exact h.named
    · rw [hs]; exact named_append h.named (payload_of_mem_singleton hl) trivial
  | createTask body w w' =>
    rw [serve, handle]
    rcases createTask_cases d s body w w' with ⟨-, hs⟩ | ⟨-, -, hs⟩ |
      ⟨-, -, l, hl, ⟨-, hs⟩ | ⟨a, n, -, hs⟩⟩
    · rw [hs]; exact h.named
    · rw [hs]; exact h.named
    · rw [hs]; exact named_append h.named (payload_of_mem_singleton hl) hnew
    · rw [hs]
      exact named_append (named_append h.named (payload_of_mem_singleton hl) hnew)
        (payload_of_mem_lines _ _) hnew
  | nextTask agentId capabilities => exact h.named
  | submit taskId body w =>
    rw [serve, handle]
    rcases submit_cases d s taskId body w with ⟨task, keyId, contentHash, l, hacc, hl, hs⟩ |
      ⟨-, ⟨n, -, hs⟩, -⟩
    · obtain ⟨k, -, hid⟩ := h.coherent.tasks.drawn taskId task hacc.found
      rw [hs]
      exact named_append h.named (payload_of_mem_singleton hl)
        (hid ▸ d.ulids.ne_nil k : taskId.val ≠ [])
    · rw [hs]; exact h.named
  | getContext index query w =>
    obtain ⟨n, ls, -, hls, hs⟩ := getContext_cases d s index query w
    rw [serve, handle, hs]
    exact named_append h.named (payload_contextPack hls) trivial

/-- A write of an event that is about no task leaves the rows alone. -/
theorem replayRows_lines {log : List (LoggedEvent F)} {ls : List (LoggedEvent F)} {p : Payload F}
    (hp : ∀ rows (l : LoggedEvent F), l.event.payload = p → replayEvent rows l = rows)
    (hls : ∀ l ∈ ls, l.event.payload = p) : replayRows (log ++ ls) = replayRows log := by
  rw [replayRows_append]
  induction ls with
  | nil => rfl
  | cons l ls ih =>
    rw [List.foldl_cons, hp _ l (hls l List.mem_cons_self)]
    exact ih fun l' hl' => hls l' (List.mem_cons_of_mem _ hl')

theorem Mirrors.set {tasks : List (Text × Task F)} {rows : List (Text × TaskRow F)}
    (h : Mirrors tasks rows) (id : Text) {t : Task F} {row : TaskRow F} (hrow : Mirrored t row) :
    Mirrors (Dict.set id t tasks) (Dict.set id row rows) := by
  intro k
  rw [Dict.get_set, Dict.get_set]
  split_ifs
  · exact .some hrow
  · exact h k

theorem rel_map {t : Option (Task F)} {row : Option (TaskRow F)} (h : Option.Rel Mirrored t row)
    {f : TaskRow F → TaskRow F} (hf : ∀ row, (f row).assignedTo = row.assignedTo ∧
      (f row).submissions = row.submissions) : Option.Rel Mirrored t (row.map f) := by
  cases h with
  | none => exact .none
  | some h =>
    obtain ⟨howner, hsubs⟩ := hf _
    refine .some ⟨howner.trans h.1, ?_⟩
    rw [hsubs]
    exact h.2

/-- A row that is not there is the row of no task. -/
theorem not_mirrors_of_none {tasks : List (Text × Task F)} {rows : List (Text × TaskRow F)}
    {id : Text} {t : Task F} (ht : Dict.get id tasks = some t) (hrow : Dict.get id rows = none) :
    ¬ Mirrors tasks rows := by
  intro h
  have hid := h id
  rw [ht, hrow] at hid
  cases hid

/-- A new task is mirrored when its event can be written, with its owner or without. -/
theorem mirrors_createTask {d : Deployment} {s : AppState F} (h : Logged d s)
    (hm : Mirrors s.tasks (replayRows s.log)) {body : CreateTaskRequest F} {w w' : Attempt}
    (hw : w.refuse = false) (hw' : w'.refuse = false) :
    Mirrors (createTask d s body w w').1.tasks (replayRows (createTask d s body w w').1.log) ↔
      ((Dict.get body.missionId s.missions).isSome → eachStr Encodable body.payload.toPy) := by
  rcases createTask_cases d s body w w' with ⟨hmission, hs⟩ | ⟨hmission, hwrite, hs⟩ |
    ⟨-, ⟨-, henc⟩, l, hl, hcase⟩
  · rw [hs]
    exact iff_of_true hm fun hsome => by simp [hmission] at hsome
  · -- the task is in memory, and there is no event of it
    have hnone : Dict.get (d.ulids.next s.drawn) (replayRows s.log) = none := by
      have hid := hm (d.ulids.next s.drawn)
      rw [h.coherent.tasks.fresh] at hid
      cases hrow : Dict.get (d.ulids.next s.drawn) (replayRows s.log) with
      | none => rfl
      | some row => rw [hrow] at hid; cases hid
    rw [hs]
    exact iff_of_false (not_mirrors_of_none (Dict.get_set_self _ _ _) hnone)
      fun henc => hwrite ⟨hw, henc hmission⟩
  · have hp : l.event.payload = (createdEvent d s body w).payload := congrArg _ hl
    obtain ⟨row, howner, hsubs, hrow⟩ := replayEvent_created hp (replayRows s.log)
    have hcreated : Mirrors (Dict.set (d.ulids.next s.drawn) (newTask d s body) s.tasks)
        (Dict.set (d.ulids.next s.drawn) row (replayRows s.log)) :=
      hm.set _ ⟨howner, iff_of_false (not_not.mpr hsubs) (by rintro ⟨⟩)⟩
    rcases hcase with ⟨-, hs⟩ | ⟨a, n, -, hs⟩
    · rw [hs, replayRows_append, List.foldl_cons, List.foldl_nil, hrow]
      exact iff_of_true hcreated fun _ => henc
    · refine iff_of_true ?_ fun _ => henc
      rcases write_cases w'.refuse (assignedEvent d s body w' a) with ⟨href, -⟩ |
        ⟨-, hnot, -⟩ | ⟨-, -, l', hl', hwrite⟩
      · exact absurd href (by rw [hw']; decide)
      · exact absurd trivial hnot
      rw [hs, hwrite, replayRows_append, replayRows_append, WriteEnd.lines, List.foldl_cons,
        List.foldl_nil, List.foldl_cons, List.foldl_nil, hrow]
      have hp' : l'.event.payload = (assignedEvent d s body w' a).payload := congrArg _ hl'
      intro id
      obtain ⟨f, hf, hget⟩ := get_replayEvent_assigned hp'
        (Dict.set (d.ulids.next s.drawn) row (replayRows s.log)) id
      rw [hget]
      change Option.Rel Mirrored (Dict.get id (Dict.set (d.ulids.next s.drawn) _ _)) _
      by_cases hid : d.ulids.next s.drawn = id
      · subst hid
        rw [Dict.get_set_self, Dict.get_set_self, Option.map_some]
        obtain ⟨hsame, howner'⟩ := hf row
        refine .some ⟨howner'.trans (if_pos rfl), ?_⟩
        rw [hsame]
        exact iff_of_false (not_not.mpr hsubs) (by rintro ⟨⟩)
      · rw [Dict.get_set_ne hid]
        refine rel_map (hcreated id) fun row => ?_
        exact ⟨(hf row).2.trans (if_neg (Ne.symm hid)), (hf row).1⟩

/-- **One request keeps the log faithful exactly when it is journaled.** -/
theorem mirrors_serve {d : Deployment} {s : AppState F} (h : Logged d s)
    (hm : Mirrors s.tasks (replayRows s.log)) {r : Request F} (hr : r.Unrefused) :
    Mirrors (serve d s r).tasks (replayRows (serve d s r).log) ↔ Journaled s r := by
  cases r with
  | register body w =>
    refine iff_of_true ?_ trivial
    rw [serve, handle]
    rcases registerAgent_cases d s body w with ⟨-, hs⟩ | ⟨-, -, hs⟩ | ⟨-, -, hs⟩
    · rw [hs]; exact hm
    · rw [hs]; exact hm
    · rw [hs, replayRows_lines (fun rows l hl => by rw [replayEvent, hl]; rfl)
        (payload_of_mem_lines _ (registrationEvent d s body w))]
      exact hm
  | createMission body w =>
    refine iff_of_true ?_ trivial
    rw [serve, handle]
    rcases createMission_cases d s body w with hs | ⟨l, hl, hs⟩
    · rw [hs]; exact hm
    · rw [hs, replayRows_lines (fun rows l hl => by rw [replayEvent, hl]; rfl)
        (payload_of_mem_singleton hl)]
      exact hm
  | createTask body w w' => exact mirrors_createTask h hm hr.1 hr.2
  | nextTask agentId capabilities =>
    rw [serve, handle, getNextTask, Journaled]
    dsimp only
    by_cases hclaim : Unclaimed agentId (capabilityNames capabilities) s.tasks
    · refine iff_of_true ?_ hclaim
      rw [nextForAgent_of_unclaimed hclaim fun p hp => (h.coherent.tasks.owned p.1 p.2
        (Dict.get_of_mem h.coherent.tasks.nodup hp)).pending]
      exact hm
    · -- the task has an owner now, and its row has none
      refine iff_of_false (fun hm' => ?_) hclaim
      obtain ⟨id, t, hget, hnone, hs⟩ := nextForAgent_of_claimed hclaim h.coherent.tasks.nodup
      have hbefore := hm id
      have hafter := hm' id
      rw [hs, Dict.get_set_self] at hafter
      rw [hget] at hbefore
      cases hrow : Dict.get id (replayRows s.log) with
      | none => rw [hrow] at hbefore; cases hbefore
      | some row =>
        rw [hrow, Option.rel_some_some] at hbefore hafter
        have howner := hbefore.1.symm.trans hafter.1
        rw [hnone] at howner
        cases howner
  | submit taskId body w =>
    refine iff_of_true ?_ trivial
    rw [serve, handle]
    rcases submit_cases d s taskId body w with ⟨task, keyId, contentHash, l, hacc, hl, hs⟩ |
      ⟨-, ⟨n, -, hs⟩, -⟩
    · have hp : l.event.payload = .taskResultSubmitted (taskResult contentHash taskId task body) :=
        congrArg _ hl
      rw [hs, AppState.complete, replayRows_append, List.foldl_cons, List.foldl_nil]
      intro id
      obtain ⟨f, hf, hget⟩ := get_replayEvent_submitted hp (replayRows s.log) id
      rw [hget]
      by_cases hid : taskId = id
      · subst hid
        rw [Dict.get_set_self]
        have htask := hm taskId
        rw [hacc.found] at htask
        cases hrow : Dict.get taskId (replayRows s.log) with
        | none => rw [hrow] at htask; cases htask
        | some row =>
          rw [hrow, Option.rel_some_some] at htask
          refine .some ⟨(hf row).1.trans htask.1, ?_⟩
          exact iff_of_true ((hf row).2.1 rfl) rfl
      · rw [Dict.get_set_ne hid]
        exact rel_map (hm id) fun row => ⟨(hf row).1, (hf row).2.2 (Ne.symm hid)⟩
    · rw [hs]; exact hm
  | getContext index query w =>
    obtain ⟨n, ls, -, hls, hs⟩ := getContext_cases d s index query w
    refine iff_of_true ?_ trivial
    rw [serve, handle, hs, replayRows_lines (fun rows l hl => by rw [replayEvent, hl])
      (payload_contextPack hls)]
    exact hm

/-! ### Runs -/

/-- A request of which the writer refuses nothing. -/
abbrev Allowed (F : Type) [PyFloat F] := {r : Request F // r.Unrefused}

/-- The state after such a request. -/
def serveAllowed (d : Deployment) (s : AppState F) (r : Allowed F) : AppState F := serve d s r.1

theorem logged_runAllowed (d : Deployment) (time : Text) (is : List (Allowed F)) :
    Logged d (run (serveAllowed d) (started F d time) is) := by
  have hstep (s : AppState F) (r : Allowed F) (h : Logged d s) : Logged d (serveAllowed d s r) :=
    logged_serve h r.1
  exact run_keeps hstep (logged_started d time) is

theorem faithful_started (d : Deployment) (time : Text) : Faithful (started F d time) := by
  rw [faithful_iff (logged_started d time).named, log_started]
  have hlines := payload_of_mem_lines false (startedEvent F d time)
  generalize (write false (startedEvent F d time)).lines = ls at hlines ⊢
  rw [← List.nil_append ls, replayRows_lines (fun rows l hl => by rw [replayEvent, hl]; rfl) hlines]
  exact fun id => .none

/-- **The log is a faithful journal in exactly the runs in which no poll claims a task and the
payload of every new task can be written.** -/
theorem faithful_along_iff (d : Deployment) (time : Text) (is : List (Allowed F)) :
    Always (serveAllowed d) Faithful (started F d time) is ↔
      Along (serveAllowed d) (fun s r => Journaled s r.1) (started F d time) is := by
  refine always_iff_along (Q := Logged d) (fun s r h _ _ => logged_serve h r.1) (fun s r h hf => ?_)
    (logged_started d time) (faithful_started d time)
  rw [faithful_iff h.named] at hf
  rw [serveAllowed, faithful_iff (logged_serve h r.1).named]
  exact mirrors_serve h hf r.2

/-- A task that no agent can take, and a poll. -/
def sampleClaim : List (Allowed FloatLit) :=
  [⟨.createMission ⟨sampleSkill, sampleSkill, emptyDict FloatLit⟩ sampleAttempt, rfl⟩,
    ⟨.createTask ⟨sampleUlids.next 1, sampleSkill, emptyDict FloatLit⟩ sampleAttempt sampleAttempt,
      rfl, rfl⟩,
    ⟨.nextTask sampleAgent sampleSkill, trivial⟩]

/-- **A claim leaves no event**: the task has an owner, and its row has none. -/
theorem claim_not_journaled : ¬ Always (serveAllowed sampleDeployment) Faithful
    (started FloatLit sampleDeployment sampleTimeText) sampleClaim := by
  intro h
  have hend := h _ (List.prefix_refl _)
  rw [faithful_iff (logged_runAllowed _ _ _).named] at hend
  have htask : (Dict.get (sampleUlids.next 3) (run (serveAllowed sampleDeployment)
      (started FloatLit sampleDeployment sampleTimeText) sampleClaim).tasks).map Task.assignedTo =
    some (some sampleAgent) := by decide +kernel
  have hrow : (Dict.get (sampleUlids.next 3) (replayRows (run (serveAllowed sampleDeployment)
      (started FloatLit sampleDeployment sampleTimeText) sampleClaim).log)).map
        TaskRow.assignedTo = some .none := by decide +kernel
  obtain ⟨t, ht, howner⟩ := Option.map_eq_some_iff.mp htask
  obtain ⟨row, hr, hnone⟩ := Option.map_eq_some_iff.mp hrow
  have hrel := hend (sampleUlids.next 3)
  rw [ht, hr, Option.rel_some_some] at hrel
  have := hrel.1
  rw [hnone, howner] at this
  cases this

end Mesh

end Daryl
