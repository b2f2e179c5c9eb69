import Daryl.Dsm.Anchor
import Daryl.Lib.Ranking
import Daryl.Lib.StableSort
import Daryl.Mesh.Journal
import Daryl.Mesh.Refusals
import Daryl.Mesh.Results
import Daryl.Mesh.Worker

/-!
# The missions and the agents on the dashboard

The dashboard rebuilds the missions and the agents from `events.jsonl` as it does the tasks, and
it checks the signature of every result once more, with the key that the log says the agent has.
What it makes of the log of a server is compared with what the server has in memory.

## Main definitions

* `sortedVals` — `sorted`, of rows by a value.
* `listMissions`, `listAgents` — `list_missions` and `list_agents`.
* `verifyResultSignature` — `_verify_result_signature`.
* `Chronicle` — every event of the log is about a mission that was created before it.

## Main results

* `listMissions_eventsJsonl`, `listAgents_eventsJsonl` — what the dashboard makes of a log.
* `missionsShown_always_iff` — **the missions are shown with the tasks they have in memory in
  exactly the runs in which the event of every new task is written.**
* `signature_shown` — **no result that the server took is shown with a bad signature.**
-/

namespace Daryl

open Py Json Run

namespace Mesh

variable {F : Type} [PyFloat F]

/-! ### Sorting by a value -/

/-- A row goes in front of the first row that it does not come after. -/
def insertVal {A : Type*} (after : A → A → Option Bool) (a : A) : List A → Except PyError (List A)
  | [] => .ok [a]
  | b :: bs =>
    match after a b with
    | none => .error .typeError
    | some true => (insertVal after a bs).map (b :: ·)
    | some false => .ok (a :: b :: bs)

/-- `sorted(rows, key=key)`; values that do not compare raise. -/
def sortedVals {A : Type*} (key : A → PyVal F) : List A → Except PyError (List A)
  | [] => .ok []
  | a :: as => (sortedVals key as).bind (insertVal (fun x y => Anchor.pyLt (key y) (key x)) a)

/-- `sorted(rows, key=key, reverse=True)`: equal rows stay in their order. -/
def sortedValsDesc {A : Type*} (key : A → PyVal F) : List A → Except PyError (List A)
  | [] => .ok []
  | a :: as => (sortedValsDesc key as).bind (insertVal (fun x y => Anchor.pyLt (key x) (key y)) a)

/-! ### Items under a value -/

/-- `d[k] = a`. -/
def setItem {A : Type*} (k : PyVal F) (a : A) : List (PyVal F × A) → List (PyVal F × A)
  | [] => [(k, a)]
  | (k', b) :: d => if pySame k' k then (k', a) :: d else (k', b) :: setItem k a d

/-- `d.get(k)`. -/
def getItem {A : Type*} (k : PyVal F) : List (PyVal F × A) → Option A
  | [] => none
  | (k', a) :: d => if pySame k' k then some a else getItem k d

/-- The item at a value changed in place, `if k in d`. -/
def updateAt {A : Type*} (k : PyVal F) (f : A → Except PyError A) (d : List (PyVal F × A)) :
    Except PyError (List (PyVal F × A)) :=
  if k.hashes then
    d.mapM fun q => if pySame q.1 k then (f q.2).map fun a => (q.1, a) else .ok q
  else .error .typeError

/-- The same, `if k and k in d`. -/
def updateItem {A : Type*} (k : PyVal F) (f : A → Except PyError A) (d : List (PyVal F × A)) :
    Except PyError (List (PyVal F × A)) :=
  if k.truthy then updateAt k f d else .ok d

/-! ### Agents -/

/-- An agent as the dashboard shows it. -/
structure AgentRow (F : Type) [PyFloat F] where
  agentId : PyVal F
  agentType : PyVal F
  capabilities : PyVal F
  publicKey : PyVal F
  keyId : PyVal F
  status : PyVal F
  registeredAt : PyVal F

/-- The row of an `agent_registered` event `ev` with the payload `p`. -/
def registeredRow (ev p : List (Key F × PyVal F)) : AgentRow F where
  agentId := getNone (py "agent_id") p
  agentType := (dictGet (py "agent_type") p).getD (.str [])
  capabilities := (dictGet (py "capabilities") p).getD (.list [])
  publicKey := (dictGet (py "public_key") p).getD (.str [])
  keyId := (dictGet (py "key_id") p).getD (.str [])
  status := .str (py "active")
  registeredAt := getNone (py "timestamp") ev

/-- One event of the loop of `list_agents`. -/
def seeAgent (agents : List (PyVal F × AgentRow F)) (event : PyVal F) :
    Except PyError (List (PyVal F × AgentRow F)) := do
  let ev ← itemsOf event
  let et := getNone (py "event_type") ev
  let payload := (getNone (py "payload") ev).orEmpty
  if pyEq et (.str (py "agent_registered")) then
    let p ← itemsOf payload
    let aid := getNone (py "agent_id") p
    if aid.truthy then
      if aid.hashes then .ok (setItem aid (registeredRow ev p) agents) else .error .typeError
    else .ok agents
  else if pyEq et (.str (py "agent_status_changed")) then
    let p ← itemsOf payload
    updateItem (getNone (py "agent_id") p) (fun row =>
      .ok { row with status := (dictGet (py "status") p).getD row.status }) agents
  else if pyEq et (.str (py "agent_key_rotated")) then
    let p ← itemsOf payload
    updateItem (getNone (py "agent_id") p) (fun row => .ok { row with
      publicKey := (dictGet (py "new_public_key") p).getD row.publicKey
      keyId := (dictGet (py "new_key_id") p).getD row.keyId }) agents
  else .ok agents

/-- `list_agents`, of the events it reads. -/
def listAgents (events : List (PyVal F)) : Except PyError (List (AgentRow F)) :=
  (events.foldlM seeAgent []).bind fun agents =>
    sortedVals AgentRow.agentId (agents.map Prod.snd)

/-- `get_agent`. -/
def getAgent (events : List (PyVal F)) (agentId : PyVal F) : Except PyError (Option (AgentRow F)) :=
  (listAgents events).map (List.find? fun row => pyEq row.agentId agentId)

/-! ### Signatures -/

/-- What `verify_bytes` makes of a signature and a key; other values than strings do not verify. -/
def verifyValues (verifyBytes : List Byte → PyStr → PyStr → Bool) (bs : List Byte) :
    PyVal F → PyVal F → Bool
  | .str signature, .str publicKey => verifyBytes bs signature publicKey
  | _, _ => false

/-- `signable`. -/
def signable (agentId keyId : PyVal F) (p : List (Key F × PyVal F)) : PyVal F :=
  .dict (strItems [(py "schema_version", .str (py "signing.v1")), (py "agent_id", agentId),
    (py "key_id", keyId), (py "mission_id", getNone (py "mission_id") p),
    (py "task_id", getNone (py "task_id") p),
    (py "contribution_id", getNone (py "contribution_id") p),
    (py "contribution_type", .str (py "task_result")),
    (py "content_hash", getNone (py "content_hash") p),
    (py "created_at", getNone (py "created_at") p)])

/-- `_verify_result_signature`: `none` where it cannot be checked. -/
def verifyResultSignature (verifyBytes : List Byte → PyStr → PyStr → Bool)
    (events : List (PyVal F)) (p : List (Key F × PyVal F)) : Except PyError (Option Bool) :=
  let agentId := getNone (py "agent_id") p
  let signature := getNone (py "signature") p
  if agentId.truthy && signature.truthy then
    (getAgent events agentId).map fun agent =>
      match agent with
      | none => none
      | some row =>
        if row.publicKey.truthy then
          match canonicalJson (signable agentId row.keyId p) with
          | .ok bs => some (verifyValues verifyBytes bs signature row.publicKey)
          | .error _ => none
        else none
  else .ok none

/-! ### Missions -/

/-- A mission as the dashboard shows it. -/
structure MissionRow (F : Type) [PyFloat F] where
  missionId : PyVal F
  title : PyVal F
  description : PyVal F
  status : PyStr
  createdAt : PyVal F
  closedAt : PyVal F
  taskCount : ℕ
  resultCount : ℕ
  agentsCount : ℕ
  lastEventAt : PyVal F

/-- The row of a `mission_created` event with the payload `p`. -/
def seededRow (ts : PyVal F) (p : List (Key F × PyVal F)) : MissionRow F where
  missionId := getNone (py "mission_id") p
  title := (dictGet (py "title") p).getD (.str [])
  description := (dictGet (py "description") p).getD (.str [])
  status := py "open"
  createdAt := ts
  closedAt := .none
  taskCount := 0
  resultCount := 0
  agentsCount := 0
  lastEventAt := ts

/-- What the loop of `list_missions` has gathered: the rows, and who sent results. -/
structure Summaries (F : Type) [PyFloat F] where
  missions : List (PyVal F × MissionRow F)
  missionAgents : List (PyVal F × List (PyVal F))

/-- `mission_agents.setdefault(mid, set()).add(aid)`. -/
def addAgent (mid aid : PyVal F) (d : List (PyVal F × List (PyVal F))) :
    List (PyVal F × List (PyVal F)) :=
  let agents := (getItem mid d).getD []
  setItem mid (if pyIn aid agents then agents else agents ++ [aid]) d

/-- The branch of an event. -/
def countEvent (et payload ts : PyVal F) (g : Summaries F) : Except PyError (Summaries F) :=
  if pyEq et (.str (py "mission_created")) then do
    let p ← itemsOf payload
    let mid := getNone (py "mission_id") p
    if mid.truthy then
      if mid.hashes then .ok ⟨setItem mid (seededRow ts p) g.missions,
        setItem mid ((getItem mid g.missionAgents).getD []) g.missionAgents⟩
      else .error .typeError
    else .ok g
  else if pyEq et (.str (py "mission_closed")) then do
    let p ← itemsOf payload
    let missions ← updateItem (getNone (py "mission_id") p) (fun row =>
      .ok { row with status := py "closed", closedAt := ts }) g.missions
    .ok { g with missions := missions }
  else if pyEq et (.str (py "task_created")) then do
    let p ← itemsOf payload
    let missions ← updateItem (getNone (py "mission_id") p) (fun row =>
      .ok { row with taskCount := row.taskCount + 1 }) g.missions
    .ok { g with missions := missions }
  else if pyEq et (.str (py "task_result_submitted")) then do
    let p ← itemsOf payload
    let mid := getNone (py "mission_id") p
    let missions ← updateItem mid (fun row =>
      .ok { row with resultCount := row.resultCount + 1 }) g.missions
    let aid := getNone (py "agent_id") p
    if mid.truthy && (getItem mid g.missions).isSome && aid.truthy then
      if aid.hashes then .ok ⟨missions, addAgent mid aid g.missionAgents⟩ else .error .typeError
    else .ok { g with missions := missions }
  else .ok g

/-- The end of a turn: the time of the last event of a mission. -/
def touch (scope ts : PyVal F) (g : Summaries F) : Except PyError (Summaries F) :=
  match scope with
  | .str s =>
    if (py "mission_").isPrefixOf s then
      (updateAt (.str (s.drop 8)) (fun row =>
        match Anchor.pyLt (pyOr row.lastEventAt (.str [])) ts with
        | none => .error .typeError
        | some later => .ok (if later then { row with lastEventAt := ts } else row)) g.missions).map
        fun missions => { g with missions := missions }
    else .ok g
  | _ => .error .attributeError

/-- One event of the loop of `list_missions`. -/
def summarize (g : Summaries F) (event : PyVal F) : Except PyError (Summaries F) := do
  let ev ← itemsOf event
  let ts := pyOr (getNone (py "timestamp") ev) (.str [])
  let g ← countEvent (getNone (py "event_type") ev) (getNone (py "payload") ev).orEmpty ts g
  touch (pyOr (getNone (py "scope_id") ev) (.str [])) ts g

/-- The rows, with the number of agents. -/
def Summaries.rows (g : Summaries F) : List (MissionRow F) :=
  g.missions.map fun q => { q.2 with agentsCount := ((getItem q.1 g.missionAgents).getD []).length }

/-- `list_missions`, of the events it reads. -/
def listMissions (events : List (PyVal F)) : Except PyError (List (MissionRow F)) :=
  (events.foldlM summarize ⟨[], []⟩).bind fun g =>
    sortedValsDesc (fun row => pyOr row.createdAt (.str [])) g.rows

/-! ### Rows under texts -/

/-- Rows under the texts of their keys. -/
def keyedBy {A : Type*} (rows : List (Text × A)) : List (PyVal F × A) :=
  rows.map fun q => (.str q.1.val, q.2)

/-- The text of a value. -/
def strOf : PyVal F → PyStr
  | .str s => s
  | _ => []

theorem pyOr_str (s : PyStr) : pyOr (.str s : PyVal F) (.str []) = .str s := by
  cases s <;> rfl

omit [PyFloat F] in
theorem hashes_str (s : PyStr) : (PyVal.str s : PyVal F).hashes = true := rfl

theorem truthy_str {s : PyStr} (h : s ≠ []) : (PyVal.str s : PyVal F).truthy = true := by
  simpa [PyVal.truthy] using h

theorem pySame_text {k id : Text} :
    pySame (.str k.val : PyVal F) (.str id.val) = true ↔ k = id := by
  rw [pySame_str_right, PyVal.str.injEq, Subtype.ext_iff]

theorem setItem_keyedBy {A : Type*} (id : Text) (a : A) (rows : List (Text × A)) :
    setItem (.str id.val : PyVal F) a (keyedBy rows) = keyedBy (Dict.set id a rows) := by
  induction rows with
  | nil => rfl
  | cons q rows ih =>
    obtain ⟨k, b⟩ := q
    rw [keyedBy, List.map_cons, setItem, Dict.set, ← keyedBy, ih]
    by_cases hk : k = id
    · rw [if_pos (pySame_text.mpr hk), if_pos hk]
      rfl
    · rw [if_neg fun h => hk (pySame_text.mp h), if_neg hk]
      rfl

theorem getItem_keyedBy {A : Type*} (id : Text) (rows : List (Text × A)) :
    getItem (.str id.val : PyVal F) (keyedBy rows) = Dict.get id rows := by
  induction rows with
  | nil => rfl
  | cons q rows ih =>
    obtain ⟨k, b⟩ := q
    rw [keyedBy, List.map_cons, getItem, Dict.get, ← keyedBy, ih]
    by_cases hk : k = id
    · rw [if_pos (pySame_text.mpr hk), if_pos hk]
    · rw [if_neg fun h => hk (pySame_text.mp h), if_neg hk]

theorem updateAt_keyedBy {A : Type*} {id : Text} {f : A → Except PyError A} {g : A → A}
    {rows : List (Text × A)} (h : ∀ q ∈ rows, q.1 = id → f q.2 = .ok (g q.2)) :
    updateAt (.str id.val : PyVal F) f (keyedBy rows) =
      .ok (keyedBy (rows.map fun q => (q.1, if q.1 = id then g q.2 else q.2))) := by
  rw [updateAt, if_pos (hashes_str _)]
  induction rows with
  | nil => rfl
  | cons q rows ih =>
    obtain ⟨k, a⟩ := q
    rw [keyedBy, List.map_cons, List.mapM_cons, ← keyedBy,
      ih fun q hq => h q (List.mem_cons_of_mem _ hq)]
    by_cases hk : k = id
    · rw [if_pos (pySame_text.mpr hk), h (k, a) List.mem_cons_self hk]
      simp [keyedBy, hk, bind, Except.bind, Except.map, pure, Except.pure]
    · rw [if_neg fun hsame => hk (pySame_text.mp hsame)]
      simp [keyedBy, hk, bind, Except.bind, pure, Except.pure]

theorem updateItem_keyedBy {A : Type*} {id : Text} (hid : id.val ≠ []) {g : A → A}
    {rows : List (Text × A)} :
    updateItem (.str id.val : PyVal F) (fun a => .ok (g a)) (keyedBy rows) =
      .ok (keyedBy (rows.map fun q => (q.1, if q.1 = id then g q.2 else q.2))) := by
  rw [updateItem, if_pos (truthy_str hid)]
  exact updateAt_keyedBy fun _ _ _ => rfl

/-- What compares like an order is sorted by it. -/
theorem insertVal_eq {A : Type*} {r : A → A → Prop} [DecidableRel r] {after : A → A → Option Bool}
    {a : A} {l : List A} (h : ∀ b ∈ l, after a b = some (decide ¬r a b)) :
    insertVal after a l = .ok (l.orderedInsert r a) := by
  induction l with
  | nil => rfl
  | cons b l ih =>
    rw [insertVal, h b List.mem_cons_self, List.orderedInsert_cons]
    by_cases hr : r a b
    · simp [hr]
    · simp [hr, ih fun c hc => h c (List.mem_cons_of_mem b hc), Except.map]

/-- **Rows are sorted by their strings.** -/
theorem sortedVals_str {A : Type*} {key : A → PyVal F} {k : A → PyStr} {l : List A}
    (h : ∀ a ∈ l, key a = .str (k a)) : sortedVals key l = .ok (StableSort.sortBy k l) := by
  induction l with
  | nil => rfl
  | cons a l ih =>
    rw [sortedVals, ih fun b hb => h b (List.mem_cons_of_mem a hb), Except.bind]
    refine insertVal_eq (r := fun x y => k x ≤ k y) fun b hb => ?_
    have hb := (StableSort.sortBy_perm l).mem_iff.mp hb
    rw [h a List.mem_cons_self, h b (List.mem_cons_of_mem a hb), Anchor.pyLt]
    simp only [not_le]

/-- **Rows are sorted by their strings**, downwards. -/
theorem sortedValsDesc_str {A : Type*} {key : A → PyVal F} {k : A → PyStr} {l : List A}
    (h : ∀ a ∈ l, key a = .str (k a)) :
    sortedValsDesc key l = .ok (StableSort.sortBy (fun a => OrderDual.toDual (k a)) l) := by
  induction l with
  | nil => rfl
  | cons a l ih =>
    rw [sortedValsDesc, ih fun b hb => h b (List.mem_cons_of_mem a hb), Except.bind]
    refine insertVal_eq (r := fun x y => OrderDual.toDual (k x) ≤ OrderDual.toDual (k y))
      fun b hb => ?_
    have hb := (StableSort.sortBy_perm l).mem_iff.mp hb
    rw [h a List.mem_cons_self, h b (List.mem_cons_of_mem a hb), Anchor.pyLt]
    simp only [OrderDual.toDual_le_toDual, not_le]

/-! ### A log of the server -/

/-- The mission that an event is about. -/
def Payload.missionId? : Payload F → Option Text
  | .missionCreated p => some p.missionId
  | .taskCreated p => some p.missionId
  | .taskAssigned p => some p.missionId
  | .taskResultSubmitted p => some p.missionId
  | .serverStarted _ | .serverStopped _ | .serverRecovered _ | .agentRegistered _
  | .contextPackIssued _ => none

/-- The mission in whose scope an event is. -/
def Payload.scopedTo? : Payload F → Option Text
  | .contextPackIssued p => scopeOf? (py "mission") p.scope
  | p => p.missionId?

/-- The mission of the event of a new task. -/
def Payload.taskOf? : Payload F → Option Text
  | .taskCreated p => some p.missionId
  | _ => none

/-- The missions of a log, with the times of their events. -/
def created (log : List (LoggedEvent F)) : List (Text × MissionCreated F) :=
  log.filterMap fun l =>
    match l.event.payload with
    | .missionCreated p => some (l.event.timestamp, p)
    | _ => none

/-- The identifiers of the missions. -/
def missionIds (log : List (LoggedEvent F)) : List Text := (created log).map fun c => c.2.missionId

/-- The agents of a log, with the times of their events. -/
def registered (log : List (LoggedEvent F)) : List (Text × AgentRegistered) :=
  log.filterMap fun l =>
    match l.event.payload with
    | .agentRegistered p => some (l.event.timestamp, p)
    | _ => none

/-- An event goes with the log before it. -/
structure Fits (log : List (LoggedEvent F)) (l : LoggedEvent F) : Prop where
  inScope : ∀ m, l.event.payload.scopedTo? = some m → l.event.scopeId = missionScope m
  outOfScope : l.event.payload.scopedTo? = none →
    (py "mission_").isPrefixOf l.event.scopeId.val = false
  opens : ∀ p, l.event.payload = .missionCreated p →
    p.missionId.val ≠ [] ∧ p.missionId ∉ missionIds log
  known : ∀ m, l.event.payload.missionId? = some m →
    (∃ p, l.event.payload = .missionCreated p) ∨ m ∈ missionIds log
  registers : ∀ p, l.event.payload = .agentRegistered p →
    p.agentId ∉ (registered log).map fun c => c.2.agentId

/-- Every event goes with the log before it. -/
inductive Chronicle : List (LoggedEvent F) → Prop
  | nil : Chronicle []
  | concat {log : List (LoggedEvent F)} {l : LoggedEvent F} (h : Chronicle log) (hl : Fits log l) :
    Chronicle (log ++ [l])

/-! ### The missions of a log -/

variable {log : List (LoggedEvent F)} {l : LoggedEvent F}

/-- The number of the tasks of a mission in the log. -/
def taskCount (m : Text) (log : List (LoggedEvent F)) : ℕ :=
  log.countP fun l => l.event.payload.taskOf? = some m

/-- The number of the results of a mission in the log. -/
def resultCount (m : Text) (log : List (LoggedEvent F)) : ℕ :=
  (results log).countP fun p => p.missionId = m

/-- The agents that sent them, once for each. -/
def senders (m : Text) (log : List (LoggedEvent F)) : List Text :=
  (results log).foldl (fun agents p =>
    if p.missionId = m ∧ p.agentId.val ≠ [] ∧ p.agentId ∉ agents then agents ++ [p.agentId]
    else agents) []

/-- The payload opens the mission. -/
def Payload.Opens (m : Text) : Payload F → Prop
  | .missionCreated p => p.missionId = m
  | _ => False

instance (m : Text) (p : Payload F) : Decidable (p.Opens m) := by
  cases p <;> unfold Payload.Opens <;> infer_instance

/-- The time of the last event of a mission, from the one that opens it. -/
def lastAt (m : Text) (log : List (LoggedEvent F)) : PyStr :=
  log.foldl (fun t l =>
    if l.event.payload.Opens m then l.event.timestamp.val
    else if l.event.payload.scopedTo? = some m then max t l.event.timestamp.val else t) []

/-- The row of a mission, with what was counted. -/
def countedRow (c : Text × MissionCreated F) (tasks results agents : ℕ) (last : PyStr) :
    MissionRow F where
  missionId := .str c.2.missionId.val
  title := .str c.2.title.val
  description := .str c.2.description.val
  status := py "open"
  createdAt := .str c.1.val
  closedAt := .none
  taskCount := tasks
  resultCount := results
  agentsCount := agents
  lastEventAt := .str last

/-- The rows that the loop has gathered at the end of a log. -/
def missionRows (log : List (LoggedEvent F)) : List (Text × MissionRow F) :=
  (created log).map fun c => (c.2.missionId, countedRow c (taskCount c.2.missionId log)
    (resultCount c.2.missionId log) 0 (lastAt c.2.missionId log))

/-- The agents it has gathered. -/
def missionSenders (log : List (LoggedEvent F)) : List (Text × List (PyVal F)) :=
  (created log).map fun c => (c.2.missionId, (senders c.2.missionId log).map fun a => .str a.val)

/-- What the loop has gathered at the end of a log. -/
def summaries (log : List (LoggedEvent F)) : Summaries F :=
  ⟨keyedBy (missionRows log), keyedBy (missionSenders log)⟩

theorem created_append (log log' : List (LoggedEvent F)) :
    created (log ++ log') = created log ++ created log' := List.filterMap_append

theorem missionIds_append (log log' : List (LoggedEvent F)) :
    missionIds (log ++ log') = missionIds log ++ missionIds log' := by
  rw [missionIds, created_append, List.map_append]
  rfl

theorem registered_append (log log' : List (LoggedEvent F)) :
    registered (log ++ log') = registered log ++ registered log' := List.filterMap_append

theorem lastAt_concat (m : Text) (log : List (LoggedEvent F)) (l : LoggedEvent F) :
    lastAt m (log ++ [l]) = if l.event.payload.Opens m then l.event.timestamp.val
      else if l.event.payload.scopedTo? = some m then max (lastAt m log) l.event.timestamp.val
      else lastAt m log := by
  rw [lastAt, List.foldl_append]
  rfl

theorem taskCount_concat (m : Text) (log : List (LoggedEvent F)) (l : LoggedEvent F) :
    taskCount m (log ++ [l]) =
      taskCount m log + if l.event.payload.taskOf? = some m then 1 else 0 := by
  rw [taskCount, List.countP_append, List.countP_singleton]
  simp only [decide_eq_true_eq]
  rfl

theorem resultCount_append (m : Text) (log log' : List (LoggedEvent F)) :
    resultCount m (log ++ log') = resultCount m log + resultCount m log' := by
  rw [resultCount, results_append, List.countP_append]
  rfl

theorem senders_append (m : Text) (log log' : List (LoggedEvent F)) :
    senders m (log ++ log') = (results log').foldl (fun agents p =>
      if p.missionId = m ∧ p.agentId.val ≠ [] ∧ p.agentId ∉ agents then agents ++ [p.agentId]
      else agents) (senders m log) := by
  rw [senders, results_append, List.foldl_append]
  rfl

/-- An event about a mission is in its scope. -/
theorem Payload.scopedTo_of_missionId {p : Payload F} {m : Text} (h : p.missionId? = some m) :
    p.scopedTo? = some m := by
  cases p with
  | contextPackIssued p => cases h
  | _ => exact h

theorem Payload.Opens.missionId {p : Payload F} {m : Text} (h : p.Opens m) :
    p.missionId? = some m := by
  cases p with
  | missionCreated p => exact congrArg some h
  | _ => exact h.elim

/-- An event in no scope of the mission leaves the time of its last event. -/
theorem lastAt_of_ne {m : Text} (h : l.event.payload.scopedTo? ≠ some m)
    (log : List (LoggedEvent F)) : lastAt m (log ++ [l]) = lastAt m log := by
  rw [lastAt_concat, if_neg fun hopens => h (Payload.scopedTo_of_missionId hopens.missionId),
    if_neg h]

/-- **An event of another mission counts for nothing.** -/
theorem counts_of_ne {m : Text} (h : l.event.payload.missionId? ≠ some m)
    (log : List (LoggedEvent F)) :
    taskCount m (log ++ [l]) = taskCount m log ∧ resultCount m (log ++ [l]) = resultCount m log ∧
      senders m (log ++ [l]) = senders m log := by
  have htask : l.event.payload.taskOf? ≠ some m := by
    intro htask
    cases hp : l.event.payload with
    | taskCreated p =>
      rw [hp] at h htask
      exact h htask
    | _ => simp [hp, Payload.taskOf?] at htask
  have hresults : ∀ p ∈ results [l], p.missionId ≠ m := by
    intro p hp heq
    obtain ⟨l', hl', hresult⟩ := List.mem_filterMap.mp hp
    rw [List.mem_singleton.mp hl'] at hresult
    cases hpayload : l.event.payload with
    | taskResultSubmitted q =>
      rw [hpayload] at h hresult
      obtain rfl := Option.some.inj hresult
      exact h (congrArg some heq)
    | _ => simp [hpayload, Payload.result?] at hresult
  refine ⟨?_, ?_, ?_⟩
  · -- the tasks
    rw [taskCount_concat, if_neg htask]
    rfl
  · -- the results
    rw [resultCount_append, resultCount, resultCount, Nat.add_eq_left, List.countP_eq_zero]
    exact fun p hp => by simpa using hresults p hp
  · -- the agents that sent results
    rw [senders_append]
    generalize results [l] = ps at hresults
    generalize senders m log = agents
    induction ps with
    | nil => rfl
    | cons p ps ih =>
      rw [List.foldl_cons, if_neg fun hall => hresults p List.mem_cons_self hall.1]
      exact ih fun q hq => hresults q (List.mem_cons_of_mem _ hq)

/-- Nothing is said of a mission that was not created. -/
theorem Chronicle.untold (h : Chronicle log) {m : Text}
    (hm : m ∉ missionIds log) : taskCount m log = 0 ∧ resultCount m log = 0 ∧
      senders m log = [] := by
  induction h with
  | nil => exact ⟨rfl, rfl, rfl⟩
  | @concat log l h hl ih =>
    rw [missionIds_append, List.mem_append, not_or] at hm
    have hne : l.event.payload.missionId? ≠ some m := by
      intro heq
      rcases hl.known m heq with ⟨p, hp⟩ | hknown
      · rw [hp] at heq
        obtain rfl := Option.some.inj heq
        refine hm.2 ?_
        simp [missionIds, created, hp]
      · exact hm.1 hknown
    obtain ⟨htasks, hresults, hsenders⟩ := counts_of_ne hne log
    rw [htasks, hresults, hsenders]
    exact ih hm.1

/-- The missions of a log are told apart, and named. -/
theorem Chronicle.missions (h : Chronicle log) :
    (missionIds log).Nodup ∧ ∀ m ∈ missionIds log, m.val ≠ [] := by
  induction h with
  | nil => exact ⟨List.nodup_nil, nofun⟩
  | @concat log l h hl ih =>
    rw [missionIds_append]
    cases hp : l.event.payload with
    | missionCreated p =>
      obtain ⟨hne, hnew⟩ := hl.opens p hp
      have hids : missionIds [l] = [p.missionId] := by simp [missionIds, created, hp]
      rw [hids]
      refine ⟨List.nodup_append.mpr ⟨ih.1, List.nodup_singleton _, ?_⟩, ?_⟩
      · intro m hm m' hm' heq
        rw [List.mem_singleton.mp hm'] at heq
        exact hnew (heq ▸ hm)
      · intro m hm
        rcases List.mem_append.mp hm with hm | hm
        · exact ih.2 m hm
        · exact List.mem_singleton.mp hm ▸ hne
    | _ =>
      have hids : missionIds [l] = [] := by simp [missionIds, created, hp]
      rw [hids, List.append_nil]
      exact ih

/-! ### What the loop makes of a log -/

/-- A row after an event at a time. -/
def MissionRow.touched (ts : PyStr) (row : MissionRow F) : MissionRow F :=
  { row with lastEventAt := .str (max (strOf row.lastEventAt) ts) }

theorem touch_mission {m : Text} {ts : PyStr} {rows : List (Text × MissionRow F)}
    {agents : List (PyVal F × List (PyVal F))}
    (h : ∀ q ∈ rows, ∃ last, q.2.lastEventAt = .str last) :
    touch (.str (missionScope m).val) (.str ts) ⟨keyedBy rows, agents⟩ =
      .ok ⟨keyedBy (rows.map fun q => (q.1, if q.1 = m then q.2.touched ts else q.2)), agents⟩ := by
  have hprefix : (py "mission_").isPrefixOf (missionScope m).val = true :=
    List.isPrefixOf_iff_prefix.mpr (List.prefix_append _ _)
  have hdrop : (missionScope m).val.drop 8 = m.val := rfl
  rw [touch, if_pos hprefix, hdrop, updateAt_keyedBy (g := MissionRow.touched ts)]
  · rfl
  · intro q hq _
    obtain ⟨last, hlast⟩ := h q hq
    rw [MissionRow.touched, hlast, pyOr_str, Anchor.pyLt]
    dsimp only [strOf]
    by_cases hlt : last < ts
    · rw [if_pos (decide_eq_true hlt), max_eq_right hlt.le]
    · rw [if_neg (by simpa using hlt), max_eq_left (not_lt.mp hlt), ← hlast]

theorem touch_other {s : PyStr} (h : (py "mission_").isPrefixOf s = false) (ts : PyVal F)
    (g : Summaries F) : touch (.str s) ts g = .ok g := by
  rw [touch, if_neg (by rw [h]; exact Bool.false_ne_true)]

theorem summarize_stored (g : Summaries F) (l : LoggedEvent F) :
    summarize g l.stored = (countEvent (.str l.event.payload.eventType) l.payload.orEmpty
      (.str l.event.timestamp.val) g).bind
        (touch (.str l.event.scopeId.val) (.str l.event.timestamp.val)) := by
  have hts : getNone (py "timestamp") (entries l.stored) = .str l.event.timestamp.val :=
    getNone_stored l (i := (py "timestamp", .str l.event.timestamp.val)) (by simp [MeshEvent.items])
  have hscope : getNone (py "scope_id") (entries l.stored) = .str l.event.scopeId.val :=
    getNone_stored l (i := (py "scope_id", .str l.event.scopeId.val)) (by simp [MeshEvent.items])
  rw [summarize, itemsOf_stored l]
  simp only [bind, Except.bind, eventType_stored, payload_stored, hts, hscope, pyOr_str]

theorem keys_missionRows (log : List (LoggedEvent F)) :
    Dict.keys (missionRows log) = missionIds log := by
  rw [Dict.keys, missionRows, List.map_map]
  rfl

theorem keys_missionSenders (log : List (LoggedEvent F)) :
    Dict.keys (missionSenders log) = missionIds log := by
  rw [Dict.keys, missionSenders, List.map_map]
  rfl

theorem exists_lastEventAt {q : Text × MissionRow F}
    (h : q ∈ missionRows log) : ∃ last, q.2.lastEventAt = .str last := by
  obtain ⟨c, -, rfl⟩ := List.mem_map.mp h
  exact ⟨_, rfl⟩

theorem get_missionSenders (h : Chronicle log) {m : Text} (hm : m ∈ missionIds log) :
    Dict.get m (missionSenders log) = some ((senders m log).map fun a => .str a.val) := by
  obtain ⟨c, hc, rfl⟩ := List.mem_map.mp hm
  refine Dict.get_of_mem ?_ (List.mem_map.mpr ⟨c, hc, rfl⟩)
  rw [keys_missionSenders]
  exact h.missions.1

/-- The rows after an event in the scope of a mission. -/
theorem missionRows_concat {m : Text} {f : MissionRow F → MissionRow F} (hnone : created [l] = [])
    (hm : l.event.payload.scopedTo? = some m) (hf : ∀ c ∈ created log,
      f (countedRow c (taskCount m log) (resultCount m log) 0 (lastAt m log)) = countedRow c
        (taskCount m (log ++ [l])) (resultCount m (log ++ [l])) 0 (lastAt m (log ++ [l]))) :
    missionRows (log ++ [l]) =
      (missionRows log).map fun q => (q.1, if q.1 = m then f q.2 else q.2) := by
  rw [missionRows, missionRows, created_append, hnone, List.append_nil, List.map_map]
  refine List.map_congr_left fun c hc => ?_
  dsimp only [Function.comp]
  by_cases hid : c.2.missionId = m
  · rw [if_pos hid, hid, hf c hc]
  · have hne : l.event.payload.scopedTo? ≠ some c.2.missionId := by
      rw [hm]
      exact fun h => hid (Option.some.inj h).symm
    obtain ⟨htasks, hresults, -⟩ :=
      counts_of_ne (fun h => hne (Payload.scopedTo_of_missionId h)) log
    rw [if_neg hid, htasks, hresults, lastAt_of_ne hne]

/-- The agents after an event that sends no result for a mission. -/
theorem missionSenders_concat (hnone : created [l] = []) (hresults : results [l] = []) :
    missionSenders (log ++ [l]) = missionSenders log := by
  rw [missionSenders, missionSenders, created_append, hnone, List.append_nil]
  refine List.map_congr_left fun c _ => ?_
  rw [senders_append, hresults]
  rfl

/-- An event in the scope of no mission leaves everything as it is. -/
theorem summaries_concat_of_none
    (h : l.event.payload.scopedTo? = none) : summaries (log ++ [l]) = summaries log := by
  have hnone : created [l] = [] := by
    cases hp : l.event.payload <;> simp_all [created, Payload.scopedTo?, Payload.missionId?]
  have hne (m : Text) : l.event.payload.scopedTo? ≠ some m := by
    rw [h]
    exact nofun
  have hcounts (m : Text) :=
    counts_of_ne (fun hm => hne m (Payload.scopedTo_of_missionId hm)) log
  rw [summaries, summaries, missionRows, missionRows, missionSenders, missionSenders,
    created_append, hnone, List.append_nil]
  congr 2
  · refine List.map_congr_left fun c _ => ?_
    obtain ⟨htasks, hresults, -⟩ := hcounts c.2.missionId
    rw [htasks, hresults, lastAt_of_ne (hne c.2.missionId)]
  · refine List.map_congr_left fun c _ => ?_
    rw [(hcounts c.2.missionId).2.2]

/-- A field of a payload, read back. -/
theorem dictGet_payload (l : LoggedEvent F) {i : PyStr × PyVal F}
    (hi : i ∈ l.event.payload.items) : dictGet i.1 (entries l.payload) = some (readBack i.2) := by
  obtain ⟨p, hp, hget, -⟩ := payload_get l.event.payload
  rw [LoggedEvent.payload, hp, entries, hget i hi]

theorem missionId_payload {m : Text} (h : l.event.payload.missionId? = some m) :
    getNone (py "mission_id") (entries l.payload) = .str m.val := by
  refine getNone_payload l (i := (py "mission_id", .str m.val)) ?_
  cases hp : l.event.payload with
  | missionCreated p | taskCreated p | taskAssigned p | taskResultSubmitted p =>
    rw [hp] at h
    obtain rfl := Option.some.inj h
    simp [Payload.items]
  | _ => simp [hp, Payload.missionId?] at h

/-- A new mission is seeded. -/
theorem countEvent_mission {payload ts : PyVal F} {p : List (Key F × PyVal F)} {mid : PyStr}
    (hpayload : itemsOf payload = .ok p) (hmid : getNone (py "mission_id") p = .str mid)
    (hne : mid ≠ []) (g : Summaries F) :
    countEvent (.str (py "mission_created")) payload ts g =
      .ok ⟨setItem (.str mid) (seededRow ts p) g.missions,
        setItem (.str mid) ((getItem (.str mid) g.missionAgents).getD []) g.missionAgents⟩ := by
  rw [countEvent, hpayload]
  change (if (getNone (py "mission_id") p).truthy then _ else _) = _
  rw [hmid, if_pos (truthy_str hne), if_pos (hashes_str _)]

/-- A task counts for its mission. -/
theorem countEvent_task {payload ts : PyVal F} {p : List (Key F × PyVal F)}
    (hpayload : itemsOf payload = .ok p) (g : Summaries F) :
    countEvent (.str (py "task_created")) payload ts g =
      (updateItem (getNone (py "mission_id") p)
        (fun row => .ok { row with taskCount := row.taskCount + 1 }) g.missions).map
          fun missions => { g with missions := missions } := by
  rw [countEvent, hpayload]
  rfl

/-- A result counts for its mission, and so does the agent that sent it. -/
theorem countEvent_result {payload ts : PyVal F} {p : List (Key F × PyVal F)}
    (hpayload : itemsOf payload = .ok p) (g : Summaries F) :
    countEvent (.str (py "task_result_submitted")) payload ts g =
      let mid := getNone (py "mission_id") p
      let aid := getNone (py "agent_id") p
      (updateItem mid (fun row => .ok { row with resultCount := row.resultCount + 1 })
        g.missions).bind fun missions =>
          if mid.truthy && (getItem mid g.missions).isSome && aid.truthy then
            if aid.hashes then .ok ⟨missions, addAgent mid aid g.missionAgents⟩
            else .error .typeError
          else .ok { g with missions := missions } := by
  rw [countEvent, hpayload]
  rfl

/-- The other events count for nothing. -/
theorem countEvent_other (payload ts : PyVal F) {et : PyStr} (g : Summaries F)
    (hcreated : et ≠ py "mission_created") (hclosed : et ≠ py "mission_closed")
    (htask : et ≠ py "task_created") (hresult : et ≠ py "task_result_submitted") :
    countEvent (.str et) payload ts g = .ok g := by
  simp [countEvent, pyEq_str_right, hcreated, hclosed, htask, hresult]

/-- A new mission gets a row. -/
theorem summarize_created {p : MissionCreated F}
    (h : Chronicle log) (hl : Fits log l) (hp : l.event.payload = .missionCreated p) :
    summarize (summaries log) l.stored = .ok (summaries (log ++ [l])) := by
  obtain ⟨hne, hnew⟩ := hl.opens p hp
  have hm : l.event.payload.missionId? = some p.missionId := by rw [hp]; rfl
  have htitle : dictGet (py "title") (entries l.payload) = some (.str p.title.val) :=
    dictGet_payload l (i := (py "title", .str p.title.val)) (by rw [hp]; simp [Payload.items])
  have hdescription : dictGet (py "description") (entries l.payload) =
      some (.str p.description.val) :=
    dictGet_payload l (i := (py "description", .str p.description.val))
      (by rw [hp]; simp [Payload.items])
  have hseeded : seededRow (.str l.event.timestamp.val) (entries l.payload) =
      countedRow (l.event.timestamp, p) 0 0 0 l.event.timestamp.val := by
    rw [seededRow, missionId_payload hm, htitle, hdescription]
    rfl
  have hcreated : created [l] = [(l.event.timestamp, p)] := by simp [created, hp]
  have hagents : Dict.get p.missionId (missionSenders log) = none := by
    rw [← Option.not_isSome_iff_eq_none, Dict.get_isSome, keys_missionSenders]
    exact hnew
  obtain ⟨htasks, hresults, hsenders⟩ := h.untold hnew
  have hopens : l.event.payload.Opens p.missionId := by rw [hp]; rfl
  have hnone : results [l] = [] := by simp [results, hp, Payload.result?]
  have htype : l.event.payload.eventType = py "mission_created" := by rw [hp]; rfl
  rw [summarize_stored, htype, countEvent_mission (itemsOf_payload l) (missionId_payload hm) hne,
    hseeded, summaries]
  rw [getItem_keyedBy, hagents, setItem_keyedBy, setItem_keyedBy, Except.bind,
    Ranking.set_of_notMem (by rw [keys_missionRows]; exact hnew),
    Ranking.set_of_notMem (by rw [keys_missionSenders]; exact hnew),
    hl.inScope _ (Payload.scopedTo_of_missionId hm), touch_mission]
  · congr 3
    · -- the rows
      rw [List.map_append, List.map_singleton, if_pos rfl]
      rw [missionRows, missionRows, created_append, hcreated, List.map_append, List.map_singleton,
        List.map_map]
      congr 1
      · -- an earlier mission: none of its counts change
        refine List.map_congr_left fun c hc => ?_
        have hid : c.2.missionId ≠ p.missionId := fun heq =>
          hnew (heq ▸ List.mem_map_of_mem hc)
        have hne : l.event.payload.scopedTo? ≠ some c.2.missionId := by
          rw [Payload.scopedTo_of_missionId hm]
          exact fun heq => hid (Option.some.inj heq).symm
        obtain ⟨htasks, hresults, -⟩ :=
          counts_of_ne (fun h => hne (Payload.scopedTo_of_missionId h)) log
        dsimp only [Function.comp]
        rw [if_neg hid, htasks, hresults, lastAt_of_ne hne]
      · -- the new mission, of which nothing was said
        dsimp only
        rw [taskCount_concat, resultCount_append, lastAt_concat, htasks, hresults, if_pos hopens]
        simp [hp, Payload.taskOf?, resultCount, hnone, MissionRow.touched, countedRow, strOf]
    · -- the agents
      rw [missionSenders, missionSenders, created_append, hcreated, List.map_append,
        List.map_singleton]
      congr 1
      · refine List.map_congr_left fun c _ => ?_
        rw [senders_append, hnone]
        rfl
      · dsimp only
        rw [senders_append, hnone, List.foldl_nil, hsenders]
        rfl
  · -- the last event of every row is a text
    intro q hq
    rcases List.mem_append.mp hq with hq | hq
    · exact exists_lastEventAt hq
    · rw [List.mem_singleton.mp hq]
      exact ⟨_, rfl⟩

/-- What the branch of an event does to the row of its mission. -/
def counted (payload : Payload F) (row : MissionRow F) : MissionRow F :=
  match payload with
  | .taskCreated _ => { row with taskCount := row.taskCount + 1 }
  | .taskResultSubmitted _ => { row with resultCount := row.resultCount + 1 }
  | _ => row

/-- The rows and the agents after the branch of an event of a mission that is there. -/
theorem countEvent_known {m : Text}
    (h : Chronicle log) (hmem : m ∈ missionIds log) (hm : l.event.payload.missionId? = some m)
    (hnone : created [l] = []) :
    countEvent (.str l.event.payload.eventType) l.payload.orEmpty (.str l.event.timestamp.val)
      (summaries log) = .ok ⟨keyedBy ((missionRows log).map fun q =>
        (q.1, if q.1 = m then counted l.event.payload q.2 else q.2)),
        keyedBy (missionSenders (log ++ [l]))⟩ := by
  have hne : m.val ≠ [] := h.missions.2 m hmem
  have hmid := missionId_payload hm
  cases hp : l.event.payload with
  | missionCreated p => simp [created, hp] at hnone
  | serverStarted _ | serverStopped _ | serverRecovered _ | agentRegistered _
  | contextPackIssued _ => simp [hp, Payload.missionId?] at hm
  | taskCreated p =>
    dsimp only [Payload.eventType]
    rw [countEvent_task (itemsOf_payload l), hmid, summaries, updateItem_keyedBy hne,
      missionSenders_concat hnone (by simp [results, hp, Payload.result?])]
    rfl
  | taskAssigned p =>
    dsimp only [Payload.eventType]
    rw [countEvent_other _ _ _ (by decide) (by decide) (by decide) (by decide),
      summaries, missionSenders_concat hnone (by simp [results, hp, Payload.result?])]
    simp only [counted, ite_self, List.map_id']
  | taskResultSubmitted p =>
    rw [hp] at hm
    obtain rfl := Option.some.inj hm
    have haid : getNone (py "agent_id") (entries l.payload) = .str p.agentId.val :=
      getNone_payload l (i := (py "agent_id", .str p.agentId.val))
        (by rw [hp]; simp [Payload.items])
    have hresults : results [l] = [p] := by simp [results, hp, Payload.result?]
    have hget := get_missionSenders h hmem
    have hsome : (Dict.get p.missionId (missionRows log)).isSome = true := by
      rw [Dict.get_isSome, keys_missionRows]
      exact hmem
    dsimp only [Payload.eventType]
    rw [countEvent_result (itemsOf_payload l), hmid, haid, summaries]
    dsimp only
    rw [updateItem_keyedBy hne, Except.bind]
    rw [getItem_keyedBy, hsome, truthy_str hne, Bool.true_and, Bool.true_and]
    by_cases hempty : p.agentId.val = []
    · -- a result without an agent counts for the mission alone
      have hfalsy : (PyVal.str p.agentId.val : PyVal F).truthy = false := by
        simp [PyVal.truthy, hempty]
      rw [hfalsy, if_neg Bool.false_ne_true, missionSenders, missionSenders, created_append, hnone,
        List.append_nil]
      congr 4
      refine funext fun c => ?_
      rw [senders_append, hresults, List.foldl_cons, List.foldl_nil,
        if_neg fun hall => hall.2.1 hempty]
    · -- its agent joins the senders, once
      rw [truthy_str hempty, if_pos rfl, if_pos (hashes_str _), addAgent, getItem_keyedBy, hget,
        Option.getD_some, setItem_keyedBy]
      congr 3
      rw [missionSenders, missionSenders, created_append, hnone, List.append_nil]
      refine Dict.set_map_key h.missions.1 hmem (fun c _ hid => ?_) fun c _ hid => ?_
      · have hin : pyIn (.str p.agentId.val : PyVal F)
            ((senders p.missionId log).map fun a => .str a.val) = true ↔
              p.agentId ∈ senders p.missionId log := by
          rw [pyIn_iff]
          simp only [List.mem_map, pySame_str_left]
          constructor
          · rintro ⟨_, ⟨a, ha, rfl⟩, heq⟩
            exact Subtype.ext (PyVal.str.inj heq) ▸ ha
          · exact fun hmem => ⟨_, ⟨_, hmem, rfl⟩, rfl⟩
        rw [hid, senders_append, hresults, List.foldl_cons, List.foldl_nil]
        by_cases hknown : p.agentId ∈ senders p.missionId log
        · rw [if_pos (hin.mpr hknown), if_neg fun hall => hall.2.2 hknown]
        · rw [if_neg fun h => hknown (hin.mp h), if_pos ⟨rfl, hempty, hknown⟩, List.map_append]
          rfl
      · rw [senders_append, hresults, List.foldl_cons, List.foldl_nil,
          if_neg fun hall => hid hall.1.symm]

/-- A context pack in the scope of a mission counts for nothing, and is its last event. -/
theorem summarize_context {p : ContextPackIssued} {m : Text} (hl : Fits log l)
    (hp : l.event.payload = .contextPackIssued p) (hm : l.event.payload.scopedTo? = some m) :
    summarize (summaries log) l.stored = .ok (summaries (log ++ [l])) := by
  have hnone : created [l] = [] := by simp [created, hp]
  have hcount : countEvent (.str l.event.payload.eventType) l.payload.orEmpty
      (.str l.event.timestamp.val) (summaries log) = .ok (summaries log) := by
    rw [hp]
    dsimp only [Payload.eventType]
    exact countEvent_other _ _ _ (by decide) (by decide) (by decide) (by decide)
  have hopens : ¬l.event.payload.Opens m := by
    rw [hp]
    exact id
  rw [summarize_stored, hcount, Except.bind, hl.inScope m hm, summaries,
    touch_mission fun q hq => exists_lastEventAt hq, summaries,
    missionSenders_concat hnone (by simp [results, hp, Payload.result?]),
    missionRows_concat (f := MissionRow.touched l.event.timestamp.val) hnone hm fun c _ => ?_]
  rw [taskCount_concat, resultCount_append, lastAt_concat, if_neg hopens, if_pos hm]
  simp [MissionRow.touched, countedRow, strOf, Payload.taskOf?, resultCount, results, hp,
    Payload.result?]

/-- **An event that goes with the log does to the rows what it says.** -/
theorem summarize_summaries (h : Chronicle log)
    (hl : Fits log l) : summarize (summaries log) l.stored = .ok (summaries (log ++ [l])) := by
  cases hscope : l.event.payload.scopedTo? with
  | none =>
    have hcount : countEvent (.str l.event.payload.eventType) l.payload.orEmpty
        (.str l.event.timestamp.val) (summaries log) = .ok (summaries log) := by
      cases hp : l.event.payload with
      | serverStarted _ | serverStopped _ | serverRecovered _ | agentRegistered _
      | contextPackIssued _ =>
        dsimp only [Payload.eventType]
        exact countEvent_other _ _ _ (by decide) (by decide) (by decide)
          (by decide)
      | _ => simp [hp, Payload.scopedTo?, Payload.missionId?] at hscope
    rw [summarize_stored, hcount, Except.bind, touch_other (hl.outOfScope hscope),
      summaries_concat_of_none hscope]
  | some m =>
    by_cases hcontext : ∃ p, l.event.payload = .contextPackIssued p
    · -- a context pack has a scope and no mission
      obtain ⟨p, hp⟩ := hcontext
      exact summarize_context hl hp hscope
    have hm : l.event.payload.missionId? = some m := by
      cases hp : l.event.payload with
      | contextPackIssued p => exact absurd ⟨p, hp⟩ hcontext
      | _ => rwa [hp] at hscope
    rcases hl.known m hm with ⟨p, hp⟩ | hmem
    · exact summarize_created h hl hp
    by_cases hcreated : ∃ p, l.event.payload = .missionCreated p
    · obtain ⟨p, hp⟩ := hcreated
      exact summarize_created h hl hp
    have hnone : created [l] = [] := by
      cases hp : l.event.payload with
      | missionCreated p => exact absurd ⟨p, hp⟩ hcreated
      | _ => simp [created, hp]
    have hopens : ¬l.event.payload.Opens m := by
      cases hp : l.event.payload with
      | missionCreated p => exact absurd ⟨p, hp⟩ hcreated
      | _ => exact id
    rw [summarize_stored, countEvent_known h hmem hm hnone, Except.bind, hl.inScope m hscope,
      touch_mission, summaries, List.map_map]
    · -- the rows
      congr 3
      rw [missionRows_concat (f := fun row =>
        (counted l.event.payload row).touched l.event.timestamp.val) hnone hscope]
      · refine List.map_congr_left fun q _ => ?_
        dsimp only [Function.comp]
        split_ifs <;> rfl
      · -- the counts of the mission of the event
        intro c _
        rw [taskCount_concat, resultCount_append, lastAt_concat, if_neg hopens, if_pos hscope]
        cases hp : l.event.payload with
        | missionCreated p => exact absurd ⟨p, hp⟩ hcreated
        | serverStarted _ | serverStopped _ | serverRecovered _ | agentRegistered _
        | contextPackIssued _ => simp [hp, Payload.missionId?] at hm
        | taskCreated p | taskAssigned p | taskResultSubmitted p =>
          rw [hp] at hm
          obtain rfl := Option.some.inj hm
          simp [counted, MissionRow.touched, countedRow, strOf, Payload.taskOf?, resultCount,
            results, hp, Payload.result?]
    · -- the last event of every row is a text
      intro q hq
      obtain ⟨q', hq', rfl⟩ := List.mem_map.mp hq
      obtain ⟨last, hlast⟩ := exists_lastEventAt hq'
      refine ⟨last, ?_⟩
      dsimp only
      split_ifs
      · unfold counted
        split <;> exact hlast
      · exact hlast

/-- The rows of a log, newest first, as they are shown. -/
def shownMissions (log : List (LoggedEvent F)) : List (MissionRow F) :=
  StableSort.sortBy (fun row => OrderDual.toDual (strOf row.createdAt)) ((created log).map fun c =>
    countedRow c (taskCount c.2.missionId log) (resultCount c.2.missionId log)
      (senders c.2.missionId log).length (lastAt c.2.missionId log))

/-- **What the dashboard makes of the missions of a log.** -/
theorem listMissions_eventsJsonl (h : Chronicle log) :
    (readEventsFile (eventsJsonl log)).bind listMissions = .ok (shownMissions log) := by
  have hfold : (log.map LoggedEvent.stored).foldlM summarize ⟨[], []⟩ = .ok (summaries log) := by
    induction h with
    | nil => rfl
    | concat h hl ih =>
      rw [List.map_append, List.foldlM_append, ih]
      change (do let g ← summarize _ _; _) = _
      rw [summarize_summaries h hl]
      rfl
  have hrows : (summaries log).rows = (created log).map fun c =>
      countedRow c (taskCount c.2.missionId log) (resultCount c.2.missionId log)
        (senders c.2.missionId log).length (lastAt c.2.missionId log) := by
    rw [Summaries.rows, summaries, keyedBy, missionRows, List.map_map, List.map_map]
    refine List.map_congr_left fun c hc => ?_
    dsimp only [Function.comp]
    rw [getItem_keyedBy, get_missionSenders h (List.mem_map_of_mem hc), Option.getD_some,
      List.length_map]
    rfl
  rw [readEventsFile_eventsJsonl, Except.bind, listMissions, hfold, Except.bind, hrows,
    shownMissions]
  refine sortedValsDesc_str fun row hrow => ?_
  obtain ⟨c, -, rfl⟩ := List.mem_map.mp hrow
  exact pyOr_str _

/-! ### What the dashboard makes of the agents -/

/-- The row of an agent of a log. -/
def agentRow (c : Text × AgentRegistered) : AgentRow F where
  agentId := .str c.2.agentId.val
  agentType := .str c.2.agentType.val
  capabilities := .list (texts c.2.capabilities)
  publicKey := .str c.2.publicKey.val
  keyId := .str c.2.keyId.val
  status := .str (py "active")
  registeredAt := .str c.1.val

/-- The rows that the loop has gathered at the end of a log: an agent without a name has none. -/
def agentRows (log : List (LoggedEvent F)) : List (Text × AgentRow F) :=
  ((registered log).filter fun c => c.2.agentId.val ≠ []).map fun c => (c.2.agentId, agentRow c)

/-- The rows of a log, sorted, as they are shown. -/
def shownAgents (log : List (LoggedEvent F)) : List (AgentRow F) :=
  StableSort.sortBy (fun row => strOf row.agentId) ((agentRows log).map Prod.snd)

/-- The agents of a log are told apart. -/
theorem Chronicle.agents (h : Chronicle log) :
    ((registered log).map fun c => c.2.agentId).Nodup := by
  induction h with
  | nil => exact List.nodup_nil
  | @concat log l h hl ih =>
    rw [registered_append, List.map_append]
    cases hp : l.event.payload with
    | agentRegistered p =>
      have hone : registered [l] = [(l.event.timestamp, p)] := by simp [registered, hp]
      rw [hone]
      refine List.nodup_append.mpr ⟨ih, List.nodup_singleton _, ?_⟩
      intro id hid id' hid' heq
      rw [List.mem_singleton.mp hid'] at heq
      subst heq
      exact hl.registers p hp hid
    | _ =>
      have hnone : registered [l] = [] := by simp [registered, hp]
      rw [hnone, List.map_nil, List.append_nil]
      exact ih

theorem keys_agentRows (log : List (LoggedEvent F)) : Dict.keys (agentRows log) =
    ((registered log).filter fun c => c.2.agentId.val ≠ []).map fun c => c.2.agentId := by
  rw [Dict.keys, agentRows, List.map_map]
  rfl

theorem Chronicle.nodup_agentRows (h : Chronicle log) : (Dict.keys (agentRows log)).Nodup := by
  rw [keys_agentRows]
  exact h.agents.sublist (List.filter_sublist.map _)

/-- Texts are read back as they were. -/
theorem readBack_texts (ss : List Text) :
    readBack (.list (texts ss) : PyVal F) = .list (texts ss) := by
  have hsort : sortDictsList (texts ss : List (PyVal F)) = some (texts ss) := by
    induction ss with
    | nil => rfl
    | cons s ss ih =>
      rw [texts, List.map_cons, sortDictsList, ← texts, ih]
      rfl
  rw [readBack_list hsort, texts, List.map_map]
  rfl

/-- **An event that goes with the log adds the agent that it registers.** -/
theorem seeAgent_agentRows (hl : Fits log l) :
    seeAgent (keyedBy (agentRows log)) l.stored = .ok (keyedBy (agentRows (log ++ [l]))) := by
  rw [agentRows, agentRows, registered_append, seeAgent, itemsOf_stored l]
  simp only [bind, Except.bind, eventType_stored, payload_stored, itemsOf_payload]
  cases hp : l.event.payload with
  | agentRegistered p =>
    have hget {i : PyStr × PyVal F} (hi : i ∈ (Payload.agentRegistered p).items) :
        dictGet i.1 (entries l.payload) = some (readBack i.2) :=
      dictGet_payload l (by rw [hp]; exact hi)
    have haid : getNone (py "agent_id") (entries l.payload) = .str p.agentId.val :=
      getNone_payload l (i := (py "agent_id", .str p.agentId.val))
        (by rw [hp]; simp [Payload.items])
    have hrow : registeredRow (entries l.stored) (entries l.payload) =
        agentRow (l.event.timestamp, p) := by
      have hts : getNone (py "timestamp") (entries l.stored) = .str l.event.timestamp.val :=
        getNone_stored l (i := (py "timestamp", .str l.event.timestamp.val))
          (by simp [MeshEvent.items])
      rw [registeredRow, haid, hts,
        hget (i := (py "agent_type", .str p.agentType.val)) (by simp [Payload.items]),
        hget (i := (py "capabilities", .list (texts p.capabilities))) (by simp [Payload.items]),
        hget (i := (py "public_key", .str p.publicKey.val)) (by simp [Payload.items]),
        hget (i := (py "key_id", .str p.keyId.val)) (by simp [Payload.items])]
      simp only [readBack_texts]
      rfl
    have hone : registered [l] = [(l.event.timestamp, p)] := by simp [registered, hp]
    change (if (getNone (py "agent_id") (entries l.payload)).truthy then _ else _) = _
    rw [haid, hone, List.filter_append, List.map_append]
    by_cases hempty : p.agentId.val = []
    · -- an agent without a name gets no row
      have hfalsy : (PyVal.str p.agentId.val : PyVal F).truthy = false := by
        simp [PyVal.truthy, hempty]
      rw [hfalsy, if_neg Bool.false_ne_true]
      simp [hempty]
    · rw [if_pos (truthy_str hempty), if_pos (hashes_str _), hrow, setItem_keyedBy,
        Ranking.set_of_notMem]
      · simp [hempty]
      · -- the agent has no row yet
        have hnew := hl.registers p hp
        intro hmem
        obtain ⟨q, hq, heq⟩ := List.mem_map.mp hmem
        obtain ⟨c, hc, rfl⟩ := List.mem_map.mp hq
        exact hnew (heq ▸ List.mem_map_of_mem (List.mem_of_mem_filter hc))
  | _ =>
    have hnone : registered [l] = [] := by simp [registered, hp]
    rw [hnone, List.append_nil]
    rfl

/-- **What the dashboard makes of the agents of a log.** -/
theorem listAgents_stored (h : Chronicle log) :
    listAgents (log.map LoggedEvent.stored) = .ok (shownAgents log) := by
  have hfold : (log.map LoggedEvent.stored).foldlM seeAgent [] =
      .ok (keyedBy (agentRows log)) := by
    induction h with
    | nil => rfl
    | concat h hl ih =>
      rw [List.map_append, List.foldlM_append, ih]
      change (do let g ← seeAgent _ _; _) = _
      rw [seeAgent_agentRows hl]
      rfl
  have hvalues : (keyedBy (agentRows log) : List (PyVal F × AgentRow F)).map Prod.snd =
      (agentRows log).map Prod.snd := by
    rw [keyedBy, List.map_map]
    rfl
  rw [listAgents, hfold, Except.bind, hvalues, shownAgents]
  refine sortedVals_str fun row hrow => ?_
  obtain ⟨q, hq, rfl⟩ := List.mem_map.mp hrow
  obtain ⟨c, -, rfl⟩ := List.mem_map.mp hq
  rfl

theorem mem_shownAgents {row : AgentRow F} :
    row ∈ shownAgents log ↔ ∃ id, (id, row) ∈ agentRows log := by
  rw [shownAgents, (StableSort.sortBy_perm _).mem_iff, List.mem_map]
  constructor
  · rintro ⟨⟨id, row⟩, hq, rfl⟩
    exact ⟨id, hq⟩
  · rintro ⟨id, hq⟩
    exact ⟨_, hq, rfl⟩

/-- An agent is found under its name. -/
theorem getAgent_stored (h : Chronicle log) (id : Text) :
    getAgent (log.map LoggedEvent.stored) (.str id.val) = .ok (Dict.get id (agentRows log)) := by
  have hkey {k : Text} {row : AgentRow F} (hmem : (k, row) ∈ agentRows log)
      (heq : pyEq row.agentId (.str id.val) = true) : Dict.get id (agentRows log) = some row := by
    have hget := Dict.get_of_mem h.nodup_agentRows hmem
    obtain ⟨c, -, hc⟩ := List.mem_map.mp hmem
    obtain ⟨rfl, rfl⟩ := Prod.mk.inj hc
    rw [pyEq_str_right] at heq
    obtain rfl : c.2.agentId = id := Subtype.ext (PyVal.str.inj heq)
    exact hget
  rw [getAgent, listAgents_stored h, Except.map]
  congr 1
  cases hfind : (shownAgents log).find? fun row => pyEq row.agentId (.str id.val) with
  | some row =>
    obtain ⟨k, hmem⟩ := mem_shownAgents.mp (List.mem_of_find?_eq_some hfind)
    have hrow := List.find?_some hfind
    exact (hkey hmem hrow).symm
  | none =>
    rw [eq_comm, Option.eq_none_iff_forall_ne_some]
    intro row hget
    have hmem := Dict.mem_of_get hget
    have hnot := List.find?_eq_none.mp hfind row (mem_shownAgents.mpr ⟨id, hmem⟩)
    obtain ⟨c, -, hc⟩ := List.mem_map.mp hmem
    obtain ⟨rfl, rfl⟩ := Prod.mk.inj hc
    exact hnot (pyEq_str_right.mpr rfl)

/-! ### What it makes of a signature -/

/-- An agent of the log with a key. -/
def Keyed (log : List (LoggedEvent F)) (id : Text) (q : AgentRegistered) : Prop :=
  Wrote log (.agentRegistered q) ∧ q.agentId = id ∧ q.publicKey.val ≠ []

theorem mem_registered {q : AgentRegistered} :
    Wrote log (.agentRegistered q) ↔ ∃ ts, (ts, q) ∈ registered log := by
  simp only [Wrote, registered, List.mem_filterMap]
  constructor
  · rintro ⟨l, hl, hp⟩
    exact ⟨l.event.timestamp, l, hl, by rw [hp]⟩
  · rintro ⟨ts, l, hl, hp⟩
    refine ⟨l, hl, ?_⟩
    cases hpayload : l.event.payload with
    | agentRegistered p =>
      rw [hpayload] at hp
      obtain ⟨-, rfl⟩ := Prod.mk.inj (Option.some.inj hp)
      rfl
    | _ => simp [hpayload] at hp

/-- The row of an agent of the log. -/
theorem get_agentRows (h : Chronicle log) {id : Text} (hid : id.val ≠ []) {row : AgentRow F} :
    Dict.get id (agentRows log) = some row ↔
      ∃ c ∈ registered log, c.2.agentId = id ∧ row = agentRow c := by
  constructor
  · intro hget
    obtain ⟨c, hc, heq⟩ := List.mem_map.mp (Dict.mem_of_get hget)
    obtain ⟨rfl, rfl⟩ := Prod.mk.inj heq
    exact ⟨c, List.mem_of_mem_filter hc, rfl, rfl⟩
  · rintro ⟨c, hc, rfl, rfl⟩
    refine Dict.get_of_mem h.nodup_agentRows (List.mem_map.mpr ⟨c, ?_, rfl⟩)
    exact List.mem_filter.mpr ⟨hc, by simpa using hid⟩

theorem signable_payload {p : TaskResult F}
    (hp : l.event.payload = .taskResultSubmitted p) (keyId : Text) :
    signable (.str p.agentId.val) (.str keyId.val) (entries l.payload) =
      signingPayload p.agentId keyId p.missionId p.taskId p.contributionId p.contentHash
        p.createdAt := by
  have hget {i : PyStr × PyVal F} (hi : i ∈ (Payload.taskResultSubmitted p).items) :
      getNone i.1 (entries l.payload) = readBack i.2 := getNone_payload l (by rw [hp]; exact hi)
  rw [signable, hget (i := (py "mission_id", .str p.missionId.val)) (by simp [Payload.items]),
    hget (i := (py "task_id", .str p.taskId.val)) (by simp [Payload.items]),
    hget (i := (py "contribution_id", .str p.contributionId.val)) (by simp [Payload.items]),
    hget (i := (py "content_hash", .str p.contentHash.val)) (by simp [Payload.items]),
    hget (i := (py "created_at", .str p.createdAt.val)) (by simp [Payload.items])]
  rfl

/-- **A result is checked with the key that the log says its agent has**, and not at all where
there is none. -/
theorem verifyResultSignature_stored (h : Chronicle log)
    (verifyBytes : List Byte → PyStr → PyStr → Bool) {p : TaskResult F}
    (hp : l.event.payload = .taskResultSubmitted p) :
    (∀ q bs, p.agentId.val ≠ [] → p.signature.val ≠ [] → Keyed log p.agentId q →
      canonicalJson (signingPayload (F := F) p.agentId q.keyId p.missionId p.taskId
        p.contributionId p.contentHash p.createdAt) = .ok bs →
      verifyResultSignature verifyBytes (log.map LoggedEvent.stored) (entries l.payload) =
        .ok (some (verifyBytes bs p.signature.val q.publicKey.val))) ∧
    (p.agentId.val = [] ∨ p.signature.val = [] ∨ (¬∃ q, Keyed log p.agentId q) →
      verifyResultSignature verifyBytes (log.map LoggedEvent.stored) (entries l.payload) =
        .ok none) := by
  have haid : getNone (py "agent_id") (entries l.payload) = .str p.agentId.val :=
    getNone_payload l (i := (py "agent_id", .str p.agentId.val)) (by rw [hp]; simp [Payload.items])
  have hsig : getNone (py "signature") (entries l.payload) = .str p.signature.val :=
    getNone_payload l (i := (py "signature", .str p.signature.val))
      (by rw [hp]; simp [Payload.items])
  rw [verifyResultSignature, haid, hsig, getAgent_stored h]
  constructor
  · -- the log has a key of the agent
    rintro q bs hagent hsigned ⟨hwrote, hid, hkey⟩ hbs
    obtain ⟨ts, hmem⟩ := mem_registered.mp hwrote
    have hrow := (get_agentRows h hagent).mpr ⟨_, hmem, hid, rfl⟩
    rw [truthy_str hagent, truthy_str hsigned, hrow, Bool.and_self, if_pos rfl]
    dsimp only [Except.map, agentRow]
    rw [if_pos (truthy_str hkey), signable_payload hp, hbs]
    rfl
  · -- no agent, no signature, or no key
    intro hnone
    by_cases hagent : p.agentId.val = []
    · simp [PyVal.truthy, hagent]
    by_cases hsigned : p.signature.val = []
    · simp [PyVal.truthy, hsigned]
    rw [truthy_str hagent, truthy_str hsigned, Bool.and_self, if_pos rfl]
    cases hrow : Dict.get p.agentId (agentRows log) with
    | none => rfl
    | some row =>
      obtain ⟨c, hc, hid, rfl⟩ := (get_agentRows h hagent).mp hrow
      have hkey : c.2.publicKey.val = [] := by
        by_contra hkey
        have hwrote : Wrote log (.agentRegistered c.2) := mem_registered.mpr ⟨c.1, hc⟩
        exact hnone.elim hagent fun h => h.elim hsigned fun h => h ⟨c.2, hwrote, hid, hkey⟩
      dsimp only [Except.map, agentRow]
      rw [hkey]
      rfl

/-! ### What a server keeps -/

variable {d : Deployment} {s : AppState F}

/-- The log is a chronicle, and what is in memory goes with it. -/
structure Kept (d : Deployment) (s : AppState F) : Prop where
  coherent : Coherent d s
  chronicle : Chronicle s.log
  missions : s.missions = (created s.log).map fun c =>
    (c.2.missionId, ⟨c.2.missionId, c.2.title, c.2.description⟩)
  drawn : ∀ m ∈ missionIds s.log, ∃ n < s.drawn, m = d.ulids.next n
  tasks : ∀ id t, Dict.get id s.tasks = some t → t.missionId ∈ missionIds s.log
  agents : ∀ c ∈ registered s.log, c.2.keyId = deriveKeyId d.sha c.2.publicKey ∧
    Dict.get c.2.agentId s.registry =
      some ⟨c.2.agentId, c.2.agentType, c.2.capabilities, c.2.publicKey, .active⟩
  signed : ∀ p ∈ results s.log, ∃ pk bs, Dict.get p.agentId s.keys = some pk ∧
    canonicalJson (signingPayload (F := F) p.agentId (deriveKeyId d.sha pk) p.missionId p.taskId
      p.contributionId p.contentHash p.createdAt) = .ok bs ∧
    d.verifyBytes bs p.signature.val pk.val = true

theorem Kept.isSome_mission (h : Kept d s) {m : Text} :
    (Dict.get m s.missions).isSome ↔ m ∈ missionIds s.log := by
  rw [Dict.get_isSome, h.missions, Dict.keys, List.map_map]
  rfl

/-- An event about a mission of the log goes with it. -/
theorem fits_of_known {e : MeshEvent F} {m : Text}
    (hl : l.event = e) (hm : e.payload.missionId? = some m) (hscope : e.scopeId = missionScope m)
    (hmem : m ∈ missionIds log) (hnew : ∀ p, e.payload ≠ .missionCreated p) : Fits log l := by
  subst hl
  have hscoped := Payload.scopedTo_of_missionId hm
  refine ⟨fun m' hm' => ?_, fun hnone => ?_, fun p hp => absurd hp (hnew p), fun m' hm' => ?_,
    fun p hp => ?_⟩
  · exact Option.some.inj (hscoped.symm.trans hm') ▸ hscope
  · exact nomatch hscoped.symm.trans hnone
  · rw [hm] at hm'
    exact .inr (Option.some.inj hm' ▸ hmem)
  · rw [hp] at hm
    exact nomatch hm

/-- A write leaves a chronicle, when what is written goes with it. -/
theorem Chronicle.lines (h : Chronicle log) {refuse : Bool}
    {e : MeshEvent F} (hfits : ∀ l : LoggedEvent F, l.event = e → Fits log l) :
    Chronicle (log ++ (write refuse e).lines) := by
  rcases write_cases refuse e with ⟨-, hw⟩ | ⟨-, -, err, hw⟩ | ⟨-, -, l, hl, hw⟩
  · rw [hw, WriteEnd.lines, List.append_nil]
    exact h
  · rw [hw, WriteEnd.lines, List.append_nil]
    exact h
  · rw [hw, WriteEnd.lines]
    exact h.concat (hfits l hl)

/-- Events that create no mission, register no agent and send no result. -/
structure Plain (ls : List (LoggedEvent F)) : Prop where
  created : created ls = []
  registered : registered ls = []
  results : results ls = []

theorem Plain.append {ls ls' : List (LoggedEvent F)} (h : Plain ls) (h' : Plain ls') :
    Plain (ls ++ ls') := by
  refine ⟨?_, ?_, ?_⟩
  · rw [created_append, h.created, h'.created, List.append_nil]
  · rw [registered_append, h.registered, h'.registered, List.append_nil]
  · rw [results_append, h.results, h'.results, List.append_nil]

/-- The payload is that of a task. -/
def Payload.OfTask : Payload F → Prop
  | .taskCreated _ | .taskAssigned _ => True
  | _ => False

theorem plain_singleton {e : MeshEvent F} (hl : l.event = e)
    (h : e.payload.OfTask) : Plain [l] := by
  subst hl
  cases hp : l.event.payload with
  | taskCreated p | taskAssigned p =>
    exact ⟨by simp [created, hp], by simp [registered, hp],
      by simp [results, hp, Payload.result?]⟩
  | _ => rw [hp] at h; exact h.elim

theorem plain_lines {refuse : Bool} {e : MeshEvent F} (h : e.payload.OfTask) :
    Plain (write refuse e).lines := by
  rcases write_cases refuse e with ⟨-, hw⟩ | ⟨-, -, err, hw⟩ | ⟨-, -, l, hl, hw⟩
  · rw [hw]; exact ⟨rfl, rfl, rfl⟩
  · rw [hw]; exact ⟨rfl, rfl, rfl⟩
  · rw [hw]; exact plain_singleton hl h

theorem plain_contextPack {index : IndexDB} {query : ContextQuery} {w : Attempt}
    {ls : List (LoggedEvent F)} (h : ∀ l ∈ ls, l.event = contextEvent d s index query w) :
    Plain ls := by
  have hpayload := payload_contextPack h
  refine ⟨?_, ?_, results_contextPack h⟩
  · rw [created, List.filterMap_eq_nil_iff]
    exact fun l hl => by rw [hpayload l hl]
  · rw [registered, List.filterMap_eq_nil_iff]
    exact fun l hl => by rw [hpayload l hl]

/-- The event of a context pack goes with every log. -/
theorem fits_contextPack {index : IndexDB} {query : ContextQuery} {w : Attempt}
    (hl : l.event = contextEvent d s index query w) : Fits log l := by
  obtain ⟨hpayload, hscope⟩ := contextPackIssued_spec (F := F) (d.ulids.next (s.drawn + 1)) w.time
    d.serverId (contextPack d s index query)
  rw [← contextEvent, ← hl] at hpayload hscope
  refine ⟨fun m hm => ?_, fun hnone => ?_, ?_, ?_, ?_⟩
  · rw [hpayload] at hm
    rcases hscope with ⟨m', hm', hscope⟩ | ⟨hnone, -⟩
    · exact Option.some.inj (hm'.symm.trans hm) ▸ hscope
    · cases hnone.symm.trans hm
  · rw [hpayload] at hnone
    rcases hscope with ⟨m', hm', -⟩ | ⟨-, hscope | hscope⟩
    · cases hm'.symm.trans hnone
    · rw [hscope]; rfl
    · rw [hscope]; rfl
  · rw [hpayload]; rintro _ ⟨⟩
  · rw [hpayload]; rintro _ ⟨⟩
  · rw [hpayload]; rintro _ ⟨⟩

theorem Chronicle.contextPack (h : Chronicle log) {index : IndexDB} {query : ContextQuery}
    {w : Attempt} {ls : List (LoggedEvent F)}
    (hls : ∀ l ∈ ls, l.event = contextEvent d s index query w) : Chronicle (log ++ ls) := by
  induction ls generalizing log with
  | nil => rwa [List.append_nil]
  | cons l ls ih =>
    rw [← List.singleton_append, ← List.append_assoc]
    exact ih (h.concat (fits_contextPack (hls l List.mem_cons_self)))
      fun l' hl' => hls l' (List.mem_cons_of_mem _ hl')

/-- **What is kept, when only tasks and their events change.** -/
theorem Kept.of_plain {s s' : AppState F} (h : Kept d s) (hcoh : Coherent d s')
    {l : List (LoggedEvent F)} (hlog : s'.log = s.log ++ l) (hplain : Plain l)
    (hchron : Chronicle (s.log ++ l)) (hmissions : s'.missions = s.missions)
    (hregistry : s'.registry = s.registry) (hkeys : s'.keys = s.keys) (hdrawn : s.drawn ≤ s'.drawn)
    (htasks : ∀ id t, Dict.get id s'.tasks = some t → t.missionId ∈ missionIds s.log) :
    Kept d s' := by
  have hids : missionIds (s.log ++ l) = missionIds s.log := by
    rw [missionIds, created_append, hplain.created, List.append_nil]
    rfl
  refine ⟨hcoh, hlog ▸ hchron, ?_, ?_, ?_, ?_, ?_⟩
  · rw [hmissions, h.missions, hlog, created_append, hplain.created, List.append_nil]
  · rw [hlog, hids]
    exact fun m hm => (h.drawn m hm).imp fun _ hn => ⟨hn.1.trans_le hdrawn, hn.2⟩
  · rw [hlog, hids]
    exact htasks
  · rw [hlog, registered_append, hplain.registered, List.append_nil, hregistry]
    exact h.agents
  · rw [hlog, results_append, hplain.results, List.append_nil, hkeys]
    exact h.signed

/-- A task that goes in is of a mission that is there. -/
theorem Kept.set_task (h : Kept d s) (id : Text) {t : Task F}
    (ht : t.missionId ∈ missionIds s.log) :
    ∀ k u, Dict.get k (Dict.set id t s.tasks) = some u → u.missionId ∈ missionIds s.log := by
  intro k u hget
  rw [Dict.get_set] at hget
  split_ifs at hget
  · exact Option.some.inj hget ▸ ht
  · exact h.tasks k u hget

theorem kept_started (d : Deployment) (time : Text) : Kept d (started F d time) := by
  have hlog : Chronicle (started F d time).log := by
    rw [log_started, ← List.nil_append (write false (startedEvent F d time)).lines]
    refine Chronicle.nil.lines fun l hl => ?_
    exact ⟨by rw [hl]; rintro _ ⟨⟩, fun _ => by rw [hl]; rfl, by rw [hl]; rintro _ ⟨⟩,
      by rw [hl]; rintro _ ⟨⟩, by rw [hl]; rintro _ ⟨⟩⟩
  have hplain : Plain (started F d time).log := by
    rw [log_started]
    rcases write_cases false (startedEvent F d time) with ⟨-, hw⟩ | ⟨-, -, err, hw⟩ |
      ⟨-, -, l, hl, hw⟩
    · rw [hw]; exact ⟨rfl, rfl, rfl⟩
    · rw [hw]; exact ⟨rfl, rfl, rfl⟩
    · rw [hw]
      have hp : l.event.payload = .serverStarted d.serverId := congrArg _ hl
      exact ⟨by simp [WriteEnd.lines, created, hp], by simp [WriteEnd.lines, registered, hp],
        by simp [WriteEnd.lines, results, hp, Payload.result?]⟩
  refine ⟨coherent_started d time, hlog, ?_, ?_, ?_, ?_, ?_⟩
  · rw [hplain.created]; rfl
  · rw [missionIds, hplain.created]; rintro _ ⟨⟩
  · rintro _ _ ⟨⟩
  · rw [hplain.registered]; rintro _ ⟨⟩
  · rw [hplain.results]; rintro _ ⟨⟩

theorem created_lines {refuse : Bool} {e : MeshEvent F} (h : ∀ p, e.payload ≠ .missionCreated p) :
    created (write refuse e).lines = [] := by
  rw [created, List.filterMap_eq_nil_iff]
  intro l hl
  have hp := payload_of_mem_lines refuse e l hl
  cases hpayload : l.event.payload with
  | missionCreated p => exact absurd (hp.symm.trans hpayload) (h p)
  | _ => rfl

/-- A registration keeps it. -/
theorem kept_register (h : Kept d s) (body : RegisterAgentRequest)
    (w : Attempt) : Kept d (serve d s (.register body w)) := by
  have hcoh := coherent_serve h.coherent (.register body w)
  rw [serve, handle] at hcoh ⊢
  rcases registerAgent_cases d s body w with ⟨-, hs⟩ | ⟨hreg, hkey, -⟩ | ⟨hreg, hkey, hs⟩
  · rw [hs]; exact h
  · rw [h.coherent.keys.registered, hreg] at hkey
    exact absurd hkey Bool.false_ne_true
  rw [hs] at hcoh ⊢
  have hnone : created (write w.refuse (registrationEvent d s body w)).lines = [] :=
    created_lines (by rintro _ ⟨⟩)
  have hfits (l : LoggedEvent F) (hl : l.event = registrationEvent d s body w) : Fits s.log l := by
    refine ⟨by rw [hl]; rintro _ ⟨⟩, fun _ => by rw [hl]; rfl, by rw [hl]; rintro _ ⟨⟩,
      by rw [hl]; rintro _ ⟨⟩, fun p hp hmem => ?_⟩
    rw [hl] at hp
    obtain rfl := Payload.agentRegistered.inj hp
    obtain ⟨c, hc, heq⟩ := List.mem_map.mp hmem
    have hget := (h.agents c hc).2
    rw [heq, hreg] at hget
    cases hget
  refine ⟨hcoh, h.chronicle.lines hfits, ?_, ?_, ?_, ?_, ?_⟩
  · -- the missions
    dsimp only [AppState.register, AppState.registerKey]
    rw [h.missions, created_append, hnone, List.append_nil]
  · -- their ids
    rw [missionIds_append, missionIds, missionIds, hnone, List.map_nil, List.append_nil]
    exact fun m hm => (h.drawn m hm).imp fun _ hn => ⟨Nat.lt_succ_of_lt hn.1, hn.2⟩
  · -- the tasks
    rw [missionIds_append, missionIds, missionIds, hnone, List.map_nil, List.append_nil]
    exact h.tasks
  · -- the agents
    intro c hc
    dsimp only [AppState.register, AppState.registerKey] at hc ⊢
    rw [registered_append, List.mem_append] at hc
    rcases hc with hc | hc
    · have hne : body.agentId ≠ c.2.agentId := by
        intro heq
        have hget := (h.agents c hc).2
        rw [← heq, hreg] at hget
        cases hget
      rw [Dict.get_set_ne hne]
      exact h.agents c hc
    · obtain ⟨l, hl, hc⟩ := List.mem_filterMap.mp hc
      have hp := payload_of_mem_lines w.refuse (registrationEvent d s body w) l hl
      rw [hp] at hc
      obtain rfl := Option.some.inj hc
      exact ⟨rfl, Dict.get_set_self _ _ _⟩
  · -- the results: a new agent has sent none
    rw [results_append, results_lines _ _ rfl, List.append_nil]
    intro p hp
    obtain ⟨pk, bs, hpk, hbs, hverify⟩ := h.signed p hp
    refine ⟨pk, bs, ?_, hbs, hverify⟩
    have hne : body.agentId ≠ p.agentId := fun heq => by
      rw [heq, hpk] at hkey
      cases hkey
    exact (Dict.get_set_ne hne _ _).trans hpk

/-- A new mission keeps it. -/
theorem kept_createMission (h : Kept d s)
    (body : CreateMissionRequest F) (w : Attempt) : Kept d (serve d s (.createMission body w)) := by
  have hcoh := coherent_serve h.coherent (.createMission body w)
  rw [serve, handle] at hcoh ⊢
  rcases createMission_cases d s body w with hs | ⟨l, hl, hs⟩
  · -- its event is not written
    rw [hs] at hcoh ⊢
    exact h.of_plain hcoh (l := []) (List.append_nil _).symm ⟨rfl, rfl, rfl⟩
      (by rw [List.append_nil]; exact h.chronicle) rfl rfl rfl (Nat.le_add_right _ 2) h.tasks
  rw [hs] at hcoh ⊢
  have hp : l.event.payload = .missionCreated ⟨d.ulids.next s.drawn, body.title, body.description,
      body.metadata⟩ := congrArg _ hl
  have hone : created [l] = [(l.event.timestamp, ⟨d.ulids.next s.drawn, body.title,
      body.description, body.metadata⟩)] := by simp [created, hp]
  have hids : missionIds [l] = [d.ulids.next s.drawn] := by rw [missionIds, hone]; rfl
  have hnew : d.ulids.next s.drawn ∉ missionIds s.log := by
    intro hmem
    obtain ⟨n, hn, heq⟩ := h.drawn _ hmem
    exact hn.ne' (d.ulids.injective heq)
  have hfits : Fits s.log l := by
    refine ⟨fun m hm => ?_, fun hnone => ?_, fun p hp' => ?_, fun m hm => .inl ⟨_, hp⟩, ?_⟩
    · rw [hp] at hm
      obtain rfl := Option.some.inj hm
      rw [hl]
      rfl
    · rw [hp] at hnone
      cases hnone
    · obtain rfl := Payload.missionCreated.inj (hp'.symm.trans hp)
      exact ⟨d.ulids.ne_nil _, hnew⟩
    · rw [hp]
      rintro _ ⟨⟩
  refine ⟨hcoh, h.chronicle.concat hfits, ?_, ?_, ?_, ?_, ?_⟩
  · -- the missions
    dsimp only
    rw [Ranking.set_of_notMem, h.missions, created_append, hone, List.map_append]
    · rfl
    · rw [← Dict.get_isSome, h.isSome_mission]
      exact hnew
  · -- their ids
    rw [missionIds_append, hids]
    intro m hm
    rcases List.mem_append.mp hm with hm | hm
    · exact (h.drawn m hm).imp fun _ hn => ⟨hn.1.trans_le (Nat.le_add_right _ 2), hn.2⟩
    · exact ⟨s.drawn, Nat.lt_add_of_pos_right two_pos, List.mem_singleton.mp hm⟩
  · -- the tasks
    rw [missionIds_append]
    exact fun id t hget => List.mem_append_left _ (h.tasks id t hget)
  · -- the agents
    have hnone : registered [l] = [] := by simp [registered, hp]
    rw [registered_append, hnone, List.append_nil]
    exact h.agents
  · -- the results
    have hnone : results [l] = [] := by simp [results, hp, Payload.result?]
    rw [results_append, hnone, List.append_nil]
    exact h.signed

/-- A new task keeps it. -/
theorem kept_createTask (h : Kept d s)
    (body : CreateTaskRequest F) (w w' : Attempt) : Kept d (serve d s (.createTask body w w')) := by
  have hcoh := coherent_serve h.coherent (.createTask body w w')
  rw [serve, handle] at hcoh ⊢
  have hcreated {l : LoggedEvent F} (hl : l.event = createdEvent d s body w)
      (hmem : body.missionId ∈ missionIds s.log) : Fits s.log l :=
    fits_of_known hl rfl rfl hmem (by rintro _ ⟨⟩)
  rcases createTask_cases d s body w w' with ⟨-, hs⟩ | ⟨hmission, -, hs⟩ |
    ⟨hmission, -, l, hl, ⟨-, hs⟩ | ⟨a, n, -, hs⟩⟩
  · -- no such mission
    rw [hs]; exact h
  · -- its event is not written: the task is in memory alone
    rw [hs] at hcoh ⊢
    exact h.of_plain hcoh (l := []) (List.append_nil _).symm ⟨rfl, rfl, rfl⟩
      (by rw [List.append_nil]; exact h.chronicle) rfl rfl rfl (Nat.le_add_right _ 2)
      (h.set_task _ (h.isSome_mission.mp hmission))
  · -- created, and assigned to nobody
    rw [hs] at hcoh ⊢
    exact h.of_plain hcoh (l := [l]) rfl (plain_singleton hl trivial)
      (h.chronicle.concat (hcreated hl (h.isSome_mission.mp hmission))) rfl rfl rfl
      (Nat.le_add_right _ 2) (h.set_task _ (h.isSome_mission.mp hmission))
  · -- created and assigned
    have hmem := h.isSome_mission.mp hmission
    have hmem' : body.missionId ∈ missionIds (s.log ++ [l]) := by
      rw [missionIds_append]
      exact List.mem_append_left _ hmem
    rw [hs] at hcoh ⊢
    refine h.of_plain hcoh (l := [l] ++ (write w'.refuse (assignedEvent d s body w' a)).lines)
      (List.append_assoc _ _ _) ((plain_singleton hl trivial).append (plain_lines trivial)) ?_
      rfl rfl rfl (Nat.le_add_right _ 3) ?_
    · rw [← List.append_assoc]
      exact (h.chronicle.concat (hcreated hl hmem)).lines fun l' hl' =>
        fits_of_known hl' rfl rfl hmem' (by rintro _ ⟨⟩)
    · dsimp only [AppState.setTask]
      rw [show ((newTask d s body).assign a).taskId = (newTask d s body).taskId from rfl,
        Dict.set_set]
      exact h.set_task _ hmem

/-- A submission keeps it. -/
theorem kept_submit (h : Kept d s) (taskId : Text)
    (body : SubmitTaskResultRequest F) (w : Attempt) :
    Kept d (serve d s (.submit taskId body w)) := by
  have hcoh := coherent_serve h.coherent (.submit taskId body w)
  rw [serve, handle] at hcoh ⊢
  rcases submit_cases d s taskId body w with ⟨task, keyId, contentHash, l, hacc, hl, hs⟩ |
    ⟨-, ⟨n, hn, hs⟩, -⟩
  · -- accepted
    rw [hs] at hcoh ⊢
    have hmem := h.tasks taskId task hacc.found
    have hp : l.event.payload = .taskResultSubmitted (taskResult contentHash taskId task body) :=
      congrArg _ hl
    have hcreated : created [l] = [] := by simp [created, hp]
    have hids : missionIds (s.log ++ [l]) = missionIds s.log := by
      rw [missionIds, created_append, hcreated, List.append_nil]
      rfl
    refine ⟨hcoh, h.chronicle.concat (fits_of_known hl rfl rfl hmem (by rintro _ ⟨⟩)), ?_, ?_, ?_, ?_, ?_⟩
    · -- the missions
      dsimp only [AppState.complete]
      rw [h.missions, created_append, hcreated, List.append_nil]
    · -- their ids
      dsimp only [AppState.complete]
      rw [hids]
      exact fun m hm => (h.drawn m hm).imp fun _ hn => ⟨hn.1.trans_le (Nat.le_add_right _ 2), hn.2⟩
    · -- the tasks
      dsimp only [AppState.complete]
      rw [hids]
      exact h.set_task taskId hmem
    · -- the agents
      have hnone : registered [l] = [] := by simp [registered, hp]
      dsimp only [AppState.complete]
      rw [registered_append, hnone, List.append_nil]
      exact h.agents
    · -- the results: the new one was checked with the key in memory
      have hone : results [l] = [taskResult contentHash taskId task body] := by
        simp [results, hp, Payload.result?]
      dsimp only [AppState.complete]
      rw [results_append, hone]
      intro p hp
      rcases List.mem_append.mp hp with hp | hp
      · exact h.signed p hp
      · obtain rfl := List.mem_singleton.mp hp
        obtain ⟨pk, bs, hpk, hbs, hverify⟩ := verifyContribution_eq_none.mp hacc.signature
        have hkey : keyId = deriveKeyId d.sha pk := by
          have hknown := hacc.known
          rw [h.coherent.keys.derived, hpk] at hknown
          exact (Option.some.inj hknown).symm
        exact ⟨pk, bs, hpk, hkey ▸ hbs, hverify⟩
  · -- not accepted, or its event is not written
    rw [hs] at hcoh ⊢
    exact h.of_plain hcoh (l := []) (List.append_nil _).symm ⟨rfl, rfl, rfl⟩
      (by rw [List.append_nil]; exact h.chronicle) rfl rfl rfl hn h.tasks

/-- A context pack keeps it. -/
theorem kept_getContext (h : Kept d s) (index : IndexDB) (query : ContextQuery) (w : Attempt) :
    Kept d (serve d s (.getContext index query w)) := by
  have hcoh := coherent_serve h.coherent (.getContext index query w)
  rw [serve, handle] at hcoh ⊢
  obtain ⟨n, ls, hn, hls, hs⟩ := getContext_cases d s index query w
  rw [hs] at hcoh ⊢
  exact h.of_plain hcoh rfl (plain_contextPack hls) (h.chronicle.contextPack hls) rfl rfl rfl hn
    h.tasks

/-- **What a request leaves is kept.** -/
theorem kept_serve (h : Kept d s) (r : Request F) : Kept d (serve d s r) := by
  cases r with
  | register body w => exact kept_register h body w
  | createMission body w => exact kept_createMission h body w
  | createTask body w w' => exact kept_createTask h body w w'
  | submit taskId body w => exact kept_submit h taskId body w
  | getContext index query w => exact kept_getContext h index query w
  | nextTask agentId capabilities =>
    refine h.of_plain (coherent_serve h.coherent _) (l := []) (List.append_nil _).symm
      ⟨rfl, rfl, rfl⟩ (by rw [List.append_nil]; exact h.chronicle) rfl rfl rfl le_rfl ?_
    rw [serve, handle, getNextTask]
    dsimp only
    by_cases hclaim : Unclaimed agentId (capabilityNames capabilities) s.tasks
    · rw [nextForAgent_of_unclaimed hclaim fun q hq => (h.coherent.tasks.owned q.1 q.2
        (Dict.get_of_mem h.coherent.tasks.nodup hq)).pending]
      exact h.tasks
    · obtain ⟨id, t, hget, -, hs⟩ := nextForAgent_of_claimed hclaim h.coherent.tasks.nodup
      rw [hs]
      exact h.set_task id (h.tasks id t hget)

theorem kept_run (d : Deployment) (time : Text) (is : List (Request F)) :
    Kept d (run (serve d) (started F d time) is) := by
  have hstep (s : AppState F) (r : Request F) (h : Kept d s) : Kept d (serve d s r) :=
    kept_serve h r
  exact run_keeps hstep (kept_started d time) is

/-! ### The missions in memory -/

/-- The missions of the tasks in memory. -/
def taskMissions (tasks : List (Text × Task F)) : List Text := tasks.map fun q => q.2.missionId

/-- The missions of the tasks in the log. -/
def loggedTasks (log : List (LoggedEvent F)) : List Text :=
  log.filterMap fun l => l.event.payload.taskOf?

/-- A result of the agent for the mission is in the log. -/
def Sent (log : List (LoggedEvent F)) (m a : Text) : Prop :=
  ∃ p ∈ results log, p.missionId = m ∧ p.agentId = a ∧ a.val ≠ []

/-- A row shows a mission with the tasks in memory, the results of the log and the number of the
agents that sent them. -/
structure MissionRow.Shows (s : AppState F) (q : Text × Mission) (row : MissionRow F) : Prop where
  missionId : row.missionId = .str q.1.val
  title : row.title = .str q.2.title.val
  description : row.description = .str q.2.description.val
  status : row.status = py "open" ∧ row.closedAt = .none
  tasks : row.taskCount = s.tasks.countP fun u => u.2.missionId = q.1
  results : row.resultCount = (results s.log).countP fun p => p.missionId = q.1
  agents : ∃ as : List Text, as.Nodup ∧ (∀ a, a ∈ as ↔ Sent s.log q.1 a) ∧
    row.agentsCount = as.length

/-- The dashboard shows every mission in memory once, and nothing else, newest first. -/
def MissionsShown (s : AppState F) : Prop :=
  ∃ rows, (readEventsFile (eventsJsonl s.log)).bind listMissions = .ok rows ∧
    (rows.Pairwise fun a b => strOf b.createdAt ≤ strOf a.createdAt) ∧
    ∃ rows', rows'.Perm rows ∧ List.Forall₂ (MissionRow.Shows s) s.missions rows'

/-- The event of a new task is written. -/
def Recorded (s : AppState F) : Request F → Prop
  | .createTask body w _ => (Dict.get body.missionId s.missions).isSome →
    w.refuse = false ∧ eachStr Encodable body.payload.toPy
  | .register _ _ | .createMission _ _ | .nextTask _ _ | .submit _ _ _ | .getContext _ _ _ => True

theorem loggedTasks_append (log log' : List (LoggedEvent F)) :
    loggedTasks (log ++ log') = loggedTasks log ++ loggedTasks log' := List.filterMap_append

theorem taskCount_eq_count (m : Text) (log : List (LoggedEvent F)) :
    taskCount m log = (loggedTasks log).count m := by
  rw [taskCount, loggedTasks, List.count_filterMap]
  refine List.countP_congr fun l _ => ?_
  rw [decide_eq_true_eq, beq_iff_eq]

/-- The agents are those that sent a result, once each. -/
theorem senders_spec (m : Text) (log : List (LoggedEvent F)) :
    (senders m log).Nodup ∧ ∀ a, a ∈ senders m log ↔ Sent log m a := by
  unfold senders Sent
  induction results log using List.reverseRecOn with
  | nil => exact ⟨List.nodup_nil, fun a => iff_of_false nofun (fun ⟨_, h, _⟩ => nomatch h)⟩
  | append_singleton ps p ih =>
    obtain ⟨hnodup, hmem⟩ := ih
    rw [List.foldl_append, List.foldl_cons, List.foldl_nil]
    have hsplit (a : Text) : (∃ p' ∈ ps ++ [p], p'.missionId = m ∧ p'.agentId = a ∧ a.val ≠ []) ↔
        (∃ p' ∈ ps, p'.missionId = m ∧ p'.agentId = a ∧ a.val ≠ []) ∨
          p.missionId = m ∧ p.agentId = a ∧ a.val ≠ [] := by
      simp only [List.mem_append, List.mem_singleton, or_and_right, exists_or, exists_eq_left]
    split_ifs with hnew
    · refine ⟨List.nodup_append.mpr ⟨hnodup, List.nodup_singleton _, ?_⟩, fun a => ?_⟩
      · rintro a ha b hb rfl
        exact hnew.2.2 (List.mem_singleton.mp hb ▸ ha)
      · rw [List.mem_append, List.mem_singleton, hmem, hsplit]
        refine or_congr_right ⟨?_, fun h => h.2.1.symm⟩
        rintro rfl
        exact ⟨hnew.1, rfl, hnew.2.1⟩
    · refine ⟨hnodup, fun a => ?_⟩
      rw [hmem, hsplit, or_iff_left_of_imp]
      rintro ⟨hm, rfl, hne⟩
      by_contra hnot
      exact hnew ⟨hm, hne, fun h => hnot ((hmem _).mp h)⟩

theorem exists_of_forall₂ {A B : Type*} {r : A → B → Prop} {as : List A} {bs : List B}
    (h : List.Forall₂ r as bs) {a : A} (ha : a ∈ as) : ∃ b ∈ bs, r a b := by
  induction h with
  | nil => cases ha
  | @cons a' b as bs hab _ ih =>
    rcases List.mem_cons.mp ha with rfl | ha
    · exact ⟨b, List.mem_cons_self, hab⟩
    · obtain ⟨b', hb', hr⟩ := ih ha
      exact ⟨b', List.mem_cons_of_mem _ hb', hr⟩

theorem pairwise_shownMissions (log : List (LoggedEvent F)) :
    (shownMissions log).Pairwise fun a b => strOf b.createdAt ≤ strOf a.createdAt :=
  (StableSort.pairwise_sortBy (K := PyStrᵒᵈ) _).imp fun h => h

/-- The missions are shown as they are when the tasks in memory are the tasks of the log. -/
theorem missionsShown_iff (h : Kept d s) :
    MissionsShown s ↔ (loggedTasks s.log).Perm (taskMissions s.tasks) := by
  have hmemory (m : Text) : (s.tasks.countP fun u => u.2.missionId = m) =
      (taskMissions s.tasks).count m := by
    rw [taskMissions, List.count, List.countP_map]
    refine List.countP_congr fun u _ => ?_
    rw [decide_eq_true_eq, Function.comp, beq_iff_eq]
  rw [List.perm_iff_count]
  constructor
  · -- the rows show the counts of the log, and these are the ones in memory
    rintro ⟨rows, hrows, -, rows', hperm, hshows⟩ m
    rw [listMissions_eventsJsonl h.chronicle] at hrows
    obtain rfl := Except.ok.inj hrows
    rw [← taskCount_eq_count, ← hmemory]
    by_cases hm : m ∈ missionIds s.log
    · obtain ⟨c, hc, rfl⟩ := List.mem_map.mp hm
      have hmission :
          (c.2.missionId, ⟨c.2.missionId, c.2.title, c.2.description⟩) ∈ s.missions := by
        rw [h.missions]
        exact List.mem_map_of_mem hc
      obtain ⟨row, hrow, hshow⟩ := exists_of_forall₂ hshows hmission
      obtain ⟨c', -, rfl⟩ :=
        List.mem_map.mp ((StableSort.sortBy_perm _).mem_iff.mp (hperm.mem_iff.mp hrow))
      have hid : c'.2.missionId = c.2.missionId := Subtype.ext (PyVal.str.inj hshow.missionId)
      rw [← hshow.tasks, ← hid]
      rfl
    · -- no task is in a mission that was not created
      rw [(h.chronicle.untold hm).1, eq_comm, List.countP_eq_zero]
      intro u hu heq
      have hget := Dict.get_of_mem h.coherent.tasks.nodup (k := u.1) (v := u.2) hu
      exact hm (of_decide_eq_true heq ▸ h.tasks u.1 u.2 hget)
  · -- mission by mission, in the order in which they were created
    intro hcount
    refine ⟨_, listMissions_eventsJsonl h.chronicle, pairwise_shownMissions _, _,
      (StableSort.sortBy_perm _).symm, ?_⟩
    rw [h.missions, List.forall₂_map_left_iff, List.forall₂_map_right_iff, List.forall₂_same]
    intro c _
    refine ⟨rfl, rfl, rfl, ⟨rfl, rfl⟩, ?_, rfl, ?_⟩
    · exact (taskCount_eq_count _ _).trans ((hcount _).trans (hmemory _).symm)
    · exact ⟨_, (senders_spec _ _).1, (senders_spec _ _).2, rfl⟩

theorem loggedTasks_lines {refuse : Bool} {e : MeshEvent F} (h : e.payload.taskOf? = none) :
    loggedTasks (write refuse e).lines = [] := by
  rw [loggedTasks, List.filterMap_eq_nil_iff]
  intro l hl
  rw [payload_of_mem_lines refuse e l hl, h]

theorem loggedTasks_contextPack {index : IndexDB} {query : ContextQuery} {w : Attempt}
    {ls : List (LoggedEvent F)} (h : ∀ l ∈ ls, l.event = contextEvent d s index query w) :
    loggedTasks ls = [] := by
  rw [loggedTasks, List.filterMap_eq_nil_iff]
  intro l hl
  rw [payload_contextPack h l hl]
  rfl

theorem loggedTasks_singleton {e : MeshEvent F} (h : l.event = e) :
    loggedTasks [l] = e.payload.taskOf?.toList := by
  subst h
  cases hp : l.event.payload.taskOf? <;> simp [loggedTasks, hp]

/-- A task that stays in its mission leaves the missions of the tasks. -/
theorem taskMissions_set {id : Text} {t u : Task F} {tasks : List (Text × Task F)}
    (h : Dict.get id tasks = some t) (hm : u.missionId = t.missionId) :
    taskMissions (Dict.set id u tasks) = taskMissions tasks := Dict.map_set_of_get h hm

/-- **What a request does to the tasks, in memory and in the log**: a new task that is not
recorded is in memory alone. -/
theorem tasks_serve (h : Kept d s) (r : Request F) :
    (Recorded s r ∧ ∃ ms, taskMissions (serve d s r).tasks = taskMissions s.tasks ++ ms ∧
      loggedTasks (serve d s r).log = loggedTasks s.log ++ ms) ∨
    (¬ Recorded s r ∧ ∃ m, taskMissions (serve d s r).tasks = taskMissions s.tasks ++ [m] ∧
      loggedTasks (serve d s r).log = loggedTasks s.log) := by
  have hnone {s' : AppState F} (ht : taskMissions s'.tasks = taskMissions s.tasks)
      (hl : loggedTasks s'.log = loggedTasks s.log) :
      ∃ ms, taskMissions s'.tasks = taskMissions s.tasks ++ ms ∧
        loggedTasks s'.log = loggedTasks s.log ++ ms :=
    ⟨[], by rw [ht, List.append_nil], by rw [hl, List.append_nil]⟩
  cases r with
  | register body w =>
    refine .inl ⟨trivial, hnone ?_ ?_⟩
    · rw [serve, handle]
      rcases registerAgent_cases d s body w with ⟨-, hs⟩ | ⟨-, -, hs⟩ | ⟨-, -, hs⟩ <;>
        rw [hs] <;> rfl
    · rw [serve, handle]
      rcases registerAgent_cases d s body w with ⟨-, hs⟩ | ⟨-, -, hs⟩ | ⟨-, -, hs⟩
      · rw [hs]
      · rw [hs]; rfl
      · rw [hs, loggedTasks_append, loggedTasks_lines rfl, List.append_nil]
  | createMission body w =>
    refine .inl ⟨trivial, ?_⟩
    rw [serve, handle]
    rcases createMission_cases d s body w with hs | ⟨l, hl, hs⟩
    · rw [hs]; exact hnone rfl rfl
    · rw [hs]
      refine hnone rfl ?_
      rw [loggedTasks_append, loggedTasks_singleton hl]
      exact List.append_nil _
  | nextTask agentId capabilities =>
    refine .inl ⟨trivial, hnone ?_ rfl⟩
    rw [serve, handle, getNextTask]
    dsimp only
    by_cases hclaim : Unclaimed agentId (capabilityNames capabilities) s.tasks
    · rw [nextForAgent_of_unclaimed hclaim fun q hq => (h.coherent.tasks.owned q.1 q.2
        (Dict.get_of_mem h.coherent.tasks.nodup hq)).pending]
    · obtain ⟨id, t, hget, -, hs⟩ := nextForAgent_of_claimed hclaim h.coherent.tasks.nodup
      rw [hs]
      exact taskMissions_set hget rfl
  | submit taskId body w =>
    refine .inl ⟨trivial, ?_⟩
    rw [serve, handle]
    rcases submit_cases d s taskId body w with ⟨task, keyId, contentHash, l, hacc, hl, hs⟩ |
      ⟨-, ⟨n, -, hs⟩, -⟩
    · rw [hs]
      refine hnone (taskMissions_set hacc.found rfl) ?_
      rw [AppState.complete, loggedTasks_append, loggedTasks_singleton hl]
      exact List.append_nil _
    · rw [hs]; exact hnone rfl rfl
  | getContext index query w =>
    obtain ⟨n, ls, -, hls, hs⟩ := getContext_cases d s index query w
    refine .inl ⟨trivial, hnone (by rw [serve, handle, hs]) ?_⟩
    rw [serve, handle, hs, loggedTasks_append, loggedTasks_contextPack hls, List.append_nil]
  | createTask body w w' =>
    have hnew : Dict.set (newTask d s body).taskId (newTask d s body) s.tasks =
        s.tasks ++ [((newTask d s body).taskId, newTask d s body)] := by
      refine Ranking.set_of_notMem fun hmem => ?_
      obtain ⟨t, hget⟩ := Option.isSome_iff_exists.mp (Dict.get_isSome.mpr hmem)
      obtain ⟨n, hn, heq⟩ := h.coherent.tasks.drawn _ t hget
      exact hn.ne' (d.ulids.injective heq)
    have hmission : taskMissions (Dict.set (newTask d s body).taskId (newTask d s body) s.tasks) =
        taskMissions s.tasks ++ [body.missionId] := by
      rw [hnew, taskMissions, List.map_append]
      rfl
    rw [serve, handle]
    rcases createTask_cases d s body w w' with ⟨hunknown, hs⟩ | ⟨hknown, hfails, hs⟩ |
      ⟨-, hwrites, l, hl, ⟨-, hs⟩ | ⟨a, n, -, hs⟩⟩
    · -- no such mission
      rw [hs]
      refine .inl ⟨fun hsome => ?_, hnone rfl rfl⟩
      rw [hunknown] at hsome
      exact absurd hsome Bool.false_ne_true
    · -- its event is not written
      rw [hs]
      exact .inr ⟨fun hrec => hfails (hrec hknown), _, hmission, rfl⟩
    · -- created, and assigned to nobody
      rw [hs]
      refine .inl ⟨fun _ => hwrites, [body.missionId], hmission, ?_⟩
      rw [loggedTasks_append, loggedTasks_singleton hl]
      rfl
    · -- created and assigned: the assignment is no new task
      rw [hs]
      refine .inl ⟨fun _ => hwrites, [body.missionId], ?_, ?_⟩
      · dsimp only [AppState.setTask]
        rw [← hmission]
        exact taskMissions_set (Dict.get_set_self _ _ _) rfl
      · dsimp only [AppState.setTask]
        rw [loggedTasks_append, loggedTasks_append, loggedTasks_singleton hl,
          loggedTasks_lines rfl, List.append_nil]
        rfl

/-- **One request keeps the missions shown exactly when it records a new task.** -/
theorem missionsShown_serve (h : Kept d s) (hs : MissionsShown s)
    (r : Request F) : MissionsShown (serve d s r) ↔ Recorded s r := by
  rw [missionsShown_iff h] at hs
  rw [missionsShown_iff (kept_serve h r)]
  rcases tasks_serve h r with ⟨hrec, ms, htasks, hlog⟩ | ⟨hrec, m, htasks, hlog⟩
  · rw [htasks, hlog]
    exact iff_of_true (hs.append_right ms) hrec
  · rw [htasks, hlog]
    refine iff_of_false (fun hperm => ?_) hrec
    have hlength := hs.length_eq.symm.trans hperm.length_eq
    rw [List.length_append, List.length_singleton] at hlength
    omega

/-- **The dashboard shows the missions with the tasks they have in memory in exactly the runs in
which the event of every new task is written.** -/
theorem missionsShown_always_iff (d : Deployment) (time : Text) (is : List (Request F)) :
    Always (serve d) MissionsShown (started F d time) is ↔
      Along (serve d) Recorded (started F d time) is := by
  refine always_iff_along (Q := Kept d) (fun _ r h _ _ => kept_serve h r)
    (fun _ r h hs => missionsShown_serve h hs r) (kept_started d time) ?_
  rw [missionsShown_iff (kept_started d time), log_started, loggedTasks_lines rfl]
  exact List.Perm.nil

/-! ### The signatures of the results -/

/-- Every result of the log is shown as verified where the log has a key for its agent, and as
not checked elsewhere. -/
def SignaturesShown (d : Deployment) (s : AppState F) : Prop :=
  ∀ l ∈ s.log, ∀ p, l.event.payload = .taskResultSubmitted p →
    ∃ valid, ((readEventsFile (eventsJsonl s.log)).bind fun events =>
        verifyResultSignature d.verifyBytes events (entries l.payload)) = .ok valid ∧
      valid ≠ some false ∧
      (valid = some true ↔ p.agentId.val ≠ [] ∧ p.signature.val ≠ [] ∧
        ∃ q, Keyed s.log p.agentId q)

/-- **No result that the server took is ever shown with a bad signature**, whatever the requests
and the writes that were refused. -/
theorem signature_shown (d : Deployment) (time : Text) (is : List (Request F)) :
    Always (serve d) (SignaturesShown d) (started F d time) is := by
  intro js _ l hl p hp
  have h := kept_run (F := F) d time js
  generalize run (serve d) (started F d time) js = s at h hl ⊢
  rw [readEventsFile_eventsJsonl, Except.bind]
  obtain ⟨hchecked, hunchecked⟩ := verifyResultSignature_stored h.chronicle d.verifyBytes hp
  by_cases hkeyed : p.agentId.val ≠ [] ∧ p.signature.val ≠ [] ∧ ∃ q, Keyed s.log p.agentId q
  · obtain ⟨hagent, hsigned, q, hq⟩ := hkeyed
    obtain ⟨pk, bs, hpk, hbs, hverify⟩ := h.signed p
      (List.mem_filterMap.mpr ⟨l, hl, by rw [hp]; rfl⟩)
    -- the key of the log is the key in memory with which the server checked the result
    obtain ⟨ts, hc⟩ := mem_registered.mp hq.1
    obtain ⟨hkey, hget⟩ := h.agents _ hc
    have hpk' : pk = q.publicKey := by
      rw [h.coherent.keys.registered, ← hq.2.1, hget] at hpk
      exact (Option.some.inj hpk).symm
    subst hpk'
    refine ⟨some true, ?_, nofun, iff_of_true rfl ⟨hagent, hsigned, q, hq⟩⟩
    rw [hchecked q bs hagent hsigned hq (hkey ▸ hbs), hverify]
  · refine ⟨none, hunchecked ?_, nofun, iff_of_false nofun hkeyed⟩
    by_contra hnot
    rw [not_or, not_or, not_not] at hnot
    exact hkeyed hnot

end Mesh

end Daryl
