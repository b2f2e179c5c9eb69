import Daryl.Mesh.Server

/-!
# Writes that are refused

The routes order what they do to the memory and what they write differently: a mission and a
result are written first, an agent and a task are there before their events.  A refused write
answers 500 in either case, and what is in memory stays.

## Main definitions

* `Wrote` — a payload is in the log.
* `Described` — everything in memory has its event.
* `Traced` — what the log says of agents and tasks is so in memory.
* `Task.Capable` — an agent of the registry can take the task.
* `Covered` — no write of a registration or a new task fails, and no poll claims a task.

## Main results

* `described_serve` — one request keeps everything described exactly when it is covered.
* `described_along_iff` — **no state is without its event in exactly the covered runs.**
* `refused_registration_kept` — a registration that is refused, and kept.
-/

namespace Daryl

open Py Json Run

namespace Mesh

variable {F : Type} [PyFloat F]

/-! ### What the log says -/

/-- An event with the payload was written. -/
def Wrote (log : List (LoggedEvent F)) (p : Payload F) : Prop := ∃ l ∈ log, l.event.payload = p

theorem wrote_append {log log' : List (LoggedEvent F)} {p : Payload F} :
    Wrote (log ++ log') p ↔ Wrote log p ∨ Wrote log' p := by
  simp [Wrote, or_and_right, exists_or]

theorem wrote_singleton {l : LoggedEvent F} {p : Payload F} : Wrote [l] p ↔ l.event.payload = p := by
  simp [Wrote]

/-- A write that succeeds writes its event, and nothing else. -/
theorem wrote_lines {refuse : Bool} {e : MeshEvent F} {p : Payload F} :
    Wrote (write refuse e).lines p ↔ (refuse = false ∧ e.payload.Encodes) ∧ e.payload = p := by
  rcases write_cases refuse e with ⟨href, hw⟩ | ⟨-, henc, err, hw⟩ | ⟨href, henc, l, rfl, hw⟩
  · rw [hw, WriteEnd.lines]
    simp [Wrote, href]
  · rw [hw, WriteEnd.lines]
    simp [Wrote, henc]
  · rw [hw, WriteEnd.lines]
    simp [Wrote, href, henc]

/-- Every agent and every key has its `agent_registered`. -/
structure AgentsDescribed (log : List (LoggedEvent F)) (registry : List (Text × Agent))
    (keys keyIds : List (Text × Text)) : Prop where
  agents : ∀ id a, Dict.get id registry = some a → ∃ p, Wrote log (.agentRegistered p) ∧
    p.agentId = id ∧ p.agentType = a.agentType ∧ p.capabilities = a.capabilities ∧
    p.publicKey = a.publicKey
  keys : ∀ id k, Dict.get id keys = some k → ∃ p, Wrote log (.agentRegistered p) ∧
    p.agentId = id ∧ p.publicKey = k
  keyIds : ∀ id k, Dict.get id keyIds = some k → ∃ p, Wrote log (.agentRegistered p) ∧
    p.agentId = id ∧ p.keyId = k

/-- Every mission has its `mission_created`. -/
def MissionsDescribed (log : List (LoggedEvent F)) (missions : List (Text × Mission)) : Prop :=
  ∀ id m, Dict.get id missions = some m → ∃ p, Wrote log (.missionCreated p) ∧ p.missionId = id ∧
    p.title = m.title ∧ p.description = m.description

/-- Every task has its `task_created`, an owner its `task_assigned`, and the result of a
completed task its `task_result_submitted`. -/
structure TaskDescribed (log : List (LoggedEvent F)) (id : Text) (t : Task F) : Prop where
  created : ∃ p, Wrote log (.taskCreated p) ∧ p.taskId = id ∧ p.missionId = t.missionId ∧
    p.taskType = t.taskType ∧ p.payload = t.payload
  assigned : ∀ a, t.assignedTo = some a → ∃ p, Wrote log (.taskAssigned p) ∧ p.taskId = id ∧
    p.missionId = t.missionId ∧ p.assignedTo = a
  completed : t.status = .completed → ∃ p, Wrote log (.taskResultSubmitted p) ∧ p.taskId = id ∧
    t.result = some p.content

/-- Everything in memory is described by an event that was written. -/
structure Described (s : AppState F) : Prop where
  agents : AgentsDescribed s.log s.registry s.keys s.keyIds
  missions : MissionsDescribed s.log s.missions
  tasks : ∀ id t, Dict.get id s.tasks = some t → TaskDescribed s.log id t

theorem Wrote.append {log : List (LoggedEvent F)} {p : Payload F} (h : Wrote log p)
    (log' : List (LoggedEvent F)) : Wrote (log ++ log') p := wrote_append.mpr (.inl h)

theorem AgentsDescribed.append {log : List (LoggedEvent F)} {registry : List (Text × Agent)}
    {keys keyIds : List (Text × Text)} (h : AgentsDescribed log registry keys keyIds)
    (log' : List (LoggedEvent F)) : AgentsDescribed (log ++ log') registry keys keyIds :=
  ⟨fun id a hget => (h.agents id a hget).imp fun _ hp => ⟨hp.1.append log', hp.2⟩,
    fun id k hget => (h.keys id k hget).imp fun _ hp => ⟨hp.1.append log', hp.2⟩,
    fun id k hget => (h.keyIds id k hget).imp fun _ hp => ⟨hp.1.append log', hp.2⟩⟩

theorem MissionsDescribed.append {log : List (LoggedEvent F)} {missions : List (Text × Mission)}
    (h : MissionsDescribed log missions) (log' : List (LoggedEvent F)) :
    MissionsDescribed (log ++ log') missions :=
  fun id m hget => (h id m hget).imp fun _ hp => ⟨hp.1.append log', hp.2⟩

theorem TaskDescribed.append {log : List (LoggedEvent F)} {id : Text} {t : Task F}
    (h : TaskDescribed log id t) (log' : List (LoggedEvent F)) :
    TaskDescribed (log ++ log') id t :=
  ⟨h.created.imp fun _ hp => ⟨hp.1.append log', hp.2⟩,
    fun a ha => (h.assigned a ha).imp fun _ hp => ⟨hp.1.append log', hp.2⟩,
    fun hc => (h.completed hc).imp fun _ hp => ⟨hp.1.append log', hp.2⟩⟩

/-- What was described stays so when more is written. -/
theorem Described.append {s : AppState F} (h : Described s) (log' : List (LoggedEvent F)) :
    Described { s with log := s.log ++ log' } :=
  ⟨h.agents.append log', h.missions.append log', fun id t hget => (h.tasks id t hget).append log'⟩

/-- A task goes in. -/
theorem tasksDescribed_set {log : List (LoggedEvent F)} {tasks : List (Text × Task F)}
    (h : ∀ id t, Dict.get id tasks = some t → TaskDescribed log id t) {id : Text} {t : Task F}
    (ht : TaskDescribed log id t) :
    ∀ k u, Dict.get k (Dict.set id t tasks) = some u → TaskDescribed log k u := by
  intro k u hget
  rw [Dict.get_set] at hget
  split_ifs at hget with hk
  · obtain rfl := Option.some.inj hget
    exact hk ▸ ht
  · exact h k u hget

/-! ### What is in memory of what the log says -/

/-- The agents of the log are registered, and its tasks were drawn and have their owners. -/
structure Traced (d : Deployment) (s : AppState F) : Prop where
  coherent : Coherent d s
  agents : ∀ p, Wrote s.log (.agentRegistered p) → (Dict.get p.agentId s.registry).isSome
  created : ∀ p, Wrote s.log (.taskCreated p) → ∃ n < s.drawn, p.taskId = d.ulids.next n
  assigned : ∀ p, Wrote s.log (.taskAssigned p) → (∃ n < s.drawn, p.taskId = d.ulids.next n) ∧
    ∀ t, Dict.get p.taskId s.tasks = some t → t.assignedTo ≠ none

theorem traced_started (d : Deployment) (time : Text) : Traced d (started F d time) := by
  have hwrote (p : Payload F) (h : Wrote (started F d time).log p) :
      p = .serverStarted d.serverId := by
    rw [log_started, wrote_lines] at h
    exact h.2.symm
  exact ⟨coherent_started d time, fun p h => (nomatch hwrote _ h), fun p h => (nomatch hwrote _ h),
    fun p h => (nomatch hwrote _ h)⟩

/-- A task with an owner goes in, or one under a new identifier: the tasks whose assignment was
written keep their owners. -/
theorem Traced.assigned_set {d : Deployment} {s : AppState F} (h : Traced d s) {id : Text}
    {t : Task F} (ht : t.assignedTo ≠ none ∨ id = d.ulids.next s.drawn) {p : TaskAssigned}
    (hp : Wrote s.log (.taskAssigned p)) :
    ∀ u, Dict.get p.taskId (Dict.set id t s.tasks) = some u → u.assignedTo ≠ none := by
  intro u hget
  rw [Dict.get_set] at hget
  split_ifs at hget with hid
  · obtain rfl := Option.some.inj hget
    refine ht.elim (fun h => h) fun hnew => ?_
    obtain ⟨⟨k, hk, hdrawn⟩, -⟩ := h.assigned p hp
    exact absurd (d.ulids.injective (hnew.symm.trans (hid.trans hdrawn))) hk.ne'
  · exact (h.assigned p hp).2 u hget

/-- What was drawn before is drawn later. -/
theorem drawn_mono {d : Deployment} {m n : ℕ} (hle : m ≤ n) {id : Text}
    (hid : ∃ k < m, id = d.ulids.next k) : ∃ k < n, id = d.ulids.next k :=
  hid.imp fun _ hk => ⟨hk.1.trans_le hle, hk.2⟩

theorem traced_register {d : Deployment} {s : AppState F} (h : Traced d s)
    (body : RegisterAgentRequest) (w : Attempt) : Traced d (serve d s (.register body w)) := by
  have hcoherent := coherent_serve h.coherent (.register body w)
  rw [serve, handle] at hcoherent ⊢
  rcases registerAgent_cases d s body w with ⟨-, hs⟩ | ⟨hreg, hkey, -⟩ | ⟨-, -, hs⟩
  · rw [hs]; exact h
  · rw [h.coherent.keys.registered, hreg] at hkey
    exact absurd hkey Bool.false_ne_true
  · rw [hs] at hcoherent ⊢
    refine ⟨hcoherent, fun p hp => ?_, fun p hp => ?_, fun p hp => ?_⟩
    · change (Dict.get p.agentId (Dict.set body.agentId _ s.registry)).isSome
      rw [Dict.get_set]
      split_ifs with hid
      · rfl
      · rcases wrote_append.mp hp with hp | hp
        · exact h.agents p hp
        · obtain rfl := Payload.agentRegistered.inj (wrote_lines.mp hp).2
          exact absurd rfl hid
    · rcases wrote_append.mp hp with hp | hp
      · exact drawn_mono (Nat.le_succ _) (h.created p hp)
      · cases (wrote_lines.mp hp).2
    · rcases wrote_append.mp hp with hp | hp
      · exact (h.assigned p hp).imp_left (drawn_mono (Nat.le_succ _))
      · cases (wrote_lines.mp hp).2

theorem traced_createMission {d : Deployment} {s : AppState F} (h : Traced d s)
    (body : CreateMissionRequest F) (w : Attempt) : Traced d (serve d s (.createMission body w)) := by
  have hcoherent := coherent_serve h.coherent (.createMission body w)
  rw [serve, handle] at hcoherent ⊢
  rcases createMission_cases d s body w with hs | ⟨l, hl, hs⟩
  · rw [hs] at hcoherent ⊢
    exact ⟨hcoherent, h.agents, fun p hp => drawn_mono (Nat.le_add_right _ 2) (h.created p hp),
      fun p hp => (h.assigned p hp).imp_left (drawn_mono (Nat.le_add_right _ 2))⟩
  · rw [hs] at hcoherent ⊢
    have hold (p : Payload F) (hp : Wrote (s.log ++ [l]) p) :
        Wrote s.log p ∨ (missionEvent d s body w).payload = p := by
      rw [wrote_append, wrote_singleton, hl] at hp
      exact hp
    refine ⟨hcoherent, fun p hp => ?_, fun p hp => ?_, fun p hp => ?_⟩
    · exact (hold _ hp).elim (h.agents p) (by rintro ⟨⟩)
    · exact (hold _ hp).elim (fun hp => drawn_mono (Nat.le_add_right _ 2) (h.created p hp))
        (by rintro ⟨⟩)
    · exact (hold _ hp).elim
        (fun hp => (h.assigned p hp).imp_left (drawn_mono (Nat.le_add_right _ 2)))
        (by rintro ⟨⟩)

theorem traced_createTask {d : Deployment} {s : AppState F} (h : Traced d s)
    (body : CreateTaskRequest F) (w w' : Attempt) : Traced d (serve d s (.createTask body w w')) := by
  have hcoherent := coherent_serve h.coherent (.createTask body w w')
  rw [serve, handle] at hcoherent ⊢
  have hnew {n : ℕ} (hn : s.drawn < n) : ∃ k < n, d.ulids.next s.drawn = d.ulids.next k :=
    ⟨s.drawn, hn, rfl⟩
  rcases createTask_cases d s body w w' with ⟨-, hs⟩ | ⟨-, -, hs⟩ |
    ⟨-, -, l, hl, ⟨-, hs⟩ | ⟨a, n, -, hs⟩⟩
  · rw [hs]; exact h
  · -- the creation is not written: the task is in memory alone
    rw [hs] at hcoherent ⊢
    exact ⟨hcoherent, h.agents, fun p hp => drawn_mono (Nat.le_add_right _ 2) (h.created p hp),
      fun p hp => ⟨drawn_mono (Nat.le_add_right _ 2) (h.assigned p hp).1,
        h.assigned_set (.inr rfl) hp⟩⟩
  · -- created, and assigned to nobody
    rw [hs] at hcoherent ⊢
    have hold (p : Payload F) (hp : Wrote (s.log ++ [l]) p) :
        Wrote s.log p ∨ (createdEvent d s body w).payload = p := by
      rw [wrote_append, wrote_singleton, hl] at hp
      exact hp
    refine ⟨hcoherent, fun p hp => ?_, fun p hp => ?_, fun p hp => ?_⟩
    · exact (hold _ hp).elim (h.agents p) (by rintro ⟨⟩)
    · rcases hold _ hp with hp | hp
      · exact drawn_mono (Nat.le_add_right _ 2) (h.created p hp)
      · obtain rfl := Payload.taskCreated.inj hp
        exact hnew (by simp)
    · rcases hold _ hp with hp | hp
      · exact ⟨drawn_mono (Nat.le_add_right _ 2) (h.assigned p hp).1, h.assigned_set (.inr rfl) hp⟩
      · cases hp
  · -- created and assigned, the assignment written or not
    rw [hs] at hcoherent ⊢
    have hold (p : Payload F) (hp : Wrote (s.log ++ [l] ++
        (write w'.refuse (assignedEvent d s body w' a)).lines) p) :
        Wrote s.log p ∨ (createdEvent d s body w).payload = p ∨
          (assignedEvent d s body w' a).payload = p := by
      rw [wrote_append, wrote_append, wrote_singleton, hl, wrote_lines, or_assoc] at hp
      exact hp.imp_right (Or.imp_right And.right)
    refine ⟨hcoherent, fun p hp => ?_, fun p hp => ?_, fun p hp => ?_⟩
    · rcases hold _ hp with hp | hp | hp
      · exact h.agents p hp
      · cases hp
      · cases hp
    · rcases hold _ hp with hp | hp | hp
      · exact drawn_mono (Nat.le_add_right _ 3) (h.created p hp)
      · obtain rfl := Payload.taskCreated.inj hp
        exact hnew (by simp)
      · cases hp
    · change _ ∧ ∀ t, Dict.get p.taskId (Dict.set (d.ulids.next s.drawn) _
        (Dict.set (d.ulids.next s.drawn) _ s.tasks)) = some t → _
      rw [Dict.set_set]
      rcases hold _ hp with hp | hp | hp
      · exact ⟨drawn_mono (Nat.le_add_right _ 3) (h.assigned p hp).1, h.assigned_set (.inr rfl) hp⟩
      · cases hp
      · obtain rfl := Payload.taskAssigned.inj hp
        refine ⟨hnew (by simp), fun t hget => ?_⟩
        rw [Dict.get_set_self] at hget
        obtain rfl := Option.some.inj hget
        exact Option.some_ne_none a

theorem traced_nextTask {d : Deployment} {s : AppState F} (h : Traced d s)
    (agentId capabilities : Text) : Traced d (serve d s (.nextTask agentId capabilities)) := by
  have hcoherent := coherent_serve h.coherent (.nextTask agentId capabilities)
  rw [serve, handle] at hcoherent ⊢
  refine ⟨hcoherent, h.agents, h.created, fun p hp => ⟨(h.assigned p hp).1, ?_⟩⟩
  rw [getNextTask]
  dsimp only
  by_cases hclaim : Unclaimed agentId (capabilityNames capabilities) s.tasks
  · rw [nextForAgent_of_unclaimed hclaim fun q hq => (h.coherent.tasks.owned q.1 q.2
      (Dict.get_of_mem h.coherent.tasks.nodup hq)).pending]
    exact (h.assigned p hp).2
  · obtain ⟨id, t, -, -, hs⟩ := nextForAgent_of_claimed hclaim h.coherent.tasks.nodup
    rw [hs]
    exact h.assigned_set (.inl (Option.some_ne_none agentId)) hp

theorem traced_submit {d : Deployment} {s : AppState F} (h : Traced d s) (taskId : Text)
    (body : SubmitTaskResultRequest F) (w : Attempt) : Traced d (serve d s (.submit taskId body w)) := by
  have hcoherent := coherent_serve h.coherent (.submit taskId body w)
  rw [serve, handle] at hcoherent ⊢
  rcases submit_cases d s taskId body w with ⟨task, keyId, contentHash, l, hacc, hl, hs⟩ |
    ⟨-, ⟨n, hn, hs⟩, -⟩
  · rw [hs] at hcoherent ⊢
    have hold (p : Payload F) (hp : Wrote (s.log ++ [l]) p) : Wrote s.log p ∨
        .taskResultSubmitted (taskResult contentHash taskId task body) = p := by
      rw [wrote_append, wrote_singleton, hl] at hp
      exact hp
    refine ⟨hcoherent, fun p hp => ?_, fun p hp => ?_, fun p hp => ?_⟩
    · exact (hold _ hp).elim (h.agents p) (by rintro ⟨⟩)
    · exact (hold _ hp).elim (fun hp => drawn_mono (Nat.le_add_right _ 2) (h.created p hp))
        (by rintro ⟨⟩)
    · rcases hold _ hp with hp | hp
      · refine ⟨drawn_mono (Nat.le_add_right _ 2) (h.assigned p hp).1, ?_⟩
        refine h.assigned_set (.inl ?_) hp
        rw [hacc.assignee]
        exact Option.some_ne_none _
      · cases hp
  · rw [hs] at hcoherent ⊢
    exact ⟨hcoherent, h.agents, fun p hp => drawn_mono hn (h.created p hp),
      fun p hp => (h.assigned p hp).imp_left (drawn_mono hn)⟩

theorem traced_getContext {d : Deployment} {s : AppState F} (h : Traced d s) (index : IndexDB)
    (query : ContextQuery) (w : Attempt) : Traced d (serve d s (.getContext index query w)) := by
  have hcoherent := coherent_serve h.coherent (.getContext index query w)
  rw [serve, handle] at hcoherent ⊢
  obtain ⟨n, ls, hn, hls, hs⟩ := getContext_cases d s index query w
  rw [hs] at hcoherent ⊢
  have hold (p : Payload F) (hp : Wrote (s.log ++ ls) p) :
      Wrote s.log p ∨ .contextPackIssued (contextPack d s index query) = p := by
    rcases wrote_append.mp hp with hp | ⟨l, hl, heq⟩
    · exact .inl hp
    · rw [← heq, payload_contextPack hls l hl]
      exact .inr rfl
  refine ⟨hcoherent, fun p hp => ?_, fun p hp => ?_, fun p hp => ?_⟩
  · exact (hold _ hp).elim (h.agents p) (by rintro ⟨⟩)
  · exact (hold _ hp).elim (fun hp => drawn_mono hn (h.created p hp)) (by rintro ⟨⟩)
  · exact (hold _ hp).elim (fun hp => (h.assigned p hp).imp_left (drawn_mono hn)) (by rintro ⟨⟩)

/-- A request adds events that are traced to the ones that were. -/
theorem traced_serve {d : Deployment} {s : AppState F} (h : Traced d s) (r : Request F) :
    Traced d (serve d s r) := by
  cases r with
  | register body w => exact traced_register h body w
  | createMission body w => exact traced_createMission h body w
  | createTask body w w' => exact traced_createTask h body w w'
  | nextTask agentId capabilities => exact traced_nextTask h agentId capabilities
  | submit taskId body w => exact traced_submit h taskId body w
  | getContext index query w => exact traced_getContext h index query w

/-! ### Covered requests -/

/-- Some agent of the registry can take the task. -/
def Task.Capable (t : Task F) (registry : List (Text × Agent)) : Prop :=
  ∃ required, pySet t.required = .ok required ∧
    ∃ a ∈ listActive registry, issubset required (a.capabilities.map (·.val)) = true

/-- The scheduler finds an agent when there is one. -/
theorem assignTask_iff {registry : List (Text × Agent)} {cursor : ℕ} {t : Task F} :
    (∃ a n, assignTask registry cursor t = .ok (some a, n)) ↔ t.Capable registry := by
  unfold assignTask Task.Capable
  cases hset : pySet t.required with
  | error err => simp [Except.map]
  | ok required =>
    simp only [Except.map, Except.ok.injEq, exists_eq_left']
    -- the candidates, in the order of their identifiers
    generalize hcands : ((listActive registry).filter fun a =>
      issubset required (a.capabilities.map (·.val))).insertionSort (fun a b =>
        a.agentId.val ≤ b.agentId.val) = candidates
    have hmem (a : Agent) : a ∈ candidates ↔
        a ∈ listActive registry ∧ issubset required (a.capabilities.map (·.val)) = true := by
      rw [← hcands, List.mem_insertionSort, List.mem_filter]
    cases candidates with
    | nil =>
      refine iff_of_false (by simp) ?_
      rintro ⟨a, ha, hsub⟩
      exact absurd ((hmem a).mpr ⟨ha, hsub⟩) List.not_mem_nil
    | cons a as =>
      refine iff_of_true ?_ ⟨a, (hmem a).mp List.mem_cons_self⟩
      have hlt : cursor % (a :: as).length < (a :: as).length := Nat.mod_lt _ (by simp)
      rw [List.getElem?_eq_getElem hlt]
      exact ⟨_, _, rfl⟩

/-- No write of a registration or of a new task fails, and no poll claims a task. -/
def Covered (d : Deployment) (s : AppState F) : Request F → Prop
  | .register body w => (Dict.get body.agentId s.registry).isSome ∨ w.refuse = false
  | .createTask body w w' => (Dict.get body.missionId s.missions).isSome →
    (w.refuse = false ∧ eachStr Encodable body.payload.toPy) ∧
      ((newTask d s body).Capable s.registry → w'.refuse = false)
  | .nextTask agentId capabilities => Unclaimed agentId (capabilityNames capabilities) s.tasks
  | .createMission _ _ | .submit _ _ _ | .getContext _ _ _ => True

theorem described_register {d : Deployment} {s : AppState F} (h : Traced d s) (hd : Described s)
    (body : RegisterAgentRequest) (w : Attempt) :
    Described (registerAgent d s body w).1 ↔ Covered d s (.register body w) := by
  rcases registerAgent_cases d s body w with ⟨hreg, hs⟩ | ⟨hreg, hkey, -⟩ | ⟨hreg, -, hs⟩
  · rw [hs]
    exact iff_of_true hd (.inl hreg)
  · rw [h.coherent.keys.registered, hreg] at hkey
    exact absurd hkey Bool.false_ne_true
  rw [hs]
  constructor
  · -- an event of the agent would have been written before
    intro hd'
    obtain ⟨p, hp, hid, -⟩ := hd'.agents.agents body.agentId _ (Dict.get_set_self _ _ _)
    rcases wrote_append.mp hp with hp | hp
    · have hsome := h.agents p hp
      rw [hid, hreg] at hsome
      exact absurd hsome Bool.false_ne_true
    · exact .inr (wrote_lines.mp hp).1.1
  · -- the three tables of the agent are told by its event
    rintro (hsome | hw)
    · rw [hreg] at hsome
      exact absurd hsome Bool.false_ne_true
    · have hnew : Wrote (s.log ++ (write w.refuse (registrationEvent d s body w)).lines)
          (registrationEvent d s body w).payload :=
        wrote_append.mpr (.inr (wrote_lines.mpr ⟨⟨hw, trivial⟩, rfl⟩))
      have hold := hd.agents.append (write w.refuse (registrationEvent d s body w)).lines
      refine ⟨⟨fun id a hget => ?_, fun id k hget => ?_, fun id k hget => ?_⟩,
        hd.missions.append _, fun id t hget => (hd.tasks id t hget).append _⟩
      · change Dict.get id (Dict.set body.agentId _ s.registry) = some a at hget
        rw [Dict.get_set] at hget
        split_ifs at hget with hid
        · obtain rfl := Option.some.inj hget
          exact ⟨_, hnew, hid, rfl, rfl, rfl⟩
        · exact hold.agents id a hget
      · change Dict.get id (Dict.set body.agentId _ s.keys) = some k at hget
        rw [Dict.get_set] at hget
        split_ifs at hget with hid
        · exact ⟨_, hnew, hid, Option.some.inj hget⟩
        · exact hold.keys id k hget
      · change Dict.get id (Dict.set body.agentId _ s.keyIds) = some k at hget
        rw [Dict.get_set] at hget
        split_ifs at hget with hid
        · exact ⟨_, hnew, hid, Option.some.inj hget⟩
        · exact hold.keyIds id k hget

theorem described_createTask {d : Deployment} {s : AppState F} (h : Traced d s) (hd : Described s)
    (body : CreateTaskRequest F) (w w' : Attempt) :
    Described (createTask d s body w w').1 ↔ Covered d s (.createTask body w w') := by
  -- nothing was written of the identifier that is drawn
  have hfresh {id : Text} (hid : id = d.ulids.next s.drawn)
      (hdrawn : ∃ k < s.drawn, id = d.ulids.next k) : False := by
    obtain ⟨k, hk, hk'⟩ := hdrawn
    exact hk.ne (d.ulids.injective (hk'.symm.trans hid))
  rcases createTask_cases d s body w w' with ⟨hmission, hs⟩ | ⟨hmission, hnot, hs⟩ |
    ⟨hmission, hwrite, l, hl, hcase⟩
  · rw [hs]
    exact iff_of_true hd fun hsome => by simp [hmission] at hsome
  · rw [hs]
    refine iff_of_false (fun hd' => ?_) fun hc => hnot (hc hmission).1
    obtain ⟨p, hp, hid, -⟩ := (hd'.tasks _ _ (Dict.get_set_self _ _ _)).created
    exact hfresh hid (h.created p hp)
  have hcreated : Wrote (s.log ++ [l]) (createdEvent d s body w).payload :=
    wrote_append.mpr (.inr (wrote_singleton.mpr (congrArg _ hl)))
  have hold := hd.append [l]
  rcases hcase with ⟨hnone, hs⟩ | ⟨a, n, hassign, hs⟩
  · rw [hs]
    refine iff_of_true ⟨hold.agents, hold.missions, ?_⟩ fun _ => ⟨hwrite, fun hcap => ?_⟩
    · exact tasksDescribed_set hold.tasks ⟨⟨_, hcreated, rfl, rfl, rfl, rfl⟩, by rintro _ ⟨⟩,
        by rintro ⟨⟩⟩
    · obtain ⟨a, n, hassign⟩ := assignTask_iff.mpr hcap
      exact absurd hassign (hnone a n)
  have hcapable : (newTask d s body).Capable s.registry := assignTask_iff.mp ⟨a, n, hassign⟩
  rw [hs]
  constructor
  · refine fun hd' _ => ⟨hwrite, fun _ => ?_⟩
    have htask := hd'.tasks (d.ulids.next s.drawn) ((newTask d s body).assign a)
      (Dict.get_set_self _ _ _)
    obtain ⟨p, hp, hid, -⟩ := htask.assigned a rfl
    rcases wrote_append.mp hp with hp | hp
    · rcases wrote_append.mp hp with hp | hp
      · exact (hfresh hid (h.assigned p hp).1).elim
      · rw [wrote_singleton, hl] at hp
        cases hp
    · exact (wrote_lines.mp hp).1.1
  · intro hc
    have hold' := hold.append (write w'.refuse (assignedEvent d s body w' a)).lines
    have hassigned : Wrote (s.log ++ [l] ++ (write w'.refuse (assignedEvent d s body w' a)).lines)
        (assignedEvent d s body w' a).payload :=
      wrote_append.mpr (.inr (wrote_lines.mpr ⟨⟨(hc hmission).2 hcapable, trivial⟩, rfl⟩))
    refine ⟨hold'.agents, hold'.missions, fun id t hget => ?_⟩
    change Dict.get id (Dict.set (d.ulids.next s.drawn) _
      (Dict.set (d.ulids.next s.drawn) _ s.tasks)) = some t at hget
    rw [Dict.set_set] at hget
    have htask : TaskDescribed (s.log ++ [l] ++
        (write w'.refuse (assignedEvent d s body w' a)).lines) (d.ulids.next s.drawn)
        ((newTask d s body).assign a) := by
      refine ⟨⟨_, hcreated.append _, rfl, rfl, rfl, rfl⟩, fun b hb => ?_, by rintro ⟨⟩⟩
      obtain rfl := Option.some.inj hb
      exact ⟨_, hassigned, rfl, rfl, rfl⟩
    exact tasksDescribed_set hold'.tasks htask id t hget

/-- **One request keeps everything described exactly when it is covered.** -/
theorem described_serve {d : Deployment} {s : AppState F} (h : Traced d s) (hd : Described s)
    (r : Request F) : Described (serve d s r) ↔ Covered d s r := by
  cases r with
  | register body w => exact described_register h hd body w
  | createMission body w =>
    refine iff_of_true ?_ trivial
    rw [serve, handle]
    rcases createMission_cases d s body w with hs | ⟨l, hl, hs⟩
    · rw [hs]
      exact ⟨hd.agents, hd.missions, hd.tasks⟩
    · -- written: the mission is told by its event
      rw [hs]
      have hold := hd.append [l]
      refine ⟨hold.agents, fun id m hget => ?_, hold.tasks⟩
      rw [Dict.get_set] at hget
      split_ifs at hget with hid
      · obtain rfl := Option.some.inj hget
        exact ⟨_, wrote_append.mpr (.inr (wrote_singleton.mpr (congrArg _ hl))), hid, rfl, rfl⟩
      · exact hold.missions id m hget
  | createTask body w w' => exact described_createTask h hd body w w'
  | nextTask agentId capabilities =>
    rw [serve, handle, getNextTask, Covered]
    by_cases hclaim : Unclaimed agentId (capabilityNames capabilities) s.tasks
    · -- nothing to claim
      refine iff_of_true ⟨hd.agents, hd.missions, ?_⟩ hclaim
      dsimp only
      rw [nextForAgent_of_unclaimed hclaim fun q hq => (h.coherent.tasks.owned q.1 q.2
        (Dict.get_of_mem h.coherent.tasks.nodup hq)).pending]
      exact hd.tasks
    · -- the assignment would have been written while the task was nobody's
      refine iff_of_false (fun hd' => ?_) hclaim
      obtain ⟨id, t, hget, hnone, hs⟩ := nextForAgent_of_claimed hclaim h.coherent.tasks.nodup
      have htask := hd'.tasks id (t.assign agentId) (by
        dsimp only
        rw [hs, Dict.get_set_self])
      obtain ⟨p, hp, hid, -⟩ := htask.assigned agentId rfl
      exact (h.assigned p hp).2 t (hid ▸ hget) hnone
  | submit taskId body w =>
    refine iff_of_true ?_ trivial
    rw [serve, handle]
    rcases submit_cases d s taskId body w with ⟨task, keyId, contentHash, l, hacc, hl, hs⟩ |
      ⟨-, ⟨n, -, hs⟩, -⟩
    · -- accepted: the completion is told by the result
      rw [hs]
      have hold := hd.append [l]
      have htask := hold.tasks taskId task hacc.found
      exact ⟨hold.agents, hold.missions, tasksDescribed_set hold.tasks ⟨htask.created,
        htask.assigned, fun _ => ⟨_, wrote_append.mpr (.inr (wrote_singleton.mpr (congrArg _ hl))),
          rfl, rfl⟩⟩⟩
    · rw [hs]
      exact ⟨hd.agents, hd.missions, hd.tasks⟩
  | getContext index query w =>
    obtain ⟨n, ls, -, -, hs⟩ := getContext_cases d s index query w
    refine iff_of_true ?_ trivial
    rw [serve, handle, hs]
    exact ⟨hd.agents.append ls, hd.missions.append ls, fun id t hget =>
      (hd.tasks id t hget).append ls⟩

/-- The routes that change nothing before their event is written. -/
def WritesFirst : Request F → Prop
  | .createMission _ _ | .submit _ _ _ | .getContext _ _ _ => True
  | .register _ _ | .createTask _ _ _ | .nextTask _ _ => False

/-- A registration that is answered with a failed write was refused. -/
theorem not_covered_register {d : Deployment} {s : AppState F} {body : RegisterAgentRequest}
    {w : Attempt} (hanswer : (registerAgent d s body w).2 = writeFailed) :
    ¬Covered d s (.register body w) := by
  rintro (hold | hw)
  · rw [registerAgent, if_pos hold] at hanswer
    exact absurd hanswer (by simp [writeFailed])
  · unfold registerAgent at hanswer
    dsimp only at hanswer
    split_ifs at hanswer
    · exact absurd hanswer (by simp [writeFailed])
    · exact absurd hanswer (by simp [writeFailed])
    · rcases write_cases w.refuse (registrationEvent d s body w) with ⟨href, -⟩ | ⟨-, -, err, he⟩ |
        ⟨-, -, l, -, he⟩
      · exact absurd (hw.symm.trans href) Bool.false_ne_true
      · rw [he] at hanswer
        exact absurd hanswer (by simp [writeFailed])
      · rw [he] at hanswer
        exact absurd hanswer (by simp [writeFailed])

/-- A creation that is answered with a failed write had one of its two refused. -/
theorem not_covered_createTask {d : Deployment} {s : AppState F} {body : CreateTaskRequest F}
    {w w' : Attempt} (hanswer : (createTask d s body w w').2 = writeFailed) :
    ¬Covered d s (.createTask body w w') := by
  intro hcovered
  unfold createTask at hanswer
  dsimp only at hanswer
  split_ifs at hanswer with hmission
  · exact absurd hanswer (by simp [writeFailed])
  obtain ⟨⟨hw, -⟩, hw'⟩ := hcovered (Option.isSome_iff_ne_none.mpr (by simpa using hmission))
  rcases write_cases w.refuse (createdEvent d s body w) with ⟨href, -⟩ | ⟨-, -, err, he⟩ |
    ⟨-, -, l, -, he⟩
  · -- the creation was not refused
    exact absurd (hw.symm.trans href) Bool.false_ne_true
  · rw [he] at hanswer
    exact absurd hanswer (by simp [writeFailed])
  rw [he] at hanswer
  dsimp only at hanswer
  cases hassign : assignTask s.registry s.cursor (newTask d s body) with
  | error err =>
    rw [hassign] at hanswer
    exact absurd hanswer (by simp [writeFailed])
  | ok r =>
    obtain ⟨_ | a, n⟩ := r
    · rw [hassign] at hanswer
      exact absurd hanswer (by simp [writeFailed])
    rw [hassign] at hanswer
    dsimp only at hanswer
    have hallowed := hw' (assignTask_iff.mp ⟨a, n, hassign⟩)
    rcases write_cases w'.refuse (assignedEvent d s body w' a) with ⟨href, -⟩ | ⟨-, -, err, he'⟩ |
      ⟨-, -, l', -, he'⟩
    · -- nor was the assignment
      exact absurd (hallowed.symm.trans href) Bool.false_ne_true
    · rw [he'] at hanswer
      exact absurd hanswer (by simp [writeFailed])
    · rw [he'] at hanswer
      exact absurd hanswer (by simp [writeFailed])

/-- **A request answered with a failed write leaves everything described exactly when its route
writes first.** -/
theorem described_writeFailed {d : Deployment} {s : AppState F} (h : Traced d s) (hd : Described s)
    {r : Request F} (hanswer : (handle d s r).2 = writeFailed) :
    Described (serve d s r) ↔ WritesFirst r := by
  rw [described_serve h hd]
  cases r with
  | register body w => exact iff_of_false (not_covered_register hanswer) id
  | createMission body w => exact Iff.rfl
  | createTask body w w' => exact iff_of_false (not_covered_createTask hanswer) id
  | nextTask agentId capabilities =>
    -- a poll has no write that could fail
    rw [handle, getNextTask] at hanswer
    dsimp only at hanswer
    split at hanswer <;> simp [writeFailed] at hanswer
  | submit taskId body w => exact Iff.rfl
  | getContext index query w => exact Iff.rfl

theorem described_started (d : Deployment) (time : Text) : Described (started F d time) :=
  ⟨⟨nofun, nofun, nofun⟩, nofun, nofun⟩

/-- **Everything in memory is described by an event that was written in exactly the runs in
which no write of a registration or of a new task fails and no poll claims a task.** -/
theorem described_along_iff (d : Deployment) (time : Text) (is : List (Request F)) :
    Always (serve d) Described (started F d time) is ↔
      Along (serve d) (Covered d) (started F d time) is := by
  have hstep (s : AppState F) (r : Request F) (h : Traced d s) (hd : Described s) :
      Described (serve d s r) ↔ Covered d s r := described_serve h hd r
  exact always_iff_along (fun s r h _ _ => traced_serve h r) hstep (traced_started d time)
    (described_started d time)

/-- A registration that is refused. -/
def sampleRefusal : List (Request FloatLit) :=
  [.register ⟨sampleAgent, sampleSkill, [sampleSkill], sampleAgent⟩ ⟨sampleTimeText, true⟩]

/-- **A registration that was not written is kept.** -/
theorem refused_registration_kept : ¬ Always (serve sampleDeployment) Described
    (started FloatLit sampleDeployment sampleTimeText) sampleRefusal := by
  intro h
  have hend := (h _ (List.prefix_refl _)).agents.keys sampleAgent sampleAgent rfl
  obtain ⟨p, ⟨l, hl, hp⟩, -⟩ := hend
  have htypes : (run (serve sampleDeployment) (started FloatLit sampleDeployment sampleTimeText)
      sampleRefusal).log.map (fun l => l.event.payload.eventType) = [py "server_started"] := by
    decide +kernel
  have hmem := List.mem_map_of_mem (f := fun l : LoggedEvent FloatLit => l.event.payload.eventType)
    hl
  rw [htypes, hp] at hmem
  exact absurd hmem (by decide : py "agent_registered" ∉ [py "server_started"])

end Mesh

end Daryl
