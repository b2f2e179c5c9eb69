import Daryl.Mesh.Server

/-!
# Results that are sent again

A signed result can be sent again by anybody who saw it, and by a worker that lost the answer.
The route looks at the signature and at the owner of the task, not at what it has already
recorded; a registration that is repeated is answered 409, a result is not.

## Main definitions

* `results`, `TaskResult.identity` — the results in the log, and what tells them apart.
* `RecordedOnce`, `KeepsResult` — no result is there twice, and what was sent before does not
  replace the result of a completed task.
* `NoResend` — no submission that is accepted is in the log already.

## Main results

* `results_serve` — only an accepted submission adds a result.
* `recordedOnce_along_iff` — **results are recorded once in exactly the runs in which none is
  accepted again.**
* `resend_recorded_twice` — a run with one result that is there twice.
-/

namespace Daryl

open Py Json Run

namespace Mesh

variable {F : Type} [PyFloat F]

/-- The result that a payload holds. -/
def Payload.result? : Payload F → Option (TaskResult F)
  | .taskResultSubmitted p => some p
  | _ => none

/-- The results in the log. -/
def results (log : List (LoggedEvent F)) : List (TaskResult F) :=
  log.filterMap fun l => l.event.payload.result?

/-- The task, the contribution and the signature. -/
def TaskResult.identity (p : TaskResult F) : Text × Text × Text :=
  (p.taskId, p.contributionId, p.signature)

@[inherit_doc TaskResult.identity]
def SubmitTaskResultRequest.identity (body : SubmitTaskResultRequest F) (taskId : Text) :
    Text × Text × Text := (taskId, body.contributionId, body.signature)

/-- No result is in the log twice. -/
def RecordedOnce (s : AppState F) : Prop := ((results s.log).map TaskResult.identity).Nodup

/-- The body is the one of a result in the log. -/
def Resends (s : AppState F) (taskId : Text) (body : SubmitTaskResultRequest F) : Prop :=
  ∃ p ∈ results s.log, p.taskId = taskId ∧ p.agentId = body.agentId ∧
    p.contributionId = body.contributionId ∧ p.content.items = body.content.items ∧
    p.createdAt = body.createdAt ∧ p.signature = body.signature

/-- A request that sends a body again leaves the result of a completed task alone. -/
def KeepsResult (d : Deployment) (s : AppState F) : Request F → Prop
  | .submit taskId body w => Resends s taskId body →
    ∀ t, Dict.get taskId s.tasks = some t → t.status = .completed →
      ∃ t', Dict.get taskId (serve d s (.submit taskId body w)).tasks = some t' ∧
        t'.result = t.result
  | _ => True

/-- A submission does not pass the checks. -/
def Rejected (d : Deployment) (s : AppState F) (taskId : Text) (body : SubmitTaskResultRequest F)
    (w : Attempt) : Prop :=
  ∀ task keyId contentHash, ¬ Accepted d s taskId body w task keyId contentHash

/-- A submission that is in the log already does not pass the checks. -/
def NoResend (d : Deployment) (s : AppState F) : Request F → Prop
  | .submit taskId body w => body.identity taskId ∈ (results s.log).map TaskResult.identity →
    Rejected d s taskId body w
  | _ => True

theorem results_append (log log' : List (LoggedEvent F)) :
    results (log ++ log') = results log ++ results log' := List.filterMap_append

theorem results_lines (refuse : Bool) (e : MeshEvent F) (h : e.payload.result? = none) :
    results (write refuse e).lines = [] := by
  rcases write_cases refuse e with ⟨-, hw⟩ | ⟨-, -, err, hw⟩ | ⟨-, -, l, rfl, hw⟩
  · rw [hw]; rfl
  · rw [hw]; rfl
  · simp [hw, WriteEnd.lines, results, h]

theorem results_singleton {l : LoggedEvent F} {e : MeshEvent F} (hl : l.event = e)
    (h : e.payload.result? = none) : results [l] = [] := by
  subst hl
  simp [results, h]

/-- The event of a context pack is no result. -/
theorem results_contextPack {d : Deployment} {s : AppState F} {index : IndexDB}
    {query : ContextQuery} {w : Attempt} {ls : List (LoggedEvent F)}
    (h : ∀ l ∈ ls, l.event = contextEvent d s index query w) : results ls = [] := by
  rw [results, List.filterMap_eq_nil_iff]
  intro l hl
  rw [payload_contextPack h l hl]
  rfl

/-- **Only an accepted submission adds a result.** -/
theorem results_serve (d : Deployment) (s : AppState F) (r : Request F) :
    (∃ taskId body w task keyId contentHash p, r = .submit taskId body w ∧
      Accepted d s taskId body w task keyId contentHash ∧
      p.identity = body.identity taskId ∧ results (serve d s r).log = results s.log ++ [p]) ∨
    (∀ taskId body w, r = .submit taskId body w → Rejected d s taskId body w) ∧
      results (serve d s r).log = results s.log := by
  cases r with
  | register body w =>
    refine .inr ⟨by rintro _ _ _ ⟨⟩, ?_⟩
    rw [serve, handle]
    rcases registerAgent_cases d s body w with ⟨-, hs⟩ | ⟨-, -, hs⟩ | ⟨-, -, hs⟩
    · rw [hs]
    · rw [hs]; rfl
    · rw [hs, results_append, results_lines _ _ rfl, List.append_nil]
  | createMission body w =>
    refine .inr ⟨by rintro _ _ _ ⟨⟩, ?_⟩
    rw [serve, handle]
    rcases createMission_cases d s body w with hs | ⟨l, hl, hs⟩
    · rw [hs]
    · rw [hs, results_append, results_singleton hl rfl, List.append_nil]
  | createTask body w w' =>
    refine .inr ⟨by rintro _ _ _ ⟨⟩, ?_⟩
    rw [serve, handle]
    rcases createTask_cases d s body w w' with ⟨-, hs⟩ | ⟨-, -, hs⟩ |
      ⟨-, -, l, hl, ⟨-, hs⟩ | ⟨a, n, -, hs⟩⟩
    · rw [hs]
    · rw [hs]; rfl
    · rw [hs, results_append, results_singleton hl rfl, List.append_nil]
    · rw [hs, results_append, results_append, results_singleton hl rfl, results_lines _ _ rfl,
        List.append_nil, List.append_nil]
  | nextTask agentId capabilities => exact .inr ⟨by rintro _ _ _ ⟨⟩, rfl⟩
  | submit taskId body w =>
    rw [serve, handle]
    rcases submit_cases d s taskId body w with ⟨task, keyId, contentHash, l, hacc, hl, hs⟩ |
      ⟨hno, ⟨n, -, hs⟩, -⟩
    · refine .inl ⟨taskId, body, w, task, keyId, contentHash, taskResult contentHash taskId task body,
        rfl, hacc, rfl, ?_⟩
      rw [hs]
      simp [AppState.complete, results, hl, resultEvent, Payload.result?, missionAgentAuthored]
    · refine .inr ⟨fun taskId' body' w' heq => ?_, by rw [hs]⟩
      cases heq
      exact hno
  | getContext index query w =>
    obtain ⟨n, ls, -, hls, hs⟩ := getContext_cases d s index query w
    refine .inr ⟨by rintro _ _ _ ⟨⟩, ?_⟩
    rw [serve, handle, hs, results_append, results_contextPack hls, List.append_nil]

/-- **One request keeps the results apart exactly when it sends none again.** -/
theorem recordedOnce_serve {d : Deployment} {s : AppState F} (h : RecordedOnce s) (r : Request F) :
    RecordedOnce (serve d s r) ↔ NoResend d s r := by
  unfold RecordedOnce at h ⊢
  rcases results_serve d s r with ⟨taskId, body, w, task, keyId, contentHash, p, rfl, hacc, hid,
    hlog⟩ | ⟨hrejected, hlog⟩
  · rw [hlog, List.map_append, List.map_singleton, hid, List.nodup_append]
    constructor
    · rintro ⟨-, -, hnew⟩ hmem
      exact absurd rfl (hnew _ hmem _ (List.mem_singleton_self _))
    · intro hno
      refine ⟨h, List.nodup_singleton _, fun i hi j hj hij => ?_⟩
      obtain rfl := List.mem_singleton.mp hj
      exact hno (hij ▸ hi) task keyId contentHash hacc
  · rw [hlog]
    refine iff_of_true h ?_
    cases r with
    | submit taskId body w => exact fun _ => hrejected taskId body w rfl
    | register _ _ | createMission _ _ | createTask _ _ _ | nextTask _ _ | getContext _ _ _ =>
      trivial

/-- What is rejected leaves the tasks as they are. -/
theorem tasks_of_rejected {d : Deployment} {s : AppState F} {taskId : Text}
    {body : SubmitTaskResultRequest F} {w : Attempt} (h : Rejected d s taskId body w) :
    (serve d s (.submit taskId body w)).tasks = s.tasks := by
  rw [serve, handle]
  rcases submit_cases d s taskId body w with ⟨task, keyId, contentHash, l, hacc, -⟩ |
    ⟨-, ⟨n, -, hs⟩, -⟩
  · exact absurd hacc (h task keyId contentHash)
  · rw [hs]

/-- A request that sends nothing again keeps the results of completed tasks. -/
theorem NoResend.keeps {d : Deployment} {s : AppState F} {r : Request F} (h : NoResend d s r) :
    KeepsResult d s r := by
  cases r with
  | submit taskId body w =>
    rintro ⟨p, hp, htask, -, hcontribution, -, -, hsig⟩ t hget -
    have hmem : body.identity taskId ∈ (results s.log).map TaskResult.identity :=
      List.mem_map.mpr ⟨p, hp, by
        rw [TaskResult.identity, htask, hcontribution, hsig]; rfl⟩
    exact ⟨t, by rw [tasks_of_rejected (h hmem), hget], rfl⟩
  | register _ _ | createMission _ _ | createTask _ _ _ | nextTask _ _ | getContext _ _ _ =>
    trivial

/-- **Results are recorded once, and what was sent before replaces no result, in exactly the
runs in which no submission that is in the log already passes the checks.** -/
theorem recordedOnce_along_iff (d : Deployment) (time : Text) (is : List (Request F)) :
    (Always (serve d) RecordedOnce (started F d time) is ∧
      Along (serve d) (KeepsResult d) (started F d time) is) ↔
    Along (serve d) (NoResend d) (started F d time) is := by
  have hstart : RecordedOnce (started F d time) := by
    have hnone := results_lines false (startedEvent F d time) rfl
    rw [RecordedOnce, started, hnone]
    exact List.nodup_nil
  have hiff : Always (serve d) RecordedOnce (started F d time) is ↔
      Along (serve d) (NoResend d) (started F d time) is :=
    always_iff_along (Q := fun _ => True) (C := NoResend d) (fun _ _ _ _ _ => trivial)
      (fun s r _ h => recordedOnce_serve h r) trivial hstart
  rw [hiff]
  exact ⟨And.left, fun h => ⟨h, along_mono (fun _ _ => NoResend.keeps) h⟩⟩

/-- **A result that is sent again is recorded again.** -/
theorem resend_recorded_twice : ¬ (Always (serve sampleDeployment) RecordedOnce
      (started FloatLit sampleDeployment sampleTimeText)
      (sampleSetup ++ [sampleSubmission, sampleSubmission]) ∧
    Along (serve sampleDeployment) (KeepsResult sampleDeployment)
      (started FloatLit sampleDeployment sampleTimeText)
      (sampleSetup ++ [sampleSubmission, sampleSubmission])) := by
  rintro ⟨h, -⟩
  have hlog : (results (run (serve sampleDeployment)
      (started FloatLit sampleDeployment sampleTimeText)
      (sampleSetup ++ [sampleSubmission, sampleSubmission])).log).map TaskResult.identity =
    [(sampleUlids.next 4, sampleSkill, sampleSkill), (sampleUlids.next 4, sampleSkill, sampleSkill)] := by
    decide +kernel
  have honce := h _ (List.prefix_refl _)
  rw [RecordedOnce, hlog] at honce
  exact absurd honce (by decide)

end Mesh

end Daryl
