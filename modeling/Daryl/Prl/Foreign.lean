import Daryl.Prl.Replay

/-!
# Records of other runs in a projection

A projection is of the records of one run.  The others are left out, each with a diagnostic
that names it.  The name is the first of five id-like attributes that is set, and the task
comes before the work and the decision: a receipt about a task is named by the task.

## Main definitions

* `foreignRecords`, `foreignNamed` — the records left out, and what names them.
* `ForeignExcluded` — they are named one by one, and the rest is as without them.
* `SwarmRecord.GoesByOwnId` — the condition on a record.

## Main results

* `recordId_eq_ownId_iff` — which records go by their own id.
* `projectRun_inRun` — **all but the diagnostics is as without the other runs.**
* `foreignExcluded_iff` — **the records of other runs are named iff they go by their own ids.**
-/

namespace Daryl

open Py

/-- The records of other runs. -/
def foreignRecords (runId : PyStr) (records : List SwarmRecord) : List SwarmRecord :=
  records.filter fun r => r.swarmRunId ≠ runId

/-- The diagnostic that names a record by its own id. -/
def foreignNamed (r : SwarmRecord) : Diagnostic := ⟨.crossRunRecord, [r.ownId, r.swarmRunId]⟩

/-- The records of other runs are named one by one, and the rest of the projection is that of
the records without them. -/
structure ForeignExcluded (records : List SwarmRecord) (swarmRunId : PyStr) : Prop where
  named : (projectRun records swarmRunId).diagnostics.filter (fun d => d.kind = .crossRunRecord) =
    (foreignRecords (runIdOf swarmRunId records) records).map foreignNamed
  rest : { projectRun records swarmRunId with
      diagnostics := (projectRun records swarmRunId).diagnostics.filter fun d =>
        d.kind ≠ .crossRunRecord } =
    projectRun (inRun (runIdOf swarmRunId records) records) swarmRunId

/-! ### The name of a record -/

namespace SwarmRecord

/-- The task that a receipt is about. -/
def declaredTask : SwarmRecord → Option PyStr
  | work w => w.taskNodeId
  | decision d => d.taskNodeId
  | _ => none

/-- The record has an id, and no other before it. -/
def GoesByOwnId (r : SwarmRecord) : Prop :=
  (∀ t ∈ r.declaredTask, t ≠ [] → t = r.ownId) ∧ (r.ownId = [] → r.swarmRunId = [])

end SwarmRecord

/-- An id that stands alone is the one found, unless it is empty. -/
theorem find_own (own run : PyStr) :
    ([own].find? fun value => value ≠ []).getD run = own ↔ (own = [] → run = []) := by
  by_cases hown : own = []
  · simp [hown]
  · simp [hown]

/-- A task that stands before it is the one found, unless that is empty. -/
theorem find_task (t own run : PyStr) :
    ([t, own].find? fun value => value ≠ []).getD run = own ↔
      (t ≠ [] → t = own) ∧ (own = [] → run = []) := by
  by_cases ht : t = []
  · rw [← find_own own run, List.find?_cons_of_neg (by simpa using ht)]
    simp [ht]
  · rw [List.find?_cons_of_pos (by simpa using ht), Option.getD_some]
    constructor
    · rintro rfl
      exact ⟨fun _ => rfl, fun h => absurd h ht⟩
    · exact fun h => h.1 ht

/-- What is found of a receipt that may have a task. -/
theorem find_receipt (task : Option PyStr) (own run : PyStr) :
    (([task, some own].filterMap id).find? fun value => value ≠ []).getD run = own ↔
      (∀ t ∈ task, t ≠ [] → t = own) ∧ (own = [] → run = []) := by
  cases task with
  | none =>
    refine (find_own own run).trans ⟨fun h => ⟨?_, h⟩, And.right⟩
    intro t ht
    cases ht
  | some t =>
    refine (find_task t own run).trans (and_congr_left' ⟨fun h s hs => ?_, fun h => h t rfl⟩)
    rwa [← Option.some.inj hs]

/-- **A record goes by its own id** if it has one, and no other task before it. -/
theorem recordId_eq_ownId_iff (r : SwarmRecord) : recordId r = r.ownId ↔ r.GoesByOwnId := by
  have halone : ∀ own run : PyStr, ([own].find? fun value => value ≠ []).getD run = own ↔
      (∀ t ∈ (none : Option PyStr), t ≠ [] → t = own) ∧ (own = [] → run = []) := by
    intro own run
    refine (find_own own run).trans ⟨fun h => ⟨?_, h⟩, And.right⟩
    intro t ht
    cases ht
  cases r with
  | run r => exact iff_of_true rfl ⟨nofun, id⟩
  | task t => exact halone t.taskNodeId t.swarmRunId
  | work w => exact find_receipt w.taskNodeId w.workId w.swarmRunId
  | review v => exact halone v.reviewId v.swarmRunId
  | decision d => exact find_receipt d.taskNodeId d.decisionId d.swarmRunId
  | conflict c => exact halone c.conflictId c.swarmRunId

/-! ### The other diagnostics -/

theorem kind_of_declared {kindOf : PyStr → Option SwarmKind} {r : DecisionReceipt} {d : Diagnostic}
    (h : declared kindOf r = .ignored d) : d.kind ≠ .crossRunRecord := by
  unfold declared at h
  split at h
  · cases h
  · split_ifs at h
    · cases h
      exact nofun
    · split at h
      · cases h
        exact nofun
      · split_ifs at h
        cases h
        exact nofun

theorem kind_of_cycleDiagnostics {targets : List (PyStr × PyStr)} {d : Diagnostic}
    (hd : d ∈ cycleDiagnostics targets) : d.kind ≠ .crossRunRecord := by
  have hfold : ∀ (starts : List PyStr) (acc : List PyStr × List Diagnostic),
      (∀ e ∈ acc.2, e.kind ≠ .crossRunRecord) →
      ∀ e ∈ (starts.foldl (fun (acc : List PyStr × List Diagnostic) start =>
        let members := sortedIds (cycleOf targets start)
        (acc.1 ++ members,
          if members.all (· ∈ acc.1) then acc.2 else acc.2 ++ [⟨.supersessionCycle, members⟩]))
        acc).2, e.kind ≠ .crossRunRecord := by
    intro starts
    induction starts with
    | nil => exact fun acc h => h
    | cons start starts ih =>
      intro acc h
      rw [List.foldl_cons]
      refine ih _ fun e he => ?_
      dsimp only at he
      split_ifs at he
      · exact h e he
      · rcases List.mem_append.mp he with he | he
        · exact h e he
        · rw [List.mem_singleton.mp he]
          exact nofun
  refine hfold _ _ (fun e he => ?_) d hd
  cases he

/-- The decisions speak of no other run. -/
theorem kind_of_decisions {kindOf : PyStr → Option SwarmKind} {decisions : List DecisionReceipt}
    {d : Diagnostic} (hd : d ∈ (deriveDecisionStandings kindOf decisions).2) :
    d.kind ≠ .crossRunRecord := by
  rcases List.mem_append.mp hd with hd | hd
  · rcases List.mem_append.mp hd with hd | hd
    · obtain ⟨r, -, hr⟩ := List.mem_filterMap.mp hd
      cases hdecl : declared kindOf r with
      | ignored diag =>
        rw [hdecl] at hr
        exact kind_of_declared (Option.some.inj hr ▸ hdecl)
      | nothing =>
        rw [hdecl] at hr
        cases hr
      | edge target =>
        rw [hdecl] at hr
        cases hr
    · exact kind_of_cycleDiagnostics hd
  · obtain ⟨line, -, hline⟩ := List.mem_filterMap.mp hd
    dsimp only at hline
    split_ifs at hline
    obtain rfl := Option.some.inj hline
    rintro ⟨⟩

/-- Nor does what comes after them. -/
theorem kind_of_later {runId : PyStr} {rs : List SwarmRecord}
    {decisions : List (PyStr × DecisionStanding)} {d : Diagnostic}
    (hd : d ∈ laterDiagnostics runId rs decisions) : d.kind ≠ .crossRunRecord := by
  have hguard : ∀ {p : Prop} [Decidable p] {kind : DiagnosticKind} {refs : List PyStr},
      kind ≠ .crossRunRecord →
      ((if p then none else some ⟨kind, refs⟩) = some d → d.kind ≠ .crossRunRecord) ∧
      ((if p then some ⟨kind, refs⟩ else none) = some d → d.kind ≠ .crossRunRecord) := by
    intro p _ kind refs hkind
    constructor <;> intro h <;> split_ifs at h <;> exact Option.some.inj h ▸ hkind
  unfold laterDiagnostics at hd
  simp only [List.mem_append, List.mem_filterMap, List.mem_map] at hd
  rcases hd with ((((⟨v, -, h⟩ | ⟨ref, -, h⟩) | ⟨w, -, h⟩) | ⟨r, -, h⟩) | ⟨cid, -, h⟩) | ⟨p, -, rfl⟩
  · exact (hguard (by decide)).1 h
  · exact (hguard (by decide)).2 h
  · exact (hguard (by decide)).1 h
  · exact (hguard (by decide)).1 h
  · obtain ⟨c, -, hc⟩ := Option.bind_eq_some_iff.mp h
    exact (hguard (by decide)).1 hc
  · rintro ⟨⟩

/-! ### The projection without them -/

theorem inRun_inRun (runId : PyStr) (records : List SwarmRecord) :
    inRun runId (inRun runId records) = inRun runId records := by
  rw [inRun, inRun, List.filter_filter]
  simp

/-- The latest run is the latest of the records of its run. -/
theorem getLast_run_inRun {records : List SwarmRecord} {r : SwarmRun}
    (h : (records.filterMap SwarmRecord.run?).getLast? = some r) :
    ((inRun r.swarmRunId records).filterMap SwarmRecord.run?).getLast? = some r := by
  rw [List.getLast?_filterMap] at h ⊢
  obtain ⟨before, a, after, hsplit, ha, hbefore⟩ := List.findSome?_eq_some_iff.mp h
  have hrun : a.swarmRunId = r.swarmRunId := by
    cases a with
    | run s => rw [← Option.some.inj ha]; rfl
    | task s => cases ha
    | work s => cases ha
    | review s => cases ha
    | decision s => cases ha
    | conflict s => cases ha
  rw [inRun, ← List.filter_reverse, hsplit, List.filter_append,
    List.filter_cons_of_pos (by simpa using hrun)]
  exact List.findSome?_eq_some_iff.mpr
    ⟨_, a, _, rfl, ha, fun x hx => hbefore x (List.mem_of_mem_filter hx)⟩

/-- **The run that is inferred is inferred of its own records.** -/
theorem inferRunId_inRun (records : List SwarmRecord) :
    inferRunId (inRun (inferRunId records) records) = inferRunId records := by
  cases hlast : (records.filterMap SwarmRecord.run?).getLast? with
  | some r =>
    have hid : inferRunId records = r.swarmRunId := by rw [inferRunId, hlast]
    rw [hid, inferRunId, getLast_run_inRun hlast]
  | none =>
    -- without a run it is the first id that is not empty
    have hnone : ∀ rs ⊆ records, inferRunId rs =
        ((rs.map SwarmRecord.swarmRunId).find? fun i => i ≠ []).getD [] := by
      intro rs hrs
      have hnil : rs.filterMap SwarmRecord.run? = [] :=
        List.filterMap_eq_nil_iff.mpr fun r hr =>
          List.filterMap_eq_nil_iff.mp (List.getLast?_eq_none_iff.mp hlast) r (hrs hr)
      rw [inferRunId, hnil]
      rfl
    have hsub : inRun (inferRunId records) records ⊆ records := fun r hr => List.mem_of_mem_filter hr
    rw [hnone _ hsub, hnone records (List.Subset.refl _)]
    cases hfind : (records.map SwarmRecord.swarmRunId).find? fun i => i ≠ [] with
    | none =>
      rw [List.find?_eq_none] at hfind
      have hempty : ((inRun (Option.getD none []) records).map SwarmRecord.swarmRunId).find?
          (fun i => i ≠ []) = none := by
        refine List.find?_eq_none.mpr fun i hi => hfind i ?_
        obtain ⟨r, hr, rfl⟩ := List.mem_map.mp hi
        exact List.mem_map_of_mem (List.mem_of_mem_filter hr)
      rw [hempty]
    | some i =>
      have hi : i ≠ [] := by simpa using List.find?_some hfind
      obtain ⟨r, hr, hri⟩ := List.mem_map.mp (List.mem_of_find?_eq_some hfind)
      have hmem : r ∈ inRun i records := List.mem_filter.mpr ⟨hr, by simpa using hri⟩
      rw [Option.getD_some]
      cases hrs : inRun i records with
      | nil =>
        rw [hrs] at hmem
        cases hmem
      | cons a as =>
        have ha : a.swarmRunId = i := by
          have hmem : a ∈ inRun i records := hrs ▸ List.mem_cons_self
          simpa using (List.mem_filter.mp hmem).2
        rw [List.map_cons, ha, List.find?_cons_of_pos (by simpa using hi), Option.getD_some]

theorem runIdOf_inRun (swarmRunId : PyStr) (records : List SwarmRecord) :
    runIdOf swarmRunId (inRun (runIdOf swarmRunId records) records) =
      runIdOf swarmRunId records := by
  unfold runIdOf
  split_ifs with hpin
  · exact inferRunId_inRun records
  · rfl

/-- **All but the diagnostics is as without the other runs**, and the diagnostics that name
these come before the others. -/
theorem projectRun_inRun (records : List SwarmRecord) (swarmRunId : PyStr) :
    projectRun records swarmRunId =
      let kept := projectRun (inRun (runIdOf swarmRunId records) records) swarmRunId
      { kept with
        diagnostics := ((foreignRecords (runIdOf swarmRunId records) records).map fun r =>
          ⟨.crossRunRecord, [recordId r, r.swarmRunId]⟩) ++ kept.diagnostics } := by
  have hnone : (inRun (runIdOf swarmRunId records) records).filter
      (fun r => r.swarmRunId ≠ runIdOf swarmRunId records) = [] := by
    refine List.filter_eq_nil_iff.mpr fun r hr => ?_
    simpa [inRun] using (List.mem_filter.mp hr).2
  have hcross : ∀ rs : List SwarmRecord, (rs.map fun r =>
      (⟨.crossRunRecord, [recordId r, r.swarmRunId]⟩ : Diagnostic)).filter
        (fun d => d.kind ∈ derivedConflictKinds) = [] := by
    intro rs
    refine List.filter_eq_nil_iff.mpr fun d hd => ?_
    obtain ⟨r, -, rfl⟩ := List.mem_map.mp hd
    simp [derivedConflictKinds]
  unfold projectRun
  simp only [runIdOf_inRun, inRun_inRun, hnone, List.map_nil, List.nil_append, List.filter_append,
    hcross, List.append_assoc, foreignRecords]

/-- The other diagnostics name no record of another run. -/
theorem kind_of_kept {records : List SwarmRecord} {swarmRunId : PyStr} {d : Diagnostic}
    (hd : d ∈ (projectRun (inRun (runIdOf swarmRunId records) records) swarmRunId).diagnostics) :
    d.kind ≠ .crossRunRecord := by
  unfold projectRun at hd
  simp only [runIdOf_inRun, inRun_inRun] at hd
  rcases List.mem_append.mp hd with hd | hd
  · rcases List.mem_append.mp hd with hd | hd
    · obtain ⟨r, hr, -⟩ := List.mem_map.mp hd
      obtain ⟨hr, hforeign⟩ := List.mem_filter.mp hr
      have hown : r.swarmRunId = runIdOf swarmRunId records := by
        simpa using (List.mem_filter.mp hr).2
      simp [hown] at hforeign
    · exact kind_of_decisions hd
  · exact kind_of_later hd

/-- **The records of other runs are named, and nothing else speaks of them, iff each goes by
its own id.** -/
theorem foreignExcluded_iff (records : List SwarmRecord) (swarmRunId : PyStr) :
    ForeignExcluded records swarmRunId ↔
      ∀ r ∈ foreignRecords (runIdOf swarmRunId records) records, r.GoesByOwnId := by
  have hkept : ∀ d ∈ (projectRun (inRun (runIdOf swarmRunId records) records)
      swarmRunId).diagnostics, d.kind ≠ .crossRunRecord := fun d hd => kind_of_kept hd
  set kept := projectRun (inRun (runIdOf swarmRunId records) records) swarmRunId with hdef
  set foreign := foreignRecords (runIdOf swarmRunId records) records with hforeign
  have hproj : projectRun records swarmRunId = { kept with
      diagnostics := (foreign.map fun r => ⟨.crossRunRecord, [recordId r, r.swarmRunId]⟩) ++
        kept.diagnostics } := projectRun_inRun records swarmRunId
  have hnamed : (projectRun records swarmRunId).diagnostics.filter
      (fun d => d.kind = .crossRunRecord) =
        foreign.map fun r => ⟨.crossRunRecord, [recordId r, r.swarmRunId]⟩ := by
    have hnone : kept.diagnostics.filter (fun d => d.kind = .crossRunRecord) = [] :=
      List.filter_eq_nil_iff.mpr fun d hd => by simpa using hkept d hd
    rw [hproj, List.filter_append, hnone, List.append_nil, List.filter_map]
    simp [Function.comp_def]
  have hrest : (projectRun records swarmRunId).diagnostics.filter
      (fun d => d.kind ≠ .crossRunRecord) = kept.diagnostics := by
    have hnone : (foreign.map fun r =>
        (⟨.crossRunRecord, [recordId r, r.swarmRunId]⟩ : Diagnostic)).filter
          (fun d => d.kind ≠ .crossRunRecord) = [] := by
      refine List.filter_eq_nil_iff.mpr fun d hd => ?_
      obtain ⟨r, -, rfl⟩ := List.mem_map.mp hd
      simp
    rw [hproj, List.filter_append, hnone, List.nil_append]
    exact List.filter_eq_self.mpr fun d hd => by simpa using hkept d hd
  constructor
  · intro h r hr
    rw [← recordId_eq_ownId_iff]
    have hmap := hnamed.symm.trans h.named
    have hr' := List.map_inj_left.mp hmap r hr
    simpa [foreignNamed] using hr'
  · intro h
    refine ⟨?_, ?_⟩
    · rw [hnamed]
      refine List.map_congr_left fun r hr => ?_
      rw [foreignNamed, (recordId_eq_ownId_iff r).mpr (h r hr)]
    · rw [hrest, hproj]

/-- A receipt of another run that is about a task is named by the task. -/
theorem foreign_work_misnamed : ¬ ForeignExcluded
    [.work ⟨py "w", py "other", some (py "t"), [], [], []⟩] (py "run") := by
  intro h
  exact absurd h.named (by decide)

end Daryl
