import Daryl.Prl.Supersession

/-!
# The interleaving of the records of a run

Records of different ids are appended by different parties, in no order that is
meant.  All that a projection derives from the records of one id depends on their own
order, and what relates records of different ids asks only which there are: with the
exception of the targets that the cycle detection keeps, which depend on the order in
which targets are first declared.

## Main definitions

* `Interleaved` — the same records, those of one id in the same order.
* `SameProjection` — the readings of two projections are the same.
* `CyclesAgree` — the cycle detection withholds the same supersessions.

## Main results

* `interleaved_project_iff` — **two interleavings project to the same readings iff their
  cycle detections agree.**
-/

namespace Daryl

open Py Relation

/-- **The same records, in an order that differs only between records of different ids.** -/
structure Interleaved (l l' : List SwarmRecord) : Prop where
  perm : l.Perm l'
  order : ∀ id, (l.filter fun r => r.ownId = id) = l'.filter fun r => r.ownId = id

/-- Views of a task that differ in the order of ids. -/
structure SameView (v v' : TaskView) : Prop where
  taskNodeId : v.taskNodeId = v'.taskNodeId
  status : v.status = v'.status
  statusHistory : v.statusHistory = v'.statusHistory
  parentTaskNodeId : v.parentTaskNodeId = v'.parentTaskNodeId
  workIds : v.workIds.Perm v'.workIds
  reviewIds : v.reviewIds.Perm v'.reviewIds
  decisionIds : v.decisionIds.Perm v'.decisionIds
  workState : v.workState = v'.workState
  reviewSignal : v.reviewSignal = v'.reviewSignal
  limitations : v.limitations.Perm v'.limitations

/-- **Projections of one run that differ in the order of ids.** -/
structure SameProjection (p p' : RunProjection) : Prop where
  swarmRunId : p.swarmRunId = p'.swarmRunId
  tasks : ∀ id, Option.Rel SameView (Dict.get id p.tasks) (Dict.get id p'.tasks)
  works : ∀ id, Dict.get id p.works = Dict.get id p'.works
  reviews : ∀ id, Dict.get id p.reviews = Dict.get id p'.reviews
  decisions : ∀ id, Dict.get id p.decisions = Dict.get id p'.decisions
  explicitConflicts : ∀ id, Dict.get id p.explicitConflicts = Dict.get id p'.explicitConflicts
  checkCoverage : ∀ id, Dict.get id p.checkCoverage = Dict.get id p'.checkCoverage

/-- One of two decisions lies on a cycle of kept targets. -/
def OnKeptCycle (edges : List (PyStr × PyStr)) (c d : PyStr) : Prop :=
  TransGen (LastTarget edges) c c ∨ TransGen (LastTarget edges) d d

/-- **Wherever one decision alone supersedes another, both orders of the edges withhold
it or neither does.** -/
def CyclesAgree (edges edges' : List (PyStr × PyStr)) : Prop :=
  ∀ d c, Supersedes edges c d → (∀ c', Supersedes edges c' d → c' = c) →
    (OnKeptCycle edges c d ↔ OnKeptCycle edges' c d)

/-! ### Records of one id -/

/-- The records of the run interleave as all do. -/
theorem Interleaved.inRun {l l' : List SwarmRecord} (h : Interleaved l l') (runId : PyStr) :
    Interleaved (inRun runId l) (inRun runId l') := by
  refine ⟨h.perm.filter _, ?_⟩
  intro id
  rw [Daryl.inRun, Daryl.inRun, List.filter_comm, h.order, List.filter_comm]

/-- The records of a kind with an id are read off the records with that id. -/
theorem filter_filterMap {R : Type} {f : SwarmRecord → Option R} {key : R → PyStr}
    (hkey : ∀ r x, f r = some x → key x = r.ownId) (rs : List SwarmRecord) (id : PyStr) :
    (rs.filterMap f).filter (fun x => key x = id)
      = (rs.filter fun r => r.ownId = id).filterMap f := by
  induction rs with
  | nil => rfl
  | cons r rs ih =>
    cases hf : f r with
    | none =>
      by_cases hid : r.ownId = id
      · simp [hf, hid, ih]
      · simp [hf, hid, ih]
    | some x =>
      have hx := hkey r x hf
      by_cases hid : r.ownId = id
      · simp [hf, hid, hx, ih]
      · simp [hf, hid, hx, ih]

theorem SwarmRecord.taskNodeId_of_task? (r : SwarmRecord) (x : TaskNode)
    (h : r.task? = some x) : x.taskNodeId = r.ownId := by
  cases r <;> cases h
  rfl

theorem SwarmRecord.workId_of_work? (r : SwarmRecord) (x : WorkReceipt)
    (h : r.work? = some x) : x.workId = r.ownId := by
  cases r <;> cases h
  rfl

theorem SwarmRecord.reviewId_of_review? (r : SwarmRecord) (x : ReviewReceipt)
    (h : r.review? = some x) : x.reviewId = r.ownId := by
  cases r <;> cases h
  rfl

theorem SwarmRecord.decisionId_of_decision? (r : SwarmRecord) (x : DecisionReceipt)
    (h : r.decision? = some x) : x.decisionId = r.ownId := by
  cases r <;> cases h
  rfl

theorem SwarmRecord.conflictId_of_conflict? (r : SwarmRecord) (x : ConflictRecord)
    (h : r.conflict? = some x) : x.conflictId = r.ownId := by
  cases r <;> cases h
  rfl

namespace Interleaved

variable {rs rs' : List SwarmRecord} {runId : PyStr} (h : Interleaved rs rs')
include h

/-- The records of one kind and id stand in the same order. -/
theorem filter_eq {R : Type} {f : SwarmRecord → Option R} {key : R → PyStr}
    (hkey : ∀ r x, f r = some x → key x = r.ownId) (id : PyStr) :
    (rs.filterMap f).filter (fun x => key x = id)
      = (rs'.filterMap f).filter fun x => key x = id := by
  rw [filter_filterMap hkey, filter_filterMap hkey, h.order id]

/-- The latest record of an id is the same. -/
theorem latest_eq {R : Type} {f : SwarmRecord → Option R} {key : R → PyStr}
    (hkey : ∀ r x, f r = some x → key x = r.ownId) (id : PyStr) :
    Dict.get id (Dict.latest key (rs.filterMap f))
      = Dict.get id (Dict.latest key (rs'.filterMap f)) := by
  rw [Dict.get_latest, Dict.get_latest, h.filter_eq hkey]

/-- The latest records are the same. -/
theorem latest_perm {R : Type} {f : SwarmRecord → Option R} {key : R → PyStr}
    (hkey : ∀ r x, f r = some x → key x = r.ownId) :
    (Dict.latest key (rs.filterMap f)).Perm (Dict.latest key (rs'.filterMap f)) :=
  Dict.perm_of_get (Dict.nodup_keys_latest _ _) (Dict.nodup_keys_latest _ _) (h.latest_eq hkey)

theorem taskNodes_eq (id : PyStr) : Dict.get id (taskNodes rs) = Dict.get id (taskNodes rs') :=
  h.latest_eq SwarmRecord.taskNodeId_of_task? id

theorem latestWorks_eq (id : PyStr) :
    Dict.get id (latestWorks rs) = Dict.get id (latestWorks rs') :=
  h.latest_eq SwarmRecord.workId_of_work? id

theorem latestReviews_eq (id : PyStr) :
    Dict.get id (latestReviews rs) = Dict.get id (latestReviews rs') :=
  h.latest_eq SwarmRecord.reviewId_of_review? id

theorem latestConflicts_eq (id : PyStr) :
    Dict.get id (latestConflicts rs) = Dict.get id (latestConflicts rs') :=
  h.latest_eq SwarmRecord.conflictId_of_conflict? id

theorem latestDecisions_eq (id : PyStr) :
    Dict.get id (Dict.latest DecisionReceipt.decisionId (decisionRecords rs))
      = Dict.get id (Dict.latest DecisionReceipt.decisionId (decisionRecords rs')) :=
  h.latest_eq SwarmRecord.decisionId_of_decision? id

theorem history_eq (id : PyStr) :
    ((decisionRecords rs).filter fun d => d.decisionId = id)
      = (decisionRecords rs').filter fun d => d.decisionId = id :=
  h.filter_eq SwarmRecord.decisionId_of_decision? id

theorem decisionRecords_perm : (decisionRecords rs).Perm (decisionRecords rs') :=
  h.perm.filterMap _

/-! ### What relates records of different ids -/

/-- The ids known are known by the same kinds. -/
theorem kindOf_eq : kindOf runId rs = kindOf runId rs' := by
  have hkeys : ∀ {V : Type} {d d' : List (PyStr × V)}, (∀ k, Dict.get k d = Dict.get k d') →
      ∀ k, k ∈ Dict.keys d ↔ k ∈ Dict.keys d' := by
    intro V d d' hget k
    rw [← Dict.get_isSome, ← Dict.get_isSome, hget]
  have hdec := fun k => (h.decisionRecords_perm.map DecisionReceipt.decisionId).mem_iff (a := k)
  funext id
  -- the kinds are set one after the other: the last set first
  apply Dict.get_setAll_congr _ (hkeys h.latestConflicts_eq id)
  apply Dict.get_setAll_congr _ (hdec id)
  apply Dict.get_setAll_congr _ (hkeys h.latestReviews_eq id)
  apply Dict.get_setAll_congr _ (hkeys h.latestWorks_eq id)
  apply Dict.get_setAll_congr _ (hkeys h.taskNodes_eq id)
  rfl

theorem taskOf_eq (refTask : Option PyStr) : taskOf rs refTask = taskOf rs' refTask := by
  have hmem : ∀ t, t ∈ Dict.keys (taskNodes rs) ↔ t ∈ Dict.keys (taskNodes rs') := by
    intro t
    rw [← Dict.get_isSome, ← Dict.get_isSome, h.taskNodes_eq]
  unfold taskOf
  simp only [hmem]

theorem worksByTask_perm (tid : PyStr) : (worksByTask rs tid).Perm (worksByTask rs' tid) := by
  unfold worksByTask
  simp only [h.taskOf_eq]
  exact ((h.latest_perm SwarmRecord.workId_of_work?).filter _).map _

theorem reviewTask_eq (review : ReviewReceipt) :
    reviewTask runId rs review = reviewTask runId rs' review := by
  unfold reviewTask
  rw [h.kindOf_eq, h.latestWorks_eq]
  simp only [h.taskOf_eq]

theorem reviewsByTask_perm (runId tid : PyStr) :
    (reviewsByTask runId rs tid).Perm (reviewsByTask runId rs' tid) := by
  unfold reviewsByTask
  simp only [h.reviewTask_eq]
  exact (((h.latest_perm SwarmRecord.reviewId_of_review?).map _).filter _).map _

theorem decisionsByTask_perm (tid : PyStr) :
    ((Dict.get tid (decisionsByTask rs)).getD []).Perm
      ((Dict.get tid (decisionsByTask rs')).getD []) := by
  have hpairs : ((decisionRecords rs).filterMap fun d =>
      (taskOf rs d.taskNodeId).map fun t => (t, d.decisionId)).Perm
      ((decisionRecords rs').filterMap fun d =>
        (taskOf rs' d.taskNodeId).map fun t => (t, d.decisionId)) := by
    simp only [h.taskOf_eq]
    exact h.decisionRecords_perm.filterMap _
  obtain ⟨hnodup, hmem⟩ := Dict.collect_spec ((decisionRecords rs).filterMap fun d =>
    (taskOf rs d.taskNodeId).map fun t => (t, d.decisionId)) tid
  obtain ⟨hnodup', hmem'⟩ := Dict.collect_spec ((decisionRecords rs').filterMap fun d =>
    (taskOf rs' d.taskNodeId).map fun t => (t, d.decisionId)) tid
  apply (List.perm_ext_iff_of_nodup hnodup hnodup').mpr
  intro id
  rw [hmem, hmem', hpairs.mem_iff]

/-! ### Views of tasks -/

omit h in
/-- The signal of reviews does not depend on their order. -/
theorem reviewSignal_perm {vs vs' : List (Option ReviewVerdict)} (hperm : vs.Perm vs') :
    reviewSignal vs = reviewSignal vs' := by
  have hnil : vs = [] ↔ vs' = [] := by
    constructor
    · rintro rfl
      exact hperm.symm.eq_nil
    · rintro rfl
      exact hperm.eq_nil
  unfold reviewSignal
  by_cases hvs : vs = []
  · rw [if_pos hvs, if_pos (hnil.mp hvs)]
  · rw [if_neg hvs, if_neg fun h' => hvs (hnil.mpr h'), hperm.any_eq, hperm.any_eq]

/-- **The view of a task is the same.** -/
theorem taskView_same (tid : PyStr) (node : TaskNode) :
    SameView (taskView runId rs tid node) (taskView runId rs' tid node) := by
  have hhistory := h.filter_eq SwarmRecord.taskNodeId_of_task? tid
  have hwids := h.worksByTask_perm tid
  have hrids := h.reviewsByTask_perm runId tid
  have hworks : ((worksByTask rs tid).filterMap fun wid => Dict.get wid (latestWorks rs)).Perm
      ((worksByTask rs' tid).filterMap fun wid => Dict.get wid (latestWorks rs')) := by
    simp only [h.latestWorks_eq]
    exact hwids.filterMap _
  have hreviews :
      ((reviewsByTask runId rs tid).filterMap fun rid => Dict.get rid (latestReviews rs)).Perm
        ((reviewsByTask runId rs' tid).filterMap fun rid => Dict.get rid (latestReviews rs')) := by
    simp only [h.latestReviews_eq]
    exact hrids.filterMap _
  refine ⟨rfl, ?_, ?_, rfl, hwids, hrids, h.decisionsByTask_perm tid, ?_, ?_, ?_⟩
  · simp only [taskView, hhistory]
  · simp only [taskView, hhistory]
  · have hw : worksByTask rs tid = [] ↔ worksByTask rs' tid = [] := by
      rw [← List.length_eq_zero_iff, ← List.length_eq_zero_iff, hwids.length_eq]
    have hr : reviewsByTask runId rs tid = [] ↔ reviewsByTask runId rs' tid = [] := by
      rw [← List.length_eq_zero_iff, ← List.length_eq_zero_iff, hrids.length_eq]
    simp only [taskView, hw, hr]
  · exact reviewSignal_perm (hreviews.map _)
  · exact (hworks.flatMap_right _).append (hreviews.flatMap_right _)

/-! ### Standings of decisions -/

/-- The valid edges are the same. -/
theorem supersedes_congr (runId s t : PyStr) :
    Supersedes (edgesOf runId rs) s t ↔ Supersedes (edgesOf runId rs') s t := by
  rw [edgesOf, edgesOf, supersedes_iff, supersedes_iff, h.kindOf_eq]
  simp only [h.decisionRecords_perm.mem_iff]

end Interleaved

/-- A target that is superseded is a decision of the run. -/
theorem exists_line_of_supersedes {runId : PyStr} {rs : List SwarmRecord} {s t : PyStr}
    (h : Supersedes (edgesOf runId rs) s t) :
    ∃ last, Dict.get t (Dict.latest DecisionReceipt.decisionId (decisionRecords rs))
      = some last := by
  obtain ⟨-, hkind, -⟩ := supersedes_iff.mp h
  have hmem : t ∈ (decisionRecords rs).map DecisionReceipt.decisionId := by
    have hset := Dict.get_of_get_setAll hkind (by decide)
    rw [Dict.get_setAll] at hset
    by_contra hout
    rw [if_neg hout] at hset
    -- no other kind is set to be a decision
    have hrun := Dict.get_of_get_setAll (Dict.get_of_get_setAll
      (Dict.get_of_get_setAll hset (by decide)) (by decide)) (by decide)
    have hitem := Dict.mem_of_get hrun
    cases List.mem_singleton.mp hitem
  obtain ⟨d, hd, rfl⟩ := List.mem_map.mp hmem
  have hline : d.decisionId ∈
      Dict.keys (Dict.latest DecisionReceipt.decisionId (decisionRecords rs)) :=
    Dict.mem_keys_latest.mpr ⟨d, hd, rfl⟩
  rw [← Dict.get_isSome] at hline
  exact Option.isSome_iff_exists.mp hline

/-- **Two readings of the same superseders differ only where a cycle is seen.** -/
theorem Reading.eq_iff {edges edges' : List (PyStr × PyStr)} {d : PyStr}
    (hedges : ∀ c, Supersedes edges c d ↔ Supersedes edges' c d) {by₁ by₂ : Option PyStr}
    {amb₁ amb₂ : Bool} (h₁ : Reading edges d by₁ amb₁) (h₂ : Reading edges' d by₂ amb₂) :
    by₁ = by₂ ∧ amb₁ = amb₂ ↔
      ∀ c, Supersedes edges c d → (∀ c', Supersedes edges c' d → c' = c) →
        (OnKeptCycle edges c d ↔ OnKeptCycle edges' c d) := by
  cases h₁ with
  | free hnone =>
    cases h₂ with
    | free _ => exact ⟨fun _ c hc => absurd hc (hnone c), fun _ => ⟨rfl, rfl⟩⟩
    | applied c hc => exact absurd ((hedges c).mpr hc) (hnone c)
    | cyclic c hc => exact absurd ((hedges c).mpr hc) (hnone c)
    | concurrent c _ _ hc => exact absurd ((hedges c).mpr hc) (hnone c)
  | applied c hc honly hcycle =>
    cases h₂ with
    | free hnone => exact absurd ((hedges c).mp hc) (hnone c)
    | applied c' hc' _ hcycle' =>
      obtain rfl := honly c' ((hedges c').mpr hc')
      refine ⟨fun _ x hx _ => ?_, fun _ => ⟨rfl, rfl⟩⟩
      obtain rfl := honly x hx
      exact iff_of_false hcycle hcycle'
    | cyclic c' hc' _ hcycle' =>
      obtain rfl := honly c' ((hedges c').mpr hc')
      constructor
      · rintro ⟨hby, -⟩
        cases hby
      · intro h
        exact absurd ((h c' hc honly).mpr hcycle') hcycle
    | concurrent c₁ c₂ hne hc₁ hc₂ =>
      exact absurd ((honly c₁ ((hedges c₁).mpr hc₁)).trans (honly c₂ ((hedges c₂).mpr hc₂)).symm)
        hne
  | cyclic c hc honly hcycle =>
    cases h₂ with
    | free hnone => exact absurd ((hedges c).mp hc) (hnone c)
    | applied c' hc' _ hcycle' =>
      obtain rfl := honly c' ((hedges c').mpr hc')
      constructor
      · rintro ⟨hby, -⟩
        cases hby
      · intro h
        exact absurd ((h c' hc honly).mp hcycle) hcycle'
    | cyclic c' hc' _ hcycle' =>
      obtain rfl := honly c' ((hedges c').mpr hc')
      refine ⟨fun _ x hx _ => ?_, fun _ => ⟨rfl, rfl⟩⟩
      obtain rfl := honly x hx
      exact iff_of_true hcycle hcycle'
    | concurrent c₁ c₂ hne hc₁ hc₂ =>
      exact absurd ((honly c₁ ((hedges c₁).mpr hc₁)).trans (honly c₂ ((hedges c₂).mpr hc₂)).symm)
        hne
  | concurrent c₁ c₂ hne hc₁ hc₂ =>
    -- no superseder is the only one, so no cycle matters
    have hmany : ∀ c, Supersedes edges c d → (∀ c', Supersedes edges c' d → c' = c) → False :=
      fun c _ honly => hne ((honly c₁ hc₁).trans (honly c₂ hc₂).symm)
    cases h₂ with
    | free hnone => exact absurd ((hedges c₁).mp hc₁) (hnone c₁)
    | applied c hc honly =>
      exact (hmany c ((hedges c).mpr hc) fun c' hc' => honly c' ((hedges c').mp hc')).elim
    | cyclic c hc honly =>
      exact (hmany c ((hedges c).mpr hc) fun c' hc' => honly c' ((hedges c').mp hc')).elim
    | concurrent => exact ⟨fun _ c hc honly => (hmany c hc honly).elim, fun _ => ⟨rfl, rfl⟩⟩

/-- The standing of a line agrees iff the cycle detections agree on its supersession. -/
theorem Interleaved.standingOfLine_iff {runId : PyStr} {rs rs' : List SwarmRecord}
    (h : Interleaved rs rs') (d : PyStr) (last : DecisionReceipt) :
    standingOfLine (Dict.collect (edgesOf runId rs)) (decisionRecords rs) d last
        = standingOfLine (Dict.collect (edgesOf runId rs')) (decisionRecords rs') d last ↔
      ∀ c, Supersedes (edgesOf runId rs) c d → (∀ c', Supersedes (edgesOf runId rs) c' d → c' = c) →
        (OnKeptCycle (edgesOf runId rs) c d ↔ OnKeptCycle (edgesOf runId rs') c d) := by
  have hread := Reading.eq_iff (fun c => h.supersedes_congr runId c d)
    (standingOfLine_reading (edgesOf runId rs) (decisionRecords rs) d last)
    (standingOfLine_reading (edgesOf runId rs') (decisionRecords rs') d last)
  rw [← hread]
  constructor
  · intro heq
    rw [heq]
    exact ⟨rfl, rfl⟩
  · rintro ⟨hby, hamb⟩
    apply DecisionStanding.ext
    · rfl
    · rfl
    · rfl
    · exact congrArg (List.map DecisionReceipt.status) (h.history_eq d)
    · exact hby
    · exact hamb

/-- **The standings agree iff the cycle detections do.** -/
theorem Interleaved.standings_iff {runId : PyStr} {rs rs' : List SwarmRecord}
    (h : Interleaved rs rs') :
    (∀ d, Dict.get d (decisionStandings runId rs) = Dict.get d (decisionStandings runId rs')) ↔
      CyclesAgree (edgesOf runId rs) (edgesOf runId rs') := by
  constructor
  · intro hall d c hc honly
    obtain ⟨last, hlast⟩ := exists_line_of_supersedes hc
    have hd := hall d
    rw [decisionStandings, decisionStandings, get_standings, get_standings,
      ← h.latestDecisions_eq, hlast] at hd
    exact (h.standingOfLine_iff d last).mp (Option.some.inj hd) c hc honly
  · intro hagree d
    rw [decisionStandings, decisionStandings, get_standings, get_standings,
      ← h.latestDecisions_eq]
    cases Dict.get d (Dict.latest DecisionReceipt.decisionId (decisionRecords rs)) with
    | none => rfl
    | some last => exact congrArg some ((h.standingOfLine_iff d last).mpr (hagree d))

/-! ### The projection -/

/-- **Two interleavings of records project to the same readings iff they are of the same
run and their cycle detections agree.** -/
theorem interleaved_project_iff {l l' : List SwarmRecord} (h : Interleaved l l')
    (swarmRunId : PyStr) :
    SameProjection (projectRun l swarmRunId) (projectRun l' swarmRunId) ↔
      runIdOf swarmRunId l = runIdOf swarmRunId l' ∧
        CyclesAgree (runEdges swarmRunId l) (runEdges swarmRunId l') := by
  have hrun := h.inRun (runIdOf swarmRunId l)
  constructor
  · intro hsame
    have hid : runIdOf swarmRunId l = runIdOf swarmRunId l' := hsame.swarmRunId
    refine ⟨hid, ?_⟩
    have hdec := hsame.decisions
    rw [runEdges, runEdges, ← hid]
    apply (hrun.standings_iff).mp
    intro d
    have hd := hdec d
    unfold projectRun at hd
    rw [← hid] at hd
    exact hd
  · rintro ⟨hid, hagree⟩
    rw [runEdges, runEdges, ← hid] at hagree
    unfold projectRun
    rw [← hid]
    refine ⟨rfl, ?_, hrun.latestWorks_eq, hrun.latestReviews_eq, hrun.standings_iff.mpr hagree,
      hrun.latestConflicts_eq, ?_⟩
    · intro tid
      dsimp only
      rw [Dict.get_map, Dict.get_map, hrun.taskNodes_eq]
      cases Dict.get tid (taskNodes (inRun (runIdOf swarmRunId l) l')) with
      | none => exact Option.Rel.none
      | some node => exact Option.Rel.some (hrun.taskView_same tid node)
    · intro wid
      dsimp only
      rw [Dict.get_map fun _ => coverage, Dict.get_map fun _ => coverage, hrun.latestWorks_eq]

/-- Adjacent records of different ids may be exchanged. -/
theorem Interleaved.swap (l m : List SwarmRecord) {a b : SwarmRecord} (h : a.ownId ≠ b.ownId) :
    Interleaved (l ++ a :: b :: m) (l ++ b :: a :: m) := by
  refine ⟨(List.Perm.swap b a m).append_left l, ?_⟩
  intro id
  rw [List.filter_append, List.filter_append]
  congr 1
  by_cases ha : a.ownId = id
  · have hb : b.ownId ≠ id := fun hb => h (ha.trans hb.symm)
    simp [ha, hb]
  · simp [List.filter_cons, ha]

theorem Interleaved.trans {l l' l'' : List SwarmRecord} (h : Interleaved l l')
    (h' : Interleaved l' l'') : Interleaved l l'' :=
  ⟨h.perm.trans h'.perm, fun id => (h.order id).trans (h'.order id)⟩

/-- Where nothing that is superseded supersedes, no decision lies on a cycle. -/
theorem not_onKeptCycle {edges : List (PyStr × PyStr)}
    (h : ∀ e ∈ edges, ∀ e' ∈ edges, e.1 ≠ e'.2) (c d : PyStr) : ¬OnKeptCycle edges c d := by
  have hkept {s t : PyStr} (hlast : LastTarget edges s t) : (t, s) ∈ edges := by
    have hmem := (List.mem_filter.mp (List.mem_of_getLast? hlast)).2
    exact of_decide_eq_true hmem
  have hloop (x : PyStr) : ¬TransGen (LastTarget edges) x x := by
    intro hx
    obtain ⟨t, hfirst, -⟩ := TransGen.head'_iff.mp hx
    obtain ⟨s, -, hlast⟩ := TransGen.tail'_iff.mp hx
    exact h _ (hkept hlast) _ (hkept hfirst) rfl
  exact not_or.mpr ⟨hloop c, hloop d⟩

/-- Two decisions, and two that supersede them, these in either order. -/
def twoSupersessions (first : Bool) : List SwarmRecord :=
  let own := decisionOn (py "c") (some (py "a"))
  let other := decisionOn (py "d") (some (py "b"))
  [decisionOn (py "a") none, decisionOn (py "b") none] ++
    if first then [own, other] else [other, own]

/-- They project to the same readings in both orders. -/
theorem interleaved_project_sample :
    SameProjection (projectRun (twoSupersessions true) (py "r"))
      (projectRun (twoSupersessions false) (py "r")) := by
  have hswap : Interleaved (twoSupersessions true) (twoSupersessions false) :=
    Interleaved.swap [decisionOn (py "a") none, decisionOn (py "b") none] [] (by decide)
  apply (interleaved_project_iff hswap (py "r")).mpr
  refine ⟨by decide, ?_⟩
  intro d c _ _
  have hfirst : runEdges (py "r") (twoSupersessions true)
      = [(py "a", py "c"), (py "b", py "d")] := by decide +kernel
  have hsecond : runEdges (py "r") (twoSupersessions false)
      = [(py "b", py "d"), (py "a", py "c")] := by decide +kernel
  rw [hfirst, hsecond]
  exact iff_of_false (not_onKeptCycle (by decide) c d) (not_onKeptCycle (by decide) c d)

/-- The decisions of a branching cycle, before and after that of another decision. -/
def crossingCycle (first : Bool) : List SwarmRecord :=
  let own := [decisionOn (py "a") (some (py "b")), decisionOn (py "a") (some (py "c"))]
  let other := [decisionOn (py "x") (some (py "c"))]
  decisionOn (py "c") none ::
    ((if first then own ++ other else other ++ own) ++ [decisionOn (py "b") (some (py "a"))])

/-- **Another decision that names a target first brings a cycle to light.** -/
theorem crossingCycle_differs :
    Interleaved (crossingCycle true) (crossingCycle false) ∧
      ¬SameProjection (projectRun (crossingCycle true) (py "r"))
        (projectRun (crossingCycle false) (py "r")) := by
  constructor
  · apply Interleaved.trans (Interleaved.swap
      [decisionOn (py "c") none, decisionOn (py "a") (some (py "b"))] _ (by decide))
    exact Interleaved.swap [decisionOn (py "c") none] _ (by decide)
  · intro hsame
    have hb := hsame.decisions (py "b")
    revert hb
    decide +kernel

end Daryl
