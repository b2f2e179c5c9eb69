import Daryl.Prl.Subject

/-!
# `prl.query.knowledge_object`: the discovery of the objects

The discovery walks the resolutions once and groups them by claim, resolves the consultations
once and groups them by subject, and summarizes each subject from the groups.  Each other query
walks the store again for every claim and every subject.

## Main definitions

* `standingIndex`, `StandingIndex.standingOf` — the grouped resolutions.
* `ObjectActs`, `recordAct` — what the walk over the records keeps of a subject.
* `discoverObjects` — the summaries.
* `subjectStandings`, `governanceOfSubject`, `project` — the queries for one subject.

## Main results

* `resolutionsOf_index` — a group holds the facts that a scan for its claim finds.
* `orgId_project` — the owner of the walk is the owner of the projection.
* `mem_resolveEntries_iff` — what the relay resolves is what the join finds.
* `discovery_agrees` — **each summary says what the queries for its subject say, and there is
  one for each subject.**
-/

namespace Daryl

open Py Json Model Records

namespace Projections

variable {F R : Type} [PyFloat F] (lib : Library F) (nav : RegistryProjection F R)

/-! ### The grouped resolutions -/

/-- The loop body of `StandingIndex`. -/
def indexResolution (byClaim : List (PyStr × List ResolutionFact)) (e : ProjectedEntry F) :
    Except CommitError (List (PyStr × List ResolutionFact)) :=
  match fromEntry lib e with
  | .error err => .error err
  | .ok (.resolution node) => .ok (Dict.push node.targetClaimId.val (fact e node) byClaim)
  | .ok _ => .ok byClaim

/-- `StandingIndex`. -/
def standingIndex : Except CommitError (List (PyStr × List ResolutionFact)) :=
  (joined nav (prlAction .resolution)).foldlM (indexResolution lib) []

/-- `StandingIndex.resolutions_of`. -/
def StandingIndex.resolutionsOf (byClaim : List (PyStr × List ResolutionFact)) (claimId : PyStr) :
    List ResolutionFact :=
  (Dict.get claimId byClaim).getD []

/-- `StandingIndex.standing_of`. -/
def StandingIndex.standingOf (byClaim : List (PyStr × List ResolutionFact)) (claimId : PyStr) :
    StandingView :=
  deriveStanding claimId (StandingIndex.resolutionsOf byClaim claimId)

/-! ### The queries for one subject -/

/-- `SubjectStandingsQuery.standings_of_subject`, which scans for each claim. -/
def subjectStandings (subjectId : PyStr) : Except CommitError SubjectStandingsView :=
  match consultations lib nav (some subjectId) none with
  | .error err => .error err
  | .ok consults => standingsOfSubject (standingOf lib nav) subjectId consults

/-- `GovernanceQuery.governance_of_subject`. -/
def governanceOfSubject (subjectId : PyStr) : Except CommitError SubjectGovernance :=
  (subjectStandings lib nav subjectId).map governanceFromView

/-! ### The view of one object -/

/-- `ClaimLine`. -/
structure ClaimLine where
  claimId : PyStr
  mode : ConsultationMode
  rawStanding : Standing
  governedStanding : Standing
  conflict : Bool
  answer : PyStr
  agentId : PyStr
  carrier : PyStr

/-- `DiscussionItem`. -/
structure DiscussionItem where
  claimId : PyStr
  answer : PyStr
  agentId : PyStr
  carrier : PyStr
  receipt : PyStr

/-- The kind of an act and its label. -/
inductive ActLabel
  | consultation (mode : ConsultationMode)
  | resolution (decision : ResolutionDecision)

/-- `TimelineItem`. -/
structure TimelineItem where
  claimId : PyStr
  label : ActLabel
  agentId : PyStr
  carrier : PyStr
  receipt : PyStr

/-- `KnowledgeObjectProjection`. -/
structure KnowledgeObjectProjection where
  subjectId : PyStr
  objectStanding : Standing
  coherence : Coherence
  governance : Governance
  claims : List ClaimLine
  discussion : List DiscussionItem
  timeline : List TimelineItem
  orgId : PyStr

/-- The entry that a record is joined to. -/
def entryOf (entries : List (ProjectedEntry F)) (rec : R) : Option (ProjectedEntry F) :=
  entries.reverse.find? fun e => e.id = nav.entryId rec

/-- The owner of a consultation. -/
def ownerOf (node : ConsultationNode F) : PyStr := (node.orgId.map Subtype.val).getD []

/-- The author of a consultation. -/
def authorOf (node : ConsultationNode F) : PyStr := (node.mef.agentId.map Subtype.val).getD []

/-- The items of a consultation: its own, and those of the resolutions if it is a proposal. -/
def timelineOf (node : ConsultationNode F) (receipt : PyStr) :
    Except CommitError (List TimelineItem) :=
  let own : TimelineItem :=
    { claimId := node.mef.claimId.val
      label := .consultation node.mode
      agentId := authorOf node
      carrier := (node.mef.carrier.map Carrier.short).getD []
      receipt := receipt }
  if node.mode = .proposal then
    (explain lib nav node.mef.claimId.val).map fun x =>
      own :: x.resolutions.map fun r =>
        ⟨node.mef.claimId.val, .resolution r.decision, r.agentId, r.carrier, r.receipt⟩
  else .ok [own]

/-- The loop body of `project`: the timeline so far, and the owner once it is set. -/
def projectRecord (entries : List (ProjectedEntry F)) (subjectId : PyStr)
    (st : List TimelineItem × Option PyStr) (rec : R) :
    Except CommitError (List TimelineItem × Option PyStr) :=
  match entryOf nav entries rec with
  | none => .ok st
  | some e =>
    match fromEntry lib e with
    | .error err => .error err
    | .ok (.consultation node) =>
      if node.subjectId.val ≠ subjectId then .ok st
      else
        (timelineOf lib nav node e.hash).map fun items =>
          (st.1 ++ items, some (st.2.getD (ownerOf node)))
    | .ok _ => .ok st

/-- The lines of a view, with the last answer on each claim. -/
def claimLines (sv : SubjectStandingsView) (consults : List (ConsultationView F)) :
    List ClaimLine :=
  (sv.claims.filter fun c => c.mode ≠ .observation).map fun c =>
    { claimId := c.claimId
      mode := c.mode
      rawStanding := c.standing
      governedStanding := deriveGovernedStanding c.standing c.conflict
      conflict := c.conflict
      answer := ((Dict.get c.claimId (Dict.latest ConsultationView.claimId consults)).map
        ConsultationView.answer).getD []
      agentId := c.agentId
      carrier := c.carrier }

/-- The discussion of a view. -/
def discussionOf (sv : SubjectStandingsView) (consults : List (ConsultationView F)) :
    List DiscussionItem :=
  (sv.claims.filter fun c => c.mode = .observation).map fun c =>
    let last := Dict.get c.claimId (Dict.latest ConsultationView.claimId consults)
    { claimId := c.claimId
      answer := (last.map ConsultationView.answer).getD []
      agentId := c.agentId
      carrier := c.carrier
      receipt := (last.map ConsultationView.receipt).getD [] }

/-- `KnowledgeObjectQuery.project`, without the mentions of other objects. -/
def project (subjectId : PyStr) : Except CommitError KnowledgeObjectProjection :=
  match standingIndex lib nav, consultations lib nav (some subjectId) none with
  | .error err, _ => .error err
  | _, .error err => .error err
  | .ok byClaim, .ok consults =>
    match standingsOfSubject (fun c => .ok (StandingIndex.standingOf byClaim c)) subjectId
      consults with
    | .error err => .error err
    | .ok sv =>
      let records := nav.navigateAction (prlAction .consultation)
      (records.foldlM (projectRecord lib nav (nav.resolveEntries records) subjectId) ([], none)).map
        fun st =>
          { subjectId := subjectId
            objectStanding := sv.objectStanding
            coherence := sv.coherence
            governance := (governanceFromView sv).governance
            claims := claimLines sv consults
            discussion := discussionOf sv consults
            timeline := st.1
            orgId := st.2.getD [] }

/-! ### The discovery -/

/-- `KnowledgeObjectSummary`. -/
structure KnowledgeObjectSummary where
  subjectId : PyStr
  objectStanding : Standing
  coherence : Coherence
  governance : Governance
  nClaims : ℕ
  hasConflict : Bool
  orgId : PyStr
  lastOrd : ℕ
  reason : PyStr
  lastKind : ConsultationMode
  lastAgent : PyStr
  matchFields : List PyStr
  matchSnippet : PyStr

/-- The text of a standing. -/
def Standing.text : Standing → PyStr
  | .proposed => py "proposed"
  | .decided d => d.text
  | .contested => py "contested"

/-- `object_reason`. -/
def objectReason (objectStanding : Standing) (coherence : Coherence) (hasConflict : Bool) : PyStr :=
  match objectStanding with
  | .contested =>
    if coherence = .divergent then py "claims diverge"
    else if hasConflict then py "a constituent claim is contested"
    else py "contested"
  | .decided .accepted => py "claims agree"
  | .decided .rejected => py "claims agree"
  | .proposed => py "no governed claim yet"
  | standing => Standing.text standing

/-- What the walk keeps of a subject; the source has one dict for each field, and they share
their keys. -/
structure ObjectActs where
  lastOrd : ℕ
  orgId : PyStr
  lastKind : ConsultationMode
  lastAgent : PyStr
  answers : List PyStr
  agents : List PyStr
  claims : List PyStr
  receipts : List PyStr

/-- The acts of a subject with one more; the owner is that of the first. -/
def ObjectActs.touch (i : ℕ) (node : ConsultationNode F) (receipt : PyStr) :
    Option ObjectActs → ObjectActs
  | none =>
    { lastOrd := i
      orgId := ownerOf node
      lastKind := node.mode
      lastAgent := authorOf node
      answers := [node.answer.val]
      agents := [authorOf node]
      claims := [node.mef.claimId.val]
      receipts := [receipt] }
  | some acts =>
    { lastOrd := i
      orgId := acts.orgId
      lastKind := node.mode
      lastAgent := authorOf node
      answers := acts.answers ++ [node.answer.val]
      agents := acts.agents ++ [authorOf node]
      claims := acts.claims ++ [node.mef.claimId.val]
      receipts := acts.receipts ++ [receipt] }

/-- The loop body over the records. -/
def recordAct (entries : List (ProjectedEntry F)) (acts : List (PyStr × ObjectActs)) (p : R × ℕ) :
    Except CommitError (List (PyStr × ObjectActs)) :=
  match entryOf nav entries p.1 with
  | none => .ok acts
  | some e =>
    match fromEntry lib e with
    | .error err => .error err
    | .ok (.consultation node) =>
      let subject := node.subjectId.val
      .ok (Dict.set subject (ObjectActs.touch p.2 node e.hash (Dict.get subject acts)) acts)
    | .ok _ => .ok acts

section

variable (lower : PyStr → PyStr)

/-- `str.find`. -/
def findText (needle text : PyStr) : Option ℕ :=
  (List.range (text.length + 1)).find? fun i => needle <+: text.drop i

/-- `…`. -/
def ellipsis : PyStr := py "\u2026"

/-- `_snippet`, with a width of 48. -/
def snippet (value query : PyStr) : PyStr :=
  if value.length ≤ 48 then value
  else
    match findText query (lower value) with
    | none => value.take 48 ++ ellipsis
    | some i =>
      let start := i - 12
      let stop := min value.length (i + query.length + 24)
      (if 0 < start then ellipsis else []) ++ (value.take stop).drop start ++
        if stop < value.length then ellipsis else []

/-- `_match_search`: the fields with a value that holds the query, and the first such value. -/
def matchSearch (query : PyStr) (doc : List (PyStr × List PyStr)) : List PyStr × PyStr :=
  let ql := lower query
  let found := doc.filterMap fun p =>
    (p.2.find? fun v => v ≠ [] ∧ ql <:+: lower v).map fun v => (p.1, v)
  (found.map Prod.fst, ((found.head?).map fun p =>
    p.1 ++ py ": \"" ++ snippet lower p.2 ql ++ py "\"").getD [])

/-- `_search_doc`. -/
def searchDoc (byClaim : List (PyStr × List ResolutionFact)) (subject : PyStr)
    (sv : SubjectStandingsView) (acts : ObjectActs) : List (PyStr × List PyStr) :=
  let facts := sv.claims.flatMap fun c => StandingIndex.resolutionsOf byClaim c.claimId
  let decisions := sv.claims.flatMap fun c =>
    Standing.text c.standing :: Standing.text (deriveGovernedStanding c.standing c.conflict) ::
      (StandingIndex.resolutionsOf byClaim c.claimId).map fun r => r.decision.text
  [(py "subject", [subject]), (py "answer", acts.answers.filter (· ≠ [])),
    (py "agent", sortedSet
      (acts.agents.filter (· ≠ []) ++ (facts.map ResolutionFact.agentId).filter (· ≠ []))),
    (py "org", if acts.orgId = [] then [] else [acts.orgId]), (py "claim", acts.claims),
    (py "decision", decisions),
    (py "receipt", (acts.receipts.filter (· ≠ [])).map fun r => r.take 12)]

/-- The filters of the discovery. -/
structure DiscoveryFilters where
  orgId : Option PyStr
  contested : Bool
  conflicts : Bool
  search : Option PyStr

/-- No filter. -/
def DiscoveryFilters.none : DiscoveryFilters := ⟨.none, false, false, .none⟩

/-- What a search finds in an object; an empty search is none. -/
def searched (search : Option PyStr) (doc : List (PyStr × List PyStr)) :
    Option (List PyStr × PyStr) :=
  match search with
  | .none => some ([], [])
  | some query =>
    if query = [] then some ([], [])
    else if (matchSearch lower query doc).1 = [] then .none
    else some (matchSearch lower query doc)

/-- The summary of a subject, from its view and its acts. -/
def summaryOf (subject : PyStr) (sv : SubjectStandingsView) (acts : ObjectActs)
    (found : List PyStr × PyStr) : KnowledgeObjectSummary where
  subjectId := subject
  objectStanding := sv.objectStanding
  coherence := sv.coherence
  governance := (governanceFromView sv).governance
  nClaims := sv.claims.length
  hasConflict := sv.claims.any ClaimStanding.conflict
  orgId := acts.orgId
  lastOrd := acts.lastOrd
  reason := objectReason sv.objectStanding sv.coherence (sv.claims.any ClaimStanding.conflict)
  lastKind := acts.lastKind
  lastAgent := acts.lastAgent
  matchFields := found.1
  matchSnippet := found.2

/-- The loop body over the subjects. -/
def summarize (byClaim : List (PyStr × List ResolutionFact)) (views : List (ConsultationView F))
    (search : Option PyStr) (p : PyStr × ObjectActs) :
    Except CommitError (Option KnowledgeObjectSummary) :=
  let consults := (Dict.get p.1 (Dict.group ConsultationView.subjectId views)).getD []
  (standingsOfSubject (fun c => .ok (StandingIndex.standingOf byClaim c)) p.1 consults).map
    fun sv => (searched lower search (searchDoc byClaim p.1 sv p.2)).map (summaryOf p.1 sv p.2)

/-- A summary that the filters keep. -/
def DiscoveryFilters.keeps (filters : DiscoveryFilters) (sm : KnowledgeObjectSummary) : Bool :=
  (filters.orgId.all fun org => sm.orgId = org) &&
    (!filters.contested || sm.objectStanding = .contested) &&
    (!filters.conflicts || sm.hasConflict)

/-- `discover_objects`, over the index that the constructor makes. -/
def discoverObjects (filters : DiscoveryFilters) :
    Except CommitError (List KnowledgeObjectSummary) :=
  let records := nav.navigateAction (prlAction .consultation)
  let entries := nav.resolveEntries records
  match standingIndex lib nav, entries.mapM (viewFromEntry lib),
    records.zipIdx.foldlM (recordAct lib nav entries) [] with
  | .error err, _, _ => .error err
  | _, .error err, _ => .error err
  | _, _, .error err => .error err
  | .ok byClaim, .ok views, .ok acts =>
    (acts.mapM (summarize lower byClaim views filters.search)).map fun out =>
      ((out.filterMap id).filter filters.keeps).insertionSort fun a b => b.lastOrd ≤ a.lastOrd

end

/-! ### The groups of the resolutions -/

section

variable {lib nav}

/-- A fold that groups by claim and a scan for a claim go through the same entries. -/
theorem resolutionsIn_of_index (claimId : PyStr) : ∀ {es : List (ProjectedEntry F)}
    {byClaim byClaim' : List (PyStr × List ResolutionFact)},
    es.foldlM (indexResolution lib) byClaim = .ok byClaim' →
      ∃ out, resolutionsIn lib claimId es = .ok out ∧
        StandingIndex.resolutionsOf byClaim' claimId
          = StandingIndex.resolutionsOf byClaim claimId ++ out.map fun p => fact p.1 p.2 := by
  intro es
  induction es with
  | nil =>
    intro byClaim byClaim' h
    obtain rfl := Except.ok.inj h
    exact ⟨[], rfl, (List.append_nil _).symm⟩
  | cons e es ih =>
    intro byClaim byClaim' h
    rw [List.foldlM_cons] at h
    cases hnode : fromEntry lib e with
    | error err =>
      rw [indexResolution, hnode] at h
      cases h
    | ok node =>
      -- the scan of the rest goes on with what the entry adds
      have hscan : ∀ {out}, resolutionsIn lib claimId es = .ok out →
          resolutionsIn lib claimId (e :: es)
            = .ok ((resolutionOf claimId e node).toList ++ out) := by
        intro out hout
        obtain ⟨found, hfound, rfl⟩ := map_eq_ok.mp hout
        rw [resolutionsIn, List.mapM_cons, hnode, hfound]
        cases hres : resolutionOf claimId e node with
        | none => exact congrArg Except.ok (by simp [hres])
        | some p => exact congrArg Except.ok (by simp [hres])
      cases node with
      | resolution r =>
        rw [indexResolution, hnode] at h
        obtain ⟨out, hout, hget⟩ := ih h
        refine ⟨_, hscan hout, ?_⟩
        rw [hget, StandingIndex.resolutionsOf, Dict.get_push, List.map_append, ← List.append_assoc,
          StandingIndex.resolutionsOf, resolutionOf]
        by_cases hclaim : r.targetClaimId.val = claimId
        · rw [if_pos hclaim, if_pos hclaim]
          rfl
        · rw [if_neg hclaim, if_neg hclaim]
          rfl
      | _ =>
        rw [indexResolution, hnode] at h
        obtain ⟨out, hout, hget⟩ := ih h
        exact ⟨_, hscan hout, hget⟩

/-- **A group holds the facts that a scan for its claim finds.** -/
theorem resolutionsOf_index {byClaim : List (PyStr × List ResolutionFact)}
    (h : standingIndex lib nav = .ok byClaim) (claimId : PyStr) :
    resolutionsOf lib nav claimId = .ok (StandingIndex.resolutionsOf byClaim claimId) := by
  obtain ⟨out, hout, hget⟩ := resolutionsIn_of_index claimId h
  rw [resolutionsOf, hout, hget]
  rfl

/-- **And the standings of the claims are the same.** -/
theorem standingOf_index {byClaim : List (PyStr × List ResolutionFact)}
    (h : standingIndex lib nav = .ok byClaim) :
    standingOf lib nav = fun claimId => .ok (StandingIndex.standingOf byClaim claimId) := by
  funext claimId
  rw [standingOf, resolutionsOf_index h]
  rfl

/-! ### The groups of the consultations -/

/-- **A group holds the views that a list for its subject finds.** -/
theorem consultations_group {views : List (ConsultationView F)}
    (h : (nav.resolveEntries (nav.navigateAction (prlAction .consultation))).mapM
      (viewFromEntry lib) = .ok views) (subjectId : PyStr) :
    consultations lib nav (some subjectId) none
      = .ok ((Dict.get subjectId (Dict.group ConsultationView.subjectId views)).getD []) := by
  have hall : ∀ vs : List (ConsultationView F),
      vs.filter (keepsOf ConsultationView.orgId none) = vs :=
    fun vs => List.filter_eq_self.mpr fun _ _ => rfl
  rw [consultations, h, Dict.get_group]
  exact congrArg Except.ok (hall _)

/-- The list without a subject is of all views. -/
theorem consultations_all {views : List (ConsultationView F)}
    (h : (nav.resolveEntries (nav.navigateAction (prlAction .consultation))).mapM
      (viewFromEntry lib) = .ok views) : consultations lib nav none none = .ok views := by
  have hall : ∀ (field : ConsultationView F → PyStr) (vs : List (ConsultationView F)),
      vs.filter (keepsOf field none) = vs :=
    fun field vs => List.filter_eq_self.mpr fun _ _ => rfl
  rw [consultations, h]
  exact congrArg Except.ok ((hall _ _).trans (hall _ _))

/-! ### The walk over the records -/

/-- The record is joined to a consultation. -/
def Joins (lib : Library F) (nav : RegistryProjection F R) (entries : List (ProjectedEntry F))
    (rec : R) (e : ProjectedEntry F) (node : ConsultationNode F) : Prop :=
  entryOf nav entries rec = some e ∧ fromEntry lib e = .ok (.consultation node)

/-- **A step of the walk leaves the acts as they are, or touches the subject of a
consultation.** -/
theorem recordAct_cases {entries : List (ProjectedEntry F)} {acts acts' : List (PyStr × ObjectActs)}
    {p : R × ℕ} (h : recordAct lib nav entries acts p = .ok acts') :
    (acts' = acts ∧ (∀ e node, ¬Joins lib nav entries p.1 e node) ∧
        ∀ subject st, projectRecord lib nav entries subject st p.1 = .ok st) ∨
      ∃ e node, Joins lib nav entries p.1 e node ∧ acts' = Dict.set node.subjectId.val
        (ObjectActs.touch p.2 node e.hash (Dict.get node.subjectId.val acts)) acts := by
  unfold recordAct at h
  cases he : entryOf nav entries p.1 with
  | none =>
    rw [he] at h
    obtain rfl := Except.ok.inj h
    refine Or.inl ⟨rfl, ?_, ?_⟩
    · rintro e node ⟨hjoin, -⟩
      rw [he] at hjoin
      cases hjoin
    · intro subject st
      rw [projectRecord, he]
  | some e =>
    rw [he] at h
    cases hnode : fromEntry lib e with
    | error err =>
      simp only [hnode] at h
      cases h
    | ok node =>
      simp only [hnode] at h
      cases node with
      | consultation node =>
        obtain rfl := Except.ok.inj h
        exact Or.inr ⟨e, node, ⟨he, hnode⟩, rfl⟩
      | _ =>
        obtain rfl := Except.ok.inj h
        refine Or.inl ⟨rfl, ?_, ?_⟩
        · rintro e' node' ⟨hjoin, hnode'⟩
          rw [he] at hjoin
          obtain rfl := Option.some.inj hjoin
          rw [hnode] at hnode'
          cases hnode'
        · intro subject st
          simp only [projectRecord, he, hnode]

/-- A walk that succeeds, one record at a time. -/
theorem walk_cons {entries : List (ProjectedEntry F)} {acts acts' : List (PyStr × ObjectActs)}
    {p : R × ℕ} {ps : List (R × ℕ)}
    (h : (p :: ps).foldlM (recordAct lib nav entries) acts = .ok acts') :
    ∃ next, recordAct lib nav entries acts p = .ok next ∧
      ps.foldlM (recordAct lib nav entries) next = .ok acts' := by
  rw [List.foldlM_cons] at h
  cases hstep : recordAct lib nav entries acts p with
  | error err =>
    rw [hstep] at h
    cases h
  | ok next =>
    rw [hstep] at h
    exact ⟨next, rfl, h⟩

/-- The subjects of the walk are distinct. -/
theorem nodup_keys_walk {entries : List (ProjectedEntry F)} : ∀ {ps : List (R × ℕ)}
    {acts acts' : List (PyStr × ObjectActs)},
    ps.foldlM (recordAct lib nav entries) acts = .ok acts' →
      (Dict.keys acts).Nodup → (Dict.keys acts').Nodup := by
  intro ps
  induction ps with
  | nil =>
    intro acts acts' h hacts
    obtain rfl := Except.ok.inj h
    exact hacts
  | cons p ps ih =>
    intro acts acts' h hacts
    obtain ⟨next, hstep, hrest⟩ := walk_cons h
    rcases recordAct_cases hstep with ⟨rfl, -, -⟩ | ⟨e, node, -, rfl⟩
    · exact ih hrest hacts
    · exact ih hrest (Dict.nodup_keys_set hacts)

/-- **The subjects of the walk are those of the consultations joined.** -/
theorem mem_keys_walk {entries : List (ProjectedEntry F)} {subject : PyStr} :
    ∀ {ps : List (R × ℕ)} {acts acts' : List (PyStr × ObjectActs)},
    ps.foldlM (recordAct lib nav entries) acts = .ok acts' →
      (subject ∈ Dict.keys acts' ↔ subject ∈ Dict.keys acts ∨
        ∃ p ∈ ps, ∃ e node, Joins lib nav entries p.1 e node ∧ node.subjectId.val = subject) := by
  intro ps
  induction ps with
  | nil =>
    intro acts acts' h
    obtain rfl := Except.ok.inj h
    simp
  | cons p ps ih =>
    intro acts acts' h
    obtain ⟨next, hstep, hrest⟩ := walk_cons h
    rw [ih hrest]
    rcases recordAct_cases hstep with ⟨rfl, hnone, -⟩ | ⟨e, node, hjoin, rfl⟩
    · constructor
      · rintro (hmem | ⟨q, hq, hmet⟩)
        · exact Or.inl hmem
        · exact Or.inr ⟨q, List.mem_cons_of_mem p hq, hmet⟩
      · rintro (hmem | ⟨q, hq, e, node, hjoin, hsubject⟩)
        · exact Or.inl hmem
        · rcases List.mem_cons.mp hq with rfl | hq
          · exact absurd hjoin (hnone e node)
          · exact Or.inr ⟨q, hq, e, node, hjoin, hsubject⟩
    · rw [Dict.mem_keys_set]
      constructor
      · rintro ((rfl | hmem) | ⟨q, hq, hmet⟩)
        · exact Or.inr ⟨p, List.mem_cons_self, e, node, hjoin, rfl⟩
        · exact Or.inl hmem
        · exact Or.inr ⟨q, List.mem_cons_of_mem p hq, hmet⟩
      · rintro (hmem | ⟨q, hq, e', node', hjoin', hsubject⟩)
        · exact Or.inl (Or.inr hmem)
        · rcases List.mem_cons.mp hq with rfl | hq
          · -- the record is joined to one node
            obtain rfl := Option.some.inj (hjoin.1.symm.trans hjoin'.1)
            have hnode := Except.ok.inj (hjoin.2.symm.trans hjoin'.2)
            obtain rfl := PRLNode.consultation.inj hnode
            exact Or.inl (Or.inl hsubject.symm)
          · exact Or.inr ⟨q, hq, e', node', hjoin', hsubject⟩

/-- The owner of a touched subject is the one it had, or that of the node. -/
theorem orgId_touch (i : ℕ) (node : ConsultationNode F) (receipt : PyStr) (acts : Option ObjectActs) :
    (ObjectActs.touch i node receipt acts).orgId
      = (acts.map ObjectActs.orgId).getD (ownerOf node) := by
  cases acts <;> rfl

/-- **Where the explanations succeed, so does the loop of `project`, and its owner is the one
that the walk keeps.** -/
theorem orgId_walk {entries : List (ProjectedEntry F)} {subject : PyStr}
    (hexplain : ∀ claimId, ∃ x, explain lib nav claimId = .ok x) :
    ∀ {ps : List (R × ℕ)} {acts acts' : List (PyStr × ObjectActs)}
      (st : List TimelineItem × Option PyStr),
      ps.foldlM (recordAct lib nav entries) acts = .ok acts' →
        st.2 = (Dict.get subject acts).map ObjectActs.orgId →
          ∃ st', (ps.map Prod.fst).foldlM (projectRecord lib nav entries subject) st = .ok st' ∧
            st'.2 = (Dict.get subject acts').map ObjectActs.orgId := by
  intro ps
  induction ps with
  | nil =>
    intro acts acts' st h hst
    obtain rfl := Except.ok.inj h
    exact ⟨st, rfl, hst⟩
  | cons p ps ih =>
    intro acts acts' st h hst
    obtain ⟨next, hstep, hrest⟩ := walk_cons h
    rw [List.map_cons, List.foldlM_cons]
    rcases recordAct_cases hstep with ⟨rfl, -, hsame⟩ | ⟨e, node, hjoin, rfl⟩
    · rw [hsame]
      exact ih st hrest hst
    · by_cases hsubject : node.subjectId.val = subject
      · obtain ⟨items, hitems⟩ : ∃ items, timelineOf lib nav node e.hash = .ok items := by
          unfold timelineOf
          dsimp only
          split_ifs
          · obtain ⟨x, hx⟩ := hexplain node.mef.claimId.val
            exact ⟨_, by rw [hx]; rfl⟩
          · exact ⟨_, rfl⟩
        have hproject : projectRecord lib nav entries subject st p.1
            = .ok (st.1 ++ items, some (st.2.getD (ownerOf node))) := by
          simp only [projectRecord, hjoin.1, hjoin.2, hitems, if_neg (not_not.mpr hsubject)]
          rfl
        rw [hproject]
        refine ih _ hrest ?_
        rw [← hsubject, Dict.get_set, if_pos rfl, Option.map_some, orgId_touch, hst, hsubject]
      · have hproject : projectRecord lib nav entries subject st p.1 = .ok st := by
          simp only [projectRecord, hjoin.1, hjoin.2, if_pos hsubject]
        rw [hproject]
        refine ih st hrest ?_
        rw [hst, Dict.get_set_ne hsubject]

/-- The projection of a subject, from what its queries give. -/
theorem project_eq_ok {byClaim : List (PyStr × List ResolutionFact)}
    {consults : List (ConsultationView F)} {sv : SubjectStandingsView} {subject : PyStr}
    {st : List TimelineItem × Option PyStr} (hindex : standingIndex lib nav = .ok byClaim)
    (hconsults : consultations lib nav (some subject) none = .ok consults)
    (hsv : standingsOfSubject (fun c => .ok (StandingIndex.standingOf byClaim c)) subject consults
      = .ok sv)
    (hst : (nav.navigateAction (prlAction .consultation)).foldlM (projectRecord lib nav
      (nav.resolveEntries (nav.navigateAction (prlAction .consultation))) subject) ([], none)
        = .ok st) :
    project lib nav subject = .ok
      { subjectId := subject
        objectStanding := sv.objectStanding
        coherence := sv.coherence
        governance := (governanceFromView sv).governance
        claims := claimLines sv consults
        discussion := discussionOf sv consults
        timeline := st.1
        orgId := st.2.getD [] } := by
  simp only [project, hindex, hconsults, hsv, hst]
  rfl

/-! ### The summaries -/

section

variable {lower : PyStr → PyStr}

/-- **What the discovery is made of.** -/
theorem discoverObjects_eq_ok {filters : DiscoveryFilters}
    {summaries : List KnowledgeObjectSummary}
    (h : discoverObjects lib nav lower filters = .ok summaries) :
    ∃ byClaim views acts out,
      standingIndex lib nav = .ok byClaim ∧
      (nav.resolveEntries (nav.navigateAction (prlAction .consultation))).mapM (viewFromEntry lib)
        = .ok views ∧
      (nav.navigateAction (prlAction .consultation)).zipIdx.foldlM (recordAct lib nav
        (nav.resolveEntries (nav.navigateAction (prlAction .consultation)))) [] = .ok acts ∧
      acts.mapM (summarize lower byClaim views filters.search) = .ok out ∧
      summaries.Perm ((out.filterMap id).filter filters.keeps) := by
  unfold discoverObjects at h
  dsimp only at h
  split at h
  · cases h
  · cases h
  · cases h
  next byClaim views acts hindex hviews hacts =>
    obtain ⟨out, hout, rfl⟩ := map_eq_ok.mp h
    exact ⟨byClaim, views, acts, out, hindex, hviews, hacts, hout, List.perm_insertionSort _ _⟩

theorem discoverObjects_of_ok {filters : DiscoveryFilters}
    {byClaim : List (PyStr × List ResolutionFact)} {views : List (ConsultationView F)}
    {acts : List (PyStr × ObjectActs)} {out : List (Option KnowledgeObjectSummary)}
    (hindex : standingIndex lib nav = .ok byClaim)
    (hviews : (nav.resolveEntries (nav.navigateAction (prlAction .consultation))).mapM
      (viewFromEntry lib) = .ok views)
    (hacts : (nav.navigateAction (prlAction .consultation)).zipIdx.foldlM (recordAct lib nav
      (nav.resolveEntries (nav.navigateAction (prlAction .consultation)))) [] = .ok acts)
    (hout : acts.mapM (summarize lower byClaim views filters.search) = .ok out) :
    discoverObjects lib nav lower filters = .ok (((out.filterMap id).filter
      filters.keeps).insertionSort fun a b => b.lastOrd ≤ a.lastOrd) := by
  simp only [discoverObjects, hindex, hviews, hacts, hout]
  rfl

omit [PyFloat F] in
/-- A summary is made of the view of its subject and of its acts. -/
theorem summarize_eq_ok {byClaim : List (PyStr × List ResolutionFact)}
    {views : List (ConsultationView F)} {search : Option PyStr} {p : PyStr × ObjectActs}
    {o : Option KnowledgeObjectSummary} (h : summarize lower byClaim views search p = .ok o) :
    ∃ sv, standingsOfSubject (fun c => .ok (StandingIndex.standingOf byClaim c)) p.1
        ((Dict.get p.1 (Dict.group ConsultationView.subjectId views)).getD []) = .ok sv ∧
      o = (searched lower search (searchDoc byClaim p.1 sv p.2)).map (summaryOf p.1 sv p.2) := by
  obtain ⟨sv, hsv, rfl⟩ := map_eq_ok.mp h
  exact ⟨sv, hsv, rfl⟩

omit [PyFloat F] in
theorem subjectId_of_summarize {byClaim : List (PyStr × List ResolutionFact)}
    {views : List (ConsultationView F)} {search : Option PyStr} {p : PyStr × ObjectActs}
    {sm : KnowledgeObjectSummary} (h : summarize lower byClaim views search p = .ok (some sm)) :
    sm.subjectId = p.1 := by
  obtain ⟨sv, -, ho⟩ := summarize_eq_ok h
  obtain ⟨found, -, rfl⟩ := Option.map_eq_some_iff.mp ho.symm
  rfl

omit [PyFloat F] in
/-- The subjects of the summaries are subjects of the walk, in its order. -/
theorem sublist_subjects {byClaim : List (PyStr × List ResolutionFact)}
    {views : List (ConsultationView F)} {search : Option PyStr}
    {acts : List (PyStr × ObjectActs)} {out : List (Option KnowledgeObjectSummary)}
    (h : List.Forall₂ (fun p o => summarize lower byClaim views search p = .ok o) acts out) :
    ((out.filterMap id).map KnowledgeObjectSummary.subjectId).Sublist (Dict.keys acts) := by
  induction h with
  | nil => exact List.Sublist.slnil
  | @cons p o acts out hp _ ih =>
    cases o with
    | none => exact ih.trans (List.sublist_cons_self _ _)
    | some sm =>
      have hsubjects : (((some sm :: out).filterMap id).map KnowledgeObjectSummary.subjectId)
          = p.1 :: (out.filterMap id).map KnowledgeObjectSummary.subjectId :=
        congrArg (· :: _) (subjectId_of_summarize hp)
      rw [hsubjects]
      exact ih.cons_cons _

omit [PyFloat F] in
/-- Without a search every subject of the walk has its summary. -/
theorem subjects_unsearched {byClaim : List (PyStr × List ResolutionFact)}
    {views : List (ConsultationView F)} {acts : List (PyStr × ObjectActs)}
    {out : List (Option KnowledgeObjectSummary)}
    (h : List.Forall₂ (fun p o => summarize lower byClaim views none p = .ok o) acts out) :
    (out.filterMap id).map KnowledgeObjectSummary.subjectId = Dict.keys acts := by
  induction h with
  | nil => rfl
  | @cons p o acts out hp _ ih =>
    obtain ⟨sv, -, rfl⟩ := summarize_eq_ok hp
    have hkeys : Dict.keys (p :: acts) = p.1 :: Dict.keys acts := rfl
    rw [hkeys, ← ih]
    rfl

variable (lib nav) in
/-- **The summary says what the queries for its subject say.** -/
structure SummaryAgrees (sm : KnowledgeObjectSummary) : Prop where
  view : ∃ sv, subjectStandings lib nav sm.subjectId = .ok sv ∧
    sm.objectStanding = sv.objectStanding ∧ sm.coherence = sv.coherence ∧
    sm.nClaims = sv.claims.length ∧ sm.hasConflict = sv.claims.any ClaimStanding.conflict
  governance : ∃ gov, governanceOfSubject lib nav sm.subjectId = .ok gov ∧
    sm.governance = gov.governance
  owner : ∃ proj, project lib nav sm.subjectId = .ok proj ∧ sm.orgId = proj.orgId

/-- **Every summary of a discovery agrees.** -/
theorem summaryAgrees {filters : DiscoveryFilters} {summaries : List KnowledgeObjectSummary}
    (h : discoverObjects lib nav lower filters = .ok summaries) :
    ∀ sm ∈ summaries, SummaryAgrees lib nav sm := by
  intro sm hsm
  obtain ⟨byClaim, views, acts, out, hindex, hviews, hacts, hout, hperm⟩ := discoverObjects_eq_ok h
  have hsome : some sm ∈ out := by
    have hmem := (List.mem_filter.mp (hperm.mem_iff.mp hsm)).1
    obtain ⟨o, ho, heq⟩ := List.mem_filterMap.mp hmem
    obtain rfl : o = some sm := heq
    exact ho
  obtain ⟨p, hp, hsum⟩ := Pointwise.exists_of_mem_right (Pointwise.of_mapM_ok hout) hsome
  have hsubject := subjectId_of_summarize hsum
  obtain ⟨sv, hsv, ho⟩ := summarize_eq_ok hsum
  obtain ⟨found, -, rfl⟩ := Option.map_eq_some_iff.mp ho.symm
  have hconsults := consultations_group hviews p.1
  -- the scan for each claim and the groups give one view
  have hview : subjectStandings lib nav p.1 = .ok sv := by
    rw [subjectStandings, hconsults, standingOf_index hindex]
    exact hsv
  refine ⟨⟨sv, hview, rfl, rfl, rfl, rfl⟩, ⟨governanceFromView sv, ?_, rfl⟩, ?_⟩
  · rw [governanceOfSubject, hsubject, hview]
    rfl
  · have hexplain : ∀ claimId, ∃ x, explain lib nav claimId = .ok x := fun claimId =>
      ⟨_, explain_eq_ok (consultations_all hviews) (resolutionsOf_index hindex claimId)⟩
    have hnone : (none : Option PyStr)
        = (Dict.get p.1 ([] : List (PyStr × ObjectActs))).map ObjectActs.orgId := rfl
    obtain ⟨st, hst, howner⟩ := orgId_walk hexplain ([], none) hacts hnone
    have hget : Dict.get p.1 acts = some p.2 :=
      Dict.get_of_mem (nodup_keys_walk hacts List.nodup_nil) hp
    rw [hget] at howner
    rw [List.zipIdx_map_fst] at hst
    refine ⟨_, hsubject ▸ project_eq_ok hindex hconsults hsv hst, ?_⟩
    exact (congrArg (fun o : Option PyStr => o.getD []) howner).symm

/-- No subject has two summaries. -/
theorem nodup_summaries {filters : DiscoveryFilters} {summaries : List KnowledgeObjectSummary}
    (h : discoverObjects lib nav lower filters = .ok summaries) :
    (summaries.map KnowledgeObjectSummary.subjectId).Nodup := by
  obtain ⟨byClaim, views, acts, out, -, -, hacts, hout, hperm⟩ := discoverObjects_eq_ok h
  have hsub : (((out.filterMap id).filter filters.keeps).map
      KnowledgeObjectSummary.subjectId).Sublist (Dict.keys acts) :=
    (List.filter_sublist.map _).trans (sublist_subjects (Pointwise.of_mapM_ok hout))
  rw [(hperm.map _).nodup_iff]
  exact hsub.nodup (nodup_keys_walk hacts List.nodup_nil)

/-- Without filters the summaries are of the subjects of the walk. -/
theorem mem_summaries_iff {summaries : List KnowledgeObjectSummary}
    (h : discoverObjects lib nav lower .none = .ok summaries) {subject : PyStr} :
    subject ∈ summaries.map KnowledgeObjectSummary.subjectId ↔
      ∃ rec ∈ nav.navigateAction (prlAction .consultation), ∃ e node, Joins lib nav
        (nav.resolveEntries (nav.navigateAction (prlAction .consultation))) rec e node ∧
          node.subjectId.val = subject := by
  obtain ⟨byClaim, views, acts, out, -, -, hacts, hout, hperm⟩ := discoverObjects_eq_ok h
  have hkeeps : (out.filterMap id).filter DiscoveryFilters.none.keeps = out.filterMap id :=
    List.filter_eq_self.mpr fun _ _ => rfl
  rw [(hperm.map _).mem_iff, hkeeps, subjects_unsearched (Pointwise.of_mapM_ok hout),
    mem_keys_walk hacts]
  constructor
  · rintro (hmem | ⟨p, hp, hmet⟩)
    · cases hmem
    · exact ⟨p.1, List.fst_mem_of_mem_zipIdx hp, hmet⟩
  · rintro ⟨rec, hrec, hmet⟩
    rw [← List.zipIdx_map_fst 0 (nav.navigateAction (prlAction .consultation))] at hrec
    obtain ⟨p, hp, rfl⟩ := List.mem_map.mp hrec
    exact Or.inr ⟨p, hp, hmet⟩

end

end

/-! ### The relay -/

section

variable {lib} {lower : PyStr → PyStr} {s : Store F} {idx : RRIndex F}

omit [PyFloat F] in
/-- **What the relay resolves is what the join finds.** -/
theorem mem_resolveEntries_iff {action : PyStr} {e : ProjectedEntry F} :
    e ∈ (rrProjection s idx).resolveEntries ((rrProjection s idx).navigateAction action) ↔
      ∃ rec ∈ (rrProjection s idx).navigateAction action, entryOf (rrProjection s idx)
        ((rrProjection s idx).resolveEntries ((rrProjection s idx).navigateAction action)) rec
          = some e := by
  constructor
  · intro he
    obtain ⟨x, hx, rfl⟩ := List.mem_map.mp he
    have hbatch : 0 < batchSize := by decide
    obtain ⟨hnodup, hasked⟩ := asked_resolveEntries (s := s) hbatch
      (Daryl.navigateAction idx action)
    obtain ⟨rec, hrec, hid⟩ := hasked x hx
    refine ⟨rec, hrec, ?_⟩
    have hfound := find?_reverse_of_mem ProjectedEntry.id he (by
      intro b hb hkey
      obtain ⟨y, hy, rfl⟩ := List.mem_map.mp hb
      exact congrArg projectedOf (List.inj_on_of_nodup_map hnodup hy hx hkey))
    have hrecord : (rrProjection s idx).entryId rec = (projectedOf x).id := hid
    rw [entryOf, hrecord]
    exact hfound
  · rintro ⟨rec, -, hfind⟩
    exact List.mem_reverse.mp (List.mem_of_find?_eq_some hfind)

/-- **The subjects with a summary are those that the list of consultations shows.** -/
theorem mem_summaries_listed {summaries : List KnowledgeObjectSummary}
    (h : discoverObjects lib (rrProjection s idx) lower .none = .ok summaries) {subject : PyStr} :
    subject ∈ summaries.map KnowledgeObjectSummary.subjectId ↔
      ∃ views, consultations lib (rrProjection s idx) none none = .ok views ∧
        ∃ v ∈ views, v.subjectId = subject := by
  obtain ⟨byClaim, views, acts, out, -, hviews, -, -, -⟩ := discoverObjects_eq_ok h
  have heach := Pointwise.of_mapM_ok hviews
  rw [mem_summaries_iff h]
  constructor
  · rintro ⟨rec, hrec, e, node, hjoin, rfl⟩
    have he := mem_resolveEntries_iff.mpr ⟨rec, hrec, hjoin.1⟩
    obtain ⟨v, hv, hview⟩ := Pointwise.exists_of_mem_left heach he
    rw [viewFromEntry, hjoin.2] at hview
    obtain rfl := Except.ok.inj hview
    exact ⟨views, consultations_all hviews, _, hv, rfl⟩
  · rintro ⟨views', hviews', v, hv, rfl⟩
    obtain rfl := Except.ok.inj ((consultations_all hviews).symm.trans hviews')
    obtain ⟨e, he, hview⟩ := Pointwise.exists_of_mem_right heach hv
    obtain ⟨rec, hrec, hfound⟩ := mem_resolveEntries_iff.mp he
    unfold viewFromEntry at hview
    split at hview
    · cases hview
    next node hnode =>
      obtain rfl := Except.ok.inj hview
      exact ⟨rec, hrec, e, node, ⟨hfound, hnode⟩, rfl⟩
    · cases hview

/-! ### Stores of acts -/

/-- A walk over resolutions groups them. -/
theorem exists_index : ∀ {es : List (ProjectedEntry F)},
    (∀ e ∈ es, ∃ n, fromEntry lib e = .ok (.resolution n)) →
      ∀ byClaim, ∃ byClaim', es.foldlM (indexResolution lib) byClaim = .ok byClaim' := by
  intro es
  induction es with
  | nil => exact fun _ byClaim => ⟨byClaim, rfl⟩
  | cons e es ih =>
    intro h byClaim
    obtain ⟨n, hn⟩ := h e List.mem_cons_self
    rw [List.foldlM_cons, indexResolution, hn]
    exact ih (fun x hx => h x (List.mem_cons_of_mem e hx)) _

/-- A walk over records that are joined to consultations succeeds. -/
theorem exists_walk {nav : RegistryProjection F R} {entries : List (ProjectedEntry F)}
    (h : ∀ e ∈ entries, ∃ n, fromEntry lib e = .ok (.consultation n)) :
    ∀ (ps : List (R × ℕ)) (acts : List (PyStr × ObjectActs)),
      ∃ acts', ps.foldlM (recordAct lib nav entries) acts = .ok acts' := by
  intro ps
  induction ps with
  | nil => exact fun acts => ⟨acts, rfl⟩
  | cons p ps ih =>
    intro acts
    obtain ⟨next, hnext⟩ : ∃ next, recordAct lib nav entries acts p = .ok next := by
      unfold recordAct
      cases he : entryOf nav entries p.1 with
      | none => exact ⟨acts, rfl⟩
      | some e =>
        obtain ⟨n, hn⟩ := h e (List.mem_reverse.mp (List.mem_of_find?_eq_some he))
        simp only [hn]
        exact ⟨_, rfl⟩
    rw [List.foldlM_cons, hnext]
    exact ih next

omit [PyFloat F] in
/-- Claims are gathered where their standings are read. -/
theorem exists_gather (view : PyStr → StandingView) :
    ∀ (vs : List (ConsultationView F)) (seen : List PyStr),
      ∃ claims, gather (fun c => .ok (view c)) seen vs = .ok claims := by
  intro vs
  induction vs with
  | nil => exact fun _ => ⟨[], rfl⟩
  | cons v vs ih =>
    intro seen
    rw [gather]
    split_ifs
    · exact ih seen
    · obtain ⟨claims, hclaims⟩ := ih (v.claimId :: seen)
      exact ⟨_, by rw [hclaims]; rfl⟩

/-- **Over a store of acts the discovery succeeds.** -/
theorem exists_discoverObjects {stamp : Datetime → ℚ} (hs : Certified lib s)
    (hidx : buildIndex stamp batchSize s = some idx) (filters : DiscoveryFilters) :
    ∃ summaries, discoverObjects lib (rrProjection s idx) lower filters = .ok summaries := by
  obtain rfl := eq_indexRecords hidx
  have hresolution := (serves_rrProjection stamp hs
    (by decide : prlAction .resolution ≠ []) (by decide)).1
  have hconsultation := (serves_rrProjection stamp hs
    (by decide : prlAction .consultation ≠ []) (by decide)).2
  obtain ⟨byClaim, hindex⟩ : ∃ byClaim, standingIndex lib
      (rrProjection s (indexRecords (scanRecords stamp batchSize s))) = .ok byClaim := by
    unfold standingIndex
    apply exists_index
    intro e he
    rw [hresolution] at he
    obtain ⟨p, hp, rfl⟩ := List.mem_map.mp he
    have hp' := mem_shardActs.mp (mem_byTime.mp hp)
    exact hs.resolution p.1 p.2 hp'.1 hp'.2
  have hentries : ∀ e ∈ (rrProjection s (indexRecords (scanRecords stamp batchSize s))).resolveEntries
      ((rrProjection s (indexRecords (scanRecords stamp batchSize s))).navigateAction
        (prlAction .consultation)), ∃ n, fromEntry lib e = .ok (.consultation n) := by
    intro e he
    rw [hconsultation] at he
    obtain ⟨x, hx, rfl⟩ := List.mem_map.mp he
    obtain ⟨shard, -, hx⟩ := List.mem_flatMap.mp hx
    exact hs.consultation shard x (mem_shardActs.mp hx).1 (mem_shardActs.mp hx).2
  obtain ⟨views, hviews⟩ := Pointwise.exists_mapM_ok (f := viewFromEntry lib) fun e he => by
    obtain ⟨n, hn⟩ := hentries e he
    exact ⟨viewOf n e.hash, by rw [viewFromEntry, hn]⟩
  obtain ⟨acts, hacts⟩ := exists_walk hentries
    ((rrProjection s (indexRecords (scanRecords stamp batchSize s))).navigateAction
      (prlAction .consultation)).zipIdx []
  have hsummary : ∀ p ∈ acts, ∃ o, summarize lower byClaim views filters.search p = .ok o := by
    intro p _
    obtain ⟨claims, hclaims⟩ := exists_gather (StandingIndex.standingOf byClaim)
      ((Dict.get p.1 (Dict.group ConsultationView.subjectId views)).getD []) []
    exact ⟨_, by rw [summarize, standingsOfSubject, hclaims]; rfl⟩
  obtain ⟨out, hout⟩ := Pointwise.exists_mapM_ok hsummary
  exact ⟨_, discoverObjects_of_ok hindex hviews hacts hout⟩

/-- The store has a consultation on the subject. -/
def Concerns (lib : Library F) (s : Store F) (subject : PyStr) : Prop :=
  ∃ shard, ∃ e ∈ s.entries shard, e.meta (py "action_name") = .str (prlAction .consultation) ∧
    ∃ node, fromEntry lib (projectedOf e) = .ok (.consultation node) ∧ node.subjectId.val = subject

/-- The list of consultations shows the subjects of the store. -/
theorem listed_iff_concerns {stamp : Datetime → ℚ} (hs : Certified lib s)
    (hidx : buildIndex stamp batchSize s = some idx) {subject : PyStr} :
    (∃ views, consultations lib (rrProjection s idx) none none = .ok views ∧
      ∃ v ∈ views, v.subjectId = subject) ↔ Concerns lib s subject := by
  obtain rfl := eq_indexRecords hidx
  have hlist := (consultations_projections stamp hs none).1
  have hmem : ∀ v, v ∈ (views lib (byShard stamp (prlAction .consultation) s)).filter
      (keepsOf ConsultationView.subjectId none) ↔
        ∃ e ∈ byShard stamp (prlAction .consultation) s,
          (viewFromEntry lib (projectedOf e)).toOption = some v := by
    intro v
    rw [List.mem_filter, views, List.mem_filterMap]
    exact and_iff_left rfl
  constructor
  · rintro ⟨vs, hvs, v, hv, rfl⟩
    obtain rfl := Except.ok.inj (hlist.symm.trans hvs)
    obtain ⟨e, he, hview⟩ := (hmem v).mp hv
    obtain ⟨shard, -, he⟩ := List.mem_flatMap.mp he
    obtain ⟨hstored, haction⟩ := mem_shardActs.mp he
    obtain ⟨node, hnode⟩ := hs.consultation shard e hstored haction
    refine ⟨shard, e, hstored, haction, node, hnode, ?_⟩
    rw [viewFromEntry, hnode] at hview
    exact congrArg ConsultationView.subjectId (Option.some.inj hview)
  · rintro ⟨shard, e, hstored, haction, node, hnode, rfl⟩
    refine ⟨_, hlist, viewOf node e.hash, (hmem _).mpr ⟨e, ?_, ?_⟩, rfl⟩
    · -- the shard of an act stands among those of the acts
      have hact : (shard, e) ∈ byTime stamp (prlAction .consultation) s :=
        mem_byTime.mpr (mem_shardActs.mpr ⟨hstored, haction⟩)
      exact List.mem_flatMap.mpr ⟨shard, Dict.mem_keys_group.mpr ⟨_, hact, rfl⟩,
        mem_shardActs.mpr ⟨hstored, haction⟩⟩
    · rw [viewFromEntry, hnode]
      rfl

/-- **Each summary says what the queries for its subject say, and there is one for each
subject.** -/
theorem discovery_agrees (lib : Library F) (lower : PyStr → PyStr) (stamp : Datetime → ℚ)
    (s : Store F) :
    (∀ idx filters summaries,
      discoverObjects lib (rrProjection s idx) lower filters = .ok summaries →
        (∀ sm ∈ summaries, SummaryAgrees lib (rrProjection s idx) sm) ∧
          (summaries.map KnowledgeObjectSummary.subjectId).Nodup ∧
          (filters = .none → ∀ subject,
            subject ∈ summaries.map KnowledgeObjectSummary.subjectId ↔
              ∃ views, consultations lib (rrProjection s idx) none none = .ok views ∧
                ∃ v ∈ views, v.subjectId = subject)) ∧
      (Certified lib s → ∀ idx, buildIndex stamp batchSize s = some idx →
        (∀ filters, ∃ summaries,
          discoverObjects lib (rrProjection s idx) lower filters = .ok summaries) ∧
        ∀ summaries, discoverObjects lib (rrProjection s idx) lower .none = .ok summaries →
          ∀ subject, subject ∈ summaries.map KnowledgeObjectSummary.subjectId ↔
            Concerns lib s subject) := by
  refine ⟨?_, ?_⟩
  · intro idx filters summaries h
    refine ⟨summaryAgrees h, nodup_summaries h, ?_⟩
    rintro rfl subject
    exact mem_summaries_listed h
  · intro hs idx hidx
    refine ⟨exists_discoverObjects hs hidx, ?_⟩
    intro summaries h subject
    exact (mem_summaries_listed h).trans (listed_iff_concerns hs hidx)

end

/-- The subjects of the two acts of the sample are listed. -/
theorem discovery_agrees_sample : ∃ (s : Store FloatLit) (idx : RRIndex FloatLit)
    (summaries : List KnowledgeObjectSummary),
    commitActs sampleLibrary noTime Store.empty [firstAct, secondAct] = some s ∧
      buildIndex sampleClock batchSize s = some idx ∧
      discoverObjects sampleLibrary (rrProjection s idx) id .none = .ok summaries ∧
      ∀ subject, subject ∈ summaries.map KnowledgeObjectSummary.subjectId ↔
        Concerns sampleLibrary s subject := by
  obtain ⟨s, -, -, hcommit, -, -, -, -, -, hs, hidx⟩ := exists_sampleStore
  obtain ⟨hlisted, hconcerns⟩ := (discovery_agrees sampleLibrary id sampleClock s).2 hs _ hidx
  obtain ⟨summaries, hsummaries⟩ := hlisted .none
  exact ⟨s, _, summaries, hcommit, hidx, hsummaries, hconcerns summaries hsummaries⟩

end Projections

end Daryl
