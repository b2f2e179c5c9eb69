import Daryl.Dsm.Isolation
import Daryl.Json.Scan
import Daryl.Lib.Tally
import Daryl.Py.Eq

/-!
# `audit_shard`

A policy, and the audit of a shard against it: one pass over the newest entries, in the
order in which they were written, and then the counts of the sessions.  The texts of the
violations, but for the rule, are left out; a count that is too high is a `TypeError` where
the session id has no slice.

## Main definitions

* `Policy`, `auditEntry`, `auditShard` — the policy, the pass and the report.
* `Disk.allEntries` — all entries of a shard.
* `Passes` — what the audit asks of the entries it reads.
* `Obeys` — what the policy asks of a shard.
* `Shown` — nothing in the shard lies outside what the audit looks at.

## Main results

* `compliant_iff` — the audit says `COMPLIANT` iff the entries it reads pass.
* `sound_iff` — **a shard that is found compliant obeys, whatever the policy, exactly when
  it is shown to the audit.**
* `unnamed_compliant` — an intent without a name, which no list allows.
-/

namespace Daryl

open Py Json

namespace Audit

/-! ### Policies and violations -/

/-- The lists of a `Policy`; where there is no list, everything is allowed. -/
structure Policy (F : Type) where
  allowedActions : Option (List (PyVal F))
  forbiddenActions : List (PyVal F)
  allowedSources : Option (List (PyVal F))
  maxActionsPerSession : Option ℤ
  allowedShards : Option (List (PyVal F))

/-- The policy that allows everything. -/
def Policy.open (F : Type) : Policy F := ⟨none, [], none, none, none⟩

/-- The rule a violation names. -/
inductive Rule
  | allowedShards
  | allowedSources
  | forbiddenActions
  | allowedActions
  | maxActionsPerSession
  deriving DecidableEq

/-- A `PolicyViolation`. -/
structure PolicyViolation (F : Type) where
  entryId : PyVal F
  timestamp : PyStr
  rule : Rule
  actionName : PyVal F
  sessionId : PyVal F

/-- `status` of the report. -/
inductive AuditStatus
  | compliant
  | violationsFound
  deriving DecidableEq

/-- What `audit_shard` returns. -/
structure AuditReport (F : Type) where
  shardId : PyStr
  totalEntries : ℕ
  actionsChecked : ℕ
  violations : List (PolicyViolation F)
  violationCount : ℕ
  sessionsChecked : ℕ
  status : AuditStatus

variable {F : Type} [PyFloat F]

/-! ### What an entry says -/

/-- `entry.metadata.get(k, "")`. -/
def metaText (e : Entry F) (k : PyStr) : PyVal F :=
  match e.metadata with
  | .dict kvs => (dictGet k kvs).getD (.str [])
  | _ => .str []

/-- `event_type == "action_intent"`. -/
def isIntent (e : Entry F) : Bool := pyEq (metaText e (py "event_type")) (.str (py "action_intent"))

/-- `event_type == "session_start"`. -/
def isStart (e : Entry F) : Bool := pyEq (metaText e (py "event_type")) (.str (py "session_start"))

/-- `action_name`. -/
def actionName (e : Entry F) : PyVal F := metaText e (py "action_name")

/-- An intent that the audit checks: its action has a name. -/
def isNamed (e : Entry F) : Bool := isIntent e && (actionName e).truthy

/-- `entry.metadata.get("source") or entry.source`. -/
def startSource (e : Entry F) : PyVal F :=
  match e.metadata with
  | .dict kvs => pyOr (getNone (py "source") kvs) e.source
  | _ => e.source

/-! ### The pass -/

/-- What the loop has gathered. -/
structure AuditState (F : Type) where
  violations : List (PolicyViolation F)
  actionsChecked : ℕ
  sessionActionCounts : List (PyVal F × ℕ)
  sessionsSeen : List (PyVal F)

/-- Before the loop. -/
def AuditState.start (F : Type) : AuditState F := ⟨[], 0, [], []⟩

/-- The check of the shard. -/
def shardViolations (policy : Policy F) (e : Entry F) : List (PolicyViolation F) :=
  match policy.allowedShards with
  | none => []
  | some allowed =>
    if pyIn e.shard allowed then []
    else [⟨e.id, e.timestamp.isoformat, .allowedShards, .none, e.sessionId⟩]

/-- The check of the source. -/
def sourceViolations (policy : Policy F) (e : Entry F) : List (PolicyViolation F) :=
  match policy.allowedSources with
  | none => []
  | some allowed =>
    if pyIn (startSource e) allowed then []
    else [⟨e.id, e.timestamp.isoformat, .allowedSources, .none, e.sessionId⟩]

/-- The check of the action; what is forbidden is not looked up among what is allowed. -/
def actionViolations (policy : Policy F) (e : Entry F) : List (PolicyViolation F) :=
  if pyIn (actionName e) policy.forbiddenActions then
    [⟨e.id, e.timestamp.isoformat, .forbiddenActions, actionName e, e.sessionId⟩]
  else
    match policy.allowedActions with
    | none => []
    | some allowed =>
      if pyIn (actionName e) allowed then []
      else [⟨e.id, e.timestamp.isoformat, .allowedActions, actionName e, e.sessionId⟩]

/-- The violations of one entry. -/
def entryViolations (policy : Policy F) (e : Entry F) : List (PolicyViolation F) :=
  shardViolations policy e ++ (if isStart e then sourceViolations policy e else []) ++
    if isNamed e then actionViolations policy e else []

/-- The loop body. -/
def auditEntry (policy : Policy F) (st : AuditState F) (e : Entry F) :
    Except PyError (AuditState F) :=
  match e.metadata with
  | .dict _ =>
    if e.sessionId.hashes then
      .ok
        { violations := st.violations ++ entryViolations policy e
          actionsChecked := if isNamed e then st.actionsChecked + 1 else st.actionsChecked
          sessionActionCounts :=
            if isNamed e then Tally.bump pySame e.sessionId st.sessionActionCounts
            else st.sessionActionCounts
          sessionsSeen :=
            if pyIn e.sessionId st.sessionsSeen then st.sessionsSeen
            else st.sessionsSeen ++ [e.sessionId] }
    else .error .typeError
  | _ => .error .attributeError

/-- `sid[:12]` does not raise. -/
def sliceable : PyVal F → Bool
  | .str _ => true
  | .tuple _ => true
  | .list _ => true
  | _ => false

/-- The loop over the counts. -/
def countViolations (limit : ℤ) : List (PyVal F × ℕ) → Except PyError (List (PolicyViolation F))
  | [] => .ok []
  | (sid, count) :: counts =>
    if limit < count then
      if sliceable sid then
        (countViolations limit counts).map
          (⟨.str (py "session_aggregate"), [], .maxActionsPerSession, .none, sid⟩ :: ·)
      else .error .typeError
    else countViolations limit counts

/-- The check of the counts. -/
def sessionViolations (policy : Policy F) (counts : List (PyVal F × ℕ)) :
    Except PyError (List (PolicyViolation F)) :=
  match policy.maxActionsPerSession with
  | none => .ok []
  | some limit => countViolations limit counts

/-- The report on the entries that were read, oldest first. -/
def auditEntries (shardId : PyStr) (policy : Policy F) (entries : List (Entry F)) :
    Except PyError (AuditReport F) :=
  (entries.foldlM (auditEntry policy) (AuditState.start F)).bind fun st =>
    (sessionViolations policy st.sessionActionCounts).map fun late =>
      let violations := st.violations ++ late
      { shardId
        totalEntries := entries.length
        actionsChecked := st.actionsChecked
        violations
        violationCount := violations.length
        sessionsChecked := st.sessionsSeen.length
        status := if violations.length = 0 then .compliant else .violationsFound }

/-- The limit of the read. -/
def auditLimit : ℕ := 100000

/-- `audit_shard`. -/
def auditShard (d : Disk F) (shardId : PyStr) (policy : Policy F) :
    Except PyError (AuditReport F) :=
  (d.read shardId 0 auditLimit).bind fun newest => auditEntries shardId policy newest.reverse

/-! ### When the audit finds nothing -/

/-- The loop gets past the entry. -/
structure Readable (e : Entry F) : Prop where
  metadata : ∃ kvs, e.metadata = .dict kvs
  sessionId : e.sessionId.hashes = true

/-- The loop gets past an entry iff it is readable, and then it adds its violations and, for
a named intent, one to the count of its session. -/
theorem auditEntry_eq_ok {policy : Policy F} {st st' : AuditState F} {e : Entry F} :
    auditEntry policy st e = .ok st' ↔ Readable e ∧
      st' =
        { violations := st.violations ++ entryViolations policy e
          actionsChecked := if isNamed e then st.actionsChecked + 1 else st.actionsChecked
          sessionActionCounts :=
            if isNamed e then Tally.bump pySame e.sessionId st.sessionActionCounts
            else st.sessionActionCounts
          sessionsSeen :=
            if pyIn e.sessionId st.sessionsSeen then st.sessionsSeen
            else st.sessionsSeen ++ [e.sessionId] } := by
  unfold auditEntry
  constructor
  · intro h
    split at h
    · next kvs hkvs =>
      split at h
      · next hhash => exact ⟨⟨⟨kvs, hkvs⟩, hhash⟩, (Except.ok.inj h).symm⟩
      · cases h
    · cases h
  · rintro ⟨⟨⟨kvs, hkvs⟩, hhash⟩, rfl⟩
    rw [hkvs]
    simp only [hhash, if_true]

/-- The session ids of the named intents. -/
def namedSessions (es : List (Entry F)) : List (PyVal F) := (es.filter isNamed).map Entry.sessionId

/-- The loop gathers the violations of all entries and counts the named intents. -/
theorem foldlM_auditEntry {policy : Policy F} {es : List (Entry F)} {st : AuditState F} :
    es.foldlM (auditEntry policy) (AuditState.start F) = .ok st →
      (∀ e ∈ es, Readable e) ∧ st.violations = es.flatMap (entryViolations policy) ∧
        st.sessionActionCounts = Tally.tally pySame (namedSessions es) := by
  induction es using List.reverseRecOn generalizing st with
  | nil =>
    intro h
    obtain rfl := Except.ok.inj h
    exact ⟨by simp, rfl, rfl⟩
  | append_singleton es e ih =>
    intro h
    rw [List.foldlM_append] at h
    cases hes : es.foldlM (auditEntry policy) (AuditState.start F) with
    | error err =>
      rw [hes] at h
      cases h
    | ok st₀ =>
      obtain ⟨hread, hviol, hcounts⟩ := ih hes
      rw [hes] at h
      simp only [List.foldlM_cons, List.foldlM_nil, bind_pure] at h
      obtain ⟨he, rfl⟩ := auditEntry_eq_ok.mp h
      refine ⟨?_, ?_, ?_⟩
      · intro x hx
        rcases List.mem_append.mp hx with hx | hx
        · exact hread x hx
        · exact List.mem_singleton.mp hx ▸ he
      · simp [hviol]
      · simp only [hcounts, namedSessions, List.filter_append]
        cases hnamed : isNamed e with
        | true => simp [hnamed, Tally.tally_concat]
        | false => simp [hnamed]

/-- And it gets to the end where all entries are readable. -/
theorem exists_foldlM_auditEntry (policy : Policy F) {es : List (Entry F)}
    (h : ∀ e ∈ es, Readable e) (st : AuditState F) :
    ∃ st', es.foldlM (auditEntry policy) st = .ok st' := by
  induction es generalizing st with
  | nil => exact ⟨st, rfl⟩
  | cons e es ih =>
    rw [List.forall_mem_cons] at h
    rw [List.foldlM_cons, auditEntry_eq_ok.mpr ⟨h.1, rfl⟩]
    exact ih h.2 _

theorem shardViolations_eq_nil {policy : Policy F} {e : Entry F} :
    shardViolations policy e = [] ↔
      ∀ allowed, policy.allowedShards = some allowed → pyIn e.shard allowed = true := by
  unfold shardViolations
  cases policy.allowedShards <;> simp

theorem sourceViolations_eq_nil {policy : Policy F} {e : Entry F} :
    sourceViolations policy e = [] ↔
      ∀ allowed, policy.allowedSources = some allowed → pyIn (startSource e) allowed = true := by
  unfold sourceViolations
  cases policy.allowedSources <;> simp

theorem actionViolations_eq_nil {policy : Policy F} {e : Entry F} :
    actionViolations policy e = [] ↔ pyIn (actionName e) policy.forbiddenActions = false ∧
      ∀ allowed, policy.allowedActions = some allowed → pyIn (actionName e) allowed = true := by
  unfold actionViolations
  cases pyIn (actionName e) policy.forbiddenActions <;> cases policy.allowedActions <;> simp

omit [PyFloat F] in
/-- The counts make no violation iff none is over the limit. -/
theorem countViolations_eq_nil {limit : ℤ} {counts : List (PyVal F × ℕ)} :
    countViolations limit counts = .ok [] ↔ ∀ a ∈ counts, (a.2 : ℤ) ≤ limit := by
  induction counts with
  | nil => simp [countViolations]
  | cons a counts ih =>
    rw [countViolations, List.forall_mem_cons, ← ih, ← not_lt]
    split
    · next hlt =>
      split
      · cases countViolations limit counts <;> simp [Except.map, hlt]
      · simp [hlt]
    · next hlt => simp [hlt]

/-- What the audit asks of the entries it reads. -/
structure Passes (policy : Policy F) (es : List (Entry F)) : Prop where
  readable : ∀ e ∈ es, Readable e
  shards : ∀ allowed, policy.allowedShards = some allowed →
    ∀ e ∈ es, pyIn e.shard allowed = true
  sources : ∀ allowed, policy.allowedSources = some allowed →
    ∀ e ∈ es, isStart e = true → pyIn (startSource e) allowed = true
  notForbidden : ∀ e ∈ es, isNamed e = true → pyIn (actionName e) policy.forbiddenActions = false
  actions : ∀ allowed, policy.allowedActions = some allowed →
    ∀ e ∈ es, isNamed e = true → pyIn (actionName e) allowed = true
  counts : ∀ limit, policy.maxActionsPerSession = some limit →
    ∀ a ∈ Tally.tally pySame (namedSessions es), (a.2 : ℤ) ≤ limit

theorem flatMap_entryViolations_eq_nil {policy : Policy F} {es : List (Entry F)} :
    es.flatMap (entryViolations policy) = [] ↔
      (∀ allowed, policy.allowedShards = some allowed → ∀ e ∈ es, pyIn e.shard allowed = true) ∧
      (∀ allowed, policy.allowedSources = some allowed →
        ∀ e ∈ es, isStart e = true → pyIn (startSource e) allowed = true) ∧
      (∀ e ∈ es, isNamed e = true → pyIn (actionName e) policy.forbiddenActions = false) ∧
      ∀ allowed, policy.allowedActions = some allowed →
        ∀ e ∈ es, isNamed e = true → pyIn (actionName e) allowed = true := by
  have hentry : ∀ e : Entry F, entryViolations policy e = [] ↔ shardViolations policy e = [] ∧
      (isStart e = true → sourceViolations policy e = []) ∧
        (isNamed e = true → actionViolations policy e = []) := by
    intro e
    unfold entryViolations
    cases isStart e <;> cases isNamed e <;> simp
  simp only [List.flatMap_eq_nil_iff, hentry, shardViolations_eq_nil, sourceViolations_eq_nil,
    actionViolations_eq_nil]
  constructor
  · intro h
    exact ⟨fun l hl e he => (h e he).1 l hl, fun l hl e he hs => (h e he).2.1 hs l hl,
      fun e he hn => ((h e he).2.2 hn).1, fun l hl e he hn => ((h e he).2.2 hn).2 l hl⟩
  · rintro ⟨hshard, hsource, hforbid, hallow⟩ e he
    exact ⟨fun l hl => hshard l hl e he, fun hs l hl => hsource l hl e he hs,
      fun hn => ⟨hforbid e he hn, fun l hl => hallow l hl e he hn⟩⟩

/-- **The audit says `COMPLIANT` iff the entries it reads pass.** -/
theorem compliant_iff (shardId : PyStr) {policy : Policy F} {es : List (Entry F)} :
    (∃ r, auditEntries shardId policy es = .ok r ∧ r.status = .compliant) ↔ Passes policy es := by
  have hlate : ∀ {counts : List (PyVal F × ℕ)}, sessionViolations policy counts = .ok [] ↔
      ∀ limit, policy.maxActionsPerSession = some limit → ∀ a ∈ counts, (a.2 : ℤ) ≤ limit := by
    intro counts
    unfold sessionViolations
    cases policy.maxActionsPerSession <;> simp [countViolations_eq_nil]
  unfold auditEntries
  constructor
  · rintro ⟨r, hr, hstatus⟩
    cases hloop : es.foldlM (auditEntry policy) (AuditState.start F) with
    | error err =>
      rw [hloop] at hr
      cases hr
    | ok st =>
      obtain ⟨hread, hviol, hcounts⟩ := foldlM_auditEntry hloop
      rw [hloop] at hr
      simp only [Except.bind] at hr
      cases hsess : sessionViolations policy st.sessionActionCounts with
      | error err =>
        rw [hsess] at hr
        cases hr
      | ok late =>
        rw [hsess] at hr
        obtain rfl := Except.ok.inj hr
        -- no violation of an entry, and none of a count
        have hnil : st.violations ++ late = [] := by
          by_contra hne
          simp only [List.length_eq_zero_iff, if_neg hne] at hstatus
          cases hstatus
        obtain ⟨hnone, rfl⟩ := List.append_eq_nil_iff.mp hnil
        rw [hviol] at hnone
        obtain ⟨hshard, hsource, hforbid, hallow⟩ := flatMap_entryViolations_eq_nil.mp hnone
        exact ⟨hread, hshard, hsource, hforbid, hallow, hcounts ▸ hlate.mp hsess⟩
  · intro h
    obtain ⟨st, hloop⟩ := exists_foldlM_auditEntry policy h.readable (AuditState.start F)
    obtain ⟨-, hviol, hcounts⟩ := foldlM_auditEntry hloop
    have hsess : sessionViolations policy st.sessionActionCounts = .ok [] :=
      hlate.mpr (hcounts ▸ h.counts)
    have hnone : st.violations = [] := by
      rw [hviol]
      exact flatMap_entryViolations_eq_nil.mpr ⟨h.shards, h.sources, h.notForbidden, h.actions⟩
    rw [hloop]
    simp only [Except.bind]
    rw [hsess, hnone]
    exact ⟨_, rfl, rfl⟩

/-! ### What a policy asks of a shard -/

/-- How many intents the session has. -/
def intentsOf (es : List (Entry F)) (sessionId : PyVal F) : ℕ :=
  es.countP fun e => isIntent e && pySame sessionId e.sessionId

/-- And how many of them are named. -/
def namedIntentsOf (es : List (Entry F)) (sessionId : PyVal F) : ℕ :=
  es.countP fun e => isNamed e && pySame sessionId e.sessionId

/-- **What the policy asks of a shard**: of its id, and of all its entries. -/
structure Obeys (policy : Policy F) (shardId : PyStr) (es : List (Entry F)) : Prop where
  notForbidden : ∀ e ∈ es, isIntent e = true →
    pyIn (actionName e) policy.forbiddenActions = false
  actions : ∀ allowed, policy.allowedActions = some allowed →
    ∀ e ∈ es, isIntent e = true → pyIn (actionName e) allowed = true
  sources : ∀ allowed, policy.allowedSources = some allowed →
    ∀ e ∈ es, isStart e = true → pyIn (startSource e) allowed = true
  shard : ∀ allowed, policy.allowedShards = some allowed → pyIn (.str shardId) allowed = true
  counts : ∀ limit, policy.maxActionsPerSession = some limit →
    ∀ e ∈ es, isIntent e = true → (intentsOf es e.sessionId : ℤ) ≤ limit

/-- The newest entries, oldest first: what the audit reads. -/
def newest (es : List (Entry F)) : List (Entry F) := (es.reverse.take auditLimit).reverse

/-- **Nothing in the shard lies outside what the audit looks at**: of the newest entries one
carries the id of the shard; every action of an intent is the name of one of their intents;
every source of a session is the one of a start among them; and no session has more intents
than one has named ones among them. -/
structure Shown (shardId : PyStr) (es : List (Entry F)) : Prop where
  shard : ∃ e ∈ newest es, e.shard = .str shardId
  actions : ∀ e ∈ es, isIntent e = true →
    ∃ x ∈ newest es, isNamed x = true ∧ pySame (actionName e) (actionName x) = true
  sources : ∀ e ∈ es, isStart e = true →
    ∃ x ∈ newest es, isStart x = true ∧ pySame (startSource e) (startSource x) = true
  counts : ∀ e ∈ es, isIntent e = true → ∃ x ∈ newest es, isNamed x = true ∧
    intentsOf es e.sessionId ≤ namedIntentsOf (newest es) x.sessionId

/-! ### Values of entries that were read -/

/-- The values an audit compares were read from JSON. -/
structure FromJson (e : Entry F) : Prop where
  metadata : form e.metadata = e.metadata
  sessionId : form e.sessionId = e.sessionId
  source : form e.source = e.source
  shard : form e.shard = e.shard

theorem FromJson.metaText {e : Entry F} (h : FromJson e) (k : PyStr) :
    form (metaText e k) = metaText e k := by
  unfold Audit.metaText
  split
  · next kvs hkvs => exact form_getD (hkvs ▸ h.metadata) k rfl
  · rfl

theorem FromJson.startSource {e : Entry F} (h : FromJson e) :
    form (startSource e) = startSource e := by
  unfold Audit.startSource
  split
  · next kvs hkvs =>
    unfold pyOr
    split
    · exact form_getD (hkvs ▸ h.metadata) _ rfl
    · exact h.source
  · exact h.source

/-- **What is read of a shard was read from JSON.** -/
theorem fromJson_of_entries {d : Disk F} {shardId : PyStr} {es : List (Entry F)}
    (h : d.allEntries shardId = .ok es) : ∀ e ∈ es, FromJson e := by
  have hevents : ∀ {lines : List PyStr}, entriesOf (lines.filterMap lineEvent) = .ok es →
      ∀ e ∈ es, FromJson e := by
    intro lines hes e he
    obtain ⟨event, hevent, hentry⟩ := mem_entriesOf hes e he
    obtain ⟨line, -, hline⟩ := List.mem_filterMap.mp hevent
    have hform : form event = event := by
      unfold lineEvent at hline
      split_ifs at hline
      exact form_of_loads hline
    obtain ⟨kvs, text, ts, rfl, -, -, rfl⟩ := entryFromEventData_eq_ok.mp hentry
    exact ⟨form_getD hform _ rfl, form_getD hform _ rfl, form_getD hform _ rfl,
      form_getD hform _ rfl⟩
  unfold Disk.allEntries at h
  split at h
  · next fam hfam =>
    unfold chronoEntries iterShardEvents at h
    cases htexts : (getSegmentFiles fam).mapM fun f => textLines f.2 with
    | error err =>
      rw [htexts] at h
      cases h
    | ok texts =>
      rw [htexts] at h
      exact hevents h
  · split at h
    · next bs hbs =>
      cases hlines : textLines bs with
      | error err =>
        rw [hlines] at h
        cases h
      | ok lines =>
        rw [hlines] at h
        exact hevents h
    · split at h
      · cases h
      · obtain rfl := Except.ok.inj h
        simp

/-! ### What the audit is worth -/

/-- On values read from JSON the test is an equivalence. -/
theorem equates_json : Tally.Equates pySame fun v : PyVal F => form v = v :=
  ⟨pySame_refl, pySame_symm, pySame_trans⟩

theorem countP_namedSessions (es : List (Entry F)) (sessionId : PyVal F) :
    (namedSessions es).countP (pySame sessionId) = namedIntentsOf es sessionId := by
  unfold namedSessions namedIntentsOf
  rw [List.countP_map, List.countP_filter]
  refine List.countP_congr fun e _ => ?_
  simp [and_comm]

/-- The counts of the sessions, said of the named intents. -/
theorem forall_counts_iff {es : List (Entry F)} (h : ∀ e ∈ es, FromJson e) {limit : ℤ} :
    (∀ a ∈ Tally.tally pySame (namedSessions es), (a.2 : ℤ) ≤ limit) ↔
      ∀ e ∈ es, isNamed e = true → (namedIntentsOf es e.sessionId : ℤ) ≤ limit := by
  have hjson : ∀ s ∈ namedSessions es, form s = s := by
    intro s hs
    obtain ⟨e, he, rfl⟩ := List.mem_map.mp hs
    exact (h e (List.mem_of_mem_filter he)).sessionId
  rw [Tally.forall_tally_iff equates_json hjson (Q := fun n => (n : ℤ) ≤ limit)]
  simp only [countP_namedSessions]
  simp only [namedSessions, List.forall_mem_map, List.mem_filter, and_imp]

omit [PyFloat F] in
theorem mem_newest {es : List (Entry F)} {e : Entry F} (h : e ∈ newest es) : e ∈ es :=
  List.mem_reverse.mp (List.mem_of_mem_take (List.mem_reverse.mp h))

/-- The audit of a shard is the audit of its newest entries. -/
theorem auditShard_eq {d : Disk F} {shardId : PyStr} {es : List (Entry F)}
    (h : d.allEntries shardId = .ok es) (policy : Policy F) :
    auditShard d shardId policy = auditEntries shardId policy (newest es) := by
  unfold auditShard
  rw [read_of_entries h (by decide)]
  rfl

/-- A shard that is shown obeys every policy that its newest entries pass. -/
theorem Shown.obeys {shardId : PyStr} {es : List (Entry F)} (hjson : ∀ e ∈ es, FromJson e)
    (h : Shown shardId es) {policy : Policy F} (hpass : Passes policy (newest es)) :
    Obeys policy shardId es := by
  refine ⟨fun e he hi => ?_, fun l hl e he hi => ?_, fun l hl e he hs => ?_, fun l hl => ?_,
    fun n hn e he hi => ?_⟩
  · obtain ⟨x, hx, hnamed, hsame⟩ := h.actions e he hi
    by_contra hin
    rw [Bool.not_eq_false] at hin
    obtain ⟨f, hf, hef⟩ := pyIn_iff.mp hin
    -- what is forbidden is then the name of the intent that was checked
    have hback := pySame_symm ((hjson e he).metaText _) ((hjson x (mem_newest hx)).metaText _) hsame
    have hxin : pyIn (actionName x) policy.forbiddenActions = true :=
      pyIn_iff.mpr ⟨f, hf, pySame_trans hback hef⟩
    rw [hpass.notForbidden x hx hnamed] at hxin
    cases hxin
  · obtain ⟨x, hx, hnamed, hsame⟩ := h.actions e he hi
    obtain ⟨a, ha, hxa⟩ := pyIn_iff.mp (hpass.actions l hl x hx hnamed)
    exact pyIn_iff.mpr ⟨a, ha, pySame_trans hsame hxa⟩
  · obtain ⟨x, hx, hstart, hsame⟩ := h.sources e he hs
    obtain ⟨a, ha, hxa⟩ := pyIn_iff.mp (hpass.sources l hl x hx hstart)
    exact pyIn_iff.mpr ⟨a, ha, pySame_trans hsame hxa⟩
  · obtain ⟨x, hx, hshard⟩ := h.shard
    exact hshard ▸ hpass.shards l hl x hx
  · obtain ⟨x, hx, hnamed, hle⟩ := h.counts e he hi
    have hbound := (forall_counts_iff fun e he => hjson e (mem_newest he)).mp (hpass.counts n hn)
      x hx hnamed
    omega

/-- The open policy, but for one list or limit, is passed where that one is. -/
theorem passes_open {es : List (Entry F)} (h : ∀ e ∈ es, Readable e) :
    Passes (Policy.open F) es where
  readable := h
  shards := nofun
  sources := nofun
  notForbidden := fun _ _ _ => rfl
  actions := nofun
  counts := nofun

/-- **A shard whose newest entries can be read, and which obeys every policy that they pass,
is shown.**  The policies that allow no more than what is there are enough. -/
theorem shown_of_obeys {shardId : PyStr} {es : List (Entry F)} (hjson : ∀ e ∈ es, FromJson e)
    (hread : ∀ e ∈ newest es, Readable e)
    (h : ∀ policy, Passes policy (newest es) → Obeys policy shardId es) : Shown shardId es := by
  have hopen := passes_open hread
  have hnew : ∀ e ∈ newest es, FromJson e := fun e he => hjson e (mem_newest he)
  have hself : ∀ {f : Entry F → PyVal F} {p : Entry F → Bool},
      (∀ e ∈ newest es, form (f e) = f e) → ∀ e ∈ newest es, p e = true →
        pyIn (f e) (((newest es).filter p).map f) = true := by
    intro f p hf e he hp
    have hmem := List.mem_map_of_mem (f := f) (List.mem_filter.mpr ⟨he, hp⟩)
    exact pyIn_iff.mpr ⟨f e, hmem, pySame_refl (hf e he)⟩
  have hfind : ∀ {f : Entry F → PyVal F} {p : Entry F → Bool} {v : PyVal F},
      pyIn v (((newest es).filter p).map f) = true →
        ∃ x ∈ newest es, p x = true ∧ pySame v (f x) = true := by
    intro f p v hin
    obtain ⟨w, hw, hsame⟩ := pyIn_iff.mp hin
    obtain ⟨x, hx, rfl⟩ := List.mem_map.mp hw
    obtain ⟨hx, hp⟩ := List.mem_filter.mp hx
    exact ⟨x, hx, hp, hsame⟩
  refine ⟨?_, fun e he hi => ?_, fun e he hs => ?_, fun e he hi => ?_⟩
  · let allowed := ((newest es).filter fun _ => true).map Entry.shard
    have hobeys := h { Policy.open F with allowedShards := some allowed }
      { hopen with
        shards := fun l hl e he => Option.some.inj hl ▸ hself (fun e he => (hnew e he).shard) e he rfl }
    obtain ⟨x, hx, -, hsame⟩ := hfind (hobeys.shard allowed rfl)
    exact ⟨x, hx, pySame_str_left.mp hsame⟩
  · let allowed := ((newest es).filter isNamed).map actionName
    have hobeys := h { Policy.open F with allowedActions := some allowed }
      { hopen with
        actions := fun l hl e he hn =>
          Option.some.inj hl ▸ hself (fun e he => (hnew e he).metaText _) e he hn }
    exact hfind (hobeys.actions allowed rfl e he hi)
  · let allowed := ((newest es).filter isStart).map startSource
    have hobeys := h { Policy.open F with allowedSources := some allowed }
      { hopen with
        sources := fun l hl e he hs =>
          Option.some.inj hl ▸ hself (fun e he => (hnew e he).startSource) e he hs }
    exact hfind (hobeys.sources allowed rfl e he hs)
  · -- a limit just below the count would be passed otherwise
    by_contra hnone
    have hobeys := h { Policy.open F with maxActionsPerSession := some (intentsOf es e.sessionId - 1) }
      { hopen with
        counts := fun n hn => (forall_counts_iff hnew).mpr fun x hx hnamed => by
          rw [← Option.some.inj hn]
          have hlt : ¬ intentsOf es e.sessionId ≤ namedIntentsOf (newest es) x.sessionId :=
            fun hle => hnone ⟨x, hx, hnamed, hle⟩
          omega }
    have := hobeys.counts _ rfl e he hi
    omega

/-- **For one policy**, a shard that is found compliant obeys it exactly when it does so if its
newest entries pass. -/
theorem sound_policy_iff {d : Disk F} {shardId : PyStr} {es : List (Entry F)}
    (h : d.allEntries shardId = .ok es) (policy : Policy F) :
    (∀ r, auditShard d shardId policy = .ok r → r.status = .compliant → Obeys policy shardId es) ↔
      (Passes policy (newest es) → Obeys policy shardId es) := by
  simp only [auditShard_eq h]
  constructor
  · intro hsound hpass
    obtain ⟨r, hr, hstatus⟩ := (compliant_iff shardId).mpr hpass
    exact hsound r hr hstatus
  · intro hobeys r hr hstatus
    exact hobeys ((compliant_iff shardId).mp ⟨r, hr, hstatus⟩)

/-- **Whatever the policy, a shard that is found compliant obeys it, exactly when the audit
fails at one of its newest entries or everything in the shard is shown to it.** -/
theorem sound_iff {d : Disk F} {shardId : PyStr} {es : List (Entry F)}
    (h : d.allEntries shardId = .ok es) :
    (∀ policy r, auditShard d shardId policy = .ok r → r.status = .compliant →
        Obeys policy shardId es) ↔
      (∃ e ∈ newest es, ¬ Readable e) ∨ Shown shardId es := by
  have hjson := fromJson_of_entries h
  refine (forall_congr' fun policy => sound_policy_iff h policy).trans ?_
  constructor
  · intro hsound
    by_cases hread : ∀ e ∈ newest es, Readable e
    · exact Or.inr (shown_of_obeys hjson hread hsound)
    · push Not at hread
      exact Or.inl hread
  · intro hcond policy hpass
    rcases hcond with ⟨e, he, hbad⟩ | hshown
    · exact absurd (hpass.readable e he) hbad
    · exact hshown.obeys hjson hpass

/-- One intent without a name. -/
def unnamedDisk : Disk FloatLit :=
  diskAfter sampleConfig [(sampleTime, sampleEntry (py "act")
    (.dict [(.str (py "event_type"), .str (py "action_intent")), (.str (py "action_name"), .str [])]))]

/-- A list of one action. -/
def searchOnly : Policy FloatLit :=
  { Policy.open FloatLit with allowedActions := some [.str (py "search")] }

/-- What is read of the sample. -/
theorem exists_entries_unnamedDisk : ∃ es, unnamedDisk.allEntries (py "default") = .ok es ∧
    ∃ e ∈ es, isIntent e = true ∧ pyIn (actionName e) [.str (py "search")] = false := by
  have hany : (unnamedDisk.allEntries (py "default")).map (fun es =>
      es.any fun e => isIntent e && !pyIn (actionName e) [.str (py "search")]) = .ok true := by
    decide +kernel
  cases hes : unnamedDisk.allEntries (py "default") with
  | error err =>
    rw [hes] at hany
    cases hany
  | ok es =>
    rw [hes] at hany
    obtain ⟨e, he, hbad⟩ := List.any_eq_true.mp (Except.ok.inj hany)
    rw [Bool.and_eq_true, Bool.not_eq_true'] at hbad
    exact ⟨es, rfl, e, he, hbad⟩

/-- What the audit of the sample is worth. -/
theorem sound_sample : ∃ es, unnamedDisk.allEntries (py "default") = .ok es ∧
    ((∀ policy r, auditShard unnamedDisk (py "default") policy = .ok r → r.status = .compliant →
        Obeys policy (py "default") es) ↔
      (∃ e ∈ newest es, ¬ Readable e) ∨ Shown (py "default") es) := by
  obtain ⟨es, hes, -⟩ := exists_entries_unnamedDisk
  exact ⟨es, hes, sound_iff hes⟩

/-- **An intent without a name is not looked up**: a shard with one is compliant, although no
list allows it. -/
theorem unnamed_compliant :
    (auditShard unnamedDisk (py "default") searchOnly).map AuditReport.status = .ok .compliant ∧
      ∃ es, unnamedDisk.allEntries (py "default") = .ok es ∧
        ¬ Obeys searchOnly (py "default") es := by
  refine ⟨by decide +kernel, ?_⟩
  obtain ⟨es, hes, e, he, hi, hnot⟩ := exists_entries_unnamedDisk
  refine ⟨es, hes, fun hobeys => ?_⟩
  rw [hobeys.actions _ rfl e he hi] at hnot
  cases hnot

end Audit

end Daryl
