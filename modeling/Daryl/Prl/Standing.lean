import Daryl.Lib.StableSort
import Daryl.Prl.Types
import Daryl.Rr.Directory
import Daryl.Rr.Navigator

/-!
# `prl.query.standing_read`: the standing of a claim

The standing of a claim is the decision of its latest resolution.  Resolutions are
appended to shards by `commit_act` and found again over the index: every shard is
scanned newest first, the bucket of the action is sorted by time, and the sort is
stable.  Two resolutions of one millisecond therefore come out in the order of the
scan, which within a shard is not the order they were committed in.

## Main definitions

* `CommitCall`, `commitAct`, `commitAll` — the writer and a sequence of its calls.
* `ResolutionFact`, `StandingView`, `deriveStanding` — the derivation.
* `resolutionsFor`, `standingOf` — the query.
* `TiesKeepOrder` — what the scan does to the decisions of one millisecond.

## Main results

* `scanned_calls` — the bucket, before the sort, is the calls in the order of the scan.
* `standing_follows_iff` — **the standing follows the order of the commits iff the ties
  keep it.**
-/

namespace Daryl

open Py

variable {F : Type} [PyFloat F]

/-! ### The writer -/

/-- A call of `commit_act`, with the reading of the clock, the id minted and the hash
the storage assigns.  The shard is the name of its directory, as the default is, and
`list_shards` shows it under this name. -/
structure CommitCall (F : Type) [PyFloat F] where
  node : ResolutionNode F
  runId : PyStr
  shard : PyStr
  now : Datetime
  id : PyStr
  hash : PyStr
  plain : PlainShard shard
  directory : familyName shard = shard

/-- The entry of a call; `none` is what the conversions raise. -/
def CommitCall.entry (c : CommitCall F) : Option (StoredEntry F) :=
  match toEntry c.node c.shard c.runId c.now with
  | .ok draft => draftToEntry draft c.id c.hash
  | .error _ => none

/-- `commit_act`. -/
def commitAct (s : Store F) (c : CommitCall F) : Option (Store F) := c.entry.map s.append

/-- Calls one after the other; the first that raises ends them. -/
def commitAll (s : Store F) (cs : List (CommitCall F)) : Option (Store F) := cs.foldlM commitAct s

/-! ### The derivation -/

/-- A resolution, reduced to its facts. -/
structure ResolutionFact where
  decision : ResolutionDecision
  resolver : PyStr
  receipt : PyStr
  agentId : PyStr
  carrier : PyStr
  orgId : PyStr
  deriving DecidableEq

/-- `_fact`. -/
def fact (e : StoredEntry F) (node : ResolutionNode F) : ResolutionFact where
  decision := node.decision
  resolver := node.mef.producer.val
  receipt := e.hash
  agentId := (node.mef.agentId.map Subtype.val).getD []
  carrier := (node.mef.carrier.map Carrier.short).getD []
  orgId := (node.orgId.map Subtype.val).getD []

/-- `sorted(set(...))`. -/
def sortedSet (xs : List PyStr) : List PyStr := xs.dedup.insertionSort (· ≤ ·)

/-- `detect_conflict`: two distinct authorities stand opposed, or one may be unknown. -/
def detectConflict (rs : List ResolutionFact) : Bool × List PyStr :=
  let accepted := rs.filter fun r => r.decision = .accepted
  let rejected := rs.filter fun r => r.decision = .rejected
  if accepted = [] ∨ rejected = [] then (false, [])
  else
    let aAuthors := (accepted.map ResolutionFact.agentId).filter (· ≠ [])
    let rAuthors := (rejected.map ResolutionFact.agentId).filter (· ≠ [])
    if aAuthors.any fun a => rAuthors.any fun b => a ≠ b then
      (true, sortedSet (aAuthors ++ rAuthors))
    else if (accepted.any fun r => r.agentId = []) || rejected.any fun r => r.agentId = [] then
      (true, sortedSet (aAuthors ++ rAuthors ++ [[]]))
    else (false, [])

/-- A standing, raw or governed. -/
inductive Standing
  | proposed
  | decided (d : ResolutionDecision)
  | contested
  deriving DecidableEq

/-- `derive_governed_standing`. -/
def deriveGovernedStanding (rawStanding : Standing) (conflict : Bool) : Standing :=
  if conflict then .contested else rawStanding

/-- The derived standing of a claim. -/
structure StandingView where
  claimId : PyStr
  standing : Standing
  decisions : List ResolutionDecision
  lastReceipt : PyStr
  conflict : Bool
  conflictParties : List PyStr
  governedStanding : Standing
  deriving DecidableEq

/-- `derive_standing`: the latest resolution wins. -/
def deriveStanding (claimId : PyStr) (resolutions : List ResolutionFact) : StandingView :=
  match resolutions.getLast? with
  | none => ⟨claimId, .proposed, [], [], false, [], deriveGovernedStanding .proposed false⟩
  | some last =>
    let conflict := detectConflict resolutions
    { claimId := claimId
      standing := .decided last.decision
      decisions := resolutions.map ResolutionFact.decision
      lastReceipt := last.receipt
      conflict := conflict.1
      conflictParties := conflict.2
      governedStanding := deriveGovernedStanding (.decided last.decision) conflict.1 }

/-! ### The query -/

/-- `DEFAULT_BATCH_SIZE` and `_RESOLVE_BATCH_SIZE`. -/
def batchSize : ℕ := 5000

/-- `_resolutions_for`, over an index: the bucket of the action in its order, joined to
the entries by id.  `none` is what `from_entry` raises. -/
def resolutionsFor (validate : PyVal F → Option (ResolutionNode F)) (s : Store F)
    (idx : RRIndex F) (claimId : PyStr) : Option (List (StoredEntry F × ResolutionNode F)) :=
  let records := navigateAction idx resolutionAction
  let entries := resolveEntries s batchSize records
  ((records.filterMap fun rec => byId entries rec.entryId).mapM fun e =>
    (fromEntry validate e).map fun node => (e, node)).map fun out =>
      out.filter fun p => p.2.targetClaimId.val = claimId

/-- `StandingQuery(storage, index_dir).standing_of(claim_id)`. -/
def standingOf (validate : PyVal F → Option (ResolutionNode F)) (stamp : Datetime → ℚ)
    (s : Store F) (claimId : PyStr) : Option StandingView :=
  (buildIndex stamp batchSize s).bind fun idx =>
    (resolutionsFor validate s idx claimId).map fun out =>
      deriveStanding claimId (out.map fun p => fact p.1 p.2)

/-! ### What the order of the commits makes of a claim -/

/-- The calls on a claim. -/
def callsOn (claimId : PyStr) (cs : List (CommitCall F)) : List (CommitCall F) :=
  cs.filter fun c => c.node.targetClaimId.val = claimId

/-- **The view follows the order of the commits**: its decisions are those committed for
the claim, in that order, and its standing is the last of them. -/
structure Follows (claimId : PyStr) (cs : List (CommitCall F)) (view : StandingView) : Prop where
  decisions : view.decisions = (callsOn claimId cs).map fun c => c.node.decision
  standing : view.standing
    = (((callsOn claimId cs).map fun c => c.node.decision).getLast?.map .decided).getD .proposed

/-- The time of a call, as the index has it. -/
def CommitCall.time (stamp : Datetime → ℚ) (c : CommitCall F) : ℚ := stamp c.now.millis

/-- Calls in the order of the scan: shard by shard, newest first. -/
def scanOrder (shards : List PyStr) (cs : List (CommitCall F)) : List (CommitCall F) :=
  shards.flatMap fun shard => (cs.filter fun c => c.shard = shard).reverse

/-- The scan keeps the order of the decisions on a claim that have one time. -/
def TiesKeepOrder (stamp : Datetime → ℚ) (shards : List PyStr) (claimId : PyStr)
    (cs : List (CommitCall F)) : Prop :=
  ∀ t, (scanOrder shards ((callsOn claimId cs).filter fun c => c.time stamp = t)).map
      (fun c => c.node.decision)
    = ((callsOn claimId cs).filter fun c => c.time stamp = t).map fun c => c.node.decision

/-! ### The shards after the commits -/

/-- What is known of the entry of a call. -/
structure CommitCall.Entry (c : CommitCall F) (e : StoredEntry F) : Prop where
  entry : c.entry = some e
  id : e.id = c.id
  shard : e.shard = c.shard
  timestamp : e.timestamp = c.now.millis
  action : e.meta (py "action_name") = .str resolutionAction
  hash : e.hash = c.hash
  decodes : ∀ validate, Revalidates validate c.node → fromEntry validate e = some c.node

/-- Every call has its entry. -/
theorem exists_callEntry (c : CommitCall F) : ∃ e, c.Entry e := by
  obtain ⟨draft, e, hdraft, he, hid, hhash, hshard, htime, haction, hdecodes⟩ :=
    exists_draftToEntry c.node c.shard c.runId c.now c.id c.hash
  refine ⟨e, ?_, hid, hshard, htime, haction, hhash, hdecodes⟩
  unfold CommitCall.entry
  rw [hdraft]
  exact he

/-- **No call raises, and each shard has the entries of its calls behind those it had.** -/
theorem exists_commitAll {ent : CommitCall F → StoredEntry F}
    (hent : ∀ c : CommitCall F, c.Entry (ent c))
    (s : Store F) (cs : List (CommitCall F)) :
    ∃ s', commitAll s cs = some s' ∧ ∀ shard,
      s'.entries shard = s.entries shard ++ (cs.filter fun c => c.shard = shard).map ent := by
  induction cs generalizing s with
  | nil => exact ⟨s, rfl, fun shard => by simp⟩
  | cons c cs ih =>
    obtain ⟨s', hs', hentries⟩ := ih (s.append (ent c))
    refine ⟨s', ?_, ?_⟩
    · rw [commitAll, List.foldlM_cons, commitAct, (hent c).entry]
      exact hs'
    · intro shard
      rw [hentries, Store.entries_append, (hent c).shard, List.append_assoc]
      by_cases hshard : c.shard = shard
      · simp [hshard]
      · simp [hshard]

/-! ### The bucket -/

/-- What a reader of the bucket uses of a record. -/
def recordKey (r : IndexRecord F) : ℚ × PyStr × PyStr := (r.timestamp, r.entryId, r.shardId)

/-- The same, of a call. -/
def CommitCall.recordKey (stamp : Datetime → ℚ) (c : CommitCall F) : ℚ × PyStr × PyStr :=
  (c.time stamp, c.id, c.shard)

/-- The action of a record is that of its entry, for an action that is no default. -/
theorem pyEq_actionName {stamp : Datetime → ℚ} {e : StoredEntry F} {shardId : PyStr} {i : ℕ}
    {name : PyStr} (hne : name ≠ []) (hunknown : name ≠ py "unknown") :
    pyEq (entryToIndexRecord stamp e shardId i).actionName (.str name) = true ↔
      e.meta (py "action_name") = .str name := by
  rw [pyEq_str_right, entryToIndexRecord]
  dsimp only
  split_ifs with htruthy htool
  · rfl
  · constructor
    · intro h
      exact absurd (PyVal.str.inj h).symm hunknown
    · intro h
      rw [h] at htruthy
      exact absurd (by simpa [PyVal.truthy] using hne) htruthy
  · constructor
    · intro h
      cases h
    · intro h
      rw [h] at htruthy
      exact absurd (by simpa [PyVal.truthy] using hne) htruthy

/-- The records of an action, of a list of entries from an offset on. -/
theorem map_recordKey_filter {stamp : Datetime → ℚ} {name : PyStr} (hne : name ≠ [])
    (hunknown : name ≠ py "unknown") (shardId : PyStr) (es : List (StoredEntry F)) (i : ℕ) :
    (((es.zipIdx i).map fun p => entryToIndexRecord stamp p.1 shardId p.2).filter
        fun r => pyEq r.actionName (.str name)).map recordKey
      = (es.filter fun e => pyEq (e.meta (py "action_name")) (.str name)).map
          fun e => (stamp e.timestamp, e.id, shardId) := by
  induction es generalizing i with
  | nil => rfl
  | cons e es ih =>
    rw [List.zipIdx_cons, List.map_cons]
    have hiff : pyEq (entryToIndexRecord stamp e shardId i).actionName (.str name) = true ↔
        e.meta (py "action_name") = .str name := pyEq_actionName hne hunknown
    by_cases haction : e.meta (py "action_name") = .str name
    · have hrecord := hiff.mpr haction
      have hentry : pyEq (e.meta (py "action_name")) (.str name) = true :=
        pyEq_str_right.mpr haction
      rw [List.filter_cons, if_pos hrecord, List.filter_cons, if_pos hentry, List.map_cons,
        List.map_cons, ih]
      rfl
    · have hrecord : ¬pyEq (entryToIndexRecord stamp e shardId i).actionName (.str name) = true :=
        fun h => haction (hiff.mp h)
      have hentry : ¬pyEq (e.meta (py "action_name")) (.str name) = true :=
        fun h => haction (pyEq_str_right.mp h)
      rw [List.filter_cons, if_neg hrecord, List.filter_cons, if_neg hentry, ih]

section

variable {stamp : Datetime → ℚ} {ent : CommitCall F → StoredEntry F} {s₀ s : Store F}
  {cs : List (CommitCall F)}

/-- The entries of `s` are those of `s₀` with the entries of the calls behind them. -/
def Committed (ent : CommitCall F → StoredEntry F) (s₀ : Store F) (cs : List (CommitCall F))
    (s : Store F) : Prop :=
  ∀ shard, s.entries shard = s₀.entries shard ++ (cs.filter fun c => c.shard = shard).map ent

/-- **The bucket, before the sort, is the calls in the order of the scan.** -/
theorem scanned_calls (hent : ∀ c : CommitCall F, c.Entry (ent c))
    (hnone : ∀ shard, ∀ e ∈ s₀.entries shard, e.meta (py "action_name") ≠ .str resolutionAction)
    (hs : Committed ent s₀ cs s) :
    ((scanRecords stamp batchSize s).filter
        fun r => pyEq r.actionName (.str resolutionAction)).map recordKey
      = (scanOrder s.listShards cs).map (CommitCall.recordKey stamp) := by
  unfold scanRecords scanOrder
  rw [List.filter_flatMap, List.map_flatMap, List.map_flatMap]
  apply List.flatMap_congr
  intro shardId _
  rw [scanShard_eq (by decide), map_recordKey_filter (by decide) (by decide), hs shardId,
    List.reverse_append, List.filter_append, ← List.map_reverse]
  have hold : (s₀.entries shardId).reverse.filter
      (fun e => pyEq (e.meta (py "action_name")) (.str resolutionAction)) = [] := by
    rw [List.filter_eq_nil_iff]
    intro e he haction
    exact hnone shardId e (List.mem_reverse.mp he) (pyEq_str_right.mp haction)
  have hnew : ((cs.filter fun c => c.shard = shardId).reverse.map ent).filter
      (fun e => pyEq (e.meta (py "action_name")) (.str resolutionAction))
      = (cs.filter fun c => c.shard = shardId).reverse.map ent := by
    rw [List.filter_eq_self]
    intro e he
    obtain ⟨c, -, rfl⟩ := List.mem_map.mp he
    exact pyEq_str_right.mpr (hent c).action
  rw [hold, hnew, List.append_nil, List.map_map]
  apply List.map_congr_left
  intro c hc
  have hshard : c.shard = shardId :=
    of_decide_eq_true (List.mem_filter.mp (List.mem_reverse.mp hc)).2
  rw [Function.comp_apply, (hent c).timestamp, (hent c).id, CommitCall.recordKey, hshard]
  rfl

variable (stamp) in
/-- The bucket holds the calls in the order of the scan, sorted by time. -/
theorem bucket_calls (hent : ∀ c : CommitCall F, c.Entry (ent c))
    (hnone : ∀ shard, ∀ e ∈ s₀.entries shard, e.meta (py "action_name") ≠ .str resolutionAction)
    (hs : Committed ent s₀ cs s) :
    (navigateAction (indexRecords (scanRecords stamp batchSize s)) resolutionAction).map recordKey
      = (StableSort.sortBy (CommitCall.time stamp) (scanOrder s.listShards cs)).map
          (CommitCall.recordKey stamp) := by
  have hrecords : ∀ rs : List (IndexRecord F),
      (sortByTime rs).map recordKey = StableSort.sortBy Prod.fst (rs.map recordKey) :=
    StableSort.map_sortBy fun r => rfl
  have hkey : ∀ c : CommitCall F, (c.recordKey stamp).1 = c.time stamp := fun c => rfl
  have hcalls := StableSort.map_sortBy hkey (scanOrder s.listShards cs)
  rw [navigateAction_indexRecords, hcalls, hrecords, scanned_calls hent hnone hs]

/-- The ids minted are not empty, differ from one another and from those there are. -/
structure FreshIds (s₀ : Store F) (cs : List (CommitCall F)) : Prop where
  nodup : (cs.map CommitCall.id).Nodup
  nonempty : ∀ c ∈ cs, c.id ≠ []
  fresh : ∀ c ∈ cs, ∀ shard, ∀ e ∈ s₀.entries shard, e.id ≠ c.id

theorem mem_scanOrder {shards : List PyStr} {c : CommitCall F} :
    c ∈ scanOrder shards cs ↔ c ∈ cs ∧ c.shard ∈ shards := by
  simp only [scanOrder, List.mem_flatMap, List.mem_reverse, List.mem_filter, decide_eq_true_eq]
  constructor
  · rintro ⟨shard, hshard, hc, rfl⟩
    exact ⟨hc, hshard⟩
  · rintro ⟨hc, hshard⟩
    exact ⟨c.shard, hshard, hc, rfl⟩

theorem Committed.mem (hs : Committed ent s₀ cs s) {c : CommitCall F} (hc : c ∈ cs) :
    ent c ∈ s.entries c.shard := by
  rw [hs c.shard]
  apply List.mem_append_right
  exact List.mem_map_of_mem (List.mem_filter.mpr ⟨hc, decide_eq_true rfl⟩)

/-- An id minted names one entry. -/
theorem Committed.only (hent : ∀ c : CommitCall F, c.Entry (ent c)) (hs : Committed ent s₀ cs s)
    (hfresh : FreshIds s₀ cs) {c : CommitCall F} (hc : c ∈ cs) {shard : PyStr}
    {e : StoredEntry F} (he : e ∈ s.entries shard) (hid : e.id = c.id) : e = ent c := by
  rw [hs shard] at he
  rcases List.mem_append.mp he with he | he
  · exact absurd hid (hfresh.fresh c hc shard e he)
  · obtain ⟨c', hc', rfl⟩ := List.mem_map.mp he
    rw [(hent c').id] at hid
    rw [List.inj_on_of_nodup_map hfresh.nodup (List.mem_filter.mp hc').1 hc hid]

omit [PyFloat F] in
/-- Where every step succeeds, so does the whole. -/
theorem mapM_map_eq_some {A B : Type} {f : A → StoredEntry F} {g : StoredEntry F → Option B}
    {h : A → B} {l : List A} (hl : ∀ a ∈ l, g (f a) = some (h a)) :
    (l.map f).mapM g = some (l.map h) := by
  induction l with
  | nil => rfl
  | cons a l ih =>
    rw [List.map_cons, List.mapM_cons, hl a List.mem_cons_self,
      ih fun x hx => hl x (List.mem_cons_of_mem _ hx)]
    rfl

variable (stamp) in
/-- The join finds the entry of every call. -/
theorem byId_call (hent : ∀ c : CommitCall F, c.Entry (ent c))
    (hnone : ∀ shard, ∀ e ∈ s₀.entries shard, e.meta (py "action_name") ≠ .str resolutionAction)
    (hs : Committed ent s₀ cs s) (hfresh : FreshIds s₀ cs) {c : CommitCall F} (hc : c ∈ cs) :
    byId (resolveEntries s batchSize
      (navigateAction (indexRecords (scanRecords stamp batchSize s)) resolutionAction)) c.id
      = some (ent c) := by
  have hscanned : c ∈ StableSort.sortBy (CommitCall.time stamp) (scanOrder s.listShards cs) :=
    (StableSort.sortBy_perm _).mem_iff.mpr
      (mem_scanOrder.mpr ⟨hc, Store.mem_listShards (hs.mem hc)⟩)
  have hkey := List.mem_map_of_mem (f := CommitCall.recordKey stamp) hscanned
  rw [← bucket_calls stamp hent hnone hs] at hkey
  obtain ⟨r, hr, hrkey⟩ := List.mem_map.mp hkey
  have hid : r.entryId = c.id := congrArg (fun k => k.2.1) hrkey
  have hshard : r.shardId = c.shard := congrArg (fun k => k.2.2) hrkey
  rw [← hid]
  apply byId_resolveEntries (by decide) hr
  · rw [hid]
    exact hfresh.nonempty c hc
  · rw [hshard]
    exact hs.mem hc
  · rw [hid, (hent c).id]
  · intro shard x hx hxid
    exact hs.only hent hfresh hc hx (hxid.trans hid)

variable (stamp) in
/-- **The query reads the calls on the claim, in the order of the scan sorted by time.** -/
theorem resolutionsFor_calls {validate : PyVal F → Option (ResolutionNode F)}
    (hvalidate : ∀ c ∈ cs, Revalidates validate c.node)
    (hent : ∀ c : CommitCall F, c.Entry (ent c))
    (hnone : ∀ shard, ∀ e ∈ s₀.entries shard, e.meta (py "action_name") ≠ .str resolutionAction)
    (hs : Committed ent s₀ cs s) (hfresh : FreshIds s₀ cs) (claimId : PyStr) :
    resolutionsFor validate s (indexRecords (scanRecords stamp batchSize s)) claimId
      = some ((callsOn claimId (StableSort.sortBy (CommitCall.time stamp)
          (scanOrder s.listShards cs))).map fun c => (ent c, c.node)) := by
  have hmem : ∀ c ∈ StableSort.sortBy (CommitCall.time stamp) (scanOrder s.listShards cs),
      c ∈ cs :=
    fun c hc => (mem_scanOrder.mp ((StableSort.sortBy_perm _).mem_iff.mp hc)).1
  have hjoined : ((navigateAction (indexRecords (scanRecords stamp batchSize s))
      resolutionAction).filterMap fun rec => byId (resolveEntries s batchSize
        (navigateAction (indexRecords (scanRecords stamp batchSize s)) resolutionAction))
          rec.entryId)
      = (StableSort.sortBy (CommitCall.time stamp) (scanOrder s.listShards cs)).map ent := by
    have hbucket := bucket_calls stamp hent hnone hs
    have hjoin : ∀ c ∈ cs, _ := fun c hc => byId_call stamp hent hnone hs hfresh hc
    generalize navigateAction (indexRecords (scanRecords stamp batchSize s)) resolutionAction
      = records at hjoin hbucket ⊢
    have hkeys : (records.filterMap fun rec => byId (resolveEntries s batchSize records) rec.entryId)
        = (records.map recordKey).filterMap fun k =>
            byId (resolveEntries s batchSize records) k.2.1 := by
      rw [List.filterMap_map]
      rfl
    rw [hkeys, hbucket, List.filterMap_map, ← List.filterMap_eq_map]
    apply List.filterMap_congr
    intro c hc
    exact hjoin c (hmem c hc)
  have hdecoded : ((StableSort.sortBy (CommitCall.time stamp) (scanOrder s.listShards cs)).map
      ent).mapM (fun e => (fromEntry validate e).map fun node => (e, node))
      = some ((StableSort.sortBy (CommitCall.time stamp) (scanOrder s.listShards cs)).map
          fun c => (ent c, c.node)) := by
    apply mapM_map_eq_some
    intro c hc
    rw [(hent c).decodes validate (hvalidate c (hmem c hc)), Option.map_some]
  rw [resolutionsFor]
  simp only [hjoined, hdecoded, Option.map_some, List.filter_map]
  rfl

/-! ### The standing -/

/-- A storage without resolutions, whose action names are keys a dict takes. -/
structure NoResolutions (stamp : Datetime → ℚ) (s₀ : Store F) : Prop where
  other : ∀ shard, ∀ e ∈ s₀.entries shard, e.meta (py "action_name") ≠ .str resolutionAction
  hashable : ∀ shard, ∀ e ∈ s₀.entries shard, ∀ i,
    (entryToIndexRecord stamp e shard i).hashable = true

theorem buildIndex_calls (hent : ∀ c : CommitCall F, c.Entry (ent c))
    (hnone : NoResolutions stamp s₀) (hs : Committed ent s₀ cs s) :
    buildIndex stamp batchSize s = some (indexRecords (scanRecords stamp batchSize s)) := by
  rw [buildIndex, if_pos]
  rw [List.all_eq_true]
  intro r hr
  obtain ⟨shardId, -, e, i, hget, rfl⟩ := (mem_scanRecords (by decide)).mp hr
  have he := List.mem_reverse.mp (List.mem_of_getElem? hget)
  rw [hs shardId] at he
  rcases List.mem_append.mp he with he | he
  · exact hnone.hashable shardId e he i
  · obtain ⟨c, -, rfl⟩ := List.mem_map.mp he
    have hname : (entryToIndexRecord stamp (ent c) shardId i).actionName
        = .str resolutionAction :=
      pyEq_str_right.mp ((pyEq_actionName (by decide) (by decide)).mpr (hent c).action)
    rw [IndexRecord.hashable, hname]

theorem decisions_deriveStanding (claimId : PyStr) (rs : List ResolutionFact) :
    (deriveStanding claimId rs).decisions = rs.map ResolutionFact.decision := by
  unfold deriveStanding
  cases hlast : rs.getLast? with
  | none =>
    rw [List.getLast?_eq_none_iff.mp hlast]
    rfl
  | some last => rfl

theorem standing_deriveStanding (claimId : PyStr) (rs : List ResolutionFact) :
    (deriveStanding claimId rs).standing
      = ((rs.map ResolutionFact.decision).getLast?.map .decided).getD .proposed := by
  unfold deriveStanding
  rw [List.getLast?_map]
  cases rs.getLast? with
  | none => rfl
  | some last => rfl

/-- A view derived from resolutions follows the commits iff their decisions do. -/
theorem follows_iff {claimId : PyStr} {rs : List ResolutionFact} :
    Follows claimId cs (deriveStanding claimId rs) ↔
      rs.map ResolutionFact.decision = (callsOn claimId cs).map fun c => c.node.decision := by
  constructor
  · intro h
    rw [← decisions_deriveStanding claimId]
    exact h.decisions
  · intro h
    refine ⟨?_, ?_⟩
    · rw [decisions_deriveStanding, h]
    · rw [standing_deriveStanding, h]

theorem scanOrder_perm {shards : List PyStr} (hnodup : shards.Nodup)
    (hall : ∀ c ∈ cs, c.shard ∈ shards) : (scanOrder shards cs).Perm cs :=
  (List.Perm.flatMap_left _ fun _ _ => List.reverse_perm _).trans
    (Dict.perm_flatMap_filter hnodup hall)

theorem filter_scanOrder (p : CommitCall F → Bool) (shards : List PyStr) :
    (scanOrder shards cs).filter p = scanOrder shards (cs.filter p) := by
  unfold scanOrder
  rw [List.filter_flatMap]
  apply List.flatMap_congr
  intro shard _
  rw [List.filter_reverse, List.filter_filter, List.filter_filter]
  simp only [Bool.and_comm]

/-- **The sorted scan keeps the decisions on a claim iff the ties do.** -/
theorem decisions_sorted_iff {shards : List PyStr} (hnodup : shards.Nodup)
    (hall : ∀ c ∈ cs, c.shard ∈ shards)
    (hmono : cs.Pairwise fun c c' => c.time stamp ≤ c'.time stamp) (claimId : PyStr) :
    ((callsOn claimId (StableSort.sortBy (CommitCall.time stamp) (scanOrder shards cs))).map
        fun c => c.node.decision) = ((callsOn claimId cs).map fun c => c.node.decision) ↔
      TiesKeepOrder stamp shards claimId cs := by
  have hsorted : (callsOn claimId (StableSort.sortBy (CommitCall.time stamp)
      (scanOrder shards cs))).Pairwise fun c c' => c.time stamp ≤ c'.time stamp :=
    (StableSort.pairwise_sortBy _).filter _
  have hperm : (callsOn claimId (StableSort.sortBy (CommitCall.time stamp)
      (scanOrder shards cs))).Perm (callsOn claimId cs) :=
    ((StableSort.sortBy_perm _).trans (scanOrder_perm hnodup hall)).filter _
  have hmonoOn : (callsOn claimId cs).Pairwise fun c c' => c.time stamp ≤ c'.time stamp :=
    hmono.filter _
  rw [StableSort.map_eq_map_iff hsorted hmonoOn (hperm.map _)]
  -- below one time the sort changes nothing, so what is left is the scan
  have htie : ∀ t, (callsOn claimId (StableSort.sortBy (CommitCall.time stamp)
      (scanOrder shards cs))).filter (fun c => c.time stamp = t)
      = scanOrder shards ((callsOn claimId cs).filter fun c => c.time stamp = t) := by
    intro t
    rw [callsOn, List.filter_comm, StableSort.filter_sortBy, filter_scanOrder, filter_scanOrder,
      callsOn, List.filter_comm]
  constructor
  · intro h t
    rw [← htie t]
    exact h t
  · intro h t
    rw [htie t]
    exact h t

/-- The scan of one shard reads its calls backwards. -/
theorem scanOrder_single {shard : PyStr} {shards : List PyStr} (hnodup : shards.Nodup)
    (hmem : shard ∈ shards) (hshard : ∀ c ∈ cs, c.shard = shard) :
    scanOrder shards cs = cs.reverse := by
  have hown : (cs.filter fun c => c.shard = shard) = cs :=
    List.filter_eq_self.mpr fun c hc => decide_eq_true (hshard c hc)
  have hother : ∀ k, k ≠ shard → (cs.filter fun c => c.shard = k) = [] := by
    intro k hk
    rw [List.filter_eq_nil_iff]
    intro c hc h
    exact hk ((of_decide_eq_true h).symm.trans (hshard c hc))
  have hnil : ∀ ks : List PyStr, shard ∉ ks → scanOrder ks cs = [] := by
    intro ks hks
    rw [scanOrder, List.flatMap_eq_nil_iff]
    intro k hk
    rw [hother k fun h => hks (h ▸ hk)]
    rfl
  obtain ⟨pre, post, rfl⟩ := List.append_of_mem hmem
  rw [List.nodup_append, List.nodup_cons] at hnodup
  have hpre : shard ∉ pre := fun h => hnodup.2.2 shard h shard List.mem_cons_self rfl
  have hsplit : scanOrder (pre ++ shard :: post) cs
      = scanOrder pre cs ++ ((cs.filter fun c => c.shard = shard).reverse ++ scanOrder post cs) := by
    rw [scanOrder, List.flatMap_append, List.flatMap_cons]
    rfl
  rw [hsplit, hnil pre hpre, hnil post hnodup.2.1.1, hown, List.nil_append, List.append_nil]

/-- **In one shard the ties keep their order iff the decisions of each millisecond read the
same backwards.** -/
theorem tiesKeepOrder_single {shard : PyStr} {shards : List PyStr} (hnodup : shards.Nodup)
    (hmem : shard ∈ shards) (hshard : ∀ c ∈ cs, c.shard = shard) (claimId : PyStr) :
    TiesKeepOrder stamp shards claimId cs ↔ ∀ t,
      (((callsOn claimId cs).filter fun c => c.time stamp = t).map
          fun c => c.node.decision).reverse
        = ((callsOn claimId cs).filter fun c => c.time stamp = t).map fun c => c.node.decision := by
  have hscan : ∀ t, scanOrder shards ((callsOn claimId cs).filter fun c => c.time stamp = t)
      = ((callsOn claimId cs).filter fun c => c.time stamp = t).reverse := by
    intro t
    apply scanOrder_single hnodup hmem
    intro c hc
    exact hshard c (List.mem_filter.mp (List.mem_filter.mp hc).1).1
  unfold TiesKeepOrder
  simp only [hscan, List.map_reverse]

/-- The standing read from shards that hold the commits. -/
theorem standingOf_committed {validate : PyVal F → Option (ResolutionNode F)}
    (hnone : NoResolutions stamp s₀) (hvalidate : ∀ c ∈ cs, Revalidates validate c.node)
    (hfresh : FreshIds s₀ cs) (hmono : cs.Pairwise fun c c' => c.time stamp ≤ c'.time stamp)
    (hent : ∀ c : CommitCall F, c.Entry (ent c)) (hs : Committed ent s₀ cs s) (claimId : PyStr) :
    ∃ view, standingOf validate stamp s claimId = some view ∧
      (Follows claimId cs view ↔ TiesKeepOrder stamp s.listShards claimId cs) := by
  have hread := resolutionsFor_calls stamp hvalidate hent hnone.other hs hfresh claimId
  refine ⟨_, by rw [standingOf, buildIndex_calls hent hnone hs, Option.bind_some, hread]; rfl, ?_⟩
  have hall : ∀ c ∈ cs, c.shard ∈ s.listShards := fun c hc => Store.mem_listShards (hs.mem hc)
  have hsorted := decisions_sorted_iff (show s.listShards.Nodup from s.nodup) hall hmono claimId
  rw [follows_iff, ← hsorted, List.map_map, List.map_map]
  rfl

end

/-- **After any sequence of commits, at times that do not go back, over a storage without
resolutions, the standing of a claim is derived, and it follows the order of the commits
iff the scan keeps the order of the decisions on the claim that have one time.**  The
shards are listed in any order. -/
theorem standing_follows_iff (validate : PyVal F → Option (ResolutionNode F))
    (stamp : Datetime → ℚ) (s₀ : Store F) (hnone : NoResolutions stamp s₀)
    (cs : List (CommitCall F)) (hvalidate : ∀ c ∈ cs, Revalidates validate c.node)
    (hfresh : FreshIds s₀ cs) (hmono : cs.Pairwise fun c c' => c.time stamp ≤ c'.time stamp) :
    ∃ s', commitAll s₀ cs = some s' ∧ ∀ s : Store F, s.shards.Perm s'.shards →
      ∀ claimId, ∃ view, standingOf validate stamp s claimId = some view ∧
        (Follows claimId cs view ↔ TiesKeepOrder stamp s.listShards claimId cs) := by
  choose ent hent using exists_callEntry (F := F)
  obtain ⟨s', hs', hentries⟩ := exists_commitAll hent s₀ cs
  refine ⟨s', hs', ?_⟩
  intro s hperm claimId
  have hs : Committed ent s₀ cs s :=
    fun shard => (Store.entries_perm hperm shard).trans (hentries shard)
  exact standingOf_committed hnone hvalidate hfresh hmono hent hs claimId

/-- A resolution of the claim `c`. -/
def sampleResolution (decision : ResolutionDecision) : ResolutionNode FloatLit where
  resolutionId := ⟨py "r", by decide⟩
  targetClaimId := ⟨py "c", by decide⟩
  decision := decision
  mef :=
    { claimId := ⟨py "m", by decide⟩
      regime := ⟨py "governance.resolution", by decide⟩
      confidence := ⟨⟨false, 1, .frac 0 [] none⟩, confidence_one⟩
      contested := false
      producer := ⟨py "ada", by decide⟩
      agentId := some ⟨py "ada", by decide⟩
      carrier := some ⟨⟨py "human", by decide⟩, none, none⟩ }
  orgId := none

/-- The model, on the resolutions of the sample. -/
def sampleValidate (v : PyVal FloatLit) : Option (ResolutionNode FloatLit) :=
  if canon (sampleResolution .accepted).modelDump = some v then some (sampleResolution .accepted)
  else if canon (sampleResolution .superseded).modelDump = some v then
    some (sampleResolution .superseded)
  else none

theorem plain_consultations : PlainShard (py "prl_consultations") :=
  ⟨⟨⟨by decide, by decide, by decide, by decide⟩, by decide, .inl (by decide)⟩, by decide⟩

/-- Two commits of one millisecond. -/
def sampleCommits : List (CommitCall FloatLit) :=
  [⟨sampleResolution .accepted, py "run", py "prl_consultations",
      ⟨⟨2026, 1, 2, 3, 4, 5, 6000, some 0⟩, sampleMilli_valid⟩, py "e1", py "v1:1",
      plain_consultations, by decide⟩,
    ⟨sampleResolution .superseded, py "run", py "prl_consultations",
      ⟨⟨2026, 1, 2, 3, 4, 5, 6000, some 0⟩, sampleMilli_valid⟩, py "e2", py "v1:2",
      plain_consultations, by decide⟩]

/-- Time in seconds of the minute. -/
def sampleClock (d : Datetime) : ℚ := d.val.second

theorem sampleCommits_revalidate : ∀ c ∈ sampleCommits, Revalidates sampleValidate c.node := by
  have hne : canon (sampleResolution .accepted).modelDump
      ≠ canon (sampleResolution .superseded).modelDump := by decide +kernel
  intro c hc v hv
  simp only [sampleCommits, List.mem_cons, List.not_mem_nil, or_false] at hc
  rcases hc with rfl | rfl
  · rw [sampleValidate, if_pos hv]
  · rw [sampleValidate, if_neg fun h => hne (h.trans hv.symm), if_pos hv]

theorem sampleCommits_fresh : FreshIds Store.empty sampleCommits :=
  ⟨by decide +kernel, by decide +kernel, fun _ _ _ _ he => absurd he List.not_mem_nil⟩

theorem noResolutions_empty (stamp : Datetime → ℚ) : NoResolutions stamp (Store.empty : Store F) :=
  ⟨fun _ _ he => absurd he List.not_mem_nil, fun _ _ he => absurd he List.not_mem_nil⟩

theorem standing_follows_iff_sample :
    ∃ s', commitAll Store.empty sampleCommits = some s' ∧ ∀ s : Store FloatLit,
      s.shards.Perm s'.shards → ∀ claimId, ∃ view,
        standingOf sampleValidate sampleClock s claimId = some view ∧
          (Follows claimId sampleCommits view ↔
            TiesKeepOrder sampleClock s.listShards claimId sampleCommits) :=
  standing_follows_iff sampleValidate sampleClock Store.empty (noResolutions_empty _) sampleCommits
    sampleCommits_revalidate sampleCommits_fresh (by decide +kernel)

/-- The claim was accepted and then superseded: its standing is not the last decision. -/
theorem standing_reversed :
    ∃ s', commitAll Store.empty sampleCommits = some s' ∧ ∃ view,
      standingOf sampleValidate sampleClock s' (py "c") = some view ∧
        ¬Follows (py "c") sampleCommits view := by
  choose ent hent using exists_callEntry (F := FloatLit)
  obtain ⟨s', hs', hentries⟩ := exists_commitAll hent Store.empty sampleCommits
  obtain ⟨view, hview, hiff⟩ := standingOf_committed (noResolutions_empty sampleClock)
    sampleCommits_revalidate sampleCommits_fresh (by decide +kernel) hent hentries (py "c")
  refine ⟨s', hs', view, hview, ?_⟩
  intro hfollows
  have hmem : py "prl_consultations" ∈ s'.listShards :=
    Store.mem_listShards (Committed.mem hentries List.mem_cons_self)
  have hties := (tiesKeepOrder_single s'.nodup hmem (by decide +kernel) (py "c")).mp
    (hiff.mp hfollows) 5
  exact absurd hties (by decide +kernel)

end Daryl
