import Daryl.Prl.Records
import Daryl.Prl.Standing

/-!
# `prl.projections`: one store, read through two projections

A projection hands out the records of an action in their order and the entries behind
records in none, so a reader replays the records and joins the entries by id.  The read relay
is one projection, a table that is filled through it is another.  The query of standings
joins; the query of consultations takes the entries as they are resolved, and with it so does
the explanation of a claim: the read relay resolves shard by shard, newest first, the table in
the order of the records.

## Main definitions

* `RegistryProjection`, `rrProjection`, `sqliteProjection` — the seam and the two behind it.
* `buildSqliteProjection` — the rows of the table.
* `standingOf`, `consultations`, `explain` — the queries, over any projection.
* `Certified` — stores of acts that have ids of their own and decode.
* `SameResults` — the queries do not tell two projections apart.
* `OneOrder` — the two orders of a store show the same.

## Main results

* `certified_commitActs` — what the writer makes is certified.
* `serves_rrProjection`, `serves_sqliteProjection` — what each projection serves.
* `sameResults_iff` — **standings are the same over both, and all results are iff the two
  orders show the same.**
* `oneOrder_single_iff` — over one shard written in the order of its times, they do iff all
  reads the same backwards.
-/

namespace Daryl

open Py Json Model Records

namespace Projections

variable {F : Type} [PyFloat F]

/-! ### The seam -/

/-- What the queries and `from_entry` use of an entry; the entry of the table has no more. -/
structure ProjectedEntry (F : Type) where
  id : PyStr
  hash : PyStr
  content : PyStr
  metadata : PyVal F

/-- `RegistryProjection`, with records of a type. -/
structure RegistryProjection (F R : Type) where
  navigateAction : PyStr → List R
  entryId : R → PyStr
  resolveEntries : List R → List (ProjectedEntry F)

/-- A stored entry, as the queries see it. -/
def projectedOf (e : StoredEntry F) : ProjectedEntry F :=
  ⟨e.id, e.hash, e.content, e.metadata⟩

/-- `RRNavigator` over an index. -/
def rrProjection (s : Store F) (idx : RRIndex F) : RegistryProjection F (IndexRecord F) where
  navigateAction := Daryl.navigateAction idx
  entryId := IndexRecord.entryId
  resolveEntries records := (Daryl.resolveEntries s batchSize records).map projectedOf

/-! ### The table -/

/-- A row of `acts`; its place in the table is its `ord`. -/
structure ActRow where
  entryId : PyStr
  actionName : PyStr
  content : PyStr
  receipt : PyStr
  deriving DecidableEq

/-- `_PROJECTED_ACTIONS`. -/
def projectedActions : List PyStr := [prlAction .consultation, prlAction .resolution]

/-- The rows of one action: its records in their order, joined by id. -/
def actRows (s : Store F) (idx : RRIndex F) (action : PyStr) : List ActRow :=
  let records := Daryl.navigateAction idx action
  let entries := Daryl.resolveEntries s batchSize records
  (records.filterMap fun rec => byId entries rec.entryId).map fun e =>
    ⟨e.id, action, e.content, e.hash⟩

/-- `build_sqlite_projection`, over the index it builds. -/
def buildSqliteProjection (s : Store F) (idx : RRIndex F) : List ActRow :=
  projectedActions.flatMap (actRows s idx)

/-- The entry of a row. -/
def ActRow.projected (r : ActRow) : ProjectedEntry F :=
  ⟨r.entryId, r.receipt, r.content, .dict (strItems [(py "action_name", .str r.actionName)])⟩

/-- `SqliteProjection`: a record is the id and the action.  A select without an order hands
out the rows as they stand in the table. -/
def sqliteProjection (rows : List ActRow) : RegistryProjection F (PyStr × PyStr) where
  navigateAction action := (rows.filter fun r => r.actionName = action).map fun r => (r.entryId, action)
  entryId := Prod.fst
  resolveEntries records :=
    (rows.filter fun r => r.entryId ∈ records.map Prod.fst).map ActRow.projected

/-! ### The queries -/

section

variable {R : Type} (lib : Library F) (nav : RegistryProjection F R)

/-- `from_entry`. -/
def fromEntry (e : ProjectedEntry F) : Except CommitError (PRLNode F) :=
  decode (nodeModels lib) e.metadata (.str e.content)

/-- The records of an action, replayed in their order and joined by id. -/
def joined (action : PyStr) : List (ProjectedEntry F) :=
  let records := nav.navigateAction action
  let entries := nav.resolveEntries records
  records.filterMap fun rec => entries.reverse.find? fun e => e.id = nav.entryId rec

/-- The node of an entry if it is a resolution of the claim. -/
def resolutionOf (claimId : PyStr) (e : ProjectedEntry F) :
    PRLNode F → Option (ProjectedEntry F × ResolutionNode F)
  | .resolution node => if node.targetClaimId.val = claimId then some (e, node) else none
  | _ => none

/-- `_resolutions_for`, of the entries in their order. -/
def resolutionsIn (claimId : PyStr) (es : List (ProjectedEntry F)) :
    Except CommitError (List (ProjectedEntry F × ResolutionNode F)) :=
  (es.mapM fun e => (fromEntry lib e).map fun node => resolutionOf claimId e node).map
    fun out => out.filterMap id

/-- `_fact`. -/
def fact (e : ProjectedEntry F) (node : ResolutionNode F) : ResolutionFact where
  decision := node.decision
  resolver := node.mef.producer.val
  receipt := e.hash
  agentId := (node.mef.agentId.map Subtype.val).getD []
  carrier := (node.mef.carrier.map Carrier.short).getD []
  orgId := (node.orgId.map Subtype.val).getD []

/-- `StandingQuery.resolutions_of`. -/
def resolutionsOf (claimId : PyStr) : Except CommitError (List ResolutionFact) :=
  (resolutionsIn lib claimId (joined nav (prlAction .resolution))).map fun out =>
    out.map fun p => fact p.1 p.2

/-- `StandingQuery.standing_of`. -/
def standingOf (claimId : PyStr) : Except CommitError StandingView :=
  (resolutionsOf lib nav claimId).map (deriveStanding claimId)

/-- `ConsultationView`. -/
structure ConsultationView (F : Type) where
  consultationId : PyStr
  subjectId : PyStr
  mode : ConsultationMode
  producer : PyStr
  confidence : F
  receipt : PyStr
  answer : PyStr
  claimId : PyStr
  agentId : PyStr
  carrier : PyStr
  orgId : PyStr

/-- The view of a consultation with its receipt. -/
def viewOf (node : ConsultationNode F) (receipt : PyStr) : ConsultationView F where
  consultationId := node.consultationId.val
  subjectId := node.subjectId.val
  mode := node.mode
  producer := node.mef.producer.val
  confidence := node.mef.confidence.val
  receipt := receipt
  answer := node.answer.val
  claimId := node.mef.claimId.val
  agentId := (node.mef.agentId.map Subtype.val).getD []
  carrier := (node.mef.carrier.map Carrier.short).getD []
  orgId := (node.orgId.map Subtype.val).getD []

/-- `view_from_entry`. -/
def viewFromEntry (e : ProjectedEntry F) : Except CommitError (ConsultationView F) :=
  match fromEntry lib e with
  | .error err => .error err
  | .ok (.consultation node) => .ok (viewOf node e.hash)
  | .ok _ => .error (.py .valueError)

/-- A filter that may be left out. -/
def keepsOf (field : ConsultationView F → PyStr) : Option PyStr → ConsultationView F → Bool
  | none, _ => true
  | some value, v => field v = value

/-- `ConsultationQuery.list`: the entries as they are resolved. -/
def consultations (subjectId orgId : Option PyStr) :
    Except CommitError (List (ConsultationView F)) :=
  let records := nav.navigateAction (prlAction .consultation)
  let entries := nav.resolveEntries records
  (entries.mapM (viewFromEntry lib)).map fun views =>
    (views.filter (keepsOf ConsultationView.subjectId subjectId)).filter
      (keepsOf ConsultationView.orgId orgId)

/-- `ProposalFact`. -/
structure ProposalFact (F : Type) where
  producer : PyStr
  confidence : F
  answer : PyStr
  receipt : PyStr
  subjectId : PyStr
  agentId : PyStr
  carrier : PyStr
  orgId : PyStr

/-- The facts of a view. -/
def ConsultationView.proposal (v : ConsultationView F) : ProposalFact F :=
  ⟨v.producer, v.confidence, v.answer, v.receipt, v.subjectId, v.agentId, v.carrier, v.orgId⟩

/-- The loop of `explain`: the first proposal on the claim. -/
def firstProposal (claimId : PyStr) (views : List (ConsultationView F)) : Option (ProposalFact F) :=
  (views.find? fun v => v.mode = .proposal ∧ v.claimId = claimId).map ConsultationView.proposal

/-- `Explanation`. -/
structure Explanation (F : Type) where
  claimId : PyStr
  proposal : Option (ProposalFact F)
  resolutions : List ResolutionFact
  standing : Standing
  conflict : Bool
  conflictParties : List PyStr
  governedStanding : Standing

/-- `ExplainQuery.explain`. -/
def explain (claimId : PyStr) : Except CommitError (Explanation F) :=
  match consultations lib nav none none, resolutionsOf lib nav claimId, standingOf lib nav claimId with
  | .ok views, .ok resolutions, .ok view =>
    .ok
      { claimId := claimId
        proposal := firstProposal claimId views
        resolutions := resolutions
        standing := view.standing
        conflict := view.conflict
        conflictParties := view.conflictParties
        governedStanding := view.governedStanding }
  | .error err, _, _ => .error err
  | _, .error err, _ => .error err
  | _, _, .error err => .error err

end

/-! ### Certified stores -/

/-- A store of acts: no id is shared or empty, and what has the action of a consultation or
of a resolution decodes to one. -/
structure Certified (lib : Library F) (s : Store F) : Prop where
  ids : s.ids.Nodup
  named : ∀ shard, ∀ e ∈ s.entries shard, e.id ≠ []
  consultation : ∀ shard, ∀ e ∈ s.entries shard,
    e.meta (py "action_name") = .str (prlAction .consultation) →
      ∃ n, fromEntry lib (projectedOf e) = .ok (.consultation n)
  resolution : ∀ shard, ∀ e ∈ s.entries shard,
    e.meta (py "action_name") = .str (prlAction .resolution) →
      ∃ n, fromEntry lib (projectedOf e) = .ok (.resolution n)

/-! ### The writer -/

/-- A call of `commit_act`, with the reading of the clock, the id minted and the hash the
storage assigns. -/
structure ActCall (F : Type) [PyFloat F] where
  node : PRLNode F
  runId : Text
  shard : Text
  now : Datetime
  id : PyStr
  hash : PyStr

section

variable (lib : Library F) (msToIso : ℤ → Except PyError PyStr)

/-- The entry of a call; `none` is what the conversions raise. -/
def ActCall.entry (c : ActCall F) : Option (StoredEntry F) :=
  match Records.toEntry lib msToIso c.now c.node c.shard c.runId with
  | .ok draft => draftToEntry draft c.id c.hash
  | .error _ => none

/-- `commit_act`. -/
def commitAct (s : Store F) (c : ActCall F) : Option (Store F) := (c.entry lib msToIso).map s.append

/-- Calls one after the other; the first that raises ends them. -/
def commitActs (s : Store F) (cs : List (ActCall F)) : Option (Store F) :=
  cs.foldlM (commitAct lib msToIso) s

end

/-! ### The writer of resolutions -/

section

variable (lib : Library F)

theorem dump_mef (m : MEF F) : (mef lib).dump m = .dict (strItems m.fields) := by
  obtain ⟨claimId, regime, confidence, contested, producer, agentId, frame⟩ := m
  cases frame with
  | none => cases agentId <;> rfl
  | some c =>
    obtain ⟨provider, model, adapter⟩ := c
    cases agentId <;> cases model <;> cases adapter <;> rfl

/-- The model dumps a resolution as its fields. -/
theorem dump_resolutionNode (n : ResolutionNode F) : (resolutionNode lib).dump n = n.modelDump := by
  rw [ResolutionNode.modelDump, ResolutionNode.fields, ← dump_mef lib]
  obtain ⟨resolutionId, targetClaimId, decision, frame, orgId⟩ := n
  cases orgId <;> rfl

/-- `to_entry` of an act that is a resolution is that of resolutions. -/
theorem toEntry_resolution (msToIso : ℤ → Except PyError PyStr) (now : Datetime)
    (n : ResolutionNode F) (shard sessionId : Text) :
    Records.toEntry lib msToIso now (.resolution n) shard sessionId =
      (Daryl.toEntry n shard.val sessionId.val now).mapError DumpsError.toPyError := by
  unfold Records.toEntry Daryl.toEntry
  rw [PRLNode.modelDump, dump_resolutionNode]
  cases dumpsSorted canonicalStyle n.modelDump <;> rfl

/-- **On resolutions the writer of acts is the writer of resolutions.** -/
theorem commitAct_resolution (msToIso : ℤ → Except PyError PyStr) (s : Store F)
    (n : ResolutionNode F) (runId shard : Text) (now : Datetime) (id hash : PyStr)
    (hplain : PlainShard shard.val) (hdirectory : familyName shard.val = shard.val) :
    commitAct lib msToIso s ⟨.resolution n, runId, shard, now, id, hash⟩ =
      Daryl.commitAct s ⟨n, runId.val, shard.val, now, id, hash, hplain, hdirectory⟩ := by
  unfold commitAct Daryl.commitAct ActCall.entry CommitCall.entry
  dsimp only
  rw [toEntry_resolution]
  cases Daryl.toEntry n shard.val runId.val now <;> rfl

/-- **What has the action of a resolution is read by its model**, by either reader. -/
theorem fromEntry_resolution {e : StoredEntry F}
    (haction : e.meta (py "action_name") = .str resolutionAction) :
    (fromEntry lib (projectedOf e)).toOption =
      (Daryl.fromEntry (resolutionNode lib).validate e).map .resolution := by
  have hhash : PyVal.hashes (.str ((nodeModels lib).action .resolution) : PyVal F) = true := rfl
  unfold fromEntry decode Daryl.fromEntry
  rw [if_pos (pyEq_str_right.mpr haction)]
  unfold StoredEntry.meta StoredEntry.metadataItems at haction
  dsimp only [projectedOf]
  cases hmeta : e.metadata with
  | dict items =>
    rw [hmeta] at haction
    have hget : getNone (py "action_name") items =
      .str ((nodeModels lib).action .resolution) := haction
    simp only [hget, hhash, Bool.not_true, if_neg Bool.false_ne_true]
    rw [find_prlAction lib .resolution]
    dsimp only
    cases hloads : (loads e.content : Option (PyVal F)) with
    | none => rfl
    | some data =>
      cases data with
      | dict kvs =>
        simp only [nodeModels, Option.bind_some]
        cases (resolutionNode lib).validate (.dict kvs) <;> rfl
      | _ => rfl
  | _ =>
    rw [hmeta] at haction
    cases haction

end

section

variable {lib : Library F} {msToIso : ℤ → Except PyError PyStr}

/-- What is known of the entry of a call. -/
structure ActCall.Entry (lib : Library F) (c : ActCall F) (e : StoredEntry F) : Prop where
  id : e.id = c.id
  hash : e.hash = c.hash
  shard : e.shard = c.shard.val
  action : e.meta (py "action_name") = .str (prlAction c.node.kind)
  decodes : fromEntry lib (projectedOf e) = .ok c.node

/-- A draft, by its fields. -/
theorem toEntry_eq_ok {now : Datetime} {n : PRLNode F} {shard sessionId : Text}
    {draft : EntryDraft (PyVal F)}
    (h : Records.toEntry lib msToIso now n shard sessionId = .ok draft) :
    draft.metadata = [(py "action_name", .str (prlAction n.kind))] ∧ draft.shard = shard.val ∧
      factTimestamp msToIso now n = .ok draft.timestamp := by
  unfold Records.toEntry at h
  split at h
  · cases h
  · cases htime : factTimestamp msToIso now n with
    | error err =>
      rw [htime] at h
      cases h
    | ok timestamp =>
      rw [htime] at h
      obtain rfl := Except.ok.inj h
      exact ⟨rfl, rfl, rfl⟩

theorem ActCall.entry_spec {c : ActCall F} {e : StoredEntry F}
    (h : c.entry lib msToIso = some e) : c.Entry lib e := by
  unfold ActCall.entry at h
  split at h
  next draft hdraft =>
    obtain ⟨ts, -, rfl⟩ := Option.map_eq_some_iff.mp h
    obtain ⟨hmeta, hshard, -⟩ := toEntry_eq_ok hdraft
    refine ⟨rfl, rfl, hshard, ?_, (toEntry_roundTrips hdraft).1⟩
    rw [StoredEntry.meta, StoredEntry.metadataItems, hmeta]
    rfl
  · cases h

/-- An act whose time is the clock has the time of the call. -/
theorem ActCall.timestamp_entry {c : ActCall F} {e : StoredEntry F}
    (h : c.entry lib msToIso = some e)
    (hclock : factTimestamp msToIso c.now c.node = .ok (utcNowMs c.now)) :
    e.timestamp = c.now.millis := by
  unfold ActCall.entry at h
  split at h
  next draft hdraft =>
    obtain ⟨ts, hts, rfl⟩ := Option.map_eq_some_iff.mp h
    have htime := (toEntry_eq_ok hdraft).2.2
    rw [hclock] at htime
    rw [← Except.ok.inj htime, draftTimestamp_utcNowMs] at hts
    exact (Option.some.inj hts).symm
  · cases h

omit [PyFloat F] in
/-- The ids after an append are those before and the new one. -/
theorem ids_append (s : Store F) (e : StoredEntry F) :
    (s.append e).ids.Perm (s.ids ++ [e.id]) := by
  have hids : ∀ s : Store F, s.ids = (s.shards.flatMap Prod.snd).map StoredEntry.id := by
    intro s
    conv_rhs => rw [← Dict.map_keys_getD s.nodup]
    rw [List.flatMap_map, List.map_flatMap]
    rfl
  rw [hids, hids]
  have h := (Dict.flatMap_push e.shard e s.shards).map StoredEntry.id
  rwa [List.map_append] at h

theorem prlAction_injective : Function.Injective prlAction := by
  intro k l h
  revert h
  cases k <;> cases l <;> decide

/-- **The writer keeps a store certified**, where it mints an id that is new. -/
theorem certified_commit {s s' : Store F} {c : ActCall F} (hs : Certified lib s)
    (hnew : c.id ∉ s.ids) (hne : c.id ≠ []) (h : commitAct lib msToIso s c = some s') :
    Certified lib s' := by
  obtain ⟨e, he, rfl⟩ := Option.map_eq_some_iff.mp h
  have hspec := ActCall.entry_spec he
  -- what is in a shard was there, or is the entry of the call
  have hentries : ∀ shard, ∀ x ∈ (s.append e).entries shard, x ∈ s.entries shard ∨ x = e := by
    intro shard x hx
    rw [Store.entries_append] at hx
    rcases List.mem_append.mp hx with hx | hx
    · exact Or.inl hx
    · split_ifs at hx
      · exact Or.inr (List.mem_singleton.mp hx)
      · cases hx
  refine ⟨?_, ?_, ?_, ?_⟩
  · rw [(ids_append s e).nodup_iff, List.nodup_append]
    refine ⟨hs.ids, List.nodup_singleton _, ?_⟩
    rintro a ha b hb rfl
    exact hnew (hspec.id ▸ List.mem_singleton.mp hb ▸ ha)
  · intro shard x hx
    rcases hentries shard x hx with hx | rfl
    · exact hs.named shard x hx
    · exact hspec.id ▸ hne
  · intro shard x hx haction
    rcases hentries shard x hx with hx | rfl
    · exact hs.consultation shard x hx haction
    · have hkind := prlAction_injective (PyVal.str.inj (hspec.action.symm.trans haction))
      rw [hspec.decodes]
      cases hnode : c.node with
      | consultation n => exact ⟨n, rfl⟩
      | _ =>
        rw [hnode] at hkind
        cases hkind
  · intro shard x hx haction
    rcases hentries shard x hx with hx | rfl
    · exact hs.resolution shard x hx haction
    · have hkind := prlAction_injective (PyVal.str.inj (hspec.action.symm.trans haction))
      rw [hspec.decodes]
      cases hnode : c.node with
      | resolution n => exact ⟨n, rfl⟩
      | _ =>
        rw [hnode] at hkind
        cases hkind

/-- A store whose every entry has a string for its action. -/
def Named (s : Store F) : Prop :=
  ∀ shard, ∀ e ∈ s.entries shard, ∃ action, e.meta (py "action_name") = .str action

theorem Named.commit {s s' : Store F} {c : ActCall F} (hs : Named s)
    (h : commitAct lib msToIso s c = some s') : Named s' := by
  obtain ⟨e, he, rfl⟩ := Option.map_eq_some_iff.mp h
  intro shard x hx
  rw [Store.entries_append] at hx
  rcases List.mem_append.mp hx with hx | hx
  · exact hs shard x hx
  · split_ifs at hx
    · obtain rfl := List.mem_singleton.mp hx
      exact ⟨_, (ActCall.entry_spec he).action⟩
    · cases hx

theorem Named.builds {s : Store F} (hs : Named s) (stamp : Datetime → ℚ) :
    buildIndex stamp batchSize s = some (indexRecords (scanRecords stamp batchSize s)) := by
  rw [buildIndex, if_pos]
  rw [List.all_eq_true]
  intro r hr
  obtain ⟨shard, -, e, i, hget, rfl⟩ := (mem_scanRecords (by decide)).mp hr
  obtain ⟨action, haction⟩ := hs shard e (List.mem_reverse.mp (List.mem_of_getElem? hget))
  unfold IndexRecord.hashable entryToIndexRecord
  dsimp only
  rw [haction]
  split_ifs <;> rfl

/-- **What the writer makes of no store at all is certified, and its index builds**, whatever
nodes it is given in whatever shards. -/
theorem certified_commitActs {s₀ s : Store F} {cs : List (ActCall F)} (hs : Certified lib s₀)
    (hnamed : Named s₀) (hids : (s₀.ids ++ cs.map ActCall.id).Nodup) (hne : ∀ c ∈ cs, c.id ≠ [])
    (h : commitActs lib msToIso s₀ cs = some s) : Certified lib s ∧ Named s := by
  induction cs generalizing s₀ with
  | nil =>
    obtain rfl := Option.some.inj h
    exact ⟨hs, hnamed⟩
  | cons c cs ih =>
    rw [commitActs, List.foldlM_cons] at h
    obtain ⟨s₁, hc, hrest⟩ := Option.bind_eq_some_iff.mp h
    have hnew : c.id ∉ s₀.ids := by
      intro hmem
      exact (List.nodup_append.mp hids).2.2 c.id hmem c.id List.mem_cons_self rfl
    have hids₁ : (s₁.ids ++ cs.map ActCall.id).Nodup := by
      obtain ⟨e, he, rfl⟩ := Option.map_eq_some_iff.mp hc
      rw [((ids_append s₀ e).append_right _).nodup_iff, List.append_assoc,
        (ActCall.entry_spec he).id]
      exact hids
    exact ih (certified_commit hs hnew (hne c List.mem_cons_self) hc) (hnamed.commit hc) hids₁
      (fun x hx => hne x (List.mem_cons_of_mem _ hx)) hrest

/-- The first call is made, then the others. -/
theorem commitActs_cons {c : ActCall F} {e : StoredEntry F} (h : c.entry lib msToIso = some e)
    (s : Store F) (cs : List (ActCall F)) :
    commitActs lib msToIso s (c :: cs) = commitActs lib msToIso (s.append e) cs := by
  rw [commitActs, List.foldlM_cons, commitAct, h]
  rfl

theorem certified_empty (lib : Library F) : Certified lib (Store.empty : Store F) :=
  ⟨List.nodup_nil, fun _ _ h => absurd h List.not_mem_nil, fun _ _ h => absurd h List.not_mem_nil,
    fun _ _ h => absurd h List.not_mem_nil⟩

omit [PyFloat F] in
theorem named_empty : Named (Store.empty : Store F) := fun _ _ h => absurd h List.not_mem_nil

end

/-! ### The two orders -/

/-- The acts of a shard, newest first. -/
def shardActs (action : PyStr) (s : Store F) (shard : PyStr) : List (StoredEntry F) :=
  (s.entries shard).reverse.filter fun e => pyEq (e.meta (py "action_name")) (.str action)

/-- The acts of a store with their shards, in the order of a scan. -/
def acts (action : PyStr) (s : Store F) : List (PyStr × StoredEntry F) :=
  s.listShards.flatMap fun shard => (shardActs action s shard).map fun e => (shard, e)

/-- **The acts by time**; at one time they stand as a scan meets them. -/
def byTime (stamp : Datetime → ℚ) (action : PyStr) (s : Store F) : List (PyStr × StoredEntry F) :=
  StableSort.sortBy (fun p => stamp p.2.timestamp) (acts action s)

/-- What a record keeps of an act. -/
def actKey (stamp : Datetime → ℚ) (p : PyStr × StoredEntry F) : ℚ × PyStr × PyStr :=
  (stamp p.2.timestamp, p.2.id, p.1)

/-- **The acts shard by shard, newest first**; the shards stand as their earliest acts do. -/
def byShard (stamp : Datetime → ℚ) (action : PyStr) (s : Store F) : List (StoredEntry F) :=
  (Dict.keys (Dict.group Prod.fst (byTime stamp action s))).flatMap (shardActs action s)

/-- What acts show as consultations. -/
def views (lib : Library F) (es : List (StoredEntry F)) : List (ConsultationView F) :=
  es.filterMap fun e => (viewFromEntry lib (projectedOf e)).toOption

/-- **Shard by shard, newest first, the consultations of every subject are what they are by
time, and so is the first proposal on every claim.** -/
structure OneOrder (lib : Library F) (stamp : Datetime → ℚ) (s : Store F) : Prop where
  subjects : ∀ subject,
    ((views lib (byShard stamp (prlAction .consultation) s)).filter fun v => v.subjectId = subject)
      = (views lib ((byTime stamp (prlAction .consultation) s).map Prod.snd)).filter
          fun v => v.subjectId = subject
  proposals : ∀ claimId,
    firstProposal claimId (views lib (byShard stamp (prlAction .consultation) s))
      = firstProposal claimId (views lib ((byTime stamp (prlAction .consultation) s).map Prod.snd))

/-- The queries do not tell two projections apart. -/
structure SameResults {R R' : Type} (lib : Library F) (nav : RegistryProjection F R)
    (nav' : RegistryProjection F R') : Prop where
  standing : ∀ claimId, standingOf lib nav claimId = standingOf lib nav' claimId
  explain : ∀ claimId, explain lib nav claimId = explain lib nav' claimId
  list : ∀ subject,
    consultations lib nav (some subject) none = consultations lib nav' (some subject) none

/-! ### What the index holds of an action -/

section

variable {stamp : Datetime → ℚ} {action : PyStr} {s : Store F}

theorem mem_shardActs {shard : PyStr} {e : StoredEntry F} :
    e ∈ shardActs action s shard ↔
      e ∈ s.entries shard ∧ e.meta (py "action_name") = .str action := by
  rw [shardActs, List.mem_filter, List.mem_reverse, pyEq_str_right]

theorem mem_byTime {p : PyStr × StoredEntry F} :
    p ∈ byTime stamp action s ↔ p.2 ∈ shardActs action s p.1 := by
  rw [byTime, (StableSort.sortBy_perm _).mem_iff, acts, List.mem_flatMap]
  constructor
  · rintro ⟨shard, -, hp⟩
    obtain ⟨e, he, rfl⟩ := List.mem_map.mp hp
    exact he
  · intro hp
    exact ⟨p.1, Store.mem_listShards (mem_shardActs.mp hp).1, List.mem_map.mpr ⟨p.2, hp, rfl⟩⟩

variable (stamp) in
/-- **The records of an action are those of its acts, by time.** -/
theorem map_recordKey_navigateAction (hne : action ≠ []) (hunknown : action ≠ py "unknown") :
    (Daryl.navigateAction (indexRecords (scanRecords stamp batchSize s)) action).map recordKey
      = (byTime stamp action s).map (actKey stamp) := by
  have hscan : ((scanRecords stamp batchSize s).filter
      fun r => pyEq r.actionName (.str action)).map recordKey
      = (acts action s).map (actKey stamp) := by
    unfold scanRecords acts
    rw [List.filter_flatMap, List.map_flatMap, List.map_flatMap]
    apply List.flatMap_congr
    intro shard _
    rw [scanShard_eq (by decide), map_recordKey_filter hne hunknown, List.map_map]
    rfl
  have hrecords : ∀ rs : List (IndexRecord F),
      (sortByTime rs).map recordKey = StableSort.sortBy Prod.fst (rs.map recordKey) :=
    StableSort.map_sortBy fun r => rfl
  have hkey : ∀ p : PyStr × StoredEntry F, (actKey stamp p).1 = stamp p.2.timestamp := fun p => rfl
  rw [navigateAction_indexRecords, hrecords, hscan, byTime, StableSort.map_sortBy hkey]

variable (stamp) in
/-- **Joined by id, the records of an action are its acts by time.** -/
theorem filterMap_byId (hs : s.ids.Nodup) (hnamed : ∀ shard, ∀ e ∈ s.entries shard, e.id ≠ [])
    (hne : action ≠ []) (hunknown : action ≠ py "unknown") :
    ((Daryl.navigateAction (indexRecords (scanRecords stamp batchSize s)) action).filterMap
        fun rec => byId (Daryl.resolveEntries s batchSize (Daryl.navigateAction
          (indexRecords (scanRecords stamp batchSize s)) action)) rec.entryId)
      = (byTime stamp action s).map Prod.snd := by
  have hkeys := map_recordKey_navigateAction stamp (s := s) hne hunknown
  generalize Daryl.navigateAction (indexRecords (scanRecords stamp batchSize s)) action
    = records at hkeys ⊢
  have hjoin : ∀ p ∈ byTime stamp action s,
      byId (Daryl.resolveEntries s batchSize records) p.2.id = some p.2 := by
    intro p hp
    have hstored := (mem_shardActs.mp (mem_byTime.mp hp)).1
    have hkey := List.mem_map_of_mem (f := actKey stamp) hp
    rw [← hkeys] at hkey
    obtain ⟨r, hr, hrkey⟩ := List.mem_map.mp hkey
    have hid : r.entryId = p.2.id := congrArg (fun k => k.2.1) hrkey
    have hshard : r.shardId = p.1 := congrArg (fun k => k.2.2) hrkey
    rw [← hid]
    refine byId_resolveEntries (by decide) hr ?_ (hshard ▸ hstored) hid.symm ?_
    · rw [hid]
      exact hnamed p.1 p.2 hstored
    · intro shard x hx hxid
      exact (Store.only hs hx hstored (hxid.trans hid)).2
  have hids : (records.filterMap fun rec =>
      byId (Daryl.resolveEntries s batchSize records) rec.entryId)
      = (records.map recordKey).filterMap fun k =>
          byId (Daryl.resolveEntries s batchSize records) k.2.1 := by
    rw [List.filterMap_map]
    rfl
  rw [hids, hkeys, List.filterMap_map, ← List.filterMap_eq_map]
  apply List.filterMap_congr
  intro p hp
  exact hjoin p hp

variable (stamp) in
/-- **Resolved, the records of an action are its acts shard by shard, newest first.** -/
theorem resolveEntries_navigateAction (hs : s.ids.Nodup)
    (hnamed : ∀ shard, ∀ e ∈ s.entries shard, e.id ≠ [])
    (hne : action ≠ []) (hunknown : action ≠ py "unknown") :
    Daryl.resolveEntries s batchSize (Daryl.navigateAction
        (indexRecords (scanRecords stamp batchSize s)) action)
      = byShard stamp action s := by
  have hkeys := map_recordKey_navigateAction stamp (s := s) hne hunknown
  generalize Daryl.navigateAction (indexRecords (scanRecords stamp batchSize s)) action
    = records at hkeys ⊢
  have hshards : records.map IndexRecord.shardId = (byTime stamp action s).map Prod.fst := by
    have h := congrArg (List.map fun k : ℚ × PyStr × PyStr => k.2.2) hkeys
    rwa [List.map_map, List.map_map] at h
  rw [resolveEntries_eq (by decide) hs, Dict.group_eq, List.flatMap_map, byShard, Dict.keys_group,
    Dict.keys_group, hshards]
  apply List.flatMap_congr
  intro shard _
  apply List.filter_congr
  intro e he
  have he' := List.mem_reverse.mp he
  -- an id asked for in a shard is that of an act of the shard
  have hasked : e.id ∈ (records.filter fun r => r.shardId = shard).map IndexRecord.entryId ↔
      e.meta (py "action_name") = .str action := by
    constructor
    · intro h
      obtain ⟨r, hr, hid⟩ := List.mem_map.mp h
      obtain ⟨hrec, hshard⟩ := List.mem_filter.mp hr
      have hkey := List.mem_map_of_mem (f := recordKey) hrec
      rw [hkeys] at hkey
      obtain ⟨p, hp, hpkey⟩ := List.mem_map.mp hkey
      have hact := mem_shardActs.mp (mem_byTime.mp hp)
      have hpid : p.2.id = e.id := (congrArg (fun k => k.2.1) hpkey).trans hid
      rw [← (Store.only hs hact.1 he' hpid).2]
      exact hact.2
    · intro h
      have hp : (shard, e) ∈ byTime stamp action s := mem_byTime.mpr (mem_shardActs.mpr ⟨he', h⟩)
      have hkey := List.mem_map_of_mem (f := actKey stamp) hp
      rw [← hkeys] at hkey
      obtain ⟨r, hr, hrkey⟩ := List.mem_map.mp hkey
      refine List.mem_map.mpr ⟨r, List.mem_filter.mpr ⟨hr, decide_eq_true ?_⟩, ?_⟩
      · exact congrArg (fun k => k.2.2) hrkey
      · exact congrArg (fun k => k.2.1) hrkey
  rw [Bool.eq_iff_iff, decide_eq_true_iff, hasked, pyEq_str_right]
  exact and_iff_right (hnamed shard e he')

end

/-! ### What the queries see of an entry -/

section

variable {lib : Library F}

/-- What the queries use of an entry once it is found: what it decodes to, and its receipt. -/
def reading (lib : Library F) (e : ProjectedEntry F) : Except CommitError (PRLNode F) × PyStr :=
  (fromEntry lib e, e.hash)

/-- An action is all that decoding uses of the metadata. -/
theorem decode_of_meta {K α : Type} (models : ActionModels F K α) {e : StoredEntry F}
    {action : PyStr} (h : e.meta (py "action_name") = .str action) (content : PyVal F) :
    decode models e.metadata content
      = decode models (.dict (strItems [(py "action_name", .str action)])) content := by
  obtain ⟨kvs, hmeta, hget⟩ : ∃ kvs, e.metadata = .dict kvs ∧
      getNone (py "action_name") kvs = .str action := by
    unfold StoredEntry.meta StoredEntry.metadataItems at h
    cases hm : e.metadata with
    | dict kvs =>
      rw [hm] at h
      exact ⟨kvs, rfl, h⟩
    | _ =>
      rw [hm] at h
      cases h
  have hrow : getNone (py "action_name") (strItems [(py "action_name", (.str action : PyVal F))])
      = .str action := rfl
  rw [hmeta]
  unfold decode
  dsimp only
  rw [hget, hrow]

/-- A row reads as the entry it was made of. -/
theorem reading_row {e : StoredEntry F} {action : PyStr}
    (h : e.meta (py "action_name") = .str action) :
    reading lib (ActRow.mk e.id action e.content e.hash).projected = reading lib (projectedOf e) := by
  rw [reading, reading, fromEntry, fromEntry]
  congr 1
  exact (decode_of_meta (nodeModels lib) h _).symm

/-- The facts of a claim that a reading holds. -/
def factOf (claimId : PyStr) (r : Except CommitError (PRLNode F) × PyStr) :
    Except CommitError (Option ResolutionFact) :=
  r.1.map fun node => (resolutionOf claimId ⟨[], r.2, [], .none⟩ node).map fun p => fact p.1 p.2

/-- **The facts of a claim depend on the readings alone.** -/
theorem facts_resolutionsIn (claimId : PyStr) (es : List (ProjectedEntry F)) :
    (resolutionsIn lib claimId es).map (fun out => out.map fun p => fact p.1 p.2)
      = ((es.map (reading lib)).mapM (factOf claimId)).map fun out => out.filterMap id := by
  have hfacts : ∀ out : List (Option (ProjectedEntry F × ResolutionNode F)),
      (out.filterMap id).map (fun p => fact p.1 p.2)
        = (out.map fun o => o.map fun p => fact p.1 p.2).filterMap id := by
    intro out
    rw [List.map_filterMap, List.filterMap_map]
    rfl
  have hone : ∀ e, ((fromEntry lib e).map fun node => resolutionOf claimId e node).map
      (fun o => o.map fun p => fact p.1 p.2) = factOf claimId (reading lib e) := by
    intro e
    unfold factOf reading
    cases fromEntry lib e with
    | error err => rfl
    | ok node =>
      cases node with
      | resolution node =>
        simp only [Except.map, resolutionOf]
        split_ifs <;> rfl
      | _ => rfl
  have hmap : ∀ xs : List (ProjectedEntry F),
      (xs.mapM fun e => (fromEntry lib e).map fun node => resolutionOf claimId e node).map
        (fun out => out.map fun o => o.map fun p => fact p.1 p.2)
      = (xs.map (reading lib)).mapM (factOf claimId) := by
    intro xs
    induction xs with
    | nil => rfl
    | cons x xs ih =>
      rw [List.map_cons, List.mapM_cons, List.mapM_cons, ← ih, ← hone]
      cases (fromEntry lib x).map fun node => resolutionOf claimId x node with
      | error err => rfl
      | ok o =>
        cases xs.mapM fun e => (fromEntry lib e).map fun node => resolutionOf claimId e node with
        | error err => rfl
        | ok out => rfl
  rw [← hmap, resolutionsIn]
  cases es.mapM fun e => (fromEntry lib e).map fun node => resolutionOf claimId e node with
  | error err => rfl
  | ok out => exact congrArg Except.ok (hfacts out)

/-- What `view_from_entry` makes of a reading. -/
def viewOfReading (r : Except CommitError (PRLNode F) × PyStr) :
    Except CommitError (ConsultationView F) :=
  match r.1 with
  | .error err => .error err
  | .ok (.consultation node) => .ok (viewOf node r.2)
  | .ok _ => .error (.py .valueError)

/-- Where every step succeeds, so does the whole. -/
theorem mapM_toOption {A B E : Type} {f : A → Except E B} {l : List A}
    (h : ∀ a ∈ l, ∃ b, f a = .ok b) : l.mapM f = .ok (l.filterMap fun a => (f a).toOption) := by
  induction l with
  | nil => rfl
  | cons a l ih =>
    obtain ⟨b, hb⟩ := h a List.mem_cons_self
    rw [List.mapM_cons, hb, ih fun x hx => h x (List.mem_cons_of_mem _ hx),
      List.filterMap_cons_some (by rw [hb]; rfl)]
    rfl

/-- **Entries that read as consultations of the store are listed as their views.** -/
theorem consultations_eq {R : Type} {nav : RegistryProjection F R} {es : List (StoredEntry F)}
    (hread : (nav.resolveEntries (nav.navigateAction (prlAction .consultation))).map (reading lib)
      = es.map fun e => reading lib (projectedOf e))
    (hes : ∀ e ∈ es, ∃ n, fromEntry lib (projectedOf e) = .ok (.consultation n))
    (subjectId : Option PyStr) :
    consultations lib nav subjectId none
      = .ok ((views lib es).filter (keepsOf ConsultationView.subjectId subjectId)) := by
  have hview : ∀ e, viewFromEntry lib e = viewOfReading (reading lib e) := fun e => rfl
  have hok : ∀ e ∈ es, ∃ v, viewFromEntry lib (projectedOf e) = .ok v := by
    intro e he
    obtain ⟨n, hn⟩ := hes e he
    exact ⟨viewOf n e.hash, by rw [viewFromEntry, hn]; rfl⟩
  have hviews : (nav.resolveEntries (nav.navigateAction (prlAction .consultation))).mapM
      (viewFromEntry lib) = .ok (views lib es) := by
    have hmap : ∀ xs : List (ProjectedEntry F),
        xs.mapM (viewFromEntry lib) = (xs.map (reading lib)).mapM viewOfReading := by
      intro xs
      rw [List.mapM_map]
      rfl
    rw [hmap, hread, List.mapM_map]
    exact mapM_toOption hok
  have hall : ∀ vs : List (ConsultationView F), vs.filter (keepsOf ConsultationView.orgId none) = vs :=
    fun vs => List.filter_eq_self.mpr fun _ _ => rfl
  rw [consultations, hviews]
  exact congrArg Except.ok (hall _)

/-- **Facts of entries that read as resolutions of the store are found.** -/
theorem resolutionsOf_eq {R : Type} {nav : RegistryProjection F R} {es : List (StoredEntry F)}
    (hread : (joined nav (prlAction .resolution)).map (reading lib)
      = es.map fun e => reading lib (projectedOf e))
    (hes : ∀ e ∈ es, ∃ n, fromEntry lib (projectedOf e) = .ok (.resolution n)) (claimId : PyStr) :
    resolutionsOf lib nav claimId
      = .ok ((es.filterMap fun e =>
          (factOf claimId (reading lib (projectedOf e))).toOption).filterMap id) := by
  have hok : ∀ e ∈ es, ∃ o, factOf claimId (reading lib (projectedOf e)) = .ok o := by
    intro e he
    obtain ⟨n, hn⟩ := hes e he
    exact ⟨_, by rw [factOf, reading, hn]; rfl⟩
  rw [resolutionsOf, facts_resolutionsIn, hread, List.mapM_map]
  exact congrArg (Except.map fun out => out.filterMap id) (mapM_toOption hok)

end

/-! ### What the projections serve -/

section

variable {lib : Library F} {stamp : Datetime → ℚ} {action : PyStr} {s : Store F}

/-- The row of an act. -/
def rowOf (action : PyStr) (e : StoredEntry F) : ActRow := ⟨e.id, action, e.content, e.hash⟩

variable (stamp) in
theorem actRows_eq (hs : Certified lib s) (hne : action ≠ []) (hunknown : action ≠ py "unknown") :
    actRows s (indexRecords (scanRecords stamp batchSize s)) action
      = (byTime stamp action s).map fun p => rowOf action p.2 := by
  have h := congrArg (List.map (rowOf action)) (filterMap_byId stamp hs.ids hs.named hne hunknown)
  rw [List.map_map] at h
  exact h

variable (stamp) in
/-- **The read relay serves the acts by time to who joins, and shard by shard to who does
not.** -/
theorem serves_rrProjection (hs : Certified lib s) (hne : action ≠ [])
    (hunknown : action ≠ py "unknown") :
    let nav := rrProjection s (indexRecords (scanRecords stamp batchSize s))
    joined nav action = (byTime stamp action s).map (fun p => projectedOf p.2) ∧
      nav.resolveEntries (nav.navigateAction action)
        = (byShard stamp action s).map projectedOf := by
  have hresolve := resolveEntries_navigateAction stamp hs.ids hs.named hne hunknown
  have hjoin := filterMap_byId stamp hs.ids hs.named hne hunknown
  refine ⟨?_, congrArg (List.map projectedOf) hresolve⟩
  have hfind : ∀ (es : List (StoredEntry F)) (id : PyStr),
      ((es.map projectedOf).reverse.find? fun e => e.id = id) = (byId es id).map projectedOf := by
    intro es id
    rw [← List.map_reverse, List.find?_map]
    rfl
  have hentries := congrArg (List.map projectedOf) hjoin
  rw [List.map_filterMap, List.map_map] at hentries
  change (Daryl.navigateAction (indexRecords (scanRecords stamp batchSize s)) action).filterMap
    (fun rec => ((Daryl.resolveEntries s batchSize (Daryl.navigateAction (indexRecords
      (scanRecords stamp batchSize s)) action)).map projectedOf).reverse.find? fun e =>
        e.id = rec.entryId) = _
  simp only [hfind]
  exact hentries

/-- A value that no other of the list shares its key with is found by it. -/
theorem find?_reverse_of_mem {A : Type} (key : A → PyStr) {l : List A} {a : A} (ha : a ∈ l)
    (honly : ∀ b ∈ l, key b = key a → b = a) :
    (l.reverse.find? fun b => key b = key a) = some a := by
  cases hfind : l.reverse.find? fun b => key b = key a with
  | none => exact absurd (decide_eq_true rfl) (List.find?_eq_none.mp hfind a (List.mem_reverse.mpr ha))
  | some b =>
    have hkey := List.find?_some hfind
    rw [decide_eq_true_iff] at hkey
    rw [honly b (List.mem_reverse.mp (List.mem_of_find?_eq_some hfind)) hkey]

variable (stamp) in
/-- **The table serves the acts by time either way.** -/
theorem serves_sqliteProjection (hs : Certified lib s) (haction : action ∈ projectedActions) :
    let nav : RegistryProjection F _ := sqliteProjection
      (buildSqliteProjection s (indexRecords (scanRecords stamp batchSize s)))
    joined nav action = (byTime stamp action s).map (fun p => (rowOf action p.2).projected) ∧
      nav.resolveEntries (nav.navigateAction action)
        = (byTime stamp action s).map fun p => (rowOf action p.2).projected := by
  have hrows : buildSqliteProjection s (indexRecords (scanRecords stamp batchSize s))
      = projectedActions.flatMap fun a => (byTime stamp a s).map fun p => rowOf a p.2 := by
    apply List.flatMap_congr
    intro a ha
    apply actRows_eq stamp hs
    · rintro rfl
      exact absurd ha (by decide)
    · rintro rfl
      exact absurd ha (by decide)
  have hown : ∀ a, ∀ r ∈ (byTime stamp a s).map fun p => rowOf a p.2, r.actionName = a := by
    intro a r hr
    obtain ⟨p, -, rfl⟩ := List.mem_map.mp hr
    rfl
  have hact : ((buildSqliteProjection s (indexRecords (scanRecords stamp batchSize s))).filter
      fun r => r.actionName = action) = (byTime stamp action s).map fun p => rowOf action p.2 := by
    rw [hrows, Dict.filter_flatMap_key hown (show projectedActions.Nodup by decide), if_pos haction]
  -- an id is that of one row, of one action
  have hids : ∀ r ∈ buildSqliteProjection s (indexRecords (scanRecords stamp batchSize s)),
      ∀ p ∈ byTime stamp action s, r.entryId = p.2.id → r = rowOf action p.2 := by
    intro r hr p hp hid
    rw [hrows, List.mem_flatMap] at hr
    obtain ⟨a, -, hr⟩ := hr
    obtain ⟨q, hq, rfl⟩ := List.mem_map.mp hr
    have hp' := mem_shardActs.mp (mem_byTime.mp hp)
    have hq' := mem_shardActs.mp (mem_byTime.mp hq)
    have heq : q.2 = p.2 := (Store.only hs.ids hq'.1 hp'.1 hid).2
    have ha : a = action := PyVal.str.inj (hq'.2.symm.trans (heq ▸ hp'.2))
    rw [ha, heq]
  generalize buildSqliteProjection s (indexRecords (scanRecords stamp batchSize s)) = rows
    at hact hids ⊢
  have hnav : (sqliteProjection rows : RegistryProjection F _).navigateAction action
      = (byTime stamp action s).map fun p => (p.2.id, action) := by
    change (rows.filter fun r => r.actionName = action).map _ = _
    rw [hact, List.map_map]
    rfl
  have hresolve : (sqliteProjection rows : RegistryProjection F _).resolveEntries
      ((byTime stamp action s).map fun p => (p.2.id, action))
      = (byTime stamp action s).map fun p => (rowOf action p.2).projected := by
    have hfilter : (rows.filter fun r => r.entryId ∈
        ((byTime stamp action s).map fun p => (p.2.id, action)).map Prod.fst)
        = rows.filter fun r => r.actionName = action := by
      apply List.filter_congr
      intro r hr
      rw [decide_eq_decide, List.map_map, List.mem_map]
      constructor
      · rintro ⟨p, hp, hid⟩
        rw [hids r hr p hp hid.symm]
        rfl
      · intro h
        have hmem : r ∈ rows.filter fun r => r.actionName = action :=
          List.mem_filter.mpr ⟨hr, decide_eq_true h⟩
        rw [hact] at hmem
        obtain ⟨p, hp, rfl⟩ := List.mem_map.mp hmem
        exact ⟨p, hp, rfl⟩
    change (rows.filter _).map _ = _
    rw [hfilter, hact, List.map_map]
    rfl
  refine ⟨?_, by rw [hnav, hresolve]⟩
  unfold joined
  rw [hnav]
  have hfound : ∀ p ∈ byTime stamp action s,
      (((byTime stamp action s).map fun q => (rowOf action q.2).projected).reverse.find?
        fun e : ProjectedEntry F => e.id = p.2.id) = some (rowOf action p.2).projected := by
    intro p hp
    refine find?_reverse_of_mem ProjectedEntry.id (a := (rowOf action p.2).projected)
      (List.mem_map.mpr ⟨p, hp, rfl⟩) ?_
    intro e he hid
    obtain ⟨q, hq, rfl⟩ := List.mem_map.mp he
    have hq' := (mem_shardActs.mp (mem_byTime.mp hq)).1
    have hp' := (mem_shardActs.mp (mem_byTime.mp hp)).1
    rw [(Store.only hs.ids hq' hp' hid).2]
  change ((byTime stamp action s).map fun p => (p.2.id, action)).filterMap (fun rec =>
    ((sqliteProjection rows : RegistryProjection F _).resolveEntries
      ((byTime stamp action s).map fun p => (p.2.id, action))).reverse.find? fun e => e.id = rec.1) = _
  rw [hresolve, List.filterMap_map]
  conv_rhs => rw [← List.filterMap_eq_map]
  apply List.filterMap_congr
  intro p hp
  exact hfound p hp

/-- What both projections make of the resolutions of a claim. -/
def claimFacts (lib : Library F) (stamp : Datetime → ℚ) (s : Store F) (claimId : PyStr) :
    List ResolutionFact :=
  (((byTime stamp (prlAction .resolution) s).map Prod.snd).filterMap fun e =>
    (factOf claimId (reading lib (projectedOf e))).toOption).filterMap id

variable (stamp) in
/-- **Who joins reads the same facts over both.** -/
theorem resolutionsOf_projections (hs : Certified lib s) (claimId : PyStr) :
    resolutionsOf lib (rrProjection s (indexRecords (scanRecords stamp batchSize s))) claimId
        = .ok (claimFacts lib stamp s claimId) ∧
      resolutionsOf lib (sqliteProjection
        (buildSqliteProjection s (indexRecords (scanRecords stamp batchSize s)))) claimId
        = .ok (claimFacts lib stamp s claimId) := by
  have hes : ∀ e ∈ (byTime stamp (prlAction .resolution) s).map Prod.snd,
      ∃ n, fromEntry lib (projectedOf e) = .ok (.resolution n) := by
    intro e he
    obtain ⟨p, hp, rfl⟩ := List.mem_map.mp he
    have hp' := mem_shardActs.mp (mem_byTime.mp hp)
    exact hs.resolution p.1 p.2 hp'.1 hp'.2
  constructor
  · apply resolutionsOf_eq _ hes
    rw [(serves_rrProjection stamp hs (by decide) (by decide)).1, List.map_map, List.map_map]
    rfl
  · apply resolutionsOf_eq _ hes
    rw [(serves_sqliteProjection stamp hs (by decide)).1, List.map_map, List.map_map]
    apply List.map_congr_left
    intro p hp
    exact reading_row (mem_shardActs.mp (mem_byTime.mp hp)).2

variable (stamp) in
/-- **Who does not join reads the consultations shard by shard over the one, by time over the
other.** -/
theorem consultations_projections (hs : Certified lib s) (subjectId : Option PyStr) :
    consultations lib (rrProjection s (indexRecords (scanRecords stamp batchSize s))) subjectId none
        = .ok ((views lib (byShard stamp (prlAction .consultation) s)).filter
            (keepsOf ConsultationView.subjectId subjectId)) ∧
      consultations lib (sqliteProjection
        (buildSqliteProjection s (indexRecords (scanRecords stamp batchSize s)))) subjectId none
        = .ok ((views lib ((byTime stamp (prlAction .consultation) s).map Prod.snd)).filter
            (keepsOf ConsultationView.subjectId subjectId)) := by
  constructor
  · apply consultations_eq
    · rw [(serves_rrProjection stamp hs (by decide) (by decide)).2, List.map_map]
      rfl
    · intro e he
      obtain ⟨shard, -, he⟩ := List.mem_flatMap.mp he
      exact hs.consultation shard e (mem_shardActs.mp he).1 (mem_shardActs.mp he).2
  · apply consultations_eq
    · rw [(serves_sqliteProjection stamp hs (by decide)).2, List.map_map, List.map_map]
      apply List.map_congr_left
      intro p hp
      exact reading_row (mem_shardActs.mp (mem_byTime.mp hp)).2
    · intro e he
      obtain ⟨p, hp, rfl⟩ := List.mem_map.mp he
      have hp' := mem_shardActs.mp (mem_byTime.mp hp)
      exact hs.consultation p.1 p.2 hp'.1 hp'.2

/-- An explanation is made of the views and the facts. -/
theorem explain_eq_ok {R : Type} {nav : RegistryProjection F R} {claimId : PyStr}
    {vs : List (ConsultationView F)} {facts : List ResolutionFact}
    (hviews : consultations lib nav none none = .ok vs)
    (hfacts : resolutionsOf lib nav claimId = .ok facts) :
    explain lib nav claimId = .ok
      { claimId := claimId
        proposal := firstProposal claimId vs
        resolutions := facts
        standing := (deriveStanding claimId facts).standing
        conflict := (deriveStanding claimId facts).conflict
        conflictParties := (deriveStanding claimId facts).conflictParties
        governedStanding := (deriveStanding claimId facts).governedStanding } := by
  have hstanding : standingOf lib nav claimId = .ok (deriveStanding claimId facts) := by
    rw [standingOf, hfacts]
    rfl
  rw [explain, hviews, hfacts, hstanding]

variable (stamp) in
/-- An explanation is the same over both iff the first proposal is. -/
theorem explain_projections_iff (hs : Certified lib s) (claimId : PyStr) :
    explain lib (rrProjection s (indexRecords (scanRecords stamp batchSize s))) claimId
        = explain lib (sqliteProjection
          (buildSqliteProjection s (indexRecords (scanRecords stamp batchSize s)))) claimId ↔
      firstProposal claimId (views lib (byShard stamp (prlAction .consultation) s))
        = firstProposal claimId
            (views lib ((byTime stamp (prlAction .consultation) s).map Prod.snd)) := by
  have hall : ∀ vs : List (ConsultationView F),
      vs.filter (keepsOf ConsultationView.subjectId none) = vs :=
    fun vs => List.filter_eq_self.mpr fun _ _ => rfl
  obtain ⟨hrrAll, hsqliteAll⟩ := consultations_projections stamp hs none
  rw [hall] at hrrAll hsqliteAll
  obtain ⟨hrr, hsqlite⟩ := resolutionsOf_projections stamp hs claimId
  rw [explain_eq_ok hrrAll hrr, explain_eq_ok hsqliteAll hsqlite]
  constructor
  · exact fun h => congrArg Explanation.proposal (Except.ok.inj h)
  · intro h
    rw [h]

variable (stamp) in
/-- The list of a subject is the same over both iff its consultations stand in one order. -/
theorem consultations_projections_iff (hs : Certified lib s) (subject : PyStr) :
    consultations lib (rrProjection s (indexRecords (scanRecords stamp batchSize s)))
        (some subject) none
        = consultations lib (sqliteProjection (buildSqliteProjection s
            (indexRecords (scanRecords stamp batchSize s)))) (some subject) none ↔
      ((views lib (byShard stamp (prlAction .consultation) s)).filter
          fun v => v.subjectId = subject)
        = (views lib ((byTime stamp (prlAction .consultation) s).map Prod.snd)).filter
            fun v => v.subjectId = subject := by
  obtain ⟨hrr, hsqlite⟩ := consultations_projections stamp hs (some subject)
  rw [hrr, hsqlite]
  exact ⟨Except.ok.inj, congrArg Except.ok⟩

theorem eq_indexRecords {idx : RRIndex F} (hidx : buildIndex stamp batchSize s = some idx) :
    idx = indexRecords (scanRecords stamp batchSize s) := by
  unfold buildIndex at hidx
  dsimp only at hidx
  split at hidx
  · exact (Option.some.inj hidx).symm
  · cases hidx

/-- **Over a certified store the standing of a claim is the same over both projections, and
explanations and lists are iff the two orders of the store show the same.** -/
theorem sameResults_iff (lib : Library F) (stamp : Datetime → ℚ) (s : Store F)
    (hs : Certified lib s) (idx : RRIndex F) (hidx : buildIndex stamp batchSize s = some idx) :
    (∀ claimId, standingOf lib (rrProjection s idx) claimId
      = standingOf lib (sqliteProjection (buildSqliteProjection s idx)) claimId) ∧
    (SameResults lib (rrProjection s idx) (sqliteProjection (buildSqliteProjection s idx)) ↔
      OneOrder lib stamp s) := by
  obtain rfl := eq_indexRecords hidx
  have hstanding : ∀ claimId,
      standingOf lib (rrProjection s (indexRecords (scanRecords stamp batchSize s))) claimId
        = standingOf lib (sqliteProjection
            (buildSqliteProjection s (indexRecords (scanRecords stamp batchSize s)))) claimId := by
    intro claimId
    obtain ⟨hrr, hsqlite⟩ := resolutionsOf_projections stamp hs claimId
    rw [standingOf, standingOf, hrr, hsqlite]
  refine ⟨hstanding, ?_⟩
  constructor
  · intro h
    exact ⟨fun subject => (consultations_projections_iff stamp hs subject).mp (h.list subject),
      fun claimId => (explain_projections_iff stamp hs claimId).mp (h.explain claimId)⟩
  · intro h
    exact ⟨hstanding,
      fun claimId => (explain_projections_iff stamp hs claimId).mpr (h.proposals claimId),
      fun subject => (consultations_projections_iff stamp hs subject).mpr (h.subjects subject)⟩

end

/-! ### One shard -/

section

variable {stamp : Datetime → ℚ} {s : Store F} {shard : PyStr}

/-- Without other shards the scan of an action is that of the shard. -/
theorem acts_single (hlist : s.listShards = [shard]) (action : PyStr) :
    acts action s = (shardActs action s shard).map fun e => (shard, e) := by
  rw [acts, hlist, List.flatMap_singleton]

/-- **Over one shard, shard by shard is newest first.** -/
theorem byShard_single (hlist : s.listShards = [shard]) (action : PyStr) :
    byShard stamp action s = shardActs action s shard := by
  unfold byShard
  cases hacts : shardActs action s shard with
  | nil =>
    rw [List.flatMap_eq_nil_iff]
    intro k hk
    obtain ⟨p, hp, rfl⟩ := Dict.mem_keys_group.mp hk
    have hp' := mem_byTime.mp hp
    have hmem : p.1 ∈ s.listShards := Store.mem_listShards (mem_shardActs.mp hp').1
    rw [hlist, List.mem_singleton] at hmem
    rw [hmem, hacts]
  | cons e es =>
    have hkeys : Dict.keys (Dict.group Prod.fst (byTime stamp action s)) = [shard] := by
      have hall : ∀ k ∈ Dict.keys (Dict.group Prod.fst (byTime stamp action s)), k = shard := by
        intro k hk
        obtain ⟨p, hp, rfl⟩ := Dict.mem_keys_group.mp hk
        have hmem : p.1 ∈ s.listShards :=
          Store.mem_listShards (mem_shardActs.mp (mem_byTime.mp hp)).1
        rwa [hlist, List.mem_singleton] at hmem
      have hmem : shard ∈ Dict.keys (Dict.group Prod.fst (byTime stamp action s)) := by
        refine Dict.mem_keys_group.mpr ⟨(shard, e), mem_byTime.mpr ?_, rfl⟩
        rw [hacts]
        exact List.mem_cons_self
      have hrep := List.eq_replicate_of_mem hall
      have hnodup := Dict.nodup_keys_group Prod.fst (byTime stamp action s)
      have hpos := List.length_pos_of_mem hmem
      rw [hrep, List.nodup_replicate] at hnodup
      have hone : (Dict.keys (Dict.group Prod.fst (byTime stamp action s))).length = 1 := by omega
      rw [hrep, hone]
      rfl
    rw [hkeys, List.flatMap_singleton, hacts]

/-- **Over one shard whose entries were appended in the order of their times, by time is
the other way round.** -/
theorem byTime_single (hlist : s.listShards = [shard])
    (hmono : (s.entries shard).Pairwise fun e e' => stamp e.timestamp < stamp e'.timestamp)
    (action : PyStr) :
    (byTime stamp action s).map Prod.snd = (shardActs action s shard).reverse := by
  have hperm : ((byTime stamp action s).map Prod.snd).Perm (shardActs action s shard).reverse := by
    refine ((StableSort.sortBy_perm _).map Prod.snd).trans ?_
    rw [acts_single hlist, List.map_map]
    exact (List.map_id _).symm ▸ (List.reverse_perm _).symm
  have hacts : (shardActs action s shard).reverse.Pairwise
      fun e e' => stamp e.timestamp < stamp e'.timestamp := by
    rw [shardActs, ← List.filter_reverse, List.reverse_reverse]
    exact hmono.filter _
  have hsorted : ((byTime stamp action s).map Prod.snd).Pairwise
      fun e e' => stamp e.timestamp ≤ stamp e'.timestamp :=
    List.pairwise_map.mpr (StableSort.pairwise_sortBy _)
  -- no two acts have one time, so the sorted list is the only one
  have htimes : ((shardActs action s shard).reverse.map fun e => stamp e.timestamp).Nodup :=
    List.pairwise_map.mpr (hacts.imp ne_of_lt)
  refine List.Perm.eq_of_pairwise ?_ hsorted (hacts.imp le_of_lt) hperm
  intro e e' he he' hle hle'
  exact List.inj_on_of_nodup_map htimes (hperm.mem_iff.mp he) he' (le_antisymm hle hle')

/-- **Over one such shard the two orders show the same iff the consultations of every subject
read the same backwards, and the first proposal on every claim is the last.** -/
theorem oneOrder_single_iff (lib : Library F) (hlist : s.listShards = [shard])
    (hmono : (s.entries shard).Pairwise fun e e' => stamp e.timestamp < stamp e'.timestamp) :
    OneOrder lib stamp s ↔
      (∀ subject, ((views lib (shardActs (prlAction .consultation) s shard)).filter
          fun v => v.subjectId = subject).reverse
        = (views lib (shardActs (prlAction .consultation) s shard)).filter
            fun v => v.subjectId = subject) ∧
      ∀ claimId, firstProposal claimId (views lib (shardActs (prlAction .consultation) s shard))
        = firstProposal claimId
            (views lib (shardActs (prlAction .consultation) s shard)).reverse := by
  have hreverse : views lib ((byTime stamp (prlAction .consultation) s).map Prod.snd)
      = (views lib (shardActs (prlAction .consultation) s shard)).reverse := by
    rw [byTime_single hlist hmono, views, List.filterMap_reverse]
    rfl
  constructor
  · intro h
    refine ⟨fun subject => ?_, fun claimId => ?_⟩
    · have hsubject := h.subjects subject
      rw [hreverse, byShard_single hlist, List.filter_reverse] at hsubject
      exact hsubject.symm
    · have hclaim := h.proposals claimId
      rwa [hreverse, byShard_single hlist] at hclaim
  · rintro ⟨hsubjects, hproposals⟩
    refine ⟨fun subject => ?_, fun claimId => ?_⟩
    · rw [hreverse, byShard_single hlist, List.filter_reverse]
      exact (hsubjects subject).symm
    · rw [hreverse, byShard_single hlist]
      exact hproposals claimId

end

/-! ### Two proposals on a claim -/

/-- A proposal on the claim `m` about the subject `s`. -/
def sampleProposal (answer : Text) : PRLNode FloatLit :=
  .consultation
    { consultationId := ⟨py "k", by decide⟩
      subjectId := ⟨py "s", encodable_s⟩
      mode := .proposal
      answer := answer
      mef := (sampleResolution .accepted).mef
      orgId := none }

/-- A proposal, and a second later another. -/
def firstAct : ActCall FloatLit :=
  ⟨sampleProposal ⟨py "yes", by decide⟩, ⟨py "run", encodable_run⟩,
    ⟨py "prl_consultations", encodable_consultations⟩,
    ⟨⟨2026, 1, 2, 3, 4, 5, 6000, some 0⟩, sampleMilli_valid⟩, py "e1", py "v1:1"⟩

def secondAct : ActCall FloatLit :=
  ⟨sampleProposal ⟨py "no", by decide⟩, ⟨py "run", encodable_run⟩,
    ⟨py "prl_consultations", encodable_consultations⟩,
    ⟨⟨2026, 1, 2, 3, 4, 6, 6000, some 0⟩, by decide⟩, py "e2", py "v1:2"⟩

/-- No node of the sample has a time of its own. -/
def noTime : ℤ → Except PyError PyStr := fun _ => .error .valueError

/-- The two acts are committed: the store is certified, and the acts stand as they were
committed in their shard. -/
theorem exists_sampleStore : ∃ (s : Store FloatLit) (e e' : StoredEntry FloatLit),
    commitActs sampleLibrary noTime Store.empty [firstAct, secondAct] = some s ∧
      firstAct.Entry sampleLibrary e ∧ secondAct.Entry sampleLibrary e' ∧
      sampleClock e.timestamp < sampleClock e'.timestamp ∧
      s.listShards = [py "prl_consultations"] ∧ s.entries (py "prl_consultations") = [e, e'] ∧
      Certified sampleLibrary s ∧
      buildIndex sampleClock batchSize s = some (indexRecords (scanRecords sampleClock batchSize s)) := by
  have hfirst : (firstAct.entry sampleLibrary noTime).isSome = true := by decide +kernel
  have hsecond : (secondAct.entry sampleLibrary noTime).isSome = true := by decide +kernel
  obtain ⟨e, he⟩ := Option.isSome_iff_exists.mp hfirst
  obtain ⟨e', he'⟩ := Option.isSome_iff_exists.mp hsecond
  have hspec := ActCall.entry_spec he
  have hspec' := ActCall.entry_spec he'
  have hcommit : commitActs sampleLibrary noTime Store.empty [firstAct, secondAct]
      = some ((Store.empty.append e).append e') := by
    rw [commitActs_cons he, commitActs_cons he']
    rfl
  obtain ⟨hcertified, hnamed⟩ := certified_commitActs (certified_empty _) named_empty
    (by decide) (by decide) hcommit
  refine ⟨_, e, e', hcommit, hspec, hspec', ?_, ?_, ?_, hcertified, hnamed.builds _⟩
  · rw [ActCall.timestamp_entry he rfl, ActCall.timestamp_entry he' rfl]
    decide +kernel
  · change Dict.keys (Dict.push e'.shard e' (Dict.push e.shard e [])) = _
    rw [hspec.shard, hspec'.shard]
    rfl
  · rw [Store.entries_append, Store.entries_append, hspec.shard, hspec'.shard]
    rfl

/-- A consultation that was committed shows its receipt. -/
theorem ActCall.Entry.view {c : ActCall F} {e : StoredEntry F} {node : ConsultationNode F}
    (h : c.Entry lib e) (hnode : c.node = .consultation node) :
    viewFromEntry lib (projectedOf e) = .ok (viewOf node c.hash) := by
  rw [viewFromEntry, h.decodes, hnode, ← h.hash]
  rfl

theorem views_pair {e e' : StoredEntry F} {v v' : ConsultationView F}
    (h : viewFromEntry lib (projectedOf e) = .ok v)
    (h' : viewFromEntry lib (projectedOf e') = .ok v') : views lib [e, e'] = [v, v'] := by
  simp only [views, List.filterMap_cons, List.filterMap_nil, h, h', Except.toOption]

/-- The relay explains the claim by the second proposal, the table by the first. -/
theorem explanations_differ : ∃ s idx,
    commitActs sampleLibrary noTime Store.empty [firstAct, secondAct] = some s ∧
      Certified sampleLibrary s ∧ buildIndex sampleClock batchSize s = some idx ∧
      ¬SameResults sampleLibrary (rrProjection s idx)
        (sqliteProjection (buildSqliteProjection s idx)) := by
  obtain ⟨s, e, e', hcommit, hspec, hspec', htime, hlist, hentries, hs, hidx⟩ := exists_sampleStore
  refine ⟨s, _, hcommit, hs, hidx, ?_⟩
  intro h
  have hproposal := (explain_projections_iff sampleClock hs (py "m")).mp (h.explain (py "m"))
  have hmono : (s.entries (py "prl_consultations")).Pairwise
      fun x y => sampleClock x.timestamp < sampleClock y.timestamp := by
    rw [hentries]
    exact List.pairwise_pair.mpr htime
  have hacts : shardActs (prlAction .consultation) s (py "prl_consultations") = [e', e] := by
    rw [shardActs, hentries, List.filter_eq_self.mpr]
    · rfl
    · intro x hx
      simp only [List.reverse_cons, List.reverse_nil, List.nil_append, List.cons_append,
        List.mem_cons, List.not_mem_nil, or_false] at hx
      rcases hx with rfl | rfl
      · exact pyEq_str_right.mpr hspec'.action
      · exact pyEq_str_right.mpr hspec.action
  -- newest first the second proposal is met first, by time the first
  rw [byShard_single hlist, byTime_single hlist hmono, hacts,
    show [e', e].reverse = [e, e'] from rfl, views_pair (hspec'.view rfl) (hspec.view rfl),
    views_pair (hspec.view rfl) (hspec'.view rfl)] at hproposal
  have hreceipt := congrArg (Option.map ProposalFact.receipt) hproposal
  exact absurd hreceipt (by decide)

/-- Two proposals are read over both. -/
theorem sameResults_iff_sample : ∃ s idx,
    commitActs sampleLibrary noTime Store.empty [firstAct, secondAct] = some s ∧
      (∀ claimId, standingOf sampleLibrary (rrProjection s idx) claimId
        = standingOf sampleLibrary (sqliteProjection (buildSqliteProjection s idx)) claimId) ∧
      (SameResults sampleLibrary (rrProjection s idx)
          (sqliteProjection (buildSqliteProjection s idx)) ↔
        OneOrder sampleLibrary sampleClock s) := by
  obtain ⟨s, e, e', hcommit, -, -, -, -, -, hs, hidx⟩ := exists_sampleStore
  exact ⟨s, _, hcommit, sameResults_iff sampleLibrary sampleClock s hs _ hidx⟩

end Projections

end Daryl
