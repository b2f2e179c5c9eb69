import Daryl.Lib.Grouped
import Daryl.Rr.Navigator
import Daryl.Rr.Query

/-!
# `rr_query_engine`: a query that is resolved

A query can return the entries in place of their records.  The entries are found shard by shard,
newest first, whatever the order of the records, and the limit is applied a second time, while
they are gathered.

## Main definitions

* `resolveEntriesUpTo` — the resolution with a limit.
* `queryResolved` — the query with `resolve=True`.
* `EntryOf` — the record is that of the entry.
* `selected`, `requested` — the records that survive a query, in the order that is asked for.
* `ResolvesInOrder` — when a resolution leaves the order as it is.

## Main results

* `resolveEntriesUpTo_eq` — a limit that the records keep is met by their entries.
* `forall₂_arranged` — what is found are the entries of the records, arranged shard by shard.
* `queryResolved_iff` — **when a query that is resolved returns the entries of the records that it
  returns without, in their order.**
-/

namespace Daryl

open Py Grouped

variable {F : Type}

/-! ### The resolution with a limit -/

/-- `xs[:limit]`. -/
def upTo {A : Type} (limit : ℤ) (xs : List A) : List A :=
  xs.take (if limit < 0 then (xs.length + limit).toNat else limit.toNat)

/-- `_RESOLVE_BATCH_SIZE`. -/
def resolveBatchSize : ℕ := 5000

section

variable (limit : ℤ)

/-- The loop body over the entries of a page; an error is what is returned. -/
def Resolving.visitUpTo (st : Resolving F) (e : StoredEntry F) :
    Except (List (StoredEntry F)) (Resolving F) :=
  if e.id = [] ∨ e.id ∉ st.stillNeeded ∨ e.id ∈ st.seenIds then .ok st
  else
    let st' := st.visit e
    if limit ≤ st'.entriesOut.length then .error (upTo limit st'.entriesOut) else .ok st'

/-- The entries of a page. -/
def visitAllUpTo (st : Resolving F) :
    List (StoredEntry F) → Except (List (StoredEntry F)) (Resolving F)
  | [] => .ok st
  | e :: es => (st.visitUpTo limit e).bind fun st' => visitAllUpTo st' es

/-- The loop over the pages of a shard, from an offset. -/
def resolveFromUpTo (s : Store F) (shard : PyStr) (batchSize : ℕ) :
    ℕ → ℕ → Resolving F → Except (List (StoredEntry F)) (Resolving F)
  | 0, _, st => .ok st
  | fuel + 1, offset, st =>
    let batch := s.read shard offset batchSize
    if batch = [] then .ok st
    else
      (visitAllUpTo limit st batch).bind fun st' =>
        if st'.stillNeeded = [] then .ok st'
        else if batch.length < batchSize then .ok st'
        else resolveFromUpTo s shard batchSize fuel (offset + batch.length) st'

/-- The loop body over the shards of the records. -/
def resolveShardUpTo (s : Store F) (batchSize : ℕ) (st : Resolving F)
    (recs : PyStr × List (IndexRecord F)) : Except (List (StoredEntry F)) (Resolving F) :=
  let requested := (recs.2.map IndexRecord.entryId).filter (· ≠ [])
  let needed := requested.filter (· ∉ st.seenIds)
  if needed = [] then .ok st
  else
    resolveFromUpTo limit s recs.1 batchSize ((s.entries recs.1).length + 1) 0
      { st with stillNeeded := needed }

/-- The loop over the shards.  Behind it, also when it is left, the entries are cut. -/
def resolveShardsUpTo (s : Store F) (batchSize : ℕ) (st : Resolving F) :
    List (PyStr × List (IndexRecord F)) → List (StoredEntry F)
  | [] => upTo limit st.entriesOut
  | recs :: groups =>
    if limit ≤ st.entriesOut.length then upTo limit st.entriesOut
    else
      match resolveShardUpTo limit s batchSize st recs with
      | .error out => out
      | .ok st' => resolveShardsUpTo s batchSize st' groups

/-- `resolve_entries`, with a limit. -/
def resolveEntriesUpTo (s : Store F) (batchSize : ℕ) (records : List (IndexRecord F)) :
    List (StoredEntry F) :=
  resolveShardsUpTo limit s batchSize ⟨[], [], []⟩ (Dict.group IndexRecord.shardId records)

end

/-- `query`, with `resolve=True`. -/
def queryResolved (stamp : Datetime → ℚ) (s : Store F) (idx : RRIndex F) (c : Criteria)
    (limit : Option ℤ) (sort : Option PyStr) : List (StoredEntry F) :=
  let records := query stamp idx c limit sort
  match limit with
  | some n => resolveEntriesUpTo n s resolveBatchSize records
  | none => resolveEntries s resolveBatchSize records

/-! ### A limit that the records keep -/

/-- A loop with a limit returns the state of the loop without, or a beginning of what that finds
which is as long as the limit. -/
def Cuts (limit : ℕ) (st' : Resolving F) : Except (List (StoredEntry F)) (Resolving F) → Prop
  | .ok st => st = st'
  | .error out => out <+: st'.entriesOut ∧ limit ≤ out.length

theorem upTo_natCast {A : Type} (n : ℕ) (xs : List A) : upTo (n : ℤ) xs = xs.take n := by
  rw [upTo, if_neg (by omega), Int.toNat_natCast]

theorem Cuts.bind {limit : ℕ} {st' st'' : Resolving F}
    {r : Except (List (StoredEntry F)) (Resolving F)}
    {g : Resolving F → Except (List (StoredEntry F)) (Resolving F)} (h : Cuts limit st' r)
    (hinit : st'.entriesOut <+: st''.entriesOut) (hg : Cuts limit st'' (g st')) :
    Cuts limit st'' (r.bind g) := by
  cases r with
  | ok st =>
    obtain rfl : st = st' := h
    exact hg
  | error out => exact ⟨h.1.trans hinit, h.2⟩

theorem prefix_visit (st : Resolving F) (e : StoredEntry F) :
    st.entriesOut <+: (st.visit e).entriesOut := by
  unfold Resolving.visit
  split_ifs
  · exact List.prefix_refl _
  · exact List.prefix_append _ _

theorem prefix_foldl : ∀ (es : List (StoredEntry F)) (st : Resolving F),
    st.entriesOut <+: (es.foldl Resolving.visit st).entriesOut
  | [], st => List.prefix_refl st.entriesOut
  | e :: es, st => (prefix_visit st e).trans (prefix_foldl es (st.visit e))

theorem cuts_visit (limit : ℕ) (st : Resolving F) (e : StoredEntry F) :
    Cuts limit (st.visit e) (st.visitUpTo limit e) := by
  unfold Resolving.visitUpTo
  by_cases hskip : e.id = [] ∨ e.id ∉ st.stillNeeded ∨ e.id ∈ st.seenIds
  · rw [if_pos hskip, Resolving.visit, if_pos hskip]
    rfl
  · rw [if_neg hskip]
    dsimp only
    split_ifs with hfull
    · rw [upTo_natCast]
      refine ⟨List.take_prefix _ _, ?_⟩
      rw [List.length_take]
      omega
    · rfl

theorem cuts_visitAll (limit : ℕ) : ∀ (es : List (StoredEntry F)) (st : Resolving F),
    Cuts limit (es.foldl Resolving.visit st) (visitAllUpTo limit st es) := by
  intro es
  induction es with
  | nil => exact fun st => rfl
  | cons e es ih =>
    intro st
    exact (cuts_visit limit st e).bind (prefix_foldl es _) (ih _)

theorem prefix_resolveFrom (s : Store F) (shard : PyStr) (batchSize : ℕ) :
    ∀ fuel offset (st : Resolving F),
      st.entriesOut <+: (resolveFrom s shard batchSize fuel offset st).entriesOut := by
  intro fuel
  induction fuel with
  | zero => exact fun _ st => List.prefix_refl st.entriesOut
  | succ fuel ih =>
    intro offset st
    rw [resolveFrom]
    dsimp only
    have hpage := prefix_foldl (s.read shard offset batchSize) st
    split_ifs
    · exact List.prefix_refl _
    · exact hpage
    · exact hpage
    · exact hpage.trans (ih _ _)

theorem cuts_resolveFrom (limit : ℕ) (s : Store F) (shard : PyStr) (batchSize : ℕ) :
    ∀ fuel offset (st : Resolving F), Cuts limit (resolveFrom s shard batchSize fuel offset st)
      (resolveFromUpTo limit s shard batchSize fuel offset st) := by
  intro fuel
  induction fuel with
  | zero => exact fun _ _ => rfl
  | succ fuel ih =>
    intro offset st
    rw [resolveFrom, resolveFromUpTo]
    dsimp only
    by_cases hnil : s.read shard offset batchSize = []
    · rw [if_pos hnil, if_pos hnil]
      rfl
    · rw [if_neg hnil, if_neg hnil]
      refine (cuts_visitAll limit _ st).bind ?_ ?_
      · split_ifs
        · exact List.prefix_refl _
        · exact List.prefix_refl _
        · exact prefix_resolveFrom s shard batchSize fuel _ _
      · split_ifs
        · rfl
        · rfl
        · exact ih _ _

theorem prefix_resolveShard (s : Store F) (batchSize : ℕ) (st : Resolving F)
    (recs : PyStr × List (IndexRecord F)) :
    st.entriesOut <+: (resolveShard s batchSize st recs).entriesOut := by
  unfold resolveShard
  dsimp only
  split_ifs
  · exact List.prefix_refl _
  · have hfrom := prefix_resolveFrom s recs.1 batchSize ((s.entries recs.1).length + 1) 0
      { st with stillNeeded :=
          ((recs.2.map IndexRecord.entryId).filter (· ≠ [])).filter (· ∉ st.seenIds) }
    exact hfrom

theorem cuts_resolveShard (limit : ℕ) (s : Store F) (batchSize : ℕ) (st : Resolving F)
    (recs : PyStr × List (IndexRecord F)) :
    Cuts limit (resolveShard s batchSize st recs) (resolveShardUpTo limit s batchSize st recs) := by
  unfold resolveShard resolveShardUpTo
  dsimp only
  split_ifs
  · rfl
  · exact cuts_resolveFrom limit s recs.1 batchSize _ 0 _

theorem prefix_resolveShards (s : Store F) (batchSize : ℕ) :
    ∀ (groups : List (PyStr × List (IndexRecord F))) (st : Resolving F),
      st.entriesOut <+: (groups.foldl (resolveShard s batchSize) st).entriesOut
  | [], st => List.prefix_refl st.entriesOut
  | recs :: groups, st =>
    (prefix_resolveShard s batchSize st recs).trans (prefix_resolveShards s batchSize groups _)

/-- The shards with a limit give what they give without, where that keeps the limit. -/
theorem resolveShardsUpTo_eq {limit : ℕ} (s : Store F) (batchSize : ℕ) :
    ∀ (groups : List (PyStr × List (IndexRecord F))) (st : Resolving F),
      (groups.foldl (resolveShard s batchSize) st).entriesOut.length ≤ limit →
      resolveShardsUpTo limit s batchSize st groups
        = (groups.foldl (resolveShard s batchSize) st).entriesOut := by
  -- what is as long as the limit is all there is
  have hall : ∀ {out all : List (StoredEntry F)}, out <+: all → limit ≤ out.length →
      all.length ≤ limit → out = all := by
    intro out all hprefix hlong hkeeps
    exact hprefix.eq_of_length (le_antisymm hprefix.length_le (hkeeps.trans hlong))
  intro groups
  induction groups with
  | nil =>
    intro st hkeeps
    rw [resolveShardsUpTo, upTo_natCast]
    exact List.take_of_length_le hkeeps
  | cons recs groups ih =>
    intro st hkeeps
    have hprefix := prefix_resolveShards s batchSize (recs :: groups) st
    rw [resolveShardsUpTo]
    split_ifs with hfull
    · rw [upTo_natCast]
      have hlong : limit ≤ st.entriesOut.length := by omega
      have hst := hall hprefix hlong hkeeps
      rw [hst]
      exact List.take_of_length_le hkeeps
    · have hcuts := cuts_resolveShard limit s batchSize st recs
      cases hshard : resolveShardUpTo (limit : ℤ) s batchSize st recs with
      | ok st' =>
        rw [hshard] at hcuts
        obtain rfl : st' = resolveShard s batchSize st recs := hcuts
        exact ih _ hkeeps
      | error out =>
        rw [hshard] at hcuts
        obtain ⟨hout, hlong⟩ := hcuts
        exact hall (hout.trans (prefix_resolveShards s batchSize groups _)) hlong hkeeps

/-- **A limit that the records keep is met by their entries.** -/
theorem resolveEntriesUpTo_eq {s : Store F} {batchSize limit : ℕ} {records : List (IndexRecord F)}
    (h : (resolveEntries s batchSize records).length ≤ limit) :
    resolveEntriesUpTo limit s batchSize records = resolveEntries s batchSize records :=
  resolveShardsUpTo_eq s batchSize _ _ h

/-- **With a negative limit nothing is found.** -/
theorem resolveEntriesUpTo_neg {limit : ℤ} (hneg : limit < 0) (s : Store F) (batchSize : ℕ)
    (records : List (IndexRecord F)) : resolveEntriesUpTo limit s batchSize records = [] := by
  have hnil : upTo limit ([] : List (StoredEntry F)) = [] := List.take_nil
  unfold resolveEntriesUpTo
  cases Dict.group IndexRecord.shardId records with
  | nil => exact hnil
  | cons recs groups =>
    rw [resolveShardsUpTo, if_pos (by rw [List.length_nil]; omega)]
    exact hnil

/-! ### The records and their entries -/

section

variable [PyFloat F] {stamp : Datetime → ℚ} {s : Store F} {batchSize : ℕ}

/-- The record is that of the entry, read at its place. -/
def EntryOf (stamp : Datetime → ℚ) (s : Store F) (r : IndexRecord F) (e : StoredEntry F) : Prop :=
  (s.entries r.shardId).reverse[r.offset]? = some e ∧
    r = entryToIndexRecord stamp e r.shardId r.offset

theorem EntryOf.entryId {r : IndexRecord F} {e : StoredEntry F} (h : EntryOf stamp s r e) :
    r.entryId = e.id := by
  obtain ⟨-, hr⟩ := h
  rw [hr]
  rfl

theorem EntryOf.mem {r : IndexRecord F} {e : StoredEntry F} (h : EntryOf stamp s r e) :
    e ∈ s.entries r.shardId := List.mem_reverse.mp (List.mem_of_getElem? h.1)

/-- A record of the scan is that of an entry. -/
theorem exists_entryOf (hbatch : 0 < batchSize) {r : IndexRecord F}
    (hr : r ∈ scanRecords stamp batchSize s) : ∃ e, EntryOf stamp s r e := by
  obtain ⟨shardId, -, e, i, hget, rfl⟩ := (mem_scanRecords hbatch).mp hr
  exact ⟨e, hget, rfl⟩

/-- Where ids are not shared, records of entries of one id are one. -/
theorem EntryOf.unique (hids : s.ids.Nodup) {r r' : IndexRecord F} {e e' : StoredEntry F}
    (h : EntryOf stamp s r e) (h' : EntryOf stamp s r' e') (hid : e.id = e'.id) : r = r' := by
  obtain ⟨hshard, rfl⟩ := Store.only hids h.mem h'.mem hid
  have hnodup : ((s.entries r.shardId).reverse).Nodup :=
    List.nodup_reverse.mpr (Store.nodup_ids hids _).of_map
  obtain ⟨hget, hr⟩ := h
  obtain ⟨hget', hr'⟩ := h'
  rw [← hshard] at hget' hr'
  have hplace : r.offset = r'.offset := by
    obtain ⟨hlt, -⟩ := List.getElem?_eq_some_iff.mp hget
    exact (List.getElem?_inj hlt hnodup).mp (hget.trans hget'.symm)
  rw [hr, hr', hplace]

/-- What is found in a shard are the entries of the records, sorted by their places. -/
theorem forall₂_foundIn (hids : s.ids.Nodup) {k : PyStr} {recs : List (IndexRecord F)}
    (hrecs : ∀ r ∈ recs, r.shardId = k ∧ r.entryId ≠ [] ∧ ∃ e, EntryOf stamp s r e)
    (hnodup : recs.Nodup) :
    List.Forall₂ (EntryOf stamp s) (StableSort.sortBy IndexRecord.offset recs)
      (foundIn s (k, recs)) := by
  -- the entries found, with their places, and the records made of these
  let found := (s.entries k).reverse.zipIdx.filter fun p =>
    p.1.id ≠ [] ∧ p.1.id ∈ recs.map IndexRecord.entryId
  let made := found.map fun p => entryToIndexRecord stamp p.1 k p.2
  have hfound : foundIn s (k, recs) = found.map Prod.fst := by
    unfold foundIn
    conv_lhs => rw [← List.zipIdx_map_fst 0 (s.entries k).reverse, List.filter_map]
    rfl
  have hplace : ∀ p ∈ found, EntryOf stamp s (entryToIndexRecord stamp p.1 k p.2) p.1 := by
    intro p hp
    exact ⟨List.mem_zipIdx_iff_getElem?.mp (List.mem_filter.mp hp).1, rfl⟩
  have hmade : List.Forall₂ (EntryOf stamp s) made (found.map Prod.fst) := by
    rw [List.forall₂_map_left_iff, List.forall₂_map_right_iff]
    exact List.forall₂_same.mpr hplace
  have hsorted : made.Pairwise fun a b => a.offset < b.offset := by
    rw [List.pairwise_map]
    have hzip : (s.entries k).reverse.zipIdx.Pairwise fun p q => p.2 < q.2 := by
      rw [← List.pairwise_map, List.zipIdx_map_snd]
      exact List.pairwise_lt_range'
    exact hzip.filter _
  have hperm : recs.Perm made := by
    refine (List.perm_ext_iff_of_nodup hnodup (hsorted.imp ?_)).mpr ?_
    · rintro a b hlt rfl
      exact lt_irrefl _ hlt
    · intro r
      constructor
      · intro hr
        obtain ⟨rfl, hne, e, he⟩ := hrecs r hr
        refine List.mem_map.mpr ⟨(e, r.offset), List.mem_filter.mpr ⟨?_, ?_⟩, he.2.symm⟩
        · exact List.mem_zipIdx_iff_getElem?.mpr he.1
        · rw [← he.entryId]
          exact decide_eq_true ⟨hne, List.mem_map_of_mem hr⟩
      · intro hr
        obtain ⟨p, hp, rfl⟩ := List.mem_map.mp hr
        obtain ⟨-, hasked⟩ := of_decide_eq_true (List.mem_filter.mp hp).2
        obtain ⟨r', hr', hid⟩ := List.mem_map.mp hasked
        obtain ⟨-, -, e', he'⟩ := hrecs r' hr'
        have hsame := he'.unique hids (hplace p hp) (he'.entryId ▸ hid)
        exact hsame ▸ hr'
  have hsort : StableSort.sortBy IndexRecord.offset recs = made := by
    refine @List.Perm.eq_of_pairwise _ (fun a b => a.offset ≤ b.offset) _ _ ?_
      (StableSort.pairwise_sortBy recs) (hsorted.imp fun h => h.le)
      ((StableSort.sortBy_perm recs).trans hperm)
    have hoffsets : (made.map IndexRecord.offset).Nodup :=
      (List.pairwise_map.mpr hsorted).imp fun h => h.ne
    intro a b ha hb hab hba
    have ha' : a ∈ made := hperm.mem_iff.mp ((StableSort.sortBy_perm recs).mem_iff.mp ha)
    exact List.inj_on_of_nodup_map hoffsets ha' hb (le_antisymm hab hba)
  rw [hsort, hfound]
  exact hmade

/-- **What is found are the entries of the records, arranged shard by shard.** -/
theorem forall₂_arranged (hbatch : 0 < batchSize) (hids : s.ids.Nodup)
    {records : List (IndexRecord F)}
    (hrecords : ∀ r ∈ records, r.entryId ≠ [] ∧ ∃ e, EntryOf stamp s r e)
    (hnodup : records.Nodup) :
    List.Forall₂ (EntryOf stamp s) (arranged IndexRecord.shardId IndexRecord.offset records)
      (resolveEntries s batchSize records) := by
  rw [resolveEntries_eq hbatch hids, arranged, Dict.group_eq, List.flatMap_map, List.flatMap_map]
  refine List.rel_flatMap (List.forall₂_same.mpr fun k _ => rfl) ?_
  rintro k _ rfl
  refine forall₂_foundIn hids ?_ (hnodup.filter _)
  intro r hr
  obtain ⟨hmem, hk⟩ := List.mem_filter.mp hr
  exact ⟨of_decide_eq_true hk, hrecords r hmem⟩

/-- **The records keep their order iff they stand shard by shard.** -/
theorem forall₂_resolveEntries_iff (hbatch : 0 < batchSize) (hids : s.ids.Nodup)
    {records : List (IndexRecord F)}
    (hrecords : ∀ r ∈ records, r.entryId ≠ [] ∧ ∃ e, EntryOf stamp s r e)
    (hnodup : records.Nodup) :
    List.Forall₂ (EntryOf stamp s) records (resolveEntries s batchSize records) ↔
      arranged IndexRecord.shardId IndexRecord.offset records = records := by
  have hfound := forall₂_arranged hbatch hids hrecords hnodup
  constructor
  · intro h
    have hunique : Relator.LeftUnique (EntryOf stamp s) := fun _ _ _ h h' => h.unique hids h' rfl
    exact List.left_unique_forall₂' hunique hfound h
  · intro h
    rwa [h] at hfound

end

/-! ### The records in the order that is asked for -/

/-- The filters of a query but for the time. -/
def keyFilters (c : Criteria) : List (IndexRecord F → Bool) :=
  ((nonEmpty c.sessionId).map fun s r => decide (r.sessionKey = s)).toList ++
    ((nonEmpty c.agent).map fun a r => decide (r.agentKey = a)).toList ++
    ((nonEmpty c.shardId).map fun s r => decide (r.shardId = s)).toList

/-- The filter matches a record that has an id. -/
def matchesAny (rs : List (IndexRecord F)) (f : IndexRecord F → Bool) : Bool :=
  (withId rs).any f

/-- The record has an id and passes the filters that match any. -/
def passesMatching (rs : List (IndexRecord F)) (fs : List (IndexRecord F → Bool))
    (r : IndexRecord F) : Bool :=
  !r.entryId.isEmpty && fs.all fun f => !matchesAny rs f || f r

/-- The records that survive a query: in the order of the scan where a session, an agent or a
shard matches, and else by time. -/
def selected (stamp : Datetime → ℚ) (c : Criteria) (rs : List (IndexRecord F)) :
    List (IndexRecord F) :=
  if !c.anyTruthy then []
  else if (keyFilters c).any (matchesAny rs) then rs.filter (passesMatching rs (filters stamp c))
  else if c.hasTime && matchesAny rs (inTime stamp c.startTime c.endTime) then
    (sortByTime rs).filter (passesMatching rs (filters stamp c))
  else []

/-- They, in the order that is asked for, up to the limit. -/
def requested (stamp : Datetime → ℚ) (c : Criteria) (limit : Option ℤ) (sort : Option PyStr)
    (rs : List (IndexRecord F)) : List (IndexRecord F) :=
  let records := selected stamp c rs
  let sorted := match sort with
    | some order => sortRecords order records
    | none => records
  match limit with
  | some n => limitRecords n sorted
  | none => sorted

section

variable {stamp : Datetime → ℚ} {c : Criteria} {rs : List (IndexRecord F)}

/-- The lists a query looks up, each as a filter of a list of all records. -/
def lookedUp (stamp : Datetime → ℚ) (c : Criteria) (rs : List (IndexRecord F)) :
    List (List (IndexRecord F) × (IndexRecord F → Bool)) :=
  (keyFilters c).map (fun f => (rs, f)) ++
    if c.hasTime then [(sortByTime rs, inTime stamp c.startTime c.endTime)] else []

theorem map_snd_lookedUp : (lookedUp stamp c rs).map Prod.snd = filters stamp c := by
  unfold lookedUp filters keyFilters
  split_ifs <;> simp [Function.comp_def]

theorem candidates_eq : candidates stamp (indexRecords rs) c
    = (lookedUp stamp c rs).map fun q => q.1.filter q.2 := by
  have hgroup : ∀ {key : IndexRecord F → PyStr} (k : PyStr),
      (Dict.get k (Dict.group key rs)).getD [] = rs.filter fun r => decide (key r = k) :=
    fun k => Dict.get_group _ rs k
  unfold candidates lookedUp keyFilters navigateSession navigateAgent navigateShard indexRecords
    timeline
  simp only [hgroup]
  cases nonEmpty c.sessionId <;> cases nonEmpty c.agent <;> cases nonEmpty c.shardId <;>
    split_ifs <;> simp

theorem withId_filter_ne_nil {rs' : List (IndexRecord F)} (h : rs'.Perm rs)
    (f : IndexRecord F → Bool) : withId (rs'.filter f) ≠ [] ↔ matchesAny rs f = true := by
  have hlist : ListOf rs (rs'.filter f) f := h.filter f
  rw [hlist.withId_ne_nil, matchesAny, List.any_eq_true]
  constructor
  · rintro ⟨r, hr, hid, hf⟩
    exact ⟨r, mem_withId.mpr ⟨hr, hid⟩, hf⟩
  · rintro ⟨r, hr, hf⟩
    obtain ⟨hmem, hid⟩ := mem_withId.mp hr
    exact ⟨r, hmem, hid, hf⟩

/-- A record with an id has it in a list of records exactly if it passes the filter. -/
theorem entryId_mem_iff (hids : (rs.map IndexRecord.entryId).Nodup) {rs' : List (IndexRecord F)}
    (h : rs'.Perm rs) (f : IndexRecord F → Bool) {r : IndexRecord F} (hr : r ∈ rs)
    (hid : r.entryId ≠ []) :
    r.entryId ∈ (withId (rs'.filter f)).map IndexRecord.entryId ↔ f r = true := by
  have hsub : withId (rs'.filter f) ⊆ rs := fun x hx =>
    h.mem_iff.mp (List.mem_filter.mp (mem_withId.mp hx).1).1
  constructor
  · intro hmem
    have hown := mem_of_entryId_mem hids hsub hr hmem
    exact (List.mem_filter.mp (mem_withId.mp hown).1).2
  · intro hf
    exact List.mem_map_of_mem
      (mem_withId.mpr ⟨List.mem_filter.mpr ⟨h.mem_iff.mpr hr, hf⟩, hid⟩)

/-- **The intersection is the first list that matches, filtered by all that match.** -/
theorem intersect_lookedUp (hids : (rs.map IndexRecord.entryId).Nodup)
    {qs : List (List (IndexRecord F) × (IndexRecord F → Bool))} (hqs : ∀ q ∈ qs, q.1.Perm rs) :
    intersectByEntryId (qs.map fun q => q.1.filter q.2)
      = match qs.filter (fun q => matchesAny rs q.2) with
        | [] => []
        | q :: _ => q.1.filter (passesMatching rs (qs.map Prod.snd)) := by
  have htake : ((qs.map fun q => q.1.filter q.2).map withId).filter (fun l => !l.isEmpty)
      = (qs.filter fun q => matchesAny rs q.2).map fun q => withId (q.1.filter q.2) := by
    rw [List.map_map, List.filter_map]
    congr 1
    apply List.filter_congr
    intro q hq
    rw [Bool.eq_iff_iff, ← withId_filter_ne_nil (hqs q hq)]
    simp
  unfold intersectByEntryId
  rw [htake]
  cases hmatching : qs.filter fun q => matchesAny rs q.2 with
  | nil => rfl
  | cons q rest =>
    have hmem : ∀ q', q' ∈ q :: rest ↔ q' ∈ qs ∧ matchesAny rs q'.2 = true := by
      intro q'
      rw [← hmatching, List.mem_filter]
    obtain ⟨hq, hqmatch⟩ := (hmem q).mp List.mem_cons_self
    have hbase : ∀ P : IndexRecord F → Bool, (withId (q.1.filter q.2)).filter P
        = q.1.filter fun r => (P r && !r.entryId.isEmpty) && q.2 r := by
      intro P
      rw [withId, List.filter_filter, List.filter_filter]
    refine (hbase _).trans (List.filter_congr ?_)
    intro r hr
    have hrs := (hqs q hq).mem_iff.mp hr
    by_cases hid : r.entryId = []
    · -- a record without an id is in no list
      simp [passesMatching, hid]
    · have hin : ∀ q' ∈ qs, r.entryId ∈ (withId (q'.1.filter q'.2)).map IndexRecord.entryId ↔
          q'.2 r = true := fun q' hq' => entryId_mem_iff hids (hqs q' hq') q'.2 hrs hid
      change (((((q :: rest).map fun q => withId (q.1.filter q.2)).all fun l =>
        (l.map IndexRecord.entryId).contains r.entryId) && !r.entryId.isEmpty) && q.2 r) = _
      rw [Bool.eq_iff_iff, passesMatching]
      simp only [Bool.and_eq_true, List.all_eq_true, List.forall_mem_map, List.contains_iff_mem,
        Bool.or_eq_true, Bool.not_eq_true', List.isEmpty_eq_false_iff]
      constructor
      · rintro ⟨⟨hall, -⟩, -⟩
        refine ⟨hid, fun q' hq' => ?_⟩
        cases hmatch : matchesAny rs q'.2 with
        | false => exact Or.inl rfl
        | true => exact Or.inr ((hin q' hq').mp (hall q' ((hmem q').mpr ⟨hq', hmatch⟩)))
      · rintro ⟨-, hall⟩
        refine ⟨⟨?_, hid⟩, ?_⟩
        · intro q' hq'
          obtain ⟨hq', hmatch⟩ := (hmem q').mp hq'
          exact (hin q' hq').mpr ((hall q' hq').resolve_left (by rw [hmatch]; exact Bool.noConfusion))
        · exact (hall q hq).resolve_left (by rw [hqmatch]; exact Bool.noConfusion)

/-- One list alone is its own intersection. -/
theorem combine_eq (cs : List (List (IndexRecord F))) : combine cs = intersectByEntryId cs := by
  match cs with
  | [] => rfl
  | [l] =>
    have hself : (withId l).filter (fun r => ((withId l).map IndexRecord.entryId).contains r.entryId)
        = withId l :=
      List.filter_eq_self.mpr fun r hr => List.contains_iff_mem.mpr (List.mem_map_of_mem hr)
    change withId l = intersectByEntryId [l]
    unfold intersectByEntryId
    rw [List.map_singleton]
    cases hl : withId l with
    | nil => rfl
    | cons r rest =>
      rw [hl] at hself
      refine hself.symm.trans (List.filter_congr fun x _ => ?_)
      rw [List.all_cons, List.filter_nil, List.all_nil, Bool.and_true]
  | _ :: _ :: _ => rfl

/-- **A query returns what is requested.** -/
theorem query_eq_requested (hids : (rs.map IndexRecord.entryId).Nodup) (limit : Option ℤ)
    (sort : Option PyStr) :
    query stamp (indexRecords rs) c limit sort = requested stamp c limit sort rs := by
  have hcombine : c.anyTruthy = true →
      combine (candidates stamp (indexRecords rs) c) = selected stamp c rs := by
    intro hc
    have hqs : ∀ q ∈ lookedUp stamp c rs, q.1.Perm rs := by
      intro q hq
      rcases List.mem_append.mp hq with hq | hq
      · obtain ⟨f, -, rfl⟩ := List.mem_map.mp hq
        exact List.Perm.refl rs
      · split_ifs at hq
        · obtain rfl := List.mem_singleton.mp hq
          exact sortByTime_perm rs
        · cases hq
    rw [combine_eq, candidates_eq, intersect_lookedUp hids hqs, map_snd_lookedUp, selected, hc]
    -- the first list that matches is that of a key, if any is
    have hkeysList : ((keyFilters c).map fun f => (rs, f)).filter (fun q => matchesAny rs q.2)
        = ((keyFilters c).filter (matchesAny rs)).map fun f => (rs, f) := List.filter_map
    rw [lookedUp, List.filter_append, hkeysList]
    cases hkeys : (keyFilters c).filter (matchesAny rs) with
    | nil =>
      have hnone : (keyFilters c).any (matchesAny rs) = false := by
        rw [List.any_eq_false]
        exact List.filter_eq_nil_iff.mp hkeys
      rw [hnone]
      cases c.hasTime with
      | false => rfl
      | true =>
        cases htime : matchesAny rs (inTime stamp c.startTime c.endTime) <;> simp [htime]
    | cons f rest =>
      have hsome : (keyFilters c).any (matchesAny rs) = true := by
        have hf : f ∈ (keyFilters c).filter (matchesAny rs) := hkeys ▸ List.mem_cons_self
        exact List.any_eq_true.mpr ⟨f, (List.mem_filter.mp hf).1, (List.mem_filter.mp hf).2⟩
      rw [hsome]
      rfl
  by_cases hc : c.anyTruthy = true
  · unfold query requested
    rw [hcombine hc, hc]
    rfl
  · rw [Bool.not_eq_true] at hc
    have hselected : selected stamp c rs = [] := by rw [selected, hc]; rfl
    have hsorted : ∀ order, sortRecords order ([] : List (IndexRecord F)) = [] :=
      fun order => (sortRecords_perm order []).eq_nil
    rw [query_of_not_anyTruthy _ _ _ hc]
    unfold requested
    rw [hselected]
    cases sort <;> cases limit <;> simp [hsorted, limitRecords]

/-! ### What is requested -/

theorem mem_selected {r : IndexRecord F} (h : r ∈ selected stamp c rs) :
    r ∈ rs ∧ r.entryId ≠ [] := by
  have hpass : passesMatching rs (filters stamp c) r = true → r.entryId ≠ [] := by
    intro hpass
    rw [passesMatching, Bool.and_eq_true, Bool.not_eq_true', List.isEmpty_eq_false_iff] at hpass
    exact hpass.1
  unfold selected at h
  split_ifs at h
  · cases h
  · obtain ⟨hr, hp⟩ := List.mem_filter.mp h
    exact ⟨hr, hpass hp⟩
  · obtain ⟨hr, hp⟩ := List.mem_filter.mp h
    exact ⟨mem_sortByTime.mp hr, hpass hp⟩
  · cases h

theorem nodup_selected (h : rs.Nodup) : (selected stamp c rs).Nodup := by
  unfold selected
  split_ifs
  · exact List.nodup_nil
  · exact h.filter _
  · exact ((sortByTime_perm rs).nodup_iff.mpr h).filter _
  · exact List.nodup_nil

/-- What is requested is taken from what survives, in some order. -/
theorem requested_sublist (limit : Option ℤ) (sort : Option PyStr) :
    ∃ sorted : List (IndexRecord F), sorted.Perm (selected stamp c rs) ∧
      (sort = none → sorted = selected stamp c rs) ∧
      (limit = none → requested stamp c limit sort rs = sorted) ∧
      ∀ n, limit = some n → requested stamp c limit sort rs = limitRecords n sorted := by
  cases sort with
  | none =>
    refine ⟨_, List.Perm.refl _, fun _ => rfl, ?_, ?_⟩
    · rintro rfl
      rfl
    · rintro n rfl
      rfl
  | some order =>
    refine ⟨_, sortRecords_perm order _, nofun, ?_, ?_⟩
    · rintro rfl
      rfl
    · rintro n rfl
      rfl

theorem limitRecords_sublist (n : ℤ) (xs : List (IndexRecord F)) :
    (limitRecords n xs).Sublist xs := List.take_sublist _ _

theorem limitRecords_neg {n : ℤ} (hneg : n < 0) (xs : List (IndexRecord F)) :
    limitRecords n xs = [] ↔ xs.length + n ≤ 0 := by
  rw [limitRecords, if_pos hneg, List.take_eq_nil_iff]
  constructor
  · rintro (h | rfl)
    · omega
    · rw [List.length_nil]
      omega
  · intro h
    left
    omega

end

/-! ### When a resolution keeps the order -/

variable [PyFloat F]

/-- **When a resolution leaves the records as they are**: a negative limit leaves none, and where
they are sorted, or the time alone selects them, they stand shard by shard, newest entry first. -/
structure ResolvesInOrder (stamp : Datetime → ℚ) (c : Criteria) (limit : Option ℤ)
    (sort : Option PyStr) (rs : List (IndexRecord F)) : Prop where
  bounded : ∀ n, limit = some n → n < 0 → (selected stamp c rs).length + n ≤ 0
  byShard : sort.isSome ∨ (keyFilters c).any (matchesAny rs) = false →
    arranged IndexRecord.shardId IndexRecord.offset (requested stamp c limit sort rs)
      = requested stamp c limit sort rs

section

variable {stamp : Datetime → ℚ} {s : Store F} {batchSize : ℕ} {c : Criteria}

/-- Records selected by a key, not sorted, stand as the shards are scanned. -/
theorem arranged_requested (hbatch : 0 < batchSize) (limit : Option ℤ)
    (hkeys : (keyFilters c).any (matchesAny (scanRecords stamp batchSize s)) = true) :
    arranged IndexRecord.shardId IndexRecord.offset
        (requested stamp c limit none (scanRecords stamp batchSize s))
      = requested stamp c limit none (scanRecords stamp batchSize s) := by
  have hscan : scanRecords stamp batchSize s = s.listShards.flatMap fun k =>
      (scanRecords stamp batchSize s).filter fun r => r.shardId = k := by
    simp only [filter_scanRecords hbatch]
    unfold scanRecords
    simp only [scanShard_eq hbatch]
  have hsub : (requested stamp c limit none (scanRecords stamp batchSize s)).Sublist
      (scanRecords stamp batchSize s) := by
    have hselected : (selected stamp c (scanRecords stamp batchSize s)).Sublist
        (scanRecords stamp batchSize s) := by
      unfold selected
      split_ifs
      · exact List.nil_sublist _
      · exact List.filter_sublist
    obtain ⟨sorted, -, hsame, hall, hcut⟩ :=
      @requested_sublist _ stamp c (scanRecords stamp batchSize s) limit none
    rw [hsame rfl] at hall hcut
    cases limit with
    | none => rwa [hall rfl]
    | some n => exact hcut n rfl ▸ (limitRecords_sublist n _).trans hselected
  revert hsub
  generalize requested stamp c limit none (scanRecords stamp batchSize s) = records
  intro hsub
  rw [hscan] at hsub
  refine arranged_of_sublist ?_ ?_ (show s.listShards.Nodup from s.nodup) hsub
  · intro k r hr
    exact of_decide_eq_true (List.mem_filter.mp hr).2
  · intro k
    rw [filter_scanRecords hbatch, List.pairwise_map]
    have hzip : (s.entries k).reverse.zipIdx.Pairwise fun p q => p.2 < q.2 := by
      rw [← List.pairwise_map, List.zipIdx_map_snd]
      exact List.pairwise_lt_range'
    exact hzip.imp fun h => h.le

end

/-- **A query that is resolved returns the entries of the records that it returns without, in
their order, iff** a negative limit leaves no record and the records, where they are sorted or
selected by the time alone, stand shard by shard, newest entry first. -/
theorem queryResolved_iff (stamp : Datetime → ℚ) (batchSize : ℕ) (hbatch : 0 < batchSize)
    (s : Store F) (hids : s.ids.Nodup) (idx : RRIndex F)
    (hidx : buildIndex stamp batchSize s = some idx) (c : Criteria) (limit : Option ℤ)
    (sort : Option PyStr) :
    List.Forall₂ (EntryOf stamp s) (query stamp idx c limit sort)
        (queryResolved stamp s idx c limit sort) ↔
      ResolvesInOrder stamp c limit sort (scanRecords stamp batchSize s) := by
  have hnodup : ((scanRecords stamp batchSize s).map IndexRecord.entryId).Nodup :=
    (ids_scanRecords hbatch s).nodup_iff.mpr hids
  obtain rfl : indexRecords (scanRecords stamp batchSize s) = idx := by
    unfold buildIndex at hidx
    dsimp only at hidx
    split_ifs at hidx
    exact Option.some.inj hidx
  have hquery := @query_eq_requested _ stamp c _ hnodup limit sort
  obtain ⟨sorted, hperm, -, hall, hcut⟩ :=
    @requested_sublist _ stamp c (scanRecords stamp batchSize s) limit sort
  have hsub : (requested stamp c limit sort (scanRecords stamp batchSize s)).Sublist sorted := by
    cases limit with
    | none => exact hall rfl ▸ List.Sublist.refl _
    | some n => exact hcut n rfl ▸ limitRecords_sublist n sorted
  -- the records requested are those of entries, each once
  have hrecords : ∀ r ∈ requested stamp c limit sort (scanRecords stamp batchSize s),
      r.entryId ≠ [] ∧ ∃ e, EntryOf stamp s r e := by
    intro r hr
    obtain ⟨hscan, hid⟩ := mem_selected (hperm.mem_iff.mp (hsub.subset hr))
    exact ⟨hid, exists_entryOf hbatch hscan⟩
  have honce : (requested stamp c limit sort (scanRecords stamp batchSize s)).Nodup :=
    (hperm.nodup_iff.mpr (nodup_selected hnodup.of_map)).sublist hsub
  have hpos : 0 < resolveBatchSize := by decide
  have hresolve := forall₂_resolveEntries_iff hpos hids hrecords honce
  have horder : (∀ n, limit = some n → n < 0 →
        (selected stamp c (scanRecords stamp batchSize s)).length + n ≤ 0) →
      (ResolvesInOrder stamp c limit sort (scanRecords stamp batchSize s) ↔
        arranged IndexRecord.shardId IndexRecord.offset
            (requested stamp c limit sort (scanRecords stamp batchSize s))
          = requested stamp c limit sort (scanRecords stamp batchSize s)) := by
    intro hlimit
    constructor
    · intro h
      by_cases hcase : sort.isSome ∨
          (keyFilters c).any (matchesAny (scanRecords stamp batchSize s)) = false
      · exact h.byShard hcase
      · rw [not_or, Option.not_isSome_iff_eq_none, Bool.not_eq_false] at hcase
        obtain ⟨rfl, hkeys⟩ := hcase
        exact arranged_requested hbatch limit hkeys
    · exact fun h => ⟨hlimit, fun _ => h⟩
  cases limit with
  | none =>
    rw [horder nofun, ← hresolve, hquery, queryResolved, hquery]
  | some n =>
    have hcutTo := hcut n rfl
    rcases lt_or_ge n 0 with hneg | hpos
    · rw [queryResolved, resolveEntriesUpTo_neg hneg, List.forall₂_nil_right_iff, hquery, hcutTo,
        limitRecords_neg hneg, hperm.length_eq]
      constructor
      · intro hnone
        refine ⟨?_, fun _ => ?_⟩
        · rintro _ ⟨⟩ -
          exact hnone
        · rw [hcutTo, (limitRecords_neg hneg sorted).mpr (hperm.length_eq ▸ hnone)]
          rfl
      · exact fun h => h.bounded n rfl hneg
    · obtain ⟨k, rfl⟩ := Int.eq_ofNat_of_zero_le hpos
      have hlength : (resolveEntries s resolveBatchSize
          (requested stamp c (some ↑k) sort (scanRecords stamp batchSize s))).length ≤ k := by
        rw [← (forall₂_arranged (by decide) hids hrecords honce).length_eq,
          (arranged_perm _).length_eq, hcutTo, limitRecords, if_neg (by omega), List.length_take]
        omega
      have hbounded : ∀ n : ℤ, some (k : ℤ) = some n → n < 0 →
          (selected stamp c (scanRecords stamp batchSize s)).length + n ≤ 0 := by
        rintro _ ⟨⟩ hlt
        omega
      rw [horder hbounded, ← hresolve, queryResolved, hquery, resolveEntriesUpTo_eq hlength]

/-- An entry of `main`, of a second of a minute. -/
def sampleAt (id : PyStr) (second : Fin 60) : StoredEntry FloatLit :=
  { sampleStored id (py "s1") (py "a") with
    timestamp := ⟨⟨2026, 1, 2, 3, 4, second, 0, some 0⟩, by revert second; decide⟩ }

/-- Two entries of a session, of two seconds. -/
def sampleTwo : Store FloatLit :=
  (Store.empty.append (sampleAt (py "e1") 5)).append (sampleAt (py "e2") 6)

/-- The time stamps within that minute. -/
def stampAt (d : Datetime) : ℚ := 1767323040 + d.val.second

theorem queryResolved_iff_sample :
    List.Forall₂ (EntryOf stampAt sampleTwo)
        (query stampAt (indexRecords (scanRecords stampAt 1 sampleTwo))
          ⟨some (py "s1"), none, none, none, none⟩ (some 5) (some (py "desc")))
        (queryResolved stampAt sampleTwo (indexRecords (scanRecords stampAt 1 sampleTwo))
          ⟨some (py "s1"), none, none, none, none⟩ (some 5) (some (py "desc"))) ↔
      ResolvesInOrder stampAt ⟨some (py "s1"), none, none, none, none⟩ (some 5) (some (py "desc"))
        (scanRecords stampAt 1 sampleTwo) :=
  queryResolved_iff stampAt 1 (by decide) sampleTwo (by decide +kernel) _
    (by rw [buildIndex, if_pos (by decide +kernel)]) _ _ _

/-- Asked for the oldest first, the query returns the older record first, and the newer entry. -/
theorem queryResolved_reorders :
    ¬List.Forall₂ (EntryOf stampAt sampleTwo)
        (query stampAt (indexRecords (scanRecords stampAt 1 sampleTwo))
          ⟨some (py "s1"), none, none, none, none⟩ none (some (py "asc")))
        (queryResolved stampAt sampleTwo (indexRecords (scanRecords stampAt 1 sampleTwo))
          ⟨some (py "s1"), none, none, none, none⟩ none (some (py "asc"))) := by
  intro h
  have hids : (query stampAt (indexRecords (scanRecords stampAt 1 sampleTwo))
        ⟨some (py "s1"), none, none, none, none⟩ none (some (py "asc"))).map IndexRecord.entryId
      = (queryResolved stampAt sampleTwo (indexRecords (scanRecords stampAt 1 sampleTwo))
          ⟨some (py "s1"), none, none, none, none⟩ none (some (py "asc"))).map StoredEntry.id := by
    rw [← List.forall₂_eq_eq_eq, List.forall₂_map_left_iff, List.forall₂_map_right_iff]
    exact h.imp fun _ _ he => he.entryId
  exact absurd hids (by decide +kernel)

end Daryl
