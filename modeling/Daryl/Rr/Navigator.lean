import Daryl.Rr.Index

/-!
# `rr_navigator`: from records back to entries

A navigator hands out the records of an action and finds the entries behind records:
shard by shard it reads pages until every id asked for was met.  It keeps the order
of the shards, not that of the records, so its readers join the two by id.

## Main definitions

* `navigateAction` — the records of an action.
* `resolveEntries` — the entries behind records.
* `byId` — the join of a reader.

## Main results

* `navigateAction_indexRecords` — what the records of an action are.
* `resolveFrom_eq` — the pages take what one pass over the shard takes.
* `byId_resolveEntries` — **where ids are not shared, the join finds the entry of every
  record.**
* `resolveEntries_eq` — **and what is found stands shard by shard, newest first.**
-/

namespace Daryl

open Py

variable {F : Type}

/-- `navigate_action`, without a limit. -/
def navigateAction (idx : RRIndex F) (actionName : PyStr) : List (IndexRecord F) :=
  (Dict.get actionName idx.actionIndex).getD []

section

variable [PyFloat F]

theorem map_snd_namedActions (name : PyStr) (rs : List (IndexRecord F)) :
    ((namedActions rs).filter fun p => p.1 = name).map Prod.snd
      = rs.filter fun r => pyEq r.actionName (.str name) := by
  induction rs with
  | nil => rfl
  | cons r rs ih =>
    rw [namedActions] at ih ⊢
    cases hname : r.actionName with
    | str s =>
      by_cases hs : s = name
      · simp [hname, hs, pyEq, ih]
      · simp [hname, hs, pyEq, ih]
    | float x => cases x <;> simp [hname, pyEq, PyVal.num?, ih]
    | _ => simp [hname, pyEq, PyVal.num?, ih]

/-- **The records of an action are those of its name, sorted by time.** -/
theorem navigateAction_indexRecords (rs : List (IndexRecord F)) (name : PyStr) :
    navigateAction (indexRecords rs) name
      = sortByTime (rs.filter fun r => pyEq r.actionName (.str name)) := by
  have hget := Dict.get_group Prod.fst (namedActions rs) name
  have hbucket : Dict.get name (indexRecords rs).actionIndex
      = (Dict.get name (Dict.group Prod.fst (namedActions rs))).map fun bucket =>
          sortByTime (bucket.map Prod.snd) :=
    Dict.get_map (fun _ (bucket : List (PyStr × IndexRecord F)) => sortByTime (bucket.map Prod.snd))
      name _
  rw [navigateAction, hbucket, ← map_snd_namedActions, ← hget]
  cases Dict.get name (Dict.group Prod.fst (namedActions rs)) with
  | none => rfl
  | some bucket => rfl

end

/-! ### Resolution -/

/-- The entries found so far, the ids they have, and the ids still needed. -/
structure Resolving (F : Type) where
  entriesOut : List (StoredEntry F)
  seenIds : List PyStr
  stillNeeded : List PyStr

/-- The loop body over the entries of a page. -/
def Resolving.visit (st : Resolving F) (e : StoredEntry F) : Resolving F :=
  if e.id = [] ∨ e.id ∉ st.stillNeeded ∨ e.id ∈ st.seenIds then st
  else
    { entriesOut := st.entriesOut ++ [e]
      seenIds := st.seenIds ++ [e.id]
      stillNeeded := st.stillNeeded.filter (· ≠ e.id) }

/-- The loop over the pages of a shard, from an offset. -/
def resolveFrom (s : Store F) (shard : PyStr) (batchSize : ℕ) :
    ℕ → ℕ → Resolving F → Resolving F
  | 0, _, st => st
  | fuel + 1, offset, st =>
    let batch := s.read shard offset batchSize
    if batch = [] then st
    else
      let st' := batch.foldl Resolving.visit st
      if st'.stillNeeded = [] then st'
      else if batch.length < batchSize then st'
      else resolveFrom s shard batchSize fuel (offset + batch.length) st'

/-- The loop body over the shards of the records. -/
def resolveShard (s : Store F) (batchSize : ℕ) (st : Resolving F)
    (recs : PyStr × List (IndexRecord F)) : Resolving F :=
  let requested := (recs.2.map IndexRecord.entryId).filter (· ≠ [])
  let needed := requested.filter (· ∉ st.seenIds)
  if needed = [] then st
  else
    resolveFrom s recs.1 batchSize ((s.entries recs.1).length + 1) 0
      { st with stillNeeded := needed }

/-- `resolve_entries`, without a limit. -/
def resolveEntries (s : Store F) (batchSize : ℕ) (records : List (IndexRecord F)) :
    List (StoredEntry F) :=
  ((Dict.group IndexRecord.shardId records).foldl (resolveShard s batchSize) ⟨[], [], []⟩).entriesOut

/-- `{e.id: e for e in entries}.get(id)`: the last entry with the id. -/
def byId (es : List (StoredEntry F)) (id : PyStr) : Option (StoredEntry F) :=
  es.reverse.find? fun e => e.id = id

theorem of_byId {es : List (StoredEntry F)} {id : PyStr} {e : StoredEntry F}
    (h : byId es id = some e) : e ∈ es ∧ e.id = id := by
  have hid := List.find?_some h
  exact ⟨List.mem_reverse.mp (List.mem_of_find?_eq_some h), of_decide_eq_true hid⟩

/-! ### One pass over a shard -/

theorem foldl_visit_of_nil {st : Resolving F} (h : st.stillNeeded = []) :
    ∀ es : List (StoredEntry F), es.foldl Resolving.visit st = st := by
  intro es
  induction es with
  | nil => rfl
  | cons e es ih =>
    have hvisit : st.visit e = st := by
      rw [Resolving.visit, if_pos (Or.inr (Or.inl (by rw [h]; exact List.not_mem_nil)))]
    rw [List.foldl_cons, hvisit, ih]

/-- **The pages from an offset take what one pass over the rest of the shard takes**:
when the loop stops early, nothing is needed any more. -/
theorem resolveFrom_eq {s : Store F} {shard : PyStr} {batchSize : ℕ} (hbatch : 0 < batchSize) :
    ∀ fuel offset st, (s.entries shard).length < fuel + offset →
      resolveFrom s shard batchSize fuel offset st
        = ((s.entries shard).reverse.drop offset).foldl Resolving.visit st := by
  intro fuel
  induction fuel with
  | zero =>
    intro offset st h
    rw [List.drop_eq_nil_iff.mpr (by rw [List.length_reverse]; omega)]
    rfl
  | succ fuel ih =>
    intro offset st h
    have hsplit : (s.entries shard).reverse.drop offset
        = s.read shard offset batchSize
          ++ (s.entries shard).reverse.drop (offset + batchSize) := by
      rw [← List.drop_drop, Store.read, List.take_append_drop]
    have hlen : (s.read shard offset batchSize).length
        = min batchSize ((s.entries shard).length - offset) := by
      simp [Store.read]
    rw [resolveFrom]
    by_cases hnil : s.read shard offset batchSize = []
    · have hpast := (read_eq_nil_iff hbatch).mp hnil
      have hrest : (s.entries shard).reverse.drop (offset + batchSize) = [] :=
        List.drop_eq_nil_iff.mpr (by rw [List.length_reverse]; omega)
      rw [hsplit, hnil, hrest]
      rfl
    · have hin : offset < (s.entries shard).length := by
        by_contra hle
        exact hnil ((read_eq_nil_iff hbatch).mpr (by omega))
      simp only [if_neg hnil]
      rw [hsplit, List.foldl_append]
      split_ifs with hneeded hfull
      · rw [foldl_visit_of_nil hneeded]
      · -- the page was not full: nothing is left
        rw [List.drop_eq_nil_iff.mpr (by rw [List.length_reverse]; omega)]
        rfl
      · have hfullLen : (s.read shard offset batchSize).length = batchSize := by omega
        rw [hfullLen]
        exact ih _ _ (by omega)

/-! ### What is found -/

/-- The ids seen are those of the entries found, and these come from shards. -/
structure Resolving.Sound (s : Store F) (st : Resolving F) : Prop where
  seen : st.seenIds = st.entriesOut.map StoredEntry.id
  stored : ∀ e ∈ st.entriesOut, ∃ shard, e ∈ s.entries shard

theorem Resolving.Sound.visit {s : Store F} {st : Resolving F} (h : st.Sound s)
    {e : StoredEntry F} {shard : PyStr} (he : e ∈ s.entries shard) : (st.visit e).Sound s := by
  unfold Resolving.visit
  split_ifs
  · exact h
  · refine ⟨?_, ?_⟩
    · simp [h.seen]
    · intro x hx
      rcases List.mem_append.mp hx with hx | hx
      · exact h.stored x hx
      · obtain rfl := List.mem_singleton.mp hx
        exact ⟨shard, he⟩

theorem mem_seenIds_visit {st : Resolving F} {id : PyStr} (e : StoredEntry F)
    (h : id ∈ st.seenIds) : id ∈ (st.visit e).seenIds := by
  unfold Resolving.visit
  split_ifs
  · exact h
  · exact List.mem_append_left _ h

/-- A visit passes over an id, or meets it. -/
theorem visit_needed {st : Resolving F} {e : StoredEntry F} {id : PyStr}
    (hid : id ∈ st.stillNeeded) :
    id ∈ (st.visit e).seenIds ∨ e.id ≠ id ∧ id ∈ (st.visit e).stillNeeded ∨ id = [] := by
  by_cases hnil : id = []
  · exact Or.inr (Or.inr hnil)
  · by_cases he : e.id = id
    · left
      by_cases hseen : e.id ∈ st.seenIds
      · exact mem_seenIds_visit e (he ▸ hseen)
      · rw [Resolving.visit, if_neg (by
          rintro (h | h | h)
          · exact hnil (he ▸ h)
          · exact h (he ▸ hid)
          · exact hseen h)]
        exact List.mem_append_right _ (List.mem_singleton.mpr he.symm)
    · right
      left
      refine ⟨he, ?_⟩
      unfold Resolving.visit
      split_ifs
      · exact hid
      · exact List.mem_filter.mpr ⟨hid, decide_eq_true fun h => he h.symm⟩

theorem mem_seenIds_foldl {id : PyStr} : ∀ (es : List (StoredEntry F)) {st : Resolving F},
    id ∈ st.seenIds → id ∈ (es.foldl Resolving.visit st).seenIds
  | [], _, h => h
  | e :: es, _, h => mem_seenIds_foldl es (mem_seenIds_visit e h)

/-- One pass meets every needed id that an entry has. -/
theorem seen_of_needed {id : PyStr} (hne : id ≠ []) : ∀ (es : List (StoredEntry F))
    {st : Resolving F}, id ∈ st.stillNeeded → (∃ e ∈ es, e.id = id) →
      id ∈ (es.foldl Resolving.visit st).seenIds
  | [], _, _, h => by
    obtain ⟨e, he, -⟩ := h
    cases he
  | e :: es, st, hid, h => by
    rw [List.foldl_cons]
    rcases visit_needed (e := e) hid with hseen | ⟨he, hneeded⟩ | hnil
    · exact mem_seenIds_foldl es hseen
    · apply seen_of_needed hne es hneeded
      obtain ⟨e', he', hid'⟩ := h
      rcases List.mem_cons.mp he' with rfl | he'
      · exact absurd hid' he
      · exact ⟨e', he', hid'⟩
    · exact absurd hnil hne

theorem Resolving.Sound.run {s : Store F} {es : List (StoredEntry F)} {st : Resolving F}
    (h : st.Sound s) (hes : ∀ e ∈ es, ∃ shard, e ∈ s.entries shard) :
    (es.foldl Resolving.visit st).Sound s := by
  induction es generalizing st with
  | nil => exact h
  | cons e es ih =>
    obtain ⟨shard, he⟩ := hes e List.mem_cons_self
    exact ih (h.visit he) fun x hx => hes x (List.mem_cons_of_mem _ hx)

/-! ### The shards of the records -/

section

variable {s : Store F} {batchSize : ℕ}

/-- A shard is passed over when nothing of it is needed; else one pass visits it. -/
theorem resolveShard_cases (hbatch : 0 < batchSize) (st : Resolving F)
    (recs : PyStr × List (IndexRecord F)) :
    (resolveShard s batchSize st recs = st ∧
        ∀ r ∈ recs.2, r.entryId = [] ∨ r.entryId ∈ st.seenIds) ∨
      ∃ needed, (∀ r ∈ recs.2, r.entryId = [] ∨ r.entryId ∈ st.seenIds ∨ r.entryId ∈ needed) ∧
        resolveShard s batchSize st recs = (s.entries recs.1).reverse.foldl Resolving.visit
          { st with stillNeeded := needed } := by
  have hmem : ∀ r ∈ recs.2, r.entryId = [] ∨ r.entryId ∈ st.seenIds ∨
      r.entryId ∈ ((recs.2.map IndexRecord.entryId).filter (· ≠ [])).filter (· ∉ st.seenIds) := by
    intro r hr
    by_cases hnil : r.entryId = []
    · exact Or.inl hnil
    · by_cases hseen : r.entryId ∈ st.seenIds
      · exact Or.inr (Or.inl hseen)
      · exact Or.inr (Or.inr (by simpa [hseen, hnil] using ⟨r, hr, rfl⟩))
  unfold resolveShard
  dsimp only
  split_ifs with hneeded
  · left
    refine ⟨rfl, ?_⟩
    intro r hr
    rcases hmem r hr with h | h | h
    · exact Or.inl h
    · exact Or.inr h
    · rw [hneeded] at h
      cases h
  · right
    refine ⟨_, hmem, ?_⟩
    rw [resolveFrom_eq hbatch _ _ _ (by omega), List.drop_zero]

theorem Resolving.Sound.shard (hbatch : 0 < batchSize) {st : Resolving F} (h : st.Sound s)
    (recs : PyStr × List (IndexRecord F)) : (resolveShard s batchSize st recs).Sound s := by
  rcases resolveShard_cases hbatch st recs with ⟨heq, -⟩ | ⟨needed, -, heq⟩
  · rwa [heq]
  · rw [heq]
    have hstart : Resolving.Sound s { st with stillNeeded := needed } := ⟨h.seen, h.stored⟩
    exact hstart.run fun e he => ⟨recs.1, List.mem_reverse.mp he⟩

theorem mem_seenIds_shard (hbatch : 0 < batchSize) {st : Resolving F} {id : PyStr}
    (h : id ∈ st.seenIds) (recs : PyStr × List (IndexRecord F)) :
    id ∈ (resolveShard s batchSize st recs).seenIds := by
  rcases resolveShard_cases hbatch st recs with ⟨heq, -⟩ | ⟨needed, -, heq⟩
  · rwa [heq]
  · rw [heq]
    exact mem_seenIds_foldl _ h

/-- A shard meets every id its records ask for. -/
theorem seen_of_record (hbatch : 0 < batchSize) (st : Resolving F)
    {recs : PyStr × List (IndexRecord F)} {r : IndexRecord F} (hr : r ∈ recs.2)
    (hne : r.entryId ≠ []) (he : ∃ e ∈ s.entries recs.1, e.id = r.entryId) :
    r.entryId ∈ (resolveShard s batchSize st recs).seenIds := by
  rcases resolveShard_cases (s := s) hbatch st recs with ⟨heq, hall⟩ | ⟨needed, hall, heq⟩
  · rw [heq]
    exact (hall r hr).resolve_left hne
  · rw [heq]
    rcases hall r hr with h | h | h
    · exact absurd h hne
    · exact mem_seenIds_foldl _ h
    · apply seen_of_needed hne _ h
      obtain ⟨e, he, hid⟩ := he
      exact ⟨e, List.mem_reverse.mpr he, hid⟩

theorem Resolving.Sound.shards (hbatch : 0 < batchSize) {st : Resolving F} (h : st.Sound s)
    (groups : List (PyStr × List (IndexRecord F))) :
    (groups.foldl (resolveShard s batchSize) st).Sound s := by
  induction groups generalizing st with
  | nil => exact h
  | cons g groups ih => exact ih (h.shard hbatch g)

theorem mem_seenIds_shards (hbatch : 0 < batchSize) {st : Resolving F} {id : PyStr}
    (h : id ∈ st.seenIds) (groups : List (PyStr × List (IndexRecord F))) :
    id ∈ (groups.foldl (resolveShard s batchSize) st).seenIds := by
  induction groups generalizing st with
  | nil => exact h
  | cons g groups ih => exact ih (mem_seenIds_shard hbatch h g)

theorem sound_resolve (hbatch : 0 < batchSize) (records : List (IndexRecord F)) :
    ((Dict.group IndexRecord.shardId records).foldl (resolveShard s batchSize)
      ⟨[], [], []⟩).Sound s :=
  Resolving.Sound.shards hbatch ⟨rfl, fun e he => by cases he⟩ _

/-- Every id asked for is met. -/
theorem seen_resolve (hbatch : 0 < batchSize) {records : List (IndexRecord F)} {r : IndexRecord F}
    (hr : r ∈ records) (hne : r.entryId ≠ []) (he : ∃ e ∈ s.entries r.shardId, e.id = r.entryId) :
    r.entryId ∈ ((Dict.group IndexRecord.shardId records).foldl (resolveShard s batchSize)
      ⟨[], [], []⟩).seenIds := by
  obtain ⟨recs, hrecs, hmem⟩ : ∃ recs, (r.shardId, recs) ∈ Dict.group IndexRecord.shardId records ∧
      r ∈ recs := by
    have hget := Dict.get_group IndexRecord.shardId records r.shardId
    cases hbucket : Dict.get r.shardId (Dict.group IndexRecord.shardId records) with
    | none =>
      rw [hbucket] at hget
      have hown : r ∈ records.filter fun x => x.shardId = r.shardId :=
        List.mem_filter.mpr ⟨hr, decide_eq_true rfl⟩
      rw [← hget] at hown
      cases hown
    | some recs =>
      rw [hbucket] at hget
      refine ⟨recs, Dict.mem_of_get hbucket, ?_⟩
      rw [Option.getD_some] at hget
      rw [hget]
      exact List.mem_filter.mpr ⟨hr, decide_eq_true rfl⟩
  obtain ⟨pre, post, hsplit⟩ := List.append_of_mem hrecs
  rw [hsplit, List.foldl_append, List.foldl_cons]
  exact mem_seenIds_shards hbatch (seen_of_record hbatch _ hmem hne he) post

/-- **Where an id names one entry, the join finds it for a record that has the id.** -/
theorem byId_resolveEntries (hbatch : 0 < batchSize) {records : List (IndexRecord F)}
    {r : IndexRecord F} {e : StoredEntry F} (hr : r ∈ records) (hne : r.entryId ≠ [])
    (he : e ∈ s.entries r.shardId) (hid : e.id = r.entryId)
    (honly : ∀ shard, ∀ x ∈ s.entries shard, x.id = r.entryId → x = e) :
    byId (resolveEntries s batchSize records) r.entryId = some e := by
  have hsound := sound_resolve (s := s) hbatch records
  have hseen := seen_resolve hbatch hr hne ⟨e, he, hid⟩
  rw [hsound.seen] at hseen
  obtain ⟨x, hx, hxid⟩ := List.mem_map.mp hseen
  cases hfind : byId (resolveEntries s batchSize records) r.entryId with
  | none =>
    have hno := List.find?_eq_none.mp hfind x (List.mem_reverse.mpr hx)
    exact absurd (decide_eq_true hxid) hno
  | some y =>
    obtain ⟨hmem, hy⟩ := of_byId hfind
    obtain ⟨shard, hstored⟩ := hsound.stored y hmem
    rw [honly shard y hstored hy]

/-- No id is seen twice, and what is seen or needed was asked for. -/
structure Resolving.Asked (ids : List PyStr) (st : Resolving F) : Prop where
  nodup : st.seenIds.Nodup
  seen : ∀ id ∈ st.seenIds, id ∈ ids
  needed : ∀ id ∈ st.stillNeeded, id ∈ ids

theorem Resolving.Asked.visit {ids : List PyStr} {st : Resolving F} (h : st.Asked ids)
    (e : StoredEntry F) : (st.visit e).Asked ids := by
  unfold Resolving.visit
  split_ifs with hskip
  · exact h
  · simp only [not_or, not_not] at hskip
    obtain ⟨-, hneeded, hnew⟩ := hskip
    refine ⟨?_, ?_, ?_⟩
    · exact List.nodup_append.mpr ⟨h.nodup, List.nodup_singleton _, by
        rintro a ha b hb rfl
        exact hnew (List.mem_singleton.mp hb ▸ ha)⟩
    · intro id hid
      rcases List.mem_append.mp hid with hid | hid
      · exact h.seen id hid
      · obtain rfl := List.mem_singleton.mp hid
        exact h.needed e.id hneeded
    · intro id hid
      exact h.needed id (List.mem_filter.mp hid).1

theorem Resolving.Asked.run {ids : List PyStr} : ∀ (es : List (StoredEntry F)) {st : Resolving F},
    st.Asked ids → (es.foldl Resolving.visit st).Asked ids
  | [], _, h => h
  | e :: es, _, h => Resolving.Asked.run es (h.visit e)

theorem Resolving.Asked.shard (hbatch : 0 < batchSize) {ids : List PyStr} {st : Resolving F}
    (h : st.Asked ids) {recs : PyStr × List (IndexRecord F)}
    (hrecs : ∀ r ∈ recs.2, r.entryId ∈ ids) : (resolveShard s batchSize st recs).Asked ids := by
  unfold resolveShard
  dsimp only
  split_ifs with hneeded
  · exact h
  · rw [resolveFrom_eq hbatch _ _ _ (by omega)]
    refine Resolving.Asked.run _ ⟨h.nodup, h.seen, ?_⟩
    intro id hid
    have hasked := (List.mem_filter.mp (List.mem_filter.mp hid).1).1
    obtain ⟨r, hr, rfl⟩ := List.mem_map.mp hasked
    exact hrecs r hr

theorem Resolving.Asked.shards (hbatch : 0 < batchSize) {ids : List PyStr} :
    ∀ (groups : List (PyStr × List (IndexRecord F))) {st : Resolving F}, st.Asked ids →
      (∀ g ∈ groups, ∀ r ∈ g.2, r.entryId ∈ ids) →
        (groups.foldl (resolveShard s batchSize) st).Asked ids
  | [], _, h, _ => h
  | g :: groups, _, h, hgroups =>
    Resolving.Asked.shards hbatch groups (h.shard hbatch (hgroups g List.mem_cons_self))
      fun x hx => hgroups x (List.mem_cons_of_mem g hx)

/-- **What is resolved has ids that are distinct and asked for.** -/
theorem asked_resolveEntries (hbatch : 0 < batchSize) (records : List (IndexRecord F)) :
    ((resolveEntries s batchSize records).map StoredEntry.id).Nodup ∧
      ∀ e ∈ resolveEntries s batchSize records, ∃ r ∈ records, r.entryId = e.id := by
  have hgroups : ∀ g ∈ Dict.group IndexRecord.shardId records, ∀ r ∈ g.2,
      r.entryId ∈ records.map IndexRecord.entryId := by
    intro g hg r hr
    have hget := Dict.get_group IndexRecord.shardId records g.1
    rw [Dict.get_of_mem (Dict.nodup_keys_group _ _) hg, Option.getD_some] at hget
    rw [hget] at hr
    exact List.mem_map_of_mem (List.mem_filter.mp hr).1
  have hstart : Resolving.Asked (records.map IndexRecord.entryId) (⟨[], [], []⟩ : Resolving F) :=
    ⟨List.nodup_nil, nofun, nofun⟩
  have hasked := Resolving.Asked.shards (s := s) hbatch _ hstart hgroups
  have hseen := (sound_resolve (s := s) hbatch records).seen
  refine ⟨hseen ▸ hasked.nodup, ?_⟩
  intro e he
  have hid : e.id ∈ records.map IndexRecord.entryId := by
    apply hasked.seen
    rw [hseen]
    exact List.mem_map_of_mem he
  obtain ⟨r, hr, heq⟩ := List.mem_map.mp hid
  exact ⟨r, hr, heq⟩

/-! ### The order of what is found -/

/-- What a pass over a shard finds: the entries with an id asked for, newest first. -/
def foundIn (s : Store F) (recs : PyStr × List (IndexRecord F)) : List (StoredEntry F) :=
  (s.entries recs.1).reverse.filter fun e => e.id ≠ [] ∧ e.id ∈ recs.2.map IndexRecord.entryId

/-- One pass over entries of distinct ids that were not seen takes those needed. -/
theorem foldl_visit_eq {es : List (StoredEntry F)} : ∀ {st : Resolving F},
    (es.map StoredEntry.id).Nodup → (∀ e ∈ es, e.id ∉ st.seenIds) →
      (es.foldl Resolving.visit st).entriesOut
          = st.entriesOut ++ es.filter (fun e => e.id ≠ [] ∧ e.id ∈ st.stillNeeded) ∧
        (es.foldl Resolving.visit st).seenIds
          = st.seenIds
            ++ (es.filter fun e => e.id ≠ [] ∧ e.id ∈ st.stillNeeded).map StoredEntry.id := by
  induction es with
  | nil =>
    intro st _ _
    simp
  | cons e es ih =>
    intro st hnodup hunseen
    rw [List.map_cons, List.nodup_cons] at hnodup
    have hother : ∀ x ∈ es, x.id ≠ e.id :=
      fun x hx h => hnodup.1 (h ▸ List.mem_map_of_mem hx)
    have hrest : ∀ x ∈ es, x.id ∉ st.seenIds := fun x hx => hunseen x (List.mem_cons_of_mem _ hx)
    rw [List.foldl_cons]
    by_cases htake : e.id ≠ [] ∧ e.id ∈ st.stillNeeded
    · have hvisit : st.visit e = ⟨st.entriesOut ++ [e], st.seenIds ++ [e.id],
          st.stillNeeded.filter (· ≠ e.id)⟩ := by
        rw [Resolving.visit, if_neg]
        rintro (h | h | h)
        · exact htake.1 h
        · exact h htake.2
        · exact hunseen e List.mem_cons_self h
      -- what is needed of the others is what was needed of them before
      have hneeded : (es.filter fun x => x.id ≠ [] ∧ x.id ∈ (st.visit e).stillNeeded)
          = es.filter fun x => x.id ≠ [] ∧ x.id ∈ st.stillNeeded := by
        apply List.filter_congr
        intro x hx
        rw [hvisit]
        simp [hother x hx]
      have hseen : ∀ x ∈ es, x.id ∉ (st.visit e).seenIds := by
        intro x hx h
        rw [hvisit] at h
        rcases List.mem_append.mp h with h | h
        · exact hrest x hx h
        · exact hother x hx (List.mem_singleton.mp h)
      obtain ⟨hout, hids⟩ := ih hnodup.2 hseen
      rw [hout, hids, hneeded, hvisit, List.filter_cons_of_pos (by simpa using htake)]
      simp
    · have hvisit : st.visit e = st := by
        rw [Resolving.visit, if_pos]
        by_cases hnil : e.id = []
        · exact Or.inl hnil
        · exact Or.inr (Or.inl fun h => htake ⟨hnil, h⟩)
      rw [hvisit, List.filter_cons_of_neg (by simpa using htake)]
      exact ih hnodup.2 hrest

/-- A shard none of whose ids was seen adds what a pass over it finds. -/
theorem resolveShard_eq (hbatch : 0 < batchSize) {st : Resolving F}
    {recs : PyStr × List (IndexRecord F)} (hnodup : ((s.entries recs.1).map StoredEntry.id).Nodup)
    (hunseen : ∀ e ∈ s.entries recs.1, e.id ∉ st.seenIds) :
    (resolveShard s batchSize st recs).entriesOut = st.entriesOut ++ foundIn s recs ∧
      (resolveShard s batchSize st recs).seenIds
        = st.seenIds ++ (foundIn s recs).map StoredEntry.id := by
  have hpass : ∀ needed : List PyStr,
      (∀ e ∈ s.entries recs.1, e.id ≠ [] →
        (e.id ∈ needed ↔ e.id ∈ recs.2.map IndexRecord.entryId)) →
      (s.entries recs.1).reverse.filter (fun e => e.id ≠ [] ∧ e.id ∈ needed) = foundIn s recs := by
    intro needed hneeded
    apply List.filter_congr
    intro e he
    rw [decide_eq_decide]
    exact and_congr_right fun hne => hneeded e (List.mem_reverse.mp he) hne
  have hasked : ∀ e ∈ s.entries recs.1, e.id ≠ [] →
      (e.id ∈ ((recs.2.map IndexRecord.entryId).filter (· ≠ [])).filter (· ∉ st.seenIds) ↔
        e.id ∈ recs.2.map IndexRecord.entryId) := by
    intro e he hne
    rw [List.mem_filter, List.mem_filter]
    constructor
    · exact fun h => h.1.1
    · exact fun h => ⟨⟨h, decide_eq_true hne⟩, decide_eq_true (hunseen e he)⟩
  have hreverse : ((s.entries recs.1).reverse.map StoredEntry.id).Nodup := by
    rw [List.map_reverse]
    exact List.nodup_reverse.mpr hnodup
  unfold resolveShard
  dsimp only
  split_ifs with hneeded
  · -- nothing is needed of the shard, and nothing is found in it
    have hnone : foundIn s recs = [] := by
      rw [← hpass _ hasked, hneeded]
      simp
    rw [hnone]
    simp
  · rw [resolveFrom_eq hbatch _ _ _ (by omega), List.drop_zero, ← hpass _ hasked]
    exact foldl_visit_eq hreverse fun e he => hunseen e (List.mem_reverse.mp he)

/-- An id that no two entries share names the shard and the entry. -/
theorem Store.only (h : s.ids.Nodup) {k k' : PyStr} {e e' : StoredEntry F}
    (he : e ∈ s.entries k) (he' : e' ∈ s.entries k') (hid : e.id = e'.id) : k = k' ∧ e = e' := by
  have hpairs : s.ids = (s.listShards.flatMap fun shard =>
      (s.entries shard).map fun x => (shard, x)).map fun p => p.2.id := by
    rw [Store.ids, List.map_flatMap]
    simp only [List.map_map]
    rfl
  have hmem : ∀ {shard x}, x ∈ s.entries shard →
      (shard, x) ∈ s.listShards.flatMap fun shard => (s.entries shard).map fun x => (shard, x) :=
    fun hx => List.mem_flatMap.mpr ⟨_, Store.mem_listShards hx, List.mem_map_of_mem hx⟩
  rw [hpairs] at h
  exact Prod.mk.inj (List.inj_on_of_nodup_map h (hmem he) (hmem he') hid)

theorem Store.nodup_ids (h : s.ids.Nodup) (k : PyStr) :
    ((s.entries k).map StoredEntry.id).Nodup := by
  cases hentries : s.entries k with
  | nil => exact List.nodup_nil
  | cons e es =>
    rw [← hentries]
    have hlisted : k ∈ s.listShards := Store.mem_listShards (hentries ▸ List.mem_cons_self)
    exact (List.nodup_flatMap.mp h).1 k hlisted

/-- **Where ids are not shared, what is found stands shard by shard, newest first.** -/
theorem resolveEntries_eq (hbatch : 0 < batchSize) (h : s.ids.Nodup)
    (records : List (IndexRecord F)) :
    resolveEntries s batchSize records
      = (Dict.group IndexRecord.shardId records).flatMap (foundIn s) := by
  have hfold : ∀ (groups : List (PyStr × List (IndexRecord F))) (st : Resolving F),
      (Dict.keys groups).Nodup →
      (∀ g ∈ groups, ∀ e ∈ s.entries g.1, e.id ∉ st.seenIds) →
      (groups.foldl (resolveShard s batchSize) st).entriesOut
        = st.entriesOut ++ groups.flatMap (foundIn s) := by
    intro groups
    induction groups with
    | nil =>
      intro st _ _
      simp
    | cons g groups ih =>
      intro st hkeys hunseen
      rw [Dict.keys_cons, List.nodup_cons] at hkeys
      obtain ⟨hout, hids⟩ :=
        resolveShard_eq hbatch (Store.nodup_ids h g.1) (hunseen g List.mem_cons_self)
      have hrest : ∀ g' ∈ groups, ∀ e ∈ s.entries g'.1,
          e.id ∉ (resolveShard s batchSize st g).seenIds := by
        intro g' hg' e he hseen
        rw [hids] at hseen
        rcases List.mem_append.mp hseen with hseen | hseen
        · exact hunseen g' (List.mem_cons_of_mem _ hg') e he hseen
        · -- the ids of this shard are of no other
          obtain ⟨x, hx, hxid⟩ := List.mem_map.mp hseen
          have hx' := List.mem_reverse.mp (List.mem_filter.mp hx).1
          obtain ⟨hk, -⟩ := Store.only h hx' he hxid
          exact hkeys.1 (hk ▸ List.mem_map_of_mem hg')
      rw [List.foldl_cons, ih _ hkeys.2 hrest, hout, List.flatMap_cons, List.append_assoc]
  exact hfold _ ⟨[], [], []⟩ (Dict.nodup_keys_group _ _) fun _ _ _ _ => List.not_mem_nil

end

end Daryl
