import Daryl.Lib.Dict
import Daryl.Py.Datetime
import Daryl.Py.Eq

/-!
# `rr`: shards as a reader sees them, and the index over them

The read relay uses a storage through `list_shards` and the paginated `read` alone;
here a storage is its shards, each with its entries in the order of their appends.
The index reads every shard in pages, newest first, makes a record of each entry,
and groups the records.  The time of a record is a number: `stamp` is
`datetime.timestamp`, and enters as a parameter.

## Main definitions

* `StoredEntry`, `Store` — an entry of the types its class declares, and the shards.
* `Store.append`, `Store.read`, `Store.listShards` — the storage interface.
* `IndexRecord`, `entryToIndexRecord` — the record of an entry.
* `scanShard` — the pages of a shard.
* `RRIndex`, `buildIndex` — the indexes and their construction.

## Main results

* `scanShard_eq` — **the pages of a shard are the shard, newest first.**
* `mem_scanRecords` — the records are those of the entries of all shards.
-/

namespace Daryl

open Py

/-- An entry read from a shard, of the types its class declares. -/
structure StoredEntry (F : Type) where
  id : PyStr
  timestamp : Datetime
  sessionId : PyStr
  source : PyStr
  content : PyStr
  shard : PyStr
  hash : PyStr
  metadata : PyVal F
  deriving DecidableEq

/-- A storage: every shard with its entries, oldest first. -/
structure Store (F : Type) where
  shards : List (PyStr × List (StoredEntry F))
  nodup : (Dict.keys shards).Nodup

variable {F : Type}

namespace Store

/-- A storage without shards. -/
def empty : Store F := ⟨[], by simp⟩

/-- The entries of a shard. -/
def entries (s : Store F) (shard : PyStr) : List (StoredEntry F) := (Dict.get shard s.shards).getD []

/-- `Storage.append`: the entry goes last in its shard, which is made if it is not
there. -/
def append (s : Store F) (e : StoredEntry F) : Store F where
  shards := Dict.push e.shard e s.shards
  nodup := Dict.nodup_keys_set s.nodup

/-- `Storage.read`: newest first. -/
def read (s : Store F) (shard : PyStr) (offset limit : ℕ) : List (StoredEntry F) :=
  ((s.entries shard).reverse.drop offset).take limit

/-- The names of `Storage.list_shards`. -/
def listShards (s : Store F) : List PyStr := Dict.keys s.shards

theorem entries_append (s : Store F) (e : StoredEntry F) (shard : PyStr) :
    (s.append e).entries shard = s.entries shard ++ if e.shard = shard then [e] else [] :=
  Dict.get_push e.shard shard e s.shards

/-- A directory lists its shards in no particular order. -/
theorem entries_perm {s s' : Store F} (h : s.shards.Perm s'.shards) (shard : PyStr) :
    s.entries shard = s'.entries shard := by
  rw [entries, entries, Dict.get_perm s.nodup h]

/-- Shards with entries are listed. -/
theorem mem_listShards {s : Store F} {shard : PyStr} {e : StoredEntry F}
    (h : e ∈ s.entries shard) : shard ∈ s.listShards := by
  rw [entries] at h
  rw [listShards, ← Dict.get_isSome]
  cases hget : Dict.get shard s.shards with
  | none =>
    rw [hget] at h
    cases h
  | some es => rfl

end Store

/-! ### Records -/

/-- A record of the index. -/
structure IndexRecord (F : Type) where
  sessionId : PyStr
  timestamp : ℚ
  agent : PyStr
  eventType : PyVal F
  shardId : PyStr
  entryId : PyStr
  offset : ℕ
  actionName : PyVal F
  success : Bool
  deriving DecidableEq

section

variable [PyFloat F]

/-- The items of the metadata; what is no dict has none. -/
def StoredEntry.metadataItems (e : StoredEntry F) : List (Key F × PyVal F) :=
  match e.metadata with
  | .dict kvs => kvs
  | _ => []

/-- `metadata.get(k)`. -/
def StoredEntry.meta (e : StoredEntry F) (k : PyStr) : PyVal F :=
  (dictGet k e.metadataItems).getD .none

/-- `_entry_to_index_record`: the name of an action is that of the metadata, or
`unknown` for a tool call. -/
def entryToIndexRecord (stamp : Datetime → ℚ) (e : StoredEntry F) (shardId : PyStr)
    (offset : ℕ) : IndexRecord F :=
  let eventType := (dictGet (py "event_type") e.metadataItems).getD (.str [])
  let rawActionName := e.meta (py "action_name")
  { sessionId := e.sessionId
    timestamp := stamp e.timestamp
    agent := e.source
    eventType := eventType
    shardId := shardId
    entryId := e.id
    offset := offset
    actionName :=
      if rawActionName.truthy then rawActionName
      else if pyEq eventType (.str (py "tool_call")) then .str (py "unknown")
      else .none
    success := ((dictGet (py "success") e.metadataItems).getD (.bool true)).truthy }

/-! ### The scan -/

/-- The loop over the pages of a shard, from an offset: an empty page ends it, and
so does one that is not full. -/
def scanFrom (s : Store F) (shard : PyStr) (batchSize : ℕ) :
    ℕ → ℕ → List (StoredEntry F × ℕ)
  | 0, _ => []
  | fuel + 1, offset =>
    let batch := s.read shard offset batchSize
    if batch = [] then []
    else
      batch.zipIdx offset ++
        if batch.length < batchSize then []
        else scanFrom s shard batchSize fuel (offset + batch.length)

/-- The pages of a shard.  Every full page moves the offset, so there are at most
as many as there are entries. -/
def scanShard (s : Store F) (shard : PyStr) (batchSize : ℕ) : List (StoredEntry F × ℕ) :=
  scanFrom s shard batchSize ((s.entries shard).length + 1) 0

/-- The records of all shards, in the order of the scan. -/
def scanRecords (stamp : Datetime → ℚ) (batchSize : ℕ) (s : Store F) : List (IndexRecord F) :=
  s.listShards.flatMap fun shardId =>
    (scanShard s shardId batchSize).map fun p => entryToIndexRecord stamp p.1 shardId p.2

/-! ### The indexes -/

/-- The indexes. -/
structure RRIndex (F : Type) where
  sessionIndex : List (PyStr × List (IndexRecord F))
  agentIndex : List (PyStr × List (IndexRecord F))
  timelineIndex : List (IndexRecord F)
  shardIndex : List (PyStr × List (IndexRecord F))
  actionIndex : List (PyStr × List (IndexRecord F))

/-- The stable sort by time. -/
def sortByTime (rs : List (IndexRecord F)) : List (IndexRecord F) :=
  rs.insertionSort fun a b => a.timestamp ≤ b.timestamp

/-- `record["session_id"] or "none"`. -/
def IndexRecord.sessionKey (r : IndexRecord F) : PyStr :=
  if r.sessionId = [] then py "none" else r.sessionId

/-- `record["agent"] or "unknown"`. -/
def IndexRecord.agentKey (r : IndexRecord F) : PyStr :=
  if r.agent = [] then py "unknown" else r.agent

/-- The action names a dict takes as keys: a list or a dict is a `TypeError`. -/
def IndexRecord.hashable (r : IndexRecord F) : Bool :=
  match r.actionName with
  | .list _ | .dict _ => false
  | _ => true

/-- The records of actions with a string for a name, each with it.  Nothing asks for
the buckets of other names. -/
def namedActions (rs : List (IndexRecord F)) : List (PyStr × IndexRecord F) :=
  rs.filterMap fun r =>
    match r.actionName with
    | .str name => some (name, r)
    | _ => none

/-- The indexes of the records of a scan. -/
def indexRecords (rs : List (IndexRecord F)) : RRIndex F where
  sessionIndex := Dict.group IndexRecord.sessionKey rs
  agentIndex := Dict.group IndexRecord.agentKey rs
  timelineIndex := sortByTime rs
  shardIndex := Dict.group IndexRecord.shardId rs
  actionIndex := (Dict.group Prod.fst (namedActions rs)).map fun bucket =>
    (bucket.1, sortByTime (bucket.2.map Prod.snd))

/-- `build`; `none` is the `TypeError` of an action name that is no key. -/
def buildIndex (stamp : Datetime → ℚ) (batchSize : ℕ) (s : Store F) : Option (RRIndex F) :=
  let rs := scanRecords stamp batchSize s
  if rs.all IndexRecord.hashable then some (indexRecords rs) else none

/-! ### What the scan reads -/

omit [PyFloat F] in
/-- A page is empty iff the offset is past the shard. -/
theorem read_eq_nil_iff {s : Store F} {shard : PyStr} {offset limit : ℕ} (hlimit : 0 < limit) :
    s.read shard offset limit = [] ↔ (s.entries shard).length ≤ offset := by
  rw [Store.read, List.take_eq_nil_iff, List.drop_eq_nil_iff, List.length_reverse]
  constructor
  · rintro (h | h)
    · exact absurd h hlimit.ne'
    · exact h
  · exact Or.inr

omit [PyFloat F] in
/-- **The pages from an offset are the rest of the shard.** -/
theorem scanFrom_eq {s : Store F} {shard : PyStr} {batchSize : ℕ} (hbatch : 0 < batchSize) :
    ∀ fuel offset, (s.entries shard).length < fuel + offset →
      scanFrom s shard batchSize fuel offset
        = ((s.entries shard).reverse.drop offset).zipIdx offset := by
  intro fuel
  induction fuel with
  | zero =>
    intro offset h
    have hnil : (s.entries shard).reverse.drop offset = [] :=
      List.drop_eq_nil_iff.mpr (by rw [List.length_reverse]; omega)
    rw [hnil]
    rfl
  | succ fuel ih =>
    intro offset h
    rw [scanFrom]
    by_cases hnil : s.read shard offset batchSize = []
    · have hlen := (read_eq_nil_iff hbatch).mp hnil
      have hdrop : (s.entries shard).reverse.drop offset = [] :=
        List.drop_eq_nil_iff.mpr (by rw [List.length_reverse]; omega)
      simp only [hnil, if_true, hdrop]
      rfl
    · have hlen : offset < (s.entries shard).length := by
        by_contra hle
        exact hnil ((read_eq_nil_iff hbatch).mpr (by omega))
      have hread : (s.read shard offset batchSize).length
          = min batchSize ((s.entries shard).length - offset) := by
        simp [Store.read]
      simp only [if_neg hnil]
      have hsplit : (s.entries shard).reverse.drop offset
          = s.read shard offset batchSize
            ++ (s.entries shard).reverse.drop (offset + (s.read shard offset batchSize).length) := by
        rw [← List.drop_drop, hread]
        conv_lhs => rw [← List.take_append_drop batchSize ((s.entries shard).reverse.drop offset)]
        congr 1
        rcases le_total batchSize ((s.entries shard).length - offset) with hle | hle
        · rw [min_eq_left hle]
        · rw [min_eq_right hle, List.drop_of_length_le, List.drop_of_length_le]
          · simp
          · simpa using hle
      rw [hsplit, List.zipIdx_append]
      congr 1
      split_ifs with hfull
      · -- the page was not full: nothing is left
        rw [eq_comm, List.zipIdx_eq_nil_iff, List.drop_eq_nil_iff, List.length_reverse]
        omega
      · exact ih _ (by omega)

omit [PyFloat F] in
/-- **The pages of a shard are the shard, newest first**, each entry with its
place. -/
theorem scanShard_eq {s : Store F} {shard : PyStr} {batchSize : ℕ} (hbatch : 0 < batchSize) :
    scanShard s shard batchSize = (s.entries shard).reverse.zipIdx := by
  rw [scanShard, scanFrom_eq hbatch _ _ (by omega), List.drop_zero]

/-- The ids of all entries. -/
def Store.ids (s : Store F) : List PyStr :=
  s.listShards.flatMap fun shardId => (s.entries shardId).map StoredEntry.id

/-- The records carry the ids of the entries. -/
theorem ids_scanRecords {stamp : Datetime → ℚ} {batchSize : ℕ} (hbatch : 0 < batchSize)
    (s : Store F) :
    ((scanRecords stamp batchSize s).map IndexRecord.entryId).Perm s.ids := by
  unfold scanRecords Store.ids
  rw [List.map_flatMap]
  apply List.Perm.flatMap_left
  intro shardId _
  rw [scanShard_eq hbatch, List.map_map]
  have hids : ((s.entries shardId).reverse.zipIdx.map
      (IndexRecord.entryId ∘ fun p => entryToIndexRecord stamp p.1 shardId p.2))
      = (s.entries shardId).reverse.map StoredEntry.id := by
    conv_rhs => rw [← List.zipIdx_map_fst 0 (s.entries shardId).reverse, List.map_map]
    rfl
  rw [hids, List.map_reverse]
  exact List.reverse_perm _

/-- A record of the scan is that of an entry of a shard. -/
theorem mem_scanRecords {stamp : Datetime → ℚ} {batchSize : ℕ} (hbatch : 0 < batchSize)
    {s : Store F} {r : IndexRecord F} :
    r ∈ scanRecords stamp batchSize s ↔ ∃ shardId ∈ s.listShards, ∃ e i,
      (s.entries shardId).reverse[i]? = some e ∧ r = entryToIndexRecord stamp e shardId i := by
  unfold scanRecords
  simp only [List.mem_flatMap, scanShard_eq hbatch, List.mem_map, Prod.exists,
    List.mem_zipIdx_iff_getElem?]
  constructor
  · rintro ⟨shardId, hshard, e, i, hget, rfl⟩
    exact ⟨shardId, hshard, e, i, hget, rfl⟩
  · rintro ⟨shardId, hshard, e, i, hget, rfl⟩
    exact ⟨shardId, hshard, e, i, hget, rfl⟩

/-- **The records of a shard are those of its entries, newest first.** -/
theorem filter_scanRecords {stamp : Datetime → ℚ} {batchSize : ℕ} (hbatch : 0 < batchSize)
    (s : Store F) (shardId : PyStr) :
    ((scanRecords stamp batchSize s).filter fun r => r.shardId = shardId)
      = (s.entries shardId).reverse.zipIdx.map fun p => entryToIndexRecord stamp p.1 shardId p.2 := by
  have hown : ∀ k, ∀ r ∈ (s.entries k).reverse.zipIdx.map fun p =>
      entryToIndexRecord stamp p.1 k p.2, r.shardId = k := by
    intro k r hr
    obtain ⟨p, _, rfl⟩ := List.mem_map.mp hr
    rfl
  have hscan : scanRecords stamp batchSize s
      = s.listShards.flatMap fun k => (s.entries k).reverse.zipIdx.map fun p =>
          entryToIndexRecord stamp p.1 k p.2 := by
    unfold scanRecords
    simp only [scanShard_eq hbatch]
  rw [hscan, Dict.filter_flatMap_key hown (show s.listShards.Nodup from s.nodup)]
  split_ifs with hmem
  · rfl
  · -- a shard that is not listed has no entries
    have hnone : Dict.get shardId s.shards = none := by
      rw [← Option.not_isSome_iff_eq_none, Dict.get_isSome]
      exact hmem
    rw [Store.entries, hnone]
    rfl

/-! ### What the indexes hold -/

omit [PyFloat F] in
@[simp] theorem mem_sortByTime {rs : List (IndexRecord F)} {r : IndexRecord F} :
    r ∈ sortByTime rs ↔ r ∈ rs := List.mem_insertionSort _

omit [PyFloat F] in
theorem sortByTime_perm (rs : List (IndexRecord F)) : (sortByTime rs).Perm rs :=
  List.perm_insertionSort _ _

end

end Daryl
