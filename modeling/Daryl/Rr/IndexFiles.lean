import Daryl.Dsm.Storage
import Daryl.Lib.StableSort
import Daryl.Rr.Index

/-!
# `rr_index_builder`: the five indexes and their files

The loop over the pages of every shard puts the record of each entry into the bucket of its
session, of its agent and of its shard, onto the timeline and, when it names an action, into
the bucket of that name; the timeline and the buckets of actions are sorted by time.  The
indexes are dicts of Python: the name of an action is whatever the metadata have, a key if it
can be hashed.  They are written as JSON, where every key is a string, and read back by
another builder.

What a time is as a float is a parameter.  The files are texts, white space aside.

## Main definitions

* `TimedRecord` — a record with its time as a float, and the dict it is.
* `Indexes`, `Indexes.add`, `populate` — the indexes and the loop over the entries.
* `writeIndexFiles`, `build`, `load` — the files.
* `Faithful` — the indexes are a copy of the log.
* `Loaded` — what was read from the files is what the indexes are.
* `NamedByStrings` — what names an action is a string.

## Main results

* `populate_eq` — where all names are keys, the loop makes the groups of the records.
* `copies_iff` — **the indexes are a copy of the log, and are read back as they are, iff
  what names an action is a string.**
-/

namespace Daryl

open Py Json

namespace IndexFiles

variable {F : Type}

/-! ### Records -/

/-- A record, with its time as the float that it is. -/
structure TimedRecord (F : Type) where
  time : F
  record : IndexRecord F

variable [PyFloat F]

/-- `_entry_to_index_record`. -/
def timedRecord (clock : Datetime → F) (e : StoredEntry F) (shardId : PyStr) (offset : ℕ) :
    TimedRecord F where
  time := clock e.timestamp
  record := entryToIndexRecord (fun d => PyFloat.val (clock d)) e shardId offset

/-- The record as the dict it is. -/
def TimedRecord.toPy (r : TimedRecord F) : PyVal F :=
  .dict (strItems [(py "session_id", .str r.record.sessionId),
    (py "timestamp", .float (.finite r.time)), (py "agent", .str r.record.agent),
    (py "event_type", r.record.eventType), (py "shard_id", .str r.record.shardId),
    (py "entry_id", .str r.record.entryId), (py "offset", .int r.record.offset),
    (py "action_name", r.record.actionName), (py "success", .bool r.record.success)])

/-- The records of all shards, in the order of the scan. -/
def scanTimed (clock : Datetime → F) (batchSize : ℕ) (s : Store F) : List (TimedRecord F) :=
  s.listShards.flatMap fun shardId =>
    (scanShard s shardId batchSize).map fun p => timedRecord clock p.1 shardId p.2

/-! ### The indexes -/

/-- One name finds the bucket of the other: a number is a key like its equals, and the `nan`
of a JSON text is one object. -/
def sameName (v w : PyVal F) : Bool := v.isNan && w.isNan || pyEq v w

/-- `index.get(name)`, and the bucket made if there is none. -/
def pushName {A : Type} (name : PyVal F) (a : A) : List (PyVal F × List A) → List (PyVal F × List A)
  | [] => [(name, [a])]
  | (k, as) :: d => if sameName k name then (k, as ++ [a]) :: d else (k, as) :: pushName name a d

/-- The indexes of a builder. -/
structure Indexes (F : Type) where
  sessionIndex : List (PyStr × List (TimedRecord F))
  agentIndex : List (PyStr × List (TimedRecord F))
  timelineIndex : List (TimedRecord F)
  shardIndex : List (PyStr × List (TimedRecord F))
  actionIndex : List (PyVal F × List (TimedRecord F))

/-- The indexes after `clear`. -/
def Indexes.empty : Indexes F := ⟨[], [], [], [], []⟩

/-- The loop body over the entries; `none` is the `TypeError` of a name that is no key. -/
def Indexes.add (ix : Indexes F) (r : TimedRecord F) : Option (Indexes F) :=
  let ix' : Indexes F :=
    { ix with
      sessionIndex := Dict.push r.record.sessionKey r ix.sessionIndex
      agentIndex := Dict.push r.record.agentKey r ix.agentIndex
      timelineIndex := ix.timelineIndex ++ [r]
      shardIndex := Dict.push r.record.shardId r ix.shardIndex }
  if r.record.actionName.isNone then some ix'
  else if r.record.hashable then
    some { ix' with actionIndex := pushName r.record.actionName r ix.actionIndex }
  else none

/-- The time records are sorted by. -/
def TimedRecord.at (r : TimedRecord F) : ℚ := PyFloat.val r.time

/-- The indexes with the timeline and the buckets of actions sorted. -/
def Indexes.sorted (ix : Indexes F) : Indexes F :=
  { ix with
    timelineIndex := StableSort.sortBy TimedRecord.at ix.timelineIndex
    actionIndex := ix.actionIndex.map fun p => (p.1, StableSort.sortBy TimedRecord.at p.2) }

/-- The indexes a scan makes. -/
def populate (rs : List (TimedRecord F)) : Option (Indexes F) :=
  (rs.foldlM Indexes.add Indexes.empty).map Indexes.sorted

/-! ### The files -/

/-- `{"index_version": INDEX_VERSION, "entries": data}`. -/
def indexPayload (data : PyVal F) : PyVal F :=
  .dict (strItems [(py "index_version", .int 1), (py "entries", data)])

/-- A bucket as the list it is. -/
def bucketPy (rs : List (TimedRecord F)) : PyVal F := .list (rs.map TimedRecord.toPy)

/-- An index under strings as the dict it is. -/
def bucketsPy (d : List (PyStr × List (TimedRecord F))) : PyVal F :=
  .dict (strItems (d.map fun p => (p.1, bucketPy p.2)))

/-- The string that `json.dump` writes for a key. -/
def nameText : PyVal F → PyStr
  | .str s => s
  | .int n => intStr n
  | .bool b => boolText b
  | .float .nan => py "NaN"
  | .float (.inf neg) => infText neg
  | .float (.finite x) => (PyFloat.repr x).text
  | _ => py "null"

/-- The index of actions, under the strings written for its keys. -/
def actionsPy (d : List (PyVal F × List (TimedRecord F))) : PyVal F :=
  .dict (strItems (d.map fun p => (nameText p.1, bucketPy p.2)))

/-- `file_specs`. -/
def fileSpecs (ix : Indexes F) : List (PyStr × PyVal F) :=
  [(py "sessions.idx", bucketsPy ix.sessionIndex), (py "agents.idx", bucketsPy ix.agentIndex),
    (py "timeline.idx", bucketPy ix.timelineIndex), (py "shards.idx", bucketsPy ix.shardIndex),
    (py "actions.idx", actionsPy ix.actionIndex)]

/-- The text of a file. -/
def fileText (data : PyVal F) : Except PyError PyStr :=
  match print fileStyle (indexPayload data) with
  | some text => if Encodable text then .ok text else .error .unicodeEncodeError
  | none => .error .valueError

/-- `_write_index_files`, over what the directory has; each file is replaced. -/
def writeIndexFiles (ix : Indexes F) (dir : List (PyStr × PyStr)) :
    Except PyError (List (PyStr × PyStr)) :=
  (fileSpecs ix).foldlM
    (fun dir spec => (fileText spec.2).map fun text => Dict.set spec.1 text dir) dir

/-- `build`, with the indexes it leaves in memory. -/
def build (clock : Datetime → F) (batchSize : ℕ) (s : Store F) (dir : List (PyStr × PyStr)) :
    Except PyError (Indexes F × List (PyStr × PyStr)) :=
  match populate (scanTimed clock batchSize s) with
  | none => .error .typeError
  | some ix => (writeIndexFiles ix dir).map fun dir' => (ix, dir')

/-- `_load_index`; `none` is what `json.load` raises. -/
def loadIndex (text : PyStr) : Option (PyVal F) :=
  (loads text).map fun obj =>
    match obj with
    | .dict kvs => (dictGet (py "entries") kvs).getD obj
    | _ => obj

/-- The indexes of a builder that has loaded them. -/
structure LoadedIndexes (F : Type) where
  sessionIndex : PyVal F
  agentIndex : PyVal F
  timelineIndex : PyVal F
  shardIndex : PyVal F
  actionIndex : PyVal F

/-- The index of a file of the directory. -/
def loadFile (dir : List (PyStr × PyStr)) (name : PyStr) : Option (PyVal F) :=
  (Dict.get name dir).bind loadIndex

/-- `load`; `none` is `False`, where a file is missing, or what is raised. -/
def load (dir : List (PyStr × PyStr)) : Option (LoadedIndexes F) := do
  let sessions ← loadFile dir (py "sessions.idx")
  let agents ← loadFile dir (py "agents.idx")
  let timeline ← loadFile dir (py "timeline.idx")
  let shards ← loadFile dir (py "shards.idx")
  let actions ← loadFile dir (py "actions.idx")
  pure ⟨sessions, agents, timeline, shards, actions⟩

/-! ### A faithful, persistent copy -/

/-- The records of the entries of all listed shards. -/
def logRecords (clock : Datetime → F) (s : Store F) : List (TimedRecord F) :=
  s.listShards.flatMap fun shardId =>
    (s.entries shardId).reverse.zipIdx.map fun p => timedRecord clock p.1 shardId p.2

/-- **The indexes are a copy of the log**: every entry has one record on the timeline, one in
the bucket of its session, of its agent and of its shard, one in the bucket of the action it
names, and none in another. -/
structure Faithful (clock : Datetime → F) (s : Store F) (ix : Indexes F) : Prop where
  distinct : (logRecords clock s).Nodup
  timeline : ix.timelineIndex.Perm (logRecords clock s)
  sessions : ∀ k, (Dict.get k ix.sessionIndex).getD []
    = (logRecords clock s).filter fun r => r.record.sessionKey = k
  agents : ∀ k, (Dict.get k ix.agentIndex).getD []
    = (logRecords clock s).filter fun r => r.record.agentKey = k
  shards : ∀ k, (Dict.get k ix.shardIndex).getD []
    = (logRecords clock s).filter fun r => r.record.shardId = k
  actions : ∀ p ∈ ix.actionIndex,
    p.2.Perm ((logRecords clock s).filter fun r => sameName p.1 r.record.actionName)
  named : ∀ r ∈ logRecords clock s, r.record.actionName ≠ .none ↔
    ∃ p ∈ ix.actionIndex, sameName p.1 r.record.actionName = true
  oneBucket : ix.actionIndex.Pairwise fun p q => sameName p.1 q.1 = false
  timelineSorted : ix.timelineIndex.Pairwise fun r r' => r.at ≤ r'.at
  actionsSorted : ∀ p ∈ ix.actionIndex, p.2.Pairwise fun r r' => r.at ≤ r'.at

/-- A key of a dict that was read, as a value. -/
def keyPy : Key F → PyVal F
  | .str s => .str s
  | .int n => .int n
  | .bool b => .bool b
  | .none => .none
  | .float x => .float (.finite x)
  | .inf neg => .float (.inf neg)

/-- **What was loaded is what the indexes are**: the same keys with the same records. -/
structure Loaded (ix : Indexes F) (l : LoadedIndexes F) : Prop where
  sessions : l.sessionIndex = bucketsPy ix.sessionIndex
  agents : l.agentIndex = bucketsPy ix.agentIndex
  timeline : l.timelineIndex = bucketPy ix.timelineIndex
  shards : l.shardIndex = bucketsPy ix.shardIndex
  actions : ∃ kvs, l.actionIndex = .dict kvs ∧
    (kvs.map fun kv => (keyPy kv.1, kv.2)) = ix.actionIndex.map fun p => (p.1, bucketPy p.2)

/-- The builder makes a faithful copy, and another loads it from the directory. -/
def Copies (clock : Datetime → F) (batchSize : ℕ) (s : Store F) : Prop :=
  ∀ dir, ∃ ix dir', build clock batchSize s dir = .ok (ix, dir') ∧ Faithful clock s ix ∧
    ∃ l, load dir' = some l ∧ Loaded ix l

/-- What `Storage.append` accepted and a reader got back: strings that encode, and metadata
that a JSON text gives. -/
structure Accepted (s : Store F) : Prop where
  shards : ∀ shard ∈ s.listShards, Encodable shard
  sessionId : ∀ shard, ∀ e ∈ s.entries shard, Encodable e.sessionId
  source : ∀ shard, ∀ e ∈ s.entries shard, Encodable e.source
  id : ∀ shard, ∀ e ∈ s.entries shard, Encodable e.id
  read : ∀ shard, ∀ e ∈ s.entries shard, form e.metadata = e.metadata
  encodes : ∀ shard, ∀ e ∈ s.entries shard, eachStr Encodable e.metadata

/-- **What names an action is a string.** -/
def NamedByStrings (s : Store F) : Prop :=
  ∀ shard, ∀ e ∈ s.entries shard, (e.meta (py "action_name")).truthy = true →
    ∃ name, e.meta (py "action_name") = .str name

/-! ### The loop over the entries -/

/-- A record that the loop takes: it names no action, or its name is a key. -/
def Takes (r : TimedRecord F) : Prop := r.record.actionName.isNone = true ∨ r.record.hashable = true

/-- The index of actions after a record. -/
def addName (d : List (PyVal F × List (TimedRecord F))) (r : TimedRecord F) :
    List (PyVal F × List (TimedRecord F)) :=
  if r.record.actionName.isNone then d else pushName r.record.actionName r d

theorem takes_of_add {ix ix' : Indexes F} {r : TimedRecord F}
    (h : ix.add r = some ix') : Takes r := by
  unfold Indexes.add at h
  dsimp only at h
  split_ifs at h with hnone hhash
  · exact Or.inl hnone
  · exact Or.inr hhash

theorem add_of_takes {r : TimedRecord F} (h : Takes r) (ix : Indexes F) :
    ix.add r = some
      { sessionIndex := Dict.push r.record.sessionKey r ix.sessionIndex
        agentIndex := Dict.push r.record.agentKey r ix.agentIndex
        timelineIndex := ix.timelineIndex ++ [r]
        shardIndex := Dict.push r.record.shardId r ix.shardIndex
        actionIndex := addName ix.actionIndex r } := by
  unfold Indexes.add addName
  dsimp only
  split_ifs with hnone hhash
  · rfl
  · rfl
  · exact absurd (h.resolve_left hnone) hhash

theorem foldlM_add : ∀ {rs : List (TimedRecord F)} {ix : Indexes F}, (∀ r ∈ rs, Takes r) →
    rs.foldlM Indexes.add ix = some
      { sessionIndex := rs.foldl (fun d r => Dict.push r.record.sessionKey r d) ix.sessionIndex
        agentIndex := rs.foldl (fun d r => Dict.push r.record.agentKey r d) ix.agentIndex
        timelineIndex := ix.timelineIndex ++ rs
        shardIndex := rs.foldl (fun d r => Dict.push r.record.shardId r d) ix.shardIndex
        actionIndex := rs.foldl addName ix.actionIndex } := by
  intro rs
  induction rs with
  | nil =>
    intro ix _
    rw [List.append_nil]
    rfl
  | cons r rs ih =>
    intro ix h
    rw [List.foldlM_cons, add_of_takes (h r List.mem_cons_self)]
    change rs.foldlM Indexes.add _ = _
    rw [ih fun x hx => h x (List.mem_cons_of_mem _ hx), List.append_assoc]
    rfl

/-- **Where all names are keys, the loop makes the groups of the records.** -/
theorem populate_eq {rs : List (TimedRecord F)} (h : ∀ r ∈ rs, Takes r) :
    populate rs = some
      { sessionIndex := Dict.group (fun r => r.record.sessionKey) rs
        agentIndex := Dict.group (fun r => r.record.agentKey) rs
        timelineIndex := StableSort.sortBy TimedRecord.at rs
        shardIndex := Dict.group (fun r => r.record.shardId) rs
        actionIndex := (rs.foldl addName []).map fun p =>
          (p.1, StableSort.sortBy TimedRecord.at p.2) } := by
  rw [populate, foldlM_add h]
  rfl

/-- A name that is no key ends the loop. -/
theorem takes_of_foldlM {rs : List (TimedRecord F)} {ix ix' : Indexes F}
    (h : rs.foldlM Indexes.add ix = some ix') : ∀ r ∈ rs, Takes r := by
  induction rs generalizing ix with
  | nil =>
    intro r hr
    cases hr
  | cons r rs ih =>
    rw [List.foldlM_cons] at h
    obtain ⟨ix₁, hadd, hrest⟩ := Option.bind_eq_some_iff.mp h
    intro x hx
    rcases List.mem_cons.mp hx with rfl | hx
    · exact takes_of_add hadd
    · exact ih hrest x hx

/-! ### The keys of the index of actions -/

/-- A key that was read finds its own bucket. -/
theorem sameName_self {v : PyVal F} (hread : form v = v) (hnone : v.isNone = false)
    (hhash : ∀ vs kvs, v ≠ .list vs ∧ v ≠ .dict kvs) : sameName v v = true := by
  cases v with
  | none => cases hnone
  | float x => cases x <;> simp [sameName, PyVal.isNan, pyEq, PyVal.num?]
  | list vs => exact absurd rfl (hhash vs []).1
  | dict kvs => exact absurd rfl (hhash [] kvs).2
  | tuple vs => cases hread
  | _ => simp [sameName, PyVal.isNan, pyEq, PyVal.num?]

theorem sameName_str {k : PyStr} {v : PyVal F} : sameName (.str k) v = true ↔ v = .str k := by
  have hnan : (PyVal.str k : PyVal F).isNan = false := rfl
  rw [sameName, hnan, Bool.false_and, Bool.false_or, pyEq_str_left]

/-- A bucket that is found is found after every push. -/
theorem exists_pushName {A : Type} {v name : PyVal F} {a : A} : ∀ {d : List (PyVal F × List A)},
    (∃ p ∈ d, sameName p.1 v = true) → ∃ p ∈ pushName name a d, sameName p.1 v = true
  | [], h => by
    obtain ⟨p, hp, -⟩ := h
    cases hp
  | (k, as) :: d, h => by
    obtain ⟨p, hp, hsame⟩ := h
    rw [pushName]
    split_ifs with hk
    · rcases List.mem_cons.mp hp with rfl | hp
      · exact ⟨_, List.mem_cons_self, hsame⟩
      · exact ⟨p, List.mem_cons_of_mem _ hp, hsame⟩
    · rcases List.mem_cons.mp hp with rfl | hp
      · exact ⟨_, List.mem_cons_self, hsame⟩
      · obtain ⟨q, hq, hq'⟩ := exists_pushName ⟨p, hp, hsame⟩
        exact ⟨q, List.mem_cons_of_mem _ hq, hq'⟩

/-- A push leaves a bucket for its name. -/
theorem exists_pushName_self {A : Type} {name : PyVal F} {a : A} (hself : sameName name name = true) :
    ∀ d : List (PyVal F × List A), ∃ p ∈ pushName name a d, sameName p.1 name = true
  | [] => ⟨_, List.mem_singleton.mpr rfl, hself⟩
  | (k, as) :: d => by
    rw [pushName]
    split_ifs with hk
    · exact ⟨_, List.mem_cons_self, hk⟩
    · obtain ⟨q, hq, hq'⟩ := exists_pushName_self hself d
      exact ⟨q, List.mem_cons_of_mem _ hq, hq'⟩

/-- **Every name has a bucket after the loop.** -/
theorem exists_foldl_addName {rs : List (TimedRecord F)} {r : TimedRecord F} (hr : r ∈ rs)
    (hnone : r.record.actionName.isNone = false)
    (hself : sameName r.record.actionName r.record.actionName = true)
    (d : List (PyVal F × List (TimedRecord F))) :
    ∃ p ∈ rs.foldl addName d, sameName p.1 r.record.actionName = true := by
  have hkeep : ∀ (xs : List (TimedRecord F)) (d : List (PyVal F × List (TimedRecord F))),
      (∃ p ∈ d, sameName p.1 r.record.actionName = true) →
      ∃ p ∈ xs.foldl addName d, sameName p.1 r.record.actionName = true := by
    intro xs
    induction xs with
    | nil => exact fun _ h => h
    | cons x xs ih =>
      intro d h
      apply ih
      unfold addName
      split_ifs
      · exact h
      · exact exists_pushName h
  obtain ⟨pre, post, rfl⟩ := List.append_of_mem hr
  rw [List.foldl_append, List.foldl_cons]
  apply hkeep
  rw [addName, hnone, if_neg Bool.false_ne_true]
  exact exists_pushName_self hself _

/-! ### Names that are strings -/

/-- The name of a record that has a string for one. -/
def TimedRecord.name (r : TimedRecord F) : PyStr :=
  match r.record.actionName with
  | .str name => name
  | _ => []

/-- A record whose name, if it has one, is a string. -/
def StrNamed (r : TimedRecord F) : Prop :=
  r.record.actionName = .none ∨ ∃ name, r.record.actionName = .str name

/-- An index under strings, with the strings as values. -/
def strKeys {A : Type} (d : List (PyStr × A)) : List (PyVal F × A) := d.map fun p => (.str p.1, p.2)

theorem pushName_str {A : Type} (name : PyStr) (a : A) : ∀ d : List (PyStr × List A),
    pushName (.str name : PyVal F) a (strKeys d) = strKeys (Dict.push name a d)
  | [] => rfl
  | (k, as) :: d => by
    have ih := pushName_str name a d
    unfold strKeys at ih ⊢
    rw [List.map_cons, pushName]
    by_cases hk : k = name
    · have hsame : sameName (.str k : PyVal F) (.str name) = true := sameName_str.mpr (hk ▸ rfl)
      rw [if_pos hsame]
      simp [Dict.push, Dict.set, Dict.get, hk]
    · have hsame : ¬sameName (.str k : PyVal F) (.str name) = true :=
        fun h => hk (PyVal.str.inj (sameName_str.mp h)).symm
      rw [if_neg hsame, ih]
      simp [Dict.push, Dict.set, Dict.get, hk]

/-- **Where names are strings the index of actions is the groups by name.** -/
theorem foldl_addName_str {rs : List (TimedRecord F)} (h : ∀ r ∈ rs, StrNamed r) :
    rs.foldl addName []
      = strKeys (Dict.group TimedRecord.name (rs.filter fun r => !r.record.actionName.isNone)) := by
  have hfold : ∀ (xs : List (TimedRecord F)), (∀ r ∈ xs, StrNamed r) →
      ∀ d : List (PyStr × List (TimedRecord F)), xs.foldl addName (strKeys d)
        = strKeys ((xs.filter fun r => !r.record.actionName.isNone).foldl
            (fun d r => Dict.push r.name r d) d) := by
    intro xs
    induction xs with
    | nil =>
      intro _ d
      rfl
    | cons x xs ih =>
      intro hxs d
      have hrest : ∀ r ∈ xs, StrNamed r := fun r hr => hxs r (List.mem_cons_of_mem _ hr)
      rw [List.foldl_cons]
      rcases hxs x List.mem_cons_self with hnone | ⟨name, hname⟩
      · have hadd : addName (strKeys d) x = strKeys d := by
          rw [addName, hnone]
          rfl
        rw [hadd, List.filter_cons_of_neg (by rw [hnone]; exact Bool.false_ne_true), ih hrest]
      · have hadd : addName (strKeys d) x = strKeys (Dict.push x.name x d) := by
          rw [addName, TimedRecord.name, hname]
          exact pushName_str name x d
        rw [hadd, List.filter_cons_of_pos (by rw [hname]; rfl), ih hrest]
        rfl
  exact hfold rs h []

/-! ### What the log has -/

variable {clock : Datetime → F} {batchSize : ℕ} {s : Store F}

theorem mem_logRecords {r : TimedRecord F} :
    r ∈ logRecords clock s ↔ ∃ shard ∈ s.listShards, ∃ e i,
      (s.entries shard).reverse[i]? = some e ∧ r = timedRecord clock e shard i := by
  unfold logRecords
  simp only [List.mem_flatMap, List.mem_map, Prod.exists, List.mem_zipIdx_iff_getElem?]
  constructor
  · rintro ⟨shard, hshard, e, i, hget, rfl⟩
    exact ⟨shard, hshard, e, i, hget, rfl⟩
  · rintro ⟨shard, hshard, e, i, hget, rfl⟩
    exact ⟨shard, hshard, e, i, hget, rfl⟩

/-- **The scan reads the log.** -/
theorem scanTimed_eq (hbatch : 0 < batchSize) : scanTimed clock batchSize s = logRecords clock s := by
  unfold scanTimed logRecords
  simp only [scanShard_eq hbatch]

/-- A record has its place, and no other has it. -/
theorem nodup_logRecords (clock : Datetime → F) (s : Store F) : (logRecords clock s).Nodup := by
  apply List.Nodup.of_map fun r => (r.record.shardId, r.record.offset)
  unfold logRecords
  rw [List.map_flatMap, List.nodup_flatMap]
  have hplaces : ∀ shard, (((s.entries shard).reverse.zipIdx.map fun p =>
      timedRecord clock p.1 shard p.2).map fun r => (r.record.shardId, r.record.offset))
      = (List.range' 0 (s.entries shard).length).map fun i => (shard, i) := by
    intro shard
    rw [← List.length_reverse, ← List.zipIdx_map_snd 0 (s.entries shard).reverse, List.map_map,
      List.map_map]
    rfl
  refine ⟨?_, ?_⟩
  · intro shard _
    rw [hplaces]
    exact (List.nodup_range' ).map fun i j h => (Prod.mk.inj h).2
  · have hdistinct : s.listShards.Pairwise fun k l => k ≠ l := s.nodup
    refine hdistinct.imp ?_
    intro k l hne
    rw [Function.onFun, hplaces, hplaces]
    intro p hp hq
    obtain ⟨i, -, rfl⟩ := List.mem_map.mp hp
    obtain ⟨j, -, hj⟩ := List.mem_map.mp hq
    exact hne (Prod.mk.inj hj).1.symm

/-- The name of a record is what names an action, or the default, or none. -/
theorem actionName_timedRecord (clock : Datetime → F) (e : StoredEntry F) (shard : PyStr) (i : ℕ) :
    ((e.meta (py "action_name")).truthy = true ∧
        (timedRecord clock e shard i).record.actionName = e.meta (py "action_name")) ∨
      (e.meta (py "action_name")).truthy = false ∧ StrNamed (timedRecord clock e shard i) := by
  unfold StrNamed timedRecord entryToIndexRecord
  dsimp only
  cases (e.meta (py "action_name")).truthy with
  | true => exact Or.inl ⟨rfl, rfl⟩
  | false =>
    right
    refine ⟨rfl, ?_⟩
    rw [if_neg Bool.false_ne_true]
    split_ifs
    · exact Or.inr ⟨_, rfl⟩
    · exact Or.inl rfl

/-- Strings name all actions iff they name all records. -/
theorem strNamed_logRecords (h : NamedByStrings s) : ∀ r ∈ logRecords clock s, StrNamed r := by
  intro r hr
  obtain ⟨shard, -, e, i, hget, rfl⟩ := mem_logRecords.mp hr
  have he := List.mem_reverse.mp (List.mem_of_getElem? hget)
  rcases actionName_timedRecord clock e shard i with ⟨htruthy, hname⟩ | ⟨-, hnamed⟩
  · obtain ⟨name, hstr⟩ := h shard e he htruthy
    exact Or.inr ⟨name, hname.trans hstr⟩
  · exact hnamed

omit [PyFloat F] in
theorem takes_of_strNamed {r : TimedRecord F} (h : StrNamed r) : Takes r := by
  rcases h with h | ⟨name, h⟩
  · exact Or.inl (by rw [h]; rfl)
  · exact Or.inr (by rw [IndexRecord.hashable, h])

/-- The indexes of the log. -/
def logIndexes (clock : Datetime → F) (s : Store F) : Indexes F where
  sessionIndex := Dict.group (fun r => r.record.sessionKey) (logRecords clock s)
  agentIndex := Dict.group (fun r => r.record.agentKey) (logRecords clock s)
  timelineIndex := StableSort.sortBy TimedRecord.at (logRecords clock s)
  shardIndex := Dict.group (fun r => r.record.shardId) (logRecords clock s)
  actionIndex := (strKeys (Dict.group TimedRecord.name
    ((logRecords clock s).filter fun r => !r.record.actionName.isNone))).map fun p =>
      (p.1, StableSort.sortBy TimedRecord.at p.2)

theorem populate_log (hbatch : 0 < batchSize) (h : NamedByStrings s) :
    populate (scanTimed clock batchSize s) = some (logIndexes clock s) := by
  have hnamed : ∀ r ∈ logRecords clock s, StrNamed r := strNamed_logRecords h
  rw [scanTimed_eq hbatch, populate_eq fun r hr => takes_of_strNamed (hnamed r hr),
    foldl_addName_str hnamed]
  rfl

/-- A bucket of the index of actions is the records of its name, sorted. -/
theorem mem_actionIndex {p : PyVal F × List (TimedRecord F)}
    (hp : p ∈ (logIndexes clock s).actionIndex) :
    ∃ k, p.1 = .str k ∧ p.2 = StableSort.sortBy TimedRecord.at
      (((logRecords clock s).filter fun r => !r.record.actionName.isNone).filter
        fun r => r.name = k) := by
  obtain ⟨q, hq, rfl⟩ := List.mem_map.mp hp
  obtain ⟨g, hg, rfl⟩ := List.mem_map.mp hq
  rw [Dict.group_eq] at hg
  obtain ⟨k, -, rfl⟩ := List.mem_map.mp hg
  exact ⟨k, rfl, rfl⟩

/-- A record has the name of a key iff its action is the key. -/
theorem sameName_iff {k : PyStr} {r : TimedRecord F} (h : StrNamed r) :
    sameName (.str k) r.record.actionName = true ↔
      (!r.record.actionName.isNone) = true ∧ r.name = k := by
  rw [sameName_str]
  rcases h with h | ⟨name, h⟩
  · rw [h]
    exact ⟨nofun, fun h' => absurd h'.1 Bool.false_ne_true⟩
  · rw [TimedRecord.name, h]
    exact ⟨fun h' => ⟨rfl, PyVal.str.inj h'⟩, fun h' => congrArg PyVal.str h'.2⟩

/-- **Where strings name the actions the indexes are a copy of the log.** -/
theorem faithful_logIndexes (h : NamedByStrings s) : Faithful clock s (logIndexes clock s) := by
  have hnamed : ∀ r ∈ logRecords clock s, StrNamed r := strNamed_logRecords h
  refine ⟨nodup_logRecords clock s, StableSort.sortBy_perm _, fun k => Dict.get_group _ _ k,
    fun k => Dict.get_group _ _ k, fun k => Dict.get_group _ _ k, ?_, ?_, ?_,
    StableSort.pairwise_sortBy _, ?_⟩
  · intro p hp
    obtain ⟨k, hk, hbucket⟩ := mem_actionIndex hp
    rw [hk, hbucket]
    refine (StableSort.sortBy_perm _).trans (List.Perm.of_eq ?_)
    rw [List.filter_filter]
    apply List.filter_congr
    intro r hr
    rw [Bool.eq_iff_iff, sameName_iff (hnamed r hr), Bool.and_eq_true, decide_eq_true_iff, and_comm]
  · intro r hr
    rcases hnamed r hr with hnone | ⟨name, hname⟩
    · -- no key is none
      refine iff_of_false (fun hne => hne hnone) ?_
      rintro ⟨p, hp, hsame⟩
      obtain ⟨k, hk, -⟩ := mem_actionIndex hp
      rw [hk, hnone] at hsame
      exact absurd (sameName_str.mp hsame) nofun
    · refine iff_of_true (by rw [hname]; nofun) ?_
      have hkey : name ∈ Dict.keys (Dict.group TimedRecord.name
          ((logRecords clock s).filter fun r => !r.record.actionName.isNone)) := by
        refine Dict.mem_keys_group.mpr ⟨r, List.mem_filter.mpr ⟨hr, by rw [hname]; rfl⟩, ?_⟩
        rw [TimedRecord.name, hname]
      obtain ⟨g, hg, rfl⟩ := List.mem_map.mp hkey
      exact ⟨_, List.mem_map.mpr ⟨_, List.mem_map.mpr ⟨g, hg, rfl⟩, rfl⟩,
        sameName_str.mpr hname⟩
  · have hkeys := Dict.nodup_keys_group TimedRecord.name
      ((logRecords clock s).filter fun r => !r.record.actionName.isNone)
    rw [logIndexes, strKeys, List.map_map, List.pairwise_map]
    refine (List.pairwise_map.mp hkeys).imp ?_
    intro g g' hne
    rw [← Bool.not_eq_true]
    exact fun hsame => hne (PyVal.str.inj (sameName_str.mp hsame)).symm
  · intro p hp
    obtain ⟨k, -, hbucket⟩ := mem_actionIndex hp
    rw [hbucket]
    exact StableSort.pairwise_sortBy _

/-! ### What is written and read back -/

/-- The text of a file is read back to its index, up to `form`. -/
theorem loadIndex_fileText {data : PyVal F} {text : PyStr} (h : fileText data = .ok text) :
    loadIndex text = some (form data) := by
  have hprint : print fileStyle (indexPayload data) = some text := by
    unfold fileText at h
    split at h
    next t ht =>
      split at h
      · rw [ht, Except.ok.inj h]
      · cases h
    · cases h
  have hkeys : [py "index_version", py "entries"].Nodup := by decide
  have hloads : loads text = some (.dict (strItems
      [(py "index_version", .int 1), (py "entries", form data)])) := by
    rw [loads_print hprint nofun, indexPayload, form_strItems]
    · rfl
    · exact hkeys
  rw [loadIndex, hloads]
  rfl

/-- Strings that encode have a file. -/
theorem exists_fileText {data : PyVal F} (h : eachStr Encodable data) :
    ∃ text, fileText data = .ok text := by
  obtain ⟨text, htext⟩ := exists_print (show fileStyle.allowNan = true from rfl) (indexPayload data)
  have hencodes : Encodable text := by
    rw [encodable_print rfl htext]
    exact ⟨show Encodable (py "index_version") by decide, trivial,
      show Encodable (py "entries") by decide, h, trivial⟩
  exact ⟨text, by rw [fileText, htext]; exact if_pos hencodes⟩

/-- **Files that can be written are all in the directory afterwards.** -/
theorem exists_write {specs : List (PyStr × PyVal F)} (hnodup : (specs.map Prod.fst).Nodup)
    (h : ∀ spec ∈ specs, ∃ text, fileText spec.2 = .ok text) (dir : List (PyStr × PyStr)) :
    ∃ dir', specs.foldlM (fun dir spec => (fileText spec.2).map fun text =>
        Dict.set spec.1 text dir) dir = .ok dir' ∧
      (∀ spec ∈ specs, ∃ text, fileText spec.2 = .ok text ∧ Dict.get spec.1 dir' = some text) ∧
      ∀ name ∉ specs.map Prod.fst, Dict.get name dir' = Dict.get name dir := by
  induction specs generalizing dir with
  | nil =>
    refine ⟨dir, rfl, ?_, fun _ _ => rfl⟩
    intro spec hspec
    cases hspec
  | cons spec specs ih =>
    rw [List.map_cons, List.nodup_cons] at hnodup
    obtain ⟨text, htext⟩ := h spec List.mem_cons_self
    obtain ⟨dir', hfold, hget, hkeep⟩ := ih hnodup.2
      (fun x hx => h x (List.mem_cons_of_mem _ hx)) (Dict.set spec.1 text dir)
    refine ⟨dir', ?_, ?_, ?_⟩
    · rw [List.foldlM_cons, htext]
      exact hfold
    · intro x hx
      rcases List.mem_cons.mp hx with rfl | hx
      · exact ⟨text, htext, by rw [hkeep _ hnodup.1, Dict.get_set_self]⟩
      · exact hget x hx
    · intro name hname
      rw [List.map_cons, List.mem_cons, not_or] at hname
      rw [hkeep _ hname.2, Dict.get_set_ne fun h => hname.1 h.symm]

theorem nodup_fileSpecs (ix : Indexes F) : ((fileSpecs ix).map Prod.fst).Nodup := by
  have hnames : [py "sessions.idx", py "agents.idx", py "timeline.idx", py "shards.idx",
    py "actions.idx"].Nodup := by decide
  exact hnames

/-- **What was written is loaded, each index up to `form`.** -/
theorem load_of_write {ix : Indexes F} {dir dir' : List (PyStr × PyStr)}
    (h : ∀ spec ∈ fileSpecs ix, ∃ text, fileText spec.2 = .ok text)
    (hwrite : writeIndexFiles ix dir = .ok dir') :
    load dir' = some ⟨form (bucketsPy ix.sessionIndex), form (bucketsPy ix.agentIndex),
      form (bucketPy ix.timelineIndex), form (bucketsPy ix.shardIndex),
      form (actionsPy ix.actionIndex)⟩ := by
  obtain ⟨dir'', hfold, hget, -⟩ := exists_write (nodup_fileSpecs ix) h dir
  obtain rfl : dir'' = dir' := Except.ok.inj (hfold.symm.trans hwrite)
  have hfile : ∀ spec ∈ fileSpecs ix, loadFile dir'' spec.1 = some (form spec.2) := by
    intro spec hspec
    obtain ⟨text, htext, hdir⟩ := hget spec hspec
    rw [loadFile, hdir, Option.bind_some, loadIndex_fileText htext]
  unfold fileSpecs at hfile
  simp only [List.mem_cons, List.not_mem_nil, or_false, forall_eq_or_imp, forall_eq] at hfile
  obtain ⟨hsessions, hagents, htimeline, hshards, hactions⟩ := hfile
  rw [load, hsessions, hagents, htimeline, hshards, hactions]
  rfl

/-! ### Records that were read -/

/-- A record of an entry that was accepted: its strings encode, and what it has of the metadata
came out of a text. -/
structure Good (r : TimedRecord F) : Prop where
  sessionId : Encodable r.record.sessionId
  agent : Encodable r.record.agent
  shardId : Encodable r.record.shardId
  entryId : Encodable r.record.entryId
  eventType : form r.record.eventType = r.record.eventType ∧ eachStr Encodable r.record.eventType
  actionName : form r.record.actionName = r.record.actionName ∧
    eachStr Encodable r.record.actionName

/-- What is looked up in metadata that were accepted was read and encodes. -/
theorem good_metadata {e : StoredEntry F} (hread : form e.metadata = e.metadata)
    (hencodes : eachStr Encodable e.metadata) {k : PyStr} {v : PyVal F}
    (h : dictGet k e.metadataItems = some v) : form v = v ∧ eachStr Encodable v := by
  have hmem := mem_of_dictGet h
  unfold StoredEntry.metadataItems at hmem
  cases hmeta : e.metadata with
  | dict kvs =>
    rw [hmeta] at hmem hread hencodes
    refine ⟨form_of_mem hread hmem, ?_⟩
    exact (eachStrItems_iff.mp hencodes _ hmem).2
  | _ =>
    rw [hmeta] at hmem
    cases hmem

theorem good_logRecords (hs : Accepted s) : ∀ r ∈ logRecords clock s, Good r := by
  intro r hr
  obtain ⟨shard, hshard, e, i, hget, rfl⟩ := mem_logRecords.mp hr
  have he := List.mem_reverse.mp (List.mem_of_getElem? hget)
  have hmeta : ∀ {k : PyStr} {d : PyVal F}, form d = d → eachStr Encodable d →
      form ((dictGet k e.metadataItems).getD d) = (dictGet k e.metadataItems).getD d ∧
        eachStr Encodable ((dictGet k e.metadataItems).getD d) := by
    intro k d hd hd'
    cases hk : dictGet k e.metadataItems with
    | none => exact ⟨hd, hd'⟩
    | some v => exact good_metadata (hs.read shard e he) (hs.encodes shard e he) hk
  refine ⟨hs.sessionId shard e he, hs.source shard e he, hs.shards shard hshard,
    hs.id shard e he, hmeta rfl encodable_nil, ?_⟩
  have haction := @hmeta (py "action_name") .none rfl trivial
  unfold timedRecord entryToIndexRecord
  dsimp only
  split_ifs
  · exact haction
  · exact ⟨rfl, show Encodable (py "unknown") by decide⟩
  · exact ⟨rfl, trivial⟩

theorem form_toPy {r : TimedRecord F} (h : Good r) : form r.toPy = r.toPy := by
  have hkeys : [py "session_id", py "timestamp", py "agent", py "event_type", py "shard_id",
    py "entry_id", py "offset", py "action_name", py "success"].Nodup := by decide
  rw [TimedRecord.toPy, form_strItems]
  · simp only [List.map_cons, List.map_nil, h.eventType.1, h.actionName.1, form]
  · exact hkeys

theorem encodable_toPy {r : TimedRecord F} (h : Good r) : eachStr Encodable r.toPy :=
  ⟨show Encodable (py "session_id") by decide, h.sessionId,
    show Encodable (py "timestamp") by decide, trivial,
    show Encodable (py "agent") by decide, h.agent,
    show Encodable (py "event_type") by decide, h.eventType.2,
    show Encodable (py "shard_id") by decide, h.shardId,
    show Encodable (py "entry_id") by decide, h.entryId,
    show Encodable (py "offset") by decide, trivial,
    show Encodable (py "action_name") by decide, h.actionName.2,
    show Encodable (py "success") by decide, trivial, trivial⟩

theorem form_bucketPy {rs : List (TimedRecord F)} (h : ∀ r ∈ rs, Good r) :
    form (bucketPy rs) = bucketPy rs := by
  have hlist : formList (rs.map TimedRecord.toPy) = rs.map TimedRecord.toPy := by
    induction rs with
    | nil => rfl
    | cons r rs ih =>
      rw [List.map_cons, formList, form_toPy (h r List.mem_cons_self),
        ih fun x hx => h x (List.mem_cons_of_mem _ hx)]
  rw [bucketPy, form, hlist]

theorem encodable_bucketPy {rs : List (TimedRecord F)} (h : ∀ r ∈ rs, Good r) :
    eachStr Encodable (bucketPy rs) := by
  rw [bucketPy, eachStr, eachStrList_iff]
  intro v hv
  obtain ⟨r, hr, rfl⟩ := List.mem_map.mp hv
  exact encodable_toPy (h r hr)

/-- Buckets under distinct strings are read back as they are. -/
theorem form_bucketsPy {d : List (PyStr × List (TimedRecord F))} (hkeys : (Dict.keys d).Nodup)
    (h : ∀ p ∈ d, ∀ r ∈ p.2, Good r) : form (bucketsPy d) = bucketsPy d := by
  have hfst : ((d.map fun p => (p.1, bucketPy p.2)).map Prod.fst).Nodup := by
    rw [List.map_map]
    exact hkeys
  rw [bucketsPy, form_strItems hfst, List.map_map]
  congr 2
  apply List.map_congr_left
  intro p hp
  rw [Function.comp_apply, form_bucketPy (h p hp)]

theorem encodable_bucketsPy {d : List (PyStr × List (TimedRecord F))}
    (hkeys : ∀ p ∈ d, Encodable p.1) (h : ∀ p ∈ d, ∀ r ∈ p.2, Good r) :
    eachStr Encodable (bucketsPy d) := by
  rw [bucketsPy, eachStr, eachStrItems_iff]
  intro kv hkv
  obtain ⟨q, hq, rfl⟩ := List.mem_map.mp hkv
  obtain ⟨p, hp, rfl⟩ := List.mem_map.mp hq
  exact ⟨hkeys p hp, encodable_bucketPy (h p hp)⟩

/-- Every file of a directory that was written has its text. -/
theorem files_of_write {specs : List (PyStr × PyVal F)} {dir dir' : List (PyStr × PyStr)}
    (h : specs.foldlM (fun dir spec => (fileText spec.2).map fun text =>
      Dict.set spec.1 text dir) dir = .ok dir') :
    ∀ spec ∈ specs, ∃ text, fileText spec.2 = .ok text := by
  induction specs generalizing dir with
  | nil =>
    intro spec hspec
    cases hspec
  | cons spec specs ih =>
    rw [List.foldlM_cons] at h
    cases htext : fileText spec.2 with
    | error err =>
      rw [htext] at h
      cases h
    | ok text =>
      rw [htext] at h
      intro x hx
      rcases List.mem_cons.mp hx with rfl | hx
      · exact ⟨text, htext⟩
      · exact ih h x hx

/-! ### The copy -/

theorem good_of_mem_group (hs : Accepted s) {key : TimedRecord F → PyStr}
    {p : PyStr × List (TimedRecord F)} (hp : p ∈ Dict.group key (logRecords clock s)) :
    ∀ r ∈ p.2, Good r := by
  rw [Dict.group_eq] at hp
  obtain ⟨k, -, rfl⟩ := List.mem_map.mp hp
  exact fun r hr => good_logRecords hs r (List.mem_filter.mp hr).1

/-- The groups of the log under keys that encode have a file, and are read back as they are. -/
theorem buckets_of_group (hs : Accepted s) (key : TimedRecord F → PyStr)
    (hkey : ∀ r ∈ logRecords clock s, Encodable (key r)) :
    (∃ text, fileText (bucketsPy (Dict.group key (logRecords clock s))) = .ok text) ∧
      form (bucketsPy (Dict.group key (logRecords clock s)))
        = bucketsPy (Dict.group key (logRecords clock s)) := by
  have hgood : ∀ p ∈ Dict.group key (logRecords clock s), ∀ r ∈ p.2, Good r :=
    fun p hp => good_of_mem_group hs hp
  refine ⟨exists_fileText (encodable_bucketsPy ?_ hgood),
    form_bucketsPy (Dict.nodup_keys_group _ _) hgood⟩
  intro p hp
  obtain ⟨r, hr, hk⟩ := Dict.mem_keys_group.mp (List.mem_map_of_mem (f := Prod.fst) hp)
  exact hk ▸ hkey r hr

/-- **What names the actions are strings, and so are the keys that were written.** -/
theorem actionsPy_logIndexes : actionsPy (logIndexes clock s).actionIndex
    = bucketsPy ((Dict.group TimedRecord.name
        ((logRecords clock s).filter fun r => !r.record.actionName.isNone)).map fun p =>
          (p.1, StableSort.sortBy TimedRecord.at p.2)) := by
  unfold actionsPy bucketsPy logIndexes strKeys
  rw [List.map_map, List.map_map, List.map_map]
  rfl

variable (clock) in
/-- The index of actions has a file, and is read back as it is. -/
theorem actions_of_log (hs : Accepted s) (hnamed : NamedByStrings s) :
    (∃ text, fileText (actionsPy (logIndexes clock s).actionIndex) = .ok text) ∧
      form (actionsPy (logIndexes clock s).actionIndex)
        = actionsPy (logIndexes clock s).actionIndex := by
  have hgood : ∀ p ∈ (Dict.group TimedRecord.name
      ((logRecords clock s).filter fun r => !r.record.actionName.isNone)).map (fun p =>
        (p.1, StableSort.sortBy TimedRecord.at p.2)), ∀ r ∈ p.2, Good r := by
    intro p hp r hr
    obtain ⟨q, hq, rfl⟩ := List.mem_map.mp hp
    rw [Dict.group_eq] at hq
    obtain ⟨k, -, rfl⟩ := List.mem_map.mp hq
    have hr' := (StableSort.sortBy_perm _).mem_iff.mp hr
    exact good_logRecords hs r (List.mem_filter.mp (List.mem_filter.mp hr').1).1
  have hkeys : (Dict.keys ((Dict.group TimedRecord.name
      ((logRecords clock s).filter fun r => !r.record.actionName.isNone)).map fun p =>
        (p.1, StableSort.sortBy TimedRecord.at p.2))).Nodup := by
    rw [Dict.keys, List.map_map]
    exact Dict.nodup_keys_group TimedRecord.name _
  rw [actionsPy_logIndexes]
  refine ⟨exists_fileText (encodable_bucketsPy ?_ hgood), form_bucketsPy hkeys hgood⟩
  intro p hp
  obtain ⟨q, hq, rfl⟩ := List.mem_map.mp hp
  obtain ⟨r, hr, hk⟩ := Dict.mem_keys_group.mp (List.mem_map_of_mem (f := Prod.fst) hq)
  have hlog := (List.mem_filter.mp hr).1
  rcases strNamed_logRecords hnamed r hlog with hnone | ⟨name, hname⟩
  · have hkept := (List.mem_filter.mp hr).2
    rw [hnone] at hkept
    cases hkept
  · have hgood' := (good_logRecords hs r hlog).actionName.2
    rw [hname] at hgood'
    rw [TimedRecord.name, hname] at hk
    exact hk ▸ hgood'

omit [PyFloat F] in
theorem encodable_sessionKey {r : IndexRecord F} (h : Encodable r.sessionId) :
    Encodable r.sessionKey := by
  unfold IndexRecord.sessionKey
  split_ifs
  · decide
  · exact h

omit [PyFloat F] in
theorem encodable_agentKey {r : IndexRecord F} (h : Encodable r.agent) : Encodable r.agentKey := by
  unfold IndexRecord.agentKey
  split_ifs
  · decide
  · exact h

/-- **Where strings name the actions the copy is made and loaded.** -/
theorem copies_of_named (hs : Accepted s) (hbatch : 0 < batchSize) (hnamed : NamedByStrings s) :
    Copies clock batchSize s := by
  intro dir
  have hgood : ∀ r ∈ logRecords clock s, Good r := good_logRecords hs
  obtain ⟨hsessions, hsessions'⟩ := buckets_of_group hs (fun r => r.record.sessionKey)
    fun r hr => encodable_sessionKey (hgood r hr).sessionId
  obtain ⟨hagents, hagents'⟩ := buckets_of_group hs (fun r => r.record.agentKey)
    fun r hr => encodable_agentKey (hgood r hr).agent
  obtain ⟨hshards, hshards'⟩ := buckets_of_group hs (fun r => r.record.shardId)
    fun r hr => (hgood r hr).shardId
  obtain ⟨hactions, hactions'⟩ := actions_of_log clock hs hnamed
  have htimeline : ∀ r ∈ (logIndexes clock s).timelineIndex, Good r :=
    fun r hr => hgood r ((StableSort.sortBy_perm _).mem_iff.mp hr)
  have hfiles : ∀ spec ∈ fileSpecs (logIndexes clock s), ∃ text, fileText spec.2 = .ok text := by
    intro spec hspec
    simp only [fileSpecs, List.mem_cons, List.not_mem_nil, or_false] at hspec
    rcases hspec with rfl | rfl | rfl | rfl | rfl
    · exact hsessions
    · exact hagents
    · exact exists_fileText (encodable_bucketPy htimeline)
    · exact hshards
    · exact hactions
  obtain ⟨dir', hwrite, -, -⟩ := exists_write (nodup_fileSpecs _) hfiles dir
  refine ⟨logIndexes clock s, dir', ?_, faithful_logIndexes hnamed, _, load_of_write hfiles hwrite,
    ⟨hsessions', hagents', form_bucketPy htimeline, hshards', ?_⟩⟩
  · have hwrite' : writeIndexFiles (logIndexes clock s) dir = .ok dir' := hwrite
    rw [build, populate_log hbatch hnamed]
    dsimp only
    rw [hwrite']
    rfl
  · refine ⟨_, hactions'.trans actionsPy_logIndexes, ?_⟩
    unfold logIndexes strKeys strItems
    rw [List.map_map, List.map_map, List.map_map, List.map_map, List.map_map]
    rfl

/-- **Keys that were loaded are strings, so those that were written from equal indexes are.** -/
theorem named_of_copies (hs : Accepted s) (hbatch : 0 < batchSize)
    (h : Copies clock batchSize s) : NamedByStrings s := by
  intro shard e he htruthy
  obtain ⟨ix, dir', hbuild, -, l, hload, hloaded⟩ := h []
  unfold build at hbuild
  split at hbuild
  · cases hbuild
  next ix' hpop =>
  cases hwrite : writeIndexFiles ix' [] with
  | error err =>
    rw [hwrite] at hbuild
    cases hbuild
  | ok dir'' =>
    rw [hwrite] at hbuild
    obtain ⟨rfl, rfl⟩ := Prod.mk.inj (Except.ok.inj hbuild)
    rw [load_of_write (files_of_write hwrite) hwrite] at hload
    obtain rfl := Option.some.inj hload
    rw [scanTimed_eq hbatch] at hpop
    obtain ⟨ix₁, hfold, -⟩ := Option.map_eq_some_iff.mp hpop
    have htakes := takes_of_foldlM hfold
    rw [populate_eq htakes] at hpop
    obtain rfl := Option.some.inj hpop
    -- the record of the entry, and the bucket of its name
    obtain ⟨i, hget⟩ := List.getElem?_of_mem (List.mem_reverse.mpr he)
    have hr : timedRecord clock e shard i ∈ logRecords clock s :=
      mem_logRecords.mpr ⟨shard, Store.mem_listShards he, e, i, hget, rfl⟩
    have hname : (timedRecord clock e shard i).record.actionName = e.meta (py "action_name") := by
      rcases actionName_timedRecord clock e shard i with ⟨-, hname⟩ | ⟨hfalse, -⟩
      · exact hname
      · rw [htruthy] at hfalse
        cases hfalse
    have hnone : (timedRecord clock e shard i).record.actionName.isNone = false := by
      rw [hname, ← Bool.not_eq_true, isNone_iff]
      intro hnone
      rw [hnone] at htruthy
      cases htruthy
    have hhash := (htakes _ hr).resolve_left (by rw [hnone]; exact Bool.false_ne_true)
    have hself : sameName (timedRecord clock e shard i).record.actionName
        (timedRecord clock e shard i).record.actionName = true := by
      refine sameName_self (good_logRecords hs _ hr).actionName.1 hnone fun vs kvs => ⟨?_, ?_⟩
      · intro hlist
        rw [IndexRecord.hashable, hlist] at hhash
        cases hhash
      · intro hdict
        rw [IndexRecord.hashable, hdict] at hhash
        cases hhash
    obtain ⟨p, hp, hsame⟩ := exists_foldl_addName hr hnone hself []
    obtain ⟨kvs, hkvs, hkeys⟩ := hloaded.actions
    have hbucket : (p.1, bucketPy (StableSort.sortBy TimedRecord.at p.2))
        ∈ kvs.map fun kv => (keyPy kv.1, kv.2) := by
      rw [hkeys, List.map_map]
      exact List.mem_map.mpr ⟨p, hp, rfl⟩
    obtain ⟨kv, hkv, hkey⟩ := List.mem_map.mp hbucket
    -- a dict that was read has strings for keys
    have hnative : native (.dict kvs : PyVal F) := by
      rw [← hkvs]
      exact native_form _
    rw [native, nativeItems_iff] at hnative
    have hstr := (hnative kv hkv).1
    cases hk : kv.1 with
    | str k =>
      refine ⟨k, ?_⟩
      have hpk : p.1 = .str k := by
        rw [← (Prod.mk.inj hkey).1, hk]
        rfl
      rw [hpk] at hsame
      rw [← hname]
      exact sameName_str.mp hsame
    | _ =>
      rw [hk] at hstr
      cases hstr

/-- **For every content that was accepted and every size of a page, the builder makes a
faithful copy that another loads iff what names an action is a string.** -/
theorem copies_iff (clock : Datetime → F) (batchSize : ℕ) (hbatch : 0 < batchSize) (s : Store F)
    (hs : Accepted s) : Copies clock batchSize s ↔ NamedByStrings s :=
  ⟨named_of_copies hs hbatch, copies_of_named hs hbatch⟩

omit [PyFloat F] in
/-- What all entries have, those after one more append have. -/
theorem forall_append {P : StoredEntry F → Prop} {e : StoredEntry F}
    (hold : ∀ shard, ∀ x ∈ s.entries shard, P x) (hnew : P e) :
    ∀ shard, ∀ x ∈ (s.append e).entries shard, P x := by
  intro shard x hx
  rw [Store.entries_append] at hx
  rcases List.mem_append.mp hx with hx | hx
  · exact hold shard x hx
  · split_ifs at hx
    · exact List.mem_singleton.mp hx ▸ hnew
    · cases hx

/-- **An entry appended with metadata that could be written, and read back, was accepted.** -/
theorem accepted_append {e : StoredEntry F} {v w : PyVal F} (hs : Accepted s)
    (hshard : Encodable e.shard) (hsession : Encodable e.sessionId) (hsource : Encodable e.source)
    (hid : Encodable e.id) (hsort : sortDicts v = some w) (hencodes : eachStr Encodable v)
    (hmeta : e.metadata = readBack v) : Accepted (s.append e) := by
  refine ⟨?_, forall_append hs.sessionId hsession, forall_append hs.source hsource,
    forall_append hs.id hid, forall_append hs.read ?_, forall_append hs.encodes ?_⟩
  · intro shard hlisted
    rcases Dict.mem_keys_push.mp hlisted with rfl | hlisted
    · exact hshard
    · exact hs.shards shard hlisted
  · rw [hmeta, readBack_of_sortDicts hsort, form_form]
  · rw [hmeta]
    exact eachStr_readBack hsort hencodes

/-! ### An action named by a number -/

/-- A store of one entry whose action is `name`. -/
def namedStore (name : PyVal FloatLit) : Store FloatLit :=
  Store.empty.append
    { id := py "e1"
      timestamp := ⟨⟨2026, 1, 2, 3, 4, 5, 6000, some 0⟩, sampleMilli_valid⟩
      sessionId := py "s"
      source := py "ada"
      content := py "x"
      shard := py "sessions"
      hash := py "v1:1"
      metadata := .dict [(.str (py "action_name"), name)] }

/-- Time in seconds of the minute, as a float. -/
def floatClock (d : Datetime) : FloatLit := ⟨false, d.val.second, .frac 0 [] none⟩

theorem entries_namedStore {name : PyVal FloatLit} {shard : PyStr} {e : StoredEntry FloatLit}
    (h : e ∈ (namedStore name).entries shard) : e.id = py "e1" ∧ e.sessionId = py "s" ∧
      e.source = py "ada" ∧ e.metadata = .dict [(.str (py "action_name"), name)] := by
  rw [namedStore, Store.entries_append] at h
  rcases List.mem_append.mp h with h | h
  · exact absurd h List.not_mem_nil
  · split_ifs at h
    · obtain rfl := List.mem_singleton.mp h
      exact ⟨rfl, rfl, rfl, rfl⟩
    · cases h

/-- A name that is a string or a number was accepted. -/
theorem accepted_namedStore {name : PyVal FloatLit} (hread : form name = name)
    (hencodes : eachStr Encodable name) : Accepted (namedStore name) := by
  refine ⟨?_, ?_, ?_, ?_, ?_, ?_⟩
  · intro shard hshard
    obtain rfl := List.mem_singleton.mp (show shard ∈ [py "sessions"] from hshard)
    decide
  · intro shard e he
    rw [(entries_namedStore he).2.1]
    decide
  · intro shard e he
    rw [(entries_namedStore he).2.2.1]
    decide
  · intro shard e he
    rw [(entries_namedStore he).1]
    decide
  · intro shard e he
    rw [(entries_namedStore he).2.2.2]
    change PyVal.dict [(Key.str (py "action_name"), form name)] = _
    rw [hread]
  · intro shard e he
    rw [(entries_namedStore he).2.2.2]
    exact ⟨show Encodable (py "action_name") by decide, hencodes, trivial⟩

/-- A number for a name becomes a string on the way through the file. -/
theorem number_not_copied : Accepted (namedStore (.int 5)) ∧
    ¬Copies floatClock 5000 (namedStore (.int 5)) := by
  have hs : Accepted (namedStore (.int 5)) := accepted_namedStore rfl trivial
  refine ⟨hs, ?_⟩
  intro h
  have hentry : ∃ e ∈ (namedStore (.int 5)).entries (py "sessions"),
      e.meta (py "action_name") = .int 5 := ⟨_, List.mem_singleton.mpr rfl, rfl⟩
  obtain ⟨e, he, hname⟩ := hentry
  obtain ⟨name, hstr⟩ := named_of_copies hs (by decide) h (py "sessions") e he (by rw [hname]; rfl)
  rw [hname] at hstr
  cases hstr

/-- An entry with metadata `v`. -/
def entryWith (id shard : PyStr) (v : PyVal FloatLit) : StoredEntry FloatLit where
  id := id
  timestamp := ⟨⟨2026, 1, 2, 3, 4, 7, 6000, some 0⟩, by decide⟩
  sessionId := []
  source := py "eve"
  content := []
  shard := shard
  hash := py "v1:2"
  metadata := v

/-- Metadata that names the action. -/
def runMeta : PyVal FloatLit := .dict [(.str (py "action_name"), .str (py "run"))]

/-- Two entries of one shard with the same action, and one of another shard without. -/
def mixedStore : Store FloatLit :=
  ((namedStore (.str (py "run"))).append (entryWith (py "e2") (py "notes") (.dict []))).append
    (entryWith (py "e3") (py "sessions") runMeta)

theorem accepted_mixedStore : Accepted mixedStore := by
  have hfirst : Accepted (namedStore (.str (py "run"))) :=
    accepted_namedStore rfl (show Encodable (py "run") by decide)
  have hnotes : Accepted ((namedStore (.str (py "run"))).append
      (entryWith (py "e2") (py "notes") (.dict []))) :=
    accepted_append hfirst (by decide) (by decide) (by decide) (by decide)
      (rfl : sortDicts (.dict []) = some (.dict [])) trivial rfl
  exact accepted_append hnotes (by decide) (by decide) (by decide) (by decide)
    (rfl : sortDicts runMeta = some runMeta)
    ⟨show Encodable (py "action_name") by decide, show Encodable (py "run") by decide, trivial⟩ rfl

/-- The indexes of the three are copied, whatever the size of a page. -/
theorem copies_iff_sample : Copies floatClock 1 mixedStore := by
  refine (copies_iff floatClock 1 (by decide) _ accepted_mixedStore).mpr ?_
  refine forall_append (forall_append (fun shard e he _ => ⟨py "run", ?_⟩) fun h => nomatch h)
    fun _ => ⟨py "run", rfl⟩
  rw [StoredEntry.meta, StoredEntry.metadataItems, (entries_namedStore he).2.2.2]
  rfl

end IndexFiles

end Daryl
