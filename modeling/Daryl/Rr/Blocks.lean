import Daryl.Dsm.Enumeration
import Daryl.Lib.Batched
import Daryl.Rr.Relay

/-!
# `block_layer`: the block manager

The block manager buffers the entries of a logical shard and appends a full buffer as one record,
the block, to a shard of its own.  The name of that shard leaves out the `shard_` of the logical
one, so two logical shards can have one block shard; and a block holds its entries oldest first,
while the blocks are read newest first.  A flush that raises keeps its buffer, also when the block
is in the file by then.

A storage call may raise by itself or be stopped by the operating system, before its line is in
the file or behind it; a line is taken to be written whole or not at all.

## Main definitions

* `Disk.tryAppend` — `Storage.append`, and how it ends.
* `BlockManager` — the buffers and the storage; what was appended and which blocks are in the
  files is kept for the statements.
* `BlockManager.append`, `BlockManager.flush`, `BlockManager.read`, `BlockManager.iterEntries`.
* `managed` — the manager after a run of calls.
* `BlockManager.directory` — the blocks in the directory of a block shard.

## Main results

* `backed_managed` — **every run of calls leaves the blocks in their directories, and every entry
  in a block or in a buffer.**
* `BlockManager.Backed.read`, `BlockManager.Backed.readRecent`, `BlockManager.Backed.iterEntries` —
  what the readers see of it.
* `readsNewest_iff` — **the newest entries come first iff every block reads the same both ways.**
* `agrees_iff` — reading agrees with going through the entries under the same condition.
* `accounts_iff` — **no entry is lost, doubled or moved iff every block is one of the logical
  shard, flushed without raising, whose entries JSON keeps.**
-/

namespace Daryl

open Py Json

variable {F : Type} [PyFloat F]

/-! ### The storage -/

/-- `Storage.append`, and how it ends: it may also be stopped from outside. -/
def Disk.tryAppend (cfg : Config) (a : AppendEnd) (now : Datetime) (entry : Entry F) (d : Disk F) :
    AppendEnd × Disk F :=
  let s := d.shard entry.shardId
  match a, s.prepare cfg entry.shardId entry with
  | .lost, _ => (.lost, d)
  | _, (.error _, fam) => (.lost, d.setShard entry.shardId { s with family := fam })
  | .landed, (.ok p, fam) =>
    (.landed, d.setShard entry.shardId { s with family := fam.write p.path (lineBytes p.line) })
  | .written, (.ok _, _) =>
    match d.append cfg now entry with
    | (.ok _, d') => (.written, d')
    | (.error _, d') => (.landed, d')

/-! ### Blocks -/

/-- `_entry_to_dict`. -/
def entryToDict (entry : Entry F) : PyVal F :=
  .dict (strItems [
    (py "id", entry.id),
    (py "timestamp", .str entry.timestamp.isoformat),
    (py "session_id", entry.sessionId),
    (py "source", entry.source),
    (py "content", entry.content),
    (py "shard", entry.shard),
    (py "hash", entry.hash),
    (py "prev_hash", entry.prevHash),
    (py "metadata", entry.metadata),
    (py "version", entry.version)])

/-- `_dict_to_entry` of the manager, which raises for a timestamp that does not parse. -/
def blockDictToEntry (now : Datetime) : PyVal F → Except PyError (Entry F)
  | .dict data =>
    (timestampOr now (getNone (py "timestamp") data)).map fun timestamp => {
      id := (dictGet (py "id") data).getD (.str [])
      timestamp
      sessionId := (dictGet (py "session_id") data).getD (.str [])
      source := (dictGet (py "source") data).getD (.str [])
      content := (dictGet (py "content") data).getD (.str [])
      shard := (dictGet (py "shard") data).getD (.str (py "default"))
      hash := (dictGet (py "hash") data).getD (.str [])
      prevHash := getNone (py "prev_hash") data
      metadata := (dictGet (py "metadata") data).getD (.dict [])
      version := (dictGet (py "version") data).getD (.str (py "v2.0")) }
  | _ => .error .attributeError

/-- The style of a block: `ensure_ascii=False`. -/
def blockStyle : Style := ⟨false, true, true⟩

/-- What a block holds. -/
def blockPayload (entries : List (Entry F)) : PyVal F :=
  .dict (strItems [
    (py "block", .bool true),
    (py "entries", .list (entries.map entryToDict)),
    (py "count", .int entries.length)])

/-- A block in a file: the logical shard, its entries, and whether the flush returned. -/
structure Block (F : Type) where
  logicalShard : PyStr
  entries : List (Entry F)
  returned : Bool

/-- The block manager.  What was appended, and which blocks are in the files, it does not keep. -/
structure BlockManager (F : Type) where
  blockSize : ℤ
  blockShardSuffix : PyStr
  buffers : List (PyStr × List (Entry F))
  disk : Disk F
  appended : List (PyStr × Entry F)
  blocks : List (Block F)

namespace BlockManager

/-- A manager just made, on a data directory just made. -/
def new (F : Type) (blockSize : ℤ) : BlockManager F :=
  ⟨blockSize, py "_block", [], .empty F, [], []⟩

/-- `_block_shard_id`. -/
def blockShardId (m : BlockManager F) (logicalShard : PyStr) : PyStr :=
  (if (py "shard_").isPrefixOf logicalShard then familyName logicalShard else logicalShard) ++
    m.blockShardSuffix

/-- The entries buffered for a shard. -/
def buffered (m : BlockManager F) (shard : PyStr) : List (Entry F) :=
  (Dict.get shard m.buffers).getD []

/-- The record of a block. -/
def blockEntry (str : PyVal F → PyStr) (m : BlockManager F) (logicalShard : PyStr)
    (first : Entry F) (rest : List (Entry F)) (contentStr blockHash : PyStr) : Entry F where
  id := .str (py "block-" ++ str first.id ++ py "-" ++ intStr (rest.length + 1))
  timestamp := ((first :: rest).getLast (List.cons_ne_nil _ _)).timestamp
  sessionId := first.sessionId
  source := .str (py "block_layer")
  content := .str contentStr
  shard := .str (m.blockShardId logicalShard)
  hash := .str blockHash
  prevHash := .none
  metadata := .dict (strItems [
    (py "block", .bool true),
    (py "logical_shard", .str logicalShard),
    (py "entry_count", .int (rest.length + 1))])
  version := .str (py "v2.0")

section

variable (cfg : Config) (str : PyVal F → PyStr)

/-- `_flush_shard`, and whether it returns. -/
def flushShard (io : AppendEnd × Datetime) (logicalShard : PyStr) (m : BlockManager F) :
    Bool × BlockManager F :=
  match m.buffered logicalShard with
  | [] => (true, m)
  | first :: rest =>
    match dumps blockStyle (blockPayload (first :: rest)) with
    | .error _ => (false, m)
    | .ok contentStr =>
      match hashText cfg.sha contentStr with
      | .error _ => (false, m)
      | .ok blockHash =>
        match m.disk.tryAppend cfg io.1 io.2
          (m.blockEntry str logicalShard first rest contentStr blockHash) with
        | (.written, d) =>
          (true, { m with
            buffers := Dict.set logicalShard [] m.buffers
            disk := d
            blocks := m.blocks ++ [⟨logicalShard, first :: rest, true⟩] })
        | (.landed, d) =>
          (false, { m with disk := d, blocks := m.blocks ++ [⟨logicalShard, first :: rest, false⟩] })
        | (.lost, d) => (false, { m with disk := d })

/-- The entry with a hash; a content that is no text has no `encode`. -/
def hashed (entry : Entry F) : Option (Entry F) :=
  if entry.hash.truthy then some entry
  else
    match entry.content with
    | .str content =>
      match hashText cfg.sha content with
      | .ok hash => some { entry with hash := .str hash }
      | .error _ => none
    | _ => none

/-- The entry behind those buffered. -/
def push (shard : PyStr) (entry : Entry F) (m : BlockManager F) : BlockManager F :=
  { m with
    buffers := Dict.set shard (m.buffered shard ++ [entry]) m.buffers
    appended := m.appended ++ [(shard, entry)] }

/-- `append`. -/
def append (io : AppendEnd × Datetime) (entry : Entry F) (m : BlockManager F) :
    Option (Entry F) × BlockManager F :=
  let shard := entry.shardId
  let m := { m with buffers := Dict.set shard (m.buffered shard) m.buffers }
  match hashed cfg entry with
  | none => (none, m)
  | some entry =>
    let m := m.push shard entry
    if m.blockSize ≤ (m.buffered shard).length then
      let r := m.flushShard cfg str io shard
      (if r.1 then some entry else none, r.2)
    else (some entry, m)

/-- The loop of `flush`. -/
def flushEach (io : PyStr → AppendEnd × Datetime) : List PyStr → BlockManager F → Bool × BlockManager F
  | [], m => (true, m)
  | shard :: shards, m =>
    if (m.buffered shard).isEmpty then flushEach io shards m
    else
      match m.flushShard cfg str (io shard) shard with
      | (true, m) => flushEach io shards m
      | (false, m) => (false, m)

/-- `flush`. -/
def flush (io : PyStr → AppendEnd × Datetime) (m : BlockManager F) : Bool × BlockManager F :=
  flushEach cfg str io (Dict.keys m.buffers) m

end

/-! ### Reading -/

/-- The entries of a block, one after the other; where one cannot be made the whole is given. -/
def expandDicts (now : Datetime) (whole : Except PyError (Entry F)) :
    List (PyVal F) → Except PyError (List (Entry F))
  | [] => .ok []
  | d :: ds =>
    match blockDictToEntry now d with
    | .ok e => (expandDicts now whole ds).map (e :: ·)
    | .error .typeError => whole.map ([·])
    | .error err => .error err

/-- What a content is taken apart to. -/
def expandContent (now : Datetime) (content : PyVal F) (whole : Except PyError (Entry F)) :
    Except PyError (List (Entry F)) :=
  if content.truthy then
    match blockEntries content with
    | none => whole.map ([·])
    | some entries =>
      match iterate entries with
      | .error _ => whole.map ([·])
      | .ok ds => expandDicts now whole ds
  else .ok []

/-- Lists put together, up to the first error. -/
def gather {A B : Type} (f : A → Except PyError (List B)) : List A → Except PyError (List B)
  | [] => .ok []
  | a :: as => (f a).bind fun bs => (gather f as).map (bs ++ ·)

/-- `read`. -/
def read (now : Datetime) (m : BlockManager F) (shardId : PyStr) (limit : ℕ) :
    Except PyError (List (Entry F)) :=
  (m.disk.read (m.blockShardId shardId) 0 (limit * (max 1 m.blockSize).toNat)).bind fun raw =>
    (gather (fun e => expandContent now e.content (.ok e)) raw).map (List.take limit)

/-- What an event is taken apart to. -/
def expandEvent (now : Datetime) : PyVal F → Except PyError (List (Entry F))
  | .dict data =>
    expandContent now ((dictGet (py "content") data).getD (.str [])) (blockDictToEntry now (.dict data))
  | _ => .error .attributeError

/-- `iter_entries`. -/
def iterEntries (now : Datetime) (m : BlockManager F) (shardId : PyStr) :
    Except PyError (List (Entry F)) :=
  (iterShardEvents (m.disk.shard (m.blockShardId shardId)).family).bind (gather (expandEvent now))

end BlockManager

/-! ### Runs -/

/-- A call of the manager, with how each call of the storage ends and when it is made. -/
inductive BlockCall (F : Type)
  | append (io : AppendEnd × Datetime) (entry : Entry F)
  | flush (io : PyStr → AppendEnd × Datetime)

/-- The manager after a call, whether it returns or raises. -/
def blockStep (cfg : Config) (str : PyVal F → PyStr) (m : BlockManager F) :
    BlockCall F → BlockManager F
  | .append io entry => (m.append cfg str io entry).2
  | .flush io => (m.flush cfg str io).2

/-- The manager after a run of calls. -/
def managed (cfg : Config) (str : PyVal F → PyStr) (blockSize : ℤ) (calls : List (BlockCall F)) :
    BlockManager F := Run.run (blockStep cfg str) (.new F blockSize) calls

/-! ### What a call of the storage leaves -/

/-- **A call of the storage adds the record of its entry, or leaves the records alone.** -/
theorem tryAppend_spec (cfg : Config) (a : AppendEnd) (now : Datetime) {d d' : Disk F} (h : d.Kept)
    {entry : Entry F} {ds : List (Entry F)} (hds : Tidy (d.shard entry.shardId).family ds)
    {r : AppendEnd} (htry : d.tryAppend cfg a now entry = (r, d')) :
    r = .lost ∧ d' = d ∨
      ∃ s' ds', d' = d.setShard entry.shardId s' ∧ Tidy s'.family ds' ∧ Movable s'.pin ∧
        (r = .lost ∧ ds' = ds ∨
          r ≠ .lost ∧ ∃ x : Entry F, ds' = ds ++ [x] ∧ x.content = Py.readBack entry.content) := by
  unfold Disk.tryAppend at htry
  dsimp only at htry
  cases hseal : sealEntry cfg.sha entry.shardId entry (getLastHash (d.shard entry.shardId).pin) with
  | error err =>
    -- the entry cannot be sealed, so that no line is written
    obtain ⟨fam, hprep, htidy⟩ := tidy_prepare_error hds hseal
    rw [hprep] at htry
    cases a with
    | lost =>
      obtain ⟨rfl, rfl⟩ := Prod.mk.inj htry
      exact .inl ⟨rfl, rfl⟩
    | written =>
      obtain ⟨rfl, rfl⟩ := Prod.mk.inj htry
      exact .inr ⟨_, ds, rfl, htidy, h.pin _, .inl ⟨rfl, rfl⟩⟩
    | landed =>
      obtain ⟨rfl, rfl⟩ := Prod.mk.inj htry
      exact .inr ⟨_, ds, rfl, htidy, h.pin _, .inl ⟨rfl, rfl⟩⟩
  | ok sealed =>
    obtain ⟨e', line⟩ := sealed
    -- it is sealed, and the call may end before the write, after it, or in time
    obtain ⟨path, fam, hprep, htidy⟩ := tidy_prepare hds hseal
    obtain ⟨-, -, -, hash, hentry⟩ := sealEntry_eq_ok hseal
    have hcontent : (e'.readBack entry.shardId).content = Py.readBack entry.content := by
      rw [hentry]
      rfl
    rw [hprep] at htry
    cases a with
    | lost =>
      obtain ⟨rfl, rfl⟩ := Prod.mk.inj htry
      exact .inl ⟨rfl, rfl⟩
    | landed =>
      obtain ⟨rfl, rfl⟩ := Prod.mk.inj htry
      exact .inr ⟨_, _, rfl, htidy, h.pin _, .inr ⟨by decide, _, rfl, hcontent⟩⟩
    | written =>
      obtain ⟨s', happend, htidy', hpin⟩ := tidy_append now hds (h.pin _) hseal
      have hstep : d.append cfg now entry = (.ok e', d.setShard entry.shardId s') := by
        rw [Disk.append, Disk.appendTo, happend]
      dsimp only at htry
      rw [hstep] at htry
      obtain ⟨rfl, rfl⟩ := Prod.mk.inj htry
      exact .inr ⟨_, _, rfl, htidy', hpin, .inr ⟨by decide, _, rfl, hcontent⟩⟩

/-! ### The entries of a block -/

/-- The entry as a block gives it back. -/
def Entry.form (e : Entry F) : Entry F where
  id := Py.form e.id
  timestamp := e.timestamp
  sessionId := Py.form e.sessionId
  source := Py.form e.source
  content := Py.form e.content
  shard := Py.form e.shard
  hash := Py.form e.hash
  prevHash := Py.form e.prevHash
  metadata := Py.form e.metadata
  version := Py.form e.version

/-- The entries of a block, as they are given back. -/
def Block.opened (b : Block F) : List (Entry F) := b.entries.map Entry.form

/-- The record is that of the block. -/
def IsBlock (b : Block F) (d : Entry F) : Prop :=
  ∃ text, dumps blockStyle (blockPayload b.entries) = .ok text ∧ d.content = .str text

/-- The manager and the relay make one entry of the dict of an entry. -/
theorem toEntry_form (now : Datetime) (e : Entry F) :
    blockDictToEntry now (Py.form (entryToDict e)) = .ok e.form ∧
      dictToEntry now (Py.form (entryToDict e)) = .ok e.form ∧ isDict (Py.form (entryToDict e)) := by
  have hform : Py.form (entryToDict e) = .dict (strItems [
      (py "id", Py.form e.id), (py "timestamp", .str e.timestamp.isoformat),
      (py "session_id", Py.form e.sessionId), (py "source", Py.form e.source),
      (py "content", Py.form e.content), (py "shard", Py.form e.shard), (py "hash", Py.form e.hash),
      (py "prev_hash", Py.form e.prevHash), (py "metadata", Py.form e.metadata),
      (py "version", Py.form e.version)]) := by
    rw [entryToDict, form_strItems]
    · rfl
    · change [py "id", py "timestamp", py "session_id", py "source", py "content", py "shard",
        py "hash", py "prev_hash", py "metadata", py "version"].Nodup
      decide
  rw [hform]
  refine ⟨?_, ?_, rfl⟩
  · change (timestampOr now (.str e.timestamp.isoformat)).map _ = _
    rw [timestampOr_isoformat]
    rfl
  · change Except.ok { Entry.form e with
      timestamp := (fromisoformat e.timestamp.isoformat).getD now } = _
    rw [fromisoformat_isoformat]
    rfl

/-- The text of a block holds the dicts of its entries. -/
theorem blockEntries_dumps {entries : List (Entry F)} {text : PyStr}
    (h : dumps blockStyle (blockPayload entries) = .ok text) :
    text ≠ [] ∧ blockEntries (.str text : PyVal F)
      = some (.list (entries.map fun e => Py.form (entryToDict e))) := by
  have hprint := dumps_eq_ok.mp h
  obtain ⟨s, hs⟩ := print_dict_shape hprint
  have hne : text ≠ [] := by
    rw [hs]
    exact List.cons_ne_nil _ _
  have hlist : ∀ es : List (Entry F),
      formList (es.map entryToDict) = es.map fun e => Py.form (entryToDict e) := by
    intro es
    induction es with
    | nil => rfl
    | cons e es ih => exact congrArg _ ih
  have hload : (loads text : Option (PyVal F)) = some (.dict (strItems [
      (py "block", .bool true),
      (py "entries", .list (entries.map fun e => Py.form (entryToDict e))),
      (py "count", .int entries.length)])) := by
    rw [loads_print hprint (by simp [blockStyle]), blockPayload, form_strItems, ← hlist]
    · rfl
    · change [py "block", py "entries", py "count"].Nodup
      decide
  refine ⟨hne, ?_⟩
  rw [blockEntries, if_neg hne, hload]
  rfl

/-- The manager takes a block apart. -/
theorem expandContent_block (now : Datetime) {b : Block F} {d : Entry F} (h : IsBlock b d)
    (whole : Except PyError (Entry F)) :
    BlockManager.expandContent now d.content whole = .ok b.opened := by
  obtain ⟨text, htext, hcontent⟩ := h
  obtain ⟨hne, hentries⟩ := blockEntries_dumps htext
  have hdicts : ∀ es : List (Entry F), BlockManager.expandDicts now whole
      (es.map fun e => Py.form (entryToDict e)) = .ok (es.map Entry.form) := by
    intro es
    induction es with
    | nil => rfl
    | cons e es ih =>
      rw [List.map_cons, BlockManager.expandDicts, (toEntry_form now e).1, ih]
      rfl
  have htruthy : (PyVal.str text : PyVal F).truthy = true := by
    cases text with
    | nil => exact absurd rfl hne
    | cons c s => rfl
  rw [BlockManager.expandContent, hcontent, if_pos htruthy, hentries]
  exact hdicts b.entries

/-- The relay takes it apart in the same way. -/
theorem expandEntry_block (now : Datetime) {b : Block F} {d : Entry F} (h : IsBlock b d) :
    expandEntry now d = .ok b.opened := by
  obtain ⟨text, htext, hcontent⟩ := h
  have hdicts : ∀ es : List (Entry F), dictsToEntries now
      (es.map fun e => Py.form (entryToDict e)) = .ok (es.map Entry.form) := by
    intro es
    induction es with
    | nil => rfl
    | cons e es ih =>
      rw [List.map_cons, dictsToEntries, (toEntry_form now e).2.1, ih]
      rfl
  rw [expandEntry, hcontent, (blockEntries_dumps htext).2]
  exact hdicts b.entries

omit [PyFloat F] in
theorem gather_forall₂ {A B C : Type} {f : A → Except PyError (List B)} {g : C → List B}
    {as : List A} {cs : List C} (h : List.Forall₂ (fun c a => f a = .ok (g c)) cs as) :
    BlockManager.gather f as = .ok (cs.flatMap g) := by
  induction h with
  | nil => rfl
  | cons hhead _ ih =>
    rw [BlockManager.gather, hhead, ih]
    rfl

theorem expandEntries_eq (now : Datetime) (raw : List (Entry F)) :
    expandEntries now raw = BlockManager.gather (expandEntry now) raw := by
  induction raw with
  | nil => rfl
  | cons e raw ih => rw [expandEntries, BlockManager.gather, ih]

/-! ### What the manager keeps -/

namespace BlockManager

/-- The blocks in the directory of a shard, oldest first. -/
def directory (m : BlockManager F) (shardId : PyStr) : List (Block F) :=
  m.blocks.filter fun b => familyName (m.blockShardId b.logicalShard) = familyName shardId

/-- The entries appended to a logical shard. -/
def appendedTo (m : BlockManager F) (shard : PyStr) : List (Entry F) :=
  (m.appended.filter fun p => p.1 = shard).map Prod.snd

/-- The entries of a logical shard whose flush returned. -/
def flushed (m : BlockManager F) (shard : PyStr) : List (Entry F) :=
  (m.blocks.filter fun b => b.logicalShard = shard && b.returned).flatMap Block.entries

/-- The blocks are in their directories, and every entry is in a block or in a buffer. -/
structure Backed (m : BlockManager F) : Prop where
  suffix : m.blockShardSuffix = py "_block"
  kept : m.disk.Kept
  dirs : ∀ name ∈ Dict.keys m.disk.families, ∃ logical, familyName (m.blockShardId logical) = name
  holds : ∀ id, ∃ ds, Tidy (m.disk.shard id).family ds ∧ List.Forall₂ IsBlock (m.directory id) ds
  nonempty : ∀ b ∈ m.blocks, b.entries ≠ []
  accounted : ∀ shard, m.appendedTo shard = m.flushed shard ++ m.buffered shard

theorem backed_new (blockSize : ℤ) : (new F blockSize).Backed where
  suffix := rfl
  kept := kept_empty
  dirs := fun _ hname => absurd hname List.not_mem_nil
  holds := fun _ => ⟨[], tidy_empty _, List.Forall₂.nil⟩
  nonempty := fun _ hb => absurd hb List.not_mem_nil
  accounted := fun _ => rfl

/-- The manager after the storage was asked for a block. -/
def settled (m : BlockManager F) (shard : PyStr) (entries : List (Entry F)) (r : AppendEnd)
    (d : Disk F) : BlockManager F :=
  { m with
    buffers := if r = .written then Dict.set shard [] m.buffers else m.buffers
    disk := d
    blocks := m.blocks ++ if r = .lost then [] else [⟨shard, entries, decide (r = .written)⟩] }

variable {cfg : Config} {str : PyVal F → PyStr} {m : BlockManager F}

/-- A flush leaves the manager as it is, or asks the storage for the block of the buffer. -/
theorem flushShard_cases (io : AppendEnd × Datetime) (shard : PyStr) (m : BlockManager F) :
    (m.flushShard cfg str io shard).2 = m ∨
      ∃ first rest text hash r d, m.buffered shard = first :: rest ∧
        dumps blockStyle (blockPayload (first :: rest)) = .ok text ∧
        m.disk.tryAppend cfg io.1 io.2 (m.blockEntry str shard first rest text hash) = (r, d) ∧
        (m.flushShard cfg str io shard).2 = m.settled shard (first :: rest) r d := by
  unfold flushShard
  split
  · exact .inl rfl
  · next first rest hbuf =>
    split
    · exact .inl rfl
    · next text htext =>
      split
      · exact .inl rfl
      · next hash _ =>
        refine .inr ⟨first, rest, text, hash, ?_⟩
        split
        · next d htry => exact ⟨.written, d, hbuf, htext, htry, rfl⟩
        · next d htry => exact ⟨.landed, d, hbuf, htext, htry, rfl⟩
        · next d htry =>
          refine ⟨.lost, d, hbuf, htext, htry, ?_⟩
          rw [BlockManager.settled, if_pos rfl, List.append_nil]
          rfl

omit [PyFloat F] in
/-- What is under a shard when another may have been set. -/
theorem family_setShard (d : Disk F) (id other : PyStr) (s : Shard F) :
    ((d.setShard id s).shard other).family =
      if familyName id = familyName other then s.family else (d.shard other).family := by
  unfold Disk.shard Disk.setShard
  dsimp only
  rw [Dict.get_set]
  split_ifs with h
  · rfl
  · rfl

omit [PyFloat F] in
/-- A block is stored under the name of its shard. -/
theorem shardId_blockEntry (hsuffix : m.blockShardSuffix = py "_block") (shard : PyStr)
    (first : Entry F) (rest : List (Entry F)) (text hash : PyStr) :
    (m.blockEntry str shard first rest text hash).shardId = m.blockShardId shard := by
  have hne : m.blockShardId shard ≠ [] := by
    intro h
    have hlen := congrArg List.length h
    rw [blockShardId, List.length_append, hsuffix] at hlen
    exact absurd hlen (Nat.succ_ne_zero _)
  exact if_neg hne

/-- **A call of the storage for the block of a buffer keeps the books.** -/
theorem Backed.settled (h : m.Backed) {shard : PyStr} {first : Entry F} {rest : List (Entry F)}
    {text hash : PyStr} {io : AppendEnd × Datetime} {r : AppendEnd} {d : Disk F}
    (hbuf : m.buffered shard = first :: rest)
    (htext : dumps blockStyle (blockPayload (first :: rest)) = .ok text)
    (htry : m.disk.tryAppend cfg io.1 io.2 (m.blockEntry str shard first rest text hash) = (r, d)) :
    (m.settled shard (first :: rest) r d).Backed := by
  have hid : (m.blockEntry str shard first rest text hash).shardId = m.blockShardId shard :=
    shardId_blockEntry h.suffix shard first rest text hash
  obtain ⟨ds, hds, hblocks⟩ := h.holds (m.blockShardId shard)
  rcases tryAppend_spec cfg io.1 io.2 h.kept (hid ▸ hds) htry with
    ⟨rfl, rfl⟩ | ⟨s', ds', rfl, htidy, hpin, hadded⟩
  · rw [BlockManager.settled, if_pos rfl, List.append_nil]
    exact h
  rw [hid]
  generalize hextra : (if r = .lost then [] else
    [(⟨shard, first :: rest, decide (r = .written)⟩ : Block F)]) = extra
  have hforall : List.Forall₂ IsBlock (m.directory (m.blockShardId shard) ++ extra) ds' := by
    rcases hadded with ⟨rfl, rfl⟩ | ⟨hr, x, rfl, hcontent⟩
    · rw [← hextra, if_pos rfl, List.append_nil]
      exact hblocks
    · rw [← hextra, if_neg hr]
      exact List.rel_append hblocks (List.Forall₂.cons ⟨text, htext, hcontent⟩ List.Forall₂.nil)
  have hlogical : ∀ b ∈ extra, b.logicalShard = shard ∧ b.entries = first :: rest ∧
      b.returned = decide (r = .written) := by
    intro b hb
    rw [← hextra] at hb
    split_ifs at hb
    · exact absurd hb List.not_mem_nil
    · rw [List.mem_singleton.mp hb]
      exact ⟨rfl, rfl, rfl⟩
  rw [BlockManager.settled, hextra]
  refine ⟨h.suffix, kept_setShard h.kept _ htidy hpin, ?_, ?_, ?_, ?_⟩
  · intro name hname
    rcases Dict.mem_keys_set.mp hname with rfl | hname
    · exact ⟨shard, rfl⟩
    · exact h.dirs name hname
  · intro id
    dsimp only
    rw [family_setShard, directory, List.filter_append]
    by_cases hfam : familyName (m.blockShardId shard) = familyName id
    · -- the directory is that of the block
      rw [if_pos hfam]
      refine ⟨ds', htidy, ?_⟩
      rw [directory, hfam] at hforall
      have hall : extra.filter (fun b => familyName (m.blockShardId b.logicalShard) = familyName id)
          = extra := by
        rw [List.filter_eq_self]
        intro b hb
        rw [(hlogical b hb).1]
        exact decide_eq_true hfam
      exact hall.symm ▸ hforall
    · rw [if_neg hfam]
      obtain ⟨ds₀, htidy₀, hblocks₀⟩ := h.holds id
      refine ⟨ds₀, htidy₀, ?_⟩
      have hnone : extra.filter (fun b => familyName (m.blockShardId b.logicalShard) = familyName id)
          = [] := by
        rw [List.filter_eq_nil_iff]
        intro b hb
        rw [(hlogical b hb).1, decide_eq_true_eq]
        exact hfam
      have happend : m.directory id ++ extra.filter (fun b =>
          familyName (m.blockShardId b.logicalShard) = familyName id) = m.directory id := by
        rw [hnone, List.append_nil]
      exact happend.symm ▸ hblocks₀
  · intro b hb
    rcases List.mem_append.mp hb with hb | hb
    · exact h.nonempty b hb
    · rw [(hlogical b hb).2.1]
      exact List.cons_ne_nil _ _
  · intro other
    refine (h.accounted other).trans ?_
    rw [flushed, flushed, List.filter_append, List.flatMap_append, List.append_assoc]
    congr 1
    unfold buffered
    dsimp only
    by_cases hr : r = .written
    · have hone : extra = [⟨shard, first :: rest, true⟩] := by
        rw [← hextra, hr]
        rfl
      rw [if_pos hr, hone, Dict.get_set]
      by_cases hother : shard = other
      · subst hother
        rw [if_pos rfl, List.filter_cons_of_pos (by simp), List.filter_nil, List.flatMap_singleton,
          Option.getD_some, List.append_nil]
        exact hbuf
      · rw [if_neg hother, List.filter_cons_of_neg (by simp [hother])]
        rfl
    · have hnone : extra.filter (fun b => b.logicalShard = other && b.returned) = [] := by
        rw [List.filter_eq_nil_iff]
        intro b hb
        rw [(hlogical b hb).2.2, decide_eq_false hr, Bool.and_false]
        exact Bool.false_ne_true
      rw [if_neg hr, hnone]
      rfl

/-- Whatever the storage does, a flush keeps the books. -/
theorem Backed.flushShard (h : m.Backed) (io : AppendEnd × Datetime) (shard : PyStr) :
    (m.flushShard cfg str io shard).2.Backed := by
  rcases flushShard_cases io shard m with hsame | ⟨first, rest, text, hash, r, d, hbuf, htext, htry, hset⟩
  · rw [hsame]
    exact h
  · rw [hset]
    exact h.settled hbuf htext htry

/-- Buffers and entries that balance keep the books. -/
theorem Backed.rebuffer (h : m.Backed) {buffers : List (PyStr × List (Entry F))}
    {appended : List (PyStr × Entry F)}
    (hacc : ∀ shard, (appended.filter fun p => p.1 = shard).map Prod.snd
      = m.flushed shard ++ (Dict.get shard buffers).getD []) :
    ({ m with buffers := buffers, appended := appended } : BlockManager F).Backed :=
  ⟨h.suffix, h.kept, h.dirs, h.holds, h.nonempty, hacc⟩

/-- An entry that is buffered was appended. -/
theorem Backed.push (h : m.Backed) (shard : PyStr) (entry : Entry F) :
    (m.push shard entry).Backed := by
  apply h.rebuffer
  intro other
  have hacc := h.accounted other
  rw [appendedTo, buffered] at hacc
  rw [List.filter_append, List.map_append, hacc, Dict.get_set, List.append_assoc]
  by_cases hother : shard = other
  · subst hother
    rw [if_pos rfl, List.filter_cons_of_pos (by simp)]
    rfl
  · rw [if_neg hother, List.filter_cons_of_neg (by simp [hother])]
    simp

/-- **An append keeps the books**, whether it returns or raises. -/
theorem Backed.append (h : m.Backed) (io : AppendEnd × Datetime) (entry : Entry F) :
    (m.append cfg str io entry).2.Backed := by
  unfold BlockManager.append
  dsimp only
  have hset : ({ m with buffers := Dict.set entry.shardId (m.buffered entry.shardId) m.buffers } :
      BlockManager F).Backed := by
    apply h.rebuffer
    intro other
    have hacc := h.accounted other
    rw [appendedTo] at hacc
    rw [hacc, Dict.get_set]
    split_ifs with hother
    · rw [← hother, Option.getD_some]
    · rfl
  split
  · exact hset
  · next entry' _ =>
    have hpush := hset.push entry.shardId entry'
    split
    · exact hpush.flushShard io _
    · exact hpush

/-- The loop of a flush keeps the books. -/
theorem Backed.flushEach (io : PyStr → AppendEnd × Datetime) {shards : List PyStr} :
    ∀ {m : BlockManager F}, m.Backed → (flushEach cfg str io shards m).2.Backed := by
  induction shards with
  | nil => exact fun h => h
  | cons shard shards ih =>
    intro m h
    rw [BlockManager.flushEach]
    split_ifs
    · exact ih h
    · have hflush : (m.flushShard cfg str (io shard) shard).2.Backed :=
        h.flushShard (io shard) shard
      split
      · next m' hm => exact ih (by rw [hm] at hflush; exact hflush)
      · next m' hm =>
        rw [hm] at hflush
        exact hflush

end BlockManager

/-- **Every call keeps the books.** -/
theorem backed_step (cfg : Config) (str : PyVal F → PyStr) (m : BlockManager F) (call : BlockCall F)
    (h : m.Backed) : (blockStep cfg str m call).Backed := by
  cases call with
  | append io entry => exact h.append io entry
  | flush io => exact h.flushEach io

/-- **So does every run of calls.** -/
theorem backed_managed (cfg : Config) (str : PyVal F → PyStr) (blockSize : ℤ)
    (calls : List (BlockCall F)) : (managed cfg str blockSize calls).Backed :=
  Run.run_keeps (P := BlockManager.Backed) (backed_step cfg str)
    (BlockManager.backed_new blockSize) calls

/-! ### What the readers see -/

namespace BlockManager

variable {m : BlockManager F}

omit [PyFloat F] in
/-- A directory of blocks is not named like the file of a shard. -/
theorem familyName_blockShardId_ne (hsuffix : m.blockShardSuffix = py "_block")
    (logical other : PyStr) : familyName (m.blockShardId logical) ≠ other ++ jsonl := by
  intro heq
  have hname : m.blockShardId logical
      = ((if (py "shard_").isPrefixOf logical then familyName logical else logical) ++ py "_bloc") ++
        py "k" := by
    rw [blockShardId, hsuffix, List.append_assoc]
    rfl
  have hnot : (107 : CodePoint) ∉ py "shard_" := by decide
  obtain ⟨t, ht⟩ := replace_concat_notMem (by decide) hnot
    ((if (py "shard_").isPrefixOf logical then familyName logical else logical) ++ py "_bloc")
  rw [hname] at heq
  have hjsonl : other ++ jsonl = (other ++ py ".json") ++ py "l" := by
    rw [List.append_assoc]
    rfl
  have hends := (List.append_inj' (ht.symm.trans (heq.trans hjsonl)) rfl).2
  exact absurd hends (by decide)

/-- **The records of a block shard are read newest first**, as many as the limit says and at
least one. -/
theorem Backed.read_raw (h : m.Backed) (shard : PyStr) :
    ∃ ds, List.Forall₂ IsBlock (m.directory (m.blockShardId shard)) ds ∧ ∀ limit,
      m.disk.read (m.blockShardId shard) 0 limit = .ok (ds.reverse.take (max limit 1)) := by
  obtain ⟨ds, htidy, hblocks⟩ := h.holds (m.blockShardId shard)
  refine ⟨ds, hblocks, fun limit => ?_⟩
  rw [Disk.read]
  cases hget : Dict.get (familyName (m.blockShardId shard)) m.disk.families with
  | some fam =>
    have hfam : (m.disk.shard (m.blockShardId shard)).family = fam := by
      rw [Disk.shard, hget, Option.getD_some]
    exact (hfam ▸ htidy).read limit
  | none =>
    have hempty : (m.disk.shard (m.blockShardId shard)).family
        = Family.empty (familyName (m.blockShardId shard)) := by
      rw [Disk.shard, hget, Option.getD_none]
    have hnil : ds = [] := by
      have hchrono := htidy.chrono
      rw [hempty, (tidy_empty (F := F) _).chrono] at hchrono
      exact (Except.ok.inj hchrono).symm
    have hfile : m.blockShardId shard ++ jsonl ∉ Dict.keys m.disk.families := by
      intro hmem
      obtain ⟨logical, hlogical⟩ := h.dirs _ hmem
      exact familyName_blockShardId_ne h.suffix logical _ hlogical
    rw [hnil, h.kept.monoliths, Dict.get_nil]
    dsimp only
    rw [if_neg hfile, List.reverse_nil, List.take_nil]

/-- A block that is not empty gives back entries. -/
theorem opened_ne_nil {b : Block F} (h : b.entries ≠ []) : b.opened ≠ [] :=
  fun hnil => h (List.map_eq_nil_iff.mp hnil)

/-- What is gathered of as many blocks as the limit says is what the limit leaves of all. -/
theorem Backed.gather_take (h : m.Backed) {shard : PyStr} {ds : List (Entry F)}
    (hblocks : List.Forall₂ IsBlock (m.directory (m.blockShardId shard)) ds)
    {f : Entry F → Except PyError (List (Entry F))} (hf : ∀ b d, IsBlock b d → f d = .ok b.opened)
    {limit n : ℕ} (hn : limit ≤ n) :
    (gather f (ds.reverse.take n)).map (List.take limit)
      = .ok (((m.directory (m.blockShardId shard)).reverse.flatMap Block.opened).take limit) := by
  have hrev := List.forall₂_take n (List.forall₂_reverse_iff.mpr hblocks)
  rw [gather_forall₂ (hrev.imp hf)]
  change Except.ok _ = _
  rw [Batched.take_flatMap_take _ hn]
  intro b hb
  have hmem := List.mem_of_mem_filter (List.mem_reverse.mp hb)
  exact opened_ne_nil (h.nonempty b hmem)

/-- **The manager reads the blocks newest first**, each as it is. -/
theorem Backed.read (h : m.Backed) (now : Datetime) (shard : PyStr) (limit : ℕ) :
    m.read now shard limit
      = .ok (((m.directory (m.blockShardId shard)).reverse.flatMap Block.opened).take limit) := by
  obtain ⟨ds, hblocks, hread⟩ := h.read_raw shard
  have hpos : 0 < (max 1 m.blockSize).toNat := by omega
  have hle : limit ≤ max (limit * (max 1 m.blockSize).toNat) 1 :=
    (Nat.le_mul_of_pos_right limit hpos).trans (le_max_left _ _)
  rw [BlockManager.read, hread]
  exact h.gather_take hblocks (fun b d hd => expandContent_block now hd _) hle

/-- **So does the relay.** -/
theorem Backed.readRecent (h : m.Backed) (now : Datetime) (shard : PyStr) (limit : ℕ) :
    readRecent now m.disk (m.blockShardId shard) limit
      = .ok (((m.directory (m.blockShardId shard)).reverse.flatMap Block.opened).take limit) := by
  obtain ⟨ds, hblocks, hread⟩ := h.read_raw shard
  rw [Daryl.readRecent, hread]
  change (expandEntries now (ds.reverse.take (max limit 1))).map _ = _
  rw [expandEntries_eq]
  exact h.gather_take hblocks (fun b d hd => expandEntry_block now hd) (le_max_left _ _)

/-- An event of a block is taken apart to its entries. -/
theorem expandEvent_block (now : Datetime) {b : Block F} {d : Entry F} (h : IsBlock b d)
    {event : PyVal F} (hmade : entryFromEventData event = .ok d) :
    expandEvent now event = .ok b.opened := by
  obtain ⟨kvs, text, stamp, rfl, -, -, rfl⟩ := entryFromEventData_eq_ok.mp hmade
  obtain ⟨content, hcontent, hsame⟩ := h
  have hget : dictGet (py "content") kvs = some (.str content) := by
    have hnone : (dictGet (py "content") kvs).getD .none = .str content := hsame
    cases hv : dictGet (py "content") kvs with
    | none =>
      rw [hv] at hnone
      cases hnone
    | some v =>
      rw [hv] at hnone
      exact congrArg some hnone
  have hblock := expandContent_block now ⟨content, hcontent, hsame⟩
    (blockDictToEntry now (.dict kvs))
  rw [hsame] at hblock
  rw [expandEvent, hget]
  exact hblock

/-- **Going through the entries gives the blocks oldest first.** -/
theorem Backed.iterEntries (h : m.Backed) (now : Datetime) (shard : PyStr) :
    m.iterEntries now shard = .ok ((m.directory (m.blockShardId shard)).flatMap Block.opened) := by
  obtain ⟨ds, htidy, hblocks⟩ := h.holds (m.blockShardId shard)
  obtain ⟨events, hevents, hmade⟩ := htidy.events
  have hall : List.Forall₂ (fun b event => expandEvent now event = .ok b.opened)
      (m.directory (m.blockShardId shard)) events := by
    clear hevents htidy
    generalize m.directory (m.blockShardId shard) = blocks at hblocks
    induction hmade generalizing blocks with
    | nil =>
      cases hblocks
      exact List.Forall₂.nil
    | cons hhead _ ih =>
      cases hblocks with
      | cons hblock hrest => exact List.Forall₂.cons (expandEvent_block now hblock hhead) (ih _ hrest)
  rw [BlockManager.iterEntries, hevents]
  exact gather_forall₂ hall

/-! ### The order of the entries -/

/-- The entries flushed to the block shard of a shard, newest first. -/
def newestFlushed (m : BlockManager F) (shard : PyStr) : List (Entry F) :=
  (m.blocks.filter fun b => m.blockShardId b.logicalShard = m.blockShardId shard).reverse.flatMap
    fun b => b.entries.reverse

/-- The relay and the manager both return the most recently flushed entries, newest first. -/
def ReadsNewest (m : BlockManager F) (shard : PyStr) : Prop :=
  ∀ now limit,
    Daryl.readRecent now m.disk (m.blockShardId shard) limit
        = .ok ((m.newestFlushed shard).take limit) ∧
      m.read now shard limit = .ok ((m.newestFlushed shard).take limit)

/-- What is read are the first elements of what is gone through, backwards. -/
def Agrees (m : BlockManager F) (shard : PyStr) : Prop :=
  ∀ now, ∃ es, m.iterEntries now shard = .ok es ∧
    ∀ limit, m.read now shard limit = .ok (es.reverse.take limit)

/-- What is gone through and what is buffered is what was appended, in order. -/
def Accounts (m : BlockManager F) (shard : PyStr) : Prop :=
  ∀ now, ∃ es, m.iterEntries now shard = .ok es ∧ es ++ m.buffered shard = m.appendedTo shard

end BlockManager

omit [PyFloat F] in
/-- What every limit leaves alike is alike. -/
theorem eq_of_forall_take {A : Type} {xs ys : List A} (h : ∀ limit, xs.take limit = ys.take limit) :
    xs = ys := by
  have hall := h (max xs.length ys.length)
  rw [List.take_of_length_le (le_max_left _ _), List.take_of_length_le (le_max_right _ _)] at hall
  exact hall

/-- **The relay and the manager return the most recently flushed entries, newest first, iff** every
block in the directory is one of the block shard and reads the same both ways. -/
theorem readsNewest_iff (cfg : Config) (str : PyVal F → PyStr) (blockSize : ℤ)
    (calls : List (BlockCall F)) (shard : PyStr) :
    (managed cfg str blockSize calls).ReadsNewest shard ↔
      ∀ b ∈ (managed cfg str blockSize calls).directory
          ((managed cfg str blockSize calls).blockShardId shard),
        (managed cfg str blockSize calls).blockShardId b.logicalShard
            = (managed cfg str blockSize calls).blockShardId shard ∧
          b.opened = b.entries.reverse := by
  have h := backed_managed cfg str blockSize calls
  generalize managed cfg str blockSize calls = m at h ⊢
  -- the blocks of the block shard are among those of its directory
  have hown : m.newestFlushed shard = ((m.directory (m.blockShardId shard)).reverse.filter fun b =>
      m.blockShardId b.logicalShard = m.blockShardId shard).flatMap fun b => b.entries.reverse := by
    rw [BlockManager.newestFlushed, ← List.filter_reverse, BlockManager.directory,
      ← List.filter_reverse, List.filter_filter]
    congr 1
    apply List.filter_congr
    intro b _
    by_cases hb : m.blockShardId b.logicalShard = m.blockShardId shard
    · simp [hb]
    · simp [hb]
  have hreads : m.ReadsNewest shard ↔
      (m.directory (m.blockShardId shard)).reverse.flatMap Block.opened = m.newestFlushed shard := by
    constructor
    · intro hreads
      apply eq_of_forall_take
      intro limit
      have hread := (hreads sampleTime limit).2
      rw [h.read] at hread
      exact Except.ok.inj hread
    · intro hsame now limit
      rw [h.read, h.readRecent, hsame]
      exact ⟨rfl, rfl⟩
  rw [hreads, hown, Batched.flatMap_eq_filter_iff]
  · simp only [List.mem_reverse, decide_eq_true_eq]
  · intro b hb
    have hmem := List.mem_of_mem_filter (List.mem_reverse.mp hb)
    exact BlockManager.opened_ne_nil (h.nonempty b hmem)
  · intro b _
    rw [Block.opened, List.length_map, List.length_reverse]

/-- **Reading agrees with going through the entries iff every block in the directory reads the same
both ways.** -/
theorem agrees_iff (cfg : Config) (str : PyVal F → PyStr) (blockSize : ℤ)
    (calls : List (BlockCall F)) (shard : PyStr) :
    (managed cfg str blockSize calls).Agrees shard ↔
      ∀ b ∈ (managed cfg str blockSize calls).directory
          ((managed cfg str blockSize calls).blockShardId shard),
        b.opened = b.opened.reverse := by
  have h := backed_managed cfg str blockSize calls
  generalize managed cfg str blockSize calls = m at h ⊢
  have hagrees : m.Agrees shard ↔ (m.directory (m.blockShardId shard)).reverse.flatMap Block.opened
      = (m.directory (m.blockShardId shard)).reverse.flatMap fun b => b.opened.reverse := by
    have hreverse : ((m.directory (m.blockShardId shard)).flatMap Block.opened).reverse
        = (m.directory (m.blockShardId shard)).reverse.flatMap fun b => b.opened.reverse := by
      rw [List.reverse_flatMap]
      rfl
    rw [← hreverse]
    constructor
    · intro hagrees
      obtain ⟨es, hes, hread⟩ := hagrees sampleTime
      rw [h.iterEntries] at hes
      obtain rfl := Except.ok.inj hes
      apply eq_of_forall_take
      intro limit
      have hlimit := hread limit
      rw [h.read] at hlimit
      exact Except.ok.inj hlimit
    · intro hsame now
      refine ⟨_, h.iterEntries now shard, fun limit => ?_⟩
      rw [h.read, hsame]
  have hall := Batched.flatMap_eq_filter_iff (p := fun _ => true)
    (l := (m.directory (m.blockShardId shard)).reverse) (f := Block.opened)
    (g := fun b => b.opened.reverse) ?_ ?_
  · rw [List.filter_true] at hall
    rw [hagrees, hall]
    simp only [List.mem_reverse, true_and]
  · intro b hb
    have hmem := List.mem_of_mem_filter (List.mem_reverse.mp hb)
    exact BlockManager.opened_ne_nil (h.nonempty b hmem)
  · intro b _
    rw [List.length_reverse]

/-- **No entry is lost, doubled or moved iff** every block in the directory is one of the logical
shard, its flush returned, and it gives its entries back as they are. -/
theorem accounts_iff (cfg : Config) (str : PyVal F → PyStr) (blockSize : ℤ)
    (calls : List (BlockCall F)) (shard : PyStr) :
    (managed cfg str blockSize calls).Accounts shard ↔
      ∀ b ∈ (managed cfg str blockSize calls).directory
          ((managed cfg str blockSize calls).blockShardId shard),
        (b.logicalShard = shard ∧ b.returned = true) ∧ b.opened = b.entries := by
  have h := backed_managed cfg str blockSize calls
  generalize managed cfg str blockSize calls = m at h ⊢
  have hown : m.flushed shard = ((m.directory (m.blockShardId shard)).filter fun b =>
      b.logicalShard = shard && b.returned).flatMap Block.entries := by
    rw [BlockManager.flushed, BlockManager.directory, List.filter_filter]
    congr 1
    apply List.filter_congr
    intro b _
    by_cases hb : b.logicalShard = shard
    · simp [hb]
    · simp [hb]
  have haccounts : m.Accounts shard ↔
      (m.directory (m.blockShardId shard)).flatMap Block.opened = m.flushed shard := by
    constructor
    · intro haccounts
      obtain ⟨es, hes, hall⟩ := haccounts sampleTime
      rw [h.iterEntries] at hes
      obtain rfl := Except.ok.inj hes
      rw [h.accounted] at hall
      exact List.append_cancel_right hall
    · intro hsame now
      exact ⟨_, h.iterEntries now shard, by rw [hsame, h.accounted]⟩
  rw [haccounts, hown, Batched.flatMap_eq_filter_iff]
  · simp only [Bool.and_eq_true, decide_eq_true_eq]
  · intro b hb
    exact BlockManager.opened_ne_nil (h.nonempty b (List.mem_of_mem_filter hb))
  · intro b _
    rw [Block.opened, List.length_map]

/-! ### Samples -/

/-- An entry of a logical shard. -/
def shardEntry (shard content : PyStr) : Entry FloatLit :=
  { sampleEntry content (.dict []) with shard := .str shard }

/-- The manager after some entries, with a block size. -/
def managedSample (blockSize : ℤ) (entries : List (Entry FloatLit)) : BlockManager FloatLit :=
  managed sampleConfig (fun _ => []) blockSize
    (entries.map fun e => .append (.written, sampleTime) e)

/-- The contents of what is read. -/
def contentsOf (r : Except PyError (List (Entry FloatLit))) : Except PyError (List (PyVal FloatLit)) :=
  r.map (List.map Entry.content)

/-- Two entries in one block. -/
def pairSample : BlockManager FloatLit :=
  managedSample 2 [shardEntry (py "s") (py "one"), shardEntry (py "s") (py "two")]

theorem backed_pairSample : pairSample.Backed := backed_managed ..

/-- **Of two entries in one block the older one is read first.** -/
theorem not_readsNewest : ¬pairSample.ReadsNewest (py "s") := by
  intro h
  have hread := (h sampleTime 1).2
  rw [backed_pairSample.read] at hread
  have hcontents := congrArg contentsOf hread
  revert hcontents
  decide +kernel

/-- **The newest entry that is read is not the last one gone through.** -/
theorem not_agrees : ¬pairSample.Agrees (py "s") := by
  intro h
  obtain ⟨es, hes, hread⟩ := h sampleTime
  rw [backed_pairSample.iterEntries] at hes
  obtain rfl := Except.ok.inj hes
  have hlast := hread 1
  rw [backed_pairSample.read] at hlast
  have hcontents := congrArg contentsOf hlast
  revert hcontents
  decide +kernel

/-- A manager that appends every entry at once. -/
def singleSample : BlockManager FloatLit := managedSample 1 [shardEntry (py "a") (py "one")]

/-- **An entry of one logical shard is gone through in another of the same block shard.** -/
theorem not_accounts : ¬singleSample.Accounts (py "shard_a") := by
  intro h
  obtain ⟨es, hes, hall⟩ := h sampleTime
  have hbacked : singleSample.Backed := backed_managed ..
  rw [hbacked.iterEntries] at hes
  obtain rfl := Except.ok.inj hes
  have hcontents := congrArg (List.map Entry.content) hall
  revert hcontents
  decide +kernel

end Daryl
