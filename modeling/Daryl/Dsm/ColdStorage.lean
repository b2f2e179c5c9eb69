import Daryl.Dsm.Isolation

/-!
# `cold_storage`: archives of shards

A shard is exported to an archive, one JSON document with all its entries, and restored by
appending the entries of the archive one by one.  An append chains and hashes what it is
given anew and looks for no duplicates, so an archive that is restored again is appended
again.

The archive directory is a list of files; compression is left out.

## Main definitions

* `exportShard`, `restore` — `ColdStorage.export` and `ColdStorage.restore`.
* `Disk.entries` — the entries of a shard, oldest first.
* `Entry.Same` — the same values, up to the order of dicts, and the same hashes.

## Main results

* `restore_spec` — **restoring appends the archived entries to what is there.**
* `coldStorage_iff` — what an archive brings back, and that it is never restored twice
  without a trace.
-/

namespace Daryl

open Py Json HashChain

/-- `limit=10**7`. -/
def exportLimit : ℕ := 10 ^ 7

theorem max_exportLimit : max exportLimit 1 = exportLimit := by decide

/-- The style of an archive: sorted, `ensure_ascii=False`. -/
def archiveStyle : Style := ⟨false, true, true⟩

/-- The files of the archive directory. -/
abbrev Backend := List (PyStr × List Byte)

/-- `LocalBackend._path`. -/
def archivePath (shardId : PyStr) : PyStr :=
  replace (py "/") (py "_") (replace (py ":") (py "_") shardId) ++ py ".json.gz"

/-- `ArchiveResult`. -/
structure ArchiveResult where
  shardId : PyStr
  path : PyStr
  entryCount : ℕ
  finalHash : PyStr
  sizeBytes : ℕ
  archivedAt : Datetime
  ok : Bool
  error : Option PyStr

variable {F : Type} [PyFloat F]

/-! ### Exporting -/

/-- The dict of an archived entry. -/
def archivedEntry (e : Entry F) : PyVal F :=
  .dict (strItems [
    (py "id", e.id),
    (py "timestamp", .str e.timestamp.isoformat),
    (py "session_id", e.sessionId),
    (py "source", e.source),
    (py "content", e.content),
    (py "shard", e.shard),
    (py "hash", e.hash),
    (py "prev_hash", e.prevHash),
    (py "metadata", e.metadata),
    (py "version", e.version)])

/-- `archive_data`, without its hash; the entries are given oldest first. -/
def archiveData (shardId : PyStr) (archivedAt : Datetime) (chrono : List (Entry F)) :
    List (PyStr × PyVal F) :=
  [(py "shard_id", .str shardId),
    (py "archived_at", .str archivedAt.isoformat),
    (py "entry_count", .int chrono.length),
    (py "entries", .list (chrono.map archivedEntry))]

/-- `json.dumps(...).encode("utf-8")`. -/
def archiveBytes (data : List (PyStr × PyVal F)) : Except PyError (List Byte) :=
  match dumpsSorted archiveStyle (.dict (strItems data)) with
  | .error e => .error (DumpsError.toPyError e)
  | .ok text => if Encodable text then .ok (utf8Bytes text) else .error .unicodeEncodeError

/-- The first entry behind another that names a hash, and not that of the other. -/
def chainBreakFrom (i : ℕ) (last : Entry F) : List (Entry F) → Option ℕ
  | [] => none
  | e :: es =>
    if e.prevHash.truthy && !pyEq e.prevHash last.hash then some i else chainBreakFrom (i + 1) e es

/-- The check of `verify_first`. -/
def chainBreak : List (Entry F) → Option ℕ
  | [] => none
  | e :: es => chainBreakFrom 1 e es

/-- An export that is refused. -/
def refusedArchive (shardId : PyStr) (entryCount : ℕ) (now : Datetime) (error : PyStr) :
    ArchiveResult where
  shardId
  path := []
  entryCount
  finalHash := []
  sizeBytes := 0
  archivedAt := now
  ok := false
  error := some error

/-- The entries, read newest first and put in order, are written to the backend. -/
def writeArchive (sha : Sha256) (shardId : PyStr) (now : Datetime) (backend : Backend)
    (chrono : List (Entry F)) : Except PyError ArchiveResult × Backend :=
  let data := archiveData shardId now chrono
  match archiveBytes data with
  | .error e => (.error e, backend)
  | .ok hashed =>
    let archiveHash := hexdigest sha hashed
    match archiveBytes (data ++ [(py "archive_hash", .str archiveHash)]) with
    | .error e => (.error e, backend)
    | .ok bytes =>
      (.ok ⟨shardId, archivePath shardId, chrono.length, archiveHash, bytes.length, now, true, none⟩,
        Dict.set (archivePath shardId) bytes backend)

/-- `ColdStorage.export`. -/
def exportShard (sha : Sha256) (d : Disk F) (shardId : PyStr) (verifyFirst : Bool) (now : Datetime)
    (backend : Backend) : Except PyError ArchiveResult × Backend :=
  match d.read shardId 0 exportLimit with
  | .error e => (.error e, backend)
  | .ok [] => (.ok (refusedArchive shardId 0 now (py "shard is empty")), backend)
  | .ok (newest :: older) =>
    let chrono := (newest :: older).reverse
    match if verifyFirst then chainBreak chrono else none with
    | some i =>
      (.ok (refusedArchive shardId chrono.length now (py "chain break at entry " ++ natStr i)),
        backend)
    | none => writeArchive sha shardId now backend chrono

/-! ### Restoring -/

/-- What a restore may raise. -/
inductive RestoreError
  | keyError
  | typeError
  | valueError
  | attributeError
  deriving DecidableEq

/-- What a restore returns; `restored` is the one that is `ok`. -/
inductive RestoreResult
  | notFound
  | corrupt
  | restored (restored skipped : ℕ)
  deriving DecidableEq

/-- The entry `restore` makes of an archived one, with its defaults. -/
def archivedItems (shardId : PyStr) (id : PyVal F) (timestamp : Datetime)
    (kvs : List (Key F × PyVal F)) : Entry F where
  id
  timestamp
  sessionId := (dictGet (py "session_id") kvs).getD (.str [])
  source := (dictGet (py "source") kvs).getD (.str [])
  content := (dictGet (py "content") kvs).getD (.str [])
  shard := (dictGet (py "shard") kvs).getD (.str shardId)
  hash := (dictGet (py "hash") kvs).getD (.str [])
  prevHash := (dictGet (py "prev_hash") kvs).getD .none
  metadata := (dictGet (py "metadata") kvs).getD (.dict [])
  version := (dictGet (py "version") kvs).getD (.str (py "v2.0"))

/-- The entry of an archived dict; what is no dict has no items. -/
def entryOfArchived (shardId : PyStr) : PyVal F → Except RestoreError (Entry F)
  | .dict kvs =>
    match dictGet (py "id") kvs with
    | none => .error .keyError
    | some id =>
      match dictGet (py "timestamp") kvs with
      | none => .error .keyError
      | some (.str text) =>
        match fromisoformat text with
        | some timestamp => .ok (archivedItems shardId id timestamp kvs)
        | none => .error .valueError
      | some _ => .error .typeError
  | _ => .error .typeError

/-- What a loop over a value goes through. -/
def iterated : PyVal F → Except RestoreError (List (PyVal F))
  | .list vs => .ok vs
  | .tuple vs => .ok vs
  | .dict kvs => .ok (kvs.map fun kv => .str kv.1.text)
  | .str s => .ok (s.map fun c => .str [c])
  | _ => .error .typeError

/-- The counters and the storage. -/
structure RestoreState (F : Type) where
  restored : ℕ
  skipped : ℕ
  disk : Disk F

/-- `restored += 1`, or `skipped += 1` when the append raises. -/
def RestoreState.append (cfg : Config) (now : Datetime) (entry : Entry F) (st : RestoreState F) :
    RestoreState F :=
  match st.disk.append cfg now entry with
  | (.ok _, d) => ⟨st.restored + 1, st.skipped, d⟩
  | (.error _, d) => ⟨st.restored, st.skipped + 1, d⟩

/-- One entry.  A shard that is no string and counts as true has no family, so the append
raises before it does anything. -/
def restoreEntry (cfg : Config) (now : Datetime) (entry : Entry F) (st : RestoreState F) :
    RestoreState F :=
  match entry.shard with
  | .str _ => st.append cfg now entry
  | v => if v.truthy then { st with skipped := st.skipped + 1 } else st.append cfg now entry

/-- The loop; `clock` tells the time of every append. -/
def restoreEntries (cfg : Config) (shardId : PyStr) (clock : ℕ → Datetime) :
    List (PyVal F) → RestoreState F → Except RestoreError Unit × RestoreState F
  | [], st => (.ok (), st)
  | ed :: eds, st =>
    match entryOfArchived shardId ed with
    | .error e => (.error e, st)
    | .ok entry =>
      restoreEntries cfg shardId clock eds
        (restoreEntry cfg (clock (st.restored + st.skipped)) entry st)

/-- The entries of an archive are appended. -/
def restoreArchive (cfg : Config) (shardId : PyStr) (clock : ℕ → Datetime) (d : Disk F) :
    PyVal F → Except RestoreError RestoreResult × Disk F
  | .dict kvs =>
    match iterated ((dictGet (py "entries") kvs).getD (.list [])) with
    | .error e => (.error e, d)
    | .ok eds =>
      match restoreEntries cfg shardId clock eds ⟨0, 0, d⟩ with
      | (.error e, st) => (.error e, st.disk)
      | (.ok (), st) => (.ok (.restored st.restored st.skipped), st.disk)
  | _ => (.error .attributeError, d)

/-- `ColdStorage.restore`. -/
def restore (cfg : Config) (backend : Backend) (shardId : PyStr) (clock : ℕ → Datetime)
    (d : Disk F) : Except RestoreError RestoreResult × Disk F :=
  match Dict.get (archivePath shardId) backend with
  | none => (.ok .notFound, d)
  | some bytes =>
    match decodeUtf8 bytes with
    | none => (.ok .corrupt, d)
    | some text =>
      match loads text with
      | none => (.ok .corrupt, d)
      | some archive => restoreArchive cfg shardId clock d archive

/-! ### The entries of a shard -/

/-- The entries of a shard, oldest first. -/
def Disk.entries (d : Disk F) (shardId : PyStr) : Except PyError (List (Entry F)) :=
  chronoEntries (d.shard shardId).family

/-- The data directory after the appends to one shard. -/
def ownDisk (cfg : Config) (shardId : PyStr) (is : List (Datetime × Entry F)) : Disk F :=
  diskAfter cfg (is.filter fun i => i.2.shardId = shardId)

/-- The shard holds these entries, and is read from its directory. -/
structure Holds (sha : Sha256) (shardId : PyStr) (d : Disk F) (es : List (Entry F)) : Prop where
  intact : Intact sha shardId (d.shard shardId) es es.length
  read : ∀ limit, d.read shardId 0 limit = readSegmented (d.shard shardId).family 0 limit

theorem holds_empty (sha : Sha256) (shardId : PyStr) : Holds sha shardId (Disk.empty F) [] where
  intact := intact_empty sha shardId (familyName shardId)
  read := fun _ => rfl

theorem Holds.chain {sha : Sha256} {shardId : PyStr} {d : Disk F} {es : List (Entry F)}
    (h : Holds sha shardId d es) : SealedChain sha es := by
  obtain ⟨⟨segs, hhist, -⟩, -⟩ := h.intact
  exact hhist.chain

theorem Holds.recorded {sha : Sha256} {shardId : PyStr} {d : Disk F} {es : List (Entry F)}
    (h : Holds sha shardId d es) : ∀ e ∈ es, ∃ line, Recorded shardId e line := by
  obtain ⟨⟨segs, hhist, -⟩, -⟩ := h.intact
  exact exists_recorded hhist.lines

/-- What a shard holds is read back. -/
theorem Holds.entries {sha : Sha256} {shardId : PyStr} {d : Disk F} {es : List (Entry F)}
    (h : Holds sha shardId d es) : d.entries shardId = .ok (es.map (Entry.readBack shardId)) := by
  obtain ⟨⟨segs, hhist, hclean⟩, -⟩ := h.intact
  exact chronoEntries_history hhist (quiet_of_clean hclean)

/-- A shard that was appended to has a directory. -/
theorem holds_setShard {sha : Sha256} {shardId : PyStr} (d : Disk F) {s : Shard F}
    {es : List (Entry F)} (h : Intact sha shardId s es es.length) :
    Holds sha shardId (d.setShard shardId s) es where
  intact := by
    rw [Disk.shard_setShard]
    exact h
  read := fun limit => by rw [read_setShard, Disk.shard_setShard]

/-- **An append adds its entry to what a shard holds, or nothing.** -/
theorem holds_append {cfg : Config} {shardId : PyStr} {d : Disk F} {es : List (Entry F)}
    (h : Holds cfg.sha shardId d es) (now : Datetime) {e : Entry F} (hid : e.shardId = shardId) :
    (∃ e' d', d.append cfg now e = (.ok e', d') ∧ Holds cfg.sha shardId d' (es ++ [e']) ∧
      ∃ p hash, e' = { e with prevHash := p, hash := hash }) ∨
    ∃ err d', d.append cfg now e = (.error err, d') ∧ Holds cfg.sha shardId d' es := by
  rw [Disk.append, hid]
  unfold Disk.appendTo
  rcases intact_append now h.intact e with ⟨e', s', happend, hint, he'⟩ | ⟨err, s', happend, hint⟩
  · rw [happend]
    refine .inl ⟨e', _, rfl, holds_setShard d ?_, he'⟩
    rw [List.length_append, List.length_singleton]
    exact hint
  · rw [happend]
    exact .inr ⟨err, _, rfl, holds_setShard d hint⟩

/-- A run of appends to a shard leaves it holding some entries. -/
theorem exists_holds (cfg : Config) (shardId : PyStr) (is : List (Datetime × Entry F)) :
    ∃ es, Holds cfg.sha shardId (ownDisk cfg shardId is) es := by
  have hto : ∀ i ∈ is.filter fun i => i.2.shardId = shardId, i.2.shardId = shardId :=
    fun i hi => of_decide_eq_true (List.mem_filter.mp hi).2
  unfold ownDisk
  generalize is.filter (fun i => i.2.shardId = shardId) = js at hto
  induction js using List.reverseRecOn with
  | nil => exact ⟨[], holds_empty _ _⟩
  | append_singleton js i ih =>
    obtain ⟨es, hes⟩ := ih fun j hj => hto j (List.mem_append_left _ hj)
    have hstep : diskAfter cfg (js ++ [i]) = ((diskAfter cfg js).append cfg i.1 i.2).2 :=
      Run.run_append _ _ _
    rw [hstep]
    rcases holds_append hes i.1 (hto i (by simp)) with
      ⟨e', d', happend, hd', -⟩ | ⟨err, d', happend, hd'⟩
    · rw [happend]
      exact ⟨_, hd'⟩
    · rw [happend]
      exact ⟨_, hd'⟩

/-! ### What an archive holds -/

/-- The entry of a line can be hashed and written again. -/
theorem Entry.Dumps.readBack {e : Entry F} (h : e.Dumps) (shardId : PyStr) :
    (e.readBack shardId).Dumps := by
  have printed : ∀ {st : Style} {v : PyVal F}, Printable st v ∧ eachStr Encodable v →
      Printable st (Py.readBack v) ∧ eachStr Encodable (Py.readBack v) := by
    rintro st v ⟨hprint, hencodable⟩
    have hreadable := printable_readBack hprint
    obtain ⟨w, -, hw, -⟩ := hprint
    exact ⟨hreadable, eachStr_readBack hw hencodable⟩
  exact ⟨printed h.id, printed h.sessionId, printed h.source, printed h.metadata,
    printed h.content, printed h.version⟩

/-- The archive holds these entries. -/
def Archived (shardId : PyStr) (backend : Backend) (xs : List (Entry F)) : Prop :=
  ∃ text kvs, Dict.get (archivePath shardId) backend = some (utf8Bytes text) ∧ Encodable text ∧
    loads (F := F) text = some (.dict kvs) ∧
      dictGet (py "entries") kvs = some (.list (xs.map (Entry.stored shardId)))

/-- A writable object is archived, and read back. -/
theorem exists_archiveBytes {ps : List (PyStr × PyVal F)} (h : Writable (.dict (strItems ps))) :
    ∃ text, archiveBytes ps = .ok (utf8Bytes text) ∧ Encodable text ∧
      loads text = some (readBack (.dict (strItems ps) : PyVal F)) := by
  obtain ⟨⟨w, -, hw, -⟩, hencodable⟩ := h
  obtain ⟨text, htext⟩ := exists_print (show archiveStyle.allowNan = true from rfl) w
  have henc : Encodable text :=
    (encodable_print rfl htext).mpr ((eachStr_of_sortDicts hw).mpr hencodable)
  refine ⟨text, ?_, henc, ?_⟩
  · unfold archiveBytes
    rw [dumpsSorted_eq_ok.mpr ⟨w, hw, htext⟩]
    exact if_pos henc
  · rw [loads_print htext (by simp [archiveStyle]), readBack_of_sortDicts hw]

/-- **Entries are written to an archive and read from it.** -/
theorem writeArchive_spec (sha : Sha256) {shardId : PyStr} (now : Datetime) (backend : Backend)
    {xs : List (Entry F)} (hs : Encodable shardId)
    (h : ∀ x ∈ xs, x.shard = .str shardId ∧ Writable (entryDict shardId x)) :
    ∃ r backend', writeArchive sha shardId now backend xs = (.ok r, backend') ∧ r.ok = true ∧
      Archived shardId backend' xs := by
  have hitems : xs.map archivedEntry = xs.map (entryDict shardId) := by
    refine List.map_congr_left fun x hx => ?_
    rw [archivedEntry, entryDict, (h x hx).1]
  obtain ⟨ws, hws⟩ : ∃ ws, sortDictsList (xs.map (entryDict shardId)) = some ws := by
    apply exists_sortDictsList
    intro v hv
    obtain ⟨x, hx, rfl⟩ := List.mem_map.mp hv
    obtain ⟨⟨w, -, hw, -⟩, -⟩ := (h x hx).2
    exact ⟨w, hw⟩
  have hlist : Writable (.list (xs.map (entryDict shardId))) := by
    have hsort : sortDicts (.list (xs.map (entryDict shardId))) = some (.list ws) := by
      rw [sortDicts, hws, Option.map_some]
    refine ⟨printable_lineStyle hsort, ?_⟩
    refine eachStrList_iff.mpr fun v hv => ?_
    obtain ⟨x, hx, rfl⟩ := List.mem_map.mp hv
    exact (h x hx).2.2
  have hdata : ∀ p ∈ archiveData shardId now xs, Encodable p.1 ∧ Writable p.2 := by
    rw [archiveData, hitems]
    simp only [List.forall_mem_cons]
    exact ⟨writableField (by decide) (dumpable_str hs).writable,
      writableField (by decide) (dumpable_str (encodable_isoformat now)).writable,
      writableField (by decide) ⟨printable_lineStyle rfl, trivial⟩,
      writableField (by decide) hlist, List.forall_mem_nil _⟩
  obtain ⟨text, hbytes, -, -⟩ := exists_archiveBytes (writable_object hdata)
  -- the archive is written once more, with its hash
  have hhash : Encodable (hexdigest sha (utf8Bytes text)) :=
    (encodable_append.mp (encodable_hash sha (utf8Bytes text))).2
  have hhashed : ∀ p ∈ archiveData shardId now xs ++
      [(py "archive_hash", .str (hexdigest sha (utf8Bytes text)))], Encodable p.1 ∧ Writable p.2 := by
    intro p hp
    rcases List.mem_append.mp hp with hp | hp
    · exact hdata p hp
    · obtain rfl := List.mem_singleton.mp hp
      exact writableField (by decide) (dumpable_str hhash).writable
  have hwritable := writable_object hhashed
  obtain ⟨text', hbytes', hencodable, hloads⟩ := exists_archiveBytes hwritable
  obtain ⟨⟨w, -, hw, -⟩, -⟩ := hwritable
  have hkeys : ((archiveData shardId now xs ++
      [(py "archive_hash", (.str (hexdigest sha (utf8Bytes text)) : PyVal F))]).map
        Prod.fst).Nodup := by
    change [py "shard_id", py "archived_at", py "entry_count", py "entries",
      py "archive_hash"].Nodup
    decide
  obtain ⟨kvs, hdict, hget⟩ := dictGet_readBack hkeys hw
    (show (py "entries", .list (xs.map (entryDict shardId))) ∈ _ by simp [archiveData, hitems])
  rw [readBack_list hws, List.map_map] at hget
  rw [hdict] at hloads
  refine ⟨⟨shardId, archivePath shardId, xs.length, hexdigest sha (utf8Bytes text),
    (utf8Bytes text').length, now, true, none⟩, Dict.set (archivePath shardId) (utf8Bytes text')
      backend, ?_, rfl, text', kvs, Dict.get_set_self _ _ backend, hencodable, hloads, hget⟩
  unfold writeArchive
  simp only [hbytes, hbytes']

/-! ### Exporting a shard -/

/-- The entries that are exported: the last ones, as many as the limit says. -/
def exported (shardId : PyStr) (es : List (Entry F)) : List (Entry F) :=
  (es.map (Entry.readBack shardId)).drop (es.length - exportLimit)

theorem exported_of_le {shardId : PyStr} {es : List (Entry F)} (h : es.length ≤ exportLimit) :
    exported shardId es = es.map (Entry.readBack shardId) := by
  rw [exported, Nat.sub_eq_zero_of_le h, List.drop_zero]

theorem length_exported (shardId : PyStr) (es : List (Entry F)) :
    (exported shardId es).length = min exportLimit es.length := by
  rw [exported, List.length_drop, List.length_map]
  omega

theorem exists_of_mem_exported {shardId : PyStr} {es : List (Entry F)} {x : Entry F}
    (h : x ∈ exported shardId es) : ∃ e ∈ es, x = e.readBack shardId := by
  obtain ⟨e, he, rfl⟩ := List.mem_map.mp (List.mem_of_mem_drop h)
  exact ⟨e, he, rfl⟩

theorem chainBreakFrom_linked {last : Entry F} {xs : List (Entry F)} (i : ℕ)
    (h : Linked Entry.hash Entry.prevHash (last :: xs))
    (hstr : ∀ x ∈ last :: xs, ∃ t, x.hash = .str t) : chainBreakFrom i last xs = none := by
  induction xs generalizing last i with
  | nil => rfl
  | cons x xs ih =>
    obtain ⟨hx, hrest⟩ := List.isChain_cons_cons.mp h
    obtain ⟨t, ht⟩ := hstr last List.mem_cons_self
    have heq : pyEq x.prevHash last.hash = true := by
      rw [hx, ht]
      exact pyEq_str_right.mpr rfl
    rw [chainBreakFrom, heq, Bool.not_true, Bool.and_false, if_neg Bool.false_ne_true]
    exact ih (i + 1) hrest fun y hy => hstr y (List.mem_cons_of_mem _ hy)

/-- A chain of entries with hashes passes the check. -/
theorem chainBreak_linked {xs : List (Entry F)} (h : Linked Entry.hash Entry.prevHash xs)
    (hstr : ∀ x ∈ xs, ∃ t, x.hash = .str t) : chainBreak xs = none := by
  cases xs with
  | nil => rfl
  | cons x xs => exact chainBreakFrom_linked 1 h hstr

/-- The entries of a shard, read back, can be archived. -/
theorem Holds.writable {sha : Sha256} {shardId : PyStr} {d : Disk F} {es : List (Entry F)}
    (h : Holds sha shardId d es) (hs : Encodable shardId) {e : Entry F} (he : e ∈ es) :
    Writable (entryDict shardId (e.readBack shardId)) := by
  obtain ⟨line, hrec⟩ := h.recorded e he
  have hsealed := h.chain.hashes e he
  refine ((hrec.dumps hsealed).readBack shardId).writable ?_ ?_ hs
  · rw [hsealed.readBack_hash]
    obtain ⟨bs, -, hhash⟩ := hsealed
    rw [hhash]
    exact dumpable_str (encodable_hash _ _)
  · have hprev := hrec.encodable_prevHash
    rw [h.chain.readBack_prevHash he]
    rcases h.chain.link e he with hp | ⟨t, hp⟩
    · rw [hp]
      exact dumpable_none
    · rw [hp] at hprev ⊢
      exact dumpable_str hprev

/-- **What a shard holds is exported**: the check of its chain finds nothing. -/
theorem exportShard_spec {sha : Sha256} {shardId : PyStr} {d : Disk F} {es : List (Entry F)}
    (h : Holds sha shardId d es) (hs : Encodable shardId) (verifyFirst : Bool) (now : Datetime)
    (backend : Backend) (hne : es ≠ []) :
    ∃ r backend', exportShard sha d shardId verifyFirst now backend = (.ok r, backend') ∧
      r.ok = true ∧ Archived shardId backend' (exported shardId es) := by
  have hread : d.read shardId 0 exportLimit = .ok (exported shardId es).reverse := by
    rw [h.read, readSegmented_chrono h.entries, max_exportLimit, List.take_reverse, exported,
      List.length_map]
  have hlinked : Linked Entry.hash Entry.prevHash (exported shardId es) :=
    List.IsChain.drop (linked_readBack h.chain) _
  have hbreak : chainBreak (exported shardId es) = none := by
    refine chainBreak_linked hlinked fun x hx => ?_
    obtain ⟨e, he, rfl⟩ := exists_of_mem_exported hx
    obtain ⟨bs, -, hhash⟩ := h.chain.hashes e he
    exact ⟨_, (h.chain.hashes e he).readBack_hash.trans hhash⟩
  have hpos : 0 < (exported shardId es).length := by
    rw [length_exported]
    exact lt_min (by decide) (List.length_pos_iff.mpr hne)
  obtain ⟨newest, older, hreverse⟩ : ∃ newest older,
      (exported shardId es).reverse = newest :: older := by
    cases hrev : (exported shardId es).reverse with
    | nil =>
      rw [List.reverse_eq_nil_iff.mp hrev] at hpos
      exact absurd hpos (lt_irrefl 0)
    | cons newest older => exact ⟨newest, older, rfl⟩
  have hchrono : (newest :: older).reverse = exported shardId es := by
    rw [← hreverse, List.reverse_reverse]
  have hwritable : ∀ x ∈ exported shardId es,
      x.shard = .str shardId ∧ Writable (entryDict shardId x) := by
    intro x hx
    obtain ⟨e, he, rfl⟩ := exists_of_mem_exported hx
    exact ⟨rfl, h.writable hs he⟩
  obtain ⟨r, backend', hwrite, hok, harchived⟩ :=
    writeArchive_spec sha now backend hs hwritable
  refine ⟨r, backend', ?_, hok, harchived⟩
  unfold exportShard
  rw [hread, hreverse]
  simp only [hchrono, hbreak, ite_self, hwrite]

/-! ### Restoring an archive -/

/-- The entry a restore makes of an archived one is the archived one, read back. -/
theorem entryOfArchived_stored {shardId : PyStr} {x : Entry F}
    (h : Writable (entryDict shardId x)) :
    entryOfArchived shardId (x.stored shardId) = .ok (x.readBack shardId) := by
  obtain ⟨⟨w, -, hw, -⟩, -⟩ := h
  rw [stored_eq hw]
  have htime : dictGet (py "timestamp") (x.record shardId).items
      = some (.str x.timestamp.isoformat) := rfl
  have hid : dictGet (py "id") (x.record shardId).items = some (x.record shardId).id := rfl
  simp only [entryOfArchived, hid, htime, fromisoformat_isoformat]
  rfl

/-- The entry was chained and hashed anew, from the archived one. -/
def Resealed (shardId : PyStr) (f x : Entry F) : Prop :=
  ∃ p hash, f = { x.readBack shardId with prevHash := p, hash := hash }

/-- The tip of a chain can be named. -/
theorem SealedChain.dumpable_tip {sha : Sha256} {es : List (Entry F)} (h : SealedChain sha es) :
    Dumpable (tip es) := by
  rw [tip]
  cases hlast : es.getLast? with
  | none => exact dumpable_none
  | some e =>
    obtain ⟨bs, -, hhash⟩ := h.hashes e (List.mem_of_getLast? hlast)
    rw [Option.map_some, Option.getD_some, hhash]
    exact dumpable_str (encodable_hash _ _)

/-- An entry that can be hashed and written is appended. -/
theorem holds_append_dumps {cfg : Config} {shardId : PyStr} {d : Disk F} {es : List (Entry F)}
    (h : Holds cfg.sha shardId d es) (hs : Encodable shardId) (now : Datetime) {e : Entry F}
    (hid : e.shardId = shardId) (he : e.Dumps) :
    ∃ e' d', d.append cfg now e = (.ok e', d') ∧ Holds cfg.sha shardId d' (es ++ [e']) ∧
      ∃ p hash, e' = { e with prevHash := p, hash := hash } := by
  obtain ⟨⟨e', line⟩, hseal⟩ : ∃ r,
      sealEntry cfg.sha shardId e (getLastHash (d.shard shardId).pin) = .ok r := by
    refine exists_sealEntry he ?_ hs
    rw [getLastHash_pinned h.intact.pinned]
    exact h.chain.dumpable_tip
  obtain ⟨s', happend, hint, he'⟩ := intact_append_sealed now h.intact hseal
  rw [Disk.append, hid]
  unfold Disk.appendTo
  rw [happend]
  refine ⟨e', _, rfl, holds_setShard d ?_, he'⟩
  rw [List.length_append, List.length_singleton]
  exact hint

/-- Archived entries are appended one by one. -/
theorem restoreEntries_spec {cfg : Config} {shardId : PyStr} (hs : PlainId shardId)
    (clock : ℕ → Datetime) {xs : List (Entry F)}
    (hxs : ∀ x ∈ xs, x.Dumps ∧ Writable (entryDict shardId x)) {st : RestoreState F}
    {es : List (Entry F)} (h : Holds cfg.sha shardId st.disk es) :
    ∃ st' fs, restoreEntries cfg shardId clock (xs.map (Entry.stored shardId)) st = (.ok (), st') ∧
      st'.restored = st.restored + xs.length ∧ st'.skipped = st.skipped ∧
      Holds cfg.sha shardId st'.disk (es ++ fs) ∧ List.Forall₂ (Resealed shardId) fs xs := by
  induction xs generalizing st es with
  | nil =>
    refine ⟨st, [], rfl, rfl, rfl, ?_, List.Forall₂.nil⟩
    rw [List.append_nil]
    exact h
  | cons x xs ih =>
    obtain ⟨⟨hdumps, hwritable⟩, hrest⟩ := List.forall_mem_cons.mp hxs
    have hid : (x.readBack shardId).shardId = shardId := if_neg hs.ne
    obtain ⟨f, d', happend, hd', hf⟩ := holds_append_dumps h hs.encodable
      (clock (st.restored + st.skipped)) hid (hdumps.readBack shardId)
    have hstep : restoreEntry cfg (clock (st.restored + st.skipped)) (x.readBack shardId) st
        = ⟨st.restored + 1, st.skipped, d'⟩ := by
      change st.append cfg _ _ = _
      rw [RestoreState.append, happend]
    have hnext : Holds cfg.sha shardId
        (RestoreState.disk ⟨st.restored + 1, st.skipped, d'⟩) (es ++ [f]) := hd'
    obtain ⟨st', fs, hrun, hrestored, hskipped, hst', hfs⟩ := ih hrest hnext
    refine ⟨st', f :: fs, ?_, ?_, hskipped, ?_, List.Forall₂.cons hf hfs⟩
    · rw [List.map_cons, restoreEntries, entryOfArchived_stored hwritable]
      simp only
      rw [hstep]
      exact hrun
    · rw [hrestored, List.length_cons]
      dsimp only
      omega
    · rw [List.append_assoc, List.singleton_append] at hst'
      exact hst'

/-- **Restoring an archive appends all its entries to what the shard holds**, whatever that
is. -/
theorem restore_spec {cfg : Config} {shardId : PyStr} (hs : PlainId shardId)
    (clock : ℕ → Datetime) {xs : List (Entry F)} {backend : Backend}
    (hbackend : Archived shardId backend xs)
    (hxs : ∀ x ∈ xs, x.Dumps ∧ Writable (entryDict shardId x)) {d : Disk F} {es : List (Entry F)}
    (h : Holds cfg.sha shardId d es) :
    ∃ d' fs, restore cfg backend shardId clock d = (.ok (.restored xs.length 0), d') ∧
      Holds cfg.sha shardId d' (es ++ fs) ∧ List.Forall₂ (Resealed shardId) fs xs := by
  obtain ⟨text, kvs, hget, hencodable, hloads, hentries⟩ := hbackend
  have hstart : Holds cfg.sha shardId (RestoreState.disk ⟨0, 0, d⟩) es := h
  obtain ⟨st', fs, hrun, hrestored, hskipped, hst', hfs⟩ := restoreEntries_spec hs clock hxs hstart
  refine ⟨st'.disk, fs, ?_, hst', hfs⟩
  unfold restore
  rw [hget]
  simp only [decodeUtf8_utf8Bytes hencodable, hloads]
  simp only [restoreArchive, hentries, Option.getD_some, iterated, hrun, hrestored, hskipped,
    Nat.zero_add]

/-! ### What comes back -/

/-- Two entries are the same: the same hashes, and the same values up to the order of
dicts. -/
structure Entry.Same (e e' : Entry F) : Prop where
  id : canon e.id = canon e'.id
  timestamp : e.timestamp = e'.timestamp
  sessionId : canon e.sessionId = canon e'.sessionId
  source : canon e.source = canon e'.source
  content : canon e.content = canon e'.content
  shard : e.shard = e'.shard
  hash : e.hash = e'.hash
  prevHash : e.prevHash = e'.prevHash
  metadata : canon e.metadata = canon e'.metadata
  version : canon e.version = canon e'.version

/-- A shard has the same entries in two storages, in the same order. -/
def SameEntries (shardId : PyStr) (d d' : Disk F) : Prop :=
  ∃ ds ds', d.entries shardId = .ok ds ∧ d'.entries shardId = .ok ds' ∧
    List.Forall₂ Entry.Same ds' ds

/-- The entries of a shard are left as they were. -/
def Unchanged (shardId : PyStr) (d d' : Disk F) : Prop := d'.entries shardId = d.entries shardId

/-- A value that can be written reads back the second time as the first. -/
theorem canon_readBack_readBack {v : PyVal F} (h : Writable v) :
    canon (readBack (readBack (readBack v))) = canon (readBack v) := by
  obtain ⟨⟨w, -, hw, -⟩, -⟩ := h
  have hstable := stable_readBack hw
  obtain ⟨u, hu, -⟩ := sortDicts_of_stable hstable
  rw [canon_readBack (stable_readBack hu), canon_readBack hstable]

/-- A restored entry has the values of the exported one; what is left are its hashes. -/
theorem same_of_resealed {shardId : PyStr} {e f : Entry F} (he : e.Dumps)
    (hf : Resealed shardId f (e.readBack shardId))
    (hhash : (f.readBack shardId).hash = (e.readBack shardId).hash)
    (hprev : (f.readBack shardId).prevHash = (e.readBack shardId).prevHash) :
    (f.readBack shardId).Same (e.readBack shardId) := by
  obtain ⟨p, hash, rfl⟩ := hf
  exact {
    id := canon_readBack_readBack he.id
    timestamp := rfl
    sessionId := canon_readBack_readBack he.sessionId.writable
    source := canon_readBack_readBack he.source.writable
    content := canon_readBack_readBack he.content.writable
    shard := rfl
    hash := hhash
    prevHash := hprev
    metadata := canon_readBack_readBack he.metadata.writable
    version := canon_readBack_readBack he.version }

/-- The entries read back from a line are stable. -/
theorem Entry.Dumps.stable_readBack {e : Entry F} (h : e.Dumps) (shardId : PyStr) :
    (e.readBack shardId).Stable := by
  have stable : ∀ {v : PyVal F}, Dumpable v → Py.stable (Py.readBack v) = true := by
    rintro v ⟨⟨w, -, hw, -⟩, -⟩
    exact Py.stable_readBack hw
  exact ⟨stable h.sessionId, stable h.source, stable h.content, stable h.metadata⟩

/-- **A restored entry behind the same link has the hash of the exported one iff that hash
verifies.** -/
theorem hash_resealed_iff {sha : Sha256} {shardId : PyStr} {e f : Entry F} {line : PyStr}
    (hrec : Recorded shardId e line) (he : Sealed sha e) (hf : Sealed sha f)
    (hresealed : Resealed shardId f (e.readBack shardId)) (hlink : f.prevHash = e.prevHash)
    (hprev : e.prevHash = .none ∨ ∃ t, e.prevHash = .str t) :
    f.hash = e.hash ↔ hashOk sha (e.readBack shardId) = true := by
  have hdumps := (hrec.dumps he).readBack shardId
  obtain ⟨hback, hstable, hdumpable⟩ : readBack e.prevHash = e.prevHash ∧
      stable e.prevHash = true ∧ Dumpable e.prevHash := by
    have hencodable := hrec.encodable_prevHash
    rcases hprev with hp | ⟨t, hp⟩
    · rw [hp]
      exact ⟨rfl, rfl, dumpable_none⟩
    · rw [hp] at hencodable ⊢
      exact ⟨rfl, rfl, dumpable_str hencodable⟩
  have hlinkBack : (e.readBack shardId).prevHash = e.prevHash := hback
  -- the restored entry is hashed over the bytes of the exported one, as it was read
  obtain ⟨bs, hbs⟩ := hdumps.canonical hdumpable
  have hrestored : canonicalJson (buildCanonicalEntry ((e.readBack shardId).readBack shardId)
      (readBack e.prevHash)) = .ok bs :=
    canonicalJson_readBack ((hrec.dumps he).stable_readBack shardId) hstable hbs
  obtain ⟨bs', hbs', hfhash⟩ := hf
  obtain ⟨p, hash, rfl⟩ := hresealed
  rw [show p = e.prevHash from hlink] at hbs'
  rw [hback] at hrestored
  obtain rfl : bs = bs' := Except.ok.inj (hrestored.symm.trans hbs')
  rw [hashOk_iff, he.readBack_hash, hlinkBack, hbs, hfhash]
  obtain ⟨bs₀, -, hehash⟩ := id he
  constructor
  · intro heq
    exact ⟨he.truthy, bs, rfl, .inl heq.symm⟩
  · rintro ⟨-, _, hok, heq | heq⟩
    · rw [heq, Except.ok.inj hok]
    · -- the current version has a colon, the bare digest none
      rw [hehash, PyVal.str.injEq] at heq
      exact absurd (heq ▸ List.mem_append_left _ (by decide)) (colon_notMem_hexdigest sha _)

/-- **The restored hashes are the exported ones iff all of these verify.** -/
theorem hashes_resealed_iff {sha : Sha256} {shardId : PyStr} {es fs : List (Entry F)}
    (hes : SealedChain sha es) (hfs : SealedChain sha fs)
    (h : List.Forall₂ (fun f e => Resealed shardId f (e.readBack shardId) ∧
      ∃ line, Recorded shardId e line) fs es) :
    List.Forall₂ (fun f e => f.hash = e.hash ∧ f.prevHash = e.prevHash) fs es ↔
      ∀ e ∈ es, hashOk sha (e.readBack shardId) = true := by
  induction es using List.reverseRecOn generalizing fs with
  | nil =>
    obtain rfl := List.forall₂_nil_right_iff.mp h
    exact iff_of_true List.Forall₂.nil (by simp)
  | append_singleton es e ih =>
    obtain ⟨fs', last, rfl, hinit, hlast⟩ := Pointwise.exists_append h.flip
    obtain ⟨f, rest, ⟨hf, line, hrec⟩, hnil, rfl⟩ := List.forall₂_cons_left_iff.mp hlast
    obtain rfl := List.forall₂_nil_left_iff.mp hnil
    obtain ⟨hes', hse, hprev⟩ := hes.of_concat
    obtain ⟨hfs', hsf, hprev'⟩ := hfs.of_concat
    have hlink := hes.link e (by simp)
    rw [List.forall_mem_append, List.forall_mem_singleton, ← ih hes' hfs' hinit.flip]
    constructor
    · intro hall
      obtain ⟨gs, gs', heq, hgs, hgs'⟩ := Pointwise.exists_append hall.flip
      have hlength : fs'.length = gs.length := hinit.length_eq.symm.trans hgs.length_eq
      obtain ⟨rfl, rfl⟩ := List.append_inj heq hlength
      obtain ⟨hhash, hp⟩ : f.hash = e.hash ∧ f.prevHash = e.prevHash := by
        simpa using hgs'
      exact ⟨hgs.flip, (hash_resealed_iff hrec hse hsf hf hp hlink).mp hhash⟩
    · rintro ⟨hall, hok⟩
      -- the last of the two name the same tip
      have htip : f.prevHash = e.prevHash := by
        rw [hprev, hprev', tip, tip]
        rcases Pointwise.getLast?_cases hall with ⟨rfl, rfl⟩ | ⟨g, x, hg, hx, hgx, -⟩
        · rfl
        · rw [hg, hx, Option.map_some, Option.map_some, hgx]
      have hhash := (hash_resealed_iff hrec hse hsf hf htip hlink).mpr hok
      exact List.rel_append hall (List.Forall₂.cons ⟨hhash, htip⟩ List.Forall₂.nil)

/-- **A shard comes back the same iff all the hashes of its entries verify.** -/
theorem forall₂_same_iff {sha : Sha256} {shardId : PyStr} {d d' : Disk F} {es fs : List (Entry F)}
    (hes : Holds sha shardId d es) (hfs : Holds sha shardId d' fs)
    (h : List.Forall₂ (Resealed shardId) fs (es.map (Entry.readBack shardId))) :
    List.Forall₂ Entry.Same (fs.map (Entry.readBack shardId)) (es.map (Entry.readBack shardId)) ↔
      ∀ e ∈ es, hashOk sha (e.readBack shardId) = true := by
  have hmem := Pointwise.with_mem (List.forall₂_map_right_iff.mp h)
  have hresealed : List.Forall₂ (fun f e => Resealed shardId f (e.readBack shardId) ∧
      ∃ line, Recorded shardId e line) fs es :=
    hmem.imp fun f e ⟨_, he, hf⟩ => ⟨hf, hes.recorded e he⟩
  rw [← hashes_resealed_iff hes.chain hfs.chain hresealed, List.forall₂_map_left_iff,
    List.forall₂_map_right_iff]
  constructor
  · intro hsame
    refine (Pointwise.with_mem hsame).imp fun f e ⟨hf, he, hsame⟩ => ⟨?_, ?_⟩
    · have hhash := hsame.hash
      rw [(hfs.chain.hashes f hf).readBack_hash, (hes.chain.hashes e he).readBack_hash] at hhash
      exact hhash
    · have hprev := hsame.prevHash
      rw [hfs.chain.readBack_prevHash hf, hes.chain.readBack_prevHash he] at hprev
      exact hprev
  · intro heq
    refine List.Forall₂.mp (fun f e ⟨hf, he, hresealed⟩ ⟨hhash, hprev⟩ => ?_) hmem heq
    obtain ⟨line, hrec⟩ := hes.recorded e he
    refine same_of_resealed (hrec.dumps (hes.chain.hashes e he)) hresealed ?_ ?_
    · rw [(hfs.chain.hashes f hf).readBack_hash, (hes.chain.hashes e he).readBack_hash, hhash]
    · rw [hfs.chain.readBack_prevHash hf, hes.chain.readBack_prevHash he, hprev]

/-- Entries that were appended show. -/
theorem not_unchanged {sha : Sha256} {shardId : PyStr} {d d' : Disk F} {es fs : List (Entry F)}
    (h : Holds sha shardId d es) (h' : Holds sha shardId d' (es ++ fs)) (hfs : fs ≠ []) :
    ¬Unchanged shardId d d' := by
  intro heq
  rw [Unchanged, h.entries, h'.entries, Except.ok.injEq, List.map_append] at heq
  exact hfs (List.map_eq_nil_iff.mp (List.append_right_eq_self.mp heq))

/-- **Cold storage: what an archive brings back.**  A shard that was appended to, exported and
restored into an empty storage has the same entries iff the limit of the export admits them all
and the hash of each verifies on what is read of it; and restoring the archive once more, into
that storage or into the original one, leaves the shard alone only if it has no entry. -/
theorem coldStorage_iff (cfg : Config) (s : ShardName) (verifyFirst : Bool) (now : Datetime)
    (clock clock' clock'' : ℕ → Datetime) (is : List (Datetime × Entry F)) :
    let original := ownDisk cfg s.val is
    let archive := (exportShard cfg.sha original s.val verifyFirst now []).2
    let restored := (restore cfg archive s.val clock (Disk.empty F)).2
    ∃ ds, original.entries s.val = .ok ds ∧
      (SameEntries s.val original restored ↔ ds.length ≤ exportLimit ∧ Consistent cfg.sha ds) ∧
      (Unchanged s.val restored (restore cfg archive s.val clock' restored).2 ↔ ds = []) ∧
      (Unchanged s.val original (restore cfg archive s.val clock'' original).2 ↔ ds = []) := by
  intro original archive restored
  obtain ⟨es, hes⟩ := exists_holds cfg s.val is
  have hencodable := s.property.encodable
  refine ⟨_, hes.entries, ?_⟩
  rw [List.length_map, List.map_eq_nil_iff]
  by_cases hne : es = []
  · -- nothing is archived, and nothing restored
    subst hne
    have harchive : archive = [] := by
      have hread : original.read s.val 0 exportLimit = .ok [] := by
        rw [hes.read, readSegmented_chrono hes.entries]
        rfl
      change (exportShard _ _ _ _ _ _).2 = []
      unfold exportShard
      rw [hread]
    have hrestored : restored = Disk.empty F := by
      change (restore _ _ _ _ _).2 = _
      rw [harchive]
      rfl
    rw [harchive, hrestored]
    refine ⟨iff_of_true ?_ ⟨Nat.zero_le _, by simp, linked_nil⟩, iff_of_true rfl rfl,
      iff_of_true rfl rfl⟩
    exact ⟨[], [], hes.entries, (holds_empty cfg.sha s.val).entries, List.Forall₂.nil⟩
  · obtain ⟨r, backend, hexport, -, harchived⟩ :=
      exportShard_spec hes hencodable verifyFirst now [] hne
    have harchive : archive = backend := by
      change (exportShard _ _ _ _ _ _).2 = _
      rw [hexport]
    have hxs : ∀ x ∈ exported s.val es, x.Dumps ∧ Writable (entryDict s.val x) := by
      intro x hx
      obtain ⟨e, he, rfl⟩ := exists_of_mem_exported hx
      obtain ⟨line, hrec⟩ := hes.recorded e he
      exact ⟨(hrec.dumps (hes.chain.hashes e he)).readBack s.val, hes.writable hencodable he⟩
    have hpos : ∀ {fs : List (Entry F)}, List.Forall₂ (Resealed s.val) fs (exported s.val es) →
        fs ≠ [] := by
      rintro fs hfs rfl
      have hlength := hfs.length_eq
      rw [length_exported, List.length_nil] at hlength
      have := List.length_pos_iff.mpr hne
      have : 0 < exportLimit := by decide
      omega
    obtain ⟨d, fs, hrestore, hd, hfs⟩ := restore_spec s.property clock harchived hxs
      (holds_empty cfg.sha s.val)
    rw [List.nil_append] at hd
    have hrestored : restored = d := by
      change (restore _ archive _ _ _).2 = _
      rw [harchive, hrestore]
    obtain ⟨d', fs', hrestore', hd', hfs'⟩ := restore_spec s.property clock' harchived hxs hd
    obtain ⟨d'', fs'', hrestore'', hd'', hfs''⟩ := restore_spec s.property clock'' harchived hxs hes
    rw [harchive, hrestored, hrestore', hrestore'']
    refine ⟨?_, iff_of_false (not_unchanged hd hd' (hpos hfs')) hne,
      iff_of_false (not_unchanged hes hd'' (hpos hfs'')) hne⟩
    have hlinked : Linked Entry.hash Entry.prevHash (es.map (Entry.readBack s.val)) :=
      linked_readBack hes.chain
    constructor
    · rintro ⟨ds, ds', hds, hds', hsame⟩
      obtain rfl := Except.ok.inj (hes.entries.symm.trans hds)
      obtain rfl := Except.ok.inj (hd.entries.symm.trans hds')
      -- what is beyond the limit is not there
      have hle : es.length ≤ exportLimit := by
        have hlength := hsame.length_eq
        rw [List.length_map, List.length_map, hfs.length_eq, length_exported] at hlength
        omega
      rw [exported_of_le hle] at hfs
      refine ⟨hle, fun x hx => ?_, hlinked⟩
      obtain ⟨e, he, rfl⟩ := List.mem_map.mp hx
      exact (forall₂_same_iff hes hd hfs).mp hsame e he
    · rintro ⟨hle, hcons⟩
      rw [exported_of_le hle] at hfs
      refine ⟨_, _, hes.entries, hd.entries, (forall₂_same_iff hes hd hfs).mpr fun e he => ?_⟩
      exact hcons.hashes _ (List.mem_map_of_mem he)

/-- The same entries have the same hashes. -/
theorem SameEntries.hashes {shardId : PyStr} {d d' : Disk F} (h : SameEntries shardId d d') :
    (d'.entries shardId).map (List.map Entry.hash) = (d.entries shardId).map (List.map Entry.hash) := by
  obtain ⟨ds, ds', hds, hds', hsame⟩ := h
  have hhashes : ds'.map Entry.hash = ds.map Entry.hash := by
    clear hds hds'
    induction hsame with
    | nil => rfl
    | cons hab _ ih => rw [List.map_cons, List.map_cons, hab.hash, ih]
  rw [hds, hds']
  exact congrArg Except.ok hhashes

end Daryl
