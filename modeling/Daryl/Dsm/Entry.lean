import Daryl.Dsm.Primitives
import Daryl.Py.Datetime

/-!
# Entries

The memory entry of `core/models.py`, the dict that is hashed, the dict that is
written as a line, and the entry made of a line.  The fields the code leaves to
its caller are arbitrary JSON values; the timestamp is a `datetime`.

## Main definitions

* `Entry` — an entry.
* `buildCanonicalEntry` — the dict whose canonical JSON is hashed.
* `entryDict` — the dict `append` writes.
* `entryFromEventData`, `entriesOf` — the entry of a parsed line, and of many.
* `Record`, `Entry.record` — the values of a line.
* `Entry.readBack` — the entry a reader gets for a written one.
* `Entry.Stable` — every hashed field is a `stable` value.
* `Entry.Agree` — two entries agree on every hashed field.

## Main results

* `entryFromEventData_entryDict` — **a written entry is read back.**
* `canonicalJson_readBack` — and hashes to the same bytes.
* `agree_of_canonicalJson_eq` — equal canonical bytes, equal hashed fields.
-/

namespace Daryl

open Py Json

/-- The exceptions the modelled code can meet. -/
inductive PyError
  | typeError
  | valueError
  | attributeError
  | unicodeDecodeError
  | unicodeEncodeError
  | isADirectoryError
  deriving DecidableEq

/-- The exception of a failed `json.dumps`. -/
def DumpsError.toPyError : DumpsError → PyError
  | .typeError => .typeError
  | .valueError => .valueError

/-- A bind returns just if both of its parts do. -/
theorem bind_eq_ok {α β : Type} {x : Except PyError α} {f : α → Except PyError β} {y : β} :
    (x >>= f) = .ok y ↔ ∃ a, x = .ok a ∧ f a = .ok y := by
  cases x with
  | error err => simp [bind, Except.bind]
  | ok a => simp [bind, Except.bind]

section

variable {F : Type} [PyFloat F]

/-- A key of a dict as a value. -/
def keyValue : Key F → PyVal F
  | .str s => .str s
  | .int n => .int n
  | .bool b => .bool b
  | .none => .none
  | .float x => .float (.finite x)
  | .inf neg => .float (.inf neg)

/-- What a `for` loop goes over; a number, a boolean and `None` are a `TypeError`. -/
def iterate : PyVal F → Except PyError (List (PyVal F))
  | .list vs => .ok vs
  | .tuple vs => .ok vs
  | .dict kvs => .ok (kvs.map fun kv => keyValue kv.1)
  | .str s => .ok (s.map fun c => .str [c])
  | _ => .error .typeError

end

/-- `hashlib.sha256(text.encode("utf-8")).hexdigest()`. -/
def hashText (sha : Sha256) (text : PyStr) : Except PyError PyStr :=
  match encodeUtf8 text with
  | none => .error .unicodeEncodeError
  | some bs => .ok (hexdigest sha bs)

theorem hashText_eq_ok {sha : Sha256} {text s : PyStr} :
    hashText sha text = .ok s ↔ Encodable text ∧ s = hexdigest sha (utf8Bytes text) := by
  unfold hashText encodeUtf8
  split_ifs with henc
  · simp [henc, eq_comm]
  · simp [henc]

/-- **Two texts with one hash are one**, when the digest does not collide. -/
theorem text_eq_of_hashText {sha : Sha256} (hinj : Function.Injective sha) {a b s : PyStr}
    (ha : hashText sha a = .ok s) (hb : hashText sha b = .ok s) : a = b := by
  obtain ⟨henc, hs⟩ := hashText_eq_ok.mp ha
  obtain ⟨henc', hs'⟩ := hashText_eq_ok.mp hb
  exact utf8Bytes_inj henc henc' (hexdigest_injective hinj (hs.symm.trans hs'))

/-- How an append ends: it returns, or it raises before or after its line is in the
file. -/
inductive AppendEnd
  | written
  | lost
  | landed
  deriving DecidableEq

/-- An entry. -/
structure Entry (F : Type) where
  id : PyVal F
  timestamp : Datetime
  sessionId : PyVal F
  source : PyVal F
  content : PyVal F
  shard : PyVal F
  hash : PyVal F
  prevHash : PyVal F
  metadata : PyVal F
  version : PyVal F
  deriving DecidableEq

variable {F : Type} [PyFloat F]

/-- `_build_canonical_entry`. -/
def buildCanonicalEntry (entry : Entry F) (prevHash : PyVal F) : PyVal F :=
  .dict (strItems [
    (py "session_id", entry.sessionId),
    (py "source", entry.source),
    (py "timestamp", .str entry.timestamp.isoformat),
    (py "metadata", entry.metadata.orEmpty),
    (py "content", entry.content),
    (py "prev_hash", prevHash)])

/-- The dict `append` writes as a line. -/
def entryDict (shard : PyStr) (entry : Entry F) : PyVal F :=
  .dict (strItems [
    (py "id", entry.id),
    (py "timestamp", .str entry.timestamp.isoformat),
    (py "session_id", entry.sessionId),
    (py "source", entry.source),
    (py "content", entry.content),
    (py "shard", .str shard),
    (py "hash", entry.hash),
    (py "prev_hash", entry.prevHash),
    (py "metadata", entry.metadata),
    (py "version", entry.version)])

/-- `event_data.get(k)`. -/
def getNone (k : PyStr) (kvs : List (Key F × PyVal F)) : PyVal F := (dictGet k kvs).getD .none

/-- The fields `_entry_from_event_data` reads, with its defaults. -/
def entryOfItems (kvs : List (Key F × PyVal F)) (timestamp : Datetime) : Entry F where
  id := getNone (py "id") kvs
  timestamp := timestamp
  sessionId := getNone (py "session_id") kvs
  source := getNone (py "source") kvs
  content := getNone (py "content") kvs
  shard := getNone (py "shard") kvs
  hash := getNone (py "hash") kvs
  prevHash := getNone (py "prev_hash") kvs
  metadata := (dictGet (py "metadata") kvs).getD (.dict [])
  version := (dictGet (py "version") kvs).getD (.str (py "v2.0"))

/-- `_entry_from_event_data`.  What is no dict has no `get`, and a timestamp that
is no string is a `TypeError` of `fromisoformat`. -/
def entryFromEventData : PyVal F → Except PyError (Entry F)
  | .dict kvs =>
    match getNone (py "timestamp") kvs with
    | .str text =>
      match fromisoformat text with
      | some timestamp => .ok (entryOfItems kvs timestamp)
      | none => .error .valueError
    | _ => .error .typeError
  | _ => .error .attributeError

omit [PyFloat F] in
/-- An event makes an entry iff it is a dict whose timestamp parses. -/
theorem entryFromEventData_eq_ok {event : PyVal F} {e : Entry F} :
    entryFromEventData event = .ok e ↔ ∃ kvs text d, event = .dict kvs ∧
      getNone (py "timestamp") kvs = .str text ∧ fromisoformat text = some d ∧
        e = entryOfItems kvs d := by
  constructor
  · intro h
    cases event with
    | dict kvs =>
      cases hts : getNone (py "timestamp") kvs with
      | str text =>
        cases hd : fromisoformat text with
        | some d =>
          simp only [entryFromEventData, hts, hd, Except.ok.injEq] at h
          exact ⟨kvs, text, d, rfl, hts, hd, h.symm⟩
        | none => simp [entryFromEventData, hts, hd] at h
      | _ => simp [entryFromEventData, hts] at h
    | _ => simp only [entryFromEventData, reduceCtorEq] at h
  · rintro ⟨kvs, text, d, rfl, hts, hd, rfl⟩
    simp only [entryFromEventData, hts, hd]

/-- The entries of a sequence of events.  An event that makes no entry is passed
over, but for the `AttributeError`, which the callers do not catch. -/
def entriesOf : List (PyVal F) → Except PyError (List (Entry F))
  | [] => .ok []
  | event :: events =>
    match entryFromEventData event with
    | .ok entry => (entriesOf events).map (entry :: ·)
    | .error .attributeError => .error .attributeError
    | .error _ => entriesOf events

omit [PyFloat F] in
/-- Events that all make entries make these. -/
theorem entriesOf_eq_ok {events : List (PyVal F)} {es : List (Entry F)}
    (h : List.Forall₂ (fun event e => entryFromEventData event = .ok e) events es) :
    entriesOf events = .ok es := by
  induction h with
  | nil => rfl
  | cons he _ ih =>
    rw [entriesOf, he]
    simp only
    rw [ih]
    rfl

omit [PyFloat F] in
/-- The entries of a sequence of events are made of events of the sequence. -/
theorem mem_entriesOf {events : List (PyVal F)} {es : List (Entry F)}
    (h : entriesOf events = .ok es) :
    ∀ e ∈ es, ∃ event ∈ events, entryFromEventData event = .ok e := by
  induction events generalizing es with
  | nil =>
    rw [entriesOf, Except.ok.injEq] at h
    simp [← h]
  | cons event events ih =>
    unfold entriesOf at h
    intro e he
    split at h
    · next e' he' =>
      cases hes : entriesOf events with
      | error err =>
        rw [hes] at h
        cases h
      | ok es' =>
        rw [hes] at h
        cases h
        rcases List.mem_cons.mp he with rfl | he
        · exact ⟨event, List.mem_cons_self, he'⟩
        · obtain ⟨x, hx, hxe⟩ := ih hes e he
          exact ⟨x, List.mem_cons_of_mem _ hx, hxe⟩
    · simp at h
    · obtain ⟨x, hx, hxe⟩ := ih h e he
      exact ⟨x, List.mem_cons_of_mem _ hx, hxe⟩

omit [PyFloat F] in
/-- The entries of two sequences, one behind the other. -/
theorem entriesOf_append {events events' : List (PyVal F)} {es : List (Entry F)} :
    entriesOf (events ++ events') = .ok es ↔
      ∃ as bs, entriesOf events = .ok as ∧ entriesOf events' = .ok bs ∧ es = as ++ bs := by
  induction events generalizing es with
  | nil => simp [entriesOf]
  | cons event events ih =>
    rw [List.cons_append, entriesOf, entriesOf]
    split
    · next e _ =>
      constructor
      · intro h
        cases hrest : entriesOf (events ++ events') with
        | error err =>
          rw [hrest] at h
          cases h
        | ok cs =>
          rw [hrest] at h
          obtain ⟨as, bs, has, hbs, rfl⟩ := ih.mp hrest
          exact ⟨e :: as, bs, by rw [has]; rfl, hbs, (Except.ok.inj h).symm⟩
      · rintro ⟨as, bs, has, hbs, rfl⟩
        cases hrest : entriesOf events with
        | error err =>
          rw [hrest] at has
          cases has
        | ok as' =>
          rw [hrest] at has
          obtain rfl := Except.ok.inj has
          rw [ih.mpr ⟨as', bs, hrest, hbs, rfl⟩]
          rfl
    · simp
    · exact ih

omit [PyFloat F] in
/-- The entries of a sequence read backwards. -/
theorem entriesOf_reverse {events : List (PyVal F)} {es : List (Entry F)}
    (h : entriesOf events = .ok es) : entriesOf events.reverse = .ok es.reverse := by
  induction events generalizing es with
  | nil =>
    obtain rfl := Except.ok.inj h
    rfl
  | cons event events ih =>
    obtain ⟨as, bs, has, hbs, rfl⟩ := entriesOf_append.mp (List.singleton_append ▸ h)
    rw [List.reverse_cons, List.reverse_append, entriesOf_append]
    refine ⟨bs.reverse, as.reverse, ih hbs, ?_, rfl⟩
    -- one event makes one entry at most
    rw [entriesOf] at has ⊢
    split at has
    · obtain rfl := Except.ok.inj has
      rfl
    · exact absurd has (by simp)
    · obtain rfl := Except.ok.inj has
      rfl

/-! ### Sorting the two dicts -/

/-- The canonical dict, its keys in order. -/
def canonicalItems (c m p se so : PyVal F) (timestamp : PyStr) : List (Key F × PyVal F) :=
  strItems [(py "content", c), (py "metadata", m), (py "prev_hash", p), (py "session_id", se),
    (py "source", so), (py "timestamp", .str timestamp)]

/-- The keys of the canonical dict, in order. -/
def canonicalKeys : List PyStr :=
  [py "content", py "metadata", py "prev_hash", py "session_id", py "source", py "timestamp"]

theorem canonicalKeys_nodup : canonicalKeys.Nodup := by decide

/-- The canonical dict is sorted field by field, and its keys put in order. -/
theorem sortDicts_buildCanonicalEntry (e : Entry F) (p : PyVal F) :
    sortDicts (buildCanonicalEntry e p)
      = (sortDicts e.sessionId).bind fun se => (sortDicts e.source).bind fun so =>
        (sortDicts e.metadata.orEmpty).bind fun m => (sortDicts e.content).bind fun c =>
        (sortDicts p).map fun p' =>
          .dict (canonicalItems c m p' se so e.timestamp.isoformat) := by
  rw [buildCanonicalEntry, sortDicts]
  simp only [strItems, List.map_cons, List.map_nil, sortDictsItems]
  cases sortDicts e.sessionId with
  | none => rfl
  | some se =>
    cases sortDicts e.source with
    | none => rfl
    | some so =>
      cases sortDicts e.metadata.orEmpty with
      | none => rfl
      | some m =>
        cases sortDicts e.content with
        | none => rfl
        | some c =>
          cases sortDicts p with
          | none => rfl
          | some p' => rfl

/-- The canonical dict is read back field by field. -/
theorem form_canonicalItems (c m p se so : PyVal F) (timestamp : PyStr) :
    form (.dict (canonicalItems c m p se so timestamp))
      = .dict (canonicalItems (form c) (form m) (form p) (form se) (form so) timestamp) := by
  unfold canonicalItems
  exact form_strItems canonicalKeys_nodup

/-! ### Records -/

/-- The ten values of a line. -/
structure Record (F : Type) where
  id : PyVal F
  timestamp : PyVal F
  sessionId : PyVal F
  source : PyVal F
  content : PyVal F
  shard : PyVal F
  hash : PyVal F
  prevHash : PyVal F
  metadata : PyVal F
  version : PyVal F

/-- The items of a line, its keys in order. -/
def Record.items (r : Record F) : List (Key F × PyVal F) :=
  strItems [(py "content", r.content), (py "hash", r.hash), (py "id", r.id),
    (py "metadata", r.metadata), (py "prev_hash", r.prevHash), (py "session_id", r.sessionId),
    (py "shard", r.shard), (py "source", r.source), (py "timestamp", r.timestamp),
    (py "version", r.version)]

/-- The keys of a line, in order. -/
def entryKeys : List PyStr :=
  [py "content", py "hash", py "id", py "metadata", py "prev_hash", py "session_id", py "shard",
    py "source", py "timestamp", py "version"]

theorem entryKeys_nodup : entryKeys.Nodup := by decide

/-- The record read back from a written entry. -/
def Entry.record (shard : PyStr) (e : Entry F) : Record F where
  id := readBack e.id
  timestamp := .str e.timestamp.isoformat
  sessionId := readBack e.sessionId
  source := readBack e.source
  content := readBack e.content
  shard := .str shard
  hash := readBack e.hash
  prevHash := readBack e.prevHash
  metadata := readBack e.metadata
  version := readBack e.version

/-- The written dict is sorted field by field, and its keys put in order. -/
theorem sortDicts_entryDict (shard : PyStr) (e : Entry F) :
    sortDicts (entryDict shard e)
      = (sortDicts e.id).bind fun id => (sortDicts e.sessionId).bind fun se =>
        (sortDicts e.source).bind fun so => (sortDicts e.content).bind fun c =>
        (sortDicts e.hash).bind fun h => (sortDicts e.prevHash).bind fun p =>
        (sortDicts e.metadata).bind fun m => (sortDicts e.version).map fun v =>
          .dict (Record.items ⟨id, .str e.timestamp.isoformat, se, so, c, .str shard, h, p, m,
            v⟩) := by
  rw [entryDict, sortDicts]
  simp only [strItems, List.map_cons, List.map_nil, sortDictsItems]
  cases sortDicts e.id with
  | none => rfl
  | some id =>
    cases sortDicts e.sessionId with
    | none => rfl
    | some se =>
      cases sortDicts e.source with
      | none => rfl
      | some so =>
        cases sortDicts e.content with
        | none => rfl
        | some c =>
          cases sortDicts e.hash with
          | none => rfl
          | some h =>
            cases sortDicts e.prevHash with
            | none => rfl
            | some p =>
              cases sortDicts e.metadata with
              | none => rfl
              | some m =>
                cases sortDicts e.version with
                | none => rfl
                | some v => rfl

/-- A record is read back field by field. -/
theorem form_items (r : Record F) :
    form (.dict r.items)
      = .dict (Record.items ⟨form r.id, form r.timestamp, form r.sessionId, form r.source,
          form r.content, form r.shard, form r.hash, form r.prevHash, form r.metadata,
          form r.version⟩) := by
  unfold Record.items
  exact form_strItems entryKeys_nodup

/-- The event of a written entry: its dict, read back. -/
def Entry.stored (shard : PyStr) (e : Entry F) : PyVal F := readBack (entryDict shard e)

/-- The event of a written entry is its record. -/
theorem stored_eq {shard : PyStr} {e : Entry F} {w : PyVal F}
    (h : sortDicts (entryDict shard e) = some w) :
    e.stored shard = .dict (e.record shard).items := by
  rw [Entry.stored, readBack_of_sortDicts h]
  rw [sortDicts_entryDict] at h
  simp only [Option.bind_eq_some_iff, Option.map_eq_some_iff] at h
  obtain ⟨id, hid, se, hse, so, hso, c, hc, hh, hhash, p, hp, m, hm, v, hv, rfl⟩ := h
  rw [form_items, Entry.record, readBack_of_sortDicts hid, readBack_of_sortDicts hse,
    readBack_of_sortDicts hso, readBack_of_sortDicts hc, readBack_of_sortDicts hhash,
    readBack_of_sortDicts hp, readBack_of_sortDicts hm, readBack_of_sortDicts hv]
  rfl

/-- The entry of a record at a time. -/
def Record.entry (r : Record F) (timestamp : Datetime) : Entry F where
  id := r.id
  timestamp := timestamp
  sessionId := r.sessionId
  source := r.source
  content := r.content
  shard := r.shard
  hash := r.hash
  prevHash := r.prevHash
  metadata := r.metadata
  version := r.version

omit [PyFloat F] in
/-- A record makes an entry iff its timestamp parses. -/
theorem entryFromEventData_items {r : Record F} {e : Entry F} :
    entryFromEventData (.dict r.items) = .ok e ↔
      ∃ text d, r.timestamp = .str text ∧ fromisoformat text = some d ∧ e = r.entry d := by
  rw [entryFromEventData_eq_ok]
  constructor
  · rintro ⟨kvs, text, d, hkvs, hts, hd, rfl⟩
    rw [PyVal.dict.injEq] at hkvs
    subst hkvs
    exact ⟨text, d, hts, hd, rfl⟩
  · rintro ⟨text, d, hts, hd, rfl⟩
    exact ⟨r.items, text, d, rfl, hts, hd, rfl⟩

/-! ### Reading a written entry -/

/-- The entry a reader gets for a written one. -/
def Entry.readBack (shard : PyStr) (e : Entry F) : Entry F := (e.record shard).entry e.timestamp

/-- **A written entry is read back.** -/
theorem entryFromEventData_entryDict {shard : PyStr} {e : Entry F} {w : PyVal F}
    (h : sortDicts (entryDict shard e) = some w) :
    entryFromEventData (e.stored shard) = .ok (e.readBack shard) := by
  rw [stored_eq h]
  exact entryFromEventData_items.mpr ⟨_, _, rfl, fromisoformat_isoformat _, rfl⟩

/-! ### Hashing a written entry -/

/-- Every hashed field the caller fills in is a stable value. -/
def Entry.Stable (e : Entry F) : Prop :=
  stable e.sessionId = true ∧ stable e.source = true ∧ stable e.content = true ∧
    stable e.metadata = true

instance (e : Entry F) : Decidable e.Stable := by unfold Entry.Stable; infer_instance

/-- The canonical dict of what a reader gets is the one that was written, read
back. -/
theorem sortDicts_readBack_canonical {shard : PyStr} {e : Entry F} (hs : e.Stable)
    {p w : PyVal F} (hp : stable p = true) (h : sortDicts (buildCanonicalEntry e p) = some w) :
    sortDicts (buildCanonicalEntry (e.readBack shard) (readBack p)) = some (form w) := by
  rw [sortDicts_buildCanonicalEntry] at h ⊢
  simp only [Option.bind_eq_some_iff, Option.map_eq_some_iff] at h
  obtain ⟨se, hse, so, hso, m, hm, c, hc, p', hp', rfl⟩ := h
  obtain ⟨hsse, hsso, hsc, hsm⟩ := hs
  simp only [Entry.readBack, Record.entry, Entry.record, readBack_orEmpty]
  rw [sortDicts_readBack hsse hse, sortDicts_readBack hsso hso,
    sortDicts_readBack (stable_orEmpty hsm) hm, sortDicts_readBack hsc hc,
    sortDicts_readBack hp hp', form_canonicalItems]
  rfl

private theorem sortedText_canonicalItems {c m p se so : PyVal F} {timestamp : PyStr}
    (hc : sortedText c) (hm : sortedText m) (hp : sortedText p) (hse : sortedText se)
    (hso : sortedText so) : sortedText (.dict (canonicalItems c m p se so timestamp)) := by
  have hkeys : canonicalKeys.Pairwise (· < ·) := by decide
  exact ⟨⟨hc, hm, hp, hse, hso, trivial, trivial⟩, hkeys⟩

/-- **What a reader gets hashes to the bytes that were hashed.** -/
theorem canonicalJson_readBack {shard : PyStr} {e : Entry F} (hs : e.Stable) {p : PyVal F}
    (hp : stable p = true) {bs : List Byte}
    (h : canonicalJson (buildCanonicalEntry e p) = .ok bs) :
    canonicalJson (buildCanonicalEntry (e.readBack shard) (readBack p)) = .ok bs := by
  obtain ⟨w, t, hw, ht, hbs⟩ := canonicalJson_eq_ok.mp h
  refine canonicalJson_eq_ok.mpr ⟨form w, t, sortDicts_readBack_canonical hs hp hw, ?_, hbs⟩
  refine print_form ?_ ht
  rw [sortDicts_buildCanonicalEntry] at hw
  simp only [Option.bind_eq_some_iff, Option.map_eq_some_iff] at hw
  obtain ⟨se, hse, so, hso, m, hm, c, hc, p', hp', rfl⟩ := hw
  obtain ⟨hsse, hsso, hsc, hsm⟩ := hs
  have sorted : ∀ {v w : PyVal F}, stable v = true → sortDicts v = some w → sortedText w := by
    intro v w hv hw
    obtain ⟨w', hw', hsorted⟩ := sortDicts_of_stable hv
    exact Option.some.inj (hw'.symm.trans hw) ▸ hsorted
  exact sortedText_canonicalItems (sorted hsc hc) (sorted (stable_orEmpty hsm) hm)
    (sorted hp hp') (sorted hsse hse) (sorted hsso hso)

/-! ### Agreement -/

/-- Two entries agree on every hashed field: the same canonical value of each,
with metadata that counts as false read as `{}`, and the same timestamp. -/
structure Entry.Agree (e e' : Entry F) : Prop where
  sessionId : canon e.sessionId = canon e'.sessionId
  source : canon e.source = canon e'.source
  timestamp : e.timestamp = e'.timestamp
  metadata : canon e.metadata.orEmpty = canon e'.metadata.orEmpty
  content : canon e.content = canon e'.content
  prevHash : canon e.prevHash = canon e'.prevHash

theorem isoformat_injective {d d' : Datetime} (h : d.isoformat = d'.isoformat) : d = d' := by
  have := fromisoformat_isoformat d
  rw [h, fromisoformat_isoformat] at this
  exact (Option.some.inj this).symm

/-- The strings of the hashed fields hold no split surrogate pair. -/
def Entry.HashedJoined (e : Entry F) : Prop :=
  eachStr Joined e.sessionId ∧ eachStr Joined e.source ∧ eachStr Joined e.metadata ∧
    eachStr Joined e.content ∧ eachStr Joined e.prevHash

theorem eachStr_orEmpty {P : PyStr → Prop} {v : PyVal F} (h : eachStr P v) :
    eachStr P v.orEmpty := by
  unfold PyVal.orEmpty
  split
  · exact h
  · trivial

private theorem joined_of_within {t : PyStr} (h : Within 43 90 t) : Joined t :=
  joined_of_encodable (h.encodable (by norm_num))

private theorem Entry.HashedJoined.canonical {e : Entry F} (h : e.HashedJoined) :
    eachStr Joined (buildCanonicalEntry e e.prevHash) := by
  obtain ⟨hse, hso, hm, hc, hp⟩ := h
  have hkeys : ∀ k ∈ canonicalKeys, Joined k := by
    have : ∀ k ∈ canonicalKeys, Encodable k := by decide
    exact fun k hk => joined_of_encodable (this k hk)
  exact ⟨hkeys (py "session_id") (by decide), hse, hkeys (py "source") (by decide), hso,
    hkeys (py "timestamp") (by decide), joined_of_within (within_isoformat _),
    hkeys (py "metadata") (by decide), eachStr_orEmpty hm, hkeys (py "content") (by decide), hc,
    hkeys (py "prev_hash") (by decide), hp, trivial⟩

private theorem canon_of_sortDicts {v w : PyVal F} (h : sortDicts v = some w) :
    canon v = some (form w) := by rw [canon, h, Option.map_some]

/-- **Equal canonical bytes, equal hashed fields.** -/
theorem agree_of_canonicalJson_eq {e e' : Entry F} {bs : List Byte}
    (h : canonicalJson (buildCanonicalEntry e e.prevHash) = .ok bs)
    (h' : canonicalJson (buildCanonicalEntry e' e'.prevHash) = .ok bs)
    (hj : e.HashedJoined) (hj' : e'.HashedJoined) : e.Agree e' := by
  have hcanon := canon_eq_of_canonicalJson_eq h h' hj.canonical hj'.canonical
  obtain ⟨w, -, hw, -⟩ := canonicalJson_eq_ok.mp h
  obtain ⟨w', -, hw', -⟩ := canonicalJson_eq_ok.mp h'
  rw [canon, canon, hw, hw', Option.map_some, Option.map_some, Option.some.injEq] at hcanon
  rw [sortDicts_buildCanonicalEntry] at hw hw'
  simp only [Option.bind_eq_some_iff, Option.map_eq_some_iff] at hw hw'
  obtain ⟨se, hse, so, hso, m, hm, c, hc, p, hp, rfl⟩ := hw
  obtain ⟨se', hse', so', hso', m', hm', c', hc', p', hp', rfl⟩ := hw'
  rw [form_canonicalItems, form_canonicalItems] at hcanon
  simp only [canonicalItems, strItems, List.map_cons, List.map_nil, PyVal.dict.injEq, List.cons.injEq,
    Prod.mk.injEq, true_and, and_true] at hcanon
  obtain ⟨hcc, hmm, hpp, hss, hoo, htt⟩ := hcanon
  constructor
  · rw [canon_of_sortDicts hse, canon_of_sortDicts hse', hss]
  · rw [canon_of_sortDicts hso, canon_of_sortDicts hso', hoo]
  · exact isoformat_injective (PyVal.str.inj htt)
  · rw [canon_of_sortDicts hm, canon_of_sortDicts hm', hmm]
  · rw [canon_of_sortDicts hc, canon_of_sortDicts hc', hcc]
  · rw [canon_of_sortDicts hp, canon_of_sortDicts hp', hpp]

/-- A value that is no container is its own and only canonical value. -/
theorem eq_of_canon_atom {v a : PyVal F} (hl : ∀ vs, a ≠ .list vs) (hd : ∀ kvs, a ≠ .dict kvs)
    (h : canon v = some a) : v = a := by
  obtain ⟨w, hw, hform⟩ := Option.map_eq_some_iff.mp h
  cases v with
  | list vs =>
    obtain ⟨ws, -, rfl⟩ := Option.map_eq_some_iff.mp hw
    exact absurd hform.symm (hl _)
  | tuple vs =>
    obtain ⟨ws, -, rfl⟩ := Option.map_eq_some_iff.mp hw
    exact absurd hform.symm (hl _)
  | dict kvs =>
    simp only [sortDicts, Option.bind_eq_some_iff, Option.map_eq_some_iff] at hw
    obtain ⟨_, -, _, -, rfl⟩ := hw
    exact absurd hform.symm (hd _)
  | _ =>
    simp only [sortDicts, Option.some.injEq] at hw
    rw [← hw] at hform
    exact hform

theorem eq_of_canon_str {v : PyVal F} {s : PyStr} (h : canon v = some (.str s)) : v = .str s :=
  eq_of_canon_atom (fun _ => by simp) (fun _ => by simp) h

theorem eq_of_canon_none {v : PyVal F} (h : canon v = some .none) : v = .none :=
  eq_of_canon_atom (fun _ => by simp) (fun _ => by simp) h

end Daryl
