import Daryl.Dsm.Segments
import Daryl.Lib.Pointwise
import Daryl.Py.Eq

/-!
# Storage

`Storage.append` and `Storage.read` of `core/storage.py`, on one shard: its family
directory and its integrity pin, `integrity/{shard}_last_hash.json`.  An append
is cut where the code makes something durable, so that a crash between two cuts
is a state of the model.

The pin is modelled as absent, as no JSON, or as the record the code writes.

## Main definitions

* `Pin`, `PinFile`, `Shard` — the pin and the shard.
* `Shard.prepare` — an append up to the write of its line.
* `Shard.append` — an append.
* `readSegmented`, `readMonolithic` — the two readers.

## Main results

* `readSegmented_events` — **what a directory holds is read newest first.**
* `readSegmented_take`, `readSegmented_laid` — the same of a laid-out directory.
-/

namespace Daryl

open Py Json

/-- The record in `{shard}_last_hash.json`.  A missing key reads as `None`. -/
structure Pin (F : Type) where
  shardId : PyStr
  lastHash : PyVal F
  updatedAt : PyStr
  entryCount : Option ℕ
  firstTimestamp : PyVal F
  lastTimestamp : PyVal F
  deriving DecidableEq

/-- The file `{shard}_last_hash.json`. -/
inductive PinFile (F : Type)
  | absent
  | corrupt
  | pin (p : Pin F)
  deriving DecidableEq

/-- A shard on disk. -/
structure Shard (F : Type) where
  family : Family
  pin : PinFile F

/-- A shard nothing was appended to. -/
def Shard.empty (F : Type) (name : PyStr) : Shard F := ⟨Family.empty name, .absent⟩

/-- The hash function and the segment limits in force. -/
structure Config where
  sha : Sha256
  limits : Limits

variable {F : Type} [PyFloat F]

/-! ### The pin -/

/-- The pin, when there is one to read. -/
def PinFile.read : PinFile F → Option (Pin F)
  | .pin p => some p
  | _ => none

/-- `_get_last_hash`. -/
def getLastHash (file : PinFile F) : PyVal F := (file.read.map Pin.lastHash).getD .none

/-- The JSON document of a pin. -/
def Pin.toDict (p : Pin F) : PyVal F :=
  .dict (strItems [
    (py "shard_id", .str p.shardId),
    (py "last_hash", p.lastHash),
    (py "updated_at", .str p.updatedAt),
    (py "entry_count", match p.entryCount with
      | some n => .int n
      | none => .none),
    (py "first_timestamp", p.firstTimestamp),
    (py "last_timestamp", p.lastTimestamp)])

/-- The style of the integrity files: `indent=2`, `ensure_ascii=False`. -/
def fileStyle : Style := ⟨false, true, true⟩

/-- `json.dump(data, f, indent=2, ensure_ascii=False)`, as far as it can fail: the
text must encode. -/
def dumpFile (data : PyVal F) : Except PyError Unit :=
  match print fileStyle data with
  | some text => if Encodable text then .ok () else .error .unicodeEncodeError
  | none => .error .valueError

/-- The atomic replacement of the pin. -/
def writePin (p : Pin F) : Except PyError (PinFile F) := (dumpFile p.toDict).map fun _ => .pin p

/-- `_commit_integrity_and_metadata`. -/
def commitIntegrityAndMetadata (shardId : PyStr) (now : Datetime) (entry : Entry F) (file : PinFile F) :
    Except PyError (PinFile F) :=
  let existing := file.read
  let timestamp : PyVal F := .str entry.timestamp.isoformat
  let first := (existing.map Pin.firstTimestamp).getD .none
  writePin {
    shardId
    lastHash := entry.hash
    updatedAt := now.isoformat
    entryCount := some ((existing.bind Pin.entryCount).getD 0 + 1)
    firstTimestamp := if first.isNone then timestamp else first
    lastTimestamp := timestamp }

/-! ### Appending -/

/-- The style of a line: sorted, compact, `ensure_ascii=False`. -/
def lineStyle : Style := ⟨false, true, false⟩

/-- An append about to write its line. -/
structure Prepared (F : Type) where
  path : PyStr
  entry : Entry F
  line : PyStr

/-- The entry chained to a hash, hashed, and its line, which must encode. -/
def sealEntry (sha : Sha256) (shardId : PyStr) (entry : Entry F) (prevHash : PyVal F) :
    Except PyError (Entry F × PyStr) :=
  match hashCanonical sha (buildCanonicalEntry entry prevHash) with
  | .error e => .error (DumpsError.toPyError e)
  | .ok hash =>
    let entry := { entry with prevHash := prevHash, hash := .str hash }
    match dumpsSorted lineStyle (entryDict shardId entry) with
    | .error e => .error (DumpsError.toPyError e)
    | .ok line => if Encodable line then .ok (entry, line) else .error .unicodeEncodeError

/-- An append up to the write: the active segment is opened and the entry is
sealed.  The family is the one an exception leaves behind. -/
def Shard.prepare (cfg : Config) (shardId : PyStr) (entry : Entry F) (s : Shard F) :
    Except PyError (Prepared F) × Family :=
  match getActiveSegment cfg.limits s.family with
  | .error e => (.error e, s.family)
  | .ok (path, fam) =>
    ((sealEntry cfg.sha shardId entry (getLastHash s.pin)).map fun r => ⟨path, r.1, r.2⟩,
      fam.write path [])

/-- `Storage.append`: the line, then the pin, then `segment_meta.json`. -/
def Shard.append (cfg : Config) (shardId : PyStr) (now : Datetime) (entry : Entry F) (s : Shard F) :
    Except PyError (Entry F) × Shard F :=
  match s.prepare cfg shardId entry with
  | (.error e, fam) => (.error e, { s with family := fam })
  | (.ok p, fam) =>
    let written := fam.write p.path (lineBytes p.line)
    match commitIntegrityAndMetadata shardId now p.entry s.pin with
    | .error e => (.error e, { s with family := written })
    | .ok pin =>
      (.ok p.entry,
        ⟨updateActiveSegmentMetadata written 1 (lineBytes p.line).length, pin⟩)

/-! ### Reading -/

/-- What a reader has passed over and collected. -/
structure ReadState (F : Type) where
  skipped : ℕ
  results : List (Entry F)

/-- One line of `_read_segmented`; only an `AttributeError` gets through. -/
def readLine (offset : ℕ) (line : PyStr) (st : ReadState F) : Except PyError (ReadState F) :=
  match lineEvent line with
  | none => .ok st
  | some event =>
    if st.skipped < offset then .ok { st with skipped := st.skipped + 1 }
    else
      match entryFromEventData event with
      | .ok entry => .ok { st with results := st.results ++ [entry] }
      | .error .attributeError => .error .attributeError
      | .error _ => .ok st

/-- The lines of a segment, newest first; the flag says that the limit is reached. -/
def readLines (offset limit : ℕ) : List PyStr → ReadState F → Except PyError (ReadState F × Bool)
  | [], st => .ok (st, false)
  | line :: lines, st =>
    match readLine offset line st with
    | .error e => .error e
    | .ok st' =>
      if st.results.length < st'.results.length ∧ limit ≤ st'.results.length then .ok (st', true)
      else readLines offset limit lines st'

/-- The segments, newest first; a segment is opened when it is needed. -/
def readSegments (offset limit : ℕ) :
    List (PyStr × List Byte) → ReadState F → Except PyError (List (Entry F))
  | [], st => .ok st.results
  | f :: fs, st =>
    match textLines f.2 with
    | .error e => .error e
    | .ok lines =>
      match readLines offset limit lines.reverse st with
      | .error e => .error e
      | .ok (st', true) => .ok st'.results
      | .ok (st', false) => readSegments offset limit fs st'

/-- `_read_segmented`. -/
def readSegmented (fam : Family) (offset limit : ℕ) : Except PyError (List (Entry F)) :=
  readSegments offset limit (getSegmentFiles fam).reverse ⟨0, []⟩

/-- `_read_monolithic`: the last `offset + limit` entries are kept, and the
`offset` newest of them left out. -/
def readMonolithic (bs : List Byte) (offset limit : ℕ) : Except PyError (List (Entry F)) :=
  (textLines bs).bind fun lines => (entriesOf (lines.filterMap lineEvent)).map fun entries =>
    let window := entries.drop (entries.length - (offset + limit))
    let n := window.length
    if n ≤ offset then []
    else ((window.drop (n - offset - limit)).take (n - offset - (n - offset - limit))).reverse

/-! ### What reading collects -/

/-- Reading lines newest first collects the entries of their events up to the limit,
and at least one. -/
private theorem readLines_entries (limit : ℕ) {lines : List PyStr} {ds : List (Entry F)}
    (h : entriesOf (lines.filterMap lineEvent) = .ok ds) (rs : List (Entry F))
    (hrs : rs.length < max limit 1) :
    ∃ full, readLines 0 limit lines ⟨0, rs⟩
        = .ok (⟨0, (rs ++ ds).take (max limit 1)⟩, full) ∧
      (full = true ↔ max limit 1 ≤ (rs ++ ds).length) := by
  induction lines generalizing rs ds with
  | nil =>
    obtain rfl := Except.ok.inj h
    refine ⟨false, ?_, ?_⟩
    · rw [readLines, List.append_nil, List.take_of_length_le hrs.le]
    · rw [List.append_nil]
      exact iff_of_false Bool.false_ne_true (by omega)
  | cons line lines ih =>
    rw [readLines, readLine]
    cases hev : lineEvent (F := F) line with
    | none =>
      rw [List.filterMap_cons, hev] at h
      simp only [lt_irrefl, false_and, if_false]
      exact ih h rs hrs
    | some event =>
      rw [List.filterMap_cons, hev] at h
      simp only [entriesOf] at h
      simp only [Nat.not_lt_zero, if_false]
      cases hd : entryFromEventData event with
      | error err =>
        rw [hd] at h
        cases err with
        | attributeError => exact absurd h (by simp)
        | _ =>
          simp only [lt_irrefl, false_and, if_false]
          exact ih h rs hrs
      | ok d =>
        rw [hd] at h
        obtain ⟨ds', hrest, rfl⟩ : ∃ ds', entriesOf (lines.filterMap lineEvent) = .ok ds' ∧
            ds = d :: ds' := by
          simp only at h
          cases hrest : entriesOf (lines.filterMap (lineEvent (F := F))) with
          | error err =>
            rw [hrest] at h
            cases h
          | ok ds' =>
            rw [hrest] at h
            exact ⟨ds', rfl, (Except.ok.inj h).symm⟩
        have hone : (rs ++ [d]).length = rs.length + 1 := by
          rw [List.length_append, List.length_singleton]
        have hassoc : rs ++ d :: ds' = rs ++ [d] ++ ds' := by
          rw [List.append_assoc, List.singleton_append]
        by_cases hfull : rs.length < (rs ++ [d]).length ∧ limit ≤ (rs ++ [d]).length
        · -- the limit is met, so the rest is not read
          have hmax : max limit 1 = (rs ++ [d]).length := by omega
          refine ⟨true, ?_, ?_⟩
          · simp only [if_pos hfull]
            rw [hassoc, hmax, List.take_left']
            rfl
          · rw [hassoc, hmax]
            refine iff_of_true rfl ?_
            simp only [List.length_append]
            omega
        · simp only [if_neg hfull]
          rw [hassoc]
          exact ih hrest (rs ++ [d]) (by omega)

/-- And so does reading files newest first. -/
private theorem readSegments_entries {limit : ℕ} {fs : List (PyStr × List Byte)}
    {texts : List (List PyStr)} (hfs : List.Forall₂ (fun f lines => textLines f.2 = .ok lines) fs texts)
    {ds : List (Entry F)}
    (h : entriesOf ((texts.flatMap List.reverse).filterMap lineEvent) = .ok ds)
    (rs : List (Entry F)) (hrs : rs.length < max limit 1) :
    readSegments 0 limit fs ⟨0, rs⟩ = .ok ((rs ++ ds).take (max limit 1)) := by
  induction hfs generalizing rs ds with
  | nil =>
    obtain rfl := Except.ok.inj h
    rw [readSegments, List.append_nil, List.take_of_length_le hrs.le]
  | @cons f lines fs texts hf _ ih =>
    rw [List.flatMap_cons, List.filterMap_append] at h
    obtain ⟨here, later, hhere, hlater, rfl⟩ := entriesOf_append.mp h
    rw [readSegments, hf]
    obtain ⟨full, heq, hfull⟩ := readLines_entries limit hhere rs hrs
    simp only
    rw [heq, ← List.append_assoc]
    cases full with
    | true =>
      have hlen := hfull.mp rfl
      rw [List.take_append_of_le_length hlen]
    | false =>
      have hlen : (rs ++ here).length < max limit 1 := by
        by_contra hle
        exact Bool.false_ne_true (hfull.mpr (by omega))
      rw [List.take_of_length_le hlen.le]
      exact ih hlater (rs ++ here) hlen

/-- **A directory whose events make entries is read newest first**, as many entries as
the limit says and at least one. -/
theorem readSegmented_events {fam : Family} {events : List (PyVal F)}
    (hevents : iterShardEvents fam = .ok events) {ds : List (Entry F)}
    (hds : entriesOf events = .ok ds) (limit : ℕ) :
    readSegmented fam 0 limit = .ok (ds.reverse.take (max limit 1)) := by
  unfold iterShardEvents at hevents
  cases htexts : (getSegmentFiles fam).mapM fun f => textLines f.2 with
  | error err =>
    rw [htexts] at hevents
    cases hevents
  | ok texts =>
    rw [htexts] at hevents
    obtain rfl := Except.ok.inj hevents
    have hfiles := List.forall₂_reverse_iff.mpr (Pointwise.of_mapM_ok htexts)
    have hrev := entriesOf_reverse hds
    have hflat : (texts.flatten).reverse = texts.reverse.flatMap List.reverse := by
      rw [List.reverse_flatten, List.flatMap_def, List.map_reverse]
    rw [← List.filterMap_reverse, hflat] at hrev
    refine (readSegments_entries hfiles hrev [] ?_).trans (by rw [List.nil_append])
    rw [List.length_nil]
    omega

/-- **A laid-out directory is read newest first**, as many entries as the limit says
and at least one. -/
theorem readSegmented_take {fam : Family} {segs : List Segment} (h : Laid fam segs)
    {ds : List (Entry F)} (hds : List.Forall₂ (fun event d => entryFromEventData event = .ok d)
      ((segs.flatMap Segment.texts).filterMap lineEvent) ds) (limit : ℕ) :
    readSegmented fam 0 limit = .ok (ds.reverse.take (max limit 1)) :=
  readSegmented_events (iterShardEvents_laid h) (entriesOf_eq_ok hds) limit

/-- **A laid-out directory is read newest first**, up to any limit that its
entries keep. -/
theorem readSegmented_laid {fam : Family} {segs : List Segment} (h : Laid fam segs)
    {ds : List (Entry F)} (hds : List.Forall₂ (fun event d => entryFromEventData event = .ok d)
      ((segs.flatMap Segment.texts).filterMap lineEvent) ds) {limit : ℕ}
    (hlimit : ds.length ≤ limit) : readSegmented fam 0 limit = .ok ds.reverse := by
  rw [readSegmented_take h hds, List.take_of_length_le]
  rw [List.length_reverse]
  omega

end Daryl
