import Daryl.Dsm.Verify
import Daryl.Lib.Pointwise
import Daryl.Lib.Run

/-!
# The history of a shard

What appends leave on disk, as an invariant: a laid-out directory whose lines are
the records of the appended entries, each sealed and chained to the one before
it, and a pin with their number and their tip.  An append adds its entry at the
end or, when it raises, changes no line and no pin.

## Main definitions

* `Recorded`, `Sealed` — the line of an entry, and its hash.
* `History` — the directory holds the records of these entries.
* `Pinned` — the pin is at the end of these entries, and counts `k`.
* `Intact` — the two together, with every line ended.
* `Log`, `Log.append` — a shard and what its appends returned.

## Main results

* `intact_append` — **an append extends the history or leaves it alone.**
* `intact_run` — so every run of appends leaves an intact history.
* `chronoEntries_history` — what a reader of a history sees.
* `consistent_history` — a history of entries that read back well is consistent.
* `verifyShard_appends` — **a run of accepted appends verifies and is read back.**
-/

namespace Daryl

open Py Json HashChain

variable {F : Type} [PyFloat F]

/-! ### The record of an entry -/

/-- The line is the one `append` writes for the entry. -/
structure Recorded (shardId : PyStr) (e : Entry F) (line : PyStr) : Prop where
  encodable : Encodable line
  printed : ∃ w, sortDicts (entryDict shardId e) = some w ∧ print lineStyle w = some line

/-- The hash of the entry is that of its canonical dict. -/
def Sealed (sha : Sha256) (e : Entry F) : Prop :=
  ∃ bs, canonicalJson (buildCanonicalEntry e e.prevHash) = .ok bs ∧
    e.hash = .str (v1Prefix ++ hexdigest sha bs)

theorem sealEntry_eq_ok {sha : Sha256} {shardId : PyStr} {e e' : Entry F} {p : PyVal F}
    {line : PyStr} (h : sealEntry sha shardId e p = .ok (e', line)) :
    Sealed sha e' ∧ Recorded shardId e' line ∧ e'.prevHash = p ∧
      ∃ hash, e' = { e with prevHash := p, hash := hash } := by
  unfold sealEntry at h
  split at h
  · simp at h
  · next hash hhash =>
    simp only at h
    split at h
    · simp at h
    · next l hl =>
      split_ifs at h with henc
      simp only [Except.ok.injEq, Prod.mk.injEq] at h
      obtain ⟨rfl, rfl⟩ := h
      obtain ⟨bs, hbs, rfl⟩ := hashV1_eq_ok.mp hhash
      exact ⟨⟨bs, hbs, rfl⟩, ⟨henc, dumpsSorted_eq_ok.mp hl⟩, rfl, _, rfl⟩

theorem Recorded.plain {shardId : PyStr} {e : Entry F} {line : PyStr}
    (h : Recorded shardId e line) : PlainLine line := by
  obtain ⟨w, -, hw⟩ := h.printed
  exact ⟨h.encodable, nl_notMem_print hw, cr_notMem_print hw⟩

/-- The text of a record is a dict. -/
theorem Recorded.dict {shardId : PyStr} {e : Entry F} {line : PyStr}
    (h : Recorded shardId e line) : ∃ kvs : List (Key F × PyVal F),
      sortDicts (entryDict shardId e) = some (.dict kvs) ∧
        print lineStyle (.dict kvs) = some line := by
  obtain ⟨w, hw, hline⟩ := h.printed
  obtain ⟨kvs, rfl⟩ := exists_dict_of_sortDicts hw
  exact ⟨kvs, hw, hline⟩

/-- The event of a record is the written dict, read back. -/
theorem Recorded.event {shardId : PyStr} {e : Entry F} {line : PyStr}
    (h : Recorded shardId e line) : lineEvent line = some (e.stored shardId) := by
  obtain ⟨kvs, hw, hline⟩ := h.dict
  have hne : strip line ≠ [] := by
    rw [strip_print_dict hline]
    obtain ⟨s, rfl⟩ := print_dict_shape hline
    simp
  rw [lineEvent, if_neg hne, strip_print_dict hline, loads_print hline (by simp [lineStyle]),
    Entry.stored, readBack_of_sortDicts hw]

/-- The entry of a record is the written entry, read back. -/
theorem Recorded.entry {shardId : PyStr} {e : Entry F} {line : PyStr}
    (h : Recorded shardId e line) :
    entryFromEventData (e.stored shardId) = .ok (e.readBack shardId) := by
  obtain ⟨w, hw, -⟩ := h.printed
  exact entryFromEventData_entryDict hw

/-- A hash and a link that are strings, or no link, are read back as they are. -/
theorem Sealed.readBack_hash {sha : Sha256} {shardId : PyStr} {e : Entry F} (h : Sealed sha e) :
    (e.readBack shardId).hash = e.hash := by
  obtain ⟨bs, -, hh⟩ := h
  simp [Entry.readBack, Record.entry, Entry.record, hh]

/-! ### Histories -/

/-- The tip after the entries, read off the entries themselves: every entry is
sealed, the first one names nothing and every other one the one before it. -/
structure SealedChain (sha : Sha256) (es : List (Entry F)) : Prop where
  hashes : ∀ e ∈ es, Sealed sha e
  linked : Linked Entry.hash Entry.prevHash es
  first : ∀ e ∈ es.head?, e.prevHash = .none

/-- The directory holds the records of the entries, in order. -/
structure History (sha : Sha256) (shardId : PyStr) (fam : Family) (segs : List Segment)
    (es : List (Entry F)) : Prop where
  laid : Laid fam segs
  active : Active fam segs
  lines : List.Forall₂ (Recorded shardId) es (linesOf segs)
  chain : SealedChain sha es

/-- The pin is at the end of the entries and counts `k`: it is absent before the
first one, and then holds the hash of the last one. -/
def Pinned (file : PinFile F) (es : List (Entry F)) (k : ℕ) : Prop :=
  match es.getLast? with
  | none => file = .absent ∧ k = 0
  | some e => ∃ p : Pin F, file = .pin p ∧ p.lastHash = e.hash ∧ p.entryCount = some k ∧
      eachStr Encodable p.firstTimestamp

/-- A shard with whole lines alone, pinned at its end. -/
structure Intact (sha : Sha256) (shardId : PyStr) (s : Shard F) (es : List (Entry F))
    (k : ℕ) : Prop where
  history : ∃ segs, History sha shardId s.family segs es ∧ Clean segs
  pinned : Pinned s.pin es k

omit [PyFloat F] in
theorem tip_concat (es : List (Entry F)) (e : Entry F) : tip (es ++ [e]) = e.hash := by
  simp [tip]

theorem sealedChain_concat {sha : Sha256} {es : List (Entry F)} {e : Entry F}
    (h : SealedChain sha es) (he : Sealed sha e) (hprev : e.prevHash = tip es) :
    SealedChain sha (es ++ [e]) where
  hashes := by
    intro x hx
    rcases List.mem_append.mp hx with hx | hx
    · exact h.hashes x hx
    · rw [List.mem_singleton] at hx
      exact hx ▸ he
  linked := by
    refine linked_concat.mpr ⟨h.linked, fun x hx => ?_⟩
    rw [hprev, tip, Option.mem_def.mp hx]
    rfl
  first := by
    intro x hx
    cases es with
    | nil =>
      simp only [List.nil_append, List.head?_cons, Option.mem_some_iff] at hx
      rw [← hx, hprev]
      rfl
    | cons y es => exact h.first x (by simpa using hx)

/-- The pinned hash is the tip. -/
theorem getLastHash_pinned {file : PinFile F} {es : List (Entry F)} {k : ℕ}
    (h : Pinned file es k) : getLastHash file = tip es := by
  unfold Pinned at h
  split at h
  · next hlast =>
    rw [h.1, tip, hlast]
    rfl
  · next e hlast =>
    obtain ⟨p, rfl, hp, -, -⟩ := h
    rw [tip, hlast]
    exact hp

/-- The pinned number. -/
theorem entryCount_pinned {file : PinFile F} {es : List (Entry F)} {k : ℕ}
    (h : Pinned file es k) : (file.read.bind Pin.entryCount).getD 0 = k := by
  unfold Pinned at h
  split at h
  · rw [h.1, h.2]
    rfl
  · obtain ⟨p, rfl, -, hp, -⟩ := h
    simp [PinFile.read, hp]

/-! ### Opening the active segment -/

/-- The directory is open for writing to the segment of this number. -/
structure Opened (fam : Family) (segs : List Segment) (b : ℕ) : Prop where
  le : ∀ s ∈ segs, s.number ≤ b
  named : ∃ m, fam.segmentMeta = some m ∧ m.activeSegment = segmentName fam.name b

theorem Opened.active {fam : Family} {segs : List Segment} {b : ℕ} (h : Opened fam segs b) :
    Active fam segs := by
  obtain ⟨m, hm, hname⟩ := h.named
  unfold Active
  rw [hm]
  exact ⟨b, hname, h.le⟩

theorem Opened.write {fam : Family} {segs : List Segment} {b : ℕ} {f : Segment → Segment}
    (h : Opened fam segs b) (bs : List Byte) (hnum : ∀ s, (f s).number = s.number) :
    Opened (fam.write (segmentName fam.name b) bs) (onSegment b f segs) b where
  le := le_onSegment hnum h.le
  named := h.named

/-- Counting an append leaves the directory open. -/
theorem Opened.updateMetadata {fam : Family} {segs : List Segment} {b m n : ℕ}
    (h : Opened fam segs b) : Opened (updateActiveSegmentMetadata fam m n) segs b where
  le := h.le
  named := by
    obtain ⟨a, ha, hname⟩ := h.named
    refine ⟨{ a with eventCount := a.eventCount + m, sizeBytes := a.sizeBytes + n }, ?_, hname⟩
    rw [updateActiveSegmentMetadata, ha, Option.map_some]

/-- **Writing the record of a sealed entry extends the history.** -/
theorem History.write_line {sha : Sha256} {shardId : PyStr} {fam : Family} {segs : List Segment}
    {es : List (Entry F)} {e : Entry F} {b : ℕ} {line : PyStr}
    (h : History sha shardId fam segs es) (ho : Opened fam segs b) (hc : Clean segs)
    (hline : Recorded shardId e line) (he : Sealed sha e) (hprev : e.prevHash = tip es) :
    History sha shardId (fam.write (segmentName fam.name b) (lineBytes line))
      (onSegment b (.addLine line) segs) (es ++ [e]) where
  laid := write_line_laid h.laid (hc.at b) ho.le hline.plain
  active := (ho.write _ (f := .addLine line) fun _ => rfl).active
  lines := by
    rw [linesOf_addLine h.laid.increasing ho.le]
    exact List.rel_append h.lines (List.Forall₂.cons hline List.Forall₂.nil)
  chain := sealedChain_concat h.chain he hprev

/-- The family `prepare` leaves: the active segment is there, and nothing else
has changed. -/
structure Ready (sha : Sha256) (shardId : PyStr) (fam : Family) (b : ℕ) (segs : List Segment)
    (es : List (Entry F)) : Prop where
  history : History sha shardId fam segs es
  clean : Clean segs
  opened : Opened fam segs b

theorem clean_addTail_nil {segs : List Segment} {b : ℕ} (h : Clean segs) :
    Clean (onSegment b (.addTail []) segs) := by
  intro s hs
  rcases mem_onSegment hs with hs | rfl | ⟨t, ht, -, rfl⟩
  · exact h s hs
  · rfl
  · simp [Segment.addTail, h t ht]

/-- An append opens the active segment, which is then there, and seals its entry with
the pinned hash. -/
theorem prepare_laid {cfg : Config} {shardId : PyStr} {s : Shard F} {segs : List Segment}
    (hlaid : Laid s.family segs) (hactive : Active s.family segs) (hc : Clean segs) (e : Entry F) :
    ∃ (b : ℕ) (fam : Family) (segs' : List Segment),
      s.prepare cfg shardId e
        = ((sealEntry cfg.sha shardId e (getLastHash s.pin)).map fun r =>
            ⟨segmentName fam.name b, r.1, r.2⟩, fam) ∧
      Laid fam segs' ∧ Clean segs' ∧ Opened fam segs' b ∧ linesOf segs' = linesOf segs := by
  obtain ⟨b, m, hget, hname, hle⟩ := getActiveSegment_laid cfg.limits hlaid hactive
  have ho : Opened { s.family with segmentMeta := some m } segs b := ⟨hle, m, rfl, hname⟩
  have hlaid' : Laid { s.family with segmentMeta := some m } segs :=
    ⟨hlaid.files, hlaid.increasing, hlaid.plain⟩
  refine ⟨b, _, _, ?_, write_tail_laid hlaid' (hc.at b) hle plainLine_nil, clean_addTail_nil hc,
    ho.write _ fun _ => rfl, linesOf_addTail hlaid.increasing hle⟩
  rw [Shard.prepare, hget]
  rfl

/-- A history stays one when the active segment is opened. -/
theorem prepare_history {cfg : Config} {shardId : PyStr} {s : Shard F} {segs : List Segment}
    {es : List (Entry F)} (h : History cfg.sha shardId s.family segs es) (hc : Clean segs)
    (e : Entry F) : ∃ (b : ℕ) (fam : Family) (segs' : List Segment),
      s.prepare cfg shardId e
        = ((sealEntry cfg.sha shardId e (getLastHash s.pin)).map fun r =>
            ⟨segmentName fam.name b, r.1, r.2⟩, fam) ∧
      Ready cfg.sha shardId fam b segs' es := by
  obtain ⟨b, fam, segs', hprep, hlaid, hclean, ho, hlines⟩ := prepare_laid h.laid h.active hc e
  exact ⟨b, fam, segs', hprep, ⟨hlaid, ho.active, hlines ▸ h.lines, h.chain⟩, hclean, ho⟩

/-! ### The pin -/

/-- What is written to an integrity file encodes. -/
theorem dumpFile_eq_ok {data : PyVal F} : dumpFile data = .ok () ↔ eachStr Encodable data := by
  obtain ⟨text, htext⟩ := exists_print (show fileStyle.allowNan = true from rfl) data
  rw [dumpFile, htext, ← encodable_print rfl htext]
  simp

/-- The keys of the pin. -/
private theorem encodable_pinKeys : ∀ k ∈ [py "shard_id", py "last_hash", py "updated_at",
    py "entry_count", py "first_timestamp", py "last_timestamp"], Encodable k := by decide

/-- A pin is written iff its strings encode. -/
theorem writePin_eq_ok {p : Pin F} {file : PinFile F} : writePin p = .ok file ↔
    file = .pin p ∧ Encodable p.shardId ∧ eachStr Encodable p.lastHash ∧ Encodable p.updatedAt ∧
      eachStr Encodable p.firstTimestamp ∧ eachStr Encodable p.lastTimestamp := by
  have hkeys := encodable_pinKeys
  have hdict : eachStr Encodable p.toDict ↔ Encodable p.shardId ∧ eachStr Encodable p.lastHash ∧
      Encodable p.updatedAt ∧ eachStr Encodable p.firstTimestamp ∧
        eachStr Encodable p.lastTimestamp := by
    constructor
    · rintro ⟨-, hid, -, hh, -, hu, -, -, -, hf, -, hl, -⟩
      exact ⟨hid, hh, hu, hf, hl⟩
    · rintro ⟨hid, hh, hu, hf, hl⟩
      refine ⟨hkeys (py "shard_id") (by decide), hid, hkeys (py "last_hash") (by decide), hh,
        hkeys (py "updated_at") (by decide), hu, hkeys (py "entry_count") (by decide), ?_,
        hkeys (py "first_timestamp") (by decide), hf, hkeys (py "last_timestamp") (by decide), hl,
        trivial⟩
      cases p.entryCount <;> trivial
  rw [← hdict, ← dumpFile_eq_ok, writePin]
  cases dumpFile p.toDict with
  | error e => simp [Except.map]
  | ok u => simp [Except.map, eq_comm]

theorem encodable_hash (sha : Sha256) (bs : List Byte) :
    Encodable (v1Prefix ++ hexdigest sha bs) :=
  encodable_append.mpr ⟨by decide, encodable_hexdigest sha bs⟩

/-- A value that a line holds. -/
def Writable (v : PyVal F) : Prop := Printable lineStyle v ∧ eachStr Encodable v

theorem printable_lineStyle {v w : PyVal F} (h : sortDicts v = some w) : Printable lineStyle v := by
  obtain ⟨t, ht⟩ := exists_print (show lineStyle.allowNan = true from rfl) w
  exact ⟨w, t, h, ht⟩

/-- What is hashed and written can be written. -/
theorem Dumpable.writable {v : PyVal F} (h : Dumpable v) : Writable v := by
  obtain ⟨⟨w, -, hw, -⟩, hencodable⟩ := h
  exact ⟨printable_lineStyle hw, hencodable⟩

theorem writableField {k : PyStr} {v : PyVal F} (hk : Encodable k) (hv : Writable v) :
    Encodable (k, v).1 ∧ Writable (k, v).2 := ⟨hk, hv⟩

theorem writable_object {ps : List (PyStr × PyVal F)} (h : ∀ p ∈ ps, Encodable p.1 ∧ Writable p.2) :
    Writable (.dict (strItems ps)) :=
  ⟨printable_object fun p hp => (h p hp).2.1,
    encodable_object fun p hp => ⟨(h p hp).1, (h p hp).2.2⟩⟩

/-- A writable dict is recorded. -/
theorem exists_recorded_of_writable {shardId : PyStr} {e : Entry F}
    (h : Writable (entryDict shardId e)) : ∃ line, Recorded shardId e line := by
  obtain ⟨w, line, hw, hline⟩ := h.1
  exact ⟨line, (encodable_print rfl hline).mpr ((eachStr_of_sortDicts hw).mpr h.2), w, hw, hline⟩

/-- The values of an entry that can be hashed and written: the id and the version are
written alone. -/
structure Entry.Dumps (e : Entry F) : Prop where
  id : Writable e.id
  sessionId : Dumpable e.sessionId
  source : Dumpable e.source
  metadata : Dumpable e.metadata
  content : Dumpable e.content
  version : Writable e.version

/-- Chained to a hash, they can be written as a line. -/
theorem Entry.Dumps.writable {shardId : PyStr} {e : Entry F} (h : e.Dumps) (hhash : Dumpable e.hash)
    (hp : Dumpable e.prevHash) (hshard : Encodable shardId) : Writable (entryDict shardId e) := by
  have htime : Dumpable (.str e.timestamp.isoformat : PyVal F) :=
    dumpable_str (encodable_isoformat _)
  apply writable_object
  simp only [List.forall_mem_cons]
  exact ⟨writableField (by decide) h.id, writableField (by decide) htime.writable,
    writableField (by decide) h.sessionId.writable, writableField (by decide) h.source.writable,
    writableField (by decide) h.content.writable,
    writableField (by decide) (dumpable_str hshard).writable,
    writableField (by decide) hhash.writable, writableField (by decide) hp.writable,
    writableField (by decide) h.metadata.writable, writableField (by decide) h.version,
    List.forall_mem_nil _⟩

/-- Behind a link, they have canonical bytes. -/
theorem Entry.Dumps.canonical {e : Entry F} (h : e.Dumps) {p : PyVal F} (hp : Dumpable p) :
    ∃ bs, canonicalJson (buildCanonicalEntry e p) = .ok bs := by
  have hcanon : Dumpable (buildCanonicalEntry e p) := by
    apply dumpable_object
    simp only [List.forall_mem_cons]
    exact ⟨dumpableField (by decide) h.sessionId, dumpableField (by decide) h.source,
      dumpableField (by decide) (dumpable_str (encodable_isoformat _)),
      dumpableField (by decide) (dumpable_orEmpty h.metadata),
      dumpableField (by decide) h.content, dumpableField (by decide) hp, List.forall_mem_nil _⟩
  obtain ⟨w, t, hw, ht⟩ := hcanon.1
  exact ⟨_, canonicalJson_eq_ok.mpr ⟨w, t, hw, ht, rfl⟩⟩

/-- **An entry of dumpable values is sealed.** -/
theorem exists_sealEntry {sha : Sha256} {shardId : PyStr} {e : Entry F} {p : PyVal F} (h : e.Dumps)
    (hp : Dumpable p) (hshard : Encodable shardId) : ∃ r, sealEntry sha shardId e p = .ok r := by
  obtain ⟨bs, hbs⟩ := h.canonical hp
  have hhash : hashCanonical sha (buildCanonicalEntry e p)
      = .ok (v1Prefix ++ hexdigest sha bs) := hashV1_eq_ok.mpr ⟨bs, hbs, rfl⟩
  have hhex : Dumpable (.str (v1Prefix ++ hexdigest sha bs) : PyVal F) :=
    dumpable_str (encodable_hash _ _)
  have hsealed : Entry.Dumps
      { e with prevHash := p, hash := .str (v1Prefix ++ hexdigest sha bs) } :=
    ⟨h.id, h.sessionId, h.source, h.metadata, h.content, h.version⟩
  have hdict := hsealed.writable hhex hp hshard
  obtain ⟨line, henc, w', hw', hline⟩ := exists_recorded_of_writable hdict
  unfold sealEntry
  rw [hhash]
  dsimp only
  rw [dumpsSorted_eq_ok.mpr ⟨w', hw', hline⟩]
  exact ⟨_, if_pos henc⟩

/-- The first timestamp of a pin encodes, if there is a pin to read. -/
def FirstEncodable (file : PinFile F) : Prop :=
  ∀ p, file.read = some p → eachStr Encodable p.firstTimestamp

theorem Pinned.firstEncodable {file : PinFile F} {es : List (Entry F)} {k : ℕ}
    (h : Pinned file es k) : FirstEncodable file := by
  intro p hp
  unfold Pinned at h
  split at h
  · rw [h.1] at hp
    cases hp
  · obtain ⟨q, rfl, -, -, hq⟩ := h
    obtain rfl := Option.some.inj hp
    exact hq

/-- And so does the one put for none. -/
theorem FirstEncodable.orTime {file : PinFile F} (h : FirstEncodable file) (d : Datetime) :
    eachStr Encodable
      (if ((file.read.map Pin.firstTimestamp).getD .none).isNone then (.str d.isoformat : PyVal F)
        else (file.read.map Pin.firstTimestamp).getD .none) := by
  have hd : eachStr Encodable (.str d.isoformat : PyVal F) := encodable_isoformat d
  cases hfile : file.read with
  | none => exact hd
  | some p =>
    split
    · exact hd
    · exact h p hfile

/-- **A sealed entry is always committed**: the pin is at it and counts one more. -/
theorem commit_sealed {shardId : PyStr} (now : Datetime) {file : PinFile F} {e : Entry F}
    {sha : Sha256} (h : FirstEncodable file) (he : Sealed sha e) (hid : Encodable shardId) :
    ∃ p : Pin F, commitIntegrityAndMetadata shardId now e file = .ok (.pin p) ∧
      p.lastHash = e.hash ∧ p.entryCount = some ((file.read.bind Pin.entryCount).getD 0 + 1) ∧
      eachStr Encodable p.firstTimestamp := by
  obtain ⟨bs, -, hhash⟩ := he
  have hfirst := h.orTime e.timestamp
  refine ⟨_, writePin_eq_ok.mpr ⟨rfl, hid, ?_, encodable_isoformat _, hfirst,
    encodable_isoformat _⟩, rfl, rfl, hfirst⟩
  simp only [hhash]
  exact encodable_hash _ _

/-- **Committing a sealed entry moves the pin to it.** -/
theorem commit_pinned {shardId : PyStr} (now : Datetime) {file : PinFile F} {e : Entry F}
    {es : List (Entry F)} {k : ℕ} {sha : Sha256} (h : Pinned file es k) (he : Sealed sha e)
    (hid : Encodable shardId) : ∃ pin, commitIntegrityAndMetadata shardId now e file = .ok pin ∧
      Pinned pin (es ++ [e]) (k + 1) := by
  obtain ⟨p, hcommit, hhash, hcount, hfirst⟩ := commit_sealed now h.firstEncodable he hid
  refine ⟨.pin p, hcommit, ?_⟩
  unfold Pinned
  simp only [List.getLast?_append, List.getLast?_singleton, Option.some_or]
  exact ⟨p, rfl, hhash, by rw [hcount, entryCount_pinned h], hfirst⟩

/-! ### Appending -/

/-- The strings of a record encode. -/
theorem Recorded.strings {shardId : PyStr} {e : Entry F} {line : PyStr}
    (h : Recorded shardId e line) : eachStr Encodable (entryDict shardId e) := by
  obtain ⟨w, hw, hline⟩ := h.printed
  exact (eachStr_of_sortDicts hw).mp ((encodable_print rfl hline).mp h.encodable)

theorem Recorded.encodable_shardId {shardId : PyStr} {e : Entry F} {line : PyStr}
    (h : Recorded shardId e line) : Encodable shardId := by
  obtain ⟨-, -, -, -, -, -, -, -, -, -, -, hid, -⟩ := h.strings
  exact hid

theorem Recorded.encodable_prevHash {shardId : PyStr} {e : Entry F} {line : PyStr}
    (h : Recorded shardId e line) : eachStr Encodable e.prevHash := by
  obtain ⟨-, -, -, -, -, -, -, -, -, -, -, -, -, -, -, hp, -⟩ := h.strings
  exact hp

/-- A value that counts as false is printable in every style. -/
theorem printable_of_orEmpty {st : Style} {v : PyVal F} (h : Printable st v.orEmpty) :
    Printable st v := by
  unfold PyVal.orEmpty at h
  split_ifs at h with htrue
  · exact h
  · cases v with
    | float x =>
      cases x with
      | finite x => exact ⟨_, _, rfl, rfl⟩
      | _ => exact absurd rfl htrue
    | list vs =>
      cases vs with
      | nil => exact ⟨_, _, rfl, rfl⟩
      | cons v vs => exact absurd rfl htrue
    | tuple vs =>
      cases vs with
      | nil => exact ⟨_, _, rfl, rfl⟩
      | cons v vs => exact absurd rfl htrue
    | dict kvs =>
      cases kvs with
      | nil => exact ⟨_, _, rfl, rfl⟩
      | cons kv kvs => exact absurd rfl htrue
    | _ => exact ⟨_, _, rfl, rfl⟩

/-- **What an entry that was sealed and written is made of.** -/
theorem Recorded.dumps {sha : Sha256} {shardId : PyStr} {e : Entry F} {line : PyStr}
    (hrec : Recorded shardId e line) (hs : Sealed sha e) : e.Dumps := by
  obtain ⟨w, hw, -⟩ := hrec.printed
  obtain ⟨-, hid, -, -, -, hse, -, hso, -, hc, -, -, -, -, -, -, -, hm, -, hv, -⟩ := hrec.strings
  rw [sortDicts_entryDict] at hw
  simp only [Option.bind_eq_some_iff, Option.map_eq_some_iff] at hw
  obtain ⟨_, hsid, _, -, _, -, _, -, _, -, _, -, _, -, _, hsv, -⟩ := hw
  -- the hashed fields are printed once more, and there without infinities
  obtain ⟨bs, hcanon, -⟩ := hs
  obtain ⟨w, t, hsort, hprint, -⟩ := canonicalJson_eq_ok.mp hcanon
  rw [sortDicts_buildCanonicalEntry] at hsort
  simp only [Option.bind_eq_some_iff, Option.map_eq_some_iff] at hsort
  obtain ⟨se, hsse, so, hsso, m, hsm, c, hsc, p', -, rfl⟩ := hsort
  have printed : ∀ {k : PyStr} {v w : PyVal F}, sortDicts v = some w →
      (.str k, w) ∈ canonicalItems c m p' se so e.timestamp.isoformat →
        Printable canonicalStyle v := by
    intro k v w hsort hmem
    obtain ⟨-, u, hu⟩ := exists_print_of_printDict hprint _ hmem
    exact ⟨w, u, hsort, hu⟩
  exact {
    id := ⟨printable_lineStyle hsid, hid⟩
    sessionId := ⟨printed (k := py "session_id") hsse (by simp [canonicalItems, strItems]), hse⟩
    source := ⟨printed (k := py "source") hsso (by simp [canonicalItems, strItems]), hso⟩
    metadata := ⟨printable_of_orEmpty
      (printed (k := py "metadata") hsm (by simp [canonicalItems, strItems])), hm⟩
    content := ⟨printed (k := py "content") hsc (by simp [canonicalItems, strItems]), hc⟩
    version := ⟨printable_lineStyle hsv, hv⟩ }

theorem dumps_of_sealEntry {sha : Sha256} {shardId : PyStr} {e e' : Entry F} {p : PyVal F}
    {line : PyStr} (h : sealEntry sha shardId e p = .ok (e', line)) : e.Dumps := by
  obtain ⟨hsealed, hrec, -, hash, rfl⟩ := sealEntry_eq_ok h
  have hdumps := hrec.dumps hsealed
  exact ⟨hdumps.id, hdumps.sessionId, hdumps.source, hdumps.metadata, hdumps.content,
    hdumps.version⟩

/-- **An entry that is sealed extends the history.** -/
theorem intact_append_sealed {cfg : Config} {shardId : PyStr} (now : Datetime) {s : Shard F}
    {es : List (Entry F)} {k : ℕ} (h : Intact cfg.sha shardId s es k) {e e' : Entry F} {line : PyStr}
    (hseal : sealEntry cfg.sha shardId e (getLastHash s.pin) = .ok (e', line)) :
    ∃ s', s.append cfg shardId now e = (.ok e', s') ∧
      Intact cfg.sha shardId s' (es ++ [e']) (k + 1) ∧
      ∃ p hash, e' = { e with prevHash := p, hash := hash } := by
  obtain ⟨⟨segs, hhist, hclean⟩, hpin⟩ := h
  obtain ⟨b, fam, segs', hprep, hready⟩ := prepare_history hhist hclean e
  obtain ⟨hsealed, hrec, hprev, hash, he'⟩ := sealEntry_eq_ok hseal
  rw [Shard.append, hprep, hseal]
  rw [getLastHash_pinned hpin] at hprev
  have hhist' := hready.history.write_line hready.opened hready.clean hrec hsealed hprev
  have hopen := hready.opened.write (lineBytes line) (f := .addLine line) fun _ => rfl
  obtain ⟨pin, hcommit, hpin'⟩ := commit_pinned now hpin hsealed hrec.encodable_shardId
  refine ⟨⟨updateActiveSegmentMetadata (fam.write (segmentName fam.name b)
    (lineBytes line)) 1 (lineBytes line).length, pin⟩, ?_,
    ⟨⟨onSegment b (.addLine line) segs', ?_, clean_addLine hready.clean⟩, hpin'⟩, _, _, he'⟩
  · simp only [Except.map, hcommit]
  · exact ⟨⟨hhist'.laid.files, hhist'.laid.increasing, hhist'.laid.plain⟩,
      hopen.updateMetadata.active, hhist'.lines, hhist'.chain⟩

/-- **An append extends the history or leaves it alone.**  Whatever it raises, no
line and no pin is changed. -/
theorem intact_append {cfg : Config} {shardId : PyStr} (now : Datetime) {s : Shard F}
    {es : List (Entry F)} {k : ℕ} (h : Intact cfg.sha shardId s es k) (e : Entry F) :
    (∃ e' s', s.append cfg shardId now e = (.ok e', s') ∧
      Intact cfg.sha shardId s' (es ++ [e']) (k + 1) ∧
      ∃ p hash, e' = { e with prevHash := p, hash := hash }) ∨
    ∃ err s', s.append cfg shardId now e = (.error err, s') ∧
      Intact cfg.sha shardId s' es k := by
  cases hseal : sealEntry cfg.sha shardId e (getLastHash s.pin) with
  | error err =>
    obtain ⟨⟨segs, hhist, hclean⟩, hpin⟩ := h
    obtain ⟨b, fam, segs', hprep, hready⟩ := prepare_history hhist hclean e
    rw [Shard.append, hprep, hseal]
    exact .inr ⟨err, _, rfl, ⟨segs', hready.history, hready.clean⟩, hpin⟩
  | ok r =>
    obtain ⟨e', line⟩ := r
    obtain ⟨s', happend, hint, hentry⟩ := intact_append_sealed now h hseal
    exact .inl ⟨e', s', happend, hint, hentry⟩

/-! ### What a reader sees -/

/-- The events of recorded lines. -/
theorem filterMap_recorded {shardId : PyStr} {es : List (Entry F)} {lines : List PyStr}
    (h : List.Forall₂ (Recorded shardId) es lines) :
    lines.filterMap lineEvent = es.map (Entry.stored shardId) := by
  induction h with
  | nil => rfl
  | cons hrec _ ih => rw [List.filterMap_cons, hrec.event, List.map_cons, ih]

/-- The entries of recorded events. -/
theorem entries_recorded {shardId : PyStr} {es : List (Entry F)}
    (h : ∀ e ∈ es, ∃ line, Recorded shardId e line) :
    List.Forall₂ (fun event e => entryFromEventData event = .ok e)
      (es.map (Entry.stored shardId)) (es.map (Entry.readBack shardId)) := by
  induction es with
  | nil => exact List.Forall₂.nil
  | cons e es ih =>
    obtain ⟨line, hline⟩ := h e List.mem_cons_self
    exact List.Forall₂.cons hline.entry (ih fun x hx => h x (List.mem_cons_of_mem _ hx))

theorem exists_recorded {shardId : PyStr} {es : List (Entry F)} {lines : List PyStr}
    (h : List.Forall₂ (Recorded shardId) es lines) :
    ∀ e ∈ es, ∃ line, Recorded shardId e line := by
  intro e he
  obtain ⟨line, -, hline⟩ := Pointwise.exists_of_mem_left h he
  exact ⟨line, hline⟩

/-- The events of a history are the written dicts, read back, in order. -/
theorem iterShardEvents_history {sha : Sha256} {shardId : PyStr} {fam : Family}
    {segs : List Segment} {es : List (Entry F)} (h : History sha shardId fam segs es)
    (htail : ∀ s ∈ segs, lineEvent (F := F) s.tail = none) :
    iterShardEvents fam = .ok (es.map (Entry.stored shardId)) := by
  rw [iterShardEvents_laid h.laid, filterMap_texts htail, ← linesOf, filterMap_recorded h.lines]

/-- **The entries of a history are the appended ones, read back, in order.** -/
theorem chronoEntries_history {sha : Sha256} {shardId : PyStr} {fam : Family}
    {segs : List Segment} {es : List (Entry F)} (h : History sha shardId fam segs es)
    (htail : ∀ s ∈ segs, lineEvent (F := F) s.tail = none) :
    chronoEntries fam = .ok (es.map (Entry.readBack shardId)) := by
  rw [chronoEntries, iterShardEvents_history h htail]
  exact entriesOf_eq_ok (entries_recorded (exists_recorded h.lines))

theorem quiet_of_clean {segs : List Segment} (h : Clean segs) :
    ∀ s ∈ segs, lineEvent (F := F) s.tail = none := by
  intro s hs
  rw [h s hs]
  exact lineEvent_nil

/-- The last entry of a sealed chain names the tip of the others. -/
theorem SealedChain.of_concat {sha : Sha256} {es : List (Entry F)} {e : Entry F}
    (h : SealedChain sha (es ++ [e])) : SealedChain sha es ∧ Sealed sha e ∧ e.prevHash = tip es := by
  obtain ⟨hlinked, hlink⟩ := linked_concat.mp h.linked
  refine ⟨⟨fun x hx => h.hashes x (by simp [hx]), hlinked, ?_⟩, h.hashes e (by simp), ?_⟩
  · intro x hx
    exact h.first x (by rw [List.head?_append, hx]; rfl)
  · rw [tip]
    cases hlast : es.getLast? with
    | none =>
      obtain rfl := List.getLast?_eq_none_iff.mp hlast
      exact h.first e rfl
    | some y => exact hlink y hlast

/-- A link of a sealed chain is a hash, or nothing. -/
theorem SealedChain.link {sha : Sha256} {es : List (Entry F)} (h : SealedChain sha es) :
    ∀ e ∈ es, e.prevHash = .none ∨ ∃ s, e.prevHash = .str s := by
  induction es using List.reverseRecOn with
  | nil => simp
  | append_singleton es e ih =>
    obtain ⟨hes, -, hprev⟩ := h.of_concat
    intro x hx
    rcases List.mem_append.mp hx with hx | hx
    · exact ih hes x hx
    · obtain rfl := List.mem_singleton.mp hx
      rw [hprev, tip]
      cases hlast : es.getLast? with
      | none => exact .inl rfl
      | some y =>
        obtain ⟨bs, -, hy⟩ := hes.hashes y (List.mem_of_getLast? hlast)
        exact .inr ⟨_, hy⟩

theorem Sealed.truthy {sha : Sha256} {e : Entry F} (h : Sealed sha e) : e.hash.truthy = true := by
  obtain ⟨bs, -, hh⟩ := h
  rw [hh]
  rfl

/-- A link is read back as it is. -/
theorem SealedChain.readBack_prevHash {sha : Sha256} {shardId : PyStr} {es : List (Entry F)}
    (h : SealedChain sha es) {e : Entry F} (he : e ∈ es) :
    (e.readBack shardId).prevHash = e.prevHash := by
  rcases h.link e he with hp | ⟨s, hp⟩
  · simp [Entry.readBack, Record.entry, Entry.record, hp]
  · simp [Entry.readBack, Record.entry, Entry.record, hp]

/-- The record of the entry canonicalises to the bytes that were hashed. -/
def Entry.Faithful (shardId : PyStr) (e : Entry F) : Prop :=
  canonicalJson (buildCanonicalEntry (e.readBack shardId) (e.readBack shardId).prevHash)
    = canonicalJson (buildCanonicalEntry e e.prevHash)

theorem Entry.Stable.faithful {sha : Sha256} {shardId : PyStr} {e : Entry F} (hs : e.Stable)
    (h : Sealed sha e) (hlink : e.prevHash = .none ∨ ∃ s, e.prevHash = .str s) :
    e.Faithful shardId := by
  have hstable : stable e.prevHash = true := by
    rcases hlink with hp | ⟨s, hp⟩
    · rw [hp]
      rfl
    · rw [hp]
      rfl
  obtain ⟨bs, hbs, -⟩ := h
  rw [Entry.Faithful, hbs]
  exact canonicalJson_readBack hs hstable hbs

/-- The stored hash of a faithful entry verifies. -/
theorem hashOk_readBack {sha : Sha256} {shardId : PyStr} {e : Entry F} (h : Sealed sha e)
    (hf : e.Faithful shardId) : hashOk sha (e.readBack shardId) = true := by
  rw [hashOk_iff, h.readBack_hash, hf]
  refine ⟨h.truthy, ?_⟩
  obtain ⟨bs, hbs, hhash⟩ := h
  exact ⟨bs, hbs, .inl hhash⟩

/-- The links of a sealed chain are those of its entries read back. -/
theorem linked_readBack {sha : Sha256} {shardId : PyStr} {es : List (Entry F)}
    (h : SealedChain sha es) :
    Linked Entry.hash Entry.prevHash (es.map (Entry.readBack shardId)) := by
  unfold Linked
  rw [List.isChain_map]
  refine List.IsChain.imp_of_mem_imp ?_ h.linked
  intro a b ha hb hab
  rw [h.readBack_prevHash hb, (h.hashes a ha).readBack_hash, hab]

/-- **A history of faithful entries is consistent.** -/
theorem consistent_history {sha : Sha256} {shardId : PyStr} {es : List (Entry F)}
    (h : SealedChain sha es) (hf : ∀ e ∈ es, e.Faithful shardId) :
    Consistent sha (es.map (Entry.readBack shardId)) where
  hashes := by
    intro r hr
    obtain ⟨e, he, rfl⟩ := List.mem_map.mp hr
    exact hashOk_readBack (h.hashes e he) (hf e he)
  linked := linked_readBack h

theorem SealedChain.faithful {sha : Sha256} {shardId : PyStr} {es : List (Entry F)}
    (h : SealedChain sha es) (hs : ∀ e ∈ es, e.Stable) : ∀ e ∈ es, e.Faithful shardId :=
  fun e he => (hs e he).faithful (h.hashes e he) (h.link e he)

/-- The tip of the entries read back is the tip. -/
theorem tip_readBack {sha : Sha256} {shardId : PyStr} {es : List (Entry F)}
    (h : SealedChain sha es) : tip (es.map (Entry.readBack shardId)) = tip es := by
  rw [tip, tip, List.getLast?_map]
  cases hlast : es.getLast? with
  | none => rfl
  | some e => exact (h.hashes e (List.mem_of_getLast? hlast)).readBack_hash

/-- What is pinned once there is an entry: a hash, the tip, and the number. -/
theorem exists_pinned {sha : Sha256} {file : PinFile F} {es : List (Entry F)}
    {k : ℕ} (h : Pinned file es k) (hc : SealedChain sha es) (hne : es ≠ []) : ∃ s : PyStr,
      (PyVal.str s : PyVal F).truthy = true ∧ tip es = .str s ∧ getLastHash file = .str s ∧
        file.read.bind Pin.entryCount = some k := by
  have hlast : es.getLast? = some (es.getLast hne) := List.getLast?_eq_some_getLast hne
  have hsealed := hc.hashes _ (List.getLast_mem hne)
  have htruthy := hsealed.truthy
  obtain ⟨bs, -, hhash⟩ := hsealed
  have htip : tip es = .str (v1Prefix ++ hexdigest sha bs) := by
    rw [tip, hlast, Option.map_some, Option.getD_some, hhash]
  refine ⟨_, hhash ▸ htruthy, htip, (getLastHash_pinned h).trans htip, ?_⟩
  rw [Pinned, hlast] at h
  obtain ⟨p, hp, -, hcount, -⟩ := h
  rw [hp]
  exact hcount

/-- The report on an intact shard of stable entries, once there is one. -/
theorem report_intact {sha : Sha256} {shardId : PyStr} {s : Shard F} {es : List (Entry F)}
    (h : Intact sha shardId s es es.length) (hs : ∀ e ∈ es, e.Stable) (hne : es ≠ []) :
    ∃ r, verifyShard sha shardId s = .ok r ∧ r.status = .ok ∧ r.pinStatus = .pinnedOk ∧
      r.verified = es.length ∧ r.totalEntries = es.length ∧ r.tampered = 0 ∧
      r.chainBreaks = 0 := by
  obtain ⟨⟨segs, hhist, hclean⟩, hpin⟩ := h
  have hentries := chronoEntries_history hhist (quiet_of_clean hclean)
  have hfaithful : ∀ e ∈ es, e.Faithful shardId := hhist.chain.faithful hs
  have hcons := consistent_history hhist.chain hfaithful
  have hfirst : ∀ r ∈ (es.map (Entry.readBack shardId)).head?, r.prevHash = .none := by
    intro r hr
    obtain ⟨e, he, rfl⟩ := Option.map_eq_some_iff.mp (List.head?_map ▸ hr)
    rw [hhist.chain.readBack_prevHash (List.mem_of_head? he)]
    exact hhist.chain.first e he
  have hpinned : (report sha shardId s.pin (es.map (Entry.readBack shardId))).pinStatus
      = .pinnedOk := by
    obtain ⟨t, htruthy, htip, hlast, hcount⟩ := exists_pinned hpin hhist.chain hne
    simp only [report]
    rw [hlast, hcount, tip_readBack hhist.chain, htip, checkPin_eq_pinnedOk_iff htruthy,
      List.length_map]
    exact ⟨rfl, pyEq_str_right.mpr rfl⟩
  refine ⟨_, verifyShard_eq_ok.mpr ⟨_, hentries, rfl⟩, ?_, hpinned, ?_, List.length_map _, ?_⟩
  · refine status_eq_ok_iff.mpr ⟨hcons, ?_⟩
    rw [hpinned]
    decide
  · exact (verified_checkChain hcons hfirst).trans (List.length_map _)
  · exact checkChain_iff.mpr hcons

/-! ### Runs of appends -/

/-- A shard and the entries its appends returned. -/
structure Log (F : Type) where
  shard : Shard F
  returned : List (Entry F)

/-- One append, at a time; one that raises returns nothing. -/
def Log.append (cfg : Config) (shardId : PyStr) (l : Log F) (i : Datetime × Entry F) : Log F :=
  match l.shard.append cfg shardId i.1 i.2 with
  | (.ok e, s) => ⟨s, l.returned ++ [e]⟩
  | (.error _, s) => ⟨s, l.returned⟩

/-- Appends to a new shard, one after the other. -/
def appends (cfg : Config) (shardId family : PyStr) (is : List (Datetime × Entry F)) : Log F :=
  Run.run (Log.append cfg shardId) ⟨Shard.empty F family, []⟩ is

/-- The entry is the given one, chained and hashed. -/
def Entry.SealOf (e : Entry F) (i : Datetime × Entry F) : Prop :=
  ∃ p hash, e = { i.2 with prevHash := p, hash := hash }

theorem Entry.SealOf.stable {e : Entry F} {i : Datetime × Entry F} (h : e.SealOf i)
    (hs : i.2.Stable) : e.Stable := by
  obtain ⟨p, hash, rfl⟩ := h
  exact hs

theorem intact_empty (sha : Sha256) (shardId family : PyStr) :
    Intact sha shardId (Shard.empty F family) [] 0 where
  history := by
    refine ⟨[], ⟨⟨rfl, List.Pairwise.nil, by simp⟩, rfl, List.Forall₂.nil, ?_⟩, by simp [Clean]⟩
    exact ⟨by simp, linked_nil, by simp⟩
  pinned := ⟨rfl, rfl⟩

/-- **Every run of appends leaves an intact history** of the entries it returned,
which are those of the inputs it accepted, in their order. -/
theorem intact_appends (cfg : Config) (shardId family : PyStr) (is : List (Datetime × Entry F)) :
    Intact cfg.sha shardId (appends cfg shardId family is).shard
        (appends cfg shardId family is).returned (appends cfg shardId family is).returned.length ∧
      ∃ js : List (Datetime × Entry F), js.Sublist is ∧
        List.Forall₂ Entry.SealOf (appends cfg shardId family is).returned js := by
  induction is using List.reverseRecOn with
  | nil => exact ⟨intact_empty _ _ _, [], List.Sublist.refl _, List.Forall₂.nil⟩
  | append_singleton is i ih =>
    obtain ⟨hint, js, hsub, hseal⟩ := ih
    have hstep : appends cfg shardId family (is ++ [i])
        = (appends cfg shardId family is).append cfg shardId i := Run.run_append _ _ _
    rw [hstep, Log.append]
    rcases intact_append i.1 hint i.2 with ⟨e, s, heq, hint', he⟩ | ⟨err, s, heq, hint'⟩
    · rw [heq]
      rw [List.length_append, List.length_singleton]
      refine ⟨hint', js ++ [i], hsub.append_right [i], ?_⟩
      exact List.rel_append hseal (List.Forall₂.cons he List.Forall₂.nil)
    · rw [heq]
      exact ⟨hint', js, hsub.trans (List.sublist_append_left _ _), hseal⟩

/-- What a run of appends returned is stable if its inputs are. -/
theorem stable_returned {cfg : Config} {shardId family : PyStr} {is : List (Datetime × Entry F)}
    (hs : ∀ i ∈ is, i.2.Stable) : ∀ e ∈ (appends cfg shardId family is).returned, e.Stable := by
  obtain ⟨-, js, hsub, hseal⟩ := intact_appends cfg shardId family is
  intro e he
  obtain ⟨j, hj, hej⟩ := Pointwise.exists_of_mem_left hseal he
  exact hej.stable (hs j (hsub.subset hj))

/-- **A run of accepted appends verifies and is read back.**  The report is `OK`
and `PINNED_OK`, every entry is verified, and the events are the written dicts in
the order they were appended. -/
theorem verifyShard_appends (cfg : Config) (shardId family : PyStr)
    (is : List (Datetime × Entry F)) (hne : is ≠ [])
    (hok : (appends cfg shardId family is).returned.length = is.length)
    (hs : ∀ i ∈ is, i.2.Stable) :
    (∃ r, verifyShard cfg.sha shardId (appends cfg shardId family is).shard = .ok r ∧
      r.status = .ok ∧ r.pinStatus = .pinnedOk ∧ r.verified = is.length ∧
      r.totalEntries = is.length ∧ r.tampered = 0 ∧ r.chainBreaks = 0) ∧
    List.Forall₂ Entry.SealOf (appends cfg shardId family is).returned is ∧
    iterShardEvents (appends cfg shardId family is).shard.family
      = .ok ((appends cfg shardId family is).returned.map (Entry.stored shardId)) := by
  obtain ⟨hint, js, hsub, hseal⟩ := intact_appends cfg shardId family is
  have hjs : js = is := hsub.eq_of_length (hseal.length_eq.symm.trans hok)
  subst hjs
  refine ⟨?_, hseal, ?_⟩
  · rw [← hok]
    refine report_intact hint (stable_returned hs) ?_
    intro hnil
    rw [hnil] at hok
    exact hne (List.length_eq_zero_iff.mp hok.symm)
  · obtain ⟨⟨segs, hhist, hclean⟩, -⟩ := hint
    exact iterShardEvents_history hhist (quiet_of_clean hclean)

/-! ### A sample run -/

/-- Bytes for digests, and the limits of the module. -/
def sampleConfig : Config := ⟨nibbles, defaultLimits⟩

/-- A time for the samples. -/
def sampleTime : Datetime := ⟨⟨2026, 1, 2, 3, 4, 5, 0, some 0⟩, sampleSecond_valid⟩

/-- An entry for the samples. -/
def sampleEntry (content : PyStr) (metadata : PyVal FloatLit) : Entry FloatLit where
  id := .str (py "e")
  timestamp := sampleTime
  sessionId := .str (py "s")
  source := .str (py "test")
  content := .str content
  shard := .str (py "default")
  hash := .none
  prevHash := .none
  metadata := metadata
  version := .str (py "v2.0")

/-- Two appends, one of them with metadata. -/
def sampleAppends : List (Datetime × Entry FloatLit) :=
  [(sampleTime, sampleEntry (py "one") (.dict [])),
    (sampleTime, sampleEntry (py "two") (.dict [(.str (py "k"), .list [.int 1, .none])]))]

/-- The sample run verifies. -/
theorem verifyShard_sampleAppends : sampleAppends.length = 2 ∧ ∃ r,
    verifyShard nibbles (py "default")
      (appends sampleConfig (py "default") (py "default") sampleAppends).shard = .ok r ∧
    r.status = .ok ∧ r.pinStatus = .pinnedOk ∧ r.verified = 2 := by
  obtain ⟨⟨r, hr, hok, hpin, hver, -⟩, -⟩ := verifyShard_appends sampleConfig (py "default")
    (py "default") sampleAppends (by decide) (by decide +kernel) (by decide +kernel)
  exact ⟨rfl, r, hr, hok, hpin, hver⟩

/-- Metadata whose integer keys are in another order than their texts. -/
def unstableMetadata : PyVal FloatLit := .dict [(.int 2, .int 0), (.int 10, .int 0)]

/-- No append leaves no pin, and accepted metadata with unsorted key texts is
reported as tampering. -/
theorem unpinned_and_tampered_appends :
    (verifyShard nibbles (py "default")
        (appends (F := FloatLit) sampleConfig (py "default") (py "default") []).shard).map
      Report.pinStatus = .ok .unpinned ∧
    (appends sampleConfig (py "default") (py "default")
        [(sampleTime, sampleEntry (py "one") unstableMetadata)]).returned.length = 1 ∧
    (verifyShard nibbles (py "default") (appends sampleConfig (py "default") (py "default")
        [(sampleTime, sampleEntry (py "one") unstableMetadata)]).shard).map Report.status
      = .ok .tampered := by
  decide +kernel

end Daryl
