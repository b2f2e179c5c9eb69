import Daryl.Dsm.History

/-!
# Tamper evidence

The segment files are rewritten at will, and the pin is not: what `verify_shard`
then says.  The pinned tip binds the entries before it, one link after the other,
so at equal length an `OK` leaves every hashed field as it was appended.  Beyond
the pinned length the tip is not looked for, and fields outside the canonical
dict are not looked at.

## Main definitions

* `Entry.Matches` — a stored entry agrees with the appended one on every hashed
  field, on its link and on its stored hash.
* `Field`, `Record.set` — the fields of a line, and a line with one of them
  replaced.

## Main results

* `matches_of_hash_eq` — one hash, one entry, when the digest does not collide.
* `verifyShard_pinnedOk_matches` — **`PINNED_OK` at the pinned tip binds the whole
  history.**
* `verifyShard_ahead_iff` — when a longer shard that verifies extends the pinned
  one.
* `verifyShard_set_iff` — which modifications of a field are detected.
-/

namespace Daryl

open Py Json HashChain

variable {F : Type} [PyFloat F]

/-! ### Strings read from disk -/

theorem encodable_textLines {bs : List Byte} {lines : List PyStr} (h : textLines bs = .ok lines) :
    ∀ l ∈ lines, Encodable l := by
  unfold textLines at h
  split at h
  · next text htext =>
    rw [Except.ok.injEq] at h
    intro l hl c hc
    rcases mem_universalNewlines (mem_of_mem_splitNl (h ▸ hl) hc) with rfl | hc
    · decide
    · exact encodable_of_decodeUtf8 htext c hc
  · simp at h

/-- The events of decoded lines hold no split surrogate pair. -/
theorem joined_lineEvent {line : PyStr} {event : PyVal F} (h : lineEvent line = some event)
    (hline : Encodable line) : eachStr Joined event := by
  unfold lineEvent at h
  split_ifs at h
  exact joined_of_loads h fun c hc => hline c (mem_of_mem_strip hc)

theorem joined_iterShardEvents {fam : Family} {events : List (PyVal F)}
    (h : iterShardEvents fam = .ok events) : ∀ event ∈ events, eachStr Joined event := by
  unfold iterShardEvents at h
  cases hls : (getSegmentFiles fam).mapM fun f => textLines f.2 with
  | error e =>
    rw [hls] at h
    cases h
  | ok ls =>
    rw [hls] at h
    cases h
    intro event hevent
    obtain ⟨line, hline, hl⟩ := List.mem_filterMap.mp hevent
    obtain ⟨lines, hlines, hmem⟩ := List.mem_flatten.mp hline
    obtain ⟨f, -, hf⟩ := Pointwise.exists_of_mem_right (Pointwise.of_mapM_ok hls) hlines
    exact joined_lineEvent hl (encodable_textLines hf line hmem)

/-- What holds of every string of a dict holds of those under a key. -/
theorem eachStr_getNone {P : PyStr → Prop} {k : PyStr} {kvs : List (Key F × PyVal F)}
    (h : eachStr P (.dict kvs)) : eachStr P (getNone k kvs) := by
  unfold getNone
  cases hk : dictGet k kvs with
  | none => trivial
  | some v => exact (eachStrItems_iff.mp h _ (mem_of_dictGet hk)).2

/-- The entry of an event without split pairs has none in its hashed fields. -/
theorem hashedJoined_of_event {event : PyVal F} {e : Entry F}
    (h : entryFromEventData event = .ok e) (hj : eachStr Joined event) : e.HashedJoined := by
  obtain ⟨kvs, text, d, rfl, -, -, rfl⟩ := entryFromEventData_eq_ok.mp h
  refine ⟨eachStr_getNone hj, eachStr_getNone hj, ?_, eachStr_getNone hj, eachStr_getNone hj⟩
  simp only [entryOfItems]
  cases hm : dictGet (py "metadata") kvs with
  | none => trivial
  | some m => exact (eachStrItems_iff.mp hj _ (mem_of_dictGet hm)).2

/-- **No entry read from disk has a split surrogate pair in a hashed field.** -/
theorem hashedJoined_of_disk {fam : Family} {ds : List (Entry F)}
    (h : chronoEntries fam = .ok ds) : ∀ d ∈ ds, d.HashedJoined := by
  intro d hd
  unfold chronoEntries at h
  cases hev : iterShardEvents (F := F) fam with
  | error e =>
    rw [hev] at h
    cases h
  | ok events =>
    rw [hev] at h
    obtain ⟨event, hevent, hde⟩ := mem_entriesOf h d hd
    exact hashedJoined_of_event hde (joined_iterShardEvents hev event hevent)

/-! ### What a stored hash binds -/

/-- A stored entry agrees with the appended one on every hashed field, on its
link and on its stored hash. -/
structure Entry.Matches (e d : Entry F) : Prop where
  agree : e.Agree d
  link : e.prevHash = d.prevHash
  hash : e.hash = d.hash

/-- The line of an entry encodes, so no hashed field holds a split pair. -/
theorem Recorded.hashedJoined {shardId : PyStr} {e : Entry F} {line : PyStr}
    (h : Recorded shardId e line) : e.HashedJoined := by
  obtain ⟨w, hw, hline⟩ := h.printed
  have heach := (eachStr_of_sortDicts hw).mp ((encodable_print rfl hline).mp h.encodable)
  obtain ⟨-, -, -, -, -, hse, -, hso, -, hc, -, -, -, -, -, hp, -, hm, -⟩ := heach
  have joined : ∀ {v : PyVal F}, eachStr Encodable v → eachStr Joined v :=
    eachStr_mono fun _ => joined_of_encodable
  exact ⟨joined hse, joined hso, joined hm, joined hc, joined hp⟩

/-- The strings of a history are joined. -/
theorem History.hashedJoined {sha : Sha256} {shardId : PyStr} {fam : Family} {segs : List Segment}
    {es : List (Entry F)} (h : History sha shardId fam segs es) : ∀ e ∈ es, e.HashedJoined := by
  intro e he
  obtain ⟨line, -, hline⟩ := Pointwise.exists_of_mem_left h.lines he
  exact hline.hashedJoined

/-- **One stored hash, one canonical text**, when the digest does not collide. -/
theorem canonicalJson_of_hash_eq {sha : Sha256} (hinj : Function.Injective sha) {e d : Entry F}
    (he : Sealed sha e) (hd : hashOk sha d = true) (h : e.hash = d.hash) :
    canonicalJson (buildCanonicalEntry d d.prevHash)
      = canonicalJson (buildCanonicalEntry e e.prevHash) := by
  obtain ⟨bs, hbs, hhash⟩ := he
  obtain ⟨-, bs', hbs', hd | hd⟩ := hashOk_iff.mp hd
  · rw [hhash, hd, PyVal.str.injEq, List.append_cancel_left_eq] at h
    rw [hbs, hbs', hexdigest_injective hinj h]
  · -- a bare digest has no version in front of it
    rw [hhash, hd, PyVal.str.injEq] at h
    have hcolon : 58 ∈ v1Prefix ++ hexdigest sha bs :=
      List.mem_append_left _ (by decide : 58 ∈ v1Prefix)
    exact absurd (h ▸ hcolon) (colon_notMem_hexdigest sha bs')

/-- **One stored hash, one entry.** -/
theorem matches_of_hash_eq {sha : Sha256} (hinj : Function.Injective sha) {e d : Entry F}
    (he : Sealed sha e) (hlink : e.prevHash = .none ∨ ∃ s, e.prevHash = .str s)
    (hd : hashOk sha d = true) (hje : e.HashedJoined) (hjd : d.HashedJoined)
    (h : e.hash = d.hash) : e.Matches d := by
  have hjson := canonicalJson_of_hash_eq hinj he hd h
  obtain ⟨bs, hbs, -⟩ := he
  have hagree := agree_of_canonicalJson_eq hbs (hjson.trans hbs) hje hjd
  refine ⟨hagree, ?_, h⟩
  have hprev := hagree.prevHash
  rcases hlink with hp | ⟨s, hp⟩
  · rw [hp]
    rw [hp] at hprev
    exact (eq_of_canon_none hprev.symm).symm
  · rw [hp]
    rw [hp] at hprev
    exact (eq_of_canon_str hprev.symm).symm

/-- Matching entries have one tip. -/
theorem tip_of_matches {es ds : List (Entry F)} (h : List.Forall₂ Entry.Matches es ds) :
    tip es = tip ds := by
  rcases Pointwise.getLast?_cases h with ⟨rfl, rfl⟩ | ⟨e, d, he, hd, hmatch⟩
  · rfl
  · rw [tip, tip, he, hd]
    exact hmatch.hash

/-- **The tip binds the history.**  A consistent shard that carries the tip of a
sealed chain at its position matches the chain up to there. -/
theorem matches_of_tip {sha : Sha256} (hinj : Function.Injective sha) {es ds : List (Entry F)}
    (hes : SealedChain sha es) (hje : ∀ e ∈ es, e.HashedJoined) (hds : Consistent sha ds)
    (hjd : ∀ d ∈ ds, d.HashedJoined) (hlen : es.length ≤ ds.length)
    (htip : ∀ e ∈ es.getLast?, ∀ d ∈ (ds.take es.length).getLast?, e.hash = d.hash) :
    List.Forall₂ Entry.Matches es (ds.take es.length) := by
  refine agree_of_position ?_ (fun _ _ h => h.link) hes.linked hds.linked hlen htip
  intro e he d hd h
  exact matches_of_hash_eq hinj (hes.hashes e he) (hes.link e he) (hds.hashes d hd) (hje e he)
    (hjd d hd) h

/-! ### Samples of rewriting -/

/-- One append. -/
def pinnedAppends : List (Datetime × Entry FloatLit) :=
  [(sampleTime, sampleEntry (py "one") (.dict []))]

/-- Another history, longer than the pinned one. -/
def forgedAppends : List (Datetime × Entry FloatLit) :=
  [(sampleTime, sampleEntry (py "three") (.dict [])),
    (sampleTime, sampleEntry (py "four") (.dict []))]

/-- The samples of this section go to one shard. -/
def sampleRun (is : List (Datetime × Entry FloatLit)) : Log FloatLit :=
  appends sampleConfig (py "default") (py "default") is

theorem sampleRun_eq (is : List (Datetime × Entry FloatLit)) :
    sampleRun is = appends sampleConfig (py "default") (py "default") is := rfl

/-- What is on the disk after it is what the appends returned. -/
theorem chronoEntries_sampleRun (is : List (Datetime × Entry FloatLit)) :
    chronoEntries (sampleRun is).shard.family
      = .ok ((sampleRun is).returned.map (Entry.readBack (py "default"))) := by
  obtain ⟨⟨⟨segs, hhist, hclean⟩, -⟩, -⟩ :=
    intact_appends sampleConfig (py "default") (py "default") is
  exact chronoEntries_history hhist (quiet_of_clean hclean)

/-- The entry of the one append. -/
def pinnedEntry : Entry FloatLit :=
  (sampleRun pinnedAppends).returned.headD (sampleEntry [] .none)

theorem returned_pinnedAppends : (sampleRun pinnedAppends).returned = [pinnedEntry] := by
  decide +kernel

/-- The segment files that hold the records of these entries. -/
def relog (es : List (Entry FloatLit)) : Family :=
  ⟨py "default", [(segmentName (py "default") 1, es.flatMap fun e =>
    match dumpsSorted lineStyle (entryDict (py "default") e) with
    | .ok line => lineBytes line
    | .error _ => [])], none⟩

/-- The pinned entry with other metadata that counts as false. -/
def emptied : Entry FloatLit := { pinnedEntry with metadata := .list [] }

/-- The pinned entry under another id. -/
def renamed : Entry FloatLit := { pinnedEntry with id := .str (py "other") }

/-! ### Rewriting the segment files -/

/-- What a run of appends has in store for a later reader of other segment files:
the pinned hash and number, and the entries behind them. -/
theorem exists_pinned_appends (cfg : Config) (shardId family : PyStr)
    {is : List (Datetime × Entry F)} (hne : (appends cfg shardId family is).returned ≠ []) :
    SealedChain cfg.sha (appends cfg shardId family is).returned ∧
      (∀ e ∈ (appends cfg shardId family is).returned, e.HashedJoined) ∧ ∃ s : PyStr,
      (PyVal.str s : PyVal F).truthy = true ∧
      tip (appends cfg shardId family is).returned = .str s ∧
      getLastHash (appends cfg shardId family is).shard.pin = .str s ∧
      (appends cfg shardId family is).shard.pin.read.bind Pin.entryCount
        = some (appends cfg shardId family is).returned.length := by
  obtain ⟨⟨⟨segs, hhist, -⟩, hpin⟩, -⟩ := intact_appends cfg shardId family is
  exact ⟨hhist.chain, hhist.hashedJoined, exists_pinned hpin hhist.chain hne⟩

omit [PyFloat F] in
/-- Two tips that are one. -/
theorem hash_eq_of_tip {es ds : List (Entry F)} (h : tip es = tip ds) :
    ∀ e ∈ es.getLast?, ∀ d ∈ ds.getLast?, e.hash = d.hash := by
  intro e he d hd
  rw [tip, tip, Option.mem_def.mp he, Option.mem_def.mp hd] at h
  exact h

/-- **`PINNED_OK` binds the whole history.**  Whatever is done to the segment files
of a run of appends, if the report is `OK` and `PINNED_OK` then the entries on disk
are as many as were appended and match them one by one. -/
theorem verifyShard_pinnedOk_matches (cfg : Config) (hinj : Function.Injective cfg.sha)
    (shardId family : PyStr) (is : List (Datetime × Entry F)) (fam : Family) (r : Report F)
    (hr : verifyShard cfg.sha shardId ⟨fam, (appends cfg shardId family is).shard.pin⟩ = .ok r)
    (hok : r.status = .ok) (hpin : r.pinStatus = .pinnedOk) :
    ∃ ds, chronoEntries fam = .ok ds ∧
      ds.length = (appends cfg shardId family is).returned.length ∧
      List.Forall₂ Entry.Matches (appends cfg shardId family is).returned ds := by
  obtain ⟨ds, hds, rfl⟩ := verifyShard_eq_ok.mp hr
  have hcons := (status_eq_ok_iff.mp hok).1
  by_cases hne : (appends cfg shardId family is).returned = []
  · -- without an entry there is no pin to meet
    obtain ⟨hint, -⟩ := intact_appends cfg shardId family is
    have hpinned := hint.pinned
    rw [hne] at hpinned
    have habsent : (appends cfg shardId family is).shard.pin = .absent := hpinned.1
    rw [habsent] at hpin
    exact absurd hpin (by simp [report, checkPin, getLastHash, PinFile.read, PyVal.truthy])
  · obtain ⟨hchain, hjoined, s, htruthy, htip, hlast, hcount⟩ :=
      exists_pinned_appends cfg shardId family hne
    simp only [report] at hpin
    rw [hlast, hcount, checkPin_eq_pinnedOk_iff htruthy] at hpin
    obtain ⟨hlen, htip'⟩ := hpin
    have htips : tip (appends cfg shardId family is).returned = tip ds :=
      htip.trans (pyEq_str_right.mp htip').symm
    have hmatch := matches_of_tip hinj hchain hjoined hcons (hashedJoined_of_disk hds) hlen.ge
      (by rw [← hlen, List.take_length]; exact hash_eq_of_tip htips)
    rw [← hlen, List.take_length] at hmatch
    exact ⟨ds, hds, hlen, hmatch⟩

/-- The emptied entry is not noticed. -/
theorem status_emptied : (verifyShard nibbles (py "default")
    ⟨relog [emptied], (sampleRun pinnedAppends).shard.pin⟩).map
      (fun r => (r.status, r.pinStatus)) = .ok (.ok, .pinnedOk) := by
  decide +kernel

/-- The pinned run with its metadata emptied still matches. -/
theorem verifyShard_emptied_matches : ∃ ds, chronoEntries (relog [emptied]) = .ok ds ∧
    ds.length = (sampleRun pinnedAppends).returned.length ∧
    List.Forall₂ Entry.Matches (sampleRun pinnedAppends).returned ds := by
  obtain ⟨r, hr, hstatus⟩ := exists_report status_emptied
  obtain ⟨hok, hpin⟩ := Prod.mk.inj hstatus
  rw [sampleRun_eq] at hr ⊢
  exact verifyShard_pinnedOk_matches sampleConfig nibbles_injective (py "default") (py "default")
    pinnedAppends (relog [emptied]) r hr hok hpin

/-- An empty list in the place of the appended `{}` passes as `PINNED_OK`. -/
theorem verifyShard_emptied :
    (verifyShard nibbles (py "default")
      ⟨relog [emptied], (sampleRun pinnedAppends).shard.pin⟩).map
        (fun r => (r.status, r.pinStatus)) = .ok (.ok, .pinnedOk) ∧
    (sampleRun pinnedAppends).returned.map Entry.metadata = [.dict []] ∧
    (chronoEntries (relog [emptied])).map (List.map Entry.metadata)
      = .ok [(.list [] : PyVal FloatLit)] :=
  ⟨status_emptied, by decide +kernel, by decide +kernel⟩

omit [PyFloat F] in
/-- The hash at a position is the tip up to there. -/
theorem hash_getElem?_eq {ds : List (Entry F)} {n : ℕ} {h : PyVal F} (hn : 0 < n)
    (hlen : n ≤ ds.length) : ds[n - 1]?.map Entry.hash = some h ↔ tip (ds.take n) = h := by
  have hget : (ds.take n).getLast? = ds[n - 1]? := by
    rw [List.getLast?_take, if_neg hn.ne', List.getElem?_eq_getElem (by omega)]
    rfl
  rw [tip, hget, List.getElem?_eq_getElem (by omega)]
  simp

/-- Whether a longer shard that verifies extends the pinned one: it does exactly
when, its own chain being consistent, its first entries are the appended ones. -/
theorem verifyShard_ahead_iff (cfg : Config) (hinj : Function.Injective cfg.sha)
    (shardId family : PyStr) (is : List (Datetime × Entry F))
    (hne : (appends cfg shardId family is).returned ≠ []) (fam : Family) (ds : List (Entry F))
    (hds : chronoEntries fam = .ok ds)
    (hlen : (appends cfg shardId family is).returned.length < ds.length) :
    (∀ r, verifyShard cfg.sha shardId ⟨fam, (appends cfg shardId family is).shard.pin⟩ = .ok r →
        r.status = .ok →
        ds[(appends cfg shardId family is).returned.length - 1]?.map Entry.hash
          = some (getLastHash (appends cfg shardId family is).shard.pin)) ↔
      (Consistent cfg.sha ds → List.Forall₂ Entry.Matches (appends cfg shardId family is).returned
        (ds.take (appends cfg shardId family is).returned.length)) := by
  obtain ⟨hchain, hjoined, s, htruthy, htip, hlast, hcount⟩ :=
    exists_pinned_appends cfg shardId family hne
  generalize (appends cfg shardId family is).returned = es at *
  generalize (appends cfg shardId family is).shard.pin = pin at *
  have hpos : 0 < es.length := List.length_pos_iff.mpr hne
  have hstatus : (report cfg.sha shardId pin ds).status = .ok ↔ Consistent cfg.sha ds := by
    rw [status_eq_ok_iff, and_iff_left_iff_imp]
    intro _ hpin
    simp only [report] at hpin
    rw [hlast, hcount, checkPin_eq_tipMismatch_iff htruthy] at hpin
    omega
  rw [hlast, hash_getElem?_eq hpos hlen.le]
  constructor
  · intro h hcons
    have htip' := h _ (verifyShard_eq_ok.mpr ⟨ds, hds, rfl⟩) (hstatus.mpr hcons)
    exact matches_of_tip hinj hchain hjoined hcons (hashedJoined_of_disk hds) hlen.le
      (hash_eq_of_tip (htip.trans htip'.symm))
  · intro h r hr hok
    obtain ⟨ds', hds', rfl⟩ := verifyShard_eq_ok.mp hr
    obtain rfl : ds = ds' := Except.ok.inj (hds.symm.trans hds')
    have hmatch := h (hstatus.mp hok)
    rw [← htip]
    exact (tip_of_matches hmatch).symm

/-- A longer shard that verifies: the theorem at the pinned run and two entries
behind it. -/
theorem verifyShard_ahead_sample : ∃ ds,
    chronoEntries (sampleRun sampleAppends).shard.family = .ok ds ∧ ds.length = 2 ∧
    ((∀ r, verifyShard nibbles (py "default") ⟨(sampleRun sampleAppends).shard.family,
          (sampleRun pinnedAppends).shard.pin⟩ = .ok r → r.status = .ok →
        ds[(sampleRun pinnedAppends).returned.length - 1]?.map Entry.hash
          = some (getLastHash (sampleRun pinnedAppends).shard.pin)) ↔
      (Consistent nibbles ds → List.Forall₂ Entry.Matches (sampleRun pinnedAppends).returned
        (ds.take (sampleRun pinnedAppends).returned.length))) := by
  have hone := congrArg List.length returned_pinnedAppends
  have htwo : (sampleRun sampleAppends).returned.length = 2 := by decide +kernel
  simp only [sampleRun_eq] at hone htwo ⊢
  have hds := chronoEntries_sampleRun sampleAppends
  rw [sampleRun_eq] at hds
  refine ⟨_, hds, (List.length_map _).trans htwo, ?_⟩
  apply verifyShard_ahead_iff sampleConfig nibbles_injective (py "default") (py "default")
    pinnedAppends _ _ _ hds
  · rw [List.length_map, hone, htwo]
    norm_num
  · intro hnil
    rw [hnil] at hone
    simp at hone

/-- Two forged entries in the place of the pinned one verify. -/
theorem verifyShard_forged :
    (verifyShard nibbles (py "default") ⟨(sampleRun forgedAppends).shard.family,
        (sampleRun pinnedAppends).shard.pin⟩).map Report.status = .ok .ok ∧
    (chronoEntries (F := FloatLit) (sampleRun forgedAppends).shard.family).map List.length
      = .ok 2 ∧
    ((sampleRun pinnedAppends).shard.pin.read.bind Pin.entryCount) = some 1 ∧
    (chronoEntries (F := FloatLit) (sampleRun forgedAppends).shard.family).map
        (fun ds => ds[0]?.map Entry.hash)
      ≠ .ok (some (getLastHash (sampleRun pinnedAppends).shard.pin)) := by
  rw [verifyShard, chronoEntries_sampleRun]
  decide +kernel

/-! ### Replacing a field -/

/-- The fields of a line. -/
inductive Field
  | id
  | timestamp
  | sessionId
  | source
  | content
  | shard
  | hash
  | prevHash
  | metadata
  | version
  deriving DecidableEq

/-- The key of a field. -/
def Field.key : Field → PyStr
  | .id => py "id"
  | .timestamp => py "timestamp"
  | .sessionId => py "session_id"
  | .source => py "source"
  | .content => py "content"
  | .shard => py "shard"
  | .hash => py "hash"
  | .prevHash => py "prev_hash"
  | .metadata => py "metadata"
  | .version => py "version"

/-- The value of a field. -/
def Record.get (r : Record F) : Field → PyVal F
  | .id => r.id
  | .timestamp => r.timestamp
  | .sessionId => r.sessionId
  | .source => r.source
  | .content => r.content
  | .shard => r.shard
  | .hash => r.hash
  | .prevHash => r.prevHash
  | .metadata => r.metadata
  | .version => r.version

/-- The record with a field replaced. -/
def Record.set (f : Field) (v : PyVal F) (r : Record F) : Record F :=
  match f with
  | .id => { r with id := v }
  | .timestamp => { r with timestamp := v }
  | .sessionId => { r with sessionId := v }
  | .source => { r with source := v }
  | .content => { r with content := v }
  | .shard => { r with shard := v }
  | .hash => { r with hash := v }
  | .prevHash => { r with prevHash := v }
  | .metadata => { r with metadata := v }
  | .version => { r with version := v }

/-- `event[key] = v` on an event. -/
def setItem (k : PyStr) (v : PyVal F) : PyVal F → PyVal F
  | .dict kvs => .dict (dictSet k v kvs)
  | w => w

/-- `None` and `{}`. -/
def EmptyLike (v : PyVal F) : Prop := v = .none ∨ v = .dict []

/-- The value is another one than the stored one, whatever the order of its keys;
for metadata `None` and `{}` count as one. -/
def Field.Differs (f : Field) (v old : PyVal F) : Prop :=
  canon v ≠ some old ∧ ¬(f = .metadata ∧ EmptyLike v ∧ EmptyLike old)

/-- What the canonical dict says of a new value: `id`, `shard` and `version` are not
in it, metadata is there unless it counts as false, and a timestamp stands for
the time its text parses to. -/
def Field.Covered (f : Field) (e : Entry F) (v : PyVal F) : Prop :=
  match f with
  | .id | .shard | .version => False
  | .timestamp => ∀ text, v = .str text → fromisoformat text ≠ some e.timestamp
  | .metadata => v.truthy = true ∨ e.metadata.truthy = true
  | .sessionId | .source | .content | .hash | .prevHash => True

omit [PyFloat F] in
theorem dictSet_items (f : Field) (v : PyVal F) (r : Record F) :
    dictSet f.key v r.items = (r.set f v).items := by
  cases f <;> rfl

omit [PyFloat F] in
/-- `entriesOf` makes at most one entry of each event, and when it makes one of each
they belong together. -/
theorem entriesOf_length {events : List (PyVal F)} {ds : List (Entry F)}
    (h : entriesOf events = .ok ds) : ds.length ≤ events.length ∧
      (ds.length = events.length →
        List.Forall₂ (fun event d => entryFromEventData event = .ok d) events ds) := by
  induction events generalizing ds with
  | nil =>
    rw [entriesOf, Except.ok.injEq] at h
    subst h
    exact ⟨le_rfl, fun _ => List.Forall₂.nil⟩
  | cons event events ih =>
    unfold entriesOf at h
    split at h
    · next d hd =>
      cases hes : entriesOf events with
      | error err =>
        rw [hes] at h
        cases h
      | ok ds' =>
        rw [hes] at h
        cases h
        obtain ⟨hle, hall⟩ := ih hes
        simp only [List.length_cons, Nat.add_le_add_iff_right, Nat.add_right_cancel_iff]
        exact ⟨hle, fun heq => List.Forall₂.cons hd (hall heq)⟩
    · simp at h
    · have hle := (ih h).1
      rw [List.length_cons]
      exact ⟨by omega, fun heq => by omega⟩

omit [PyFloat F] in
theorem rightUnique_entryFromEventData :
    Relator.RightUnique fun (event : PyVal F) d => entryFromEventData event = .ok d := by
  intro event d d' h h'
  exact Except.ok.inj (h.symm.trans h')

/-- Two entries no check of the pass tells apart. -/
structure Entry.Alike (d d' : Entry F) : Prop where
  canonical : buildCanonicalEntry d d.prevHash = buildCanonicalEntry d' d'.prevHash
  hash : d.hash = d'.hash
  link : d.prevHash = d'.prevHash

theorem Entry.Alike.refl (d : Entry F) : d.Alike d := ⟨rfl, rfl, rfl⟩

theorem hashOk_of_alike {sha : Sha256} {d d' : Entry F} (h : d.Alike d') :
    hashOk sha d' = hashOk sha d := by
  rw [hashOk, hashOk, h.canonical, h.hash]

/-- Consistency does not tell alike entries apart. -/
theorem Consistent.of_alike {sha : Sha256} {ds ds' : List (Entry F)} (h : Consistent sha ds)
    (ha : List.Forall₂ Entry.Alike ds ds') : Consistent sha ds' where
  hashes := by
    intro d' hd'
    obtain ⟨d, hd, hdd⟩ := Pointwise.exists_of_mem_right ha hd'
    rw [hashOk_of_alike hdd]
    exact h.hashes d hd
  linked := by
    have hlinked := h.linked
    clear h
    induction ha with
    | nil => exact linked_nil
    | @cons a a' as as' haa' has ih =>
      cases has with
      | nil => exact linked_singleton _
      | @cons b b' bs bs' hbb' _ =>
        unfold Linked at hlinked ih ⊢
        rw [List.isChain_cons_cons] at hlinked ⊢
        refine ⟨?_, ih hlinked.2⟩
        rw [← haa'.hash, ← hbb'.link]
        exact hlinked.1

theorem tip_of_alike {ds ds' : List (Entry F)} (h : List.Forall₂ Entry.Alike ds ds') :
    tip ds = tip ds' := by
  rcases Pointwise.getLast?_cases h with ⟨rfl, rfl⟩ | ⟨d, d', hd, hd', hdd⟩
  · rfl
  · rw [tip, tip, hd, hd']
    exact hdd.hash

/-- The value of a recorded field has the stored value for its canonical one. -/
theorem canon_of_recorded {shardId : PyStr} {e : Entry F} {line : PyStr}
    (h : Recorded shardId e line) :
    canon e.sessionId = some (readBack e.sessionId) ∧ canon e.source = some (readBack e.source) ∧
      canon e.content = some (readBack e.content) ∧ canon e.hash = some (readBack e.hash) ∧
      canon e.prevHash = some (readBack e.prevHash) ∧
      canon e.metadata = some (readBack e.metadata) := by
  obtain ⟨w, hw, -⟩ := h.printed
  rw [sortDicts_entryDict] at hw
  simp only [Option.bind_eq_some_iff, Option.map_eq_some_iff] at hw
  obtain ⟨id, -, se, hse, so, hso, c, hc, hh, hhash, p, hp, m, hm, -⟩ := hw
  have canonical : ∀ {v w : PyVal F}, sortDicts v = some w → canon v = some (readBack v) := by
    intro v w h
    rw [canon, readBack_of_sortDicts h, h, Option.map_some]
  exact ⟨canonical hse, canonical hso, canonical hc, canonical hhash, canonical hp, canonical hm⟩

/-- What counts as true has no canonical value in common with `{}`. -/
theorem canon_ne_empty {v : PyVal F} (h : v.truthy = true) : canon v ≠ some (.dict []) := by
  intro hv
  obtain ⟨w, hw, hform⟩ := Option.map_eq_some_iff.mp hv
  rw [← truthy_of_sortDicts hw, ← truthy_form, hform] at h
  simp [PyVal.truthy] at h

theorem canon_empty : canon (.dict [] : PyVal F) = some (.dict []) := rfl

/-- A new value that differs and agrees on the hashed fields all the same is not
covered. -/
theorem not_covered_of_matches {shardId : PyStr} {e : Entry F} {line : PyStr} {f : Field}
    {v : PyVal F} {d : Entry F} (hrec : Recorded shardId e line)
    (hdiff : f.Differs v ((e.record shardId).get f))
    (hd : entryFromEventData (.dict ((e.record shardId).set f v).items) = .ok d)
    (hmatch : e.Matches d) : ¬f.Covered e v := by
  obtain ⟨hse, hso, hc, hh, hp, hm⟩ := canon_of_recorded hrec
  obtain ⟨text, t, hts, ht, rfl⟩ := entryFromEventData_items.mp hd
  have hagree := hmatch.agree
  cases f with
  | id => exact id
  | shard => exact id
  | version => exact id
  | timestamp =>
    intro hcov
    refine hcov text hts ?_
    rw [ht, hagree.timestamp]
    rfl
  | sessionId => exact fun _ => hdiff.1 (hagree.sessionId.symm.trans hse)
  | source => exact fun _ => hdiff.1 (hagree.source.symm.trans hso)
  | content => exact fun _ => hdiff.1 (hagree.content.symm.trans hc)
  | hash => exact fun _ => hdiff.1 ((congrArg canon hmatch.hash).symm.trans hh)
  | prevHash => exact fun _ => hdiff.1 (hagree.prevHash.symm.trans hp)
  | metadata =>
    have hmeta : canon e.metadata.orEmpty = canon v.orEmpty := hagree.metadata
    rintro (hv | he)
    · by_cases he : e.metadata.truthy = true
      · rw [PyVal.orEmpty, PyVal.orEmpty, if_pos he, if_pos hv, hm] at hmeta
        exact hdiff.1 hmeta.symm
      · rw [PyVal.orEmpty, PyVal.orEmpty, if_neg he, if_pos hv, canon_empty] at hmeta
        exact canon_ne_empty hv hmeta.symm
    · by_cases hv : v.truthy = true
      · rw [PyVal.orEmpty, PyVal.orEmpty, if_pos he, if_pos hv, hm] at hmeta
        exact hdiff.1 hmeta.symm
      · rw [PyVal.orEmpty, PyVal.orEmpty, if_pos he, if_neg hv, canon_empty] at hmeta
        exact canon_ne_empty he hmeta

/-- A new value that is not covered leaves an entry no check tells apart. -/
theorem alike_of_not_covered {shardId : PyStr} {e : Entry F} {f : Field} {v : PyVal F}
    (hcov : ¬f.Covered e v) : ∃ d,
      entryFromEventData (.dict ((e.record shardId).set f v).items) = .ok d ∧
        (e.readBack shardId).Alike d := by
  have hparse := fromisoformat_isoformat e.timestamp
  cases f with
  | id => exact ⟨_, entryFromEventData_items.mpr ⟨_, _, rfl, hparse, rfl⟩, rfl, rfl, rfl⟩
  | shard => exact ⟨_, entryFromEventData_items.mpr ⟨_, _, rfl, hparse, rfl⟩, rfl, rfl, rfl⟩
  | version => exact ⟨_, entryFromEventData_items.mpr ⟨_, _, rfl, hparse, rfl⟩, rfl, rfl, rfl⟩
  | timestamp =>
    simp only [Field.Covered, not_forall, not_not] at hcov
    obtain ⟨text, rfl, ht⟩ := hcov
    exact ⟨_, entryFromEventData_items.mpr ⟨text, _, rfl, ht, rfl⟩, rfl, rfl, rfl⟩
  | metadata =>
    obtain ⟨hv, he⟩ := not_or.mp hcov
    refine ⟨_, entryFromEventData_items.mpr ⟨_, _, rfl, hparse, rfl⟩, ?_, rfl, rfl⟩
    have hm : (readBack e.metadata).orEmpty = v.orEmpty := by
      rw [PyVal.orEmpty, PyVal.orEmpty, truthy_readBack, if_neg he, if_neg hv]
    simp only [buildCanonicalEntry, Entry.readBack, Record.entry, Entry.record, Record.set, hm]
  | sessionId | source | content | hash | prevHash => exact absurd trivial hcov

/-- **Which replacements of a field are detected.**  In the record of any entry of a
run, put another value in any field, and leave the pin alone: `verify_shard` says
something other than `OK` exactly when some entry of the run does not read back to
the bytes that were hashed, or the canonical dict covers the new value. -/
theorem verifyShard_set_iff (cfg : Config) (hinj : Function.Injective cfg.sha)
    (shardId family : PyStr) (is : List (Datetime × Entry F)) (pre post : List (Entry F))
    (e : Entry F) (hes : (appends cfg shardId family is).returned = pre ++ e :: post) (f : Field)
    (v : PyVal F) (hdiff : f.Differs v ((e.record shardId).get f)) (fam : Family)
    (hfam : iterShardEvents fam = .ok (pre.map (Entry.stored shardId) ++
      setItem f.key v (e.stored shardId) :: post.map (Entry.stored shardId))) :
    (∀ r, verifyShard cfg.sha shardId ⟨fam, (appends cfg shardId family is).shard.pin⟩ = .ok r →
        r.status ≠ .ok) ↔
      (∃ x ∈ (appends cfg shardId family is).returned, ¬x.Faithful shardId) ∨ f.Covered e v := by
  have hne : (appends cfg shardId family is).returned ≠ [] := by simp [hes]
  obtain ⟨⟨⟨segs, hhist, -⟩, -⟩, -⟩ := intact_appends cfg shardId family is
  obtain ⟨hchain, hjoined, s, htruthy, htip, hlast, hcount⟩ :=
    exists_pinned_appends cfg shardId family hne
  have hlines := hhist.lines
  clear hhist
  generalize (appends cfg shardId family is).returned = es at *
  generalize (appends cfg shardId family is).shard.pin = pin at *
  subst hes
  have hrecorded : ∀ x ∈ pre ++ e :: post, ∃ line, Recorded shardId x line := by
    intro x hx
    obtain ⟨line, -, hline⟩ := Pointwise.exists_of_mem_left hlines hx
    exact ⟨line, hline⟩
  obtain ⟨line, hrec⟩ := hrecorded e (by simp)
  have hset : setItem f.key v (e.stored shardId) = .dict ((e.record shardId).set f v).items := by
    obtain ⟨w, hw, -⟩ := hrec.printed
    rw [stored_eq hw, setItem, dictSet_items]
  rw [hset] at hfam
  have hparsed : ∀ xs : List (Entry F), (∀ x ∈ xs, x ∈ pre ++ e :: post) →
      List.Forall₂ (fun event d => entryFromEventData event = .ok d)
        (xs.map (Entry.stored shardId)) (xs.map (Entry.readBack shardId)) := by
    intro xs hxs
    rw [List.forall₂_map_left_iff, List.forall₂_map_right_iff, List.forall₂_same]
    intro x hx
    obtain ⟨line, hline⟩ := hrecorded x (hxs x hx)
    exact hline.entry
  have hpre := hparsed pre (by simp +contextual)
  have hpost := hparsed post (by simp +contextual)
  constructor
  · -- nothing is detected unless something is covered or does not read back
    intro h
    by_contra hcon
    obtain ⟨hfaithful, hcov⟩ := not_or.mp hcon
    push Not at hfaithful
    obtain ⟨d, hd, halike⟩ := alike_of_not_covered hcov
    have hds := entriesOf_eq_ok (List.rel_append hpre (List.Forall₂.cons hd hpost))
    have hchrono : chronoEntries fam = .ok (pre.map (Entry.readBack shardId) ++
        d :: post.map (Entry.readBack shardId)) := by
      rw [chronoEntries, hfam]
      exact hds
    have hall : List.Forall₂ Entry.Alike ((pre ++ e :: post).map (Entry.readBack shardId))
        (pre.map (Entry.readBack shardId) ++ d :: post.map (Entry.readBack shardId)) := by
      rw [List.map_append, List.map_cons]
      exact List.rel_append (List.forall₂_same.mpr fun x _ => Entry.Alike.refl x)
        (List.Forall₂.cons halike (List.forall₂_same.mpr fun x _ => Entry.Alike.refl x))
    refine h _ (verifyShard_eq_ok.mpr ⟨_, hchrono, rfl⟩) (status_eq_ok_iff.mpr ⟨?_, ?_⟩)
    · exact (consistent_history hchain hfaithful).of_alike hall
    · simp only [report]
      rw [hlast, hcount, ne_eq, checkPin_eq_tipMismatch_iff htruthy, ← tip_of_alike hall,
        tip_readBack hchain, htip, ← hall.length_eq, List.length_map]
      simp
  · -- if the report says `OK` the entries match those of the run
    intro hcond r hr hok
    obtain ⟨ds, hds, rfl⟩ := verifyShard_eq_ok.mp hr
    obtain ⟨hcons, hpin⟩ := status_eq_ok_iff.mp hok
    simp only [report] at hpin
    rw [hlast, hcount, ne_eq, checkPin_eq_tipMismatch_iff htruthy] at hpin
    have hentries := hds
    rw [chronoEntries, hfam] at hentries
    obtain ⟨hle, hall⟩ := entriesOf_length hentries
    have hevents : (pre.map (Entry.stored shardId) ++ .dict ((e.record shardId).set f v).items ::
        post.map (Entry.stored shardId)).length = (pre ++ e :: post).length := by simp
    have hlen : ds.length = (pre ++ e :: post).length := by omega
    have htips : tip (pre ++ e :: post) = tip ds := by
      rw [htip]
      refine (pyEq_str_right.mp ?_).symm
      by_contra hcon
      exact hpin (.inr ⟨hlen, Bool.eq_false_iff.mpr hcon⟩)
    have hmatch := matches_of_tip hinj hchain hjoined hcons (hashedJoined_of_disk hds) hlen.ge
      (by rw [← hlen, List.take_length]; exact hash_eq_of_tip htips)
    rw [← hlen, List.take_length] at hmatch
    have hparse := hall (hlen.trans hevents.symm)
    -- the entry of the changed record, and the entries around it
    obtain ⟨dpre, d, dpost, rfl, hdpre, hd, hdpost⟩ := Pointwise.exists_split hparse
    obtain ⟨mpre, d', mpost, heq, hmpre, hme, hmpost⟩ := Pointwise.exists_split hmatch
    have hsplit : dpre.length = mpre.length := by
      rw [← hdpre.length_eq, ← hmpre.length_eq, List.length_map]
    obtain ⟨rfl, htail⟩ := List.append_inj heq hsplit
    obtain ⟨rfl, rfl⟩ := List.cons.inj htail
    obtain rfl := List.right_unique_forall₂' rightUnique_entryFromEventData hdpre hpre
    obtain rfl := List.right_unique_forall₂' rightUnique_entryFromEventData hdpost hpost
    rw [List.forall₂_map_right_iff, List.forall₂_same] at hmpre hmpost
    have hcov := not_covered_of_matches hrec hdiff hd hme
    have hbytes : ∀ {x y : Entry F}, x ∈ pre ++ e :: post → y ∈ pre.map (Entry.readBack shardId) ++
        d :: post.map (Entry.readBack shardId) → x.Matches y →
        canonicalJson (buildCanonicalEntry y y.prevHash)
          = canonicalJson (buildCanonicalEntry x x.prevHash) := by
      intro x y hx hy hxy
      exact canonicalJson_of_hash_eq hinj (hchain.hashes x hx) (hcons.hashes y hy) hxy.hash
    rcases hcond with ⟨x, hx, hunfaithful⟩ | hcov'
    · apply hunfaithful
      rcases List.mem_append.mp hx with hmem | hmem
      · exact hbytes hx (by simp only [List.mem_append, List.mem_map]; exact .inl ⟨x, hmem, rfl⟩)
          (hmpre x hmem)
      · rcases List.mem_cons.mp hmem with rfl | hmem
        · obtain ⟨d', hd', halike⟩ := alike_of_not_covered hcov
          obtain rfl : d = d' := Except.ok.inj (hd.symm.trans hd')
          rw [Entry.Faithful, halike.canonical]
          exact hbytes hx (by simp) hme
        · exact hbytes hx (by
            simp only [List.mem_append, List.mem_cons, List.mem_map]
            exact .inr (.inr ⟨x, hmem, rfl⟩)) (hmpost x hmem)
    · exact hcov hcov'

/-- The record of the renamed entry is the pinned one with another id. -/
theorem iterShardEvents_renamed : iterShardEvents (relog [renamed])
    = .ok [setItem (py "id") (.str (py "other")) (pinnedEntry.stored (py "default"))] := by
  decide +kernel

/-- The theorem at the pinned run, its entry under another id. -/
theorem verifyShard_set_id :
    (∀ r, verifyShard nibbles (py "default") ⟨relog [renamed], (sampleRun pinnedAppends).shard.pin⟩
        = .ok r → r.status ≠ .ok) ↔
      (∃ x ∈ (sampleRun pinnedAppends).returned, ¬x.Faithful (py "default")) ∨
        Field.id.Covered pinnedEntry (.str (py "other")) := by
  have hreturned := returned_pinnedAppends
  rw [sampleRun_eq] at hreturned ⊢
  exact verifyShard_set_iff sampleConfig nibbles_injective (py "default") (py "default")
    pinnedAppends [] [] pinnedEntry hreturned .id (.str (py "other"))
    ⟨by decide +kernel, by simp⟩ (relog [renamed]) iterShardEvents_renamed

/-- An entry under another id verifies. -/
theorem verifyShard_renamed :
    (sampleRun pinnedAppends).returned = [pinnedEntry] ∧
    iterShardEvents (relog [renamed])
      = .ok [setItem (py "id") (.str (py "other")) (pinnedEntry.stored (py "default"))] ∧
    pinnedEntry.id ≠ .str (py "other") ∧
    (verifyShard nibbles (py "default")
      ⟨relog [renamed], (sampleRun pinnedAppends).shard.pin⟩).map Report.status = .ok .ok :=
  ⟨returned_pinnedAppends, iterShardEvents_renamed, by decide +kernel, by decide +kernel⟩

end Daryl
