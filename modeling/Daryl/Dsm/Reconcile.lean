import Daryl.Dsm.Tamper

/-!
# Reconciliation

`reconcile_shard` of `core/storage.py`: after a crash the last line of the
segments is compared with the integrity pin, and the pin is advanced when the
segments hold more lines than it counts.  The last line is looked for in a
window at the end of a segment, and a line is counted whether it parses or not.

## Main definitions

* `readLastSegmentTail`, `countShardEntries`, `firstTimestamp` — the three scans.
* `reconcileShard` — the reconciliation.
* `tailsFit` — the window shows the last line.
* `Advances` — the branch that replaces the pin is taken.
* `carriesHash` — the line at the pinned position carries the pinned hash.

## Main results

* `readLastSegmentTail_laid` — when it fits, the last event is found.
* `reconcileShard_pin` — what a reconciliation does to the pin.
* `reconcileShard_launder_iff` — **the pin is replaced by an extension alone iff
  the advance is not taken on a rewritten history.**
-/

namespace Daryl

open Py Json HashChain

variable {F : Type} [PyFloat F]

/-! ### The three scans -/

/-- The bytes that are read at the end of a segment. -/
def tailWindow : ℕ := 8192

/-- The last `n` bytes of a file. -/
def lastBytes (n : ℕ) (bs : List Byte) : List Byte := bs.drop (bs.length - n)

/-- The last of the lines that parses. -/
def lastParsed (lines : List PyStr) : Option (PyVal F) := lines.reverse.findSome? lineEvent

/-- `_read_last_segment_tail`. -/
def readLastSegmentTail (fam : Family) : Option (PyVal F) :=
  (getSegmentFiles fam).reverse.findSome? fun f =>
    lastParsed (splitNl (strip (decodeReplace (lastBytes tailWindow f.2))))

/-- The lines of a shard, oldest first. -/
def shardLines (fam : Family) : Except PyError (List PyStr) :=
  ((getSegmentFiles fam).mapM fun f => textLines f.2).map List.flatten

/-- `_count_shard_entries`. -/
def countShardEntries (fam : Family) : Except PyError ℕ :=
  (shardLines fam).map (List.countP notBlank)

/-- The scan for `first_ts`: the first line of each segment that parses, until one
has a timestamp. -/
def firstTimestamp : List (PyStr × List Byte) → PyVal F → Except PyError (PyVal F)
  | [], first => .ok first
  | f :: fs, first =>
    match textLines f.2 with
    | .error e => .error e
    | .ok lines =>
      match lines.findSome? lineEvent with
      | none => if first.truthy then .ok first else firstTimestamp fs first
      | some (.dict kvs) =>
        let first := getNone (py "timestamp") kvs
        if first.truthy then .ok first else firstTimestamp fs first
      | some _ => .error .attributeError

/-! ### The divergence report -/

/-- What a refusal reports. -/
structure Divergence (F : Type) where
  shardId : PyStr
  detectedAt : PyStr
  pinnedLastHash : PyVal F
  observedLastHash : PyVal F
  pinnedEntryCount : ℕ
  observedEntryCount : ℕ

/-- `kind`. -/
def Divergence.kind (d : Divergence F) : PyStr :=
  if d.observedEntryCount < d.pinnedEntryCount then py "TRUNCATION" else py "TAIL_TAMPER"

/-- `action`; the dash is no ASCII. -/
def refusedAction : PyStr :=
  py "REFUSED " ++ [0x2014] ++
    py " pin left untouched; rerun with allow_truncation=True to accept (audited)"

/-- The JSON document of a report. -/
def Divergence.toDict (d : Divergence F) : PyVal F :=
  .dict (strItems [
    (py "shard_id", .str d.shardId),
    (py "detected_at", .str d.detectedAt),
    (py "kind", .str d.kind),
    (py "pinned_last_hash", d.pinnedLastHash),
    (py "observed_last_hash", d.observedLastHash),
    (py "pinned_entry_count", .int d.pinnedEntryCount),
    (py "observed_entry_count", .int d.observedEntryCount),
    (py "action", .str refusedAction)])

/-! ### `reconcile_shard` -/

/-- What a reconciliation returns. -/
inductive Reconciled (F : Type)
  | emptyShard
  | inSync (hash : PyVal F)
  | refused (report : Divergence F)
  | advanced (oldHash newHash : PyVal F) (entryCount : ℕ) (quarantined : Option (Pin F))

/-- The pin that `reconcile_shard` writes; a key it leaves out reads as `None`. -/
def reconciledPin (shardId : PyStr) (now : Datetime) (lastEvent : List (Key F × PyVal F))
    (entryCount : ℕ) (first : PyVal F) : Pin F where
  shardId := shardId
  lastHash := getNone (py "hash") lastEvent
  updatedAt := now.isoformat
  entryCount := some entryCount
  firstTimestamp := first
  lastTimestamp := getNone (py "timestamp") lastEvent

/-- The end of `reconcile_shard`: the pin is replaced. -/
def advancePin (shardId : PyStr) (now : Datetime) (lastEvent : List (Key F × PyVal F))
    (entryCount : ℕ) (fam : Family) : Except PyError (PinFile F) :=
  (firstTimestamp (getSegmentFiles fam) .none).bind fun first =>
    writePin (reconciledPin shardId now lastEvent entryCount first)

/-- `is_non_forward`. -/
def isNonForward (pinnedCount : Option ℕ) (entryCount : ℕ) : Bool :=
  match pinnedCount with
  | some n => entryCount ≤ n
  | none => false

/-- `reconcile_shard`, and the shard it leaves. -/
def reconcileShard (shardId : PyStr) (now : Datetime) (allowTruncation : Bool) (s : Shard F) :
    Except PyError (Reconciled F) × Shard F :=
  let storedHash := getLastHash s.pin
  match readLastSegmentTail (F := F) s.family with
  | none => (.ok .emptyShard, s)
  | some .none => (.ok .emptyShard, s)
  | some (.dict lastEvent) =>
    let diskHash := getNone (py "hash") lastEvent
    if pyEq diskHash storedHash then (.ok (.inSync storedHash), s)
    else
      match countShardEntries s.family with
      | .error e => (.error e, s)
      | .ok entryCount =>
        let pinnedCount := s.pin.read.bind Pin.entryCount
        if isNonForward pinnedCount entryCount && !allowTruncation then
          let report : Divergence F := ⟨shardId, now.isoformat, storedHash, diskHash,
            pinnedCount.getD 0, entryCount⟩
          ((dumpFile report.toDict).map fun _ => .refused report, s)
        else
          match advancePin shardId now lastEvent entryCount s.family with
          | .error e => (.error e, s)
          | .ok pin =>
            (.ok (.advanced storedHash diskHash entryCount
              (if isNonForward pinnedCount entryCount then s.pin.read else none)),
              { s with pin := pin })
  | some _ => (.error .attributeError, s)

/-! ### What the tail window shows -/

/-- Newest segment first: one without a whole line fits into the window as a whole,
and the first one with whole lines from the start of the last of them on. -/
def tailsFit (window : ℕ) : List (PyStr × List Byte) → Bool
  | [] => true
  | f :: fs =>
    match (f.2.splitOn 10).reverse with
    | [] => true
    | [tail] => tail.length ≤ window && tailsFit window fs
    | tail :: line :: _ => line.length + 1 + tail.length ≤ window

theorem lastParsed_eq (lines : List PyStr) :
    lastParsed (F := F) lines = (lines.filterMap lineEvent).getLast? := by
  rw [lastParsed, ← List.head?_filterMap, List.filterMap_reverse, List.head?_reverse]

/-- The event of a line is that of its stripped text. -/
theorem lineEvent_congr {l l' : PyStr} (h : strip l = strip l') :
    lineEvent (F := F) l = lineEvent l' := by
  rw [lineEvent, lineEvent, h]

private theorem parsed_cons_space {c : CodePoint} (h : c.isSpace = true) (s : PyStr) :
    (splitNl (c :: s)).filterMap (lineEvent (F := F)) = (splitNl s).filterMap lineEvent := by
  by_cases hc : c = nl
  · subst hc
    rw [← List.nil_append (nl :: s), splitNl_append, List.filterMap_append]
    rfl
  · obtain ⟨l, ls, hs, hcs⟩ := splitNl_cons hc s
    rw [hs, hcs, List.filterMap_cons, List.filterMap_cons, lineEvent_congr (strip_cons_space h)]

private theorem parsed_concat_space {c : CodePoint} (h : c.isSpace = true) (s : PyStr) :
    (splitNl (s ++ [c])).filterMap (lineEvent (F := F)) = (splitNl s).filterMap lineEvent := by
  by_cases hc : c = nl
  · subst hc
    rw [splitNl_append, List.filterMap_append]
    exact List.append_nil _
  · obtain ⟨ls, l, hs, hsc⟩ := splitNl_concat hc s
    rw [hs, hsc, List.filterMap_append, List.filterMap_append, List.filterMap_cons,
      List.filterMap_cons, lineEvent_congr (strip_concat_space h)]

/-- White space around a text adds no event. -/
theorem parsed_strip (t : PyStr) :
    (splitNl (strip t)).filterMap (lineEvent (F := F)) = (splitNl t).filterMap lineEvent := by
  have hleft : ∀ s : PyStr, (splitNl (s.dropWhile CodePoint.isSpace)).filterMap (lineEvent (F := F))
      = (splitNl s).filterMap lineEvent := by
    intro s
    induction s with
    | nil => rfl
    | cons c s ih =>
      rw [List.dropWhile_cons]
      split_ifs with hc
      · rw [ih, parsed_cons_space hc]
      · rfl
  have hright : ∀ s : PyStr, (splitNl (s.dropWhile CodePoint.isSpace).reverse).filterMap
      (lineEvent (F := F)) = (splitNl s.reverse).filterMap lineEvent := by
    intro s
    induction s with
    | nil => rfl
    | cons c s ih =>
      rw [List.dropWhile_cons]
      split_ifs with hc
      · rw [ih, List.reverse_cons, parsed_concat_space hc]
      · rfl
  rw [strip, hright, List.reverse_reverse, hleft]

/-- The bytes of whole lines are none, or end in a newline. -/
theorem lineBytes_cases (ls : List PyStr) :
    ls.flatMap lineBytes = [] ∨ ∃ bs, ls.flatMap lineBytes = bs ++ [10] := by
  rcases List.eq_nil_or_concat ls with rfl | ⟨ls, l, rfl⟩
  · exact .inl rfl
  · refine .inr ⟨ls.flatMap lineBytes ++ utf8Bytes l, ?_⟩
    rw [List.concat_eq_append, List.flatMap_append, List.flatMap_singleton, lineBytes_eq,
      List.append_assoc]

/-- The end of a file shows what is at most as long in full. -/
theorem lastBytes_append {n : ℕ} (as : List Byte) {bs : List Byte} (h : bs.length ≤ n) :
    ∃ k, lastBytes n (as ++ bs) = as.drop k ++ bs := by
  refine ⟨as.length + bs.length - n, ?_⟩
  rw [lastBytes, List.length_append, List.drop_append_of_le_length (by omega)]

/-- A text that ends in a line with an event, and a tail, shows these. -/
private theorem lastParsed_concat (ls : List PyStr) {l tail : PyStr}
    (hl : (lineEvent (F := F) l).isSome) :
    lastParsed (F := F) (ls ++ [l, tail]) = (lineEvent tail).or (lineEvent l) := by
  obtain ⟨event, hevent⟩ := Option.isSome_iff_exists.mp hl
  rw [lastParsed, List.reverse_append]
  simp only [List.reverse_cons, List.reverse_nil, List.nil_append, List.cons_append,
    List.findSome?_cons]
  cases lineEvent (F := F) tail with
  | some event' => rfl
  | none => simp [hevent]

/-- The window of a segment without a whole line, when it fits. -/
theorem window_tail {window : ℕ} {s : Segment} (h : ∀ l ∈ s.texts, PlainLine l) (hnil : s.lines = [])
    (hfit : (utf8Bytes s.tail).length ≤ window) :
    lastParsed (F := F) (splitNl (strip (decodeReplace (lastBytes window s.bytes))))
      = lineEvent s.tail := by
  have htail : PlainLine s.tail := h s.tail (by simp [Segment.texts])
  have hbytes : lastBytes window s.bytes = utf8Bytes s.tail := by
    have hs : s.bytes = [] ++ utf8Bytes s.tail := by rw [Segment.bytes, hnil, List.flatMap_nil]
    obtain ⟨k, hk⟩ := lastBytes_append [] hfit
    rw [hs, hk, List.drop_nil, List.nil_append]
  rw [hbytes, decodeReplace_of_decodeUtf8 (decodeUtf8_utf8Bytes htail.encodable), lastParsed_eq,
    parsed_strip, splitNl_eq_singleton htail.nl, List.filterMap_cons, List.filterMap_nil]
  cases lineEvent (F := F) s.tail <;> rfl

/-- The window of a segment with whole lines, when the last of them fits. -/
theorem window_lines {window : ℕ} {s : Segment} (h : ∀ l ∈ s.texts, PlainLine l)
    {ls : List PyStr} {l : PyStr} (hlines : s.lines = ls ++ [l]) (hl : (lineEvent (F := F) l).isSome)
    (hfit : (utf8Bytes l).length + 1 + (utf8Bytes s.tail).length ≤ window) :
    lastParsed (F := F) (splitNl (strip (decodeReplace (lastBytes window s.bytes))))
      = (lineEvent s.tail).or (lineEvent l) := by
  have htail : PlainLine s.tail := h s.tail (by simp [Segment.texts])
  have hline : PlainLine l := h l (by simp [Segment.texts, hlines])
  have htext : decodeReplace (utf8Bytes l ++ 10 :: utf8Bytes s.tail) = l ++ nl :: s.tail := by
    rw [decodeReplace_newline, decodeReplace_of_decodeUtf8 (decodeUtf8_utf8Bytes hline.encodable),
      decodeReplace_of_decodeUtf8 (decodeUtf8_utf8Bytes htail.encodable)]
  have hsplit : splitNl (l ++ nl :: s.tail) = [l, s.tail] := by
    rw [splitNl_line_append _ hline.nl, splitNl_eq_singleton htail.nl]
  have hbytes : s.bytes = ls.flatMap lineBytes ++ (utf8Bytes l ++ 10 :: utf8Bytes s.tail) := by
    rw [Segment.bytes, hlines, List.flatMap_append, List.flatMap_singleton, lineBytes_eq]
    simp only [List.append_assoc, List.singleton_append]
  have hlen : (utf8Bytes l ++ 10 :: utf8Bytes s.tail).length ≤ window := by
    rw [List.length_append, List.length_cons]
    omega
  obtain ⟨k, hk⟩ := lastBytes_append (ls.flatMap lineBytes) hlen
  rw [hbytes, hk, lastParsed_eq, parsed_strip, ← lastParsed_eq]
  -- what is left of the lines before is nothing, or ends in a newline
  have hcut : (ls.flatMap lineBytes).drop k = [] ∨
      ∃ bs, (ls.flatMap lineBytes).drop k = bs ++ [10] := by
    rcases lineBytes_cases ls with hls | ⟨bs, hls⟩
    · rw [hls, List.drop_nil]
      exact .inl rfl
    · rw [hls]
      by_cases hkb : k ≤ bs.length
      · exact .inr ⟨bs.drop k, List.drop_append_of_le_length hkb⟩
      · left
        rw [List.drop_eq_nil_iff, List.length_append, List.length_singleton]
        omega
  rcases hcut with hcut | ⟨bs, hcut⟩
  · rw [hcut, List.nil_append, htext, hsplit]
    exact lastParsed_concat [] hl
  · rw [hcut, List.append_assoc, List.singleton_append, decodeReplace_newline, htext,
      splitNl_append, hsplit]
    exact lastParsed_concat _ hl

/-- The scan of segments that fit. -/
private theorem findSome_tails {window : ℕ} {family : PyStr} {segs : List Segment}
    (hplain : ∀ s ∈ segs, ∀ l ∈ s.texts, PlainLine l)
    (hlines : ∀ s ∈ segs, ∀ l ∈ s.lines, (lineEvent (F := F) l).isSome)
    (hfit : tailsFit window (segs.map (Segment.file family)) = true) :
    ((segs.map (Segment.file family)).findSome? fun f =>
        lastParsed (F := F) (splitNl (strip (decodeReplace (lastBytes window f.2)))))
      = (segs.flatMap fun s => s.texts.reverse).findSome? lineEvent := by
  induction segs with
  | nil => rfl
  | cons s segs ih =>
    have hs := hplain s List.mem_cons_self
    rw [List.map_cons, List.findSome?_cons, List.flatMap_cons, List.findSome?_append]
    simp only [Segment.file]
    rw [List.map_cons, tailsFit] at hfit
    simp only [Segment.file, splitOn_bytes hs] at hfit
    rcases List.eq_nil_or_concat s.lines with hnil | ⟨ls, l, hls⟩
    · have htexts : s.texts = [s.tail] := by rw [Segment.texts, hnil, List.nil_append]
      simp only [htexts, List.map_cons, List.map_nil, List.reverse_cons, List.reverse_nil,
        List.nil_append, Bool.and_eq_true, decide_eq_true_eq] at hfit
      rw [window_tail hs hnil hfit.1, htexts,
        ih (fun t ht => hplain t (List.mem_cons_of_mem _ ht))
          (fun t ht => hlines t (List.mem_cons_of_mem _ ht)) hfit.2]
      simp only [List.reverse_cons, List.reverse_nil, List.nil_append, List.findSome?_cons,
        List.findSome?_nil]
      cases lineEvent (F := F) s.tail <;> simp only [Option.none_or, Option.some_or]
    · rw [List.concat_eq_append] at hls
      have hl : (lineEvent (F := F) l).isSome := hlines s List.mem_cons_self l (by simp [hls])
      have htexts : s.texts.reverse = s.tail :: l :: ls.reverse := by
        rw [Segment.texts, hls]
        simp
      rw [← List.map_reverse, htexts] at hfit
      simp only [List.map_cons, decide_eq_true_eq] at hfit
      rw [window_lines hs hls hl hfit, htexts]
      obtain ⟨event, hevent⟩ := Option.isSome_iff_exists.mp hl
      simp only [List.findSome?_cons, hevent]
      cases lineEvent (F := F) s.tail <;> simp only [Option.none_or, Option.some_or]

/-- **When it fits, the last event is found.** -/
theorem readLastSegmentTail_laid {fam : Family} {segs : List Segment} (h : Laid fam segs)
    (hlines : ∀ s ∈ segs, ∀ l ∈ s.lines, (lineEvent (F := F) l).isSome)
    (hfit : tailsFit tailWindow (getSegmentFiles fam).reverse = true) :
    readLastSegmentTail (F := F) fam
      = ((segs.flatMap Segment.texts).filterMap lineEvent).getLast? := by
  rw [getSegmentFiles_laid h, ← List.map_reverse] at hfit
  have hflat : (segs.reverse.flatMap fun s => s.texts.reverse)
      = (segs.flatMap Segment.texts).reverse := List.reverse_flatMap.symm
  rw [readLastSegmentTail, getSegmentFiles_laid h, ← List.map_reverse, ← lastParsed_eq, lastParsed,
    ← hflat]
  refine findSome_tails ?_ ?_ hfit
  · exact fun s hs => h.plain s (List.mem_reverse.mp hs)
  · exact fun s hs => hlines s (List.mem_reverse.mp hs)

/-! ### What a reconciliation can do -/

/-- The ways out of `reconcile_shard`; all but the last leave the shard alone. -/
inductive Reconciles (shardId : PyStr) (now : Datetime) (allowTruncation : Bool) (s : Shard F) :
    Except PyError (Reconciled F) × Shard F → Prop
  | raised (e : PyError) : Reconciles shardId now allowTruncation s (.error e, s)
  | emptyShard
      (htail : readLastSegmentTail (F := F) s.family = none ∨
        readLastSegmentTail (F := F) s.family = some .none) :
      Reconciles shardId now allowTruncation s (.ok .emptyShard, s)
  | inSync {lastEvent : List (Key F × PyVal F)}
      (htail : readLastSegmentTail s.family = some (.dict lastEvent))
      (hhash : pyEq (getNone (py "hash") lastEvent) (getLastHash s.pin) = true) :
      Reconciles shardId now allowTruncation s (.ok (.inSync (getLastHash s.pin)), s)
  | refused {count : ℕ} {report : Divergence F} (hcount : countShardEntries s.family = .ok count)
      (hback : isNonForward (s.pin.read.bind Pin.entryCount) count = true) :
      Reconciles shardId now allowTruncation s (.ok (.refused report), s)
  | advanced {lastEvent : List (Key F × PyVal F)} {count : ℕ} {pin : PinFile F} {r : Reconciled F}
      (htail : readLastSegmentTail s.family = some (.dict lastEvent))
      (hhash : pyEq (getNone (py "hash") lastEvent) (getLastHash s.pin) = false)
      (hcount : countShardEntries s.family = .ok count)
      (hforward : isNonForward (s.pin.read.bind Pin.entryCount) count = false ∨
        allowTruncation = true)
      (hpin : advancePin shardId now lastEvent count s.family = .ok pin) :
      Reconciles shardId now allowTruncation s (.ok r, { s with pin := pin })

theorem reconcileShard_reconciles (shardId : PyStr) (now : Datetime) (allowTruncation : Bool)
    (s : Shard F) :
    Reconciles shardId now allowTruncation s (reconcileShard shardId now allowTruncation s) := by
  unfold reconcileShard
  simp only
  split
  · next htail => exact .emptyShard (.inl htail)
  · next htail => exact .emptyShard (.inr htail)
  · next lastEvent htail =>
    split_ifs with hhash
    · exact .inSync htail hhash
    · rw [Bool.not_eq_true] at hhash
      cases hcount : countShardEntries s.family with
      | error e => exact .raised e
      | ok count =>
        simp only
        by_cases hrefuse : (isNonForward (s.pin.read.bind Pin.entryCount) count &&
            !allowTruncation) = true
        · rw [if_pos hrefuse]
          rw [Bool.and_eq_true] at hrefuse
          cases dumpFile (Divergence.toDict (F := F) ⟨shardId, now.isoformat, getLastHash s.pin,
              getNone (py "hash") lastEvent, (s.pin.read.bind Pin.entryCount).getD 0, count⟩) with
          | error e => exact .raised e
          | ok u => exact .refused hcount hrefuse.1
        · rw [if_neg hrefuse]
          have hforward : isNonForward (s.pin.read.bind Pin.entryCount) count = false ∨
              allowTruncation = true := by
            rw [Bool.and_eq_true, not_and_or, Bool.not_eq_true, Bool.not_eq_true',
              Bool.not_eq_false] at hrefuse
            exact hrefuse
          cases hpin : advancePin shardId now lastEvent count s.family with
          | error e => exact .raised e
          | ok pin => exact .advanced htail hhash hcount hforward hpin
  · exact .raised _

/-! ### When the pin is replaced -/

/-- The scans lead to the advance of a pin with this hash and number: the last line
is a dict with another hash, there are more lines than pinned, and the strings of
the new pin encode. -/
def Advances (shardId : PyStr) (fam : Family) (h : PyVal F) (n : ℕ) : Prop :=
  ∃ (lastEvent : List (Key F × PyVal F)) (count : ℕ) (first : PyVal F),
    readLastSegmentTail fam = some (.dict lastEvent) ∧
    pyEq (getNone (py "hash") lastEvent) h = false ∧ countShardEntries fam = .ok count ∧
    n < count ∧ firstTimestamp (getSegmentFiles fam) .none = .ok first ∧ Encodable shardId ∧
    eachStr Encodable (getNone (py "hash") lastEvent) ∧ eachStr Encodable first ∧
    eachStr Encodable (getNone (py "timestamp") lastEvent)

/-- The event is a dict that carries the hash. -/
def eventCarries (h : PyVal F) : PyVal F → Bool
  | .dict kvs => pyEq (getNone (py "hash") kvs) h
  | _ => false

/-- The `n`-th of the lines that are not blank carries the hash. -/
def carriesHash (fam : Family) (h : PyVal F) (n : ℕ) : Bool :=
  match shardLines fam with
  | .ok lines => 0 < n && (lines.filter notBlank)[n - 1]?.any fun line =>
      (lineEvent line).any (eventCarries h)
  | .error _ => false

theorem advancePin_eq_ok {shardId : PyStr} {now : Datetime} {lastEvent : List (Key F × PyVal F)}
    {count : ℕ} {fam : Family} {pin : PinFile F} :
    advancePin shardId now lastEvent count fam = .ok pin ↔
      ∃ first, firstTimestamp (getSegmentFiles fam) .none = .ok first ∧
        pin = .pin (reconciledPin shardId now lastEvent count first) ∧ Encodable shardId ∧
        eachStr Encodable (getNone (py "hash") lastEvent) ∧ eachStr Encodable first ∧
        eachStr Encodable (getNone (py "timestamp") lastEvent) := by
  have hnow := encodable_isoformat now
  unfold advancePin
  cases hfirst : firstTimestamp (F := F) (getSegmentFiles fam) .none with
  | error e => simp [Except.bind]
  | ok first =>
    simp only [Except.bind, writePin_eq_ok, Except.ok.injEq, exists_eq_left']
    simp only [reconciledPin, hnow, true_and]

/-- **The pin is replaced iff the scans lead to its advance.** -/
theorem reconcileShard_pin_ne_iff {shardId : PyStr} {now : Datetime} {s : Shard F} {p : Pin F}
    {n : ℕ} (hp : s.pin = .pin p) (hn : p.entryCount = some n) :
    (reconcileShard shardId now false s).2.pin ≠ s.pin ↔
      Advances shardId s.family p.lastHash n := by
  have hhash : getLastHash s.pin = p.lastHash := by rw [hp]; rfl
  have hcount : s.pin.read.bind Pin.entryCount = some n := by rw [hp]; exact hn
  constructor
  · intro hne
    have h := reconcileShard_reconciles shardId now false s
    generalize reconcileShard shardId now false s = r at h hne
    cases h with
    | raised e => exact absurd rfl hne
    | emptyShard htail => exact absurd rfl hne
    | inSync htail hsync => exact absurd rfl hne
    | refused hc hback => exact absurd rfl hne
    | @advanced lastEvent count pin r htail hdiff hc hforward hpin =>
      obtain ⟨first, hfirst, -, hid, hh, hf, hl⟩ := advancePin_eq_ok.mp hpin
      rw [hhash] at hdiff
      rcases hforward with hforward | hallow
      · rw [hcount, isNonForward, decide_eq_false_iff_not, not_le] at hforward
        exact ⟨lastEvent, count, first, htail, hdiff, hc, hforward, hfirst, hid, hh, hf, hl⟩
      · exact absurd hallow (by simp)
  · rintro ⟨lastEvent, count, first, htail, hdiff, hc, hlt, hfirst, hid, hh, hf, hl⟩
    have hforward : isNonForward (some n) count = false := by simp [isNonForward, hlt]
    have hpin : advancePin shardId now lastEvent count s.family
        = .ok (.pin (reconciledPin shardId now lastEvent count first)) :=
      advancePin_eq_ok.mpr ⟨first, hfirst, rfl, hid, hh, hf, hl⟩
    have heq : (reconcileShard shardId now false s).2.pin
        = .pin (reconciledPin shardId now lastEvent count first) := by
      rw [reconcileShard, htail, hcount]
      simp only [hhash, hdiff, Bool.false_eq_true, if_false, hc, hforward, Bool.false_and, hpin]
    rw [heq, hp]
    intro hsame
    -- the new pin counts more lines
    have hcounts := congrArg Pin.entryCount (PinFile.pin.inj hsame)
    rw [hn] at hcounts
    exact absurd (Option.some.inj hcounts) (by omega)

/-- **The pin is replaced by an extension alone iff the advance is not taken on a
rewritten history**: on segment files whose scans lead to an advance, the line at
the pinned position must carry the pinned hash. -/
theorem reconcileShard_launder_iff (shardId : PyStr) (now : Datetime) (s : Shard F) (p : Pin F)
    (n : ℕ) (hp : s.pin = .pin p) (hn : p.entryCount = some n) :
    ((reconcileShard shardId now false s).2.pin ≠ s.pin → carriesHash s.family p.lastHash n = true) ↔
      (¬Advances shardId s.family p.lastHash n ∨ carriesHash s.family p.lastHash n = true) := by
  rw [reconcileShard_pin_ne_iff hp hn]
  exact imp_iff_not_or

/-- A pin for the samples. -/
def samplePin : Pin FloatLit where
  shardId := py "default"
  lastHash := pinnedEntry.hash
  updatedAt := sampleTime.isoformat
  entryCount := some 1
  firstTimestamp := .none
  lastTimestamp := .none

/-- The pinned shard itself is left alone. -/
theorem reconcileShard_launder_sample : samplePin.entryCount = some 1 ∧
    (((reconcileShard (py "default") sampleTime false
        ⟨relog [pinnedEntry], .pin samplePin⟩).2.pin ≠ .pin samplePin →
        carriesHash (relog [pinnedEntry]) samplePin.lastHash 1 = true) ↔
      (¬Advances (py "default") (relog [pinnedEntry]) samplePin.lastHash 1 ∨
        carriesHash (relog [pinnedEntry]) samplePin.lastHash 1 = true)) :=
  ⟨rfl, reconcileShard_launder_iff (py "default") sampleTime ⟨relog [pinnedEntry], .pin samplePin⟩
    samplePin 1 rfl rfl⟩

/-- Two fabricated lines in place of the pinned one. -/
def laundered : Shard FloatLit :=
  ⟨(sampleRun forgedAppends).shard.family, (sampleRun pinnedAppends).shard.pin⟩

/-- A rewritten history that is longer than the pinned one gets the pin. -/
theorem reconcileShard_laundered : laundered.pin.read.bind Pin.entryCount = some 1 ∧
    (reconcileShard (py "default") sampleTime false laundered).2.pin ≠ laundered.pin ∧
    carriesHash laundered.family (getLastHash laundered.pin) 1 = false := by
  decide +kernel

end Daryl
