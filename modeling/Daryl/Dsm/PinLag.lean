import Daryl.Dsm.Reconcile
import Daryl.Dsm.Seal
import Daryl.Json.Suffix

/-!
# A pin that lags behind

A crash between the line of an append and its pin leaves the pin at an earlier entry, and
`reconcile_shard` is to advance it.  The last line is looked for in the last 8192 bytes of
the newest segment that is not empty.  A longer line does not parse there, so the line of an
earlier segment is taken for the last one, or none.

## Main definitions

* `Lagging` — whole lines of a chain, and a pin of an earlier entry.
* `Repairs` — the pin gets to the last entry, stays there, and verifies.

## Main results

* `window_recorded` — what the window shows of a segment of whole lines.
* `readLastSegmentTail_recorded` — the scan finds the last line, or an earlier one.
* `repairs_of_fit`, `not_repairs_of_long` — where the last line is short enough, and where not.
* `repairs_iff` — **the pin is repaired iff the last line fits into the window.**
* `long_entry_unpinned` — a first entry whose line is too long.
-/

namespace Daryl

open Py Json HashChain

variable {F : Type} [PyFloat F]

/-- **Whole lines of a chain of entries, of which the pin knows the first `k`.** -/
structure Lagging (sha : Sha256) (shardId : PyStr) (s : Shard F) (es : List (Entry F))
    (k : ℕ) : Prop where
  history : ∃ segs, History sha shardId s.family segs es ∧ Clean segs
  pinned : Pinned s.pin (es.take k) k
  lt : k < es.length

/-- **The pin gets to the last entry and its number, another reconciliation changes nothing, and
`verify_shard` finds the pin in place.** -/
structure Repairs (sha : Sha256) (shardId : PyStr) (now : Datetime) (s : Shard F)
    (es : List (Entry F)) : Prop where
  pin : ∃ p, (reconcileShard shardId now false s).2 = { s with pin := .pin p } ∧
    p.lastHash = tip es ∧ p.entryCount = some es.length
  again : ∀ later, ∃ hash, reconcileShard shardId later false (reconcileShard shardId now false s).2
    = (.ok (.inSync hash), (reconcileShard shardId now false s).2)
  verified : ∃ r, verifyShard sha shardId (reconcileShard shardId now false s).2 = .ok r ∧
    r.pinStatus = .pinnedOk

/-! ### Records -/

/-- The event of a record is a dict with the hash and the time of the entry. -/
theorem Recorded.items {sha : Sha256} {shardId : PyStr} {e : Entry F} {line : PyStr}
    (h : Recorded shardId e line) (he : Sealed sha e) : ∃ kvs : List (Key F × PyVal F),
      lineEvent line = some (.dict kvs) ∧ getNone (py "hash") kvs = e.hash ∧
        getNone (py "timestamp") kvs = .str e.timestamp.isoformat := by
  obtain ⟨w, hw, -⟩ := h.printed
  obtain ⟨bs, -, hhash⟩ := he
  refine ⟨_, h.event.trans (congrArg some (stored_eq hw)), ?_, ?_⟩
  · rw [hhash]
    change readBack e.hash = _
    rw [hhash, readBack_str]
  · exact readBack_str _

/-- A record is no blank line. -/
theorem Recorded.notBlank {shardId : PyStr} {e : Entry F} {line : PyStr}
    (h : Recorded shardId e line) : notBlank line = true := by
  obtain ⟨kvs, -, hline⟩ := h.dict
  obtain ⟨s, hs⟩ := print_dict_shape hline
  unfold Daryl.notBlank
  rw [strip_print_dict hline, hs]
  rfl

/-! ### What the window shows -/

/-- A record whose first bytes are missing shows no event. -/
theorem lastParsed_cut {shardId : PyStr} {e : Entry F} {line : PyStr} (h : Recorded shardId e line)
    {k : ℕ} (hpos : 0 < k) (hk : k ≤ (utf8Bytes line).length) :
    lastParsed (F := F) (splitNl (strip (decodeReplace ((utf8Bytes line).drop k ++ [10])))) = none := by
  obtain ⟨kvs, -, hline⟩ := h.dict
  have hload := loads_cut hline (by simp [lineStyle]) h.encodable hpos hk
  -- what is decoded has its only newline at the end
  obtain ⟨p, u, m, htext, -, hread⟩ := decodeReplace_drop h.encodable hk []
  have hnl : nl ∉ decodeReplace ((utf8Bytes line).drop k) := by
    rw [List.append_nil] at hread
    rw [hread, List.mem_append, List.mem_append, not_or, not_or]
    refine ⟨?_, ?_, List.not_mem_nil⟩
    · intro hmem
      exact absurd (List.eq_of_mem_replicate hmem) (by decide)
    · intro hmem
      exact h.plain.nl (htext ▸ List.mem_append_right p hmem)
  have hdecode : decodeReplace ((utf8Bytes line).drop k ++ [10])
      = decodeReplace ((utf8Bytes line).drop k) ++ [nl] := decodeReplace_newline _ []
  rw [hdecode] at hload ⊢
  rw [strip_concat_space (by decide)] at hload
  have hevent : lineEvent (F := F) (decodeReplace ((utf8Bytes line).drop k)) = none := by
    rw [lineEvent]
    split_ifs
    · rfl
    · exact hload
  rw [lastParsed_eq, parsed_strip, splitNl_line_append _ hnl, List.filterMap_cons, hevent]
  rfl

/-- The event of the last line of a segment, where that fits into the window. -/
def shown (window : ℕ) (s : Segment) : Option (PyVal F) :=
  s.lines.getLast?.bind fun l => if (lineBytes l).length ≤ window then lineEvent l else none

/-- **The window shows the last line of a segment of records, if it fits.** -/
theorem window_recorded {window : ℕ} (hpos : 1 ≤ window) {s : Segment}
    (hplain : ∀ l ∈ s.texts, PlainLine l) (htail : s.tail = [])
    (hrec : ∀ l ∈ s.lines, ∃ (shardId : PyStr) (e : Entry F), Recorded shardId e l) :
    lastParsed (F := F) (splitNl (strip (decodeReplace (lastBytes window s.bytes))))
      = shown window s := by
  unfold shown
  rcases List.eq_nil_or_concat s.lines with hnil | ⟨ls, l, hls⟩
  · rw [window_tail hplain hnil (by rw [htail]; exact Nat.zero_le _), htail, hnil]
    rfl
  · rw [List.concat_eq_append] at hls
    obtain ⟨shardId, e, hl⟩ := hrec l (by simp [hls])
    have hlast : s.lines.getLast? = some l := by rw [hls, List.getLast?_concat]
    rw [hlast, Option.bind_some]
    have hlen : (lineBytes l).length = (utf8Bytes l).length + 1 := by
      rw [lineBytes_eq, List.length_append, List.length_singleton]
    split_ifs with hfit
    · have hevent : (lineEvent (F := F) l).isSome := by rw [hl.event]; rfl
      rw [window_lines hplain hls hevent ?_, htail, lineEvent_nil, Option.none_or]
      rw [htail]
      exact hlen ▸ hfit
    · -- the window starts behind the first byte of the line
      have hbytes : s.bytes = ls.flatMap lineBytes ++ (utf8Bytes l ++ [10]) := by
        rw [Segment.bytes, htail, hls, List.flatMap_append, List.flatMap_singleton, lineBytes_eq]
        exact List.append_nil _
      have hcut : s.bytes.length - window
          = (ls.flatMap lineBytes).length + ((utf8Bytes l).length + 1 - window) := by
        rw [hbytes, List.length_append, List.length_append, List.length_singleton]
        omega
      have hwindow : lastBytes window s.bytes
          = (utf8Bytes l).drop ((utf8Bytes l).length + 1 - window) ++ [10] := by
        rw [lastBytes, hcut, hbytes, ← List.drop_drop, List.drop_left,
          List.drop_append_of_le_length (by omega)]
      rw [hwindow]
      apply lastParsed_cut hl
      · omega
      · omega

/-- What is shown of some segment is the event of a line. -/
theorem findSome_shown (window : ℕ) (segs : List Segment) :
    segs.findSome? (shown (F := F) window) = none ∨
      ∃ l ∈ linesOf segs, segs.findSome? (shown (F := F) window) = lineEvent l := by
  cases hfind : segs.findSome? (shown (F := F) window) with
  | none => exact .inl rfl
  | some event =>
    obtain ⟨s, hs, hshown⟩ := List.exists_of_findSome?_eq_some hfind
    unfold shown at hshown
    obtain ⟨l, hl, hevent⟩ := Option.bind_eq_some_iff.mp hshown
    split_ifs at hevent
    exact .inr ⟨l, List.mem_flatMap.mpr ⟨s, hs, List.mem_of_getLast? hl⟩, hevent.symm⟩

/-- What the windows at the ends of segments of records show. -/
theorem findSome_window {window : ℕ} (hpos : 1 ≤ window) (family : PyStr) {segs : List Segment}
    (hplain : ∀ s ∈ segs, ∀ l ∈ s.texts, PlainLine l) (hclean : Clean segs)
    (hrec : ∀ s ∈ segs, ∀ l ∈ s.lines, ∃ (shardId : PyStr) (e : Entry F), Recorded shardId e l) :
    ((segs.map (Segment.file family)).findSome? fun f =>
        lastParsed (F := F) (splitNl (strip (decodeReplace (lastBytes window f.2)))))
      = segs.findSome? (shown window) := by
  induction segs with
  | nil => rfl
  | cons s segs ih =>
    have hwindow := window_recorded hpos (hplain s List.mem_cons_self) (hclean s List.mem_cons_self)
      (hrec s List.mem_cons_self)
    rw [List.map_cons, List.findSome?_cons, List.findSome?_cons,
      ih (fun t ht => hplain t (List.mem_cons_of_mem s ht))
        (fun t ht => hclean t (List.mem_cons_of_mem s ht))
        fun t ht => hrec t (List.mem_cons_of_mem s ht)]
    simp only [Segment.file]
    rw [hwindow]

/-- The scan goes from the newest segment back. -/
theorem readLastSegmentTail_shown {fam : Family} {segs : List Segment} (h : Laid fam segs)
    (hclean : Clean segs)
    (hrec : ∀ s ∈ segs, ∀ l ∈ s.lines, ∃ (shardId : PyStr) (e : Entry F), Recorded shardId e l) :
    readLastSegmentTail (F := F) fam = segs.reverse.findSome? (shown tailWindow) := by
  have hmem : ∀ s ∈ segs.reverse, s ∈ segs := fun s => List.mem_reverse.mp
  have hpos : 1 ≤ tailWindow := Nat.le_of_ble_eq_true rfl
  have hplain : ∀ s ∈ segs.reverse, ∀ l ∈ s.texts, PlainLine l := fun s hs => h.plain s (hmem s hs)
  have hfind := findSome_window (F := F) hpos fam.name hplain (fun s hs => hclean s (hmem s hs))
    fun s hs => hrec s (hmem s hs)
  rw [readLastSegmentTail, getSegmentFiles_laid h, ← List.map_reverse]
  exact hfind

/-- **The scan finds the last line of the directory, where it fits**, and else the event of a line
before it, or none. -/
theorem readLastSegmentTail_recorded {fam : Family} {segs : List Segment} (h : Laid fam segs)
    (hclean : Clean segs)
    (hrec : ∀ l ∈ linesOf segs, ∃ (shardId : PyStr) (e : Entry F), Recorded shardId e l)
    {lines : List PyStr} {last : PyStr} (hlines : linesOf segs = lines ++ [last]) :
    ((lineBytes last).length ≤ tailWindow → readLastSegmentTail (F := F) fam = lineEvent last) ∧
      (tailWindow < (lineBytes last).length → readLastSegmentTail (F := F) fam = none ∨
        ∃ l ∈ lines, readLastSegmentTail (F := F) fam = lineEvent l) := by
  rw [readLastSegmentTail_shown h hclean fun s hs l hl => hrec l (List.mem_flatMap.mpr ⟨s, hs, hl⟩)]
  clear h hclean
  generalize tailWindow = window
  induction segs using List.reverseRecOn with
  | nil => exact absurd hlines (by simp [linesOf])
  | append_singleton segs s ih =>
    have hsplit : linesOf (segs ++ [s]) = linesOf segs ++ s.lines := by simp [linesOf]
    rw [hsplit] at hlines hrec
    rw [List.reverse_append, List.reverse_singleton, List.singleton_append, List.findSome?_cons]
    rcases List.eq_nil_or_concat s.lines with hnil | ⟨ls, l, hls⟩
    · -- an empty segment is passed over
      rw [hnil, List.append_nil] at hlines hrec
      rw [shown, hnil, List.getLast?_nil, Option.bind_none]
      exact ih hrec hlines
    · rw [List.concat_eq_append] at hls
      rw [hls, ← List.append_assoc] at hlines
      obtain ⟨rfl, hlast⟩ := List.append_inj' hlines rfl
      obtain rfl := (List.cons.inj hlast).1
      obtain ⟨shardId, e, hl⟩ := hrec l (by simp [hls])
      rw [shown, hls, List.getLast?_concat, Option.bind_some]
      constructor
      · intro hfit
        rw [if_pos hfit, hl.event]
      · intro hlong
        rw [if_neg (by omega)]
        dsimp only
        rcases findSome_shown (F := F) window segs.reverse with hnone | ⟨l', hl', hevent⟩
        · exact .inl hnone
        · refine .inr ⟨l', List.mem_append_left _ ?_, hevent⟩
          obtain ⟨t, ht, hmem⟩ := List.mem_flatMap.mp hl'
          exact List.mem_flatMap.mpr ⟨t, List.mem_reverse.mp ht, hmem⟩

/-! ### The other scans -/

/-- Every entry is counted. -/
theorem countShardEntries_recorded {fam : Family} {segs : List Segment} (h : Laid fam segs)
    (hclean : Clean segs) {shardId : PyStr} {es : List (Entry F)}
    (hlines : List.Forall₂ (Recorded shardId) es (linesOf segs)) :
    countShardEntries fam = .ok es.length := by
  have htexts : (segs.map Segment.texts).flatten.countP notBlank = (linesOf segs).countP notBlank := by
    clear h hlines
    induction segs with
    | nil => rfl
    | cons s segs ih =>
      have hblank : notBlank [] = false := rfl
      rw [List.map_cons, List.flatten_cons, linesOf, List.flatMap_cons, List.countP_append,
        List.countP_append, Segment.texts, List.countP_append, hclean s List.mem_cons_self,
        ih fun t ht => hclean t (List.mem_cons_of_mem s ht)]
      simp [hblank, linesOf]
  have hall : (linesOf segs).countP notBlank = es.length := by
    rw [List.countP_eq_length.mpr, hlines.length_eq]
    intro l hl
    obtain ⟨e, -, he⟩ := Pointwise.exists_of_mem_right hlines hl
    exact he.notBlank
  rw [countShardEntries, shardLines, mapM_textLines_laid h]
  exact congrArg Except.ok (htexts.trans hall)

/-- The scan for the first timestamp ends. -/
theorem firstTimestamp_recorded {sha : Sha256} {shardId family : PyStr} {segs : List Segment}
    (hplain : ∀ s ∈ segs, ∀ l ∈ s.texts, PlainLine l) (hclean : Clean segs)
    (hrec : ∀ s ∈ segs, ∀ l ∈ s.lines, ∃ e : Entry F, Recorded shardId e l ∧ Sealed sha e) :
    ∃ first : PyVal F, firstTimestamp (segs.map (Segment.file family)) .none = .ok first ∧
      eachStr Encodable first := by
  induction segs with
  | nil => exact ⟨.none, rfl, trivial⟩
  | cons s segs ih =>
    have ih := ih (fun t ht => hplain t (List.mem_cons_of_mem s ht))
      (fun t ht => hclean t (List.mem_cons_of_mem s ht)) fun t ht =>
        hrec t (List.mem_cons_of_mem s ht)
    rw [List.map_cons, firstTimestamp]
    simp only [Segment.file]
    rw [textLines_bytes (hplain s List.mem_cons_self), Segment.texts, hclean s List.mem_cons_self]
    have hrec := hrec s List.mem_cons_self
    generalize s.lines = lines at hrec ⊢
    cases lines with
    | nil => exact ih
    | cons l ls =>
      obtain ⟨e, hl, he⟩ := hrec l List.mem_cons_self
      obtain ⟨kvs, hevent, -, htime⟩ := hl.items he
      have htruthy : (PyVal.str (F := F) e.timestamp.isoformat).truthy = true := by
        simp [PyVal.truthy, isoformat_ne_nil]
      refine ⟨.str e.timestamp.isoformat, ?_, encodable_isoformat _⟩
      simp only [List.cons_append, List.findSome?_cons, hevent, htime, htruthy, if_true]

/-! ### A repair -/

variable {sha : Sha256} {shardId : PyStr} {s : Shard F} {es : List (Entry F)} {k : ℕ}

/-- The pin counts the entries it knows, or nothing. -/
theorem pinnedCount_lt {file : PinFile F} (h : Pinned file (es.take k) k) (hlt : k < es.length) :
    isNonForward (file.read.bind Pin.entryCount) es.length = false := by
  unfold Pinned at h
  split at h
  · rw [h.1]
    rfl
  · obtain ⟨p, rfl, -, hcount, -⟩ := h
    simp only [PinFile.read, Option.bind_some, hcount, isNonForward]
    simpa using hlt

/-- So it does not count them all. -/
theorem Lagging.pin_ne {p : Pin F} (h : Lagging sha shardId s es k)
    (hcount : p.entryCount = some es.length) : s.pin ≠ .pin p := by
  intro hpin
  have hforward := pinnedCount_lt h.pinned h.lt
  rw [hpin] at hforward
  simp [PinFile.read, hcount, isNonForward] at hforward

/-- **The tip the pin knows is not that of all entries.** -/
theorem Lagging.tip_ne (hinj : Function.Injective sha) (h : Lagging sha shardId s es k) {n : ℕ}
    (hn : n < es.length) : tip (es.take n) ≠ tip es := by
  obtain ⟨⟨segs, hhist, -⟩, -, -⟩ := h
  intro htip
  rcases Nat.eq_zero_or_pos n with rfl | hpos
  · obtain ⟨es, e, rfl⟩ := (List.eq_nil_or_concat es).resolve_left (by
      rintro rfl
      exact absurd hn (Nat.not_lt_zero 0))
    rw [List.concat_eq_append] at hhist htip
    obtain ⟨bs, -, hhash⟩ := hhist.chain.hashes e (by simp)
    rw [List.take_zero, tip_concat, hhash] at htip
    cases htip
  · exact absurd ((SealRun.tip_take_eq_iff hinj hhist.chain hhist.hashedJoined hpos hn.le).mp htip)
      (Nat.ne_of_lt hn)

/-- The record of an entry is written in one way. -/
theorem Recorded.unique {e : Entry F} {line line' : PyStr} (h : Recorded shardId e line)
    (h' : Recorded shardId e line') : line = line' := by
  obtain ⟨w, hw, hline⟩ := h.printed
  obtain ⟨w', hw', hline'⟩ := h'.printed
  obtain rfl := Option.some.inj (hw.symm.trans hw')
  exact Option.some.inj (hline.symm.trans hline')

/-- **The scan of a lagging shard finds the last entry, where its line fits**, and else an entry
before it, or none. -/
theorem Lagging.scan (h : Lagging sha shardId s es k) {e : Entry F} (he : es.getLast? = some e)
    {line : PyStr} (hline : Recorded shardId e line) :
    ((lineBytes line).length ≤ tailWindow → ∃ kvs : List (Key F × PyVal F),
        readLastSegmentTail s.family = some (.dict kvs) ∧ getNone (py "hash") kvs = tip es ∧
          getNone (py "timestamp") kvs = .str e.timestamp.isoformat) ∧
      (tailWindow < (lineBytes line).length → readLastSegmentTail (F := F) s.family = none ∨
        ∃ n < es.length, ∃ kvs : List (Key F × PyVal F),
          readLastSegmentTail s.family = some (.dict kvs) ∧
            getNone (py "hash") kvs = tip (es.take n)) := by
  obtain ⟨⟨segs, hhist, hclean⟩, -, -⟩ := h
  obtain ⟨init, rfl⟩ := List.getLast?_eq_some_iff.mp he
  obtain ⟨lines, line', rest, hlines, hinit, hlast, hrest⟩ := Pointwise.exists_split hhist.lines
  obtain rfl := List.forall₂_nil_left_iff.mp hrest
  obtain rfl := hline.unique hlast
  have hrec : ∀ l ∈ linesOf segs, ∃ (shardId : PyStr) (x : Entry F), Recorded shardId x l := by
    intro l hl
    obtain ⟨x, -, hxl⟩ := Pointwise.exists_of_mem_right hhist.lines hl
    exact ⟨shardId, x, hxl⟩
  obtain ⟨hfits, hlong⟩ := readLastSegmentTail_recorded hhist.laid hclean hrec hlines
  constructor
  · intro hfit
    obtain ⟨kvs, hevent, hhash, htime⟩ := hline.items (hhist.chain.hashes e (by simp))
    rw [tip_concat]
    exact ⟨kvs, (hfits hfit).trans hevent, hhash, htime⟩
  · intro hout
    rcases hlong hout with hnone | ⟨l, hl, htail⟩
    · exact .inl hnone
    · -- the line found is that of an entry with a number
      obtain ⟨x, hx, hxl⟩ := Pointwise.exists_of_mem_right hinit hl
      obtain ⟨as, bs, rfl⟩ := List.append_of_mem hx
      obtain ⟨kvs, hevent, hhash, -⟩ := hxl.items (hhist.chain.hashes x (by simp))
      refine .inr ⟨as.length + 1, ?_, kvs, htail.trans hevent, ?_⟩
      · simp only [List.length_append, List.length_cons, List.length_nil]
        omega
      · have htake : (as ++ x :: bs ++ [e]).take (as.length + 1) = as ++ [x] := by
          rw [List.append_assoc, List.cons_append, List.take_length_add_append]
          rfl
        rw [htake, tip_concat, hhash]

/-- The hash of the last entry is a string. -/
theorem Lagging.exists_tip (h : Lagging sha shardId s es k) :
    ∃ bs, tip es = .str (v1Prefix ++ hexdigest sha bs) := by
  obtain ⟨⟨segs, hhist, -⟩, -, hlt⟩ := h
  obtain ⟨init, e, rfl⟩ := (List.eq_nil_or_concat es).resolve_left (by
    rintro rfl
    exact absurd hlt (Nat.not_lt_zero k))
  rw [List.concat_eq_append] at hhist ⊢
  obtain ⟨bs, -, hhash⟩ := hhist.chain.hashes e (by simp)
  exact ⟨bs, by rw [tip_concat, hhash]⟩

/-- A pin of what is there is in place. -/
theorem checkPin_self (hash : PyStr) (n : ℕ) :
    (checkPin (F := F) (.str (v1Prefix ++ hash)) (some n) (.str (v1Prefix ++ hash)) n).pinStatus
      = .pinnedOk := by
  have htruthy : (PyVal.str (F := F) (v1Prefix ++ hash)).truthy = true := rfl
  have heq : pyEq (F := F) (.str (v1Prefix ++ hash)) (.str (v1Prefix ++ hash)) = true := by simp
  simp only [checkPin, htruthy, heq, lt_irrefl, if_true, if_false, Bool.not_true, Bool.false_eq_true]

/-- **A last line that fits into the window gets the pin to its entry.** -/
theorem repairs_of_fit (hinj : Function.Injective sha) (h : Lagging sha shardId s es k)
    {e : Entry F} (he : es.getLast? = some e) {line : PyStr} (hline : Recorded shardId e line)
    (hfit : (lineBytes line).length ≤ tailWindow) (now : Datetime) :
    Repairs sha shardId now s es := by
  obtain ⟨kvs, htail, hhash, htime⟩ := (h.scan he hline).1 hfit
  obtain ⟨bs, htip⟩ := h.exists_tip
  obtain ⟨⟨segs, hhist, hclean⟩, hpinned, hlt⟩ := id h
  -- the pin knows another tip, and fewer entries
  have hother : pyEq (getNone (py "hash") kvs) (getLastHash s.pin) = false := by
    rw [hhash, getLastHash_pinned hpinned, htip, Bool.eq_false_iff]
    intro heq
    exact h.tip_ne hinj hlt ((pyEq_str_left.mp heq).trans htip.symm)
  have hcount := countShardEntries_recorded hhist.laid hclean hhist.lines
  obtain ⟨first, hfirst, hencodable⟩ := firstTimestamp_recorded (F := F) hhist.laid.plain
    hclean fun t ht l hl => by
      obtain ⟨x, hx, hxl⟩ := Pointwise.exists_of_mem_right hhist.lines
        (List.mem_flatMap.mpr ⟨t, ht, hl⟩)
      exact ⟨x, hxl, hhist.chain.hashes x hx⟩
  rw [← getSegmentFiles_laid hhist.laid] at hfirst
  have hpin : advancePin shardId now kvs es.length s.family
      = .ok (.pin (reconciledPin shardId now kvs es.length first)) := by
    refine advancePin_eq_ok.mpr ⟨first, hfirst, rfl, hline.encodable_shardId, ?_, hencodable, ?_⟩
    · rw [hhash, htip]
      exact encodable_hash _ _
    · rw [htime]
      exact encodable_isoformat _
  have hleft : (reconcileShard shardId now false s).2
      = { s with pin := .pin (reconciledPin shardId now kvs es.length first) } := by
    rw [reconcileShard, htail]
    simp only [hother, Bool.false_eq_true, if_false, hcount, pinnedCount_lt hpinned hlt,
      Bool.false_and, hpin]
  have hlast : (reconciledPin shardId now kvs es.length first).lastHash = tip es := hhash
  refine ⟨⟨_, hleft, hlast, rfl⟩, ?_, ?_⟩
  · intro later
    rw [hleft]
    refine ⟨tip es, ?_⟩
    have hstored : getLastHash (.pin (reconciledPin shardId now kvs es.length first)) = tip es := hlast
    rw [reconcileShard, htail]
    simp only [hstored, hhash]
    rw [htip, if_pos (by simp)]
  · rw [hleft]
    refine ⟨_, verifyShard_eq_ok.mpr ⟨_, chronoEntries_history hhist (quiet_of_clean hclean), rfl⟩, ?_⟩
    change (checkPin (reconciledPin shardId now kvs es.length first).lastHash (some es.length)
      (tip (es.map (Entry.readBack shardId))) (es.map (Entry.readBack shardId)).length).pinStatus = _
    rw [hlast, tip_readBack hhist.chain, List.length_map, htip]
    exact checkPin_self _ _

/-- **Where the last line is longer, the pin does not get to it.** -/
theorem not_repairs_of_long (hinj : Function.Injective sha) (h : Lagging sha shardId s es k)
    {e : Entry F} (he : es.getLast? = some e) {line : PyStr} (hline : Recorded shardId e line)
    (hlong : tailWindow < (lineBytes line).length) (now : Datetime) :
    ¬Repairs sha shardId now s es := by
  intro hrep
  obtain ⟨p, hp, hhash, hcount⟩ := hrep.pin
  have hsame : (reconcileShard shardId now false s).2 ≠ s := by
    intro heq
    rw [hp] at heq
    exact h.pin_ne hcount (congrArg Shard.pin heq).symm
  have hcases := reconcileShard_reconciles shardId now false s
  generalize reconcileShard shardId now false s = r at hcases hp hsame
  cases hcases with
  | raised e => exact hsame rfl
  | emptyShard htail => exact hsame rfl
  | inSync htail hsync => exact hsame rfl
  | refused hc hback => exact hsame rfl
  | advanced htail hdiff hc hforward hpin =>
    rcases (h.scan he hline).2 hlong with hnone | ⟨n, hn, kvs, hkvs, htip⟩
    · rw [hnone] at htail
      cases htail
    · obtain rfl := PyVal.dict.inj (Option.some.inj (hkvs.symm.trans htail))
      obtain ⟨first, -, rfl, -⟩ := advancePin_eq_ok.mp hpin
      have hnew : getNone (py "hash") kvs = p.lastHash :=
        congrArg Pin.lastHash (PinFile.pin.inj (congrArg Shard.pin hp))
      exact h.tip_ne hinj hn (htip.symm.trans (hnew.trans hhash))

/-- **The pin is repaired iff the line of the last entry, its newline included, is at most as
long as the window.** -/
theorem repairs_iff (hinj : Function.Injective sha) (h : Lagging sha shardId s es k)
    (now : Datetime) : Repairs sha shardId now s es ↔
      ∃ e line, es.getLast? = some e ∧ Recorded shardId e line ∧
        (lineBytes line).length ≤ tailWindow := by
  constructor
  · intro hrep
    obtain ⟨⟨segs, hhist, -⟩, -, hlt⟩ := id h
    obtain ⟨init, e, rfl⟩ := (List.eq_nil_or_concat es).resolve_left (by
      rintro rfl
      exact absurd hlt (Nat.not_lt_zero k))
    have he : (init.concat e).getLast? = some e := by rw [List.concat_eq_append, List.getLast?_concat]
    obtain ⟨line, -, hline⟩ := Pointwise.exists_of_mem_left hhist.lines (List.mem_of_getLast? he)
    refine ⟨e, line, he, hline, ?_⟩
    by_contra hlong
    exact not_repairs_of_long hinj h he hline (Nat.lt_of_not_le hlong) now hrep
  · rintro ⟨e, line, he, hline, hfit⟩
    exact repairs_of_fit hinj h he hline hfit now

/-! ### Samples -/

/-- The line of an entry is longer than its content. -/
theorem Recorded.length_content {e : Entry F} {line text : PyStr} (h : Recorded shardId e line)
    (htext : e.content = .str text) : text.length < line.length := by
  obtain ⟨w, hw, -⟩ := h.printed
  obtain ⟨kvs, -, hline⟩ := h.dict
  have hload : loads line = some (e.stored shardId) := by
    have hevent := h.event
    rw [lineEvent, strip_print_dict hline] at hevent
    split_ifs at hevent
    exact hevent
  have hshort := shorter_of_loads hload
  rw [stored_eq hw] at hshort
  have hread : getNone (py "content") (e.record shardId).items = .str text := by
    change readBack e.content = _
    rw [htext, readBack_str]
  have hcontent := eachStr_getNone (k := py "content") hshort
  rw [hread] at hcontent
  exact hcontent

/-- A code point is at least a byte. -/
theorem length_le_utf8Bytes (t : PyStr) : t.length ≤ (utf8Bytes t).length := by
  induction t with
  | nil => exact le_rfl
  | cons c t ih =>
    have hpos := List.length_pos_of_ne_nil (utf8Char_ne_nil c)
    rw [utf8Bytes_cons, List.length_append, List.length_cons]
    omega

/-- One line, and a crash before its pin. -/
def lagged (e : Entry FloatLit) : Shard FloatLit where
  family := ((Shard.empty FloatLit (py "default")).append sampleConfig (py "default") sampleTime
    e).2.family
  pin := .absent

theorem exists_lagging {e : Entry FloatLit} (he : e.Dumps) : ∃ e' line,
    sealEntry sampleConfig.sha (py "default") e .none = .ok (e', line) ∧
      Recorded (py "default") e' line ∧ e'.content = e.content ∧
        Lagging sampleConfig.sha (py "default") (lagged e) [e'] 0 := by
  have hempty := intact_empty (F := FloatLit) sampleConfig.sha (py "default") (py "default")
  have hname : Encodable (py "default") := by decide
  have hsealed : ∃ r, sealEntry sampleConfig.sha (py "default") e .none = .ok r :=
    exists_sealEntry he dumpable_none hname
  obtain ⟨⟨e', line⟩, hseal⟩ := hsealed
  obtain ⟨s, happend, ⟨⟨segs, hhist, hclean⟩, -⟩, -⟩ := intact_append_sealed sampleTime hempty hseal
  obtain ⟨-, hrec, -, hash, rfl⟩ := sealEntry_eq_ok hseal
  refine ⟨_, line, hseal, hrec, rfl, ⟨segs, ?_, hclean⟩, ⟨rfl, rfl⟩, Nat.one_pos⟩
  rw [lagged, happend]
  exact hhist

theorem dumps_sampleEntry {content : PyStr} (h : Encodable content) :
    (sampleEntry content (.dict [])).Dumps := by
  have hname : ∀ {t : PyStr}, Encodable t → Dumpable (.str t : PyVal FloatLit) := dumpable_str
  have hdict : Dumpable (.dict [] : PyVal FloatLit) := ⟨⟨_, _, rfl, rfl⟩, trivial⟩
  exact ⟨(hname (by decide)).writable, hname (by decide), hname (by decide), hdict, hname h,
    (hname (by decide)).writable⟩

/-- A short first entry. -/
theorem repairs_sample : ∃ e : Entry FloatLit,
    Lagging sampleConfig.sha (py "default") (lagged (sampleEntry (py "one") (.dict []))) [e] 0 ∧
      Repairs sampleConfig.sha (py "default") sampleTime
        (lagged (sampleEntry (py "one") (.dict []))) [e] := by
  have hone : Encodable (py "one") := by decide
  obtain ⟨e, line, hseal, hrec, -, hlag⟩ := exists_lagging (dumps_sampleEntry hone)
  have hshort : ((sealEntry sampleConfig.sha (py "default") (sampleEntry (py "one") (.dict []))
      .none).map fun r => decide ((lineBytes r.2).length ≤ 1000)) = .ok true := by decide +kernel
  rw [hseal] at hshort
  have hlen : (lineBytes line).length ≤ 1000 := of_decide_eq_true (Except.ok.inj hshort)
  have hfit : (lineBytes line).length ≤ tailWindow := hlen.trans (Nat.le_of_ble_eq_true rfl)
  exact ⟨e, hlag, (repairs_iff nibbles_injective hlag sampleTime).mpr ⟨e, line, rfl, hrec, hfit⟩⟩

/-- An entry whose content alone is as long as the window. -/
def longEntry : Entry FloatLit := sampleEntry (List.replicate tailWindow 97) (.dict [])

/-- **A first entry that is longer than the window is never pinned.** -/
theorem long_entry_unpinned : ∃ e : Entry FloatLit,
    Lagging sampleConfig.sha (py "default") (lagged longEntry) [e] 0 ∧
      ¬Repairs sampleConfig.sha (py "default") sampleTime (lagged longEntry) [e] := by
  have hencodable : Encodable (List.replicate tailWindow (97 : CodePoint)) := by
    intro c hc
    rw [List.eq_of_mem_replicate hc]
    decide
  obtain ⟨e, line, -, hrec, hcontent, hlag⟩ := exists_lagging (dumps_sampleEntry hencodable)
  refine ⟨e, hlag, not_repairs_of_long nibbles_injective hlag rfl hrec ?_ sampleTime⟩
  have hlong := hrec.length_content hcontent
  have hbytes := length_le_utf8Bytes line
  rw [List.length_replicate] at hlong
  rw [lineBytes_eq, List.length_append]
  omega

end Daryl
