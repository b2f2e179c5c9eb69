import Daryl.Dsm.Entry
import Daryl.Py.Name

/-!
# Shard segmentation

The segment manager of `core/shard_segments.py`: a shard's entries lie in the
numbered `.jsonl` files of its family directory, and `segment_meta.json` names
the file that appends go to.

`segment_meta.json` is modelled as the record the manager writes, or as absent;
a directory lists its files in any order.

## Main definitions

* `Family` — a family directory.
* `getActiveSegment` — the file to append to, after rotation.
* `iterShardEvents` — the parsed lines of a shard, oldest first.
* `Segment`, `Laid` — a directory as the manager lays it out: numbered segments
  of whole lines, each with a tail not yet ended by a newline.
* `Active` — the segment that appends go to is the last one, or a new one.

## Main results

* `getSegmentFiles_laid` — the segments of a laid-out directory are in order.
* `iterShardEvents_laid` — **a laid-out directory yields its lines.**
* `getActiveSegment_laid` — rotation opens the last segment or the next one.
* `write_laid` — an append goes to the end.
-/

namespace Daryl

open Py Json

/-- `segment_meta.json`. -/
structure SegmentMeta where
  activeSegment : PyStr
  eventCount : ℕ
  sizeBytes : ℕ
  deriving DecidableEq

/-- `MAX_EVENTS_PER_SEGMENT` and `MAX_BYTES_PER_SEGMENT` of a manager. -/
structure Limits where
  maxEvents : ℕ
  maxBytes : ℕ

/-- The limits of the module. -/
def defaultLimits : Limits := ⟨10000, 10 * 1024 * 1024⟩

/-- A family directory: its name, its files and `segment_meta.json`. -/
structure Family where
  name : PyStr
  files : List (PyStr × List Byte)
  segmentMeta : Option SegmentMeta
  deriving DecidableEq

/-- A family directory just made. -/
def Family.empty (name : PyStr) : Family := ⟨name, [], none⟩

/-! ### Segment files -/

/-- The extension of a segment. -/
def jsonl : PyStr := py ".jsonl"

/-- `segment_number`, the sort key of `_get_segment_files`. -/
def segmentNumber (family filename : PyStr) : ℤ :=
  if (family ++ py "_").isPrefixOf (stem filename) then
    (pyInt (lastPiece (stem filename))).getD 9999
  else 9999

/-- `_get_segment_files`. -/
def getSegmentFiles (fam : Family) : List (PyStr × List Byte) :=
  (fam.files.filter fun f => jsonl.isSuffixOf f.1).insertionSort fun f g =>
    segmentNumber fam.name f.1 ≤ segmentNumber fam.name g.1

/-- `_get_segment_number`. -/
def getSegmentNumber (filename : PyStr) : ℤ :=
  if 95 ∈ replace jsonl [] filename then
    (pyInt (lastPiece (replace jsonl [] filename))).getD 9999
  else 9999

/-- `f"{family}_{number:04d}.jsonl"`. -/
def segmentName (family : PyStr) (number : ℤ) : PyStr :=
  family ++ py "_" ++ fmt4 number ++ jsonl

/-- The lines of a file opened in text mode. -/
def textLines (bs : List Byte) : Except PyError (List PyStr) :=
  match decodeUtf8 bs with
  | some text => .ok (splitNl (universalNewlines false text))
  | none => .error .unicodeDecodeError

/-- `line.strip()` is not empty. -/
def notBlank (line : PyStr) : Bool := strip line != []

/-- `_get_active_segment_path`: rotation when a limit is reached, and the scan of
the last segment when `segment_meta.json` is missing. -/
def getActiveSegment (lim : Limits) (fam : Family) : Except PyError (PyStr × Family) :=
  let fallback : Except PyError (PyStr × Family) :=
    match (getSegmentFiles fam).getLast? with
    | none =>
      let first := segmentName fam.name 1
      .ok (first, { fam with segmentMeta := some ⟨first, 0, 0⟩ })
    | some (active, bs) =>
      (textLines bs).map fun lines =>
        (active, { fam with segmentMeta := some ⟨active, lines.countP notBlank, bs.length⟩ })
  match fam.segmentMeta with
  | none => fallback
  | some m =>
    if m.activeSegment = [] then fallback
    else if lim.maxEvents ≤ m.eventCount ∨ lim.maxBytes ≤ m.sizeBytes then
      let next := segmentName fam.name (getSegmentNumber m.activeSegment + 1)
      .ok (next, { fam with segmentMeta := some ⟨next, 0, 0⟩ })
    else .ok (m.activeSegment, fam)

/-- The files after writing to one of them in append mode, which creates it. -/
def appendFile (name : PyStr) (bs : List Byte) :
    List (PyStr × List Byte) → List (PyStr × List Byte)
  | [] => [(name, bs)]
  | f :: fs => if f.1 = name then (f.1, f.2 ++ bs) :: fs else f :: appendFile name bs fs

/-- `open(path, "a")` and a write; writing nothing only creates the file. -/
def Family.write (fam : Family) (name : PyStr) (bs : List Byte) : Family :=
  { fam with files := appendFile name bs fam.files }

/-- `update_active_segment_metadata`. -/
def updateActiveSegmentMetadata (fam : Family) (deltaEvents deltaBytes : ℕ) : Family :=
  { fam with segmentMeta := fam.segmentMeta.map fun m =>
      { m with eventCount := m.eventCount + deltaEvents, sizeBytes := m.sizeBytes + deltaBytes } }

section

variable {F : Type} [PyFloat F]

/-- The event of a line: blank and malformed lines have none. -/
def lineEvent (line : PyStr) : Option (PyVal F) :=
  if strip line = [] then none else loads (strip line)

/-- `iter_shard_events`. -/
def iterShardEvents (fam : Family) : Except PyError (List (PyVal F)) :=
  ((getSegmentFiles fam).mapM fun f => textLines f.2).map fun ls => ls.flatten.filterMap lineEvent

end

/-! ### Names and numbers -/

private theorem underscore_notMem_fmt4 (n : ℕ) : 95 ∉ fmt4 n := by
  have : ∀ d : Fin 10, digitChar d ≠ 95 := by decide
  simp only [fmt4_ofNat, List.mem_map, not_exists, not_and]
  exact fun d _ => this d

private theorem segmentName_eq (family : PyStr) (n : ℤ) :
    segmentName family n = family ++ 95 :: (fmt4 n ++ 46 :: py "jsonl") := by
  simp only [segmentName, List.append_assoc]
  rfl

/-- The sort key of a segment is its number. -/
theorem segmentNumber_segmentName (family : PyStr) (n : ℕ) :
    segmentNumber family (segmentName family n) = n := by
  have hstem : stem (segmentName family n) = family ++ 95 :: fmt4 n := by
    rw [segmentName_eq, ← List.cons_append, ← List.append_assoc]
    exact stem_append (by simp) (by decide) (by decide)
  have hpre : (family ++ py "_").isPrefixOf (family ++ 95 :: fmt4 n) = true :=
    List.isPrefixOf_iff_prefix.mpr ⟨fmt4 n, by simp [py]; rfl⟩
  rw [segmentNumber, hstem, if_pos hpre, lastPiece_append (underscore_notMem_fmt4 n), pyInt_fmt4,
    Option.getD_some]

/-- And so is the number read off the name when rotating. -/
theorem getSegmentNumber_segmentName (family : PyStr) (n : ℕ) :
    getSegmentNumber (segmentName family n) = n := by
  have hdigits : ∀ ds : List (Fin 10),
      replaceAux jsonl [] 0 (ds.map digitChar ++ jsonl) = ds.map digitChar := by
    intro ds
    induction ds with
    | nil => rfl
    | cons d ds ih =>
      have hne : ∀ d : Fin 10, (46 : CodePoint) ≠ digitChar d := by decide
      rw [List.map_cons, List.cons_append, replaceAux, if_neg, ih]
      rw [show jsonl = 46 :: py "jsonl" from rfl, List.isPrefixOf]
      simp [hne d]
  have hname : segmentName family n = family ++ 95 :: (fmt4 n ++ jsonl) := segmentName_eq family n
  obtain ⟨u, hu⟩ := replaceAux_append (show jsonl ≠ [] by decide) (show 95 ∉ jsonl by decide) []
    (fmt4 n ++ jsonl) family 0 (Nat.zero_le _)
  have hrep : replace jsonl [] (segmentName family n) = u ++ 95 :: fmt4 n := by
    rw [replace, hname, hu, fmt4_ofNat, hdigits]
  rw [getSegmentNumber, hrep, if_pos (by simp), lastPiece_append (underscore_notMem_fmt4 n),
    pyInt_fmt4, Option.getD_some]

theorem segmentName_injective (family : PyStr) {m n : ℕ}
    (h : segmentName family m = segmentName family n) : m = n := by
  have := congrArg getSegmentNumber h
  rw [getSegmentNumber_segmentName, getSegmentNumber_segmentName] at this
  exact_mod_cast this

theorem segmentName_ne_nil (family : PyStr) (n : ℤ) : segmentName family n ≠ [] := by
  simp [segmentName_eq]

theorem isSuffixOf_segmentName (family : PyStr) (n : ℤ) :
    jsonl.isSuffixOf (segmentName family n) = true :=
  List.isSuffixOf_iff_suffix.mpr ⟨_, rfl⟩

/-! ### Directories as the manager lays them out -/

/-- A segment: its number, its lines, and a tail not ended by a newline. -/
structure Segment where
  number : ℕ
  lines : List PyStr
  tail : PyStr

/-- The bytes of a line. -/
def lineBytes (line : PyStr) : List Byte := utf8Bytes (line ++ [nl])

/-- The bytes of a line end in a newline. -/
theorem lineBytes_eq (line : PyStr) : lineBytes line = utf8Bytes line ++ [10] := by
  rw [lineBytes, utf8Bytes_append]
  rfl

/-- The bytes of a segment. -/
def Segment.bytes (s : Segment) : List Byte := s.lines.flatMap lineBytes ++ utf8Bytes s.tail

/-- The file of a segment. -/
def Segment.file (family : PyStr) (s : Segment) : PyStr × List Byte :=
  (segmentName family s.number, s.bytes)

/-- What text mode shows of a segment. -/
def Segment.texts (s : Segment) : List PyStr := s.lines ++ [s.tail]

/-- A line that survives the trip through a text file. -/
structure PlainLine (line : PyStr) : Prop where
  encodable : Encodable line
  nl : nl ∉ line
  cr : cr ∉ line

/-- The directory holds these segments, in increasing order of their numbers. -/
structure Laid (fam : Family) (segs : List Segment) : Prop where
  files : fam.files = segs.map (Segment.file fam.name)
  increasing : segs.Pairwise fun s t => s.number < t.number
  plain : ∀ s ∈ segs, ∀ l ∈ s.texts, PlainLine l

theorem plainLine_nil : PlainLine [] := ⟨encodable_nil, by simp, by simp⟩

/-- The segments of a laid-out directory are in order. -/
theorem getSegmentFiles_laid {fam : Family} {segs : List Segment} (h : Laid fam segs) :
    getSegmentFiles fam = segs.map (Segment.file fam.name) := by
  have hfilter : (segs.map (Segment.file fam.name)).filter (fun f => jsonl.isSuffixOf f.1)
      = segs.map (Segment.file fam.name) := by
    rw [List.filter_eq_self]
    intro f hf
    obtain ⟨s, -, rfl⟩ := List.mem_map.mp hf
    exact isSuffixOf_segmentName _ _
  rw [getSegmentFiles, h.files, hfilter]
  refine List.Pairwise.insertionSort_eq ?_
  rw [List.pairwise_map]
  refine h.increasing.imp fun {s t} hst => ?_
  simp only [Segment.file, segmentNumber_segmentName]
  exact_mod_cast hst.le

/-- Text mode shows the lines of a segment and its tail. -/
theorem textLines_bytes {s : Segment} (h : ∀ l ∈ s.texts, PlainLine l) :
    textLines s.bytes = .ok s.texts := by
  have htext : s.bytes = utf8Bytes (s.lines.flatMap (fun l => l ++ [nl]) ++ s.tail) := by
    rw [Segment.bytes, utf8Bytes_append]
    congr 1
    induction s.lines with
    | nil => rfl
    | cons l ls ih => simp only [List.flatMap_cons, utf8Bytes_append, ih, lineBytes]
  have hlines : ∀ l ∈ s.lines, PlainLine l := fun l hl => h l (by simp [Segment.texts, hl])
  have htail : PlainLine s.tail := h s.tail (by simp [Segment.texts])
  have henc : Encodable (s.lines.flatMap (fun l => l ++ [nl]) ++ s.tail) := by
    refine encodable_append.mpr ⟨?_, htail.encodable⟩
    intro c hc
    obtain ⟨l, hl, hc⟩ := List.mem_flatMap.mp hc
    have hlnl : Encodable (l ++ [nl]) := encodable_append.mpr ⟨(hlines l hl).encodable, by decide⟩
    exact hlnl c hc
  have hcr : cr ∉ s.lines.flatMap (fun l => l ++ [nl]) ++ s.tail := by
    simp only [List.mem_append, List.mem_flatMap, not_or, not_exists, not_and, List.mem_singleton]
    exact ⟨fun l hl => ⟨(hlines l hl).cr, by decide⟩, htail.cr⟩
  rw [textLines, htext, decodeUtf8_utf8Bytes henc]
  simp only
  rw [universalNewlines_eq_self hcr, Segment.texts]
  congr 1
  clear henc hcr htext
  generalize s.lines = ls at hlines ⊢
  induction ls with
  | nil => simpa using splitNl_eq_singleton htail.nl
  | cons l ls ih =>
    rw [List.flatMap_cons, List.append_assoc, List.append_assoc, List.singleton_append,
      splitNl_line_append _ (hlines l List.mem_cons_self).nl,
      ih fun l hl => hlines l (List.mem_cons_of_mem _ hl)]
    rfl

/-- Text mode shows the lines that were written, and what is after the last newline. -/
theorem textLines_lines {lines : List PyStr} (h : ∀ l ∈ lines, PlainLine l) :
    textLines (lines.flatMap lineBytes) = .ok (lines ++ [[]]) := by
  have hplain : ∀ l ∈ (Segment.mk 0 lines []).texts, PlainLine l := by
    rw [Segment.texts, List.forall_mem_append, List.forall_mem_singleton]
    exact ⟨h, plainLine_nil⟩
  have hbytes : lines.flatMap lineBytes = (Segment.mk 0 lines []).bytes := by
    rw [Segment.bytes, utf8Bytes, List.flatMap_nil, List.append_nil]
  rw [hbytes, textLines_bytes hplain]
  rfl

/-- No byte of a code point but the newline is a newline. -/
theorem newline_notMem_utf8Char {c : CodePoint} (h : c ≠ nl) : 10 ∉ utf8Char c := by
  have hval : c.val ≠ 10 := fun hc => h (Fin.ext hc)
  unfold utf8Char
  split_ifs
  all_goals
    simp only [List.mem_cons, List.not_mem_nil, or_false, Fin.ext_iff, not_or]
    simp only [Fin.isValue, Fin.coe_ofNat_eq_mod]
    omega

theorem newline_notMem_utf8Bytes {t : PyStr} (h : nl ∉ t) : 10 ∉ utf8Bytes t := by
  rw [utf8Bytes, List.mem_flatMap]
  rintro ⟨c, hc, hmem⟩
  exact newline_notMem_utf8Char (fun hcn => h (hcn ▸ hc)) hmem

private theorem splitOn_newline_append {t : PyStr} (h : nl ∉ t) (bs : List Byte) :
    (utf8Bytes t ++ 10 :: bs).splitOn 10 = utf8Bytes t :: bs.splitOn 10 := by
  have hmem := newline_notMem_utf8Bytes h
  unfold List.splitOn
  rw [List.splitOnP_append_cons (p := fun b => b == 10) _ _ (by simp), List.splitOnP_eq_singleton]
  · rfl
  · intro b hb
    simp only [beq_eq_false_iff_ne]
    exact fun hbn => hmem (hbn ▸ hb)

private theorem splitOn_newline_eq_singleton {t : PyStr} (h : nl ∉ t) :
    (utf8Bytes t).splitOn 10 = [utf8Bytes t] := by
  have hmem := newline_notMem_utf8Bytes h
  unfold List.splitOn
  rw [List.splitOnP_eq_singleton]
  intro b hb
  simp only [beq_eq_false_iff_ne]
  exact fun hbn => hmem (hbn ▸ hb)

/-- The bytes of a segment split into those of its lines and its tail. -/
theorem splitOn_bytes {s : Segment} (h : ∀ l ∈ s.texts, PlainLine l) :
    s.bytes.splitOn 10 = s.texts.map utf8Bytes := by
  have htail : nl ∉ s.tail := (h s.tail (by simp [Segment.texts])).nl
  have hlines : ∀ l ∈ s.lines, nl ∉ l := fun l hl => (h l (by simp [Segment.texts, hl])).nl
  rw [Segment.bytes, Segment.texts]
  clear h
  generalize s.lines = lines at hlines ⊢
  induction lines with
  | nil => exact splitOn_newline_eq_singleton htail
  | cons l ls ih =>
    rw [List.flatMap_cons, lineBytes_eq, List.append_assoc, List.append_assoc,
      List.singleton_append, splitOn_newline_append (hlines l List.mem_cons_self),
      ih fun k hk => hlines k (List.mem_cons_of_mem _ hk)]
    rfl

/-- The bytes of whole lines split into the lines, and nothing behind the last newline. -/
theorem splitOn_lines {lines : List PyStr} (h : ∀ l ∈ lines, PlainLine l) :
    (lines.flatMap lineBytes).splitOn 10 = lines.map utf8Bytes ++ [[]] := by
  have hplain : ∀ l ∈ (Segment.mk 0 lines []).texts, PlainLine l := by
    rw [Segment.texts, List.forall_mem_append, List.forall_mem_singleton]
    exact ⟨h, plainLine_nil⟩
  have hbytes : lines.flatMap lineBytes = (Segment.mk 0 lines []).bytes := by
    rw [Segment.bytes, utf8Bytes_nil, List.append_nil]
  rw [hbytes, splitOn_bytes hplain, Segment.texts, List.map_append]
  rfl

/-- Reading a laid-out directory in text mode. -/
theorem mapM_textLines_laid {fam : Family} {segs : List Segment} (h : Laid fam segs) :
    ((getSegmentFiles fam).mapM fun f => textLines f.2) = .ok (segs.map Segment.texts) := by
  rw [getSegmentFiles_laid h]
  have hplain := h.plain
  clear h
  induction segs with
  | nil => rfl
  | cons s segs ih =>
    rw [List.map_cons, List.mapM_cons]
    simp only [Segment.file]
    rw [textLines_bytes (hplain s List.mem_cons_self),
      ih fun t ht => hplain t (List.mem_cons_of_mem _ ht)]
    rfl

section

variable {F : Type} [PyFloat F]

/-- **A laid-out directory yields its lines.** -/
theorem iterShardEvents_laid {fam : Family} {segs : List Segment} (h : Laid fam segs) :
    (iterShardEvents fam : Except PyError (List (PyVal F)))
      = .ok ((segs.flatMap Segment.texts).filterMap lineEvent) := by
  rw [iterShardEvents, mapM_textLines_laid h, List.flatMap_def]
  rfl

/-- Tails without an event add nothing to the events of the lines. -/
theorem filterMap_texts {segs : List Segment} (h : ∀ s ∈ segs, lineEvent (F := F) s.tail = none) :
    (segs.flatMap Segment.texts).filterMap (lineEvent (F := F))
      = (segs.flatMap Segment.lines).filterMap lineEvent := by
  induction segs with
  | nil => rfl
  | cons s segs ih =>
    rw [List.flatMap_cons, List.flatMap_cons, List.filterMap_append, List.filterMap_append,
      ih fun t ht => h t (List.mem_cons_of_mem _ ht), Segment.texts, List.filterMap_append]
    simp [h s List.mem_cons_self]

theorem lineEvent_nil : lineEvent (F := F) [] = none := rfl

end

/-! ### The active segment -/

/-- `segment_meta.json` is missing and there is no segment, or it names a segment
not before any that is there. -/
def Active (fam : Family) (segs : List Segment) : Prop :=
  match fam.segmentMeta with
  | none => segs = []
  | some m => ∃ a : ℕ, m.activeSegment = segmentName fam.name a ∧ ∀ s ∈ segs, s.number ≤ a

/-- Rotation moves on to a segment not before any that is there. -/
theorem getActiveSegment_laid (lim : Limits) {fam : Family} {segs : List Segment}
    (h : Laid fam segs) (ha : Active fam segs) :
    ∃ (b : ℕ) (m : SegmentMeta), getActiveSegment lim fam
        = .ok (segmentName fam.name b, { fam with segmentMeta := some m }) ∧
      m.activeSegment = segmentName fam.name b ∧ ∀ s ∈ segs, s.number ≤ b := by
  unfold Active at ha
  cases hm : fam.segmentMeta with
  | none =>
    rw [hm] at ha
    simp only at ha
    subst ha
    refine ⟨1, ⟨segmentName fam.name 1, 0, 0⟩, ?_, rfl, by simp⟩
    rw [getActiveSegment, hm]
    simp only
    rw [getSegmentFiles_laid h]
    rfl
  | some m =>
    rw [hm] at ha
    obtain ⟨a, hname, hle⟩ := ha
    rw [getActiveSegment, hm]
    simp only
    rw [if_neg (hname ▸ segmentName_ne_nil _ _)]
    split_ifs with hlim
    · refine ⟨a + 1, ⟨segmentName fam.name ((a + 1 : ℕ) : ℤ), 0, 0⟩, ?_, rfl, ?_⟩
      · rw [hname, getSegmentNumber_segmentName]
        rfl
      · exact fun s hs => (hle s hs).trans (Nat.le_succ a)
    · refine ⟨a, m, ?_, hname, hle⟩
      rw [hname]
      congr 2
      cases fam
      simp_all

/-- Change the segment of a number, a new one at the end if there is none. -/
def onSegment (b : ℕ) (f : Segment → Segment) : List Segment → List Segment
  | [] => [f ⟨b, [], []⟩]
  | s :: segs => if s.number = b then f s :: segs else s :: onSegment b f segs

/-- Writing to the file of a segment changes that segment. -/
theorem appendFile_file {family : PyStr} {b : ℕ} {bs : List Byte} {f : Segment → Segment}
    (hnum : ∀ s, (f s).number = s.number) (hnew : (f ⟨b, [], []⟩).bytes = bs) :
    ∀ {segs : List Segment}, (∀ s ∈ segs, s.number = b → (f s).bytes = s.bytes ++ bs) →
      appendFile (segmentName family b) bs (segs.map (Segment.file family))
        = (onSegment b f segs).map (Segment.file family)
  | [], _ => by simp [appendFile, onSegment, Segment.file, hnum, hnew]
  | s :: segs, hf => by
    rw [List.map_cons, appendFile, onSegment]
    by_cases hs : s.number = b
    · rw [if_pos (by rw [Segment.file, hs]), if_pos hs, List.map_cons]
      simp only [Segment.file, hnum, hf s List.mem_cons_self hs]
    · have hne : ¬(s.file family).1 = segmentName family b :=
        fun h => hs (segmentName_injective family h)
      rw [if_neg hne, if_neg hs, List.map_cons,
        appendFile_file hnum hnew fun t ht => hf t (List.mem_cons_of_mem _ ht)]

theorem mem_onSegment {b : ℕ} {f : Segment → Segment} {t : Segment} : ∀ {segs : List Segment},
    t ∈ onSegment b f segs → t ∈ segs ∨ t = f ⟨b, [], []⟩ ∨ ∃ s ∈ segs, s.number = b ∧ t = f s
  | [], h => by
    rw [onSegment, List.mem_singleton] at h
    exact .inr (.inl h)
  | s :: segs, h => by
    rw [onSegment] at h
    split_ifs at h with hs
    · rcases List.mem_cons.mp h with rfl | h
      · exact .inr (.inr ⟨s, List.mem_cons_self, hs, rfl⟩)
      · exact .inl (List.mem_cons_of_mem _ h)
    · rcases List.mem_cons.mp h with rfl | h
      · exact .inl List.mem_cons_self
      · rcases mem_onSegment h with h | h | ⟨u, hu, hb, rfl⟩
        · exact .inl (List.mem_cons_of_mem _ h)
        · exact .inr (.inl h)
        · exact .inr (.inr ⟨u, List.mem_cons_of_mem _ hu, hb, rfl⟩)

/-- Changing the last segment, or adding one, keeps the numbers increasing. -/
theorem increasing_onSegment {b : ℕ} {f : Segment → Segment} (hnum : ∀ s, (f s).number = s.number) :
    ∀ {segs : List Segment}, segs.Pairwise (fun s t => s.number < t.number) →
      (∀ s ∈ segs, s.number ≤ b) →
      (onSegment b f segs).Pairwise fun s t => s.number < t.number
  | [], _, _ => List.pairwise_singleton _ _
  | s :: segs, hinc, hle => by
    rw [List.pairwise_cons] at hinc
    rw [onSegment]
    split_ifs with hs
    · refine List.pairwise_cons.mpr ⟨fun t ht => ?_, hinc.2⟩
      rw [hnum]
      exact hinc.1 t ht
    · refine List.pairwise_cons.mpr ⟨fun t ht => ?_,
        increasing_onSegment hnum hinc.2 fun t ht => hle t (List.mem_cons_of_mem _ ht)⟩
      rcases mem_onSegment ht with ht | rfl | ⟨u, hu, -, rfl⟩
      · exact hinc.1 t ht
      · rw [hnum]
        exact lt_of_le_of_ne (hle s List.mem_cons_self) hs
      · rw [hnum]
        exact hinc.1 u hu

/-! ### Writing at the end -/

/-- The lines of a directory, oldest first. -/
def linesOf (segs : List Segment) : List PyStr := segs.flatMap Segment.lines

/-- A segment with one more line. -/
def Segment.addLine (line : PyStr) (s : Segment) : Segment := { s with lines := s.lines ++ [line] }

/-- A segment with a longer tail. -/
def Segment.addTail (text : PyStr) (s : Segment) : Segment := { s with tail := s.tail ++ text }

/-- No segment has a tail. -/
def Clean (segs : List Segment) : Prop := ∀ s ∈ segs, s.tail = []

theorem bytes_addLine {s : Segment} (h : s.tail = []) (line : PyStr) :
    (s.addLine line).bytes = s.bytes ++ lineBytes line := by
  simp [Segment.bytes, Segment.addLine, h]

theorem bytes_addTail (s : Segment) (text : PyStr) :
    (s.addTail text).bytes = s.bytes ++ utf8Bytes text := by
  simp [Segment.bytes, Segment.addTail]

/-- The segment of this number, if it is there, has no tail. -/
def CleanAt (segs : List Segment) (b : ℕ) : Prop := ∀ s ∈ segs, s.number = b → s.tail = []

theorem Clean.at {segs : List Segment} (h : Clean segs) (b : ℕ) : CleanAt segs b :=
  fun s hs _ => h s hs

/-- The segment that a change at a number changes: a new one, or the one there. -/
def Target (segs : List Segment) (b : ℕ) (s : Segment) : Prop :=
  s = ⟨b, [], []⟩ ∨ s ∈ segs ∧ s.number = b

/-- A write through a change of the last segment, or of a new one. -/
theorem write_laid {fam : Family} {segs : List Segment} {b : ℕ} {bs : List Byte}
    {f : Segment → Segment} (h : Laid fam segs) (hle : ∀ s ∈ segs, s.number ≤ b)
    (hnum : ∀ s, (f s).number = s.number)
    (hbytes : ∀ s, Target segs b s → (f s).bytes = s.bytes ++ bs)
    (hplain : ∀ s, Target segs b s → ∀ l ∈ (f s).texts, PlainLine l) :
    Laid (fam.write (segmentName fam.name b) bs) (onSegment b f segs) where
  files := by
    rw [Family.write, h.files]
    exact appendFile_file hnum (by simpa [Segment.bytes] using hbytes _ (.inl rfl))
      fun s hs hb => hbytes s (.inr ⟨hs, hb⟩)
  increasing := increasing_onSegment hnum h.increasing hle
  plain := by
    intro s hs
    rcases mem_onSegment hs with hs | rfl | ⟨t, ht, hb, rfl⟩
    · exact h.plain s hs
    · exact hplain _ (.inl rfl)
    · exact hplain t (.inr ⟨ht, hb⟩)

theorem CleanAt.target {segs : List Segment} {b : ℕ} (h : CleanAt segs b) {s : Segment}
    (hs : Target segs b s) : s.tail = [] := by
  rcases hs with rfl | ⟨hs, hb⟩
  · rfl
  · exact h s hs hb

theorem Laid.target {fam : Family} {segs : List Segment} {b : ℕ} (h : Laid fam segs) {s : Segment}
    (hs : Target segs b s) : ∀ l ∈ s.texts, PlainLine l := by
  rcases hs with rfl | ⟨hs, -⟩
  · simpa [Segment.texts] using plainLine_nil
  · exact h.plain s hs

/-- Appending a line to a segment without a tail. -/
theorem write_line_laid {fam : Family} {segs : List Segment} {b : ℕ} {line : PyStr}
    (h : Laid fam segs) (hclean : CleanAt segs b) (hle : ∀ s ∈ segs, s.number ≤ b)
    (hline : PlainLine line) :
    Laid (fam.write (segmentName fam.name b) (lineBytes line)) (onSegment b (.addLine line) segs) := by
  refine write_laid h hle (fun _ => rfl) (fun s hs => bytes_addLine (hclean.target hs) line) ?_
  intro s hs l hl
  have hold := h.target hs
  simp only [Segment.texts, Segment.addLine, List.mem_append, List.mem_singleton] at hl hold
  rcases hl with (hl | rfl) | rfl
  · exact hold l (.inl hl)
  · exact hline
  · exact hold _ (.inr rfl)

/-- Writing part of a line, or nothing, to a segment without a tail. -/
theorem write_tail_laid {fam : Family} {segs : List Segment} {b : ℕ} {text : PyStr}
    (h : Laid fam segs) (hclean : CleanAt segs b) (hle : ∀ s ∈ segs, s.number ≤ b)
    (htext : PlainLine text) :
    Laid (fam.write (segmentName fam.name b) (utf8Bytes text))
      (onSegment b (.addTail text) segs) := by
  refine write_laid h hle (fun _ => rfl) (fun s _ => bytes_addTail s text) ?_
  intro s hs l hl
  have hold := h.target hs
  have htail := hclean.target hs
  simp only [Segment.texts, Segment.addTail, htail, List.nil_append, List.mem_append,
    List.mem_singleton] at hl hold
  rcases hl with hl | rfl
  · exact hold l (.inl hl)
  · exact htext

theorem clean_addLine {segs : List Segment} {b : ℕ} {line : PyStr} (h : Clean segs) :
    Clean (onSegment b (.addLine line) segs) := by
  intro s hs
  rcases mem_onSegment hs with hs | rfl | ⟨t, ht, -, rfl⟩
  · exact h s hs
  · rfl
  · exact h t ht

/-- The segment written to is the last one. -/
theorem onSegment_last {b : ℕ} {f : Segment → Segment} : ∀ {segs : List Segment},
    segs.Pairwise (fun s t => s.number < t.number) → (∀ s ∈ segs, s.number ≤ b) →
      (∃ segs' s, segs = segs' ++ [s] ∧ s.number = b ∧ onSegment b f segs = segs' ++ [f s]) ∨
        onSegment b f segs = segs ++ [f ⟨b, [], []⟩]
  | [], _, _ => .inr rfl
  | s :: segs, hinc, hle => by
    rw [List.pairwise_cons] at hinc
    rw [onSegment]
    split_ifs with hs
    · have hnil : segs = [] := by
        rw [List.eq_nil_iff_forall_not_mem]
        intro t ht
        have := hinc.1 t ht
        have := hle t (List.mem_cons_of_mem _ ht)
        omega
      exact .inl ⟨[], s, by rw [hnil]; rfl, hs, by rw [hnil]; rfl⟩
    · rcases onSegment_last hinc.2 fun t ht => hle t (List.mem_cons_of_mem _ ht) with
        ⟨segs', t, rfl, ht, heq⟩ | heq
      · exact .inl ⟨s :: segs', t, rfl, ht, by rw [heq]; rfl⟩
      · exact .inr (by rw [heq]; rfl)

/-- An appended line comes last. -/
theorem linesOf_addLine {segs : List Segment} {b : ℕ} {line : PyStr}
    (hinc : segs.Pairwise fun s t => s.number < t.number) (hle : ∀ s ∈ segs, s.number ≤ b) :
    linesOf (onSegment b (.addLine line) segs) = linesOf segs ++ [line] := by
  rcases onSegment_last (f := Segment.addLine line) hinc hle with ⟨segs', s, rfl, -, heq⟩ | heq
  · rw [heq]
    simp [linesOf, Segment.addLine]
  · rw [heq]
    simp [linesOf, Segment.addLine]

theorem linesOf_addTail {segs : List Segment} {b : ℕ} {text : PyStr}
    (hinc : segs.Pairwise fun s t => s.number < t.number) (hle : ∀ s ∈ segs, s.number ≤ b) :
    linesOf (onSegment b (.addTail text) segs) = linesOf segs := by
  rcases onSegment_last (f := Segment.addTail text) hinc hle with ⟨segs', s, rfl, -, heq⟩ | heq
  · rw [heq]
    simp [linesOf, Segment.addTail]
  · rw [heq]
    simp [linesOf, Segment.addTail]

/-- The segment written to is not before any other. -/
theorem le_onSegment {segs : List Segment} {b : ℕ} {f : Segment → Segment}
    (hnum : ∀ s, (f s).number = s.number) (hle : ∀ s ∈ segs, s.number ≤ b) :
    ∀ s ∈ onSegment b f segs, s.number ≤ b := by
  intro s hs
  rcases mem_onSegment hs with hs | rfl | ⟨t, ht, -, rfl⟩
  · exact hle s hs
  · rw [hnum]
  · rw [hnum]
    exact hle t ht

end Daryl
