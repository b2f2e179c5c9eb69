import Daryl.Dsm.Segments
import Daryl.Lib.Dict
import Daryl.Lib.Run

/-!
# Rotation

`segment_meta.json` names the active segment of a family and counts what is in it, so that
an append need not look.  When the file is gone, the last segment is scanned instead.  An
append may be cut off after each of its writes: when the segment is chosen, when it is opened,
and when the line is in it but not yet counted.

## Main definitions

* `Rotation` — the directory, with the lines that were written, the segment the metadata would
  have chosen when it was deleted, and whether a full segment was written to.
* `rotationStep` — an append, whole or cut off, or the deletion of the metadata.
* `Rotates` — the next append goes where the metadata would have sent it, no full segment was
  written to, and the events are in the order of the appends.
* `RotationEvent.Harmless` — a call that leaves the counters right.

## Main results

* `chooseSegment` — which segment is chosen, and that it is not full.
* `rotates_always` — **runs of harmless calls rotate as they should.**
* `rotation_forgotten` — a full segment whose metadata was deleted.
-/

namespace Daryl

open Py Json

/-- A line that an append writes. -/
abbrev EventLine := {line : PyStr // PlainLine line ∧ notBlank line = true}

/-- Where an append is cut off. -/
inductive AppendCut
  /-- The segment is chosen, and the metadata say so. -/
  | chosen
  /-- The file of the segment is there. -/
  | opened
  /-- The line is in it. -/
  | written
  /-- The line is counted. -/
  | counted
  deriving DecidableEq

/-- A call on a family. -/
inductive RotationEvent
  | append (line : EventLine) (cut : AppendCut)
  | deleteMeta

/-- The directory, and what was done to it. -/
structure Rotation where
  family : Family
  appended : List PyStr
  expected : Option PyStr
  overfull : Bool

/-- A directory just made. -/
def Rotation.empty (name : PyStr) : Rotation := ⟨.empty name, [], none, false⟩

/-- How many events are in a file. -/
def eventsIn (bs : List Byte) : ℕ :=
  match textLines bs with
  | .ok lines => lines.countP notBlank
  | .error _ => 0

/-- The file of a segment holds as many events or bytes as a segment may. -/
def isFull (lim : Limits) (fam : Family) (path : PyStr) : Bool :=
  let bs := (Dict.get path fam.files).getD []
  lim.maxEvents ≤ eventsIn bs ∨ lim.maxBytes ≤ bs.length

/-- The segment an append would go to. -/
def nextSegment (lim : Limits) (fam : Family) : Except PyError PyStr :=
  (getActiveSegment lim fam).map Prod.fst

/-- One call. -/
def rotationStep (lim : Limits) (s : Rotation) : RotationEvent → Rotation
  | .deleteMeta =>
    { s with
      family := { s.family with segmentMeta := none }
      expected := if s.family.segmentMeta = none then s.expected
        else (nextSegment lim s.family).toOption }
  | .append line cut =>
    match getActiveSegment lim s.family with
    | .error _ => s
    | .ok (path, fam) =>
      let full := s.overfull || isFull lim s.family path
      match cut with
      | .chosen => { s with family := fam, expected := none }
      | .opened => { s with family := fam.write path [], expected := none }
      | .written => ⟨fam.write path (lineBytes line.val), s.appended ++ [line.val], none, full⟩
      | .counted => ⟨updateActiveSegmentMetadata (fam.write path (lineBytes line.val)) 1
          (lineBytes line.val).length, s.appended ++ [line.val], none, full⟩

section

variable (F : Type) [PyFloat F]

/-- **The next append goes where the metadata would have sent it, no full segment was written
to, and the events are in the order of the appends.** -/
structure Rotates (lim : Limits) (s : Rotation) : Prop where
  next : ∀ path, s.expected = some path → nextSegment lim s.family = .ok path
  sound : s.overfull = false
  ordered : (iterShardEvents s.family : Except PyError (List (PyVal F))) =
    .ok (s.appended.filterMap lineEvent)

end

/-- A call that leaves the counters right: the line of an append is counted, and the metadata
are deleted only where there is no segment, or the one they name is there and not full. -/
def RotationEvent.Harmless (lim : Limits) (s : Rotation) : RotationEvent → Prop
  | .append _ cut => cut ≠ .written
  | .deleteMeta => ∀ m ∈ s.family.segmentMeta, getSegmentFiles s.family = [] ∨
      m.activeSegment ∈ Dict.keys s.family.files ∧ isFull lim s.family m.activeSegment = false

/-! ### A segment of the directory -/

/-- The segment of a number, empty where there is none. -/
def segmentAt (b : ℕ) (segs : List Segment) : Segment :=
  (segs.find? fun s => s.number = b).getD ⟨b, [], []⟩

theorem segmentAt_onSegment {b : ℕ} {f : Segment → Segment} (hnum : ∀ s, (f s).number = s.number) :
    ∀ segs : List Segment, segmentAt b (onSegment b f segs) = f (segmentAt b segs)
  | [] => by
    rw [onSegment, segmentAt, List.find?_cons_of_pos (by simp [hnum])]
    rfl
  | s :: segs => by
    rw [onSegment]
    by_cases hs : s.number = b
    · rw [if_pos hs, segmentAt, List.find?_cons_of_pos (by simp [hnum, hs]), segmentAt,
        List.find?_cons_of_pos (by simp [hs])]
      rfl
    · have ih := segmentAt_onSegment hnum (b := b) segs
      rw [if_neg hs]
      unfold segmentAt at ih ⊢
      rw [List.find?_cons_of_neg (by simpa using hs), List.find?_cons_of_neg (by simpa using hs),
        ih]

theorem onSegment_ne_nil (b : ℕ) (f : Segment → Segment) (segs : List Segment) :
    onSegment b f segs ≠ [] := by
  cases segs with
  | nil => exact List.cons_ne_nil _ _
  | cons s segs =>
    rw [onSegment]
    split_ifs
    · exact List.cons_ne_nil _ _
    · exact List.cons_ne_nil _ _

/-- Beyond the last segment there is none. -/
theorem segmentAt_of_lt {b : ℕ} {segs : List Segment} (h : ∀ s ∈ segs, s.number < b) :
    segmentAt b segs = ⟨b, [], []⟩ := by
  rw [segmentAt, List.find?_eq_none.mpr]
  · rfl
  · intro s hs
    have := h s hs
    simp only [decide_eq_true_eq]
    omega

/-- The last segment is found under its number. -/
theorem segmentAt_last {segs : List Segment} {last : Segment}
    (hinc : (segs ++ [last]).Pairwise fun s t => s.number < t.number) :
    segmentAt last.number (segs ++ [last]) = last := by
  have hbefore : segs.find? (fun s => s.number = last.number) = none := by
    rw [List.find?_eq_none]
    intro s hs
    have := (List.pairwise_append.mp hinc).2.2 s hs last (by simp)
    simp only [decide_eq_true_eq]
    omega
  rw [segmentAt, List.find?_append, hbefore, Option.none_or,
    List.find?_cons_of_pos (by simp), Option.getD_some]

/-- The file of a segment. -/
theorem get_laid {fam : Family} {segs : List Segment} (h : Laid fam segs) (b : ℕ) :
    (Dict.get (segmentName fam.name b) fam.files).getD [] = (segmentAt b segs).bytes := by
  rw [h.files]
  clear h
  induction segs with
  | nil => rfl
  | cons s segs ih =>
    rw [List.map_cons, Segment.file, Dict.get]
    unfold segmentAt at ih ⊢
    by_cases hs : s.number = b
    · rw [List.find?_cons_of_pos (by simpa using hs), if_pos (by rw [hs])]
      rfl
    · rw [List.find?_cons_of_neg (by simpa using hs), if_neg, ih]
      exact fun heq => hs (segmentName_injective fam.name heq)

/-- The events of a segment are its lines. -/
theorem eventsIn_bytes {s : Segment} (hplain : ∀ l ∈ s.texts, PlainLine l) (htail : s.tail = [])
    (hlines : ∀ l ∈ s.lines, notBlank l = true) : eventsIn s.bytes = s.lines.length := by
  rw [eventsIn, textLines_bytes hplain]
  simp only [Segment.texts, htail, List.countP_append]
  rw [List.countP_eq_length.mpr hlines]
  rfl

theorem segmentAt_target (b : ℕ) (segs : List Segment) : Target segs b (segmentAt b segs) := by
  unfold segmentAt
  cases h : segs.find? fun s => s.number = b with
  | none => exact .inl rfl
  | some s => exact .inr ⟨List.mem_of_find?_eq_some h, by simpa using List.find?_some h⟩

/-- Its lines are lines of the directory. -/
theorem mem_linesOf_of_segmentAt {b : ℕ} {segs : List Segment} {line : PyStr}
    (h : line ∈ (segmentAt b segs).lines) : line ∈ linesOf segs := by
  rcases segmentAt_target b segs with hnone | ⟨hs, -⟩
  · rw [hnone] at h
    cases h
  · exact List.mem_flatMap.mpr ⟨_, hs, h⟩

/-! ### What runs keep -/

/-- The segment has room. -/
def Segment.Room (lim : Limits) (s : Segment) : Prop :=
  s.lines.length < lim.maxEvents ∧ s.bytes.length < lim.maxBytes

/-- The metadata name a segment not before any other and count what it holds; where they are
missing, the last segment has room. -/
def CountersHold (lim : Limits) (fam : Family) (segs : List Segment) : Prop :=
  match fam.segmentMeta with
  | none => segs = [] ∨ ∃ segs' last, segs = segs' ++ [last] ∧ last.Room lim
  | some m => ∃ a : ℕ, m.activeSegment = segmentName fam.name a ∧ (∀ s ∈ segs, s.number ≤ a) ∧
      (segs = [] → a = 1) ∧ m.eventCount = (segmentAt a segs).lines.length ∧
      m.sizeBytes = (segmentAt a segs).bytes.length

/-- The directory is laid out, with these segments. -/
structure FamilyHolds (lim : Limits) (fam : Family) (appended : List PyStr) (segs : List Segment) :
    Prop where
  laid : Laid fam segs
  clean : Clean segs
  lines : linesOf segs = appended
  notBlank : ∀ line ∈ appended, notBlank line = true
  counted : CountersHold lim fam segs

namespace FamilyHolds

variable {lim : Limits} {fam : Family} {appended : List PyStr} {segs : List Segment}

/-- What a scan counts in a segment. -/
theorem eventsIn_segmentAt (h : FamilyHolds lim fam appended segs) (b : ℕ) :
    eventsIn (segmentAt b segs).bytes = (segmentAt b segs).lines.length :=
  eventsIn_bytes (h.laid.target (segmentAt_target b segs))
    ((h.clean.at b).target (segmentAt_target b segs))
    fun l hl => h.notBlank l (h.lines ▸ mem_linesOf_of_segmentAt hl)

/-- A file is full when its segment has no room. -/
theorem isFull_eq_false (h : FamilyHolds lim fam appended segs) (b : ℕ) :
    isFull lim fam (segmentName fam.name b) = false ↔ (segmentAt b segs).Room lim := by
  simp only [isFull, get_laid h.laid, h.eventsIn_segmentAt, Segment.Room, decide_eq_false_iff_not,
    not_or, not_le]

/-- Without metadata the last segment is chosen. -/
theorem scan_last (h : FamilyHolds lim fam appended segs) {segs' : List Segment} {last : Segment}
    (hsegs : segs = segs' ++ [last]) (hmeta : fam.segmentMeta = none) :
    getActiveSegment lim fam = .ok (segmentName fam.name last.number, { fam with
      segmentMeta := some ⟨segmentName fam.name last.number, last.lines.length,
        last.bytes.length⟩ }) := by
  have hfiles : (getSegmentFiles fam).getLast? = some (last.file fam.name) := by
    rw [getSegmentFiles_laid h.laid, hsegs, List.map_append, List.map_singleton,
      List.getLast?_append, List.getLast?_singleton, Option.some_or]
  have hmem : last ∈ segs := by simp [hsegs]
  have hevents := eventsIn_bytes (h.laid.plain last hmem) (h.clean last hmem) fun l hl =>
    h.notBlank l (h.lines ▸ List.mem_flatMap.mpr ⟨last, hmem, hl⟩)
  rw [eventsIn, textLines_bytes (h.laid.plain last hmem)] at hevents
  rw [getActiveSegment, hmeta]
  simp only
  rw [hfiles]
  simp only [Segment.file]
  rw [textLines_bytes (h.laid.plain last hmem), ← hevents]
  rfl

/-- **The segment an append goes to has room**, and the metadata it leaves count what the
segment holds. -/
theorem chooseSegment (h : FamilyHolds lim fam appended segs) (hevents : 0 < lim.maxEvents)
    (hbytes : 0 < lim.maxBytes) :
    ∃ (b : ℕ) (m : SegmentMeta), getActiveSegment lim fam =
        .ok (segmentName fam.name b, { fam with segmentMeta := some m }) ∧
      (segmentAt b segs).Room lim ∧
      FamilyHolds lim { fam with segmentMeta := some m } appended segs ∧
      m.activeSegment = segmentName fam.name b ∧ (∀ s ∈ segs, s.number ≤ b) ∧
      (segs = [] → b = 1) ∧ m.eventCount = (segmentAt b segs).lines.length ∧
      m.sizeBytes = (segmentAt b segs).bytes.length := by
  -- it is enough to say which segment, and what the metadata say
  suffices hchosen : ∃ (b : ℕ) (m : SegmentMeta), getActiveSegment lim fam =
        .ok (segmentName fam.name b, { fam with segmentMeta := some m }) ∧
      (segmentAt b segs).Room lim ∧
      m.activeSegment = segmentName fam.name b ∧ (∀ s ∈ segs, s.number ≤ b) ∧
      (segs = [] → b = 1) ∧ m.eventCount = (segmentAt b segs).lines.length ∧
      m.sizeBytes = (segmentAt b segs).bytes.length by
    obtain ⟨b, m, hget, hroom, hrest⟩ := hchosen
    exact ⟨b, m, hget, hroom, ⟨⟨h.laid.files, h.laid.increasing, h.laid.plain⟩, h.clean, h.lines,
      h.notBlank, b, hrest⟩, hrest⟩
  have hempty : ∀ b : ℕ, (Segment.mk b [] []).Room lim := fun b => ⟨hevents, hbytes⟩
  have hcounted := h.counted
  unfold CountersHold at hcounted
  cases hmeta : fam.segmentMeta with
  | none =>
    rw [hmeta] at hcounted
    rcases hcounted with hnil | ⟨segs', last, hsegs, hroom⟩
    · -- the first segment of the family
      refine ⟨1, ⟨segmentName fam.name 1, 0, 0⟩, ?_, ?_, rfl, ?_, fun _ => rfl, ?_, ?_⟩
      · rw [getActiveSegment, hmeta]
        simp only
        rw [getSegmentFiles_laid h.laid, hnil]
        rfl
      all_goals rw [hnil]
      · exact hempty 1
      · rintro s ⟨⟩
      · rfl
      · rfl
    · have hlast : segmentAt last.number segs = last := by
        rw [hsegs]
        exact segmentAt_last (hsegs ▸ h.laid.increasing)
      refine ⟨last.number, _, h.scan_last hsegs hmeta, by rwa [hlast], rfl, ?_, ?_, by rw [hlast],
        by rw [hlast]⟩
      · intro s hs
        have hinc := h.laid.increasing
        rw [hsegs] at hs hinc
        rcases List.mem_append.mp hs with hs | hs
        · exact ((List.pairwise_append.mp hinc).2.2 s hs last (by simp)).le
        · rw [List.mem_singleton.mp hs]
      · intro hnil
        rw [hsegs] at hnil
        simp at hnil
  | some m =>
    rw [hmeta] at hcounted
    obtain ⟨a, hname, hle, hone, hcount, hsize⟩ := hcounted
    rw [getActiveSegment, hmeta]
    simp only
    rw [if_neg (hname ▸ segmentName_ne_nil _ _)]
    split_ifs with hreached
    · -- rotation: the next segment is not there yet
      have hnext : segmentAt (a + 1) segs = ⟨a + 1, [], []⟩ :=
        segmentAt_of_lt fun s hs => Nat.lt_succ_of_le (hle s hs)
      refine ⟨a + 1, ⟨segmentName fam.name ((a + 1 : ℕ) : ℤ), 0, 0⟩, ?_, ?_, rfl,
        fun s hs => (hle s hs).trans (Nat.le_succ a), ?_, ?_, ?_⟩
      · rw [hname, getSegmentNumber_segmentName]
        rfl
      · rw [hnext]
        exact hempty (a + 1)
      · intro hnil
        rw [hcount, hsize, hnil] at hreached
        exact absurd hreached (by
          simp only [segmentAt, List.find?_nil, Option.getD_none, List.length_nil, Segment.bytes,
            List.flatMap_nil, utf8Bytes, List.append_nil]
          omega)
      · rw [hnext]
        rfl
      · rw [hnext]
        rfl
    · refine ⟨a, m, ?_, ⟨by omega, by omega⟩, hname, hle, hone, hcount, hsize⟩
      rw [hname, ← hmeta]

end FamilyHolds

/-! ### Calls -/

/-- What runs keep. -/
structure Rotating (lim : Limits) (s : Rotation) : Prop where
  holds : ∃ segs, FamilyHolds lim s.family s.appended segs
  next : ∀ path, s.expected = some path → nextSegment lim s.family = .ok path
  sound : s.overfull = false

theorem Rotating.rotates {F : Type} [PyFloat F] {lim : Limits} {s : Rotation}
    (h : Rotating lim s) : Rotates F lim s where
  next := h.next
  sound := h.sound
  ordered := by
    obtain ⟨segs, hsegs⟩ := h.holds
    have htails : ∀ t ∈ segs, lineEvent (F := F) t.tail = none := by
      intro t ht
      rw [hsegs.clean t ht]
      exact lineEvent_nil
    rw [iterShardEvents_laid hsegs.laid, filterMap_texts htails, ← hsegs.lines]
    rfl

variable {lim : Limits} {s : Rotation}

/-- An append, wherever it is cut off, once its line is counted if it is written. -/
theorem Rotating.append (h : Rotating lim s) (hevents : 0 < lim.maxEvents)
    (hbytes : 0 < lim.maxBytes) (line : EventLine) {cut : AppendCut} (hcut : cut ≠ .written) :
    Rotating lim (rotationStep lim s (.append line cut)) := by
  obtain ⟨segs, hsegs⟩ := h.holds
  obtain ⟨b, m, hget, hroom, hnew, hname, hle, hone, hcount, hsize⟩ :=
    hsegs.chooseSegment hevents hbytes
  have hclean := hnew.clean.at b
  rw [rotationStep, hget]
  cases cut with
  | written => exact absurd rfl hcut
  | chosen => exact ⟨⟨segs, hnew⟩, by rintro _ ⟨⟩, h.sound⟩
  | opened =>
    refine ⟨⟨onSegment b (.addTail []) segs, ?_⟩, by rintro _ ⟨⟩, h.sound⟩
    have hat : segmentAt b (onSegment b (.addTail []) segs) = (segmentAt b segs).addTail [] :=
      segmentAt_onSegment (f := Segment.addTail []) (fun _ => rfl) segs
    refine
      { laid := write_tail_laid hnew.laid hclean hle plainLine_nil
        clean := ?_
        lines := by rw [linesOf_addTail hnew.laid.increasing hle]; exact hsegs.lines
        notBlank := hsegs.notBlank
        counted := ⟨b, hname, le_onSegment (fun _ => rfl) hle, ?_, ?_, ?_⟩ }
    · -- no segment ends in a line that is cut off
      intro t ht
      rcases mem_onSegment ht with ht | rfl | ⟨u, hu, -, rfl⟩
      · exact hnew.clean t ht
      · rfl
      · rw [Segment.addTail, hnew.clean u hu]
        rfl
    · exact fun hnil => absurd hnil (onSegment_ne_nil b _ segs)
    · rw [hat]
      exact hcount
    · rw [hat, bytes_addTail, utf8Bytes_nil, List.append_nil]
      exact hsize
  | counted =>
    have hover : isFull lim s.family (segmentName s.family.name b) = false :=
      (hsegs.isFull_eq_false b).mpr hroom
    refine ⟨⟨onSegment b (.addLine line.val) segs, ?_⟩, by rintro _ ⟨⟩, ?_⟩
    · have hat : segmentAt b (onSegment b (.addLine line.val) segs) =
          (segmentAt b segs).addLine line.val :=
        segmentAt_onSegment (f := Segment.addLine line.val) (fun _ => rfl) segs
      have hwritten := write_line_laid hnew.laid hclean hle line.property.1
      refine
        { laid := ⟨hwritten.files, hwritten.increasing, hwritten.plain⟩
          clean := clean_addLine hnew.clean
          lines := by
            rw [linesOf_addLine hnew.laid.increasing hle]
            exact congrArg (· ++ [line.val]) hsegs.lines
          notBlank := ?_
          counted := ⟨b, hname, le_onSegment (fun _ => rfl) hle, ?_, ?_, ?_⟩ }
      · -- no line is blank
        intro l hl
        rcases List.mem_append.mp hl with hl | hl
        · exact hsegs.notBlank l hl
        · exact (List.mem_singleton.mp hl) ▸ line.property.2
      · exact fun hnil => absurd hnil (onSegment_ne_nil b _ segs)
      · rw [hat]
        simp only [Segment.addLine, List.length_append, List.length_singleton]
        rw [hcount]
      · rw [hat, bytes_addLine (hclean.target (segmentAt_target b segs)), List.length_append,
          ← hsize]
    · simp only [h.sound, hover, Bool.or_self]

/-- A segment that is there under a number not before any other is the last one. -/
theorem exists_last {fam : Family} {segs : List Segment} (h : Laid fam segs) {a : ℕ}
    (hle : ∀ t ∈ segs, t.number ≤ a)
    (hmem : segmentName fam.name a ∈ Dict.keys fam.files) :
    ∃ segs' last, segs = segs' ++ [last] ∧ last.number = a := by
  rw [h.files, Dict.keys, List.map_map] at hmem
  obtain ⟨t, ht, hname⟩ := List.mem_map.mp hmem
  have hnumber : t.number = a := segmentName_injective fam.name hname
  rcases List.eq_nil_or_concat segs with rfl | ⟨segs', last, rfl⟩
  · cases ht
  · rw [List.concat_eq_append] at ht hle h ⊢
    refine ⟨segs', last, rfl, le_antisymm (hle last (by simp)) ?_⟩
    rcases List.mem_append.mp ht with ht | ht
    · exact hnumber ▸ ((List.pairwise_append.mp h.increasing).2.2 t ht last (by simp)).le
    · rw [← List.mem_singleton.mp ht, hnumber]

/-- The deletion of metadata that name a segment with room, or the first of none. -/
theorem Rotating.deleteMeta (h : Rotating lim s) (hevents : 0 < lim.maxEvents)
    (hbytes : 0 < lim.maxBytes) (hc : RotationEvent.deleteMeta.Harmless lim s) :
    Rotating lim (rotationStep lim s .deleteMeta) := by
  obtain ⟨segs, hsegs⟩ := h.holds
  rw [rotationStep]
  cases hmeta : s.family.segmentMeta with
  | none =>
    have hsame : { s.family with segmentMeta := none } = s.family := by rw [← hmeta]
    rw [hsame]
    simp only [if_true]
    exact ⟨⟨segs, hsegs⟩, h.next, h.sound⟩
  | some m =>
    have hcounted := hsegs.counted
    rw [CountersHold, hmeta] at hcounted
    obtain ⟨a, hname, hle, hone, hcount, hsize⟩ := hcounted
    have hholds : CountersHold lim { s.family with segmentMeta := none } segs →
        FamilyHolds lim { s.family with segmentMeta := none } s.appended segs := fun hcount =>
      ⟨⟨hsegs.laid.files, hsegs.laid.increasing, hsegs.laid.plain⟩, hsegs.clean, hsegs.lines,
        hsegs.notBlank, hcount⟩
    suffices hboth : FamilyHolds lim { s.family with segmentMeta := none } s.appended segs ∧
        ∃ path, nextSegment lim s.family = .ok path ∧
          nextSegment lim { s.family with segmentMeta := none } = .ok path by
      obtain ⟨hnew, path, hbefore, hafter⟩ := hboth
      refine ⟨⟨segs, hnew⟩, ?_, h.sound⟩
      intro p hp
      simp only [reduceCtorEq, if_false, hbefore] at hp
      obtain rfl := Option.some.inj hp
      exact hafter
    rcases hc m hmeta with hnone | ⟨hmem, hroom⟩
    · -- there is no segment: the first is chosen, with and without metadata
      rw [getSegmentFiles_laid hsegs.laid] at hnone
      have hnil : segs = [] := List.map_eq_nil_iff.mp hnone
      have hnew := hholds (.inl hnil)
      obtain ⟨b, _, hget, -, -, -, -, hb, -⟩ := hsegs.chooseSegment hevents hbytes
      obtain ⟨b', _, hget', -, -, -, -, hb', -⟩ := hnew.chooseSegment hevents hbytes
      refine ⟨hnew, segmentName s.family.name (1 : ℕ), ?_, ?_⟩
      · rw [nextSegment, hget, hb hnil]
        rfl
      · rw [nextSegment, hget', hb' hnil]
        rfl
    · -- the last segment has room, and is chosen with and without metadata
      rw [hname] at hmem hroom
      obtain ⟨segs', last, hlast, hnumber⟩ := exists_last hsegs.laid hle hmem
      have hat : segmentAt a segs = last := by
        rw [hlast, ← hnumber]
        exact segmentAt_last (hlast ▸ hsegs.laid.increasing)
      have hlastroom := (hsegs.isFull_eq_false a).mp hroom
      have hnew := hholds (.inr ⟨segs', last, hlast, hat ▸ hlastroom⟩)
      refine ⟨hnew, segmentName s.family.name a, ?_, ?_⟩
      · have hbelow : ¬(lim.maxEvents ≤ m.eventCount ∨ lim.maxBytes ≤ m.sizeBytes) := by
          have := hlastroom.1
          have := hlastroom.2
          omega
        rw [nextSegment, getActiveSegment, hmeta]
        simp only
        rw [if_neg (hname ▸ segmentName_ne_nil _ _), if_neg hbelow, hname]
        rfl
      · rw [nextSegment, hnew.scan_last hlast rfl, hnumber]
        rfl

/-- **Runs of harmless calls rotate as they should**: an append after the metadata were deleted
goes where the metadata would have sent it, no segment is written to once it is full, and the
events are in the order of the appends. -/
theorem rotates_always (F : Type) [PyFloat F] {lim : Limits} (hevents : 0 < lim.maxEvents)
    (hbytes : 0 < lim.maxBytes) (name : PyStr) {events : List RotationEvent}
    (h : Run.Along (rotationStep lim) (fun s e => e.Harmless lim s) (.empty name) events) :
    Run.Always (rotationStep lim) (Rotates F lim) (.empty name) events := by
  have hempty : Rotating lim (.empty name) :=
    ⟨⟨[], ⟨⟨rfl, List.Pairwise.nil, fun _ hs => (nomatch hs)⟩, fun _ hs => (nomatch hs), rfl,
      fun _ hl => (nomatch hl), .inl rfl⟩⟩, fun _ hp => (nomatch hp), rfl⟩
  have hstep : ∀ (s : Rotation) (e : RotationEvent), Rotating lim s → e.Harmless lim s →
      Rotating lim (rotationStep lim s e) := by
    intro s e hs he
    cases e with
    | append line cut => exact hs.append hevents hbytes line he
    | deleteMeta => exact hs.deleteMeta hevents hbytes he
  intro js hjs
  exact (Run.always_of_along hstep hempty h js hjs).rotates

/-- A line for the samples. -/
def sampleLine : EventLine := ⟨py "1", ⟨by decide, by decide, by decide⟩, by decide⟩

/-- Two appends, and the metadata deleted between them. -/
theorem rotates_sample :
    Rotates FloatLit ⟨2, 100⟩ (Run.run (rotationStep ⟨2, 100⟩) (.empty (py "x"))
      [.append sampleLine .counted, .deleteMeta, .append sampleLine .counted]) := by
  refine rotates_always FloatLit (by decide) (by decide) (py "x") ?_ _ List.prefix_rfl
  refine ⟨(by decide : AppendCut.counted ≠ .written), ?_, (by decide : AppendCut.counted ≠ .written),
    trivial⟩
  have hmeta : (rotationStep ⟨2, 100⟩ (.empty (py "x")) (.append sampleLine .counted)).family.segmentMeta
      = some ⟨segmentName (py "x") 1, 1, 2⟩ := by decide +kernel
  intro m hm
  rw [hmeta] at hm
  obtain rfl := Option.some.inj hm
  exact .inr (by decide +kernel)

/-- A segment that is full when its metadata are deleted is written to again. -/
theorem rotation_forgotten :
    (Run.run (rotationStep ⟨1, 100⟩) (.empty (py "x"))
      [.append sampleLine .counted, .deleteMeta, .append sampleLine .counted]).overfull = true := by
  decide +kernel

end Daryl
