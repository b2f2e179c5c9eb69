import Daryl.Dsm.Sync
import Daryl.Lib.Grid
import Daryl.Py.Instant

/-!
# `collective`: rolling digests

A `RollingDigester` cuts the time since the first entry of its index into windows,
hourly, daily, weekly and of thirty days, and writes a digest of every window that is
over and has entries, once.  The index stays as it is, and every digest is written.
The id of a digest spells its level and its start; it is the window itself here.

## Main definitions

* `Level`, `Window` — the levels, and a window of one.
* `digestWindow`, `pendingWindows`, `roll` — a digest, the windows that wait for one,
  and the digests of all of them.
* `Partitioned` — every entry that is old enough is counted by one digest.
* `CountedOnce` — the entries of which this holds.

## Main results

* `mem_pendingWindows` — which windows wait for a digest.
* `dueWindows_perm` — with no digest yet, those that the entries fall into.
* `ofDue_rolls` — after any run of rolls there is one digest of a window at most.
* `roll_again_iff` — when a second roll at the same time is empty.
* `countP_dueWindows_iff` — which entries are counted once.
* `partitioned_iff` — **when the digests partition the time.**
* `boundary_twice` — an entry on the hour is counted by two hourly digests.
-/

namespace Daryl

open Py

section

variable {F : Type}

/-- An hour and a week in microseconds. -/
def hourMicros : ℤ := 3600000000

/-- `_LEVELS`. -/
inductive Level
  | hourly
  | daily
  | weekly
  | monthly
  deriving DecidableEq

namespace Level

/-- The levels in order. -/
def all : List Level := [hourly, daily, weekly, monthly]

/-- The number of a level. -/
def number : Level → ℕ
  | hourly => 1
  | daily => 2
  | weekly => 3
  | monthly => 4

/-- The width of a window, in microseconds. -/
def delta : Level → ℤ
  | hourly => hourMicros
  | daily => dayMicros
  | weekly => 7 * dayMicros
  | monthly => 30 * dayMicros

/-- The start of the first window, from the oldest entry: the hour, the day, the Monday
or the first of the month it is in, in its own offset. -/
def align (oldest : Fields) : Level → ℤ
  | hourly => oldest.hourStart.instant
  | daily => oldest.midnight.instant
  | weekly => oldest.midnight.instant - oldest.weekday * dayMicros
  | monthly => oldest.monthStart.instant

end Level

/-- A window of a level. -/
structure Window where
  level : Level
  start : ℤ
  deriving DecidableEq

/-- The end of a window. -/
def Window.stop (w : Window) : ℤ := w.start + w.level.delta

/-- When an entry was contributed. -/
def CollectiveEntry.time (e : CollectiveEntry F) : ℤ := e.contributedAt.val.instant

/-- `DigestEntry`.  The source hash is missing where UTF-8 refuses a hash. -/
structure DigestEntry where
  window : Window
  sourceCount : ℕ
  sourceHash : Option PyStr
  keyEvents : List PyStr
  agentsInvolved : List PyStr
  successRate : ℚ
  deriving DecidableEq

/-- The entries a digest of the window takes in: both ends count. -/
def windowEntries (index : List (CollectiveEntry F)) (w : Window) : List (CollectiveEntry F) :=
  index.filter fun e => w.start ≤ e.time ∧ e.time ≤ w.stop

/-- `digest_window`, as far as it computes. -/
def digestWindow [DecidableEq F] (sha : Sha256) (index : List (CollectiveEntry F)) (w : Window) :
    DigestEntry :=
  let entries := windowEntries index w
  let successes := entries.countP fun e =>
    e.actionType ∉ [.str (py "error"), .str (py "failure")]
  { window := w
    sourceCount := entries.length
    sourceHash := (encodeUtf8 (entries.flatMap CollectiveEntry.hash)).map (hexdigest sha)
    keyEvents := (entries.flatMap CollectiveEntry.keyFindings).take 30
    agentsInvolved := ((entries.map CollectiveEntry.agentId).dedup).insertionSort (· ≤ ·)
    successRate := successes / max entries.length 1 }

/-- There are entries in the window, its end left out. -/
def hasEntries (index : List (CollectiveEntry F)) (w : Window) : Bool :=
  index.any fun e => w.start ≤ e.time ∧ e.time < w.stop

/-- `limit=10000`. -/
def digestLimit : ℕ := 10000

/-- `_existing_digest_ids`. -/
def existingDigestIds (digests : List DigestEntry) : List Window :=
  (digests.drop (digests.length - digestLimit)).map DigestEntry.window

/-- `pending_windows`. -/
def pendingWindows (index : List (CollectiveEntry F)) (existing : List Window) (now : ℤ) :
    List Window :=
  match index with
  | [] => []
  | oldest :: _ =>
    Level.all.flatMap fun level =>
      ((Grid.starts (level.align oldest.contributedAt.val) level.delta now).map (Window.mk level)).filter
        fun w => w ∉ existing ∧ hasEntries index w

/-- `roll`: the digests it creates.  An empty list of levels is none. -/
def roll [DecidableEq F] (sha : Sha256) (index : List (CollectiveEntry F)) (now : ℤ)
    (levels : Option (List ℕ)) (digests : List DigestEntry) : List DigestEntry :=
  let pending := pendingWindows index (existingDigestIds digests) now
  let pending :=
    match levels.getD [] with
    | [] => pending
    | levels => pending.filter fun w => w.level.number ∈ levels
  pending.map (digestWindow sha index)

/-- The digests after a run of rolls, each at its time and for its levels. -/
def rolls [DecidableEq F] (sha : Sha256) (index : List (CollectiveEntry F))
    (calls : List (ℤ × Option (List ℕ))) : List DigestEntry :=
  calls.foldl (fun digests call => digests ++ roll sha index call.1 call.2 digests) []

/-! ### What is claimed of digests -/

/-- An entry is counted in a digest. -/
def DigestEntry.Counts (d : DigestEntry) (e : CollectiveEntry F) : Prop :=
  d.window.start ≤ e.time ∧ e.time ≤ d.window.stop

instance (d : DigestEntry) (e : CollectiveEntry F) : Decidable (d.Counts e) :=
  inferInstanceAs (Decidable (_ ∧ _))

/-- The levels the claim is about. -/
def Level.aligned : List Level := [.hourly, .daily, .weekly]

/-- The start of the last window of a level that is over. -/
def lastCompleted (oldest : Fields) (level : Level) (now : ℤ) : ℤ :=
  Grid.startOf (level.align oldest) level.delta now - level.delta

/-- **Every entry older than the last window that is over is counted by exactly one
digest of each level.** -/
def Partitioned (index : List (CollectiveEntry F)) (now : ℤ) (digests : List DigestEntry) : Prop :=
  ∀ oldest ∈ index.head?, ∀ level ∈ Level.aligned, ∀ e ∈ index,
    e.time < lastCompleted oldest.contributedAt.val level now →
      (digests.countP fun d => d.window.level = level ∧ d.Counts e) = 1

/-- An index of entries whose times have an offset, as those of `push` have.  Times with and without
one cannot be compared. -/
abbrev AwareIndex (F : Type) :=
  {index : List (CollectiveEntry F) // ∀ e ∈ index, e.contributedAt.val.offset.isSome}

/-- The windows with entries that are over. -/
def dueWindows (index : List (CollectiveEntry F)) (now : ℤ) : List Window :=
  pendingWindows index [] now

/-- The windows that the entries fall into and that are over. -/
def occupiedWindows (index : List (CollectiveEntry F)) (now : ℤ) : List Window :=
  match index with
  | [] => []
  | oldest :: _ =>
    ((Level.all.flatMap fun level => index.map fun e =>
      Window.mk level (Grid.startOf (level.align oldest.contributedAt.val) level.delta e.time)).filter
        fun w => w.level.align oldest.contributedAt.val ≤ w.start ∧ w.stop ≤ now).dedup

/-- An entry falls into one digest only: it is not before the first window, and it does
not stand at the end of a window that has entries. -/
def CountedOnce (index : List (CollectiveEntry F)) (oldest : Fields) (level : Level)
    (e : CollectiveEntry F) : Prop :=
  level.align oldest ≤ e.time ∧
    ¬(level.delta ∣ e.time - level.align oldest ∧ level.align oldest < e.time ∧
      hasEntries index ⟨level, e.time - level.delta⟩ = true)

instance (index : List (CollectiveEntry F)) (oldest : Fields) (level : Level)
    (e : CollectiveEntry F) : Decidable (CountedOnce index oldest level e) :=
  inferInstanceAs (Decidable (_ ∧ _))

/-! ### The windows that are due -/

theorem delta_pos (level : Level) : 0 < level.delta := by
  cases level <;> simp [Level.delta, hourMicros, dayMicros]

variable {index : List (CollectiveEntry F)} {oldest : CollectiveEntry F} {now : ℤ}

/-- **Which windows wait for a digest.** -/
theorem mem_pendingWindows (holdest : oldest ∈ index.head?) {existing : List Window} {w : Window} :
    w ∈ pendingWindows index existing now ↔
      (w.level.delta ∣ w.start - w.level.align oldest.contributedAt.val ∧
        w.level.align oldest.contributedAt.val ≤ w.start ∧ w.stop ≤ now) ∧
      w ∉ existing ∧ hasEntries index w = true := by
  obtain ⟨es, rfl⟩ := List.head?_eq_some_iff.mp holdest
  unfold pendingWindows Window.stop
  simp only [List.mem_flatMap, List.mem_filter, List.mem_map, decide_eq_true_eq]
  constructor
  · rintro ⟨level, -, ⟨start, hstart, rfl⟩, hrest⟩
    exact ⟨(Grid.mem_starts (delta_pos level)).mp hstart, hrest⟩
  · rintro ⟨hgrid, hrest⟩
    refine ⟨w.level, ?_, ⟨w.start, (Grid.mem_starts (delta_pos w.level)).mpr hgrid, rfl⟩, hrest⟩
    cases w.level <;> simp [Level.all]

/-- No window waits twice. -/
theorem nodup_pendingWindows (existing : List Window) : (pendingWindows index existing now).Nodup := by
  unfold pendingWindows
  cases index with
  | nil => exact List.nodup_nil
  | cons oldest es =>
    refine List.nodup_flatMap.mpr ⟨fun level _ => ?_, ?_⟩
    · refine ((Grid.nodup_starts (delta_pos level)).map fun s t hst => ?_).filter _
      exact (Window.mk.inj hst).2
    · -- windows of two levels are two windows
      have hlevels : Level.all.Nodup := by decide
      refine hlevels.imp fun {l m} hne w hl hm => hne ?_
      obtain ⟨s, -, rfl⟩ := List.mem_map.mp (List.mem_filter.mp hl).1
      obtain ⟨t, -, ht⟩ := List.mem_map.mp (List.mem_filter.mp hm).1
      exact (Window.mk.inj ht).1.symm

theorem mem_occupiedWindows (holdest : oldest ∈ index.head?) {w : Window} :
    w ∈ occupiedWindows index now ↔
      (∃ e ∈ index,
        Grid.startOf (w.level.align oldest.contributedAt.val) w.level.delta e.time = w.start) ∧
      w.level.align oldest.contributedAt.val ≤ w.start ∧ w.stop ≤ now := by
  obtain ⟨es, rfl⟩ := List.head?_eq_some_iff.mp holdest
  unfold occupiedWindows
  simp only [List.mem_dedup, List.mem_filter, List.mem_flatMap, List.mem_map, decide_eq_true_eq]
  refine and_congr_left fun _ => ⟨?_, ?_⟩
  · rintro ⟨level, -, e, he, rfl⟩
    exact ⟨e, he, rfl⟩
  · rintro ⟨e, he, hstart⟩
    refine ⟨w.level, ?_, e, he, by rw [hstart]⟩
    cases w.level <;> simp [Level.all]

/-- **The windows that are due are those that the entries fall into.** -/
theorem dueWindows_perm (index : List (CollectiveEntry F)) (now : ℤ) :
    (dueWindows index now).Perm (occupiedWindows index now) := by
  cases index with
  | nil => exact List.Perm.nil
  | cons oldest es =>
    have hhead : oldest ∈ (oldest :: es).head? := rfl
    have hdue : (dueWindows (oldest :: es) now).Nodup := nodup_pendingWindows []
    have hoccupied : (occupiedWindows (oldest :: es) now).Nodup := List.nodup_dedup _
    rw [List.perm_ext_iff_of_nodup hdue hoccupied]
    intro w
    have hwidth := delta_pos w.level
    refine (mem_pendingWindows hhead).trans (Iff.trans ?_ (mem_occupiedWindows hhead).symm)
    unfold hasEntries
    simp only [List.any_eq_true, decide_eq_true_eq]
    constructor
    · rintro ⟨⟨hdvd, hle, hstop⟩, -, e, he, hin⟩
      exact ⟨⟨e, he, (Grid.eq_startOf hdvd hin.1 hin.2).symm⟩, hle, hstop⟩
    · rintro ⟨⟨e, he, hstart⟩, hle, hstop⟩
      refine ⟨⟨?_, hle, hstop⟩, List.not_mem_nil, e, he, ?_, ?_⟩
      · exact hstart ▸ Grid.dvd_startOf_sub _ _ _
      · exact hstart ▸ Grid.startOf_le hwidth
      · unfold Window.stop
        exact hstart ▸ Grid.lt_startOf_add hwidth

/-- Windows that have a digest are left out. -/
theorem pendingWindows_eq_filter (existing : List Window) :
    pendingWindows index existing now = (dueWindows index now).filter fun w => w ∉ existing := by
  unfold dueWindows pendingWindows
  cases index with
  | nil => rfl
  | cons oldest es =>
    simp only [List.filter_flatMap, List.filter_filter]
    congr 1
    funext level
    refine List.filter_congr fun w _ => ?_
    by_cases hw : w ∈ existing <;> simp [hw]

/-- A window that is over stays over. -/
theorem dueWindows_subset {later : ℤ} (h : now ≤ later) :
    dueWindows index now ⊆ dueWindows index later := by
  intro w hw
  cases hhead : index.head? with
  | none =>
    rw [List.head?_eq_none_iff] at hhead
    subst hhead
    exact hw
  | some oldest =>
    have hmem : oldest ∈ index.head? := hhead
    unfold dueWindows at hw ⊢
    rw [mem_pendingWindows hmem] at hw ⊢
    obtain ⟨⟨hdvd, hle, hstop⟩, hrest⟩ := hw
    exact ⟨⟨hdvd, hle, hstop.trans h⟩, hrest⟩

/-! ### Rolling -/

variable [DecidableEq F] {sha : Sha256} {calls : List (ℤ × Option (List ℕ))}

/-- The windows of a list of digests. -/
def windowsOf (digests : List DigestEntry) : List Window := digests.map DigestEntry.window

/-- Digests of windows that are due, one of each. -/
structure OfDue (index : List (CollectiveEntry F)) (now : ℤ) (digests : List DigestEntry) : Prop where
  nodup : (windowsOf digests).Nodup
  due : windowsOf digests ⊆ dueWindows index now

theorem windowsOf_append (digests new : List DigestEntry) :
    windowsOf (digests ++ new) = windowsOf digests ++ windowsOf new := List.map_append

theorem windowsOf_digestWindow (sha : Sha256) (index : List (CollectiveEntry F)) (ws : List Window) :
    windowsOf (ws.map (digestWindow sha index)) = ws := by
  unfold windowsOf
  rw [List.map_map]
  exact List.map_id ws

/-- A roll makes digests of windows that wait for one. -/
theorem windowsOf_roll_sublist (sha : Sha256) (index : List (CollectiveEntry F)) (now : ℤ)
    (levels : Option (List ℕ)) (digests : List DigestEntry) :
    (windowsOf (roll sha index now levels digests)).Sublist
      (pendingWindows index (existingDigestIds digests) now) := by
  unfold roll
  simp only
  rw [windowsOf_digestWindow]
  split
  · exact List.Sublist.refl _
  · exact List.filter_sublist

/-- With no levels asked for, of all of them. -/
theorem windowsOf_roll (sha : Sha256) (index : List (CollectiveEntry F)) (now : ℤ)
    (digests : List DigestEntry) :
    windowsOf (roll sha index now none digests)
      = (dueWindows index now).filter fun w => w ∉ existingDigestIds digests := by
  rw [← pendingWindows_eq_filter]
  exact windowsOf_digestWindow sha index _

/-- Up to the limit, every digest there is is found. -/
theorem existingDigestIds_eq {digests : List DigestEntry} (h : digests.length ≤ digestLimit) :
    existingDigestIds digests = windowsOf digests := by
  unfold existingDigestIds
  rw [Nat.sub_eq_zero_of_le h, List.drop_zero]
  rfl

omit [DecidableEq F] in
/-- Only so many are found. -/
theorem length_existingDigestIds (digests : List DigestEntry) :
    (existingDigestIds digests).length ≤ digestLimit := by
  unfold existingDigestIds
  rw [List.length_map, List.length_drop]
  omega

namespace OfDue

variable {digests : List DigestEntry}

omit [DecidableEq F] in
/-- There are as many digests as windows at most. -/
theorem length_le (h : OfDue index now digests) :
    digests.length ≤ (dueWindows index now).length := by
  have hle := (h.nodup.subperm h.due).length_le
  rwa [windowsOf, List.length_map] at hle

omit [DecidableEq F] in
/-- What was due stays due. -/
theorem later {before : ℤ} (h : OfDue index before digests) (hnow : before ≤ now) :
    OfDue index now digests :=
  ⟨h.nodup, fun _ hw => dueWindows_subset hnow (h.due hw)⟩

/-- **A roll adds no window twice**, as long as every digest there is is found. -/
theorem append_roll (h : OfDue index now digests) (hlimit : (dueWindows index now).length ≤ digestLimit)
    (sha : Sha256) (levels : Option (List ℕ)) :
    OfDue index now (digests ++ roll sha index now levels digests) := by
  have hsublist := windowsOf_roll_sublist sha index now levels digests
  have hnew : ∀ w ∈ windowsOf (roll sha index now levels digests),
      w ∈ dueWindows index now ∧ w ∉ windowsOf digests := by
    intro w hw
    have hpending := hsublist.subset hw
    rw [pendingWindows_eq_filter, existingDigestIds_eq (h.length_le.trans hlimit)] at hpending
    simpa using hpending
  constructor
  · rw [windowsOf_append]
    refine List.nodup_append.mpr ⟨h.nodup, hsublist.nodup (nodup_pendingWindows _), ?_⟩
    rintro w hold v hv rfl
    exact (hnew w hv).2 hold
  · rw [windowsOf_append]
    exact List.append_subset.mpr ⟨h.due, fun w hw => (hnew w hw).1⟩

/-- With no levels asked for, none of the windows is left. -/
theorem append_roll_perm (h : OfDue index now digests) (hlimit : (dueWindows index now).length ≤ digestLimit)
    (sha : Sha256) :
    (windowsOf (digests ++ roll sha index now none digests)).Perm (dueWindows index now) := by
  have hdue : (dueWindows index now).Nodup := nodup_pendingWindows []
  have hall := h.append_roll hlimit sha none
  rw [List.perm_ext_iff_of_nodup hall.nodup hdue]
  refine fun w => ⟨fun hw => hall.due hw, fun hw => ?_⟩
  rw [windowsOf_append, windowsOf_roll, existingDigestIds_eq (h.length_le.trans hlimit)]
  by_cases hold : w ∈ windowsOf digests
  · exact List.mem_append_left _ hold
  · exact List.mem_append_right _ (List.mem_filter.mpr ⟨hw, by simpa using hold⟩)

end OfDue

theorem rolls_concat (sha : Sha256) (index : List (CollectiveEntry F))
    (calls : List (ℤ × Option (List ℕ))) (now : ℤ) (levels : Option (List ℕ)) :
    rolls sha index (calls ++ [(now, levels)])
      = rolls sha index calls ++ roll sha index now levels (rolls sha index calls) := by
  unfold rolls
  rw [List.foldl_append, List.foldl_cons, List.foldl_nil]

/-- **After rolls at times that do not go back there is one digest of a window at most.** -/
theorem ofDue_rolls (sha : Sha256) (hsorted : (calls.map Prod.fst ++ [now]).Pairwise (· ≤ ·))
    (hlimit : (dueWindows index now).length ≤ digestLimit) : OfDue index now (rolls sha index calls) := by
  induction calls using List.reverseRecOn generalizing now with
  | nil => exact ⟨List.nodup_nil, List.nil_subset _⟩
  | append_singleton calls call ih =>
    obtain ⟨before, levels⟩ := call
    rw [List.map_append] at hsorted
    obtain ⟨hbefore, -, hle⟩ := List.pairwise_append.mp hsorted
    have hnow : before ≤ now := hle before (by simp) now (by simp)
    -- what was due before is within the limit, as there is no more of it
    have hfewer : (dueWindows index before).length ≤ (dueWindows index now).length :=
      ((nodup_pendingWindows []).subperm (dueWindows_subset hnow)).length_le
    rw [rolls_concat]
    exact ((ih hbefore (hfewer.trans hlimit)).append_roll (hfewer.trans hlimit) sha levels).later hnow

/-- **A roll leaves nothing to a second roll at the same time exactly when the windows that
are due are within the limit.** -/
theorem roll_again_iff (sha : Sha256) (hsorted : (calls.map Prod.fst ++ [now]).Pairwise (· ≤ ·)) :
    roll sha index now none (rolls sha index (calls ++ [(now, none)])) = [] ↔
      (dueWindows index now).length ≤ digestLimit := by
  have hempty : roll sha index now none (rolls sha index (calls ++ [(now, none)])) = [] ↔
      ∀ w ∈ dueWindows index now, w ∈ existingDigestIds (rolls sha index (calls ++ [(now, none)])) := by
    have hwindows := windowsOf_roll sha index now (rolls sha index (calls ++ [(now, none)]))
    rw [← List.map_eq_nil_iff (f := DigestEntry.window)]
    rw [← windowsOf, hwindows, List.filter_eq_nil_iff]
    simp only [decide_eq_true_eq, not_not]
  rw [hempty]
  constructor
  · intro hsubset
    -- so many windows are found only if there are so many digests to find
    have hle := ((nodup_pendingWindows []).subperm hsubset).length_le
    exact hle.trans (length_existingDigestIds _)
  · intro hlimit
    have hperm := (ofDue_rolls sha hsorted hlimit).append_roll_perm hlimit sha
    rw [← rolls_concat] at hperm
    have hlength : (rolls sha index (calls ++ [(now, none)])).length ≤ digestLimit := by
      have heq := hperm.length_eq
      rw [windowsOf, List.length_map] at heq
      exact heq.trans_le hlimit
    rw [existingDigestIds_eq hlength]
    exact fun w hw => hperm.mem_iff.mpr hw

/-! ### Counting an entry -/

/-- **The source count of a digest is the number of the entries it counts.** -/
theorem sourceCount_rolls {d : DigestEntry} (h : d ∈ rolls sha index calls) :
    d.sourceCount = index.countP fun e => d.Counts e := by
  induction calls using List.reverseRecOn with
  | nil => exact absurd h List.not_mem_nil
  | append_singleton calls call ih =>
    obtain ⟨now, levels⟩ := call
    rw [rolls_concat] at h
    rcases List.mem_append.mp h with hold | hnew
    · exact ih hold
    · obtain ⟨w, -, rfl⟩ := List.mem_map.mp hnew
      exact List.countP_eq_length_filter.symm

omit [DecidableEq F] in
/-- The starts of the windows of a level that are due. -/
theorem mem_dueStarts (holdest : oldest ∈ index.head?) {level : Level} {s : ℤ} :
    s ∈ ((dueWindows index now).filter fun w => w.level = level).map Window.start ↔
      (level.delta ∣ s - level.align oldest.contributedAt.val ∧
        level.align oldest.contributedAt.val ≤ s ∧ s + level.delta ≤ now) ∧
      hasEntries index ⟨level, s⟩ = true := by
  simp only [List.mem_map, List.mem_filter, decide_eq_true_eq, dueWindows,
    mem_pendingWindows holdest]
  constructor
  · rintro ⟨w, ⟨⟨hgrid, -, hentries⟩, rfl⟩, rfl⟩
    exact ⟨hgrid, hentries⟩
  · rintro ⟨hgrid, hentries⟩
    exact ⟨⟨level, s⟩, ⟨⟨hgrid, by simp, hentries⟩, rfl⟩, rfl⟩

omit [DecidableEq F] in
/-- The windows of a level are counted by their starts. -/
theorem countP_level (ws : List Window) (level : Level) (t : ℤ) :
    (ws.countP fun w => w.level = level ∧ w.start ≤ t ∧ t ≤ w.stop)
      = ((ws.filter fun w => w.level = level).map Window.start).countP fun s =>
          s ≤ t ∧ t ≤ s + level.delta := by
  rw [List.countP_map, List.countP_filter]
  refine List.countP_congr fun w _ => ?_
  simp only [Function.comp_apply, decide_eq_true_eq, Bool.and_eq_true]
  constructor
  · rintro ⟨rfl, hclosed⟩
    exact ⟨hclosed, rfl⟩
  · rintro ⟨hclosed, rfl⟩
    exact ⟨rfl, hclosed⟩

omit [DecidableEq F] in
/-- **An entry that is old enough is counted by one of the windows that are due exactly
when it is not before the first and not at the end of one with entries.** -/
theorem countP_dueWindows_iff (holdest : oldest ∈ index.head?) {level : Level}
    {e : CollectiveEntry F} (he : e ∈ index)
    (hold : e.time < lastCompleted oldest.contributedAt.val level now) :
    ((dueWindows index now).countP fun w =>
        w.level = level ∧ w.start ≤ e.time ∧ e.time ≤ w.stop) = 1 ↔
      CountedOnce index oldest.contributedAt.val level e := by
  have hwidth := delta_pos level
  unfold lastCompleted at hold
  have hstart : Grid.startOf (level.align oldest.contributedAt.val) level.delta now ≤ now :=
    Grid.startOf_le hwidth
  -- the window that the entry falls into is due unless it is before the first
  have hown : Grid.startOf (level.align oldest.contributedAt.val) level.delta e.time
        ∈ ((dueWindows index now).filter fun w => w.level = level).map Window.start ↔
      level.align oldest.contributedAt.val ≤ e.time := by
    rw [mem_dueStarts holdest, Grid.le_startOf_iff hwidth]
    have hle : Grid.startOf (level.align oldest.contributedAt.val) level.delta e.time ≤ e.time :=
      Grid.startOf_le hwidth
    refine ⟨fun h => h.1.2.1, fun h => ⟨⟨Grid.dvd_startOf_sub _ _ _, h, by omega⟩, ?_⟩⟩
    exact List.any_eq_true.mpr
      ⟨e, he, decide_eq_true ⟨hle, Grid.lt_startOf_add hwidth⟩⟩
  -- the one that ends with it is due if it has entries
  have hbefore : level.delta ∣ e.time - level.align oldest.contributedAt.val ∧
        e.time - level.delta
          ∈ ((dueWindows index now).filter fun w => w.level = level).map Window.start ↔
      level.delta ∣ e.time - level.align oldest.contributedAt.val ∧
        level.align oldest.contributedAt.val < e.time ∧
        hasEntries index ⟨level, e.time - level.delta⟩ = true := by
    rw [mem_dueStarts holdest]
    refine and_congr_right fun hdvd => ⟨fun h => ⟨by omega, h.2⟩, fun h => ⟨⟨?_, ?_, by omega⟩, h.2⟩⟩
    · have hsub : e.time - level.delta - level.align oldest.contributedAt.val
          = e.time - level.align oldest.contributedAt.val - level.delta := by ring
      rw [hsub]
      exact hdvd.sub (dvd_refl _)
    · have hle := Int.le_of_dvd (by omega) hdvd
      omega
  have hnodup : (((dueWindows index now).filter fun w => w.level = level).map Window.start).Nodup := by
    refine List.Nodup.map_on ?_ ((nodup_pendingWindows []).filter _)
    rintro ⟨l, s⟩ hw ⟨m, t⟩ hv hst
    have hl : l = level := by simpa using (List.mem_filter.mp hw).2
    have hm : m = level := by simpa using (List.mem_filter.mp hv).2
    rw [hl, hm, show s = t from hst]
  rw [countP_level, Grid.countP_closed_eq_one_iff hwidth hnodup
    fun s hs => ((mem_dueStarts holdest).mp hs).1.1]
  · unfold CountedOnce
    rw [hown, hbefore]
  · intro hend
    exact hown.mpr (hbefore.mp hend).2.1.le

/-- **Every old entry is counted once and a second roll is empty exactly when** the windows
that the entries fall into are within the limit and every old entry is one of those that
fall into one digest. -/
theorem partitioned_iff (sha : Sha256) (contributed : AwareIndex F)
    (calls : List (ℤ × Option (List ℕ))) (now : ℤ)
    (hsorted : (calls.map Prod.fst ++ [now]).Pairwise (· ≤ ·)) :
    (Partitioned contributed.val now (rolls sha contributed.val (calls ++ [(now, none)])) ∧
      roll sha contributed.val now none (rolls sha contributed.val (calls ++ [(now, none)])) = []) ↔
    (occupiedWindows contributed.val now).length ≤ digestLimit ∧
      ∀ oldest ∈ contributed.val.head?, ∀ level ∈ Level.aligned, ∀ e ∈ contributed.val,
        e.time < lastCompleted oldest.contributedAt.val level now →
          CountedOnce contributed.val oldest.contributedAt.val level e := by
  obtain ⟨index, -⟩ := contributed
  rw [roll_again_iff sha hsorted, and_comm, ← (dueWindows_perm index now).length_eq]
  refine and_congr_right fun hlimit => ?_
  have hperm := (ofDue_rolls sha hsorted hlimit).append_roll_perm hlimit sha
  rw [← rolls_concat] at hperm
  have hcount : ∀ (level : Level) (e : CollectiveEntry F),
      ((rolls sha index (calls ++ [(now, none)])).countP fun d => d.window.level = level ∧ d.Counts e)
        = (dueWindows index now).countP fun w =>
            w.level = level ∧ w.start ≤ e.time ∧ e.time ≤ w.stop := by
    intro level e
    rw [← hperm.countP_eq, windowsOf, List.countP_map]
    rfl
  unfold Partitioned
  refine forall₂_congr fun oldest holdest => forall₂_congr fun level _ => forall₂_congr fun e he => ?_
  refine imp_congr_right fun hold => ?_
  rw [hcount, countP_dueWindows_iff holdest he hold]

end

/-- An entry of the collective at a time. -/
def sampleContribution (contributedAt : Datetime) : CollectiveEntry FloatLit where
  hash := py "h"
  agentId := py "a"
  sourceHash := py "s"
  contentHash := py "c"
  summary := []
  detail := []
  keyFindings := []
  actionType := .str (py "observation")
  agentPrevHash := []
  contributedAt

/-- An entry at half past ten. -/
def sampleHalfPast : CollectiveEntry FloatLit :=
  sampleContribution ⟨⟨2026, 1, 7, 10, 30, 0, 0, some 0⟩, by decide⟩

/-- An entry at eleven. -/
def sampleOnTheHour : CollectiveEntry FloatLit :=
  sampleContribution ⟨⟨2026, 1, 7, 11, 0, 0, 0, some 0⟩, by decide⟩

/-- One in the afternoon. -/
def sampleRollTime : ℤ := sampleOnTheHour.time + 2 * hourMicros

/-- A roll with the first entry alone. -/
theorem partitioned_sample :
    (([] : List (ℤ × Option (List ℕ))).map Prod.fst ++ [sampleRollTime]).Pairwise (· ≤ ·) ∧
      (Partitioned [sampleHalfPast] sampleRollTime
          (rolls nibbles [sampleHalfPast] ([] ++ [(sampleRollTime, none)])) ∧
        roll nibbles [sampleHalfPast] sampleRollTime none
          (rolls nibbles [sampleHalfPast] ([] ++ [(sampleRollTime, none)])) = []) := by
  have hsorted : (([] : List (ℤ × Option (List ℕ))).map Prod.fst ++ [sampleRollTime]).Pairwise
      (· ≤ ·) := List.pairwise_singleton _ _
  refine ⟨hsorted, (partitioned_iff nibbles ⟨[sampleHalfPast], by decide⟩ [] _ hsorted).mpr
    ⟨by decide +kernel, ?_⟩⟩
  rintro oldest holdest
  obtain rfl : sampleHalfPast = oldest := by simpa using holdest
  decide +kernel

/-- **An entry on the hour is counted by two hourly digests**: by that of the hour before,
whose end counts, and by that of its own. -/
theorem boundary_twice :
    (rolls nibbles [sampleHalfPast, sampleOnTheHour] [(sampleRollTime, none)]).map
        (fun d => (d.window.level, d.sourceCount)) = [(.hourly, 2), (.hourly, 1)] ∧
      ¬Partitioned [sampleHalfPast, sampleOnTheHour] sampleRollTime
        (rolls nibbles [sampleHalfPast, sampleOnTheHour] [(sampleRollTime, none)]) := by
  refine ⟨by decide +kernel, fun h => ?_⟩
  have honce := h sampleHalfPast rfl .hourly (by decide) sampleOnTheHour (by simp)
    (by decide +kernel)
  revert honce
  decide +kernel

end Daryl
