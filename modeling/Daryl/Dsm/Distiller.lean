import Daryl.Dsm.Digest

/-!
# `collective`: what a shard object shows, and distillation

A `CollectiveShard` holds the newest entries of its shard in an index, which it reads
once.  `CollectiveMemoryDistiller.distill` works on that index: it keeps the newest
entries up to a threshold and puts a record of the others into a second shard.

## Main definitions

* `CollectiveShard` — the shard and the index, a window read at some time.
* `CollectiveShard.recent` — the newest entries, filtered.
* `distill` — what is reported, and the record that is written.
* `CoversShard` — nothing falls out of both parts.

## Main results

* `length_window` — how many entries an index shows.
* `coversShard_iff` — **distillation covers the shard exactly when the index shows all of
  it** and UTF-8 takes the hashes.
-/

namespace Daryl

open Py

/-- `CollectiveShard`: the entries of its shard, oldest first, the size of the window, and
the index, a window of what the shard held when it was read. -/
structure CollectiveShard (F : Type) where
  entries : List (CollectiveEntry F)
  windowSize : ℕ
  index : Option (List (CollectiveEntry F))
  index_eq : ∀ i ∈ index, ∃ past, past <+: entries ∧ i = newestEntries (max windowSize 1) past

/-- What `distill` returns. -/
structure DistillResult where
  distilled : ℕ
  kept : ℕ
  digestHash : PyStr
  deriving DecidableEq

/-- The content of the record `distill` writes. -/
structure Distillation where
  sourceCount : ℕ
  digestHash : PyStr
  agentsInvolved : List PyStr
  keyEvents : List PyStr
  firstTimestamp : Option PyStr
  lastTimestamp : Option PyStr
  deriving DecidableEq

variable {F : Type}

namespace CollectiveShard

/-- A shard object that has not read. -/
def opened (entries : List (CollectiveEntry F)) (windowSize : ℕ) : CollectiveShard F :=
  ⟨entries, windowSize, none, fun _ h => by cases h⟩

/-- What `_ensure_index` returns.  A read gives one entry even to a window of none. -/
def window (c : CollectiveShard F) : List (CollectiveEntry F) :=
  c.index.getD (newestEntries (max c.windowSize 1) c.entries)

/-- `_ensure_index`. -/
def ensureIndex (c : CollectiveShard F) : CollectiveShard F where
  entries := c.entries
  windowSize := c.windowSize
  index := some c.window
  index_eq i hi := by
    obtain rfl := Option.some.inj hi
    cases h : c.index with
    | none => exact ⟨c.entries, List.prefix_rfl, by rw [window, h, Option.getD_none]⟩
    | some i =>
      rw [window, h, Option.getD_some]
      exact c.index_eq i h

@[simp] theorem window_opened (entries : List (CollectiveEntry F)) (windowSize : ℕ) :
    (opened entries windowSize).window = newestEntries (max windowSize 1) entries := rfl

@[simp] theorem window_ensureIndex (c : CollectiveShard F) : c.ensureIndex.window = c.window := rfl

/-- The entries a filter lets pass; no filter and an empty one let all pass. -/
def filtered [DecidableEq F] (agentId entryType : Option PyStr) (entries : List (CollectiveEntry F)) :
    List (CollectiveEntry F) :=
  entries.filter fun e =>
    (agentId.getD [] = [] ∨ e.agentId = agentId.getD []) ∧
      (entryType.getD [] = [] ∨ e.actionType = .str (entryType.getD []))

/-- `recent`: newest first. -/
def recent [DecidableEq F] (limit : ℕ) (agentId entryType : Option PyStr) (c : CollectiveShard F) :
    List (CollectiveEntry F) :=
  (filtered agentId entryType c.window.reverse).take limit

/-- How many entries the window of a read shows. -/
theorem length_newestEntries (windowSize : ℕ) (entries : List (CollectiveEntry F)) :
    (newestEntries windowSize entries).length = min entries.length windowSize := by
  rw [newestEntries, List.length_drop]
  omega

/-- The window shows all when it is as large as the shard. -/
theorem newestEntries_eq_self {windowSize : ℕ} {entries : List (CollectiveEntry F)}
    (h : entries.length ≤ windowSize) : newestEntries windowSize entries = entries := by
  rw [newestEntries, Nat.sub_eq_zero_of_le h, List.drop_zero]

/-- **The index shows as many entries as the shard has exactly when it was read from all of
them** through a window that is large enough. -/
theorem length_window (c : CollectiveShard F) :
    c.window.length = c.entries.length ↔
      c.entries.length ≤ max c.windowSize 1 ∧ (c.index = none ∨ c.index = some c.entries) := by
  cases h : c.index with
  | none =>
    rw [window, h, Option.getD_none, length_newestEntries, min_eq_left_iff]
    simp
  | some i =>
    obtain ⟨past, hpast, rfl⟩ := c.index_eq i h
    rw [window, h, Option.getD_some, length_newestEntries]
    constructor
    · intro hlen
      -- the index was read from at least as many entries as there are
      have hall : past = c.entries := hpast.eq_of_length_le (by omega)
      rw [hall] at hlen ⊢
      have hfits := min_eq_left_iff.mp hlen
      exact ⟨hfits, .inr (congrArg some (newestEntries_eq_self hfits))⟩
    · rintro ⟨hfits, hindex | hindex⟩
      · cases hindex
      · rw [← length_newestEntries, Option.some.inj hindex]

/-- An index that shows as many entries as the shard has is the shard. -/
theorem window_eq_entries {c : CollectiveShard F} (h : c.window.length = c.entries.length) :
    c.window = c.entries := by
  obtain ⟨hfits, hindex | hindex⟩ := c.length_window.mp h
  · rw [window, hindex, Option.getD_none, newestEntries_eq_self hfits]
  · rw [window, hindex, Option.getD_some]

end CollectiveShard

/-! ### Distillation -/

/-- `max_entries or self._threshold`. -/
def keptLimit (threshold : ℕ) (maxEntries : Option ℕ) : ℕ :=
  match maxEntries with
  | none | some 0 => threshold
  | some n => n

/-- `distill`.  That the record cannot be written is only logged. -/
def distill (sha : Sha256) (threshold : ℕ) (maxEntries : Option ℕ) (c : CollectiveShard F) :
    Except PyError (DistillResult × Option Distillation) :=
  let limit := keptLimit threshold maxEntries
  let index := c.window
  if index.length ≤ limit then .ok (⟨0, index.length, []⟩, none)
  else
    let toDistill := index.take (index.length - limit)
    let kept := index.drop (index.length - limit)
    match encodeUtf8 (toDistill.flatMap CollectiveEntry.hash) with
    | none => .error .unicodeEncodeError
    | some bytes =>
      let digestHash := hexdigest sha bytes
      .ok (⟨toDistill.length, kept.length, digestHash⟩, some
        { sourceCount := toDistill.length
          digestHash := digestHash
          agentsInvolved := ((toDistill.map CollectiveEntry.agentId).dedup).insertionSort (· ≤ ·)
          keyEvents := (toDistill.flatMap CollectiveEntry.keyFindings).take 50
          firstTimestamp := toDistill.head?.map fun e => e.contributedAt.isoformat
          lastTimestamp := toDistill.getLast?.map fun e => e.contributedAt.isoformat })

/-- **Nothing falls out of both parts**: as many entries as the threshold says are kept, and
the hash is that of all the others, in their order. -/
def CoversShard (sha : Sha256) (threshold : ℕ) (maxEntries : Option ℕ) (c : CollectiveShard F) :
    Prop :=
  let limit := keptLimit threshold maxEntries
  let older := c.entries.take (c.entries.length - limit)
  ∃ r record, distill sha threshold maxEntries c = .ok (r, record) ∧
    r.distilled + r.kept = c.entries.length ∧ r.kept = min c.entries.length limit ∧
    (older ≠ [] → (encodeUtf8 (older.flatMap CollectiveEntry.hash)).map (hexdigest sha) =
      some r.digestHash)

/-- **What is reported adds up to what the index shows**, and the kept part is its end. -/
theorem distill_counts {sha : Sha256} {threshold : ℕ} {maxEntries : Option ℕ} {c : CollectiveShard F}
    {r : DistillResult} {record : Option Distillation}
    (h : distill sha threshold maxEntries c = .ok (r, record)) :
    r.distilled + r.kept = c.window.length ∧
      r.kept = min c.window.length (keptLimit threshold maxEntries) := by
  unfold distill at h
  dsimp only at h
  split_ifs at h with hfits
  · obtain ⟨rfl, -⟩ := Prod.mk.inj (Except.ok.inj h)
    exact ⟨Nat.zero_add _, (min_eq_left hfits).symm⟩
  · cases hbytes : encodeUtf8 ((c.window.take (c.window.length - keptLimit threshold maxEntries)).flatMap
      CollectiveEntry.hash) with
    | none =>
      rw [hbytes] at h
      cases h
    | some bytes =>
      rw [hbytes] at h
      obtain ⟨rfl, -⟩ := Prod.mk.inj (Except.ok.inj h)
      simp only [List.length_take, List.length_drop]
      omega

/-- **Distillation covers the shard exactly when the index shows all of it** and UTF-8 takes the
hashes of what is distilled. -/
theorem coversShard_iff (sha : Sha256) (threshold : ℕ) (maxEntries : Option ℕ)
    (c : CollectiveShard F) :
    CoversShard sha threshold maxEntries c ↔
      (c.entries.length ≤ max c.windowSize 1 ∧ (c.index = none ∨ c.index = some c.entries)) ∧
      Encodable ((c.entries.take (c.entries.length - keptLimit threshold maxEntries)).flatMap
        CollectiveEntry.hash) := by
  rw [← c.length_window]
  constructor
  · rintro ⟨r, record, h, hcount, hkept, hhash⟩
    refine ⟨(distill_counts h).1 ▸ hcount, ?_⟩
    by_cases holder : c.entries.take (c.entries.length - keptLimit threshold maxEntries) = []
    · rw [holder, List.flatMap_nil]
      exact encodable_nil
    · obtain ⟨bytes, hbytes, -⟩ := Option.map_eq_some_iff.mp (hhash holder)
      exact (encodeUtf8_eq_some.mp hbytes).1
  · rintro ⟨hlen, henc⟩
    have hwindow := CollectiveShard.window_eq_entries hlen
    have hbytes := encodeUtf8_of_encodable henc
    by_cases hfits : c.entries.length ≤ keptLimit threshold maxEntries
    · -- everything is kept
      refine ⟨⟨0, c.entries.length, []⟩, none, ?_, Nat.zero_add _, (min_eq_left hfits).symm, ?_⟩
      · rw [distill, hwindow]
        exact if_pos hfits
      · intro holder
        rw [Nat.sub_eq_zero_of_le hfits, List.take_zero] at holder
        exact absurd rfl holder
    · obtain ⟨r, record, h, hr⟩ : ∃ r record, distill sha threshold maxEntries c = .ok (r, record) ∧
          r.digestHash = hexdigest sha (utf8Bytes ((c.entries.take (c.entries.length -
            keptLimit threshold maxEntries)).flatMap CollectiveEntry.hash)) := by
        rw [distill, hwindow]
        dsimp only
        rw [if_neg hfits, hbytes]
        exact ⟨_, _, rfl, rfl⟩
      have hcounts := distill_counts h
      rw [hwindow] at hcounts
      refine ⟨r, record, h, hcounts.1, hcounts.2, fun _ => ?_⟩
      rw [hbytes, Option.map_some, hr]

/-- Three entries behind a window of two: the oldest is neither kept nor distilled. -/
theorem distilled_behind_window :
    ¬ CoversShard nibbles 1 none
      (CollectiveShard.opened [sampleHalfPast, sampleHalfPast, sampleOnTheHour] 2) := by
  rintro ⟨r, record, h, hcount, -⟩
  have hwindow := (distill_counts h).1
  rw [hcount] at hwindow
  revert hwindow
  decide

end Daryl
