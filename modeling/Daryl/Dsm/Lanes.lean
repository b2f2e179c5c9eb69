import Daryl.Dsm.Distiller
import Daryl.Lib.StableSort

/-!
# `lanes`

Every agent of a `LaneGroup` has a collective shard of its own.  `recent` reads the newest
entries of every lane, no more of each than it returns, puts them one behind the other in
the order of registration and sorts them by time, the newest first.

## Main definitions

* `LaneGroup` — the lanes under the names of their agents.
* `LaneGroup.recent` — the newest entries over all lanes, or over one.
* `LaneGroup.merged` — all that the lanes show, newest first.
* `NonDecreasing` — the times of a lane compare, and none is before an earlier one.

## Main results

* `recent_topK` — **what is read of lanes with non-decreasing times is the beginning of all
  that the lanes show, newest first**, and nothing of that is lost or doubled.
-/

namespace Daryl

open Py StableSort

/-- The lanes of a group, in the order of registration. -/
abbrev LaneGroup (F : Type) := List (PyStr × CollectiveShard F)

/-- How a read of the lanes fails. -/
inductive LaneError
  | keyError (message : PyStr)
  | typeError
  deriving DecidableEq

variable {F : Type}

/-- Two times are both aware, or both naive; others do not compare. -/
def CollectiveEntry.Comparable (a b : CollectiveEntry F) : Prop :=
  a.contributedAt.val.offset.isSome = b.contributedAt.val.offset.isSome

instance (a b : CollectiveEntry F) : Decidable (a.Comparable b) :=
  inferInstanceAs (Decidable (_ = _))

instance : Std.Symm (CollectiveEntry.Comparable (F := F)) := ⟨fun _ _ => Eq.symm⟩

/-- Sorted by time, the newest first; entries of one time stay in their order. -/
def newestFirst (entries : List (CollectiveEntry F)) : List (CollectiveEntry F) :=
  sortBy (fun e => OrderDual.toDual e.time) entries

/-- `sort(key=lambda e: e.contributed_at, reverse=True)`. -/
def sortNewestFirst (entries : List (CollectiveEntry F)) :
    Except LaneError (List (CollectiveEntry F)) :=
  if ∀ a ∈ entries, ∀ b ∈ entries, a.Comparable b then .ok (newestFirst entries)
  else .error .typeError

/-- The text of the exception for an agent without a lane. -/
def noLane (agentId : PyStr) : PyStr :=
  py "No lane registered for agent '" ++ agentId ++ py "'. Call register_lane('" ++ agentId ++
    py "') first."

namespace LaneGroup

variable [DecidableEq F]

/-- `recent`. -/
def recent (limit : ℕ) (agentId entryType : Option PyStr) (lanes : LaneGroup F) :
    Except LaneError (List (CollectiveEntry F)) :=
  match agentId.getD [] with
  | [] =>
    (sortNewestFirst (lanes.flatMap fun lane => lane.2.recent limit none entryType)).map
      (List.take limit)
  | c :: agentId =>
    match Dict.get (c :: agentId) lanes with
    | none => .error (.keyError (noLane (c :: agentId)))
    | some collective => .ok (collective.recent limit none entryType)

/-- What a lane shows, newest first. -/
def shown (entryType : Option PyStr) (lane : PyStr × CollectiveShard F) : List (CollectiveEntry F) :=
  CollectiveShard.filtered none entryType lane.2.window.reverse

/-- All that the lanes show, newest first. -/
def merged (entryType : Option PyStr) (lanes : LaneGroup F) :
    Except LaneError (List (CollectiveEntry F)) :=
  sortNewestFirst (lanes.flatMap (shown entryType))

end LaneGroup

/-- The times of a lane compare, and none is before an earlier one. -/
def NonDecreasing (entries : List (CollectiveEntry F)) : Prop :=
  entries.Pairwise fun a b => a.Comparable b ∧ a.time ≤ b.time

namespace LaneGroup

variable [DecidableEq F]

/-- What a lane with non-decreasing times shows is sorted, and compares. -/
theorem pairwise_shown {lane : PyStr × CollectiveShard F} (h : NonDecreasing lane.2.window)
    (entryType : Option PyStr) :
    (shown entryType lane).Pairwise fun a b => b.Comparable a ∧ b.time ≤ a.time :=
  (List.pairwise_reverse.mpr h).filter _

theorem comparable_shown {lane : PyStr × CollectiveShard F} (h : NonDecreasing lane.2.window)
    (entryType : Option PyStr) {a b : CollectiveEntry F} (ha : a ∈ shown entryType lane)
    (hb : b ∈ shown entryType lane) : a.Comparable b := by
  have hpair : (shown entryType lane).Pairwise CollectiveEntry.Comparable :=
    (pairwise_shown h entryType).imp fun hab => hab.1.symm
  have hself : ∀ e ∈ shown entryType lane, e.Comparable e := fun _ _ => rfl
  exact List.Pairwise.forall_of_forall hself hpair ha hb

/-- **Cutting the lanes does not change whether their times compare**: of every lane that
shows something, something is left. -/
theorem comparable_iff {lanes : LaneGroup F} (h : ∀ lane ∈ lanes, NonDecreasing lane.2.window)
    (entryType : Option PyStr) {limit : ℕ} (hpos : 0 < limit) :
    (∀ a ∈ lanes.flatMap fun lane => lane.2.recent limit none entryType,
        ∀ b ∈ lanes.flatMap fun lane => lane.2.recent limit none entryType, a.Comparable b) ↔
      ∀ a ∈ lanes.flatMap (shown entryType), ∀ b ∈ lanes.flatMap (shown entryType),
        a.Comparable b := by
  have hrep : ∀ a ∈ lanes.flatMap (shown entryType),
      ∃ a' ∈ lanes.flatMap fun lane => lane.2.recent limit none entryType, a.Comparable a' := by
    intro a ha
    obtain ⟨lane, hlane, ha⟩ := List.mem_flatMap.mp ha
    -- the newest entry of the lane
    obtain ⟨a', rest, hshown⟩ := List.exists_cons_of_ne_nil (List.ne_nil_of_mem ha)
    have hhead : a' ∈ shown entryType lane := hshown ▸ List.mem_cons_self
    refine ⟨a', List.mem_flatMap.mpr ⟨lane, hlane, ?_⟩, comparable_shown (h lane hlane) entryType
      ha hhead⟩
    obtain ⟨n, rfl⟩ := Nat.exists_eq_succ_of_ne_zero hpos.ne'
    change a' ∈ (shown entryType lane).take (n + 1)
    rw [hshown, List.take_succ_cons]
    exact List.mem_cons_self
  constructor
  · intro hall a ha b hb
    obtain ⟨a', ha', haa'⟩ := hrep a ha
    obtain ⟨b', hb', hbb'⟩ := hrep b hb
    exact (haa'.trans (hall a' ha' b' hb')).trans hbb'.symm
  · intro hall a ha b hb
    have hsub : ∀ e ∈ lanes.flatMap fun lane => lane.2.recent limit none entryType,
        e ∈ lanes.flatMap (shown entryType) := by
      intro e he
      obtain ⟨lane, hlane, he⟩ := List.mem_flatMap.mp he
      exact List.mem_flatMap.mpr ⟨lane, hlane, List.mem_of_mem_take he⟩
    exact hall a (hsub a ha) b (hsub b hb)

/-- The first of the cut lanes are the first of all that the lanes show. -/
theorem take_newestFirst {lanes : LaneGroup F} (h : ∀ lane ∈ lanes, NonDecreasing lane.2.window)
    (entryType : Option PyStr) (limit : ℕ) :
    (newestFirst (lanes.flatMap fun lane => lane.2.recent limit none entryType)).take limit =
      (newestFirst (lanes.flatMap (shown entryType))).take limit := by
  have hsorted : ∀ l ∈ lanes.map (shown entryType),
      l.Pairwise fun a b => OrderDual.toDual a.time ≤ OrderDual.toDual b.time := by
    intro l hl
    obtain ⟨lane, hlane, rfl⟩ := List.mem_map.mp hl
    exact (pairwise_shown (h lane hlane) entryType).imp fun hab => hab.2
  have hcut := take_sortBy_flatMap limit hsorted
  rwa [List.flatMap_map, ← List.flatMap_def] at hcut

/-- All that the lanes show, merged: nothing is lost or doubled, the newest come first, and the
entries of one time stay in the order of the lanes. -/
theorem merged_spec {lanes : LaneGroup F} {entryType : Option PyStr}
    {full : List (CollectiveEntry F)} (h : merged entryType lanes = .ok full) :
    full.Perm (lanes.flatMap (shown entryType)) ∧ full.Pairwise (fun a b => b.time ≤ a.time) ∧
      ∀ t, (full.filter fun e => e.time = t)
        = (lanes.flatMap (shown entryType)).filter fun e => e.time = t := by
  rw [merged, sortNewestFirst] at h
  split_ifs at h
  obtain rfl := Except.ok.inj h
  have hsorted : (newestFirst (lanes.flatMap (shown entryType))).Pairwise fun a b =>
      OrderDual.toDual a.time ≤ OrderDual.toDual b.time := pairwise_sortBy _
  exact ⟨sortBy_perm _, hsorted.imp fun hab => OrderDual.toDual_le_toDual.mp hab,
    fun t => filter_sortBy _ (OrderDual.toDual t)⟩

/-- **What is read of lanes with non-decreasing times is the beginning of all that the
lanes show, newest first**, which a limit large enough reads; nothing of it is lost or doubled,
and entries of one time stay in the order of the lanes.  Where the times of two lanes do not
compare, every read that shows something raises. -/
theorem recent_topK {lanes : LaneGroup F} (h : ∀ lane ∈ lanes, NonDecreasing lane.2.window)
    (entryType : Option PyStr) :
    (∀ limit, 0 < limit →
      recent limit none entryType lanes = (merged entryType lanes).map (List.take limit)) ∧
    recent 0 none entryType lanes = .ok [] ∧
    (∀ limit, (lanes.flatMap (shown entryType)).length ≤ limit →
      recent limit none entryType lanes = merged entryType lanes) ∧
    ∀ full, merged entryType lanes = .ok full →
      full.Perm (lanes.flatMap (shown entryType)) ∧ full.Pairwise (fun a b => b.time ≤ a.time) ∧
        ∀ t, (full.filter fun e => e.time = t)
          = (lanes.flatMap (shown entryType)).filter fun e => e.time = t := by
  have htake : ∀ limit, 0 < limit →
      recent limit none entryType lanes = (merged entryType lanes).map (List.take limit) := by
    intro limit hpos
    simp only [recent, merged, sortNewestFirst, Option.getD_none, comparable_iff h entryType hpos]
    split_ifs
    · exact congrArg Except.ok (take_newestFirst h entryType limit)
    · rfl
  have hzero : recent 0 none entryType lanes = .ok [] := by
    have hnone : (lanes.flatMap fun lane => lane.2.recent 0 none entryType) = [] := by
      rw [List.flatMap_eq_nil_iff]
      exact fun lane _ => List.take_zero
    simp [recent, hnone, sortNewestFirst, Except.map]
  refine ⟨htake, hzero, ?_, fun full => merged_spec⟩
  · -- as many as the lanes show: nothing is cut off
    intro limit hlimit
    rcases Nat.eq_zero_or_pos limit with rfl | hpos
    · have hnone : lanes.flatMap (shown entryType) = [] :=
        List.eq_nil_of_length_eq_zero (Nat.le_zero.mp hlimit)
      rw [hzero, merged, hnone]
      rfl
    · rw [htake limit hpos, merged, sortNewestFirst]
      split_ifs
      · refine congrArg Except.ok (List.take_of_length_le ?_)
        rwa [newestFirst, (sortBy_perm _).length_eq]
      · rfl

end LaneGroup

/-- Two lanes with one entry each, the newer in the second. -/
def sampleLanes : LaneGroup FloatLit :=
  [(py "a", .opened [sampleHalfPast] 500), (py "b", .opened [sampleOnTheHour] 500)]

/-- The newest entry of two lanes is that of the second. -/
theorem recent_topK_sample : LaneGroup.recent 1 none none sampleLanes = .ok [sampleOnTheHour] := by
  have hdecreasing : ∀ lane ∈ sampleLanes, NonDecreasing lane.2.window := by
    intro lane hlane
    rcases List.mem_cons.mp hlane with rfl | hlane
    · exact List.pairwise_singleton _ _
    · obtain rfl := List.mem_singleton.mp hlane
      exact List.pairwise_singleton _ _
  have hmerged : LaneGroup.merged none sampleLanes = .ok [sampleOnTheHour, sampleHalfPast] := by
    decide +kernel
  rw [(LaneGroup.recent_topK hdecreasing none).1 1 Nat.one_pos, hmerged]
  rfl

end Daryl
