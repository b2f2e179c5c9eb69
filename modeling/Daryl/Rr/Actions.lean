import Daryl.Lib.StableSort
import Daryl.Lib.Tally
import Daryl.Rr.Navigator
import Daryl.Rr.Query
import Mathlib.Order.WithBot

/-!
# `rr_query_engine`: the actions of a name

A query of actions takes the records of one name, oldest first, and keeps the first of those that
pass its filters.  Without a filter the limit is handed down to the navigator; with one it is
tested behind every record that was kept, so with a limit of zero one record comes back.  A bound
that is a text and no ISO time is dropped, and so is an empty session id.

Here a query has the name of an action: of the buckets that no string names the index has none.

## Main definitions

* `ActionBound` — a bound: a `datetime`, a number, which may be infinite, or a text.
* `queryActions` — the query.
* `meets` — the record satisfies every bound that is given.
* `ActionsExact` — when the query is the filter of the bucket.

## Main results

* `queryActions_eq` — what a query returns.
* `queryActions_iff` — **when that is the first records of the bucket that satisfy all given
  bounds.**
-/

namespace Daryl

open Py

/-- A bound on the time of an action. -/
inductive ActionBound
  | datetime (d : Datetime)
  | number (x : WithBot (WithTop ℚ))
  | text (s : PyStr)

/-- `_coerce_to_numeric`. -/
def ActionBound.coerceToNumeric (stamp : Datetime → ℚ) : ActionBound → Option (WithBot (WithTop ℚ))
  | datetime d => some ((stamp d : WithTop ℚ) : WithBot (WithTop ℚ))
  | number x => some x
  | text s =>
    (fromisoformat (replace (py "Z") (py "+00:00") s)).map fun d =>
      ((stamp d : WithTop ℚ) : WithBot (WithTop ℚ))

/-- The arguments of a query of actions that filter. -/
structure ActionFilters where
  sessionId : Option PyStr
  startTime : Option ActionBound
  endTime : Option ActionBound

variable {F : Type}

/-- The time of a record as a number. -/
def IndexRecord.time (r : IndexRecord F) : WithBot (WithTop ℚ) :=
  ((r.timestamp : WithTop ℚ) : WithBot (WithTop ℚ))

/-- `navigate_action`, with its limit. -/
def navigateActionLimit (idx : RRIndex F) (actionName : PyStr) (limit : Option ℕ) :
    List (IndexRecord F) :=
  match limit with
  | some n => (navigateAction idx actionName).take n
  | none => navigateAction idx actionName

section

variable (stamp : Datetime → ℚ) (q : ActionFilters)

/-- `start_ts`. -/
def ActionFilters.startTs : Option (WithBot (WithTop ℚ)) :=
  q.startTime.bind (ActionBound.coerceToNumeric stamp)

/-- `end_ts`. -/
def ActionFilters.endTs : Option (WithBot (WithTop ℚ)) :=
  q.endTime.bind (ActionBound.coerceToNumeric stamp)

/-- `has_post_bucket_filter`. -/
def ActionFilters.hasPostBucketFilter : Bool :=
  (nonEmpty q.sessionId).isSome || (q.startTs stamp).isSome || (q.endTs stamp).isSome

/-- The record is not passed over. -/
def ActionFilters.keeps (r : IndexRecord F) : Bool :=
  (nonEmpty q.sessionId).all (fun s => r.sessionId = s) &&
    (q.startTs stamp).all (fun t => !decide (r.time < t)) &&
    (q.endTs stamp).all fun t => !decide (t < r.time)

/-- The loop over the records, with the results so far. -/
def collectActions (limit : ℕ) : List (IndexRecord F) → List (IndexRecord F) → List (IndexRecord F)
  | results, [] => results
  | results, act :: acts =>
    if q.keeps stamp act then
      if limit ≤ (results ++ [act]).length then results ++ [act]
      else collectActions limit (results ++ [act]) acts
    else collectActions limit results acts

/-- `query_actions`, of an action. -/
def queryActions (idx : RRIndex F) (actionName : PyStr) (limit : ℕ) : List (IndexRecord F) :=
  let navLimit := if q.hasPostBucketFilter stamp then none else some limit
  collectActions stamp q limit [] (navigateActionLimit idx actionName navLimit)

/-! ### What is asked for -/

/-- **The record satisfies every bound that is given.**  No record satisfies a text that is no
time. -/
def ActionFilters.meets (r : IndexRecord F) : Bool :=
  q.sessionId.all (fun s => r.sessionId = s) &&
    q.startTime.all (fun b => (b.coerceToNumeric stamp).any fun t => t ≤ r.time) &&
    q.endTime.all fun b => (b.coerceToNumeric stamp).any fun t => r.time ≤ t

/-- **The query returns the first records of the bucket that satisfy all given bounds**, oldest
first. -/
structure FirstActions (idx : RRIndex F) (actionName : PyStr) (limit : ℕ) : Prop where
  first : queryActions stamp q idx actionName limit
    = ((navigateAction idx actionName).filter (q.meets stamp)).take limit
  ascending : (queryActions stamp q idx actionName limit).Pairwise fun a b =>
    a.timestamp ≤ b.timestamp

/-- When the query does so. -/
structure ActionsExact (bucket : List (IndexRecord F)) (limit : ℕ) : Prop where
  /-- With a limit of zero and a filter, no record passes. -/
  zero : limit = 0 → q.hasPostBucketFilter stamp = true → ∀ r ∈ bucket, q.keeps stamp r = false
  /-- A record that passes because a bound was dropped stands behind as many as are asked for. -/
  dropped : 0 < limit → ∀ before r after, bucket = before ++ r :: after →
    q.keeps stamp r = true → q.meets stamp r = false →
      limit ≤ before.countP (q.meets stamp)

end

/-! ### The loop -/

section

variable {stamp : Datetime → ℚ} {q : ActionFilters}

/-- **The loop takes the first records that pass**, and one at least. -/
theorem collectActions_eq (limit : ℕ) : ∀ (acts results : List (IndexRecord F)),
    results.length ≤ limit - 1 →
      collectActions stamp q limit results acts
        = results ++ (acts.filter (q.keeps stamp)).take (max 1 limit - results.length) := by
  intro acts
  induction acts with
  | nil =>
    intro results _
    rw [collectActions, List.filter_nil, List.take_nil, List.append_nil]
  | cons act acts ih =>
    intro results hroom
    have hlen : (results ++ [act]).length = results.length + 1 := by
      rw [List.length_append, List.length_singleton]
    rw [collectActions]
    by_cases hkeep : q.keeps stamp act = true
    · obtain ⟨n, hn⟩ : ∃ n, max 1 limit - results.length = n + 1 :=
        ⟨max 1 limit - results.length - 1, by omega⟩
      rw [if_pos hkeep, List.filter_cons_of_pos hkeep, hn, List.take_succ_cons]
      by_cases hfull : limit ≤ (results ++ [act]).length
      · -- the last that is kept
        obtain rfl : n = 0 := by omega
        rw [if_pos hfull, List.take_zero]
      · rw [if_neg hfull, ih _ (by omega), List.append_assoc]
        have hrest : max 1 limit - (results ++ [act]).length = n := by omega
        rw [hrest]
        rfl
    · rw [if_neg hkeep, List.filter_cons_of_neg hkeep]
      exact ih results hroom

/-- Without a filter every record passes. -/
theorem keeps_of_no_filter (h : q.hasPostBucketFilter stamp = false) (r : IndexRecord F) :
    q.keeps stamp r = true := by
  unfold ActionFilters.hasPostBucketFilter at h
  rw [Bool.or_eq_false_iff, Bool.or_eq_false_iff, Option.isSome_eq_false_iff,
    Option.isSome_eq_false_iff, Option.isSome_eq_false_iff, Option.isNone_iff_eq_none,
    Option.isNone_iff_eq_none, Option.isNone_iff_eq_none] at h
  obtain ⟨⟨hsession, hstart⟩, hend⟩ := h
  rw [ActionFilters.keeps, hsession, hstart, hend]
  rfl

/-- **What a query returns**: the first records of the bucket that pass its filters; with a filter,
one at least. -/
theorem queryActions_eq (idx : RRIndex F) (actionName : PyStr) (limit : ℕ) :
    queryActions stamp q idx actionName limit
      = ((navigateAction idx actionName).filter (q.keeps stamp)).take
          (if q.hasPostBucketFilter stamp then max 1 limit else limit) := by
  unfold queryActions
  dsimp only
  rw [collectActions_eq limit _ _ (Nat.zero_le _), List.nil_append, List.length_nil, Nat.sub_zero]
  cases hfilter : q.hasPostBucketFilter stamp with
  | true => rfl
  | false =>
    -- the navigator cuts, and the loop takes all it is given
    have hall : ∀ acts : List (IndexRecord F), acts.filter (q.keeps stamp) = acts := fun acts =>
      List.filter_eq_self.mpr fun r _ => keeps_of_no_filter hfilter r
    rw [hall, hall, if_neg Bool.false_ne_true, if_neg Bool.false_ne_true]
    change ((navigateAction idx actionName).take limit).take (max 1 limit) = _
    rw [List.take_take, min_eq_right (le_max_right 1 limit)]

/-! ### When a bound was dropped -/

/-- A record that satisfies the bounds passes the filters. -/
theorem keeps_of_meets {r : IndexRecord F} (h : q.meets stamp r = true) : q.keeps stamp r = true := by
  unfold ActionFilters.meets at h
  rw [Bool.and_eq_true, Bool.and_eq_true] at h
  obtain ⟨⟨hsession, hstart⟩, hend⟩ := h
  unfold ActionFilters.keeps
  rw [Bool.and_eq_true, Bool.and_eq_true]
  refine ⟨⟨?_, ?_⟩, ?_⟩
  · unfold nonEmpty
    cases hs : q.sessionId with
    | none => rfl
    | some s =>
      rw [hs] at hsession
      cases s with
      | nil => rfl
      | cons c s => exact hsession
  · unfold ActionFilters.startTs
    cases hb : q.startTime with
    | none => rfl
    | some b =>
      rw [hb, Option.all_some] at hstart
      rw [Option.bind_some]
      cases ht : b.coerceToNumeric stamp with
      | none => rfl
      | some t =>
        rw [ht, Option.any_some, decide_eq_true_iff] at hstart
        simpa using hstart
  · unfold ActionFilters.endTs
    cases hb : q.endTime with
    | none => rfl
    | some b =>
      rw [hb, Option.all_some] at hend
      rw [Option.bind_some]
      cases ht : b.coerceToNumeric stamp with
      | none => rfl
      | some t =>
        rw [ht, Option.any_some, decide_eq_true_iff] at hend
        simpa using hend

/-- A query that is cut to nothing, or to no more than is asked for, is the filter of the bucket iff
what passes because a bound was dropped stands far enough behind. -/
theorem first_iff (idx : RRIndex F) (actionName : PyStr) (limit : ℕ) :
    queryActions stamp q idx actionName limit
        = ((navigateAction idx actionName).filter (q.meets stamp)).take limit ↔
      ActionsExact stamp q (navigateAction idx actionName) limit := by
  rw [queryActions_eq]
  rcases Nat.eq_zero_or_pos limit with rfl | hpos
  · rw [List.take_zero]
    cases hfilter : q.hasPostBucketFilter stamp with
    | false =>
      rw [if_neg Bool.false_ne_true, List.take_zero]
      refine iff_of_true rfl ⟨fun _ h => ?_, fun h => absurd h (lt_irrefl 0)⟩
      rw [hfilter] at h
      cases h
    | true =>
      -- one record is taken, if there is one
      rw [if_pos rfl, List.take_eq_nil_iff, List.filter_eq_nil_iff]
      constructor
      · intro h
        refine ⟨fun _ _ r hr => ?_, fun h => absurd h (lt_irrefl 0)⟩
        exact Bool.not_eq_true _ ▸ (h.resolve_left (by decide)) r hr
      · intro h
        refine Or.inr fun r hr => ?_
        rw [h.zero rfl hfilter r hr]
        exact Bool.false_ne_true
  · have hcut : (if q.hasPostBucketFilter stamp then max 1 limit else limit) = limit := by
      split_ifs
      · exact max_eq_right hpos
      · rfl
    rw [hcut, Tally.take_filter_eq_iff fun r => keeps_of_meets]
    exact ⟨fun h => ⟨fun hzero => absurd hzero hpos.ne', fun _ => h⟩, fun h => h.dropped hpos⟩

end

section

variable [PyFloat F] {stamp : Datetime → ℚ} {q : ActionFilters}

/-- **A query of actions returns the first records of the bucket that satisfy all given bounds iff
it is not asked for none of some, and what passes for a dropped bound is behind those asked for.** -/
theorem queryActions_iff (rs : List (IndexRecord F)) (actionName : PyStr) (limit : ℕ) :
    FirstActions stamp q (indexRecords rs) actionName limit ↔
      ActionsExact stamp q (navigateAction (indexRecords rs) actionName) limit := by
  rw [← first_iff]
  constructor
  · exact FirstActions.first
  · intro hfirst
    refine ⟨hfirst, ?_⟩
    have hsorted : (navigateAction (indexRecords rs) actionName).Pairwise fun a b =>
        a.timestamp ≤ b.timestamp := by
      rw [navigateAction_indexRecords]
      exact @StableSort.pairwise_sortBy _ _ _ IndexRecord.timestamp _
    rw [hfirst]
    exact (hsorted.filter _).take

end

/-! ### A limit of zero, and a text that is no time -/

/-- The index of one entry, an action of a session. -/
def sampleActions : RRIndex FloatLit :=
  indexRecords [{ sessionId := py "s1", timestamp := 5, agent := py "a", eventType := .none
                  shardId := py "main", entryId := py "e1", offset := 0
                  actionName := .str (py "search"), success := true }]

/-- **A record comes back where none is asked for, and one where a bound is no time.** -/
theorem queryActions_widens :
    ¬FirstActions sampleStamp ⟨some (py "s1"), none, none⟩ sampleActions (py "search") 0 ∧
      ¬FirstActions sampleStamp ⟨none, some (.text (py "yesterday")), none⟩ sampleActions
        (py "search") 10 := by
  constructor
  · rintro ⟨hfirst, -⟩
    exact absurd (congrArg List.length hfirst) (by decide +kernel)
  · rintro ⟨hfirst, -⟩
    exact absurd (congrArg List.length hfirst) (by decide +kernel)

end Daryl
