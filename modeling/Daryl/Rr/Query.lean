import Daryl.Lib.Pointwise
import Daryl.Rr.Index

/-!
# `rr_query_engine`: queries over the index

A query looks up one list of records for every filter that is set, and intersects
the lists by entry id.  A filter counts as set when its value is truthy; a list
without a record that has an id does not take part.

## Main definitions

* `Criteria` — the filters a caller supplies.
* `candidates` — the lists looked up for them.
* `intersectByEntryId`, `query` — the combination.
* `Satisfies` — a record meets every supplied criterion.
* `Survives` — what the code makes of that.
* `QueryExact` — when the two agree.

## Main results

* `mem_query_iff` — **a query returns the surviving records.**
-/

namespace Daryl

open Py

/-- A bound on the time: a `datetime`, or a number. -/
inductive TimeBound
  | datetime (d : Datetime)
  | number (x : ℚ)

/-- The arguments of a query that filter. -/
structure Criteria where
  sessionId : Option PyStr
  agent : Option PyStr
  shardId : Option PyStr
  startTime : Option TimeBound
  endTime : Option TimeBound

/-- `_to_timestamp`. -/
def TimeBound.toTimestamp (stamp : Datetime → ℚ) : TimeBound → ℚ
  | datetime d => stamp d
  | number x => x

/-- `bool(...)` of a bound: the number zero is false. -/
def TimeBound.truthy : TimeBound → Bool
  | datetime _ => true
  | number x => x ≠ 0

/-- The value, unless it is empty. -/
def nonEmpty (s : Option PyStr) : Option PyStr := s.filter fun x => !x.isEmpty

/-- `any([session_id, agent, shard_id, start_time, end_time])`. -/
def Criteria.anyTruthy (c : Criteria) : Bool :=
  (nonEmpty c.sessionId).isSome || (nonEmpty c.agent).isSome || (nonEmpty c.shardId).isSome ||
    c.startTime.any TimeBound.truthy || c.endTime.any TimeBound.truthy

/-- `has_time`. -/
def Criteria.hasTime (c : Criteria) : Bool := c.startTime.isSome || c.endTime.isSome

variable {F : Type}

/-- `navigate_session`. -/
def navigateSession (idx : RRIndex F) (sessionId : PyStr) : List (IndexRecord F) :=
  (Dict.get sessionId idx.sessionIndex).getD []

/-- `navigate_agent`. -/
def navigateAgent (idx : RRIndex F) (agent : PyStr) : List (IndexRecord F) :=
  (Dict.get agent idx.agentIndex).getD []

/-- `navigate_shard`. -/
def navigateShard (idx : RRIndex F) (shardId : PyStr) : List (IndexRecord F) :=
  (Dict.get shardId idx.shardIndex).getD []

/-- The time of the record lies within the bounds. -/
def inTime (stamp : Datetime → ℚ) (startTime endTime : Option TimeBound) (r : IndexRecord F) :
    Bool :=
  startTime.all (fun b => b.toTimestamp stamp ≤ r.timestamp) &&
    endTime.all fun b => r.timestamp ≤ b.toTimestamp stamp

/-- `timeline`. -/
def timeline (stamp : Datetime → ℚ) (idx : RRIndex F) (startTime endTime : Option TimeBound) :
    List (IndexRecord F) :=
  idx.timelineIndex.filter (inTime stamp startTime endTime)

/-- The lists of a query, one for every filter that is set. -/
def candidates (stamp : Datetime → ℚ) (idx : RRIndex F) (c : Criteria) :
    List (List (IndexRecord F)) :=
  ((nonEmpty c.sessionId).map (navigateSession idx)).toList ++
    ((nonEmpty c.agent).map (navigateAgent idx)).toList ++
    ((nonEmpty c.shardId).map (navigateShard idx)).toList ++
    if c.hasTime then [timeline stamp idx c.startTime c.endTime] else []

/-- The records with an id. -/
def withId (rs : List (IndexRecord F)) : List (IndexRecord F) :=
  rs.filter fun r => !r.entryId.isEmpty

/-- `_intersect_by_entry_id`: the lists without a record that has an id are left
out, and the records of the first of the others stay whose id is in all. -/
def intersectByEntryId (cs : List (List (IndexRecord F))) : List (IndexRecord F) :=
  match (cs.map withId).filter fun l => !l.isEmpty with
  | [] => []
  | base :: rest =>
    base.filter fun r => (base :: rest).all fun l => (l.map IndexRecord.entryId).contains r.entryId

/-- The records of the lists together. -/
def combine (cs : List (List (IndexRecord F))) : List (IndexRecord F) :=
  match cs with
  | [] => []
  | [rs] => withId rs
  | cs => intersectByEntryId cs

/-- A lower-case ASCII letter. -/
def lowerChar (c : CodePoint) : CodePoint :=
  if h : 65 ≤ c.val ∧ c.val ≤ 90 then ⟨c.val + 32, c.lower_lt h⟩ else c

/-- The sort of a query: descending for any spelling of `desc`. -/
def sortRecords (sort : PyStr) (rs : List (IndexRecord F)) : List (IndexRecord F) :=
  if sort.map lowerChar = py "desc" then rs.insertionSort fun a b => b.timestamp ≤ a.timestamp
  else sortByTime rs

/-- `records[:limit]`: a negative limit counts from the end. -/
def limitRecords (limit : ℤ) (rs : List (IndexRecord F)) : List (IndexRecord F) :=
  rs.take (if limit < 0 then (rs.length + limit).toNat else limit.toNat)

/-- `query`, without the resolution of the records. -/
def query (stamp : Datetime → ℚ) (idx : RRIndex F) (c : Criteria) (limit : Option ℤ)
    (sort : Option PyStr) : List (IndexRecord F) :=
  if !c.anyTruthy then []
  else
    let records := combine (candidates stamp idx c)
    let sorted := match sort with
      | some order => sortRecords order records
      | none => records
    match limit with
    | some n => limitRecords n sorted
    | none => sorted

/-! ### The criteria and the filters -/

/-- The record meets every supplied criterion. -/
structure Satisfies (stamp : Datetime → ℚ) (c : Criteria) (r : IndexRecord F) : Prop where
  session : ∀ s, c.sessionId = some s → r.sessionId = s
  agent : ∀ a, c.agent = some a → r.agent = a
  shard : ∀ s, c.shardId = some s → r.shardId = s
  time : inTime stamp c.startTime c.endTime r = true

/-- The filters of a query that are set, as the index applies them: it files an empty
session under `none` and an empty agent under `unknown`. -/
def filters (stamp : Datetime → ℚ) (c : Criteria) : List (IndexRecord F → Bool) :=
  ((nonEmpty c.sessionId).map fun s r => decide (r.sessionKey = s)).toList ++
    ((nonEmpty c.agent).map fun a r => decide (r.agentKey = a)).toList ++
    ((nonEmpty c.shardId).map fun s r => decide (r.shardId = s)).toList ++
    if c.hasTime then [inTime stamp c.startTime c.endTime] else []

/-- The filter matches a record that has an id. -/
def Matches (rs : List (IndexRecord F)) (f : IndexRecord F → Bool) : Prop :=
  ∃ r ∈ rs, r.entryId ≠ [] ∧ f r = true

/-- **What a query returns**: the records with an id that pass every filter that
matches any, if one does. -/
structure Survives (stamp : Datetime → ℚ) (c : Criteria) (rs : List (IndexRecord F))
    (r : IndexRecord F) : Prop where
  mem : r ∈ rs
  id : r.entryId ≠ []
  passes : ∀ f ∈ filters stamp c, Matches rs f → f r = true
  some : ∃ f ∈ filters stamp c, Matches rs f

/-! ### The lists are the filters -/

/-- A list of a query holds the records that pass a filter. -/
def ListOf (rs l : List (IndexRecord F)) (f : IndexRecord F → Bool) : Prop := l.Perm (rs.filter f)

section

variable {stamp : Datetime → ℚ} {c : Criteria} {rs : List (IndexRecord F)}

/-- A group of an index is the filter for its key. -/
theorem listOf_group {key : IndexRecord F → PyStr} (k : PyStr) :
    ListOf rs ((Dict.get k (Dict.group key rs)).getD []) fun r => decide (key r = k) := by
  unfold ListOf
  rw [Dict.get_group]

theorem listOf_timeline (startTime endTime : Option TimeBound) :
    ListOf rs (timeline stamp (indexRecords rs) startTime endTime)
      (inTime stamp startTime endTime) :=
  (sortByTime_perm rs).filter _

/-- **The lists of a query are those of its filters**, one by one. -/
theorem candidates_listOf :
    List.Forall₂ (ListOf rs) (candidates stamp (indexRecords rs) c) (filters stamp c) := by
  unfold candidates filters
  refine List.rel_append (List.rel_append (List.rel_append ?_ ?_) ?_) ?_
  · cases nonEmpty c.sessionId with
    | none => exact .nil
    | some s => exact .cons (listOf_group s) .nil
  · cases nonEmpty c.agent with
    | none => exact .nil
    | some a => exact .cons (listOf_group a) .nil
  · cases nonEmpty c.shardId with
    | none => exact .nil
    | some s => exact .cons (listOf_group s) .nil
  · split_ifs
    · exact .cons (listOf_timeline _ _) .nil
    · exact .nil

theorem mem_withId {l : List (IndexRecord F)} {r : IndexRecord F} :
    r ∈ withId l ↔ r ∈ l ∧ r.entryId ≠ [] := by
  simp [withId]

/-- A list takes part iff its filter matches. -/
theorem ListOf.withId_ne_nil {l : List (IndexRecord F)} {f : IndexRecord F → Bool}
    (h : ListOf rs l f) : withId l ≠ [] ↔ Matches rs f := by
  rw [Ne, List.eq_nil_iff_forall_not_mem, not_forall]
  constructor
  · rintro ⟨r, hr⟩
    obtain ⟨hmem, hid⟩ := mem_withId.mp (not_not.mp hr)
    obtain ⟨hrs, hf⟩ := List.mem_filter.mp (h.mem_iff.mp hmem)
    exact ⟨r, hrs, hid, hf⟩
  · rintro ⟨r, hrs, hid, hf⟩
    exact ⟨r, not_not.mpr (mem_withId.mpr ⟨h.mem_iff.mpr (List.mem_filter.mpr ⟨hrs, hf⟩), hid⟩)⟩

/-- Records with distinct ids: an id of a sublist is that of one of its records. -/
theorem mem_of_entryId_mem (hids : (rs.map IndexRecord.entryId).Nodup) {l : List (IndexRecord F)}
    (hl : l ⊆ rs) {r : IndexRecord F} (hr : r ∈ rs) (h : r.entryId ∈ l.map IndexRecord.entryId) :
    r ∈ l := by
  obtain ⟨r', hr', heq⟩ := List.mem_map.mp h
  exact List.inj_on_of_nodup_map hids (hl hr') hr heq ▸ hr'

/-- **The intersection**: the records with an id that are in every list that takes
part, if one does. -/
theorem mem_intersectByEntryId (hids : (rs.map IndexRecord.entryId).Nodup)
    {cs : List (List (IndexRecord F))} (hcs : ∀ l ∈ cs, l ⊆ rs) {r : IndexRecord F} :
    r ∈ intersectByEntryId cs ↔ r ∈ rs ∧ r.entryId ≠ [] ∧
      (∀ l ∈ cs, withId l ≠ [] → r ∈ l) ∧ ∃ l ∈ cs, withId l ≠ [] := by
  have hlists : ∀ l', l' ∈ (cs.map withId).filter (fun l => !l.isEmpty) ↔
      ∃ l ∈ cs, withId l ≠ [] ∧ withId l = l' := by
    intro l'
    simp only [List.mem_filter, List.mem_map, Bool.not_eq_true', List.isEmpty_eq_false_iff]
    constructor
    · rintro ⟨⟨l, hl, rfl⟩, hne⟩
      exact ⟨l, hl, hne, rfl⟩
    · rintro ⟨l, hl, hne, rfl⟩
      exact ⟨⟨l, hl, rfl⟩, hne⟩
  unfold intersectByEntryId
  cases hsplit : (cs.map withId).filter fun l => !l.isEmpty with
  | nil =>
    simp only [List.not_mem_nil, false_iff]
    rintro ⟨-, -, -, l, hl, hne⟩
    have := (hlists (withId l)).mpr ⟨l, hl, hne, rfl⟩
    rw [hsplit] at this
    cases this
  | cons base rest =>
    rw [hsplit] at hlists
    obtain ⟨b, hb, hbne, rfl⟩ := (hlists base).mp List.mem_cons_self
    simp only [List.mem_filter, List.all_eq_true, List.contains_iff_mem]
    constructor
    · rintro ⟨hbase, hall⟩
      obtain ⟨hrb, hid⟩ := mem_withId.mp hbase
      refine ⟨hcs b hb hrb, hid, ?_, b, hb, hbne⟩
      intro l hl hne
      have hmem := hall _ ((hlists (withId l)).mpr ⟨l, hl, hne, rfl⟩)
      have hsub : withId l ⊆ rs := fun x hx => hcs l hl (mem_withId.mp hx).1
      exact (mem_withId.mp (mem_of_entryId_mem hids hsub (hcs b hb hrb) hmem)).1
    · rintro ⟨-, hid, hall, -⟩
      refine ⟨mem_withId.mpr ⟨hall b hb hbne, hid⟩, ?_⟩
      intro l' hl'
      obtain ⟨l, hl, hne, rfl⟩ := (hlists l').mp hl'
      exact List.mem_map_of_mem (mem_withId.mpr ⟨hall l hl hne, hid⟩)

theorem mem_combine (hids : (rs.map IndexRecord.entryId).Nodup)
    {cs : List (List (IndexRecord F))} (hcs : ∀ l ∈ cs, l ⊆ rs) {r : IndexRecord F} :
    r ∈ combine cs ↔ r ∈ rs ∧ r.entryId ≠ [] ∧
      (∀ l ∈ cs, withId l ≠ [] → r ∈ l) ∧ ∃ l ∈ cs, withId l ≠ [] := by
  match cs, hcs with
  | [], _ => simp [combine]
  | [l], hcs =>
    simp only [combine, mem_withId, List.mem_singleton, forall_eq, exists_eq_left]
    constructor
    · rintro ⟨hl, hid⟩
      refine ⟨hcs l (List.mem_singleton_self l) hl, hid, fun _ => hl, ?_⟩
      exact List.ne_nil_of_mem (mem_withId.mpr ⟨hl, hid⟩)
    · rintro ⟨-, hid, hall, hne⟩
      exact ⟨hall hne, hid⟩
  | l :: l' :: cs, hcs => exact mem_intersectByEntryId hids hcs

theorem nodup_withId {l : List (IndexRecord F)} (h : l.Nodup) : (withId l).Nodup := h.filter _

theorem nodup_combine {cs : List (List (IndexRecord F))} (hcs : ∀ l ∈ cs, l.Nodup) :
    (combine cs).Nodup := by
  match cs, hcs with
  | [], _ => exact List.nodup_nil
  | [l], hcs => exact nodup_withId (hcs l (List.mem_singleton_self l))
  | l :: l' :: cs, hcs =>
    change (intersectByEntryId (l :: l' :: cs)).Nodup
    unfold intersectByEntryId
    cases hsplit : ((l :: l' :: cs).map withId).filter fun l => !l.isEmpty with
    | nil => exact List.nodup_nil
    | cons base rest =>
      have hbase : base ∈ ((l :: l' :: cs).map withId).filter fun l => !l.isEmpty :=
        hsplit ▸ List.mem_cons_self
      obtain ⟨b, hb, rfl⟩ := List.mem_map.mp (List.mem_filter.mp hbase).1
      exact (nodup_withId (hcs b hb)).filter _

/-! ### What a query returns -/

theorem sortRecords_perm (sort : PyStr) (rs : List (IndexRecord F)) :
    (sortRecords sort rs).Perm rs := by
  unfold sortRecords
  split_ifs
  · exact List.perm_insertionSort _ _
  · exact sortByTime_perm rs

/-- Without a limit a query is the combination of its lists, sorted. -/
theorem query_perm (idx : RRIndex F) (sort : Option PyStr) (h : c.anyTruthy = true) :
    (query stamp idx c none sort).Perm (combine (candidates stamp idx c)) := by
  unfold query
  rw [h]
  cases sort with
  | none => exact List.Perm.refl _
  | some order => exact sortRecords_perm order _

/-- **A query returns the surviving records.** -/
theorem mem_query_iff (hids : (rs.map IndexRecord.entryId).Nodup) (sort : Option PyStr)
    (h : c.anyTruthy = true) {r : IndexRecord F} :
    r ∈ query stamp (indexRecords rs) c none sort ↔ Survives stamp c rs r := by
  have hlists : List.Forall₂ (ListOf rs) (candidates stamp (indexRecords rs) c)
      (filters stamp c) := candidates_listOf
  have hsub : ∀ l ∈ candidates stamp (indexRecords rs) c, l ⊆ rs := by
    intro l hl x hx
    obtain ⟨f, -, hlf⟩ := Pointwise.exists_of_mem_left hlists hl
    exact (List.mem_filter.mp (hlf.mem_iff.mp hx)).1
  rw [(query_perm _ sort h).mem_iff, mem_combine hids hsub]
  constructor
  · rintro ⟨hr, hid, hall, l, hl, hne⟩
    obtain ⟨f, hf, hlf⟩ := Pointwise.exists_of_mem_left hlists hl
    refine ⟨hr, hid, ?_, f, hf, hlf.withId_ne_nil.mp hne⟩
    intro g hg hmatch
    obtain ⟨l', hl', hlg⟩ := Pointwise.exists_of_mem_right hlists hg
    have hrl := hall l' hl' (hlg.withId_ne_nil.mpr hmatch)
    exact (List.mem_filter.mp (hlg.mem_iff.mp hrl)).2
  · rintro ⟨hr, hid, hpass, f, hf, hmatch⟩
    obtain ⟨l, hl, hlf⟩ := Pointwise.exists_of_mem_right hlists hf
    refine ⟨hr, hid, ?_, l, hl, hlf.withId_ne_nil.mpr hmatch⟩
    intro l' hl' hne
    obtain ⟨g, hg, hlg⟩ := Pointwise.exists_of_mem_left hlists hl'
    exact hlg.mem_iff.mpr (List.mem_filter.mpr ⟨hr, hpass g hg (hlg.withId_ne_nil.mp hne)⟩)

/-- A query without a truthy value returns nothing. -/
theorem query_of_not_anyTruthy (idx : RRIndex F) (limit : Option ℤ) (sort : Option PyStr)
    (h : c.anyTruthy = false) : query stamp idx c limit sort = [] := by
  unfold query
  rw [h]
  rfl

/-! ### When it is what was asked for -/

/-- **The query is the conjunction of its criteria**: it returns the records that meet
them all, each once. -/
def IsConjunction (stamp : Datetime → ℚ) (c : Criteria) (rs out : List (IndexRecord F)) : Prop :=
  out.Nodup ∧ ∀ r, r ∈ out ↔ r ∈ rs ∧ Satisfies stamp c r

/-- What the criteria and the records must be for that. -/
structure QueryExact (stamp : Datetime → ℚ) (c : Criteria) (rs : List (IndexRecord F)) : Prop where
  /-- Every record that is asked for has an id. -/
  ids : ∀ r ∈ rs, Satisfies stamp c r → r.entryId ≠ []
  /-- With falsy values only, nothing is asked for. -/
  falsy : c.anyTruthy = false → ∀ r ∈ rs, ¬Satisfies stamp c r
  /-- If a filter matches nothing, the others have nothing in common. -/
  matched : c.anyTruthy = true → (∃ f ∈ filters stamp c, ¬Matches rs f) →
    ∀ r, ¬Survives stamp c rs r
  /-- An empty session, or the name empty sessions are filed under, makes no
  difference. -/
  session : c.anyTruthy = true → ∀ s, c.sessionId = some s → s = [] ∨ s = py "none" →
    ∀ r, Survives stamp c rs r → r.sessionId = s
  /-- The same of the agent. -/
  agent : c.anyTruthy = true → ∀ a, c.agent = some a → a = [] ∨ a = py "unknown" →
    ∀ r, Survives stamp c rs r → r.agent = a
  /-- An empty shard makes no difference. -/
  shard : c.anyTruthy = true → c.shardId = some [] → ∀ r, Survives stamp c rs r → r.shardId = []

theorem nonEmpty_eq_some {s : Option PyStr} {x : PyStr} :
    nonEmpty s = some x ↔ s = some x ∧ x ≠ [] := by
  simp [nonEmpty, Option.filter_eq_some_iff]

/-- A record that is asked for passes every filter. -/
theorem Satisfies.passes {r : IndexRecord F} (h : Satisfies stamp c r) :
    ∀ f ∈ filters stamp c, f r = true := by
  intro f hf
  simp only [filters, List.mem_append, Option.mem_toList, Option.map_eq_some_iff,
    nonEmpty_eq_some] at hf
  rcases hf with ((⟨s, ⟨hs, hne⟩, rfl⟩ | ⟨a, ⟨ha, hne⟩, rfl⟩) | ⟨s, ⟨hs, hne⟩, rfl⟩) | hf
  · have := h.session s hs
    simp [IndexRecord.sessionKey, this, hne]
  · have := h.agent a ha
    simp [IndexRecord.agentKey, this, hne]
  · simp [h.shard s hs]
  · split_ifs at hf with htime
    · rw [List.mem_singleton] at hf
      exact hf ▸ h.time
    · cases hf

/-- With a truthy value some filter is set. -/
theorem exists_filter (stamp : Datetime → ℚ) (h : c.anyTruthy = true) :
    ∃ f : IndexRecord F → Bool, f ∈ filters stamp c := by
  apply List.exists_mem_of_ne_nil
  intro hnil
  simp only [filters, List.append_eq_nil_iff, Option.toList_eq_nil_iff, Option.map_eq_none_iff] at hnil
  obtain ⟨⟨⟨hs, ha⟩, hsh⟩, htime⟩ := hnil
  have hno : c.hasTime = false := by
    by_contra hyes
    rw [Bool.not_eq_false] at hyes
    simp [hyes] at htime
  simp only [Criteria.hasTime, Bool.or_eq_false_iff, Option.isSome_eq_false_iff,
    Option.isNone_iff_eq_none] at hno
  simp [Criteria.anyTruthy, hs, ha, hsh, hno.1, hno.2] at h

/-- A record that is asked for and has an id survives. -/
theorem Satisfies.survives {r : IndexRecord F} (h : Satisfies stamp c r) (hc : c.anyTruthy = true)
    (hr : r ∈ rs) (hid : r.entryId ≠ []) : Survives stamp c rs r := by
  obtain ⟨f, hf⟩ := exists_filter stamp hc
  exact ⟨hr, hid, fun g hg _ => h.passes g hg, f, hf, r, hr, hid, h.passes f hf⟩

/-- A record that passes the filters meets the criteria, but for those the filters
blur. -/
theorem satisfies_of_passes {r : IndexRecord F} (h : ∀ f ∈ filters stamp c, f r = true)
    (hsession : ∀ s, c.sessionId = some s → s = [] ∨ s = py "none" → r.sessionId = s)
    (hagent : ∀ a, c.agent = some a → a = [] ∨ a = py "unknown" → r.agent = a)
    (hshard : c.shardId = some [] → r.shardId = []) : Satisfies stamp c r := by
  refine ⟨?_, ?_, ?_, ?_⟩
  · intro s hs
    by_cases hblur : s = [] ∨ s = py "none"
    · exact hsession s hs hblur
    · obtain ⟨hne, hnone⟩ := not_or.mp hblur
      have hf := h (fun r => decide (r.sessionKey = s))
        (by simp [filters, nonEmpty_eq_some, hs, hne])
      have hkey : r.sessionKey = s := by simpa using hf
      unfold IndexRecord.sessionKey at hkey
      split_ifs at hkey
      · exact absurd hkey.symm hnone
      · exact hkey
  · intro a ha
    by_cases hblur : a = [] ∨ a = py "unknown"
    · exact hagent a ha hblur
    · obtain ⟨hne, hunknown⟩ := not_or.mp hblur
      have hf := h (fun r => decide (r.agentKey = a))
        (by simp [filters, nonEmpty_eq_some, ha, hne])
      have hkey : r.agentKey = a := by simpa using hf
      unfold IndexRecord.agentKey at hkey
      split_ifs at hkey
      · exact absurd hkey.symm hunknown
      · exact hkey
  · intro s hs
    by_cases hne : s = []
    · exact hne ▸ hshard (hne ▸ hs)
    · have hf := h (fun r => decide (r.shardId = s))
        (by simp [filters, nonEmpty_eq_some, hs, hne])
      simpa using hf
  · by_cases htime : c.hasTime = true
    · exact h (inTime stamp c.startTime c.endTime) (by simp [filters, htime])
    · simp only [Criteria.hasTime, Bool.or_eq_true, not_or, Option.not_isSome_iff_eq_none] at htime
      simp [inTime, htime.1, htime.2]

theorem QueryExact.satisfies {r : IndexRecord F} (h : QueryExact stamp c rs)
    (hc : c.anyTruthy = true) (hr : Survives stamp c rs r) : Satisfies stamp c r := by
  apply satisfies_of_passes
  · intro f hf
    by_cases hmatch : Matches rs f
    · exact hr.passes f hf hmatch
    · exact absurd hr (h.matched hc ⟨f, hf, hmatch⟩ r)
  · exact fun s hs hblur => h.session hc s hs hblur r hr
  · exact fun a ha hblur => h.agent hc a ha hblur r hr
  · exact fun hs => h.shard hc hs r hr

end

variable [PyFloat F]

/-- **A query returns exactly the records that meet all its criteria, each once, iff**
those have ids, something is asked for with a value that is not falsy, no filter that
matches nothing is dropped from an intersection that is not empty, and an empty value,
`none` or `unknown` makes no difference. -/
theorem query_exact_iff (stamp : Datetime → ℚ) (batchSize : ℕ) (hbatch : 0 < batchSize)
    (s : Store F) (hids : s.ids.Nodup) (idx : RRIndex F)
    (hidx : buildIndex stamp batchSize s = some idx) (c : Criteria) (sort : Option PyStr) :
    IsConjunction stamp c (scanRecords stamp batchSize s) (query stamp idx c none sort) ↔
      QueryExact stamp c (scanRecords stamp batchSize s) := by
  have hnodup : ((scanRecords stamp batchSize s).map IndexRecord.entryId).Nodup :=
    (ids_scanRecords hbatch s).nodup_iff.mpr hids
  obtain rfl : indexRecords (scanRecords stamp batchSize s) = idx := by
    unfold buildIndex at hidx
    dsimp only at hidx
    split_ifs at hidx
    exact Option.some.inj hidx
  generalize scanRecords stamp batchSize s = rs at hnodup
  by_cases hc : c.anyTruthy = true
  · -- some criterion is truthy
    have hmem : ∀ r, r ∈ query stamp (indexRecords rs) c none sort ↔ Survives stamp c rs r :=
      fun r => mem_query_iff hnodup sort hc
    constructor
    · rintro ⟨-, hall⟩
      have hsat : ∀ r, Survives stamp c rs r → Satisfies stamp c r :=
        fun r hr => ((hall r).mp ((hmem r).mpr hr)).2
      refine ⟨?_, ?_, ?_, ?_, ?_, ?_⟩
      · intro r hr hs
        exact ((hmem r).mp ((hall r).mpr ⟨hr, hs⟩)).id
      · intro hfalse
        rw [hc] at hfalse
        cases hfalse
      · rintro - ⟨f, hf, hno⟩ r hr
        exact hno ⟨r, hr.mem, hr.id, (hsat r hr).passes f hf⟩
      · exact fun _ s hs _ r hr => (hsat r hr).session s hs
      · exact fun _ a ha _ r hr => (hsat r hr).agent a ha
      · exact fun _ hs r hr => (hsat r hr).shard [] hs
    · intro hexact
      refine ⟨?_, ?_⟩
      · have hlists : ∀ l ∈ candidates stamp (indexRecords rs) c, l.Nodup := by
          intro l hl
          obtain ⟨f, -, hlf⟩ := Pointwise.exists_of_mem_left candidates_listOf hl
          exact hlf.nodup_iff.mpr ((List.Nodup.of_map _ hnodup).filter _)
        exact (query_perm _ sort hc).nodup_iff.mpr (nodup_combine hlists)
      · intro r
        rw [hmem]
        constructor
        · intro hr
          exact ⟨hr.mem, hexact.satisfies hc hr⟩
        · rintro ⟨hr, hs⟩
          exact hs.survives hc hr (hexact.ids r hr hs)
  · -- none is, and the query returns nothing
    rw [Bool.not_eq_true] at hc
    rw [query_of_not_anyTruthy _ _ _ hc]
    constructor
    · rintro ⟨-, hall⟩
      have hno : ∀ r ∈ rs, ¬Satisfies stamp c r := by
        intro r hr hs
        exact absurd ((hall r).mpr ⟨hr, hs⟩) (by simp)
      have hfalse : c.anyTruthy ≠ true := by simp [hc]
      exact ⟨fun r hr hs => absurd hs (hno r hr), fun _ => hno, fun h => absurd h hfalse,
        fun h => absurd h hfalse, fun h => absurd h hfalse, fun h => absurd h hfalse⟩
    · intro hexact
      refine ⟨List.nodup_nil, ?_⟩
      intro r
      simp only [List.not_mem_nil, false_iff]
      rintro ⟨hr, hs⟩
      exact hexact.falsy hc r hr hs

/-- An entry of this session in the shard `main`. -/
def sampleStored (id sessionId source : PyStr) : StoredEntry FloatLit where
  id := id
  timestamp := ⟨⟨2026, 1, 2, 3, 4, 5, 0, some 0⟩, sampleSecond_valid⟩
  sessionId := sessionId
  source := source
  content := py "text"
  shard := py "main"
  hash := py "v1:0"
  metadata := .dict [(.str (py "action_name"), .str (py "look"))]

/-- Two sessions of one agent. -/
def sampleStore : Store FloatLit :=
  (Store.empty.append (sampleStored (py "e1") (py "s1") (py "a"))).append
    (sampleStored (py "e2") (py "s2") (py "a"))

/-- Every entry of the same time. -/
def sampleStamp : Datetime → ℚ := fun _ => 1

theorem query_exact_iff_sample :
    IsConjunction sampleStamp ⟨some (py "s1"), some (py "a"), none, none, some (.number 0)⟩
        (scanRecords sampleStamp 1 sampleStore)
        (query sampleStamp (indexRecords (scanRecords sampleStamp 1 sampleStore))
          ⟨some (py "s1"), some (py "a"), none, none, some (.number 0)⟩ none (some (py "DESC"))) ↔
      QueryExact sampleStamp ⟨some (py "s1"), some (py "a"), none, none, some (.number 0)⟩
        (scanRecords sampleStamp 1 sampleStore) :=
  query_exact_iff sampleStamp 1 (by decide) sampleStore (by decide +kernel) _
    (by rw [buildIndex, if_pos (by decide +kernel)]) _ _

/-- A session and an agent that nobody is: the records of the session come back. -/
theorem query_drops_filter :
    ¬IsConjunction sampleStamp ⟨some (py "s1"), some (py "b"), none, none, none⟩
      (scanRecords sampleStamp 1 sampleStore)
      (query sampleStamp (indexRecords (scanRecords sampleStamp 1 sampleStore))
        ⟨some (py "s1"), some (py "b"), none, none, none⟩ none none) := by
  rintro ⟨-, hall⟩
  have hmem : entryToIndexRecord sampleStamp (sampleStored (py "e1") (py "s1") (py "a"))
      (py "main") 1 ∈ query sampleStamp (indexRecords (scanRecords sampleStamp 1 sampleStore))
        ⟨some (py "s1"), some (py "b"), none, none, none⟩ none none := by decide +kernel
  have hagent := ((hall _).mp hmem).2.agent (py "b") rfl
  exact absurd hagent (by decide +kernel)

end Daryl
