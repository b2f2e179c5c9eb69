import Daryl.Rr.Directory
import Daryl.Rr.Query

/-!
# `rr.helpers` and the session lists of `recall`

A read gets its index from disk, and builds one only when there is none or the one
on disk has no session.  Once an index with a session is on disk, every later read
loads it as it is.

## Main definitions

* `RrState`, `getPopulatedRRBuilder` — a data directory with the index on disk.
* `listSessions`, `currentSessionId` — the two reads, over an index.
* `rrStep` — an append, or a read.
* `Reflects` — the two reads tell of the entries of a storage.

## Main results

* `reflects_buildIndex` — a fresh index reflects the storage.
* `read_reflects` — **a read reflects what the data directory shows at the first read that
  found an entry.**
-/

namespace Daryl

open Py

/-- A data directory with what was appended to it, and the index on disk, if there is one. -/
structure RrState (F : Type) where
  appends : Appends F
  persisted : Option (RRIndex F)

/-- An empty data directory. -/
def RrState.empty (F : Type) : RrState F := ⟨Appends.empty F, none⟩

variable {F : Type} [PyFloat F]

/-- The index of what the data directory shows. -/
def RrState.index (stamp : Datetime → ℚ) (batchSize : ℕ) (st : RrState F) : Option (RRIndex F) :=
  (storeOf st.appends.disk).bind (buildIndex stamp batchSize)

/-- `build`: what it builds goes to disk; if it raises, nothing does. -/
def RrState.build (stamp : Datetime → ℚ) (batchSize : ℕ) (st : RrState F) :
    Option (RRIndex F) × RrState F :=
  match st.index stamp batchSize with
  | some idx => (some idx, { st with persisted := some idx })
  | none => (none, st)

/-- `ensure_index`. -/
def RrState.ensureIndex (stamp : Datetime → ℚ) (batchSize : ℕ) (st : RrState F) :
    Option (RRIndex F) × RrState F :=
  match st.persisted with
  | some idx => (some idx, st)
  | none => st.build stamp batchSize

/-- `get_populated_rr_builder`: an index without sessions is built again. -/
def getPopulatedRRBuilder (stamp : Datetime → ℚ) (batchSize : ℕ) (st : RrState F) :
    Option (RRIndex F) × RrState F :=
  match st.ensureIndex stamp batchSize with
  | (some idx, st') => if idx.sessionIndex = [] then st'.build stamp batchSize else (some idx, st')
  | (none, st') => (none, st')

/-- The session ids a list of sessions may show. -/
def shownSession (sid : PyStr) : Bool := !sid.isEmpty && sid != py "none"

/-- `list_sessions`, over the index. -/
def listSessions (idx : RRIndex F) (shardIds : Option (List PyStr)) : List PyStr :=
  match shardIds with
  | none => ((Dict.keys idx.sessionIndex).filter shownSession).insertionSort (· ≤ ·)
  | some ids =>
    ((ids.flatMap fun shardId =>
      ((Dict.get shardId idx.shardIndex).getD []).map IndexRecord.sessionId).filter
        shownSession).dedup.insertionSort (· ≤ ·)

/-- `max(records, key=...)`: the first of the latest records. -/
def latestRecord : List (IndexRecord F) → Option (IndexRecord F)
  | [] => none
  | r :: rs => some (rs.foldl (fun best r => if best.timestamp < r.timestamp then r else best) r)

/-- `current_session_id`, over the index. -/
def currentSessionId (idx : RRIndex F) : Option PyStr :=
  match latestRecord ((Dict.get (py "sessions") idx.shardIndex).getD []) with
  | some latest => if latest.sessionId = [] then none else some latest.sessionId
  | none => none

/-- A read. -/
inductive RrRead
  | listSessions (shardIds : Option (List PyStr))
  | currentSessionId

/-- A call on the data directory. -/
inductive RrEvent (F : Type)
  | append (now : Datetime) (e : {e : Entry F // Typed e})
  | read (r : RrRead)

/-- One call.  Every read begins with the index. -/
def rrStep (cfg : Config) (stamp : Datetime → ℚ) (batchSize : ℕ) (st : RrState F) :
    RrEvent F → RrState F
  | .append now e => { st with appends := st.appends.step cfg (now, e.val) }
  | .read _ => (getPopulatedRRBuilder stamp batchSize st).2

/-! ### What an index tells of a storage -/

/-- **The reads over the index tell of every entry of the storage, and of no others**: the lists of
sessions show its session, unless that is empty or `none`, and the current session is
that of the entry of the shard `sessions` with the latest time, the last of those. -/
structure Reflects (stamp : Datetime → ℚ) (s : Store F) (idx : RRIndex F) : Prop where
  all : ∀ shardId, ∀ e ∈ s.entries shardId, shownSession e.sessionId = true →
    e.sessionId ∈ listSessions idx none
  only : ∀ sid ∈ listSessions idx none, ∃ shardId, ∃ e ∈ s.entries shardId, e.sessionId = sid
  listed : ∀ shardIds, ∀ shardId ∈ shardIds, ∀ e ∈ s.entries shardId,
    shownSession e.sessionId = true → e.sessionId ∈ listSessions idx (some shardIds)
  current : ∀ before e after, s.entries (py "sessions") = before ++ e :: after →
    (∀ e' ∈ before, stamp e'.timestamp ≤ stamp e.timestamp) →
    (∀ e' ∈ after, stamp e'.timestamp < stamp e.timestamp) →
    currentSessionId idx = if e.sessionId = [] then none else some e.sessionId
  noCurrent : s.entries (py "sessions") = [] → currentSessionId idx = none

section

variable {stamp : Datetime → ℚ} {batchSize : ℕ}

omit [PyFloat F] in
/-- The first of the latest records wins. -/
theorem latestRecord_append {rs rs' : List (IndexRecord F)} {r : IndexRecord F}
    (hbefore : ∀ x ∈ rs, x.timestamp < r.timestamp)
    (hafter : ∀ x ∈ rs', x.timestamp ≤ r.timestamp) : latestRecord (rs ++ r :: rs') = some r := by
  have hstay : ∀ xs : List (IndexRecord F), (∀ x ∈ xs, x.timestamp ≤ r.timestamp) →
      xs.foldl (fun best x => if best.timestamp < x.timestamp then x else best) r = r := by
    intro xs
    induction xs with
    | nil => exact fun _ => rfl
    | cons x xs ih =>
      intro h
      rw [List.foldl_cons, if_neg (not_lt.mpr (h x List.mem_cons_self))]
      exact ih fun y hy => h y (List.mem_cons_of_mem _ hy)
  cases rs with
  | nil => exact congrArg some (hstay rs' hafter)
  | cons x rs =>
    have hlt : ∀ (xs : List (IndexRecord F)) (b : IndexRecord F), b.timestamp < r.timestamp →
        (∀ y ∈ xs, y.timestamp < r.timestamp) →
        (xs.foldl (fun best x => if best.timestamp < x.timestamp then x else best) b).timestamp
          < r.timestamp := by
      intro xs
      induction xs with
      | nil => exact fun b hb _ => hb
      | cons y xs ih =>
        intro b hb h
        rw [List.foldl_cons]
        apply ih
        · split_ifs
          · exact h y List.mem_cons_self
          · exact hb
        · exact fun z hz => h z (List.mem_cons_of_mem _ hz)
    have hx := hlt rs x (hbefore x List.mem_cons_self)
      fun y hy => hbefore y (List.mem_cons_of_mem _ hy)
    simp only [List.cons_append, latestRecord, List.foldl_append, List.foldl_cons, if_pos hx,
      hstay rs' hafter]

/-- Every entry of a shard has a record, with its session. -/
theorem exists_record (stamp : Datetime → ℚ) (hbatch : 0 < batchSize) {s : Store F}
    {shardId : PyStr} {e : StoredEntry F} (he : e ∈ s.entries shardId) :
    ∃ r ∈ scanRecords stamp batchSize s, r.shardId = shardId ∧ r.sessionId = e.sessionId := by
  obtain ⟨i, hi⟩ := List.mem_iff_getElem?.mp (List.mem_reverse.mpr he)
  have hmem : entryToIndexRecord stamp e shardId i
      ∈ (scanRecords stamp batchSize s).filter fun r => r.shardId = shardId := by
    rw [filter_scanRecords hbatch]
    exact List.mem_map.mpr ⟨(e, i), List.mem_zipIdx_iff_getElem?.mpr hi, rfl⟩
  exact ⟨_, (List.mem_filter.mp hmem).1, rfl, rfl⟩

theorem buildIndex_eq_some {s : Store F} {idx : RRIndex F}
    (h : buildIndex stamp batchSize s = some idx) :
    idx = indexRecords (scanRecords stamp batchSize s) := by
  unfold buildIndex at h
  dsimp only at h
  split_ifs at h
  exact (Option.some.inj h).symm

/-- **A fresh index reflects the storage.** -/
theorem reflects_buildIndex (hbatch : 0 < batchSize) {s : Store F} {idx : RRIndex F}
    (h : buildIndex stamp batchSize s = some idx) : Reflects stamp s idx := by
  rw [buildIndex_eq_some h]
  have hshard : ∀ shardId, (Dict.get shardId
      (indexRecords (scanRecords stamp batchSize s)).shardIndex).getD []
      = (s.entries shardId).reverse.zipIdx.map
          fun p => entryToIndexRecord stamp p.1 shardId p.2 := by
    intro shardId
    rw [← filter_scanRecords hbatch]
    exact Dict.get_group IndexRecord.shardId _ shardId
  refine ⟨?_, ?_, ?_, ?_, ?_⟩
  · intro shardId e he hshown
    obtain ⟨r, hr, -, hsession⟩ := exists_record stamp hbatch he
    have hne : e.sessionId ≠ [] := by
      rintro hnil
      simp [shownSession, hnil] at hshown
    have hkey : r.sessionKey = e.sessionId := by
      rw [IndexRecord.sessionKey, hsession, if_neg hne]
    simp only [listSessions, List.mem_insertionSort, List.mem_filter]
    exact ⟨Dict.mem_keys_group.mpr ⟨r, hr, hkey⟩, hshown⟩
  · intro sid hsid
    simp only [listSessions, List.mem_insertionSort, List.mem_filter] at hsid
    obtain ⟨r, hr, hkey⟩ := Dict.mem_keys_group.mp hsid.1
    obtain ⟨shardId, -, e, i, hget, rfl⟩ := (mem_scanRecords hbatch).mp hr
    refine ⟨shardId, e, List.mem_reverse.mp (List.mem_of_getElem? hget), ?_⟩
    -- `none` stands for an empty id alone, and is not shown
    by_cases hempty : e.sessionId = []
    · have hnone : sid = py "none" := by
        rw [← hkey]
        exact if_pos hempty
      rw [hnone] at hsid
      exact absurd hsid.2 (by decide)
    · rw [← hkey]
      exact (if_neg hempty).symm
  · intro shardIds shardId hshardId e he hshown
    obtain ⟨i, hi⟩ := List.mem_iff_getElem?.mp (List.mem_reverse.mpr he)
    simp only [listSessions, List.mem_insertionSort, List.mem_dedup, List.mem_filter,
      List.mem_flatMap]
    refine ⟨⟨shardId, hshardId, ?_⟩, hshown⟩
    rw [hshard, List.map_map]
    exact List.mem_map.mpr ⟨(e, i), List.mem_zipIdx_iff_getElem?.mpr hi, rfl⟩
  · intro before e after hsplit hbefore hafter
    have hrecords : (s.entries (py "sessions")).reverse.zipIdx
        = after.reverse.zipIdx ++ (e, after.length) ::
            before.reverse.zipIdx (after.length + 1) := by
      rw [hsplit, List.reverse_append, List.reverse_cons, List.append_assoc, List.zipIdx_append]
      simp
    have hlatest : latestRecord ((Dict.get (py "sessions")
        (indexRecords (scanRecords stamp batchSize s)).shardIndex).getD [])
        = some (entryToIndexRecord stamp e (py "sessions") after.length) := by
      rw [hshard, hrecords, List.map_append, List.map_cons]
      apply latestRecord_append
      · intro r hr
        obtain ⟨⟨e', i⟩, hp, rfl⟩ := List.mem_map.mp hr
        exact hafter e' (List.mem_reverse.mp (List.fst_mem_of_mem_zipIdx hp))
      · intro r hr
        obtain ⟨⟨e', i⟩, hp, rfl⟩ := List.mem_map.mp hr
        exact hbefore e' (List.mem_reverse.mp (List.fst_mem_of_mem_zipIdx hp))
    rw [currentSessionId, hlatest]
    rfl
  · intro hnil
    rw [currentSessionId, hshard, hnil]
    rfl

end

/-! ### Runs -/

/-- A build finds an entry here. -/
def Populated (stamp : Datetime → ℚ) (batchSize : ℕ) (st : RrState F) : Prop :=
  ∃ idx, st.index stamp batchSize = some idx ∧ idx.sessionIndex ≠ []

/-- The state after a run from an empty data directory. -/
def rrAfter (cfg : Config) (stamp : Datetime → ℚ) (batchSize : ℕ) (is : List (RrEvent F)) :
    RrState F :=
  Run.run (rrStep cfg stamp batchSize) (RrState.empty F) is

/-- No read of the run found an entry. -/
def NonePopulated (cfg : Config) (stamp : Datetime → ℚ) (batchSize : ℕ) (is : List (RrEvent F)) :
    Prop :=
  ∀ pre r post, is = pre ++ .read r :: post →
    ¬Populated stamp batchSize (rrAfter cfg stamp batchSize pre)

/-- The run passed through `pre` to its first read that found an entry. -/
def FirstPopulated (cfg : Config) (stamp : Datetime → ℚ) (batchSize : ℕ)
    (is pre : List (RrEvent F)) : Prop :=
  ∃ r post, is = pre ++ .read r :: post ∧ NonePopulated cfg stamp batchSize pre ∧
    Populated stamp batchSize (rrAfter cfg stamp batchSize pre)

/-- The shards that are appended to. -/
def shardIds (is : List (RrEvent F)) : List PyStr :=
  is.filterMap fun i => match i with
    | .append _ e => some e.val.shardId
    | .read _ => none

omit [PyFloat F] in
theorem shardIds_append (is js : List (RrEvent F)) :
    shardIds (is ++ js) = shardIds is ++ shardIds js := List.filterMap_append

section

variable {cfg : Config} {stamp : Datetime → ℚ} {batchSize : ℕ} {st : RrState F}

theorem rrAfter_concat (is : List (RrEvent F)) (i : RrEvent F) :
    rrAfter cfg stamp batchSize (is ++ [i])
      = rrStep cfg stamp batchSize (rrAfter cfg stamp batchSize is) i := by
  rw [rrAfter, Run.run_append]
  rfl

/-- An index with a session is loaded as it is. -/
theorem getPopulatedRRBuilder_loaded {idx : RRIndex F} (h : st.persisted = some idx)
    (hne : idx.sessionIndex ≠ []) :
    getPopulatedRRBuilder stamp batchSize st = (some idx, st) := by
  simp only [getPopulatedRRBuilder, RrState.ensureIndex, h, if_neg hne]

/-- Without one, the read builds. -/
theorem getPopulatedRRBuilder_built (h : ∀ idx, st.persisted = some idx → idx.sessionIndex = []) :
    getPopulatedRRBuilder stamp batchSize st = st.build stamp batchSize := by
  unfold getPopulatedRRBuilder RrState.ensureIndex
  cases hpersisted : st.persisted with
  | some idx => simp only [h idx hpersisted, if_true]
  | none =>
    unfold RrState.build
    cases hbuild : st.index stamp batchSize with
    | none => rfl
    | some idx =>
      -- an index that comes out empty is built a second time, to the same
      have hagain : RrState.index stamp batchSize { st with persisted := some idx } = some idx := hbuild
      simp only [hagain]
      split_ifs
      · rfl
      · rfl

/-- A read appends nothing. -/
theorem appends_getPopulatedRRBuilder :
    (getPopulatedRRBuilder stamp batchSize st).2.appends = st.appends := by
  have hbuild : ∀ st : RrState F, (st.build stamp batchSize).2.appends = st.appends := by
    intro st
    unfold RrState.build
    split <;> rfl
  by_cases h : ∀ idx, st.persisted = some idx → idx.sessionIndex = []
  · rw [getPopulatedRRBuilder_built h, hbuild]
  · simp only [not_forall] at h
    obtain ⟨idx, hidx, hne⟩ := h
    rw [getPopulatedRRBuilder_loaded hidx hne]

/-- What a run leaves on disk: no index with a session, or the one that its first
populated read built. -/
inductive Provenance (cfg : Config) (stamp : Datetime → ℚ) (batchSize : ℕ)
    (is : List (RrEvent F)) : Prop
  | unbuilt (hnone : NonePopulated cfg stamp batchSize is)
      (hempty : ∀ idx, (rrAfter cfg stamp batchSize is).persisted = some idx →
        idx.sessionIndex = [])
  | built (pre : List (RrEvent F)) (hfirst : FirstPopulated cfg stamp batchSize is pre)
      (hbuilt : (rrAfter cfg stamp batchSize is).persisted
        = (rrAfter cfg stamp batchSize pre).index stamp batchSize)

theorem NonePopulated.concat {is : List (RrEvent F)} {i : RrEvent F}
    (h : NonePopulated cfg stamp batchSize is)
    (hi : ∀ r, i = .read r → ¬Populated stamp batchSize (rrAfter cfg stamp batchSize is)) :
    NonePopulated cfg stamp batchSize (is ++ [i]) := by
  intro pre r post heq
  rcases List.eq_nil_or_concat post with rfl | ⟨post', last, rfl⟩
  · obtain ⟨rfl, hlast⟩ := List.append_inj' heq rfl
    exact hi r (List.cons.inj hlast).1
  · rw [List.concat_eq_append, ← List.cons_append, ← List.append_assoc] at heq
    exact h pre r post' (List.append_inj' heq rfl).1

theorem FirstPopulated.concat {is pre : List (RrEvent F)}
    (h : FirstPopulated cfg stamp batchSize is pre) (i : RrEvent F) :
    FirstPopulated cfg stamp batchSize (is ++ [i]) pre := by
  obtain ⟨r, post, rfl, hnone, hpop⟩ := h
  exact ⟨r, post ++ [i], by simp, hnone, hpop⟩

/-- One call keeps account of where the index on disk comes from. -/
theorem Provenance.concat {is : List (RrEvent F)} (h : Provenance cfg stamp batchSize is)
    (i : RrEvent F) : Provenance cfg stamp batchSize (is ++ [i]) := by
  cases i with
  | append now e =>
    rcases h with ⟨hnone, hempty⟩ | ⟨pre, hfirst, hbuilt⟩
    · apply Provenance.unbuilt (hnone.concat fun r hr => by cases hr)
      rw [rrAfter_concat]
      exact hempty
    · apply Provenance.built pre (hfirst.concat _)
      rw [rrAfter_concat]
      exact hbuilt
  | read r =>
    rcases h with ⟨hnone, hempty⟩ | ⟨pre, hfirst, hbuilt⟩
    · have hstep : rrAfter cfg stamp batchSize (is ++ [.read r])
          = ((rrAfter cfg stamp batchSize is).build stamp batchSize).2 := by
        rw [rrAfter_concat, rrStep, getPopulatedRRBuilder_built hempty]
      by_cases hpop : Populated stamp batchSize (rrAfter cfg stamp batchSize is)
      · -- this read is the first to find an entry
        apply Provenance.built is ⟨r, [], rfl, hnone, hpop⟩
        obtain ⟨idx, hidx, -⟩ := hpop
        rw [hstep, RrState.build, hidx]
      · apply Provenance.unbuilt (hnone.concat fun _ _ => hpop)
        intro idx hidx
        rw [hstep, RrState.build] at hidx
        cases hbuild : (rrAfter cfg stamp batchSize is).index stamp batchSize with
        | none =>
          rw [hbuild] at hidx
          exact hempty idx hidx
        | some idx' =>
          rw [hbuild] at hidx
          obtain rfl : idx' = idx := Option.some.inj hidx
          by_contra hne
          exact hpop ⟨idx', hbuild, hne⟩
    · apply Provenance.built pre (hfirst.concat _)
      obtain ⟨_, _, _, _, idx, hidx, hne⟩ := hfirst
      rw [hidx] at hbuilt
      rw [rrAfter_concat, rrStep, getPopulatedRRBuilder_loaded hbuilt hne, hbuilt, hidx]

theorem provenance (is : List (RrEvent F)) : Provenance cfg stamp batchSize is := by
  induction is using List.reverseRecOn with
  | nil =>
    apply Provenance.unbuilt
    · intro pre r post h
      exact absurd h (by simp)
    · intro idx h
      cases h
  | append_singleton is i ih => exact ih.concat i

/-- **A run of appends and reads keeps what is kept along appends**, to ids with directories of their
own. -/
theorem faithful_rrAfter (is : List (RrEvent F)) (h : Separate (shardIds is)) :
    Faithful (rrAfter cfg stamp batchSize is).appends ∧
      (rrAfter cfg stamp batchSize is).appends.tried = (shardIds is).reverse := by
  induction is using List.reverseRecOn with
  | nil => exact ⟨faithful_empty, rfl⟩
  | append_singleton is i ih =>
    rw [shardIds_append] at h ⊢
    obtain ⟨hfaithful, htried⟩ := ih (h.subset (List.subset_append_left _ _))
    rw [rrAfter_concat]
    cases i with
    | append now e =>
      have hsep : Separate (e.val.shardId :: (rrAfter cfg stamp batchSize is).appends.tried) := by
        refine h.subset fun id hid => ?_
        rw [htried] at hid
        simpa [shardIds, or_comm] using hid
      refine ⟨hfaithful.step cfg e.property hsep, ?_⟩
      change e.val.shardId :: (rrAfter cfg stamp batchSize is).appends.tried = _
      rw [htried, List.reverse_append]
      rfl
    | read r =>
      rw [rrStep, appends_getPopulatedRRBuilder]
      exact ⟨hfaithful, by rw [htried]; exact congrArg _ (List.append_nil _).symm⟩

end

/-- **From an empty data directory, after any run of appends and reads, a read is answered from what
was accepted up to the first read that found an entry: that read, or this one.**  The data directory
shows just these entries; the read raises iff their build does, and else reflects them. -/
theorem read_reflects (cfg : Config) (stamp : Datetime → ℚ) (batchSize : ℕ) (hbatch : 0 < batchSize)
    (is : List (RrEvent F)) (hids : Separate (shardIds is)) :
    ∃ pre, (FirstPopulated cfg stamp batchSize is pre ∨
        pre = is ∧ NonePopulated cfg stamp batchSize is) ∧
      ∃ s, ShowsStore (rrAfter cfg stamp batchSize pre).appends.disk s ∧
        (∀ shardId, List.Forall₂ StoredAs ((rrAfter cfg stamp batchSize pre).appends.of shardId)
          (s.entries shardId)) ∧
        (getPopulatedRRBuilder stamp batchSize (rrAfter cfg stamp batchSize is)).1
          = buildIndex stamp batchSize s ∧
        ∀ idx, (getPopulatedRRBuilder stamp batchSize (rrAfter cfg stamp batchSize is)).1 = some idx →
          Reflects stamp s idx := by
  -- the run up to a read is answered from what the directory shows there
  have hshown : ∀ pre, pre <+: is →
      (getPopulatedRRBuilder stamp batchSize (rrAfter cfg stamp batchSize is)).1
        = (rrAfter cfg stamp batchSize pre).index stamp batchSize →
      ∃ s, ShowsStore (rrAfter cfg stamp batchSize pre).appends.disk s ∧
        (∀ shardId, List.Forall₂ StoredAs ((rrAfter cfg stamp batchSize pre).appends.of shardId)
          (s.entries shardId)) ∧
        (getPopulatedRRBuilder stamp batchSize (rrAfter cfg stamp batchSize is)).1
          = buildIndex stamp batchSize s ∧
        ∀ idx, (getPopulatedRRBuilder stamp batchSize (rrAfter cfg stamp batchSize is)).1 = some idx →
          Reflects stamp s idx := by
    rintro pre ⟨post, rfl⟩ hread
    have hsep : Separate (shardIds pre) :=
      hids.subset (shardIds_append pre post ▸ List.subset_append_left _ _)
    obtain ⟨s, hs, hshows, hentries⟩ := exists_storeOf (faithful_rrAfter pre hsep).1
    rw [RrState.index, hs, Option.bind_some] at hread
    exact ⟨s, hshows, hentries, hread, fun idx hidx => reflects_buildIndex hbatch (hread ▸ hidx)⟩
  have horigin : Provenance cfg stamp batchSize is := provenance is
  rcases horigin with ⟨hnone, hempty⟩ | ⟨pre, hfirst, hbuilt⟩
  · refine ⟨is, .inr ⟨rfl, hnone⟩, hshown is List.prefix_rfl ?_⟩
    rw [getPopulatedRRBuilder_built hempty, RrState.build]
    cases (rrAfter cfg stamp batchSize is).index stamp batchSize with
    | none => rfl
    | some idx => rfl
  · have hpre : pre <+: is := by
      obtain ⟨r, post, rfl, -⟩ := hfirst
      exact List.prefix_append _ _
    obtain ⟨idx, hidx, hne⟩ : Populated stamp batchSize (rrAfter cfg stamp batchSize pre) := by
      obtain ⟨_, _, _, _, hpop⟩ := hfirst
      exact hpop
    refine ⟨pre, .inl hfirst, hshown pre hpre ?_⟩
    rw [getPopulatedRRBuilder_loaded (hbuilt.trans hidx) hne, hidx]

/-! ### A read that is stale -/

/-- An entry of a session. -/
def sessionEntry (sid : PyStr) : {e : Entry FloatLit // Typed e} :=
  ⟨{ blankEntry FloatLit (py "sessions") with sessionId := .str sid }, ⟨_, rfl⟩, ⟨_, rfl⟩, ⟨_, rfl⟩,
    ⟨_, rfl⟩⟩

theorem dumps_sessionEntry {sid : PyStr} (h : Encodable sid) : (sessionEntry sid).val.Dumps := by
  have hnil : Dumpable (.str [] : PyVal FloatLit) := dumpable_str encodable_nil
  exact ⟨hnil.writable, dumpable_str h, hnil, ⟨⟨_, _, rfl, rfl⟩, trivial⟩, hnil, hnil.writable⟩

theorem shardId_sessionEntry (sid : PyStr) : (sessionEntry sid).val.shardId = py "sessions" := by
  have hblank : (blankEntry FloatLit (py "sessions")).shardId = py "sessions" :=
    shardId_blankEntry (by decide)
  exact hblank

theorem separate_sessions : Separate [py "sessions", py "sessions"] where
  plain := by
    have hplain : PlainShard (py "sessions") :=
      ⟨⟨⟨by decide, by decide, by decide, by decide⟩, by decide, .inl (by decide)⟩, by decide⟩
    simpa using hplain
  apart := by simp

/-- An append, a read, and an append of another session. -/
def sampleReads : List (RrEvent FloatLit) :=
  [.append sampleTime (sessionEntry (py "s1")), .read (.listSessions none),
    .append sampleTime (sessionEntry (py "s2"))]

theorem shardIds_sampleReads : shardIds sampleReads = [py "sessions", py "sessions"] := by
  simp only [shardIds, sampleReads, List.filterMap_cons, List.filterMap_nil, shardId_sessionEntry]

theorem read_reflects_sample :
    ∃ pre, (FirstPopulated sampleConfig sampleStamp 1 sampleReads pre ∨
        pre = sampleReads ∧ NonePopulated sampleConfig sampleStamp 1 sampleReads) ∧
      ∃ s, ShowsStore (rrAfter sampleConfig sampleStamp 1 pre).appends.disk s ∧
        (∀ shardId, List.Forall₂ StoredAs ((rrAfter sampleConfig sampleStamp 1 pre).appends.of shardId)
          (s.entries shardId)) ∧
        (getPopulatedRRBuilder sampleStamp 1 (rrAfter sampleConfig sampleStamp 1 sampleReads)).1
          = buildIndex sampleStamp 1 s ∧
        ∀ idx, (getPopulatedRRBuilder sampleStamp 1
            (rrAfter sampleConfig sampleStamp 1 sampleReads)).1 = some idx →
          Reflects sampleStamp s idx :=
  read_reflects sampleConfig sampleStamp 1 (by decide) sampleReads
    (shardIds_sampleReads ▸ separate_sessions)

/-- The first append. -/
def firstAppend : List (RrEvent FloatLit) := [.append sampleTime (sessionEntry (py "s1"))]

theorem shardIds_firstAppend : shardIds firstAppend = [py "sessions"] := by
  simp only [shardIds, firstAppend, List.filterMap_cons, List.filterMap_nil, shardId_sessionEntry]

theorem faithful_firstAppend :
    Faithful (rrAfter sampleConfig sampleStamp 1 firstAppend).appends ∧
      (rrAfter sampleConfig sampleStamp 1 firstAppend).appends.tried = [py "sessions"] := by
  have hsep : Separate (shardIds firstAppend) :=
    separate_sessions.subset (by rw [shardIds_firstAppend]; simp)
  obtain ⟨hfaithful, htried⟩ := faithful_rrAfter firstAppend hsep
  exact ⟨hfaithful, htried.trans (congrArg List.reverse shardIds_firstAppend)⟩

/-- After the first append the data directory shows its entry alone. -/
theorem exists_firstIndex : ∃ idx,
    (rrAfter sampleConfig sampleStamp 1 firstAppend).index sampleStamp 1 = some idx ∧
      py "s1" ∈ listSessions idx none ∧ py "s2" ∉ listSessions idx none := by
  obtain ⟨e, haccepted, hsid, hmetadata⟩ :
      ∃ e, (rrAfter sampleConfig sampleStamp 1 firstAppend).appends.accepted = [(py "sessions", e)] ∧
        e.sessionId = .str (py "s1") ∧ e.metadata = .dict [] :=
    faithful_empty.accepts sampleConfig (i := (sampleTime, (sessionEntry (py "s1")).val))
      (separate_sessions.subset (by simp [shardId_sessionEntry, Appends.empty]))
      (dumps_sessionEntry (by decide))
  obtain ⟨s, hs, -, hentries⟩ := exists_storeOf faithful_firstAppend.1
  -- every entry that is shown is that of the first append
  have honly : ∀ shardId, ∀ y ∈ s.entries shardId,
      y.sessionId = py "s1" ∧ y.metadata = readBack (.dict []) := by
    intro shardId y hy
    obtain ⟨e', he', hstored⟩ := Pointwise.exists_of_mem_right (hentries shardId) hy
    rw [Appends.mem_of, haccepted, List.mem_singleton] at he'
    obtain ⟨rfl, rfl⟩ := Prod.mk.inj he'
    exact ⟨PyVal.str.inj (hstored.sessionId.symm.trans hsid), hmetadata ▸ hstored.metadata.symm⟩
  have hbuild : buildIndex sampleStamp 1 s = some (indexRecords (scanRecords sampleStamp 1 s)) := by
    refine if_pos (List.all_eq_true.mpr fun r hr => ?_)
    obtain ⟨shardId, -, y, i, hget, rfl⟩ := (mem_scanRecords (by decide)).mp hr
    have hmeta := (honly shardId y (List.mem_reverse.mp (List.mem_of_getElem? hget))).2
    unfold IndexRecord.hashable entryToIndexRecord StoredEntry.meta StoredEntry.metadataItems
    rw [hmeta]
    rfl
  have hreflects := reflects_buildIndex (by decide) hbuild
  refine ⟨_, by rw [RrState.index, hs, Option.bind_some, hbuild], ?_, ?_⟩
  · obtain ⟨y, hy, hstored⟩ := Pointwise.exists_of_mem_left (hentries (py "sessions"))
      (Appends.mem_of.mpr (haccepted ▸ List.mem_singleton_self _))
    have hall := hreflects.all _ y hy
    rw [(honly _ y hy).1] at hall
    exact hall (by decide)
  · intro hmem
    obtain ⟨shardId, y, hy, hsession⟩ := hreflects.only _ hmem
    exact absurd ((honly _ y hy).1.symm.trans hsession) (by decide)

/-- **The session of the second append is not shown**, though its entry was accepted. -/
theorem read_stale :
    (∃ e ∈ (rrAfter sampleConfig sampleStamp 1 sampleReads).appends.of (py "sessions"),
        e.sessionId = .str (py "s2")) ∧
      ∃ idx, (getPopulatedRRBuilder sampleStamp 1
          (rrAfter sampleConfig sampleStamp 1 sampleReads)).1 = some idx ∧
        py "s2" ∉ listSessions idx none := by
  obtain ⟨idx, hidx, hfirst, hsecond⟩ := exists_firstIndex
  have hne : idx.sessionIndex ≠ [] := by
    intro hnil
    simp [listSessions, hnil] at hfirst
  have hnone : ∀ idx', (rrAfter sampleConfig sampleStamp 1 firstAppend).persisted = some idx' →
      idx'.sessionIndex = [] := by
    intro idx' h
    cases h
  have hread : rrStep sampleConfig sampleStamp 1 (rrAfter sampleConfig sampleStamp 1 firstAppend)
      (.read (.listSessions none))
      = ⟨(rrAfter sampleConfig sampleStamp 1 firstAppend).appends, some idx⟩ := by
    rw [rrStep, getPopulatedRRBuilder_built hnone, RrState.build, hidx]
  -- the read leaves its index behind, and the second append does not touch it
  have hlast : rrAfter sampleConfig sampleStamp 1 sampleReads
      = ⟨(rrAfter sampleConfig sampleStamp 1 firstAppend).appends.step sampleConfig
          (sampleTime, (sessionEntry (py "s2")).val), some idx⟩ := by
    change rrStep sampleConfig sampleStamp 1 (rrStep sampleConfig sampleStamp 1
      (rrAfter sampleConfig sampleStamp 1 firstAppend) (.read (.listSessions none)))
      (.append sampleTime (sessionEntry (py "s2"))) = _
    rw [hread]
    rfl
  obtain ⟨hfaithful, htried⟩ := faithful_firstAppend
  obtain ⟨e, haccepted, hsid, -⟩ := hfaithful.accepts sampleConfig
    (i := (sampleTime, (sessionEntry (py "s2")).val))
    (by rw [htried]; exact separate_sessions.subset (by simp [shardId_sessionEntry]))
    (dumps_sessionEntry (by decide))
  rw [shardId_sessionEntry] at haccepted
  rw [hlast]
  refine ⟨⟨e, Appends.mem_of.mpr ?_, hsid⟩, idx, ?_, hsecond⟩
  · dsimp only
    rw [haccepted]
    exact List.mem_append_right _ (List.mem_singleton_self _)
  · rw [getPopulatedRRBuilder_loaded rfl hne]

end Daryl
