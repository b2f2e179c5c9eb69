import Daryl.Dsm.Isolation

/-!
# Directories that hold whole records

Whatever is appended to whichever shard, and whether it is accepted or not, every
family directory holds whole lines, each the record of an entry, and every pin can be
moved on.  The chain may be broken: two ids can share a directory, each with its pin.
So an append to any shard of any such data directory is accepted iff its entry is
sealed, and what a reader sees then is one entry more.

## Main definitions

* `Tidy` — a directory of whole records, and the entries a reader gets of them.
* `Disk.Kept` — a data directory of such directories.
* `Disk.AppendsOne` — one entry more is read from a shard, and nothing else changes.
* `Disk.Holds` — an entry is one of those a directory holds.

## Main results

* `kept_diskAfter` — **appends keep the data directory.**
* `appendsOne_appendTo`, `not_appendsOne_appendTo` — **an accepted append adds one entry to
  its shard, and to no other.**
* `holds_run` — **what a directory holds stays in it.**
-/

namespace Daryl

open Py Json

variable {F : Type} [PyFloat F]

/-! ### One directory -/

/-- The directory holds whole lines alone, the records of what a reader gets. -/
def Tidy (fam : Family) (ds : List (Entry F)) : Prop :=
  ∃ segs, Laid fam segs ∧ Active fam segs ∧ Clean segs ∧
    List.Forall₂ (fun line d => ∃ shardId e, Recorded shardId e line ∧ e.readBack shardId = d)
      (linesOf segs) ds

/-- A pin that an append can move on: what it says can be written again. -/
structure Movable (file : PinFile F) : Prop where
  lastHash : Dumpable (getLastHash file)
  first : FirstEncodable file

theorem tidy_empty (name : PyStr) : Tidy (F := F) (Family.empty name) [] :=
  ⟨[], ⟨rfl, List.Pairwise.nil, by simp⟩, rfl, by simp [Clean], List.Forall₂.nil⟩

theorem movable_absent : Movable (.absent : PinFile F) := by
  refine ⟨dumpable_none, ?_⟩
  intro p hp
  cases hp

/-- The events of a tidy directory make what its records say. -/
theorem Tidy.events {fam : Family} {ds : List (Entry F)} (h : Tidy fam ds) :
    ∃ events, iterShardEvents fam = .ok events ∧
      List.Forall₂ (fun event d => entryFromEventData event = .ok d) events ds := by
  obtain ⟨segs, hlaid, -, hclean, hlines⟩ := h
  refine ⟨_, iterShardEvents_laid hlaid, ?_⟩
  rw [filterMap_texts (quiet_of_clean hclean), ← linesOf]
  clear hlaid hclean
  generalize linesOf segs = lines at hlines
  induction hlines with
  | nil => exact List.Forall₂.nil
  | cons hline _ ih =>
    obtain ⟨shardId, e, hrec, rfl⟩ := hline
    rw [List.filterMap_cons, hrec.event]
    exact List.Forall₂.cons hrec.entry ih

/-- A tidy directory holds what its records say. -/
theorem Tidy.chrono {fam : Family} {ds : List (Entry F)} (h : Tidy fam ds) :
    chronoEntries fam = .ok ds := by
  obtain ⟨events, hevents, hmade⟩ := h.events
  rw [chronoEntries, hevents]
  exact entriesOf_eq_ok hmade

/-- A tidy directory is read newest first. -/
theorem Tidy.read {fam : Family} {ds : List (Entry F)} (h : Tidy fam ds) (limit : ℕ) :
    readSegmented fam 0 limit = .ok (ds.reverse.take (max limit 1)) :=
  readSegmented_chrono h.chrono limit

/-- Records stand in a segment. -/
theorem Tidy.segmentFiles_ne_nil {fam : Family} {ds : List (Entry F)} (h : Tidy fam ds)
    (hds : ds ≠ []) : getSegmentFiles fam ≠ [] := by
  obtain ⟨segs, hlaid, -, -, hlines⟩ := h
  rw [getSegmentFiles_laid hlaid]
  intro hnil
  rw [List.map_eq_nil_iff.mp hnil] at hlines
  exact hds (List.forall₂_nil_left_iff.mp hlines)

/-- Counting an append leaves the records alone. -/
theorem Tidy.updateMetadata {fam : Family} {ds : List (Entry F)} (h : Tidy fam ds) (m n : ℕ) :
    Tidy (updateActiveSegmentMetadata fam m n) ds := by
  obtain ⟨segs, hlaid, hactive, hclean, hlines⟩ := h
  refine ⟨segs, ⟨hlaid.files, hlaid.increasing, hlaid.plain⟩, ?_, hclean, hlines⟩
  unfold Active updateActiveSegmentMetadata
  dsimp only
  unfold Active at hactive
  cases hmeta : fam.segmentMeta with
  | none =>
    rw [hmeta] at hactive
    exact hactive
  | some a =>
    rw [hmeta] at hactive
    exact hactive

/-- An entry that is sealed can be written, and its record is then the last. -/
theorem tidy_prepare {cfg : Config} {shardId : PyStr} {s : Shard F} {ds : List (Entry F)}
    (h : Tidy s.family ds) {e e' : Entry F} {line : PyStr}
    (hseal : sealEntry cfg.sha shardId e (getLastHash s.pin) = .ok (e', line)) :
    ∃ path fam, s.prepare cfg shardId e = (.ok ⟨path, e', line⟩, fam) ∧
      Tidy (fam.write path (lineBytes line)) (ds ++ [e'.readBack shardId]) := by
  obtain ⟨segs, hlaid, hactive, hclean, hlines⟩ := h
  obtain ⟨b, fam, segs', hprep, hlaid', hclean', ho, hkeep⟩ := prepare_laid hlaid hactive hclean e
  obtain ⟨-, hrec, -, -⟩ := sealEntry_eq_ok hseal
  have hopen := ho.write (lineBytes line) (f := .addLine line) fun _ => rfl
  refine ⟨segmentName fam.name b, fam, ?_, onSegment b (.addLine line) segs', ?_, hopen.active,
    clean_addLine hclean', ?_⟩
  · rw [hprep, hseal]
    rfl
  · exact write_line_laid hlaid' (hclean'.at b) ho.le hrec.plain
  · rw [linesOf_addLine hlaid'.increasing ho.le, hkeep]
    exact List.rel_append hlines (List.Forall₂.cons ⟨shardId, e', hrec, rfl⟩ List.Forall₂.nil)

/-- Another entry leaves the records alone. -/
theorem tidy_prepare_error {cfg : Config} {shardId : PyStr} {s : Shard F} {ds : List (Entry F)}
    (h : Tidy s.family ds) {e : Entry F} {err : PyError}
    (hseal : sealEntry cfg.sha shardId e (getLastHash s.pin) = .error err) :
    ∃ fam, s.prepare cfg shardId e = (.error err, fam) ∧ Tidy fam ds := by
  obtain ⟨segs, hlaid, hactive, hclean, hlines⟩ := h
  obtain ⟨b, fam, segs', hprep, hlaid', hclean', ho, hkeep⟩ := prepare_laid hlaid hactive hclean e
  refine ⟨fam, ?_, segs', hlaid', ho.active, hclean', hkeep ▸ hlines⟩
  rw [hprep, hseal]
  rfl

/-- **An append of an entry that is sealed adds its record.** -/
theorem tidy_append {cfg : Config} {shardId : PyStr} (now : Datetime) {s : Shard F}
    {ds : List (Entry F)} (h : Tidy s.family ds) (hpin : Movable s.pin) {e e' : Entry F}
    {line : PyStr} (hseal : sealEntry cfg.sha shardId e (getLastHash s.pin) = .ok (e', line)) :
    ∃ s', s.append cfg shardId now e = (.ok e', s') ∧
      Tidy s'.family (ds ++ [e'.readBack shardId]) ∧ Movable s'.pin := by
  obtain ⟨path, fam, hprep, htidy⟩ := tidy_prepare h hseal
  obtain ⟨hsealed, hrec, -, -⟩ := sealEntry_eq_ok hseal
  obtain ⟨p, hcommit, hhash, -, hfirst⟩ :=
    commit_sealed now hpin.first hsealed hrec.encodable_shardId
  refine ⟨⟨updateActiveSegmentMetadata (fam.write path (lineBytes line)) 1 (lineBytes line).length,
    .pin p⟩, ?_, htidy.updateMetadata _ _, ?_⟩
  · rw [Shard.append, hprep]
    dsimp only
    rw [hcommit]
  · obtain ⟨bs, -, hsha⟩ := hsealed
    refine ⟨?_, ?_⟩
    · have htip : getLastHash (.pin p) = .str (v1Prefix ++ hexdigest cfg.sha bs) := hhash.trans hsha
      rw [htip]
      exact dumpable_str (encodable_hash _ _)
    · intro q hq
      obtain rfl := Option.some.inj hq
      exact hfirst

/-- An append of another entry leaves the records and the pin alone. -/
theorem tidy_append_error {cfg : Config} {shardId : PyStr} (now : Datetime) {s : Shard F}
    {ds : List (Entry F)} (h : Tidy s.family ds) {e : Entry F} {err : PyError}
    (hseal : sealEntry cfg.sha shardId e (getLastHash s.pin) = .error err) :
    ∃ s', s.append cfg shardId now e = (.error err, s') ∧ Tidy s'.family ds ∧ s'.pin = s.pin := by
  obtain ⟨fam, hprep, htidy⟩ := tidy_prepare_error h hseal
  refine ⟨{ s with family := fam }, ?_, htidy, rfl⟩
  rw [Shard.append, hprep]

/-! ### The data directory -/

/-- Every directory is tidy and every pin movable, and there are no files beside. -/
structure Disk.Kept (d : Disk F) : Prop where
  families : ∀ name fam, Dict.get name d.families = some fam →
    ∃ ds : List (Entry F), Tidy fam ds
  pins : ∀ shardId file, Dict.get shardId d.pins = some file → Movable file
  monoliths : d.monoliths = []

theorem kept_empty : (Disk.empty F).Kept where
  families := by
    intro name fam h
    cases h
  pins := by
    intro shardId file h
    cases h
  monoliths := rfl

theorem Disk.Kept.family {d : Disk F} (h : d.Kept) (shardId : PyStr) :
    ∃ ds : List (Entry F), Tidy (d.shard shardId).family ds := by
  unfold Disk.shard
  cases hget : Dict.get (familyName shardId) d.families with
  | none => exact ⟨[], tidy_empty _⟩
  | some fam => exact h.families _ _ hget

theorem Disk.Kept.pin {d : Disk F} (h : d.Kept) (shardId : PyStr) :
    Movable (d.shard shardId).pin := by
  unfold Disk.shard
  cases hget : Dict.get shardId d.pins with
  | none => exact movable_absent
  | some file => exact h.pins _ _ hget

theorem kept_setShard {d : Disk F} (h : d.Kept) (shardId : PyStr) {s : Shard F}
    {ds : List (Entry F)} (hs : Tidy s.family ds) (hp : Movable s.pin) :
    (d.setShard shardId s).Kept where
  families := by
    intro name fam hget
    rw [Disk.setShard] at hget
    dsimp only at hget
    rw [Dict.get_set] at hget
    split_ifs at hget with hname
    · exact ⟨ds, Option.some.inj hget ▸ hs⟩
    · exact h.families _ _ hget
  pins := by
    intro other file hget
    rw [Disk.setShard] at hget
    dsimp only at hget
    rw [Dict.get_set] at hget
    split_ifs at hget with hid
    · exact Option.some.inj hget ▸ hp
    · exact h.pins _ _ hget
  monoliths := h.monoliths

/-- An append, accepted or not, keeps the data directory. -/
theorem kept_step (cfg : Config) {d : Disk F} (h : d.Kept) (i : Datetime × Entry F) :
    (d.step cfg i).Kept := by
  obtain ⟨ds, hds⟩ := h.family i.2.shardId
  cases hseal : sealEntry cfg.sha i.2.shardId i.2 (getLastHash (d.shard i.2.shardId).pin) with
  | ok r =>
    obtain ⟨s', happend, htidy, hpin⟩ := tidy_append i.1 hds (h.pin _) hseal
    have hstep : d.step cfg i = d.setShard i.2.shardId s' := by
      rw [Disk.step, Disk.append, Disk.appendTo, happend]
    exact hstep ▸ kept_setShard h _ htidy hpin
  | error err =>
    obtain ⟨s', happend, htidy, hpin⟩ := tidy_append_error i.1 hds hseal
    have hstep : d.step cfg i = d.setShard i.2.shardId s' := by
      rw [Disk.step, Disk.append, Disk.appendTo, happend]
    exact hstep ▸ kept_setShard h _ htidy (hpin ▸ h.pin _)

/-- **Any run of appends keeps the data directory.** -/
theorem kept_diskAfter (cfg : Config) (is : List (Datetime × Entry F)) : (diskAfter cfg is).Kept :=
  Run.run_keeps (P := Disk.Kept) (fun _ i h => kept_step cfg h i) kept_empty is

/-! ### One entry more -/

/-- One entry more is read from the shard, newest of all, and nothing else changes. -/
structure Disk.AppendsOne (d d' : Disk F) (shardId : PyStr) (e : Entry F) : Prop where
  entries : ∃ es : List (Entry F),
    (∀ limit, readSegmented (d.shard shardId).family 0 limit = .ok (es.take (max limit 1))) ∧
      ∀ limit, d'.read shardId 0 limit = .ok ((e :: es).take (max limit 1))
  shard : e.shard = .str shardId
  families : ∀ name, familyName shardId ≠ name → Dict.get name d'.families = Dict.get name d.families
  pins : ∀ id, shardId ≠ id → Dict.get id d'.pins = Dict.get id d.pins

/-- **An append of an entry that is sealed adds it to its shard.** -/
theorem appendsOne_appendTo {cfg : Config} {d : Disk F} (h : d.Kept) (shardId : PyStr)
    (now : Datetime) {e e' : Entry F} {line : PyStr}
    (hseal : sealEntry cfg.sha shardId e (getLastHash (d.shard shardId).pin) = .ok (e', line)) :
    ∃ d', d.appendTo cfg shardId now e = (.ok e', d') ∧
      d.AppendsOne d' shardId (e'.readBack shardId) := by
  obtain ⟨ds, hds⟩ := h.family shardId
  obtain ⟨s', happend, htidy, -⟩ := tidy_append now hds (h.pin _) hseal
  refine ⟨d.setShard shardId s', by rw [Disk.appendTo, happend], ⟨ds.reverse, hds.read, ?_⟩, rfl, ?_,
    ?_⟩
  · intro limit
    rw [read_setShard, htidy.read, List.reverse_append, List.reverse_singleton,
      List.singleton_append]
  · intro name hname
    exact Dict.get_set_ne hname _ _
  · intro id hid
    exact Dict.get_set_ne hid _ _

/-- What is read up to every limit is the list itself. -/
theorem eq_of_take_max {α : Type*} {xs ys : List α}
    (h : ∀ limit, xs.take (max limit 1) = ys.take (max limit 1)) : xs = ys := by
  have hlimit := h (max xs.length ys.length)
  rw [List.take_of_length_le (by omega), List.take_of_length_le (by omega)] at hlimit
  exact hlimit

/-- An append to a shard of another directory shows nothing new. -/
theorem not_appendsOne_of_family_ne {cfg : Config} {d : Disk F} (h : d.Kept) {s t : PyStr}
    (hfam : familyName t ≠ familyName s) (now : Datetime) (e d₀ : Entry F) :
    ¬d.AppendsOne (d.appendTo cfg t now e).2 s d₀ := by
  rintro ⟨⟨es, hbefore, hafter⟩, -, -, -⟩
  have hget : Dict.get (familyName s) (d.appendTo cfg t now e).2.families
      = Dict.get (familyName s) d.families := Dict.get_set_ne hfam _ _
  cases hs : Dict.get (familyName s) d.families with
  | some fam =>
    have hfamily : (d.shard s).family = fam := by rw [Disk.shard, hs, Option.getD_some]
    have hsame : es = d₀ :: es := by
      apply eq_of_take_max
      intro limit
      have hread := hafter limit
      rw [Disk.read, hget, hs] at hread
      dsimp only at hread
      have hold := hbefore limit
      rw [hfamily, hread] at hold
      exact (Except.ok.inj hold).symm
    exact absurd hsame.symm (List.cons_ne_self _ _)
  | none =>
    -- the shard has no directory, so at most a file could be read
    have hmono : (d.appendTo cfg t now e).2.monoliths = [] := h.monoliths
    have hread := hafter 1
    rw [Disk.read, hget, hs] at hread
    dsimp only at hread
    rw [hmono] at hread
    dsimp only [Dict.get] at hread
    split_ifs at hread
    cases hread

/-- An append to another shard of the same directory adds an entry that names it. -/
theorem not_appendsOne_of_family_eq {cfg : Config} {d : Disk F} (h : d.Kept) {s t : PyStr}
    (hst : t ≠ s) (hfam : familyName t = familyName s) (now : Datetime) (e d₀ : Entry F) :
    ¬d.AppendsOne (d.appendTo cfg t now e).2 s d₀ := by
  rintro ⟨⟨es, hbefore, hafter⟩, hshard, -, -⟩
  have hfamily : (d.shard t).family = (d.shard s).family := by rw [Disk.shard, Disk.shard, hfam]
  obtain ⟨ds, hds⟩ := h.family t
  have hes : ds.reverse = es := by
    apply eq_of_take_max
    intro limit
    have hold := hbefore limit
    rw [← hfamily, hds.read] at hold
    exact Except.ok.inj hold
  have hread : ∀ {s' : Shard F} {ds' : List (Entry F)}, (d.appendTo cfg t now e).2 = d.setShard t s' →
      Tidy s'.family ds' → ds'.reverse = d₀ :: es := by
    intro s' ds' hset htidy
    apply eq_of_take_max
    intro limit
    have hnew := hafter limit
    rw [hset] at hnew
    have hsame : (d.setShard t s').read s 0 limit = readSegmented s'.family 0 limit := by
      unfold Disk.read Disk.setShard
      dsimp only
      rw [← hfam, Dict.get_set_self]
    rw [hsame, htidy.read] at hnew
    exact Except.ok.inj hnew
  cases hseal : sealEntry cfg.sha t e (getLastHash (d.shard t).pin) with
  | ok r =>
    -- the newest entry of the directory names the other shard
    obtain ⟨s', happend, htidy, -⟩ := tidy_append now hds (h.pin _) hseal
    have hnew := hread (by rw [Disk.appendTo, happend]) htidy
    rw [List.reverse_append, List.reverse_singleton, List.singleton_append] at hnew
    have hfirst : d₀.shard = .str t := by
      rw [← (List.cons.inj hnew).1]
      rfl
    rw [hshard] at hfirst
    exact hst (PyVal.str.inj hfirst).symm
  | error err =>
    -- nothing was added
    obtain ⟨s', happend, htidy, -⟩ := tidy_append_error now hds hseal
    have hnew := hread (by rw [Disk.appendTo, happend]) htidy
    rw [hes] at hnew
    exact absurd hnew.symm (List.cons_ne_self _ _)

/-- **An append to another shard does not add an entry to this one.** -/
theorem not_appendsOne_appendTo {cfg : Config} {d : Disk F} (h : d.Kept) {s t : PyStr} (hst : t ≠ s)
    (now : Datetime) (e d₀ : Entry F) : ¬d.AppendsOne (d.appendTo cfg t now e).2 s d₀ := by
  by_cases hfam : familyName t = familyName s
  · exact not_appendsOne_of_family_eq h hst hfam now e d₀
  · exact not_appendsOne_of_family_ne h hfam now e d₀

/-! ### What stays to be read -/

/-- The entry is one of those the directory of the shard holds. -/
def Disk.Holds (d : Disk F) (shardId : PyStr) (e : Entry F) : Prop :=
  ∃ fam ds, Dict.get (familyName shardId) d.families = some fam ∧ Tidy fam ds ∧ e ∈ ds

/-- An entry that the directory holds is read. -/
theorem Disk.Holds.read {d : Disk F} {shardId : PyStr} {e : Entry F} (h : d.Holds shardId e) :
    ∃ n, ∀ limit ≥ n, ∃ es, d.read shardId 0 limit = .ok es ∧ e ∈ es := by
  obtain ⟨fam, ds, hget, htidy, hmem⟩ := h
  refine ⟨ds.length, fun limit hlimit => ⟨ds.reverse, ?_, List.mem_reverse.mpr hmem⟩⟩
  have hall : ds.reverse.take (max limit 1) = ds.reverse :=
    List.take_of_length_le (by rw [List.length_reverse]; omega)
  rw [Disk.read, hget]
  dsimp only
  rw [htidy.read, hall]

/-- An accepted append leaves its entry in the directory. -/
theorem holds_appendTo {cfg : Config} {d : Disk F} (h : d.Kept) (shardId : PyStr) (now : Datetime)
    {e e' : Entry F} {line : PyStr}
    (hseal : sealEntry cfg.sha shardId e (getLastHash (d.shard shardId).pin) = .ok (e', line)) :
    (d.appendTo cfg shardId now e).2.Holds shardId (e'.readBack shardId) := by
  obtain ⟨ds, hds⟩ := h.family shardId
  obtain ⟨s', happend, htidy, -⟩ := tidy_append now hds (h.pin _) hseal
  rw [Disk.appendTo, happend]
  exact ⟨s'.family, _, Dict.get_set_self _ _ _, htidy, by simp⟩

/-- An append, accepted or not, takes nothing out of a directory. -/
theorem holds_step (cfg : Config) {d : Disk F} (hd : d.Kept) {shardId : PyStr} {e : Entry F}
    (h : d.Holds shardId e) (i : Datetime × Entry F) : (d.step cfg i).Holds shardId e := by
  obtain ⟨fam, ds, hget, htidy, hmem⟩ := h
  by_cases hfam : familyName i.2.shardId = familyName shardId
  · -- the append is to the same directory, under this id or another
    have hsame : (d.shard i.2.shardId).family = fam := by
      rw [Disk.shard, hfam, hget, Option.getD_some]
    have hdir : Tidy (d.shard i.2.shardId).family ds := by rw [hsame]; exact htidy
    cases hseal : sealEntry cfg.sha i.2.shardId i.2 (getLastHash (d.shard i.2.shardId).pin) with
    | ok r =>
      obtain ⟨s', happend, htidy', -⟩ := tidy_append i.1 hdir (hd.pin _) hseal
      have hstep : d.step cfg i = d.setShard i.2.shardId s' := by
        rw [Disk.step, Disk.append, Disk.appendTo, happend]
      refine ⟨s'.family, _, ?_, htidy', List.mem_append_left _ hmem⟩
      rw [hstep, Disk.setShard, ← hfam]
      exact Dict.get_set_self _ _ _
    | error err =>
      obtain ⟨s', happend, htidy', -⟩ := tidy_append_error i.1 hdir hseal
      have hstep : d.step cfg i = d.setShard i.2.shardId s' := by
        rw [Disk.step, Disk.append, Disk.appendTo, happend]
      refine ⟨s'.family, ds, ?_, htidy', hmem⟩
      rw [hstep, Disk.setShard, ← hfam]
      exact Dict.get_set_self _ _ _
  · refine ⟨fam, ds, ?_, htidy, hmem⟩
    rw [← hget]
    exact Dict.get_set_ne hfam _ _

/-- **What a directory holds it holds after any run of appends.** -/
theorem holds_run (cfg : Config) {d : Disk F} (hd : d.Kept) {shardId : PyStr} {e : Entry F}
    (h : d.Holds shardId e) (is : List (Datetime × Entry F)) :
    (Run.run (Disk.step cfg) d is).Holds shardId e :=
  (Run.run_keeps (P := fun d : Disk F => d.Kept ∧ d.Holds shardId e)
    (fun _ i hd => ⟨kept_step cfg hd.1 i, holds_step cfg hd.1 hd.2 i⟩) ⟨hd, h⟩ is).2

end Daryl
