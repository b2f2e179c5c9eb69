import Daryl.Dsm.Disk
import Daryl.Dsm.History
import Daryl.Lib.Run

/-!
# Shards beside each other

An append to one shard leaves another shard alone, as long as the two have their own
family directories.  The family name leaves out every `shard_` of the id, so `a` and
`shard_a` share a directory, though each has its own pin; and the directory of a family
may stand where the reader of a shard without a directory looks for a file.

## Main definitions

* `PlainId` — a shard id that names one file, and encodes.
* `Isolated` — what is seen of a shard does not depend on the appends to another.

## Main results

* `isolated_iff` — **two shards are isolated iff their directories are apart and that of
  the other is not the file of the one.**
-/

namespace Daryl

open Py Json

variable {F : Type} [PyFloat F]

/-- A shard id that names a file and a directory of their own. -/
structure PlainId (shardId : PyStr) : Prop where
  ne : shardId ≠ []
  encodable : Encodable shardId
  separator : 47 ∉ shardId
  family : familyName shardId ∉ [[], py ".", py ".."]

/-- A shard id that is a name. -/
abbrev ShardName := {shardId : PyStr // PlainId shardId}

/-- The step of a run of appends, to whichever shard. -/
def Disk.step (cfg : Config) (d : Disk F) (i : Datetime × Entry F) : Disk F :=
  (d.append cfg i.1 i.2).2

/-- The data directory after a run of appends. -/
def diskAfter (cfg : Config) (is : List (Datetime × Entry F)) : Disk F :=
  Run.run (Disk.step cfg) (Disk.empty F) is

/-- What reading and verifying show of a shard is the same. -/
def SameShard (sha : Sha256) (s : PyStr) (d d' : Disk F) : Prop :=
  (∀ offset limit, d.read s offset limit = d'.read s offset limit) ∧
    d.verify sha s = d'.verify sha s

variable (F) in
/-- **What is seen of a shard after appends to it and to another is what would be seen
without those to the other.** -/
def Isolated (cfg : Config) (s t : PyStr) : Prop :=
  ∀ is : List (Datetime × Entry F), (∀ i ∈ is, i.2.shardId = s ∨ i.2.shardId = t) →
    SameShard cfg.sha s (diskAfter cfg is) (diskAfter cfg (is.filter fun i => i.2.shardId = s))

/-! ### Apart -/

/-- What the reader and the verifier look at. -/
def Disk.look (s : PyStr) (d : Disk F) : Shard F × Option Family × Option (List Byte) × Bool :=
  (d.shard s, Dict.get (familyName s) d.families, Dict.get s d.monoliths,
    decide (s ++ jsonl ∈ Dict.keys d.families))

theorem sameShard_of_look {sha : Sha256} {s : PyStr} {d d' : Disk F}
    (h : d.look s = d'.look s) : SameShard sha s d d' := by
  simp only [Disk.look, Prod.mk.injEq, decide_eq_decide] at h
  obtain ⟨hshard, hfam, hmono, hdir⟩ := h
  refine ⟨?_, ?_⟩
  · intro offset limit
    unfold Disk.read
    rw [hfam, hmono]
    simp only [hdir]
  · unfold Disk.verify
    rw [hshard]

/-- An append to a shard of another family leaves what is looked at alone. -/
theorem look_step_ne (cfg : Config) {s : PyStr} (d : Disk F) {i : Datetime × Entry F}
    (hid : i.2.shardId ≠ s) (hfam : familyName i.2.shardId ≠ familyName s)
    (hdir : familyName i.2.shardId ≠ s ++ jsonl) : (d.step cfg i).look s = d.look s := by
  have hkeys : s ++ jsonl ∈ Dict.keys (d.step cfg i).families ↔ s ++ jsonl ∈ Dict.keys d.families := by
    refine Dict.mem_keys_set.trans ⟨?_, Or.inr⟩
    rintro (h | h)
    · exact absurd h.symm hdir
    · exact h
  simp only [Disk.look, Prod.mk.injEq, decide_eq_decide]
  exact ⟨Disk.shard_setShard_ne d _ hid hfam, Dict.get_set_ne hfam _ _, rfl, hkeys⟩

/-- An append to the shard itself depends on what is looked at alone. -/
theorem look_step_self (cfg : Config) {s : PyStr} {d d' : Disk F} {i : Datetime × Entry F}
    (hid : i.2.shardId = s) (h : d.look s = d'.look s) :
    (d.step cfg i).look s = (d'.step cfg i).look s := by
  subst hid
  simp only [Disk.look, Prod.mk.injEq, decide_eq_decide] at h
  obtain ⟨hshard, hfam, hmono, hdir⟩ := h
  have hkeys : i.2.shardId ++ jsonl ∈ Dict.keys (d.step cfg i).families ↔
      i.2.shardId ++ jsonl ∈ Dict.keys (d'.step cfg i).families := by
    refine Dict.mem_keys_set.trans (Iff.trans ?_ Dict.mem_keys_set.symm)
    rw [hdir]
  simp only [Disk.look, Prod.mk.injEq, decide_eq_decide]
  refine ⟨?_, ?_, hmono, hkeys⟩
  · unfold Disk.step Disk.append Disk.appendTo
    dsimp only
    rw [Disk.shard_setShard, Disk.shard_setShard, hshard]
  · unfold Disk.step Disk.append Disk.appendTo Disk.setShard
    dsimp only
    rw [Dict.get_set_self, Dict.get_set_self, hshard]

/-- **Shards with directories apart are isolated.** -/
theorem isolated_of_ne (cfg : Config) {s t : PyStr} (hst : s ≠ t)
    (hfam : familyName s ≠ familyName t) (hdir : familyName t ≠ s ++ jsonl) : Isolated F cfg s t := by
  intro is his
  apply sameShard_of_look
  apply Run.run_filter
  · intro d i hi hp
    have hid : i.2.shardId = t := (his i hi).resolve_left (of_decide_eq_false hp)
    apply look_step_ne
    · exact hid ▸ hst.symm
    · exact hid ▸ hfam.symm
    · exact hid ▸ hdir
  · intro d d' i _ hp h
    exact look_step_self cfg (of_decide_eq_true hp) h
  · rfl

/-! ### Together -/

/-- An entry of texts that says nothing. -/
def blankEntry (F : Type) (shardId : PyStr) : Entry F where
  id := .str []
  timestamp := sampleTime
  sessionId := .str []
  source := .str []
  content := .str []
  shard := .str shardId
  hash := .none
  prevHash := .none
  metadata := .dict []
  version := .str []

omit [PyFloat F] in
theorem shardId_blankEntry {shardId : PyStr} (h : shardId ≠ []) :
    (blankEntry F shardId).shardId = shardId := if_neg h

/-- The blank entry is accepted by a shard nothing was appended to, and read back. -/
theorem read_blankEntry (cfg : Config) {t : PyStr} (h : Encodable t) (family : PyStr)
    (now : Datetime) : ∃ e : Entry F,
      readSegmented ((Shard.empty F family).append cfg t now (blankEntry F t)).2.family 0 1
        = .ok [e] := by
  have hnil : Dumpable (.str [] : PyVal F) := dumpable_str encodable_nil
  have hdict : Dumpable (.dict [] : PyVal F) := ⟨⟨_, _, rfl, rfl⟩, trivial⟩
  have hempty := intact_empty (F := F) cfg.sha t family
  obtain ⟨⟨e, line⟩, hseal⟩ : ∃ r, sealEntry cfg.sha t (blankEntry F t) .none = .ok r := by
    apply exists_sealEntry _ dumpable_none h
    exact ⟨hnil.writable, hnil, hnil, hdict, hnil, hnil.writable⟩
  obtain ⟨s, happend, ⟨⟨segs, hhist, hclean⟩, -⟩, -⟩ := intact_append_sealed now hempty hseal
  rw [happend]
  refine ⟨e.readBack t, ?_⟩
  have hevents := entries_recorded (exists_recorded hhist.lines)
  rw [← filterMap_recorded hhist.lines, linesOf, ← filterMap_texts (quiet_of_clean hclean)]
    at hevents
  exact readSegmented_take hhist.laid hevents 1

/-- The data directory after the blank entry. -/
theorem diskAfter_blank (cfg : Config) {t : PyStr} (ht : t ≠ []) :
    diskAfter cfg [(sampleTime, blankEntry F t)]
      = ((Disk.empty F).appendTo cfg t sampleTime (blankEntry F t)).2 := by
  change ((Disk.empty F).append cfg sampleTime (blankEntry F t)).2 = _
  rw [Disk.append, shardId_blankEntry ht]

omit [PyFloat F] in
/-- Without the append, the other shard is empty. -/
theorem filter_blank {s t : PyStr} (ht : t ≠ []) (hst : s ≠ t) :
    ([(sampleTime, blankEntry F t)].filter fun i => i.2.shardId = s) = [] := by
  have hid : (blankEntry F t).shardId ≠ s := by
    rw [shardId_blankEntry ht]
    exact hst.symm
  simp [hid]

/-- **Shards with one directory are not isolated**: an entry of the one is read in the
other. -/
theorem not_isolated_of_eq (cfg : Config) {s t : PyStr} (ht : PlainId t) (hst : s ≠ t)
    (hfam : familyName s = familyName t) : ¬Isolated F cfg s t := by
  intro hiso
  have hid : (blankEntry F t).shardId = t := shardId_blankEntry ht.ne
  obtain ⟨hread, -⟩ := hiso [(sampleTime, blankEntry F t)] (by simp [hid])
  have h := hread 0 1
  rw [filter_blank ht.ne hst, diskAfter_blank cfg ht.ne] at h
  obtain ⟨e, he⟩ := read_blankEntry (F := F) cfg ht.encodable (familyName t) sampleTime
  have hleft : ((Disk.empty F).appendTo cfg t sampleTime (blankEntry F t)).2.read s 0 1 = .ok [e] := by
    unfold Disk.read Disk.appendTo Disk.setShard
    dsimp only
    rw [hfam, Dict.get_set_self]
    have hempty : (Disk.empty F).shard t = Shard.empty F (familyName t) := rfl
    rw [hempty]
    exact he
  rw [hleft] at h
  cases h

/-- **A directory where the other shard looks for a file is seen by its reader.** -/
theorem not_isolated_of_file (cfg : Config) {s t : PyStr} (ht : PlainId t) (hst : s ≠ t)
    (hfam : familyName s ≠ familyName t) (hdir : familyName t = s ++ jsonl) :
    ¬Isolated F cfg s t := by
  intro hiso
  have hid : (blankEntry F t).shardId = t := shardId_blankEntry ht.ne
  obtain ⟨hread, -⟩ := hiso [(sampleTime, blankEntry F t)] (by simp [hid])
  have h := hread 0 1
  rw [filter_blank ht.ne hst, diskAfter_blank cfg ht.ne] at h
  have hleft : ((Disk.empty F).appendTo cfg t sampleTime (blankEntry F t)).2.read s 0 1
      = .error .isADirectoryError := by
    have hkeys : s ++ jsonl ∈ Dict.keys (Dict.set (familyName t)
        (((Disk.empty F).shard t).append cfg t sampleTime (blankEntry F t)).2.family []) :=
      Dict.mem_keys_set.mpr (Or.inl hdir.symm)
    unfold Disk.read Disk.appendTo Disk.setShard
    dsimp only
    rw [Dict.get_set_ne hfam.symm]
    exact if_pos hkeys
  rw [hleft] at h
  cases h

/-- **A shard is isolated from another iff the two have their own directories, and that of
the other is not where the shard without one is looked for.** -/
theorem isolated_iff (cfg : Config) {s t : ShardName} (hst : s.val ≠ t.val) :
    Isolated F cfg s.val t.val ↔
      familyName s.val ≠ familyName t.val ∧ familyName t.val ≠ s.val ++ jsonl := by
  constructor
  · intro hiso
    refine ⟨fun hfam => not_isolated_of_eq cfg t.property hst hfam hiso, ?_⟩
    intro hdir
    by_cases hfam : familyName s.val = familyName t.val
    · exact not_isolated_of_eq cfg t.property hst hfam hiso
    · exact not_isolated_of_file cfg t.property hst hfam hdir hiso
  · rintro ⟨hfam, hdir⟩
    exact isolated_of_ne cfg hst hfam hdir

/-- Two plain names. -/
theorem isolated_sample : Isolated FloatLit sampleConfig (py "sessions") (py "receipts") := by
  have hs : PlainId (py "sessions") := ⟨by decide, by decide, by decide, by decide⟩
  have ht : PlainId (py "receipts") := ⟨by decide, by decide, by decide, by decide⟩
  have hne : py "sessions" ≠ py "receipts" := by decide
  have hfam : familyName (py "sessions") ≠ familyName (py "receipts") := by decide
  have hdir : familyName (py "receipts") ≠ py "sessions" ++ jsonl := by decide
  exact (isolated_iff sampleConfig (s := ⟨_, hs⟩) (t := ⟨_, ht⟩) hne).mpr ⟨hfam, hdir⟩

/-- **The prefix sets the ids apart, and not the directories.** -/
theorem prefixed_not_isolated : ¬Isolated FloatLit sampleConfig (py "a") (py "shard_a") := by
  apply not_isolated_of_eq
  · exact ⟨by decide, by decide, by decide, by decide⟩
  · decide
  · decide

end Daryl
