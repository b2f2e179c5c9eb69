import Daryl.Dsm.Reconcile
import Daryl.Dsm.Tidy

/-!
# Enumeration

`list_shards` reads the ids of the shards off the names of their files and directories, and
`verify_all` and `reconcile_all` go through what it lists.  A file `{id}.jsonl` is a shard of
that id.  A directory is a shard of its own name where there is a pin under that name, and else
of its name with `shard_` in front.  A directory is made of an id by leaving out every `shard_`.

The order in which a file system lists names is taken to be that of their making.

## Main definitions

* `ShardMeta`, `getShardMetadata` — what is said of a shard.
* `listedIds`, `listShards` — the ids, and what is said of the shards.
* `verifyAll`, `reconcileAll` — what goes through them.
* `OwnName` — a shard id that its directory tells.
* `Enumerates` — every shard that was appended to is listed once, with its entries counted.

## Main results

* `count_listedIds` — an id is listed once where no other directory tells it.
* `enumerates_run` — **ids that their directories tell, one to each directory, are all listed.**
* `prefixed_unlisted` — an id and the same with `shard_` in front.
-/

namespace Daryl

open Py Json

variable {F : Type}

/-! ### `list_shards` -/

/-- What `list_shards` says of a shard. -/
structure ShardMeta where
  shardId : PyStr
  createdAt : Datetime
  lastUpdated : Datetime
  entryCount : ℕ
  sizeBytes : ℕ
  integrityStatus : PyStr
  deriving DecidableEq

/-- `get_shard_size`. -/
def getShardSize (d : Disk F) (shardId : PyStr) : ℕ :=
  match Dict.get (familyName shardId) d.families with
  | some fam => ((getSegmentFiles fam).map fun f => f.2.length).sum
  | none => ((Dict.get shardId d.monoliths).map List.length).getD 0

/-- `datetime.fromisoformat(v) if v else other`. -/
def timestampOr [PyFloat F] (other : Datetime) (v : PyVal F) : Except PyError Datetime :=
  if v.truthy then
    match v with
    | .str text =>
      match fromisoformat text with
      | some d => .ok d
      | none => .error .valueError
    | _ => .error .typeError
  else .ok other

/-- `_get_shard_metadata`, at a time and with the time the pin was last written. -/
def getShardMetadata [PyFloat F] (now mtime : Datetime) (d : Disk F) (shardId : PyStr) :
    Except PyError ShardMeta :=
  match (d.shard shardId).pin with
  | .absent => .ok ⟨shardId, now, now, 0, 0, py "unknown"⟩
  | file =>
    let data := file.read
    (timestampOr mtime ((data.map Pin.firstTimestamp).getD .none)).bind fun createdAt =>
      (timestampOr createdAt ((data.map Pin.lastTimestamp).getD .none)).map fun lastUpdated =>
        ⟨shardId, createdAt, lastUpdated, (data.bind Pin.entryCount).getD 0,
          getShardSize d shardId, py "verified"⟩

/-- The id of a directory. -/
def directoryId (d : Disk F) (name : PyStr) : PyStr :=
  match (d.shard name).pin with
  | .absent => py "shard_" ++ name
  | _ => name

/-- The ids, of the files first: a directory may be named like a file. -/
def listedIds (d : Disk F) : List PyStr :=
  ((d.monoliths.map fun f => f.1 ++ jsonl) ++
      (Dict.keys d.families).filter fun name => jsonl.isSuffixOf name).map stem ++
    (d.families.filter fun f => !(py ".").isPrefixOf f.1 && getSegmentFiles f.2 ≠ []).map
      fun f => directoryId d f.1

/-- `list_shards`. -/
def listShards [PyFloat F] (now mtime : Datetime) (d : Disk F) : Except PyError (List ShardMeta) :=
  (listedIds d).mapM (getShardMetadata now mtime d)

/-- `verify_all`. -/
def verifyAll [PyFloat F] (sha : Sha256) (now mtime : Datetime) (d : Disk F) :
    Except PyError (List (Report F)) :=
  (listShards now mtime d).bind fun shards => shards.mapM fun s => d.verify sha s.shardId

/-- The loop of `reconcile_all`. -/
def reconcileEach [PyFloat F] (now : Datetime) :
    List PyStr → Disk F → Except PyError (List (PyStr × Reconciled F)) × Disk F
  | [], d => (.ok [], d)
  | shardId :: ids, d =>
    match reconcileShard shardId now false (d.shard shardId) with
    | (.error e, s) => (.error e, d.setShard shardId s)
    | (.ok result, s) =>
      let rest := reconcileEach now ids (d.setShard shardId s)
      (rest.1.map fun results => (shardId, result) :: results, rest.2)

/-- `reconcile_all`. -/
def reconcileAll [PyFloat F] (now mtime : Datetime) (d : Disk F) :
    Except PyError (List (PyStr × Reconciled F)) × Disk F :=
  match listShards now mtime d with
  | .error e => (.error e, d)
  | .ok shards => reconcileEach now (shards.map ShardMeta.shardId) d

/-! ### Runs of appends -/

/-- The data directory, the ids that were appended to, and those of them that an append was
accepted for, once for each. -/
structure Enumeration (F : Type) where
  disk : Disk F
  tried : List PyStr
  accepted : List PyStr

/-- Nothing was appended. -/
def Enumeration.empty (F : Type) : Enumeration F := ⟨.empty F, [], []⟩

/-- An append. -/
def enumerationStep [PyFloat F] (cfg : Config) (s : Enumeration F) (i : Datetime × Entry F) :
    Enumeration F where
  disk := s.disk.step cfg i
  tried := i.2.shardId :: s.tried
  accepted :=
    match (s.disk.append cfg i.1 i.2).1 with
    | .ok _ => i.2.shardId :: s.accepted
    | .error _ => s.accepted

/-- **Every shard that was appended to is listed once, under its id and with the number of its
entries, and so `verify_all` and `reconcile_all` get to it.** -/
structure Enumerates [PyFloat F] (sha : Sha256) (s : Enumeration F) : Prop where
  listed : ∀ now mtime, ∃ shards, listShards now mtime s.disk = .ok shards ∧
    ∀ id ∈ s.accepted, ∃ shard, shards.filter (fun m => m.shardId = id) = [shard] ∧
      shard.entryCount = s.accepted.count id
  verified : ∀ now mtime, ∃ reports, verifyAll sha now mtime s.disk = .ok reports ∧
    ∀ id ∈ s.accepted, ∃ report, s.disk.verify sha id = .ok report ∧
      reports.filter (fun r => r.shardId = id) = [report]
  reconciled : ∀ now mtime results d', reconcileAll now mtime s.disk = (.ok results, d') →
    ∀ id ∈ s.accepted, (results.map Prod.fst).count id = 1

/-- A shard id that its directory tells: the directory is one of its own, is not hidden, and is
named by the id or by what follows `shard_` in it. -/
structure OwnName (shardId : PyStr) : Prop extends PlainId shardId where
  shown : (py ".").isPrefixOf (familyName shardId) = false
  told : shardId = familyName shardId ∨ shardId = py "shard_" ++ familyName shardId

/-- The id of an append is told by its directory, the directory is that of no other id, and
neither of the two stands where the file of the other would. -/
def Told (s : Enumeration F) (i : Datetime × Entry F) : Prop :=
  OwnName i.2.shardId ∧ ∀ id ∈ s.tried, id ≠ i.2.shardId →
    familyName id ≠ familyName i.2.shardId ∧ familyName id ≠ i.2.shardId ++ jsonl ∧
      familyName i.2.shardId ≠ id ++ jsonl

/-! ### Names -/

theorem familyName_prefixed (name : PyStr) :
    familyName (py "shard_" ++ name) = familyName name := by
  have hprefix : (py "shard_").isPrefixOf (py "shard_" ++ name) = true :=
    List.isPrefixOf_iff_prefix.mpr (List.prefix_append _ _)
  have hcons : py "shard_" ++ name = 115 :: (py "hard_" ++ name) := rfl
  unfold familyName replace
  rw [hcons] at hprefix ⊢
  rw [replaceAux, if_pos hprefix]
  rfl

/-- The name of the directory is again that of its directory. -/
theorem OwnName.familyName_familyName {shardId : PyStr} (h : OwnName shardId) :
    familyName (familyName shardId) = familyName shardId := by
  rcases h.told with hid | hid
  · exact congrArg familyName hid.symm
  · have hname := familyName_prefixed (familyName shardId)
    rw [← hid] at hname
    exact hname.symm

/-- A directory is not named like the file of its shard. -/
theorem OwnName.familyName_ne_file {shardId : PyStr} (h : OwnName shardId) :
    familyName shardId ≠ shardId ++ jsonl := by
  intro hname
  have hlen := congrArg List.length hname
  rw [List.length_append, show jsonl.length = 6 from rfl] at hlen
  rcases h.told with hid | hid
  · rw [← hid] at hlen
    omega
  · have hid := congrArg List.length hid
    rw [List.length_append] at hid
    omega

/-- What a file name with something before its extension is the file of. -/
theorem stem_jsonl {name : PyStr} (hsuffix : jsonl.isSuffixOf name = true)
    (hshown : (py ".").isPrefixOf name = false) : stem name ++ jsonl = name := by
  obtain ⟨base, rfl⟩ := List.isSuffixOf_iff_suffix.mp hsuffix
  have hbase : base ≠ [] := by
    rintro rfl
    exact absurd hshown (by decide)
  have hext : py "jsonl" ≠ [] := by decide
  have hstem : stem (base ++ jsonl) = base := stem_append hbase hext (by decide)
  rw [hstem]

/-! ### What is kept along a run -/

variable [PyFloat F]

/-- The pin that so many appends leave. -/
def PinAfter (n : ℕ) (file : PinFile F) : Prop :=
  n = 0 ∧ file = .absent ∨
    ∃ (p : Pin F) (first last : Datetime), file = .pin p ∧ p.entryCount = some n ∧ 0 < n ∧
      p.firstTimestamp = .str first.isoformat ∧ p.lastTimestamp = .str last.isoformat

/-- The directories are those of the ids that were appended to, one for each id, and the pins
count the appends. -/
structure Tracked (s : Enumeration F) : Prop where
  kept : s.disk.Kept
  nodup : (Dict.keys s.disk.families).Nodup
  dirs : ∀ name, name ∈ Dict.keys s.disk.families ↔ ∃ id ∈ s.tried, familyName id = name
  own : ∀ id ∈ s.tried, OwnName id
  apart : ∀ id ∈ s.tried, ∀ other ∈ s.tried, id ≠ other →
    familyName id ≠ familyName other ∧ familyName id ≠ other ++ jsonl
  tried : ∀ id ∈ s.accepted, id ∈ s.tried
  held : ∀ id ∈ s.accepted, ∃ e, s.disk.Holds id e
  pins : ∀ id, PinAfter (s.accepted.count id) (s.disk.shard id).pin

theorem tracked_empty : Tracked (Enumeration.empty F) where
  kept := kept_empty
  nodup := List.nodup_nil
  dirs := by simp [Enumeration.empty, Disk.empty]
  own := by simp [Enumeration.empty]
  apart := by simp [Enumeration.empty]
  tried := by simp [Enumeration.empty]
  held := by simp [Enumeration.empty]
  pins := fun _ => .inl ⟨rfl, rfl⟩

/-- An accepted append counts in the pin. -/
theorem pinAfter_append {cfg : Config} {shardId : PyStr} {now : Datetime} {e e' : Entry F}
    {s s' : Shard F} {n : ℕ} (h : PinAfter n s.pin)
    (happend : s.append cfg shardId now e = (.ok e', s')) : PinAfter (n + 1) s'.pin := by
  unfold Shard.append at happend
  split at happend
  · cases happend
  · next p fam hprep =>
    dsimp only at happend
    split at happend
    · cases happend
    · next pin hcommit =>
      obtain ⟨-, rfl⟩ := Prod.mk.inj happend
      obtain ⟨rfl, -⟩ := writePin_eq_ok.mp hcommit
      rcases h with ⟨rfl, hpin⟩ | ⟨q, first, last, hpin, hcount, hpos, hfirst, hlast⟩
      · rw [hpin]
        exact .inr ⟨_, p.entry.timestamp, p.entry.timestamp, rfl, rfl, Nat.one_pos, rfl, rfl⟩
      · rw [hpin]
        refine .inr ⟨_, first, p.entry.timestamp, rfl, ?_, Nat.succ_pos n, ?_, rfl⟩
        · simp [PinFile.read, hcount]
        · simp [PinFile.read, hfirst, PyVal.isNone]

/-- The append of a step, and what becomes of the shard. -/
theorem exists_append (cfg : Config) {d : Disk F} (h : d.Kept) (i : Datetime × Entry F) :
    (∃ e' s', (d.shard i.2.shardId).append cfg i.2.shardId i.1 i.2 = (.ok e', s') ∧
      ∃ e, (d.step cfg i).Holds i.2.shardId e) ∨
    ∃ err s', (d.shard i.2.shardId).append cfg i.2.shardId i.1 i.2 = (.error err, s') ∧
      s'.pin = (d.shard i.2.shardId).pin := by
  obtain ⟨ds, hds⟩ := h.family i.2.shardId
  cases hseal : sealEntry cfg.sha i.2.shardId i.2 (getLastHash (d.shard i.2.shardId).pin) with
  | ok r =>
    obtain ⟨s', happend, -⟩ := tidy_append i.1 hds (h.pin _) hseal
    exact .inl ⟨_, s', happend, _, holds_appendTo h _ i.1 hseal⟩
  | error err =>
    obtain ⟨s', happend, -, hpin⟩ := tidy_append_error i.1 hds hseal
    exact .inr ⟨err, s', happend, hpin⟩

omit [PyFloat F] in
/-- Another id's pin is left alone. -/
theorem pin_setShard_ne (d : Disk F) {shardId other : PyStr} (h : shardId ≠ other) (s : Shard F) :
    ((d.setShard shardId s).shard other).pin = (d.shard other).pin := by
  unfold Disk.shard Disk.setShard
  dsimp only
  rw [Dict.get_set_ne h]

/-- **An append under a name of its own keeps the directories those of the ids.** -/
theorem tracked_step (cfg : Config) {s : Enumeration F} {i : Datetime × Entry F} (h : Tracked s)
    (hi : Told s i) : Tracked (enumerationStep cfg s i) := by
  obtain ⟨hown, hapart⟩ := hi
  have hkeys : ∀ name, name ∈ Dict.keys (s.disk.step cfg i).families ↔
      name = familyName i.2.shardId ∨ name ∈ Dict.keys s.disk.families := fun name =>
    Dict.mem_keys_set
  have hstep : ∀ r s', (s.disk.shard i.2.shardId).append cfg i.2.shardId i.1 i.2 = (r, s') →
      s.disk.step cfg i = s.disk.setShard i.2.shardId s' ∧ (s.disk.append cfg i.1 i.2).1 = r := by
    intro r s' happend
    rw [Disk.step, Disk.append, Disk.appendTo, happend]
    exact ⟨rfl, rfl⟩
  refine ⟨kept_step cfg h.kept i, Dict.nodup_keys_set h.nodup, ?_, ?_, ?_, ?_, ?_, ?_⟩
  · -- the directories are those of the ids
    intro name
    change name ∈ Dict.keys (s.disk.step cfg i).families ↔ ∃ id ∈ i.2.shardId :: s.tried, _
    rw [hkeys, h.dirs, List.exists_mem_cons_iff]
    exact or_congr_left eq_comm
  · -- every id has a name of its own
    intro id hid
    rcases List.mem_cons.mp hid with rfl | hid
    · exact hown
    · exact h.own id hid
  · -- no directory of one is that of another, or its old file
    intro id hid other hother hne
    rcases List.mem_cons.mp hid with rfl | hid
    · rcases List.mem_cons.mp hother with rfl | hother
      · exact absurd rfl hne
      · obtain ⟨hfam, -, hfile⟩ := hapart other hother hne.symm
        exact ⟨hfam.symm, hfile⟩
    · rcases List.mem_cons.mp hother with rfl | hother
      · obtain ⟨hfam, hfile, -⟩ := hapart id hid hne
        exact ⟨hfam, hfile⟩
      · exact h.apart id hid other hother hne
  · -- what was accepted was tried
    intro id hid
    unfold enumerationStep at hid
    dsimp only at hid
    split at hid
    · rcases List.mem_cons.mp hid with rfl | hid
      · exact List.mem_cons_self
      · exact List.mem_cons_of_mem _ (h.tried id hid)
    · exact List.mem_cons_of_mem _ (h.tried id hid)
  · -- what was accepted is still there
    intro id hid
    have hold : id ∈ s.accepted → ∃ e, (s.disk.step cfg i).Holds id e := by
      intro hmem
      obtain ⟨e, he⟩ := h.held id hmem
      exact ⟨e, holds_step cfg h.kept he i⟩
    rcases exists_append cfg h.kept i with ⟨e', s', happend, hnew⟩ | ⟨err, s', happend, -⟩
    · rw [enumerationStep, (hstep _ _ happend).2] at hid
      rcases List.mem_cons.mp hid with rfl | hid
      · exact hnew
      · exact hold hid
    · rw [enumerationStep, (hstep _ _ happend).2] at hid
      exact hold hid
  · -- the pins count what was accepted
    intro id
    rcases exists_append cfg h.kept i with ⟨e', s', happend, -⟩ | ⟨err, s', happend, hpin⟩
    · obtain ⟨hdisk, hresult⟩ := hstep _ _ happend
      rw [enumerationStep, hresult, hdisk]
      dsimp only
      by_cases hid : i.2.shardId = id
      · subst hid
        rw [List.count_cons_self, Disk.shard_setShard]
        exact pinAfter_append (h.pins _) happend
      · rw [List.count_cons_of_ne hid, pin_setShard_ne _ hid]
        exact h.pins id
    · obtain ⟨hdisk, hresult⟩ := hstep _ _ happend
      rw [enumerationStep, hresult, hdisk]
      dsimp only
      by_cases hid : i.2.shardId = id
      · subst hid
        rw [Disk.shard_setShard, hpin]
        exact h.pins _
      · rw [pin_setShard_ne _ hid]
        exact h.pins id

/-! ### What is listed -/

section

variable {s : Enumeration F}

omit [PyFloat F] in
/-- The id of a directory is that of its name, or has `shard_` in front. -/
theorem familyName_directoryId (d : Disk F) (name : PyStr) :
    familyName (directoryId d name) = familyName name := by
  unfold directoryId
  split
  · exact familyName_prefixed name
  · rfl

/-- **A directory has the id that was appended to.** -/
theorem directoryId_familyName (h : Tracked s) {id : PyStr} (hid : id ∈ s.accepted) :
    directoryId s.disk (familyName id) = id := by
  have htried := h.tried id hid
  have hown := h.own id htried
  have hpinned : ∀ other ∈ s.accepted, (s.disk.shard other).pin ≠ .absent := by
    intro other hother habsent
    rcases h.pins other with ⟨hcount, -⟩ | ⟨p, _, _, hpin, -⟩
    · exact absurd hother (List.count_eq_zero.mp hcount)
    · rw [habsent] at hpin
      cases hpin
  unfold directoryId
  rcases hown.told with htold | htold
  · -- the id is the name, so its pin is there
    rw [← htold]
    split
    · next habsent => exact absurd habsent (hpinned id hid)
    · rfl
  · -- a pin under the name would be that of another id of the directory
    split
    · exact htold.symm
    · next hpin =>
      exfalso
      rcases h.pins (familyName id) with ⟨-, habsent⟩ | ⟨p, _, _, -, -, hpos, -⟩
      · exact hpin habsent
      · have hmem : familyName id ∈ s.accepted := List.count_pos_iff.mp hpos
        have hne : id ≠ familyName id := by
          intro heq
          have hlen := congrArg List.length (heq.symm.trans htold)
          rw [List.length_append, show (py "shard_").length = 6 from rfl] at hlen
          rw [← heq] at hlen
          omega
        exact (h.apart id htried _ (h.tried _ hmem) hne).1 hown.familyName_familyName.symm

/-- The file names among the directories tell none of the ids. -/
theorem not_mem_stems (h : Tracked s) {id : PyStr} (hid : id ∈ s.accepted) :
    id ∉ ((s.disk.monoliths.map fun f => f.1 ++ jsonl) ++
      (Dict.keys s.disk.families).filter fun name => jsonl.isSuffixOf name).map stem := by
  rw [h.kept.monoliths, List.map_nil, List.nil_append]
  intro hmem
  obtain ⟨name, hname, hstem⟩ := List.mem_map.mp hmem
  obtain ⟨hname, hsuffix⟩ := List.mem_filter.mp hname
  obtain ⟨other, hother, rfl⟩ := (h.dirs name).mp hname
  have hfile := stem_jsonl hsuffix (h.own other hother).shown
  rw [hstem] at hfile
  by_cases hne : other = id
  · subst hne
    exact (h.own other hother).familyName_ne_file hfile.symm
  · exact (h.apart other hother id (h.tried id hid) hne).2 hfile.symm

/-- **An id that was appended to is listed once.** -/
theorem count_listedIds (h : Tracked s) {id : PyStr} (hid : id ∈ s.accepted) :
    (listedIds s.disk).count id = 1 := by
  have htried := h.tried id hid
  obtain ⟨e, fam, ds, hget, htidy, hmem⟩ := h.held id hid
  have hfiles : getSegmentFiles fam ≠ [] := htidy.segmentFiles_ne_nil (List.ne_nil_of_mem hmem)
  have hfam : (familyName id, fam) ∈ s.disk.families := Dict.mem_of_get hget
  have hnodup : s.disk.families.Nodup := List.Nodup.of_map _ h.nodup
  -- of the directories, the one of the id alone is listed under it
  have hiff : ∀ f ∈ s.disk.families, directoryId s.disk f.1 = id ↔ f = (familyName id, fam) := by
    rintro ⟨name, g⟩ hg
    constructor
    · intro hname
      obtain ⟨other, hother, hsame⟩ := (h.dirs name).mp (List.mem_map_of_mem hg)
      have hfamily : familyName id = familyName other := by
        have hdir := familyName_directoryId s.disk name
        rw [hname, ← hsame, (h.own other hother).familyName_familyName] at hdir
        exact hdir
      have heq : other = id := by
        by_contra hne
        exact (h.apart other hother id htried hne).1 hfamily.symm
      have hgetg := Dict.get_of_mem h.nodup hg
      rw [← hsame, heq] at hgetg ⊢
      rw [Option.some.inj (hgetg.symm.trans hget)]
    · intro heq
      rw [heq]
      exact directoryId_familyName h hid
  have hlisted : (familyName id, fam) ∈ s.disk.families.filter fun f =>
      !(py ".").isPrefixOf f.1 && getSegmentFiles f.2 ≠ [] := by
    refine List.mem_filter.mpr ⟨hfam, ?_⟩
    simp [(h.own id htried).shown, hfiles]
  rw [listedIds, List.count_append, List.count_eq_zero.mpr (not_mem_stems h hid), Nat.zero_add,
    List.count, List.countP_map]
  have hcongr : ∀ l : List (PyStr × Family), (∀ f ∈ l, f ∈ s.disk.families) →
      l.countP ((fun x => x == id) ∘ fun f => directoryId s.disk f.1)
        = l.count (familyName id, fam) := by
    intro l hl
    refine List.countP_congr fun f hf => ?_
    simp [hiff f (hl f hf)]
  rw [hcongr _ fun f hf => (List.mem_filter.mp hf).1]
  exact List.count_eq_one_of_mem (hnodup.filter _) hlisted

/-! ### What is said of it -/

/-- The time a pin names is read. -/
theorem timestampOr_isoformat (other d : Datetime) :
    timestampOr (F := F) other (.str d.isoformat) = .ok d := by
  have htruthy : (PyVal.str (F := F) d.isoformat).truthy = true := by
    simp [PyVal.truthy, isoformat_ne_nil]
  simp only [timestampOr, htruthy, if_true, fromisoformat_isoformat]

/-- **What is said of an id counts the appends.** -/
theorem exists_shardMetadata (h : Tracked s) (now mtime : Datetime) (id : PyStr) :
    ∃ m, getShardMetadata now mtime s.disk id = .ok m ∧ m.shardId = id ∧
      m.entryCount = s.accepted.count id := by
  unfold getShardMetadata
  rcases h.pins id with ⟨hcount, hpin⟩ | ⟨p, first, last, hpin, hcount, -, hfirst, hlast⟩
  · rw [hpin]
    exact ⟨_, rfl, rfl, hcount.symm⟩
  · rw [hpin]
    dsimp only [PinFile.read, Option.map_some, Option.getD_some, Option.bind_some]
    rw [hfirst, hlast, hcount, timestampOr_isoformat]
    dsimp only [Except.bind]
    rw [timestampOr_isoformat]
    exact ⟨_, rfl, rfl, rfl⟩

/-- Results of the ids they were made of. -/
theorem map_key_eq {α : Type*} {key : α → PyStr} {ids : List PyStr} {l : List α}
    (h : List.Forall₂ (fun id a => key a = id) ids l) : l.map key = ids := by
  have heq : List.Forall₂ Eq ids (l.map key) :=
    List.forall₂_map_right_iff.mpr (h.imp fun _ _ hkey => hkey.symm)
  rw [List.forall₂_eq_eq_eq] at heq
  exact heq.symm

/-- The list, of the ids as they are listed. -/
theorem exists_listShards (h : Tracked s) (now mtime : Datetime) :
    ∃ shards, listShards now mtime s.disk = .ok shards ∧
      shards.map ShardMeta.shardId = listedIds s.disk ∧
      ∀ m ∈ shards, m.entryCount = s.accepted.count m.shardId := by
  obtain ⟨shards, hshards⟩ := Pointwise.exists_mapM_ok fun id (_ : id ∈ listedIds s.disk) =>
    (exists_shardMetadata h now mtime id).imp fun m hm => hm.1
  have hsaid : List.Forall₂ (fun id m => m.shardId = id ∧ m.entryCount = s.accepted.count id)
      (listedIds s.disk) shards := by
    refine (Pointwise.of_mapM_ok hshards).imp fun id m hm => ?_
    obtain ⟨m', hm', hid, hcount⟩ := exists_shardMetadata h now mtime id
    obtain rfl := Except.ok.inj (hm.symm.trans hm')
    exact ⟨hid, hcount⟩
  refine ⟨shards, hshards, map_key_eq (hsaid.imp fun _ _ hm => hm.1), ?_⟩
  intro m hm
  obtain ⟨id, -, hid, hcount⟩ := Pointwise.exists_of_mem_right hsaid hm
  rw [hid, hcount]

end

/-- One of a list has the key where the key occurs once. -/
theorem exists_filter_eq {α κ : Type*} [DecidableEq κ] [BEq κ] [LawfulBEq κ] {key : α → κ} {l : List α} {k : κ}
    (h : (l.map key).count k = 1) :
    ∃ a ∈ l, key a = k ∧ l.filter (fun x => key x = k) = [a] := by
  have hlen : (l.filter fun x => key x = k).length = 1 := by
    rw [← List.countP_eq_length_filter, ← h, List.count, List.countP_map]
    refine List.countP_congr fun x _ => ?_
    simp
  obtain ⟨a, ha⟩ := List.length_eq_one_iff.mp hlen
  have hmem : a ∈ l.filter fun x => key x = k := ha ▸ List.mem_singleton_self a
  obtain ⟨hl, hkey⟩ := List.mem_filter.mp hmem
  exact ⟨a, hl, of_decide_eq_true hkey, ha⟩

/-- The results are those of the ids it goes through. -/
theorem map_reconcileEach {now : Datetime} {ids : List PyStr} {d d' : Disk F}
    {results : List (PyStr × Reconciled F)} (h : reconcileEach now ids d = (.ok results, d')) :
    results.map Prod.fst = ids := by
  induction ids generalizing d results with
  | nil =>
    obtain ⟨hresults, -⟩ := Prod.mk.inj h
    obtain rfl := Except.ok.inj hresults
    rfl
  | cons id ids ih =>
    rw [reconcileEach] at h
    split at h
    · cases h
    · next result s hone =>
      obtain ⟨hresults, hdisk⟩ := Prod.mk.inj h
      cases hrest : (reconcileEach now ids (d.setShard id s)).1 with
      | error e =>
        rw [hrest] at hresults
        cases hresults
      | ok rest =>
        rw [hrest] at hresults
        obtain rfl := Except.ok.inj hresults
        rw [List.map_cons, ih (Prod.ext hrest hdisk)]

/-- Ids with directories of their own are all found. -/
theorem Tracked.enumerates {s : Enumeration F} (h : Tracked s) (sha : Sha256) :
    Enumerates sha s := by
  refine ⟨?_, ?_, ?_⟩
  · intro now mtime
    obtain ⟨shards, hshards, hids, hcount⟩ := exists_listShards h now mtime
    refine ⟨shards, hshards, fun id hid => ?_⟩
    obtain ⟨m, hm, hkey, hone⟩ := exists_filter_eq (hids ▸ count_listedIds h hid)
    exact ⟨m, hone, hkey ▸ hcount m hm⟩
  · intro now mtime
    obtain ⟨shards, hshards, hids, -⟩ := exists_listShards h now mtime
    have hverify : ∀ id, ∃ r, s.disk.verify sha id = .ok r ∧ r.shardId = id := by
      intro id
      obtain ⟨ds, hds⟩ := h.kept.family id
      exact ⟨_, verifyShard_eq_ok.mpr ⟨ds, hds.chrono, rfl⟩, rfl⟩
    obtain ⟨reports, hreports⟩ := Pointwise.exists_mapM_ok fun m (_ : m ∈ shards) =>
      (hverify m.shardId).imp fun r hr => hr.1
    have hsaid : List.Forall₂ (fun (m : ShardMeta) (r : Report F) => r.shardId = m.shardId ∧
        s.disk.verify sha r.shardId = .ok r) shards reports := by
      refine (Pointwise.of_mapM_ok hreports).imp fun m r hr => ?_
      obtain ⟨r', hr', hid⟩ := hverify m.shardId
      obtain rfl := Except.ok.inj (hr.symm.trans hr')
      exact ⟨hid, hid ▸ hr⟩
    have hmap : reports.map Report.shardId = listedIds s.disk := by
      rw [← hids]
      exact map_key_eq (List.forall₂_map_left_iff.mpr (hsaid.imp fun _ _ hr => hr.1))
    refine ⟨reports, ?_, fun id hid => ?_⟩
    · rw [verifyAll, hshards]
      exact hreports
    · obtain ⟨r, hr, hkey, hone⟩ := exists_filter_eq (hmap ▸ count_listedIds h hid)
      obtain ⟨m, -, -, hreport⟩ := Pointwise.exists_of_mem_right hsaid hr
      exact ⟨r, hkey ▸ hreport, hone⟩
  · intro now mtime results d' hresults id hid
    obtain ⟨shards, hshards, hids, -⟩ := exists_listShards h now mtime
    rw [reconcileAll, hshards] at hresults
    rw [map_reconcileEach hresults, hids]
    exact count_listedIds h hid

/-- **Where every append is to an id that its directory tells, one to each directory, every
shard is listed**, after every append of the run. -/
theorem enumerates_run (cfg : Config) (is : List (Datetime × Entry F))
    (h : Run.Along (enumerationStep cfg) Told (Enumeration.empty F) is) :
    Run.Always (enumerationStep cfg) (Enumerates cfg.sha) (Enumeration.empty F) is := by
  rintro js ⟨ks, rfl⟩
  have htold := (Run.along_append.mp h).1
  exact (Run.run_invariant (fun s i => tracked_step cfg) tracked_empty htold).enumerates cfg.sha

/-- A plain id, and one that has `shard_` in front. -/
theorem enumerates_sample : Run.Always (enumerationStep sampleConfig) (Enumerates sampleConfig.sha)
    (Enumeration.empty FloatLit) [(sampleTime, blankEntry FloatLit (py "sessions")),
      (sampleTime, blankEntry FloatLit (py "shard_receipts"))] := by
  have hsessions : OwnName (py "sessions") :=
    ⟨⟨by decide, by decide, by decide, by decide⟩, by decide, .inl (by decide)⟩
  have hreceipts : OwnName (py "shard_receipts") :=
    ⟨⟨by decide, by decide, by decide, by decide⟩, by decide, .inr (by decide)⟩
  have hfirst : (blankEntry FloatLit (py "sessions")).shardId = py "sessions" :=
    shardId_blankEntry (by decide)
  have hsecond : (blankEntry FloatLit (py "shard_receipts")).shardId = py "shard_receipts" :=
    shardId_blankEntry (by decide)
  refine enumerates_run sampleConfig _ ⟨⟨?_, ?_⟩, ⟨?_, ?_⟩, trivial⟩
  · dsimp only
    rw [hfirst]
    exact hsessions
  · intro id hid
    cases hid
  · dsimp only
    rw [hsecond]
    exact hreceipts
  · intro id hid _
    obtain rfl := List.mem_singleton.mp hid
    dsimp only
    rw [hfirst, hsecond]
    decide

/-- An id, and the same with `shard_` in front. -/
def prefixedRun : Enumeration FloatLit :=
  Run.run (enumerationStep sampleConfig) (.empty FloatLit)
    [(sampleTime, blankEntry FloatLit (py "a")), (sampleTime, blankEntry FloatLit (py "shard_a"))]

/-- **The directory of both is listed as that of the first.** -/
theorem prefixed_unlisted : py "shard_a" ∈ prefixedRun.accepted ∧
    ¬Enumerates sampleConfig.sha prefixedRun := by
  have haccepted : py "shard_a" ∈ prefixedRun.accepted := by decide +kernel
  have hids : (listShards sampleTime sampleTime prefixedRun.disk).map (List.map ShardMeta.shardId)
      = .ok [py "a"] := by decide +kernel
  refine ⟨haccepted, ?_⟩
  intro h
  obtain ⟨shards, hshards, hall⟩ := h.listed sampleTime sampleTime
  obtain ⟨shard, hone, -⟩ := hall _ haccepted
  rw [hshards] at hids
  have hmem : shard ∈ shards.filter fun m => m.shardId = py "shard_a" :=
    hone ▸ List.mem_singleton_self shard
  obtain ⟨hshard, hkey⟩ := List.mem_filter.mp hmem
  have hlisted := List.mem_map_of_mem (f := ShardMeta.shardId) hshard
  rw [Except.ok.inj hids, of_decide_eq_true hkey, List.mem_singleton] at hlisted
  exact absurd hlisted (by decide)

end Daryl
