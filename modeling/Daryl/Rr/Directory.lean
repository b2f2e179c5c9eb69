import Daryl.Dsm.Enumeration
import Daryl.Dsm.Pagination
import Daryl.Rr.Index

/-!
# The shards of a data directory, as a reader sees them

A reader goes through the ids of `list_shards`, and reads the shard of each in pages.  Where every
append is to an id that its directory tells, one to each directory, what it sees is a `Store`: of each
id the entries that were accepted, in the order of their appends.

An append that is refused leaves a directory behind, which has no pin; it is listed under its name with
`shard_` in front, and has no entries.

## Main definitions

* `storedOf`, `storeOf` — the storage of a data directory, of entries whose fields are strings.
* `Typed` — an entry with fields of the types its class declares.
* `PlainShard`, `Separate` — shard ids with a directory each.
* `Appends`, `Appends.step` — a data directory, and the entries that were accepted.
* `ShowsStore` — a storage is what is listed and read.
* `Faithful` — what is kept along a run of appends.

## Main results

* `Faithful.step` — an append keeps it.
* `exists_storeOf` — **the data directory shows the entries that were accepted.**
-/

namespace Daryl

open Py Json

variable {F : Type}

/-! ### The storage of a data directory -/

/-- A value that is a string. -/
def stringOf : PyVal F → Option PyStr
  | .str s => some s
  | _ => none

/-- An entry that was read, where its fields are strings. -/
def storedOf (x : Entry F) : Option (StoredEntry F) := do
  let id ← stringOf x.id
  let sessionId ← stringOf x.sessionId
  let source ← stringOf x.source
  let content ← stringOf x.content
  let shard ← stringOf x.shard
  let hash ← stringOf x.hash
  return ⟨id, x.timestamp, sessionId, source, content, shard, hash, x.metadata⟩

section

variable [PyFloat F]

/-- A shard with its entries, oldest first. -/
def storedShard (d : Disk F) (shardId : PyStr) : Option (PyStr × List (StoredEntry F)) :=
  (d.allEntries shardId).toOption.bind fun xs => (xs.mapM storedOf).map fun es => (shardId, es)

/-- The storage of a data directory: the shards that are listed, which are to be distinct. -/
def storeOf (d : Disk F) : Option (Store F) :=
  ((listedIds d).mapM (storedShard d)).bind fun shards =>
    if h : (Dict.keys shards).Nodup then some ⟨shards, h⟩ else none

/-- **The storage is what `list_shards` and `read` show of a data directory.** -/
structure ShowsStore (d : Disk F) (s : Store F) : Prop where
  listed : ∀ now mtime, ∃ shards, listShards now mtime d = .ok shards ∧
    shards.map ShardMeta.shardId = s.listShards
  read : ∀ shardId ∈ s.listShards, ∀ offset limit, 0 < limit →
    ∃ es, d.read shardId offset limit = .ok es ∧
      List.Forall₂ (fun e y => storedOf e = some y) es (s.read shardId offset limit)

end

/-! ### Appends -/

/-- An entry with fields of the types its class declares. -/
structure Typed (e : Entry F) : Prop where
  id : ∃ s, e.id = .str s
  sessionId : ∃ s, e.sessionId = .str s
  source : ∃ s, e.source = .str s
  content : ∃ s, e.content = .str s

/-- A shard id that its directory tells, which is not named like a file. -/
structure PlainShard (shardId : PyStr) : Prop extends OwnName shardId where
  notFile : jsonl.isSuffixOf (familyName shardId) = false

/-- The shard ids are plain, and no two have one directory. -/
structure Separate (ids : List PyStr) : Prop where
  plain : ∀ id ∈ ids, PlainShard id
  apart : ∀ id ∈ ids, ∀ other ∈ ids, familyName id = familyName other → id = other

theorem Separate.subset {ids ids' : List PyStr} (h : Separate ids) (hsub : ids' ⊆ ids) :
    Separate ids' where
  plain id hid := h.plain id (hsub hid)
  apart id hid other hother := h.apart id (hsub hid) other (hsub hother)

/-- A data directory, the ids that were appended to, and the entries that were accepted, as they were
returned, the oldest first. -/
structure Appends (F : Type) where
  disk : Disk F
  tried : List PyStr
  accepted : List (PyStr × Entry F)

namespace Appends

/-- Nothing was appended. -/
def empty (F : Type) : Appends F := ⟨.empty F, [], []⟩

/-- The entries that were accepted for a shard. -/
def of (a : Appends F) (shardId : PyStr) : List (Entry F) :=
  (a.accepted.filter fun p => p.1 = shardId).map Prod.snd

/-- The ids with an entry, as they are counted by what is listed. -/
def enumeration (a : Appends F) : Enumeration F :=
  ⟨a.disk, a.tried, (a.accepted.map Prod.fst).reverse⟩

/-- An append. -/
def step [PyFloat F] (cfg : Config) (a : Appends F) (i : Datetime × Entry F) : Appends F where
  disk := a.disk.step cfg i
  tried := i.2.shardId :: a.tried
  accepted :=
    match (a.disk.append cfg i.1 i.2).1 with
    | .ok e => a.accepted ++ [(i.2.shardId, e)]
    | .error _ => a.accepted

theorem mem_of {a : Appends F} {shardId : PyStr} {e : Entry F} :
    e ∈ a.of shardId ↔ (shardId, e) ∈ a.accepted := by
  simp [of]

theorem of_eq_nil {a : Appends F} {shardId : PyStr}
    (h : shardId ∉ a.accepted.map Prod.fst) : a.of shardId = [] := by
  rw [of, List.map_eq_nil_iff, List.filter_eq_nil_iff]
  intro p hp hkey
  exact h (List.mem_map.mpr ⟨p, hp, of_decide_eq_true hkey⟩)

theorem enumeration_step [PyFloat F] (cfg : Config) (a : Appends F) (i : Datetime × Entry F) :
    (a.step cfg i).enumeration = enumerationStep cfg a.enumeration i := by
  unfold enumeration step enumerationStep
  dsimp only
  cases (a.disk.append cfg i.1 i.2).1 with
  | error err => rfl
  | ok e => simp

end Appends

variable [PyFloat F]

/-- What is kept along a run of appends to ids with directories of their own. -/
structure Faithful (a : Appends F) : Prop where
  tracked : Tracked a.enumeration
  separate : Separate a.tried
  holds : ∀ id ∈ a.tried, Tidy (a.disk.shard id).family ((a.of id).map (Entry.readBack id))
  typed : ∀ p ∈ a.accepted, Typed p.2 ∧ ∃ s, p.2.hash = .str s

theorem faithful_empty : Faithful (Appends.empty F) where
  tracked := tracked_empty
  separate := ⟨by simp [Appends.empty], by simp [Appends.empty]⟩
  holds := by simp [Appends.empty]
  typed := by simp [Appends.empty]

namespace Faithful

variable {a : Appends F}

/-- An id was tried whose entry was accepted. -/
theorem tried_of_accepted (h : Faithful a) {id : PyStr} (hid : id ∈ a.accepted.map Prod.fst) :
    id ∈ a.tried := h.tracked.tried id (List.mem_reverse.mpr hid)

/-- The next id is told by its directory. -/
theorem told (h : Faithful a) {i : Datetime × Entry F} (hsep : Separate (i.2.shardId :: a.tried)) :
    Told a.enumeration i := by
  have hplain := hsep.plain _ List.mem_cons_self
  have hfile : ∀ id other : PyStr, PlainShard id → familyName id ≠ other ++ jsonl := by
    intro id other hid hname
    have hsuffix : jsonl.isSuffixOf (familyName id) = true := by
      rw [List.isSuffixOf_iff_suffix, hname]
      exact List.suffix_append _ _
    exact Bool.false_ne_true (hid.notFile.symm.trans hsuffix)
  refine ⟨hplain.toOwnName, fun id hid hne => ⟨fun hfam => hne ?_, ?_, hfile _ _ hplain⟩⟩
  · exact hsep.apart id (List.mem_cons_of_mem _ hid) _ List.mem_cons_self hfam
  · exact hfile id _ (h.separate.plain id hid)

/-- The directory of the next id holds what was accepted for it. -/
theorem tidy (h : Faithful a) {id : PyStr} (hsep : Separate (id :: a.tried)) :
    Tidy (a.disk.shard id).family ((a.of id).map (Entry.readBack id)) := by
  by_cases hid : id ∈ a.tried
  · exact h.holds id hid
  · -- no other id has the directory, so it is not there
    have hget : Dict.get (familyName id) a.disk.families = none := by
      rw [← Option.not_isSome_iff_eq_none, Dict.get_isSome]
      intro hkey
      obtain ⟨other, hother, hfam⟩ := (h.tracked.dirs _).mp hkey
      have heq := hsep.apart other (List.mem_cons_of_mem _ hother) id List.mem_cons_self hfam
      exact hid (heq ▸ hother)
    rw [Appends.of_eq_nil fun hmem => hid (h.tried_of_accepted hmem), Disk.shard, hget]
    exact tidy_empty _

/-- The directories of the other ids are left alone. -/
theorem tidy_other (h : Faithful a) {id other : PyStr} (hsep : Separate (id :: a.tried))
    (hother : other ∈ a.tried) (hne : id ≠ other) (s : Shard F) :
    Tidy ((a.disk.setShard id s).shard other).family ((a.of other).map (Entry.readBack other)) := by
  rw [Disk.shard_setShard_ne _ _ hne fun hfam => hne
    (hsep.apart id List.mem_cons_self other (List.mem_cons_of_mem _ hother) hfam)]
  exact h.holds other hother

/-- **An append to an id with a directory of its own keeps what is kept.** -/
theorem step (h : Faithful a) (cfg : Config) {i : Datetime × Entry F} (htyped : Typed i.2)
    (hsep : Separate (i.2.shardId :: a.tried)) : Faithful (a.step cfg i) := by
  have htracked : Tracked (a.step cfg i).enumeration := by
    rw [Appends.enumeration_step]
    exact tracked_step cfg h.tracked (h.told hsep)
  have htidy := h.tidy hsep
  have hmovable : Movable (a.disk.shard i.2.shardId).pin := h.tracked.kept.pin i.2.shardId
  cases hseal : sealEntry cfg.sha i.2.shardId i.2 (getLastHash (a.disk.shard i.2.shardId).pin) with
  | error err =>
    -- refused: the shard may have a new file, and holds the same entries
    obtain ⟨s', happend, htidy', -⟩ := tidy_append_error i.1 htidy hseal
    have hstep : a.step cfg i
        = ⟨a.disk.setShard i.2.shardId s', i.2.shardId :: a.tried, a.accepted⟩ := by
      rw [Appends.step, Disk.step, Disk.append, Disk.appendTo, happend]
    refine ⟨htracked, hsep, ?_, hstep ▸ h.typed⟩
    rw [hstep]
    intro id hid
    by_cases hne : i.2.shardId = id
    · subst hne
      dsimp only
      rw [Disk.shard_setShard]
      exact htidy'
    · exact h.tidy_other hsep ((List.mem_cons.mp hid).resolve_left (Ne.symm hne)) hne s'
  | ok r =>
    obtain ⟨e', line⟩ := r
    -- sealed: the shard holds one entry more, the others what they held
    obtain ⟨s', happend, htidy', -⟩ := tidy_append i.1 htidy hmovable hseal
    obtain ⟨⟨bs, -, hsha⟩, -, -, hash, he'⟩ := sealEntry_eq_ok hseal
    have hstep : a.step cfg i = ⟨a.disk.setShard i.2.shardId s', i.2.shardId :: a.tried,
        a.accepted ++ [(i.2.shardId, e')]⟩ := by
      rw [Appends.step, Disk.step, Disk.append, Disk.appendTo, happend]
    have hof : ∀ id, (a.step cfg i).of id
        = a.of id ++ if i.2.shardId = id then [e'] else [] := by
      intro id
      rw [hstep, Appends.of, Appends.of, List.filter_append, List.map_append]
      by_cases hid : i.2.shardId = id <;> simp [hid]
    refine ⟨htracked, hsep, fun id hid => ?_, ?_⟩
    · rw [hof]
      rw [hstep] at hid ⊢
      by_cases hne : i.2.shardId = id
      · subst hne
        dsimp only
        rw [Disk.shard_setShard, if_pos rfl, List.map_append]
        exact htidy'
      · rw [if_neg hne, List.append_nil]
        exact h.tidy_other hsep ((List.mem_cons.mp hid).resolve_left (Ne.symm hne)) hne s'
    · rw [hstep]
      intro p hp
      rcases List.mem_append.mp hp with hp | hp
      · exact h.typed p hp
      · obtain rfl := List.mem_singleton.mp hp
        refine ⟨?_, _, hsha⟩
        rw [he']
        exact ⟨htyped.id, htyped.sessionId, htyped.source, htyped.content⟩

/-- An entry that can be dumped is accepted, and returned with its session and its metadata. -/
theorem accepts (h : Faithful a) (cfg : Config) {i : Datetime × Entry F}
    (hsep : Separate (i.2.shardId :: a.tried)) (hdumps : i.2.Dumps) :
    ∃ e, (a.step cfg i).accepted = a.accepted ++ [(i.2.shardId, e)] ∧
      e.sessionId = i.2.sessionId ∧ e.metadata = i.2.metadata := by
  have hmovable : Movable (a.disk.shard i.2.shardId).pin := h.tracked.kept.pin i.2.shardId
  have hsealed : ∃ r, sealEntry cfg.sha i.2.shardId i.2
      (getLastHash (a.disk.shard i.2.shardId).pin) = .ok r :=
    exists_sealEntry hdumps hmovable.lastHash (hsep.plain _ List.mem_cons_self).encodable
  obtain ⟨⟨e', line⟩, hseal⟩ := hsealed
  obtain ⟨s', happend, -⟩ := tidy_append i.1 (h.tidy hsep) hmovable hseal
  obtain ⟨-, -, -, hash, he'⟩ := sealEntry_eq_ok hseal
  refine ⟨e', ?_, by rw [he'], by rw [he']⟩
  rw [Appends.step, Disk.append, Disk.appendTo, happend]

/-! ### What is listed -/

/-- No directory is named like a file, so the ids are those of the directories. -/
theorem listedIds_eq (h : Faithful a) : listedIds a.disk
    = ((a.disk.families.filter fun f => !(py ".").isPrefixOf f.1 && getSegmentFiles f.2 ≠ []).map
        Prod.fst).map (directoryId a.disk) := by
  have hfiles : (Dict.keys a.disk.families).filter (fun name => jsonl.isSuffixOf name) = [] := by
    rw [List.filter_eq_nil_iff]
    intro name hname hsuffix
    obtain ⟨id, hid, rfl⟩ := (h.tracked.dirs name).mp hname
    exact Bool.false_ne_true ((h.separate.plain id hid).notFile.symm.trans hsuffix)
  rw [listedIds, hfiles, show a.disk.monoliths = [] from h.tracked.kept.monoliths, List.map_map]
  rfl

/-- A listed id is that of a directory, which is the one of an id that was tried. -/
theorem exists_of_listed (h : Faithful a) {shardId : PyStr} (hlisted : shardId ∈ listedIds a.disk) :
    ∃ id ∈ a.tried, familyName shardId = familyName id ∧ directoryId a.disk (familyName id) = shardId := by
  rw [h.listedIds_eq] at hlisted
  obtain ⟨name, hname, hdir⟩ := List.mem_map.mp hlisted
  obtain ⟨f, hf, rfl⟩ := List.mem_map.mp hname
  obtain ⟨id, hid, hfam⟩ := (h.tracked.dirs f.1).mp (List.mem_map_of_mem (List.mem_filter.mp hf).1)
  refine ⟨id, hid, ?_, hfam ▸ hdir⟩
  rw [← hdir, familyName_directoryId, ← hfam, (h.separate.plain id hid).familyName_familyName]

/-- **No id is listed twice.** -/
theorem nodup_listedIds (h : Faithful a) : (listedIds a.disk).Nodup := by
  have hnames : ((a.disk.families.filter fun f => !(py ".").isPrefixOf f.1 &&
      getSegmentFiles f.2 ≠ []).map Prod.fst).Nodup :=
    h.tracked.nodup.sublist (List.filter_sublist.map _)
  rw [h.listedIds_eq]
  refine List.Nodup.of_map familyName ?_
  rw [List.map_map]
  -- the directory of the id of a directory is that directory
  rw [← List.map_id (List.map Prod.fst _)] at hnames
  refine (congrArg List.Nodup (List.map_congr_left fun name hname => ?_)).mp hnames
  obtain ⟨f, hf, rfl⟩ := List.mem_map.mp hname
  obtain ⟨id, hid, hfam⟩ := (h.tracked.dirs f.1).mp (List.mem_map_of_mem (List.mem_filter.mp hf).1)
  rw [Function.comp_apply, familyName_directoryId, ← hfam,
    (h.separate.plain id hid).familyName_familyName]
  rfl

/-- The directory of a listed id holds what was accepted for the id. -/
theorem tidy_listed (h : Faithful a) {shardId : PyStr} (hlisted : shardId ∈ listedIds a.disk) :
    ∃ fam, Dict.get (familyName shardId) a.disk.families = some fam ∧
      Tidy fam ((a.of shardId).map (Entry.readBack shardId)) := by
  obtain ⟨id, hid, hfam, hdir⟩ := h.exists_of_listed hlisted
  obtain ⟨fam, hget⟩ : ∃ fam, Dict.get (familyName id) a.disk.families = some fam :=
    Option.isSome_iff_exists.mp (Dict.get_isSome.mpr ((h.tracked.dirs _).mpr ⟨id, hid, rfl⟩))
  have hholds := h.holds id hid
  rw [Disk.shard, hget, Option.getD_some] at hholds
  refine ⟨fam, hfam ▸ hget, ?_⟩
  by_cases haccepted : id ∈ a.accepted.map Prod.fst
  · -- the id is told by its directory
    have htold : directoryId a.disk (familyName id) = id :=
      directoryId_familyName h.tracked (List.mem_reverse.mpr haccepted)
    rw [← hdir, htold]
    exact hholds
  · -- nothing was accepted, under no id of the directory
    have hnot : shardId ∉ a.accepted.map Prod.fst := by
      intro hmem
      have heq := h.separate.apart shardId (h.tried_of_accepted hmem) id hid hfam
      exact haccepted (heq ▸ hmem)
    rw [Appends.of_eq_nil haccepted] at hholds
    rw [Appends.of_eq_nil hnot]
    exact hholds

end Faithful

/-! ### The storage that is shown -/

/-- The entry that is stored of one that was accepted. -/
structure StoredAs (e : Entry F) (y : StoredEntry F) : Prop where
  id : e.id = .str y.id
  timestamp : e.timestamp = y.timestamp
  sessionId : e.sessionId = .str y.sessionId
  source : e.source = .str y.source
  content : e.content = .str y.content
  metadata : readBack e.metadata = y.metadata

/-- An entry of strings is stored. -/
theorem exists_stored {e : Entry F} (h : Typed e) (hhash : ∃ s, e.hash = .str s) (shardId : PyStr) :
    ∃ y, storedOf (e.readBack shardId) = some y ∧ StoredAs e y := by
  obtain ⟨id, hid⟩ := h.id
  obtain ⟨sessionId, hsession⟩ := h.sessionId
  obtain ⟨source, hsource⟩ := h.source
  obtain ⟨content, hcontent⟩ := h.content
  obtain ⟨hash, hhash⟩ := hhash
  refine ⟨⟨id, e.timestamp, sessionId, source, content, shardId, hash, readBack e.metadata⟩, ?_,
    hid, rfl, hsession, hsource, hcontent, rfl⟩
  unfold storedOf Entry.readBack Entry.record Record.entry
  rw [hid, hsession, hsource, hcontent, hhash]
  rfl

omit [PyFloat F] in
/-- What each element gives is given by the list. -/
theorem mapM_eq_some {α β : Type*} {f : α → Option β} {as : List α} {bs : List β}
    (h : List.Forall₂ (fun a b => f a = some b) as bs) : as.mapM f = some bs := by
  induction h with
  | nil => rfl
  | cons hab _ ih => rw [List.mapM_cons, hab, ih]; rfl

/-- The entries of an id are stored one by one. -/
theorem Faithful.exists_entries {a : Appends F} (h : Faithful a) (shardId : PyStr) :
    ∃ ys, List.Forall₂ (fun e y => storedOf e = some y)
      ((a.of shardId).map (Entry.readBack shardId)) ys ∧ List.Forall₂ StoredAs (a.of shardId) ys := by
  have htyped : ∀ e ∈ a.of shardId, Typed e ∧ ∃ s, e.hash = .str s := fun e he =>
    h.typed _ (Appends.mem_of.mp he)
  generalize a.of shardId = es at htyped
  induction es with
  | nil => exact ⟨[], .nil, .nil⟩
  | cons e es ih =>
    obtain ⟨y, hy, hstored⟩ := exists_stored (htyped e List.mem_cons_self).1
      (htyped e List.mem_cons_self).2 shardId
    obtain ⟨ys, hys, hall⟩ := ih fun e he => htyped e (List.mem_cons_of_mem _ he)
    exact ⟨y :: ys, .cons hy hys, .cons hstored hall⟩

/-- A page of a directory is that of the entries it holds. -/
theorem Tidy.page {fam : Family} {ds : List (Entry F)} (h : Tidy fam ds) (offset : ℕ) {limit : ℕ}
    (hlimit : 0 < limit) :
    readSegmented fam offset limit = .ok ((ds.reverse.drop offset).take limit) := by
  obtain ⟨events, hevents, hmade⟩ := h.events
  have hobjects : Objects events := by
    intro event hevent
    obtain ⟨e, -, he⟩ := Pointwise.exists_of_mem_left hmade hevent
    obtain ⟨kvs, -, -, hkvs, -⟩ := entryFromEventData_eq_ok.mp he
    exact ⟨kvs, hkvs⟩
  have hbuilt : ∀ {events : List (PyVal F)} {ds : List (Entry F)},
      List.Forall₂ (fun event d => entryFromEventData event = .ok d) events ds → built events = ds := by
    intro events ds h
    induction h with
    | nil => rfl
    | cons he _ ih =>
      rw [built, List.filterMap_cons, build, he]
      exact congrArg _ ih
  rw [readSegmented_page hevents hobjects, max_eq_left (Nat.succ_le_of_lt hlimit),
    hbuilt (List.forall₂_drop offset (List.forall₂_reverse_iff.mpr hmade))]

/-- **The data directory shows the entries that were accepted**, of each id in the order of their
appends. -/
theorem exists_storeOf {a : Appends F} (h : Faithful a) : ∃ s, storeOf a.disk = some s ∧
    ShowsStore a.disk s ∧ ∀ shardId, List.Forall₂ StoredAs (a.of shardId) (s.entries shardId) := by
  choose stored hread hstored using h.exists_entries
  have hshards : (listedIds a.disk).mapM (storedShard a.disk)
      = some ((listedIds a.disk).map fun shardId => (shardId, stored shardId)) := by
    refine mapM_eq_some (List.forall₂_map_right_iff.mpr (List.forall₂_same.mpr fun id hid => ?_))
    obtain ⟨fam, hget, htidy⟩ := h.tidy_listed hid
    have hall : a.disk.allEntries id = .ok ((a.of id).map (Entry.readBack id)) := by
      rw [Disk.allEntries, hget]
      exact htidy.chrono
    rw [storedShard, hall, Except.toOption, Option.bind_some, mapM_eq_some (hread id), Option.map_some]
  have hkeys : Dict.keys ((listedIds a.disk).map fun shardId => (shardId, stored shardId))
      = listedIds a.disk := by
    rw [Dict.keys, List.map_map]
    exact List.map_id _
  have hnodup : (Dict.keys ((listedIds a.disk).map fun shardId => (shardId, stored shardId))).Nodup :=
    hkeys.symm ▸ h.nodup_listedIds
  have hlisted : ∀ id ∈ listedIds a.disk, Store.entries ⟨_, hnodup⟩ id = stored id := by
    intro id hid
    rw [Store.entries, Dict.get_of_mem hnodup (List.mem_map.mpr ⟨id, hid, rfl⟩), Option.getD_some]
  refine ⟨⟨_, hnodup⟩, ?_, ⟨?_, ?_⟩, ?_⟩
  · rw [storeOf, hshards, Option.bind_some, dif_pos hnodup]
  · intro now mtime
    obtain ⟨shards, hshards, hids, -⟩ := exists_listShards h.tracked now mtime
    exact ⟨shards, hshards, hids.trans hkeys.symm⟩
  · intro id hid offset limit hlimit
    rw [Store.listShards, hkeys] at hid
    obtain ⟨fam, hget, htidy⟩ := h.tidy_listed hid
    refine ⟨(((a.of id).map (Entry.readBack id)).reverse.drop offset).take limit, ?_, ?_⟩
    · rw [Disk.read, hget]
      exact htidy.page offset hlimit
    · rw [Store.read, hlisted id hid]
      exact List.forall₂_take _ (List.forall₂_drop _ (List.forall₂_reverse_iff.mpr (hread id)))
  · intro id
    by_cases hid : id ∈ listedIds a.disk
    · rw [hlisted id hid]
      exact hstored id
    · -- an id with an entry is listed
      have hnot : id ∉ a.accepted.map Prod.fst := by
        intro hmem
        have hcount : (listedIds a.disk).count id = 1 :=
          count_listedIds h.tracked (List.mem_reverse.mpr hmem)
        rw [List.count_eq_zero.mpr hid] at hcount
        cases hcount
      have hnone : Dict.get id ((listedIds a.disk).map fun shardId => (shardId, stored shardId)) = none := by
        rw [← Option.not_isSome_iff_eq_none, Dict.get_isSome, hkeys]
        exact hid
      rw [Appends.of_eq_nil hnot, Store.entries, hnone]
      exact .nil

end Daryl
