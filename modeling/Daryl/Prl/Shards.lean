import Daryl.Prl.Records

/-!
# One shard per run and per project

A run of a swarm and a project map go each to a shard named after an id: up to sixteen
letters and digits behind its last colon, with a prefix for the kind.  A caller of
`to_swarm_entry` may also name a shard.  Ids that agree there share a shard, and so do a
shard that is named and whatever has its directory.

The writes of a process are kept in a ledger beside the data directory: to whom an entry
belongs, and where it went.

## Main definitions

* `slug`, `prlShardName` — the shard names.
* `commitMap` — `commit_map`.
* `Owner`, `Target` — a run or a project, and the shard it is written to.
* `Ledger`, `Call`, `step` — the storage, the calls, and what they do.
* `OneOwner` — **no directory holds entries of two owners.**
* `Apart`, `Free` — the targets that do not meet, and the calls that meet none before.

## Main results

* `family_shardName_eq_iff` — two owners meet in a directory iff their targets are not apart.
* `ledger_step` — a call adds entries of its target alone, and the ledger tells what is read.
* `oneOwner_of_free` — **in a run of free calls no directory has two owners.**
-/

namespace Daryl

open Py Json Model

namespace Records

/-! ### Shard names -/

/-- Up to sixteen letters and digits behind the last colon. -/
def slug (isalnum : CodePoint → Bool) (id : PyStr) : PyStr :=
  ((id.rtakeWhile fun c => c ≠ 58).filter isalnum).take 16

/-- `prl_shard_name`. -/
def prlShardName (isalnum : CodePoint → Bool) (projectId : PyStr) : PyStr :=
  py "prl_" ++ slug isalnum projectId

/-- `swarm_shard_name` is the other name of the kind, for an id with a slug. -/
theorem swarmShardName_eq_some {isalnum : CodePoint → Bool} {id name : PyStr} :
    swarmShardName isalnum id = some name ↔
      slug isalnum id ≠ [] ∧ name = py "swarm_" ++ slug isalnum id := by
  have hname : swarmShardName isalnum id =
      if slug isalnum id = [] then none else some (py "swarm_" ++ slug isalnum id) := rfl
  rw [hname]
  split_ifs with h
  · simp [h]
  · simp [h, eq_comm]

theorem encodable_slug {isalnum : CodePoint → Bool} {id : PyStr} (h : Encodable id) :
    Encodable (slug isalnum id) := by
  intro c hc
  have hmem := List.mem_of_mem_filter (List.mem_of_mem_take hc)
  exact h c ((List.rtakeWhile_suffix _ _).subset hmem)

theorem notMem_slug {isalnum : CodePoint → Bool} {c : CodePoint} (h : isalnum c = false) (id : PyStr) :
    c ∉ slug isalnum id := by
  intro hc
  have hmem := (List.mem_filter.mp (List.mem_of_mem_take hc)).2
  rw [h] at hmem
  cases hmem

/-! ### Project maps -/

variable {F : Type} [PyFloat F]

/-- `ProjectMap`. -/
structure ProjectMap (F : Type) [PyFloat F] where
  project : ProjectNode
  files : List FileNode
  commits : List CommitNode
  edges : List (Edge F)

/-- The nodes in the order they are committed. -/
def ProjectMap.nodes (pmap : ProjectMap F) : List (PRLNode F) :=
  .project pmap.project ::
    (pmap.files.map .file ++ pmap.commits.map .commit ++ pmap.edges.map .edge)

/-- What a write finds outside: the time the draft is made, the id that is minted, and the
time of the append. -/
structure Stamp where
  made : Datetime
  id : Text
  appended : Datetime

/-- What the calls have from outside. -/
structure Env (F : Type) [PyFloat F] where
  cfg : Config
  lib : Library F
  validate : Models F
  msToIso : ℤ → Except PyError PyStr
  isalnum : CodePoint → Bool
  underscore : isalnum 95 = false

/-- The loop of `commit_map`: the entries written, and the error that ends it, if any. -/
def commitNodes (env : Env F) (shard runId : Text) :
    List (PRLNode F × Stamp) → Disk F → (List (Entry F) × Option PyError) × Disk F
  | [], d => (([], none), d)
  | (node, stamp) :: rest, d =>
    match toEntry env.lib env.msToIso stamp.made node shard runId with
    | .error e => (([], some e), d)
    | .ok draft =>
      match store env.cfg d stamp.appended stamp.id draft with
      | (.error e, d') => (([], some e), d')
      | (.ok written, d') =>
        let r := commitNodes env shard runId rest d'
        ((written :: r.1.1, r.1.2), r.2)

/-- The shard of a project. -/
def projectShard (env : Env F) (projectId : Text) : Text :=
  ⟨prlShardName env.isalnum projectId.val,
    encodable_append.mpr ⟨by decide, encodable_slug projectId.property⟩⟩

/-- `CommitResult`. -/
structure CommitResult (F : Type) where
  runId : PyStr
  projectId : PyStr
  shard : PyStr
  nEntries : ℕ
  tipHash : PyVal F

/-- `commit_map`, with a stamp for each node. -/
def commitMap (env : Env F) (d : Disk F) (pmap : ProjectMap F) (runId : Text) (stamps : ℕ → Stamp) :
    Except PyError (CommitResult F) × Disk F :=
  let shard := projectShard env pmap.project.projectId
  let nodes := pmap.nodes.zipIdx.map fun p => (p.1, stamps p.2)
  match commitNodes env shard runId nodes d with
  | ((_, some e), d') => (.error e, d')
  | ((written, none), d') =>
    (.ok ⟨runId.val, pmap.project.projectId.val, shard.val, written.length,
      (written.getLast?.map Entry.hash).getD (.str [])⟩, d')

/-! ### The ledger -/

/-- Whose entry it is. -/
inductive Owner
  | run (id : PyStr)
  | project (id : PyStr)
  deriving DecidableEq

/-- An owner, and the shard the caller names, if it names one. -/
structure Target where
  owner : Owner
  given : Option PyStr
  deriving DecidableEq

/-- An entry that was written, as it is read: its target, and the shard it went to. -/
structure Written (F : Type) where
  target : Target
  shardId : PyStr
  entry : Entry F

/-- The storage, and all that was written to it. -/
structure Ledger (F : Type) where
  disk : Disk F
  log : List (Written F)

/-- Nothing is written yet. -/
def Ledger.empty (F : Type) : Ledger F := ⟨Disk.empty F, []⟩

/-- A call of the store. -/
inductive Call (F : Type) [PyFloat F]
  | map (pmap : ProjectMap F) (runId : Text) (stamps : ℕ → Stamp)
  | swarm (record : SwarmRecord F) (shard : Option Text) (stamp : Stamp)

/-- The target of a call: an empty shard name is none. -/
def Call.target : Call F → Target
  | .map pmap _ _ => ⟨.project pmap.project.projectId.val, none⟩
  | .swarm record shard _ =>
    ⟨.run record.swarmRunId.val, (shard.map Subtype.val).filter fun s => s ≠ []⟩

/-- A draft, as the writer of the swarm takes it. -/
def swarmDraft (draft : EntryDraft (PyVal F)) : SwarmDraft F where
  sessionId := draft.sessionId
  source := draft.source
  content := draft.content
  shard := draft.shard
  metadata := draft.metadata.foldl (fun m p => Dict.set p.1 (.val p.2) m) []
  timestamp := draft.timestamp
  version := draft.version
  nodup := by
    have hfold : ∀ (ps : List (PyStr × PyVal F)) (m : List (PyStr × MetaValue F)),
        (Dict.keys m).Nodup →
        (Dict.keys (ps.foldl (fun m p => Dict.set p.1 (.val p.2) m) m)).Nodup := by
      intro ps
      induction ps with
      | nil => exact fun m hm => hm
      | cons p ps ih => exact fun m hm => ih _ (Dict.nodup_keys_set hm)
    exact hfold draft.metadata [] List.nodup_nil

/-- The newest entry of a shard. -/
def newest (d : Disk F) (shardId : PyStr) : Option (Entry F) :=
  match d.read shardId 0 1 with
  | .ok (e :: _) => some e
  | _ => none

/-- A call: `commit_map`, or `commit_swarm_entry` on a draft of `to_swarm_entry`. -/
def step (env : Env F) (s : Ledger F) (call : Call F) : Ledger F :=
  match call with
  | .map pmap runId stamps =>
    let shard := projectShard env pmap.project.projectId
    let nodes := pmap.nodes.zipIdx.map fun p => (p.1, stamps p.2)
    let r := commitNodes env shard runId nodes s.disk
    ⟨(commitMap env s.disk pmap runId stamps).2,
      s.log ++ r.1.1.map fun e => ⟨call.target, shard.val, e.readBack shard.val⟩⟩
  | .swarm record shard stamp =>
    match toSwarmEntry env.lib env.isalnum stamp.made record shard with
    | .error _ => s
    | .ok draft =>
      match commitSwarmEntry env.cfg env.validate s.disk stamp.appended stamp.id (swarmDraft draft)
        with
      | (.error _, d') => ⟨d', s.log⟩
      | (.ok _, d') =>
        ⟨d', s.log ++ (newest d' draft.shard).toList.map fun e => ⟨call.target, draft.shard, e⟩⟩

/-- **No directory holds entries of two owners.** -/
def OneOwner (s : Ledger F) : Prop :=
  ∀ v ∈ s.log, ∀ w ∈ s.log, familyName v.shardId = familyName w.shardId →
    v.target.owner = w.target.owner

/-- **What is read of a shard is what the ledger has of its directory**, newest first. -/
def Told (s : Ledger F) : Prop :=
  ∀ shardId limit es, s.disk.read shardId 0 limit = .ok es →
    es = (((s.log.filter fun w => familyName w.shardId = familyName shardId).map
      Written.entry).reverse).take (max limit 1)

/-! ### Targets that do not meet -/

/-- The name that a shard of an owner has of itself. -/
def Owner.ownName (isalnum : CodePoint → Bool) : Owner → PyStr
  | .run id => py "swarm_" ++ slug isalnum id
  | .project id => py "prl_" ++ slug isalnum id

/-- The shard name of a target. -/
def Target.shardName (isalnum : CodePoint → Bool) (t : Target) : PyStr :=
  t.given.getD (t.owner.ownName isalnum)

/-- **Where two targets do not meet**: owners of one kind have different slugs, and a shard
that is named has not the directory of the other. -/
def Apart (isalnum : CodePoint → Bool) (t u : Target) : Prop :=
  match t.given, u.given with
  | none, none =>
    match t.owner, u.owner with
    | .run a, .run b => slug isalnum a ≠ slug isalnum b
    | .project a, .project b => slug isalnum a ≠ slug isalnum b
    | _, _ => True
  | some s, none => familyName s ≠ u.owner.ownName isalnum
  | none, some s => t.owner.ownName isalnum ≠ familyName s
  | some s, some s' => familyName s ≠ familyName s'

/-- **The call meets no target of another owner** that was written to before. -/
def Free (isalnum : CodePoint → Bool) (s : Ledger F) (call : Call F) : Prop :=
  ∀ w ∈ s.log, w.target.owner ≠ call.target.owner → Apart isalnum w.target call.target

/-- The name an owner has of itself is the name of its directory. -/
theorem familyName_ownName {isalnum : CodePoint → Bool} (h : isalnum 95 = false) (o : Owner) :
    familyName (o.ownName isalnum) = o.ownName isalnum := by
  have hold : py "shard_" = [115, 104, 97, 114, 100, 95] := rfl
  have hslug : ∀ id, replaceAux [115, 104, 97, 114, 100, 95] [] 0 (slug isalnum id) =
      slug isalnum id := fun id => replace_of_notMem [] (by decide) (notMem_slug h id)
  cases o with
  | run id =>
    have hname : Owner.ownName isalnum (.run id) =
        115 :: 119 :: 97 :: 114 :: 109 :: 95 :: slug isalnum id := rfl
    rw [familyName, replace, hname, hold]
    simp [replaceAux, hslug]
  | project id =>
    have hname : Owner.ownName isalnum (.project id) =
        112 :: 114 :: 108 :: 95 :: slug isalnum id := rfl
    rw [familyName, replace, hname, hold]
    simp [replaceAux, hslug]

/-- **Two targets meet in a directory iff they are not apart.** -/
theorem family_shardName_eq_iff {isalnum : CodePoint → Bool} (h : isalnum 95 = false) (t u : Target) :
    familyName (t.shardName isalnum) = familyName (u.shardName isalnum) ↔ ¬Apart isalnum t u := by
  obtain ⟨o, g⟩ := t
  obtain ⟨o', g'⟩ := u
  cases g with
  | some s =>
    cases g' with
    | some s' => simp [Apart, Target.shardName]
    | none => simp [Apart, Target.shardName, familyName_ownName h]
  | none =>
    cases g' with
    | some s' => simp [Apart, Target.shardName, familyName_ownName h]
    | none =>
      simp only [Apart, Target.shardName, Option.getD_none, familyName_ownName h]
      -- the prefixes of the kinds are different from the first letter
      cases o with
      | run a =>
        cases o' with
        | run b => simp [Owner.ownName]
        | project b =>
          simp only [Owner.ownName, not_true_eq_false, iff_false]
          exact fun heq => absurd (List.cons.inj heq).1 (by decide)
      | project a =>
        cases o' with
        | project b => simp [Owner.ownName]
        | run b =>
          simp only [Owner.ownName, not_true_eq_false, iff_false]
          exact fun heq => absurd (List.cons.inj heq).1 (by decide)

/-! ### The ledger and the storage -/

/-- The data directory is kept, each family directory holds the entries the ledger has of
it, and these went where their targets say. -/
structure Ledger.Kept (isalnum : CodePoint → Bool) (s : Ledger F) : Prop where
  disk : s.disk.Kept
  tidy : ∀ name, Tidy ((Dict.get name s.disk.families).getD (Family.empty name))
    ((s.log.filter fun w => familyName w.shardId = name).map Written.entry)
  named : ∀ w ∈ s.log, w.shardId = w.target.shardName isalnum

theorem ledger_empty (isalnum : CodePoint → Bool) : (Ledger.empty F).Kept isalnum where
  disk := kept_empty
  tidy name := tidy_empty name
  named w hw := by cases hw

/-- The ledger tells what is read. -/
theorem Ledger.Kept.told {isalnum : CodePoint → Bool} {s : Ledger F} (h : s.Kept isalnum) :
    Told s := by
  intro shardId limit es hread
  have htidy := h.tidy (familyName shardId)
  unfold Disk.read at hread
  cases hget : Dict.get (familyName shardId) s.disk.families with
  | some fam =>
    rw [hget] at hread htidy
    dsimp only at hread
    rw [Option.getD_some] at htidy
    rw [htidy.read] at hread
    exact (Except.ok.inj hread).symm
  | none =>
    rw [hget, h.disk.monoliths] at hread
    rw [hget, Option.getD_none] at htidy
    dsimp only [Dict.get] at hread
    split_ifs at hread
    obtain rfl := Except.ok.inj hread
    -- a directory that is not there holds no entry
    have hempty : ([] : List (Entry F)) = ((s.log.filter fun w => familyName w.shardId =
        familyName shardId).map Written.entry).reverse := by
      apply eq_of_take_max
      intro limit
      have hl := (tidy_empty (F := F) (familyName shardId)).read limit
      rw [htidy.read] at hl
      exact (Except.ok.inj hl).symm
    rw [← hempty, List.take_nil]

/-- **An append, accepted or not, keeps the ledger.** -/
theorem ledger_append {isalnum : CodePoint → Bool} {s : Ledger F} (h : s.Kept isalnum) (cfg : Config)
    {target : Target} {shardId : PyStr} (hname : shardId = target.shardName isalnum) (now : Datetime)
    (e : Entry F) :
    (∃ err d', s.disk.appendTo cfg shardId now e = (.error err, d') ∧
      (⟨d', s.log⟩ : Ledger F).Kept isalnum) ∨
    ∃ e' d', s.disk.appendTo cfg shardId now e = (.ok e', d') ∧
      newest d' shardId = some (e'.readBack shardId) ∧
      (⟨d', s.log ++ [⟨target, shardId, e'.readBack shardId⟩]⟩ : Ledger F).Kept isalnum := by
  have hdir := h.tidy (familyName shardId)
  have hpin := h.disk.pin shardId
  cases hseal : sealEntry cfg.sha shardId e (getLastHash (s.disk.shard shardId).pin) with
  | error err =>
    -- refused: the directory holds what it held
    obtain ⟨s', happend, htidy, hkept⟩ := tidy_append_error now hdir hseal
    refine Or.inl ⟨err, s.disk.setShard shardId s', by rw [Disk.appendTo, happend], ?_, ?_, h.named⟩
    · exact kept_setShard h.disk shardId htidy (hkept ▸ hpin)
    · intro name
      by_cases hsame : familyName shardId = name
      · subst hsame
        rw [Disk.setShard, Dict.get_set_self, Option.getD_some]
        exact htidy
      · rw [Disk.setShard, Dict.get_set_ne hsame]
        exact h.tidy name
  | ok r =>
    obtain ⟨e', line⟩ := r
    obtain ⟨s', happend, htidy, hmovable⟩ := tidy_append now hdir hpin hseal
    refine Or.inr ⟨e', s.disk.setShard shardId s', by rw [Disk.appendTo, happend], ?_, ?_, ?_, ?_⟩
    · -- the newest entry is the one that was sealed
      rw [newest, read_setShard, htidy.read, List.reverse_append, List.reverse_singleton]
      rfl
    · exact kept_setShard h.disk shardId htidy hmovable
    · intro name
      by_cases hsame : familyName shardId = name
      · subst hsame
        rw [Disk.setShard, Dict.get_set_self, Option.getD_some, List.filter_append, List.map_append,
          List.filter_singleton, decide_eq_true rfl, cond_true]
        exact htidy
      · rw [Disk.setShard, Dict.get_set_ne hsame, List.filter_append, List.filter_singleton,
          decide_eq_false hsame, cond_false, List.append_nil]
        exact h.tidy name
    · intro w hw
      rcases List.mem_append.mp hw with hw | hw
      · exact h.named w hw
      · obtain rfl := List.mem_singleton.mp hw
        exact hname

/-- A draft of `to_entry` goes to the shard it was made for. -/
theorem shard_of_toEntry {lib : Library F} {msToIso : ℤ → Except PyError PyStr} {now : Datetime}
    {n : PRLNode F} {shard sessionId : Text} {draft : EntryDraft (PyVal F)}
    (h : toEntry lib msToIso now n shard sessionId = .ok draft) : draft.shard = shard.val := by
  unfold toEntry at h
  split at h
  · cases h
  cases htime : factTimestamp msToIso now n with
  | error e =>
    rw [htime] at h
    cases h
  | ok timestamp =>
    rw [htime] at h
    obtain rfl := Except.ok.inj h
    rfl

/-- So does the append of a draft. -/
theorem ledger_store {isalnum : CodePoint → Bool} {s : Ledger F} (h : s.Kept isalnum) (cfg : Config)
    {target : Target} {shardId : PyStr} (hname : shardId = target.shardName isalnum)
    (hne : shardId ≠ []) (now : Datetime) (id : Text) {draft : EntryDraft (PyVal F)}
    (hshard : draft.shard = shardId) :
    (∃ err d', store cfg s.disk now id draft = (.error err, d') ∧
      (⟨d', s.log⟩ : Ledger F).Kept isalnum) ∨
    ∃ e' d', store cfg s.disk now id draft = (.ok e', d') ∧
      (⟨d', s.log ++ [⟨target, shardId, e'.readBack shardId⟩]⟩ : Ledger F).Kept isalnum := by
  unfold store
  cases draftTimestamp draft.timestamp with
  | none => exact Or.inl ⟨_, _, rfl, h⟩
  | some ts =>
    have hid : (kernelEntry draft id ts).shardId = shardId := by
      have hentry : (kernelEntry draft id ts).shardId =
          if draft.shard = [] then py "default" else draft.shard := rfl
      rw [hentry, hshard, if_neg hne]
    dsimp only
    rw [Disk.append, hid]
    rcases ledger_append h cfg hname now (kernelEntry draft id ts) with
      ⟨err, d', happend, hkept⟩ | ⟨e', d', happend, -, hkept⟩
    · exact Or.inl ⟨err, d', happend, hkept⟩
    · exact Or.inr ⟨e', d', happend, hkept⟩

/-- The loop of `commit_map` keeps the ledger. -/
theorem ledger_commitNodes (env : Env F) (shard runId : Text) (target : Target)
    (hname : shard.val = target.shardName env.isalnum) (hne : shard.val ≠ []) :
    ∀ (nodes : List (PRLNode F × Stamp)) (s : Ledger F), s.Kept env.isalnum →
      (⟨(commitNodes env shard runId nodes s.disk).2,
        s.log ++ (commitNodes env shard runId nodes s.disk).1.1.map fun e =>
          ⟨target, shard.val, e.readBack shard.val⟩⟩ : Ledger F).Kept env.isalnum := by
  intro nodes
  induction nodes with
  | nil =>
    intro s hs
    rw [commitNodes, List.map_nil, List.append_nil]
    exact hs
  | cons p rest ih =>
    intro s hs
    obtain ⟨node, stamp⟩ := p
    rw [commitNodes]
    split
    · rw [List.map_nil, List.append_nil]
      exact hs
    next draft hdraft =>
    rcases ledger_store hs env.cfg hname hne stamp.appended stamp.id (shard_of_toEntry hdraft) with
      ⟨err, d', hstore, hkept⟩ | ⟨e', d', hstore, hkept⟩
    · rw [hstore]
      dsimp only
      rw [List.map_nil, List.append_nil]
      exact hkept
    · rw [hstore]
      have hrest := ih _ hkept
      rw [List.append_assoc, List.singleton_append] at hrest
      exact hrest

/-- What a draft of `to_swarm_entry` is: it goes to the shard of its target. -/
theorem fields_of_toSwarmEntry {env : Env F} {record : SwarmRecord F} {shard : Option Text}
    {stamp : Stamp} {draft : EntryDraft (PyVal F)}
    (h : toSwarmEntry env.lib env.isalnum stamp.made record shard = .ok draft) :
    draft.shard = (Call.swarm record shard stamp).target.shardName env.isalnum ∧ draft.shard ≠ [] ∧
      draft.metadata = [(py "action_name", .str (swarmAction record.kind)),
        (py "schema_version", .str record.schemaVersion.val)] := by
  unfold toSwarmEntry at h
  split at h
  · cases h
  split at h
  · cases h
  split at h
  · cases h
  next shardName hshard =>
  obtain rfl := Except.ok.inj h
  -- a name of its own is not empty, for it has a prefix
  have hown : ∀ name, swarmShardName env.isalnum record.swarmRunId.val = some name →
      name = Owner.ownName env.isalnum (.run record.swarmRunId.val) ∧ name ≠ [] := by
    intro name hname
    exact ⟨(swarmShardName_eq_some.mp hname).2, (swarmShardName_ne_nil hname).1⟩
  unfold shardOr at hshard
  cases shard with
  | none =>
    obtain ⟨hname, hne⟩ := hown _ hshard
    exact ⟨hname, hne, rfl⟩
  | some t =>
    dsimp only at hshard
    split_ifs at hshard with ht
    · obtain ⟨hname, hne⟩ := hown _ hshard
      refine ⟨?_, hne, rfl⟩
      rw [hname, Target.shardName, Call.target, Option.map_some, Option.filter_some,
        decide_eq_false (not_not_intro ht)]
      rfl
    · obtain rfl := Option.some.inj hshard
      refine ⟨?_, ht, rfl⟩
      rw [Target.shardName, Call.target, Option.map_some, Option.filter_some, decide_eq_true ht]
      rfl

/-- A commit of a draft of `to_swarm_entry` keeps the ledger. -/
theorem ledger_commitSwarmEntry {env : Env F} {s : Ledger F} (h : s.Kept env.isalnum)
    {record : SwarmRecord F} {shard : Option Text} {stamp : Stamp} {draft : EntryDraft (PyVal F)}
    (hdraft : toSwarmEntry env.lib env.isalnum stamp.made record shard = .ok draft) :
    (∃ err d', commitSwarmEntry env.cfg env.validate s.disk stamp.appended stamp.id
        (swarmDraft draft) = (.error err, d') ∧ (⟨d', s.log⟩ : Ledger F).Kept env.isalnum) ∨
    ∃ result d' e, commitSwarmEntry env.cfg env.validate s.disk stamp.appended stamp.id
        (swarmDraft draft) = (.ok result, d') ∧ newest d' draft.shard = some e ∧
      (⟨d', s.log ++ [⟨(Call.swarm record shard stamp).target, draft.shard, e⟩]⟩ :
        Ledger F).Kept env.isalnum := by
  obtain ⟨hname, hne, hmeta⟩ := fields_of_toSwarmEntry hdraft
  have hvals : ∃ metadata, (swarmDraft draft).stampedVals = some metadata := by
    have hlift : (swarmDraft draft).metadata =
        [(py "action_name", .val (.str (swarmAction record.kind))),
          (py "schema_version", .val (.str record.schemaVersion.val))] := by
      rw [swarmDraft]
      dsimp only
      rw [hmeta]
      rfl
    rw [SwarmDraft.stampedVals, SwarmDraft.stamped, hlift]
    exact ⟨_, rfl⟩
  obtain ⟨metadata, hvals⟩ := hvals
  unfold commitSwarmEntry
  split
  · exact Or.inl ⟨_, _, rfl, h⟩
  next action _ =>
  split
  · exact Or.inl ⟨_, _, rfl, h⟩
  next ts _ =>
  rw [hvals]
  dsimp only
  have hid : ((swarmDraft draft).kernelEntry stamp.id ts metadata).shardId = draft.shard := if_neg hne
  rw [Disk.append, hid]
  rcases ledger_append h env.cfg hname stamp.appended
      ((swarmDraft draft).kernelEntry stamp.id ts metadata) with
    ⟨err, d', happend, hkept⟩ | ⟨e', d', happend, hnewest, hkept⟩
  · rw [happend]
    exact Or.inl ⟨_, _, rfl, hkept⟩
  · rw [happend]
    exact Or.inr ⟨_, _, _, rfl, hnewest, hkept⟩

/-- The data directory after `commit_map` is that after its loop. -/
theorem commitMap_disk (env : Env F) (d : Disk F) (pmap : ProjectMap F) (runId : Text)
    (stamps : ℕ → Stamp) :
    (commitMap env d pmap runId stamps).2 =
      (commitNodes env (projectShard env pmap.project.projectId) runId
        (pmap.nodes.zipIdx.map fun p => (p.1, stamps p.2)) d).2 := by
  unfold commitMap
  dsimp only
  split
  · next heq => rw [heq]
  · next heq => rw [heq]

/-- **A call keeps the ledger, and what it adds is of its target.** -/
theorem ledger_step (env : Env F) {s : Ledger F} (h : s.Kept env.isalnum) (call : Call F) :
    (step env s call).Kept env.isalnum ∧
      ∃ new, (step env s call).log = s.log ++ new ∧ ∀ w ∈ new, w.target = call.target := by
  cases call with
  | map pmap runId stamps =>
    refine ⟨?_, _, rfl, ?_⟩
    · have hkept := ledger_commitNodes env (projectShard env pmap.project.projectId) runId
        (Call.map pmap runId stamps).target rfl (List.append_ne_nil_of_left_ne_nil (by decide) _)
        (pmap.nodes.zipIdx.map fun p => (p.1, stamps p.2)) s h
      rw [step, commitMap_disk]
      exact hkept
    · intro w hw
      obtain ⟨e, -, rfl⟩ := List.mem_map.mp hw
      rfl
  | swarm record shard stamp =>
    rw [step]
    split
    · exact ⟨h, [], by rw [List.append_nil], by simp⟩
    next draft hdraft =>
    rcases ledger_commitSwarmEntry h hdraft with
      ⟨err, d', hcommit, hkept⟩ | ⟨result, d', e, hcommit, hnewest, hkept⟩
    · rw [hcommit]
      exact ⟨hkept, [], by rw [List.append_nil], by simp⟩
    · rw [hcommit]
      dsimp only
      rw [hnewest]
      refine ⟨hkept, _, rfl, fun w hw => ?_⟩
      obtain rfl := List.mem_singleton.mp hw
      rfl

/-! ### One owner -/

/-- **A free call brings no second owner into a directory.** -/
theorem oneOwner_step (env : Env F) {s : Ledger F} (h : s.Kept env.isalnum) (hone : OneOwner s)
    {call : Call F} (hfree : Free env.isalnum s call) : OneOwner (step env s call) := by
  obtain ⟨-, new, hlog, hnew⟩ := ledger_step env h call
  obtain ⟨hkept, -⟩ := ledger_step env h call
  -- what the call adds meets nothing of another owner
  have hmeet : ∀ v ∈ s.log, ∀ w ∈ new, familyName v.shardId = familyName w.shardId →
      v.target.owner = call.target.owner := by
    intro v hv w hw hfam
    by_contra howner
    have hmem : ∀ u, u ∈ s.log ∨ u ∈ new → u ∈ (step env s call).log := by
      intro u hu
      rw [hlog]
      exact List.mem_append.mpr hu
    rw [hkept.named v (hmem v (Or.inl hv)), hkept.named w (hmem w (Or.inr hw)), hnew w hw,
      family_shardName_eq_iff env.underscore] at hfam
    exact hfam (hfree v hv howner)
  intro v hv w hw hfam
  rw [hlog] at hv hw
  rcases List.mem_append.mp hv with hv | hv
  · rcases List.mem_append.mp hw with hw | hw
    · exact hone v hv w hw hfam
    · rw [hnew w hw]
      exact hmeet v hv w hw hfam
  · rcases List.mem_append.mp hw with hw | hw
    · rw [hnew v hv]
      exact (hmeet w hw v hv hfam.symm).symm
    · rw [hnew v hv, hnew w hw]

/-- **In a run of free calls no directory has two owners**, and the ledger tells what is read
of every shard. -/
theorem oneOwner_of_free (env : Env F) (calls : List (Call F))
    (h : Run.Along (step env) (Free env.isalnum) (Ledger.empty F) calls) :
    Run.Always (step env) (fun s => OneOwner s ∧ Told s) (Ledger.empty F) calls := by
  have hall := Run.always_of_along (P := fun s : Ledger F => s.Kept env.isalnum ∧ OneOwner s)
    (fun s call hs hfree => ⟨(ledger_step env hs.1 call).1, oneOwner_step env hs.1 hs.2 hfree⟩)
    ⟨ledger_empty env.isalnum, fun v hv => by cases hv⟩ h
  intro js hjs
  obtain ⟨hkept, hone⟩ := hall js hjs
  exact ⟨hone, hkept.told⟩

/-! ### Two owners -/

/-- The call is one of the swarm, and is accepted. -/
def accepts (env : Env F) (s : Ledger F) : Call F → Bool
  | .map _ _ _ => false
  | .swarm record shard stamp =>
    match toSwarmEntry env.lib env.isalnum stamp.made record shard with
    | .error _ => false
    | .ok draft =>
      (commitSwarmEntry env.cfg env.validate s.disk stamp.appended stamp.id
        (swarmDraft draft)).1.toBool

/-- What is accepted is in the ledger. -/
theorem mem_of_accepts {env : Env F} {s : Ledger F} (h : s.Kept env.isalnum) (call : Call F)
    (hok : accepts env s call = true) : ∃ w ∈ (step env s call).log, w.target = call.target := by
  cases call with
  | map pmap runId stamps => cases hok
  | swarm record shard stamp =>
    unfold accepts at hok
    rw [step]
    dsimp only at hok
    split at hok
    · cases hok
    next draft hdraft =>
    rcases ledger_commitSwarmEntry h hdraft with
      ⟨err, d', hcommit, -⟩ | ⟨result, d', e, hcommit, hnewest, -⟩
    · rw [hcommit] at hok
      cases hok
    · rw [hcommit]
      dsimp only
      rw [hnewest]
      exact ⟨_, List.mem_append_right _ (List.mem_singleton_self _), rfl⟩

/-- **A call that is accepted and is not free brings a second owner into a directory.** -/
theorem not_oneOwner_of_accepts {env : Env F} {s : Ledger F} (h : s.Kept env.isalnum)
    (first second : Call F) (hfirst : accepts env s first = true)
    (hsecond : accepts env (step env s first) second = true)
    (howner : first.target.owner ≠ second.target.owner)
    (hmeet : ¬Apart env.isalnum first.target second.target) :
    ¬OneOwner (step env (step env s first) second) := by
  have hkept := (ledger_step env h first).1
  obtain ⟨v, hv, hvt⟩ := mem_of_accepts h first hfirst
  obtain ⟨w, hw, hwt⟩ := mem_of_accepts hkept second hsecond
  obtain ⟨hkept', new, hlog, -⟩ := ledger_step env hkept second
  have hv' : v ∈ (step env (step env s first) second).log := by
    rw [hlog]
    exact List.mem_append_left new hv
  intro hone
  have hsame := hone v hv' w hw (by
    rw [hkept'.named v hv', hkept'.named w hw, hvt, hwt]
    exact (family_shardName_eq_iff env.underscore _ _).mpr hmeet)
  rw [hvt, hwt] at hsame
  exact howner hsame

/-! ### Two runs of one shard -/

/-- The calls' surroundings in the samples. -/
noncomputable def sampleEnv : Env FloatLit where
  cfg := ⟨fun _ => List.replicate 64 0, defaultLimits⟩
  lib := sampleLibrary
  validate := sampleModels
  msToIso _ := .error .valueError
  isalnum := asciiAlnum
  underscore := by decide

/-- The opening of a run. -/
def openRun (swarmRunId : Text) : Call FloatLit :=
  .swarm
    (.run
      { schemaVersion := ⟨swarmSchemaVersion, encodable_swarmSchemaVersion⟩
        swarmRunId := swarmRunId
        subjectId := ⟨py "s", encodable_s⟩
        orchestratorId := ⟨py "o", encodable_o⟩
        objective := ⟨py "objective", encodable_objective⟩
        startedAt := ⟨py "2026-01-02T03:04:05.006Z", encodable_stamp⟩
        endedAt := none
        status := .opened
        traceId := none
        budgetConstraints := noEvidence.val
        environmentRef := none
        orgId := none })
    none ⟨sampleTime, ⟨py "e", encodable_e⟩, sampleTime⟩

/-- Two runs of two orchestrators. -/
def sharedCalls : List (Call FloatLit) :=
  [openRun ⟨py "alpha:2026-01", by decide⟩, openRun ⟨py "beta:2026-01", by decide⟩]

/-- **Both runs are written to the shard `swarm_202601`.** -/
theorem sharedCalls_not_oneOwner :
    ¬OneOwner (Run.run (step sampleEnv) (Ledger.empty FloatLit) sharedCalls) := by
  have hslug : slug asciiAlnum (py "alpha:2026-01") = slug asciiAlnum (py "beta:2026-01") := by
    decide +kernel
  have hempty : (Ledger.empty FloatLit).Kept sampleEnv.isalnum := ledger_empty _
  have hfirst : accepts sampleEnv (Ledger.empty FloatLit)
      (openRun ⟨py "alpha:2026-01", by decide⟩) = true := by decide +kernel
  have hsecond : accepts sampleEnv (step sampleEnv (Ledger.empty FloatLit)
      (openRun ⟨py "alpha:2026-01", by decide⟩)) (openRun ⟨py "beta:2026-01", by decide⟩) = true := by
    decide +kernel
  have howner : (openRun ⟨py "alpha:2026-01", by decide⟩).target.owner ≠
      (openRun ⟨py "beta:2026-01", by decide⟩).target.owner := by decide +kernel
  have hmeet : ¬Apart sampleEnv.isalnum (openRun ⟨py "alpha:2026-01", by decide⟩).target
      (openRun ⟨py "beta:2026-01", by decide⟩).target := fun hapart => hapart hslug
  have hnot := not_oneOwner_of_accepts hempty _ _ hfirst hsecond howner hmeet
  rw [sharedCalls, Run.run_cons, Run.run_cons, Run.run_nil]
  exact hnot

/-- Two runs whose ids differ behind the colon have a shard each. -/
theorem oneOwner_of_free_sample :
    OneOwner (Run.run (step sampleEnv) (Ledger.empty FloatLit)
      [openRun ⟨py "run:1", by decide⟩, openRun ⟨py "run:2", by decide⟩]) := by
  have hempty : (Ledger.empty FloatLit).Kept sampleEnv.isalnum := ledger_empty _
  obtain ⟨-, new, hlog, hnew⟩ := ledger_step sampleEnv hempty (openRun ⟨py "run:1", by decide⟩)
  have hslug : slug asciiAlnum (py "run:1") ≠ slug asciiAlnum (py "run:2") := by decide +kernel
  have hsecond : Free sampleEnv.isalnum
      (step sampleEnv (Ledger.empty FloatLit) (openRun ⟨py "run:1", by decide⟩))
      (openRun ⟨py "run:2", by decide⟩) := by
    intro w hw _
    rw [hlog] at hw
    rcases List.mem_append.mp hw with hw | hw
    · cases hw
    · rw [hnew w hw]
      exact hslug
  have hall := oneOwner_of_free sampleEnv
    [openRun ⟨py "run:1", by decide⟩, openRun ⟨py "run:2", by decide⟩]
    ⟨fun w hw => (List.not_mem_nil hw).elim, hsecond, trivial⟩
  exact (hall _ (List.prefix_refl _)).1

end Records

end Daryl
