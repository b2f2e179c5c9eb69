import Daryl.Dsm.ColdStorage
import Daryl.Prl.Ingest
import Daryl.Prl.Projections

/-!
# `prl.ingest`: what an import leaves behind

An import commits its acts one by one, so what stops it decides what is left in the store.
Junk that is met before the first act of all stops it before anything is written; junk
that is met later leaves acts behind, and no manifest that counts them.

What a conversation comes to depends on the conversation alone: nothing, its acts, an error
before the first of them, or an error after some.

## Main definitions

* `Dumps` — codecs of which every dump can be written.
* `ActEntry` — the entry of an act, as it is read back.
* `AllOrNothing` — **all acts and a true manifest, or an error and nothing.**
* `Silent`, `Importable`, `RefusedAtOnce` — what a conversation comes to.
* `Orderly` — the maps of conversations that are imported whole or not at all.

## Main results

* `commitAct_ok` — a node with a date is committed, and read back.
* `importConversation_cases`, `importLoop_cases` — what is committed.
* `allOrNothing_iff` — **the import is all or nothing iff its conversations are orderly.**
-/

namespace Daryl

open Py Json Model Records

namespace Ingest

variable {F : Type} [PyFloat F]

/-! ### Nodes that are written -/

section

variable {α β : Type} {names : List PyStr}

/-- Whatever is dumped can be written. -/
def Dumps (c : Codec F α) : Prop := ∀ a, Dumpable (c.dump a)

/-- What is not left out can be written. -/
def FieldDumps (f : Model.Field F α) : Prop := ∀ a, ∀ v ∈ f.dump a, Dumpable v

/-- Every field can be written under its name. -/
def FieldsDump (m : Fields F names α) : Prop := ∀ a, ∀ p ∈ m.dump a, Encodable p.1 ∧ Dumpable p.2

theorem Dumps.required {c : Codec F α} (h : Dumps c) : FieldDumps c.required := by
  intro a v hv
  obtain rfl := Option.some.inj hv
  exact h a

theorem Dumps.withDefault {c : Codec F α} (h : Dumps c) (default : α) :
    FieldDumps (c.withDefault default) := by
  intro a v hv
  obtain rfl := Option.some.inj hv
  exact h a

theorem Dumps.optional {c : Codec F α} (h : Dumps c) : FieldDumps c.optional := by
  intro a v hv
  obtain ⟨b, -, rfl⟩ := Option.mem_map.mp hv
  exact h b

theorem Dumps.refine {c : Codec F α} (h : Dumps c) (make : α → Option β) (get : β → α)
    (hmake : ∀ b, make (get b) = some b) : Dumps (c.refine make get hmake) := fun b => h (get b)

theorem dumps_literal (text : α → PyStr) (all : List α) (henc : ∀ a, Encodable (text a))
    (hall : ∀ a, (all.find? fun b => text b = text a) = some a) :
    Dumps (Codec.literal (F := F) text all henc hall) := fun a => dumpable_str (henc a)

theorem fieldsDump_nil : FieldsDump (Fields.nil (F := F)) := by
  intro a p hp
  cases hp

theorem FieldsDump.cons {k : PyStr} {f : Model.Field F α} {m : Fields F names β} (hk : Encodable k)
    (hf : FieldDumps f) (hm : FieldsDump m) : FieldsDump (Fields.cons k f m) := by
  intro a p hp
  rcases List.mem_append.mp hp with hp | hp
  · obtain ⟨v, hv, rfl⟩ := List.mem_map.mp hp
    exact dumpableField hk (hf a.1 v (Option.mem_toList.mp hv))
  · exact hm a.2 p hp

theorem FieldsDump.refine {m : Fields F names α} (h : FieldsDump m) (make : α → Option β)
    (get : β → α) (hmake : ∀ b, make (get b) = some b) : FieldsDump (m.refine make get hmake) :=
  fun b => h (get b)

theorem FieldsDump.codec {m : Fields F names α} (h : FieldsDump m) (hnodup : names.Nodup)
    (henc : ∀ k ∈ names, Encodable k) : Dumps (m.codec hnodup henc) := fun a => dumpable_object (h a)

end

section

variable (lib : Library F)

theorem dumps_text : Dumps (text lib) := fun s => dumpable_str s.property

theorem dumps_nonEmptyText : Dumps (nonEmptyText lib) := (dumps_text lib).refine _ _ _

theorem dumps_int : Dumps (Codec.int lib.reader) := fun _ => ⟨⟨_, _, rfl, rfl⟩, trivial⟩

theorem dumps_bool : Dumps (Codec.bool lib.reader) := fun _ => ⟨⟨_, _, rfl, rfl⟩, trivial⟩

theorem dumps_confidence : Dumps (confidence lib) := fun _ => ⟨⟨_, _, rfl, rfl⟩, trivial⟩

theorem fieldDumps_tag {s : PyStr} (henc : Encodable s) : FieldDumps (F := F) (tag s henc) :=
  (dumps_literal _ _ _ _).withDefault ()

theorem dumps_carrier : Dumps (carrier lib) := by
  refine (FieldsDump.refine ?_ _ _ _).codec _ _
  exact .cons (by decide) (dumps_nonEmptyText lib).required <|
    .cons (by decide) (dumps_text lib).optional <|
    .cons (by decide) (dumps_text lib).optional fieldsDump_nil

theorem dumps_mef : Dumps (mef lib) := by
  refine (FieldsDump.refine ?_ _ _ _).codec _ _
  exact .cons (by decide) (dumps_nonEmptyText lib).required <|
    .cons (by decide) (dumps_nonEmptyText lib).required <|
    .cons (by decide) (dumps_confidence lib).required <|
    .cons (by decide) (dumps_bool lib).required <|
    .cons (by decide) (dumps_nonEmptyText lib).required <|
    .cons (by decide) (dumps_nonEmptyText lib).optional <|
    .cons (by decide) (dumps_carrier lib).optional fieldsDump_nil

/-- A session can be written. -/
theorem dumps_sessionNode : Dumps (sessionNode lib) := by
  refine (FieldsDump.refine ?_ _ _ _).codec _ _
  exact .cons (by decide) (fieldDumps_tag _) <|
    .cons (by decide) (dumps_text lib).required <|
    .cons (by decide) (dumps_literal _ _ _ _).required <|
    .cons (by decide) (dumps_text lib).optional <|
    .cons (by decide) (dumps_int lib).required <|
    .cons (by decide) (dumps_int lib).optional <|
    .cons (by decide) ((dumps_text lib).withDefault _) <|
    .cons (by decide) (dumps_text lib).optional fieldsDump_nil

/-- A consultation can be written. -/
theorem dumps_consultationNode : Dumps (consultationNode lib) := by
  refine (FieldsDump.refine ?_ _ _ _).codec _ _
  exact .cons (by decide) (fieldDumps_tag _) <|
    .cons (by decide) (dumps_text lib).required <|
    .cons (by decide) (dumps_text lib).required <|
    .cons (by decide) ((dumps_literal _ _ _ _).withDefault _) <|
    .cons (by decide) (dumps_text lib).required <|
    .cons (by decide) (dumps_mef lib).required <|
    .cons (by decide) (dumps_text lib).optional fieldsDump_nil

end

/-! ### One act -/

/-- `CONSULTATION_SHARD`. -/
def consultationShard : PyStr := py "prl_consultations"

/-- The entry, as it is read of the shard of the acts, is that of the node with the id. -/
structure ActEntry (lib : Library F) (id : Text) (n : PRLNode F) (x : Entry F) : Prop where
  id : x.id = .str id.val
  sessionId : ∃ s, x.sessionId = .str s
  source : ∃ s, x.source = .str s
  content : ∃ s, x.content = .str s
  shard : ∃ s, x.shard = .str s
  hash : ∃ s, x.hash = .str s
  metadata : ∃ kvs, x.metadata = .dict kvs ∧
    dictGet (py "action_name") kvs = some (.str (prlAction n.kind))
  decodes : decode (nodeModels lib) x.metadata x.content = .ok n

/-- The metadata of an entry of a shard are read back with its action. -/
theorem dictGet_readBack_recorded {shardId line s : PyStr} {e : Entry F}
    {items : List (PyStr × PyVal F)} (hrec : Recorded shardId e line)
    (hmeta : e.metadata = .dict (strItems items)) (hkeys : (items.map Prod.fst).Nodup)
    (hmem : (py "action_name", .str s) ∈ items) :
    ∃ kvs, (e.readBack shardId).metadata = .dict kvs ∧
      dictGet (py "action_name") kvs = some (.str s) := by
  obtain ⟨w, hw, -⟩ := hrec.printed
  rw [sortDicts_entryDict] at hw
  simp only [Option.bind_eq_some_iff, Option.map_eq_some_iff] at hw
  obtain ⟨_, -, _, -, _, -, _, -, _, -, _, -, m, hsort, -⟩ := hw
  rw [hmeta] at hsort
  obtain ⟨kvs, hback, hget⟩ := dictGet_readBack hkeys hsort hmem
  rw [readBack_str] at hget
  exact ⟨kvs, (congrArg readBack hmeta).trans hback, hget⟩

/-- An append seals the entry that it is given. -/
theorem append_entry {cfg : Config} {d d' : Disk F} {now : Datetime} {e e' : Entry F}
    (h : d.append cfg now e = (.ok e', d')) :
    ∃ p hash, e' = { e with prevHash := p, hash := .str hash } := by
  have hshard : ((d.shard e.shardId).append cfg e.shardId now e).1 = .ok e' := congrArg Prod.fst h
  unfold Shard.append at hshard
  cases hprep : (d.shard e.shardId).prepare cfg e.shardId e with
  | mk r fam =>
    rw [hprep] at hshard
    cases r with
    | error err => cases hshard
    | ok p =>
      dsimp only at hshard
      split at hshard
      · cases hshard
      obtain rfl := Except.ok.inj hshard
      unfold Shard.prepare at hprep
      split at hprep
      · cases hprep
      have hmap := congrArg Prod.fst hprep
      dsimp only at hmap
      -- the seal is all that changes the entry
      cases hseal : sealEntry cfg.sha e.shardId e (getLastHash (d.shard e.shardId).pin) with
      | error err =>
        rw [hseal] at hmap
        cases hmap
      | ok r =>
        rw [hseal] at hmap
        obtain rfl := Except.ok.inj hmap
        obtain ⟨⟨bs, -, hhash⟩, -, -, hash, hx⟩ := sealEntry_eq_ok hseal
        rw [hx] at hhash
        obtain rfl : hash = _ := hhash
        exact ⟨_, _, hx⟩

/-- The entry of a directory is the one of a storage. -/
structure Stores (x : Entry F) (e : StoredEntry F) : Prop where
  id : x.id = .str e.id
  timestamp : x.timestamp = e.timestamp
  sessionId : x.sessionId = .str e.sessionId
  source : x.source = .str e.source
  content : x.content = .str e.content
  shard : x.shard = .str e.shard
  hash : x.hash = .str e.hash
  metadata : x.metadata = e.metadata

/-- **What is committed to the directory is what is committed to a storage**, under the hash that
the directory gave it. -/
theorem commitAct_stores {env : Env F} {d d' : Disk F} {node : PRLNode F} {runId : Text}
    {stamp : Stamp} {x : Entry F} (h : commitAct env d node runId stamp = (.ok x, d')) :
    ∃ hash e, Stores x e ∧ ∀ s : Store F, Projections.commitAct env.lib env.msToIso s
      ⟨node, runId, ⟨py "prl_consultations", encodable_consultations⟩, stamp.made, stamp.id.val,
        hash⟩ = some (s.append e) := by
  unfold commitAct at h
  cases hdraft : Records.toEntry env.lib env.msToIso stamp.made node
      ⟨py "prl_consultations", encodable_consultations⟩ runId with
  | error err =>
    rw [hdraft] at h
    cases h
  | ok draft =>
    rw [hdraft] at h
    dsimp only at h
    unfold store at h
    cases hts : draftTimestamp draft.timestamp with
    | none =>
      rw [hts] at h
      cases h
    | some ts =>
      rw [hts] at h
      obtain ⟨p, hash, rfl⟩ := append_entry h
      refine ⟨hash, ⟨stamp.id.val, ts, draft.sessionId, draft.source, draft.content, draft.shard,
        hash, .dict (strItems draft.metadata)⟩, ⟨rfl, rfl, rfl, rfl, rfl, rfl, rfl, rfl⟩,
        fun s => ?_⟩
      unfold Projections.commitAct Projections.ActCall.entry
      dsimp only
      rw [hdraft]
      dsimp only
      rw [draftToEntry, hts]
      rfl

/-- **A node that can be written and has a date is committed**, and read back as it was. -/
theorem commitAct_ok {env : Env F} {d : Disk F} {es : List (Entry F)}
    (h : Holds env.cfg.sha consultationShard d es) (node : PRLNode F)
    (hnode : Dumpable (node.modelDump env.lib)) (runId : Text) (stamp : Stamp) {iso : PyStr}
    {ts : Datetime} (hiso : factTimestamp env.msToIso stamp.made node = .ok iso)
    (hts : draftTimestamp iso = some ts) :
    ∃ e d', commitAct env d node runId stamp = (.ok e, d') ∧
      Holds env.cfg.sha consultationShard d' (es ++ [e]) ∧
      ActEntry env.lib stamp.id node (e.readBack consultationShard) := by
  obtain ⟨⟨w, text, hw, htext⟩, -⟩ := hnode
  have hdumps : dumpsSorted canonicalStyle (node.modelDump env.lib) = .ok text :=
    dumpsSorted_eq_ok.mpr ⟨w, hw, htext⟩
  obtain ⟨draft, hdraft, hentry⟩ : ∃ draft,
      Records.toEntry env.lib env.msToIso stamp.made node ⟨py "prl_consultations", by decide⟩ runId
        = .ok draft ∧
      draft = ⟨runId.val, py "prl", text, py "prl_consultations",
        [(py "action_name", .str (prlAction node.kind))], iso, py "prl.v1"⟩ := by
    unfold Records.toEntry
    rw [hdumps]
    dsimp only
    rw [hiso]
    exact ⟨_, rfl, rfl⟩
  have haction : Encodable (prlAction node.kind) := by
    cases node.kind <;> decide
  have hsource : Encodable (py "prl") := by decide
  have hversion : Encodable (py "prl.v1") := by decide
  -- every field of the entry can be written
  have hdump : (kernelEntry draft stamp.id ts).Dumps := by
    rw [hentry]
    refine ⟨(dumpable_str stamp.id.property).writable, dumpable_str runId.property,
      dumpable_str hsource, dumpable_object ?_, dumpable_str ?_, (dumpable_str hversion).writable⟩
    · intro p hp
      rw [List.mem_singleton.mp hp]
      exact dumpableField (by decide) (dumpable_str haction)
    · exact (within_print htext).encodable (by decide)
  have hshard : (kernelEntry draft stamp.id ts).shardId = consultationShard := by
    rw [hentry]
    rfl
  obtain ⟨e, d', happend, hholds, p, hash, he⟩ :=
    holds_append_dumps h (by decide) stamp.appended hshard hdump
  obtain ⟨line, hrec⟩ := hholds.recorded e (by simp)
  obtain ⟨bs, -, hhash⟩ := hholds.chain.hashes e (by simp)
  refine ⟨e, d', ?_, hholds, ?_⟩
  · unfold commitAct
    rw [hdraft]
    dsimp only
    have htime : draft.timestamp = iso := by rw [hentry]
    rw [store, htime, hts]
    exact happend
  · -- and read back: its action names the decoder of the node
    have hitems : e.metadata =
        .dict (strItems [(py "action_name", .str (prlAction node.kind))]) := by
      rw [he, hentry]
      rfl
    have hmeta := dictGet_readBack_recorded hrec hitems (List.nodup_singleton _)
      (List.mem_singleton_self _)
    have hcontent : (e.readBack consultationShard).content = .str text := by
      rw [he, hentry]
      rfl
    obtain ⟨kvs, hloads, hmodel⟩ := loads_node env.lib node hdumps
    obtain ⟨kvs', hkvs', hget⟩ := hmeta
    refine ⟨by rw [he]; rfl, ⟨runId.val, by rw [he, hentry]; rfl⟩, ⟨py "prl", by rw [he, hentry]; rfl⟩,
      ⟨text, hcontent⟩, ⟨consultationShard, rfl⟩, ⟨_, congrArg readBack hhash⟩, ⟨kvs', hkvs', hget⟩, ?_⟩
    rw [hcontent, hkvs']
    exact decode_dump (find_prlAction env.lib node.kind) hget hloads hmodel

/-- A data directory that holds no other shard than that of the acts. -/
structure OneShard (d : Disk F) : Prop where
  families : d.families = [] ∨ ∃ fam, d.families = [(consultationShard, fam)]
  pins : d.pins = [] ∨ ∃ file, d.pins = [(consultationShard, file)]
  monoliths : d.monoliths = []

omit [PyFloat F] in
theorem oneShard_empty : OneShard (Disk.empty F) := ⟨Or.inl rfl, Or.inl rfl, rfl⟩

/-- An act goes to the shard of the acts. -/
theorem OneShard.commitAct {d : Disk F} (h : OneShard d) (env : Env F) (node : PRLNode F)
    (runId : Text) (stamp : Stamp) : OneShard (commitAct env d node runId stamp).2 := by
  have hname : familyName consultationShard = consultationShard := by decide
  have hset : ∀ s : Shard F, OneShard (d.setShard consultationShard s) := by
    intro s
    refine ⟨Or.inr ⟨s.family, ?_⟩, Or.inr ⟨s.pin, ?_⟩, h.monoliths⟩
    · rw [Disk.setShard, hname]
      rcases h.families with hd | ⟨fam, hd⟩
      · rw [hd]
        rfl
      · rw [hd]
        simp [Dict.set]
    · rw [Disk.setShard]
      rcases h.pins with hd | ⟨file, hd⟩
      · rw [hd]
        rfl
      · rw [hd]
        simp [Dict.set]
  unfold Ingest.commitAct
  split
  · exact h
  next draft hdraft =>
  unfold store
  split
  · exact h
  · next ts _ =>
    have hshard : (kernelEntry draft stamp.id ts).shardId = consultationShard := by
      unfold Entry.shardId kernelEntry
      dsimp only
      rw [(Projections.toEntry_eq_ok hdraft).2.1]
      rfl
    rw [Disk.append, hshard]
    exact hset _

/-- A session whose start has no date is not committed. -/
theorem commitAct_undated (env : Env F) (d : Disk F) (node : SessionNode) (runId : Text)
    (stamp : Stamp) (h : ¬∃ iso ts, env.msToIso node.startedMs = .ok iso ∧
      draftTimestamp iso = some ts) :
    ∃ e, commitAct env d (.session node) runId stamp = (.error e, d) := by
  unfold commitAct
  cases hdraft : Records.toEntry env.lib env.msToIso stamp.made (.session node)
      ⟨py "prl_consultations", by decide⟩ runId with
  | error e => exact ⟨e, rfl⟩
  | ok draft =>
    dsimp only
    have hiso : env.msToIso node.startedMs = .ok draft.timestamp :=
      (Projections.toEntry_eq_ok hdraft).2.2
    cases hts : draftTimestamp draft.timestamp with
    | none =>
      rw [store, hts]
      exact ⟨_, rfl⟩
    | some ts => exact absurd ⟨_, ts, hiso, hts⟩ h

/-! ### What is asked of an import -/

variable (out : Outside F)

/-- The turns of a conversation that say something. -/
def turnsOf (p : PyStr × PyVal F) : List (PyStr × PyStr) :=
  match p.2 with
  | .dict conv => (sortedTurns out conv).toOption.getD []
  | _ => []

/-- The title of a conversation. -/
def titleIn (p : PyStr × PyVal F) : PyStr :=
  match p.2 with
  | .dict conv => titleOf out conv
  | _ => []

/-- The act of a turn, filed under a subject. -/
def IsTurnAct (subject : PyStr) (turn : PyStr × PyStr) : PRLNode F → Prop
  | .consultation n => n.subjectId.val = subject ∧ n.mode = .observation ∧
      n.mef.agentId.map Subtype.val = some turn.1 ∧ n.answer.val = (truncate turn.2).1
  | _ => False

/-- The boundary act of a conversation with an id and a title. -/
def IsBoundary (convId title : PyStr) : PRLNode F → Prop
  | .session n => n.sessionId.val = convId ∧ (n.title.map Subtype.val).getD [] = title
  | _ => False

/-- The acts of a conversation: one a turn, and then the boundary, if there are turns. -/
def ActsOf (p : PyStr × PyVal F) (nodes : List (PRLNode F)) : Prop :=
  (turnsOf out p = [] ∧ nodes = []) ∨
  (turnsOf out p ≠ [] ∧ ∃ acts boundary, nodes = acts ++ [boundary] ∧
    List.Forall₂ (IsTurnAct (subjectOf out p)) (turnsOf out p) acts ∧
      IsBoundary p.1 (titleIn out p) boundary)

/-- The act is that of a turn. -/
def isTurnAct (n : PRLNode F) : Bool := n.kind = .consultation

/-- The act is a boundary. -/
def isBoundaryAct (n : PRLNode F) : Bool := n.kind = .session

/-- The turn is cut. -/
def isCut (turn : PyStr × PyStr) : Bool := (truncate turn.2).2

/-- A count of the manifest, which is the preview of its session. -/
def manifestCount (node : SessionNode) (name : PyStr) : Option (PyVal F) :=
  match (loads node.textPreview.val : Option (PyVal F)) with
  | some (.dict kvs) =>
    match dictGet (py "counts") kvs with
    | some (.dict counts) => dictGet name counts
    | _ => none
  | _ => none

/-- **An import raises before it commits any act, or it commits an act for every turn, one more
for every conversation with turns, and last a manifest that tells how many of each, and how
many turns were cut.** -/
def AllOrNothing (conversations : Conversations F) (d : Disk F)
    (r : Except PyError ImportReport × Import F) : Prop :=
  (∃ e, r.1 = .error e ∧ r.2.disk.entries consultationShard = d.entries consultationShard) ∨
  ∃ report old new groups manifest, r.1 = .ok report ∧
    d.entries consultationShard = .ok old ∧
    r.2.disk.entries consultationShard = .ok (old ++ new) ∧
    List.Forall₂ (fun n e => decode (nodeModels out.env.lib) e.metadata e.content = .ok n)
      (groups.flatten ++ [.session manifest]) new ∧
    List.Forall₂ (ActsOf out) conversations.items groups ∧
    manifestCount manifest (py "turn_acts") =
      some (count (F := F) (groups.flatten.countP isTurnAct)) ∧
    manifestCount manifest (py "boundary_acts") =
      some (count (F := F) (groups.flatten.countP isBoundaryAct)) ∧
    manifestCount manifest (py "truncations") =
      some (count (F := F) ((conversations.items.flatMap (turnsOf out)).countP isCut))

/-! ### What a conversation comes to -/

/-- The time has a date that is read back. -/
def Datable (ms : ℤ) : Prop :=
  ∃ iso ts, out.env.msToIso ms = .ok iso ∧ draftTimestamp iso = some ts

/-- The role and the text of a turn encode. -/
def Sayable (turn : PyStr × PyStr) : Prop := Encodable turn.1 ∧ Encodable (truncate turn.2).1

instance (turn : PyStr × PyStr) : Decidable (Sayable turn) := by unfold Sayable; infer_instance

/-- The preview of a conversation. -/
def preview (turns : List (PyStr × PyStr)) : PyStr :=
  (joinWith (py " | ") (turns.map fun t => t.1 ++ py ": " ++ t.2)).take 200

/-- The id, the title and the preview encode, the span is read, and its start has a date. -/
def Enveloped (convId title : PyStr) (conv : List (Key F × PyVal F))
    (turns : List (PyStr × PyStr)) : Prop :=
  Encodable convId ∧ Encodable title ∧ Encodable (preview turns) ∧
    ∃ span, conversationSpan out conv = .ok span ∧ Datable out span.1

/-- Nothing is imported of it: it is no dict, or it is read and has no turns. -/
def Silent (p : PyStr × PyVal F) : Prop :=
  match p.2 with
  | .dict conv => sortedTurns out conv = .ok []
  | _ => True

/-- All of it can be committed. -/
def Importable (p : PyStr × PyVal F) : Prop :=
  match p.2 with
  | .dict conv => ∃ turns r, sortedTurns out conv = .ok turns ∧ turns ≠ [] ∧
      recency out conv = .ok r ∧ (∀ turn ∈ turns, Sayable turn) ∧
      Enveloped out p.1 (titleOf out conv) conv turns
  | _ => False

/-- It raises before the first of its acts. -/
def RefusedAtOnce (p : PyStr × PyVal F) : Prop :=
  match p.2 with
  | .dict conv => (∃ e, sortedTurns out conv = .error e) ∨
      ∃ turn rest, sortedTurns out conv = .ok (turn :: rest) ∧
        ((∃ e, recency out conv = .error e) ∨ ¬Sayable turn)
  | _ => False

/-- The first conversation that is not silent is refused at once. -/
def Barred : List (PyStr × PyVal F) → Prop
  | [] => False
  | p :: ps => RefusedAtOnce out p ∨ (Silent out p ∧ Barred ps)

/-- **Every conversation is silent or importable, and the time of the import has a date; or
nothing is importable before what stops the import.** -/
def Orderly (conversations : Conversations F) (id : Identity) : Prop :=
  ((∀ p ∈ conversations.items, Silent out p ∨ Importable out p) ∧ Datable out id.importedAtMs) ∨
  Barred out conversations.items ∨
  ((∀ p ∈ conversations.items, Silent out p) ∧ ¬Datable out id.importedAtMs)

theorem Silent.not_refused {p : PyStr × PyVal F} (h : Silent out p) : ¬RefusedAtOnce out p := by
  unfold Silent at h
  unfold RefusedAtOnce
  cases hp : p.2 with
  | dict conv =>
    rw [hp] at h
    dsimp only at h ⊢
    rw [h]
    rintro (⟨e, he⟩ | ⟨turn, rest, heq, -⟩)
    · cases he
    · cases heq
  | _ => exact nofun

theorem Importable.not_refused {p : PyStr × PyVal F} (h : Importable out p) :
    ¬RefusedAtOnce out p := by
  unfold Importable at h
  unfold RefusedAtOnce
  cases hp : p.2 with
  | dict conv =>
    rw [hp] at h
    dsimp only at h ⊢
    obtain ⟨turns, r, hturns, -, hr, hsay, -⟩ := h
    rw [hturns, hr]
    rintro (⟨e, he⟩ | ⟨turn, rest, heq, hbad⟩)
    · cases he
    · obtain rfl := Except.ok.inj heq
      rcases hbad with ⟨e, he⟩ | hbad
      · cases he
      · exact hbad (hsay turn List.mem_cons_self)
  | _ => exact nofun

theorem Importable.not_silent {p : PyStr × PyVal F} (h : Importable out p) : ¬Silent out p := by
  unfold Importable at h
  unfold Silent
  cases hp : p.2 with
  | dict conv =>
    rw [hp] at h
    dsimp only at h ⊢
    obtain ⟨turns, r, hturns, hne, -⟩ := h
    rw [hturns]
    intro heq
    exact hne (Except.ok.inj heq)
  | _ =>
    rw [hp] at h
    exact h.elim

/-- Where every conversation is silent or importable nothing is barred. -/
theorem not_barred {ps : List (PyStr × PyVal F)}
    (h : ∀ p ∈ ps, Silent out p ∨ Importable out p) : ¬Barred out ps := by
  induction ps with
  | nil => exact False.elim
  | cons p ps ih =>
    obtain ⟨hp, hps⟩ := List.forall_mem_cons.mp h
    rintro (hbad | ⟨-, hbar⟩)
    · rcases hp with hp | hp
      · exact hp.not_refused out hbad
      · exact hp.not_refused out hbad
    · exact ih hps hbar

/-! ### Building the acts -/

theorem encodable_of_isSlugChar {c : CodePoint} (h : isSlugChar c = true ∨ c = 45) :
    c.isSurrogate = false := by
  have hval : c.val < 0xD800 := by
    rcases h with h | rfl
    · simp only [isSlugChar, Bool.or_eq_true, Bool.and_eq_true, decide_eq_true_eq] at h
      omega
    · decide
  simp [CodePoint.isSurrogate]
  omega

theorem mem_hyphenate {c : CodePoint} :
    ∀ {run : Bool} {s : PyStr}, c ∈ hyphenate run s → isSlugChar c = true ∨ c = 45
  | _, [], h => by cases h
  | run, a :: s, h => by
    rw [hyphenate] at h
    split_ifs at h with hslug hrun
    · rcases List.mem_cons.mp h with rfl | h
      · exact Or.inl hslug
      · exact mem_hyphenate h
    · exact mem_hyphenate h
    · rcases List.mem_cons.mp h with rfl | h
      · exact Or.inr rfl
      · exact mem_hyphenate h

/-- A subject encodes, whatever the title and the id are. -/
theorem encodable_subjectId (title convId : PyStr) : Encodable (subjectId out title convId) := by
  have hbase : Encodable (base out title) := by
    unfold base
    split_ifs
    · decide
    · intro c hc
      apply encodable_of_isSlugChar
      have hrest := (List.dropWhile_sublist _).subset (List.mem_reverse.mp hc)
      exact mem_hyphenate ((List.dropWhile_sublist _).subset (List.mem_reverse.mp hrest))
  have hid : Encodable (id6 out convId) := by
    intro c hc
    have hmem := List.mem_of_mem_take hc
    split_ifs at hmem with hnone
    · exact (by decide : Encodable (py "000000")) c hmem
    · have hhex := (List.mem_filter.mp hmem).2
      simp only [isHexChar, Bool.or_eq_true, Bool.and_eq_true, decide_eq_true_eq] at hhex
      simp [CodePoint.isSurrogate]
      omega
  exact encodable_append.mpr ⟨encodable_append.mpr ⟨hbase, by decide⟩, hid⟩

/-- What is left of white space is nothing. -/
theorem strip_eq_nil_iff {s : PyStr} : strip s = [] ↔ ∀ c ∈ s, c.isSpace = true := by
  rw [strip, List.reverse_eq_nil_iff, List.dropWhile_eq_nil_iff]
  constructor
  · intro h c hc
    rw [← List.takeWhile_append_dropWhile (p := CodePoint.isSpace) (l := s)] at hc
    rcases List.mem_append.mp hc with hc | hc
    · exact List.mem_takeWhile_imp hc
    · exact h c (List.mem_reverse.mpr hc)
  · intro h c hc
    exact h c ((List.dropWhile_sublist _).subset (List.mem_reverse.mp hc))

/-- What was stripped and is not blank is not blank when it is stripped again. -/
theorem strip_strip_ne_nil {s : PyStr} (h : strip s ≠ []) : strip (strip s) ≠ [] := by
  intro hnil
  have hspace := strip_eq_nil_iff.mp hnil
  have hne : (s.dropWhile CodePoint.isSpace).reverse.dropWhile CodePoint.isSpace ≠ [] :=
    fun h0 => h (List.reverse_eq_nil_iff.mpr h0)
  -- the last code point of what was stripped is no white space
  have hlast := List.head_dropWhile_not CodePoint.isSpace hne
  have hmem := hspace _ (List.mem_reverse.mpr (List.head_mem hne))
  rw [hlast] at hmem
  cases hmem

theorem strip_role_ne_nil {conv : List (Key F × PyVal F)} {turns : List (PyStr × PyStr)}
    (h : sortedTurns out conv = .ok turns) : ∀ turn ∈ turns, strip turn.1 ≠ [] := by
  intro turn hturn
  unfold sortedTurns at h
  cases hpairs : timedMessages out conv with
  | error e =>
    rw [hpairs] at h
    cases h
  | ok pairs =>
  rw [hpairs] at h
  obtain rfl := Except.ok.inj h
  obtain ⟨q, -, hq⟩ := List.mem_filterMap.mp hturn
  unfold turnOf at hq
  dsimp only at hq
  have hunknown : strip (py "unknown") ≠ [] := by decide
  split_ifs at hq with htext hrole
  · obtain rfl := Option.some.inj hq
    exact hunknown
  · obtain rfl := Option.some.inj hq
    exact strip_strip_ne_nil hrole

/-- The act of a sayable turn is built. -/
theorem buildTurnAct_ok (mint : Mint) (orgId : Option Text) {subject : PyStr}
    {turn : PyStr × PyStr} (hsay : Sayable turn) (hrole : strip turn.1 ≠ [])
    (hsub : Encodable subject) :
    ∃ node, buildTurnAct out mint subject turn.1 turn.2 orgId = .ok (node, isCut turn) ∧
      IsTurnAct subject turn (.consultation node) := by
  have hpair : truncate turn.2 = ((truncate turn.2).1, isCut turn) := rfl
  unfold buildTurnAct
  rw [hpair]
  dsimp only
  unfold asNonEmpty asText
  rw [dif_pos ⟨hsay.1, hrole⟩, dif_pos hsub, dif_pos hsay.2]
  exact ⟨_, rfl, rfl, rfl, rfl, rfl⟩

theorem buildTurnAct_error (mint : Mint) (orgId : Option Text) (subject : PyStr)
    {turn : PyStr × PyStr} (hsay : ¬Sayable turn) :
    ∃ e, buildTurnAct out mint subject turn.1 turn.2 orgId = .error e := by
  have hpair : truncate turn.2 = ((truncate turn.2).1, isCut turn) := rfl
  unfold buildTurnAct
  rw [hpair]
  dsimp only
  unfold asNonEmpty asText
  by_cases hrole : Encodable turn.1 ∧ strip turn.1 ≠ []
  · have htext : ¬Encodable (truncate turn.2).1 := fun h => hsay ⟨hrole.1, h⟩
    rw [dif_pos hrole, dif_neg htext]
    split_ifs
    · exact ⟨_, rfl⟩
    · exact ⟨_, rfl⟩
  · rw [dif_neg hrole]
    exact ⟨_, rfl⟩

theorem buildBoundaryAct_ok (span : ℤ × Option ℤ) {convId title : PyStr}
    {turns : List (PyStr × PyStr)} (hid : Encodable convId) (htitle : Encodable title)
    (hpreview : Encodable (preview turns)) :
    ∃ node, buildBoundaryAct convId title turns span = .ok node ∧ node.startedMs = span.1 ∧
      IsBoundary (F := F) convId title (.session node) := by
  unfold buildBoundaryAct
  dsimp only
  unfold asText
  unfold preview at hpreview
  rw [dif_pos hid, dif_pos htitle, dif_pos hpreview]
  refine ⟨_, rfl, rfl, rfl, ?_⟩
  dsimp only
  split_ifs with hnone
  · exact hnone.symm
  · rfl

theorem buildBoundaryAct_eq_ok {convId title : PyStr} {turns : List (PyStr × PyStr)}
    {span : ℤ × Option ℤ} {node : SessionNode}
    (h : buildBoundaryAct convId title turns span = .ok node) :
    Encodable convId ∧ Encodable title ∧ Encodable (preview turns) ∧ node.startedMs = span.1 := by
  unfold buildBoundaryAct asText at h
  dsimp only at h
  by_cases hid : Encodable convId
  · by_cases htitle : Encodable title
    · by_cases hpreview : Encodable (preview turns)
      · rw [dif_pos hid, dif_pos htitle] at h
        unfold preview at hpreview
        rw [dif_pos hpreview] at h
        obtain rfl := Except.ok.inj h
        exact ⟨hid, htitle, hpreview, rfl⟩
      · rw [dif_pos hid, dif_pos htitle] at h
        unfold preview at hpreview
        rw [dif_neg hpreview] at h
        cases h
    · rw [dif_pos hid, dif_neg htitle] at h
      cases h
  · rw [dif_neg hid] at h
    cases h

/-! ### What is committed -/

/-- From one state of an import to the other these acts are committed, of these turns, behind
the entries that the shard holds. -/
structure Ran (s s' : Import F) (es new : List (Entry F)) (nodes : List (PRLNode F))
    (turns : List (PyStr × PyStr)) : Prop where
  holds : Holds out.env.cfg.sha consultationShard s'.disk (es ++ new)
  entries : List.Forall₂ (fun q e => ActEntry out.env.lib (out.mint q.2).stamp.id q.1
    (e.readBack consultationShard)) (nodes.zipIdx (s.acts + s.boundaryActs)) new
  acts : s'.acts = s.acts + nodes.countP isTurnAct
  boundaryActs : s'.boundaryActs = s.boundaryActs + nodes.countP isBoundaryAct
  made : s'.acts + s'.boundaryActs = s.acts + s.boundaryActs + nodes.length
  truncations : s'.truncations = s.truncations + turns.countP isCut
  oneShard : OneShard s.disk → OneShard s'.disk

/-- Nothing is committed. -/
theorem ran_nil {s : Import F} {es : List (Entry F)}
    (h : Holds out.env.cfg.sha consultationShard s.disk es) : Ran out s s es [] [] [] where
  holds := by rwa [List.append_nil]
  entries := List.Forall₂.nil
  acts := rfl
  boundaryActs := rfl
  made := rfl
  truncations := rfl
  oneShard := id

/-- What is committed first, and what is committed then. -/
theorem Ran.trans {s s' s'' : Import F} {es new new' : List (Entry F)}
    {nodes nodes' : List (PRLNode F)} {turns turns' : List (PyStr × PyStr)}
    (h : Ran out s s' es new nodes turns) (h' : Ran out s' s'' (es ++ new) new' nodes' turns') :
    Ran out s s'' es (new ++ new') (nodes ++ nodes') (turns ++ turns') where
  holds := by
    rw [← List.append_assoc]
    exact h'.holds
  entries := by
    rw [List.zipIdx_append, ← h.made]
    exact List.rel_append h.entries h'.entries
  acts := by rw [h'.acts, h.acts, List.countP_append, Nat.add_assoc]
  boundaryActs := by rw [h'.boundaryActs, h.boundaryActs, List.countP_append, Nat.add_assoc]
  made := by rw [h'.made, h.made, List.length_append, Nat.add_assoc]
  truncations := by rw [h'.truncations, h.truncations, List.countP_append, Nat.add_assoc]
  oneShard := h'.oneShard ∘ h.oneShard

/-- As many entries as acts. -/
theorem Ran.length {s s' : Import F} {es new : List (Entry F)} {nodes : List (PRLNode F)}
    {turns : List (PyStr × PyStr)} (h : Ran out s s' es new nodes turns) :
    new.length = nodes.length := by
  rw [← h.entries.length_eq, List.length_zipIdx]

section

variable {s : Import F} {es : List (Entry F)}

/-- **A sayable turn is committed.** -/
theorem fileTurn_ok (h : Holds out.env.cfg.sha consultationShard s.disk es) (orgId : Option Text)
    (runId : Text) (convId : PyStr) {subject : PyStr} (hsub : Encodable subject)
    {turn : PyStr × PyStr} (hsay : Sayable turn) (hrole : strip turn.1 ≠ []) :
    ∃ s' new node, fileTurn out orgId runId convId subject turn s = (none, s') ∧
      Ran out s s' es new [node] [turn] ∧ IsTurnAct subject turn node := by
  obtain ⟨node, hbuild, hact⟩ := buildTurnAct_ok out (s.next out) orgId hsay hrole hsub
  obtain ⟨e, d', hcommit, hholds, hentry⟩ := commitAct_ok h (.consultation node)
    (dumps_consultationNode out.env.lib node) runId (s.next out).stamp rfl
    (draftTimestamp_utcNowMs _)
  have hfile : fileTurn out orgId runId convId subject turn s =
      (none, { s with
        disk := d'
        truncations := s.truncations + if isCut turn then 1 else 0
        acts := s.acts + 1
        filed := s.filed ++ [(convId, node.subjectId.val)] }) := by
    unfold fileTurn
    rw [hbuild]
    dsimp only [Import.next] at hcommit ⊢
    rw [hcommit]
  refine ⟨_, [e], .consultation node, hfile, ⟨?_, ?_, ?_, ?_, ?_, ?_, ?_⟩, hact⟩
  · exact hholds
  · exact List.Forall₂.cons hentry List.Forall₂.nil
  · rfl
  · rfl
  · dsimp only [List.length_singleton]
    omega
  · simp [isCut]
  · intro hone
    have hstep := hone.commitAct out.env (.consultation node) runId (s.next out).stamp
    rwa [hcommit] at hstep

/-- A turn that is not sayable stops the import where it stands. -/
theorem fileTurn_error (orgId : Option Text) (runId : Text) (convId subject : PyStr)
    {turn : PyStr × PyStr} (hsay : ¬Sayable turn) :
    ∃ e, fileTurn out orgId runId convId subject turn s = (some e, s) := by
  obtain ⟨e, he⟩ := buildTurnAct_error out (s.next out) orgId subject hsay
  unfold fileTurn
  rw [he]
  exact ⟨e, rfl⟩

end

/-- **Sayable turns are committed, one act each.** -/
theorem fileTurns_ok (orgId : Option Text) (runId : Text) (convId : PyStr) {subject : PyStr}
    (hsub : Encodable subject) :
    ∀ {turns : List (PyStr × PyStr)} {s : Import F} {es : List (Entry F)},
      Holds out.env.cfg.sha consultationShard s.disk es → (∀ turn ∈ turns, Sayable turn) →
      (∀ turn ∈ turns, strip turn.1 ≠ []) →
      ∃ s' new nodes, fileTurns out orgId runId convId subject turns s = (none, s') ∧
        Ran out s s' es new nodes turns ∧ List.Forall₂ (IsTurnAct subject) turns nodes := by
  intro turns
  induction turns with
  | nil =>
    intro s es h _ _
    exact ⟨s, [], [], rfl, ran_nil out h, List.Forall₂.nil⟩
  | cons turn rest ih =>
    intro s es h hsay hrole
    obtain ⟨s₁, new₁, node, hone, hran, hact⟩ := fileTurn_ok out h orgId runId convId hsub
      (hsay turn List.mem_cons_self) (hrole turn List.mem_cons_self)
    obtain ⟨s₂, new₂, nodes, hrest, hran', hacts⟩ := ih hran.holds
      (fun t ht => hsay t (List.mem_cons_of_mem _ ht))
      fun t ht => hrole t (List.mem_cons_of_mem _ ht)
    refine ⟨s₂, new₁ ++ new₂, node :: nodes, ?_, hran.trans out hran', List.Forall₂.cons hact hacts⟩
    rw [fileTurns, hone]
    exact hrest

/-- **Turns that are not all sayable stop the import**, behind the acts of those before. -/
theorem fileTurns_error (orgId : Option Text) (runId : Text) (convId : PyStr) {subject : PyStr}
    (hsub : Encodable subject) :
    ∀ {turns : List (PyStr × PyStr)} {s : Import F} {es : List (Entry F)},
      Holds out.env.cfg.sha consultationShard s.disk es → (¬∀ turn ∈ turns, Sayable turn) →
      (∀ turn ∈ turns, strip turn.1 ≠ []) →
      ∃ e s' new, fileTurns out orgId runId convId subject turns s = (some e, s') ∧
        Holds out.env.cfg.sha consultationShard s'.disk (es ++ new) ∧
        (new = [] ↔ ∀ turn ∈ turns.head?, ¬Sayable turn) := by
  intro turns
  induction turns with
  | nil =>
    intro s es _ hsay _
    exact absurd (fun _ h => nomatch h) hsay
  | cons turn rest ih =>
    intro s es h hsay hrole
    by_cases hone : Sayable turn
    · obtain ⟨s₁, new₁, node, hfile, hran, -⟩ := fileTurn_ok out h orgId runId convId hsub hone
        (hrole turn List.mem_cons_self)
      have hrest : ¬∀ t ∈ rest, Sayable t := by
        intro hall
        apply hsay
        intro t ht
        rcases List.mem_cons.mp ht with rfl | ht
        · exact hone
        · exact hall t ht
      obtain ⟨e, s₂, new₂, hstop, hholds, -⟩ := ih hran.holds hrest
        fun t ht => hrole t (List.mem_cons_of_mem _ ht)
      refine ⟨e, s₂, new₁ ++ new₂, ?_, by rwa [← List.append_assoc], ?_⟩
      · rw [fileTurns, hfile]
        exact hstop
      · -- the first turn was committed
        have hlen := hran.length
        refine iff_of_false ?_ fun hbad => hbad turn rfl hone
        intro hnil
        rw [(List.append_eq_nil_iff.mp hnil).1] at hlen
        cases hlen
    · obtain ⟨e, hfile⟩ := fileTurn_error out (s := s) orgId runId convId subject hone
      refine ⟨e, s, [], ?_, by rwa [List.append_nil], ?_⟩
      · rw [fileTurns, hfile]
      · refine iff_of_true rfl ?_
        intro t ht
        obtain rfl := Option.some.inj ht
        exact hone

/-- **The boundary act of an enveloped conversation is committed.** -/
theorem fileBoundary_ok {s : Import F} {es : List (Entry F)}
    (h : Holds out.env.cfg.sha consultationShard s.disk es) (runId : Text) {convId title : PyStr}
    {conv : List (Key F × PyVal F)} {turns : List (PyStr × PyStr)}
    (henv : Enveloped out convId title conv turns) :
    ∃ s' new node, fileBoundary out runId convId title turns conv s = (none, s') ∧
      Ran out s s' es new [node] [] ∧ IsBoundary convId title node := by
  obtain ⟨hid, htitle, hpreview, span, hspan, iso, ts, hiso, hts⟩ := henv
  obtain ⟨node, hbuild, hstart, hboundary⟩ :=
    buildBoundaryAct_ok (F := F) span hid htitle hpreview
  have htime : factTimestamp out.env.msToIso (s.next out).stamp.made (.session node : PRLNode F)
      = .ok iso := by
    rw [factTimestamp, hstart]
    exact hiso
  obtain ⟨e, d', hcommit, hholds, hentry⟩ := commitAct_ok h (.session node)
    (dumps_sessionNode out.env.lib node) runId (s.next out).stamp htime hts
  have hfile : fileBoundary out runId convId title turns conv s =
      (none, { s with disk := d', boundaryActs := s.boundaryActs + 1 }) := by
    unfold fileBoundary
    rw [hspan, Except.bind, hbuild]
    dsimp only
    rw [hcommit]
  refine ⟨_, [e], .session node, hfile, ⟨?_, ?_, ?_, ?_, ?_, ?_, ?_⟩, hboundary⟩
  · exact hholds
  · exact List.Forall₂.cons hentry List.Forall₂.nil
  · rfl
  · rfl
  · dsimp only [List.length_singleton]
    omega
  · rfl
  · intro hone
    have hstep := hone.commitAct out.env (.session node) runId (s.next out).stamp
    rwa [hcommit] at hstep

/-- A conversation without an envelope stops the import behind its turns. -/
theorem fileBoundary_error (s : Import F) (runId : Text) {convId title : PyStr}
    {conv : List (Key F × PyVal F)} {turns : List (PyStr × PyStr)}
    (henv : ¬Enveloped out convId title conv turns) :
    ∃ e s', fileBoundary out runId convId title turns conv s = (some e, s') ∧ s'.disk = s.disk := by
  unfold fileBoundary
  cases hspan : conversationSpan out conv with
  | error e => exact ⟨e, s, rfl, rfl⟩
  | ok span =>
    rw [Except.bind]
    cases hbuild : buildBoundaryAct convId title turns span with
    | error e => exact ⟨e, s, rfl, rfl⟩
    | ok node =>
      obtain ⟨hid, htitle, hpreview, hstart⟩ := buildBoundaryAct_eq_ok hbuild
      dsimp only
      obtain ⟨e, hcommit⟩ := commitAct_undated out.env s.disk node runId
        (s.next out).stamp fun hdate =>
          henv ⟨hid, htitle, hpreview, span, hspan, hstart ▸ hdate⟩
      rw [hcommit]
      exact ⟨e, _, rfl, rfl⟩

/-! ### One conversation -/

/-- A silent conversation changes nothing. -/
theorem importConversation_silent (orgId : Option Text) (runId : Text) {p : PyStr × PyVal F}
    (hp : Silent out p) (s : Import F) :
    importConversation out orgId runId p s = (none, s) ∧ turnsOf out p = [] := by
  unfold Silent at hp
  unfold importConversation turnsOf
  cases hv : p.2 with
  | dict conv =>
    rw [hv] at hp
    dsimp only at hp ⊢
    rw [hp]
    exact ⟨rfl, rfl⟩
  | _ => exact ⟨rfl, rfl⟩

/-- **An importable conversation is committed**: its turns, and its boundary. -/
theorem importConversation_importable (orgId : Option Text) (runId : Text) {p : PyStr × PyVal F}
    (hp : Importable out p) {s : Import F} {es : List (Entry F)}
    (h : Holds out.env.cfg.sha consultationShard s.disk es) :
    ∃ s' new nodes, importConversation out orgId runId p s = (none, s') ∧
      Ran out s s' es new nodes (turnsOf out p) ∧ ActsOf out p nodes ∧ new ≠ [] := by
  obtain ⟨convId, v⟩ := p
  unfold Importable at hp
  cases v with
  | dict conv =>
    obtain ⟨turns, r, hturns, hne, hrecency, hsay, henv⟩ := hp
    have hof : turnsOf out (convId, .dict conv) = turns := by
      unfold turnsOf
      dsimp only
      rw [hturns]
      rfl
    -- the subject and the recent are noted before the first turn
    let start : Import F := { s with
      subjects := insert (subjectId out (titleOf out conv) convId) s.subjects
      recents := s.recents ++ [(r, titleOf out conv, subjectId out (titleOf out conv) convId)] }
    obtain ⟨s₁, new₁, nodes, hfile, hran, hacts⟩ := fileTurns_ok out orgId runId convId
      (encodable_subjectId out (titleOf out conv) convId) (s := start) h hsay
      (strip_role_ne_nil out hturns)
    obtain ⟨s₂, new₂, node, hlast, hran', hboundary⟩ := fileBoundary_ok out hran.holds runId henv
    have hall := hran.trans out hran'
    rw [List.append_nil] at hall
    refine ⟨s₂, new₁ ++ new₂, nodes ++ [node], ?_, ?_, Or.inr ⟨hof ▸ hne, nodes, node, rfl, ?_,
      hboundary⟩, ?_⟩
    · unfold importConversation
      dsimp only
      rw [hturns]
      cases turns with
      | nil => exact absurd rfl hne
      | cons turn rest =>
        dsimp only
        rw [hrecency]
        dsimp only
        rw [hfile]
        exact hlast
    · rw [hof]
      exact ⟨hall.holds, hall.entries, hall.acts, hall.boundaryActs, hall.made, hall.truncations,
        hall.oneShard⟩
    · rw [hof]
      exact hacts
    · intro hnil
      have hlen := hall.length
      rw [hnil, List.length_append] at hlen
      cases hlen
  | _ => exact hp.elim

/-- **Any other conversation stops the import**, before its first act or behind it. -/
theorem importConversation_error (orgId : Option Text) (runId : Text) {p : PyStr × PyVal F}
    (hsilent : ¬Silent out p) (himp : ¬Importable out p) {s : Import F} {es : List (Entry F)}
    (h : Holds out.env.cfg.sha consultationShard s.disk es) :
    ∃ e s' new, importConversation out orgId runId p s = (some e, s') ∧
      Holds out.env.cfg.sha consultationShard s'.disk (es ++ new) ∧
      (new = [] ↔ RefusedAtOnce out p) := by
  obtain ⟨convId, v⟩ := p
  unfold Silent at hsilent
  unfold Importable at himp
  unfold importConversation RefusedAtOnce
  cases v with
  | dict conv =>
    dsimp only at hsilent himp ⊢
    cases hturns : sortedTurns out conv with
    | error e =>
      exact ⟨e, s, [], rfl, by rwa [List.append_nil], iff_of_true rfl (Or.inl ⟨e, rfl⟩)⟩
    | ok turns =>
      cases turns with
      | nil => exact absurd hturns hsilent
      | cons turn rest =>
        dsimp only
        cases hrecency : recency out conv with
        | error e =>
          exact ⟨e, _, [], rfl, by rwa [List.append_nil],
            iff_of_true rfl (Or.inr ⟨turn, rest, rfl, Or.inl ⟨e, rfl⟩⟩)⟩
        | ok r =>
          dsimp only
          let start : Import F := { s with
            subjects := insert (subjectId out (titleOf out conv) convId) s.subjects
            recents := s.recents ++ [(r, titleOf out conv, subjectId out (titleOf out conv) convId)] }
          have hsub := encodable_subjectId out (titleOf out conv) convId
          have hrole := strip_role_ne_nil out hturns
          by_cases hsay : ∀ t ∈ turn :: rest, Sayable t
          · -- all turns are committed, and the boundary is not
            obtain ⟨s₁, new₁, nodes, hfile, hran, hacts⟩ :=
              fileTurns_ok out orgId runId convId hsub (s := start) h hsay hrole
            have henv : ¬Enveloped out convId (titleOf out conv) conv (turn :: rest) :=
              fun henv => himp ⟨_, r, hturns, List.cons_ne_nil _ _, hrecency, hsay, henv⟩
            obtain ⟨e, s₂, hlast, hdisk⟩ := fileBoundary_error out s₁ runId henv
            refine ⟨e, s₂, new₁, ?_, ?_, ?_⟩
            · rw [hfile]
              exact hlast
            · rw [hdisk]
              exact hran.holds
            · refine iff_of_false ?_ ?_
              · intro hnil
                have hlen := hran.length
                rw [hnil, ← hacts.length_eq] at hlen
                cases hlen
              · rintro (⟨e, he⟩ | ⟨t, ts, heq, hbad⟩)
                · cases he
                · obtain ⟨rfl, rfl⟩ := List.cons.inj (Except.ok.inj heq)
                  rcases hbad with ⟨e, he⟩ | hbad
                  · cases he
                  · exact hbad (hsay turn List.mem_cons_self)
          · obtain ⟨e, s₁, new₁, hfile, hholds, hnil⟩ :=
              fileTurns_error out orgId runId convId hsub (s := start) h hsay hrole
            refine ⟨e, s₁, new₁, ?_, hholds, hnil.trans ⟨?_, ?_⟩⟩
            · rw [hfile]
            · exact fun hfirst => Or.inr ⟨turn, rest, rfl, Or.inr (hfirst turn rfl)⟩
            · rintro (⟨e, he⟩ | ⟨t, ts, heq, hbad⟩)
              · cases he
              · obtain ⟨rfl, rfl⟩ := List.cons.inj (Except.ok.inj heq)
                intro t ht
                obtain rfl := Option.some.inj ht
                rcases hbad with ⟨e, he⟩ | hbad
                · cases he
                · exact hbad
  | _ => exact absurd trivial hsilent

/-! ### All conversations -/

/-- **The loop comes to its end over silent and importable conversations**, with the acts of each. -/
theorem importLoop_ok (orgId : Option Text) (runId : Text) :
    ∀ {ps : List (PyStr × PyVal F)} {s : Import F} {es : List (Entry F)},
      Holds out.env.cfg.sha consultationShard s.disk es →
      (∀ p ∈ ps, Silent out p ∨ Importable out p) →
      ∃ s' new groups, importLoop out orgId runId ps s = (none, s') ∧
        Ran out s s' es new groups.flatten (ps.flatMap (turnsOf out)) ∧
        List.Forall₂ (ActsOf out) ps groups ∧ (new = [] ↔ ∀ p ∈ ps, Silent out p) := by
  intro ps
  induction ps with
  | nil =>
    intro s es h _
    exact ⟨s, [], [], rfl, ran_nil out h, List.Forall₂.nil, iff_of_true rfl (List.forall_mem_nil _)⟩
  | cons p ps ih =>
    intro s es h hall
    have hrest : ∀ q ∈ ps, Silent out q ∨ Importable out q :=
      fun q hq => hall q (List.mem_cons_of_mem p hq)
    rcases hall p List.mem_cons_self with hp | hp
    · obtain ⟨hone, hturns⟩ := importConversation_silent out orgId runId hp s
      obtain ⟨s', new, groups, hloop, hran, hacts, hnil⟩ := ih h hrest
      refine ⟨s', new, [] :: groups, ?_, ?_, List.Forall₂.cons (Or.inl ⟨hturns, rfl⟩) hacts, ?_⟩
      · rw [importLoop, hone]
        exact hloop
      · rw [List.flatMap_cons, hturns]
        exact hran
      · rw [hnil, List.forall_mem_cons, and_iff_right hp]
    · obtain ⟨s₁, new₁, nodes, hone, hran, hact, hne⟩ :=
        importConversation_importable out orgId runId hp h
      obtain ⟨s₂, new₂, groups, hloop, hran', hacts, -⟩ := ih hran.holds hrest
      refine ⟨s₂, new₁ ++ new₂, nodes :: groups, ?_, ?_, List.Forall₂.cons hact hacts,
        iff_of_false ?_ ?_⟩
      · rw [importLoop, hone]
        exact hloop
      · rw [List.flatten_cons, List.flatMap_cons]
        exact hran.trans out hran'
      · exact fun hnil => hne (List.append_eq_nil_iff.mp hnil).1
      · exact fun hsilent => hp.not_silent out (hsilent p List.mem_cons_self)

/-- **Any other conversation stops the loop**, and nothing is committed iff the loop is barred. -/
theorem importLoop_error (orgId : Option Text) (runId : Text) :
    ∀ {ps : List (PyStr × PyVal F)} {s : Import F} {es : List (Entry F)},
      Holds out.env.cfg.sha consultationShard s.disk es →
      (¬∀ p ∈ ps, Silent out p ∨ Importable out p) →
      ∃ e s' new, importLoop out orgId runId ps s = (some e, s') ∧
        Holds out.env.cfg.sha consultationShard s'.disk (es ++ new) ∧
        (new = [] ↔ Barred out ps) := by
  intro ps
  induction ps with
  | nil =>
    intro s es _ hall
    exact absurd (fun _ h => nomatch h) hall
  | cons p ps ih =>
    intro s es h hall
    by_cases hsilent : Silent out p
    · -- nothing in it: the loop goes on
      have hrest : ¬∀ q ∈ ps, Silent out q ∨ Importable out q := by
        intro hrest
        apply hall
        intro q hq
        rcases List.mem_cons.mp hq with rfl | hq
        · exact Or.inl hsilent
        · exact hrest q hq
      obtain ⟨e, s', new, hloop, hholds, hnil⟩ := ih h hrest
      refine ⟨e, s', new, ?_, hholds, hnil.trans ⟨fun hb => Or.inr ⟨hsilent, hb⟩, ?_⟩⟩
      · rw [importLoop, (importConversation_silent out orgId runId hsilent s).1]
        exact hloop
      · rintro (hbad | ⟨-, hb⟩)
        · exact absurd hbad (hsilent.not_refused out)
        · exact hb
    · by_cases himp : Importable out p
      · -- imported: the loop goes on, and something is committed
        have hrest : ¬∀ q ∈ ps, Silent out q ∨ Importable out q := by
          intro hrest
          apply hall
          intro q hq
          rcases List.mem_cons.mp hq with rfl | hq
          · exact Or.inr himp
          · exact hrest q hq
        obtain ⟨s₁, new₁, nodes, hone, hran, -, hne⟩ :=
          importConversation_importable out orgId runId himp h
        obtain ⟨e, s₂, new₂, hloop, hholds, -⟩ := ih hran.holds hrest
        refine ⟨e, s₂, new₁ ++ new₂, ?_, by rwa [← List.append_assoc], iff_of_false ?_ ?_⟩
        · rw [importLoop, hone]
          exact hloop
        · exact fun hnil => hne (List.append_eq_nil_iff.mp hnil).1
        · rintro (hbad | ⟨hbad, -⟩)
          · exact himp.not_refused out hbad
          · exact hsilent hbad
      · -- this one stops the loop
        obtain ⟨e, s', new, hone, hholds, hnil⟩ :=
          importConversation_error out orgId runId hsilent himp h
        refine ⟨e, s', new, ?_, hholds, hnil.trans ⟨Or.inl, ?_⟩⟩
        · rw [importLoop, hone]
        · rintro (hbad | ⟨hbad, -⟩)
          · exact hbad
          · exact absurd hbad hsilent

/-! ### The manifest -/

section

variable {st : Style}

/-- A value that is written in a style, and whose strings encode. -/
def Written (st : Style) (v : PyVal F) : Prop := Printable st v ∧ eachStr Encodable v

theorem written_str {s : PyStr} (h : Encodable s) : Written st (.str s : PyVal F) :=
  ⟨⟨_, _, rfl, rfl⟩, h⟩

theorem written_count (n : ℕ) : Written st (count n : PyVal F) := ⟨⟨_, _, rfl, rfl⟩, trivial⟩

theorem written_object {ps : List (PyStr × PyVal F)}
    (h : ∀ p ∈ ps, Encodable p.1 ∧ Written st p.2) : Written st (.dict (strItems ps)) :=
  ⟨printable_object fun p hp => (h p hp).2.1, encodable_object fun p hp => ⟨(h p hp).1, (h p hp).2.2⟩⟩

/-- The text of a value is read back as the value. -/
theorem exists_dumpsSorted {v : PyVal F} (h : Written st v) :
    ∃ w t, sortDicts v = some w ∧ print st w = some t ∧ dumpsSorted st v = .ok t ∧
      loads t = some (readBack v) := by
  obtain ⟨⟨w, t, hw, ht⟩, henc⟩ := h
  refine ⟨w, t, hw, ht, dumpsSorted_eq_ok.mpr ⟨w, hw, ht⟩, ?_⟩
  have hjoined : eachStr Joined w :=
    eachStr_mono (fun _ => joined_of_encodable) ((eachStr_of_sortDicts hw).mpr henc)
  rw [loads_print ht fun _ => hjoined, readBack_of_sortDicts hw]

theorem written_manifestCounts (st : Style) (total : ℕ) (norm : NormalizationReport) (s : Import F) :
    Written st (manifestCounts total norm s) := by
  have hdropped : Written st (.dict (strItems
      [(py "branches", count norm.droppedBranches), (py "system", count norm.droppedSystem),
        (py "hidden", count norm.droppedHidden), (py "empty", count norm.droppedEmpty)]) :
          PyVal F) := by
    apply written_object
    simp only [List.forall_mem_cons]
    exact ⟨⟨by decide, written_count _⟩, ⟨by decide, written_count _⟩, ⟨by decide, written_count _⟩,
      ⟨by decide, written_count _⟩, List.forall_mem_nil _⟩
  apply written_object
  simp only [List.forall_mem_cons]
  exact ⟨⟨by decide, written_count _⟩, ⟨by decide, written_count _⟩, ⟨by decide, written_count _⟩,
    ⟨by decide, written_count _⟩, ⟨by decide, written_count _⟩, ⟨by decide, written_count _⟩,
    ⟨by decide, hdropped⟩, ⟨by decide, written_count _⟩, List.forall_mem_nil _⟩

end

/-- **The manifest can always be built, and its counts are those of the import.** -/
theorem buildManifestAct_ok (id : Identity) (total : ℕ) (norm : NormalizationReport) (s : Import F) :
    ∃ node, buildManifestAct id (manifestCounts total norm s) = .ok node ∧
      node.sessionId.val = py "daryl-import-manifest." ++ id.runId.val ∧
      node.startedMs = id.importedAtMs ∧
      manifestCount node (py "turn_acts") = some (count (F := F) s.acts) ∧
      manifestCount node (py "boundary_acts") = some (count (F := F) s.boundaryActs) ∧
      manifestCount node (py "truncations") = some (count (F := F) s.truncations) := by
  have hcounts := written_manifestCounts ⟨true, true, true⟩ total norm s
  have hpayload : Written ⟨true, true, true⟩ (.dict (strItems
      [(py "kind", .str (py "daryl-import-manifest")), (py "run_id", .str id.runId.val),
        (py "source_sha256", .str id.sourceSha256.val), (py "imported_at", .str id.importedAt.val),
        (py "counts", manifestCounts total norm s)])) := by
    apply written_object
    simp only [List.forall_mem_cons]
    exact ⟨⟨by decide, written_str (by decide)⟩, ⟨by decide, written_str id.runId.property⟩,
      ⟨by decide, written_str id.sourceSha256.property⟩,
      ⟨by decide, written_str id.importedAt.property⟩, ⟨by decide, hcounts⟩, List.forall_mem_nil _⟩
  obtain ⟨w, t, hw, ht, hdumps, hloads⟩ := exists_dumpsSorted hpayload
  obtain ⟨w', -, hw', -, -, -⟩ := exists_dumpsSorted hcounts
  have hencodable : Encodable t := (within_print ht).encodable (by decide)
  have hid : Encodable (py "daryl-import-manifest." ++ id.runId.val) :=
    encodable_append.mpr ⟨by decide, id.runId.property⟩
  have hkeys : [py "kind", py "run_id", py "source_sha256", py "imported_at", py "counts"].Nodup := by
    decide
  have hnames : [py "conversations_received", py "conversations_imported", py "subjects",
      py "turn_acts", py "boundary_acts", py "truncations", py "dropped",
      py "placeholder_nontext"].Nodup := by decide
  -- the counts are found in the payload, and each count in them
  obtain ⟨kvs, hkvs, hget⟩ := dictGet_readBack (by exact hkeys) hw (k := py "counts")
    (v := manifestCounts total norm s) (by simp)
  have hread : ∀ node : SessionNode, node.textPreview.val = t → ∀ name n,
      (name, count n) ∈ [(py "conversations_received", count (F := F) total),
        (py "conversations_imported", count s.subjects.card), (py "subjects", count s.subjects.card),
        (py "turn_acts", count s.acts), (py "boundary_acts", count s.boundaryActs),
        (py "truncations", count s.truncations)] →
      manifestCount node name = some (count (F := F) n) := by
    intro node hnode name n hmem
    obtain ⟨counts, hcounts', hfound⟩ := dictGet_readBack (by exact hnames) hw' (k := name) (v := count n)
      (List.mem_append_left [_, _] hmem)
    have hdict : readBack (manifestCounts total norm s) = .dict counts := hcounts'
    unfold manifestCount
    rw [hnode, hloads, hkvs]
    dsimp only
    rw [hget, hdict]
    exact hfound
  refine ⟨⟨⟨_, hid⟩, .chatgpt, some ⟨py "daryl-import-manifest", by decide⟩, id.importedAtMs,
    some id.importedAtMs, ⟨t, hencodable⟩, none⟩, ?_, rfl, rfl, ?_, ?_, ?_⟩
  · unfold buildManifestAct
    dsimp only
    rw [hdumps]
    dsimp only
    unfold asText
    rw [dif_pos hencodable, dif_pos hid]
    rfl
  · exact hread _ rfl _ _ (by simp)
  · exact hread _ rfl _ _ (by simp)
  · exact hread _ rfl _ _ (by simp)

/-! ### The import -/

/-- What is read of the shard tells whether anything was appended. -/
theorem entries_eq_iff {sha : Sha256} {shardId : PyStr} {d d' : Disk F} {es new : List (Entry F)}
    (h : Holds sha shardId d es) (h' : Holds sha shardId d' (es ++ new)) :
    d'.entries shardId = d.entries shardId ↔ new = [] := by
  rw [h.entries, h'.entries]
  constructor
  · intro heq
    have hlen := congrArg List.length (Except.ok.inj heq)
    rw [List.length_map, List.length_map, List.length_append] at hlen
    exact List.eq_nil_of_length_eq_zero (by omega)
  · rintro rfl
    rw [List.append_nil]

/-- What a finished import has committed: the acts of every conversation, and the manifest, whose
counts are those of the acts. -/
structure Finished (conversations : Conversations F) (id : Identity) (new : List (Entry F))
    (groups : List (List (PRLNode F))) (manifest : SessionNode) : Prop where
  manifestId : manifest.sessionId.val = py "daryl-import-manifest." ++ id.runId.val
  entries : List.Forall₂ (fun q e => ActEntry out.env.lib (out.mint q.2).stamp.id q.1
    (e.readBack consultationShard)) (List.zipIdx (groups.flatten ++ [.session manifest])) new
  acts : List.Forall₂ (ActsOf out) conversations.items groups
  turnActs : manifestCount manifest (py "turn_acts") =
    some (count (F := F) (groups.flatten.countP isTurnAct))
  boundaryActs : manifestCount manifest (py "boundary_acts") =
    some (count (F := F) (groups.flatten.countP isBoundaryAct))
  truncations : manifestCount manifest (py "truncations") =
    some (count (F := F) ((conversations.items.flatMap (turnsOf out)).countP isCut))

/-- What is read of the entries of a finished import are its acts, one an entry. -/
theorem Finished.decodes {conversations : Conversations F} {id : Identity} {new : List (Entry F)}
    {groups : List (List (PRLNode F))} {manifest : SessionNode}
    (h : Finished out conversations id new groups manifest) :
    List.Forall₂ (fun n e => decode (nodeModels out.env.lib) e.metadata e.content = .ok n)
      (groups.flatten ++ [.session manifest]) (new.map (Entry.readBack consultationShard)) := by
  rw [List.forall₂_map_right_iff, ← List.zipIdx_map_fst 0 (groups.flatten ++ [PRLNode.session manifest]),
    List.forall₂_map_left_iff]
  exact h.entries.imp fun _ _ hentry => hentry.decodes

section

variable {d : Disk F} {es : List (Entry F)} (h : Holds out.env.cfg.sha consultationShard d es)
  (conversations : Conversations F) (norm : NormalizationReport) (orgId : Option Text)
  (id : Identity)

include h

/-- **An import that can be finished is finished**, and its manifest is true. -/
theorem importChatgpt_ok (hall : ∀ p ∈ conversations.items, Silent out p ∨ Importable out p)
    (hdate : Datable out id.importedAtMs) :
    ∃ report s' new groups manifest,
      importChatgpt out d conversations norm orgId id = (.ok report, s') ∧
      Holds out.env.cfg.sha consultationShard s'.disk (es ++ new) ∧
      (OneShard d → OneShard s'.disk) ∧ Finished out conversations id new groups manifest := by
  obtain ⟨s₁, new₁, groups, hloop, hran, hacts, -⟩ :=
    importLoop_ok out orgId id.runId (s := Import.start d) h hall
  obtain ⟨node, hbuild, hid, hstart, hturns, hboundaries, hcuts⟩ :=
    buildManifestAct_ok id conversations.items.length norm s₁
  obtain ⟨iso, ts, hiso, hts⟩ := hdate
  have htime : factTimestamp out.env.msToIso (s₁.next out).stamp.made (.session node : PRLNode F)
      = .ok iso := by
    rw [factTimestamp, hstart]
    exact hiso
  obtain ⟨e, d', hcommit, hholds, hentry⟩ := commitAct_ok hran.holds (.session node)
    (dumps_sessionNode out.env.lib node) id.runId (s₁.next out).stamp htime hts
  obtain ⟨report, hrun⟩ : ∃ report, importChatgpt out d conversations norm orgId id =
      (.ok report, { s₁ with disk := d' }) := by
    unfold importChatgpt
    rw [hloop]
    dsimp only
    rw [hbuild]
    dsimp only
    rw [hcommit]
    exact ⟨_, rfl⟩
  rw [hran.acts, Import.start, Nat.zero_add] at hturns
  rw [hran.boundaryActs, Import.start, Nat.zero_add] at hboundaries
  rw [hran.truncations, Import.start, Nat.zero_add] at hcuts
  refine ⟨report, _, new₁ ++ [e], groups, node, hrun, ?_, ?_, ?_⟩
  · rw [← List.append_assoc]
    exact hholds
  · -- no other shard
    intro hone
    have hstep := (hran.oneShard hone).commitAct out.env (.session node) id.runId
      (s₁.next out).stamp
    rwa [hcommit] at hstep
  · -- the manifest comes after the acts, under the next id
    refine ⟨hid, ?_, hacts, hturns, hboundaries, hcuts⟩
    have hlast : s₁.acts + s₁.boundaryActs = groups.flatten.length := by
      rw [hran.made]
      exact Nat.zero_add _
    rw [List.zipIdx_append]
    refine List.rel_append hran.entries (List.Forall₂.cons ?_ List.Forall₂.nil)
    dsimp only
    rw [Nat.zero_add, ← hlast]
    exact hentry

/-- **Any other import raises**, and nothing is committed iff nothing was importable before
what stopped it. -/
theorem importChatgpt_error
    (hnot : ¬((∀ p ∈ conversations.items, Silent out p ∨ Importable out p) ∧
      Datable out id.importedAtMs)) :
    ∃ e s' new, importChatgpt out d conversations norm orgId id = (.error e, s') ∧
      Holds out.env.cfg.sha consultationShard s'.disk (es ++ new) ∧
      (new = [] ↔ Barred out conversations.items ∨
        ((∀ p ∈ conversations.items, Silent out p) ∧ ¬Datable out id.importedAtMs)) := by
  by_cases hall : ∀ p ∈ conversations.items, Silent out p ∨ Importable out p
  · -- the loop comes to its end, and the manifest has no date
    have hdate : ¬Datable out id.importedAtMs := fun hdate => hnot ⟨hall, hdate⟩
    obtain ⟨s₁, new₁, groups, hloop, hran, -, hnil⟩ :=
      importLoop_ok out orgId id.runId (s := Import.start d) h hall
    obtain ⟨node, hbuild, -, hstart, -⟩ :=
      buildManifestAct_ok id conversations.items.length norm s₁
    obtain ⟨e, hcommit⟩ := commitAct_undated out.env s₁.disk node id.runId
      (s₁.next out).stamp fun h => hdate (hstart ▸ h)
    refine ⟨e, s₁, new₁, ?_, hran.holds, ?_⟩
    · unfold importChatgpt
      rw [hloop]
      dsimp only
      rw [hbuild]
      dsimp only
      rw [hcommit]
    · refine hnil.trans ⟨fun hsilent => Or.inr ⟨hsilent, hdate⟩, ?_⟩
      rintro (hbar | ⟨hsilent, -⟩)
      · exact absurd hbar (not_barred out hall)
      · exact hsilent
  · obtain ⟨e, s₁, new₁, hloop, hholds, hnil⟩ :=
      importLoop_error out orgId id.runId (s := Import.start d) h hall
    refine ⟨e, s₁, new₁, ?_, hholds, hnil.trans ⟨Or.inl, ?_⟩⟩
    · unfold importChatgpt
      rw [hloop]
    · rintro (hbar | ⟨hsilent, -⟩)
      · exact hbar
      · exact absurd (fun p hp => Or.inl (hsilent p hp)) hall

/-- **The import is all or nothing iff its conversations are orderly**: a conversation that is
refused when acts of it or of others are there already leaves them behind, without a manifest. -/
theorem allOrNothing_iff :
    AllOrNothing out conversations d (importChatgpt out d conversations norm orgId id) ↔
      Orderly out conversations id := by
  by_cases hall : (∀ p ∈ conversations.items, Silent out p ∨ Importable out p) ∧
      Datable out id.importedAtMs
  · refine iff_of_true (Or.inr ?_) (Or.inl hall)
    obtain ⟨report, s', new, groups, manifest, hrun, hholds, -, hfinished⟩ :=
      importChatgpt_ok out h conversations norm orgId id hall.1 hall.2
    rw [hrun]
    refine ⟨report, _, new.map (Entry.readBack consultationShard), groups, manifest, rfl, h.entries,
      ?_, hfinished.decodes out, hfinished.acts, hfinished.turnActs, hfinished.boundaryActs,
      hfinished.truncations⟩
    rw [hholds.entries, List.map_append]
  · obtain ⟨e, s', new, hrun, hholds, hnil⟩ :=
      importChatgpt_error out h conversations norm orgId id hall
    rw [hrun]
    have hsame := entries_eq_iff h hholds
    constructor
    · rintro (⟨e', -, hentries⟩ | ⟨report, old, new', groups, manifest, hok, -⟩)
      · exact Or.inr (hnil.mp (hsame.mp hentries))
      · cases hok
    · rintro (hok | hbar)
      · exact absurd hok hall
      · exact Or.inl ⟨e, rfl, hsame.mpr (hnil.mpr hbar)⟩

end

/-! ### A conversation whose messages are a number -/

/-- Two conversations, of which the messages of the second are no list. -/
def halfChats : Conversations FloatLit where
  items := [(py "6878e2a1", sampleChat (py "New chat") (py "hello")),
    (py "6878e2ff", .dict [(.str (py "messages"), .int 5)])]
  nodup := by decide

/-- **The import raises with the two acts of the first conversation in the store.** -/
theorem halfChats_not_allOrNothing :
    ¬AllOrNothing sampleOutside halfChats (Disk.empty FloatLit) (importChatgpt sampleOutside
      (Disk.empty FloatLit) halfChats ⟨0, 0, 0, 0, 0⟩ none sampleIdentity) := by
  obtain ⟨hraised, hleft⟩ : (importChatgpt sampleOutside (Disk.empty FloatLit) halfChats
        ⟨0, 0, 0, 0, 0⟩ none sampleIdentity).1.toBool = false ∧
      ((importChatgpt sampleOutside (Disk.empty FloatLit) halfChats ⟨0, 0, 0, 0, 0⟩ none
        sampleIdentity).2.disk.entries consultationShard).map List.length = .ok 2 := by
    decide +kernel
  have hempty : ((Disk.empty FloatLit).entries consultationShard).map List.length = .ok 0 := by
    decide +kernel
  rintro (⟨e, -, hsame⟩ | ⟨report, old, new, groups, manifest, hok, -⟩)
  · rw [hsame, hempty] at hleft
    cases hleft
  · rw [hok] at hraised
    cases hraised

/-- Every time has a date in the sample. -/
theorem datable_sample (ms : ℤ) : Datable sampleOutside ms := by
  have hsome : (draftTimestamp (py "2026-01-02T03:04:05.006Z")).isSome = true := by decide +kernel
  obtain ⟨ts, hts⟩ := Option.isSome_iff_exists.mp hsome
  exact ⟨_, ts, rfl, hts⟩

/-- Two conversations that can be imported are imported, as they must be. -/
theorem allOrNothing_iff_sample :
    AllOrNothing sampleOutside apartChats (Disk.empty FloatLit) (importChatgpt sampleOutside
      (Disk.empty FloatLit) apartChats ⟨0, 0, 0, 0, 0⟩ none sampleIdentity) ∧
    Orderly sampleOutside apartChats sampleIdentity := by
  have horderly : Orderly sampleOutside apartChats sampleIdentity := by
    refine Or.inl ⟨?_, datable_sample _⟩
    intro p hp
    simp only [apartChats, List.mem_cons, List.not_mem_nil, or_false] at hp
    rcases hp with rfl | rfl
    · exact Or.inr ⟨[(py "user", py "hello")], none, by decide +kernel, by decide,
        by decide +kernel, by decide +kernel, by decide, by decide +kernel, by decide +kernel,
        (0, none), by decide +kernel, datable_sample _⟩
    · exact Or.inr ⟨[(py "user", py "bye")], none, by decide +kernel, by decide,
        by decide +kernel, by decide +kernel, by decide, by decide +kernel, by decide +kernel,
        (0, none), by decide +kernel, datable_sample _⟩
  exact ⟨(allOrNothing_iff sampleOutside (holds_empty _ _) apartChats ⟨0, 0, 0, 0, 0⟩ none
    sampleIdentity).mpr horderly, horderly⟩

end Ingest

end Daryl
