import Daryl.Prl.Commit
import Daryl.Prl.Models

/-!
# `to_entry` / `from_entry` and `to_swarm_entry` / `from_swarm_entry`

A node of `prl` is encoded as a draft whose content is the canonical JSON of the node and
whose action name is its kind; the draft becomes an entry of the kernel, is stored, and is
decoded by the model its action names.  The records of a swarm go the same way.  The two
decoders are one function of the table of actions and models.

What a float number of seconds is as a time is a parameter.

## Main definitions

* `PRLNode`, `SwarmRecord` — the unions of the models.
* `toEntry`, `toSwarmEntry` — the encoders.
* `ActionModels`, `decode` — a table of actions and models, and the decoder of a table.
* `nodeModels`, `swarmModels` — the two tables.
* `store`, `stamped` — the draft appended to a storage, as it is or with the version of the
  kernel.
* `RoundTrips` — the draft, and whatever is read of it once it is stored, decodes to the value.

## Main results

* `decode_dump` — what the two decoders make of a canonical JSON text.
* `roundTrips_of_dump` — and once it is stored.
* `records_round_trip` — **all thirteen models round trip.**
-/

namespace Daryl

open Py Json Model

namespace Records

variable {F : Type} [PyFloat F]

/-! ### The unions -/

/-- `PRLNode`. -/
inductive PRLNode (F : Type) [PyFloat F]
  | project (n : ProjectNode)
  | file (n : FileNode)
  | commit (n : CommitNode)
  | session (n : SessionNode)
  | edge (n : Edge F)
  | consultation (n : ConsultationNode F)
  | resolution (n : ResolutionNode F)

/-- The keys of `PRL_ACTION`. -/
inductive NodeKind
  | project
  | file
  | commit
  | session
  | edge
  | consultation
  | resolution
  deriving DecidableEq

/-- `PRL_ACTION`. -/
def prlAction : NodeKind → PyStr
  | .project => py "prl.project"
  | .file => py "prl.file"
  | .commit => py "prl.commit"
  | .session => py "prl.session"
  | .edge => py "prl.edge"
  | .consultation => py "prl.consultation"
  | .resolution => py "prl.resolution"

/-- The key of a node in `PRL_ACTION`: an edge has no `node_type`. -/
def PRLNode.kind : PRLNode F → NodeKind
  | .project _ => .project
  | .file _ => .file
  | .commit _ => .commit
  | .session _ => .session
  | .edge _ => .edge
  | .consultation _ => .consultation
  | .resolution _ => .resolution

/-- `model_dump(mode="json", exclude_none=True)`. -/
def PRLNode.modelDump (lib : Library F) : PRLNode F → PyVal F
  | .project n => (projectNode lib).dump n
  | .file n => (fileNode lib).dump n
  | .commit n => (commitNode lib).dump n
  | .session n => (sessionNode lib).dump n
  | .edge n => (Records.edge lib).dump n
  | .consultation n => (consultationNode lib).dump n
  | .resolution n => (resolutionNode lib).dump n

/-- `SwarmRecord`. -/
inductive SwarmRecord (F : Type) [PyFloat F]
  | run (r : SwarmRun F)
  | task (r : TaskNode)
  | work (r : WorkReceipt F)
  | review (r : ReviewReceipt F)
  | decision (r : DecisionReceipt F)
  | conflict (r : ConflictRecord)

namespace SwarmRecord

/-- `record.kind`. -/
def kind : SwarmRecord F → SwarmKind
  | .run _ => .run
  | .task _ => .task
  | .work _ => .work
  | .review _ => .review
  | .decision _ => .decision
  | .conflict _ => .conflict

/-- `record.swarm_run_id`. -/
def swarmRunId : SwarmRecord F → Text
  | .run r => r.swarmRunId
  | .task r => r.swarmRunId
  | .work r => r.swarmRunId
  | .review r => r.swarmRunId
  | .decision r => r.swarmRunId
  | .conflict r => r.swarmRunId

/-- `record.schema_version`. -/
def schemaVersion : SwarmRecord F → Text
  | .run r => r.schemaVersion
  | .task r => r.schemaVersion
  | .work r => r.schemaVersion
  | .review r => r.schemaVersion
  | .decision r => r.schemaVersion
  | .conflict r => r.schemaVersion

/-- `created_at`, which all records have but the run, or `started_at`, which it has. -/
def madeAt : SwarmRecord F → Text
  | .run r => r.startedAt
  | .task r => r.createdAt
  | .work r => r.createdAt
  | .review r => r.createdAt
  | .decision r => r.createdAt
  | .conflict r => r.createdAt

/-- `model_dump(mode="json", exclude_none=True)`. -/
def modelDump (lib : Library F) : SwarmRecord F → PyVal F
  | .run r => (swarmRun lib).dump r
  | .task r => (taskNode lib).dump r
  | .work r => (workReceipt lib).dump r
  | .review r => (reviewReceipt lib).dump r
  | .decision r => (decisionReceipt lib).dump r
  | .conflict r => (conflictRecord lib).dump r

end SwarmRecord

/-! ### Encoding -/

/-- `_fact_timestamp`. -/
def factTimestamp (msToIso : ℤ → Except PyError PyStr) (now : Datetime) :
    PRLNode F → Except PyError PyStr
  | .file n => msToIso n.mtimeMs
  | .commit n => msToIso n.tsMs
  | .session n => msToIso n.startedMs
  | _ => .ok (utcNowMs now)

/-- `to_entry`. -/
def toEntry (lib : Library F) (msToIso : ℤ → Except PyError PyStr) (now : Datetime)
    (node : PRLNode F) (shard sessionId : Text) : Except PyError (EntryDraft (PyVal F)) :=
  match dumpsSorted canonicalStyle (node.modelDump lib) with
  | .error e => .error (DumpsError.toPyError e)
  | .ok content =>
    (factTimestamp msToIso now node).map fun timestamp =>
      { sessionId := sessionId.val
        source := py "prl"
        content := content
        shard := shard.val
        metadata := [(py "action_name", .str (prlAction node.kind))]
        timestamp := timestamp
        version := py "prl.v1" }

/-- `shard or swarm_shard_name(run_id)`. -/
def shardOr (isalnum : CodePoint → Bool) (shard : Option Text) (runId : PyStr) : Option PyStr :=
  match shard with
  | some s => if s.val = [] then swarmShardName isalnum runId else some s.val
  | none => swarmShardName isalnum runId

/-- `to_swarm_entry`. -/
def toSwarmEntry (lib : Library F) (isalnum : CodePoint → Bool) (now : Datetime)
    (record : SwarmRecord F) (shard : Option Text) : Except CommitError (EntryDraft (PyVal F)) :=
  if record.swarmRunId.val = [] then .error .validation
  else
    match dumpsSorted canonicalStyle (record.modelDump lib) with
    | .error e => .error (.py (DumpsError.toPyError e))
    | .ok content =>
      match shardOr isalnum shard record.swarmRunId.val with
      | none => .error .validation
      | some shardName =>
        .ok
          { sessionId := record.swarmRunId.val
            source := py "swarm"
            content := content
            shard := shardName
            metadata := [(py "action_name", .str (swarmAction record.kind)),
              (py "schema_version", .str record.schemaVersion.val)]
            timestamp := if record.madeAt.val = [] then utcNowMs now else record.madeAt.val
            version := swarmSchemaVersion }

/-! ### Decoding -/

/-- `ACTION_TO_MODEL`: the actions of the kinds, and what their models read a dict as. -/
structure ActionModels (F K α : Type) where
  kinds : List K
  action : K → PyStr
  model : K → PyVal F → Option α

/-- `from_entry` and `from_swarm_entry`, of the metadata and the content of an entry. -/
def decode {K α : Type} (models : ActionModels F K α) (metadata content : PyVal F) :
    Except CommitError α :=
  let action :=
    match metadata with
    | .dict kvs => getNone (py "action_name") kvs
    | _ => .none
  if !PyVal.hashes action then .error (.py .typeError)
  else
    match models.kinds.find? fun k => pyEq action (.str (models.action k)) with
    | none => .error .mapping
    | some kind =>
      match content with
      | .str s =>
        match loads s with
        | none => .error .mapping
        | some (.dict kvs) =>
          match models.model kind (.dict kvs) with
          | some record => .ok record
          | none => .error .validation
        | some _ => .error (.py .typeError)
      | _ => .error .mapping

/-- `ACTION_TO_MODEL` of the nodes. -/
def nodeModels (lib : Library F) : ActionModels F NodeKind (PRLNode F) where
  kinds := [.project, .file, .commit, .session, .edge, .consultation, .resolution]
  action := prlAction
  model
    | .project, v => ((projectNode lib).validate v).map .project
    | .file, v => ((fileNode lib).validate v).map .file
    | .commit, v => ((commitNode lib).validate v).map .commit
    | .session, v => ((sessionNode lib).validate v).map .session
    | .edge, v => ((edge lib).validate v).map .edge
    | .consultation, v => ((consultationNode lib).validate v).map .consultation
    | .resolution, v => ((resolutionNode lib).validate v).map .resolution

/-- `ACTION_TO_MODEL` of the records. -/
def swarmModels (lib : Library F) : ActionModels F SwarmKind (SwarmRecord F) where
  kinds := swarmKinds
  action := swarmAction
  model
    | .run, v => ((swarmRun lib).validate v).map .run
    | .task, v => ((taskNode lib).validate v).map .task
    | .work, v => ((workReceipt lib).validate v).map .work
    | .review, v => ((reviewReceipt lib).validate v).map .review
    | .decision, v => ((decisionReceipt lib).validate v).map .decision
    | .conflict, v => ((conflictRecord lib).validate v).map .conflict

/-! ### Storing -/

/-- `_draft_to_entry`, with the id it mints. -/
def kernelEntry (draft : EntryDraft (PyVal F)) (id : Text) (timestamp : Datetime) : Entry F where
  id := .str id.val
  timestamp := timestamp
  sessionId := .str draft.sessionId
  source := .str draft.source
  content := .str draft.content
  shard := .str draft.shard
  hash := .str []
  prevHash := .none
  metadata := .dict (strItems draft.metadata)
  version := .str draft.version

/-- The draft with the version of the kernel among its metadata. -/
def stamped (draft : EntryDraft (PyVal F)) : EntryDraft (PyVal F) :=
  { draft with metadata := Dict.set (py "kernel_version") (.str kernelVersion) draft.metadata }

/-- `Storage.append` of the entry of a draft. -/
def store (cfg : Config) (d : Disk F) (now : Datetime) (id : Text) (draft : EntryDraft (PyVal F)) :
    Except PyError (Entry F) × Disk F :=
  match draftTimestamp draft.timestamp with
  | none => (.error .valueError, d)
  | some timestamp => d.append cfg now (kernelEntry draft id timestamp)

/-- The shard a draft goes to: `draft.shard or "default"`. -/
def shardOf (draft : EntryDraft (PyVal F)) : PyStr :=
  if draft.shard = [] then py "default" else draft.shard

/-- **The draft decodes to the value, and so does the entry read once it is stored**, as it is
or with the version of the kernel, in whatever storage: the newest entry of its shard then,
and one of its entries for ever. -/
def RoundTrips {K α : Type} (models : ActionModels F K α) (draft : EntryDraft (PyVal F)) (a : α) :
    Prop :=
  decode models (.dict (strItems draft.metadata)) (.str draft.content) = .ok a ∧
  ∀ (cfg : Config) (is : List (Datetime × Entry F)) (now : Datetime) (id : Text)
    (draft' : EntryDraft (PyVal F)) (e : Entry F) (d' : Disk F),
    draft' = draft ∨ draft' = stamped draft →
    store cfg (diskAfter cfg is) now id draft' = (.ok e, d') →
    ∃ r : Entry F, decode models r.metadata r.content = .ok a ∧ r.id = .str id.val ∧
      (∀ limit, ∃ es, d'.read (shardOf draft) 0 limit = .ok (r :: es)) ∧
      ∀ js, ∃ n, ∀ limit ≥ n, ∃ es,
        (Run.run (Disk.step cfg) d' js).read (shardOf draft) 0 limit = .ok es ∧ r ∈ es

/-! ### Decoding what was encoded -/

/-- **An action of the table and a text that parses to a dict of its model decode.** -/
theorem decode_dump {K α : Type} {models : ActionModels F K α} {k : K} {a : α} {s : PyStr}
    {metadata kvs : List (Key F × PyVal F)}
    (hkind : (models.kinds.find? fun l => pyEq (.str (models.action k) : PyVal F)
      (.str (models.action l))) = some k)
    (haction : dictGet (py "action_name") metadata = some (.str (models.action k)))
    (hloads : loads s = some (.dict kvs)) (hmodel : models.model k (.dict kvs) = some a) :
    decode models (.dict metadata) (.str s) = .ok a := by
  have hget : getNone (py "action_name") metadata = .str (models.action k) := by
    rw [getNone, haction, Option.getD_some]
  have hhash : PyVal.hashes (.str (models.action k) : PyVal F) = true := rfl
  unfold decode
  dsimp only
  rw [hget, hhash, Bool.not_true, if_neg Bool.false_ne_true, hkind]
  dsimp only
  rw [hloads]
  dsimp only
  rw [hmodel]

/-- The action of every kind leads to the kind. -/
theorem find_prlAction (lib : Library F) (k : NodeKind) :
    ((nodeModels lib).kinds.find? fun l => pyEq (.str ((nodeModels lib).action k) : PyVal F)
      (.str ((nodeModels lib).action l))) = some k := by
  have hdecide : ∀ l, pyEq (.str (prlAction k) : PyVal F) (.str (prlAction l)) =
      decide (prlAction k = prlAction l) := by
    intro l
    rw [Bool.eq_iff_iff, pyEq_str_right, decide_eq_true_iff, PyVal.str.injEq]
  simp only [nodeModels, hdecide]
  cases k <;> decide

theorem find_swarmAction (lib : Library F) (k : SwarmKind) :
    ((swarmModels lib).kinds.find? fun l => pyEq (.str ((swarmModels lib).action k) : PyVal F)
      (.str ((swarmModels lib).action l))) = some k := by
  have hdecide : ∀ l, pyEq (.str (swarmAction k) : PyVal F) (.str (swarmAction l)) =
      decide (swarmAction k = swarmAction l) := by
    intro l
    rw [Bool.eq_iff_iff, pyEq_str_right, decide_eq_true_iff, PyVal.str.injEq]
  simp only [swarmModels, hdecide]
  cases k <;> decide

/-- The metadata of an entry that was sealed are read back with its action. -/
theorem dictGet_readBack_kernelEntry {draft : EntryDraft (PyVal F)} {s : PyStr}
    (hkeys : (draft.metadata.map Prod.fst).Nodup) (hmem : (py "action_name", .str s) ∈ draft.metadata)
    {sha : Sha256} {shardId : PyStr} {id : Text} {ts : Datetime} {p : PyVal F} {e : Entry F}
    {line : PyStr} (hseal : sealEntry sha shardId (kernelEntry draft id ts) p = .ok (e, line)) :
    ∃ kvs, (e.readBack shardId).metadata = .dict kvs ∧
      dictGet (py "action_name") kvs = some (.str s) := by
  obtain ⟨-, hrec, -, hash, rfl⟩ := sealEntry_eq_ok hseal
  obtain ⟨w, hw, -⟩ := hrec.printed
  rw [sortDicts_entryDict] at hw
  simp only [Option.bind_eq_some_iff, Option.map_eq_some_iff] at hw
  obtain ⟨_, -, _, -, _, -, _, -, _, -, _, -, m, hsort, -⟩ := hw
  obtain ⟨kvs, hback, hget⟩ := dictGet_readBack hkeys hsort hmem
  rw [readBack_str] at hget
  exact ⟨kvs, hback, hget⟩

/-- **A draft of a dump round trips**, when its metadata name the action of the dump. -/
theorem roundTrips_of_dump {K α : Type} {models : ActionModels F K α} {k : K} {a : α}
    {draft : EntryDraft (PyVal F)} {kvs : List (Key F × PyVal F)}
    (hkind : (models.kinds.find? fun l => pyEq (.str (models.action k) : PyVal F)
      (.str (models.action l))) = some k)
    (hkeys : (draft.metadata.map Prod.fst).Nodup)
    (haction : Dict.get (py "action_name") draft.metadata = some (.str (models.action k)))
    (hloads : loads draft.content = some (.dict kvs))
    (hmodel : models.model k (.dict kvs) = some a) : RoundTrips models draft a := by
  refine ⟨decode_dump hkind (dictGet_of_mem hkeys (Dict.mem_of_get haction)) hloads hmodel, ?_⟩
  intro cfg is now id draft' e d' hdraft hstore
  -- the stamp changes neither the action nor anything but the metadata
  have hsame : draft'.content = draft.content ∧ draft'.shard = draft.shard ∧
      (draft'.metadata.map Prod.fst).Nodup ∧
      (py "action_name", .str (models.action k)) ∈ draft'.metadata := by
    rcases hdraft with rfl | rfl
    · exact ⟨rfl, rfl, hkeys, Dict.mem_of_get haction⟩
    · refine ⟨rfl, rfl, Dict.nodup_keys_set hkeys, Dict.mem_of_get ?_⟩
      rw [stamped, Dict.get_set_ne (by decide), haction]
  obtain ⟨hcontent, hshard, hkeys', hmem⟩ := hsame
  have hd : (diskAfter cfg is).Kept := kept_diskAfter cfg is
  unfold store at hstore
  split at hstore
  · cases (Prod.mk.inj hstore).1
  next ts _ =>
  have hid : (kernelEntry draft' id ts).shardId = shardOf draft := by
    rw [shardOf, ← hshard]
    rfl
  rw [Disk.append, hid] at hstore
  cases hseal : sealEntry cfg.sha (shardOf draft) (kernelEntry draft' id ts)
      (getLastHash ((diskAfter cfg is).shard (shardOf draft)).pin) with
  | error err =>
    obtain ⟨ds, hds⟩ := hd.family (shardOf draft)
    obtain ⟨s', happend, -, -⟩ := tidy_append_error now hds hseal
    rw [Disk.appendTo, happend] at hstore
    cases (Prod.mk.inj hstore).1
  | ok r =>
    obtain ⟨written, line⟩ := r
    obtain ⟨d'', happend, hone⟩ := appendsOne_appendTo hd (shardOf draft) now hseal
    have hholds := holds_appendTo hd (shardOf draft) now hseal
    have hkept : d'.Kept := by
      have hstep := kept_step cfg hd (now, kernelEntry draft' id ts)
      rw [Disk.step, Disk.append, hid, hstore] at hstep
      exact hstep
    obtain rfl : d'' = d' := by rw [happend] at hstore; exact (Prod.mk.inj hstore).2
    rw [happend] at hholds
    obtain ⟨metadata, hmeta, hget⟩ := dictGet_readBack_kernelEntry hkeys' hmem hseal
    obtain ⟨-, -, -, hash, hwritten⟩ := sealEntry_eq_ok hseal
    have hback : (written.readBack (shardOf draft)).content = .str draft.content := by
      rw [hwritten]
      exact congrArg PyVal.str hcontent
    refine ⟨written.readBack (shardOf draft), ?_, by rw [hwritten]; rfl, fun limit => ?_, fun js => ?_⟩
    · rw [hmeta, hback]
      exact decode_dump hkind hget hloads hmodel
    · obtain ⟨es, -, hread⟩ := hone.entries
      obtain ⟨n, hn⟩ : ∃ n, max limit 1 = n + 1 := ⟨max limit 1 - 1, by omega⟩
      exact ⟨es.take n, by rw [hread, hn, List.take_succ_cons]⟩
    · exact (holds_run cfg hkept hholds js).read

/-- The text of the dump of a record is parsed to a dict that its model reads as the record. -/
theorem loads_record {α β : Type} (c : Codec F α) (wrap : α → β) {a : α}
    {items : List (Key F × PyVal F)} (hitems : c.dump a = .dict items) {t : PyStr}
    (h : dumpsSorted canonicalStyle (c.dump a) = .ok t) :
    ∃ kvs, loads t = some (.dict kvs) ∧ (c.validate (.dict kvs)).map wrap = some (wrap a) := by
  obtain ⟨v, hcanon, hloads, hvalidate⟩ := c.loads_dumps h
  obtain ⟨kvs, rfl⟩ := exists_dict_of_canon (hitems ▸ hcanon)
  exact ⟨kvs, hloads, by rw [hvalidate, Option.map_some]⟩

theorem loads_node (lib : Library F) (n : PRLNode F) {t : PyStr}
    (h : dumpsSorted canonicalStyle (n.modelDump lib) = .ok t) :
    ∃ kvs, loads t = some (.dict kvs) ∧ (nodeModels lib).model n.kind (.dict kvs) = some n := by
  cases n with
  | project n => exact loads_record (projectNode lib) PRLNode.project rfl h
  | file n => exact loads_record (fileNode lib) PRLNode.file rfl h
  | commit n => exact loads_record (commitNode lib) PRLNode.commit rfl h
  | session n => exact loads_record (sessionNode lib) PRLNode.session rfl h
  | edge n => exact loads_record (edge lib) PRLNode.edge rfl h
  | consultation n => exact loads_record (consultationNode lib) PRLNode.consultation rfl h
  | resolution n => exact loads_record (resolutionNode lib) PRLNode.resolution rfl h

theorem loads_swarmRecord (lib : Library F) (r : SwarmRecord F) {t : PyStr}
    (h : dumpsSorted canonicalStyle (r.modelDump lib) = .ok t) :
    ∃ kvs, loads t = some (.dict kvs) ∧ (swarmModels lib).model r.kind (.dict kvs) = some r := by
  cases r with
  | run r => exact loads_record (swarmRun lib) SwarmRecord.run rfl h
  | task r => exact loads_record (taskNode lib) SwarmRecord.task rfl h
  | work r => exact loads_record (workReceipt lib) SwarmRecord.work rfl h
  | review r => exact loads_record (reviewReceipt lib) SwarmRecord.review rfl h
  | decision r => exact loads_record (decisionReceipt lib) SwarmRecord.decision rfl h
  | conflict r => exact loads_record (conflictRecord lib) SwarmRecord.conflict rfl h

/-! ### The thirteen models -/

/-- A draft of `to_entry` round trips. -/
theorem toEntry_roundTrips {lib : Library F} {msToIso : ℤ → Except PyError PyStr} {now : Datetime}
    {n : PRLNode F} {shard sessionId : Text} {draft : EntryDraft (PyVal F)}
    (h : toEntry lib msToIso now n shard sessionId = .ok draft) :
    RoundTrips (nodeModels lib) draft n := by
  unfold toEntry at h
  split at h
  · cases h
  next content hcontent =>
  cases htime : factTimestamp msToIso now n with
  | error e =>
    rw [htime] at h
    cases h
  | ok timestamp =>
    rw [htime] at h
    obtain rfl := Except.ok.inj h
    obtain ⟨kvs, hloads, hmodel⟩ := loads_node lib n hcontent
    exact roundTrips_of_dump (find_prlAction lib n.kind) (List.nodup_singleton _) rfl hloads hmodel

/-- A draft of `to_swarm_entry` round trips. -/
theorem toSwarmEntry_roundTrips {lib : Library F} {isalnum : CodePoint → Bool} {now : Datetime}
    {r : SwarmRecord F} {shard : Option Text} {draft : EntryDraft (PyVal F)}
    (h : toSwarmEntry lib isalnum now r shard = .ok draft) :
    RoundTrips (swarmModels lib) draft r := by
  unfold toSwarmEntry at h
  split at h
  · cases h
  split at h
  · cases h
  next content hcontent =>
  split at h
  · cases h
  next shardName _ =>
  obtain rfl := Except.ok.inj h
  obtain ⟨kvs, hloads, hmodel⟩ := loads_swarmRecord lib r hcontent
  refine roundTrips_of_dump (find_swarmAction lib r.kind) ?_ rfl hloads hmodel
  have hkeys : [py "action_name", py "schema_version"].Nodup := by decide
  exact hkeys

/-- **Every node and every record that is encoded round trips**, also when it has been stored
and is read back. -/
theorem records_round_trip (lib : Library F) :
    (∀ (msToIso : ℤ → Except PyError PyStr) (now : Datetime) (n : PRLNode F) (shard sessionId : Text)
      (draft : EntryDraft (PyVal F)),
      toEntry lib msToIso now n shard sessionId = .ok draft → RoundTrips (nodeModels lib) draft n) ∧
    ∀ (isalnum : CodePoint → Bool) (now : Datetime) (r : SwarmRecord F) (shard : Option Text)
      (draft : EntryDraft (PyVal F)),
      toSwarmEntry lib isalnum now r shard = .ok draft → RoundTrips (swarmModels lib) draft r :=
  ⟨fun _ _ _ _ _ _ h => toEntry_roundTrips h, fun _ _ _ _ _ h => toSwarmEntry_roundTrips h⟩

/-! ### A record and an edge that round trip -/

/-- The library that reads exactly what a dump holds. -/
noncomputable def sampleLibrary : Library FloatLit where
  reader := Reader.exact
  one := ⟨⟨false, 1, .frac 0 [] none⟩, confidence_one⟩
  one_eq := by decide +kernel
  now := ⟨py "2026-01-02T03:04:05.006Z", by decide⟩

/-- A dict of one JSON value that is none. -/
def sampleObject : RawObject FloatLit where
  items := [(py "tokens", .int 5), (py "deadline", .none)]
  keys := by decide
  encodable := by decide
  values := by
    intro p hp
    simp only [List.mem_cons, List.not_mem_nil, or_false] at hp
    rcases hp with rfl | rfl
    · exact ⟨rfl, trivial⟩
    · exact ⟨rfl, trivial⟩

/-- A run with a budget. -/
def sampleRun : SwarmRecord FloatLit :=
  .run
    { schemaVersion := ⟨swarmSchemaVersion, by decide⟩
      swarmRunId := ⟨py "run:1", by decide⟩
      subjectId := ⟨py "s", by decide⟩
      orchestratorId := ⟨py "o", by decide⟩
      objective := ⟨py "objective", by decide⟩
      startedAt := ⟨py "2026-01-02T03:04:05.006Z", by decide⟩
      endedAt := none
      status := .opened
      traceId := some ⟨py "t", by decide⟩
      budgetConstraints := Quotient.mk _ sampleObject
      environmentRef := none
      orgId := none }

/-- An edge without evidence. -/
def sampleEdge : PRLNode FloatLit :=
  .edge
    { edgeType := .belongsTo
      srcId := ⟨py "a", by decide⟩
      dstId := ⟨py "b", by decide⟩
      confidence := ⟨⟨false, 0, .frac 5 [] none⟩, by decide +kernel⟩
      evidence := noEvidence }

/-- The letters and digits of ASCII. -/
def asciiAlnum (c : CodePoint) : Bool :=
  (48 ≤ c.val && c.val ≤ 57) || (65 ≤ c.val && c.val ≤ 90) || (97 ≤ c.val && c.val ≤ 122)

/-- An edge and a run round trip, and the run is stored. -/
theorem records_round_trip_sample : ∃ edgeDraft runDraft,
    toEntry sampleLibrary (fun _ => .error .valueError) sampleTime sampleEdge ⟨py "prl_a", by decide⟩
      ⟨py "run", by decide⟩ = .ok edgeDraft ∧
    toSwarmEntry sampleLibrary asciiAlnum sampleTime sampleRun none = .ok runDraft ∧
    RoundTrips (nodeModels sampleLibrary) edgeDraft sampleEdge ∧
    RoundTrips (swarmModels sampleLibrary) runDraft sampleRun ∧
    ∃ e d', store sampleConfig (diskAfter sampleConfig []) sampleTime ⟨py "e", by decide⟩
      (stamped runDraft) = (.ok e, d') := by
  have hedge : (toEntry sampleLibrary (fun _ => .error .valueError) sampleTime sampleEdge
      ⟨py "prl_a", by decide⟩ ⟨py "run", by decide⟩).toBool = true := by decide +kernel
  have hrun : (match toSwarmEntry sampleLibrary asciiAlnum sampleTime sampleRun none with
      | .ok draft => (store sampleConfig (diskAfter sampleConfig []) sampleTime ⟨py "e", by decide⟩
          (stamped draft)).1.toBool
      | .error _ => false) = true := by decide +kernel
  cases he : toEntry sampleLibrary (fun _ => .error .valueError) sampleTime sampleEdge
      ⟨py "prl_a", by decide⟩ ⟨py "run", by decide⟩ with
  | error err =>
    rw [he] at hedge
    cases hedge
  | ok edgeDraft =>
    cases hr : toSwarmEntry sampleLibrary asciiAlnum sampleTime sampleRun none with
    | error err =>
      rw [hr] at hrun
      cases hrun
    | ok runDraft =>
      rw [hr] at hrun
      dsimp only at hrun
      refine ⟨edgeDraft, runDraft, rfl, rfl, (records_round_trip sampleLibrary).1 _ _ _ _ _ _ he,
        (records_round_trip sampleLibrary).2 _ _ _ _ _ hr, ?_⟩
      cases hstore : store sampleConfig (diskAfter sampleConfig []) sampleTime ⟨py "e", by decide⟩
          (stamped runDraft) with
      | mk result d' =>
        rw [hstore] at hrun
        cases result with
        | error err => cases hrun
        | ok e => exact ⟨e, d', rfl⟩

end Records

end Daryl
