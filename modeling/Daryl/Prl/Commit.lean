import Daryl.Dsm.Tidy
import Daryl.Prl.Swarm
import Daryl.Prl.Types

/-!
# `prl.store.dsm_commit`: the bounded writer of the swarm

The writer takes a draft, refuses it unless it is that of a swarm record, stamps the
version of the kernel and appends it.  What it checks is the source, the versions, the
action and the payload; the shard, the timestamp and the other metadata of the draft go
to the storage as they are.

The models of the payloads are those of a library: the reading of a dict is a parameter.
So is the test of the letters and digits of all scripts.

## Main definitions

* `MetaValue`, `SwarmDraft` — a draft whose metadata may be any object.
* `swarmShardName` — the shard of a run.
* `fromSwarmEntry` — the record of a draft or an entry.
* `validateSwarmDraft`, `commitSwarmEntry` — the writer.
* `Bounded` — what the writer promises of a draft.
* `SwarmDraft.Sane` — the drafts it keeps it of.

## Main results

* `validateSwarmDraft_cases` — what the gate makes of a draft.
* `commitSwarmEntry_bounded_iff` — **the writer keeps its promise of the sane drafts alone.**
-/

namespace Daryl

open Py Json

/-! ### Records -/

/-- The kind of a record. -/
def SwarmRecord.kind : SwarmRecord → SwarmKind
  | .run _ => .run
  | .task _ => .task
  | .work _ => .work
  | .review _ => .review
  | .decision _ => .decision
  | .conflict _ => .conflict

/-- `SWARM_ACTION`. -/
def swarmAction : SwarmKind → PyStr
  | .run => py "swarm.run"
  | .task => py "swarm.task"
  | .work => py "swarm.work"
  | .review => py "swarm.review"
  | .decision => py "swarm.decision"
  | .conflict => py "swarm.conflict"

/-- The kinds, in the order of the table. -/
def swarmKinds : List SwarmKind := [.run, .task, .work, .review, .decision, .conflict]

/-- `SCHEMA_VERSION`. -/
def swarmSchemaVersion : PyStr := py "swarm.v0.1"

theorem encodable_swarmSchemaVersion : Encodable swarmSchemaVersion := by decide

/-- `swarm_shard_name`: up to sixteen letters and digits behind the last colon, if there
are any. -/
def swarmShardName (isalnum : CodePoint → Bool) (swarmRunId : PyStr) : Option PyStr :=
  let tail := swarmRunId.rtakeWhile fun c => c ≠ 58
  let safe := (tail.filter isalnum).take 16
  if safe = [] then none else some (py "swarm_" ++ safe)

/-! ### Metadata -/

/-- What the writer asks of a value: whether the membership test of a set takes it, which it does
of what has a hash and of any set, and which strings it is equal to. -/
structure Asked where
  tested : Bool
  equals : PyStr → Bool

variable {F : Type} [PyFloat F]

/-- A value, as the writer sees it. -/
def asked (v : PyVal F) : Asked := ⟨PyVal.hashes v, fun s => pyEq v (.str s)⟩

/-- A value of metadata: one that JSON may have a text for, or any other object. -/
inductive MetaValue (F : Type)
  | val (v : PyVal F)
  | other (a : Asked)

/-- A value of metadata, as the writer sees it. -/
def MetaValue.asked : MetaValue F → Asked
  | .val v => Daryl.asked v
  | .other a => a

/-- The value that JSON may have a text for. -/
def MetaValue.val? : MetaValue F → Option (PyVal F)
  | .val v => some v
  | .other _ => none

/-- A draft: its metadata are a dict with strings for keys. -/
structure SwarmDraft (F : Type) extends EntryDraft (MetaValue F) where
  nodup : (Dict.keys metadata).Nodup

namespace SwarmDraft

variable (draft : SwarmDraft F)

/-- `metadata.get(k)`. -/
def get (k : PyStr) : MetaValue F := (Dict.get k draft.metadata).getD (.val .none)

/-- The action of the draft. -/
def action : MetaValue F := draft.get (py "action_name")

/-- The version the payload has, as the draft says. -/
def schemaVersion : MetaValue F := draft.get (py "schema_version")

end SwarmDraft

/-! ### The writer -/

/-- What the writer may raise. -/
inductive CommitError
  /-- `PRLValidationError` -/
  | validation
  /-- `PRLEntryMappingError` -/
  | mapping
  /-- what else Python raises -/
  | py (e : PyError)
  /-- what `json.dumps` raises at a value it cannot write, or at a NaN before it -/
  | unwritable
  deriving DecidableEq

/-- The kind whose action a value is: `ACTION_TO_MODEL.get(action)`, whose keys are
`SWARM_ACTIONS`. -/
def actionToModel (a : Asked) : Option SwarmKind := swarmKinds.find? fun k => a.equals (swarmAction k)

/-- The models: what a dict reads as, as a record of the kind. -/
abbrev Models (F : Type) := SwarmKind → PyVal F → Option SwarmRecord

/-- `from_swarm_entry`, of an action that was tested before, and a content. -/
def fromSwarmEntry (validate : Models F) (action : Asked) (content : PyVal F) :
    Except CommitError SwarmRecord :=
  if !action.tested then .error (.py .typeError)
  else
    match actionToModel action with
    | none => .error .mapping
    | some kind =>
      match content with
      | .str s =>
        match loads s with
        | none => .error .mapping
        | some (.dict kvs) =>
          match validate kind (.dict kvs) with
          | some record => .ok record
          | none => .error .validation
        -- `model(**data)` asks for a mapping
        | some _ => .error (.py .typeError)
      | _ => .error .mapping

/-- `_validate_swarm_draft`. -/
def validateSwarmDraft (validate : Models F) (draft : SwarmDraft F) :
    Except CommitError (MetaValue F) :=
  if draft.source ≠ py "swarm" then .error .validation
  else if draft.version ≠ swarmSchemaVersion then .error .validation
  else if !draft.action.asked.tested then .error (.py .typeError)
  else if actionToModel draft.action.asked = none then .error .validation
  else if !draft.schemaVersion.asked.equals swarmSchemaVersion then .error .validation
  else
    match fromSwarmEntry validate draft.action.asked (.str draft.content) with
    | .error e => .error e
    | .ok record =>
      if !draft.action.asked.equals (swarmAction record.kind) then .error .validation
      else if record.swarmRunId ≠ draft.sessionId then .error .validation
      else .ok draft.action

/-- `_dsm_kernel_version`: what the packaged marker says. -/
def kernelVersion : PyStr := py "1.0"

/-- The metadata with the version of the kernel. -/
def SwarmDraft.stamped (draft : SwarmDraft F) : List (PyStr × MetaValue F) :=
  Dict.set (py "kernel_version") (.val (.str kernelVersion)) draft.metadata

/-- The metadata without objects. -/
def SwarmDraft.stampedVals (draft : SwarmDraft F) : Option (List (PyStr × PyVal F)) :=
  draft.stamped.mapM fun p => p.2.val?.map fun v => (p.1, v)

/-- `SwarmActResult`. -/
structure SwarmActResult (F : Type) where
  swarmRunId : PyStr
  shard : PyStr
  actionName : MetaValue F
  entryId : PyVal F
  tipHash : PyVal F

/-- The entry of the draft, with the id it is given. -/
def SwarmDraft.kernelEntry (draft : SwarmDraft F) (id : Text) (timestamp : Datetime)
    (metadata : List (PyStr × PyVal F)) : Entry F where
  id := .str id.val
  timestamp := timestamp
  sessionId := .str draft.sessionId
  source := .str draft.source
  content := .str draft.content
  shard := .str draft.shard
  hash := .str []
  prevHash := .none
  metadata := .dict (strItems metadata)
  version := .str draft.version

/-- `Storage.append` of an entry JSON cannot write: the segment is opened before the
entry is hashed. -/
def Disk.openTo (cfg : Config) (d : Disk F) (shardId : PyStr) : CommitError × Disk F :=
  let s := d.shard shardId
  match getActiveSegment cfg.limits s.family with
  | .error e => (.py e, d)
  | .ok (path, fam) => (.unwritable, d.setShard shardId { s with family := fam.write path [] })

/-- `commit_swarm_entry`. -/
def commitSwarmEntry (cfg : Config) (validate : Models F) (d : Disk F) (now : Datetime) (id : Text)
    (draft : SwarmDraft F) : Except CommitError (SwarmActResult F) × Disk F :=
  match validateSwarmDraft validate draft with
  | .error e => (.error e, d)
  | .ok action =>
    match draftTimestamp draft.timestamp with
    | none => (.error (.py .valueError), d)
    | some ts =>
      match draft.stampedVals with
      | none =>
        let r := d.openTo cfg (if draft.shard = [] then py "default" else draft.shard)
        (.error r.1, r.2)
      | some metadata =>
        match d.append cfg now (draft.kernelEntry id ts metadata) with
        | (.error e, d') => (.error (.py e), d')
        | (.ok written, d') =>
          (.ok ⟨draft.sessionId, draft.shard, action, written.id, written.hash⟩, d')

/-! ### What the writer promises -/

/-- `metadata.get("action_name")` of an entry. -/
def Entry.action (e : Entry F) : PyVal F :=
  match e.metadata with
  | .dict kvs => getNone (py "action_name") kvs
  | _ => .none

/-- The entry decodes to a record whose kind is that of its action and whose run is that
of its session. -/
def Decodes (validate : Models F) (e : Entry F) : Prop :=
  ∃ record, fromSwarmEntry validate (asked e.action) e.content = .ok record ∧
    e.action = .str (swarmAction record.kind) ∧ e.sessionId = .str record.swarmRunId

/-- **The draft is refused with one of the two errors and nothing is appended, or one
entry is appended, to the shard of its run, and decodes.** -/
def Bounded (cfg : Config) (validate : Models F) (isalnum : CodePoint → Bool) (d : Disk F)
    (now : Datetime) (id : Text) (draft : SwarmDraft F) : Prop :=
  (∃ e, (e = .validation ∨ e = .mapping) ∧
    commitSwarmEntry cfg validate d now id draft = (.error e, d)) ∨
  ∃ result d' shard e, commitSwarmEntry cfg validate d now id draft = (.ok result, d') ∧
    swarmShardName isalnum draft.sessionId = some shard ∧ d.AppendsOne d' shard e ∧
    Decodes validate e

/-! ### The drafts it keeps it of -/

/-- The rest of the draft is fit to be appended: its timestamp is one, its metadata have a
JSON text once they are stamped, its strings encode, and its shard is that of its run. -/
structure SwarmDraft.Fit (isalnum : CodePoint → Bool) (draft : SwarmDraft F) : Prop where
  timestamp : ∃ ts, draftTimestamp draft.timestamp = some ts
  metadata : ∃ metadata, draft.stampedVals = some metadata ∧ Dumpable (.dict (strItems metadata))
  content : Encodable draft.content
  sessionId : Encodable draft.sessionId
  shard : swarmShardName isalnum draft.sessionId = some draft.shard

/-- **What the checks leave out**: an action that cannot be tested, a content that is JSON but no
object, and, in a draft that passes them, all that the storage may trip over. -/
def SwarmDraft.Sane (validate : Models F) (isalnum : CodePoint → Bool) (draft : SwarmDraft F) :
    Prop :=
  draft.source = py "swarm" → draft.version = swarmSchemaVersion →
    draft.action.asked.tested = true ∧
    ∀ kind, actionToModel draft.action.asked = some kind →
      draft.schemaVersion.asked.equals swarmSchemaVersion = true →
      ∀ data, loads draft.content = some data → ∃ kvs, data = .dict kvs ∧
        ∀ record, validate kind (.dict kvs) = some record →
          draft.action.asked.equals (swarmAction record.kind) = true →
          record.swarmRunId = draft.sessionId → draft.Fit isalnum

/-! ### The gate -/

/-- The draft passes the checks, its payload being the record. -/
structure SwarmDraft.Passes (validate : Models F) (draft : SwarmDraft F) (record : SwarmRecord) :
    Prop where
  source : draft.source = py "swarm"
  version : draft.version = swarmSchemaVersion
  ok : validateSwarmDraft validate draft = .ok draft.action
  decoded : fromSwarmEntry validate draft.action.asked (.str draft.content) = .ok record
  action : draft.action.asked.equals (swarmAction record.kind) = true
  run : record.swarmRunId = draft.sessionId

/-- The reading of a content that is a string, for an action of a kind. -/
theorem fromSwarmEntry_str {validate : Models F} {a : Asked} {kind : SwarmKind} {s : PyStr}
    (hhash : a.tested = true) (hkind : actionToModel a = some kind) :
    fromSwarmEntry validate a (.str s) =
      match loads s with
      | none => .error .mapping
      | some (.dict kvs) =>
        match validate kind (.dict kvs) with
        | some record => .ok record
        | none => .error .validation
      | some _ => .error (.py .typeError) := by
  rw [fromSwarmEntry, hhash, Bool.not_true, if_neg Bool.false_ne_true, hkind]

/-- What the payload of a draft is worth, once the rest of the draft has passed. -/
theorem payload_cases (validate : Models F) (isalnum : CodePoint → Bool) (draft : SwarmDraft F)
    {kind : SwarmKind} (hsource : draft.source = py "swarm")
    (hversion : draft.version = swarmSchemaVersion) (hhash : draft.action.asked.tested = true)
    (hkind : actionToModel draft.action.asked = some kind)
    (hschema : draft.schemaVersion.asked.equals swarmSchemaVersion = true) :
    (∃ e, (e = .validation ∨ e = .mapping) ∧ validateSwarmDraft validate draft = .error e ∧
      draft.Sane validate isalnum) ∨
    (validateSwarmDraft validate draft = .error (.py .typeError) ∧ ¬draft.Sane validate isalnum) ∨
    ∃ record, draft.Passes validate record ∧ (draft.Sane validate isalnum ↔ draft.Fit isalnum) := by
  have hgate : validateSwarmDraft validate draft =
      match fromSwarmEntry validate draft.action.asked (.str draft.content) with
      | .error e => .error e
      | .ok record =>
        if !draft.action.asked.equals (swarmAction record.kind) then .error .validation
        else if record.swarmRunId ≠ draft.sessionId then .error .validation
        else .ok draft.action := by
    simp [validateSwarmDraft, hsource, hversion, hhash, hkind, hschema]
  have hsane : draft.Sane validate isalnum ↔ ∀ data, loads draft.content = some data →
      ∃ kvs, data = .dict kvs ∧ ∀ record, validate kind (.dict kvs) = some record →
        draft.action.asked.equals (swarmAction record.kind) = true →
        record.swarmRunId = draft.sessionId → draft.Fit isalnum := by
    constructor
    · intro h
      exact (h hsource hversion).2 kind hkind hschema
    · intro h _ _
      refine ⟨hhash, fun kind' hkind' _ => ?_⟩
      obtain rfl := Option.some.inj (hkind.symm.trans hkind')
      exact h
  have hfrom : fromSwarmEntry validate draft.action.asked (.str draft.content) = _ :=
    fromSwarmEntry_str hhash hkind
  cases hloads : loads (F := F) draft.content with
  | none =>
    rw [hloads] at hfrom
    rw [hfrom] at hgate
    -- the content is no JSON
    exact Or.inl ⟨.mapping, Or.inr rfl, hgate, hsane.mpr (by simp [hloads])⟩
  | some data =>
    rw [hloads] at hfrom
    cases data with
    | dict kvs =>
      dsimp only at hfrom
      cases hrec : validate kind (.dict kvs) with
      | none =>
        rw [hrec] at hfrom
        rw [hfrom] at hgate
        -- the model of the kind does not take it
        refine Or.inl ⟨.validation, Or.inl rfl, hgate, hsane.mpr ?_⟩
        intro data hdata
        rw [hloads] at hdata
        refine ⟨kvs, (Option.some.inj hdata).symm, fun record h => ?_⟩
        rw [hrec] at h
        cases h
      | some record =>
        rw [hrec] at hfrom
        rw [hfrom] at hgate
        dsimp only at hgate
        -- a record: the draft passes if its action and its run are those of the record
        have hfit : draft.Sane validate isalnum ↔
            (draft.action.asked.equals (swarmAction record.kind) = true →
              record.swarmRunId = draft.sessionId → draft.Fit isalnum) := by
          rw [hsane]
          constructor
          · intro h
            obtain ⟨kvs', hkvs, hall⟩ := h _ hloads
            obtain rfl := PyVal.dict.inj hkvs
            exact hall record hrec
          · intro h data hdata
            obtain rfl := Option.some.inj (hloads.symm.trans hdata)
            refine ⟨kvs, rfl, fun record' hrec' => ?_⟩
            obtain rfl := Option.some.inj (hrec.symm.trans hrec')
            exact h
        by_cases haction : draft.action.asked.equals (swarmAction record.kind) = true
        · rw [haction, Bool.not_true, if_neg Bool.false_ne_true] at hgate
          by_cases hrun : record.swarmRunId = draft.sessionId
          · rw [if_neg (not_not_intro hrun)] at hgate
            refine Or.inr (Or.inr ⟨record, ⟨hsource, hversion, hgate, hfrom, haction, hrun⟩, ?_⟩)
            rw [hfit]
            exact ⟨fun h => h haction hrun, fun h _ _ => h⟩
          · rw [if_pos hrun] at hgate
            exact Or.inl ⟨.validation, Or.inl rfl, hgate, hfit.mpr fun _ h => absurd h hrun⟩
        · rw [if_pos (by rw [Bool.eq_false_iff.mpr haction]; rfl)] at hgate
          exact Or.inl ⟨.validation, Or.inl rfl, hgate, hfit.mpr fun h => absurd h haction⟩
    | _ =>
      rw [hfrom] at hgate
      -- JSON that is no dict
      refine Or.inr (Or.inl ⟨hgate, fun h => ?_⟩)
      obtain ⟨kvs, hkvs, -⟩ := hsane.mp h _ hloads
      cases hkvs

/-- **What the gate makes of a draft.**  It refuses it with one of its two errors, and the
draft is sane; or another error gets through, and it is not; or the draft passes, and is
sane iff the rest of it is fit. -/
theorem validateSwarmDraft_cases (validate : Models F) (isalnum : CodePoint → Bool)
    (draft : SwarmDraft F) :
    (∃ e, (e = .validation ∨ e = .mapping) ∧ validateSwarmDraft validate draft = .error e ∧
      draft.Sane validate isalnum) ∨
    (validateSwarmDraft validate draft = .error (.py .typeError) ∧ ¬draft.Sane validate isalnum) ∨
    ∃ record, draft.Passes validate record ∧ (draft.Sane validate isalnum ↔ draft.Fit isalnum) := by
  by_cases hsource : draft.source = py "swarm"
  swap
  · refine Or.inl ⟨.validation, Or.inl rfl, ?_, fun h => absurd h hsource⟩
    simp [validateSwarmDraft, hsource]
  by_cases hversion : draft.version = swarmSchemaVersion
  swap
  · refine Or.inl ⟨.validation, Or.inl rfl, ?_, fun _ h => absurd h hversion⟩
    simp [validateSwarmDraft, hsource, hversion]
  by_cases hhash : draft.action.asked.tested = true
  swap
  · refine Or.inr (Or.inl ⟨?_, fun h => hhash (h hsource hversion).1⟩)
    simp [validateSwarmDraft, hsource, hversion, hhash]
  cases hkind : actionToModel draft.action.asked with
  | none =>
    refine Or.inl ⟨.validation, Or.inl rfl, ?_, fun _ _ => ⟨hhash, ?_⟩⟩
    · simp [validateSwarmDraft, hsource, hversion, hhash, hkind]
    · intro kind h
      rw [hkind] at h
      cases h
  | some kind =>
    by_cases hschema : draft.schemaVersion.asked.equals swarmSchemaVersion = true
    · exact payload_cases validate isalnum draft hsource hversion hhash hkind hschema
    · refine Or.inl ⟨.validation, Or.inl rfl, ?_, fun _ _ => ⟨hhash, fun _ _ h => absurd h hschema⟩⟩
      simp [validateSwarmDraft, hsource, hversion, hhash, hkind, hschema]

/-! ### Appending a draft that passed -/

theorem swarmShardName_ne_nil {isalnum : CodePoint → Bool} {runId shard : PyStr}
    (h : swarmShardName isalnum runId = some shard) : shard ≠ [] ∧ shard ≠ py "default" := by
  unfold swarmShardName at h
  dsimp only at h
  split_ifs at h
  obtain rfl := Option.some.inj h
  generalize ((runId.rtakeWhile fun c => c ≠ 58).filter isalnum).take 16 = safe
  have hcons : py "swarm_" ++ safe = 115 :: (py "warm_" ++ safe) := rfl
  have hdefault : py "default" = 100 :: py "efault" := rfl
  rw [hcons, hdefault]
  refine ⟨List.cons_ne_nil _ _, fun heq => ?_⟩
  exact absurd (List.cons.inj heq).1 (by decide)

/-- The shard name of a run encodes when the id of the run does. -/
theorem encodable_swarmShardName {isalnum : CodePoint → Bool} {runId shard : PyStr}
    (h : swarmShardName isalnum runId = some shard) (hrun : Encodable runId) : Encodable shard := by
  unfold swarmShardName at h
  dsimp only at h
  split_ifs at h
  obtain rfl := Option.some.inj h
  refine encodable_append.mpr ⟨by decide, fun c hc => hrun c ?_⟩
  have hmem := List.mem_of_mem_filter (List.mem_of_mem_take hc)
  exact (List.rtakeWhile_suffix _ _).subset hmem

omit [PyFloat F] in
/-- The values of the metadata, one by one. -/
theorem stampedVals_pointwise {draft : SwarmDraft F} {metadata : List (PyStr × PyVal F)}
    (h : draft.stampedVals = some metadata) :
    List.Forall₂ (fun p q => p.1 = q.1 ∧ p.2 = .val q.2) draft.stamped metadata := by
  unfold SwarmDraft.stampedVals at h
  generalize draft.stamped = ps at h
  induction ps generalizing metadata with
  | nil =>
    obtain rfl := Option.some.inj h
    exact List.Forall₂.nil
  | cons p ps ih =>
    simp only [List.mapM_cons, Option.bind_eq_bind, Option.bind_eq_some_iff, Option.map_eq_some_iff,
      Option.pure_def, Option.some.injEq] at h
    obtain ⟨q, ⟨v, hv, rfl⟩, qs, hqs, rfl⟩ := h
    refine List.Forall₂.cons ⟨rfl, ?_⟩ (ih hqs)
    cases hp : p.2 with
    | val w =>
      rw [hp] at hv
      exact congrArg MetaValue.val (Option.some.inj hv)
    | other a =>
      rw [hp] at hv
      cases hv

/-- In metadata without objects, an action equal to a string is the string. -/
theorem action_of_stampedVals {draft : SwarmDraft F} {metadata : List (PyStr × PyVal F)}
    (h : draft.stampedVals = some metadata) {s : PyStr} (ha : draft.action.asked.equals s = true) :
    draft.action = .val (.str s) ∧ (py "action_name", .str s) ∈ metadata := by
  have hstamp : Dict.get (py "action_name") draft.stamped
      = Dict.get (py "action_name") draft.metadata := Dict.get_set_ne (by decide) _ _
  unfold SwarmDraft.action SwarmDraft.get at ha ⊢
  cases hget : Dict.get (py "action_name") draft.metadata with
  | none =>
    rw [hget] at ha
    exact absurd (pyEq_str_right.mp ha) (by simp)
  | some value =>
    rw [hget] at ha hstamp
    obtain ⟨q, hq, hkey, hval⟩ :=
      Pointwise.exists_of_mem_left (stampedVals_pointwise h) (Dict.mem_of_get hstamp)
    dsimp only at hkey hval
    rw [Option.getD_some, hval] at ha
    have hstr : q.2 = .str s := pyEq_str_right.mp ha
    rw [Option.getD_some, hval, hkey, ← hstr]
    exact ⟨rfl, hq⟩

omit [PyFloat F] in
/-- The keys of the metadata stay apart. -/
theorem nodup_stampedVals {draft : SwarmDraft F} {metadata : List (PyStr × PyVal F)}
    (h : draft.stampedVals = some metadata) : (metadata.map Prod.fst).Nodup := by
  have hkeys : metadata.map Prod.fst = draft.stamped.map Prod.fst := by
    have hpointwise := stampedVals_pointwise h
    generalize draft.stamped = ps at hpointwise
    clear h
    induction hpointwise with
    | nil => rfl
    | cons hpq _ ih => rw [List.map_cons, List.map_cons, hpq.1, ih]
  rw [hkeys]
  exact Dict.nodup_keys_set draft.nodup

/-- The entry of a draft that passed decodes. -/
theorem decodes_kernelEntry {validate : Models F} {draft : SwarmDraft F} {record : SwarmRecord}
    (h : draft.Passes validate record) {metadata : List (PyStr × PyVal F)}
    (hm : draft.stampedVals = some metadata) {sha : Sha256} {shardId : PyStr} {id : Text}
    {ts : Datetime} {p : PyVal F} {e : Entry F} {line : PyStr}
    (hseal : sealEntry sha shardId (draft.kernelEntry id ts metadata) p = .ok (e, line)) :
    Decodes validate (e.readBack shardId) := by
  obtain ⟨-, hrec, -, hash, rfl⟩ := sealEntry_eq_ok hseal
  obtain ⟨w, hw, -⟩ := hrec.printed
  rw [sortDicts_entryDict] at hw
  simp only [Option.bind_eq_some_iff, Option.map_eq_some_iff] at hw
  obtain ⟨_, -, _, -, _, -, _, -, _, -, _, -, m, hsort, -⟩ := hw
  obtain ⟨hdraft, hmem⟩ := action_of_stampedVals hm h.action
  obtain ⟨kvs, hback, hget⟩ := dictGet_readBack (nodup_stampedVals hm) hsort hmem
  rw [readBack_str] at hget
  have haction : (Entry.readBack shardId { draft.kernelEntry id ts metadata with
      prevHash := p, hash := hash }).action = .str (swarmAction record.kind) := by
    unfold Entry.action
    rw [show (Entry.readBack shardId { draft.kernelEntry id ts metadata with
      prevHash := p, hash := hash }).metadata = .dict kvs from hback]
    dsimp only
    rw [getNone, hget, Option.getD_some]
  refine ⟨record, ?_, haction, ?_⟩
  · have hdecoded := h.decoded
    rw [hdraft] at hdecoded
    rw [haction]
    exact hdecoded
  · exact congrArg PyVal.str h.run.symm

omit [PyFloat F] in
/-- What the opening of a segment ends with is none of the two errors. -/
theorem openTo_ne (cfg : Config) (d : Disk F) (shardId : PyStr) :
    (d.openTo cfg shardId).1 ≠ .validation ∧ (d.openTo cfg shardId).1 ≠ .mapping := by
  unfold Disk.openTo
  dsimp only
  split
  · exact ⟨by simp, by simp⟩
  · exact ⟨by simp, by simp⟩

/-- A draft whose entry is sealed, in the shard of its run, is fit. -/
theorem fit_of_sealEntry {isalnum : CodePoint → Bool} {draft : SwarmDraft F} {ts : Datetime}
    (hts : draftTimestamp draft.timestamp = some ts) {metadata : List (PyStr × PyVal F)}
    (hmeta : draft.stampedVals = some metadata) {sha : Sha256} {shardId : PyStr} {id : Text}
    {p : PyVal F} {e : Entry F} {line : PyStr}
    (hseal : sealEntry sha shardId (draft.kernelEntry id ts metadata) p = .ok (e, line))
    (hshard : swarmShardName isalnum draft.sessionId = some draft.shard) : draft.Fit isalnum := by
  have hdumps := dumps_of_sealEntry hseal
  exact ⟨⟨ts, hts⟩, ⟨metadata, hmeta, hdumps.metadata⟩, hdumps.content.2, hdumps.sessionId.2,
    hshard⟩

/-- A draft that passed is bounded iff the rest of it is fit. -/
theorem bounded_iff_fit (cfg : Config) {validate : Models F} {isalnum : CodePoint → Bool}
    {d : Disk F} (hd : d.Kept) (now : Datetime) (id : Text) {draft : SwarmDraft F}
    {record : SwarmRecord} (h : draft.Passes validate record) :
    Bounded cfg validate isalnum d now id draft ↔ draft.Fit isalnum := by
  constructor
  · intro hbounded
    unfold Bounded at hbounded
    rw [commitSwarmEntry, h.ok] at hbounded
    dsimp only at hbounded
    cases hts : draftTimestamp draft.timestamp with
    | none => simp [hts] at hbounded
    | some ts =>
      cases hmeta : draft.stampedVals with
      | none =>
        rw [hts, hmeta] at hbounded
        dsimp only at hbounded
        obtain ⟨hval, hmap⟩ := openTo_ne cfg d
          (if draft.shard = [] then py "default" else draft.shard)
        rcases hbounded with ⟨e, he, hcommit⟩ | ⟨result, d', shard, e, hcommit, -⟩
        · have herr := Except.error.inj (Prod.mk.inj hcommit).1
          rcases he with rfl | rfl
          · exact absurd herr hval
          · exact absurd herr hmap
        · cases (Prod.mk.inj hcommit).1
      | some metadata =>
        rw [hts, hmeta] at hbounded
        dsimp only at hbounded
        rw [Disk.append] at hbounded
        have hid : (draft.kernelEntry id ts metadata).shardId
          = if draft.shard = [] then py "default" else draft.shard := rfl
        generalize (draft.kernelEntry id ts metadata).shardId = shardId at hbounded hid
        cases hseal : sealEntry cfg.sha shardId (draft.kernelEntry id ts metadata)
            (getLastHash (d.shard shardId).pin) with
        | error err =>
          obtain ⟨ds, hds⟩ := hd.family shardId
          obtain ⟨s', happend, -, -⟩ := tidy_append_error now hds hseal
          rw [Disk.appendTo, happend] at hbounded
          rcases hbounded with ⟨e, he, hcommit⟩ | ⟨result, d', shard, e, hcommit, -⟩
          · have herr := Except.error.inj (Prod.mk.inj hcommit).1
            rcases he with rfl | rfl
            · cases herr
            · cases herr
          · cases (Prod.mk.inj hcommit).1
        | ok r =>
          obtain ⟨written, line⟩ := r
          obtain ⟨d', happend, -⟩ := appendsOne_appendTo hd shardId now hseal
          have hd' : (d.appendTo cfg shardId now (draft.kernelEntry id ts metadata)).2 = d' := by
            rw [happend]
          rw [happend] at hbounded
          rcases hbounded with ⟨e, -, hcommit⟩ | ⟨result, d'', shard, e, hcommit, hshard, hone, -⟩
          · cases (Prod.mk.inj hcommit).1
          · obtain ⟨hne, hdefault⟩ := swarmShardName_ne_nil hshard
            have hsame : shardId = shard := by
              by_contra hother
              rw [← (Prod.mk.inj hcommit).2, ← hd'] at hone
              exact not_appendsOne_appendTo hd hother now _ _ hone
            -- the shard of a run is not the one a draft without a shard goes to
            have hown : draft.shard = shard := by
              rw [hsame] at hid
              split_ifs at hid
              · exact absurd hid hdefault
              · exact hid.symm
            exact fit_of_sealEntry hts hmeta hseal (hown ▸ hshard)
  · rintro ⟨⟨ts, hts⟩, ⟨metadata, hmeta, hdump⟩, hcontent, hsession, hshard⟩
    right
    obtain ⟨hne, -⟩ := swarmShardName_ne_nil hshard
    have hid : (draft.kernelEntry id ts metadata).shardId = draft.shard := if_neg hne
    obtain ⟨⟨e, line⟩, hseal⟩ : ∃ r, sealEntry cfg.sha draft.shard (draft.kernelEntry id ts metadata)
        (getLastHash (d.shard draft.shard).pin) = .ok r := by
      refine exists_sealEntry ?_ (hd.pin _).lastHash (encodable_swarmShardName hshard hsession)
      have hsource : Encodable draft.source := by
        rw [h.source]
        decide
      have hversion : Encodable draft.version := by
        rw [h.version]
        decide
      exact ⟨(dumpable_str id.property).writable, dumpable_str hsession, dumpable_str hsource, hdump,
        dumpable_str hcontent, (dumpable_str hversion).writable⟩
    obtain ⟨d', happend, hone⟩ := appendsOne_appendTo hd draft.shard now hseal
    have hcommit : commitSwarmEntry cfg validate d now id draft
        = (.ok ⟨draft.sessionId, draft.shard, draft.action, e.id, e.hash⟩, d') := by
      rw [commitSwarmEntry, h.ok]
      dsimp only
      rw [hts]
      dsimp only
      rw [hmeta]
      dsimp only
      rw [Disk.append, hid, happend]
    exact ⟨_, d', draft.shard, _, hcommit, hshard, hone, decodes_kernelEntry h hmeta hseal⟩

/-- **The writer refuses a draft, or appends one entry of its run that decodes, iff the
draft is sane**, whatever was appended before. -/
theorem commitSwarmEntry_bounded_iff (cfg : Config) (validate : Models F)
    (isalnum : CodePoint → Bool) (is : List (Datetime × Entry F)) (now : Datetime) (id : Text)
    (draft : SwarmDraft F) :
    Bounded cfg validate isalnum (diskAfter cfg is) now id draft ↔ draft.Sane validate isalnum := by
  have hd : (diskAfter cfg is).Kept := kept_diskAfter cfg is
  rcases validateSwarmDraft_cases validate isalnum draft with
    ⟨e, he, hgate, hsane⟩ | ⟨hgate, hsane⟩ | ⟨record, hpass, hfit⟩
  · refine iff_of_true (Or.inl ⟨e, he, ?_⟩) hsane
    rw [commitSwarmEntry, hgate]
  · refine iff_of_false ?_ hsane
    rintro (⟨e, he, hcommit⟩ | ⟨result, d', shard, e, hcommit, -⟩)
    · rw [commitSwarmEntry, hgate] at hcommit
      have herr := Except.error.inj (Prod.mk.inj hcommit).1
      rcases he with rfl | rfl
      · cases herr
      · cases herr
    · rw [commitSwarmEntry, hgate] at hcommit
      cases (Prod.mk.inj hcommit).1
  · rw [hfit]
    exact bounded_iff_fit cfg hd now id hpass

/-! ### A draft that passes the gate alone -/

/-- The model of runs, on dicts with its required fields. -/
def sampleModels : Models FloatLit
  | .run, .dict kvs =>
    match getNone (py "swarm_run_id") kvs, getNone (py "subject_id") kvs,
      getNone (py "orchestrator_id") kvs, getNone (py "objective") kvs with
    | .str runId, .str _, .str _, .str _ => some (.run ⟨runId, .opened⟩)
    | _, _, _, _ => none
  | _, _ => none

/-- A run, as a draft whose timestamp is none. -/
def untimedDraft : SwarmDraft FloatLit where
  sessionId := py "r1"
  source := py "swarm"
  content := py "\x7b\"objective\":\"o\",\"orchestrator_id\":\"a\",\"subject_id\":\"s\","
    ++ py "\"swarm_run_id\":\"r1\"\x7d"
  shard := py "swarm_r1"
  metadata := [(py "action_name", .val (.str (py "swarm.run"))),
    (py "schema_version", .val (.str (py "swarm.v0.1")))]
  timestamp := py "yesterday"
  version := py "swarm.v0.1"
  nodup := by decide

/-- **The draft is not refused with one of the two errors, and is not appended.** -/
theorem untimedDraft_not_bounded : ¬∃ isalnum : CodePoint → Bool,
    Bounded sampleConfig sampleModels isalnum (Disk.empty FloatLit) sampleTime
      ⟨py "e", by decide⟩ untimedDraft := by
  have hcommit : (commitSwarmEntry sampleConfig sampleModels (Disk.empty FloatLit) sampleTime
      ⟨py "e", by decide⟩ untimedDraft).1.map (fun _ => ()) = .error (.py .valueError) := by
    decide +kernel
  rintro ⟨isalnum, ⟨e, he, h⟩ | ⟨result, d', shard, e, h, -⟩⟩
  · rw [h] at hcommit
    have herr : e = .py .valueError := Except.error.inj hcommit
    rcases he with rfl | rfl
    · cases herr
    · cases herr
  · rw [h] at hcommit
    cases hcommit

end Daryl
