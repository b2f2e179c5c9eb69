import Daryl.Dsm.History
import Daryl.Mvx.Schemas

/-!
# Events of the mesh and `events.jsonl`

The events of the server: their payloads, the envelope the factory puts around them, and the
writer, which appends the canonical JSON of an event as a line.  Identifiers are drawn from a
source that never repeats one; what the clock says is an argument.

## Main definitions

* `Ulids` — the source of identifiers.
* `JsonDict` — a dict that was read from the JSON of a request.
* `Payload`, `MeshEvent` — payloads and events, and the dicts that they are.
* `canonicalEvent`, `LoggedEvent`, `write` — `DSMWriter.write`.
* `eventsJsonl` — the file.
* `readAll`, `readEventsFile` — its readers: the one of the writer fails at a line it cannot
  parse, the one of the dashboard passes over it.

## Main results

* `readEventsFile_eventsJsonl`, `readAll_eventsJsonl` — **both read back the events that were
  written.**
-/

namespace Daryl

open Py Json

namespace Mesh

/-! ### Identifiers and dicts -/

/-- A string of a request, as pydantic lets it through, or one of the server's own. -/
abbrev Text := Mvx.Text

/-- The results of `str(ULID())`, one after the other. -/
structure Ulids where
  next : ℕ → Text
  injective : Function.Injective next
  ne_nil : ∀ n, (next n).val ≠ []

variable {F : Type} [PyFloat F]

/-- A dict of a request: what JSON gives, and no more. -/
structure JsonDict (F : Type) [PyFloat F] where
  items : List (Key F × PyVal F)
  json : form (.dict items) = .dict items

/-- The dict as a value. -/
def JsonDict.toPy (d : JsonDict F) : PyVal F := .dict d.items

/-- `d.get(k)`. -/
def JsonDict.get (d : JsonDict F) (k : PyStr) : Option (PyVal F) := dictGet k d.items

/-- A string, or `None`. -/
def textOrNone : Option Text → PyVal F
  | some s => .str s.val
  | none => .none

/-- A list of strings. -/
def texts (ss : List Text) : List (PyVal F) := ss.map fun s => .str s.val

/-! ### Payloads -/

/-- The payload of `agent_registered`. -/
structure AgentRegistered where
  agentId : Text
  agentType : Text
  capabilities : List Text
  keyId : Text
  publicKey : Text

/-- The payload of `mission_created`. -/
structure MissionCreated (F : Type) [PyFloat F] where
  missionId : Text
  title : Text
  description : Text
  metadata : JsonDict F

/-- The payload of `task_created`. -/
structure TaskCreated (F : Type) [PyFloat F] where
  taskId : Text
  missionId : Text
  taskType : Text
  payload : JsonDict F

/-- The payload of `task_assigned`. -/
structure TaskAssigned where
  taskId : Text
  missionId : Text
  assignedTo : Text

/-- The payload of `task_result_submitted`. -/
structure TaskResult (F : Type) [PyFloat F] where
  taskId : Text
  missionId : Text
  agentId : Text
  contributionId : Text
  contentHash : Text
  signature : Text
  selfReportedConfidence : FloatVal F
  createdAt : Text
  content : JsonDict F
  payloadHash : Option Text

/-- The payload of `context_pack_issued`. -/
structure ContextPackIssued where
  contextId : Text
  consumerAgentId : Text
  scope : Text
  sourceEventIds : List Text

/-- The payloads the server writes. -/
inductive Payload (F : Type) [PyFloat F]
  | serverStarted (serverId : Text)
  | serverStopped (serverId : Text)
  | serverRecovered (serverId : Text)
  | agentRegistered (p : AgentRegistered)
  | missionCreated (p : MissionCreated F)
  | taskCreated (p : TaskCreated F)
  | taskAssigned (p : TaskAssigned)
  | taskResultSubmitted (p : TaskResult F)
  | contextPackIssued (p : ContextPackIssued)

namespace Payload

/-- `event_type`. -/
def eventType : Payload F → PyStr
  | serverStarted _ => py "server_started"
  | serverStopped _ => py "server_stopped"
  | serverRecovered _ => py "server_recovered"
  | agentRegistered _ => py "agent_registered"
  | missionCreated _ => py "mission_created"
  | taskCreated _ => py "task_created"
  | taskAssigned _ => py "task_assigned"
  | taskResultSubmitted _ => py "task_result_submitted"
  | contextPackIssued _ => py "context_pack_issued"

/-- The items of a payload. -/
def items : Payload F → List (PyStr × PyVal F)
  | serverStarted serverId | serverStopped serverId | serverRecovered serverId =>
    [(py "server_id", .str serverId.val)]
  | agentRegistered p =>
    [(py "agent_id", .str p.agentId.val), (py "agent_type", .str p.agentType.val),
      (py "capabilities", .list (texts p.capabilities)), (py "key_id", .str p.keyId.val),
      (py "public_key", .str p.publicKey.val)]
  | missionCreated p =>
    [(py "mission_id", .str p.missionId.val), (py "title", .str p.title.val),
      (py "description", .str p.description.val), (py "metadata", p.metadata.toPy)]
  | taskCreated p =>
    [(py "task_id", .str p.taskId.val), (py "mission_id", .str p.missionId.val),
      (py "task_type", .str p.taskType.val), (py "payload", p.payload.toPy)]
  | taskAssigned p =>
    [(py "task_id", .str p.taskId.val), (py "mission_id", .str p.missionId.val),
      (py "assigned_to", .str p.assignedTo.val)]
  | taskResultSubmitted p =>
    [(py "task_id", .str p.taskId.val), (py "mission_id", .str p.missionId.val),
      (py "agent_id", .str p.agentId.val), (py "contribution_id", .str p.contributionId.val),
      (py "content_hash", .str p.contentHash.val), (py "signature", .str p.signature.val),
      (py "self_reported_confidence", .float p.selfReportedConfidence),
      (py "created_at", .str p.createdAt.val), (py "content", p.content.toPy)] ++
    match p.payloadHash with
    | some h => [(py "payload_hash", .str h.val)]
    | none => []
  | contextPackIssued p =>
    [(py "context_id", .str p.contextId.val),
      (py "consumer_agent_id", .str p.consumerAgentId.val), (py "scope", .str p.scope.val),
      (py "source_event_ids", .list (texts p.sourceEventIds)), (py "dsm_event_id", .none)]

theorem nodup_items (p : Payload F) : (p.items.map Prod.fst).Nodup := by
  cases p with
  | taskResultSubmitted p =>
    have hkeys : ([py "task_id", py "mission_id", py "agent_id", py "contribution_id",
        py "content_hash", py "signature", py "self_reported_confidence", py "created_at",
        py "content"] ++ [py "payload_hash"]).Nodup := by decide
    obtain ⟨_, _, _, _, _, _, _, _, _, payloadHash⟩ := p
    cases payloadHash with
    | some h => exact hkeys
    | none => exact (List.nodup_append.mp hkeys).1
  | serverStarted _ | serverStopped _ | serverRecovered _ => exact List.nodup_singleton _
  | agentRegistered p =>
    exact (by decide : [py "agent_id", py "agent_type", py "capabilities", py "key_id",
      py "public_key"].Nodup)
  | missionCreated p =>
    exact (by decide : [py "mission_id", py "title", py "description", py "metadata"].Nodup)
  | taskCreated p =>
    exact (by decide : [py "task_id", py "mission_id", py "task_type", py "payload"].Nodup)
  | taskAssigned p =>
    exact (by decide : [py "task_id", py "mission_id", py "assigned_to"].Nodup)
  | contextPackIssued p =>
    exact (by decide : [py "context_id", py "consumer_agent_id", py "scope",
      py "source_event_ids", py "dsm_event_id"].Nodup)

/-- The dicts of a request that the payload holds have no surrogate. -/
def Encodes : Payload F → Prop
  | missionCreated p => eachStr Encodable p.metadata.toPy
  | taskCreated p => eachStr Encodable p.payload.toPy
  | taskResultSubmitted p => eachStr Encodable p.content.toPy
  | serverStarted _ | serverStopped _ | serverRecovered _ | agentRegistered _ | taskAssigned _
  | contextPackIssued _ => True

end Payload

theorem JsonDict.stable (d : JsonDict F) : Py.stable d.toPy = true := by
  have h := stable_form d.toPy
  rwa [JsonDict.toPy, d.json] at h

/-- A dict of a request is read back as a dict. -/
theorem JsonDict.exists_readBack (d : JsonDict F) : ∃ kvs : List (Key F × PyVal F),
    readBack d.toPy = .dict kvs := by
  obtain ⟨w, hw, -⟩ := sortDicts_of_stable d.stable
  obtain ⟨kvs, rfl⟩ := exists_dict_of_sortDicts hw
  exact ⟨_, readBack_of_sortDicts hw⟩

theorem printable_of_stable {v : PyVal F} (h : stable v = true) : Printable lineStyle v := by
  obtain ⟨w, hw, -⟩ := sortDicts_of_stable h
  exact printable_lineStyle hw

theorem stableList_texts (ss : List Text) : stableList (texts ss : List (PyVal F)) = true := by
  induction ss with
  | nil => rfl
  | cons s ss ih => rw [texts, List.map_cons, stableList, ← texts, ih]; rfl

theorem encodable_texts (ss : List Text) :
    eachStrList Encodable (texts ss : List (PyVal F)) := by
  rw [eachStrList_iff]
  intro v hv
  obtain ⟨s, -, rfl⟩ := List.mem_map.mp hv
  exact s.2

namespace Payload

theorem encodable_keys (p : Payload F) : ∀ i ∈ p.items, Encodable i.1 := by
  cases p with
  | serverStarted _ | serverStopped _ | serverRecovered _ => simp [items]; decide
  | agentRegistered _ | missionCreated _ | taskCreated _ | taskAssigned _ => simp [items]; decide
  | contextPackIssued _ => simp [items]; decide
  | taskResultSubmitted p =>
    obtain ⟨_, _, _, _, _, _, _, _, content, payloadHash⟩ := p
    cases payloadHash <;> simp [items] <;> decide

theorem stable_items (p : Payload F) : ∀ i ∈ p.items, stable i.2 = true := by
  cases p with
  | serverStarted _ | serverStopped _ | serverRecovered _ => simp [items, stable]
  | taskAssigned _ => simp [items, stable]
  | agentRegistered p => simp [items, stable, stableList_texts]
  | missionCreated p => simp [items, stable, p.metadata.stable]
  | taskCreated p => simp [items, stable, p.payload.stable]
  | contextPackIssued p => simp [items, stable, stableList_texts]
  | taskResultSubmitted p =>
    obtain ⟨_, _, _, _, _, _, _, _, content, payloadHash⟩ := p
    cases payloadHash <;> simp [items, stable, content.stable]

/-- The payload encodes when the dicts of the request do: all else is text. -/
theorem encodable_items (p : Payload F) :
    (∀ i ∈ p.items, eachStr Encodable i.2) ↔ p.Encodes := by
  have htext (s : Text) : Encodable s.val := s.2
  cases p with
  | serverStarted _ | serverStopped _ | serverRecovered _ => simp [items, Encodes, eachStr, htext]
  | taskAssigned p => simp [items, Encodes, eachStr, htext]
  | agentRegistered p | contextPackIssued p => simp [items, Encodes, eachStr, htext, encodable_texts]
  | missionCreated p | taskCreated p => simp [items, Encodes, eachStr, htext]
  | taskResultSubmitted p =>
    obtain ⟨_, _, _, _, _, _, _, _, content, payloadHash⟩ := p
    cases payloadHash <;> simp [items, Encodes, eachStr, htext]

end Payload

/-! ### Events -/

/-- The `auth` block. -/
structure EventAuth where
  transportAuthenticated : Bool
  signaturePresent : Bool
  signatureVerified : Bool
  keyId : Option Text
  signatureAlgorithm : Option Text

/-- `_DEFAULT_AUTH`. -/
def defaultAuth : EventAuth := ⟨false, false, false, none, none⟩

/-- The auth block as the dict it is. -/
def EventAuth.toPy (a : EventAuth) : PyVal F :=
  .dict (strItems [(py "transport_authenticated", .bool a.transportAuthenticated),
    (py "signature_present", .bool a.signaturePresent),
    (py "signature_verified", .bool a.signatureVerified), (py "key_id", textOrNone a.keyId),
    (py "signature_algorithm", textOrNone a.signatureAlgorithm)])

/-- An event.  The routes give no causal references. -/
structure MeshEvent (F : Type) [PyFloat F] where
  eventId : Text
  timestamp : Text
  scopeType : Text
  scopeId : Text
  sourceType : Text
  sourceId : Text
  writerType : Text
  writerId : Text
  payload : Payload F
  parentEventId : Option Text
  auth : EventAuth

/-- The items of an event. -/
def MeshEvent.items (e : MeshEvent F) : List (PyStr × PyVal F) :=
  [(py "event_id", .str e.eventId.val), (py "schema_version", .str (py "1.0")),
    (py "event_type", .str e.payload.eventType), (py "event_version", .str (py "1.0")),
    (py "timestamp", .str e.timestamp.val), (py "scope_type", .str e.scopeType.val),
    (py "scope_id", .str e.scopeId.val), (py "source_type", .str e.sourceType.val),
    (py "source_id", .str e.sourceId.val), (py "writer_type", .str e.writerType.val),
    (py "writer_id", .str e.writerId.val), (py "payload", .dict (strItems e.payload.items)),
    (py "links", .dict (strItems [(py "parent_event_id", textOrNone e.parentEventId),
      (py "causal_refs", .list [])])),
    (py "auth", e.auth.toPy)]

/-- The dict of an event. -/
def MeshEvent.toPy (e : MeshEvent F) : PyVal F := .dict (strItems e.items)

theorem MeshEvent.nodup_items (e : MeshEvent F) : (e.items.map Prod.fst).Nodup :=
  (by decide : [py "event_id", py "schema_version", py "event_type", py "event_version",
    py "timestamp", py "scope_type", py "scope_id", py "source_type", py "source_id",
    py "writer_type", py "writer_id", py "payload", py "links", py "auth"].Nodup)

/-- `mission`, `system`, `server` and `agent`. -/
def missionText : Text := ⟨py "mission", by decide⟩

@[inherit_doc missionText]
def systemText : Text := ⟨py "system", by decide⟩

@[inherit_doc missionText]
def serverText : Text := ⟨py "server", by decide⟩

@[inherit_doc missionText]
def agentText : Text := ⟨py "agent", by decide⟩

/-- `system.server.lifecycle`. -/
def lifecycleScope : Text := ⟨py "system.server.lifecycle", by decide⟩

/-- `system.agent_registry`. -/
def registryScope : Text := ⟨py "system.agent_registry", by decide⟩

/-- `system.agent_context` and `system.context`. -/
def agentContextScope : Text := ⟨py "system.agent_context", by decide⟩

@[inherit_doc agentContextScope]
def contextScope : Text := ⟨py "system.context", by decide⟩

/-- `f"mission_{mission_id}"`. -/
def missionScope (missionId : Text) : Text :=
  ⟨py "mission_" ++ missionId.val, encodable_append.mpr ⟨by decide, missionId.2⟩⟩

/-- `_system`. -/
def systemEvent (eventId timestamp scopeId serverId : Text) (payload : Payload F) :
    MeshEvent F where
  eventId := eventId
  timestamp := timestamp
  scopeType := systemText
  scopeId := scopeId
  sourceType := serverText
  sourceId := serverId
  writerType := serverText
  writerId := serverId
  payload := payload
  parentEventId := none
  auth := defaultAuth

/-- `_mission_server_authored`. -/
def missionServerAuthored (eventId timestamp missionId serverId : Text) (payload : Payload F)
    (parentEventId : Option Text) : MeshEvent F where
  eventId := eventId
  timestamp := timestamp
  scopeType := missionText
  scopeId := missionScope missionId
  sourceType := serverText
  sourceId := serverId
  writerType := serverText
  writerId := serverId
  payload := payload
  parentEventId := parentEventId
  auth := defaultAuth

/-- `_mission_agent_authored`. -/
def missionAgentAuthored (eventId timestamp missionId serverId agentId : Text)
    (payload : Payload F) : MeshEvent F where
  eventId := eventId
  timestamp := timestamp
  scopeType := missionText
  scopeId := missionScope missionId
  sourceType := agentText
  sourceId := agentId
  writerType := serverText
  writerId := serverId
  payload := payload
  parentEventId := none
  auth := defaultAuth

/-- `scope.split(":", 1)[1]`, of a scope that starts with the word and a colon. -/
def scopeOf? (word : PyStr) (scope : Text) : Option Text :=
  if (word ++ py ":").isPrefixOf scope.val then
    some ⟨scope.val.drop (word.length + 1), fun c hc => scope.2 c (List.mem_of_mem_drop hc)⟩
  else none

/-- `context_pack_issued`. -/
def contextPackIssued (eventId timestamp serverId : Text) (p : ContextPackIssued) : MeshEvent F :=
  match scopeOf? (py "mission") p.scope with
  | some missionId =>
    missionServerAuthored eventId timestamp missionId serverId (.contextPackIssued p) none
  | none =>
    systemEvent eventId timestamp
      (if (scopeOf? (py "agent") p.scope).isSome then agentContextScope else contextScope) serverId
      (.contextPackIssued p)

/-- The event of a context pack is about the mission of its scope, or about none. -/
theorem contextPackIssued_spec (eventId timestamp serverId : Text) (p : ContextPackIssued) :
    (contextPackIssued eventId timestamp serverId p : MeshEvent F).payload = .contextPackIssued p ∧
    ((∃ missionId, scopeOf? (py "mission") p.scope = some missionId ∧
      (contextPackIssued eventId timestamp serverId p : MeshEvent F).scopeId =
        missionScope missionId) ∨
    scopeOf? (py "mission") p.scope = none ∧
      ((contextPackIssued eventId timestamp serverId p : MeshEvent F).scopeId = agentContextScope ∨
        (contextPackIssued eventId timestamp serverId p : MeshEvent F).scopeId = contextScope)) := by
  unfold contextPackIssued
  cases scopeOf? (py "mission") p.scope with
  | some missionId => exact ⟨rfl, .inl ⟨missionId, rfl, rfl⟩⟩
  | none =>
    dsimp only [systemEvent]
    split_ifs
    · exact ⟨rfl, .inr ⟨rfl, .inl rfl⟩⟩
    · exact ⟨rfl, .inr ⟨rfl, .inr rfl⟩⟩

theorem MeshEvent.eventType_encodable (e : MeshEvent F) : Encodable e.payload.eventType := by
  cases e.payload <;> simp only [Payload.eventType] <;> decide

theorem printable_payload (p : Payload F) : Printable lineStyle (.dict (strItems p.items)) :=
  printable_object fun i hi => printable_of_stable (p.stable_items i hi)

theorem encodable_payload (p : Payload F) :
    eachStr Encodable (.dict (strItems p.items)) ↔ p.Encodes := by
  rw [← p.encodable_items, eachStr, eachStrItems_iff, strItems, List.forall_mem_map]
  exact forall₂_congr fun i hi => and_iff_right (p.encodable_keys i hi)

theorem writable_textOrNone (s : Option Text) : Writable (textOrNone s : PyVal F) := by
  cases s with
  | none => exact ⟨printable_lineStyle rfl, trivial⟩
  | some s => exact ⟨printable_lineStyle rfl, s.2⟩

theorem writable_bool (b : Bool) : Writable (.bool b : PyVal F) :=
  ⟨printable_lineStyle rfl, trivial⟩

theorem EventAuth.writable (a : EventAuth) : Writable (a.toPy : PyVal F) := by
  apply writable_object
  simp only [List.forall_mem_cons]
  exact ⟨writableField (by decide) (writable_bool _), writableField (by decide) (writable_bool _),
    writableField (by decide) (writable_bool _), writableField (by decide) (writable_textOrNone _),
    writableField (by decide) (writable_textOrNone _), List.forall_mem_nil _⟩

theorem writable_links (parent : Option Text) :
    Writable (.dict (strItems [(py "parent_event_id", textOrNone parent),
      (py "causal_refs", .list [])]) : PyVal F) := by
  apply writable_object
  simp only [List.forall_mem_cons]
  exact ⟨writableField (by decide) (writable_textOrNone _),
    writableField (by decide) ⟨printable_lineStyle rfl, trivial⟩, List.forall_mem_nil _⟩

/-- **An event can be written when the dicts of its request encode.** -/
theorem MeshEvent.writable_iff (e : MeshEvent F) : Writable e.toPy ↔ e.payload.Encodes := by
  have htext (s : Text) : Writable (.str s.val : PyVal F) := ⟨printable_lineStyle rfl, s.2⟩
  have hlit {s : PyStr} (h : Encodable s) : Writable (.str s : PyVal F) :=
    ⟨printable_lineStyle rfl, h⟩
  constructor
  · rintro ⟨-, h⟩
    rw [← encodable_payload]
    rw [toPy, eachStr, eachStrItems_iff] at h
    have hmem : (py "payload", PyVal.dict (strItems e.payload.items)) ∈ e.items := by simp [items]
    exact (h _ (List.mem_map_of_mem hmem)).2
  · intro h
    have hpayload : Writable (.dict (strItems e.payload.items)) :=
      ⟨printable_payload _, (encodable_payload _).mpr h⟩
    apply writable_object
    simp only [items, List.forall_mem_cons]
    exact ⟨writableField (by decide) (htext _), writableField (by decide) (hlit (by decide)),
      writableField (by decide) (hlit e.eventType_encodable),
      writableField (by decide) (hlit (by decide)), writableField (by decide) (htext _),
      writableField (by decide) (htext _), writableField (by decide) (htext _),
      writableField (by decide) (htext _), writableField (by decide) (htext _),
      writableField (by decide) (htext _), writableField (by decide) (htext _),
      writableField (by decide) hpayload, writableField (by decide) (writable_links _),
      writableField (by decide) e.auth.writable, List.forall_mem_nil _⟩

/-! ### The writer -/

/-- `_canonical_json`, before it is encoded. -/
def canonicalEvent (e : MeshEvent F) : Except PyError PyStr :=
  match dumpsSorted lineStyle e.toPy with
  | .ok text => if Encodable text then .ok text else .error .unicodeEncodeError
  | .error err => .error (DumpsError.toPyError err)

/-- An event that was written, with its line. -/
structure LoggedEvent (F : Type) [PyFloat F] where
  event : MeshEvent F
  line : PyStr
  written : canonicalEvent event = .ok line

/-- How a write ends: with an entry, with `None`, or with an exception. -/
inductive WriteEnd (F : Type) [PyFloat F]
  | written (l : LoggedEvent F)
  | refused
  | raised (e : PyError)

/-- What is appended. -/
def WriteEnd.lines : WriteEnd F → List (LoggedEvent F)
  | .written l => [l]
  | .refused | .raised _ => []

/-- `DSMWriter.write`; whether it refuses, for its size bounds or by the test hook, is an
argument. -/
def write (refuse : Bool) (e : MeshEvent F) : WriteEnd F :=
  if refuse then .refused
  else
    match h : canonicalEvent e with
    | .ok line => .written ⟨e, line, h⟩
    | .error err => .raised err

/-- `WrittenEntry.entry_hash`. -/
def LoggedEvent.entryHash (sha : Sha256) (l : LoggedEvent F) : PyStr :=
  hexdigest sha (utf8Bytes l.line)

theorem canonicalEvent_eq_ok {e : MeshEvent F} {line : PyStr} : canonicalEvent e = .ok line ↔
    Encodable line ∧ ∃ w, sortDicts e.toPy = some w ∧ print lineStyle w = some line := by
  have hdumps : dumpsSorted lineStyle e.toPy = .ok line ↔ _ := dumpsSorted_eq_ok
  rw [← hdumps]
  unfold canonicalEvent
  generalize dumpsSorted lineStyle e.toPy = r
  cases r with
  | error err => exact ⟨nofun, fun h => nomatch h.2⟩
  | ok text =>
    dsimp only
    split
    · next henc =>
      refine ⟨fun h => ?_, fun h => congrArg _ (Except.ok.inj h.2)⟩
      obtain rfl : text = line := Except.ok.inj h
      exact ⟨henc, rfl⟩
    · next henc =>
      exact ⟨nofun, fun h => absurd (Except.ok.inj h.2 ▸ h.1) henc⟩

theorem canonicalEvent_encodes {e : MeshEvent F} (h : e.payload.Encodes) :
    ∃ line, canonicalEvent e = .ok line := by
  obtain ⟨⟨w, line, hw, hline⟩, henc⟩ := e.writable_iff.mpr h
  exact ⟨line, canonicalEvent_eq_ok.mpr
    ⟨(encodable_print rfl hline).mpr ((eachStr_of_sortDicts hw).mpr henc), w, hw, hline⟩⟩

/-- The event of a line can be written. -/
theorem LoggedEvent.encodes (l : LoggedEvent F) : l.event.payload.Encodes := by
  obtain ⟨henc, w, hw, hline⟩ := canonicalEvent_eq_ok.mp l.written
  exact l.event.writable_iff.mp
    ⟨printable_lineStyle hw, (eachStr_of_sortDicts hw).mp ((encodable_print rfl hline).mp henc)⟩

theorem write_eq_written {e : MeshEvent F} {line : PyStr} (h : canonicalEvent e = .ok line) :
    write false e = .written ⟨e, line, h⟩ := by
  rw [write, if_neg Bool.false_ne_true]
  split
  · next line' h' =>
    obtain rfl : line' = line := Except.ok.inj (h'.symm.trans h)
    rfl
  · next err h' => exact nomatch h'.symm.trans h

theorem write_eq_raised {e : MeshEvent F} {err : PyError} (h : canonicalEvent e = .error err) :
    write false e = .raised err := by
  rw [write, if_neg Bool.false_ne_true]
  split
  · next line h' => exact nomatch h'.symm.trans h
  · next err' h' =>
    obtain rfl : err' = err := Except.error.inj (h'.symm.trans h)
    rfl

/-- **How a write ends**: what is not refused is written, or raises at a surrogate. -/
theorem write_cases (refuse : Bool) (e : MeshEvent F) :
    (refuse = true ∧ write refuse e = .refused) ∨
    (refuse = false ∧ ¬ e.payload.Encodes ∧ ∃ err, write refuse e = .raised err) ∨
    (refuse = false ∧ e.payload.Encodes ∧ ∃ l, l.event = e ∧ write refuse e = .written l) := by
  cases refuse with
  | true => exact .inl ⟨rfl, rfl⟩
  | false =>
    cases h : canonicalEvent e with
    | ok line =>
      have henc := LoggedEvent.encodes ⟨e, line, h⟩
      exact .inr (.inr ⟨rfl, henc, _, rfl, write_eq_written h⟩)
    | error err =>
      refine .inr (.inl ⟨rfl, fun henc => ?_, err, write_eq_raised h⟩)
      obtain ⟨line, hline⟩ := canonicalEvent_encodes henc
      exact nomatch hline.symm.trans h

theorem event_of_write {refuse : Bool} {e : MeshEvent F} {l : LoggedEvent F}
    (h : write refuse e = .written l) : l.event = e := by
  rcases write_cases refuse e with ⟨-, h'⟩ | ⟨-, -, err, h'⟩ | ⟨-, -, l', rfl, h'⟩
  · exact nomatch h.symm.trans h'
  · exact nomatch h.symm.trans h'
  · rw [h] at h'
    cases h'
    rfl

theorem event_of_mem_lines {refuse : Bool} {e : MeshEvent F} {l : LoggedEvent F}
    (h : l ∈ (write refuse e).lines) : l.event = e := by
  cases hw : write refuse e with
  | written l' =>
    rw [hw] at h
    exact List.mem_singleton.mp h ▸ event_of_write hw
  | refused => simp [hw, WriteEnd.lines] at h
  | raised err => simp [hw, WriteEnd.lines] at h

/-! ### The file -/

/-- The content of `events.jsonl`. -/
def eventsJsonl (log : List (LoggedEvent F)) : List Byte := log.flatMap fun l => lineBytes l.line

/-- `DSMWriter.read_all`. -/
def readAll (bs : List Byte) : Except PyError (List (PyVal F)) :=
  (textLines bs).bind fun lines => (lines.filter notBlank).mapM fun line =>
    match loads (strip line) with
    | some v => .ok v
    | none => .error .valueError

/-- `_read_events_file`. -/
def readEventsFile (bs : List Byte) : Except PyError (List (PyVal F)) :=
  (textLines bs).map fun lines => lines.filterMap lineEvent

/-- The text is a line of its own, and the value is read from it. -/
structure ReadsAs (t : PyStr) (v : PyVal F) : Prop where
  plain : PlainLine t
  strip : strip t = t
  ne_nil : t ≠ []
  loads : loads t = some v

/-- The canonical JSON of a dict is read back from its line. -/
theorem readsAs_print {kvs : List (Key F × PyVal F)} {w : PyVal F} {t : PyStr}
    (hw : sortDicts (.dict kvs) = some w) (ht : print lineStyle w = some t) (henc : Encodable t) :
    ReadsAs t (readBack (.dict kvs)) := by
  obtain ⟨lws, rfl⟩ := exists_dict_of_sortDicts hw
  obtain ⟨s, hs⟩ := print_dict_shape ht
  refine ⟨⟨henc, nl_notMem_print ht, cr_notMem_print ht⟩, strip_print_dict ht, ?_, ?_⟩
  · rw [hs]
    simp
  · rw [loads_print ht (by simp [lineStyle]), readBack_of_sortDicts hw]

/-- **The writer reads from its lines what can be read from each.** -/
theorem readAll_lines {ts : List PyStr} {vs : List (PyVal F)} (h : List.Forall₂ ReadsAs ts vs) :
    readAll (ts.flatMap lineBytes) = .ok vs := by
  have hplain : ∀ t ∈ ts, PlainLine t := by
    intro t ht
    obtain ⟨v, -, hv⟩ := Pointwise.exists_of_mem_left h ht
    exact hv.plain
  have hblank : [[]].filter notBlank = [] := rfl
  rw [readAll, textLines_lines hplain, Except.bind, List.filter_append, hblank, List.append_nil]
  clear hplain hblank
  induction h with
  | nil => rfl
  | @cons t v ts vs h _ ih =>
    have hnotBlank : notBlank t = true := by simpa [notBlank, h.strip] using h.ne_nil
    rw [List.filter_cons_of_pos hnotBlank, List.mapM_cons, ih, h.strip, h.loads]
    rfl

namespace LoggedEvent

/-- The event, as it is read back. -/
def stored (l : LoggedEvent F) : PyVal F := readBack l.event.toPy

theorem exists_print (l : LoggedEvent F) : ∃ kvs : List (Key F × PyVal F),
    sortDicts l.event.toPy = some (.dict kvs) ∧ print lineStyle (.dict kvs) = some l.line := by
  obtain ⟨-, w, hw, hline⟩ := canonicalEvent_eq_ok.mp l.written
  obtain ⟨kvs, rfl⟩ := exists_dict_of_sortDicts hw
  exact ⟨kvs, hw, hline⟩

/-- The line of an event is read back. -/
theorem readsAs (l : LoggedEvent F) : ReadsAs l.line l.stored := by
  obtain ⟨henc, w, hw, hline⟩ := canonicalEvent_eq_ok.mp l.written
  exact readsAs_print hw hline henc

theorem plain (l : LoggedEvent F) : PlainLine l.line := l.readsAs.plain

theorem strip_line_ne_nil (l : LoggedEvent F) : strip l.line ≠ [] := by
  rw [l.readsAs.strip]
  exact l.readsAs.ne_nil

theorem loads_line (l : LoggedEvent F) : loads (strip l.line) = some l.stored := by
  rw [l.readsAs.strip, l.readsAs.loads]

/-- **A field of an event is read back under its name.** -/
theorem stored_get (l : LoggedEvent F) : ∃ kvs, l.stored = .dict kvs ∧
    ∀ i ∈ l.event.items, dictGet i.1 kvs = some (readBack i.2) := by
  obtain ⟨kvs, hw, -⟩ := l.exists_print
  have hcanon : canon l.event.toPy = some l.stored := by
    rw [canon, hw, Option.map_some, stored, readBack_of_sortDicts hw]
  obtain ⟨qs, hqs, hkeys, hitems, -⟩ := canon_object l.event.nodup_items hcanon
  refine ⟨strItems qs, hqs, fun i hi => ?_⟩
  obtain ⟨u, hu, hmem⟩ := hitems i hi
  rw [dictGet_of_mem hkeys hmem, readBack, hu, Option.getD_some]

end LoggedEvent

/-- **A field of a payload is read back under its name, and there are no others.** -/
theorem payload_get (p : Payload F) : ∃ kvs, readBack (.dict (strItems p.items)) = .dict kvs ∧
    (∀ i ∈ p.items, dictGet i.1 kvs = some (readBack i.2)) ∧
    ∀ k ∉ p.items.map Prod.fst, dictGet k kvs = none := by
  obtain ⟨w, -, hw, -⟩ := printable_payload p
  have hcanon : canon (.dict (strItems p.items)) = some (readBack (.dict (strItems p.items))) := by
    rw [canon, hw, Option.map_some, readBack_of_sortDicts hw]
  obtain ⟨qs, hqs, hkeys, hitems, hback⟩ := canon_object p.nodup_items hcanon
  refine ⟨strItems qs, hqs, fun i hi => ?_, fun k hk => ?_⟩
  · obtain ⟨u, hu, hmem⟩ := hitems i hi
    rw [dictGet_of_mem hkeys hmem, readBack, hu, Option.getD_some]
  · rw [Option.eq_none_iff_forall_ne_some]
    intro v hv
    obtain ⟨q, hq, hkey⟩ := List.mem_map.mp (mem_of_dictGet hv)
    obtain rfl : q.1 = k := Key.str.inj (congrArg Prod.fst hkey)
    exact hk (hback q hq)

theorem textLines_eventsJsonl (log : List (LoggedEvent F)) :
    textLines (eventsJsonl log) = .ok (log.map LoggedEvent.line ++ [[]]) := by
  have hplain : ∀ l ∈ log.map LoggedEvent.line, PlainLine l :=
    List.forall_mem_map.mpr fun l _ => l.plain
  rw [← textLines_lines hplain, eventsJsonl, List.flatMap_map]

/-- **The dashboard reads back the events that were written.** -/
theorem readEventsFile_eventsJsonl (log : List (LoggedEvent F)) :
    readEventsFile (eventsJsonl log) = .ok (log.map LoggedEvent.stored) := by
  rw [readEventsFile, textLines_eventsJsonl, Except.map, List.filterMap_append]
  have hblank : [[]].filterMap (lineEvent (F := F)) = [] := rfl
  rw [hblank, List.append_nil, List.filterMap_map, ← List.filterMap_eq_map]
  congr 2
  funext l
  simp only [Function.comp, lineEvent, if_neg l.strip_line_ne_nil, l.loads_line]

/-- **The writer reads back the events it wrote.** -/
theorem readAll_eventsJsonl (log : List (LoggedEvent F)) :
    readAll (eventsJsonl log) = .ok (log.map LoggedEvent.stored) := by
  have hlines : List.Forall₂ ReadsAs (log.map LoggedEvent.line) (log.map LoggedEvent.stored) := by
    induction log with
    | nil => exact .nil
    | cons l log ih => exact .cons l.readsAs ih
  rw [← readAll_lines hlines, eventsJsonl, List.flatMap_map]

end Mesh

end Daryl
