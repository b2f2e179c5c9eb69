import Daryl.Dsm.Primitives
import Daryl.Json.Text
import Daryl.Rr.Index

/-!
# `prl.types`: resolutions, drafts and their mapping to entries

A resolution is a governance act over a claim.  It is written as a draft whose
content is the canonical JSON of the node and whose action name is its kind, and
read back by the model of that kind.  The models are those of a library: here a
node carries what its validators check, and the reading of a dict is a parameter.

## Main definitions

* `Text`, `NonEmptyText` — the strings a model takes.
* `ResolutionNode` — the node, with its `MEF` and `Carrier`.
* `ResolutionNode.modelDump`, `toEntry` — the node as a dict, and as a draft.
* `draftToEntry` — the draft as an entry of the kernel.
* `fromEntry` — the node of an entry.
* `Revalidates` — what is asked of the library: a node reads back from its dump.

## Main results

* `exists_draftToEntry` — **the entry of a resolution reads back as the resolution.**
-/

namespace Daryl

open Py Json

/-- A string a model takes: one that encodes. -/
abbrev Text := {s : PyStr // Encodable s}

/-- A string that is more than white space. -/
abbrev NonEmptyText := {s : PyStr // Encodable s ∧ strip s ≠ []}

-- the texts of the samples, and their confidence
theorem confidence_one : 0 ≤ PyFloat.val (⟨false, 1, .frac 0 [] none⟩ : FloatLit) ∧
    PyFloat.val (⟨false, 1, .frac 0 [] none⟩ : FloatLit) ≤ 1 := by decide +kernel

theorem encodable_run : Encodable (py "run") := by decide

theorem encodable_s : Encodable (py "s") := by decide

theorem encodable_o : Encodable (py "o") := by decide

theorem encodable_e : Encodable (py "e") := by decide

theorem encodable_objective : Encodable (py "objective") := by decide

theorem encodable_stamp : Encodable (py "2026-01-02T03:04:05.006Z") := by decide

theorem encodable_consult : Encodable (py "consult_1") := by decide

theorem filled_claim : Encodable (py "claim_1") ∧ strip (py "claim_1") ≠ [] := by decide

theorem encodable_consultations : Encodable (py "prl_consultations") := by decide

/-! ### Nodes -/

/-- `ResolutionDecision`. -/
inductive ResolutionDecision
  | accepted
  | rejected
  | superseded
  | withdrawn
  deriving DecidableEq

/-- The literal of a decision. -/
def ResolutionDecision.text : ResolutionDecision → PyStr
  | accepted => py "accepted"
  | rejected => py "rejected"
  | superseded => py "superseded"
  | withdrawn => py "withdrawn"

/-- The carrier of record. -/
structure Carrier where
  provider : NonEmptyText
  model : Option Text
  adapter : Option Text
  deriving DecidableEq

/-- `Carrier.short`. -/
def Carrier.short (c : Carrier) : PyStr :=
  match c.model with
  | some m => if m.val = [] then c.provider.val else c.provider.val ++ py ":" ++ m.val
  | none => c.provider.val

/-- The minimal epistemic frame. -/
structure MEF (F : Type) [PyFloat F] where
  claimId : NonEmptyText
  regime : NonEmptyText
  confidence : {x : F // 0 ≤ PyFloat.val x ∧ PyFloat.val x ≤ 1}
  contested : Bool
  producer : NonEmptyText
  agentId : Option NonEmptyText
  carrier : Option Carrier

/-- `ResolutionNode`. -/
structure ResolutionNode (F : Type) [PyFloat F] where
  resolutionId : NonEmptyText
  targetClaimId : NonEmptyText
  decision : ResolutionDecision
  mef : MEF F
  orgId : Option Text

/-! ### Dumps -/

variable {F : Type} [PyFloat F]

/-- A field that `exclude_none=True` may leave out. -/
def optionalField (k : PyStr) (v : Option PyStr) : List (PyStr × PyVal F) :=
  v.toList.map fun s => (k, .str s)

/-- The fields of a carrier. -/
def Carrier.fields (c : Carrier) : List (PyStr × PyVal F) :=
  (py "provider", .str c.provider.val) ::
    (optionalField (py "model") (c.model.map Subtype.val) ++
      optionalField (py "adapter") (c.adapter.map Subtype.val))

/-- The fields of a frame. -/
def MEF.fields (m : MEF F) : List (PyStr × PyVal F) :=
  [(py "claim_id", .str m.claimId.val), (py "regime", .str m.regime.val),
    (py "confidence", .float (.finite m.confidence.val)), (py "contested", .bool m.contested),
    (py "producer", .str m.producer.val)] ++
    (optionalField (py "agent_id") (m.agentId.map Subtype.val) ++
      m.carrier.toList.map fun c => (py "carrier", .dict (strItems c.fields)))

/-- The fields of a resolution. -/
def ResolutionNode.fields (n : ResolutionNode F) : List (PyStr × PyVal F) :=
  [(py "node_type", .str (py "resolution")), (py "resolution_id", .str n.resolutionId.val),
    (py "target_claim_id", .str n.targetClaimId.val), (py "decision", .str n.decision.text),
    (py "mef", .dict (strItems n.mef.fields))] ++
    optionalField (py "org_id") (n.orgId.map Subtype.val)

/-- `model_dump(mode="json", exclude_none=True)`. -/
def ResolutionNode.modelDump (n : ResolutionNode F) : PyVal F := .dict (strItems n.fields)

theorem dumpable_optionalField {k : PyStr} (hk : Encodable k) {v : Option PyStr}
    (h : ∀ s ∈ v, Encodable s) :
    ∀ p ∈ (optionalField k v : List (PyStr × PyVal F)), Encodable p.1 ∧ Dumpable p.2 := by
  intro p hp
  obtain ⟨s, hs, rfl⟩ := List.mem_map.mp hp
  exact ⟨hk, dumpable_str (h s (Option.mem_toList.mp hs))⟩

theorem Carrier.dumpable (c : Carrier) : Dumpable (.dict (strItems c.fields) : PyVal F) := by
  apply dumpable_object
  intro p hp
  rcases List.mem_cons.mp hp with rfl | hp
  · exact dumpableField (by decide) (dumpable_str c.provider.property.1)
  · rcases List.mem_append.mp hp with hp | hp
    · apply dumpable_optionalField (by decide) _ p hp
      intro s hs
      obtain ⟨t, -, rfl⟩ := Option.mem_map.mp hs
      exact t.property
    · apply dumpable_optionalField (by decide) _ p hp
      intro s hs
      obtain ⟨t, -, rfl⟩ := Option.mem_map.mp hs
      exact t.property

theorem MEF.dumpable (m : MEF F) : Dumpable (.dict (strItems m.fields) : PyVal F) := by
  apply dumpable_object
  intro p hp
  rcases List.mem_append.mp hp with hp | hp
  · simp only [List.mem_cons, List.not_mem_nil, or_false] at hp
    rcases hp with rfl | rfl | rfl | rfl | rfl
    · exact dumpableField (by decide) (dumpable_str m.claimId.property.1)
    · exact dumpableField (by decide) (dumpable_str m.regime.property.1)
    · exact dumpableField (by decide) ⟨⟨_, _, rfl, rfl⟩, trivial⟩
    · exact dumpableField (by decide) ⟨⟨_, _, rfl, rfl⟩, trivial⟩
    · exact dumpableField (by decide) (dumpable_str m.producer.property.1)
  · rcases List.mem_append.mp hp with hp | hp
    · apply dumpable_optionalField (by decide) _ p hp
      intro s hs
      obtain ⟨t, -, rfl⟩ := Option.mem_map.mp hs
      exact t.property.1
    · obtain ⟨c, -, rfl⟩ := List.mem_map.mp hp
      exact dumpableField (by decide) c.dumpable

theorem ResolutionNode.dumpable (n : ResolutionNode F) : Dumpable n.modelDump := by
  apply dumpable_object
  intro p hp
  rcases List.mem_append.mp hp with hp | hp
  · simp only [List.mem_cons, List.not_mem_nil, or_false] at hp
    rcases hp with rfl | rfl | rfl | rfl | rfl
    · exact dumpableField (by decide) (dumpable_str (by decide))
    · exact dumpableField (by decide) (dumpable_str n.resolutionId.property.1)
    · exact dumpableField (by decide) (dumpable_str n.targetClaimId.property.1)
    · apply dumpableField (by decide) (dumpable_str _)
      cases n.decision <;> decide
    · exact dumpableField (by decide) n.mef.dumpable
  · apply dumpable_optionalField (by decide) _ p hp
    intro s hs
    obtain ⟨t, -, rfl⟩ := Option.mem_map.mp hs
    exact t.property

/-! ### Drafts -/

/-- A draft of an entry; `V` is the type of the values of its metadata. -/
structure EntryDraft (V : Type) where
  sessionId : PyStr
  source : PyStr
  content : PyStr
  shard : PyStr
  metadata : List (PyStr × V)
  timestamp : PyStr
  version : PyStr

/-- `utc_now_ms`, at a reading of the clock. -/
def utcNowMs (now : Datetime) : PyStr := now.millisText ++ py "Z"

/-- The action name of a resolution. -/
def resolutionAction : PyStr := py "prl.resolution"

/-- `to_entry` of a resolution. -/
def toEntry (node : ResolutionNode F) (shard sessionId : PyStr) (now : Datetime) :
    Except DumpsError (EntryDraft (PyVal F)) :=
  (dumpsSorted canonicalStyle node.modelDump).map fun content =>
    { sessionId := sessionId
      source := py "prl"
      content := content
      shard := shard
      metadata := [(py "action_name", .str resolutionAction)]
      timestamp := utcNowMs now
      version := py "prl.v1" }

/-- The timestamp of a draft; `none` is the `ValueError`. -/
def draftTimestamp (timestamp : PyStr) : Option Datetime :=
  fromisoformat (replace (py "Z") (py "+00:00") timestamp)

/-- `_draft_to_entry`, with the id it mints and the hash the storage assigns. -/
def draftToEntry (draft : EntryDraft (PyVal F)) (id hash : PyStr) : Option (StoredEntry F) :=
  (draftTimestamp draft.timestamp).map fun ts =>
    { id := id
      timestamp := ts
      sessionId := draft.sessionId
      source := draft.source
      content := draft.content
      shard := draft.shard
      hash := hash
      metadata := .dict (strItems draft.metadata) }

/-- `from_entry` on an entry of a resolution, `validate` being the model; `none` is
what it raises. -/
def fromEntry (validate : PyVal F → Option (ResolutionNode F)) (e : StoredEntry F) :
    Option (ResolutionNode F) :=
  if pyEq (e.meta (py "action_name")) (.str resolutionAction) then
    (loads e.content).bind fun data =>
      match data with
      | .dict _ => validate data
      | _ => none
  else none

/-- The model reads a node back from its dump, whose keys were sorted. -/
def Revalidates (validate : PyVal F → Option (ResolutionNode F)) (n : ResolutionNode F) : Prop :=
  ∀ v, canon n.modelDump = some v → validate v = some n

/-! ### The round trip -/

/-- A resolution always has a draft, and its content reads back as its dump. -/
theorem exists_toEntry (n : ResolutionNode F) (shard sessionId : PyStr) (now : Datetime) :
    ∃ draft, toEntry n shard sessionId now = .ok draft ∧
      draft.shard = shard ∧ draft.timestamp = utcNowMs now ∧
      draft.metadata = [(py "action_name", .str resolutionAction)] ∧
      ∃ kvs, canon n.modelDump = some (.dict kvs) ∧ loads draft.content = some (.dict kvs) := by
  obtain ⟨⟨w, t, hw, ht⟩, hstr⟩ := n.dumpable
  have htext : dumpsSorted canonicalStyle n.modelDump = .ok t := dumpsSorted_eq_ok.mpr ⟨w, hw, ht⟩
  obtain ⟨kvs, hkvs⟩ : ∃ kvs, form w = .dict kvs := by
    simp only [ResolutionNode.modelDump, sortDicts, Option.bind_eq_some_iff,
      Option.map_eq_some_iff] at hw
    obtain ⟨kvs', -, s, -, rfl⟩ := hw
    exact ⟨_, rfl⟩
  refine ⟨_, by rw [toEntry, htext]; rfl, rfl, rfl, rfl, kvs, ?_, ?_⟩
  · rw [canon, hw, Option.map_some, hkvs]
  · have hjoined : eachStr Joined w :=
      eachStr_mono (fun s => joined_of_encodable) ((eachStr_of_sortDicts hw).mpr hstr)
    rw [← hkvs]
    exact loads_print ht fun _ => hjoined

/-- The timestamp of a draft is the time it was made, to the millisecond. -/
theorem draftTimestamp_utcNowMs (now : Datetime) :
    draftTimestamp (utcNowMs now) = some now.millis := by
  have hz : (90 : CodePoint) ∉ now.millisText := by
    intro hmem
    exact absurd (within_millisText now 90 hmem).2 (by decide)
  have hreplace : replace (py "Z") (py "+00:00") (utcNowMs now) = now.millisText ++ py "+00:00" :=
    replace_concat _ hz
  rw [draftTimestamp, hreplace, fromisoformat_millisText]

/-- **The entry of a resolution reads back as the resolution.** -/
theorem exists_draftToEntry (n : ResolutionNode F) (shard sessionId : PyStr) (now : Datetime)
    (id hash : PyStr) :
    ∃ draft e, toEntry n shard sessionId now = .ok draft ∧ draftToEntry draft id hash = some e ∧
      e.id = id ∧ e.hash = hash ∧ e.shard = shard ∧ e.timestamp = now.millis ∧
      e.meta (py "action_name") = .str resolutionAction ∧
      ∀ validate, Revalidates validate n → fromEntry validate e = some n := by
  obtain ⟨draft, hdraft, hshard, htime, hmeta, kvs, hcanon, hloads⟩ :=
    exists_toEntry n shard sessionId now
  have haction : ∀ e : StoredEntry F, e.metadata = .dict (strItems draft.metadata) →
      e.meta (py "action_name") = .str resolutionAction := by
    intro e he
    rw [StoredEntry.meta, StoredEntry.metadataItems, he, hmeta]
    rfl
  refine ⟨draft, _, hdraft, by rw [draftToEntry, htime, draftTimestamp_utcNowMs]; rfl, rfl, rfl,
    hshard, rfl, haction _ rfl, ?_⟩
  intro validate hn
  rw [fromEntry, if_pos (pyEq_str_right.mpr (haction _ rfl)), hloads, Option.bind_some]
  exact hn _ hcanon

end Daryl
