import Daryl.Prl.Records

/-!
# What `from_entry` and `from_swarm_entry` raise

The two decoders are documented to raise for an unknown action, for a content that is not
JSON, and for a content that the model refuses.  The log is not trusted: an action that has no
hash, and a content that is JSON but no object, are errors of another class, which neither
decoder catches.

## Main definitions

* `actionOf`, `ActionModels.kindOf`, `parsed` — the action, its kind, and the content.
* `Documented` — the decoder does what it is documented to do.
* `Regular` — the condition on an entry.

## Main results

* `documented_iff` — **the decoder of a table does what is documented iff the entry is
  regular.**
* `decoders_documented_iff` — both decoders.
-/

namespace Daryl

open Py Json Model

namespace Records

variable {F : Type} [PyFloat F] {K α : Type}

/-- `metadata.get("action_name")`, of a dict. -/
def actionOf (metadata : PyVal F) : PyVal F :=
  match metadata with
  | .dict kvs => getNone (py "action_name") kvs
  | _ => .none

/-- The kind of an action of the table. -/
def ActionModels.kindOf (models : ActionModels F K α) (action : PyVal F) : Option K :=
  models.kinds.find? fun k => pyEq action (.str (models.action k))

/-- `json.loads(content)`; `None` is no JSON. -/
def parsed (content : PyVal F) : Option (PyVal F) :=
  match content with
  | .str s => loads s
  | _ => none

/-- What is documented: the record that the model of the action reads, or an error for one of
the three reasons. -/
def Documented (models : ActionModels F K α) (metadata content : PyVal F) : Prop :=
  match decode models metadata content with
  | .ok record => ∃ kind data, models.kindOf (actionOf metadata) = some kind ∧
      parsed content = some data ∧ models.model kind data = some record
  | .error .mapping => models.kindOf (actionOf metadata) = none ∨ parsed content = none
  | .error .validation => ∃ kind data, models.kindOf (actionOf metadata) = some kind ∧
      parsed content = some data ∧ models.model kind data = none
  | .error _ => False

/-- An entry whose action has a hash, and whose content is an object if the action is known and
the content is JSON. -/
def Regular (models : ActionModels F K α) (metadata content : PyVal F) : Prop :=
  (actionOf metadata).hashes = true ∧ ((models.kindOf (actionOf metadata)).isSome →
    ∀ data, parsed content = some data → ∃ kvs, data = .dict kvs)

/-- The action is what the first match of the decoder gives. -/
private theorem decode_eq_action (models : ActionModels F K α) (metadata content : PyVal F) :
    decode models metadata content =
      if !(actionOf metadata).hashes then .error (.py .typeError)
      else
        match models.kindOf (actionOf metadata) with
        | none => .error .mapping
        | some kind =>
          match content with
          | .str s =>
            match loads s with
            | none => .error .mapping
            | some (.dict kvs) =>
              match models.model kind (.dict kvs) with
              | some record => .ok record
              | none => .error .validation
            | some _ => .error (.py .typeError)
          | _ => .error .mapping := by
  cases metadata <;> rfl

/-- The decoder, of the action and the content. -/
theorem decode_eq (models : ActionModels F K α) (metadata content : PyVal F) :
    decode models metadata content =
      if !(actionOf metadata).hashes then .error (.py .typeError)
      else
        match models.kindOf (actionOf metadata), parsed content with
        | none, _ => .error .mapping
        | some _, none => .error .mapping
        | some kind, some (.dict kvs) =>
          match models.model kind (.dict kvs) with
          | some record => .ok record
          | none => .error .validation
        | some _, some _ => .error (.py .typeError) := by
  rw [decode_eq_action]
  cases (actionOf metadata).hashes with
  | false => rfl
  | true =>
    rw [Bool.not_true, if_neg Bool.false_ne_true, if_neg Bool.false_ne_true]
    cases models.kindOf (actionOf metadata) with
    | none => rfl
    | some kind =>
      cases content with
      | str s =>
        dsimp only [parsed]
        cases loads (F := F) s with
        | none => rfl
        | some data => cases data <;> rfl
      | _ => rfl

/-- **The decoder does what is documented iff the entry is regular.** -/
theorem documented_iff (models : ActionModels F K α) (metadata content : PyVal F) :
    Documented models metadata content ↔ Regular models metadata content := by
  unfold Documented Regular
  rw [decode_eq]
  cases hhash : (actionOf metadata).hashes with
  | false => simp
  | true =>
    rw [Bool.not_true, if_neg Bool.false_ne_true]
    cases hkind : models.kindOf (actionOf metadata) with
    | none => simp
    | some kind =>
      cases hdata : parsed content with
      | none => simp
      | some data =>
        cases data with
        | dict kvs =>
          -- an object is for the model to read or to refuse
          cases hmodel : models.model kind (.dict kvs) with
          | none => simp [hmodel]
          | some record => simp [hmodel]
        | _ => simp

/-- **Both decoders do what is documented iff the entry is regular for them.** -/
theorem decoders_documented_iff (lib : Library F) (metadata content : PyVal F) :
    (Documented (nodeModels lib) metadata content ↔ Regular (nodeModels lib) metadata content) ∧
      (Documented (swarmModels lib) metadata content ↔ Regular (swarmModels lib) metadata content) :=
  ⟨documented_iff _ metadata content, documented_iff _ metadata content⟩

/-- The metadata of an action. -/
def ofAction (action : PyVal FloatLit) : PyVal FloatLit :=
  .dict (strItems [(py "action_name", action)])

/-- An action that is a list, and a content that is a list, are neither read nor refused as
documented. -/
theorem decoders_undocumented :
    ¬ Documented (nodeModels sampleLibrary) (ofAction (.list [])) (.str (py "\x7b\x7d")) ∧
      ¬ Documented (nodeModels sampleLibrary) (ofAction (.str (py "prl.project")))
        (.str (py "[]")) ∧
      ¬ Documented (swarmModels sampleLibrary) (ofAction (.str (py "swarm.run")))
        (.str (py "[]")) := by
  have hlist : loads (F := FloatLit) (py "[]") = some (.list []) := by decide +kernel
  refine ⟨?_, ?_, ?_⟩
  · rw [documented_iff]
    rintro ⟨hhash, -⟩
    exact Bool.false_ne_true hhash
  · rw [documented_iff]
    rintro ⟨-, hobject⟩
    obtain ⟨kvs, hkvs⟩ := hobject (by decide +kernel) (.list []) hlist
    cases hkvs
  · rw [documented_iff]
    rintro ⟨-, hobject⟩
    obtain ⟨kvs, hkvs⟩ := hobject (by decide +kernel) (.list []) hlist
    cases hkvs

end Records

end Daryl
