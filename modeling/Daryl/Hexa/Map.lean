import Daryl.Hexa.Project
import Daryl.Lib.Pointwise
import Daryl.Lib.StableSort

/-!
# `hexashard.store`: the map and the relations

The map holds its hexes under their addresses, and a hex lists the sources it is about.  The
relations are a graph between addresses of any kind.  Addresses are sorted by the numbers in
them.

## Main definitions

* `addressSortKey` — the key that addresses are sorted by.
* `HexRecord`, `HexMap` — a hex with all its fields, and the map.
* `HexMap.add` — a new hex, or what is raised.
* `neighbours` — what an address is related to.
* `SourceStore.all` — the sources with their texts, in the order of their addresses.
-/

namespace Daryl

namespace Hexa

open Py Json StableSort

/-! ### The order of addresses -/

/-- `[A-Za-z]`. -/
def isLetter (c : CodePoint) : Bool := 65 ≤ c.val && c.val ≤ 90 || 97 ≤ c.val && c.val ≤ 122

/-- One part of an address: letters and a number, or itself. -/
def partKey (part : PyStr) : PyStr ×ₗ ℤ :=
  match natText ((chomp part).dropWhile isLetter) with
  | some n => toLex ((chomp part).takeWhile isLetter, (n : ℤ))
  | none => toLex (part, -1)

/-- `address_sort_key`. -/
def addressSortKey (address : PyStr) : ℕ ×ₗ List (PyStr ×ₗ ℤ) :=
  let parts := address.splitOn 46
  toLex (parts.length, parts.map partKey)

example : addressSortKey (py "P1.E9.H001") < addressSortKey (py "P1.E10.H001") := by decide

/-! ### Hexes -/

/-- `HexType`. -/
inductive HexType
  | source
  | summary
  | decision
  | constraint
  | task
  | test
  | artifact
  | reference
  deriving DecidableEq

/-- The value of a type. -/
def HexType.value : HexType → PyStr
  | .source => py "SOURCE"
  | .summary => py "SUMMARY"
  | .decision => py "DECISION"
  | .constraint => py "CONSTRAINT"
  | .task => py "TASK"
  | .test => py "TEST"
  | .artifact => py "ARTIFACT"
  | .reference => py "REFERENCE"

/-- `HexStatus`. -/
inductive HexStatus
  | active
  | resolved
  | archived
  deriving DecidableEq

/-- The value of a status. -/
def HexStatus.value : HexStatus → PyStr
  | .active => py "ACTIVE"
  | .resolved => py "RESOLVED"
  | .archived => py "ARCHIVED"

/-- `SizeClass`. -/
inductive SizeClass
  | s
  | m
  | l
  | xl
  deriving DecidableEq

/-- The value of a size. -/
def SizeClass.value : SizeClass → PyStr
  | .s => py "S"
  | .m => py "M"
  | .l => py "L"
  | .xl => py "XL"

/-- `Hex`, with all its fields. -/
structure HexRecord (F : Type) where
  hexId : PyStr
  title : PyStr
  type : HexType
  epoch : ℕ
  status : HexStatus
  temperature : Temperature
  sizeClass : SizeClass
  summary : PyStr
  sourceRefs : List PyStr
  tags : List PyStr
  parentHex : Option PyStr
  depth : ℕ
  position : Option (List (FloatVal F))
  uuid : Option PyStr
  metadata : PyVal F

/-- What a call of `add` says. -/
structure NewHex (F : Type) where
  title : PyStr
  type : HexType
  summary : PyStr
  sourceRefs : List PyStr
  tags : List PyStr
  parentHex : Option PyStr
  metadata : PyVal F

variable {F : Type}

/-- `to_dict`. -/
def HexRecord.toDict (h : HexRecord F) : PyVal F :=
  .dict (strItems [
    (py "hex_id", .str h.hexId),
    (py "title", .str h.title),
    (py "type", .str h.type.value),
    (py "epoch", .int h.epoch),
    (py "status", .str h.status.value),
    (py "temperature", .str h.temperature.value),
    (py "size_class", .str h.sizeClass.value),
    (py "summary", .str h.summary),
    (py "source_refs", .list (h.sourceRefs.map PyVal.str)),
    (py "tags", .list (h.tags.map PyVal.str)),
    (py "parent_hex", optStr h.parentHex),
    (py "depth", .int h.depth),
    (py "position", (h.position.map fun xs => PyVal.list (xs.map PyVal.float)).getD .none),
    (py "uuid", optStr h.uuid),
    (py "metadata", h.metadata)])

/-- `HexMap`. -/
structure HexMap (F : Type) where
  projectPrefix : PyStr
  hexes : List (PyStr × HexRecord F)

namespace HexMap

/-- `_next_id`. -/
def nextId (m : HexMap F) (epoch : ℕ) : PyStr :=
  hexAddress m.projectPrefix epoch (((Dict.keys m.hexes).filterMap parseHexSeq).foldl max 0 + 1)

/-- `get`; `none` is the `KeyError`. -/
def get (m : HexMap F) (hexId : PyStr) : Option (HexRecord F) := Dict.get hexId m.hexes

/-- `all`. -/
def all (m : HexMap F) : List (HexRecord F) :=
  (sortBy addressSortKey (Dict.keys m.hexes)).filterMap m.get

/-- `add`, of a hex at a depth; `machineUuid` is the UUID of an address, and a name that does
not encode has none. -/
def add [PyFloat F] (machineUuid : List Byte → PyStr) (m : HexMap F) (epoch depth : ℕ) (new : NewHex F) :
    Except HexaError (HexRecord F) × HexMap F :=
  let hexId := m.nextId epoch
  match encodeUtf8 hexId with
  | none => (.error (.raised .unicodeEncodeError), m)
  | some bytes =>
    let h : HexRecord F := {
      hexId := hexId
      title := new.title
      type := new.type
      epoch := epoch
      status := .active
      temperature := .cold
      sizeClass := .s
      summary := new.summary
      sourceRefs := new.sourceRefs
      tags := new.tags
      parentHex := new.parentHex
      depth := depth
      position := none
      uuid := some (machineUuid bytes)
      metadata := new.metadata.orEmpty }
    (.ok h, { m with hexes := Dict.set hexId h m.hexes })

/-- `hex_for_source`: the first hex that lists it. -/
def hexForSource (m : HexMap F) (sourceId : PyStr) : Option (HexRecord F) :=
  m.all.find? fun h => sourceId ∈ h.sourceRefs

end HexMap

/-! ### Relations -/

/-- `all`, of the relations. -/
def sortedEdges (relations : List Edge) : List Edge :=
  sortBy (fun e => toLex (e.src, toLex (e.type, e.dst))) relations

/-- `neighbours`: the other ends of the edges at a node, in either direction. -/
def neighbours (relations : List Edge) (node : PyStr) (type : Option PyStr) : List PyStr :=
  let of := (sortedEdges relations).filter fun r =>
    (∀ t ∈ type, r.type = t) ∧ (r.src = node ∨ r.dst = node)
  (of.map fun r => if r.src = node then r.dst else r.src).eraseDups

end Hexa

/-! ### Sources -/

namespace SourceStore

open Hexa Py StableSort

variable {F : Type}

/-- `all`. -/
def all (s : SourceStore F) : Except HexaError (List (Source F)) :=
  (sortBy addressSortKey (Dict.keys s.records)).mapM fun sourceId => (s.get sourceId).1

/-- A record stands under its own id, once. -/
structure Keyed (s : SourceStore F) : Prop where
  nodup : (Dict.keys s.records).Nodup
  own : ∀ id src, s.find id = some src → src.sourceId = id

/-- A source that is read has the id it was asked for by. -/
theorem sourceId_of_get {s : SourceStore F} (h : s.Keyed) {id : PyStr} {src : Source F}
    (hget : (s.get id).1 = .ok src) : src.sourceId = id := by
  unfold get at hget
  cases hfind : s.find id with
  | none =>
    rw [hfind] at hget
    cases hget
  | some r =>
    rw [hfind] at hget
    simp only at hget
    cases hload : s.load r with
    | error e =>
      rw [hload] at hget
      cases hget
    | ok r' =>
      rw [hload] at hget
      obtain rfl := Except.ok.inj hget
      have hbare : (bare r').sourceId = (bare r).sourceId := by rw [bare_load hload]
      exact hbare.trans (h.own id r hfind)

/-- **All sources are there**, each under its id. -/
theorem ids_all {s : SourceStore F} (h : s.Keyed) {sources : List (Source F)}
    (hall : s.all = .ok sources) : (sources.map Source.sourceId).Perm (Dict.keys s.records) := by
  have hids : List.Forall₂ Eq (sources.map Source.sourceId)
      (sortBy addressSortKey (Dict.keys s.records)) :=
    List.forall₂_map_left_iff.mpr
      ((Pointwise.of_mapM_ok hall).flip.imp fun _ _ hget => sourceId_of_get h hget)
  rw [List.forall₂_eq_eq_eq] at hids
  rw [hids]
  exact sortBy_perm _

theorem nodup_ids_all {s : SourceStore F} (h : s.Keyed) {sources : List (Source F)}
    (hall : s.all = .ok sources) : (sources.map Source.sourceId).Nodup :=
  (ids_all h hall).nodup_iff.mpr h.nodup

end SourceStore

end Daryl
