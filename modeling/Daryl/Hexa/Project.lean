import Daryl.Hexa.Context

/-!
# `hexashard.project`: turns and epochs

A project holds its state, its map and its pins in memory, and writes them to files.  A turn
takes in what was retrieved, rotates the epoch if the state is saturated and a rotation would
relieve it, enforces the budget and saves.  What the retrieval returns is an input of the
turn; the comparisons of sizes with the thresholds, which are floats, are parameters.  A file
is the record it spells.

## Main definitions

* `Project`, `Disk` — a project and its files.
* `Project.enforceBudget`, `rotateEpoch`, `handleTurn` — the operations on the state.
* `ContextCall`, `Project.step` — any of them, whatever it returns or raises.

## Main results

* `core_survives` — **the binding core survives every operation.**
-/

namespace Daryl

namespace Hexa

open Py Json

/-! ### The map -/

/-- `Temperature`. -/
inductive Temperature
  | hot
  | warm
  | cold
  deriving DecidableEq

/-- The value of a temperature. -/
def Temperature.value : Temperature → PyStr
  | .hot => py "HOT"
  | .warm => py "WARM"
  | .cold => py "COLD"

/-- `Hex`, as far as a turn reads or writes it. -/
structure Hex where
  hexId : PyStr
  title : PyStr
  hexType : PyStr
  epoch : ℕ
  summary : PyStr
  tags : List PyStr
  temperature : Temperature
  deriving DecidableEq

/-- The line of a hex. -/
def Hex.toDict (h : Hex) : PyVal FloatLit :=
  .dict (strItems [
    (py "hex_id", .str h.hexId),
    (py "title", .str h.title),
    (py "type", .str h.hexType),
    (py "epoch", .int h.epoch),
    (py "summary", .str h.summary),
    (py "tags", strList h.tags),
    (py "temperature", .str h.temperature.value)])

/-- `hex_address`. -/
def hexAddress (projectPrefix : PyStr) (epoch seq : ℕ) : PyStr :=
  projectPrefix ++ 46 :: 69 :: natStr epoch ++ 46 :: 72 :: zfill 3 (natStr seq)

/-- The number of an address that `parse_hex_address` accepts. -/
def parseHexSeq (address : PyStr) : Option ℕ :=
  let body := chomp address
  match body.dropWhile isAlnum with
  | 46 :: 69 :: rest =>
    let digits := rest.takeWhile fun c => (decimalVal c).isSome
    match rest.dropWhile fun c => (decimalVal c).isSome with
    | 46 :: 72 :: seq => if body.takeWhile isAlnum = [] ∨ digits = [] then none else natText seq
    | _ => none
  | _ => none

/-- `_next_id` of the map. -/
def nextHexId (projectPrefix : PyStr) (hexmap : List (PyStr × Hex)) (epoch : ℕ) : PyStr :=
  hexAddress projectPrefix epoch (((Dict.keys hexmap).filterMap parseHexSeq).foldl max 0 + 1)

/-- The line of a pin. -/
def Pin.toDict (p : Pin) : PyVal FloatLit :=
  .dict (strItems [
    (py "pin_id", .str p.pinId),
    (py "key", .str p.key),
    (py "value", .str p.value),
    (py "source_ref", optStr p.sourceRef),
    (py "status", .str p.status.value),
    (py "supersedes", optStr p.supersedes),
    (py "critical", .bool p.critical),
    (py "hex_id", optStr p.hexId),
    (py "updated_at", optStr p.updatedAt),
    (py "note", optStr p.note)])

/-- `Relation`. -/
structure Edge where
  src : PyStr
  type : PyStr
  dst : PyStr
  deriving DecidableEq

/-- The line of an edge. -/
def Edge.toDict (e : Edge) : PyVal FloatLit :=
  .dict (strItems [(py "src", .str e.src), (py "type", .str e.type), (py "dst", .str e.dst)])

/-! ### The project and its files -/

/-- The comparisons with the thresholds of a configuration: whether a size is at the rotation
or at the warning threshold of a budget, and whether it is below the rotation ceiling. -/
structure Thresholds where
  rotates : ℤ → ℤ → Bool
  warns : ℤ → ℤ → Bool
  below : ℤ → ℤ → Bool

/-- `ProjectConfig`, as far as a turn reads it. -/
structure ProjectConfig where
  epoch : ℕ
  activeContextBudgetTokens : ℤ
  thresholds : Thresholds
  maxHexRefsPerTurn : ℕ

/-- `EpochTransition`. -/
structure EpochTransition where
  fromEpoch : ℕ
  toEpoch : ℕ
  turnsInEpoch : ℕ
  handoffTokens : ℤ
  activeStateBefore : ℤ
  activeStateAfter : ℤ
  pinsPreserved : ℕ
  criticalPinsPreserved : ℕ
  openQuestionsPreserved : ℕ
  checkpointPath : PyStr
  summaryHex : Option PyStr

/-- The dict of a transition. -/
def EpochTransition.toDict (t : EpochTransition) : PyVal FloatLit :=
  .dict (strItems [
    (py "from_epoch", .int t.fromEpoch),
    (py "to_epoch", .int t.toEpoch),
    (py "turns_in_epoch", .int t.turnsInEpoch),
    (py "handoff_tokens", .int t.handoffTokens),
    (py "active_state_before", .int t.activeStateBefore),
    (py "active_state_after", .int t.activeStateAfter),
    (py "pins_preserved", .int t.pinsPreserved),
    (py "critical_pins_preserved", .int t.criticalPinsPreserved),
    (py "open_questions_preserved", .int t.openQuestionsPreserved),
    (py "checkpoint_path", .str t.checkpointPath),
    (py "summary_hex", optStr t.summaryHex)])

/-- A file of the directory `epochs`. -/
inductive EpochFile
  | checkpoint (state : ActiveState)
  | handoff (packet : Handoff)
  | transition (record : EpochTransition)

/-- The files of a project, without its sources: the epoch of `project.json`, the map, pins,
relations and state as they were saved, the spilled ledger, and the directory `epochs`. -/
structure Disk where
  epoch : ℕ
  hexmap : List (PyStr × Hex)
  pins : List (PyStr × Pin)
  relations : List Edge
  state : ActiveState
  ledger : Option AddressLedger
  epochs : List (PyStr × EpochFile)

/-- `Project`, without its sources, which a turn reads only. -/
structure Project where
  config : ProjectConfig
  hexmap : List (PyStr × Hex)
  pins : PinStore
  relations : List Edge
  state : ActiveState
  disk : Disk

/-- Rows of a file are written if they all encode. -/
def writeRows (rows : List (PyVal FloatLit)) : Except HexaError Unit :=
  rows.forM writeJson

namespace Project

/-- The last files of a save: the state. -/
def saveState (p : Project) : Except HexaError Unit × Project :=
  match writeJson p.state.toDict with
  | .error e => (.error e, p)
  | .ok () => (.ok (), { p with disk := { p.disk with state := p.state } })

/-- The relations, and then the state. -/
def saveRelations (p : Project) : Except HexaError Unit × Project :=
  match writeRows (p.relations.map Edge.toDict) with
  | .error e => (.error e, p)
  | .ok () => saveState { p with disk := { p.disk with relations := p.relations } }

/-- The pins, and then the rest. -/
def savePins (p : Project) : Except HexaError Unit × Project :=
  match writeRows (p.pins.all.map Pin.toDict) with
  | .error e => (.error e, p)
  | .ok () => saveRelations { p with disk := { p.disk with pins := p.pins.pins } }

/-- The map, and then the rest. -/
def saveMap (p : Project) : Except HexaError Unit × Project :=
  match writeRows (p.hexmap.map fun h => h.2.toDict) with
  | .error e => (.error e, p)
  | .ok () => savePins { p with disk := { p.disk with hexmap := p.hexmap } }

/-- `save`: file after file. -/
def save (p : Project) : Except HexaError Unit × Project :=
  saveMap { p with
    config := { p.config with epoch := p.state.epoch }
    disk := { p.disk with epoch := p.state.epoch } }

/-! ### The budget -/

/-- The name of the ledger file. -/
def spillName : PyStr := py "unloaded_refs.json"

/-- `summary_pointer`: the hex that holds the running summary, with its text as it is. -/
def summaryPointer (p : Project) : Option PyStr × Project :=
  if strip p.state.currentSummary = [] then (p.state.summaryHex, p)
  else
    let add : Option PyStr × Project :=
      let hexId := nextHexId p.pins.projectPrefix p.hexmap p.state.epoch
      let hex : Hex := {
        hexId := hexId
        title := py "Epoch E" ++ natStr p.state.epoch ++ py " running summary"
        hexType := py "SUMMARY"
        epoch := p.state.epoch
        summary := p.state.currentSummary
        tags := [py "epoch-summary", py "e" ++ natStr p.state.epoch]
        temperature := .cold }
      (some hexId, { p with
        hexmap := Dict.set hexId hex p.hexmap
        state := { p.state with summaryHex := some hexId } })
    match p.state.summaryHex with
    | some hexId =>
      if hexId = [] then add
      else
        match Dict.get hexId p.hexmap with
        | some hex => (some hexId, { p with
            hexmap := Dict.set hexId { hex with summary := p.state.currentSummary } p.hexmap })
        | none => add
    | none => add

/-- `enforce_budget`. -/
def enforceBudget (counter : PyStr → ℤ) (p : Project) (pointer : Option PyStr) :
    Except HexaError BudgetReport × Project :=
  let r := match pointer.filter fun q => q ≠ [] with
    | some pointer => (some pointer, p)
    | none => p.summaryPointer
  let result := Hexa.enforceBudget counter r.2.config.activeContextBudgetTokens r.1 (some spillName)
    r.2.state r.2.disk.ledger
  (result.1, { r.2 with state := result.2.1, disk := { r.2.disk with ledger := result.2.2 } })

/-! ### Epochs -/

/-- `_proposed_handoff`. -/
def proposedHandoff (counter : PyStr → ℤ) (p : Project) : Handoff × Project :=
  let r := p.summaryPointer
  (trimHandoff counter (r.2.state.tokens counter)
    (buildHandoff r.2.state p.state.activeHexRefs r.1), r.2)

/-- `rotation_would_help`. -/
def rotationWouldHelp (counter : PyStr → ℤ) (p : Project) : Bool × Project :=
  let r := p.proposedHandoff counter
  (p.config.thresholds.below (jsonTokens counter r.1.toDict) p.config.activeContextBudgetTokens, r.2)

/-- A file of `epochs` is written. -/
def writeEpoch (p : Project) (name : PyStr) (v : PyVal FloatLit) (file : EpochFile) :
    Except HexaError Unit × Project :=
  match writeJson v with
  | .error e => (.error e, p)
  | .ok () => (.ok (), { p with disk := { p.disk with epochs := Dict.set name file p.disk.epochs } })

/-- The title of the summary hex of an epoch that ends. -/
def titleSummary (p : Project) (summaryHex : Option PyStr) (title : PyStr) : Except HexaError Project :=
  match summaryHex.filter fun q => q ≠ [] with
  | none => .ok p
  | some hexId =>
    match Dict.get hexId p.hexmap with
    | none => .error .keyError
    | some hex => .ok { p with hexmap := Dict.set hexId { hex with title := title } p.hexmap }

/-- `rotate_epoch`. -/
def rotateEpoch (counter : PyStr → ℤ) (p : Project) : Except HexaError EpochTransition × Project :=
  let old := p.state
  let beforeTokens := old.tokens counter
  let fromName := py "E" ++ natStr old.epoch
  let toName := py "E" ++ natStr (old.epoch + 1)
  let r := p.summaryPointer
  match r.2.titleSummary r.1 (py "Epoch " ++ fromName ++ py " summary") with
  | .error e => (.error e, r.2)
  | .ok p =>
    match p.writeEpoch (fromName ++ py ".checkpoint.json") p.state.toDict (.checkpoint p.state) with
    | (.error e, p) => (.error e, p)
    | (.ok (), p) =>
      let r' := p.proposedHandoff counter
      let handoff := r'.1
      match r'.2.writeEpoch (fromName ++ py ".handoff.json") handoff.toDict (.handoff handoff) with
      | (.error e, p) => (.error e, p)
      | (.ok (), p) =>
        let p := { p with
          state := stateFromHandoff handoff (old.epoch + 1)
          config := { p.config with epoch := old.epoch + 1 } }
        let transition : EpochTransition := {
          fromEpoch := old.epoch
          toEpoch := old.epoch + 1
          turnsInEpoch := old.turn
          handoffTokens := jsonTokens counter handoff.toDict
          activeStateBefore := beforeTokens
          activeStateAfter := p.state.tokens counter
          pinsPreserved := handoff.criticalPins.length + handoff.pinRefs.length
          criticalPinsPreserved := handoff.criticalPins.length
          openQuestionsPreserved := handoff.openQuestions.length
          checkpointPath := py "epochs/" ++ fromName ++ py ".checkpoint.json"
          summaryHex := r.1 }
        match p.writeEpoch (fromName ++ py "-to-" ++ toName ++ py ".transition.json")
            transition.toDict (.transition transition) with
        | (.error e, p) => (.error e, p)
        | (.ok (), p) =>
          match p.save with
          | (.error e, p) => (.error e, p)
          | (.ok (), p) => (.ok transition, p)

/-! ### Turns -/

/-- The arguments of a turn, and the hexes of what its retrieval returns. -/
structure Turn where
  userMessage : PyStr
  objective : Option PyStr
  summaryAppend : Option PyStr
  retrieved : Except HexaError (List PyStr)

/-- The signal of a turn. -/
inductive Signal
  | ok
  | warning
  | rotate
  | saturated
  deriving DecidableEq

/-- What a turn sets before it retrieves. -/
def begin (p : Project) (turn : Turn) : Project :=
  let s := { p.state with turn := p.state.turn + 1 }
  let s := match turn.objective with
    | some objective => { s with currentObjective := objective }
    | none => s
  let s := match turn.summaryAppend.filter fun t => t ≠ [] with
    | some text => { s with currentSummary := strip (s.currentSummary ++ nl :: text) }
    | none => s
  { p with state := s }

/-- What it takes in of what was retrieved. -/
def absorb (p : Project) (turn : Turn) (hexRefs : List PyStr) : Project :=
  let s := (hexRefs.take p.config.maxHexRefsPerTurn).foldl (fun s hexId => s.touchHex hexId) p.state
  { p with state := (s.addHint (turn.userMessage.take 120)).syncPins p.pins }

/-- `rotation_signal`. -/
def rotationSignal (counter : PyStr → ℤ) (p : Project) : Signal :=
  let tokens := p.state.tokens counter
  let budget := p.config.activeContextBudgetTokens
  if p.config.thresholds.rotates tokens budget then .rotate
  else if p.config.thresholds.warns tokens budget then .warning
  else .ok

/-- The rotation of a turn, if there is one. -/
def mayRotate (counter : PyStr → ℤ) (p : Project) : Except HexaError Signal × Project :=
  match p.rotationSignal counter with
  | .rotate =>
    match p.rotationWouldHelp counter with
    | (true, p) =>
      match p.rotateEpoch counter with
      | (.error e, p) => (.error e, p)
      | (.ok _, p) => (.ok .rotate, p)
    | (false, p) => (.ok .saturated, p)
  | signal => (.ok signal, p)

/-- `retemper`. -/
def retemper (p : Project) (extraWarm : List PyStr) : Project :=
  { p with hexmap := p.hexmap.map fun h =>
      (h.1, { h.2 with temperature :=
        if h.2.hexId ∈ p.state.activeHexRefs then .hot
        else if h.2.hexId ∈ extraWarm then .warm
        else .cold }) }

/-- `handle_turn`. -/
def handleTurn (counter : PyStr → ℤ) (p : Project) (turn : Turn) : Except HexaError Signal × Project :=
  let p := p.begin turn
  match turn.retrieved with
  | .error e => (.error e, p)
  | .ok hexRefs =>
    match (p.absorb turn hexRefs).mayRotate counter with
    | (.error e, p) => (.error e, p)
    | (.ok signal, p) =>
      match p.enforceBudget counter none with
      | (.error e, p) => (.error e, p)
      | (.ok _, p) =>
        match (p.retemper hexRefs).save with
        | (.error e, p) => (.error e, p)
        | (.ok (), p) => (.ok signal, p)

end Project

/-- The operations on the context of a project. -/
inductive ContextCall
  | turn (turn : Project.Turn)
  | enforceBudget (pointer : Option PyStr)
  | rotateEpoch

/-- An operation, whatever it returns or raises. -/
def Project.step (counter : PyStr → ℤ) (p : Project) : ContextCall → Project
  | .turn turn => (p.handleTurn counter turn).2
  | .enforceBudget pointer => (p.enforceBudget counter pointer).2
  | .rotateEpoch => (p.rotateEpoch counter).2

/-! ### What is left alone -/

/-- Two projects alike in state, pins, ledger file and configuration, up to the epoch; every
hex of the one is in the map of the other. -/
structure Framed (p q : Project) : Prop where
  state : q.state = p.state
  pins : q.pins = p.pins
  ledger : q.disk.ledger = p.disk.ledger
  config : { q.config with epoch := 0 } = { p.config with epoch := 0 }
  mapped : ∀ id, (Dict.get id p.hexmap).isSome → (Dict.get id q.hexmap).isSome

theorem Framed.refl (p : Project) : Framed p p := ⟨rfl, rfl, rfl, rfl, fun _ h => h⟩

theorem Framed.trans {p q r : Project} (h : Framed p q) (h' : Framed q r) : Framed p r :=
  ⟨h'.state.trans h.state, h'.pins.trans h.pins, h'.ledger.trans h.ledger, h'.config.trans h.config,
    fun id hid => h'.mapped id (h.mapped id hid)⟩

/-- A hex that is set leaves the others. -/
theorem isSome_get_set {id hexId : PyStr} {hex : Hex} {hexmap : List (PyStr × Hex)}
    (h : (Dict.get id hexmap).isSome) : (Dict.get id (Dict.set hexId hex hexmap)).isSome := by
  rw [Dict.get_set]
  split_ifs
  · rfl
  · exact h

namespace Project

variable (counter : PyStr → ℤ) (p : Project)

theorem framed_saveState (p : Project) : Framed p p.saveState.2 := by
  unfold saveState
  split <;> exact ⟨rfl, rfl, rfl, rfl, fun _ h => h⟩

theorem framed_saveRelations (p : Project) : Framed p p.saveRelations.2 := by
  unfold saveRelations
  split
  · exact .refl p
  · refine Framed.trans ?_ (framed_saveState _)
    exact ⟨rfl, rfl, rfl, rfl, fun _ h => h⟩

theorem framed_savePins (p : Project) : Framed p p.savePins.2 := by
  unfold savePins
  split
  · exact .refl p
  · refine Framed.trans ?_ (framed_saveRelations _)
    exact ⟨rfl, rfl, rfl, rfl, fun _ h => h⟩

theorem framed_saveMap (p : Project) : Framed p p.saveMap.2 := by
  unfold saveMap
  split
  · exact .refl p
  · refine Framed.trans ?_ (framed_savePins _)
    exact ⟨rfl, rfl, rfl, rfl, fun _ h => h⟩

/-- A save leaves all this alone. -/
theorem framed_save : Framed p p.save.2 := by
  refine Framed.trans ?_ (framed_saveMap _)
  exact ⟨rfl, rfl, rfl, rfl, fun _ h => h⟩

theorem framed_writeEpoch {p q : Project} {name : PyStr} {v : PyVal FloatLit} {file : EpochFile}
    {r : Except HexaError Unit} (h : p.writeEpoch name v file = (r, q)) : Framed p q := by
  have hw : Framed p (p.writeEpoch name v file).2 := by
    unfold writeEpoch
    split <;> exact ⟨rfl, rfl, rfl, rfl, fun _ h => h⟩
  rwa [h] at hw

theorem framed_titleSummary {p q : Project} {summaryHex : Option PyStr} {title : PyStr}
    (h : p.titleSummary summaryHex title = .ok q) : Framed p q := by
  unfold titleSummary at h
  split at h
  · obtain rfl := Except.ok.inj h
    exact .refl p
  · split at h
    · cases h
    · obtain rfl := Except.ok.inj h
      exact ⟨rfl, rfl, rfl, rfl, fun _ h => isSome_get_set h⟩

theorem framed_retemper (extraWarm : List PyStr) : Framed p (p.retemper extraWarm) := by
  refine ⟨rfl, rfl, rfl, rfl, fun id h => ?_⟩
  have hkeys : Dict.keys (p.retemper extraWarm).hexmap = Dict.keys p.hexmap := by
    simp [retemper, Dict.keys, Function.comp_def]
  rw [Dict.get_isSome] at h ⊢
  rwa [hkeys]

/-- The pointer is all that `summary_pointer` sets of this. -/
theorem framed_summaryPointer :
    ∃ hexId, Framed { p with state := { p.state with summaryHex := hexId } } p.summaryPointer.2 := by
  unfold summaryPointer
  simp only
  split_ifs
  · exact ⟨p.state.summaryHex, rfl, rfl, rfl, rfl, fun _ h => h⟩
  · split
    · split_ifs
      · exact ⟨_, rfl, rfl, rfl, rfl, fun _ h => isSome_get_set h⟩
      · split
        · exact ⟨p.state.summaryHex, rfl, rfl, rfl, rfl, fun _ h => isSome_get_set h⟩
        · exact ⟨_, rfl, rfl, rfl, rfl, fun _ h => isSome_get_set h⟩
    · exact ⟨_, rfl, rfl, rfl, rfl, fun _ h => isSome_get_set h⟩

/-- **A summary that was filed is filed under the same address again.** -/
theorem summaryPointer_again {p q : Project} (h : Framed p.summaryPointer.2 q) :
    q.summaryPointer.1 = p.summaryPointer.1 ∧ q.summaryPointer.2.state = p.summaryPointer.2.state := by
  by_cases hsummary : strip p.state.currentSummary = []
  · have hp : p.summaryPointer = (p.state.summaryHex, p) := by
      rw [summaryPointer, if_pos hsummary]
    rw [hp] at h ⊢
    have hq : q.summaryPointer = (q.state.summaryHex, q) := by
      rw [summaryPointer, h.state, if_pos hsummary]
    rw [hq, h.state]
    exact ⟨rfl, rfl⟩
  · -- the pointer is an address of the map, and the state has it
    have hpointer : ∃ hexId, hexId ≠ [] ∧ p.summaryPointer.1 = some hexId ∧
        p.summaryPointer.2.state.summaryHex = some hexId ∧
        (Dict.get hexId p.summaryPointer.2.hexmap).isSome ∧
        p.summaryPointer.2.state.currentSummary = p.state.currentSummary := by
      have hne : nextHexId p.pins.projectPrefix p.hexmap p.state.epoch ≠ [] := by
        simp [nextHexId, hexAddress]
      unfold summaryPointer
      simp only [if_neg hsummary]
      split
      · next hexId hhex =>
        split_ifs with hnil
        · exact ⟨_, hne, rfl, rfl, by simp, rfl⟩
        · split
          · exact ⟨hexId, hnil, rfl, hhex, by simp, rfl⟩
          · exact ⟨_, hne, rfl, rfl, by simp, rfl⟩
      · exact ⟨_, hne, rfl, rfl, by simp, rfl⟩
    obtain ⟨hexId, hnil, hp, hhex, hmapped, hcurrent⟩ := hpointer
    obtain ⟨hex, hget⟩ := Option.isSome_iff_exists.mp (h.mapped hexId hmapped)
    have hq : q.summaryPointer = (some hexId, { q with
        hexmap := Dict.set hexId { hex with summary := q.state.currentSummary } q.hexmap }) := by
      rw [summaryPointer, h.state, hcurrent, if_neg hsummary, hhex]
      simp only [if_neg hnil, hget]
    rw [hq, hp]
    exact ⟨rfl, h.state⟩

/-- The state that a rotation seeds. -/
def seeded (counter : PyStr → ℤ) (p : Project) : ActiveState :=
  stateFromHandoff (trimHandoff counter (p.summaryPointer.2.state.tokens counter)
    (buildHandoff p.summaryPointer.2.state p.summaryPointer.2.state.activeHexRefs p.summaryPointer.1))
    (p.state.epoch + 1)

/-- **What a rotation does**: if it fails early the state is as it was, up to the pointer to its
summary; else it is the one that its handoff seeds. -/
theorem rotateEpoch_spec : ∃ t,
    (t = p.summaryPointer.2.state ∧ (∃ e, (p.rotateEpoch counter).1 = .error e) ∨
      t = p.seeded counter) ∧ Framed { p with state := t } (p.rotateEpoch counter).2 := by
  obtain ⟨hexId, hpointer⟩ := framed_summaryPointer p
  have hp : Framed { p with state := p.summaryPointer.2.state } p.summaryPointer.2 :=
    ⟨rfl, hpointer.pins, hpointer.ledger, hpointer.config, hpointer.mapped⟩
  unfold rotateEpoch
  simp only
  split
  · exact ⟨_, .inl ⟨rfl, _, rfl⟩, hp⟩
  · next q htitle =>
    have hq := framed_titleSummary htitle
    split
    · next heq => exact ⟨_, .inl ⟨rfl, _, rfl⟩, hp.trans (hq.trans (framed_writeEpoch heq))⟩
    · next q1 heq =>
      have hq1 := hq.trans (framed_writeEpoch heq)
      -- the handoff is made of the state as it is after its summary was filed again
      obtain ⟨hagain, hstate⟩ := summaryPointer_again hq1
      obtain ⟨hexId', hpointer'⟩ := framed_summaryPointer q1
      have hq2 : Framed { p with state := p.summaryPointer.2.state } (q1.proposedHandoff counter).2 :=
        (hp.trans hq1).trans ⟨hstate.trans hq1.state.symm, hpointer'.pins, hpointer'.ledger,
          hpointer'.config, hpointer'.mapped⟩
      have hseed : stateFromHandoff (q1.proposedHandoff counter).1 (p.state.epoch + 1) =
          p.seeded counter := by
        simp only [proposedHandoff, seeded, hstate, hagain, hq1.state]
      split
      · next heq2 => exact ⟨_, .inl ⟨rfl, _, rfl⟩, hq2.trans (framed_writeEpoch heq2)⟩
      · next q2 heq2 =>
        have hq3 := hq2.trans (framed_writeEpoch heq2)
        set q4 : Project := { q2 with
          state := stateFromHandoff (q1.proposedHandoff counter).1 (p.state.epoch + 1)
          config := { q2.config with epoch := p.state.epoch + 1 } } with hdef
        have hq4 : Framed { p with state := p.seeded counter } q4 :=
          ⟨hseed, hq3.pins, hq3.ledger, hq3.config, hq3.mapped⟩
        refine ⟨p.seeded counter, .inr rfl, ?_⟩
        split
        · next heq3 => exact hq4.trans (framed_writeEpoch heq3)
        · next q3 heq3 =>
          have hsave := framed_save q3
          split
          · next heq4 =>
            rw [heq4] at hsave
            exact (hq4.trans (framed_writeEpoch heq3)).trans hsave
          · next heq4 =>
            rw [heq4] at hsave
            exact (hq4.trans (framed_writeEpoch heq3)).trans hsave

/-- A budget leaves the pins alone; the state and the ledger file retain what they had. -/
theorem enforceBudget_spec (pointer : Option PyStr) :
    Retains spillName p.state p.disk.ledger (p.enforceBudget counter pointer).2.state
      (p.enforceBudget counter pointer).2.disk.ledger ∧
    (p.enforceBudget counter pointer).2.pins = p.pins := by
  obtain ⟨hexId, hpointer⟩ := framed_summaryPointer p
  have hset : Retains spillName p.state p.disk.ledger p.summaryPointer.2.state
      p.summaryPointer.2.disk.ledger := by
    rw [hpointer.state, hpointer.ledger]
    refine Compacts.retains ?_ spillName fun _ _ h => h
    exact .of_eq rfl rfl rfl rfl rfl rfl rfl rfl rfl
  unfold enforceBudget
  simp only
  split
  · next summary _ =>
    exact ⟨retains_enforceBudget counter _ _ (fun n hn => (Option.some.inj hn).symm) _ _, rfl⟩
  · refine ⟨hset.trans ?_, hpointer.pins⟩
    exact retains_enforceBudget counter _ _ (fun n hn => (Option.some.inj hn).symm) _ _

/-- What is seeded depends on the summary as it was filed. -/
theorem seeded_again {p q : Project} (h : Framed p.summaryPointer.2 q) (hepoch : q.state.epoch = p.state.epoch) :
    q.seeded counter = p.seeded counter := by
  obtain ⟨hagain, hstate⟩ := summaryPointer_again h
  rw [seeded, seeded, hagain, hstate, hepoch]

/-- **What a turn does about its epoch**: the state is as it was, up to the pointer to its
summary, or it is the one that its handoff seeds. -/
theorem mayRotate_spec : ∃ t,
    ((∃ hexId, t = { p.state with summaryHex := hexId }) ∨
      p.rotationSignal counter = .rotate ∧ (p.rotationWouldHelp counter).1 = true ∧
        t = p.seeded counter) ∧
    Framed { p with state := t } (p.mayRotate counter).2 := by
  obtain ⟨hexId, hpointer⟩ := framed_summaryPointer p
  unfold mayRotate
  split
  · next hsignal =>
    split
    · next q hhelp =>
      have heq : q = p.summaryPointer.2 := (Prod.mk.inj hhelp).2.symm
      obtain ⟨t, ht, hrotate⟩ := rotateEpoch_spec counter q
      have hq : Framed p.summaryPointer.2 q := heq ▸ .refl q
      have hframe : Framed { p with state := t } (q.rotateEpoch counter).2 :=
        ⟨hrotate.state, hrotate.pins.trans (hq.pins.trans hpointer.pins),
          hrotate.ledger.trans (hq.ledger.trans hpointer.ledger),
          hrotate.config.trans (hq.config.trans hpointer.config),
          fun id hid => hrotate.mapped id (hq.mapped id (hpointer.mapped id hid))⟩
      refine ⟨t, ?_, ?_⟩
      · refine ht.imp (fun h => ⟨hexId, ?_⟩) fun h => ⟨hsignal, by rw [hhelp], ?_⟩
        · rw [h.1, (summaryPointer_again hq).2, hpointer.state]
        · rw [h, seeded_again counter hq (by rw [hq.state, hpointer.state])]
      · split
        · next heq' =>
          rw [heq'] at hframe
          exact hframe
        · next heq' =>
          rw [heq'] at hframe
          exact hframe
    · next q hhelp =>
      have heq : q = p.summaryPointer.2 := (Prod.mk.inj hhelp).2.symm
      rw [heq]
      exact ⟨_, .inl ⟨hexId, rfl⟩, hpointer⟩
  · exact ⟨_, .inl ⟨p.state.summaryHex, rfl⟩, .refl p⟩

end Project

/-! ### The core -/

/-- What binds of a state: mission, objective, critical pins, and unresolved questions by id. -/
def ActiveState.core (s : ActiveState) : PyStr × PyStr × List PinView × List PyStr :=
  (s.mission, s.currentObjective, s.activePins.filter PinView.critical,
    s.unresolvedQuestions.map Question.id)

theorem Retains.core {name : PyStr} {s t : ActiveState} {f g : Option AddressLedger}
    (h : Retains name s f t g) : t.core = s.core := by
  rw [ActiveState.core, h.mission, h.objective, h.criticals, h.questions]
  rfl

namespace Project

variable (counter : PyStr → ℤ) (p : Project)

theorem core_summaryPointer : p.summaryPointer.2.state.core = p.state.core := by
  obtain ⟨hexId, hpointer⟩ := framed_summaryPointer p
  rw [hpointer.state]
  rfl

theorem core_seeded : (p.seeded counter).core = p.state.core := by
  obtain ⟨hm, ho, hc, hq⟩ := core_rotate counter (p.summaryPointer.2.state.tokens counter)
    p.summaryPointer.2.state p.summaryPointer.2.state.activeHexRefs p.summaryPointer.1
    (p.state.epoch + 1)
  rw [← core_summaryPointer p, seeded, ActiveState.core, hm, ho, hc, ActiveState.unresolvedQuestions, hq]
  simp only [ActiveState.core, List.filter_filter, Bool.and_self, ActiveState.unresolvedQuestions]

/-- **A rotation keeps the core**, whether it completes or fails on the way. -/
theorem core_rotateEpoch :
    (p.rotateEpoch counter).2.state.core = p.state.core ∧ (p.rotateEpoch counter).2.pins = p.pins := by
  obtain ⟨t, ht, hframe⟩ := rotateEpoch_spec counter p
  refine ⟨?_, hframe.pins⟩
  rw [hframe.state]
  rcases ht with ⟨rfl, -⟩ | rfl
  · exact core_summaryPointer p
  · exact core_seeded counter p

theorem core_mayRotate :
    (p.mayRotate counter).2.state.core = p.state.core ∧ (p.mayRotate counter).2.pins = p.pins := by
  obtain ⟨t, ht, hframe⟩ := mayRotate_spec counter p
  refine ⟨?_, hframe.pins⟩
  rw [hframe.state]
  rcases ht with ⟨hexId, rfl⟩ | ⟨-, -, rfl⟩
  · rfl
  · exact core_seeded counter p

/-- A turn begins with its objective. -/
theorem begin_spec (turn : Turn) : ∃ summary, (p.begin turn).state = { p.state with
      turn := p.state.turn + 1
      currentObjective := turn.objective.getD p.state.currentObjective
      currentSummary := summary } ∧ (p.begin turn).pins = p.pins := by
  unfold begin
  cases turn.objective with
  | none =>
    cases turn.summaryAppend.filter fun t => t ≠ [] with
    | none => exact ⟨_, rfl, rfl⟩
    | some text => exact ⟨_, rfl, rfl⟩
  | some objective =>
    cases turn.summaryAppend.filter fun t => t ≠ [] with
    | none => exact ⟨_, rfl, rfl⟩
    | some text => exact ⟨_, rfl, rfl⟩

/-- What a turn takes in: hex refs, a hint, and the live pins. -/
theorem absorb_spec (turn : Turn) (hexRefs : List PyStr) : ∃ refs hints,
    (p.absorb turn hexRefs).state = { p.state with
      activeHexRefs := refs
      retrievalHints := hints
      activePins := (p.pins.live.filter Pin.critical).map pinView ++
        (p.pins.live.filter fun q => !q.critical).map pinView } ∧
    (∀ a ∈ p.state.activeHexRefs, a ∈ refs) := by
  have htouch : ∀ (ids : List PyStr) (s : ActiveState), ∃ refs,
      ids.foldl (fun s hexId => s.touchHex hexId) s = { s with activeHexRefs := refs } ∧
        ∀ a ∈ s.activeHexRefs, a ∈ refs := by
    intro ids
    induction ids with
    | nil => exact fun s => ⟨s.activeHexRefs, rfl, fun _ h => h⟩
    | cons hexId ids ih =>
      intro s
      obtain ⟨refs, heq, hrefs⟩ := ih (s.touchHex hexId)
      refine ⟨refs, heq, fun a ha => hrefs a ?_⟩
      -- what is touched goes to the end
      by_cases hne : a = hexId
      · exact List.mem_append_right _ (List.mem_singleton.mpr hne)
      · exact List.mem_append_left _ ((List.mem_erase_of_ne hne).mpr ha)
  obtain ⟨refs, heq, hrefs⟩ := htouch (hexRefs.take p.config.maxHexRefsPerTurn) p.state
  refine ⟨refs, p.state.retrievalHints.erase (turn.userMessage.take 120) ++ [turn.userMessage.take 120],
    ?_, hrefs⟩
  simp only [absorb, heq]
  rfl

/-- A save leaves the directory `epochs` alone. -/
theorem epochs_save : p.save.2.disk.epochs = p.disk.epochs := by
  have hstate : ∀ q : Project, q.saveState.2.disk.epochs = q.disk.epochs := by
    intro q
    unfold saveState
    split <;> rfl
  have hrelations : ∀ q : Project, q.saveRelations.2.disk.epochs = q.disk.epochs := by
    intro q
    unfold saveRelations
    split
    · rfl
    · exact hstate _
  have hpins : ∀ q : Project, q.savePins.2.disk.epochs = q.disk.epochs := by
    intro q
    unfold savePins
    split
    · rfl
    · exact hrelations _
  unfold save saveMap
  split
  · rfl
  · exact hpins _

/-- **How far a turn gets**: to its retrieval, to its rotation, or beyond its budget. -/
theorem handleTurn_cases (turn : Turn) :
    (p.handleTurn counter turn).2 = p.begin turn ∨
    ∃ hexRefs, turn.retrieved = .ok hexRefs ∧
      ∃ q, q = (((p.begin turn).absorb turn hexRefs).mayRotate counter).2 ∧
        ((p.handleTurn counter turn).2 = q ∨
          Framed (q.enforceBudget counter none).2 (p.handleTurn counter turn).2 ∧
            (p.handleTurn counter turn).2.disk.epochs =
              (q.enforceBudget counter none).2.disk.epochs) := by
  unfold handleTurn
  simp only
  cases hretrieved : turn.retrieved with
  | error e => exact .inl rfl
  | ok hexRefs =>
    refine .inr ⟨hexRefs, rfl, _, rfl, ?_⟩
    simp only
    split
    · next heq => exact .inl (by rw [heq])
    · next q heq =>
      right
      rw [heq]
      split
      · next heq2 =>
        rw [heq2]
        exact ⟨.refl _, rfl⟩
      · next q2 heq2 =>
        rw [heq2]
        have hsave := (framed_retemper q2 hexRefs).trans (framed_save (q2.retemper hexRefs))
        have hepochs := epochs_save (q2.retemper hexRefs)
        split
        · next heq3 =>
          rw [heq3] at hsave hepochs
          exact ⟨hsave, hepochs⟩
        · next heq3 =>
          rw [heq3] at hsave hepochs
          exact ⟨hsave, hepochs⟩

/-- **What a turn keeps of the core.** -/
theorem core_handleTurn (turn : Turn) :
    let t := (p.handleTurn counter turn).2.state
    t.mission = p.state.mission ∧
    t.currentObjective = turn.objective.getD p.state.currentObjective ∧
    (t.activePins.filter PinView.critical = p.state.activePins.filter PinView.critical ∨
      t.activePins.filter PinView.critical = (p.pins.live.filter Pin.critical).map pinView) ∧
    t.unresolvedQuestions.map Question.id = p.state.unresolvedQuestions.map Question.id ∧
    (p.handleTurn counter turn).2.pins = p.pins := by
  obtain ⟨summary, hbegin, hpins⟩ := begin_spec p turn
  rcases handleTurn_cases counter p turn with heq | ⟨hexRefs, -, q, hq, hturn⟩
  · intro t
    have ht : t = _ := (congrArg Project.state heq).trans hbegin
    rw [ht, heq]
    exact ⟨rfl, rfl, .inl rfl, rfl, hpins⟩
  · obtain ⟨refs, hints, habsorb, -⟩ := absorb_spec (p.begin turn) turn hexRefs
    obtain ⟨hcore, hrotate⟩ := core_mayRotate counter ((p.begin turn).absorb turn hexRefs)
    rw [← hq] at hcore hrotate
    have hqpins : q.pins = p.pins := hrotate.trans hpins
    -- the core after the rotation, in its parts
    have hsynced : ((p.begin turn).absorb turn hexRefs).state.core = (p.state.mission,
        turn.objective.getD p.state.currentObjective,
        (p.pins.live.filter Pin.critical).map pinView,
        p.state.unresolvedQuestions.map Question.id) := by
      rw [habsorb, hpins, hbegin]
      simp only [ActiveState.core, Prod.mk.injEq, true_and]
      refine ⟨?_, rfl⟩
      rw [List.filter_append, List.filter_map, List.filter_map, List.filter_filter,
        List.filter_filter]
      have hnone : (p.pins.live.filter fun a => (PinView.critical ∘ pinView) a && !a.critical) = [] := by
        rw [List.filter_eq_nil_iff]
        intro a _
        simp [pinView]
      rw [hnone, List.map_nil, List.append_nil]
      congr 1
      refine List.filter_congr fun a _ => ?_
      simp [pinView]
    -- and after the budget
    have hlast : (p.handleTurn counter turn).2.state.core = q.state.core ∧
        (p.handleTurn counter turn).2.pins = p.pins := by
      rcases hturn with heq | ⟨hframe, -⟩
      · rw [heq]
        exact ⟨rfl, hqpins⟩
      · obtain ⟨hretains, hbudget⟩ := enforceBudget_spec counter q none
        rw [hframe.state, hframe.pins]
        exact ⟨hretains.core, hbudget.trans hqpins⟩
    obtain ⟨hlast, hlastPins⟩ := hlast
    rw [hcore, hsynced] at hlast
    simp only [ActiveState.core, Prod.mk.injEq] at hlast
    exact ⟨hlast.1, hlast.2.1, .inr hlast.2.2.1, hlast.2.2.2, hlastPins⟩

/-- What survives from one state of a project to another: the mission, every live critical pin
that was in the state, as it was or as it is shown anew, and the id of every unresolved question. -/
structure Survives (p q : Project) : Prop where
  mission : q.state.mission = p.state.mission
  pinned : ∀ v ∈ p.state.activePins, v.critical →
    ∀ pin ∈ p.pins.live, pin.pinId = v.pinId → pin.critical →
      v ∈ q.state.activePins ∨ pinView pin ∈ q.state.activePins
  asked : ∀ a ∈ p.state.openQuestions, a.resolved = false →
    ∃ b ∈ q.state.openQuestions, b.id = a.id ∧ b.resolved = false
  pins : q.pins = p.pins

theorem Survives.refl (p : Project) : Survives p p :=
  ⟨rfl, fun _ hv _ _ _ _ _ => .inl hv, fun a ha hr => ⟨a, ha, rfl, hr⟩, rfl⟩

theorem Survives.trans {p q r : Project} (h : Survives p q) (h' : Survives q r) : Survives p r where
  mission := h'.mission.trans h.mission
  pinned v hv hc pin hpin hid hpc := by
    have hlive : pin ∈ q.pins.live := h.pins ▸ hpin
    rcases h.pinned v hv hc pin hpin hid hpc with hsame | hview
    · exact h'.pinned v hsame hc pin hlive hid hpc
    · exact .inr (or_self_iff.mp (h'.pinned _ hview hpc pin hlive rfl hpc))
  asked a ha hr := by
    obtain ⟨b, hb, hid, hbr⟩ := h.asked a ha hr
    rw [← hid]
    exact h'.asked b hb hbr
  pins := h'.pins.trans h.pins

/-- Questions with the same ids are asked alike. -/
theorem asked_of_ids {s t : ActiveState}
    (h : t.unresolvedQuestions.map Question.id = s.unresolvedQuestions.map Question.id)
    {a : Question} (ha : a ∈ s.openQuestions) (hr : a.resolved = false) :
    ∃ b ∈ t.openQuestions, b.id = a.id ∧ b.resolved = false := by
  have hmem : a.id ∈ t.unresolvedQuestions.map Question.id := by
    rw [h]
    exact List.mem_map_of_mem (List.mem_filter.mpr ⟨ha, by simp [hr]⟩)
  obtain ⟨b, hb, hid⟩ := List.mem_map.mp hmem
  obtain ⟨hb, hbr⟩ := List.mem_filter.mp hb
  exact ⟨b, hb, hid, by simpa using hbr⟩

/-- The same critical pins survive. -/
theorem survives_of_core {p q : Project} (h : q.state.core = p.state.core) (hpins : q.pins = p.pins) :
    Survives p q := by
  simp only [ActiveState.core, Prod.mk.injEq] at h
  refine ⟨h.1, fun v hv hc _ _ _ _ => .inl ?_, fun a ha hr => asked_of_ids h.2.2.2 ha hr, hpins⟩
  have hmem : v ∈ q.state.activePins.filter PinView.critical := by
    rw [h.2.2.1]
    exact List.mem_filter.mpr ⟨hv, hc⟩
  exact (List.mem_filter.mp hmem).1

/-- **Every operation lets the core survive.** -/
theorem survives_step (call : ContextCall) : Survives p (p.step counter call) := by
  cases call with
  | turn turn =>
    obtain ⟨hm, -, hcriticals, hids, hpins⟩ := core_handleTurn counter p turn
    refine ⟨hm, ?_, fun a ha hr => asked_of_ids hids ha hr, hpins⟩
    intro v hv hc pin hpin _ hpc
    rcases hcriticals with heq | heq
    · have hmem : v ∈ (p.step counter (.turn turn)).state.activePins.filter PinView.critical := by
        rw [step, heq]
        exact List.mem_filter.mpr ⟨hv, hc⟩
      exact .inl (List.mem_filter.mp hmem).1
    · -- the view is made anew from the live pin
      have hmem : pinView pin ∈
          (p.step counter (.turn turn)).state.activePins.filter PinView.critical := by
        rw [step, heq]
        exact List.mem_map_of_mem (List.mem_filter.mpr ⟨hpin, hpc⟩)
      exact .inr (List.mem_filter.mp hmem).1
  | enforceBudget pointer =>
    obtain ⟨hretains, hpins⟩ := enforceBudget_spec counter p pointer
    exact survives_of_core hretains.core hpins
  | rotateEpoch =>
    obtain ⟨hcore, hpins⟩ := core_rotateEpoch counter p
    exact survives_of_core hcore hpins

/-- The objective that an operation sets. -/
def objectiveOf : ContextCall → Option PyStr
  | .turn turn => turn.objective
  | _ => none

theorem objective_step (call : ContextCall) : (p.step counter call).state.currentObjective =
    (objectiveOf call).getD p.state.currentObjective := by
  cases call with
  | turn turn => exact (core_handleTurn counter p turn).2.1
  | enforceBudget pointer => exact (enforceBudget_spec counter p pointer).1.objective
  | rotateEpoch =>
    have hcore := (core_rotateEpoch counter p).1
    simp only [ActiveState.core, Prod.mk.injEq] at hcore
    exact hcore.2.1

/-- **The binding core survives every sequence of operations on the context**, whatever they
return or raise, from any state of any project: the mission, the objective that was set last,
every live critical pin, as it was or as the live pin is shown, and the id of every unresolved
question. -/
theorem core_survives (counter : PyStr → ℤ) (p : Project) (calls : List ContextCall) :
    let q := Run.run (step counter) p calls
    q.state.mission = p.state.mission ∧
    q.state.currentObjective =
      (calls.filterMap objectiveOf).getLast?.getD p.state.currentObjective ∧
    (∀ v ∈ p.state.activePins, v.critical →
      ∀ pin ∈ p.pins.live, pin.pinId = v.pinId → pin.critical →
        v ∈ q.state.activePins ∨ pinView pin ∈ q.state.activePins) ∧
    ∀ a ∈ p.state.openQuestions, a.resolved = false →
      ∃ b ∈ q.state.openQuestions, b.id = a.id ∧ b.resolved = false := by
  intro q
  have hsurvives : Survives p q :=
    Run.run_keeps (P := Survives p) (fun r call hr => hr.trans (survives_step counter r call))
      (.refl p) calls
  refine ⟨hsurvives.mission, ?_, hsurvives.pinned, hsurvives.asked⟩
  -- the objective, from the last call back
  induction calls using List.reverseRecOn with
  | nil => rfl
  | append_singleton calls call ih =>
    have hlast : q.state.currentObjective = (objectiveOf call).getD
        (Run.run (step counter) p calls).state.currentObjective := by
      rw [← objective_step, show q = Run.run (step counter) p (calls ++ [call]) from rfl,
        Run.run_append]
      rfl
    have hbefore : Survives p (Run.run (step counter) p calls) :=
      Run.run_keeps (P := Survives p) (fun r call hr => hr.trans (survives_step counter r call))
        (.refl p) calls
    rw [hlast, ih hbefore, List.filterMap_append]
    cases hobjective : objectiveOf call with
    | none => simp [hobjective]
    | some objective => simp [hobjective]

end Project

end Hexa

end Daryl
