import Daryl.Hexa.Pins

/-!
# `hexashard.context`: the active state

The working set of a conversation, the ladder that compacts it to a budget, and the packet
that crosses from one epoch to the next.  A size is what a counter makes of the canonical
JSON text; the counter is a parameter.  Pins, questions and decisions in the state are
records; a decision of which only the address is left has no title.

## Main definitions

* `ActiveState`, `tokens` — the state and its size.
* `enforceBudget` — the ladder of `enforce_budget`, rung by rung.
* `buildHandoff`, `trimHandoff`, `stateFromHandoff` — the way to the next epoch.

## Main results

* `Compacts` — what a rung may do: the core is kept, and what it drops it lists.
* `retains_enforceBudget` — **the ladder keeps the core and lists what it drops.**
-/

namespace Daryl

namespace Hexa

open Py Json

/-! ### The state -/

/-- The value of a status. -/
def PinStatus.value : PinStatus → PyStr
  | .active => py "ACTIVE"
  | .stale => py "STALE"
  | .needsReview => py "NEEDS_REVIEW"
  | .superseded => py "SUPERSEDED"
  | .broken => py "BROKEN"

/-- What a pin looks like inside the state. -/
structure PinView where
  pinId : PyStr
  key : PyStr
  value : PyStr
  sourceRef : Option PyStr
  critical : Bool
  status : PinStatus
  deriving DecidableEq

/-- `pin_view`. -/
def pinView (pin : Pin) : PinView :=
  ⟨pin.pinId, pin.key, pin.value, pin.sourceRef, pin.critical, pin.status⟩

/-- A question. -/
structure Question where
  id : PyStr
  text : PyStr
  resolved : Bool
  deriving DecidableEq

/-- A decision, as an address and a title. -/
structure Decision where
  hexId : Option PyStr
  title : Option PyStr
  sourceRef : Option PyStr
  deriving DecidableEq

/-- Addresses by kind. -/
abbrev AddressLedger := List (PyStr × List PyStr)

/-- `ActiveState`. -/
structure ActiveState where
  epoch : ℕ
  turn : ℕ
  mission : PyStr
  currentObjective : PyStr
  currentSummary : PyStr
  activePins : List PinView
  openQuestions : List Question
  activeHexRefs : List PyStr
  recentDecisions : List Decision
  retrievalHints : List PyStr
  droppedRefs : AddressLedger
  unloadedLedger : Option PyStr
  summaryHex : Option PyStr
  overBudget : Bool
  deriving DecidableEq

/-- The dict of a pin view. -/
def PinView.toDict (p : PinView) : PyVal FloatLit :=
  .dict (strItems [
    (py "pin_id", .str p.pinId),
    (py "key", .str p.key),
    (py "value", .str p.value),
    (py "source_ref", optStr p.sourceRef),
    (py "critical", .bool p.critical),
    (py "status", .str p.status.value)])

/-- The dict of a question. -/
def Question.toDict (q : Question) : PyVal FloatLit :=
  .dict (strItems [
    (py "id", .str q.id), (py "text", .str q.text), (py "resolved", .bool q.resolved)])

/-- The dict of a decision. -/
def Decision.toDict (d : Decision) : PyVal FloatLit :=
  .dict (strItems (
    [(py "hex_id", optStr d.hexId)] ++ (d.title.map fun t => (py "title", .str t)).toList ++
      [(py "source_ref", optStr d.sourceRef)]))

/-- A list of strings. -/
def strList (ss : List PyStr) : PyVal FloatLit := .list (ss.map .str)

/-- The dict of a ledger. -/
def ledgerDict (ledger : AddressLedger) : PyVal FloatLit :=
  .dict (strItems (ledger.map fun p => (p.1, strList p.2)))

namespace ActiveState

/-- `to_dict`. -/
def toDict (s : ActiveState) : PyVal FloatLit :=
  .dict (strItems [
    (py "epoch", .int s.epoch),
    (py "turn", .int s.turn),
    (py "mission", .str s.mission),
    (py "current_objective", .str s.currentObjective),
    (py "current_summary", .str s.currentSummary),
    (py "active_pins", .list (s.activePins.map PinView.toDict)),
    (py "open_questions", .list (s.openQuestions.map Question.toDict)),
    (py "active_hex_refs", strList s.activeHexRefs),
    (py "recent_decisions", .list (s.recentDecisions.map Decision.toDict)),
    (py "retrieval_hints", strList s.retrievalHints),
    (py "dropped_refs", ledgerDict s.droppedRefs),
    (py "unloaded_ledger", optStr s.unloadedLedger),
    (py "summary_hex", optStr s.summaryHex),
    (py "over_budget", .bool s.overBudget)])

end ActiveState

/-- `estimate_tokens`: a token for four characters. -/
def estimateTokens (text : PyStr) : ℤ := (text.length + 3) / 4

/-- `json.dumps` with `ensure_ascii=False` and compact separators. -/
def compactStyle : Style := ⟨false, true, false⟩

/-- `json_tokens`; the keys are strings, which sort. -/
def jsonTokens (counter : PyStr → ℤ) (v : PyVal FloatLit) : ℤ :=
  match dumpsSorted compactStyle v with
  | .ok text => counter text
  | .error _ => 0

/-- `atomic_write_json`, as far as it can fail: the text must encode. -/
def writeJson (v : PyVal FloatLit) : Except HexaError Unit :=
  match dumpsSorted fileStyle v with
  | .error e => .error (.raised (DumpsError.toPyError e))
  | .ok text => if Encodable text then .ok () else .error (.raised .unicodeEncodeError)

namespace ActiveState

/-- `tokens`. -/
def tokens (counter : PyStr → ℤ) (s : ActiveState) : ℤ := jsonTokens counter s.toDict

/-- `sync_pins`: the live pins, critical ones first. -/
def syncPins (pins : PinStore) (s : ActiveState) : ActiveState :=
  { s with
    activePins := (pins.live.filter Pin.critical).map pinView ++
      (pins.live.filter fun p => !p.critical).map pinView }

/-- `unresolved_questions`. -/
def unresolvedQuestions (s : ActiveState) : List Question :=
  s.openQuestions.filter fun q => !q.resolved

/-- `touch_hex`. -/
def touchHex (hexId : PyStr) (s : ActiveState) : ActiveState :=
  { s with activeHexRefs := s.activeHexRefs.erase hexId ++ [hexId] }

/-- `add_hint`. -/
def addHint (hint : PyStr) (s : ActiveState) : ActiveState :=
  { s with retrievalHints := s.retrievalHints.erase hint ++ [hint] }

/-- `_drop`. -/
def drop (kind : PyStr) (ref : Option PyStr) (s : ActiveState) : ActiveState :=
  match ref with
  | none => s
  | some ref => { s with droppedRefs := Dict.pushNew kind ref s.droppedRefs }

end ActiveState

/-- What a decision is dropped under. -/
def Decision.address (d : Decision) : Option PyStr :=
  match d.hexId with
  | some h => if h = [] then d.sourceRef else some h
  | none => d.sourceRef

/-! ### The ladder -/

/-- `SUMMARY_HEAD_CHARS`. -/
def summaryHeadChars : ℕ := 600

/-- `QUESTION_HEAD_CHARS`. -/
def questionHeadChars : ℕ := 80

/-- `MAX_HANDOFF_HEX_REFS`. -/
def maxHandoffHexRefs : ℕ := 24

/-- The head of a text that is cut. -/
def head (n : ℕ) (text : PyStr) : PyStr :=
  ((text.take n).reverse.dropWhile CodePoint.isSpace).reverse ++ py " [...]"

/-- A rung of the ladder: what it makes of a state, and what it reports. -/
abbrev Rung := ActiveState → ActiveState × List PyStr

section

variable (fits : ActiveState → Bool)

/-- Hints are popped from the front until the state fits. -/
def popHints (s : ActiveState) : List PyStr → ActiveState
  | [] => { s with retrievalHints := [] }
  | hint :: hints =>
    if fits { s with retrievalHints := hint :: hints } then
      { s with retrievalHints := hint :: hints }
    else popHints s hints

/-- Hex refs are unloaded from the front until the state fits. -/
def unloadHexRefs (s : ActiveState) : List PyStr → ActiveState
  | [] => { s with activeHexRefs := [] }
  | ref :: refs =>
    if fits { s with activeHexRefs := ref :: refs } then { s with activeHexRefs := ref :: refs }
    else unloadHexRefs (s.drop (py "hex") (some ref)) refs

/-- Decisions are unloaded from the front until the state fits. -/
def unloadDecisions (s : ActiveState) : List Decision → ActiveState × List PyStr
  | [] => ({ s with recentDecisions := [] }, [])
  | d :: ds =>
    if fits { s with recentDecisions := d :: ds } then ({ s with recentDecisions := d :: ds }, [])
    else
      let rest := unloadDecisions (s.drop (py "decision") d.address) ds
      (rest.1, py "unloaded a decision" :: rest.2)

/-- The first rung: retrieval hints. -/
def rungHints : Rung := fun s =>
  if s.retrievalHints ≠ [] ∧ !fits s then
    (popHints fits s s.retrievalHints, [py "trimmed retrieval_hints"])
  else (s, [])

/-- The second rung: hex refs. -/
def rungHexRefs : Rung := fun s =>
  if s.activeHexRefs ≠ [] ∧ !fits s then
    let t := unloadHexRefs fits s s.activeHexRefs
    (t, [py "unloaded " ++ natStr ((Dict.get (py "hex") t.droppedRefs).getD []).length ++
      py " hex refs"])
  else (s, [])

/-- Decisions lose their titles. -/
def rungTitles : Rung := fun s =>
  if !fits s ∧ s.recentDecisions.any (fun d => d.title.isSome) then
    ({ s with recentDecisions := s.recentDecisions.map fun d => { d with title := none } },
      [py "compacted recent_decisions to addresses"])
  else (s, [])

/-- And are unloaded, oldest first. -/
def rungDecisions : Rung := fun s => unloadDecisions fits s s.recentDecisions

/-- The running summary is cut to its head, if its text is kept elsewhere. -/
def rungSummaryHead (summaryPointer : Option PyStr) : Rung := fun s =>
  if !fits s ∧ summaryHeadChars < s.currentSummary.length then
    match summaryPointer with
    | some pointer =>
      (({ s with currentSummary := head summaryHeadChars s.currentSummary }).drop (py "summary")
        (some pointer),
        [py "truncated current_summary (full text at " ++ pointer ++ py ")"])
    | none => (s, [py "skipped summary truncation: no addressable copy was supplied"])
  else (s, [])

/-- And unloaded. -/
def rungSummary (summaryPointer : Option PyStr) : Rung := fun s =>
  match summaryPointer with
  | some pointer =>
    if !fits s ∧ s.currentSummary ≠ [] then
      (({ s with currentSummary := [] }).drop (py "summary") (some pointer),
        [py "unloaded current_summary (full text at " ++ pointer ++ py ")"])
    else (s, [])
  | none => (s, [])

/-- The fifth rung: resolved questions. -/
def rungResolved : Rung := fun s =>
  if !fits s ∧ s.openQuestions.any Question.resolved then
    let gone := s.openQuestions.filter Question.resolved
    ({ gone.foldl (fun s q => s.drop (py "question") (some q.id)) s with
        openQuestions := s.unresolvedQuestions },
      gone.map fun q => py "unloaded resolved question " ++ q.id)
  else (s, [])

/-- The sixth rung: pins that are not critical. -/
def rungPins : Rung := fun s =>
  if !fits s ∧ s.activePins.any (fun p => !p.critical) then
    let gone := s.activePins.filter fun p => !p.critical
    ({ gone.foldl (fun s p => s.drop (py "pin") (some p.pinId)) s with
        activePins := s.activePins.filter PinView.critical },
      gone.map fun p => py "unloaded non-critical pin " ++ p.pinId)
  else (s, [])

/-- The seventh rung: the texts of questions. -/
def rungQuestions : Rung := fun s =>
  if !fits s ∧ s.openQuestions.any (fun q => questionHeadChars < q.text.length) then
    ({ s with
        openQuestions := s.openQuestions.map fun q =>
          if questionHeadChars < q.text.length then { q with text := head questionHeadChars q.text }
          else q },
      [py "compacted unresolved question text (lossy)"])
  else (s, [])

/-- The rungs, in order. -/
def rungs (summaryPointer : Option PyStr) : List Rung :=
  [rungHints fits, rungHexRefs fits, rungTitles fits, rungDecisions fits,
    rungSummaryHead fits summaryPointer, rungSummary fits summaryPointer, rungResolved fits,
    rungPins fits, rungQuestions fits]

end

/-- Down the ladder. -/
def climb (rungs : List Rung) (s : ActiveState) : ActiveState × List PyStr :=
  rungs.foldl (fun r rung => ((rung r.1).1, r.2 ++ (rung r.1).2)) (s, [])

/-- What `spill_ledger` writes: the addresses of the state behind those of the file. -/
def mergeLedger (prior dropped : AddressLedger) : AddressLedger :=
  dropped.foldl (fun merged p =>
    p.2.foldl (fun merged ref => Dict.pushNew p.1 ref merged)
      (Dict.set p.1 ((Dict.get p.1 merged).getD []) merged)) prior

/-- `BudgetReport`. -/
structure BudgetReport where
  budget : ℤ
  tokensBefore : ℤ
  tokensAfter : ℤ
  steps : List PyStr
  overBudget : Bool

/-- The end of the ladder: what made the state larger is undone in the state. -/
def settle (counter : PyStr → ℤ) (budget : ℤ) (s t : ActiveState) (steps : List PyStr)
    (file : Option AddressLedger) : Except HexaError BudgetReport × ActiveState × Option AddressLedger :=
  let before := s.tokens counter
  let larger := before < t.tokens counter
  let t := if larger then s else t
  let after := t.tokens counter
  let steps := if larger then
      steps ++ [py "reverted: compaction would have increased the state"] else steps
  (.ok ⟨budget, before, after, steps, budget < after⟩, { t with overBudget := budget < after }, file)

/-- `enforce_budget`, with the ledger file at the spill path: the report, the state and the
file.  The last rung spills the ledger. -/
def enforceBudget (counter : PyStr → ℤ) (budget : ℤ) (summaryPointer : Option PyStr)
    (spillPath : Option PyStr) (s : ActiveState) (file : Option AddressLedger) :
    Except HexaError BudgetReport × ActiveState × Option AddressLedger :=
  let fits : ActiveState → Bool := fun s => s.tokens counter ≤ budget
  if fits s then
    (.ok ⟨budget, s.tokens counter, s.tokens counter, [], false⟩, { s with overBudget := false }, file)
  else
    let r := climb (rungs fits (summaryPointer.filter fun p => p ≠ [])) s
    match spillPath with
    | some name =>
      if !fits r.1 ∧ r.1.droppedRefs ≠ [] then
        let merged := mergeLedger (file.getD []) r.1.droppedRefs
        match writeJson (ledgerDict merged) with
        | .error e => (.error e, r.1, file)
        | .ok () =>
          settle counter budget s { r.1 with droppedRefs := [], unloadedLedger := some name }
            (r.2 ++ [py "spilled address ledger to " ++ name]) (some merged)
      else settle counter budget s r.1 r.2 file
    | none => settle counter budget s r.1 r.2 file

/-! ### What a rung may do -/

/-- The kinds of addresses a state holds. -/
inductive AddressKind
  | hex
  | pin
  | decision
  | question
  deriving DecidableEq

/-- The bucket of a kind. -/
def AddressKind.bucket : AddressKind → PyStr
  | .hex => py "hex"
  | .pin => py "pin"
  | .decision => py "decision"
  | .question => py "question"

namespace ActiveState

/-- The addresses of a kind that are in the state. -/
def held (s : ActiveState) : AddressKind → List PyStr
  | .hex => s.activeHexRefs
  | .pin => s.activePins.map PinView.pinId
  | .decision => s.recentDecisions.filterMap Decision.address
  | .question => s.openQuestions.map Question.id

/-- The addresses of a kind that its ledger lists. -/
def listed (s : ActiveState) (kind : AddressKind) : List PyStr :=
  (Dict.get kind.bucket s.droppedRefs).getD []

end ActiveState

/-- When a state is: its epoch and the turn in it. -/
def ActiveState.clock (s : ActiveState) : ℕ × ℕ := (s.epoch, s.turn)

/-- What a rung may do: it keeps the clock, the mission, the objective, the critical pins and the
ids of the unresolved questions, and lists the addresses that it drops. -/
structure Compacts (s t : ActiveState) : Prop where
  mission : t.mission = s.mission
  objective : t.currentObjective = s.currentObjective
  criticals : t.activePins.filter PinView.critical = s.activePins.filter PinView.critical
  questions : t.unresolvedQuestions.map Question.id = s.unresolvedQuestions.map Question.id
  held : ∀ kind, ∀ a ∈ s.held kind, a ∈ t.held kind ∨ a ∈ t.listed kind
  listed : ∀ kind, ∀ a ∈ s.listed kind, a ∈ t.listed kind
  pointer : t.unloadedLedger = s.unloadedLedger
  clock : t.clock = s.clock

theorem Compacts.refl (s : ActiveState) : Compacts s s :=
  ⟨rfl, rfl, rfl, rfl, fun _ _ h => .inl h, fun _ _ h => h, rfl, rfl⟩

theorem Compacts.trans {s t u : ActiveState} (h : Compacts s t) (h' : Compacts t u) : Compacts s u where
  mission := h'.mission.trans h.mission
  objective := h'.objective.trans h.objective
  criticals := h'.criticals.trans h.criticals
  questions := h'.questions.trans h.questions
  held kind a ha := (h.held kind a ha).elim (h'.held kind a) fun hl => .inr (h'.listed kind a hl)
  listed kind a ha := h'.listed kind a (h.listed kind a ha)
  pointer := h'.pointer.trans h.pointer
  clock := h'.clock.trans h.clock

namespace ActiveState

variable (s : ActiveState) (kind : PyStr) (ref : Option PyStr)

@[simp] theorem mission_drop : (s.drop kind ref).mission = s.mission := by cases ref <;> rfl

@[simp] theorem currentObjective_drop : (s.drop kind ref).currentObjective = s.currentObjective := by
  cases ref <;> rfl

@[simp] theorem activePins_drop : (s.drop kind ref).activePins = s.activePins := by
  cases ref <;> rfl

@[simp] theorem openQuestions_drop : (s.drop kind ref).openQuestions = s.openQuestions := by
  cases ref <;> rfl

@[simp] theorem activeHexRefs_drop : (s.drop kind ref).activeHexRefs = s.activeHexRefs := by
  cases ref <;> rfl

@[simp] theorem recentDecisions_drop : (s.drop kind ref).recentDecisions = s.recentDecisions := by
  cases ref <;> rfl

@[simp] theorem unloadedLedger_drop : (s.drop kind ref).unloadedLedger = s.unloadedLedger := by
  cases ref <;> rfl

@[simp] theorem clock_drop : (s.drop kind ref).clock = s.clock := by
  cases ref <;> rfl

variable {s kind ref}

/-- A listed address stays listed. -/
theorem listed_drop {k : AddressKind} {a : PyStr} (h : a ∈ s.listed k) :
    a ∈ (s.drop kind ref).listed k := by
  cases ref with
  | none => exact h
  | some r =>
    rw [listed, drop, Dict.get_pushNew]
    split_ifs
    · exact List.mem_append_left _ h
    · exact h

/-- A dropped address is listed. -/
theorem listed_drop_self (s : ActiveState) (k : AddressKind) (a : PyStr) :
    a ∈ (s.drop k.bucket (some a)).listed k := by
  rw [listed, drop, Dict.get_pushNew]
  split_ifs with h
  · exact List.mem_append_right _ (List.mem_singleton_self a)
  · by_contra hmem
    exact h ⟨rfl, hmem⟩

end ActiveState

/-- What keeps everything but the ledger, and lists more, compacts. -/
theorem Compacts.drop (s : ActiveState) (kind : PyStr) (ref : Option PyStr) :
    Compacts s (s.drop kind ref) where
  mission := by simp
  objective := by simp
  criticals := by simp
  questions := by simp [ActiveState.unresolvedQuestions]
  held k a ha := by
    cases k <;> exact .inl (by simpa [ActiveState.held] using ha)
  listed k a ha := ActiveState.listed_drop ha
  pointer := by simp
  clock := ActiveState.clock_drop s kind ref

/-- Items are dropped one by one. -/
theorem Compacts.drops {A : Type} (kind : PyStr) (address : A → PyStr) (items : List A) (s : ActiveState) :
    Compacts s (items.foldl (fun s x => s.drop kind (some (address x))) s) := by
  induction items generalizing s with
  | nil => exact .refl s
  | cons x items ih => exact (Compacts.drop s kind (some (address x))).trans (ih _)

/-- What was dropped is listed. -/
theorem listed_drops {A : Type} (k : AddressKind) (address : A → PyStr) {items : List A} {x : A}
    (hx : x ∈ items) (s : ActiveState) :
    address x ∈ (items.foldl (fun s x => s.drop k.bucket (some (address x))) s).listed k := by
  induction items generalizing s with
  | nil => cases hx
  | cons y items ih =>
    rcases List.mem_cons.mp hx with rfl | hx
    · exact (Compacts.drops k.bucket address items _).listed k _
        (ActiveState.listed_drop_self s k (address x))
    · exact ih hx _

/-! ### The rungs -/

section

variable (fits : ActiveState → Bool)

/-- A change of what is neither core nor address. -/
theorem Compacts.of_eq {s t : ActiveState} (hmission : t.mission = s.mission)
    (hobjective : t.currentObjective = s.currentObjective) (hpins : t.activePins = s.activePins)
    (hquestions : t.openQuestions = s.openQuestions) (hrefs : t.activeHexRefs = s.activeHexRefs)
    (hdecisions : t.recentDecisions = s.recentDecisions) (hdropped : t.droppedRefs = s.droppedRefs)
    (hpointer : t.unloadedLedger = s.unloadedLedger) (hclock : t.clock = s.clock) : Compacts s t where
  mission := hmission
  objective := hobjective
  criticals := by rw [hpins]
  questions := by rw [ActiveState.unresolvedQuestions, hquestions]; rfl
  held kind a ha := by
    left
    cases kind <;> simp only [ActiveState.held, hrefs, hpins, hdecisions, hquestions] at ha ⊢ <;>
      exact ha
  listed kind a ha := by
    rw [ActiveState.listed, hdropped]
    exact ha
  pointer := hpointer
  clock := hclock

theorem popHints_eq (s : ActiveState) (hints : List PyStr) :
    ∃ rest, popHints fits s hints = { s with retrievalHints := rest } := by
  induction hints with
  | nil => exact ⟨[], rfl⟩
  | cons hint hints ih =>
    rw [popHints]
    split_ifs
    · exact ⟨_, rfl⟩
    · exact ih

theorem compacts_hints (s : ActiveState) : Compacts s (rungHints fits s).1 := by
  unfold rungHints
  split_ifs
  · obtain ⟨rest, hrest⟩ := popHints_eq fits s s.retrievalHints
    rw [hrest]
    exact .of_eq rfl rfl rfl rfl rfl rfl rfl rfl rfl
  · exact .refl s

/-- A hex ref in front is dropped. -/
theorem compacts_unloadHex (s : ActiveState) (ref : PyStr) (refs : List PyStr) :
    Compacts { s with activeHexRefs := ref :: refs }
      { s.drop (py "hex") (some ref) with activeHexRefs := refs } where
  mission := by simp
  objective := by simp
  criticals := by simp
  questions := by simp [ActiveState.unresolvedQuestions]
  held kind a ha := by
    cases kind with
    | hex =>
      rcases List.mem_cons.mp ha with rfl | ha
      · exact .inr (ActiveState.listed_drop_self s .hex a)
      · exact .inl ha
    | pin => exact .inl (by simpa [ActiveState.held] using ha)
    | decision => exact .inl (by simpa [ActiveState.held] using ha)
    | question => exact .inl (by simpa [ActiveState.held] using ha)
  listed kind a ha := ActiveState.listed_drop ha
  pointer := by simp
  clock := ActiveState.clock_drop s (py "hex") (some ref)

theorem compacts_unloadHexRefs (refs : List PyStr) (s : ActiveState) :
    Compacts { s with activeHexRefs := refs } (unloadHexRefs fits s refs) := by
  induction refs generalizing s with
  | nil => exact .refl _
  | cons ref refs ih =>
    rw [unloadHexRefs]
    split_ifs
    · exact .refl _
    · exact (compacts_unloadHex s ref refs).trans (ih _)

theorem compacts_hexRefs (s : ActiveState) : Compacts s (rungHexRefs fits s).1 := by
  unfold rungHexRefs
  split_ifs
  · exact compacts_unloadHexRefs fits s.activeHexRefs s
  · exact .refl s

/-- A title is not part of an address. -/
theorem address_untitled (ds : List Decision) :
    (ds.map fun d => { d with title := none }).filterMap Decision.address =
      ds.filterMap Decision.address := by
  rw [List.filterMap_map]
  rfl

theorem compacts_titles (s : ActiveState) : Compacts s (rungTitles fits s).1 := by
  unfold rungTitles
  split_ifs
  · refine ⟨rfl, rfl, rfl, rfl, fun kind a ha => .inl ?_, fun _ _ h => h, rfl, rfl⟩
    cases kind with
    | decision =>
      simp only [ActiveState.held]
      rw [address_untitled]
      exact ha
    | hex => exact ha
    | pin => exact ha
    | question => exact ha
  · exact .refl s

/-- A decision in front is dropped. -/
theorem compacts_unloadDecision (s : ActiveState) (d : Decision) (ds : List Decision) :
    Compacts { s with recentDecisions := d :: ds }
      { s.drop (py "decision") d.address with recentDecisions := ds } where
  mission := by simp
  objective := by simp
  criticals := by simp
  questions := by simp [ActiveState.unresolvedQuestions]
  held kind a ha := by
    cases kind with
    | decision =>
      simp only [ActiveState.held, List.filterMap_cons] at ha
      cases hd : d.address with
      | none =>
        rw [hd] at ha
        exact .inl ha
      | some address =>
        rw [hd] at ha
        rcases List.mem_cons.mp ha with rfl | ha
        · exact .inr (ActiveState.listed_drop_self s .decision a)
        · exact .inl ha
    | hex => exact .inl (by simpa [ActiveState.held] using ha)
    | pin => exact .inl (by simpa [ActiveState.held] using ha)
    | question => exact .inl (by simpa [ActiveState.held] using ha)
  listed kind a ha := ActiveState.listed_drop ha
  pointer := by simp
  clock := ActiveState.clock_drop s (py "decision") d.address

theorem compacts_unloadDecisions (ds : List Decision) (s : ActiveState) :
    Compacts { s with recentDecisions := ds } (unloadDecisions fits s ds).1 := by
  induction ds generalizing s with
  | nil => exact .refl _
  | cons d ds ih =>
    rw [unloadDecisions]
    split_ifs
    · exact .refl _
    · exact (compacts_unloadDecision s d ds).trans (ih _)

theorem compacts_summaryHead (summaryPointer : Option PyStr) (s : ActiveState) :
    Compacts s (rungSummaryHead fits summaryPointer s).1 := by
  unfold rungSummaryHead
  split_ifs
  · split
    · dsimp only
      refine Compacts.trans ?_ (Compacts.drop _ _ _)
      exact .of_eq rfl rfl rfl rfl rfl rfl rfl rfl rfl
    · exact .refl s
  · exact .refl s

theorem compacts_summary (summaryPointer : Option PyStr) (s : ActiveState) :
    Compacts s (rungSummary fits summaryPointer s).1 := by
  unfold rungSummary
  split
  · split_ifs
    · dsimp only
      refine Compacts.trans ?_ (Compacts.drop _ _ _)
      exact .of_eq rfl rfl rfl rfl rfl rfl rfl rfl rfl
    · exact .refl s
  · exact .refl s

theorem compacts_resolved (s : ActiveState) : Compacts s (rungResolved fits s).1 := by
  unfold rungResolved
  split_ifs
  · have hdrops := Compacts.drops (py "question") Question.id (s.openQuestions.filter Question.resolved) s
    refine ⟨hdrops.mission, hdrops.objective, hdrops.criticals, ?_, ?_, hdrops.listed, hdrops.pointer,
      hdrops.clock⟩
    · simp [ActiveState.unresolvedQuestions]
    · intro kind a ha
      cases kind with
      | question =>
        -- a question is resolved and listed, or it stays
        obtain ⟨q, hq, rfl⟩ := List.mem_map.mp ha
        by_cases hr : q.resolved
        · exact .inr (listed_drops .question Question.id (List.mem_filter.mpr ⟨hq, hr⟩) s)
        · exact .inl (List.mem_map_of_mem (List.mem_filter.mpr ⟨hq, by simp [hr]⟩))
      | hex => exact hdrops.held .hex a ha
      | pin => exact hdrops.held .pin a ha
      | decision => exact hdrops.held .decision a ha
  · exact .refl s

theorem compacts_pins (s : ActiveState) : Compacts s (rungPins fits s).1 := by
  unfold rungPins
  split_ifs
  · have hdrops := Compacts.drops (py "pin") PinView.pinId (s.activePins.filter fun p => !p.critical) s
    refine ⟨hdrops.mission, hdrops.objective, by simp, hdrops.questions, ?_, hdrops.listed,
      hdrops.pointer, hdrops.clock⟩
    intro kind a ha
    cases kind with
    | pin =>
      obtain ⟨p, hp, rfl⟩ := List.mem_map.mp ha
      by_cases hc : p.critical
      · exact .inl (List.mem_map_of_mem (List.mem_filter.mpr ⟨hp, hc⟩))
      · exact .inr (listed_drops .pin PinView.pinId (List.mem_filter.mpr ⟨hp, by simp [hc]⟩) s)
    | hex => exact hdrops.held .hex a ha
    | question => exact hdrops.held .question a ha
    | decision => exact hdrops.held .decision a ha
  · exact .refl s

theorem compacts_questions (s : ActiveState) : Compacts s (rungQuestions fits s).1 := by
  unfold rungQuestions
  split_ifs
  · have hid : ∀ qs : List Question, (qs.map fun q =>
        if questionHeadChars < q.text.length then { q with text := head questionHeadChars q.text }
        else q).map Question.id = qs.map Question.id := by
      intro qs
      rw [List.map_map]
      refine List.map_congr_left fun q _ => ?_
      simp only [Function.comp_apply]
      split_ifs <;> rfl
    refine ⟨rfl, rfl, rfl, ?_, fun kind a ha => .inl ?_, fun _ _ h => h, rfl, rfl⟩
    · simp only [ActiveState.unresolvedQuestions]
      rw [List.filter_map, hid]
      congr 1
      refine List.filter_congr fun q _ => ?_
      simp only [Function.comp_apply]
      split_ifs <;> rfl
    · cases kind with
      | question =>
        simp only [ActiveState.held]
        rw [hid]
        exact ha
      | hex => exact ha
      | pin => exact ha
      | decision => exact ha
  · exact .refl s

/-- Every rung compacts. -/
theorem compacts_rung {summaryPointer : Option PyStr} {rung : Rung}
    (h : rung ∈ rungs fits summaryPointer) (s : ActiveState) : Compacts s (rung s).1 := by
  simp only [rungs, List.mem_cons, List.not_mem_nil, or_false] at h
  rcases h with rfl | rfl | rfl | rfl | rfl | rfl | rfl | rfl | rfl
  · exact compacts_hints fits s
  · exact compacts_hexRefs fits s
  · exact compacts_titles fits s
  · exact compacts_unloadDecisions fits s.recentDecisions s
  · exact compacts_summaryHead fits summaryPointer s
  · exact compacts_summary fits summaryPointer s
  · exact compacts_resolved fits s
  · exact compacts_pins fits s
  · exact compacts_questions fits s

end

/-- And so does the way down. -/
theorem compacts_climb {rungs : List Rung} (h : ∀ rung ∈ rungs, ∀ s, Compacts s (rung s).1)
    (s : ActiveState) : Compacts s (climb rungs s).1 := by
  have hfold : ∀ (rungs : List Rung) (r : ActiveState × List PyStr),
      (∀ rung ∈ rungs, ∀ s, Compacts s (rung s).1) → Compacts r.1
        (rungs.foldl (fun r rung => ((rung r.1).1, r.2 ++ (rung r.1).2)) r).1 := by
    intro rungs
    induction rungs with
    | nil => exact fun r _ => .refl r.1
    | cons rung rungs ih =>
      intro r h
      rw [List.foldl_cons]
      have hrest := ih ((rung r.1).1, r.2 ++ (rung r.1).2) fun rung hrung =>
        h rung (List.mem_cons_of_mem _ hrung)
      exact (h rung List.mem_cons_self r.1).trans hrest
  exact hfold rungs (s, []) h

/-! ### The ladder and its file -/

/-- The addresses of a kind that a ledger file lists. -/
def fileListed (file : Option AddressLedger) (kind : AddressKind) : List PyStr :=
  (Dict.get kind.bucket (file.getD [])).getD []

/-- An address is listed in the state, or in the file that the state points at. -/
def Reaches (name : PyStr) (s : ActiveState) (file : Option AddressLedger) (kind : AddressKind)
    (a : PyStr) : Prop :=
  a ∈ s.listed kind ∨ s.unloadedLedger = some name ∧ a ∈ fileListed file kind

/-- What an operation retains of a state and its ledger file: the core; and every address is
still in the state, or listed, and what was listed is. -/
structure Retains (name : PyStr) (s : ActiveState) (file : Option AddressLedger) (t : ActiveState)
    (file' : Option AddressLedger) : Prop where
  mission : t.mission = s.mission
  objective : t.currentObjective = s.currentObjective
  criticals : t.activePins.filter PinView.critical = s.activePins.filter PinView.critical
  questions : t.unresolvedQuestions.map Question.id = s.unresolvedQuestions.map Question.id
  held : ∀ kind, ∀ a ∈ s.held kind, a ∈ t.held kind ∨ Reaches name t file' kind a
  listed : ∀ kind a, Reaches name s file kind a → Reaches name t file' kind a
  clock : t.clock = s.clock

theorem Compacts.retains {s t : ActiveState} (h : Compacts s t) (name : PyStr)
    {file file' : Option AddressLedger}
    (hfile : ∀ kind, ∀ a ∈ fileListed file kind, a ∈ fileListed file' kind) :
    Retains name s file t file' where
  mission := h.mission
  objective := h.objective
  criticals := h.criticals
  questions := h.questions
  held kind a ha := (h.held kind a ha).imp_right .inl
  listed kind a ha :=
    ha.imp (h.listed kind a) fun hp => ⟨h.pointer.trans hp.1, hfile kind a hp.2⟩
  clock := h.clock

theorem get_mergeBucket (kind k : PyStr) (refs : List PyStr) (ledger : AddressLedger) (a : PyStr) :
    a ∈ (Dict.get k (refs.foldl (fun merged ref => Dict.pushNew kind ref merged) ledger)).getD [] ↔
      a ∈ (Dict.get k ledger).getD [] ∨ kind = k ∧ a ∈ refs := by
  induction refs generalizing ledger with
  | nil => simp
  | cons ref refs ih =>
    rw [List.foldl_cons, ih, Dict.get_pushNew, List.mem_cons]
    split_ifs with h
    · rw [List.mem_append, List.mem_singleton]
      obtain ⟨rfl, -⟩ := h
      tauto
    · constructor
      · tauto
      · rintro (hk | ⟨rfl, rfl | hr⟩)
        · exact .inl hk
        · by_contra hnot
          exact h ⟨rfl, fun hmem => hnot (.inl hmem)⟩
        · exact .inr ⟨rfl, hr⟩

/-- **What is spilled** joins what was in the file. -/
theorem mem_mergeLedger (prior dropped : AddressLedger) (k : PyStr) (a : PyStr) :
    a ∈ (Dict.get k (mergeLedger prior dropped)).getD [] ↔
      a ∈ (Dict.get k prior).getD [] ∨ ∃ refs, (k, refs) ∈ dropped ∧ a ∈ refs := by
  induction dropped generalizing prior with
  | nil => simp [mergeLedger]
  | cons p dropped ih =>
    obtain ⟨kind, refs⟩ := p
    have hstep : mergeLedger prior ((kind, refs) :: dropped) =
        mergeLedger (refs.foldl (fun merged ref => Dict.pushNew kind ref merged)
          (Dict.set kind ((Dict.get kind prior).getD []) prior)) dropped := rfl
    have hset : (Dict.get k (Dict.set kind ((Dict.get kind prior).getD []) prior)).getD [] =
        (Dict.get k prior).getD [] := by
      rw [Dict.get_set]
      split_ifs with h
      · rw [h]
        rfl
      · rfl
    rw [hstep, ih, get_mergeBucket, hset]
    constructor
    · rintro ((h | ⟨rfl, h⟩) | ⟨rs, hrs, h⟩)
      · exact .inl h
      · exact .inr ⟨refs, List.mem_cons_self, h⟩
      · exact .inr ⟨rs, List.mem_cons_of_mem _ hrs, h⟩
    · rintro (h | ⟨rs, hrs, h⟩)
      · exact .inl (.inl h)
      · rcases List.mem_cons.mp hrs with heq | hrs
        · obtain ⟨rfl, rfl⟩ := Prod.mk.inj heq
          exact .inl (.inr ⟨rfl, h⟩)
        · exact .inr ⟨rs, hrs, h⟩

/-- A spill retains everything, if the file is the one the state points at afterwards. -/
theorem retains_spill (name : PyStr) (s : ActiveState) (file : Option AddressLedger) :
    Retains name s file { s with droppedRefs := [], unloadedLedger := some name }
      (some (mergeLedger (file.getD []) s.droppedRefs)) where
  mission := rfl
  objective := rfl
  criticals := rfl
  questions := rfl
  clock := rfl
  held kind a ha := .inl (by cases kind <;> exact ha)
  listed kind a ha := by
    refine .inr ⟨rfl, (mem_mergeLedger _ _ _ _).mpr ?_⟩
    rcases ha with ha | ⟨-, ha⟩
    · rw [ActiveState.listed] at ha
      cases hget : Dict.get kind.bucket s.droppedRefs with
      | none =>
        rw [hget] at ha
        cases ha
      | some refs =>
        rw [hget] at ha
        exact .inr ⟨refs, Dict.mem_of_get hget, ha⟩
    · exact .inl ha

theorem Retains.trans {name : PyStr} {s t u : ActiveState} {f g i : Option AddressLedger}
    (h : Retains name s f t g) (h' : Retains name t g u i) : Retains name s f u i where
  mission := h'.mission.trans h.mission
  objective := h'.objective.trans h.objective
  criticals := h'.criticals.trans h.criticals
  questions := h'.questions.trans h.questions
  held kind a ha := (h.held kind a ha).elim (h'.held kind a) fun hl => .inr (h'.listed kind a hl)
  listed kind a ha := h'.listed kind a (h.listed kind a ha)
  clock := h'.clock.trans h.clock

theorem Retains.refl (name : PyStr) (s : ActiveState) (file : Option AddressLedger) :
    Retains name s file s file :=
  (Compacts.refl s).retains name fun _ _ h => h

/-- The mark of a state over its budget is not part of what is retained. -/
theorem Retains.mark {name : PyStr} {s t : ActiveState} {f g : Option AddressLedger}
    (h : Retains name s f t g) (past : Bool) : Retains name s f { t with overBudget := past } g := by
  have hmark : Compacts t { t with overBudget := past } := .of_eq rfl rfl rfl rfl rfl rfl rfl rfl rfl
  exact h.trans (hmark.retains name fun _ _ h => h)

/-- A state that became larger is put back. -/
theorem Retains.settle {name : PyStr} {s t : ActiveState} {f g : Option AddressLedger}
    (counter : PyStr → ℤ) (budget : ℤ) (steps : List PyStr) (h : Retains name s f t g)
    (hs : Retains name s f s g) :
    Retains name s f (settle counter budget s t steps g).2.1 (settle counter budget s t steps g).2.2 := by
  simp only [Hexa.settle]
  split_ifs
  · exact hs.mark _
  · exact h.mark _

/-- **The ladder retains the core, and lists what it drops**, whether it fits the state, cannot,
is undone or fails. -/
theorem retains_enforceBudget (counter : PyStr → ℤ) (budget : ℤ) (summaryPointer : Option PyStr)
    {spillPath : Option PyStr} {name : PyStr} (hname : ∀ n, spillPath = some n → n = name)
    (s : ActiveState) (file : Option AddressLedger) :
    Retains name s file (enforceBudget counter budget summaryPointer spillPath s file).2.1
      (enforceBudget counter budget summaryPointer spillPath s file).2.2 := by
  unfold enforceBudget
  simp only
  split
  · exact (Retains.refl name s file).mark false
  · generalize hr : climb (rungs (fun s => decide (s.tokens counter ≤ budget))
      (summaryPointer.filter fun p => p ≠ [])) s = r
    have hclimb : Compacts s r.1 := by
      rw [← hr]
      exact compacts_climb (fun rung hrung => compacts_rung _ hrung) s
    have hdown : Retains name s file r.1 file := hclimb.retains name fun _ _ h => h
    cases spillPath with
    | none => exact hdown.settle counter budget r.2 (.refl name s file)
    | some path =>
      obtain rfl := hname path rfl
      simp only
      split_ifs with hspill
      · cases hwrite : writeJson (ledgerDict (mergeLedger (file.getD []) r.1.droppedRefs)) with
        | error e => exact hdown
        | ok u =>
          -- the file has grown, whether or not the state points at it
          refine (hdown.trans (retains_spill path r.1 file)).settle counter budget _ ?_
          refine (Compacts.refl s).retains path fun kind a ha => ?_
          exact (mem_mergeLedger _ _ _ _).mpr (.inl ha)
      · exact hdown.settle counter budget r.2 (.refl path s file)

/-! ### Epochs -/

/-- The packet that crosses an epoch boundary. -/
structure Handoff where
  mission : PyStr
  currentObjective : PyStr
  criticalPins : List PinView
  pinRefs : List PyStr
  openQuestions : List Question
  decisions : List Decision
  hexmapRefs : List PyStr
  hexmapRefsOmitted : ℕ
  retrievalHints : List PyStr
  retrievalHintsOmitted : ℕ
  unloadedLedger : Option PyStr
  summaryHex : Option PyStr
  decisionsOmitted : Option ℕ
  deriving DecidableEq

/-- The packet as a dict. -/
def Handoff.toDict (h : Handoff) : PyVal FloatLit :=
  .dict (strItems ([
    (py "mission", .str h.mission),
    (py "current_objective", .str h.currentObjective),
    (py "critical_pins", .list (h.criticalPins.map PinView.toDict)),
    (py "pin_refs", strList h.pinRefs),
    (py "open_questions", .list (h.openQuestions.map Question.toDict)),
    (py "decisions", .list (h.decisions.map Decision.toDict)),
    (py "hexmap_refs", strList h.hexmapRefs),
    (py "hexmap_refs_omitted", .int h.hexmapRefsOmitted),
    (py "retrieval_hints", strList h.retrievalHints),
    (py "retrieval_hints_omitted", .int h.retrievalHintsOmitted),
    (py "unloaded_ledger", optStr h.unloadedLedger),
    (py "summary_hex", optStr h.summaryHex)] ++
    (h.decisionsOmitted.map fun n => (py "decisions_omitted", .int n)).toList))

/-- The last items of a list. -/
def lastItems {A : Type} (n : ℕ) (l : List A) : List A := l.drop (l.length - n)

/-- `build_handoff`. -/
def buildHandoff (s : ActiveState) (fallbackHexRefs : List PyStr) (summaryHex : Option PyStr) :
    Handoff :=
  let refs := if s.activeHexRefs ≠ [] then s.activeHexRefs else fallbackHexRefs
  let summary := (summaryHex.filter fun p => p ≠ []).map fun p => py "previous epoch summary: " ++ p
  { mission := s.mission
    currentObjective := s.currentObjective
    criticalPins := s.activePins.filter PinView.critical
    pinRefs := (s.activePins.filter fun p => !p.critical).map PinView.pinId
    openQuestions := s.unresolvedQuestions
    decisions := s.recentDecisions.map fun d => { d with title := none }
    hexmapRefs := lastItems maxHandoffHexRefs refs
    hexmapRefsOmitted := refs.length - maxHandoffHexRefs
    retrievalHints := summary.toList ++ lastItems 3 s.retrievalHints
    retrievalHintsOmitted := s.retrievalHints.length - 3
    unloadedLedger := s.unloadedLedger
    summaryHex := summaryHex
    decisionsOmitted := none }

/-- Hex references are shed from the front. -/
def shedHexRefs (counter : PyStr → ℤ) (ceiling : ℤ) (h : Handoff) : List PyStr → Handoff
  | [] => { h with hexmapRefs := [] }
  | ref :: refs =>
    if ceiling ≤ jsonTokens counter ({ h with hexmapRefs := ref :: refs } : Handoff).toDict then
      shedHexRefs counter ceiling { h with hexmapRefsOmitted := h.hexmapRefsOmitted + 1 } refs
    else { h with hexmapRefs := ref :: refs }

/-- Then decision addresses are. -/
def shedDecisions (counter : PyStr → ℤ) (ceiling : ℤ) (h : Handoff) : List Decision → Handoff
  | [] => { h with decisions := [] }
  | d :: ds =>
    if ceiling ≤ jsonTokens counter ({ h with decisions := d :: ds } : Handoff).toDict then
      shedDecisions counter ceiling { h with decisionsOmitted := some (h.decisionsOmitted.getD 0 + 1) }
        ds
    else { h with decisions := d :: ds }

/-- `trim_handoff`. -/
def trimHandoff (counter : PyStr → ℤ) (ceiling : ℤ) (h : Handoff) : Handoff :=
  let h := shedHexRefs counter ceiling h h.hexmapRefs
  shedDecisions counter ceiling h h.decisions

/-- `state_from_handoff`. -/
def stateFromHandoff (h : Handoff) (epoch : ℕ) : ActiveState :=
  h.pinRefs.foldl (fun s pid => s.drop (py "pin") (some pid)) {
    epoch := epoch
    turn := 0
    mission := h.mission
    currentObjective := h.currentObjective
    currentSummary := []
    activePins := h.criticalPins
    openQuestions := h.openQuestions
    activeHexRefs := h.hexmapRefs
    recentDecisions := h.decisions
    retrievalHints := h.retrievalHints
    droppedRefs := []
    unloadedLedger := h.unloadedLedger
    summaryHex := none
    overBudget := false }

/-- What trimming does: references and decisions are shed from the front. -/
theorem shedHexRefs_eq (counter : PyStr → ℤ) (ceiling : ℤ) (refs : List PyStr) (h : Handoff) :
    ∃ rest omitted, rest <:+ refs ∧
      shedHexRefs counter ceiling h refs = { h with hexmapRefs := rest, hexmapRefsOmitted := omitted } := by
  induction refs generalizing h with
  | nil => exact ⟨[], _, List.suffix_refl _, rfl⟩
  | cons ref refs ih =>
    rw [shedHexRefs]
    split_ifs
    · obtain ⟨rest, omitted, hrest, heq⟩ := ih { h with hexmapRefsOmitted := h.hexmapRefsOmitted + 1 }
      exact ⟨rest, omitted, hrest.trans (List.suffix_cons ref refs), heq⟩
    · exact ⟨ref :: refs, _, List.suffix_refl _, rfl⟩

theorem shedDecisions_eq (counter : PyStr → ℤ) (ceiling : ℤ) (ds : List Decision) (h : Handoff) :
    ∃ rest omitted, rest <:+ ds ∧
      shedDecisions counter ceiling h ds = { h with decisions := rest, decisionsOmitted := omitted } := by
  induction ds generalizing h with
  | nil => exact ⟨[], _, List.suffix_refl _, rfl⟩
  | cons d ds ih =>
    rw [shedDecisions]
    split_ifs
    · obtain ⟨rest, omitted, hrest, heq⟩ :=
        ih { h with decisionsOmitted := some (h.decisionsOmitted.getD 0 + 1) }
      exact ⟨rest, omitted, hrest.trans (List.suffix_cons d ds), heq⟩
    · exact ⟨d :: ds, _, List.suffix_refl _, rfl⟩

/-- **Trimming touches references and decisions alone.** -/
theorem trimHandoff_eq (counter : PyStr → ℤ) (ceiling : ℤ) (h : Handoff) :
    ∃ refs n ds m, refs <:+ h.hexmapRefs ∧ ds <:+ h.decisions ∧
      trimHandoff counter ceiling h =
        { h with hexmapRefs := refs, hexmapRefsOmitted := n, decisions := ds, decisionsOmitted := m } := by
  obtain ⟨refs, n, hrefs, heq⟩ := shedHexRefs_eq counter ceiling h.hexmapRefs h
  obtain ⟨ds, m, hds, heq'⟩ := shedDecisions_eq counter ceiling h.decisions
    { h with hexmapRefs := refs, hexmapRefsOmitted := n }
  refine ⟨refs, n, ds, m, hrefs, hds, ?_⟩
  rw [trimHandoff, heq, heq']

/-- The state that a handoff seeds, before the pins are listed. -/
theorem stateFromHandoff_eq (h : Handoff) (epoch : ℕ) :
    ∃ dropped, stateFromHandoff h epoch = {
      epoch := epoch, turn := 0, mission := h.mission, currentObjective := h.currentObjective
      currentSummary := [], activePins := h.criticalPins, openQuestions := h.openQuestions
      activeHexRefs := h.hexmapRefs, recentDecisions := h.decisions, retrievalHints := h.retrievalHints
      droppedRefs := dropped, unloadedLedger := h.unloadedLedger, summaryHex := none
      overBudget := false } := by
  have hdrops : ∀ (pids : List PyStr) (s : ActiveState),
      ∃ dropped, pids.foldl (fun s pid => s.drop (py "pin") (some pid)) s =
        { s with droppedRefs := dropped } := by
    intro pids
    induction pids with
    | nil => exact fun s => ⟨s.droppedRefs, rfl⟩
    | cons pid pids ih => exact fun s => ih (s.drop (py "pin") (some pid))
  exact hdrops h.pinRefs _

/-- **The next epoch has the core of the last one.** -/
theorem core_rotate (counter : PyStr → ℤ) (ceiling : ℤ) (s : ActiveState) (refs : List PyStr)
    (summaryHex : Option PyStr) (epoch : ℕ) :
    let t := stateFromHandoff (trimHandoff counter ceiling (buildHandoff s refs summaryHex)) epoch
    t.mission = s.mission ∧ t.currentObjective = s.currentObjective ∧
      t.activePins = s.activePins.filter PinView.critical ∧
      t.openQuestions = s.unresolvedQuestions := by
  obtain ⟨refs', n, ds, m, -, -, heq⟩ :=
    trimHandoff_eq counter ceiling (buildHandoff s refs summaryHex)
  obtain ⟨dropped, hstate⟩ := stateFromHandoff_eq
    (trimHandoff counter ceiling (buildHandoff s refs summaryHex)) epoch
  intro t
  have ht : t = _ := hstate
  rw [ht, heq]
  exact ⟨rfl, rfl, rfl, rfl⟩

end Hexa

end Daryl
