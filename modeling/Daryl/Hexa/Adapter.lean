import Daryl.Hexa.Ledger

/-!
# `hexashard_adapter.adapter`: a chat that fails

A chat in normal mode runs a turn of the project, which saves, and only then assembles the
context and asks the provider.  It takes a snapshot of five files and of the names in `epochs`
first; what is raised between the turn and a valid reply is recorded, the snapshot is put back,
and the project is opened again from its files.  What context assembly, provider and validation
come to is an input of the chat.

## Main definitions

* `TurnSnapshot` — what is captured, and put back.
* `Adapter`, `Adapter.chat` — a chat in either mode, and how it ends.
* `Adapter.Undone` — the condition on the state and the failure.

## Main results

* `failed_chat_iff` — **when a failed chat leaves no trace.**
* `failed_chats_run` — what any number of them leaves.
-/

namespace Daryl

namespace Hexa

open Py Json

/-! ### The snapshot -/

/-- `_TurnSnapshot`: the files of a save, and the names in `epochs`. -/
structure TurnSnapshot where
  epoch : ℕ
  hexmap : List (PyStr × Hex)
  pins : List (PyStr × Pin)
  relations : List Edge
  state : ActiveState
  epochArtifacts : List PyStr

namespace TurnSnapshot

/-- The snapshot of a directory. -/
def take (d : Disk) : TurnSnapshot :=
  ⟨d.epoch, d.hexmap, d.pins, d.relations, d.state, Dict.keys d.epochs⟩

/-- `restore`: the files are written back, and new names in `epochs` are unlinked. -/
def restore (snapshot : TurnSnapshot) (d : Disk) : Disk :=
  { d with
    epoch := snapshot.epoch
    hexmap := snapshot.hexmap
    pins := snapshot.pins
    relations := snapshot.relations
    state := snapshot.state
    epochs := d.epochs.filter fun f => f.1 ∈ snapshot.epochArtifacts }

end TurnSnapshot

/-- `Project.open`, in the directory of a project that is open. -/
def Project.reopen (p : Project) (d : Disk) : Project where
  config := { p.config with epoch := d.epoch }
  hexmap := d.hexmap
  pins := ⟨p.pins.projectPrefix, d.pins⟩
  relations := d.relations
  state := d.state
  disk := d

/-! ### Chats -/

/-- `ProjectMode`. -/
inductive Mode
  | normal
  | readOnly
  deriving DecidableEq

/-- The value of a mode. -/
def Mode.value : Mode → PyStr
  | .normal => py "NORMAL"
  | .readOnly => py "READ_ONLY"

/-- An exception: the name of its class, and its text. -/
structure Raised where
  type : PyStr
  text : PyStr

/-- The arguments of a chat; what its retrieval returns; and what context assembly, provider and
validation come to, either an exception or a reply, as the row that reports it. -/
structure Chat where
  userMessage : PyStr
  objective : Option PyStr
  retrieved : Except HexaError (List PyStr)
  reply : Except Raised (PyVal FloatLit)

/-- The turn of a chat. -/
def Chat.turn (c : Chat) : Project.Turn := ⟨c.userMessage, c.objective, none, c.retrieved⟩

/-- `HexaShardAdapter`; the rows of its metrics are kept as dicts. -/
structure Adapter where
  project : Project
  mode : Mode
  provider : PyStr
  metrics : List (PyVal FloatLit)

/-- How a chat ends: with a reply; with what its turn raised; with what was raised before a reply
was valid; with what recording this raised; or with what was raised after it. -/
inductive Outcome
  | replied
  | turnFailed (e : HexaError)
  | abandoned (raised : Raised)
  | unrecorded (e : HexaError)
  | uncommitted (e : HexaError)

/-- A chat failed before it had a reply. -/
def Outcome.Failed : Outcome → Prop
  | .replied => False
  | .uncommitted _ => False
  | .turnFailed _ => True
  | .abandoned _ => True
  | .unrecorded _ => True

instance : DecidablePred Outcome.Failed
  | .replied => isFalse id
  | .uncommitted _ => isFalse id
  | .turnFailed _ => isTrue trivial
  | .abandoned _ => isTrue trivial
  | .unrecorded _ => isTrue trivial

namespace Adapter

variable (counter : PyStr → ℤ) (a : Adapter) (c : Chat)

/-- `append_metric`. -/
def appendMetric (row : PyVal FloatLit) (a : Adapter) : Except HexaError Unit × Adapter :=
  match writeJson row with
  | .error e => (.error e, a)
  | .ok () => (.ok (), { a with metrics := a.metrics ++ [row] })

/-- The row of a failure. -/
def failureRow (raised : Raised) (rolledBack : Bool) : PyVal FloatLit :=
  .dict (strItems [
    (py "outcome", .str (py "failed")),
    (py "error", .str raised.type),
    (py "error_detail", .str (raised.text.take 200)),
    (py "turn_rolled_back", .bool rolledBack),
    (py "mode", .str a.mode.value),
    (py "provider", .str a.provider),
    (py "user_message_tokens", .int (estimateTokens c.userMessage))])

/-- `_record_failure`. -/
def recordFailure (raised : Raised) (rolledBack : Bool) : Except HexaError Unit × Adapter :=
  a.appendMetric (a.failureRow c raised rolledBack)

/-- If the failure was recorded, the snapshot is put back. -/
def putBack (snapshot : Option TurnSnapshot) (raised : Raised) :
    Except HexaError Unit × Adapter → Outcome × Adapter
  | (.error e, a) => (.unrecorded e, a)
  | (.ok (), a) =>
    match snapshot with
    | none => (.abandoned raised, a)
    | some snapshot =>
      (.abandoned raised, { a with project := a.project.reopen (snapshot.restore a.project.disk) })

/-- `_abandon_turn`. -/
def abandonTurn (snapshot : Option TurnSnapshot) (raised : Raised) : Outcome × Adapter :=
  putBack snapshot raised (a.recordFailure c raised snapshot.isSome)

/-- `_commit_turn`. -/
def commitTurn (row : PyVal FloatLit) : Outcome × Adapter :=
  match a.appendMetric row with
  | (.error e, a) => (.uncommitted e, a)
  | (.ok (), a) =>
    match a.mode with
    | .readOnly => (.replied, a)
    | .normal =>
      match a.project.save with
      | (.error e, p) => (.uncommitted e, { a with project := p })
      | (.ok (), p) => (.replied, { a with project := p })

/-- The rest of a chat, with the context of its turn. -/
def ask (snapshot : Option TurnSnapshot) : Outcome × Adapter :=
  match c.reply with
  | .error raised => a.abandonTurn c snapshot raised
  | .ok row => a.commitTurn row

/-- `chat`. -/
def chat : Outcome × Adapter :=
  match a.mode with
  | .readOnly =>
    match c.retrieved with
    | .error e => (.turnFailed e, a)
    | .ok _ => a.ask c none
  | .normal =>
    let snapshot := TurnSnapshot.take a.project.disk
    match a.project.handleTurn counter c.turn with
    | (.error e, p) => (.turnFailed e, { a with project := p })
    | (.ok _, p) => { a with project := p }.ask c (some snapshot)

end Adapter

/-! ### What a turn leaves behind -/

namespace Project

variable (counter : PyStr → ℤ) (p : Project)

/-- What is in memory is what is in the files. -/
structure Saved (p : Project) : Prop where
  epoch : p.config.epoch = p.disk.epoch
  hexmap : p.hexmap = p.disk.hexmap
  pins : p.pins.pins = p.disk.pins
  relations : p.relations = p.disk.relations
  state : p.state = p.disk.state

/-- The files that a snapshot does not hold: the spilled ledger, and the artifacts that were
there, are as they were. -/
structure Spared (d d' : Disk) : Prop where
  ledger : d'.ledger = d.ledger
  epochs : d'.epochs.filter (fun f => f.1 ∈ Dict.keys d.epochs) = d.epochs

/-- **What a project that is opened again has of an earlier one.** -/
theorem reopen_restore_iff {p q : Project} (hpins : q.pins = p.pins)
    (hconfig : { q.config with epoch := 0 } = { p.config with epoch := 0 }) :
    q.reopen ((TurnSnapshot.take p.disk).restore q.disk) = p ↔ p.Saved ∧ Spared p.disk q.disk := by
  have hopened : q.reopen ((TurnSnapshot.take p.disk).restore q.disk) = {
      config := { p.config with epoch := p.disk.epoch }
      hexmap := p.disk.hexmap
      pins := ⟨p.pins.projectPrefix, p.disk.pins⟩
      relations := p.disk.relations
      state := p.disk.state
      disk := { p.disk with
        ledger := q.disk.ledger
        epochs := q.disk.epochs.filter fun f => f.1 ∈ Dict.keys p.disk.epochs } } := by
    have hc : ({ q.config with epoch := p.disk.epoch } : ProjectConfig) =
        { p.config with epoch := p.disk.epoch } :=
      congrArg (fun c : ProjectConfig => { c with epoch := p.disk.epoch }) hconfig
    rw [reopen, hpins]
    exact congrArg (fun c => (Project.mk c p.disk.hexmap ⟨p.pins.projectPrefix, p.disk.pins⟩
      p.disk.relations p.disk.state _ : Project)) hc
  rw [hopened]
  obtain ⟨config, hexmap, pins, relations, state, disk⟩ := p
  obtain ⟨epoch, hexmap', pins', relations', state', ledger, epochs⟩ := disk
  constructor
  · intro h
    simp only [Project.mk.injEq, Disk.mk.injEq, true_and] at h
    obtain ⟨hcfg, hmap, hpin, hrel, hstate, hledger, hepochs⟩ := h
    exact ⟨⟨by rw [← hcfg], hmap.symm, by rw [← hpin], hrel.symm, hstate.symm⟩, hledger, hepochs⟩
  · rintro ⟨⟨hcfg, hmap, hpin, hrel, hstate⟩, hledger, hepochs⟩
    dsimp only at hcfg hmap hpin hrel hstate hledger hepochs
    subst hcfg hmap hpin hrel hstate
    rw [hledger, hepochs]

/-- The clock of a state has moved on. -/
def Turned (p : Project) (s : ActiveState) : Prop :=
  s.clock = (p.state.epoch, p.state.turn + 1) ∨ s.epoch = p.state.epoch + 1

theorem Turned.ne {s : ActiveState} (h : p.Turned s) : s ≠ p.state := by
  rintro rfl
  rcases h with h | h
  · simp [ActiveState.clock] at h
  · omega

/-- **A turn moves the clock**, and keeps the configuration, wherever it ends. -/
theorem turned_handleTurn (turn : Turn) :
    p.Turned (p.handleTurn counter turn).2.state ∧
    { (p.handleTurn counter turn).2.config with epoch := 0 } = { p.config with epoch := 0 } := by
  obtain ⟨summary, hbegin, -⟩ := begin_spec p turn
  rcases handleTurn_cases counter p turn with heq | ⟨hexRefs, -, q, hq, hturn⟩
  · rw [heq, hbegin]
    exact ⟨.inl rfl, rfl⟩
  · obtain ⟨refs, hints, habsorb, -⟩ := absorb_spec (p.begin turn) turn hexRefs
    obtain ⟨t, ht, hframe⟩ := mayRotate_spec counter ((p.begin turn).absorb turn hexRefs)
    rw [← hq] at hframe
    have hconfig : { q.config with epoch := 0 } = { p.config with epoch := 0 } := hframe.config
    -- the clock after the rotation, if there is one
    have hturned : p.Turned q.state := by
      rw [hframe.state]
      rcases ht with ⟨hexId, rfl⟩ | ⟨-, -, rfl⟩
      · left
        rw [habsorb, hbegin]
        rfl
      · right
        obtain ⟨dropped, hseeded⟩ := stateFromHandoff_eq _ _
        rw [seeded, hseeded, habsorb, hbegin]
    rcases hturn with heq | ⟨hlast, -⟩
    · rw [heq]
      exact ⟨hturned, hconfig⟩
    · obtain ⟨hexId, hpointer⟩ := framed_summaryPointer q
      have hclock := (enforceBudget_spec counter q none).1.clock
      rw [hlast.state]
      refine ⟨?_, hlast.config.trans (hpointer.config.trans hconfig)⟩
      simp only [ActiveState.clock, Prod.mk.injEq] at hclock
      exact hturned.imp (fun h => by rw [← h, ActiveState.clock, ActiveState.clock, hclock.1, hclock.2])
        fun h => hclock.1.trans h

end Project

namespace Adapter

variable (counter : PyStr → ℤ) (a : Adapter) (c : Chat)

/-- The turn of a chat returned, and what was raised after it can be recorded. -/
structure Answered : Prop where
  returned : ∃ signal, (a.project.handleTurn counter c.turn).1 = .ok signal
  recorded : ∀ raised, c.reply = .error raised → writeJson (a.failureRow c raised true) = .ok ()

/-- The condition on a chat that fails: its turn returned; the failure can be recorded; all that
was in memory was in the files; and the turn spared the files that a snapshot does not hold. -/
structure Undone : Prop extends Answered counter a c where
  saved : a.project.Saved
  spared : Project.Spared a.project.disk (a.project.handleTurn counter c.turn).2.disk

/-- With a valid reply a chat does not fail before it. -/
theorem not_failed_ask {snapshot : Option TurnSnapshot} {row : PyVal FloatLit} (h : c.reply = .ok row) :
    ¬ (a.ask c snapshot).1.Failed := by
  rw [ask, h]
  simp only [commitTurn]
  split
  · exact id
  · split
    · exact id
    · split <;> exact id

/-- **What a failed chat does**: its project is as its turn left it, or it is opened again from
the files that its snapshot put back. -/
theorem failed_chat_cases (hmode : a.mode = .normal) (hfailed : (a.chat counter c).1.Failed) :
    let p := (a.project.handleTurn counter c.turn).2
    let b := (a.chat counter c).2
    b.mode = a.mode ∧ b.provider = a.provider ∧
    (¬ a.Answered counter c ∧ b.project = p ∨
      a.Answered counter c ∧ b.project = p.reopen ((TurnSnapshot.take a.project.disk).restore p.disk)) := by
  rcases hturn : a.project.handleTurn counter c.turn with ⟨e | signal, p⟩
  · -- the turn raised, and nothing is put back
    have hchat : a.chat counter c = (.turnFailed e, { a with project := p }) := by
      rw [chat, hmode]
      simp only [hturn]
    rw [hchat]
    refine ⟨rfl, rfl, .inl ⟨fun h => ?_, rfl⟩⟩
    obtain ⟨signal, hsignal⟩ := h.returned
    rw [hturn] at hsignal
    cases hsignal
  · have hchat : a.chat counter c =
        ({ a with project := p } : Adapter).ask c (some (.take a.project.disk)) := by
      rw [chat, hmode]
      simp only [hturn]
    rw [hchat] at hfailed ⊢
    cases hreply : c.reply with
    | ok row => exact absurd hfailed (not_failed_ask _ c hreply)
    | error raised =>
      simp only [ask, hreply, abandonTurn, recordFailure, appendMetric]
      -- the row does not depend on the project
      have hsame : ({ a with project := p } : Adapter).failureRow c raised true =
        a.failureRow c raised true := rfl
      simp only [Option.isSome_some, hsame]
      cases hrow : writeJson (a.failureRow c raised true) with
      | error e =>
        refine ⟨rfl, rfl, .inl ⟨fun h => ?_, rfl⟩⟩
        have hrecorded := h.recorded raised hreply
        rw [hrow] at hrecorded
        cases hrecorded
      | ok u =>
        refine ⟨rfl, rfl, .inr ⟨⟨⟨signal, by rw [hturn]⟩, fun raised' hr => ?_⟩, rfl⟩⟩
        rw [hreply] at hr
        obtain rfl := Except.error.inj hr
        exact hrow

theorem ask_metrics (snapshot : Option TurnSnapshot) (metrics : List (PyVal FloatLit)) :
    (({ a with metrics := metrics } : Adapter).ask c snapshot).1 = (a.ask c snapshot).1 ∧
      (({ a with metrics := metrics } : Adapter).ask c snapshot).2.project =
        (a.ask c snapshot).2.project := by
  cases hreply : c.reply with
  | error raised =>
    simp only [ask, hreply, abandonTurn, recordFailure, appendMetric]
    have hsame : ({ a with metrics := metrics } : Adapter).failureRow c raised snapshot.isSome =
      a.failureRow c raised snapshot.isSome := rfl
    rw [hsame]
    cases writeJson (a.failureRow c raised snapshot.isSome) with
    | error e => exact ⟨rfl, rfl⟩
    | ok u => cases snapshot <;> exact ⟨rfl, rfl⟩
  | ok row =>
    simp only [ask, hreply, commitTurn, appendMetric]
    cases writeJson row with
    | error e => exact ⟨rfl, rfl⟩
    | ok u =>
      obtain ⟨p, mode, provider, _⟩ := a
      cases mode with
      | readOnly => exact ⟨rfl, rfl⟩
      | normal =>
        simp only
        rcases p.save with ⟨e | u, q⟩ <;> exact ⟨rfl, rfl⟩

/-- How a chat ends, and what it makes of the project, does not depend on the metrics. -/
theorem chat_congr {a b : Adapter} (hproject : b.project = a.project) (hmode : b.mode = a.mode)
    (hprovider : b.provider = a.provider) :
    (b.chat counter c).1 = (a.chat counter c).1 ∧
      (b.chat counter c).2.project = (a.chat counter c).2.project := by
  obtain ⟨p, mode, provider, metrics⟩ := a
  obtain ⟨p', mode', provider', metrics'⟩ := b
  dsimp only at hproject hmode hprovider
  subst hproject hmode hprovider
  cases mode' with
  | readOnly =>
    simp only [chat]
    cases c.retrieved with
    | error e => exact ⟨rfl, rfl⟩
    | ok hexRefs => exact ask_metrics ⟨p', .readOnly, provider', metrics⟩ c none metrics'
  | normal =>
    simp only [chat]
    generalize p'.handleTurn counter c.turn = r
    obtain ⟨e | signal, q⟩ := r
    · exact ⟨rfl, rfl⟩
    · exact ask_metrics ⟨q, .normal, provider', metrics⟩ c _ metrics'

/-- When a failed chat leaves the project as it was. -/
theorem project_chat_iff (hmode : a.mode = .normal) (hfailed : (a.chat counter c).1.Failed) :
    (a.chat counter c).2.project = a.project ↔ a.Undone counter c := by
  obtain ⟨hturned, hconfig⟩ := Project.turned_handleTurn counter a.project c.turn
  have hpins := (Project.core_handleTurn counter a.project c.turn).2.2.2.2
  obtain ⟨-, -, hcases⟩ := failed_chat_cases counter a c hmode hfailed
  rcases hcases with ⟨hnot, hproject⟩ | ⟨hanswered, hproject⟩
  · -- the clock of the turn stays
    rw [hproject]
    exact iff_of_false (fun h => hturned.ne a.project (congrArg Project.state h)) fun h =>
      hnot h.toAnswered
  · rw [hproject, Project.reopen_restore_iff hpins hconfig]
    exact ⟨fun h => ⟨hanswered, h.1, h.2⟩, fun h => ⟨h.saved, h.spared⟩⟩

/-- **Failed chats leave nothing, however many there are**, if each meets the condition. -/
theorem failed_chats_run (hmode : a.mode = .normal) (chats : List Chat)
    (h : Run.Along (fun a c => (chat counter a c).2)
      (fun a c => (chat counter a c).1.Failed ∧ a.Undone counter c) a chats) :
    let b := Run.run (fun a c => (chat counter a c).2) a chats
    b.project = a.project ∧ b.mode = a.mode ∧ b.provider = a.provider := by
  induction chats generalizing a with
  | nil => exact ⟨rfl, rfl, rfl⟩
  | cons c chats ih =>
    obtain ⟨⟨hfailed, hundone⟩, hrest⟩ := h
    obtain ⟨hmode', hprovider, -⟩ := failed_chat_cases counter a c hmode hfailed
    have hproject := (project_chat_iff counter a c hmode hfailed).mpr hundone
    obtain ⟨hp, hm, hq⟩ := ih (a.chat counter c).2 (hmode'.trans hmode) hrest
    exact ⟨hp.trans hproject, hm.trans hmode', hq.trans hprovider⟩

/-- A project that is saved, with an empty state and thresholds that every size is at. -/
def sampleEmpty : Project :=
  Project.sampleProject ⟨1, 0, [], [], [], [], [], [], [], [], [], none, none, false⟩

/-- A chat that retrieves nothing, and whose provider fails. -/
def sampleChat (message : PyStr) : Chat :=
  ⟨message, none, .ok [], .error ⟨py "ProviderUnavailable", py "x"⟩⟩

/-- **A chat that fails before it has a reply leaves no trace in the project, in memory and in its
files, if and only if** its turn returned, its failure was recorded, nothing was unsaved before
it, and its turn neither spilled to the ledger file nor wrote over an artifact.  What comes later
is then as if there had been no such chat. -/
theorem failed_chat_iff (counter : PyStr → ℤ) (a : Adapter) (c : Chat) (hmode : a.mode = .normal)
    (hfailed : (a.chat counter c).1.Failed) :
    ((a.chat counter c).2.project = a.project ↔ a.Undone counter c) ∧
    (a.Undone counter c → ∀ later : Chat,
      ((a.chat counter c).2.chat counter later).1 = (a.chat counter later).1 ∧
      ((a.chat counter c).2.chat counter later).2.project = (a.chat counter later).2.project) := by
  have hiff := project_chat_iff counter a c hmode hfailed
  obtain ⟨hmode', hprovider, -⟩ := failed_chat_cases counter a c hmode hfailed
  exact ⟨hiff, fun h later => chat_congr counter later (hiff.mpr h) hmode' hprovider⟩

/-- A chat that rotates and then fails leaves nothing of its epoch. -/
theorem failed_chat_iff_sample :
    let a : Adapter := ⟨sampleEmpty, .normal, py "mock", []⟩
    (a.chat estimateTokens (sampleChat (py "q"))).2.project = a.project := by
  intro a
  have hundone : a.Undone estimateTokens (sampleChat (py "q")) := by
    refine ⟨⟨⟨.rotate, by decide +kernel⟩, fun raised h => ?_⟩, ⟨rfl, rfl, rfl, rfl, rfl⟩, ?_, ?_⟩
    · obtain rfl := Except.error.inj h
      decide +kernel
    · decide +kernel
    · exact List.filter_eq_nil_iff.mpr fun f _ h => List.not_mem_nil (of_decide_eq_true h)
  exact (failed_chat_iff estimateTokens a (sampleChat (py "q")) rfl (by decide +kernel)).1.mpr hundone

/-- A project with a hex ref, and with a budget that no state fits. -/
def sampleTight : Project where
  config := ⟨1, 1, ⟨fun _ _ => false, fun _ _ => false, fun _ _ => true⟩, 5⟩
  hexmap := []
  pins := ⟨py "P", []⟩
  relations := []
  state := ⟨1, 0, [], [], [], [], [], [py "P.E1.H001"], [], [], [], none, none, false⟩
  disk := ⟨1, [], [], [], ⟨1, 0, [], [], [], [], [], [py "P.E1.H001"], [], [], [], none, none, false⟩,
    none, []⟩

/-- **Failed chats that leave a trace**: the message of the first does not encode, and its turn
is counted; the second spills the ledger of the state to its file. -/
theorem failed_chat_trace :
    let a : Adapter := ⟨sampleEmpty, .normal, py "mock", []⟩
    let b : Adapter := ⟨sampleTight, .normal, py "mock", []⟩
    ((a.chat estimateTokens (sampleChat [0xD800])).1.Failed ∧
      (a.chat estimateTokens (sampleChat [0xD800])).2.project.state.turn ≠ a.project.state.turn) ∧
    (b.chat estimateTokens (sampleChat (py "q"))).1.Failed ∧
      (b.chat estimateTokens (sampleChat (py "q"))).2.project.disk.ledger ≠ b.project.disk.ledger := by
  decide +kernel

end Adapter

end Hexa

end Daryl
