import Daryl.Dsm.Entry
import Daryl.Lib.Run
import Mathlib.Algebra.Order.Floor.Ring
import Mathlib.Data.Rat.Floor

/-!
# `session_graph` and `session_limits_manager`

One `SessionGraph`, the entries it gets into the `sessions` shard and the file of
its limits.  How every append ends is an argument of the call: it returns, or it
raises the `OSError` the graph catches, before or after its line is in the file.
So are the clock and whether the limits could be saved.  Of an entry the model has
its session, its source and its event type.

## Main definitions

* `canPollHome`, `canExecuteAction`, `markActionExecuted` — the limits.
* `SessionGraph.startSession`, `SessionGraph.recordSnapshot`,
  `SessionGraph.executeAction`, `SessionGraph.confirmAction`, `SessionGraph.endSession`.
* `WellBracketed` — closed blocks, and perhaps an open one at the end.
* `openSession` — the automaton that reads a log entry by entry.
* `SessionRun.Fits`, `SessionGraph.Counted` — what a call has to meet.

## Main results

* `wellBracketed_iff` — the blocks are what the automaton accepts.
* `SessionRun.good_iff` — **the log stays well bracketed exactly when every call fits.**
* `SessionRun.snapshot_without_start` — a session without its start.
* `SessionGraph.withinBudget_always` — **the intents stay within the budget where they
  are counted before the next one.**
* `SessionGraph.eleven_intents` — a run of intents that are not.
-/

namespace Daryl

open Py

/-! ### The limits -/

/-- The attributes of `SessionLimitsManager` that are read. -/
structure SessionLimits where
  homePollCooldown : ℚ
  actionCooldown : ℚ
  dailyActionBudget : ℕ

/-- What `__init__` sets. -/
def SessionLimits.default : SessionLimits := ⟨30, 120, 10⟩

/-- What `agent_defaults` sets. -/
def SessionLimits.agentDefaults : SessionLimits := { SessionLimits.default with actionCooldown := 0 }

/-- The state file. -/
structure LimitsState where
  lastHomePollTs : ℚ
  lastActionTs : ℚ
  actionsTodayCount : ℕ
  actionsTodayDate : PyStr
  skippedHomePolls : ℕ
  skippedActionsCooldown : ℕ
  skippedActionsDailyLimit : ℕ

/-- `_get_default_state`. -/
def LimitsState.default (today : PyStr) : LimitsState := ⟨0, 0, 0, today, 0, 0, 0⟩

/-- What a call reads of the clock: the seconds, and the UTC date. -/
structure Clock where
  ts : ℚ
  today : PyStr

/-- `can_poll_home`. -/
def canPollHome (limits : SessionLimits) (state : LimitsState) (now : ℚ) : Bool × ℤ :=
  let remaining := state.lastHomePollTs + limits.homePollCooldown - now
  if remaining ≤ 0 then (true, 0) else (false, ⌊remaining⌋)

/-- The actions counted for the day. -/
def LimitsState.countOn (today : PyStr) (state : LimitsState) : ℕ :=
  if state.actionsTodayDate ≠ today then 0 else state.actionsTodayCount

/-- `can_execute_action`. -/
def canExecuteAction (limits : SessionLimits) (state : LimitsState) (now : Clock) :
    Bool × Option PyStr :=
  let remaining :=
    if state.lastActionTs = 0 then 0 else state.lastActionTs + limits.actionCooldown - now.ts
  let dailyRemaining : ℤ := limits.dailyActionBudget - state.countOn now.today
  if remaining > 0 ∧ dailyRemaining > 0 then (false, some (py "cooldown"))
  else if remaining > 0 ∧ dailyRemaining ≤ 0 then (false, some (py "daily_limit"))
  else if remaining ≤ 0 ∧ dailyRemaining ≤ 0 then (false, some (py "both"))
  else (true, none)

/-- `mark_home_polled`. -/
def markHomePolled (now : ℚ) (state : LimitsState) : LimitsState :=
  { state with lastHomePollTs := now }

/-- `mark_action_executed`: the count of another day starts anew. -/
def markActionExecuted (now : Clock) (state : LimitsState) : LimitsState :=
  { state with
    actionsTodayCount := state.countOn now.today + 1
    actionsTodayDate := now.today
    lastActionTs := now.ts }

/-- `mark_home_poll_skipped`. -/
def markHomePollSkipped (state : LimitsState) : LimitsState :=
  { state with skippedHomePolls := state.skippedHomePolls + 1 }

/-- `mark_action_skipped_cooldown`; any other reason counts nothing. -/
def markActionSkippedCooldown (reason : Option PyStr) (state : LimitsState) : LimitsState :=
  if reason = some (py "cooldown") then
    { state with skippedActionsCooldown := state.skippedActionsCooldown + 1 }
  else if reason = some (py "daily_limit") then
    { state with skippedActionsDailyLimit := state.skippedActionsDailyLimit + 1 }
  else state

/-! ### The graph -/

/-- The event types of the entries of a session. -/
inductive EventType
  | sessionStart
  | snapshot
  | actionIntent
  | actionResult
  | sessionEnd
  deriving DecidableEq

/-- An entry of the `sessions` shard. -/
structure SessionEntry where
  sessionId : PyStr
  source : PyStr
  eventType : EventType
  deriving DecidableEq

/-- A `SessionGraph`, with the entries it got into the shard and the limits file. -/
structure SessionGraph where
  currentSessionId : Option PyStr
  sessionSource : Option PyStr
  written : List SessionEntry
  limitsState : LimitsState

namespace SessionGraph

/-- A new graph. -/
def opened (limitsState : LimitsState) : SessionGraph := ⟨none, none, [], limitsState⟩

/-- `storage.append`, under its `try`: the entry, or `None` for an `OSError`. -/
def append (e : SessionEntry) (a : AppendEnd) (g : SessionGraph) :
    Option SessionEntry × SessionGraph :=
  match a with
  | .written => (some e, { g with written := g.written ++ [e] })
  | .lost => (none, g)
  | .landed => (none, { g with written := g.written ++ [e] })

/-- `_load_state`, a change and `_save_state`: a file that cannot be written stays as
it is. -/
def mark (saved : Bool) (change : LimitsState → LimitsState) (g : SessionGraph) : SessionGraph :=
  { g with limitsState := if saved then change g.limitsState else g.limitsState }

/-- `self.session_source or "session_graph"`. -/
def sourceText (g : SessionGraph) : PyStr :=
  match g.sessionSource.getD [] with
  | [] => py "session_graph"
  | source => source

/-- `end_session`. -/
def endSession (a : AppendEnd) (g : SessionGraph) : Option SessionEntry × SessionGraph :=
  match g.currentSessionId with
  | none => (none, g)
  | some id =>
    match g.append ⟨id, g.sourceText, .sessionEnd⟩ a with
    | (none, g) => (none, g)
    | (some e, g) => (some e, { g with currentSessionId := none, sessionSource := none })

/-- `start_session`; `stamp` is the time and the random part of the new id.  The
session is active from before its entry is written. -/
def startSession (source stamp : PyStr) (close start : AppendEnd) (g : SessionGraph) :
    Option SessionEntry × SessionGraph :=
  let g := if g.currentSessionId.isSome then (g.endSession close).2 else g
  let id := py "session_" ++ stamp
  { g with currentSessionId := some id, sessionSource := some source }.append
    ⟨id, source, .sessionStart⟩ start

/-- `record_snapshot`; an empty id counts as no session. -/
def recordSnapshot (limits : SessionLimits) (now : Clock) (a : AppendEnd) (saved : Bool)
    (g : SessionGraph) : Option SessionEntry × SessionGraph :=
  match g.currentSessionId.getD [] with
  | [] => (none, g)
  | id =>
    if !(canPollHome limits g.limitsState now.ts).1 then
      (none, g.mark saved markHomePollSkipped)
    else
      match g.append ⟨id, g.sourceText, .snapshot⟩ a with
      | (none, g) => (none, g)
      | (some e, g) => (some e, g.mark saved (markHomePolled now.ts))

/-- `execute_action`: the intent. -/
def executeAction (limits : SessionLimits) (now : Clock) (a : AppendEnd) (saved : Bool)
    (g : SessionGraph) : Option SessionEntry × SessionGraph :=
  match g.currentSessionId with
  | none => (none, g)
  | some id =>
    let (canExecute, reason) := canExecuteAction limits g.limitsState now
    if !canExecute then (none, g.mark saved (markActionSkippedCooldown reason))
    else g.append ⟨id, py "session_graph", .actionIntent⟩ a

/-- `confirm_action`: the result, which counts the action. -/
def confirmAction (now : Clock) (a : AppendEnd) (saved : Bool) (g : SessionGraph) :
    Option SessionEntry × SessionGraph :=
  match g.currentSessionId with
  | none => (none, g)
  | some id =>
    match g.append ⟨id, py "session_graph", .actionResult⟩ a with
    | (none, g) => (none, g)
    | (some e, g) => (some e, g.mark saved (markActionExecuted now))

end SessionGraph

/-- A call on the graph. -/
inductive SessionCall
  | startSession (source stamp : PyStr) (close start : AppendEnd)
  | recordSnapshot (now : Clock) (a : AppendEnd) (saved : Bool)
  | executeAction (now : Clock) (a : AppendEnd) (saved : Bool)
  | confirmAction (now : Clock) (a : AppendEnd) (saved : Bool)
  | endSession (a : AppendEnd)

/-- One call: what it returns, and the graph it leaves. -/
def SessionGraph.perform (limits : SessionLimits) (g : SessionGraph) :
    SessionCall → Option SessionEntry × SessionGraph
  | .startSession source stamp close start => g.startSession source stamp close start
  | .recordSnapshot now a saved => g.recordSnapshot limits now a saved
  | .executeAction now a saved => g.executeAction limits now a saved
  | .confirmAction now a saved => g.confirmAction now a saved
  | .endSession a => g.endSession a

/-! ### Blocks -/

/-- A block that is not closed: a `session_start`, and entries of its session that
neither start nor end one. -/
def IsOpenBlock (id : PyStr) (b : List SessionEntry) : Prop :=
  ∃ e more, b = e :: more ∧ e.sessionId = id ∧ e.eventType = .sessionStart ∧
    ∀ d ∈ more, d.sessionId = id ∧ d.eventType ≠ .sessionStart ∧ d.eventType ≠ .sessionEnd

/-- A block that its `session_end` closes. -/
def IsClosedBlock (b : List SessionEntry) : Prop :=
  ∃ id o e, IsOpenBlock id o ∧ e.sessionId = id ∧ e.eventType = .sessionEnd ∧ b = o ++ [e]

/-- **The log is well bracketed**: closed blocks, and perhaps an open one after them. -/
def WellBracketed (log : List SessionEntry) : Prop :=
  ∃ (blocks : List (List SessionEntry)) (last : List SessionEntry),
    (∀ b ∈ blocks, IsClosedBlock b) ∧ (last = [] ∨ ∃ id, IsOpenBlock id last) ∧
      log = blocks.flatten ++ last

/-- The session that is open after one more entry; `none` for an entry that does not
fit. -/
def bracketStep : Option PyStr → SessionEntry → Option (Option PyStr)
  | none, e => if e.eventType = .sessionStart then some (some e.sessionId) else none
  | some id, e =>
    if e.sessionId ≠ id ∨ e.eventType = .sessionStart then none
    else if e.eventType = .sessionEnd then some none
    else some (some id)

/-- The session that is open at the end of the log. -/
def openSession (log : List SessionEntry) : Option (Option PyStr) := log.foldlM bracketStep none

theorem openSession_append (log : List SessionEntry) (e : SessionEntry) :
    openSession (log ++ [e]) = (openSession log).bind fun o => bracketStep o e := by
  unfold openSession
  rw [List.foldlM_append]
  cases h : log.foldlM bracketStep none with
  | none => rfl
  | some o => simp

/-- An open block leaves its session open. -/
theorem foldlM_openBlock {id : PyStr} {b : List SessionEntry} (h : IsOpenBlock id b) :
    b.foldlM bracketStep none = some (some id) := by
  obtain ⟨e, more, rfl, hid, hstart, hmore⟩ := h
  rw [List.foldlM_cons, bracketStep, if_pos hstart, hid]
  change more.foldlM bracketStep (some id) = some (some id)
  induction more with
  | nil => rfl
  | cons d more ih =>
    obtain ⟨hd, hns, hne⟩ := hmore d List.mem_cons_self
    rw [List.foldlM_cons, bracketStep, if_neg (by simp [hd, hns]), if_neg hne]
    exact ih fun c hc => hmore c (List.mem_cons_of_mem d hc)

/-- Closed blocks leave nothing open. -/
theorem foldlM_closedBlocks {blocks : List (List SessionEntry)}
    (h : ∀ b ∈ blocks, IsClosedBlock b) : blocks.flatten.foldlM bracketStep none = some none := by
  induction blocks with
  | nil => rfl
  | cons b blocks ih =>
    obtain ⟨id, o, e, ho, hid, hend, rfl⟩ := h b List.mem_cons_self
    have hb : (o ++ [e]).foldlM bracketStep none = some none := by
      rw [List.foldlM_append, foldlM_openBlock ho]
      simp [bracketStep, hid, hend]
    rw [List.flatten_cons, List.foldlM_append, hb]
    exact ih fun c hc => h c (List.mem_cons_of_mem _ hc)

/-- What the entries of a log that all fit are: closed blocks, and the open one. -/
theorem exists_blocks {log : List SessionEntry} {o : Option PyStr} (h : openSession log = some o) :
    ∃ (blocks : List (List SessionEntry)) (last : List SessionEntry),
      (∀ b ∈ blocks, IsClosedBlock b) ∧ log = blocks.flatten ++ last ∧
        match o with
        | none => last = []
        | some id => IsOpenBlock id last := by
  induction log using List.reverseRecOn generalizing o with
  | nil =>
    obtain rfl : o = none := by simpa [openSession] using h.symm
    exact ⟨[], [], by simp, rfl, rfl⟩
  | append_singleton log e ih =>
    rw [openSession_append, Option.bind_eq_some_iff] at h
    obtain ⟨o', ho', he⟩ := h
    obtain ⟨blocks, last, hblocks, rfl, hlast⟩ := ih ho'
    cases o' with
    | none =>
      -- nothing is open, so this is a start
      obtain rfl : last = [] := hlast
      simp only [bracketStep] at he
      split_ifs at he with hstart
      obtain rfl := Option.some.inj he
      refine ⟨blocks, [e], hblocks, by simp, ⟨e, [], rfl, rfl, hstart, by simp⟩⟩
    | some id =>
      simp only [bracketStep] at he
      split_ifs at he with hfits hend
      · -- the end of the block
        obtain rfl := Option.some.inj he
        obtain ⟨hid, -⟩ := not_or.mp hfits
        refine ⟨blocks ++ [last ++ [e]], [], ?_, by simp, rfl⟩
        intro b hb
        rcases List.mem_append.mp hb with hb | hb
        · exact hblocks b hb
        · obtain rfl := List.mem_singleton.mp hb
          exact ⟨id, last, e, hlast, not_not.mp hid, hend, rfl⟩
      · -- one more entry of the block
        obtain rfl := Option.some.inj he
        obtain ⟨hid, hstart⟩ := not_or.mp hfits
        obtain ⟨d, more, rfl, hd, hdstart, hmore⟩ := hlast
        refine ⟨blocks, d :: more ++ [e], hblocks, by simp, d, more ++ [e], rfl, hd, hdstart, ?_⟩
        intro c hc
        rcases List.mem_append.mp hc with hc | hc
        · exact hmore c hc
        · obtain rfl := List.mem_singleton.mp hc
          exact ⟨not_not.mp hid, hstart, hend⟩

/-- **The log is well bracketed exactly when every entry fits.** -/
theorem wellBracketed_iff {log : List SessionEntry} :
    WellBracketed log ↔ ∃ o, openSession log = some o := by
  constructor
  · rintro ⟨blocks, last, hblocks, hlast, rfl⟩
    unfold openSession
    rw [List.foldlM_append, foldlM_closedBlocks hblocks]
    rcases hlast with rfl | ⟨id, hlast⟩
    · exact ⟨none, rfl⟩
    · exact ⟨some id, foldlM_openBlock hlast⟩
  · rintro ⟨o, ho⟩
    obtain ⟨blocks, last, hblocks, rfl, hlast⟩ := exists_blocks ho
    refine ⟨blocks, last, hblocks, ?_, rfl⟩
    cases o with
    | none => exact .inl hlast
    | some id => exact .inr ⟨id, hlast⟩

/-! ### What a call writes -/

/-- The line an append leaves. -/
def AppendEnd.landing (e : SessionEntry) (a : AppendEnd) : List SessionEntry :=
  if a = .lost then [] else [e]

namespace SessionGraph

variable {limits : SessionLimits} {g : SessionGraph}

/-- An append touches the log alone, and returns the entry where it returns. -/
theorem append_eq (e : SessionEntry) (a : AppendEnd) (g : SessionGraph) :
    g.append e a = (if a = .written then some e else none,
      { g with written := g.written ++ a.landing e }) := by
  cases a <;> simp [append, AppendEnd.landing]

/-- The `session_end` of the session that is still active is in the log. -/
def EndWritten (g : SessionGraph) : Prop :=
  ∃ e, g.written.getLast? = some e ∧ e.eventType = .sessionEnd

/-- The call gets an entry of the active session into the log; `start_session` is not
asked. -/
def Lands (limits : SessionLimits) (g : SessionGraph) : SessionCall → Prop
  | .startSession .. => False
  | .recordSnapshot now a _ =>
    g.currentSessionId.getD [] ≠ [] ∧ (canPollHome limits g.limitsState now.ts).1 ∧ a ≠ .lost
  | .executeAction now a _ =>
    g.currentSessionId.isSome ∧ (canExecuteAction limits g.limitsState now).1 ∧ a ≠ .lost
  | .confirmAction _ a _ => g.currentSessionId.isSome ∧ a ≠ .lost
  | .endSession a => g.currentSessionId.isSome ∧ a ≠ .lost

/-- Calls in the middle of a session. -/
def InSession : SessionCall → Prop
  | .recordSnapshot .. | .executeAction .. | .confirmAction .. => True
  | _ => False

/-- What a call in the middle of a session does: the session stays, and an entry of it
lands or none does. -/
inductive Middle (limits : SessionLimits) (g : SessionGraph) (c : SessionCall)
    (g' : SessionGraph) : Prop
  | kept (hlands : ¬ Lands limits g c) (hcurrent : g'.currentSessionId = g.currentSessionId)
      (hwritten : g'.written = g.written)
  | landed (hlands : Lands limits g c) (hcurrent : g'.currentSessionId = g.currentSessionId)
      (e : SessionEntry) (hid : g.currentSessionId = some e.sessionId)
      (hstart : e.eventType ≠ .sessionStart) (hend : e.eventType ≠ .sessionEnd)
      (hwritten : g'.written = g.written ++ [e])

theorem middle_of_append {c : SessionCall} {e : SessionEntry} {a : AppendEnd} {g' : SessionGraph}
    (hlands : Lands limits g c ↔ a ≠ .lost) (hid : g.currentSessionId = some e.sessionId)
    (hstart : e.eventType ≠ .sessionStart) (hend : e.eventType ≠ .sessionEnd)
    (hcurrent : g'.currentSessionId = g.currentSessionId)
    (hwritten : g'.written = g.written ++ a.landing e) : Middle limits g c g' := by
  by_cases ha : a = .lost
  · refine .kept (fun h => hlands.mp h ha) hcurrent ?_
    rw [hwritten, AppendEnd.landing, if_pos ha, List.append_nil]
  · refine .landed (hlands.mpr ha) hcurrent e hid hstart hend ?_
    rw [hwritten, AppendEnd.landing, if_neg ha]

theorem perform_middle (limits : SessionLimits) (g : SessionGraph) {c : SessionCall}
    (hc : InSession c) :
    Middle limits g c (g.perform limits c).2 := by
  cases c with
  | startSession source stamp close start => exact hc.elim
  | endSession a => exact hc.elim
  | recordSnapshot now a saved =>
    unfold perform recordSnapshot
    dsimp only
    split
    · -- no session: nothing is appended
      next hid => exact .kept (fun h => h.1 hid) rfl rfl
    · next hid =>
      have hcurrent : g.currentSessionId = some (g.currentSessionId.getD []) := by
        cases hg : g.currentSessionId with
        | none => exact absurd (by rw [hg]; rfl) hid
        | some id => rfl
      -- too early to poll, or a snapshot
      cases hpoll : (canPollHome limits g.limitsState now.ts).1 with
      | false => exact .kept (fun h => absurd h.2.1 (by simp [hpoll])) rfl rfl
      | true =>
        rw [append_eq]
        refine middle_of_append (e := ⟨g.currentSessionId.getD [], g.sourceText, .snapshot⟩) (a := a)
          ⟨fun h => h.2.2, fun h => ⟨hid, hpoll, h⟩⟩ hcurrent (by simp) (by simp) ?_ ?_
        all_goals cases a <;> rfl
  | executeAction now a saved =>
    unfold perform executeAction
    dsimp only
    split
    · next hid => exact .kept (fun h => absurd h.1 (by simp [hid])) rfl rfl
    · next id hid =>
      -- no budget left, or an intent
      cases hcan : (canExecuteAction limits g.limitsState now).1 with
      | false => exact .kept (fun h => absurd h.2.1 (by simp [hcan])) rfl rfl
      | true =>
        rw [append_eq]
        exact middle_of_append (e := ⟨id, py "session_graph", .actionIntent⟩) (a := a)
          ⟨fun h => h.2.2, fun h => ⟨by simp [hid], hcan, h⟩⟩ hid (by simp) (by simp) rfl rfl
  | confirmAction now a saved =>
    unfold perform confirmAction
    dsimp only
    split
    · next hid => exact .kept (fun h => absurd h.1 (by simp [hid])) rfl rfl
    · next id hid =>
      rw [append_eq]
      refine middle_of_append (e := ⟨id, py "session_graph", .actionResult⟩) (a := a)
        ⟨fun h => h.2, fun h => ⟨by simp [hid], h⟩⟩ hid (by simp) (by simp) ?_ ?_
      all_goals cases a <;> rfl

/-- The `session_end` of the active session. -/
def endEntry (g : SessionGraph) (id : PyStr) : SessionEntry := ⟨id, g.sourceText, .sessionEnd⟩

theorem endSession_of_none (h : g.currentSessionId = none) (a : AppendEnd) :
    g.endSession a = (none, g) := by
  simp [endSession, h]

/-- An `end_session` writes the end, and forgets the session where the append returns. -/
theorem endSession_of_some {id : PyStr} (h : g.currentSessionId = some id) (a : AppendEnd) :
    (g.endSession a).2.written = g.written ++ a.landing (g.endEntry id) ∧
      (g.endSession a).2.currentSessionId = if a = .written then none else some id := by
  simp only [endSession, h, append_eq]
  cases a <;> simp [endEntry]

/-- What `start_session` writes: the end of an active session, and the start. -/
theorem written_startSession (source stamp : PyStr) (close start : AppendEnd) :
    (g.startSession source stamp close start).2.written
      = g.written ++ (g.currentSessionId.elim [] fun id => close.landing (g.endEntry id)) ++
        start.landing ⟨py "session_" ++ stamp, source, .sessionStart⟩ := by
  unfold startSession
  rw [append_eq]
  cases h : g.currentSessionId with
  | none => simp
  | some id => simp [(endSession_of_some h close).1]

theorem startSession_fst (source stamp : PyStr) (close start : AppendEnd) :
    (g.startSession source stamp close start).1.isNone = decide (start ≠ .written) := by
  unfold startSession
  rw [append_eq]
  cases start <;> rfl

theorem currentSessionId_startSession (source stamp : PyStr) (close start : AppendEnd) :
    (g.startSession source stamp close start).2.currentSessionId
      = some (py "session_" ++ stamp) := by
  unfold startSession
  rw [append_eq]

end SessionGraph

/-! ### Runs -/

/-- A graph, and whether the last call was a `start_session` that returned `None`. -/
structure SessionRun where
  graph : SessionGraph
  failedStart : Bool

/-- The call is a `start_session`. -/
def SessionCall.isStart : SessionCall → Bool
  | startSession .. => true
  | _ => false

namespace SessionRun

/-- A new graph. -/
def opened (limitsState : LimitsState) : SessionRun := ⟨SessionGraph.opened limitsState, false⟩

/-- One call. -/
def step (limits : SessionLimits) (s : SessionRun) (c : SessionCall) : SessionRun :=
  ⟨(s.graph.perform limits c).2, c.isStart && (s.graph.perform limits c).1.isNone⟩

/-- **The log is well bracketed, and a `start_session` that returned `None` leaves no
active session.** -/
def Good (s : SessionRun) : Prop :=
  WellBracketed s.graph.written ∧ (s.failedStart = true → s.graph.currentSessionId = none)

/-- What keeps the log well bracketed: a `session_start` is written; the session that
was active gets one `session_end`; and nothing is written for it after that. -/
def Fits (limits : SessionLimits) (s : SessionRun) : SessionCall → Prop
  | .startSession _ _ close start =>
    start = .written ∧ (s.graph.currentSessionId.isSome → (close = .lost ↔ s.graph.EndWritten))
  | c => s.graph.Lands limits c → ¬ s.graph.EndWritten

/-- The graph knows the session that is open in the log, unless that has been ended
by an append that raised. -/
inductive Tracks (g : SessionGraph) : Prop
  | same (hopen : openSession g.written = some g.currentSessionId)
  | ended (hactive : g.currentSessionId.isSome) (hopen : openSession g.written = some none)
      (hend : g.EndWritten)

/-- Where a session is open, the last entry is no end. -/
theorem not_endWritten {g : SessionGraph} {id : PyStr} (h : openSession g.written = some (some id)) :
    ¬ g.EndWritten := by
  rintro ⟨e, hlast, hend⟩
  obtain ⟨log, hlog⟩ := List.getLast?_eq_some_iff.mp hlast
  rw [hlog, openSession_append, Option.bind_eq_some_iff] at h
  obtain ⟨o, -, ho⟩ := h
  cases o with
  | none => simp [bracketStep, hend] at ho
  | some id' =>
    simp only [bracketStep] at ho
    split_ifs at ho
    simp at ho

theorem wellBracketed_append {log : List SessionEntry} {o : Option PyStr}
    (h : openSession log = some o) (e : SessionEntry) :
    WellBracketed (log ++ [e]) ↔ ∃ o', bracketStep o e = some o' := by
  rw [wellBracketed_iff, openSession_append, h, Option.bind_some]

/-- An entry of a session that does not start one fits where the session is open. -/
theorem bracketStep_eq_some {o : Option PyStr} {e : SessionEntry} (hstart : e.eventType ≠ .sessionStart) :
    (∃ o', bracketStep o e = some o') ↔ o = some e.sessionId := by
  cases o with
  | none => simp [bracketStep, hstart]
  | some id =>
    simp only [bracketStep, hstart, or_false, Option.some.injEq]
    by_cases hid : e.sessionId = id
    · rw [if_neg (not_not.mpr hid)]
      split_ifs <;> simp [hid]
    · rw [if_pos hid]
      simpa using Ne.symm hid

variable {limits : SessionLimits} {s : SessionRun} {c : SessionCall}

/-- An entry of the active session lands well where the session has not been ended. -/
theorem Tracks.append {g : SessionGraph} (h : Tracks g) {e : SessionEntry}
    (hid : g.currentSessionId = some e.sessionId) (hstart : e.eventType ≠ .sessionStart) :
    WellBracketed (g.written ++ [e]) ↔ ¬ g.EndWritten := by
  cases h with
  | same hopen =>
    rw [wellBracketed_append hopen, bracketStep_eq_some hstart]
    exact iff_of_true hid (not_endWritten (hid ▸ hopen))
  | ended hactive hopen hend =>
    rw [wellBracketed_append hopen, bracketStep_eq_some hstart]
    exact iff_of_false (by simp) (not_not.mpr hend)

/-- A start fits where nothing is open. -/
theorem wellBracketed_start {log : List SessionEntry} {e : SessionEntry}
    (hstart : e.eventType = .sessionStart) :
    WellBracketed (log ++ [e]) ↔ openSession log = some none := by
  rw [wellBracketed_iff, openSession_append]
  rcases openSession log with _ | _ | id
  · simp
  · simp [bracketStep, hstart]
  · simp [bracketStep, hstart]

/-- Nothing is open after the close of `start_session` where the active session gets
its one end. -/
theorem Tracks.openSession_close {g : SessionGraph} (h : Tracks g) (close : AppendEnd) :
    openSession (g.written ++ g.currentSessionId.elim [] fun id => close.landing (g.endEntry id))
        = some none ↔
      (g.currentSessionId.isSome → (close = .lost ↔ g.EndWritten)) := by
  cases h with
  | same hopen =>
    cases hid : g.currentSessionId with
    | none => simp [hopen, hid]
    | some id =>
      rw [hid] at hopen
      have hnot := not_endWritten hopen
      by_cases hclose : close = .lost
      · simp [AppendEnd.landing, hclose, hopen, hnot]
      · simp [AppendEnd.landing, hclose, hnot, openSession_append, hopen, bracketStep,
          SessionGraph.endEntry]
  | ended hactive hopen hend =>
    obtain ⟨id, hid⟩ := Option.isSome_iff_exists.mp hactive
    by_cases hclose : close = .lost
    · simp [hid, AppendEnd.landing, hclose, hopen, hend]
    · simp [hid, AppendEnd.landing, hclose, hend, openSession_append, hopen, bracketStep,
        SessionGraph.endEntry]

/-- **One call keeps the run good exactly when it fits.** -/
theorem good_step (htracks : Tracks s.graph) (hgood : s.Good) :
    (s.step limits c).Good ↔ s.Fits limits c := by
  have hmiddle : SessionGraph.InSession c →
      ((s.step limits c).Good ↔ (s.graph.Lands limits c → ¬ s.graph.EndWritten)) := by
    intro hc
    have hstart : c.isStart = false := by
      cases c with
      | startSession source stamp close start => exact hc.elim
      | _ => rfl
    unfold Good step
    rw [hstart, Bool.false_and, and_iff_left (by simp)]
    cases s.graph.perform_middle limits hc with
    | kept hlands hcurrent hwritten =>
      rw [hwritten]
      exact iff_of_true hgood.1 fun h => absurd h hlands
    | landed hlands hcurrent e hid hstart hend hwritten =>
      rw [hwritten, htracks.append hid hstart]
      exact ⟨fun h _ => h, fun h => h hlands⟩
  cases c with
  | startSession source stamp close start =>
    have hgraph : (s.step limits (.startSession source stamp close start)).graph
        = (s.graph.startSession source stamp close start).2 := rfl
    have hfailed : (s.step limits (.startSession source stamp close start)).failedStart
        = decide (start ≠ .written) := SessionGraph.startSession_fst source stamp close start
    have hfits : s.Fits limits (.startSession source stamp close start) ↔ start = .written ∧
        (s.graph.currentSessionId.isSome → (close = .lost ↔ s.graph.EndWritten)) := Iff.rfl
    unfold Good
    rw [hfits, hgraph, hfailed, SessionGraph.written_startSession,
      SessionGraph.currentSessionId_startSession, ← htracks.openSession_close close]
    by_cases hstart : start = .written
    · -- the start is in the log, and the call returned
      rw [hstart, AppendEnd.landing, if_neg (by simp), wellBracketed_start rfl]
      simp
    · exact iff_of_false (fun h => by simpa [hstart] using h.2) fun h => hstart h.1
  | recordSnapshot now a saved => exact hmiddle trivial
  | executeAction now a saved => exact hmiddle trivial
  | confirmAction now a saved => exact hmiddle trivial
  | endSession a =>
    have hgraph : (s.step limits (.endSession a)).graph = (s.graph.endSession a).2 := rfl
    have hfailed : (s.step limits (.endSession a)).failedStart = false := rfl
    have hfits : s.Fits limits (.endSession a) ↔
        (s.graph.currentSessionId.isSome ∧ a ≠ .lost → ¬ s.graph.EndWritten) := Iff.rfl
    unfold Good
    rw [hfits, hgraph, hfailed, and_iff_left (by simp)]
    cases hid : s.graph.currentSessionId with
    | none =>
      rw [SessionGraph.endSession_of_none hid]
      exact iff_of_true hgood.1 (by simp)
    | some id =>
      rw [(SessionGraph.endSession_of_some hid a).1]
      by_cases ha : a = .lost
      · simpa [AppendEnd.landing, ha] using hgood.1
      · have happend := htracks.append (e := s.graph.endEntry id) hid
          (by simp [SessionGraph.endEntry])
        simpa [AppendEnd.landing, ha] using happend

/-- A graph that fits goes on tracking its log. -/
theorem tracks_step (htracks : Tracks s.graph) (hfits : s.Fits limits c) :
    Tracks (s.step limits c).graph := by
  have hmiddle : SessionGraph.InSession c → (s.graph.Lands limits c → ¬ s.graph.EndWritten) →
      Tracks (s.step limits c).graph := by
    intro hc hfits
    unfold step
    cases s.graph.perform_middle limits hc with
    | kept hlands hcurrent hwritten =>
      cases htracks with
      | same hopen => exact .same (by rw [hwritten, hcurrent, hopen])
      | ended hactive hopen hend =>
        refine .ended (by rw [hcurrent, hactive]) (by rw [hwritten, hopen]) ?_
        unfold SessionGraph.EndWritten
        rwa [hwritten]
    | landed hlands hcurrent e hid hstart hend hwritten =>
      cases htracks with
      | same hopen =>
        refine .same ?_
        rw [hwritten, hcurrent, openSession_append, hopen, hid]
        simp [bracketStep, hstart, hend]
      | ended hactive hopen hended => exact absurd hended (hfits hlands)
  cases c with
  | startSession source stamp close start =>
    have hgraph : (s.step limits (.startSession source stamp close start)).graph
        = (s.graph.startSession source stamp close start).2 := rfl
    refine .same ?_
    rw [hgraph, SessionGraph.written_startSession, SessionGraph.currentSessionId_startSession,
      hfits.1, AppendEnd.landing, if_neg (by simp), openSession_append,
      (htracks.openSession_close close).mpr hfits.2]
    simp [bracketStep]
  | recordSnapshot now a saved => exact hmiddle trivial hfits
  | executeAction now a saved => exact hmiddle trivial hfits
  | confirmAction now a saved => exact hmiddle trivial hfits
  | endSession a =>
    have hgraph : (s.step limits (.endSession a)).graph = (s.graph.endSession a).2 := rfl
    rw [hgraph]
    cases hid : s.graph.currentSessionId with
    | none => rwa [SessionGraph.endSession_of_none hid]
    | some id =>
      obtain ⟨hwritten, hcurrent⟩ := SessionGraph.endSession_of_some hid a
      by_cases ha : a = .lost
      · have hkept : (s.graph.endSession a).2 = s.graph := by
          simp [SessionGraph.endSession, hid, ha, SessionGraph.append]
        rwa [hkept]
      · -- the end is in the log, and the graph may not know
        have hopen : openSession s.graph.written = some (some id) := by
          have hnot : ¬ s.graph.EndWritten := hfits ⟨by simp [hid], ha⟩
          cases htracks with
          | same hopen => rw [hopen, hid]
          | ended hactive hopen hend => exact absurd hend hnot
        rw [AppendEnd.landing, if_neg ha] at hwritten
        have hclosed : openSession (s.graph.endSession a).2.written = some none := by
          rw [hwritten, openSession_append, hopen]
          simp [bracketStep, SessionGraph.endEntry]
        by_cases hw : a = .written
        · exact .same (by rw [hclosed, hcurrent, if_pos hw])
        · refine .ended (by rw [hcurrent, if_neg hw]; rfl) hclosed ⟨s.graph.endEntry id, ?_, rfl⟩
          rw [hwritten, List.getLast?_concat]

/-- **The log stays well bracketed exactly when every call fits.** -/
theorem good_iff (limits : SessionLimits) (limitsState : LimitsState) (calls : List SessionCall) :
    Run.Always (step limits) Good (opened limitsState) calls ↔
      Run.Along (step limits) (Fits limits) (opened limitsState) calls :=
  Run.always_iff_along (Q := fun s => Tracks s.graph) (fun _ _ h _ hfits => tracks_step h hfits)
    (fun _ _ h hgood => good_step h hgood) (.same rfl)
    ⟨⟨[], [], by simp, .inl rfl, rfl⟩, by simp [opened]⟩

/-- A session starts on a full disk, and a snapshot follows. -/
theorem snapshot_without_start :
    ¬ WellBracketed (Run.run (step .default) (opened (.default (py "2026-01-02")))
        [.startSession (py "manual") (py "1") .written .lost,
          .recordSnapshot ⟨1000, py "2026-01-02"⟩ .written true]).graph.written := by
  rw [wellBracketed_iff, ← Option.isSome_iff_exists]
  decide +kernel

end SessionRun

/-! ### The budget of a day -/

namespace SessionGraph

/-- The intents in the log. -/
def intents (g : SessionGraph) : ℕ := g.written.countP fun e => e.eventType = .actionIntent

/-- **The log has no more intents than the budget of a day.** -/
def WithinBudget (limits : SessionLimits) (g : SessionGraph) : Prop :=
  g.intents ≤ limits.dailyActionBudget

/-- An action that goes through comes when all the intents before it are counted. -/
def Counted (limits : SessionLimits) (g : SessionGraph) : SessionCall → Prop
  | .executeAction now a saved =>
    g.Lands limits (.executeAction now a saved) → g.intents ≤ g.limitsState.countOn now.today
  | _ => True

variable {limits : SessionLimits} {g : SessionGraph}

/-- An action that is let through leaves room in the budget, as far as it is counted. -/
theorem countOn_lt {state : LimitsState} {now : Clock} (h : (canExecuteAction limits state now).1) :
    state.countOn now.today < limits.dailyActionBudget := by
  unfold canExecuteAction at h
  by_contra hle
  have hremaining : (limits.dailyActionBudget : ℤ) - state.countOn now.today ≤ 0 := by omega
  simp only [hremaining, not_lt.mpr hremaining, and_false, if_false, and_true] at h
  split_ifs at h <;> simp_all

theorem intents_append (e : SessionEntry) (a : AppendEnd) (g : SessionGraph) :
    (g.append e a).2.intents
      = g.intents + if a ≠ .lost ∧ e.eventType = .actionIntent then 1 else 0 := by
  rw [append_eq, intents, intents, List.countP_append]
  cases a <;> simp [AppendEnd.landing, List.countP_singleton]

theorem intents_endSession (a : AppendEnd) (g : SessionGraph) :
    (g.endSession a).2.intents = g.intents := by
  cases hid : g.currentSessionId with
  | none => rw [endSession_of_none hid]
  | some id =>
    rw [intents, (endSession_of_some hid a).1, List.countP_append, intents]
    cases a <;> simp [AppendEnd.landing, endEntry]

/-- Only an intent that lands is one more intent. -/
theorem intents_perform (limits : SessionLimits) (g : SessionGraph) (c : SessionCall) :
    (g.perform limits c).2.intents = g.intents ∨
      ∃ now a saved, c = .executeAction now a saved ∧ g.Lands limits c ∧
        (g.perform limits c).2.intents = g.intents + 1 := by
  cases c with
  | startSession source stamp close start =>
    left
    unfold perform startSession
    rw [intents_append]
    split_ifs with hactive h
    · simp at h
    · exact intents_endSession close g
    · simp_all
    · rfl
  | recordSnapshot now a saved =>
    left
    unfold perform recordSnapshot
    dsimp only
    split
    · rfl
    · split_ifs
      · rfl
      · rw [append_eq]
        cases a <;> simp [intents, AppendEnd.landing, mark]
  | executeAction now a saved =>
    unfold perform executeAction
    dsimp only
    split
    · exact .inl rfl
    · next id hid =>
      cases hcan : (canExecuteAction limits g.limitsState now).1 with
      | false => exact .inl rfl
      | true =>
        -- the intent is appended, and may be lost
        by_cases ha : a = .lost
        · left
          simp [append, ha]
        · right
          refine ⟨now, a, saved, rfl, ⟨by simp [hid], hcan, ha⟩, ?_⟩
          simp [intents_append, ha]
  | confirmAction now a saved =>
    left
    unfold perform confirmAction
    dsimp only
    split
    · rfl
    · rw [append_eq]
      cases a <;> simp [intents, AppendEnd.landing, mark]
  | endSession a => exact .inl (intents_endSession a g)

/-- **A call keeps the log within the budget, where the intents are counted.** -/
theorem withinBudget_step {c : SessionCall} (h : g.WithinBudget limits) (hc : g.Counted limits c) :
    (g.perform limits c).2.WithinBudget limits := by
  unfold WithinBudget
  rcases intents_perform limits g c with hkept | ⟨now, a, saved, rfl, hlands, hmore⟩
  · rw [hkept]
    exact h
  · have hcounted := hc hlands
    have hroom := countOn_lt hlands.2.1
    omega

/-- **The intents of a day stay within the budget** in every run in which an action is
let through only when all the intents before it are counted. -/
theorem withinBudget_always (limits : SessionLimits) (limitsState : LimitsState)
    {calls : List SessionCall}
    (h : Run.Along (fun g c => (perform limits g c).2) (Counted limits) (opened limitsState) calls) :
    Run.Always (fun g c => (perform limits g c).2) (WithinBudget limits) (opened limitsState) calls :=
  Run.always_of_along (fun _ _ hg hc => withinBudget_step hg hc) (Nat.zero_le _) h

/-- Two actions, each confirmed before the next. -/
theorem withinBudget_confirmed :
    Run.Always (fun g c => (perform .agentDefaults g c).2) (WithinBudget .agentDefaults)
      (opened (.default (py "2026-01-02")))
      [.startSession (py "manual") (py "1") .written .written,
        .executeAction ⟨1000, py "2026-01-02"⟩ .written true,
        .confirmAction ⟨1001, py "2026-01-02"⟩ .written true,
        .executeAction ⟨1002, py "2026-01-02"⟩ .written true] :=
  withinBudget_always .agentDefaults (.default (py "2026-01-02"))
    ⟨trivial, fun _ => by decide +kernel, trivial, fun _ => by decide +kernel, trivial⟩

/-- Eleven actions in a row, of which none is confirmed. -/
theorem eleven_intents :
    ¬ WithinBudget .default (Run.run (fun g c => (perform .default g c).2)
      (opened (.default (py "2026-01-02")))
      (.startSession (py "manual") (py "1") .written .written ::
        List.replicate 11 (.executeAction ⟨1000, py "2026-01-02"⟩ .written true))) := by
  unfold WithinBudget
  decide +kernel

end SessionGraph

end Daryl
