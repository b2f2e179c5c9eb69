import Daryl.Mvx.Schemas
import Daryl.Lib.Run

/-!
# `multiversx.state_machine` and `multiversx.audit`

The anchor state machine takes a state, an event and a regime to the next state and the
entry to append; the auditor reads a verdict off the entries of one anchor.

## Main definitions

* `AnchorTransitionEvent`, `nextState` — the events and the machine.
* `verifyAnchorChain` — the auditor.
* `Leads` — which entry goes with which change of state.
* `RoundTrip`, `advance` — an anchor with the entries emitted for it, and one event.

## Main results

* `leads_of_nextState` — **everything a step can do.**
* `consistent_run` — the entries of any run end where its state says.
* `verdict_iff` — the verdict on entries, from what they record.
* `audit_refines_stateMachine` — **the auditor's verdict is the state machine's state.**
-/

namespace Daryl

open Py

namespace Mvx

/-! ### Events -/

/-- `SubmitEvent`. -/
structure SubmitEvent where
  intentId : Uuid
  txHash : PyStr
  submittedAtMs : ℤ
  senderNonce : ℤ
  gasLimit : ℤ
  gasPrice : ℤ
  deriving DecidableEq

/-- `IncludeEvent`. -/
structure IncludeEvent where
  intentId : Uuid
  txHash : PyStr
  blockNonce : ℤ
  blockHash : PyStr
  shard : ℤ
  headerTimeMs : ℤ
  consensusProofObservedAtMs : ℤ
  deriving DecidableEq

/-- `ExecSuccessEvent`. -/
structure ExecSuccessEvent where
  intentId : Uuid
  executedInBlockNonce : ℤ
  executionResultHash : PyStr
  gasUsed : ℤ
  developerFees : PyStr
  settledAtMs : ℤ
  schemaPathUsed : PyStr
  deriving DecidableEq

/-- `ExecFailEvent`. -/
structure ExecFailEvent where
  intentId : Uuid
  reason : PyStr
  gasUsed : ℤ
  returnMessage : PyStr
  failedInBlockNonce : ℤ
  deriving DecidableEq

/-- `RejectEvent`. -/
structure RejectEvent where
  intentId : Uuid
  httpStatus : ℤ
  proxyErrorMessage : PyStr
  retryEligible : Bool
  deriving DecidableEq

/-- `T1TimeoutEvent` and `T3TimeoutEvent`, which have the same fields. -/
structure TimeoutEvent where
  intentId : Uuid
  txHash : PyStr
  elapsedMs : ℤ
  lastObservedBlockNonce : Option ℤ
  deriving DecidableEq

/-- `StuckTimeoutEvent`. -/
structure StuckTimeoutEvent where
  intentId : Uuid
  txHash : Option PyStr
  elapsedMs : ℤ
  deriving DecidableEq

/-- `AnchorTransitionEvent`. -/
inductive AnchorTransitionEvent
  | submit (e : SubmitEvent)
  | include (e : IncludeEvent)
  | execSuccess (e : ExecSuccessEvent)
  | execFail (e : ExecFailEvent)
  | reject (e : RejectEvent)
  | t1Timeout (e : TimeoutEvent)
  | t3Timeout (e : TimeoutEvent)
  | stuckTimeout (e : StuckTimeoutEvent)
  deriving DecidableEq

/-- The class of an event. -/
inductive EventType
  | submit
  | include
  | execSuccess
  | execFail
  | reject
  | t1Timeout
  | t3Timeout
  | stuckTimeout
  deriving DecidableEq, Repr

/-- `type(event)`. -/
def AnchorTransitionEvent.type : AnchorTransitionEvent → EventType
  | .submit _ => .submit
  | .include _ => .include
  | .execSuccess _ => .execSuccess
  | .execFail _ => .execFail
  | .reject _ => .reject
  | .t1Timeout _ => .t1Timeout
  | .t3Timeout _ => .t3Timeout
  | .stuckTimeout _ => .stuckTimeout

/-! ### The state machine -/

/-- `TransitionResult`. -/
structure TransitionResult where
  newState : AnchorState
  entryToEmit : AnchorLogEntry
  deriving DecidableEq

/-- What a step raises: `InvalidTransition`, for a pair without a handler or for a late
timeout where there is none, or the `ValidationError` of the entry. -/
inductive TransitionError
  | invalidTransition (state : AnchorState) (event : EventType)
  | t3UnderAndromeda
  | validationError (errors : List FieldError)
  deriving DecidableEq

/-- A handler's outcome: the new state with its entry, if the entry validates. -/
def emit (newState : AnchorState) : Checked AnchorLogEntry →
    Except TransitionError TransitionResult
  | .ok entry => .ok ⟨newState, entry⟩
  | .failed errors => .error (.validationError errors)

/-- The entry of a submission. -/
def submittedEntry (event : SubmitEvent) : Checked AnchorLogEntry :=
  .submitted <$> (AnchorSubmittedEntry.mk event.intentId <$> strNonempty (py "tx_hash") event.txHash
    <*> nonNeg (py "submitted_at_ms") event.submittedAtMs
    <*> nonNeg (py "sender_nonce") event.senderNonce
    <*> nonNeg (py "gas_limit") event.gasLimit <*> nonNeg (py "gas_price") event.gasPrice)

/-- The entry of an inclusion. -/
def includedEntry (event : IncludeEvent) : Checked AnchorLogEntry :=
  .included <$> (AnchorIncludedEntry.mk event.intentId <$> str (py "tx_hash") event.txHash
    <*> nonNeg (py "block_nonce") event.blockNonce <*> str (py "block_hash") event.blockHash
    <*> nonNeg (py "shard") event.shard <*> nonNeg (py "header_time_ms") event.headerTimeMs
    <*> nonNeg (py "consensus_proof_observed_at_ms") event.consensusProofObservedAtMs)

/-- The entry of a timeout. -/
def timedOutEntry (event : TimeoutEvent) (timeoutPhase : TimeoutPhase) : Checked AnchorLogEntry :=
  .timedOut <$> (AnchorTimedOutEntry.mk event.intentId <$> str (py "tx_hash") event.txHash
    <*> nonNeg (py "elapsed_ms") event.elapsedMs <*> pure event.lastObservedBlockNonce
    <*> pure timeoutPhase)

/-- The entry of an alarm. -/
def stuckEntry (event : StuckTimeoutEvent) : Checked AnchorLogEntry :=
  .stuck <$> (AnchorStuckEntry.mk event.intentId <$> optStr (py "tx_hash") event.txHash
    <*> nonNeg (py "elapsed_ms") event.elapsedMs)

/-- The entry of a success. -/
def settledEntry (event : ExecSuccessEvent) : Checked AnchorLogEntry :=
  .settled <$> (AnchorSettledEntry.mk event.intentId
    <$> nonNeg (py "executed_in_block_nonce") event.executedInBlockNonce
    <*> some <$> str (py "execution_result_hash") event.executionResultHash
    <*> nonNeg (py "gas_used") event.gasUsed <*> str (py "developer_fees") event.developerFees
    <*> nonNeg (py "settled_at_ms") event.settledAtMs
    <*> some <$> schemaPathUsed event.schemaPathUsed)

/-- The entry of a failure. -/
def failedEntry (event : ExecFailEvent) : Checked AnchorLogEntry :=
  .failed <$> (AnchorFailedEntry.mk event.intentId <$> str (py "reason") event.reason
    <*> some <$> nonNeg (py "gas_used") event.gasUsed
    <*> str (py "return_message") event.returnMessage
    <*> some <$> nonNeg (py "failed_in_block_nonce") event.failedInBlockNonce)

/-- The entry of a rejection. -/
def rejectedEntry (event : RejectEvent) : Checked AnchorLogEntry :=
  .rejected <$> (AnchorRejectedEntry.mk event.intentId <$> httpStatus event.httpStatus
    <*> str (py "proxy_error_message") event.proxyErrorMessage <*> pure event.retryEligible)

/-- `_from_included_t3_timeout`. -/
def fromIncludedT3Timeout (event : TimeoutEvent) :
    EpochRegime → Except TransitionError TransitionResult
  | .andromeda => .error .t3UnderAndromeda
  | .supernova => emit .timedOut (timedOutEntry event .t3Settlement)

/-- `_DISPATCH`: the handlers by state and event, a terminal state having none. -/
def dispatch : AnchorState → AnchorTransitionEvent →
    Option (EpochRegime → Except TransitionError TransitionResult)
  | .intentLogged, .submit e => some fun _ => emit .submitted (submittedEntry e)
  | .submitted, .include e => some fun _ => emit .included (includedEntry e)
  | .submitted, .reject e => some fun _ => emit .rejected (rejectedEntry e)
  | .submitted, .t1Timeout e => some fun _ => emit .timedOut (timedOutEntry e .t1Inclusion)
  | .submitted, .stuckTimeout e => some fun _ => emit .stuck (stuckEntry e)
  | .included, .execSuccess e => some fun _ => emit .settled (settledEntry e)
  | .included, .execFail e => some fun _ => emit .failed (failedEntry e)
  | .included, .t3Timeout e => some (fromIncludedT3Timeout e)
  | .included, .stuckTimeout e => some fun _ => emit .stuck (stuckEntry e)
  | .timedOut, .submit e => some fun _ => emit .submitted (submittedEntry e)
  | _, _ => none

/-- `next_state`. -/
def nextState (current : AnchorState) (event : AnchorTransitionEvent) (regime : EpochRegime) :
    Except TransitionError TransitionResult :=
  match dispatch current event with
  | none => .error (.invalidTransition current event.type)
  | some handler => handler regime

/-- `is_terminal`. -/
def isTerminal (state : AnchorState) : Bool :=
  state = .settled || state = .failed || state = .rejected

/-- `initial_state`. -/
def initialState : AnchorState := .intentLogged

/-! ### The auditor -/

/-- `VerifyResult.verdict`. -/
inductive Verdict
  | ok
  | mismatch
  | notFound
  | executionFailed
  | pending
  deriving DecidableEq, Repr

/-- `VerifyResult`. -/
structure VerifyResult where
  intentId : Uuid
  verdict : Verdict
  checks : List (PyStr × Bool)
  notes : List PyStr
  deriving DecidableEq

namespace AnchorLogEntry

/-- `isinstance(e, AnchorIncludedEntry)`. -/
def isIncluded : AnchorLogEntry → Bool
  | .included _ => true
  | _ => false

/-- `isinstance(e, AnchorSettledEntry)`. -/
def isSettled : AnchorLogEntry → Bool
  | .settled _ => true
  | _ => false

/-- `isinstance(e, AnchorFailedEntry)`. -/
def isFailed : AnchorLogEntry → Bool
  | .failed _ => true
  | _ => false

/-- `isinstance(e, AnchorRejectedEntry)`. -/
def isRejected : AnchorLogEntry → Bool
  | .rejected _ => true
  | _ => false

/-- `isinstance(e, AnchorTimedOutEntry)`. -/
def isTimedOut : AnchorLogEntry → Bool
  | .timedOut _ => true
  | _ => false

/-- `isinstance(e, AnchorStuckEntry)`. -/
def isStuck : AnchorLogEntry → Bool
  | .stuck _ => true
  | _ => false

end AnchorLogEntry

/-- `_chain_intent_id`. -/
def chainIntentId (entries : List AnchorLogEntry) : Uuid :=
  (entries.head?.map AnchorLogEntry.intentId).getD Uuid.zero

/-- `verify_anchor_chain`. -/
def verifyAnchorChain (entries : List AnchorLogEntry) : VerifyResult :=
  let hasIncluded := entries.any AnchorLogEntry.isIncluded
  let hasSettled := entries.any AnchorLogEntry.isSettled
  let hasFailed := entries.any AnchorLogEntry.isFailed
  let hasRejected := entries.any AnchorLogEntry.isRejected
  let hasTimedOut := entries.any AnchorLogEntry.isTimedOut
  let hasStuck := entries.any AnchorLogEntry.isStuck
  let intentId := chainIntentId entries
  let checks := [(py "included_observed", hasIncluded), (py "settled_observed", hasSettled),
    (py "failed_observed", hasFailed), (py "rejected_observed", hasRejected),
    (py "timed_out_observed", hasTimedOut), (py "stuck_observed", hasStuck)]
  if hasFailed && hasSettled then
    ⟨intentId, .executionFailed, checks,
      [py "chain contains BOTH AnchorSettledEntry and AnchorFailedEntry; reporting execution_failed (most audit-safe interpretation)"]⟩
  else if hasFailed || hasRejected then ⟨intentId, .executionFailed, checks, []⟩
  else if hasSettled then ⟨intentId, .ok, checks, []⟩
  else if hasIncluded || hasTimedOut || hasStuck then ⟨intentId, .pending, checks, []⟩
  else ⟨intentId, .notFound, checks, []⟩

/-! ### What a step can do -/

/-- Which entry goes with which change of state. -/
inductive Leads : AnchorState → AnchorLogEntry → AnchorState → Prop
  | submit (e) : Leads .intentLogged (.submitted e) .submitted
  | resubmit (e) : Leads .timedOut (.submitted e) .submitted
  | include (e) : Leads .submitted (.included e) .included
  | reject (e) : Leads .submitted (.rejected e) .rejected
  | t1Timeout (e) : Leads .submitted (.timedOut e) .timedOut
  | stuckBefore (e) : Leads .submitted (.stuck e) .stuck
  | settle (e) : Leads .included (.settled e) .settled
  | fail (e) : Leads .included (.failed e) .failed
  | t3Timeout (e) : Leads .included (.timedOut e) .timedOut
  | stuckAfter (e) : Leads .included (.stuck e) .stuck

theorem emit_eq_ok {state : AnchorState} {entry : Checked AnchorLogEntry}
    {result : TransitionResult} :
    emit state entry = .ok result ↔ entry = .ok result.entryToEmit ∧ result.newState = state := by
  obtain ⟨newState, emitted⟩ := result
  cases entry with
  | ok e => simp [emit, and_comm, eq_comm]
  | failed es => simp [emit]

/-- **Everything a step can do.** -/
theorem leads_of_nextState {s : AnchorState} {event : AnchorTransitionEvent} {regime : EpochRegime}
    {result : TransitionResult} (h : nextState s event regime = .ok result) :
    Leads s result.entryToEmit result.newState := by
  obtain ⟨t, entry⟩ := result
  unfold nextState at h
  split at h
  · cases h
  next handler hdispatch =>
  unfold dispatch at hdispatch
  split at hdispatch <;> cases hdispatch
  case h_8 e =>
    -- the one handler that asks for the regime
    cases regime
    · cases h
    · obtain ⟨hentry, rfl⟩ := emit_eq_ok.mp h
      obtain ⟨e, -, rfl⟩ := Validated.map_eq_ok.mp hentry
      exact .t3Timeout e
  all_goals
    obtain ⟨hentry, rfl⟩ := emit_eq_ok.mp h
    obtain ⟨e, -, rfl⟩ := Validated.map_eq_ok.mp hentry
    constructor

/-- The terminal state an entry records. -/
def AnchorLogEntry.outcome : AnchorLogEntry → Option AnchorState
  | .settled _ => some .settled
  | .failed _ => some .failed
  | .rejected _ => some .rejected
  | _ => none

/-- A step starts outside the terminal states, and its entry records the terminal state
it leads to, if it leads to one. -/
theorem Leads.outcome {s t : AnchorState} {e : AnchorLogEntry} (h : Leads s e t) :
    isTerminal s = false ∧ e.outcome = if isTerminal t then some t else none := by
  cases h <;> exact ⟨rfl, rfl⟩

/-! ### Runs -/

/-- An anchor: its state, and the entries emitted so far. -/
structure RoundTrip where
  state : AnchorState
  entries : List AnchorLogEntry
  deriving DecidableEq

/-- An anchor whose intent is logged. -/
def RoundTrip.start : RoundTrip := ⟨initialState, []⟩

/-- One event.  One that is rejected emits nothing and leaves the state as it is. -/
def advance (trip : RoundTrip) (input : AnchorTransitionEvent × EpochRegime) : RoundTrip :=
  match nextState trip.state input.1 input.2 with
  | .ok result => ⟨result.newState, trip.entries ++ [result.entryToEmit]⟩
  | .error _ => trip

/-- The entries end where the state says: before a terminal state none of them records
one, in a terminal state the last one does, and it alone. -/
def RoundTrip.Consistent (trip : RoundTrip) : Prop :=
  if isTerminal trip.state then
    ∃ before last, trip.entries = before ++ [last] ∧ last.outcome = some trip.state ∧
      ∀ e ∈ before, e.outcome = none
  else ∀ e ∈ trip.entries, e.outcome = none

/-- One event keeps the entries in line with the state. -/
theorem consistent_advance (trip : RoundTrip) (input : AnchorTransitionEvent × EpochRegime)
    (h : trip.Consistent) : (advance trip input).Consistent := by
  unfold advance
  split
  · next result hresult =>
    obtain ⟨hlive, hout⟩ := (leads_of_nextState hresult).outcome
    have hbefore : ∀ e ∈ trip.entries, e.outcome = none := by
      simpa only [RoundTrip.Consistent, hlive, Bool.false_eq_true, if_false] using h
    unfold RoundTrip.Consistent
    dsimp only
    split
    · next hterm =>
      rw [if_pos hterm] at hout
      exact ⟨trip.entries, result.entryToEmit, rfl, hout, hbefore⟩
    · next hterm =>
      rw [if_neg hterm] at hout
      intro e he
      rcases List.mem_append.mp he with he | he
      · exact hbefore e he
      · rw [List.mem_singleton.mp he, hout]
  · exact h

/-- **The entries of any run end where its state says.** -/
theorem consistent_run (inputs : List (AnchorTransitionEvent × EpochRegime)) :
    (Run.run advance .start inputs).Consistent :=
  Run.run_keeps consistent_advance (show RoundTrip.start.Consistent from fun _ h => nomatch h) inputs

/-! ### The auditor against the state machine -/

namespace RoundTrip.Consistent

variable {trip : RoundTrip}

/-- What the entries of a round trip record is its state, when that is terminal. -/
theorem exists_outcome_iff (h : trip.Consistent) (t : AnchorState) (ht : isTerminal t = true) :
    (∃ e ∈ trip.entries, e.outcome = some t) ↔ trip.state = t := by
  unfold RoundTrip.Consistent at h
  split at h
  · obtain ⟨before, last, hentries, hlast, hbefore⟩ := h
    constructor
    · rintro ⟨e, he, hout⟩
      rw [hentries, List.mem_append, List.mem_singleton] at he
      rcases he with he | rfl
      · rw [hbefore e he] at hout
        cases hout
      · exact Option.some.inj (hlast.symm.trans hout)
    · rintro rfl
      exact ⟨last, by rw [hentries]; simp, hlast⟩
  · next hlive =>
    constructor
    · rintro ⟨e, he, hout⟩
      rw [h e he] at hout
      cases hout
    · rintro rfl
      exact absurd ht hlive

/-- Nothing follows an entry that records a terminal state. -/
theorem last_of_outcome (h : trip.Consistent) {before after : List AnchorLogEntry}
    {e : AnchorLogEntry} (hentries : trip.entries = before ++ e :: after)
    (he : e.outcome.isSome = true) : after = [] := by
  unfold RoundTrip.Consistent at h
  split at h
  · obtain ⟨init, last, hinit, -, hnone⟩ := h
    by_contra hafter
    -- otherwise the entry stands before the last one
    have hmem : e ∈ init := by
      have hdrop := congrArg List.dropLast (hinit.symm.trans hentries)
      rw [List.dropLast_concat, List.dropLast_append_of_ne_nil (List.cons_ne_nil _ _),
        List.dropLast_cons_of_ne_nil hafter] at hdrop
      rw [hdrop]
      simp
    rw [hnone e hmem] at he
    cases he
  · rw [h e (by rw [hentries]; simp)] at he
    cases he

/-- At most one entry records a terminal state. -/
theorem countP_outcome_le (h : trip.Consistent) :
    trip.entries.countP (fun e => e.outcome.isSome) ≤ 1 := by
  have hnone : ∀ {es : List AnchorLogEntry}, (∀ e ∈ es, e.outcome = none) →
      es.countP (fun e => e.outcome.isSome) = 0 := fun hes =>
    List.countP_eq_zero.mpr fun e he => by rw [hes e he]; exact Bool.false_ne_true
  unfold RoundTrip.Consistent at h
  split at h
  · obtain ⟨before, last, hentries, -, hbefore⟩ := h
    rw [hentries, List.countP_append, hnone hbefore, Nat.zero_add]
    exact List.countP_le_length
  · rw [hnone h]
    exact Nat.zero_le 1

end RoundTrip.Consistent

/-- A test for one kind of terminal entry, over a chain. -/
theorem any_iff_outcome {p : AnchorLogEntry → Bool} {t : AnchorState}
    (hp : ∀ e, p e = true ↔ e.outcome = some t) (entries : List AnchorLogEntry) :
    entries.any p = true ↔ ∃ e ∈ entries, e.outcome = some t := by
  rw [List.any_eq_true]
  exact exists_congr fun e => and_congr_right fun _ => hp e

namespace AnchorLogEntry

theorem isSettled_iff (e : AnchorLogEntry) : e.isSettled = true ↔ e.outcome = some .settled := by
  cases e <;> simp [isSettled, outcome]

theorem isFailed_iff (e : AnchorLogEntry) : e.isFailed = true ↔ e.outcome = some .failed := by
  cases e <;> simp [isFailed, outcome]

theorem isRejected_iff (e : AnchorLogEntry) : e.isRejected = true ↔ e.outcome = some .rejected := by
  cases e <;> simp [isRejected, outcome]

end AnchorLogEntry

/-- The verdict on entries, from what they record. -/
theorem verdict_iff (entries : List AnchorLogEntry) :
    ((verifyAnchorChain entries).verdict = .executionFailed ↔
      (∃ e ∈ entries, e.outcome = some .failed) ∨ ∃ e ∈ entries, e.outcome = some .rejected) ∧
    ((verifyAnchorChain entries).verdict = .ok ↔
      (∃ e ∈ entries, e.outcome = some .settled) ∧ (¬∃ e ∈ entries, e.outcome = some .failed) ∧
        ¬∃ e ∈ entries, e.outcome = some .rejected) := by
  rw [← any_iff_outcome AnchorLogEntry.isSettled_iff, ← any_iff_outcome AnchorLogEntry.isFailed_iff,
    ← any_iff_outcome AnchorLogEntry.isRejected_iff]
  unfold verifyAnchorChain
  dsimp only
  cases entries.any AnchorLogEntry.isSettled <;> cases entries.any AnchorLogEntry.isFailed <;>
    cases entries.any AnchorLogEntry.isRejected <;>
      cases entries.any AnchorLogEntry.isIncluded || entries.any AnchorLogEntry.isTimedOut ||
        entries.any AnchorLogEntry.isStuck <;>
      simp

/-- **The auditor's verdict is the state machine's state**, after any events in any order
under any regimes. -/
theorem audit_refines_stateMachine (inputs : List (AnchorTransitionEvent × EpochRegime)) :
    (Run.run advance .start inputs).entries.countP (fun e => e.outcome.isSome) ≤ 1 ∧
    (∀ before e after, (Run.run advance .start inputs).entries = before ++ e :: after →
      e.outcome.isSome = true → after = []) ∧
    ((verifyAnchorChain (Run.run advance .start inputs).entries).verdict = .ok ↔
      (Run.run advance .start inputs).state = .settled) ∧
    ((verifyAnchorChain (Run.run advance .start inputs).entries).verdict = .executionFailed ↔
      (Run.run advance .start inputs).state = .failed ∨
        (Run.run advance .start inputs).state = .rejected) ∧
    ¬((verifyAnchorChain (Run.run advance .start inputs).entries).verdict = .pending ∧
      isTerminal (Run.run advance .start inputs).state = true) := by
  have h := consistent_run inputs
  set trip := Run.run advance .start inputs
  obtain ⟨hfailed, hok⟩ := verdict_iff trip.entries
  rw [h.exists_outcome_iff .failed rfl, h.exists_outcome_iff .rejected rfl] at hfailed hok
  rw [h.exists_outcome_iff .settled rfl] at hok
  have hok' : (verifyAnchorChain trip.entries).verdict = .ok ↔ trip.state = .settled := by
    rw [hok]
    constructor
    · exact fun hsettled => hsettled.1
    · intro hsettled
      rw [hsettled]
      decide
  refine ⟨h.countP_outcome_le, fun before e after => h.last_of_outcome, hok', hfailed, ?_⟩
  rintro ⟨hpending, hterm⟩
  -- a terminal state has a verdict of its own
  have hcases : trip.state = .settled ∨ trip.state = .failed ∨ trip.state = .rejected := by
    simpa only [isTerminal, Bool.or_eq_true, decide_eq_true_eq, or_assoc] using hterm
  rcases hcases with hs | hs
  · rw [hok'.mpr hs] at hpending
    cases hpending
  · rw [hfailed.mpr hs] at hpending
    cases hpending

end Mvx

end Daryl
