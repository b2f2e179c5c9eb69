import Daryl.Hexa.Context

/-!
# `hexashard.context.enforce_budget`: is the report true of the state?

The mark `over_budget` is part of the JSON text that is measured, and it is written after the
measuring.  `false` is one character longer than `true`, and one character is a token when it
crosses a boundary of four.  Nothing else can part the report from the state.

## Main definitions

* `compacted` — the state as the ladder leaves it, before its mark is written.
* `Honest` — what the report should be true of.
* `Steady` — writing the mark does not change the measure.

## Main results

* `tokens_mark` — the measure of a marked state.
* `honest_enforceBudget_iff` — **the report is true iff the mark is written into a steady state.**
-/

namespace Daryl

namespace Hexa

open Py Json

/-! ### The size of a state -/

/-- The length of the JSON text of a state. -/
def ActiveState.size (s : ActiveState) : ℕ :=
  match dumpsSorted compactStyle s.toDict with
  | .ok text => text.length
  | .error _ => 0

namespace ActiveState

/-- The items of the dict of a state before its mark. -/
def unmarked (s : ActiveState) : List (PyStr × PyVal FloatLit) := [
  (py "epoch", .int s.epoch),
  (py "turn", .int s.turn),
  (py "mission", .str s.mission),
  (py "current_objective", .str s.currentObjective),
  (py "current_summary", .str s.currentSummary),
  (py "active_pins", .list (s.activePins.map PinView.toDict)),
  (py "open_questions", .list (s.openQuestions.map Question.toDict)),
  (py "active_hex_refs", strList s.activeHexRefs),
  (py "recent_decisions", .list (s.recentDecisions.map Decision.toDict)),
  (py "retrieval_hints", strList s.retrievalHints),
  (py "dropped_refs", ledgerDict s.droppedRefs),
  (py "unloaded_ledger", optStr s.unloadedLedger),
  (py "summary_hex", optStr s.summaryHex)]

end ActiveState

section

variable {st : Style}

theorem printable_strList (hst : st.allowNan = true) (ss : List PyStr) : Printable st (strList ss) := by
  refine printable_list hst fun v hv => ?_
  obtain ⟨s, -, rfl⟩ := List.mem_map.mp hv
  exact ⟨.str s, _, rfl, rfl⟩

theorem printable_optStr (s : Option PyStr) : Printable st (optStr s : PyVal FloatLit) := by
  cases s with
  | none => exact ⟨_, _, rfl, rfl⟩
  | some s => exact ⟨_, _, rfl, rfl⟩

theorem printable_pinView (p : PinView) : Printable st p.toDict := by
  refine printable_object fun q hq => ?_
  simp only [List.mem_cons, List.not_mem_nil, or_false] at hq
  rcases hq with rfl | rfl | rfl | rfl | rfl | rfl
  case inr.inr.inr.inl => exact printable_optStr p.sourceRef
  all_goals exact ⟨_, _, rfl, rfl⟩

theorem printable_question (q : Question) : Printable st q.toDict := by
  refine printable_object fun p hp => ?_
  simp only [List.mem_cons, List.not_mem_nil, or_false] at hp
  rcases hp with rfl | rfl | rfl <;> exact ⟨_, _, rfl, rfl⟩

theorem printable_decision (d : Decision) : Printable st d.toDict := by
  refine printable_object fun p hp => ?_
  rcases List.mem_append.mp hp with hp | hp
  · rcases List.mem_append.mp hp with hp | hp
    · obtain rfl := List.mem_singleton.mp hp
      exact printable_optStr d.hexId
    · obtain ⟨t, -, rfl⟩ := Option.map_eq_some_iff.mp (Option.mem_toList.mp hp)
      exact ⟨_, _, rfl, rfl⟩
  · obtain rfl := List.mem_singleton.mp hp
    exact printable_optStr d.sourceRef

theorem printable_ledger (hst : st.allowNan = true) (ledger : AddressLedger) :
    Printable st (ledgerDict ledger) := by
  refine printable_object fun p hp => ?_
  obtain ⟨q, -, rfl⟩ := List.mem_map.mp hp
  exact printable_strList hst q.2

/-- Every field of a state has a text. -/
theorem printable_unmarked (hst : st.allowNan = true) (s : ActiveState) :
    ∀ p ∈ s.unmarked, Printable st p.2 := by
  have hlist : ∀ {A : Type} (f : A → PyVal FloatLit), (∀ a, Printable st (f a)) →
      ∀ l : List A, Printable st (.list (l.map f)) := by
    intro A f hf l
    refine printable_list hst fun v hv => ?_
    obtain ⟨a, -, rfl⟩ := List.mem_map.mp hv
    exact hf a
  simp only [ActiveState.unmarked, List.forall_mem_cons]
  exact ⟨⟨_, _, rfl, rfl⟩, ⟨_, _, rfl, rfl⟩, ⟨_, _, rfl, rfl⟩, ⟨_, _, rfl, rfl⟩, ⟨_, _, rfl, rfl⟩,
    hlist _ printable_pinView _, hlist _ printable_question _, printable_strList hst _,
    hlist _ printable_decision _, printable_strList hst _, printable_ledger hst _,
    printable_optStr _, printable_optStr _, List.forall_mem_nil _⟩

end

/-- The length of a mark. -/
def markLength (past : Bool) : ℕ := (boolText past).length

/-- **The size of a state is that of its fields and of its mark.** -/
theorem size_mark (s : ActiveState) :
    ∃ n, ∀ past, ({ s with overBudget := past } : ActiveState).size = n + markLength past := by
  have hkeys : (s.unmarked.map Prod.fst ++ [py "over_budget"]).Nodup := by
    rw [show s.unmarked.map Prod.fst = [py "epoch", py "turn", py "mission", py "current_objective",
      py "current_summary", py "active_pins", py "open_questions", py "active_hex_refs",
      py "recent_decisions", py "retrieval_hints", py "dropped_refs", py "unloaded_ledger",
      py "summary_hex"] from rfl]
    decide +kernel
  obtain ⟨n, hn⟩ := exists_length_dumpsSorted hkeys (@printable_unmarked compactStyle rfl s)
  refine ⟨n, fun past => ?_⟩
  obtain ⟨t, ht, hlen⟩ := hn (.bool past) (boolText past) rfl rfl
  have htext : dumpsSorted compactStyle ({ s with overBudget := past } : ActiveState).toDict = .ok t := ht
  rw [ActiveState.size, htext]
  exact hlen

theorem size_mark_self (s : ActiveState) (past : Bool) :
    ({ s with overBudget := past } : ActiveState).size + markLength s.overBudget =
      s.size + markLength past := by
  obtain ⟨n, hn⟩ := size_mark s
  have hself : s.size = n + markLength s.overBudget := hn s.overBudget
  rw [hn past, hself]
  omega

/-- The default counter rounds the size up to a multiple of four. -/
theorem tokens_eq (s : ActiveState) : s.tokens estimateTokens = ((s.size : ℤ) + 3) / 4 := by
  rw [ActiveState.tokens, jsonTokens, ActiveState.size]
  cases dumpsSorted compactStyle s.toDict with
  | ok text => rfl
  | error e =>
    change (0 : ℤ) = (((0 : ℕ) : ℤ) + 3) / 4
    decide

/-! ### The state before its mark is written -/

/-- What the last rung makes of a state. -/
def spilled (fits : ActiveState → Bool) (spillPath : Option PyStr) (s : ActiveState) : ActiveState :=
  match spillPath with
  | some name =>
    if !fits s ∧ s.droppedRefs ≠ [] then { s with droppedRefs := [], unloadedLedger := some name }
    else s
  | none => s

/-- The state as the ladder leaves it, before its mark is written: the given one if it fits, and
also if the ladder made it larger. -/
def compacted (counter : PyStr → ℤ) (budget : ℤ) (summaryPointer spillPath : Option PyStr)
    (s : ActiveState) : ActiveState :=
  let fits : ActiveState → Bool := fun s => s.tokens counter ≤ budget
  if fits s then s
  else
    let t := spilled fits spillPath (climb (rungs fits (summaryPointer.filter fun p => p ≠ [])) s).1
    if s.tokens counter < t.tokens counter then s else t

/-- The ladder never makes a state larger. -/
theorem tokens_compacted_le (counter : PyStr → ℤ) (budget : ℤ) (summaryPointer spillPath : Option PyStr)
    (s : ActiveState) :
    (compacted counter budget summaryPointer spillPath s).tokens counter ≤ s.tokens counter := by
  simp only [compacted]
  split_ifs with hfits hlarger
  · exact le_refl _
  · exact le_refl _
  · exact not_lt.mp hlarger

/-- Writing the mark. -/
theorem settle_eq (counter : PyStr → ℤ) (budget : ℤ) (s t : ActiveState) (steps : List PyStr)
    (file : Option AddressLedger) :
    let u := if s.tokens counter < t.tokens counter then s else t
    ∃ steps', settle counter budget s t steps file =
      (.ok ⟨budget, s.tokens counter, u.tokens counter, steps', budget < u.tokens counter⟩,
        { u with overBudget := budget < u.tokens counter }, file) :=
  ⟨_, rfl⟩

/-- **What a call that returns reports and leaves**: the size of the state before its mark is
written, and the state with the mark that this size calls for. -/
theorem enforceBudget_spec {counter : PyStr → ℤ} {budget : ℤ} {summaryPointer spillPath : Option PyStr}
    {s t : ActiveState} {file file' : Option AddressLedger} {r : BudgetReport}
    (h : enforceBudget counter budget summaryPointer spillPath s file = (.ok r, t, file')) :
    let u := compacted counter budget summaryPointer spillPath s
    r.tokensAfter = u.tokens counter ∧ r.overBudget = decide (budget < u.tokens counter) ∧
      t = { u with overBudget := r.overBudget } := by
  unfold enforceBudget at h
  simp only at h
  unfold compacted
  by_cases hfits : s.tokens counter ≤ budget
  · simp only [hfits, decide_true, if_true, Prod.mk.injEq, Except.ok.injEq] at h ⊢
    obtain ⟨rfl, rfl, -⟩ := h
    exact ⟨rfl, (decide_eq_false (not_lt.mpr hfits)).symm, rfl⟩
  · simp only [hfits, decide_false, if_false, Bool.false_eq_true] at h ⊢
    generalize climb (rungs (fun s => decide (s.tokens counter ≤ budget))
      (summaryPointer.filter fun p => p ≠ [])) s = c at h ⊢
    -- the three ways to the end differ in the state and the file they bring there
    obtain ⟨steps, f, hend⟩ : ∃ steps f, settle counter budget s
        (spilled (fun s => decide (s.tokens counter ≤ budget)) spillPath c.1) steps f =
          (.ok r, t, file') := by
      cases spillPath with
      | none => exact ⟨_, _, h⟩
      | some name =>
        simp only [spilled] at h ⊢
        by_cases hspill : (!decide (c.1.tokens counter ≤ budget)) = true ∧ c.1.droppedRefs ≠ []
        · rw [if_pos hspill] at h ⊢
          cases hwrite : writeJson (ledgerDict (mergeLedger (file.getD []) c.1.droppedRefs)) with
          | error e =>
            rw [hwrite] at h
            cases h
          | ok _ =>
            rw [hwrite] at h
            exact ⟨_, _, h⟩
        · rw [if_neg hspill] at h ⊢
          exact ⟨_, _, h⟩
    obtain ⟨steps', heq⟩ := settle_eq counter budget s
      (spilled (fun s => decide (s.tokens counter ≤ budget)) spillPath c.1) steps f
    rw [heq] at hend
    simp only [Prod.mk.injEq, Except.ok.injEq] at hend
    obtain ⟨rfl, rfl, -⟩ := hend
    exact ⟨rfl, rfl, rfl⟩

/-! ### The report and the state -/

/-- The report is true of the state: it names its size, which has not grown, and the state is
marked iff its size is over the budget. -/
structure Honest (budget : ℤ) (s t : ActiveState) (r : BudgetReport) : Prop where
  measured : t.tokens estimateTokens = r.tokensAfter
  shrinks : t.tokens estimateTokens ≤ s.tokens estimateTokens
  agrees : t.overBudget = r.overBudget
  marked : t.overBudget = true ↔ budget < t.tokens estimateTokens

/-- Writing the mark leaves the size between the same multiples of four: a mark that is set does
not save the last character of a token, one that is cleared does not start a token. -/
def Steady (budget : ℤ) (u : ActiveState) : Prop :=
  (u.overBudget = false → budget < u.tokens estimateTokens → u.size % 4 ≠ 1) ∧
    (u.overBudget = true → u.tokens estimateTokens ≤ budget → u.size % 4 ≠ 0)

/-- A character more is a token more on a multiple of four. -/
theorem tokens_succ (n : ℕ) : (((n + 1 : ℕ) : ℤ) + 3) / 4 = ((n : ℤ) + 3) / 4 ↔ n % 4 ≠ 0 := by
  omega

/-- A state is steady iff its mark does not change its tokens. -/
theorem tokens_mark (budget : ℤ) (u : ActiveState) :
    ({ u with overBudget := decide (budget < u.tokens estimateTokens) } : ActiveState).tokens
      estimateTokens = u.tokens estimateTokens ↔ Steady budget u := by
  have htrue : markLength true = 4 := rfl
  have hfalse : markLength false = 5 := rfl
  have hsize := size_mark_self u (decide (budget < u.tokens estimateTokens))
  by_cases hover : budget < u.tokens estimateTokens
  · have hnot : ¬u.tokens estimateTokens ≤ budget := not_le.mpr hover
    rw [decide_eq_true hover] at hsize ⊢
    cases hmark : u.overBudget with
    | true =>
      rw [hmark, Nat.add_right_cancel_iff] at hsize
      rw [tokens_eq, hsize, ← tokens_eq]
      exact ⟨fun _ => ⟨fun h => absurd (hmark.symm.trans h) (by decide), fun _ h => absurd h hnot⟩,
        fun _ => rfl⟩
    | false =>
      -- the mark that is set saves a character
      rw [hmark, htrue, hfalse] at hsize
      have hsucc : u.size = ({ u with overBudget := true } : ActiveState).size + 1 := by omega
      rw [tokens_eq, tokens_eq u, hsucc, eq_comm, tokens_succ]
      refine ⟨fun h => ⟨fun _ _ => by omega, fun _ h' => absurd h' hnot⟩, fun h => ?_⟩
      have := h.1 hmark hover
      omega
  · have hle : u.tokens estimateTokens ≤ budget := not_lt.mp hover
    rw [decide_eq_false hover] at hsize ⊢
    cases hmark : u.overBudget with
    | false =>
      rw [hmark, Nat.add_right_cancel_iff] at hsize
      rw [tokens_eq, hsize, ← tokens_eq]
      exact ⟨fun _ => ⟨fun _ h => absurd h hover, fun h => absurd (hmark.symm.trans h) (by decide)⟩,
        fun _ => rfl⟩
    | true =>
      -- the mark that is cleared costs one
      rw [hmark, htrue, hfalse] at hsize
      have hsucc : ({ u with overBudget := false } : ActiveState).size = u.size + 1 := by omega
      rw [tokens_eq, tokens_eq u, hsucc, tokens_succ]
      exact ⟨fun h => ⟨fun _ h' => absurd h' hover, fun _ _ => h⟩, fun h => h.2 hmark hle⟩

/-- **The report is true of the state iff the mark is written into a steady state.** -/
theorem honest_enforceBudget_iff {budget : ℤ} {summaryPointer spillPath : Option PyStr}
    {s t : ActiveState} {file file' : Option AddressLedger} {r : BudgetReport}
    (h : enforceBudget estimateTokens budget summaryPointer spillPath s file = (.ok r, t, file')) :
    Honest budget s t r ↔
      Steady budget (compacted estimateTokens budget summaryPointer spillPath s) := by
  obtain ⟨hafter, hover, rfl⟩ := enforceBudget_spec h
  have hle := tokens_compacted_le estimateTokens budget summaryPointer spillPath s
  generalize compacted estimateTokens budget summaryPointer spillPath s = u at hafter hover hle ⊢
  rw [hover, ← tokens_mark]
  constructor
  · intro hhonest
    rw [hhonest.measured, hafter]
  · intro hsame
    exact ⟨hsame.trans hafter.symm, hsame.trans_le hle, hover.symm, by rw [hsame]; exact decide_eq_true_iff⟩

/-- A marked state with nothing in it but a mission. -/
def markedState (mission : PyStr) : ActiveState where
  epoch := 1
  turn := 0
  mission := mission
  currentObjective := []
  currentSummary := []
  activePins := []
  openQuestions := []
  activeHexRefs := []
  recentDecisions := []
  retrievalHints := []
  droppedRefs := []
  unloadedLedger := none
  summaryHex := none
  overBudget := true

/-- A state that fits has its mark cleared and is reported as it was. -/
theorem enforceBudget_fits {counter : PyStr → ℤ} {budget : ℤ} (summaryPointer spillPath : Option PyStr)
    {s : ActiveState} (file : Option AddressLedger) (h : s.tokens counter ≤ budget) :
    enforceBudget counter budget summaryPointer spillPath s file =
      (.ok ⟨budget, s.tokens counter, s.tokens counter, [], false⟩, { s with overBudget := false },
        file) :=
  if_pos (decide_eq_true h)

theorem honest_enforceBudget_sample :
    Honest 65 (markedState (py "m")) { markedState (py "m") with overBudget := false }
        ⟨65, (markedState (py "m")).tokens estimateTokens, (markedState (py "m")).tokens estimateTokens,
          [], false⟩ ↔
      Steady 65 (compacted estimateTokens 65 none none (markedState (py "m"))) := by
  have hsize : (markedState (py "m")).size = 258 := by decide +kernel
  have hfits : (markedState (py "m")).tokens estimateTokens ≤ 65 := by
    rw [tokens_eq, hsize]
    decide
  exact honest_enforceBudget_iff (enforceBudget_fits none none none hfits)

/-- A marked state of 260 characters fits a budget of 65 tokens, and once its mark is cleared it
has 261 characters. -/
theorem enforceBudget_not_honest :
    ¬∀ (budget : ℤ) (summaryPointer spillPath : Option PyStr) (s t : ActiveState)
      (file file' : Option AddressLedger) (r : BudgetReport),
      enforceBudget estimateTokens budget summaryPointer spillPath s file = (.ok r, t, file') →
        Honest budget s t r := by
  intro hclaim
  have hsize : (markedState (py "abc")).size = 260 := by decide +kernel
  have hsize' : ({ markedState (py "abc") with overBudget := false } : ActiveState).size = 261 := by
    decide +kernel
  have htokens : (markedState (py "abc")).tokens estimateTokens = 65 := by
    rw [tokens_eq, hsize]
    decide
  have hfits : (markedState (py "abc")).tokens estimateTokens ≤ 65 := htokens.le
  have hhonest := hclaim 65 none none (markedState (py "abc")) _ none none _
    (enforceBudget_fits none none none hfits)
  have hmeasured := hhonest.measured
  simp only [tokens_eq, hsize, hsize'] at hmeasured
  exact absurd hmeasured (by decide)

end Hexa

end Daryl
