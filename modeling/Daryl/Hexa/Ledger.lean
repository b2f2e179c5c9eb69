import Daryl.Hexa.Project

/-!
# Unloaded, not unreachable

What an operation takes out of the state is listed in the ledger of the state or in the file
it was spilled to, with one exception: the handoff of a rotation is all that the next epoch
gets.  It has neither the ledger of the old state, nor its resolved questions, nor what was
cut or trimmed from its references and decisions.

## Main definitions

* `Accounts` — from one state of a project to another every address is accounted for.
* `Portable` — a state that a rotation takes over whole.
* `Unloads` — the condition on an operation.

## Main results

* `accounts_step` — what one operation accounts for.
* `nothing_unreachable` — **what is removed in a run stays listed.**
-/

namespace Daryl

namespace Hexa

open Py Json

namespace Project

variable (counter : PyStr → ℤ) (p : Project)

/-- An address is listed: in the ledger of the state, or in the spilled file. -/
def Lists (p : Project) (kind : AddressKind) (a : PyStr) : Prop :=
  Reaches spillName p.state p.disk.ledger kind a

/-- An address is in the spilled file that the state points at. -/
def InFile (p : Project) (kind : AddressKind) (a : PyStr) : Prop :=
  p.state.unloadedLedger = some spillName ∧ a ∈ fileListed p.disk.ledger kind

/-- Every address is still in the state, or it is listed; and what was listed is. -/
structure Accounts (p q : Project) : Prop where
  held : ∀ kind, ∀ a ∈ p.state.held kind, a ∈ q.state.held kind ∨ q.Lists kind a
  listed : ∀ kind a, p.Lists kind a → q.Lists kind a

theorem Accounts.refl (p : Project) : Accounts p p := ⟨fun _ _ h => .inl h, fun _ _ h => h⟩

theorem Accounts.trans {p q r : Project} (h : Accounts p q) (h' : Accounts q r) : Accounts p r where
  held kind a ha := (h.held kind a ha).elim (h'.held kind a) fun hl => .inr (h'.listed kind a hl)
  listed kind a ha := h'.listed kind a (h.listed kind a ha)

theorem Accounts.of_retains {p q : Project}
    (h : Retains spillName p.state p.disk.ledger q.state q.disk.ledger) : Accounts p q :=
  ⟨h.held, h.listed⟩

theorem Accounts.of_framed {p q : Project} (h : Framed p q) : Accounts p q := by
  refine .of_retains ?_
  rw [h.state, h.ledger]
  exact .refl _ _ _

/-- A state that a rotation takes over whole: what its ledger lists is in the spilled file, or a
pin that the rotation lists; its questions are open, or in the file; and its handoff holds all
its references and decisions. -/
structure Portable (counter : PyStr → ℤ) (p : Project) : Prop where
  spilled : ∀ kind, ∀ a ∈ p.state.listed kind, p.InFile kind a ∨
    kind = .pin ∧ ∃ v ∈ p.state.activePins, v.critical = false ∧ v.pinId = a
  answered : ∀ q ∈ p.state.openQuestions, q.resolved = false ∨ p.InFile .question q.id
  few : p.state.activeHexRefs.length ≤ maxHandoffHexRefs
  small : jsonTokens counter (buildHandoff p.summaryPointer.2.state
    p.summaryPointer.2.state.activeHexRefs p.summaryPointer.1).toDict <
      p.summaryPointer.2.state.tokens counter

/-- The condition on an operation: a rotation takes over the state whole, and the pins that a
turn loads anew are live. -/
def Unloads (counter : PyStr → ℤ) (p : Project) : ContextCall → Prop
  | .turn turn =>
    (∀ v ∈ p.state.activePins, (∃ pin ∈ p.pins.live, pin.pinId = v.pinId) ∨ p.Lists .pin v.pinId) ∧
    ∀ hexRefs, turn.retrieved = .ok hexRefs →
      let q := (p.begin turn).absorb turn hexRefs
      q.rotationSignal counter = .rotate → (q.rotationWouldHelp counter).1 = true → Portable counter q
  | .enforceBudget _ => True
  | .rotateEpoch => Portable counter p

/-! ### Rotations -/

/-- A packet that is small enough is not trimmed. -/
theorem trimHandoff_of_small {h : Handoff} {ceiling : ℤ} (hsmall : jsonTokens counter h.toDict < ceiling) :
    trimHandoff counter ceiling h = h := by
  have hrefs : shedHexRefs counter ceiling h h.hexmapRefs = h := by
    cases hr : h.hexmapRefs with
    | nil =>
      rw [shedHexRefs, ← hr]
    | cons ref refs =>
      rw [shedHexRefs, ← hr, if_neg (not_le.mpr hsmall)]
  have hdecisions : shedDecisions counter ceiling h h.decisions = h := by
    cases hd : h.decisions with
    | nil =>
      rw [shedDecisions, ← hd]
    | cons d ds =>
      rw [shedDecisions, ← hd, if_neg (not_le.mpr hsmall)]
  rw [trimHandoff, hrefs, hdecisions]

/-- The pins of a handoff that are not critical are listed in the state it seeds. -/
theorem listed_stateFromHandoff {h : Handoff} (epoch : ℕ) {pid : PyStr} (hpid : pid ∈ h.pinRefs) :
    pid ∈ (stateFromHandoff h epoch).listed .pin :=
  listed_drops .pin (fun pid => pid) hpid _

/-- What the seeded state holds, if nothing was trimmed. -/
theorem held_seeded (h : Portable counter p) (kind : AddressKind) (a : PyStr)
    (ha : a ∈ p.state.held kind) :
    a ∈ (p.seeded counter).held kind ∨ a ∈ (p.seeded counter).listed kind ∨ p.InFile kind a := by
  obtain ⟨hexId, hpointer⟩ := framed_summaryPointer p
  have hstate : p.summaryPointer.2.state = { p.state with summaryHex := hexId } := hpointer.state
  have hseeded : p.seeded counter = stateFromHandoff (buildHandoff p.summaryPointer.2.state
      p.summaryPointer.2.state.activeHexRefs p.summaryPointer.1) (p.state.epoch + 1) := by
    rw [seeded, trimHandoff_of_small counter h.small]
  rw [hseeded, hstate]
  generalize p.summaryPointer.1 = summaryHex
  have hrest := stateFromHandoff_eq (buildHandoff { p.state with summaryHex := hexId }
    p.state.activeHexRefs summaryHex) (p.state.epoch + 1)
  obtain ⟨dropped, hrest⟩ := hrest
  cases kind with
  | hex =>
    left
    have hrefs : lastItems maxHandoffHexRefs p.state.activeHexRefs = p.state.activeHexRefs := by
      rw [lastItems, Nat.sub_eq_zero_of_le h.few, List.drop_zero]
    simp only [ActiveState.held] at ha ⊢
    rw [hrest]
    simp only [buildHandoff, ite_self, hrefs]
    exact ha
  | pin =>
    obtain ⟨v, hv, rfl⟩ := List.mem_map.mp ha
    by_cases hc : v.critical
    · -- a critical pin is held
      left
      simp only [ActiveState.held]
      rw [hrest]
      exact List.mem_map_of_mem (List.mem_filter.mpr ⟨hv, hc⟩)
    · -- any other is listed
      right
      left
      refine listed_stateFromHandoff _ ?_
      exact List.mem_map_of_mem (List.mem_filter.mpr ⟨hv, by simp [hc]⟩)
  | decision =>
    left
    simp only [ActiveState.held] at ha ⊢
    rw [hrest]
    simp only [buildHandoff]
    rw [address_untitled]
    exact ha
  | question =>
    obtain ⟨q, hq, rfl⟩ := List.mem_map.mp ha
    rcases h.answered q hq with hopen | hfile
    · -- an open question is held, an answered one is in the file
      left
      simp only [ActiveState.held]
      rw [hrest]
      exact List.mem_map_of_mem (List.mem_filter.mpr ⟨hq, by simp [hopen]⟩)
    · exact .inr (.inr hfile)

/-- **A portable state is taken over whole.** -/
theorem accounts_seeded (h : Portable counter p) {q : Project}
    (hq : Framed { p with state := p.seeded counter } q) : Accounts p q := by
  have hledger : (p.seeded counter).unloadedLedger = p.state.unloadedLedger := by
    obtain ⟨hexId, hpointer⟩ := framed_summaryPointer p
    obtain ⟨refs, n, ds, m, -, -, htrim⟩ := trimHandoff_eq counter
      (p.summaryPointer.2.state.tokens counter) (buildHandoff p.summaryPointer.2.state
        p.summaryPointer.2.state.activeHexRefs p.summaryPointer.1)
    obtain ⟨dropped, hrest⟩ := stateFromHandoff_eq (trimHandoff counter
      (p.summaryPointer.2.state.tokens counter) (buildHandoff p.summaryPointer.2.state
        p.summaryPointer.2.state.activeHexRefs p.summaryPointer.1)) (p.state.epoch + 1)
    rw [seeded, hrest, htrim, hpointer.state]
    rfl
  -- what is in the file stays there
  have hfile : ∀ kind a, p.InFile kind a → q.Lists kind a := by
    intro kind a ha
    right
    rw [hq.state, hq.ledger]
    exact ⟨hledger.trans ha.1, ha.2⟩
  have hlisted : ∀ kind, ∀ a ∈ (p.seeded counter).listed kind, q.Lists kind a := by
    intro kind a ha
    left
    rw [hq.state]
    exact ha
  constructor
  · intro kind a ha
    rcases held_seeded counter p h kind a ha with hheld | hl | hf
    · left
      rw [hq.state]
      exact hheld
    · exact .inr (hlisted kind a hl)
    · exact .inr (hfile kind a hf)
  · intro kind a ha
    rcases ha with ha | ha
    · rcases h.spilled kind a ha with hf | ⟨rfl, v, hv, hc, rfl⟩
      · exact hfile kind a hf
      · obtain ⟨hexId, hpointer⟩ := framed_summaryPointer p
        refine hlisted .pin _ ?_
        rw [seeded, trimHandoff_of_small counter h.small, hpointer.state]
        refine listed_stateFromHandoff _ ?_
        exact List.mem_map_of_mem (List.mem_filter.mpr ⟨hv, by simp [hc]⟩)
    · exact hfile kind a ha

theorem accounts_rotateEpoch (h : Portable counter p) : Accounts p (p.rotateEpoch counter).2 := by
  obtain ⟨t, ht, hframe⟩ := rotateEpoch_spec counter p
  rcases ht with ⟨rfl, -⟩ | rfl
  · obtain ⟨hexId, hpointer⟩ := framed_summaryPointer p
    refine .of_retains ?_
    rw [hframe.state, hframe.ledger, hpointer.state]
    refine Compacts.retains ?_ spillName fun _ _ h => h
    exact .of_eq rfl rfl rfl rfl rfl rfl rfl rfl rfl
  · exact accounts_seeded counter p h hframe

/-! ### Turns -/

/-- What a turn takes in removes nothing, if the pins of the state are live or listed. -/
theorem accounts_absorb (turn : Turn) (hexRefs : List PyStr)
    (hlive : ∀ v ∈ p.state.activePins,
      (∃ pin ∈ p.pins.live, pin.pinId = v.pinId) ∨ p.Lists .pin v.pinId) :
    Accounts p (p.absorb turn hexRefs) := by
  obtain ⟨refs, hints, hstate, hrefs⟩ := absorb_spec p turn hexRefs
  have hlisted : ∀ kind a, p.Lists kind a → (p.absorb turn hexRefs).Lists kind a := by
    intro kind a ha
    rw [Lists, hstate]
    exact ha
  refine ⟨fun kind a ha => ?_, hlisted⟩
  cases kind with
  | hex =>
    left
    rw [hstate]
    exact hrefs a ha
  | pin =>
    obtain ⟨v, hv, rfl⟩ := List.mem_map.mp ha
    rcases hlive v hv with ⟨pin, hpin, hid⟩ | hl
    · left
      rw [hstate]
      refine List.mem_map.mpr ⟨pinView pin, ?_, hid⟩
      by_cases hc : pin.critical
      · exact List.mem_append_left _ (List.mem_map_of_mem (List.mem_filter.mpr ⟨hpin, hc⟩))
      · exact List.mem_append_right _
          (List.mem_map_of_mem (List.mem_filter.mpr ⟨hpin, by simp [hc]⟩))
    · exact .inr (hlisted .pin _ hl)
  | decision =>
    left
    rw [hstate]
    exact ha
  | question =>
    left
    rw [hstate]
    exact ha

theorem accounts_mayRotate (h : p.rotationSignal counter = .rotate →
      (p.rotationWouldHelp counter).1 = true → Portable counter p) :
    Accounts p (p.mayRotate counter).2 := by
  obtain ⟨t, ht, hframe⟩ := mayRotate_spec counter p
  rcases ht with ⟨hexId, rfl⟩ | ⟨hsignal, hhelp, rfl⟩
  · refine .of_retains ?_
    rw [hframe.state, hframe.ledger]
    refine Compacts.retains ?_ spillName fun _ _ h => h
    exact .of_eq rfl rfl rfl rfl rfl rfl rfl rfl rfl
  · exact accounts_seeded counter p (h hsignal hhelp) hframe

/-- **What one operation accounts for.** -/
theorem accounts_step {call : ContextCall} (h : Unloads counter p call) :
    Accounts p (p.step counter call) := by
  cases call with
  | rotateEpoch => exact accounts_rotateEpoch counter p h
  | enforceBudget pointer => exact .of_retains (enforceBudget_spec counter p pointer).1
  | turn turn =>
    obtain ⟨hlive, hportable⟩ := h
    obtain ⟨summary, hbegin, hpins⟩ := begin_spec p turn
    have hdisk : (p.begin turn).disk = p.disk := rfl
    have hbegun : Accounts p (p.begin turn) := by
      constructor
      · intro kind a ha
        left
        rw [hbegin]
        cases kind <;> exact ha
      · intro kind a ha
        rw [Lists, hbegin, hdisk]
        exact ha
    rcases handleTurn_cases counter p turn with heq | ⟨hexRefs, hretrieved, q, hq, hturn⟩
    · rw [step, heq]
      exact hbegun
    · have habsorbed : Accounts p ((p.begin turn).absorb turn hexRefs) := by
        refine hbegun.trans (accounts_absorb (p.begin turn) turn hexRefs ?_)
        intro v hv
        rw [hpins]
        rw [hbegin] at hv
        exact (hlive v hv).imp_right fun hl => hbegun.listed .pin _ hl
      have hrotated : Accounts p q := by
        rw [hq]
        exact habsorbed.trans (accounts_mayRotate counter _ (hportable hexRefs hretrieved))
      rcases hturn with heq | ⟨hframe, -⟩
      · rw [step, heq]
        exact hrotated
      · have hbudget := hrotated.trans (.of_retains (enforceBudget_spec counter q none).1)
        exact hbudget.trans (.of_framed hframe)

/-- What a run accounts for. -/
theorem accounts_run {calls : List ContextCall} (h : Run.Along (step counter) (Unloads counter) p calls) :
    Accounts p (Run.run (step counter) p calls) := by
  induction calls generalizing p with
  | nil => exact .refl p
  | cons call calls ih => exact (accounts_step counter p h.1).trans (ih _ h.2)

/-- **What an operation of a run removes from the state is listed, there or in the spilled file,
and stays listed through all later operations**, if every rotation takes over its state whole and
the pins of the state are live. -/
theorem nothing_unreachable (counter : PyStr → ℤ) (p : Project) (before after : List ContextCall)
    (call : ContextCall)
    (h : Run.Along (step counter) (Unloads counter) p (before ++ call :: after))
    (kind : AddressKind) (a : PyStr)
    (hheld : a ∈ (Run.run (step counter) p before).state.held kind)
    (hgone : a ∉ (Run.run (step counter) p (before ++ [call])).state.held kind) :
    (Run.run (step counter) p (before ++ call :: after)).Lists kind a := by
  have hafter := (Run.along_append.mp h).2
  have hstep := accounts_step counter _ hafter.1
  have hrun := accounts_run counter _ hafter.2
  rw [Run.run_append] at hgone ⊢
  rcases hstep.held kind a hheld with hstay | hlisted
  · exact absurd hstay hgone
  · exact hrun.listed kind a hlisted

instance (p : Project) (kind : AddressKind) (a : PyStr) : Decidable (p.Lists kind a) :=
  inferInstanceAs (Decidable (_ ∨ _ ∧ _))

/-- A project with a state, and nothing in its files. -/
def sampleProject (s : ActiveState) : Project where
  config := ⟨1, 100, ⟨fun _ _ => true, fun _ _ => true, fun _ _ => true⟩, 5⟩
  hexmap := []
  pins := ⟨py "P", []⟩
  relations := []
  state := s
  disk := ⟨1, [], [], [], s, none, []⟩

/-- A state with a pin that is not critical, and a decision with a long title. -/
def samplePinned : ActiveState :=
  ⟨1, 0, [], [], [], [⟨py "P.K001", py "k", py "v", none, false, .active⟩], [], [],
    [⟨none, some (List.replicate 200 120), none⟩], [], [], none, none, false⟩

/-- A pin that a rotation removes is listed. -/
theorem nothing_unreachable_sample :
    (Run.run (step estimateTokens) (sampleProject samplePinned) [.rotateEpoch]).Lists .pin
      (py "P.K001") := by
  have hportable : Portable estimateTokens (sampleProject samplePinned) := by
    refine ⟨fun kind a ha => ?_, fun q hq => ?_, by decide, by decide +kernel⟩
    · cases kind <;> cases ha
    · cases hq
  exact nothing_unreachable estimateTokens (sampleProject samplePinned) [] [] .rotateEpoch
    ⟨hportable, trivial⟩ .pin (py "P.K001") (List.mem_singleton_self _) (by decide +kernel)

/-- A state with an address in its ledger, and with a question that is resolved. -/
def sampleResolved : ActiveState :=
  ⟨1, 0, [], [], [], [], [⟨py "Q1", py "t", true⟩], [], [], [], [(py "hex", [py "P.E1.H001"])], none,
    none, false⟩

/-- A rotation loses both. -/
theorem rotation_loses_addresses :
    let p := sampleProject sampleResolved
    let q := p.step estimateTokens .rotateEpoch
    (py "Q1" ∈ p.state.held .question ∧ py "Q1" ∉ q.state.held .question ∧
      ¬ q.Lists .question (py "Q1")) ∧
    p.Lists .hex (py "P.E1.H001") ∧ ¬ q.Lists .hex (py "P.E1.H001") := by
  decide +kernel

end Project

end Hexa

end Daryl
