import Mathlib.Data.List.Basic

/-!
# Runs

A machine is a step function on states; a run is a list of inputs.  Safety along
runs is proved once here: what every step preserves, under a condition on the
state and the input of the step, holds at the end of every run whose steps all
meet the condition.  A prefix of a run is a run, so this speaks of every state
a run passes through.

## Main definitions

* `run` — the state after a run.
* `Along` — a condition met by every step of a run.
* `Always` — a property of every state a run passes through.

## Main results

* `run_invariant`, `run_keeps` — the induction rules for invariants, conditioned or not.
* `always_iff_along` — **a property holds all along a run exactly when every step
  meets the condition under which one step keeps it.**
* `along_append` — a condition along a run, piece by piece.
* `run_filter` — **inputs that do not touch an observation may be left out.**
-/

namespace Run

variable {S I : Type*} {step : S → I → S} {C : S → I → Prop}

/-- The state after a run. -/
def run (step : S → I → S) (s : S) (is : List I) : S := is.foldl step s

/-- Every step of the run meets the condition in the state it is taken in. -/
def Along (step : S → I → S) (C : S → I → Prop) : S → List I → Prop
  | _, [] => True
  | s, i :: is => C s i ∧ Along step C (step s i) is

/-- Every state the run passes through has the property. -/
def Always (step : S → I → S) (P : S → Prop) (s : S) (is : List I) : Prop :=
  ∀ js, js <+: is → P (run step s js)

@[simp] theorem run_nil (s : S) : run step s [] = s := rfl

@[simp] theorem run_cons (s : S) (i : I) (is : List I) :
    run step s (i :: is) = run step (step s i) is := rfl

theorem run_append (s : S) (is js : List I) :
    run step s (is ++ js) = run step (run step s is) js := List.foldl_append

theorem along_append {s : S} {is js : List I} :
    Along step C s (is ++ js) ↔ Along step C s is ∧ Along step C (run step s is) js := by
  induction is generalizing s with
  | nil => simp [Along]
  | cons i is ih => simp [Along, ih, and_assoc]

theorem along_mono {D : S → I → Prop} (hCD : ∀ s i, C s i → D s i) {s : S} {is : List I}
    (h : Along step C s is) : Along step D s is := by
  induction is generalizing s with
  | nil => trivial
  | cons i is ih => exact ⟨hCD s i h.1, ih h.2⟩

theorem along_of_forall (h : ∀ s i, C s i) (s : S) (is : List I) : Along step C s is := by
  induction is generalizing s with
  | nil => trivial
  | cons i is ih => exact ⟨h s i, ih (step s i)⟩

/-- **What every conditioned step preserves holds after every conditioned run.** -/
theorem run_invariant {P : S → Prop} (hstep : ∀ s i, P s → C s i → P (step s i)) {s : S}
    {is : List I} (hs : P s) (hC : Along step C s is) : P (run step s is) := by
  induction is generalizing s with
  | nil => exact hs
  | cons i is ih => exact ih (hstep s i hs hC.1) hC.2

/-- What every step preserves holds after every run. -/
theorem run_keeps {P : S → Prop} (hstep : ∀ s i, P s → P (step s i)) {s : S} (hs : P s)
    (is : List I) : P (run step s is) := by
  induction is generalizing s with
  | nil => exact hs
  | cons i is ih => exact ih (hstep s i hs)

theorem always_cons {P : S → Prop} {s : S} {i : I} {is : List I} :
    Always step P s (i :: is) ↔ P s ∧ Always step P (step s i) is := by
  constructor
  · intro h
    refine ⟨h [] List.nil_prefix, fun js hjs => ?_⟩
    exact h (i :: js) (List.cons_prefix_cons.mpr ⟨rfl, hjs⟩)
  · rintro ⟨hs, h⟩ js hjs
    cases js with
    | nil => exact hs
    | cons j js =>
      obtain ⟨rfl, hprefix⟩ := List.cons_prefix_cons.mp hjs
      exact h js hprefix

/-- What every conditioned step preserves holds all along a conditioned run. -/
theorem always_of_along {P : S → Prop} (hstep : ∀ s i, P s → C s i → P (step s i)) {s : S}
    {is : List I} (hs : P s) (hC : Along step C s is) : Always step P s is := by
  rintro js ⟨ks, rfl⟩
  exact run_invariant hstep hs (along_append.mp hC).1

/-- **A property holds all along a run exactly when every step meets the condition
under which one step keeps it.**  An invariant of the run may help the step. -/
theorem always_iff_along {P Q : S → Prop} (hQ : ∀ s i, Q s → P s → C s i → Q (step s i))
    (hstep : ∀ s i, Q s → P s → (P (step s i) ↔ C s i)) {s : S} {is : List I} (hQs : Q s)
    (hs : P s) : Always step P s is ↔ Along step C s is := by
  induction is generalizing s with
  | nil => exact iff_of_true (fun js hjs => List.prefix_nil.mp hjs ▸ hs) trivial
  | cons i is ih =>
    rw [always_cons]
    constructor
    · rintro ⟨-, h⟩
      -- the state after the step is one the run passes through
      have hC : C s i := (hstep s i hQs hs).mp (h [] List.nil_prefix)
      exact ⟨hC, (ih (hQ s i hQs hs hC) ((hstep s i hQs hs).mpr hC)).mp h⟩
    · rintro ⟨hC, h⟩
      exact ⟨hs, (ih (hQ s i hQs hs hC) ((hstep s i hQs hs).mpr hC)).mpr h⟩

/-- **Two conditions that agree where an invariant holds agree along the runs.** -/
theorem along_congr {Q : S → Prop} {C D : S → I → Prop} (hQ : ∀ s i, Q s → Q (step s i))
    (hCD : ∀ s i, Q s → (C s i ↔ D s i)) {s : S} (hs : Q s) (is : List I) :
    Along step C s is ↔ Along step D s is := by
  induction is generalizing s with
  | nil => exact Iff.rfl
  | cons i is ih => exact and_congr (hCD s i hs) (ih (hQ s i hs))

/-- **Inputs that do not touch an observation may be left out of the run.**  The other
inputs act on what is observed alone. -/
theorem run_filter {O : Type*} {obs : S → O} {p : I → Bool} {is : List I}
    (hother : ∀ s, ∀ i ∈ is, p i = false → obs (step s i) = obs s)
    (hown : ∀ s t, ∀ i ∈ is, p i = true → obs s = obs t → obs (step s i) = obs (step t i))
    {s t : S} (h : obs s = obs t) : obs (run step s is) = obs (run step t (is.filter p)) := by
  induction is generalizing s t with
  | nil => exact h
  | cons i is ih =>
    have hother' := fun s j (hj : j ∈ is) => hother s j (List.mem_cons_of_mem i hj)
    have hown' := fun s t j (hj : j ∈ is) => hown s t j (List.mem_cons_of_mem i hj)
    rw [run_cons]
    cases hp : p i with
    | false =>
      rw [List.filter_cons_of_neg (by simp [hp])]
      exact ih hother' hown' ((hother s i List.mem_cons_self hp).trans h)
    | true =>
      rw [List.filter_cons_of_pos hp, run_cons]
      exact ih hother' hown' (hown s t i List.mem_cons_self hp h)

end Run
