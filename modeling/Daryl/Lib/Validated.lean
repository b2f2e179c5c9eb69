import Mathlib.Tactic.TypeStar

/-!
# Validation that collects its errors

The value of a checked record, or every error of its fields in their order.

## Main definitions

* `Validated` — a value, or the errors.
* `check` — a value that must pass one check.

## Main results

* `isOk_seq` — a record is valid when each field is.
-/

/-- A value, or the errors of a record. -/
inductive Validated (ε α : Type*)
  | ok (a : α)
  | failed (errors : List ε)
  deriving DecidableEq, Repr

namespace Validated

variable {ε : Type} {α β : Type}

/-- Errors of both sides are kept. -/
def seq : Validated ε (α → β) → Validated ε α → Validated ε β
  | .ok f, .ok a => .ok (f a)
  | .ok _, .failed es => .failed es
  | .failed es, .ok _ => .failed es
  | .failed es, .failed es' => .failed (es ++ es')

instance : Applicative (Validated ε) where
  pure := .ok
  seq f x := f.seq (x ())

/-- No field failed. -/
def isOk : Validated ε α → Bool
  | .ok _ => true
  | .failed _ => false

/-- A value that passes a check is kept together with the proof. -/
def check (e : ε) (p : α → Prop) [DecidablePred p] (a : α) : Validated ε {a // p a} :=
  if h : p a then .ok ⟨a, h⟩ else .failed [e]

@[simp] theorem isOk_ok (a : α) : (ok a : Validated ε α).isOk = true := rfl

@[simp] theorem isOk_failed (es : List ε) : (failed es : Validated ε α).isOk = false := rfl

@[simp] theorem isOk_pure (a : α) : (pure a : Validated ε α).isOk = true := rfl

@[simp] theorem isOk_seq (f : Validated ε (α → β)) (x : Validated ε α) :
    (f <*> x).isOk = (f.isOk && x.isOk) := by
  cases f <;> cases x <;> rfl

@[simp] theorem isOk_map (f : α → β) (x : Validated ε α) : (f <$> x).isOk = x.isOk := by
  cases x <;> rfl

@[simp] theorem isOk_check {e : ε} {p : α → Prop} [DecidablePred p] {a : α} :
    (check e p a).isOk = true ↔ p a := by
  unfold check
  split <;> simp_all

theorem map_eq_ok {f : α → β} {x : Validated ε α} {b : β} :
    f <$> x = .ok b ↔ ∃ a, x = .ok a ∧ f a = b := by
  cases x <;> simp [Functor.map, seq]

end Validated
