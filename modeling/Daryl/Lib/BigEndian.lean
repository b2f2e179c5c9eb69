import Mathlib.Algebra.Order.Ring.Nat
import Mathlib.Data.Fin.Basic
import Mathlib.Tactic.Ring

/-!
# Big-endian numerals of a fixed width

A number below `β ^ w` is `w` digits in base `β`, the greatest place first.

## Main definitions

* `ofDigits` — the number a list of digits spells.
* `toDigits` — the digits of a number, at a width.

## Main results

* `ofDigits_toDigits` — **writing and reading gives the number back.**
* `toDigits_ofDigits` — **reading and writing at the same width gives the digits back.**
-/

namespace BigEndian

variable {β : ℕ}

/-- The number a list of digits spells. -/
def ofDigits : List (Fin β) → ℕ
  | [] => 0
  | d :: ds => d.val * β ^ ds.length + ofDigits ds

/-- The last `w` digits of a number. -/
def toDigits [NeZero β] : ℕ → ℕ → List (Fin β)
  | 0, _ => []
  | w + 1, n => Fin.ofNat β (n / β ^ w) :: toDigits w n

@[simp] theorem length_toDigits [NeZero β] (w n : ℕ) :
    (toDigits w n : List (Fin β)).length = w := by
  induction w with
  | zero => rfl
  | succ w ih => rw [toDigits, List.length_cons, ih]

theorem ofDigits_lt (ds : List (Fin β)) : ofDigits ds < β ^ ds.length := by
  induction ds with
  | nil => exact Nat.one_pos
  | cons d ds ih =>
    rw [ofDigits, List.length_cons, pow_succ]
    calc d.val * β ^ ds.length + ofDigits ds
        < d.val * β ^ ds.length + β ^ ds.length := by omega
      _ = (d.val + 1) * β ^ ds.length := by ring
      _ ≤ β * β ^ ds.length := Nat.mul_le_mul_right _ d.isLt
      _ = β ^ ds.length * β := Nat.mul_comm ..

/-- A number's last `w` digits spell its remainder. -/
theorem ofDigits_toDigits_mod [NeZero β] (w n : ℕ) :
    ofDigits (toDigits w n : List (Fin β)) = n % β ^ w := by
  induction w with
  | zero => rw [toDigits, ofDigits, pow_zero, Nat.mod_one]
  | succ w ih =>
    rw [toDigits, ofDigits, ih, length_toDigits, pow_succ, Nat.mod_mul]
    show n / β ^ w % β * β ^ w + n % β ^ w = n % β ^ w + β ^ w * (n / β ^ w % β)
    ring

/-- **Writing and reading gives the number back.** -/
theorem ofDigits_toDigits [NeZero β] {w n : ℕ} (h : n < β ^ w) :
    ofDigits (toDigits w n : List (Fin β)) = n := by
  rw [ofDigits_toDigits_mod, Nat.mod_eq_of_lt h]

/-- What is added at the places from `w` on does not show in the last `w` digits. -/
theorem toDigits_add_mul [NeZero β] (w n k m : ℕ) (h : w ≤ m) :
    (toDigits w (k * β ^ m + n) : List (Fin β)) = toDigits w n := by
  induction w with
  | zero => rfl
  | succ w ih =>
    have hpos : 0 < β ^ w := Nat.pow_pos (NeZero.pos β)
    obtain ⟨j, rfl⟩ := Nat.exists_eq_add_of_le h
    have hsplit : k * β ^ (w + 1 + j) + n = n + β ^ w * (β * (k * β ^ j)) := by ring
    rw [toDigits, toDigits, ih (by omega), hsplit, Nat.add_mul_div_left _ _ hpos]
    refine congrArg (· :: _) (Fin.ext ?_)
    show (n / β ^ w + β * (k * β ^ j)) % β = n / β ^ w % β
    rw [Nat.add_mul_mod_self_left]

/-- **Reading and writing at the same width gives the digits back.** -/
theorem toDigits_ofDigits [NeZero β] (ds : List (Fin β)) :
    toDigits ds.length (ofDigits ds) = ds := by
  induction ds with
  | nil => rfl
  | cons d ds ih =>
    have hpos : 0 < β ^ ds.length := Nat.pow_pos (NeZero.pos β)
    rw [List.length_cons, toDigits, ofDigits, toDigits_add_mul _ _ _ _ le_rfl, ih]
    refine congrArg (· :: ds) (Fin.ext ?_)
    show (d.val * β ^ ds.length + ofDigits ds) / β ^ ds.length % β = d.val
    rw [Nat.add_comm, Nat.add_mul_div_right _ _ hpos, Nat.div_eq_of_lt (ofDigits_lt ds),
      Nat.zero_add, Nat.mod_eq_of_lt d.isLt]

end BigEndian
