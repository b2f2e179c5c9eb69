import Mathlib.Algebra.Order.Field.Power
import Mathlib.Data.Int.Log
import Mathlib.Data.Rat.Floor
import Mathlib.Tactic.Linarith
import Mathlib.Tactic.NormNum
import Mathlib.Tactic.Positivity

/-!
# Rounding to doubles

A double is a rational number here, and an operation is the exact one, rounded to the
nearest double, with ties to the even one.  The numbers are nonnegative and small enough
not to overflow.  Where a rounded number is compared with a bound, the rounding can be taken
back to the unrounded one: that gives the exact place where a comparison changes.

## Main definitions

* `roundHalfEven` — the nearest integer, and the even one of two.
* `binary64` — the nearest double.
* `roundDigits` — `round(x, digits)`.

## Main results

* `le_roundHalfEven` — when a rounded number reaches an integer.
* `le_binary64` — **when a nearest double reaches a bound.**
-/

namespace Binary64

/-- The nearest integer, and the even one of two. -/
def roundHalfEven (q : ℚ) : ℤ :=
  if q - ⌊q⌋ < 1 / 2 then ⌊q⌋
  else if 1 / 2 < q - ⌊q⌋ then ⌊q⌋ + 1
  else if Even ⌊q⌋ then ⌊q⌋ else ⌊q⌋ + 1

/-- The exponent of the last place of a number. -/
def lastPlace (q : ℚ) : ℤ := max (Int.log 2 q - 52) (-1074)

/-- The nearest double of a nonnegative number. -/
def binary64 (q : ℚ) : ℚ := roundHalfEven (q / 2 ^ lastPlace q) * 2 ^ lastPlace q

/-- `round(x, digits)`: the decimal number that is nearest, as a double. -/
def roundDigits (digits : ℕ) (x : ℚ) : ℚ := binary64 (roundHalfEven (x * 10 ^ digits) / 10 ^ digits)

/-! ### The nearest integer -/

@[simp] theorem roundHalfEven_intCast (n : ℤ) : roundHalfEven n = n := by
  simp [roundHalfEven]

/-- **When a rounded number reaches an integer**: from halfway on, and at halfway an even one. -/
theorem le_roundHalfEven {k : ℤ} {q : ℚ} :
    k ≤ roundHalfEven q ↔ (k : ℚ) - 1 / 2 < q ∨ (k : ℚ) - 1 / 2 = q ∧ Even k := by
  have hfloor := Int.floor_le q
  have hlt := Int.lt_floor_add_one q
  have hdown : k ≤ ⌊q⌋ ↔ (k : ℚ) ≤ q := Int.le_floor
  -- an integer that is not reached is one above at least
  have hover : ∀ {n : ℤ}, ¬k ≤ n → (n : ℚ) + 1 ≤ k := fun h => by exact_mod_cast not_le.mp h
  have hhalf : ¬q - ⌊q⌋ < 1 / 2 → ¬1 / 2 < q - ⌊q⌋ → q - ⌊q⌋ = 1 / 2 := fun h h' =>
    le_antisymm (not_lt.mp h') (not_lt.mp h)
  unfold roundHalfEven
  split_ifs with hless hmore heven
  · constructor
    · intro hk
      have := hdown.mp hk
      exact .inl (by linarith)
    · intro h
      by_contra hk
      have := hover hk
      rcases h with h | ⟨h, -⟩ <;> linarith
  · constructor
    · intro hk
      have : (k : ℚ) ≤ ⌊q⌋ + 1 := by exact_mod_cast hk
      exact .inl (by linarith)
    · intro h
      by_contra hk
      have := hover hk
      push_cast at this
      rcases h with h | ⟨h, -⟩ <;> linarith
  · have hq := hhalf hless hmore
    constructor
    · intro hk
      have := hdown.mp hk
      exact .inl (by linarith)
    · intro h
      by_contra hk
      have hge := hover hk
      rcases h with h | ⟨h, hk'⟩
      · linarith
      · -- the integer above the even floor is odd
        have hsucc : k = ⌊q⌋ + 1 := by
          have : (k : ℚ) = ⌊q⌋ + 1 := by linarith
          exact_mod_cast this
        rw [hsucc] at hk'
        exact Int.not_even_iff_odd.mpr heven.add_one hk'
  · have hq := hhalf hless hmore
    constructor
    · intro hk
      rcases hk.lt_or_eq with hk | hk
      · have := hdown.mp (Int.lt_add_one_iff.mp hk)
        exact .inl (by linarith)
      · -- halfway, and the floor is odd
        refine .inr ⟨?_, ?_⟩
        · rw [hk]
          push_cast
          linarith
        · rw [hk]
          exact (Int.not_even_iff_odd.mp heven).add_one
    · intro h
      by_contra hk
      have := hover hk
      push_cast at this
      rcases h with h | ⟨h, -⟩ <;> linarith

/-- Below an integer a number is rounded to that integer at most. -/
theorem roundHalfEven_le {k : ℤ} {q : ℚ} (h : q ≤ k) : roundHalfEven q ≤ k := by
  by_contra hk
  have hle : k + 1 ≤ roundHalfEven q := not_le.mp hk
  rw [le_roundHalfEven] at hle
  push_cast at hle
  rcases hle with h' | ⟨h', -⟩ <;> linarith

/-! ### The nearest double -/

theorem two_zpow_pos (j : ℤ) : (0 : ℚ) < 2 ^ j := by positivity

/-- The last place of a number between two powers of two. -/
theorem lastPlace_of_binade {j : ℤ} {q : ℚ} (hj : -1022 ≤ j) (h : 2 ^ j ≤ q) (h' : q < 2 ^ (j + 1)) :
    lastPlace q = j - 52 := by
  have hq : 0 < q := (two_zpow_pos j).trans_le h
  have hlog : Int.log 2 q = j := by
    refine le_antisymm (Int.lt_add_one_iff.mp ?_) ?_
    · exact (Int.lt_zpow_iff_log_lt (b := 2) one_lt_two hq).mp (by exact_mod_cast h')
    · exact (Int.zpow_le_iff_le_log (b := 2) one_lt_two hq).mp (by exact_mod_cast h)
  rw [lastPlace, hlog]
  omega

/-- Every positive integer lies behind a power of two, up to the next. -/
theorem exists_binade {m n : ℕ} (h : m < 2 ^ n) :
    ∃ j : ℤ, -1 ≤ j ∧ j < n ∧ (2 : ℚ) ^ j < m + 1 ∧ (m : ℚ) + 1 ≤ 2 ^ (j + 1) := by
  rcases m.eq_zero_or_pos with rfl | hm
  · exact ⟨-1, le_refl _, by omega, by norm_num, by norm_num⟩
  · have hlog : Nat.log 2 m < n := Nat.log_lt_of_lt_pow hm.ne' h
    have hle : ((2 ^ Nat.log 2 m : ℕ) : ℚ) ≤ m := by exact_mod_cast Nat.pow_log_le_self 2 hm.ne'
    have hlt : ((m + 1 : ℕ) : ℚ) ≤ ((2 ^ (Nat.log 2 m + 1) : ℕ) : ℚ) := by
      exact_mod_cast Nat.lt_pow_succ_log_self one_lt_two m
    push_cast at hle hlt
    refine ⟨Nat.log 2 m, by omega, by omega, ?_, ?_⟩
    · rw [zpow_natCast]
      linarith
    · rwa [zpow_add₀ two_ne_zero, zpow_natCast, zpow_one, ← pow_succ]

/-- Below a power of two the nearest double is that power at most. -/
theorem binary64_le {j : ℤ} {q : ℚ} (hj : -1022 ≤ j) (h0 : 0 ≤ q) (h : q < 2 ^ j) :
    binary64 q ≤ 2 ^ j := by
  rcases h0.eq_or_lt with rfl | hq
  · have hzero : roundHalfEven 0 = 0 := by exact_mod_cast roundHalfEven_intCast 0
    rw [binary64, zero_div, hzero, Int.cast_zero, zero_mul]
    exact (two_zpow_pos j).le
  have hplace : lastPlace q ≤ j := by
    have hlog : Int.log 2 q < j := (Int.lt_zpow_iff_log_lt (b := 2) one_lt_two hq).mp (by exact_mod_cast h)
    rw [lastPlace]
    omega
  -- the power is an integer of last places
  obtain ⟨n, hn⟩ := Int.le.dest hplace
  have hpow : (2 : ℚ) ^ j = ((2 ^ n : ℕ) : ℤ) * 2 ^ lastPlace q := by
    rw [← hn, zpow_add₀ two_ne_zero, zpow_natCast, mul_comm]
    push_cast
    rfl
  rw [binary64, hpow]
  refine mul_le_mul_of_nonneg_right ?_ (two_zpow_pos _).le
  refine Int.cast_le.mpr (roundHalfEven_le ?_)
  rw [div_le_iff₀ (two_zpow_pos _), ← hpow]
  exact h.le

/-- **When a nearest double reaches a bound**: when the number, counted in last places, is
rounded to what the bound is rounded up to. -/
theorem le_binary64 {j : ℤ} {c q : ℚ} (hj : -1022 ≤ j) (h0 : 0 ≤ q) (hq : q < 2 ^ (j + 1))
    (hc : 2 ^ j < c) :
    c ≤ binary64 q ↔ ⌈c / 2 ^ (j - 52)⌉ ≤ roundHalfEven (q / 2 ^ (j - 52)) := by
  have hplace : (2 : ℚ) ^ j = ((2 ^ 52 : ℕ) : ℤ) * 2 ^ (j - 52) := by
    rw [show (((2 ^ 52 : ℕ) : ℤ) : ℚ) = 2 ^ (52 : ℤ) by norm_num, ← zpow_add₀ two_ne_zero]
    congr 1
    omega
  by_cases hbinade : 2 ^ j ≤ q
  · rw [binary64, lastPlace_of_binade hj hbinade hq, ← div_le_iff₀ (two_zpow_pos _), Int.ceil_le]
  · -- below the power of two both sides are too small
    have hlt : q < 2 ^ j := not_le.mp hbinade
    refine iff_of_false (fun h => ?_) fun h => ?_
    · exact absurd (hc.trans_le (h.trans (binary64_le hj h0 hlt))) (lt_irrefl _)
    · have hsmall : roundHalfEven (q / 2 ^ (j - 52)) ≤ ((2 ^ 52 : ℕ) : ℤ) := by
        refine roundHalfEven_le ?_
        rw [div_le_iff₀ (two_zpow_pos _), ← hplace]
        exact hlt.le
      have hbig : ((2 ^ 52 : ℕ) : ℤ) < ⌈c / 2 ^ (j - 52)⌉ := by
        rw [Int.lt_ceil, lt_div_iff₀ (two_zpow_pos _), ← hplace]
        exact hc
      omega

/-- A nearest double stays below a bound that is more than half a last place away. -/
theorem binary64_lt {j : ℤ} {c q : ℚ} (hj : -1022 ≤ j) (h0 : 0 ≤ q) (hq : q < 2 ^ (j + 1))
    (hc : 2 ^ j < c) (h : q + 2 ^ (j - 52) / 2 < c) : binary64 q < c := by
  by_contra hle
  rw [not_lt, le_binary64 hj h0 hq hc, le_roundHalfEven] at hle
  have hceil := Int.le_ceil (c / 2 ^ (j - 52))
  have hback : c / 2 ^ (j - 52) - 1 / 2 ≤ q / 2 ^ (j - 52) := by
    rcases hle with h | ⟨h, -⟩ <;> linarith
  rw [div_sub' (two_zpow_pos _).ne', div_le_div_iff_of_pos_right (two_zpow_pos _)] at hback
  linarith

/-- A number is less than the power of two that its last place tells. -/
theorem lt_of_lastPlace {q : ℚ} : q < 2 ^ (lastPlace q + 53) := by
  have hlog : q < 2 ^ (Int.log 2 q + 1) := by
    exact_mod_cast Int.lt_zpow_succ_log_self (b := 2) one_lt_two q
  refine hlog.trans_le (zpow_le_zpow_right₀ one_le_two ?_)
  rw [lastPlace]
  omega

theorem lastPlace_nonpos {q : ℚ} (hq : 0 < q) (h : q < 2 ^ 53) : lastPlace q ≤ 0 := by
  have hlog : Int.log 2 q < 53 :=
    (Int.lt_zpow_iff_log_lt (b := 2) one_lt_two hq).mp (by exact_mod_cast h)
  rw [lastPlace]
  omega

/-- Where the last place is below the point, an integer is a number of last places. -/
theorem intCast_lastPlaces {q : ℚ} (h : lastPlace q ≤ 0) (m : ℤ) :
    ∃ k : ℤ, (m : ℚ) = k * 2 ^ lastPlace q := by
  obtain ⟨n, hn⟩ := Int.le.dest h
  refine ⟨m * 2 ^ n, ?_⟩
  have hpow : (2 : ℚ) ^ n * 2 ^ lastPlace q = 1 := by
    rw [← zpow_natCast, ← zpow_add₀ two_ne_zero, add_comm, hn, zpow_zero]
  push_cast
  rw [mul_assoc, hpow, mul_one]

/-- **An integer is reached from half a last place below it.** -/
theorem intCast_le_binary64 {q : ℚ} (hq : 0 < q) (hlt : q < 2 ^ 53) {m : ℤ}
    (h : (m : ℚ) - 2 ^ lastPlace q / 2 < q) : (m : ℚ) ≤ binary64 q := by
  obtain ⟨k, hk⟩ := intCast_lastPlaces (lastPlace_nonpos hq hlt) m
  rw [hk] at h ⊢
  have hround : k ≤ roundHalfEven (q / 2 ^ lastPlace q) := by
    rw [le_roundHalfEven, lt_div_iff₀ (two_zpow_pos _)]
    left
    linarith
  exact mul_le_mul_of_nonneg_right (by exact_mod_cast hround) (two_zpow_pos _).le

/-- Integers of fifty-three bits are doubles. -/
theorem binary64_natCast {n : ℕ} (h : n < 2 ^ 53) : binary64 n = n := by
  rcases n.eq_zero_or_pos with rfl | hn
  · have hzero : roundHalfEven 0 = 0 := by exact_mod_cast roundHalfEven_intCast 0
    rw [binary64, Nat.cast_zero, zero_div, hzero, Int.cast_zero, zero_mul]
  · obtain ⟨k, hk⟩ := intCast_lastPlaces
      (lastPlace_nonpos (q := n) (by exact_mod_cast hn) (by exact_mod_cast h)) n
    rw [Int.cast_natCast] at hk
    have hdiv : (n : ℚ) / 2 ^ lastPlace n = k := by
      rw [div_eq_iff (two_zpow_pos _).ne']
      exact hk
    rw [binary64, hdiv, roundHalfEven_intCast, ← hk]

/-- A nearest double of a nonnegative number is nonnegative. -/
theorem binary64_nonneg {q : ℚ} (h : 0 ≤ q) : 0 ≤ binary64 q := by
  refine mul_nonneg ?_ (two_zpow_pos _).le
  have hround : 0 ≤ roundHalfEven (q / 2 ^ lastPlace q) := by
    rw [le_roundHalfEven]
    have : 0 ≤ q / 2 ^ lastPlace q := div_nonneg h (two_zpow_pos _).le
    push_cast
    exact .inl (by linarith)
  exact_mod_cast hround

end Binary64
