import Mathlib.Data.List.Nodup
import Mathlib.Algebra.Order.Ring.Int
import Mathlib.Tactic.Linarith
import Mathlib.Tactic.Ring

/-!
# Grids of time windows

A grid is an origin and a width, its windows start at the origin and follow each
other.  A half-open window holds every time of its own; with both ends in, a time at
a start is in the window before as well.

## Main definitions

* `starts` — the starts of the windows that are over by now.
* `startOf` — the start of the window a time is in.

## Main results

* `starts_eq` — the starts, as a loop finds them.
* `mem_starts` — which starts these are.
* `countP_closed` — **how many closed windows of a grid hold a time.**
* `countP_closed_eq_one_iff` — when it is one.
-/

namespace Grid

variable {origin width s t now : ℤ}

/-- The starts of the windows that are over. -/
def starts (origin width now : ℤ) : List ℤ :=
  (List.range ((now - origin) / width).toNat).map fun k : ℕ => origin + k * width

/-- The start of the window a time is in. -/
def startOf (origin width t : ℤ) : ℤ := t - (t - origin) % width

/-- **Which starts these are.** -/
theorem mem_starts (hwidth : 0 < width) :
    s ∈ starts origin width now ↔ width ∣ s - origin ∧ origin ≤ s ∧ s + width ≤ now := by
  unfold starts
  rw [List.mem_map]
  constructor
  · rintro ⟨k, hk, rfl⟩
    have hk' : (k : ℤ) + 1 ≤ (now - origin) / width := by
      have := List.mem_range.mp hk
      omega
    have hle := (Int.le_ediv_iff_mul_le hwidth).mp hk'
    refine ⟨⟨k, by ring⟩, ?_, by linarith⟩
    have : 0 ≤ (k : ℤ) * width := Int.mul_nonneg (Int.natCast_nonneg k) hwidth.le
    omega
  · rintro ⟨⟨k, hk⟩, hs, hend⟩
    have hk0 : 0 ≤ k := by
      by_contra hneg
      have : width * k < 0 := Int.mul_neg_of_pos_of_neg hwidth (by omega)
      omega
    obtain ⟨n, rfl⟩ := Int.eq_ofNat_of_zero_le hk0
    refine ⟨n, List.mem_range.mpr ?_, by linarith⟩
    have hle : (n : ℤ) + 1 ≤ (now - origin) / width := by
      rw [Int.le_ediv_iff_mul_le hwidth]
      linarith
    omega

theorem nodup_starts (hwidth : 0 < width) : (starts origin width now).Nodup := by
  refine List.Nodup.map ?_ List.nodup_range
  intro k l hkl
  have : (k : ℤ) * width = l * width := by simpa using hkl
  exact_mod_cast Int.eq_of_mul_eq_mul_right hwidth.ne' this

/-- **The starts, as a loop finds them**: one after the other, as long as its window is
over. -/
theorem starts_eq (hwidth : 0 < width) :
    starts origin width now =
      if origin + width ≤ now then origin :: starts (origin + width) width now else [] := by
  unfold starts
  split_ifs with h
  · -- the first window is over, and the others are those of the grid one window on
    have hshift : (now - (origin + width)) / width = (now - origin) / width - 1 := by
      have hsub : now - (origin + width) = now - origin + (-1) * width := by ring
      rw [hsub, Int.add_mul_ediv_right _ _ hwidth.ne']
      ring
    have hone : 1 ≤ (now - origin) / width := by
      rw [Int.le_ediv_iff_mul_le hwidth]
      omega
    obtain ⟨n, hn⟩ : ∃ n : ℕ, (now - origin) / width = n + 1 :=
      ⟨((now - origin) / width - 1).toNat, by omega⟩
    rw [hshift, hn, show ((n : ℤ) + 1).toNat = n + 1 by omega,
      show ((n : ℤ) + 1 - 1).toNat = n by omega, List.range_succ_eq_map, List.map_cons, List.map_map]
    congr 1
    · simp
    · refine List.map_congr_left fun k _ => ?_
      simp only [Function.comp_apply, Nat.succ_eq_add_one, Nat.cast_add, Nat.cast_one]
      ring
  · have hneg : (now - origin) / width < 1 := by
      rw [Int.ediv_lt_iff_lt_mul hwidth]
      omega
    rw [show ((now - origin) / width).toNat = 0 by omega]
    rfl

theorem startOf_le (hwidth : 0 < width) : startOf origin width t ≤ t := by
  have := Int.emod_nonneg (t - origin) hwidth.ne'
  unfold startOf
  omega

theorem lt_startOf_add (hwidth : 0 < width) : t < startOf origin width t + width := by
  have := Int.emod_lt_of_pos (t - origin) hwidth
  unfold startOf
  omega

theorem dvd_startOf_sub (origin width t : ℤ) : width ∣ startOf origin width t - origin := by
  have h : startOf origin width t - origin = (t - origin) - (t - origin) % width := by
    unfold startOf
    ring
  rw [h]
  exact Int.dvd_self_sub_emod

/-- A time before the grid is in no window of it. -/
theorem le_startOf_iff (hwidth : 0 < width) : origin ≤ startOf origin width t ↔ origin ≤ t := by
  refine ⟨fun h => h.trans (startOf_le hwidth), fun h => ?_⟩
  have hle : (t - origin) % width ≤ t - origin := by
    rw [Int.emod_def]
    have := Int.mul_nonneg hwidth.le (Int.ediv_nonneg (sub_nonneg.mpr h) hwidth.le)
    omega
  unfold startOf
  omega

/-- The windows of a grid that a time is in are one. -/
theorem eq_startOf (hs : width ∣ s - origin) (hle : s ≤ t)
    (hlt : t < s + width) : s = startOf origin width t := by
  obtain ⟨k, hk⟩ := hs
  have hmod : (t - origin) % width = t - s := by
    have hsum : t - origin = (t - s) + width * k := by omega
    rw [hsum, Int.add_mul_emod_self_left]
    exact Int.emod_eq_of_lt (by omega) (by omega)
  unfold startOf
  omega

/-- **A time is in one window of a grid, and with both ends in, also in the one that ends
there.** -/
theorem closed_iff (hwidth : 0 < width) (hs : width ∣ s - origin) :
    s ≤ t ∧ t ≤ s + width ↔
      s = startOf origin width t ∨ (width ∣ t - origin ∧ s = t - width) := by
  constructor
  · rintro ⟨hle, hend⟩
    rcases hend.lt_or_eq with hlt | heq
    · exact .inl (eq_startOf hs hle hlt)
    · refine .inr ⟨?_, by omega⟩
      obtain ⟨k, hk⟩ := hs
      exact ⟨k + 1, by rw [mul_add]; omega⟩
  · rintro (rfl | ⟨-, rfl⟩)
    · exact ⟨startOf_le hwidth, (lt_startOf_add hwidth).le⟩
    · omega

/-- The start of a window is no window before it. -/
theorem startOf_ne (hwidth : 0 < width) : startOf origin width t ≠ t - width := by
  have : t < startOf origin width t + width := lt_startOf_add hwidth
  omega

/-- **How many closed windows of a grid hold a time**: its own, and one that ends there. -/
theorem countP_closed (hwidth : 0 < width) {L : List ℤ} (hL : L.Nodup)
    (hgrid : ∀ s ∈ L, width ∣ s - origin) (t : ℤ) :
    (L.countP fun s => s ≤ t ∧ t ≤ s + width)
      = (if startOf origin width t ∈ L then 1 else 0)
        + if width ∣ t - origin ∧ t - width ∈ L then 1 else 0 := by
  have hsplit : ∀ M : List ℤ, (∀ s ∈ M, width ∣ s - origin) →
      (M.countP fun s => s ≤ t ∧ t ≤ s + width)
        = M.count (startOf origin width t) + if width ∣ t - origin then M.count (t - width) else 0 := by
    intro M hM
    induction M with
    | nil => simp
    | cons s M ih =>
      have hs := closed_iff (t := t) hwidth (hM s List.mem_cons_self)
      have hne : startOf origin width t ≠ t - width := startOf_ne hwidth
      rw [List.countP_cons, List.count_cons, List.count_cons,
        ih fun r hr => hM r (List.mem_cons_of_mem s hr)]
      simp only [hs, beq_iff_eq, decide_eq_true_eq]
      by_cases hown : s = startOf origin width t
      · -- its own window, which is not the one that ends there
        have hother : s ≠ t - width := hown ▸ hne
        simp only [hown, true_or, if_true, hown ▸ hother, if_false, Nat.add_zero]
        omega
      · by_cases hdvd : width ∣ t - origin
        · simp only [hown, hdvd, true_and, false_or, if_true, if_false]
          omega
        · simp [hown, hdvd]
  rw [hsplit L hgrid, hL.count, hL.count]
  split_ifs <;> simp_all

/-- A time is in one closed window when none with its own among them ends there. -/
theorem countP_closed_eq_one_iff (hwidth : 0 < width) {L : List ℤ} (hL : L.Nodup)
    (hgrid : ∀ s ∈ L, width ∣ s - origin)
    (hown : width ∣ t - origin ∧ t - width ∈ L → startOf origin width t ∈ L) :
    (L.countP fun s => s ≤ t ∧ t ≤ s + width) = 1 ↔
      startOf origin width t ∈ L ∧ ¬(width ∣ t - origin ∧ t - width ∈ L) := by
  rw [countP_closed hwidth hL hgrid]
  by_cases hstart : startOf origin width t ∈ L
  · by_cases hend : width ∣ t - origin ∧ t - width ∈ L
    · simp [hstart, hend]
    · rw [if_pos hstart, if_neg hend]
      exact ⟨fun _ => ⟨hstart, hend⟩, fun _ => rfl⟩
  · have hend : ¬(width ∣ t - origin ∧ t - width ∈ L) := fun h => hstart (hown h)
    rw [if_neg hstart, if_neg hend]
    exact ⟨fun h => absurd h (by decide), fun h => absurd h.1 hstart⟩

end Grid
