import Mathlib.Data.List.Count
import Mathlib.Data.List.Induction

/-!
# Counting up to an equality test

A dict of counts whose keys are told apart by a test, `same`: a key that is there is
counted once more, and the key that was there first stays.

## Main definitions

* `bump`, `tally` — count one key, and a list of them.

## Main results

* `tally_spec` — **the counts are those of the list, one key for each class.**
* `forall_tally_iff` — what holds of all counts, said of the list.
* `take_filter_eq_iff` — when two filters, one of which passes less, begin alike.
-/

namespace Tally

variable {K : Type*} {same : K → K → Bool}

/-- `d[k] = d.get(k, 0) + 1`. -/
def bump (same : K → K → Bool) (k : K) : List (K × ℕ) → List (K × ℕ)
  | [] => [(k, 1)]
  | (l, n) :: d => if same l k then (l, n + 1) :: d else (l, n) :: bump same k d

/-- The counts of a list. -/
def tally (same : K → K → Bool) (ks : List K) : List (K × ℕ) :=
  ks.foldl (fun d k => bump same k d) []

theorem tally_concat (ks : List K) (k : K) :
    tally same (ks ++ [k]) = bump same k (tally same ks) := by
  rw [tally, List.foldl_append]
  rfl

/-- No key of the dict is the same as another. -/
def Apart (same : K → K → Bool) (d : List (K × ℕ)) : Prop :=
  d.Pairwise fun a b => same a.1 b.1 = false

/-- The test is an equivalence on the keys with a property. -/
structure Equates (same : K → K → Bool) (P : K → Prop) : Prop where
  refl : ∀ {a}, P a → same a a = true
  symm : ∀ {a b}, P a → P b → same a b = true → same b a = true
  trans : ∀ {a b c}, same a b = true → same b c = true → same a c = true

variable {P : K → Prop}

/-- The same keys are counted alike. -/
theorem Equates.countP_congr (h : Equates same P) {a b : K} (ha : P a) (hb : P b)
    (hab : same a b = true) (ks : List K) : ks.countP (same a) = ks.countP (same b) := by
  refine List.countP_congr fun k _ => ⟨fun hk => ?_, h.trans hab⟩
  exact h.trans (h.symm ha hb hab) hk

/-- A key that is not there goes last. -/
theorem bump_new {k : K} {d : List (K × ℕ)} (h : ∀ a ∈ d, same a.1 k = false) :
    bump same k d = d ++ [(k, 1)] := by
  induction d with
  | nil => rfl
  | cons a d ih =>
    rw [List.forall_mem_cons] at h
    rw [bump, h.1, if_neg Bool.false_ne_true, ih h.2]
    rfl

/-- A key that is there is counted in its place, and no other is. -/
theorem bump_old (h : Equates same P) {k : K} (hk : P k) {d : List (K × ℕ)} (hd : ∀ a ∈ d, P a.1)
    (hapart : Apart same d) (hmem : ∃ a ∈ d, same a.1 k = true) :
    bump same k d = d.map fun a => (a.1, if same a.1 k then a.2 + 1 else a.2) := by
  induction d with
  | nil =>
    obtain ⟨a, ha, -⟩ := hmem
    cases ha
  | cons a d ih =>
    obtain ⟨hhead, htail⟩ := List.pairwise_cons.mp hapart
    obtain ⟨hPa, hPd⟩ := List.forall_mem_cons.mp hd
    rw [bump, List.map_cons]
    cases hak : same a.1 k with
    | true =>
      -- the keys behind are apart from this one, and so from the key counted
      have hrest : ∀ b ∈ d, same b.1 k = false := by
        intro b hb
        by_contra hbk
        rw [Bool.not_eq_false] at hbk
        have hab := h.trans hak (h.symm (hPd b hb) hk hbk)
        rw [hhead b hb] at hab
        cases hab
      rw [if_pos rfl, if_pos rfl, List.cons.injEq]
      refine ⟨rfl, ?_⟩
      conv_lhs => rw [← List.map_id d]
      apply List.map_congr_left
      intro b hb
      rw [hrest b hb]
      rfl
    | false =>
      obtain ⟨b, hb, hbk⟩ := hmem
      have hbd : b ∈ d := by
        rcases List.mem_cons.mp hb with rfl | hb
        · rw [hak] at hbk
          cases hbk
        · exact hb
      rw [if_neg Bool.false_ne_true, if_neg Bool.false_ne_true, ih hPd htail ⟨b, hbd, hbk⟩]

/-- **The counts of a list**: the keys are apart, each is one of the list with its count
there, and every member of the list is the same as one of them. -/
theorem tally_spec (h : Equates same P) {ks : List K} (hks : ∀ k ∈ ks, P k) :
    Apart same (tally same ks) ∧
      (∀ a ∈ tally same ks, a.1 ∈ ks ∧ a.2 = ks.countP (same a.1)) ∧
      ∀ k ∈ ks, ∃ a ∈ tally same ks, same a.1 k = true := by
  induction ks using List.reverseRecOn with
  | nil => exact ⟨List.Pairwise.nil, by simp [tally], by simp⟩
  | append_singleton ks k ih =>
    have hk := hks k (by simp)
    obtain ⟨hapart, hcount, hcover⟩ := ih fun l hl => hks l (by simp [hl])
    have hP : ∀ a ∈ tally same ks, P a.1 := fun a ha => hks _ (by simp [(hcount a ha).1])
    have hlast : ∀ l, [k].countP (same l) = if same l k then 1 else 0 := by
      intro l
      rw [List.countP_singleton]
    rw [tally_concat]
    by_cases hmem : ∃ a ∈ tally same ks, same a.1 k = true
    · rw [bump_old h hk hP hapart hmem]
      refine ⟨?_, ?_, ?_⟩
      · exact List.pairwise_map.mpr hapart
      · intro b hb
        obtain ⟨a, ha, rfl⟩ := List.mem_map.mp hb
        obtain ⟨hin, heq⟩ := hcount a ha
        refine ⟨List.mem_append_left _ hin, ?_⟩
        simp only [List.countP_append, hlast, ← heq]
        split <;> rfl
      · intro l hl
        obtain ⟨a, ha, hal⟩ : ∃ a ∈ tally same ks, same a.1 l = true := by
          rcases List.mem_append.mp hl with hl | hl
          · exact hcover l hl
          · rwa [List.mem_singleton.mp hl]
        exact ⟨_, List.mem_map_of_mem ha, hal⟩
    · have hnone : ∀ a ∈ tally same ks, same a.1 k = false := by
        intro a ha
        by_contra hak
        exact hmem ⟨a, ha, by rwa [Bool.not_eq_false] at hak⟩
      rw [bump_new hnone]
      refine ⟨?_, ?_, ?_⟩
      · refine List.pairwise_append.mpr ⟨hapart, List.pairwise_singleton _ _, fun a ha b hb => ?_⟩
        rw [List.mem_singleton.mp hb]
        exact hnone a ha
      · intro b hb
        rcases List.mem_append.mp hb with hb | hb
        · obtain ⟨hin, heq⟩ := hcount b hb
          refine ⟨List.mem_append_left _ hin, ?_⟩
          rw [List.countP_append, hlast, ← heq, hnone b hb]
          rfl
        · -- the new key is the same as no member before it
          rw [List.mem_singleton.mp hb]
          refine ⟨by simp, ?_⟩
          have hzero : ks.countP (same k) = 0 := by
            rw [List.countP_eq_zero]
            intro l hl hkl
            obtain ⟨a, ha, hal⟩ := hcover l hl
            have hlk := h.symm hk (hks l (by simp [hl])) hkl
            have hak := h.trans hal hlk
            rw [hnone a ha] at hak
            cases hak
          rw [List.countP_append, hlast, hzero, h.refl hk]
          rfl
      · intro l hl
        rcases List.mem_append.mp hl with hl | hl
        · obtain ⟨a, ha, hal⟩ := hcover l hl
          exact ⟨a, List.mem_append_left _ ha, hal⟩
        · rw [List.mem_singleton.mp hl]
          exact ⟨(k, 1), by simp, h.refl hk⟩

/-- What all counts have, the counts of all members have. -/
theorem forall_tally_iff (h : Equates same P) {ks : List K} (hks : ∀ k ∈ ks, P k)
    {Q : ℕ → Prop} :
    (∀ a ∈ tally same ks, Q a.2) ↔ ∀ k ∈ ks, Q (ks.countP (same k)) := by
  obtain ⟨-, hcount, hcover⟩ := tally_spec h hks
  constructor
  · intro hQ k hk
    obtain ⟨a, ha, hak⟩ := hcover k hk
    obtain ⟨hin, heq⟩ := hcount a ha
    rw [← h.countP_congr (hks _ hin) (hks k hk) hak, ← heq]
    exact hQ a ha
  · intro hQ a ha
    obtain ⟨hin, heq⟩ := hcount a ha
    rw [heq]
    exact hQ a.1 hin

/-! ### The beginnings of two filters -/

section

variable {A : Type*}

/-- **Two filters, one of which passes less, begin alike** iff what only the other passes stands
behind enough of what both pass. -/
theorem take_filter_eq_iff {p q : A → Bool} (hqp : ∀ a, q a = true → p a = true) : ∀ (l : List A)
    (n : ℕ), (l.filter p).take n = (l.filter q).take n ↔
      ∀ before a after, l = before ++ a :: after → p a = true → q a = false → n ≤ before.countP q := by
  intro l
  induction l with
  | nil =>
    intro n
    refine ⟨fun _ before a after h => ?_, fun _ => rfl⟩
    cases before <;> cases h
  | cons x l ih =>
    intro n
    -- a split of the list is at its head or in its tail
    have hsplits : (∀ before a after, x :: l = before ++ a :: after → p a = true → q a = false →
        n ≤ before.countP q) ↔ (p x = true → q x = false → n ≤ 0) ∧
          ∀ before a after, l = before ++ a :: after → p a = true → q a = false →
            n ≤ (x :: before).countP q := by
      constructor
      · intro h
        refine ⟨h [] x l rfl, fun before a after hl => h (x :: before) a after ?_⟩
        rw [hl, List.cons_append]
      · rintro ⟨hhead, htail⟩ before a after hl
        cases before with
        | nil =>
          obtain ⟨rfl, rfl⟩ := List.cons.inj hl
          exact hhead
        | cons y before =>
          obtain ⟨rfl, hrest⟩ := List.cons.inj hl
          exact htail before a after hrest
    rw [hsplits]
    cases hp : p x with
    | false =>
      have hq : q x = false := by
        by_contra hq
        rw [hqp x (Bool.not_eq_false _ ▸ hq)] at hp
        cases hp
      have hcount : ∀ before : List A, (x :: before).countP q = before.countP q :=
        fun before => List.countP_cons_of_neg (by rw [hq]; exact Bool.false_ne_true)
      rw [List.filter_cons_of_neg (by rw [hp]; exact Bool.false_ne_true),
        List.filter_cons_of_neg (by rw [hq]; exact Bool.false_ne_true), ih]
      simp only [hcount]
      exact ⟨fun h => ⟨nofun, h⟩, fun h => h.2⟩
    | true =>
      cases n with
      | zero => exact ⟨fun _ => ⟨fun _ _ => Nat.le_refl 0, fun _ _ _ _ _ _ => Nat.zero_le _⟩,
          fun _ => by rw [List.take_zero, List.take_zero]⟩
      | succ n =>
        cases hq : q x with
        | true =>
          have hcount : ∀ before : List A, (x :: before).countP q = before.countP q + 1 :=
            fun before => List.countP_cons_of_pos hq
          rw [List.filter_cons_of_pos hp, List.filter_cons_of_pos hq, List.take_succ_cons,
            List.take_succ_cons, List.cons.injEq, ih]
          simp only [hcount, Nat.add_le_add_iff_right]
          exact ⟨fun h => ⟨nofun, h.2⟩, fun h => ⟨trivial, h.2⟩⟩
        | false =>
          -- the head of the one is not in the other
          refine iff_of_false (fun h => ?_) fun h => Nat.not_succ_le_zero n (h.1 rfl rfl)
          rw [List.filter_cons_of_pos hp, List.take_succ_cons] at h
          have hmem : x ∈ (List.filter q (x :: l)).take (n + 1) := h ▸ List.mem_cons_self
          have hx := (List.mem_filter.mp (List.mem_of_mem_take hmem)).2
          rw [hq] at hx
          cases hx

end

end Tally
