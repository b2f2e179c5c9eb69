import Mathlib.Data.List.Sort
import Mathlib.Order.Lattice

/-!
# Stable sorting by a key

A stable sort keeps the order of the items with equal keys, so below each key the
sorted list is the list it came from.  A list that is sorted by its keys is fixed
by what it holds below each of them, and these two facts together say what a stable
sort does to a list.

## Main definitions

* `sortBy` — the stable sort by a key.

## Main results

* `pairwise_insertionSort_key` — a relation that respects a key sorts by it.
* `filter_sortBy` — **below one key, sorting changes nothing.**
* `eq_of_filter_eq` — sorted lists of pairs that agree below each key are equal.
* `map_eq_map_iff` — two lists sorted by key, on the same keys, carry the same values iff
  they do below each key.
* `mem_take_sortBy_iff` — **the first `n` are the items with fewer than `n` ahead of them.**
* `take_sortBy_flatMap` — **of sorted lists put one behind the other, the first `n` need
  only the first `n` of each.**
* `take_sortBy_perm_iff` — **when the first `n` do not depend on the order of the list.**
-/

namespace StableSort

variable {K A B V : Type*} [LinearOrder K] {key : A → K}

/-- The stable sort by a key. -/
def sortBy (key : A → K) (l : List A) : List A := l.insertionSort fun a b => key a ≤ key b

instance instTotal : Std.Total fun a b : A => key a ≤ key b := ⟨fun a b => le_total (key a) (key b)⟩

instance instTrans : IsTrans A fun a b => key a ≤ key b := ⟨fun _ _ _ => le_trans⟩

theorem sortBy_perm (l : List A) : (sortBy key l).Perm l := List.perm_insertionSort _ _

theorem pairwise_sortBy (l : List A) : (sortBy key l).Pairwise fun a b => key a ≤ key b :=
  List.pairwise_insertionSort _ _

/-- Sorting commutes with a map that keeps the key. -/
theorem map_sortBy {key' : B → K} {f : A → B} (hf : ∀ a, key' (f a) = key a) (l : List A) :
    (sortBy key l).map f = sortBy key' (l.map f) := by
  apply List.map_insertionSort
  intro a _ b _
  rw [hf, hf]

/-- **A relation that respects a key sorts by it**, whatever it does with equal keys. -/
theorem pairwise_insertionSort_key {r : A → A → Prop} [DecidableRel r]
    (hlt : ∀ a b, key a < key b → r a b) (hle : ∀ a b, r a b → key a ≤ key b) (l : List A) :
    (l.insertionSort r).Pairwise fun a b => key a ≤ key b := by
  have hinsert : ∀ (a : A) (m : List A), (m.Pairwise fun a b => key a ≤ key b) →
      (m.orderedInsert r a).Pairwise fun a b => key a ≤ key b := by
    intro a m
    induction m with
    | nil => exact fun _ => List.pairwise_singleton _ _
    | cons b m ih =>
      intro hm
      rw [List.pairwise_cons] at hm
      by_cases hab : r a b
      · rw [List.orderedInsert_cons_of_le r m hab, List.pairwise_cons, List.pairwise_cons]
        refine ⟨?_, hm⟩
        rw [List.forall_mem_cons]
        exact ⟨hle a b hab, fun c hc => (hle a b hab).trans (hm.1 c hc)⟩
      · -- what does not go in front has no smaller key
        have hba : key b ≤ key a := not_lt.mp fun h => hab (hlt a b h)
        rw [List.orderedInsert_of_not_le r m hab, List.pairwise_cons]
        refine ⟨fun c hc => ?_, ih hm.2⟩
        rcases (List.mem_orderedInsert r).mp hc with rfl | hc
        · exact hba
        · exact hm.1 c hc
  induction l with
  | nil => exact List.Pairwise.nil
  | cons a l ih => exact hinsert a _ ih

/-- **Below one key, sorting changes nothing.** -/
theorem filter_sortBy (l : List A) (k : K) :
    ((sortBy key l).filter fun a => key a = k) = l.filter fun a => key a = k := by
  have hsub : (l.filter fun a => key a = k).Sublist (sortBy key l) := by
    apply List.sublist_insertionSort
    · apply List.Pairwise.imp_of_mem _ (List.pairwise_of_forall fun _ _ => trivial)
      intro a b ha hb _
      have hka : key a = k := of_decide_eq_true (List.mem_filter.mp ha).2
      have hkb : key b = k := of_decide_eq_true (List.mem_filter.mp hb).2
      rw [hka, hkb]
    · exact List.filter_sublist
  have hfilter : (l.filter fun a => key a = k).Sublist
      ((sortBy key l).filter fun a => key a = k) := by
    have hsub' := hsub.filter fun a => key a = k
    rwa [List.filter_filter, show (fun a => decide (key a = k) && decide (key a = k))
      = fun a => decide (key a = k) from funext fun _ => Bool.and_self _] at hsub'
  exact (hfilter.eq_of_length_le ((sortBy_perm l).filter _).length_eq.le).symm

/-- **Sorted lists of pairs that agree below each key are equal.** -/
theorem eq_of_filter_eq {l l' : List (K × V)} (hl : l.Pairwise fun p q => p.1 ≤ q.1)
    (hl' : l'.Pairwise fun p q => p.1 ≤ q.1)
    (h : ∀ k, (l.filter fun p => p.1 = k) = l'.filter fun p => p.1 = k) : l = l' := by
  induction l generalizing l' with
  | nil =>
    cases l' with
    | nil => rfl
    | cons p' l' =>
      have hp' := h p'.1
      rw [List.filter_cons_of_pos (by simp)] at hp'
      cases hp'
  | cons p l ih =>
    cases l' with
    | nil =>
      have hp := h p.1
      rw [List.filter_cons_of_pos (by simp)] at hp
      cases hp
    | cons p' l' =>
      rw [List.pairwise_cons] at hl hl'
      -- the heads have the least key of either list
      have hmem : ∀ {a b : K × V} {m m' : List (K × V)}, (∀ q ∈ m', b.1 ≤ q.1) →
          ((a :: m).filter fun q => q.1 = a.1) = ((b :: m').filter fun q => q.1 = a.1) →
          b.1 ≤ a.1 := by
        intro a b m m' hle heq
        have hin : a ∈ (b :: m').filter fun q => q.1 = a.1 := by
          rw [← heq, List.filter_cons_of_pos (by simp)]
          exact List.mem_cons_self
        rcases List.mem_cons.mp (List.mem_filter.mp hin).1 with rfl | hin'
        · exact le_rfl
        · exact hle a hin'
      have hkey : p.1 = p'.1 :=
        le_antisymm (hmem hl.1 (h p'.1).symm) (hmem hl'.1 (h p.1))
      have hhead : p = p' := by
        have hk := h p.1
        rw [List.filter_cons_of_pos (by simp), List.filter_cons_of_pos (by simp [hkey])] at hk
        exact (List.cons.inj hk).1
      subst hhead
      congr 1
      apply ih hl.2 hl'.2
      intro k
      have hk := h k
      by_cases hpk : p.1 = k
      · rw [List.filter_cons_of_pos (by simpa using hpk),
          List.filter_cons_of_pos (by simpa using hpk)] at hk
        exact (List.cons.inj hk).2
      · rwa [List.filter_cons_of_neg (by simpa using hpk),
          List.filter_cons_of_neg (by simpa using hpk)] at hk

/-- **Two lists sorted by key, on the same keys, carry the same values iff they do
below each key.** -/
theorem map_eq_map_iff {l l' : List A} {f : A → V}
    (hl : l.Pairwise fun a b => key a ≤ key b) (hl' : l'.Pairwise fun a b => key a ≤ key b)
    (hkeys : (l.map key).Perm (l'.map key)) :
    l.map f = l'.map f ↔
      ∀ k, (l.filter fun a => key a = k).map f = (l'.filter fun a => key a = k).map f := by
  have hpairs : ∀ (m : List A) k, (m.map fun a => (key a, f a)).filter (fun p => p.1 = k)
      = ((m.filter fun a => key a = k).map f).map fun v => (k, v) := by
    intro m k
    rw [List.filter_map, List.map_map]
    apply List.map_congr_left
    intro a ha
    have hk : key a = k := of_decide_eq_true (List.mem_filter.mp ha).2
    rw [Function.comp_apply, hk]
  have hsorted : ∀ {m : List A}, m.Pairwise (fun a b => key a ≤ key b) →
      (m.map fun a => (key a, f a)).Pairwise fun p q => p.1 ≤ q.1 := by
    intro m hm
    exact List.pairwise_map.mpr hm
  constructor
  · intro h k
    have hkeyed : l.map key = l'.map key :=
      List.Perm.eq_of_pairwise (fun a b _ _ (hab : a ≤ b) (hba : b ≤ a) => le_antisymm hab hba)
        (List.pairwise_map.mpr hl) (List.pairwise_map.mpr hl') hkeys
    have hzip : ∀ m : List A, (m.map fun a => (key a, f a)) = (m.map key).zip (m.map f) :=
      fun _ => Eq.symm List.zip_map'
    have hfilter := hpairs l k
    rw [hzip, h, hkeyed, ← hzip, hpairs] at hfilter
    exact (List.map_injective_iff.mpr (fun _ _ hv => (Prod.mk.inj hv).2) hfilter).symm
  · intro h
    have heq : (l.map fun a => (key a, f a)) = l'.map fun a => (key a, f a) := by
      apply eq_of_filter_eq (hsorted hl) (hsorted hl')
      intro k
      rw [hpairs, hpairs, h k]
    have hsnd := congrArg (List.map Prod.snd) heq
    rwa [List.map_map, List.map_map] at hsnd

/-- Lists sorted by their keys that agree below each key are equal. -/
theorem eq_of_filter_key_eq {l l' : List A} (hl : l.Pairwise fun a b => key a ≤ key b)
    (hl' : l'.Pairwise fun a b => key a ≤ key b)
    (h : ∀ k, (l.filter fun a => key a = k) = l'.filter fun a => key a = k) : l = l' := by
  have hpairs : (l.map fun a => (key a, a)) = l'.map fun a => (key a, a) := by
    apply eq_of_filter_eq (List.pairwise_map.mpr hl) (List.pairwise_map.mpr hl')
    intro k
    have hmap : ∀ m : List A, (m.map fun a => (key a, a)).filter (fun p => p.1 = k)
        = (m.filter fun a => key a = k).map fun a => (key a, a) := fun m => List.filter_map
    rw [hmap, hmap, h k]
  exact List.map_injective_iff.mpr (fun _ _ hp => (Prod.mk.inj hp).2) hpairs

/-! ### The place of an item -/

/-- How many items a stable sort puts ahead of the item between the two lists: of those before
it the ones with no greater key, of those after it the ones with a smaller key. -/
def ahead (key : A → K) (l₁ : List A) (x : A) (l₂ : List A) : ℕ :=
  (l₁.filter fun a => key a ≤ key x).length + (l₂.filter fun a => key a < key x).length

/-- **An item stands between what is ahead of it and the rest.** -/
theorem sortBy_append_cons (l₁ l₂ : List A) (x : A) :
    sortBy key (l₁ ++ x :: l₂) =
      sortBy key ((l₁.filter fun a => key a ≤ key x) ++ l₂.filter fun a => key a < key x) ++
        x :: sortBy key ((l₁.filter fun a => key x < key a) ++ l₂.filter fun a => key x ≤ key a) := by
  have hfront : ∀ a ∈ sortBy key ((l₁.filter fun a => key a ≤ key x) ++
      l₂.filter fun a => key a < key x), key a ≤ key x := by
    intro a ha
    rcases List.mem_append.mp ((sortBy_perm _).mem_iff.mp ha) with h | h
    · exact of_decide_eq_true (List.mem_filter.mp h).2
    · exact (of_decide_eq_true (List.mem_filter.mp h).2 : key a < key x).le
  have hback : ∀ a ∈ sortBy key ((l₁.filter fun a => key x < key a) ++
      l₂.filter fun a => key x ≤ key a), key x ≤ key a := by
    intro a ha
    rcases List.mem_append.mp ((sortBy_perm _).mem_iff.mp ha) with h | h
    · exact (of_decide_eq_true (List.mem_filter.mp h).2 : key x < key a).le
    · exact of_decide_eq_true (List.mem_filter.mp h).2
  apply eq_of_filter_key_eq (pairwise_sortBy _)
  · refine List.pairwise_append.mpr ⟨pairwise_sortBy _, List.pairwise_cons.mpr
      ⟨hback, pairwise_sortBy _⟩, ?_⟩
    intro a ha b hb
    rcases List.mem_cons.mp hb with rfl | hb
    · exact hfront a ha
    · exact (hfront a ha).trans (hback b hb)
  · intro k
    rw [filter_sortBy, List.filter_append, List.filter_append, filter_sortBy, List.filter_cons,
      List.filter_cons, filter_sortBy, List.filter_append, List.filter_append]
    simp only [List.filter_filter]
    -- an item with another key than `x` is on one side only, whichever list it is from
    rcases lt_trichotomy k (key x) with h | h | h
    · have hsides : ∀ a, (decide (key a = k) && decide (key a ≤ key x)) = decide (key a = k) ∧
          (decide (key a = k) && decide (key a < key x)) = decide (key a = k) ∧
          (decide (key a = k) && decide (key x < key a)) = false ∧
          (decide (key a = k) && decide (key x ≤ key a)) = false := by
        intro a
        grind
      simp only [hsides, h.ne', decide_false, Bool.false_eq_true, if_false, List.filter_false,
        List.append_nil]
    · subst h
      have hsides : ∀ a, (decide (key a = key x) && decide (key a ≤ key x)) = decide (key a = key x) ∧
          (decide (key a = key x) && decide (key a < key x)) = false ∧
          (decide (key a = key x) && decide (key x < key a)) = false ∧
          (decide (key a = key x) && decide (key x ≤ key a)) = decide (key a = key x) := by
        intro a
        grind
      simp only [hsides, List.filter_false, List.append_nil, List.nil_append, decide_true, if_true]
    · have hsides : ∀ a, (decide (key a = k) && decide (key a ≤ key x)) = false ∧
          (decide (key a = k) && decide (key a < key x)) = false ∧
          (decide (key a = k) && decide (key x < key a)) = decide (key a = k) ∧
          (decide (key a = k) && decide (key x ≤ key a)) = decide (key a = k) := by
        intro a
        grind
      simp only [hsides, h.ne, decide_false, Bool.false_eq_true, if_false, List.filter_false,
        List.nil_append]

/-- **The first `n` are the items with fewer than `n` ahead of them.** -/
theorem mem_take_sortBy_iff {l : List A} {x : A} {n : ℕ} :
    x ∈ (sortBy key l).take n ↔ ∃ l₁ l₂, l = l₁ ++ x :: l₂ ∧ ahead key l₁ x l₂ < n := by
  have hlength : ∀ l₁ l₂ : List A, (sortBy key ((l₁.filter fun a => key a ≤ key x) ++
      l₂.filter fun a => key a < key x)).length = ahead key l₁ x l₂ := by
    intro l₁ l₂
    rw [(sortBy_perm _).length_eq, List.length_append, ahead]
  constructor
  · intro hx
    have hmem : x ∈ l := (sortBy_perm l).mem_iff.mp (List.mem_of_mem_take hx)
    -- the first of its kind has none of its kind ahead of it
    obtain ⟨l₁, l₂, rfl, hnew⟩ := List.eq_append_cons_of_mem hmem
    refine ⟨l₁, l₂, rfl, ?_⟩
    rw [sortBy_append_cons, List.take_append, List.mem_append, hlength] at hx
    by_contra hn
    rw [Nat.sub_eq_zero_of_le (not_lt.mp hn), List.take_zero] at hx
    rcases hx with hx | hx
    · rcases List.mem_append.mp ((sortBy_perm _).mem_iff.mp (List.mem_of_mem_take hx)) with h | h
      · exact hnew (List.mem_filter.mp h).1
      · exact (lt_irrefl (key x)) (of_decide_eq_true (List.mem_filter.mp h).2)
    · exact List.not_mem_nil hx
  · rintro ⟨l₁, l₂, rfl, hn⟩
    rw [sortBy_append_cons, List.take_append, List.mem_append, hlength]
    right
    obtain ⟨m, hm⟩ := Nat.exists_eq_succ_of_ne_zero (Nat.sub_ne_zero_of_lt hn)
    rw [hm, List.take_succ_cons]
    exact List.mem_cons_self

/-! ### The first of many sorted lists -/

/-- What is sorted is what lies below a key, at it, and above it. -/
theorem sortBy_split (l : List A) (k : K) :
    sortBy key l = sortBy key (l.filter fun a => key a < k) ++
      ((l.filter fun a => key a = k) ++ sortBy key (l.filter fun a => k < key a)) := by
  have hmem : ∀ {p : A → Bool} {a : A}, a ∈ sortBy key (l.filter p) → p a = true :=
    fun ha => (List.mem_filter.mp ((sortBy_perm _).mem_iff.mp ha)).2
  apply eq_of_filter_key_eq (pairwise_sortBy l)
  · refine List.pairwise_append.mpr ⟨pairwise_sortBy _, List.pairwise_append.mpr
      ⟨?_, pairwise_sortBy _, ?_⟩, ?_⟩
    · apply List.Pairwise.imp_of_mem _ (List.pairwise_of_forall fun _ _ => trivial)
      intro a b ha hb _
      rw [of_decide_eq_true (List.mem_filter.mp ha).2, of_decide_eq_true (List.mem_filter.mp hb).2]
    · intro a ha b hb
      rw [of_decide_eq_true (List.mem_filter.mp ha).2]
      exact (of_decide_eq_true (hmem hb)).le
    · intro a ha b hb
      have hlt : key a < k := of_decide_eq_true (hmem ha)
      rcases List.mem_append.mp hb with hb | hb
      · rw [of_decide_eq_true (List.mem_filter.mp hb).2]
        exact hlt.le
      · exact (hlt.trans (of_decide_eq_true (hmem hb))).le
  · intro j
    rw [List.filter_append, List.filter_append, filter_sortBy, filter_sortBy, filter_sortBy,
      List.filter_filter, List.filter_filter, List.filter_filter]
    -- below the key `j` only the part it belongs to has something
    rcases lt_trichotomy j k with h | h | h
    · have hfilter : ∀ a, (decide (key a = j) && decide (key a < k)) = decide (key a = j) ∧
          (decide (key a = j) && decide (key a = k)) = false ∧
          (decide (key a = j) && decide (k < key a)) = false := by
        intro a
        grind
      simp only [hfilter, List.filter_false, List.append_nil]
    · have hfilter : ∀ a, (decide (key a = j) && decide (key a < k)) = false ∧
          (decide (key a = j) && decide (key a = k)) = decide (key a = j) ∧
          (decide (key a = j) && decide (k < key a)) = false := by
        intro a
        grind
      simp only [hfilter, List.filter_false, List.append_nil, List.nil_append]
    · have hfilter : ∀ a, (decide (key a = j) && decide (key a < k)) = false ∧
          (decide (key a = j) && decide (key a = k)) = false ∧
          (decide (key a = j) && decide (k < key a)) = decide (key a = j) := by
        intro a
        grind
      simp only [hfilter, List.filter_false, List.nil_append]

theorem length_filter_le (l : List A) (k : K) :
    (l.filter fun a => key a ≤ k).length =
      (l.filter fun a => key a < k).length + (l.filter fun a => key a = k).length := by
  induction l with
  | nil => rfl
  | cons a l ih =>
    simp only [List.filter_cons]
    rcases lt_trichotomy (key a) k with h | h | h
    · simp only [h, h.le, h.ne, decide_true, decide_false, if_true, Bool.false_eq_true, if_false,
        List.length_cons, ih]
      omega
    · simp only [h, le_refl, lt_self_iff_false, decide_true, decide_false, if_true,
        Bool.false_eq_true, if_false, List.length_cons, ih]
      omega
    · simp only [not_le.mpr h, not_lt.mpr h.le, h.ne', decide_false, Bool.false_eq_true, if_false, ih]

/-- An item with `n` others before it, none of a greater key, is not among the first `n`. -/
theorem take_sortBy_append_cons {l₁ l₂ : List A} {x : A} {n : ℕ}
    (h : n ≤ (l₁.filter fun a => key a ≤ key x).length) :
    (sortBy key (l₁ ++ x :: l₂)).take n = (sortBy key (l₁ ++ l₂)).take n := by
  rw [length_filter_le] at h
  have hcut : ∀ r : List A, (sortBy key ((l₁ ++ l₂).filter fun a => key a < key x) ++
        ((l₁.filter fun a => key a = key x) ++ r)).take n
      = (sortBy key ((l₁ ++ l₂).filter fun a => key a < key x) ++
        (l₁.filter fun a => key a = key x)).take n := by
    intro r
    rw [← List.append_assoc, List.take_append_of_le_length]
    rw [List.length_append, (sortBy_perm _).length_eq, List.filter_append, List.length_append]
    omega
  have hbelow : ((l₁ ++ x :: l₂).filter fun a => key a < key x)
      = (l₁ ++ l₂).filter fun a => key a < key x := by
    simp
  have hat : ∀ l : List A, ((l₁ ++ l).filter fun a => key a = key x)
      = (l₁.filter fun a => key a = key x) ++ l.filter fun a => key a = key x :=
    fun l => List.filter_append l₁ l
  -- the item stands behind those of `l₁` with its key
  rw [sortBy_split (l₁ ++ x :: l₂) (key x), sortBy_split (l₁ ++ l₂) (key x), hbelow, hat, hat,
    List.append_assoc, hcut, List.append_assoc, hcut]

/-- The same of many such items. -/
theorem take_sortBy_append_append {p d q : List A} {n : ℕ}
    (h : ∀ x ∈ d, n ≤ (p.filter fun a => key a ≤ key x).length) :
    (sortBy key (p ++ (d ++ q))).take n = (sortBy key (p ++ q)).take n := by
  induction d with
  | nil => rfl
  | cons x d ih =>
    rw [List.cons_append, take_sortBy_append_cons (h x List.mem_cons_self)]
    exact ih fun y hy => h y (List.mem_cons_of_mem x hy)

/-- **Of sorted lists put one behind the other, the first `n` need only the first `n`
of each.** -/
theorem take_sortBy_flatMap {ls : List (List A)} (n : ℕ)
    (hls : ∀ l ∈ ls, l.Pairwise fun a b => key a ≤ key b) :
    (sortBy key (ls.flatMap (List.take n))).take n = (sortBy key ls.flatten).take n := by
  -- the lists are cut from the left, and what is cut already stands before the rest
  suffices hp : ∀ p : List A, (sortBy key (p ++ ls.flatMap (List.take n))).take n
      = (sortBy key (p ++ ls.flatten)).take n from hp []
  induction ls with
  | nil => exact fun p => rfl
  | cons l ls ih =>
    intro p
    have hsorted := hls l List.mem_cons_self
    have hdrop : ∀ x ∈ l.drop n, n ≤ ((p ++ l.take n).filter fun a => key a ≤ key x).length := by
      intro x hx
      have hlen : (l.take n).length = n := by
        have hpos := List.length_pos_of_mem hx
        rw [List.length_drop] at hpos
        rw [List.length_take]
        omega
      have hle : ∀ a ∈ l.take n, key a ≤ key x := by
        rw [← List.take_append_drop n l] at hsorted
        exact fun a ha => (List.pairwise_append.mp hsorted).2.2 a ha x hx
      rw [List.filter_append, List.filter_eq_self.mpr (fun a ha => decide_eq_true (hle a ha)),
        List.length_append, hlen]
      omega
    calc (sortBy key (p ++ (l :: ls).flatMap (List.take n))).take n
        = (sortBy key ((p ++ l.take n) ++ ls.flatMap (List.take n))).take n := by
          rw [List.flatMap_cons, List.append_assoc]
      _ = (sortBy key ((p ++ l.take n) ++ ls.flatten)).take n :=
          ih (fun l' hl' => hls l' (List.mem_cons_of_mem l hl')) _
      _ = (sortBy key ((p ++ l.take n) ++ (l.drop n ++ ls.flatten))).take n :=
          (take_sortBy_append_append hdrop).symm
      _ = (sortBy key (p ++ (l :: ls).flatten)).take n := by
          rw [List.flatten_cons, List.append_assoc, ← List.append_assoc (l.take n),
            List.take_append_drop]

/-! ### The order of the list -/

/-- The first item of a list stands behind those with a smaller key. -/
theorem getElem?_sortBy_cons (x : A) (l : List A) :
    (sortBy key (x :: l))[(l.filter fun a => key a < key x).length]? = some x := by
  have hsplit := @sortBy_append_cons _ _ _ key [] l x
  rw [List.nil_append, List.filter_nil, List.nil_append] at hsplit
  rw [hsplit, ← (@sortBy_perm _ _ _ key (l.filter fun a => key a < key x)).length_eq,
    List.getElem?_append_right le_rfl, Nat.sub_self, List.getElem?_cons_zero]

/-- In a sorted list, what is smaller than an item stands before it. -/
theorem length_filter_lt_le {l : List A} (h : l.Pairwise fun a b => key a ≤ key b) {i : ℕ} {x : A}
    (hx : l[i]? = some x) : (l.filter fun a => key a < key x).length ≤ i := by
  obtain ⟨hi, hget⟩ := List.getElem?_eq_some_iff.mp hx
  have hrest : (l.drop i).filter (fun a => key a < key x) = [] := by
    have hdrop := h.drop (i := i)
    rw [List.drop_eq_getElem_cons hi, hget] at hdrop ⊢
    rw [List.filter_eq_nil_iff]
    intro a ha
    rw [decide_eq_true_eq, not_lt]
    rcases List.mem_cons.mp ha with rfl | ha
    · exact le_rfl
    · exact (List.pairwise_cons.mp hdrop).1 a ha
  conv_lhs => rw [← List.take_append_drop i l, List.filter_append, hrest, List.append_nil]
  exact (List.length_filter_le _ _).trans (List.length_take_le i l)

/-- **The first items do not depend on the order of the list iff no two different items of one key
are among them**: at least `n` items have smaller keys. -/
theorem take_sortBy_perm_iff {l : List A} {n : ℕ} :
    (∀ l', l'.Perm l → (sortBy key l').take n = (sortBy key l).take n) ↔
      ∀ x ∈ l, ∀ y ∈ l, x ≠ y → key x = key y → n ≤ (l.filter fun a => key a < key x).length := by
  constructor
  · intro h x hx y hy hne hkey
    by_contra hlt
    rw [not_le] at hlt
    -- with either of them in front, it stands behind those with smaller keys
    have hfront : ∀ z ∈ l, key z = key x →
        ((sortBy key l).take n)[(l.filter fun a => key a < key x).length]? = some z := by
      intro z hz hzkey
      obtain ⟨l₁, l₂, rfl⟩ := List.append_of_mem hz
      have hperm : (z :: (l₁ ++ l₂)).Perm (l₁ ++ z :: l₂) := List.perm_middle.symm
      have hcount : ((l₁ ++ z :: l₂).filter fun a => key a < key x).length
          = ((l₁ ++ l₂).filter fun a => key a < key z).length := by
        rw [← (hperm.filter _).length_eq, List.filter_cons_of_neg (by simp [hzkey]), hzkey]
      rw [← h _ hperm, List.getElem?_take_of_lt hlt, hcount]
      exact getElem?_sortBy_cons z (l₁ ++ l₂)
    exact hne (Option.some.inj ((hfront x hx rfl).symm.trans (hfront y hy hkey.symm)))
  · intro h l' hperm
    have hsorted : (sortBy key l').Perm (sortBy key l) :=
      (sortBy_perm l').trans (hperm.trans (sortBy_perm l).symm)
    have hkeys : (sortBy key l').map key = (sortBy key l).map key := by
      refine @List.Perm.eq_of_pairwise _ (fun a b => a ≤ b) _ _ (fun _ _ _ _ => le_antisymm) ?_ ?_
        (hsorted.map key)
      · exact List.pairwise_map.mpr (pairwise_sortBy l')
      · exact List.pairwise_map.mpr (pairwise_sortBy l)
    apply List.ext_getElem?
    intro i
    by_cases hi : i < n
    · rw [List.getElem?_take_of_lt hi, List.getElem?_take_of_lt hi]
      have hat : ((sortBy key l')[i]?).map key = ((sortBy key l)[i]?).map key := by
        rw [← List.getElem?_map, ← List.getElem?_map, hkeys]
      cases hx : (sortBy key l)[i]? with
      | none => rw [hx] at hat; exact Option.map_eq_none_iff.mp hat
      | some x =>
        rw [hx] at hat
        obtain ⟨y, hy, hkey⟩ := Option.map_eq_some_iff.mp hat
        rw [hy]
        congr 1
        by_contra hne
        have hxl : x ∈ l := (sortBy_perm l).mem_iff.mp (List.mem_of_getElem? hx)
        have hyl : y ∈ l := hperm.mem_iff.mp ((sortBy_perm l').mem_iff.mp (List.mem_of_getElem? hy))
        have hmany := h x hxl y hyl (fun hxy => hne hxy.symm) hkey.symm
        have hfew := length_filter_lt_le (pairwise_sortBy l) hx
        rw [((sortBy_perm l).filter _).length_eq] at hfew
        omega
    · rw [List.getElem?_eq_none (by rw [List.length_take]; omega),
        List.getElem?_eq_none (by rw [List.length_take]; omega)]

end StableSort
