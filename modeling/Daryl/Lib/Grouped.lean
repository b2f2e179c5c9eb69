import Daryl.Lib.Dict
import Daryl.Lib.StableSort
import Mathlib.Data.List.Perm.Basic

/-!
# Lists that stand key by key

The groups of a list, each sorted, one behind the other.  A list that stands key by key already,
and sorted within each, is left as it is; so is every sublist of it.

## Main definitions

* `arranged` — the groups of a list by a key, each sorted by another.

## Main results

* `group_append` — values of one key, in front of values of others, are the first group.
* `arranged_of_sublist` — **what is taken out of a list that stands key by key is arranged.**
-/

namespace Grouped

variable {K N A : Type*} [DecidableEq K] [LinearOrder N] {key : A → K} {place : A → N}

/-- The groups of a list, each sorted. -/
def arranged (key : A → K) (place : A → N) (l : List A) : List A :=
  (Dict.group key l).flatMap fun g => StableSort.sortBy place g.2

omit [LinearOrder N] in
theorem group_of_key {k : K} {l : List A} (hne : l ≠ []) (h : ∀ a ∈ l, key a = k) :
    Dict.group key l = [(k, l)] := by
  induction l using List.reverseRecOn with
  | nil => exact absurd rfl hne
  | append_singleton l a ih =>
    have ha : key a = k := h a (List.mem_append_right _ (List.mem_singleton_self a))
    rw [Dict.group_concat, ha]
    cases l with
    | nil => rfl
    | cons b l =>
      rw [ih (List.cons_ne_nil b l) fun x hx => h x (List.mem_append_left _ hx)]
      simp [Dict.push, Dict.set, Dict.get]

omit [LinearOrder N] in
/-- **Values of one key in front of values of others are the first group.** -/
theorem group_append {k : K} {l l' : List A} (hne : l ≠ []) (h : ∀ a ∈ l, key a = k)
    (h' : ∀ a ∈ l', key a ≠ k) : Dict.group key (l ++ l') = (k, l) :: Dict.group key l' := by
  induction l' using List.reverseRecOn with
  | nil => rw [List.append_nil, group_of_key hne h]; rfl
  | append_singleton l' a ih =>
    have ha : k ≠ key a := (h' a (List.mem_append_right _ (List.mem_singleton_self a))).symm
    rw [← List.append_assoc, Dict.group_concat, Dict.group_concat,
      ih fun x hx => h' x (List.mem_append_left _ hx)]
    simp [Dict.push, Dict.set, Dict.get, ha]

theorem arranged_append {k : K} {l l' : List A} (h : ∀ a ∈ l, key a = k)
    (h' : ∀ a ∈ l', key a ≠ k) (hsorted : l.Pairwise fun a b => place a ≤ place b) :
    arranged key place (l ++ l') = l ++ arranged key place l' := by
  by_cases hne : l = []
  · rw [hne, List.nil_append, List.nil_append]
  · have hsort : StableSort.sortBy place l = l := hsorted.insertionSort_eq
    rw [arranged, group_append hne h h', List.flatMap_cons, hsort]
    rfl

/-- **What is taken out of a list that stands key by key, sorted within each, is arranged.** -/
theorem arranged_of_sublist {f : K → List A} (hf : ∀ k, ∀ a ∈ f k, key a = k)
    (hsorted : ∀ k, (f k).Pairwise fun a b => place a ≤ place b) {ks : List K} (hks : ks.Nodup)
    {l : List A} (h : l.Sublist (ks.flatMap f)) : arranged key place l = l := by
  induction ks generalizing l with
  | nil =>
    rw [List.flatMap_nil, List.sublist_nil] at h
    rw [h]
    rfl
  | cons k ks ih =>
    rw [List.nodup_cons] at hks
    rw [List.flatMap_cons, List.sublist_append_iff] at h
    obtain ⟨l₁, l₂, rfl, h₁, h₂⟩ := h
    have hother : ∀ a ∈ l₂, key a ≠ k := by
      intro a ha hk
      obtain ⟨k', hk', hmem⟩ := List.mem_flatMap.mp (h₂.subset ha)
      exact hks.1 (hk ▸ hf k' a hmem ▸ hk')
    rw [arranged_append (fun a ha => hf k a (h₁.subset ha)) hother ((hsorted k).sublist h₁),
      ih hks.2 h₂]

/-- What is arranged is what was there. -/
theorem arranged_perm (l : List A) : (arranged key place l).Perm l := by
  have hsorted : (arranged key place l).Perm ((Dict.group key l).flatMap Prod.snd) :=
    List.Perm.flatMap_left _ fun g _ => StableSort.sortBy_perm g.2
  refine hsorted.trans ?_
  rw [Dict.group_eq, List.flatMap_map]
  exact Dict.perm_flatMap_filter (Dict.nodup_keys_group key l) fun a ha =>
    Dict.mem_keys_group.mpr ⟨a, ha, rfl⟩

end Grouped
