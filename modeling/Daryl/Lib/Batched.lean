import Mathlib.Data.List.Forall2
import Mathlib.Data.List.Flatten

/-!
# Batches

Items are written in batches, none of them empty, and a reader takes the batches apart again.
A reader with a limit needs no more batches than items, and what it puts together is what was
written only if it is that batch by batch.

## Main results

* `take_flatMap_take` — **as many batches as items are enough.**
* `flatMap_eq_filter_iff` — **the batches give the items of those selected iff all of them are
  selected and each gives its own.**
-/

namespace Batched

variable {A B : Type*}

/-- As many batches as items are enough. -/
theorem take_flatMap_take {f : A → List B} {l : List A} (h : ∀ a ∈ l, f a ≠ []) {k n : ℕ}
    (hkn : k ≤ n) : ((l.take n).flatMap f).take k = (l.flatMap f).take k := by
  induction l generalizing k n with
  | nil => rw [List.take_nil]
  | cons a l ih =>
    cases n with
    | zero =>
      obtain rfl := Nat.le_zero.mp hkn
      rw [List.take_zero, List.take_zero]
    | succ n =>
      have hpos : 0 < (f a).length := List.length_pos_of_ne_nil (h a List.mem_cons_self)
      have hrest : k - (f a).length ≤ n := by omega
      rw [List.take_succ_cons, List.flatMap_cons, List.flatMap_cons, List.take_append,
        List.take_append, ih (fun b hb => h b (List.mem_cons_of_mem _ hb)) hrest]

/-- **The batches give the items of those selected iff all of them are selected and each gives its
own.** -/
theorem flatMap_eq_filter_iff {f g : A → List B} {p : A → Bool} {l : List A}
    (hne : ∀ a ∈ l, f a ≠ []) (hlen : ∀ a ∈ l, (f a).length = (g a).length) :
    l.flatMap f = (l.filter p).flatMap g ↔ ∀ a ∈ l, p a = true ∧ f a = g a := by
  induction l with
  | nil => exact iff_of_true rfl (by simp)
  | cons a l ih =>
    rw [List.forall_mem_cons] at hne hlen
    rw [List.forall_mem_cons, List.flatMap_cons, ← ih hne.2 hlen.2]
    cases hp : p a with
    | true =>
      rw [List.filter_cons_of_pos hp, List.flatMap_cons]
      constructor
      · intro h
        obtain ⟨hhead, htail⟩ := List.append_inj h hlen.1
        exact ⟨⟨rfl, hhead⟩, htail⟩
      · rintro ⟨⟨-, hhead⟩, htail⟩
        rw [hhead, htail]
    | false =>
      -- the items of the first batch are too many
      have hsame : (l.flatMap f).length = (l.flatMap g).length := by
        rw [List.length_flatMap, List.length_flatMap, List.map_congr_left hlen.2]
      have hle := (List.filter_sublist (p := p) (l := l)).flatMap g |>.length_le
      have hpos : 0 < (f a).length := List.length_pos_of_ne_nil hne.1
      rw [List.filter_cons_of_neg (by simp [hp])]
      constructor
      · intro h
        have hcount := congrArg List.length h
        rw [List.length_append] at hcount
        omega
      · rintro ⟨⟨h, -⟩, -⟩
        cases h

end Batched
