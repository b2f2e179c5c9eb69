import Mathlib.Data.List.Chain
import Mathlib.Data.List.Forall2
import Mathlib.Data.List.Nodup

/-!
# Hash chains

A chain is a list of records, each naming the hash of the record before it.  If
the hash binds a record, its link included, then the tip binds every record:
two chains of one length with one tip agree record by record.  The argument is
a backward induction, from the tip along the links.

The two chains may hold records of different kinds, and "agree" is any relation
that a shared hash forces and that carries the link along.

## Main definitions

* `Linked` — every record names the hash of the one before it.

## Main results

* `linked_concat` — appending a record.
* `agree_of_names` — **a chain binds what is named along its links.**
* `agree_of_tip` — one tip, one length: the chains agree.
* `agree_of_position` — the same for a prefix of a longer chain.
* `nodup_hash` — no two records of a chain have one hash.
-/

namespace HashChain

variable {α β H : Type*} {hash prev : α → H} {hash' prev' : β → H}

/-- Every record but the first names the hash of the one before it. -/
def Linked (hash prev : α → H) (xs : List α) : Prop := xs.IsChain fun a b => prev b = hash a

@[simp] theorem linked_nil : Linked hash prev [] := List.IsChain.nil

@[simp] theorem linked_singleton (a : α) : Linked hash prev [a] := List.IsChain.singleton a

/-- A record is appended by naming the tip. -/
theorem linked_concat {xs : List α} {a : α} :
    Linked hash prev (xs ++ [a]) ↔
      Linked hash prev xs ∧ ∀ x ∈ xs.getLast?, prev a = hash x := by
  simp only [Linked, List.isChain_append, List.IsChain.singleton, true_and, List.head?_cons,
    Option.mem_some_iff, forall_eq']

theorem Linked.take {xs : List α} (h : Linked hash prev xs) (n : ℕ) :
    Linked hash prev (xs.take n) :=
  List.IsChain.take h n

/-- **A chain binds what is named along its links.**  `N b h` says that `h` is a hash
of `b`, whatever hash `b` carries itself. -/
theorem agree_of_names {N : β → H → Prop} {R : α → β → Prop} {xs : List α} {ys : List β}
    (hbind : ∀ a ∈ xs, ∀ b ∈ ys, N b (hash a) → R a b)
    (hlink : ∀ x ∈ xs, ∀ a b, prev a = hash x → R a b → prev' b = hash x)
    (hxs : Linked hash prev xs) (hys : ys.IsChain fun b c => N b (prev' c))
    (hlen : xs.length = ys.length)
    (htip : ∀ a ∈ xs.getLast?, ∀ b ∈ ys.getLast?, N b (hash a)) : List.Forall₂ R xs ys := by
  induction xs using List.reverseRecOn generalizing ys with
  | nil =>
    have : ys = [] := List.length_eq_zero_iff.mp hlen.symm
    exact this ▸ List.Forall₂.nil
  | append_singleton xs a ih =>
    obtain ⟨ys, b, rfl⟩ : ∃ ys' b, ys = ys' ++ [b] := by
      rcases List.eq_nil_or_concat ys with rfl | ⟨ys', b, rfl⟩
      · simp at hlen
      · exact ⟨ys', b, by simp⟩
    rw [linked_concat] at hxs
    obtain ⟨hchain, -, hnames⟩ := List.isChain_append.mp hys
    have hab : R a b := hbind a (by simp) b (by simp) (htip a (by simp) b (by simp))
    have hlen' : xs.length = ys.length := by simpa using hlen
    -- the links of the tips are one hash, so the records before them are the tips of equal chains
    have hrest : List.Forall₂ R xs ys := by
      refine ih (fun x hx y hy => hbind x (by simp [hx]) y (by simp [hy]))
        (fun x hx => hlink x (by simp [hx])) hxs.1 hchain hlen' ?_
      intro x hx y hy
      have hprev := hlink x (by simp [List.mem_of_getLast? hx]) a b (hxs.2 x hx) hab
      exact hprev ▸ hnames y hy b rfl
    exact List.rel_append hrest (List.Forall₂.cons hab List.Forall₂.nil)

/-- **Two chains of one length with one tip agree record by record.** -/
theorem agree_of_tip {R : α → β → Prop} {xs : List α} {ys : List β}
    (hbind : ∀ a ∈ xs, ∀ b ∈ ys, hash a = hash' b → R a b)
    (hlink : ∀ a b, R a b → prev a = prev' b)
    (hxs : Linked hash prev xs) (hys : Linked hash' prev' ys) (hlen : xs.length = ys.length)
    (htip : ∀ a ∈ xs.getLast?, ∀ b ∈ ys.getLast?, hash a = hash' b) : List.Forall₂ R xs ys :=
  agree_of_names (N := fun b h => h = hash' b) hbind
    (fun _ _ a b hprev hab => (hlink a b hab).symm.trans hprev) hxs hys hlen htip

/-- **No two records of a chain have one hash**, when a hash binds the link and the first
record names none of the chain. -/
theorem nodup_hash {xs : List α} (hbind : ∀ a ∈ xs, ∀ b ∈ xs, hash a = hash b → prev a = prev b)
    (hxs : Linked hash prev xs) (hfirst : ∀ a ∈ xs.head?, ∀ b ∈ xs, prev a ≠ hash b) :
    (xs.map hash).Nodup := by
  have hlink : ∀ (i : ℕ) (hi : i + 1 < xs.length), prev xs[i + 1] = hash xs[i] :=
    List.isChain_iff_getElem.mp hxs
  have hzero : ∀ (j : ℕ) (hj : j + 1 < xs.length) (h0 : 0 < xs.length), hash xs[0] ≠ hash xs[j + 1] := by
    intro j hj h0 heq
    refine hfirst xs[0] ?_ xs[j] (List.getElem_mem _) ?_
    · rw [List.head?_eq_getElem?, List.getElem?_eq_getElem h0]
      rfl
    · rw [hbind _ (List.getElem_mem _) _ (List.getElem_mem _) heq, hlink j hj]
  have hindex : ∀ (i j : ℕ) (hi : i < xs.length) (hj : j < xs.length),
      hash xs[i] = hash xs[j] → i = j := by
    intro i
    induction i with
    | zero =>
      intro j hi hj heq
      cases j with
      | zero => rfl
      | succ j => exact absurd heq (hzero j hj hi)
    | succ i ih =>
      intro j hi hj heq
      cases j with
      | zero => exact absurd heq.symm (hzero i hi hj)
      | succ j =>
        -- the links are one hash, and so are those of the records before
        have hprev := hbind _ (List.getElem_mem _) _ (List.getElem_mem _) heq
        rw [hlink i hi, hlink j hj] at hprev
        rw [ih j (by omega) (by omega) hprev]
  refine List.nodup_iff_injective_get.mpr fun i j hij => Fin.ext ?_
  have hi : i.val < xs.length := by simpa using i.isLt
  have hj : j.val < xs.length := by simpa using j.isLt
  refine hindex i.val j.val hi hj ?_
  simpa using hij

/-- **A longer chain that carries the tip at its position agrees up to there.** -/
theorem agree_of_position {R : α → β → Prop} {xs : List α} {ys : List β}
    (hbind : ∀ a ∈ xs, ∀ b ∈ ys, hash a = hash' b → R a b)
    (hlink : ∀ a b, R a b → prev a = prev' b)
    (hxs : Linked hash prev xs) (hys : Linked hash' prev' ys) (hlen : xs.length ≤ ys.length)
    (htip : ∀ a ∈ xs.getLast?, ∀ b ∈ (ys.take xs.length).getLast?, hash a = hash' b) :
    List.Forall₂ R xs (ys.take xs.length) :=
  agree_of_tip (fun a ha b hb => hbind a ha b (List.mem_of_mem_take hb)) hlink hxs (hys.take _)
    (by rw [List.length_take]; omega) htip

end HashChain
