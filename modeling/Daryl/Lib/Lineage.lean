import Daryl.Lib.Walk
import Mathlib.Logic.Function.Basic

/-!
# Lines of succession

Every node has at most one next node, and links are set and cleared.  As long as a new
link does not lead to a way back there are no cycles; then every line has an end, and
following it from a node gets there.

## Main definitions

* `Acyclic` — no node lies on a cycle.
* `follow` — the end of the line from a node.

## Main results

* `acyclic_update` — **a link that closes no way keeps a graph acyclic.**
* `acyclic_clear` — and so does clearing one.
* `next_follow` — in an acyclic graph following a line comes to its end.
* `follow_follow` — in any graph following a line again stays where it ended.
* `mem_walk` — a walk sees what is reached.
-/

namespace Walk

open Relation

variable {K : Type*} {next : K → Option K}

/-- No node lies on a cycle. -/
def Acyclic (next : K → Option K) : Prop := ∀ n, ¬OnCycle next n

theorem acyclic_none : Acyclic fun _ : K => none := by
  intro n h
  obtain ⟨m, hm⟩ := h.step
  cases hm

/-- The nodes of a chain of an acyclic graph are distinct. -/
theorem Acyclic.nodup (h : Acyclic next) {l : List K} (hl : l.IsChain (Step next)) : l.Nodup := by
  induction l with
  | nil => exact List.nodup_nil
  | cons a l ih =>
    refine List.nodup_cons.mpr ⟨fun hmem => ?_, ih hl.tail⟩
    cases l with
    | nil => cases hmem
    | cons b l =>
      rw [List.isChain_cons_cons] at hl
      exact h a (TransGen.head' hl.1 (reach_of_chain hl.2 hmem))

/-! ### Links -/

variable [DecidableEq K]

theorem step_update {a n m : K} {o : Option K} (hn : n ≠ a) :
    Step (Function.update next a o) n m ↔ Step next n m := by
  rw [Step, Step, Function.update_of_ne hn]

/-- A way in the new graph is one of the old graph, or it leads to the changed node. -/
theorem way_update {a x y : K} {o : Option K} (h : TransGen (Step (Function.update next a o)) x y) :
    TransGen (Step next) x y ∨ ReflTransGen (Step (Function.update next a o)) x a := by
  induction h with
  | single hstep =>
    by_cases hx : x = a
    · exact .inr (hx ▸ ReflTransGen.refl)
    · exact .inl (.single ((step_update hx).mp hstep))
  | @tail y z hway hstep ih =>
    by_cases hy : y = a
    · exact .inr (hy ▸ hway.to_reflTransGen)
    · exact ih.imp_left fun hold => hold.tail ((step_update hy).mp hstep)

/-- A way to the changed node is one of the old graph. -/
theorem way_to_changed {a x : K} {o : Option K}
    (h : ReflTransGen (Step (Function.update next a o)) x a) : ReflTransGen (Step next) x a := by
  induction h using ReflTransGen.head_induction_on with
  | refl => exact ReflTransGen.refl
  | @head x y hstep _ ih =>
    by_cases hx : x = a
    · exact hx ▸ ReflTransGen.refl
    · exact ih.head ((step_update hx).mp hstep)

/-- What a change keeps acyclic: there is no cycle through the changed node. -/
theorem acyclic_update_of {a : K} {o : Option K} (h : Acyclic next)
    (ha : ¬OnCycle (Function.update next a o) a) : Acyclic (Function.update next a o) := by
  intro n hn
  rcases way_update hn with hold | hto
  · exact h n hold
  · exact ha ((TransGen.trans_right (hn.back hto) hn).trans_left hto)

/-- **A link that closes no way keeps a graph acyclic.** -/
theorem acyclic_update {a b : K} (h : Acyclic next) (hba : ¬ReflTransGen (Step next) b a) :
    Acyclic (Function.update next a (some b)) := by
  refine acyclic_update_of h fun ha => hba ?_
  obtain ⟨m, hm, hback⟩ := TransGen.head'_iff.mp ha
  rw [Step, Function.update_self, Option.some.injEq] at hm
  exact hm ▸ way_to_changed hback

/-- A link that is cleared keeps it so too. -/
theorem acyclic_clear {a : K} (h : Acyclic next) : Acyclic (Function.update next a none) := by
  refine acyclic_update_of h fun ha => ?_
  obtain ⟨m, hm⟩ := ha.step
  rw [Step, Function.update_self] at hm
  cases hm

/-! ### Ends -/

/-- The end of the line from a node: a node without a next, or one that was seen. -/
def follow (next : K → Option K) : ℕ → List K → K → K
  | 0, _, n => n
  | fuel + 1, seen, n =>
    if n ∈ seen then n
    else
      match next n with
      | none => n
      | some m => follow next fuel (seen ++ [n]) m

/-- The end of a line in an acyclic graph, with fuel for all nodes. -/
theorem follow_spec {dom : List K} (h : Acyclic next) (hdom : ∀ n m, next n = some m → n ∈ dom) :
    ∀ fuel seen n, (seen ++ [n]).IsChain (Step next) → (∀ x ∈ seen, x ∈ dom) →
      dom.length < fuel + seen.length →
      next (follow next fuel seen n) = none ∧
        ReflTransGen (Step next) n (follow next fuel seen n) := by
  intro fuel
  induction fuel with
  | zero =>
    intro seen n hchain hsub hlen
    have hnodup := (List.nodup_append.mp (h.nodup hchain)).1
    exact absurd (hnodup.length_le_of_subset hsub) (by omega)
  | succ fuel ih =>
    intro seen n hchain hsub hlen
    have hn : n ∉ seen := fun hmem =>
      (List.nodup_append.mp (h.nodup hchain)).2.2 n hmem n (List.mem_singleton_self n) rfl
    rw [follow, if_neg hn]
    cases hnext : next n with
    | none => exact ⟨hnext, ReflTransGen.refl⟩
    | some m =>
      have hlong : ((seen ++ [n]) ++ [m]).IsChain (Step next) := by
        refine List.isChain_append.mpr ⟨hchain, List.isChain_singleton _, ?_⟩
        intro x hx y hy
        rw [List.getLast?_concat, Option.mem_some_iff] at hx
        obtain rfl := Option.some.inj hy
        exact hx ▸ hnext
      obtain ⟨hend, hway⟩ := ih (seen ++ [n]) m hlong
        (by
          intro x hx
          rcases List.mem_append.mp hx with hx | hx
          · exact hsub x hx
          · exact List.mem_singleton.mp hx ▸ hdom n m hnext)
        (by
          rw [List.length_append, List.length_singleton]
          omega)
      exact ⟨hend, hway.head hnext⟩

/-- **Following a line of an acyclic graph comes to its end.** -/
theorem next_follow {dom : List K} (h : Acyclic next) (hdom : ∀ n m, next n = some m → n ∈ dom)
    (n : K) : next (follow next (dom.length + 1) [] n) = none ∧
      ReflTransGen (Step next) n (follow next (dom.length + 1) [] n) :=
  follow_spec h hdom _ [] n (List.isChain_singleton n) (fun _ hx => by cases hx) (by simp)

/-- More fuel does not lead further. -/
theorem follow_mono {dom : List K} (h : Acyclic next) (hdom : ∀ n m, next n = some m → n ∈ dom)
    (n : K) {fuel : ℕ} (hfuel : dom.length < fuel) :
    follow next fuel [] n = follow next (dom.length + 1) [] n := by
  obtain ⟨hend, hway⟩ := follow_spec h hdom fuel [] n (List.isChain_singleton n)
    (fun _ hx => by cases hx) (by simpa using hfuel)
  obtain ⟨hend', hway'⟩ := next_follow h hdom n
  -- a line has one end
  have hstuck : ∀ {x y : K}, next x = none → ReflTransGen (Step next) x y → y = x := by
    intro x y hx hxy
    rcases hxy.cases_head with rfl | ⟨z, hz, -⟩
    · rfl
    · rw [Step, hx] at hz
      cases hz
  have hunique : Relator.RightUnique (Step next) := fun _ _ _ hb hc => step_unique hb hc
  rcases ReflTransGen.total_of_right_unique hunique hway hway' with h1 | h1
  · exact (hstuck hend h1).symm
  · exact hstuck hend' h1

/-- A line ends where it started, or behind another node. -/
theorem follow_range : ∀ (fuel : ℕ) (seen : List K) (n : K),
    follow next fuel seen n = n ∨ ∃ m, next m = some (follow next fuel seen n) := by
  intro fuel
  induction fuel with
  | zero => exact fun _ _ => .inl rfl
  | succ fuel ih =>
    intro seen n
    rw [follow]
    split_ifs
    · exact .inl rfl
    · cases hnext : next n with
      | none => exact .inl rfl
      | some m =>
        rcases ih (seen ++ [n]) m with hm | hm
        · exact .inr ⟨n, by rw [hnext]; exact congrArg some hm.symm⟩
        · exact .inr hm

/-- Following a line ends where the walk comes to a node it has seen, or before it stops. -/
theorem follow_of_walk : ∀ (fuel : ℕ) (seen : List K) (n : K),
    match (walk next fuel seen (some n)).2 with
    | some z => follow next fuel seen n = z
    | none => next (follow next fuel seen n) = none := by
  intro fuel
  induction fuel with
  | zero => exact fun _ _ => rfl
  | succ fuel ih =>
    intro seen n
    rw [walk, follow]
    by_cases hn : n ∈ seen
    · rw [if_pos hn, if_pos hn]
    · rw [if_neg hn, if_neg hn]
      cases hnext : next n with
      | none =>
        cases fuel <;> exact hnext
      | some m => exact ih (seen ++ [n]) m

/-- Following a line from a node on a cycle comes back to the node. -/
theorem follow_of_onCycle {dom : List K} (hdom : ∀ n m, next n = some m → n ∈ dom) {z : K}
    (hz : OnCycle next z) : follow next (dom.length + 1) [] z = z := by
  have hmem := mem_cycleFrom hdom hz
  obtain ⟨htrail, hseen⟩ := trail_walk z hdom
  have hend := @follow_of_walk K next _ (dom.length + 1) [] z
  unfold cycleFrom at hmem
  cases hwalk : walk next (dom.length + 1) [] (some z) with
  | mk seen node =>
    rw [hwalk] at hmem htrail hseen hend
    cases node with
    | none => cases hmem
    | some m =>
      -- the walk starts at `z` and sees nothing twice, so it came back to `z` itself
      obtain ⟨rest, hrest⟩ := htrail.exists_cons hseen
      obtain ⟨pre, post, hsplit, hdrop⟩ := exists_dropWhile (hseen m rfl)
      dsimp only at hmem hend hrest hsplit hdrop
      rw [hdrop] at hmem
      have hnodup : (pre ++ m :: post).Nodup := hsplit ▸ htrail.nodup
      cases pre with
      | nil =>
        rw [hrest] at hsplit
        exact hend.trans (List.cons.inj hsplit).1.symm
      | cons a pre =>
        rw [hrest] at hsplit
        obtain ⟨rfl, -⟩ := List.cons.inj hsplit
        exact absurd rfl ((List.nodup_append.mp hnodup).2.2 z List.mem_cons_self z hmem)

/-- **Following a line again stays where it ended.** -/
theorem follow_follow {dom : List K} (hdom : ∀ n m, next n = some m → n ∈ dom) (a : K) :
    follow next (dom.length + 1) [] (follow next (dom.length + 1) [] a) =
      follow next (dom.length + 1) [] a := by
  have hend := @follow_of_walk K next _ (dom.length + 1) [] a
  obtain ⟨-, hseen⟩ := trail_walk a hdom
  cases hnode : (walk next (dom.length + 1) [] (some a)).2 with
  | none =>
    rw [hnode] at hend
    generalize follow next (dom.length + 1) [] a = z at hend
    rw [follow, if_neg List.not_mem_nil, hend]
  | some z =>
    rw [hnode] at hend
    dsimp only at hend
    rw [hend]
    -- the walk has seen the node, so it lies on the cycle
    refine follow_of_onCycle hdom (@onCycle_of_mem_cycleFrom K next _ a z dom hdom ?_)
    obtain ⟨pre, post, -, hdrop⟩ := exists_dropWhile (hseen z hnode)
    unfold cycleFrom
    cases hwalk : walk next (dom.length + 1) [] (some a) with
    | mk seen node =>
      rw [hwalk] at hnode hdrop
      dsimp only at hnode hdrop
      subst hnode
      dsimp only
      rw [hdrop]
      exact List.mem_cons_self

/-- **A walk sees what is reached.** -/
theorem mem_walk {start x : K} {dom : List K} (hdom : ∀ n m, next n = some m → n ∈ dom)
    (hx : ReflTransGen (Step next) start x) :
    x ∈ (walk next (dom.length + 1) [] (some start)).1 := by
  obtain ⟨htrail, hend⟩ := trail_walk start hdom
  obtain ⟨rest, hrest⟩ := htrail.exists_cons hend
  induction hx with
  | refl =>
    rw [hrest]
    exact List.mem_cons_self
  | @tail y z _ hstep ih =>
    obtain ⟨w, hw⟩ : ∃ w, (walk next (dom.length + 1) [] (some start)).1.getLast? = some w := by
      rw [hrest]
      exact ⟨_, List.getLast?_cons⟩
    rcases mem_of_step htrail.chain hw ih hstep with rfl | hmem
    · exact hend z ((htrail.last y hw).symm.trans hstep)
    · exact hmem

end Walk
