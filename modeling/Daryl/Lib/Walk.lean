import Mathlib.Data.List.Chain
import Mathlib.Data.List.Nodup
import Mathlib.Logic.Relation

/-!
# Walks that run into cycles

Every node has at most one next node.  A walk from a node follows the next nodes until
there is none or it comes to a node it has seen; then the nodes from there on are a
cycle.  Walking from every node that has a next finds exactly the nodes that lie on
cycles.

## Main definitions

* `Step`, `OnCycle` — one step, and a way from a node back to itself.
* `walk` — the nodes passed, and where the walk ends.
* `cycleFrom` — the cycle a walk runs into.

## Main results

* `onCycle_of_mem_cycleFrom` — what a walk finds lies on a cycle.
* `mem_cycleFrom` — a walk from a node on a cycle finds the node.
* `walk_of_fuel` — more fuel than nodes changes nothing.
* `mem_cycles_iff` — **the walks from all nodes find the nodes on cycles.**
-/

namespace Walk

open Relation

variable {K : Type*} {next : K → Option K}

/-- One step. -/
def Step (next : K → Option K) (a b : K) : Prop := next a = some b

/-- A way from the node back to itself. -/
def OnCycle (next : K → Option K) (n : K) : Prop := TransGen (Step next) n n

theorem step_unique {a b c : K} (hb : Step next a b) (hc : Step next a c) : b = c :=
  Option.some.inj (hb.symm.trans hc)

/-- From a node on a cycle every way leads back. -/
theorem OnCycle.back {n m : K} (hn : OnCycle next n) (h : ReflTransGen (Step next) n m) :
    ReflTransGen (Step next) m n := by
  induction h with
  | refl => exact ReflTransGen.refl
  | tail _ hstep ih =>
    rcases ih.cases_head with rfl | ⟨x, hx, hrest⟩
    · obtain ⟨y, hy, hrest⟩ := TransGen.head'_iff.mp hn
      rwa [step_unique hstep hy]
    · rwa [step_unique hstep hx]

theorem OnCycle.step {n : K} (hn : OnCycle next n) : ∃ m, Step next n m := by
  obtain ⟨m, hm, -⟩ := TransGen.head'_iff.mp hn
  exact ⟨m, hm⟩

/-! ### Chains -/

/-- The nodes of a chain are reached from its head. -/
theorem reach_of_chain {a x : K} {l : List K} (h : (a :: l).IsChain (Step next))
    (hx : x ∈ a :: l) : ReflTransGen (Step next) a x := by
  induction l generalizing a with
  | nil =>
    obtain rfl := List.mem_singleton.mp hx
    exact ReflTransGen.refl
  | cons b l ih =>
    rw [List.isChain_cons_cons] at h
    rcases List.mem_cons.mp hx with rfl | hx
    · exact ReflTransGen.refl
    · exact ReflTransGen.head h.1 (ih h.2 hx)

/-- From every node of a chain its last one is reached. -/
theorem reach_last {x z : K} {l : List K} (h : l.IsChain (Step next)) (hz : l.getLast? = some z)
    (hx : x ∈ l) : ReflTransGen (Step next) x z := by
  induction l generalizing x with
  | nil => cases hx
  | cons a l ih =>
    cases l with
    | nil =>
      obtain rfl := List.mem_singleton.mp hx
      obtain rfl := Option.some.inj hz
      exact ReflTransGen.refl
    | cons b l =>
      rw [List.isChain_cons_cons] at h
      rw [List.getLast?_cons_cons] at hz
      rcases List.mem_cons.mp hx with rfl | hx
      · exact ReflTransGen.head h.1 (ih h.2 hz List.mem_cons_self)
      · exact ih h.2 hz hx

/-- What comes after a node of a chain is in the chain, unless the node is the last. -/
theorem mem_of_step {x y z : K} {l : List K} (h : l.IsChain (Step next))
    (hz : l.getLast? = some z) (hx : x ∈ l) (hxy : Step next x y) : x = z ∨ y ∈ l := by
  induction l generalizing x with
  | nil => cases hx
  | cons a l ih =>
    cases l with
    | nil =>
      left
      obtain rfl := List.mem_singleton.mp hx
      exact Option.some.inj hz
    | cons b l =>
      rw [List.isChain_cons_cons] at h
      rw [List.getLast?_cons_cons] at hz
      rcases List.mem_cons.mp hx with rfl | hx
      · right
        rw [step_unique hxy h.1]
        exact List.mem_cons_of_mem _ List.mem_cons_self
      · exact (ih h.2 hz hx hxy).imp_right (List.mem_cons_of_mem _)

/-! ### Walks -/

variable [DecidableEq K]

/-- The walk: the nodes seen, oldest first, and the node at hand. -/
def walk (next : K → Option K) : ℕ → List K → Option K → List K × Option K
  | 0, seen, node => (seen, node)
  | _ + 1, seen, none => (seen, none)
  | fuel + 1, seen, some n =>
    if n ∈ seen then (seen, some n) else walk next fuel (seen ++ [n]) (next n)

/-- The cycle the walk from a node runs into: the nodes seen, from the one it came back
to. -/
def cycleFrom (next : K → Option K) (fuel : ℕ) (start : K) : List K :=
  match walk next fuel [] (some start) with
  | (seen, some n) => seen.dropWhile (· ≠ n)
  | (_, none) => []

/-- The nodes seen are a chain without repetition, and the node at hand comes next. -/
structure Trail (next : K → Option K) (start : K) (seen : List K) (node : Option K) : Prop where
  chain : seen.IsChain (Step next)
  nodup : seen.Nodup
  last : ∀ x, seen.getLast? = some x → next x = node
  start : (seen ++ node.toList).head? = some start

omit [DecidableEq K] in
theorem Trail.concat {start n : K} {seen : List K} (h : Trail next start seen (some n))
    (hn : n ∉ seen) : Trail next start (seen ++ [n]) (next n) := by
  refine ⟨?_, ?_, ?_, ?_⟩
  · rw [List.isChain_append]
    refine ⟨h.chain, List.isChain_singleton _, ?_⟩
    intro x hx y hy
    obtain rfl := Option.some.inj hy
    exact h.last x hx
  · rw [List.nodup_append]
    refine ⟨h.nodup, List.nodup_singleton _, ?_⟩
    rintro a ha b hb rfl
    exact hn (List.mem_singleton.mp hb ▸ ha)
  · intro x hx
    rw [List.getLast?_concat] at hx
    rw [Option.some.inj hx]
  · have hstart := h.start
    cases seen with
    | nil => exact hstart
    | cons a seen => exact hstart

/-- **A walk with fuel for all nodes ends at no node, or at one it has seen.** -/
theorem walk_spec {start : K} {dom : List K} (hdom : ∀ n m, next n = some m → n ∈ dom) :
    ∀ fuel seen node, Trail next start seen node →
      ((∀ x ∈ seen, x ∈ dom) ∧ dom.length < fuel + seen.length ∨ node = none) →
      Trail next start (walk next fuel seen node).1 (walk next fuel seen node).2 ∧
        ∀ n, (walk next fuel seen node).2 = some n → n ∈ (walk next fuel seen node).1 := by
  intro fuel
  induction fuel with
  | zero =>
    intro seen node htrail henough
    rcases henough with ⟨hsub, hlen⟩ | rfl
    · exact absurd (htrail.nodup.length_le_of_subset hsub) (by omega)
    · exact ⟨htrail, fun n hn => by cases hn⟩
  | succ fuel ih =>
    intro seen node htrail henough
    cases node with
    | none => exact ⟨htrail, fun n hn => by cases hn⟩
    | some n =>
      rw [walk]
      split_ifs with hseen
      · refine ⟨htrail, ?_⟩
        intro m hm
        rwa [← Option.some.inj hm]
      · apply ih _ _ (htrail.concat hseen)
        cases hnext : next n with
        | none => exact Or.inr rfl
        | some m =>
          obtain ⟨hsub, hlen⟩ := henough.resolve_right (by simp)
          refine Or.inl ⟨?_, ?_⟩
          · intro x hx
            rcases List.mem_append.mp hx with hx | hx
            · exact hsub x hx
            · rw [List.mem_singleton.mp hx]
              exact hdom n m hnext
          · rw [List.length_append, List.length_singleton]
            omega

omit [DecidableEq K] in
/-- Nodes were seen, the first of them where the walk started: it ends at none, or at one
seen. -/
theorem Trail.exists_cons {start : K} {seen : List K} {node : Option K}
    (h : Trail next start seen node) (hnode : ∀ n, node = some n → n ∈ seen) :
    ∃ rest, seen = start :: rest := by
  have hstart := h.start
  cases seen with
  | nil =>
    cases node with
    | none => cases hstart
    | some n => exact absurd (hnode n rfl) List.not_mem_nil
  | cons a rest => exact ⟨rest, by rw [Option.some.inj hstart]⟩

theorem trail_walk (start : K) {dom : List K} (hdom : ∀ n m, next n = some m → n ∈ dom) :
    Trail next start (walk next (dom.length + 1) [] (some start)).1
        (walk next (dom.length + 1) [] (some start)).2 ∧
      ∀ n, (walk next (dom.length + 1) [] (some start)).2 = some n →
        n ∈ (walk next (dom.length + 1) [] (some start)).1 := by
  apply walk_spec hdom
  · exact ⟨List.isChain_nil, List.nodup_nil, fun x hx => absurd hx (by simp), rfl⟩
  · left
    exact ⟨fun x hx => absurd hx List.not_mem_nil, by simp⟩

/-- A walk that has ended stays. -/
theorem walk_ended {seen : List K} {node : Option K} (h : ∀ n, node = some n → n ∈ seen)
    (fuel : ℕ) : walk next fuel seen node = (seen, node) := by
  cases fuel with
  | zero => rfl
  | succ fuel =>
    cases node with
    | none => rfl
    | some n => rw [walk, if_pos (h n rfl)]

theorem walk_add (a b : ℕ) (seen : List K) (node : Option K) :
    walk next (a + b) seen node = walk next b (walk next a seen node).1 (walk next a seen node).2 := by
  induction a generalizing seen node with
  | zero => rw [Nat.zero_add]; rfl
  | succ a ih =>
    rw [Nat.succ_add]
    cases node with
    | none =>
      refine (walk_ended ?_ b).symm
      intro n hn
      exact nomatch hn
    | some n =>
      rw [walk, walk]
      split_ifs with hseen
      · refine (walk_ended ?_ b).symm
        rintro m ⟨⟩
        exact hseen
      · exact ih _ _

/-- **More fuel than nodes changes nothing.** -/
theorem walk_of_fuel (start : K) {dom : List K} (hdom : ∀ n m, next n = some m → n ∈ dom) {fuel : ℕ}
    (hfuel : dom.length < fuel) :
    walk next fuel [] (some start) = walk next (dom.length + 1) [] (some start) := by
  obtain ⟨more, rfl⟩ := Nat.exists_eq_add_of_le hfuel
  rw [Nat.succ_eq_add_one, walk_add]
  exact walk_ended (trail_walk start hdom).2 more

/-- The nodes from one that was seen. -/
theorem exists_dropWhile {n : K} {l : List K} (hn : n ∈ l) :
    ∃ pre post, l = pre ++ n :: post ∧ l.dropWhile (· ≠ n) = n :: post := by
  induction l with
  | nil => cases hn
  | cons a l ih =>
    by_cases ha : a = n
    · subst ha
      exact ⟨[], l, rfl, by simp⟩
    · obtain ⟨pre, post, rfl, hdrop⟩ := ih ((List.mem_cons.mp hn).resolve_left fun h => ha h.symm)
      exact ⟨a :: pre, post, rfl, by rw [List.dropWhile_cons_of_pos (by simpa using ha), hdrop]⟩

/-! ### The cycles found -/

/-- **What a walk finds lies on a cycle.** -/
theorem onCycle_of_mem_cycleFrom {start x : K} {dom : List K}
    (hdom : ∀ n m, next n = some m → n ∈ dom) (hx : x ∈ cycleFrom next (dom.length + 1) start) :
    OnCycle next x := by
  have htrail := trail_walk start hdom
  unfold cycleFrom at hx
  split at hx
  · next seen n hwalk =>
    rw [hwalk] at htrail
    obtain ⟨htrail, hseen⟩ := htrail
    obtain ⟨pre, post, rfl, hdrop⟩ := exists_dropWhile (hseen n rfl)
    rw [hdrop] at hx
    have hchain : (n :: post).IsChain (Step next) := (List.isChain_append.mp htrail.chain).2.1
    obtain ⟨z, hz⟩ : ∃ z, (n :: post).getLast? = some z := ⟨_, List.getLast?_cons⟩
    -- from `x` to the last node seen, back to `n`, and on to `x`
    have hback : Step next z n := htrail.last z (by rw [List.getLast?_append, hz]; rfl)
    exact ((TransGen.tail' (reach_last hchain hz hx) hback).trans_left (reach_of_chain hchain hx))
  · cases hx

/-- **A walk from a node on a cycle finds the node.** -/
theorem mem_cycleFrom {n : K} {dom : List K} (hdom : ∀ n m, next n = some m → n ∈ dom)
    (hn : OnCycle next n) : n ∈ cycleFrom next (dom.length + 1) n := by
  have htrail := trail_walk n hdom
  unfold cycleFrom
  split
  · next seen m hwalk =>
    rw [hwalk] at htrail
    obtain ⟨htrail, hseen⟩ := htrail
    dsimp only at htrail hseen
    obtain ⟨pre, post, rfl, hdrop⟩ := exists_dropWhile (hseen m rfl)
    rw [hdrop]
    have hchain : (m :: post).IsChain (Step next) := (List.isChain_append.mp htrail.chain).2.1
    obtain ⟨z, hz⟩ : ∃ z, (m :: post).getLast? = some z := ⟨_, List.getLast?_cons⟩
    have hback : Step next z m := htrail.last z (by rw [List.getLast?_append, hz]; rfl)
    -- the nodes from `m` on are closed under steps
    have hclosed : ∀ x, ReflTransGen (Step next) m x → x ∈ m :: post := by
      intro x hx
      induction hx with
      | refl => exact List.mem_cons_self
      | tail _ hstep ih =>
        rcases mem_of_step hchain hz ih hstep with rfl | hmem
        · rw [step_unique hstep hback]
          exact List.mem_cons_self
        · exact hmem
    have hreach : ReflTransGen (Step next) n m := by
      obtain ⟨rest, hrest⟩ := htrail.exists_cons hseen
      have hm : m ∈ pre ++ m :: post := List.mem_append_right _ List.mem_cons_self
      have hwhole := htrail.chain
      rw [hrest] at hm hwhole
      exact reach_of_chain hwhole hm
    exact hclosed n (hn.back hreach)
  · next seen hwalk =>
    -- the last node seen has no next, but the way leads back from it
    rw [hwalk] at htrail
    dsimp only at htrail
    obtain ⟨rest, rfl⟩ := htrail.1.exists_cons htrail.2
    obtain ⟨z, hz⟩ : ∃ z, (n :: rest).getLast? = some z := ⟨_, List.getLast?_cons⟩
    have hreach := reach_last htrail.1.chain hz List.mem_cons_self
    obtain ⟨y, hy, -⟩ := TransGen.head'_iff.mp (TransGen.trans_right (hn.back hreach) hn)
    have hstop := htrail.1.last z hz
    rw [Step, hstop] at hy
    cases hy

/-- **The walks from all nodes find the nodes on cycles.** -/
theorem mem_cycles_iff {dom : List K} (hdom : ∀ n m, next n = some m → n ∈ dom) {x : K} :
    x ∈ dom.flatMap (cycleFrom next (dom.length + 1)) ↔ OnCycle next x := by
  rw [List.mem_flatMap]
  constructor
  · rintro ⟨start, -, hx⟩
    exact onCycle_of_mem_cycleFrom hdom hx
  · intro hx
    obtain ⟨y, hy⟩ := hx.step
    exact ⟨x, hdom x y hy, mem_cycleFrom hdom hx⟩

end Walk
