import Daryl.Lib.Dict
import Daryl.Lib.StableSort
import Mathlib.Data.Set.Card

/-!
# The best of each group

Pairs of a key and a score are ranked by the best score of each key.  Where the pairs stand by
falling score, the best pair of a key is its first, so a walk that keeps the best of each key
appends the keys in the order in which they rank; and cut short, it has the beginning of the
ranking.

## Main definitions

* `Ranks` — a list is the ranking of the keys by their best scores.
* `firsts` — the first pair of each key.
* `best` — the walk that keeps the best score of each key.
* `ranked` — the pairs by falling score, in their order where the scores agree.
* `Foremost` — a pair of the key is among the first.

## Main results

* `ranks_firsts` — **the first pairs of a falling list are a ranking.**
* `best_eq_firsts` — over a falling list, the walk keeps the first pairs.
* `firsts_take_prefix` — those of a beginning are a beginning.
* `best_take_ranked` — **the best of a beginning are the first of the ranking**, as many as
  there are keys with a pair in the beginning.
-/

namespace Ranking

variable {K S : Type*} [DecidableEq K] [LinearOrder S]

/-- The pairs stand by falling score. -/
def Falling (l : List (K × S)) : Prop := l.Pairwise fun p q => q.2 ≤ p.2

/-- **The list has each key once, with its best score, by falling score.** -/
structure Ranks (scored ranking : List (K × S)) : Prop where
  falling : Falling ranking
  nodup : (Dict.keys ranking).Nodup
  mem : ∀ p, p ∈ ranking ↔ p ∈ scored ∧ ∀ q ∈ scored, q.1 = p.1 → q.2 ≤ p.2

/-- The keys of the pairs. -/
def keysOf (l : List (K × S)) : Finset K := (Dict.keys l).toFinset

/-- The pair goes last if its key is new. -/
def keepFirst (d : List (K × S)) (p : K × S) : List (K × S) :=
  if p.1 ∈ Dict.keys d then d else d ++ [p]

/-- The first pair of each key. -/
def firsts (l : List (K × S)) : List (K × S) := l.foldl keepFirst []

/-- The score of the key is raised, or the key is new. -/
def keepBest (d : List (K × S)) (p : K × S) : List (K × S) :=
  match Dict.get p.1 d with
  | none => Dict.set p.1 p.2 d
  | some s => if s < p.2 then Dict.set p.1 p.2 d else d

/-- The best score of each key. -/
def best (l : List (K × S)) : List (K × S) := l.foldl keepBest []

omit [LinearOrder S] in
theorem firsts_concat (l : List (K × S)) (p : K × S) :
    firsts (l ++ [p]) = keepFirst (firsts l) p := by
  rw [firsts, List.foldl_append]
  rfl

omit [LinearOrder S] in
theorem mem_keys_firsts {l : List (K × S)} {k : K} :
    k ∈ Dict.keys (firsts l) ↔ k ∈ Dict.keys l := by
  induction l using List.reverseRecOn with
  | nil => rfl
  | append_singleton l p ih =>
    have hkeys : ∀ m : List (K × S), Dict.keys (m ++ [p]) = Dict.keys m ++ [p.1] :=
      fun m => List.map_append
    rw [firsts_concat, keepFirst, hkeys, List.mem_append, List.mem_singleton, ← ih]
    split_ifs with hp
    · refine ⟨Or.inl, ?_⟩
      rintro (h | rfl)
      · exact h
      · exact hp
    · rw [hkeys, List.mem_append, List.mem_singleton]

omit [LinearOrder S] in
theorem nodup_keys_firsts (l : List (K × S)) : (Dict.keys (firsts l)).Nodup := by
  induction l using List.reverseRecOn with
  | nil => exact List.nodup_nil
  | append_singleton l p ih =>
    rw [firsts_concat, keepFirst]
    split_ifs with hp
    · exact ih
    · have hkeys : Dict.keys (firsts l ++ [p]) = Dict.keys (firsts l) ++ [p.1] := List.map_append
      rw [hkeys, List.nodup_append]
      refine ⟨ih, List.nodup_singleton _, ?_⟩
      rintro k hk j hj rfl
      exact hp (List.mem_singleton.mp hj ▸ hk)

omit [LinearOrder S] in
theorem firsts_sublist (l : List (K × S)) : (firsts l).Sublist l := by
  induction l using List.reverseRecOn with
  | nil => exact List.Sublist.slnil
  | append_singleton l p ih =>
    rw [firsts_concat, keepFirst]
    split_ifs with hp
    · exact ih.trans (List.sublist_append_left l [p])
    · exact ih.append (List.Sublist.refl [p])

omit [DecidableEq K] in
/-- In a falling list the last score is the least. -/
theorem Falling.le_of_concat {l : List (K × S)} {p : K × S} (h : Falling (l ++ [p])) :
    Falling l ∧ ∀ q ∈ l, p.2 ≤ q.2 := by
  obtain ⟨hl, -, hlast⟩ := List.pairwise_append.mp h
  exact ⟨hl, fun q hq => hlast q hq p (List.mem_singleton_self p)⟩

/-- **In a falling list the first pair of a key is its best.** -/
theorem mem_firsts_iff {l : List (K × S)} (h : Falling l) (p : K × S) :
    p ∈ firsts l ↔ p ∈ l ∧ ∀ q ∈ l, q.1 = p.1 → q.2 ≤ p.2 := by
  induction l using List.reverseRecOn generalizing p with
  | nil => simp [firsts]
  | append_singleton l a ih =>
    obtain ⟨hl, hlast⟩ := h.le_of_concat
    rw [firsts_concat, keepFirst]
    split_ifs with ha
    · -- the key is not new, so there is a pair of it that is no worse
      obtain ⟨b, hb, hkey⟩ := List.mem_map.mp ha
      obtain ⟨hbl, hbest⟩ := (ih hl b).mp hb
      rw [ih hl]
      constructor
      · rintro ⟨hp, hpbest⟩
        refine ⟨List.mem_append_left _ hp, ?_⟩
        intro q hq hqp
        rcases List.mem_append.mp hq with hq | hq
        · exact hpbest q hq hqp
        · obtain rfl := List.mem_singleton.mp hq
          exact hlast p hp
      · rintro ⟨hp, hpbest⟩
        refine ⟨?_, fun q hq => hpbest q (List.mem_append_left _ hq)⟩
        rcases List.mem_append.mp hp with hp | hp
        · exact hp
        · obtain rfl := List.mem_singleton.mp hp
          have hscore : b.2 = p.2 :=
            le_antisymm (hpbest b (List.mem_append_left _ hbl) hkey) (hlast b hbl)
          exact Prod.ext hkey hscore ▸ hbl
    · have hnew : ∀ q ∈ l, q.1 ≠ a.1 := by
        intro q hq hqa
        exact ha (mem_keys_firsts.mpr (List.mem_map.mpr ⟨q, hq, hqa⟩))
      rw [List.mem_append, List.mem_singleton, ih hl]
      constructor
      · rintro (⟨hp, hpbest⟩ | rfl)
        · refine ⟨List.mem_append_left _ hp, ?_⟩
          intro q hq hqp
          rcases List.mem_append.mp hq with hq | hq
          · exact hpbest q hq hqp
          · obtain rfl := List.mem_singleton.mp hq
            exact absurd hqp.symm (hnew p hp)
        · refine ⟨List.mem_append_right _ (List.mem_singleton_self p), ?_⟩
          intro q hq hqp
          rcases List.mem_append.mp hq with hq | hq
          · exact absurd hqp (hnew q hq)
          · exact (congrArg Prod.snd (List.mem_singleton.mp hq)).le
      · rintro ⟨hp, hpbest⟩
        rcases List.mem_append.mp hp with hp | hp
        · exact Or.inl ⟨hp, fun q hq => hpbest q (List.mem_append_left _ hq)⟩
        · exact Or.inr (List.mem_singleton.mp hp)

/-- **The first pairs of a falling list are a ranking** of what it was sorted from. -/
theorem ranks_firsts {l scored : List (K × S)} (h : Falling l) (hperm : l.Perm scored) :
    Ranks scored (firsts l) where
  falling := h.sublist (firsts_sublist l)
  nodup := nodup_keys_firsts l
  mem p := by
    rw [mem_firsts_iff h]
    simp only [hperm.mem_iff]

/-! ### The walk -/

omit [LinearOrder S] in
/-- A key that is new goes last. -/
theorem set_of_notMem {k : K} {s : S} {d : List (K × S)} (h : k ∉ Dict.keys d) :
    Dict.set k s d = d ++ [(k, s)] := by
  induction d with
  | nil => rfl
  | cons p d ih =>
    rw [Dict.keys_cons, List.mem_cons, not_or] at h
    rw [Dict.set, if_neg (Ne.symm h.1), ih h.2]
    rfl

/-- **Over a falling list the walk keeps the first pairs.** -/
theorem best_eq_firsts {l : List (K × S)} (h : Falling l) : best l = firsts l := by
  induction l using List.reverseRecOn with
  | nil => rfl
  | append_singleton l p ih =>
    obtain ⟨hl, hlast⟩ := h.le_of_concat
    have hstep : best (l ++ [p]) = keepBest (firsts l) p := by
      rw [best, List.foldl_append, ← ih hl]
      rfl
    rw [hstep, firsts_concat, keepBest, keepFirst]
    cases hget : Dict.get p.1 (firsts l) with
    | none =>
      have hnew : p.1 ∉ Dict.keys (firsts l) := by
        rw [← Dict.get_isSome, hget]
        exact Bool.false_ne_true
      rw [if_neg hnew]
      exact set_of_notMem hnew
    | some s =>
      have hmem := Dict.mem_of_get hget
      have hle : p.2 ≤ s := hlast _ ((firsts_sublist l).subset hmem)
      have hold : p.1 ∈ Dict.keys (firsts l) := List.mem_map.mpr ⟨_, hmem, rfl⟩
      rw [if_pos hold]
      exact if_neg (not_lt.mpr hle)

omit [LinearOrder S] in
/-- **The first pairs of a beginning are a beginning of the first pairs.** -/
theorem firsts_take_prefix (l : List (K × S)) (n : ℕ) : firsts (l.take n) <+: firsts l := by
  have hgrow : ∀ (m d : List (K × S)), d <+: m.foldl keepFirst d := by
    intro m
    induction m with
    | nil => exact fun d => List.prefix_refl d
    | cons p m ih =>
      intro d
      refine List.IsPrefix.trans ?_ (ih (keepFirst d p))
      unfold keepFirst
      split_ifs
      · exact List.prefix_refl d
      · exact List.prefix_append d [p]
  have hsplit : firsts l = (l.drop n).foldl keepFirst (firsts (l.take n)) := by
    conv_lhs => rw [firsts, ← List.take_append_drop n l, List.foldl_append]
    rfl
  rw [hsplit]
  exact hgrow _ _

omit [LinearOrder S] in
/-- There are as many first pairs as keys. -/
theorem length_firsts (l : List (K × S)) : (firsts l).length = (keysOf l).card := by
  have hkeys : keysOf l = (Dict.keys (firsts l)).toFinset := by
    ext k
    rw [keysOf, List.mem_toFinset, List.mem_toFinset, mem_keys_firsts]
  rw [hkeys, List.toFinset_card_of_nodup (nodup_keys_firsts l), Dict.keys, List.length_map]

omit [DecidableEq K] in
/-- A pair that scores higher stands before one that is among the first. -/
theorem Falling.sublist_take {l : List (K × S)} (h : Falling l) {n : ℕ} {p q : K × S} (hp : p ∈ l)
    (hq : q ∈ l.take n) (hlt : q.2 < p.2) : [p, q].Sublist (l.take n) := by
  obtain ⟨l₁, l₂, hsplit⟩ := List.append_of_mem hq
  have hl : l = l₁ ++ q :: (l₂ ++ l.drop n) := by
    conv_lhs => rw [← List.take_append_drop n l, hsplit, List.append_assoc, List.cons_append]
  rw [hl] at hp h
  rw [hsplit]
  rcases List.mem_append.mp hp with hp | hp
  · exact (List.singleton_sublist.mpr hp).append (List.cons_sublist_cons.mpr (List.nil_sublist l₂))
  · exfalso
    rcases List.mem_cons.mp hp with rfl | hp
    · exact lt_irrefl _ hlt
    · have hle := (List.pairwise_cons.mp (List.pairwise_append.mp h).2.1).1 p hp
      exact lt_irrefl _ (hlt.trans_le hle)

/-! ### The beginning of a sorted list -/

/-- The pairs by falling score, in their order where the scores agree. -/
def ranked (l : List (K × S)) : List (K × S) :=
  StableSort.sortBy (fun p : K × S => OrderDual.toDual p.2) l

/-- **The key has a pair with fewer than `n` ahead of it**: those that score higher, and of
those before it the ones that score as high. -/
def Foremost (n : ℕ) (scored : List (K × S)) (k : K) : Prop :=
  ∃ l₁ s l₂, scored = l₁ ++ (k, s) :: l₂ ∧
    (l₁.filter fun p => s ≤ p.2).length + (l₂.filter fun p => s < p.2).length < n

omit [DecidableEq K] in
theorem ranked_perm (l : List (K × S)) : (ranked l).Perm l := StableSort.sortBy_perm l

omit [DecidableEq K] in
theorem falling_ranked (l : List (K × S)) : Falling (ranked l) := by
  have hsorted : (ranked l).Pairwise fun p q => OrderDual.toDual p.2 ≤ OrderDual.toDual q.2 :=
    StableSort.pairwise_sortBy l
  exact hsorted.imp fun h => OrderDual.toDual_le_toDual.mp h

omit [DecidableEq K] in
/-- What falls already is ranked as it is. -/
theorem ranked_of_falling {l : List (K × S)} (h : Falling l) : ranked l = l :=
  List.Pairwise.insertionSort_eq h

/-- **The first pairs of the ranked list have the keys that are foremost.** -/
theorem mem_keysOf_take_ranked {scored : List (K × S)} {n : ℕ} {k : K} :
    k ∈ keysOf ((ranked scored).take n) ↔ Foremost n scored k := by
  rw [keysOf, List.mem_toFinset, Dict.keys, List.mem_map]
  constructor
  · rintro ⟨⟨k, s⟩, hp, rfl⟩
    obtain ⟨l₁, l₂, rfl, hn⟩ := StableSort.mem_take_sortBy_iff.mp hp
    exact ⟨l₁, s, l₂, rfl, hn⟩
  · rintro ⟨l₁, s, l₂, rfl, hn⟩
    exact ⟨(k, s), StableSort.mem_take_sortBy_iff.mpr ⟨l₁, l₂, rfl, hn⟩, rfl⟩

/-- There are as many as keys that are foremost. -/
theorem card_keysOf_take_ranked (scored : List (K × S)) (n : ℕ) :
    (keysOf ((ranked scored).take n)).card = {k | Foremost n scored k}.ncard := by
  have hset : {k | Foremost n scored k} = ↑(keysOf ((ranked scored).take n)) := by
    ext k
    exact mem_keysOf_take_ranked.symm
  rw [hset, Set.ncard_coe_finset]

/-- **The first pairs of the ranked list are a ranking.** -/
theorem ranks_ranked (scored : List (K × S)) : Ranks scored (firsts (ranked scored)) :=
  ranks_firsts (falling_ranked scored) (ranked_perm scored)

/-- It is as long as there are keys. -/
theorem length_firsts_ranked (scored : List (K × S)) :
    (firsts (ranked scored)).length = (keysOf scored).card := by
  rw [length_firsts]
  congr 1
  ext k
  rw [keysOf, keysOf, List.mem_toFinset, List.mem_toFinset]
  exact ((ranked_perm scored).map Prod.fst).mem_iff

/-- **The best of the beginning are the first of the ranking**, as many as keys are foremost,
and they fall. -/
theorem best_take_ranked (scored : List (K × S)) (n : ℕ) :
    best ((ranked scored).take n) =
        (firsts (ranked scored)).take {k | Foremost n scored k}.ncard ∧
      Falling (best ((ranked scored).take n)) ∧
      {k | Foremost n scored k}.ncard ≤ (keysOf scored).card := by
  have htake : Falling ((ranked scored).take n) :=
    (falling_ranked scored).sublist (List.take_sublist n _)
  have hprefix := firsts_take_prefix (ranked scored) n
  rw [best_eq_firsts htake, ← card_keysOf_take_ranked, ← length_firsts, ← length_firsts_ranked]
  exact ⟨List.prefix_iff_eq_take.mp hprefix, htake.sublist (firsts_sublist _), hprefix.length_le⟩

end Ranking
