import Daryl.Prl.ChunkIndex
import Mathlib.Algebra.Order.Field.Basic
import Mathlib.Data.Finset.Card

/-!
# `prl.query.fusion_index`: two rankings fused

The passages rank the conversations; a conversation whose preview ranks within a gate gets a bonus.
The score of a conversation is the sum of the reciprocals of its ranks, so a late preview never
costs it anything.  The candidates are a set, and conversations of one score come back in the order
in which the set is walked.

Scores are exact.

## Main definitions

* `Retriever`, `SetOrder` — what answers a search, and an order in which sets are walked.
* `ranksOf` — the rank of each conversation among some hits.
* `FusionIndex.search` — the fused ranking.
* `FusionIndex.Fair` — a preview never penalizes, only counts within the gate, and the result does
  not depend on the order of the candidates.
* `FusionIndex.Untied` — no two candidates of one score come within the result.

## Main results

* `search_sublist` — **a conversation stays ahead of those behind it that get no bonus.**
* `search_congr` — what the previews rank beyond the gate does not matter.
* `fair_iff` — **a search is fair iff no two candidates tie within it.**
* `fair_of_gate` — without a gate it always is.
-/

namespace Daryl

open Py

namespace Passages

/-- What answers `search(query, k)` with hits. -/
abbrev Retriever := PyStr → ℤ → Except SearchError (List (PyStr × ℚ))

/-- An order in which sets are walked. -/
abbrev SetOrder := {order : Finset PyStr → List PyStr //
  ∀ s, (order s).Nodup ∧ ∀ cid, cid ∈ order s ↔ cid ∈ s}

/-- `{cid: r for r, (cid, _s) in enumerate(hits, start=1)}`. -/
def ranksOf (hits : List (PyStr × ℚ)) : List (PyStr × ℕ) :=
  ((hits.map Prod.fst).zipIdx 1).foldl (fun d p => Dict.set p.1 p.2 d) []

/-- `FusionIndex`. -/
structure FusionIndex where
  preview : Retriever
  chunk : Retriever
  gate : ℤ
  rrfK : ℤ

namespace FusionIndex

section

variable (fx : FusionIndex) (prevRank chunkRank : List (PyStr × ℕ))

/-- The candidates: what the passages found, and the previews within the gate. -/
def candidates : Finset PyStr :=
  (Dict.keys chunkRank).toFinset ∪
    ((prevRank.filter fun p => (p.2 : ℤ) ≤ fx.gate).map Prod.fst).toFinset

/-- The score of a candidate. -/
def score (cid : PyStr) : ℚ :=
  let score := match Dict.get cid chunkRank with
    | some r => 1 / ((fx.rrfK : ℚ) + r)
    | none => 0
  match Dict.get cid prevRank with
  | some pr => if (pr : ℤ) ≤ fx.gate then score + 1 / ((fx.rrfK : ℚ) + pr) else score
  | none => score

/-- `max(scores.values()) or 1.0`, of scores there are. -/
def top (scores : List (PyStr × ℚ)) : ℚ :=
  let m := (scores.map Prod.snd).max?.getD 0
  if m = 0 then 1 else m

/-- The fused ranking of two rankings. -/
def fuse (order : SetOrder) (k : ℤ) : List (PyStr × ℚ) :=
  let scores := (order.1 (fx.candidates prevRank chunkRank)).map fun cid =>
    (cid, fx.score prevRank chunkRank cid)
  if scores = [] then []
  else upTo k (Ranking.ranked (scores.map fun p => (p.1, p.2 / top scores)))

end

/-- How deep the retrievers are asked. -/
def depth (k : ℤ) : ℤ := max (k * 10) 100

/-- `FusionIndex.search`. -/
def search (fx : FusionIndex) (order : SetOrder) (query : PyStr) (k : ℤ) :
    Except SearchError (List (PyStr × ℚ)) :=
  match fx.preview query (depth k) with
  | .error err => .error err
  | .ok prev =>
    match fx.chunk query (depth k) with
    | .error err => .error err
    | .ok chunk => .ok (fx.fuse (ranksOf prev) (ranksOf chunk) order k)

end FusionIndex

/-! ### Ranks -/

/-- A rank is the place of a hit. -/
theorem getElem?_of_rank {hits : List (PyStr × ℚ)} {cid : PyStr} {r : ℕ}
    (h : Dict.get cid (ranksOf hits) = some r) :
    1 ≤ r ∧ (hits.map Prod.fst)[r - 1]? = some cid := by
  have hmap := Dict.get_map (fun (_ : PyStr) (q : PyStr × ℕ) => q.2) cid
    (Dict.latest Prod.fst ((hits.map Prod.fst).zipIdx 1))
  rw [ranksOf, Dict.foldl_set_eq_latest, hmap, Dict.get_latest, Option.map_eq_some_iff] at h
  obtain ⟨⟨c, i⟩, hlast, rfl⟩ := h
  obtain ⟨hmem, hc⟩ := List.mem_filter.mp (List.mem_of_getLast? hlast)
  obtain rfl : c = cid := of_decide_eq_true hc
  obtain ⟨hle, hget⟩ := List.mem_zipIdx_iff_le_and_getElem?_sub.mp hmem
  exact ⟨hle, hget⟩

/-- No two conversations have one rank. -/
theorem rank_injective {hits : List (PyStr × ℚ)} {c d : PyStr} {r : ℕ}
    (hc : Dict.get c (ranksOf hits) = some r) (hd : Dict.get d (ranksOf hits) = some r) : c = d :=
  Option.some.inj ((getElem?_of_rank hc).2.symm.trans (getElem?_of_rank hd).2)

theorem nodup_ranksOf (hits : List (PyStr × ℚ)) : (Dict.keys (ranksOf hits)).Nodup := by
  rw [ranksOf, Dict.foldl_set_eq_latest, Dict.keys, List.map_map]
  exact Dict.nodup_keys_latest _ _

/-! ### What a search promises -/

namespace FusionIndex

/-- `c` ranks ahead of `d`, or `d` does not rank at all. -/
def Precedes (ranks : List (PyStr × ℕ)) (c d : PyStr) : Prop :=
  ∃ r, Dict.get c ranks = some r ∧ ∀ r', Dict.get d ranks = some r' → r < r'

/-- The conversation ranks within the gate. -/
def Within (gate : ℤ) (ranks : List (PyStr × ℕ)) (cid : PyStr) : Prop :=
  ∃ r, Dict.get cid ranks = some r ∧ (r : ℤ) ≤ gate

/-- The rankings differ beyond the gate only. -/
def AgreeWithin (gate : ℤ) (ranks ranks' : List (PyStr × ℕ)) : Prop :=
  ∀ cid (r : ℕ), (r : ℤ) ≤ gate → (Dict.get cid ranks = some r ↔ Dict.get cid ranks' = some r)

/-- **A fair search**: a conversation stays ahead of those behind it that get no bonus, the
previews beyond the gate do not matter, and neither does the order of the candidates. -/
structure Fair (fx : FusionIndex) (query : PyStr) (k : ℤ) : Prop where
  ahead : ∀ order out prev chunk, fx.search order query k = .ok out →
    fx.preview query (depth k) = .ok prev → fx.chunk query (depth k) = .ok chunk →
    ∀ c d, Precedes (ranksOf chunk) c d → ¬Within fx.gate (ranksOf prev) d → d ∈ Dict.keys out →
      [c, d].Sublist (Dict.keys out)
  gated : ∀ order preview prev prev', fx.preview query (depth k) = .ok prev →
    preview query (depth k) = .ok prev' → AgreeWithin fx.gate (ranksOf prev) (ranksOf prev') →
      { fx with preview := preview }.search order query k = fx.search order query k
  orderFree : ∀ order order', fx.search order query k = fx.search order' query k

/-- No two candidates have one score, but where as many as are asked for score higher. -/
def Untied (fx : FusionIndex) (prevRank chunkRank : List (PyStr × ℕ)) (k : ℤ) : Prop :=
  ∀ c ∈ fx.candidates prevRank chunkRank, ∀ d ∈ fx.candidates prevRank chunkRank, c ≠ d →
    fx.score prevRank chunkRank c = fx.score prevRank chunkRank d →
    k ≤ ((fx.candidates prevRank chunkRank).filter fun e =>
      fx.score prevRank chunkRank c < fx.score prevRank chunkRank e).card

/-! ### Scores -/

section

variable {fx : FusionIndex} {prevRank prevRank' chunkRank : List (PyStr × ℕ)}

/-- The bonus of a conversation. -/
def bonus (fx : FusionIndex) (prevRank : List (PyStr × ℕ)) (cid : PyStr) : ℚ :=
  match Dict.get cid prevRank with
  | some pr => if (pr : ℤ) ≤ fx.gate then 1 / ((fx.rrfK : ℚ) + pr) else 0
  | none => 0

/-- What a conversation scores by its passages. -/
def base (fx : FusionIndex) (chunkRank : List (PyStr × ℕ)) (cid : PyStr) : ℚ :=
  match Dict.get cid chunkRank with
  | some r => 1 / ((fx.rrfK : ℚ) + r)
  | none => 0

theorem score_eq (fx : FusionIndex) (prevRank chunkRank : List (PyStr × ℕ)) (cid : PyStr) :
    fx.score prevRank chunkRank cid = fx.base chunkRank cid + fx.bonus prevRank cid := by
  unfold score base bonus
  dsimp only
  cases Dict.get cid prevRank with
  | none => rw [add_zero]
  | some pr =>
    dsimp only
    split_ifs
    · rfl
    · rw [add_zero]

theorem recip_pos (hk : 1 ≤ fx.rrfK) (r : ℕ) : (0 : ℚ) < 1 / ((fx.rrfK : ℚ) + r) := by
  have hk' : (1 : ℚ) ≤ fx.rrfK := by exact_mod_cast hk
  positivity

theorem recip_lt (hk : 1 ≤ fx.rrfK) {r r' : ℕ} (h : r < r') :
    1 / ((fx.rrfK : ℚ) + r') < 1 / ((fx.rrfK : ℚ) + r) := by
  have hk' : (1 : ℚ) ≤ fx.rrfK := by exact_mod_cast hk
  have h' : (r : ℚ) < r' := by exact_mod_cast h
  exact one_div_lt_one_div_of_lt (by positivity) (by linarith)

theorem bonus_nonneg (hk : 1 ≤ fx.rrfK) (prevRank : List (PyStr × ℕ)) (cid : PyStr) :
    0 ≤ fx.bonus prevRank cid := by
  unfold bonus
  cases Dict.get cid prevRank with
  | none => exact le_refl 0
  | some pr =>
    dsimp only
    split_ifs
    · exact (recip_pos hk pr).le
    · exact le_refl 0

theorem base_nonneg (hk : 1 ≤ fx.rrfK) (chunkRank : List (PyStr × ℕ)) (cid : PyStr) :
    0 ≤ fx.base chunkRank cid := by
  unfold base
  cases Dict.get cid chunkRank with
  | none => exact le_refl 0
  | some r => exact (recip_pos hk r).le

theorem bonus_eq_zero {cid : PyStr} (h : ¬Within fx.gate prevRank cid) :
    fx.bonus prevRank cid = 0 := by
  unfold bonus
  cases hrank : Dict.get cid prevRank with
  | none => rfl
  | some pr => exact if_neg fun hle => h ⟨pr, hrank, hle⟩

/-- The candidates are those with a rank by their passages, or within the gate. -/
theorem mem_candidates (hprev : (Dict.keys prevRank).Nodup) {cid : PyStr} :
    cid ∈ fx.candidates prevRank chunkRank ↔
      (∃ r, Dict.get cid chunkRank = some r) ∨ Within fx.gate prevRank cid := by
  rw [candidates, Finset.mem_union, List.mem_toFinset, List.mem_toFinset, ← Dict.get_isSome,
    Option.isSome_iff_exists, List.mem_map]
  refine or_congr Iff.rfl ?_
  constructor
  · rintro ⟨⟨c, r⟩, hp, rfl⟩
    obtain ⟨hmem, hle⟩ := List.mem_filter.mp hp
    exact ⟨r, Dict.get_of_mem hprev hmem, of_decide_eq_true hle⟩
  · rintro ⟨r, hget, hle⟩
    exact ⟨(cid, r), List.mem_filter.mpr ⟨Dict.mem_of_get hget, decide_eq_true hle⟩, rfl⟩

/-- Normalized or not, the scores compare. -/
theorem top_pos {scores : List (PyStr × ℚ)} (h : ∀ p ∈ scores, 0 ≤ p.2) : 0 < top scores := by
  have hmax : 0 ≤ (scores.map Prod.snd).max?.getD 0 := by
    cases hm : (scores.map Prod.snd).max? with
    | none => exact le_refl 0
    | some m =>
      obtain ⟨p, hp, rfl⟩ := List.mem_map.mp (List.max?_eq_some_iff.mp hm).1
      exact h p hp
  unfold top
  dsimp only
  split_ifs with hzero
  · exact one_pos
  · exact lt_of_le_of_ne hmax fun heq => hzero heq.symm

theorem top_perm {scores scores' : List (PyStr × ℚ)} (h : scores.Perm scores') :
    top scores = top scores' := by
  have hmax : (scores.map Prod.snd).max? = (scores'.map Prod.snd).max? := by
    cases hm : (scores'.map Prod.snd).max? with
    | none =>
      rw [List.max?_eq_none_iff, List.map_eq_nil_iff] at hm ⊢
      rw [hm] at h
      exact h.eq_nil
    | some m =>
      obtain ⟨hmem, hle⟩ := List.max?_eq_some_iff.mp hm
      have hsnd := h.map Prod.snd
      exact List.max?_eq_some_iff.mpr
        ⟨hsnd.mem_iff.mpr hmem, fun b hb => hle b (hsnd.mem_iff.mp hb)⟩
  rw [top, hmax, top]

/-- Some order. -/
noncomputable def anyOrder : SetOrder :=
  ⟨Finset.toList, fun s => ⟨s.nodup_toList, fun _ => Finset.mem_toList⟩⟩

/-- Two orders walk a set through the same conversations. -/
theorem order_perm (order order' : SetOrder) (s : Finset PyStr) :
    (order.1 s).Perm (order'.1 s) :=
  (List.perm_ext_iff_of_nodup (order.2 s).1 (order'.2 s).1).mpr fun cid =>
    ((order.2 s).2 cid).trans ((order'.2 s).2 cid).symm

/-- The scores of the candidates, as parts of the highest. -/
def scored (fx : FusionIndex) (prevRank chunkRank : List (PyStr × ℕ)) (t : ℚ)
    (cids : List PyStr) : List (PyStr × ℚ) :=
  cids.map fun cid => (cid, fx.score prevRank chunkRank cid / t)

theorem score_nonneg (hk : 1 ≤ fx.rrfK) (cid : PyStr) : 0 ≤ fx.score prevRank chunkRank cid := by
  rw [score_eq]
  exact add_nonneg (base_nonneg hk chunkRank cid) (bonus_nonneg hk prevRank cid)

/-- **A search is the first of the candidates, sorted by their scores.** -/
theorem exists_fuse_eq (hrrf : 1 ≤ fx.rrfK) {k : ℤ} (hk : 1 ≤ k) :
    ∃ t : ℚ, 0 < t ∧ ∀ order : SetOrder, fx.fuse prevRank chunkRank order k =
      (Ranking.ranked (fx.scored prevRank chunkRank t
        (order.1 (fx.candidates prevRank chunkRank)))).take k.toNat := by
  have hnonneg : ∀ cids : List PyStr, ∀ p ∈ cids.map fun cid =>
      (cid, fx.score prevRank chunkRank cid), 0 ≤ p.2 := by
    intro cids p hp
    obtain ⟨cid, -, rfl⟩ := List.mem_map.mp hp
    exact score_nonneg hrrf cid
  -- the highest score is that of any order
  refine ⟨top ((anyOrder.1 (fx.candidates prevRank chunkRank)).map fun cid =>
    (cid, fx.score prevRank chunkRank cid)), top_pos (hnonneg _), ?_⟩
  intro order
  have htop := top_perm ((order_perm order anyOrder
    (fx.candidates prevRank chunkRank)).map fun cid => (cid, fx.score prevRank chunkRank cid))
  unfold fuse scored
  dsimp only at htop ⊢
  rw [← htop]
  split_ifs with hnil
  · rw [List.map_eq_nil_iff] at hnil
    rw [hnil]
    exact List.take_nil.symm
  · rw [upTo_of_nonneg (by omega), List.map_map]
    rfl

theorem score_of_mem {t : ℚ} {cids : List PyStr} {p : PyStr × ℚ}
    (h : p ∈ fx.scored prevRank chunkRank t cids) :
    p.1 ∈ cids ∧ p.2 = fx.score prevRank chunkRank p.1 / t := by
  obtain ⟨cid, hcid, rfl⟩ := List.mem_map.mp h
  exact ⟨hcid, rfl⟩

/-- **A conversation stays ahead of those behind it that get no bonus.** -/
theorem search_sublist (hrrf : 1 ≤ fx.rrfK) {k : ℤ} (hk : 1 ≤ k)
    (hprev : (Dict.keys prevRank).Nodup) (order : SetOrder) {c d : PyStr}
    (hcd : Precedes chunkRank c d) (hd : ¬Within fx.gate prevRank d)
    (hout : d ∈ Dict.keys (fx.fuse prevRank chunkRank order k)) :
    [c, d].Sublist (Dict.keys (fx.fuse prevRank chunkRank order k)) := by
  obtain ⟨t, ht, hfuse⟩ := @exists_fuse_eq fx prevRank chunkRank hrrf k hk
  obtain ⟨r, hr, hbehind⟩ := hcd
  rw [hfuse order] at hout ⊢
  obtain ⟨q, hq, rfl⟩ := List.mem_map.mp hout
  obtain ⟨hqmem, hqscore⟩ :=
    score_of_mem ((Ranking.ranked_perm _).mem_iff.mp (List.mem_of_mem_take hq))
  have hc : c ∈ fx.candidates prevRank chunkRank := (mem_candidates hprev).mpr (Or.inl ⟨r, hr⟩)
  -- who comes back without a bonus ranks by its passages, and behind
  obtain ⟨r', hr'⟩ := ((mem_candidates hprev).mp (((order.2 _).2 _).mp hqmem)).resolve_right hd
  have hlower : fx.score prevRank chunkRank q.1 < fx.score prevRank chunkRank c := by
    have hbase : fx.base chunkRank q.1 < fx.base chunkRank c := by
      rw [base, hr', base, hr]
      exact recip_lt hrrf (hbehind r' hr')
    rw [score_eq, score_eq, bonus_eq_zero hd, add_zero]
    exact hbase.trans_le (le_add_of_nonneg_right (bonus_nonneg hrrf prevRank c))
  have hcmem : (c, fx.score prevRank chunkRank c / t) ∈ Ranking.ranked
      (fx.scored prevRank chunkRank t (order.1 (fx.candidates prevRank chunkRank))) :=
    (Ranking.ranked_perm _).mem_iff.mpr (List.mem_map_of_mem (((order.2 _).2 c).mpr hc))
  have hlt : q.2 < fx.score prevRank chunkRank c / t := by
    rw [hqscore]
    exact div_lt_div_of_pos_right hlower ht
  exact ((Ranking.falling_ranked _).sublist_take hcmem hq hlt).map Prod.fst

/-- **What the previews rank beyond the gate does not matter.** -/
theorem search_congr (hprev : (Dict.keys prevRank).Nodup) (hprev' : (Dict.keys prevRank').Nodup)
    (h : AgreeWithin fx.gate prevRank prevRank') (order : SetOrder) (k : ℤ) :
    fx.fuse prevRank' chunkRank order k = fx.fuse prevRank chunkRank order k := by
  have hwithin : ∀ cid, Within fx.gate prevRank' cid ↔ Within fx.gate prevRank cid := by
    intro cid
    constructor
    · rintro ⟨r, hr, hle⟩
      exact ⟨r, (h cid r hle).mpr hr, hle⟩
    · rintro ⟨r, hr, hle⟩
      exact ⟨r, (h cid r hle).mp hr, hle⟩
  have hcandidates : fx.candidates prevRank' chunkRank = fx.candidates prevRank chunkRank := by
    ext cid
    rw [mem_candidates hprev', mem_candidates hprev, hwithin]
  have hbonus : ∀ cid, fx.bonus prevRank' cid = fx.bonus prevRank cid := by
    intro cid
    by_cases hin : Within fx.gate prevRank cid
    · obtain ⟨r, hr, hle⟩ := hin
      rw [bonus, (h cid r hle).mp hr, bonus, hr]
    · rw [bonus_eq_zero hin, bonus_eq_zero fun hin' => hin ((hwithin cid).mp hin')]
  have hscore : fx.score prevRank' chunkRank = fx.score prevRank chunkRank := by
    funext cid
    rw [score_eq, score_eq, hbonus]
  rw [fuse, hcandidates, hscore, fuse]

/-- **The order of the candidates does not matter iff none tie.** -/
theorem fuse_orderFree_iff (hrrf : 1 ≤ fx.rrfK) {k : ℤ} (hk : 1 ≤ k) :
    (∀ order order', fx.fuse prevRank chunkRank order k = fx.fuse prevRank chunkRank order' k) ↔
      fx.Untied prevRank chunkRank k := by
  obtain ⟨t, ht, hfuse⟩ := @exists_fuse_eq fx prevRank chunkRank hrrf k hk
  unfold Untied
  generalize fx.candidates prevRank chunkRank = cands at hfuse ⊢
  have hscored : ∀ order : SetOrder, (fx.scored prevRank chunkRank t (order.1 cands)).Perm
      (fx.scored prevRank chunkRank t cands.toList) :=
    fun order => (order_perm order anyOrder cands).map _
  have hfree : (∀ order order', fx.fuse prevRank chunkRank order k
        = fx.fuse prevRank chunkRank order' k) ↔
      ∀ l', l'.Perm (fx.scored prevRank chunkRank t cands.toList) →
        (Ranking.ranked l').take k.toNat
          = (Ranking.ranked (fx.scored prevRank chunkRank t cands.toList)).take k.toNat := by
    constructor
    · intro h l' hl'
      -- a list of the scores is the scores of a list
      have hids : (l'.map Prod.fst).Perm cands.toList := by
        have hfst := hl'.map Prod.fst
        rwa [scored, List.map_map, Function.comp_def, List.map_id'] at hfst
      have hl : l' = fx.scored prevRank chunkRank t (l'.map Prod.fst) := by
        rw [scored, List.map_map]
        conv_lhs => rw [← List.map_id l']
        apply List.map_congr_left
        intro p hp
        exact Prod.ext rfl (score_of_mem (hl'.mem_iff.mp hp)).2
      let order : SetOrder := ⟨fun s => if s = cands then l'.map Prod.fst else s.toList, fun s => by
        dsimp only
        split_ifs with hs
        · rw [hs]
          exact ⟨hids.nodup_iff.mpr cands.nodup_toList, fun cid =>
            hids.mem_iff.trans Finset.mem_toList⟩
        · exact ⟨s.nodup_toList, fun cid => Finset.mem_toList⟩⟩
      have horder : order.1 cands = l'.map Prod.fst := if_pos rfl
      have hsame := h order anyOrder
      rwa [hfuse, hfuse, horder, ← hl] at hsame
    · intro h order order'
      rw [hfuse, hfuse, h _ (hscored order), h _ (hscored order')]
  have hcount : ∀ c, ((fx.scored prevRank chunkRank t cands.toList).filter fun a =>
        OrderDual.toDual a.2 < OrderDual.toDual (fx.score prevRank chunkRank c / t)).length
      = (cands.filter fun e => fx.score prevRank chunkRank c < fx.score prevRank chunkRank e).card := by
    intro c
    have hset : (cands.filter fun e => fx.score prevRank chunkRank c < fx.score prevRank chunkRank e)
        = (cands.toList.filter fun e =>
          fx.score prevRank chunkRank c < fx.score prevRank chunkRank e).toFinset := by
      ext e
      simp
    rw [hset, List.toFinset_card_of_nodup (cands.nodup_toList.filter _), scored, List.filter_map,
      List.length_map]
    congr 1
    apply List.filter_congr
    intro e _
    simp only [Function.comp_apply, OrderDual.toDual_lt_toDual, div_lt_div_iff_of_pos_right ht]
  rw [hfree]
  refine StableSort.take_sortBy_perm_iff.trans ?_
  constructor
  · intro h c hc d hd hne hscore
    have hin : ∀ {e}, e ∈ cands → (e, fx.score prevRank chunkRank e / t)
        ∈ fx.scored prevRank chunkRank t cands.toList :=
      fun he => List.mem_map_of_mem (Finset.mem_toList.mpr he)
    have hmany := h _ (hin hc) _ (hin hd) (fun heq => hne (Prod.mk.inj heq).1)
      (by rw [hscore])
    rw [hcount] at hmany
    omega
  · intro h x hx y hy hne hkey
    obtain ⟨hxc, hxs⟩ := score_of_mem hx
    obtain ⟨hyc, hys⟩ := score_of_mem hy
    have hsame : x.2 = y.2 := OrderDual.toDual_inj.mp hkey
    have hscore : fx.score prevRank chunkRank x.1 = fx.score prevRank chunkRank y.1 := by
      rw [hxs, hys, div_left_inj' ht.ne'] at hsame
      exact hsame
    have hmany := h x.1 (Finset.mem_toList.mp hxc) y.1 (Finset.mem_toList.mp hyc)
      (fun heq => hne (Prod.ext heq hsame)) hscore
    rw [hxs, hcount]
    omega

/-- Ranks alone do not tie. -/
theorem base_injective (hrrf : 1 ≤ fx.rrfK) {c d : PyStr} {r r' : ℕ}
    (hc : Dict.get c chunkRank = some r) (hd : Dict.get d chunkRank = some r')
    (h : fx.base chunkRank c = fx.base chunkRank d) : r = r' := by
  rw [base, hc, base, hd] at h
  rcases lt_trichotomy r r' with hlt | heq | hlt
  · exact absurd h (recip_lt hrrf hlt).ne'
  · exact heq
  · exact absurd h (recip_lt hrrf hlt).ne

end

/-- Where none tie, a search is fair. -/
theorem fair_of_untied {fx : FusionIndex} (hrrf : 1 ≤ fx.rrfK) {query : PyStr} {k : ℤ} (hk : 1 ≤ k)
    (h : ∀ prev chunk, fx.preview query (depth k) = .ok prev →
      fx.chunk query (depth k) = .ok chunk → fx.Untied (ranksOf prev) (ranksOf chunk) k) :
    fx.Fair query k := by
  refine ⟨?_, ?_, ?_⟩
  · intro order out prev chunk hout hprev hchunk c d hcd hd hmem
    rw [search, hprev, hchunk] at hout
    obtain rfl := Except.ok.inj hout
    exact search_sublist hrrf hk (nodup_ranksOf prev) order hcd hd hmem
  · intro order preview prev prev' hprev hprev' hagree
    rw [search, search]
    dsimp only
    rw [hprev, hprev']
    cases fx.chunk query (depth k) with
    | error err => rfl
    | ok chunk =>
      exact congrArg Except.ok
        (search_congr (nodup_ranksOf prev) (nodup_ranksOf prev') hagree order k)
  · intro order order'
    rw [search, search]
    cases hprev : fx.preview query (depth k) with
    | error err => rfl
    | ok prev =>
      cases hchunk : fx.chunk query (depth k) with
      | error err => rfl
      | ok chunk =>
        exact congrArg Except.ok
          ((fuse_orderFree_iff hrrf hk).mpr (h prev chunk hprev hchunk) order order')

/-- **A search is fair iff no two candidates tie within it.** -/
theorem fair_iff (fx : FusionIndex) (hrrf : 1 ≤ fx.rrfK) (query : PyStr) {k : ℤ} (hk : 1 ≤ k) :
    fx.Fair query k ↔ ∀ prev chunk, fx.preview query (depth k) = .ok prev →
      fx.chunk query (depth k) = .ok chunk → fx.Untied (ranksOf prev) (ranksOf chunk) k := by
  constructor
  · intro h prev chunk hprev hchunk
    refine (fuse_orderFree_iff hrrf hk).mp fun order order' => ?_
    have hfree := h.orderFree order order'
    rw [search, search, hprev, hchunk] at hfree
    exact Except.ok.inj hfree
  · exact fair_of_untied hrrf hk

/-- A retriever that finds these conversations. -/
def sampleRetriever (cids : List PyStr) : Retriever := fun _ _ => .ok (cids.map fun cid => (cid, 1))

/-- A passage finds one conversation, and a title another. -/
def sampleFusion : FusionIndex :=
  ⟨sampleRetriever [py "title"], sampleRetriever [py "passage"], 10, 10⟩

theorem fair_iff_sample : sampleFusion.Fair (py "q") 10 ↔
    ∀ prev chunk, sampleFusion.preview (py "q") (depth 10) = .ok prev →
      sampleFusion.chunk (py "q") (depth 10) = .ok chunk →
      sampleFusion.Untied (ranksOf prev) (ranksOf chunk) 10 :=
  fair_iff sampleFusion (by decide) (py "q") (by decide)

/-- The two score the same, and come back in the order of the set. -/
theorem not_fair : ¬sampleFusion.Fair (py "q") 10 := by
  intro h
  have huntied : sampleFusion.Untied (ranksOf [(py "title", 1)]) (ranksOf [(py "passage", 1)]) 10 :=
    (fuse_orderFree_iff (by decide) (by decide)).mp fun order order' =>
      Except.ok.inj (h.orderFree order order')
  exact absurd (huntied (py "title") (by decide +kernel) (py "passage") (by decide +kernel)
    (by decide) (by decide +kernel)) (by decide +kernel)

/-- **Without a gate a search is fair**: the passages alone rank. -/
theorem fair_of_gate {fx : FusionIndex} (hrrf : 1 ≤ fx.rrfK) (hgate : fx.gate ≤ 0) (query : PyStr)
    {k : ℤ} (hk : 1 ≤ k) : fx.Fair query k := by
  refine fair_of_untied hrrf hk fun prev chunk _ _ => ?_
  have hno : ∀ cid, ¬Within fx.gate (ranksOf prev) cid := by
    rintro cid ⟨r, hr, hle⟩
    have hpos := (getElem?_of_rank hr).1
    omega
  intro c hc d hd hne hscore
  obtain ⟨r, hr⟩ := ((mem_candidates (nodup_ranksOf prev)).mp hc).resolve_right (hno c)
  obtain ⟨r', hr'⟩ := ((mem_candidates (nodup_ranksOf prev)).mp hd).resolve_right (hno d)
  rw [score_eq, score_eq, bonus_eq_zero (hno c), bonus_eq_zero (hno d), add_zero, add_zero] at hscore
  have hrank := base_injective hrrf hr hr' hscore
  exact absurd (rank_injective hr (hrank ▸ hr')) hne

end FusionIndex

end Passages

end Daryl
