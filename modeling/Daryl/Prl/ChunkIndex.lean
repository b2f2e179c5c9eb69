import Daryl.Lib.Ranking
import Daryl.Py.Str
import Mathlib.Algebra.BigOperators.Group.List.Basic

/-!
# `prl.query.chunk_index`: the search for passages

A conversation is indexed as many chunks, and counts as its best chunk.  A search takes the
chunks that score highest, twenty for each conversation asked for and two hundred at least, and
collapses them to conversations.  A long conversation can fill that depth alone.

Embedding and normalization are the embedder's; scores are exact.

## Main definitions

* `chunkText` — the chunks of a text.
* `SemanticIndex.build`, `SemanticIndex.search` — one vector for each unit.
* `ChunkIndex.build`, `ChunkIndex.search` — the units of a conversation are its chunks.
* `ChunkIndex.passages` — every indexed chunk, with its conversation and its score.

## Main results

* `flatten_chunkText` — the chunks of a text are the text.
* `sessionOf_unitId` — the id of a chunk tells its conversation.
* `search_ranked` — **a search gives the beginning of the ranking by best chunks**, as far as
  conversations have a chunk within the depth.
-/

namespace Daryl

open Py

namespace Passages

/-! ### The chunks of a text -/

/-- `chunk_text`. -/
def chunkText (text : PyStr) (chunkChars : ℤ) : List PyStr :=
  if text = [] ∨ chunkChars ≤ 0 then
    if text = [] then [] else [text]
  else
    let n := chunkChars.toNat
    (List.range ((text.length + n - 1) / n)).map fun i => (text.drop (i * n)).take n

/-- The slices of a list of `n` items each are a beginning of it. -/
theorem flatten_slices {A : Type*} (l : List A) (n m : ℕ) :
    ((List.range m).map fun i => (l.drop (i * n)).take n).flatten = l.take (m * n) := by
  induction m with
  | zero => rw [Nat.zero_mul, List.take_zero]; rfl
  | succ m ih =>
    rw [List.range_succ, List.map_append, List.flatten_append, ih, Nat.succ_mul, List.take_add]
    simp

/-- **The chunks of a text are the text.** -/
theorem flatten_chunkText (text : PyStr) (chunkChars : ℤ) :
    (chunkText text chunkChars).flatten = text := by
  unfold chunkText
  split_ifs with h htext
  · exact htext.symm
  · simp
  · have hn : 0 < chunkChars.toNat := by omega
    rw [flatten_slices, List.take_of_length_le]
    -- the number of slices is rounded up
    have hdiv := Nat.div_add_mod (text.length + chunkChars.toNat - 1) chunkChars.toNat
    have hmod := Nat.mod_lt (text.length + chunkChars.toNat - 1) hn
    rw [Nat.mul_comm]
    omega

/-! ### `prl.query.semantic` -/

/-- What a search raises: a `SemanticError` with its text, or an `IndexError`. -/
inductive SearchError
  | semantic (message : PyStr)
  | index
  deriving DecidableEq

/-- `Embedder`: a vector for each text. -/
structure Embedder where
  embed : List PyStr → List (List ℚ)
  length_embed : ∀ texts, (embed texts).length = texts.length

/-- `_dot`. -/
def dot (a b : List ℚ) : ℚ := (List.zipWith (· * ·) a b).sum

/-- `SemanticIndex`. -/
structure SemanticIndex where
  ids : List PyStr
  vecs : List (List ℚ)
  dim : Option ℕ
  deriving DecidableEq

/-- A new `SemanticIndex`. -/
def SemanticIndex.empty : SemanticIndex := ⟨[], [], none⟩

/-- `_require_embedder`. -/
def requireEmbedder (embedder : Option Embedder) : Except SearchError Embedder :=
  match embedder with
  | some e => .ok e
  | none => .error (.semantic (py "an Embedder is required for this operation"))

/-- `_set_dim`. -/
def setDim (dim : Option ℕ) (d : ℕ) : Except SearchError (Option ℕ) :=
  match dim with
  | none => .ok (some d)
  | some want =>
    if d = want then .ok dim
    else .error (.semantic (py "vector dim mismatch: " ++ natStr d ++ py " != " ++ natStr want))

variable (normalize : List ℚ → List ℚ) (embedder : Option Embedder)

/-- The loop of `SemanticIndex.build`, which keeps what it indexed before it raises. -/
def SemanticIndex.indexAll : List (PyStr × List ℚ) → SemanticIndex →
    Except SearchError Unit × SemanticIndex
  | [], s => (.ok (), s)
  | (nodeId, vec) :: rest, s =>
    let nv := normalize vec
    match setDim s.dim nv.length with
    | .error err => (.error err, s)
    | .ok dim => indexAll rest ⟨s.ids ++ [nodeId], s.vecs ++ [nv], dim⟩

/-- `SemanticIndex.build`. -/
def SemanticIndex.build (items : List (PyStr × PyStr)) (s : SemanticIndex) :
    Except SearchError Unit × SemanticIndex :=
  match items with
  | [] => (.ok (), s)
  | _ :: _ =>
    match requireEmbedder embedder with
    | .error err => (.error err, s)
    | .ok e => indexAll normalize ((items.map Prod.fst).zip (e.embed (items.map Prod.snd))) s

/-- `l[:k]`. -/
def upTo {A : Type} (k : ℤ) (l : List A) : List A :=
  l.take (if k < 0 then (l.length + k).toNat else k.toNat)

/-- `SemanticIndex.search`. -/
def SemanticIndex.search (s : SemanticIndex) (query : PyStr) (k : ℤ) :
    Except SearchError (List (PyStr × ℚ)) :=
  match s.vecs with
  | [] => .ok []
  | _ :: _ =>
    match requireEmbedder embedder with
    | .error err => .error err
    | .ok e =>
      match e.embed [query] with
      | [] => .error .index
      | v :: _ =>
        let q := normalize v
        let scored := (s.ids.zip s.vecs).map fun p => (p.1, dot q p.2)
        .ok (upTo k (Ranking.ranked scored))

/-! ### `ChunkIndex` -/

/-- `#`. -/
def hash : CodePoint := 35

/-- `f"{session_id}#c{i}"`. -/
def unitId (sessionId : PyStr) (i : ℕ) : PyStr := sessionId ++ hash :: (py "c" ++ natStr i)

/-- `unit_id.rsplit("#", 1)[0]`. -/
def sessionOf (unitId : PyStr) : PyStr :=
  match unitId.reverse.dropWhile (· ≠ hash) with
  | [] => unitId
  | _ :: rest => rest.reverse

/-- The chunks of a conversation that are not blank, with their places. -/
def chunksOf (chunkChars : ℤ) (text : PyStr) : List (PyStr × ℕ) :=
  (chunkText text chunkChars).zipIdx.filter fun c => strip c.1 ≠ []

/-- The units of a conversation. -/
def unitsOf (chunkChars : ℤ) (item : PyStr × PyStr) : List (PyStr × PyStr) :=
  (chunksOf chunkChars item.2).map fun c => (unitId item.1 c.2, c.1)

/-- `ChunkIndex.build`. -/
def ChunkIndex.build (chunkChars : ℤ) (convItems : List (PyStr × PyStr)) (s : SemanticIndex) :
    Except SearchError Unit × SemanticIndex :=
  s.build normalize embedder (convItems.flatMap (unitsOf chunkChars))

/-- `ChunkIndex.search`. -/
def ChunkIndex.search (s : SemanticIndex) (query : PyStr) (k : ℤ) :
    Except SearchError (List (PyStr × ℚ)) :=
  match s.search normalize embedder query (max (k * 20) 200) with
  | .error err => .error err
  | .ok raw =>
    let best := Ranking.best (raw.map fun u => (sessionOf u.1, u.2))
    .ok (upTo k (Ranking.ranked best))

/-- The builds of an index, each after the one before it. -/
def ChunkIndex.buildAll (chunkChars : ℤ) : List (List (PyStr × PyStr)) → SemanticIndex →
    Except SearchError Unit × SemanticIndex
  | [], s => (.ok (), s)
  | convItems :: rest, s =>
    match ChunkIndex.build normalize embedder chunkChars convItems s with
    | (.error err, s) => (.error err, s)
    | (.ok (), s) => buildAll chunkChars rest s

/-! ### What the builds index -/

/-- The id of a unit tells its conversation. -/
theorem sessionOf_append {t : PyStr} (h : hash ∉ t) (s : PyStr) :
    sessionOf (s ++ hash :: t) = s := by
  have hdrop : (s ++ hash :: t).reverse.dropWhile (· ≠ hash) = hash :: s.reverse := by
    rw [List.reverse_append, List.reverse_cons, List.append_assoc,
      List.dropWhile_append_of_pos]
    · simp
    · intro c hc
      have hct : c ≠ hash := fun hch => h (hch ▸ List.mem_reverse.mp hc)
      simpa using hct
  rw [sessionOf, hdrop]
  exact List.reverse_reverse s

/-- **The id of a chunk tells its conversation.** -/
theorem sessionOf_unitId (sessionId : PyStr) (i : ℕ) : sessionOf (unitId sessionId i) = sessionId := by
  apply sessionOf_append
  -- neither the `c` nor a digit is a `#`
  rw [List.mem_append, not_or]
  refine ⟨by decide, ?_⟩
  intro hmem
  have hdigit := within_map_digitChar (decDigits i) hash hmem
  exact absurd hdigit.1 (by decide)

theorem sessionOf_unitsOf (chunkChars : ℤ) (item : PyStr × PyStr) :
    (unitsOf chunkChars item).map (fun u => sessionOf u.1)
      = (chunksOf chunkChars item.2).map fun _ => item.1 := by
  rw [unitsOf, List.map_map]
  apply List.map_congr_left
  intro c _
  exact sessionOf_unitId item.1 c.2

/-- The conversation of each chunk that the builds index. -/
def sessionsOf (chunkChars : ℤ) (batches : List (List (PyStr × PyStr))) : List PyStr :=
  batches.flatten.flatMap fun item => (chunksOf chunkChars item.2).map fun _ => item.1

theorem sessionsOf_cons (chunkChars : ℤ) (items : List (PyStr × PyStr))
    (batches : List (List (PyStr × PyStr))) :
    sessionsOf chunkChars (items :: batches)
      = (items.flatMap (unitsOf chunkChars)).map (fun u => sessionOf u.1) ++
        sessionsOf chunkChars batches := by
  have hitems : (items.flatMap (unitsOf chunkChars)).map (fun u => sessionOf u.1)
      = items.flatMap fun item => (chunksOf chunkChars item.2).map fun _ => item.1 := by
    rw [List.map_flatMap]
    simp only [sessionOf_unitsOf]
  rw [sessionsOf, List.flatten_cons, List.flatMap_append, hitems]
  rfl

/-- The vector of each chunk that the builds index. -/
def vectorsOf (e : Embedder) (chunkChars : ℤ) (batches : List (List (PyStr × PyStr))) :
    List (List ℚ) :=
  batches.flatMap fun items =>
    (e.embed ((items.flatMap (unitsOf chunkChars)).map Prod.snd)).map normalize

/-- **Every indexed chunk, with its conversation and its score.** -/
def passages (e : Embedder) (chunkChars : ℤ) (batches : List (List (PyStr × PyStr)))
    (query : PyStr) : List (PyStr × ℚ) :=
  (sessionsOf chunkChars batches).zip
    ((vectorsOf normalize e chunkChars batches).map
      (dot (normalize ((e.embed [query]).headD []))))

variable {normalize}

/-- There is a vector for each chunk. -/
theorem length_vectorsOf (e : Embedder) (chunkChars : ℤ) (batches : List (List (PyStr × PyStr))) :
    (vectorsOf normalize e chunkChars batches).length = (sessionsOf chunkChars batches).length := by
  induction batches with
  | nil => rfl
  | cons items batches ih =>
    have hcons : vectorsOf normalize e chunkChars (items :: batches)
        = (e.embed ((items.flatMap (unitsOf chunkChars)).map Prod.snd)).map normalize ++
          vectorsOf normalize e chunkChars batches := rfl
    rw [hcons, List.length_append, ih, List.length_map, e.length_embed, List.length_map,
      sessionsOf_cons, List.length_append, List.length_map]

theorem SemanticIndex.indexAll_ok {units : List (PyStr × List ℚ)} {s s' : SemanticIndex}
    (h : s.indexAll normalize units = (.ok (), s')) :
    s'.ids = s.ids ++ units.map Prod.fst ∧
      s'.vecs = s.vecs ++ units.map fun u => normalize u.2 := by
  induction units generalizing s with
  | nil =>
    obtain ⟨-, rfl⟩ := Prod.mk.inj h
    simp
  | cons u units ih =>
    rw [indexAll] at h
    cases hdim : setDim s.dim (normalize u.2).length with
    | error err => rw [hdim] at h; exact nomatch h
    | ok dim =>
      rw [hdim] at h
      obtain ⟨hids, hvecs⟩ := ih h
      rw [hids, hvecs]
      simp

/-- What one build adds. -/
theorem SemanticIndex.build_ok {e : Embedder} {items : List (PyStr × PyStr)}
    {s s' : SemanticIndex} (h : s.build normalize (some e) items = (.ok (), s')) :
    s'.ids = s.ids ++ items.map Prod.fst ∧
      s'.vecs = s.vecs ++ (e.embed (items.map Prod.snd)).map normalize := by
  have hlen := e.length_embed (items.map Prod.snd)
  cases items with
  | nil =>
    obtain ⟨-, rfl⟩ := Prod.mk.inj h
    rw [List.map_nil, List.length_nil] at hlen
    rw [List.map_nil, List.map_nil, List.length_eq_zero_iff.mp hlen]
    simp
  | cons item items =>
    obtain ⟨hids, hvecs⟩ := SemanticIndex.indexAll_ok h
    rw [List.length_map] at hlen
    rw [hids, hvecs, List.map_fst_zip (by rw [List.length_map, hlen])]
    refine ⟨rfl, ?_⟩
    have hsnd : ∀ l : List (PyStr × List ℚ), (l.map fun u => normalize u.2)
        = (l.map Prod.snd).map normalize := fun l => List.map_map.symm
    rw [hsnd, List.map_snd_zip (by rw [List.length_map, hlen])]

/-- **What a run of builds adds.** -/
theorem ChunkIndex.buildAll_ok {e : Embedder} {chunkChars : ℤ}
    {batches : List (List (PyStr × PyStr))} {s s' : SemanticIndex}
    (h : ChunkIndex.buildAll normalize (some e) chunkChars batches s = (.ok (), s')) :
    s'.ids.map sessionOf = s.ids.map sessionOf ++ sessionsOf chunkChars batches ∧
      s'.vecs = s.vecs ++ vectorsOf normalize e chunkChars batches := by
  induction batches generalizing s with
  | nil =>
    obtain ⟨-, rfl⟩ := Prod.mk.inj h
    simp [sessionsOf, vectorsOf]
  | cons items batches ih =>
    rw [buildAll] at h
    cases hbuild : ChunkIndex.build normalize (some e) chunkChars items s with
    | mk result s₁ =>
      cases result with
      | error err => rw [hbuild] at h; exact nomatch h
      | ok u =>
        rw [hbuild] at h
        obtain ⟨hids₁, hvecs₁⟩ := SemanticIndex.build_ok hbuild
        obtain ⟨hids, hvecs⟩ := ih h
        rw [hids, hvecs, hids₁, hvecs₁, List.map_append, List.map_map, List.append_assoc,
          List.append_assoc]
        refine ⟨?_, rfl⟩
        rw [sessionsOf_cons]
        rfl

/-! ### What a search gives -/

/-- A slice to a place that is not negative. -/
theorem upTo_of_nonneg {A : Type} {k : ℤ} (hk : 0 ≤ k) (l : List A) : upTo k l = l.take k.toNat := by
  rw [upTo, if_neg (not_lt.mpr hk)]

/-- Collapsing the ids keeps the order of the scores. -/
theorem map_ranked (l : List (PyStr × ℚ)) :
    (Ranking.ranked l).map (fun u => (sessionOf u.1, u.2))
      = Ranking.ranked (l.map fun u => (sessionOf u.1, u.2)) := by
  apply StableSort.map_sortBy
  intro u
  rfl

/-- **The raw search gives the foremost units.** -/
theorem SemanticIndex.search_ok {e : Embedder} {s : SemanticIndex} (query : PyStr) {k : ℤ}
    (hk : 0 ≤ k) :
    s.search normalize (some e) query k = .ok ((Ranking.ranked ((s.ids.zip s.vecs).map fun p =>
      (p.1, dot (normalize ((e.embed [query]).headD [])) p.2))).take k.toNat) := by
  unfold SemanticIndex.search
  cases hvecs : s.vecs with
  | nil =>
    rw [List.zip_nil_right]
    exact congrArg Except.ok List.take_nil.symm
  | cons v vs =>
    dsimp only [requireEmbedder]
    -- a query has one vector
    have hlen := e.length_embed [query]
    cases hq : e.embed [query] with
    | nil => rw [hq] at hlen; exact absurd hlen (by simp)
    | cons q qs =>
      rw [← upTo_of_nonneg hk]
      rfl

/-- **A search gives the beginning of the ranking of all indexed conversations by their best
chunks**, as far as conversations have one of the chunks within the depth: those that fewer than
twenty for each conversation asked for, and two hundred at least, stand ahead of. -/
theorem search_ranked {e : Embedder} {chunkChars : ℤ} {batches : List (List (PyStr × PyStr))}
    {s : SemanticIndex}
    (hbuild : ChunkIndex.buildAll normalize (some e) chunkChars batches .empty = (.ok (), s))
    (query : PyStr) {k : ℤ} (hk : 1 ≤ k) :
    let scored := passages normalize e chunkChars batches query
    let reached := {c | Ranking.Foremost (max (k * 20) 200).toNat scored c}.ncard
    ∃ ranking, Ranking.Ranks scored ranking ∧
      ranking.length = (sessionsOf chunkChars batches).toFinset.card ∧
      ChunkIndex.search normalize (some e) s query k = .ok (ranking.take (min k.toNat reached)) ∧
      (ranking.take (min k.toNat reached) = ranking.take k.toNat ↔
        min k.toNat ranking.length ≤ reached) := by
  intro scored reached
  obtain ⟨hids, hvecs⟩ := ChunkIndex.buildAll_ok hbuild
  rw [SemanticIndex.empty, List.map_nil, List.nil_append] at hids
  rw [SemanticIndex.empty, List.nil_append] at hvecs
  have hdepth : (0 : ℤ) ≤ max (k * 20) 200 := le_max_of_le_right (by omega)
  obtain ⟨hbest, hfalling, hle⟩ := Ranking.best_take_ranked scored (max (k * 20) 200).toNat
  -- the chunks found, with their conversations, are the foremost passages
  have hraw : ((s.ids.zip s.vecs).map fun p =>
      (p.1, dot (normalize ((e.embed [query]).headD [])) p.2)).map
        (fun u => (sessionOf u.1, u.2)) = scored := by
    rw [show scored = (s.ids.map sessionOf).zip (s.vecs.map
      (dot (normalize ((e.embed [query]).headD [])))) by rw [hids, hvecs]; rfl, List.zip_map,
      List.map_map]
    rfl
  have hsearch : ChunkIndex.search normalize (some e) s query k
      = .ok ((Ranking.firsts (Ranking.ranked scored)).take (min k.toNat reached)) := by
    rw [ChunkIndex.search, SemanticIndex.search_ok query hdepth]
    simp only [List.map_take, map_ranked, hraw]
    rw [Ranking.ranked_of_falling hfalling, upTo_of_nonneg (by omega), hbest, List.take_take]
  have hkeys : Dict.keys scored = sessionsOf chunkChars batches := by
    apply List.map_fst_zip
    rw [List.length_map, length_vectorsOf]
  refine ⟨Ranking.firsts (Ranking.ranked scored), Ranking.ranks_ranked scored, ?_, hsearch, ?_⟩
  · rw [Ranking.length_firsts_ranked, Ranking.keysOf, hkeys]
  · constructor
    · intro heq
      have hlen := congrArg List.length heq
      rw [List.length_take, List.length_take] at hlen
      omega
    · intro henough
      by_cases hk' : k.toNat ≤ reached
      · rw [min_eq_left hk']
      · -- the depth is short of `k`, so the ranking is no longer than what it reaches
        have hlen : (Ranking.firsts (Ranking.ranked scored)).length ≤ reached := by omega
        rw [min_eq_right (by omega), List.take_of_length_le hlen,
          List.take_of_length_le (by omega)]

end Passages

end Daryl
