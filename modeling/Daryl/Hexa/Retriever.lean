import Daryl.Hexa.Assemble
import Daryl.Hexa.Map
import Daryl.Hexa.Retrieval

/-!
# `hexashard.retrieval`: what a query gets

The sources that pass the filters are candidates; their fragments that the scorer scores are
ranked by authority first, and taken from the top until a limit or a budget is reached.  The
scorer and the counter of tokens are parameters, and the scores are of any type with an order,
lawful or not.  The fragments are those of the last indexing, which the sources may have left
behind.

## Main definitions

* `FragmentIndex`, `reindex` — the fragments of the sources.
* `RetrievalFilters`, `candidateSources` — the filters, and the sources that pass them.
* `rank`, `fill`, `retrieve` — the query.
* `Satisfies` — a source meets every criterion that is supplied.
* `Sound` — what a result should be.

## Main results

* `fill_spec` — what is taken is the beginning of the ranking.
* `retrieve_eq` — a query returns, and takes from the ranking.
* `sound_retrieve` — results are sound where what the scorer scores satisfies the filters.
* `sound_scorer_iff` — for one scorer, sound iff so, where nothing is left out.
* `sound_retrieve_iff` — **whatever the scorer, the results are sound iff the budget is not
  negative and no source gets around the hex criteria.**
-/

namespace Daryl

namespace Hexa

open Py Json StableSort

/-! ### Fragments -/

/-- `Fragment`. -/
structure Fragment where
  fragmentId : PyStr
  sourceId : PyStr
  index : ℕ
  text : PyStr

/-- `fragment_address`. -/
def fragmentAddress (sourceId : PyStr) (index : ℕ) : PyStr :=
  sourceId ++ 35 :: 99 :: zfill 3 (natStr index)

/-- The fragments of a source. -/
def fragmentsOf (sourceId : PyStr) (texts : List PyStr) : List Fragment :=
  texts.mapIdx fun i text => ⟨fragmentAddress sourceId i, sourceId, i, text⟩

theorem notMem_zfill (n : ℕ) : 35 ∉ zfill 3 (natStr n) := by
  intro hmem
  rw [zfill, List.mem_append] at hmem
  rcases hmem with h | h
  · exact absurd (List.eq_of_mem_replicate h) (by decide)
  · exact absurd (within_map_digitChar _ _ h).1 (by decide)

/-- **Fragments of different places have different ids.** -/
theorem fragmentAddress_injective {s t : PyStr} {i j : ℕ}
    (h : fragmentAddress s i = fragmentAddress t j) : s = t ∧ i = j := by
  have hnot : ∀ n, (35 : CodePoint) ∉ (99 :: zfill 3 (natStr n) : PyStr) := fun n hmem => by
    rcases List.mem_cons.mp hmem with h | h
    · exact absurd h (by decide)
    · exact notMem_zfill n h
  have hindex : ∀ {i j : ℕ}, zfill 3 (natStr i) = zfill 3 (natStr j) → i = j := fun h => by
    simpa [natText_zfill] using congrArg natText h
  -- the last `#` is in the same place
  rcases List.append_eq_append_iff.mp h with ⟨r, hr, hs⟩ | ⟨r, hr, hs⟩
  · cases r with
    | nil =>
      rw [List.nil_append, List.cons.injEq, List.cons.injEq] at hs
      exact ⟨by rw [hr, List.append_nil], hindex hs.2.2⟩
    | cons c r =>
      have hrest := (List.cons.inj hs).2
      exact absurd (hrest ▸ by simp) (hnot i)
  · cases r with
    | nil =>
      rw [List.nil_append, List.cons.injEq, List.cons.injEq] at hs
      exact ⟨by rw [hr, List.append_nil], (hindex hs.2.2).symm⟩
    | cons c r =>
      have hrest := (List.cons.inj hs).2
      exact absurd (hrest ▸ by simp) (hnot j)

/-- The ids of a source are those of fragments of it. -/
def Wired (fragments : List (PyStr × Fragment)) (bySource : List (PyStr × List PyStr)) : Prop :=
  ∀ sourceId ids, Dict.get sourceId bySource = some ids → ids.Nodup ∧
    ∀ id ∈ ids, ∃ f, Dict.get id fragments = some f ∧ f.sourceId = sourceId ∧
      id = fragmentAddress f.sourceId f.index

/-- The index of a retriever: the fragments under their ids, the ids under their sources, and
all of them in order, for the scorer. -/
structure FragmentIndex where
  fragments : List (PyStr × Fragment)
  bySource : List (PyStr × List PyStr)
  ordered : List Fragment
  wired : Wired fragments bySource

/-- The fragments, one after the other. -/
def setFragments (fs : List Fragment) (d : List (PyStr × Fragment)) : List (PyStr × Fragment) :=
  fs.foldl (fun d f => Dict.set f.fragmentId f d) d

theorem mem_fragmentsOf {sourceId : PyStr} {texts : List PyStr} {f : Fragment}
    (h : f ∈ fragmentsOf sourceId texts) :
    f.sourceId = sourceId ∧ f.fragmentId = fragmentAddress f.sourceId f.index := by
  obtain ⟨i, hi, rfl⟩ := List.mem_mapIdx.mp h
  exact ⟨rfl, rfl⟩

theorem nodup_fragmentsOf (sourceId : PyStr) (texts : List PyStr) :
    ((fragmentsOf sourceId texts).map Fragment.fragmentId).Nodup := by
  rw [List.nodup_iff_injective_getElem]
  intro i j hij
  have hij' : fragmentAddress sourceId i = fragmentAddress sourceId j := by
    simpa [fragmentsOf] using hij
  exact Fin.ext (fragmentAddress_injective hij').2

/-- What an id stands for after fragments were put in. -/
theorem get_setFragments (id : PyStr) (fs : List Fragment) (d : List (PyStr × Fragment)) :
    Dict.get id (setFragments fs d) = Dict.get id d ∨
      ∃ f ∈ fs, f.fragmentId = id ∧ Dict.get id (setFragments fs d) = some f := by
  induction fs using List.reverseRecOn with
  | nil => exact .inl rfl
  | append_singleton fs f ih =>
    have hset : setFragments (fs ++ [f]) d = Dict.set f.fragmentId f (setFragments fs d) := by
      rw [setFragments, List.foldl_append]
      rfl
    rw [hset, Dict.get_set]
    split_ifs with hid
    · exact .inr ⟨f, by simp, hid, rfl⟩
    · rcases ih with h | ⟨g, hg, hgid, h⟩
      · exact .inl h
      · exact .inr ⟨g, List.mem_append_left _ hg, hgid, h⟩

theorem get_setFragments_of_mem {id : PyStr} {fs : List Fragment} {d : List (PyStr × Fragment)}
    (h : id ∈ fs.map Fragment.fragmentId) :
    ∃ f ∈ fs, f.fragmentId = id ∧ Dict.get id (setFragments fs d) = some f := by
  induction fs using List.reverseRecOn with
  | nil => cases h
  | append_singleton fs f ih =>
    have hset : setFragments (fs ++ [f]) d = Dict.set f.fragmentId f (setFragments fs d) := by
      rw [setFragments, List.foldl_append]
      rfl
    rw [hset, Dict.get_set]
    split_ifs with hid
    · exact ⟨f, by simp, hid, rfl⟩
    · rw [List.map_append, List.mem_append] at h
      obtain ⟨g, hg, hgid, hget⟩ := ih (h.resolve_right fun h =>
        hid (List.mem_singleton.mp h).symm)
      exact ⟨g, List.mem_append_left _ hg, hgid, hget⟩

/-- **The fragments of one more source.** -/
theorem wired_add {fragments : List (PyStr × Fragment)} {bySource : List (PyStr × List PyStr)}
    (h : Wired fragments bySource) (sourceId : PyStr) (texts : List PyStr) :
    Wired (setFragments (fragmentsOf sourceId texts) fragments)
      (Dict.set sourceId ((fragmentsOf sourceId texts).map Fragment.fragmentId) bySource) := by
  intro sid ids hids
  rw [Dict.get_set] at hids
  split_ifs at hids with hsid
  · obtain rfl := Option.some.inj hids
    refine ⟨nodup_fragmentsOf sourceId texts, fun id hid => ?_⟩
    obtain ⟨f, hf, hfid, hget⟩ := get_setFragments_of_mem hid
    obtain ⟨hsource, haddress⟩ := mem_fragmentsOf hf
    exact ⟨f, hget, hsource.trans hsid, hfid ▸ haddress⟩
  · obtain ⟨hnodup, hfind⟩ := h sid ids hids
    refine ⟨hnodup, fun id hid => ?_⟩
    obtain ⟨g, hget, hsource, haddress⟩ := hfind id hid
    rcases get_setFragments id (fragmentsOf sourceId texts) fragments with hsame | ⟨f, hf, hfid, hnew⟩
    · exact ⟨g, hsame.trans hget, hsource, haddress⟩
    · -- the id of another source would be that of this one
      obtain ⟨hfsource, hfaddress⟩ := mem_fragmentsOf hf
      have hsame : f.sourceId = g.sourceId :=
        (fragmentAddress_injective (hfaddress.symm.trans (hfid.trans haddress))).1
      exact absurd (hfsource.symm.trans (hsame.trans hsource)) hsid

/-- An empty index. -/
def FragmentIndex.empty : FragmentIndex := ⟨[], [], [], fun _ _ h => by cases h⟩

/-- The index with the fragments of one more source. -/
def FragmentIndex.add (ix : FragmentIndex) (sourceId : PyStr) (texts : List PyStr) : FragmentIndex where
  fragments := setFragments (fragmentsOf sourceId texts) ix.fragments
  bySource := Dict.set sourceId ((fragmentsOf sourceId texts).map Fragment.fragmentId) ix.bySource
  ordered := ix.ordered ++ fragmentsOf sourceId texts
  wired := wired_add ix.wired sourceId texts

/-- The ids of the fragments of a source. -/
def FragmentIndex.idsOf (ix : FragmentIndex) (sourceId : PyStr) : List PyStr :=
  (Dict.get sourceId ix.bySource).getD []

variable {F S : Type}

/-- `reindex`; where a text cannot be cut into chunks of the size there is no index. -/
def reindex (sources : List (Source F)) (chunkChars : ℕ) : Option FragmentIndex :=
  sources.foldlM (fun ix src => (chunk src.content chunkChars).map (ix.add src.sourceId)) .empty

/-! ### Filters -/

/-- `RetrievalFilters`. -/
structure RetrievalFilters where
  statuses : Option (List SourceStatus)
  includeSuperseded : Bool
  sourceIds : Option (List PyStr)
  sourceTypes : Option (List PyStr)
  tags : Option (List PyStr)
  claimKey : Option PyStr
  hexIds : Option (List PyStr)
  hexTypes : Option (List PyStr)
  epoch : Option ℤ
  relatedTo : Option PyStr
  relationType : Option PyStr

/-- No filters. -/
def RetrievalFilters.none : RetrievalFilters :=
  ⟨.none, false, .none, .none, .none, .none, .none, .none, .none, .none, .none⟩

namespace RetrievalFilters

/-- `effective_statuses`. -/
def effectiveStatuses (filters : RetrievalFilters) : List SourceStatus :=
  match filters.statuses with
  | some statuses => statuses
  | .none => if filters.includeSuperseded then [.current, .superseded] else [.current]

/-- A tuple of strings, if it is supplied. -/
def listItem (k : PyStr) (v : Option (List PyStr)) : List (PyStr × PyVal F) :=
  (v.map fun ss => (k, PyVal.list (ss.map PyVal.str))).toList

/-- A string, if it is supplied. -/
def textItem (k : PyStr) (v : Option PyStr) : List (PyStr × PyVal F) :=
  (v.map fun s => (k, PyVal.str s)).toList

/-- `to_dict`. -/
def toDict (filters : RetrievalFilters) : PyVal F :=
  .dict (strItems (
    listItem (py "statuses") (filters.statuses.map (List.map SourceStatus.value)) ++
    (if filters.includeSuperseded then [(py "include_superseded", .bool true)] else []) ++
    listItem (py "source_ids") filters.sourceIds ++
    listItem (py "source_types") filters.sourceTypes ++
    listItem (py "tags") filters.tags ++
    textItem (py "claim_key") filters.claimKey ++
    listItem (py "hex_ids") filters.hexIds ++
    listItem (py "hex_types") filters.hexTypes ++
    (filters.epoch.map fun e => (py "epoch", PyVal.int e)).toList ++
    textItem (py "related_to") filters.relatedTo ++
    textItem (py "relation_type") filters.relationType ++
    [(py "effective_statuses", .list ((sortBy id
      (filters.effectiveStatuses.map SourceStatus.value).dedup).map PyVal.str))]))

/-- Whether `_hex_scope` looks at the hexes at all: one of its criteria is truthy. -/
def readsHexes (filters : RetrievalFilters) : Bool :=
  filters.hexIds.any (fun ids => ids ≠ []) || filters.hexTypes.any (fun types => types ≠ []) ||
    filters.epoch.isSome || filters.relatedTo.any fun node => node ≠ []

end RetrievalFilters

/-- A criterion that is not supplied lets everything through. -/
def passes {A B : Type} (criterion : Option A) (p : A → B → Bool) (b : B) : Bool :=
  criterion.all fun a => p a b

/-- `_hex_scope`; `none` where the hexes are not looked at. -/
def hexScope (hexmap : HexMap F) (relations : List Edge) (filters : RetrievalFilters) :
    Option (List (HexRecord F)) :=
  if filters.readsHexes then
    some (hexmap.all.filter fun h =>
      passes filters.hexIds (fun want h => h.hexId ∈ want) h &&
      passes filters.hexTypes (fun want h => h.type.value ∈ want) h &&
      passes filters.epoch (fun e h => h.epoch = e) h &&
      passes filters.relatedTo (fun node h =>
        h.hexId = node ∨ h.hexId ∈ neighbours relations node filters.relationType) h)
  else none

/-- `_candidate_sources`, of all sources. -/
def candidateSources (sources : List (Source F)) (hexmap : HexMap F) (relations : List Edge)
    (filters : RetrievalFilters) : List (Source F) :=
  let out := sources.filter fun s =>
    s.status ∈ filters.effectiveStatuses &&
    passes filters.sourceIds (fun want s => s.sourceId ∈ want) s &&
    passes filters.sourceTypes (fun want s => s.sourceType ∈ want) s &&
    passes filters.tags (fun want s => want.any fun t => t ∈ s.tags) s &&
    passes filters.claimKey (fun key s => s.claimKey = some key) s
  match hexScope hexmap relations filters with
  | some scope => out.filter fun s => scope.any fun h => s.sourceId ∈ h.sourceRefs
  | none => out

/-! ### Queries -/

/-- What a query takes from Python: `str.lower`, and the `repr` of a string. -/
structure QueryBuiltins where
  lower : PyStr → PyStr
  repr : PyStr → PyStr

/-- `_TOKEN_RE.findall`, past the characters that the last match took. -/
def findTokens : ℕ → PyStr → List PyStr
  | _, [] => []
  | skip + 1, _ :: s => findTokens skip s
  | 0, c :: s =>
    if startsToken c then (c :: s.takeWhile insideToken) :: findTokens (s.takeWhile insideToken).length s
    else findTokens 0 s

/-- `tokenize`. -/
def tokenize (b : QueryBuiltins) (text : PyStr) : List PyStr := findTokens 0 (b.lower text)

/-- A scorer: what `score` returns for the tokens of a query and ids, after `index` was called
with fragments. -/
abbrev Scorer (S : Type) := List Fragment → List PyStr → List PyStr → List (PyStr × S)

/-- `authority_rank`. -/
def authorityRank : SourceStatus → ℕ
  | .current => 3
  | .draft => 2
  | .unverified => 1
  | .superseded => 0

/-- A fragment that scored. -/
structure Candidate (F S : Type) where
  id : PyStr
  fragment : Fragment
  source : Source F
  score : S

/-- The authority of a candidate. -/
def Candidate.authority (c : Candidate F S) : ℕ := authorityRank c.source.status

/-- The candidate of an id and its score; the `KeyError` is for an id that stands for nothing. -/
def candidateOf (ix : FragmentIndex) (byId : List (PyStr × Source F)) (p : PyStr × S) :
    Except HexaError (Candidate F S) :=
  match Dict.get p.1 ix.fragments with
  | none => .error .keyError
  | some fragment =>
    match Dict.get fragment.sourceId byId with
    | none => .error .keyError
    | some source => .ok ⟨p.1, fragment, source, p.2⟩

/-- The candidates among ids: those with a score. -/
def scoredCandidates (ix : FragmentIndex) (byId : List (PyStr × Source F)) (scores : List (PyStr × S))
    (ids : List PyStr) : Except HexaError (List (Candidate F S)) :=
  (ids.filterMap fun id => (Dict.get id scores).map fun score => (id, score)).mapM (candidateOf ix byId)

/-- `ScoredFragment`. -/
structure ScoredFragment (S : Type) where
  fragmentId : PyStr
  sourceId : PyStr
  sourceTitle : PyStr
  sourceStatus : PyStr
  authority : ℕ
  score : S
  text : PyStr
  tokens : ℤ

/-- A candidate as it is returned. -/
def Candidate.returned (counter : PyStr → ℤ) (c : Candidate F S) : ScoredFragment S where
  fragmentId := c.id
  sourceId := c.source.sourceId
  sourceTitle := c.source.title
  sourceStatus := c.source.status.value
  authority := c.authority
  score := c.score
  text := c.fragment.text
  tokens := counter c.fragment.text

/-- `Ambiguity`. -/
structure Ambiguity where
  claimKey : PyStr
  sourceIds : List PyStr
  reason : PyStr

/-- `RetrievalResult`. -/
structure RetrievalResult (F S : Type) where
  query : PyStr
  fragments : List (ScoredFragment S)
  hexRefs : List PyStr
  pinRefs : List PyStr
  ambiguities : List Ambiguity
  tokens : ℤ
  truncated : Bool
  overBudget : Bool
  filters : PyVal F

/-- The result as far as it is filled. -/
structure Filled (S : Type) where
  fragments : List (ScoredFragment S)
  tokens : ℤ
  truncated : Bool

/-- The loop over the ranking. -/
def fill (counter : PyStr → ℤ) (budget maxFragments : ℤ) : Filled S → List (Candidate F S) → Filled S
  | st, [] => st
  | st, c :: rest =>
    if maxFragments ≤ st.fragments.length then { st with truncated := true }
    else
      let f := c.returned counter
      if budget < st.tokens + f.tokens ∧ st.fragments.length ≠ 0 then { st with truncated := true }
      else fill counter budget maxFragments
        { st with fragments := st.fragments ++ [f], tokens := st.tokens + f.tokens } rest

/-- `_ambiguities`. -/
def ambiguities (b : QueryBuiltins) (ranked : List (Candidate F S)) (sources : List (Source F)) :
    List Ambiguity :=
  let inScope := ranked.filterMap fun c => c.source.claimKey.filter fun key => key ≠ []
  let claims := sources.filterMap fun src =>
    (src.claimKey.filter fun key => key ∈ inScope ∧ src.status = .current).map fun key =>
      (key, src.sourceId)
  ((sortBy Prod.fst (Dict.collect claims)).filter fun p => 1 < p.2.length).map fun p => {
    claimKey := p.1
    sourceIds := sortBy id p.2
    reason := natStr p.2.length ++ py " CURRENT sources declare claim_key " ++ b.repr p.1 ++
      py "; authority cannot be resolved automatically" }

/-- `_hex_refs`. -/
def hexRefs (b : QueryBuiltins) (hexmap : HexMap F) (sourceIds tokens : List PyStr) : List PyStr :=
  let ofSources := sourceIds.eraseDups.filterMap fun id => (hexmap.hexForSource id).map HexRecord.hexId
  let ofTags := (hexmap.all.filter fun h => h.tags.any fun t => b.lower t ∈ tokens).map HexRecord.hexId
  (ofSources ++ ofTags).eraseDups

/-- `_pin_refs`. -/
def pinRefs (b : QueryBuiltins) (pins : PinStore) (tokens : List PyStr) : List PyStr :=
  let overlap (p : Pin) : ℕ :=
    (tokens.dedup.filter fun t => t ∈ tokenize b (p.key ++ py " " ++ p.value)).length
  let scored := (pins.live.filter fun p => overlap p ≠ 0).map fun p => (-(overlap p : ℤ), p.pinId)
  (sortBy toLex scored).map Prod.snd

/-- `Retriever`, without its scorer. -/
structure Retriever (F : Type) where
  sources : SourceStore F
  hexmap : HexMap F
  pins : PinStore
  relations : List Edge
  counter : PyStr → ℤ
  builtins : QueryBuiltins
  index : FragmentIndex

namespace Retriever

/-- The scores of a query, of the fragments of the candidates. -/
def scores (r : Retriever F) (scorer : Scorer S) (query : PyStr) (candidates : List (Source F)) :
    List (PyStr × S) :=
  scorer r.index.ordered (tokenize r.builtins query)
    (candidates.flatMap fun s => r.index.idsOf s.sourceId)

variable [BEq S] [LT S] [DecidableLT S]

/-- Whether the sort key of a candidate is the smaller one: the greater authority, the better
score, and the place. -/
def before (a b : Candidate F S) : Bool :=
  if a.authority ≠ b.authority then b.authority < a.authority
  else if a.score == b.score then
    toLex (a.fragment.sourceId, a.fragment.index) < toLex (b.fragment.sourceId, b.fragment.index)
  else b.score < a.score

/-- The ranking. -/
def rank (cs : List (Candidate F S)) : List (Candidate F S) :=
  cs.insertionSort fun a b => before b a = false

/-- The result of a query. -/
def result (r : Retriever F) (query : PyStr) (filters : RetrievalFilters) (budget : ℤ)
    (sources : List (Source F)) (ranked : List (Candidate F S)) (filled : Filled S) :
    RetrievalResult F S :=
  let tokens := tokenize r.builtins query
  { query := query
    fragments := filled.fragments
    hexRefs := hexRefs r.builtins r.hexmap (filled.fragments.map ScoredFragment.sourceId) tokens
    pinRefs := pinRefs r.builtins r.pins tokens
    ambiguities := ambiguities r.builtins ranked sources
    tokens := filled.tokens
    truncated := filled.truncated
    overBudget := budget < filled.tokens
    filters := filters.toDict }

/-- `retrieve`. -/
def retrieve (r : Retriever F) (scorer : Scorer S) (query : PyStr) (filters : RetrievalFilters)
    (budget maxFragments : ℤ) : Except HexaError (RetrievalResult F S) :=
  match r.sources.all with
  | .error e => .error e
  | .ok sources =>
    let candidates := candidateSources sources r.hexmap r.relations filters
    match scoredCandidates r.index (Dict.latest Source.sourceId candidates)
        (r.scores scorer query candidates) (candidates.flatMap fun s => r.index.idsOf s.sourceId) with
    | .error e => .error e
    | .ok scored =>
      let ranked := rank scored
      .ok (r.result query filters budget sources ranked
        (fill r.counter budget maxFragments ⟨[], 0, false⟩ ranked))

end Retriever

/-! ### What a result should be -/

/-- Whether any criterion about hexes is supplied. -/
def RetrievalFilters.asksHexes (filters : RetrievalFilters) : Bool :=
  filters.hexIds.isSome || filters.hexTypes.isSome || filters.epoch.isSome || filters.relatedTo.isSome

/-- A source meets the supplied criteria that are about the source. -/
structure Meets (filters : RetrievalFilters) (src : Source F) : Prop where
  status : src.status ∈ filters.effectiveStatuses
  ids : ∀ want ∈ filters.sourceIds, src.sourceId ∈ want
  types : ∀ want ∈ filters.sourceTypes, src.sourceType ∈ want
  tags : ∀ want ∈ filters.tags, ∃ t ∈ want, t ∈ src.tags
  claim : ∀ key ∈ filters.claimKey, src.claimKey = some key

/-- A hex meets the supplied criteria that are about hexes. -/
structure HexMeets (relations : List Edge) (filters : RetrievalFilters) (h : HexRecord F) : Prop where
  ids : ∀ want ∈ filters.hexIds, h.hexId ∈ want
  types : ∀ want ∈ filters.hexTypes, h.type.value ∈ want
  epoch : ∀ e ∈ filters.epoch, h.epoch = e
  related : ∀ node ∈ filters.relatedTo,
    h.hexId = node ∨ h.hexId ∈ neighbours relations node filters.relationType

/-- A source is listed by a hex that meets them. -/
def Listed (hexmap : HexMap F) (relations : List Edge) (filters : RetrievalFilters)
    (src : Source F) : Prop :=
  ∃ h ∈ hexmap.all, HexMeets relations filters h ∧ src.sourceId ∈ h.sourceRefs

/-- A source satisfies every criterion that is supplied; a relation type belongs to the node
that is asked for, and is none of its own. -/
def Satisfies (hexmap : HexMap F) (relations : List Edge) (filters : RetrievalFilters)
    (src : Source F) : Prop :=
  Meets filters src ∧ (filters.asksHexes = true → Listed hexmap relations filters src)

namespace Retriever

/-- A fragment of a source that satisfies the filters, with a score. -/
def Scores (r : Retriever F) (sources : List (Source F)) (filters : RetrievalFilters)
    (scores : List (PyStr × S)) (src : Source F) (id : PyStr) : Prop :=
  src ∈ sources ∧ Satisfies r.hexmap r.relations filters src ∧ id ∈ r.index.idsOf src.sourceId ∧
    (Dict.get id scores).isSome

/-- What a result should be: its fragments are of sources that satisfy the filters, authority
first, and none with more authority is left out for one with less; the tokens are the sum, and
only a single fragment exceeds the budget; and `truncated` tells whether one was left out. -/
structure Sound (r : Retriever F) (sources : List (Source F)) (filters : RetrievalFilters)
    (scores : List (PyStr × S)) (budget : ℤ) (result : RetrievalResult F S) : Prop where
  satisfied : ∀ f ∈ result.fragments, ∃ src ∈ sources, src.sourceId = f.sourceId ∧
    f.authority = authorityRank src.status ∧ Satisfies r.hexmap r.relations filters src
  ordered : result.fragments.Pairwise fun f g => g.authority ≤ f.authority
  first : ∀ src id, r.Scores sources filters scores src id →
    (∀ f ∈ result.fragments, f.fragmentId ≠ id) →
    ∀ f ∈ result.fragments, authorityRank src.status ≤ f.authority
  sum : result.tokens = (result.fragments.map fun f => r.counter f.text).sum
  bounded : budget < result.tokens → ∃ f, result.fragments = [f]
  truncated : result.truncated = true ↔ ∃ src id, r.Scores sources filters scores src id ∧
    ∀ f ∈ result.fragments, f.fragmentId ≠ id

end Retriever

/-! ### Candidates -/

theorem passes_iff {A B : Type} {criterion : Option A} {p : A → B → Bool} {b : B} :
    passes criterion p b = true ↔ ∀ a ∈ criterion, p a b = true := by
  cases criterion <;> simp [passes]

variable {sources : List (Source F)} {hexmap : HexMap F} {relations : List Edge}
  {filters : RetrievalFilters}

/-- **What the hexes that are looked at are.** -/
theorem mem_hexScope {scope : List (HexRecord F)} (h : hexScope hexmap relations filters = some scope)
    {x : HexRecord F} : x ∈ scope ↔ x ∈ hexmap.all ∧ HexMeets relations filters x := by
  unfold hexScope at h
  split_ifs at h with hreads
  obtain rfl := Option.some.inj h
  rw [List.mem_filter]
  simp only [Bool.and_eq_true, passes_iff, decide_eq_true_eq]
  constructor
  · rintro ⟨hx, ⟨⟨hids, htypes⟩, hepoch⟩, hrelated⟩
    exact ⟨hx, hids, htypes, hepoch, hrelated⟩
  · rintro ⟨hx, hids, htypes, hepoch, hrelated⟩
    exact ⟨hx, ⟨⟨hids, htypes⟩, hepoch⟩, hrelated⟩

/-- **The candidates** meet what is asked of sources, and are listed where the hexes are
looked at. -/
theorem mem_candidateSources {src : Source F} :
    src ∈ candidateSources sources hexmap relations filters ↔ src ∈ sources ∧ Meets filters src ∧
      (filters.readsHexes = true → Listed hexmap relations filters src) := by
  have hout : src ∈ (sources.filter fun s =>
      s.status ∈ filters.effectiveStatuses &&
      passes filters.sourceIds (fun want s => s.sourceId ∈ want) s &&
      passes filters.sourceTypes (fun want s => s.sourceType ∈ want) s &&
      passes filters.tags (fun want s => want.any fun t => t ∈ s.tags) s &&
      passes filters.claimKey (fun key s => s.claimKey = some key) s) ↔
      src ∈ sources ∧ Meets filters src := by
    rw [List.mem_filter]
    simp only [Bool.and_eq_true, passes_iff, decide_eq_true_eq, List.any_eq_true]
    constructor
    · rintro ⟨hsrc, ⟨⟨⟨hstatus, hids⟩, htypes⟩, htags⟩, hclaim⟩
      exact ⟨hsrc, hstatus, hids, htypes, htags, hclaim⟩
    · rintro ⟨hsrc, hstatus, hids, htypes, htags, hclaim⟩
      exact ⟨hsrc, ⟨⟨⟨hstatus, hids⟩, htypes⟩, htags⟩, hclaim⟩
  rw [candidateSources]
  cases hscope : hexScope hexmap relations filters with
  | none =>
    have hreads : ¬filters.readsHexes = true := by
      intro hreads
      rw [hexScope, if_pos hreads] at hscope
      cases hscope
    simp only [hout]
    exact ⟨fun h => ⟨h.1, h.2, fun hr => absurd hr hreads⟩, fun h => ⟨h.1, h.2.1⟩⟩
  | some scope =>
    have hreads : filters.readsHexes = true := by
      by_contra hreads
      rw [hexScope, if_neg hreads] at hscope
      cases hscope
    simp only
    rw [List.mem_filter, hout]
    simp only [List.any_eq_true, decide_eq_true_eq, mem_hexScope hscope]
    constructor
    · rintro ⟨⟨hsrc, hmeets⟩, x, ⟨hx, hxmeets⟩, hlisted⟩
      exact ⟨hsrc, hmeets, fun _ => ⟨x, hx, hxmeets, hlisted⟩⟩
    · rintro ⟨hsrc, hmeets, hlisted⟩
      obtain ⟨x, hx, hxmeets, hmem⟩ := hlisted hreads
      exact ⟨⟨hsrc, hmeets⟩, x, ⟨hx, hxmeets⟩, hmem⟩

theorem candidateSources_sublist : (candidateSources sources hexmap relations filters).Sublist sources := by
  rw [candidateSources]
  cases hexScope hexmap relations filters with
  | none => exact List.filter_sublist
  | some scope => exact List.filter_sublist.trans List.filter_sublist

/-- The hexes are looked at for no other reason than that they are asked for. -/
theorem asksHexes_of_reads (h : filters.readsHexes = true) : filters.asksHexes = true := by
  have hany : ∀ {A : Type} {o : Option A} {p : A → Bool}, o.any p = true → o.isSome = true := by
    intro A o p h
    cases o with
    | none => cases h
    | some a => rfl
  simp only [RetrievalFilters.readsHexes, Bool.or_eq_true] at h
  simp only [RetrievalFilters.asksHexes, Bool.or_eq_true]
  rcases h with ((h | h) | h) | h
  · exact .inl (.inl (.inl (hany h)))
  · exact .inl (.inl (.inr (hany h)))
  · exact .inl (.inr h)
  · exact .inr (hany h)

/-! ### The ranking -/

namespace FragmentIndex

variable {ix : FragmentIndex}

theorem nodup_idsOf (ix : FragmentIndex) (sourceId : PyStr) : (ix.idsOf sourceId).Nodup := by
  rw [idsOf]
  cases h : Dict.get sourceId ix.bySource with
  | none => exact List.nodup_nil
  | some ids => exact (ix.wired sourceId ids h).1

/-- An id of a source stands for a fragment of it. -/
theorem get_of_mem {sourceId id : PyStr} (h : id ∈ ix.idsOf sourceId) :
    ∃ f, Dict.get id ix.fragments = some f ∧ f.sourceId = sourceId := by
  rw [idsOf] at h
  cases hids : Dict.get sourceId ix.bySource with
  | none =>
    rw [hids] at h
    cases h
  | some ids =>
    rw [hids] at h
    obtain ⟨f, hget, hsource, -⟩ := (ix.wired sourceId ids hids).2 id h
    exact ⟨f, hget, hsource⟩

/-- Different sources have different fragments. -/
theorem nodup_flatMap {sources : List (Source F)} (h : (sources.map Source.sourceId).Nodup) :
    (sources.flatMap fun s => ix.idsOf s.sourceId).Nodup := by
  rw [List.nodup_flatMap]
  refine ⟨fun s _ => ix.nodup_idsOf s.sourceId, ?_⟩
  refine (List.pairwise_map.mp h).imp fun {s t} hne => ?_
  intro id hs ht
  obtain ⟨f, hf, hfs⟩ := get_of_mem hs
  obtain ⟨g, hg, hgt⟩ := get_of_mem ht
  obtain rfl := Option.some.inj (hf.symm.trans hg)
  exact hne (hfs.symm.trans hgt)

end FragmentIndex

/-- An id of a candidate source stands for a candidate. -/
theorem candidateOf_spec {ix : FragmentIndex} {candidates : List (Source F)} {id : PyStr}
    {src : Source F} (hsrc : src ∈ candidates) (hid : id ∈ ix.idsOf src.sourceId) (score : S) :
    ∃ c, candidateOf ix (Dict.latest Source.sourceId candidates) (id, score) = .ok c ∧ c.id = id ∧
      c.source ∈ candidates ∧ c.id ∈ ix.idsOf c.source.sourceId := by
  obtain ⟨fragment, hfragment, hown⟩ := FragmentIndex.get_of_mem hid
  -- the last of the candidates with the id of the source is one of them
  have hsome : (Dict.get fragment.sourceId (Dict.latest Source.sourceId candidates)).isSome := by
    rw [Dict.get_isSome, Dict.mem_keys_latest]
    exact ⟨src, hsrc, hown.symm⟩
  obtain ⟨source, hsource⟩ := Option.isSome_iff_exists.mp hsome
  have hlast : source ∈ candidates ∧ source.sourceId = fragment.sourceId := by
    rw [Dict.get_latest] at hsource
    obtain ⟨hmem, hkey⟩ := List.mem_filter.mp (List.mem_of_getLast? hsource)
    exact ⟨hmem, of_decide_eq_true hkey⟩
  refine ⟨⟨id, fragment, source, score⟩, ?_, rfl, hlast.1, ?_⟩
  · rw [candidateOf, hfragment]
    simp only
    rw [hsource]
  · rwa [hlast.2, hown]

/-- **The candidates of ids**: those with a score, each with its source. -/
theorem scoredCandidates_spec {ix : FragmentIndex} {candidates : List (Source F)}
    {scores : List (PyStr × S)} {ids : List PyStr}
    (hids : ∀ id ∈ ids, ∃ src ∈ candidates, id ∈ ix.idsOf src.sourceId) :
    ∃ cs, scoredCandidates ix (Dict.latest Source.sourceId candidates) scores ids = .ok cs ∧
      cs.map Candidate.id = ids.filter (fun id => (Dict.get id scores).isSome) ∧
      ∀ c ∈ cs, c.source ∈ candidates ∧ c.id ∈ ix.idsOf c.source.sourceId := by
  induction ids with
  | nil => exact ⟨[], rfl, rfl, fun c hc => by cases hc⟩
  | cons id ids ih =>
    obtain ⟨cs, hcs, hmap, hall⟩ := ih fun x hx => hids x (List.mem_cons_of_mem id hx)
    obtain ⟨src, hsrc, hid⟩ := hids id List.mem_cons_self
    rw [scoredCandidates] at hcs ⊢
    rw [List.filterMap_cons, List.filter_cons]
    cases hscore : Dict.get id scores with
    | none => exact ⟨cs, hcs, hmap, hall⟩
    | some score =>
      obtain ⟨c, hc, hcid, hmem⟩ := candidateOf_spec hsrc hid score
      refine ⟨c :: cs, ?_, ?_, List.forall_mem_cons.mpr ⟨hmem, hall⟩⟩
      · rw [Option.map_some]
        simp only
        rw [List.mapM_cons, hc, hcs]
        rfl
      · rw [List.map_cons, hmap, hcid]
        rfl

/-- The ranking puts authority first. -/
theorem pairwise_rank [BEq S] [LT S] [DecidableLT S] (cs : List (Candidate F S)) :
    (Retriever.rank cs).Pairwise fun a b => b.authority ≤ a.authority := by
  have hkey : (Retriever.rank cs).Pairwise fun a b =>
      OrderDual.toDual a.authority ≤ OrderDual.toDual b.authority := by
    refine pairwise_insertionSort_key (fun a b hlt => ?_) (fun a b hle => ?_) cs
    · have hlt' : b.authority < a.authority := hlt
      rw [Retriever.before, if_pos hlt'.ne]
      exact decide_eq_false (by omega)
    · change b.authority ≤ a.authority
      by_cases hne : b.authority = a.authority
      · exact hne.le
      · rw [Retriever.before, if_pos hne] at hle
        exact not_lt.mp (of_decide_eq_false hle)
  exact hkey

theorem rank_perm [BEq S] [LT S] [DecidableLT S] (cs : List (Candidate F S)) :
    (Retriever.rank cs).Perm cs := List.perm_insertionSort _ cs

/-! ### What is taken -/

/-- **What is taken is the beginning of the ranking**, within the budget or a single fragment. -/
theorem fill_spec (counter : PyStr → ℤ) (budget maxFragments : ℤ) :
    ∀ (cs : List (Candidate F S)) (st : Filled S),
      (budget < st.tokens → st.fragments.length = 1) →
      ∃ k ≤ cs.length, let filled := fill counter budget maxFragments st cs
        filled.fragments = st.fragments ++ (cs.take k).map (Candidate.returned counter) ∧
        filled.tokens = st.tokens + ((cs.take k).map fun c => counter c.fragment.text).sum ∧
        filled.truncated = (st.truncated || k < cs.length) ∧
        (budget < filled.tokens → filled.fragments.length = 1) ∧
        (st.fragments = [] → 0 < maxFragments → cs ≠ [] → 0 < k) := by
  intro cs
  induction cs with
  | nil =>
    intro st hst
    exact ⟨0, le_rfl, by simp [fill], by simp [fill], by simp [fill], hst, fun _ _ h => absurd rfl h⟩
  | cons c cs ih =>
    intro st hst
    rw [fill]
    dsimp only
    split_ifs with hmax hbudget
    · -- there are as many as asked for
      refine ⟨0, Nat.zero_le _, by simp, by simp, by simp, hst, fun hnil hpos => ?_⟩
      rw [hnil, List.length_nil] at hmax
      exact absurd hpos (not_lt.mpr hmax)
    · -- the next one does not fit, and is not the first
      refine ⟨0, Nat.zero_le _, by simp, by simp, by simp, hst, fun hnil => ?_⟩
      exact absurd (by rw [hnil, List.length_nil]) hbudget.2
    · -- over the budget only if it is the first
      have hnext : budget < st.tokens + (c.returned counter).tokens →
          (st.fragments ++ [c.returned counter]).length = 1 := by
        intro hover
        rw [List.length_append, List.length_singleton]
        by_contra hlen
        exact hbudget ⟨hover, by omega⟩
      obtain ⟨k, hk, hfragments, htokens, htruncated, hbounded, -⟩ := ih
        { st with
          fragments := st.fragments ++ [c.returned counter]
          tokens := st.tokens + (c.returned counter).tokens } hnext
      refine ⟨k + 1, by simpa using hk, ?_, ?_, ?_, hbounded, fun _ _ _ => Nat.succ_pos k⟩
      · rw [hfragments, List.take_succ_cons, List.map_cons, List.append_assoc,
          List.singleton_append]
      · rw [htokens, List.take_succ_cons, List.map_cons, List.sum_cons, add_assoc]
        rfl
      · rw [htruncated, List.length_cons]
        simp

/-! ### Results -/

namespace Retriever

/-- The ranking of a query: the scored fragments of the candidates, each once, authority
first. -/
structure Ranking (r : Retriever F) (candidates : List (Source F)) (scores : List (PyStr × S))
    (cs : List (Candidate F S)) : Prop where
  nodup : (cs.map Candidate.id).Nodup
  own : ∀ c ∈ cs, c.source ∈ candidates ∧ c.id ∈ r.index.idsOf c.source.sourceId ∧
    (Dict.get c.id scores).isSome
  complete : ∀ src ∈ candidates, ∀ id ∈ r.index.idsOf src.sourceId, (Dict.get id scores).isSome →
    ∃ c ∈ cs, c.id = id
  ordered : cs.Pairwise fun a b => b.authority ≤ a.authority

variable [BEq S] [LT S] [DecidableLT S] {r : Retriever F}

/-- **A query always returns**, and what it takes it takes from the ranking. -/
theorem retrieve_eq (hkeyed : r.sources.Keyed) (hall : r.sources.all = .ok sources)
    (scorer : Scorer S) (query : PyStr) (filters : RetrievalFilters) :
    ∃ cs, Ranking r (candidateSources sources r.hexmap r.relations filters)
        (r.scores scorer query (candidateSources sources r.hexmap r.relations filters)) cs ∧
      ∀ budget maxFragments, ∃ result,
        r.retrieve scorer query filters budget maxFragments = .ok result ∧
        let filled := fill r.counter budget maxFragments ⟨[], 0, false⟩ cs
        result.fragments = filled.fragments ∧ result.tokens = filled.tokens ∧
          result.truncated = filled.truncated := by
  set candidates := candidateSources sources r.hexmap r.relations filters with hcandidates
  set ids := candidates.flatMap fun s => r.index.idsOf s.sourceId with hids
  obtain ⟨scored, hscored, hmap, hown⟩ : ∃ cs, scoredCandidates r.index
        (Dict.latest Source.sourceId candidates) (r.scores scorer query candidates) ids = .ok cs ∧
      cs.map Candidate.id =
        ids.filter (fun id => (Dict.get id (r.scores scorer query candidates)).isSome) ∧
      ∀ c ∈ cs, c.source ∈ candidates ∧ c.id ∈ r.index.idsOf c.source.sourceId :=
    scoredCandidates_spec fun id hid => List.mem_flatMap.mp hid
  have hmem : ∀ {id}, id ∈ scored.map Candidate.id ↔
      id ∈ ids ∧ (Dict.get id (r.scores scorer query candidates)).isSome := by
    intro id
    rw [hmap, List.mem_filter]
  refine ⟨rank scored, ⟨?_, fun c hc => ?_, fun src hsrc id hid hscore => ?_, pairwise_rank scored⟩,
    fun budget maxFragments => ?_⟩
  · -- each once
    rw [((rank_perm scored).map Candidate.id).nodup_iff, hmap]
    exact (FragmentIndex.nodup_flatMap
      ((SourceStore.nodup_ids_all hkeyed hall).sublist (candidateSources_sublist.map _))).filter _
  · -- fragments of candidates alone
    have hc' := (rank_perm scored).mem_iff.mp hc
    obtain ⟨hsource, hid⟩ := hown c hc'
    exact ⟨hsource, hid, (hmem.mp (List.mem_map_of_mem hc')).2⟩
  · -- all that are scored
    obtain ⟨c, hc, hcid⟩ := List.mem_map.mp
      (hmem.mpr ⟨List.mem_flatMap.mpr ⟨src, hsrc, hid⟩, hscore⟩)
    exact ⟨c, (rank_perm scored).mem_iff.mpr hc, hcid⟩
  · refine ⟨r.result query filters budget sources (rank scored)
      (fill r.counter budget maxFragments ⟨[], 0, false⟩ (rank scored)), ?_, rfl, rfl, rfl⟩
    rw [retrieve, hall]
    simp only
    rw [hscored]

/-- Two sources with a fragment in common are one. -/
theorem source_unique {src src' : Source F} (hnodup : (sources.map Source.sourceId).Nodup)
    (h : src ∈ sources) (h' : src' ∈ sources) {id : PyStr} (hid : id ∈ r.index.idsOf src.sourceId)
    (hid' : id ∈ r.index.idsOf src'.sourceId) : src = src' := by
  obtain ⟨f, hf, hfs⟩ := FragmentIndex.get_of_mem hid
  obtain ⟨g, hg, hgs⟩ := FragmentIndex.get_of_mem hid'
  obtain rfl := Option.some.inj (hf.symm.trans hg)
  exact List.inj_on_of_nodup_map hnodup h h' (hfs.symm.trans hgs)

/-- What the scorer scores is of sources that satisfy the filters. -/
def Heeds (r : Retriever F) (sources : List (Source F)) (filters : RetrievalFilters)
    (scorer : Scorer S) (query : PyStr) : Prop :=
  ∀ src ∈ candidateSources sources r.hexmap r.relations filters,
    ∀ id ∈ r.index.idsOf src.sourceId,
      (Dict.get id (r.scores scorer query
        (candidateSources sources r.hexmap r.relations filters))).isSome →
      Satisfies r.hexmap r.relations filters src

/-- **Results are sound** where what the scorer scores is of sources that satisfy the filters. -/
theorem sound_retrieve (hkeyed : r.sources.Keyed) (hall : r.sources.all = .ok sources)
    {scorer : Scorer S} {query : PyStr} (hheeds : r.Heeds sources filters scorer query)
    {budget : ℤ} (hbudget : 0 ≤ budget) (maxFragments : ℤ) :
    ∃ result, r.retrieve scorer query filters budget maxFragments = .ok result ∧
      r.Sound sources filters
        (r.scores scorer query (candidateSources sources r.hexmap r.relations filters)) budget result := by
  obtain ⟨cs, hcs, hresult⟩ := retrieve_eq hkeyed hall scorer query filters
  obtain ⟨result, hrun, hfragments, htokens, htruncated⟩ := hresult budget maxFragments
  obtain ⟨k, hk, hf, ht, htr, hbounded, -⟩ := fill_spec r.counter budget maxFragments cs ⟨[], 0, false⟩
    fun h => absurd hbudget (not_le.mpr h)
  rw [hf, List.nil_append] at hfragments
  rw [ht, zero_add] at htokens
  rw [htr, Bool.false_or] at htruncated
  have hnodup := SourceStore.nodup_ids_all hkeyed hall
  have hsat : ∀ c ∈ cs, c.source ∈ sources ∧ Satisfies r.hexmap r.relations filters c.source := by
    intro c hc
    obtain ⟨hmem, hid, hscore⟩ := hcs.own c hc
    exact ⟨(mem_candidateSources.mp hmem).1, hheeds _ hmem _ hid hscore⟩
  have hsplit : (cs.take k ++ cs.drop k).Pairwise fun a b => b.authority ≤ a.authority := by
    rw [List.take_append_drop]
    exact hcs.ordered
  rw [List.pairwise_append] at hsplit
  -- a scoring fragment that is not returned is in the rest of the ranking
  have hleft : ∀ src id, r.Scores sources filters
      (r.scores scorer query (candidateSources sources r.hexmap r.relations filters)) src id →
      (∀ f ∈ result.fragments, f.fragmentId ≠ id) →
      ∃ c ∈ cs.drop k, c.source = src := by
    rintro src id ⟨hsrc, hsatisfies, hid, hscore⟩ hout
    have hcandidate := mem_candidateSources.mpr ⟨hsrc, hsatisfies.1, fun hreads =>
      hsatisfies.2 (asksHexes_of_reads hreads)⟩
    obtain ⟨c, hc, hcid⟩ := hcs.complete src hcandidate id hid hscore
    refine ⟨c, ?_, source_unique hnodup (hsat c hc).1 hsrc (hcid ▸ (hcs.own c hc).2.1) hid⟩
    rw [← List.take_append_drop k cs, List.mem_append] at hc
    refine hc.resolve_left fun htake => hout (c.returned r.counter) ?_ hcid
    rw [hfragments]
    exact List.mem_map_of_mem htake
  refine ⟨result, hrun, ?_, ?_, ?_, ?_, ?_, ?_⟩
  · rw [hfragments, List.forall_mem_map]
    intro c hc
    obtain ⟨hsrc, hsatisfies⟩ := hsat c (List.mem_of_mem_take hc)
    exact ⟨c.source, hsrc, rfl, rfl, hsatisfies⟩
  · rw [hfragments, List.pairwise_map]
    exact hsplit.1
  · intro src id hscores hout
    obtain ⟨c, hc, rfl⟩ := hleft src id hscores hout
    rw [hfragments, List.forall_mem_map]
    exact fun d hd => hsplit.2.2 d hd c hc
  · rw [htokens, hfragments, List.map_map]
    rfl
  · intro hover
    rw [htokens] at hover
    rw [ht, zero_add, hf, List.nil_append] at hbounded
    rw [hfragments]
    exact List.length_eq_one_iff.mp (hbounded hover)
  · rw [htruncated, decide_eq_true_eq]
    constructor
    · intro hlt
      obtain ⟨c, hc⟩ := List.exists_mem_of_ne_nil (cs.drop k) fun hnil =>
        absurd (List.drop_eq_nil_iff.mp hnil) (not_le.mpr hlt)
      have hmem := List.mem_of_mem_drop hc
      obtain ⟨hsrc, hsatisfies⟩ := hsat c hmem
      refine ⟨c.source, c.id, ⟨hsrc, hsatisfies, (hcs.own c hmem).2⟩, ?_⟩
      -- the ids of the ranking are different
      have hnodup' := hcs.nodup
      rw [← List.take_append_drop k cs, List.map_append, List.nodup_append] at hnodup'
      rw [hfragments, List.forall_mem_map]
      exact fun d hd => hnodup'.2.2 _ (List.mem_map_of_mem hd) _ (List.mem_map_of_mem hc)
    · rintro ⟨src, id, hscores, hout⟩
      obtain ⟨c, hc, -⟩ := hleft src id hscores hout
      have hne := List.ne_nil_of_mem hc
      by_contra hle
      exact hne (List.drop_eq_nil_of_le (not_lt.mp hle))

/-- **For one scorer**, a result from which nothing is left out is sound exactly when what the
scorer scores is of sources that satisfy the filters. -/
theorem sound_scorer_iff (hkeyed : r.sources.Keyed) (hall : r.sources.all = .ok sources)
    {scorer : Scorer S} {query : PyStr} {budget maxFragments : ℤ} (hbudget : 0 ≤ budget)
    {result : RetrievalResult F S}
    (hrun : r.retrieve scorer query filters budget maxFragments = .ok result)
    (hwhole : result.truncated = false) :
    r.Sound sources filters (r.scores scorer query
        (candidateSources sources r.hexmap r.relations filters)) budget result ↔
      r.Heeds sources filters scorer query := by
  constructor
  · -- nothing is left out, so a scored fragment of the source is in the result
    intro hsound src hsrc id hid hscore
    obtain ⟨cs, hcs, hresult⟩ := retrieve_eq hkeyed hall scorer query filters
    obtain ⟨result', hrun', hfragments, -, htruncated⟩ := hresult budget maxFragments
    obtain rfl := Except.ok.inj (hrun.symm.trans hrun')
    obtain ⟨k, hk, hf, -, htr, -⟩ := fill_spec r.counter budget maxFragments cs ⟨[], 0, false⟩
      fun h => absurd hbudget (not_le.mpr h)
    rw [hf, List.nil_append] at hfragments
    rw [hwhole, htr, Bool.false_or] at htruncated
    have htake : cs.take k = cs :=
      List.take_of_length_le (not_lt.mp (of_decide_eq_false htruncated.symm))
    have hnodup := SourceStore.nodup_ids_all hkeyed hall
    have hsource := (mem_candidateSources.mp hsrc).1
    obtain ⟨c, hc, hcid⟩ := hcs.complete src hsrc id hid hscore
    obtain ⟨src', hsrc', hsame, -, hsatisfies⟩ := hsound.satisfied (c.returned r.counter) (by
      rw [hfragments, htake]
      exact List.mem_map_of_mem hc)
    have hcsource : c.source = src := source_unique hnodup
      (mem_candidateSources.mp (hcs.own c hc).1).1 hsource (hcid ▸ (hcs.own c hc).2.1) hid
    have heq : src' = src := List.inj_on_of_nodup_map hnodup hsrc' hsource
      (hsame.trans (congrArg Source.sourceId hcsource))
    rwa [← heq]
  · intro hheeds
    obtain ⟨result', hrun', hsound⟩ := sound_retrieve hkeyed hall hheeds hbudget maxFragments
    rwa [Except.ok.inj (hrun.symm.trans hrun')]

/-- A scorer that scores one fragment. -/
def scoresOnly (id : PyStr) (score : S) : Scorer S := fun _ _ _ => [(id, score)]

/-- A scored fragment of a candidate shows in the result, or in that something was left out. -/
theorem satisfies_of_sound (hkeyed : r.sources.Keyed) (hall : r.sources.all = .ok sources)
    {query : PyStr} {budget maxFragments : ℤ} {src : Source F}
    (hsrc : src ∈ candidateSources sources r.hexmap r.relations filters) {id : PyStr}
    (hid : id ∈ r.index.idsOf src.sourceId) (score : S) (hbudget : 0 ≤ budget)
    (h : ∃ result, r.retrieve (scoresOnly id score) query filters budget maxFragments = .ok result ∧
      r.Sound sources filters [(id, score)] budget result) :
    Satisfies r.hexmap r.relations filters src := by
  obtain ⟨result, hrun, hsound⟩ := h
  have hnodup := SourceStore.nodup_ids_all hkeyed hall
  have hsource := (mem_candidateSources.mp hsrc).1
  -- nothing but the one fragment has a score
  have hone : ∀ {x : PyStr}, (Dict.get x [(id, score)]).isSome → x = id := by
    intro x hx
    rw [Dict.get_isSome] at hx
    exact List.mem_singleton.mp hx
  cases htruncated : result.truncated with
  | true =>
    obtain ⟨src', id', ⟨hsrc', hsatisfies, hid', hscore⟩, -⟩ := hsound.truncated.mp htruncated
    obtain rfl := hone hscore
    rwa [source_unique hnodup hsource hsrc' hid hid']
  | false =>
    refine (sound_scorer_iff hkeyed hall hbudget hrun htruncated).mp hsound src hsrc id hid ?_
    change (Dict.get id [(id, score)]).isSome = true
    rw [Dict.get_isSome]
    exact List.mem_singleton_self id

/-- **Results are sound, whatever the scorer, iff** the budget is not negative, and the criteria
about hexes are read when there are any, or every source with fragments that meets the others
meets them anyway. -/
theorem sound_retrieve_iff [Inhabited S] (hkeyed : r.sources.Keyed)
    (hall : r.sources.all = .ok sources) (query : PyStr) (filters : RetrievalFilters)
    (budget maxFragments : ℤ) :
    (∀ scorer : Scorer S, ∃ result,
      r.retrieve scorer query filters budget maxFragments = .ok result ∧
        r.Sound sources filters
          (r.scores scorer query (candidateSources sources r.hexmap r.relations filters)) budget result) ↔
      0 ≤ budget ∧ (filters.readsHexes = filters.asksHexes ∨
        ∀ src ∈ sources, Meets filters src → r.index.idsOf src.sourceId ≠ [] →
          Listed r.hexmap r.relations filters src) := by
  constructor
  · intro h
    have hbudget : 0 ≤ budget := by
      by_contra hneg
      -- nothing scores, and nothing is returned
      obtain ⟨result, hrun, hsound⟩ := h fun _ _ _ => []
      obtain ⟨cs, hcs, hresult⟩ := retrieve_eq hkeyed hall (fun _ _ _ => ([] : List (PyStr × S)))
        query filters
      have hnil : cs = [] := by
        refine List.eq_nil_iff_forall_not_mem.mpr fun c hc => ?_
        have hscore := (hcs.own c hc).2.2
        change (Dict.get c.id ([] : List (PyStr × S))).isSome = true at hscore
        cases hscore
      obtain ⟨result', hrun', hfragments, htokens, -⟩ := hresult budget maxFragments
      obtain rfl := Except.ok.inj (hrun.symm.trans hrun')
      rw [hnil] at hfragments htokens
      obtain ⟨f, hf⟩ := hsound.bounded (by rw [htokens]; exact not_le.mp hneg)
      rw [hfragments] at hf
      cases hf
    refine ⟨hbudget, ?_⟩
    by_cases hreads : filters.readsHexes = filters.asksHexes
    · exact .inl hreads
    · right
      intro src hsrc hmeets hids
      have hasks : filters.asksHexes = true := by
        by_contra hasks
        refine hreads ?_
        rw [Bool.not_eq_true] at hasks
        rw [hasks, ← Bool.not_eq_true]
        intro hr
        rw [asksHexes_of_reads hr] at hasks
        cases hasks
      have hnot : ¬filters.readsHexes = true := fun hr => hreads (hr.trans hasks.symm)
      obtain ⟨id, hid⟩ := List.exists_mem_of_ne_nil _ hids
      exact (satisfies_of_sound hkeyed hall
        (mem_candidateSources.mpr ⟨hsrc, hmeets, fun hr => absurd hr hnot⟩) hid default hbudget
        (h (scoresOnly id default))).2 hasks
  · rintro ⟨hbudget, hheeds⟩ scorer
    refine sound_retrieve hkeyed hall (fun src hsrc id hid _ => ?_) hbudget maxFragments
    obtain ⟨hmem, hmeets, hlisted⟩ := mem_candidateSources.mp hsrc
    refine ⟨hmeets, fun hasks => ?_⟩
    rcases hheeds with hreads | hall'
    · exact hlisted (hreads.trans hasks)
    · exact hall' src hmem hmeets (List.ne_nil_of_mem hid)

/-! ### Samples -/

/-- A source with one paragraph. -/
def sampleSource : Source FloatLit :=
  ⟨py "P.S0001", py "note", py "t", 1, .current, none, none, [], none, none, none, .dict [],
    py "limit"⟩

/-- A project of it, without hexes. -/
def sampleRetriever : Retriever FloatLit where
  sources := ⟨py "P", [(py "P.S0001", sampleSource)], [], []⟩
  hexmap := ⟨py "P", []⟩
  pins := ⟨py "P", []⟩
  relations := []
  counter := fun text => text.length
  builtins := ⟨id, id⟩
  index := FragmentIndex.empty.add (py "P.S0001") [py "limit"]

theorem keyed_sampleRetriever : sampleRetriever.sources.Keyed := by
  refine ⟨by decide, fun id src h => ?_⟩
  have hmem := Dict.mem_of_get h
  change (id, src) ∈ [(py "P.S0001", sampleSource)] at hmem
  rw [List.mem_singleton] at hmem
  obtain ⟨rfl, rfl⟩ := Prod.mk.inj hmem
  rfl

/-- The filters with an empty list of hexes. -/
def noHexes : RetrievalFilters := { RetrievalFilters.none with hexIds := some [] }

theorem meets_noHexes : Meets noHexes sampleSource := by
  constructor
  · decide
  all_goals
    intro _ hnone
    cases hnone

/-- Without filters results are sound, with an empty list of hexes they need not be. -/
theorem sound_retrieve_sample : (∀ scorer : Scorer ℤ, ∃ result,
    sampleRetriever.retrieve scorer (py "limit") RetrievalFilters.none 10 8 = .ok result ∧
      sampleRetriever.Sound [sampleSource] RetrievalFilters.none
        (sampleRetriever.scores scorer (py "limit") (candidateSources [sampleSource]
          sampleRetriever.hexmap sampleRetriever.relations RetrievalFilters.none)) 10 result) ∧
    ¬∀ scorer : Scorer ℤ, ∃ result,
      sampleRetriever.retrieve scorer (py "limit") noHexes 10 8 = .ok result ∧
        sampleRetriever.Sound [sampleSource] noHexes
          (sampleRetriever.scores scorer (py "limit") (candidateSources [sampleSource]
            sampleRetriever.hexmap sampleRetriever.relations noHexes)) 10 result := by
  refine ⟨?_, fun h => ?_⟩
  · exact (sound_retrieve_iff keyed_sampleRetriever rfl (py "limit") RetrievalFilters.none 10 8).mpr
      ⟨by decide, .inl rfl⟩
  · rcases ((sound_retrieve_iff keyed_sampleRetriever rfl (py "limit") noHexes 10 8).mp h).2 with
      hreads | hlisted
    · exact absurd hreads (by decide)
    · obtain ⟨x, hx, -⟩ := hlisted sampleSource (List.mem_singleton_self _) meets_noHexes (by decide)
      cases hx

/-- **An empty list of hexes restricts nothing**: the source is returned, and is in no hex. -/
theorem empty_hexIds_ignored : ¬∃ result : RetrievalResult FloatLit ℤ,
    sampleRetriever.retrieve (scoresOnly (py "P.S0001#c000") 1) (py "limit") noHexes 10 8 = .ok result ∧
      sampleRetriever.Sound [sampleSource] noHexes [(py "P.S0001#c000", 1)] 10 result := by
  intro h
  have hcandidate : sampleSource ∈ candidateSources [sampleSource] sampleRetriever.hexmap
      sampleRetriever.relations noHexes :=
    mem_candidateSources.mpr ⟨List.mem_singleton_self _, meets_noHexes, fun hreads => absurd hreads (by decide)⟩
  have hid : py "P.S0001#c000" ∈ sampleRetriever.index.idsOf sampleSource.sourceId := by decide
  obtain ⟨x, hx, -⟩ := (satisfies_of_sound keyed_sampleRetriever rfl hcandidate hid 1 (by decide) h).2 rfl
  cases hx

example : ((sampleRetriever.retrieve (scoresOnly (py "P.S0001#c000") (1 : ℤ)) (py "limit") noHexes 10
    8).toOption.map fun result => (result.fragments.map ScoredFragment.fragmentId, result.tokens)) =
      some ([py "P.S0001#c000"], 5) := by
  decide +kernel

end Retriever

end Hexa

end Daryl
