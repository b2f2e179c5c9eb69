import Daryl.Hexa.Store
import Daryl.Lib.Run

/-!
# Supersession

Additions and supersessions of a source store.  A supersession links an old source to a
new one in both directions and clears what superseded the new one.  It is refused when the
old one descends from the new one; that, and the clearing, keep both kinds of links free
of cycles, however often sources of other chains are superseded again.

## Main definitions

* `ChainCall` — an addition, and a supersession.
* `Governed` — the invariant of such calls.

## Main results

* `Governed.step` — a call keeps it.
* `supersede_rejected` — a rejected supersession changes nothing.
* `supersession_founded` — **the links are acyclic, and every chain has a current head.**
-/

namespace Daryl

open Py Json Relation Walk

variable {F : Type}

/-- An addition, and a supersession. -/
inductive ChainCall (F : Type)
  | add (new : NewSource F)
  | supersede (oldId newId : PyStr)

namespace SourceStore

/-- A call, whatever it returns or raises. -/
def chainStep [PyFloat F] (s : SourceStore F) : ChainCall F → SourceStore F
  | .add new => (s.add new).2
  | .supersede oldId newId => (s.supersede oldId newId).2

/-- The `superseded_by` of a source. -/
def byLink (s : SourceStore F) (id : PyStr) : Option PyStr := (s.find id).bind Source.supersededBy

/-- The `supersedes` of a source. -/
def ofLink (s : SourceStore F) (id : PyStr) : Option PyStr := (s.find id).bind Source.supersedes

theorem byLink_eq (s : SourceStore F) (id : PyStr) :
    s.byLink id = (s.view id).bind Source.supersededBy := by
  rw [byLink, view]
  cases s.find id <;> rfl

theorem ofLink_eq (s : SourceStore F) (id : PyStr) :
    s.ofLink id = (s.view id).bind Source.supersedes := by
  rw [ofLink, view]
  cases s.find id <;> rfl

theorem isSome_view {s : SourceStore F} {id : PyStr} :
    (s.view id).isSome ↔ id ∈ Dict.keys s.records := by
  rw [view, Option.isSome_map, find, Dict.get_isSome]

/-- The invariant: the ids are addresses; both links are acyclic and lead to sources; what
is superseded says so, and what superseded it is current until it is superseded itself.
Where addresses do not read back there is one source at most. -/
structure Governed (projectPrefix : PyStr) (s : SourceStore F) : Prop where
  own : s.projectPrefix = projectPrefix
  named : ∀ id, (s.view id).isSome → ∃ n, id = sourceAddress projectPrefix n
  lone : PlainPrefix projectPrefix ∨ (∀ id, (s.view id).isSome → id = sourceAddress projectPrefix 1) ∧
    ∀ id, s.byLink id = none ∧ s.ofLink id = none
  byAcyclic : Acyclic s.byLink
  ofAcyclic : Acyclic s.ofLink
  byPresent : ∀ id b, s.byLink id = some b → (s.view b).isSome
  ofPresent : ∀ id b, s.ofLink id = some b → (s.view b).isSome
  marked : ∀ id src, s.view id = some src → src.supersededBy.isSome → src.status = .superseded
  headed : ∀ id b src, s.byLink id = some b → s.view b = some src → src.supersededBy = none →
    src.status = .current

/-! ### New ids -/

theorem exists_nextId (s : SourceStore F) : ∃ n, s.nextId = sourceAddress s.projectPrefix n :=
  ⟨_, rfl⟩

/-- **The next id of a store with a plain prefix is a new one.** -/
theorem view_nextId {s : SourceStore F} (hp : PlainPrefix s.projectPrefix) :
    s.view s.nextId = none := by
  rw [← Option.not_isSome_iff_eq_none, isSome_view]
  intro hmem
  -- the id would count itself among those before it
  have hseq : ((Dict.keys s.records).filterMap fun sid =>
      (parseSourceAddress sid).map Prod.snd).foldl max 0 + 1 ∈
        (Dict.keys s.records).filterMap fun sid => (parseSourceAddress sid).map Prod.snd := by
    refine List.mem_filterMap.mpr ⟨s.nextId, hmem, ?_⟩
    rw [nextId, parse_sourceAddress hp, Option.map_some]
  exact absurd (le_foldl_max 0 hseq) (by omega)

/-- With another prefix it is always the first one. -/
theorem nextId_of_not_plain {s : SourceStore F} (hp : ¬PlainPrefix s.projectPrefix)
    (hnamed : ∀ id, (s.view id).isSome → ∃ n, id = sourceAddress s.projectPrefix n) :
    s.nextId = sourceAddress s.projectPrefix 1 := by
  have hnil : (Dict.keys s.records).filterMap (fun sid => (parseSourceAddress sid).map Prod.snd)
      = [] := by
    refine List.filterMap_eq_nil_iff.mpr fun id hid => ?_
    obtain ⟨n, rfl⟩ := hnamed id (isSome_view.mpr hid)
    rw [Option.map_eq_none_iff, ← Option.not_isSome_iff_eq_none, parse_sourceAddress_iff]
    exact hp
  simp only [nextId]
  rw [hnil]
  rfl

/-! ### What a call keeps -/

/-- The links after a record was put in. -/
theorem link_update {G : Type} (f : Source F → Option G) {V W : PyStr → Option (Source F)}
    {id : PyStr} {src : Source F} (h : W = Function.update V id (some src)) :
    (fun k => (W k).bind f) = Function.update (fun k => (V k).bind f) id (f src) := by
  subst h
  funext k
  by_cases hk : k = id
  · subst hk
    simp
  · simp [hk]

theorem byLink_fun (s : SourceStore F) : s.byLink = fun k => (s.view k).bind Source.supersededBy :=
  funext s.byLink_eq

theorem ofLink_fun (s : SourceStore F) : s.ofLink = fun k => (s.view k).bind Source.supersedes :=
  funext s.ofLink_eq

/-- The invariant looks at the records without their texts. -/
theorem Governed.of_view {projectPrefix : PyStr} {s t : SourceStore F}
    (h : s.Governed projectPrefix) (hown : t.projectPrefix = s.projectPrefix)
    (hview : t.view = s.view) : t.Governed projectPrefix := by
  have hby : t.byLink = s.byLink := by rw [byLink_fun, byLink_fun, hview]
  have hof : t.ofLink = s.ofLink := by rw [ofLink_fun, ofLink_fun, hview]
  refine ⟨hown.trans h.own, ?_, ?_, ?_, ?_, ?_, ?_, ?_, ?_⟩
  · exact hview ▸ h.named
  · rw [hview, hby, hof]
    exact h.lone
  · exact hby ▸ h.byAcyclic
  · exact hof ▸ h.ofAcyclic
  · rw [hview, hby]
    exact h.byPresent
  · rw [hview, hof]
    exact h.ofPresent
  · exact hview ▸ h.marked
  · rw [hview, hby]
    exact h.headed

/-- **An addition keeps the invariant.** -/
theorem Governed.add {projectPrefix : PyStr} {s t : SourceStore F} (h : s.Governed projectPrefix)
    (hown : t.projectPrefix = s.projectPrefix) {src : Source F}
    (hview : t.view = Function.update s.view s.nextId (some src)) (hof : src.supersedes = none)
    (hby : src.supersededBy = none) : t.Governed projectPrefix := by
  -- the new id carries no link yet, so that no link changes
  have hfree : s.byLink s.nextId = none ∧ s.ofLink s.nextId = none ∧
      ∀ id, s.byLink id ≠ some s.nextId := by
    by_cases hp : PlainPrefix projectPrefix
    · have hnone := view_nextId (h.own ▸ hp : PlainPrefix s.projectPrefix)
      refine ⟨by rw [byLink_eq, hnone]; rfl, by rw [ofLink_eq, hnone]; rfl, fun id hid => ?_⟩
      have hpresent := h.byPresent id _ hid
      rw [hnone] at hpresent
      cases hpresent
    · obtain ⟨-, hnone⟩ := h.lone.resolve_left hp
      refine ⟨(hnone _).1, (hnone _).2, fun id hid => ?_⟩
      rw [(hnone id).1] at hid
      cases hid
  have hbyLink : t.byLink = s.byLink := by
    rw [byLink_fun, link_update Source.supersededBy hview, hby, ← byLink_fun]
    exact Function.update_eq_self_iff.mpr hfree.1.symm
  have hofLink : t.ofLink = s.ofLink := by
    rw [ofLink_fun, link_update Source.supersedes hview, hof, ← ofLink_fun]
    exact Function.update_eq_self_iff.mpr hfree.2.1.symm
  have hsome : ∀ id, (s.view id).isSome → (t.view id).isSome := by
    intro id hid
    rw [hview]
    by_cases hk : id = s.nextId
    · rw [hk, Function.update_self]
      rfl
    · rwa [Function.update_of_ne hk]
  refine ⟨hown.trans h.own, ?_, ?_, ?_, ?_, ?_, ?_, ?_, ?_⟩
  · intro id hid
    rw [hview] at hid
    by_cases hk : id = s.nextId
    · obtain ⟨n, hn⟩ := s.exists_nextId
      exact ⟨n, hk.trans (h.own ▸ hn)⟩
    · rw [Function.update_of_ne hk] at hid
      exact h.named id hid
  · refine (em (PlainPrefix projectPrefix)).imp_right fun hp => ?_
    obtain ⟨hids, hnone⟩ := h.lone.resolve_left hp
    refine ⟨fun id hid => ?_, by rw [hbyLink, hofLink]; exact hnone⟩
    rw [hview] at hid
    by_cases hk : id = s.nextId
    · rw [hk, nextId_of_not_plain (h.own ▸ hp) (h.own ▸ h.named), h.own]
    · rw [Function.update_of_ne hk] at hid
      exact hids id hid
  · exact hbyLink ▸ h.byAcyclic
  · exact hofLink ▸ h.ofAcyclic
  · rw [hbyLink]
    exact fun id b hb => hsome b (h.byPresent id b hb)
  · rw [hofLink]
    exact fun id b hb => hsome b (h.ofPresent id b hb)
  · intro id r hr hsup
    rw [hview] at hr
    by_cases hk : id = s.nextId
    · rw [hk, Function.update_self] at hr
      rw [← Option.some.inj hr, hby] at hsup
      cases hsup
    · rw [Function.update_of_ne hk] at hr
      exact h.marked id r hr hsup
  · rw [hbyLink]
    intro id b r hb hr hsup
    have hk : b ≠ s.nextId := fun hk => hfree.2.2 id (hk ▸ hb)
    rw [hview, Function.update_of_ne hk] at hr
    exact h.headed id b r hb hr hsup

/-- The ancestors are all that is reached by `supersedes`. -/
theorem mem_ancestors {projectPrefix : PyStr} {s t : SourceStore F} (h : s.Governed projectPrefix)
    (hview : t.view = s.view) {oldId newId : PyStr}
    (hway : TransGen (Step s.ofLink) oldId newId) : newId ∈ t.ancestors oldId := by
  have hpred : t.predecessor = s.ofLink := by
    funext id
    have hof : (t.find id).bind Source.supersedes = s.ofLink id := by
      rw [ofLink_eq, ← hview, ← ofLink_eq, ofLink]
    rw [predecessor, hof]
    cases hb : s.ofLink id with
    | none => rfl
    | some b =>
      obtain ⟨n, rfl⟩ := h.named b (h.ofPresent id b hb)
      simp [sourceAddress]
  obtain ⟨start, hstart, hrest⟩ := TransGen.head'_iff.mp hway
  have hdom : ∀ n m, t.predecessor n = some m → n ∈ Dict.keys t.records := by
    intro n m hnm
    rw [← isSome_view]
    rw [hpred, ofLink_eq, ← hview] at hnm
    cases hv : t.view n with
    | none =>
      rw [hv] at hnm
      cases hnm
    | some src => rfl
  have hlen : (Dict.keys t.records).length = t.records.length := List.length_map _
  rw [ancestors, hpred, hstart, ← hpred, ← hlen]
  exact mem_walk hdom (hpred ▸ hrest)

/-- What a function with two places updated gives. -/
theorem update_update_cases {α β : Type} [DecidableEq α] {f : α → Option β} {a b i : α}
    {x y : Option β} {z : β} (h : Function.update (Function.update f a x) b y i = some z) :
    (i = b ∧ y = some z) ∨ (i ≠ b ∧ i = a ∧ x = some z) ∨ (i ≠ b ∧ i ≠ a ∧ f i = some z) := by
  by_cases hb : i = b
  · rw [hb, Function.update_self] at h
    exact .inl ⟨hb, h⟩
  · rw [Function.update_of_ne hb] at h
    by_cases ha : i = a
    · rw [ha, Function.update_self] at h
      exact .inr (.inl ⟨hb, ha, h⟩)
    · rw [Function.update_of_ne ha] at h
      exact .inr (.inr ⟨hb, ha, h⟩)

/-- **A supersession keeps the invariant.** -/
theorem Governed.supersede {projectPrefix : PyStr} {s t u : SourceStore F}
    (h : s.Governed projectPrefix) (hown : t.projectPrefix = s.projectPrefix) {oldId newId : PyStr}
    {old new : Source F} (hold : s.view oldId = some old) (hnew : s.view newId = some new)
    (hne : oldId ≠ newId) (hu : u.view = s.view) (hcycle : newId ∉ u.ancestors oldId) {version : ℕ}
    (hview : t.view = Function.update (Function.update s.view oldId
        (some { old with status := .superseded, supersededBy := some newId }))
      newId (some { new with
        status := .current, supersedes := some oldId, supersededBy := none, version := version })) :
    t.Governed projectPrefix := by
  have hby : t.byLink = Function.update (Function.update s.byLink oldId (some newId)) newId none := by
    rw [byLink_fun, link_update Source.supersededBy hview, link_update Source.supersededBy rfl,
      ← byLink_fun]
  have hof : t.ofLink = Function.update s.ofLink newId (some oldId) := by
    rw [ofLink_fun, link_update Source.supersedes hview, link_update Source.supersedes rfl,
      ← ofLink_fun]
    congr 1
    refine Function.update_eq_self_iff.mpr ?_
    rw [ofLink_eq, hold]
    rfl
  have hsome : ∀ id, (t.view id).isSome ↔ (s.view id).isSome := by
    intro id
    rw [hview]
    by_cases h1 : id = newId
    · subst h1
      simp [hnew]
    · rw [Function.update_of_ne h1]
      by_cases h2 : id = oldId
      · subst h2
        simp [hold]
      · rw [Function.update_of_ne h2]
  refine {
    own := hown.trans h.own
    named := fun id hid => h.named id ((hsome id).mp hid)
    lone := ?lone
    byAcyclic := ?byAcyclic
    ofAcyclic := ?ofAcyclic
    byPresent := ?byPresent
    ofPresent := ?ofPresent
    marked := ?marked
    headed := ?headed }
  case lone =>
    -- with an odd prefix there is one id, and the two here are distinct
    refine .inl (h.lone.resolve_right fun hlone => hne ?_)
    have h1 := hlone.1 oldId (by rw [hold]; rfl)
    have h2 := hlone.1 newId (by rw [hnew]; rfl)
    rw [h1, h2]
  case byAcyclic =>
    rw [hby, Function.update_comm hne]
    refine acyclic_update (acyclic_clear h.byAcyclic) fun hway => ?_
    -- nothing comes after the new source
    rcases hway.cases_head with heq | ⟨k, hk, -⟩
    · exact hne heq.symm
    · rw [Step, Function.update_self] at hk
      cases hk
  case ofAcyclic =>
    rw [hof]
    refine acyclic_update h.ofAcyclic fun hway => ?_
    rcases reflTransGen_iff_eq_or_transGen.mp hway with heq | htrans
    · exact hne heq.symm
    · exact hcycle (mem_ancestors h hu htrans)
  case byPresent =>
    intro id b hb
    rw [hsome]
    rw [hby] at hb
    rcases update_update_cases hb with ⟨-, hnone⟩ | ⟨-, -, heq⟩ | ⟨-, -, hb⟩
    · cases hnone
    · rw [← Option.some.inj heq, hnew]
      rfl
    · exact h.byPresent id b hb
  case ofPresent =>
    intro id b hb
    rw [hsome]
    rw [hof] at hb
    by_cases h1 : id = newId
    · rw [h1, Function.update_self, Option.some.injEq] at hb
      rw [← hb, hold]
      rfl
    · rw [Function.update_of_ne h1] at hb
      exact h.ofPresent id b hb
  case marked =>
    intro id src hsrc hsup
    rw [hview] at hsrc
    rcases update_update_cases hsrc with ⟨-, heq⟩ | ⟨-, -, heq⟩ | ⟨-, -, hsrc⟩
    · rw [← Option.some.inj heq] at hsup
      cases hsup
    · rw [← Option.some.inj heq]
    · exact h.marked id src hsrc hsup
  case headed =>
    intro id b src hb hsrc hsup
    rw [hview] at hsrc
    rw [hby] at hb
    rcases update_update_cases hsrc with ⟨-, heq⟩ | ⟨-, -, heq⟩ | ⟨hother, -, hsrc⟩
    · rw [← Option.some.inj heq]
    · rw [← Option.some.inj heq] at hsup
      cases hsup
    · rcases update_update_cases hb with ⟨-, hnone⟩ | ⟨-, -, heq⟩ | ⟨-, -, hb⟩
      · cases hnone
      · exact absurd (Option.some.inj heq).symm hother
      · exact h.headed id b src hb hsrc hsup

/-! ### Chain heads -/

/-- The store of an empty directory. -/
theorem governed_empty (projectPrefix : PyStr) : (empty F projectPrefix).Governed projectPrefix where
  own := rfl
  named _ h := by cases h
  lone := .inr ⟨fun _ h => (by cases h), fun _ => ⟨rfl, rfl⟩⟩
  byAcyclic := acyclic_none
  ofAcyclic := acyclic_none
  byPresent _ _ h := by cases h
  ofPresent _ _ h := by cases h
  marked _ _ h := by cases h
  headed _ _ _ h := by cases h

/-- What a chain is followed by is the link itself. -/
theorem Governed.successor_eq {projectPrefix : PyStr} {s : SourceStore F}
    (h : s.Governed projectPrefix) : s.successor = s.byLink := by
  funext id
  rw [successor, ← byLink]
  cases hb : s.byLink id with
  | none => rfl
  | some b =>
    have hpresent := h.byPresent id b hb
    obtain ⟨n, rfl⟩ := h.named b hpresent
    rw [view, Option.isSome_map] at hpresent
    refine Option.filter_eq_some_iff.mpr ⟨rfl, ?_⟩
    rw [decide_eq_true_eq]
    exact ⟨by simp [sourceAddress], hpresent⟩

/-- Links start at sources. -/
theorem mem_keys_of_byLink {s : SourceStore F} {id b : PyStr} (h : s.byLink id = some b) :
    id ∈ (Dict.keys s.records) := by
  rw [← isSome_view]
  rw [byLink_eq] at h
  cases hv : s.view id with
  | none =>
    rw [hv] at h
    cases h
  | some src => rfl

/-- Where a line of sources ends there is a source: the one it started at, or one that
superseded another. -/
theorem Governed.end_of_line {projectPrefix : PyStr} {s : SourceStore F}
    (h : s.Governed projectPrefix) {id b e : PyStr} (hb : s.byLink id = some b)
    (hway : ReflTransGen (Step s.byLink) id e) (hend : s.byLink e = none) :
    ∃ head, s.find e = some head ∧ head.supersededBy = none ∧ head.status = .current := by
  rcases hway.cases_tail with rfl | ⟨k, -, hk⟩
  · rw [hb] at hend
    cases hend
  · obtain ⟨src, hsrc⟩ := Option.isSome_iff_exists.mp (h.byPresent k e hk)
    have hnone : src.supersededBy = none := by
      rwa [byLink_eq, hsrc] at hend
    have hstatus := h.headed k e src hk hsrc hnone
    rw [view] at hsrc
    obtain ⟨head, hhead, rfl⟩ := Option.map_eq_some_iff.mp hsrc
    exact ⟨head, hhead, hnone, hstatus⟩

/-! ### Runs -/

variable [PyFloat F]

@[simp] theorem projectPrefix_persist (s : SourceStore F) (src : Source F) :
    (s.persist src).2.projectPrefix = s.projectPrefix := by
  rcases persist_cases s src with ⟨-, e, h⟩ | ⟨bytes, -, ⟨e, h⟩ | h⟩ <;> rw [h]

omit [PyFloat F] in
@[simp] theorem projectPrefix_get (s : SourceStore F) (id : PyStr) :
    (s.get id).2.projectPrefix = s.projectPrefix := by
  unfold get
  split
  · rfl
  · split <;> rfl

/-- A call leaves the prefix. -/
theorem projectPrefix_chainStep (s : SourceStore F) (c : ChainCall F) :
    (s.chainStep c).projectPrefix = s.projectPrefix := by
  cases c with
  | add new =>
    simp only [chainStep, add]
    split
    · next heq => rw [← projectPrefix_persist s, heq]
    · next heq => exact (congrArg (fun r => r.2.projectPrefix) heq).symm.trans (projectPrefix_persist s _)
  | supersede oldId newId =>
    simp only [chainStep, supersede]
    have h1 := projectPrefix_get s oldId
    split
    · next heq => rwa [heq] at h1
    · next old s1 heq =>
      rw [heq] at h1
      have h2 := projectPrefix_get s1 newId
      split
      · next heq => exact (congrArg (fun r => r.2.projectPrefix) heq).symm.trans (h2.trans h1)
      · next new s2 heq =>
        rw [heq] at h2
        split_ifs
        · exact h2.trans h1
        · exact h2.trans h1
        · split
          · next heq =>
            refine (congrArg (fun r => r.2.projectPrefix) heq).symm.trans ?_
            rw [projectPrefix_persist]
            exact h2.trans h1
          · next heq =>
            rw [projectPrefix_persist]
            refine (congrArg (fun r => r.2.projectPrefix) heq).symm.trans ?_
            rw [projectPrefix_persist]
            exact h2.trans h1

/-- **A call keeps the invariant**, whatever it returns or raises. -/
theorem Governed.step {projectPrefix : PyStr} {s : SourceStore F} (h : s.Governed projectPrefix)
    (c : ChainCall F) : (s.chainStep c).Governed projectPrefix := by
  have hown := projectPrefix_chainStep s c
  cases c with
  | add new =>
    rcases add_spec s new with hview | ⟨src, -, hview, -, hof, hby⟩
    · exact h.of_view hown hview
    · exact h.add hown hview hof hby
  | supersede oldId newId =>
    rcases supersede_spec s oldId newId with
      hview | ⟨old, new, hold, hnew, hne, ⟨u, hu, hcycle⟩, hview⟩
    · exact h.of_view hown hview
    · exact h.supersede hown hold hnew hne hu hcycle hview

/-! ### Rejections -/

/-- What a persisting may raise is not what a rejection raises. -/
theorem persist_not_rejected (s : SourceStore F) (src : Source F) :
    (s.persist src).1 ≠ .error .keyError ∧ (s.persist src).1 ≠ .error (.raised .valueError) := by
  unfold persist
  split
  · exact ⟨by simp, by simp⟩
  · simp only
    cases hd : dumpsSorted fileStyle src.toDict with
    | error e =>
      cases e with
      | typeError => exact ⟨by simp, by simp [DumpsError.toPyError]⟩
      | valueError =>
        -- `allow_nan` is on
        rw [dumpsSorted] at hd
        split at hd
        · next w _ =>
          obtain ⟨t, ht⟩ := exists_print (show fileStyle.allowNan = true from rfl) w
          rw [dumps, ht] at hd
          cases hd
        · cases hd
    | ok text =>
      simp only
      split_ifs <;> exact ⟨by simp, by simp⟩

omit [PyFloat F] in
/-- A reading leaves the files. -/
theorem files_get (s : SourceStore F) (id : PyStr) :
    (s.get id).2.recordFiles = s.recordFiles ∧ (s.get id).2.contentFiles = s.contentFiles := by
  unfold get
  split
  · exact ⟨rfl, rfl⟩
  · split <;> exact ⟨rfl, rfl⟩

/-- **A rejected supersession changes no record and no file.** -/
theorem supersede_rejected (s : SourceStore F) (oldId newId : PyStr)
    (h : (s.supersede oldId newId).1 = .error .keyError ∨
      (s.supersede oldId newId).1 = .error (.raised .valueError)) :
    (s.supersede oldId newId).2.view = s.view ∧
      (s.supersede oldId newId).2.recordFiles = s.recordFiles ∧
      (s.supersede oldId newId).2.contentFiles = s.contentFiles := by
  have hv1 := view_get s oldId
  have hf1 := files_get s oldId
  revert h
  unfold supersede
  split
  · next heq =>
    rw [heq] at hv1 hf1
    exact fun _ => ⟨hv1, hf1⟩
  · next old s1 heq =>
    rw [heq] at hv1 hf1
    have hv2 := view_get s1 newId
    have hf2 := files_get s1 newId
    split
    · next heq =>
      rw [heq] at hv2 hf2
      exact fun _ => ⟨hv2.trans hv1, hf2.1.trans hf1.1, hf2.2.trans hf1.2⟩
    · next new s2 heq =>
      rw [heq] at hv2 hf2
      split_ifs
      · exact fun _ => ⟨hv2.trans hv1, hf2.1.trans hf1.1, hf2.2.trans hf1.2⟩
      · exact fun _ => ⟨hv2.trans hv1, hf2.1.trans hf1.1, hf2.2.trans hf1.2⟩
      · simp only
        split
        · next heq =>
          intro h
          have hfst := congrArg Prod.fst heq
          exact absurd (h.imp hfst.trans hfst.trans) (not_or.mpr (persist_not_rejected _ _))
        · exact fun h => absurd h (not_or.mpr (persist_not_rejected _ _))

/-! ### The chains -/

/-- **Supersession is well founded after any additions and supersessions**: neither kind of
link has a cycle; following a chain ends, however long one follows; what is superseded says
so, and its chain ends in a current source that nothing supersedes.  A rejected call changes
nothing. -/
theorem supersession_founded (projectPrefix : PyStr) (calls : List (ChainCall F)) :
    let s := Run.run chainStep (empty F projectPrefix) calls
    Acyclic s.byLink ∧ Acyclic s.ofLink ∧
    (∀ id fuel, s.records.length < fuel →
      follow s.successor fuel [] id = follow s.successor (s.records.length + 1) [] id ∧
      s.successor (follow s.successor fuel [] id) = none) ∧
    (∀ id src, s.find id = some src → src.supersededBy.isSome → src.status = .superseded ∧
      ∃ head, s.currentChainHead id = some head ∧ head.supersededBy = none ∧
        head.status = .current) ∧
    ∀ oldId newId, (s.supersede oldId newId).1 = .error .keyError ∨
        (s.supersede oldId newId).1 = .error (.raised .valueError) →
      (s.supersede oldId newId).2.view = s.view ∧
        (s.supersede oldId newId).2.recordFiles = s.recordFiles ∧
        (s.supersede oldId newId).2.contentFiles = s.contentFiles := by
  intro s
  have h : s.Governed projectPrefix :=
    Run.run_keeps (P := Governed projectPrefix) (fun t c ht => ht.step c)
      (governed_empty projectPrefix) calls
  have hlen : (Dict.keys s.records).length = s.records.length := List.length_map _
  have hdom : ∀ n m, s.byLink n = some m → n ∈ Dict.keys s.records := fun n m hnm =>
    mem_keys_of_byLink hnm
  refine ⟨h.byAcyclic, h.ofAcyclic, ?_, ?_, fun oldId newId => supersede_rejected s oldId newId⟩
  · intro id fuel hfuel
    have hmono := follow_mono h.byAcyclic hdom id (hlen ▸ hfuel)
    have hnext := (next_follow h.byAcyclic hdom id).1
    rw [hlen] at hmono hnext
    rw [h.successor_eq, hmono]
    exact ⟨rfl, hnext⟩
  · intro id src hsrc hsup
    refine ⟨h.marked id (bare src) (by rw [view, hsrc, Option.map_some]) hsup, ?_⟩
    obtain ⟨b, hb⟩ := Option.isSome_iff_exists.mp hsup
    have hlink : s.byLink id = some b := by rw [byLink, hsrc, Option.bind_some, hb]
    obtain ⟨hend, hway⟩ := next_follow h.byAcyclic hdom id
    rw [hlen] at hend hway
    rw [currentChainHead, hsrc, h.successor_eq]
    exact h.end_of_line hlink hway hend

end SourceStore

end Daryl
