import Daryl.Prl.Replay

/-!
# Which supersessions are applied

Decisions declare which decision they supersede, and a decision id may be emitted more
than once, each time with another target: the valid declarations are the edges of a
graph.  To find its cycles the projection keeps one target of each decision, the last
one in the order in which targets were first declared, and walks over these.  A cycle
of the graph that leaves by another target is not seen.

## Main definitions

* `Supersedes` — the valid edges of the emissions of a decision.
* `LastTarget` — the one target that is kept.
* `SoundStandings` — the supersessions applied are acyclic, unambiguous, and withheld on
  cycles.
* `CyclesSeen` — when the walks see the cycles.

## Main results

* `mem_inCycle_iff` — what the cycle detection finds.
* `supersession_sound_iff` — **the standings of a run are sound iff its cycles are seen.**
-/

namespace Daryl

open Py Relation

/-- A valid edge: an emission of the first decision supersedes the second. -/
def Supersedes (edges : List (PyStr × PyStr)) (s t : PyStr) : Prop := (t, s) ∈ edges

/-- The target of a decision that is kept: the last in the order of first declarations. -/
def LastTarget (edges : List (PyStr × PyStr)) (s t : PyStr) : Prop :=
  ((fromKeys (edges.map Prod.fst)).filter fun x => (x, s) ∈ edges).getLast? = some t

/-- The standing of a decision in a projection says that `c` supersedes it. -/
def SupersededBy (standings : List (PyStr × DecisionStanding)) (d c : PyStr) : Prop :=
  ∃ st, Dict.get d standings = some st ∧ st.supersededBy = some c

/-- **The supersessions applied have no cycle, each is by the one decision that declares
it, and on a cycle of the declarations there is none.** -/
structure SoundStandings (edges : List (PyStr × PyStr))
    (standings : List (PyStr × DecisionStanding)) : Prop where
  acyclic : ∀ d, ¬TransGen (SupersededBy standings) d d
  unique : ∀ d c, SupersededBy standings d c → Supersedes edges c d ∧
    ∀ c', Supersedes edges c' d → c' = c
  withheld : ∀ d, TransGen (Supersedes edges) d d → ∃ st, Dict.get d standings = some st ∧
    st.supersededBy = none ∧ st.supersessionAmbiguous = true

/-- **Every decision on a cycle that one decision alone supersedes lies on a cycle of kept
targets, or that decision does.** -/
def CyclesSeen (edges : List (PyStr × PyStr)) : Prop :=
  ∀ d c, TransGen (Supersedes edges) d d → Supersedes edges c d →
    (∀ c', Supersedes edges c' d → c' = c) →
    TransGen (LastTarget edges) c c ∨ TransGen (LastTarget edges) d d

/-! ### The kept targets -/

theorem fromKeys_concat (xs : List PyStr) (x : PyStr) :
    fromKeys (xs ++ [x]) = if x ∈ fromKeys xs then fromKeys xs else fromKeys xs ++ [x] := by
  rw [fromKeys, List.foldl_append]
  rfl

/-- The targets stand in the order of their first declarations. -/
theorem keys_collect (edges : List (PyStr × PyStr)) :
    Dict.keys (Dict.collect edges) = fromKeys (edges.map Prod.fst) := by
  induction edges using List.reverseRecOn with
  | nil => rfl
  | append_singleton edges e ih =>
    rw [Dict.collect_concat, Dict.pushNew, Dict.keys_set, List.map_append, List.map_singleton,
      fromKeys_concat, ih]
    by_cases he : e.1 ∈ fromKeys (edges.map Prod.fst)
    · simp only [he, if_true]
    · simp only [he, if_false]

/-- The later of two targets set for one superseder stays. -/
theorem get_foldl_set (ps : List (PyStr × PyStr)) (d : List (PyStr × PyStr)) (s : PyStr) :
    Dict.get s (ps.foldl (fun d p => Dict.set p.1 p.2 d) d)
      = (((ps.filter fun p => p.1 = s).getLast?.map Prod.snd).or (Dict.get s d)) := by
  induction ps using List.reverseRecOn with
  | nil => simp
  | append_singleton ps p ih =>
    rw [List.foldl_append, List.foldl_cons, List.foldl_nil, Dict.get_set, List.filter_append, ih]
    by_cases hp : p.1 = s
    · simp [hp]
    · simp [hp]

/-- The targets set for one superseder, in order. -/
theorem filter_pairs {es : List (PyStr × List PyStr)} (hnodup : ∀ e ∈ es, e.2.Nodup) (s : PyStr) :
    ((es.flatMap fun e => e.2.map fun x => (x, e.1)).filter fun p => p.1 = s).map Prod.snd
      = (es.filter fun e => s ∈ e.2).map Prod.fst := by
  induction es with
  | nil => rfl
  | cons e es ih =>
    have hown : ((e.2.map fun x => (x, e.1)).filter fun p => p.1 = s).map Prod.snd
        = if s ∈ e.2 then [e.1] else [] := by
      rw [List.filter_map, List.map_map]
      by_cases hs : s ∈ e.2
      · have hcount : e.2.filter (fun x => x = s) = [s] := by
          rw [List.filter_eq, (hnodup e List.mem_cons_self).count, if_pos hs]
          rfl
        rw [if_pos hs]
        exact congrArg (List.map _) hcount
      · have hcount : e.2.filter (fun x => x = s) = [] := by
          rw [List.filter_eq, List.count_eq_zero_of_not_mem hs]
          rfl
        rw [if_neg hs]
        exact congrArg (List.map _) hcount
    rw [List.flatMap_cons, List.filter_append, List.map_append, hown,
      ih fun x hx => hnodup x (List.mem_cons_of_mem _ hx), List.filter_cons]
    by_cases hs : s ∈ e.2
    · simp [hs]
    · simp [hs]

/-- An item of the collection holds the superseders of its target. -/
theorem mem_of_mem_collect {edges : List (PyStr × PyStr)} {e : PyStr × List PyStr}
    (he : e ∈ Dict.collect edges) : e.2.Nodup ∧ ∀ s, s ∈ e.2 ↔ (e.1, s) ∈ edges := by
  have hget := Dict.get_of_mem (Dict.nodup_keys_collect edges) he
  have hspec := Dict.collect_spec edges e.1
  rw [hget, Option.getD_some] at hspec
  exact hspec

/-- **The dictionary of kept targets holds the last target of each superseder.** -/
theorem get_supersedesOf (edges : List (PyStr × PyStr)) (s t : PyStr) :
    Dict.get s (supersedesOf (Dict.collect edges)) = some t ↔ LastTarget edges s t := by
  have htargets : ((Dict.collect edges).filter fun e => s ∈ e.2).map Prod.fst
      = (fromKeys (edges.map Prod.fst)).filter fun x => (x, s) ∈ edges := by
    rw [← keys_collect, Dict.keys, List.filter_map]
    congr 1
    apply List.filter_congr
    intro e he
    rw [Function.comp_apply, decide_eq_decide]
    exact (mem_of_mem_collect he).2 s
  have hget := get_foldl_set ((Dict.collect edges).flatMap fun e => e.2.map fun x => (x, e.1)) [] s
  rw [Dict.get_nil, Option.or_none, ← List.getLast?_map,
    filter_pairs fun e he => (mem_of_mem_collect he).1, htargets] at hget
  rw [supersedesOf, hget]
  rfl

/-- **The cycle detection finds the decisions on cycles of kept targets.** -/
theorem mem_inCycle_iff (edges : List (PyStr × PyStr)) (d : PyStr) :
    d ∈ inCycle (supersedesOf (Dict.collect edges)) ↔ TransGen (LastTarget edges) d d := by
  have hstep : Walk.Step (fun n => Dict.get n (supersedesOf (Dict.collect edges)))
      = LastTarget edges := by
    funext a b
    exact propext (get_supersedesOf edges a b)
  have hdom : ∀ n m, Dict.get n (supersedesOf (Dict.collect edges)) = some m →
      n ∈ Dict.keys (supersedesOf (Dict.collect edges)) := by
    intro n m h
    rw [← Dict.get_isSome, h]
    rfl
  rw [← hstep]
  exact Walk.mem_cycles_iff hdom

/-! ### The standings -/

/-- How a standing reads the superseders of its line. -/
inductive Reading (edges : List (PyStr × PyStr)) (d : PyStr) : Option PyStr → Bool → Prop
  | free (hnone : ∀ c, ¬Supersedes edges c d) : Reading edges d none false
  | applied (c : PyStr) (hc : Supersedes edges c d) (honly : ∀ c', Supersedes edges c' d → c' = c)
      (hcycle : ¬(TransGen (LastTarget edges) c c ∨ TransGen (LastTarget edges) d d)) :
      Reading edges d (some c) false
  | cyclic (c : PyStr) (hc : Supersedes edges c d) (honly : ∀ c', Supersedes edges c' d → c' = c)
      (hcycle : TransGen (LastTarget edges) c c ∨ TransGen (LastTarget edges) d d) :
      Reading edges d none true
  | concurrent (c c' : PyStr) (hne : c ≠ c') (hc : Supersedes edges c d)
      (hc' : Supersedes edges c' d) : Reading edges d none true

theorem standingOfLine_reading (edges : List (PyStr × PyStr)) (decisions : List DecisionReceipt)
    (d : PyStr) (last : DecisionReceipt) :
    Reading edges d (standingOfLine (Dict.collect edges) decisions d last).supersededBy
      (standingOfLine (Dict.collect edges) decisions d last).supersessionAmbiguous := by
  obtain ⟨hnodup, hmem⟩ := Dict.collect_spec edges d
  unfold standingOfLine
  dsimp only
  cases hss : (Dict.get d (Dict.collect edges)).getD [] with
  | nil =>
    apply Reading.free
    intro c hc
    exact absurd ((hmem c).mpr hc) (by rw [hss]; exact List.not_mem_nil)
  | cons c rest =>
    have hc : Supersedes edges c d := (hmem c).mp (by rw [hss]; exact List.mem_cons_self)
    cases rest with
    | nil =>
      have honly : ∀ c', Supersedes edges c' d → c' = c := by
        intro c' hc'
        have hin := (hmem c').mpr hc'
        rw [hss] at hin
        exact List.mem_singleton.mp hin
      dsimp only
      split_ifs with hcycle
      · rw [mem_inCycle_iff, mem_inCycle_iff] at hcycle
        exact Reading.cyclic c hc honly hcycle
      · rw [mem_inCycle_iff, mem_inCycle_iff] at hcycle
        exact Reading.applied c hc honly hcycle
    | cons c' rest =>
      have hc' : Supersedes edges c' d :=
        (hmem c').mp (by rw [hss]; exact List.mem_cons_of_mem _ List.mem_cons_self)
      rw [hss] at hnodup
      have hne : c ≠ c' := by
        rintro rfl
        exact (List.nodup_cons.mp hnodup).1 List.mem_cons_self
      exact Reading.concurrent c c' hne hc hc'

section

variable {kindOf : PyStr → Option SwarmKind} {decisions : List DecisionReceipt}

/-- A declared target is valid iff it is another decision. -/
theorem declared_eq_edge_iff {d : DecisionReceipt} {t : PyStr} :
    declared kindOf d = .edge t ↔
      d.supersedes = some t ∧ t ≠ d.decisionId ∧ kindOf t = some .decision := by
  unfold declared
  cases hs : d.supersedes with
  | none => simp
  | some target =>
    dsimp only
    by_cases hself : target = d.decisionId
    · -- the decision itself
      rw [if_pos hself]
      constructor
      · intro h
        cases h
      · rintro ⟨ht, hne, -⟩
        exact absurd hself (by rwa [Option.some.inj ht])
    · rw [if_neg hself]
      cases hk : kindOf target with
      | none =>
        constructor
        · intro h
          cases h
        · rintro ⟨ht, -, hkind⟩
          rw [← Option.some.inj ht, hk] at hkind
          cases hkind
      | some k =>
        have hmatrix : k ∉ supersessionMatrix .decision ↔ k ≠ .decision := by
          cases k <;> decide
        by_cases hdec : k = .decision
        · -- another decision
          have hin : ¬k ∉ supersessionMatrix .decision := fun h => hmatrix.mp h hdec
          dsimp only
          rw [if_neg hin]
          constructor
          · rintro h
            cases h
            exact ⟨rfl, hself, by rw [hk, hdec]⟩
          · rintro ⟨ht, -, -⟩
            rw [Option.some.inj ht]
        · -- a record of another kind
          have hout : k ∉ supersessionMatrix .decision := hmatrix.mpr hdec
          dsimp only
          rw [if_pos hout]
          constructor
          · intro h
            cases h
          · rintro ⟨ht, -, hkind⟩
            rw [← Option.some.inj ht, hk] at hkind
            exact absurd (Option.some.inj hkind) hdec

/-- **The valid edges lead from decisions to other decisions they declare.** -/
theorem supersedes_iff {s t : PyStr} :
    Supersedes (validEdges kindOf decisions) s t ↔
      t ≠ s ∧ kindOf t = some .decision ∧
        ∃ d ∈ decisions, d.decisionId = s ∧ d.supersedes = some t := by
  constructor
  · intro h
    obtain ⟨d, hd, hedge⟩ := List.mem_filterMap.mp h
    cases hdec : declared kindOf d with
    | nothing => simp [hdec] at hedge
    | ignored diag => simp [hdec] at hedge
    | edge target =>
      simp only [hdec, Option.some.injEq, Prod.mk.injEq] at hedge
      obtain ⟨rfl, rfl⟩ := hedge
      obtain ⟨hs, hne, hkind⟩ := declared_eq_edge_iff.mp hdec
      exact ⟨hne, hkind, d, hd, rfl, hs⟩
  · rintro ⟨hne, hkind, d, hd, rfl, hs⟩
    apply List.mem_filterMap.mpr
    refine ⟨d, hd, ?_⟩
    rw [declared_eq_edge_iff.mpr ⟨hs, hne, hkind⟩]

/-- A line has the standing of its last emission. -/
theorem get_standings (d : PyStr) :
    Dict.get d (deriveDecisionStandings kindOf decisions).1
      = (Dict.get d (Dict.latest DecisionReceipt.decisionId decisions)).map
          (standingOfLine (declaredEdges kindOf decisions) decisions d) :=
  Dict.get_map (standingOfLine (declaredEdges kindOf decisions) decisions) d _

/-- Every standing reads the superseders of its decision. -/
theorem reading_of_get {d : PyStr} {st : DecisionStanding}
    (h : Dict.get d (deriveDecisionStandings kindOf decisions).1 = some st) :
    Reading (validEdges kindOf decisions) d st.supersededBy st.supersessionAmbiguous := by
  rw [get_standings, Option.map_eq_some_iff] at h
  obtain ⟨last, -, rfl⟩ := h
  exact standingOfLine_reading (validEdges kindOf decisions) decisions d last

/-- A decision that supersedes another has a standing. -/
theorem exists_standing {s t : PyStr} (h : Supersedes (validEdges kindOf decisions) s t) :
    ∃ st, Dict.get s (deriveDecisionStandings kindOf decisions).1 = some st := by
  obtain ⟨-, -, d, hd, hs, -⟩ := supersedes_iff.mp h
  have hline : s ∈ Dict.keys (Dict.latest DecisionReceipt.decisionId decisions) :=
    Dict.mem_keys_latest.mpr ⟨d, hd, hs⟩
  rw [← Dict.get_isSome, Option.isSome_iff_exists] at hline
  obtain ⟨last, hlast⟩ := hline
  exact ⟨_, by rw [get_standings, hlast, Option.map_some]⟩

/-- A supersession that is applied is the only one declared, and off the cycles seen. -/
theorem supersedes_of_supersededBy {d c : PyStr}
    (h : SupersededBy (deriveDecisionStandings kindOf decisions).1 d c) :
    Supersedes (validEdges kindOf decisions) c d ∧
      (∀ c', Supersedes (validEdges kindOf decisions) c' d → c' = c) ∧
      ¬(TransGen (LastTarget (validEdges kindOf decisions)) c c ∨
        TransGen (LastTarget (validEdges kindOf decisions)) d d) := by
  obtain ⟨st, hst, hby⟩ := h
  have hread := reading_of_get hst
  rw [hby] at hread
  generalize st.supersessionAmbiguous = amb at hread
  cases hread with
  | applied _ hc honly hcycle => exact ⟨hc, honly, hcycle⟩

/-- A path of superseding pointers follows the declarations backwards. -/
theorem supersedes_of_transGen {a b : PyStr}
    (h : TransGen (SupersededBy (deriveDecisionStandings kindOf decisions).1) a b) :
    TransGen (Supersedes (validEdges kindOf decisions)) b a := by
  induction h with
  | single hby => exact TransGen.single (supersedes_of_supersededBy hby).1
  | tail _ hby ih => exact TransGen.head (supersedes_of_supersededBy hby).1 ih

/-- The first step of a path. -/
theorem exists_step_of_transGen {r : PyStr → PyStr → Prop} {a b : PyStr} (h : TransGen r a b) :
    (∃ c, r a c) ∧ ∃ c, r c b := by
  induction h with
  | single hab => exact ⟨⟨_, hab⟩, ⟨_, hab⟩⟩
  | tail _ hbc ih => exact ⟨ih.1, ⟨_, hbc⟩⟩

/-- On a cycle that is seen, no supersession is applied. -/
theorem withheld_of_cyclesSeen (hseen : CyclesSeen (validEdges kindOf decisions)) {d : PyStr}
    (hd : TransGen (Supersedes (validEdges kindOf decisions)) d d) :
    ∃ st, Dict.get d (deriveDecisionStandings kindOf decisions).1 = some st ∧
      st.supersededBy = none ∧ st.supersessionAmbiguous = true := by
  obtain ⟨⟨t, hdt⟩, c, hcd⟩ := exists_step_of_transGen hd
  obtain ⟨st, hst⟩ := exists_standing hdt
  refine ⟨st, hst, ?_⟩
  have hread := reading_of_get hst
  generalize st.supersededBy = by_, st.supersessionAmbiguous = amb at hread
  cases hread with
  | free hnone => exact absurd hcd (hnone c)
  | applied c' hc' honly hcycle => exact absurd (hseen d c' hd hc' honly) hcycle
  | cyclic c' hc' honly hcycle => exact ⟨rfl, rfl⟩
  | concurrent c₁ c₂ hne h₁ h₂ => exact ⟨rfl, rfl⟩

/-- **The standings of decisions are sound iff the cycles of their declarations are seen.** -/
theorem soundStandings_iff :
    SoundStandings (validEdges kindOf decisions) (deriveDecisionStandings kindOf decisions).1 ↔
      CyclesSeen (validEdges kindOf decisions) := by
  constructor
  · intro hsound d c hd hc honly
    obtain ⟨st, hst, hnone, hamb⟩ := hsound.withheld d hd
    have hread := reading_of_get hst
    rw [hnone, hamb] at hread
    cases hread with
    | cyclic c' hc' honly' hcycle =>
      rw [honly c' hc'] at hcycle
      exact hcycle
    | concurrent c₁ c₂ hne h₁ h₂ => exact absurd ((honly c₁ h₁).trans (honly c₂ h₂).symm) hne
  · intro hseen
    refine ⟨?_, ?_, fun d hd => withheld_of_cyclesSeen hseen hd⟩
    · intro d hd
      -- the first decision of such a cycle is superseded, and withheld all the same
      obtain ⟨⟨c, st, hst, hby⟩, -⟩ := exists_step_of_transGen hd
      obtain ⟨st', hst', hnone, -⟩ := withheld_of_cyclesSeen hseen (supersedes_of_transGen hd)
      rw [hst] at hst'
      cases hst'
      rw [hby] at hnone
      cases hnone
    · intro d c h
      exact ⟨(supersedes_of_supersededBy h).1, (supersedes_of_supersededBy h).2.1⟩

end

/-! ### The run -/

/-- The valid edges of the records of a run. -/
def edgesOf (runId : PyStr) (rs : List SwarmRecord) : List (PyStr × PyStr) :=
  validEdges (kindOf runId rs) (decisionRecords rs)

/-- The valid edges of the run that is projected. -/
def runEdges (swarmRunId : PyStr) (records : List SwarmRecord) : List (PyStr × PyStr) :=
  edgesOf (runIdOf swarmRunId records) (inRun (runIdOf swarmRunId records) records)

/-- **The supersessions of a run are applied soundly iff the cycles of its declarations
are seen.** -/
theorem supersession_sound_iff (records : List SwarmRecord) (swarmRunId : PyStr) :
    SoundStandings (runEdges swarmRunId records) (projectRun records swarmRunId).decisions ↔
      CyclesSeen (runEdges swarmRunId records) :=
  soundStandings_iff

/-- A decision of the run `r` on the task-free subject `s`. -/
def decisionOn (id : PyStr) (supersedes : Option PyStr) : SwarmRecord :=
  .decision ⟨id, py "r", py "s", .accepted, none, none, [], supersedes⟩

/-- Two decisions that supersede each other, the first of which also supersedes a third. -/
def branchingCycle : List SwarmRecord :=
  [decisionOn (py "a") none, decisionOn (py "b") none, decisionOn (py "c") none,
    decisionOn (py "a") (some (py "b")), decisionOn (py "b") (some (py "a")),
    decisionOn (py "a") (some (py "c"))]

/-- **The first emission order hides the cycle: both supersessions are applied.** -/
theorem branchingCycle_unsound :
    ¬SoundStandings (runEdges (py "r") branchingCycle)
      (projectRun branchingCycle (py "r")).decisions := by
  intro hsound
  apply hsound.acyclic (py "a")
  apply TransGen.tail (TransGen.single (b := py "b") _) _
  · exact ⟨⟨py "a", py "s", .accepted, [.accepted, .accepted, .accepted], some (py "b"), false⟩,
      by decide +kernel, rfl⟩
  · exact ⟨⟨py "b", py "s", .accepted, [.accepted, .accepted], some (py "a"), false⟩,
      by decide +kernel, rfl⟩

end Daryl
