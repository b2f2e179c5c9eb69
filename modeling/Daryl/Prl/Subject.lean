import Daryl.Prl.Projections

/-!
# `prl.query.subject_read` and `governance_read`: the claims of a subject

A claim is in conflict when two authorities stand opposed.  The conflict of a claim is read
beside its standing, and what is read above it, the standing of the object and the posture of
the subject, is derived from the conflicts and standings of its claims.

## Main definitions

* `Opposed`, `Conflicting`, `TakesPart` — a conflict, pair by pair.
* `ClaimStanding`, `standingsOfSubject` — the claims of a subject, gathered.
* `detectCoherence`, `deriveObjectStanding` — what is read of the gathered claims.
* `deriveSubjectGovernanceState`, `governanceFromView` — the posture.

## Main results

* `detectConflict_cases` — the branches, by the authors known.
* `conflict_iff` — a conflict is an opposed pair.
* `betweenAuthorities_iff` — **the answer is the one of the pairs iff no unknown author stands
  beside two known ones that are opposed.**
* `conflict_carried` — a conflict in the facts of a claim reaches its subject.
-/

namespace Daryl

open Py Json Model Records

/-! ### Opposed pairs -/

/-- An acceptance and a rejection whose authors are different or not both known. -/
structure Opposed (a r : ResolutionFact) : Prop where
  accepts : a.decision = .accepted
  rejects : r.decision = .rejected
  authors : a.agentId ≠ r.agentId ∨ a.agentId = [] ∨ r.agentId = []

/-- There is an opposed pair. -/
def Conflicting (rs : List ResolutionFact) : Prop := ∃ a ∈ rs, ∃ r ∈ rs, Opposed a r

/-- The author is one of an opposed pair. -/
def TakesPart (rs : List ResolutionFact) (author : PyStr) : Prop :=
  ∃ a ∈ rs, ∃ r ∈ rs, Opposed a r ∧ (author = a.agentId ∨ author = r.agentId)

/-- The known authors of a decision. -/
def knownAuthors (d : ResolutionDecision) (rs : List ResolutionFact) : List PyStr :=
  ((rs.filter fun r => r.decision = d).map ResolutionFact.agentId).filter (· ≠ [])

/-- Two known authors are opposed. -/
def KnownConflict (rs : List ResolutionFact) : Prop :=
  ∃ a ∈ knownAuthors .accepted rs, ∃ b ∈ knownAuthors .rejected rs, a ≠ b

/-- An acceptance or a rejection is of nobody known. -/
def UnknownAuthor (rs : List ResolutionFact) : Prop :=
  ∃ r ∈ rs, (r.decision = .accepted ∨ r.decision = .rejected) ∧ r.agentId = []

/-- There is an acceptance and a rejection. -/
def BothWays (rs : List ResolutionFact) : Prop :=
  (∃ a ∈ rs, a.decision = .accepted) ∧ ∃ r ∈ rs, r.decision = .rejected

theorem mem_knownAuthors {d : ResolutionDecision} {rs : List ResolutionFact} {author : PyStr} :
    author ∈ knownAuthors d rs ↔ author ≠ [] ∧ ∃ r ∈ rs, r.decision = d ∧ r.agentId = author := by
  unfold knownAuthors
  rw [List.mem_filter, List.mem_map, decide_eq_true_eq, and_comm]
  refine and_congr_right fun _ => exists_congr fun r => ?_
  rw [List.mem_filter, decide_eq_true_eq, and_assoc]

theorem filter_decision_eq_nil {d : ResolutionDecision} {rs : List ResolutionFact} :
    (rs.filter fun r => r.decision = d) = [] ↔ ¬∃ r ∈ rs, r.decision = d := by
  rw [List.filter_eq_nil_iff]
  constructor
  · rintro h ⟨r, hr, hd⟩
    exact h r hr (decide_eq_true hd)
  · intro h r hr hd
    exact h ⟨r, hr, of_decide_eq_true hd⟩

theorem KnownConflict.bothWays {rs : List ResolutionFact} (h : KnownConflict rs) : BothWays rs := by
  obtain ⟨a, ha, b, hb, -⟩ := h
  obtain ⟨-, r, hr, hdr, -⟩ := mem_knownAuthors.mp ha
  obtain ⟨-, q, hq, hdq, -⟩ := mem_knownAuthors.mp hb
  exact ⟨⟨r, hr, hdr⟩, ⟨q, hq, hdq⟩⟩

/-- **The branches of `detect_conflict`.** -/
theorem detectConflict_cases (rs : List ResolutionFact) :
    (KnownConflict rs ∧ detectConflict rs
        = (true, sortedSet (knownAuthors .accepted rs ++ knownAuthors .rejected rs))) ∨
      (¬KnownConflict rs ∧ (BothWays rs ∧ UnknownAuthor rs) ∧ detectConflict rs
        = (true, sortedSet (knownAuthors .accepted rs ++ knownAuthors .rejected rs ++ [[]]))) ∨
      (¬KnownConflict rs ∧ ¬(BothWays rs ∧ UnknownAuthor rs) ∧ detectConflict rs = (false, [])) := by
  have hknown : ((knownAuthors .accepted rs).any fun a =>
      (knownAuthors .rejected rs).any fun b => a ≠ b) = true ↔ KnownConflict rs := by
    simp [KnownConflict]
  have hunknown : (((rs.filter fun r => r.decision = .accepted).any fun r => r.agentId = []) ||
      (rs.filter fun r => r.decision = .rejected).any fun r => r.agentId = []) = true ↔
        UnknownAuthor rs := by
    rw [Bool.or_eq_true, List.any_eq_true, List.any_eq_true, UnknownAuthor]
    constructor
    · rintro (⟨r, hr, hnone⟩ | ⟨r, hr, hnone⟩)
      · obtain ⟨hmem, hd⟩ := List.mem_filter.mp hr
        exact ⟨r, hmem, Or.inl (of_decide_eq_true hd), of_decide_eq_true hnone⟩
      · obtain ⟨hmem, hd⟩ := List.mem_filter.mp hr
        exact ⟨r, hmem, Or.inr (of_decide_eq_true hd), of_decide_eq_true hnone⟩
    · rintro ⟨r, hr, hd | hd, hnone⟩
      · exact Or.inl ⟨r, List.mem_filter.mpr ⟨hr, decide_eq_true hd⟩, decide_eq_true hnone⟩
      · exact Or.inr ⟨r, List.mem_filter.mpr ⟨hr, decide_eq_true hd⟩, decide_eq_true hnone⟩
  unfold detectConflict
  dsimp only
  by_cases hboth : BothWays rs
  · have hne : ¬((rs.filter fun r => r.decision = .accepted) = [] ∨
        (rs.filter fun r => r.decision = .rejected) = []) := by
      rw [filter_decision_eq_nil, filter_decision_eq_nil, not_or, not_not, not_not]
      exact hboth
    rw [if_neg hne]
    by_cases hk : KnownConflict rs
    · -- two known authors that differ
      exact Or.inl ⟨hk, if_pos (hknown.mpr hk)⟩
    · -- one author at most: an unknown one may be another
      have hnone := mt hknown.mp hk
      by_cases hu : UnknownAuthor rs
      · exact Or.inr (Or.inl ⟨hk, ⟨hboth, hu⟩, (if_neg hnone).trans (if_pos (hunknown.mpr hu))⟩)
      · exact Or.inr (Or.inr ⟨hk, fun h => hu h.2,
          (if_neg hnone).trans (if_neg (mt hunknown.mp hu))⟩)
  · -- nobody disagrees
    have hempty : (rs.filter fun r => r.decision = .accepted) = [] ∨
        (rs.filter fun r => r.decision = .rejected) = [] := by
      rw [filter_decision_eq_nil, filter_decision_eq_nil]
      exact not_and_or.mp hboth
    rw [if_pos hempty]
    exact Or.inr (Or.inr ⟨fun h => hboth h.bothWays, fun h => hboth h.1, rfl⟩)

/-- **There is a conflict iff a pair is opposed.** -/
theorem conflict_iff (rs : List ResolutionFact) :
    (detectConflict rs).1 = true ↔ Conflicting rs := by
  have hpairs : KnownConflict rs ∨ (BothWays rs ∧ UnknownAuthor rs) ↔ Conflicting rs := by
    constructor
    · rintro (⟨a, ha, b, hb, hne⟩ | ⟨⟨⟨a, ha, hda⟩, ⟨r, hr, hdr⟩⟩, q, hq, hd | hd, hnone⟩)
      · obtain ⟨-, x, hx, hdx, rfl⟩ := mem_knownAuthors.mp ha
        obtain ⟨-, y, hy, hdy, rfl⟩ := mem_knownAuthors.mp hb
        exact ⟨x, hx, y, hy, hdx, hdy, Or.inl hne⟩
      · exact ⟨q, hq, r, hr, hd, hdr, Or.inr (Or.inl hnone)⟩
      · exact ⟨a, ha, q, hq, hda, hd, Or.inr (Or.inr hnone)⟩
    · rintro ⟨a, ha, r, hr, hda, hdr, hauthors⟩
      have hboth : BothWays rs := ⟨⟨a, ha, hda⟩, ⟨r, hr, hdr⟩⟩
      by_cases hna : a.agentId = []
      · exact Or.inr ⟨hboth, a, ha, Or.inl hda, hna⟩
      · by_cases hnr : r.agentId = []
        · exact Or.inr ⟨hboth, r, hr, Or.inr hdr, hnr⟩
        · have hne : a.agentId ≠ r.agentId := by
            rcases hauthors with h | h | h
            · exact h
            · exact absurd h hna
            · exact absurd h hnr
          exact Or.inl ⟨a.agentId, mem_knownAuthors.mpr ⟨hna, a, ha, hda, rfl⟩,
            r.agentId, mem_knownAuthors.mpr ⟨hnr, r, hr, hdr, rfl⟩, hne⟩
  rw [← hpairs]
  rcases detectConflict_cases rs with ⟨hk, heq⟩ | ⟨-, hu, heq⟩ | ⟨hk, hu, heq⟩
  · rw [heq]
    exact iff_of_true rfl (Or.inl hk)
  · rw [heq]
    exact iff_of_true rfl (Or.inr hu)
  · rw [heq]
    exact iff_of_false Bool.false_ne_true (not_or.mpr ⟨hk, hu⟩)

/-- A conflict stays one when facts are appended. -/
theorem Conflicting.append {rs : List ResolutionFact} (h : Conflicting rs)
    (more : List ResolutionFact) : Conflicting (rs ++ more) := by
  obtain ⟨a, ha, r, hr, hopp⟩ := h
  exact ⟨a, List.mem_append_left more ha, r, List.mem_append_left more hr, hopp⟩

/-! ### The order of the facts -/

/-- `sorted(set(...))` is of the members alone. -/
theorem sortedSet_congr {xs ys : List PyStr} (h : ∀ a, a ∈ xs ↔ a ∈ ys) :
    sortedSet xs = sortedSet ys := by
  have hdedup : xs.dedup.Perm ys.dedup := by
    rw [List.perm_ext_iff_of_nodup (List.nodup_dedup xs) (List.nodup_dedup ys)]
    intro a
    rw [List.mem_dedup, List.mem_dedup, h]
  have hperm : (sortedSet xs).Perm (sortedSet ys) :=
    (List.perm_insertionSort _ _).trans (hdedup.trans (List.perm_insertionSort _ _).symm)
  exact hperm.eq_of_pairwise' (List.pairwise_insertionSort _ _) (List.pairwise_insertionSort _ _)

theorem mem_sortedSet {xs : List PyStr} {a : PyStr} : a ∈ sortedSet xs ↔ a ∈ xs := by
  rw [sortedSet, List.mem_insertionSort, List.mem_dedup]

theorem mem_knownAuthors_perm {rs rs' : List ResolutionFact} (h : rs.Perm rs')
    (d : ResolutionDecision) (author : PyStr) :
    author ∈ knownAuthors d rs ↔ author ∈ knownAuthors d rs' := by
  rw [mem_knownAuthors, mem_knownAuthors]
  refine and_congr_right fun _ => exists_congr fun r => ?_
  rw [h.mem_iff]

/-- **The order of the facts is nothing to the answer.** -/
theorem detectConflict_perm {rs rs' : List ResolutionFact} (h : rs.Perm rs') :
    detectConflict rs' = detectConflict rs := by
  have hmem := mem_knownAuthors_perm h
  have hknown : KnownConflict rs ↔ KnownConflict rs' := by
    simp only [KnownConflict, hmem]
  have hunknown : BothWays rs ∧ UnknownAuthor rs ↔ BothWays rs' ∧ UnknownAuthor rs' := by
    simp only [BothWays, UnknownAuthor, h.mem_iff]
  rcases detectConflict_cases rs with ⟨hk, heq⟩ | ⟨hk, hu, heq⟩ | ⟨hk, hu, heq⟩
  all_goals rcases detectConflict_cases rs' with ⟨hk', heq'⟩ | ⟨hk', hu', heq'⟩ | ⟨hk', hu', heq'⟩
  · rw [heq, heq']
    refine congrArg (Prod.mk true) (sortedSet_congr fun a => ?_)
    simp only [List.mem_append, hmem]
  · exact absurd (hknown.mp hk) hk'
  · exact absurd (hknown.mp hk) hk'
  · exact absurd (hknown.mpr hk') hk
  · rw [heq, heq']
    refine congrArg (Prod.mk true) (sortedSet_congr fun a => ?_)
    simp only [List.mem_append, hmem]
  · exact absurd (hunknown.mp hu) hu'
  · exact absurd (hknown.mpr hk') hk
  · exact absurd (hunknown.mpr hu') hu
  · rw [heq, heq']

/-! ### The parties -/

/-- An unknown author beside two known ones that are opposed: the branch of the known leaves
it out. -/
def MaskedUnknown (rs : List ResolutionFact) : Prop := KnownConflict rs ∧ UnknownAuthor rs

/-- A known author of an acceptance or a rejection takes part in every conflict. -/
theorem takesPart_of_known {rs : List ResolutionFact} (h : Conflicting rs) {author : PyStr}
    (hauthor : author ∈ knownAuthors .accepted rs ++ knownAuthors .rejected rs) :
    TakesPart rs author := by
  obtain ⟨a, ha, r, hr, hopp⟩ := h
  rcases List.mem_append.mp hauthor with hmem | hmem
  · obtain ⟨hne, x, hx, hdx, rfl⟩ := mem_knownAuthors.mp hmem
    -- the rejection of the pair opposes this author, or is its own
    by_cases heq : x.agentId = r.agentId
    · exact ⟨a, ha, r, hr, hopp, Or.inr heq⟩
    · exact ⟨x, hx, r, hr, ⟨hdx, hopp.rejects, Or.inl heq⟩, Or.inl rfl⟩
  · obtain ⟨hne, y, hy, hdy, rfl⟩ := mem_knownAuthors.mp hmem
    by_cases heq : y.agentId = a.agentId
    · exact ⟨a, ha, r, hr, hopp, Or.inl heq⟩
    · exact ⟨a, ha, y, hy, ⟨hopp.accepts, hdy, Or.inl (Ne.symm heq)⟩, Or.inr rfl⟩

/-- The unknown author takes part in every conflict it has an acceptance or a rejection in. -/
theorem takesPart_unknown {rs : List ResolutionFact} (h : Conflicting rs)
    (hunknown : UnknownAuthor rs) : TakesPart rs [] := by
  obtain ⟨a, ha, r, hr, hopp⟩ := h
  obtain ⟨q, hq, hd | hd, hnone⟩ := hunknown
  · exact ⟨q, hq, r, hr, ⟨hd, hopp.rejects, Or.inr (Or.inl hnone)⟩, Or.inl hnone.symm⟩
  · exact ⟨a, ha, q, hq, ⟨hopp.accepts, hd, Or.inr (Or.inr hnone)⟩, Or.inr hnone.symm⟩

/-- Who takes part is a known author, or the unknown one. -/
theorem TakesPart.known_or_unknown {rs : List ResolutionFact} {author : PyStr}
    (h : TakesPart rs author) :
    author ∈ knownAuthors .accepted rs ++ knownAuthors .rejected rs ∨
      (author = [] ∧ UnknownAuthor rs) := by
  obtain ⟨a, ha, r, hr, hopp, rfl | rfl⟩ := h
  · by_cases hnone : a.agentId = []
    · exact Or.inr ⟨hnone, a, ha, Or.inl hopp.accepts, hnone⟩
    · exact Or.inl (List.mem_append_left _ (mem_knownAuthors.mpr ⟨hnone, a, ha, hopp.accepts, rfl⟩))
  · by_cases hnone : r.agentId = []
    · exact Or.inr ⟨hnone, r, hr, Or.inr hopp.rejects, hnone⟩
    · exact Or.inl (List.mem_append_right _ (mem_knownAuthors.mpr ⟨hnone, r, hr, hopp.rejects, rfl⟩))

theorem TakesPart.conflicting {rs : List ResolutionFact} {author : PyStr}
    (h : TakesPart rs author) : Conflicting rs := by
  obtain ⟨a, ha, r, hr, hopp, -⟩ := h
  exact ⟨a, ha, r, hr, hopp⟩

/-- **The parties are those that take part iff no unknown author is masked.** -/
theorem parties_iff (rs : List ResolutionFact) :
    (∀ author, author ∈ (detectConflict rs).2 ↔ TakesPart rs author) ↔ ¬MaskedUnknown rs := by
  have hconflict := conflict_iff rs
  rcases detectConflict_cases rs with ⟨hk, heq⟩ | ⟨hk, ⟨hboth, hu⟩, heq⟩ | ⟨hk, hu, heq⟩
  · rw [heq] at hconflict ⊢
    have hopp : Conflicting rs := hconflict.mp rfl
    constructor
    · rintro h ⟨-, hu⟩
      -- the unknown author takes part, and no known author is unknown
      have hmem := mem_sortedSet.mp ((h []).mpr (takesPart_unknown hopp hu))
      rcases List.mem_append.mp hmem with hmem | hmem
      · exact (mem_knownAuthors.mp hmem).1 rfl
      · exact (mem_knownAuthors.mp hmem).1 rfl
    · intro hmasked author
      rw [mem_sortedSet]
      refine ⟨takesPart_of_known hopp, fun h => ?_⟩
      rcases h.known_or_unknown with h | ⟨-, hu⟩
      · exact h
      · exact absurd ⟨hk, hu⟩ hmasked
  · rw [heq] at hconflict ⊢
    have hopp : Conflicting rs := hconflict.mp rfl
    refine iff_of_true (fun author => ?_) fun h => hk h.1
    rw [mem_sortedSet, List.mem_append, List.mem_singleton]
    constructor
    · rintro (h | rfl)
      · exact takesPart_of_known hopp h
      · exact takesPart_unknown hopp hu
    · intro h
      exact h.known_or_unknown.imp_right And.left
  · rw [heq] at hconflict ⊢
    refine iff_of_true (fun author => iff_of_false List.not_mem_nil fun h => ?_) fun h => hk h.1
    exact Bool.false_ne_true (hconflict.mpr h.conflicting)

/-- **A conflict is between authorities**: the answer is that of the opposed pairs, whatever the
order of the facts, and it does not disappear. -/
structure BetweenAuthorities (rs : List ResolutionFact) : Prop where
  conflict : (detectConflict rs).1 = true ↔ Conflicting rs
  parties : ∀ author, author ∈ (detectConflict rs).2 ↔ TakesPart rs author
  perm : ∀ rs', rs.Perm rs' → detectConflict rs' = detectConflict rs
  append : ∀ more, (detectConflict rs).1 = true → (detectConflict (rs ++ more)).1 = true

/-- **It is, iff no unknown author is masked.** -/
theorem betweenAuthorities_iff (rs : List ResolutionFact) :
    BetweenAuthorities rs ↔ ¬MaskedUnknown rs := by
  constructor
  · intro h
    exact (parties_iff rs).mp h.parties
  · intro h
    refine ⟨conflict_iff rs, (parties_iff rs).mpr h, fun _ => detectConflict_perm, ?_⟩
    intro more hconflict
    rw [conflict_iff] at hconflict ⊢
    exact hconflict.append more

/-! ### The claims of a subject -/

namespace Projections

variable {F : Type}

/-- A claim with its derived standing. -/
structure ClaimStanding where
  claimId : PyStr
  mode : ConsultationMode
  standing : Standing
  conflict : Bool
  agentId : PyStr
  carrier : PyStr

/-- The coherence of the claims gathered. -/
inductive Coherence
  | aligned
  | divergent
  | unsettled
  deriving DecidableEq

/-- A standing of `("accepted", "rejected")`. -/
def Standing.governed (standing : Standing) : Bool :=
  standing = .decided .accepted ∨ standing = .decided .rejected

/-- `detect_coherence`. -/
def detectCoherence (claims : List ClaimStanding) : Coherence × List PyStr :=
  let governed := claims.filter fun c => Standing.governed c.standing
  if governed = [] then (.unsettled, [])
  else if (governed.any fun c => c.standing = .decided .accepted) &&
      governed.any fun c => c.standing = .decided .rejected then
    (.divergent, (governed.map ClaimStanding.claimId).insertionSort (· ≤ ·))
  else (.aligned, [])

/-- `derive_object_standing`.  Where the claims are aligned they share one decision, and any
member of their set is it. -/
def deriveObjectStanding (claims : List ClaimStanding) (coherence : Coherence) : Standing :=
  if claims.any ClaimStanding.conflict then .contested
  else
    match coherence with
    | .divergent => .contested
    | .aligned =>
      (((claims.map ClaimStanding.standing).filter Standing.governed).head?).getD .proposed
    | .unsettled => .proposed

/-- The view of a subject. -/
structure SubjectStandingsView where
  subjectId : PyStr
  claims : List ClaimStanding
  coherence : Coherence
  divergentClaims : List PyStr
  objectStanding : Standing

/-- The loop of `standings_of_subject`: one claim for each id that is new, in the order of the
consultations. -/
def gather (standing : PyStr → Except CommitError StandingView) :
    List PyStr → List (ConsultationView F) → Except CommitError (List ClaimStanding)
  | _, [] => .ok []
  | seen, v :: vs =>
    if v.claimId = [] ∨ v.claimId ∈ seen then gather standing seen vs
    else
      match standing v.claimId with
      | .error err => .error err
      | .ok sv =>
        (gather standing (v.claimId :: seen) vs).map fun claims =>
          { claimId := v.claimId
            mode := v.mode
            standing := sv.standing
            conflict := sv.conflict
            agentId := v.agentId
            carrier := v.carrier } :: claims

/-- The view of claims that are gathered. -/
def subjectView (subjectId : PyStr) (claims : List ClaimStanding) : SubjectStandingsView where
  subjectId := subjectId
  claims := claims
  coherence := (detectCoherence claims).1
  divergentClaims := (detectCoherence claims).2
  objectStanding := deriveObjectStanding claims (detectCoherence claims).1

/-- `standings_of_subject`, of the consultations on the subject. -/
def standingsOfSubject (standing : PyStr → Except CommitError StandingView) (subjectId : PyStr)
    (consults : List (ConsultationView F)) : Except CommitError SubjectStandingsView :=
  (gather standing [] consults).map (subjectView subjectId)

/-! ### The posture -/

/-- The posture of a claim or of a subject. -/
inductive Governance
  | clear
  | contested
  | divergent
  deriving DecidableEq

/-- `derive_governance_state`, of one claim. -/
def deriveGovernanceState (conflict : Bool) : Governance := if conflict then .contested else .clear

/-- `derive_subject_governance_state`. -/
def deriveSubjectGovernanceState (coherence : Coherence) (claimConflicts : List Bool) :
    Governance :=
  if coherence = .divergent then .divergent
  else if claimConflicts.any id then .contested
  else .clear

/-- The posture of a subject. -/
structure SubjectGovernance where
  subjectId : PyStr
  governance : Governance
  coherence : Coherence
  contestedClaims : List PyStr

/-- `governance_from_view`. -/
def governanceFromView (sv : SubjectStandingsView) : SubjectGovernance where
  subjectId := sv.subjectId
  governance := deriveSubjectGovernanceState sv.coherence (sv.claims.map ClaimStanding.conflict)
  coherence := sv.coherence
  contestedClaims := (sv.claims.filter ClaimStanding.conflict).map ClaimStanding.claimId

/-- **A conflict propagates**: above the claims nothing reads as decided or clear. -/
structure Propagates (claims : List ClaimStanding) (coherence : Coherence) : Prop where
  object : deriveObjectStanding claims coherence ≠ .decided .accepted ∧
    deriveObjectStanding claims coherence ≠ .decided .rejected
  governance : deriveSubjectGovernanceState coherence (claims.map ClaimStanding.conflict) ≠ .clear

/-- A claim in conflict propagates, whatever the coherence. -/
theorem propagates_of_conflict {claims : List ClaimStanding} {c : ClaimStanding} (hc : c ∈ claims)
    (hconflict : c.conflict = true) (coherence : Coherence) : Propagates claims coherence := by
  have hany : claims.any ClaimStanding.conflict = true := List.any_eq_true.mpr ⟨c, hc, hconflict⟩
  have hcontested : deriveObjectStanding claims coherence = .contested := by
    unfold deriveObjectStanding
    exact if_pos hany
  refine ⟨?_, ?_⟩
  · rw [hcontested]
    exact ⟨nofun, nofun⟩
  · unfold deriveSubjectGovernanceState
    split_ifs with hdiv hsome
    · exact nofun
    · exact nofun
    · refine absurd ?_ hsome
      rw [List.any_map]
      exact hany

/-- The conflict of a standing is that of the facts. -/
theorem conflict_deriveStanding (claimId : PyStr) (rs : List ResolutionFact) :
    (deriveStanding claimId rs).conflict = (detectConflict rs).1 := by
  unfold deriveStanding
  cases hlast : rs.getLast? with
  | none =>
    obtain rfl := List.getLast?_eq_none_iff.mp hlast
    rfl
  | some last => rfl

/-- The governed standing is contested where there is a conflict. -/
theorem governedStanding_deriveStanding (claimId : PyStr) (rs : List ResolutionFact) :
    (deriveStanding claimId rs).governedStanding =
      deriveGovernedStanding (deriveStanding claimId rs).standing
        (deriveStanding claimId rs).conflict := by
  unfold deriveStanding
  cases rs.getLast? with
  | none => rfl
  | some last => rfl

/-- What is mapped succeeds where it did before. -/
theorem map_eq_ok {A B E : Type} {f : A → B} {x : Except E A} {b : B} :
    x.map f = .ok b ↔ ∃ a, x = .ok a ∧ f a = b := by
  cases x with
  | error err => simp [Except.map]
  | ok a => simp [Except.map]

/-- **Every claim of the consultations is gathered, with the conflict of its standing.** -/
theorem exists_gathered {standing : PyStr → Except CommitError StandingView} :
    ∀ {vs : List (ConsultationView F)} {seen : List PyStr} {claims : List ClaimStanding},
      gather standing seen vs = .ok claims → ∀ v ∈ vs, v.claimId ≠ [] → v.claimId ∉ seen →
        ∃ c ∈ claims, c.claimId = v.claimId ∧ ∃ sv, standing v.claimId = .ok sv ∧
          c.standing = sv.standing ∧ c.conflict = sv.conflict := by
  intro vs
  induction vs with
  | nil =>
    intro seen claims _ v hv
    cases hv
  | cons w vs ih =>
    intro seen claims h v hv hne hseen
    rw [gather] at h
    split_ifs at h with hskip
    · -- the first view is skipped, so it is not the one
      rcases List.mem_cons.mp hv with rfl | hv
      · exact absurd hskip (not_or.mpr ⟨hne, hseen⟩)
      · exact ih h v hv hne hseen
    · cases hsv : standing w.claimId with
      | error err =>
        rw [hsv] at h
        cases h
      | ok sv =>
        rw [hsv] at h
        cases hrest : gather standing (w.claimId :: seen) vs with
        | error err =>
          rw [hrest] at h
          cases h
        | ok rest =>
          rw [hrest] at h
          obtain rfl := Except.ok.inj h
          by_cases hid : v.claimId = w.claimId
          · exact ⟨_, List.mem_cons_self, hid.symm, sv, hid ▸ hsv, rfl, rfl⟩
          · have hv' : v ∈ vs := by
              rcases List.mem_cons.mp hv with rfl | hv
              · exact absurd rfl hid
              · exact hv
            obtain ⟨c, hc, hspec⟩ := ih hrest v hv' hne (by
              rw [List.mem_cons, not_or]
              exact ⟨hid, hseen⟩)
            exact ⟨c, List.mem_cons_of_mem _ hc, hspec⟩

/-- **A conflict in the facts of a claim reaches the subject.** -/
theorem conflict_carried {facts : PyStr → Except CommitError (List ResolutionFact)}
    {subjectId : PyStr} {consults : List (ConsultationView F)} {view : SubjectStandingsView}
    {v : ConsultationView F} {rs : List ResolutionFact}
    (h : standingsOfSubject (fun claimId => (facts claimId).map (deriveStanding claimId)) subjectId
      consults = .ok view)
    (hv : v ∈ consults) (hne : v.claimId ≠ []) (hfacts : facts v.claimId = .ok rs)
    (hconflict : Conflicting rs) :
    (deriveStanding v.claimId rs).governedStanding = .contested ∧
      deriveGovernanceState (deriveStanding v.claimId rs).conflict = .contested ∧
      view.objectStanding = .contested ∧ (governanceFromView view).governance ≠ .clear := by
  obtain ⟨claims, hclaims, rfl⟩ := map_eq_ok.mp h
  obtain ⟨c, hc, -, sv, hsv, -, hcsv⟩ := exists_gathered hclaims v hv hne List.not_mem_nil
  rw [hfacts] at hsv
  obtain rfl := Except.ok.inj hsv
  have hview : (deriveStanding v.claimId rs).conflict = true := by
    rw [conflict_deriveStanding, conflict_iff]
    exact hconflict
  have hgoverned : (deriveStanding v.claimId rs).governedStanding = .contested := by
    rw [governedStanding_deriveStanding, hview]
    rfl
  have hcontested : claims.any ClaimStanding.conflict = true :=
    List.any_eq_true.mpr ⟨c, hc, hcsv.trans hview⟩
  refine ⟨hgoverned, ?_, if_pos hcontested, ?_⟩
  · rw [hview]
    rfl
  · exact (propagates_of_conflict hc (hcsv.trans hview) _).governance

/-- **The conflict of a claim is between authorities iff no unknown author is masked, and it
always propagates.** -/
theorem conflict_between_authorities_iff :
    (∀ rs, BetweenAuthorities rs ↔ ¬MaskedUnknown rs) ∧
      (∀ (claims : List ClaimStanding) (coherence : Coherence), ∀ c ∈ claims,
        c.conflict = true → Propagates claims coherence) ∧
      ∀ (facts : PyStr → Except CommitError (List ResolutionFact)) (subjectId : PyStr)
        (consults : List (ConsultationView F)) (view : SubjectStandingsView),
        standingsOfSubject (fun claimId => (facts claimId).map (deriveStanding claimId)) subjectId
            consults = .ok view →
          ∀ v ∈ consults, v.claimId ≠ [] → ∀ rs, facts v.claimId = .ok rs → Conflicting rs →
            (deriveStanding v.claimId rs).governedStanding = .contested ∧
              deriveGovernanceState (deriveStanding v.claimId rs).conflict = .contested ∧
              view.objectStanding = .contested ∧ (governanceFromView view).governance ≠ .clear := by
  refine ⟨betweenAuthorities_iff, ?_, ?_⟩
  · intro claims coherence c hc hconflict
    exact propagates_of_conflict hc hconflict coherence
  · intro facts subjectId consults view h v hv hne rs hfacts hconflict
    exact conflict_carried h hv hne hfacts hconflict

/-- A fact of a decision and an author. -/
def factBy (decision : ResolutionDecision) (author : PyStr) : ResolutionFact :=
  ⟨decision, [], [], author, [], []⟩

/-- Two authors are opposed, and so is a third that is not known: it is no party. -/
theorem unknown_author_masked : ∃ rs,
    detectConflict rs = (true, [py "alice", py "bob"]) ∧ TakesPart rs [] ∧
      ¬BetweenAuthorities rs := by
  have htakes : TakesPart [factBy .accepted (py "alice"), factBy .accepted [],
      factBy .rejected (py "bob")] [] :=
    ⟨factBy .accepted [], by simp, factBy .rejected (py "bob"), by simp,
      ⟨rfl, rfl, Or.inr (Or.inl rfl)⟩, Or.inl rfl⟩
  have hdetect : detectConflict [factBy .accepted (py "alice"), factBy .accepted [],
      factBy .rejected (py "bob")] = (true, [py "alice", py "bob"]) := by decide +kernel
  refine ⟨_, hdetect, htakes, ?_⟩
  intro h
  have hmem := (h.parties []).mpr htakes
  rw [hdetect] at hmem
  exact absurd hmem (by decide)

end Projections

end Daryl
