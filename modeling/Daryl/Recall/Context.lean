import Daryl.Lib.Binary64
import Daryl.Lib.Shedding
import Daryl.Recall.Provenance

/-!
# `context.builder`: trimming to a budget

What a search recalls is sorted into sections, and items are dropped from the ends of the sections
until an estimate of the tokens is within the budget.  The estimate counts the provenance, which is
built anew from the items that are left, so an item costs more than its own tokens.

The floating-point numbers of times enter as a parameter, the one of the budget does not.

## Main definitions

* `itemTokens`, `buildUnverified`, `provenanceTokens` — what items and their provenance cost.
* `bucketMatches`, `countTokens` — the sections, and their cost.
* `hardCap` — nineteen twentieths of the budget, in doubles.
* `trimToBudget` — the trimming.
* `cost` — the estimate, spelled out.
* `TrimsJustEnough` — what is dropped, and why.

## Main results

* `hardCap_eq` — the cap is exact for budgets of less than forty-nine bits.
* `trimToBudget_spec` — **trimming drops just enough, from the sections of lowest priority first.**
-/

namespace Daryl

open Py Binary64

/-- What the builder takes from floating point: a time is positive, and lies within a day of
another; the days between two times; and the text of a number. -/
structure Ages (R : Type) where
  positive : R → Bool
  recent : R → R → Bool
  days : R → R → R
  text : R → PyStr

section

variable {F R : Type} [PyFloat F] (b : Builtins F R) (ages : Ages R)

/-! ### Tokens -/

/-- `_approx_tokens`. -/
def approxTokens (text : PyStr) : ℕ := if text = [] then 0 else max 1 (text.length / 4)

/-- `content` of a match. -/
def Item.content (m : Item F R) : PyStr := (flattenContent b m.entry.content).take 400

/-- `_item_tokens`. -/
def itemTokens (m : Item F R) : ℕ := approxTokens (m.content b) + 20

/-- The provenance block of items that are not verified, but for what is the same in all:
`integrity` is `not_verified`, `trust_level` is `partial` and `broken_chains` is `0`. -/
structure UnverifiedBlock (R : Type) where
  entryHashes : List PyStr
  sourceShards : List PyStr
  verificationHint : Option PyStr
  recordCount : ℕ
  oldestEntryAgeDays : Option R

/-- `_default_hint`, when nothing is verified. -/
def defaultHint : List PyStr → PyStr
  | [] => py "dsm verify <shard_id>"
  | [first] => py "dsm verify " ++ first
  | first :: rest =>
    py "dsm verify " ++ first ++ py "  # + " ++ natStr rest.length ++ py " more shard(s)"

/-- The greatest age of the items that have a time. -/
def oldestAge [LinearOrder R] (now : R) (items : List (Item F R)) : Option R :=
  items.foldl (fun oldest m =>
    if !ages.positive m.time then oldest
    else
      let age := ages.days m.time now
      match oldest with
      | none => some age
      | some old => if old < age then some age else oldest) none

variable [LinearOrder R]

/-- `build_provenance` with `verify=False`. -/
def buildUnverified (now : R) (items : List (Item F R)) : UnverifiedBlock R :=
  if items.isEmpty then ⟨[], [], none, 0, none⟩
  else
    let shards := sourceShards b items
    { entryHashes := dedupePreserveOrder
        ((items.filter fun m => m.entry.hash.truthy).map fun m => b.strOf m.entry.hash)
      sourceShards := shards
      verificationHint := some (defaultHint shards)
      recordCount := items.length
      oldestEntryAgeDays := oldestAge ages now items }

/-- `str(None)`. -/
def noneText : PyStr := py "None"

omit [LinearOrder R] in
/-- `_provenance_tokens`. -/
def provenanceTokens (prov : UnverifiedBlock R) : ℕ :=
  (prov.entryHashes.map approxTokens).sum + (prov.sourceShards.map approxTokens).sum
    + approxTokens (py "not_verified") + approxTokens (prov.verificationHint.getD noneText)
    + approxTokens (natStr prov.recordCount) + approxTokens (py "partial") + approxTokens (natStr 0)
    + approxTokens ((prov.oldestEntryAgeDays.map ages.text).getD noneText) + 30

/-! ### Sections -/

/-- The sections, by their names. -/
abbrev Sections (F R : Type) := List (PyStr × List (Item F R))

omit [LinearOrder R] in
/-- `is_unreliable`. -/
def TimeStatus.isUnreliable : TimeStatus → Bool
  | stillRelevant => false
  | superseded => true
  | outdated => true

omit [LinearOrder R] in
/-- `_bucket_matches`. -/
def bucketMatches (result : SearchResult F R) (now : R) : Sections F R :=
  let reliable := result.pastMatches.filter fun m => !m.timeStatus.isUnreliable
  let recent (m : Item F R) := ages.positive m.time && ages.recent m.time now
  [(py "verified_facts", result.verifiedClaims.map VerifiedClaim.item),
    (py "working_state", result.currentMatches.filter fun m => !m.timeStatus.isUnreliable),
    (py "recent_relevant_events", reliable.filter recent),
    (py "past_session_recall", reliable.filter fun m => !recent m),
    (py "uncertain_or_superseded", (result.currentMatches ++ result.pastMatches).filter fun m =>
      m.timeStatus.isUnreliable)]

/-- `_TRIM_PRIORITY`. -/
def trimPriorities : List (PyStr × ℕ) :=
  [(py "uncertain_or_superseded", 5), (py "past_session_recall", 4),
    (py "recent_relevant_events", 3), (py "working_state", 2), (py "verified_facts", 1),
    (py "provenance", 0)]

/-- `_TRIM_PRIORITY.get(k, 99)`. -/
def trimPriority (k : PyStr) : ℕ := (Dict.get k trimPriorities).getD 99

omit [LinearOrder R] in
/-- `_count_tokens`. -/
def countTokens (sections : Sections F R) (prov : Option (UnverifiedBlock R)) : ℕ :=
  (sections.map fun s => 15 + (s.2.map (itemTokens b)).sum).sum
    + (prov.map (provenanceTokens ages)).getD 0

/-- `current_prov`: the provenance of the items that are there. -/
def currentProv (includeProvenance : Bool) (now : R) (sections : Sections F R) :
    Option (UnverifiedBlock R) :=
  if includeProvenance then some (buildUnverified b ages now (sections.flatMap Prod.snd)) else none

/-! ### Trimming -/

omit [LinearOrder R] in
/-- `max(0, int(max_tokens * 0.95))`; `none` is the `OverflowError` of an integer that is no
double. -/
def hardCap (maxTokens : ℤ) : Option ℕ :=
  if 2 ^ 1024 ≤ binary64 |maxTokens| then none
  else if maxTokens ≤ 0 then some 0
  else some ⌊binary64 (binary64 maxTokens * binary64 (95 / 100))⌋.toNat

/-- `drop_order`. -/
def dropOrder (names : List PyStr) : List PyStr :=
  StableSort.sortBy (fun k => OrderDual.toDual (trimPriority k)) names

/-- What `_trim_to_budget` returns. -/
structure Trimmed (F R : Type) where
  sections : Sections F R
  provenance : Option (UnverifiedBlock R)
  tokenEstimate : ℕ
  wasTrimmed : Bool

/-- `_trim_to_budget`. -/
def trimToBudget (sections : Sections F R) (includeProvenance : Bool) (maxTokens : ℤ) (now : R) :
    Option (Trimmed F R) :=
  (hardCap maxTokens).map fun cap =>
    let fits := fun s => decide (countTokens b ages s (currentProv b ages includeProvenance now s) ≤ cap)
    let st := Shedding.shed fits (dropOrder (Dict.keys sections)) (sections, false)
    let prov := currentProv b ages includeProvenance now st.1
    ⟨st.1, prov, countTokens b ages st.1 prov, st.2⟩

/-- The names of the sections. -/
def sectionNames : List PyStr :=
  [py "verified_facts", py "working_state", py "recent_relevant_events", py "past_session_recall",
    py "uncertain_or_superseded"]

/-- What sections and their provenance cost: fifteen for a section, twenty and a quarter of its text
for an item, and thirty and a quarter of every text of the provenance that is built of the items. -/
def cost (includeProvenance : Bool) (now : R) (sections : Sections F R) : ℕ :=
  let items := sections.flatMap Prod.snd
  let prov := buildUnverified b ages now items
  15 * sections.length + (items.map fun m => approxTokens (m.content b) + 20).sum +
    if includeProvenance then
      ((prov.entryHashes ++ prov.sourceShards ++
        [py "not_verified", prov.verificationHint.getD (py "None"), natStr prov.recordCount,
          py "partial", py "0", (prov.oldestEntryAgeDays.map ages.text).getD (py "None")]).map
        approxTokens).sum + 30
    else 0

omit [LinearOrder R] in
/-- Fifteen for a section, and for its items. -/
theorem countTokens_none (sections : Sections F R) : countTokens b ages sections none =
    15 * sections.length + ((sections.flatMap Prod.snd).map fun m =>
      approxTokens (m.content b) + 20).sum := by
  have hitems : (itemTokens b : Item F R → ℕ) = fun m => approxTokens (m.content b) + 20 := rfl
  unfold countTokens
  rw [Option.map_none, Option.getD_none, Nat.add_zero, hitems]
  induction sections with
  | nil => rfl
  | cons s sections ih =>
    rw [List.map_cons, List.sum_cons, ih, List.length_cons, List.flatMap_cons, List.map_append,
      List.sum_append]
    ring

/-- **The code counts the cost.** -/
theorem countTokens_eq (includeProvenance : Bool) (now : R) (sections : Sections F R) :
    countTokens b ages sections (currentProv b ages includeProvenance now sections)
      = cost b ages includeProvenance now sections := by
  have hsections : ∀ prov, countTokens b ages sections prov =
      countTokens b ages sections none + (prov.map (provenanceTokens ages)).getD 0 := fun _ => rfl
  have hzero : natStr 0 = py "0" := rfl
  rw [hsections, countTokens_none]
  unfold currentProv cost
  cases includeProvenance with
  | false => rfl
  | true =>
    simp only [if_true, Option.map_some, Option.getD_some, provenanceTokens, noneText, hzero,
      List.map_append, List.sum_append, List.map_cons, List.map_nil, List.sum_cons, List.sum_nil]
    ring

/-- **Trimming drops just enough, from the sections of lowest priority first**: the larger the
number, the lower the priority. -/
structure TrimsJustEnough (includeProvenance : Bool) (now : R) (cap : ℕ) (sections : Sections F R)
    (out : Trimmed F R) : Prop where
  /-- The provenance is that of the items that are left. -/
  provenance : out.provenance = if includeProvenance then
    some (buildUnverified b ages now (out.sections.flatMap Prod.snd)) else none
  /-- The estimate is what the sections and the provenance cost. -/
  estimate : out.tokenEstimate = cost b ages includeProvenance now out.sections
  /-- Something was dropped if the code says so. -/
  trimmed : out.wasTrimmed = true ↔
    ∃ k ∈ sectionNames, Shedding.items k out.sections ≠ Shedding.items k sections
  /-- The cap is kept, or nothing is left. -/
  budget : out.tokenEstimate ≤ cap ∨ ∀ k ∈ sectionNames, Shedding.items k out.sections = []
  isPrefix : ∀ k ∈ sectionNames, Shedding.items k out.sections <+: Shedding.items k sections
  /-- A section loses items when those of lower priority are empty. -/
  priority : ∀ k ∈ sectionNames, ∀ l ∈ sectionNames, trimPriority l < trimPriority k →
    Shedding.items l out.sections ≠ Shedding.items l sections → Shedding.items k out.sections = []
  /-- The item that was dropped last, put back, exceeds the cap. -/
  last : (∃ k ∈ sectionNames, Shedding.items k out.sections ≠ Shedding.items k sections) →
    ∃ k ∈ sectionNames, ∃ m,
      Shedding.items k out.sections ++ [m] <+: Shedding.items k sections ∧
      (∀ l ∈ sectionNames, trimPriority l < trimPriority k →
        Shedding.items l out.sections = Shedding.items l sections) ∧
      let back := Dict.set k (Shedding.items k out.sections ++ [m]) out.sections
      cap < cost b ages includeProvenance now back

end

/-! ### The cap -/

/-- The double nearest to nineteen twentieths. -/
theorem binary64_nineteenTwentieths : binary64 (95 / 100) = 8556839292003942 / 2 ^ 53 := by
  have hplace : lastPlace (95 / 100) = -1 - 52 :=
    lastPlace_of_binade (by norm_num) (by norm_num) (by norm_num)
  have hfloor : ⌊(95 / 100 : ℚ) / 2 ^ (-1 - 52 : ℤ)⌋ = 8556839292003942 := by
    rw [Int.floor_eq_iff]
    norm_num
  rw [binary64, hplace, roundHalfEven, hfloor, if_pos (by norm_num)]
  norm_num

/-- **The cap is exact** for budgets of less than forty-nine bits. -/
theorem hardCap_eq {n : ℕ} (h : n < 2 ^ 49) : hardCap n = some (19 * n / 20) := by
  have hn : binary64 n = n := binary64_natCast (h.trans (by norm_num))
  have hsmall : (n : ℚ) < 2 ^ 49 := by exact_mod_cast h
  have habs : |((n : ℤ) : ℚ)| = n := by
    rw [Int.cast_natCast]
    exact abs_of_nonneg (Nat.cast_nonneg n)
  unfold hardCap
  rw [habs, hn, if_neg (not_le.mpr (hsmall.trans (pow_lt_pow_right₀ one_lt_two (by norm_num))))]
  rcases n.eq_zero_or_pos with rfl | hpos
  · rfl
  rw [if_neg (by omega), Int.cast_natCast, hn, binary64_nineteenTwentieths]
  have hpos' : (0 : ℚ) < n := by exact_mod_cast hpos
  set q : ℚ := n * (8556839292003942 / 2 ^ 53) with hq
  have hqpos : 0 < q := by positivity
  have hqlt : q < 2 ^ 49 := by
    rw [hq]
    norm_num
    linarith
  -- the quotient, and what the product falls short of it
  have hdiv := Nat.div_add_mod (19 * n) 20
  have hmod := Nat.mod_lt (19 * n) (show 0 < 20 by norm_num)
  have hdiv' : (20 : ℚ) * (19 * n / 20 : ℕ) + (19 * n % 20 : ℕ) = 19 * n := by exact_mod_cast hdiv
  have hmod' : ((19 * n % 20 : ℕ) : ℚ) ≤ 19 := by exact_mod_cast Nat.lt_succ_iff.mp hmod
  have hmod0 : (0 : ℚ) ≤ (19 * n % 20 : ℕ) := Nat.cast_nonneg _
  generalize (19 * n / 20 : ℕ) = m at hdiv' ⊢
  generalize ((19 * n % 20 : ℕ) : ℚ) = r at hdiv' hmod' hmod0
  have hlower : (m : ℚ) ≤ binary64 q := by
    have hplace := lt_of_lastPlace (q := q)
    rw [zpow_add₀ two_ne_zero] at hplace
    have hm : ((m : ℤ) : ℚ) ≤ binary64 q := by
      refine intCast_le_binary64 hqpos (hqlt.trans (by norm_num)) ?_
      rw [Int.cast_natCast]
      norm_num at hplace ⊢
      rw [hq] at hplace ⊢
      norm_num at hplace ⊢
      linarith
    exact_mod_cast hm
  have hupper : binary64 q < m + 1 := by
    have hqm : q ≤ m + 19 / 20 := by
      rw [hq]
      norm_num
      linarith
    have hm : m < 2 ^ 49 := by
      have : (m : ℚ) < 2 ^ 49 := by linarith
      exact_mod_cast this
    obtain ⟨j, hj, hj', hlow, hhigh⟩ := exists_binade hm
    refine binary64_lt (j := j) (by omega) hqpos.le ?_ hlow ?_
    · linarith
    · have hplace : (2 : ℚ) ^ (j - 52) ≤ 2 ^ (-4 : ℤ) :=
        zpow_le_zpow_right₀ one_le_two (by omega)
      norm_num at hplace
      linarith
  congr 1
  have hfloor : ⌊binary64 q⌋ = m := by
    rw [Int.floor_eq_iff]
    exact ⟨by exact_mod_cast hlower, by exact_mod_cast hupper⟩
  rw [hfloor, Int.toNat_natCast]

/-! ### The trimming -/

section

variable {F R : Type} [PyFloat F] (b : Builtins F R) (ages : Ages R) [LinearOrder R]

omit [PyFloat F] [LinearOrder R] in
theorem dropOrder_sections (result : SearchResult F R) (now : R) :
    dropOrder (Dict.keys (bucketMatches ages result now)) = sectionNames.reverse := by
  have hkeys : Dict.keys (bucketMatches ages result now) = sectionNames := rfl
  rw [hkeys]
  decide +kernel

/-- Sections of lower priority are dropped from before the others. -/
theorem pairwise_sectionNames :
    sectionNames.reverse.Pairwise fun k l => trimPriority l < trimPriority k := by
  decide +kernel

theorem mem_post {pre post : List PyStr} {k l : PyStr}
    (h : sectionNames.reverse = pre ++ k :: post) (hl : l ∈ sectionNames)
    (hlt : trimPriority l < trimPriority k) : l ∈ post := by
  have hpairs := pairwise_sectionNames
  rw [h, List.pairwise_append] at hpairs
  rw [← List.mem_reverse, h, List.mem_append, List.mem_cons] at hl
  rcases hl with hl | rfl | hl
  · have hback := hpairs.2.2 l hl k List.mem_cons_self
    omega
  · omega
  · exact hl

/-- **Trimming drops just enough, from the sections of lowest priority first**, or the budget is no
double. -/
theorem trimToBudget_spec (result : SearchResult F R) (includeProvenance : Bool) (maxTokens : ℤ)
    (now : R) :
    hardCap maxTokens = none ∧
        trimToBudget b ages (bucketMatches ages result now) includeProvenance maxTokens now = none ∨
      ∃ cap out, hardCap maxTokens = some cap ∧
        trimToBudget b ages (bucketMatches ages result now) includeProvenance maxTokens now
          = some out ∧
        TrimsJustEnough b ages includeProvenance now cap (bucketMatches ages result now) out := by
  unfold trimToBudget
  cases hcap : hardCap maxTokens with
  | none => exact Or.inl ⟨rfl, rfl⟩
  | some cap =>
    refine Or.inr ⟨cap, _, rfl, rfl, ?_⟩
    rw [dropOrder_sections]
    generalize bucketMatches ages result now = sections
    have hnodup : sectionNames.reverse.Nodup := by decide +kernel
    have hshed := Shedding.shed_spec (fun s => decide (countTokens b ages s
      (currentProv b ages includeProvenance now s) ≤ cap)) hnodup (sections, false)
    dsimp only
    generalize Shedding.shed _ sectionNames.reverse (sections, false) = st at hshed ⊢
    refine ⟨rfl, countTokens_eq b ages includeProvenance now st.1, ?_, ?_, fun k _ => hshed.isPrefix k,
      ?_, ?_⟩
    · -- it says that it was trimmed iff a section lost an item
      rcases hshed.last with hsame | ⟨hflag, pre, k, post, hsplit, -, m, hprefix, -⟩
      · rw [hsame]
        exact iff_of_false Bool.false_ne_true fun ⟨k, _, hne⟩ => hne rfl
      · have hk : k ∈ sectionNames :=
          List.mem_reverse.mp (hsplit ▸ List.mem_append_right _ List.mem_cons_self)
        refine iff_of_true hflag ⟨k, hk, fun heq => ?_⟩
        have hlength := hprefix.length_le
        rw [heq, List.length_append, List.length_singleton] at hlength
        exact absurd hlength (Nat.not_succ_le_self _)
    · -- it fits, or nothing is left to drop
      exact hshed.fits_or_empty.imp of_decide_eq_true fun h k hk => h k (List.mem_reverse.mpr hk)
    · -- a section loses items only when those below it are empty
      intro k hk l hl hlt hne
      obtain ⟨pre, post, hsplit⟩ := List.append_of_mem (List.mem_reverse.mpr hk)
      have hpairs := hshed.inOrder
      rw [hsplit, List.pairwise_append] at hpairs
      exact (List.pairwise_cons.mp hpairs.2.1).1 l (mem_post hsplit hl hlt) hne
    · -- with the last item that was dropped it did not fit
      rintro ⟨l, -, hne⟩
      rcases hshed.last with hsame | ⟨-, pre, k, post, hsplit, hpost, m, hprefix, hout⟩
      · rw [hsame] at hne
        exact absurd rfl hne
      · have hk : k ∈ sectionNames :=
          List.mem_reverse.mp (hsplit ▸ List.mem_append_right _ List.mem_cons_self)
        refine ⟨k, hk, m, hprefix, fun l hl hlt => hpost l (mem_post hsplit hl hlt), ?_⟩
        have hexceeds := not_le.mp (of_decide_eq_false hout)
        rw [countTokens_eq] at hexceeds
        exact hexceeds

end

/-! ### An item that is dropped -/

/-- Times that are numbers of days, none of them positive. -/
def sampleAges : Ages ℕ := ⟨fun _ => false, fun _ _ => false, fun _ _ => 0, natStr⟩

/-- An item for the samples. -/
def recalledItem : Item FloatLit ℕ :=
  ⟨py "default", sampleEntry (py "deploy") (.dict []), historicalDecision, [], 0, 0, .stillRelevant⟩

/-- One match of the current session, and one of an earlier one. -/
def sampleResult : SearchResult FloatLit ℕ :=
  ⟨[recalledItem], [recalledItem], ⟨[], [], .notVerified, 0, .isPartial, 0, [], []⟩, []⟩

/-- What fits into 152 tokens. -/
def sampleFits (sections : Sections FloatLit ℕ) : Bool :=
  decide (countTokens sampleBuiltins sampleAges sections
    (currentProv sampleBuiltins sampleAges true 0 sections) ≤ 152)

/-- The loop drops the item of the earlier session, and ends. -/
theorem shed_sample :
    Shedding.shed sampleFits sectionNames.reverse (bucketMatches sampleAges sampleResult 0, false)
      = (Shedding.pop (py "past_session_recall") (bucketMatches sampleAges sampleResult 0), true) := by
  have hnames : sectionNames.reverse
      = py "uncertain_or_superseded" :: py "past_session_recall" ::
        [py "recent_relevant_events", py "working_state", py "verified_facts"] := rfl
  have hover : ¬sampleFits (bucketMatches sampleAges sampleResult 0) = true := by decide +kernel
  have hfits : sampleFits
      (Shedding.pop (py "past_session_recall") (bucketMatches sampleAges sampleResult 0)) = true := by
    decide +kernel
  have hnone : Shedding.drain sampleFits (py "uncertain_or_superseded")
      (bucketMatches sampleAges sampleResult 0, false)
        = (bucketMatches sampleAges sampleResult 0, false) := by
    rw [Shedding.drain, if_neg hover, if_pos (by decide +kernel)]
  have hone : Shedding.drain sampleFits (py "past_session_recall")
      (bucketMatches sampleAges sampleResult 0, false)
        = (Shedding.pop (py "past_session_recall") (bucketMatches sampleAges sampleResult 0), true) := by
    rw [Shedding.drain, if_neg hover, if_neg (by decide +kernel), Shedding.drain, if_pos hfits]
  rw [hnames, Shedding.shed, hnone]
  dsimp only
  rw [if_neg hover, Shedding.shed, hone]
  exact if_pos hfits

/-- **Of the two items the one of the earlier session is dropped**: both cost 159 tokens, the cap is
152, and what is left costs 138. -/
theorem trimToBudget_sample : ∃ out,
    trimToBudget sampleBuiltins sampleAges (bucketMatches sampleAges sampleResult 0) true 160 0
        = some out ∧
      Shedding.items (py "past_session_recall") out.sections = [] ∧
      out.wasTrimmed = true ∧ out.tokenEstimate = 138 ∧
      TrimsJustEnough sampleBuiltins sampleAges true 0 152 (bucketMatches sampleAges sampleResult 0)
        out := by
  have hcap : hardCap 160 = some 152 := hardCap_eq (show 160 < 2 ^ 49 by norm_num)
  rcases trimToBudget_spec sampleBuiltins sampleAges sampleResult true 160 0 with
    ⟨hnone, -⟩ | ⟨cap, out, hcap', hout, htrims⟩
  · rw [hcap] at hnone
    cases hnone
  · obtain rfl := Option.some.inj (hcap.symm.trans hcap')
    have hsections : out.sections
        = Shedding.pop (py "past_session_recall") (bucketMatches sampleAges sampleResult 0) := by
      rw [trimToBudget, hcap, dropOrder_sections, Option.map_some, Option.some.injEq] at hout
      rw [← hout]
      exact congrArg Prod.fst shed_sample
    have hitems : Shedding.items (py "past_session_recall") out.sections = [] := by
      rw [hsections]
      rfl
    refine ⟨out, hout, hitems, htrims.trimmed.mpr ⟨py "past_session_recall", by decide, ?_⟩, ?_, htrims⟩
    · rw [hitems]
      exact List.cons_ne_nil _ _ |>.symm
    · rw [htrims.estimate, hsections]
      decide +kernel

end Daryl
