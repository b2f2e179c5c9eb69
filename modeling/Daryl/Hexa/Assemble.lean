import Daryl.Hexa.Context

/-!
# `hexashard_adapter.context`: what is sent to a provider

A response context is laid out in sections, and sections are emptied, least important first,
until the rest fits a budget.  The budget is checked on the sections, each rounded up to a token;
what is sent is the system text, the message, and the other sections joined by blank lines.  The
ids of the sources are collected before anything is dropped.

## Main definitions

* `Section`, `sectionsOf` — the layout.
* `assemble` — dropping by `dropOrder`, then fragment by fragment.
* `Sent` — what the result should be.
* `SourcesStay` — no source loses its last fragment.

## Main results

* `assemble_eq_ok` — when a context is returned, and which.
* `tokens_sent_le` — the sections pay for what joins them.
* `sent_assemble_iff` — **what is returned is as it should be iff no source loses its fragments.**
-/

namespace Daryl

namespace Hexa

open Py Json

/-! ### A response context -/

/-- A fragment of a source; what is falsy or missing is empty. -/
structure RetrievedFragment where
  sourceId : PyStr
  sourceStatus : PyStr
  sourceTitle : PyStr
  text : PyStr
  deriving DecidableEq

/-- A warning about a pin. -/
structure PinWarning where
  pinId : PyStr
  key : PyStr
  status : PinStatus
  sourceRef : Option PyStr
  detail : PyStr
  deriving DecidableEq

/-- An ambiguity between sources. -/
structure ReportedAmbiguity where
  claimKey : PyStr
  sourceIds : List PyStr
  deriving DecidableEq

/-- The parts of a response context that are laid out. -/
structure ResponseContext where
  mission : PyStr
  currentObjective : PyStr
  currentSummary : PyStr
  activePins : List PinView
  openQuestions : List Question
  recentDecisions : List Decision
  retrieved : List RetrievedFragment
  ambiguities : List ReportedAmbiguity
  pinWarnings : List PinWarning

/-- What the layout takes from Python: `str.lower`, and the text of a list of strings. -/
structure TextBuiltins where
  lower : PyStr → PyStr
  listText : List PyStr → PyStr

/-! ### Is what was retrieved adequate? -/

/-- A character that a content token starts with: a lower-case letter or a digit. -/
def startsToken (c : CodePoint) : Bool := (97 ≤ c.val ∧ c.val ≤ 122) ∨ (48 ≤ c.val ∧ c.val ≤ 57)

/-- A character inside a content token: also `_`, `.` and `-`. -/
def insideToken (c : CodePoint) : Bool := startsToken c || c.val = 95 || c.val = 46 || c.val = 45

/-- `_CONTENT_TOKEN.findall`, past the characters that the last match took. -/
def contentTokens : ℕ → PyStr → List PyStr
  | _, [] => []
  | skip + 1, _ :: s => contentTokens skip s
  | 0, c :: s =>
    if startsToken c ∧ 4 ≤ (s.takeWhile insideToken).length then
      (c :: s.takeWhile insideToken) :: contentTokens (s.takeWhile insideToken).length s
    else contentTokens 0 s

/-- `retrieval_adequate`: a fragment shares a content token with the query. -/
def retrievalAdequate (b : TextBuiltins) (query : PyStr) (fragments : List RetrievedFragment) : Bool :=
  let qtoks := contentTokens 0 (b.lower query)
  if qtoks = [] then fragments ≠ []
  else fragments.any fun f =>
    qtoks.any fun t => t <:+: b.lower f.text ++ py " " ++ b.lower f.sourceTitle

/-! ### The sections -/

/-- The sections. -/
inductive Section
  | system
  | user
  | criticalPins
  | warnings
  | objective
  | fragments
  | state
  | secondary
  deriving DecidableEq

/-- The sections, in the order of the dict. -/
def allSections : List Section :=
  [.system, .user, .criticalPins, .warnings, .objective, .fragments, .state, .secondary]

/-- `DROP_ORDER`. -/
def dropOrder : List Section := [.secondary, .state, .fragments]

/-- `PROTECTED`. -/
def protectedSections : List Section := [.system, .user, .criticalPins, .warnings, .objective]

/-- The sections of the project block. -/
def blockSections : List Section :=
  [.criticalPins, .warnings, .objective, .fragments, .state, .secondary]

/-- A text, or what is put for one that is falsy. -/
def orText (s fallback : PyStr) : PyStr := if s = [] then fallback else s

/-- What an f-string makes of a string or `None`. -/
def optText (s : Option PyStr) : PyStr := s.getD (py "None")

/-- `_format_fragment`. -/
def formatFragment (f : RetrievedFragment) : PyStr :=
  let head := py "[SOURCE " ++ orText f.sourceId (py "UNKNOWN") ++ py " | " ++
    orText f.sourceStatus (py "UNKNOWN") ++ py "]"
  let head := if f.sourceTitle = [] then head else head ++ py " " ++ f.sourceTitle
  head ++ py "\n" ++ f.text

/-- Fragments, put together. -/
def formatFragments (fs : List RetrievedFragment) : PyStr := (py "\n\n").intercalate (fs.map formatFragment)

/-- `_critical_pins_block`. -/
def criticalPinsBlock (pins : List PinView) : PyStr :=
  let crit := pins.filter PinView.critical
  if crit = [] then []
  else (py "\n").intercalate (py "CRITICAL PINS:" :: crit.map fun p =>
    py "- " ++ p.key ++ py " = " ++ p.value ++ py " (source " ++ optText p.sourceRef ++
      py ", status " ++ p.status.value ++ py ")")

/-- `NO_SOURCE_SENTENCE`. -/
def noSourceSentence : PyStr := py "No project source was retrieved for this claim."

/-- The note of a warning. -/
def warningNote (w : PinWarning) : PyStr :=
  let successor := if py "superseded by" <:+: w.detail then py " " ++ w.detail else []
  strip (py "Pin " ++ orText w.key w.pinId ++ py " points to " ++ w.status.value ++ py " source " ++
    optText w.sourceRef ++ py "." ++ successor)

/-- `_warnings_block`: the section, and its notes. -/
def warningsBlock (b : TextBuiltins) (pinWarnings : List PinWarning) (ambiguities : List ReportedAmbiguity)
    (noSource : Bool) : PyStr × List PyStr :=
  let notes := pinWarnings.map warningNote ++
    (ambiguities.map fun a => py "Ambiguity on claim " ++ a.claimKey ++ py ": sources " ++
      b.listText a.sourceIds ++ py ".") ++
    if noSource then [noSourceSentence] else []
  if notes = [] then ([], [])
  else (py "PROJECT WARNING:\n" ++ (py "\n").intercalate notes, notes)

/-- `_objective_block`. -/
def objectiveBlock (ctx : ResponseContext) : PyStr :=
  (py "\n").intercalate (
    (if ctx.mission = [] then [] else [py "Mission: " ++ ctx.mission]) ++
    if ctx.currentObjective = [] then [] else [py "Current objective: " ++ ctx.currentObjective])

/-- `json_brief`; the keys are strings, which sort. -/
def jsonBrief (v : PyVal FloatLit) : PyStr :=
  match dumpsSorted compactStyle v with
  | .ok text => text
  | .error _ => []

/-- `_state_block`. -/
def stateBlock (ctx : ResponseContext) : PyStr :=
  let noncrit := ctx.activePins.filter fun p => !p.critical
  (py "\n").intercalate (
    (if noncrit = [] then [] else py "Other pins:" :: noncrit.map fun p =>
      py "- " ++ p.key ++ py " = " ++ p.value ++ py " (source " ++ optText p.sourceRef ++ py ")") ++
    (if ctx.currentSummary = [] then [] else [py "Summary:\n" ++ ctx.currentSummary]) ++
    (if ctx.recentDecisions = [] then [] else
      [py "Recent decisions: " ++ jsonBrief (.list (ctx.recentDecisions.map Decision.toDict))]) ++
    if ctx.openQuestions = [] then [] else
      [py "Open questions: " ++ jsonBrief (.list (ctx.openQuestions.map Question.toDict))])

/-- The texts of the sections. -/
abbrev Sections := Section → PyStr

section

variable (b : TextBuiltins) (userMessage system : PyStr) (ctx : ResponseContext)

/-- No source that was retrieved is adequate. -/
def noSourceRetrieved : Bool := !retrievalAdequate b userMessage ctx.retrieved

/-- `required_frags`. -/
def ResponseContext.required : List RetrievedFragment := ctx.retrieved.take 2

/-- `secondary_frags`. -/
def ResponseContext.secondary : List RetrievedFragment := ctx.retrieved.drop 2

/-- The warnings of a context. -/
def warningsOf : PyStr × List PyStr :=
  warningsBlock b ctx.pinWarnings ctx.ambiguities (noSourceRetrieved b userMessage ctx)

/-- The layout of a context. -/
def sectionsOf : Sections
  | .system => strip system
  | .user => py "User message:\n" ++ userMessage
  | .criticalPins => criticalPinsBlock ctx.activePins
  | .warnings => (warningsOf b userMessage ctx).1
  | .objective => objectiveBlock ctx
  | .fragments => formatFragments ctx.required
  | .state => stateBlock ctx
  | .secondary => formatFragments ctx.secondary

end

/-! ### Fitting the budget -/

/-- `total`. -/
def total (sections : Sections) : ℤ := (allSections.map fun name => estimateTokens (sections name)).sum

/-- The cost of the sections that are never dropped. -/
def protectedCost (sections : Sections) : ℤ :=
  (protectedSections.map fun name => estimateTokens (sections name)).sum

/-- Sections are emptied, in order, until the rest fits: the sections and the names dropped. -/
def dropSections (budget : ℤ) : List Section → Sections → List Section → Sections × List Section
  | [], sections, dropped => (sections, dropped)
  | name :: names, sections, dropped =>
    if total sections ≤ budget then (sections, dropped)
    else if sections name ≠ [] then
      dropSections budget names (Function.update sections name []) (dropped ++ [name])
    else dropSections budget names sections dropped

/-- Required fragments are dropped from the tail until the rest fits; the fragments are given last
one first.  What is left: the sections, the names dropped, and the fragments kept. -/
def popFragments (budget : ℤ) :
    List RetrievedFragment → Sections → List Section → Sections × List Section × List RetrievedFragment
  | [], sections, dropped => (sections, dropped, [])
  | f :: kept, sections, dropped =>
    if total sections ≤ budget then (sections, dropped, (f :: kept).reverse)
    else
      popFragments budget kept
        (Function.update sections .fragments (formatFragments kept.reverse))
        (if Section.fragments ∈ dropped then dropped else dropped ++ [.fragments])

/-- The ids of the sources of fragments, each once. -/
def sourceIdsOf (fs : List RetrievedFragment) : List PyStr :=
  fs.foldl (fun ids f => if f.sourceId ≠ [] ∧ f.sourceId ∉ ids then ids ++ [f.sourceId] else ids) []

/-- `ContextBudgetExceeded`, with its message. -/
structure ContextBudgetExceeded where
  message : PyStr
  deriving DecidableEq

/-- `AssembledContext`. -/
structure AssembledContext where
  system : PyStr
  user : PyStr
  projectBlock : PyStr
  sections : Sections
  tokens : ℤ
  truncated : Bool
  droppedSections : List Section
  retrievedSourceIds : List PyStr
  authorityWarnings : List PyStr
  noSourceRetrieved : Bool

/-- `project_parts`: the sections of the project block that are not empty. -/
def projectParts (sections : Sections) : List PyStr :=
  (blockSections.map sections).filter fun s => s ≠ []

/-- The project block. -/
def projectBlock (sections : Sections) : PyStr := (py "\n\n").intercalate (projectParts sections)

/-- `assemble`. -/
def assemble (b : TextBuiltins) (userMessage : PyStr) (ctx : ResponseContext) (budget : ℤ)
    (system : PyStr) : Except ContextBudgetExceeded AssembledContext :=
  let sections := sectionsOf b userMessage system ctx
  let truncated := budget < total sections
  let shed := if budget < total sections then dropSections budget dropOrder sections [] else (sections, [])
  let popping := budget < total shed.1 ∧ ctx.required ≠ []
  let popped := if popping then popFragments budget ctx.required.reverse shed.1 shed.2
    else (shed.1, shed.2, ctx.required)
  let sourceIds := if popping then
      sourceIdsOf (popped.2.2 ++ if popped.1 .secondary = [] then [] else ctx.secondary)
    else sourceIdsOf ctx.retrieved
  if budget < protectedCost popped.1 then
    .error ⟨py "protected context " ++ intStr (protectedCost popped.1) ++
      py " exceeds model_context_budget " ++ intStr budget⟩
  else if budget < total popped.1 then
    .error ⟨py "assembled context " ++ intStr (total popped.1) ++
      py " still exceeds model_context_budget " ++ intStr budget⟩
  else
    .ok {
      system := popped.1 .system
      user := userMessage
      projectBlock := projectBlock popped.1
      sections := popped.1
      tokens := total popped.1
      truncated := truncated ∨ popping
      droppedSections := popped.2.1
      retrievedSourceIds := sourceIds
      authorityWarnings := (warningsOf b userMessage ctx).2
      noSourceRetrieved := noSourceRetrieved b userMessage ctx }

/-! ### The cost of sections -/

theorem estimateTokens_nonneg (text : PyStr) : 0 ≤ estimateTokens text := by
  rw [estimateTokens]
  omega

/-- A text has no more than four characters for a token. -/
theorem length_le_estimateTokens (text : PyStr) : (text.length : ℤ) ≤ 4 * estimateTokens text := by
  rw [estimateTokens]
  omega

/-- The total once a section is replaced. -/
theorem total_update (sections : Sections) (name : Section) (text : PyStr) :
    total (Function.update sections name text) + estimateTokens (sections name) =
      total sections + estimateTokens text := by
  cases name <;> simp [total, allSections, Function.update] <;> ring

/-- Emptying a section costs nothing. -/
theorem total_empty_le (sections : Sections) (name : Section) :
    total (Function.update sections name []) ≤ total sections := by
  have htotal := total_update sections name []
  have hnil : estimateTokens [] = 0 := rfl
  have hnonneg := estimateTokens_nonneg (sections name)
  omega

/-! ### Joined texts -/

theorem intercalate_cons_cons (sep p q : PyStr) (parts : List PyStr) :
    sep.intercalate (p :: q :: parts) = p ++ (sep ++ sep.intercalate (q :: parts)) := by
  simp [List.intercalate]

theorem intercalate_singleton (sep p : PyStr) : sep.intercalate [p] = p := by
  simp [List.intercalate]

/-- A part is found in the joined text. -/
theorem infix_intercalate (sep : PyStr) {p : PyStr} {parts : List PyStr} (h : p ∈ parts) :
    p <:+: sep.intercalate parts := by
  induction parts with
  | nil => cases h
  | cons q parts ih =>
    cases parts with
    | nil =>
      obtain rfl := List.mem_singleton.mp h
      rw [intercalate_singleton]
    | cons r parts =>
      rw [intercalate_cons_cons]
      rcases List.mem_cons.mp h with rfl | h
      · exact (List.prefix_append _ _).isInfix
      · refine (ih h).trans ?_
        rw [← List.append_assoc]
        exact (List.suffix_append _ _).isInfix

/-- The joined text is longer than its parts by a separator between any two. -/
theorem length_intercalate_le (sep : PyStr) (parts : List PyStr) :
    (sep.intercalate parts).length ≤ (parts.map List.length).sum + sep.length * (parts.length - 1) := by
  induction parts with
  | nil => exact Nat.zero_le _
  | cons p parts ih =>
    cases parts with
    | nil => simp
    | cons q parts =>
      rw [intercalate_cons_cons]
      simp only [List.length_append, List.length_cons, List.map_cons, List.sum_cons,
        Nat.add_sub_cancel] at ih ⊢
      rw [Nat.mul_add_one]
      omega

theorem length_sum_le (parts : List PyStr) :
    ((parts.map List.length).sum : ℤ) ≤ 4 * (parts.map estimateTokens).sum := by
  induction parts with
  | nil => exact le_refl _
  | cons p parts ih =>
    have hp := length_le_estimateTokens p
    simp only [List.map_cons, List.sum_cons, Nat.cast_add] at ih ⊢
    omega

/-- Empty texts cost nothing. -/
theorem sum_estimateTokens_filter (parts : List PyStr) :
    ((parts.filter fun s => s ≠ []).map estimateTokens).sum = (parts.map estimateTokens).sum := by
  induction parts with
  | nil => rfl
  | cons p parts ih =>
    by_cases hp : p = []
    · subst hp
      rw [List.filter_cons_of_neg (by simp), List.map_cons, List.sum_cons, ih]
      exact (zero_add _).symm
    · rw [List.filter_cons_of_pos (by simpa using hp), List.map_cons, List.map_cons, List.sum_cons,
        List.sum_cons, ih]

/-- The project block costs at most three tokens more than its sections: it joins six at most, and
five separators have ten characters. -/
theorem estimateTokens_projectBlock_le (sections : Sections) :
    estimateTokens (projectBlock sections) ≤
      (blockSections.map fun name => estimateTokens (sections name)).sum + 3 := by
  have hlength := length_intercalate_le (py "\n\n") (projectParts sections)
  have hcount : (projectParts sections).length ≤ 6 := List.length_filter_le _ _
  have hsum := length_sum_le (projectParts sections)
  have hcost : ((projectParts sections).map estimateTokens).sum =
      (blockSections.map fun name => estimateTokens (sections name)).sum := by
    rw [projectParts, sum_estimateTokens_filter, List.map_map]
    rfl
  have hsep : (py "\n\n").length = 2 := rfl
  rw [hsep] at hlength
  rw [← hcost, estimateTokens, projectBlock]
  omega

/-- **The sections pay for what joins them**: the heading of the message is not sent, and it costs
three tokens at least. -/
theorem tokens_sent_le {sections : Sections} {userMessage : PyStr}
    (huser : sections .user = py "User message:\n" ++ userMessage) :
    estimateTokens (sections .system) + estimateTokens userMessage +
      estimateTokens (projectBlock sections) ≤ total sections := by
  have hblock := estimateTokens_projectBlock_le sections
  have hheading : estimateTokens userMessage + 3 ≤ estimateTokens (sections .user) := by
    rw [huser, estimateTokens, estimateTokens, List.length_append,
      show (py "User message:\n").length = 14 from rfl]
    omega
  have htotal : total sections = estimateTokens (sections .system) + (estimateTokens (sections .user) +
      (blockSections.map fun name => estimateTokens (sections name)).sum) := rfl
  omega

/-! ### What is left -/

/-- The sections once some are emptied until the rest fits. -/
def shedSections (budget : ℤ) : List Section → Sections → Sections
  | [], sections => sections
  | name :: names, sections =>
    if total sections ≤ budget then sections
    else shedSections budget names (Function.update sections name [])

theorem update_self_nil {sections : Sections} {name : Section} (h : sections name = []) :
    Function.update sections name [] = sections := by
  rw [← h]
  exact Function.update_eq_self name sections

theorem dropSections_fst (budget : ℤ) (names : List Section) (sections : Sections)
    (dropped : List Section) :
    (dropSections budget names sections dropped).1 = shedSections budget names sections := by
  induction names generalizing sections dropped with
  | nil => rfl
  | cons name names ih =>
    rw [dropSections, shedSections]
    split_ifs with hfits hne
    · rfl
    · exact ih _ _
    · -- an empty section is passed over, and emptying it changes nothing
      rw [update_self_nil (not_not.mp hne)]
      exact ih _ _

/-- What is emptied is among the names. -/
theorem shedSections_of_notMem (budget : ℤ) {name : Section} {names : List Section}
    (h : name ∉ names) (sections : Sections) :
    shedSections budget names sections name = sections name := by
  induction names generalizing sections with
  | nil => rfl
  | cons other names ih =>
    rw [List.mem_cons, not_or] at h
    rw [shedSections]
    split_ifs
    · rfl
    · rw [ih h.2, Function.update_of_ne h.1]

theorem shedSections_of_fits {budget : ℤ} {sections : Sections} (h : total sections ≤ budget)
    (names : List Section) : shedSections budget names sections = sections := by
  cases names with
  | nil => rfl
  | cons name names => exact if_pos h

/-- If what is left does not fit, everything was emptied. -/
theorem shedSections_over {budget : ℤ} {names : List Section} {sections : Sections}
    (h : budget < total (shedSections budget names sections)) {name : Section} (hname : name ∈ names) :
    shedSections budget names sections name = [] := by
  induction names generalizing sections with
  | nil => cases hname
  | cons other names ih =>
    rw [shedSections] at h ⊢
    split_ifs at h ⊢ with hfits
    · exact absurd h (not_lt.mpr hfits)
    · by_cases hmem : name ∈ names
      · exact ih h hmem
      · obtain rfl := (List.mem_cons.mp hname).resolve_right hmem
        rw [shedSections_of_notMem budget hmem, Function.update_self]

/-- Fragments are of no use where the rest does not fit: all are dropped, and the sections are left
with none. -/
theorem popFragments_over {budget : ℤ} (kept : List RetrievedFragment) {sections : Sections}
    (dropped : List Section) (h : budget < total (Function.update sections .fragments [])) :
    (popFragments budget kept sections dropped).1 =
      if kept = [] then sections else Function.update sections .fragments [] := by
  induction kept generalizing sections dropped with
  | nil => rfl
  | cons f kept ih =>
    have hover : ¬total sections ≤ budget := not_le.mpr (h.trans_le (total_empty_le _ _))
    have hidem : ∀ text, Function.update (Function.update sections .fragments text) .fragments [] =
        Function.update sections .fragments [] := fun text => Function.update_idem ..
    rw [popFragments, if_neg hover, ih _ (by rwa [hidem]), if_neg (List.cons_ne_nil f kept), hidem]
    split_ifs with hkept
    · rw [hkept]
      rfl
    · rfl

section

variable {b : TextBuiltins} {userMessage system : PyStr} {ctx : ResponseContext} {budget : ℤ}

/-- **When a context is returned, and which**: sections are emptied by `dropOrder` until the rest
fits.  Dropping fragment by fragment never gets there, as the section of the fragments is empty by
then. -/
theorem assemble_eq_ok {c : AssembledContext} (h : assemble b userMessage ctx budget system = .ok c) :
    let sections := shedSections budget dropOrder (sectionsOf b userMessage system ctx)
    total sections ≤ budget ∧ c.sections = sections ∧ c.system = sections .system ∧
      c.user = userMessage ∧ c.projectBlock = projectBlock sections ∧
      c.retrievedSourceIds = sourceIdsOf ctx.retrieved := by
  intro sections
  unfold assemble at h
  simp only at h
  have hshed : (if budget < total (sectionsOf b userMessage system ctx) then
      dropSections budget dropOrder (sectionsOf b userMessage system ctx) []
      else (sectionsOf b userMessage system ctx, [])).1 = sections := by
    split_ifs with hover
    · exact dropSections_fst _ _ _ _
    · exact (shedSections_of_fits (not_lt.mp hover) _).symm
  generalize (if budget < total (sectionsOf b userMessage system ctx) then
      dropSections budget dropOrder (sectionsOf b userMessage system ctx) []
      else (sectionsOf b userMessage system ctx, [])) = shed at h hshed
  rw [hshed] at h
  by_cases hpopping : budget < total sections ∧ ctx.required ≠ []
  · -- the rest is over the budget, and stays over it
    have hempty : Function.update sections .fragments [] = sections :=
      update_self_nil (shedSections_over hpopping.1 (by decide))
    have hpopped := popFragments_over ctx.required.reverse shed.2 (hempty.symm ▸ hpopping.1)
    rw [hempty, ite_self] at hpopped
    rw [if_pos hpopping, hpopped] at h
    rw [if_pos hpopping.1] at h
    split_ifs at h
  · rw [if_neg hpopping, if_neg hpopping] at h
    split_ifs at h with hprotected hover
    simp only [Except.ok.injEq] at h
    subst h
    exact ⟨not_lt.mp hover, rfl, rfl, rfl, rfl, rfl⟩

/-! ### What is sent -/

theorem mem_sourceIdsOf {fs : List RetrievedFragment} {sid : PyStr} :
    sid ∈ sourceIdsOf fs ↔ sid ≠ [] ∧ ∃ f ∈ fs, f.sourceId = sid := by
  have hfold : ∀ ids : List PyStr,
      sid ∈ fs.foldl (fun ids f => if f.sourceId ≠ [] ∧ f.sourceId ∉ ids then ids ++ [f.sourceId] else ids)
        ids ↔ sid ∈ ids ∨ sid ≠ [] ∧ ∃ f ∈ fs, f.sourceId = sid := by
    induction fs with
    | nil => simp
    | cons f fs ih =>
      intro ids
      rw [List.foldl_cons, ih, List.exists_mem_cons_iff]
      split_ifs with hnew
      · rw [List.mem_append, List.mem_singleton]
        grind
      · grind
  rw [sourceIdsOf, hfold]
  simp

theorem nodup_sourceIdsOf (fs : List RetrievedFragment) : (sourceIdsOf fs).Nodup := by
  have hfold : ∀ ids : List PyStr, ids.Nodup →
      (fs.foldl (fun ids f => if f.sourceId ≠ [] ∧ f.sourceId ∉ ids then ids ++ [f.sourceId] else ids)
        ids).Nodup := by
    induction fs with
    | nil => exact fun _ h => h
    | cons f fs ih =>
      intro ids hids
      rw [List.foldl_cons]
      split_ifs with hnew
      · refine ih _ (List.nodup_append.mpr ⟨hids, List.nodup_singleton _, fun a ha c hc => ?_⟩)
        rw [List.mem_singleton.mp hc]
        exact fun heq => hnew.2 (heq ▸ ha)
      · exact ih _ hids
  exact hfold [] List.nodup_nil

theorem formatFragment_ne_nil (f : RetrievedFragment) : formatFragment f ≠ [] := by
  intro h
  rw [formatFragment, List.append_eq_nil_iff, List.append_eq_nil_iff] at h
  exact absurd h.1.2 (by decide)

theorem formatFragments_eq_nil {fs : List RetrievedFragment} : formatFragments fs = [] ↔ fs = [] := by
  constructor
  · intro h
    cases fs with
    | nil => rfl
    | cons f fs =>
      have hinfix := infix_intercalate (py "\n\n")
        (List.mem_map_of_mem (List.mem_cons_self (a := f) (l := fs)) : formatFragment f ∈ _)
      rw [formatFragments] at h
      rw [h, List.infix_nil] at hinfix
      exact absurd hinfix (formatFragment_ne_nil f)
  · rintro rfl
    rfl

end

/-- The fragments in the project block: those of the sections that were not emptied. -/
def AssembledContext.shown (c : AssembledContext) (ctx : ResponseContext) : List RetrievedFragment :=
  (if c.sections .fragments = [] then [] else ctx.required) ++
    if c.sections .secondary = [] then [] else ctx.secondary

/-- What is sent is as it should be: it fits the budget, the protected sections of the project block
are there in full, and the sources listed are those that have a fragment in the block. -/
structure Sent (b : TextBuiltins) (userMessage system : PyStr) (ctx : ResponseContext) (budget : ℤ)
    (c : AssembledContext) : Prop where
  fits : estimateTokens c.system + estimateTokens c.user + estimateTokens c.projectBlock ≤ budget
  full : ∀ name ∈ [Section.criticalPins, .warnings, .objective],
    c.sections name = sectionsOf b userMessage system ctx name ∧ c.sections name <:+: c.projectBlock
  nodup : c.retrievedSourceIds.Nodup
  sources : ∀ sid, sid ∈ c.retrievedSourceIds ↔ sid ≠ [] ∧ ∃ f ∈ c.shown ctx, f.sourceId = sid

/-- No source loses its last fragment.  Over the budget the fragments behind the second go, so their
sources are among those of the first two; and if the budget does not hold the rest without the state
either, all fragments go, so there is no source at all. -/
def SourcesStay (budget : ℤ) (sections : Sections) (ctx : ResponseContext) : Prop :=
  budget < total sections →
    (∀ f ∈ ctx.secondary, f.sourceId ≠ [] → ∃ g ∈ ctx.required, g.sourceId = f.sourceId) ∧
    (budget < total (Function.update (Function.update sections .secondary []) .state []) →
      ∀ f ∈ ctx.retrieved, f.sourceId = [])

section

variable {b : TextBuiltins} {userMessage system : PyStr} {ctx : ResponseContext} {budget : ℤ}

theorem mem_retrieved {f : RetrievedFragment} :
    f ∈ ctx.retrieved ↔ f ∈ ctx.required ∨ f ∈ ctx.secondary := by
  conv_lhs => rw [← List.take_append_drop 2 ctx.retrieved]
  exact List.mem_append

theorem formatted (fs : List RetrievedFragment) : (if formatFragments fs = [] then [] else fs) = fs := by
  split_ifs with h
  · exact (formatFragments_eq_nil.mp h).symm
  · rfl

/-- The fragments of the block: all of them, the first two, or none. -/
theorem shown_shed {c : AssembledContext}
    (hsections : c.sections = shedSections budget dropOrder (sectionsOf b userMessage system ctx)) :
    c.shown ctx =
      if total (sectionsOf b userMessage system ctx) ≤ budget then ctx.required ++ ctx.secondary
      else if total (Function.update (Function.update (sectionsOf b userMessage system ctx)
        .secondary []) .state []) ≤ budget then ctx.required
      else [] := by
  let s₀ := sectionsOf b userMessage system ctx
  let s₁ := Function.update s₀ .secondary []
  have hfragments : s₁ .fragments = formatFragments ctx.required := rfl
  rw [AssembledContext.shown, hsections, dropOrder]
  by_cases hall : total s₀ ≤ budget
  · rw [shedSections_of_fits hall, if_pos hall]
    exact congrArg₂ (· ++ ·) (formatted _) (formatted _)
  · have hsecondary : shedSections budget [.secondary, .state, .fragments] s₀ .secondary = [] := by
      rw [shedSections, if_neg hall, shedSections_of_notMem budget (by decide), Function.update_self]
    rw [if_neg hall, if_pos hsecondary, List.append_nil, shedSections, if_neg hall]
    by_cases hfits : total (Function.update s₁ .state []) ≤ budget
    · -- the state may go, and the first two fragments stay
      have hkept : shedSections budget [.state, .fragments] s₁ .fragments = s₁ .fragments := by
        rw [shedSections]
        split_ifs
        · rfl
        · rw [shedSections_of_fits hfits]
          rfl
      rw [if_pos hfits, hkept, hfragments, formatted]
    · have hone : ¬total s₁ ≤ budget := fun h => hfits ((total_empty_le _ _).trans h)
      have hgone : shedSections budget [.state, .fragments] s₁ .fragments = [] := by
        rw [shedSections, if_neg hone, shedSections, if_neg hfits, shedSections, Function.update_self]
      rw [if_neg hfits, if_pos hgone]

/-- The sources of the block are the sources retrieved iff no source loses its last fragment. -/
theorem sources_shed_iff {c : AssembledContext}
    (hsections : c.sections = shedSections budget dropOrder (sectionsOf b userMessage system ctx)) :
    (∀ sid, sid ∈ sourceIdsOf ctx.retrieved ↔ sid ≠ [] ∧ ∃ f ∈ c.shown ctx, f.sourceId = sid) ↔
      SourcesStay budget (sectionsOf b userMessage system ctx) ctx := by
  rw [shown_shed hsections, SourcesStay]
  simp only [mem_sourceIdsOf]
  split_ifs with hall hfits
  · refine ⟨fun _ hover => absurd hover (not_lt.mpr hall), fun _ sid => ?_⟩
    rw [and_congr_right_iff]
    intro _
    exact exists_congr fun f => and_congr_left fun _ => mem_retrieved.trans List.mem_append.symm
  · -- the first two are left
    constructor
    · intro hids _
      refine ⟨fun f hf hne => ?_, fun hover => absurd hover (not_lt.mpr hfits)⟩
      exact ((hids f.sourceId).mp ⟨hne, f, mem_retrieved.mpr (.inr hf), rfl⟩).2
    · intro hstay sid
      rw [and_congr_right_iff]
      intro hne
      constructor
      · rintro ⟨f, hf, rfl⟩
        rcases mem_retrieved.mp hf with hf | hf
        · exact ⟨f, hf, rfl⟩
        · exact (hstay (not_le.mp hall)).1 f hf hne
      · rintro ⟨f, hf, rfl⟩
        exact ⟨f, mem_retrieved.mpr (.inl hf), rfl⟩
  · -- none is left
    constructor
    · intro hids _
      have hnone : ∀ f ∈ ctx.retrieved, f.sourceId = [] := by
        intro f hf
        by_contra hne
        obtain ⟨-, g, hg, -⟩ := (hids f.sourceId).mp ⟨hne, f, hf, rfl⟩
        cases hg
      exact ⟨fun f hf hne => absurd (hnone f (mem_retrieved.mpr (.inr hf))) hne, fun _ => hnone⟩
    · intro hstay sid
      have hnone := (hstay (not_le.mp hall)).2 (not_le.mp hfits)
      constructor
      · rintro ⟨hne, f, hf, rfl⟩
        exact absurd (hnone f hf) hne
      · rintro ⟨-, f, hf, -⟩
        cases hf

/-- **What is returned is as it should be iff no source loses its last fragment.** -/
theorem sent_assemble_iff {c : AssembledContext}
    (h : assemble b userMessage ctx budget system = .ok c) :
    Sent b userMessage system ctx budget c ↔
      SourcesStay budget (sectionsOf b userMessage system ctx) ctx := by
  obtain ⟨hfits, hsections, hsystem, huser, hblock, hids⟩ := assemble_eq_ok h
  rw [← hsections] at hfits hsystem hblock
  rw [← sources_shed_iff hsections, ← hids]
  refine ⟨Sent.sources, fun hsources => ⟨?_, ?_, hids ▸ nodup_sourceIdsOf _, hsources⟩⟩
  · have hheading : c.sections .user = py "User message:\n" ++ userMessage := by
      rw [hsections, shedSections_of_notMem budget (by decide)]
      rfl
    rw [hsystem, huser, hblock]
    exact (tokens_sent_le hheading).trans hfits
  · intro name hname
    have hkept : name ∉ dropOrder ∧ name ∈ blockSections := by
      revert name
      decide
    refine ⟨by rw [hsections, shedSections_of_notMem budget hkept.1], ?_⟩
    rw [hblock]
    by_cases hnil : c.sections name = []
    · rw [hnil]
      exact List.nil_infix
    · refine infix_intercalate _ (List.mem_filter.mpr ⟨List.mem_map_of_mem hkept.2, ?_⟩)
      exact decide_eq_true hnil

end

/-- A context of three sources, nothing else. -/
def threeSources : ResponseContext where
  mission := []
  currentObjective := []
  currentSummary := []
  activePins := []
  openQuestions := []
  recentDecisions := []
  retrieved := [⟨py "A", py "CURRENT", [], py "x"⟩, ⟨py "B", py "CURRENT", [], py "y"⟩,
    ⟨py "C", py "CURRENT", [], py "z"⟩]
  ambiguities := []
  pinWarnings := []

/-- Texts that are in lower case already. -/
def plainTexts : TextBuiltins := ⟨id, fun _ => []⟩

/-- What a budget of 17 tokens leaves of the three sources: all listed, two shown. -/
theorem assemble_threeSources :
    ∃ c, assemble plainTexts (py "q") threeSources 17 (py "s") = .ok c ∧
      c.retrievedSourceIds = [py "A", py "B", py "C"] ∧ c.shown threeSources = threeSources.required := by
  have hlisted : (assemble plainTexts (py "q") threeSources 17 (py "s")).toOption.map
      (fun c => (c.retrievedSourceIds, c.shown threeSources)) =
        some ([py "A", py "B", py "C"], threeSources.required) := by
    decide +kernel
  cases hc : assemble plainTexts (py "q") threeSources 17 (py "s") with
  | error e =>
    rw [hc] at hlisted
    cases hlisted
  | ok c =>
    rw [hc] at hlisted
    simp only [Except.toOption, Option.map_some, Option.some.injEq, Prod.mk.injEq] at hlisted
    exact ⟨c, rfl, hlisted.1, hlisted.2⟩

theorem sent_assemble_sample :
    ∃ c, assemble plainTexts (py "q") threeSources 17 (py "s") = .ok c ∧
      (Sent plainTexts (py "q") (py "s") threeSources 17 c ↔
        SourcesStay 17 (sectionsOf plainTexts (py "q") (py "s") threeSources) threeSources) := by
  obtain ⟨c, hc, -⟩ := assemble_threeSources
  exact ⟨c, hc, sent_assemble_iff hc⟩

/-- The fragment of the third source is dropped, and its id is listed. -/
theorem assemble_lists_dropped :
    ¬∀ (b : TextBuiltins) (userMessage system : PyStr) (ctx : ResponseContext) (budget : ℤ)
      (c : AssembledContext), assemble b userMessage ctx budget system = .ok c →
        Sent b userMessage system ctx budget c := by
  intro hclaim
  obtain ⟨c, hc, hids, hshown⟩ := assemble_threeSources
  have hsource := (hclaim _ _ _ _ _ c hc).sources (py "C")
  rw [hids, hshown] at hsource
  obtain ⟨-, hf⟩ := hsource.mp (by decide)
  exact absurd hf (by decide)

end Hexa

end Daryl
