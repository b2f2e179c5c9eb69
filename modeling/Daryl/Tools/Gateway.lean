import Daryl.Dsm.Entry
import Daryl.Dsm.Primitives
import Daryl.Json.Finite
import Daryl.Py.Eq
import Daryl.Tools.Extract

/-!
# `agent_proposal_gateway_v0.gateway`: proposals of agents

The gateway takes the JSON object that a provider returns, looks for the structured proposal in
it, and gives a verdict.  The proposal may stand under `"structured_output"`, or in a text, of
which the first object between balanced braces is read; what is found goes to the same checks.

Of a context the model has what the checks look at: the scope, the required checks and the hash,
which is handed on.  `str` of what is no string and `str.lower` are parameters.

## Main definitions

* `Context`, `Wrapped`, `Validation` — a context, a wrapped proposal and a verdict.
* `normalizeStructuredOutput` — where the structured proposal is taken from.
* `surfacedChecks`, `promotedCandidateRules`, `scopeViolation`, `validateClaimedChecks` — the checks.
* `judge` — `wrap_agent_proposal` and `validate_agent_proposal`.
* `Judges` — the gateway returns, and its status follows from the issues.
* `Honours` — what holds of an accepted proposal.

## Main results

* `judges_iff` — **the gateway returns just if what it hashes is finite and each field that it goes
  over can be gone over.**
* `judge_honours` — **an accepted proposal honours the contract as it is checked, and with a text for
  a status nothing is accepted.**
* `not_judges`, `accepted_uncovered` — a number for a list, and a proposal that is accepted with a
  check nothing is written on, a claim of truth and a foreign scope.
-/

namespace Daryl

open Py Json

namespace Gateway

/-- What the gateway takes from Python; `str` is not asked of a string. -/
structure Builtins (F : Type) where
  str : PyVal F → PyStr
  lower : PyStr → PyStr

/-- `str(v)`. -/
def Builtins.strOf {F : Type} (b : Builtins F) : PyVal F → PyStr
  | .str s => s
  | v => b.str v

/-- What the gateway reads of an agent proposal context. -/
structure Context where
  userId : PyStr
  domain : PyStr
  skillId : PyStr
  requiredChecks : List PyStr
  inputContextHash : PyStr

/-- `context["scope"]`. -/
def Context.scope (c : Context) : List (PyStr × PyStr) :=
  [(py "user_id", c.userId), (py "domain", c.domain), (py "skill_id", c.skillId)]

/-- The verdicts. -/
inductive Status
  | acceptedForAudit
  | needsHumanReview
  | rejectedByValidator
  deriving DecidableEq, Repr

/-- The text of a verdict. -/
def Status.text : Status → PyStr
  | .acceptedForAudit => py "accepted_for_audit"
  | .needsHumanReview => py "needs_human_review"
  | .rejectedByValidator => py "rejected_by_validator"

/-- `sorted(ALLOWED_STATUSES)`. -/
def allowedStatuses : List PyStr :=
  [Status.acceptedForAudit.text, Status.needsHumanReview.text, Status.rejectedByValidator.text]

/-- `AGENT_PROPOSAL_SCHEMA_VERSION`. -/
def agentProposalSchemaVersion : PyStr := py "agent_proposal.v0"

/-- `_OVERPROMISE_PHRASES`. -/
def overpromisePhrases : List PyStr :=
  [py "proven true", py "verified truth", py "guaranteed", py "final truth", py "truth verified",
    py "business decision is final"]

/-- A rejection or a warning. -/
structure Issue (F : Type) where
  code : PyStr
  message : PyStr
  extra : List (PyStr × PyVal F)

/-- A proposal as `wrap_agent_proposal` hands it on. -/
structure Wrapped (F : Type) where
  schemaVersion : PyStr
  proposalType : PyStr
  provider : List (PyStr × PyStr)
  scope : List (PyStr × PyStr)
  inputContextHash : PyStr
  rawOutputHash : PyStr
  rawOutput : PyVal F
  structuredOutput : Fields F
  agentSuppliedStatus : Option PyStr
  modelProposed : Bool

/-- What the validator returns. -/
structure Validation (F : Type) where
  schemaVersion : PyStr
  status : Status
  allowedStatuses : List PyStr
  modelProposed : Bool
  warnings : List (Issue F)
  rejections : List (Issue F)
  metadata : List (PyStr × PyVal F)

section

variable {F : Type} [PyFloat F]

/-! ### Where the proposal is -/

/-- `_CONTRACT_FIELDS`. -/
def contractFields : List PyStr :=
  [py "claimed_checks", py "claimed_check_coverage", py "limitations", py "proposal",
    py "candidate_rule_handling", py "truth_claim"]

/-- `_is_substantive`. -/
def isSubstantive : PyVal F → Bool
  | .bool b => b
  | .none => false
  | .str s => !(strip s).isEmpty
  | .list vs => !vs.isEmpty
  | .tuple vs => !vs.isEmpty
  | .dict kvs => !kvs.isEmpty
  | _ => true

/-- `_has_substantive_contract_fields`. -/
def hasSubstantiveContractFields (structured : Fields F) : Bool :=
  contractFields.any fun field => isSubstantive (getNone field structured)

/-- `_normalization_candidates`. -/
def normalizationCandidates (rawProposal structured : Fields F) : List (PyVal F) :=
  [getNone (py "raw_output") rawProposal, getNone (py "narrative") rawProposal,
    getNone (py "content") rawProposal, getNone (py "narrative") structured,
    getNone (py "raw_output") structured, getNone (py "content") structured]

/-- What is given under `"structured_output"`; what is no dict is a narrative. -/
def givenStructured (b : Builtins F) (rawProposal : Fields F) : Fields F :=
  match (getNone (py "structured_output") rawProposal).orEmpty with
  | .dict kvs => kvs
  | v => strItems [(py "narrative", .str (b.strOf v))]

/-- `_normalize_structured_output`. -/
def normalizeStructuredOutput (b : Builtins F) (rawProposal : Fields F) : Fields F :=
  let structured := givenStructured b rawProposal
  if hasSubstantiveContractFields structured then structured
  else
    let extracted := (normalizationCandidates rawProposal structured).findSome? fun candidate =>
      (extractJsonObject candidate).filter hasSubstantiveContractFields
    extracted.getD structured

/-- `_agent_supplied_status`. -/
def agentSuppliedStatus (rawProposal : Fields F) : Option PyStr :=
  match getNone (py "validation") rawProposal with
  | .dict validation =>
    match getNone (py "status") validation with
    | .str status => some status
    | _ => none
  | _ => none

/-- A dict of strings. -/
def textDict (ps : List (PyStr × PyStr)) : PyVal F :=
  .dict (strItems (ps.map fun p => (p.1, .str p.2)))

/-- `wrap_agent_proposal`. -/
def wrapAgentProposal (sha : Sha256) (b : Builtins F) (context : Context)
    (rawProposal : Fields F) (providerMetadata : List (PyStr × PyStr)) :
    Except PyError (Wrapped F) :=
  let rawOutput := (dictGet (py "raw_output") rawProposal).getD (.str [])
  let structured := normalizeStructuredOutput b rawProposal
  let payload := .dict (strItems [(py "raw_output", rawOutput),
    (py "structured_output", .dict structured), (py "provider", textDict providerMetadata)])
  match hashCanonical sha payload with
  | .error err => .error (DumpsError.toPyError err)
  | .ok rawOutputHash => .ok {
      schemaVersion := agentProposalSchemaVersion
      proposalType := agentProposalSchemaVersion
      provider := providerMetadata
      scope := context.scope
      inputContextHash := context.inputContextHash
      rawOutputHash := rawOutputHash
      rawOutput := rawOutput
      structuredOutput := structured
      agentSuppliedStatus := agentSuppliedStatus rawProposal
      modelProposed := true }

/-! ### The checks -/

/-- The style of `_stable_json`. -/
def stableStyle : Style := ⟨false, true, false⟩

/-- `_stable_json`. -/
def stableJson (v : PyVal F) : Except PyError PyStr :=
  match dumpsSorted stableStyle v with
  | .ok text => .ok text
  | .error err => .error (DumpsError.toPyError err)

/-- `_proposal_text`. -/
def proposalText (b : Builtins F) (p : Wrapped F) : Except PyError PyStr := do
  let text ← stableJson (.dict p.structuredOutput)
  return b.lower (b.strOf p.rawOutput ++ nl :: text)

/-- `structured.get(field) or []`, gone over. -/
def itemsOf (field : PyStr) (structured : Fields F) : Except PyError (List (PyVal F)) :=
  iterate (pyOr (getNone field structured) (.list []))

/-- A candidate rule that is given as validated or applied. -/
def isPromoted : PyVal F → Bool
  | .dict rule =>
    pyEq (getNone (py "rule_status") rule) (.str (py "validated_rule")) ||
      match getNone (py "applied") rule with
      | .bool applied => applied
      | _ => false
  | _ => false

/-- `_promoted_candidate_rules`. -/
def promotedCandidateRules (b : Builtins F) (structured : Fields F) :
    Except PyError (List (PyVal F)) := do
  let explicit ← itemsOf (py "promoted_candidate_rules") structured
  let rules ← itemsOf (py "candidate_rules") structured
  let text ← stableJson (.dict structured)
  return explicit ++ (if py "candidate rules are validated" <:+: b.lower text then
    [.str (py "textual_candidate_promotion")] else []) ++ rules.filter isPromoted

/-- A scope that names another user, domain or skill. -/
def leaks (context : Context) (scope : Fields F) : Bool :=
  context.scope.any fun p =>
    let value := getNone p.1 scope
    !value.isNone && !pyEq value (.str p.2)

/-- The scopes that a proposal names. -/
def candidateScopes (structured : Fields F) : List (PyVal F) :=
  [getNone (py "scope") structured, getNone (py "referenced_scope") structured]

/-- The first scope of a proposal that names another one. -/
def leakingScope (context : Context) (structured : Fields F) : Option (PyVal F) :=
  (candidateScopes structured).find? fun
    | .dict scope => leaks context scope
    | _ => false

/-- `_scope_violation`. -/
def scopeViolation (b : Builtins F) (p : Wrapped F) (context : Context) :
    Except PyError (Option (Issue F)) :=
  match leakingScope context p.structuredOutput with
  | some observed => .ok (some ⟨py "scope_leak", py "Proposal references scope outside DSM context.",
      [(py "expected", textDict context.scope), (py "observed", observed)]⟩)
  | none => do
    let text ← proposalText b p
    return if py "other_user" <:+: text ∨ py "billing_ops" <:+: text then
      some ⟨py "scope_leak", py "Proposal text contains a known out-of-scope marker.", []⟩
    else none

/-- `s.split()`. -/
def splitWords (s : PyStr) : List PyStr := (s.splitOnP CodePoint.isSpace).filter (!·.isEmpty)

/-- `s.strip(chars)`. -/
def stripChars (chars s : PyStr) : PyStr :=
  ((s.dropWhile (· ∈ chars)).reverse.dropWhile (· ∈ chars)).reverse

/-- `_surfaced_checks`. -/
def surfacedChecks (b : Builtins F) (structured : Fields F) : Except PyError (List PyStr) := do
  let limitations ← itemsOf (py "limitations") structured
  let warnings ← itemsOf (py "warnings") structured
  let missing ← itemsOf (py "surfaced_missing_checks") structured
  let text := (py " ").intercalate ((limitations ++ warnings ++ missing).map b.strOf)
  let tokens := splitWords (replace (py ";") (py " ") (replace (py ",") (py " ") text))
  return (tokens.map (stripChars (py " .:`'\""))).filter (!·.isEmpty)

/-- The strings among some values. -/
def textsOf (vs : List (PyVal F)) : List PyStr :=
  vs.filterMap fun
    | .str s => some s
    | _ => none

/-- `sorted(set(xs) - set(ys))`. -/
def sortedDifference (xs ys : List PyStr) : List PyStr :=
  ((xs.filter (· ∉ ys)).dedup).insertionSort (· ≤ ·)

/-- `_validate_claimed_checks`: the rejections and the warnings. -/
def validateClaimedChecks (b : Builtins F) (structured : Fields F) (context : Context) :
    Except PyError (List (Issue F) × List (Issue F)) := do
  let claimed := textsOf (← itemsOf (py "claimed_checks") structured)
  let surfaced ← surfacedChecks b structured
  let uncovered := sortedDifference context.requiredChecks (claimed ++ surfaced)
  let outside := sortedDifference claimed context.requiredChecks
  return (uncovered.map fun check => ⟨py "required_check_not_covered_or_surfaced",
      py "Required check is neither claimed nor surfaced as a limitation.",
      [(py "check", .str check)]⟩,
    outside.map fun check => ⟨py "claimed_check_outside_required",
      py "Claimed check is outside required_checks.", [(py "check", .str check)]⟩)

/-! ### The verdict -/

/-- The issue about a status that the provider supplies. -/
def statusIssues (p : Wrapped F) : List (Issue F) :=
  match p.agentSuppliedStatus with
  | some status => [⟨py "agent_supplied_status_ignored",
      py "Agent-supplied validation status was ignored.", [(py "value", .str status)]⟩]
  | none => []

/-- The issues about phrases that promise too much. -/
def phraseIssues (text : PyStr) : List (Issue F) :=
  (overpromisePhrases.filter (· <:+: text)).map fun phrase => ⟨py "overpromise_wording",
    py "Proposal over-promises truth or finality.", [(py "phrase", .str phrase)]⟩

/-- The issue about candidate rules. -/
def promotionIssues (rules : List (PyVal F)) : List (Issue F) :=
  if rules.isEmpty then [] else [⟨py "candidate_rule_promotion",
    py "Proposal attempts to promote candidate rules.", [(py "candidate_rules", .list rules)]⟩]

/-- The issue about missing limitations. -/
def limitationIssues (structured : Fields F) : List (Issue F) :=
  if (getNone (py "limitations") structured).truthy then [] else
    [⟨py "missing_limitations", py "Proposal does not surface limitations.", []⟩]

/-- The issue about low coverage. -/
def coverageIssues (structured : Fields F) : List (Issue F) :=
  if pyEq (getNone (py "coverage_level") structured) (.str (py "low")) then
    [⟨py "low_coverage", py "Proposal declares low coverage.", []⟩] else []

/-- The verdict on rejections and warnings. -/
def verdict (hard warnings : List (Issue F)) : Status :=
  if !hard.isEmpty then .rejectedByValidator
  else if !warnings.isEmpty then .needsHumanReview
  else .acceptedForAudit

/-- `_proposal_metadata`. -/
def proposalMetadata (p : Wrapped F) (status : Status) : List (PyStr × PyVal F) :=
  [(py "proposal_type", .str agentProposalSchemaVersion), (py "provider", textDict p.provider),
    (py "input_context_hash", .str p.inputContextHash),
    (py "raw_output_hash", .str p.rawOutputHash), (py "validation_status", .str status.text),
    (py "model_proposed", .bool true), (py "schema_version", .str agentProposalSchemaVersion)]

/-- `validate_agent_proposal`. -/
def validateAgentProposal (b : Builtins F) (p : Wrapped F) (context : Context) :
    Except PyError (Validation F) := do
  let structured := p.structuredOutput
  let text ← proposalText b p
  let promoted ← promotedCandidateRules b structured
  let scope ← scopeViolation b p context
  let checks ← validateClaimedChecks b structured context
  let hard := phraseIssues text ++ promotionIssues promoted ++ scope.toList ++ checks.1
  let warnings := statusIssues p ++ checks.2 ++ limitationIssues structured ++
    coverageIssues structured
  let status := verdict hard warnings
  return {
    schemaVersion := agentProposalSchemaVersion
    status
    allowedStatuses
    modelProposed := true
    warnings
    rejections := hard
    metadata := proposalMetadata p status }

/-- `validate_agent_proposal(wrap_agent_proposal(...))`. -/
def judge (sha : Sha256) (b : Builtins F) (context : Context) (rawProposal : Fields F)
    (providerMetadata : List (PyStr × PyStr)) : Except PyError (Validation F) := do
  let p ← wrapAgentProposal sha b context rawProposal providerMetadata
  validateAgentProposal b p context

/-! ### When the gateway returns -/

/-- A `for` loop over the value, or over nothing when it is false, begins. -/
def canIterate (v : PyVal F) : Bool :=
  !v.truthy || match v with
    | .str _ | .list _ | .tuple _ | .dict _ => true
    | _ => false

theorem exists_itemsOf_iff {field : PyStr} {structured : Fields F} :
    (∃ vs, itemsOf field structured = .ok vs) ↔ canIterate (getNone field structured) = true := by
  unfold itemsOf pyOr canIterate
  generalize getNone field structured = v
  cases htruthy : v.truthy with
  | false => exact iff_of_true ⟨_, rfl⟩ rfl
  | true => cases v <;> simp [iterate]

/-- The fields that the validator goes over. -/
def iteratedFields : List PyStr :=
  [py "claimed_checks", py "limitations", py "warnings", py "surfaced_missing_checks",
    py "promoted_candidate_rules", py "candidate_rules"]

theorem exists_stableJson {v : PyVal F} (hv : stable v = true) : ∃ t, stableJson v = .ok t := by
  obtain ⟨w, hw, -⟩ := sortDicts_of_stable hv
  obtain ⟨t, ht⟩ := exists_print (show stableStyle.allowNan = true from rfl) w
  refine ⟨t, ?_⟩
  rw [stableJson, dumpsSorted_eq_ok.mpr ⟨w, hw, ht⟩]

theorem exists_proposalText (b : Builtins F) {p : Wrapped F}
    (hp : stable (.dict p.structuredOutput : PyVal F) = true) : ∃ t, proposalText b p = .ok t := by
  obtain ⟨t, ht⟩ := exists_stableJson hp
  exact ⟨_, bind_eq_ok.mpr ⟨t, ht, rfl⟩⟩

theorem exists_promoted_iff (b : Builtins F) {structured : Fields F}
    (hs : stable (.dict structured : PyVal F) = true) :
    (∃ rules, promotedCandidateRules b structured = .ok rules) ↔
      canIterate (getNone (py "promoted_candidate_rules") structured) = true ∧
        canIterate (getNone (py "candidate_rules") structured) = true := by
  obtain ⟨t, ht⟩ := exists_stableJson hs
  rw [← exists_itemsOf_iff, ← exists_itemsOf_iff]
  constructor
  · rintro ⟨rules, h⟩
    simp only [promotedCandidateRules, bind_eq_ok] at h
    obtain ⟨explicit, hexplicit, rules, hrules, -⟩ := h
    exact ⟨⟨explicit, hexplicit⟩, rules, hrules⟩
  · rintro ⟨⟨explicit, hexplicit⟩, rules, hrules⟩
    exact ⟨_, bind_eq_ok.mpr ⟨_, hexplicit, bind_eq_ok.mpr ⟨_, hrules, bind_eq_ok.mpr ⟨t, ht, rfl⟩⟩⟩⟩

theorem exists_surfaced_iff (b : Builtins F) {structured : Fields F} :
    (∃ checks, surfacedChecks b structured = .ok checks) ↔
      canIterate (getNone (py "limitations") structured) = true ∧
        canIterate (getNone (py "warnings") structured) = true ∧
        canIterate (getNone (py "surfaced_missing_checks") structured) = true := by
  rw [← exists_itemsOf_iff, ← exists_itemsOf_iff, ← exists_itemsOf_iff]
  constructor
  · rintro ⟨checks, h⟩
    simp only [surfacedChecks, bind_eq_ok] at h
    obtain ⟨limitations, hlimitations, warnings, hwarnings, missing, hmissing, -⟩ := h
    exact ⟨⟨limitations, hlimitations⟩, ⟨warnings, hwarnings⟩, missing, hmissing⟩
  · rintro ⟨⟨limitations, hlimitations⟩, ⟨warnings, hwarnings⟩, missing, hmissing⟩
    exact ⟨_, bind_eq_ok.mpr ⟨_, hlimitations, bind_eq_ok.mpr ⟨_, hwarnings,
      bind_eq_ok.mpr ⟨_, hmissing, rfl⟩⟩⟩⟩

theorem exists_claimed_iff (b : Builtins F) {structured : Fields F} (context : Context) :
    (∃ checks, validateClaimedChecks b structured context = .ok checks) ↔
      canIterate (getNone (py "claimed_checks") structured) = true ∧
        ∃ checks, surfacedChecks b structured = .ok checks := by
  rw [← exists_itemsOf_iff]
  constructor
  · rintro ⟨checks, h⟩
    simp only [validateClaimedChecks, bind_eq_ok] at h
    obtain ⟨claimed, hclaimed, surfaced, hsurfaced, -⟩ := h
    exact ⟨⟨claimed, hclaimed⟩, surfaced, hsurfaced⟩
  · rintro ⟨⟨claimed, hclaimed⟩, surfaced, hsurfaced⟩
    exact ⟨_, bind_eq_ok.mpr ⟨_, hclaimed, bind_eq_ok.mpr ⟨_, hsurfaced, rfl⟩⟩⟩

theorem exists_scopeViolation (b : Builtins F) {p : Wrapped F}
    (hp : stable (.dict p.structuredOutput : PyVal F) = true) (context : Context) :
    ∃ issue, scopeViolation b p context = .ok issue := by
  obtain ⟨t, ht⟩ := exists_proposalText b hp
  unfold scopeViolation
  split
  · exact ⟨_, rfl⟩
  · exact ⟨_, bind_eq_ok.mpr ⟨t, ht, rfl⟩⟩

/-- What the verdict is put together of. -/
theorem validateAgentProposal_eq_ok {b : Builtins F} {p : Wrapped F} {context : Context}
    {v : Validation F} (h : validateAgentProposal b p context = .ok v) :
    ∃ text promoted scope checks, proposalText b p = .ok text ∧
      promotedCandidateRules b p.structuredOutput = .ok promoted ∧
      scopeViolation b p context = .ok scope ∧
      validateClaimedChecks b p.structuredOutput context = .ok checks ∧
      v.rejections = phraseIssues text ++ promotionIssues promoted ++ scope.toList ++ checks.1 ∧
      v.warnings = statusIssues p ++ checks.2 ++ limitationIssues p.structuredOutput ++
        coverageIssues p.structuredOutput ∧
      v.allowedStatuses = allowedStatuses ∧ v.status = verdict v.rejections v.warnings := by
  simp only [validateAgentProposal, bind_eq_ok] at h
  obtain ⟨text, htext, promoted, hpromoted, scope, hscope, checks, hchecks, hv⟩ := h
  obtain rfl := Except.ok.inj hv
  exact ⟨text, promoted, scope, checks, htext, hpromoted, hscope, hchecks, rfl, rfl, rfl, rfl⟩

/-- **The validator returns just if the fields that it goes over can be gone over.** -/
theorem exists_validate_iff (b : Builtins F) {p : Wrapped F}
    (hp : stable (.dict p.structuredOutput : PyVal F) = true) (context : Context) :
    (∃ v, validateAgentProposal b p context = .ok v) ↔
      ∀ field ∈ iteratedFields, canIterate (getNone field p.structuredOutput) = true := by
  have hfields : (∀ field ∈ iteratedFields, canIterate (getNone field p.structuredOutput) = true) ↔
      (∃ rules, promotedCandidateRules b p.structuredOutput = .ok rules) ∧
        ∃ checks, validateClaimedChecks b p.structuredOutput context = .ok checks := by
    rw [exists_promoted_iff b hp, exists_claimed_iff, exists_surfaced_iff]
    simp only [iteratedFields, List.forall_mem_cons, List.not_mem_nil, IsEmpty.forall_iff,
      implies_true, and_true]
    tauto
  rw [hfields]
  constructor
  · rintro ⟨v, h⟩
    obtain ⟨-, promoted, -, checks, -, hpromoted, -, hchecks, -⟩ := validateAgentProposal_eq_ok h
    exact ⟨⟨promoted, hpromoted⟩, checks, hchecks⟩
  · rintro ⟨⟨promoted, hpromoted⟩, checks, hchecks⟩
    obtain ⟨text, htext⟩ := exists_proposalText b hp
    obtain ⟨scope, hscope⟩ := exists_scopeViolation b hp context
    exact ⟨_, bind_eq_ok.mpr ⟨_, htext, bind_eq_ok.mpr ⟨_, hpromoted, bind_eq_ok.mpr ⟨_, hscope,
      bind_eq_ok.mpr ⟨_, hchecks, rfl⟩⟩⟩⟩⟩

/-! ### When it is wrapped -/

/-- What is extracted of a text was read from JSON. -/
theorem form_of_extractJsonObject {value : PyVal F} {kvs : Fields F}
    (h : extractJsonObject value = some kvs) : form (.dict kvs : PyVal F) = .dict kvs := by
  have hload : ∀ {v : PyVal F}, tryLoadJsonObject v = some kvs → form (.dict kvs : PyVal F) = .dict kvs := by
    intro v hv
    cases v with
    | str s => exact form_of_loads (tryLoadJsonObject_eq_some.mp hv)
    | _ => cases hv
  unfold extractJsonObject at h
  split at h
  · next loaded hloaded =>
    obtain rfl := Option.some.inj h
    exact hload hloaded
  · obtain ⟨span, -, hspan⟩ := Option.bind_eq_some_iff.mp h
    exact hload hspan

theorem form_givenStructured (b : Builtins F) {rawProposal : Fields F}
    (h : form (.dict rawProposal) = .dict rawProposal) :
    form (.dict (givenStructured b rawProposal)) = .dict (givenStructured b rawProposal) := by
  have hvalue : form (getNone (py "structured_output") rawProposal).orEmpty
      = (getNone (py "structured_output") rawProposal).orEmpty := by
    unfold PyVal.orEmpty
    split_ifs
    · exact form_getD h _ rfl
    · rfl
  unfold givenStructured
  split
  · next kvs hkvs => rwa [hkvs] at hvalue
  · exact form_strItems (by simp)

/-- The structured proposal of a JSON object is one. -/
theorem form_normalizeStructuredOutput (b : Builtins F) {rawProposal : Fields F}
    (h : form (.dict rawProposal) = .dict rawProposal) :
    form (.dict (normalizeStructuredOutput b rawProposal))
      = .dict (normalizeStructuredOutput b rawProposal) := by
  unfold normalizeStructuredOutput
  dsimp only
  split_ifs
  · exact form_givenStructured b h
  · cases hfound : (normalizationCandidates rawProposal (givenStructured b rawProposal)).findSome?
        fun candidate => (extractJsonObject candidate).filter hasSubstantiveContractFields with
    | none => exact form_givenStructured b h
    | some extracted =>
      obtain ⟨candidate, -, hextracted⟩ := List.exists_of_findSome?_eq_some hfound
      exact form_of_extractJsonObject (Option.filter_eq_some_iff.mp hextracted).1

/-- What the wrapper hands on. -/
theorem wrapAgentProposal_eq_ok {sha : Sha256} {b : Builtins F} {context : Context}
    {rawProposal : Fields F} {providerMetadata : List (PyStr × PyStr)} {p : Wrapped F}
    (h : wrapAgentProposal sha b context rawProposal providerMetadata = .ok p) :
    p.rawOutput = (dictGet (py "raw_output") rawProposal).getD (.str []) ∧
      p.structuredOutput = normalizeStructuredOutput b rawProposal ∧
      p.agentSuppliedStatus = agentSuppliedStatus rawProposal := by
  unfold wrapAgentProposal at h
  dsimp only at h
  split at h
  · cases h
  · obtain rfl := Except.ok.inj h
    exact ⟨rfl, rfl, rfl⟩

theorem printable_textDict (ps : List (PyStr × PyStr)) :
    Printable canonicalStyle (textDict ps : PyVal F) := by
  apply printable_object
  intro p hp
  obtain ⟨q, -, rfl⟩ := List.mem_map.mp hp
  exact ⟨_, _, rfl, rfl⟩

/-- `hash_canonical` returns just if there is a text to hash. -/
theorem exists_hashCanonical_iff {sha : Sha256} {v : PyVal F} :
    (∃ s, hashCanonical sha v = .ok s) ↔ Printable canonicalStyle v := by
  constructor
  · rintro ⟨s, h⟩
    obtain ⟨bs, hbs, -⟩ := hashV1_eq_ok.mp h
    obtain ⟨w, t, hw, ht, -⟩ := canonicalJson_eq_ok.mp hbs
    exact ⟨w, t, hw, ht⟩
  · rintro ⟨w, t, hw, ht⟩
    exact ⟨_, hashV1_eq_ok.mpr ⟨_, canonicalJson_eq_ok.mpr ⟨w, t, hw, ht, rfl⟩, rfl⟩⟩

/-- **The wrapper returns just if no NaN and no infinity is in what is hashed.** -/
theorem exists_wrap_iff (sha : Sha256) (b : Builtins F) (context : Context) {rawProposal : Fields F}
    (h : form (.dict rawProposal) = .dict rawProposal) (providerMetadata : List (PyStr × PyStr)) :
    (∃ p, wrapAgentProposal sha b context rawProposal providerMetadata = .ok p) ↔
      finite (getNone (py "raw_output") rawProposal) = true ∧
        finite (.dict (normalizeStructuredOutput b rawProposal) : PyVal F) = true := by
  have hraw : finite ((dictGet (py "raw_output") rawProposal).getD (.str []))
      = finite (getNone (py "raw_output") rawProposal) := by
    rw [getNone]
    cases dictGet (py "raw_output") rawProposal with
    | none => rfl
    | some v => rfl
  have hstable : ∀ {v : PyVal F}, form v = v → stable v = true := fun hv => hv ▸ stable_form _
  have hraw' : stable ((dictGet (py "raw_output") rawProposal).getD (.str [])) = true :=
    hstable (form_getD h _ rfl)
  have hstructured := hstable (form_normalizeStructuredOutput b h)
  rw [← hraw]
  generalize hpayload : (.dict (strItems [
    (py "raw_output", (dictGet (py "raw_output") rawProposal).getD (.str [])),
    (py "structured_output", .dict (normalizeStructuredOutput b rawProposal)),
    (py "provider", textDict providerMetadata)]) : PyVal F) = payload
  have hwrap : (∃ p, wrapAgentProposal sha b context rawProposal providerMetadata = .ok p) ↔
      ∃ s, hashCanonical sha payload = .ok s := by
    unfold wrapAgentProposal
    dsimp only
    rw [hpayload]
    cases hashCanonical sha payload with
    | error err => simp
    | ok s => simp
  rw [hwrap, exists_hashCanonical_iff, ← hpayload]
  constructor
  · intro hprint
    have hfinite := finite_strItems.mp (finite_of_printable rfl hprint)
    simp only [List.forall_mem_cons] at hfinite
    exact ⟨hfinite.1, hfinite.2.1⟩
  · rintro ⟨hraw, hfinite⟩
    apply printable_object
    simp only [List.forall_mem_cons, List.not_mem_nil, IsEmpty.forall_iff, implies_true, and_true]
    exact ⟨(printable_iff_finite rfl hraw').mpr hraw,
      (printable_iff_finite rfl hstructured).mpr hfinite, printable_textDict providerMetadata⟩

/-! ### The gateway returns -/

theorem judge_eq_ok {sha : Sha256} {b : Builtins F} {context : Context} {rawProposal : Fields F}
    {providerMetadata : List (PyStr × PyStr)} {v : Validation F} :
    judge sha b context rawProposal providerMetadata = .ok v ↔
      ∃ p, wrapAgentProposal sha b context rawProposal providerMetadata = .ok p ∧
        validateAgentProposal b p context = .ok v := bind_eq_ok

omit [PyFloat F] in
theorem verdict_rejected_iff {hard warnings : List (Issue F)} :
    verdict hard warnings = .rejectedByValidator ↔ hard ≠ [] := by
  cases hard <;> cases warnings <;> simp [verdict]

omit [PyFloat F] in
theorem verdict_accepted_iff {hard warnings : List (Issue F)} :
    verdict hard warnings = .acceptedForAudit ↔ hard = [] ∧ warnings = [] := by
  cases hard <;> cases warnings <;> simp [verdict]

/-- The gateway returns one of the statuses, which the rejections and the warnings tell. -/
def Judges (sha : Sha256) (b : Builtins F) (context : Context) (rawProposal : Fields F)
    (providerMetadata : List (PyStr × PyStr)) : Prop :=
  ∃ v, judge sha b context rawProposal providerMetadata = .ok v ∧
    v.status.text ∈ v.allowedStatuses ∧
    (v.status = .rejectedByValidator ↔ v.rejections ≠ []) ∧
    (v.status = .acceptedForAudit ↔ v.rejections = [] ∧ v.warnings = [])

/-- **The gateway returns a verdict on a JSON object just if no NaN and no infinity is in what it
hashes and each field of the proposal that it goes over is false, a string, a list or a dict.** -/
theorem judges_iff (sha : Sha256) (b : Builtins F) (context : Context) (rawProposal : Fields F)
    (h : form (.dict rawProposal) = .dict rawProposal) (providerMetadata : List (PyStr × PyStr)) :
    Judges sha b context rawProposal providerMetadata ↔
      finite (getNone (py "raw_output") rawProposal) = true ∧
        finite (.dict (normalizeStructuredOutput b rawProposal) : PyVal F) = true ∧
        ∀ field ∈ iteratedFields,
          canIterate (getNone field (normalizeStructuredOutput b rawProposal)) = true := by
  have hstable : stable (.dict (normalizeStructuredOutput b rawProposal) : PyVal F) = true :=
    form_normalizeStructuredOutput b h ▸ stable_form _
  rw [← and_assoc, ← exists_wrap_iff sha b context h providerMetadata]
  constructor
  · rintro ⟨v, hv, -⟩
    obtain ⟨p, hp, hvalidate⟩ := judge_eq_ok.mp hv
    obtain ⟨-, hstructured, -⟩ := wrapAgentProposal_eq_ok hp
    rw [← hstructured] at hstable ⊢
    exact ⟨⟨p, hp⟩, (exists_validate_iff b hstable context).mp ⟨v, hvalidate⟩⟩
  · rintro ⟨⟨p, hp⟩, hfields⟩
    obtain ⟨-, hstructured, -⟩ := wrapAgentProposal_eq_ok hp
    rw [← hstructured] at hstable hfields
    obtain ⟨v, hv⟩ := (exists_validate_iff b hstable context).mpr hfields
    obtain ⟨-, -, -, -, -, -, -, -, -, -, hallowed, hstatus⟩ := validateAgentProposal_eq_ok hv
    refine ⟨v, judge_eq_ok.mpr ⟨p, hp, hv⟩, ?_, ?_, ?_⟩
    · rw [hallowed]
      cases v.status <;> decide
    · rw [hstatus, verdict_rejected_iff]
    · rw [hstatus, verdict_accepted_iff]

/-! ### What an accepted proposal honours -/

/-- An item of the list under a field, or of nothing. -/
def Holds (field : PyStr) (structured : Fields F) (item : PyVal F) : Prop :=
  ∃ items, itemsOf field structured = .ok items ∧ item ∈ items

/-- What holds of a proposal that is accepted. -/
structure Honours (b : Builtins F) (context : Context) (rawOutput : PyVal F)
    (structured : Fields F) : Prop where
  /-- Every required check is claimed or surfaced. -/
  covered : ∀ check ∈ context.requiredChecks, Holds (py "claimed_checks") structured (.str check) ∨
    ∃ surfaced, surfacedChecks b structured = .ok surfaced ∧ check ∈ surfaced
  /-- Every check claimed is required. -/
  within : ∀ check, Holds (py "claimed_checks") structured (.str check) →
    check ∈ context.requiredChecks
  limitations : (getNone (py "limitations") structured).truthy = true
  /-- No phrase that promises too much is in the lower case of the raw output and the proposal. -/
  phrases : ∀ text, stableJson (.dict structured) = .ok text → ∀ phrase ∈ overpromisePhrases,
    ¬phrase <:+: b.lower (b.strOf rawOutput ++ nl :: text)
  /-- No candidate rule is promoted. -/
  promoted : promotedCandidateRules b structured = .ok []
  /-- A scope that is given as a dict names no other user, domain or skill. -/
  scopes : ∀ scope, .dict scope ∈ candidateScopes structured → leaks context scope = false

omit [PyFloat F] in
theorem mem_textsOf {vs : List (PyVal F)} {s : PyStr} : s ∈ textsOf vs ↔ .str s ∈ vs := by
  simp only [textsOf, List.mem_filterMap]
  constructor
  · rintro ⟨v, hv, heq⟩
    cases v with
    | str t =>
      obtain rfl := Option.some.inj heq
      exact hv
    | _ => cases heq
  · intro hv
    exact ⟨.str s, hv, rfl⟩

theorem sortedDifference_eq_nil_iff {xs ys : List PyStr} :
    sortedDifference xs ys = [] ↔ ∀ x ∈ xs, x ∈ ys := by
  constructor
  · intro h x hx
    by_contra hnot
    have hmem : x ∈ sortedDifference xs ys := by
      rw [sortedDifference, List.mem_insertionSort, List.mem_dedup, List.mem_filter]
      exact ⟨hx, by simpa using hnot⟩
    rw [h] at hmem
    cases hmem
  · intro h
    rw [List.eq_nil_iff_forall_not_mem]
    intro x hx
    rw [sortedDifference, List.mem_insertionSort, List.mem_dedup, List.mem_filter] at hx
    exact absurd (h x hx.1) (by simpa using hx.2)

/-- A check is claimed or surfaced, and no other one is claimed, when nothing is said of checks. -/
theorem covered_of_checks {b : Builtins F} {structured : Fields F} {context : Context}
    (h : validateClaimedChecks b structured context = .ok ([], [])) :
    (∀ check ∈ context.requiredChecks, Holds (py "claimed_checks") structured (.str check) ∨
      ∃ surfaced, surfacedChecks b structured = .ok surfaced ∧ check ∈ surfaced) ∧
    ∀ check, Holds (py "claimed_checks") structured (.str check) →
      check ∈ context.requiredChecks := by
  simp only [validateClaimedChecks, bind_eq_ok] at h
  obtain ⟨claimed, hclaimed, surfaced, hsurfaced, heq⟩ := h
  obtain ⟨huncovered, houtside⟩ := Prod.mk.inj (Except.ok.inj heq)
  rw [List.map_eq_nil_iff, sortedDifference_eq_nil_iff] at huncovered houtside
  constructor
  · intro check hcheck
    rcases List.mem_append.mp (huncovered check hcheck) with hmem | hmem
    · exact .inl ⟨claimed, hclaimed, mem_textsOf.mp hmem⟩
    · exact .inr ⟨surfaced, hsurfaced, hmem⟩
  · rintro check ⟨items, hitems, hmem⟩
    obtain rfl := Except.ok.inj (hclaimed.symm.trans hitems)
    exact houtside check (mem_textsOf.mpr hmem)

/-- No scope that is a dict leaks when nothing is said of scopes. -/
theorem scopes_of_scopeViolation {b : Builtins F} {p : Wrapped F} {context : Context}
    (h : scopeViolation b p context = .ok none) :
    ∀ scope, .dict scope ∈ candidateScopes p.structuredOutput → leaks context scope = false := by
  intro scope hmem
  unfold scopeViolation at h
  split at h
  · cases Except.ok.inj h
  · next hleak =>
    have hnot := List.find?_eq_none.mp hleak _ hmem
    simpa using hnot

omit [PyFloat F] in
/-- No phrase is in the text when nothing is said of phrases. -/
theorem phrases_of_phraseIssues {text : PyStr} (h : (phraseIssues text : List (Issue F)) = []) :
    ∀ phrase ∈ overpromisePhrases, ¬phrase <:+: text := by
  intro phrase hphrase hin
  rw [phraseIssues, List.map_eq_nil_iff, List.filter_eq_nil_iff] at h
  exact h phrase hphrase (by simpa using hin)

/-- **What holds of an accepted proposal**, and no status came with it. -/
theorem honours_of_accepted {b : Builtins F} {p : Wrapped F} {context : Context} {v : Validation F}
    (h : validateAgentProposal b p context = .ok v) (hv : v.status = .acceptedForAudit) :
    Honours b context p.rawOutput p.structuredOutput ∧ p.agentSuppliedStatus = none := by
  obtain ⟨text, promoted, scope, checks, htext, hpromoted, hscope, hchecks, hrejections, hwarnings,
    -, hstatus⟩ := validateAgentProposal_eq_ok h
  rw [hstatus, verdict_accepted_iff, hrejections, hwarnings] at hv
  simp only [List.append_eq_nil_iff] at hv
  obtain ⟨⟨⟨⟨hphrases, hrules⟩, hnoscope⟩, huncovered⟩, ⟨⟨hstatus, houtside⟩, hlimitations⟩, -⟩ := hv
  obtain ⟨hcovered, hwithin⟩ := covered_of_checks
    (hchecks.trans (congrArg Except.ok (Prod.ext huncovered houtside)))
  have hnil : promoted = [] := by
    unfold promotionIssues at hrules
    split_ifs at hrules with hempty
    exact List.isEmpty_iff.mp hempty
  obtain rfl : scope = none := Option.toList_eq_nil_iff.mp hnoscope
  refine ⟨⟨hcovered, hwithin, ?_, ?_, hnil ▸ hpromoted, scopes_of_scopeViolation hscope⟩, ?_⟩
  · by_contra hfalse
    rw [limitationIssues, if_neg hfalse] at hlimitations
    cases hlimitations
  · intro t ht
    simp only [proposalText, bind_eq_ok] at htext
    obtain ⟨t', ht', heq⟩ := htext
    obtain rfl := Except.ok.inj (ht'.symm.trans ht)
    exact phrases_of_phraseIssues (Except.ok.inj heq ▸ hphrases)
  · unfold statusIssues at hstatus
    split at hstatus
    · cases hstatus
    · assumption

/-! ### The status a provider supplies -/

/-- The proposals have the same values but under `"validation"`. -/
def SameBut (rawProposal rawProposal' : Fields F) : Prop :=
  ∀ k ≠ py "validation", dictGet k rawProposal' = dictGet k rawProposal

omit [PyFloat F] in
theorem SameBut.getNone {rawProposal rawProposal' : Fields F} (h : SameBut rawProposal rawProposal')
    {k : PyStr} (hk : k ≠ py "validation") : getNone k rawProposal' = getNone k rawProposal := by
  rw [Daryl.getNone, h k hk, Daryl.getNone]

/-- The structured proposal does not come from `"validation"`. -/
theorem SameBut.normalize {b : Builtins F} {rawProposal rawProposal' : Fields F}
    (h : SameBut rawProposal rawProposal') :
    normalizeStructuredOutput b rawProposal' = normalizeStructuredOutput b rawProposal := by
  unfold normalizeStructuredOutput givenStructured normalizationCandidates
  rw [h.getNone (k := py "structured_output") (by decide),
    h.getNone (k := py "raw_output") (by decide), h.getNone (k := py "narrative") (by decide),
    h.getNone (k := py "content") (by decide)]

/-- What is wrapped differs in the status alone. -/
theorem SameBut.wrap {sha : Sha256} {b : Builtins F} {context : Context}
    {rawProposal rawProposal' : Fields F} (h : SameBut rawProposal rawProposal')
    {providerMetadata : List (PyStr × PyStr)} {p : Wrapped F}
    (hp : wrapAgentProposal sha b context rawProposal providerMetadata = .ok p) :
    wrapAgentProposal sha b context rawProposal' providerMetadata
      = .ok { p with agentSuppliedStatus := agentSuppliedStatus rawProposal' } := by
  unfold wrapAgentProposal at hp ⊢
  rw [h.normalize, h (py "raw_output") (by decide)]
  dsimp only at hp ⊢
  split at hp
  · cases hp
  · rw [← Except.ok.inj hp]

/-- With another status the same is rejected. -/
theorem validate_of_status {b : Builtins F} {p : Wrapped F} {context : Context} {v : Validation F}
    (h : validateAgentProposal b p context = .ok v) (status : Option PyStr) :
    ∃ v', validateAgentProposal b { p with agentSuppliedStatus := status } context = .ok v' ∧
      v'.rejections = v.rejections := by
  simp only [validateAgentProposal, bind_eq_ok] at h
  obtain ⟨text, htext, promoted, hpromoted, scope, hscope, checks, hchecks, hv⟩ := h
  obtain rfl := Except.ok.inj hv
  exact ⟨_, bind_eq_ok.mpr ⟨_, htext, bind_eq_ok.mpr ⟨_, hpromoted, bind_eq_ok.mpr ⟨_, hscope,
    bind_eq_ok.mpr ⟨_, hchecks, rfl⟩⟩⟩⟩, rfl⟩

/-- **An accepted proposal honours the contract as it is checked.**  Another status that the
provider supplies leaves the rejections as they are, and with a text for one nothing is accepted. -/
theorem judge_honours (sha : Sha256) (b : Builtins F) (context : Context) (rawProposal : Fields F)
    (providerMetadata : List (PyStr × PyStr)) (v : Validation F)
    (h : judge sha b context rawProposal providerMetadata = .ok v) :
    (v.status = .acceptedForAudit → Honours b context
      ((dictGet (py "raw_output") rawProposal).getD (.str []))
      (normalizeStructuredOutput b rawProposal)) ∧
    ∀ rawProposal', SameBut rawProposal rawProposal' →
      ∃ v', judge sha b context rawProposal' providerMetadata = .ok v' ∧
        v'.rejections = v.rejections ∧
        (v'.status = .acceptedForAudit → agentSuppliedStatus rawProposal' = none) := by
  obtain ⟨p, hp, hv⟩ := judge_eq_ok.mp h
  obtain ⟨hraw, hstructured, hsupplied⟩ := wrapAgentProposal_eq_ok hp
  constructor
  · intro haccepted
    rw [← hraw, ← hstructured]
    exact (honours_of_accepted hv haccepted).1
  · intro rawProposal' hsame
    obtain ⟨v', hv', hrejections⟩ := validate_of_status hv (agentSuppliedStatus rawProposal')
    exact ⟨v', judge_eq_ok.mpr ⟨_, hsame.wrap hp, hv'⟩, hrejections,
      fun haccepted => (honours_of_accepted hv' haccepted).2⟩

end

/-! ### Sample proposals -/

/-- A context with one required check. -/
def sampleContext : Context :=
  ⟨py "mohamed", py "omari_ai", py "lead_capture", [py "phone"], py "v1:0"⟩

/-- Lower case on ASCII; `str` is not asked. -/
def sampleBuiltins : Builtins FloatLit where
  str _ := []
  lower := List.map fun c => if 65 ≤ c.val ∧ c.val ≤ 90 then c + 32 else c

/-- A proposal under `"structured_output"`, and more. -/
def sampleRaw (structured more : List (PyStr × PyVal FloatLit)) : Fields FloatLit :=
  strItems ((py "structured_output", .dict (strItems structured)) :: more)

/-- A check claimed, and a limitation. -/
def samplePlain : List (PyStr × PyVal FloatLit) :=
  [(py "claimed_checks", .list [.str (py "phone")]),
    (py "limitations", .list [.str (py "one call")])]

/-- The same, with a claim of truth and a scope that is a text. -/
def sampleBold : List (PyStr × PyVal FloatLit) :=
  samplePlain ++ [(py "truth_claim", .bool true), (py "scope", .str (py "another user"))]

/-- What the gateway says of a proposal. -/
def statusOf (rawProposal : Fields FloatLit) : Option Status :=
  (judge nibbles sampleBuiltins sampleContext rawProposal []).toOption.map Validation.status

theorem statusOf_eq_some {rawProposal : Fields FloatLit} {status : Status}
    (h : statusOf rawProposal = some status) :
    ∃ v, judge nibbles sampleBuiltins sampleContext rawProposal [] = .ok v ∧ v.status = status := by
  unfold statusOf at h
  cases hv : judge nibbles sampleBuiltins sampleContext rawProposal [] with
  | error err =>
    rw [hv] at h
    cases h
  | ok v =>
    rw [hv] at h
    exact ⟨v, rfl, Option.some.inj h⟩

theorem statusOf_plain : statusOf (sampleRaw samplePlain []) = some .acceptedForAudit := by
  decide +kernel

/-- The gateway returns on a plain proposal. -/
theorem judges_plain : Judges nibbles sampleBuiltins sampleContext (sampleRaw samplePlain []) [] :=
  (judges_iff nibbles sampleBuiltins sampleContext _ rfl []).mpr ⟨rfl, rfl, by decide⟩

/-- **With a number for the claimed checks it raises.** -/
theorem not_judges :
    form (.dict (sampleRaw [(py "claimed_checks", .int 1)] []))
        = .dict (sampleRaw [(py "claimed_checks", .int 1)] []) ∧
      ¬Judges nibbles sampleBuiltins sampleContext
        (sampleRaw [(py "claimed_checks", .int 1)] []) [] := by
  refine ⟨rfl, ?_⟩
  rintro ⟨v, hv, -⟩
  have hnone : statusOf (sampleRaw [(py "claimed_checks", .int 1)] []) = none := by decide +kernel
  rw [statusOf, hv] at hnone
  cases hnone

/-- What a plain proposal that is accepted honours. -/
theorem honours_plain : ∃ v,
    judge nibbles sampleBuiltins sampleContext (sampleRaw samplePlain []) [] = .ok v ∧
      Honours sampleBuiltins sampleContext (.str [])
        (normalizeStructuredOutput sampleBuiltins (sampleRaw samplePlain [])) := by
  obtain ⟨v, hv, hstatus⟩ := statusOf_eq_some statusOf_plain
  exact ⟨v, hv, (judge_honours nibbles sampleBuiltins sampleContext _ [] v hv).1 hstatus⟩

/-- **A proposal is accepted that claims a check with nothing written on it, a truth and another
scope, beside a narrative that promises too much; and a status that is no text in place of one turns
review into acceptance.** -/
theorem accepted_uncovered :
    statusOf (sampleRaw sampleBold [(py "narrative", .str (py "guaranteed"))])
        = some .acceptedForAudit ∧
      normalizeStructuredOutput sampleBuiltins
        (sampleRaw sampleBold [(py "narrative", .str (py "guaranteed"))]) = strItems sampleBold ∧
      getNone (py "claimed_checks") (strItems sampleBold) = .list [.str (py "phone")] ∧
      getNone (py "claimed_check_coverage") (strItems sampleBold) = .none ∧
      getNone (py "truth_claim") (strItems sampleBold) = .bool true ∧
      getNone (py "scope") (strItems sampleBold) = .str (py "another user") ∧
      statusOf (sampleRaw samplePlain
        [(py "validation", .dict (strItems [(py "status", .str (py "accepted_for_audit"))]))])
        = some .needsHumanReview ∧
      statusOf (sampleRaw samplePlain
        [(py "validation", .dict (strItems [(py "status", .int 1)]))]) = some .acceptedForAudit := by
  refine ⟨by decide +kernel, by decide +kernel, rfl, rfl, rfl, rfl, by decide +kernel,
    by decide +kernel⟩

end Gateway

end Daryl
