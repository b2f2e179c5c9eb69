import Daryl.Dsm.Authority
import Daryl.Py.Name
import Daryl.Lib.Run

/-!
# `orchestrator`: admission to the collective

An entry is admitted by the rules over a context that is computed first: the
trust of the agent, the answer of the policy and the number of entries admitted
for the agent so far.  A decision is cached by the hash of its entry, and an entry
with a cached hash is not looked at again.  The clock and whether the audit shard
could be written are inputs.

## Main definitions

* `Candidate` — what admission reads of an entry.
* `Rule`, `RuleSet.default` — the rules.
* `World`, `admitEntry` — the state, and one admission.
* `worldStep` — one call on the policies, the identities or the orchestrator.
* `Justified` — the logs and the counter allow the admission.
* `VerdictSurvives` — the answer of the policy is the answer of `admit`.

## Main results

* `admitEntry_cases` — what one call of `admit` does.
* `decision_allow_iff` — **an evaluated admission is justified in its state.**
* `verdictSurvives_iff` — **the answer of the policy survives the rules, but for one that asks
  for approval.**
-/

namespace Daryl

open Py

/-- What admission and the projections read of an entry, of the types its class
declares; a missing hash is empty. -/
structure Candidate (F : Type) where
  hash : PyStr
  prevHash : Option PyStr
  content : PyStr
  metadata : List (Key F × PyVal F)

/-- `(entry.metadata or {}).get("event_type", "unknown")`. -/
def Candidate.entryType {F : Type} (entry : Candidate F) : PyVal F :=
  (dictGet (py "event_type") entry.metadata).getD (.str (py "unknown"))

/-- `AdmissionContext`, without the chain tip nothing sets. -/
structure AdmissionContext where
  agentTrust : ℚ
  sovereigntyResult : EnforcementResult
  recentAdmissions : ℕ

/-- `RuleResult`. -/
structure RuleResult where
  passed : Bool
  ruleName : PyStr
  reason : Option PyStr
  deriving DecidableEq

/-- `AdmissionResult`. -/
structure AdmissionResult where
  verdict : Verdict
  reason : PyStr
  entryHash : PyStr
  agentId : PyStr
  decidedAt : Datetime
  ruleResults : List RuleResult
  deriving DecidableEq

/-- A rule. -/
structure Rule (F : Type) where
  name : PyStr
  evaluate : Candidate F → PyStr → AdmissionContext → RuleResult

/-- The half-even rounding of a number to hundredths. -/
def hundredths (q : ℚ) : ℕ :=
  let x := |q| * 100
  let n := x.floor.toNat
  if x - n < 1 / 2 then n
  else if 1 / 2 < x - n then n + 1
  else if n % 2 = 0 then n
  else n + 1

/-- The format `.2f`. -/
def fmt2 (q : ℚ) : PyStr :=
  (if q < 0 then py "-" else []) ++ natStr (hundredths q / 100) ++ py "." ++
    zfill 2 (natStr (hundredths q % 100))

section

variable {F : Type}

/-- `SovereigntyCheckRule`. -/
def sovereigntyCheckRule : Rule F where
  name := py "sovereignty_check"
  evaluate _ _ context :=
    if context.sovereigntyResult.verdict = .allow then ⟨true, py "sovereignty_check", none⟩
    else
      ⟨false, py "sovereignty_check",
        some (py "sovereignty: " ++ context.sovereigntyResult.reason.getD (py "None"))⟩

/-- `MinTrustScoreRule`. -/
def minTrustScoreRule (minScore : ℚ) : Rule F where
  name := py "min_trust_score"
  evaluate _ _ context :=
    if minScore ≤ context.agentTrust then ⟨true, py "min_trust_score", none⟩
    else
      ⟨false, py "min_trust_score",
        some (py "trust " ++ fmt2 context.agentTrust ++ py " < " ++ fmt2 minScore)⟩

/-- `RateLimitRule`. -/
def rateLimitRule (maxPerWindow : ℕ) : Rule F where
  name := py "rate_limit"
  evaluate _ _ context :=
    if context.recentAdmissions < maxPerWindow then ⟨true, py "rate_limit", none⟩
    else
      ⟨false, py "rate_limit",
        some (py "rate limit: " ++ natStr context.recentAdmissions ++ py " >= " ++
          natStr maxPerWindow)⟩

/-- `NoSelfReferenceRule`: an entry without a hash, or without a predecessor, does
not reference itself. -/
def noSelfReferenceRule : Rule F where
  name := py "no_self_reference"
  evaluate entry _ _ :=
    if entry.hash ≠ [] ∧ entry.prevHash = some entry.hash then
      ⟨false, py "no_self_reference", some (py "entry references itself")⟩
    else ⟨true, py "no_self_reference", none⟩

/-- The float `0.3`. -/
def defaultMinTrust : ℚ := 5404319552844595 / 18014398509481984

/-- The rate limit of the default rules. -/
def defaultRate : ℕ := 100

/-- `RuleSet.default`. -/
def RuleSet.default : List (Rule F) :=
  [sovereigntyCheckRule, minTrustScoreRule defaultMinTrust, rateLimitRule defaultRate,
    noSelfReferenceRule]

/-- The loop over the rules, up to the first that fails: the results, the verdict
and its reason. -/
def evaluateRules (entry : Candidate F) (agentId : PyStr) (context : AdmissionContext) :
    List (Rule F) → List RuleResult × Verdict × PyStr
  | [] => ([], .allow, py "all rules passed")
  | rule :: rules =>
    let rr := rule.evaluate entry agentId context
    if rr.passed then
      let (rest, decision) := evaluateRules entry agentId context rules
      (rr :: rest, decision)
    else
      let reason := rr.reason.getD []
      ([rr], .deny, if reason = [] then rr.ruleName else reason)

end

/-! ### The orchestrator -/

/-- The orchestrator, its two registers and the audit shard. -/
structure World where
  authority : Authority
  cache : List (PyStr × AdmissionResult)
  admissionCounts : List (PyStr × ℕ)
  audit : List AdmissionResult

/-- `_admission_counts.get(agent_id, 0)`. -/
def World.admissions (w : World) (agentId : PyStr) : ℕ :=
  (Dict.get agentId w.admissionCounts).getD 0

/-- A call of `admit`: its arguments, the readings of the clock it makes in their
order, and whether the audit shard could be written. -/
structure AdmitCall (F : Type) where
  entry : Candidate F
  agentId : PyStr
  ownerId : PyStr
  now : Datetime
  trustNow : Datetime
  policyNow : Datetime
  logged : Bool

variable {F : Type}

/-- `_build_context`. -/
def buildContext (trust : FastTrust) (c : AdmitCall F) (w : World) : AdmissionContext × World :=
  let (score, identity) := w.authority.identity.trustScore trust c.trustNow c.agentId
  let (sovereignty, authority) :=
    allows trust c.policyNow c.ownerId c.agentId c.entry.entryType none
      { w.authority with identity := identity }
  (⟨score, sovereignty, w.admissions c.agentId⟩, { w with authority := authority })

/-- The decision on an entry that is not cached. -/
def decision (rules : List (Rule F)) (context : AdmissionContext) (c : AdmitCall F) :
    AdmissionResult :=
  let (results, verdict, reason) := evaluateRules c.entry c.agentId context rules
  let pending := verdict = .allow ∧ context.sovereigntyResult.verdict = .pending
  let pendingReason := context.sovereigntyResult.reason.getD []
  { verdict := if pending then .pending else verdict
    reason :=
      if pending then
        if pendingReason = [] then py "approval required" else pendingReason
      else reason
    entryHash := c.entry.hash
    agentId := c.agentId
    decidedAt := c.now
    ruleResults := results }

/-- `_log_decision`: an `OSError` is logged away, but the metadata names the agent,
and a name UTF-8 refuses is an exception. -/
def logDecision (logged : Bool) (result : AdmissionResult) (w : World) :
    Except PyError World :=
  if Encodable result.agentId then
    .ok (if logged then { w with audit := w.audit ++ [result] } else w)
  else .error .unicodeEncodeError

/-- The counter and the cache after a decision. -/
def World.record (result : AdmissionResult) (w : World) : World :=
  { w with
    admissionCounts :=
      if result.verdict = .allow then
        Dict.set result.agentId (w.admissions result.agentId + 1) w.admissionCounts
      else w.admissionCounts
    cache :=
      if result.entryHash = [] then w.cache else Dict.set result.entryHash result w.cache }

/-- The cached decision on an entry; an empty hash is never cached. -/
def World.cached (w : World) (entry : Candidate F) : Option AdmissionResult :=
  if entry.hash = [] then none else Dict.get entry.hash w.cache

/-- `admit`. -/
def admitEntry (trust : FastTrust) (rules : List (Rule F)) (c : AdmitCall F) (w : World) :
    Except PyError AdmissionResult × World :=
  match w.cached c.entry with
  | some result => (.ok result, w)
  | none =>
    let (context, w') := buildContext trust c w
    let result := decision rules context c
    match logDecision c.logged result w' with
    | .error e => (.error e, w')
    | .ok w'' => (.ok result, w''.record result)

/-- The policies after a write that may have raised. -/
def World.withPolicy (w : World) (p : Option SovereigntyPolicy) : World :=
  { w with authority := { w.authority with policy := p.getD w.authority.policy } }

/-- The identities after a write that may have raised. -/
def World.withIdentity (w : World) (r : Option IdentityRegistry) : World :=
  { w with authority := { w.authority with identity := r.getD w.authority.identity } }

/-- A call on the registers or on the orchestrator. -/
inductive WorldEvent (F : Type)
  | setPolicy (ownerId : PyStr) (policy : Policy)
  | revokePolicy (ownerId : PyStr)
  | register (agentId : PyStr) (registration : Registration)
  | revokeAgent (agentId ownerId : PyStr)
  | admitEntry (c : AdmitCall F)

/-- One call.  A call that raises writes nothing. -/
def worldStep (trust : FastTrust) (rules : List (Rule F)) (w : World) : WorldEvent F → World
  | .setPolicy ownerId policy => w.withPolicy (w.authority.policy.set ownerId policy)
  | .revokePolicy ownerId => w.withPolicy (w.authority.policy.revoke ownerId)
  | .register agentId registration =>
    w.withIdentity (w.authority.identity.register agentId registration)
  | .revokeAgent agentId ownerId =>
    w.withIdentity (w.authority.identity.revoke agentId ownerId)
  | .admitEntry c => (admitEntry trust rules c w).2

/-- A new orchestrator over these logs. -/
def World.open (policies : List (Register.Event PyStr Policy))
    (identities : List (Register.Event PyStr Registration)) : World :=
  ⟨⟨⟨policies, none⟩, ⟨identities, none⟩⟩, [], [], []⟩

/-! ### What an admission does -/

/-- The rules let an entry pass iff every rule does. -/
theorem evaluateRules_allow_iff (entry : Candidate F) (agentId : PyStr)
    (context : AdmissionContext) : ∀ rules : List (Rule F),
    (evaluateRules entry agentId context rules).2.1 = .allow ↔
      ∀ rule ∈ rules, (rule.evaluate entry agentId context).passed = true
  | [] => by simp [evaluateRules]
  | rule :: rules => by
    have ih := evaluateRules_allow_iff entry agentId context rules
    by_cases h : (rule.evaluate entry agentId context).passed = true
    · simp [evaluateRules, h, ih]
    · simp [evaluateRules, h]

/-- The entry names itself as its predecessor. -/
def Candidate.SelfReference (entry : Candidate F) : Prop :=
  entry.hash ≠ [] ∧ entry.prevHash = some entry.hash

section

variable {entry : Candidate F} {agentId : PyStr} {context : AdmissionContext}

@[simp] theorem sovereigntyCheckRule_passed :
    (sovereigntyCheckRule.evaluate entry agentId context).passed = true ↔
      context.sovereigntyResult.verdict = .allow := by
  by_cases h : context.sovereigntyResult.verdict = .allow <;> simp [sovereigntyCheckRule, h]

@[simp] theorem minTrustScoreRule_passed {minScore : ℚ} :
    ((minTrustScoreRule minScore).evaluate entry agentId context).passed = true ↔
      minScore ≤ context.agentTrust := by
  by_cases h : minScore ≤ context.agentTrust <;> simp [minTrustScoreRule, h]

@[simp] theorem rateLimitRule_passed {maxPerWindow : ℕ} :
    ((rateLimitRule maxPerWindow).evaluate entry agentId context).passed = true ↔
      context.recentAdmissions < maxPerWindow := by
  by_cases h : context.recentAdmissions < maxPerWindow <;> simp [rateLimitRule, h]

@[simp] theorem noSelfReferenceRule_passed :
    (noSelfReferenceRule.evaluate entry agentId context).passed = true ↔
      ¬entry.SelfReference := by
  unfold Candidate.SelfReference
  by_cases h : entry.hash ≠ [] ∧ entry.prevHash = some entry.hash
  · simp [noSelfReferenceRule, h]
  · simp only [noSelfReferenceRule, h, if_false, not_false_eq_true]

end

/-- **The authority for an admission**: in this state, for the agent and the owner
of the call, the logs allow the type, the trust reaches the minimum, the counter
is below the limit and the entry does not reference itself. -/
structure Justified (trust : FastTrust) (w : World) (c : AdmitCall F) : Prop where
  allowed : Allowed trust c.policyNow w.authority.policy.log w.authority.identity.log c.ownerId
    c.agentId c.entry.entryType
  trusted : defaultMinTrust ≤ currentTrust trust c.trustNow w.authority.identity.log c.agentId
  rate : w.admissions c.agentId < defaultRate
  noSelf : ¬c.entry.SelfReference

variable {trust : FastTrust} {w : World} {c : AdmitCall F}

/-- The identities after the trust score was asked for. -/
def World.scored (w : World) : Authority :=
  { w.authority with identity := w.authority.identity.ensureIndex }

theorem coherent_scored (h : w.authority.Coherent) : w.scored.Coherent :=
  ⟨h.policy, h.identity.ensure⟩

theorem buildContext_eq (trust : FastTrust) (c : AdmitCall F) (w : World) :
    buildContext trust c w
      = (⟨(w.authority.identity.trustScore trust c.trustNow c.agentId).1,
          (allows trust c.policyNow c.ownerId c.agentId c.entry.entryType none w.scored).1,
          w.admissions c.agentId⟩,
        { w with authority :=
          (allows trust c.policyNow c.ownerId c.agentId c.entry.entryType none w.scored).2 }) := by
  simp only [buildContext, trustScore_snd, World.scored]

/-- **An evaluated entry is admitted iff its admission is justified.** -/
theorem decision_allow_iff (h : w.authority.Coherent) :
    (decision RuleSet.default (buildContext trust c w).1 c).verdict = .allow ↔
      Justified trust w c := by
  have hallows := allows_allow_iff trust (coherent_scored h) c.policyNow c.ownerId
    c.agentId c.entry.entryType
  have hrules : (evaluateRules c.entry c.agentId (buildContext trust c w).1 RuleSet.default).2.1
      = .allow ↔ Justified trust w c := by
    rw [evaluateRules_allow_iff, buildContext_eq]
    simp only [RuleSet.default, List.mem_cons, List.not_mem_nil, or_false, forall_eq_or_imp,
      forall_eq, sovereigntyCheckRule_passed, minTrustScoreRule_passed, rateLimitRule_passed,
      noSelfReferenceRule_passed, trustScore_fst h, hallows]
    constructor
    · rintro ⟨hs, ht, hr, hn⟩
      exact ⟨hs, ht, hr, hn⟩
    · intro hj
      exact ⟨hj.allowed, hj.trusted, hj.rate, hj.noSelf⟩
  rw [← hrules]
  unfold decision
  dsimp only
  split_ifs with hpending
  · -- a pending answer fails the first rule
    have hsov : (buildContext trust c w).1.sovereigntyResult.verdict = .allow := by
      rw [buildContext_eq]
      exact hallows.mpr (hrules.mp hpending.1).allowed
    rw [hpending.2] at hsov
    cases hsov
  · rfl

/-- **What one call of `admit` does**: it answers from the cache, or it decides. -/
theorem admitEntry_cases {rules : List (Rule F)} {r : AdmissionResult} {w' : World}
    (h : admitEntry trust rules c w = (.ok r, w')) :
    (w.cached c.entry = some r ∧ w' = w) ∨
      (w.cached c.entry = none ∧ r = decision rules (buildContext trust c w).1 c ∧
        w' = World.record r { (buildContext trust c w).2 with
          audit := if c.logged then (buildContext trust c w).2.audit ++ [r]
            else (buildContext trust c w).2.audit }) := by
  unfold admitEntry at h
  cases hcached : w.cached c.entry with
  | some r' =>
    simp only [hcached, Prod.mk.injEq, Except.ok.injEq] at h
    exact .inl ⟨by rw [h.1], h.2.symm⟩
  | none =>
    right
    by_cases henc : Encodable (decision rules (buildContext trust c w).1 c).agentId
    · simp only [hcached, logDecision, if_pos henc, Prod.mk.injEq, Except.ok.injEq] at h
      obtain ⟨rfl, rfl⟩ := h
      refine ⟨rfl, rfl, ?_⟩
      cases c.logged <;> rfl
    · simp [hcached, logDecision, henc] at h

/-- A call of `admit` that raises only builds indexes. -/
theorem admitEntry_error {rules : List (Rule F)} {e : PyError} {w' : World}
    (h : admitEntry trust rules c w = (.error e, w')) : w' = (buildContext trust c w).2 := by
  unfold admitEntry at h
  cases hcached : w.cached c.entry with
  | some r' => simp [hcached] at h
  | none =>
    by_cases henc : Encodable (decision rules (buildContext trust c w).1 c).agentId
    · simp [hcached, logDecision, henc] at h
    · simp only [hcached, logDecision, if_neg henc, Prod.mk.injEq] at h
      exact h.2.symm

/-! ### Runs -/

theorem buildContext_coherent (h : w.authority.Coherent) :
    (buildContext trust c w).2.authority.Coherent := by
  rw [buildContext_eq]
  exact allows_coherent (coherent_scored h) ..

@[simp] theorem buildContext_cache : (buildContext trust c w).2.cache = w.cache := by
  rw [buildContext_eq]

@[simp] theorem buildContext_admissionCounts :
    (buildContext trust c w).2.admissionCounts = w.admissionCounts := by
  rw [buildContext_eq]

/-- The registers keep their indexes in step with their logs. -/
theorem worldStep_coherent (trust : FastTrust) (rules : List (Rule F)) (w : World) (i : WorldEvent F)
    (h : w.authority.Coherent) : (worldStep trust rules w i).authority.Coherent := by
  cases i with
  | setPolicy ownerId policy =>
    refine ⟨?_, h.identity⟩
    simp only [worldStep, World.withPolicy, SovereigntyPolicy.set]
    split_ifs
    · exact Register.coherent_write _
    · exact h.policy
  | revokePolicy ownerId =>
    refine ⟨?_, h.identity⟩
    simp only [worldStep, World.withPolicy, SovereigntyPolicy.revoke]
    split_ifs
    · exact Register.coherent_write _
    · exact h.policy
  | register agentId registration =>
    refine ⟨h.policy, ?_⟩
    simp only [worldStep, World.withIdentity, IdentityRegistry.register]
    split_ifs
    · exact Register.coherent_write _
    · exact h.identity
  | revokeAgent agentId ownerId =>
    refine ⟨h.policy, ?_⟩
    simp only [worldStep, World.withIdentity, IdentityRegistry.revoke]
    split_ifs
    · exact h.identity
    · exact Register.coherent_write _
    · exact h.identity
  | admitEntry c =>
    have hctx : (buildContext trust c w).2.authority.Coherent := buildContext_coherent h
    simp only [worldStep]
    rcases hcall : admitEntry trust rules c w with ⟨_ | r, w'⟩
    · exact admitEntry_error hcall ▸ hctx
    · rcases admitEntry_cases hcall with ⟨-, rfl⟩ | ⟨-, -, rfl⟩
      · exact h
      · exact hctx

/-- The state of an orchestrator after a run from these logs. -/
abbrev worldAfter (trust : FastTrust) (policies : List (Register.Event PyStr Policy))
    (identities : List (Register.Event PyStr Registration)) (is : List (WorldEvent F)) : World :=
  Run.run (worldStep trust RuleSet.default) (.open policies identities) is

variable {policies : List (Register.Event PyStr Policy)}
  {identities : List (Register.Event PyStr Registration)}

theorem worldAfter_coherent (is : List (WorldEvent F)) :
    (worldAfter trust policies identities is).authority.Coherent := by
  induction is using List.reverseRecOn with
  | nil => exact ⟨fun _ h => absurd h (by simp [World.open]), fun _ h => absurd h (by simp [World.open])⟩
  | append_singleton is i ih =>
    rw [worldAfter, Run.run_append]
    exact worldStep_coherent trust RuleSet.default _ i ih

/-- An earlier call of the run took the decision `r` on this hash, and was
justified in taking it. -/
def DecidedBefore (trust : FastTrust) (policies : List (Register.Event PyStr Policy))
    (identities : List (Register.Event PyStr Registration)) (is : List (WorldEvent F))
    (hash : PyStr) (r : AdmissionResult) : Prop :=
  ∃ pre c post, is = pre ++ .admitEntry c :: post ∧ c.entry.hash = hash ∧ hash ≠ [] ∧
    (admitEntry trust RuleSet.default c (worldAfter trust policies identities pre)).1 = .ok r ∧
    Justified trust (worldAfter trust policies identities pre) c

theorem DecidedBefore.concat {is : List (WorldEvent F)} {hash : PyStr} {r : AdmissionResult}
    (i : WorldEvent F) (h : DecidedBefore trust policies identities is hash r) :
    DecidedBefore trust policies identities (is ++ [i]) hash r := by
  obtain ⟨pre, c, post, rfl, hhash, hne, hr, hj⟩ := h
  exact ⟨pre, c, post ++ [i], by simp, hhash, hne, hr, hj⟩

/-- The cached admissions were justified when they were decided. -/
theorem cache_decidedBefore (is : List (WorldEvent F)) {hash : PyStr} {r : AdmissionResult}
    (hget : Dict.get hash (worldAfter trust policies identities is).cache = some r)
    (hallow : r.verdict = .allow) : DecidedBefore trust policies identities is hash r := by
  induction is using List.reverseRecOn with
  | nil => cases hget
  | append_singleton is i ih =>
    rw [worldAfter, Run.run_append] at hget
    cases i with
    | admitEntry c =>
      simp only [Run.run_cons, Run.run_nil, worldStep] at hget
      rcases hcall : admitEntry trust RuleSet.default c (worldAfter trust policies identities is)
        with ⟨_ | r', w'⟩
      · rw [hcall] at hget
        simp only [admitEntry_error hcall, buildContext_cache] at hget
        exact (ih hget).concat _
      · rw [hcall] at hget
        rcases admitEntry_cases hcall with ⟨-, rfl⟩ | ⟨-, hr', rfl⟩
        · exact (ih hget).concat _
        · -- a fresh decision: the cache has it under the hash of its entry
          have hentry : r'.entryHash = c.entry.hash := by rw [hr']; rfl
          simp only [World.record, buildContext_cache, hentry] at hget
          split_ifs at hget with hempty
          · exact (ih hget).concat _
          · rw [Dict.get_set] at hget
            split_ifs at hget with hhash
            · obtain rfl := Option.some.inj hget
              have hj : Justified trust (worldAfter trust policies identities is) c :=
                (decision_allow_iff (worldAfter_coherent is)).mp (hr' ▸ hallow)
              exact ⟨is, c, [], rfl, hhash, hhash ▸ hempty, by rw [hcall], hj⟩
            · exact (ih hget).concat _
    | _ => exact (ih hget).concat _

/-- **An admission is justified now, or was when its hash was decided.**  In every
run of policy and identity changes and admissions, a call of `admit` that answers
allowed is justified in the state it is made in, for its own agent and owner, when
no decision on its hash is cached; when one is, it repeats the decision of an earlier
call, which was justified in the state of that call. -/
theorem admission_justified (trust : FastTrust) (policies : List (Register.Event PyStr Policy))
    (identities : List (Register.Event PyStr Registration)) (is : List (WorldEvent F))
    (c : AdmitCall F) (r : AdmissionResult)
    (h : (admitEntry trust RuleSet.default c (worldAfter trust policies identities is)).1 = .ok r)
    (hallow : r.verdict = .allow) :
    ((worldAfter trust policies identities is).cached c.entry = none ∧
        Justified trust (worldAfter trust policies identities is) c) ∨
      ((worldAfter trust policies identities is).cached c.entry = some r ∧
        DecidedBefore trust policies identities is c.entry.hash r) := by
  rcases hcall : admitEntry trust RuleSet.default c (worldAfter trust policies identities is)
    with ⟨_ | r', w'⟩
  · rw [hcall] at h
    cases h
  · rw [hcall] at h
    obtain rfl := Except.ok.inj h
    rcases admitEntry_cases hcall with ⟨hcached, -⟩ | ⟨hnone, hr', -⟩
    · refine .inr ⟨hcached, ?_⟩
      unfold World.cached at hcached
      split_ifs at hcached
      exact cache_decidedBefore is hcached hallow
    · exact .inl ⟨hnone, (decision_allow_iff (worldAfter_coherent is)).mp (hr' ▸ hallow)⟩

/-- A moment. -/
def sampleNow : Datetime := ⟨⟨2026, 1, 2, 3, 4, 5, 0, some 0⟩, sampleSecond_valid⟩

/-- An entry with this hash. -/
def sampleCandidate (hash : PyStr) : Candidate FloatLit :=
  ⟨hash, none, py "text", [(.str (py "event_type"), .str (py "observation"))]⟩

/-- The agent `a` submits the entry with this hash to the owner `o`. -/
def sampleAdmit (hash : PyStr) : AdmitCall FloatLit :=
  ⟨sampleCandidate hash, py "a", py "o", sampleNow, sampleNow, sampleNow, true⟩

/-- The owner `o` admits observations of the agent `a`, who is registered. -/
def sampleAuthority : List (WorldEvent FloatLit) :=
  [.register (py "a") ⟨py "key", py "o", none, sampleNow⟩,
    .setPolicy (py "o") ⟨[py "a"], 1 / 2, [py "observation"], [], false⟩]

/-- Every registration is worth one half. -/
def sampleTrust : FastTrust := fun _ _ => 1 / 2

theorem admission_justified_sample :
    Justified sampleTrust (worldAfter sampleTrust [] [] sampleAuthority)
      (sampleAdmit (py "h")) := by
  have hnone : (worldAfter sampleTrust [] [] sampleAuthority).cached
      (sampleAdmit (py "h")).entry = none := rfl
  rcases admission_justified sampleTrust [] [] sampleAuthority (sampleAdmit (py "h"))
    (decision RuleSet.default (buildContext sampleTrust (sampleAdmit (py "h"))
      (worldAfter sampleTrust [] [] sampleAuthority)).1 (sampleAdmit (py "h")))
    (by decide +kernel) (by decide +kernel) with ⟨-, hj⟩ | ⟨hcached, -⟩
  · exact hj
  · cases hnone.symm.trans hcached

/-- After the policy was revoked the entry is admitted again, though no policy
allows it. -/
theorem admission_outlives_policy :
    ((admitEntry sampleTrust RuleSet.default (sampleAdmit (py "h"))
        (worldAfter sampleTrust [] [] (sampleAuthority ++
          [.admitEntry (sampleAdmit (py "h")), .revokePolicy (py "o")]))).1.map
        AdmissionResult.verdict = .ok .allow) ∧
      ¬Justified sampleTrust (worldAfter sampleTrust [] [] (sampleAuthority ++
          [.admitEntry (sampleAdmit (py "h")), .revokePolicy (py "o")])) (sampleAdmit (py "h")) := by
  constructor
  · decide +kernel
  · intro hj
    obtain ⟨policy, hpolicy, -⟩ := hj.allowed
    have hnone : currentPolicy (worldAfter sampleTrust [] [] (sampleAuthority ++
        [.admitEntry (sampleAdmit (py "h")), .revokePolicy (py "o")])).authority.policy.log (py "o")
        = none := by decide +kernel
    exact absurd (hpolicy.symm.trans hnone) (by simp)

/-! ### Approval by a human -/

/-- What the policy answers to the call. -/
def policyVerdict (trust : FastTrust) (w : World) (c : AdmitCall F) : Verdict :=
  (allows trust c.policyNow c.ownerId c.agentId c.entry.entryType none w.scored).1.verdict

/-- Every rule but the one on the policy passes. -/
def OthersPass (trust : FastTrust) (w : World) (c : AdmitCall F) : Prop :=
  ∀ rule ∈ (RuleSet.default : List (Rule F)).tail,
    (rule.evaluate c.entry c.agentId (buildContext trust c w).1).passed = true

/-- `admit` answers as the policy does, where the other rules pass; a denial is one in any
case. -/
def VerdictSurvives (trust : FastTrust) (w : World) (c : AdmitCall F) : Prop :=
  ∃ r, (admitEntry trust RuleSet.default c w).1 = .ok r ∧
    (policyVerdict trust w c = .deny → r.verdict = .deny) ∧
    (OthersPass trust w c → r.verdict = policyVerdict trust w c)

theorem verdict_buildContext (trust : FastTrust) (w : World) (c : AdmitCall F) :
    (buildContext trust c w).1.sovereigntyResult.verdict = policyVerdict trust w c := by
  rw [buildContext_eq]
  rfl

/-- **What the policy does not allow is denied**, also where it asks for approval: the first rule
fails, and the check for approval comes after the rules. -/
theorem decision_deny_of_ne {context : AdmissionContext} (c : AdmitCall F)
    (h : context.sovereigntyResult.verdict ≠ .allow) :
    (decision RuleSet.default context c).verdict = .deny := by
  have hfails : ¬ ∀ rule ∈ (RuleSet.default : List (Rule F)),
      (rule.evaluate c.entry c.agentId context).passed = true :=
    fun hall => h (sovereigntyCheckRule_passed.mp (hall _ List.mem_cons_self))
  have hverdict : (evaluateRules c.entry c.agentId context RuleSet.default).2.1 = .deny := by
    have hfirst : (sovereigntyCheckRule.evaluate c.entry c.agentId context).passed ≠ true :=
      mt sovereigntyCheckRule_passed.mp h
    rw [RuleSet.default, evaluateRules, if_neg hfirst]
  rw [← evaluateRules_allow_iff] at hfails
  rw [decision]
  dsimp only
  rw [if_neg fun hp => hfails hp.1, hverdict]

/-- What the policy allows and the other rules let pass is admitted. -/
theorem decision_allow_of_pass {context : AdmissionContext} (c : AdmitCall F)
    (h : context.sovereigntyResult.verdict = .allow)
    (hothers : ∀ rule ∈ (RuleSet.default : List (Rule F)).tail,
      (rule.evaluate c.entry c.agentId context).passed = true) :
    (decision RuleSet.default context c).verdict = .allow := by
  have hverdict : (evaluateRules c.entry c.agentId context RuleSet.default).2.1 = .allow := by
    rw [evaluateRules_allow_iff]
    intro rule hrule
    rcases List.mem_cons.mp hrule with rfl | hrule
    · exact sovereigntyCheckRule_passed.mpr h
    · exact hothers rule hrule
  have hpending : ¬ (Verdict.allow = .allow ∧ context.sovereigntyResult.verdict = .pending) := by
    rw [h]
    exact fun hp => nomatch hp.2
  rw [decision]
  dsimp only
  rw [hverdict, if_neg hpending]

/-- A call whose entry is not cached is decided, unless its agent has no name in UTF-8. -/
theorem admitEntry_decides (h : w.cached c.entry = none) (r : AdmissionResult) :
    (admitEntry trust RuleSet.default c w).1 = .ok r ↔
      Encodable c.agentId ∧ r = decision RuleSet.default (buildContext trust c w).1 c := by
  have hagent : (decision RuleSet.default (buildContext trust c w).1 c).agentId = c.agentId := rfl
  unfold admitEntry
  rw [h]
  dsimp only
  by_cases henc : Encodable c.agentId
  · rw [logDecision, hagent, if_pos henc]
    simp [henc, eq_comm]
  · rw [logDecision, hagent, if_neg henc]
    simp [henc]

/-- **The answer of the policy survives the rules, but for one that asks for approval.** -/
theorem verdictSurvives_iff (trust : FastTrust) {w : World} {c : AdmitCall F}
    (h : w.cached c.entry = none) : VerdictSurvives trust w c ↔
      Encodable c.agentId ∧ ¬ (policyVerdict trust w c = .pending ∧ OthersPass trust w c) := by
  have hdeny : policyVerdict trust w c ≠ .allow →
      (decision RuleSet.default (buildContext trust c w).1 c).verdict = .deny :=
    fun hne => decision_deny_of_ne c (by rwa [verdict_buildContext])
  constructor
  · rintro ⟨r, hr, -, hothers⟩
    obtain ⟨henc, rfl⟩ := (admitEntry_decides h r).mp hr
    refine ⟨henc, fun ⟨hpending, hpass⟩ => ?_⟩
    -- pending is denied
    have hverdict := hothers hpass
    rw [hpending, hdeny (by rw [hpending]; decide)] at hverdict
    exact absurd hverdict (by decide)
  · rintro ⟨henc, hno⟩
    refine ⟨_, (admitEntry_decides h _).mpr ⟨henc, rfl⟩, fun hv => hdeny (by rw [hv]; decide),
      fun hpass => ?_⟩
    cases hv : policyVerdict trust w c with
    | allow => exact decision_allow_of_pass c (by rwa [verdict_buildContext]) hpass
    | deny => exact hdeny (by rw [hv]; decide)
    | pending => exact absurd ⟨hv, hpass⟩ hno

/-- The entry of the sample is admitted. -/
theorem verdictSurvives_sample :
    VerdictSurvives sampleTrust (worldAfter sampleTrust [] [] sampleAuthority)
      (sampleAdmit (py "h")) := by
  have hallow : policyVerdict sampleTrust (worldAfter sampleTrust [] [] sampleAuthority)
      (sampleAdmit (py "h")) = .allow := by decide +kernel
  exact (verdictSurvives_iff sampleTrust (by decide +kernel)).mpr
    ⟨by decide, fun hp => by rw [hallow] at hp; exact nomatch hp.1⟩

/-- The owner `o` wants to approve observations. -/
def sampleApproval : List (WorldEvent FloatLit) :=
  [.register (py "a") ⟨py "key", py "o", none, sampleNow⟩,
    .setPolicy (py "o") ⟨[py "a"], 1 / 2, [py "observation"], [py "observation"], false⟩]

/-- **What waits for approval is denied.** -/
theorem pending_denied :
    policyVerdict sampleTrust (worldAfter sampleTrust [] [] sampleApproval)
      (sampleAdmit (py "h")) = .pending ∧
    OthersPass sampleTrust (worldAfter sampleTrust [] [] sampleApproval) (sampleAdmit (py "h")) ∧
    ((admitEntry sampleTrust RuleSet.default (sampleAdmit (py "h"))
      (worldAfter sampleTrust [] [] sampleApproval)).1.map AdmissionResult.verdict = .ok .deny) := by
  refine ⟨by decide +kernel, ?_, by decide +kernel⟩
  intro rule hrule
  simp only [RuleSet.default, List.tail_cons, List.mem_cons, List.not_mem_nil, or_false] at hrule
  rcases hrule with rfl | rfl | rfl <;> decide +kernel

end Daryl
