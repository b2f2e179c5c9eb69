import Daryl.Dsm.Entry
import Daryl.Lib.Register

/-!
# `sovereignty` and `identity_registry`

The policies of owners and the registrations of agents are latest-wins registers.
The JSON text of a log record is left out: a record is the event it spells.  The
trust score is float arithmetic over the age of a registration, and enters as a
parameter.

## Main definitions

* `SovereigntyPolicy`, `IdentityRegistry` — the two registers.
* `setPolicy`, `revokePolicy`, `registerAgent`, `revokeAgent` — their writes.
* `allows` — may the agent contribute this type to this owner?
* `Allowed` — what `allows` stands for, in terms of the logs.

## Main results

* `allows_allow_iff` — **`allows` answers from the logs as they are now.**
-/

namespace Daryl

open Py

/-- `limit=10**6`. -/
def readLimit : ℕ := 1000000

/-! ### Policies -/

/-- A policy, its fields of the types they must have. -/
structure Policy where
  agents : List PyStr
  minTrustScore : ℚ
  allowedTypes : List PyStr
  approvalRequired : List PyStr
  crossAi : Bool
  deriving DecidableEq

/-- `_validate_policy`, as far as the types leave anything to check. -/
def validatePolicy (p : Policy) : Bool :=
  !p.agents.isEmpty && p.agents.all (fun a => !(strip a).isEmpty) &&
    decide (0 ≤ p.minTrustScore ∧ p.minTrustScore ≤ 1) &&
    !p.allowedTypes.isEmpty && p.allowedTypes.all fun t => !(strip t).isEmpty

/-- The policies by owner. -/
abbrev SovereigntyPolicy := Register PyStr Policy

/-- `set`; `none` is the `InvalidPolicyStructure`, or the exception of an owner
UTF-8 refuses, whom the metadata of the record names. -/
def SovereigntyPolicy.set (ownerId : PyStr) (policy : Policy) (p : SovereigntyPolicy) :
    Option SovereigntyPolicy :=
  if validatePolicy policy ∧ Encodable ownerId then some (p.write (.put ownerId policy)) else none

/-- `revoke`. -/
def SovereigntyPolicy.revoke (ownerId : PyStr) (p : SovereigntyPolicy) : Option SovereigntyPolicy :=
  if Encodable ownerId then some (p.write (.revoke ownerId)) else none

/-- `_ensure_index`: a record without an owner is passed over. -/
def SovereigntyPolicy.ensureIndex (p : SovereigntyPolicy) : SovereigntyPolicy :=
  p.ensure List.isEmpty readLimit

/-- `get`. -/
def SovereigntyPolicy.get (ownerId : PyStr) (p : SovereigntyPolicy) :
    Option Policy × SovereigntyPolicy :=
  let p := p.ensureIndex
  (Register.visible (Register.find ownerId p), p)

/-! ### Identities -/

/-- The registration of an agent. -/
structure Registration where
  publicKey : PyStr
  ownerId : PyStr
  model : Option PyStr
  registeredAt : Datetime
  deriving DecidableEq

/-- The registrations by agent. -/
abbrev IdentityRegistry := Register PyStr Registration

/-- A resolved identity. -/
structure AgentIdentity where
  agentId : PyStr
  publicKey : PyStr
  ownerId : PyStr
  model : Option PyStr
  registeredAt : Datetime
  trustScore : ℚ

/-- The fast trust score of a registration, from the time it is asked for and the
time of the registration. -/
abbrev FastTrust := Datetime → Datetime → ℚ

namespace IdentityRegistry

/-- `_ensure_index`: a record without an agent is passed over. -/
def ensureIndex (r : IdentityRegistry) : IdentityRegistry := r.ensure List.isEmpty readLimit

/-- `register`; `none` is the exception of an agent UTF-8 refuses. -/
def register (agentId : PyStr) (registration : Registration) (r : IdentityRegistry) :
    Option IdentityRegistry :=
  if Encodable agentId then some (r.write (.put agentId registration)) else none

/-- Someone else is the registered owner of the agent. -/
def ownedByOther (agentId ownerId : PyStr) (r : IdentityRegistry) : Bool :=
  match Register.find agentId r with
  | some (registration, _) => registration.ownerId ≠ ownerId
  | none => false

/-- `revoke`; `none` is the `UnauthorizedRevocation` of anyone but the registered
owner.  An agent that is not registered can be revoked. -/
def revoke (agentId ownerId : PyStr) (r : IdentityRegistry) : Option IdentityRegistry :=
  if r.ensureIndex.ownedByOther agentId ownerId then none
  else if Encodable agentId then some (r.write (.revoke agentId))
  else none

/-- `trust_score`: nothing for an agent that is unknown or revoked. -/
def trustScore (trust : FastTrust) (now : Datetime) (agentId : PyStr) (r : IdentityRegistry) :
    ℚ × IdentityRegistry :=
  let r := r.ensureIndex
  match Register.visible (Register.find agentId r) with
  | some registration => (trust now registration.registeredAt, r)
  | none => (0, r)

/-- `resolve`. -/
def resolve (trust : FastTrust) (now : Datetime) (agentId : PyStr) (r : IdentityRegistry) :
    Option AgentIdentity × IdentityRegistry :=
  let r := r.ensureIndex
  match Register.visible (Register.find agentId r) with
  | some registration =>
    (some ⟨agentId, registration.publicKey, registration.ownerId, registration.model,
      registration.registeredAt, (trustScore trust now agentId r).1⟩, r)
  | none => (none, r)

end IdentityRegistry

/-! ### Enforcement -/

/-- The verdicts. -/
inductive Verdict
  | allow
  | deny
  | pending
  deriving DecidableEq

/-- `EnforcementResult`, without the detail nothing reads. -/
structure EnforcementResult where
  verdict : Verdict
  reason : Option PyStr
  deriving DecidableEq

/-- The policies and the identities. -/
structure Authority where
  policy : SovereigntyPolicy
  identity : IdentityRegistry

variable {F : Type}

/-- The agent is registered with another model than the one that asks, and the
policy does not allow that. -/
def crossAiDenied (policy : Policy) (agentModel : Option PyStr) (identity : Option AgentIdentity) :
    Bool :=
  match agentModel.getD [], identity with
  | [], _ => false
  | _, none => false
  | asking, some i =>
    let model := i.model.getD []
    !policy.crossAi && !model.isEmpty && model ≠ asking

/-- `allows`: the checks in order.  A type that is no string is in no list of
strings. -/
def allows (trust : FastTrust) (now : Datetime) (ownerId agentId : PyStr) (entryType : PyVal F)
    (agentModel : Option PyStr) (a : Authority) : EnforcementResult × Authority :=
  let (policy, p) := a.policy.get ownerId
  match policy with
  | none => (⟨.deny, some (py "no_policy")⟩, ⟨p, a.identity⟩)
  | some policy =>
    if agentId ∉ policy.agents then (⟨.deny, some (py "not_whitelisted")⟩, ⟨p, a.identity⟩)
    else
      let (score, r) := a.identity.trustScore trust now agentId
      if score < policy.minTrustScore then (⟨.deny, some (py "low_trust")⟩, ⟨p, r⟩)
      else
        match entryType with
        | .str s =>
          if s ∉ policy.allowedTypes then (⟨.deny, some (py "type_forbidden")⟩, ⟨p, r⟩)
          else if crossAiDenied policy agentModel (r.resolve trust now agentId).1 then
            (⟨.deny, some (py "cross_ai_denied")⟩, ⟨p, r⟩)
          else if s ∈ policy.approvalRequired then
            (⟨.pending, some (py "Entry type '" ++ s ++ py "' requires human approval")⟩, ⟨p, r⟩)
          else (⟨.allow, none⟩, ⟨p, r⟩)
        | _ => (⟨.deny, some (py "type_forbidden")⟩, ⟨p, r⟩)

/-! ### What the logs allow -/

/-- The policy an owner has, by the log. -/
def currentPolicy (log : List (Register.Event PyStr Policy)) (ownerId : PyStr) : Option Policy :=
  Register.current List.isEmpty (Register.newest readLimit log) ownerId

/-- The registration an agent has, by the log. -/
def currentRegistration (log : List (Register.Event PyStr Registration)) (agentId : PyStr) :
    Option Registration :=
  Register.current List.isEmpty (Register.newest readLimit log) agentId

/-- The trust score an agent has at a time, by the log. -/
def currentTrust (trust : FastTrust) (now : Datetime)
    (log : List (Register.Event PyStr Registration)) (agentId : PyStr) : ℚ :=
  ((currentRegistration log agentId).map fun r => trust now r.registeredAt).getD 0

/-- **What the logs allow**: the owner has a policy that lists the agent and the
type, the type without approval, and the agent's trust reaches it. -/
def Allowed (trust : FastTrust) (now : Datetime) (policies : List (Register.Event PyStr Policy))
    (identities : List (Register.Event PyStr Registration)) (ownerId agentId : PyStr)
    (entryType : PyVal F) : Prop :=
  ∃ policy, currentPolicy policies ownerId = some policy ∧ agentId ∈ policy.agents ∧
    policy.minTrustScore ≤ currentTrust trust now identities agentId ∧
    ∃ s, entryType = .str s ∧ s ∈ policy.allowedTypes ∧ s ∉ policy.approvalRequired

/-- The indexes, where they are there, are those of the logs. -/
structure Authority.Coherent (a : Authority) : Prop where
  policy : a.policy.Coherent List.isEmpty readLimit
  identity : a.identity.Coherent List.isEmpty readLimit

variable {a : Authority} {trust : FastTrust}

theorem get_fst (h : a.Coherent) (ownerId : PyStr) :
    (a.policy.get ownerId).1 = currentPolicy a.policy.log ownerId :=
  Register.lookup_ensure h.policy ownerId

theorem trustScore_fst (h : a.Coherent) (now : Datetime) (agentId : PyStr) :
    (a.identity.trustScore trust now agentId).1
      = currentTrust trust now a.identity.log agentId := by
  have hlookup := Register.lookup_ensure h.identity agentId
  unfold IdentityRegistry.trustScore IdentityRegistry.ensureIndex currentTrust currentRegistration
  simp only [hlookup]
  cases Register.current List.isEmpty (Register.newest readLimit a.identity.log) agentId <;> rfl

theorem trustScore_snd (now : Datetime) (agentId : PyStr) :
    (a.identity.trustScore trust now agentId).2 = a.identity.ensureIndex := by
  unfold IdentityRegistry.trustScore
  dsimp only
  split <;> rfl

/-- **`allows` answers from the logs as they are now.** -/
theorem allows_allow_iff (trust : FastTrust) (h : a.Coherent) (now : Datetime) (ownerId agentId : PyStr)
    (entryType : PyVal F) :
    (allows trust now ownerId agentId entryType none a).1.verdict = .allow ↔
      Allowed trust now a.policy.log a.identity.log ownerId agentId entryType := by
  unfold allows Allowed
  simp only [get_fst h, trustScore_fst h]
  cases hpolicy : currentPolicy a.policy.log ownerId with
  | none => simp
  | some policy =>
    simp only [Option.some.injEq, exists_eq_left']
    by_cases hagent : agentId ∈ policy.agents
    · rw [if_neg (not_not.mpr hagent)]
      by_cases htrust : currentTrust trust now a.identity.log agentId < policy.minTrustScore
      · rw [if_pos htrust]
        simp [hagent, htrust]
      · rw [if_neg htrust]
        cases entryType with
        | str s =>
          by_cases hs : s ∈ policy.allowedTypes <;> by_cases hp : s ∈ policy.approvalRequired <;>
            simp [hagent, not_lt.mp htrust, hs, hp, crossAiDenied]
        | _ => simp
    · rw [if_pos hagent]
      simp [hagent]

/-- `allows` builds the index of the policies, and that of the identities when it
comes to the trust score. -/
theorem allows_snd_eq (now : Datetime) (ownerId agentId : PyStr) (entryType : PyVal F)
    (agentModel : Option PyStr) :
    (allows trust now ownerId agentId entryType agentModel a).2
        = ⟨a.policy.ensureIndex, a.identity⟩ ∨
      (allows trust now ownerId agentId entryType agentModel a).2
        = ⟨a.policy.ensureIndex, a.identity.ensureIndex⟩ := by
  have hp : (a.policy.get ownerId).2 = a.policy.ensureIndex := rfl
  unfold allows
  simp only [hp, trustScore_snd]
  split
  · exact .inl rfl
  · next policy _ =>
    by_cases hagent : agentId ∈ policy.agents
    · right
      rw [if_neg (not_not.mpr hagent)]
      split
      · rfl
      · cases entryType with
        | str s =>
          dsimp only
          split_ifs <;> rfl
        | _ => rfl
    · left
      rw [if_pos hagent]

/-- `allows` leaves indexes of the logs. -/
theorem allows_coherent (h : a.Coherent) (now : Datetime) (ownerId agentId : PyStr)
    (entryType : PyVal F) (agentModel : Option PyStr) :
    (allows trust now ownerId agentId entryType agentModel a).2.Coherent := by
  have hp : (a.policy.ensureIndex).Coherent List.isEmpty readLimit := h.policy.ensure
  rcases allows_snd_eq now ownerId agentId entryType agentModel with h' | h'
  · exact h' ▸ ⟨hp, h.identity⟩
  · exact h' ▸ ⟨hp, h.identity.ensure⟩

end Daryl
