import Daryl.Dsm.Authority
import Daryl.Lib.Run

/-!
# Registries on one storage

Several `SovereigntyPolicy` and `IdentityRegistry` instances read and write the
same two shards.  Each instance keeps an index of its own, which its own writes
drop and the writes of the others leave as it is.

## Main definitions

* `Instances` — the two logs and the index each instance holds.
* `Instances.Call`, `Instances.step` — what the instances are asked for.
* `Instances.NeverStale` — no instance treats as active what the logs revoke.
* `Instances.Call.Seen` — a revocation comes when no other instance holds an index
  that shows what it revokes.

## Main results

* `neverStale_iff` — **no read is ever stale exactly when every revocation is one the
  other instances can see.**
* `stale_resolve` — a run with a stale read.
* `foreign_calls_keep` — **the registration of an agent outlasts the calls of everyone
  but its owner, as long as nobody registers the agent again and it is among the
  records that are read.**
-/

namespace Daryl

open Py Register

variable {F ι : Type} [DecidableEq ι]

/-- The instances of the two registries, on one storage. -/
structure Instances (ι : Type) where
  policy : Register.Shared ι PyStr Policy
  identity : Register.Shared ι PyStr Registration

namespace Instances

/-- New instances on a storage. -/
def opened (policies : List (Register.Event PyStr Policy))
    (identities : List (Register.Event PyStr Registration)) : Instances ι :=
  ⟨⟨policies, fun _ => none⟩, ⟨identities, fun _ => none⟩⟩

/-- What an instance is asked for. -/
inductive Call (ι F : Type)
  | setPolicy (i : ι) (ownerId : PyStr) (policy : Policy)
  | revokePolicy (i : ι) (ownerId : PyStr)
  | getPolicy (i : ι) (ownerId : PyStr)
  /-- `allows` of one instance, with the identities of another. -/
  | allows (i j : ι) (now : Datetime) (ownerId agentId : PyStr) (entryType : PyVal F)
      (agentModel : Option PyStr)
  | register (i : ι) (agentId : PyStr) (registration : Registration)
  | revoke (i : ι) (agentId ownerId : PyStr)
  | resolve (i : ι) (now : Datetime) (agentId : PyStr)
  | trustScore (i : ι) (now : Datetime) (agentId : PyStr)
  /-- `list_agents`, and `deep_trust_score` where it has no score yet. -/
  | listAgents (i : ι)

/-- One call. -/
def step (trust : FastTrust) (w : Instances ι) : Call ι F → Instances ι
  | .setPolicy i ownerId policy =>
    match SovereigntyPolicy.set ownerId policy (w.policy.view i) with
    | some p => { w with policy := w.policy.put i p }
    | none => w
  | .revokePolicy i ownerId =>
    match SovereigntyPolicy.revoke ownerId (w.policy.view i) with
    | some p => { w with policy := w.policy.put i p }
    | none => w
  | .getPolicy i ownerId =>
    { w with policy := w.policy.put i (SovereigntyPolicy.get ownerId (w.policy.view i)).2 }
  | .allows i j now ownerId agentId entryType agentModel =>
    let a := (Daryl.allows trust now ownerId agentId entryType agentModel
      ⟨w.policy.view i, w.identity.view j⟩).2
    ⟨w.policy.put i a.policy, w.identity.put j a.identity⟩
  | .register i agentId registration =>
    match IdentityRegistry.register agentId registration (w.identity.view i) with
    | some r => { w with identity := w.identity.put i r }
    | none => w
  | .revoke i agentId ownerId =>
    match IdentityRegistry.revoke agentId ownerId (w.identity.view i) with
    | some r => { w with identity := w.identity.put i r }
    -- the owner is checked in the index, which stays
    | none => { w with identity := w.identity.put i (IdentityRegistry.ensureIndex (w.identity.view i)) }
  | .resolve i now agentId =>
    { w with identity :=
        w.identity.put i (IdentityRegistry.resolve trust now agentId (w.identity.view i)).2 }
  | .trustScore i now agentId =>
    { w with identity :=
        w.identity.put i (IdentityRegistry.trustScore trust now agentId (w.identity.view i)).2 }
  | .listAgents i =>
    { w with identity := w.identity.put i (IdentityRegistry.ensureIndex (w.identity.view i)) }

/-- **No instance treats as active what the logs revoke**: an agent is not resolved
and has no trust, an owner has no policy and allows nothing. -/
structure NeverStale (F : Type) (trust : FastTrust) (w : Instances ι) : Prop where
  identity : ∀ agentId, Revoked w.identity.log agentId → ∀ i now,
    (IdentityRegistry.resolve trust now agentId (w.identity.view i)).1 = none ∧
      (IdentityRegistry.trustScore trust now agentId (w.identity.view i)).1 = 0
  policy : ∀ ownerId, Revoked w.policy.log ownerId → ∀ i,
    (SovereigntyPolicy.get ownerId (w.policy.view i)).1 = none ∧
      ∀ j now agentId (entryType : PyVal F) agentModel,
        (allows trust now ownerId agentId entryType agentModel
          ⟨w.policy.view i, w.identity.view j⟩).1 = ⟨.deny, some (py "no_policy")⟩

/-- A revocation that goes through comes when no other instance holds an index that
shows what it revokes. -/
def Call.Seen (w : Instances ι) : Call ι F → Prop
  | .revokePolicy i ownerId =>
    (SovereigntyPolicy.revoke ownerId (w.policy.view i)).isSome →
      ∀ j, j ≠ i → visible (find ownerId (w.policy.view j)) = none
  | .revoke i agentId ownerId =>
    (IdentityRegistry.revoke agentId ownerId (w.identity.view i)).isSome →
      ∀ j, j ≠ i → visible (find agentId (w.identity.view j)) = none
  | _ => True

/-- A moment. -/
def sampleMoment : Datetime := ⟨⟨2026, 1, 2, 3, 4, 5, 0, some 0⟩, sampleSecond_valid⟩

/-! ### What a read shows -/

variable {trust : FastTrust} {w : Instances ι}

theorem resolve_fst_eq_none {r : IdentityRegistry} {now : Datetime} {agentId : PyStr} :
    (r.resolve trust now agentId).1 = none ↔ visible (find agentId r.ensureIndex) = none := by
  unfold IdentityRegistry.resolve
  cases h : visible (find agentId r.ensureIndex) <;> simp [h]

theorem resolve_snd {r : IdentityRegistry} {now : Datetime} {agentId : PyStr} :
    (r.resolve trust now agentId).2 = r.ensureIndex := by
  unfold IdentityRegistry.resolve
  dsimp only
  split <;> rfl

theorem trustScore_of_not_visible {r : IdentityRegistry} {now : Datetime} {agentId : PyStr}
    (h : visible (find agentId r.ensureIndex) = none) : (r.trustScore trust now agentId).1 = 0 := by
  simp [IdentityRegistry.trustScore, h]

theorem allows_of_no_policy {a : Authority} {now : Datetime} {ownerId agentId : PyStr}
    {entryType : PyVal F} {agentModel : Option PyStr} (h : (a.policy.get ownerId).1 = none) :
    (allows trust now ownerId agentId entryType agentModel a).1
      = ⟨.deny, some (py "no_policy")⟩ := by
  unfold allows
  simp only [h]

omit [DecidableEq ι] in
/-- What no instance sees, no instance treats as active. -/
theorem neverStale_iff_fresh : w.NeverStale F trust ↔
    w.identity.Fresh List.isEmpty readLimit ∧ w.policy.Fresh List.isEmpty readLimit := by
  constructor
  · rintro ⟨hidentity, hpolicy⟩
    refine ⟨fun k hk i => ?_, fun k hk i => (hpolicy k hk i).1⟩
    exact resolve_fst_eq_none.mp (hidentity k hk i sampleMoment).1
  · rintro ⟨hidentity, hpolicy⟩
    refine ⟨fun k hk i now => ?_, fun k hk i => ?_⟩
    · exact ⟨resolve_fst_eq_none.mpr (hidentity k hk i),
        trustScore_of_not_visible (hidentity k hk i)⟩
    · refine ⟨hpolicy k hk i, fun j now agentId entryType agentModel => ?_⟩
      exact allows_of_no_policy (a := ⟨w.policy.view i, w.identity.view j⟩) (hpolicy k hk i)

/-! ### One call -/

theorem eq_write_of_set {ownerId : PyStr} {policy : Policy} {p q : SovereigntyPolicy}
    (h : p.set ownerId policy = some q) : q = p.write (.put ownerId policy) := by
  unfold SovereigntyPolicy.set at h
  split_ifs at h
  exact (Option.some.inj h).symm

theorem eq_write_of_revokePolicy {ownerId : PyStr} {p q : SovereigntyPolicy}
    (h : p.revoke ownerId = some q) : q = p.write (.revoke ownerId) := by
  unfold SovereigntyPolicy.revoke at h
  split_ifs at h
  exact (Option.some.inj h).symm

theorem eq_write_of_register {agentId : PyStr} {registration : Registration}
    {r q : IdentityRegistry} (h : r.register agentId registration = some q) :
    q = r.write (.put agentId registration) := by
  unfold IdentityRegistry.register at h
  split_ifs at h
  exact (Option.some.inj h).symm

theorem eq_write_of_revoke {agentId ownerId : PyStr} {r q : IdentityRegistry}
    (h : r.revoke agentId ownerId = some q) : q = r.write (.revoke agentId) := by
  unfold IdentityRegistry.revoke at h
  split_ifs at h
  exact (Option.some.inj h).symm

omit [DecidableEq ι] in
theorem neverStale_of_identity {s : Register.Shared ι PyStr Registration}
    (h : w.NeverStale F trust) :
    ({ w with identity := s } : Instances ι).NeverStale F trust ↔
      s.Fresh List.isEmpty readLimit := by
  rw [neverStale_iff_fresh]
  exact and_iff_left (neverStale_iff_fresh.mp h).2

omit [DecidableEq ι] in
theorem neverStale_of_policy {s : Register.Shared ι PyStr Policy} (h : w.NeverStale F trust) :
    ({ w with policy := s } : Instances ι).NeverStale F trust ↔
      s.Fresh List.isEmpty readLimit := by
  rw [neverStale_iff_fresh]
  exact and_iff_right (neverStale_iff_fresh.mp h).1

/-- **A call leaves no stale read exactly when what it revokes is seen.** -/
theorem neverStale_step (h : w.NeverStale F trust) (c : Call ι F) :
    (step trust w c).NeverStale F trust ↔ c.Seen w := by
  obtain ⟨hidentity, hpolicy⟩ := neverStale_iff_fresh.mp h
  cases c with
  | setPolicy i ownerId policy =>
    refine iff_of_true ?_ trivial
    simp only [step]
    rcases hset : SovereigntyPolicy.set ownerId policy (w.policy.view i) with _ | q
    · exact h
    · rw [eq_write_of_set hset]
      exact (neverStale_of_policy h).mpr (Shared.fresh_write_put ownerId policy hpolicy)
  | revokePolicy i ownerId =>
    simp only [step, Call.Seen]
    rcases hrevoke : SovereigntyPolicy.revoke ownerId (w.policy.view i) with _ | q
    · exact iff_of_true h (by simp)
    · simp only [Option.isSome_some, forall_const]
      rw [eq_write_of_revokePolicy hrevoke, neverStale_of_policy h]
      exact Shared.fresh_write_revoke ownerId hpolicy
  | getPolicy i ownerId =>
    refine iff_of_true ((neverStale_of_policy h).mpr ?_) trivial
    exact Shared.fresh_ensure.mpr hpolicy
  | allows i j now ownerId agentId entryType agentModel =>
    refine iff_of_true ?_ trivial
    rw [step, neverStale_iff_fresh]
    have hsnd : (allows trust now ownerId agentId entryType agentModel
        ⟨w.policy.view i, w.identity.view j⟩).2 = _ ∨ _ = _ :=
      allows_snd_eq now ownerId agentId entryType agentModel
    rcases hsnd with ha | ha
    · rw [ha]
      exact ⟨by rwa [Shared.put_view], Shared.fresh_ensure.mpr hpolicy⟩
    · rw [ha]
      exact ⟨Shared.fresh_ensure.mpr hidentity, Shared.fresh_ensure.mpr hpolicy⟩
  | register i agentId registration =>
    refine iff_of_true ?_ trivial
    simp only [step]
    rcases hregister : IdentityRegistry.register agentId registration (w.identity.view i) with _ | q
    · exact h
    · rw [eq_write_of_register hregister]
      exact (neverStale_of_identity h).mpr (Shared.fresh_write_put agentId registration hidentity)
  | revoke i agentId ownerId =>
    simp only [step, Call.Seen]
    rcases hrevoke : IdentityRegistry.revoke agentId ownerId (w.identity.view i) with _ | q
    · -- refused, the index it was checked in stays
      refine iff_of_true ((neverStale_of_identity h).mpr ?_) (by simp)
      exact Shared.fresh_ensure.mpr hidentity
    · simp only [Option.isSome_some, forall_const]
      rw [eq_write_of_revoke hrevoke, neverStale_of_identity h]
      exact Shared.fresh_write_revoke agentId hidentity
  | resolve i now agentId =>
    refine iff_of_true ?_ trivial
    rw [step, resolve_snd, neverStale_of_identity h]
    exact Shared.fresh_ensure.mpr hidentity
  | trustScore i now agentId =>
    refine iff_of_true ?_ trivial
    rw [step, trustScore_snd (a := ⟨w.policy.view i, w.identity.view i⟩),
      neverStale_of_identity h]
    exact Shared.fresh_ensure.mpr hidentity
  | listAgents i =>
    exact iff_of_true ((neverStale_of_identity h).mpr (Shared.fresh_ensure.mpr hidentity)) trivial

omit [DecidableEq ι] in
theorem neverStale_opened (policies : List (Register.Event PyStr Policy))
    (identities : List (Register.Event PyStr Registration)) :
    (opened policies identities : Instances ι).NeverStale F trust := by
  rw [neverStale_iff_fresh, Shared.fresh_iff, Shared.fresh_iff]
  exact ⟨fun _ _ _ => rfl, fun _ _ _ => rfl⟩

/-- **No read is ever stale exactly when every revocation is one the other instances
can see**: in every state of a run, from whatever the storage held. -/
theorem neverStale_iff (trust : FastTrust) (policies : List (Register.Event PyStr Policy))
    (identities : List (Register.Event PyStr Registration)) (calls : List (Call ι F)) :
    Run.Always (step trust) (NeverStale F trust) (opened policies identities) calls ↔
      Run.Along (step trust) (fun w c => Call.Seen w c) (opened policies identities) calls :=
  Run.always_iff_along (Q := fun _ => True) (fun _ _ _ _ _ => trivial)
    (fun _ c _ h => neverStale_step h c) trivial (neverStale_opened policies identities)

/-- One instance registers an agent, the other resolves it, the first revokes it: the
other resolves it still. -/
theorem stale_resolve :
    ¬ ((Run.run (step fun _ _ => 1 : Instances Bool → Call Bool Unit → Instances Bool)
        (opened [] [])
        [.register true (py "a") ⟨py "k", py "o", none, sampleMoment⟩,
          .resolve false sampleMoment (py "a"), .revoke true (py "a") (py "o")]).NeverStale Unit
      fun _ _ => 1) := by
  intro h
  have := (h.identity (py "a") (by decide +kernel) false sampleMoment).2
  exact absurd this (by decide +kernel)

end Instances

/-! ### An agent, and the calls of others -/

namespace IdentityRegistry

/-- A `register` or a `revoke`. -/
inductive Call
  | register (agentId : PyStr) (registration : Registration)
  | revoke (agentId ownerId : PyStr)

/-- The owner the call is made for. -/
def Call.owner : Call → PyStr
  | register _ registration => registration.ownerId
  | revoke _ ownerId => ownerId

/-- The call registers this agent. -/
def Call.Registers (agentId : PyStr) : Call → Prop
  | register a _ => a = agentId
  | revoke _ _ => False

/-- One call on a registry; one that is refused leaves the index it looked in. -/
def step (r : IdentityRegistry) : Call → IdentityRegistry
  | .register agentId registration => (r.register agentId registration).getD r
  | .revoke agentId ownerId => (r.revoke agentId ownerId).getD r.ensureIndex

theorem coherent_step {r : IdentityRegistry} (h : r.Coherent List.isEmpty readLimit) (c : Call) :
    (r.step c).Coherent List.isEmpty readLimit := by
  cases c with
  | register agentId registration =>
    rcases hq : r.register agentId registration with _ | q
    · simpa [step, hq] using h
    · simpa [step, hq, Instances.eq_write_of_register hq] using coherent_write _
  | revoke agentId ownerId =>
    rcases hq : r.revoke agentId ownerId with _ | q
    · rw [step, hq, Option.getD_none]
      exact Register.Coherent.ensure h
    · simpa [step, hq, Instances.eq_write_of_revoke hq] using coherent_write _

/-- The identity a registration stands for. -/
def identityOf (trust : FastTrust) (now : Datetime) (agentId : PyStr) (g : Registration) :
    AgentIdentity :=
  ⟨agentId, g.publicKey, g.ownerId, g.model, g.registeredAt, trust now g.registeredAt⟩

theorem identityOf_inj {trust : FastTrust} {now : Datetime} {agentId : PyStr} {g g' : Registration} :
    identityOf trust now agentId g = identityOf trust now agentId g' ↔ g = g' := by
  refine ⟨fun h => ?_, fun h => h ▸ rfl⟩
  cases g
  cases g'
  simp only [identityOf, AgentIdentity.mk.injEq, true_and] at h
  obtain ⟨rfl, rfl, rfl, rfl, -⟩ := h
  rfl

/-- What an agent resolves to, by the log. -/
theorem resolve_fst {r : IdentityRegistry} (h : r.Coherent List.isEmpty readLimit)
    (trust : FastTrust) (now : Datetime) (agentId : PyStr) :
    (r.resolve trust now agentId).1
      = (currentRegistration r.log agentId).map (identityOf trust now agentId) := by
  have hlookup : visible (find agentId r.ensureIndex) = currentRegistration r.log agentId :=
    lookup_ensure h agentId
  have htrust : (trustScore trust now agentId r.ensureIndex).1
      = currentTrust trust now r.log agentId :=
    trustScore_fst (a := ⟨⟨[], none⟩, r.ensureIndex⟩)
      ⟨(fun _ h => nomatch h), Register.Coherent.ensure h⟩ now agentId
  unfold resolve
  dsimp only
  rw [hlookup, htrust]
  cases hg : currentRegistration r.log agentId with
  | none => rfl
  | some g => simp [currentTrust, hg, identityOf]

/-- The registration of the agent, `n` records ago, or revoked after it was too far
back to be read. -/
inductive Stands (agentId : PyStr) (g : Registration) (n : ℕ) (r : IdentityRegistry) : Prop
  | registered (hlast : lastOf agentId r.log = some (.put agentId g))
      (hafter : after agentId r.log = n)
  | lost (hlast : lastOf agentId r.log = some (.revoke agentId)) (hlimit : readLimit ≤ n)

variable {agentId : PyStr} {g : Registration} {n : ℕ} {r : IdentityRegistry}

/-- The record of another agent. -/
theorem Stands.write_other (h : r.Stands agentId g n) {e : Register.Event PyStr Registration}
    (hkey : e.key ≠ agentId) : Stands agentId g (n + 1) (r.write e) := by
  cases h with
  | registered hlast hafter =>
    refine .registered ?_ ?_
    · rw [log_write, lastOf_append_other hkey, hlast]
    · rw [log_write, after_append_other hkey, hafter]
  | lost hlast hlimit =>
    refine .lost ?_ (by omega)
    rw [log_write, lastOf_append_other hkey, hlast]

/-- What stands is what resolves, while it is read. -/
theorem Stands.current_iff (h : r.Stands agentId g n) (hagent : agentId ≠ []) :
    currentRegistration r.log agentId = some g ↔ n < readLimit := by
  have hskip : List.isEmpty agentId = false := by simpa using hagent
  unfold currentRegistration
  rw [current_newest_eq_some_iff hskip]
  cases h with
  | registered hlast hafter => rw [hlast, hafter, and_iff_right rfl]
  | lost hlast hlimit =>
    rw [hlast]
    exact iff_of_false (by simp) (by omega)

/-- Another owner cannot revoke what is read. -/
theorem Stands.revoke_eq_none (h : r.Stands agentId g n) (hr : r.Coherent List.isEmpty readLimit)
    (hagent : agentId ≠ []) (hn : n < readLimit) {ownerId : PyStr} (howner : ownerId ≠ g.ownerId) :
    r.revoke agentId ownerId = none := by
  have hlookup : visible (find agentId r.ensureIndex) = some g :=
    (lookup_ensure hr agentId).trans ((h.current_iff hagent).mpr hn)
  have hother : r.ensureIndex.ownedByOther agentId ownerId = true := by
    unfold ownedByOther
    rcases hfind : find agentId r.ensureIndex with _ | ⟨g', b⟩
    · simp [hfind] at hlookup
    · cases b with
      | true => simp [hfind] at hlookup
      | false =>
        obtain rfl : g' = g := by simpa [hfind] using hlookup
        simpa using Ne.symm howner
  rw [IdentityRegistry.revoke, if_pos hother]

/-- **A call of another owner that does not register the agent.** -/
theorem Stands.step (h : r.Stands agentId g n) (hr : r.Coherent List.isEmpty readLimit)
    (hagent : agentId ≠ []) {c : Call} (howner : c.owner ≠ g.ownerId)
    (hc : ¬ c.Registers agentId) :
    ∃ k, (r.step c).log.length = r.log.length + k ∧ Stands agentId g (n + k) (r.step c) := by
  cases c with
  | register a registration =>
    rcases hq : r.register a registration with _ | q
    · exact ⟨0, by simp [IdentityRegistry.step, hq], by simpa [IdentityRegistry.step, hq] using h⟩
    · obtain rfl := Instances.eq_write_of_register hq
      refine ⟨1, by simp [IdentityRegistry.step, hq], ?_⟩
      simpa [IdentityRegistry.step, hq] using h.write_other (e := .put a registration) hc
  | revoke a ownerId =>
    rcases hq : r.revoke a ownerId with _ | q
    · refine ⟨0, by simp [IdentityRegistry.step, hq, ensureIndex], ?_⟩
      simp only [IdentityRegistry.step, hq, Option.getD_none, Nat.add_zero]
      cases h with
      | registered hlast hafter => exact .registered hlast hafter
      | lost hlast hlimit => exact .lost hlast hlimit
    · have hwrite := Instances.eq_write_of_revoke hq
      refine ⟨1, by simp [IdentityRegistry.step, hq, hwrite], ?_⟩
      simp only [IdentityRegistry.step, hq, Option.getD_some, hwrite]
      by_cases ha : a = agentId
      · -- the revocation goes through only where the registration is not read any more
        subst ha
        have hlimit : readLimit ≤ n := by
          by_contra hn
          have hnone := h.revoke_eq_none hr hagent (by omega) howner
          exact absurd (hnone.symm.trans hq) (by simp)
        exact .lost (lastOf_append_self (e := .revoke a) rfl) (by omega)
      · exact h.write_other (e := .revoke a) ha

theorem Stands.run (h : r.Stands agentId g n) (hr : r.Coherent List.isEmpty readLimit)
    (hagent : agentId ≠ []) {calls : List Call} (howner : ∀ c ∈ calls, c.owner ≠ g.ownerId)
    (hcalls : ∀ c ∈ calls, ¬ c.Registers agentId) :
    ∃ k, (Run.run IdentityRegistry.step r calls).log.length = r.log.length + k ∧
      Stands agentId g (n + k) (Run.run IdentityRegistry.step r calls) ∧
      (Run.run IdentityRegistry.step r calls).Coherent List.isEmpty readLimit := by
  induction calls generalizing r n with
  | nil => exact ⟨0, rfl, h, hr⟩
  | cons c calls ih =>
    obtain ⟨k, hlength, hstands⟩ := h.step hr hagent (howner c List.mem_cons_self)
      (hcalls c List.mem_cons_self)
    obtain ⟨l, hlength', hrun⟩ := ih hstands (coherent_step hr c)
      (fun d hd => howner d (List.mem_cons_of_mem c hd))
      (fun d hd => hcalls d (List.mem_cons_of_mem c hd))
    refine ⟨k + l, ?_, ?_⟩
    · rw [Run.run_cons, hlength', hlength, Nat.add_assoc]
    · rwa [← Nat.add_assoc]

/-- **The registration of an agent outlasts the calls of everyone but its owner**, as
long as nobody registers the agent again and fewer records follow it than are read. -/
theorem foreign_calls_keep (trust : FastTrust) (now : Datetime)
    (hr : r.Coherent List.isEmpty readLimit) (hg : currentRegistration r.log agentId = some g)
    {calls : List Call} (howner : ∀ c ∈ calls, c.owner ≠ g.ownerId)
    (hcalls : ∀ c ∈ calls, ¬ c.Registers agentId) :
    ((Run.run step r calls).resolve trust now agentId).1 = some (identityOf trust now agentId g) ↔
      after agentId r.log + ((Run.run step r calls).log.length - r.log.length) < readLimit := by
  have hagent : agentId ≠ [] := by
    rintro rfl
    simp [currentRegistration, current] at hg
  have hlast := ((current_newest_eq_some_iff (by simpa using hagent) _ _).mp hg).1
  have hstands : Stands agentId g (after agentId r.log) r := .registered hlast rfl
  obtain ⟨k, hlength, hrun, hcoherent⟩ := hstands.run hr hagent howner hcalls
  rw [resolve_fst hcoherent, hlength, Nat.add_sub_cancel_left, ← hrun.current_iff hagent,
    Option.map_eq_some_iff]
  constructor
  · rintro ⟨g', hg', heq⟩
    exact hg'.trans (congrArg some (identityOf_inj.mp heq))
  · intro hg'
    exact ⟨g, hg', rfl⟩

/-- The registration of an agent `a` by an owner `o`. -/
def sampleRegistration : Registration := ⟨py "k", py "o", none, Instances.sampleMoment⟩

/-- The registry with that registration alone. -/
def sampleRegistry : IdentityRegistry := step ⟨[], none⟩ (.register (py "a") sampleRegistration)

theorem coherent_sampleRegistry : sampleRegistry.Coherent List.isEmpty readLimit :=
  coherent_step (fun _ h => absurd h (by simp)) _

/-- Another owner tries to revoke the agent, and registers one of its own. -/
theorem foreign_calls_keep_sample :
    ((Run.run step sampleRegistry [.revoke (py "a") (py "p"), .register (py "b")
          ⟨py "l", py "p", none, Instances.sampleMoment⟩]).resolve (fun _ _ => 1)
        Instances.sampleMoment (py "a")).1
      = some (identityOf (fun _ _ => 1) Instances.sampleMoment (py "a") sampleRegistration) :=
  (foreign_calls_keep _ _ coherent_sampleRegistry (by decide +kernel) (by decide +kernel)
    (by simp [Call.Registers]; decide)).mpr (by decide +kernel)

/-- Another owner registers the agent anew, and that registration is what it resolves to. -/
theorem foreign_registration_replaces :
    ¬ ∀ calls : List Call, (∀ c ∈ calls, c.owner ≠ sampleRegistration.ownerId) →
      ((Run.run step sampleRegistry calls).resolve (fun _ _ => 1) Instances.sampleMoment
          (py "a")).1
        = some (identityOf (fun _ _ => 1) Instances.sampleMoment (py "a") sampleRegistration) := by
  intro h
  have howner := h [.register (py "a") ⟨py "l", py "p", none, Instances.sampleMoment⟩]
    (by decide +kernel)
  have hkey := congrArg (Option.map AgentIdentity.publicKey) howner
  exact absurd hkey (by decide +kernel)

end IdentityRegistry

end Daryl
