import Daryl.Dsm.Orchestrator

/-!
# `collective` and `lanes`: pushing projections

A push hands entries to the orchestrator one by one and writes a projection of
each that is admitted.  A lane is a collective shard of its own per agent; all
lanes share one orchestrator.  Per entry the clock, the answers of the storage and
the hash of the agent's last contribution are inputs; an exception ends the push
where it is raised.

## Main definitions

* `Collective` — the orchestrator, the lanes and the projections written.
* `pushEntry`, `push`, `lanePush` — one entry, a push, and a push to a lane.
* `collectiveStep` — one call.
* `Fresh` — no entry is answered by a cached admission.

## Main results

* `pushEntry_counted` — a fresh entry is counted before it is written.
* `rate_limited` — **fresh pushes never write more than the limit for an agent.**
-/

namespace Daryl

open Py Json

/-- A projection in a collective shard. -/
structure Projection where
  shard : PyStr
  agentId : PyStr
  content : PyStr
  hash : PyStr
  deriving DecidableEq

/-- The orchestrator, the agents with a lane, and the projections in the order they
were written. -/
structure Collective where
  world : World
  lanes : List PyStr
  projections : List Projection

/-- An entry of a push, with what the outside answers while it is handled: the
clock, whether the audit shard takes the decision, the hash of the agent's last
contribution, and the hash the storage gives the projection, or its `OSError`. -/
structure PushItem (F : Type) where
  entry : Candidate F
  now : Datetime
  trustNow : Datetime
  policyNow : Datetime
  logged : Bool
  agentPrev : PyStr
  written : Option PyStr

/-- A push: the shard, the agent, the owner, the two optional functions that
summarise an entry, which may raise, and the entries. -/
structure PushCall (F : Type) where
  shard : PyStr
  agentId : PyStr
  ownerId : PyStr
  summaryFn : Option (Candidate F → Except PyError PyStr)
  detailFn : Option (Candidate F → Except PyError (PyStr × List PyStr))
  items : List (PushItem F)

/-- What became of an entry: the hash of its projection, or why it has none. -/
inductive PushOutcome
  | admitted (hash : PyStr)
  | rejected (hash reason : PyStr)
  deriving DecidableEq

section

variable {F : Type} [PyFloat F]

/-- The admission of an entry of a push. -/
def PushItem.call (p : PushCall F) (i : PushItem F) : AdmitCall F :=
  ⟨i.entry, p.agentId, p.ownerId, i.now, i.trustNow, i.policyNow, i.logged⟩

/-- The text of a projection. -/
def projectionContent (sha : Sha256) (p : PushCall F) (i : PushItem F) : Except PyError PyStr := do
  let summary ← match p.summaryFn with
    | some f => f i.entry
    | none => .ok (i.entry.content.take 100)
  let (detail, keyFindings) ← match p.detailFn with
    | some f => f i.entry
    | none => .ok ([], [])
  let contentHash ← match encodeUtf8 i.entry.content with
    | some bs => .ok (hexdigest sha bs)
    | none => .error .unicodeEncodeError
  let projection : PyVal F := .dict (strItems [
    (py "agent_id", .str p.agentId),
    (py "source_hash", .str i.entry.hash),
    (py "content_hash", .str contentHash),
    (py "summary", .str summary),
    (py "detail", .str detail),
    (py "key_findings", .list (keyFindings.map .str)),
    (py "action_type", i.entry.entryType),
    (py "agent_prev_hash", .str i.agentPrev)])
  match dumpsSorted ⟨true, true, false⟩ projection with
  | .ok text => .ok text
  | .error e => .error (DumpsError.toPyError e)

/-- One turn of the loop of `push`. -/
def pushEntry (sha : Sha256) (trust : FastTrust) (p : PushCall F) (i : PushItem F)
    (s : Collective) : Except PyError PushOutcome × Collective :=
  match admitEntry trust RuleSet.default (i.call p) s.world with
  | (.error e, w) => (.error e, { s with world := w })
  | (.ok result, w) =>
    let s := { s with world := w }
    if result.verdict ≠ .allow then (.ok (.rejected i.entry.hash result.reason), s)
    else
      match projectionContent sha p i with
      | .error e => (.error e, s)
      | .ok content =>
        -- the metadata of the projection names the agent and the hash
        if ¬(Encodable p.agentId ∧ Encodable i.entry.hash) then (.error .unicodeEncodeError, s)
        else
          match i.written with
          | none => (.ok (.rejected i.entry.hash (py "OSError")), s)
          | some hash =>
            (.ok (.admitted hash),
              { s with projections := s.projections ++ [⟨p.shard, p.agentId, content, hash⟩] })

/-- The loop of `push`. -/
def pushItems (sha : Sha256) (trust : FastTrust) (p : PushCall F) :
    List (PushItem F) → Collective → Except PyError (List PushOutcome) × Collective
  | [], s => (.ok [], s)
  | i :: is, s =>
    match pushEntry sha trust p i s with
    | (.error e, s') => (.error e, s')
    | (.ok outcome, s') =>
      let (outcomes, s'') := pushItems sha trust p is s'
      (outcomes.map (outcome :: ·), s'')

/-- `ShardSyncEngine.push`. -/
def push (sha : Sha256) (trust : FastTrust) (p : PushCall F) (s : Collective) :
    Except PyError (List PushOutcome) × Collective :=
  pushItems sha trust p p.items s

/-- `LANE_PREFIX` and `lane_shard_name`. -/
def laneShardName (agentId : PyStr) : PyStr := py "collective_lane_" ++ agentId

/-- `LaneGroup.push`: the push of the agent's lane, whatever shard the call names;
without a lane it is a `KeyError`, and nothing happens. -/
def lanePush (sha : Sha256) (trust : FastTrust) (p : PushCall F) (s : Collective) :
    Option (Except PyError (List PushOutcome)) × Collective :=
  if p.agentId ∈ s.lanes then
    let (outcomes, s') := push sha trust { p with shard := laneShardName p.agentId } s
    (some outcomes, s')
  else (none, s)

/-- A call on the registers, the orchestrator, an engine or the lanes. -/
inductive CollectiveEvent (F : Type)
  | world (i : WorldEvent F)
  | push (p : PushCall F)
  | registerLane (agentId : PyStr)
  | lanePush (p : PushCall F)

/-- One call. -/
def collectiveStep (sha : Sha256) (trust : FastTrust) (s : Collective) :
    CollectiveEvent F → Collective
  | .world i => { s with world := worldStep trust RuleSet.default s.world i }
  | .push p => (push sha trust p s).2
  | .registerLane agentId =>
    { s with lanes := if agentId ∈ s.lanes then s.lanes else s.lanes ++ [agentId] }
  | .lanePush p => (lanePush sha trust p s).2

/-! ### The count of an agent -/

/-- The projections of an agent. -/
def Collective.count (s : Collective) (agentId : PyStr) : ℕ :=
  (s.projections.filter fun p => p.agentId = agentId).length

/-- **The rate limit**: no agent has more projections than the limit. -/
def RateHolds (s : Collective) : Prop := ∀ agentId, s.count agentId ≤ defaultRate

/-- Every projection of an agent was counted by the orchestrator, which stops at
the limit. -/
structure Counted (s : Collective) : Prop where
  coherent : s.world.authority.Coherent
  counted : ∀ agentId, s.count agentId ≤ s.world.admissions agentId
  limited : ∀ agentId, s.world.admissions agentId ≤ defaultRate

theorem Counted.holds {s : Collective} (h : Counted s) : RateHolds s :=
  fun agentId => (h.counted agentId).trans (h.limited agentId)

/-- No cached admission answers for the entry. -/
def NotCached (w : World) (entry : Candidate F) : Prop :=
  ∀ r, w.cached entry = some r → r.verdict ≠ .allow

instance (w : World) (entry : Candidate F) : Decidable (NotCached w entry) :=
  match h : w.cached entry with
  | none => .isTrue fun _ hr => absurd (h.symm.trans hr) (by simp)
  | some r =>
    if hv : r.verdict = .allow then .isFalse fun hn => hn r h hv
    else .isTrue fun _ hr => by rwa [← Option.some.inj (h.symm.trans hr)]

/-- Each entry of the loop, when its turn comes, is answered by no cached
admission. -/
def FreshItems (sha : Sha256) (trust : FastTrust) (p : PushCall F) :
    List (PushItem F) → Collective → Prop
  | [], _ => True
  | i :: is, s => NotCached s.world i.entry ∧ FreshItems sha trust p is (pushEntry sha trust p i s).2

/-- No entry of the call is answered by a cached admission when its turn comes. -/
def Fresh (sha : Sha256) (trust : FastTrust) (s : Collective) : CollectiveEvent F → Prop
  | .push p => FreshItems sha trust p p.items s
  | .lanePush p => FreshItems sha trust { p with shard := laneShardName p.agentId } p.items s
  | _ => True

variable {sha : Sha256} {trust : FastTrust} {s : Collective} {p : PushCall F} {i : PushItem F}

/-- What a turn of the loop does: it admits, and writes nothing or, after an
admission, one projection of the agent. -/
theorem pushEntry_cases (sha : Sha256) (trust : FastTrust) (p : PushCall F) (i : PushItem F)
    (s : Collective) :
    (pushEntry sha trust p i s).2 = { s with
        world := (admitEntry trust RuleSet.default (i.call p) s.world).2 } ∨
      ∃ r content hash,
        (admitEntry trust RuleSet.default (i.call p) s.world).1 = .ok r ∧ r.verdict = .allow ∧
        (pushEntry sha trust p i s).2 = { s with
          world := (admitEntry trust RuleSet.default (i.call p) s.world).2
          projections := s.projections ++ [⟨p.shard, p.agentId, content, hash⟩] } := by
  unfold pushEntry
  rcases admitEntry trust RuleSet.default (i.call p) s.world with ⟨_ | r, w⟩
  · exact .inl rfl
  · by_cases hallow : r.verdict = .allow
    · simp only [hallow, ne_eq, not_true_eq_false, if_false]
      cases projectionContent sha p i with
      | error e => exact .inl rfl
      | ok content =>
        by_cases henc : Encodable p.agentId ∧ Encodable i.entry.hash
        · simp only [henc, and_self, not_true_eq_false, if_false]
          cases i.written with
          | none => exact .inl rfl
          | some hash => exact .inr ⟨r, content, hash, rfl, hallow, rfl⟩
        · left
          simp [henc]
    · left
      simp [hallow]

omit [PyFloat F] in
/-- The counter after a decision. -/
theorem admissions_record (r : AdmissionResult) (w : World) (agentId : PyStr) :
    (w.record r).admissions agentId
      = w.admissions agentId + if r.verdict = .allow ∧ r.agentId = agentId then 1 else 0 := by
  unfold World.admissions World.record
  by_cases hallow : r.verdict = .allow
  · rw [if_pos hallow, Dict.get_set]
    by_cases hagent : r.agentId = agentId
    · rw [if_pos hagent, if_pos ⟨hallow, hagent⟩, ← hagent]
      rfl
    · rw [if_neg hagent, if_neg fun h => hagent h.2]
      rfl
  · rw [if_neg hallow, if_neg (fun h => hallow h.1 : ¬(r.verdict = .allow ∧ r.agentId = agentId))]
    rfl

omit [PyFloat F] in
/-- **An admission that is not cached is counted**, and stays within the limit. -/
theorem admitEntry_counted {c : AdmitCall F} {w : World} (hw : w.authority.Coherent)
    (hfresh : NotCached w c.entry) {r : AdmissionResult} {w' : World}
    (h : admitEntry trust RuleSet.default c w = (.ok r, w')) (hallow : r.verdict = .allow) :
    w.admissions c.agentId < defaultRate ∧
      ∀ agentId, w'.admissions agentId
        = w.admissions agentId + if c.agentId = agentId then 1 else 0 := by
  rcases admitEntry_cases h with ⟨hcached, -⟩ | ⟨-, hr, rfl⟩
  · exact absurd hallow (hfresh r hcached)
  · have hagent : r.agentId = c.agentId := by rw [hr]; rfl
    refine ⟨((decision_allow_iff hw).mp (hr ▸ hallow)).rate, ?_⟩
    intro agentId
    rw [admissions_record, hagent]
    simp [hallow, World.admissions]

omit [PyFloat F] in
/-- No call of `admit` lets the counter pass the limit, or fall. -/
theorem admitEntry_limited (trust : FastTrust) (c : AdmitCall F) {w : World} (hw : w.authority.Coherent)
    (hlimit : ∀ agentId, w.admissions agentId ≤ defaultRate) (agentId : PyStr) :
    w.admissions agentId ≤ (admitEntry trust RuleSet.default c w).2.admissions agentId ∧
      (admitEntry trust RuleSet.default c w).2.admissions agentId ≤ defaultRate := by
  rcases h : admitEntry trust RuleSet.default c w with ⟨_ | r, w'⟩
  · have hsame : w'.admissions agentId = w.admissions agentId := by
      rw [admitEntry_error h]
      simp [World.admissions]
    exact ⟨hsame.ge, hsame ▸ hlimit agentId⟩
  · rcases admitEntry_cases h with ⟨-, rfl⟩ | ⟨-, hr, rfl⟩
    · exact ⟨le_refl _, hlimit agentId⟩
    · rw [admissions_record]
      have hagent : r.agentId = c.agentId := by rw [hr]; rfl
      have hbase : ∀ (authority : Authority) (audit : List AdmissionResult),
          World.admissions ⟨authority, w.cache, w.admissionCounts, audit⟩ agentId
            = w.admissions agentId := fun _ _ => rfl
      simp only [buildContext_cache, buildContext_admissionCounts, hbase]
      split_ifs with hcount
      · have hrate := ((decision_allow_iff hw).mp (hr ▸ hcount.1)).rate
        rw [← hagent, hcount.2] at hrate
        exact ⟨Nat.le_add_right _ _, hrate⟩
      · exact ⟨le_refl _, hlimit agentId⟩

/-! ### Runs -/

omit [PyFloat F] in
theorem admitEntry_coherent {c : AdmitCall F} {w : World} (h : w.authority.Coherent) :
    (admitEntry trust RuleSet.default c w).2.authority.Coherent :=
  worldStep_coherent trust RuleSet.default w (.admitEntry c) h

/-- **A turn of the loop whose entry is not answered by a cached admission keeps
every projection counted.** -/
theorem pushEntry_counted (sha : Sha256) (trust : FastTrust) (p : PushCall F) (hs : Counted s) (hfresh : NotCached s.world i.entry) :
    Counted (pushEntry sha trust p i s).2 := by
  have hlimited := admitEntry_limited trust (i.call p) hs.coherent hs.limited
  rcases pushEntry_cases sha trust p i s with hstep | ⟨r, content, hash, hcall, hallow, hstep⟩
  · rw [hstep]
    refine ⟨admitEntry_coherent hs.coherent, ?_, fun agentId => (hlimited agentId).2⟩
    intro agentId
    exact (hs.counted agentId).trans (hlimited agentId).1
  · rw [hstep]
    refine ⟨admitEntry_coherent hs.coherent, ?_, fun agentId => (hlimited agentId).2⟩
    intro agentId
    have hcount := (admitEntry_counted hs.coherent hfresh
      (Prod.ext hcall rfl) hallow).2 agentId
    have hold := hs.counted agentId
    rw [hcount]
    simp only [Collective.count, List.filter_append, List.length_append, PushItem.call] at hold ⊢
    by_cases hagent : p.agentId = agentId
    · simp [hagent] at hold ⊢
      omega
    · simp [hagent] at hold ⊢
      omega

theorem pushItems_counted : ∀ {is : List (PushItem F)} {s : Collective}, Counted s →
    FreshItems sha trust p is s → Counted (pushItems sha trust p is s).2
  | [], _, hs, _ => hs
  | i :: is, s, hs, hfresh => by
    have hstep := pushEntry_counted sha trust p hs hfresh.1
    have hrest := hfresh.2
    rcases hpush : pushEntry sha trust p i s with ⟨_ | outcome, s'⟩
    · rw [hpush] at hstep
      simpa only [pushItems, hpush] using hstep
    · rw [hpush] at hstep hrest
      simpa only [pushItems, hpush] using pushItems_counted hstep hrest

/-- A change of the registers counts nothing. -/
theorem collectiveStep_counted (s : Collective) (e : CollectiveEvent F) (hs : Counted s)
    (hfresh : Fresh sha trust s e) : Counted (collectiveStep sha trust s e) := by
  cases e with
  | world i =>
    have hcoherent := worldStep_coherent trust RuleSet.default s.world i
      hs.coherent
    cases i with
    | admitEntry c =>
      have hlimited := admitEntry_limited trust c hs.coherent hs.limited
      exact ⟨hcoherent, fun agentId => (hs.counted agentId).trans (hlimited agentId).1,
        fun agentId => (hlimited agentId).2⟩
    | _ => exact ⟨hcoherent, hs.counted, hs.limited⟩
  | push p => exact pushItems_counted hs hfresh
  | registerLane agentId => exact ⟨hs.coherent, hs.counted, hs.limited⟩
  | lanePush p =>
    simp only [collectiveStep, lanePush]
    split_ifs
    · exact pushItems_counted hs hfresh
    · exact hs

/-- A new orchestrator over these logs, without lanes and projections. -/
def Collective.open (policies : List (Register.Event PyStr Policy))
    (identities : List (Register.Event PyStr Registration)) : Collective :=
  ⟨.open policies identities, [], []⟩

omit [PyFloat F] in
theorem counted_open (policies : List (Register.Event PyStr Policy))
    (identities : List (Register.Event PyStr Registration)) :
    Counted (.open policies identities) := by
  refine ⟨⟨?_, ?_⟩, ?_, ?_⟩
  · intro index h
    cases h
  · intro index h
    cases h
  · intro agentId
    exact Nat.zero_le _
  · intro agentId
    exact Nat.zero_le _

/-- **In every run in which no pushed entry is answered by a cached admission, no
agent has more projections than the rate limit**, in every state on the way. -/
theorem rate_limited (sha : Sha256) (trust : FastTrust)
    (policies : List (Register.Event PyStr Policy))
    (identities : List (Register.Event PyStr Registration)) (es : List (CollectiveEvent F))
    (h : Run.Along (collectiveStep sha trust) (Fresh sha trust) (.open policies identities) es) :
    ∀ pre, pre <+: es →
      RateHolds (Run.run (collectiveStep sha trust) (.open policies identities) pre) := by
  rintro pre ⟨post, rfl⟩
  have hpre := (Run.along_append.mp h).1
  exact (Run.run_invariant collectiveStep_counted (counted_open policies identities) hpre).holds

/-- The entry with this hash, in a push that the storage takes. -/
def sampleItem (hash : PyStr) : PushItem FloatLit :=
  ⟨sampleCandidate hash, sampleNow, sampleNow, sampleNow, true, [], some (py "v1:0")⟩

/-- A push of these entries by the agent `a` to the owner `o`. -/
def samplePush (items : List (PushItem FloatLit)) : PushCall FloatLit :=
  ⟨py "collective_main", py "a", py "o", none, none, items⟩

theorem rate_limited_sample :
    RateHolds (Run.run (collectiveStep nibbles sampleTrust) (.open [] [])
      (sampleAuthority.map .world ++ [.push (samplePush [sampleItem (py "h"), sampleItem []]),
        .registerLane (py "a"), .lanePush (samplePush [sampleItem (py "i")])])) :=
  rate_limited nibbles sampleTrust [] [] _
    (by simp only [sampleAuthority, List.map_cons, List.map_nil, List.cons_append, List.nil_append,
          Run.Along, Fresh, samplePush, FreshItems]
        decide +kernel) _ List.prefix_rfl

/-- One entry, pushed again and again: it is decided once, and its later pushes are
neither limited nor counted. -/
theorem rate_unlimited :
    ¬RateHolds (Run.run (collectiveStep nibbles sampleTrust) (.open [] [])
      (sampleAuthority.map .world ++
        [.push (samplePush (List.replicate 101 (sampleItem (py "h"))))])) := by
  intro h
  exact absurd (h (py "a")) (by decide +kernel)

end

end Daryl
