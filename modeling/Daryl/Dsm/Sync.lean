import Daryl.Dsm.Collective
import Daryl.Lib.HashChain
import Mathlib.Data.List.DropRight

/-!
# `collective`: the window of a shard, pushes and pulls

A `CollectiveShard` reads the newest entries of its shard into an index and keeps
it until a push of its own engine invalidates it.  A push asks the index for the
agent's last hash, a pull for what is new to the agent.  There may be many shard
instances, each with a window and an index.  An entry of the shard is the
projection it spells; the hash the storage gives it is an argument.

## Main definitions

* `CollectiveEntry`, `Sync` — an entry of the index; the shard and its instances.
* `Sync.ensureIndex`, `Sync.since`, `Sync.recent`, `Sync.lastHashForAgent`.
* `Sync.pushEntry`, `Sync.push`, `Sync.pull`.

## Main results

* `lastHash_newestEntries` — when a window shows an agent's last projection.
* `agentChained_iff` — **when the projections of every agent are a chain.**
* `chain_broken` — a window without the agent's last projection starts its chain anew.
-/

namespace Daryl

open Py

/-- `CollectiveEntry`. -/
structure CollectiveEntry (F : Type) where
  hash : PyStr
  agentId : PyStr
  sourceHash : PyStr
  contentHash : PyStr
  summary : PyStr
  detail : PyStr
  keyFindings : List PyStr
  actionType : PyVal F
  agentPrevHash : PyStr
  contributedAt : Datetime
  deriving DecidableEq

/-- The world of the orchestrator, the entries of the shard, oldest first, and the
index each `CollectiveShard` instance holds. -/
structure Sync (ι F : Type) where
  world : World
  entries : List (CollectiveEntry F)
  index : ι → Option (List (CollectiveEntry F))

/-- An entry of a push: with what `PushItem` has, the time of the projection and the
hash of a line that an append left although it raised. -/
structure SyncItem (F : Type) where
  item : PushItem F
  contributedAt : Datetime
  landed : Option PyStr

/-- `PullResult`. -/
structure PullResult where
  synced : ℕ
  lastHash : Option PyStr
  deriving DecidableEq

section

variable {F ι : Type}

/-- The newest entries, oldest first. -/
def newestEntries (windowSize : ℕ) (entries : List (CollectiveEntry F)) : List (CollectiveEntry F) :=
  entries.drop (entries.length - windowSize)

/-- `_last_contribution_by_agent`: the last hash of every agent in the index. -/
def lastContributionByAgent (index : List (CollectiveEntry F)) : List (PyStr × PyStr) :=
  index.foldl (fun d e => Dict.set e.agentId e.hash d) []

/-- `since`, on the index: what comes after the hash. -/
def sinceHash (entryHash : PyStr) (index : List (CollectiveEntry F)) : List (CollectiveEntry F) :=
  (index.foldl (fun (found, result) e =>
    (found || e.hash = entryHash, if found then result ++ [e] else result)) (false, [])).2

/-- The new entries of a pull: what comes after the hash, and without one the newest
hundred, newest first. -/
def newEntries (since : Option PyStr) (index : List (CollectiveEntry F)) :
    List (CollectiveEntry F) :=
  match since.getD [] with
  | [] => index.reverse.take 100
  | hash => sinceHash hash index

namespace Sync

/-- The index an instance works with: the one it holds, or the window as it is. -/
def indexOf (window : ι → ℕ) (i : ι) (s : Sync ι F) : List (CollectiveEntry F) :=
  (s.index i).getD (newestEntries (window i) s.entries)

variable [DecidableEq ι]

/-- `_ensure_index`. -/
def ensureIndex (window : ι → ℕ) (i : ι) (s : Sync ι F) : Sync ι F :=
  { s with index := Function.update s.index i (some (s.indexOf window i)) }

/-- `_invalidate`. -/
def invalidate (i : ι) (s : Sync ι F) : Sync ι F :=
  { s with index := Function.update s.index i none }

/-- `last_hash_for_agent`. -/
def lastHashForAgent (window : ι → ℕ) (i : ι) (agentId : PyStr) (s : Sync ι F) :
    PyStr × Sync ι F :=
  ((Dict.get agentId (lastContributionByAgent (s.indexOf window i))).getD [], s.ensureIndex window i)

/-- `pull`: what is new, and the hash to go on from.  An agent UTF-8 refuses is an
exception once there is something to write down. -/
def pull (window : ι → ℕ) (i : ι) (agentId : PyStr) (since : Option PyStr) (s : Sync ι F) :
    Option PullResult × Sync ι F :=
  let new := newEntries since (s.indexOf window i)
  let s := s.ensureIndex window i
  match new.getLast? with
  | none => (some ⟨0, since⟩, s)
  | some e => if Encodable agentId then (some ⟨new.length, some e.hash⟩, s) else (none, s)

variable [PyFloat F]

/-- What a projection is made of before the index is asked: the summary, the detail,
the findings and the hash of the content. -/
def projectionFields (sha : Sha256) (p : PushCall F) (entry : Candidate F) :
    Except PyError (PyStr × PyStr × List PyStr × PyStr) := do
  let summary ← match p.summaryFn with
    | some f => f entry
    | none => .ok (entry.content.take 100)
  let (detail, keyFindings) ← match p.detailFn with
    | some f => f entry
    | none => .ok ([], [])
  let contentHash ← match encodeUtf8 entry.content with
    | some bs => .ok (hexdigest sha bs)
    | none => .error .unicodeEncodeError
  return (summary, detail, keyFindings, contentHash)

/-- One turn of the loop of `push`. -/
def pushEntry (sha : Sha256) (trust : FastTrust) (window : ι → ℕ) (i : ι) (p : PushCall F)
    (c : SyncItem F) (s : Sync ι F) : Except PyError PushOutcome × Sync ι F :=
  match admitEntry trust RuleSet.default (c.item.call p) s.world with
  | (.error e, w) => (.error e, { s with world := w })
  | (.ok result, w) =>
    let s := { s with world := w }
    if result.verdict ≠ .allow then (.ok (.rejected c.item.entry.hash result.reason), s)
    else
      match projectionFields sha p c.item.entry with
      | .error e => (.error e, s)
      | .ok (summary, detail, keyFindings, contentHash) =>
        let (agentPrev, s) := s.lastHashForAgent window i p.agentId
        match projectionContent sha p { c.item with agentPrev := agentPrev } with
        | .error e => (.error e, s)
        | .ok _ =>
          -- the metadata of the projection names the agent and the hash
          if ¬(Encodable p.agentId ∧ Encodable c.item.entry.hash) then (.error .unicodeEncodeError, s)
          else
            let entry := fun hash => (⟨hash, p.agentId, c.item.entry.hash, contentHash, summary, detail,
              keyFindings, c.item.entry.entryType, agentPrev, c.contributedAt⟩ : CollectiveEntry F)
            match c.item.written with
            | some hash =>
              (.ok (.admitted hash), { s with entries := s.entries ++ [entry hash] }.invalidate i)
            | none => (.ok (.rejected c.item.entry.hash (py "OSError")),
              { s with entries := s.entries ++ (c.landed.map entry).toList })

/-- The loop of `push`; an exception ends it. -/
def push (sha : Sha256) (trust : FastTrust) (window : ι → ℕ) (i : ι) (p : PushCall F) :
    List (SyncItem F) → Sync ι F → Except PyError (List PushOutcome) × Sync ι F
  | [], s => (.ok [], s)
  | c :: cs, s =>
    match s.pushEntry sha trust window i p c with
    | (.error e, s') => (.error e, s')
    | (.ok outcome, s') =>
      let (outcomes, s'') := push sha trust window i p cs s'
      (outcomes.map (outcome :: ·), s'')

end Sync

end

section

variable {F ι : Type} [PyFloat F] [DecidableEq ι]

/-- A call on the registers, or on one of the instances: a push, or a read, which keeps
the index. -/
inductive SyncEvent (ι F : Type)
  | world (e : WorldEvent F)
  | push (i : ι) (p : PushCall F) (items : List (SyncItem F))
  | read (i : ι)

/-- One call. -/
def Sync.step (sha : Sha256) (trust : FastTrust) (window : ι → ℕ) (s : Sync ι F) :
    SyncEvent ι F → Sync ι F
  | .world e => { s with world := worldStep trust RuleSet.default s.world e }
  | .push i p items => (s.push sha trust window i p items).2
  | .read i => s.ensureIndex window i

/-- An empty shard, and instances that have read nothing. -/
def Sync.open (policies : List (Register.Event PyStr Policy))
    (identities : List (Register.Event PyStr Registration)) : Sync ι F :=
  ⟨.open policies identities, [], fun _ => none⟩

/-! ### The chain of an agent -/

omit [PyFloat F] in
/-- The hash of the last entry of an agent, empty without one. -/
def lastHash (entries : List (CollectiveEntry F)) (agentId : PyStr) : PyStr :=
  ((entries.filter fun e => e.agentId = agentId).getLast?.map CollectiveEntry.hash).getD []

omit [PyFloat F] in
/-- **The projections of every agent form a chain**: the first names no predecessor,
and each other the one before it. -/
def AgentChained (entries : List (CollectiveEntry F)) : Prop :=
  ∀ agentId, (∀ e ∈ (entries.filter fun e => e.agentId = agentId).head?, e.agentPrevHash = []) ∧
    HashChain.Linked CollectiveEntry.hash CollectiveEntry.agentPrevHash
      (entries.filter fun e => e.agentId = agentId)

omit [PyFloat F] in
/-- The index says what its entries say. -/
theorem get_lastContributionByAgent (index : List (CollectiveEntry F)) (agentId : PyStr) :
    (Dict.get agentId (lastContributionByAgent index)).getD [] = lastHash index agentId := by
  unfold lastContributionByAgent lastHash
  induction index using List.reverseRecOn with
  | nil => rfl
  | append_singleton index e ih =>
    rw [List.foldl_append, List.foldl_cons, List.foldl_nil, Dict.get_set, List.filter_append]
    by_cases h : e.agentId = agentId
    · simp [h]
    · simp [h, ih]

omit [PyFloat F] in
/-- One more entry of a chain. -/
theorem chained_concat {es : List (CollectiveEntry F)} {e : CollectiveEntry F} :
    ((∀ x ∈ (es ++ [e]).head?, x.agentPrevHash = []) ∧
        HashChain.Linked CollectiveEntry.hash CollectiveEntry.agentPrevHash (es ++ [e])) ↔
      ((∀ x ∈ es.head?, x.agentPrevHash = []) ∧
        HashChain.Linked CollectiveEntry.hash CollectiveEntry.agentPrevHash es) ∧
      e.agentPrevHash = (es.getLast?.map CollectiveEntry.hash).getD [] := by
  rw [HashChain.linked_concat]
  cases h : es.getLast? with
  | none =>
    obtain rfl := List.getLast?_eq_none_iff.mp h
    simp
  | some l =>
    have hhead : (es ++ [e]).head? = es.head? := by
      cases es with
      | nil => simp at h
      | cons x es => rfl
    rw [hhead]
    simp [and_assoc]

omit [PyFloat F] in
/-- A projection continues the chains exactly when it names the last one of its agent. -/
theorem agentChained_append {entries : List (CollectiveEntry F)} {e : CollectiveEntry F} :
    AgentChained (entries ++ [e]) ↔
      AgentChained entries ∧ e.agentPrevHash = lastHash entries e.agentId := by
  have hself : (entries ++ [e]).filter (fun x => x.agentId = e.agentId)
      = entries.filter (fun x => x.agentId = e.agentId) ++ [e] := by
    simp
  have hother : ∀ agentId, agentId ≠ e.agentId → (entries ++ [e]).filter (fun x => x.agentId = agentId)
      = entries.filter fun x => x.agentId = agentId := by
    intro agentId hne
    simp [Ne.symm hne]
  constructor
  · intro h
    refine ⟨fun agentId => ?_, (chained_concat.mp (hself ▸ h e.agentId)).2⟩
    by_cases hagent : agentId = e.agentId
    · subst hagent
      exact (chained_concat.mp (hself ▸ h _)).1
    · exact hother agentId hagent ▸ h agentId
  · rintro ⟨h, hprev⟩ agentId
    by_cases hagent : agentId = e.agentId
    · subst hagent
      rw [hself]
      exact chained_concat.mpr ⟨h _, hprev⟩
    · rw [hother agentId hagent]
      exact h agentId

omit [PyFloat F] in
theorem AgentChained.of_append {entries more : List (CollectiveEntry F)}
    (h : AgentChained (entries ++ more)) : AgentChained entries := by
  induction more using List.reverseRecOn with
  | nil => rwa [List.append_nil] at h
  | append_singleton more e ih =>
    rw [← List.append_assoc] at h
    exact ih (agentChained_append.mp h).1

/-! ### What a turn of the loop leaves -/

variable {sha : Sha256} {trust : FastTrust} {window : ι → ℕ} {i : ι} {p : PushCall F}
  {c : SyncItem F} {s : Sync ι F}

/-- The entry is admitted, its projection can be written, and its line gets into the
shard, though the append may have raised. -/
structure Sync.Lands (sha : Sha256) (trust : FastTrust) (window : ι → ℕ) (i : ι) (p : PushCall F)
    (c : SyncItem F) (s : Sync ι F) : Prop where
  admitted : ∃ r, (admitEntry trust RuleSet.default (c.item.call p) s.world).1 = .ok r ∧
    r.verdict = .allow
  fields : ∃ f, Sync.projectionFields sha p c.item.entry = .ok f
  content : ∃ text, projectionContent sha p
    { c.item with agentPrev := lastHash (s.indexOf window i) p.agentId } = .ok text
  encodable : Encodable p.agentId ∧ Encodable c.item.entry.hash
  landed : c.item.written.isSome ∨ c.landed.isSome

/-- **A turn of the loop leaves a projection that names what the index says is the
agent's last one, or nothing.** -/
theorem entries_pushEntry (sha : Sha256) (trust : FastTrust) (window : ι → ℕ) (i : ι)
    (p : PushCall F) (c : SyncItem F) (s : Sync ι F) :
    (¬ s.Lands sha trust window i p c ∧
        (s.pushEntry sha trust window i p c).2.entries = s.entries) ∨
      (s.Lands sha trust window i p c ∧ ∃ e : CollectiveEntry F, e.agentId = p.agentId ∧
        e.agentPrevHash = lastHash (s.indexOf window i) p.agentId ∧
        (s.pushEntry sha trust window i p c).2.entries = s.entries ++ [e]) := by
  unfold Sync.pushEntry
  rcases hcall : admitEntry trust RuleSet.default (c.item.call p) s.world with ⟨_ | r, w⟩
  · exact .inl ⟨fun h => by simpa [hcall] using h.admitted, rfl⟩
  by_cases hallow : r.verdict = .allow
  · simp only [hallow, ne_eq, not_true_eq_false, if_false]
    cases hfields : Sync.projectionFields sha p c.item.entry with
    | error e => exact .inl ⟨fun h => by simpa [hfields] using h.fields, rfl⟩
    | ok f =>
      obtain ⟨summary, detail, keyFindings, contentHash⟩ := f
      simp only [Sync.lastHashForAgent, Sync.indexOf, get_lastContributionByAgent]
      cases hcontent : projectionContent sha p
          { c.item with agentPrev := lastHash (s.indexOf window i) p.agentId } with
      | error e =>
        left
        refine ⟨fun h => by simpa [hcontent] using h.content, ?_⟩
        simp only [Sync.indexOf] at hcontent
        rw [hcontent]
        rfl
      | ok text =>
        simp only [Sync.indexOf] at hcontent
        rw [hcontent]
        by_cases henc : Encodable p.agentId ∧ Encodable c.item.entry.hash
        · simp only [henc, and_self, not_true_eq_false, if_false]
          have hlands : c.item.written.isSome ∨ c.landed.isSome → s.Lands sha trust window i p c :=
            fun h => ⟨⟨r, by rw [hcall], hallow⟩, ⟨_, hfields⟩, ⟨text, hcontent⟩, henc, h⟩
          cases hwritten : c.item.written with
          | some hash =>
            -- the append returned
            exact .inr ⟨hlands (by simp [hwritten]), _, rfl, rfl, rfl⟩
          | none =>
            -- it raised, with its line written or not
            cases hlanded : c.landed with
            | none =>
              refine .inl ⟨fun h => by simpa [hwritten, hlanded] using h.landed, ?_⟩
              simp [Sync.ensureIndex]
            | some hash => exact .inr ⟨hlands (by simp [hlanded]), _, rfl, rfl, rfl⟩
        · left
          refine ⟨fun h => henc h.encodable, ?_⟩
          simp [henc, Sync.ensureIndex]
  · left
    refine ⟨fun h => ?_, by simp [hallow]⟩
    obtain ⟨r', hr', hallow'⟩ := h.admitted
    rw [hcall] at hr'
    exact hallow (Except.ok.inj hr' ▸ hallow')

/-- Where the projection lands, the index shows the agent's last one. -/
def Sync.Seen (sha : Sha256) (trust : FastTrust) (window : ι → ℕ) (i : ι) (p : PushCall F)
    (c : SyncItem F) (s : Sync ι F) : Prop :=
  s.Lands sha trust window i p c →
    lastHash (s.indexOf window i) p.agentId = lastHash s.entries p.agentId

theorem agentChained_pushEntry (h : AgentChained s.entries) :
    AgentChained (s.pushEntry sha trust window i p c).2.entries ↔ s.Seen sha trust window i p c := by
  rcases entries_pushEntry sha trust window i p c s with
    ⟨hlands, hentries⟩ | ⟨hlands, e, hagent, hprev, hentries⟩
  · rw [hentries]
    exact iff_of_true h fun hl => absurd hl hlands
  · rw [hentries, agentChained_append, hagent, hprev]
    exact ⟨fun hc _ => hc.2, fun hc => ⟨h, hc hlands⟩⟩

/-! ### Runs -/

/-- Every entry of the loop, when its turn comes, has its index show the agent's last
projection. -/
def SeenItems (sha : Sha256) (trust : FastTrust) (window : ι → ℕ) (i : ι) (p : PushCall F) :
    List (SyncItem F) → Sync ι F → Prop
  | [], _ => True
  | c :: cs, s => s.Seen sha trust window i p c ∧
      ((s.pushEntry sha trust window i p c).1.isOk →
        SeenItems sha trust window i p cs (s.pushEntry sha trust window i p c).2)

/-- Whenever a projection lands in this call, the index shows the agent's last one. -/
def Sync.EventSeen (sha : Sha256) (trust : FastTrust) (window : ι → ℕ) (s : Sync ι F) :
    SyncEvent ι F → Prop
  | .push i p items => SeenItems sha trust window i p items s
  | _ => True

/-- A push only appends. -/
theorem entries_push (sha : Sha256) (trust : FastTrust) (window : ι → ℕ) (i : ι) (p : PushCall F)
    (items : List (SyncItem F)) (s : Sync ι F) :
    ∃ more, (s.push sha trust window i p items).2.entries = s.entries ++ more := by
  induction items generalizing s with
  | nil => exact ⟨[], by simp [Sync.push]⟩
  | cons c cs ih =>
    have hone : ∃ more, (s.pushEntry sha trust window i p c).2.entries = s.entries ++ more := by
      rcases entries_pushEntry sha trust window i p c s with ⟨-, h⟩ | ⟨-, e, -, -, h⟩
      · exact ⟨[], by rw [h, List.append_nil]⟩
      · exact ⟨[e], h⟩
    obtain ⟨more, hmore⟩ := hone
    unfold Sync.push
    rcases hpush : s.pushEntry sha trust window i p c with ⟨_ | outcome, s'⟩
    · rw [hpush] at hmore
      exact ⟨more, hmore⟩
    · obtain ⟨more', hmore'⟩ := ih s'
      rw [hpush] at hmore
      exact ⟨more ++ more', by rw [← List.append_assoc, ← hmore, ← hmore']⟩

/-- **A push keeps the chains exactly when the index shows what each projection has to
name.** -/
theorem agentChained_push {items : List (SyncItem F)} (h : AgentChained s.entries) :
    AgentChained (s.push sha trust window i p items).2.entries ↔
      SeenItems sha trust window i p items s := by
  induction items generalizing s with
  | nil => exact iff_of_true h trivial
  | cons c cs ih =>
    have hone : AgentChained (s.pushEntry sha trust window i p c).2.entries ↔
        s.Seen sha trust window i p c := agentChained_pushEntry h
    unfold Sync.push SeenItems
    rcases hpush : s.pushEntry sha trust window i p c with ⟨_ | outcome, s'⟩
    · rw [hpush] at hone
      simpa [Except.isOk, Except.toBool] using hone
    · rw [hpush] at hone
      -- a chain that is broken stays so
      by_cases hchained : AgentChained s'.entries
      · rw [← ih hchained, and_iff_right (hone.mp hchained)]
        simp [Except.isOk, Except.toBool]
      · refine iff_of_false (fun hafter => hchained ?_) fun hseen => hchained (hone.mpr hseen.1)
        obtain ⟨more, hmore⟩ := entries_push sha trust window i p cs s'
        exact AgentChained.of_append (hmore ▸ hafter)

/-- **The projections of every agent stay a chain all along a run exactly when every
projection that lands is made with an index that shows the agent's last one.** -/
theorem agentChained_iff (sha : Sha256) (trust : FastTrust) (window : ι → ℕ)
    (policies : List (Register.Event PyStr Policy))
    (identities : List (Register.Event PyStr Registration)) (events : List (SyncEvent ι F)) :
    Run.Always (Sync.step sha trust window) (fun s => AgentChained s.entries)
        (Sync.open policies identities) events ↔
      Run.Along (Sync.step sha trust window) (Sync.EventSeen sha trust window)
        (Sync.open policies identities) events := by
  refine Run.always_iff_along (Q := fun _ => True) (fun _ _ _ _ _ => trivial) ?_ trivial ?_
  · intro s e _ h
    cases e with
    | push i p items => exact agentChained_push h
    | world e => exact iff_of_true h trivial
    | read i => exact iff_of_true h trivial
  · intro agentId
    exact ⟨by simp [Sync.open], HashChain.linked_nil⟩

/-- Two agents, both allowed to write. -/
def sampleAgents : List (SyncEvent Unit FloatLit) :=
  [.world (.register (py "a") ⟨py "key", py "o", none, sampleNow⟩),
    .world (.register (py "b") ⟨py "key", py "o", none, sampleNow⟩),
    .world (.setPolicy (py "o") ⟨[py "a", py "b"], 1 / 2, [py "observation"], [], false⟩)]

/-- A push of one entry by an agent, stored under this hash. -/
def samplePushOf (agentId hash stored : PyStr) : SyncEvent Unit FloatLit :=
  .push () ⟨py "collective_main", agentId, py "o", none, none, []⟩
    [⟨⟨sampleCandidate hash, sampleNow, sampleNow, sampleNow, true, [], some stored⟩, sampleNow, none⟩]

/-- With a window of one entry, the agent's second projection does not see its first. -/
theorem chain_broken :
    ¬ AgentChained (Run.run (Sync.step nibbles sampleTrust fun _ => 1) (Sync.open [] [])
      (sampleAgents ++ [samplePushOf (py "a") (py "1") (py "v1:1"),
        samplePushOf (py "b") (py "2") (py "v1:2"),
        samplePushOf (py "a") (py "3") (py "v1:3")])).entries := by
  intro h
  have hlinked := (h (py "a")).2
  unfold HashChain.Linked at hlinked
  revert hlinked
  decide +kernel

/-! ### What a window shows -/

/-- The entries after the last one of an agent. -/
def followers (agentId : PyStr) (entries : List (CollectiveEntry F)) : ℕ :=
  (entries.reverse.takeWhile fun e => e.agentId ≠ agentId).length

omit [PyFloat F] in
theorem lastHash_append_other {entries : List (CollectiveEntry F)} {e : CollectiveEntry F}
    {agentId : PyStr} (h : e.agentId ≠ agentId) :
    lastHash (entries ++ [e]) agentId = lastHash entries agentId := by
  simp [lastHash, h]

omit [PyFloat F] in
/-- Only an agent without projections has an empty last hash. -/
theorem lastHash_eq_nil {entries : List (CollectiveEntry F)} (hhash : ∀ e ∈ entries, e.hash ≠ [])
    {agentId : PyStr} : lastHash entries agentId = [] ↔ ∀ e ∈ entries, e.agentId ≠ agentId := by
  unfold lastHash
  cases h : (entries.filter fun e => e.agentId = agentId).getLast? with
  | none =>
    have hfilter := List.getLast?_eq_none_iff.mp h
    refine iff_of_true rfl fun e he hagent => ?_
    have hmem : e ∈ entries.filter fun e => e.agentId = agentId :=
      List.mem_filter.mpr ⟨he, decide_eq_true hagent⟩
    rw [hfilter] at hmem
    exact List.not_mem_nil hmem
  | some e =>
    obtain ⟨he, hagent⟩ := List.mem_filter.mp (List.mem_of_getLast? h)
    exact iff_of_false (hhash e he) fun hall => hall e he (of_decide_eq_true hagent)

omit [PyFloat F] in
/-- **A window shows the agent's last projection as long as fewer entries follow it than
the window holds.** -/
theorem lastHash_newestEntries {entries : List (CollectiveEntry F)}
    (hhash : ∀ e ∈ entries, e.hash ≠ []) (windowSize : ℕ) (agentId : PyStr) :
    lastHash (newestEntries windowSize entries) agentId = lastHash entries agentId ↔
      (∀ e ∈ entries, e.agentId ≠ agentId) ∨ followers agentId entries < windowSize := by
  induction entries using List.reverseRecOn generalizing windowSize with
  | nil => simp [newestEntries, lastHash]
  | append_singleton entries e ih =>
    cases windowSize with
    | zero =>
      have hempty : newestEntries 0 (entries ++ [e]) = [] := by simp [newestEntries]
      rw [hempty, eq_comm, ← lastHash_eq_nil hhash]
      simp [lastHash]
    | succ windowSize =>
      have hnewest : newestEntries (windowSize + 1) (entries ++ [e])
          = newestEntries windowSize entries ++ [e] := List.rtake_concat_succ _ _ _
      rw [hnewest]
      by_cases hagent : e.agentId = agentId
      · simp [lastHash, followers, hagent]
      · have hfollowers : followers agentId (entries ++ [e]) = followers agentId entries + 1 := by
          simp [followers, hagent]
        rw [lastHash_append_other hagent, lastHash_append_other hagent,
          ih (fun x hx => hhash x (List.mem_append_left _ hx)), hfollowers, Nat.add_lt_add_iff_right]
        simp [or_imp, forall_and, hagent]

end

end Daryl
