import Daryl.Dsm.Authority
import Daryl.Lib.Run

/-!
# `lifecycle`

A shard goes from active to draining to sealed to archived, and every transition is
a record of the `lifecycle_registry` shard.  A `ShardLifecycle` answers the state of
a shard from a cache of its own, which it fills when it first reads the records and
updates when it writes one; what other instances write does not reach it.

A record of the log is the transition it spells.  What the other shards hold, what
distillation yields and how an append ends are arguments of the call.

## Main definitions

* `Lifecycle` — the log and the cache of one instance.
* `Lifecycle.state`, `Lifecycle.drain`, `Lifecycle.sealShard`, `Lifecycle.archive`.
* `Lifecycles` — one log and the caches of many instances.
* `OnPath` — the records of every shard follow the path.
* `LifecycleCall.UpToDate` — an instance that is about to write knows the state.
* `Atomic` — a refused call leaves its shard as it was.

## Main results

* `log_perform` — what a call adds to the log, from the state the instance answers.
* `onPath_iff` — **every shard follows the path all along a run exactly when every
  instance that writes knows the state by the log.**
* `drained_twice` — a run in which a shard is drained twice.
* `atomic_iff` — **a refused call is atomic, unless it seals an active shard whose
  newest entry has no hash.**
-/

namespace Daryl

open Py

/-- `ShardState`. -/
inductive ShardState
  | active
  | draining
  | sealed
  | archived
  deriving DecidableEq

/-- The constants of `ShardState`. -/
def ShardState.text : ShardState → PyStr
  | active => py "active"
  | draining => py "draining"
  | sealed => py "sealed"
  | archived => py "archived"

/-- A record of `lifecycle_registry`. -/
structure Transition where
  shardId : PyStr
  fromState : ShardState
  toState : ShardState
  deriving DecidableEq

/-- `LifecycleResult`, without the shard it repeats and the record. -/
structure LifecycleResult where
  ok : Bool
  transition : Option PyStr
  distilled : ℕ
  finalHash : Option PyStr
  error : Option PyStr
  deriving DecidableEq

/-- A call that is refused. -/
def LifecycleResult.refused (error : PyStr) : LifecycleResult := ⟨false, none, 0, none, some error⟩

/-- An instance at work: the log and the cache. -/
structure Lifecycle where
  log : List Transition
  cache : List (PyStr × ShardState)

/-- The scan of the records, oldest first. -/
def scanState (shardId : PyStr) (records : List Transition) : ShardState :=
  records.foldl (fun current t => if t.shardId ≠ shardId then current else t.toState) .active

namespace Lifecycle

/-- `state`. -/
def state (shardId : PyStr) (l : Lifecycle) : ShardState × Lifecycle :=
  match Dict.get shardId l.cache with
  | some current => (current, l)
  | none =>
    let current := scanState shardId (l.log.drop (l.log.length - readLimit))
    (current, { l with cache := Dict.set shardId current l.cache })

/-- `_write_transition`; `false` is an exception of the append. -/
def writeTransition (t : Transition) (a : AppendEnd) (l : Lifecycle) : Bool × Lifecycle :=
  match a with
  | .written => (true, ⟨l.log ++ [t], Dict.set t.shardId t.toState l.cache⟩)
  | .lost => (false, l)
  | .landed => (false, { l with log := l.log ++ [t] })

/-- `drain`; `none` is an exception, of the distillation or the append. -/
def drain (shardId : PyStr) (distilled : Option ℕ) (a : AppendEnd) (l : Lifecycle) :
    Option LifecycleResult × Lifecycle :=
  let (current, l) := l.state shardId
  if current ≠ .active then
    (some (.refused (py "Cannot drain: shard is " ++ current.text ++ py ", expected active")), l)
  else
    match distilled with
    | none => (none, l)
    | some n =>
      match l.writeTransition ⟨shardId, .active, .draining⟩ a with
      | (true, l) => (some ⟨true, some (py "active->draining"), n, none, none⟩, l)
      | (false, l) => (none, l)

/-- `verify` with its spot check: the newest entry has a hash.  `hashes` are the hashes
of the newest entries of the shard. -/
def spotCheck (hashes : List (Option PyStr)) : Bool :=
  match hashes with
  | [] => true
  | hash :: _ => !(hash.getD []).isEmpty

/-- `seal`: an active shard is drained first. -/
def sealShard (shardId : PyStr) (distilled : Option ℕ) (hashes : List (Option PyStr))
    (a b : AppendEnd) (l : Lifecycle) : Option LifecycleResult × Lifecycle :=
  let (current, l) := l.state shardId
  let (drained, l) :=
    if current = .active then l.drain shardId distilled a
    else (some ⟨true, none, 0, none, none⟩, l)
  match drained with
  | none => (none, l)
  | some result =>
    if !result.ok then (some result, l)
    else
      let current := if current = .active then .draining else current
      if current ≠ .draining then
        (some (.refused (py "Cannot seal: shard is " ++ current.text ++ py ", expected draining")),
          l)
      else if !spotCheck hashes then
        (some (.refused (py "Integrity check failed: missing hash on tip")), l)
      else
        let finalHash := hashes.head?.join
        match l.writeTransition ⟨shardId, .draining, .sealed⟩ b with
        | (true, l) => (some ⟨true, some (py "draining->sealed"), 0, finalHash, none⟩, l)
        | (false, l) => (none, l)

/-- `archive`. -/
def archive (shardId : PyStr) (hashes : List (Option PyStr)) (a : AppendEnd) (l : Lifecycle) :
    Option LifecycleResult × Lifecycle :=
  let (current, l) := l.state shardId
  if current ≠ .sealed then
    (some (.refused (py "Cannot archive: shard is " ++ current.text ++ py ", expected sealed")), l)
  else
    let finalHash := hashes.head?.join
    match l.writeTransition ⟨shardId, .sealed, .archived⟩ a with
    | (true, l) => (some ⟨true, some (py "sealed->archived"), 0, finalHash, none⟩, l)
    | (false, l) => (none, l)

end Lifecycle

/-- A call, with what it finds. -/
inductive LifecycleCall
  | state (shardId : PyStr)
  | drain (shardId : PyStr) (distilled : Option ℕ) (a : AppendEnd)
  | sealShard (shardId : PyStr) (distilled : Option ℕ) (hashes : List (Option PyStr)) (a b : AppendEnd)
  | archive (shardId : PyStr) (hashes : List (Option PyStr)) (a : AppendEnd)

/-- One call on one instance. -/
def Lifecycle.perform (l : Lifecycle) : LifecycleCall → Lifecycle
  | .state shardId => (l.state shardId).2
  | .drain shardId distilled a => (l.drain shardId distilled a).2
  | .sealShard shardId distilled hashes a b => (l.sealShard shardId distilled hashes a b).2
  | .archive shardId hashes a => (l.archive shardId hashes a).2

/-- One log, and the caches of the instances that share it. -/
structure Lifecycles (ι : Type) where
  log : List Transition
  cache : ι → List (PyStr × ShardState)

variable {ι : Type} [DecidableEq ι]

namespace Lifecycles

/-- New instances on a log. -/
def opened (log : List Transition) : Lifecycles ι := ⟨log, fun _ => []⟩

/-- The instance that works. -/
def view (i : ι) (s : Lifecycles ι) : Lifecycle := ⟨s.log, s.cache i⟩

/-- One call on one of the instances. -/
def step (s : Lifecycles ι) (c : ι × LifecycleCall) : Lifecycles ι :=
  let l := (s.view c.1).perform c.2
  ⟨l.log, Function.update s.cache c.1 l.cache⟩

end Lifecycles

/-! ### The path -/

/-- The transitions from a state on. -/
def pathFrom : ShardState → List (ShardState × ShardState)
  | .active => [(.active, .draining), (.draining, .sealed), (.sealed, .archived)]
  | .draining => [(.draining, .sealed), (.sealed, .archived)]
  | .sealed => [(.sealed, .archived)]
  | .archived => []

/-- The transitions of a shard. -/
def transitionsOf (shardId : PyStr) (log : List Transition) : List (ShardState × ShardState) :=
  (log.filter fun t => t.shardId = shardId).map fun t => (t.fromState, t.toState)

/-- **The records of every shard follow the path** active, draining, sealed, archived,
and there it ends. -/
def OnPath (log : List Transition) : Prop :=
  ∀ shardId, transitionsOf shardId log <+: pathFrom .active

/-- The last state of a list of transitions. -/
def endState (current : ShardState) (ts : List (ShardState × ShardState)) : ShardState :=
  ts.foldl (fun _ t => t.2) current

theorem transitionsOf_append (shardId : PyStr) (log log' : List Transition) :
    transitionsOf shardId (log ++ log') = transitionsOf shardId log ++ transitionsOf shardId log' := by
  simp [transitionsOf]

/-- The scan ends where the transitions of the shard end. -/
theorem scanState_eq (shardId : PyStr) (log : List Transition) :
    scanState shardId log = endState .active (transitionsOf shardId log) := by
  unfold scanState
  generalize ShardState.active = current
  induction log generalizing current with
  | nil => rfl
  | cons t log ih =>
    rw [List.foldl_cons, ih]
    by_cases h : t.shardId = shardId
    · simp [transitionsOf, endState, h]
    · simp [transitionsOf, h]

/-- A transition on the path starts at the state it is on, and the path goes on from
where it leads. -/
theorem pathFrom_eq_cons {current : ShardState} {t : ShardState × ShardState}
    {ts : List (ShardState × ShardState)} (h : t :: ts <+: pathFrom current) :
    t.1 = current ∧ pathFrom current = t :: pathFrom t.2 := by
  cases current with
  | archived => exact absurd (List.prefix_nil.mp h) (List.cons_ne_nil t ts)
  | _ =>
    obtain rfl := (List.cons_prefix_cons.mp h).1
    exact ⟨rfl, rfl⟩

/-- What follows the transitions there are. -/
theorem pathFrom_eq_append {current : ShardState} {ts : List (ShardState × ShardState)}
    (h : ts <+: pathFrom current) : pathFrom current = ts ++ pathFrom (endState current ts) := by
  induction ts generalizing current with
  | nil => rfl
  | cons t ts ih =>
    have hcons := (pathFrom_eq_cons h).2
    rw [hcons] at h ⊢
    rw [List.cons_append, ih (List.cons_prefix_cons.mp h).2]
    rfl

/-- **The path goes on exactly from where it stands.** -/
theorem append_onPath_iff {ts added : List (ShardState × ShardState)} {current : ShardState}
    (h : ts <+: pathFrom .active) (hadded : added <+: pathFrom current) (hne : added ≠ []) :
    ts ++ added <+: pathFrom .active ↔ current = endState .active ts := by
  rw [pathFrom_eq_append h, List.prefix_append_right_inj]
  constructor
  · intro hprefix
    obtain ⟨t, more, rfl⟩ := List.exists_cons_of_ne_nil hne
    exact (pathFrom_eq_cons hadded).1.symm.trans (pathFrom_eq_cons hprefix).1
  · rintro rfl
    exact hadded

/-! ### What a call adds -/

/-- The shard a call is about. -/
def LifecycleCall.shardId : LifecycleCall → PyStr
  | state shardId => shardId
  | drain shardId _ _ => shardId
  | sealShard shardId _ _ _ _ => shardId
  | archive shardId _ _ => shardId

/-- The transitions a call adds when the instance answers this state. -/
def LifecycleCall.added (current : ShardState) : LifecycleCall → List (ShardState × ShardState)
  | state _ => []
  | drain _ distilled a =>
    if current = .active ∧ distilled.isSome ∧ a ≠ .lost then [(.active, .draining)] else []
  | sealShard _ distilled hashes a b =>
    let last := if Lifecycle.spotCheck hashes ∧ b ≠ .lost then [(ShardState.draining, ShardState.sealed)]
      else []
    match current with
    | .active =>
      if distilled.isNone ∨ a = .lost then []
      else if a = .landed then [(.active, .draining)]
      else (.active, .draining) :: last
    | .draining => last
    | _ => []
  | archive _ _ a => if current = .sealed ∧ a ≠ .lost then [(.sealed, .archived)] else []

/-- The transition of a shard as a record. -/
def record (shardId : PyStr) (t : ShardState × ShardState) : Transition := ⟨shardId, t.1, t.2⟩

namespace Lifecycle

/-- The state is answered without a write, and once answered it is in the cache. -/
theorem state_eq (shardId : PyStr) (l : Lifecycle) :
    ∃ cache, l.state shardId = ((l.state shardId).1, ⟨l.log, cache⟩) ∧
      Dict.get shardId cache = some (l.state shardId).1 := by
  cases h : Dict.get shardId l.cache with
  | some current =>
    have hstate : l.state shardId = (current, l) := by simp only [state, h]
    exact ⟨l.cache, by rw [hstate], by rw [hstate, h]⟩
  | none =>
    simp only [state, h]
    exact ⟨_, rfl, Dict.get_set_self _ _ _⟩

variable {shardId : PyStr} {cache : List (PyStr × ShardState)} {log : List Transition}

/-- A drain of an active shard. -/
theorem drain_active (h : Dict.get shardId cache = some .active) (distilled : Option ℕ)
    (a : AppendEnd) :
    drain shardId distilled a ⟨log, cache⟩ =
      match distilled, a with
      | none, _ => (none, ⟨log, cache⟩)
      | some n, .written => (some ⟨true, some (py "active->draining"), n, none, none⟩,
          ⟨log ++ [⟨shardId, .active, .draining⟩], Dict.set shardId .draining cache⟩)
      | some _, .lost => (none, ⟨log, cache⟩)
      | some _, .landed => (none, ⟨log ++ [⟨shardId, .active, .draining⟩], cache⟩) := by
  have hstate : state shardId ⟨log, cache⟩ = (.active, ⟨log, cache⟩) := by simp only [state, h]
  unfold drain
  rw [hstate]
  cases distilled with
  | none => rfl
  | some n => cases a <;> rfl

/-- Any other shard is not drained. -/
theorem drain_snd_of_ne {current : ShardState} (h : Dict.get shardId cache = some current)
    (hne : current ≠ .active) (distilled : Option ℕ) (a : AppendEnd) :
    (drain shardId distilled a ⟨log, cache⟩).2 = ⟨log, cache⟩ := by
  have hstate : state shardId ⟨log, cache⟩ = (current, ⟨log, cache⟩) := by simp only [state, h]
  unfold drain
  rw [hstate]
  simp [hne]

/-- Asking for the state first changes nothing. -/
theorem drain_of_state {l : Lifecycle} {current : ShardState}
    (hstate : l.state shardId = (current, ⟨l.log, cache⟩))
    (hcache : Dict.get shardId cache = some current) (distilled : Option ℕ) (a : AppendEnd) :
    l.drain shardId distilled a = drain shardId distilled a ⟨l.log, cache⟩ := by
  have hagain : state shardId ⟨l.log, cache⟩ = (current, ⟨l.log, cache⟩) := by
    simp only [state, hcache]
  unfold drain
  rw [hstate, hagain]

end Lifecycle

open Lifecycle in
/-- **What a call adds to the log**, from the state the instance answers. -/
theorem log_perform (l : Lifecycle) (c : LifecycleCall) :
    (l.perform c).log
      = l.log ++ (c.added (l.state c.shardId).1).map (record c.shardId) := by
  obtain ⟨cache, hstate, hcache⟩ := state_eq c.shardId l
  generalize (l.state c.shardId).1 = current at hstate hcache ⊢
  cases c with
  | state shardId =>
    simp only [perform, LifecycleCall.shardId] at hstate ⊢
    simp [hstate, LifecycleCall.added]
  | drain shardId distilled a =>
    simp only [perform, LifecycleCall.shardId] at hstate hcache ⊢
    rw [drain_of_state hstate hcache]
    by_cases hactive : current = .active
    · subst hactive
      rw [drain_active hcache]
      cases distilled with
      | none => simp [LifecycleCall.added]
      | some n => cases a <;> simp [LifecycleCall.added, record]
    · simp [drain_snd_of_ne hcache hactive, LifecycleCall.added, hactive]
  | sealShard shardId distilled hashes a b =>
    simp only [perform, sealShard, LifecycleCall.shardId] at hstate hcache ⊢
    rw [hstate]
    cases current with
    | active =>
      rw [if_pos rfl, drain_active hcache]
      cases distilled with
      | none => simp [LifecycleCall.added]
      | some n =>
        cases a with
        | written =>
          -- the shard is drained, and the seal goes on without asking again
          by_cases hcheck : spotCheck hashes
          · cases b <;> simp [hcheck, writeTransition, LifecycleCall.added, record]
          · simp [hcheck, LifecycleCall.added, record]
        | lost => simp [LifecycleCall.added]
        | landed => simp [LifecycleCall.added, record]
    | draining =>
      by_cases hcheck : spotCheck hashes
      · cases b <;> simp [hcheck, writeTransition, LifecycleCall.added, record]
      · simp [hcheck, LifecycleCall.added]
    | _ => simp [LifecycleCall.added]
  | archive shardId hashes a =>
    simp only [perform, archive, LifecycleCall.shardId] at hstate ⊢
    rw [hstate]
    by_cases h : current = .sealed
    · cases a <;> simp [h, writeTransition, LifecycleCall.added, record]
    · simp [h, LifecycleCall.added]

/-! ### Runs -/

/-- A call adds a piece of the path, from the state the instance answers. -/
theorem added_prefix (current : ShardState) (c : LifecycleCall) :
    c.added current <+: pathFrom current := by
  cases c with
  | state shardId => exact List.nil_prefix
  | drain shardId distilled a =>
    dsimp only [LifecycleCall.added]
    split_ifs with h
    · rw [h.1]
      exact ⟨_, rfl⟩
    · exact List.nil_prefix
  | sealShard shardId distilled hashes a b =>
    cases current with
    | active =>
      dsimp only [LifecycleCall.added]
      split_ifs <;> simp [pathFrom]
    | draining =>
      dsimp only [LifecycleCall.added]
      split_ifs <;> simp [pathFrom]
    | sealed => exact List.nil_prefix
    | archived => exact List.nil_prefix
  | archive shardId hashes a =>
    dsimp only [LifecycleCall.added]
    split_ifs with h
    · rw [h.1]
      exact ⟨_, rfl⟩
    · exact List.nil_prefix

theorem transitionsOf_record (shardId k : PyStr) (ts : List (ShardState × ShardState)) :
    transitionsOf k (ts.map (record shardId)) = if shardId = k then ts else [] := by
  induction ts with
  | nil => simp [transitionsOf]
  | cons t ts ih =>
    have hkey : (record shardId t).shardId = shardId := rfl
    unfold transitionsOf at ih ⊢
    rw [List.map_cons, List.filter_cons, hkey]
    by_cases h : shardId = k
    · rw [if_pos h] at ih ⊢
      rw [if_pos (decide_eq_true h), List.map_cons, ih]
      rfl
    · rw [if_neg h] at ih ⊢
      rw [if_neg (by simpa using h), ih]

namespace Lifecycles

/-- **An instance that is about to write knows the state by the log**: what it answers,
from its cache or from the records it reads, is the last state recorded. -/
def UpToDate (s : Lifecycles ι) (c : ι × LifecycleCall) : Prop :=
  let current := ((s.view c.1).state c.2.shardId).1
  c.2.added current ≠ [] → current = scanState c.2.shardId s.log

/-- A call keeps the shards on the path exactly when the instance is up to date. -/
theorem onPath_step (s : Lifecycles ι) (c : ι × LifecycleCall) (h : OnPath s.log) :
    OnPath (s.step c).log ↔ s.UpToDate c := by
  have hlog : (s.step c).log = s.log ++ (c.2.added ((s.view c.1).state c.2.shardId).1).map
      (record c.2.shardId) := log_perform (s.view c.1) c.2
  unfold OnPath UpToDate
  simp only [hlog, transitionsOf_append, transitionsOf_record, scanState_eq]
  have hadded := added_prefix ((s.view c.1).state c.2.shardId).1 c.2
  constructor
  · intro hpath hne
    have := hpath c.2.shardId
    rw [if_pos rfl] at this
    exact (append_onPath_iff (h _) hadded hne).mp this
  · intro hcurrent shardId
    split_ifs with hshard
    · subst hshard
      by_cases hne : c.2.added ((s.view c.1).state c.2.shardId).1 = []
      · rw [hne, List.append_nil]
        exact h _
      · exact (append_onPath_iff (h _) hadded hne).mpr (hcurrent hne)
    · rw [List.append_nil]
      exact h shardId

/-- **Every shard follows the path all along a run exactly when every instance that
writes knows the state by the log.** -/
theorem onPath_iff (calls : List (ι × LifecycleCall)) :
    Run.Always step (fun s => OnPath s.log) (opened [] : Lifecycles ι) calls ↔
      Run.Along step UpToDate (opened []) calls :=
  Run.always_iff_along (Q := fun _ => True) (fun _ _ _ _ _ => trivial)
    (fun s c _ h => onPath_step s c h) trivial fun _ => List.nil_prefix

/-- An instance asks for the state of a shard, another drains the shard, and the first
drains it again. -/
theorem drained_twice :
    ¬ OnPath (Run.run step (opened [] : Lifecycles Bool)
      [(false, .state (py "s")), (true, .drain (py "s") (some 0) .written),
        (false, .drain (py "s") (some 0) .written)]).log := by
  intro h
  have := h (py "s")
  revert this
  decide +kernel

end Lifecycles

/-! ### Refusals -/

/-- What a call returns; asking for the state is no transition. -/
def Lifecycle.answer (l : Lifecycle) : LifecycleCall → Option LifecycleResult
  | .state _ => none
  | .drain shardId distilled a => (l.drain shardId distilled a).1
  | .sealShard shardId distilled hashes a b => (l.sealShard shardId distilled hashes a b).1
  | .archive shardId hashes a => (l.archive shardId hashes a).1

/-- **A refused call leaves its shard as it was**: the state that is answered and the
transitions that are recorded. -/
def Atomic (l : Lifecycle) (c : LifecycleCall) : Prop :=
  ∀ r, l.answer c = some r → r.ok = false →
    ((l.perform c).state c.shardId).1 = (l.state c.shardId).1 ∧
      transitionsOf c.shardId (l.perform c).log = transitionsOf c.shardId l.log

/-- A seal of an active shard that can be drained, and whose newest entry has no hash. -/
def SealsBareTip (l : Lifecycle) : LifecycleCall → Prop
  | .sealShard shardId distilled hashes a _ =>
    (l.state shardId).1 = .active ∧ distilled.isSome ∧ a = .written ∧
      Lifecycle.spotCheck hashes = false
  | _ => False

namespace Lifecycle

variable {shardId : PyStr} {cache : List (PyStr × ShardState)} {log : List Transition}

/-- The state is answered from the cache. -/
theorem state_of_cached {current : ShardState} (h : Dict.get shardId cache = some current) :
    state shardId ⟨log, cache⟩ = (current, ⟨log, cache⟩) := by
  simp only [state, h]

/-- A seal of an active shard, once the drain is written. -/
theorem sealShard_active {l : Lifecycle} (hstate : l.state shardId = (.active, ⟨l.log, cache⟩))
    (hcache : Dict.get shardId cache = some .active) (n : ℕ) (hashes : List (Option PyStr))
    (b : AppendEnd) :
    l.sealShard shardId (some n) hashes .written b =
      let l' : Lifecycle :=
        ⟨l.log ++ [⟨shardId, .active, .draining⟩], Dict.set shardId .draining cache⟩
      if !spotCheck hashes then
        (some (.refused (py "Integrity check failed: missing hash on tip")), l')
      else
        match l'.writeTransition ⟨shardId, .draining, .sealed⟩ b with
        | (true, l) => (some ⟨true, some (py "draining->sealed"), 0, hashes.head?.join, none⟩, l)
        | (false, l) => (none, l) := by
  unfold sealShard
  rw [hstate]
  dsimp only
  rw [if_pos rfl, drain_active hcache]
  rfl

/-- A seal of an active shard that is not drained: an exception. -/
theorem answer_sealShard_undrained {l : Lifecycle}
    (hstate : l.state shardId = (.active, ⟨l.log, cache⟩))
    (hcache : Dict.get shardId cache = some .active) {distilled : Option ℕ} {a : AppendEnd}
    (h : ¬(distilled.isSome ∧ a = .written)) (hashes : List (Option PyStr)) (b : AppendEnd) :
    (l.sealShard shardId distilled hashes a b).1 = none := by
  unfold sealShard
  rw [hstate]
  dsimp only
  rw [if_pos rfl, drain_active hcache]
  cases distilled with
  | none => rfl
  | some n =>
    cases a with
    | written => exact absurd ⟨rfl, rfl⟩ h
    | _ => rfl

/-- **A refused call writes nothing**, a seal that drains first apart. -/
theorem perform_of_refused {l : Lifecycle} {c : LifecycleCall} {current : ShardState}
    (hstate : l.state c.shardId = (current, ⟨l.log, cache⟩))
    (hcache : Dict.get c.shardId cache = some current) (hc : ¬ SealsBareTip l c)
    {r : LifecycleResult} (hr : l.answer c = some r) (hok : r.ok = false) :
    l.perform c = ⟨l.log, cache⟩ := by
  cases c with
  | state shardId => cases hr
  | drain shardId distilled a =>
    simp only [answer, perform, LifecycleCall.shardId] at hr hstate hcache ⊢
    rw [drain_of_state hstate hcache] at hr ⊢
    by_cases hactive : current = .active
    · subst hactive
      rw [drain_active hcache] at hr
      -- an active shard is drained, or an exception ends the call
      cases distilled with
      | none => cases hr
      | some n =>
        cases a with
        | written =>
          obtain rfl := Option.some.inj hr
          cases hok
        | lost => cases hr
        | landed => cases hr
    · exact drain_snd_of_ne hcache hactive distilled a
  | sealShard shardId distilled hashes a b =>
    simp only [answer, perform, LifecycleCall.shardId] at hr hstate hcache ⊢
    cases current with
    | active =>
      by_cases hdrained : distilled.isSome ∧ a = .written
      · obtain ⟨n, rfl⟩ := Option.isSome_iff_exists.mp hdrained.1
        obtain rfl := hdrained.2
        have hcheck : spotCheck hashes = true := by
          by_contra hfalse
          exact hc ⟨by rw [hstate], rfl, rfl, by simpa using hfalse⟩
        rw [sealShard_active hstate hcache, hcheck] at hr
        cases b with
        | written =>
          obtain rfl := Option.some.inj hr
          cases hok
        | lost => cases hr
        | landed => cases hr
      · rw [answer_sealShard_undrained hstate hcache hdrained] at hr
        cases hr
    | draining =>
      unfold sealShard at hr ⊢
      rw [hstate] at hr ⊢
      cases hcheck : spotCheck hashes with
      | false => simp
      | true =>
        cases b with
        | written =>
          simp only [hcheck] at hr
          obtain rfl := Option.some.inj hr
          cases hok
        | lost => simp [hcheck, writeTransition] at hr
        | landed => simp [hcheck, writeTransition] at hr
    | sealed =>
      unfold sealShard
      rw [hstate]
      rfl
    | archived =>
      unfold sealShard
      rw [hstate]
      rfl
  | archive shardId hashes a =>
    simp only [answer, perform, LifecycleCall.shardId] at hr hstate hcache ⊢
    unfold archive at hr ⊢
    rw [hstate] at hr ⊢
    by_cases hsealed : current = .sealed
    · subst hsealed
      cases a with
      | written =>
        obtain rfl := Option.some.inj hr
        cases hok
      | lost => cases hr
      | landed => cases hr
    · simp only [ne_eq, hsealed, not_false_eq_true, if_true]

end Lifecycle

open Lifecycle in
/-- **A refused call is atomic unless it seals an active shard whose tip has no hash**:
that seal has drained the shard before the spot check refuses it. -/
theorem atomic_iff (l : Lifecycle) (c : LifecycleCall) : Atomic l c ↔ ¬ SealsBareTip l c := by
  obtain ⟨cache, hstate, hcache⟩ := state_eq c.shardId l
  constructor
  · intro h hbare
    cases c with
    | sealShard shardId distilled hashes a b =>
      obtain ⟨hactive, hsome, rfl, hcheck⟩ := hbare
      obtain ⟨n, rfl⟩ := Option.isSome_iff_exists.mp hsome
      simp only [LifecycleCall.shardId] at hstate hcache
      rw [hactive] at hstate hcache
      have hseal := sealShard_active hstate hcache n hashes b
      rw [hcheck] at hseal
      have hkept := h _ (congrArg Prod.fst hseal) rfl
      have hperform : l.perform (.sealShard shardId (some n) hashes .written b) =
          ⟨l.log ++ [⟨shardId, .active, .draining⟩], Dict.set shardId .draining cache⟩ :=
        congrArg Prod.snd hseal
      -- the drain is in the cache
      have hdraining := hkept.1
      rw [hperform, LifecycleCall.shardId, state_of_cached (Dict.get_set_self _ _ _),
        hactive] at hdraining
      cases hdraining
    | _ => exact hbare
  · intro hbare r hr hok
    rw [perform_of_refused hstate hcache hbare hr hok, state_of_cached hcache]
    exact ⟨rfl, rfl⟩

/-- An active shard whose newest entry has an empty hash is refused by a seal, and is
left draining. -/
theorem refused_and_drained :
    ¬ Atomic ⟨[], []⟩ (.sealShard (py "s") (some 0) [some []] .written .written) := by
  intro h
  have hkept := h _ rfl rfl
  revert hkept
  decide +kernel

end Daryl
