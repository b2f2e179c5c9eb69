import Daryl.Dsm.Sync
import Mathlib.Data.List.Perm.Subperm

/-!
# Pulling from a collective shard

One agent pulls again and again, from any of the shard's instances, and passes on
the hash the pull before returned.  What its pulls count is set beside what the
shard has.

## Main definitions

* `PullRun`, `PullRun.step` — the shard, the agent's cursor, and what was counted.
* `PullRun.Delivered` — nothing is counted twice, and after a pull nothing that came
  since the first one is left out.
* `PullRun.CursorGood` — the pull starts where the pulls before ended.

## Main results

* `delivered_always` — **pulls deliver every entry once in every run in which each
  starts where the ones before ended.**
* `counted_twice` — a run in which an entry is counted twice.
-/

namespace Daryl

open Py

section

variable {F ι : Type}

/-- A shard, and an agent that pulls from it: the hash its last pull returned, the
entries its pulls counted, the length of the shard at its first pull, and whether the
last event was a pull that returned. -/
structure PullRun (ι F : Type) where
  sync : Sync ι F
  cursor : Option PyStr
  counted : List (CollectiveEntry F)
  firstPull : Option ℕ
  pulled : Bool

/-- What happens: a pull of the agent, or anything else. -/
inductive PullEvent (ι F : Type)
  | other (e : SyncEvent ι F)
  | pull (i : ι)

namespace PullRun

/-- **Every entry is delivered once**: the counted ones are entries of the shard, none
more often than it is there, and after a pull they have all that came since the first. -/
def Delivered (r : PullRun ι F) : Prop :=
  r.counted.Subperm r.sync.entries ∧
    (r.pulled = true → ∀ n ∈ r.firstPull, (r.sync.entries.drop n).Subperm r.counted)

/-- Where a pull with this hash starts.  Without one nothing has been counted, the index
has one entry at most, and this is all that came since the first pull; with one, it is
the hash of a single entry of the shard, which the index has. -/
def CursorAt (r : PullRun ι F) (index : List (CollectiveEntry F)) : PyStr → Prop
  | [] => r.counted = [] ∧ index.length ≤ 1 ∧
      r.sync.entries.length - r.firstPull.getD r.sync.entries.length ≤ index.length
  | hash => (r.sync.entries.countP fun e => e.hash = hash) = 1 ∧ ∃ e ∈ index, e.hash = hash

instance [DecidableEq F] (r : PullRun ι F) (index : List (CollectiveEntry F)) :
    (hash : PyStr) → Decidable (r.CursorAt index hash)
  | [] => inferInstanceAs (Decidable (_ ∧ _ ∧ _))
  | _ :: _ => inferInstanceAs (Decidable (_ ∧ _))

/-- **The pull starts where the pulls before ended**, and its index is that of the shard
as it is. -/
def CursorGood (window : ι → ℕ) (r : PullRun ι F) : PullEvent ι F → Prop
  | .other _ => True
  | .pull i =>
    r.sync.indexOf window i = newestEntries (window i) r.sync.entries ∧
      r.CursorAt (r.sync.indexOf window i) (r.cursor.getD [])

instance [DecidableEq F] (window : ι → ℕ) (r : PullRun ι F) :
    (e : PullEvent ι F) → Decidable (r.CursorGood window e)
  | .other _ => .isTrue trivial
  | .pull _ => inferInstanceAs (Decidable (_ ∧ _))

/-! ### What a pull finds -/

theorem sinceHash_eq {hash : PyStr} {old new : List (CollectiveEntry F)} {e : CollectiveEntry F}
    (hold : ∀ x ∈ old, x.hash ≠ hash) (he : e.hash = hash) :
    sinceHash hash (old ++ e :: new) = new := by
  have hskip : ∀ xs : List (CollectiveEntry F), (∀ x ∈ xs, x.hash ≠ hash) →
      xs.foldl (fun (s : Bool × List (CollectiveEntry F)) e =>
        (s.1 || e.hash = hash, if s.1 then s.2 ++ [e] else s.2)) (false, []) = (false, []) := by
    intro xs hxs
    induction xs with
    | nil => rfl
    | cons x xs ih =>
      rw [List.foldl_cons]
      simpa [hxs x List.mem_cons_self] using ih fun y hy => hxs y (List.mem_cons_of_mem x hy)
  have htake : ∀ (xs result : List (CollectiveEntry F)),
      xs.foldl (fun (s : Bool × List (CollectiveEntry F)) e =>
        (s.1 || e.hash = hash, if s.1 then s.2 ++ [e] else s.2)) (true, result)
        = (true, result ++ xs) := by
    intro xs
    induction xs with
    | nil => simp
    | cons x xs ih =>
      intro result
      rw [List.foldl_cons]
      simpa using ih (result ++ [x])
  unfold sinceHash
  rw [List.foldl_append, List.foldl_cons]
  simp [hskip old hold, he, htake]

/-- A window that has the entry of a hash has all that comes after it. -/
theorem sinceHash_newestEntries {hash : PyStr} {old new : List (CollectiveEntry F)}
    {e : CollectiveEntry F} {windowSize : ℕ} (he : e.hash = hash)
    (honce : ((old ++ e :: new).countP fun x => x.hash = hash) = 1)
    (hmem : ∃ x ∈ newestEntries windowSize (old ++ e :: new), x.hash = hash) :
    sinceHash hash (newestEntries windowSize (old ++ e :: new)) = new := by
  rw [List.countP_append, List.countP_cons_of_pos (by simpa using he)] at honce
  have hnone : ∀ xs : List (CollectiveEntry F), (xs.countP fun x => x.hash = hash) = 0 →
      ∀ x ∈ xs, x.hash ≠ hash := by
    intro xs hxs x hx
    simpa using List.countP_eq_zero.mp hxs x hx
  have hold := hnone old (by omega)
  have hnew := hnone new (by omega)
  obtain ⟨out, hout⟩ : ∃ out, out ++ newestEntries windowSize (old ++ e :: new) = old ++ e :: new :=
    List.drop_suffix _ _
  generalize newestEntries windowSize (old ++ e :: new) = index at hmem hout ⊢
  rcases List.append_eq_append_iff.mp hout with ⟨kept, hkept, hindex⟩ | ⟨more, hmore, hrest⟩
  · -- the window starts before the entry
    rw [hindex]
    refine sinceHash_eq (fun x hx => hold x ?_) he
    rw [hkept]
    exact List.mem_append_right out hx
  · cases more with
    | nil =>
      rw [← show e :: new = index from hrest]
      exact List.nil_append (e :: new) ▸ sinceHash_eq (fun _ h => nomatch h) he
    | cons x more =>
      -- the window starts after it, and has not its hash
      obtain ⟨rfl, hindex⟩ := List.cons.inj hrest
      obtain ⟨y, hy, hyhash⟩ := hmem
      exact absurd hyhash (hnew y (hindex ▸ List.mem_append_right more hy))

/-- A pull without a hash that finds one entry at most finds the last one. -/
theorem newEntries_nil {since : Option PyStr} (hsince : since.getD [] = [])
    {index : List (CollectiveEntry F)} (hlength : index.length ≤ 1) :
    newEntries since index = index := by
  have hreverse : index.reverse = index := by
    cases index with
    | nil => rfl
    | cons e index =>
      obtain rfl : index = [] := List.length_eq_zero_iff.mp (by simpa using hlength)
      exact List.reverse_singleton
  simp only [newEntries, hsince, hreverse]
  exact List.take_of_length_le (by omega)

/-- Where the pulls stand: what they counted is one piece of the shard, it ends at the
cursor, and starts no later than the first pull. -/
structure Stands (r : PullRun ι F) : Prop where
  piece : ∃ before after, r.sync.entries = before ++ r.counted ++ after ∧
    (r.counted ≠ [] → ∀ n ∈ r.firstPull, before.length ≤ n)
  cursor : ∀ e ∈ r.counted.getLast?, r.cursor = some e.hash
  fresh : r.counted = [] → r.cursor.getD [] = []

theorem Stands.subperm {r : PullRun ι F} (h : r.Stands) : r.counted.Subperm r.sync.entries := by
  obtain ⟨before, after, hentries, -⟩ := h.piece
  rw [hentries]
  exact (List.IsInfix.sublist ⟨before, after, rfl⟩).subperm

variable [DecidableEq ι] [PyFloat F]

/-- One event.  The first pull is the first that was tried. -/
def step (sha : Sha256) (trust : FastTrust) (window : ι → ℕ) (agentId : PyStr) (r : PullRun ι F) :
    PullEvent ι F → PullRun ι F
  | .other e => { r with sync := r.sync.step sha trust window e, pulled := false }
  | .pull i =>
    let firstPull := some (r.firstPull.getD r.sync.entries.length)
    match r.sync.pull window i agentId r.cursor with
    | (some result, s) =>
      ⟨s, result.lastHash, r.counted ++ newEntries r.cursor (r.sync.indexOf window i), firstPull, true⟩
    | (none, s) => { r with sync := s, firstPull := firstPull, pulled := false }

/-- Nothing has been pulled. -/
def opened (policies : List (Register.Event PyStr Policy))
    (identities : List (Register.Event PyStr Registration)) : PullRun ι F :=
  ⟨Sync.open policies identities, none, [], none, false⟩

variable {sha : Sha256} {trust : FastTrust} {window : ι → ℕ} {agentId : PyStr} {r : PullRun ι F}

/-- Nothing but pulls moves the cursor, and the shard only grows. -/
theorem entries_other (sha : Sha256) (trust : FastTrust) (window : ι → ℕ) (s : Sync ι F)
    (e : SyncEvent ι F) : ∃ more, (s.step sha trust window e).entries = s.entries ++ more := by
  cases e with
  | push i p items => exact entries_push sha trust window i p items s
  | world e => exact ⟨[], (List.append_nil _).symm⟩
  | read i => exact ⟨[], (List.append_nil _).symm⟩

omit [PyFloat F] in
/-- A pull returns what is new, or nothing. -/
theorem pull_eq (window : ι → ℕ) (i : ι) (agentId : PyStr) (since : Option PyStr) (s : Sync ι F) :
    s.pull window i agentId since = (none, s.ensureIndex window i) ∨
      s.pull window i agentId since = (some ⟨(newEntries since (s.indexOf window i)).length,
        ((newEntries since (s.indexOf window i)).getLast?.map CollectiveEntry.hash).or since⟩,
          s.ensureIndex window i) := by
  unfold Sync.pull
  dsimp only
  cases h : (newEntries since (s.indexOf window i)).getLast? with
  | none =>
    right
    rw [List.getLast?_eq_none_iff.mp h]
    rfl
  | some e =>
    by_cases henc : Encodable agentId
    · simp [henc]
    · simp [henc]

omit [DecidableEq ι] [PyFloat F] in
/-- **What a pull finds, where it starts where the pulls before ended**: all that is new
to the agent. -/
theorem Stands.pull {i : ι} (h : r.Stands) (hgood : r.CursorGood window (.pull i)) :
    ∃ before, r.sync.entries
        = before ++ (r.counted ++ newEntries r.cursor (r.sync.indexOf window i)) ∧
      before.length ≤ r.firstPull.getD r.sync.entries.length := by
  obtain ⟨hindex, hcursor⟩ := hgood
  obtain ⟨out, hout⟩ : ∃ out, out ++ newestEntries (window i) r.sync.entries = r.sync.entries :=
    List.drop_suffix _ _
  cases hsince : r.cursor.getD [] with
  | nil =>
    -- nothing is counted yet, and the one entry there may be is the last one
    rw [hsince] at hcursor
    obtain ⟨hcounted, hone, hfirst⟩ := hcursor
    rw [hcounted, newEntries_nil hsince hone, hindex, List.nil_append]
    refine ⟨out, hout.symm, ?_⟩
    have hlength := congrArg List.length hout
    rw [List.length_append, ← hindex] at hlength
    omega
  | cons x xs =>
    rw [hsince] at hcursor
    obtain ⟨honce, hmem⟩ := hcursor
    obtain ⟨before, after, hentries, hfirst⟩ := h.piece
    have hcounted : r.counted ≠ [] := fun hnil => by simpa [hsince] using h.fresh hnil
    obtain ⟨mid, e, hmid⟩ := List.eq_nil_or_concat r.counted |>.resolve_left hcounted
    have hhash : e.hash = x :: xs := by
      have he := h.cursor e (by rw [hmid]; simp)
      simpa [he] using hsince
    have hnew : newEntries r.cursor (r.sync.indexOf window i) = after := by
      have hsplit : r.sync.entries = (before ++ mid) ++ e :: after := by
        rw [hentries, hmid]
        simp
      rw [hindex, hsplit] at hmem
      rw [hsplit] at honce
      simp only [newEntries, hsince]
      rw [hindex, hsplit]
      exact sinceHash_newestEntries hhash honce hmem
    refine ⟨before, by rw [hnew, hentries, List.append_assoc], ?_⟩
    cases hn : r.firstPull with
    | none => simp [hentries]
    | some n => exact hfirst hcounted n (by simp [hn])

/-- **One event keeps the delivery**, where pulls start where the ones before ended. -/
theorem stands_step {e : PullEvent ι F} (h : r.Stands) (hgood : r.CursorGood window e) :
    (r.step sha trust window agentId e).Stands ∧ (r.step sha trust window agentId e).Delivered := by
  cases e with
  | other e =>
    obtain ⟨more, hmore⟩ := entries_other sha trust window r.sync e
    have hstands : (r.step sha trust window agentId (.other e)).Stands := by
      obtain ⟨before, after, hentries, hfirst⟩ := h.piece
      refine ⟨⟨before, after ++ more, ?_, hfirst⟩, h.cursor, h.fresh⟩
      simp [step, hmore, hentries]
    exact ⟨hstands, hstands.subperm, fun hpulled => nomatch hpulled⟩
  | pull i =>
    obtain ⟨before, hentries, hfirst⟩ := h.pull hgood
    rcases pull_eq window i agentId r.cursor r.sync with hpull | hpull
    · -- the exception of an agent UTF-8 refuses
      have hstep : r.step sha trust window agentId (.pull i) = ⟨r.sync.ensureIndex window i, r.cursor,
          r.counted, some (r.firstPull.getD r.sync.entries.length), false⟩ := by
        simp only [step, hpull]
      have hstands : (r.step sha trust window agentId (.pull i)).Stands := by
        rw [hstep]
        refine ⟨⟨before, newEntries r.cursor (r.sync.indexOf window i), ?_, ?_⟩, h.cursor, h.fresh⟩
        · rw [List.append_assoc]
          exact hentries
        · rintro - n hn
          exact (Option.some.inj hn) ▸ hfirst
      exact ⟨hstands, hstands.subperm, by simp [hstep]⟩
    · have hstep : r.step sha trust window agentId (.pull i) = ⟨r.sync.ensureIndex window i,
          ((newEntries r.cursor (r.sync.indexOf window i)).getLast?.map CollectiveEntry.hash).or
            r.cursor, r.counted ++ newEntries r.cursor (r.sync.indexOf window i),
          some (r.firstPull.getD r.sync.entries.length), true⟩ := by
        simp only [step, hpull]
      generalize newEntries r.cursor (r.sync.indexOf window i) = new at hentries hstep
      have hstands : (r.step sha trust window agentId (.pull i)).Stands := by
        rw [hstep]
        refine ⟨⟨before, [], ?_, ?_⟩, ?_, ?_⟩
        · rw [List.append_nil]
          exact hentries
        · rintro - n hn
          exact (Option.some.inj hn) ▸ hfirst
        · intro e he
          cases hlast : new.getLast? with
          | none =>
            obtain rfl := List.getLast?_eq_none_iff.mp hlast
            exact h.cursor e (by simpa using he)
          | some l =>
            obtain rfl : l = e := by simpa [hlast] using he
            simp
        · intro hnil
          obtain ⟨hcounted, rfl⟩ := List.append_eq_nil_iff.mp hnil
          exact h.fresh hcounted
      refine ⟨hstands, hstands.subperm, fun _ n hn => ?_⟩
      -- what came since the first pull is an end of what is counted
      rw [hstep] at hn ⊢
      obtain rfl := Option.some.inj hn
      change (r.sync.entries.drop _).Subperm _
      generalize r.firstPull.getD r.sync.entries.length = n at hfirst ⊢
      rw [hentries, List.drop_append, List.drop_eq_nil_of_le hfirst, List.nil_append]
      exact (List.drop_sublist _ _).subperm

/-- **Pulls deliver every entry once** in every run in which each starts where the ones
before ended. -/
theorem delivered_always (sha : Sha256) (trust : FastTrust) (window : ι → ℕ) (agentId : PyStr)
    (policies : List (Register.Event PyStr Policy))
    (identities : List (Register.Event PyStr Registration)) {events : List (PullEvent ι F)}
    (h : Run.Along (step sha trust window agentId) (CursorGood window) (opened policies identities)
      events) :
    Run.Always (step sha trust window agentId) Delivered (opened policies identities) events := by
  have hopened : (opened policies identities : PullRun ι F).Stands :=
    ⟨⟨[], [], rfl, fun h => absurd rfl h⟩, by simp [opened], fun _ => rfl⟩
  have hboth := Run.always_of_along (P := fun r : PullRun ι F => r.Stands ∧ r.Delivered)
    (fun r e hr hgood => stands_step hr.1 hgood) ⟨hopened, hopened.subperm, by simp [opened]⟩ h
  exact fun events hprefix => (hboth events hprefix).2

/-- An agent pulls an empty shard, then the first entry, and then the two that follow. -/
theorem delivered_sample :
    Run.Always (step nibbles sampleTrust (fun _ => 500) (py "a")) Delivered
      (opened [] [] : PullRun Unit FloatLit)
      (.pull () :: sampleAgents.map .other ++ [.other (samplePushOf (py "a") (py "1") (py "v1:1")),
        .pull (), .other (samplePushOf (py "b") (py "2") (py "v1:2")),
        .other (samplePushOf (py "a") (py "3") (py "v1:3")), .pull ()]) :=
  delivered_always nibbles sampleTrust (fun _ => 500) (py "a") [] [] (by
    simp only [sampleAgents, List.map_cons, List.map_nil, List.cons_append, List.nil_append,
      Run.Along]
    decide +kernel)

/-- The first pull finds two entries and returns the hash of the older one, so that the
second pull finds the newer one again. -/
theorem counted_twice :
    ¬ Delivered (Run.run (step nibbles sampleTrust (fun _ => 500) (py "a"))
      (opened [] [] : PullRun Unit FloatLit)
      (sampleAgents.map .other ++ [.other (samplePushOf (py "a") (py "1") (py "v1:1")),
        .other (samplePushOf (py "b") (py "2") (py "v1:2")), .pull (), .pull ()])) := by
  intro h
  have hlength := h.1.length_le
  revert hlength
  decide +kernel

end PullRun

end

end Daryl
