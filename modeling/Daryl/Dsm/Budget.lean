import Daryl.Dsm.Distiller

/-!
# `collective`: a context within a budget

`RollingDigester.read_with_digests` fills a budget of tokens with the newest entries since
a time and then with stored digests.  The loop over the entries stops before an entry that
does not fit; the loop over the digests goes on as long as something is left, and charges
for the digests of every level, of which it returns three.

## Main definitions

* `ContextStack` — what is returned.
* `selectRecent`, `fill` — the two loops.
* `readWithDigests` — the read.
* `Budgeted` — the budget is kept, and what is charged is what is returned.

## Main results

* `selectRecent_eq`, `fill_eq` — what the loops take and what they leave.
* `budgeted_iff` — **when the budget is kept.**
-/

namespace Daryl

open Py

variable {F D : Type}

/-- `ContextStack`.  The text of the coverage is made of the time since the oldest of the
recent entries, in microseconds. -/
structure ContextStack (F D : Type) where
  recent : List (CollectiveEntry F)
  hourlyDigests : List D
  dailyDigests : List D
  weeklyDigests : List D
  totalTokens : ℤ
  span : Option ℤ

/-- `_TOKENS_PER_ENTRY`. -/
def tokensPerEntry : ℤ := 300

/-- `_TOKENS_PER_DIGEST`. -/
def tokensPerDigest : ℤ := 80

/-- The loop over the recent entries: those that fit, and the budget that is left. -/
def selectRecent (budget : ℤ) : List (CollectiveEntry F) → List (CollectiveEntry F) × ℤ
  | [] => ([], budget)
  | e :: es =>
    if budget - tokensPerEntry < 0 then ([], budget)
    else
      let (selected, left) := selectRecent (budget - tokensPerEntry) es
      (e :: selected, left)

/-- The digests taken so far, and the budget that is left. -/
structure Filled (D : Type) where
  hourly : List D
  daily : List D
  weekly : List D
  budget : ℤ

/-- One digest of a level. -/
def Filled.put (level : D → ℤ) (d : D) (s : Filled D) : Filled D where
  hourly := s.hourly ++ if level d = 1 then [d] else []
  daily := s.daily ++ if level d = 2 then [d] else []
  weekly := s.weekly ++ if level d = 3 then [d] else []
  budget := s.budget - tokensPerDigest

/-- The loop over the stored digests. -/
def fill (level : D → ℤ) : List D → Filled D → Filled D
  | [], s => s
  | d :: ds, s => if s.budget ≤ 0 then s else fill level ds (s.put level d)

/-- The digests among the newest thousand records of the digest shard, oldest first; a record
may be no digest. -/
def storedDigests (records : List (Option D)) : List D :=
  (records.drop (records.length - 1000)).filterMap id

/-- The entries since a time. -/
def recentSince (since : Datetime) (entries : List (CollectiveEntry F)) : List (CollectiveEntry F) :=
  entries.filter fun e => since.val.instant ≤ e.time

/-- A time and that of an entry are both aware, or both naive; others do not compare. -/
def Compares (since : Datetime) (e : CollectiveEntry F) : Prop :=
  e.contributedAt.val.offset.isSome = since.val.offset.isSome

instance (since : Datetime) (e : CollectiveEntry F) : Decidable (Compares since e) :=
  inferInstanceAs (Decidable (_ = _))

/-- `read_with_digests`; `now` is aware. -/
def readWithDigests (level : D → ℤ) (now : ℤ) (since : Datetime) (maxTokens : ℤ)
    (records : List (Option D)) (c : CollectiveShard F) : Except PyError (ContextStack F D) :=
  if ∀ e ∈ c.window, Compares since e then
    let (selected, budget) := selectRecent maxTokens (recentSince since c.window).reverse
    let filled := fill level (storedDigests records) ⟨[], [], [], budget⟩
    let stack := ContextStack.mk selected filled.hourly filled.daily filled.weekly
      (maxTokens - filled.budget)
    match selected.getLast? with
    | none => .ok (stack none)
    | some e =>
      -- `now - contributed_at`
      if e.contributedAt.val.offset.isSome then .ok (stack (some (now - e.time)))
      else .error .typeError
  else .error .typeError

/-! ### The two loops -/

/-- **The newest entries are taken as long as they fit.** -/
theorem selectRecent_eq (budget : ℕ) (es : List (CollectiveEntry F)) :
    selectRecent budget es =
      (es.take (budget / 300), ((budget - 300 * min es.length (budget / 300) : ℕ) : ℤ)) := by
  induction es generalizing budget with
  | nil => simp [selectRecent]
  | cons e es ih =>
    rw [selectRecent, tokensPerEntry]
    by_cases hfits : budget < 300
    · rw [if_pos (by omega), Nat.div_eq_of_lt hfits]
      simp
    · obtain ⟨left, rfl⟩ := Nat.exists_eq_add_of_le (not_lt.mp hfits)
      rw [if_neg (by omega), show ((300 + left : ℕ) : ℤ) - 300 = (left : ℕ) by omega, ih,
        show (300 + left) / 300 = left / 300 + 1 by omega, List.take_succ_cons, List.length_cons]
      refine Prod.ext rfl ?_
      dsimp only
      omega

/-- How many digests a budget is spent on. -/
def digestShare (budget : ℤ) : ℕ := (budget.toNat + 79) / 80

/-- **Digests are charged as long as something is left**, those of the first three levels are
returned. -/
theorem fill_eq (level : D → ℤ) (ds : List D) (s : Filled D) :
    fill level ds s =
      { hourly := s.hourly ++ (ds.take (digestShare s.budget)).filter fun d => level d = 1
        daily := s.daily ++ (ds.take (digestShare s.budget)).filter fun d => level d = 2
        weekly := s.weekly ++ (ds.take (digestShare s.budget)).filter fun d => level d = 3
        budget := s.budget - 80 * min (digestShare s.budget) ds.length } := by
  induction ds generalizing s with
  | nil => simp [fill]
  | cons d ds ih =>
    rw [fill]
    by_cases hspent : s.budget ≤ 0
    · have hnone : digestShare s.budget = 0 := by
        unfold digestShare
        omega
      rw [if_pos hspent, hnone]
      simp
    · have hshare : digestShare s.budget = digestShare (s.budget - 80) + 1 := by
        unfold digestShare
        omega
      have hsplit : ∀ n : ℤ, ((d :: ds).take (digestShare s.budget)).filter (fun d => level d = n)
          = (if level d = n then [d] else []) ++
            (ds.take (digestShare (s.budget - 80))).filter fun d => level d = n := by
        intro n
        rw [hshare, List.take_succ_cons, List.filter_cons]
        by_cases hn : level d = n <;> simp [hn]
      rw [if_neg hspent, ih, hsplit, hsplit, hsplit, hshare]
      simp only [Filled.put, tokensPerDigest, List.append_assoc, List.length_cons, Filled.mk.injEq,
        true_and]
      omega

/-! ### The budget -/

/-- **The budget is kept**, the total is what the returned entries and digests cost, and the
recent entries are the newest since the time of what the shard held when it was read. -/
def Budgeted (level : D → ℤ) (now : ℤ) (since : Datetime) (maxTokens : ℕ)
    (records : List (Option D)) (c : CollectiveShard F) : Prop :=
  ∃ stack, readWithDigests level now since maxTokens records c = .ok stack ∧
    stack.totalTokens ≤ maxTokens ∧
    stack.totalTokens = 300 * stack.recent.length + 80 * (stack.hourlyDigests.length +
      stack.dailyDigests.length + stack.weeklyDigests.length) ∧
    ∃ past, past <+: c.entries ∧ (c.index = none → past = c.entries) ∧
      stack.recent <+: (recentSince since past).reverse

/-- What the recent entries leave of the budget. -/
def leftForDigests (since : Datetime) (maxTokens : ℕ) (c : CollectiveShard F) : ℕ :=
  maxTokens - 300 * min (recentSince since c.window).length (maxTokens / 300)

/-- The times compare: with `since`, and with the time of the read where an entry is taken. -/
def TimesCompare (since : Datetime) (maxTokens : ℕ) (c : CollectiveShard F) : Prop :=
  (∀ e ∈ c.window, Compares since e) ∧
    (since.val.offset.isSome ∨ maxTokens < 300 ∨ recentSince since c.window = [])

/-- What a window shows since a time ends what the shard held. -/
theorem exists_past (since : Datetime) (c : CollectiveShard F) :
    ∃ past, past <+: c.entries ∧ (c.index = none → past = c.entries) ∧
      (recentSince since c.window).reverse <+: (recentSince since past).reverse := by
  have hsuffix : ∀ past : List (CollectiveEntry F),
      (recentSince since (newestEntries (max c.windowSize 1) past)).reverse <+:
        (recentSince since past).reverse := by
    intro past
    rw [List.reverse_prefix]
    exact (List.drop_suffix _ _).filter _
  cases h : c.index with
  | none =>
    refine ⟨c.entries, List.prefix_rfl, fun _ => rfl, ?_⟩
    rw [CollectiveShard.window, h]
    exact hsuffix _
  | some i =>
    obtain ⟨past, hpast, rfl⟩ := c.index_eq i h
    refine ⟨past, hpast, fun hnone => (nomatch hnone), ?_⟩
    rw [CollectiveShard.window, h]
    exact hsuffix _

/-- **What is read**, where the times compare. -/
theorem readWithDigests_eq (level : D → ℤ) (now : ℤ) {since : Datetime} {maxTokens : ℕ}
    (records : List (Option D)) {c : CollectiveShard F} (h : TimesCompare since maxTokens c) :
    ∃ span, readWithDigests level now since maxTokens records c =
      let taken := (storedDigests records).take
        (digestShare (leftForDigests since maxTokens c))
      .ok
        { recent := (recentSince since c.window).reverse.take (maxTokens / 300)
          hourlyDigests := taken.filter fun d => level d = 1
          dailyDigests := taken.filter fun d => level d = 2
          weeklyDigests := taken.filter fun d => level d = 3
          totalTokens := maxTokens - (leftForDigests since maxTokens c - 80 * taken.length)
          span } := by
  rw [readWithDigests, if_pos h.1, selectRecent_eq, List.length_reverse]
  dsimp only
  rw [fill_eq]
  simp only [List.nil_append]
  cases hlast : ((recentSince since c.window).reverse.take (maxTokens / 300)).getLast? with
  | none => exact ⟨none, by simp only [List.length_take, leftForDigests, Nat.cast_min]⟩
  | some e =>
    have hmem := List.mem_of_getLast? hlast
    have hwindow : e ∈ recentSince since c.window :=
      List.mem_reverse.mp (List.mem_of_mem_take hmem)
    -- an entry is taken, so the times are aware
    have haware : since.val.offset.isSome := by
      rcases h.2 with haware | hfew | hnone
      · exact haware
      · rw [Nat.div_eq_of_lt hfew, List.take_zero] at hmem
        cases hmem
      · rw [hnone] at hwindow
        cases hwindow
    have hentry : e.contributedAt.val.offset.isSome := by
      rw [h.1 e (List.mem_filter.mp hwindow).1]
      exact haware
    refine ⟨some (now - e.time), ?_⟩
    simp only [hentry, if_true, List.length_take, leftForDigests, Nat.cast_min]

/-- **What is read compares.** -/
theorem timesCompare_of_ok {level : D → ℤ} {now : ℤ} {since : Datetime} {maxTokens : ℕ}
    {records : List (Option D)} {c : CollectiveShard F} {stack : ContextStack F D}
    (h : readWithDigests level now since maxTokens records c = .ok stack) :
    TimesCompare since maxTokens c := by
  rw [readWithDigests] at h
  split_ifs at h with hall
  refine ⟨hall, ?_⟩
  rw [selectRecent_eq] at h
  dsimp only at h
  cases hlast : ((recentSince since c.window).reverse.take (maxTokens / 300)).getLast? with
  | none =>
    rcases List.take_eq_nil_iff.mp (List.getLast?_eq_none_iff.mp hlast) with hfew | hnone
    · exact .inr (.inl ((Nat.div_eq_zero_iff_lt (by omega)).mp hfew))
    · exact .inr (.inr (List.reverse_eq_nil_iff.mp hnone))
  | some e =>
    rw [hlast] at h
    dsimp only at h
    split_ifs at h with haware
    have hwindow : e ∈ recentSince since c.window :=
      List.mem_reverse.mp (List.mem_of_mem_take (List.mem_of_getLast? hlast))
    left
    rw [← hall e (List.mem_filter.mp hwindow).1]
    exact haware

/-- Digests of three levels are all there is exactly when no other is taken. -/
theorem length_levels (level : D → ℤ) (ds : List D) :
    ((ds.filter fun d => level d = 1).length + (ds.filter fun d => level d = 2).length +
        (ds.filter fun d => level d = 3).length = ds.length) ↔
      ∀ d ∈ ds, level d = 1 ∨ level d = 2 ∨ level d = 3 := by
  have hle : ∀ ds : List D, (ds.filter fun d => level d = 1).length +
      (ds.filter fun d => level d = 2).length + (ds.filter fun d => level d = 3).length
        ≤ ds.length := by
    intro ds
    induction ds with
    | nil => exact le_rfl
    | cons d ds ih =>
      simp only [List.filter_cons, List.length_cons, decide_eq_true_eq]
      split_ifs <;> grind
  induction ds with
  | nil => simp
  | cons d ds ih =>
    have hrest := hle ds
    rw [List.forall_mem_cons, ih.symm]
    simp only [List.filter_cons, List.length_cons, decide_eq_true_eq]
    clear ih
    split_ifs <;> grind

/-- **The budget is kept exactly when** the times compare, the digests there are fit in what
the entries leave or what they leave is a number of digests, and the digests charged are of
the first three levels. -/
theorem budgeted_iff (level : D → ℤ) (now : ℤ) (since : Datetime) (maxTokens : ℕ)
    (records : List (Option D)) (c : CollectiveShard F) :
    Budgeted level now since maxTokens records c ↔
      TimesCompare since maxTokens c ∧
      (80 * (storedDigests records).length ≤ leftForDigests since maxTokens c ∨
        80 ∣ leftForDigests since maxTokens c) ∧
      ∀ d ∈ (storedDigests records).take (digestShare (leftForDigests since maxTokens c)),
        level d = 1 ∨ level d = 2 ∨ level d = 3 := by
  have hleft : leftForDigests since maxTokens c +
      300 * min (recentSince since c.window).length (maxTokens / 300) = maxTokens := by
    unfold leftForDigests
    omega
  have hshare : ((80 * ((storedDigests records).take (digestShare
      (leftForDigests since maxTokens c))).length ≤ leftForDigests since maxTokens c)) ↔
      (80 * (storedDigests records).length ≤ leftForDigests since maxTokens c ∨
        80 ∣ leftForDigests since maxTokens c) := by
    rw [List.length_take, digestShare]
    omega
  rw [← hshare, ← length_levels]
  constructor
  · rintro ⟨stack, hstack, hbudget, htotal, -⟩
    have htimes := timesCompare_of_ok hstack
    obtain ⟨span, heq⟩ := readWithDigests_eq level now records htimes
    rw [heq] at hstack
    obtain rfl := Except.ok.inj hstack
    dsimp only at hbudget htotal
    rw [List.length_take (i := maxTokens / 300), List.length_reverse] at htotal
    refine ⟨htimes, by omega, by omega⟩
  · rintro ⟨htimes, hfits, hlevels⟩
    obtain ⟨span, heq⟩ := readWithDigests_eq level now records htimes
    obtain ⟨past, hpast, hnone, hprefix⟩ := exists_past since c
    refine ⟨_, heq, ?_, ?_, past, hpast, hnone, (List.take_prefix _ _).trans hprefix⟩
    · dsimp only
      omega
    · dsimp only
      rw [List.length_take (i := maxTokens / 300), List.length_reverse]
      omega

/-- A budget of ten tokens, and one digest. -/
theorem overspent :
    ¬ Budgeted (fun level : ℤ => level) 0 sampleHalfPast.contributedAt 10 [some 1]
      (CollectiveShard.opened [sampleHalfPast] 500) := by
  rintro ⟨stack, hstack, hbudget, -⟩
  have htimes : TimesCompare sampleHalfPast.contributedAt 10
      (CollectiveShard.opened [sampleHalfPast] 500) := ⟨by decide, by decide⟩
  obtain ⟨span, heq⟩ := readWithDigests_eq (fun level : ℤ => level) 0 [some 1] htimes
  rw [heq] at hstack
  obtain rfl := Except.ok.inj hstack
  dsimp only at hbudget
  revert hbudget
  decide

end Daryl
