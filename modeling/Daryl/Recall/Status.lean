import Daryl.Recall.Provenance

/-!
# `recall.search`: the status of a match, and how many are asked for

The matches are ranked and cut before they are compared, so a later match supersedes an older one
only where both are shown.  With more results an item can change its status, and with few of them
it counts as relevant beside a later one that is not shown.

## Main definitions

* `matchesOf`, `pastOf`, `currentOf` — the matches of a search, and the two lists they are shown in.
* `Subsumed` — a match is later, and matches all the words of another.
* `StatusHolds` — the status does not depend on the number of results, and what is still relevant
  is not subsumed by any match.
* `SubsumersFirst` — a match that is subsumed is subsumed by one that ranks no lower.

## Main results

* `recallItems_eq` — the search as a cut of the two lists.
* `statusHolds_iff` — **when the status of every match holds.**
-/

namespace Daryl

open Py Json

variable {F R : Type} [PyFloat F] [LinearOrder R] (b : Builtins F R)

/-- All matches of a search. -/
def matchesOf (d : Disk F) (c : Call R) : Except PyError (List (Item F R)) :=
  let queryTokens := (tokenize b c.query).dedup
  collectMatches b c queryTokens
    (if queryTokens = [] then [] else scanEntries c.clock d c.shardIds 100000)

/-- A match of the session of the call. -/
def isCurrent (c : Call R) (m : Item F R) : Bool :=
  c.sessionId.isSome && inSession c.sessionId m.entry

/-- Most relevant first. -/
def byRelevance (ms : List (Item F R)) : List (Item F R) :=
  StableSort.sortBy (fun m : Item F R => OrderDual.toDual m.relevance) ms

/-- The matches of past sessions, ranked. -/
def pastOf (c : Call R) (ms : List (Item F R)) : List (Item F R) :=
  byRelevance (ms.filter fun m => !isCurrent c m)

/-- Those of the current session, ranked, if they are shown. -/
def currentOf (c : Call R) (ms : List (Item F R)) : List (Item F R) :=
  if c.includeCurrentSession then byRelevance (ms.filter fun m => isCurrent c m) else []

/-- The match stands at the place in one of the two lists. -/
def ShownAt (c : Call R) (ms : List (Item F R)) (i : ℕ) (x : Item F R) : Prop :=
  (pastOf c ms)[i]? = some x ∨ (currentOf c ms)[i]? = some x

/-- The match is strictly older than the other, which matches all its words. -/
def Subsumed (x y : Item F R) : Prop := x.time < y.time ∧ ∀ t ∈ x.matched, t ∈ y.matched

/-- What a match is, but for its status. -/
def Item.bare (x : Item F R) : Item F R := { x with timeStatus := .stillRelevant }

instance (x y : Item F R) : Decidable (Subsumed x y) := inferInstanceAs (Decidable (_ ∧ _))

/-- **The status holds**: a match that is shown for two numbers of results has one status, and what
is still relevant, of a type that may be superseded, is not subsumed by any match. -/
structure StatusHolds (d : Disk F) (c : Call R) : Prop where
  same : ∀ m n r r', m < n → recallItems b d { c with maxResults := m } = .ok r →
    recallItems b d { c with maxResults := n } = .ok r' →
    ∀ x ∈ r.1 ++ r.2, ∀ y ∈ r'.1 ++ r'.2, x.bare = y.bare → x.timeStatus = y.timeStatus
  relevant : ∀ n r ms, recallItems b d { c with maxResults := n } = .ok r →
    matchesOf b d c = .ok ms → ∀ x ∈ r.1 ++ r.2, x.timeStatus = .stillRelevant →
    x.type ∈ supersedableTypes → ∀ y ∈ ms, ¬Subsumed x y

/-- **A match that is subsumed by another is subsumed by one that ranks no lower.**  Where it is
outdated by its age, only the matches of the two lists count. -/
def SubsumersFirst (d : Disk F) (c : Call R) : Prop :=
  ∀ ms, matchesOf b d c = .ok ms → ∀ i x, ShownAt c ms i x → x.type ∈ supersedableTypes →
    (∃ y ∈ if b.outdated x.time c.now then pastOf c ms ++ currentOf c ms else ms, Subsumed x y) →
    ∃ j ≤ i, ∃ y, ShownAt c ms j y ∧ Subsumed x y

/-! ### The search as a cut -/

variable {b}

theorem collectMatches_maxResults (c : Call R) (n : ℕ) (queryTokens : List PyStr) :
    ∀ ps : List (PyStr × Entry F),
      collectMatches b { c with maxResults := n } queryTokens ps = collectMatches b c queryTokens ps
  | [] => rfl
  | p :: ps => by
    unfold collectMatches
    rw [collectMatches_maxResults c n queryTokens ps]

/-- The first of the matches shown. -/
def shownItems (c : Call R) (ms : List (Item F R)) (n : ℕ) : List (Item F R) :=
  (pastOf c ms).take n ++ (currentOf c ms).take n

/-- **The search cuts the two lists, and compares what is left.** -/
theorem recallItems_eq (d : Disk F) (c : Call R) (n : ℕ) :
    recallItems b d { c with maxResults := n } = (matchesOf b d c).map fun ms =>
      (applyTemporalStatus b c.now (shownItems c ms n) ((pastOf c ms).take n),
        applyTemporalStatus b c.now (shownItems c ms n) ((currentOf c ms).take n)) := by
  unfold recallItems matchesOf
  dsimp only
  rw [collectMatches_maxResults]
  congr 1
  funext ms
  have hcurrent : (if c.includeCurrentSession = true then
      ranked { c with maxResults := n }
        (ms.filter fun m => c.sessionId.isSome && inSession c.sessionId m.entry) else [])
      = (currentOf c ms).take n := by
    unfold currentOf
    split_ifs
    · rfl
    · exact List.take_nil.symm
  rw [hcurrent]
  rfl

theorem mem_shown {c : Call R} {ms : List (Item F R)} {n : ℕ} {x : Item F R} :
    x ∈ shownItems c ms n ↔ ∃ i < n, ShownAt c ms i x := by
  have htake : ∀ l : List (Item F R), x ∈ l.take n ↔ ∃ i < n, l[i]? = some x := by
    intro l
    rw [List.mem_iff_getElem?]
    constructor
    · rintro ⟨i, hi⟩
      obtain ⟨hlt, -⟩ := List.getElem?_eq_some_iff.mp hi
      have hin : i < n := by
        rw [List.length_take] at hlt
        omega
      exact ⟨i, hin, List.getElem?_take_of_lt hin ▸ hi⟩
    · rintro ⟨i, hin, hi⟩
      exact ⟨i, (List.getElem?_take_of_lt hin).trans hi⟩
  rw [shownItems, List.mem_append, htake, htake]
  constructor
  · rintro (⟨i, hin, hi⟩ | ⟨i, hin, hi⟩)
    · exact ⟨i, hin, Or.inl hi⟩
    · exact ⟨i, hin, Or.inr hi⟩
  · rintro ⟨i, hin, hi | hi⟩
    · exact Or.inl ⟨i, hin, hi⟩
    · exact Or.inr ⟨i, hin, hi⟩

/-! ### The status of a match -/

/-- A match has words of the query, and no status yet. -/
theorem buildMatch_ok {typeOverrides : List (PyStr × Option PyStr)} {queryTokens : List PyStr}
    {now : R} {shard : PyStr} {entry : Entry F} {m : Item F R}
    (h : buildMatch b typeOverrides queryTokens now shard entry = .ok (some m)) :
    m.matched ≠ [] ∧ m.timeStatus = .stillRelevant := by
  unfold buildMatch at h
  cases hevent : eventType b entry with
  | error err =>
    rw [hevent] at h
    cases h
  | ok event =>
    rw [hevent] at h
    obtain ⟨type, -, hmatch⟩ := Option.bind_eq_some_iff.mp (Except.ok.inj h)
    dsimp only at hmatch
    split_ifs at hmatch with hnone
    obtain rfl := Option.some.inj hmatch
    exact ⟨hnone, rfl⟩

theorem collectMatches_ok {c : Call R} {queryTokens : List PyStr} :
    ∀ {ps : List (PyStr × Entry F)} {ms : List (Item F R)},
      collectMatches b c queryTokens ps = .ok ms →
      ∀ m ∈ ms, m.matched ≠ [] ∧ m.timeStatus = .stillRelevant := by
  intro ps
  induction ps with
  | nil =>
    rintro ms ⟨⟩ m hm
    cases hm
  | cons p ps ih =>
    intro ms h m hm
    unfold collectMatches at h
    split_ifs at h
    · exact ih h m hm
    · cases hbuild : buildMatch b c.typeOverrides queryTokens c.now p.1 p.2 with
      | error err =>
        rw [hbuild] at h
        cases h
      | ok o =>
        rw [hbuild] at h
        cases hrest : collectMatches b c queryTokens ps with
        | error err =>
          rw [hrest] at h
          cases h
        | ok rest =>
          rw [hrest] at h
          obtain rfl := Except.ok.inj h
          rcases List.mem_append.mp hm with hm | hm
          · exact buildMatch_ok (hbuild.trans (congrArg Except.ok (Option.mem_toList.mp hm)))
          · exact ih hrest m hm

section

variable {d : Disk F} {c : Call R} {ms : List (Item F R)}

theorem mem_of_shownAt {i : ℕ} {x : Item F R} (h : ShownAt c ms i x) : x ∈ ms := by
  have hsort : ∀ {l : List (Item F R)}, x ∈ byRelevance l → x ∈ l :=
    fun hx => (StableSort.sortBy_perm _).mem_iff.mp hx
  rcases h with h | h
  · exact (List.mem_filter.mp (hsort (List.mem_of_getElem? h))).1
  · unfold currentOf at h
    split_ifs at h
    · exact (List.mem_filter.mp (hsort (List.mem_of_getElem? h))).1
    · cases h

theorem of_shownAt (hms : matchesOf b d c = .ok ms) {i : ℕ} {x : Item F R} (h : ShownAt c ms i x) :
    x.matched ≠ [] ∧ x.timeStatus = .stillRelevant :=
  collectMatches_ok hms x (mem_of_shownAt h)

/-- A match is superseded by one that is shown. -/
theorem superseded_iff (hms : matchesOf b d c = .ok ms) {i n : ℕ} {x : Item F R}
    (hx : ShownAt c ms i x) : timeStatus b c.now (shownItems c ms n) x = .superseded ↔
      x.type ∈ supersedableTypes ∧ ∃ j < n, ∃ y, ShownAt c ms j y ∧ Subsumed x y := by
  obtain ⟨hmatched, hstatus⟩ := of_shownAt hms hx
  have hany : ((shownItems c ms n).any fun other => x.time < other.time ∧ ∀ t ∈ x.matched,
      t ∈ other.matched) = true ↔ ∃ j < n, ∃ y, ShownAt c ms j y ∧ Subsumed x y := by
    rw [List.any_eq_true]
    constructor
    · rintro ⟨y, hy, hsub⟩
      obtain ⟨j, hj, hshown⟩ := mem_shown.mp hy
      exact ⟨j, hj, y, hshown, of_decide_eq_true hsub⟩
    · rintro ⟨j, hj, y, hshown, hsub⟩
      exact ⟨y, mem_shown.mpr ⟨j, hj, hshown⟩, decide_eq_true hsub⟩
  unfold timeStatus
  constructor
  · intro h
    split_ifs at h with hcond hage
    · exact ⟨hcond.1, hany.mp hcond.2.2⟩
    · rw [hstatus] at h
      cases h
  · rintro ⟨htype, hsub⟩
    exact if_pos ⟨htype, hmatched, hany.mpr hsub⟩

/-- What is not superseded has the status of its age. -/
theorem timeStatus_of_not {n : ℕ} {x : Item F R}
    (h : timeStatus b c.now (shownItems c ms n) x ≠ .superseded) :
    timeStatus b c.now (shownItems c ms n) x
      = if b.outdated x.time c.now then .outdated else x.timeStatus := by
  unfold timeStatus at h ⊢
  exact if_neg fun hcond => h (if_pos hcond)

/-- The matches of a search, each with its status. -/
theorem mem_recallItems (hms : matchesOf b d c = .ok ms) {n : ℕ}
    {r : List (Item F R) × List (Item F R)}
    (h : recallItems b d { c with maxResults := n } = .ok r) {x : Item F R} :
    x ∈ r.1 ++ r.2 ↔ ∃ i < n, ∃ y, ShownAt c ms i y ∧
      { y with timeStatus := timeStatus b c.now (shownItems c ms n) y } = x := by
  rw [recallItems_eq, hms] at h
  obtain rfl := Except.ok.inj h
  unfold applyTemporalStatus
  rw [← List.map_append, List.mem_map]
  constructor
  · rintro ⟨y, hy, hyx⟩
    obtain ⟨i, hi, hshown⟩ := mem_shown.mp hy
    exact ⟨i, hi, y, hshown, hyx⟩
  · rintro ⟨i, hi, y, hshown, hyx⟩
    exact ⟨y, mem_shown.mpr ⟨i, hi, hshown⟩, hyx⟩

theorem bare_of_shownAt (hms : matchesOf b d c = .ok ms) {i : ℕ} {x : Item F R}
    (h : ShownAt c ms i x) : x.bare = x := by
  unfold Item.bare
  rw [← (of_shownAt hms h).2]

theorem matchesOf_of_recallItems {n : ℕ} {r : List (Item F R) × List (Item F R)}
    (h : recallItems b d { c with maxResults := n } = .ok r) : ∃ ms, matchesOf b d c = .ok ms := by
  rw [recallItems_eq] at h
  cases hms : matchesOf b d c with
  | error err =>
    rw [hms] at h
    cases h
  | ok ms => exact ⟨ms, rfl⟩

/-- A match that is subsumed, and not by one shown with it, shows what the cut hides. -/
theorem SubsumersFirst.of_statusHolds (h : StatusHolds b d c) : SubsumersFirst b d c := by
  intro ms hms i x hx htype hsub
  by_contra hno
  obtain ⟨-, hstatus⟩ := of_shownAt hms hx
  -- the search that shows the match last
  obtain ⟨r, hr⟩ : ∃ r, recallItems b d { c with maxResults := i + 1 } = .ok r :=
    ⟨_, by rw [recallItems_eq, hms]; rfl⟩
  have hlast : timeStatus b c.now (shownItems c ms (i + 1)) x ≠ .superseded := by
    intro hsuperseded
    obtain ⟨-, j, hj, y, hy, hsub⟩ := (superseded_iff hms hx).mp hsuperseded
    exact hno ⟨j, by omega, y, hy, hsub⟩
  have hkept := timeStatus_of_not hlast
  have hmem := (mem_recallItems hms hr).mpr ⟨i, by omega, x, hx, rfl⟩
  obtain ⟨y, hy, hxy⟩ := hsub
  split_ifs at hy hkept with hage
  · -- outdated: with more results, it is superseded
    obtain ⟨j, hj⟩ : ∃ j, ShownAt c ms j y := by
      rcases List.mem_append.mp hy with hy | hy
      · obtain ⟨j, hj⟩ := List.mem_iff_getElem?.mp hy
        exact ⟨j, Or.inl hj⟩
      · obtain ⟨j, hj⟩ := List.mem_iff_getElem?.mp hy
        exact ⟨j, Or.inr hj⟩
    obtain ⟨r', hr'⟩ : ∃ r, recallItems b d { c with maxResults := i + j + 2 } = .ok r :=
      ⟨_, by rw [recallItems_eq, hms]; rfl⟩
    have hmore : timeStatus b c.now (shownItems c ms (i + j + 2)) x = .superseded :=
      (superseded_iff hms hx).mpr ⟨htype, j, by omega, y, hj, hxy⟩
    have hmem' := (mem_recallItems hms hr').mpr ⟨i, by omega, x, hx, rfl⟩
    have hsame := h.same (i + 1) (i + j + 2) r r' (by omega) hr hr' _ hmem _ hmem' rfl
    dsimp only at hsame
    rw [hmore] at hsame
    exact hlast hsame
  · -- not outdated: it counts as relevant
    exact h.relevant (i + 1) r ms hr hms _ hmem (hkept.trans hstatus) htype y hy hxy

theorem StatusHolds.of_subsumersFirst (h : SubsumersFirst b d c) : StatusHolds b d c := by
  refine ⟨?_, ?_⟩
  · -- the larger size shows no other subsumer than one that the smaller shows
    intro m n r r' hmn hr hr' x hx y hy hbare
    obtain ⟨ms, hms⟩ := matchesOf_of_recallItems hr
    obtain ⟨i, hi, x, hshown, rfl⟩ := (mem_recallItems hms hr).mp hx
    obtain ⟨i', -, y, hshown', rfl⟩ := (mem_recallItems hms hr').mp hy
    obtain rfl : x = y := (bare_of_shownAt hms hshown).symm.trans
      (hbare.trans (bare_of_shownAt hms hshown'))
    have hiff : timeStatus b c.now (shownItems c ms m) x = .superseded ↔
        timeStatus b c.now (shownItems c ms n) x = .superseded := by
      rw [superseded_iff hms hshown, superseded_iff hms hshown]
      constructor
      · rintro ⟨htype, j, hj, z, hz, hxz⟩
        exact ⟨htype, j, by omega, z, hz, hxz⟩
      · rintro ⟨htype, j, -, z, hz, hxz⟩
        have hin : z ∈ if b.outdated x.time c.now then pastOf c ms ++ currentOf c ms else ms := by
          split_ifs
          · exact List.mem_append.mpr (hz.imp List.mem_of_getElem? List.mem_of_getElem?)
          · exact mem_of_shownAt hz
        obtain ⟨j', hj', z', hz', hxz'⟩ := h ms hms i x hshown htype ⟨z, hin, hxz⟩
        exact ⟨htype, j', by omega, z', hz', hxz'⟩
    by_cases hsuperseded : timeStatus b c.now (shownItems c ms m) x = .superseded
    · exact hsuperseded.trans (hiff.mp hsuperseded).symm
    · exact (timeStatus_of_not hsuperseded).trans
        (timeStatus_of_not fun hn => hsuperseded (hiff.mpr hn)).symm
  · -- what is relevant would have been superseded by what is shown before it
    intro n r ms hr hms x hx hstatus htype y hy hxy
    obtain ⟨i, hi, x, hshown, rfl⟩ := (mem_recallItems hms hr).mp hx
    dsimp only at hstatus htype hxy
    have hnot : timeStatus b c.now (shownItems c ms n) x ≠ .superseded := by
      rw [hstatus]
      decide
    have hage : b.outdated x.time c.now = false := by
      have hkept := timeStatus_of_not hnot
      rw [hstatus] at hkept
      split_ifs at hkept with hage
      exact Bool.eq_false_iff.mpr hage
    obtain ⟨j, hj, z, hz, hxz⟩ := h ms hms i x hshown htype (by
      rw [if_neg (by rw [hage]; exact Bool.false_ne_true)]
      exact ⟨y, hy, hxy⟩)
    exact hnot ((superseded_iff hms hshown).mpr ⟨htype, j, by omega, z, hz, hxz⟩)

end

/-- **The status of every match holds iff subsumers rank first**: a match that a later one subsumes
is subsumed by one that ranks no lower in its list. -/
theorem statusHolds_iff (b : Builtins F R) (d : Disk F) (c : Call R) :
    StatusHolds b d c ↔ SubsumersFirst b d c :=
  ⟨SubsumersFirst.of_statusHolds, StatusHolds.of_subsumersFirst⟩

/-- Fractions; roots are to six places, and powers are to the next whole exponent below.  Times are
the seconds of a minute. -/
def secondsBuiltins : Builtins FloatLit ℚ where
  str := sampleBuiltins.str
  lower := sampleBuiltins.lower
  timestamp d := some d.val.second
  number q := q
  sqrt q := Nat.sqrt (q * 10 ^ 12).num.toNat / 10 ^ 6
  sub := fun x y => x - y
  mul := fun x y => x * y
  div := fun x y => x / y
  pow x y := x ^ y.floor.toNat
  round digits x := (x * 10 ^ digits + 1 / 2).floor / 10 ^ digits

/-- A line of an entry with the content, of a second of a minute. -/
def statusLine (content second : PyStr) : PyStr :=
  py "\x7b\"id\": \"e\", \"timestamp\": \"2026-01-02T03:04:" ++ second ++ py "+00:00\", "
    ++ py "\"session_id\": \"s\", \"source\": \"test\", \"content\": \"" ++ content ++ py "\", "
    ++ py "\"shard\": \"main\", \"hash\": \"x\", \"prev_hash\": null, "
    ++ py "\"metadata\": \x7b\"event_type\": \"user_prompt\"\x7d, \"version\": \"v2.0\"\x7d"

/-- A shard with a decision, and a later one in more words. -/
def statusDisk : Disk FloatLit :=
  ⟨[(py "main", ⟨py "main", [(segmentName (py "main") 1, lineBytes (statusLine (py "deploy") (py "05"))
    ++ lineBytes (statusLine (py "deploy later") (py "06")))], none⟩)], [], []⟩

/-- A search for the word they share. -/
def statusCall : Call ℚ where
  query := py "deploy"
  sessionId := none
  shardIds := [py "main"]
  acrossSessions := true
  maxResults := 10
  includeCurrentSession := true
  typeOverrides := []
  now := 7
  clock := sampleTime

/-- **Asked for one result, the search calls the decision relevant that the later one subsumes.** -/
theorem status_misleads : ¬StatusHolds secondsBuiltins statusDisk statusCall := by
  intro h
  have hone : (recallItems secondsBuiltins statusDisk { statusCall with maxResults := 1 }).map
      (fun r => (r.1 ++ r.2).map fun x => (x.time, x.matched, x.type, x.timeStatus))
        = .ok [(5, [py "deploy"], historicalDecision, .stillRelevant)] := by
    decide +kernel
  have hall : (matchesOf secondsBuiltins statusDisk statusCall).map
      (fun ms => ms.map fun x => (x.time, x.matched)) = .ok [(6, [py "deploy"]), (5, [py "deploy"])] := by
    decide +kernel
  cases hr : recallItems secondsBuiltins statusDisk { statusCall with maxResults := 1 } with
  | error err =>
    rw [hr] at hone
    cases hone
  | ok r =>
    cases hms : matchesOf secondsBuiltins statusDisk statusCall with
    | error err =>
      rw [hms] at hall
      cases hall
    | ok ms =>
      rw [hr] at hone
      rw [hms] at hall
      obtain ⟨x, hx, hxview⟩ := List.mem_map.mp (Except.ok.inj hone ▸ List.mem_singleton_self _)
      obtain ⟨y, hy, hyview⟩ := List.mem_map.mp (Except.ok.inj hall ▸ List.mem_cons_self)
      simp only [Prod.mk.injEq] at hxview hyview
      obtain ⟨hxtime, hxmatched, hxtype, hxstatus⟩ := hxview
      refine h.relevant 1 r ms hr hms x hx hxstatus (by rw [hxtype]; decide) y hy ⟨?_, ?_⟩
      · rw [hxtime, hyview.1]
        decide
      · rw [hxmatched, hyview.2]
        exact fun t ht => ht

end Daryl
