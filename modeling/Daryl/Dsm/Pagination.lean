import Daryl.Dsm.Disk

/-!
# Pages of a shard

`Storage.read` has two readers.  The segmented one goes through the lines newest first,
passes over as many JSON objects as the offset says and then collects entries up to the
limit; the monolithic one keeps the last entries of the file and cuts the page out of them.
They count different things: an object that makes no entry is passed over by the one and not
counted by the other, and the limit is asked by the one only after it has collected.

## Main definitions

* `built` — the entries that objects make.
* `page` — the slice of the newest entries.
* `Paginates` — both readers give the page.

## Main results

* `readSegmented_page` — **what the segmented reader gives**, for any offset and limit.
* `readMonolithic_page` — the monolithic reader gives the page.
* `paginates_iff` — **when both do.**
-/

namespace Daryl

open Py Json

variable {F : Type} [PyFloat F]

/-- The entry an object makes, if it makes one. -/
def build (event : PyVal F) : Option (Entry F) :=
  match entryFromEventData event with
  | .ok entry => some entry
  | .error _ => none

/-- The entries that objects make. -/
def built (events : List (PyVal F)) : List (Entry F) := events.filterMap build

/-- The events are JSON objects. -/
def Objects (events : List (PyVal F)) : Prop := ∀ event ∈ events, ∃ kvs, event = .dict kvs

instance (event : PyVal F) : Decidable (∃ kvs, event = .dict kvs) :=
  match event with
  | .dict kvs => isTrue ⟨kvs, rfl⟩
  | .none | .bool _ | .int _ | .float _ | .str _ | .list _ | .tuple _ =>
    isFalse fun ⟨_, h⟩ => nomatch h

instance (events : List (PyVal F)) : Decidable (Objects events) := List.decidableBAll _ events

/-- The slice `[offset : offset + limit]` of the newest entries; the events are in the order
they were written. -/
def page (offset limit : ℕ) (events : List (PyVal F)) : List (Entry F) :=
  ((built events.reverse).drop offset).take limit

omit [PyFloat F] in
/-- An object is read without an exception that gets through. -/
theorem entryFromEventData_object {event : PyVal F} {kvs : List (Key F × PyVal F)}
    (h : event = .dict kvs) : entryFromEventData event ≠ .error .attributeError := by
  subst h
  rw [entryFromEventData]
  split
  · split <;> simp
  · simp

omit [PyFloat F] in
theorem entriesOf_objects {events : List (PyVal F)} (h : Objects events) :
    entriesOf events = .ok (built events) := by
  induction events with
  | nil => rfl
  | cons event events ih =>
    obtain ⟨kvs, hkvs⟩ := h event List.mem_cons_self
    have hrest := ih fun e he => h e (List.mem_cons_of_mem event he)
    have hobject := entryFromEventData_object hkvs
    rw [entriesOf, built, List.filterMap_cons, build]
    cases hread : entryFromEventData event with
    | ok entry =>
      dsimp only
      rw [hrest]
      rfl
    | error err =>
      cases err with
      | attributeError => exact absurd hread hobject
      | _ => exact hrest

/-! ### The segmented reader -/

/-- **Lines are read newest first**: the objects still to be passed over, and then entries up to
the limit, at least one. -/
theorem readLines_page (offset limit : ℕ) {lines : List PyStr}
    (h : Objects (lines.filterMap (lineEvent (F := F)))) (skipped : ℕ) (hskipped : skipped ≤ offset)
    (rs : List (Entry F)) (hrs : rs.length < max limit 1)
    (hfresh : skipped < offset → rs = []) :
    ∃ full, readLines offset limit lines ⟨skipped, rs⟩ =
        .ok (⟨min offset (skipped + (lines.filterMap (lineEvent (F := F))).length),
          (rs ++ built ((lines.filterMap lineEvent).drop (offset - skipped))).take (max limit 1)⟩,
          full) ∧
      (full = true ↔ max limit 1 ≤
        (rs ++ built ((lines.filterMap lineEvent).drop (offset - skipped))).length) := by
  induction lines generalizing skipped rs with
  | nil =>
    refine ⟨false, ?_, ?_⟩
    · rw [readLines, List.filterMap_nil, List.drop_nil, built, List.filterMap_nil, List.append_nil,
        List.take_of_length_le hrs.le, List.length_nil, Nat.add_zero, min_eq_right hskipped]
    · rw [List.filterMap_nil, List.drop_nil, built, List.filterMap_nil, List.append_nil]
      exact iff_of_false Bool.false_ne_true (by omega)
  | cons line lines ih =>
    rw [readLines, readLine]
    cases hev : lineEvent (F := F) line with
    | none =>
      rw [List.filterMap_cons, hev] at h ⊢
      simp only [lt_irrefl, false_and, if_false]
      exact ih h skipped hskipped rs hrs hfresh
    | some event =>
      rw [List.filterMap_cons, hev] at h ⊢
      simp only at h ⊢
      obtain ⟨kvs, hkvs⟩ := h event List.mem_cons_self
      have hobject := entryFromEventData_object hkvs
      have hrest : Objects (lines.filterMap (lineEvent (F := F))) :=
        fun e he => h e (List.mem_cons_of_mem event he)
      by_cases hpass : skipped < offset
      · -- the object is passed over
        obtain rfl := hfresh hpass
        rw [if_pos hpass]
        obtain ⟨full, heq, hfull⟩ := ih hrest (skipped + 1) hpass [] hrs fun _ => rfl
        have hdrop : (event :: lines.filterMap lineEvent).drop (offset - skipped) =
            (lines.filterMap lineEvent).drop (offset - (skipped + 1)) := by
          rw [show offset - skipped = offset - (skipped + 1) + 1 by omega, List.drop_succ_cons]
        refine ⟨full, ?_, ?_⟩
        · simp only [List.length_nil, lt_irrefl, false_and, if_false]
          rw [heq, hdrop, List.length_cons, Nat.add_right_comm, Nat.add_assoc]
        · rw [hdrop]
          exact hfull
      · obtain rfl : skipped = offset := by omega
        rw [if_neg (lt_irrefl _), Nat.sub_self, List.drop_zero]
        have hmin : ∀ n, min skipped (skipped + n) = skipped := fun n => by omega
        rw [hmin]
        have hlater : ∀ rs : List (Entry F), rs.length < max limit 1 → ∃ full,
            readLines skipped limit lines ⟨skipped, rs⟩ =
              .ok (⟨skipped, (rs ++ built (lines.filterMap lineEvent)).take (max limit 1)⟩, full) ∧
            (full = true ↔ max limit 1 ≤ (rs ++ built (lines.filterMap lineEvent)).length) := by
          intro rs hrs
          have hih := ih hrest skipped le_rfl rs hrs fun hlt => absurd hlt (lt_irrefl _)
          rwa [Nat.sub_self, List.drop_zero, hmin] at hih
        cases hd : entryFromEventData event with
        | error err =>
          have hbuilt : built (event :: lines.filterMap lineEvent) =
              built (lines.filterMap lineEvent) := by
            rw [built, List.filterMap_cons, build, hd]
            rfl
          rw [hbuilt]
          cases err with
          | attributeError => exact absurd hd hobject
          | _ =>
            simp only [lt_irrefl, false_and, if_false]
            exact hlater rs hrs
        | ok d =>
          have hbuilt : rs ++ built (event :: lines.filterMap lineEvent) =
              rs ++ [d] ++ built (lines.filterMap lineEvent) := by
            rw [built, List.filterMap_cons, build, hd, List.append_assoc, List.singleton_append]
            rfl
          have hone : (rs ++ [d]).length = rs.length + 1 := by
            rw [List.length_append, List.length_singleton]
          rw [hbuilt]
          by_cases hfull : rs.length < (rs ++ [d]).length ∧ limit ≤ (rs ++ [d]).length
          · -- the limit is met, so the rest is not read
            have hmax : max limit 1 = (rs ++ [d]).length := by omega
            refine ⟨true, ?_, ?_⟩
            · simp only [if_pos hfull]
              rw [hmax, List.take_left']
              rfl
            · rw [hmax]
              refine iff_of_true rfl ?_
              simp only [List.length_append]
              omega
          · simp only [if_neg hfull]
            exact hlater (rs ++ [d]) (by omega)

omit [PyFloat F] in
theorem built_append (events events' : List (PyVal F)) :
    built (events ++ events') = built events ++ built events' := List.filterMap_append

/-- And so are the segments. -/
theorem readSegments_page (offset limit : ℕ) {fs : List (PyStr × List Byte)}
    {texts : List (List PyStr)}
    (hfs : List.Forall₂ (fun f lines => textLines f.2 = .ok lines) fs texts)
    (h : Objects ((texts.flatMap List.reverse).filterMap (lineEvent (F := F)))) (skipped : ℕ)
    (hskipped : skipped ≤ offset) (rs : List (Entry F)) (hrs : rs.length < max limit 1)
    (hfresh : skipped < offset → rs = []) :
    readSegments offset limit fs ⟨skipped, rs⟩ = .ok ((rs ++ built
      (((texts.flatMap List.reverse).filterMap lineEvent).drop (offset - skipped))).take
        (max limit 1)) := by
  induction hfs generalizing skipped rs with
  | nil =>
    rw [readSegments, List.flatMap_nil, List.filterMap_nil, List.drop_nil, built,
      List.filterMap_nil, List.append_nil, List.take_of_length_le hrs.le]
  | @cons f lines fs texts hf _ ih =>
    rw [List.flatMap_cons, List.filterMap_append] at h ⊢
    have hhere : Objects (lines.reverse.filterMap (lineEvent (F := F))) :=
      fun e he => h e (List.mem_append_left _ he)
    have hlater : Objects ((texts.flatMap List.reverse).filterMap (lineEvent (F := F))) :=
      fun e he => h e (List.mem_append_right _ he)
    rw [readSegments, hf]
    obtain ⟨full, heq, hfull⟩ := readLines_page offset limit hhere skipped hskipped rs hrs hfresh
    simp only
    rw [heq, List.drop_append, built_append, ← List.append_assoc]
    cases full with
    | true =>
      -- the page is full: the older segments are not read
      have hlen := hfull.mp rfl
      rw [List.take_append_of_le_length hlen]
    | false =>
      -- there is room: the older segments go on with what is left of the offset
      have hlen : (rs ++ built ((lines.reverse.filterMap lineEvent).drop
          (offset - skipped))).length < max limit 1 := by
        by_contra hle
        exact Bool.false_ne_true (hfull.mpr (by omega))
      rw [List.take_of_length_le hlen.le]
      simp only
      have hleft : offset - min offset (skipped + (lines.reverse.filterMap (lineEvent (F := F))).length)
          = offset - skipped - (lines.reverse.filterMap (lineEvent (F := F))).length := by
        omega
      rw [ih hlater _ (min_le_left _ _) _ hlen, hleft]
      · intro hlt
        have hshort : (lines.reverse.filterMap (lineEvent (F := F))).length ≤ offset - skipped := by
          omega
        rw [hfresh (by omega), List.drop_of_length_le hshort]
        rfl

/-- **What the segmented reader gives.** -/
theorem readSegmented_page {fam : Family} {events : List (PyVal F)}
    (hevents : iterShardEvents fam = .ok events) (h : Objects events) (offset limit : ℕ) :
    readSegmented fam offset limit =
      .ok ((built (events.reverse.drop offset)).take (max limit 1)) := by
  unfold iterShardEvents at hevents
  cases htexts : (getSegmentFiles fam).mapM fun f => textLines f.2 with
  | error err =>
    rw [htexts] at hevents
    cases hevents
  | ok texts =>
    rw [htexts] at hevents
    obtain rfl := Except.ok.inj hevents
    have hfiles := List.forall₂_reverse_iff.mpr (Pointwise.of_mapM_ok htexts)
    have hflat : (texts.flatten.filterMap (lineEvent (F := F))).reverse =
        (texts.reverse.flatMap List.reverse).filterMap lineEvent := by
      rw [← List.filterMap_reverse, List.reverse_flatten, List.flatMap_def, List.map_reverse]
    have hobjects : Objects ((texts.reverse.flatMap List.reverse).filterMap (lineEvent (F := F))) :=
      fun e he => h e (List.mem_reverse.mp (hflat ▸ he))
    rw [readSegmented, readSegments_page offset limit hfiles hobjects 0 (Nat.zero_le _) []
      (by rw [List.length_nil]; omega) fun _ => rfl, hflat, Nat.sub_zero, List.nil_append]

/-! ### The monolithic reader -/

/-- **The monolithic reader gives the page.** -/
theorem readMonolithic_page {bs : List Byte} {lines : List PyStr} (hlines : textLines bs = .ok lines)
    (h : Objects (lines.filterMap (lineEvent (F := F)))) (offset limit : ℕ) :
    readMonolithic bs offset limit =
      .ok (page offset limit (lines.filterMap (lineEvent (F := F)))) := by
  unfold readMonolithic page
  rw [hlines]
  simp only [Except.bind]
  rw [entriesOf_objects h]
  simp only [Except.map, Except.ok.injEq]
  have hreverse : built (lines.filterMap (lineEvent (F := F))).reverse =
      (built (lines.filterMap lineEvent)).reverse := List.filterMap_reverse
  rw [hreverse]
  generalize built (lines.filterMap (lineEvent (F := F))) = es
  have hpage : (es.reverse.drop offset).take limit =
      (es.drop (es.length - (offset + limit))).reverse.drop offset := by
    rw [← List.take_reverse, List.drop_take, Nat.add_sub_cancel_left]
  have hlen : (es.drop (es.length - (offset + limit))).length ≤ offset + limit := by
    rw [List.length_drop]
    omega
  rw [hpage]
  generalize es.drop (es.length - (offset + limit)) = window at hlen ⊢
  split
  · next hfew =>
    rw [List.drop_of_length_le]
    rwa [List.length_reverse]
  · rw [show window.length - offset - limit = 0 by omega, List.drop_zero, Nat.sub_zero,
      List.reverse_take, show window.length - (window.length - offset) = offset by omega]

/-! ### The page -/

/-- How many of the newest objects make no entry. -/
def unbuilt (offset : ℕ) (events : List (PyVal F)) : ℕ :=
  (events.reverse.take offset).countP fun event => (build event).isNone

/-- The entries behind the newest objects. -/
def behind (offset : ℕ) (events : List (PyVal F)) : List (Entry F) :=
  built (events.reverse.drop offset)

omit [PyFloat F] in
theorem length_built (events : List (PyVal F)) :
    (built events).length + events.countP (fun event => (build event).isNone) = events.length := by
  induction events with
  | nil => rfl
  | cons event events ih =>
    rw [built, List.filterMap_cons, List.countP_cons, List.length_cons]
    rw [built] at ih
    cases build event with
    | none =>
      simp only [Option.isNone_none, if_true]
      omega
    | some entry =>
      simp only [Option.isNone_some, Bool.false_eq_true, if_false, List.length_cons]
      omega

omit [PyFloat F] in
/-- The page begins as many entries behind the newest objects as make none. -/
theorem page_eq (offset limit : ℕ) (events : List (PyVal F)) :
    page offset limit events = ((behind offset events).drop (unbuilt offset events)).take limit := by
  have hsplit : built events.reverse =
      built (events.reverse.take offset) ++ built (events.reverse.drop offset) := by
    rw [← built_append, List.take_append_drop]
  have hcount := length_built (events.reverse.take offset)
  rw [List.length_take] at hcount
  unfold page behind unbuilt
  rw [hsplit, List.drop_append, List.drop_of_length_le (by omega), List.nil_append]
  by_cases hlen : offset ≤ events.reverse.length
  · rw [show offset - (built (events.reverse.take offset)).length =
      (events.reverse.take offset).countP fun event => (build event).isNone by omega]
  · rw [List.drop_of_length_le (by omega : events.reverse.length ≤ offset)]
    simp [built]

/-- **Both readers give the page.** -/
def Paginates (fam : Family) (bs : List Byte) (offset limit : ℕ) (events : List (PyVal F)) : Prop :=
  readSegmented fam offset limit = .ok (page offset limit events) ∧
    readMonolithic bs offset limit = .ok (page offset limit events)

/-- **Readers of the same lines give the page exactly when** the limit is at least one and the
newest objects all make entries, or nothing behind them shows it. -/
theorem paginates_iff {fam : Family} {bs : List Byte} {texts : List (List PyStr)}
    (hfam : ((getSegmentFiles fam).mapM fun f => textLines f.2) = .ok texts)
    (hbs : textLines bs = .ok texts.flatten)
    (h : Objects (texts.flatten.filterMap (lineEvent (F := F)))) (offset limit : ℕ) :
    Paginates fam bs offset limit (texts.flatten.filterMap (lineEvent (F := F))) ↔
      (limit = 0 → behind offset (texts.flatten.filterMap (lineEvent (F := F))) = []) ∧
      (0 < limit → unbuilt offset (texts.flatten.filterMap (lineEvent (F := F))) = 0 ∨
        (behind offset (texts.flatten.filterMap (lineEvent (F := F)))).take limit =
          ((behind offset (texts.flatten.filterMap lineEvent)).drop
            (unbuilt offset (texts.flatten.filterMap (lineEvent (F := F))))).take limit) := by
  have hevents : iterShardEvents (F := F) fam = .ok (texts.flatten.filterMap lineEvent) := by
    rw [iterShardEvents, hfam]
    rfl
  rw [Paginates, readSegmented_page hevents h, readMonolithic_page hbs h, page_eq,
    and_iff_left rfl, Except.ok.injEq]
  change (behind offset _).take (max limit 1) = _ ↔ _
  rcases Nat.eq_zero_or_pos limit with rfl | hpos
  · rw [List.take_zero, List.take_eq_nil_iff]
    simp
  · rw [max_eq_left hpos]
    simp only [hpos.ne', false_imp_iff, true_and, hpos, true_imp_iff]
    constructor
    · exact .inr
    · rintro (hnone | hsame)
      · rw [hnone, List.drop_zero]
      · exact hsame

/-- A line with an entry. -/
def entryLine : PyStr := py "\x7b\"timestamp\": \"2026-01-02T03:04:05+00:00\"\x7d"

/-- A line with a later entry. -/
def laterLine : PyStr := py "\x7b\"timestamp\": \"2026-01-02T03:04:06+00:00\"\x7d"

/-- A line with an object that makes none. -/
def bareLine : PyStr := py "\x7b\x7d"

/-- The family of lines in one segment. -/
def familyOf (lines : List PyStr) : Family :=
  ⟨py "x", [(segmentName (py "x") 1, lines.flatMap lineBytes)], none⟩

/-- The lines of three entries, an object that makes none among them. -/
def sampleLines : List PyStr := [entryLine, laterLine, bareLine, entryLine]

/-- The page behind the newest entry and the object that makes none. -/
theorem paginates_sample :
    Paginates (familyOf sampleLines) (sampleLines.flatMap lineBytes) 1 2
      ([sampleLines ++ [[]]].flatten.filterMap (lineEvent (F := FloatLit))) :=
  (paginates_iff (by decide +kernel) (by decide +kernel) (by decide +kernel) 1 2).mpr
    ⟨fun h => (nomatch h), fun _ => .inl (by decide +kernel)⟩

/-- A limit of none, and an object that makes no entry among those passed over. -/
theorem pages_differ :
    readSegmented (F := FloatLit) (familyOf [entryLine]) 0 0 ≠
      readMonolithic (lineBytes entryLine) 0 0 ∧
    readSegmented (F := FloatLit) (familyOf [entryLine, bareLine]) 1 1 ≠
      readMonolithic (lineBytes entryLine ++ lineBytes bareLine) 1 1 := by
  decide +kernel

end Daryl
