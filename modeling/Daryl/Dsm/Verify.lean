import Daryl.Dsm.Storage
import Daryl.Lib.HashChain

/-!
# Verification

`verify_shard` of `verify.py`: one pass over the entries of a shard, which checks
each hash and each link, and then a comparison with the integrity pin.

## Main definitions

* `checkChain` — the pass.
* `checkPin` — the comparison with the pin.
* `verifyShard` — the report.
* `Consistent` — every hash verifies and every entry names the one before it.

## Main results

* `checkChain_iff` — **the pass finds nothing iff the entries are consistent.**
* `status_eq_ok_iff` — when the report says `OK`.
-/

namespace Daryl

open Py Json HashChain

/-- `VerifyStatus`. -/
inductive VerifyStatus
  | ok
  | tampered
  | chainBroken
  deriving DecidableEq

/-- `pin_status`. -/
inductive PinStatus
  | pinnedOk
  | unpinned
  | tipMismatch
  | aheadOfPin
  deriving DecidableEq

/-- `mismatch_type`. -/
inductive MismatchType
  | truncation
  | countMismatch
  | tipMismatch
  deriving DecidableEq

variable {F : Type} [PyFloat F]

/-! ### The pass over the entries -/

/-- The counters of the pass and the hash to link to. -/
structure Chain (F : Type) where
  verified : ℕ
  tampered : ℕ
  chainBreaks : ℕ
  prevHash : PyVal F

/-- The counters before the first entry. -/
def Chain.start : Chain F := ⟨0, 0, 0, .none⟩

/-- `hash_ok`: an entry without a hash fails, and so does one that does not
serialise. -/
def hashOk (sha : Sha256) (entry : Entry F) : Bool :=
  entry.hash.truthy &&
    match verifyHash sha (buildCanonicalEntry entry entry.prevHash) entry.hash with
    | .ok b => b
    | .error _ => false

/-- `chain_ok`. -/
def Chain.linkOk (c : Chain F) (entry : Entry F) : Bool :=
  (c.prevHash.isNone && entry.prevHash.isNone) ||
    (!c.prevHash.isNone && pyEq entry.prevHash c.prevHash)

/-- One round of the loop. -/
def Chain.step (sha : Sha256) (c : Chain F) (entry : Entry F) : Chain F where
  verified := if c.linkOk entry && hashOk sha entry then c.verified + 1 else c.verified
  tampered := if hashOk sha entry then c.tampered else c.tampered + 1
  chainBreaks := if !c.prevHash.isNone && !c.linkOk entry then c.chainBreaks + 1 else c.chainBreaks
  prevHash := if entry.hash.truthy then entry.hash else c.prevHash

/-- The loop. -/
def checkChain (sha : Sha256) (entries : List (Entry F)) : Chain F :=
  entries.foldl (Chain.step sha) .start

/-! ### The comparison with the pin -/

/-- What the comparison finds. -/
structure PinCheck where
  pinStatus : PinStatus
  chainTipMismatch : Bool
  entryCountMismatch : Bool
  truncationDetected : Bool
  mismatchType : Option MismatchType
  warnings : List PyStr

/-- The warning of a shard without a pin. -/
def unpinnedWarning : PyStr :=
  py "UNPINNED_SHARD: no integrity pin found; append-only completeness " ++
    py "(truncation resistance) cannot be verified for this shard"

/-- The warning of a shard that runs ahead of its pin. -/
def aheadWarning : PyStr :=
  py "AHEAD_OF_PIN: segment holds more entries than the pin; " ++
    py "run reconcile_shard() to advance the pin"

/-- The completeness check: the tip and the count against the pinned ones. -/
def checkPin (expectedLastHash : PyVal F) (expectedEntryCount : Option ℕ)
    (observedLastHash : PyVal F) (observedEntryCount : ℕ) : PinCheck :=
  if expectedLastHash.truthy then
    let tipMismatch := !pyEq observedLastHash expectedLastHash
    match expectedEntryCount with
    | some n =>
      let countMismatch := observedEntryCount != n
      if observedEntryCount < n then
        ⟨.tipMismatch, tipMismatch, countMismatch, true, some .truncation, []⟩
      else if n < observedEntryCount then
        ⟨.aheadOfPin, tipMismatch, countMismatch, false, none, [aheadWarning]⟩
      else if tipMismatch then
        ⟨.tipMismatch, tipMismatch, countMismatch, false,
          some (if countMismatch then .countMismatch else .tipMismatch), []⟩
      else ⟨.pinnedOk, tipMismatch, countMismatch, false, none, []⟩
    | none =>
      if tipMismatch then ⟨.tipMismatch, tipMismatch, false, false, some .tipMismatch, []⟩
      else ⟨.pinnedOk, tipMismatch, false, false, none, []⟩
  else ⟨.unpinned, false, false, false, none, [unpinnedWarning]⟩

/-! ### The report -/

/-- The report of `verify_shard`. -/
structure Report (F : Type) where
  shardId : PyStr
  totalEntries : ℕ
  verified : ℕ
  tampered : ℕ
  chainBreaks : ℕ
  status : VerifyStatus
  pinStatus : PinStatus
  expectedLastHash : PyVal F
  observedLastHash : PyVal F
  expectedEntryCount : Option ℕ
  observedEntryCount : ℕ
  chainTipMismatch : Bool
  entryCountMismatch : Bool
  truncationDetected : Bool
  mismatchType : Option MismatchType
  warnings : List PyStr

/-- `entries_chrono`. -/
def chronoEntries (fam : Family) : Except PyError (List (Entry F)) :=
  (iterShardEvents fam).bind entriesOf

/-- **What a directory holds is read newest first.** -/
theorem readSegmented_chrono {fam : Family} {ds : List (Entry F)} (h : chronoEntries fam = .ok ds)
    (limit : ℕ) : readSegmented fam 0 limit = .ok (ds.reverse.take (max limit 1)) := by
  unfold chronoEntries at h
  cases hevents : iterShardEvents (F := F) fam with
  | error err =>
    rw [hevents] at h
    cases h
  | ok events =>
    rw [hevents] at h
    exact readSegmented_events hevents h limit

/-- The hash of the last entry. -/
def tip (entries : List (Entry F)) : PyVal F := (entries.getLast?.map Entry.hash).getD .none

/-- The verdict. -/
def verdict (tampered chainBreaks : ℕ) (pinStatus : PinStatus) : VerifyStatus :=
  if 0 < tampered then .tampered
  else if 0 < chainBreaks then .chainBroken
  else if pinStatus = .tipMismatch then .tampered
  else .ok

/-- The report on a sequence of entries. -/
def report (sha : Sha256) (shardId : PyStr) (pin : PinFile F) (entries : List (Entry F)) :
    Report F :=
  let chain := checkChain sha entries
  let expectedLastHash := getLastHash pin
  let expectedEntryCount := pin.read.bind Pin.entryCount
  let check := checkPin expectedLastHash expectedEntryCount (tip entries) entries.length
  { shardId
    totalEntries := entries.length
    verified := chain.verified
    tampered := chain.tampered
    chainBreaks := chain.chainBreaks
    status := verdict chain.tampered chain.chainBreaks check.pinStatus
    pinStatus := check.pinStatus
    expectedLastHash
    observedLastHash := tip entries
    expectedEntryCount
    observedEntryCount := entries.length
    chainTipMismatch := check.chainTipMismatch
    entryCountMismatch := check.entryCountMismatch
    truncationDetected := check.truncationDetected
    mismatchType := check.mismatchType
    warnings := check.warnings }

/-- `verify_shard`. -/
def verifyShard (sha : Sha256) (shardId : PyStr) (s : Shard F) : Except PyError (Report F) :=
  (chronoEntries s.family).map (report sha shardId s.pin)

omit [PyFloat F] in
/-- Part of a report says that there is one. -/
theorem exists_report {α : Type} {x : Except PyError (Report F)} {f : Report F → α} {a : α}
    (h : x.map f = .ok a) : ∃ r, x = .ok r ∧ f r = a := by
  cases x with
  | error e => cases h
  | ok r => exact ⟨r, rfl, Except.ok.inj h⟩

theorem verifyShard_eq_ok {sha : Sha256} {shardId : PyStr} {s : Shard F} {r : Report F} :
    verifyShard sha shardId s = .ok r ↔
      ∃ ds, chronoEntries s.family = .ok ds ∧ r = report sha shardId s.pin ds := by
  unfold verifyShard
  cases chronoEntries (F := F) s.family with
  | error e => simp [Except.map]
  | ok ds => simp [Except.map, eq_comm]

/-! ### Consistency -/

/-- Every hash verifies, and every entry but the first names the hash of the one
before it. -/
structure Consistent (sha : Sha256) (entries : List (Entry F)) : Prop where
  hashes : ∀ e ∈ entries, hashOk sha e = true
  linked : Linked Entry.hash Entry.prevHash entries

theorem hashOk_iff {sha : Sha256} {e : Entry F} : hashOk sha e = true ↔
    e.hash.truthy = true ∧ ∃ bs, canonicalJson (buildCanonicalEntry e e.prevHash) = .ok bs ∧
      (e.hash = .str (v1Prefix ++ hexdigest sha bs) ∨ e.hash = .str (hexdigest sha bs)) := by
  rw [← verifyHash_iff, hashOk, Bool.and_eq_true]
  cases verifyHash sha (buildCanonicalEntry e e.prevHash) e.hash <;> simp

/-- A hash that verifies is a string. -/
theorem exists_str_of_hashOk {sha : Sha256} {e : Entry F} (h : hashOk sha e = true) :
    ∃ s, e.hash = .str s := by
  obtain ⟨-, bs, -, h | h⟩ := hashOk_iff.mp h
  · exact ⟨_, h⟩
  · exact ⟨_, h⟩

theorem consistent_concat {sha : Sha256} {es : List (Entry F)} {e : Entry F} :
    Consistent sha (es ++ [e]) ↔
      Consistent sha es ∧ hashOk sha e = true ∧ ∀ x ∈ es.getLast?, e.prevHash = x.hash := by
  constructor
  · rintro ⟨hh, hl⟩
    have hl := linked_concat.mp hl
    exact ⟨⟨fun x hx => hh x (by simp [hx]), hl.1⟩, hh e (by simp), hl.2⟩
  · rintro ⟨⟨hh, hl⟩, he, hlink⟩
    refine ⟨fun x hx => ?_, linked_concat.mpr ⟨hl, hlink⟩⟩
    rcases List.mem_append.mp hx with hx | hx
    · exact hh x hx
    · rw [List.mem_singleton] at hx
      exact hx ▸ he

theorem checkChain_concat (sha : Sha256) (es : List (Entry F)) (e : Entry F) :
    checkChain sha (es ++ [e]) = (checkChain sha es).step sha e := by
  rw [checkChain, List.foldl_append]
  rfl

/-- After consistent entries the pass links to the tip. -/
theorem prevHash_checkChain {sha : Sha256} {es : List (Entry F)}
    (h : ∀ e ∈ es, hashOk sha e = true) : (checkChain sha es).prevHash = tip es := by
  rcases List.eq_nil_or_concat es with rfl | ⟨es, e, rfl⟩
  · rfl
  · have htruthy := (hashOk_iff.mp (h e (by simp))).1
    rw [List.concat_eq_append, checkChain_concat]
    simp [Chain.step, htruthy, tip]

/-- The tip of consistent entries is a string, unless there is none. -/
theorem tip_of_hashOk {sha : Sha256} {es : List (Entry F)} (h : ∀ e ∈ es, hashOk sha e = true) :
    es = [] ∨ ∃ e s, es.getLast? = some e ∧ e.hash = .str s ∧ tip es = .str s := by
  rcases List.eq_nil_or_concat es with rfl | ⟨es, e, rfl⟩
  · exact .inl rfl
  · obtain ⟨s, hs⟩ := exists_str_of_hashOk (h e (by simp))
    exact .inr ⟨e, s, by simp, hs, by simp [tip, hs]⟩

/-- **The pass finds nothing iff the entries are consistent.** -/
theorem checkChain_iff {sha : Sha256} {es : List (Entry F)} :
    (checkChain sha es).tampered = 0 ∧ (checkChain sha es).chainBreaks = 0 ↔
      Consistent sha es := by
  induction es using List.reverseRecOn with
  | nil => exact iff_of_true ⟨rfl, rfl⟩ ⟨by simp, linked_nil⟩
  | append_singleton es e ih =>
    rw [checkChain_concat, consistent_concat, ← ih]
    by_cases hprev : (checkChain sha es).tampered = 0 ∧ (checkChain sha es).chainBreaks = 0
    · have hcons := ih.mp hprev
      have hlink : (!(checkChain sha es).prevHash.isNone && !(checkChain sha es).linkOk e) = false ↔
          ∀ x ∈ es.getLast?, e.prevHash = x.hash := by
        rw [Chain.linkOk, prevHash_checkChain hcons.hashes]
        rcases tip_of_hashOk hcons.hashes with rfl | ⟨x, s, hx, hs, ht⟩
        · simp [tip, PyVal.isNone]
        · rw [ht, hx]
          simp [PyVal.isNone, hs]
      simp only [Chain.step]
      rw [← hlink]
      cases hashOk sha e <;>
        cases (!(checkChain sha es).prevHash.isNone && !(checkChain sha es).linkOk e) <;>
          simp [hprev]
    · -- what was counted stays counted
      refine iff_of_false ?_ fun h => hprev h.1
      rintro ⟨ht, hb⟩
      apply hprev
      simp only [Chain.step] at ht hb
      constructor
      · split_ifs at ht
        omega
      · split_ifs at hb
        omega

/-- Consistent entries whose first names nothing are all counted as verified. -/
theorem verified_checkChain {sha : Sha256} {es : List (Entry F)} (h : Consistent sha es)
    (hfirst : ∀ e ∈ es.head?, e.prevHash = .none) :
    (checkChain sha es).verified = es.length := by
  induction es using List.reverseRecOn with
  | nil => rfl
  | append_singleton es e ih =>
    obtain ⟨hcons, he, hlink⟩ := consistent_concat.mp h
    have hok : (checkChain sha es).linkOk e = true := by
      rw [Chain.linkOk, prevHash_checkChain hcons.hashes]
      rcases tip_of_hashOk hcons.hashes with rfl | ⟨x, s, hx, hs, ht⟩
      · simp [tip, PyVal.isNone, hfirst e (by simp)]
      · simp [ht, PyVal.isNone, hlink x hx, hs]
    have hfirst' : ∀ x ∈ es.head?, x.prevHash = .none := by
      intro x hx
      exact hfirst x (by rw [List.head?_append, hx]; rfl)
    rw [checkChain_concat, List.length_append, ← ih hcons hfirst']
    simp [Chain.step, hok, he]

/-! ### When the report says `OK` -/

theorem verdict_eq_ok_iff {tampered chainBreaks : ℕ} {pinStatus : PinStatus} :
    verdict tampered chainBreaks pinStatus = .ok ↔
      (tampered = 0 ∧ chainBreaks = 0) ∧ pinStatus ≠ .tipMismatch := by
  unfold verdict
  split_ifs with ht hb hp
  · simp
    omega
  · simp
    omega
  · simp [hp]
  · simp [hp]
    omega

/-- **The report says `OK` iff the entries are consistent and the pin does not
object.** -/
theorem status_eq_ok_iff {sha : Sha256} {shardId : PyStr} {pin : PinFile F}
    {es : List (Entry F)} : (report sha shardId pin es).status = .ok ↔
      Consistent sha es ∧ (report sha shardId pin es).pinStatus ≠ .tipMismatch := by
  rw [← checkChain_iff]
  exact verdict_eq_ok_iff

/-- The pin objects to a shorter shard, lets a longer one pass, and compares the
tip at equal length. -/
theorem checkPin_eq_tipMismatch_iff {h observed : PyVal F} {n m : ℕ} (hh : h.truthy = true) :
    (checkPin h (some n) observed m).pinStatus = .tipMismatch ↔
      m < n ∨ m = n ∧ pyEq observed h = false := by
  rw [checkPin, if_pos hh]
  rcases lt_trichotomy m n with hlt | rfl | hlt
  · simp [hlt]
  · cases pyEq observed h <;> simp
  · simp [hlt, hlt.not_gt, hlt.ne']

/-- The pin is met iff the count and the tip are. -/
theorem checkPin_eq_pinnedOk_iff {h observed : PyVal F} {n m : ℕ} (hh : h.truthy = true) :
    (checkPin h (some n) observed m).pinStatus = .pinnedOk ↔
      m = n ∧ pyEq observed h = true := by
  rw [checkPin, if_pos hh]
  rcases lt_trichotomy m n with hlt | rfl | hlt
  · simp [hlt, hlt.ne]
  · cases pyEq observed h <;> simp
  · simp [hlt, hlt.not_gt, hlt.ne']

end Daryl
