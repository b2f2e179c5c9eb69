import Daryl.Dsm.Enumeration
import Daryl.Dsm.Pagination
import Daryl.Lib.Binary64

/-!
# `dsm.coverage`: does an index cover the log?

The entries of shards are looked up in an index of ids and hashes.  What is missing is
counted, and listed up to a limit.  A shard is read up to a hundred thousand entries, and the
status is taken from a percentage that is computed with doubles and rounded to two decimals.

## Main definitions

* `scan`, `scanShards` — the entries looked up, and shard after shard.
* `coveragePercent`, `coverageStatus` — the percentage and the status.
* `checkCoverage` — `check_coverage`.
* `Exact` — what a report should say.
* `Coverable` — what makes it say that.

## Main results

* `coveragePercent_eq_hundred` — **the percentage is 100 when more than about 0.99995 of the
  entries are there.**
* `scan_iff` — what a scan counts and lists.
* `checkCoverage_exact_iff` — **the report is exact iff no old entry is missing, all the entries
  can be looked up and told of, and none or enough are missing.**
-/

namespace Daryl

open Py Json Binary64

/-! ### Looking entries up -/

/-- `CoverageGap`. -/
structure CoverageGap (F : Type) where
  entryId : PyVal F
  shardId : PyStr
  timestamp : PyStr
  contentPreview : PyVal F
  entryHash : PyVal F
  eventType : PyVal F
  sessionId : PyVal F

variable {F : Type}

/-- `to_dict`. -/
def CoverageGap.toDict (g : CoverageGap F) : PyVal F :=
  .dict (strItems [
    (py "entry_id", g.entryId),
    (py "shard_id", .str g.shardId),
    (py "timestamp", .str g.timestamp),
    (py "content_preview", g.contentPreview),
    (py "entry_hash", g.entryHash),
    (py "event_type", g.eventType),
    (py "session_id", g.sessionId)])

/-- An index: the ids and the hashes in it. -/
structure CoverageIndex (F : Type) where
  ids : List (PyVal F)
  hashes : List (PyVal F)

/-- The counts of a scan, and the gaps it lists. -/
structure Scan (F : Type) where
  total : ℕ
  indexed : ℕ
  gaps : List (CoverageGap F)
  truncated : Bool

/-- The counts of a shard. -/
structure ShardCoverage where
  total : ℕ
  indexed : ℕ
  missing : ℕ

/-- The statuses. -/
inductive CoverageStatus
  | fullyCovered
  | partialCoverage
  | criticalGaps
  | noIndex
  deriving DecidableEq

/-- The report. -/
structure CoverageReport (F : Type) where
  totalEntries : ℕ
  indexedEntries : ℕ
  missingEntries : ℕ
  coveragePercent : ℚ
  gaps : List (PyVal F)
  gapsTruncated : Bool
  shardsChecked : ℕ
  perShard : List (PyStr × ShardCoverage)
  status : CoverageStatus

/-- `round(indexed / total * 100, 2)`, and nothing of nothing. -/
def coveragePercent (indexed total : ℕ) : ℚ :=
  if 0 < total then roundDigits 2 (binary64 (binary64 (indexed / total) * 100)) else 0

/-- The status of counts. -/
def coverageStatus (indexed total : ℕ) : CoverageStatus :=
  if total = 0 then .fullyCovered
  else if coveragePercent indexed total = 100 then .fullyCovered
  else if 95 ≤ coveragePercent indexed total then .partialCoverage
  else .criticalGaps

variable [PyFloat F]

/-- `(entry.content or "")[:120]`. -/
def previewOf (content : PyVal F) : Except PyError (PyVal F) :=
  match content.orText with
  | .str s => .ok (.str (s.take 120))
  | .list vs => .ok (.list (vs.take 120))
  | .tuple vs => .ok (.tuple (vs.take 120))
  | _ => .error .typeError

/-- The gap of an entry. -/
def gapOf (shardId : PyStr) (entry : Entry F) : Except PyError (CoverageGap F) :=
  match previewOf entry.content with
  | .error e => .error e
  | .ok contentPreview =>
    match entry.metadata with
    | .dict kvs => .ok {
        entryId := entry.id
        shardId := shardId
        timestamp := entry.timestamp.isoformat
        contentPreview := contentPreview
        entryHash := entry.hash
        eventType := (dictGet (py "event_type") kvs).getD (.str (py "unknown"))
        sessionId := entry.sessionId }
    | _ => .error .attributeError

/-- `entry.id in indexed_ids or entry.hash in indexed_hashes`. -/
def CoverageIndex.lookup (index : CoverageIndex F) (entry : Entry F) : Except PyError Bool :=
  if entry.id.hashes then
    if pyIn entry.id index.ids then .ok true
    else if entry.hash.hashes then .ok (pyIn entry.hash index.hashes)
    else .error .typeError
  else .error .typeError

/-- One entry of a shard. -/
def scanEntry (index : CoverageIndex F) (maxGaps : ℤ) (st : Scan F) (p : PyStr × Entry F) :
    Except PyError (Scan F) :=
  match index.lookup p.2 with
  | .error e => .error e
  | .ok true => .ok { st with total := st.total + 1, indexed := st.indexed + 1 }
  | .ok false =>
    if st.gaps.length < maxGaps then
      (gapOf p.1 p.2).map fun gap => { st with total := st.total + 1, gaps := st.gaps ++ [gap] }
    else .ok { st with total := st.total + 1, truncated := true }

/-- The entries of a shard. -/
def scan (index : CoverageIndex F) (maxGaps : ℤ) (st : Scan F) (ps : List (PyStr × Entry F)) :
    Except PyError (Scan F) := ps.foldlM (scanEntry index maxGaps) st

/-- The loop over the shards, with what a shard is read up to; what was indexed in a shard is
what the count grew by. -/
def scanShards (limit : ℕ) (d : Disk F) (index : CoverageIndex F) (maxGaps : ℤ) :
    List PyStr → Scan F → List (PyStr × ShardCoverage) →
      Except PyError (Scan F × List (PyStr × ShardCoverage))
  | [], st, perShard => .ok (st, perShard)
  | shardId :: shardIds, st, perShard =>
    match d.read shardId 0 limit with
    | .error e => .error e
    | .ok entries =>
      match scan index maxGaps st (entries.reverse.map fun e => (shardId, e)) with
      | .error e => .error e
      | .ok st' =>
        let indexed := st'.indexed - st.indexed
        scanShards limit d index maxGaps shardIds st'
          (Dict.set shardId ⟨entries.length, indexed, entries.length - indexed⟩ perShard)

/-- The shards that are checked: all of them unless some are asked for. -/
def checkedShards (now mtime : Datetime) (d : Disk F) : Option (List PyStr) → Except PyError (List PyStr)
  | some shardIds => .ok shardIds
  | none => (listShards now mtime d).map (List.map ShardMeta.shardId)

/-- The report without an index. -/
def noIndexReport (F : Type) : CoverageReport F := ⟨0, 0, 0, 0, [], false, 0, [], .noIndex⟩

/-- The body of `check_coverage`, with what a shard is read up to. -/
def coverageUpTo (limit : ℕ) (now mtime : Datetime) (d : Disk F)
    (indexedIds indexedHashes : Option (List (PyVal F))) (shardIds : Option (List PyStr)) (maxGaps : ℤ) : Except PyError (CoverageReport F) :=
  if indexedIds.isNone ∧ indexedHashes.isNone then .ok (noIndexReport F)
  else
    match checkedShards now mtime d shardIds with
    | .error e => .error e
    | .ok shardIds =>
      (scanShards limit d ⟨indexedIds.getD [], indexedHashes.getD []⟩ maxGaps shardIds ⟨0, 0, [], false⟩ []).map
        fun r => {
          totalEntries := r.1.total
          indexedEntries := r.1.indexed
          missingEntries := r.1.total - r.1.indexed
          coveragePercent := coveragePercent r.1.indexed r.1.total
          gaps := r.1.gaps.map CoverageGap.toDict
          gapsTruncated := r.1.truncated
          shardsChecked := shardIds.length
          perShard := r.2
          status := coverageStatus r.1.indexed r.1.total }

/-- `check_coverage`. -/
def checkCoverage (now mtime : Datetime) (d : Disk F) (indexedIds indexedHashes : Option (List (PyVal F)))
    (shardIds : Option (List PyStr)) (maxGaps : ℤ) : Except PyError (CoverageReport F) :=
  coverageUpTo 100000 now mtime d indexedIds indexedHashes shardIds maxGaps

/-! ### What a report should say -/

/-- An entry is in the index. -/
def CoverageIndex.Has (index : CoverageIndex F) (entry : Entry F) : Prop :=
  pyIn entry.id index.ids = true ∨ pyIn entry.hash index.hashes = true

instance (index : CoverageIndex F) (entry : Entry F) : Decidable (index.Has entry) := by
  unfold CoverageIndex.Has
  infer_instance

/-- The entries that are not in the index. -/
def CoverageIndex.missing (index : CoverageIndex F) (ps : List (PyStr × Entry F)) :
    List (PyStr × Entry F) := ps.filter fun p => ¬index.Has p.2

/-- A dict that tells of an entry. -/
def TellsOf (p : PyStr × Entry F) (v : PyVal F) : Prop := ∃ gap, gapOf p.1 p.2 = .ok gap ∧ v = gap.toDict

/-- The report says of entries what is true: the status is full iff all are in the index, the
missing ones are counted, as many of them as the limit lets through are listed, and `truncated`
tells whether some are not. -/
structure Exact (index : CoverageIndex F) (maxGaps : ℤ) (entries : List (PyStr × Entry F))
    (report : CoverageReport F) : Prop where
  status : report.status = .fullyCovered ↔ ∀ p ∈ entries, index.Has p.2
  missing : report.missingEntries = (index.missing entries).length
  gaps : ∃ listed, listed.Sublist (index.missing entries) ∧
    (listed.length : ℤ) = min ((index.missing entries).length : ℤ) maxGaps ∧
    List.Forall₂ TellsOf listed report.gaps
  truncated : report.gapsTruncated = true ↔ report.gaps.length < (index.missing entries).length

/-! ### When the percentage is 100 -/

theorem binary64_one : binary64 1 = 1 := by
  have hplace : lastPlace 1 = 0 - 52 := lastPlace_of_binade (by norm_num) (by norm_num) (by norm_num)
  have hint : (1 : ℚ) / 2 ^ (0 - 52 : ℤ) = ((2 ^ 52 : ℤ) : ℚ) := by norm_num
  rw [binary64, hplace, hint, roundHalfEven_intCast]
  norm_num

theorem binary64_hundred : binary64 100 = 100 := by
  have hplace : lastPlace 100 = 6 - 52 := lastPlace_of_binade (by norm_num) (by norm_num) (by norm_num)
  have hint : (100 : ℚ) / 2 ^ (6 - 52 : ℤ) = ((100 * 2 ^ 46 : ℤ) : ℚ) := by norm_num
  rw [binary64, hplace, hint, roundHalfEven_intCast]
  norm_num

/-- The ratio, as a double, is at most one. -/
theorem binary64_le_one {q : ℚ} (h0 : 0 ≤ q) (h1 : q ≤ 1) : binary64 q ≤ 1 := by
  rcases h1.lt_or_eq with h | rfl
  · have hle := binary64_le (j := 0) (by norm_num) h0 (by simpa using h)
    simpa using hle
  · exact binary64_one.le

/-- The ratio, as a double, reaches the place where the percentage changes. -/
theorem le_binary64_ratio {q : ℚ} (h0 : 0 ≤ q) (h1 : q ≤ 1) :
    (14073045148091023 / 2 ^ 47 / 100 : ℚ) ≤ binary64 q ↔ (18013497789556509 : ℚ) < 2 ^ 54 * q := by
  rcases h1.lt_or_eq with h | rfl
  · rw [le_binary64 (j := -1) (by norm_num) h0 (by simpa using h) (by norm_num)]
    have hceil : ⌈(14073045148091023 / 2 ^ 47 / 100 : ℚ) / 2 ^ (-1 - 52 : ℤ)⌉ = 9006748894778255 := by
      rw [Int.ceil_eq_iff]
      norm_num
    rw [hceil, le_roundHalfEven]
    have hodd : ¬Even (9006748894778255 : ℤ) := by decide
    have hscale : q / 2 ^ (-1 - 52 : ℤ) = 2 ^ 53 * q := by
      rw [show (2 : ℚ) ^ (-1 - 52 : ℤ) = 1 / 2 ^ 53 by norm_num]
      ring
    rw [hscale]
    constructor
    · rintro (h' | ⟨-, h'⟩)
      · push_cast at h'
        linarith
      · exact absurd h' hodd
    · intro h'
      refine .inl ?_
      push_cast
      linarith
  · rw [binary64_one]
    norm_num

/-- The percentage, as a double, reaches what is rounded to 100. -/
theorem le_binary64_percent {p : ℚ} (h0 : 0 ≤ p) (h1 : p ≤ 1) :
    (99995 / 1000 : ℚ) ≤ binary64 (p * 100) ↔ (14073045148091023 / 2 ^ 47 / 100 : ℚ) ≤ p := by
  rw [le_binary64 (j := 6) (by norm_num) (by linarith) (by norm_num; linarith) (by norm_num)]
  have hceil : ⌈(99995 / 1000 : ℚ) / 2 ^ (6 - 52 : ℤ)⌉ = 7036522574045512 := by
    rw [Int.ceil_eq_iff]
    norm_num
  have heven : Even (7036522574045512 : ℤ) := by decide
  have hscale : p * 100 / 2 ^ (6 - 52 : ℤ) = 2 ^ 46 * (p * 100) := by
    rw [show (2 : ℚ) ^ (6 - 52 : ℤ) = 1 / 2 ^ 46 by norm_num]
    ring
  rw [hceil, le_roundHalfEven, hscale]
  constructor
  · rintro (h | ⟨h, -⟩)
    · push_cast at h
      linarith
    · push_cast at h
      linarith
  · intro h
    push_cast
    rcases h.lt_or_eq with h | h
    · exact .inl (by linarith)
    · exact .inr ⟨by linarith, heven⟩

/-- The percentage, as a double, is hardly more than 100. -/
theorem binary64_percent_le {p : ℚ} (h0 : 0 ≤ p) (h1 : p ≤ 1) : binary64 (p * 100) ≤ 100 + 1 / 1000 :=
  (binary64_lt (j := 6) (by norm_num) (by linarith) (by norm_num; linarith) (by norm_num)
    (by norm_num; linarith)).le

/-- What is rounded to 100.00. -/
theorem roundDigits_eq_hundred {x : ℚ} (h0 : 0 ≤ x) (h1 : x ≤ 100 + 1 / 1000) :
    roundDigits 2 x = 100 ↔ 99995 / 1000 ≤ x := by
  have hreach : 10000 ≤ roundHalfEven (x * 10 ^ 2) ↔ 99995 / 1000 ≤ x := by
    rw [le_roundHalfEven]
    have heven : Even (10000 : ℤ) := by decide
    push_cast
    constructor
    · rintro (h | ⟨h, -⟩) <;> linarith
    · intro h
      rcases h.lt_or_eq with h | h
      · exact .inl (by linarith)
      · exact .inr ⟨by linarith, heven⟩
  have hmost : roundHalfEven (x * 10 ^ 2) ≤ 10000 := by
    by_contra h
    have hle : 10001 ≤ roundHalfEven (x * 10 ^ 2) := by omega
    rw [le_roundHalfEven] at hle
    push_cast at hle
    rcases hle with h | ⟨h, -⟩ <;> linarith
  have hleast : 0 ≤ roundHalfEven (x * 10 ^ 2) := by
    rw [le_roundHalfEven]
    push_cast
    exact .inl (by linarith)
  rw [← hreach, roundDigits]
  constructor
  · intro hround
    by_contra hless
    -- a hundredth less is not the same double
    have hr : (roundHalfEven (x * 10 ^ 2) : ℚ) ≤ 9999 := by
      have : roundHalfEven (x * 10 ^ 2) ≤ 9999 := by omega
      exact_mod_cast this
    have hr0 : (0 : ℚ) ≤ roundHalfEven (x * 10 ^ 2) := by exact_mod_cast hleast
    have hq : (roundHalfEven (x * 10 ^ 2) : ℚ) / 10 ^ 2 ≤ 9999 / 100 := by
      rw [div_le_iff₀ (by norm_num)]
      exact hr.trans (by norm_num)
    refine (binary64_lt (j := 6) (c := 100) (by norm_num) (by positivity) ?_ (by norm_num) ?_).ne hround
    · exact hq.trans_lt (by norm_num)
    · refine lt_of_le_of_lt (add_le_add_left hq _) ?_
      norm_num
  · intro h
    rw [le_antisymm hmost h]
    norm_num
    exact binary64_hundred

/-- **When the percentage is 100**: all but one in twenty thousand are there, to within what a
double tells apart. -/
theorem coveragePercent_eq_hundred {indexed total : ℕ} (ht : 0 < total) (hi : indexed ≤ total) :
    coveragePercent indexed total = 100 ↔ 18013497789556509 * total < 2 ^ 54 * indexed := by
  have ht' : (0 : ℚ) < total := by exact_mod_cast ht
  have hq0 : (0 : ℚ) ≤ indexed / total := by positivity
  have hq1 : (indexed : ℚ) / total ≤ 1 := by
    rw [div_le_one ht']
    exact_mod_cast hi
  have hp0 := binary64_nonneg hq0
  have hp1 := binary64_le_one hq0 hq1
  rw [coveragePercent, if_pos ht, roundDigits_eq_hundred (binary64_nonneg (by linarith))
    (binary64_percent_le hp0 hp1), le_binary64_percent hp0 hp1, le_binary64_ratio hq0 hq1,
    ← mul_div_assoc, lt_div_iff₀ ht']
  exact_mod_cast Iff.rfl
/-- **When the status is full**: nothing was read, or enough of it is there. -/
theorem coverageStatus_full {indexed total : ℕ} (h : indexed ≤ total) :
    coverageStatus indexed total = .fullyCovered ↔
      total = 0 ∨ 18013497789556509 * total < 2 ^ 54 * indexed := by
  unfold coverageStatus
  split_ifs with hzero hfull hmost
  · exact iff_of_true rfl (.inl hzero)
  · exact iff_of_true rfl (.inr ((coveragePercent_eq_hundred (Nat.pos_of_ne_zero hzero) h).mp hfull))
  all_goals
    refine iff_of_false (fun h => by cases h) ?_
    rintro (h' | h')
    · exact hzero h'
    · exact hfull ((coveragePercent_eq_hundred (Nat.pos_of_ne_zero hzero) h).mpr h')

/-! ### What a scan counts and lists -/

/-- An entry can be looked up: its id has a hash, and its hash has one where the id is not in
the index. -/
def CoverageIndex.Finds (index : CoverageIndex F) (entry : Entry F) : Prop :=
  entry.id.hashes = true ∧ (pyIn entry.id index.ids = true ∨ entry.hash.hashes = true)

/-- An entry can be told of: its content is nothing or can be cut, and its metadata is a dict. -/
def Tellable (entry : Entry F) : Prop :=
  (∃ v, previewOf entry.content = .ok v) ∧ ∃ kvs, entry.metadata = .dict kvs

variable {index : CoverageIndex F} {maxGaps : ℤ}

theorem exists_gapOf {shardId : PyStr} {entry : Entry F} :
    (∃ gap, gapOf shardId entry = .ok gap) ↔ Tellable entry := by
  unfold gapOf Tellable
  cases hpreview : previewOf entry.content with
  | error e =>
    exact iff_of_false (fun ⟨_, h⟩ => by cases h) fun ⟨⟨_, h⟩, _⟩ => by cases h
  | ok v =>
    cases hmeta : entry.metadata with
    | dict kvs => exact iff_of_true ⟨_, rfl⟩ ⟨⟨v, rfl⟩, kvs, rfl⟩
    | _ => exact iff_of_false (fun ⟨_, h⟩ => by cases h) fun ⟨_, _, h⟩ => by cases h

theorem lookup_iff {entry : Entry F} {b : Bool} :
    index.lookup entry = .ok b ↔ index.Finds entry ∧ (b = true ↔ index.Has entry) := by
  unfold CoverageIndex.lookup CoverageIndex.Finds CoverageIndex.Has
  by_cases hid : entry.id.hashes = true
  · rw [if_pos hid]
    by_cases hin : pyIn entry.id index.ids = true
    · rw [if_pos hin, Except.ok.injEq]
      cases b <;> simp [hid, hin]
    · rw [if_neg hin]
      by_cases hhash : entry.hash.hashes = true
      · rw [if_pos hhash, Except.ok.injEq]
        cases b <;> cases pyIn entry.hash index.hashes <;> simp [hid, hin, hhash]
      · rw [if_neg hhash]
        simp [hin, hhash]
  · rw [if_neg hid]
    simp [hid]

/-- How many gaps a scan still lists. -/
def Scan.room (maxGaps : ℤ) (st : Scan F) : ℕ := (maxGaps - st.gaps.length).toNat

omit [PyFloat F] in
theorem room_pos {st : Scan F} : 0 < st.room maxGaps ↔ (st.gaps.length : ℤ) < maxGaps := by
  rw [Scan.room]
  omega

omit [PyFloat F] in
theorem room_gap (st : Scan F) (n : ℕ) (gap : CoverageGap F) :
    Scan.room maxGaps { st with total := n, gaps := st.gaps ++ [gap] } = st.room maxGaps - 1 := by
  rw [Scan.room, Scan.room, List.length_append, List.length_singleton]
  push_cast
  omega

/-- **What one entry does**: it is counted, and listed or left out if it is missing. -/
theorem scanEntry_iff {st st' : Scan F} {p : PyStr × Entry F} :
    scanEntry index maxGaps st p = .ok st' ↔ index.Finds p.2 ∧
      (index.Has p.2 ∧ st' = { st with total := st.total + 1, indexed := st.indexed + 1 } ∨
        ¬index.Has p.2 ∧ 0 < st.room maxGaps ∧ (∃ gap, gapOf p.1 p.2 = .ok gap ∧
          st' = { st with total := st.total + 1, gaps := st.gaps ++ [gap] }) ∨
        ¬index.Has p.2 ∧ st.room maxGaps = 0 ∧
          st' = { st with total := st.total + 1, truncated := true }) := by
  unfold scanEntry
  cases hlookup : index.lookup p.2 with
  | error e =>
    refine iff_of_false (fun h => by cases h) fun h => ?_
    have hok := (lookup_iff (b := decide (index.Has p.2))).mpr ⟨h.1, decide_eq_true_iff⟩
    rw [hok] at hlookup
    cases hlookup
  | ok b =>
    obtain ⟨hfinds, hhas⟩ := lookup_iff.mp hlookup
    cases b with
    | true =>
      have hyes := hhas.mp rfl
      simp only [hfinds, hyes, true_and, not_true_eq_false, false_and, or_false, Except.ok.injEq,
        eq_comm]
    | false =>
      have hno : ¬index.Has p.2 := fun h => Bool.false_ne_true (hhas.mpr h)
      simp only [hfinds, hno, not_false_eq_true, true_and, false_and, false_or]
      by_cases hroom : (st.gaps.length : ℤ) < maxGaps
      · rw [if_pos hroom]
        have hpos := room_pos.mpr hroom
        simp only [hpos, true_and, hpos.ne', false_and, or_false]
        cases hgap : gapOf p.1 p.2 with
        | error e => exact iff_of_false (fun h => by cases h) fun ⟨_, h, _⟩ => by cases h
        | ok gap =>
          simp only [Except.map, Except.ok.injEq, exists_eq_left', eq_comm]
      · rw [if_neg hroom]
        have hzero : st.room maxGaps = 0 := Nat.eq_zero_of_not_pos fun h => hroom (room_pos.mp h)
        simp only [hzero, lt_irrefl, false_and, true_and, false_or, Except.ok.injEq, eq_comm]

theorem missing_cons (p : PyStr × Entry F) (ps : List (PyStr × Entry F)) :
    index.missing (p :: ps) = if index.Has p.2 then index.missing ps else p :: index.missing ps := by
  rw [CoverageIndex.missing, List.filter_cons]
  by_cases h : index.Has p.2 <;> simp [h, CoverageIndex.missing]

/-- **What a scan counts and lists**: all the entries, those in the index, and the first of the
missing ones. -/
theorem scan_iff : ∀ {ps : List (PyStr × Entry F)} {st st' : Scan F},
    scan index maxGaps st ps = .ok st' ↔ (∀ p ∈ ps, index.Finds p.2) ∧
      ∃ gs, List.Forall₂ (fun p g => gapOf p.1 p.2 = .ok g)
          ((index.missing ps).take (st.room maxGaps)) gs ∧
        st' = {
          total := st.total + ps.length
          indexed := st.indexed + (ps.length - (index.missing ps).length)
          gaps := st.gaps ++ gs
          truncated := st.truncated || st.room maxGaps < (index.missing ps).length } := by
  intro ps
  induction ps with
  | nil =>
    intro st st'
    simp only [scan, List.foldlM_nil, CoverageIndex.missing, List.filter_nil, List.take_nil,
      List.forall₂_nil_left_iff, exists_eq_left, List.not_mem_nil, false_implies, implies_true, true_and,
      List.append_nil, List.length_nil, Nat.add_zero, Nat.sub_zero, not_lt_zero, decide_false, Bool.or_false]
    exact ⟨fun h => (Except.ok.inj h).symm, fun h => congrArg Except.ok h.symm⟩
  | cons p ps ih =>
    intro st st'
    have hle : (index.missing ps).length ≤ ps.length := List.length_filter_le _ _
    have hstep : scan index maxGaps st (p :: ps) = .ok st' ↔
        ∃ s, scanEntry index maxGaps st p = .ok s ∧ scan index maxGaps s ps = .ok st' := by
      rw [scan, List.foldlM_cons]
      cases scanEntry index maxGaps st p with
      | error e => exact iff_of_false (fun h => by cases h) fun ⟨_, h, _⟩ => by cases h
      | ok s => simp [bind, Except.bind, scan]
    rw [hstep, List.forall_mem_cons, missing_cons]
    constructor
    · rintro ⟨s, hentry, hscan⟩
      obtain ⟨hfinds, hcase⟩ := scanEntry_iff.mp hentry
      obtain ⟨hall, gs, hgs, rfl⟩ := ih.mp hscan
      refine ⟨⟨hfinds, hall⟩, ?_⟩
      rcases hcase with ⟨hhas, rfl⟩ | ⟨hmiss, hpos, gap, hgap, rfl⟩ | ⟨hmiss, hzero, rfl⟩
      · -- it is in the index
        rw [if_pos hhas]
        refine ⟨gs, hgs, ?_⟩
        simp only [Scan.mk.injEq, List.length_cons]
        refine ⟨by omega, by omega, by simp, by simp [Scan.room]⟩
      · -- it is missing, and listed
        rw [if_neg hmiss]
        rw [room_gap] at hgs ⊢
        obtain ⟨r, hr⟩ := Nat.exists_eq_succ_of_ne_zero hpos.ne'
        rw [hr] at hgs ⊢
        refine ⟨gap :: gs, ?_, ?_⟩
        · rw [List.take_succ_cons]
          exact .cons hgap hgs
        · simp only [Scan.mk.injEq, List.length_cons]
          refine ⟨by omega, by omega, by simp, by simp⟩
      · -- it is missing, and there is no room for it
        rw [if_neg hmiss, hzero]
        have hsame : Scan.room maxGaps { st with total := st.total + 1, truncated := true } = 0 := hzero
        rw [hsame] at hgs ⊢
        obtain rfl : gs = [] := by simpa using hgs
        refine ⟨[], .nil, ?_⟩
        simp only [Scan.mk.injEq, List.length_cons]
        refine ⟨by omega, by omega, by simp, by simp⟩
    · rintro ⟨⟨hfinds, hall⟩, gs, hgs, rfl⟩
      by_cases hhas : index.Has p.2
      · -- it is in the index
        rw [if_pos hhas] at hgs ⊢
        refine ⟨_, scanEntry_iff.mpr ⟨hfinds, .inl ⟨hhas, rfl⟩⟩, ih.mpr ⟨hall, gs, hgs, ?_⟩⟩
        simp only [Scan.mk.injEq, List.length_cons]
        refine ⟨by omega, by omega, by simp, by simp [Scan.room]⟩
      · rw [if_neg hhas] at hgs ⊢
        rcases Nat.eq_zero_or_pos (st.room maxGaps) with hzero | hpos
        · -- it is missing, and there is no room for it
          rw [hzero] at hgs ⊢
          obtain rfl : gs = [] := by simpa using hgs
          refine ⟨_, scanEntry_iff.mpr ⟨hfinds, .inr (.inr ⟨hhas, hzero, rfl⟩)⟩, ih.mpr ⟨hall, [], ?_, ?_⟩⟩
          · have hsame : Scan.room maxGaps { st with total := st.total + 1, truncated := true } = 0 := hzero
            rw [hsame]
            exact .nil
          · simp only [Scan.mk.injEq, List.length_cons]
            refine ⟨by omega, by omega, by simp, by simp⟩
        · -- it is missing, and listed
          obtain ⟨r, hr⟩ := Nat.exists_eq_succ_of_ne_zero hpos.ne'
          rw [hr, List.take_succ_cons] at hgs
          cases hgs with
          | @cons _ gap _ gs hgap hgs =>
            refine ⟨_, scanEntry_iff.mpr ⟨hfinds, .inr (.inl ⟨hhas, hpos, gap, hgap, rfl⟩)⟩,
              ih.mpr ⟨hall, gs, ?_, ?_⟩⟩
            · rw [room_gap, hr]
              exact hgs
            · rw [room_gap, hr]
              simp only [Scan.mk.injEq, List.length_cons]
              refine ⟨by omega, by omega, by simp, by simp⟩

/-! ### Shards -/

/-- Entries of shards, with the ids of the shards. -/
def pairsOf (shardIds : List PyStr) (es : PyStr → List (Entry F)) : List (PyStr × Entry F) :=
  shardIds.flatMap fun shardId => (es shardId).map fun e => (shardId, e)

/-- The entries of a shard that are read. -/
def recent (limit : ℕ) (es : List (Entry F)) : List (Entry F) := es.drop (es.length - limit)

/-- The entries of a shard that are too old to be read. -/
def tooOld (limit : ℕ) (es : List (Entry F)) : List (Entry F) := es.take (es.length - limit)

variable {limit : ℕ}

theorem scan_append {ps qs : List (PyStr × Entry F)} {st st' : Scan F} :
    scan index maxGaps st (ps ++ qs) = .ok st' ↔
      ∃ s, scan index maxGaps st ps = .ok s ∧ scan index maxGaps s qs = .ok st' := by
  rw [scan, List.foldlM_append, ← scan]
  cases scan index maxGaps st ps with
  | error e => exact iff_of_false (fun h => by cases h) fun ⟨_, h, _⟩ => by cases h
  | ok s => simp [bind, Except.bind, scan]

/-- **Shard after shard** is one scan of all that is read. -/
theorem scanShards_iff {d : Disk F} {es : PyStr → List (Entry F)} :
    ∀ {shardIds : List PyStr}, (∀ id ∈ shardIds, d.read id 0 limit = .ok (recent limit (es id)).reverse) →
      ∀ {st st' : Scan F} {perShard : List (PyStr × ShardCoverage)},
        (∃ perShard', scanShards limit d index maxGaps shardIds st perShard = .ok (st', perShard')) ↔
          scan index maxGaps st (pairsOf shardIds fun id => recent limit (es id)) = .ok st' := by
  intro shardIds
  induction shardIds with
  | nil =>
    intro _ st st' perShard
    constructor
    · rintro ⟨_, h⟩
      exact congrArg Except.ok (Prod.mk.inj (Except.ok.inj h)).1
    · intro h
      exact ⟨perShard, by rw [scanShards, Except.ok.inj h]⟩
  | cons id ids ih =>
    intro hread st st' perShard
    have hrest := fun i hi => hread i (List.mem_cons_of_mem id hi)
    rw [pairsOf, List.flatMap_cons, ← pairsOf, scan_append, scanShards, hread id List.mem_cons_self]
    simp only [List.reverse_reverse]
    cases hscan : scan index maxGaps st ((recent limit (es id)).map fun e => (id, e)) with
    | error e => exact iff_of_false (fun ⟨_, h⟩ => by cases h) fun ⟨_, h, _⟩ => by cases h
    | ok s =>
      simp only [Except.ok.injEq, exists_eq_left']
      exact ih hrest

/-- A shard is read back to the limit. -/
theorem read_recent {d : Disk F} {shardId : PyStr} {es : List (Entry F)}
    (h : d.allEntries shardId = .ok es) (hlimit : 0 < limit) :
    d.read shardId 0 limit = .ok (recent limit es).reverse := by
  rw [read_of_entries h hlimit, recent, List.take_reverse]

omit [PyFloat F] in
/-- What is there is what is read and what is too old. -/
theorem pairsOf_perm (limit : ℕ) (shardIds : List PyStr) (es : PyStr → List (Entry F)) :
    ((pairsOf shardIds fun id => tooOld limit (es id)) ++ pairsOf shardIds fun id => recent limit (es id)).Perm
      (pairsOf shardIds es) := by
  have hsplit : pairsOf shardIds es = shardIds.flatMap fun id =>
      ((tooOld limit (es id)).map fun e => (id, e)) ++ (recent limit (es id)).map fun e => (id, e) := by
    refine List.flatMap_congr fun id _ => ?_
    rw [← List.map_append, tooOld, recent, List.take_append_drop]
  rw [hsplit]
  exact List.flatMap_append_perm _ _ _

omit [PyFloat F] in
theorem recent_sublist (limit : ℕ) (shardIds : List PyStr) (es : PyStr → List (Entry F)) :
    (pairsOf shardIds fun id => recent limit (es id)).Sublist (pairsOf shardIds es) := by
  induction shardIds with
  | nil => exact List.Sublist.refl _
  | cons id ids ih =>
    rw [pairsOf, pairsOf, List.flatMap_cons, List.flatMap_cons]
    exact ((List.drop_sublist _ _).map _).append ih

/-- Nothing is missing iff all of it is in the index. -/
theorem missing_eq_nil {ps : List (PyStr × Entry F)} :
    index.missing ps = [] ↔ ∀ p ∈ ps, index.Has p.2 := by
  rw [CoverageIndex.missing, List.filter_eq_nil_iff]
  simp

/-- **The missing ones are read, as many as there are, iff none of the others is missing.** -/
theorem length_missing_recent {shardIds : List PyStr} {es : PyStr → List (Entry F)} :
    (index.missing (pairsOf shardIds fun id => recent limit (es id))).length =
        (index.missing (pairsOf shardIds es)).length ↔
      ∀ p ∈ pairsOf shardIds fun id => tooOld limit (es id), index.Has p.2 := by
  have hlen := ((pairsOf_perm limit shardIds es).filter fun p => ¬index.Has p.2).length_eq
  rw [List.filter_append, List.length_append] at hlen
  rw [← missing_eq_nil, ← List.length_eq_zero_iff]
  simp only [CoverageIndex.missing] at hlen ⊢
  omega

/-- What makes a report exact: the limit is a count, nothing too old to be read is missing, the
rest can be looked up, what is listed can be told of, and enough is missing for a percentage
below 100, or nothing. -/
structure Coverable (index : CoverageIndex F) (maxGaps : ℤ) (old recent : List (PyStr × Entry F)) :
    Prop where
  limit : 0 ≤ maxGaps
  old : ∀ p ∈ old, index.Has p.2
  finds : ∀ p ∈ recent, index.Finds p.2
  tells : ∀ p ∈ (index.missing recent).take maxGaps.toNat, Tellable p.2
  enough : index.missing recent = [] ∨
    900719925475 * recent.length ≤ 2 ^ 54 * (index.missing recent).length

/-- The full status, in terms of what is missing. -/
theorem coverageStatus_missing {missing total : ℕ} (h : missing ≤ total) :
    coverageStatus (total - missing) total = .fullyCovered ↔
      total = 0 ∨ 2 ^ 54 * missing < 900719925475 * total := by
  rw [coverageStatus_full (Nat.sub_le _ _)]
  omega

/-- What a report is made of. -/
theorem coverageUpTo_ok_iff (hlimit : 0 < limit) {now mtime : Datetime} {d : Disk F}
    {indexedIds indexedHashes : Option (List (PyVal F))} {shardIds : Option (List PyStr)}
    (hindex : indexedIds.isSome ∨ indexedHashes.isSome) {ids : List PyStr}
    (hids : checkedShards now mtime d shardIds = .ok ids) {es : PyStr → List (Entry F)}
    (hes : ∀ id ∈ ids, d.allEntries id = .ok (es id)) {P : CoverageReport F → Prop} :
    (∃ r, coverageUpTo limit now mtime d indexedIds indexedHashes shardIds maxGaps = .ok r ∧ P r) ↔
      ∃ st perShard, scan ⟨indexedIds.getD [], indexedHashes.getD []⟩ maxGaps ⟨0, 0, [], false⟩
          (pairsOf ids fun id => recent limit (es id)) = .ok st ∧
        scanShards limit d ⟨indexedIds.getD [], indexedHashes.getD []⟩ maxGaps ids ⟨0, 0, [], false⟩ [] =
          .ok (st, perShard) ∧
        P {
          totalEntries := st.total
          indexedEntries := st.indexed
          missingEntries := st.total - st.indexed
          coveragePercent := coveragePercent st.indexed st.total
          gaps := st.gaps.map CoverageGap.toDict
          gapsTruncated := st.truncated
          shardsChecked := ids.length
          perShard := perShard
          status := coverageStatus st.indexed st.total } := by
  have hread : ∀ id ∈ ids, d.read id 0 limit = .ok (recent limit (es id)).reverse := fun id hid =>
    read_recent (hes id hid) hlimit
  have hnone : ¬(indexedIds.isNone = true ∧ indexedHashes.isNone = true) := by
    rintro ⟨h, h'⟩
    rw [Option.isNone_iff_eq_none] at h h'
    rw [h, h'] at hindex
    rcases hindex with h | h <;> cases h
  rw [coverageUpTo, if_neg hnone, hids]
  simp only
  constructor
  · rintro ⟨r, hr, hP⟩
    cases hshards : scanShards limit d ⟨indexedIds.getD [], indexedHashes.getD []⟩ maxGaps ids
        ⟨0, 0, [], false⟩ [] with
    | error e =>
      rw [hshards] at hr
      cases hr
    | ok s =>
      rw [hshards] at hr
      obtain rfl := Except.ok.inj hr
      exact ⟨s.1, s.2, (scanShards_iff hread).mp ⟨s.2, hshards⟩, rfl, hP⟩
  · rintro ⟨st, perShard, -, hshards, hP⟩
    rw [hshards]
    exact ⟨_, rfl, hP⟩

/-- The same with any limit for what a shard is read up to. -/
theorem coverageUpTo_exact_iff (hlimit : 0 < limit) {now mtime : Datetime} {d : Disk F}
    {indexedIds indexedHashes : Option (List (PyVal F))} {shardIds : Option (List PyStr)}
    {ids : List PyStr} (hids : checkedShards now mtime d shardIds = .ok ids)
    {es : PyStr → List (Entry F)} (hes : ∀ id ∈ ids, d.allEntries id = .ok (es id)) (maxGaps : ℤ) :
    (∃ r, coverageUpTo limit now mtime d indexedIds indexedHashes shardIds maxGaps = .ok r ∧
        Exact ⟨indexedIds.getD [], indexedHashes.getD []⟩ maxGaps (pairsOf ids es) r) ↔
      (indexedIds.isSome ∨ indexedHashes.isSome) ∧
        Coverable ⟨indexedIds.getD [], indexedHashes.getD []⟩ maxGaps
          (pairsOf ids fun id => tooOld limit (es id)) (pairsOf ids fun id => recent limit (es id)) := by
  by_cases hindex : indexedIds.isSome ∨ indexedHashes.isSome
  · rw [coverageUpTo_ok_iff hlimit hindex hids hes]
    simp only [hindex, true_and]
    set index : CoverageIndex F := ⟨indexedIds.getD [], indexedHashes.getD []⟩
    set read := pairsOf ids fun id => recent limit (es id) with hreaddef
    have hle : (index.missing read).length ≤ read.length := List.length_filter_le _ _
    have hroom : Scan.room maxGaps (⟨0, 0, [], false⟩ : Scan F) = maxGaps.toNat := by
      rw [Scan.room, List.length_nil, Nat.cast_zero, sub_zero]
    constructor
    · rintro ⟨st, perShard, hscan, -, hexact⟩
      obtain ⟨hfinds, gs, hgs, rfl⟩ := scan_iff.mp hscan
      rw [hroom] at hgs
      have hmissing := hexact.missing
      simp only [zero_add] at hmissing
      have hold := length_missing_recent.mp (show (index.missing read).length =
        (index.missing (pairsOf ids es)).length by omega)
      obtain ⟨listed, -, hlength, -⟩ := hexact.gaps
      refine ⟨by omega, hold, hfinds, fun p hp => ?_, ?_⟩
      · obtain ⟨g, -, hg⟩ := Pointwise.exists_of_mem_left hgs hp
        exact exists_gapOf.mp ⟨g, hg⟩
      · by_contra hfew
        rw [not_or, not_le] at hfew
        -- with a few missing the percentage is 100
        have hfull := hexact.status.mp (by
          simp only [zero_add]
          exact (coverageStatus_missing hle).mpr (.inr hfew.2))
        refine hfew.1 (missing_eq_nil.mpr fun p hp => hfull p ((recent_sublist limit ids es).subset hp))
    · intro h
      obtain ⟨gs, hgs⟩ : ∃ gs, List.Forall₂ (fun p g => gapOf p.1 p.2 = .ok g)
          ((index.missing read).take maxGaps.toNat) gs := by
        obtain ⟨gs, hgs⟩ := Pointwise.exists_mapM_ok (f := fun p : PyStr × Entry F => gapOf p.1 p.2)
          fun p hp => exists_gapOf.mpr (h.tells p hp)
        exact ⟨gs, Pointwise.of_mapM_ok hgs⟩
      have hscan : scan index maxGaps ⟨0, 0, [], false⟩ read = .ok {
          total := 0 + read.length
          indexed := 0 + (read.length - (index.missing read).length)
          gaps := [] ++ gs
          truncated := false || Scan.room maxGaps (⟨0, 0, [], false⟩ : Scan F) <
            (index.missing read).length } :=
        scan_iff.mpr ⟨h.finds, gs, by rw [hroom]; exact hgs, rfl⟩
      obtain ⟨perShard, hshards⟩ : ∃ perShard,
          scanShards limit d index maxGaps ids ⟨0, 0, [], false⟩ [] = .ok (_, perShard) :=
        (scanShards_iff fun id hid => read_recent (hes id hid) hlimit).mpr hscan
      refine ⟨_, perShard, hscan, hshards, ?_⟩
      have hsame : index.missing read = index.missing (pairsOf ids es) :=
        ((recent_sublist limit ids es).filter _).eq_of_length (length_missing_recent.mpr h.old)
      have hlen := hgs.length_eq
      rw [List.length_take] at hlen
      have hlimit := h.limit
      constructor
      · simp only [zero_add]
        rw [coverageStatus_missing hle, ← missing_eq_nil, ← hsame]
        rcases h.enough with hnil | hmany
        · rw [hnil]
          simp only [List.length_nil, iff_true]
          omega
        · constructor
          · rintro (hzero | hless)
            · exact List.length_eq_zero_iff.mp (by omega)
            · omega
          · intro hnil
            rw [hnil, List.length_nil] at hmany
            exact .inl (by omega)
      · simp only [zero_add]
        rw [← hsame]
        omega
      · refine ⟨(index.missing read).take maxGaps.toNat, ?_, ?_, ?_⟩
        · rw [← hsame]
          exact List.take_sublist _ _
        · rw [List.length_take, ← hsame]
          omega
        · simp only [List.nil_append]
          rw [List.forall₂_map_right_iff]
          exact hgs.imp fun _ _ hg => ⟨_, hg, rfl⟩
      · simp only [Bool.false_or, List.nil_append, List.length_map, decide_eq_true_eq]
        rw [← hsame, hroom]
        omega
  · -- without an index nothing is said of the entries
    have hnone : indexedIds.isNone = true ∧ indexedHashes.isNone = true := by
      rw [not_or, Option.not_isSome_iff_eq_none, Option.not_isSome_iff_eq_none] at hindex
      rw [hindex.1, hindex.2]
      exact ⟨rfl, rfl⟩
    refine iff_of_false ?_ fun h => hindex h.1
    rintro ⟨r, hr, hexact⟩
    rw [coverageUpTo, if_pos hnone] at hr
    obtain rfl := Except.ok.inj hr
    have hmissing := hexact.missing
    have hall := missing_eq_nil.mp (List.length_eq_zero_iff.mp hmissing.symm)
    have hstatus := hexact.status.mpr hall
    cases hstatus

/-- **The report is exact iff** an index is given, nothing older than the newest hundred thousand
entries of a shard is missing, every entry can be looked up and every listed gap told of, and
none or enough of the entries are missing. -/
theorem checkCoverage_exact_iff {now mtime : Datetime} {d : Disk F}
    {indexedIds indexedHashes : Option (List (PyVal F))} {shardIds : Option (List PyStr)}
    {ids : List PyStr} (hids : checkedShards now mtime d shardIds = .ok ids)
    {es : PyStr → List (Entry F)} (hes : ∀ id ∈ ids, d.allEntries id = .ok (es id)) (maxGaps : ℤ) :
    (∃ r, checkCoverage now mtime d indexedIds indexedHashes shardIds maxGaps = .ok r ∧
        Exact ⟨indexedIds.getD [], indexedHashes.getD []⟩ maxGaps (pairsOf ids es) r) ↔
      (indexedIds.isSome ∨ indexedHashes.isSome) ∧
        Coverable ⟨indexedIds.getD [], indexedHashes.getD []⟩ maxGaps
          (pairsOf ids fun id => tooOld 100000 (es id)) (pairsOf ids fun id => recent 100000 (es id)) :=
  coverageUpTo_exact_iff (by norm_num) hids hes maxGaps

/-! ### Samples -/

/-- A line of an entry with an id. -/
def idLine (id : PyStr) : PyStr :=
  py "\x7b\"id\": \"" ++ id ++ py "\", \"timestamp\": \"2026-01-02T03:04:05+00:00\"\x7d"

/-- Its entry. -/
def idEntry (id : PyStr) : Entry FloatLit :=
  ⟨.str id, sampleTime, .none, .none, .none, .none, .none, .none, .dict [], .str (py "v2.0")⟩

/-- A shard of one entry `b`, and many entries `a`. -/
def crowdLines (n : ℕ) : List PyStr := idLine (py "b") :: List.replicate n (idLine (py "a"))

/-- Its entries. -/
def crowd (n : ℕ) : List (Entry FloatLit) := idEntry (py "b") :: List.replicate n (idEntry (py "a"))

/-- A data directory of it. -/
def crowdDisk (n : ℕ) : Disk FloatLit := ⟨[], [(py "s", (crowdLines n).flatMap lineBytes)], []⟩

theorem entry_idLine : ∀ id ∈ [py "a", py "b"], (lineEvent (F := FloatLit) (idLine id)).bind build =
    some (idEntry id) := by
  decide +kernel

example : (idEntry (py "a")).timestamp.isoformat = py "2026-01-02T03:04:05+00:00" := by decide +kernel

theorem plainLine_idLine : ∀ id ∈ [py "a", py "b"], PlainLine (idLine id) := by
  intro id hid
  rw [List.mem_cons, List.mem_singleton] at hid
  rcases hid with rfl | rfl <;> exact ⟨by decide, by decide, by decide⟩

/-- What the directory holds. -/
theorem allEntries_crowd (n : ℕ) : (crowdDisk n).allEntries (py "s") = .ok (crowd n) := by
  obtain ⟨a, ha, ha'⟩ := Option.bind_eq_some_iff.mp (entry_idLine (py "a") (by decide))
  obtain ⟨b, hb, hb'⟩ := Option.bind_eq_some_iff.mp (entry_idLine (py "b") (by decide))
  have hplain : ∀ l ∈ crowdLines n, PlainLine l := by
    intro l hl
    rcases List.mem_cons.mp hl with rfl | hl
    · exact plainLine_idLine _ (by decide)
    · rw [List.eq_of_mem_replicate hl]
      exact plainLine_idLine _ (by decide)
  have hevents : (crowdLines n ++ [[]]).filterMap lineEvent = b :: List.replicate n a := by
    rw [List.filterMap_append, crowdLines, List.filterMap_cons, hb, List.filterMap_replicate_of_some ha]
    simp [lineEvent_nil]
  have hobject : ∀ {v : PyVal FloatLit} {e : Entry FloatLit}, build v = some e →
      entryFromEventData v = .ok e := by
    intro v e h
    unfold build at h
    cases hv : entryFromEventData v with
    | error _ =>
      rw [hv] at h
      cases h
    | ok e' =>
      rw [hv] at h
      exact congrArg Except.ok (Option.some.inj h)
  have hall : List.Forall₂ (fun event e => entryFromEventData event = .ok e)
      (b :: List.replicate n a) (crowd n) := by
    refine .cons (hobject hb') ?_
    clear hplain hevents
    induction n with
    | zero => exact .nil
    | succ n ih =>
      rw [List.replicate_succ, List.replicate_succ]
      exact .cons (hobject ha') ih
  have hfamily : Dict.get (familyName (py "s")) (crowdDisk n).families = none := rfl
  have hfile : Dict.get (py "s") (crowdDisk n).monoliths = some ((crowdLines n).flatMap lineBytes) := rfl
  rw [Disk.allEntries, hfamily]
  simp only
  rw [hfile]
  simp only
  rw [textLines_lines hplain]
  simp only [Except.bind]
  rw [hevents]
  exact entriesOf_eq_ok hall

/-- An index of the ids `a`. -/
def idsOnly : CoverageIndex FloatLit := ⟨[.str (py "a")], []⟩

omit [PyFloat F] in
theorem recent_of_le {es : List (Entry F)} (h : es.length ≤ limit) : recent limit es = es := by
  rw [recent, Nat.sub_eq_zero_of_le h, List.drop_zero]

omit [PyFloat F] in
theorem tooOld_of_le {es : List (Entry F)} (h : es.length ≤ limit) : tooOld limit es = [] := by
  rw [tooOld, Nat.sub_eq_zero_of_le h, List.take_zero]

theorem missing_crowd (n : ℕ) : idsOnly.missing (pairsOf [py "s"] fun _ => crowd n) =
    [(py "s", idEntry (py "b"))] := by
  have hb : ¬idsOnly.Has (idEntry (py "b")) := by decide
  have ha : idsOnly.Has (idEntry (py "a")) := by decide
  rw [pairsOf, List.flatMap_singleton, crowd, List.map_cons, List.map_replicate, missing_cons,
    if_neg hb]
  refine congrArg (_ :: ·) (missing_eq_nil.mpr fun p hp => ?_)
  rw [List.eq_of_mem_replicate hp]
  exact ha

theorem length_crowd (n : ℕ) : (pairsOf [py "s"] fun _ => crowd n).length = n + 1 := by
  rw [pairsOf, List.flatMap_singleton, List.length_map, crowd, List.length_cons, List.length_replicate]

/-- **With one of many missing the report is exact iff they are not too many.** -/
theorem coverable_crowd {n : ℕ} (hn : n < limit) : Coverable idsOnly 500
      (pairsOf [py "s"] fun _ => tooOld limit (crowd n)) (pairsOf [py "s"] fun _ => recent limit (crowd n)) ↔
    900719925475 * (n + 1) ≤ 2 ^ 54 := by
  have hle : (crowd n).length ≤ limit := by
    rw [crowd, List.length_cons, List.length_replicate]
    omega
  rw [recent_of_le hle, tooOld_of_le hle]
  constructor
  · intro h
    have henough := h.enough
    rw [missing_crowd, length_crowd] at henough
    simpa using henough
  · intro h
    refine ⟨by decide, fun p hp => ?_, fun p hp => ?_, fun p hp => ?_, .inr ?_⟩
    · rw [pairsOf, List.flatMap_singleton, List.map_nil] at hp
      cases hp
    · rw [pairsOf, List.flatMap_singleton, crowd] at hp
      obtain ⟨e, he, rfl⟩ := List.mem_map.mp hp
      rcases List.mem_cons.mp he with rfl | he
      · exact ⟨rfl, .inr rfl⟩
      · rw [List.eq_of_mem_replicate he]
        exact ⟨rfl, .inr rfl⟩
    · have hmem := List.mem_of_mem_take hp
      rw [missing_crowd, List.mem_singleton] at hmem
      rw [hmem]
      exact ⟨⟨_, rfl⟩, _, rfl⟩
    · rw [missing_crowd, length_crowd, List.length_singleton]
      simpa using h

/-- One entry of four is missing, and is reported. -/
theorem checkCoverage_exact_sample : ∃ r, checkCoverage sampleTime sampleTime (crowdDisk 3)
      (some [.str (py "a")]) none (some [py "s"]) 500 = .ok r ∧
    Exact idsOnly 500 (pairsOf [py "s"] fun _ => crowd 3) r :=
  (checkCoverage_exact_iff rfl (fun id hid => by
    rw [List.mem_singleton.mp hid]
    exact allEntries_crowd 3) 500).mpr ⟨.inl rfl, (coverable_crowd (by norm_num)).mpr (by norm_num)⟩

/-- **One entry of twenty thousand is missing, and the status is full.** -/
theorem rounded_up : ¬∃ r, checkCoverage sampleTime sampleTime (crowdDisk 19999)
      (some [.str (py "a")]) none (some [py "s"]) 500 = .ok r ∧
    Exact idsOnly 500 (pairsOf [py "s"] fun _ => crowd 19999) r := by
  intro h
  have hids : checkedShards sampleTime sampleTime (crowdDisk 19999) (some [py "s"]) = .ok [py "s"] := rfl
  have hes : ∀ id ∈ [py "s"], (crowdDisk 19999).allEntries id = .ok (crowd 19999) := fun id hid => by
    rw [List.mem_singleton.mp hid]
    exact allEntries_crowd 19999
  have hcoverable := ((coverageUpTo_exact_iff (by norm_num) hids hes 500).mp h).2
  have hfew := (coverable_crowd (by norm_num)).mp hcoverable
  norm_num at hfew

end Daryl
