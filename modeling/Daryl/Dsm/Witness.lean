import Daryl.Dsm.Seal

/-!
# `witness`: records of a shard's tip

A witness captures how many entries a shard has and the hash of the last one, and later
compares them with the shard as it then is.  Both sides read with a limit; and a shard that has
grown is compared by its number alone.  Ids and timestamps are inputs, and the log is a list of
records.

## Main definitions

* `capture`, `verifyShardAgainstWitness` — the two sides.
* `Witnessed` — what a capture records of a shard.

## Main results

* `verify_ok_iff` — when a shard passes.
* `witness_iff` — **how many entries make a witness sound, and complete.**
-/

namespace Daryl

open Py Json HashChain Run

/-- `limit=100000`. -/
def witnessLimit : ℕ := 100000

theorem max_witnessLimit : max witnessLimit 1 = witnessLimit := by decide

section

variable {F : Type} [PyFloat F]

/-- A witness record. -/
structure WitnessRecord (F : Type) where
  witnessId : PyStr
  shardId : PyStr
  timestamp : PyStr
  entryCount : ℕ
  tipHash : PyVal F
  witnessHash : PyStr
  signed : Bool

/-- The line of a record. -/
def WitnessRecord.toDict (r : WitnessRecord F) : PyVal F :=
  .dict (strItems [
    (py "witness_id", .str r.witnessId),
    (py "shard_id", .str r.shardId),
    (py "timestamp", .str r.timestamp),
    (py "entry_count", .int r.entryCount),
    (py "tip_hash", r.tipHash),
    (py "witness_hash", .str r.witnessHash),
    (py "signed", .bool r.signed)])

/-- `_compute_witness_hash`. -/
def computeWitnessHash (sha : Sha256) (witnessKey shardId timestamp : PyStr) (entryCount : ℕ)
    (tipHash : PyVal F) : Except PyError PyStr :=
  match dumpsSorted sealStyle (.dict (strItems [
      (py "shard_id", .str shardId),
      (py "timestamp", .str timestamp),
      (py "entry_count", .int entryCount),
      (py "tip_hash", tipHash),
      (py "witness_key", .str witnessKey)])) with
  | .error e => .error (DumpsError.toPyError e)
  | .ok payload => hashText sha payload

/-- The hash of the newest entry, if it counts as true. -/
def tipHash (newest : Entry F) : PyVal F :=
  if newest.hash.truthy then newest.hash else .str (py "no_hash")

/-- The line is written, if it encodes; the tip is then cut for the log message. -/
def writeWitness (r : WitnessRecord F) (log : List (WitnessRecord F)) :
    Except PyError (Option (WitnessRecord F)) × List (WitnessRecord F) :=
  match dumpsSorted lineStyle r.toDict with
  | .error e => (.error (DumpsError.toPyError e), log)
  | .ok line =>
    if Encodable line then
      match r.tipHash with
      | .str _ | .list _ | .tuple _ => (.ok (some r), log ++ [r])
      | _ => (.error .typeError, log ++ [r])
    else (.error .unicodeEncodeError, log)

/-- `capture`: nothing is recorded of an empty shard. -/
def capture (sha : Sha256) (witnessKey shardId : PyStr) (fam : Family) (witnessId timestamp : PyStr)
    (log : List (WitnessRecord F)) :
    Except PyError (Option (WitnessRecord F)) × List (WitnessRecord F) :=
  match (readSegmented fam 0 1 : Except PyError (List (Entry F))) with
  | .error e => (.error e, log)
  | .ok [] => (.ok none, log)
  | .ok (_ :: _) =>
    match (readSegmented fam 0 witnessLimit : Except PyError (List (Entry F))) with
    | .error e => (.error e, log)
    | .ok [] => (.ok none, log)
    | .ok (newest :: older) =>
      let entryCount := older.length + 1
      let tip := tipHash newest
      match computeWitnessHash sha witnessKey shardId timestamp entryCount tip with
      | .error e => (.error e, log)
      | .ok witnessHash =>
        writeWitness ⟨witnessId, shardId, timestamp, entryCount, tip, witnessHash, witnessKey ≠ []⟩ log

/-- `verify_record`. -/
def verifyRecord (sha : Sha256) (witnessKey : PyStr) (r : WitnessRecord F) : Except PyError Bool :=
  (computeWitnessHash sha witnessKey r.shardId r.timestamp r.entryCount r.tipHash).map
    fun expected => expected = r.witnessHash

/-- `WitnessStatus`. -/
inductive WitnessStatus
  | ok
  | diverged
  | noWitness
  deriving DecidableEq

/-- What `verify_shard_against_witness` returns of a witnessed shard. -/
structure WitnessCheck (F : Type) where
  witnessValid : Bool
  stateMatches : Bool
  currentTip : PyVal F
  witnessedTip : PyVal F
  currentCount : ℕ
  witnessedCount : ℕ
  witnessTimestamp : PyStr

/-- The latest record of a shard. -/
def latestWitness (log : List (WitnessRecord F)) (shardId : PyStr) : Option (WitnessRecord F) :=
  (log.filter fun r => r.shardId = shardId).getLast?

/-- `verify_shard_against_witness`. -/
def verifyShardAgainstWitness (sha : Sha256) (witnessKey shardId : PyStr) (fam : Family)
    (log : List (WitnessRecord F)) : Except PyError (WitnessStatus × Option (WitnessCheck F)) :=
  match latestWitness log shardId with
  | none => .ok (.noWitness, none)
  | some latest =>
    match verifyRecord sha witnessKey latest with
    | .error e => .error e
    | .ok witnessValid =>
      match (readSegmented fam 0 witnessLimit : Except PyError (List (Entry F))) with
      | .error e => .error e
      | .ok allEntries =>
        let currentCount := allEntries.length
        let currentTip := (allEntries.head?.map Entry.hash).getD (.str (py "empty"))
        let stateMatches := if currentCount = latest.entryCount then pyEq currentTip latest.tipHash
          else decide (latest.entryCount ≤ currentCount)
        let status := if witnessValid && stateMatches then .ok else .diverged
        .ok (status, some ⟨witnessValid, stateMatches, currentTip, latest.tipHash, currentCount,
          latest.entryCount, latest.timestamp⟩)

/-! ### What passes -/

variable {sha : Sha256} {witnessKey shardId : PyStr}

/-- What a witness has of entries: a valid hash, their number up to the limit, and their tip. -/
structure Witnessed (sha : Sha256) (witnessKey shardId : PyStr) (es : List (Entry F))
    (r : WitnessRecord F) : Prop where
  nonempty : es ≠ []
  shard : r.shardId = shardId
  count : r.entryCount = min witnessLimit es.length
  tip : r.tipHash = if (tip es).truthy then tip es else .str (py "no_hash")
  valid : verifyRecord sha witnessKey r = .ok true

/-- A record that is returned is at the end of the log. -/
theorem writeWitness_spec {r r' : WitnessRecord F} {log log' : List (WitnessRecord F)}
    (h : writeWitness r log = (.ok (some r'), log')) : r' = r ∧ log' = log ++ [r] := by
  unfold writeWitness at h
  split at h
  · cases h
  · split at h
    · split at h <;> cases h <;> exact ⟨rfl, rfl⟩
    · cases h

/-- **What a capture records.** -/
theorem capture_spec {fam : Family} {witnessId timestamp : PyStr}
    {log log' : List (WitnessRecord F)} {r : WitnessRecord F}
    (h : capture sha witnessKey shardId fam witnessId timestamp log = (.ok (some r), log'))
    {es : List (Entry F)} (hes : chronoEntries fam = .ok es) :
    Witnessed sha witnessKey shardId es r ∧ log' = log ++ [r] := by
  have hall := readSegmented_chrono hes witnessLimit
  rw [max_witnessLimit] at hall
  unfold capture at h
  rw [readSegmented_chrono hes 1, hall] at h
  split at h
  · cases h
  · cases h
  · split at h
    · cases h
    · cases h
    · next newest older hread =>
      have hread := Except.ok.inj hread
      simp only at h
      split at h
      · cases h
      · next witnessHash hhash =>
        obtain ⟨rfl, hlog⟩ := writeWitness_spec h
        -- the newest entry is the last one
        have hhead : es.getLast? = some newest := by
          have hhead := congrArg List.head? hread
          rw [getLast?_reverse_take (by decide)] at hhead
          exact hhead
        have htip : tip es = newest.hash := by
          rw [tip, hhead]
          rfl
        refine ⟨⟨?_, rfl, ?_, ?_, ?_⟩, hlog⟩
        · rintro rfl
          cases hhead
        · have hlength := congrArg List.length hread
          rw [List.length_take, List.length_reverse] at hlength
          exact hlength.symm
        · rw [htip]
          rfl
        · rw [verifyRecord, hhash]
          simp [Except.map]

/-- The check says that the shard is as it was. -/
def Passes (sha : Sha256) (witnessKey shardId : PyStr) (fam : Family) (log : List (WitnessRecord F)) :
    Prop :=
  ∃ check, verifyShardAgainstWitness sha witnessKey shardId fam log = .ok (.ok, check)

/-- **When a shard passes**: it has more entries than the witness says, up to the limit, or as
many and the same tip. -/
theorem verify_ok_iff {fam : Family} {log : List (WitnessRecord F)} {r : WitnessRecord F}
    {es ds : List (Entry F)} (hlatest : latestWitness log shardId = some r)
    (hr : Witnessed sha witnessKey shardId es r) (hds : chronoEntries fam = .ok ds) :
    Passes sha witnessKey shardId fam log ↔
      min witnessLimit es.length < min witnessLimit ds.length ∨
        min witnessLimit es.length = min witnessLimit ds.length ∧ pyEq (tip ds) r.tipHash = true := by
  have hall := readSegmented_chrono hds witnessLimit
  rw [max_witnessLimit] at hall
  have hlength : (ds.reverse.take witnessLimit).length = min witnessLimit ds.length := by
    rw [List.length_take, List.length_reverse]
  have hpos : 0 < min witnessLimit es.length := by
    have := List.length_pos_iff.mpr hr.nonempty
    exact lt_min (by decide) this
  unfold Passes verifyShardAgainstWitness
  rw [hlatest]
  simp only [hr.valid, hall, hlength, hr.count, Bool.true_and]
  by_cases heq : min witnessLimit ds.length = min witnessLimit es.length
  · -- as many, at least one: the tips are compared
    have hhead : ((ds.reverse.take witnessLimit).head?.map Entry.hash).getD (.str (py "empty")) =
        tip ds := by
      rw [getLast?_reverse_take (by decide), tip]
      cases hlast : ds.getLast? with
      | none =>
        rw [List.getLast?_eq_none_iff.mp hlast] at heq
        simp only [List.length_nil] at heq
        omega
      | some d => rfl
    rw [if_pos heq, hhead]
    cases hpy : pyEq (tip ds) r.tipHash with
    | true => exact iff_of_true ⟨_, rfl⟩ (.inr ⟨heq.symm, rfl⟩)
    | false =>
      refine iff_of_false (fun h => ?_) fun h => h.elim (fun h => by omega) fun h => by cases h.2
      obtain ⟨check, hcheck⟩ := h
      cases hcheck
  · rw [if_neg heq]
    by_cases hle : min witnessLimit es.length ≤ min witnessLimit ds.length
    · rw [decide_eq_true hle]
      exact iff_of_true ⟨_, rfl⟩ (.inl (by omega))
    · rw [decide_eq_false hle]
      refine iff_of_false (fun h => ?_) fun h => by omega
      obtain ⟨check, hcheck⟩ := h
      cases hcheck

/-! ### How many entries make a witness good -/

/-- Entries of dumpable values are the content of some shard. -/
theorem exists_content {es : List (Entry F)} (h : ∀ e ∈ es, Dumpable (entryDict shardId e)) :
    ∃ fam, chronoEntries fam = .ok (es.map (Entry.readBack shardId)) := by
  have hlines : ∃ lines, List.Forall₂ (Recorded shardId) es lines := by
    induction es with
    | nil => exact ⟨[], .nil⟩
    | cons e es ih =>
      obtain ⟨line, hline⟩ := exists_recorded_of_writable (h e List.mem_cons_self).writable
      obtain ⟨lines, hlines⟩ := ih fun x hx => h x (List.mem_cons_of_mem _ hx)
      exact ⟨line :: lines, .cons hline hlines⟩
  obtain ⟨lines, hlines⟩ := hlines
  -- one segment holds them all
  set segment : Segment := ⟨1, lines, []⟩ with hsegment
  have hlaid : Laid ⟨[], [segment.file []], none⟩ [segment] := by
    refine ⟨rfl, List.pairwise_singleton _ _, fun s hs l hl => ?_⟩
    obtain rfl := List.mem_singleton.mp hs
    rcases List.mem_append.mp hl with hl | hl
    · obtain ⟨e, -, he⟩ := Pointwise.exists_of_mem_right hlines hl
      exact he.plain
    · obtain rfl := List.mem_singleton.mp hl
      exact plainLine_nil
  refine ⟨⟨[], [segment.file []], none⟩, ?_⟩
  have hquiet : ∀ s ∈ [segment], lineEvent (F := F) s.tail = none := by
    intro s hs
    obtain rfl := List.mem_singleton.mp hs
    exact lineEvent_nil
  rw [chronoEntries, iterShardEvents_laid hlaid, filterMap_texts hquiet, List.flatMap_singleton,
    filterMap_recorded hlines]
  exact entriesOf_eq_ok (entries_recorded (exists_recorded hlines))

/-- An entry that says nothing but its hash. -/
def bareEntry (timestamp : Datetime) (hash : PyVal F) : Entry F where
  id := .none
  timestamp := timestamp
  sessionId := .none
  source := .none
  content := .none
  shard := .none
  hash := hash
  prevHash := .none
  metadata := .dict []
  version := .none

/-- Bare entries, of which the last one alone has a hash, are the content of some shard. -/
theorem exists_bare (t : Datetime) {hash : PyStr} (hhash : Encodable hash) (m : ℕ) :
    ∃ fam, ∃ ds : List (Entry F), chronoEntries fam = .ok ds ∧ ds.length = m + 1 ∧
      tip ds = .str hash ∧ ∀ n < m, ds[n]?.map Entry.hash = some .none := by
  have hdumpable : ∀ h : PyVal F, Dumpable h → Dumpable (entryDict [] (bareEntry t h)) := by
    intro h hh
    apply dumpable_object
    simp only [List.forall_mem_cons, bareEntry]
    exact ⟨dumpableField (by decide) dumpable_none,
      dumpableField (by decide) (dumpable_str (encodable_isoformat t)),
      dumpableField (by decide) dumpable_none, dumpableField (by decide) dumpable_none,
      dumpableField (by decide) dumpable_none, dumpableField (by decide) (dumpable_str encodable_nil),
      dumpableField (by decide) hh, dumpableField (by decide) dumpable_none,
      dumpableField (by decide) ⟨⟨_, _, rfl, rfl⟩, trivial⟩, dumpableField (by decide) dumpable_none,
      List.forall_mem_nil _⟩
  have hentries : ∀ e ∈ List.replicate m (bareEntry (F := F) t .none) ++ [bareEntry t (.str hash)],
      Dumpable (entryDict [] e) := by
    intro e he
    rcases List.mem_append.mp he with he | he
    · rw [List.eq_of_mem_replicate he]
      exact hdumpable _ dumpable_none
    · rw [List.mem_singleton.mp he]
      exact hdumpable _ (dumpable_str hhash)
  obtain ⟨fam, hfam⟩ := exists_content hentries
  refine ⟨fam, _, hfam, by simp, ?_, fun n hn => ?_⟩
  · rw [List.map_append, List.map_singleton, tip_concat]
    rfl
  · rw [List.map_append, List.getElem?_append_left (by simpa using hn), List.map_replicate,
      List.getElem?_replicate, if_pos hn]
    rfl

/-- Later appends add to what earlier ones returned. -/
theorem returned_appends_append (cfg : Config) (shardId family : PyStr) (is js : List (Datetime × Entry F)) :
    ∃ more, (appends cfg shardId family (is ++ js)).returned =
      (appends cfg shardId family is).returned ++ more := by
  induction js using List.reverseRecOn with
  | nil => exact ⟨[], by rw [List.append_nil, List.append_nil]⟩
  | append_singleton js j ih =>
    obtain ⟨more, hmore⟩ := ih
    have hstep : appends cfg shardId family (is ++ (js ++ [j])) =
        (appends cfg shardId family (is ++ js)).append cfg shardId j := by
      rw [← List.append_assoc]
      exact Run.run_append _ _ _
    rw [hstep, Log.append]
    split
    · exact ⟨more ++ [_], by rw [hmore, List.append_assoc]⟩
    · exact ⟨more, hmore⟩

/-- The tip of an intact shard is a digest. -/
theorem exists_tip {sha : Sha256} {s : Shard F} {es : List (Entry F)} {k : ℕ}
    (h : Intact sha shardId s es k) (hne : es ≠ []) :
    ∃ t : PyStr, Encodable t ∧ tip es = .str t ∧ (tip es).truthy = true := by
  obtain ⟨⟨segs, hhist, -⟩, -⟩ := h
  obtain ⟨es, e, rfl⟩ := (List.eq_nil_or_concat es).resolve_left hne
  rw [List.concat_eq_append, tip_concat]
  have hsealed := hhist.chain.hashes e (by simp)
  have htruthy := hsealed.truthy
  obtain ⟨bs, -, hhash⟩ := hsealed
  exact ⟨_, encodable_hash sha bs, hhash, htruthy⟩

/-- **How many entries make a witness sound, and complete.**  A shard of `n` appended entries was
witnessed.  Of every content of `m` entries that passes the `n`th has the witnessed hash exactly
if there are fewer than both `n` and the limit, or just `n`; and the shard passes after more
appends exactly if they added nothing, or if `n` is below the limit. -/
theorem witness_iff {cfg : Config} (hinj : Function.Injective cfg.sha)
    (witnessKey shardId family witnessId timestamp : PyStr) (is : List (Datetime × Entry F))
    {log log' later : List (WitnessRecord F)} {r : WitnessRecord F}
    (hcapture : capture cfg.sha witnessKey shardId (appends cfg shardId family is).shard.family witnessId
      timestamp log = (.ok (some r), log'))
    (hlatest : latestWitness later shardId = some r) :
    let es := (appends cfg shardId family is).returned
    (∀ m, (∀ (fam : Family) (ds : List (Entry F)), chronoEntries fam = .ok ds → ds.length = m →
        Passes cfg.sha witnessKey shardId fam later →
        ds[es.length - 1]?.map Entry.hash = some (tip es)) ↔
      m < min witnessLimit es.length ∨ m = es.length) ∧
    ∀ js, Passes cfg.sha witnessKey shardId (appends cfg shardId family (is ++ js)).shard.family later ↔
      (appends cfg shardId family (is ++ js)).returned.length = es.length ∨ es.length < witnessLimit := by
  intro es
  obtain ⟨hint, -⟩ := intact_appends cfg shardId family is
  obtain ⟨hchrono, htips⟩ := SealRun.chronoEntries_intact hint
  obtain ⟨hw, -⟩ := capture_spec hcapture hchrono
  have hmore := returned_appends_append cfg shardId family is
  rw [show (appends cfg shardId family is).returned = es from rfl] at hint htips hw hmore
  clear_value es
  have hne : es ≠ [] := fun hnil => hw.nonempty (by rw [hnil, List.map_nil])
  obtain ⟨t, henc, htip⟩ := exists_tip hint hne
  have hpos : 0 < es.length := List.length_pos_iff.mpr hne
  have hrecord : r.tipHash = .str t := by
    rw [hw.tip, htips, if_pos htip.2, htip.1]
  have hpass : ∀ (fam : Family) (ds : List (Entry F)), chronoEntries fam = .ok ds →
      (Passes cfg.sha witnessKey shardId fam later ↔
        min witnessLimit es.length < min witnessLimit ds.length ∨
          min witnessLimit es.length = min witnessLimit ds.length ∧ tip ds = .str t) := by
    intro fam ds hds
    rw [verify_ok_iff hlatest hw hds, hrecord, pyEq_str_right, List.length_map]
  refine ⟨fun m => ⟨fun h => ?_, ?_⟩, fun js => ?_⟩
  · -- a content whose last entry alone has the witnessed hash
    by_contra hnot
    obtain ⟨k, rfl⟩ : ∃ k, m = k + 1 := ⟨m - 1, by
      have : 0 < witnessLimit := by decide
      omega⟩
    obtain ⟨fam, ds, hds, hlength, hlast, hbare⟩ := exists_bare (F := F) (es.head hne).timestamp henc k
    have hpasses : Passes cfg.sha witnessKey shardId fam later := by
      refine (hpass fam ds hds).mpr ?_
      rw [hlength]
      rcases Nat.lt_or_ge (min witnessLimit es.length) (min witnessLimit (k + 1)) with hlt | hge
      · exact .inl hlt
      · exact .inr ⟨by omega, hlast⟩
    have hhash := h fam ds hds hlength hpasses
    rw [htip.1] at hhash
    rcases Nat.lt_or_ge (es.length - 1) k with hlt | hge
    · rw [hbare _ hlt] at hhash
      cases hhash
    · rw [List.getElem?_eq_none (by omega)] at hhash
      cases hhash
  · rintro hm fam ds hds rfl hpasses
    rcases (hpass fam ds hds).mp hpasses with hlt | ⟨hmin, htipd⟩
    · omega
    · rcases hm with hlt | heq
      · omega
      · rw [hash_getElem?_eq hpos heq.ge, ← heq, List.take_length, htip.1, htipd]
  · obtain ⟨hint', -⟩ := intact_appends cfg shardId family (is ++ js)
    obtain ⟨hchrono', htips'⟩ := SealRun.chronoEntries_intact hint'
    obtain ⟨more, hmore⟩ := hmore js
    obtain ⟨⟨segs, hhist, -⟩, -⟩ := hint'
    have hle : es.length ≤ (appends cfg shardId family (is ++ js)).returned.length := by
      rw [hmore, List.length_append]
      omega
    have htake : (appends cfg shardId family (is ++ js)).returned.take es.length = es := by
      rw [hmore, List.take_left']
      rfl
    -- no later tip is the witnessed one
    have hsame := SealRun.tip_take_eq_iff hinj hhist.chain hhist.hashedJoined hpos hle
    rw [htake, htip.1, eq_comm] at hsame
    rw [hpass _ _ hchrono', htips', hsame, List.length_map]
    omega

end

/-! ### Sample witnesses -/

/-- The witness of a shard with one entry. -/
def sampleWitness : Except PyError (Option (WitnessRecord FloatLit)) × List (WitnessRecord FloatLit) :=
  capture sampleConfig.sha (py "k") (py "default") (sampleRun pinnedAppends).shard.family (py "w")
    (py "t") []

/-- A shard of one entry passes after any appends. -/
theorem witness_iff_sample : Function.Injective nibbles ∧
    ∀ js, Passes nibbles (py "k") (py "default")
      (appends sampleConfig (py "default") (py "default") (pinnedAppends ++ js)).shard.family
      sampleWitness.2 := by
  refine ⟨nibbles_injective, fun js => ?_⟩
  have hone := congrArg List.length returned_pinnedAppends
  have hwritten : sampleWitness.1.toOption.join.isSome = true := by decide +kernel
  have hchrono := chronoEntries_sampleRun pinnedAppends
  rw [sampleRun_eq] at hone hchrono
  rcases hcapture : sampleWitness with ⟨_ | _ | r, log⟩
  · rw [hcapture] at hwritten
    cases hwritten
  · rw [hcapture] at hwritten
    cases hwritten
  · rw [sampleWitness, sampleRun_eq] at hcapture
    obtain ⟨hw, hlog⟩ := capture_spec hcapture hchrono
    have hlatest : latestWitness log (py "default") = some r := by
      simp [latestWitness, hlog, hw.shard]
    refine ((witness_iff nibbles_injective (py "k") (py "default") (py "default") (py "w") (py "t")
      pinnedAppends hcapture hlatest).2 js).mpr (.inr ?_)
    rw [hone]
    decide

/-- A later content with another hash in the witnessed place passes. -/
theorem witness_unsound :
    sampleWitness.1.isOk = true ∧
    (verifyShardAgainstWitness nibbles (py "k") (py "default")
      (relog [{ pinnedEntry with hash := .str (py "x") }, pinnedEntry]) sampleWitness.2).map Prod.fst =
      .ok .ok ∧
    (chronoEntries (relog [{ pinnedEntry with hash := .str (py "x") }, pinnedEntry])).map
      (fun ds => ds[0]?.map Entry.hash) ≠
    (chronoEntries (F := FloatLit) (sampleRun pinnedAppends).shard.family).map
      (fun ds => ds[0]?.map Entry.hash) := by
  rw [chronoEntries_sampleRun]
  decide +kernel

end Daryl
