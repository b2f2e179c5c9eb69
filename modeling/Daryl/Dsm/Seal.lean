import Daryl.Dsm.Tamper
import Daryl.Lib.Run

/-!
# `seal`: sealing a shard

Sealing verifies a shard and writes a record of it to a registry: how many entries it
has and the hash of the last one.  Later the record is checked against itself, and
against what the storage reads then.  A line of the registry is the record it spells.
The archive that a seal may write is not read again; where it went is an argument.

## Main definitions

* `SealRecord`, `sealShard` — a record, and sealing.
* `verifySeal`, `verifySealAgainstStorage` — the two checks.
* `Rehashed` — a chain of entries by the hashes of what they say.
* `SealRun` — seals and appends, with the length at the first seal.

## Main results

* `sealShard_spec` — what a seal records.
* `hashedAlike_iff_rehashed` — **which entries agree with a verified chain.**
* `seal_binds_iff` — when entries that match a seal agree with the sealed ones.
* `SealRun.matching_iff` — when a seal is at once followed by a match.
* `seal_iff` — both.
-/

namespace Daryl

open Py Json HashChain Run

/-- `json.dumps(..., sort_keys=True, separators=(",", ":"))`. -/
def sealStyle : Style := ⟨true, true, false⟩

/-- `limit=10**6`. -/
def sealLimit : ℕ := 1000000

theorem max_sealLimit : max sealLimit 1 = sealLimit := by decide

section

variable {F : Type} [PyFloat F]

/-- `SealRecord`. -/
structure SealRecord (F : Type) where
  shardId : PyStr
  entryCount : ℕ
  firstHash : PyVal F
  lastHash : PyVal F
  firstTimestamp : PyStr
  lastTimestamp : PyStr
  sealHash : PyStr
  sealTimestamp : PyStr
  archivedPath : Option PyStr

/-- `to_dict`. -/
def SealRecord.toDict (r : SealRecord F) : PyVal F :=
  .dict (strItems [
    (py "shard_id", .str r.shardId),
    (py "entry_count", .int r.entryCount),
    (py "first_hash", r.firstHash),
    (py "last_hash", r.lastHash),
    (py "first_timestamp", .str r.firstTimestamp),
    (py "last_timestamp", .str r.lastTimestamp),
    (py "seal_hash", .str r.sealHash),
    (py "seal_timestamp", .str r.sealTimestamp),
    (py "archived_path", (r.archivedPath.map PyVal.str).getD .none)])

/-- `find_seal`: the first record of the shard. -/
def findSeal (registry : List (SealRecord F)) (shardId : PyStr) : Option (SealRecord F) :=
  registry.find? fun r => r.shardId = shardId

/-- `_compute_seal_hash`. -/
def computeSealHash (sha : Sha256) (shardId : PyStr) (entryCount : ℕ) (firstHash lastHash : PyVal F)
    (sealTimestamp : PyStr) : Except PyError PyStr :=
  match dumpsSorted sealStyle (.dict (strItems [
      (py "shard_id", .str shardId),
      (py "entry_count", .int entryCount),
      (py "first_hash", firstHash),
      (py "last_hash", lastHash),
      (py "seal_timestamp", .str sealTimestamp)])) with
  | .error e => .error (DumpsError.toPyError e)
  | .ok payload => hashText sha payload

/-- The record of a seal. -/
def sealRecord (sha : Sha256) (shardId : PyStr) (s : Shard F) (archivedPath : Option PyStr)
    (sealTimestamp : PyStr) : Except PyError (SealRecord F) :=
  match verifyShard sha shardId s with
  | .error e => .error e
  | .ok vr =>
    if vr.status ≠ .ok then .error .valueError
    else
      match readSegmented s.family 0 sealLimit with
      | .error e => .error e
      | .ok entries =>
        let entriesChrono := entries.reverse
        match entriesChrono.head?, entriesChrono.getLast? with
        | some first, some last =>
          match computeSealHash sha shardId entriesChrono.length first.hash.orText last.hash.orText
              sealTimestamp with
          | .error e => .error e
          | .ok sealHash =>
            .ok {
              shardId
              entryCount := entriesChrono.length
              firstHash := first.hash.orText
              lastHash := last.hash.orText
              firstTimestamp := first.timestamp.isoformat
              lastTimestamp := last.timestamp.isoformat
              sealHash
              sealTimestamp
              archivedPath }
        | _, _ => .error .valueError

/-- `seal_shard`: the record is written to the registry, if it encodes. -/
def sealShard (sha : Sha256) (shardId : PyStr) (s : Shard F) (archivedPath : Option PyStr)
    (sealTimestamp : PyStr) (registry : List (SealRecord F)) :
    Except PyError (SealRecord F) × List (SealRecord F) :=
  match sealRecord sha shardId s archivedPath sealTimestamp with
  | .error e => (.error e, registry)
  | .ok record =>
    match dumpFile record.toDict with
    | .error e => (.error e, registry)
    | .ok () => (.ok record, registry ++ [record])

/-- `SealStatus`. -/
inductive SealStatus
  | valid
  | hashMismatch
  | notSealed
  deriving DecidableEq

/-- `verify_seal`, its status. -/
def verifySeal (sha : Sha256) (registry : List (SealRecord F)) (shardId : PyStr) :
    Except PyError SealStatus :=
  match findSeal registry shardId with
  | none => .ok .notSealed
  | some r =>
    match computeSealHash sha r.shardId r.entryCount r.firstHash r.lastHash r.sealTimestamp with
    | .error e => .error e
    | .ok expected => .ok (if expected = r.sealHash then .valid else .hashMismatch)

/-- `SealStorageStatus`. -/
inductive SealStorageStatus
  | matching
  | diverged
  | shardGone
  | notSealed
  deriving DecidableEq

/-- What `verify_seal_against_storage` returns. -/
structure SealCheck where
  status : SealStorageStatus
  sealEntries : ℕ
  currentEntries : ℕ
  deriving DecidableEq

/-- `verify_seal_against_storage`. -/
def verifySealAgainstStorage (fam : Family) (registry : List (SealRecord F)) (shardId : PyStr) :
    Except PyError SealCheck :=
  match findSeal registry shardId with
  | none => .ok ⟨.notSealed, 0, 0⟩
  | some r =>
    match (readSegmented fam 0 1 : Except PyError (List (Entry F))) with
    | .error e => .error e
    | .ok [] => .ok ⟨.shardGone, r.entryCount, 0⟩
    | .ok (newest :: _) =>
      let currentTip := newest.hash.orText
      match (readSegmented fam 0 sealLimit : Except PyError (List (Entry F))) with
      | .error e => .error e
      | .ok allEntries =>
        let currentCount := allEntries.length
        .ok ⟨
          if currentCount = r.entryCount ∧ pyEq currentTip r.lastHash = true then .matching
          else if r.entryCount < currentCount ∨
              (currentCount = r.entryCount ∧ pyEq currentTip r.lastHash ≠ true) then .diverged
          else .shardGone, r.entryCount, currentCount⟩

/-! ### What a seal records -/

variable {sha : Sha256} {shardId : PyStr}

/-- The hash of a verified entry counts as true. -/
theorem orText_of_hashOk {e : Entry F} (h : hashOk sha e = true) : e.hash.orText = e.hash :=
  if_pos (hashOk_iff.mp h).1

omit [PyFloat F] in
theorem getLast?_reverse_take {ds : List (Entry F)} {n : ℕ} (hn : 0 < n) :
    (ds.reverse.take n).head? = ds.getLast? := by
  rw [List.head?_take, if_neg (by omega), List.head?_reverse]

/-- **What a seal records**: of verified entries, one at least, how many they are, up to
the limit, and the hash of the last. -/
theorem sealShard_spec {s : Shard F} {archivedPath : Option PyStr} {sealTimestamp : PyStr}
    {registry registry' : List (SealRecord F)} {r : SealRecord F}
    (h : sealShard sha shardId s archivedPath sealTimestamp registry = (.ok r, registry')) :
    ∃ es, chronoEntries s.family = .ok es ∧ es ≠ [] ∧ Consistent sha es ∧
      r.shardId = shardId ∧ r.entryCount = min sealLimit es.length ∧ r.lastHash = tip es ∧
      computeSealHash sha r.shardId r.entryCount r.firstHash r.lastHash r.sealTimestamp
        = .ok r.sealHash ∧ registry' = registry ++ [r] := by
  unfold sealShard at h
  cases hrec : sealRecord sha shardId s archivedPath sealTimestamp with
  | error e =>
    rw [hrec] at h
    cases h
  | ok record =>
    rw [hrec] at h
    simp only at h
    split at h
    · cases h
    · obtain ⟨rfl, rfl⟩ : record = r ∧ registry ++ [record] = registry' := by
        simpa using h
      unfold sealRecord at hrec
      split at hrec
      · cases hrec
      · next vr hvr =>
        obtain ⟨es, hes, rfl⟩ := verifyShard_eq_ok.mp hvr
        rw [readSegmented_chrono hes, max_sealLimit] at hrec
        split_ifs at hrec with hok
        -- the shard was verified, and its newest entries are read again
        have hcons : Consistent sha es := (status_eq_ok_iff.mp (not_not.mp hok)).1
        simp only at hrec
        split at hrec
        · next first last hfirst hlast =>
          split at hrec
          · cases hrec
          · next sealHash hhash =>
            obtain rfl := Except.ok.inj hrec
            -- they are newest first, so that the last entry is the first one read
            have hlast' : es.getLast? = some last := by
              rw [List.getLast?_reverse, getLast?_reverse_take (by decide)] at hlast
              exact hlast
            refine ⟨es, hes, ?_, hcons, rfl, ?_, ?_, hhash, rfl⟩
            · rintro rfl
              cases hlast'
            · simp only [List.length_reverse, List.length_take]
            · have hlastOk := hcons.hashes last (List.mem_of_getLast? hlast')
              simp only [orText_of_hashOk hlastOk, tip, hlast']
              rfl
        · cases hrec

/-- The check says that the shard matches. -/
def Matching (fam : Family) (registry : List (SealRecord F)) (shardId : PyStr) : Prop :=
  ∃ check, verifySealAgainstStorage fam registry shardId = .ok check ∧ check.status = .matching

/-- **When a shard matches its seal**: it has as many entries, up to the limit, and the
hash of the last one. -/
theorem matching_chrono_iff {fam : Family} {registry : List (SealRecord F)} {r : SealRecord F}
    (hfind : findSeal registry shardId = some r) {ds : List (Entry F)}
    (hds : chronoEntries fam = .ok ds) :
    Matching fam registry shardId ↔
      ds ≠ [] ∧ min sealLimit ds.length = r.entryCount ∧ pyEq (tip ds).orText r.lastHash = true := by
  unfold Matching verifySealAgainstStorage
  have hone := readSegmented_chrono hds 1
  have hall := readSegmented_chrono hds sealLimit
  rw [max_sealLimit] at hall
  rw [hfind, hone, hall]
  simp only
  rcases List.eq_nil_or_concat ds with rfl | ⟨ds, d, rfl⟩
  · simp
  · have htake : (ds.concat d).reverse.take (max 1 1) = [d] := by
      simp [List.concat_eq_append]
    have htip : tip (ds.concat d) = d.hash := by simp [tip]
    have hne : ds.concat d ≠ [] := by simp
    rw [htake, htip]
    simp only [Except.ok.injEq, exists_eq_left', List.length_take, List.length_reverse, ne_eq, hne,
      not_false_eq_true, true_and]
    split_ifs with h1 h2
    · exact iff_of_true rfl h1
    · exact iff_of_false (by decide) h1
    · exact iff_of_false (by decide) h1

/-! ### What a matching seal binds -/

/-- Two entries agree on every hashed field: what is hashed of them is written alike. -/
def Entry.HashedAlike (e d : Entry F) : Prop :=
  ∃ bs, canonicalJson (buildCanonicalEntry e e.prevHash) = .ok bs ∧
    canonicalJson (buildCanonicalEntry d d.prevHash) = .ok bs

/-- The hash is one of the entry, whatever hash the entry carries. -/
def Entry.HasHash (sha : Sha256) (e : Entry F) (hash : PyVal F) : Prop :=
  verifyHash sha (buildCanonicalEntry e e.prevHash) hash = .ok true

/-- **A chain by the hashes of what the entries say**: each of them has the hash that the
next one names, and the last has the given one. -/
structure Rehashed (sha : Sha256) (ds : List (Entry F)) (tip : PyVal F) : Prop where
  linked : ds.IsChain fun a b => a.HasHash sha b.prevHash
  last : ∀ d ∈ ds.getLast?, d.HasHash sha tip

/-- Entries that agree, agree on each hashed field. -/
theorem Entry.HashedAlike.agree {e d : Entry F} (h : e.HashedAlike d) (he : e.HashedJoined)
    (hd : d.HashedJoined) : e.Agree d := by
  obtain ⟨bs, hebs, hdbs⟩ := h
  exact agree_of_canonicalJson_eq hebs hdbs he hd

theorem Entry.HasHash.of_hashOk {e : Entry F} (h : hashOk sha e = true) : e.HasHash sha e.hash :=
  verifyHash_iff.mpr (hashOk_iff.mp h).2

/-- Entries that agree have the same hashes. -/
theorem Entry.HashedAlike.hasHash {e d : Entry F} (h : e.HashedAlike d) {hash : PyVal F}
    (he : e.HasHash sha hash) : d.HasHash sha hash := by
  obtain ⟨bs, hebs, hdbs⟩ := h
  obtain ⟨bs', hbs', hhash⟩ := verifyHash_iff.mp he
  obtain rfl := Except.ok.inj (hebs.symm.trans hbs')
  exact verifyHash_iff.mpr ⟨bs, hdbs, hhash⟩

/-- **Entries with one hash agree**, when the digest does not collide. -/
theorem hashedAlike_of_hasHash (hinj : Function.Injective sha) {e d : Entry F} {hash : PyVal F}
    (he : e.HasHash sha hash) (hd : d.HasHash sha hash) : e.HashedAlike d := by
  obtain ⟨bs, hebs, hehash⟩ := verifyHash_iff.mp he
  obtain ⟨bs', hdbs, hdhash⟩ := verifyHash_iff.mp hd
  have hversion : ∀ as cs, v1Prefix ++ hexdigest sha as ≠ hexdigest sha cs := by
    intro as cs heq
    have hcolon : 58 ∈ v1Prefix ++ hexdigest sha as :=
      List.mem_append_left _ (by decide : 58 ∈ v1Prefix)
    exact colon_notMem_hexdigest sha cs (heq ▸ hcolon)
  have hbytes : bs = bs' := by
    apply hexdigest_injective hinj
    rcases hehash with rfl | rfl <;> rcases hdhash with h | h
    · exact List.append_cancel_left (PyVal.str.inj h)
    · exact absurd (PyVal.str.inj h) (hversion _ _)
    · exact absurd (PyVal.str.inj h).symm (hversion _ _)
    · exact PyVal.str.inj h
  exact ⟨bs, hebs, hbytes ▸ hdbs⟩

/-- **Which entries agree with a verified chain of their number**: those that are a chain
by the hashes of what they say, up to its tip. -/
theorem hashedAlike_iff_rehashed (hinj : Function.Injective sha) {es ds : List (Entry F)}
    (hes : Consistent sha es) (hje : ∀ e ∈ es, e.HashedJoined) (hjd : ∀ d ∈ ds, d.HashedJoined)
    (hlen : es.length = ds.length) :
    List.Forall₂ Entry.HashedAlike es ds ↔ Rehashed sha ds (tip es) := by
  -- a link to a verified entry is its hash in both chains
  have hlink : ∀ x ∈ es, ∀ a b : Entry F, a.prevHash = x.hash →
      a.HashedAlike b ∧ a.HashedJoined ∧ b.HashedJoined → b.prevHash = x.hash := by
    rintro x hx a b hprev ⟨halike, ha, hb⟩
    obtain ⟨s, hs⟩ := exists_str_of_hashOk (hes.hashes x hx)
    have hcanon := (halike.agree ha hb).prevHash
    rw [hprev, hs] at hcanon
    rw [hs]
    exact eq_of_canon_str hcanon.symm
  constructor
  · intro halike
    have hget := (List.forall₂_iff_get.mp halike).2
    have hlinked := List.isChain_iff_getElem.mp hes.linked
    refine ⟨List.isChain_iff_getElem.mpr fun i hi => ?_, ?_⟩
    · have hi' : i + 1 < es.length := by omega
      have hhere := hget i (by omega) (by omega)
      have hnext := hget (i + 1) hi' hi
      have hprev := hlinked i hi'
      have hmem : es[i] ∈ es := List.getElem_mem _
      have hname := hlink es[i] hmem es[i + 1] ds[i + 1] hprev
        ⟨hnext, hje _ (List.getElem_mem _), hjd _ (List.getElem_mem _)⟩
      rw [hname]
      exact hhere.hasHash (.of_hashOk (hes.hashes _ hmem))
    · intro d hd
      rcases Pointwise.getLast?_cases halike with ⟨-, rfl⟩ | ⟨e, d', he, hd', hed⟩
      · cases hd
      · obtain rfl := Option.some.inj (hd'.symm.trans hd)
        rw [tip, he]
        exact hed.hasHash (.of_hashOk (hes.hashes e (List.mem_of_getLast? he)))
  · intro hre
    have hboth : List.Forall₂ (fun a b => a.HashedAlike b ∧ a.HashedJoined ∧ b.HashedJoined) es ds := by
      refine agree_of_names (N := Entry.HasHash sha) ?_ hlink hes.linked hre.linked hlen ?_
      · intro e he d hd hhash
        exact ⟨hashedAlike_of_hasHash hinj (.of_hashOk (hes.hashes e he)) hhash, hje e he, hjd d hd⟩
      · intro e he d hd
        have hlast := hre.last d hd
        rw [tip, Option.mem_def.mp he] at hlast
        exact hlast
    exact hboth.imp fun _ _ h => h.1

/-- **When entries that match a seal agree with the sealed ones**: when they are a chain by
the hashes of what they say, up to the sealed hash, and, past the limit, as many. -/
theorem seal_binds_iff (hinj : Function.Injective sha) {s : Shard F} {archivedPath : Option PyStr}
    {sealTimestamp : PyStr} {registry registry' later : List (SealRecord F)} {r : SealRecord F}
    (hseal : sealShard sha shardId s archivedPath sealTimestamp registry = (.ok r, registry'))
    {es : List (Entry F)} (hes : chronoEntries s.family = .ok es) {fam : Family}
    (hfind : findSeal later shardId = some r) (hmatch : Matching fam later shardId) :
    (∃ ds, chronoEntries fam = .ok ds ∧ List.Forall₂ Entry.HashedAlike es ds) ↔
      ∃ ds : List (Entry F), chronoEntries fam = .ok ds ∧ Rehashed sha ds r.lastHash ∧
        (es.length < sealLimit ∨ es.length = ds.length) := by
  obtain ⟨es', hes', -, hcons, -, hcount, htip, -, -⟩ := sealShard_spec hseal
  obtain rfl := Except.ok.inj (hes'.symm.trans hes)
  rw [htip]
  have hiff : ∀ {ds : List (Entry F)}, chronoEntries fam = .ok ds → es'.length = ds.length →
      (List.Forall₂ Entry.HashedAlike es' ds ↔ Rehashed sha ds (tip es')) := fun hds hlen =>
    hashedAlike_iff_rehashed hinj hcons (hashedJoined_of_disk hes') (hashedJoined_of_disk hds) hlen
  constructor
  · rintro ⟨ds, hds, halike⟩
    exact ⟨ds, hds, (hiff hds halike.length_eq).mp halike, .inr halike.length_eq⟩
  · rintro ⟨ds, hds, hre, hlength⟩
    obtain ⟨-, hcount', -⟩ := (matching_chrono_iff hfind hds).mp hmatch
    -- below the limit the check has compared the numbers
    have hlen : es'.length = ds.length := by
      rcases hlength with hlt | heq
      · rw [hcount] at hcount'
        omega
      · exact heq
    exact ⟨ds, hds, (hiff hds hlen).mpr hre⟩

/-! ### Runs of seals and appends -/

/-- A shard, the entries its appends returned, the registry, and how many entries there
were at the first seal. -/
structure SealRun (F : Type) where
  shard : Shard F
  entries : List (Entry F)
  registry : List (SealRecord F)
  sealedAt : Option ℕ

/-- An append, a seal, and a seal of another shard. -/
inductive SealEvent (F : Type)
  | append (now : Datetime) (entry : Entry F)
  | sealCall (archivedPath : Option PyStr) (sealTimestamp : PyStr)
  | other (record : SealRecord F)

namespace SealRun

/-- Nothing yet. -/
def start (family : PyStr) : SealRun F := ⟨Shard.empty F family, [], [], none⟩

/-- One call. -/
def step (cfg : Config) (shardId : PyStr) (r : SealRun F) : SealEvent F → SealRun F
  | .append now entry =>
    match r.shard.append cfg shardId now entry with
    | (.ok e, s) => { r with shard := s, entries := r.entries ++ [e] }
    | (.error _, s) => { r with shard := s }
  | .sealCall archivedPath sealTimestamp =>
    match sealShard cfg.sha shardId r.shard archivedPath sealTimestamp r.registry with
    | (.ok _, registry) =>
      { r with registry := registry, sealedAt := some (r.sealedAt.getD r.entries.length) }
    | (.error _, registry) => { r with registry := registry }
  | .other record =>
    if record.shardId = shardId then r else { r with registry := r.registry ++ [record] }

/-- The first record is that of the entries at the first seal. -/
def Recorded (shardId : PyStr) (r : SealRun F) : Prop :=
  match r.sealedAt with
  | none => findSeal r.registry shardId = none
  | some n => ∃ record, findSeal r.registry shardId = some record ∧ 0 < n ∧ n ≤ r.entries.length ∧
      record.entryCount = min sealLimit n ∧ record.lastHash = tip (r.entries.take n)

/-- The invariant of a run. -/
structure Sound (cfg : Config) (shardId : PyStr) (r : SealRun F) : Prop where
  intact : Intact cfg.sha shardId r.shard r.entries r.entries.length
  recorded : r.Recorded shardId

variable {cfg : Config}

omit [PyFloat F] in
/-- The first record stays the first. -/
theorem findSeal_append {registry new : List (SealRecord F)} {r : SealRecord F}
    (h : findSeal registry shardId = some r) : findSeal (registry ++ new) shardId = some r := by
  unfold findSeal at h ⊢
  rw [List.find?_append, h]
  rfl

omit [PyFloat F] in
theorem findSeal_append_none {registry new : List (SealRecord F)}
    (h : findSeal registry shardId = none) :
    findSeal (registry ++ new) shardId = findSeal new shardId := by
  unfold findSeal at h ⊢
  rw [List.find?_append, h]
  rfl

/-- What the storage reads of an intact shard. -/
theorem chronoEntries_intact {s : Shard F} {es : List (Entry F)} {k : ℕ}
    (h : Intact cfg.sha shardId s es k) :
    chronoEntries s.family = .ok (es.map (Entry.readBack shardId)) ∧
      tip (es.map (Entry.readBack shardId)) = tip es := by
  obtain ⟨⟨segs, hhist, hclean⟩, -⟩ := h
  exact ⟨chronoEntries_history hhist (quiet_of_clean hclean), tip_readBack hhist.chain⟩

/-- What a seal records in a run. -/
theorem Sound.seal_spec {r : SealRun F} (h : r.Sound cfg shardId) {archivedPath : Option PyStr}
    {sealTimestamp : PyStr} {record : SealRecord F} {registry : List (SealRecord F)}
    (hseal : sealShard cfg.sha shardId r.shard archivedPath sealTimestamp r.registry
      = (.ok record, registry)) :
    r.entries ≠ [] ∧ record.shardId = shardId ∧
      record.entryCount = min sealLimit r.entries.length ∧ record.lastHash = tip r.entries ∧
      registry = r.registry ++ [record] := by
  obtain ⟨es, hes, hne, -, hid, hcount, htip, -, hregistry⟩ := sealShard_spec hseal
  obtain ⟨hchrono, htips⟩ := chronoEntries_intact h.intact
  obtain rfl := Except.ok.inj (hchrono.symm.trans hes)
  rw [List.length_map] at hcount
  exact ⟨fun hnil => hne (by rw [hnil, List.map_nil]), hid, hcount, htip.trans htips, hregistry⟩

omit [PyFloat F] in
/-- More entries leave the record that of the first seal. -/
theorem Recorded.more {r : SealRun F} (h : r.Recorded shardId) (s : Shard F)
    (new : List (Entry F)) :
    ({ r with shard := s, entries := r.entries ++ new } : SealRun F).Recorded shardId := by
  unfold Recorded at h ⊢
  cases hn : r.sealedAt with
  | none =>
    rw [hn] at h
    exact h
  | some n =>
    rw [hn] at h
    obtain ⟨record, hfind, hpos, hle, hcount, htip⟩ := h
    refine ⟨record, hfind, hpos, ?_, hcount, ?_⟩
    · rw [List.length_append]
      omega
    · rw [htip, List.take_append_of_le_length hle]

/-- **A call keeps the invariant.** -/
theorem Sound.step {r : SealRun F} (h : r.Sound cfg shardId) (e : SealEvent F) :
    (r.step cfg shardId e).Sound cfg shardId := by
  cases e with
  | append now entry =>
    simp only [SealRun.step]
    rcases intact_append now h.intact entry with ⟨e', s', heq, hint, -⟩ | ⟨err, s', heq, hint⟩
    · rw [heq]
      refine ⟨?_, h.recorded.more s' [e']⟩
      rw [List.length_append, List.length_singleton]
      exact hint
    · rw [heq]
      refine ⟨hint, ?_⟩
      have hmore := h.recorded.more s' []
      rwa [List.append_nil] at hmore
  | sealCall archivedPath sealTimestamp =>
    simp only [SealRun.step]
    split
    · next record registry hseal =>
      obtain ⟨hne, hid, hcount, htip, rfl⟩ := h.seal_spec hseal
      refine ⟨h.intact, ?_⟩
      have hrecorded := h.recorded
      unfold Recorded at hrecorded ⊢
      cases hn : r.sealedAt with
      | none =>
        -- this is the first seal
        rw [hn] at hrecorded
        refine ⟨record, ?_, List.length_pos_iff.mpr hne, le_rfl, hcount, ?_⟩
        · rw [findSeal_append_none hrecorded]
          simp [findSeal, hid]
        · rw [Option.getD_none, List.take_length]
          exact htip
      | some n =>
        rw [hn] at hrecorded
        obtain ⟨first, hfind, hrest⟩ := hrecorded
        exact ⟨first, findSeal_append hfind, hrest⟩
    · next err registry hseal =>
      have hsame : registry = r.registry := by
        unfold sealShard at hseal
        split at hseal
        · exact (Prod.mk.inj hseal).2.symm
        · split at hseal
          · exact (Prod.mk.inj hseal).2.symm
          · cases (Prod.mk.inj hseal).1
      subst hsame
      exact ⟨h.intact, h.recorded⟩
  | other record =>
    simp only [SealRun.step]
    split_ifs with hid
    · exact h
    · refine ⟨h.intact, ?_⟩
      have hrecorded := h.recorded
      unfold Recorded at hrecorded ⊢
      cases hn : r.sealedAt with
      | none =>
        rw [hn] at hrecorded
        simp only
        rw [findSeal_append_none hrecorded]
        simp [findSeal, hid]
      | some n =>
        rw [hn] at hrecorded
        obtain ⟨first, hfind, hrest⟩ := hrecorded
        exact ⟨first, findSeal_append hfind, hrest⟩

theorem sound_start (cfg : Config) (shardId family : PyStr) :
    (start family : SealRun F).Sound cfg shardId := ⟨intact_empty _ _ _, rfl⟩

theorem sound_run (cfg : Config) (shardId family : PyStr) (events : List (SealEvent F)) :
    (run (step cfg shardId) (start family) events).Sound cfg shardId :=
  run_keeps (fun _ e h => h.step e) (sound_start cfg shardId family) events

/-! ### When a seal is at once followed by a match -/

theorem hashOk_of_sealed {e : Entry F} (h : Sealed sha e) : hashOk sha e = true := by
  have htruthy := h.truthy
  obtain ⟨bs, hbs, hhash⟩ := h
  exact hashOk_iff.mpr ⟨htruthy, bs, hbs, .inl hhash⟩

/-- **No tip comes twice**: the tip of a part of a sealed chain is that of the whole only
if it is the whole. -/
theorem tip_take_eq_iff (hinj : Function.Injective sha) {es : List (Entry F)}
    (hes : SealedChain sha es) (hjoined : ∀ e ∈ es, e.HashedJoined) {n : ℕ} (hpos : 0 < n)
    (hle : n ≤ es.length) : tip (es.take n) = tip es ↔ n = es.length := by
  have hnodup : (es.map Entry.hash).Nodup := by
    refine nodup_hash ?_ hes.linked ?_
    · intro a ha b hb heq
      have hmatch := matches_of_hash_eq hinj (hes.hashes a ha) (hes.link a ha)
        (hashOk_of_sealed (hes.hashes b hb)) (hjoined a ha) (hjoined b hb) heq
      exact hmatch.link
    · intro a ha b hb heq
      obtain ⟨bs, -, hhash⟩ := hes.hashes b hb
      rw [hes.first a ha, hhash] at heq
      cases heq
  constructor
  · intro htip
    have hhere : es[n - 1]?.map Entry.hash = some (tip es) :=
      (hash_getElem?_eq hpos hle).mpr htip
    have hlast : es[es.length - 1]?.map Entry.hash = some (tip es) :=
      (hash_getElem?_eq (by omega) le_rfl).mpr (by rw [List.take_length])
    rw [← List.getElem?_map] at hhere hlast
    have hbound : n - 1 < (es.map Entry.hash).length := by
      rw [List.length_map]
      omega
    have hindex : n - 1 = es.length - 1 :=
      (List.getElem?_inj hbound hnodup).mp (hhere.trans hlast.symm)
    omega
  · rintro rfl
    rw [List.take_length]

/-- **When a seal is at once followed by a match**: when no entry was appended since the
first seal. -/
theorem Sound.matching_iff {r : SealRun F} (h : r.Sound cfg shardId)
    (hinj : Function.Injective cfg.sha) {archivedPath : Option PyStr} {sealTimestamp : PyStr}
    {record : SealRecord F} {registry : List (SealRecord F)}
    (hseal : sealShard cfg.sha shardId r.shard archivedPath sealTimestamp r.registry
      = (.ok record, registry)) :
    Matching r.shard.family registry shardId ↔ ∀ n ∈ r.sealedAt, n = r.entries.length := by
  obtain ⟨hne, hid, hcount, htip, rfl⟩ := h.seal_spec hseal
  obtain ⟨hchrono, htips⟩ := chronoEntries_intact h.intact
  obtain ⟨⟨segs, hhist, -⟩, -⟩ := h.intact
  have hjoined := hhist.hashedJoined
  have hread : r.entries.map (Entry.readBack shardId) ≠ [] := fun hnil =>
    hne (List.map_eq_nil_iff.mp hnil)
  -- the tip that the check reads is a string, and so is compared as it is
  obtain ⟨t, ht⟩ : ∃ t, tip r.entries = .str t := by
    obtain ⟨es, e, hes⟩ := (List.eq_nil_or_concat r.entries).resolve_left hne
    rw [hes, List.concat_eq_append, tip_concat]
    obtain ⟨bs, -, hhash⟩ := hhist.chain.hashes e (by rw [hes]; simp)
    exact ⟨_, hhash⟩
  have horText : (tip r.entries).orText = tip r.entries := by
    rw [ht]
    cases t <;> rfl
  have hrecorded := h.recorded
  unfold Recorded at hrecorded
  cases hn : r.sealedAt with
  | none =>
    rw [hn] at hrecorded
    have hfind : findSeal (r.registry ++ [record]) shardId = some record := by
      rw [findSeal_append_none hrecorded]
      simp [findSeal, hid]
    refine iff_of_true ((matching_chrono_iff hfind hchrono).mpr ⟨hread, ?_, ?_⟩) ?_
    · rw [List.length_map, hcount]
    · rw [htips, htip, horText, ht]
      exact pyEq_str_right.mpr rfl
    · rintro n ⟨⟩
  | some n =>
    rw [hn] at hrecorded
    obtain ⟨first, hfind, hpos, hle, hcount', htip'⟩ := hrecorded
    rw [matching_chrono_iff (findSeal_append hfind) hchrono, htips, horText, List.length_map,
      hcount', htip', ht, pyEq_str_left, ← ht, tip_take_eq_iff hinj hhist.chain hjoined hpos hle]
    constructor
    · rintro ⟨-, -, heq⟩ m ⟨⟩
      exact heq
    · intro heq
      have hlen : n = r.entries.length := heq n rfl
      exact ⟨hread, by rw [hlen], hlen⟩

end SealRun

/-- **What a matching seal says, and when it matches.**  Entries that match a seal agree
with the sealed ones exactly when they are a chain by the hashes of what they say, up to
the sealed hash, and, past the limit, as many.  In a run of seals and appends a seal is at
once followed by a match exactly when no entry was appended since the first seal. -/
theorem seal_iff {cfg : Config} (hinj : Function.Injective cfg.sha) (shardId : PyStr) :
    (∀ (s : Shard F) (archivedPath : Option PyStr) (sealTimestamp : PyStr)
        (registry registry' later : List (SealRecord F)) (r : SealRecord F) (es : List (Entry F))
        (fam : Family),
      sealShard cfg.sha shardId s archivedPath sealTimestamp registry = (.ok r, registry') →
      chronoEntries s.family = .ok es → findSeal later shardId = some r →
      verifySeal cfg.sha later shardId = .ok .valid → Matching fam later shardId →
      ((∃ ds, chronoEntries fam = .ok ds ∧ List.Forall₂ Entry.HashedAlike es ds) ↔
        ∃ ds : List (Entry F), chronoEntries fam = .ok ds ∧ Rehashed cfg.sha ds r.lastHash ∧
          (es.length < sealLimit ∨ es.length = ds.length))) ∧
    (∀ (family : PyStr) (events : List (SealEvent F)) (archivedPath : Option PyStr)
        (sealTimestamp : PyStr) (record : SealRecord F) (registry : List (SealRecord F)),
      let r := run (SealRun.step cfg shardId) (SealRun.start family) events
      sealShard cfg.sha shardId r.shard archivedPath sealTimestamp r.registry
        = (.ok record, registry) →
      (Matching r.shard.family registry shardId ↔ ∀ n ∈ r.sealedAt, n = r.entries.length)) := by
  constructor
  · intro s archivedPath sealTimestamp registry registry' later r es fam hseal hes hfind _ hmatch
    exact seal_binds_iff hinj hseal hes hfind hmatch
  · intro family events archivedPath sealTimestamp record registry r hseal
    exact (SealRun.sound_run cfg shardId family events).matching_iff hinj hseal

end

end Daryl
