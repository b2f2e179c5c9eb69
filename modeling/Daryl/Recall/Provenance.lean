import Daryl.Recall.Search

/-!
# `provenance.builder`: verified claims

With `verify=True` a search verifies the source shard of every item and calls an item a
fact when its shard verifies, it is a historical decision and it is still relevant.  The
source shard is the one the stored entry names, not the one it was read from, and the
items are then picked by their hashes alone.

## Main definitions

* `itemShard` — `_item_shard`.
* `verifies` — `verify_shard` reports `OK`.
* `ProvenanceBlock`, `buildProvenance` — the provenance block.
* `promoteToVerifiedClaims` — the items picked.
* `searchMemory` — `search_memory` with `verify=True`.
* `Promotable`, `Genuine` — what the rule asks, and what it should have asked.
* `HashesTell` — no item that is not genuine has the hash of a promotable one.

## Main results

* `mem_promotableHashes` — the hashes of the promotable items.
* `verifiedClaims_genuine_iff` — **the claims are genuine iff the hashes tell the promotable
  items from the others.**
* `forged_claim` — a line that names another shard is called a fact.
-/

namespace Daryl

open Py

/-- `integrity` of a block. -/
inductive Integrity
  | ok
  | notVerified
  | broken
  deriving DecidableEq

/-- `trust_level` of a block. -/
inductive TrustLevel
  | verified
  | isPartial
  | unverified
  deriving DecidableEq

/-- The provenance block, but for the hint and the ages. -/
structure ProvenanceBlock where
  entryHashes : List PyStr
  sourceShards : List PyStr
  integrity : Integrity
  recordCount : ℕ
  trustLevel : TrustLevel
  brokenChains : ℕ
  verifiedShards : List PyStr
  promotableHashes : List PyStr

/-- `_dedupe_preserve_order`: each value that is not empty, where it first stands. -/
def dedupePreserveOrder (xs : List PyStr) : List PyStr :=
  xs.foldl (fun out x => if x ≠ [] ∧ x ∉ out then out ++ [x] else out) []

/-- The values that are not empty are kept. -/
theorem mem_dedupePreserveOrder {xs : List PyStr} {x : PyStr} :
    x ∈ dedupePreserveOrder xs ↔ x ∈ xs ∧ x ≠ [] := by
  induction xs using List.reverseRecOn with
  | nil => simp [dedupePreserveOrder]
  | append_singleton xs y ih =>
    have hstep : dedupePreserveOrder (xs ++ [y])
        = if y ≠ [] ∧ y ∉ dedupePreserveOrder xs then dedupePreserveOrder xs ++ [y]
          else dedupePreserveOrder xs := by
      rw [dedupePreserveOrder, List.foldl_append]
      rfl
    rw [hstep, List.mem_append, List.mem_singleton]
    by_cases hy : y ≠ [] ∧ y ∉ dedupePreserveOrder xs
    · rw [if_pos hy, List.mem_append, List.mem_singleton, ih]
      constructor
      · rintro (h | rfl)
        · exact ⟨Or.inl h.1, h.2⟩
        · exact ⟨Or.inr rfl, hy.1⟩
      · rintro ⟨h | rfl, hne⟩
        · exact Or.inl ⟨h, hne⟩
        · exact Or.inr rfl
    · rw [if_neg hy, ih]
      constructor
      · rintro ⟨h, hne⟩
        exact ⟨Or.inl h, hne⟩
      · rintro ⟨h | rfl, hne⟩
        · exact ⟨h, hne⟩
        · -- what is not added was there
          by_contra hout
          exact hy ⟨hne, fun hmem => hout (ih.mp hmem)⟩

section

variable {F R : Type} [PyFloat F] (b : Builtins F R) (sha : Sha256) (d : Disk F)

/-- `_item_shard`: the shard the entry names, or its session. -/
def itemShard (m : Item F R) : PyStr :=
  b.strOf (pyOr m.entry.shard (pyOr m.entry.sessionId (.str [])))

/-- `verify_shard` reports `OK`. -/
def verifies (shardId : PyStr) : Bool :=
  match d.verify sha shardId with
  | .ok r => r.status = .ok
  | .error _ => false

/-- The source shards of the items. -/
def sourceShards (items : List (Item F R)) : List PyStr :=
  (((items.map (itemShard b)).filter fun s => s ≠ []).dedup).insertionSort (· ≤ ·)

/-- `promotable_hashes`. -/
def promotableHashes (verifiedShards : List PyStr) (items : List (Item F R)) : List PyStr :=
  dedupePreserveOrder ((items.filter fun m =>
    itemShard b m ∈ verifiedShards ∧ m.type = historicalDecision ∧
      m.timeStatus = .stillRelevant ∧ m.entry.hash.truthy).map fun m => b.strOf m.entry.hash)

/-- `build_provenance` with `verify=True`. -/
def buildProvenance (items : List (Item F R)) : ProvenanceBlock :=
  let shards := sourceShards b items
  let verifiedShards := shards.filter (verifies sha d)
  let broken := shards.length - verifiedShards.length
  { entryHashes := dedupePreserveOrder
      ((items.filter fun m => m.entry.hash.truthy).map fun m => b.strOf m.entry.hash)
    sourceShards := shards
    integrity := if items = [] then .notVerified else if broken = 0 then .ok else .broken
    recordCount := items.length
    trustLevel :=
      if items = [] then .isPartial
      else if broken = 0 then .verified
      else if broken < shards.length then .isPartial
      else .unverified
    brokenChains := broken
    verifiedShards := verifiedShards
    promotableHashes := promotableHashes b verifiedShards items }

/-- A promoted item: its type is now `verified_fact`, and the one it had is kept. -/
structure VerifiedClaim (F R : Type) where
  item : Item F R
  promotedFrom : PyStr

/-- `VERIFIED_FACT`. -/
def verifiedFact : PyStr := py "verified_fact"

/-- `promoted_from` and the new type. -/
def Item.promote (m : Item F R) : VerifiedClaim F R := ⟨{ m with type := verifiedFact }, m.type⟩

/-- A value a set can be asked for: lists and dicts have no hash, and a tuple is not read
from a file. -/
def hashable : PyVal F → Bool
  | .list _ => false
  | .dict _ => false
  | _ => true

/-- `h in texts`, for a set of strings. -/
def inTexts (texts : List PyStr) : PyVal F → Bool
  | .str s => s ∈ texts
  | _ => false

/-- `m.get("entry_hash") or ""`. -/
def Item.hash (m : Item F R) : PyVal F := pyOr m.entry.hash (.str [])

/-- `promote_to_verified_claims`. -/
def promoteToVerifiedClaims (promotable : List PyStr) :
    List (Item F R) → Except PyError (List (VerifiedClaim F R))
  | [] => .ok []
  | m :: ms =>
    if promotable = [] then .ok []
    else if hashable m.hash then
      (promoteToVerifiedClaims promotable ms).map fun claims =>
        if inTexts promotable m.hash then m.promote :: claims else claims
    else .error .typeError

variable [LinearOrder R]

/-- What a search returns. -/
structure SearchResult (F R : Type) where
  currentMatches : List (Item F R)
  pastMatches : List (Item F R)
  provenance : ProvenanceBlock
  verifiedClaims : List (VerifiedClaim F R)

/-- `search_memory` with `verify=True`. -/
def searchMemory (c : Call R) : Except PyError (SearchResult F R) :=
  (recallItems b d c).bind fun r =>
    let items := r.1 ++ r.2
    let prov := buildProvenance b sha d items
    (promoteToVerifiedClaims prov.promotableHashes items).map fun claims =>
      ⟨r.2, r.1, prov, claims⟩

/-! ### What the rule asks -/

omit [LinearOrder R]

/-- The rule of promotion holds of the item: the shard it names verifies. -/
structure Promotable (m : Item F R) : Prop where
  named : itemShard b m ≠ []
  verifies : verifies sha d (itemShard b m) = true
  type : m.type = historicalDecision
  timeStatus : m.timeStatus = .stillRelevant
  hash : m.entry.hash.truthy = true
  text : b.strOf m.entry.hash ≠ []

/-- The item is a decision that is still relevant, read from a shard that verifies. -/
structure Genuine (m : Item F R) : Prop where
  verifies : verifies sha d m.shard = true
  type : m.type = historicalDecision
  timeStatus : m.timeStatus = .stillRelevant

/-- **The hashes that are promoted are those of promotable items.** -/
theorem mem_promotableHashes {items : List (Item F R)} {s : PyStr} :
    s ∈ (buildProvenance b sha d items).promotableHashes ↔
      ∃ m ∈ items, Promotable b sha d m ∧ b.strOf m.entry.hash = s := by
  have hshard : ∀ m ∈ items, itemShard b m ∈ (sourceShards b items).filter (verifies sha d) ↔
      itemShard b m ≠ [] ∧ verifies sha d (itemShard b m) = true := by
    intro m hm
    unfold sourceShards
    rw [List.mem_filter, List.mem_insertionSort, List.mem_dedup, List.mem_filter]
    constructor
    · rintro ⟨⟨-, hne⟩, hver⟩
      exact ⟨of_decide_eq_true hne, hver⟩
    · rintro ⟨hne, hver⟩
      exact ⟨⟨List.mem_map_of_mem hm, decide_eq_true hne⟩, hver⟩
  change s ∈ promotableHashes b _ items ↔ _
  rw [promotableHashes, mem_dedupePreserveOrder, List.mem_map]
  constructor
  · rintro ⟨⟨m, hm, rfl⟩, hne⟩
    obtain ⟨hmem, hrule⟩ := List.mem_filter.mp hm
    obtain ⟨hver, htype, hstatus, hhash⟩ := of_decide_eq_true hrule
    obtain ⟨hnamed, hver⟩ := (hshard m hmem).mp hver
    exact ⟨m, hmem, ⟨hnamed, hver, htype, hstatus, hhash, hne⟩, rfl⟩
  · rintro ⟨m, hmem, hrule, rfl⟩
    refine ⟨⟨m, List.mem_filter.mpr ⟨hmem, decide_eq_true ?_⟩, rfl⟩, hrule.text⟩
    exact ⟨(hshard m hmem).mpr ⟨hrule.named, hrule.verifies⟩, hrule.type, hrule.timeStatus,
      hrule.hash⟩

/-- A hash in the set is a string of it. -/
theorem inTexts_hash {texts : List PyStr} (hnil : [] ∉ texts) {m : Item F R} :
    inTexts texts m.hash = true ↔ ∃ s ∈ texts, m.entry.hash = .str s := by
  unfold Item.hash pyOr
  by_cases ht : m.entry.hash.truthy = true
  · rw [if_pos ht]
    cases hh : m.entry.hash with
    | str s => simp [inTexts]
    | _ => simp [inTexts]
  · rw [if_neg ht]
    constructor
    · intro h
      exact absurd (of_decide_eq_true h) hnil
    · rintro ⟨s, hs, hh⟩
      rw [hh] at ht
      have hs' : s = [] := by simpa [PyVal.truthy] using ht
      exact absurd (hs' ▸ hs) hnil

/-- What is promoted, when a hash is: every item must have a hash to ask for. -/
theorem promoteToVerifiedClaims_eq_ok {texts : List PyStr} (hne : texts ≠ [])
    {items : List (Item F R)} {claims : List (VerifiedClaim F R)} :
    promoteToVerifiedClaims texts items = .ok claims ↔
      (∀ m ∈ items, hashable m.hash = true) ∧
        (items.filter fun m => inTexts texts m.hash).map Item.promote = claims := by
  induction items generalizing claims with
  | nil => simp [promoteToVerifiedClaims]
  | cons m ms ih =>
    rw [promoteToVerifiedClaims, if_neg hne, List.forall_mem_cons]
    by_cases hm : hashable m.hash = true
    · rw [if_pos hm]
      cases hrest : promoteToVerifiedClaims texts ms with
      | error err =>
        constructor
        · intro h
          cases h
        · rintro ⟨⟨-, hall⟩, -⟩
          have hok := ih.mpr ⟨hall, rfl⟩
          rw [hrest] at hok
          cases hok
      | ok promoted =>
        obtain ⟨hall, hpromoted⟩ := ih.mp hrest
        rw [List.filter_cons]
        by_cases hin : inTexts texts m.hash = true
        · -- its hash was asked for
          rw [if_pos hin, List.map_cons]
          constructor
          · intro h
            have hcons : m.promote :: promoted = claims := by simpa [Except.map, hin] using h
            exact ⟨⟨hm, hall⟩, by rw [hpromoted, hcons]⟩
          · rintro ⟨-, rfl⟩
            simp [Except.map, hin, hpromoted]
        · -- it was not
          rw [if_neg hin]
          constructor
          · intro h
            have heq : promoted = claims := by simpa [Except.map, hin] using h
            exact ⟨⟨hm, hall⟩, hpromoted.trans heq⟩
          · rintro ⟨-, rfl⟩
            simp [Except.map, hin, hpromoted]
    · -- a hash that cannot be looked up raises
      rw [if_neg hm]
      constructor
      · intro h
        cases h
      · rintro ⟨⟨h, -⟩, -⟩
        exact absurd h hm

/-- A claim is that of a genuine item. -/
structure GenuineClaim (claim : VerifiedClaim F R) : Prop where
  verifies : verifies sha d claim.item.shard = true
  type : claim.promotedFrom = historicalDecision
  timeStatus : claim.item.timeStatus = .stillRelevant

theorem genuineClaim_promote {m : Item F R} : GenuineClaim sha d m.promote ↔ Genuine sha d m :=
  ⟨fun h => ⟨h.verifies, h.type, h.timeStatus⟩, fun h => ⟨h.verifies, h.type, h.timeStatus⟩⟩

/-- **An item that carries the hash of a promotable item is genuine.** -/
def HashesTell (items : List (Item F R)) : Prop :=
  ∀ m ∈ items, ∀ m' ∈ items, Promotable b sha d m' →
    m.entry.hash = .str (b.strOf m'.entry.hash) → Genuine sha d m

/-- The items promoted are genuine iff the hashes tell them from the others, or a hash
that no set can be asked for ends the search. -/
theorem promoted_genuine_iff (items : List (Item F R)) :
    (∀ claims, promoteToVerifiedClaims (buildProvenance b sha d items).promotableHashes items
        = .ok claims → ∀ claim ∈ claims, GenuineClaim sha d claim) ↔
      (∃ m ∈ items, hashable m.hash = false) ∨ HashesTell b sha d items := by
  have hnil : [] ∉ (buildProvenance b sha d items).promotableHashes := by
    intro hmem
    obtain ⟨m, -, hrule, htext⟩ := (mem_promotableHashes b sha d).mp hmem
    exact hrule.text htext
  by_cases hne : (buildProvenance b sha d items).promotableHashes = []
  · -- nothing is promotable, so nothing is promoted
    have hnone : HashesTell b sha d items := by
      intro m _ m' hm' hrule _
      have hmem := (mem_promotableHashes b sha d).mpr ⟨m', hm', hrule, rfl⟩
      rw [hne] at hmem
      exact absurd hmem List.not_mem_nil
    refine iff_of_true ?_ (Or.inr hnone)
    intro claims hclaims claim hclaim
    rw [hne] at hclaims
    have hempty : claims = [] := by
      cases items with
      | nil => exact (Except.ok.inj hclaims).symm
      | cons m ms => exact (Except.ok.inj hclaims).symm
    rw [hempty] at hclaim
    exact absurd hclaim List.not_mem_nil
  · simp only [promoteToVerifiedClaims_eq_ok hne]
    constructor
    · intro h
      by_cases hall : ∀ m ∈ items, hashable m.hash = true
      · right
        intro m hm m' hm' hrule hhash
        have hin : inTexts (buildProvenance b sha d items).promotableHashes m.hash = true :=
          (inTexts_hash hnil).mpr
            ⟨_, (mem_promotableHashes b sha d).mpr ⟨m', hm', hrule, rfl⟩, hhash⟩
        have hclaim := h _ ⟨hall, rfl⟩ m.promote
          (List.mem_map_of_mem (List.mem_filter.mpr ⟨hm, hin⟩))
        exact (genuineClaim_promote sha d).mp hclaim
      · left
        push Not at hall
        obtain ⟨m, hm, hh⟩ := hall
        exact ⟨m, hm, Bool.eq_false_iff.mpr hh⟩
    · rintro (⟨m, hm, hh⟩ | htell) claims ⟨hall, rfl⟩ claim hclaim
      · rw [hall m hm] at hh
        cases hh
      · obtain ⟨m, hm, rfl⟩ := List.mem_map.mp hclaim
        obtain ⟨hm, hin⟩ := List.mem_filter.mp hm
        obtain ⟨s, hs, hhash⟩ := (inTexts_hash hnil).mp hin
        obtain ⟨m', hm', hrule, rfl⟩ := (mem_promotableHashes b sha d).mp hs
        exact (genuineClaim_promote sha d).mpr (htell m hm m' hm' hrule hhash)

variable [LinearOrder R]

/-- **The verified claims of a search are decisions that are still relevant, read from
shards that verify, iff among the items found no hash of a promotable one is that of one
that is not such a decision**, or the search ends with an exception. -/
theorem verifiedClaims_genuine_iff (c : Call R) :
    (∀ out, searchMemory b sha d c = .ok out →
        ∀ claim ∈ out.verifiedClaims, GenuineClaim sha d claim) ↔
      ∀ r, recallItems b d c = .ok r →
        (∃ m ∈ r.1 ++ r.2, hashable m.hash = false) ∨ HashesTell b sha d (r.1 ++ r.2) := by
  unfold searchMemory
  cases recallItems b d c with
  | error err =>
    refine iff_of_true ?_ ?_
    · intro out h
      cases h
    · intro r h
      cases h
  | ok r =>
    have hmap : ∀ {x : Except PyError (List (VerifiedClaim F R))} {out : SearchResult F R}
        {f : List (VerifiedClaim F R) → SearchResult F R}, x.map f = .ok out →
        ∃ claims, x = .ok claims ∧ f claims = out := by
      intro x out f h
      cases x with
      | error err => cases h
      | ok claims => exact ⟨claims, rfl, Except.ok.inj h⟩
    constructor
    · intro h r' hr'
      obtain rfl := Except.ok.inj hr'
      apply (promoted_genuine_iff b sha d (r.1 ++ r.2)).mp
      intro claims hclaims
      apply h ⟨r.2, r.1, buildProvenance b sha d (r.1 ++ r.2), claims⟩
      change Except.map _ (promoteToVerifiedClaims _ _) = _
      rw [hclaims]
      rfl
    · intro h out hout
      obtain ⟨claims, hclaims, rfl⟩ := hmap hout
      exact (promoted_genuine_iff b sha d (r.1 ++ r.2)).mpr (h r rfl) claims hclaims

end

/-! ### A forged line -/

/-- Python's words on ASCII, whole numbers, and times that are all alike. -/
def sampleBuiltins : Builtins FloatLit ℕ where
  str _ := py "?"
  lower := List.map fun c => if 65 ≤ c.val ∧ c.val ≤ 90 then c + 32 else c
  timestamp _ := some 0
  number q := q.num.toNat
  sqrt := Nat.sqrt
  sub := Nat.sub
  mul := Nat.mul
  div := Nat.div
  pow x _ := x
  round _ := id

/-- A line of an entry with a hash that is none, and that names a shard with no entries. -/
def forgedLine : PyStr :=
  py "\x7b\"id\": \"e\", \"timestamp\": \"2026-01-02T03:04:05+00:00\", \"session_id\": \"s\", "
    ++ py "\"source\": \"test\", \"content\": \"deploy\", \"shard\": \"good\", \"hash\": \"x\", "
    ++ py "\"prev_hash\": null, \"metadata\": \x7b\"event_type\": \"user_prompt\"\x7d, "
    ++ py "\"version\": \"v2.0\"\x7d"

/-- A data directory of one shard, which holds the line. -/
def forgedDisk : Disk FloatLit :=
  ⟨[(py "bad", ⟨py "bad", [(segmentName (py "bad") 1, lineBytes forgedLine)], none⟩)], [], []⟩

/-- A search for a word of the line. -/
def forgedCall : Call ℕ where
  query := py "deploy"
  sessionId := none
  shardIds := [py "bad"]
  acrossSessions := true
  maxResults := 10
  includeCurrentSession := true
  typeOverrides := []
  now := 0
  clock := sampleTime

/-- **The line is a verified claim, and the shard it was read from does not verify.** -/
theorem forged_claim : ¬∀ out, searchMemory sampleBuiltins nibbles forgedDisk forgedCall = .ok out →
    ∀ claim ∈ out.verifiedClaims, GenuineClaim nibbles forgedDisk claim := by
  intro h
  have hrun : (searchMemory sampleBuiltins nibbles forgedDisk forgedCall).map
      (fun out => out.verifiedClaims.map fun claim => claim.item.shard) = .ok [py "bad"] := by
    decide +kernel
  have hbad : verifies nibbles forgedDisk (py "bad") = false := by decide +kernel
  cases hout : searchMemory sampleBuiltins nibbles forgedDisk forgedCall with
  | error err =>
    rw [hout] at hrun
    cases hrun
  | ok out =>
    rw [hout] at hrun
    have hshards := Except.ok.inj hrun
    obtain ⟨claim, hclaim, hshard⟩ := List.mem_map.mp (hshards ▸ List.mem_singleton_self _)
    have hver := (h out hout claim hclaim).verifies
    rw [hshard, hbad] at hver
    cases hver

end Daryl
