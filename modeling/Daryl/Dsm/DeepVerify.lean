import Daryl.Dsm.Disk
import Daryl.Dsm.History

/-!
# `lifecycle`: the verification of a shard

`ShardLifecycle.verify` reads a shard, and looks at the hash of its newest entry or, in its
deep form, at the links between the newest million.  It does not recompute a hash.

## Main definitions

* `lifecycleVerify` — the verification.
* `AsStrong` — where the deep form passes, `verify_shard` finds nothing.

## Main results

* `deep_passes_iff` — the deep form passes exactly when the entries read are linked.
* `asStrong_iff` — **when the deep form is as strong as `verify_shard`.**
-/

namespace Daryl

open Py HashChain

/-- `VerifyResult` of the lifecycle. -/
structure DeepResult (F : Type) where
  passed : Bool
  reason : Option PyStr
  lastHash : PyVal F
  entryCount : ℕ
  tipHash : Option (PyVal F)
  breakAt : Option ℕ

variable {F : Type} [PyFloat F]

/-- The position of the first entry that does not name the hash of the one before it; `i` is
that of the second. -/
def firstBreak : ℕ → List (Entry F) → Option ℕ
  | i, a :: b :: es => if pyEq b.prevHash a.hash then firstBreak (i + 1) (b :: es) else some i
  | _, _ => none

/-- The links of entries, as the deep form compares them. -/
def LinksHold (entries : List (Entry F)) : Prop :=
  entries.IsChain fun a b => pyEq b.prevHash a.hash = true

/-- `10**6`. -/
def deepLimit : ℕ := 1000000

/-- `verify`. -/
def lifecycleVerify (d : Disk F) (shardId : PyStr) (deep : Bool) : Except PyError (DeepResult F) :=
  (d.read shardId 0 (if deep then deepLimit else 2)).map fun entries =>
    match entries with
    | [] => ⟨true, some (py "empty shard"), .none, 0, none, none⟩
    | newest :: _ =>
      if deep then
        match firstBreak 1 entries.reverse with
        | some i => ⟨false, some (py "chain break at entry " ++ natStr i), newest.hash,
            entries.length, none, some i⟩
        | none => ⟨true, none, newest.hash, entries.length, none, none⟩
      else
        -- `hash is not None and hash != ""`, and a reason where the hash is falsy
        ⟨!newest.hash.isNone && !pyEq newest.hash (.str []),
          if newest.hash.truthy then none else some (py "missing hash on tip"), newest.hash,
          entries.length, some newest.hash, none⟩

/-- **Where the deep form passes, `verify_shard` reports nothing tampered and no chain
break.** -/
def AsStrong (sha : Sha256) (d : Disk F) (shardId : PyStr) : Prop :=
  (∃ r, lifecycleVerify d shardId true = .ok r ∧ r.passed = true) →
    ∃ report, d.verify sha shardId = .ok report ∧ report.tampered = 0 ∧ report.chainBreaks = 0

theorem firstBreak_eq_none (i : ℕ) (entries : List (Entry F)) :
    firstBreak i entries = none ↔ LinksHold entries := by
  induction entries generalizing i with
  | nil => exact iff_of_true rfl List.IsChain.nil
  | cons a es ih =>
    cases es with
    | nil => exact iff_of_true rfl (List.IsChain.singleton a)
    | cons b es =>
      rw [firstBreak, LinksHold, List.isChain_cons_cons]
      by_cases h : pyEq b.prevHash a.hash = true
      · rw [if_pos h, ih (i + 1)]
        exact (and_iff_right h).symm
      · rw [if_neg h]
        exact iff_of_false (Option.some_ne_none i) fun hl => h hl.1

/-- **The deep form passes exactly when the entries it reads are linked.** -/
theorem deep_passes_iff (d : Disk F) (shardId : PyStr) :
    (∃ r, lifecycleVerify d shardId true = .ok r ∧ r.passed = true) ↔
      ∃ entries, d.read shardId 0 deepLimit = .ok entries ∧ LinksHold entries.reverse := by
  unfold lifecycleVerify
  rw [if_pos rfl]
  cases hread : d.read shardId 0 deepLimit with
  | error e =>
    constructor
    · rintro ⟨r, hr, -⟩
      cases hr
    · rintro ⟨entries, h, -⟩
      cases h
  | ok entries =>
    have hsome : (∃ entries', Except.ok entries = (Except.ok entries' : Except PyError _) ∧
        LinksHold entries'.reverse) ↔ LinksHold entries.reverse := by
      constructor
      · rintro ⟨_, h, hl⟩
        obtain rfl := Except.ok.inj h
        exact hl
      · exact fun hl => ⟨entries, rfl, hl⟩
    rw [hsome, ← firstBreak_eq_none 1]
    cases entries with
    | nil => exact iff_of_true ⟨_, rfl, rfl⟩ rfl
    | cons newest es =>
      simp only [Except.map, Except.ok.injEq, exists_eq_left']
      cases firstBreak 1 (newest :: es).reverse <;> simp

omit [PyFloat F] in
/-- Two parts of a chain that share an entry make the chain. -/
theorem isChain_of_overlap {R : Entry F → Entry F → Prop} {l : List (Entry F)} {k : ℕ}
    (htake : (l.take (k + 1)).IsChain R) (hdrop : (l.drop k).IsChain R) : l.IsChain R := by
  induction k generalizing l with
  | zero => exact hdrop
  | succ k ih =>
    cases l with
    | nil => exact List.IsChain.nil
    | cons a l =>
      cases l with
      | nil => exact List.IsChain.singleton a
      | cons b l =>
        rw [List.take_succ_cons, List.take_succ_cons, List.isChain_cons_cons] at htake
        refine List.isChain_cons_cons.mpr ⟨htake.1, ih ?_ hdrop⟩
        rw [List.take_succ_cons]
        exact htake.2

/-- Where the hashes verify, they are strings, and what is compared is equal. -/
theorem linked_iff_of_hashOk {sha : Sha256} {es : List (Entry F)}
    (h : ∀ e ∈ es, hashOk sha e = true) : LinksHold es ↔ Linked Entry.hash Entry.prevHash es := by
  have hlink : ∀ a ∈ es, ∀ b : Entry F, pyEq b.prevHash a.hash = true ↔ b.prevHash = a.hash := by
    intro a ha b
    obtain ⟨s, hs⟩ := exists_str_of_hashOk (h a ha)
    rw [hs, pyEq_str_right]
  induction es with
  | nil => exact iff_of_true List.IsChain.nil linked_nil
  | cons a es ih =>
    cases es with
    | nil => exact iff_of_true (List.IsChain.singleton a) (linked_singleton a)
    | cons b es =>
      have hrest := ih (fun e he => h e (List.mem_cons_of_mem a he))
        fun e he => hlink e (List.mem_cons_of_mem a he)
      unfold LinksHold Linked at hrest ⊢
      rw [List.isChain_cons_cons, List.isChain_cons_cons]
      exact and_congr (hlink a List.mem_cons_self b) hrest

/-- The hash of every entry verifies, and the entries before the newest million are linked, up to
the first of these. -/
structure SoundBehind (sha : Sha256) (entries : List (Entry F)) : Prop where
  hashes : ∀ e ∈ entries, hashOk sha e = true
  older : Linked Entry.hash Entry.prevHash (entries.take (entries.length - deepLimit + 1))

/-- **The deep form is as strong as `verify_shard` exactly when** a link among the newest million
entries is broken or these cannot be read, or every hash verifies and the older links hold. -/
theorem asStrong_iff (sha : Sha256) (d : Disk F) (shardId : PyStr) :
    AsStrong sha d shardId ↔
      ((∃ entries : List (Entry F), d.read shardId 0 deepLimit = .ok entries ∧
          LinksHold entries.reverse) →
        ∃ ds : List (Entry F), chronoEntries (d.shard shardId).family = .ok ds ∧ SoundBehind sha ds) := by
  rw [AsStrong, deep_passes_iff]
  refine imp_congr_right fun ⟨entries, hread, hlinks⟩ => ?_
  constructor
  · rintro ⟨report, hreport, hclean⟩
    obtain ⟨ds, hds, rfl⟩ := verifyShard_eq_ok.mp hreport
    have hcons := checkChain_iff.mp hclean
    exact ⟨ds, hds, hcons.hashes, hcons.linked.take _⟩
  · rintro ⟨ds, hds, hsound⟩
    refine ⟨_, verifyShard_eq_ok.mpr ⟨ds, hds, rfl⟩, checkChain_iff.mpr ⟨hsound.hashes, ?_⟩⟩
    cases hfam : Dict.get (familyName shardId) d.families with
    | none =>
      -- without a directory there is nothing to verify
      rw [Disk.shard, hfam] at hds
      obtain rfl := Except.ok.inj hds
      exact linked_nil
    | some fam =>
      rw [Disk.shard, hfam] at hds
      have hall : d.allEntries shardId = .ok ds := by
        rw [Disk.allEntries, hfam]
        exact hds
      rw [read_of_entries hall (by decide)] at hread
      obtain rfl := Except.ok.inj hread
      rw [List.take_reverse, List.reverse_reverse] at hlinks
      have hnewest := (linked_iff_of_hashOk fun e he =>
        hsound.hashes e (List.mem_of_mem_drop he)).mp hlinks
      exact isChain_of_overlap hsound.older hnewest

/-- The deep form passes, and `verify_shard` counts something. -/
theorem not_asStrong {sha : Sha256} {d : Disk F} {shardId : PyStr} {n : ℕ}
    (hpassed : (lifecycleVerify d shardId true).map DeepResult.passed = .ok true)
    (htampered : (d.verify sha shardId).map Report.tampered = .ok (n + 1)) :
    ¬ AsStrong sha d shardId := by
  intro h
  unfold AsStrong at h
  cases hdeep : lifecycleVerify d shardId true with
  | error e =>
    rw [hdeep] at hpassed
    cases hpassed
  | ok r =>
    rw [hdeep] at hpassed
    obtain ⟨report, hreport, hclean, -⟩ := h ⟨r, hdeep, Except.ok.inj hpassed⟩
    rw [hreport] at htampered
    have hcount : report.tampered = n + 1 := Except.ok.inj htampered
    omega

/-- The directory of a run. -/
def diskOf (s : Shard FloatLit) : Disk FloatLit where
  families := [(py "default", s.family)]
  monoliths := []
  pins := [(py "default", s.pin)]

/-- A line that does not hash to what it says passes the deep form. -/
theorem tampered_passes :
    ¬ AsStrong nibbles (diskOf (appends sampleConfig (py "default") (py "default")
      [(sampleTime, sampleEntry (py "one") unstableMetadata)]).shard) (py "default") :=
  not_asStrong (n := 0) (by decide +kernel) (by decide +kernel)

end Daryl
