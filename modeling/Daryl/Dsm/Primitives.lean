import Daryl.Json.Scan
import Daryl.Py.Utf8

/-!
# `dsm_primitives`

Canonical JSON and the versioned hash over it.  SHA-256 is a parameter: a
function from bytes to hexadecimal digits.  Where a result needs that it does
not collide, it says so.

## Main definitions

* `canonicalJson` — the canonical bytes of a dict.
* `hashCanonical` — the current hash, `"v1:"` and the digest.
* `verifyHash` — the check of a stored hash, by its prefix.
* `Dumpable` — a value that is hashed and written.

## Main results

* `verifyHash_iff` — what a stored hash that verifies looks like.
* `canon_eq_of_canonicalJson_eq` — equal canonical bytes, equal canonical values.
-/

namespace Daryl

open Py Json

/-- A digest function: `hashlib.sha256(...)`, its output as hexadecimal digits. -/
abbrev Sha256 := List Byte → List (Fin 16)

/-- `.hexdigest()`. -/
def hexdigest (sha : Sha256) (bs : List Byte) : PyStr := (sha bs).map hexDigit

theorem hexdigest_injective {sha : Sha256} (hinj : Function.Injective sha) :
    Function.Injective (hexdigest sha) := by
  have hdigit : ∀ a b : Fin 16, hexDigit a = hexDigit b → a = b := by decide
  intro as bs h
  exact hinj (List.map_injective_iff.mpr (fun a b => hdigit a b) h)

theorem encodable_hexdigest (sha : Sha256) (bs : List Byte) : Encodable (hexdigest sha bs) := by
  intro c hc
  have hdigit : ∀ d : Fin 16, (hexDigit d).isSurrogate = false := by decide
  obtain ⟨d, -, rfl⟩ := List.mem_map.mp hc
  exact hdigit d

/-- A digest without collisions: the bytes themselves. -/
def nibbles : Sha256 := fun bs =>
  bs.flatMap fun b => [⟨b.val / 16, highNibble_lt b⟩, ⟨b.val % 16, lowNibble_lt b⟩]

theorem nibbles_injective : Function.Injective nibbles := by
  intro as
  induction as with
  | nil =>
    intro bs h
    cases bs with
    | nil => rfl
    | cons b bs => simp [nibbles] at h
  | cons a as ih =>
    intro bs h
    cases bs with
    | nil => simp [nibbles] at h
    | cons b bs =>
      simp only [nibbles, List.flatMap_cons, List.cons_append, List.nil_append, List.cons.injEq,
        Fin.mk.injEq] at h
      obtain ⟨hdiv, hmod, hrest⟩ := h
      have hab : a = b := Fin.ext (by omega)
      rw [hab, ih hrest]

/-- `ensure_ascii=True`, `allow_nan=False`, compact. -/
def canonicalStyle : Style := ⟨true, false, false⟩

section

variable {F : Type} [PyFloat F]

/-- `canonical_json`: ASCII always encodes. -/
def canonicalJson (data : PyVal F) : Except DumpsError (List Byte) :=
  (dumpsSorted canonicalStyle data).map utf8Bytes

/-- The prefix of the current hash version. -/
def v1Prefix : PyStr := py "v1:"

/-- `_hash_v0`: the bare digest. -/
def hashV0 (sha : Sha256) (data : PyVal F) : Except DumpsError PyStr :=
  (canonicalJson data).map (hexdigest sha)

/-- `_hash_v1`: the digest behind its version. -/
def hashV1 (sha : Sha256) (data : PyVal F) : Except DumpsError PyStr :=
  (canonicalJson data).map fun bs => v1Prefix ++ hexdigest sha bs

/-- `hash_canonical`: always the current version. -/
def hashCanonical (sha : Sha256) (data : PyVal F) : Except DumpsError PyStr := hashV1 sha data

/-- `verify_hash`: the version is read off the stored hash, and an unknown one
fails. -/
def verifyHash (sha : Sha256) (data stored : PyVal F) : Except DumpsError Bool :=
  match stored with
  | .str s =>
    if v1Prefix.isPrefixOf s then (hashV1 sha data).map (· == s)
    else if 58 ∉ s then (hashV0 sha data).map (· == s)
    else .ok false
  | _ => .ok false

/-! ### What a verified hash is -/

theorem canonicalJson_eq_ok {data : PyVal F} {bs : List Byte} :
    canonicalJson data = .ok bs ↔
      ∃ w t, sortDicts data = some w ∧ print canonicalStyle w = some t ∧ utf8Bytes t = bs := by
  unfold canonicalJson
  cases h : dumpsSorted canonicalStyle data with
  | error e =>
    simp only [Except.map, reduceCtorEq, false_iff, not_exists, not_and]
    intro w t hw ht _
    rw [dumpsSorted_eq_ok.mpr ⟨w, hw, ht⟩] at h
    exact absurd h (by simp)
  | ok t =>
    obtain ⟨w, hw, ht⟩ := dumpsSorted_eq_ok.mp h
    simp only [Except.map, Except.ok.injEq]
    constructor
    · exact fun hbs => ⟨w, t, hw, ht, hbs⟩
    · rintro ⟨w', t', hw', ht', hbs⟩
      obtain rfl := Option.some.inj (hw'.symm.trans hw)
      obtain rfl := Option.some.inj (ht'.symm.trans ht)
      exact hbs

theorem hashV1_eq_ok {sha : Sha256} {data : PyVal F} {s : PyStr} :
    hashV1 sha data = .ok s ↔
      ∃ bs, canonicalJson data = .ok bs ∧ s = v1Prefix ++ hexdigest sha bs := by
  unfold hashV1
  cases canonicalJson data with
  | error e => simp [Except.map]
  | ok bs => simp [Except.map, eq_comm]

/-- No digit of a digest is a colon. -/
theorem colon_notMem_hexdigest (sha : Sha256) (bs : List Byte) : 58 ∉ hexdigest sha bs := by
  have : ∀ d : Fin 16, hexDigit d ≠ 58 := by decide
  simp only [hexdigest, List.mem_map, not_exists, not_and]
  exact fun d _ => this d

/-- A stored hash verifies iff it is the digest of the canonical bytes, bare or
behind its version. -/
theorem verifyHash_iff {sha : Sha256} {data stored : PyVal F} :
    verifyHash sha data stored = .ok true ↔ ∃ bs, canonicalJson data = .ok bs ∧
      (stored = .str (v1Prefix ++ hexdigest sha bs) ∨ stored = .str (hexdigest sha bs)) := by
  unfold verifyHash
  split
  · next s =>
    have hcolon : ∀ bs, ¬v1Prefix.isPrefixOf (hexdigest sha bs) := by
      intro bs h
      obtain ⟨r, hr⟩ := List.isPrefixOf_iff_prefix.mp h
      exact colon_notMem_hexdigest sha bs (hr ▸ List.mem_append_left r (by decide : 58 ∈ v1Prefix))
    split_ifs with h1 h0
    · cases hc : canonicalJson data with
      | error e => simp [hashV1, hc, Except.map]
      | ok bs =>
        simp only [hashV1, hc, Except.map, Except.ok.injEq, beq_iff_eq, PyVal.str.injEq,
          exists_eq_left']
        constructor
        · exact fun h => .inl h.symm
        · rintro (h | h)
          · exact h.symm
          · exact absurd (h ▸ h1) (hcolon bs)
    · simp only [Except.ok.injEq, Bool.false_eq_true, false_iff, not_exists, not_and,
        PyVal.str.injEq]
      rintro bs - (h | h)
      · exact h1 (List.isPrefixOf_iff_prefix.mpr (h ▸ List.prefix_append _ _))
      · exact colon_notMem_hexdigest sha bs (h ▸ h0)
    · cases hc : canonicalJson data with
      | error e => simp [hashV0, hc, Except.map]
      | ok bs =>
        simp only [hashV0, hc, Except.map, Except.ok.injEq, beq_iff_eq, PyVal.str.injEq,
          exists_eq_left']
        constructor
        · exact fun h => .inr h.symm
        · rintro (h | h)
          · exact absurd (List.isPrefixOf_iff_prefix.mpr (h ▸ List.prefix_append _ _)) h1
          · exact h.symm
  · next h =>
    simp only [Except.ok.injEq, Bool.false_eq_true, false_iff, not_exists, not_and]
    rintro bs - (h' | h') <;> exact h _ h'

/-! ### Canonical bytes bind the value -/

theorem utf8Bytes_injective_of_within {s t : PyStr} (hs : Within 32 126 s) (ht : Within 32 126 t)
    (h : utf8Bytes s = utf8Bytes t) : s = t :=
  utf8Bytes_inj (hs.encodable (by norm_num)) (ht.encodable (by norm_num)) h

/-- **Equal canonical bytes, equal canonical values**, for values without split
surrogate pairs. -/
theorem canon_eq_of_canonicalJson_eq {v w : PyVal F} {bs : List Byte}
    (hv : canonicalJson v = .ok bs) (hw : canonicalJson w = .ok bs) (hjv : eachStr Joined v)
    (hjw : eachStr Joined w) : canon v = canon w := by
  obtain ⟨v', t, hv', ht, hbs⟩ := canonicalJson_eq_ok.mp hv
  obtain ⟨w', u, hw', hu, hbs'⟩ := canonicalJson_eq_ok.mp hw
  have htu : t = u := utf8Bytes_injective_of_within (within_print ht) (within_print hu)
    (hbs.trans hbs'.symm)
  subst htu
  rw [canon, canon, hv', hw', Option.map_some, Option.map_some,
    form_eq_of_print_eq ht hu (fun _ => (eachStr_of_sortDicts hv').mpr hjv)
      fun _ => (eachStr_of_sortDicts hw').mpr hjw]

/-! ### Values that are written -/

/-- A value that canonical JSON writes, and whose strings encode. -/
def Dumpable (v : PyVal F) : Prop := Printable canonicalStyle v ∧ eachStr Encodable v

theorem dumpable_str {s : PyStr} (h : Encodable s) : Dumpable (.str s : PyVal F) := ⟨⟨_, _, rfl, rfl⟩, h⟩

theorem dumpable_none : Dumpable (.none : PyVal F) := ⟨⟨_, _, rfl, rfl⟩, trivial⟩

theorem dumpableField {k : PyStr} {v : PyVal F} (hk : Encodable k) (hv : Dumpable v) :
    Encodable (k, v).1 ∧ Dumpable (k, v).2 := ⟨hk, hv⟩

theorem encodable_object {ps : List (PyStr × PyVal F)}
    (h : ∀ p ∈ ps, Encodable p.1 ∧ eachStr Encodable p.2) :
    eachStr Encodable (.dict (strItems ps)) := by
  rw [eachStr, eachStrItems_iff]
  intro kv hkv
  obtain ⟨p, hp, rfl⟩ := List.mem_map.mp hkv
  exact h p hp

theorem dumpable_object {ps : List (PyStr × PyVal F)} (h : ∀ p ∈ ps, Encodable p.1 ∧ Dumpable p.2) :
    Dumpable (.dict (strItems ps)) :=
  ⟨printable_object fun p hp => (h p hp).2.1,
    encodable_object fun p hp => ⟨(h p hp).1, (h p hp).2.2⟩⟩

theorem dumpable_orEmpty {v : PyVal F} (h : Dumpable v) : Dumpable v.orEmpty := by
  unfold PyVal.orEmpty
  split
  · exact h
  · exact ⟨⟨_, _, rfl, rfl⟩, trivial⟩

end

end Daryl
