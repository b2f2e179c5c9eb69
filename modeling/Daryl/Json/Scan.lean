import Daryl.Json.Text
import Mathlib.Data.List.DropRight

/-!
# The scanner reads a prefix

A successful scan reads a prefix of the text and would read the same from that
prefix before any other continuation.  So a value read from decoded text holds
only strings of that text, and no proper prefix of the text of a dict is itself
a JSON text: a line torn by a crash does not parse.

## Main definitions

* `White` — JSON white space.

## Main results

* `parseMembers_splits`, `parseValue_splits` — the scan depends on what it reads.
* `loads_torn` — **a proper prefix of the text of a dict does not load.**
* `loads_trailing` — nor does the text of a value with something behind it.
* `joined_of_loads` — a value read from decoded text has no split surrogate pair.
* `shorter_of_loads` — a string of a value is shorter than the text.
-/

namespace Json

open Py

/-! ### Strings -/

/-- A string scan reads a prefix. -/
theorem scanUnits_splits : ∀ {s q : PyStr} {us : List (Bool × CodePoint)},
    scanUnits s = some (us, q) → ∃ p, s = p ++ q ∧ ∀ q', scanUnits (p ++ q') = some (us, q') := by
  intro s
  fun_induction scanUnits s with
  | case1 => intro q us h; exact absurd h (by simp)
  | case2 c s hc =>
    intro q us h
    simp only [Option.some.injEq, Prod.mk.injEq] at h
    obtain ⟨rfl, rfl⟩ := h
    refine ⟨[c], rfl, fun q' => ?_⟩
    rw [List.singleton_append, scanUnits.eq_def]
    simp only
    rw [if_pos hc]
  | case3 c hc hb => intro q us h; exact absurd h (by simp)
  | case4 c hc hb e he a b c' d s ih =>
    intro q us h
    simp only [Option.bind_eq_some_iff, Option.map_eq_some_iff] at h
    obtain ⟨u, hu, ⟨us', q⟩, hs, heq⟩ := h
    simp only [push, Prod.mk.injEq] at heq
    obtain ⟨rfl, rfl⟩ := heq
    obtain ⟨p, rfl, hp⟩ := ih hs
    refine ⟨c :: e :: a :: b :: c' :: d :: p, rfl, fun q' => ?_⟩
    simp only [List.cons_append]
    rw [scanUnits.eq_def]
    simp only
    rw [if_neg hc, if_pos hb, if_pos he, hu, Option.bind_some, hp]
    rfl
  | case5 => intro q us h; exact absurd h (by simp)
  | case6 c hc hb e s he ih =>
    intro q us h
    simp only [Option.bind_eq_some_iff, Option.map_eq_some_iff] at h
    obtain ⟨u, hu, ⟨us', q⟩, hs, heq⟩ := h
    simp only [push, Prod.mk.injEq] at heq
    obtain ⟨rfl, rfl⟩ := heq
    obtain ⟨p, rfl, hp⟩ := ih hs
    refine ⟨c :: e :: p, rfl, fun q' => ?_⟩
    simp only [List.cons_append]
    rw [scanUnits.eq_def]
    simp only
    rw [if_neg hc, if_pos hb, if_neg he, hu, Option.bind_some, hp]
    rfl
  | case7 => intro q us h; exact absurd h (by simp)
  | case8 c s hc hb hctl ih =>
    intro q us h
    simp only [Option.map_eq_some_iff] at h
    obtain ⟨⟨us', q⟩, hs, heq⟩ := h
    simp only [push, Prod.mk.injEq] at heq
    obtain ⟨rfl, rfl⟩ := heq
    obtain ⟨p, rfl, hp⟩ := ih hs
    refine ⟨c :: p, rfl, fun q' => ?_⟩
    rw [List.cons_append, scanUnits.eq_def]
    simp only
    rw [if_neg hc, if_neg hb, if_neg hctl, hp]
    rfl

theorem scanString_splits {s q k : PyStr} (h : scanString s = some (k, q)) :
    ∃ p, s = p ++ q ∧ ∀ q', scanString (p ++ q') = some (k, q') := by
  obtain ⟨⟨us, q⟩, hus, heq⟩ := Option.map_eq_some_iff.mp h
  simp only [Prod.mk.injEq] at heq
  obtain ⟨rfl, rfl⟩ := heq
  obtain ⟨p, rfl, hp⟩ := scanUnits_splits hus
  exact ⟨p, rfl, fun q' => by rw [scanString, hp, Option.map_some]⟩

/-! ### White space and punctuation -/

/-- JSON white space. -/
def White (w : PyStr) : Prop := ∀ c ∈ w, isWs c = true

theorem skipWs_white_append {w : PyStr} (hw : White w) (s : PyStr) : skipWs (w ++ s) = skipWs s :=
  List.dropWhile_append_of_pos hw

theorem skipWs_spec (s : PyStr) : ∃ w, White w ∧ s = w ++ skipWs s := by
  refine ⟨s.takeWhile isWs, ?_, List.takeWhile_append_dropWhile.symm⟩
  exact List.all_eq_true.mp List.all_takeWhile

/-- What follows white space starts with no white space. -/
theorem isWs_of_skipWs {s r : PyStr} {c : CodePoint} (h : skipWs s = c :: r) : isWs c = false := by
  have := List.head?_dropWhile_not isWs s
  rw [← skipWs, h] at this
  simpa using this

theorem skipClose_splits {close : ℕ} {s q : PyStr} (h : skipClose close s = some q) :
    ∃ p, s = p ++ q ∧ p ≠ [] ∧ (∀ c ∈ p.head?, isWs c = true ∨ c.val = close) ∧
      ∀ q', skipClose close (p ++ q') = some q' := by
  obtain ⟨w, hw, hs⟩ := skipWs_spec s
  unfold skipClose at h
  split at h
  · exact absurd h (by simp)
  · next c r hcr =>
    split_ifs at h with hc
    obtain rfl := Option.some.inj h
    have hws := isWs_of_skipWs hcr
    refine ⟨w ++ [c], by rw [hs, hcr]; simp, by simp, ?_, fun q' => ?_⟩
    · intro a ha
      cases w with
      | nil =>
        obtain rfl : c = a := by simpa using ha
        exact .inr hc
      | cons b w =>
        obtain rfl : b = a := by simpa using ha
        exact .inl (hw _ List.mem_cons_self)
    · rw [List.append_assoc, List.singleton_append, skipClose, skipWs_white_append hw,
        skipWs_cons hws]
      simp [hc]

/-- A separator is passed over with the white space around it, and is no
closing bracket. -/
theorem skipSep_splits {sep : ℕ} {s q : PyStr} (h : skipSep sep s = some q) :
    skipWs q = q ∧ ∃ p, s = p ++ q ∧ p ≠ [] ∧ (∀ c ∈ p.head?, isWs c = true ∨ c.val = sep) ∧
      ∀ q', skipWs q' = q' → skipSep sep (p ++ q') = some q' ∧
        ∀ close, close ≠ sep → skipClose close (p ++ q') = none := by
  obtain ⟨w, hw, hs⟩ := skipWs_spec s
  unfold skipSep at h
  split at h
  · exact absurd h (by simp)
  · next c r hcr =>
    split_ifs at h with hc
    obtain rfl := Option.some.inj h
    have hws := isWs_of_skipWs hcr
    obtain ⟨w', hw', hr⟩ := skipWs_spec r
    have hidem : skipWs (skipWs r) = skipWs r := List.dropWhile_idempotent isWs r
    refine ⟨hidem, w ++ c :: w', ?_, by simp, ?_, fun q' hq' => ?_⟩
    · rw [hs, hcr]
      conv_lhs => rw [hr]
      simp
    · intro a ha
      cases w with
      | nil =>
        obtain rfl : c = a := by simpa using ha
        exact .inr hc
      | cons b w =>
        obtain rfl : b = a := by simpa using ha
        exact .inl (hw _ List.mem_cons_self)
    · have hskip : skipWs (w ++ c :: w' ++ q') = c :: (w' ++ q') := by
        rw [List.append_assoc, List.cons_append, skipWs_white_append hw, skipWs_cons hws]
      refine ⟨?_, fun close hclose => ?_⟩
      · rw [skipSep, hskip]
        simp only
        rw [if_pos hc, skipWs_white_append hw', hq']
      · rw [skipClose, hskip]
        simp only
        rw [if_neg (by omega)]

/-! ### Numbers -/

section

variable {F : Type} [PyFloat F]

theorem scanInt_splits {s q : PyStr} {n : ℕ} (h : scanInt s = some (n, q)) : s = natStr n ++ q := by
  unfold scanInt at h
  split at h
  · exact absurd h (by simp)
  · next c s =>
    split at h
    · exact absurd h (by simp)
    · next d hd =>
      have hc := digitVal_eq_some hd
      split_ifs at h with hz
      · simp only [Option.some.injEq, Prod.mk.injEq] at h
        obtain ⟨rfl, rfl⟩ := h
        rw [hc, hz]
        rfl
      · simp only [Option.some.injEq, Prod.mk.injEq] at h
        obtain ⟨rfl, rfl⟩ := h
        rw [natStr, decDigits_natOfDigits hz, hc, List.map_cons, List.cons_append, ← (takeDigits_spec s).1]

theorem scanFrac_splits (s : PyStr) :
    (scanFrac s = (none, s)) ∨
      ∃ d ds q, scanFrac s = (some (d, ds), q) ∧ s = py "." ++ ((d :: ds).map digitChar ++ q) := by
  unfold scanFrac
  split
  · exact .inl rfl
  · next c r =>
    split_ifs with hc
    · split
      · next d ds q htake =>
        refine .inr ⟨d, ds, q, rfl, ?_⟩
        have := (takeDigits_spec r).1
        rw [htake] at this
        rw [show c = 46 from Fin.ext hc, this]
        rfl
      · exact .inl rfl
    · exact .inl rfl

theorem scanSign_splits (s : PyStr) : s = signText (scanSign s).1 ++ (scanSign s).2 := by
  cases s with
  | nil => rfl
  | cons c s =>
    by_cases h1 : c.val = 45
    · rw [show c = 45 from Fin.ext h1]
      rfl
    · by_cases h2 : c.val = 43
      · rw [show c = 43 from Fin.ext h2]
        rfl
      · rw [scanSign, if_neg h1, if_neg h2]
        rfl

theorem scanExp_splits (s : PyStr) :
    (scanExp s = (none, s)) ∨ ∃ e q, scanExp s = (some e, q) ∧ s = e.text ++ q := by
  unfold scanExp
  split
  · exact .inl rfl
  · next c r =>
    split_ifs with hc
    · split
      · next d ds q htake =>
        refine .inr ⟨_, q, rfl, ?_⟩
        have hdigits := (takeDigits_spec (scanSign r).2).1
        rw [htake] at hdigits
        rw [ExpLit.text]
        conv_lhs => rw [scanSign_splits r, hdigits]
        rcases hc with h | h
        · rw [show c = 101 from Fin.ext h]
          simp
          rfl
        · rw [show c = 69 from Fin.ext h]
          simp
          rfl
      · exact .inl rfl
    · exact .inl rfl

theorem scanMinus_splits (s : PyStr) :
    s = (if (scanMinus s).1 then py "-" else []) ++ (scanMinus s).2 := by
  cases s with
  | nil => rfl
  | cons c s =>
    by_cases h : c.val = 45
    · rw [show c = 45 from Fin.ext h]
      rfl
    · rw [scanMinus, if_neg h]
      rfl

/-- A number scan reads the sign, the digits and a tail that does not depend on
what follows, as long as that cannot continue the number. -/
theorem scanNumber_splits {s q : PyStr} {v : PyVal F} (h : scanNumber s = some (v, q)) :
    ∃ (neg : Bool) (n : ℕ) (tail : PyStr),
      s = (if neg then py "-" else []) ++ natStr n ++ (tail ++ q) ∧
      ∀ q', NoNumber q' →
        scanNumber ((if neg then py "-" else []) ++ natStr n ++ (tail ++ q')) = some (v, q') := by
  obtain ⟨⟨n, r⟩, hint, heq⟩ := Option.map_eq_some_iff.mp h
  have hs := scanMinus_splits s
  rw [scanInt_splits hint] at hs
  refine ⟨(scanMinus s).1, n, ?_⟩
  simp only [Prod.mk.injEq] at heq
  obtain ⟨hv, hq⟩ := heq
  rcases scanFrac_splits r with hf | ⟨d, ds, r', hf, hr⟩
  · rw [hf] at hv hq
    rcases scanExp_splits r with he | ⟨e, q₁, he, hr⟩
    · rw [he] at hv hq
      simp only [numberVal] at hv hq
      refine ⟨[], by rw [List.nil_append, ← hq]; simpa using hs, fun q' hq' => ?_⟩
      rw [List.nil_append, scanNumber_signed _ _ hq', hv]
    · rw [he] at hv hq
      simp only [numberVal] at hv hq
      refine ⟨e.text, by rw [← hq, ← hr]; simpa using hs, fun q' hq' => ?_⟩
      rw [← hv, ← List.append_assoc]
      exact scanNumber_floatLit ⟨_, n, .exp e⟩ hq'
  · rw [hf] at hv hq
    rcases scanExp_splits r' with he | ⟨e, q₁, he, hr'⟩
    · rw [he] at hv hq
      simp only [numberVal] at hv hq
      refine ⟨py "." ++ (d :: ds).map digitChar, ?_, fun q' hq' => ?_⟩
      · rw [← hq, List.append_assoc (py "."), ← hr]
        simpa using hs
      · rw [← hv, ← List.append_assoc]
        have := scanNumber_floatLit (F := F) ⟨(scanMinus s).1, n, .frac d ds none⟩ hq'
        simpa only [FloatLit.text, FloatTail.text, expText, List.append_nil] using this
    · rw [he] at hv hq
      simp only [numberVal] at hv hq
      refine ⟨py "." ++ (d :: ds).map digitChar ++ e.text, ?_, fun q' hq' => ?_⟩
      · rw [← hq, List.append_assoc _ e.text, ← hr', List.append_assoc (py "."), ← hr]
        simpa using hs
      · rw [← hv, ← List.append_assoc]
        exact scanNumber_floatLit ⟨(scanMinus s).1, n, .frac d ds (some e)⟩ hq'

/-! ### Atoms -/

omit [PyFloat F] in
theorem scanLit_splits {lit s q : PyStr} {v w : PyVal F} (h : scanLit lit v s = some (w, q)) :
    s = lit ++ q ∧ w = v := by
  obtain ⟨r, hr, heq⟩ := Option.map_eq_some_iff.mp h
  simp only [Prod.mk.injEq] at heq
  obtain ⟨rfl, rfl⟩ := heq
  exact ⟨(List.isPrefixOf?_eq_some_iff_append_eq.mp hr).symm, rfl⟩

/-- An atom scan reads a prefix, and an atom holds no string. -/
theorem scanAtom_splits {s q : PyStr} {v : PyVal F} (h : scanAtom s = some (v, q)) :
    (∀ P, eachStr P v) ∧ ∃ p, s = p ++ q ∧ p ≠ [] ∧
      ∀ q', NoNumber q' → scanAtom (p ++ q') = some (v, q') := by
  simp only [scanAtom, Option.or_eq_some_iff] at h
  have lit : ∀ {lit : PyStr} {w : PyVal F}, scanLit lit w s = some (v, q) → lit ≠ [] →
      (∀ q', scanAtom (lit ++ q') = some (w, q')) → (∀ P, eachStr P w) →
      (∀ P, eachStr P v) ∧ ∃ p, s = p ++ q ∧ p ≠ [] ∧
        ∀ q', NoNumber q' → scanAtom (p ++ q') = some (v, q') := by
    intro lit w hlit hne hscan hw
    obtain ⟨hs, rfl⟩ := scanLit_splits hlit
    exact ⟨hw, lit, hs, hne, fun q' _ => hscan q'⟩
  rcases h with h | ⟨-, h | ⟨-, h | ⟨-, h | ⟨-, h | ⟨-, h | ⟨-, h⟩⟩⟩⟩⟩⟩
  · exact lit h (by decide) (fun _ => rfl) fun _ => trivial
  · exact lit h (by decide) (fun _ => rfl) fun _ => trivial
  · exact lit h (by decide) (fun _ => rfl) fun _ => trivial
  · exact lit h (by decide) (fun _ => rfl) fun _ => trivial
  · exact lit h (by decide) (fun _ => rfl) fun _ => trivial
  · exact lit h (by decide) (fun _ => rfl) fun _ => trivial
  · obtain ⟨neg, n, tail, hs, hscan⟩ := scanNumber_splits h
    refine ⟨?_, (if neg then py "-" else []) ++ natStr n ++ tail, by simpa using hs, ?_, ?_⟩
    · obtain ⟨⟨k, r⟩, -, heq⟩ := Option.map_eq_some_iff.mp h
      simp only [Prod.mk.injEq] at heq
      rw [← heq.1]
      intro P
      unfold numberVal
      split <;> trivial
    · intro hnil
      have := congrArg List.length hnil
      have hpos := List.length_pos_of_ne_nil (decDigits_ne_nil n)
      simp only [List.length_append, natStr, List.length_map, List.length_nil] at this
      omega
    · intro q' hq'
      rw [List.append_assoc, scanAtom_signed]
      exact hscan q' hq'

/-! ### Values -/

/-- What a scan of punctuation leaves behind a number does not continue it. -/
private theorem noNumber_of_head {k : ℕ} (hk : k = 44 ∨ k = 93 ∨ k = 125) {p : PyStr}
    (hp : p ≠ []) (h : ∀ c ∈ p.head?, isWs c = true ∨ c.val = k) (q : PyStr) :
    NoNumber (p ++ q) := by
  cases p with
  | nil => exact absurd rfl hp
  | cons c p =>
    have hc : c.val = 32 ∨ c.val = 9 ∨ c.val = 10 ∨ c.val = 13 ∨ c.val = k := by
      rcases h c rfl with h | h
      · simp only [isWs, Bool.or_eq_true, beq_iff_eq] at h
        omega
      · omega
    refine ⟨?_, by omega, by omega, by omega⟩
    rw [digitVal, dif_neg (by omega)]

/-- What starts with no white space still does with another continuation. -/
private theorem skipWs_swap {p q : PyStr} (hp : p ≠ []) (h : skipWs (p ++ q) = p ++ q)
    (q' : PyStr) : skipWs (p ++ q') = p ++ q' := by
  cases p with
  | nil => exact absurd rfl hp
  | cons c p => exact skipWs_cons (isWs_of_skipWs h) _

private theorem skipClose_swap {k : ℕ} {w p q : PyStr} (hw : White w) (hp : p ≠ [])
    (hpq : skipWs (p ++ q) = p ++ q) (h : skipClose k (w ++ (p ++ q)) = none) (q' : PyStr) :
    skipClose k (w ++ (p ++ q')) = none := by
  cases p with
  | nil => exact absurd rfl hp
  | cons c p =>
    rw [skipClose, skipWs_white_append hw, skipWs_swap hp hpq] at h ⊢
    simp only [List.cons_append] at h ⊢
    split_ifs at h with hc
    rw [if_neg hc]

variable (F) in
/-- A value scan with fuel `n` reads a prefix, and reads it before anything that
does not continue a number. -/
def ValueReads (n : ℕ) : Prop :=
  ∀ (s q : PyStr) (v : PyVal F), parseValue n s = some (v, q) → ∃ p, s = p ++ q ∧ p ≠ [] ∧
    ∀ m, n ≤ m → ∀ q', NoNumber q' ∨ p.head? = some 123 → parseValue m (p ++ q') = some (v, q')

variable (F) in
/-- A scan of members with fuel `n` reads a prefix, and reads it before anything. -/
def MembersRead (n : ℕ) : Prop :=
  ∀ (s q : PyStr) (ps : List (PyStr × PyVal F)), parseMembers n s = some (ps, q) →
    ∃ p, s = p ++ q ∧ p ≠ [] ∧ ∀ m, n ≤ m → ∀ q', parseMembers m (p ++ q') = some (ps, q')

variable (F) in
/-- A scan of elements with fuel `n` reads a prefix, and reads it before anything. -/
def ElementsRead (n : ℕ) : Prop :=
  ∀ (s q : PyStr) (vs : List (PyVal F)), parseElements n s = some (vs, q) →
    ∃ p, s = p ++ q ∧ p ≠ [] ∧ ∀ m, n ≤ m → ∀ q', parseElements m (p ++ q') = some (vs, q')

private theorem valueReads_succ {n : ℕ} (hM : MembersRead F n) (hE : ElementsRead F n) :
    ValueReads F (n + 1) := by
  intro s q v h
  cases s with
  | nil => simp [parseValue] at h
  | cons c s =>
    have hm : ∀ {m}, n + 1 ≤ m → ∃ k, m = k + 1 ∧ n ≤ k := fun {m} h => ⟨m - 1, by omega, by omega⟩
    rw [parseValue] at h
    split_ifs at h with h34 h123 h91
    · -- a string
      obtain ⟨⟨k, r⟩, hk, heq⟩ := Option.map_eq_some_iff.mp h
      simp only [Prod.mk.injEq] at heq
      obtain ⟨rfl, rfl⟩ := heq
      obtain ⟨p, rfl, hp⟩ := scanString_splits hk
      refine ⟨c :: p, rfl, by simp, fun m hnm q' _ => ?_⟩
      obtain ⟨m, rfl, -⟩ := hm hnm
      rw [List.cons_append, parseValue, if_pos h34, hp]
      rfl
    · -- a dict, empty or not
      split at h
      · next r hr =>
        simp only [Option.some.injEq, Prod.mk.injEq] at h
        obtain ⟨rfl, rfl⟩ := h
        obtain ⟨p, rfl, -, -, hp⟩ := skipClose_splits hr
        refine ⟨c :: p, rfl, by simp, fun m hnm q' _ => ?_⟩
        obtain ⟨m, rfl, -⟩ := hm hnm
        rw [List.cons_append, parseValue, if_neg h34, if_pos h123, hp]
      · next hr =>
        obtain ⟨⟨ps, r⟩, hps, heq⟩ := Option.map_eq_some_iff.mp h
        simp only [Prod.mk.injEq] at heq
        obtain ⟨rfl, rfl⟩ := heq
        obtain ⟨w, hw, hs⟩ := skipWs_spec s
        have hfix : skipWs (skipWs s) = skipWs s := List.dropWhile_idempotent isWs s
        obtain ⟨p, hpr, hne, hp⟩ := hM _ _ _ hps
        rw [hs, hpr] at hr
        rw [hpr] at hfix
        refine ⟨c :: (w ++ p), by rw [hs, hpr]; simp, by simp, fun m hnm q' _ => ?_⟩
        obtain ⟨m, rfl, hle⟩ := hm hnm
        rw [List.cons_append, List.append_assoc, parseValue, if_neg h34, if_pos h123,
          skipClose_swap hw hne hfix hr, skipWs_white_append hw, skipWs_swap hne hfix, hp m hle]
        rfl
    · -- a list, empty or not
      split at h
      · next r hr =>
        simp only [Option.some.injEq, Prod.mk.injEq] at h
        obtain ⟨rfl, rfl⟩ := h
        obtain ⟨p, rfl, -, -, hp⟩ := skipClose_splits hr
        refine ⟨c :: p, rfl, by simp, fun m hnm q' _ => ?_⟩
        obtain ⟨m, rfl, -⟩ := hm hnm
        rw [List.cons_append, parseValue, if_neg h34, if_neg h123, if_pos h91, hp]
      · next hr =>
        obtain ⟨⟨vs, r⟩, hvs, heq⟩ := Option.map_eq_some_iff.mp h
        simp only [Prod.mk.injEq] at heq
        obtain ⟨rfl, rfl⟩ := heq
        obtain ⟨w, hw, hs⟩ := skipWs_spec s
        have hfix : skipWs (skipWs s) = skipWs s := List.dropWhile_idempotent isWs s
        obtain ⟨p, hpr, hne, hp⟩ := hE _ _ _ hvs
        rw [hs, hpr] at hr
        rw [hpr] at hfix
        refine ⟨c :: (w ++ p), by rw [hs, hpr]; simp, by simp, fun m hnm q' _ => ?_⟩
        obtain ⟨m, rfl, hle⟩ := hm hnm
        rw [List.cons_append, List.append_assoc, parseValue, if_neg h34, if_neg h123, if_pos h91,
          skipClose_swap hw hne hfix hr, skipWs_white_append hw, skipWs_swap hne hfix, hp m hle]
        rfl
    · -- a number or a literal: what follows must not go on with it
      obtain ⟨-, p, hs, hne, hp⟩ := scanAtom_splits h
      refine ⟨p, hs, hne, fun m hnm q' hq' => ?_⟩
      obtain ⟨m, rfl, -⟩ := hm hnm
      cases p with
      | nil => exact absurd rfl hne
      | cons d p =>
        obtain rfl : c = d := by
          rw [List.cons_append, List.cons.injEq] at hs
          exact hs.1
        have hq : NoNumber q' := by
          refine hq'.resolve_right fun h => h123 ?_
          simp only [List.head?_cons, Option.some.injEq] at h
          rw [h]
          rfl
        rw [List.cons_append, parseValue_atom h34 h123 h91]
        exact hp q' hq

private theorem membersRead_succ {n : ℕ} (hV : ValueReads F n) (hM : MembersRead F n) :
    MembersRead F (n + 1) := by
  intro s q ps h
  cases s with
  | nil => simp [parseMembers] at h
  | cons c s =>
    rw [parseMembers] at h
    split_ifs at h with h34
    simp only [Option.bind_eq_some_iff] at h
    obtain ⟨⟨k, s₁⟩, hk, s₂, hs₂, ⟨v, s₃⟩, hv, h⟩ := h
    obtain ⟨p₁, rfl, hp₁⟩ := scanString_splits hk
    obtain ⟨hfix₂, p₂, rfl, hne₂, -, hp₂⟩ := skipSep_splits hs₂
    obtain ⟨p₃, rfl, hne₃, hp₃⟩ := hV _ _ _ hv
    simp only at h
    split at h
    · next r hr =>
      simp only [Option.some.injEq, Prod.mk.injEq] at h
      obtain ⟨rfl, rfl⟩ := h
      obtain ⟨p₄, rfl, hne₄, hhead, hp₄⟩ := skipClose_splits hr
      refine ⟨c :: (p₁ ++ (p₂ ++ (p₃ ++ p₄))), by simp, by simp, fun m hnm q' => ?_⟩
      obtain ⟨m, rfl⟩ : ∃ k, m = k + 1 := ⟨m - 1, by omega⟩
      have hnum := noNumber_of_head (.inr (.inr rfl)) hne₄ hhead q'
      simp only [List.cons_append, List.append_assoc]
      rw [parseMembers, if_pos h34, hp₁, Option.bind_some]
      simp only
      rw [(hp₂ _ (skipWs_swap hne₃ hfix₂ _)).1, Option.bind_some,
        hp₃ m (by omega) _ (.inl hnum), Option.bind_some]
      simp only
      rw [hp₄]
    · next hr =>
      simp only [Option.bind_eq_some_iff, Option.map_eq_some_iff] at h
      obtain ⟨s₄, hs₄, ⟨qs, r⟩, hqs, heq⟩ := h
      simp only [Prod.mk.injEq] at heq
      obtain ⟨rfl, rfl⟩ := heq
      obtain ⟨hfix₄, p₄, rfl, hne₄, hhead, hp₄⟩ := skipSep_splits hs₄
      obtain ⟨p₅, rfl, hne₅, hp₅⟩ := hM _ _ _ hqs
      refine ⟨c :: (p₁ ++ (p₂ ++ (p₃ ++ (p₄ ++ p₅)))), by simp, by simp, fun m hnm q' => ?_⟩
      obtain ⟨m, rfl⟩ : ∃ k, m = k + 1 := ⟨m - 1, by omega⟩
      have hnum := noNumber_of_head (.inl rfl) hne₄ hhead (p₅ ++ q')
      obtain ⟨hsep, hclose⟩ := hp₄ _ (skipWs_swap hne₅ hfix₄ q')
      simp only [List.cons_append, List.append_assoc]
      rw [parseMembers, if_pos h34, hp₁, Option.bind_some]
      simp only
      rw [(hp₂ _ (skipWs_swap hne₃ hfix₂ _)).1, Option.bind_some,
        hp₃ m (by omega) _ (.inl hnum), Option.bind_some]
      simp only
      rw [hclose 125 (by decide), hsep, Option.bind_some, hp₅ m (by omega)]
      rfl

private theorem elementsRead_succ {n : ℕ} (hV : ValueReads F n) (hE : ElementsRead F n) :
    ElementsRead F (n + 1) := by
  intro s q vs h
  rw [parseElements] at h
  simp only [Option.bind_eq_some_iff] at h
  obtain ⟨⟨v, s₁⟩, hv, h⟩ := h
  obtain ⟨p₁, rfl, hne₁, hp₁⟩ := hV _ _ _ hv
  simp only at h
  split at h
  · next r hr =>
    simp only [Option.some.injEq, Prod.mk.injEq] at h
    obtain ⟨rfl, rfl⟩ := h
    obtain ⟨p₂, rfl, hne₂, hhead, hp₂⟩ := skipClose_splits hr
    refine ⟨p₁ ++ p₂, by simp, by simp [hne₁], fun m hnm q' => ?_⟩
    obtain ⟨m, rfl⟩ : ∃ k, m = k + 1 := ⟨m - 1, by omega⟩
    have hnum := noNumber_of_head (.inr (.inl rfl)) hne₂ hhead q'
    rw [List.append_assoc, parseElements, hp₁ m (by omega) _ (.inl hnum), Option.bind_some]
    simp only
    rw [hp₂]
  · next hr =>
    simp only [Option.bind_eq_some_iff, Option.map_eq_some_iff] at h
    obtain ⟨s₂, hs₂, ⟨ws, r⟩, hws, heq⟩ := h
    simp only [Prod.mk.injEq] at heq
    obtain ⟨rfl, rfl⟩ := heq
    obtain ⟨hfix₂, p₂, rfl, hne₂, hhead, hp₂⟩ := skipSep_splits hs₂
    obtain ⟨p₃, rfl, hne₃, hp₃⟩ := hE _ _ _ hws
    refine ⟨p₁ ++ (p₂ ++ p₃), by simp, by simp [hne₁], fun m hnm q' => ?_⟩
    obtain ⟨m, rfl⟩ : ∃ k, m = k + 1 := ⟨m - 1, by omega⟩
    have hnum := noNumber_of_head (.inl rfl) hne₂ hhead (p₃ ++ q')
    obtain ⟨hsep, hclose⟩ := hp₂ _ (skipWs_swap hne₃ hfix₂ q')
    rw [List.append_assoc, List.append_assoc, parseElements, hp₁ m (by omega) _ (.inl hnum),
      Option.bind_some]
    simp only
    rw [hclose 93 (by decide), hsep, Option.bind_some, hp₃ m (by omega)]
    rfl

/-- **A scan reads a prefix, whatever the fuel.** -/
theorem parse_reads (n : ℕ) : ValueReads F n ∧ MembersRead F n ∧ ElementsRead F n := by
  induction n with
  | zero =>
    refine ⟨fun s q v h => ?_, fun s q ps h => ?_, fun s q vs h => ?_⟩
    · simp [parseValue] at h
    · simp [parseMembers] at h
    · simp [parseElements] at h
  | succ n ih =>
    obtain ⟨hV, hM, hE⟩ := ih
    exact ⟨valueReads_succ hM hE, membersRead_succ hV hM, elementsRead_succ hV hE⟩

/-! ### Torn lines -/

/-- **A proper prefix of the text of a dict does not load.** -/
theorem loads_torn {st : Style} {kvs : List (Key F × PyVal F)} {t p r : PyStr}
    (h : print st (.dict kvs) = some t) (hj : st.ensureAscii = true → eachStrItems Joined kvs)
    (ht : t = p ++ r) (hr : r ≠ []) : (loads p : Option (PyVal F)) = none := by
  rw [loads]
  split
  · next v q hv =>
    split_ifs with hq
    · exfalso
      obtain ⟨u, hu⟩ := print_dict_shape h
      cases p with
      | nil => simp [skipWs, parseValue] at hv
      | cons c p =>
        obtain rfl : c = 123 := by
          rw [ht, List.cons_append, List.cons_append, List.cons.injEq] at hu
          exact hu.1
        rw [skipWs_cons (by decide)] at hv
        obtain ⟨p₀, hp₀, hne, hreads⟩ := (parse_reads (F := F) _).1 _ _ _ hv
        have hhead : p₀.head? = some 123 := by
          cases p₀ with
          | nil => exact absurd rfl hne
          | cons d p₀ =>
            rw [List.cons_append, List.cons.injEq] at hp₀
            simp [hp₀.1]
        have htext : p₀ ++ (q ++ r) = t := by rw [ht, hp₀, List.append_assoc]
        have hlong := hreads (2 * ((123 : CodePoint) :: p).length + 2 + 2 * t.length) (by omega)
          (q ++ r) (.inr hhead)
        have hfull := parseValue_print h hj
          (n := 2 * ((123 : CodePoint) :: p).length + 2 + 2 * t.length) (by omega)
          (r := []) trivial
        rw [List.append_nil] at hfull
        rw [htext, hfull, Option.some.injEq, Prod.mk.injEq] at hlong
        exact hr (List.append_eq_nil_iff.mp hlong.2.symm).2
    · rfl
  · rfl

/-- The text of a value with something behind it does not load. -/
theorem loads_trailing {st : Style} {v : PyVal F} {t : PyStr} (h : print st v = some t)
    (hj : st.ensureAscii = true → eachStr Joined v) {c : CodePoint} {r : PyStr}
    (hc : isWs c = false) (hn : NoNumber (c :: r)) : (loads (t ++ c :: r) : Option (PyVal F)) = none := by
  obtain ⟨d, s, rfl, hd⟩ := print_head h
  have hread := parseValue_print h hj (n := 2 * (d :: s ++ c :: r).length + 2)
    (by rw [List.length_append]; omega) hn
  have hskip : skipWs (d :: s ++ c :: r) = d :: s ++ c :: r := skipWs_cons hd.1 _
  rw [loads, hskip, hread]
  dsimp only
  rw [skipWs_cons hc, if_neg (List.cons_ne_nil c r)]

/-! ### Values read from decoded text -/

/-- Only an escape names a surrogate. -/
private theorem scanUnits_plain_units : ∀ {s q : PyStr} {us : List (Bool × CodePoint)},
    scanUnits s = some (us, q) → Encodable s →
      ∀ u ∈ us, u.1 = false → u.2.isSurrogate = false := by
  intro s
  fun_induction scanUnits s with
  | case1 => intro q us h; exact absurd h (by simp)
  | case2 c s hc =>
    intro q us h _ u hu
    simp only [Option.some.injEq, Prod.mk.injEq] at h
    rw [← h.1] at hu
    exact absurd hu (by simp)
  | case3 c hc hb => intro q us h; exact absurd h (by simp)
  | case4 c hc hb e he a b c' d s ih =>
    intro q us h hs u hu hfalse
    simp only [Option.bind_eq_some_iff, Option.map_eq_some_iff] at h
    obtain ⟨x, hx, ⟨us', q⟩, hscan, heq⟩ := h
    simp only [push, Prod.mk.injEq] at heq
    rw [← heq.1] at hu
    rcases List.mem_cons.mp hu with rfl | hu
    · exact absurd hfalse (by simp)
    · simp only [encodable_cons] at hs
      exact ih hscan hs.2.2.2.2.2.2 u hu hfalse
  | case5 => intro q us h; exact absurd h (by simp)
  | case6 c hc hb e s he ih =>
    intro q us h hs u hu hfalse
    simp only [Option.bind_eq_some_iff, Option.map_eq_some_iff] at h
    obtain ⟨x, hx, ⟨us', q⟩, hscan, heq⟩ := h
    simp only [push, Prod.mk.injEq] at heq
    rw [← heq.1] at hu
    rcases List.mem_cons.mp hu with rfl | hu
    · unfold simpleEscape at hx
      split_ifs at hx <;> rw [← Option.some.inj hx] <;> decide
    · simp only [encodable_cons] at hs
      exact ih hscan hs.2.2 u hu hfalse
  | case7 => intro q us h; exact absurd h (by simp)
  | case8 c s hc hb hctl ih =>
    intro q us h hs u hu hfalse
    simp only [Option.map_eq_some_iff] at h
    obtain ⟨⟨us', q⟩, hscan, heq⟩ := h
    simp only [push, Prod.mk.injEq] at heq
    rw [← heq.1] at hu
    rw [encodable_cons] at hs
    rcases List.mem_cons.mp hu with rfl | hu
    · exact hs.1
    · exact ih hscan hs.2 u hu hfalse

/-- A surrogate in front of the joined units is the first unit, and escaped. -/
private theorem head_joinPairs {us : List (Bool × CodePoint)} {l : CodePoint} {t : PyStr}
    (hus : ∀ u ∈ us, u.1 = false → u.2.isSurrogate = false) (h : joinPairs us = l :: t)
    (hl : l.isLow = true) : ∃ us', us = (true, l) :: us' := by
  have hsur : l.isSurrogate = true := by
    rw [CodePoint.isLow_iff] at hl
    simp [CodePoint.isSurrogate]
    omega
  revert h
  fun_cases joinPairs us with
  | case1 => intro h; exact absurd h (by simp)
  | case2 x y us hp =>
    intro h
    rw [List.cons.injEq] at h
    have hval := joinSurrogates_val hp
    rw [h.1] at hval
    rw [CodePoint.isLow_iff] at hl
    omega
  | case3 x y us hp =>
    intro h
    rw [List.cons.injEq] at h
    exact ⟨_, by rw [h.1]⟩
  | case4 b c us hpair =>
    intro h
    rw [List.cons.injEq] at h
    cases b with
    | true => exact ⟨us, by rw [h.1]⟩
    | false =>
      have := hus _ List.mem_cons_self rfl
      rw [h.1, hsur] at this
      exact absurd this (by simp)

/-- Joined units hold no split pair. -/
private theorem joined_joinPairs : ∀ {us : List (Bool × CodePoint)},
    (∀ u ∈ us, u.1 = false → u.2.isSurrogate = false) → Joined (joinPairs us) := by
  intro us
  fun_induction joinPairs us with
  | case1 => intro _; exact List.IsChain.nil
  | case2 x y us hp ih =>
    intro hus
    have ih := ih fun u hu => hus u (List.mem_cons_of_mem _ (List.mem_cons_of_mem _ hu))
    refine List.isChain_cons.mpr ⟨fun l _ h => ?_, ih⟩
    have hval := joinSurrogates_val hp
    rw [CodePoint.isHigh_iff] at h
    omega
  | case3 x y us hp ih =>
    intro hus
    have hus' : ∀ u ∈ (true, y) :: us, u.1 = false → u.2.isSurrogate = false :=
      fun u hu => hus u (List.mem_cons_of_mem _ hu)
    refine List.isChain_cons.mpr ⟨fun l hl h => ?_, ih hus'⟩
    cases ht : joinPairs ((true, y) :: us) with
    | nil => simp [ht] at hl
    | cons a t =>
      rw [ht, List.head?_cons, Option.mem_some_iff] at hl
      subst hl
      obtain ⟨us', hus''⟩ := head_joinPairs hus' ht h.2
      simp only [List.cons.injEq, Prod.mk.injEq, true_and] at hus''
      rw [hus''.1] at hp
      exact hp (Bool.and_eq_true_iff.mpr h)
  | case4 b c us hpair ih =>
    intro hus
    have hus' : ∀ u ∈ us, u.1 = false → u.2.isSurrogate = false :=
      fun u hu => hus u (List.mem_cons_of_mem _ hu)
    refine List.isChain_cons.mpr ⟨fun l hl h => ?_, ih hus'⟩
    cases ht : joinPairs us with
    | nil => simp [ht] at hl
    | cons a t =>
      rw [ht, List.head?_cons, Option.mem_some_iff] at hl
      subst hl
      obtain ⟨us', hus''⟩ := head_joinPairs hus' ht h.2
      cases b with
      | true => exact hpair a us' hus'' rfl
      | false =>
        have hsur := hus _ List.mem_cons_self rfl
        have hhigh := CodePoint.isHigh_iff.mp h.1
        simp [CodePoint.isSurrogate] at hsur
        omega

theorem joined_scanString {s q k : PyStr} (h : scanString s = some (k, q)) (hs : Encodable s) :
    Joined k := by
  obtain ⟨⟨us, q⟩, hus, heq⟩ := Option.map_eq_some_iff.mp h
  simp only [Prod.mk.injEq] at heq
  rw [← heq.1]
  exact joined_joinPairs (scanUnits_plain_units hus hs)

/-- What holds of every string read from a text holds of every string of the value;
`Q` is what is known of the text, and the induction is on the fuel. -/
private theorem parse_each {P Q : PyStr → Prop} (hrest : ∀ {p q : PyStr}, Q (p ++ q) → Q q)
    (hstr : ∀ {s q k : PyStr}, scanString s = some (k, q) → Q s → P k) : ∀ n : ℕ,
    (∀ (s q : PyStr) (v : PyVal F), parseValue n s = some (v, q) → Q s →
      eachStr P v) ∧
    (∀ (s q : PyStr) (ps : List (PyStr × PyVal F)), parseMembers n s = some (ps, q) →
      Q s → ∀ p ∈ ps, P p.1 ∧ eachStr P p.2) ∧
    (∀ (s q : PyStr) (vs : List (PyVal F)), parseElements n s = some (vs, q) → Q s →
      ∀ v ∈ vs, eachStr P v) := by
  intro n
  induction n with
  | zero =>
    refine ⟨fun s q v h => ?_, fun s q ps h => ?_, fun s q vs h => ?_⟩
    · simp [parseValue] at h
    · simp [parseMembers] at h
    · simp [parseElements] at h
  | succ n ih =>
    obtain ⟨ihV, ihM, ihE⟩ := ih
    have hskip : ∀ {s : PyStr}, Q s → Q (skipWs s) := by
      intro s hs
      obtain ⟨w, -, hw⟩ := skipWs_spec s
      exact hrest (hw ▸ hs)
    refine ⟨fun s q v h hs => ?_, fun s q ps h hs => ?_, fun s q vs h hs => ?_⟩
    · -- a value
      cases s with
      | nil => simp [parseValue] at h
      | cons c s =>
        rw [parseValue] at h
        have hs' : Q s := hrest (p := [c]) hs
        split_ifs at h with h34 h123 h91
        · -- a string
          obtain ⟨⟨k, r⟩, hk, heq⟩ := Option.map_eq_some_iff.mp h
          simp only [Prod.mk.injEq] at heq
          rw [← heq.1]
          exact hstr hk hs'
        · -- a dict
          split at h
          · simp only [Option.some.injEq, Prod.mk.injEq] at h
            rw [← h.1]
            trivial
          · obtain ⟨⟨ps, r⟩, hps, heq⟩ := Option.map_eq_some_iff.mp h
            simp only [Prod.mk.injEq] at heq
            rw [← heq.1]
            exact eachStrItems_dictOf (ihM _ _ _ hps (hskip hs'))
        · -- a list
          split at h
          · simp only [Option.some.injEq, Prod.mk.injEq] at h
            rw [← h.1]
            trivial
          · obtain ⟨⟨vs, r⟩, hvs, heq⟩ := Option.map_eq_some_iff.mp h
            simp only [Prod.mk.injEq] at heq
            rw [← heq.1]
            exact eachStrList_iff.mpr (ihE _ _ _ hvs (hskip hs'))
        · -- a number or a literal
          exact (scanAtom_splits h).1 _
    · -- the members of a dict
      cases s with
      | nil => simp [parseMembers] at h
      | cons c s =>
        rw [parseMembers] at h
        split_ifs at h with h34
        simp only [Option.bind_eq_some_iff] at h
        obtain ⟨⟨k, s₁⟩, hk, s₂, hs₂, ⟨v, s₃⟩, hv, h⟩ := h
        have hes : Q s := hrest (p := [c]) hs
        have hk' := hstr hk hes
        obtain ⟨p₁, rfl, -⟩ := scanString_splits hk
        obtain ⟨-, p₂, rfl, -⟩ := skipSep_splits hs₂
        have he₂ : Q s₂ := hrest (hrest hes)
        have hvj := ihV _ _ _ hv he₂
        obtain ⟨p₃, rfl, -⟩ := (parse_reads n).1 _ _ _ hv
        simp only at h
        split at h
        · simp only [Option.some.injEq, Prod.mk.injEq] at h
          rw [← h.1]
          simpa using ⟨hk', hvj⟩
        · simp only [Option.bind_eq_some_iff, Option.map_eq_some_iff] at h
          obtain ⟨s₄, hs₄, ⟨qs, r⟩, hqs, heq⟩ := h
          simp only [Prod.mk.injEq] at heq
          obtain ⟨-, p₄, rfl, -⟩ := skipSep_splits hs₄
          have ih := ihM _ _ _ hqs (hrest (hrest he₂))
          rw [← heq.1]
          exact fun p hp => (List.mem_cons.mp hp).elim (fun h => h ▸ ⟨hk', hvj⟩) (ih p)
    · -- the elements of a list
      rw [parseElements] at h
      simp only [Option.bind_eq_some_iff] at h
      obtain ⟨⟨v, s₁⟩, hv, h⟩ := h
      have hvj := ihV _ _ _ hv hs
      obtain ⟨p₁, rfl, -⟩ := (parse_reads n).1 _ _ _ hv
      simp only at h
      split at h
      · simp only [Option.some.injEq, Prod.mk.injEq] at h
        rw [← h.1]
        simpa using hvj
      · simp only [Option.bind_eq_some_iff, Option.map_eq_some_iff] at h
        obtain ⟨s₂, hs₂, ⟨ws, r⟩, hws, heq⟩ := h
        simp only [Prod.mk.injEq] at heq
        obtain ⟨-, p₂, rfl, -⟩ := skipSep_splits hs₂
        have ih := ihE _ _ _ hws (hrest (hrest hs))
        rw [← heq.1]
        exact fun w hw => (List.mem_cons.mp hw).elim (fun h => h ▸ hvj) (ih w)

/-- **A value read from decoded text has no split surrogate pair.** -/
theorem joined_of_loads {s : PyStr} {v : PyVal F} (h : loads s = some v) (hs : Encodable s) :
    eachStr Joined v := by
  rw [loads] at h
  split at h
  · next w q hw =>
    split_ifs at h
    obtain rfl := Option.some.inj h
    have hrest : ∀ {p q : PyStr}, Encodable (p ++ q) → Encodable q := fun h =>
      (encodable_append.mp h).2
    refine (parse_each hrest joined_scanString _).1 _ _ _ hw ?_
    obtain ⟨w, -, hw⟩ := skipWs_spec s
    exact hrest (hw ▸ hs)
  · exact absurd h (by simp)

/-! ### What is read is JSON -/

private theorem form_of_scanAtom {s q : PyStr} {v : PyVal F} (h : scanAtom s = some (v, q)) :
    form v = v := by
  have lit : ∀ {lit : PyStr} {w : PyVal F}, scanLit lit w s = some (v, q) → form w = w →
      form v = v := fun hlit hw => (scanLit_splits hlit).2 ▸ hw
  simp only [scanAtom, Option.or_eq_some_iff] at h
  rcases h with h | ⟨-, h | ⟨-, h | ⟨-, h | ⟨-, h | ⟨-, h | ⟨-, h⟩⟩⟩⟩⟩⟩
  case inr.inr.inr.inr.inr.inr =>
    obtain ⟨⟨n, r⟩, -, heq⟩ := Option.map_eq_some_iff.mp h
    rw [← (Prod.mk.inj heq).1]
    unfold numberVal
    split <;> rfl
  all_goals exact lit h rfl

/-- The values the scanner reads are read back as they are; the induction is on the fuel. -/
private theorem parse_form : ∀ n : ℕ,
    (∀ (s q : PyStr) (v : PyVal F), parseValue n s = some (v, q) → form v = v) ∧
    (∀ (s q : PyStr) (ps : List (PyStr × PyVal F)), parseMembers n s = some (ps, q) →
      ∀ p ∈ ps, form p.2 = p.2) ∧
    (∀ (s q : PyStr) (vs : List (PyVal F)), parseElements n s = some (vs, q) →
      formList vs = vs) := by
  intro n
  induction n with
  | zero =>
    refine ⟨fun s q v h => ?_, fun s q ps h => ?_, fun s q vs h => ?_⟩
    · simp [parseValue] at h
    · simp [parseMembers] at h
    · simp [parseElements] at h
  | succ n ih =>
    obtain ⟨ihV, ihM, ihE⟩ := ih
    refine ⟨fun s q v h => ?_, fun s q ps h => ?_, fun s q vs h => ?_⟩
    · -- a value
      cases s with
      | nil => simp [parseValue] at h
      | cons c s =>
        rw [parseValue] at h
        split_ifs at h with h34 h123 h91
        · -- a string
          obtain ⟨⟨k, r⟩, -, heq⟩ := Option.map_eq_some_iff.mp h
          rw [← (Prod.mk.inj heq).1]
          rfl
        · -- a dict
          split at h
          · rw [← (Prod.mk.inj (Option.some.inj h)).1]
            rfl
          · obtain ⟨⟨ps, r⟩, hps, heq⟩ := Option.map_eq_some_iff.mp h
            rw [← (Prod.mk.inj heq).1]
            exact form_dictOf (ihM _ _ _ hps)
        · -- a list
          split at h
          · rw [← (Prod.mk.inj (Option.some.inj h)).1]
            rfl
          · obtain ⟨⟨vs, r⟩, hvs, heq⟩ := Option.map_eq_some_iff.mp h
            rw [← (Prod.mk.inj heq).1]
            exact congrArg PyVal.list (ihE _ _ _ hvs)
        · -- a number or a literal
          exact form_of_scanAtom h
    · -- the members of a dict
      cases s with
      | nil => simp [parseMembers] at h
      | cons c s =>
        rw [parseMembers] at h
        split_ifs at h with h34
        simp only [Option.bind_eq_some_iff] at h
        obtain ⟨⟨k, s₁⟩, -, s₂, -, ⟨v, s₃⟩, hv, h⟩ := h
        have hform := ihV _ _ _ hv
        simp only at h
        split at h
        · rw [← (Prod.mk.inj (Option.some.inj h)).1]
          simpa using hform
        · simp only [Option.bind_eq_some_iff, Option.map_eq_some_iff] at h
          obtain ⟨s₄, -, ⟨qs, r⟩, hqs, heq⟩ := h
          rw [← (Prod.mk.inj heq).1]
          exact List.forall_mem_cons.mpr ⟨hform, ihM _ _ _ hqs⟩
    · -- the elements of a list
      rw [parseElements] at h
      simp only [Option.bind_eq_some_iff] at h
      obtain ⟨⟨v, s₁⟩, hv, h⟩ := h
      have hform := ihV _ _ _ hv
      simp only at h
      split at h
      · rw [← (Prod.mk.inj (Option.some.inj h)).1]
        exact congrArg (· :: []) hform
      · simp only [Option.bind_eq_some_iff, Option.map_eq_some_iff] at h
        obtain ⟨s₂, -, ⟨ws, r⟩, hws, heq⟩ := h
        rw [← (Prod.mk.inj heq).1]
        exact congrArg₂ List.cons hform (ihE _ _ _ hws)

/-- **A value that was read is read back as it is.** -/
theorem form_of_loads {s : PyStr} {v : PyVal F} (h : loads s = some v) : form v = v := by
  rw [loads] at h
  split at h
  · next w q hw =>
    split_ifs at h
    exact Option.some.inj h ▸ (parse_form _).1 _ _ _ hw
  · exact absurd h (by simp)

/-! ### The length of what is read -/

/-- A string scan makes a unit of at least one code point, and passes over the quote. -/
theorem length_scanUnits : ∀ {s q : PyStr} {us : List (Bool × CodePoint)},
    scanUnits s = some (us, q) → us.length < s.length := by
  intro s
  fun_induction scanUnits s with
  | case1 => intro q us h; exact absurd h (by simp)
  | case2 c s hc =>
    intro q us h
    simp only [Option.some.injEq, Prod.mk.injEq] at h
    rw [← h.1]
    simp
  | case3 c hc hb => intro q us h; exact absurd h (by simp)
  | case4 c hc hb e he a b c' d s ih =>
    intro q us h
    simp only [Option.bind_eq_some_iff, Option.map_eq_some_iff] at h
    obtain ⟨u, hu, ⟨us', q⟩, hs, heq⟩ := h
    simp only [push, Prod.mk.injEq] at heq
    have hlen := ih hs
    rw [← heq.1]
    simp only [List.length_cons]
    omega
  | case5 => intro q us h; exact absurd h (by simp)
  | case6 c hc hb e s he ih =>
    intro q us h
    simp only [Option.bind_eq_some_iff, Option.map_eq_some_iff] at h
    obtain ⟨u, hu, ⟨us', q⟩, hs, heq⟩ := h
    simp only [push, Prod.mk.injEq] at heq
    have hlen := ih hs
    rw [← heq.1]
    simp only [List.length_cons]
    omega
  | case7 => intro q us h; exact absurd h (by simp)
  | case8 c s hc hb hctl ih =>
    intro q us h
    simp only [Option.map_eq_some_iff] at h
    obtain ⟨⟨us', q⟩, hs, heq⟩ := h
    simp only [push, Prod.mk.injEq] at heq
    have hlen := ih hs
    rw [← heq.1]
    simp only [List.length_cons]
    omega

theorem length_joinPairs (us : List (Bool × CodePoint)) : (joinPairs us).length ≤ us.length := by
  fun_induction joinPairs us with
  | case1 => exact le_rfl
  | case2 h l us hp ih =>
    simp only [List.length_cons]
    omega
  | case3 h l us hp ih =>
    simp only [List.length_cons] at ih ⊢
    omega
  | case4 b c us hpair ih =>
    simp only [List.length_cons]
    omega

theorem length_scanString {s q k : PyStr} (h : scanString s = some (k, q)) :
    k.length < s.length := by
  obtain ⟨⟨us, q⟩, hus, heq⟩ := Option.map_eq_some_iff.mp h
  simp only [Prod.mk.injEq] at heq
  rw [← heq.1]
  exact (length_joinPairs us).trans_lt (length_scanUnits hus)

/-- **A string of a value is shorter than the text it is read from.** -/
theorem shorter_of_loads {s : PyStr} {v : PyVal F} (h : loads s = some v) :
    eachStr (fun t => t.length < s.length) v := by
  rw [loads] at h
  split at h
  · next w q hw =>
    split_ifs at h
    obtain rfl := Option.some.inj h
    have hrest : ∀ {p q : PyStr}, (p ++ q).length ≤ s.length → q.length ≤ s.length := by
      intro p q hle
      rw [List.length_append] at hle
      omega
    refine (parse_each hrest (fun hk hle => (length_scanString hk).trans_le hle) _).1 _ _ _ hw ?_
    obtain ⟨w, -, hw⟩ := skipWs_spec s
    apply hrest (p := w)
    rw [← hw]
  · exact absurd h (by simp)

end

end Json
