import Daryl.Json.Scan

/-!
# What is read as a value

A value is read in pieces: numbers and literals, white space and separators, strings, and what
stands between two brackets.  So a property of texts that holds of such pieces and of texts put
together of them holds of whatever is read as a value.

## Main definitions

* `Bare` — a text without quotes, brackets and backslashes.
* `Closed` — a property of texts, with one of what stands in strings, that the pieces have.

## Main results

* `parse_closed` — **what is read as a value has every closed property.**
* `closed_of_loads`, `dict_of_loads` — so has a text that loads, and the inside of a dict.
-/

namespace Json

open Py

/-- No quote, bracket or backslash is in the text. -/
def Bare (s : PyStr) : Prop := ∀ c ∈ s, c.val ∉ [34, 91, 92, 93, 123, 125]

instance (s : PyStr) : Decidable (Bare s) := List.decidableBAll _ s

theorem bare_within {s : PyStr} (h : Within 35 90 s) : Bare s := by
  intro c hc
  have := h c hc
  simp only [List.mem_cons, List.not_mem_nil, or_false, not_or]
  omega

theorem bare_white {w : PyStr} (h : White w) : Bare w := by
  intro c hc
  have := h c hc
  simp only [isWs, Bool.or_eq_true, beq_iff_eq] at this
  simp only [List.mem_cons, List.not_mem_nil, or_false, not_or]
  omega

theorem Bare.append {s t : PyStr} (hs : Bare s) (ht : Bare t) : Bare (s ++ t) :=
  fun c hc => (List.mem_append.mp hc).elim (hs c) (ht c)

/-- A property that holds of the pieces of a text, and one that holds of those of a string. -/
structure Closed (P In : PyStr → Prop) : Prop where
  append : ∀ {s t}, P s → P t → P (s ++ t)
  bare : ∀ {s}, Bare s → P s
  nilIn : In []
  appendIn : ∀ {s t}, In s → In t → In (s ++ t)
  char : ∀ {c : CodePoint}, c.val ≠ 34 → c.val ≠ 92 → In [c]
  escape : ∀ {c : CodePoint}, c.val = 92 → ∀ e, In [c, e]
  string : ∀ {p}, In p → P (34 :: (p ++ [34]))
  list : ∀ {b}, P b → P (91 :: (b ++ [93]))
  dict : ∀ {b}, P b → P (123 :: (b ++ [125]))

section

variable {P In : PyStr → Prop} (closed : Closed P In)

include closed

/-! ### Strings -/

/-- Hexadecimal digits are no quotes and no backslashes. -/
theorem Closed.hex {c : CodePoint} {d : Fin 16} (h : hexVal c = some d) : In [c] := by
  unfold hexVal at h
  have hrange : 48 ≤ c.val ∧ c.val ≤ 57 ∨ 97 ≤ c.val ∧ c.val ≤ 102 ∨ 65 ≤ c.val ∧ c.val ≤ 70 := by
    split_ifs at h with h₁ h₂ h₃
    · exact .inl h₁
    · exact .inr (.inl h₂)
    · exact .inr (.inr h₃)
  apply closed.char
  · omega
  · omega

/-- What a string scan reads, up to the closing quote. -/
theorem Closed.scanUnits : ∀ {s q : PyStr} {us : List (Bool × CodePoint)},
    scanUnits s = some (us, q) → ∃ p, s = p ++ 34 :: q ∧ In p := by
  intro s
  fun_induction Json.scanUnits s with
  | case1 => intro q us h; exact absurd h (by simp)
  | case2 c s hc =>
    intro q us h
    simp only [Option.some.injEq, Prod.mk.injEq] at h
    obtain ⟨rfl, rfl⟩ := h
    refine ⟨[], ?_, closed.nilIn⟩
    rw [show c = 34 from Fin.ext hc]
    rfl
  | case3 c hc hb => intro q us h; exact absurd h (by simp)
  | case4 c hc hb e he a b c' d s ih =>
    intro q us h
    simp only [Option.bind_eq_some_iff, Option.map_eq_some_iff] at h
    obtain ⟨u, hu, ⟨us', q⟩, hs, heq⟩ := h
    simp only [push, Prod.mk.injEq] at heq
    obtain ⟨rfl, rfl⟩ := heq
    obtain ⟨p, rfl, hp⟩ := ih hs
    simp only [hex4, Option.bind_eq_some_iff, Option.map_eq_some_iff] at hu
    obtain ⟨_, ha, _, hb', _, hc', _, hd, -⟩ := hu
    have hhex : In [a, b, c', d] := closed.appendIn (closed.hex ha) (closed.appendIn (closed.hex hb')
      (closed.appendIn (closed.hex hc') (closed.hex hd)))
    exact ⟨[c, e] ++ ([a, b, c', d] ++ p), rfl,
      closed.appendIn (closed.escape hb e) (closed.appendIn hhex hp)⟩
  | case5 => intro q us h; exact absurd h (by simp)
  | case6 c hc hb e s he ih =>
    intro q us h
    simp only [Option.bind_eq_some_iff, Option.map_eq_some_iff] at h
    obtain ⟨u, hu, ⟨us', q⟩, hs, heq⟩ := h
    simp only [push, Prod.mk.injEq] at heq
    obtain ⟨rfl, rfl⟩ := heq
    obtain ⟨p, rfl, hp⟩ := ih hs
    exact ⟨[c, e] ++ p, rfl, closed.appendIn (closed.escape hb e) hp⟩
  | case7 => intro q us h; exact absurd h (by simp)
  | case8 c s hc hb hctl ih =>
    intro q us h
    simp only [Option.map_eq_some_iff] at h
    obtain ⟨⟨us', q⟩, hs, heq⟩ := h
    simp only [push, Prod.mk.injEq] at heq
    obtain ⟨rfl, rfl⟩ := heq
    obtain ⟨p, rfl, hp⟩ := ih hs
    exact ⟨[c] ++ p, rfl, closed.appendIn (closed.char hc hb) hp⟩

theorem Closed.scanString {s q k : PyStr} (h : scanString s = some (k, q)) :
    ∃ p, s = p ++ 34 :: q ∧ In p := by
  obtain ⟨⟨us, q⟩, hus, heq⟩ := Option.map_eq_some_iff.mp h
  simp only [Prod.mk.injEq] at heq
  obtain ⟨rfl, rfl⟩ := heq
  exact closed.scanUnits hus

/-! ### Atoms -/

omit closed in
theorem bare_expText (e : Option ExpLit) : Bare (expText e) := by
  cases e with
  | none => exact fun c hc => absurd hc List.not_mem_nil
  | some e =>
    simp only [expText, ExpLit.text]
    refine (Bare.append ?_ ?_).append
      (bare_within ((within_map_digitChar _).mono (by norm_num) (by norm_num)))
    · cases e.upper <;> decide
    · rcases e.sign with - | (- | -) <;> decide

omit closed

variable {F : Type} [PyFloat F]

theorem scanNumber_bare {s q : PyStr} {v : PyVal F} (h : scanNumber s = some (v, q)) :
    ∃ p, s = p ++ q ∧ Bare p := by
  have hdigits : ∀ ds : List (Fin 10), Bare (ds.map digitChar) := fun ds =>
    bare_within ((within_map_digitChar ds).mono (by norm_num) (by norm_num))
  obtain ⟨⟨n, r⟩, hint, heq⟩ := Option.map_eq_some_iff.mp h
  obtain ⟨-, rfl⟩ := Prod.mk.inj heq
  have hs := scanMinus_splits s
  rw [scanInt_splits hint] at hs
  have hminus : Bare (if (scanMinus s).1 then py "-" else []) := by
    split
    · decide
    · decide
  have hfrac : ∃ p, r = p ++ (scanFrac r).2 ∧ Bare p := by
    rcases scanFrac_splits r with hf | ⟨d, ds, r', hf, hr⟩
    · exact ⟨[], by rw [hf]; rfl, by decide⟩
    · rw [hf]
      refine ⟨py "." ++ (d :: ds).map digitChar, ?_, ?_⟩
      · rw [hr, List.append_assoc]
      · exact Bare.append (by decide) (hdigits _)
  have hexp : ∀ r : PyStr, ∃ p, r = p ++ (scanExp r).2 ∧ Bare p := by
    intro r
    rcases scanExp_splits r with he | ⟨e, r', he, hr⟩
    · exact ⟨[], by rw [he]; rfl, by decide⟩
    · rw [he]
      exact ⟨e.text, hr, bare_expText (some e)⟩
  obtain ⟨p, hp, hbare⟩ := hfrac
  obtain ⟨p', hp', hbare'⟩ := hexp (scanFrac r).2
  refine ⟨(if (scanMinus s).1 then py "-" else []) ++ (natStr n ++ (p ++ p')), ?_,
    hminus.append ((hdigits _).append (hbare.append hbare'))⟩
  simp only [List.append_assoc]
  rw [← hp', ← hp]
  exact hs

theorem scanAtom_bare {s q : PyStr} {v : PyVal F} (h : scanAtom s = some (v, q)) :
    ∃ p, s = p ++ q ∧ Bare p := by
  simp only [scanAtom, Option.or_eq_some_iff] at h
  have lit : ∀ {lit : PyStr} {w : PyVal F}, scanLit lit w s = some (v, q) → Bare lit →
      ∃ p, s = p ++ q ∧ Bare p := fun hlit hbare =>
    ⟨_, (scanLit_splits hlit).1, hbare⟩
  rcases h with h | ⟨-, h | ⟨-, h | ⟨-, h | ⟨-, h | ⟨-, h | ⟨-, h⟩⟩⟩⟩⟩⟩
  case inr.inr.inr.inr.inr.inr => exact scanNumber_bare h
  all_goals exact lit h (by decide)

/-- What is read as an atom is no dict. -/
theorem scanAtom_ne_dict {s q : PyStr} {v : PyVal F} (h : scanAtom s = some (v, q))
    (kvs : List (Key F × PyVal F)) : v ≠ .dict kvs := by
  simp only [scanAtom, Option.or_eq_some_iff] at h
  rcases h with h | ⟨-, h | ⟨-, h | ⟨-, h | ⟨-, h | ⟨-, h | ⟨-, h⟩⟩⟩⟩⟩⟩
  case inr.inr.inr.inr.inr.inr =>
    obtain ⟨⟨n, r⟩, -, heq⟩ := Option.map_eq_some_iff.mp h
    rw [← (Prod.mk.inj heq).1]
    unfold numberVal
    split <;> rintro ⟨⟩
  all_goals
    rw [(scanLit_splits h).2]
    rintro ⟨⟩

/-! ### Values -/

theorem skipClose_white {close : ℕ} {s q : PyStr} (h : skipClose close s = some q) :
    ∃ w c, White w ∧ c.val = close ∧ s = w ++ c :: q := by
  obtain ⟨w, hw, hs⟩ := skipWs_spec s
  unfold skipClose at h
  split at h
  · cases h
  · next c r hcr =>
    split_ifs at h with hc
    obtain rfl := Option.some.inj h
    exact ⟨w, c, hw, hc, hcr ▸ hs⟩

/-- A separator is bare, with the white space around it. -/
theorem skipSep_bare {sep : ℕ} (hsep : sep = 44 ∨ sep = 58) {s q : PyStr}
    (h : skipSep sep s = some q) : ∃ p, s = p ++ q ∧ Bare p := by
  obtain ⟨w, hw, hs⟩ := skipWs_spec s
  unfold skipSep at h
  split at h
  · cases h
  · next c r hcr =>
    split_ifs at h with hc
    obtain rfl := Option.some.inj h
    obtain ⟨w', hw', hr⟩ := skipWs_spec r
    refine ⟨w ++ ([c] ++ w'), ?_, (bare_white hw).append (Bare.append ?_ (bare_white hw'))⟩
    · rw [hs, hcr]
      conv_lhs => rw [hr]
      simp
    · intro x hx
      obtain rfl := List.mem_singleton.mp hx
      simp only [List.mem_cons, List.not_mem_nil, or_false, not_or]
      omega

include closed

/-- The bracket that closes, with the white space before it. -/
theorem Closed.skipClose (close : CodePoint) {s q : PyStr} (h : Json.skipClose close.val s = some q) :
    ∃ w, s = w ++ close :: q ∧ P w := by
  obtain ⟨w, c, hw, hc, hs⟩ := skipClose_white h
  obtain rfl : c = close := Fin.ext hc
  exact ⟨w, hs, closed.bare (bare_white hw)⟩

/-- The white space in front. -/
theorem Closed.skipWs {s b r : PyStr} (h : Json.skipWs s = b ++ r) (hb : P b) :
    ∃ p, s = p ++ r ∧ P p := by
  obtain ⟨w, hw, hs⟩ := skipWs_spec s
  exact ⟨w ++ b, by rw [List.append_assoc, ← h, ← hs], closed.append (closed.bare (bare_white hw)) hb⟩

/-- The inside of a dict, if its members have the property. -/
theorem Closed.inDict {n : ℕ} (hM : ∀ (s q : PyStr) (ps : List (PyStr × PyVal F)),
      parseMembers n s = some (ps, q) → ∃ b, s = b ++ 125 :: q ∧ P b) {s q : PyStr} {v : PyVal F}
    (h : (match Json.skipClose 125 s with
      | some r => some (.dict [], r)
      | none => (parseMembers n (Json.skipWs s)).map fun p => (.dict (dictOf p.1), p.2))
        = some (v, q)) : ∃ b, s = b ++ 125 :: q ∧ P b := by
  split at h
  · next r hr =>
    obtain ⟨-, rfl⟩ := Prod.mk.inj (Option.some.inj h)
    exact closed.skipClose 125 hr
  · obtain ⟨⟨ps, r⟩, hps, heq⟩ := Option.map_eq_some_iff.mp h
    obtain ⟨-, rfl⟩ := Prod.mk.inj heq
    obtain ⟨b, hb, hclosed⟩ := hM _ _ _ hps
    exact closed.skipWs hb hclosed

variable (F) in
/-- **What is read as a value has every closed property**, and so does what is read of the members
of a dict or the elements of a list, up to the closing bracket.  The induction is on the fuel. -/
theorem parse_closed : ∀ n : ℕ,
    (∀ (s q : PyStr) (v : PyVal F), parseValue n s = some (v, q) → ∃ p, s = p ++ q ∧ P p) ∧
    (∀ (s q : PyStr) (ps : List (PyStr × PyVal F)), parseMembers n s = some (ps, q) →
      ∃ b, s = b ++ 125 :: q ∧ P b) ∧
    (∀ (s q : PyStr) (vs : List (PyVal F)), parseElements n s = some (vs, q) →
      ∃ b, s = b ++ 93 :: q ∧ P b) := by
  intro n
  induction n with
  | zero =>
    refine ⟨fun s q v h => ?_, fun s q ps h => ?_, fun s q vs h => ?_⟩
    · simp [parseValue] at h
    · simp [parseMembers] at h
    · simp [parseElements] at h
  | succ n ih =>
    obtain ⟨ihV, ihM, ihE⟩ := ih
    refine ⟨fun s q v h => ?_, fun s q ps h => ?_, fun s q vs h => ?_⟩
    · -- a value
      cases s with
      | nil => simp [parseValue] at h
      | cons o s =>
        rw [parseValue] at h
        split_ifs at h with h34 h123 h91
        · -- a string
          obtain ⟨⟨k, r⟩, hk, heq⟩ := Option.map_eq_some_iff.mp h
          obtain ⟨-, rfl⟩ := Prod.mk.inj heq
          obtain ⟨p, rfl, hp⟩ := closed.scanString hk
          obtain rfl : o = 34 := Fin.ext h34
          exact ⟨34 :: (p ++ [34]), by simp, closed.string hp⟩
        · -- a dict
          obtain rfl : o = 123 := Fin.ext h123
          obtain ⟨b, rfl, hb⟩ := closed.inDict ihM h
          exact ⟨123 :: (b ++ [125]), by simp, closed.dict hb⟩
        · -- a list
          obtain rfl : o = 91 := Fin.ext h91
          obtain ⟨b, rfl, hb⟩ : ∃ b, s = b ++ 93 :: q ∧ P b := by
            split at h
            · next r hr =>
              obtain ⟨-, rfl⟩ := Prod.mk.inj (Option.some.inj h)
              exact closed.skipClose 93 hr
            · obtain ⟨⟨vs, r⟩, hvs, heq⟩ := Option.map_eq_some_iff.mp h
              obtain ⟨-, rfl⟩ := Prod.mk.inj heq
              obtain ⟨b, hb, hclosed⟩ := ihE _ _ _ hvs
              exact closed.skipWs hb hclosed
          exact ⟨91 :: (b ++ [93]), by simp, closed.list hb⟩
        · -- a number or a literal
          obtain ⟨p, hp, hbare⟩ := scanAtom_bare h
          exact ⟨p, hp, closed.bare hbare⟩
    · -- the members of a dict
      cases s with
      | nil => simp [parseMembers] at h
      | cons o s =>
        rw [parseMembers] at h
        split_ifs at h with h34
        obtain rfl : o = 34 := Fin.ext h34
        simp only [Option.bind_eq_some_iff] at h
        obtain ⟨⟨k, s₁⟩, hk, s₂, hs₂, ⟨v, s₃⟩, hv, h⟩ := h
        obtain ⟨p₁, rfl, hp₁⟩ := closed.scanString hk
        obtain ⟨p₂, rfl, hp₂⟩ := skipSep_bare (.inr rfl) hs₂
        obtain ⟨p₃, rfl, hp₃⟩ := ihV _ _ _ hv
        have hmember := closed.append (closed.string hp₁) (closed.append (closed.bare hp₂) hp₃)
        simp only at h
        split at h
        · next r hr =>
          obtain ⟨-, rfl⟩ := Prod.mk.inj (Option.some.inj h)
          obtain ⟨w, rfl, hw⟩ := closed.skipClose 125 hr
          exact ⟨_, by simp, closed.append hmember hw⟩
        · simp only [Option.bind_eq_some_iff, Option.map_eq_some_iff] at h
          obtain ⟨s₄, hs₄, ⟨qs, r⟩, hqs, heq⟩ := h
          obtain ⟨-, rfl⟩ := Prod.mk.inj heq
          obtain ⟨p₄, rfl, hp₄⟩ := skipSep_bare (.inl rfl) hs₄
          obtain ⟨b, rfl, hb⟩ := ihM _ _ _ hqs
          exact ⟨_, by simp, closed.append hmember (closed.append (closed.bare hp₄) hb)⟩
    · -- the elements of a list
      rw [parseElements] at h
      simp only [Option.bind_eq_some_iff] at h
      obtain ⟨⟨v, s₁⟩, hv, h⟩ := h
      obtain ⟨p₁, rfl, hp₁⟩ := ihV _ _ _ hv
      simp only at h
      split at h
      · next r hr =>
        obtain ⟨-, rfl⟩ := Prod.mk.inj (Option.some.inj h)
        obtain ⟨w, rfl, hw⟩ := closed.skipClose 93 hr
        exact ⟨_, by simp, closed.append hp₁ hw⟩
      · simp only [Option.bind_eq_some_iff, Option.map_eq_some_iff] at h
        obtain ⟨s₂, hs₂, ⟨ws, r⟩, hws, heq⟩ := h
        obtain ⟨-, rfl⟩ := Prod.mk.inj heq
        obtain ⟨p₂, rfl, hp₂⟩ := skipSep_bare (.inl rfl) hs₂
        obtain ⟨b, rfl, hb⟩ := ihE _ _ _ hws
        exact ⟨_, by simp, closed.append hp₁ (closed.append (closed.bare hp₂) hb)⟩

/-- **What loads has every closed property.** -/
theorem closed_of_loads {s : PyStr} {v : PyVal F} (h : loads s = some v) : P s := by
  rw [loads] at h
  split at h
  · next w q hw =>
    split_ifs at h with hq
    obtain ⟨p, hp, hclosed⟩ := (parse_closed closed F _).1 _ _ _ hw
    obtain ⟨w, hwhite, hs⟩ := skipWs_spec s
    obtain ⟨w', hwhite', hq'⟩ := skipWs_spec q
    rw [hq, List.append_nil] at hq'
    rw [hs, hp]
    exact closed.append (closed.bare (bare_white hwhite))
      (closed.append hclosed (hq' ▸ closed.bare (bare_white hwhite')))
  · cases h

/-- What is read as a dict stands between braces. -/
theorem Closed.dict_of_parseValue {n : ℕ} {s q : PyStr} {kvs : List (Key F × PyVal F)}
    (h : parseValue n s = some (.dict kvs, q)) : ∃ b, s = 123 :: (b ++ 125 :: q) ∧ P b := by
  cases n with
  | zero => simp [parseValue] at h
  | succ n =>
    cases s with
    | nil => simp [parseValue] at h
    | cons o s =>
      rw [parseValue] at h
      split_ifs at h with h34 h123 h91
      · obtain ⟨_, -, heq⟩ := Option.map_eq_some_iff.mp h
        cases heq
      · obtain rfl : o = 123 := Fin.ext h123
        obtain ⟨b, rfl, hb⟩ := closed.inDict (parse_closed closed F n).2.1 h
        exact ⟨b, rfl, hb⟩
      · split at h
        · cases h
        · obtain ⟨_, -, heq⟩ := Option.map_eq_some_iff.mp h
          cases heq
      · exact absurd rfl (scanAtom_ne_dict h kvs)

/-! ### The fuel -/

omit closed in
theorem length_skipWs_le (s : PyStr) : (skipWs s).length ≤ s.length := List.length_dropWhile_le _ s

omit closed in
theorem length_skipClose {close : ℕ} {s q : PyStr} (h : skipClose close s = some q) :
    q.length < s.length := by
  obtain ⟨w, c, -, -, rfl⟩ := skipClose_white h
  rw [List.length_append, List.length_cons]
  omega

omit closed in
theorem length_skipSep {sep : ℕ} {s q : PyStr} (h : skipSep sep s = some q) :
    q.length < s.length := by
  have hws := length_skipWs_le s
  unfold skipSep at h
  split at h
  · cases h
  · next c r hcr =>
    split_ifs at h
    obtain rfl := Option.some.inj h
    have hrest := length_skipWs_le r
    rw [hcr, List.length_cons] at hws
    omega

omit closed in
theorem length_scanString_lt {s q k : PyStr} (h : scanString s = some (k, q)) :
    q.length < s.length := by
  obtain ⟨p, rfl, hp⟩ := scanString_splits h
  have hne : p ≠ [] := by
    rintro rfl
    exact absurd (hp []) (by simp [scanString, scanUnits])
  rw [List.length_append]
  have := List.length_pos_of_ne_nil hne
  omega

variable (F) in
/-- A value that is read with the fuel is read with as much as twice its length. -/
def ValueEnough (n : ℕ) : Prop :=
  ∀ (s q : PyStr) (v : PyVal F), parseValue n s = some (v, q) → q.length < s.length ∧
    ∀ m, 2 * (s.length - q.length) ≤ m + 1 → parseValue m s = some (v, q)

variable (F) in
/-- So are members. -/
def MembersEnough (n : ℕ) : Prop :=
  ∀ (s q : PyStr) (ps : List (PyStr × PyVal F)), parseMembers n s = some (ps, q) →
    q.length + 1 < s.length ∧
      ∀ m, 2 * (s.length - q.length) ≤ m + 2 → parseMembers m s = some (ps, q)

variable (F) in
/-- So are elements. -/
def ElementsEnough (n : ℕ) : Prop :=
  ∀ (s q : PyStr) (vs : List (PyVal F)), parseElements n s = some (vs, q) →
    q.length + 1 < s.length ∧
      ∀ m, 2 * (s.length - q.length) ≤ m + 2 → parseElements m s = some (vs, q)

omit closed in
theorem valueEnough_succ {n : ℕ} (hmembers : MembersEnough F n) (helements : ElementsEnough F n) :
    ValueEnough F (n + 1) := by
  intro s q v h
  cases s with
  | nil => simp [parseValue] at h
  | cons o s =>
    rw [parseValue] at h
    have hpos : ∀ {m : ℕ}, q.length < (o :: s).length →
        2 * ((o :: s).length - q.length) ≤ m + 1 → ∃ k, m = k + 1 := by
      intro m hlt hm
      exact ⟨m - 1, by omega⟩
    split_ifs at h with h34 h123 h91
    · -- a string
      obtain ⟨⟨k, r⟩, hk, heq⟩ := Option.map_eq_some_iff.mp h
      simp only [Prod.mk.injEq] at heq
      obtain ⟨-, rfl⟩ := heq
      have hlen := length_scanString_lt hk
      have hlt : r.length < (o :: s).length := by
        rw [List.length_cons]
        omega
      refine ⟨hlt, fun m hm => ?_⟩
      obtain ⟨m, rfl⟩ := hpos hlt hm
      rw [parseValue, if_pos h34]
      exact h
    · -- a dict
      have hrest : q.length < s.length ∧ ∀ m, 2 * (s.length - q.length) ≤ m + 2 →
          (match skipClose 125 s with
            | some r => some (.dict [], r)
            | none => (parseMembers m (skipWs s)).map fun p => (.dict (dictOf p.1), p.2))
              = some (v, q) := by
        cases hclose : skipClose 125 s with
        | some r =>
          rw [hclose] at h
          obtain ⟨hv, rfl⟩ := Prod.mk.inj (Option.some.inj h)
          exact ⟨length_skipClose hclose, fun m _ => congrArg some (Prod.ext hv rfl)⟩
        | none =>
          rw [hclose] at h
          obtain ⟨⟨ps, r⟩, hps, heq⟩ := Option.map_eq_some_iff.mp h
          simp only [Prod.mk.injEq] at heq
          obtain ⟨hv, rfl⟩ := heq
          obtain ⟨hlen, henough⟩ := hmembers _ _ _ hps
          have hws := length_skipWs_le s
          refine ⟨by omega, fun m hm => ?_⟩
          rw [henough m (by omega)]
          exact congrArg some (Prod.ext hv rfl)
      obtain ⟨hlt, henough⟩ := hrest
      have hlt' : q.length < (o :: s).length := hlt.trans (Nat.lt_succ_self _)
      refine ⟨hlt', fun m hm => ?_⟩
      obtain ⟨m, rfl⟩ := hpos hlt' hm
      rw [parseValue, if_neg h34, if_pos h123]
      exact henough m (by rw [List.length_cons] at hm; omega)
    · -- a list
      have hrest : q.length < s.length ∧ ∀ m, 2 * (s.length - q.length) ≤ m + 2 →
          (match skipClose 93 s with
            | some r => some (.list [], r)
            | none => (parseElements m (skipWs s)).map fun p => (.list p.1, p.2))
              = some (v, q) := by
        cases hclose : skipClose 93 s with
        | some r =>
          rw [hclose] at h
          obtain ⟨hv, rfl⟩ := Prod.mk.inj (Option.some.inj h)
          exact ⟨length_skipClose hclose, fun m _ => congrArg some (Prod.ext hv rfl)⟩
        | none =>
          rw [hclose] at h
          obtain ⟨⟨vs, r⟩, hvs, heq⟩ := Option.map_eq_some_iff.mp h
          simp only [Prod.mk.injEq] at heq
          obtain ⟨hv, rfl⟩ := heq
          obtain ⟨hlen, henough⟩ := helements _ _ _ hvs
          have hws := length_skipWs_le s
          refine ⟨by omega, fun m hm => ?_⟩
          rw [henough m (by omega)]
          exact congrArg some (Prod.ext hv rfl)
      obtain ⟨hlt, henough⟩ := hrest
      have hlt' : q.length < (o :: s).length := hlt.trans (Nat.lt_succ_self _)
      refine ⟨hlt', fun m hm => ?_⟩
      obtain ⟨m, rfl⟩ := hpos hlt' hm
      rw [parseValue, if_neg h34, if_neg h123, if_pos h91]
      exact henough m (by rw [List.length_cons] at hm; omega)
    · -- a number or a literal
      obtain ⟨-, p, hp, hne, -⟩ := scanAtom_splits h
      have hlt : q.length < (o :: s).length := by
        rw [hp, List.length_append]
        have := List.length_pos_of_ne_nil hne
        omega
      refine ⟨hlt, fun m hm => ?_⟩
      obtain ⟨m, rfl⟩ := hpos hlt hm
      rw [parseValue, if_neg h34, if_neg h123, if_neg h91]
      exact h

omit closed in
theorem membersEnough_succ {n : ℕ} (hvalue : ValueEnough F n) (hmembers : MembersEnough F n) :
    MembersEnough F (n + 1) := by
  intro s q ps h
  cases s with
  | nil => simp [parseMembers] at h
  | cons o s =>
    rw [parseMembers] at h
    split_ifs at h with h34
    simp only [Option.bind_eq_some_iff] at h
    obtain ⟨⟨k, s₁⟩, hk, s₂, hs₂, ⟨v, s₃⟩, hv, h⟩ := h
    have h₁ := length_scanString_lt hk
    have h₂ := length_skipSep hs₂
    obtain ⟨h₃, henough⟩ := hvalue _ _ _ hv
    dsimp only at h h₂
    -- the key, the colon, the value, and what is behind it
    have hlast : q.length < s₃.length ∧ ∀ m, 2 * (s₃.length - q.length) ≤ m + 2 →
        (match skipClose 125 s₃ with
          | some r => some ([(k, v)], r)
          | none => (skipSep 44 s₃).bind fun s =>
            (parseMembers m s).map fun p => ((k, v) :: p.1, p.2)) = some (ps, q) := by
      cases hclose : skipClose 125 s₃ with
      | some r =>
        rw [hclose] at h
        obtain ⟨hps, rfl⟩ := Prod.mk.inj (Option.some.inj h)
        exact ⟨length_skipClose hclose, fun m _ => congrArg some (Prod.ext hps rfl)⟩
      | none =>
        rw [hclose] at h
        simp only [Option.bind_eq_some_iff, Option.map_eq_some_iff] at h
        obtain ⟨s₄, hs₄, ⟨qs, r⟩, hqs, heq⟩ := h
        simp only [Prod.mk.injEq] at heq
        obtain ⟨hps, rfl⟩ := heq
        have h₄ := length_skipSep hs₄
        obtain ⟨h₅, hrest⟩ := hmembers _ _ _ hqs
        refine ⟨by omega, fun m hm => ?_⟩
        rw [hs₄, Option.bind_some, hrest m (by omega)]
        exact congrArg some (Prod.ext hps rfl)
    obtain ⟨hlt, hrest⟩ := hlast
    rw [List.length_cons]
    refine ⟨by omega, fun m hm => ?_⟩
    obtain ⟨m, rfl⟩ : ∃ k, m = k + 1 := ⟨m - 1, by omega⟩
    rw [parseMembers, if_pos h34, hk, Option.bind_some, hs₂, Option.bind_some,
      henough m (by omega), Option.bind_some]
    exact hrest m (by omega)

omit closed in
theorem elementsEnough_succ {n : ℕ} (hvalue : ValueEnough F n) (helements : ElementsEnough F n) :
    ElementsEnough F (n + 1) := by
  intro s q vs h
  rw [parseElements] at h
  simp only [Option.bind_eq_some_iff] at h
  obtain ⟨⟨v, s₁⟩, hv, h⟩ := h
  obtain ⟨h₁, henough⟩ := hvalue _ _ _ hv
  dsimp only at h
  have hlast : q.length < s₁.length ∧ ∀ m, 2 * (s₁.length - q.length) ≤ m + 2 →
      (match skipClose 93 s₁ with
        | some r => some ([v], r)
        | none => (skipSep 44 s₁).bind fun s =>
          (parseElements m s).map fun p => (v :: p.1, p.2)) = some (vs, q) := by
    cases hclose : skipClose 93 s₁ with
    | some r =>
      rw [hclose] at h
      obtain ⟨hvs, rfl⟩ := Prod.mk.inj (Option.some.inj h)
      exact ⟨length_skipClose hclose, fun m _ => congrArg some (Prod.ext hvs rfl)⟩
    | none =>
      rw [hclose] at h
      simp only [Option.bind_eq_some_iff, Option.map_eq_some_iff] at h
      obtain ⟨s₂, hs₂, ⟨ws, r⟩, hws, heq⟩ := h
      simp only [Prod.mk.injEq] at heq
      obtain ⟨hvs, rfl⟩ := heq
      have h₂ := length_skipSep hs₂
      obtain ⟨h₃, hrest⟩ := helements _ _ _ hws
      refine ⟨by omega, fun m hm => ?_⟩
      rw [hs₂, Option.bind_some, hrest m (by omega)]
      exact congrArg some (Prod.ext hvs rfl)
  obtain ⟨hlt, hrest⟩ := hlast
  refine ⟨by omega, fun m hm => ?_⟩
  obtain ⟨m, rfl⟩ : ∃ k, m = k + 1 := ⟨m - 1, by omega⟩
  rw [parseElements, henough m (by omega), Option.bind_some]
  exact hrest m (by omega)

variable (F) in
omit closed in
/-- **Whatever is read is read with as much fuel as twice its length.**  The induction is on the
fuel it was read with. -/
theorem parse_enough : ∀ n : ℕ, ValueEnough F n ∧ MembersEnough F n ∧ ElementsEnough F n := by
  intro n
  induction n with
  | zero =>
    refine ⟨fun s q v h => ?_, fun s q ps h => ?_, fun s q vs h => ?_⟩
    · simp [parseValue] at h
    · simp [parseMembers] at h
    · simp [parseElements] at h
  | succ n ih =>
    obtain ⟨hvalue, hmembers, helements⟩ := ih
    exact ⟨valueEnough_succ hmembers helements, membersEnough_succ hvalue hmembers,
      elementsEnough_succ hvalue helements⟩

/-- **A text that loads as a dict is something closed between braces**, white space aside, and
loads without that. -/
theorem dict_of_loads {s : PyStr} {kvs : List (Key F × PyVal F)} (h : loads s = some (.dict kvs)) :
    ∃ w b w', s = w ++ 123 :: (b ++ 125 :: w') ∧ White w ∧ White w' ∧ P b ∧
      loads (123 :: (b ++ [125])) = some (.dict kvs) := by
  rw [loads] at h
  split at h
  · next v q hw =>
    split_ifs at h with hq
    obtain rfl := Option.some.inj h
    obtain ⟨w, hwhite, hs⟩ := skipWs_spec s
    obtain ⟨w', hwhite', hq'⟩ := skipWs_spec q
    rw [hq, List.append_nil] at hq'
    obtain ⟨b, hb, hclosed⟩ := closed.dict_of_parseValue hw
    have hsplit : skipWs s = 123 :: (b ++ [125]) ++ q := by
      rw [hb]
      simp
    obtain ⟨p, hp, -, hreads⟩ := (parse_reads (F := F) _).1 _ _ _ hw
    obtain rfl : 123 :: (b ++ [125]) = p := List.append_cancel_right (hsplit.symm.trans hp)
    have hlong := hreads _ le_rfl [] (.inr rfl)
    rw [List.append_nil] at hlong
    refine ⟨w, b, q, hb ▸ hs, hwhite, hq' ▸ hwhite', hclosed, ?_⟩
    rw [loads, skipWs_cons (by decide), ((parse_enough F _).1 _ _ _ hlong).2 _ (by simp; omega)]
    rfl
  · cases h

end

end Json
