import Daryl.Json.Print
import Daryl.Json.Parse
import Daryl.Py.Canon

/-!
# `json.loads` inverts `json.dumps`

The text of a value, in any style, reads back as `form` of the value.  Under
`ensure_ascii` this needs that no string holds a high surrogate directly before
a low one: the two would be read back as one code point.

## Main definitions

* `Joined` — no high surrogate directly before a low one.

## Main results

* `scanString_escape` — a string reads back.
* `parseValue_print` — a value reads back, whatever follows it.
* `loads_print` — `json.loads(json.dumps(v))`.
* `form_eq_of_print_eq` — **a text determines the value, up to `form`.**
-/

namespace Json

open Py

/-- No high surrogate stands directly before a low one. -/
def Joined (s : PyStr) : Prop := s.IsChain fun a b => ¬(a.isHigh = true ∧ b.isLow = true)

theorem joined_of_encodable {s : PyStr} (h : Encodable s) : Joined s := by
  refine List.Pairwise.isChain (List.Pairwise.imp_of_mem (R := fun _ _ => True) ?_ ?_)
  · intro a b ha _ _ hab
    have := h a ha
    simp only [CodePoint.isSurrogate, CodePoint.isHigh, Bool.and_eq_true, Bool.and_eq_false_iff,
      decide_eq_true_eq, decide_eq_false_iff_not] at this hab
    omega
  · exact List.pairwise_of_forall fun _ _ => trivial

/-! ### Strings -/

theorem hexVal_hexDigit : ∀ d : Fin 16, hexVal (hexDigit d) = some d := by decide

/-- A code unit as a code point. -/
def unitPoint (u : Fin 0x10000) : CodePoint := ⟨u.val, by omega⟩

theorem unitPoint_val (u : Fin 0x10000) : (unitPoint u).val = u.val := rfl

theorem highOf_val (c : CodePoint) : (highOf c).val = 0xD800 + (c.val - 0x10000) / 0x400 := rfl

theorem lowOf_val (c : CodePoint) : (lowOf c).val = 0xDC00 + (c.val - 0x10000) % 0x400 := rfl

theorem joinSurrogates_val {h l : CodePoint} (hp : (h.isHigh && l.isLow) = true) :
    (joinSurrogates h l hp).val = 0x10000 + (h.val - 0xD800) * 0x400 + (l.val - 0xDC00) := rfl

private theorem hex4_digits {u : Fin 0x10000} {a b c d : Fin 16} (ha : a.val = u.val / 4096)
    (hb : b.val = u.val / 256 % 16) (hc : c.val = u.val / 16 % 16) (hd : d.val = u.val % 16) :
    hex4 (hexDigit a) (hexDigit b) (hexDigit c) (hexDigit d) = some (unitPoint u) := by
  simp only [hex4, hexVal_hexDigit, Option.bind_some, Option.map_some, Option.some.injEq]
  unfold unitPoint
  rw [Fin.mk.injEq]
  omega

/-- The units a scan finds in the escape of a code point. -/
def unitsOf (ensureAscii : Bool) (c : CodePoint) : List (Bool × CodePoint) :=
  match shortEscape c with
  | some _ => [(false, c)]
  | none =>
    if ensureAscii then
      if 32 ≤ c.val ∧ c.val ≤ 126 then [(false, c)]
      else if c.val < 0x10000 then [(true, c)]
      else [(true, unitPoint (highOf c)), (true, unitPoint (lowOf c))]
    else if c.val < 32 then [(true, c)]
    else [(false, c)]

private theorem scanUnits_unicodeEscape (u : Fin 0x10000) (r : PyStr) :
    scanUnits (unicodeEscape u ++ r) = (scanUnits r).map (push (true, unitPoint u)) := by
  rw [unicodeEscape, show py "\\u" = [92, 117] from rfl, List.append_assoc, List.cons_append,
    scanUnits.eq_def]
  simp only
  rw [if_neg (by decide), if_pos (by decide)]
  simp only [List.cons_append, List.nil_append]
  rw [if_pos (by decide), hex4_digits rfl rfl rfl rfl, Option.bind_some]

/-- A code point that is written as itself is read as itself. -/
private theorem scanUnits_plain {c : CodePoint} (hquote : c.val ≠ 34) (hback : c.val ≠ 92)
    (hctl : ¬c.val < 32) (r : PyStr) :
    scanUnits (c :: r) = (scanUnits r).map (push (false, c)) := by
  rw [scanUnits.eq_def]
  simp only
  rw [if_neg hquote, if_neg hback, if_neg hctl]

private theorem scanUnits_shortEscape {c : CodePoint} {s : PyStr} (h : shortEscape c = some s)
    (r : PyStr) : scanUnits (s ++ r) = (scanUnits r).map (push (false, c)) := by
  have key : ∀ e : CodePoint, simpleEscape e = some c → e.val ≠ 117 →
      scanUnits ((92 : CodePoint) :: e :: r) = (scanUnits r).map (push (false, c)) := by
    intro e he hu
    rw [scanUnits.eq_def]
    simp only
    rw [if_neg (by decide), if_pos (by decide), if_neg hu, he, Option.bind_some]
  unfold shortEscape at h
  split_ifs at h with h1 h2 h3 h4 h5 h6 h7
  · rw [← Option.some.inj h]
    exact key 34 (by rw [show c = 34 from Fin.ext h1]; rfl) (by decide)
  · rw [← Option.some.inj h]
    exact key 92 (by rw [show c = 92 from Fin.ext h2]; rfl) (by decide)
  · rw [← Option.some.inj h]
    exact key 110 (by rw [show c = 10 from Fin.ext h3]; rfl) (by decide)
  · rw [← Option.some.inj h]
    exact key 114 (by rw [show c = 13 from Fin.ext h4]; rfl) (by decide)
  · rw [← Option.some.inj h]
    exact key 116 (by rw [show c = 9 from Fin.ext h5]; rfl) (by decide)
  · rw [← Option.some.inj h]
    exact key 102 (by rw [show c = 12 from Fin.ext h6]; rfl) (by decide)
  · rw [← Option.some.inj h]
    exact key 98 (by rw [show c = 8 from Fin.ext h7]; rfl) (by decide)

/-- A code point without a short escape is neither a quote nor a backslash. -/
private theorem not_special {c : CodePoint} (h : shortEscape c = none) :
    c.val ≠ 34 ∧ c.val ≠ 92 := by
  unfold shortEscape at h
  split_ifs at h with h1 h2
  exact ⟨h1, h2⟩

theorem scanUnits_escapeChar (a : Bool) (c : CodePoint) (r : PyStr) :
    scanUnits (escapeChar a c ++ r)
      = (scanUnits r).map fun p => (unitsOf a c ++ p.1, p.2) := by
  cases hs : shortEscape c with
  | some s =>
    simp only [escapeChar, unitsOf, hs]
    exact scanUnits_shortEscape hs r
  | none =>
    obtain ⟨hq, hb⟩ := not_special hs
    simp only [escapeChar, unitsOf, hs]
    cases a with
    | true =>
      simp only [if_true]
      split_ifs with h1 h2
      · exact scanUnits_plain hq hb (by omega) r
      · exact scanUnits_unicodeEscape _ r
      · rw [List.append_assoc, scanUnits_unicodeEscape, scanUnits_unicodeEscape, Option.map_map]
        rfl
    | false =>
      simp only [Bool.false_eq_true, if_false]
      split_ifs with h1
      · exact scanUnits_unicodeEscape _ r
      · exact scanUnits_plain hq hb h1 r

/-- Scanning an escaped string stops at its closing quote. -/
theorem scanUnits_escape (a : Bool) (r : PyStr) : ∀ s : PyStr,
    scanUnits (escape a s ++ 34 :: r) = some (s.flatMap (unitsOf a), r)
  | [] => by
    rw [scanUnits.eq_def]
    rfl
  | c :: s => by
    have ih := scanUnits_escape a r s
    simp only [escape, List.flatMap_cons, List.append_assoc] at ih ⊢
    rw [scanUnits_escapeChar, ih]
    rfl

/-- A unit that starts no surrogate pair is read as it is. -/
private theorem joinPairs_cons {b : Bool} {c : CodePoint} {us : List (Bool × CodePoint)}
    (h : ∀ l us', us = (true, l) :: us' → b = true → ¬(c.isHigh = true ∧ l.isLow = true)) :
    joinPairs ((b, c) :: us) = c :: joinPairs us := by
  match b, us with
  | false, _ => simp [joinPairs]
  | true, [] => simp [joinPairs]
  | true, (false, _) :: _ => simp [joinPairs]
  | true, (true, l) :: us' =>
    have := h l us' rfl rfl
    rw [joinPairs, dif_neg (by simpa using this)]

/-- The two surrogates of a code point are read as the code point. -/
private theorem joinPairs_pair {c : CodePoint} (hc : ¬c.val < 0x10000)
    (us : List (Bool × CodePoint)) :
    joinPairs ((true, unitPoint (highOf c)) :: (true, unitPoint (lowOf c)) :: us)
      = c :: joinPairs us := by
  have hlt := c.isLt
  have hhigh : (unitPoint (highOf c)).isHigh = true :=
    CodePoint.isHigh_iff.mpr (by simp only [unitPoint, highOf]; omega)
  have hlow : (unitPoint (lowOf c)).isLow = true :=
    CodePoint.isLow_iff.mpr (by simp only [unitPoint, lowOf]; omega)
  have hp : ((unitPoint (highOf c)).isHigh && (unitPoint (lowOf c)).isLow) = true :=
    Bool.and_eq_true_iff.mpr ⟨hhigh, hlow⟩
  have hjoin : joinSurrogates (unitPoint (highOf c)) (unitPoint (lowOf c)) hp = c := by
    apply Fin.eq_of_val_eq
    rw [joinSurrogates_val, unitPoint_val, unitPoint_val, highOf_val, lowOf_val]
    omega
  rw [joinPairs, dif_pos hp, hjoin]

/-- The units of a code point: itself, escaped or not, or its two surrogates. -/
private theorem unitsOf_cases (a : Bool) (c : CodePoint) :
    (∃ b : Bool, (b = true → a = false → c.val < 32) ∧ unitsOf a c = [(b, c)]) ∨
    (¬c.val < 0x10000 ∧
      unitsOf a c = [(true, unitPoint (highOf c)), (true, unitPoint (lowOf c))]) := by
  unfold unitsOf
  split
  · exact .inl ⟨false, by simp, rfl⟩
  · split_ifs with ha h1 h2 h3
    · exact .inl ⟨false, by simp, rfl⟩
    · exact .inl ⟨true, by simp [ha], rfl⟩
    · exact .inr ⟨h2, rfl⟩
    · exact .inl ⟨true, fun _ _ => h3, rfl⟩
    · exact .inl ⟨false, by simp, rfl⟩

/-- The first unit of a code point is the code point or a high surrogate. -/
private theorem head_unitsOf {a : Bool} {c l : CodePoint} {b : Bool}
    {us vs : List (Bool × CodePoint)} (h : unitsOf a c ++ vs = (b, l) :: us)
    (hl : l.isLow = true) : l = c := by
  rcases unitsOf_cases a c with ⟨b', -, hu⟩ | ⟨hc, hu⟩
  · simp_all
  · rw [hu] at h
    simp only [List.cons_append, List.cons.injEq, Prod.mk.injEq] at h
    rw [← h.1.2, CodePoint.isLow_iff] at hl
    have := c.isLt
    simp only [unitPoint, highOf] at hl
    omega

/-- **The units of an escaped string join to the string.** -/
theorem joinPairs_unitsOf (a : Bool) : ∀ s : PyStr, (a = true → Joined s) →
    joinPairs (s.flatMap (unitsOf a)) = s
  | [], _ => rfl
  | c :: s, h => by
    have ih := joinPairs_unitsOf a s fun ha => (h ha).tail
    rw [List.flatMap_cons]
    rcases unitsOf_cases a c with ⟨b, hb, hu⟩ | ⟨hc, hu⟩
    · rw [hu, List.singleton_append, joinPairs_cons, ih]
      rintro l us' hus rfl ⟨hhigh, hlow⟩
      cases s with
      | nil => simp at hus
      | cons d s =>
        rw [List.flatMap_cons] at hus
        have hld := head_unitsOf hus hlow
        subst hld
        cases ha : a with
        | true =>
          have hj := h ha
          rw [Joined, List.isChain_cons_cons] at hj
          exact hj.1 ⟨hhigh, hlow⟩
        | false =>
          have := hb rfl ha
          rw [CodePoint.isHigh_iff] at hhigh
          omega
    · rw [hu, List.cons_append, List.singleton_append, joinPairs_pair hc, ih]

/-- **A string reads back.** -/
theorem scanString_escape {a : Bool} {s : PyStr} (h : a = true → Joined s) (r : PyStr) :
    scanString (escape a s ++ 34 :: r) = some (s, r) := by
  rw [scanString, scanUnits_escape, Option.map_some, joinPairs_unitsOf a s h]

/-! ### Numbers -/

/-- What follows cannot continue a number. -/
def NoNumber : PyStr → Prop
  | [] => True
  | c :: _ => digitVal c = none ∧ c.val ≠ 46 ∧ c.val ≠ 101 ∧ c.val ≠ 69

theorem NoNumber.noDigit {r : PyStr} (h : NoNumber r) : NoDigit r := by
  cases r with
  | nil => trivial
  | cons c r => exact h.1

private theorem scanInt_natStr (n : ℕ) {r : PyStr} (hr : NoDigit r) :
    scanInt (natStr n ++ r) = some (n, r) := by
  by_cases hn : n = 0
  · subst hn
    rfl
  · cases hds : decDigits n with
    | nil => exact absurd hds (decDigits_ne_nil n)
    | cons d ds =>
      have hd := decDigits_head_ne_zero hn hds
      rw [natStr, hds, List.map_cons, List.cons_append, scanInt]
      simp only [digitVal_digitChar, if_neg hd, takeDigits_append ds hr]
      rw [← hds, natOfDigits_decDigits]

private theorem scanExp_none {r : PyStr} (hr : NoNumber r) : scanExp r = (none, r) := by
  cases r with
  | nil => rfl
  | cons c r =>
    rw [scanExp, if_neg]
    rintro (h | h)
    · exact hr.2.2.1 h
    · exact hr.2.2.2 h

private theorem scanFrac_none {r : PyStr} (hr : NoNumber r) : scanFrac r = (none, r) := by
  cases r with
  | nil => rfl
  | cons c r => rw [scanFrac, if_neg hr.2.1]

private theorem scanSign_digit (d : Fin 10) (s : PyStr) :
    scanSign (digitChar d :: s) = (none, digitChar d :: s) := by
  have := d.isLt
  rw [scanSign, if_neg (by simp only [digitChar]; omega), if_neg (by simp only [digitChar]; omega)]

private theorem scanExp_text (e : ExpLit) {r : PyStr} (hr : NoNumber r) :
    scanExp (e.text ++ r) = (some e, r) := by
  obtain ⟨upper, sign, d, ds⟩ := e
  have htake := takeDigits_append (d :: ds) hr.noDigit
  rw [List.map_cons, List.cons_append] at htake
  have hsign : scanSign (signText sign ++ (digitChar d :: (ds.map digitChar ++ r)))
      = (sign, digitChar d :: (ds.map digitChar ++ r)) := by
    rcases sign with - | (- | -)
    · exact scanSign_digit d _
    · rfl
    · rfl
  cases upper
  all_goals
    simp only [ExpLit.text, List.append_assoc, List.map_cons, List.cons_append, if_true,
      Bool.false_eq_true, if_false]
  · rw [show py "e" = [101] from rfl, List.singleton_append, scanExp, if_pos (by decide), hsign]
    simp only [htake]
    rfl
  · rw [show py "E" = [69] from rfl, List.singleton_append, scanExp, if_pos (by decide), hsign]
    simp only [htake]
    rfl

/-- A text that starts with the sign of an exponent does not start with a digit
or a point. -/
private theorem expText_append_noFrac (e : ExpLit) (r : PyStr) :
    ∃ c s, e.text ++ r = c :: s ∧ digitVal c = none ∧ c.val ≠ 46 := by
  obtain ⟨upper, sign, d, ds⟩ := e
  cases upper
  · exact ⟨101, _, rfl, rfl, by decide⟩
  · exact ⟨69, _, rfl, rfl, by decide⟩

private theorem scanExp_expText (e : Option ExpLit) {r : PyStr} (hr : NoNumber r) :
    scanExp (expText e ++ r) = (e, r) := by
  cases e with
  | none => exact scanExp_none hr
  | some e => exact scanExp_text e hr

private theorem noDigit_expText (e : Option ExpLit) {r : PyStr} (hr : NoNumber r) :
    NoDigit (expText e ++ r) := by
  cases e with
  | none => exact hr.noDigit
  | some e =>
    obtain ⟨c, s, hcs, hc, -⟩ := expText_append_noFrac e r
    rw [expText, hcs]
    exact hc

section

variable {F : Type} [PyFloat F]

private theorem scanMinus_natStr (n : ℕ) (r : PyStr) :
    scanMinus (natStr n ++ r) = (false, natStr n ++ r) := by
  cases hds : decDigits n with
  | nil => exact absurd hds (decDigits_ne_nil n)
  | cons d ds =>
    have := d.isLt
    rw [natStr, hds, List.map_cons, List.cons_append, scanMinus,
      if_neg (by simp only [digitChar]; omega)]

private theorem scanMinus_text (neg : Bool) (n : ℕ) (r : PyStr) :
    scanMinus ((if neg then py "-" else []) ++ natStr n ++ r) = (neg, natStr n ++ r) := by
  cases neg
  · simpa using scanMinus_natStr n r
  · rfl

/-- A sign and digits are an integer. -/
theorem scanNumber_signed (neg : Bool) (k : ℕ) {r : PyStr} (hr : NoNumber r) :
    scanNumber ((if neg then py "-" else []) ++ natStr k ++ r)
      = some ((.int (if neg then -(k : ℤ) else k) : PyVal F), r) := by
  rw [scanNumber, scanMinus_text]
  simp only
  rw [scanInt_natStr k hr.noDigit]
  simp only [Option.map_some, scanFrac_none hr, scanExp_none hr, numberVal]

theorem scanNumber_intStr (n : ℤ) {r : PyStr} (hr : NoNumber r) :
    scanNumber (intStr n ++ r) = some ((.int n : PyVal F), r) := by
  cases n with
  | ofNat k => exact scanNumber_signed false k hr
  | negSucc k => exact scanNumber_signed true (k + 1) hr

/-- A float literal reads back as the float it denotes. -/
theorem scanNumber_floatLit (l : FloatLit) {r : PyStr} (hr : NoNumber r) :
    scanNumber (l.text ++ r) = some ((.float (PyFloat.ofLit l) : PyVal F), r) := by
  obtain ⟨neg, n, tail⟩ := l
  rw [FloatLit.text, List.append_assoc, scanNumber, scanMinus_text]
  simp only
  cases tail with
  | frac d ds e =>
    have htake := takeDigits_append (d :: ds) (noDigit_expText e hr)
    have hfrac : scanFrac (py "." ++ ((d :: ds).map digitChar ++ (expText e ++ r)))
        = (some (d, ds), expText e ++ r) := by
      rw [show py "." = [46] from rfl, List.singleton_append, scanFrac, if_pos (by decide), htake]
    simp only [FloatTail.text, List.append_assoc]
    rw [scanInt_natStr n (r := py "." ++ _) rfl]
    simp only [Option.map_some, hfrac, scanExp_expText e hr, numberVal]
  | exp e =>
    obtain ⟨c, s, hcs, hc, hpoint⟩ := expText_append_noFrac e r
    have hfrac : scanFrac (e.text ++ r) = (none, e.text ++ r) := by
      rw [hcs, scanFrac, if_neg hpoint]
    have hint : NoDigit (e.text ++ r) := by
      rw [hcs]
      exact hc
    simp only [FloatTail.text]
    rw [scanInt_natStr n hint]
    simp only [Option.map_some, hfrac, scanExp_text e hr, numberVal]

/-! ### Atoms -/

omit [PyFloat F] in
/-- A literal whose first code point differs from that of the text is not read. -/
private theorem scanLit_ne (lit : PyStr) (a : CodePoint) (l : PyStr) (hlit : lit = a :: l)
    {b : CodePoint} {v : PyVal F} {s : PyStr} (h : a ≠ b) : scanLit lit v (b :: s) = none := by
  rw [hlit, scanLit, List.isPrefixOf?, if_neg (by simpa using h)]
  rfl

/-- A text that starts with a digit is a number. -/
private theorem scanAtom_digit (d : Fin 10) (s : PyStr) :
    (scanAtom (digitChar d :: s) : Option (PyVal F × PyStr)) = scanNumber (digitChar d :: s) := by
  have hne : ∀ a : CodePoint, a.val < 48 ∨ 57 < a.val → a ≠ digitChar d := by
    rintro a ha rfl
    have := d.isLt
    simp only [digitChar] at ha
    omega
  unfold scanAtom
  rw [scanLit_ne (py "null") 110 (py "ull") rfl (hne _ (by decide)),
    scanLit_ne (py "true") 116 (py "rue") rfl (hne _ (by decide)),
    scanLit_ne (py "false") 102 (py "alse") rfl (hne _ (by decide)),
    scanLit_ne (py "NaN") 78 (py "aN") rfl (hne _ (by decide)),
    scanLit_ne (py "Infinity") 73 (py "nfinity") rfl (hne _ (by decide)),
    scanLit_ne (py "-Infinity") 45 (py "Infinity") rfl (hne _ (by decide))]
  rfl

/-- A text that starts with a minus and a digit is a number. -/
private theorem scanAtom_minus (d : Fin 10) (s : PyStr) :
    (scanAtom ((45 : CodePoint) :: digitChar d :: s) : Option (PyVal F × PyStr))
      = scanNumber ((45 : CodePoint) :: digitChar d :: s) := by
  have hne : (73 : CodePoint) ≠ digitChar d := by
    intro h
    have hval := congrArg Fin.val h
    have := d.isLt
    simp only [digitChar] at hval
    omega
  have hinf : scanLit (py "-Infinity") (.float (.inf true) : PyVal F)
      ((45 : CodePoint) :: digitChar d :: s) = none := by
    rw [show py "-Infinity" = (45 : CodePoint) :: 73 :: py "nfinity" from rfl, scanLit,
      List.isPrefixOf?, if_pos (by simp), List.isPrefixOf?, if_neg (by simpa using hne)]
    rfl
  unfold scanAtom
  rw [scanLit_ne (py "null") 110 (py "ull") rfl (by decide),
    scanLit_ne (py "true") 116 (py "rue") rfl (by decide),
    scanLit_ne (py "false") 102 (py "alse") rfl (by decide),
    scanLit_ne (py "NaN") 78 (py "aN") rfl (by decide),
    scanLit_ne (py "Infinity") 73 (py "nfinity") rfl (by decide), hinf]
  rfl

/-- A sign and digits start a number. -/
theorem scanAtom_signed (neg : Bool) (n : ℕ) (s : PyStr) :
    (scanAtom ((if neg then py "-" else []) ++ natStr n ++ s) : Option (PyVal F × PyStr))
      = scanNumber ((if neg then py "-" else []) ++ natStr n ++ s) := by
  cases hds : decDigits n with
  | nil => exact absurd hds (decDigits_ne_nil n)
  | cons d ds =>
    rw [natStr, hds, List.map_cons]
    cases neg
    · exact scanAtom_digit d _
    · exact scanAtom_minus d _

theorem scanAtom_intStr (n : ℤ) {r : PyStr} (hr : NoNumber r) :
    scanAtom (intStr n ++ r) = some ((.int n : PyVal F), r) := by
  rw [← scanNumber_intStr n hr]
  cases n with
  | ofNat k => exact scanAtom_signed false k r
  | negSucc k => exact scanAtom_signed true (k + 1) r

theorem scanAtom_floatLit (l : FloatLit) {r : PyStr} (hr : NoNumber r) :
    scanAtom (l.text ++ r) = some ((.float (PyFloat.ofLit l) : PyVal F), r) := by
  rw [← scanNumber_floatLit l hr, FloatLit.text, List.append_assoc]
  exact scanAtom_signed l.neg l.int _

/-! ### Punctuation -/

/-- The first code point of a value's text: no white space and no punctuation. -/
def ValueStart (c : CodePoint) : Prop :=
  isWs c = false ∧ c.val ≠ 44 ∧ c.val ≠ 58 ∧ c.val ≠ 93 ∧ c.val ≠ 125

theorem skipWs_cons {c : CodePoint} (h : isWs c = false) (s : PyStr) : skipWs (c :: s) = c :: s := by
  rw [skipWs, List.dropWhile_cons, if_neg (by simp [h])]

/-- A bracket in front closes. -/
theorem skipClose_cons {c : CodePoint} (close : ℕ) (h : isWs c = false) (hc : c.val = close)
    (s : PyStr) : skipClose close (c :: s) = some s := by
  rw [skipClose, skipWs_cons h]
  simp [hc]

/-- Anything else in front does not. -/
theorem skipClose_ne {c : CodePoint} {close : ℕ} (h : isWs c = false) (hc : c.val ≠ close)
    (s : PyStr) : skipClose close (c :: s) = none := by
  rw [skipClose, skipWs_cons h]
  simp [hc]

theorem skipSep_itemSep (st : Style) {c : CodePoint} (h : isWs c = false) (s : PyStr) :
    skipSep 44 (st.itemSep ++ c :: s) = some (c :: s) := by
  unfold Style.itemSep
  split
  · rw [show py ", " = [44, 32] from rfl, List.cons_append, skipSep, skipWs_cons (by decide)]
    simp only [List.singleton_append]
    rw [if_pos (by decide), skipWs, List.dropWhile_cons, if_pos (by decide), ← skipWs,
      skipWs_cons h]
  · rw [show py "," = [44] from rfl, List.singleton_append, skipSep, skipWs_cons (by decide)]
    simp only
    rw [if_pos (by decide), skipWs_cons h]

theorem skipSep_keySep (st : Style) {c : CodePoint} (h : isWs c = false) (s : PyStr) :
    skipSep 58 (st.keySep ++ c :: s) = some (c :: s) := by
  unfold Style.keySep
  split
  · rw [show py ": " = [58, 32] from rfl, List.cons_append, skipSep, skipWs_cons (by decide)]
    simp only [List.singleton_append]
    rw [if_pos (by decide), skipWs, List.dropWhile_cons, if_pos (by decide), ← skipWs,
      skipWs_cons h]
  · rw [show py ":" = [58] from rfl, List.singleton_append, skipSep, skipWs_cons (by decide)]
    simp only
    rw [if_pos (by decide), skipWs_cons h]

/-- A separator closes nothing. -/
theorem skipClose_itemSep (st : Style) {close : ℕ} (h : close ≠ 44) (s : PyStr) :
    skipClose close (st.itemSep ++ s) = none := by
  unfold Style.itemSep
  split
  · exact skipClose_ne (c := 44) (by decide) h.symm _
  · exact skipClose_ne (c := 44) (by decide) h.symm _

theorem noNumber_itemSep (st : Style) (s : PyStr) : NoNumber (st.itemSep ++ s) := by
  unfold Style.itemSep
  split <;> exact ⟨rfl, by decide, by decide, by decide⟩

/-! ### The first code point of a text -/

/-- A value's text starts like a value. -/
theorem print_head {st : Style} {v : PyVal F} {t : PyStr} (h : print st v = some t) :
    ∃ c s, t = c :: s ∧ ValueStart c := by
  have hnum : ∀ (neg : Bool) (n : ℕ) (s : PyStr),
      ∃ c s', (if neg then py "-" else []) ++ natStr n ++ s = c :: s' ∧ ValueStart c := by
    intro neg n s
    cases hds : decDigits n with
    | nil => exact absurd hds (decDigits_ne_nil n)
    | cons d ds =>
      cases neg
      · refine ⟨digitChar d, _, by simp [natStr, hds]; rfl, ?_⟩
        have : ∀ d : Fin 10, ValueStart (digitChar d) := by
          unfold ValueStart
          decide
        exact this d
      · exact ⟨45, _, rfl, by unfold ValueStart; decide⟩
  cases v with
  | none =>
    rw [print, Option.some.injEq] at h
    exact ⟨110, _, h.symm, by unfold ValueStart; decide⟩
  | bool b =>
    rw [print, Option.some.injEq] at h
    cases b
    · exact ⟨102, _, h.symm, by unfold ValueStart; decide⟩
    · exact ⟨116, _, h.symm, by unfold ValueStart; decide⟩
  | int n =>
    rw [print, Option.some.injEq] at h
    subst h
    cases n with
    | ofNat k => simpa [intStr] using hnum false k []
    | negSucc k => simpa [intStr] using hnum true (k + 1) []
  | float x =>
    rw [print] at h
    rcases x with - | neg | x
    · simp only [printFloat, Option.ite_none_right_eq_some, Option.some.injEq] at h
      exact ⟨78, _, h.2.symm, by unfold ValueStart; decide⟩
    · simp only [printFloat, Option.ite_none_right_eq_some, Option.some.injEq] at h
      cases neg
      · exact ⟨73, _, h.2.symm, by unfold ValueStart; decide⟩
      · exact ⟨45, _, h.2.symm, by unfold ValueStart; decide⟩
    · simp only [printFloat, Option.some.injEq] at h
      exact h ▸ hnum _ _ _
  | str s =>
    rw [print, Option.some.injEq] at h
    exact ⟨34, _, h.symm, by unfold ValueStart; decide⟩
  | list vs | tuple vs =>
    obtain ⟨u, -, rfl⟩ := Option.map_eq_some_iff.mp h
    exact ⟨91, _, rfl, by unfold ValueStart; decide⟩
  | dict kvs =>
    obtain ⟨u, -, rfl⟩ := Option.map_eq_some_iff.mp h
    exact ⟨123, _, rfl, by unfold ValueStart; decide⟩

theorem print_ne_nil {st : Style} {v : PyVal F} {t : PyStr} (h : print st v = some t) :
    0 < t.length := by
  obtain ⟨c, s, rfl, -⟩ := print_head h
  simp

/-- The text of a key is a quoted string. -/
theorem printKey_eq {st : Style} {k : Key F} {t : PyStr} (h : printKey st k = some t) :
    t = 34 :: (escape st.ensureAscii k.text ++ [34]) := by
  unfold printKey at h
  split at h
  · simp only [Option.ite_none_right_eq_some, Option.some.injEq] at h
    rw [← h.2]
    rfl
  · rw [← Option.some.inj h]
    rfl

/-! ### One step of the scanner -/

/-- A value that starts with no quote and no bracket is an atom. -/
theorem parseValue_atom {c : CodePoint} (h34 : c.val ≠ 34) (h123 : c.val ≠ 123) (h91 : c.val ≠ 91)
    (n : ℕ) (s : PyStr) :
    (parseValue (n + 1) (c :: s) : Option (PyVal F × PyStr)) = scanAtom (c :: s) := by
  rw [parseValue, if_neg h34, if_neg h123, if_neg h91]

theorem parseValue_list_nil (n : ℕ) (r : PyStr) :
    (parseValue (n + 1) (91 :: 93 :: r) : Option (PyVal F × PyStr)) = some (.list [], r) := by
  rw [parseValue, if_neg (by decide), if_neg (by decide), if_pos (by decide),
    skipClose_cons 93 (by decide) rfl]

theorem parseValue_list {c : CodePoint} (hc : ValueStart c) (n : ℕ) (s : PyStr) :
    (parseValue (n + 1) (91 :: c :: s) : Option (PyVal F × PyStr))
      = (parseElements n (c :: s)).map fun p => (.list p.1, p.2) := by
  rw [parseValue, if_neg (by decide), if_neg (by decide), if_pos (by decide),
    skipClose_ne hc.1 hc.2.2.2.1, skipWs_cons hc.1]

theorem parseValue_dict_nil (n : ℕ) (r : PyStr) :
    (parseValue (n + 1) (123 :: 125 :: r) : Option (PyVal F × PyStr)) = some (.dict [], r) := by
  rw [parseValue, if_neg (by decide), if_pos (by decide), skipClose_cons 125 (by decide) rfl]

theorem parseValue_dict (n : ℕ) (s : PyStr) :
    (parseValue (n + 1) (123 :: 34 :: s) : Option (PyVal F × PyStr))
      = (parseMembers n (34 :: s)).map fun p => (.dict (dictOf p.1), p.2) := by
  rw [parseValue, if_neg (by decide), if_pos (by decide),
    skipClose_ne (c := 34) (by decide) (by decide), skipWs_cons (c := 34) (by decide)]

/-- An element and a closing bracket end the list. -/
theorem parseElements_close {n : ℕ} {s r : PyStr} {v : PyVal F}
    (h : parseValue n s = some (v, 93 :: r)) : parseElements (n + 1) s = some ([v], r) := by
  rw [parseElements, h, Option.bind_some]
  simp only
  rw [skipClose_cons 93 (by decide) rfl]

/-- An element and a separator continue it. -/
theorem parseElements_comma {n : ℕ} (st : Style) {s s' : PyStr} {c : CodePoint}
    (hc : isWs c = false) {v : PyVal F}
    (h : parseValue n s = some (v, st.itemSep ++ c :: s')) :
    parseElements (n + 1) s = (parseElements n (c :: s')).map fun p => (v :: p.1, p.2) := by
  rw [parseElements, h, Option.bind_some]
  simp only
  rw [skipClose_itemSep st (by decide), skipSep_itemSep st hc]
  rfl

/-- The head of a member: its key and the separator behind it. -/
theorem parseMembers_key {n : ℕ} {st : Style} {k : PyStr}
    (hk : st.ensureAscii = true → Joined k) {c : CodePoint} (hc : isWs c = false) (s : PyStr) :
    (parseMembers (n + 1) (34 :: (escape st.ensureAscii k ++ 34 :: (st.keySep ++ c :: s))) :
        Option (List (PyStr × PyVal F) × PyStr))
      = (parseValue n (c :: s)).bind fun v =>
          match skipClose 125 v.2 with
          | some r => some ([(k, v.1)], r)
          | none =>
            (skipSep 44 v.2).bind fun s =>
              (parseMembers n s).map fun p => ((k, v.1) :: p.1, p.2) := by
  rw [parseMembers, if_pos (by decide), scanString_escape hk, Option.bind_some]
  exact congrArg (Option.bind · _) (skipSep_keySep st hc s)

/-- A member and a closing brace end the dict. -/
theorem parseMembers_close {n : ℕ} {st : Style} {k : PyStr}
    (hk : st.ensureAscii = true → Joined k) {c : CodePoint} (hc : isWs c = false) {s r : PyStr}
    {v : PyVal F} (h : parseValue n (c :: s) = some (v, 125 :: r)) :
    parseMembers (n + 1) (34 :: (escape st.ensureAscii k ++ 34 :: (st.keySep ++ c :: s)))
      = some ([(k, v)], r) := by
  rw [parseMembers_key hk hc, h, Option.bind_some]
  simp only
  rw [skipClose_cons 125 (by decide) rfl]

/-- A member and a separator continue it. -/
theorem parseMembers_comma {n : ℕ} {st : Style} {k : PyStr}
    (hk : st.ensureAscii = true → Joined k) {c d : CodePoint} (hc : isWs c = false)
    (hd : isWs d = false) {s s' : PyStr} {v : PyVal F}
    (h : parseValue n (c :: s) = some (v, st.itemSep ++ d :: s')) :
    parseMembers (n + 1) (34 :: (escape st.ensureAscii k ++ 34 :: (st.keySep ++ c :: s)))
      = (parseMembers n (d :: s')).map fun p => ((k, v) :: p.1, p.2) := by
  rw [parseMembers_key hk hc, h, Option.bind_some]
  simp only
  rw [skipClose_itemSep st (by decide), skipSep_itemSep st hd]
  rfl

/-! ### Values -/

theorem parseValue_int (n : ℕ) (k : ℤ) {r : PyStr} (hr : NoNumber r) :
    parseValue (n + 1) (intStr k ++ r) = some ((.int k : PyVal F), r) := by
  have hw := within_intStr k
  rw [← scanAtom_intStr k hr]
  have hprint : print ⟨true, true, true⟩ (.int k : PyVal F) = some (intStr k) := rfl
  obtain ⟨c, s, hcs, -⟩ := print_head hprint
  rw [hcs] at hw ⊢
  have := (within_cons.mp hw).1
  exact parseValue_atom (by omega) (by omega) (by omega) n _

private theorem floatLit_head (l : FloatLit) :
    ∃ c s, l.text = c :: s ∧ c.val ≠ 34 ∧ c.val ≠ 123 ∧ c.val ≠ 91 := by
  obtain ⟨neg, n, tail⟩ := l
  cases hds : decDigits n with
  | nil => exact absurd hds (decDigits_ne_nil n)
  | cons d ds =>
    cases neg
    · have := d.isLt
      refine ⟨digitChar d, _, by simp [FloatLit.text, natStr, hds]; rfl, ?_, ?_, ?_⟩ <;>
        simp only [digitChar] <;> omega
    · exact ⟨45, _, rfl, by decide, by decide, by decide⟩

theorem parseValue_floatLit (n : ℕ) (l : FloatLit) {r : PyStr} (hr : NoNumber r) :
    parseValue (n + 1) (l.text ++ r) = some ((.float (PyFloat.ofLit l) : PyVal F), r) := by
  rw [← scanAtom_floatLit l hr]
  obtain ⟨c, s, hcs, h34, h123, h91⟩ := floatLit_head l
  rw [hcs]
  exact parseValue_atom h34 h123 h91 n _

theorem parseValue_str {a : Bool} {s : PyStr} (h : a = true → Joined s) (n : ℕ) (r : PyStr) :
    parseValue (n + 1) (printStr a s ++ r) = some ((.str s : PyVal F), r) := by
  have htext : printStr a s ++ r = 34 :: (escape a s ++ 34 :: r) := by
    simp only [printStr, List.append_assoc]
    rfl
  rw [htext, parseValue, if_pos (by decide), scanString_escape h]
  rfl

/-- A literal reads back, at the head of any text. -/
private theorem parseValue_lit (n : ℕ) {lit : PyStr} {v : PyVal F} {c : CodePoint} {l : PyStr}
    (hlit : lit = c :: l) (h34 : c.val ≠ 34) (h123 : c.val ≠ 123) (h91 : c.val ≠ 91) (r : PyStr)
    (h : scanAtom (lit ++ r) = some (v, r)) : parseValue (n + 1) (lit ++ r) = some (v, r) := by
  rw [← h, hlit]
  exact parseValue_atom h34 h123 h91 n _

mutual

/-- **A value reads back from its text, whatever follows it.**  The recursion is
on the value; the fuel is bounded by the length of the text. -/
theorem parseValue_print {st : Style} : ∀ {v : PyVal F} {t : PyStr}, print st v = some t →
    (st.ensureAscii = true → eachStr Joined v) → ∀ {n : ℕ}, 2 * t.length ≤ n → ∀ {r : PyStr}, NoNumber r →
    parseValue n (t ++ r) = some (form v, r)
  | v, t, h, hj, 0, hn, r, hr => by
    have := print_ne_nil h
    omega
  | .none, t, h, hj, n + 1, hn, r, hr => by
    rw [print, Option.some.injEq] at h
    subst h
    exact parseValue_lit n rfl (by decide) (by decide) (by decide) r rfl
  | .bool b, t, h, hj, n + 1, hn, r, hr => by
    rw [print, Option.some.injEq] at h
    subst h
    cases b
    · exact parseValue_lit n rfl (by decide) (by decide) (by decide) r rfl
    · exact parseValue_lit n rfl (by decide) (by decide) (by decide) r rfl
  | .int k, t, h, hj, n + 1, hn, r, hr => by
    rw [print, Option.some.injEq] at h
    exact h ▸ parseValue_int n k hr
  | .float .nan, t, h, hj, n + 1, hn, r, hr => by
    simp only [print, printFloat, Option.ite_none_right_eq_some, Option.some.injEq] at h
    rw [← h.2]
    exact parseValue_lit n rfl (by decide) (by decide) (by decide) r rfl
  | .float (.inf neg), t, h, hj, n + 1, hn, r, hr => by
    simp only [print, printFloat, Option.ite_none_right_eq_some, Option.some.injEq] at h
    rw [← h.2]
    cases neg
    · exact parseValue_lit n rfl (by decide) (by decide) (by decide) r rfl
    · exact parseValue_lit n rfl (by decide) (by decide) (by decide) r rfl
  | .float (.finite x), t, h, hj, n + 1, hn, r, hr => by
    simp only [print, printFloat, Option.some.injEq] at h
    rw [← h, parseValue_floatLit n _ hr, PyFloat.ofLit_repr]
    rfl
  | .str s, t, h, hj, n + 1, hn, r, hr => by
    rw [print, Option.some.injEq] at h
    exact h ▸ parseValue_str hj n r
  | .list vs, t, h, hj, n + 1, hn, r, hr | .tuple vs, t, h, hj, n + 1, hn, r, hr => by
    obtain ⟨u, hu, rfl⟩ := Option.map_eq_some_iff.mp h
    cases vs with
    | nil =>
      rw [printList, Option.some.injEq] at hu
      subst hu
      exact parseValue_list_nil n r
    | cons v vs =>
      simp only [printList, Option.bind_eq_some_iff, Option.map_eq_some_iff] at hu
      obtain ⟨t, ht, t', ht', rfl⟩ := hu
      obtain ⟨c, s, hcs, hc⟩ := print_head ht
      have ih := parseElements_print ht ht' hj (n := n) (r := r) (by
        simp only [List.length_append] at hn
        have : (py "[").length = 1 := rfl
        omega)
      rw [show py "[" = [91] from rfl, show py "]" = [93] from rfl, hcs]
      simp only [List.append_assoc, List.cons_append, List.nil_append]
      rw [parseValue_list hc]
      rw [hcs, List.cons_append] at ih
      rw [ih]
      rfl
  | .dict kvs, t, h, hj, n + 1, hn, r, hr => by
    obtain ⟨u, hu, rfl⟩ := Option.map_eq_some_iff.mp h
    cases kvs with
    | nil =>
      rw [printItems, Option.some.injEq] at hu
      subst hu
      exact parseValue_dict_nil n r
    | cons kv kvs =>
      obtain ⟨k, v⟩ := kv
      simp only [printItems, Option.bind_eq_some_iff, Option.map_eq_some_iff] at hu
      obtain ⟨tk, htk, t, ht, t', ht', rfl⟩ := hu
      have ih := parseMembers_print htk ht ht' hj (n := n) (r := r) (by
        simp only [List.length_append] at hn
        have : (py "\x7b").length = 1 := rfl
        omega)
      rw [printKey_eq htk] at ih ⊢
      rw [show py "\x7b" = [123] from rfl, show py "\x7d" = [125] from rfl]
      simp only [List.append_assoc, List.cons_append, List.nil_append] at ih ⊢
      rw [parseValue_dict, ih]
      rfl

/-- The elements of a nonempty list read back. -/
theorem parseElements_print {st : Style} : ∀ {vs : List (PyVal F)} {v : PyVal F} {t t' : PyStr},
    print st v = some t → printListTail st vs = some t' →
    (st.ensureAscii = true → eachStrList Joined (v :: vs)) → ∀ {n : ℕ} {r : PyStr},
    2 * (t.length + t'.length) + 1 ≤ n →
    parseElements n (t ++ (t' ++ 93 :: r)) = some (formList (v :: vs), r)
  | _, _, _, _, _, _, _, 0, _, hn => by omega
  | [], v, t, t', h, h', hj, n + 1, r, hn => by
    rw [printListTail, Option.some.injEq] at h'
    subst h'
    have hv := parseValue_print h (fun ha => (hj ha).1) (n := n) (by omega) (r := 93 :: r)
      ⟨rfl, by decide, by decide, by decide⟩
    exact parseElements_close hv
  | w :: vs, v, t, t', h, h', hj, n + 1, r, hn => by
    simp only [printListTail, Option.bind_eq_some_iff, Option.map_eq_some_iff] at h'
    obtain ⟨u, hu, u', hu', rfl⟩ := h'
    obtain ⟨c, s, hcs, hc⟩ := print_head hu
    simp only [List.length_append] at hn
    have hv := parseValue_print h (fun ha => (hj ha).1) (n := n) (by omega)
      (noNumber_itemSep st (u ++ (u' ++ 93 :: r)))
    have hsep : 0 < st.itemSep.length := by
      unfold Style.itemSep
      split <;> decide
    have ih := parseElements_print hu hu' (fun ha => (hj ha).2) (n := n) (r := r) (by omega)
    rw [hcs, List.cons_append] at hv ih
    simp only [List.append_assoc, hcs, List.cons_append] at hv ⊢
    rw [parseElements_comma st hc.1 hv, ih]
    rfl

/-- The members of a nonempty dict read back. -/
theorem parseMembers_print {st : Style} : ∀ {kvs : List (Key F × PyVal F)} {k : Key F}
    {v : PyVal F} {tk t t' : PyStr}, printKey st k = some tk →
    print st v = some t → printItemsTail st kvs = some t' →
    (st.ensureAscii = true → eachStrItems Joined ((k, v) :: kvs)) → ∀ {n : ℕ} {r : PyStr},
    2 * (tk.length + (st.keySep.length + (t.length + t'.length))) + 1 ≤ n →
    parseMembers n (tk ++ (st.keySep ++ (t ++ (t' ++ 125 :: r))))
      = some (formItems ((k, v) :: kvs), r)
  | _, _, _, _, _, _, _, _, _, _, 0, _, hn => by omega
  | [], k, v, tk, t, t', hk, h, h', hj, n + 1, r, hn => by
    rw [printItemsTail, Option.some.injEq] at h'
    subst h'
    obtain ⟨c, s, hcs, hc⟩ := print_head h
    have hv := parseValue_print h (fun ha => (hj ha).2.1) (n := n) (by omega) (r := 125 :: r)
      ⟨rfl, by decide, by decide, by decide⟩
    rw [hcs] at hv
    rw [printKey_eq hk, hcs]
    simp only [List.cons_append, List.append_assoc, List.nil_append] at hv ⊢
    exact parseMembers_close (fun ha => (hj ha).1) hc.1 hv
  | (l, w) :: kvs, k, v, tk, t, t', hk, h, h', hj, n + 1, r, hn => by
    simp only [printItemsTail, Option.bind_eq_some_iff, Option.map_eq_some_iff] at h'
    obtain ⟨tl, htl, u, hu, u', hu', rfl⟩ := h'
    obtain ⟨c, s, hcs, hc⟩ := print_head h
    simp only [List.length_append] at hn
    have hv := parseValue_print h (fun ha => (hj ha).2.1) (n := n) (by omega)
      (noNumber_itemSep st (tl ++ (st.keySep ++ (u ++ (u' ++ 125 :: r)))))
    have hsep : 0 < st.itemSep.length := by
      unfold Style.itemSep
      split <;> decide
    have ih := parseMembers_print htl hu hu' (fun ha => (hj ha).2.2) (n := n) (r := r) (by omega)
    rw [printKey_eq htl] at hv ih ⊢
    rw [hcs] at hv
    rw [printKey_eq hk, hcs]
    simp only [List.append_assoc, List.cons_append, List.nil_append] at hv ih ⊢
    rw [parseMembers_comma (d := 34) (fun ha => (hj ha).1) hc.1 (by decide) hv, ih]
    rfl

end

/-! ### Texts -/

theorem skipWs_of_print {st : Style} {v : PyVal F} {t : PyStr} (h : print st v = some t) :
    skipWs t = t := by
  obtain ⟨c, s, rfl, hc⟩ := print_head h
  exact skipWs_cons hc.1 s

/-- **`json.loads` inverts `json.dumps`, up to `form`.** -/
theorem loads_print {st : Style} {v : PyVal F} {t : PyStr} (h : print st v = some t)
    (hj : st.ensureAscii = true → eachStr Joined v) : loads t = some (form v) := by
  have hv := parseValue_print h hj (n := 2 * t.length + 2) (by omega) (r := []) trivial
  rw [List.append_nil] at hv
  rw [loads, skipWs_of_print h, hv]
  rfl

/-- **Two values with one text are read back as one value.** -/
theorem form_eq_of_print_eq {st : Style} {v w : PyVal F} {t : PyStr} (hv : print st v = some t)
    (hw : print st w = some t) (hjv : st.ensureAscii = true → eachStr Joined v)
    (hjw : st.ensureAscii = true → eachStr Joined w) : form v = form w := by
  have := (loads_print hv hjv).symm.trans (loads_print hw hjw)
  exact Option.some.inj this

end

end Json
