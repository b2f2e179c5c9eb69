import Mathlib.Data.List.Sort
import Mathlib.Data.List.Lex
import Mathlib.Data.Nat.Digits.Lemmas
import Mathlib.Data.Fintype.Basic
import Mathlib.Order.Fin.Basic

/-!
# Python strings

A Python `str` is a sequence of code points, surrogates included: a JSON escape
`"\ud800"` names one, and only encoding the string can fail on it.  Lean's
`Char` leaves the surrogates out, so a string is modelled here as a list of
code points.

## Main definitions

* `CodePoint`, `PyStr` — code points and strings; `py` reads a Lean literal.
* `strip`, `splitNl`, `universalNewlines` — the text operations of `str` and of
  files opened in text mode.
* `natStr`, `intStr` — the decimal text of an integer.

## Main results

* `natOfDigits_decDigits` — the decimal text of a number reads back as the number.
-/

namespace Py

/-- A Unicode code point.  Surrogates are code points. -/
abbrev CodePoint := Fin 0x110000

/-- A Python string. -/
abbrev PyStr := List CodePoint

/-- A byte. -/
abbrev Byte := Fin 256

-- what literals and membership in a list of strings ask for, found here by name
instance neZeroCodePoint : NeZero 0x110000 := ⟨by decide⟩

instance neZeroByte : NeZero 256 := ⟨by decide⟩

instance neZeroHexDigit : NeZero 16 := ⟨by decide⟩

instance neZeroDigit : NeZero 10 := ⟨by decide⟩

instance lawfulBEqCodePoint : LawfulBEq CodePoint := inferInstance

instance lawfulBEqPyStr : LawfulBEq PyStr := inferInstance

theorem highNibble_lt (b : Byte) : b.val / 16 < 16 := by omega

theorem lowNibble_lt (b : Byte) : b.val % 16 < 16 := by omega

theorem CodePoint.lower_lt (c : CodePoint) (h : 65 ≤ c.val ∧ c.val ≤ 90) :
    c.val + 32 < 0x110000 := by omega

/-- The Python string of an ASCII literal. -/
def py (s : String) : PyStr :=
  s.toByteArray.data.toList.map fun b => ⟨b.toNat, by have := b.toNat_lt; omega⟩

/-! ### Surrogates -/

/-- A high surrogate, `U+D800` to `U+DBFF`. -/
def CodePoint.isHigh (c : CodePoint) : Bool := 0xD800 ≤ c.val && c.val ≤ 0xDBFF

/-- A low surrogate, `U+DC00` to `U+DFFF`. -/
def CodePoint.isLow (c : CodePoint) : Bool := 0xDC00 ≤ c.val && c.val ≤ 0xDFFF

/-- A surrogate: the code points UTF-8 cannot encode. -/
def CodePoint.isSurrogate (c : CodePoint) : Bool := 0xD800 ≤ c.val && c.val ≤ 0xDFFF

theorem CodePoint.isHigh_iff {c : CodePoint} :
    c.isHigh = true ↔ 0xD800 ≤ c.val ∧ c.val ≤ 0xDBFF := by simp [CodePoint.isHigh]

theorem CodePoint.isLow_iff {c : CodePoint} :
    c.isLow = true ↔ 0xDC00 ≤ c.val ∧ c.val ≤ 0xDFFF := by simp [CodePoint.isLow]

/-- The string holds no surrogate, so that `str.encode("utf-8")` succeeds. -/
def Encodable (s : PyStr) : Prop := ∀ c ∈ s, c.isSurrogate = false

-- not the instance that would try every code point of the type
instance (s : PyStr) : Decidable (Encodable s) := List.decidableBAll _ s

@[simp] theorem encodable_nil : Encodable [] := by simp [Encodable]

@[simp] theorem encodable_cons {c : CodePoint} {s : PyStr} :
    Encodable (c :: s) ↔ c.isSurrogate = false ∧ Encodable s := by simp [Encodable]

@[simp] theorem encodable_append {s t : PyStr} :
    Encodable (s ++ t) ↔ Encodable s ∧ Encodable t := by
  simp [Encodable, or_imp, forall_and]

/-- Every code point of the string lies between `lo` and `hi`. -/
def Within (lo hi : ℕ) (s : PyStr) : Prop := ∀ c ∈ s, lo ≤ c.val ∧ c.val ≤ hi

instance (lo hi : ℕ) (s : PyStr) : Decidable (Within lo hi s) := List.decidableBAll _ s

@[simp] theorem within_nil {lo hi : ℕ} : Within lo hi [] := by simp [Within]

@[simp] theorem within_cons {lo hi : ℕ} {c : CodePoint} {s : PyStr} :
    Within lo hi (c :: s) ↔ (lo ≤ c.val ∧ c.val ≤ hi) ∧ Within lo hi s := by simp [Within]

@[simp] theorem within_append {lo hi : ℕ} {s t : PyStr} :
    Within lo hi (s ++ t) ↔ Within lo hi s ∧ Within lo hi t := by
  simp only [Within, List.mem_append, or_imp]
  exact forall_and

theorem Within.mono {lo hi lo' hi' : ℕ} {s : PyStr} (h : Within lo hi s) (hlo : lo' ≤ lo)
    (hhi : hi ≤ hi') : Within lo' hi' s := by
  intro c hc
  have := h c hc
  omega

/-- A string of code points below the surrogates is encodable. -/
theorem Within.encodable {lo hi : ℕ} {s : PyStr} (h : Within lo hi s) (hhi : hi < 0xD800) :
    Encodable s := by
  intro c hc
  have := h c hc
  simp [CodePoint.isSurrogate]
  omega

/-! ### White space and lines -/

/-- `str.isspace` on one code point: what `str.strip` removes. -/
def CodePoint.isSpace (c : CodePoint) : Bool :=
  (9 ≤ c.val && c.val ≤ 13) || (28 ≤ c.val && c.val ≤ 32) || c.val == 0x85 || c.val == 0xA0 ||
    c.val == 0x1680 || (0x2000 ≤ c.val && c.val ≤ 0x200A) || c.val == 0x2028 ||
    c.val == 0x2029 || c.val == 0x202F || c.val == 0x205F || c.val == 0x3000

/-- `str.strip()`. -/
def strip (s : PyStr) : PyStr :=
  ((s.dropWhile CodePoint.isSpace).reverse.dropWhile CodePoint.isSpace).reverse

/-- A string that neither starts nor ends with white space is its own `strip`. -/
theorem strip_eq_self {a b : CodePoint} {s : PyStr} (ha : a.isSpace = false)
    (hb : b.isSpace = false) : strip (a :: s ++ [b]) = a :: s ++ [b] := by
  simp [strip, ha, hb]

theorem strip_nil : strip [] = [] := rfl

/-- What does not start with white space loses some at its end alone. -/
theorem strip_cons_isPrefix {a : CodePoint} (ha : a.isSpace = false) (s : PyStr) :
    strip (a :: s) <+: a :: s := by
  rw [strip, List.dropWhile_cons_of_neg (by simp [ha]), ← List.reverse_suffix, List.reverse_reverse]
  exact List.dropWhile_suffix _

/-- What does not start with white space is not blank. -/
theorem strip_cons_ne_nil {a : CodePoint} (ha : a.isSpace = false) (s : PyStr) :
    strip (a :: s) ≠ [] := by
  rw [strip, List.dropWhile_cons_of_neg (by simp [ha]), List.reverse_cons, List.dropWhile_append]
  split
  · simp [ha]
  · simp

/-- What stands before a code point that is no white space stays. -/
theorem strip_append_cons {a b : CodePoint} (ha : a.isSpace = false) (hb : b.isSpace = false)
    (s t : PyStr) : ∃ t', strip (a :: s ++ b :: t) = a :: s ++ b :: t' := by
  refine ⟨(t.reverse.dropWhile CodePoint.isSpace).reverse, ?_⟩
  have hsplit : (a :: s ++ b :: t).reverse = t.reverse ++ b :: (a :: s).reverse := by simp
  rw [strip, List.cons_append, List.dropWhile_cons_of_neg (by simp [ha]), ← List.cons_append, hsplit,
    List.dropWhile_append]
  split
  · next h => simp [hb, List.isEmpty_iff.mp h]
  · simp

/-- White space at either end does not count. -/
theorem strip_cons_space {c : CodePoint} {s : PyStr} (h : c.isSpace = true) :
    strip (c :: s) = strip s := by simp [strip, h]

theorem strip_concat_space {c : CodePoint} {s : PyStr} (h : c.isSpace = true) :
    strip (s ++ [c]) = strip s := by
  unfold strip
  rw [List.dropWhile_append]
  split
  · next hs =>
    rw [List.isEmpty_iff] at hs
    simp [hs, h]
  · simp [h]

theorem strip_isInfix (s : PyStr) : strip s <:+: s := by
  have hfront : s.dropWhile CodePoint.isSpace <:+ s := List.dropWhile_suffix _
  have hback := List.dropWhile_suffix (l := (s.dropWhile CodePoint.isSpace).reverse)
    CodePoint.isSpace
  rw [← List.reverse_prefix, List.reverse_reverse] at hback
  exact hback.isInfix.trans hfront.isInfix

theorem mem_of_mem_strip {c : CodePoint} {s : PyStr} (h : c ∈ strip s) : c ∈ s :=
  (strip_isInfix s).subset h

/-- The newline code point. -/
def nl : CodePoint := 10

/-- The carriage return. -/
def cr : CodePoint := 13

/-- Universal newlines: a file read in text mode shows `\r` and `\r\n` as `\n`.
The flag says that the code point before was a `\r`. -/
def universalNewlines : Bool → PyStr → PyStr
  | _, [] => []
  | afterCr, c :: s =>
    if c = cr then nl :: universalNewlines true s
    else if c = nl && afterCr then universalNewlines false s
    else c :: universalNewlines false s

/-- `text.split("\n")`.  Iterating over a file gives the same pieces, less an
empty last one; every reader here skips blank lines, so the two agree. -/
def splitNl (s : PyStr) : List PyStr := s.splitOn nl

/-- Universal newlines leave what stands before the first carriage return alone. -/
theorem universalNewlines_append : ∀ {s : PyStr}, cr ∉ s → ∀ u : PyStr,
    universalNewlines false (s ++ u) = s ++ universalNewlines false u
  | [], _, _ => rfl
  | c :: s, h, u => by
    have hc : c ≠ cr := fun hc => h (by simp [hc])
    have hs : cr ∉ s := fun hs => h (by simp [hs])
    rw [List.cons_append, universalNewlines, if_neg hc, Bool.and_false,
      if_neg Bool.false_ne_true, universalNewlines_append hs u, List.cons_append]

/-- They leave a text without carriage returns alone. -/
theorem universalNewlines_eq_self {s : PyStr} (h : cr ∉ s) : universalNewlines false s = s := by
  have happend := universalNewlines_append h []
  rwa [List.append_nil, universalNewlines, List.append_nil] at happend

@[simp] theorem splitNl_nil : splitNl [] = [[]] := rfl

/-- The lines of a text hold its code points alone. -/
theorem mem_of_mem_splitNl {c : CodePoint} : ∀ {s l : PyStr}, l ∈ splitNl s → c ∈ l → c ∈ s
  | [], l, hl, hc => by
    rw [splitNl_nil, List.mem_singleton] at hl
    simp [hl] at hc
  | a :: s, l, hl, hc => by
    rw [splitNl, List.splitOn, List.splitOnP_cons_eq_if_modifyHead] at hl
    have ih : ∀ {l}, l ∈ splitNl s → c ∈ l → c ∈ s := mem_of_mem_splitNl
    split_ifs at hl
    · rcases List.mem_cons.mp hl with rfl | hl
      · simp at hc
      · exact List.mem_cons_of_mem _ (ih hl hc)
    · obtain ⟨l', ls, hls⟩ := List.exists_cons_of_ne_nil (List.splitOnP_ne_nil (· == nl) s)
      have hsplit : splitNl s = l' :: ls := hls
      rw [hsplit] at ih
      rw [hls, List.modifyHead_cons] at hl
      rcases List.mem_cons.mp hl with rfl | hl
      · rcases List.mem_cons.mp hc with rfl | hc
        · exact List.mem_cons_self
        · exact List.mem_cons_of_mem _ (ih List.mem_cons_self hc)
      · exact List.mem_cons_of_mem _ (ih (List.mem_cons_of_mem _ hl) hc)

theorem mem_universalNewlines {c : CodePoint} : ∀ {s : PyStr} {b : Bool},
    c ∈ universalNewlines b s → c = nl ∨ c ∈ s
  | [], b, h => by simp [universalNewlines] at h
  | a :: s, b, h => by
    rw [universalNewlines] at h
    split_ifs at h with hcr hnl
    · rcases List.mem_cons.mp h with h | h
      · exact .inl h
      · exact (mem_universalNewlines h).imp_right (List.mem_cons_of_mem _)
    · exact (mem_universalNewlines h).imp_right (List.mem_cons_of_mem _)
    · rcases List.mem_cons.mp h with rfl | h
      · exact .inr List.mem_cons_self
      · exact (mem_universalNewlines h).imp_right (List.mem_cons_of_mem _)

/-- A line and its newline are split off the front. -/
theorem splitNl_line_append {l : PyStr} (s : PyStr) (h : nl ∉ l) :
    splitNl (l ++ nl :: s) = l :: splitNl s := by
  unfold splitNl List.splitOn
  rw [List.splitOnP_append_cons (p := fun c => c == nl) _ _ (by simp), List.splitOnP_eq_singleton]
  · rfl
  · intro c hc
    simp only [beq_eq_false_iff_ne]
    exact fun hcn => h (hcn ▸ hc)

/-- A text without a newline is one piece. -/
theorem splitNl_eq_singleton {l : PyStr} (h : nl ∉ l) : splitNl l = [l] := by
  unfold splitNl List.splitOn
  rw [List.splitOnP_eq_singleton]
  intro c hc
  simp only [beq_eq_false_iff_ne]
  exact fun hcn => h (hcn ▸ hc)

/-- At a newline a text is split in two. -/
theorem splitNl_append (s t : PyStr) : splitNl (s ++ nl :: t) = splitNl s ++ splitNl t := by
  unfold splitNl List.splitOn
  exact List.splitOnP_append_cons (p := fun c => c == nl) s t (by simp)

theorem splitNl_ne_nil (s : PyStr) : splitNl s ≠ [] := List.splitOnP_ne_nil _ _

/-- What is no newline goes to the first line. -/
theorem splitNl_cons {c : CodePoint} (h : c ≠ nl) (s : PyStr) :
    ∃ l ls, splitNl s = l :: ls ∧ splitNl (c :: s) = (c :: l) :: ls := by
  obtain ⟨l, ls, hls⟩ := List.exists_cons_of_ne_nil (splitNl_ne_nil s)
  refine ⟨l, ls, hls, ?_⟩
  unfold splitNl List.splitOn at hls ⊢
  rw [List.splitOnP_cons_eq_if_modifyHead, if_neg (by simpa using h), hls]
  rfl

/-- A text without a newline goes to the first line of what follows it. -/
theorem splitNl_prefixed {l : PyStr} (h : nl ∉ l) (s : PyStr) :
    ∃ t ls, splitNl s = t :: ls ∧ splitNl (l ++ s) = (l ++ t) :: ls := by
  induction l with
  | nil =>
    obtain ⟨t, ls, hls⟩ := List.exists_cons_of_ne_nil (splitNl_ne_nil s)
    exact ⟨t, ls, hls, hls⟩
  | cons c l ih =>
    rw [List.mem_cons, not_or] at h
    obtain ⟨hc, hl⟩ := h
    obtain ⟨t, ls, hs, hls⟩ := ih hl
    obtain ⟨t', ls', ht', hcons⟩ := splitNl_cons (Ne.symm hc) (l ++ s)
    obtain ⟨rfl, rfl⟩ := List.cons.inj (hls.symm.trans ht')
    exact ⟨t, ls, hs, hcons⟩

/-- At the end it goes to the last line. -/
theorem splitNl_concat {c : CodePoint} (h : c ≠ nl) (s : PyStr) :
    ∃ ls l, splitNl s = ls ++ [l] ∧ splitNl (s ++ [c]) = ls ++ [l ++ [c]] := by
  induction s with
  | nil => exact ⟨[], [], rfl, splitNl_eq_singleton (by simpa using h.symm)⟩
  | cons a s ih =>
    obtain ⟨ls, l, hs, hsc⟩ := ih
    by_cases ha : a = nl
    · subst ha
      refine ⟨[] :: ls, l, ?_, ?_⟩
      · rw [← List.nil_append (nl :: s), splitNl_append, hs]
        rfl
      · rw [← List.nil_append (nl :: s ++ [c]), List.cons_append, splitNl_append, hsc]
        rfl
    · obtain ⟨k, ks, hk, hak⟩ := splitNl_cons ha s
      obtain ⟨k', ks', hk', hak'⟩ := splitNl_cons ha (s ++ [c])
      rw [List.cons_append, hak, hak']
      rw [hs] at hk
      rw [hsc] at hk'
      cases ls with
      | nil =>
        simp only [List.nil_append, List.cons.injEq] at hk hk'
        obtain ⟨rfl, rfl⟩ := hk
        obtain ⟨rfl, rfl⟩ := hk'
        exact ⟨[], a :: l, rfl, rfl⟩
      | cons m ls =>
        simp only [List.cons_append, List.cons.injEq] at hk hk'
        obtain ⟨rfl, rfl⟩ := hk
        obtain ⟨rfl, rfl⟩ := hk'
        exact ⟨(a :: m) :: ls, l, rfl, rfl⟩

/-- `str.replace(old, new)` for a nonempty `old`: the occurrences from the left,
none overlapping the one before.  `skip` counts the code points of the
occurrence just replaced that are still to be passed over. -/
def replaceAux (old new : PyStr) : ℕ → PyStr → PyStr
  | _, [] => []
  | 0, c :: s =>
    if old.isPrefixOf (c :: s) then new ++ replaceAux old new (old.length - 1) s
    else c :: replaceAux old new 0 s
  | k + 1, _ :: s => replaceAux old new k s

/-- `str.replace(old, new)`. -/
def replace (old new s : PyStr) : PyStr := replaceAux old new 0 s

/-- Where a code point of the old string is missing, nothing is replaced. -/
theorem replace_of_notMem {c : CodePoint} {old s : PyStr} (new : PyStr) (hc : c ∈ old) (h : c ∉ s) :
    replace old new s = s := by
  unfold replace
  induction s with
  | nil => rfl
  | cons d s ih =>
    have hprefix : ¬old.isPrefixOf (d :: s) = true := fun hp =>
      h ((List.isPrefixOf_iff_prefix.mp hp).subset hc)
    rw [replaceAux, if_neg hprefix, ih fun hmem => h (List.mem_cons_of_mem d hmem)]

/-- A last code point that occurs nowhere before is replaced there. -/
theorem replace_concat {c : CodePoint} {s : PyStr} (new : PyStr) (h : c ∉ s) :
    replace [c] new (s ++ [c]) = s ++ new := by
  unfold replace
  induction s with
  | nil => simp [replaceAux, List.isPrefixOf]
  | cons d s ih =>
    rw [List.mem_cons, not_or] at h
    rw [List.cons_append, replaceAux, if_neg (by simp [List.isPrefixOf, h.1]), ih h.2,
      List.cons_append]

/-- A last code point that is no part of what is taken out stays the last. -/
theorem replace_concat_notMem {old : PyStr} {c : CodePoint} (hold : old ≠ []) (hc : c ∉ old)
    (s : PyStr) : ∃ t, replace old [] (s ++ [c]) = t ++ [c] := by
  have hshort : ∀ s : PyStr, old <+: s ++ [c] → old.length ≤ s.length := by
    intro s hpre
    by_contra hlen
    have hall := hpre.eq_of_length (le_antisymm hpre.length_le (by simp; omega))
    exact hc (hall ▸ List.mem_append_right s List.mem_cons_self)
  have haux : ∀ (s : PyStr) (n : ℕ), n ≤ s.length →
      ∃ t, replaceAux old [] n (s ++ [c]) = t ++ [c] := by
    intro s
    induction s with
    | nil =>
      intro n hn
      obtain rfl := Nat.le_zero.mp hn
      have hnot : ¬old.isPrefixOf [c] = true := by
        intro hpre
        have hlen := hshort [] (List.isPrefixOf_iff_prefix.mp hpre)
        exact hold (List.length_eq_zero_iff.mp (Nat.le_zero.mp hlen))
      refine ⟨[], ?_⟩
      rw [List.nil_append, replaceAux, if_neg hnot]
      rfl
    | cons d s ih =>
      intro n hn
      cases n with
      | succ n => exact ih n (Nat.le_of_succ_le_succ hn)
      | zero =>
        rw [List.cons_append, replaceAux]
        split
        · next hpre =>
          -- the old text ends before the last code point
          have hlen := hshort (d :: s) (List.isPrefixOf_iff_prefix.mp hpre)
          rw [List.length_cons] at hlen
          exact ih (old.length - 1) (by omega)
        · obtain ⟨t, ht⟩ := ih 0 (Nat.zero_le _)
          exact ⟨d :: t, by rw [ht]; rfl⟩
  exact haux s 0 (Nat.zero_le _)

/-! ### Integers -/

/-- A decimal digit as a code point. -/
def digitChar (d : Fin 10) : CodePoint := ⟨48 + d.val, by omega⟩

/-- The value of an ASCII digit. -/
def digitVal (c : CodePoint) : Option (Fin 10) :=
  if h : 48 ≤ c.val ∧ c.val ≤ 57 then some ⟨c.val - 48, by omega⟩ else none

@[simp] theorem digitVal_digitChar (d : Fin 10) : digitVal (digitChar d) = some d := by
  have h : 48 ≤ (digitChar d).val ∧ (digitChar d).val ≤ 57 := by
    have := d.isLt
    simp only [digitChar]
    omega
  rw [digitVal, dif_pos h]
  simp [digitChar]

theorem digitVal_eq_some {c : CodePoint} {d : Fin 10} (h : digitVal c = some d) :
    c = digitChar d := by
  unfold digitVal at h
  split at h
  · simp only [Option.some.injEq] at h
    subst h
    simp only [digitChar, Fin.ext_iff]
    omega
  · exact absurd h (by simp)

/-- The decimal digits of a number, most significant first. -/
def decDigits (n : ℕ) : List (Fin 10) :=
  if n = 0 then [0] else ((Nat.digits 10 n).map (Fin.ofNat 10)).reverse

/-- The value of a run of digits, most significant first. -/
def natOfDigits (ds : List (Fin 10)) : ℕ := Nat.ofDigits 10 (ds.reverse.map Fin.val)

/-- `str(n)` for a natural number. -/
def natStr (n : ℕ) : PyStr := (decDigits n).map digitChar

/-- `str(n)` for an integer. -/
def intStr : ℤ → PyStr
  | .ofNat n => natStr n
  | .negSucc n => py "-" ++ natStr (n + 1)

theorem decDigits_ne_nil (n : ℕ) : decDigits n ≠ [] := by
  unfold decDigits
  split
  · simp
  · next h => simpa using Nat.digits_ne_nil_iff_ne_zero.mpr h

/-- **The decimal text of a number reads back as the number.** -/
theorem natOfDigits_decDigits (n : ℕ) : natOfDigits (decDigits n) = n := by
  unfold natOfDigits decDigits
  split
  · next h => subst h; rfl
  · rw [List.reverse_reverse, List.map_map]
    have hmap : (Nat.digits 10 n).map (Fin.val ∘ Fin.ofNat 10) = Nat.digits 10 n := by
      conv_rhs => rw [← List.map_id (Nat.digits 10 n)]
      refine List.map_congr_left fun d hd => ?_
      have := Nat.digits_lt_base (by norm_num : 1 < 10) hd
      simp [Fin.ofNat, Nat.mod_eq_of_lt this]
    rw [hmap, Nat.ofDigits_digits]

/-- The first digit of a positive number is not zero. -/
theorem decDigits_head_ne_zero {n : ℕ} (hn : n ≠ 0) {d : Fin 10} {ds : List (Fin 10)}
    (h : decDigits n = d :: ds) : d ≠ 0 := by
  unfold decDigits at h
  rw [if_neg hn] at h
  have hlast : ((Nat.digits 10 n).map (Fin.ofNat 10)).getLast? = some d := by
    rw [← List.head?_reverse, h, List.head?_cons]
  have hne : Nat.digits 10 n ≠ [] := Nat.digits_ne_nil_iff_ne_zero.mpr hn
  rw [List.getLast?_map, List.getLast?_eq_getLast_of_ne_nil hne, Option.map_some,
    Option.some.injEq] at hlast
  have hpos := Nat.getLast_digit_ne_zero 10 hn
  have hlt : (Nat.digits 10 n).getLast hne < 10 :=
    Nat.digits_lt_base (by norm_num) (List.getLast_mem hne)
  intro hd
  rw [hd] at hlast
  have hval := congrArg Fin.val hlast
  simp [Fin.ofNat, Nat.mod_eq_of_lt hlt] at hval
  exact hpos hval

/-- Digits that do not start with a zero are the decimal digits of their value. -/
theorem decDigits_natOfDigits {d : Fin 10} {ds : List (Fin 10)} (hd : d ≠ 0) :
    decDigits (natOfDigits (d :: ds)) = d :: ds := by
  have hdigits : Nat.digits 10 (natOfDigits (d :: ds)) = (d :: ds).reverse.map Fin.val := by
    refine Nat.digits_ofDigits 10 (by norm_num) _ ?_ ?_
    · intro l hl
      obtain ⟨e, -, rfl⟩ := List.mem_map.mp hl
      exact e.isLt
    · intro hne hlast
      have hlast' : (((d :: ds).reverse.map Fin.val).getLast hne) = d.val := by
        simp only [List.map_reverse, List.getLast_reverse, List.map_cons, List.head_cons]
      exact hd (Fin.ext (hlast'.symm.trans hlast))
  have hne : natOfDigits (d :: ds) ≠ 0 := by
    intro h0
    rw [h0, Nat.digits_zero] at hdigits
    exact absurd hdigits.symm (by simp)
  rw [decDigits, if_neg hne, hdigits, List.map_map]
  have hid : (Fin.ofNat 10 ∘ Fin.val : Fin 10 → Fin 10) = id := by
    funext e
    exact Fin.ext (Nat.mod_eq_of_lt e.isLt)
  rw [hid, List.map_id, List.reverse_reverse]

/-- The leading digits of a string, and what follows them. -/
def takeDigits : PyStr → List (Fin 10) × PyStr
  | [] => ([], [])
  | c :: s =>
    match digitVal c with
    | some d => (d :: (takeDigits s).1, (takeDigits s).2)
    | none => ([], c :: s)

/-- No digit follows. -/
def NoDigit : PyStr → Prop
  | [] => True
  | c :: _ => digitVal c = none

theorem takeDigits_append (ds : List (Fin 10)) {r : PyStr} (hr : NoDigit r) :
    takeDigits (ds.map digitChar ++ r) = (ds, r) := by
  induction ds with
  | nil =>
    cases r with
    | nil => rfl
    | cons c r => simp only [List.map_nil, List.nil_append, takeDigits]; rw [show digitVal c = none from hr]
  | cons d ds ih =>
    simp only [List.map_cons, List.cons_append, takeDigits, digitVal_digitChar, ih]

theorem takeDigits_spec (s : PyStr) :
    s = (takeDigits s).1.map digitChar ++ (takeDigits s).2 ∧ NoDigit (takeDigits s).2 := by
  induction s with
  | nil => exact ⟨rfl, trivial⟩
  | cons c s ih =>
    simp only [takeDigits]
    split
    · next d hd =>
      refine ⟨?_, ih.2⟩
      rw [List.map_cons, List.cons_append, ← ih.1, digitVal_eq_some hd]
    · next hd => exact ⟨rfl, hd⟩

theorem within_map_digitChar (ds : List (Fin 10)) : Within 48 57 (ds.map digitChar) := by
  intro c hc
  obtain ⟨d, -, rfl⟩ := List.mem_map.mp hc
  have := d.isLt
  simp only [digitChar]
  omega

theorem within_intStr (n : ℤ) : Within 45 57 (intStr n) := by
  cases n with
  | ofNat n => exact (within_map_digitChar _).mono (by norm_num) le_rfl
  | negSucc n =>
    exact within_append.mpr ⟨by decide, (within_map_digitChar _).mono (by norm_num) le_rfl⟩

end Py
