import Daryl.Json.RoundTrip

/-!
# Where an object ends

The text of an object closes with the brace that matches its first one, whatever
follows it: outside strings every opening bracket is counted up, every closing one
down.  So an object that is written into a longer text without a length or a separator
can be told from what follows, surrogates in its strings or not.

## Main definitions

* `Mode`, `afterClose` — the scan for the matching bracket.

## Main results

* `afterClose_print` — inside an object a value is passed over.
* `append_inj_of_print_dict` — **two objects in front of equal texts are written alike.**
-/

namespace Json

open Py

/-- Where a scan is: outside strings, in one, or behind a backslash in one. -/
inductive Mode
  | text
  | string
  | escape

/-- What follows the bracket that closes the first one. -/
def afterClose : ℕ → Mode → PyStr → Option PyStr
  | _, _, [] => none
  | depth, .text, c :: s =>
    if c.val = 34 then afterClose depth .string s
    else if c.val = 91 ∨ c.val = 123 then afterClose (depth + 1) .text s
    else if c.val = 93 ∨ c.val = 125 then
      if depth ≤ 1 then some s else afterClose (depth - 1) .text s
    else afterClose depth .text s
  | depth, .string, c :: s =>
    if c.val = 34 then afterClose depth .text s
    else if c.val = 92 then afterClose depth .escape s
    else afterClose depth .string s
  | depth, .escape, _ :: s => afterClose depth .string s

/-! ### Texts without quotes and brackets -/

/-- No quote and no bracket is in the text. -/
def Plain (s : PyStr) : Prop := ∀ c ∈ s, c.val ∉ [34, 91, 93, 123, 125]

instance (s : PyStr) : Decidable (Plain s) := List.decidableBAll _ s

@[simp] theorem plain_append {s t : PyStr} : Plain (s ++ t) ↔ Plain s ∧ Plain t := by
  simp only [Plain, List.mem_append, or_imp]
  exact forall_and

theorem plain_of_within {s : PyStr} (h : Within 35 90 s) : Plain s := by
  intro c hc
  have := h c hc
  simp only [List.mem_cons, List.not_mem_nil, or_false, not_or]
  omega

theorem afterClose_plain {s : PyStr} (h : Plain s) (depth : ℕ) (r : PyStr) :
    afterClose depth .text (s ++ r) = afterClose depth .text r := by
  induction s with
  | nil => rfl
  | cons c s ih =>
    have hc := h c List.mem_cons_self
    simp only [List.mem_cons, List.not_mem_nil, or_false, not_or] at hc
    rw [List.cons_append, afterClose, if_neg hc.1, if_neg (by omega), if_neg (by omega)]
    exact ih fun d hd => h d (List.mem_cons_of_mem _ hd)

theorem plain_digits (ds : List (Fin 10)) : Plain (ds.map digitChar) :=
  plain_of_within ((within_map_digitChar ds).mono (by norm_num) (by norm_num))

theorem plain_intStr (n : ℤ) : Plain (intStr n) :=
  plain_of_within ((within_intStr n).mono (by norm_num) (by norm_num))

theorem plain_expText (e : Option ExpLit) : Plain (expText e) := by
  cases e with
  | none => simp [expText, Plain]
  | some e =>
    simp only [expText, ExpLit.text, plain_append]
    refine ⟨⟨?_, ?_⟩, plain_digits _⟩
    · cases e.upper <;> decide
    · rcases e.sign with - | (- | -) <;> decide

theorem plain_floatLit (l : FloatLit) : Plain l.text := by
  simp only [FloatLit.text, plain_append]
  refine ⟨⟨by cases l.neg <;> decide, plain_digits _⟩, ?_⟩
  cases l.tail with
  | frac d ds e =>
    simp only [FloatTail.text, plain_append]
    exact ⟨⟨by decide, plain_digits _⟩, plain_expText e⟩
  | exp e => exact plain_expText (some e)

theorem plain_itemSep (st : Style) : Plain st.itemSep := by
  unfold Style.itemSep
  split <;> decide

theorem plain_keySep (st : Style) : Plain st.keySep := by
  unfold Style.keySep
  split <;> decide

/-! ### Strings -/

/-- A character that is neither a quote nor a backslash stays in the string. -/
theorem afterClose_string_cons {c : CodePoint} (hquote : c.val ≠ 34) (hback : c.val ≠ 92)
    (depth : ℕ) (r : PyStr) : afterClose depth .string (c :: r) = afterClose depth .string r := by
  rw [afterClose, if_neg hquote, if_neg hback]

/-- An escape of two characters stays in the string. -/
theorem afterClose_escape (c : CodePoint) (depth : ℕ) (r : PyStr) :
    afterClose depth .string (92 :: c :: r) = afterClose depth .string r := by
  rw [afterClose, if_neg (by decide), if_pos (by decide), afterClose]

theorem afterClose_unicodeEscape (u : Fin 0x10000) (depth : ℕ) (r : PyStr) :
    afterClose depth .string (unicodeEscape u ++ r) = afterClose depth .string r := by
  have hhex : ∀ d : Fin 16, (hexDigit d).val ≠ 34 ∧ (hexDigit d).val ≠ 92 := by decide
  rw [unicodeEscape, show py "\\u" = [92, 117] from rfl]
  simp only [List.cons_append, List.nil_append]
  rw [afterClose_escape, afterClose_string_cons (hhex _).1 (hhex _).2,
    afterClose_string_cons (hhex _).1 (hhex _).2, afterClose_string_cons (hhex _).1 (hhex _).2,
    afterClose_string_cons (hhex _).1 (hhex _).2]

theorem afterClose_shortEscape {c : CodePoint} {s : PyStr} (h : shortEscape c = some s)
    (depth : ℕ) (r : PyStr) : afterClose depth .string (s ++ r) = afterClose depth .string r := by
  obtain ⟨d, rfl⟩ : ∃ d, s = [92, d] := by
    unfold shortEscape at h
    split_ifs at h <;> exact ⟨_, (Option.some.inj h).symm⟩
  exact afterClose_escape d depth r

theorem afterClose_escapeChar (a : Bool) (c : CodePoint) (depth : ℕ) (r : PyStr) :
    afterClose depth .string (escapeChar a c ++ r) = afterClose depth .string r := by
  unfold escapeChar
  split
  · next s hs => exact afterClose_shortEscape hs depth r
  · next hs =>
    -- what has no short escape is neither a quote nor a backslash
    have hself : afterClose depth .string ([c] ++ r) = afterClose depth .string r := by
      refine afterClose_string_cons ?_ ?_ depth r
      · rintro hc
        simp [shortEscape, hc] at hs
      · rintro hc
        simp [shortEscape, hc] at hs
    split_ifs
    · exact hself
    · exact afterClose_unicodeEscape _ depth r
    · rw [List.append_assoc, afterClose_unicodeEscape, afterClose_unicodeEscape]
    · exact afterClose_unicodeEscape _ depth r
    · exact hself

/-- **A string is passed over**, whatever is in it. -/
theorem afterClose_printStr (a : Bool) (s : PyStr) (depth : ℕ) (r : PyStr) :
    afterClose depth .text (printStr a s ++ r) = afterClose depth .text r := by
  have hbody : ∀ s : PyStr, afterClose depth .string (escape a s ++ 34 :: r)
      = afterClose depth .text r := by
    intro s
    induction s with
    | nil => rw [escape, List.flatMap_nil, List.nil_append, afterClose, if_pos (by decide)]
    | cons c s ih =>
      rw [escape, List.flatMap_cons, List.append_assoc, afterClose_escapeChar]
      exact ih
  have htext : printStr a s ++ r = 34 :: (escape a s ++ 34 :: r) := by
    simp only [printStr, List.append_assoc]
    rfl
  rw [htext, afterClose, if_pos (by decide)]
  exact hbody s

/-! ### Values -/

section

variable {F : Type} [PyFloat F] {st : Style}

theorem afterClose_printKey {k : Key F} {t : PyStr} (h : printKey st k = some t) (depth : ℕ)
    (r : PyStr) : afterClose depth .text (t ++ r) = afterClose depth .text r := by
  rw [printKey_eq h]
  exact afterClose_printStr _ _ depth r

/-- An opening bracket, and the closing one of something that is passed over. -/
theorem afterClose_brackets {o c : CodePoint} (ho : o.val = 91 ∨ o.val = 123)
    (hc : c.val = 93 ∨ c.val = 125) {u : PyStr} (depth : ℕ)
    (hu : ∀ r, afterClose (depth + 1) .text (u ++ r) = afterClose (depth + 1) .text r) (r : PyStr) :
    afterClose depth .text (o :: (u ++ c :: r))
      = if depth = 0 then some r else afterClose depth .text r := by
  rw [afterClose, if_neg (by omega), if_pos ho, hu, afterClose, if_neg (by omega),
    if_neg (by omega), if_pos hc]
  cases depth with
  | zero => rfl
  | succ depth => rw [if_neg (by omega), if_neg (by omega), Nat.add_sub_cancel]

mutual

/-- **Inside an object a value is passed over.** -/
theorem afterClose_print : ∀ {v : PyVal F} {t : PyStr}, print st v = some t → ∀ (depth : ℕ) (r : PyStr),
    afterClose (depth + 1) .text (t ++ r) = afterClose (depth + 1) .text r
  | .none, t, h, depth, r => by
    rw [print, Option.some.injEq] at h
    exact h ▸ afterClose_plain (by decide) _ r
  | .bool b, t, h, depth, r => by
    rw [print, Option.some.injEq] at h
    exact h ▸ afterClose_plain (by cases b <;> decide) _ r
  | .int n, t, h, depth, r => by
    rw [print, Option.some.injEq] at h
    exact h ▸ afterClose_plain (plain_intStr n) _ r
  | .float .nan, t, h, depth, r => by
    simp only [print, printFloat, Option.ite_none_right_eq_some, Option.some.injEq] at h
    exact h.2 ▸ afterClose_plain (by decide) _ r
  | .float (.inf neg), t, h, depth, r => by
    simp only [print, printFloat, Option.ite_none_right_eq_some, Option.some.injEq] at h
    exact h.2 ▸ afterClose_plain (by cases neg <;> decide) _ r
  | .float (.finite x), t, h, depth, r => by
    simp only [print, printFloat, Option.some.injEq] at h
    exact h ▸ afterClose_plain (plain_floatLit _) _ r
  | .str s, t, h, depth, r => by
    rw [print, Option.some.injEq] at h
    exact h ▸ afterClose_printStr _ s _ r
  | .list vs, t, h, depth, r | .tuple vs, t, h, depth, r => by
    obtain ⟨u, hu, rfl⟩ := Option.map_eq_some_iff.mp h
    have hlist := afterClose_brackets (o := 91) (c := 93) (.inl rfl) (.inl rfl) (depth + 1)
      (afterClose_printList hu (depth + 1)) r
    rw [if_neg (by omega)] at hlist
    simp only [List.append_assoc]
    exact hlist
  | .dict kvs, t, h, depth, r => by
    obtain ⟨u, hu, rfl⟩ := Option.map_eq_some_iff.mp h
    have hdict := afterClose_brackets (o := 123) (c := 125) (.inr rfl) (.inr rfl) (depth + 1)
      (afterClose_printItems hu (depth + 1)) r
    rw [if_neg (by omega)] at hdict
    simp only [List.append_assoc]
    exact hdict

theorem afterClose_printList : ∀ {vs : List (PyVal F)} {t : PyStr}, printList st vs = some t →
    ∀ (depth : ℕ) (r : PyStr), afterClose (depth + 1) .text (t ++ r) = afterClose (depth + 1) .text r
  | [], t, h, depth, r => by
    rw [printList, Option.some.injEq] at h
    exact h ▸ rfl
  | v :: vs, t, h, depth, r => by
    simp only [printList, Option.bind_eq_some_iff, Option.map_eq_some_iff] at h
    obtain ⟨t, ht, t', ht', rfl⟩ := h
    rw [List.append_assoc, afterClose_print ht, afterClose_printListTail ht']

theorem afterClose_printListTail : ∀ {vs : List (PyVal F)} {t : PyStr},
    printListTail st vs = some t → ∀ (depth : ℕ) (r : PyStr),
    afterClose (depth + 1) .text (t ++ r) = afterClose (depth + 1) .text r
  | [], t, h, depth, r => by
    rw [printListTail, Option.some.injEq] at h
    exact h ▸ rfl
  | v :: vs, t, h, depth, r => by
    simp only [printListTail, Option.bind_eq_some_iff, Option.map_eq_some_iff] at h
    obtain ⟨t, ht, t', ht', rfl⟩ := h
    simp only [List.append_assoc]
    rw [afterClose_plain (plain_itemSep st), afterClose_print ht, afterClose_printListTail ht']

theorem afterClose_printItems : ∀ {kvs : List (Key F × PyVal F)} {t : PyStr},
    printItems st kvs = some t → ∀ (depth : ℕ) (r : PyStr),
    afterClose (depth + 1) .text (t ++ r) = afterClose (depth + 1) .text r
  | [], t, h, depth, r => by
    rw [printItems, Option.some.injEq] at h
    exact h ▸ rfl
  | (k, v) :: kvs, t, h, depth, r => by
    simp only [printItems, Option.bind_eq_some_iff, Option.map_eq_some_iff] at h
    obtain ⟨tk, htk, t, ht, t', ht', rfl⟩ := h
    simp only [List.append_assoc]
    rw [afterClose_printKey htk, afterClose_plain (plain_keySep st), afterClose_print ht,
      afterClose_printItemsTail ht']

theorem afterClose_printItemsTail : ∀ {kvs : List (Key F × PyVal F)} {t : PyStr},
    printItemsTail st kvs = some t → ∀ (depth : ℕ) (r : PyStr),
    afterClose (depth + 1) .text (t ++ r) = afterClose (depth + 1) .text r
  | [], t, h, depth, r => by
    rw [printItemsTail, Option.some.injEq] at h
    exact h ▸ rfl
  | (k, v) :: kvs, t, h, depth, r => by
    simp only [printItemsTail, Option.bind_eq_some_iff, Option.map_eq_some_iff] at h
    obtain ⟨tk, htk, t, ht, t', ht', rfl⟩ := h
    simp only [List.append_assoc]
    rw [afterClose_plain (plain_itemSep st), afterClose_printKey htk,
      afterClose_plain (plain_keySep st), afterClose_print ht, afterClose_printItemsTail ht']

end

end

end Json
