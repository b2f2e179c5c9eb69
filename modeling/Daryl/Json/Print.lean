import Daryl.Py.Value

/-!
# `json.dumps`

The encoder of Python's `json` module: separators compact or default, all
non-ASCII escaped or none, `NaN` allowed or not.  With `sort_keys=True` a value
is first put in key order by `sortDicts`.

## Main definitions

* `Style` — the arguments of `json.dumps` that reach the text.
* `escape` — a string between quotes.
* `print` — the text of a value; `none` is the `ValueError` of a `nan` or an
  infinity under `allow_nan=False`.
* `dumps`, `dumpsSorted` — `json.dumps` without and with `sort_keys=True`.
-/

namespace Json

open Py

/-- The arguments of `json.dumps` that decide the text. -/
structure Style where
  /-- `ensure_ascii` -/
  ensureAscii : Bool
  /-- `allow_nan` -/
  allowNan : Bool
  /-- the default separators `", "` and `": "` rather than `","` and `":"` -/
  spaced : Bool
  deriving DecidableEq

/-- A hexadecimal digit, lower case. -/
def hexDigit (d : Fin 16) : CodePoint :=
  if h : d.val < 10 then ⟨48 + d.val, by omega⟩ else ⟨87 + d.val, by omega⟩

/-- The escape `\uXXXX` of a code unit. -/
def unicodeEscape (u : Fin 0x10000) : PyStr :=
  py "\\u" ++ [hexDigit ⟨u.val / 4096, by omega⟩, hexDigit ⟨u.val / 256 % 16, by omega⟩,
    hexDigit ⟨u.val / 16 % 16, by omega⟩, hexDigit ⟨u.val % 16, by omega⟩]

/-- The high surrogate of a code point beyond the first plane. -/
def highOf (c : CodePoint) : Fin 0x10000 := ⟨0xD800 + (c.val - 0x10000) / 0x400, by omega⟩

/-- The low surrogate of a code point beyond the first plane. -/
def lowOf (c : CodePoint) : Fin 0x10000 := ⟨0xDC00 + (c.val - 0x10000) % 0x400, by omega⟩

/-- The two-character escapes. -/
def shortEscape (c : CodePoint) : Option PyStr :=
  if c.val = 34 then some (py "\\\"")
  else if c.val = 92 then some (py "\\\\")
  else if c.val = 10 then some (py "\\n")
  else if c.val = 13 then some (py "\\r")
  else if c.val = 9 then some (py "\\t")
  else if c.val = 12 then some (py "\\f")
  else if c.val = 8 then some (py "\\b")
  else none

theorem lt_unit_of_control (c : CodePoint) (h : c.val < 32) : c.val < 0x10000 := by omega

/-- One code point inside a string.  With `ensure_ascii` all but the printable
ASCII characters are escaped, `DEL` included; without it only the control
characters below the space are. -/
def escapeChar (ensureAscii : Bool) (c : CodePoint) : PyStr :=
  match shortEscape c with
  | some s => s
  | none =>
    if ensureAscii then
      if 32 ≤ c.val ∧ c.val ≤ 126 then [c]
      else if h : c.val < 0x10000 then unicodeEscape ⟨c.val, h⟩
      else unicodeEscape (highOf c) ++ unicodeEscape (lowOf c)
    else if h : c.val < 32 then unicodeEscape ⟨c.val, lt_unit_of_control c h⟩
    else [c]

/-- The code points of a string, escaped. -/
def escape (ensureAscii : Bool) (s : PyStr) : PyStr := s.flatMap (escapeChar ensureAscii)

/-- A string with its quotes. -/
def printStr (ensureAscii : Bool) (s : PyStr) : PyStr := py "\"" ++ escape ensureAscii s ++ py "\""

/-- The separator between items. -/
def Style.itemSep (st : Style) : PyStr := if st.spaced then py ", " else py ","

/-- The separator between a key and its value. -/
def Style.keySep (st : Style) : PyStr := if st.spaced then py ": " else py ":"

section

variable {F : Type} [PyFloat F]

/-- The text of a float; `none` is the `ValueError` of `allow_nan=False`. -/
def printFloat (allowNan : Bool) : FloatVal F → Option PyStr
  | .nan => if allowNan then some (py "NaN") else none
  | .inf neg => if allowNan then some (infText neg) else none
  | .finite x => some (PyFloat.repr x).text

/-- The string of a dict key; an infinite key meets `allow_nan` as well. -/
def printKey (st : Style) (k : Key F) : Option PyStr :=
  match k with
  | .inf _ => if st.allowNan then some (printStr st.ensureAscii k.text) else none
  | _ => some (printStr st.ensureAscii k.text)

mutual

/-- The text of a value. -/
def print (st : Style) : PyVal F → Option PyStr
  | .none => some (py "null")
  | .bool b => some (boolText b)
  | .int n => some (intStr n)
  | .float x => printFloat st.allowNan x
  | .str s => some (printStr st.ensureAscii s)
  | .list vs => (printList st vs).map fun t => py "[" ++ t ++ py "]"
  | .tuple vs => (printList st vs).map fun t => py "[" ++ t ++ py "]"
  | .dict kvs => (printItems st kvs).map fun t => py "\x7b" ++ t ++ py "\x7d"

/-- The texts of the elements of a list, separated. -/
def printList (st : Style) : List (PyVal F) → Option PyStr
  | [] => some []
  | v :: vs =>
    (print st v).bind fun t => (printListTail st vs).map fun t' => t ++ t'

/-- The texts of the elements after the first, each behind a separator. -/
def printListTail (st : Style) : List (PyVal F) → Option PyStr
  | [] => some []
  | v :: vs =>
    (print st v).bind fun t => (printListTail st vs).map fun t' => st.itemSep ++ (t ++ t')

/-- The texts of the items of a dict, separated. -/
def printItems (st : Style) : List (Key F × PyVal F) → Option PyStr
  | [] => some []
  | (k, v) :: kvs =>
    (printKey st k).bind fun tk => (print st v).bind fun t =>
      (printItemsTail st kvs).map fun t' => tk ++ (st.keySep ++ (t ++ t'))

/-- The texts of the items after the first, each behind a separator. -/
def printItemsTail (st : Style) : List (Key F × PyVal F) → Option PyStr
  | [] => some []
  | (k, v) :: kvs =>
    (printKey st k).bind fun tk => (print st v).bind fun t =>
      (printItemsTail st kvs).map fun t' => st.itemSep ++ (tk ++ (st.keySep ++ (t ++ t')))

end

/-- What `json.dumps` may raise. -/
inductive DumpsError
  /-- dict keys that do not compare under `sort_keys=True` -/
  | typeError
  /-- a `nan` or an infinity under `allow_nan=False` -/
  | valueError
  deriving DecidableEq

/-- `json.dumps(v, ...)` without `sort_keys`. -/
def dumps (st : Style) (v : PyVal F) : Except DumpsError PyStr :=
  match print st v with
  | some t => .ok t
  | none => .error .valueError

/-- `json.dumps(v, ..., sort_keys=True)`. -/
def dumpsSorted (st : Style) (v : PyVal F) : Except DumpsError PyStr :=
  match sortDicts v with
  | some w => dumps st w
  | none => .error .typeError

theorem dumps_eq_ok {st : Style} {v : PyVal F} {t : PyStr} :
    dumps st v = .ok t ↔ print st v = some t := by
  unfold dumps
  split <;> simp_all

theorem dumpsSorted_eq_ok {st : Style} {v : PyVal F} {t : PyStr} :
    dumpsSorted st v = .ok t ↔ ∃ w, sortDicts v = some w ∧ print st w = some t := by
  unfold dumpsSorted
  split
  · next w hw => simp [hw, dumps_eq_ok]
  · next hw => simp [hw]

end

/-! ### The code points of a text -/

/-- The escapes of a code point are printable ASCII. -/
theorem within_unicodeEscape (u : Fin 0x10000) : Within 32 126 (unicodeEscape u) := by
  have hex : ∀ d : Fin 16, 32 ≤ (hexDigit d).val ∧ (hexDigit d).val ≤ 126 := by
    intro d
    have := d.isLt
    unfold hexDigit
    split <;> simp only <;> omega
  unfold unicodeEscape
  refine within_append.mpr ⟨by decide, ?_⟩
  simp [hex]

theorem within_shortEscape {c : CodePoint} {s : PyStr} (h : shortEscape c = some s) :
    Within 32 126 s := by
  unfold shortEscape at h
  split_ifs at h
  all_goals
    simp only [Option.some.injEq] at h
    subst h
    decide

/-- With `ensure_ascii` a string is written in printable ASCII. -/
theorem within_escapeChar (c : CodePoint) : Within 32 126 (escapeChar true c) := by
  unfold escapeChar
  split
  · next s hs => exact within_shortEscape hs
  · simp only [if_true]
    split_ifs with h h'
    · simpa using h
    · exact within_unicodeEscape _
    · exact within_append.mpr ⟨within_unicodeEscape _, within_unicodeEscape _⟩

/-- Without `ensure_ascii` a string is written without control characters. -/
theorem within_escapeChar_false (c : CodePoint) : Within 32 0x10FFFF (escapeChar false c) := by
  unfold escapeChar
  split
  · next s hs => exact (within_shortEscape hs).mono le_rfl (by norm_num)
  · simp only [Bool.false_eq_true, if_false]
    split_ifs with h
    · exact (within_unicodeEscape _).mono le_rfl (by norm_num)
    · have := c.isLt
      simp only [within_cons, within_nil, and_true]
      omega

theorem within_escape (s : PyStr) : Within 32 126 (escape true s) := by
  intro c hc
  obtain ⟨d, -, hd⟩ := List.mem_flatMap.mp hc
  exact within_escapeChar d c hd

theorem within_escape_false (s : PyStr) : Within 32 0x10FFFF (escape false s) := by
  intro c hc
  obtain ⟨d, -, hd⟩ := List.mem_flatMap.mp hc
  exact within_escapeChar_false d c hd

/-- The upper bound of the code points a style writes. -/
def Style.bound (st : Style) : ℕ := if st.ensureAscii then 126 else 0x10FFFF

theorem Style.le_bound (st : Style) : 126 ≤ st.bound := by
  unfold Style.bound
  split <;> norm_num

theorem within_printStr (st : Style) (s : PyStr) :
    Within 32 st.bound (printStr st.ensureAscii s) := by
  have hq : Within 32 st.bound (py "\"") :=
    Within.mono (by decide : Within 32 126 (py "\"")) le_rfl st.le_bound
  refine within_append.mpr ⟨within_append.mpr ⟨hq, ?_⟩, hq⟩
  unfold Style.bound
  cases st.ensureAscii
  · exact within_escape_false s
  · exact within_escape s

theorem within_expText (e : Option ExpLit) : Within 32 126 (expText e) := by
  cases e with
  | none => simp [expText]
  | some e =>
    simp only [expText, ExpLit.text, within_append]
    refine ⟨⟨?_, ?_⟩, (within_map_digitChar _).mono (by norm_num) (by norm_num)⟩
    · cases e.upper <;> decide
    · rcases e.sign with - | (- | -) <;> decide

theorem within_floatLit (l : FloatLit) : Within 32 126 l.text := by
  have hds : ∀ ds : List (Fin 10), Within 32 126 (ds.map digitChar) :=
    fun ds => (within_map_digitChar ds).mono (by norm_num) (by norm_num)
  simp only [FloatLit.text, within_append]
  refine ⟨⟨by cases l.neg <;> decide, hds _⟩, ?_⟩
  cases l.tail with
  | frac d ds e =>
    simp only [FloatTail.text, within_append]
    exact ⟨⟨by decide, hds _⟩, within_expText e⟩
  | exp e => exact within_expText (some e)

section

variable {F : Type} [PyFloat F] {st : Style}

theorem within_printKey {k : Key F} {t : PyStr} (h : printKey st k = some t) :
    Within 32 st.bound t := by
  unfold printKey at h
  split at h
  · split at h
    · simp only [Option.some.injEq] at h
      exact h ▸ within_printStr st _
    · exact absurd h (by simp)
  · simp only [Option.some.injEq] at h
    exact h ▸ within_printStr st _

private theorem within_bound {t : PyStr} (h : Within 32 126 t) : Within 32 st.bound t :=
  h.mono le_rfl st.le_bound

private theorem within_itemSep : Within 32 st.bound st.itemSep := by
  unfold Style.itemSep
  split <;> exact within_bound (by decide)

private theorem within_keySep : Within 32 st.bound st.keySep := by
  unfold Style.keySep
  split <;> exact within_bound (by decide)

mutual

/-- **A text has no control characters, and is printable ASCII under
`ensure_ascii`.** -/
theorem within_print : ∀ {v : PyVal F} {t : PyStr}, print st v = some t → Within 32 st.bound t
  | .none, t, h => by
    simp only [print, Option.some.injEq] at h
    exact h ▸ within_bound (by decide)
  | .bool b, t, h => by
    simp only [print, Option.some.injEq] at h
    exact h ▸ within_bound (by cases b <;> decide)
  | .int n, t, h => by
    simp only [print, Option.some.injEq] at h
    exact h ▸ within_bound ((within_intStr n).mono (by norm_num) (by norm_num))
  | .float x, t, h => by
    simp only [print, printFloat] at h
    split at h
    · split at h
      · simp only [Option.some.injEq] at h
        exact h ▸ within_bound (by decide)
      · exact absurd h (by simp)
    · next neg =>
      split at h
      · simp only [Option.some.injEq] at h
        exact h ▸ within_bound (by cases neg <;> decide)
      · exact absurd h (by simp)
    · simp only [Option.some.injEq] at h
      exact h ▸ within_bound (within_floatLit _)
  | .str s, t, h => by
    simp only [print, Option.some.injEq] at h
    exact h ▸ within_printStr st s
  | .list vs, t, h | .tuple vs, t, h => by
    obtain ⟨u, hu, rfl⟩ := Option.map_eq_some_iff.mp h
    simp only [within_append]
    exact ⟨⟨within_bound (by decide), within_printList hu⟩, within_bound (by decide)⟩
  | .dict kvs, t, h => by
    obtain ⟨u, hu, rfl⟩ := Option.map_eq_some_iff.mp h
    simp only [within_append]
    exact ⟨⟨within_bound (by decide), within_printItems hu⟩, within_bound (by decide)⟩

theorem within_printList : ∀ {vs : List (PyVal F)} {t : PyStr}, printList st vs = some t →
    Within 32 st.bound t
  | [], t, h => by
    simp only [printList, Option.some.injEq] at h
    simp [← h]
  | v :: vs, t, h => by
    simp only [printList, Option.bind_eq_some_iff, Option.map_eq_some_iff] at h
    obtain ⟨u, hu, u', hu', rfl⟩ := h
    exact within_append.mpr ⟨within_print hu, within_printListTail hu'⟩

theorem within_printListTail : ∀ {vs : List (PyVal F)} {t : PyStr},
    printListTail st vs = some t → Within 32 st.bound t
  | [], t, h => by
    simp only [printListTail, Option.some.injEq] at h
    simp [← h]
  | v :: vs, t, h => by
    simp only [printListTail, Option.bind_eq_some_iff, Option.map_eq_some_iff] at h
    obtain ⟨u, hu, u', hu', rfl⟩ := h
    simp only [within_append]
    exact ⟨within_itemSep, within_print hu, within_printListTail hu'⟩

theorem within_printItems : ∀ {kvs : List (Key F × PyVal F)} {t : PyStr},
    printItems st kvs = some t → Within 32 st.bound t
  | [], t, h => by
    simp only [printItems, Option.some.injEq] at h
    simp [← h]
  | (k, v) :: kvs, t, h => by
    simp only [printItems, Option.bind_eq_some_iff, Option.map_eq_some_iff] at h
    obtain ⟨tk, htk, u, hu, u', hu', rfl⟩ := h
    simp only [within_append]
    exact ⟨within_printKey htk, within_keySep, within_print hu, within_printItemsTail hu'⟩

theorem within_printItemsTail : ∀ {kvs : List (Key F × PyVal F)} {t : PyStr},
    printItemsTail st kvs = some t → Within 32 st.bound t
  | [], t, h => by
    simp only [printItemsTail, Option.some.injEq] at h
    simp [← h]
  | (k, v) :: kvs, t, h => by
    simp only [printItemsTail, Option.bind_eq_some_iff, Option.map_eq_some_iff] at h
    obtain ⟨tk, htk, u, hu, u', hu', rfl⟩ := h
    simp only [within_append]
    exact ⟨within_itemSep, within_printKey htk, within_keySep, within_print hu,
      within_printItemsTail hu'⟩

end

end

end Json
