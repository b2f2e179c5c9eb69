import Daryl.Json.Balance
import Daryl.Json.Closed

/-!
# `agent_proposal_gateway_v0.gateway`: the object in a text

A provider may put its proposal in a text.  If the text as a whole is no JSON object, the first
piece between balanced braces is read; a brace in a string does not count, and a string is open
from one quote to the next that no backslash hides.  The scan counts so from the start of the
text on, so a quote in what stands before the object opens a string as well.

## Main definitions

* `scanBalanced`, `extractJsonObject` — the scan and what is read of a text.
* `modeAfter` — where a text without braces leaves the scan.

## Main results

* `scanBalanced_object` — **the scan goes in step with the grammar**: from an open brace on it
  reads what is between the braces of a dict.
* `extracts_iff` — **every object is found behind a prefix just if the prefix leaves no string
  open.**
* `not_extracts` — one quote before the object.
-/

namespace Daryl

open Py Json

namespace Gateway

/-- A dict. -/
abbrev Fields (F : Type) := List (Key F × PyVal F)

section

variable {F : Type} [PyFloat F]

/-- `_try_load_json_object`. -/
def tryLoadJsonObject : PyVal F → Option (Fields F)
  | .str s =>
    match loads s with
    | some (.dict kvs) => some kvs
    | _ => none
  | _ => none

/-- The loop of `_first_balanced_json_object`: whether it is in a string, `depth`, and the text from
`start` on. -/
def scanBalanced : Mode → ℕ → PyStr → PyStr → Option PyStr
  | _, _, _, [] => none
  | .escape, depth, span, c :: s => scanBalanced .string depth (span ++ [c]) s
  | .string, depth, span, c :: s =>
    if c.val = 92 then scanBalanced .escape depth (span ++ [c]) s
    else if c.val = 34 then scanBalanced .text depth (span ++ [c]) s
    else scanBalanced .string depth (span ++ [c]) s
  | .text, depth, span, c :: s =>
    if c.val = 34 then scanBalanced .string depth (span ++ [c]) s
    else if c.val = 123 then
      -- the outermost brace is the new start
      scanBalanced .text (depth + 1) (if depth = 0 then [c] else span ++ [c]) s
    else if c.val = 125 then
      if depth = 1 then some (span ++ [c])
      else scanBalanced .text (depth - 1) (span ++ [c]) s
    else scanBalanced .text depth (span ++ [c]) s

/-- `_first_balanced_json_object`. -/
def firstBalancedJsonObject : PyVal F → Option PyStr
  | .str s => scanBalanced .text 0 [] s
  | _ => none

/-- `_extract_json_object`. -/
def extractJsonObject (value : PyVal F) : Option (Fields F) :=
  match tryLoadJsonObject value with
  | some loaded => some loaded
  | none => (firstBalancedJsonObject value).bind fun span => tryLoadJsonObject (.str span)

theorem tryLoadJsonObject_eq_some {s : PyStr} {kvs : Fields F} :
    tryLoadJsonObject (.str s) = some kvs ↔ loads s = some (.dict kvs) := by
  simp only [tryLoadJsonObject]
  split
  · next kvs' h => rw [h, Option.some.injEq, Option.some.injEq, PyVal.dict.injEq]
  · next h =>
    constructor
    · intro hnone
      cases hnone
    · intro hs
      exact absurd hs (h kvs)

end

/-! ### What is between the braces -/

/-- The scan takes the text up, outside strings, while a brace is open. -/
def Scanned (s : PyStr) : Prop := ∀ d span rest,
  scanBalanced .text (d + 1) span (s ++ rest) = scanBalanced .text (d + 1) (span ++ s) rest

/-- The scan takes the text up in a string, while a brace is open. -/
def ScannedIn (s : PyStr) : Prop := ∀ d span rest,
  scanBalanced .string (d + 1) span (s ++ rest) = scanBalanced .string (d + 1) (span ++ s) rest

theorem Scanned.append {s t : PyStr} (hs : Scanned s) (ht : Scanned t) : Scanned (s ++ t) := by
  intro d span rest
  rw [List.append_assoc, hs, ht, List.append_assoc]

theorem ScannedIn.append {s t : PyStr} (hs : ScannedIn s) (ht : ScannedIn t) :
    ScannedIn (s ++ t) := by
  intro d span rest
  rw [List.append_assoc, hs, ht, List.append_assoc]

theorem scanned_nil : Scanned [] := by
  intro d span rest
  rw [List.nil_append, List.append_nil]

theorem scannedIn_nil : ScannedIn [] := by
  intro d span rest
  rw [List.nil_append, List.append_nil]

/-- A character that is no quote and no brace. -/
theorem scanned_char {c : CodePoint} (hquote : c.val ≠ 34) (hopen : c.val ≠ 123)
    (hclose : c.val ≠ 125) : Scanned [c] := by
  intro d span rest
  rw [List.singleton_append, scanBalanced, if_neg hquote, if_neg hopen, if_neg hclose]

theorem scanned_bare {s : PyStr} (h : Bare s) : Scanned s := by
  induction s with
  | nil => exact scanned_nil
  | cons c s ih =>
    have hc := h c List.mem_cons_self
    simp only [List.mem_cons, List.not_mem_nil, or_false, not_or] at hc
    obtain ⟨hquote, -, -, -, hopen, hclose⟩ := hc
    exact (scanned_char hquote hopen hclose).append
      (ih fun x hx => h x (List.mem_cons_of_mem c hx))

theorem scannedIn_char {c : CodePoint} (hquote : c.val ≠ 34) (hback : c.val ≠ 92) :
    ScannedIn [c] := by
  intro d span rest
  rw [List.singleton_append, scanBalanced, if_neg hback, if_neg hquote]

/-- What follows a backslash does not end the string. -/
theorem scannedIn_escape {c : CodePoint} (hback : c.val = 92) (e : CodePoint) :
    ScannedIn [c, e] := by
  intro d span rest
  rw [List.cons_append, List.singleton_append, scanBalanced, if_pos hback, scanBalanced,
    List.append_assoc, List.singleton_append]

theorem scanned_string {p : PyStr} (h : ScannedIn p) : Scanned (34 :: (p ++ [34])) := by
  intro d span rest
  rw [List.cons_append, List.append_assoc, scanBalanced, if_pos (by decide), h,
    List.singleton_append, scanBalanced, if_neg (by decide), if_pos (by decide)]
  simp only [List.append_assoc, List.cons_append, List.nil_append]

theorem scanned_list {b : PyStr} (h : Scanned b) : Scanned (91 :: (b ++ [93])) :=
  (scanned_char (c := 91) (by decide) (by decide) (by decide)).append
    (h.append (scanned_char (by decide) (by decide) (by decide)))

/-- A pair of braces in an open one. -/
theorem scanned_dict {b : PyStr} (h : Scanned b) : Scanned (123 :: (b ++ [125])) := by
  intro d span rest
  rw [List.cons_append, List.append_assoc, scanBalanced, if_neg (by decide), if_pos (by decide),
    if_neg (Nat.succ_ne_zero d), h, List.singleton_append, scanBalanced, if_neg (by decide),
    if_neg (by decide), if_pos (by decide), if_neg (by omega), Nat.add_sub_cancel]
  simp only [List.append_assoc, List.cons_append, List.nil_append]

/-- The scan goes in step with what is read as a value. -/
theorem scanned_closed : Closed Scanned ScannedIn where
  append := Scanned.append
  bare := scanned_bare
  nilIn := scannedIn_nil
  appendIn := ScannedIn.append
  char := scannedIn_char
  escape := scannedIn_escape
  string := scanned_string
  list := scanned_list
  dict := scanned_dict

/-- **The scan ends where the braces of the outermost dict do**, whatever stood before and whatever
follows. -/
theorem scanBalanced_object {b : PyStr} (h : Scanned b) (span rest : PyStr) :
    scanBalanced .text 0 span (123 :: (b ++ 125 :: rest)) = some (123 :: (b ++ [125])) := by
  rw [scanBalanced, if_neg (by decide), if_pos (by decide), if_pos rfl, h, scanBalanced,
    if_neg (by decide), if_neg (by decide), if_pos (by decide), if_pos rfl]
  rfl

/-! ### What stands before the object -/

/-- What a character other than a brace does. -/
def modeStep : Mode → CodePoint → Mode
  | .escape, _ => .string
  | .string, c => if c.val = 92 then .escape else if c.val = 34 then .text else .string
  | .text, c => if c.val = 34 then .string else .text

/-- Where a text without braces leaves the scan: a quote opens or closes a string, and in a string a
backslash hides what follows it. -/
def modeAfter (p : PyStr) : Mode := p.foldl modeStep .text

/-- No brace is in the text. -/
def NoBrace (p : PyStr) : Prop := ∀ c ∈ p, c.val ≠ 123 ∧ c.val ≠ 125

instance (p : PyStr) : Decidable (NoBrace p) := List.decidableBAll _ p

theorem noBrace_white {w : PyStr} (h : White w) : NoBrace w := by
  intro c hc
  have := h c hc
  simp only [isWs, Bool.or_eq_true, beq_iff_eq] at this
  omega

/-- White space leaves the scan outside strings. -/
theorem modeAfter_white {w : PyStr} (h : White w) : modeAfter w = .text := by
  induction w with
  | nil => rfl
  | cons c w ih =>
    have hc := h c List.mem_cons_self
    simp only [isWs, Bool.or_eq_true, beq_iff_eq] at hc
    rw [modeAfter, List.foldl_cons, modeStep, if_neg (by omega)]
    exact ih fun x hx => h x (List.mem_cons_of_mem c hx)

/-- Before the first brace the scan only looks for strings. -/
theorem scanBalanced_noBrace (m : Mode) (span : PyStr) {p : PyStr} (h : NoBrace p)
    (rest : PyStr) :
    scanBalanced m 0 span (p ++ rest) = scanBalanced (p.foldl modeStep m) 0 (span ++ p) rest := by
  induction p generalizing m span with
  | nil => rw [List.nil_append, List.append_nil, List.foldl_nil]
  | cons c p ih =>
    obtain ⟨hopen, hclose⟩ := h c List.mem_cons_self
    have hrest := fun m span => ih m span fun x hx => h x (List.mem_cons_of_mem c hx)
    rw [List.foldl_cons, show span ++ c :: p = (span ++ [c]) ++ p by simp, ← hrest, List.cons_append]
    cases m with
    | escape => rw [scanBalanced, modeStep]
    | string =>
      rw [scanBalanced, modeStep]
      split_ifs <;> rfl
    | text =>
      rw [scanBalanced, modeStep, if_neg hopen, if_neg hclose]
      split_ifs <;> rfl

/-- Outside strings, the first braces are the outermost ones of the object. -/
theorem scanBalanced_behind {p b : PyStr} (hp : NoBrace p) (hmode : modeAfter p = .text)
    (hb : Scanned b) (rest : PyStr) :
    scanBalanced .text 0 [] (p ++ 123 :: (b ++ 125 :: rest)) = some (123 :: (b ++ [125])) := by
  rw [scanBalanced_noBrace .text [] hp, show p.foldl modeStep .text = .text from hmode]
  exact scanBalanced_object hb _ rest

/-- In a string that is not closed, no brace is found. -/
theorem scanBalanced_open {m : Mode} (hm : m ≠ .text) (d : ℕ) (span : PyStr) :
    scanBalanced m d span (py "\x7b\x7d") = none := by
  cases m with
  | text => exact absurd rfl hm
  | string => rfl
  | escape => rfl

section

variable {F : Type} [PyFloat F]

/-- The object that is in a text behind a prefix, whatever follows it, is found. -/
theorem extractJsonObject_behind {p t : PyStr} {kvs : Fields F} (hp : NoBrace p)
    (hmode : modeAfter p = .text) (ht : loads t = some (.dict kvs)) (s : PyStr) :
    extractJsonObject (F := F) (.str (p ++ t ++ s)) = some kvs := by
  obtain ⟨w, b, w', rfl, hw, -, hb, hload⟩ := dict_of_loads scanned_closed ht
  have hpw : NoBrace (p ++ w) := fun c hc =>
    (List.mem_append.mp hc).elim (hp c) (noBrace_white hw c)
  have hmode' : modeAfter (p ++ w) = .text := by
    rw [modeAfter, List.foldl_append, show p.foldl modeStep .text = .text from hmode]
    exact modeAfter_white hw
  have hspan : scanBalanced .text 0 [] (p ++ (w ++ 123 :: (b ++ 125 :: w')) ++ s)
      = some (123 :: (b ++ [125])) := by
    have := scanBalanced_behind hpw hmode' hb (w' ++ s)
    simp only [List.append_assoc, List.cons_append] at this ⊢
    exact this
  rw [extractJsonObject]
  split
  · next loaded hloaded =>
    -- the text as a whole is an object: the same braces are its outermost ones
    obtain ⟨v, b', v', heq, hv, -, hb', hload'⟩ :=
      dict_of_loads scanned_closed (tryLoadJsonObject_eq_some.mp hloaded)
    have hspan' := scanBalanced_behind (noBrace_white hv) (modeAfter_white hv) hb' v'
    rw [← heq, hspan, Option.some.injEq] at hspan'
    rw [← hspan', hload, Option.some.injEq, PyVal.dict.injEq] at hload'
    rw [hload']
  · next =>
    rw [firstBalancedJsonObject, hspan, Option.bind_some]
    exact tryLoadJsonObject_eq_some.mpr hload

/-- Every object that is serialised behind the prefix is what is extracted. -/
def Extracts (F : Type) [PyFloat F] (p : PyStr) : Prop :=
  ∀ (t s : PyStr) (o : Fields F), loads t = some (.dict o) →
    extractJsonObject (F := F) (.str (p ++ t ++ s)) = some o

/-- **Every object behind a prefix without braces is extracted, whatever follows it, just if the
prefix leaves no string open.** -/
theorem extracts_iff (p : PyStr) (hp : NoBrace p) : Extracts F p ↔ modeAfter p = .text := by
  constructor
  · intro h
    by_contra hmode
    have hempty : loads (F := F) (py "\x7b\x7d") = some (.dict []) := rfl
    have hsome := h (py "\x7b\x7d") [] [] hempty
    have hnone : scanBalanced .text 0 [] (p ++ py "\x7b\x7d") = none := by
      rw [scanBalanced_noBrace .text [] hp]
      exact scanBalanced_open hmode 0 _
    rw [List.append_nil, extractJsonObject] at hsome
    split at hsome
    · next loaded hloaded =>
      -- the text as a whole would be an object, and the scan would find its braces
      obtain ⟨v, b, v', heq, hv, -, hb, -⟩ :=
        dict_of_loads scanned_closed (tryLoadJsonObject_eq_some.mp hloaded)
      rw [heq, scanBalanced_behind (noBrace_white hv) (modeAfter_white hv) hb] at hnone
      cases hnone
    · rw [firstBalancedJsonObject, hnone] at hsome
      cases hsome
  · intro hmode t s o ht
    exact extractJsonObject_behind hp hmode ht s

/-- A quoted word before the object closes its string. -/
theorem extracts_quoted : Extracts FloatLit (py "The \"plan\": ") :=
  (extracts_iff _ (by decide)).mpr rfl

/-- One quote stands before the empty object. -/
theorem not_extracts : NoBrace (py "\"") ∧ ¬Extracts FloatLit (py "\"") := by
  refine ⟨by decide, fun h => ?_⟩
  have hsome := h (py "\x7b\x7d") [] [] rfl
  exact absurd hsome (by decide)

end

end Gateway

end Daryl
