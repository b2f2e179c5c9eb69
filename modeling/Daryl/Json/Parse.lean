import Daryl.Py.Value

/-!
# `json.loads`

The scanner of Python's `json` module, with its extensions: `NaN` and the
infinities are read, an unpaired surrogate escape is kept, and of two members
with one key the later wins.

## Main definitions

* `scanString` — a string after its opening quote, in two passes: `scanUnits`
  reads the escapes and `joinPairs` joins the surrogate pairs among them.
* `scanNumber` — an integer or a float.
* `parseValue`, `parseMembers`, `parseElements` — the recursive scanner; the
  fuel bounds the recursion, and every call reads at least one code point.
* `loads` — `json.loads`; `none` is the `JSONDecodeError`.
-/

namespace Json

open Py

/-! ### Strings -/

/-- The value of a hexadecimal digit, either case. -/
def hexVal (c : CodePoint) : Option (Fin 16) :=
  if h : 48 ≤ c.val ∧ c.val ≤ 57 then some ⟨c.val - 48, by omega⟩
  else if h : 97 ≤ c.val ∧ c.val ≤ 102 then some ⟨c.val - 87, by omega⟩
  else if h : 65 ≤ c.val ∧ c.val ≤ 70 then some ⟨c.val - 55, by omega⟩
  else none

/-- The code unit of four hexadecimal digits. -/
def hex4 (a b c d : CodePoint) : Option CodePoint :=
  (hexVal a).bind fun a => (hexVal b).bind fun b => (hexVal c).bind fun c => (hexVal d).map fun d =>
    ⟨a.val * 4096 + b.val * 256 + c.val * 16 + d.val, by omega⟩

/-- The two-character escapes. -/
def simpleEscape (c : CodePoint) : Option CodePoint :=
  if c.val = 34 then some 34
  else if c.val = 92 then some 92
  else if c.val = 47 then some 47
  else if c.val = 98 then some 8
  else if c.val = 102 then some 12
  else if c.val = 110 then some 10
  else if c.val = 114 then some 13
  else if c.val = 116 then some 9
  else none

/-- Put a unit in front of what a scan returned. -/
def push (u : Bool × CodePoint) (p : List (Bool × CodePoint) × PyStr) :
    List (Bool × CodePoint) × PyStr :=
  (u :: p.1, p.2)

/-- The units of a string up to its closing quote, each with the flag that it
came from a `\u` escape, and the text behind the quote. -/
def scanUnits : PyStr → Option (List (Bool × CodePoint) × PyStr)
  | [] => none
  | c :: s =>
    if c.val = 34 then some ([], s)
    else if c.val = 92 then
      match s with
      | [] => none
      | e :: s =>
        if e.val = 117 then
          match s with
          | a :: b :: c :: d :: s => (hex4 a b c d).bind fun u => (scanUnits s).map (push (true, u))
          | _ => none
        else (simpleEscape e).bind fun u => (scanUnits s).map (push (false, u))
    else if c.val < 32 then none
    else (scanUnits s).map (push (false, c))

theorem joinSurrogates_lt (h l : CodePoint) (hp : (h.isHigh && l.isLow) = true) :
    0x10000 + (h.val - 0xD800) * 0x400 + (l.val - 0xDC00) < 0x110000 := by
  simp only [CodePoint.isHigh, CodePoint.isLow, Bool.and_eq_true, decide_eq_true_eq] at hp
  omega

/-- The code point of a surrogate pair. -/
def joinSurrogates (h l : CodePoint) (hp : (h.isHigh && l.isLow) = true) : CodePoint :=
  ⟨0x10000 + (h.val - 0xD800) * 0x400 + (l.val - 0xDC00), joinSurrogates_lt h l hp⟩

/-- Two consecutive `\u` escapes that form a surrogate pair are one code point. -/
def joinPairs : List (Bool × CodePoint) → PyStr
  | [] => []
  | (true, h) :: (true, l) :: us =>
    if hp : (h.isHigh && l.isLow) = true then joinSurrogates h l hp :: joinPairs us
    else h :: joinPairs ((true, l) :: us)
  | (_, c) :: us => c :: joinPairs us

/-- A string after its opening quote. -/
def scanString (s : PyStr) : Option (PyStr × PyStr) :=
  (scanUnits s).map fun p => (joinPairs p.1, p.2)

/-! ### Numbers -/

/-- The integer part: `0`, or digits that do not start with one. -/
def scanInt : PyStr → Option (ℕ × PyStr)
  | [] => none
  | c :: s =>
    match digitVal c with
    | none => none
    | some d =>
      if d = 0 then some (0, s)
      else some (natOfDigits (d :: (takeDigits s).1), (takeDigits s).2)

/-- The fraction, when a digit follows the point. -/
def scanFrac (s : PyStr) : Option (Fin 10 × List (Fin 10)) × PyStr :=
  match s with
  | [] => (none, [])
  | c :: r =>
    if c.val = 46 then
      match takeDigits r with
      | (d :: ds, r') => (some (d, ds), r')
      | ([], _) => (none, s)
    else (none, s)

/-- The sign of an exponent. -/
def scanSign : PyStr → Option Bool × PyStr
  | [] => (none, [])
  | c :: s =>
    if c.val = 45 then (some true, s) else if c.val = 43 then (some false, s) else (none, c :: s)

/-- The exponent, when it has a digit. -/
def scanExp (s : PyStr) : Option ExpLit × PyStr :=
  match s with
  | [] => (none, [])
  | c :: r =>
    if c.val = 101 ∨ c.val = 69 then
      match takeDigits (scanSign r).2 with
      | (d :: ds, r') => (some ⟨c.val = 69, (scanSign r).1, d, ds⟩, r')
      | ([], _) => (none, s)
    else (none, s)

section

variable {F : Type} [PyFloat F]

/-- The value of a number: a fraction or an exponent makes it a float. -/
def numberVal (neg : Bool) (n : ℕ) :
    Option (Fin 10 × List (Fin 10)) → Option ExpLit → PyVal F
  | none, none => .int (if neg then -(n : ℤ) else n)
  | none, some e => .float (PyFloat.ofLit ⟨neg, n, .exp e⟩)
  | some (d, ds), e => .float (PyFloat.ofLit ⟨neg, n, .frac d ds e⟩)

/-- The leading minus of a number. -/
def scanMinus : PyStr → Bool × PyStr
  | [] => (false, [])
  | c :: s => if c.val = 45 then (true, s) else (false, c :: s)

/-- A number. -/
def scanNumber (s : PyStr) : Option (PyVal F × PyStr) :=
  (scanInt (scanMinus s).2).map fun p =>
    (numberVal (scanMinus s).1 p.1 (scanFrac p.2).1 (scanExp (scanFrac p.2).2).1,
      (scanExp (scanFrac p.2).2).2)

/-! ### Values -/

/-- A literal at the head of the text. -/
def scanLit (lit : PyStr) (v : PyVal F) (s : PyStr) : Option (PyVal F × PyStr) :=
  (lit.isPrefixOf? s).map fun r => (v, r)

/-- A value that is no string, list or dict. -/
def scanAtom (s : PyStr) : Option (PyVal F × PyStr) :=
  (scanLit (py "null") .none s).or <|
    (scanLit (py "true") (.bool true) s).or <|
      (scanLit (py "false") (.bool false) s).or <|
        (scanLit (py "NaN") (.float .nan) s).or <|
          (scanLit (py "Infinity") (.float (.inf false)) s).or <|
            (scanLit (py "-Infinity") (.float (.inf true)) s).or (scanNumber s)

/-- JSON white space. -/
def isWs (c : CodePoint) : Bool := c.val == 32 || c.val == 9 || c.val == 10 || c.val == 13

/-- Pass over white space. -/
def skipWs (s : PyStr) : PyStr := s.dropWhile isWs

/-- The separator in front, passed over together with the white space around it. -/
def skipSep (sep : ℕ) (s : PyStr) : Option PyStr :=
  match skipWs s with
  | [] => none
  | c :: r => if c.val = sep then some (skipWs r) else none

/-- The closing bracket in front, with the white space before it. -/
def skipClose (close : ℕ) (s : PyStr) : Option PyStr :=
  match skipWs s with
  | [] => none
  | c :: r => if c.val = close then some r else none

mutual

/-- A value. -/
def parseValue : ℕ → PyStr → Option (PyVal F × PyStr)
  | 0, _ => none
  | _ + 1, [] => none
  | n + 1, c :: s =>
    if c.val = 34 then (scanString s).map fun p => (.str p.1, p.2)
    else if c.val = 123 then
      match skipClose 125 s with
      | some r => some (.dict [], r)
      | none => (parseMembers n (skipWs s)).map fun p => (.dict (dictOf p.1), p.2)
    else if c.val = 91 then
      match skipClose 93 s with
      | some r => some (.list [], r)
      | none => (parseElements n (skipWs s)).map fun p => (.list p.1, p.2)
    else scanAtom (c :: s)

/-- The members of a dict, up to its closing brace. -/
def parseMembers : ℕ → PyStr → Option (List (PyStr × PyVal F) × PyStr)
  | 0, _ => none
  | _ + 1, [] => none
  | n + 1, c :: s =>
    if c.val = 34 then
      (scanString s).bind fun k => (skipSep 58 k.2).bind fun s =>
        (parseValue n s).bind fun v =>
          match skipClose 125 v.2 with
          | some r => some ([(k.1, v.1)], r)
          | none =>
            (skipSep 44 v.2).bind fun s =>
              (parseMembers n s).map fun p => ((k.1, v.1) :: p.1, p.2)
    else none

/-- The elements of a list, up to its closing bracket. -/
def parseElements : ℕ → PyStr → Option (List (PyVal F) × PyStr)
  | 0, _ => none
  | n + 1, s =>
    (parseValue n s).bind fun v =>
      match skipClose 93 v.2 with
      | some r => some ([v.1], r)
      | none =>
        (skipSep 44 v.2).bind fun s => (parseElements n s).map fun p => (v.1 :: p.1, p.2)

end

/-- `json.loads(s)`: one value with white space around it. -/
def loads (s : PyStr) : Option (PyVal F) :=
  match parseValue (2 * s.length + 2) (skipWs s) with
  | some (v, r) => if skipWs r = [] then some v else none
  | none => none

end

end Json
