import Daryl.Py.Str

/-!
# `datetime`

A date and time with an optional offset from UTC, its ISO 8601 text, and the
reading of such a text.  A named time zone enters a text only through its
offset, so a `datetime` is modelled by its fields and that offset; `fold` never
reaches the text and is left out.

## Main definitions

* `Fields`, `Datetime` — the fields, and the fields a `datetime` may have.
* `isoformat` — `datetime.isoformat()`.
* `fromisoformat` — `datetime.fromisoformat(text)` of Python 3.11 and later;
  `none` is the `ValueError`.
* `millisText` — the text with milliseconds, without its offset.

## Main results

* `fromisoformat_isoformat` — **a `datetime` reads back from its text.**
-/

namespace Py

/-! ### The calendar -/

/-- A leap year. -/
def isLeap (y : ℕ) : Bool := y % 4 = 0 && (y % 100 ≠ 0 || y % 400 = 0)

/-- The days of a month. -/
def daysInMonth (y m : ℕ) : ℕ :=
  if m = 2 then if isLeap y then 29 else 28
  else if m = 4 ∨ m = 6 ∨ m = 9 ∨ m = 11 then 30
  else 31

/-- The days of a year. -/
def daysInYear (y : ℕ) : ℕ := if isLeap y then 366 else 365

/-- The weekday of the first of January, Monday being `0`. -/
def firstWeekday (y : ℕ) : ℕ := (y - 1 + (y - 1) / 4 - (y - 1) / 100 + (y - 1) / 400) % 7

/-- The fields of a `datetime`; `offset` is `utcoffset()` in microseconds. -/
structure Fields where
  year : ℕ
  month : ℕ
  day : ℕ
  hour : ℕ
  minute : ℕ
  second : ℕ
  microsecond : ℕ
  offset : Option ℤ
  deriving DecidableEq

/-- A day in microseconds. -/
def dayMicros : ℤ := 86400000000

/-- What the `datetime` and `timezone` constructors check. -/
def Fields.Valid (f : Fields) : Prop :=
  (1 ≤ f.year ∧ f.year ≤ 9999) ∧ (1 ≤ f.month ∧ f.month ≤ 12) ∧
    (1 ≤ f.day ∧ f.day ≤ daysInMonth f.year f.month) ∧
    f.hour < 24 ∧ f.minute < 60 ∧ f.second < 60 ∧ f.microsecond < 1000000 ∧
    match f.offset with
    | some o => -dayMicros < o ∧ o < dayMicros
    | none => True

instance (f : Fields) : Decidable f.Valid := by
  unfold Fields.Valid
  cases f.offset <;> infer_instance

/-- A `datetime`. -/
abbrev Datetime := {f : Fields // f.Valid}

-- the two times of the samples
theorem sampleSecond_valid : Fields.Valid ⟨2026, 1, 2, 3, 4, 5, 0, some 0⟩ := by decide

theorem sampleMilli_valid : Fields.Valid ⟨2026, 1, 2, 3, 4, 5, 6000, some 0⟩ := by decide

/-! ### Writing -/

/-- `f"{n:02d}"` of a number below 100. -/
def pad2 (n : ℕ) : PyStr := [digitChar (Fin.ofNat 10 (n / 10)), digitChar (Fin.ofNat 10 n)]

/-- `f"{n:04d}"` of a number below 10000. -/
def pad4 (n : ℕ) : PyStr := pad2 (n / 100) ++ pad2 (n % 100)

/-- `f"{n:06d}"` of a number below 1000000. -/
def pad6 (n : ℕ) : PyStr := pad4 (n / 100) ++ pad2 (n % 100)

/-- `HH:MM` with the seconds and microseconds that follow it. -/
def timeText (h m : ℕ) (rest : PyStr) : PyStr := pad2 h ++ (py ":" ++ (pad2 m ++ rest))

/-- The microseconds, left out when zero. -/
def microText (us : ℕ) : PyStr := if us = 0 then [] else py "." ++ pad6 us

/-- `HH:MM` of an offset of `n` microseconds, with seconds and microseconds only
when there are any. -/
def offsetTime (n : ℕ) : PyStr :=
  timeText (n / 1000000 / 3600) (n / 1000000 / 60 % 60)
    (if n / 1000000 % 60 = 0 ∧ n % 1000000 = 0 then []
      else py ":" ++ (pad2 (n / 1000000 % 60) ++ microText (n % 1000000)))

/-- The offset with its sign. -/
def offsetText (o : ℤ) : PyStr := (if o < 0 then py "-" else py "+") ++ offsetTime o.natAbs

/-- `isoformat()`. -/
def Fields.isoformat (f : Fields) : PyStr :=
  pad4 f.year ++ (py "-" ++ (pad2 f.month ++ (py "-" ++ (pad2 f.day ++ (py "T" ++
    (timeText f.hour f.minute (py ":" ++ (pad2 f.second ++ microText f.microsecond)) ++
      match f.offset with
      | some o => offsetText o
      | none => []))))))

/-- `datetime.isoformat()`. -/
def Datetime.isoformat (d : Datetime) : PyStr := d.val.isoformat

/-! ### Reading -/

/-- Two digits. -/
def num2 : PyStr → Option (ℕ × PyStr)
  | a :: b :: s =>
    (digitVal a).bind fun a => (digitVal b).map fun b => (10 * a.val + b.val, s)
  | _ => none

/-- Four digits. -/
def num4 (s : PyStr) : Option (ℕ × PyStr) :=
  (num2 s).bind fun hi => (num2 hi.2).map fun lo => (100 * hi.1 + lo.1, lo.2)

/-- The code point, passed over. -/
def expect (c : CodePoint) : PyStr → Option PyStr
  | [] => none
  | d :: s => if d = c then some s else none

/-- The code point, passed over where it stands. -/
def optional (c : CodePoint) : PyStr → Bool × PyStr
  | [] => (false, [])
  | d :: s => if d = c then (true, s) else (false, d :: s)

/-- The date `n` days after the first of a month, some months on. -/
def dayOfMonths (y : ℕ) : List ℕ → ℕ → Option (ℕ × ℕ × ℕ)
  | [], _ => none
  | m :: ms, n =>
    if n < daysInMonth y m then some (y, m, n + 1) else dayOfMonths y ms (n - daysInMonth y m)

/-- The date `n` days after the first of January, `n` from `-3`. -/
def dayOfYear (y : ℕ) (n : ℤ) : Option (ℕ × ℕ × ℕ) :=
  if n < 0 then some (y - 1, 12, (32 + n).toNat)
  else if n < daysInYear y then dayOfMonths y (List.range' 1 12) n.toNat
  else some (y + 1, 1, (n - daysInYear y).toNat + 1)

/-- The date of an ISO week and weekday. -/
def isoWeekDate (y week day : ℕ) : Option (ℕ × ℕ × ℕ) :=
  let long : Bool := firstWeekday y = 3 || (firstWeekday y = 2 && isLeap y)
  if 1 ≤ week ∧ (week ≤ 52 ∨ (week = 53 ∧ long)) ∧ 1 ≤ day ∧ day ≤ 7 then
    -- the Monday of week 1 is the one nearest to the first of January
    let monday : ℤ := if firstWeekday y ≤ 3 then -firstWeekday y else 7 - firstWeekday y
    dayOfYear y (monday + 7 * (week - 1) + (day - 1))
  else none

/-- The date part: `YYYY-MM-DD`, `YYYYMMDD`, `YYYY-Www`, `YYYYWww`, `YYYY-Www-D`
or `YYYYWwwD`. -/
def parseDate (s : PyStr) : Option (ℕ × ℕ × ℕ) :=
  (num4 s).bind fun y =>
    let dash := optional 45 y.2
    let week := optional 87 dash.2
    if week.1 then
      (num2 week.2).bind fun w =>
        if w.2 = [] then isoWeekDate y.1 w.1 1
        else
          (if dash.1 then expect 45 w.2 else some w.2).bind fun r =>
            match r with
            | [c] => (digitVal c).bind fun d => isoWeekDate y.1 w.1 d.val
            | _ => none
    else
      (num2 dash.2).bind fun m =>
        (if dash.1 then expect 45 m.2 else some m.2).bind fun r =>
          (num2 r).bind fun d => if d.2 = [] then some (y.1, m.1, d.1) else none

/-- A fraction of a second in microseconds: six digits, the rest dropped. -/
def parseMicros (s : PyStr) : Option ℕ :=
  match takeDigits s with
  | (d :: ds, []) => some (natOfDigits ((d :: ds ++ List.replicate 6 0).take 6))
  | _ => none

/-- `HH`, `HH:MM` or `HH:MM:SS` with an optional fraction; the colons may be
left out, all or none. -/
def parseHms (s : PyStr) : Option (ℕ × ℕ × ℕ × ℕ) :=
  (num2 s).bind fun h =>
    if h.2 = [] then some (h.1, 0, 0, 0)
    else
      let colon := optional 58 h.2
      (num2 colon.2).bind fun m =>
        if m.2 = [] then some (h.1, m.1, 0, 0)
        else
          (if colon.1 then expect 58 m.2 else some m.2).bind fun r => (num2 r).bind fun sec =>
            match sec.2 with
            | [] => some (h.1, m.1, sec.1, 0)
            | c :: r =>
              if c = 46 ∨ c = 44 then (parseMicros r).map fun us => (h.1, m.1, sec.1, us)
              else none

/-- The start of an offset. -/
def isZoneStart (c : CodePoint) : Bool := c == 43 || c == 45 || c == 90

/-- The offset: nothing, `Z`, or a sign and a time. -/
def parseZone : PyStr → Option (Option ℤ)
  | [] => some none
  | c :: s =>
    if c = 90 then if s = [] then some (some 0) else none
    else
      (parseHms s).map fun t =>
        let us : ℤ := ((t.1 * 3600 + t.2.1 * 60 + t.2.2.1) * 1000000 + t.2.2.2 : ℕ)
        some (if c = 45 then -us else us)

/-- Where the date ends; any one code point separates it from the time. -/
def findSeparator (s : PyStr) : Option ℕ :=
  if s.length = 7 then some 7
  else if s[4]? = some 45 then
    if s[5]? = some 87 then
      if s[8]? = some 45 then
        if s.length = 9 then none
        else if (s[10]?.bind digitVal).isSome then some 8
        else some 10
      else some 8
    else some 10
  else if s[4]? = some 87 then
    let pos := 7 + (takeDigits (s.drop 7)).1.length
    if pos < 9 then some pos else if pos % 2 = 0 then some 7 else some 8
  else some 8

/-- The fields a text names, not yet checked. -/
def parseIso (s : PyStr) : Option Fields :=
  if s.length < 7 then none
  else
    (findSeparator s).bind fun pos => (parseDate (s.take pos)).bind fun date =>
      match s.drop (pos + 1) with
      | [] => some ⟨date.1, date.2.1, date.2.2, 0, 0, 0, 0, none⟩
      | rest =>
        (parseHms (rest.takeWhile fun c => !isZoneStart c)).bind fun t =>
          (parseZone (rest.dropWhile fun c => !isZoneStart c)).map fun z =>
            ⟨date.1, date.2.1, date.2.2, t.1, t.2.1, t.2.2.1, t.2.2.2, z⟩

/-- `datetime.fromisoformat(text)`. -/
def fromisoformat (s : PyStr) : Option Datetime :=
  (parseIso s).bind fun f => if h : f.Valid then some ⟨f, h⟩ else none

/-! ### The round trip -/

theorem num2_pad2 {n : ℕ} (h : n < 100) (s : PyStr) : num2 (pad2 n ++ s) = some (n, s) := by
  simp only [pad2, List.cons_append, List.nil_append, num2, digitVal_digitChar, Option.bind_some,
    Option.map_some, Fin.val_ofNat]
  rw [show 10 * (n / 10 % 10) + n % 10 = n by omega]

theorem num4_pad4 {n : ℕ} (h : n < 10000) (s : PyStr) : num4 (pad4 n ++ s) = some (n, s) := by
  rw [pad4, List.append_assoc, num4, num2_pad2 (by omega), Option.bind_some]
  simp only
  rw [num2_pad2 (by omega), Option.map_some]
  simp only
  rw [show 100 * (n / 100) + n % 100 = n by omega]

/-- The six digits of the microseconds. -/
def microDigits (us : ℕ) : List (Fin 10) :=
  [Fin.ofNat 10 (us / 100000), Fin.ofNat 10 (us / 10000), Fin.ofNat 10 (us / 1000),
    Fin.ofNat 10 (us / 100), Fin.ofNat 10 (us / 10), Fin.ofNat 10 us]

private theorem pad6_eq {us : ℕ} : pad6 us = (microDigits us).map digitChar := by
  have h1 : us / 100 / 100 / 10 % 10 = us / 100000 % 10 := by omega
  have h2 : us / 100 / 100 % 10 = us / 10000 % 10 := by omega
  have h3 : us / 100 % 100 / 10 % 10 = us / 1000 % 10 := by omega
  have h4 : us / 100 % 100 % 10 = us / 100 % 10 := by omega
  have h5 : us % 100 / 10 % 10 = us / 10 % 10 := by omega
  have h6 : us % 100 % 10 = us % 10 := by omega
  have hd : ∀ a b : ℕ, a % 10 = b % 10 → Fin.ofNat 10 a = Fin.ofNat 10 b :=
    fun a b h => Fin.ext h
  simp only [pad6, pad4, pad2, microDigits, List.cons_append, List.nil_append, List.map_cons,
    List.map_nil, hd _ _ h1, hd _ _ h2, hd _ _ h3, hd _ _ h4, hd _ _ h5, hd _ _ h6]

/-- `f"{n:03d}"` of a number below 1000. -/
def pad3 (n : ℕ) : PyStr :=
  [Fin.ofNat 10 (n / 100), Fin.ofNat 10 (n / 10), Fin.ofNat 10 n].map digitChar

theorem parseMicros_pad3 {ms : ℕ} (h : ms < 1000) : parseMicros (pad3 ms) = some (ms * 1000) := by
  have htake := takeDigits_append
    [Fin.ofNat 10 (ms / 100), Fin.ofNat 10 (ms / 10), Fin.ofNat 10 ms] (r := []) trivial
  rw [List.append_nil] at htake
  rw [parseMicros, pad3, htake]
  simp only [List.cons_append, List.nil_append, List.replicate, List.take, natOfDigits,
    List.reverse_cons, List.reverse_nil, List.map_cons, List.map_nil, Nat.ofDigits_cons,
    Nat.ofDigits_nil, Fin.val_ofNat]
  congr 1
  omega

theorem parseMicros_pad6 {us : ℕ} (h : us < 1000000) : parseMicros (pad6 us) = some us := by
  have htake := takeDigits_append (microDigits us) (r := []) trivial
  rw [List.append_nil, ← pad6_eq] at htake
  rw [parseMicros, htake]
  simp only [microDigits, List.cons_append, List.nil_append, List.take, natOfDigits,
    List.reverse_cons, List.reverse_nil, List.map_cons, List.map_nil, Nat.ofDigits_cons,
    Nat.ofDigits_nil, Fin.val_ofNat]
  congr 1
  omega

/-- The code points of a time: digits, colons and a point. -/
private theorem within_pad2 (n : ℕ) : Within 46 58 (pad2 n) :=
  (within_map_digitChar [_, _]).mono (by norm_num) (by norm_num)

private theorem within_microText (us : ℕ) : Within 46 58 (microText us) := by
  unfold microText
  split
  · exact within_nil
  · refine within_append.mpr ⟨by decide, ?_⟩
    rw [pad6_eq]
    exact (within_map_digitChar _).mono (by norm_num) (by norm_num)

private theorem within_timeText (h m : ℕ) {rest : PyStr} (hrest : Within 46 58 rest) :
    Within 46 58 (timeText h m rest) := by
  simp only [timeText, within_append]
  exact ⟨within_pad2 h, by decide, within_pad2 m, hrest⟩

private theorem within_seconds (s us : ℕ) : Within 46 58 (py ":" ++ (pad2 s ++ microText us)) := by
  simp only [within_append]
  exact ⟨by decide, within_pad2 s, within_microText us⟩

/-- Hours and minutes read back before what follows them. -/
private theorem parseHms_timeText {h m : ℕ} (hh : h < 100) (hm : m < 100) :
    parseHms (timeText h m []) = some (h, m, 0, 0) := by
  rw [timeText, List.append_nil, parseHms, num2_pad2 hh, Option.bind_some]
  simp only
  rw [if_neg (by simp [py, pad2])]
  rw [show py ":" = [58] from rfl, List.singleton_append, optional, if_pos rfl]
  simp only
  have := num2_pad2 hm []
  rw [List.append_nil] at this
  rw [this, Option.bind_some]
  simp

/-- A time with seconds reads back, up to what is left for the fraction. -/
private theorem parseHms_rest {h m s : ℕ} (hh : h < 100) (hm : m < 100) (hs : s < 100)
    (rest : PyStr) :
    parseHms (timeText h m (py ":" ++ (pad2 s ++ rest))) =
      match rest with
      | [] => some (h, m, s, 0)
      | c :: r => if c = 46 ∨ c = 44 then (parseMicros r).map fun us => (h, m, s, us) else none := by
  rw [timeText, parseHms, num2_pad2 hh, Option.bind_some]
  simp only
  rw [show py ":" = [58] from rfl, if_neg (by simp), List.singleton_append, optional,
    if_pos rfl]
  simp only
  rw [num2_pad2 hm, Option.bind_some]
  simp only
  rw [if_neg (by simp), if_pos trivial, List.singleton_append, expect, if_pos rfl,
    Option.bind_some, num2_pad2 hs, Option.bind_some]

/-- A time with seconds and microseconds reads back. -/
private theorem parseHms_seconds {h m s us : ℕ} (hh : h < 100) (hm : m < 100) (hs : s < 100)
    (hus : us < 1000000) :
    parseHms (timeText h m (py ":" ++ (pad2 s ++ microText us))) = some (h, m, s, us) := by
  rw [parseHms_rest hh hm hs]
  unfold microText
  split_ifs with h0
  · simp only
    rw [h0]
  · rw [show py "." = [46] from rfl, List.singleton_append]
    simp only
    rw [if_pos (.inl trivial), parseMicros_pad6 hus]
    rfl

private theorem takeWhile_zone {t z : PyStr} (ht : Within 46 58 t)
    (hz : ∀ c ∈ z.head?, isZoneStart c = true) :
    (t ++ z).takeWhile (fun c => !isZoneStart c) = t ∧
      (t ++ z).dropWhile (fun c => !isZoneStart c) = z := by
  have hall : ∀ c ∈ t, (!isZoneStart c) = true := by
    intro c hc
    have := ht c hc
    have h43 : c ≠ 43 := by rintro rfl; exact absurd this (by decide)
    have h45 : c ≠ 45 := by rintro rfl; exact absurd this (by decide)
    have h90 : c ≠ 90 := by rintro rfl; exact absurd this (by decide)
    simp [isZoneStart, h43, h45, h90]
  rw [List.takeWhile_append_of_pos hall, List.dropWhile_append_of_pos hall]
  cases z with
  | nil => simp
  | cons c z =>
    have := hz c rfl
    simp [this]

private theorem zoneStart_offsetText (o : ℤ) :
    ∀ c ∈ (offsetText o).head?, isZoneStart c = true := by
  intro c hc
  unfold offsetText at hc
  split at hc
  · obtain rfl := Option.some.inj hc
    decide
  · obtain rfl := Option.some.inj hc
    decide

private theorem parseHms_offsetTime {n : ℕ} (h : n < 86400000000) :
    parseHms (offsetTime n) = some (n / 1000000 / 3600, n / 1000000 / 60 % 60,
      n / 1000000 % 60, n % 1000000) := by
  unfold offsetTime
  split_ifs with h0
  · rw [parseHms_timeText (by omega) (by omega), h0.1, h0.2]
  · exact parseHms_seconds (by omega) (by omega) (by omega) (by omega)

/-- An offset reads back. -/
private theorem parseZone_offsetText {o : ℤ} (h : -dayMicros < o ∧ o < dayMicros) :
    parseZone (offsetText o) = some (some o) := by
  have hday : o.natAbs < 86400000000 := by
    unfold dayMicros at h
    omega
  have hsum : (o.natAbs / 1000000 / 3600 * 3600 + o.natAbs / 1000000 / 60 % 60 * 60 +
      o.natAbs / 1000000 % 60) * 1000000 + o.natAbs % 1000000 = o.natAbs := by omega
  unfold offsetText
  split_ifs with hneg
  · rw [show py "-" = [45] from rfl, List.singleton_append, parseZone, if_neg (by decide),
      parseHms_offsetTime hday, Option.map_some]
    simp only
    rw [if_pos trivial, hsum]
    congr 2
    omega
  · rw [show py "+" = [43] from rfl, List.singleton_append, parseZone, if_neg (by decide),
      parseHms_offsetTime hday, Option.map_some]
    simp only
    rw [if_neg (by decide), hsum]
    congr 2
    omega

/-- A date reads back. -/
private theorem parseDate_isoformat {y m d : ℕ} (hy : y < 10000) (hm : m < 100) (hd : d < 100) :
    parseDate (pad4 y ++ (py "-" ++ (pad2 m ++ (py "-" ++ pad2 d)))) = some (y, m, d) := by
  have hdig : digitChar (Fin.ofNat 10 (m / 10)) ≠ 87 := by
    intro h
    have := congrArg Fin.val h
    have hlt := (Fin.ofNat 10 (m / 10)).isLt
    simp only [digitChar] at this
    omega
  have hday := num2_pad2 hd []
  rw [List.append_nil] at hday
  rw [parseDate, num4_pad4 hy, Option.bind_some]
  simp only
  rw [show py "-" = [45] from rfl, List.singleton_append, optional, if_pos rfl]
  simp only
  rw [pad2, List.cons_append, optional, if_neg hdig]
  simp only [Bool.false_eq_true, if_false]
  rw [← List.cons_append, ← pad2, num2_pad2 hm, Option.bind_some]
  simp only [if_true]
  rw [List.singleton_append, expect, if_pos rfl, Option.bind_some, hday, Option.bind_some]
  simp

/-- The separator of an `isoformat` text is the eleventh code point. -/
private theorem findSeparator_isoformat {y m d : ℕ} (c : CodePoint) (r : PyStr) :
    findSeparator ((pad4 y ++ (py "-" ++ (pad2 m ++ (py "-" ++ pad2 d)))) ++ c :: r) = some 10 := by
  have hdig : digitChar (Fin.ofNat 10 (m / 10)) ≠ 87 := by
    intro h
    have := congrArg Fin.val h
    have hlt := (Fin.ofNat 10 (m / 10)).isLt
    simp only [digitChar] at this
    omega
  have h4 : ((pad4 y ++ (py "-" ++ (pad2 m ++ (py "-" ++ pad2 d)))) ++ c :: r)[4]?
      = some 45 := rfl
  have h5 : ((pad4 y ++ (py "-" ++ (pad2 m ++ (py "-" ++ pad2 d)))) ++ c :: r)[5]?
      = some (digitChar (Fin.ofNat 10 (m / 10))) := rfl
  unfold findSeparator
  rw [if_neg (by simp [pad4, pad2, show py "-" = [45] from rfl]), if_pos h4, h5, if_neg (by simpa using hdig)]

private theorem drop_separator {date rest : PyStr} {c : CodePoint} (h : date.length = 10) :
    (date ++ c :: rest).drop (10 + 1) = rest := by
  rw [← List.singleton_append, ← List.append_assoc]
  exact List.drop_left' (by simp [h])

/-- A date, a time and a zone read back from a text of the three. -/
private theorem parseIso_text {y m d : ℕ} {time zone : PyStr} {t : ℕ × ℕ × ℕ × ℕ} {z : Option ℤ}
    (hy : y < 10000) (hm : m < 100) (hd : d < 100) (htime : Within 46 58 time)
    (hnil : time ≠ []) (hzone : ∀ c ∈ zone.head?, isZoneStart c = true)
    (ht : parseHms time = some t) (hz : parseZone zone = some z) :
    parseIso ((pad4 y ++ (py "-" ++ (pad2 m ++ (py "-" ++ pad2 d)))) ++ 84 :: (time ++ zone))
      = some ⟨y, m, d, t.1, t.2.1, t.2.2.1, t.2.2.2, z⟩ := by
  have hlen : (pad4 y ++ (py "-" ++ (pad2 m ++ (py "-" ++ pad2 d)))).length = 10 := rfl
  obtain ⟨htake, hdrop⟩ := takeWhile_zone htime hzone
  rw [parseIso, if_neg (by simp [pad4, pad2, show py "-" = [45] from rfl]), findSeparator_isoformat,
    Option.bind_some, List.take_left' hlen, parseDate_isoformat hy hm hd, Option.bind_some,
    drop_separator hlen]
  split
  · next happend => exact absurd (List.append_eq_nil_iff.mp happend).1 hnil
  · rw [htake, hdrop, ht, Option.bind_some, hz]
    rfl

theorem daysInMonth_le (y m : ℕ) : daysInMonth y m ≤ 31 := by
  unfold daysInMonth
  split_ifs <;> omega

/-- **A `datetime` reads back from its text.** -/
theorem fromisoformat_isoformat (d : Datetime) : fromisoformat d.isoformat = some d := by
  obtain ⟨f, hf⟩ := d
  have hv := hf
  obtain ⟨⟨-, hy⟩, ⟨-, hm⟩, ⟨-, hday⟩, hh, hmin, hs, hus, hoff⟩ := hf
  have hdays := daysInMonth_le f.year f.month
  have hzone : ∀ c ∈ (match f.offset with
      | some o => offsetText o
      | none => []).head?, isZoneStart c = true := by
    cases f.offset with
    | none => simp
    | some o => exact zoneStart_offsetText o
  have hz : parseZone (match f.offset with
      | some o => offsetText o
      | none => []) = some f.offset := by
    cases ho : f.offset with
    | none => rfl
    | some o =>
      rw [ho] at hoff
      exact parseZone_offsetText hoff
  have htext : f.isoformat = (pad4 f.year ++ (py "-" ++ (pad2 f.month ++ (py "-" ++ pad2 f.day))))
      ++ 84 :: (timeText f.hour f.minute (py ":" ++ (pad2 f.second ++ microText f.microsecond)) ++
        match f.offset with
        | some o => offsetText o
        | none => []) := by
    simp only [Fields.isoformat, List.append_assoc]
    rfl
  have hiso : parseIso f.isoformat = some f := by
    rw [htext]
    exact parseIso_text (by omega) (by omega) (by omega)
      (within_timeText _ _ (within_seconds _ _)) (by simp [timeText, pad2]) hzone
      (parseHms_seconds (by omega) (by omega) (by omega) hus) hz
  rw [fromisoformat, Datetime.isoformat, hiso, Option.bind_some, dif_pos hv]

/-! ### Milliseconds -/

/-- The date and the time with three digits of the second. -/
def Datetime.millisText (d : Datetime) : PyStr :=
  (pad4 d.val.year ++ (py "-" ++ (pad2 d.val.month ++ (py "-" ++ pad2 d.val.day)))) ++
    84 :: timeText d.val.hour d.val.minute
      (py ":" ++ (pad2 d.val.second ++ (py "." ++ pad3 (d.val.microsecond / 1000))))

/-- The `datetime` in UTC at the last whole millisecond. -/
def Datetime.millis (d : Datetime) : Datetime :=
  ⟨{ d.val with microsecond := d.val.microsecond / 1000 * 1000, offset := some 0 }, by
    obtain ⟨hy, hm, hd, hh, hmin, hs, hus, -⟩ := d.property
    exact ⟨hy, hm, hd, hh, hmin, hs, by dsimp only; omega, by simp [dayMicros]⟩⟩

/-- The text of a `datetime` is not empty. -/
theorem isoformat_ne_nil (d : Datetime) : d.isoformat ≠ [] := by
  intro hnil
  have hparse := fromisoformat_isoformat d
  have hempty : fromisoformat [] = none := by decide
  rw [hnil, hempty] at hparse
  cases hparse

/-- The text is printable ASCII without a `Z`. -/
theorem within_millisText (d : Datetime) : Within 43 89 d.millisText := by
  have h2 : ∀ n, Within 43 89 (pad2 n) := fun n => (within_pad2 n).mono (by norm_num) (by norm_num)
  have h3 : ∀ n, Within 43 89 (pad3 n) := fun n =>
    (within_map_digitChar _).mono (by norm_num) (by norm_num)
  have hlit : Within 43 89 (py "-") ∧ Within 43 89 (py ":") ∧ Within 43 89 (py ".") := by decide
  have htime : ∀ h m s ms, Within 43 89 (timeText h m (py ":" ++ (pad2 s ++ (py "." ++ pad3 ms)))) := by
    intro h m s ms
    simp only [timeText, within_append]
    exact ⟨h2 h, hlit.2.1, h2 m, hlit.2.1, h2 s, hlit.2.2, h3 ms⟩
  rw [Datetime.millisText, ← List.singleton_append]
  simp only [pad4, within_append]
  exact ⟨⟨⟨h2 _, h2 _⟩, hlit.1, h2 _, hlit.1, h2 _⟩, by decide, htime _ _ _ _⟩

theorem fromisoformat_millisText (d : Datetime) :
    fromisoformat (d.millisText ++ py "+00:00") = some d.millis := by
  obtain ⟨⟨-, hy⟩, ⟨-, hm⟩, ⟨-, hday⟩, hh, hmin, hs, hus, -⟩ := d.property
  have hdays := daysInMonth_le d.val.year d.val.month
  have htime : Within 46 58 (timeText d.val.hour d.val.minute
      (py ":" ++ (pad2 d.val.second ++ (py "." ++ pad3 (d.val.microsecond / 1000))))) := by
    apply within_timeText
    simp only [within_append]
    exact ⟨by decide, within_pad2 _, by decide,
      (within_map_digitChar _).mono (by norm_num) (by norm_num)⟩
  have hhms : parseHms (timeText d.val.hour d.val.minute
      (py ":" ++ (pad2 d.val.second ++ (py "." ++ pad3 (d.val.microsecond / 1000)))))
      = some (d.val.hour, d.val.minute, d.val.second, d.val.microsecond / 1000 * 1000) := by
    rw [parseHms_rest (by omega) (by omega) (by omega), show py "." = [46] from rfl,
      List.singleton_append]
    simp only
    rw [if_pos (.inl trivial), parseMicros_pad3 (by omega)]
    rfl
  have hiso : parseIso (d.millisText ++ py "+00:00") = some d.millis.val := by
    rw [Datetime.millisText, show py "+00:00" = offsetText 0 from rfl, List.append_assoc,
      List.cons_append]
    exact parseIso_text (by omega) (by omega) (by omega) htime (by simp [timeText, pad2])
      (zoneStart_offsetText 0) hhms (parseZone_offsetText (by simp [dayMicros]))
  rw [fromisoformat, hiso, Option.bind_some, dif_pos d.millis.property]

/-- The text is printable ASCII. -/
theorem within_isoformat (d : Datetime) : Within 43 90 d.isoformat := by
  have hlit : Within 43 90 (py "-") ∧ Within 43 90 (py "T") ∧ Within 43 90 (py "+") := by decide
  have h2 : ∀ n, Within 43 90 (pad2 n) := fun n => (within_pad2 n).mono (by norm_num) (by norm_num)
  have htime : ∀ {t}, Within 46 58 t → Within 43 90 t :=
    fun h => h.mono (by norm_num) (by norm_num)
  simp only [Datetime.isoformat, Fields.isoformat, pad4, within_append]
  refine ⟨⟨h2 _, h2 _⟩, hlit.1, h2 _, hlit.1, h2 _, hlit.2.1,
    htime (within_timeText _ _ (within_seconds _ _)), ?_⟩
  cases d.val.offset with
  | none => exact within_nil
  | some o =>
    simp only [offsetText, offsetTime, within_append]
    refine ⟨by split <;> simp [hlit], htime (within_timeText _ _ ?_)⟩
    split
    · exact within_nil
    · exact within_seconds _ _

theorem encodable_isoformat (d : Datetime) : Encodable d.isoformat :=
  (within_isoformat d).encodable (by norm_num)

end Py
