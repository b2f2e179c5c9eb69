import Daryl.Dsm.Anchor
import Daryl.Mvx.Schemas

/-!
# `dsm.multiversx.regime`: the detection of the regime

The detector answers from its cache while that is fresh, else from the network, else from the
cache however old, else with `supernova`.  The network is asked inside a guard.  The cache is
not: its file is decoded, and its times are compared, where only some of what can go wrong is
handled.

## Main definitions

* `Interpreter` — what the interpreter does where the values are not plain.
* `detectRegime`, `verdictFromConfig` — what a config says.
* `RegimeCache`, `loadFromDisk`, `RegimeCache.get`, `RegimeCache.put` — the cache and its file.
* `current` — one call of the detector.

## Main results

* `isFresh_iff` — when the age of an entry is compared.
* `fetchVerdict_spec` — the network part raises nothing, and what it leaves is what the config
  says.
* `current_verdict_iff` — **when a call returns a verdict**, and that it then says `andromeda` only if a
  config or the cache does.
-/

namespace Daryl

open Py Json

namespace Mvx

variable {F : Type}

/-- What the interpreter does where the values are not plain. -/
structure Interpreter (F : Type) where
  /-- `json.loads` stops at a limit on this text: the digits of an integer, or the depth. -/
  stops : PyStr → Bool
  /-- `n - x` for a float; `none` is the `OverflowError`. -/
  sub : ℤ → FloatVal F → Option (FloatVal F)
  /-- `str(v)`; `none` is an exception. -/
  str : PyVal F → Option PyStr

/-! ### What a config says -/

/-- `ANDROMEDA_ROUND_DURATION_MS`. -/
def andromedaRoundDurationMs : ℤ := 6000

/-- `SUPERNOVA_ROUND_DURATION_MS`. -/
def supernovaRoundDurationMs : ℤ := 600

/-- `_DEFAULT_ROUNDS_PER_EPOCH`. -/
def defaultRoundsPerEpoch : ℤ := 14400

/-- The digits an integer may have in a text. -/
def maxStrDigits : ℕ := 4300

/-- A regime as it is written. -/
def EpochRegime.word : EpochRegime → PyStr
  | .andromeda => py "andromeda"
  | .supernova => py "supernova"

/-- `RegimeVerdict`.  One that comes from the cache file has the fields it has there. -/
structure RegimeVerdict (F : Type) where
  regime : PyVal F
  roundDurationMs : PyVal F
  chainId : PyVal F
  source : PyVal F
  capturedAtMs : PyVal F
  epochNumber : PyVal F
  deriving DecidableEq

/-- A text without its underscores, each of which stands between two digits. -/
def dropUnderscores : Bool → PyStr → Option PyStr
  | _, [] => some []
  | afterDigit, c :: r =>
    if c = 95 then
      if afterDigit && (r.head?.bind decimalVal).isSome then dropUnderscores false r else none
    else (dropUnderscores (decimalVal c).isSome r).map (c :: ·)

/-- `int(text)`; `none` is the `ValueError`. -/
def intOfText (s : PyStr) : Option ℤ :=
  match dropUnderscores false (strip s) with
  | none => none
  | some t => if (t.filter fun c => (decimalVal c).isSome).length ≤ maxStrDigits then pyInt t else none

/-- `_coerce_round_duration`: an integer or the text of one.  The texts of all other values hold
something else than digits. -/
def coerceRoundDuration : PyVal F → Option ℤ
  | .str s => intOfText s
  | .int n => if (natStr n.natAbs).length ≤ maxStrDigits then some n else none
  | _ => none

/-- `detect_regime`; `none` is the `PayloadError`. -/
def detectRegime : PyVal F → Option EpochRegime
  | .dict kvs =>
    if coerceRoundDuration (getNone (py "erd_round_duration") kvs) = some andromedaRoundDurationMs
    then some .andromeda
    else some .supernova
  | _ => none

/-- The round duration of a verdict. -/
def roundDurationOf (regime : EpochRegime) (kvs : List (Key F × PyVal F)) : ℤ :=
  match coerceRoundDuration (getNone (py "erd_round_duration") kvs) with
  | some d =>
    if d < 1 then
      match regime with
      | .andromeda => andromedaRoundDurationMs
      | .supernova => supernovaRoundDurationMs
    else d
  | none =>
    match regime with
    | .andromeda => andromedaRoundDurationMs
    | .supernova => supernovaRoundDurationMs

/-- `_ttl_from_config`. -/
def ttlFromConfig (kvs : List (Key F × PyVal F)) (roundDurationMs : ℤ) : ℤ :=
  let roundsPerEpoch :=
    match coerceRoundDuration (getNone (py "erd_rounds_per_epoch") kvs) with
    | some n => if n < 1 then defaultRoundsPerEpoch else n
    | none => defaultRoundsPerEpoch
  roundsPerEpoch * max roundDurationMs 1

/-- `str(v)`, for a text the text itself. -/
def Interpreter.strOf (interp : Interpreter F) : PyVal F → Option PyStr
  | .str s => some s
  | v => interp.str v

/-- `_verdict_from_config`, with the TTL of the verdict; `none` is an exception. -/
def verdictFromConfig (interp : Interpreter F) (config : PyVal F) (source : PyStr) (nowMs : ℤ) :
    Option (RegimeVerdict F × ℤ) :=
  match config with
  | .dict kvs =>
    match detectRegime config with
    | none => none
    | some regime =>
      match interp.strOf ((dictGet (py "erd_chain_id") kvs).getD (.str [])) with
      | none => none
      | some chainId =>
        let d := roundDurationOf regime kvs
        some (⟨.str regime.word, .int d, .str chainId, .str source, .int nowMs, .none⟩,
          ttlFromConfig kvs d)
  | _ => none

/-- **The config says `andromeda`.** -/
def ConfigSays (config : PyVal F) : Prop :=
  ∃ kvs, config = .dict kvs ∧
    coerceRoundDuration (getNone (py "erd_round_duration") kvs) = some andromedaRoundDurationMs

/-- The verdict says `andromeda`. -/
def RegimeVerdict.Says (v : RegimeVerdict F) : Prop := v.regime = .str (py "andromeda")

/-! ### The cache -/

/-- What a call can raise. -/
inductive Raised
  | unicodeDecodeError
  | limit
  | typeError
  | overflowError
  | valueError
  deriving DecidableEq

/-- `_CachedVerdict`. -/
structure CachedVerdict (F : Type) where
  verdict : RegimeVerdict F
  cachedAtMs : PyVal F
  ttlMs : PyVal F

section

variable [PyFloat F]

/-- `now_ms - self.cached_at_ms`. -/
def difference (interp : Interpreter F) (nowMs : ℤ) : PyVal F → Except Raised (PyVal F)
  | .int n => .ok (.int (nowMs - n))
  | .bool b => .ok (.int (nowMs - if b then 1 else 0))
  | .float x =>
    match interp.sub nowMs x with
    | some y => .ok (.float y)
    | none => .error .overflowError
  | _ => .error .typeError

/-- `_CachedVerdict.is_fresh`. -/
def CachedVerdict.isFresh (interp : Interpreter F) (nowMs : ℤ) (entry : CachedVerdict F) :
    Except Raised Bool :=
  match difference interp nowMs entry.cachedAtMs with
  | .error err => .error err
  | .ok age =>
    match Anchor.pyLt age entry.ttlMs with
    | some b => .ok b
    | none => .error .typeError

/-- `_cached_verdict_to_dict`. -/
def CachedVerdict.toDict (entry : CachedVerdict F) : PyVal F :=
  .dict [
    (.str (py "verdict"), .dict [
      (.str (py "regime"), entry.verdict.regime),
      (.str (py "round_duration_ms"), entry.verdict.roundDurationMs),
      (.str (py "chain_id"), entry.verdict.chainId),
      (.str (py "source"), entry.verdict.source),
      (.str (py "captured_at_ms"), entry.verdict.capturedAtMs),
      (.str (py "epoch_number"), entry.verdict.epochNumber)]),
    (.str (py "cached_at_ms"), entry.cachedAtMs),
    (.str (py "ttl_ms"), entry.ttlMs)]

/-- `v[k]`; `none` is a `KeyError` or a `TypeError`. -/
def subscript (k : PyStr) : PyVal F → Option (PyVal F)
  | .dict kvs => dictGet k kvs
  | _ => none

/-- `_cached_verdict_from_dict`; `none` is a `KeyError` or a `TypeError`. -/
def cachedVerdictFromDict (payload : PyVal F) : Option (CachedVerdict F) :=
  match subscript (py "verdict") payload with
  | some (.dict v) =>
    match dictGet (py "regime") v, dictGet (py "round_duration_ms") v, dictGet (py "chain_id") v,
      dictGet (py "source") v, dictGet (py "captured_at_ms") v,
      subscript (py "cached_at_ms") payload, subscript (py "ttl_ms") payload with
    | some regime, some roundDurationMs, some chainId, some source, some capturedAtMs,
      some cachedAtMs, some ttlMs =>
      some ⟨⟨regime, roundDurationMs, chainId, source, capturedAtMs,
        getNone (py "epoch_number") v⟩, cachedAtMs, ttlMs⟩
    | _, _, _, _, _, _, _ => none
  | _ => none

/-- The file of the cache; one that is `unreadable` raises an `OSError`. -/
inductive CacheFile
  | absent
  | unreadable
  | bytes (bs : List Byte)

/-- `RegimeCache`, with its file. -/
structure RegimeCache (F : Type) where
  file : CacheFile
  inMemory : Option (CachedVerdict F)
  loadedFromDisk : Bool

/-- `_load_from_disk`: a text that is not JSON, or not an entry, leaves the cache empty. -/
def loadFromDisk (interp : Interpreter F) (c : RegimeCache F) :
    Except Raised Unit × RegimeCache F :=
  match c.file with
  | .bytes bs =>
    match decodeUtf8 bs with
    | none => (.error .unicodeDecodeError, { c with loadedFromDisk := true })
    | some text =>
      if interp.stops text then (.error .limit, { c with loadedFromDisk := true })
      else (.ok (), { c with
        loadedFromDisk := true
        inMemory := (loads (universalNewlines false text)).bind cachedVerdictFromDict })
  | _ => (.ok (), { c with loadedFromDisk := true })

/-- The load of the first use. -/
def RegimeCache.loaded (interp : Interpreter F) (c : RegimeCache F) :
    Except Raised Unit × RegimeCache F :=
  if c.loadedFromDisk then (.ok (), c) else loadFromDisk interp c

/-- `RegimeCache.get`. -/
def RegimeCache.get (interp : Interpreter F) (nowMs : ℤ) (c : RegimeCache F) :
    Except Raised (Option (RegimeVerdict F)) × RegimeCache F :=
  match c.loaded interp with
  | (.error err, c) => (.error err, c)
  | (.ok (), c) =>
    match c.inMemory with
    | none => (.ok none, c)
    | some entry =>
      match entry.isFresh interp nowMs with
      | .error err => (.error err, c)
      | .ok fresh => (.ok (if fresh then some entry.verdict else none), c)

/-- `RegimeCache.get_stale`. -/
def RegimeCache.getStale (interp : Interpreter F) (c : RegimeCache F) :
    Except Raised (Option (RegimeVerdict F)) × RegimeCache F :=
  match c.loaded interp with
  | (.error err, c) => (.error err, c)
  | (.ok (), c) => (.ok (c.inMemory.map CachedVerdict.verdict), c)

/-- How a write of the file goes: the directory is there, and the file is replaced. -/
structure DiskWrite where
  mkdir : Bool
  replace : Bool

/-- An integer whose text has no more digits than one may have. -/
def printable : PyVal F → Bool
  | .int n => (natStr n.natAbs).length ≤ maxStrDigits
  | _ => true

/-- `RegimeCache.put`: the entry is in memory before it is written. -/
def RegimeCache.put (nowMs : ℤ) (disk : DiskWrite) (verdict : RegimeVerdict F) (ttlMs : ℤ)
    (c : RegimeCache F) : Except Raised Unit × RegimeCache F :=
  let entry : CachedVerdict F := ⟨verdict, .int nowMs, .int ttlMs⟩
  let c := { c with inMemory := some entry, loadedFromDisk := true }
  if disk.mkdir = false then (.ok (), c)
  else if [verdict.roundDurationMs, verdict.capturedAtMs, entry.cachedAtMs, entry.ttlMs].all
      printable then
    match dumps ⟨true, true, true⟩ entry.toDict with
    | .error _ => (.error .valueError, c)
    | .ok text =>
      match encodeUtf8 text with
      | none => (.error .valueError, c)
      | some bs => (.ok (), if disk.replace then { c with file := .bytes bs } else c)
  else (.error .valueError, c)

/-! ### The detector -/

/-- What one call meets: the clocks, the network and the disk.  The fetcher raises where nothing
is `fetched`. -/
structure Surroundings (F : Type) where
  freshNow : ℤ
  now : ℤ
  putNow : ℤ
  fetched : Option (PyVal F)
  disk : DiskWrite

/-- `_fail_closed`. -/
def failClosed (nowMs : ℤ) : RegimeVerdict F :=
  ⟨.str EpochRegime.supernova.word, .int supernovaRoundDurationMs, .str [],
    .str (py "fail_closed_default"), .int nowMs, .none⟩

/-- The guarded part of `current`; `none` is an exception. -/
def fetchVerdict (interp : Interpreter F) (w : Surroundings F) (c : RegimeCache F) :
    Option (RegimeVerdict F) × RegimeCache F :=
  match w.fetched with
  | none => (none, c)
  | some config =>
    match verdictFromConfig interp config (py "network_config") w.now with
    | none => (none, c)
    | some (verdict, ttlMs) =>
      match c.put w.putNow w.disk verdict ttlMs with
      | (.error _, c) => (none, c)
      | (.ok (), c) => (some verdict, c)

/-- The part of `current` after the cache: the network, else the cache however old, else the
default. -/
def answer (interp : Interpreter F) (w : Surroundings F) (c : RegimeCache F) :
    Except Raised (RegimeVerdict F) × RegimeCache F :=
  match fetchVerdict interp w c with
  | (some verdict, c) => (.ok verdict, c)
  | (none, c) =>
    match c.getStale interp with
    | (.error err, c) => (.error err, c)
    | (.ok (some stale), c) =>
      (.ok { stale with source := .str (py "cache"), epochNumber := .none }, c)
    | (.ok none, c) => (.ok (failClosed w.now), c)

/-- `RegimeDetector.current`. -/
def current (interp : Interpreter F) (w : Surroundings F) (c : RegimeCache F) :
    Except Raised (RegimeVerdict F) × RegimeCache F :=
  match c.get interp w.freshNow with
  | (.error err, c) => (.error err, c)
  | (.ok (some fresh), c) => (.ok fresh, c)
  | (.ok none, c) => answer interp w c

/-! ### What the cache gives -/

/-- A number. -/
def IsNumber : PyVal F → Prop
  | .int _ => True
  | .bool _ => True
  | .float _ => True
  | _ => False

/-- **The times of the entry compare**: both are numbers, and a float is not taken from a reading
beyond the floats. -/
def CachedVerdict.Comparable (interp : Interpreter F) (nowMs : ℤ) (entry : CachedVerdict F) : Prop :=
  IsNumber entry.cachedAtMs ∧ IsNumber entry.ttlMs ∧
    ∀ x, entry.cachedAtMs = .float x → (interp.sub nowMs x).isSome = true

/-- **The file can be read as a text of JSON, or as none**: it decodes, and the text is within
the limits of the interpreter. -/
def CacheFile.Decodes (interp : Interpreter F) (file : CacheFile) : Prop :=
  ∀ bs, file = .bytes bs → ∃ text, decodeUtf8 bs = some text ∧ interp.stops text = false

/-- **The entry that a cache has for a call**: the one in memory, and at the first load the one
of the file. -/
def RegimeCache.entry (c : RegimeCache F) : Option (CachedVerdict F) :=
  if c.loadedFromDisk then c.inMemory
  else
    match c.file with
    | .bytes bs =>
      (decodeUtf8 bs).bind fun text =>
        (loads (universalNewlines false text)).bind cachedVerdictFromDict
    | _ => c.inMemory

/-- A number is what compares with a number. -/
theorem pyLt_isSome_iff {age ttl : PyVal F} (hage : IsNumber age) :
    (Anchor.pyLt age ttl).isSome = true ↔ IsNumber ttl := by
  have hnumber : ∀ v : PyVal F, IsNumber v ↔ (v.isNan || v.num?.isSome) = true := by
    intro v
    cases v with
    | float x => cases x <;> simp [IsNumber, PyVal.isNan, PyVal.num?]
    | _ => simp [IsNumber, PyVal.isNan, PyVal.num?]
  have hlt : ∀ v w : PyVal F, IsNumber v → Anchor.pyLt v w =
      if (v.isNan || v.num?.isSome) && (w.isNan || w.num?.isSome) then
        some ((v.num?.bind fun x => w.num?.map fun y => decide (x < y)).getD false)
      else none := by
    intro v w hv
    cases v with
    | int n => cases w <;> rfl
    | bool b => cases w <;> rfl
    | float x => cases w <;> rfl
    | none | str _ | list _ | tuple _ | dict _ => exact hv.elim
  rw [hlt age ttl hage, (hnumber age).mp hage, Bool.true_and, hnumber ttl]
  split_ifs with h
  · simp [h]
  · simp [h]

/-- **When the age of an entry is compared.** -/
theorem CachedVerdict.isFresh_iff (interp : Interpreter F) (nowMs : ℤ) (entry : CachedVerdict F) :
    (∃ b, entry.isFresh interp nowMs = .ok b) ↔ entry.Comparable interp nowMs := by
  -- where there is an age it is a number, so the comparison hangs on the TTL
  have hage : ∀ age, difference interp nowMs entry.cachedAtMs = .ok age → IsNumber age →
      ((∃ b, entry.isFresh interp nowMs = .ok b) ↔ IsNumber entry.ttlMs) := by
    intro age hdiff hnumber
    rw [← pyLt_isSome_iff hnumber, isFresh, hdiff]
    dsimp only
    cases Anchor.pyLt age entry.ttlMs with
    | some b => exact ⟨fun _ => rfl, fun _ => ⟨b, rfl⟩⟩
    | none =>
      constructor
      · rintro ⟨b, hb⟩
        exact nomatch hb
      · exact fun h => nomatch h
  have hfails : ∀ err, difference interp nowMs entry.cachedAtMs = .error err →
      ¬∃ b, entry.isFresh interp nowMs = .ok b := by
    rintro err hdiff ⟨b, hb⟩
    rw [isFresh, hdiff] at hb
    exact nomatch hb
  rw [Comparable]
  cases hat : entry.cachedAtMs with
  | int n =>
    rw [hage (.int (nowMs - n)) (by rw [hat]; rfl) trivial]
    exact ⟨fun h => ⟨trivial, h, fun x hx => nomatch hx⟩, fun h => h.2.1⟩
  | bool b =>
    rw [hage (.int (nowMs - if b then 1 else 0)) (by rw [hat]; rfl) trivial]
    exact ⟨fun h => ⟨trivial, h, fun x hx => nomatch hx⟩, fun h => h.2.1⟩
  | float x =>
    cases hsub : interp.sub nowMs x with
    | some y =>
      rw [hage (.float y) (by rw [hat, difference, hsub]) trivial]
      constructor
      · intro h
        refine ⟨trivial, h, ?_⟩
        rintro x' ⟨⟩
        rw [hsub]
        rfl
      · exact fun h => h.2.1
    | none =>
      constructor
      · intro h
        exact absurd h (hfails .overflowError (by rw [hat, difference, hsub]))
      · intro h
        have hsome := h.2.2 x rfl
        rw [hsub] at hsome
        exact nomatch hsome
  | none | str _ | list _ | tuple _ | dict _ =>
    constructor
    · intro h
      exact absurd h (hfails .typeError (by rw [hat]; rfl))
    · exact fun h => h.1.elim

/-- A file that decodes is loaded. -/
theorem RegimeCache.loaded_of_decodes {interp : Interpreter F} {c : RegimeCache F}
    (h : c.loadedFromDisk = false → c.file.Decodes interp) :
    c.loaded interp = (.ok (), { c with loadedFromDisk := true, inMemory := c.entry }) := by
  rw [loaded, entry]
  by_cases hl : c.loadedFromDisk = true
  · rw [if_pos hl, if_pos hl]
    cases c
    subst hl
    rfl
  · rw [if_neg hl, if_neg hl]
    have hdecodes := h (by simpa using hl)
    unfold loadFromDisk
    cases hfile : c.file with
    | bytes bs =>
      obtain ⟨text, hdecode, hstops⟩ := hdecodes bs hfile
      simp only [hdecode, hstops, Bool.false_eq_true, if_false, Option.bind_some]
    | absent => rfl
    | unreadable => rfl

/-- One that does not raises. -/
theorem RegimeCache.loaded_of_not_decodes {interp : Interpreter F} {c : RegimeCache F}
    (h : ¬(c.loadedFromDisk = false → c.file.Decodes interp)) :
    ∃ err c', c.loaded interp = (.error err, c') := by
  rw [Classical.not_imp] at h
  obtain ⟨hl, hnot⟩ := h
  rw [loaded, if_neg (by rw [hl]; exact Bool.false_ne_true)]
  unfold loadFromDisk
  cases hfile : c.file with
  | bytes bs =>
    dsimp only
    cases hdecode : decodeUtf8 bs with
    | none => exact ⟨_, _, rfl⟩
    | some text =>
      dsimp only
      cases hstops : interp.stops text with
      | true => exact ⟨_, _, rfl⟩
      | false =>
        -- such a file decodes
        refine absurd ?_ hnot
        intro bs' hbs'
        rw [hfile] at hbs'
        cases hbs'
        exact ⟨text, hdecode, hstops⟩
  | absent => exact absurd (fun bs hbs => by rw [hfile] at hbs; exact nomatch hbs) hnot
  | unreadable => exact absurd (fun bs hbs => by rw [hfile] at hbs; exact nomatch hbs) hnot

/-! ### What a call returns -/

omit [PyFloat F] in
/-- A word is the text of one regime. -/
theorem word_eq_iff (regime : EpochRegime) :
    (PyVal.str regime.word : PyVal F) = .str (py "andromeda") ↔ regime = .andromeda := by
  have hwords : EpochRegime.supernova.word ≠ EpochRegime.andromeda.word := by decide
  cases regime with
  | andromeda => exact ⟨fun _ => rfl, fun _ => rfl⟩
  | supernova =>
    constructor
    · intro h
      exact absurd (PyVal.str.inj h) hwords
    · exact fun h => nomatch h

omit [PyFloat F] in
/-- A verdict of a config says what the config says. -/
theorem says_of_verdictFromConfig {interp : Interpreter F} {config : PyVal F} {source : PyStr}
    {nowMs : ℤ} {verdict : RegimeVerdict F} {ttlMs : ℤ}
    (h : verdictFromConfig interp config source nowMs = some (verdict, ttlMs)) :
    verdict.Says → ConfigSays config := by
  intro hsaid
  cases config with
  | dict kvs =>
    refine ⟨kvs, rfl, ?_⟩
    by_contra hnot
    have hregime : detectRegime (.dict kvs) = some .supernova := if_neg hnot
    rw [verdictFromConfig, hregime] at h
    dsimp only at h
    cases hstr : interp.strOf ((dictGet (py "erd_chain_id") kvs).getD (.str [])) with
    | none => rw [hstr] at h; exact nomatch h
    | some chainId =>
      rw [hstr] at h
      obtain ⟨rfl, -⟩ := Prod.mk.inj (Option.some.inj h)
      exact nomatch (word_eq_iff .supernova).mp hsaid
  | _ => exact nomatch h

/-- A `put` leaves its verdict in memory, whether it raises or not. -/
theorem RegimeCache.put_spec (nowMs : ℤ) (disk : DiskWrite) (verdict : RegimeVerdict F)
    (ttlMs : ℤ) (c : RegimeCache F) :
    (c.put nowMs disk verdict ttlMs).2.inMemory = some ⟨verdict, .int nowMs, .int ttlMs⟩ ∧
      (c.put nowMs disk verdict ttlMs).2.loadedFromDisk = true := by
  unfold put
  dsimp only
  by_cases hmkdir : disk.mkdir = false
  · rw [if_pos hmkdir]
    exact ⟨rfl, rfl⟩
  · rw [if_neg hmkdir]
    split_ifs with hprintable hreplace
    · split
      · exact ⟨rfl, rfl⟩
      · split
        · exact ⟨rfl, rfl⟩
        · exact ⟨rfl, rfl⟩
    · split
      · exact ⟨rfl, rfl⟩
      · split
        · exact ⟨rfl, rfl⟩
        · exact ⟨rfl, rfl⟩
    · exact ⟨rfl, rfl⟩

/-- **The guarded part leaves the cache as it was, or with a verdict of the config**, and its
verdict is one of the config. -/
theorem fetchVerdict_spec (interp : Interpreter F) (w : Surroundings F) {c : RegimeCache F}
    (hloaded : c.loadedFromDisk = true) :
    (fetchVerdict interp w c).2.loadedFromDisk = true ∧
      (∀ verdict, (fetchVerdict interp w c).1 = some verdict → verdict.Says →
        ∃ config, w.fetched = some config ∧ ConfigSays config) ∧
      ((fetchVerdict interp w c).2.inMemory = c.inMemory ∨
        ∃ entry, (fetchVerdict interp w c).2.inMemory = some entry ∧
          (entry.verdict.Says → ∃ config, w.fetched = some config ∧ ConfigSays config)) := by
  unfold fetchVerdict
  cases hfetched : w.fetched with
  | none =>
    refine ⟨hloaded, ?_, Or.inl rfl⟩
    intro verdict h
    exact nomatch h
  | some config =>
    dsimp only
    cases hverdict : verdictFromConfig interp config (py "network_config") w.now with
    | none =>
      refine ⟨hloaded, ?_, Or.inl rfl⟩
      intro verdict h
      exact nomatch h
    | some p =>
      obtain ⟨verdict, ttlMs⟩ := p
      have hsaid := says_of_verdictFromConfig hverdict
      obtain ⟨hmem, hput⟩ := c.put_spec w.putNow w.disk verdict ttlMs
      dsimp only
      cases hresult : c.put w.putNow w.disk verdict ttlMs with
      | mk result c' =>
        rw [hresult] at hmem hput
        have hentry : ∃ entry, c'.inMemory = some entry ∧
            (entry.verdict.Says → ∃ config', some config = some config' ∧ ConfigSays config') :=
          ⟨_, hmem, fun h => ⟨config, rfl, hsaid h⟩⟩
        cases result with
        | error err =>
          refine ⟨hput, ?_, Or.inr hentry⟩
          intro v h
          exact nomatch h
        | ok u =>
          refine ⟨hput, ?_, Or.inr hentry⟩
          rintro v ⟨⟩ hv
          exact ⟨config, rfl, hsaid hv⟩

/-- **Past the cache nothing raises**, and the answer says what the config or the cache says. -/
theorem answer_spec (interp : Interpreter F) (w : Surroundings F) {c : RegimeCache F}
    (hloaded : c.loadedFromDisk = true) :
    ∃ verdict c', answer interp w c = (.ok verdict, c') ∧
      (verdict.Says → (∃ config, w.fetched = some config ∧ ConfigSays config) ∨
        ∃ entry, c.inMemory = some entry ∧ entry.verdict.Says) := by
  obtain ⟨hl, hverdict, hmem⟩ := fetchVerdict_spec interp w hloaded
  unfold answer
  cases hfetch : fetchVerdict interp w c with
  | mk result c' =>
    rw [hfetch] at hl hverdict hmem
    cases result with
    | some verdict => exact ⟨verdict, c', rfl, fun h => Or.inl (hverdict verdict rfl h)⟩
    | none =>
      have hstale : c'.getStale interp = (.ok (c'.inMemory.map CachedVerdict.verdict), c') := by
        rw [RegimeCache.getStale, RegimeCache.loaded, if_pos hl]
      dsimp only
      rw [hstale]
      cases hentry : c'.inMemory with
      | none =>
        refine ⟨failClosed w.now, c', rfl, ?_⟩
        intro h
        exact nomatch (word_eq_iff .supernova).mp h
      | some entry =>
        refine ⟨{ entry.verdict with source := .str (py "cache"), epochNumber := .none }, c', rfl, ?_⟩
        intro h
        -- what is in memory now was there before, or it comes from the config
        rcases hmem with hsame | ⟨entry', hentry', hsaid⟩
        · exact Or.inr ⟨entry, hsame.symm.trans hentry, h⟩
        · obtain rfl := Option.some.inj (hentry.symm.trans hentry')
          exact Or.inl (hsaid h)

/-- **A call returns a verdict, which says `andromeda` only if the config or the cache does, iff
the file can be read at the first load, and the times of the entry compare.** -/
theorem current_verdict_iff (interp : Interpreter F) (w : Surroundings F) (c : RegimeCache F) :
    (∃ verdict c', current interp w c = (.ok verdict, c') ∧
        (verdict.Says → (∃ config, w.fetched = some config ∧ ConfigSays config) ∨
          ∃ entry, c.entry = some entry ∧ entry.verdict.Says)) ↔
      (c.loadedFromDisk = false → c.file.Decodes interp) ∧
        ∀ entry, c.entry = some entry → entry.Comparable interp w.freshNow := by
  by_cases hdecodes : c.loadedFromDisk = false → c.file.Decodes interp
  · have hload := RegimeCache.loaded_of_decodes hdecodes
    rw [and_iff_right hdecodes]
    unfold current RegimeCache.get
    rw [hload]
    cases hentry : c.entry with
    | none =>
      constructor
      · exact fun _ entry h => nomatch h
      · intro _
        obtain ⟨verdict, c', hanswer, hsaid⟩ := answer_spec interp w
          (c := { c with loadedFromDisk := true, inMemory := none }) rfl
        refine ⟨verdict, c', hanswer, ?_⟩
        intro h
        exact hsaid h
    | some entry =>
      dsimp only
      constructor
      · rintro ⟨verdict, c', hcurrent, -⟩ entry' ⟨⟩
        rw [← CachedVerdict.isFresh_iff]
        cases hfresh : entry.isFresh interp w.freshNow with
        | error err => rw [hfresh] at hcurrent; exact nomatch hcurrent
        | ok b => exact ⟨b, rfl⟩
      · intro h
        obtain ⟨b, hb⟩ := (CachedVerdict.isFresh_iff interp w.freshNow entry).mpr (h entry rfl)
        rw [hb]
        cases b with
        | true => exact ⟨entry.verdict, _, rfl, fun hsaid => Or.inr ⟨entry, rfl, hsaid⟩⟩
        | false =>
          obtain ⟨verdict, c', hanswer, hsaid⟩ := answer_spec interp w
            (c := { c with loadedFromDisk := true, inMemory := some entry }) rfl
          refine ⟨verdict, c', hanswer, ?_⟩
          intro h
          exact hsaid h
  · -- the load raises, and with it the call
    obtain ⟨err, c', hload⟩ := RegimeCache.loaded_of_not_decodes hdecodes
    constructor
    · rintro ⟨verdict, c'', hcurrent, -⟩
      unfold current RegimeCache.get at hcurrent
      rw [hload] at hcurrent
      exact nomatch hcurrent
    · exact fun h => absurd h.1 hdecodes

/-- An interpreter for values that are plain. -/
def plainInterpreter : Interpreter FloatLit where
  stops _ := false
  sub _ x := some x
  str _ := none

/-- A call with the network down. -/
def offline : Surroundings FloatLit := ⟨0, 0, 0, none, ⟨true, true⟩⟩

/-- A file whose `cached_at_ms` is `null`. -/
def untimedFile : List Byte := utf8Bytes (
  py "\x7b\"verdict\": \x7b\"regime\": \"supernova\", \"round_duration_ms\": 600, " ++
  py "\"chain_id\": \"1\", \"source\": \"cache\", \"captured_at_ms\": 0\x7d, " ++
  py "\"cached_at_ms\": null, \"ttl_ms\": 1\x7d")

/-- **Two files on which a call raises**: one that is not UTF-8, and one without a time. -/
theorem current_raises :
    (current plainInterpreter offline ⟨.bytes [255], none, false⟩).1 = .error .unicodeDecodeError ∧
      (current plainInterpreter offline ⟨.bytes untimedFile, none, false⟩).1
        = .error .typeError := by
  constructor
  · rfl
  · decide +kernel

end

end Mvx

end Daryl
