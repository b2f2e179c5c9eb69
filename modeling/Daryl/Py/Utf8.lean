import Daryl.Py.Str

/-!
# UTF-8

The encoder behind `str.encode("utf-8")` and a decoder that reads one byte at a
time.  Between bytes the decoder is either at a code point boundary or in the
middle of a sequence, so that what it makes of a file cut at any byte is what
its state says there.

## Main definitions

* `encodeUtf8` — `str.encode("utf-8")`; `none` stands for `UnicodeEncodeError`.
* `decodeUtf8` — `bytes.decode("utf-8")`; `none` stands for `UnicodeDecodeError`.
* `decodeReplace` — `bytes.decode("utf-8", errors="replace")`.

## Main results

* `decodeUtf8_encodeUtf8_append` — decoding inverts encoding, up to any point.
* `utf8Bytes_of_decodeUtf8` — encoding inverts decoding.
* `decodeUtf8_cut` — a text cut inside a code point does not decode.
* `decodeUtf8_splits` — so a cut text that decodes is cut between code points.
* `decodeReplace_newline` — with replacement, lines are decoded one by one.
-/

namespace Py

/-! ### Encoding -/

/-- The UTF-8 bytes of a code point. -/
def utf8Char (c : CodePoint) : List Byte :=
  if h : c.val < 0x80 then [⟨c.val, by omega⟩]
  else if h : c.val < 0x800 then [⟨0xC0 + c.val / 64, by omega⟩, ⟨0x80 + c.val % 64, by omega⟩]
  else if h : c.val < 0x10000 then
    [⟨0xE0 + c.val / 4096, by omega⟩, ⟨0x80 + c.val / 64 % 64, by omega⟩,
      ⟨0x80 + c.val % 64, by omega⟩]
  else
    [⟨0xF0 + c.val / 262144, by omega⟩, ⟨0x80 + c.val / 4096 % 64, by omega⟩,
      ⟨0x80 + c.val / 64 % 64, by omega⟩, ⟨0x80 + c.val % 64, by omega⟩]

/-- The bytes of a string, surrogates not looked at. -/
def utf8Bytes (s : PyStr) : List Byte := s.flatMap utf8Char

/-- `str.encode("utf-8")`: a surrogate raises `UnicodeEncodeError`. -/
def encodeUtf8 (s : PyStr) : Option (List Byte) :=
  if Encodable s then some (utf8Bytes s) else none

@[simp] theorem utf8Bytes_nil : utf8Bytes [] = [] := rfl

@[simp] theorem utf8Bytes_cons (c : CodePoint) (s : PyStr) :
    utf8Bytes (c :: s) = utf8Char c ++ utf8Bytes s := by simp [utf8Bytes]

@[simp] theorem utf8Bytes_append (s t : PyStr) :
    utf8Bytes (s ++ t) = utf8Bytes s ++ utf8Bytes t := by simp [utf8Bytes]

theorem encodeUtf8_eq_some {s : PyStr} {bs : List Byte} :
    encodeUtf8 s = some bs ↔ Encodable s ∧ utf8Bytes s = bs := by
  unfold encodeUtf8
  split <;> simp_all

theorem encodeUtf8_of_encodable {s : PyStr} (h : Encodable s) :
    encodeUtf8 s = some (utf8Bytes s) := if_pos h

/-- An ASCII code point is one byte. -/
theorem utf8Char_ascii {c : CodePoint} (h : c.val < 0x80) :
    utf8Char c = [⟨c.val, by omega⟩] := by
  rw [utf8Char, dif_pos h]

theorem utf8Char_ne_nil (c : CodePoint) : utf8Char c ≠ [] := by
  unfold utf8Char
  split_ifs <;> simp

/-! ### Decoding -/

/-- Where the decoder stands inside a sequence: the continuation bytes still
owed, the least and the greatest value the next one may take, and the bits read
so far. -/
structure Utf8State where
  need : ℕ
  lo : ℕ
  hi : ℕ
  acc : ℕ
  deriving DecidableEq, Repr

/-- At a code point boundary. -/
def Utf8State.start : Utf8State := ⟨0, 0, 0, 0⟩

/-- One decoding step: the state after the byte, and the code point it
completes, if any.  `none` is a byte UTF-8 cannot have there. -/
def utf8Step (q : Utf8State) (b : Byte) : Option (Utf8State × Option CodePoint) :=
  if q.need = 0 then
    if b.val < 0x80 then some (.start, some ⟨b.val, by omega⟩)
    else if b.val < 0xC2 then none
    else if b.val < 0xE0 then some (⟨1, 0x80, 0xBF, b.val - 0xC0⟩, none)
    else if b.val < 0xF0 then
      some (⟨2, if b.val = 0xE0 then 0xA0 else 0x80, if b.val = 0xED then 0x9F else 0xBF,
        b.val - 0xE0⟩, none)
    else if b.val < 0xF5 then
      some (⟨3, if b.val = 0xF0 then 0x90 else 0x80, if b.val = 0xF4 then 0x8F else 0xBF,
        b.val - 0xF0⟩, none)
    else none
  else if b.val < q.lo ∨ q.hi < b.val then none
  else if q.need = 1 then
    if h : q.acc * 64 + (b.val - 0x80) < 0x110000 then
      some (.start, some ⟨q.acc * 64 + (b.val - 0x80), h⟩)
    else none
  else some (⟨q.need - 1, 0x80, 0xBF, q.acc * 64 + (b.val - 0x80)⟩, none)

/-- The strict decoder from a state; it fails when the bytes end inside a sequence. -/
def decodeFrom : Utf8State → List Byte → Option PyStr
  | q, [] => if q.need = 0 then some [] else none
  | q, b :: bs =>
    match utf8Step q b with
    | none => none
    | some (q', c) => (decodeFrom q' bs).map (c.toList ++ ·)

/-- `bytes.decode("utf-8")`: `none` stands for `UnicodeDecodeError`. -/
def decodeUtf8 (bs : List Byte) : Option PyStr := decodeFrom .start bs

/-- The replacement character. -/
def replacementChar : CodePoint := 0xFFFD

/-- The decoder that puts `U+FFFD` for every ill-formed stretch: a byte that
cannot continue the sequence ends it and is read again as a first byte. -/
def decodeReplaceFrom : Utf8State → List Byte → PyStr
  | q, [] => if q.need = 0 then [] else [replacementChar]
  | q, b :: bs =>
    match utf8Step q b with
    | some (q', c) => c.toList ++ decodeReplaceFrom q' bs
    | none =>
      if q.need = 0 then replacementChar :: decodeReplaceFrom .start bs
      else
        match utf8Step .start b with
        | some (q', c) => replacementChar :: (c.toList ++ decodeReplaceFrom q' bs)
        | none => replacementChar :: replacementChar :: decodeReplaceFrom .start bs

/-- `bytes.decode("utf-8", errors="replace")`. -/
def decodeReplace (bs : List Byte) : PyStr := decodeReplaceFrom .start bs

/-! ### Decoding inverts encoding -/

/-- The step on a continuation byte that does not finish the sequence. -/
private theorem utf8Step_continue {q : Utf8State} {b : Byte} (hneed : 1 < q.need)
    (hlo : q.lo ≤ b.val) (hhi : b.val ≤ q.hi) :
    utf8Step q b = some (⟨q.need - 1, 0x80, 0xBF, q.acc * 64 + (b.val - 0x80)⟩, none) := by
  unfold utf8Step
  rw [if_neg (by omega), if_neg (by omega), if_neg (by omega)]

/-- The step on the last continuation byte. -/
private theorem utf8Step_last {q : Utf8State} {b : Byte} {c : CodePoint} (hneed : q.need = 1)
    (hlo : q.lo ≤ b.val) (hhi : b.val ≤ q.hi) (hc : c.val = q.acc * 64 + (b.val - 0x80)) :
    utf8Step q b = some (.start, some c) := by
  have hlt := c.isLt
  unfold utf8Step
  rw [if_neg (by omega), if_neg (by omega), if_pos hneed, dif_pos (by omega)]
  simp only [Option.some.injEq, Prod.mk.injEq, true_and]
  exact Fin.ext hc.symm

/-- The step on the first byte of a two-byte sequence. -/
private theorem utf8Step_lead2 {b : Byte} (hlo : 0xC2 ≤ b.val) (hhi : b.val < 0xE0) :
    utf8Step .start b = some (⟨1, 0x80, 0xBF, b.val - 0xC0⟩, none) := by
  unfold utf8Step
  rw [if_pos (show Utf8State.start.need = 0 from rfl), if_neg (by omega), if_neg (by omega), if_pos hhi]

/-- The step on the first byte of a three-byte sequence. -/
private theorem utf8Step_lead3 {b : Byte} (hlo : 0xE0 ≤ b.val) (hhi : b.val < 0xF0) :
    utf8Step .start b = some (⟨2, if b.val = 0xE0 then 0xA0 else 0x80,
      if b.val = 0xED then 0x9F else 0xBF, b.val - 0xE0⟩, none) := by
  unfold utf8Step
  rw [if_pos (show Utf8State.start.need = 0 from rfl), if_neg (by omega), if_neg (by omega), if_neg (by omega), if_pos hhi]

/-- The step on the first byte of a four-byte sequence. -/
private theorem utf8Step_lead4 {b : Byte} (hlo : 0xF0 ≤ b.val) (hhi : b.val < 0xF5) :
    utf8Step .start b = some (⟨3, if b.val = 0xF0 then 0x90 else 0x80,
      if b.val = 0xF4 then 0x8F else 0xBF, b.val - 0xF0⟩, none) := by
  unfold utf8Step
  rw [if_pos (show Utf8State.start.need = 0 from rfl), if_neg (by omega), if_neg (by omega), if_neg (by omega), if_neg (by omega),
    if_pos hhi]

/-- The states the decoder goes through while it reads one code point: the list
of the steps it makes on the bytes of `c`, the last one yielding `c`. -/
theorem utf8Step_char {c : CodePoint} (hc : c.isSurrogate = false) :
    (∃ b, utf8Char c = [b] ∧ utf8Step .start b = some (.start, some c)) ∨
    (∃ b₁ b₂ q₁, utf8Char c = [b₁, b₂] ∧ utf8Step .start b₁ = some (q₁, none) ∧ q₁.need ≠ 0 ∧
      utf8Step q₁ b₂ = some (.start, some c)) ∨
    (∃ b₁ b₂ b₃ q₁ q₂, utf8Char c = [b₁, b₂, b₃] ∧ utf8Step .start b₁ = some (q₁, none) ∧
      q₁.need ≠ 0 ∧ utf8Step q₁ b₂ = some (q₂, none) ∧ q₂.need ≠ 0 ∧
      utf8Step q₂ b₃ = some (.start, some c)) ∨
    (∃ b₁ b₂ b₃ b₄ q₁ q₂ q₃, utf8Char c = [b₁, b₂, b₃, b₄] ∧
      utf8Step .start b₁ = some (q₁, none) ∧ q₁.need ≠ 0 ∧
      utf8Step q₁ b₂ = some (q₂, none) ∧ q₂.need ≠ 0 ∧
      utf8Step q₂ b₃ = some (q₃, none) ∧ q₃.need ≠ 0 ∧
      utf8Step q₃ b₄ = some (.start, some c)) := by
  have hlt := c.isLt
  have hsur : c.val < 0xD800 ∨ 0xDFFF < c.val := by
    simp [CodePoint.isSurrogate] at hc
    omega
  unfold utf8Char
  split_ifs with h1 h2 h3
  · -- one byte
    exact .inl ⟨_, rfl, by simp [utf8Step, Utf8State.start, h1]⟩
  · -- two bytes
    refine .inr (.inl ⟨_, _, _, rfl, utf8Step_lead2 ?_ ?_, by simp, utf8Step_last rfl ?_ ?_ ?_⟩)
    all_goals (simp only; omega)
  · -- three bytes: the second one must keep clear of overlong forms and surrogates
    refine .inr (.inr (.inl ⟨_, _, _, _, _, rfl, utf8Step_lead3 ?_ ?_, by simp,
      utf8Step_continue ?_ ?_ ?_, by simp, utf8Step_last rfl ?_ ?_ ?_⟩))
    all_goals (simp only; try split_ifs) <;> omega
  · -- four bytes: the second one must keep clear of overlong forms and of the top
    refine .inr (.inr (.inr ⟨_, _, _, _, _, _, _, rfl, utf8Step_lead4 ?_ ?_, by simp,
      utf8Step_continue ?_ ?_ ?_, by simp, utf8Step_continue ?_ ?_ ?_, by simp,
      utf8Step_last rfl ?_ ?_ ?_⟩))
    all_goals (simp only; try split_ifs) <;> omega

private theorem decodeFrom_cons {q q' : Utf8State} {b : Byte} {bs : List Byte}
    {c : Option CodePoint} (h : utf8Step q b = some (q', c)) :
    decodeFrom q (b :: bs) = (decodeFrom q' bs).map (c.toList ++ ·) := by
  rw [decodeFrom, h]

/-- Decoding takes an encoded code point off the front. -/
theorem decodeFrom_utf8Char_append {c : CodePoint} (hc : c.isSurrogate = false)
    (bs : List Byte) :
    decodeFrom .start (utf8Char c ++ bs) = (decodeFrom .start bs).map (c :: ·) := by
  rcases utf8Step_char hc with ⟨b, hb, h⟩ | ⟨b₁, b₂, q₁, hb, h₁, -, h₂⟩ |
      ⟨b₁, b₂, b₃, q₁, q₂, hb, h₁, -, h₂, -, h₃⟩ |
      ⟨b₁, b₂, b₃, b₄, q₁, q₂, q₃, hb, h₁, -, h₂, -, h₃, -, h₄⟩
  · rw [hb, List.singleton_append, decodeFrom_cons h]
    rfl
  · rw [hb, List.cons_append, decodeFrom_cons h₁, List.singleton_append, decodeFrom_cons h₂,
      Option.map_map]
    rfl
  · rw [hb, List.cons_append, decodeFrom_cons h₁, List.cons_append, decodeFrom_cons h₂,
      List.singleton_append, decodeFrom_cons h₃, Option.map_map, Option.map_map]
    rfl
  · rw [hb, List.cons_append, decodeFrom_cons h₁, List.cons_append, decodeFrom_cons h₂,
      List.cons_append, decodeFrom_cons h₃, List.singleton_append, decodeFrom_cons h₄,
      Option.map_map, Option.map_map, Option.map_map]
    rfl

/-- **Decoding inverts encoding**, whatever bytes follow. -/
theorem decodeUtf8_utf8Bytes_append : ∀ {s : PyStr}, Encodable s → ∀ bs : List Byte,
    decodeUtf8 (utf8Bytes s ++ bs) = (decodeUtf8 bs).map (s ++ ·)
  | [], _, bs => by simp [decodeUtf8]
  | c :: s, h, bs => by
    have ih := decodeUtf8_utf8Bytes_append (encodable_cons.mp h).2 bs
    unfold decodeUtf8 at ih ⊢
    rw [utf8Bytes_cons, List.append_assoc, decodeFrom_utf8Char_append (encodable_cons.mp h).1, ih,
      Option.map_map]
    rfl

theorem decodeUtf8_utf8Bytes {s : PyStr} (h : Encodable s) : decodeUtf8 (utf8Bytes s) = some s := by
  have := decodeUtf8_utf8Bytes_append h []
  simpa [decodeUtf8, decodeFrom, Utf8State.start] using this

/-- Encoded text is the text. -/
theorem utf8Bytes_inj {s t : PyStr} (hs : Encodable s) (ht : Encodable t)
    (h : utf8Bytes s = utf8Bytes t) : s = t := by
  have hd := decodeUtf8_utf8Bytes hs
  rw [h, decodeUtf8_utf8Bytes ht] at hd
  exact (Option.some.inj hd).symm

/-- **A text cut inside a code point does not decode.** -/
theorem decodeUtf8_cut {c : CodePoint} (hc : c.isSurrogate = false) {p r : List Byte}
    (h : utf8Char c = p ++ r) (hp : p ≠ []) (hr : r ≠ []) : decodeUtf8 p = none := by
  unfold decodeUtf8
  rcases utf8Step_char hc with ⟨b, hb, -⟩ | ⟨b₁, b₂, q₁, hb, h₁, n₁, -⟩ |
      ⟨b₁, b₂, b₃, q₁, q₂, hb, h₁, n₁, h₂, n₂, -⟩ |
      ⟨b₁, b₂, b₃, b₄, q₁, q₂, q₃, hb, h₁, n₁, h₂, n₂, h₃, n₃, -⟩
  all_goals
    rw [hb] at h
    obtain _ | ⟨a₁, p⟩ := p
    · exact absurd rfl hp
  · simp_all
  · obtain _ | ⟨a₂, p⟩ := p
    · simp_all [decodeFrom]
    · simp_all
  · obtain _ | ⟨a₂, _ | ⟨a₃, p⟩⟩ := p
    · simp_all [decodeFrom]
    · simp_all [decodeFrom]
    · simp_all
  · obtain _ | ⟨a₂, _ | ⟨a₃, _ | ⟨a₄, p⟩⟩⟩ := p
    · simp_all [decodeFrom]
    · simp_all [decodeFrom]
    · simp_all [decodeFrom]
    · simp_all

/-! ### What decoding yields -/

/-- A completed code point is not a surrogate when the decoder came from its
start: the second-byte bounds exclude `U+D800` to `U+DFFF`. -/
private def Utf8State.Sound (q : Utf8State) : Prop :=
  (q.need = 0) ∨
  (q.need = 1 ∧ 0x80 ≤ q.lo ∧ q.hi ≤ 0xBF ∧ (q.acc < 0x360 ∨ 0x380 ≤ q.acc)) ∨
  (q.need = 2 ∧ 0x80 ≤ q.lo ∧ q.hi ≤ 0xBF ∧ (q.acc < 0xD ∨ 0xE ≤ q.acc ∨ q.hi ≤ 0x9F)) ∨
  (q.need = 3 ∧ 0x80 ≤ q.lo ∧ q.hi ≤ 0xBF ∧ (0x90 ≤ q.lo ∨ 1 ≤ q.acc))

private theorem utf8Step_sound {q q' : Utf8State} {b : Byte} {c : Option CodePoint}
    (hq : q.Sound) (h : utf8Step q b = some (q', c)) : q'.Sound := by
  unfold utf8Step at h
  split_ifs at h
  all_goals
    simp only [Option.some.injEq, Prod.mk.injEq] at h
    obtain ⟨rfl, -⟩ := h
    unfold Utf8State.Sound at hq ⊢
    dsimp only [Utf8State.start]
    omega

private theorem utf8Step_not_surrogate {q q' : Utf8State} {b : Byte} {c : CodePoint}
    (hq : q.Sound) (h : utf8Step q b = some (q', some c)) : c.isSurrogate = false := by
  have hlt := b.isLt
  unfold utf8Step at h
  split_ifs at h
  all_goals
    simp only [Option.some.injEq, Prod.mk.injEq, reduceCtorEq, and_false] at h
  all_goals
    obtain ⟨-, rfl⟩ := h
    unfold Utf8State.Sound at hq
    simp only [CodePoint.isSurrogate, Bool.and_eq_false_iff, decide_eq_false_iff_not]
    omega

/-- **A decoded text holds no surrogate.** -/
theorem encodable_of_decodeUtf8 {bs : List Byte} {s : PyStr} (h : decodeUtf8 bs = some s) :
    Encodable s := by
  suffices H : ∀ (bs : List Byte) (q : Utf8State) (s : PyStr), q.Sound →
      decodeFrom q bs = some s → Encodable s from H bs .start s (.inl rfl) h
  intro bs
  induction bs with
  | nil =>
    intro q s _ h
    simp only [decodeFrom] at h
    split_ifs at h
    simp_all
  | cons b bs ih =>
    intro q s hq h
    simp only [decodeFrom] at h
    split at h
    · exact absurd h (by simp)
    · next q' c hstep =>
      obtain ⟨t, ht, rfl⟩ := Option.map_eq_some_iff.mp h
      refine encodable_append.mpr ⟨fun x hx => ?_, ih q' t (utf8Step_sound hq hstep) ht⟩
      rw [Option.mem_toList.mp hx] at hstep
      exact utf8Step_not_surrogate hq hstep

/-- The bytes the decoder has read of the code point it is in. -/
private def Utf8State.Reads (q : Utf8State) : List Byte → Prop
  | [] => q.need = 0
  | [b] =>
    (q.need = 1 ∧ 0xC2 ≤ b.val ∧ b.val < 0xE0 ∧ q.acc = b.val - 0xC0 ∧ 0x80 ≤ q.lo ∧ q.hi ≤ 0xBF) ∨
    (q.need = 2 ∧ 0xE0 ≤ b.val ∧ b.val < 0xF0 ∧ q.acc = b.val - 0xE0 ∧ 0x80 ≤ q.lo ∧ q.hi ≤ 0xBF ∧
      (b.val = 0xE0 → 0xA0 ≤ q.lo)) ∨
    (q.need = 3 ∧ 0xF0 ≤ b.val ∧ b.val < 0xF5 ∧ q.acc = b.val - 0xF0 ∧ 0x80 ≤ q.lo ∧ q.hi ≤ 0xBF ∧
      (b.val = 0xF0 → 0x90 ≤ q.lo))
  | [b, c] =>
    q.lo = 0x80 ∧ q.hi = 0xBF ∧ 0x80 ≤ c.val ∧ c.val ≤ 0xBF ∧
    ((q.need = 1 ∧ 0xE0 ≤ b.val ∧ b.val < 0xF0 ∧ (b.val = 0xE0 → 0xA0 ≤ c.val) ∧
        q.acc = (b.val - 0xE0) * 64 + (c.val - 0x80)) ∨
      (q.need = 2 ∧ 0xF0 ≤ b.val ∧ b.val < 0xF5 ∧ (b.val = 0xF0 → 0x90 ≤ c.val) ∧
        q.acc = (b.val - 0xF0) * 64 + (c.val - 0x80)))
  | [b, c, d] =>
    q.lo = 0x80 ∧ q.hi = 0xBF ∧ q.need = 1 ∧ 0xF0 ≤ b.val ∧ b.val < 0xF5 ∧
      (b.val = 0xF0 → 0x90 ≤ c.val) ∧ 0x80 ≤ c.val ∧ c.val ≤ 0xBF ∧ 0x80 ≤ d.val ∧ d.val ≤ 0xBF ∧
      q.acc = ((b.val - 0xF0) * 64 + (c.val - 0x80)) * 64 + (d.val - 0x80)
  | _ => False

/-- A byte that completes no code point is one more of it. -/
private theorem Utf8State.Reads.push {q q' : Utf8State} {b : Byte} {pre : List Byte}
    (hq : q.Reads pre) (h : utf8Step q b = some (q', none)) : q'.Reads (pre ++ [b]) := by
  obtain ⟨need, lo, hi, acc⟩ := q
  unfold utf8Step at h
  dsimp only at h
  rcases pre with _ | ⟨b₁, _ | ⟨b₂, _ | ⟨b₃, _ | ⟨b₄, pre⟩⟩⟩⟩ <;>
    simp only [Reads, List.nil_append, List.cons_append] at hq ⊢
  · -- a first byte
    simp only [hq, if_true] at h
    split_ifs at h
    all_goals
      simp only [Option.some.injEq, Prod.mk.injEq, reduceCtorEq, and_false, and_true] at h
    all_goals
      subst h
      dsimp only
      omega
  -- a later one, up to the fourth, which completes it
  all_goals
    rw [if_neg (show need ≠ 0 by omega)] at h
    split_ifs at h
    all_goals
      simp only [Option.some.injEq, Prod.mk.injEq, reduceCtorEq, and_false, and_true] at h
    all_goals first
      | omega
      | (subst h; dsimp only; omega)

/-- The byte that completes a code point ends its encoding. -/
private theorem Utf8State.Reads.complete {q q' : Utf8State} {b : Byte} {c : CodePoint}
    {pre : List Byte} (hq : q.Reads pre) (h : utf8Step q b = some (q', some c)) :
    q' = .start ∧ utf8Char c = pre ++ [b] := by
  obtain ⟨need, lo, hi, acc⟩ := q
  have hb := b.isLt
  unfold utf8Step at h
  dsimp only at h
  rcases pre with _ | ⟨b₁, _ | ⟨b₂, _ | ⟨b₃, _ | ⟨b₄, pre⟩⟩⟩⟩ <;>
    simp only [Reads, List.nil_append, List.cons_append] at hq ⊢
  · simp only [hq, if_true] at h
    split_ifs at h with h₁
    all_goals
      simp only [Option.some.injEq, Prod.mk.injEq, reduceCtorEq, and_false] at h
    obtain ⟨rfl, rfl⟩ := h
    exact ⟨rfl, utf8Char_ascii h₁⟩
  all_goals
    rw [if_neg (show need ≠ 0 by omega)] at h
    split_ifs at h
    all_goals
      simp only [Option.some.injEq, Prod.mk.injEq, reduceCtorEq, and_false] at h
    obtain ⟨rfl, rfl⟩ := h
    refine ⟨rfl, ?_⟩
    unfold utf8Char
    dsimp only
    split_ifs
    all_goals first
      | omega
      | (simp only [List.cons.injEq, Fin.ext_iff, and_true]; omega)

/-- **Encoding inverts decoding.** -/
theorem utf8Bytes_of_decodeUtf8 {bs : List Byte} {s : PyStr} (h : decodeUtf8 bs = some s) :
    utf8Bytes s = bs := by
  suffices H : ∀ (bs : List Byte) (q : Utf8State) (pre : List Byte) (s : PyStr), q.Reads pre →
      decodeFrom q bs = some s → utf8Bytes s = pre ++ bs from H bs .start [] s rfl h
  intro bs
  induction bs with
  | nil =>
    intro q pre s hq h
    simp only [decodeFrom] at h
    split_ifs at h with hneed
    obtain rfl := Option.some.inj h
    -- at a boundary nothing is read of a code point
    rcases pre with _ | ⟨b₁, _ | ⟨b₂, _ | ⟨b₃, _ | ⟨b₄, pre⟩⟩⟩⟩ <;>
      simp only [Utf8State.Reads] at hq
    · rfl
    all_goals omega
  | cons b bs ih =>
    intro q pre s hq h
    simp only [decodeFrom] at h
    split at h
    · exact absurd h (by simp)
    · next q' c hstep =>
      obtain ⟨t, ht, rfl⟩ := Option.map_eq_some_iff.mp h
      cases c with
      | none =>
        rw [Option.toList_none, List.nil_append, ih q' (pre ++ [b]) t (hq.push hstep) ht,
          List.append_assoc, List.singleton_append]
      | some c =>
        obtain ⟨rfl, hc⟩ := hq.complete hstep
        rw [Option.toList_some, List.singleton_append, utf8Bytes_cons, ih .start [] t rfl ht, hc,
          List.append_assoc, List.singleton_append, List.nil_append]

/-! ### Cut texts, and replacement -/

/-- A cut text that decodes is cut between code points. -/
theorem decodeUtf8_splits : ∀ {s u : PyStr} {p r : List Byte}, Encodable s →
    utf8Bytes s = p ++ r → decodeUtf8 p = some u → p = utf8Bytes u ∧ ∃ v, s = u ++ v
  | [], u, p, r, _, h, hu => by
    obtain rfl : p = [] := (List.append_eq_nil_iff.mp h.symm).1
    obtain rfl : [] = u := Option.some.inj hu
    exact ⟨rfl, [], rfl⟩
  | c :: s, u, p, r, hs, h, hu => by
    obtain ⟨hc, hs⟩ := encodable_cons.mp hs
    have hnil : ∀ {q r' : List Byte}, utf8Bytes s = q ++ r' → p = utf8Char c ++ q →
        p = utf8Bytes u ∧ ∃ v, c :: s = u ++ v := by
      rintro q r' hrest rfl
      rw [decodeUtf8, decodeFrom_utf8Char_append hc] at hu
      obtain ⟨u', hu', rfl⟩ := Option.map_eq_some_iff.mp hu
      obtain ⟨hq, v, rfl⟩ := decodeUtf8_splits hs hrest hu'
      exact ⟨by rw [hq, utf8Bytes_cons], v, rfl⟩
    rw [utf8Bytes_cons] at h
    rcases List.append_eq_append_iff.mp h with ⟨q, hq, hrest⟩ | ⟨q, hq, hrest⟩
    · exact hnil hrest hq
    · -- the cut is in the first code point, and then at one of its ends
      by_cases hp : p = []
      · subst hp
        obtain rfl : [] = u := Option.some.inj hu
        exact ⟨rfl, c :: s, rfl⟩
      · by_cases hq0 : q = []
        · rw [hq0, List.append_nil] at hq
          exact hnil (q := []) rfl (by rw [hq, List.append_nil])
        · rw [decodeUtf8_cut hc hq hp hq0] at hu
          exact absurd hu (by simp)

/-- A text that decodes has nothing to replace. -/
theorem decodeReplace_of_decodeUtf8 {bs : List Byte} {s : PyStr} (h : decodeUtf8 bs = some s) :
    decodeReplace bs = s := by
  suffices H : ∀ (bs : List Byte) (q : Utf8State) (s : PyStr), decodeFrom q bs = some s →
      decodeReplaceFrom q bs = s from H bs .start s h
  intro bs
  induction bs with
  | nil =>
    intro q s h
    simp only [decodeFrom] at h
    split_ifs at h with hq
    rw [decodeReplaceFrom, if_pos hq, Option.some.inj h]
  | cons b bs ih =>
    intro q s h
    simp only [decodeFrom] at h
    split at h
    · exact absurd h (by simp)
    · next q' c hstep =>
      obtain ⟨t, ht, rfl⟩ := Option.map_eq_some_iff.mp h
      simp only [decodeReplaceFrom, hstep]
      rw [ih q' t ht]

/-- A newline is read as such, whatever stands before it. -/
theorem decodeReplace_newline (as bs : List Byte) :
    decodeReplace (as ++ 10 :: bs) = decodeReplace as ++ nl :: decodeReplace bs := by
  suffices H : ∀ (as : List Byte) (q : Utf8State), q.Sound →
      decodeReplaceFrom q (as ++ 10 :: bs) = decodeReplaceFrom q as ++ nl :: decodeReplace bs
    from H as .start (.inl rfl)
  intro as
  induction as with
  | nil =>
    intro q hq
    have hstart : utf8Step .start 10 = some (.start, some nl) := rfl
    rw [List.nil_append, decodeReplaceFrom, decodeReplaceFrom]
    by_cases hneed : q.need = 0
    · have hstep : utf8Step q 10 = some (.start, some nl) := by
        rw [utf8Step, if_pos hneed]
        rfl
      simp only [hstep, if_pos hneed]
      rfl
    · have hstep : utf8Step q 10 = none := by
        have hlo : 10 < q.lo := by
          unfold Utf8State.Sound at hq
          omega
        rw [utf8Step, if_neg hneed, if_pos (.inl hlo)]
      simp only [hstep, if_neg hneed, hstart]
      rfl
  | cons b as ih =>
    intro q hq
    have ihstart := ih .start (.inl rfl)
    rw [List.cons_append, decodeReplaceFrom, decodeReplaceFrom]
    cases hstep : utf8Step q b with
    | some qc => simp only [ih qc.1 (utf8Step_sound hq hstep), List.append_assoc]
    | none =>
      by_cases hneed : q.need = 0
      · simp only [if_pos hneed, ihstart, List.cons_append]
      · simp only [if_neg hneed]
        cases hfirst : utf8Step .start b with
        | some qc =>
          simp only [ih qc.1 (utf8Step_sound (.inl rfl) hfirst), List.append_assoc,
            List.cons_append]
        | none => simp only [ihstart, List.cons_append]

end Py
