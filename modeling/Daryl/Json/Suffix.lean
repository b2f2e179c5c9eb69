import Daryl.Json.Balance
import Daryl.Json.Closed
import Daryl.Py.Utf8

/-!
# The end of an object

No proper suffix of the text of a dict is itself a JSON text.  A scan keeps the number of
open brackets and whether it is in a string, and what is read as a value leaves both as
they were.  A suffix that starts outside strings would have to open the bracket that closes
last; one that starts in a string is read with the strings and the texts between them
changed round, up to the end.

So the end of a file, read from somewhere in its last line on, does not show that line.

## Main definitions

* `pass` — the scan.
* `Passes` — a text that leaves the scan where it was.

## Main results

* `passes_closed` — what is read as a value passes.
* `loads_suffix` — **a proper suffix of the text of a dict does not load.**
* `decodeReplace_drop` — a text whose first bytes are missing.
* `loads_cut` — **the text of a dict whose first bytes are missing does not load.**
-/

namespace Json

open Py

/-! ### The scan -/

/-- One character, with so many brackets open: a backslash outside strings and a bracket
that closes none of them end the scan. -/
def passStep : ℕ × Mode → CodePoint → Option (ℕ × Mode)
  | (d, .text), c =>
    if c.val = 34 then some (d, .string)
    else if c.val = 92 then none
    else if c.val = 91 ∨ c.val = 123 then some (d + 1, .text)
    else if c.val = 93 ∨ c.val = 125 then
      if d = 0 then none else some (d - 1, .text)
    else some (d, .text)
  | (d, .string), c =>
    if c.val = 34 then some (d, .text)
    else if c.val = 92 then some (d, .escape)
    else some (d, .string)
  | (d, .escape), _ => some (d, .string)

/-- The scan of a text. -/
def pass (x : ℕ × Mode) : PyStr → Option (ℕ × Mode)
  | [] => some x
  | c :: s => (passStep x c).bind fun y => pass y s

@[simp] theorem pass_nil (x : ℕ × Mode) : pass x [] = some x := rfl

theorem pass_cons (x : ℕ × Mode) (c : CodePoint) (s : PyStr) :
    pass x (c :: s) = (passStep x c).bind fun y => pass y s := rfl

theorem pass_append (x : ℕ × Mode) (s t : PyStr) :
    pass x (s ++ t) = (pass x s).bind fun y => pass y t := by
  induction s generalizing x with
  | nil => rfl
  | cons c s ih =>
    rw [List.cons_append, pass_cons, pass_cons]
    cases passStep x c with
    | none => rfl
    | some y => exact ih y

/-- The text leaves the scan where it was, however many brackets are open. -/
def Passes (s : PyStr) : Prop := ∀ d, pass (d, .text) s = some (d, .text)

/-- The text stays in a string. -/
def PassesIn (s : PyStr) : Prop := ∀ d, pass (d, .string) s = some (d, .string)

theorem Passes.append {s t : PyStr} (hs : Passes s) (ht : Passes t) : Passes (s ++ t) := by
  intro d
  rw [pass_append, hs d, Option.bind_some, ht d]

theorem PassesIn.append {s t : PyStr} (hs : PassesIn s) (ht : PassesIn t) : PassesIn (s ++ t) := by
  intro d
  rw [pass_append, hs d, Option.bind_some, ht d]

theorem passes_bare {s : PyStr} (h : Bare s) : Passes s := by
  intro d
  induction s with
  | nil => rfl
  | cons c s ih =>
    have hc := h c List.mem_cons_self
    simp only [List.mem_cons, List.not_mem_nil, or_false, not_or] at hc
    have hstep : passStep (d, .text) c = some (d, .text) := by
      rw [passStep, if_neg hc.1, if_neg hc.2.2.1, if_neg (by omega), if_neg (by omega)]
    rw [pass_cons, hstep, Option.bind_some]
    exact ih fun x hx => h x (List.mem_cons_of_mem c hx)

/-! ### Strings -/

theorem passesIn_char {c : CodePoint} (hquote : c.val ≠ 34) (hback : c.val ≠ 92) :
    PassesIn [c] := by
  intro d
  rw [pass_cons, passStep, if_neg hquote, if_neg hback]
  rfl

theorem passesIn_escape {c : CodePoint} (hback : c.val = 92) (e : CodePoint) :
    PassesIn [c, e] := by
  intro d
  rw [pass_cons, passStep, if_neg (by omega), if_pos hback]
  rfl

/-- A quoted string passes. -/
theorem passes_string {p : PyStr} (h : PassesIn p) : Passes (34 :: (p ++ [34])) := by
  intro d
  rw [pass_cons, show passStep (d, .text) 34 = some (d, .string) from rfl, Option.bind_some,
    pass_append, h d]
  rfl

/-- Something between brackets passes. -/
theorem passes_brackets {o c : CodePoint} (ho : o.val = 91 ∨ o.val = 123)
    (hc : c.val = 93 ∨ c.val = 125) {b : PyStr} (h : Passes b) : Passes (o :: (b ++ [c])) := by
  intro d
  have hopen : passStep (d, .text) o = some (d + 1, .text) := by
    rw [passStep, if_neg (by omega), if_neg (by omega), if_pos ho]
  have hclose : passStep (d + 1, .text) c = some (d, .text) := by
    rw [passStep, if_neg (by omega), if_neg (by omega), if_neg (by omega), if_pos hc,
      if_neg (Nat.succ_ne_zero d)]
    rfl
  rw [pass_cons, hopen, Option.bind_some, pass_append, h (d + 1), Option.bind_some, pass_cons,
    hclose]
  rfl

/-- **What is read as a value passes.** -/
theorem passes_closed : Closed Passes PassesIn where
  append := Passes.append
  bare := passes_bare
  nilIn := fun _ => rfl
  appendIn := PassesIn.append
  char := passesIn_char
  escape := passesIn_escape
  string := passes_string
  list := passes_brackets (.inl rfl) (.inl rfl)
  dict := passes_brackets (.inr rfl) (.inr rfl)

section

variable {F : Type} [PyFloat F]

/-! ### Suffixes -/

/-- What loads passes. -/
theorem passes_of_loads {s : PyStr} {v : PyVal F} (h : loads s = some v) : Passes s :=
  closed_of_loads passes_closed h

/-- A text that loads and starts with a quote ends with one, white space aside. -/
theorem quoted_of_loads {s : PyStr} {v : PyVal F} (h : loads (34 :: s) = some v) :
    ∃ p w, s = p ++ 34 :: w ∧ White w := by
  rw [loads, skipWs_cons (by decide)] at h
  split at h
  · next w q hw =>
    split_ifs at h with hq
    rw [show 2 * ((34 : CodePoint) :: s).length + 2 = 2 * ((34 : CodePoint) :: s).length + 1 + 1 from rfl,
      parseValue, if_pos (by decide)] at hw
    obtain ⟨⟨k, r⟩, hk, heq⟩ := Option.map_eq_some_iff.mp hw
    obtain ⟨-, rfl⟩ := Prod.mk.inj heq
    obtain ⟨p, hs, -⟩ := passes_closed.scanString hk
    obtain ⟨w', hwhite', hq'⟩ := skipWs_spec r
    rw [hq, List.append_nil] at hq'
    exact ⟨p, r, hs, hq' ▸ hwhite'⟩
  · cases h

/-- The two modes between which a quote changes. -/
def Opposite (a b : Mode) : Prop := a = .text ∧ b = .string ∨ a = .string ∧ b = .text

/-- **Scans that start in opposite modes end in opposite modes**: what is a string to the one is
outside strings to the other, where a backslash ends the scan. -/
theorem opposite_pass {d e d' e' : ℕ} {a b a' b' : Mode} (hab : Opposite a b) {s : PyStr}
    (ha : pass (d, a) s = some (e, a')) (hb : pass (d', b) s = some (e', b')) : Opposite a' b' := by
  induction s generalizing d d' a b with
  | nil =>
    obtain ⟨-, rfl⟩ := Prod.mk.inj (Option.some.inj ha)
    obtain ⟨-, rfl⟩ := Prod.mk.inj (Option.some.inj hb)
    exact hab
  | cons c s ih =>
    rw [pass_cons, Option.bind_eq_some_iff] at ha hb
    obtain ⟨⟨x, m⟩, hx, ha⟩ := ha
    obtain ⟨⟨y, k⟩, hy, hb⟩ := hb
    refine ih ?_ ha hb
    -- outside strings a step leads on to the text, but for a quote
    have htext : ∀ {d x : ℕ} {m : Mode}, passStep (d, .text) c = some (x, m) →
        c.val ≠ 92 ∧ m = if c.val = 34 then .string else .text := by
      intro d x m h
      rw [passStep] at h
      split_ifs at h with h34 h92 hopen hclose
      all_goals
        obtain ⟨-, rfl⟩ := Prod.mk.inj (Option.some.inj h)
        first
          | exact ⟨by omega, (if_pos h34).symm⟩
          | exact ⟨h92, (if_neg h34).symm⟩
    have hstring : ∀ {d x : ℕ} {m : Mode}, passStep (d, .string) c = some (x, m) → c.val ≠ 92 →
        m = if c.val = 34 then .text else .string := by
      intro d x m h h92
      rw [passStep] at h
      split_ifs at h with h34
      · rw [if_pos h34]
        exact (Prod.mk.inj (Option.some.inj h)).2.symm
      · rw [if_neg h34]
        exact (Prod.mk.inj (Option.some.inj h)).2.symm
    rcases hab with ⟨rfl, rfl⟩ | ⟨rfl, rfl⟩
    · obtain ⟨h92, rfl⟩ := htext hx
      rw [hstring hy h92]
      split_ifs
      · exact .inr ⟨rfl, rfl⟩
      · exact .inl ⟨rfl, rfl⟩
    · obtain ⟨h92, rfl⟩ := htext hy
      rw [hstring hx h92]
      split_ifs
      · exact .inl ⟨rfl, rfl⟩
      · exact .inr ⟨rfl, rfl⟩

/-- The text between the braces of a dict passes. -/
theorem passes_inner {st : Style} {kvs : List (Key F × PyVal F)} {s : PyStr}
    (h : print st (.dict kvs) = some (123 :: s ++ [125]))
    (hj : st.ensureAscii = true → eachStrItems Joined kvs) : Passes s := by
  have hparse := parseValue_print h hj (n := 2 * (123 :: s ++ [125]).length + 1) (by omega)
    (r := []) trivial
  rw [List.append_nil, form] at hparse
  obtain ⟨b, hb, hpasses⟩ := passes_closed.dict_of_parseValue hparse
  rw [List.cons_append] at hb
  obtain ⟨hbody, -⟩ := List.append_inj' (List.cons.inj hb).2 rfl
  exact hbody ▸ hpasses

/-- **A proper suffix of the text of a dict does not load.** -/
theorem loads_suffix {st : Style} {kvs : List (Key F × PyVal F)} {t p u : PyStr}
    (h : print st (.dict kvs) = some t) (hj : st.ensureAscii = true → eachStrItems Joined kvs)
    (ht : t = p ++ u) (hp : p ≠ []) : (loads u : Option (PyVal F)) = none := by
  cases hload : (loads u : Option (PyVal F)) with
  | none => rfl
  | some v =>
    exfalso
    obtain ⟨s, rfl⟩ := print_dict_shape h
    have hinner := passes_inner h hj
    have hpasses := passes_of_loads hload
    obtain ⟨c, p, rfl⟩ := List.exists_cons_of_ne_nil hp
    rw [List.cons_append, List.cons_append, List.cons.injEq] at ht
    obtain ⟨-, ht⟩ := ht
    rcases List.eq_nil_or_concat u with rfl | ⟨u, d, rfl⟩
    · rw [loads, show skipWs [] = [] from rfl, parseValue] at hload
      cases hload
    rw [List.concat_eq_append] at ht hpasses hload
    rw [← List.append_assoc] at ht
    obtain ⟨rfl, hd⟩ := List.append_inj' ht rfl
    obtain rfl : d = 125 := (List.cons.inj hd).1.symm
    -- where the scan of the dict stands when the suffix starts
    have hwhole := hinner 0
    rw [pass_append, Option.bind_eq_some_iff] at hwhole
    obtain ⟨⟨k, m⟩, -, hrest⟩ := hwhole
    -- the suffix alone opens the brace it closes last
    have hclose : pass (k, .text) u = some (k + 1, .text) := by
      have hall := hpasses k
      rw [pass_append, Option.bind_eq_some_iff] at hall
      obtain ⟨⟨e, n⟩, hu, hlast⟩ := hall
      rw [pass_cons, Option.bind_eq_some_iff] at hlast
      obtain ⟨y, hstep, hy⟩ := hlast
      obtain rfl := Option.some.inj hy
      cases n with
      | text =>
        rw [passStep, if_neg (by decide), if_neg (by decide), if_neg (by decide),
          if_pos (by decide)] at hstep
        split_ifs at hstep with he
        obtain ⟨hk, -⟩ := Prod.mk.inj (Option.some.inj hstep)
        rw [hu, show e = k + 1 by omega]
      | string => cases hstep
      | escape => cases hstep
    cases m with
    | text =>
      rw [hclose] at hrest
      cases hrest
    | string =>
      rcases opposite_pass (.inl ⟨rfl, rfl⟩) hclose hrest with ⟨-, hm⟩ | ⟨hm, -⟩
      · cases hm
      · cases hm
    | escape =>
      cases u with
      | nil => cases hrest
      | cons c u =>
        -- behind the backslash the first character counts for the suffix alone
        rw [pass_cons, show passStep (k, .escape) c = some (k, .string) from rfl,
          Option.bind_some] at hrest
        rw [pass_cons, Option.bind_eq_some_iff] at hclose
        obtain ⟨⟨x, n⟩, hstep, hclose⟩ := hclose
        have hn : n = .text := by
          rw [passStep] at hstep
          split_ifs at hstep with h34
          · exfalso
            obtain rfl : c = 34 := Fin.ext h34
            obtain ⟨q, w, hq, hw⟩ := quoted_of_loads hload
            rcases List.eq_nil_or_concat w with rfl | ⟨w, e, rfl⟩
            · have hlast := (List.append_inj' hq rfl).2
              cases hlast
            · rw [List.concat_eq_append] at hq hw
              have hq' : u ++ [125] = (q ++ 34 :: w) ++ [e] := hq.trans (by simp)
              have hlast := (List.append_inj' hq' rfl).2
              obtain rfl := (List.cons.inj hlast).1
              exact absurd (hw 125 (by simp)) (by decide)
          all_goals exact (Prod.mk.inj (Option.some.inj hstep)).2.symm
        subst hn
        rcases opposite_pass (.inl ⟨rfl, rfl⟩) hclose hrest with ⟨-, hm⟩ | ⟨hm, -⟩
        · cases hm
        · cases hm

/-! ### Missing bytes -/

omit [PyFloat F] in
/-- Decoding with replacement takes an encoded code point off the front. -/
theorem decodeReplaceFrom_utf8Char_append {c : CodePoint} (hc : c.isSurrogate = false)
    (bs : List Byte) :
    decodeReplaceFrom .start (utf8Char c ++ bs) = c :: decodeReplaceFrom .start bs := by
  have hcons : ∀ {q q' : Utf8State} {b : Byte} {bs : List Byte} {c : Option CodePoint},
      utf8Step q b = some (q', c) →
        decodeReplaceFrom q (b :: bs) = c.toList ++ decodeReplaceFrom q' bs := by
    intro q q' b bs c h
    rw [decodeReplaceFrom, h]
  rcases utf8Step_char hc with ⟨b, hb, h⟩ | ⟨b₁, b₂, q₁, hb, h₁, -, h₂⟩ |
      ⟨b₁, b₂, b₃, q₁, q₂, hb, h₁, -, h₂, -, h₃⟩ |
      ⟨b₁, b₂, b₃, b₄, q₁, q₂, q₃, hb, h₁, -, h₂, -, h₃, -, h₄⟩
  · rw [hb, List.singleton_append, hcons h]
    rfl
  · rw [hb, List.cons_append, hcons h₁, List.singleton_append, hcons h₂]
    rfl
  · rw [hb, List.cons_append, hcons h₁, List.cons_append, hcons h₂, List.singleton_append,
      hcons h₃]
    rfl
  · rw [hb, List.cons_append, hcons h₁, List.cons_append, hcons h₂, List.cons_append, hcons h₃,
      List.singleton_append, hcons h₄]
    rfl

omit [PyFloat F] in
/-- The bytes of a code point but the first continue a sequence. -/
theorem continuation_of_mem_tail {c : CodePoint} {b : Byte} (h : b ∈ (utf8Char c).tail) :
    0x80 ≤ b.val ∧ b.val < 0xC0 := by
  have hlt := c.isLt
  unfold utf8Char at h
  split_ifs at h
  all_goals
    simp only [List.tail_cons, List.mem_cons, List.not_mem_nil, or_false] at h
  · rw [h]
    exact ⟨by simp only; omega, by simp only; omega⟩
  · rcases h with rfl | rfl
    all_goals exact ⟨by simp only; omega, by simp only; omega⟩
  · rcases h with rfl | rfl | rfl
    all_goals exact ⟨by simp only; omega, by simp only; omega⟩

omit [PyFloat F] in
/-- Bytes that continue nothing are replaced. -/
theorem decodeReplaceFrom_continuation {cs : List Byte}
    (h : ∀ b ∈ cs, 0x80 ≤ b.val ∧ b.val < 0xC0) (bs : List Byte) :
    decodeReplaceFrom .start (cs ++ bs)
      = List.replicate cs.length replacementChar ++ decodeReplaceFrom .start bs := by
  induction cs with
  | nil => rfl
  | cons b cs ih =>
    obtain ⟨hlo, hhi⟩ := h b List.mem_cons_self
    have hstep : utf8Step .start b = none := by
      rw [utf8Step, if_pos (show Utf8State.start.need = 0 from rfl), if_neg (by omega),
        if_pos (by omega)]
    rw [List.cons_append, decodeReplaceFrom, hstep]
    dsimp only
    rw [if_pos (show Utf8State.start.need = 0 from rfl),
      ih fun x hx => h x (List.mem_cons_of_mem b hx)]
    rfl

omit [PyFloat F] in
/-- **A text whose first bytes are missing** reads as replacements for what is left of a code
point, and the rest of the text. -/
theorem decodeReplace_drop {t : PyStr} (ht : Encodable t) {k : ℕ} (hk : k ≤ (utf8Bytes t).length)
    (bs : List Byte) : ∃ p u m, t = p ++ u ∧ (0 < k → p ≠ []) ∧
      decodeReplace ((utf8Bytes t).drop k ++ bs)
        = List.replicate m replacementChar ++ (u ++ decodeReplace bs) := by
  induction t generalizing k with
  | nil =>
    obtain rfl : k = 0 := Nat.le_zero.mp hk
    exact ⟨[], [], 0, rfl, fun h => absurd h (lt_irrefl 0), rfl⟩
  | cons c t ih =>
    have hc := (encodable_cons.mp ht).1
    have ht' := (encodable_cons.mp ht).2
    have hwhole : ∀ bs, decodeReplace (utf8Bytes t ++ bs) = t ++ decodeReplace bs := by
      clear ih hk
      intro bs
      induction t with
      | nil => rfl
      | cons d t iht =>
        have hd := encodable_cons.mp ht'
        rw [utf8Bytes_cons, List.append_assoc, decodeReplace,
          decodeReplaceFrom_utf8Char_append hd.1, ← decodeReplace,
          iht (encodable_cons.mpr ⟨hc, hd.2⟩) hd.2]
        rfl
    rw [utf8Bytes_cons] at hk ⊢
    rcases Nat.lt_or_ge k (utf8Char c).length with hlt | hge
    · rw [List.drop_append_of_le_length hlt.le, List.append_assoc]
      rcases Nat.eq_zero_or_pos k with rfl | hpos
      · refine ⟨[], c :: t, 0, rfl, fun h => absurd h (lt_irrefl 0), ?_⟩
        rw [List.drop_zero, decodeReplace, decodeReplaceFrom_utf8Char_append hc, ← decodeReplace,
          hwhole]
        rfl
      · -- the cut is in the first code point
        refine ⟨[c], t, ((utf8Char c).drop k).length, rfl, fun _ => List.cons_ne_nil _ _, ?_⟩
        rw [decodeReplace, decodeReplaceFrom_continuation, ← decodeReplace, hwhole]
        intro b hb
        apply continuation_of_mem_tail (c := c)
        obtain ⟨j, rfl⟩ : ∃ j, k = j + 1 := ⟨k - 1, by omega⟩
        rw [← List.drop_one]
        rw [Nat.add_comm, ← List.drop_drop] at hb
        exact List.mem_of_mem_drop hb
    · obtain ⟨p, u, m, rfl, hp, hread⟩ := ih ht' (k := k - (utf8Char c).length) (by
        rw [List.length_append] at hk
        omega)
      refine ⟨c :: p, u, m, rfl, fun _ => List.cons_ne_nil _ _, ?_⟩
      rw [List.drop_append, List.drop_eq_nil_of_le hge, List.nil_append]
      exact hread

omit [PyFloat F] in
/-- What is stripped off is white space. -/
theorem strip_spec (s : PyStr) : ∃ a b, s = a ++ (strip s ++ b) ∧ ∀ c ∈ b, c.isSpace = true := by
  refine ⟨s.takeWhile CodePoint.isSpace,
    ((s.dropWhile CodePoint.isSpace).reverse.takeWhile CodePoint.isSpace).reverse, ?_, ?_⟩
  · rw [strip, ← List.reverse_append, List.takeWhile_append_dropWhile, List.reverse_reverse,
      List.takeWhile_append_dropWhile]
  · intro c hc
    exact List.mem_takeWhile_imp (List.mem_reverse.mp hc)

theorem loads_replacement (s : PyStr) :
    (loads (replacementChar :: s) : Option (PyVal F)) = none := by
  have hlit : ∀ {c : CodePoint} {lit : PyStr} {v : PyVal F}, c ≠ replacementChar →
      scanLit (c :: lit) v (replacementChar :: s) = none := by
    intro c lit v hc
    simp [scanLit, List.isPrefixOf?, hc]
  have hnumber : (scanNumber (replacementChar :: s) : Option (PyVal F × PyStr)) = none := by
    have hdigit : digitVal replacementChar = none := by decide
    rw [scanNumber, scanMinus, if_neg (by decide), scanInt, hdigit]
    rfl
  rw [loads, skipWs_cons (by decide), show 2 * (replacementChar :: s).length + 2
    = 2 * (replacementChar :: s).length + 1 + 1 from rfl, parseValue_atom (by decide) (by decide)
    (by decide)]
  have hatom : (scanAtom (replacementChar :: s) : Option (PyVal F × PyStr)) = none := by
    unfold scanAtom py
    simp only [Option.or_eq_none_iff]
    refine ⟨hlit (by decide), hlit (by decide), hlit (by decide), hlit (by decide),
      hlit (by decide), hlit (by decide), hnumber⟩
  rw [hatom]

/-- **The text of a dict whose first bytes are missing does not load**, nor does it with a
newline behind it. -/
theorem loads_cut {st : Style} {kvs : List (Key F × PyVal F)} {t : PyStr}
    (h : print st (.dict kvs) = some t) (hj : st.ensureAscii = true → eachStrItems Joined kvs)
    (ht : Encodable t) {k : ℕ} (hpos : 0 < k) (hk : k ≤ (utf8Bytes t).length) :
    (loads (strip (decodeReplace ((utf8Bytes t).drop k ++ [10]))) : Option (PyVal F)) = none := by
  obtain ⟨p, u, m, htext, hp, hread⟩ := decodeReplace_drop ht hk [10]
  rw [hread, show decodeReplace [10] = [nl] by decide]
  obtain ⟨s, rfl⟩ := print_dict_shape h
  cases m with
  | zero =>
    rw [List.replicate_zero, List.nil_append, strip_concat_space (by decide)]
    obtain ⟨a, b, hu, hb⟩ := strip_spec u
    have hb' : b = [] := by
      rcases List.eq_nil_or_concat b with rfl | ⟨b, d, rfl⟩
      · rfl
      · exfalso
        rw [List.concat_eq_append] at hu hb
        rw [hu] at htext
        have hassoc : 123 :: s ++ [125] = p ++ (a ++ (strip u ++ b)) ++ [d] := htext.trans (by simp)
        obtain rfl := (List.cons.inj (List.append_inj' hassoc rfl).2).1
        exact absurd (hb 125 (by simp)) (by decide)
    subst hb'
    rw [List.append_nil] at hu
    refine loads_suffix h hj (p := p ++ a) ?_ ?_
    · rw [htext, List.append_assoc, ← hu]
    · exact fun hnil => hp hpos (List.append_eq_nil_iff.mp hnil).1
  | succ m =>
    -- a replacement is no white space and starts no value
    rw [List.replicate_succ, List.cons_append]
    rcases List.prefix_cons_iff.mp (strip_cons_isPrefix (a := replacementChar) (by decide)
      (List.replicate m replacementChar ++ (u ++ [nl]))) with hnil | ⟨r, hr, -⟩
    · rw [hnil]
      rfl
    · rw [hr]
      exact loads_replacement r

end

end Json
