import Daryl.Json.RoundTrip

/-!
# What a JSON text says about its value

Lines of JSON text are written, encoded, cut at newlines, stripped and read.
This module collects what those steps need: the shape of a text, when there is
one, when it encodes, and that printing does not tell a value from its `form`.

## Main results

* `print_form` — a value and its `form` have one text.
* `encodable_print` — a text encodes iff the strings of the value do.
* `exists_print` — with `allow_nan=True` there always is a text.
* `printable_object` — without it, an object of printable values has one.
* `exists_length_dumpsSorted` — the value of one key lengthens the text by its own length.
* `printable_readBack` — and what a reader gets of a value that has one.
-/

namespace Json

open Py

variable {F : Type} [PyFloat F] {st : Style}

/-! ### Texts of forms -/

theorem printKey_text {k : Key F} {t : PyStr} (h : printKey st k = some t) :
    printKey st (.str k.text : Key F) = some t := by
  unfold printKey at h
  split at h
  · simp only [Option.ite_none_right_eq_some] at h
    exact h.2
  · exact h

mutual

/-- **A value with sorted texts and its `form` have one text.** -/
theorem print_form : ∀ {v : PyVal F} {t : PyStr}, sortedText v → print st v = some t →
    print st (form v) = some t
  | .none, t, _, h | .bool _, t, _, h | .int _, t, _, h | .float _, t, _, h | .str _, t, _, h => h
  | .list vs, t, hs, h | .tuple vs, t, hs, h => by
    obtain ⟨u, hu, rfl⟩ := Option.map_eq_some_iff.mp h
    rw [form, print, printList_form (l := vs) hs hu, Option.map_some]
  | .dict kvs, t, hs, h => by
    obtain ⟨u, hu, rfl⟩ := Option.map_eq_some_iff.mp h
    rw [form, dictOf_eq_strItems (nodup_of_sortedText hs.2), print, printItems_form hs.1 hu,
      Option.map_some]

theorem printList_form : ∀ {l : List (PyVal F)} {t : PyStr}, sortedTextList l →
    printList st l = some t → printList st (formList l) = some t
  | [], t, _, h => h
  | v :: vs, t, hs, h => by
    simp only [printList, Option.bind_eq_some_iff, Option.map_eq_some_iff] at h
    obtain ⟨u, hu, u', hu', rfl⟩ := h
    rw [formList, printList, print_form hs.1 hu, Option.bind_some, printListTail_form hs.2 hu']
    rfl

theorem printListTail_form : ∀ {vs : List (PyVal F)} {t : PyStr}, sortedTextList vs →
    printListTail st vs = some t → printListTail st (formList vs) = some t
  | [], t, _, h => h
  | v :: vs, t, hs, h => by
    simp only [printListTail, Option.bind_eq_some_iff, Option.map_eq_some_iff] at h
    obtain ⟨u, hu, u', hu', rfl⟩ := h
    rw [formList, printListTail, print_form hs.1 hu, Option.bind_some,
      printListTail_form hs.2 hu']
    rfl

theorem printItems_form : ∀ {kvs : List (Key F × PyVal F)} {t : PyStr}, sortedTextItems kvs →
    printItems st kvs = some t →
    printItems st (strItems (formItems kvs) : List (Key F × PyVal F)) = some t
  | [], t, _, h => h
  | (k, v) :: kvs, t, hs, h => by
    simp only [printItems, Option.bind_eq_some_iff, Option.map_eq_some_iff] at h
    obtain ⟨tk, htk, u, hu, u', hu', rfl⟩ := h
    have ih := printItemsTail_form hs.2 hu'
    simp only [formItems, strItems, List.map_cons] at ih ⊢
    rw [printItems, printKey_text htk, Option.bind_some, print_form hs.1 hu, Option.bind_some, ih]
    rfl

theorem printItemsTail_form : ∀ {kvs : List (Key F × PyVal F)} {t : PyStr},
    sortedTextItems kvs → printItemsTail st kvs = some t →
    printItemsTail st (strItems (formItems kvs) : List (Key F × PyVal F)) = some t
  | [], t, _, h => h
  | (k, v) :: kvs, t, hs, h => by
    simp only [printItemsTail, Option.bind_eq_some_iff, Option.map_eq_some_iff] at h
    obtain ⟨tk, htk, u, hu, u', hu', rfl⟩ := h
    have ih := printItemsTail_form hs.2 hu'
    simp only [formItems, strItems, List.map_cons] at ih ⊢
    rw [printItemsTail, printKey_text htk, Option.bind_some, print_form hs.1 hu, Option.bind_some,
      ih]
    rfl

end

/-! ### Encoding -/

/-- Escaping does not hide a surrogate unless everything non-ASCII is escaped. -/
theorem encodable_escape (s : PyStr) : Encodable (escape false s) ↔ Encodable s := by
  have hchar : ∀ c : CodePoint, Encodable (escapeChar false c) ↔ c.isSurrogate = false := by
    intro c
    have hlow : ∀ t : PyStr, Within 32 126 t → c.val < 127 →
        (Encodable t ↔ c.isSurrogate = false) := by
      intro t ht hc
      refine iff_of_true (ht.encodable (by norm_num)) ?_
      simp [CodePoint.isSurrogate]
      omega
    unfold escapeChar
    split
    · next t ht =>
      refine hlow t (within_shortEscape ht) ?_
      unfold shortEscape at ht
      split_ifs at ht <;> omega
    · simp only [Bool.false_eq_true, if_false]
      split_ifs with hc
      · exact hlow _ (within_unicodeEscape _) (by omega)
      · simp
  induction s with
  | nil => simp [escape]
  | cons c s ih =>
    simp only [escape, List.flatMap_cons, encodable_append, hchar, encodable_cons]
    exact and_congr_right fun _ => ih

private theorem encodable_printStr (hst : st.ensureAscii = false) (s : PyStr) :
    Encodable (printStr st.ensureAscii s) ↔ Encodable s := by
  have hq : Encodable (py "\"") := by decide
  rw [printStr, hst]
  simp only [encodable_append, hq, true_and, and_true, encodable_escape]

private theorem encodable_printKey (hst : st.ensureAscii = false) {k : Key F} {t : PyStr}
    (h : printKey st k = some t) : Encodable t ↔ Encodable k.text := by
  have ht := printKey_eq h
  have hq : printStr st.ensureAscii k.text = 34 :: (escape st.ensureAscii k.text ++ [34]) := rfl
  rw [ht, ← hq, encodable_printStr hst]

private theorem encodable_seps (st : Style) : Encodable st.itemSep ∧ Encodable st.keySep := by
  unfold Style.itemSep Style.keySep
  split <;> exact ⟨by decide, by decide⟩

mutual

/-- **Without `ensure_ascii` a text encodes iff every string of the value does.** -/
theorem encodable_print (hst : st.ensureAscii = false) : ∀ {v : PyVal F} {t : PyStr},
    print st v = some t → (Encodable t ↔ eachStr Encodable v)
  | .none, t, h => by
    rw [print, Option.some.injEq] at h
    exact iff_of_true (h ▸ by decide) trivial
  | .bool b, t, h => by
    rw [print, Option.some.injEq] at h
    exact iff_of_true (h ▸ by cases b <;> decide) trivial
  | .int n, t, h => by
    rw [print, Option.some.injEq] at h
    exact iff_of_true (h ▸ (within_intStr n).encodable (by norm_num)) trivial
  | .float .nan, t, h => by
    simp only [print, printFloat, Option.ite_none_right_eq_some, Option.some.injEq] at h
    exact iff_of_true (h.2 ▸ by decide) trivial
  | .float (.inf neg), t, h => by
    simp only [print, printFloat, Option.ite_none_right_eq_some, Option.some.injEq] at h
    exact iff_of_true (h.2 ▸ by cases neg <;> decide) trivial
  | .float (.finite x), t, h => by
    simp only [print, printFloat, Option.some.injEq] at h
    exact iff_of_true (h ▸ (within_floatLit _).encodable (by norm_num)) trivial
  | .str s, t, h => by
    rw [print, Option.some.injEq] at h
    exact h ▸ encodable_printStr hst s
  | .list vs, t, h | .tuple vs, t, h => by
    obtain ⟨u, hu, rfl⟩ := Option.map_eq_some_iff.mp h
    have hb : Encodable (py "[") ∧ Encodable (py "]") := by decide
    simp only [encodable_append, hb.1, hb.2, true_and, and_true]
    exact encodable_printList hst hu
  | .dict kvs, t, h => by
    obtain ⟨u, hu, rfl⟩ := Option.map_eq_some_iff.mp h
    have hb : Encodable (py "\x7b") ∧ Encodable (py "\x7d") := by decide
    simp only [encodable_append, hb.1, hb.2, true_and, and_true]
    exact encodable_printItems hst hu

theorem encodable_printList (hst : st.ensureAscii = false) : ∀ {vs : List (PyVal F)} {t : PyStr},
    printList st vs = some t → (Encodable t ↔ eachStrList Encodable vs)
  | [], t, h => by
    rw [printList, Option.some.injEq] at h
    simp [← h, eachStrList]
  | v :: vs, t, h => by
    simp only [printList, Option.bind_eq_some_iff, Option.map_eq_some_iff] at h
    obtain ⟨u, hu, u', hu', rfl⟩ := h
    rw [encodable_append, encodable_print hst hu, encodable_printListTail hst hu', eachStrList]

theorem encodable_printListTail (hst : st.ensureAscii = false) :
    ∀ {vs : List (PyVal F)} {t : PyStr}, printListTail st vs = some t →
      (Encodable t ↔ eachStrList Encodable vs)
  | [], t, h => by
    rw [printListTail, Option.some.injEq] at h
    simp [← h, eachStrList]
  | v :: vs, t, h => by
    simp only [printListTail, Option.bind_eq_some_iff, Option.map_eq_some_iff] at h
    obtain ⟨u, hu, u', hu', rfl⟩ := h
    rw [encodable_append, encodable_append, encodable_print hst hu,
      encodable_printListTail hst hu', eachStrList]
    simp [encodable_seps st]

theorem encodable_printItems (hst : st.ensureAscii = false) :
    ∀ {kvs : List (Key F × PyVal F)} {t : PyStr}, printItems st kvs = some t →
      (Encodable t ↔ eachStrItems Encodable kvs)
  | [], t, h => by
    rw [printItems, Option.some.injEq] at h
    simp [← h, eachStrItems]
  | (k, v) :: kvs, t, h => by
    simp only [printItems, Option.bind_eq_some_iff, Option.map_eq_some_iff] at h
    obtain ⟨tk, htk, u, hu, u', hu', rfl⟩ := h
    simp only [encodable_append, encodable_printKey hst htk, encodable_print hst hu,
      encodable_printItemsTail hst hu', eachStrItems, encodable_seps st, true_and]

theorem encodable_printItemsTail (hst : st.ensureAscii = false) :
    ∀ {kvs : List (Key F × PyVal F)} {t : PyStr}, printItemsTail st kvs = some t →
      (Encodable t ↔ eachStrItems Encodable kvs)
  | [], t, h => by
    rw [printItemsTail, Option.some.injEq] at h
    simp [← h, eachStrItems]
  | (k, v) :: kvs, t, h => by
    simp only [printItemsTail, Option.bind_eq_some_iff, Option.map_eq_some_iff] at h
    obtain ⟨tk, htk, u, hu, u', hu', rfl⟩ := h
    simp only [encodable_append, encodable_printKey hst htk, encodable_print hst hu,
      encodable_printItemsTail hst hu', eachStrItems, encodable_seps st, true_and]

end

/-! ### Texts without restrictions -/

theorem exists_printKey (hst : st.allowNan = true) (k : Key F) : ∃ t, printKey st k = some t := by
  unfold printKey
  split
  · rw [if_pos hst]
    exact ⟨_, rfl⟩
  · exact ⟨_, rfl⟩

mutual

/-- With `allow_nan=True` every value has a text. -/
theorem exists_print (hst : st.allowNan = true) : ∀ v : PyVal F, ∃ t, print st v = some t
  | .none | .bool _ | .int _ | .str _ => ⟨_, rfl⟩
  | .float x => by
    rw [print, hst]
    cases x with
    | nan => exact ⟨_, rfl⟩
    | inf neg => exact ⟨_, rfl⟩
    | finite x => exact ⟨_, rfl⟩
  | .list vs | .tuple vs => by
    obtain ⟨t, ht⟩ := exists_printList hst vs
    rw [print, ht]
    exact ⟨_, rfl⟩
  | .dict kvs => by
    obtain ⟨t, ht⟩ := exists_printItems hst kvs
    rw [print, ht]
    exact ⟨_, rfl⟩

theorem exists_printList (hst : st.allowNan = true) :
    ∀ vs : List (PyVal F), ∃ t, printList st vs = some t
  | [] => ⟨_, rfl⟩
  | v :: vs => by
    obtain ⟨t, ht⟩ := exists_print hst v
    obtain ⟨t', ht'⟩ := exists_printListTail hst vs
    rw [printList, ht, Option.bind_some, ht']
    exact ⟨_, rfl⟩

theorem exists_printListTail (hst : st.allowNan = true) :
    ∀ vs : List (PyVal F), ∃ t, printListTail st vs = some t
  | [] => ⟨_, rfl⟩
  | v :: vs => by
    obtain ⟨t, ht⟩ := exists_print hst v
    obtain ⟨t', ht'⟩ := exists_printListTail hst vs
    rw [printListTail, ht, Option.bind_some, ht']
    exact ⟨_, rfl⟩

theorem exists_printItems (hst : st.allowNan = true) :
    ∀ kvs : List (Key F × PyVal F), ∃ t, printItems st kvs = some t
  | [] => ⟨_, rfl⟩
  | (k, v) :: kvs => by
    obtain ⟨tk, htk⟩ := exists_printKey hst k
    obtain ⟨t, ht⟩ := exists_print hst v
    obtain ⟨t', ht'⟩ := exists_printItemsTail hst kvs
    rw [printItems, htk, Option.bind_some, ht, Option.bind_some, ht']
    exact ⟨_, rfl⟩

theorem exists_printItemsTail (hst : st.allowNan = true) :
    ∀ kvs : List (Key F × PyVal F), ∃ t, printItemsTail st kvs = some t
  | [] => ⟨_, rfl⟩
  | (k, v) :: kvs => by
    obtain ⟨tk, htk⟩ := exists_printKey hst k
    obtain ⟨t, ht⟩ := exists_print hst v
    obtain ⟨t', ht'⟩ := exists_printItemsTail hst kvs
    rw [printItemsTail, htk, Option.bind_some, ht, Option.bind_some, ht']
    exact ⟨_, rfl⟩

end

/-! ### Objects -/

/-- `json.dumps(v, ..., sort_keys=True)` writes a text. -/
def Printable (st : Style) (v : PyVal F) : Prop := ∃ w t, sortDicts v = some w ∧ print st w = some t

theorem exists_printItemsTail_of {kvs : List (Key F × PyVal F)}
    (h : ∀ kv ∈ kvs, (∃ tk, printKey st kv.1 = some tk) ∧ ∃ t, print st kv.2 = some t) :
    ∃ t, printItemsTail st kvs = some t := by
  induction kvs with
  | nil => exact ⟨[], rfl⟩
  | cons kv kvs ih =>
    obtain ⟨⟨tk, htk⟩, t, ht⟩ := h kv List.mem_cons_self
    obtain ⟨t', ht'⟩ := ih fun x hx => h x (List.mem_cons_of_mem _ hx)
    rw [printItemsTail, htk, Option.bind_some, ht, Option.bind_some, ht']
    exact ⟨_, rfl⟩

/-- A dict has a text when its keys and values have. -/
theorem exists_printDict {kvs : List (Key F × PyVal F)}
    (h : ∀ kv ∈ kvs, (∃ tk, printKey st kv.1 = some tk) ∧ ∃ t, print st kv.2 = some t) :
    ∃ t, print st (.dict kvs) = some t := by
  cases kvs with
  | nil => exact ⟨_, rfl⟩
  | cons kv kvs =>
    obtain ⟨⟨tk, htk⟩, t, ht⟩ := h kv List.mem_cons_self
    obtain ⟨t', ht'⟩ := exists_printItemsTail_of fun x hx => h x (List.mem_cons_of_mem _ hx)
    rw [print, printItems, htk, Option.bind_some, ht, Option.bind_some, ht']
    exact ⟨_, rfl⟩

theorem exists_print_of_printItemsTail : ∀ {kvs : List (Key F × PyVal F)} {t : PyStr},
    printItemsTail st kvs = some t →
      ∀ kv ∈ kvs, (∃ tk, printKey st kv.1 = some tk) ∧ ∃ u, print st kv.2 = some u
  | (k, v) :: kvs, t, h, kv, hkv => by
    simp only [printItemsTail, Option.bind_eq_some_iff, Option.map_eq_some_iff] at h
    obtain ⟨tk, htk, u, hu, t', ht', -⟩ := h
    rcases List.mem_cons.mp hkv with rfl | hkv
    · exact ⟨⟨tk, htk⟩, u, hu⟩
    · exact exists_print_of_printItemsTail ht' kv hkv

/-- The keys and values of a dict that has a text have one. -/
theorem exists_print_of_printDict {kvs : List (Key F × PyVal F)} {t : PyStr}
    (h : print st (.dict kvs) = some t) :
    ∀ kv ∈ kvs, (∃ tk, printKey st kv.1 = some tk) ∧ ∃ u, print st kv.2 = some u := by
  obtain ⟨t', ht', -⟩ := Option.map_eq_some_iff.mp h
  cases kvs with
  | nil =>
    intro kv hkv
    cases hkv
  | cons p kvs =>
    simp only [printItems, Option.bind_eq_some_iff, Option.map_eq_some_iff] at ht'
    obtain ⟨tk, htk, u, hu, t'', ht'', -⟩ := ht'
    intro kv hkv
    rcases List.mem_cons.mp hkv with rfl | hkv
    · exact ⟨⟨tk, htk⟩, u, hu⟩
    · exact exists_print_of_printItemsTail ht'' kv hkv

theorem exists_printListTail_iff : ∀ {l : List (PyVal F)},
    (∃ t, printListTail st l = some t) ↔ ∀ v ∈ l, ∃ t, print st v = some t
  | [] => by simp [printListTail]
  | v :: vs => by
    rw [List.forall_mem_cons, ← exists_printListTail_iff (l := vs)]
    constructor
    · rintro ⟨t, h⟩
      simp only [printListTail, Option.bind_eq_some_iff, Option.map_eq_some_iff] at h
      obtain ⟨u, hu, u', hu', -⟩ := h
      exact ⟨⟨u, hu⟩, u', hu'⟩
    · rintro ⟨⟨u, hu⟩, u', hu'⟩
      rw [printListTail, hu, Option.bind_some, hu']
      exact ⟨_, rfl⟩

/-- A list has a text iff its elements have. -/
theorem exists_printList_iff {vs : List (PyVal F)} :
    (∃ t, printList st vs = some t) ↔ ∀ v ∈ vs, ∃ t, print st v = some t := by
  rw [← exists_printListTail_iff]
  cases vs with
  | nil => exact iff_of_true ⟨_, rfl⟩ ⟨_, rfl⟩
  | cons v vs =>
    simp only [printList, printListTail, Option.bind_eq_some_iff, Option.map_eq_some_iff]
    constructor
    · rintro ⟨t, u, hu, u', hu', -⟩
      exact ⟨_, u, hu, u', hu', rfl⟩
    · rintro ⟨t, u, hu, u', hu', -⟩
      exact ⟨_, u, hu, u', hu', rfl⟩

mutual

/-- A value that has a text is read back as one that has. -/
theorem exists_print_form : ∀ {v : PyVal F} {t : PyStr}, print st v = some t →
    ∃ t', print st (form v) = some t'
  | .none, t, h | .bool _, t, h | .int _, t, h | .float _, t, h | .str _, t, h => ⟨t, h⟩
  | .list vs, t, h | .tuple vs, t, h => by
    obtain ⟨u, hu, -⟩ := Option.map_eq_some_iff.mp h
    obtain ⟨u', hu'⟩ := exists_printList_iff.mpr
      (exists_print_formList (exists_printList_iff.mp ⟨u, hu⟩))
    rw [form, print, hu']
    exact ⟨_, rfl⟩
  | .dict kvs, t, h => by
    rw [form]
    apply exists_printDict
    intro kv hkv
    obtain ⟨p, hp, rfl⟩ := mem_dictOf hkv
    exact ⟨⟨_, rfl⟩, exists_print_formItems
      (fun kv hkv => (exists_print_of_printDict h kv hkv).2) p hp⟩

theorem exists_print_formList : ∀ {vs : List (PyVal F)}, (∀ v ∈ vs, ∃ t, print st v = some t) →
    ∀ v ∈ formList vs, ∃ t, print st v = some t
  | [], _, v, hv => by cases hv
  | w :: vs, h, v, hv => by
    rcases List.mem_cons.mp hv with rfl | hv
    · obtain ⟨t, ht⟩ := h w List.mem_cons_self
      exact exists_print_form ht
    · exact exists_print_formList (fun x hx => h x (List.mem_cons_of_mem _ hx)) v hv

theorem exists_print_formItems : ∀ {kvs : List (Key F × PyVal F)},
    (∀ kv ∈ kvs, ∃ t, print st kv.2 = some t) → ∀ p ∈ formItems kvs, ∃ t, print st p.2 = some t
  | [], _, p, hp => by cases hp
  | (k, v) :: kvs, h, p, hp => by
    rcases List.mem_cons.mp hp with rfl | hp
    · obtain ⟨t, ht⟩ := h _ List.mem_cons_self
      exact exists_print_form ht
    · exact exists_print_formItems (fun x hx => h x (List.mem_cons_of_mem _ hx)) p hp

end

mutual

/-- A value that has a text has one when it is sorted. -/
theorem exists_print_of_sortDicts : ∀ {v w : PyVal F} {t : PyStr}, sortDicts v = some w →
    print st v = some t → ∃ t', print st w = some t'
  | .none, w, t, hw, h | .bool _, w, t, hw, h | .int _, w, t, hw, h | .float _, w, t, hw, h
  | .str _, w, t, hw, h => Option.some.inj hw ▸ ⟨t, h⟩
  | .list vs, w, t, hw, h | .tuple vs, w, t, hw, h => by
    obtain ⟨ws, hws, rfl⟩ := Option.map_eq_some_iff.mp hw
    obtain ⟨u, hu, -⟩ := Option.map_eq_some_iff.mp h
    obtain ⟨u', hu'⟩ := exists_printList_iff.mpr
      (exists_print_of_sortDictsList hws (exists_printList_iff.mp ⟨u, hu⟩))
    rw [print, hu']
    exact ⟨_, rfl⟩
  | .dict kvs, w, t, hw, h => by
    simp only [sortDicts, Option.bind_eq_some_iff, Option.map_eq_some_iff] at hw
    obtain ⟨kvs', hkvs', out, hout, rfl⟩ := hw
    have hprint := exists_print_of_sortDictsItems hkvs' (exists_print_of_printDict h)
    exact exists_printDict fun kv hkv => hprint kv ((perm_of_sortItems hout).mem_iff.mp hkv)

theorem exists_print_of_sortDictsList : ∀ {vs ws : List (PyVal F)}, sortDictsList vs = some ws →
    (∀ v ∈ vs, ∃ t, print st v = some t) → ∀ w ∈ ws, ∃ t, print st w = some t
  | [], ws, hws, _, w, hw => by
    obtain rfl := Option.some.inj hws
    cases hw
  | v :: vs, ws, hws, h, w, hw => by
    simp only [sortDictsList, Option.bind_eq_some_iff, Option.map_eq_some_iff] at hws
    obtain ⟨v', hv', ws', hws', rfl⟩ := hws
    rcases List.mem_cons.mp hw with rfl | hw
    · obtain ⟨t, ht⟩ := h v List.mem_cons_self
      exact exists_print_of_sortDicts hv' ht
    · exact exists_print_of_sortDictsList hws' (fun x hx => h x (List.mem_cons_of_mem _ hx)) w hw

theorem exists_print_of_sortDictsItems : ∀ {kvs kvs' : List (Key F × PyVal F)},
    sortDictsItems kvs = some kvs' →
    (∀ kv ∈ kvs, (∃ tk, printKey st kv.1 = some tk) ∧ ∃ t, print st kv.2 = some t) →
    ∀ kv ∈ kvs', (∃ tk, printKey st kv.1 = some tk) ∧ ∃ t, print st kv.2 = some t
  | [], kvs', hkvs, _, kv, hkv => by
    obtain rfl := Option.some.inj hkvs
    cases hkv
  | (k, v) :: kvs, kvs', hkvs, h, kv, hkv => by
    simp only [sortDictsItems, Option.bind_eq_some_iff, Option.map_eq_some_iff] at hkvs
    obtain ⟨v', hv', kvs'', hkvs'', rfl⟩ := hkvs
    rcases List.mem_cons.mp hkv with rfl | hkv
    · obtain ⟨hkey, t, ht⟩ := h _ List.mem_cons_self
      exact ⟨hkey, exists_print_of_sortDicts hv' ht⟩
    · exact exists_print_of_sortDictsItems hkvs'' (fun x hx => h x (List.mem_cons_of_mem _ hx)) kv
        hkv

end

/-- **What a reader gets of a printable value is printable.** -/
theorem printable_readBack {v : PyVal F} (h : Printable st v) : Printable st (readBack v) := by
  obtain ⟨w, t, hw, ht⟩ := h
  rw [readBack_of_sortDicts hw]
  obtain ⟨u, hu, -⟩ := sortDicts_of_stable (stable_form w)
  obtain ⟨t', ht'⟩ := exists_print_form ht
  obtain ⟨t'', ht''⟩ := exists_print_of_sortDicts hu ht'
  exact ⟨u, t'', hu, ht''⟩

theorem exists_sortDictsList {vs : List (PyVal F)} (h : ∀ v ∈ vs, ∃ w, sortDicts v = some w) :
    ∃ ws, sortDictsList vs = some ws := by
  induction vs with
  | nil => exact ⟨[], rfl⟩
  | cons v vs ih =>
    obtain ⟨w, hw⟩ := h v List.mem_cons_self
    obtain ⟨ws, hws⟩ := ih fun x hx => h x (List.mem_cons_of_mem _ hx)
    exact ⟨w :: ws, by rw [sortDictsList, hw, Option.bind_some, hws, Option.map_some]⟩

/-- With `allow_nan=True` a list of printable values is printable. -/
theorem printable_list (hst : st.allowNan = true) {vs : List (PyVal F)}
    (h : ∀ v ∈ vs, Printable st v) : Printable st (.list vs) := by
  obtain ⟨ws, hws⟩ := exists_sortDictsList fun v hv => (h v hv).imp fun w hw => hw.choose_spec.1
  obtain ⟨t, ht⟩ := exists_print hst (.list ws : PyVal F)
  exact ⟨.list ws, t, by rw [sortDicts, hws, Option.map_some], ht⟩

theorem sortDictsItems_append {kvs kvs' a b : List (Key F × PyVal F)} (h : sortDictsItems kvs = some a)
    (h' : sortDictsItems kvs' = some b) : sortDictsItems (kvs ++ kvs') = some (a ++ b) := by
  induction kvs generalizing a with
  | nil =>
    cases h
    exact h'
  | cons kv kvs ih =>
    simp only [sortDictsItems, Option.bind_eq_some_iff, Option.map_eq_some_iff] at h
    obtain ⟨w, hw, a, ha, rfl⟩ := h
    rw [List.cons_append, sortDictsItems, hw, Option.bind_some, ih ha, Option.map_some,
      List.cons_append]

/-- Items of printable values, sorted inside. -/
theorem exists_sortDictsItems_strItems {ps : List (PyStr × PyVal F)}
    (h : ∀ p ∈ ps, Printable st p.2) :
    ∃ qs : List (PyStr × PyVal F), sortDictsItems (strItems ps) = some (strItems qs) ∧
      qs.map Prod.fst = ps.map Prod.fst ∧ ∀ q ∈ qs, ∃ t, print st q.2 = some t := by
  induction ps with
  | nil => exact ⟨[], rfl, rfl, List.forall_mem_nil _⟩
  | cons p ps ih =>
    obtain ⟨w, t, hw, ht⟩ := h p List.mem_cons_self
    obtain ⟨qs, hqs, hkeys, hprint⟩ := ih fun x hx => h x (List.mem_cons_of_mem _ hx)
    refine ⟨(p.1, w) :: qs, ?_, by rw [List.map_cons, List.map_cons, hkeys], ?_⟩
    · rw [strItems, List.map_cons, sortDictsItems, hw, Option.bind_some]
      rw [strItems] at hqs
      rw [hqs]
      rfl
    · intro q hq
      rcases List.mem_cons.mp hq with rfl | hq
      · exact ⟨t, ht⟩
      · exact hprint q hq

/-- **An object of printable values is printable.** -/
theorem printable_object {ps : List (PyStr × PyVal F)} (h : ∀ p ∈ ps, Printable st p.2) :
    Printable st (.dict (strItems ps)) := by
  obtain ⟨qs, hqs, -, hprint⟩ := exists_sortDictsItems_strItems h
  obtain ⟨kvs, hkvs⟩ : ∃ kvs, sortItems (strItems qs : List (Key F × PyVal F)) = some kvs := by
    have hall : (strItems qs : List (Key F × PyVal F)).all (fun kv => kv.1.str?.isSome) = true := by
      simp [strItems, Key.str?]
    unfold sortItems
    rw [if_pos hall]
    split_ifs
    · exact ⟨_, rfl⟩
    · exact ⟨_, rfl⟩
  obtain ⟨t, ht⟩ : ∃ t, print st (.dict kvs) = some t := by
    apply exists_printDict
    intro kv hkv
    obtain ⟨q, hq, rfl⟩ := List.mem_map.mp ((perm_of_sortItems hkvs).mem_iff.mp hkv)
    exact ⟨⟨_, rfl⟩, hprint q hq⟩
  exact ⟨.dict kvs, t, by rw [sortDicts, hqs, Option.bind_some, hkvs, Option.map_some], ht⟩

/-! ### The length of a text -/

/-- The texts of the items of a dict but for the one at a place. -/
theorem exists_length_printItemsTail {A B : List (PyStr × PyVal F)} (k : PyStr)
    (h : ∀ q ∈ A ++ B, ∃ t, print st q.2 = some t) :
    ∃ n, ∀ v : PyVal F, ∀ u, print st v = some u →
      ∃ t, printItemsTail st (strItems (A ++ (k, v) :: B)) = some t ∧
        t.length = st.itemSep.length + n + u.length := by
  induction A with
  | nil =>
    obtain ⟨t', ht'⟩ : ∃ t, printItemsTail st (strItems B : List (Key F × PyVal F)) = some t := by
      apply exists_printItemsTail_of
      intro kv hkv
      obtain ⟨q, hq, rfl⟩ := List.mem_map.mp hkv
      exact ⟨⟨_, rfl⟩, h q hq⟩
    refine ⟨(printStr st.ensureAscii k ++ (st.keySep ++ t')).length, ?_⟩
    intro v u hu
    refine ⟨st.itemSep ++ (printStr st.ensureAscii k ++ (st.keySep ++ (u ++ t'))), ?_, ?_⟩
    · rw [List.nil_append, strItems, List.map_cons, ← strItems, printItemsTail, hu, ht']
      rfl
    · simp only [List.length_append]
      omega
  | cons q A ih =>
    obtain ⟨t, ht⟩ := h q List.mem_cons_self
    obtain ⟨n, hn⟩ := ih fun x hx => h x (List.mem_cons_of_mem _ hx)
    refine ⟨n + (st.itemSep ++ (printStr st.ensureAscii q.1 ++ (st.keySep ++ t))).length, ?_⟩
    intro v u hu
    obtain ⟨t', ht', hlen⟩ := hn v u hu
    refine ⟨st.itemSep ++ (printStr st.ensureAscii q.1 ++ (st.keySep ++ (t ++ t'))), ?_, ?_⟩
    · rw [List.cons_append, strItems, List.map_cons, ← strItems, printItemsTail, ht, ht']
      rfl
    · simp only [List.length_append] at hlen ⊢
      omega

/-- A dict's text but for the value at a place. -/
theorem exists_length_printDict {A B : List (PyStr × PyVal F)} (k : PyStr)
    (h : ∀ q ∈ A ++ B, ∃ t, print st q.2 = some t) :
    ∃ n, ∀ v : PyVal F, ∀ u, print st v = some u →
      ∃ t, print st (.dict (strItems (A ++ (k, v) :: B))) = some t ∧ t.length = n + u.length := by
  obtain ⟨n, hn⟩ := exists_length_printItemsTail k h
  -- the text of the items is that of a tail, less the separator in front
  refine ⟨n + 2, fun v u hu => ?_⟩
  obtain ⟨t, ht, hlen⟩ := hn v u hu
  obtain ⟨t', ht', rfl⟩ : ∃ t', printItems st (strItems (A ++ (k, v) :: B)) = some t' ∧
      t = st.itemSep ++ t' := by
    revert ht
    cases A <;>
    · simp only [List.nil_append, List.cons_append, strItems, List.map_cons, printItemsTail, printItems,
        Option.bind_eq_some_iff, Option.map_eq_some_iff]
      rintro ⟨tk, htk, w, hw, r, hr, rfl⟩
      exact ⟨_, ⟨tk, htk, w, hw, r, hr, rfl⟩, rfl⟩
  refine ⟨py "\x7b" ++ t' ++ py "\x7d", by rw [print, ht', Option.map_some], ?_⟩
  rw [List.length_append] at hlen
  simp only [List.length_append, show (py "\x7b").length = 1 from rfl, show (py "\x7d").length = 1 from rfl]
  omega

/-- **Of an object that differs in the value of one key, the text differs in length as the value's
does**, wherever the order of the keys puts it. -/
theorem exists_length_dumpsSorted {ps : List (PyStr × PyVal F)} {k : PyStr}
    (hkeys : (ps.map Prod.fst ++ [k]).Nodup) (h : ∀ p ∈ ps, Printable st p.2) :
    ∃ n, ∀ v : PyVal F, ∀ u, sortDicts v = some v → print st v = some u →
      ∃ t, dumpsSorted st (.dict (strItems (ps ++ [(k, v)]))) = .ok t ∧ t.length = n + u.length := by
  obtain ⟨qs, hqs, hfst, hprint⟩ := exists_sortDictsItems_strItems h
  -- the place of the key is that of the key with any value
  obtain ⟨rs, hperm, hlt, -⟩ := @exists_sortItems_strItems F (PyVal F) _ (qs ++ [(k, .none)])
    (by rwa [List.map_append, hfst])
  obtain ⟨A, B, rfl⟩ := List.append_of_mem (hperm.mem_iff.mpr (List.mem_append_right _ List.mem_cons_self))
  have hAB : (A ++ B).Perm qs := by
    have hmiddle := (List.perm_middle.symm.trans hperm).trans List.perm_append_comm
    exact hmiddle.cons_inv
  obtain ⟨n, hn⟩ := exists_length_printDict k fun q hq => hprint q (hAB.mem_iff.mp hq)
  refine ⟨n, fun v u hv hu => ?_⟩
  obtain ⟨t, ht, hlen⟩ := hn v u hu
  refine ⟨t, dumpsSorted_eq_ok.mpr ⟨_, ?_, ht⟩, hlen⟩
  have hitems : sortDictsItems (strItems (ps ++ [(k, v)])) = some (strItems (qs ++ [(k, v)])) := by
    have hlast : sortDictsItems (strItems [(k, v)]) = some (strItems [(k, v)]) := by
      simp [strItems, sortDictsItems, hv]
    rw [strItems, strItems, List.map_append, List.map_append]
    exact sortDictsItems_append hqs hlast
  have hsort : sortItems (strItems (qs ++ [(k, v)]) : List (Key F × PyVal F)) =
      some (strItems (A ++ (k, v) :: B)) := by
    refine sortItems_perm (List.perm_middle.trans ((hAB.cons _).trans ?_)) ?_
    · exact (@List.perm_append_comm _ qs [(k, v)]).symm
    · rwa [List.map_append, List.map_cons] at hlt ⊢
  rw [sortDicts, hitems, Option.bind_some, hsort, Option.map_some]

/-! ### Lines -/

/-- The text of a dict stands between braces. -/
theorem print_dict_shape {kvs : List (Key F × PyVal F)} {t : PyStr}
    (h : print st (.dict kvs) = some t) : ∃ s, t = 123 :: s ++ [125] := by
  obtain ⟨u, -, rfl⟩ := Option.map_eq_some_iff.mp h
  exact ⟨u, by simp only [py]; rfl⟩

/-- Stripping leaves the text of a dict alone. -/
theorem strip_print_dict {kvs : List (Key F × PyVal F)} {t : PyStr}
    (h : print st (.dict kvs) = some t) : strip t = t := by
  obtain ⟨s, rfl⟩ := print_dict_shape h
  exact strip_eq_self (by decide) (by decide)

/-- A text is one line. -/
theorem nl_notMem_print {v : PyVal F} {t : PyStr} (h : print st v = some t) : nl ∉ t := by
  intro hmem
  have := (within_print h nl hmem).1
  exact absurd this (by decide)

theorem cr_notMem_print {v : PyVal F} {t : PyStr} (h : print st v = some t) : cr ∉ t := by
  intro hmem
  have := (within_print h cr hmem).1
  exact absurd this (by decide)

end Json
