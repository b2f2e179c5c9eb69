import Daryl.Json.Text

/-!
# Texts with and without `ensure_ascii`

The two ways to write a string agree where it is printable ASCII, the escaped control characters
included, and there alone: what `ensure_ascii` writes is printable ASCII throughout.

## Main definitions

* `Ascii` — a string below `DEL`.
* `unescaped` — a style, without `ensure_ascii`.
* `distinct` — no two keys of a dict have one text.

## Main results

* `within_print_iff` — a text without `ensure_ascii` is printable ASCII exactly when its strings
  are `Ascii`.
* `print_ascii_iff` — **`ensure_ascii` makes no difference exactly when they are.**
* `print_readBack_iff` — **a value that was read back has the text that was written, under
  `ensure_ascii`, exactly when its strings are `Ascii` and its keys stable.**
-/

namespace Json

open Py

/-- Every code point of the string is below `DEL`. -/
def Ascii (s : PyStr) : Prop := ∀ c ∈ s, c.val < 127

instance (s : PyStr) : Decidable (Ascii s) := List.decidableBAll _ s

theorem ascii_of_within {lo hi : ℕ} {s : PyStr} (h : Within lo hi s) (hhi : hi ≤ 126) : Ascii s := by
  intro c hc
  have hle := (h c hc).2
  omega

theorem Ascii.encodable {s : PyStr} (h : Ascii s) : Encodable s := by
  intro c hc
  have hlt := h c hc
  simp [CodePoint.isSurrogate]
  omega

/-- The style, without `ensure_ascii`. -/
def Style.unescaped (st : Style) : Style := { st with ensureAscii := false }

/-- The style, with it. -/
def Style.escaped (st : Style) : Style := { st with ensureAscii := true }

/-! ### Strings -/

theorem within_escapeChar_false_iff (c : CodePoint) :
    Within 32 126 (escapeChar false c) ↔ c.val < 127 := by
  unfold escapeChar
  cases hs : shortEscape c with
  | some s =>
    refine iff_of_true (within_shortEscape hs) ?_
    unfold shortEscape at hs
    split_ifs at hs <;> omega
  | none =>
    dsimp only
    rw [if_neg Bool.false_ne_true]
    split_ifs with h
    · exact iff_of_true (within_unicodeEscape _) (by omega)
    · rw [within_cons, and_iff_left within_nil]
      omega

theorem within_escape_false_iff (s : PyStr) : Within 32 126 (escape false s) ↔ Ascii s := by
  induction s with
  | nil => exact iff_of_true within_nil (List.forall_mem_nil _)
  | cons c s ih =>
    have hcons : escape false (c :: s) = escapeChar false c ++ escape false s := List.flatMap_cons
    rw [hcons, within_append, within_escapeChar_false_iff, ih, Ascii, Ascii, List.forall_mem_cons]

theorem escapeChar_ascii {c : CodePoint} (h : c.val < 127) :
    escapeChar true c = escapeChar false c := by
  unfold escapeChar
  cases shortEscape c with
  | some s => rfl
  | none =>
    dsimp only
    rw [if_pos rfl, if_neg Bool.false_ne_true]
    by_cases hc : c.val < 32
    · rw [if_neg (by omega), dif_pos (by omega), dif_pos hc]
    · rw [if_pos (by omega), dif_neg hc]

theorem escape_ascii {s : PyStr} (h : Ascii s) : escape true s = escape false s :=
  List.flatMap_congr fun c hc => escapeChar_ascii (h c hc)

theorem printStr_ascii {s : PyStr} (h : Ascii s) : printStr true s = printStr false s := by
  rw [printStr, printStr, escape_ascii h]

theorem within_printStr_iff (s : PyStr) : Within 32 126 (printStr false s) ↔ Ascii s := by
  have hquote : Within 32 126 (py "\"") := by decide
  rw [printStr, within_append, within_append, within_escape_false_iff, and_iff_left hquote,
    and_iff_right hquote]

/-! ### Values -/

section

variable {F : Type} [PyFloat F] {st : Style}

theorem printKey_ascii {k : Key F} (h : Ascii k.text) :
    printKey st.escaped k = printKey st.unescaped k := by
  unfold printKey
  rw [Style.escaped, Style.unescaped, printStr_ascii h]

theorem within_printKey_iff {k : Key F} {t : PyStr} (h : printKey st.unescaped k = some t) :
    Within 32 126 t ↔ Ascii k.text := by
  rw [printKey_eq h]
  exact within_printStr_iff k.text

theorem within_itemSep_unescaped : Within 32 126 st.unescaped.itemSep := by
  unfold Style.itemSep
  split <;> decide

theorem within_keySep_unescaped : Within 32 126 st.unescaped.keySep := by
  unfold Style.keySep
  split <;> decide

theorem within_printFloat {allowNan : Bool} {x : FloatVal F} {t : PyStr}
    (h : printFloat allowNan x = some t) : Within 32 126 t := by
  cases x with
  | nan =>
    obtain ⟨-, ht⟩ := Option.ite_none_right_eq_some.mp h
    obtain rfl := Option.some.inj ht
    decide
  | inf neg =>
    obtain ⟨-, ht⟩ := Option.ite_none_right_eq_some.mp h
    obtain rfl := Option.some.inj ht
    cases neg <;> decide
  | finite x => exact Option.some.inj h ▸ within_floatLit _

mutual

/-- **A text that escapes nothing is printable ASCII exactly when its strings are.** -/
theorem within_print_iff : ∀ {v : PyVal F} {t : PyStr}, print st.unescaped v = some t →
    (Within 32 126 t ↔ eachStr Ascii v)
  | .none, t, h => by
    obtain rfl := Option.some.inj h
    exact iff_of_true (by decide) trivial
  | .bool b, t, h => by
    obtain rfl := Option.some.inj h
    exact iff_of_true (by cases b <;> decide) trivial
  | .int n, t, h => by
    obtain rfl := Option.some.inj h
    exact iff_of_true ((within_intStr n).mono (by norm_num) (by norm_num)) trivial
  | .float x, t, h => iff_of_true (within_printFloat h) trivial
  | .str s, t, h => by
    obtain rfl := Option.some.inj h
    exact within_printStr_iff s
  | .list vs, t, h | .tuple vs, t, h => by
    obtain ⟨u, hu, rfl⟩ := Option.map_eq_some_iff.mp h
    have hopen : Within 32 126 (py "[") := by decide
    have hclose : Within 32 126 (py "]") := by decide
    rw [within_append, within_append, and_iff_left hclose, and_iff_right hopen]
    exact within_printList_iff hu
  | .dict kvs, t, h => by
    obtain ⟨u, hu, rfl⟩ := Option.map_eq_some_iff.mp h
    have hopen : Within 32 126 (py "\x7b") := by decide
    have hclose : Within 32 126 (py "\x7d") := by decide
    rw [within_append, within_append, and_iff_left hclose, and_iff_right hopen]
    exact within_printItems_iff hu

theorem within_printList_iff : ∀ {vs : List (PyVal F)} {t : PyStr},
    printList st.unescaped vs = some t → (Within 32 126 t ↔ eachStrList Ascii vs)
  | [], t, h => by
    obtain rfl := Option.some.inj h
    exact iff_of_true within_nil trivial
  | v :: vs, t, h => by
    simp only [printList, Option.bind_eq_some_iff, Option.map_eq_some_iff] at h
    obtain ⟨u, hu, u', hu', rfl⟩ := h
    rw [within_append, within_print_iff hu, within_printListTail_iff hu']
    rfl

theorem within_printListTail_iff : ∀ {vs : List (PyVal F)} {t : PyStr},
    printListTail st.unescaped vs = some t → (Within 32 126 t ↔ eachStrList Ascii vs)
  | [], t, h => by
    obtain rfl := Option.some.inj h
    exact iff_of_true within_nil trivial
  | v :: vs, t, h => by
    simp only [printListTail, Option.bind_eq_some_iff, Option.map_eq_some_iff] at h
    obtain ⟨u, hu, u', hu', rfl⟩ := h
    rw [within_append, within_append, and_iff_right within_itemSep_unescaped, within_print_iff hu,
      within_printListTail_iff hu']
    rfl

theorem within_printItems_iff : ∀ {kvs : List (Key F × PyVal F)} {t : PyStr},
    printItems st.unescaped kvs = some t → (Within 32 126 t ↔ eachStrItems Ascii kvs)
  | [], t, h => by
    obtain rfl := Option.some.inj h
    exact iff_of_true within_nil trivial
  | (k, v) :: kvs, t, h => by
    simp only [printItems, Option.bind_eq_some_iff, Option.map_eq_some_iff] at h
    obtain ⟨tk, htk, u, hu, u', hu', rfl⟩ := h
    rw [within_append, within_append, within_append, and_iff_right within_keySep_unescaped,
      within_printKey_iff htk, within_print_iff hu, within_printItemsTail_iff hu']
    rfl

theorem within_printItemsTail_iff : ∀ {kvs : List (Key F × PyVal F)} {t : PyStr},
    printItemsTail st.unescaped kvs = some t → (Within 32 126 t ↔ eachStrItems Ascii kvs)
  | [], t, h => by
    obtain rfl := Option.some.inj h
    exact iff_of_true within_nil trivial
  | (k, v) :: kvs, t, h => by
    simp only [printItemsTail, Option.bind_eq_some_iff, Option.map_eq_some_iff] at h
    obtain ⟨tk, htk, u, hu, u', hu', rfl⟩ := h
    rw [within_append, within_append, within_append, within_append,
      and_iff_right within_itemSep_unescaped, and_iff_right within_keySep_unescaped,
      within_printKey_iff htk, within_print_iff hu, within_printItemsTail_iff hu']
    rfl

end

mutual

/-- Strings of printable ASCII are written alike. -/
theorem print_ascii : ∀ {v : PyVal F}, eachStr Ascii v →
    print st.escaped v = print st.unescaped v
  | .none, _ | .bool _, _ | .int _, _ | .float _, _ => rfl
  | .str _, h => congrArg some (printStr_ascii h)
  | .list vs, h | .tuple vs, h => congrArg (Option.map _) (@printList_ascii vs h)
  | .dict kvs, h => congrArg (Option.map _) (@printItems_ascii kvs h)

theorem printList_ascii : ∀ {vs : List (PyVal F)}, eachStrList Ascii vs →
    printList st.escaped vs = printList st.unescaped vs
  | [], _ => rfl
  | v :: vs, h => by rw [printList, printList, print_ascii h.1, printListTail_ascii h.2]

theorem printListTail_ascii : ∀ {vs : List (PyVal F)}, eachStrList Ascii vs →
    printListTail st.escaped vs = printListTail st.unescaped vs
  | [], _ => rfl
  | v :: vs, h => by
    rw [printListTail, printListTail, print_ascii h.1, printListTail_ascii h.2]
    rfl

theorem printItems_ascii : ∀ {kvs : List (Key F × PyVal F)}, eachStrItems Ascii kvs →
    printItems st.escaped kvs = printItems st.unescaped kvs
  | [], _ => rfl
  | (k, v) :: kvs, h => by
    rw [printItems, printItems, printKey_ascii h.1, print_ascii h.2.1, printItemsTail_ascii h.2.2]
    rfl

theorem printItemsTail_ascii : ∀ {kvs : List (Key F × PyVal F)}, eachStrItems Ascii kvs →
    printItemsTail st.escaped kvs = printItemsTail st.unescaped kvs
  | [], _ => rfl
  | (k, v) :: kvs, h => by
    rw [printItemsTail, printItemsTail, printKey_ascii h.1, print_ascii h.2.1,
      printItemsTail_ascii h.2.2]
    rfl

end

/-- **`ensure_ascii` makes no difference exactly when the strings are printable ASCII.** -/
theorem print_ascii_iff {v : PyVal F} {t : PyStr} (h : print st.unescaped v = some t) :
    print st.escaped v = some t ↔ eachStr Ascii v := by
  constructor
  · intro heq
    have hwithin := within_print heq
    exact (within_print_iff h).mp hwithin
  · intro hascii
    rw [print_ascii hascii, h]

/-! ### Keys -/

mutual

/-- No two keys of a dict have one text. -/
def distinct : PyVal F → Prop
  | .list vs => distinctList vs
  | .tuple vs => distinctList vs
  | .dict kvs => distinctItems kvs ∧ (kvs.map fun kv => kv.1.text).Nodup
  | _ => True

/-- `distinct` on the elements of a list. -/
def distinctList : List (PyVal F) → Prop
  | [] => True
  | v :: vs => distinct v ∧ distinctList vs

/-- `distinct` on the values of a dict. -/
def distinctItems : List (Key F × PyVal F) → Prop
  | [] => True
  | (_, v) :: kvs => distinct v ∧ distinctItems kvs

end

theorem distinctItems_iff {kvs : List (Key F × PyVal F)} :
    distinctItems kvs ↔ ∀ kv ∈ kvs, distinct kv.2 := by
  induction kvs with
  | nil => simp [distinctItems]
  | cons kv kvs ih =>
    obtain ⟨k, v⟩ := kv
    simp [distinctItems, ih]

mutual

/-- Sorting keeps the keys. -/
theorem distinct_of_sortDicts : ∀ {v w : PyVal F}, sortDicts v = some w → distinct v → distinct w
  | .none, w, h, _ | .bool _, w, h, _ | .int _, w, h, _ | .float _, w, h, _ | .str _, w, h, _ => by
    obtain rfl := Option.some.inj h
    trivial
  | .list vs, w, h, hd | .tuple vs, w, h, hd => by
    obtain ⟨ws, hws, rfl⟩ := Option.map_eq_some_iff.mp h
    exact distinctList_of_sortDicts hws hd
  | .dict kvs, w, h, hd => by
    simp only [sortDicts, Option.bind_eq_some_iff, Option.map_eq_some_iff] at h
    obtain ⟨kvs', hkvs', s, hs, rfl⟩ := h
    have hperm : s.Perm kvs' := perm_of_sortItems hs
    have htext := congrArg (List.map Key.text) (map_fst_sortDictsItems hkvs')
    rw [List.map_map, List.map_map] at htext
    refine ⟨?_, ?_⟩
    · have hitems := distinctItems_iff.mp (distinctItems_of_sortDicts hkvs' hd.1)
      exact distinctItems_iff.mpr fun kv hkv => hitems kv (hperm.mem_iff.mp hkv)
    · rw [(hperm.map _).nodup_iff]
      exact htext ▸ hd.2

theorem distinctList_of_sortDicts : ∀ {vs ws : List (PyVal F)}, sortDictsList vs = some ws →
    distinctList vs → distinctList ws
  | [], ws, h, _ => by
    obtain rfl := Option.some.inj h
    trivial
  | v :: vs, ws, h, hd => by
    simp only [sortDictsList, Option.bind_eq_some_iff, Option.map_eq_some_iff] at h
    obtain ⟨w, hw, ws', hws', rfl⟩ := h
    exact ⟨distinct_of_sortDicts hw hd.1, distinctList_of_sortDicts hws' hd.2⟩

theorem distinctItems_of_sortDicts : ∀ {kvs kvs' : List (Key F × PyVal F)},
    sortDictsItems kvs = some kvs' → distinctItems kvs → distinctItems kvs'
  | [], kvs', h, _ => by
    obtain rfl := Option.some.inj h
    trivial
  | (k, v) :: kvs, kvs', h, hd => by
    simp only [sortDictsItems, Option.bind_eq_some_iff, Option.map_eq_some_iff] at h
    obtain ⟨w, hw, rest, hrest, rfl⟩ := h
    exact ⟨distinct_of_sortDicts hw hd.1, distinctItems_of_sortDicts hrest hd.2⟩

end

mutual

/-- **Keys that are sorted as they are read back were sorted before.** -/
theorem sortedText_of_form : ∀ {v : PyVal F}, distinct v → sortedText (form v) → sortedText v
  | .none, _, _ | .bool _, _, _ | .int _, _, _ | .float _, _, _ | .str _, _, _ => trivial
  | .list vs, hd, h | .tuple vs, hd, h => sortedTextList_of_form (l := vs) hd h
  | .dict kvs, hd, h => by
    have hnodup : ((formItems kvs).map Prod.fst).Nodup := by
      rw [map_fst_formItems]
      exact hd.2
    rw [form, dictOf_eq_strItems hnodup] at h
    refine ⟨sortedTextItems_of_form hd.1 h.1, ?_⟩
    rw [← map_fst_formItems, ← map_text_strItems (F := F)]
    exact h.2

theorem sortedTextList_of_form : ∀ {l : List (PyVal F)}, distinctList l →
    sortedTextList (formList l) → sortedTextList l
  | [], _, _ => trivial
  | _ :: _, hd, h => ⟨sortedText_of_form hd.1 h.1, sortedTextList_of_form hd.2 h.2⟩

theorem sortedTextItems_of_form : ∀ {kvs : List (Key F × PyVal F)}, distinctItems kvs →
    sortedTextItems (strItems (formItems kvs) : List (Key F × PyVal F)) → sortedTextItems kvs
  | [], _, _ => trivial
  | (_, _) :: _, hd, h => ⟨sortedText_of_form hd.1 h.1, sortedTextItems_of_form hd.2 h.2⟩

end

mutual

/-- Keys that are in order as texts once they are sorted are stable. -/
theorem stable_of_sortedText : ∀ {v w : PyVal F}, sortDicts v = some w → sortedText w →
    stable v = true
  | .none, _, _, _ | .bool _, _, _, _ | .int _, _, _, _ | .float _, _, _, _ | .str _, _, _, _ => rfl
  | .list vs, w, h, hs | .tuple vs, w, h, hs => by
    obtain ⟨ws, hws, rfl⟩ := Option.map_eq_some_iff.mp h
    exact stableList_of_sortedText hws hs
  | .dict kvs, w, h, hs => by
    simp only [sortDicts, Option.bind_eq_some_iff, Option.map_eq_some_iff] at h
    obtain ⟨kvs', hkvs', s, hsort, rfl⟩ := h
    have hperm : s.Perm kvs' := perm_of_sortItems hsort
    have hitems : sortedTextItems kvs' := by
      rw [sortedTextItems_iff]
      exact fun kv hkv => sortedTextItems_iff.mp hs.1 kv (hperm.mem_iff.mpr hkv)
    -- the items themselves are sorted like those with sorted values
    obtain ⟨s', hs', hkeys⟩ := sortItems_of_map_fst_eq (map_fst_sortDictsItems hkvs').symm hsort
    have htext := congrArg (List.map Key.text) hkeys
    rw [List.map_map, List.map_map] at htext
    rw [stable, stableItems_of_sortedText hkvs' hitems, hs', Bool.true_and]
    exact decide_eq_true (htext ▸ hs.2)

theorem stableList_of_sortedText : ∀ {vs ws : List (PyVal F)}, sortDictsList vs = some ws →
    sortedTextList ws → stableList vs = true
  | [], _, _, _ => rfl
  | v :: vs, ws, h, hs => by
    simp only [sortDictsList, Option.bind_eq_some_iff, Option.map_eq_some_iff] at h
    obtain ⟨w, hw, ws', hws', rfl⟩ := h
    rw [stableList, stable_of_sortedText hw hs.1, stableList_of_sortedText hws' hs.2]
    rfl

theorem stableItems_of_sortedText : ∀ {kvs kvs' : List (Key F × PyVal F)},
    sortDictsItems kvs = some kvs' → sortedTextItems kvs' → stableItems kvs = true
  | [], _, _, _ => rfl
  | (k, v) :: kvs, kvs', h, hs => by
    simp only [sortDictsItems, Option.bind_eq_some_iff, Option.map_eq_some_iff] at h
    obtain ⟨w, hw, rest, hrest, rfl⟩ := h
    rw [stableItems, stable_of_sortedText hw hs.1, stableItems_of_sortedText hrest hs.2]
    rfl

end

theorem Ascii.joined {s : PyStr} (h : Ascii s) : Joined s := joined_of_encodable h.encodable

/-- **The text of a value that was read back, under `ensure_ascii`**, is the text that was written
without it exactly when the strings are printable ASCII and the keys are stable. -/
theorem print_readBack_iff {v w w' : PyVal F} {t : PyStr} (hd : distinct v)
    (hw : sortDicts v = some w) (ht : print st.unescaped w = some t)
    (hw' : sortDicts (form v) = some w') :
    print st.escaped w' = some t ↔ eachStr Ascii v ∧ stable v = true := by
  rw [← eachStr_of_sortDicts hw, ← print_ascii_iff ht]
  constructor
  · intro ht'
    have hascii : eachStr Ascii w := (within_print_iff ht).mp (within_print ht')
    have hescaped : print st.escaped w = some t := (print_ascii_iff ht).mpr hascii
    refine ⟨hescaped, stable_of_sortedText hw ?_⟩
    have hjoined : eachStr Joined w := eachStr_mono (fun _ h => h.joined) hascii
    have hjoined' : eachStr Joined w' := (eachStr_of_sortDicts hw').mpr
      (eachStr_form_of ((eachStr_of_sortDicts hw).mp hjoined))
    obtain ⟨w'', hw'', hsorted⟩ := sortDicts_of_stable (stable_form v)
    obtain rfl := Option.some.inj (hw''.symm.trans hw')
    -- one text is read back as one value, and the one of `w'` has its keys in order
    have hform := form_eq_of_print_eq hescaped ht' (fun _ => hjoined) fun _ => hjoined'
    exact sortedText_of_form (distinct_of_sortDicts hw hd) (hform ▸ (sortedText_form hsorted).1)
  · rintro ⟨hescaped, hstable⟩
    obtain ⟨w'', hw'', hsorted⟩ := sortDicts_of_stable hstable
    obtain rfl := Option.some.inj (hw''.symm.trans hw)
    have hform := sortDicts_form hstable
    rw [hw, hw', Option.map_some] at hform
    rw [Option.some.inj hform]
    exact print_form hsorted hescaped

end

end Json
