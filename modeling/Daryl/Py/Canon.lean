import Daryl.Py.Value

/-!
# Canonical values

What `sort_keys=True` and a round trip through JSON text do to a value, and when
the two agree.  `sortedText` is the shape sorting gives a `stable` value, and
`native` the shape the round trip gives any value; a value with both is its own
canonical representative.  `eachStr` speaks of all the strings of a value.

## Main results

* `sortDicts_of_stable` — sorting a stable value succeeds and sorts the texts.
* `sortDicts_form` — on a stable value, sorting and reading back commute.
* `stable_form` — what is read back is stable.
* `canon_of_sortedText` — a sorted native value is canonical.
-/

namespace Py

variable {F : Type} [PyFloat F]

/-! ### Shapes -/

mutual

/-- In every dict of the value the texts of the keys are strictly increasing. -/
def sortedText : PyVal F → Prop
  | .list vs => sortedTextList vs
  | .tuple vs => sortedTextList vs
  | .dict kvs => sortedTextItems kvs ∧ (kvs.map fun kv => kv.1.text).Pairwise (· < ·)
  | _ => True

/-- `sortedText` on the elements of a list. -/
def sortedTextList : List (PyVal F) → Prop
  | [] => True
  | v :: vs => sortedText v ∧ sortedTextList vs

/-- `sortedText` on the values of a dict. -/
def sortedTextItems : List (Key F × PyVal F) → Prop
  | [] => True
  | (_, v) :: kvs => sortedText v ∧ sortedTextItems kvs

end

mutual

/-- The shape `json.loads` returns: string keys, no tuples. -/
def native : PyVal F → Prop
  | .list vs => nativeList vs
  | .tuple _ => False
  | .dict kvs => nativeItems kvs
  | _ => True

/-- `native` on the elements of a list. -/
def nativeList : List (PyVal F) → Prop
  | [] => True
  | v :: vs => native v ∧ nativeList vs

/-- `native` on the items of a dict. -/
def nativeItems : List (Key F × PyVal F) → Prop
  | [] => True
  | (k, v) :: kvs => k.str?.isSome ∧ native v ∧ nativeItems kvs

end

mutual

/-- `p` on every string of a value and on the text of every key. -/
def eachStr (p : PyStr → Prop) : PyVal F → Prop
  | .str s => p s
  | .list vs => eachStrList p vs
  | .tuple vs => eachStrList p vs
  | .dict kvs => eachStrItems p kvs
  | _ => True

/-- `eachStr` on the elements of a list. -/
def eachStrList (p : PyStr → Prop) : List (PyVal F) → Prop
  | [] => True
  | v :: vs => eachStr p v ∧ eachStrList p vs

/-- `eachStr` on the items of a dict. -/
def eachStrItems (p : PyStr → Prop) : List (Key F × PyVal F) → Prop
  | [] => True
  | (k, v) :: kvs => p k.text ∧ eachStr p v ∧ eachStrItems p kvs

end

theorem sortedTextItems_iff : ∀ {l : List (Key F × PyVal F)},
    sortedTextItems l ↔ ∀ kv ∈ l, sortedText kv.2
  | [] => by simp [sortedTextItems]
  | (k, v) :: kvs => by simp [sortedTextItems, sortedTextItems_iff (l := kvs)]

omit [PyFloat F] in
theorem nativeItems_iff : ∀ {l : List (Key F × PyVal F)},
    nativeItems l ↔ ∀ kv ∈ l, kv.1.str?.isSome ∧ native kv.2
  | [] => by simp [nativeItems]
  | (k, v) :: kvs => by simp [nativeItems, nativeItems_iff (l := kvs), and_assoc]

theorem eachStrItems_iff {p : PyStr → Prop} : ∀ {l : List (Key F × PyVal F)},
    eachStrItems p l ↔ ∀ kv ∈ l, p kv.1.text ∧ eachStr p kv.2
  | [] => by simp [eachStrItems]
  | (k, v) :: kvs => by simp [eachStrItems, eachStrItems_iff (l := kvs), and_assoc]

theorem eachStrItems_dictOf {P : PyStr → Prop} {ps : List (PyStr × PyVal F)}
    (h : ∀ p ∈ ps, P p.1 ∧ eachStr P p.2) : eachStrItems P (dictOf ps : List (Key F × PyVal F)) := by
  rw [eachStrItems_iff]
  intro kv hkv
  obtain ⟨p, hp, rfl⟩ := mem_dictOf hkv
  exact h p hp

theorem eachStrList_iff {P : PyStr → Prop} : ∀ {l : List (PyVal F)},
    eachStrList P l ↔ ∀ v ∈ l, eachStr P v
  | [] => by simp [eachStrList]
  | v :: vs => by simp [eachStrList, eachStrList_iff (l := vs)]

mutual

theorem eachStr_mono {p q : PyStr → Prop} (hpq : ∀ s, p s → q s) : ∀ {v : PyVal F},
    eachStr p v → eachStr q v
  | .none, _ | .bool _, _ | .int _, _ | .float _, _ => trivial
  | .str s, h => hpq s h
  | .list vs, h | .tuple vs, h => eachStrList_mono hpq (l := vs) h
  | .dict kvs, h => eachStrItems_mono hpq (l := kvs) h

theorem eachStrList_mono {p q : PyStr → Prop} (hpq : ∀ s, p s → q s) : ∀ {l : List (PyVal F)},
    eachStrList p l → eachStrList q l
  | [], _ => trivial
  | _ :: _, h => ⟨eachStr_mono hpq h.1, eachStrList_mono hpq h.2⟩

theorem eachStrItems_mono {p q : PyStr → Prop} (hpq : ∀ s, p s → q s) :
    ∀ {l : List (Key F × PyVal F)}, eachStrItems p l → eachStrItems q l
  | [], _ => trivial
  | (_, _) :: _, h => ⟨hpq _ h.1, eachStr_mono hpq h.2.1, eachStrItems_mono hpq h.2.2⟩

end

theorem formItems_eq_map : ∀ kvs : List (Key F × PyVal F),
    formItems kvs = kvs.map fun kv => (kv.1.text, form kv.2)
  | [] => rfl
  | (k, v) :: kvs => by simp [formItems, formItems_eq_map kvs]

theorem map_fst_formItems (kvs : List (Key F × PyVal F)) :
    (formItems kvs).map Prod.fst = kvs.map fun kv => kv.1.text := by
  rw [formItems_eq_map, List.map_map]
  rfl

/-- Items with string keys, as pairs. -/
theorem strItems_of_native : ∀ {l : List (Key F × PyVal F)}, nativeItems l →
    l = strItems (l.map fun kv => (kv.1.text, kv.2))
  | [], _ => rfl
  | (.str s, v) :: kvs, h => by
    have ih := strItems_of_native (l := kvs) h.2.2
    simp only [strItems, List.map_cons, Key.text, List.cons.injEq, true_and] at ih ⊢
    exact ih

theorem map_text_strItems {V : Type} (ps : List (PyStr × V)) :
    ((strItems ps : List (Key F × V)).map fun kv => kv.1.text) = ps.map Prod.fst := by
  simp only [strItems, List.map_map]
  rfl

/-- Strictly increasing texts are distinct. -/
theorem nodup_of_sortedText {kvs : List (Key F × PyVal F)}
    (h : (kvs.map fun kv => kv.1.text).Pairwise (· < ·)) :
    ((formItems kvs).map Prod.fst).Nodup := by
  rw [map_fst_formItems]
  exact h.imp fun hab => ne_of_lt hab

/-! ### Sorting -/

theorem map_fst_sortDictsItems : ∀ {kvs kvs' : List (Key F × PyVal F)},
    sortDictsItems kvs = some kvs' → kvs'.map Prod.fst = kvs.map Prod.fst
  | [], kvs', h => by
    simp only [sortDictsItems, Option.some.injEq] at h
    simp [← h]
  | (k, v) :: kvs, kvs', h => by
    simp only [sortDictsItems, Option.bind_eq_some_iff, Option.map_eq_some_iff] at h
    obtain ⟨v', -, kvs'', hkvs, rfl⟩ := h
    simp [map_fst_sortDictsItems hkvs]

/-- Sorting items looks at the keys alone. -/
theorem map_fst_sortItems {V : Type} (kvs : List (Key F × V)) :
    (sortItems kvs).map (List.map Prod.fst)
      = (sortItems (kvs.map fun kv => (kv.1, ()))).map (List.map Prod.fst) := by
  unfold sortItems
  simp only [List.length_map, List.all_map, Function.comp_def]
  split_ifs
  · simp
  · rw [Option.map_some, Option.map_some, ← List.map_insertionSort
      (fun a b => a.1.str?.getD [] ≤ b.1.str?.getD []) _ _ _ fun _ _ _ _ => Iff.rfl, List.map_map]
    rfl
  · rw [Option.map_some, Option.map_some, ← List.map_insertionSort
      (fun a b => a.1.num?.getD (toLex (0, 0)) ≤ b.1.num?.getD (toLex (0, 0))) _ _ _
      fun _ _ _ _ => Iff.rfl, List.map_map]
    rfl
  · rfl

/-- Two lists of items with the same keys are sorted alike. -/
theorem sortItems_of_map_fst_eq {kvs kvs' s : List (Key F × PyVal F)}
    (hkeys : kvs'.map Prod.fst = kvs.map Prod.fst) (h : sortItems kvs = some s) :
    ∃ s', sortItems kvs' = some s' ∧ s'.map Prod.fst = s.map Prod.fst := by
  have hunit : (kvs'.map fun kv => (kv.1, ())) = kvs.map fun kv => (kv.1, ()) := by
    have := congrArg (List.map fun k => (k, ())) hkeys
    simpa [List.map_map, Function.comp_def] using this
  have hmap := map_fst_sortItems kvs'
  rw [hunit, ← map_fst_sortItems kvs, h, Option.map_some] at hmap
  exact Option.map_eq_some_iff.mp hmap

mutual

/-- Sorting leaves the strings of a value as they are. -/
theorem eachStr_of_sortDicts {p : PyStr → Prop} : ∀ {v w : PyVal F}, sortDicts v = some w →
    (eachStr p w ↔ eachStr p v)
  | .none, w, h | .bool _, w, h | .int _, w, h | .float _, w, h | .str _, w, h => by
    rw [sortDicts, Option.some.injEq] at h <;> simp_all
  | .list vs, w, h => by
    obtain ⟨ws, hws, rfl⟩ := Option.map_eq_some_iff.mp h
    exact eachStrList_of_sortDicts hws
  | .tuple vs, w, h => by
    obtain ⟨ws, hws, rfl⟩ := Option.map_eq_some_iff.mp h
    exact eachStrList_of_sortDicts hws
  | .dict kvs, w, h => by
    simp only [sortDicts, Option.bind_eq_some_iff, Option.map_eq_some_iff] at h
    obtain ⟨kvs', hkvs', s, hs, rfl⟩ := h
    rw [eachStr, eachStr, ← eachStrItems_of_sortDicts hkvs', eachStrItems_iff, eachStrItems_iff]
    exact forall_congr' fun kv => by rw [(perm_of_sortItems hs).mem_iff]

theorem eachStrList_of_sortDicts {p : PyStr → Prop} : ∀ {vs ws : List (PyVal F)},
    sortDictsList vs = some ws → (eachStrList p ws ↔ eachStrList p vs)
  | [], ws, h => by
    simp only [sortDictsList, Option.some.injEq] at h
    simp [← h]
  | v :: vs, ws, h => by
    simp only [sortDictsList, Option.bind_eq_some_iff, Option.map_eq_some_iff] at h
    obtain ⟨w, hw, ws', hws', rfl⟩ := h
    simp only [eachStrList, eachStr_of_sortDicts hw, eachStrList_of_sortDicts hws']

theorem eachStrItems_of_sortDicts {p : PyStr → Prop} : ∀ {kvs kvs' : List (Key F × PyVal F)},
    sortDictsItems kvs = some kvs' → (eachStrItems p kvs' ↔ eachStrItems p kvs)
  | [], kvs', h => by
    simp only [sortDictsItems, Option.some.injEq] at h
    simp [← h]
  | (k, v) :: kvs, kvs', h => by
    simp only [sortDictsItems, Option.bind_eq_some_iff, Option.map_eq_some_iff] at h
    obtain ⟨w, hw, kvs'', hkvs'', rfl⟩ := h
    simp only [eachStrItems, eachStr_of_sortDicts hw, eachStrItems_of_sortDicts hkvs'']

end

mutual

/-- **Sorting a stable value succeeds and sorts the texts of its keys.** -/
theorem sortDicts_of_stable : ∀ {v : PyVal F}, stable v = true →
    ∃ w, sortDicts v = some w ∧ sortedText w
  | .none, _ | .bool _, _ | .int _, _ | .float _, _ | .str _, _ => ⟨_, rfl, trivial⟩
  | .list vs, h => by
    obtain ⟨ws, hws, hsorted⟩ := sortDictsList_of_stable (l := vs) (by simpa [stable] using h)
    exact ⟨.list ws, by simp [sortDicts, hws], hsorted⟩
  | .tuple vs, h => by
    obtain ⟨ws, hws, hsorted⟩ := sortDictsList_of_stable (l := vs) (by simpa [stable] using h)
    exact ⟨.tuple ws, by simp [sortDicts, hws], hsorted⟩
  | .dict kvs, h => by
    simp only [stable, Bool.and_eq_true] at h
    obtain ⟨hvals, hkeys⟩ := h
    obtain ⟨kvs', hkvs', hsorted⟩ := sortDictsItems_of_stable hvals
    cases hs : sortItems kvs with
    | none => simp [hs] at hkeys
    | some s =>
      simp only [hs, decide_eq_true_eq] at hkeys
      obtain ⟨s', hs', hmap⟩ := sortItems_of_map_fst_eq (map_fst_sortDictsItems hkvs') hs
      refine ⟨.dict s', by simp [sortDicts, hkvs', hs'], ?_, ?_⟩
      · rw [sortedTextItems_iff] at hsorted ⊢
        exact fun kv hkv => hsorted kv ((perm_of_sortItems hs').mem_iff.mp hkv)
      · have := congrArg (List.map Key.text) hmap
        simp only [List.map_map, Function.comp_def] at this
        rw [this]
        exact hkeys

theorem sortDictsList_of_stable : ∀ {l : List (PyVal F)}, stableList l = true →
    ∃ ws, sortDictsList l = some ws ∧ sortedTextList ws
  | [], _ => ⟨[], rfl, trivial⟩
  | v :: vs, h => by
    simp only [stableList, Bool.and_eq_true] at h
    obtain ⟨w, hw, hsw⟩ := sortDicts_of_stable h.1
    obtain ⟨ws, hws, hsws⟩ := sortDictsList_of_stable h.2
    exact ⟨w :: ws, by simp [sortDictsList, hw, hws], hsw, hsws⟩

theorem sortDictsItems_of_stable : ∀ {kvs : List (Key F × PyVal F)}, stableItems kvs = true →
    ∃ kvs', sortDictsItems kvs = some kvs' ∧ sortedTextItems kvs'
  | [], _ => ⟨[], rfl, trivial⟩
  | (k, v) :: kvs, h => by
    simp only [stableItems, Bool.and_eq_true] at h
    obtain ⟨w, hw, hsw⟩ := sortDicts_of_stable h.1
    obtain ⟨ws, hws, hsws⟩ := sortDictsItems_of_stable h.2
    exact ⟨(k, w) :: ws, by simp [sortDictsItems, hw, hws], hsw, hsws⟩

end

mutual

/-- Sorting leaves a sorted native value alone. -/
theorem sortDicts_of_sortedText : ∀ {v : PyVal F}, sortedText v → native v →
    sortDicts v = some v
  | .none, _, _ | .bool _, _, _ | .int _, _, _ | .float _, _, _ | .str _, _, _ => rfl
  | .list vs, h, hn => by simp [sortDicts, sortDictsList_of_sortedText (l := vs) h hn]
  | .dict kvs, h, hn => by
    obtain ⟨hvals, hkeys⟩ := h
    have hs : sortItems kvs = some kvs := by
      rw [strItems_of_native (l := kvs) hn]
      refine sortItems_strItems ?_
      simpa [List.map_map, Function.comp_def] using hkeys
    simp [sortDicts, sortDictsItems_of_sortedText hvals hn, hs]

theorem sortDictsList_of_sortedText : ∀ {l : List (PyVal F)}, sortedTextList l →
    nativeList l → sortDictsList l = some l
  | [], _, _ => rfl
  | v :: vs, h, hn => by
    simp [sortDictsList, sortDicts_of_sortedText h.1 hn.1, sortDictsList_of_sortedText h.2 hn.2]

theorem sortDictsItems_of_sortedText : ∀ {kvs : List (Key F × PyVal F)}, sortedTextItems kvs →
    nativeItems kvs → sortDictsItems kvs = some kvs
  | [], _, _ => rfl
  | (k, v) :: kvs, h, hn => by
    simp [sortDictsItems, sortDicts_of_sortedText h.1 hn.2.1,
      sortDictsItems_of_sortedText h.2 hn.2.2]

end

/-! ### Reading back -/

mutual

/-- Reading back leaves a sorted native value alone. -/
theorem form_of_sortedText : ∀ {v : PyVal F}, sortedText v → native v → form v = v
  | .none, _, _ | .bool _, _, _ | .int _, _, _ | .float _, _, _ | .str _, _, _ => rfl
  | .list vs, h, hn => by rw [form, formList_of_sortedText (l := vs) h hn]
  | .dict kvs, h, hn => by
    obtain ⟨hvals, hkeys⟩ := h
    rw [form, dictOf_eq_strItems (nodup_of_sortedText hkeys),
      formItems_of_sortedText hvals hn, ← strItems_of_native (l := kvs) hn]

theorem formList_of_sortedText : ∀ {l : List (PyVal F)}, sortedTextList l →
    nativeList l → formList l = l
  | [], _, _ => rfl
  | v :: vs, h, hn => by
    rw [formList, form_of_sortedText h.1 hn.1, formList_of_sortedText h.2 hn.2]

theorem formItems_of_sortedText : ∀ {kvs : List (Key F × PyVal F)}, sortedTextItems kvs →
    nativeItems kvs → formItems kvs = kvs.map fun kv => (kv.1.text, kv.2)
  | [], _, _ => rfl
  | (k, v) :: kvs, h, hn => by
    rw [formItems, form_of_sortedText h.1 hn.2.1, formItems_of_sortedText h.2 hn.2.2]
    rfl

end

mutual

/-- What is read back from sorted text is sorted and native. -/
theorem sortedText_form : ∀ {v : PyVal F}, sortedText v → sortedText (form v) ∧ native (form v)
  | .none, _ | .bool _, _ | .int _, _ | .float _, _ | .str _, _ => ⟨trivial, trivial⟩
  | .list vs, h | .tuple vs, h => sortedTextList_form (l := vs) h
  | .dict kvs, h => by
    obtain ⟨hvals, hkeys⟩ := h
    rw [form, dictOf_eq_strItems (nodup_of_sortedText hkeys)]
    obtain ⟨hs, hn⟩ := sortedTextItems_form hvals
    refine ⟨⟨hs, ?_⟩, hn⟩
    rw [map_text_strItems, map_fst_formItems]
    exact hkeys

theorem sortedTextList_form : ∀ {l : List (PyVal F)}, sortedTextList l →
    sortedTextList (formList l) ∧ nativeList (formList l)
  | [], _ => ⟨trivial, trivial⟩
  | v :: vs, h => by
    obtain ⟨hs, hn⟩ := sortedText_form h.1
    obtain ⟨hs', hn'⟩ := sortedTextList_form h.2
    exact ⟨⟨hs, hs'⟩, hn, hn'⟩

theorem sortedTextItems_form : ∀ {kvs : List (Key F × PyVal F)}, sortedTextItems kvs →
    sortedTextItems (strItems (formItems kvs) : List (Key F × PyVal F)) ∧
      nativeItems (strItems (formItems kvs) : List (Key F × PyVal F))
  | [], _ => ⟨trivial, trivial⟩
  | (k, v) :: kvs, h => by
    obtain ⟨hs, hn⟩ := sortedText_form h.1
    obtain ⟨hs', hn'⟩ := sortedTextItems_form h.2
    exact ⟨⟨hs, hs'⟩, rfl, hn, hn'⟩

end

mutual

/-- Reading back sorted text leaves its strings as they are. -/
theorem eachStr_form {p : PyStr → Prop} : ∀ {v : PyVal F}, sortedText v →
    (eachStr p (form v) ↔ eachStr p v)
  | .none, _ | .bool _, _ | .int _, _ | .float _, _ | .str _, _ => Iff.rfl
  | .list vs, h | .tuple vs, h => eachStrList_form (l := vs) h
  | .dict kvs, h => by
    rw [form, dictOf_eq_strItems (nodup_of_sortedText h.2)]
    exact eachStrItems_form h.1

theorem eachStrList_form {p : PyStr → Prop} : ∀ {l : List (PyVal F)}, sortedTextList l →
    (eachStrList p (formList l) ↔ eachStrList p l)
  | [], _ => Iff.rfl
  | v :: vs, h => by
    simp only [formList, eachStrList, eachStr_form h.1, eachStrList_form h.2]

theorem eachStrItems_form {p : PyStr → Prop} : ∀ {kvs : List (Key F × PyVal F)},
    sortedTextItems kvs →
      (eachStrItems p (strItems (formItems kvs) : List (Key F × PyVal F)) ↔ eachStrItems p kvs)
  | [], _ => Iff.rfl
  | (k, v) :: kvs, h => by
    have ih := eachStrItems_form (p := p) h.2
    simp only [formItems, strItems, List.map_cons, eachStrItems, Key.text] at ih ⊢
    rw [eachStr_form h.1, ih]

end

mutual

/-- **On a stable value, sorting and reading back commute.** -/
theorem sortDicts_form : ∀ {v : PyVal F}, stable v = true →
    sortDicts (form v) = (sortDicts v).map form
  | .none, _ | .bool _, _ | .int _, _ | .float _, _ | .str _, _ => rfl
  | .list vs, h | .tuple vs, h => by
    have ih := sortDictsList_form (l := vs) (by simpa [stable] using h)
    simp only [form, sortDicts, ih, Option.map_map]
    rfl
  | .dict kvs, h => by
    have hstable := h
    simp only [stable, Bool.and_eq_true] at h
    obtain ⟨w, hw, hsorted⟩ := sortDicts_of_stable hstable
    simp only [sortDicts, Option.bind_eq_some_iff, Option.map_eq_some_iff] at hw
    obtain ⟨kvs', hkvs', s, hs, rfl⟩ := hw
    have hperm : s.Perm kvs' := perm_of_sortItems hs
    have htext : ((formItems s).map Prod.fst).Pairwise (· < ·) := by
      rw [map_fst_formItems]
      exact hsorted.2
    have hpermForm : (formItems s).Perm (formItems kvs') := by
      rw [formItems_eq_map, formItems_eq_map]
      exact hperm.map _
    -- the keys of `kvs`, of `kvs'` and of the sorted `s` are the same up to order
    have hnodup : ((formItems kvs).map Prod.fst).Nodup := by
      have hkeys : (formItems kvs).map Prod.fst = (formItems kvs').map Prod.fst := by
        rw [map_fst_formItems, map_fst_formItems]
        have := congrArg (List.map Key.text) (map_fst_sortDictsItems hkvs')
        simpa [List.map_map, Function.comp_def] using this.symm
      rw [hkeys, ← (hpermForm.map Prod.fst).nodup_iff]
      exact htext.imp fun hab => ne_of_lt hab
    have ih := sortDictsItems_form h.1
    rw [hkvs', Option.map_some] at ih
    rw [form, dictOf_eq_strItems hnodup, sortDicts, ih, Option.bind_some,
      sortItems_perm hpermForm htext, sortDicts, hkvs', Option.bind_some, hs]
    simp only [Option.map_some, form]
    rw [dictOf_eq_strItems (htext.imp fun hab => ne_of_lt hab)]

theorem sortDictsList_form : ∀ {l : List (PyVal F)}, stableList l = true →
    sortDictsList (formList l) = (sortDictsList l).map formList
  | [], _ => rfl
  | v :: vs, h => by
    simp only [stableList, Bool.and_eq_true] at h
    obtain ⟨w, hw, -⟩ := sortDicts_of_stable h.1
    obtain ⟨ws, hws, -⟩ := sortDictsList_of_stable h.2
    have ih := sortDicts_form h.1
    have ih' := sortDictsList_form h.2
    rw [hw, Option.map_some] at ih
    rw [hws, Option.map_some] at ih'
    simp [formList, sortDictsList, hw, hws, ih, ih']

theorem sortDictsItems_form : ∀ {kvs : List (Key F × PyVal F)}, stableItems kvs = true →
    sortDictsItems (strItems (formItems kvs) : List (Key F × PyVal F))
      = (sortDictsItems kvs).map fun kvs' => strItems (formItems kvs')
  | [], _ => rfl
  | (k, v) :: kvs, h => by
    simp only [stableItems, Bool.and_eq_true] at h
    obtain ⟨w, hw, -⟩ := sortDicts_of_stable h.1
    obtain ⟨ws, hws, -⟩ := sortDictsItems_of_stable h.2
    have ih := sortDicts_form h.1
    have ih' := sortDictsItems_form h.2
    rw [hw, Option.map_some] at ih
    rw [hws, Option.map_some] at ih'
    simp only [formItems, strItems, List.map_cons] at ih' ⊢
    simp [sortDictsItems, hw, hws, ih, ih', formItems]

end

/-! ### What any value is read back as -/

mutual

/-- What is read back has string keys and no tuples. -/
theorem native_form : ∀ v : PyVal F, native (form v)
  | .none | .bool _ | .int _ | .float _ | .str _ => trivial
  | .list vs | .tuple vs => nativeList_form vs
  | .dict kvs => by
    rw [form, native, nativeItems_iff]
    intro kv hkv
    obtain ⟨p, hp, rfl⟩ := mem_dictOf hkv
    exact ⟨rfl, native_formItems kvs p hp⟩

theorem nativeList_form : ∀ l : List (PyVal F), nativeList (formList l)
  | [] => trivial
  | v :: vs => ⟨native_form v, nativeList_form vs⟩

theorem native_formItems : ∀ kvs : List (Key F × PyVal F), ∀ p ∈ formItems kvs, native p.2
  | [], p, hp => by cases hp
  | (k, v) :: kvs, p, hp => by
    rcases List.mem_cons.mp hp with rfl | hp
    · exact native_form v
    · exact native_formItems kvs p hp

end

theorem stableItems_iff : ∀ {l : List (Key F × PyVal F)},
    stableItems l = true ↔ ∀ kv ∈ l, stable kv.2 = true
  | [] => by simp [stableItems]
  | (k, v) :: kvs => by simp [stableItems, stableItems_iff (l := kvs)]

/-- **A dict of names is stable when its values are.** -/
theorem stable_strItems {ps : List (PyStr × PyVal F)} (h : (ps.map Prod.fst).Nodup) :
    stable (.dict (strItems ps)) = true ↔ ∀ p ∈ ps, stable p.2 = true := by
  obtain ⟨qs, -, hlt, hqs⟩ := exists_sortItems_strItems (F := F) h
  rw [stable, hqs, Bool.and_eq_true, stableItems_iff, strItems, List.forall_mem_map]
  refine and_iff_left (decide_eq_true ?_)
  rw [map_text_strItems]
  exact hlt

mutual

/-- **What is read back is stable**: its keys are strings, each of them once. -/
theorem stable_form : ∀ v : PyVal F, stable (form v) = true
  | .none | .bool _ | .int _ | .float _ | .str _ => rfl
  | .list vs | .tuple vs => stableList_form vs
  | .dict kvs => by
    obtain ⟨qs, hqs, hnodup⟩ := exists_dictOf (F := F) (formItems kvs)
    obtain ⟨rs, -, hlt, hrs⟩ := exists_sortItems_strItems (F := F) hnodup
    have hitems : stableItems (dictOf (formItems kvs) : List (Key F × PyVal F)) = true := by
      rw [stableItems_iff]
      intro kv hkv
      obtain ⟨p, hp, rfl⟩ := mem_dictOf hkv
      exact stable_formItems kvs p hp
    rw [form, stable, hitems, hqs, hrs]
    simp only [Bool.true_and, decide_eq_true_eq]
    rw [map_text_strItems]
    exact hlt

theorem stableList_form : ∀ l : List (PyVal F), stableList (formList l) = true
  | [] => rfl
  | v :: vs => by rw [formList, stableList, stable_form v, stableList_form vs, Bool.and_self]

theorem stable_formItems : ∀ kvs : List (Key F × PyVal F), ∀ p ∈ formItems kvs, stable p.2 = true
  | [], p, hp => by cases hp
  | (k, v) :: kvs, p, hp => by
    rcases List.mem_cons.mp hp with rfl | hp
    · exact stable_form v
    · exact stable_formItems kvs p hp

end

mutual

/-- What holds of the strings of a value holds of those that are read back. -/
theorem eachStr_form_of {p : PyStr → Prop} : ∀ {v : PyVal F}, eachStr p v → eachStr p (form v)
  | .none, _ | .bool _, _ | .int _, _ | .float _, _ => trivial
  | .str _, h => h
  | .list vs, h | .tuple vs, h => eachStrList_form_of (l := vs) h
  | .dict kvs, h => by
    rw [form]
    exact eachStrItems_dictOf (eachStr_formItems (l := kvs) h)

theorem eachStrList_form_of {p : PyStr → Prop} : ∀ {l : List (PyVal F)}, eachStrList p l →
    eachStrList p (formList l)
  | [], _ => trivial
  | _ :: _, h => ⟨eachStr_form_of h.1, eachStrList_form_of h.2⟩

theorem eachStr_formItems {p : PyStr → Prop} : ∀ {l : List (Key F × PyVal F)},
    eachStrItems p l → ∀ q ∈ formItems l, p q.1 ∧ eachStr p q.2
  | [], _, q, hq => by cases hq
  | (k, v) :: kvs, h, q, hq => by
    rcases List.mem_cons.mp hq with rfl | hq
    · exact ⟨h.1, eachStr_form_of h.2.1⟩
    · exact eachStr_formItems h.2.2 q hq

end

/-! ### Canonical representatives -/

/-- A stable value has a canonical representative, sorted and native. -/
theorem canon_of_stable {v : PyVal F} (h : stable v = true) :
    ∃ w, sortDicts v = some w ∧ canon v = some (form w) ∧ sortedText w ∧
      sortedText (form w) ∧ native (form w) := by
  obtain ⟨w, hw, hsorted⟩ := sortDicts_of_stable h
  exact ⟨w, hw, by rw [canon, hw, Option.map_some], hsorted, sortedText_form hsorted⟩

/-- **A sorted native value is its own canonical representative.** -/
theorem canon_of_sortedText {v : PyVal F} (h : sortedText v) (hn : native v) :
    canon v = some v := by
  rw [canon, sortDicts_of_sortedText h hn, Option.map_some, form_of_sortedText h hn]

/-- The sorted form of a dict is a dict. -/
theorem exists_dict_of_sortDicts {kvs : List (Key F × PyVal F)} {w : PyVal F}
    (h : sortDicts (.dict kvs) = some w) : ∃ lws, w = .dict lws := by
  simp only [sortDicts, Option.bind_eq_some_iff, Option.map_eq_some_iff] at h
  obtain ⟨_, -, lws, -, rfl⟩ := h
  exact ⟨lws, rfl⟩

/-- The value read back of a dict is a dict. -/
theorem exists_dict_of_canon {kvs : List (Key F × PyVal F)} {v : PyVal F}
    (h : canon (.dict kvs) = some v) : ∃ kvs', v = .dict kvs' := by
  obtain ⟨w, hw, rfl⟩ := Option.map_eq_some_iff.mp h
  obtain ⟨lws, rfl⟩ := exists_dict_of_sortDicts hw
  exact ⟨_, rfl⟩

/-! ### Truth -/

theorem length_sortDictsList : ∀ {vs ws : List (PyVal F)}, sortDictsList vs = some ws →
    ws.length = vs.length
  | [], ws, h => by
    simp only [sortDictsList, Option.some.injEq] at h
    simp [← h]
  | v :: vs, ws, h => by
    simp only [sortDictsList, Option.bind_eq_some_iff, Option.map_eq_some_iff] at h
    obtain ⟨w, -, ws', hws', rfl⟩ := h
    simp [length_sortDictsList hws']

theorem length_formList : ∀ vs : List (PyVal F), (formList vs).length = vs.length
  | [] => rfl
  | v :: vs => by simp [formList, length_formList vs]

private theorem isEmpty_of_length_eq {α β : Type} {as : List α} {bs : List β}
    (h : as.length = bs.length) : as.isEmpty = bs.isEmpty := by
  cases as <;> cases bs <;> simp_all

/-- Sorting does not change whether a value is true. -/
theorem truthy_of_sortDicts {v w : PyVal F} (h : sortDicts v = some w) :
    w.truthy = v.truthy := by
  cases v with
  | list vs =>
    obtain ⟨ws, hws, rfl⟩ := Option.map_eq_some_iff.mp h
    simp [PyVal.truthy, isEmpty_of_length_eq (length_sortDictsList hws)]
  | tuple vs =>
    obtain ⟨ws, hws, rfl⟩ := Option.map_eq_some_iff.mp h
    simp [PyVal.truthy, isEmpty_of_length_eq (length_sortDictsList hws)]
  | dict kvs =>
    simp only [sortDicts, Option.bind_eq_some_iff, Option.map_eq_some_iff] at h
    obtain ⟨kvs', hkvs', s, hs, rfl⟩ := h
    have hlen : s.length = kvs.length := by
      rw [(perm_of_sortItems hs).length_eq]
      simpa using congrArg List.length (map_fst_sortDictsItems hkvs')
    simp [PyVal.truthy, isEmpty_of_length_eq hlen]
  | _ =>
    simp only [sortDicts, Option.some.injEq] at h
    rw [h]

omit [PyFloat F] in
theorem dictSet_ne_nil {V : Type} (k : PyStr) (v : V) (kvs : List (Key F × V)) :
    dictSet k v kvs ≠ [] := by
  cases kvs with
  | nil => simp [dictSet]
  | cons kv kvs =>
    obtain ⟨l, w⟩ := kv
    cases l <;> simp only [dictSet] <;> (try split_ifs) <;> simp

omit [PyFloat F] in
theorem dictOf_isEmpty {V : Type} (ps : List (PyStr × V)) :
    (dictOf ps : List (Key F × V)).isEmpty = ps.isEmpty := by
  cases hps : ps.reverse with
  | nil => simp_all [dictOf]
  | cons p qs =>
    have hps' : ps = qs.reverse ++ [p] := by
      rw [← List.reverse_reverse ps, hps, List.reverse_cons]
    rw [hps', dictOf, List.foldl_append, List.foldl_cons, List.foldl_nil,
      List.isEmpty_eq_false_iff.mpr (dictSet_ne_nil _ _ _)]
    simp

/-- Reading back does not change whether a value is true. -/
theorem truthy_form (v : PyVal F) : (form v).truthy = v.truthy := by
  cases v with
  | list vs => simp [form, PyVal.truthy, isEmpty_of_length_eq (length_formList vs)]
  | tuple vs => simp [form, PyVal.truthy, isEmpty_of_length_eq (length_formList vs)]
  | dict kvs => simp [form, PyVal.truthy, dictOf_isEmpty, formItems_eq_map]
  | _ => rfl

/-! ### What a reader gets -/

/-- The value a reader gets for a written one: its canonical representative. -/
def readBack (v : PyVal F) : PyVal F := (canon v).getD v

theorem readBack_of_sortDicts {v w : PyVal F} (h : sortDicts v = some w) : readBack v = form w := by
  rw [readBack, canon, h, Option.map_some, Option.getD_some]

@[simp] theorem readBack_str (s : PyStr) : readBack (.str s : PyVal F) = .str s := rfl

@[simp] theorem readBack_none : readBack (.none : PyVal F) = .none := rfl

/-- A reader's value is true iff the written one was. -/
theorem truthy_readBack (v : PyVal F) : (readBack v).truthy = v.truthy := by
  cases h : sortDicts v with
  | none => rw [readBack, canon, h]; rfl
  | some w => rw [readBack_of_sortDicts h, truthy_form, truthy_of_sortDicts h]

theorem readBack_orEmpty (v : PyVal F) : (readBack v).orEmpty = readBack v.orEmpty := by
  unfold PyVal.orEmpty
  rw [truthy_readBack]
  split
  · rfl
  · rfl

/-- The canonical representative of a stable value sorts to itself. -/
theorem sortDicts_readBack {v w : PyVal F} (hv : stable v = true) (h : sortDicts v = some w) :
    sortDicts (readBack v) = some (form w) := by
  obtain ⟨w', hw', hsorted⟩ := sortDicts_of_stable hv
  obtain rfl := Option.some.inj (hw'.symm.trans h)
  obtain ⟨hs, hn⟩ := sortedText_form hsorted
  rw [readBack_of_sortDicts h, sortDicts_of_sortedText hs hn]

theorem stable_orEmpty {v : PyVal F} (h : stable v = true) : stable v.orEmpty = true := by
  unfold PyVal.orEmpty
  split
  · exact h
  · rfl

theorem formItems_strItems (ps : List (PyStr × PyVal F)) :
    formItems (strItems ps : List (Key F × PyVal F)) = ps.map fun p => (p.1, form p.2) := by
  rw [formItems_eq_map, strItems, List.map_map]
  rfl

/-- A dict with distinct string keys is read back item by item. -/
theorem form_strItems {ps : List (PyStr × PyVal F)} (h : (ps.map Prod.fst).Nodup) :
    form (.dict (strItems ps)) = .dict (strItems (ps.map fun p => (p.1, form p.2))) := by
  have hkeys : ((ps.map fun p => (p.1, form p.2)).map Prod.fst).Nodup := by
    simpa [List.map_map, Function.comp_def] using h
  rw [form, formItems_strItems, dictOf_eq_strItems hkeys]

/-- The dict of a sequence of pairs is read back as it is, if its values are. -/
theorem form_dictOf {ps : List (PyStr × PyVal F)} (h : ∀ p ∈ ps, form p.2 = p.2) :
    form (.dict (dictOf ps) : PyVal F) = .dict (dictOf ps) := by
  obtain ⟨qs, hqs, hnodup⟩ := exists_dictOf (F := F) ps
  have hvalues : (qs.map fun q => (q.1, form q.2)) = qs := by
    conv_rhs => rw [← List.map_id qs]
    apply List.map_congr_left
    intro q hq
    have hmem : (.str q.1, q.2) ∈ (dictOf ps : List (Key F × PyVal F)) := by
      rw [hqs]
      exact List.mem_map.mpr ⟨q, hq, rfl⟩
    obtain ⟨p, hp, heq⟩ := mem_dictOf hmem
    have hval : q.2 = p.2 := (Prod.mk.inj heq).2
    rw [hval, h p hp, ← hval]
    rfl
  rw [hqs, form_strItems hnodup, hvalues]

mutual

/-- **What was read back is read back as it is.** -/
theorem form_form : ∀ v : PyVal F, form (form v) = form v
  | .none | .bool _ | .int _ | .float _ | .str _ => rfl
  | .list vs | .tuple vs => congrArg PyVal.list (formList_formList vs)
  | .dict kvs => form_dictOf (form_formItems kvs)

theorem formList_formList : ∀ l : List (PyVal F), formList (formList l) = formList l
  | [] => rfl
  | v :: vs => by rw [formList, formList, form_form v, formList_formList vs]

theorem form_formItems : ∀ kvs : List (Key F × PyVal F), ∀ p ∈ formItems kvs, form p.2 = p.2
  | [], p, hp => by cases hp
  | (k, v) :: kvs, p, hp => by
    rcases List.mem_cons.mp hp with rfl | hp
    · exact form_form v
    · exact form_formItems kvs p hp

end

/-- The values of a dict that is read back as it is are read back as they are. -/
theorem form_of_mem {kvs : List (Key F × PyVal F)} (h : form (.dict kvs) = .dict kvs)
    {kv : Key F × PyVal F} (hmem : kv ∈ kvs) : form kv.2 = kv.2 := by
  rw [form, PyVal.dict.injEq] at h
  rw [← h] at hmem
  obtain ⟨p, hp, rfl⟩ := mem_dictOf hmem
  exact form_formItems kvs p hp

/-- So is what is looked up in it, with a default that is. -/
theorem form_getD {kvs : List (Key F × PyVal F)} (h : form (.dict kvs) = .dict kvs) (k : PyStr)
    {v : PyVal F} (hv : form v = v) :
    form ((dictGet k kvs).getD v) = (dictGet k kvs).getD v := by
  cases hget : dictGet k kvs with
  | none => exact hv
  | some w => exact form_of_mem h (mem_of_dictGet hget)

/-- A dict that is read back as it is has string keys, each of them once. -/
theorem exists_strItems_of_form {kvs : List (Key F × PyVal F)}
    (h : form (.dict kvs) = .dict kvs) :
    ∃ ps : List (PyStr × PyVal F), kvs = strItems ps ∧ (ps.map Prod.fst).Nodup := by
  rw [form, PyVal.dict.injEq] at h
  rw [← h]
  exact exists_dictOf (formItems kvs)

omit [PyFloat F] in
/-- A pair of an object is found by its key. -/
theorem dictGet_of_mem {V : Type} {ps : List (PyStr × V)} (h : (ps.map Prod.fst).Nodup) {k : PyStr}
    {v : V} (hmem : (k, v) ∈ ps) : dictGet k (strItems ps : List (Key F × V)) = some v := by
  induction ps with
  | nil => cases hmem
  | cons p ps ih =>
    obtain ⟨hp, hps⟩ := List.nodup_cons.mp h
    rw [strItems, List.map_cons, dictGet]
    rcases List.mem_cons.mp hmem with rfl | hmem
    · exact if_pos rfl
    · have hne : p.1 ≠ k := fun hk => hp (hk ▸ List.mem_map_of_mem (f := Prod.fst) hmem)
      rw [if_neg hne]
      exact ih hps hmem

/-- A value whose keys compare is read back as a stable one. -/
theorem stable_readBack {v w : PyVal F} (h : sortDicts v = some w) : stable (readBack v) = true := by
  rw [readBack_of_sortDicts h]
  exact stable_form w

/-- What holds of the strings of a value holds of those a reader gets. -/
theorem eachStr_readBack {p : PyStr → Prop} {v w : PyVal F} (hw : sortDicts v = some w)
    (h : eachStr p v) : eachStr p (readBack v) := by
  rw [readBack_of_sortDicts hw]
  exact eachStr_form_of ((eachStr_of_sortDicts hw).mpr h)

/-- **Reading back a stable value leaves its canonical representative alone.** -/
theorem canon_readBack {v : PyVal F} (h : stable v = true) : canon (readBack v) = canon v := by
  obtain ⟨w, hw, hcanon, -, hsorted, hnative⟩ := canon_of_stable h
  rw [readBack_of_sortDicts hw, canon_of_sortedText hsorted hnative, hcanon]

/-- The elements of a list are read back one by one. -/
theorem readBack_list {vs ws : List (PyVal F)} (h : sortDictsList vs = some ws) :
    readBack (.list vs) = .list (vs.map readBack) := by
  have hform : formList ws = vs.map readBack := by
    induction vs generalizing ws with
    | nil =>
      obtain rfl := Option.some.inj h
      rfl
    | cons v vs ih =>
      simp only [sortDictsList, Option.bind_eq_some_iff, Option.map_eq_some_iff] at h
      obtain ⟨w, hw, ws', hws', rfl⟩ := h
      rw [formList, List.map_cons, ih hws', readBack_of_sortDicts hw]
  have hsort : sortDicts (.list vs) = some (.list ws) := by rw [sortDicts, h, Option.map_some]
  rw [readBack_of_sortDicts hsort, form, hform]

theorem mem_of_sortDictsItems {k : Key F} {v : PyVal F} : ∀ {kvs kvs' : List (Key F × PyVal F)},
    sortDictsItems kvs = some kvs' → (k, v) ∈ kvs → ∃ w, sortDicts v = some w ∧ (k, w) ∈ kvs'
  | (l, u) :: kvs, kvs', h, hmem => by
    simp only [sortDictsItems, Option.bind_eq_some_iff, Option.map_eq_some_iff] at h
    obtain ⟨u', hu, kvs'', hkvs, rfl⟩ := h
    rcases List.mem_cons.mp hmem with heq | hmem
    · obtain ⟨rfl, rfl⟩ := Prod.mk.inj heq
      exact ⟨u', hu, List.mem_cons_self⟩
    · obtain ⟨w, hw, hmem'⟩ := mem_of_sortDictsItems hkvs hmem
      exact ⟨w, hw, List.mem_cons_of_mem _ hmem'⟩

/-- **An object is read back item by item**, its keys in order. -/
theorem canon_object {ps : List (PyStr × PyVal F)} (h : (ps.map Prod.fst).Nodup) {v : PyVal F}
    (hv : canon (.dict (strItems ps)) = some v) :
    ∃ qs : List (PyStr × PyVal F), v = .dict (strItems qs) ∧ (qs.map Prod.fst).Nodup ∧
      (∀ p ∈ ps, ∃ w, canon p.2 = some w ∧ (p.1, w) ∈ qs) ∧
      ∀ q ∈ qs, q.1 ∈ ps.map Prod.fst := by
  simp only [canon, sortDicts, Option.bind_eq_some_iff, Option.map_eq_some_iff] at hv
  obtain ⟨w, ⟨kvs', hitems, out, hout, rfl⟩, rfl⟩ := hv
  have hperm := perm_of_sortItems hout
  have htext : (kvs'.map fun kv => kv.1.text) = ps.map Prod.fst := by
    have hfst := congrArg (List.map Key.text) (map_fst_sortDictsItems hitems)
    rw [List.map_map, List.map_map] at hfst
    exact hfst.trans (map_text_strItems ps)
  have hpermKeys : ((formItems out).map Prod.fst).Perm (ps.map Prod.fst) := by
    rw [map_fst_formItems, ← htext]
    exact hperm.map _
  have hkeys := hpermKeys.nodup_iff.mpr h
  refine ⟨formItems out, by rw [form, dictOf_eq_strItems hkeys], hkeys, ?_, ?_⟩
  · intro p hp
    have hstr : (.str p.1, p.2) ∈ (strItems ps : List (Key F × PyVal F)) :=
      List.mem_map.mpr ⟨_, hp, rfl⟩
    obtain ⟨w, hw, hmem⟩ := mem_of_sortDictsItems hitems hstr
    refine ⟨form w, by rw [canon, hw, Option.map_some], ?_⟩
    rw [formItems_eq_map]
    exact List.mem_map.mpr ⟨_, hperm.mem_iff.mpr hmem, rfl⟩
  · intro q hq
    exact hpermKeys.mem_iff.mp (List.mem_map_of_mem (f := Prod.fst) hq)

/-- **A value of an object is read back under its key.** -/
theorem dictGet_readBack {ps : List (PyStr × PyVal F)} (h : (ps.map Prod.fst).Nodup) {w : PyVal F}
    (hw : sortDicts (.dict (strItems ps)) = some w) {k : PyStr} {v : PyVal F} (hmem : (k, v) ∈ ps) :
    ∃ kvs, readBack (.dict (strItems ps)) = .dict kvs ∧ dictGet k kvs = some (readBack v) := by
  have hcanon : canon (.dict (strItems ps)) = some (readBack (.dict (strItems ps))) := by
    rw [canon, hw, Option.map_some, readBack_of_sortDicts hw]
  obtain ⟨qs, hqs, hkeys, hitems, -⟩ := canon_object h hcanon
  obtain ⟨u, hu, hmem'⟩ := hitems _ hmem
  refine ⟨strItems qs, hqs, ?_⟩
  rw [dictGet_of_mem hkeys hmem', readBack, hu, Option.getD_some]

/-- A list is read back element by element. -/
theorem canon_list {us : List (PyVal F)} {v : PyVal F} (h : canon (.list us) = some v) :
    ∃ vs, v = .list vs ∧ List.Forall₂ (fun u w => canon u = some w) us vs := by
  simp only [canon, sortDicts, Option.map_eq_some_iff] at h
  obtain ⟨w, ⟨ws, hws, rfl⟩, rfl⟩ := h
  refine ⟨formList ws, rfl, ?_⟩
  induction us generalizing ws with
  | nil =>
    obtain rfl := Option.some.inj hws
    exact List.Forall₂.nil
  | cons u us ih =>
    simp only [sortDictsList, Option.bind_eq_some_iff, Option.map_eq_some_iff] at hws
    obtain ⟨u', hu, us', hus, rfl⟩ := hws
    exact List.Forall₂.cons (by rw [canon, hu, Option.map_some]) (ih us' hus)

end Py
