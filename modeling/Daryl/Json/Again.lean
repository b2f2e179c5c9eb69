import Daryl.Json.Ascii
import Daryl.Py.Eq

/-!
# A value that was read back, written again

`json.dumps` takes more than JSON has: a tuple is written as a list, and a key that is a number, a
boolean or `None` as a string.  Written again, what was read back has its keys in the order of their
texts, which is not the order of the numbers.

## Main definitions

* `keysOnce` — no key of a dict is there twice.

## Main results

* `distinct_of_keysOnce` — keys that can be sorted have different texts.
* `pyEq_readBack_iff` — **what is read back equals the dict exactly when the dict is made of what JSON
  has.**
* `print_again_iff` — **it is written as the dict was exactly when the keys are stable.**
-/

namespace Json

open Py

variable {F : Type} [PyFloat F]

/-! ### Keys and their texts -/

mutual

/-- No key of a dict is there twice.  (In Python `1` and `1.0` are one key too.) -/
def keysOnce : PyVal F → Prop
  | .list vs => keysOnceList vs
  | .tuple vs => keysOnceList vs
  | .dict kvs => keysOnceItems kvs ∧ (kvs.map Prod.fst).Nodup
  | _ => True

/-- `keysOnce` on the elements of a list. -/
def keysOnceList : List (PyVal F) → Prop
  | [] => True
  | v :: vs => keysOnce v ∧ keysOnceList vs

/-- `keysOnce` on the values of a dict. -/
def keysOnceItems : List (Key F × PyVal F) → Prop
  | [] => True
  | (_, v) :: kvs => keysOnce v ∧ keysOnceItems kvs

end

/-- The number that a key is. -/
def numberOf : Key F → PyVal F
  | .str s => .str s
  | .int n => .int n
  | .bool b => .bool b
  | .none => .none
  | .float x => .float (.finite x)
  | .inf neg => .float (.inf neg)

omit [PyFloat F] in
theorem numberOf_injective : Function.Injective (numberOf : Key F → PyVal F) := by
  intro k l h
  cases k <;> cases l <;> first | rfl | (cases h; done) | (cases h; rfl)

/-- A number is written alike as a key and as a value. -/
theorem print_numberOf {k : Key F} (h : k.num?.isSome) :
    print ⟨false, true, false⟩ (numberOf k) = some k.text := by
  cases k with
  | str s => exact absurd h Bool.false_ne_true
  | none => exact absurd h Bool.false_ne_true
  | int n => rfl
  | bool b => rfl
  | float x => rfl
  | inf neg => rfl

/-- Numbers with one text are one number. -/
theorem eq_of_text_eq {k l : Key F} (hk : k.num?.isSome) (hl : l.num?.isSome)
    (h : k.text = l.text) : k = l := by
  have hform := form_eq_of_print_eq (print_numberOf hk) (h ▸ print_numberOf hl) (by simp) (by simp)
  have hself : ∀ m : Key F, form (numberOf m) = numberOf m := fun m => by cases m <;> rfl
  rw [hself, hself] at hform
  exact numberOf_injective hform

/-- **Keys that can be sorted have different texts.** -/
theorem nodup_text_of_sortItems {V : Type} {kvs s : List (Key F × V)} (hs : sortItems kvs = some s)
    (h : (kvs.map Prod.fst).Nodup) : (kvs.map fun kv => kv.1.text).Nodup := by
  rw [List.nodup_map_iff_inj_on h.of_map]
  intro a ha b hb htext
  have hinj := (List.nodup_map_iff_inj_on h.of_map).mp h a ha b hb
  unfold sortItems at hs
  split_ifs at hs with hone hstr hnum
  · -- there is but one item
    obtain _ | ⟨c, _ | ⟨d, l⟩⟩ := kvs
    · cases ha
    · rw [List.mem_singleton.mp ha, List.mem_singleton.mp hb]
    · simp at hone
  · have hka := List.all_eq_true.mp hstr a ha
    have hkb := List.all_eq_true.mp hstr b hb
    obtain ⟨ka, va⟩ := a
    obtain ⟨kb, vb⟩ := b
    cases ka with
    | str s =>
      cases kb with
      | str t =>
        obtain rfl : s = t := htext
        exact hinj rfl
      | _ => cases hkb
    | _ => cases hka
  · exact hinj (eq_of_text_eq (List.all_eq_true.mp hnum a ha) (List.all_eq_true.mp hnum b hb) htext)

mutual

/-- Keys that are there once have different texts, wherever they can be sorted. -/
theorem distinct_of_keysOnce : ∀ {v w : PyVal F}, sortDicts v = some w → keysOnce v → distinct v
  | .none, _, _, _ | .bool _, _, _, _ | .int _, _, _, _ | .float _, _, _, _ | .str _, _, _, _ => trivial
  | .list vs, w, hw, h | .tuple vs, w, hw, h => by
    obtain ⟨ws, hws, -⟩ := Option.map_eq_some_iff.mp hw
    exact distinctList_of_keysOnce hws (show keysOnceList vs from h)
  | .dict kvs, w, hw, h => by
    simp only [sortDicts, Option.bind_eq_some_iff, Option.map_eq_some_iff] at hw
    obtain ⟨kvs', hkvs', s, hs, -⟩ := hw
    obtain ⟨s', hs', -⟩ := sortItems_of_map_fst_eq (map_fst_sortDictsItems hkvs').symm hs
    exact ⟨distinctItems_of_keysOnce hkvs' h.1, nodup_text_of_sortItems hs' h.2⟩

theorem distinctList_of_keysOnce : ∀ {vs ws : List (PyVal F)}, sortDictsList vs = some ws →
    keysOnceList vs → distinctList vs
  | [], _, _, _ => trivial
  | v :: vs, ws, hws, h => by
    simp only [sortDictsList, Option.bind_eq_some_iff, Option.map_eq_some_iff] at hws
    obtain ⟨w, hw, ws', hws', -⟩ := hws
    exact ⟨distinct_of_keysOnce hw h.1, distinctList_of_keysOnce hws' h.2⟩

theorem distinctItems_of_keysOnce : ∀ {kvs kvs' : List (Key F × PyVal F)},
    sortDictsItems kvs = some kvs' → keysOnceItems kvs → distinctItems kvs
  | [], _, _, _ => trivial
  | (k, v) :: kvs, kvs', hkvs', h => by
    simp only [sortDictsItems, Option.bind_eq_some_iff, Option.map_eq_some_iff] at hkvs'
    obtain ⟨w, hw, rest, hrest, -⟩ := hkvs'
    exact ⟨distinct_of_keysOnce hw h.1, distinctItems_of_keysOnce hrest h.2⟩

end

/-! ### What JSON has -/

mutual

/-- A value of what JSON has is as it is read back. -/
theorem form_of_native : ∀ {v : PyVal F}, keysOnce v → native v → form v = v
  | .none, _, _ | .bool _, _, _ | .int _, _, _ | .float _, _, _ | .str _, _, _ => rfl
  | .list vs, h, hn => congrArg PyVal.list (formList_of_native h hn)
  | .tuple vs, _, hn => hn.elim
  | .dict kvs, h, hn => by
    have hitems := formItems_of_native h.1 hn
    have hkeys : ((formItems kvs).map Prod.fst).Nodup := by
      have hfst := congrArg (List.map Prod.fst) hitems
      rw [strItems, List.map_map] at hfst
      refine List.Nodup.of_map (fun s => (Key.str s : Key F)) ?_
      rw [List.map_map]
      exact hfst.symm ▸ h.2
    rw [form, dictOf_eq_strItems hkeys, hitems]

theorem formList_of_native : ∀ {vs : List (PyVal F)}, keysOnceList vs → nativeList vs →
    formList vs = vs
  | [], _, _ => rfl
  | v :: vs, h, hn => by
    rw [formList, form_of_native h.1 hn.1, formList_of_native h.2 hn.2]

theorem formItems_of_native : ∀ {kvs : List (Key F × PyVal F)}, keysOnceItems kvs →
    nativeItems kvs → strItems (formItems kvs) = kvs
  | [], _, _ => rfl
  | (k, v) :: kvs, h, hn => by
    obtain ⟨hk, hv, hkvs⟩ := hn
    cases k with
    | str s =>
      have hrest := formItems_of_native h.2 hkvs
      rw [strItems] at hrest
      rw [formItems, strItems, List.map_cons, hrest, form_of_native h.1 hv]
      rfl
    | _ => cases hk

end

mutual

/-- What is the same as a value that JSON has is made of what JSON has. -/
theorem native_of_pySame : ∀ {v w : PyVal F}, pySame v w = true → native w → native v
  | .none, _, _, _ | .bool _, _, _, _ | .int _, _, _, _ | .float _, _, _, _ | .str _, _, _, _ => trivial
  | .list vs, w, h, hn => by
    obtain ⟨ws, rfl, hvs⟩ := pySame_list_left.mp h
    exact nativeList_of_pyEqList hvs hn
  | .tuple vs, w, h, hn => by
    obtain ⟨ws, rfl, -⟩ := pySame_tuple_left.mp h
    exact hn.elim
  | .dict kvs, w, h, hn => by
    obtain ⟨lws, rfl, -, hitems⟩ := pySame_dict_left.mp h
    have hvalues : ∀ s w, dictGet s lws = some w → native w := fun s w hw =>
      (nativeItems_iff.mp hn _ (mem_of_dictGet hw)).2
    exact nativeItems_of_pySame kvs fun kv hkv => by
      obtain ⟨s, w, hs, hw, hsame⟩ := hitems kv hkv
      exact ⟨by rw [hs]; rfl, w, hsame, hvalues s w hw⟩

theorem nativeList_of_pyEqList : ∀ {vs ws : List (PyVal F)}, pyEqList vs ws = true →
    nativeList ws → nativeList vs
  | [], _, _, _ => trivial
  | v :: vs, ws, h, hn => by
    obtain ⟨w, ws, rfl, hsame, hrest⟩ := pyEqList_cons.mp h
    exact ⟨native_of_pySame hsame hn.1, nativeList_of_pyEqList hrest hn.2⟩

theorem nativeItems_of_pySame : ∀ kvs : List (Key F × PyVal F),
    (∀ kv ∈ kvs, kv.1.str?.isSome ∧ ∃ w, pySame kv.2 w = true ∧ native w) → nativeItems kvs
  | [], _ => trivial
  | (k, v) :: kvs, h => by
    obtain ⟨hk, w, hsame, hw⟩ := h _ List.mem_cons_self
    exact ⟨hk, native_of_pySame hsame hw,
      nativeItems_of_pySame kvs fun kv hkv => h kv (List.mem_cons_of_mem _ hkv)⟩

end

/-- **A dict equals what is read back of it exactly when it is made of what JSON has**: string keys, and
no tuple. -/
theorem pyEq_readBack_iff {kvs : List (Key F × PyVal F)} {w : PyVal F}
    (hw : sortDicts (.dict kvs) = some w) (h : keysOnce (.dict kvs)) :
    pyEq (.dict kvs) (readBack (.dict kvs)) = true ↔ native (.dict kvs) := by
  constructor
  · intro heq
    have hsame : pySame (.dict kvs) (readBack (.dict kvs)) = true := by
      rw [pySame, heq, Bool.or_true]
    rw [readBack_of_sortDicts hw] at hsame
    exact native_of_pySame hsame (native_form w)
  · intro hn
    exact pyEq_readBack (form_of_native h hn)

/-- A value of what JSON has is stable. -/
theorem stable_of_native {v : PyVal F} (h : keysOnce v) (hn : native v) : stable v = true :=
  form_of_native h hn ▸ stable_form v

/-- **What is read back is written as the value was exactly when the keys are stable.** -/
theorem print_again_iff {v w w' : PyVal F} {st : Style} {t : PyStr} (h : keysOnce v)
    (hw : sortDicts v = some w) (ht : print st w = some t) (hw' : sortDicts (form w) = some w')
    (hj : st.ensureAscii = true → eachStr Joined w) :
    print st w' = some t ↔ stable v = true := by
  constructor
  · intro ht'
    have hj' : st.ensureAscii = true → eachStr Joined w' := fun hst =>
      (eachStr_of_sortDicts hw').mpr (eachStr_form_of (hj hst))
    obtain ⟨w'', hw'', hsorted⟩ := sortDicts_of_stable (stable_form w)
    obtain rfl := Option.some.inj (hw''.symm.trans hw')
    -- one text is read back as one value, and the keys of `w'` are in the order of their texts
    have hform := form_eq_of_print_eq ht ht' hj hj'
    have hdistinct := distinct_of_sortDicts hw (distinct_of_keysOnce hw h)
    exact stable_of_sortedText hw
      (sortedText_of_form hdistinct (hform ▸ (sortedText_form hsorted).1))
  · intro hstable
    have hagain := sortDicts_readBack hstable hw
    rw [readBack_of_sortDicts hw, hw'] at hagain
    obtain ⟨w'', hw'', hsorted⟩ := sortDicts_of_stable hstable
    obtain rfl := Option.some.inj (hw''.symm.trans hw)
    rw [Option.some.inj hagain]
    exact print_form hsorted ht

end Json
