import Daryl.Json.Text

/-!
# Values without NaN and infinities

Under `allow_nan=False` a value has a text just if no NaN and no infinity is in it, and what
stands for JSON, whose keys are strings, can be sorted.

## Main definitions

* `finite` — no NaN and no infinity is in the value.

## Main results

* `exists_print_iff_finite` — **what is printed without NaN is finite, and every finite value is
  printed.**
* `finite_of_sortDicts` — sorting keeps this.
* `printable_iff_finite` — the same of the sorted text.
-/

namespace Json

open Py

variable {F : Type}

/-- The number is none of NaN and the infinities. -/
def finiteFloat : FloatVal F → Bool
  | .finite _ => true
  | _ => false

/-- The key is no infinity. -/
def finiteKey : Key F → Bool
  | .inf _ => false
  | _ => true

mutual

/-- No NaN and no infinity is in the value. -/
def finite : PyVal F → Bool
  | .float x => finiteFloat x
  | .list vs => finiteList vs
  | .tuple vs => finiteList vs
  | .dict kvs => finiteItems kvs
  | _ => true

/-- `finite` on the elements of a list. -/
def finiteList : List (PyVal F) → Bool
  | [] => true
  | v :: vs => finite v && finiteList vs

/-- `finite` on the items of a dict. -/
def finiteItems : List (Key F × PyVal F) → Bool
  | [] => true
  | (k, v) :: kvs => finiteKey k && finite v && finiteItems kvs

end

theorem finiteItems_iff {kvs : List (Key F × PyVal F)} :
    finiteItems kvs = true ↔ ∀ kv ∈ kvs, finiteKey kv.1 = true ∧ finite kv.2 = true := by
  induction kvs with
  | nil => simp [finiteItems]
  | cons kv kvs ih => simp [finiteItems, ih, and_assoc]

theorem finite_strItems {ps : List (PyStr × PyVal F)} :
    finite (.dict (strItems ps) : PyVal F) = true ↔ ∀ p ∈ ps, finite p.2 = true := by
  rw [finite, finiteItems_iff, strItems, List.forall_mem_map]
  exact forall_congr' fun p => imp_congr_right fun _ => and_iff_right rfl

variable [PyFloat F] {st : Style}

theorem exists_printFloat_iff (hst : st.allowNan = false) {x : FloatVal F} :
    (∃ t, printFloat st.allowNan x = some t) ↔ finiteFloat x = true := by
  cases x <;> simp [printFloat, finiteFloat, hst]

theorem exists_printKey_iff (hst : st.allowNan = false) {k : Key F} :
    (∃ t, printKey st k = some t) ↔ finiteKey k = true := by
  cases k <;> simp [printKey, finiteKey, hst]

mutual

/-- **A value has a text without NaN just if it is finite.** -/
theorem exists_print_iff_finite (hst : st.allowNan = false) : ∀ {v : PyVal F},
    (∃ t, print st v = some t) ↔ finite v = true
  | .none | .bool _ | .int _ | .str _ => iff_of_true ⟨_, rfl⟩ rfl
  | .float x => exists_printFloat_iff hst
  | .list vs | .tuple vs => by
    rw [finite, ← exists_prints_iff_finite hst, ← exists_printList_iff]
    simp [print]
  | .dict kvs => by
    rw [finite, ← exists_printItems_iff_finite hst]
    exact ⟨fun ⟨_, h⟩ => exists_print_of_printDict h, exists_printDict⟩

theorem exists_prints_iff_finite (hst : st.allowNan = false) : ∀ {vs : List (PyVal F)},
    (∀ v ∈ vs, ∃ t, print st v = some t) ↔ finiteList vs = true
  | [] => by simp [finiteList]
  | v :: vs => by
    rw [List.forall_mem_cons, exists_print_iff_finite hst, exists_prints_iff_finite hst, finiteList,
      Bool.and_eq_true]

theorem exists_printItems_iff_finite (hst : st.allowNan = false) : ∀ {kvs : List (Key F × PyVal F)},
    (∀ kv ∈ kvs, (∃ tk, printKey st kv.1 = some tk) ∧ ∃ t, print st kv.2 = some t) ↔
      finiteItems kvs = true
  | [] => by simp [finiteItems]
  | (k, v) :: kvs => by
    rw [List.forall_mem_cons, exists_printKey_iff hst, exists_print_iff_finite hst,
      exists_printItems_iff_finite hst, finiteItems, Bool.and_eq_true, Bool.and_eq_true]

end

/-! ### Sorted values -/

mutual

/-- Sorting keeps the numbers of a value. -/
theorem finite_of_sortDicts : ∀ {v w : PyVal F}, sortDicts v = some w → finite w = finite v
  | .none, w, h | .bool _, w, h | .int _, w, h | .float _, w, h | .str _, w, h =>
    Option.some.inj h ▸ rfl
  | .list vs, w, h | .tuple vs, w, h => by
    obtain ⟨ws, hws, rfl⟩ := Option.map_eq_some_iff.mp h
    exact finiteList_of_sortDicts hws
  | .dict kvs, w, h => by
    simp only [sortDicts, Option.bind_eq_some_iff, Option.map_eq_some_iff] at h
    obtain ⟨kvs', hkvs', s, hs, rfl⟩ := h
    rw [finite, finite, ← finiteItems_of_sortDicts hkvs', Bool.eq_iff_iff, finiteItems_iff,
      finiteItems_iff]
    exact forall_congr' fun kv => by rw [(perm_of_sortItems hs).mem_iff]

theorem finiteList_of_sortDicts : ∀ {vs ws : List (PyVal F)}, sortDictsList vs = some ws →
    finiteList ws = finiteList vs
  | [], ws, h => Option.some.inj h ▸ rfl
  | v :: vs, ws, h => by
    simp only [sortDictsList, Option.bind_eq_some_iff, Option.map_eq_some_iff] at h
    obtain ⟨w, hw, ws', hws', rfl⟩ := h
    rw [finiteList, finiteList, finite_of_sortDicts hw, finiteList_of_sortDicts hws']

theorem finiteItems_of_sortDicts : ∀ {kvs kvs' : List (Key F × PyVal F)},
    sortDictsItems kvs = some kvs' → finiteItems kvs' = finiteItems kvs
  | [], kvs', h => Option.some.inj h ▸ rfl
  | (k, v) :: kvs, kvs', h => by
    simp only [sortDictsItems, Option.bind_eq_some_iff, Option.map_eq_some_iff] at h
    obtain ⟨w, hw, kvs'', hkvs'', rfl⟩ := h
    rw [finiteItems, finiteItems, finite_of_sortDicts hw, finiteItems_of_sortDicts hkvs'']

end

/-- What has a sorted text without NaN is finite. -/
theorem finite_of_printable (hst : st.allowNan = false) {v : PyVal F} (h : Printable st v) :
    finite v = true := by
  obtain ⟨w, t, hw, ht⟩ := h
  rw [← finite_of_sortDicts hw]
  exact (exists_print_iff_finite hst).mp ⟨t, ht⟩

/-- **A value that can be sorted has a text without NaN just if it is finite.** -/
theorem printable_iff_finite (hst : st.allowNan = false) {v : PyVal F} (hv : stable v = true) :
    Printable st v ↔ finite v = true := by
  refine ⟨finite_of_printable hst, fun h => ?_⟩
  obtain ⟨w, hw, -⟩ := sortDicts_of_stable hv
  rw [← finite_of_sortDicts hw] at h
  obtain ⟨t, ht⟩ := (exists_print_iff_finite hst).mpr h
  exact ⟨w, t, hw, ht⟩

end Json
