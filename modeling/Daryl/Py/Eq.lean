import Daryl.Py.Canon

/-!
# Python `==` on JSON values

Numbers compare across `bool`, `int` and `float`, dicts whatever the order of
their keys, and `nan` equals nothing.  Inside a container identity comes before
equality: the `nan` that `json.loads` returns is one object, so there it equals
itself.

## Main definitions

* `pyEq` — `v == w`, for values read from JSON or made of strings.
* `pySame` — `v is w or v == w`, by which a list or a dict finds a value.
* `pyIn` — `v in ws`.
* `PyVal.hashes` — the value has a hash.
* `isNone` — `v is None`.

## Main results

* `pySame_refl`, `pySame_symm`, `pySame_trans` — on values read from JSON this is an
  equivalence.
* `pySame_symm_of_hashes` — so it is on values that have a hash.
* `pyEq_readBack` — **what is read back of a JSON dict equals it.**
-/

namespace Py

variable {F : Type} [PyFloat F]

/-- Where a number stands among numbers, as for keys. -/
def PyVal.num? : PyVal F → Option (ℤ ×ₗ ℚ)
  | .bool b => some (toLex (0, if b then 1 else 0))
  | .int n => some (toLex (0, (n : ℚ)))
  | .float (.finite x) => some (toLex (0, PyFloat.val x))
  | .float (.inf neg) => some (toLex (if neg then -1 else 1, 0))
  | _ => Option.none

/-- The value is `nan`. -/
def PyVal.isNan : PyVal F → Bool
  | .float .nan => true
  | _ => false

mutual

/-- `v == w`. -/
def pyEq : PyVal F → PyVal F → Bool
  | .none, .none => true
  | .str s, .str t => s == t
  | .list vs, .list ws => pyEqList vs ws
  | .tuple vs, .tuple ws => pyEqList vs ws
  | .dict kvs, .dict lws => kvs.length == lws.length && pyEqItems kvs lws
  | v, w => v.num?.isSome && v.num? == w.num?

/-- Equal lists: every two elements are the same `nan`, or equal. -/
def pyEqList : List (PyVal F) → List (PyVal F) → Bool
  | [], [] => true
  | v :: vs, w :: ws => (v.isNan && w.isNan || pyEq v w) && pyEqList vs ws
  | _, _ => false

/-- Every item has its equal in the other dict. -/
def pyEqItems : List (Key F × PyVal F) → List (Key F × PyVal F) → Bool
  | [], _ => true
  | (k, v) :: kvs, lws =>
    (match k.str?.bind fun s => dictGet s lws with
      | some w => v.isNan && w.isNan || pyEq v w
      | Option.none => false) && pyEqItems kvs lws

end

section

-- the equations are derived here once, before the proofs that wait for them
attribute [local simp] pyEq pyEqList pyEqItems

end

mutual

/-- A value that has a hash. -/
def PyVal.hashes : PyVal F → Bool
  | .list _ => false
  | .dict _ => false
  | .tuple vs => PyVal.hashesAll vs
  | _ => true

/-- Values that all have one. -/
def PyVal.hashesAll : List (PyVal F) → Bool
  | [] => true
  | v :: vs => PyVal.hashes v && PyVal.hashesAll vs

end

/-- `v is None`. -/
def PyVal.isNone : PyVal F → Bool
  | .none => true
  | _ => false

omit [PyFloat F] in
@[simp] theorem isNone_iff {v : PyVal F} : v.isNone = true ↔ v = .none := by
  cases v <;> simp [PyVal.isNone]

/-- A string equals itself alone. -/
@[simp] theorem pyEq_str_right {s : PyStr} {v : PyVal F} :
    pyEq v (.str s) = true ↔ v = .str s := by
  cases v with
  | float x => cases x <;> simp [pyEq, PyVal.num?]
  | _ => simp [pyEq, PyVal.num?]

@[simp] theorem pyEq_str_left {s : PyStr} {v : PyVal F} :
    pyEq (.str s) v = true ↔ v = .str s := by
  cases v with
  | str t =>
    simp only [pyEq, beq_iff_eq, PyVal.str.injEq]
    exact eq_comm
  | _ => simp [pyEq, PyVal.num?]

/-! ### Values in lists -/

/-- `v is w or v == w`. -/
def pySame (v w : PyVal F) : Bool := v.isNan && w.isNan || pyEq v w

/-- `v in ws`. -/
def pyIn (v : PyVal F) (ws : List (PyVal F)) : Bool := ws.any (pySame v)

theorem pyIn_iff {v : PyVal F} {ws : List (PyVal F)} :
    pyIn v ws = true ↔ ∃ w ∈ ws, pySame v w = true := List.any_eq_true

/-- A string is the same as itself alone. -/
@[simp] theorem pySame_str_left {s : PyStr} {v : PyVal F} :
    pySame (.str s) v = true ↔ v = .str s := by
  have hnan : (PyVal.str s : PyVal F).isNan = false := rfl
  rw [pySame, hnan, Bool.false_and, Bool.false_or, pyEq_str_left]

@[simp] theorem pySame_str_right {s : PyStr} {v : PyVal F} :
    pySame v (.str s) = true ↔ v = .str s := by
  have hnan : (PyVal.str s : PyVal F).isNan = false := rfl
  rw [pySame, hnan, Bool.and_false, Bool.false_or, pyEq_str_right]

theorem pySame_none_left {v : PyVal F} : pySame .none v = true ↔ v = .none := by
  cases v <;> simp [pySame, pyEq, PyVal.isNan, PyVal.num?]

theorem pySame_nan_left {v : PyVal F} : pySame (.float .nan) v = true ↔ v = .float .nan := by
  cases v with
  | float x => cases x <;> simp [pySame, pyEq, PyVal.isNan, PyVal.num?]
  | _ => simp [pySame, pyEq, PyVal.isNan, PyVal.num?]

/-- A number is the same as the equal ones, whatever their types. -/
theorem pySame_num_left {v w : PyVal F} {q : ℤ ×ₗ ℚ} (hv : v.num? = some q) :
    pySame v w = true ↔ w.num? = some q := by
  have heq : (v.num?.isSome && v.num? == w.num?) = true ↔ w.num? = some q := by
    rw [hv, Option.isSome_some, Bool.true_and, beq_iff_eq, eq_comm]
  cases v with
  | float x =>
    cases x with
    | nan => cases hv
    | _ => simpa [pySame, pyEq, PyVal.isNan] using heq
  | bool _ | int _ => simpa [pySame, pyEq, PyVal.isNan] using heq
  | _ => cases hv

theorem pySame_list_left {vs : List (PyVal F)} {w : PyVal F} :
    pySame (.list vs) w = true ↔ ∃ ws, w = .list ws ∧ pyEqList vs ws = true := by
  cases w <;> simp [pySame, pyEq, PyVal.isNan, PyVal.num?]

theorem pySame_tuple_left {vs : List (PyVal F)} {w : PyVal F} :
    pySame (.tuple vs) w = true ↔ ∃ ws, w = .tuple ws ∧ pyEqList vs ws = true := by
  cases w <;> simp [pySame, pyEq, PyVal.isNan, PyVal.num?]

theorem pyEqItems_iff {lws kvs : List (Key F × PyVal F)} : pyEqItems kvs lws = true ↔
    ∀ kv ∈ kvs, ∃ s w, kv.1 = .str s ∧ dictGet s lws = some w ∧ pySame kv.2 w = true := by
  induction kvs with
  | nil => simp [pyEqItems]
  | cons kv kvs ih =>
    obtain ⟨k, v⟩ := kv
    rw [pyEqItems, Bool.and_eq_true, ih, List.forall_mem_cons]
    refine and_congr_left fun _ => ?_
    cases k with
    | str s => cases hget : dictGet s lws <;> simp [Key.str?, hget, pySame]
    | _ => simp [Key.str?]

theorem pySame_dict_left {kvs : List (Key F × PyVal F)} {w : PyVal F} :
    pySame (.dict kvs) w = true ↔ ∃ lws, w = .dict lws ∧ kvs.length = lws.length ∧
      ∀ kv ∈ kvs, ∃ s w, kv.1 = .str s ∧ dictGet s lws = some w ∧ pySame kv.2 w = true := by
  cases w with
  | dict lws => simp [pySame, pyEq, PyVal.isNan, pyEqItems_iff]
  | _ => simp [pySame, pyEq, PyVal.isNan, PyVal.num?]

theorem pyEqList_cons {v : PyVal F} {vs ws : List (PyVal F)} :
    pyEqList (v :: vs) ws = true ↔
      ∃ w ws', ws = w :: ws' ∧ pySame v w = true ∧ pyEqList vs ws' = true := by
  cases ws <;> simp [pyEqList, pySame]

mutual

/-- **A value that was read from JSON is the same as itself.** -/
theorem pySame_refl : ∀ {v : PyVal F}, form v = v → pySame v v = true
  | .none, _ => rfl
  | .bool _, _ | .int _, _ | .float (.inf _), _ | .float (.finite _), _ =>
    (pySame_num_left rfl).mpr rfl
  | .float .nan, _ => rfl
  | .str _, _ => pySame_str_left.mpr rfl
  | .list vs, h => by
    rw [form, PyVal.list.injEq] at h
    exact pySame_list_left.mpr ⟨vs, rfl, pyEqList_refl h⟩
  | .dict kvs, h => by
    obtain ⟨ps, rfl, hnodup⟩ := exists_strItems_of_form h
    refine pySame_dict_left.mpr ⟨_, rfl, rfl, fun kv hkv => ?_⟩
    have hsame := pySameItems_refl (strItems ps) (fun kv => form_of_mem h) kv hkv
    obtain ⟨p, hp, rfl⟩ := List.mem_map.mp hkv
    exact ⟨p.1, p.2, rfl, dictGet_of_mem hnodup hp, hsame⟩

theorem pyEqList_refl : ∀ {vs : List (PyVal F)}, formList vs = vs → pyEqList vs vs = true
  | [], _ => rfl
  | v :: vs, h => by
    rw [formList, List.cons.injEq] at h
    exact pyEqList_cons.mpr ⟨v, vs, rfl, pySame_refl h.1, pyEqList_refl h.2⟩

private theorem pySameItems_refl : ∀ kvs : List (Key F × PyVal F),
    (∀ kv ∈ kvs, form kv.2 = kv.2) → ∀ kv ∈ kvs, pySame kv.2 kv.2 = true
  | (k, v) :: kvs, h, kv, hkv => by
    rcases List.mem_cons.mp hkv with rfl | hkv
    · exact pySame_refl (h _ List.mem_cons_self)
    · exact pySameItems_refl kvs (fun kv hkv => h kv (List.mem_cons_of_mem _ hkv)) kv hkv

end

/-- Numbers that are the same as one number are the same. -/
private theorem pySame_num_trans {u v w : PyVal F} {q : ℤ ×ₗ ℚ} (hu : u.num? = some q)
    (huv : pySame u v = true) (hvw : pySame v w = true) : pySame u w = true := by
  have hv := (pySame_num_left hu).mp huv
  exact (pySame_num_left hu).mpr ((pySame_num_left hv).mp hvw)

mutual

/-- **What is the same as one value is the same.** -/
theorem pySame_trans : ∀ {u v w : PyVal F}, pySame u v = true → pySame v w = true →
    pySame u w = true
  | .none, _, _, huv, hvw => pySame_none_left.mp huv ▸ hvw
  | .str _, _, _, huv, hvw => pySame_str_left.mp huv ▸ hvw
  | .float .nan, _, _, huv, hvw => pySame_nan_left.mp huv ▸ hvw
  | .bool _, _, _, huv, hvw | .int _, _, _, huv, hvw | .float (.inf _), _, _, huv, hvw
  | .float (.finite _), _, _, huv, hvw => pySame_num_trans rfl huv hvw
  | .list us, v, w, huv, hvw => by
    obtain ⟨vs, rfl, hus⟩ := pySame_list_left.mp huv
    obtain ⟨ws, rfl, hvs⟩ := pySame_list_left.mp hvw
    exact pySame_list_left.mpr ⟨ws, rfl, pyEqList_trans hus hvs⟩
  | .tuple us, v, w, huv, hvw => by
    obtain ⟨vs, rfl, hus⟩ := pySame_tuple_left.mp huv
    obtain ⟨ws, rfl, hvs⟩ := pySame_tuple_left.mp hvw
    exact pySame_tuple_left.mpr ⟨ws, rfl, pyEqList_trans hus hvs⟩
  | .dict kvs, v, w, huv, hvw => by
    obtain ⟨lvs, rfl, hlen, hkvs⟩ := pySame_dict_left.mp huv
    obtain ⟨mws, rfl, hlen', hlvs⟩ := pySame_dict_left.mp hvw
    refine pySame_dict_left.mpr ⟨mws, rfl, hlen.trans hlen', fun kv hkv => ?_⟩
    obtain ⟨s, x, hs, hx, hsame⟩ := hkvs kv hkv
    obtain ⟨t, y, ht, hy, hsame'⟩ := hlvs _ (mem_of_dictGet hx)
    obtain rfl := Key.str.inj ht
    exact ⟨s, y, hs, hy, pySameItems_trans kvs kv hkv hsame hsame'⟩

theorem pyEqList_trans : ∀ {us vs ws : List (PyVal F)}, pyEqList us vs = true →
    pyEqList vs ws = true → pyEqList us ws = true
  | [], [], _, _, hvs => hvs
  | u :: us, vs, ws, hus, hvs => by
    obtain ⟨v, vs, rfl, hu, hus⟩ := pyEqList_cons.mp hus
    obtain ⟨w, ws, rfl, hv, hvs⟩ := pyEqList_cons.mp hvs
    exact pyEqList_cons.mpr ⟨w, ws, rfl, pySame_trans hu hv, pyEqList_trans hus hvs⟩

private theorem pySameItems_trans : ∀ kvs : List (Key F × PyVal F), ∀ kv ∈ kvs,
    ∀ {v w : PyVal F}, pySame kv.2 v = true → pySame v w = true → pySame kv.2 w = true
  | (k, u) :: kvs, kv, hkv, v, w, huv, hvw => by
    rcases List.mem_cons.mp hkv with rfl | hkv
    · exact pySame_trans huv hvw
    · exact pySameItems_trans kvs kv hkv huv hvw

end

mutual

/-- **Of two values read from JSON, either is the same as the other.** -/
theorem pySame_symm : ∀ {v w : PyVal F}, form v = v → form w = w → pySame v w = true →
    pySame w v = true
  | .none, _, _, _, h => pySame_none_left.mp h ▸ h
  | .str _, _, _, _, h => pySame_str_left.mp h ▸ pySame_str_left.mpr rfl
  | .float .nan, _, _, _, h => by
    obtain rfl := pySame_nan_left.mp h
    rfl
  | .bool _, _, _, _, h | .int _, _, _, _, h | .float (.inf _), _, _, _, h
  | .float (.finite _), _, _, _, h => (pySame_num_left ((pySame_num_left rfl).mp h)).mpr rfl
  | .list vs, w, hv, hw, h => by
    obtain ⟨ws, rfl, hvs⟩ := pySame_list_left.mp h
    rw [form, PyVal.list.injEq] at hv hw
    exact pySame_list_left.mpr ⟨vs, rfl, pyEqList_symm hv hw hvs⟩
  | .dict kvs, w, hv, hw, h => by
    obtain ⟨lws, rfl, hlen, hkvs⟩ := pySame_dict_left.mp h
    have hback := pySameItems_symm kvs (fun kv => form_of_mem hv)
    obtain ⟨ps, rfl, hps⟩ := exists_strItems_of_form hv
    obtain ⟨qs, rfl, hqs⟩ := exists_strItems_of_form hw
    have hsub : ps.map Prod.fst ⊆ qs.map Prod.fst := by
      intro s hs
      obtain ⟨p, hp, rfl⟩ := List.mem_map.mp hs
      obtain ⟨s, x, hkey, hx, -⟩ := hkvs _ (List.mem_map.mpr ⟨p, hp, rfl⟩)
      obtain ⟨q, hq, heq⟩ := List.mem_map.mp (mem_of_dictGet hx)
      obtain rfl := Key.str.inj hkey
      exact List.mem_map.mpr ⟨q, hq, Key.str.inj (Prod.mk.inj heq).1⟩
    -- as many keys on both sides, so that every key is on both
    have hperm : (ps.map Prod.fst).Perm (qs.map Prod.fst) := by
      refine (List.subperm_of_subset hps hsub).perm_of_length_le ?_
      simpa [strItems] using hlen.ge
    refine pySame_dict_left.mpr ⟨strItems ps, rfl, hlen.symm, fun lw hlw => ?_⟩
    obtain ⟨q, hq, rfl⟩ := List.mem_map.mp hlw
    obtain ⟨p, hp, hpq⟩ := List.mem_map.mp (hperm.mem_iff.mpr (List.mem_map_of_mem hq))
    have hmem : (Key.str p.1, p.2) ∈ (strItems ps : List (Key F × PyVal F)) :=
      List.mem_map.mpr ⟨p, hp, rfl⟩
    obtain ⟨s, x, hkey, hx, hsame⟩ := hkvs _ hmem
    obtain rfl := Key.str.inj hkey
    obtain rfl : q.2 = x := by
      have hget := dictGet_of_mem (F := F) hqs (k := q.1) (v := q.2) hq
      rw [← hpq, hx] at hget
      exact (Option.some.inj hget).symm
    refine ⟨q.1, p.2, rfl, dictGet_of_mem hps (hpq ▸ hp), ?_⟩
    exact hback _ hmem (form_of_mem hw hlw) hsame

theorem pyEqList_symm : ∀ {vs ws : List (PyVal F)}, formList vs = vs → formList ws = ws →
    pyEqList vs ws = true → pyEqList ws vs = true
  | [], [], _, _, _ => rfl
  | v :: vs, ws, hv, hw, h => by
    obtain ⟨w, ws, rfl, hsame, hrest⟩ := pyEqList_cons.mp h
    rw [formList, List.cons.injEq] at hv hw
    exact pyEqList_cons.mpr ⟨v, vs, rfl, pySame_symm hv.1 hw.1 hsame,
      pyEqList_symm hv.2 hw.2 hrest⟩

private theorem pySameItems_symm : ∀ kvs : List (Key F × PyVal F),
    (∀ kv ∈ kvs, form kv.2 = kv.2) → ∀ kv ∈ kvs, ∀ {w : PyVal F}, form w = w →
      pySame kv.2 w = true → pySame w kv.2 = true
  | (k, v) :: kvs, hv, kv, hkv, w, hw, h => by
    rcases List.mem_cons.mp hkv with rfl | hkv
    · exact pySame_symm (hv _ List.mem_cons_self) hw h
    · exact pySameItems_symm kvs (fun kv hkv => hv kv (List.mem_cons_of_mem _ hkv)) kv hkv hw h

end

/-! ### Values that have a hash -/

mutual

/-- A value that has a hash is the same as itself. -/
theorem pySame_refl_of_hashes : ∀ {v : PyVal F}, v.hashes = true → pySame v v = true
  | .none, _ | .float .nan, _ => rfl
  | .bool _, _ | .int _, _ | .float (.inf _), _ | .float (.finite _), _ =>
    (pySame_num_left rfl).mpr rfl
  | .str _, _ => pySame_str_left.mpr rfl
  | .tuple vs, h => pySame_tuple_left.mpr ⟨vs, rfl, pyEqList_refl_of_hashes h⟩

theorem pyEqList_refl_of_hashes : ∀ {vs : List (PyVal F)}, PyVal.hashesAll vs = true →
    pyEqList vs vs = true
  | [], _ => rfl
  | v :: vs, h => by
    rw [PyVal.hashesAll, Bool.and_eq_true] at h
    exact pyEqList_cons.mpr ⟨v, vs, rfl, pySame_refl_of_hashes h.1, pyEqList_refl_of_hashes h.2⟩

end

mutual

/-- What a value that has a hash is the same as is the same as it. -/
theorem pySame_symm_of_hashes : ∀ {v w : PyVal F}, v.hashes = true → pySame v w = true →
    pySame w v = true
  | .none, _, _, h => pySame_none_left.mp h ▸ h
  | .str _, _, _, h => pySame_str_left.mp h ▸ pySame_str_left.mpr rfl
  | .float .nan, _, _, h => by
    obtain rfl := pySame_nan_left.mp h
    rfl
  | .bool _, _, _, h | .int _, _, _, h | .float (.inf _), _, _, h | .float (.finite _), _, _, h =>
    (pySame_num_left ((pySame_num_left rfl).mp h)).mpr rfl
  | .tuple vs, w, hv, h => by
    obtain ⟨ws, rfl, hvs⟩ := pySame_tuple_left.mp h
    exact pySame_tuple_left.mpr ⟨vs, rfl, pyEqList_symm_of_hashes hv hvs⟩

theorem pyEqList_symm_of_hashes : ∀ {vs ws : List (PyVal F)}, PyVal.hashesAll vs = true →
    pyEqList vs ws = true → pyEqList ws vs = true
  | [], [], _, _ => rfl
  | v :: vs, ws, hv, h => by
    obtain ⟨w, ws, rfl, hsame, hrest⟩ := pyEqList_cons.mp h
    rw [PyVal.hashesAll, Bool.and_eq_true] at hv
    exact pyEqList_cons.mpr ⟨v, vs, rfl, pySame_symm_of_hashes hv.1 hsame,
      pyEqList_symm_of_hashes hv.2 hrest⟩

end

/-! ### Values read back -/

mutual

/-- **What is read back of a JSON value is the same.** -/
theorem pySame_of_canon : ∀ {v w : PyVal F}, form v = v → canon v = some w → pySame v w = true
  | .none, _, hv, hw | .bool _, _, hv, hw | .int _, _, hv, hw | .float _, _, hv, hw
  | .str _, _, hv, hw => Option.some.inj hw ▸ pySame_refl hv
  | .list vs, w, hv, hw => by
    obtain ⟨ws, rfl, hws⟩ := canon_list hw
    rw [form, PyVal.list.injEq] at hv
    exact pySame_list_left.mpr ⟨ws, rfl, pyEqList_of_canon hv hws⟩
  | .dict kvs, w, hv, hw => by
    have hsame := pySameItems_of_canon kvs fun kv => form_of_mem hv
    obtain ⟨ps, rfl, hps⟩ := exists_strItems_of_form hv
    obtain ⟨qs, rfl, hqs, hitems, hback⟩ := canon_object hps hw
    have hkeys : (ps.map Prod.fst).Perm (qs.map Prod.fst) := by
      rw [List.perm_ext_iff_of_nodup hps hqs]
      intro k
      constructor
      · intro hk
        obtain ⟨p, hp, rfl⟩ := List.mem_map.mp hk
        obtain ⟨u, -, hmem⟩ := hitems p hp
        exact List.mem_map.mpr ⟨_, hmem, rfl⟩
      · intro hk
        obtain ⟨q, hq, rfl⟩ := List.mem_map.mp hk
        exact hback q hq
    refine pySame_dict_left.mpr ⟨_, rfl, by simpa [strItems] using hkeys.length_eq, fun kv hkv => ?_⟩
    obtain ⟨p, hp, rfl⟩ := List.mem_map.mp hkv
    obtain ⟨u, hu, hmem⟩ := hitems p hp
    exact ⟨p.1, u, rfl, dictGet_of_mem hqs hmem, hsame _ hkv hu⟩

theorem pyEqList_of_canon : ∀ {vs ws : List (PyVal F)}, formList vs = vs →
    List.Forall₂ (fun v w => canon v = some w) vs ws → pyEqList vs ws = true
  | [], _, _, .nil => rfl
  | v :: vs, _, hv, .cons hw hws => by
    rw [formList, List.cons.injEq] at hv
    exact pyEqList_cons.mpr ⟨_, _, rfl, pySame_of_canon hv.1 hw, pyEqList_of_canon hv.2 hws⟩

private theorem pySameItems_of_canon : ∀ kvs : List (Key F × PyVal F),
    (∀ kv ∈ kvs, form kv.2 = kv.2) → ∀ kv ∈ kvs, ∀ {w : PyVal F}, canon kv.2 = some w →
      pySame kv.2 w = true
  | (k, v) :: kvs, hv, kv, hkv, w, h => by
    rcases List.mem_cons.mp hkv with rfl | hkv
    · exact pySame_of_canon (hv _ List.mem_cons_self) h
    · exact pySameItems_of_canon kvs (fun kv hkv => hv kv (List.mem_cons_of_mem _ hkv)) kv hkv h

end

/-- **What is read back of a JSON dict equals it.** -/
theorem pyEq_readBack {kvs : List (Key F × PyVal F)} (h : form (.dict kvs) = .dict kvs) :
    pyEq (.dict kvs) (readBack (.dict kvs)) = true := by
  obtain ⟨w, hw, -⟩ := sortDicts_of_stable (h ▸ stable_form (.dict kvs))
  have hcanon : canon (.dict kvs) = some (readBack (.dict kvs)) := by
    rw [canon, hw, Option.map_some, readBack_of_sortDicts hw]
  have hsame := pySame_of_canon h hcanon
  have hnan : (PyVal.dict kvs : PyVal F).isNan = false := rfl
  rwa [pySame, hnan, Bool.false_and, Bool.false_or] at hsame

end Py
