import Mathlib.Data.List.Induction
import Mathlib.Data.List.Nodup

/-!
# Insertion-ordered dictionaries

A dictionary is the list of its items in the order in which their keys were
first set.  Setting a key that is there replaces its value in place.

## Main definitions

* `get` — the value of a key.
* `set` — a key with a new value.
* `keys` — the keys, in order.
* `push`, `group` — a value goes behind those of its key; many values do.
* `latest`, `overwritten` — the last value of each key, and the others.
* `pushNew`, `collect` — the values of each key, without repetition.

## Main results

* `get_set` — what a set does to every key.
* `keys_set` — and to the keys.
* `get_group`, `mem_keys_group` — **a group holds the values of its key, in order.**
* `get_latest`, `collect_spec` — the same for the latest values and the collections.
* `perm_flatMap_filter` — the values, key by key, are the values.
* `countP_filterMap_get` — the values of some keys, counted.
* `perm_latest` — **the latest values and the overwritten ones are all.**
-/

namespace Dict

variable {K V : Type*} [DecidableEq K]

/-- The value of a key. -/
def get (k : K) : List (K × V) → Option V
  | [] => none
  | (l, v) :: d => if l = k then some v else get k d

/-- The dictionary with a new value for a key. -/
def set (k : K) (v : V) : List (K × V) → List (K × V)
  | [] => [(k, v)]
  | (l, w) :: d => if l = k then (l, v) :: d else (l, w) :: set k v d

/-- The keys. -/
def keys (d : List (K × V)) : List K := d.map Prod.fst

@[simp] theorem get_nil (k : K) : get k ([] : List (K × V)) = none := rfl

omit [DecidableEq K] in
@[simp] theorem keys_nil : keys ([] : List (K × V)) = [] := rfl

omit [DecidableEq K] in
@[simp] theorem keys_cons (k : K) (v : V) (d : List (K × V)) : keys ((k, v) :: d) = k :: keys d :=
  rfl

/-- **A set changes the value of its key, and of no other.** -/
theorem get_set (k l : K) (v : V) (d : List (K × V)) :
    get l (set k v d) = if k = l then some v else get l d := by
  induction d with
  | nil => simp [set, get]
  | cons p d ih =>
    obtain ⟨m, w⟩ := p
    by_cases hm : m = k
    · subst hm
      simp only [set, if_true, get]
      split_ifs <;> rfl
    · simp only [set, if_neg hm, get, ih]
      by_cases hml : m = l
      · subst hml
        rw [if_pos rfl, if_neg fun h => hm h.symm, if_pos rfl]
      · rw [if_neg hml, if_neg hml]

@[simp] theorem get_set_self (k : K) (v : V) (d : List (K × V)) : get k (set k v d) = some v := by
  rw [get_set, if_pos rfl]

theorem get_set_ne {k l : K} (h : k ≠ l) (v : V) (d : List (K × V)) :
    get l (set k v d) = get l d := by
  rw [get_set, if_neg h]

/-- The later value of a key counts. -/
theorem set_set (k : K) (v w : V) (d : List (K × V)) : set k w (set k v d) = set k w d := by
  induction d with
  | nil => simp [set]
  | cons p d ih =>
    obtain ⟨l, u⟩ := p
    by_cases h : l = k
    · simp [set, h]
    · simp [set, h, ih]

/-- A value set again changes nothing. -/
theorem set_of_get {k : K} {v : V} {d : List (K × V)} (h : get k d = some v) : set k v d = d := by
  induction d with
  | nil => cases h
  | cons p d ih =>
    obtain ⟨l, w⟩ := p
    rw [get] at h
    by_cases hl : l = k
    · rw [if_pos hl] at h
      rw [set, if_pos hl, Option.some.inj h]
    · rw [if_neg hl] at h
      rw [set, if_neg hl, ih h]

/-- **A value that looks like the one it replaces leaves what is seen of the items.** -/
theorem map_set_of_get {B : Type*} {f : K × V → B} {k : K} {v w : V} {d : List (K × V)}
    (h : get k d = some w) (hf : f (k, v) = f (k, w)) : (set k v d).map f = d.map f := by
  induction d with
  | nil => cases h
  | cons p d ih =>
    obtain ⟨l, u⟩ := p
    rw [get] at h
    by_cases hl : l = k
    · rw [if_pos hl] at h
      obtain rfl := Option.some.inj h
      rw [set, if_pos hl, List.map_cons, List.map_cons, hl, hf]
    · rw [if_neg hl] at h
      rw [set, if_neg hl, List.map_cons, List.map_cons, ih h]

/-- A set among items that are made of a list. -/
theorem set_map_key {A : Type*} {cs : List A} {key : A → K} {g g' : A → V} {k : K} {v : V}
    (hnodup : (cs.map key).Nodup) (hk : k ∈ cs.map key) (hv : ∀ c ∈ cs, key c = k → v = g' c)
    (hne : ∀ c ∈ cs, key c ≠ k → g c = g' c) :
    set k v (cs.map fun c => (key c, g c)) = cs.map fun c => (key c, g' c) := by
  induction cs with
  | nil => cases hk
  | cons c cs ih =>
    obtain ⟨hnot, hnodup⟩ := List.nodup_cons.mp hnodup
    rw [List.map_cons, List.map_cons, set]
    by_cases hc : key c = k
    · have hrest : ∀ c' ∈ cs, key c' ≠ k := fun c' hc' heq =>
        hnot (hc ▸ heq ▸ List.mem_map_of_mem hc')
      rw [if_pos hc, hv c List.mem_cons_self hc]
      congr 1
      exact List.map_congr_left fun c' hc' => by
        rw [hne c' (List.mem_cons_of_mem c hc') (hrest c' hc')]
    · rw [if_neg hc, hne c List.mem_cons_self hc, ih hnodup
        ((List.mem_cons.mp hk).resolve_left (Ne.symm hc))
        (fun c' hc' => hv c' (List.mem_cons_of_mem c hc'))
        fun c' hc' => hne c' (List.mem_cons_of_mem c hc')]

/-- The keys after a set: the key goes last if it is new. -/
theorem keys_set (k : K) (v : V) (d : List (K × V)) :
    keys (set k v d) = if k ∈ keys d then keys d else keys d ++ [k] := by
  induction d with
  | nil => simp [set]
  | cons p d ih =>
    obtain ⟨m, w⟩ := p
    by_cases hm : m = k
    · subst hm
      simp [set]
    · rw [set, if_neg hm, keys_cons, keys_cons, ih]
      by_cases hk : k ∈ keys d
      · rw [if_pos hk, if_pos (List.mem_cons_of_mem _ hk)]
      · have hcons : k ∉ m :: keys d := by
          rw [List.mem_cons, not_or]
          exact ⟨fun h => hm h.symm, hk⟩
        rw [if_neg hk, if_neg hcons, List.cons_append]

theorem mem_keys_set {k l : K} {v : V} {d : List (K × V)} :
    l ∈ keys (set k v d) ↔ l = k ∨ l ∈ keys d := by
  rw [keys_set]
  split_ifs with h
  · constructor
    · exact Or.inr
    · rintro (rfl | hl)
      · exact h
      · exact hl
  · rw [List.mem_append, List.mem_singleton, or_comm]

/-- Distinct keys stay distinct. -/
theorem nodup_keys_set {k : K} {v : V} {d : List (K × V)} (h : (keys d).Nodup) :
    (keys (set k v d)).Nodup := by
  rw [keys_set]
  split_ifs with hk
  · exact h
  · exact List.nodup_append.mpr ⟨h, List.nodup_singleton _, by
      intro a ha b hb hab
      rw [List.mem_singleton] at hb
      exact hk (hb ▸ hab ▸ ha)⟩

/-- Among distinct keys an item is what its key has. -/
theorem get_of_mem {k : K} {v : V} {d : List (K × V)} (hd : (keys d).Nodup) (h : (k, v) ∈ d) :
    get k d = some v := by
  induction d with
  | nil => cases h
  | cons p d ih =>
    obtain ⟨l, w⟩ := p
    rw [keys_cons, List.nodup_cons] at hd
    rcases List.mem_cons.mp h with heq | hmem
    · obtain ⟨rfl, rfl⟩ := Prod.mk.injEq .. ▸ heq
      rw [get, if_pos rfl]
    · have hk : k ∈ keys d := List.mem_map_of_mem hmem
      have hne : l ≠ k := fun hlk => hd.1 (hlk ▸ hk)
      rw [get, if_neg hne, ih hd.2 hmem]

/-- A key has a value iff it is there. -/
theorem get_isSome {k : K} {d : List (K × V)} : (get k d).isSome ↔ k ∈ keys d := by
  induction d with
  | nil => simp
  | cons p d ih =>
    obtain ⟨m, w⟩ := p
    simp only [get, keys_cons, List.mem_cons]
    split_ifs with h
    · simp [h]
    · rw [ih]
      constructor
      · exact Or.inr
      · rintro (h' | h')
        · exact absurd h'.symm h
        · exact h'

theorem mem_of_get {k : K} {v : V} {d : List (K × V)} (h : get k d = some v) : (k, v) ∈ d := by
  induction d with
  | nil => cases h
  | cons p d ih =>
    obtain ⟨m, w⟩ := p
    rw [get] at h
    split_ifs at h with hm
    · obtain rfl := Option.some.inj h
      exact hm ▸ List.mem_cons_self
    · exact List.mem_cons_of_mem _ (ih h)

/-- The order of the items does not matter to a lookup. -/
theorem get_perm {k : K} {d d' : List (K × V)} (hd : (keys d).Nodup) (h : d.Perm d') :
    get k d = get k d' := by
  have hd' : (keys d').Nodup := (h.map Prod.fst).nodup_iff.mp hd
  cases hget : get k d with
  | some v => exact (get_of_mem hd' (h.mem_iff.mp (mem_of_get hget))).symm
  | none =>
    cases hget' : get k d' with
    | none => rfl
    | some v =>
      rw [get_of_mem hd (h.mem_iff.mpr (mem_of_get hget'))] at hget
      cases hget

/-- Dicts with the same lookups hold the same items. -/
theorem perm_of_get {d d' : List (K × V)} (hd : (keys d).Nodup) (hd' : (keys d').Nodup)
    (h : ∀ k, get k d = get k d') : d.Perm d' := by
  rw [List.perm_ext_iff_of_nodup (List.Nodup.of_map _ hd) (List.Nodup.of_map _ hd')]
  rintro ⟨k, v⟩
  constructor
  · intro hmem
    exact mem_of_get ((h k).symm.trans (get_of_mem hd hmem))
  · intro hmem
    exact mem_of_get ((h k).trans (get_of_mem hd' hmem))

/-- A lookup in a dict whose values were mapped. -/
theorem get_map {W : Type*} (f : K → V → W) (k : K) (d : List (K × V)) :
    get k (d.map fun p => (p.1, f p.1 p.2)) = (get k d).map (f k) := by
  induction d with
  | nil => rfl
  | cons p d ih =>
    rw [List.map_cons, get, get]
    by_cases hp : p.1 = k
    · simp only [hp, if_true, Option.map_some]
    · simp only [hp, if_false]
      exact ih

/-- The items of a key, counted, are its value, counted. -/
theorem countP_key (p : V → Bool) {d : List (K × V)} (hd : (keys d).Nodup) {k : K} {v : V}
    (hmem : (k, v) ∈ d) :
    (d.countP fun kv => decide (kv.1 = k) && p kv.2) = if p v then 1 else 0 := by
  induction d with
  | nil => cases hmem
  | cons kv d ih =>
    obtain ⟨l, w⟩ := kv
    rw [keys_cons, List.nodup_cons] at hd
    rw [List.countP_cons]
    rcases List.mem_cons.mp hmem with heq | hmem
    · obtain ⟨rfl, rfl⟩ := Prod.mk.inj heq
      have hnone : (d.countP fun kv => decide (kv.1 = k) && p kv.2) = 0 := by
        rw [List.countP_eq_zero]
        intro kv hkv h
        have hkey := of_decide_eq_true (Bool.and_eq_true_iff.mp h).1
        exact hd.1 (hkey ▸ List.mem_map_of_mem hkv)
      rw [hnone]
      simp
    · have hne : l ≠ k := fun h => hd.1 (h ▸ List.mem_map_of_mem hmem)
      rw [ih hd.2 hmem]
      simp [hne]

/-- The items of a key and of others, counted. -/
theorem countP_mem_cons (p : V → Bool) (d : List (K × V)) {k : K} {ks : List K} (hk : k ∉ ks) :
    (d.countP fun kv => decide (kv.1 ∈ k :: ks) && p kv.2)
      = (d.countP fun kv => decide (kv.1 = k) && p kv.2) +
        d.countP fun kv => decide (kv.1 ∈ ks) && p kv.2 := by
  induction d with
  | nil => rfl
  | cons kv d ih =>
    rw [List.countP_cons, List.countP_cons, List.countP_cons, ih]
    by_cases hkv : kv.1 = k
    · simp only [hkv, List.mem_cons, true_or, hk, decide_true, decide_false, Bool.true_and,
        Bool.false_and, Bool.false_eq_true, if_false]
      omega
    · simp only [hkv, List.mem_cons, false_or, decide_false, Bool.false_and, Bool.false_eq_true,
        if_false]
      omega

/-- **The values of some keys, counted, are the items of those keys, counted.** -/
theorem countP_filterMap_get (p : V → Bool) {d : List (K × V)} (hd : (keys d).Nodup) {ks : List K}
    (hks : ks.Nodup) (hsub : ∀ k ∈ ks, k ∈ keys d) :
    (ks.filterMap fun k => get k d).countP p
      = d.countP fun kv => decide (kv.1 ∈ ks) && p kv.2 := by
  induction ks with
  | nil => simp
  | cons k ks ih =>
    rw [List.nodup_cons] at hks
    obtain ⟨v, hv⟩ := Option.isSome_iff_exists.mp (get_isSome.mpr (hsub k List.mem_cons_self))
    have hrest := ih hks.2 fun l hl => hsub l (List.mem_cons_of_mem k hl)
    rw [List.filterMap_cons, hv, List.countP_cons, hrest, countP_mem_cons p d hks.1,
      countP_key p hd (mem_of_get hv)]
    omega

/-! ### Groups -/

/-- The value goes behind the values of its key. -/
def push {A : Type*} (k : K) (a : A) (d : List (K × List A)) : List (K × List A) :=
  set k ((get k d).getD [] ++ [a]) d

/-- The values grouped by a key. -/
def group {A : Type*} (key : A → K) (l : List A) : List (K × List A) :=
  l.foldl (fun d a => push (key a) a d) []

variable {A : Type*}

theorem get_push (k l : K) (a : A) (d : List (K × List A)) :
    (get l (push k a d)).getD [] = (get l d).getD [] ++ if k = l then [a] else [] := by
  unfold push
  rw [get_set]
  by_cases h : k = l
  · rw [if_pos h, if_pos h, h, Option.getD_some]
  · rw [if_neg h, if_neg h, List.append_nil]

theorem mem_keys_push {k l : K} {a : A} {d : List (K × List A)} :
    l ∈ keys (push k a d) ↔ l = k ∨ l ∈ keys d := mem_keys_set

theorem group_concat (key : A → K) (l : List A) (a : A) :
    group key (l ++ [a]) = push (key a) a (group key l) := by
  rw [group, List.foldl_append]
  rfl

/-- **A group holds the values of its key, in order.** -/
theorem get_group (key : A → K) (l : List A) (k : K) :
    (get k (group key l)).getD [] = l.filter fun a => key a = k := by
  induction l using List.reverseRecOn with
  | nil => rfl
  | append_singleton l a ih =>
    rw [group_concat, get_push, ih, List.filter_append]
    by_cases h : key a = k
    · simp [h]
    · simp [h]

/-- The keys of the groups are those of the values. -/
theorem mem_keys_group {key : A → K} {l : List A} {k : K} :
    k ∈ keys (group key l) ↔ ∃ a ∈ l, key a = k := by
  induction l using List.reverseRecOn with
  | nil => simp [group]
  | append_singleton l a ih =>
    rw [group_concat, mem_keys_push, ih]
    constructor
    · rintro (rfl | ⟨b, hb, rfl⟩)
      · exact ⟨a, by simp, rfl⟩
      · exact ⟨b, List.mem_append_left _ hb, rfl⟩
    · rintro ⟨b, hb, rfl⟩
      rcases List.mem_append.mp hb with hb | hb
      · exact .inr ⟨b, hb, rfl⟩
      · rw [List.mem_singleton] at hb
        exact .inl (hb ▸ rfl)

/-- **The values, key by key, are the values.** -/
theorem perm_flatMap_filter {key : A → K} {ks : List K} (hks : ks.Nodup) {l : List A}
    (h : ∀ a ∈ l, key a ∈ ks) : (ks.flatMap fun k => l.filter fun a => key a = k).Perm l := by
  induction ks generalizing l with
  | nil =>
    cases l with
    | nil => exact List.Perm.refl _
    | cons a l => exact absurd (h a List.mem_cons_self) List.not_mem_nil
  | cons k ks ih =>
    rw [List.nodup_cons] at hks
    rw [List.flatMap_cons]
    have hrest : (ks.flatMap fun k' => l.filter fun a => key a = k')
        = ks.flatMap fun k' => (l.filter fun a => ¬key a = k).filter fun a => key a = k' := by
      apply List.flatMap_congr
      intro k' hk'
      rw [List.filter_filter]
      apply List.filter_congr
      intro a _
      have hne : key a = k' → ¬key a = k := fun hk hk0 => hks.1 (hk0 ▸ hk ▸ hk')
      by_cases hk : key a = k'
      · simp [hk, show ¬k' = k from hk ▸ hne hk]
      · simp [hk]
    rw [hrest]
    have hothers := ih (l := l.filter fun a => ¬key a = k) hks.2 (by
      intro a ha
      have hne := of_decide_eq_true (List.mem_filter.mp ha).2
      exact (List.mem_cons.mp (h a (List.mem_filter.mp ha).1)).resolve_left hne)
    refine (hothers.append_left _).trans ?_
    have hsplit := List.filter_append_perm (fun a => decide (key a = k)) l
    simpa using hsplit

/-- **Of lists that hold values of one key each, the values of a key are its list.** -/
theorem filter_flatMap_key {key : A → K} {f : K → List A} (hf : ∀ k, ∀ a ∈ f k, key a = k)
    {ks : List K} (hks : ks.Nodup) (k : K) :
    ((ks.flatMap f).filter fun a => key a = k) = if k ∈ ks then f k else [] := by
  induction ks with
  | nil => rfl
  | cons l ks ih =>
    rw [List.nodup_cons] at hks
    rw [List.flatMap_cons, List.filter_append, ih hks.2]
    by_cases hl : l = k
    · subst hl
      have hown : (f l).filter (fun a => key a = l) = f l :=
        List.filter_eq_self.mpr fun a ha => decide_eq_true (hf l a ha)
      rw [hown, if_neg hks.1, if_pos List.mem_cons_self, List.append_nil]
    · have hnone : (f l).filter (fun a => key a = k) = [] := by
        rw [List.filter_eq_nil_iff]
        intro a ha h
        exact hl ((hf l a ha).symm.trans (of_decide_eq_true h))
      have hiff : k ∈ l :: ks ↔ k ∈ ks := by
        rw [List.mem_cons]
        exact ⟨fun h => h.resolve_left fun h' => hl h'.symm, Or.inr⟩
      simp only [hnone, List.nil_append, hiff]

theorem nodup_keys_group (key : A → K) (l : List A) : (keys (group key l)).Nodup := by
  induction l using List.reverseRecOn with
  | nil => exact List.nodup_nil
  | append_singleton l a ih =>
    rw [group_concat]
    exact nodup_keys_set ih

/-- The keys of the groups, in the order in which they first stand. -/
theorem keys_group (key : A → K) (l : List A) :
    keys (group key l)
      = (l.map key).foldl (fun ks k => if k ∈ ks then ks else ks ++ [k]) [] := by
  induction l using List.reverseRecOn with
  | nil => rfl
  | append_singleton l a ih =>
    rw [group_concat, push, keys_set, ih, List.map_append, List.foldl_append]
    rfl

/-- A dictionary is its keys with their values. -/
theorem map_keys_getD {d : List (K × List A)} (hd : (keys d).Nodup) :
    (keys d).map (fun k => (k, (get k d).getD [])) = d := by
  rw [keys, List.map_map]
  conv_rhs => rw [← List.map_id d]
  apply List.map_congr_left
  rintro ⟨k, as⟩ hmem
  rw [Function.comp_apply, get_of_mem hd hmem]
  rfl

/-- **A pushed value is one more value of all.** -/
theorem flatMap_push (k : K) (a : A) (d : List (K × List A)) :
    ((push k a d).flatMap Prod.snd).Perm (d.flatMap Prod.snd ++ [a]) := by
  induction d with
  | nil => exact List.Perm.refl _
  | cons p d ih =>
    obtain ⟨l, as⟩ := p
    by_cases hl : l = k
    · subst hl
      have hpush : push l a ((l, as) :: d) = (l, as ++ [a]) :: d := by
        simp [push, set, get]
      rw [hpush, List.flatMap_cons, List.flatMap_cons, List.append_assoc, List.append_assoc]
      exact List.perm_append_comm.append_left as
    · have hpush : push k a ((l, as) :: d) = (l, as) :: push k a d := by
        simp [push, set, get, hl]
      rw [hpush, List.flatMap_cons, List.flatMap_cons, List.append_assoc]
      exact ih.append_left as

/-- **The groups are the keys, each with its values.** -/
theorem group_eq (key : A → K) (l : List A) :
    group key l = (keys (group key l)).map fun k => (k, l.filter fun a => key a = k) := by
  conv_lhs => rw [← map_keys_getD (nodup_keys_group key l)]
  apply List.map_congr_left
  intro k _
  rw [get_group]

/-! ### The latest value of each key -/

/-- The values by their key, the later over the earlier. -/
def latest (key : A → K) (l : List A) : List (K × A) := l.foldl (fun d a => set (key a) a d) []

theorem latest_concat (key : A → K) (l : List A) (a : A) :
    latest key (l ++ [a]) = set (key a) a (latest key l) := by
  rw [latest, List.foldl_append]
  rfl

/-- **The latest value of a key is the last of those that have it.** -/
theorem get_latest (key : A → K) (l : List A) (k : K) :
    get k (latest key l) = (l.filter fun a => key a = k).getLast? := by
  induction l using List.reverseRecOn with
  | nil => rfl
  | append_singleton l a ih =>
    rw [latest_concat, get_set, List.filter_append]
    by_cases h : key a = k
    · simp [h]
    · simp [h, ih]

theorem mem_keys_latest {key : A → K} {l : List A} {k : K} :
    k ∈ keys (latest key l) ↔ ∃ a ∈ l, key a = k := by
  induction l using List.reverseRecOn with
  | nil => simp [latest]
  | append_singleton l a ih =>
    rw [latest_concat, mem_keys_set, ih]
    constructor
    · rintro (rfl | ⟨b, hb, rfl⟩)
      · exact ⟨a, by simp, rfl⟩
      · exact ⟨b, by simp [hb], rfl⟩
    · rintro ⟨b, hb, rfl⟩
      rcases List.mem_append.mp hb with hb | hb
      · exact Or.inr ⟨b, hb, rfl⟩
      · exact Or.inl (by rw [List.mem_singleton.mp hb])

theorem nodup_keys_latest (key : A → K) (l : List A) : (keys (latest key l)).Nodup := by
  induction l using List.reverseRecOn with
  | nil => exact List.nodup_nil
  | append_singleton l a ih =>
    rw [latest_concat]
    exact nodup_keys_set ih

/-- A set in a dictionary whose values are mapped. -/
theorem map_set {W : Type*} (f : V → W) (k : K) (v : V) (d : List (K × V)) :
    (set k v d).map (fun p => (p.1, f p.2)) = set k (f v) (d.map fun p => (p.1, f p.2)) := by
  induction d with
  | nil => rfl
  | cons p d ih =>
    by_cases hp : p.1 = k
    · simp [set, hp]
    · simp only [set, hp, if_false, List.map_cons, ih]

/-- Pairs set one after the other are the latest of them. -/
theorem foldl_set_eq_latest (ps : List (K × V)) :
    ps.foldl (fun d p => set p.1 p.2 d) []
      = (latest Prod.fst ps).map fun q => (q.1, q.2.2) := by
  induction ps using List.reverseRecOn with
  | nil => rfl
  | append_singleton ps p ih =>
    rw [List.foldl_append, List.foldl_cons, List.foldl_nil, ih, latest_concat, map_set]

/-- The values whose key comes again. -/
def overwritten (key : A → K) : List A → List A
  | [] => []
  | a :: l => if key a ∈ l.map key then a :: overwritten key l else overwritten key l

/-- A map that keeps the keys keeps what is overwritten. -/
theorem map_overwritten {B : Type*} {key : A → K} {key' : B → K} {f : A → B}
    (h : ∀ a, key' (f a) = key a) (l : List A) :
    (overwritten key l).map f = overwritten key' (l.map f) := by
  induction l with
  | nil => rfl
  | cons a l ih =>
    have hkeys : (l.map f).map key' = l.map key := by
      rw [List.map_map]
      exact List.map_congr_left fun b _ => h b
    simp only [overwritten, List.map_cons, hkeys, h, ← ih]
    split_ifs
    · rfl
    · rfl

/-- A set takes the value of its key out and puts its own in. -/
theorem values_set (k : K) (v : V) (d : List (K × V)) :
    ((set k v d).map Prod.snd ++ (get k d).toList).Perm (d.map Prod.snd ++ [v]) := by
  induction d with
  | nil => exact List.Perm.refl _
  | cons p d ih =>
    by_cases hp : p.1 = k
    · rw [set, if_pos hp, get, if_pos hp]
      exact (List.perm_append_singleton p.2 (v :: d.map Prod.snd)).trans
        ((List.perm_append_singleton v (d.map Prod.snd)).symm.cons p.2)
    · rw [set, if_neg hp, get, if_neg hp]
      exact ih.cons p.2

/-- With one more value, what its key had is overwritten. -/
theorem overwritten_concat (key : A → K) (l : List A) (a : A) :
    (overwritten key (l ++ [a])).Perm (overwritten key l ++ (get (key a) (latest key l)).toList) := by
  rw [get_latest]
  induction l with
  | nil => exact List.Perm.refl _
  | cons b l ih =>
    have hmem : key b ∈ (l ++ [a]).map key ↔ key b ∈ l.map key ∨ key b = key a := by simp
    rw [List.cons_append, overwritten, overwritten, List.filter_cons]
    by_cases hb : key b ∈ l.map key
    · rw [if_pos (hmem.mpr (Or.inl hb)), if_pos hb]
      refine (ih.cons b).trans (List.Perm.of_eq ?_)
      -- the last value with the key of `a` is behind `b`
      split_ifs with hba
      · obtain ⟨c, hc, hcb⟩ := List.mem_map.mp hb
        have hne : (l.filter fun x => decide (key x = key a)) ≠ [] :=
          List.ne_nil_of_mem (List.mem_filter.mpr
            ⟨hc, decide_eq_true (hcb.trans (of_decide_eq_true hba))⟩)
        rw [List.getLast?_cons_of_ne_nil hne]
        rfl
      · rfl
    · rw [if_neg hb]
      split_ifs with hba hab
      · have hkey : key b = key a := of_decide_eq_true hab
        have hnil : (l.filter fun x => decide (key x = key a)) = [] := by
          rw [List.filter_eq_nil_iff]
          intro c hc hca
          exact hb (List.mem_map.mpr ⟨c, hc, (of_decide_eq_true hca).trans hkey.symm⟩)
        rw [hnil] at ih ⊢
        rw [List.getLast?_nil, Option.toList_none, List.append_nil] at ih
        exact (ih.cons b).trans (List.perm_append_singleton b _).symm
      · exact absurd (decide_eq_true ((hmem.mp hba).resolve_left hb)) hab
      · exact absurd (hmem.mpr (Or.inr (of_decide_eq_true ‹_›))) hba
      · exact ih

/-- **The latest values and the overwritten ones are all.** -/
theorem perm_latest (key : A → K) (l : List A) :
    ((latest key l).map Prod.snd ++ overwritten key l).Perm l := by
  induction l using List.reverseRecOn with
  | nil => exact List.Perm.refl _
  | append_singleton l a ih =>
    rw [latest_concat]
    have hset := (values_set (key a) a (latest key l)).append_right (overwritten key l)
    rw [List.append_assoc] at hset
    refine ((overwritten_concat key l a).append_left _).trans ?_
    -- what is taken out goes before what was, and the new value behind
    refine (List.perm_append_comm.append_left _).trans (hset.trans ?_)
    have hswap : ([a] ++ overwritten key l).Perm (overwritten key l ++ [a]) := List.perm_append_comm
    have hback := hswap.append_left ((latest key l).map Prod.snd)
    rw [← List.append_assoc, ← List.append_assoc] at hback
    exact hback.trans (ih.append_right [a])

/-! ### Keys of one value -/

/-- Every key with the value. -/
def setAll (ks : List K) (v : V) (d : List (K × V)) : List (K × V) :=
  ks.foldl (fun d k => set k v d) d

theorem get_setAll (ks : List K) (v : V) (d : List (K × V)) (k : K) :
    get k (setAll ks v d) = if k ∈ ks then some v else get k d := by
  induction ks generalizing d with
  | nil => simp [setAll]
  | cons l ks ih =>
    rw [show setAll (l :: ks) v d = setAll ks v (set l v d) from rfl, ih, get_set]
    by_cases hl : l = k
    · simp [hl]
    · simp [hl, Ne.symm hl]

/-- Only which keys there are matters. -/
theorem get_setAll_congr {ks ks' : List K} {d d' : List (K × V)} {k : K} (v : V)
    (hks : k ∈ ks ↔ k ∈ ks') (hd : get k d = get k d') :
    get k (setAll ks v d) = get k (setAll ks' v d') := by
  rw [get_setAll, get_setAll, hd]
  by_cases h : k ∈ ks
  · rw [if_pos h, if_pos (hks.mp h)]
  · rw [if_neg h, if_neg fun h' => h (hks.mpr h')]

/-- Another value was there before. -/
theorem get_of_get_setAll {ks : List K} {v w : V} {d : List (K × V)} {k : K}
    (h : get k (setAll ks v d) = some w) (hne : v ≠ w) : get k d = some w := by
  rw [get_setAll] at h
  split_ifs at h
  · exact absurd (Option.some.inj h) hne
  · exact h

/-! ### Lists without repetition -/

/-- The value goes behind those of its key, unless it is there. -/
def pushNew [DecidableEq V] (k : K) (v : V) (d : List (K × List V)) : List (K × List V) :=
  set k (if v ∈ (get k d).getD [] then (get k d).getD [] else (get k d).getD [] ++ [v]) d

theorem get_pushNew [DecidableEq V] (k l : K) (v : V) (d : List (K × List V)) :
    (get l (pushNew k v d)).getD []
      = if k = l ∧ v ∉ (get l d).getD [] then (get l d).getD [] ++ [v] else (get l d).getD [] := by
  unfold pushNew
  rw [get_set]
  by_cases h : k = l
  · subst h
    by_cases hv : v ∈ (get k d).getD []
    · simp [hv]
    · simp [hv]
  · simp [h]

/-- The values of pairs, each once under its key. -/
def collect [DecidableEq V] (l : List (K × V)) : List (K × List V) :=
  l.foldl (fun d p => pushNew p.1 p.2 d) []

theorem collect_concat [DecidableEq V] (l : List (K × V)) (p : K × V) :
    collect (l ++ [p]) = pushNew p.1 p.2 (collect l) := by
  rw [collect, List.foldl_append]
  rfl

/-- **A key collects its values, each once.** -/
theorem collect_spec [DecidableEq V] (l : List (K × V)) (k : K) :
    ((get k (collect l)).getD []).Nodup ∧
      ∀ v, v ∈ (get k (collect l)).getD [] ↔ (k, v) ∈ l := by
  induction l using List.reverseRecOn with
  | nil => exact ⟨List.nodup_nil, fun v => by simp [collect]⟩
  | append_singleton l p ih =>
    rw [collect_concat, get_pushNew]
    split_ifs with hnew
    · refine ⟨?_, ?_⟩
      · rw [List.nodup_append]
        refine ⟨ih.1, List.nodup_singleton _, ?_⟩
        rintro a ha b hb rfl
        exact hnew.2 (List.mem_singleton.mp hb ▸ ha)
      · intro v
        rw [List.mem_append, ih.2, List.mem_append, List.mem_singleton, List.mem_singleton]
        rw [Prod.ext_iff]
        simp [hnew.1]
    · refine ⟨ih.1, ?_⟩
      intro v
      rw [ih.2, List.mem_append, List.mem_singleton]
      constructor
      · exact Or.inl
      · rintro (h | rfl)
        · exact h
        · by_contra hv
          exact hnew ⟨rfl, fun hmem => hv ((ih.2 _).mp hmem)⟩

theorem nodup_keys_collect [DecidableEq V] (l : List (K × V)) : (keys (collect l)).Nodup := by
  induction l using List.reverseRecOn with
  | nil => exact List.nodup_nil
  | append_singleton l p ih =>
    rw [collect_concat]
    exact nodup_keys_set ih

end Dict
