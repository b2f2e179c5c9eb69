import Daryl.Lib.Dict
import Mathlib.Data.List.Infix

/-!
# Shedding items section by section

Sections of items that do not fit together are cut from their ends: the first section until the
rest fits or the section is empty, then the next.  What fits is any test of the sections, and need
not be monotone.

## Main definitions

* `items`, `pop` — a section, and the sections without its last item.
* `drain`, `shed` — the loops over one section, and over the sections in order.
* `Sheds` — just enough is dropped, and the first sections first.

## Main results

* `drain_spec` — what the loop over a section drops.
* `shed_spec` — **shedding drops just enough, from the first sections first.**
-/

namespace Shedding

variable {K A : Type*} [DecidableEq K]

/-- The items of a section. -/
def items (k : K) (d : List (K × List A)) : List A := (Dict.get k d).getD []

/-- The sections without the last item of one. -/
def pop (k : K) (d : List (K × List A)) : List (K × List A) := Dict.set k (items k d).dropLast d

@[simp] theorem items_set (k l : K) (as : List A) (d : List (K × List A)) :
    items l (Dict.set k as d) = if k = l then as else items l d := by
  rw [items, Dict.get_set, items]
  split_ifs <;> rfl

@[simp] theorem items_pop (k l : K) (d : List (K × List A)) :
    items l (pop k d) = if k = l then (items k d).dropLast else items l d := items_set k l _ d

/-- The loop over a section, while the sections do not fit; the flag tells whether anything was
dropped. -/
def drain (fits : List (K × List A) → Bool) (k : K) (st : List (K × List A) × Bool) :
    List (K × List A) × Bool :=
  if fits st.1 then st
  else if (items k st.1).isEmpty then st
  else drain fits k (pop k st.1, true)
termination_by (items k st.1).length
decreasing_by
  rename_i hne
  rw [items_pop, if_pos rfl, List.length_dropLast]
  have hpos : 0 < (items k st.1).length := by
    rw [List.length_pos_iff]
    simpa using hne
  omega

/-- The loop over the sections. -/
def shed (fits : List (K × List A) → Bool) :
    List K → List (K × List A) × Bool → List (K × List A) × Bool
  | [], st => st
  | k :: ks, st =>
    let st' := drain fits k st
    if fits st'.1 then st' else shed fits ks st'

/-- An item was dropped from a section last, and did not fit. -/
def DroppedLast (fits : List (K × List A) → Bool) (k : K) (d d' : List (K × List A)) : Prop :=
  ∃ a, items k d' ++ [a] <+: items k d ∧ fits (Dict.set k (items k d' ++ [a]) d') = false

/-- **Just enough is dropped, and from the first sections first.** -/
structure Sheds (fits : List (K × List A) → Bool) (order : List K)
    (st st' : List (K × List A) × Bool) : Prop where
  fits_or_empty : fits st'.1 = true ∨ ∀ k ∈ order, items k st'.1 = []
  isPrefix : ∀ k, items k st'.1 <+: items k st.1
  frame : ∀ k, k ∉ order → items k st'.1 = items k st.1
  inOrder : order.Pairwise fun k l => items l st'.1 ≠ items l st.1 → items k st'.1 = []
  last : st' = st ∨ st'.2 = true ∧ ∃ pre k post, order = pre ++ k :: post ∧
    (∀ l ∈ post, items l st'.1 = items l st.1) ∧ DroppedLast fits k st.1 st'.1

/-- A section put back is what was there. -/
theorem set_items {k : K} {d : List (K × List A)} (h : items k d ≠ []) :
    Dict.set k (items k d) d = d := by
  unfold items at h ⊢
  cases hget : Dict.get k d with
  | none =>
    rw [hget] at h
    exact absurd rfl h
  | some as => exact Dict.set_of_get hget

/-- What the loop over a section drops. -/
theorem drain_spec (fits : List (K × List A) → Bool) (k : K) (st : List (K × List A) × Bool) :
    (fits (drain fits k st).1 = true ∨ items k (drain fits k st).1 = []) ∧
      (∀ l, l ≠ k → items l (drain fits k st).1 = items l st.1) ∧
      (drain fits k st = st ∨ (drain fits k st).2 = true ∧
        DroppedLast fits k st.1 (drain fits k st).1) := by
  induction st using drain.induct fits k with
  | case1 st hfits =>
    rw [drain, if_pos hfits]
    exact ⟨Or.inl hfits, fun _ _ => rfl, Or.inl rfl⟩
  | case2 st hfits hempty =>
    rw [drain, if_neg hfits, if_pos hempty]
    exact ⟨Or.inr (List.isEmpty_iff.mp hempty), fun _ _ => rfl, Or.inl rfl⟩
  | case3 st hfits hne ih =>
    obtain ⟨hend, hframe, hlast⟩ := ih
    rw [drain, if_neg hfits, if_neg hne]
    have hitems : items k st.1 ≠ [] := fun h => hne (List.isEmpty_iff.mpr h)
    refine ⟨hend, ?_, Or.inr ?_⟩
    · intro l hl
      rw [hframe l hl, items_pop, if_neg fun h => hl h.symm]
    · rcases hlast with hstop | ⟨hflag, a, hinit, hout⟩
      · -- this item was the last
        rw [hstop]
        refine ⟨rfl, (items k st.1).getLast hitems, ?_, ?_⟩
        · rw [items_pop, if_pos rfl, List.dropLast_append_getLast]
        · rw [items_pop, if_pos rfl, List.dropLast_append_getLast, pop, Dict.set_set,
            set_items hitems]
          exact Bool.not_eq_true _ ▸ hfits
      · refine ⟨hflag, a, hinit.trans ?_, hout⟩
        rw [items_pop, if_pos rfl]
        exact List.dropLast_prefix _

theorem prefix_of_drain {fits : List (K × List A) → Bool} {k : K} {st : List (K × List A) × Bool} :
    items k (drain fits k st).1 <+: items k st.1 := by
  obtain ⟨-, -, hlast⟩ := drain_spec fits k st
  rcases hlast with hsame | ⟨-, a, hinit, -⟩
  · rw [hsame]
  · exact (List.prefix_append _ _).trans hinit

/-- **Shedding drops just enough, from the first sections first.** -/
theorem shed_spec (fits : List (K × List A) → Bool) {order : List K} (horder : order.Nodup)
    (st : List (K × List A) × Bool) : Sheds fits order st (shed fits order st) := by
  induction order generalizing st with
  | nil =>
    exact ⟨Or.inr nofun, fun k => List.prefix_refl _, fun _ _ => rfl, List.Pairwise.nil, Or.inl rfl⟩
  | cons k ks ih =>
    rw [List.nodup_cons] at horder
    obtain ⟨hend, hframe, hlast⟩ := drain_spec fits k st
    have hinit : ∀ l, items l (drain fits k st).1 <+: items l st.1 := by
      intro l
      by_cases hl : l = k
      · exact hl ▸ prefix_of_drain
      · rw [hframe l hl]
    have hother : ∀ l ∈ ks, l ≠ k := fun l hl h => horder.1 (h ▸ hl)
    rw [shed]
    split_ifs with hfits
    · refine ⟨Or.inl hfits, hinit, fun l hl => hframe l fun h => hl (h ▸ List.mem_cons_self), ?_, ?_⟩
      · refine List.pairwise_cons.mpr ⟨fun l hl hne => absurd (hframe l (hother l hl)) hne, ?_⟩
        refine List.Pairwise.imp_of_mem ?_ (List.pairwise_of_forall fun _ _ => trivial)
        exact fun _ hl _ hne => absurd (hframe _ (hother _ hl)) hne
      · refine hlast.imp_right fun h => ⟨h.1, [], k, ks, rfl, ?_, h.2⟩
        exact fun l hl => hframe l (hother l hl)
    · -- the section is empty, and stays so
      have hrest := ih horder.2 (drain fits k st)
      have hk : items k (shed fits ks (drain fits k st)).1 = [] := by
        rw [hrest.frame k horder.1]
        exact hend.resolve_left hfits
      refine ⟨?_, fun l => (hrest.isPrefix l).trans (hinit l), ?_, ?_, ?_⟩
      · refine hrest.fits_or_empty.imp_right fun h l hl => ?_
        rcases List.mem_cons.mp hl with rfl | hl
        · exact hk
        · exact h l hl
      · intro l hl
        rw [List.mem_cons, not_or] at hl
        rw [hrest.frame l hl.2, hframe l hl.1]
      · refine List.pairwise_cons.mpr ⟨fun l _ _ => hk, hrest.inOrder.imp_of_mem ?_⟩
        intro l m _ hm h hne
        exact h (hframe m (hother m hm) ▸ hne)
      · rcases hrest.last with hsame | ⟨hflag, pre, m, post, hsplit, hpost, a, hshort, hout⟩
        · rw [hsame]
          refine hlast.imp_right fun h => ⟨h.1, [], k, ks, rfl, ?_, h.2⟩
          exact fun l hl => hframe l (hother l hl)
        · have hm : m ∈ ks := hsplit ▸ List.mem_append_right _ List.mem_cons_self
          refine Or.inr ⟨hflag, k :: pre, m, post, congrArg (List.cons k) hsplit, ?_, a, ?_, hout⟩
          · intro l hl
            have hlks : l ∈ ks := hsplit ▸ List.mem_append_right _ (List.mem_cons_of_mem m hl)
            rw [hpost l hl, hframe l (hother l hlks)]
          · exact hframe m (hother m hm) ▸ hshort

end Shedding
