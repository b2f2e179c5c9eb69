import Mathlib.Data.List.Forall2

/-!
# Lists related one by one

Two lists are often related element by element: records and the lines they are
written as, entries before and after a change.  What is needed of
`List.Forall₂` beyond Mathlib: partners of members, and the two last elements.

## Main results

* `exists_of_mem_left`, `exists_of_mem_right` — every member has its partner.
* `with_mem` — partners are members.
* `exists_append`, `exists_split` — where one list is cut the other is cut alike.
* `getLast?_cases` — the last elements are partners.
* `of_mapM_ok` — what a computation makes of a list, it makes one by one.
-/

namespace Pointwise

variable {α β : Type*} {R : α → β → Prop} {as : List α} {bs : List β}

theorem exists_of_mem_left (h : List.Forall₂ R as bs) {a : α} (ha : a ∈ as) :
    ∃ b ∈ bs, R a b := by
  induction h with
  | nil => simp at ha
  | @cons a' b as bs hab _ ih =>
    rcases List.mem_cons.mp ha with rfl | ha
    · exact ⟨b, List.mem_cons_self, hab⟩
    · obtain ⟨x, hx, hax⟩ := ih ha
      exact ⟨x, List.mem_cons_of_mem _ hx, hax⟩

theorem exists_of_mem_right (h : List.Forall₂ R as bs) {b : β} (hb : b ∈ bs) :
    ∃ a ∈ as, R a b := by
  obtain ⟨a, ha, hab⟩ := exists_of_mem_left (R := flip R) h.flip hb
  exact ⟨a, ha, hab⟩

/-- Partners are members. -/
theorem with_mem (h : List.Forall₂ R as bs) :
    List.Forall₂ (fun a b => a ∈ as ∧ b ∈ bs ∧ R a b) as bs := by
  have hleft := (List.forall₂_and_left as bs).mpr ⟨fun a ha => ha, h⟩
  have hboth := (List.forall₂_and_left bs as).mpr ⟨fun b hb => hb, hleft.flip⟩
  exact hboth.flip.imp fun a b ⟨hb, ha, hab⟩ => ⟨ha, hb, hab⟩

/-- Where one list is cut, the other is cut alike. -/
theorem exists_append {as' : List α} (h : List.Forall₂ R (as ++ as') bs) :
    ∃ bs₁ bs₂, bs = bs₁ ++ bs₂ ∧ List.Forall₂ R as bs₁ ∧ List.Forall₂ R as' bs₂ := by
  induction as generalizing bs with
  | nil => exact ⟨[], bs, rfl, List.Forall₂.nil, h⟩
  | cons x as ih =>
    obtain ⟨y, ys, hxy, hrest, rfl⟩ := List.forall₂_cons_left_iff.mp h
    obtain ⟨bs₁, bs₂, rfl, h₁, h₂⟩ := ih hrest
    exact ⟨y :: bs₁, bs₂, rfl, List.Forall₂.cons hxy h₁, h₂⟩

/-- Around a member of one list the other splits alike. -/
theorem exists_split {a : α} {as' : List α} (h : List.Forall₂ R (as ++ a :: as') bs) :
    ∃ bs₁ b bs₂, bs = bs₁ ++ b :: bs₂ ∧ List.Forall₂ R as bs₁ ∧ R a b ∧
      List.Forall₂ R as' bs₂ := by
  obtain ⟨bs₁, rest, rfl, h₁, hrest⟩ := exists_append h
  obtain ⟨b, bs₂, hab, h₂, rfl⟩ := List.forall₂_cons_left_iff.mp hrest
  exact ⟨bs₁, b, bs₂, rfl, h₁, hab, h₂⟩

/-- Both lists are empty, or their last elements are partners. -/
theorem getLast?_cases (h : List.Forall₂ R as bs) :
    as = [] ∧ bs = [] ∨
      ∃ a b, as.getLast? = some a ∧ bs.getLast? = some b ∧ R a b := by
  have hrev := List.forall₂_reverse_iff.mpr h
  cases has : as.reverse with
  | nil =>
    rw [has, List.forall₂_nil_left_iff, List.reverse_eq_nil_iff] at hrev
    exact .inl ⟨List.reverse_eq_nil_iff.mp has, hrev⟩
  | cons a as' =>
    rw [has, List.forall₂_cons_left_iff] at hrev
    obtain ⟨b, bs', hab, -, hbs⟩ := hrev
    refine .inr ⟨a, b, ?_, ?_, hab⟩
    · rw [List.getLast?_eq_head?_reverse, has, List.head?_cons]
    · rw [List.getLast?_eq_head?_reverse, hbs, List.head?_cons]

/-- A computation that succeeds on a list does so on every element. -/
theorem of_mapM_ok {ε : Type*} {f : α → Except ε β} (h : as.mapM f = .ok bs) :
    List.Forall₂ (fun a b => f a = .ok b) as bs := by
  induction as generalizing bs with
  | nil =>
    rw [List.mapM_nil] at h
    cases h
    exact List.Forall₂.nil
  | cons a as ih =>
    rw [List.mapM_cons] at h
    cases ha : f a with
    | error e =>
      rw [ha] at h
      cases h
    | ok b =>
      cases has : as.mapM f with
      | error e =>
        rw [ha, has] at h
        cases h
      | ok bs' =>
        rw [ha, has] at h
        cases h
        exact List.Forall₂.cons ha (ih has)

/-- A computation that succeeds on every element does so on the list. -/
theorem exists_mapM_ok {ε : Type*} {f : α → Except ε β} (h : ∀ a ∈ as, ∃ b, f a = .ok b) :
    ∃ bs, as.mapM f = .ok bs := by
  induction as with
  | nil => exact ⟨[], rfl⟩
  | cons a as ih =>
    obtain ⟨b, hb⟩ := h a List.mem_cons_self
    obtain ⟨bs, hbs⟩ := ih fun x hx => h x (List.mem_cons_of_mem a hx)
    refine ⟨b :: bs, ?_⟩
    rw [List.mapM_cons, hb, hbs]
    rfl

end Pointwise
