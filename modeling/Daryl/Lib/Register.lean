import Daryl.Lib.Dict
import Mathlib.Data.List.DropRight
import Mathlib.Data.List.Induction

/-!
# Latest-wins registers

An append-only log of puts and revocations of keys, read through an index of its
newest part.  The index is built when it is first asked for, and every write
drops it.

## Main definitions

* `Event`, `Register` — a record, and a log with its lazy index.
* `build` — the index of a sequence of records.
* `current` — what the log says of a key, without an index: the last record of
  the key decides.
* `Coherent` — an index that is there is the index of the log.
* `Revoked` — the last record of a key revokes it.
* `Shared` — one log, and an index for each of those who read it.
* `Shared.Fresh` — nobody sees a value of a key that is revoked.

## Main results

* `lookup_build` — **the index says what the log says.**
* `lookup_ensure` — and so does the lazy one, as long as it is coherent.
* `current_newest_eq_some_iff` — the newest records have the value of a key as long as
  its last record is among them.
* `Shared.fresh_write_revoke` — **a revocation is seen by everyone exactly when no one
  else holds an index that shows the key.**
-/

/-- A record of the log. -/
inductive Register.Event (K V : Type)
  | put (k : K) (v : V)
  | revoke (k : K)
  deriving DecidableEq

/-- A log and its lazy index: to every key its value and whether it is revoked. -/
structure Register (K V : Type) where
  log : List (Register.Event K V)
  index : Option (List (K × (V × Bool)))

namespace Register

variable {K V : Type} [DecidableEq K]

/-- The key of a record. -/
def Event.key : Event K V → K
  | put k _ => k
  | revoke k => k

/-- The newest records of a log, oldest first. -/
def newest (limit : ℕ) (log : List (Event K V)) : List (Event K V) :=
  log.drop (log.length - limit)

/-- One record enters the index: a put replaces the record before it, a revocation
marks the one that is there.  Records of some keys are passed over. -/
def indexStep (skip : K → Bool) (index : List (K × (V × Bool))) (e : Event K V) :
    List (K × (V × Bool)) :=
  if skip e.key then index
  else
    match e with
    | .put k v => Dict.set k (v, false) index
    | .revoke k =>
      match Dict.get k index with
      | some (v, _) => Dict.set k (v, true) index
      | none => index

/-- The index of a sequence of records. -/
def build (skip : K → Bool) (es : List (Event K V)) : List (K × (V × Bool)) :=
  es.foldl (indexStep skip) []

/-- What a lookup shows of an index record. -/
def visible : Option (V × Bool) → Option V
  | some (v, false) => some v
  | _ => none

@[simp] theorem visible_none : visible (none : Option (V × Bool)) = none := rfl

@[simp] theorem visible_some (v : V) (b : Bool) :
    visible (some (v, b)) = if b then none else some v := by
  cases b <;> rfl

/-- What a sequence of records says of a key: its last record decides. -/
def current (skip : K → Bool) (es : List (Event K V)) (k : K) : Option V :=
  if skip k then none
  else
    match (es.filter fun e => e.key = k).getLast? with
    | some (.put _ v) => some v
    | _ => none

/-- **The index says what the log says.** -/
theorem lookup_build (skip : K → Bool) (es : List (Event K V)) (k : K) :
    visible (Dict.get k (build skip es)) = current skip es k := by
  unfold build current
  induction es using List.reverseRecOn with
  | nil => simp
  | append_singleton es e ih =>
    rw [List.foldl_append, List.filter_append, List.foldl_cons, List.foldl_nil]
    generalize es.foldl (indexStep skip) [] = index at ih ⊢
    unfold indexStep
    by_cases hkey : e.key = k
    · by_cases hskip : skip k = true
      · rw [if_pos (hkey ▸ hskip), ih, if_pos hskip, if_pos hskip]
      · rw [if_neg (hkey ▸ hskip), if_neg hskip]
        cases e with
        | put l v =>
          obtain rfl : l = k := hkey
          simp [Event.key]
        | revoke l =>
          obtain rfl : l = k := hkey
          rcases hget : Dict.get l index with _ | ⟨v, b⟩
          · simp [hget, Event.key]
          · simp [hget, Event.key]
    · -- a record of another key
      have hfilter : ([e].filter fun e => e.key = k) = [] := by simp [hkey]
      rw [hfilter, List.append_nil, ← ih]
      split_ifs
      · rfl
      · cases e with
        | put l v =>
          have hne : l ≠ k := hkey
          simp only [Dict.get_set_ne hne]
        | revoke l =>
          have hne : l ≠ k := hkey
          rcases hget : Dict.get l index with _ | ⟨v, b⟩
          · simp [hget]
          · simp only [hget, Dict.get_set_ne hne]

/-- The register with its index there. -/
def ensure (skip : K → Bool) (limit : ℕ) (r : Register K V) : Register K V :=
  { r with index := some (r.index.getD (build skip (newest limit r.log))) }

/-- The index record of a key. -/
def find (k : K) (r : Register K V) : Option (V × Bool) := Dict.get k (r.index.getD [])

/-- The register after a write. -/
def write (e : Event K V) (r : Register K V) : Register K V := ⟨r.log ++ [e], none⟩

/-- The index, if it is there, is that of the log. -/
def Coherent (skip : K → Bool) (limit : ℕ) (r : Register K V) : Prop :=
  ∀ index, r.index = some index → index = build skip (newest limit r.log)

section

variable {skip : K → Bool} {limit : ℕ} {r : Register K V}

@[simp] theorem log_ensure : (r.ensure skip limit).log = r.log := rfl

omit [DecidableEq K] in
@[simp] theorem log_write (e : Event K V) : (r.write e).log = r.log ++ [e] := rfl

theorem coherent_write (e : Event K V) : (r.write e).Coherent skip limit :=
  fun _ h => absurd h (by simp [write])

theorem Coherent.ensure (h : r.Coherent skip limit) : (r.ensure skip limit).Coherent skip limit := by
  rintro index hindex
  rw [Register.ensure, Option.some.injEq] at hindex
  subst hindex
  cases hr : r.index with
  | none => rfl
  | some old => exact h old hr

/-- **A lookup through the lazy index says what the log says.** -/
theorem lookup_ensure (h : r.Coherent skip limit) (k : K) :
    visible (find k (r.ensure skip limit)) = current skip (newest limit r.log) k := by
  rw [← lookup_build]
  unfold find Register.ensure
  cases hr : r.index with
  | none => rfl
  | some old =>
    obtain rfl := h old hr
    rfl

end

/-! ### The last record of a key -/

/-- The last record of a key. -/
def lastOf (k : K) (log : List (Event K V)) : Option (Event K V) :=
  (log.filter fun e => e.key = k).getLast?

/-- The number of records after the last record of a key. -/
def after (k : K) (log : List (Event K V)) : ℕ :=
  (log.reverse.takeWhile fun e => e.key ≠ k).length

theorem lastOf_append_self {log : List (Event K V)} {e : Event K V} {k : K} (hkey : e.key = k) :
    lastOf k (log ++ [e]) = some e := by
  simp [lastOf, hkey]

theorem lastOf_append_other {log : List (Event K V)} {e : Event K V} {k : K} (hkey : e.key ≠ k) :
    lastOf k (log ++ [e]) = lastOf k log := by
  simp [lastOf, hkey]

theorem after_append_self {log : List (Event K V)} {e : Event K V} {k : K} (hkey : e.key = k) :
    after k (log ++ [e]) = 0 := by
  simp [after, hkey]

theorem after_append_other {log : List (Event K V)} {e : Event K V} {k : K} (hkey : e.key ≠ k) :
    after k (log ++ [e]) = after k log + 1 := by
  simp [after, hkey]

/-- The last record of the key revokes it. -/
def Revoked (log : List (Event K V)) (k : K) : Prop := lastOf k log = some (.revoke k)

instance [DecidableEq V] (log : List (Event K V)) (k : K) : Decidable (Revoked log k) :=
  inferInstanceAs (Decidable (_ = _))

theorem revoked_append_self {log : List (Event K V)} {e : Event K V} {k : K} (hkey : e.key = k) :
    Revoked (log ++ [e]) k ↔ e = .revoke k := by
  rw [Revoked, lastOf_append_self hkey, Option.some.injEq]

theorem revoked_append_other {log : List (Event K V)} {e : Event K V} {k : K} (hkey : e.key ≠ k) :
    Revoked (log ++ [e]) k ↔ Revoked log k := by
  rw [Revoked, lastOf_append_other hkey, Revoked]

/-- **The newest records have the value of the last record of a key, as long as it is
among them.** -/
theorem current_newest_eq_some_iff {skip : K → Bool} {k : K} (hskip : skip k = false) {v : V}
    (limit : ℕ) (log : List (Event K V)) :
    current skip (newest limit log) k = some v ↔
      lastOf k log = some (.put k v) ∧ after k log < limit := by
  induction log using List.reverseRecOn generalizing limit with
  | nil => simp [current, newest, lastOf]
  | append_singleton log e ih =>
    cases limit with
    | zero => simp [current, newest]
    | succ limit =>
      have hnewest : newest (limit + 1) (log ++ [e]) = newest limit log ++ [e] :=
        List.rtake_concat_succ _ _ _
      by_cases hkey : e.key = k
      · rw [hnewest, lastOf_append_self hkey, after_append_self hkey]
        cases e with
        | put l w =>
          obtain rfl : l = k := hkey
          simp [current, hskip, Event.key]
        | revoke l =>
          obtain rfl : l = k := hkey
          simp [current, hskip, Event.key]
      · have hcurrent : current skip (newest limit log ++ [e]) k
            = current skip (newest limit log) k := by
          simp [current, hkey]
        rw [hnewest, hcurrent, ih, lastOf_append_other hkey, after_append_other hkey,
          Nat.add_lt_add_iff_right]

/-- What is revoked has no value. -/
theorem current_newest_of_revoked {skip : K → Bool} {limit : ℕ} {log : List (Event K V)} {k : K}
    (h : Revoked log k) : current skip (newest limit log) k = none := by
  cases hskip : skip k with
  | true => simp [current, hskip]
  | false =>
    refine Option.eq_none_iff_forall_ne_some.mpr fun v hv => ?_
    have hlast := ((current_newest_eq_some_iff hskip limit log).mp hv).1
    rw [h] at hlast
    cases hlast

/-- A revoked key is seen through the index that is there, or not at all. -/
theorem visible_ensure_eq_none {skip : K → Bool} {limit : ℕ} {r : Register K V} {k : K}
    (h : Revoked r.log k) :
    visible (find k (r.ensure skip limit)) = none ↔ visible (find k r) = none := by
  unfold find ensure
  cases hr : r.index with
  | some index => rfl
  | none =>
    have hbuild : visible (Dict.get k (build skip (newest limit r.log))) = none := by
      rw [lookup_build, current_newest_of_revoked h]
    exact iff_of_true hbuild rfl

/-! ### A log that is shared -/

/-- A log, and the lazy index of each of those who read and write it. -/
structure Shared (ι K V : Type) where
  log : List (Event K V)
  index : ι → Option (List (K × (V × Bool)))

namespace Shared

variable {ι : Type} [DecidableEq ι]

/-- The register one of them works on. -/
def view (i : ι) (s : Shared ι K V) : Register K V := ⟨s.log, s.index i⟩

/-- What one of them leaves. -/
def put (i : ι) (r : Register K V) (s : Shared ι K V) : Shared ι K V :=
  ⟨r.log, Function.update s.index i r.index⟩

/-- **Nobody sees a value of a key that is revoked.** -/
def Fresh (skip : K → Bool) (limit : ℕ) (s : Shared ι K V) : Prop :=
  ∀ k, Revoked s.log k → ∀ i, visible (find k ((s.view i).ensure skip limit)) = none

section

variable {skip : K → Bool} {limit : ℕ} {s : Shared ι K V} {i : ι}

omit [DecidableEq K] in
@[simp] theorem log_put (r : Register K V) : (s.put i r).log = r.log := rfl

omit [DecidableEq K] in
@[simp] theorem view_put_self (r : Register K V) : (s.put i r).view i = r := by
  simp [view, put]

omit [DecidableEq K] in
theorem view_put_ne {j : ι} (h : j ≠ i) (r : Register K V) :
    (s.put i r).view j = ⟨r.log, s.index j⟩ := by
  simp [view, put, h]

omit [DecidableEq K] in
@[simp] theorem put_view : s.put i (s.view i) = s := by
  simp [view, put]

omit [DecidableEq ι] in
theorem fresh_iff :
    s.Fresh skip limit ↔ ∀ k, Revoked s.log k → ∀ i, visible (find k (s.view i)) = none :=
  forall_congr' fun _ => forall_congr' fun h => forall_congr' fun _ =>
    visible_ensure_eq_none (r := s.view _) h

/-- Building an index shows nothing that is revoked. -/
theorem fresh_ensure : (s.put i ((s.view i).ensure skip limit)).Fresh skip limit ↔
    s.Fresh skip limit := by
  rw [fresh_iff, fresh_iff]
  refine forall_congr' fun k => forall_congr' fun h => forall_congr' fun j => ?_
  by_cases hj : j = i
  · subst hj
    rw [view_put_self, visible_ensure_eq_none (r := s.view j) h]
  · rw [view_put_ne hj]
    rfl

/-- A put of a key leaves the others as they were. -/
theorem fresh_write_put (k : K) (v : V) (h : s.Fresh skip limit) :
    (s.put i ((s.view i).write (.put k v))).Fresh skip limit := by
  rw [fresh_iff] at h ⊢
  intro l hl j
  rw [log_put, log_write] at hl
  have hkey : (Event.put k v).key ≠ l := by
    rintro rfl
    exact absurd ((revoked_append_self rfl).mp hl) (by simp [Event.key])
  by_cases hj : j = i
  · subst hj
    rw [view_put_self]
    rfl
  · rw [view_put_ne hj]
    exact h l ((revoked_append_other hkey).mp hl) j

/-- **A revocation is seen by everyone exactly when no one else holds an index that
shows the key.** -/
theorem fresh_write_revoke (k : K) (h : s.Fresh skip limit) :
    (s.put i ((s.view i).write (.revoke k))).Fresh skip limit ↔
      ∀ j, j ≠ i → visible (find k (s.view j)) = none := by
  rw [fresh_iff] at h ⊢
  constructor
  · intro hfresh j hj
    have := hfresh k ((revoked_append_self rfl).mpr rfl) j
    rwa [view_put_ne hj] at this
  · intro hothers l hl j
    rw [log_put, log_write] at hl
    by_cases hj : j = i
    · subst hj
      rw [view_put_self]
      rfl
    · rw [view_put_ne hj]
      by_cases hkey : k = l
      · exact hkey ▸ hothers j hj
      · exact h l ((revoked_append_other (show (Event.revoke k : Event K V).key ≠ l from hkey)).mp hl) j

end

end Shared

end Register
