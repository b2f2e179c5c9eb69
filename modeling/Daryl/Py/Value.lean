import Daryl.Py.Str
import Mathlib.Algebra.Order.Field.Rat
import Mathlib.Data.Prod.Lex

/-!
# Python values

The values `json.dumps` accepts: `None`, booleans, integers, floats, strings,
lists, tuples and dicts, the keys of a dict being strings, numbers, booleans or
`None`.  A value that came out of `json.loads` has string keys and no tuple;
`form` is what a value becomes on that way.

Floating point enters through a parameter, `PyFloat`: a type of finite floats
with the decimal literal `repr` writes, the reading of a literal, and the one
documented law between them.

## Main definitions

* `FloatLit`, `PyFloat` — float literals and the floats.
* `Key`, `PyVal` — dict keys and values.
* `dictGet`, `dictSet`, `dictOf` — lookup, assignment, and a dict from pairs.
* `sortDicts` — the key order of `sort_keys=True`; `none` is the `TypeError` of
  keys that do not compare.
* `form` — the value read back from the JSON text of a value.
* `stable` — sorting the keys and sorting their texts agree.
* `canon` — the canonical representative of a value: sorted, and read back.
-/

namespace Py

/-! ### Floats -/

/-- The exponent part of a float literal. -/
structure ExpLit where
  /-- `E` rather than `e`. -/
  upper : Bool
  /-- `some true` for `-`, `some false` for `+`. -/
  sign : Option Bool
  digit : Fin 10
  digits : List (Fin 10)
  deriving DecidableEq

/-- What makes a number literal a float: a fraction, an exponent, or both. -/
inductive FloatTail
  | frac (d : Fin 10) (ds : List (Fin 10)) (exp : Option ExpLit)
  | exp (e : ExpLit)
  deriving DecidableEq

/-- A JSON number with a fraction or an exponent, as it is written. -/
structure FloatLit where
  neg : Bool
  int : ℕ
  tail : FloatTail
  deriving DecidableEq

/-- A float: `nan`, an infinity or a finite float. -/
inductive FloatVal (F : Type)
  | nan
  | inf (neg : Bool)
  | finite (x : F)
  deriving DecidableEq

/-- The finite floats.  `repr` is `float.__repr__`, `ofLit` is `float(text)`,
which may overflow to an infinity, and the law is the documented one: a float
reads back from its `repr`. -/
class PyFloat (F : Type) where
  repr : F → FloatLit
  ofLit : FloatLit → FloatVal F
  val : F → ℚ
  ofLit_repr : ∀ x, ofLit (repr x) = .finite x

/-- The number of an exponent. -/
def ExpLit.value (e : ExpLit) : ℤ :=
  (if e.sign = some true then -1 else 1) * (natOfDigits (e.digit :: e.digits) : ℤ)

/-- The number of a fraction and exponent, in front of which `n` stands. -/
def FloatTail.value (n : ℕ) : FloatTail → ℚ
  | .frac d ds e =>
    ((n : ℚ) + (natOfDigits (d :: ds) : ℚ) / 10 ^ (ds.length + 1)) *
      10 ^ ((e.map ExpLit.value).getD 0)
  | .exp e => (n : ℚ) * 10 ^ e.value

/-- The number of a literal. -/
def FloatLit.value (l : FloatLit) : ℚ := (if l.neg then -1 else 1) * l.tail.value l.int

/-- Literals as floats: every literal is exact, and prints as it is written. -/
instance : PyFloat FloatLit where
  repr := id
  ofLit := .finite
  val := FloatLit.value
  ofLit_repr _ := rfl

/-! ### Values -/

/-- A dict key `json.dumps` accepts.  A `nan` key is left out: it does not
compare with other keys. -/
inductive Key (F : Type)
  | str (s : PyStr)
  | int (n : ℤ)
  | bool (b : Bool)
  | none
  | float (x : F)
  | inf (neg : Bool)
  deriving DecidableEq

/-- A Python value `json.dumps` accepts.  A dict is the list of its items in
insertion order. -/
inductive PyVal (F : Type)
  | none
  | bool (b : Bool)
  | int (n : ℤ)
  | float (x : FloatVal F)
  | str (s : PyStr)
  | list (vs : List (PyVal F))
  | tuple (vs : List (PyVal F))
  | dict (kvs : List (Key F × PyVal F))

instance {F : Type} : Inhabited (PyVal F) := ⟨.none⟩

section DecEq

variable {F : Type} [DecidableEq F]

mutual

/-- Structural equality of values. -/
def PyVal.beq : PyVal F → PyVal F → Bool
  | .none, .none => true
  | .bool a, .bool b => a == b
  | .int a, .int b => a == b
  | .float a, .float b => a == b
  | .str a, .str b => a == b
  | .list a, .list b => beqList a b
  | .tuple a, .tuple b => beqList a b
  | .dict a, .dict b => beqItems a b
  | _, _ => false

/-- Structural equality of lists of values. -/
def beqList : List (PyVal F) → List (PyVal F) → Bool
  | [], [] => true
  | a :: as, b :: bs => a.beq b && beqList as bs
  | _, _ => false

/-- Structural equality of dict items. -/
def beqItems : List (Key F × PyVal F) → List (Key F × PyVal F) → Bool
  | [], [] => true
  | (k, a) :: as, (l, b) :: bs => k == l && a.beq b && beqItems as bs
  | _, _ => false

end

mutual

theorem PyVal.beq_iff : ∀ a b : PyVal F, a.beq b = true ↔ a = b
  | .none, b => by cases b <;> simp [PyVal.beq]
  | .bool _, b => by cases b <;> simp [PyVal.beq]
  | .int _, b => by cases b <;> simp [PyVal.beq]
  | .float _, b => by cases b <;> simp [PyVal.beq]
  | .str _, b => by cases b <;> simp [PyVal.beq]
  | .list vs, b => by cases b <;> simp [PyVal.beq, beqList_iff vs]
  | .tuple vs, b => by cases b <;> simp [PyVal.beq, beqList_iff vs]
  | .dict kvs, b => by cases b <;> simp [PyVal.beq, beqItems_iff kvs]

theorem beqList_iff : ∀ a b : List (PyVal F), beqList a b = true ↔ a = b
  | [], b => by cases b <;> simp [beqList]
  | a :: as, b => by cases b <;> simp [beqList, PyVal.beq_iff a, beqList_iff as]

theorem beqItems_iff : ∀ a b : List (Key F × PyVal F), beqItems a b = true ↔ a = b
  | [], b => by cases b <;> simp [beqItems]
  | (k, a) :: as, b => by
    cases b <;> simp [beqItems, Prod.ext_iff, PyVal.beq_iff a, beqItems_iff as]

end

instance : DecidableEq (PyVal F) := fun a b => decidable_of_iff _ (PyVal.beq_iff a b)

end DecEq

section Literals

variable {F : Type} [PyFloat F]

/-- `bool(v)`. -/
def PyVal.truthy : PyVal F → Bool
  | .none => false
  | .bool b => b
  | .int n => n != 0
  | .float (.finite x) => PyFloat.val x != 0
  | .float _ => true
  | .str s => !s.isEmpty
  | .list vs => !vs.isEmpty
  | .tuple vs => !vs.isEmpty
  | .dict kvs => !kvs.isEmpty

/-- `v or w`. -/
def pyOr (v w : PyVal F) : PyVal F := if v.truthy then v else w

/-- `v or {}`. -/
def PyVal.orEmpty (v : PyVal F) : PyVal F := if v.truthy then v else .dict []

/-- `v or ""`. -/
def PyVal.orText (v : PyVal F) : PyVal F := if v.truthy then v else .str []

/-! ### Literals -/

/-- The text of the sign of an exponent. -/
def signText : Option Bool → PyStr
  | some true => py "-"
  | some false => py "+"
  | .none => []

/-- The text of an exponent. -/
def ExpLit.text (e : ExpLit) : PyStr :=
  (if e.upper then py "E" else py "e") ++ signText e.sign ++ (e.digit :: e.digits).map digitChar

/-- The text of an optional exponent. -/
def expText : Option ExpLit → PyStr
  | some e => e.text
  | .none => []

/-- The text of a fraction and exponent. -/
def FloatTail.text : FloatTail → PyStr
  | .frac d ds e => py "." ++ (d :: ds).map digitChar ++ expText e
  | .exp e => e.text

/-- The text of a float literal. -/
def FloatLit.text (l : FloatLit) : PyStr :=
  (if l.neg then py "-" else []) ++ natStr l.int ++ l.tail.text

/-- The text `json.dumps` writes for an infinity. -/
def infText (neg : Bool) : PyStr := if neg then py "-Infinity" else py "Infinity"

/-- The text `json.dumps` gives a boolean. -/
def boolText (b : Bool) : PyStr := if b then py "true" else py "false"

/-- The string `json.dumps` makes of a dict key. -/
def Key.text : Key F → PyStr
  | .str s => s
  | .int n => intStr n
  | .bool b => boolText b
  | .none => py "null"
  | .float x => (PyFloat.repr x).text
  | .inf neg => infText neg

end Literals

/-! ### Dicts -/

section Dict

variable {F V : Type}

/-- `d.get(k)` for a string key. -/
def dictGet (k : PyStr) : List (Key F × V) → Option V
  | [] => none
  | (.str l, v) :: kvs => if l = k then some v else dictGet k kvs
  | _ :: kvs => dictGet k kvs

theorem mem_of_dictGet {k : PyStr} {v : V} : ∀ {m : List (Key F × V)}, dictGet k m = some v →
    (.str k, v) ∈ m
  | [], h => by simp [dictGet] at h
  | (.str l, w) :: kvs, h => by
    rw [dictGet] at h
    split_ifs at h with hl
    · rw [Option.some.injEq] at h
      exact hl ▸ h ▸ List.mem_cons_self
    · exact List.mem_cons_of_mem _ (mem_of_dictGet h)
  | (.int _, _) :: kvs, h | (.bool _, _) :: kvs, h | (.none, _) :: kvs, h | (.float _, _) :: kvs, h
  | (.inf _, _) :: kvs, h => List.mem_cons_of_mem _ (mem_of_dictGet (m := kvs) h)

/-- `d[k] = v`: the value is replaced in place, a new key goes last. -/
def dictSet (k : PyStr) (v : V) : List (Key F × V) → List (Key F × V)
  | [] => [(.str k, v)]
  | (.str l, w) :: kvs => if l = k then (.str l, v) :: kvs else (.str l, w) :: dictSet k v kvs
  | kv :: kvs => kv :: dictSet k v kvs

/-- The dict of a sequence of pairs: a later pair of a key wins, in the place of
the first. -/
def dictOf (ps : List (PyStr × V)) : List (Key F × V) :=
  ps.foldl (fun d p => dictSet p.1 p.2 d) []

/-- The pairs as items, for pairs with distinct keys. -/
def strItems (ps : List (PyStr × V)) : List (Key F × V) := ps.map fun p => (.str p.1, p.2)

theorem dictSet_strItems {k : PyStr} (v : V) {ps : List (PyStr × V)}
    (h : k ∉ ps.map Prod.fst) :
    dictSet k v (strItems ps : List (Key F × V)) = strItems (ps ++ [(k, v)]) := by
  induction ps with
  | nil => rfl
  | cons p ps ih =>
    simp only [List.map_cons, List.mem_cons, not_or] at h
    have hp : p.1 ≠ k := fun e => h.1 e.symm
    simp only [strItems, List.map_cons, List.cons_append, dictSet, if_neg hp] at ih ⊢
    rw [ih h.2]

/-- Pairs with distinct keys are their own dict. -/
theorem dictOf_eq_strItems {ps : List (PyStr × V)} (h : (ps.map Prod.fst).Nodup) :
    (dictOf ps : List (Key F × V)) = strItems ps := by
  suffices H : ∀ qs : List (PyStr × V), ((qs ++ ps).map Prod.fst).Nodup →
      ps.foldl (fun d p => dictSet p.1 p.2 d) (strItems qs : List (Key F × V))
        = strItems (qs ++ ps) from H [] h
  clear h
  induction ps with
  | nil => intro qs _; simp
  | cons p ps ih =>
    intro qs h
    have hp : p.1 ∉ qs.map Prod.fst := by
      rw [List.map_append, List.map_cons, List.nodup_append] at h
      exact fun hq => h.2.2 _ hq _ List.mem_cons_self rfl
    have h' : ((qs ++ [p] ++ ps).map Prod.fst).Nodup := by simpa using h
    rw [List.foldl_cons, dictSet_strItems _ hp, ih _ h']
    simp

theorem mem_dictSet {k : PyStr} {v : V} {kv : Key F × V} :
    ∀ {kvs : List (Key F × V)}, kv ∈ dictSet k v kvs → kv = (.str k, v) ∨ kv ∈ kvs
  | [], h => by simpa [dictSet] using h
  | (l, w) :: kvs, h => by
    have rest : ∀ {l : Key F}, kv ∈ (l, w) :: dictSet k v kvs →
        kv = (.str k, v) ∨ kv ∈ (l, w) :: kvs := by
      intro l h
      rcases List.mem_cons.mp h with rfl | h
      · exact .inr List.mem_cons_self
      · exact (mem_dictSet h).imp_right (List.mem_cons_of_mem _)
    cases l with
    | str l =>
      rw [dictSet] at h
      split_ifs at h with hl
      · rcases List.mem_cons.mp h with rfl | h
        · exact .inl (by rw [hl])
        · exact .inr (List.mem_cons_of_mem _ h)
      · exact rest h
    | _ => exact rest h

theorem mem_dictOf {ps : List (PyStr × V)} {kv : Key F × V}
    (h : kv ∈ (dictOf ps : List (Key F × V))) : ∃ p ∈ ps, kv = (.str p.1, p.2) := by
  suffices H : ∀ (d : List (Key F × V)), kv ∈ ps.foldl (fun d p => dictSet p.1 p.2 d) d →
      (∃ p ∈ ps, kv = (.str p.1, p.2)) ∨ kv ∈ d by
    rcases H [] h with h | h
    · exact h
    · exact absurd h (by simp)
  clear h
  induction ps with
  | nil => exact fun d h => .inr h
  | cons p ps ih =>
    intro d h
    rcases ih _ h with ⟨p', hp', rfl⟩ | h
    · exact .inl ⟨p', List.mem_cons_of_mem _ hp', rfl⟩
    · rcases mem_dictSet h with rfl | h
      · exact .inl ⟨p, List.mem_cons_self, rfl⟩
      · exact .inr h

/-- A key that is there is set in place. -/
theorem exists_dictSet_strItems {k : PyStr} (v : V) {ps : List (PyStr × V)}
    (h : k ∈ ps.map Prod.fst) : ∃ qs : List (PyStr × V),
      dictSet k v (strItems ps : List (Key F × V)) = strItems qs ∧
        qs.map Prod.fst = ps.map Prod.fst := by
  induction ps with
  | nil => simp at h
  | cons p ps ih =>
    rw [strItems, List.map_cons, dictSet]
    by_cases hp : p.1 = k
    · exact ⟨(p.1, v) :: ps, by rw [if_pos hp]; rfl, rfl⟩
    · rw [List.map_cons] at h
      obtain ⟨qs, hqs, hkeys⟩ := ih ((List.mem_cons.mp h).resolve_left fun e => hp e.symm)
      refine ⟨p :: qs, ?_, by rw [List.map_cons, List.map_cons, hkeys]⟩
      rw [if_neg hp, ← strItems, hqs]
      rfl

/-- **The dict of a sequence of pairs has each key once.** -/
theorem exists_dictOf (ps : List (PyStr × V)) : ∃ qs : List (PyStr × V),
    (dictOf ps : List (Key F × V)) = strItems qs ∧ (qs.map Prod.fst).Nodup := by
  induction ps using List.reverseRecOn with
  | nil => exact ⟨[], rfl, List.nodup_nil⟩
  | append_singleton ps p ih =>
    obtain ⟨qs, hqs, hnodup⟩ := ih
    have hstep : (dictOf (ps ++ [p]) : List (Key F × V)) = dictSet p.1 p.2 (strItems qs) := by
      rw [← hqs, dictOf, List.foldl_append]
      rfl
    rw [hstep]
    by_cases hp : p.1 ∈ qs.map Prod.fst
    · obtain ⟨rs, hrs, hkeys⟩ := exists_dictSet_strItems (F := F) p.2 hp
      exact ⟨rs, hrs, hkeys ▸ hnodup⟩
    · refine ⟨qs ++ [(p.1, p.2)], dictSet_strItems _ hp, ?_⟩
      rw [List.map_append]
      exact List.nodup_append.mpr ⟨hnodup, List.nodup_singleton _, fun a ha b hb => by
        rw [List.map_singleton, List.mem_singleton] at hb
        exact fun hab => hp (hb ▸ hab ▸ ha)⟩

end Dict

/-! ### The key order of `sort_keys` -/

section SortItems

variable {F V : Type} [PyFloat F]

/-- The string of a string key. -/
def Key.str? : Key F → Option PyStr
  | .str s => some s
  | _ => Option.none

/-- Where a numeric key stands among numbers; the infinities are the ends. -/
def Key.num? : Key F → Option (ℤ ×ₗ ℚ)
  | .int n => some (toLex (0, (n : ℚ)))
  | .bool b => some (toLex (0, if b then 1 else 0))
  | .float x => some (toLex (0, PyFloat.val x))
  | .inf neg => some (toLex (if neg then -1 else 1, 0))
  | _ => Option.none

/-- `sorted(d.items())`: a dict of one item is not compared, string keys compare
as strings, numeric keys as numbers, and anything else is a `TypeError`. -/
def sortItems (kvs : List (Key F × V)) : Option (List (Key F × V)) :=
  if kvs.length ≤ 1 then some kvs
  else if kvs.all (fun kv => kv.1.str?.isSome) then
    some (kvs.insertionSort fun a b => a.1.str?.getD [] ≤ b.1.str?.getD [])
  else if kvs.all (fun kv => kv.1.num?.isSome) then
    some (kvs.insertionSort fun a b =>
      a.1.num?.getD (toLex (0, 0)) ≤ b.1.num?.getD (toLex (0, 0)))
  else none

theorem perm_of_sortItems {kvs kvs' : List (Key F × V)} (h : sortItems kvs = some kvs') :
    kvs'.Perm kvs := by
  unfold sortItems at h
  split_ifs at h
  all_goals
    simp only [Option.some.injEq] at h
    subst h
  · exact List.Perm.refl _
  · exact List.perm_insertionSort _ _
  · exact List.perm_insertionSort _ _

/-- Items with strictly increasing string keys are in order already. -/
theorem sortItems_strItems {ps : List (PyStr × V)}
    (h : (ps.map Prod.fst).Pairwise (· < ·)) :
    sortItems (strItems ps : List (Key F × V)) = some (strItems ps) := by
  have hall : (strItems ps : List (Key F × V)).all (fun kv => kv.1.str?.isSome) = true := by
    simp [strItems, Key.str?]
  unfold sortItems
  rw [if_pos hall]
  split_ifs
  · rfl
  · congr 1
    refine List.Pairwise.insertionSort_eq ?_
    rw [strItems, List.pairwise_map]
    exact (List.pairwise_map.mp h).imp fun hab => le_of_lt hab

/-- Sorting string keys does not depend on the order they came in. -/
theorem sortItems_perm {ps qs : List (PyStr × V)} (hperm : qs.Perm ps)
    (h : (qs.map Prod.fst).Pairwise (· < ·)) :
    sortItems (strItems ps : List (Key F × V)) = some (strItems qs) := by
  have hall : (strItems ps : List (Key F × V)).all (fun kv => kv.1.str?.isSome) = true := by
    simp [strItems, Key.str?]
  obtain ⟨out, hout⟩ : ∃ out, sortItems (strItems ps : List (Key F × V)) = some out := by
    unfold sortItems
    rw [if_pos hall]
    split_ifs <;> exact ⟨_, rfl⟩
  rw [hout]
  have hperm' : out.Perm (strItems qs) :=
    (perm_of_sortItems hout).trans (hperm.symm.map _)
  have hqs : (strItems qs : List (Key F × V)).Pairwise
      fun a b => a.1.str?.getD [] < b.1.str?.getD [] := by
    rw [strItems, List.pairwise_map]
    exact List.pairwise_map.mp h
  have hout' : out.Pairwise fun a b => a.1.str?.getD [] < b.1.str?.getD [] := by
    -- the keys are distinct, so the weakly sorted output is strictly sorted
    have hnodup : (out.map fun a => a.1.str?.getD []).Nodup := by
      rw [(hperm'.map _).nodup_iff]
      exact List.Pairwise.imp (fun hab => ne_of_lt hab) (List.pairwise_map.mpr hqs)
    have hle : out.Pairwise fun a b => a.1.str?.getD [] ≤ b.1.str?.getD [] := by
      unfold sortItems at hout
      rw [if_pos hall] at hout
      split_ifs at hout with hlen
      · simp only [Option.some.injEq] at hout
        subst hout
        obtain _ | ⟨a, _ | ⟨b, l⟩⟩ := ps
        · exact List.Pairwise.nil
        · exact List.pairwise_singleton _ _
        · simp [strItems] at hlen
      · simp only [Option.some.injEq] at hout
        subst hout
        have : IsTrans (Key F × V) fun a b => a.1.str?.getD [] ≤ b.1.str?.getD [] :=
          ⟨fun _ _ _ => le_trans⟩
        have : Std.Total fun a b : Key F × V => a.1.str?.getD [] ≤ b.1.str?.getD [] :=
          ⟨fun _ _ => le_total _ _⟩
        exact List.pairwise_insertionSort _ _
    have hboth := List.pairwise_map.mp hnodup
    exact (hle.and hboth).imp fun hab => lt_of_le_of_ne hab.1 hab.2
  congr 1
  exact List.Perm.eq_of_pairwise
    (fun a b _ _ hab hba => absurd (lt_trans hab hba) (lt_irrefl _)) hout' hqs hperm'

/-- String keys that differ are put in order. -/
theorem exists_sortItems_strItems {ps : List (PyStr × V)} (h : (ps.map Prod.fst).Nodup) :
    ∃ qs : List (PyStr × V), qs.Perm ps ∧ (qs.map Prod.fst).Pairwise (· < ·) ∧
      sortItems (strItems ps : List (Key F × V)) = some (strItems qs) := by
  have : IsTrans (PyStr × V) fun a b => a.1 ≤ b.1 := ⟨fun _ _ _ => le_trans⟩
  have : Std.Total fun a b : PyStr × V => a.1 ≤ b.1 := ⟨fun _ _ => le_total _ _⟩
  have hperm := List.perm_insertionSort (fun a b : PyStr × V => a.1 ≤ b.1) ps
  have hle := List.pairwise_insertionSort (fun a b : PyStr × V => a.1 ≤ b.1) ps
  have hnodup := List.pairwise_map.mp ((hperm.map Prod.fst).nodup_iff.mpr h)
  have hlt := List.pairwise_map.mpr ((hle.and hnodup).imp fun hab => lt_of_le_of_ne hab.1 hab.2)
  exact ⟨_, hperm, hlt, sortItems_perm hperm hlt⟩

end SortItems

variable {F : Type} [PyFloat F]

mutual

/-- The value with the items of every dict in the order `sort_keys=True` writes
them; `none` is the `TypeError` of keys that do not compare. -/
def sortDicts : PyVal F → Option (PyVal F)
  | .list vs => (sortDictsList vs).map .list
  | .tuple vs => (sortDictsList vs).map .tuple
  | .dict kvs => (sortDictsItems kvs).bind fun kvs' => (sortItems kvs').map .dict
  | v => some v

/-- `sortDicts` on the elements of a list. -/
def sortDictsList : List (PyVal F) → Option (List (PyVal F))
  | [] => some []
  | v :: vs => (sortDicts v).bind fun v' => (sortDictsList vs).map (v' :: ·)

/-- `sortDicts` on the values of a dict. -/
def sortDictsItems : List (Key F × PyVal F) → Option (List (Key F × PyVal F))
  | [] => some []
  | (k, v) :: kvs => (sortDicts v).bind fun v' => (sortDictsItems kvs).map ((k, v') :: ·)

end

/-! ### The value read back -/

mutual

/-- The value read back from the JSON text of a value: keys are strings, tuples
are lists, and of two keys with one text the later wins. -/
def form : PyVal F → PyVal F
  | .list vs => .list (formList vs)
  | .tuple vs => .list (formList vs)
  | .dict kvs => .dict (dictOf (formItems kvs))
  | v => v

/-- `form` on the elements of a list. -/
def formList : List (PyVal F) → List (PyVal F)
  | [] => []
  | v :: vs => form v :: formList vs

/-- The pairs read back from the items of a dict. -/
def formItems : List (Key F × PyVal F) → List (PyStr × PyVal F)
  | [] => []
  | (k, v) :: kvs => (k.text, form v) :: formItems kvs

end

/-- The canonical representative of a value: keys sorted, then read back. -/
def canon (v : PyVal F) : Option (PyVal F) := (sortDicts v).map form

mutual

/-- In every dict of the value the keys, put in `sort_keys` order and written as
strings, are strictly increasing: sorting the keys and sorting their texts
agree, and no two keys share a text. -/
def stable : PyVal F → Bool
  | .list vs => stableList vs
  | .tuple vs => stableList vs
  | .dict kvs =>
    stableItems kvs &&
      match sortItems kvs with
      | some s => decide ((s.map fun kv => kv.1.text).Pairwise (· < ·))
      | Option.none => false
  | _ => true

/-- `stable` on the elements of a list. -/
def stableList : List (PyVal F) → Bool
  | [] => true
  | v :: vs => stable v && stableList vs

/-- `stable` on the values of a dict. -/
def stableItems : List (Key F × PyVal F) → Bool
  | [] => true
  | (_, v) :: kvs => stable v && stableItems kvs

end

end Py
