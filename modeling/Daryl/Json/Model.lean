import Daryl.Json.Text

/-!
# Validated records and their JSON

A library of records is used like this: a record is dumped field by field, the fields
that are `None` left out, and read back from the JSON of the dump by a reader for each
field, a default standing for a field that is missing.  What the library reads a value
as is a parameter, of which only the values a dump holds are known.

A dict that a record holds as data has no order: two dicts with the same items are equal.

## Main definitions

* `JsonObject` — the dicts of JSON values, whatever the order of their keys.
* `Reader` — what the library reads values as.
* `Codec` — a type with its dump and its reader, and the law between them.
* `Field`, `Fields` — a field that may be left out, and the fields of a record.

## Main results

* `Codec.tuple`, `Codec.literal`, `Codec.refine` — codecs from codecs.
* `Fields.codec` — **a record reads back when its fields do.**
* `Codec.loads_dumps` — **what is parsed of the text of a dump reads as the value dumped.**
-/

namespace Model

open Py Json

variable {F : Type} [PyFloat F] {α β : Type}

/-! ### Dicts of JSON values -/

/-- A dict of JSON values in the order of its items.  A JSON value has string keys, each
once, and no tuple, and in no string of it are two surrogates a pair. -/
structure RawObject (F : Type) [PyFloat F] where
  items : List (PyStr × PyVal F)
  keys : (items.map Prod.fst).Nodup
  encodable : ∀ p ∈ items, Encodable p.1
  values : ∀ p ∈ items, form p.2 = p.2 ∧ eachStr Joined p.2

namespace RawObject

/-- The dict. -/
def val (o : RawObject F) : PyVal F := .dict (strItems o.items)

theorem form_val (o : RawObject F) : form o.val = o.val := by
  have hitems : (o.items.map fun p => (p.1, form p.2)) = o.items := by
    conv_rhs => rw [← List.map_id o.items]
    exact List.map_congr_left fun p hp => by rw [(o.values p hp).1, id]
  rw [val, form_strItems o.keys, hitems]

theorem stable_val (o : RawObject F) : stable o.val = true := o.form_val ▸ stable_form o.val

theorem joined_val (o : RawObject F) : eachStr Joined o.val := by
  refine eachStrItems_iff.mpr fun kv hkv => ?_
  obtain ⟨p, hp, rfl⟩ := List.mem_map.mp hkv
  exact ⟨joined_of_encodable (o.encodable p hp), (o.values p hp).2⟩

/-- Dicts that differ in the order of keys alone. -/
instance setoid : Setoid (RawObject F) where
  r a b := readBack a.val = readBack b.val
  iseqv := ⟨fun _ => rfl, fun h => h.symm, fun h h' => h.trans h'⟩

end RawObject

/-- A dict of JSON values. -/
def JsonObject (F : Type) [PyFloat F] := Quotient (RawObject.setoid (F := F))

namespace JsonObject

/-- The dict, its keys in order. -/
def dump : JsonObject F → PyVal F := Quotient.lift (fun o => readBack o.val) fun _ _ h => h

theorem exists_raw (o : JsonObject F) : ∃ r : RawObject F, o.dump = readBack r.val := by
  obtain ⟨r, rfl⟩ := Quotient.exists_rep o
  exact ⟨r, rfl⟩

theorem canon_dump (o : JsonObject F) : canon o.dump = some o.dump := by
  obtain ⟨r, hr⟩ := o.exists_raw
  obtain ⟨w, hw, -⟩ := canon_of_stable r.stable_val
  rw [hr, canon_readBack r.stable_val, canon, hw, Option.map_some, readBack_of_sortDicts hw]

theorem joined_dump (o : JsonObject F) : eachStr Joined o.dump := by
  obtain ⟨r, hr⟩ := o.exists_raw
  obtain ⟨w, hw, -⟩ := canon_of_stable r.stable_val
  rw [hr]
  exact eachStr_readBack hw r.joined_val

theorem dump_injective {o o' : JsonObject F} (h : o.dump = o'.dump) : o = o' := by
  obtain ⟨r, rfl⟩ := Quotient.exists_rep o
  obtain ⟨r', rfl⟩ := Quotient.exists_rep o'
  exact Quotient.sound h

theorem dump_ne_none (o : JsonObject F) : o.dump ≠ .none := by
  obtain ⟨r, hr⟩ := o.exists_raw
  obtain ⟨w, hw, -⟩ := canon_of_stable r.stable_val
  obtain ⟨kvs, rfl⟩ := exists_dict_of_sortDicts hw
  rw [hr, readBack_of_sortDicts hw, form]
  exact nofun

/-- Every value of the dict is a string without surrogates. -/
def AllText (o : JsonObject F) : Prop :=
  ∀ kvs, o.dump = .dict kvs → ∀ kv ∈ kvs, ∃ s, kv.2 = .str s ∧ Encodable s

end JsonObject

/-! ### Codecs -/

/-- What the library reads a JSON value as.  What it makes of other values is left open. -/
structure Reader (F : Type) [PyFloat F] where
  str : PyVal F → Option {s : PyStr // Encodable s}
  int : PyVal F → Option ℤ
  bool : PyVal F → Option Bool
  float : PyVal F → Option F
  tuple : PyVal F → Option (List (PyVal F))
  object : PyVal F → Option (JsonObject F)
  texts : PyVal F → Option {o : JsonObject F // o.AllText}
  str_str : ∀ s : {s : PyStr // Encodable s}, str (.str s) = some s
  int_int : ∀ n, int (.int n) = some n
  bool_bool : ∀ b, bool (.bool b) = some b
  float_float : ∀ x, float (.float (.finite x)) = some x
  tuple_list : ∀ vs, tuple (.list vs) = some vs
  object_dump : ∀ o : JsonObject F, object o.dump = some o
  texts_dump : ∀ o : {o : JsonObject F // o.AllText}, texts o.val.dump = some o

section

open Classical

/-- The reading of exactly what a dump holds. -/
noncomputable def Reader.exact : Reader F where
  str
    | .str s => if h : Encodable s then some ⟨s, h⟩ else none
    | _ => none
  int
    | .int n => some n
    | _ => none
  bool
    | .bool b => some b
    | _ => none
  float
    | .float (.finite x) => some x
    | _ => none
  tuple
    | .list vs => some vs
    | _ => none
  object v := if h : ∃ o : JsonObject F, o.dump = v then some h.choose else none
  texts v := if h : ∃ o : {o : JsonObject F // o.AllText}, o.val.dump = v then some h.choose else none
  str_str s := dif_pos s.property
  int_int _ := rfl
  bool_bool _ := rfl
  float_float _ := rfl
  tuple_list _ := rfl
  object_dump o := by
    have h : ∃ o' : JsonObject F, o'.dump = o.dump := ⟨o, rfl⟩
    rw [dif_pos h, JsonObject.dump_injective h.choose_spec]
  texts_dump o := by
    have h : ∃ o' : {o : JsonObject F // o.AllText}, o'.val.dump = o.val.dump := ⟨o, rfl⟩
    rw [dif_pos h, Subtype.ext (JsonObject.dump_injective h.choose_spec)]

end

/-- A type with its dump and its reader: what is made of the JSON of a dump is the value
dumped. -/
structure Codec (F : Type) [PyFloat F] (α : Type) where
  dump : α → PyVal F
  validate : PyVal F → Option α
  joined : ∀ a, eachStr Joined (dump a)
  validate_canon : ∀ a v, canon (dump a) = some v → v ≠ .none ∧ validate v = some a

namespace Codec

/-- `str`. -/
def str (r : Reader F) : Codec F {s : PyStr // Encodable s} where
  dump s := .str s
  validate := r.str
  joined s := joined_of_encodable s.property
  validate_canon s v h := by
    obtain rfl := Option.some.inj h
    exact ⟨nofun, r.str_str s⟩

/-- `int`. -/
def int (r : Reader F) : Codec F ℤ where
  dump n := .int n
  validate := r.int
  joined _ := trivial
  validate_canon n v h := by
    obtain rfl := Option.some.inj h
    exact ⟨nofun, r.int_int n⟩

/-- `bool`. -/
def bool (r : Reader F) : Codec F Bool where
  dump b := .bool b
  validate := r.bool
  joined _ := trivial
  validate_canon b v h := by
    obtain rfl := Option.some.inj h
    exact ⟨nofun, r.bool_bool b⟩

/-- `float`. -/
def float (r : Reader F) : Codec F F where
  dump x := .float (.finite x)
  validate := r.float
  joined _ := trivial
  validate_canon x v h := by
    obtain rfl := Option.some.inj h
    exact ⟨nofun, r.float_float x⟩

/-- `dict[str, Any]`. -/
def object (r : Reader F) : Codec F (JsonObject F) where
  dump o := o.dump
  validate := r.object
  joined o := o.joined_dump
  validate_canon o v h := by
    obtain rfl := Option.some.inj (o.canon_dump.symm.trans h)
    exact ⟨o.dump_ne_none, r.object_dump o⟩

/-- `dict[str, str]`. -/
def texts (r : Reader F) : Codec F {o : JsonObject F // o.AllText} where
  dump o := o.val.dump
  validate := r.texts
  joined o := o.val.joined_dump
  validate_canon o v h := by
    obtain rfl := Option.some.inj (o.val.canon_dump.symm.trans h)
    exact ⟨o.val.dump_ne_none, r.texts_dump o⟩

/-- `Literal[...]`: one of the strings of `all`. -/
def literal (text : α → PyStr) (all : List α) (henc : ∀ a, Encodable (text a))
    (hall : ∀ a, (all.find? fun b => text b = text a) = some a) : Codec F α where
  dump a := .str (text a)
  validate
    | .str s => all.find? fun b => text b = s
    | _ => none
  joined a := joined_of_encodable (henc a)
  validate_canon a v h := by
    obtain rfl := Option.some.inj h
    exact ⟨nofun, hall a⟩

/-- `tuple[T, ...]`: a list in JSON. -/
def tuple (r : Reader F) (c : Codec F α) : Codec F (List α) where
  dump as := .list (as.map c.dump)
  validate v := (r.tuple v).bind fun vs => vs.mapM c.validate
  joined as := eachStrList_iff.mpr fun v hv => by
    obtain ⟨a, -, rfl⟩ := List.mem_map.mp hv
    exact c.joined a
  validate_canon as v h := by
    obtain ⟨vs, rfl, hvs⟩ := canon_list h
    refine ⟨nofun, ?_⟩
    rw [r.tuple_list, Option.bind_some]
    clear h
    induction as generalizing vs with
    | nil =>
      cases hvs
      rfl
    | cons a as ih =>
      rw [List.map_cons] at hvs
      obtain _ | ⟨ha, has⟩ := hvs
      rw [List.mapM_cons, (c.validate_canon a _ ha).2, ih _ has]
      rfl

/-- A codec of another type, or of a part of the type that passes a check. -/
def refine (c : Codec F α) (make : α → Option β) (get : β → α)
    (hmake : ∀ b, make (get b) = some b) : Codec F β where
  dump b := c.dump (get b)
  validate v := (c.validate v).bind make
  joined b := c.joined (get b)
  validate_canon b v h := by
    obtain ⟨hne, hval⟩ := c.validate_canon (get b) v h
    exact ⟨hne, by rw [hval, Option.bind_some, hmake]⟩

/-- The values that pass a check. -/
def guard (c : Codec F α) (p : α → Prop) [DecidablePred p] : Codec F {a // p a} :=
  c.refine (fun a => if h : p a then some ⟨a, h⟩ else none) Subtype.val fun b => dif_pos b.property

/-- **The text of a dump is read back as the value dumped.** -/
theorem loads_dumps (c : Codec F α) {a : α} {st : Style} {t : PyStr}
    (h : dumpsSorted st (c.dump a) = .ok t) :
    ∃ v, canon (c.dump a) = some v ∧ loads t = some v ∧ c.validate v = some a := by
  obtain ⟨w, hw, ht⟩ := dumpsSorted_eq_ok.mp h
  have hcanon : canon (c.dump a) = some (form w) := by rw [canon, hw, Option.map_some]
  have hjoined : eachStr Joined w := (eachStr_of_sortDicts hw).mpr (c.joined a)
  exact ⟨form w, hcanon, loads_print ht fun _ => hjoined, (c.validate_canon a _ hcanon).2⟩

end Codec

/-! ### Records -/

/-- A field: its dump, or none when it is left out, and its reader, given the value or
none when it is missing. -/
structure Field (F : Type) [PyFloat F] (α : Type) where
  dump : α → Option (PyVal F)
  validate : Option (PyVal F) → Option α
  joined : ∀ a, ∀ u ∈ dump a, eachStr Joined u
  validate_none : ∀ a, dump a = none → validate none = some a
  validate_some : ∀ a u v, dump a = some u → canon u = some v → validate (some v) = some a

namespace Codec

/-- A field that is there. -/
def required (c : Codec F α) : Field F α where
  dump a := some (c.dump a)
  validate o := o.bind c.validate
  joined a u hu := by
    obtain rfl := Option.some.inj hu
    exact c.joined a
  validate_none a h := by cases h
  validate_some a u v hu hv := by
    obtain rfl := Option.some.inj hu
    exact (c.validate_canon a v hv).2

/-- A field with a default. -/
def withDefault (c : Codec F α) (default : α) : Field F α where
  dump a := some (c.dump a)
  validate
    | none => some default
    | some v => c.validate v
  joined a u hu := by
    obtain rfl := Option.some.inj hu
    exact c.joined a
  validate_none a h := by cases h
  validate_some a u v hu hv := by
    obtain rfl := Option.some.inj hu
    exact (c.validate_canon a v hv).2

/-- A field that may be `None`, which it is by default. -/
def optional (c : Codec F α) : Field F (Option α) where
  dump a := a.map c.dump
  validate
    | none => some none
    | some .none => some none
    | some v => (c.validate v).map some
  joined a u hu := by
    obtain ⟨a, -, rfl⟩ := Option.mem_map.mp hu
    exact c.joined a
  validate_none a h := by rw [Option.map_eq_none_iff.mp h]
  validate_some a u v hu hv := by
    obtain ⟨a, rfl, rfl⟩ := Option.map_eq_some_iff.mp hu
    obtain ⟨hne, hval⟩ := c.validate_canon a v hv
    cases v with
    | none => exact absurd rfl hne
    | _ =>
      dsimp only
      rw [hval, Option.map_some]

end Codec

/-- The fields of a record under their names: what is dumped of them, and the record made
of what is found under the names. -/
structure Fields (F : Type) [PyFloat F] (names : List PyStr) (α : Type) where
  dump : α → List (PyStr × PyVal F)
  validate : (PyStr → Option (PyVal F)) → Option α
  keys_dump : ∀ a, ((dump a).map Prod.fst).Sublist names
  joined : ∀ a, ∀ p ∈ dump a, eachStr Joined p.2
  validate_canon : names.Nodup → ∀ a get,
    (∀ p ∈ dump a, ∃ v, canon p.2 = some v ∧ get p.1 = some v) →
    (∀ k ∈ names, k ∉ (dump a).map Prod.fst → get k = none) → validate get = some a

namespace Fields

variable {names : List PyStr}

/-- No field. -/
def nil : Fields F [] Unit where
  dump _ := []
  validate _ := some ()
  keys_dump _ := List.Sublist.refl []
  joined _ _ h := by cases h
  validate_canon _ _ _ _ _ := rfl

/-- One field more. -/
def cons (k : PyStr) (f : Field F α) (m : Fields F names β) : Fields F (k :: names) (α × β) where
  dump a := ((f.dump a.1).toList.map fun v => (k, v)) ++ m.dump a.2
  validate get := (f.validate (get k)).bind fun a => (m.validate get).map fun b => (a, b)
  keys_dump a := by
    rw [List.map_append, List.map_map]
    cases f.dump a.1 with
    | none => exact (m.keys_dump a.2).trans (List.sublist_cons_self k names)
    | some v => exact (m.keys_dump a.2).cons_cons k
  joined a p hp := by
    rcases List.mem_append.mp hp with hp | hp
    · obtain ⟨u, hu, rfl⟩ := List.mem_map.mp hp
      exact f.joined a.1 u (Option.mem_toList.mp hu)
    · exact m.joined a.2 p hp
  validate_canon hnodup a get hthere hmissing := by
    obtain ⟨hk, hnames⟩ := List.nodup_cons.mp hnodup
    have hnot : k ∉ (m.dump a.2).map Prod.fst := fun h => hk ((m.keys_dump a.2).subset h)
    -- the field is found as it was dumped, or left out and missing
    have hfirst : f.validate (get k) = some a.1 := by
      cases hdump : f.dump a.1 with
      | none =>
        rw [hmissing k List.mem_cons_self (by rw [hdump]; simpa using hnot)]
        exact f.validate_none a.1 hdump
      | some u =>
        obtain ⟨v, hv, hget⟩ := hthere (k, u) (by rw [hdump]; simp)
        rw [hget]
        exact f.validate_some a.1 u v hdump hv
    have hrest : m.validate get = some a.2 := by
      refine m.validate_canon hnames a.2 get (fun p hp => hthere p (List.mem_append_right _ hp)) ?_
      intro l hl hmem
      refine hmissing l (List.mem_cons_of_mem _ hl) ?_
      rw [List.map_append, List.mem_append, not_or]
      refine ⟨fun h => ?_, hmem⟩
      obtain ⟨p, hp, rfl⟩ := List.mem_map.mp h
      obtain ⟨u, -, rfl⟩ := List.mem_map.mp hp
      exact hk hl
    rw [hfirst, Option.bind_some, hrest, Option.map_some]

/-- The fields of a type made of them, when they pass its checks. -/
def refine (m : Fields F names α) (make : α → Option β) (get : β → α)
    (hmake : ∀ b, make (get b) = some b) : Fields F names β where
  dump b := m.dump (get b)
  validate lookup := (m.validate lookup).bind make
  keys_dump b := m.keys_dump (get b)
  joined b := m.joined (get b)
  validate_canon hnodup b lookup hthere hmissing := by
    rw [m.validate_canon hnodup (get b) lookup hthere hmissing, Option.bind_some, hmake]

/-- The key of an item is one of the names. -/
def knows (names : List PyStr) : Key F → Bool
  | .str k => names.contains k
  | _ => false

/-- **A record reads back when its fields do.**  A key that is no field is an error. -/
def codec (m : Fields F names α) (hnodup : names.Nodup) (henc : ∀ k ∈ names, Encodable k) :
    Codec F α where
  dump a := .dict (strItems (m.dump a))
  validate
    | .dict kvs =>
      if kvs.all fun kv => knows names kv.1 then m.validate fun k => dictGet k kvs else none
    | _ => none
  joined a := by
    refine eachStrItems_iff.mpr fun kv hkv => ?_
    obtain ⟨p, hp, rfl⟩ := List.mem_map.mp hkv
    have hname := (m.keys_dump a).subset (List.mem_map_of_mem (f := Prod.fst) hp)
    exact ⟨joined_of_encodable (henc _ hname), m.joined a p hp⟩
  validate_canon a v h := by
    have hkeys := (m.keys_dump a).nodup hnodup
    obtain ⟨qs, rfl, hqs, hthere, hback⟩ := canon_object hkeys h
    refine ⟨nofun, ?_⟩
    have hall : ((strItems qs : List (Key F × PyVal F)).all fun kv => knows names kv.1) = true := by
      rw [List.all_eq_true]
      intro kv hkv
      obtain ⟨q, hq, rfl⟩ := List.mem_map.mp hkv
      exact List.contains_iff_mem.mpr ((m.keys_dump a).subset (hback q hq))
    dsimp only
    rw [if_pos hall]
    refine m.validate_canon hnodup a _ ?_ ?_
    · intro p hp
      obtain ⟨w, hw, hmem⟩ := hthere p hp
      exact ⟨w, hw, dictGet_of_mem hqs hmem⟩
    · intro k _ hk
      -- what is found under a name was dumped under it
      cases hget : dictGet k (strItems qs : List (Key F × PyVal F)) with
      | none => rfl
      | some w =>
        obtain ⟨q, hq, hkey⟩ := List.mem_map.mp (mem_of_dictGet hget)
        obtain ⟨hkey, -⟩ := Prod.mk.inj hkey
        exact absurd (hback q hq) (by rw [Key.str.inj hkey]; exact hk)

end Fields

end Model
