import Daryl.Hexa.Authority

/-!
# `hexashard.pins`: pins and their sources

A pin holds a value and points to the source that grounds it.  Whether it still is grounded
is found by looking at the source; a reconciliation moves a pin whose source is no longer
current to the head of its chain, and takes over the value that the head declares for the
key of the pin, if it does.  Where it declares none the pin is moved all the same, and the
flag that its stored status gets is not looked at when the pins are checked.

Pins are kept in the order of their addresses, in which they are added.

## Main definitions

* `Pin`, `PinStore.add`, `byKey` — pins, one live pin for a key.
* `resolve`, `checkAll`, `reconcile` — what a check reports, and what a reconciliation does.
* `Pinned`, `PinCall` — the pins of a project, with the source each value was set for.
* `Pinned.Grounded` — one live pin for a key, and none reported active at another source.
* `Pinned.Adopting` — the condition on a call: what is moved adopts a value.

## Main results

* `PinStore.lastK_pinAddress`, `PinStore.nextId_notMem` — new pins have new addresses.
* `reconcile_again_iff` — when a second reconciliation changes nothing.
* `pins_grounded` — **adopting calls keep the pins grounded.**
-/

namespace Daryl

namespace Hexa

open Py Json

/-! ### Pins -/

/-- `PinStatus`. -/
inductive PinStatus
  | active
  | stale
  | needsReview
  | superseded
  | broken
  deriving DecidableEq

/-- `Pin`. -/
structure Pin where
  pinId : PyStr
  key : PyStr
  value : PyStr
  sourceRef : Option PyStr
  status : PinStatus
  supersedes : Option PyStr
  critical : Bool
  hexId : Option PyStr
  updatedAt : Option PyStr
  note : Option PyStr
  deriving DecidableEq

/-- What a new pin says. -/
structure NewPin where
  key : PyStr
  value : PyStr
  sourceRef : Option PyStr
  critical : Bool
  hexId : Option PyStr
  updatedAt : Option PyStr
  note : Option PyStr

/-- `pin_address`. -/
def pinAddress (projectPrefix : PyStr) (seq : ℕ) : PyStr :=
  projectPrefix ++ 46 :: 75 :: zfill 3 (natStr seq)

/-- What comes after the last `.K`. -/
def lastK : PyStr → Option PyStr
  | [] => none
  | c :: s =>
    match lastK s with
    | some tail => some tail
    | none => if c = 46 ∧ s.head? = some 75 then some s.tail else none

/-- `PinStore`. -/
structure PinStore where
  projectPrefix : PyStr
  pins : List (PyStr × Pin)

namespace PinStore

/-- `_next_id`; the ids are pin addresses. -/
def nextId (s : PinStore) : PyStr :=
  let seqs := (Dict.keys s.pins).filterMap fun pid => natText ((lastK pid).getD pid)
  pinAddress s.projectPrefix (seqs.foldl max 0 + 1)

/-- `all`. -/
def all (s : PinStore) : List Pin := s.pins.map Prod.snd

/-- `live`. -/
def live (s : PinStore) : List Pin := s.all.filter fun p => p.status ≠ .superseded

/-- `by_key`: the one live pin of a key. -/
def byKey (s : PinStore) (key : PyStr) : Option Pin :=
  (s.live.filter fun p => p.key = key).getLast?

/-- `add`: a live pin of the key is superseded. -/
def add (s : PinStore) (new : NewPin) : Pin × PinStore :=
  let prior := s.byKey new.key
  let pin : Pin := {
    pinId := s.nextId
    key := new.key
    value := new.value
    sourceRef := new.sourceRef
    status := .active
    supersedes := prior.map Pin.pinId
    critical := new.critical
    hexId := new.hexId
    updatedAt := new.updatedAt
    note := new.note }
  let pins :=
    match prior with
    | some prior => Dict.set prior.pinId { prior with status := .superseded } s.pins
    | none => s.pins
  (pin, { s with pins := Dict.set pin.pinId pin pins })

end PinStore

/-! ### Grounding -/

variable {F : Type}

/-- `PinResolution`. -/
structure PinResolution (F : Type) where
  pin : Pin
  source : Option (Source F)
  status : PinStatus
  grounded : Bool
  detail : PyStr

/-- `PinReconciliation`. -/
structure PinReconciliation where
  pinId : PyStr
  key : PyStr
  before : PinStatus
  after : PinStatus
  oldSourceRef : Option PyStr
  newSourceRef : Option PyStr
  valueChanged : Bool
  detail : PyStr

/-- A source reference that is not empty. -/
def Pin.ref (pin : Pin) : Option PyStr := pin.sourceRef.filter fun r => r ≠ []

/-- `resolve`. -/
def resolve (pin : Pin) (sources : SourceStore F) : PinResolution F :=
  match pin.ref with
  | none => ⟨pin, none, .broken, false, py "pin carries no source_ref, so it cannot be grounded"⟩
  | some ref =>
    match sources.find ref with
    | none => ⟨pin, none, .broken, false, py "source " ++ ref ++ py " is not present in the store"⟩
    | some src =>
      match src.status with
      | .current => ⟨pin, some src, .active, true, py "grounded in a CURRENT source"⟩
      | .superseded => ⟨pin, some src, .stale, true, py "source " ++ src.sourceId ++
          py " was superseded by " ++ src.supersededBy.getD (py "None")⟩
      | status => ⟨pin, some src, .needsReview, true, py "source " ++ src.sourceId ++ py " is " ++
          status.value ++ py ", not authoritative"⟩

/-- `check_all`. -/
def checkAll (pins : PinStore) (sources : SourceStore F) : List (PinResolution F) :=
  pins.live.map fun p => resolve p sources

/-- The `pin_warnings` of a turn. -/
def pinWarnings (pins : PinStore) (sources : SourceStore F) : List (PinResolution F) :=
  (checkAll pins sources).filter fun r => r.status ≠ .active

/-- What `reconcile` does to a live pin. -/
def reconcilePin (sources : SourceStore F) (pin : Pin) : Pin × Option PinReconciliation :=
  let before := resolve pin sources
  let stay : Pin × Option PinReconciliation :=
    ({ pin with status := before.status }, some ⟨pin.pinId, pin.key, pin.status, before.status,
      pin.sourceRef, pin.sourceRef, false, before.detail⟩)
  match before.status with
  | .active => (pin, none)
  | .broken => stay
  | _ =>
    match pin.ref.bind sources.currentChainHead with
    | none => stay
    | some head =>
      if some head.sourceId = pin.sourceRef then stay
      else
        match head.claimValue with
        | some value =>
          if head.claimKey = some pin.key ∧ head.status = .current then
            ({ pin with sourceRef := some head.sourceId, value := value, status := .active },
              some ⟨pin.pinId, pin.key, before.status, .active, pin.sourceRef, some head.sourceId,
                value ≠ pin.value, py "repointed to " ++ head.sourceId ++
                  py " and adopted its declared value for " ++ pin.key⟩)
          else moved pin before.status head
        | none => moved pin before.status head
where
  /-- A move without a value. -/
  moved (pin : Pin) (before : PinStatus) (head : Source F) : Pin × Option PinReconciliation :=
    let why :=
      if head.status ≠ .current then py "is not CURRENT" else py "declares no value for " ++ pin.key
    ({ pin with sourceRef := some head.sourceId, status := .needsReview },
      some ⟨pin.pinId, pin.key, before, .needsReview, pin.sourceRef, some head.sourceId, false,
        py "repointed to " ++ head.sourceId ++ py ", which " ++ why ++
          py "; value left unchanged for human review"⟩)

/-- What `reconcile` leaves of a pin. -/
def reconciled (sources : SourceStore F) (pin : Pin) : Pin :=
  if pin.status = .superseded then pin else (reconcilePin sources pin).1

/-- `reconcile`. -/
def reconcile (pins : PinStore) (sources : SourceStore F) : List PinReconciliation × PinStore :=
  (pins.live.filterMap fun p => (reconcilePin sources p).2,
    { pins with pins := pins.pins.map fun p => (p.1, reconciled sources p.2) })

/-! ### New pins -/

theorem natText_zfill (width n : ℕ) : natText (zfill width (natStr n)) = some n := by
  have hdigits : zfill width (natStr n) =
      (List.replicate (width - (decDigits n).length) 0 ++ decDigits n).map digitChar := by
    rw [zfill, List.map_append, List.map_replicate, natStr, List.length_map]
    rfl
  rw [hdigits, natText_digits (by simp [decDigits_ne_nil]), natOfDigits_zeros, natOfDigits_decDigits]

theorem lastK_of_notMem {s : PyStr} (h : 46 ∉ s) : lastK s = none := by
  induction s with
  | nil => rfl
  | cons c s ih =>
    rw [lastK, ih fun hs => h (List.mem_cons_of_mem c hs)]
    simp only
    refine if_neg ?_
    rintro ⟨rfl, -⟩
    exact h List.mem_cons_self

/-- The number of a pin address is what comes after its last `.K`. -/
theorem lastK_pinAddress (projectPrefix : PyStr) (seq : ℕ) :
    lastK (pinAddress projectPrefix seq) = some (zfill 3 (natStr seq)) := by
  have hdot : 46 ∉ zfill 3 (natStr seq) := by
    intro hmem
    have hnone := natText_of_mem_dot hmem
    rw [natText_zfill] at hnone
    cases hnone
  have hnumber : lastK (46 :: 75 :: zfill 3 (natStr seq)) = some (zfill 3 (natStr seq)) := by
    rw [lastK, lastK_of_notMem]
    · rfl
    · intro hmem
      rcases List.mem_cons.mp hmem with h | h
      · exact absurd h (by decide)
      · exact hdot h
  induction projectPrefix with
  | nil => exact hnumber
  | cons c p ih =>
    rw [pinAddress, List.cons_append, lastK, ← pinAddress, ih]

namespace PinStore

/-- **A new pin has a new id.** -/
theorem nextId_notMem (s : PinStore) : s.nextId ∉ Dict.keys s.pins := by
  intro hmem
  have hseq : ((Dict.keys s.pins).filterMap fun pid =>
      natText ((lastK pid).getD pid)).foldl max 0 + 1 ∈
        (Dict.keys s.pins).filterMap fun pid => natText ((lastK pid).getD pid) := by
    refine List.mem_filterMap.mpr ⟨s.nextId, hmem, ?_⟩
    rw [nextId, lastK_pinAddress, Option.getD_some, natText_zfill]
  exact absurd (le_foldl_max 0 hseq) (by omega)

/-- Pins are found under their ids. -/
structure Filed (s : PinStore) : Prop where
  nodup : (Dict.keys s.pins).Nodup
  named : ∀ id p, Dict.get id s.pins = some p → p.pinId = id

/-- The invariant of the pins: no key has two live ones. -/
structure Tidy (s : PinStore) : Prop extends s.Filed where
  single : ∀ p ∈ s.live, ∀ q ∈ s.live, p.key = q.key → p = q

theorem Filed.mem_live {s : PinStore} (h : s.Filed) {p : Pin} :
    p ∈ s.live ↔ Dict.get p.pinId s.pins = some p ∧ p.status ≠ .superseded := by
  rw [live, List.mem_filter, decide_eq_true_eq, all, List.mem_map]
  refine and_congr_left fun _ => ⟨?_, fun hget => ⟨_, Dict.mem_of_get hget, rfl⟩⟩
  rintro ⟨⟨id, q⟩, hmem, rfl⟩
  have hget := Dict.get_of_mem h.nodup hmem
  rw [h.named id q hget]
  exact hget

/-- What `by_key` finds is live, and of the key. -/
theorem mem_of_byKey {s : PinStore} {key : PyStr} {p : Pin} (h : s.byKey key = some p) :
    p ∈ s.live ∧ p.key = key := by
  have hmem := List.mem_of_getLast? h
  rw [List.mem_filter, decide_eq_true_eq] at hmem
  exact hmem

theorem byKey_isSome {s : PinStore} {p : Pin} (h : p ∈ s.live) : (s.byKey p.key).isSome := by
  have hmem : p ∈ s.live.filter fun q => q.key = p.key :=
    List.mem_filter.mpr ⟨h, decide_eq_true rfl⟩
  rw [byKey, List.getLast?_isSome]
  exact List.ne_nil_of_mem hmem

/-- What an addition does to each id. -/
theorem get_add {s : PinStore} (h : s.Tidy) (new : NewPin) (id : PyStr) :
    Dict.get id (s.add new).2.pins =
      if s.nextId = id then some (s.add new).1
      else (Dict.get id s.pins).map fun p =>
        if p.status ≠ .superseded ∧ p.key = new.key then { p with status := .superseded } else p := by
  simp only [add]
  rw [Dict.get_set]
  split_ifs with hid
  · rfl
  · cases hkey : s.byKey new.key with
    | none =>
      cases hget : Dict.get id s.pins with
      | none => rfl
      | some p =>
        -- a live pin of the key would have been found
        have hlive : ¬(p.status ≠ .superseded ∧ p.key = new.key) := by
          rintro ⟨hstatus, hk⟩
          have hsome := byKey_isSome (h.mem_live.mpr ⟨by rw [h.named id p hget]; exact hget, hstatus⟩)
          rw [hk, hkey] at hsome
          cases hsome
        rw [Option.map_some, if_neg hlive]
    | some prior =>
      obtain ⟨hlive, hk⟩ := mem_of_byKey hkey
      obtain ⟨hget, hstatus⟩ := h.mem_live.mp hlive
      simp only
      rw [Dict.get_set]
      split_ifs with hpid
      · rw [← hpid, hget, Option.map_some, if_pos ⟨hstatus, hk⟩]
      · cases hother : Dict.get id s.pins with
        | none => rfl
        | some p =>
          have hp : ¬(p.status ≠ .superseded ∧ p.key = new.key) := by
            rintro ⟨hs, hkp⟩
            have hpid' := h.named id p hother
            have heq := h.single p (h.mem_live.mpr ⟨by rw [hpid']; exact hother, hs⟩) prior hlive
              (hkp.trans hk.symm)
            exact hpid (heq ▸ hpid')
          rw [Option.map_some, if_neg hp]

theorem Tidy.filed_add {s : PinStore} (h : s.Tidy) (new : NewPin) : (s.add new).2.Filed := by
  constructor
  · simp only [add]
    refine Dict.nodup_keys_set ?_
    split
    · exact Dict.nodup_keys_set h.nodup
    · exact h.nodup
  · intro id p hp
    rw [get_add h] at hp
    split_ifs at hp with hid
    · rw [← Option.some.inj hp, ← hid]
      rfl
    · obtain ⟨q, hq, rfl⟩ := Option.map_eq_some_iff.mp hp
      split_ifs <;> exact h.named id q hq

/-- **After an addition** the live pins are the new one and those of the other keys. -/
theorem mem_live_add {s : PinStore} (h : s.Tidy) (new : NewPin) {p : Pin} :
    p ∈ (s.add new).2.live ↔ p = (s.add new).1 ∨ p ∈ s.live ∧ p.key ≠ new.key := by
  rw [(h.filed_add new).mem_live, get_add h, h.mem_live]
  constructor
  · rintro ⟨hget, hstatus⟩
    split_ifs at hget with hid
    · exact .inl (Option.some.inj hget).symm
    · obtain ⟨q, hq, hqp⟩ := Option.map_eq_some_iff.mp hget
      split_ifs at hqp with hold
      · rw [← hqp] at hstatus
        exact absurd rfl hstatus
      · subst hqp
        rw [h.named _ q hq] at hq
        exact .inr ⟨⟨hq, hstatus⟩, fun hk => hold ⟨hstatus, hk⟩⟩
  · rintro (rfl | ⟨⟨hget, hstatus⟩, hk⟩)
    · exact ⟨if_pos rfl, fun h => by cases h⟩
    · have hne : s.nextId ≠ p.pinId := by
        intro hid
        refine s.nextId_notMem ?_
        rw [hid, ← Dict.get_isSome, hget]
        rfl
      rw [if_neg hne, hget, Option.map_some, if_neg fun hold => hk hold.2]
      exact ⟨rfl, hstatus⟩

/-- **An addition keeps the pins tidy.** -/
theorem Tidy.add {s : PinStore} (h : s.Tidy) (new : NewPin) : (s.add new).2.Tidy := by
  refine ⟨h.filed_add new, fun p hp q hq hk => ?_⟩
  rcases (mem_live_add h new).mp hp with rfl | ⟨hp, hpk⟩
  · rcases (mem_live_add h new).mp hq with rfl | ⟨-, hqk⟩
    · rfl
    · exact absurd hk.symm hqk
  · rcases (mem_live_add h new).mp hq with rfl | ⟨hq, -⟩
    · exact absurd hk hpk
    · exact h.single p hp q hq hk

end PinStore

/-! ### Reconciliations -/

/-- The source a pin points at declares its value for its key. -/
def declares (sources : SourceStore F) (pin : Pin) : Bool :=
  match pin.sourceRef.bind sources.find with
  | some src => src.claimKey = some pin.key && src.claimValue = some pin.value
  | none => false

/-- A reconciliation that moves a pin finds a value for it: the head of its chain is current
and declares one for its key. -/
def Adopts (sources : SourceStore F) (pin : Pin) : Prop :=
  (resolve pin sources).status ≠ .active →
    ∀ head ∈ pin.ref.bind sources.currentChainHead, some head.sourceId ≠ pin.sourceRef →
    head.claimKey = some pin.key ∧ head.claimValue.isSome ∧ head.status = .current

instance (sources : SourceStore F) (pin : Pin) : Decidable (Adopts sources pin) :=
  inferInstanceAs (Decidable (_ → _))

/-- A check finds no pin superseded. -/
theorem status_resolve (pin : Pin) (sources : SourceStore F) :
    (resolve pin sources).status ≠ .superseded := by
  unfold resolve
  split
  · simp
  · split
    · simp
    · split <;> simp

/-- **What a reconciliation leaves of a pin.** -/
theorem reconcilePin_spec (sources : SourceStore F) (pin : Pin) :
    (reconcilePin sources pin).1.pinId = pin.pinId ∧
    (reconcilePin sources pin).1.key = pin.key ∧
    (pin.status ≠ .superseded → (reconcilePin sources pin).1.status ≠ .superseded) := by
  have hstatus := status_resolve pin sources
  unfold reconcilePin
  simp only
  split
  · exact ⟨rfl, rfl, id⟩
  · exact ⟨rfl, rfl, fun _ => hstatus⟩
  · split
    · exact ⟨rfl, rfl, fun _ => hstatus⟩
    · split_ifs
      · exact ⟨rfl, rfl, fun _ => hstatus⟩
      · split <;> exact ⟨rfl, rfl, fun _ h => by cases h⟩
      · split <;> exact ⟨rfl, rfl, fun _ h => by cases h⟩

/-- The head of a chain is found under its own id. -/
theorem find_chainHead {sources : SourceStore F} {ref : PyStr} {head : Source F}
    (hnamed : ∀ id src, sources.find id = some src → src.sourceId = id)
    (h : sources.currentChainHead ref = some head) : sources.find head.sourceId = some head := by
  rw [SourceStore.currentChainHead] at h
  split_ifs at h
  rw [hnamed _ head h]
  exact h

/-- **Where a value is adopted** a pin stays, or its new source declares its value. -/
theorem reconcilePin_of_adopts {sources : SourceStore F} {pin : Pin} (h : Adopts sources pin)
    (hnamed : ∀ id src, sources.find id = some src → src.sourceId = id) :
    (reconcilePin sources pin).1.sourceRef = pin.sourceRef ∨
      declares sources (reconcilePin sources pin).1 = true := by
  unfold reconcilePin
  simp only
  split
  · exact .inl rfl
  · exact .inl rfl
  · next hactive _ =>
    cases hhead : pin.ref.bind sources.currentChainHead with
    | none => exact .inl rfl
    | some head =>
      simp only
      by_cases hmoved : some head.sourceId = pin.sourceRef
      · rw [if_pos hmoved]
        exact .inl rfl
      · obtain ⟨hkey, hvalue, hcurrent⟩ := h hactive head hhead hmoved
        obtain ⟨value, hvalue⟩ := Option.isSome_iff_exists.mp hvalue
        obtain ⟨ref, -, href⟩ := Option.bind_eq_some_iff.mp hhead
        right
        simp only [if_neg hmoved, hvalue, if_pos (And.intro hkey hcurrent)]
        simp [declares, find_chainHead hnamed href, hkey, hvalue]

namespace PinStore

/-- What a reconciliation leaves of an id. -/
theorem get_reconcile (s : PinStore) (sources : SourceStore F) (id : PyStr) :
    Dict.get id (reconcile s sources).2.pins = (Dict.get id s.pins).map (reconciled sources) :=
  Dict.get_map (fun _ p => reconciled sources p) id s.pins

/-- The pins after a reconciliation. -/
theorem mem_live_reconcile {s : PinStore} (sources : SourceStore F) {p : Pin} :
    p ∈ (reconcile s sources).2.live ↔ ∃ q ∈ s.live, p = (reconcilePin sources q).1 := by
  have hall : (reconcile s sources).2.all = s.all.map (reconciled sources) := by
    simp [reconcile, all, Function.comp_def]
  rw [live, List.mem_filter, decide_eq_true_eq, hall, List.mem_map]
  constructor
  · rintro ⟨⟨q, hq, rfl⟩, hstatus⟩
    by_cases hsup : q.status = .superseded
    · rw [reconciled, if_pos hsup] at hstatus
      exact absurd hsup hstatus
    · refine ⟨q, List.mem_filter.mpr ⟨hq, decide_eq_true hsup⟩, ?_⟩
      rw [reconciled, if_neg hsup]
  · rintro ⟨q, hq, rfl⟩
    obtain ⟨hq, hstatus⟩ := List.mem_filter.mp hq
    rw [decide_eq_true_eq] at hstatus
    exact ⟨⟨q, hq, if_neg hstatus⟩, (reconcilePin_spec sources q).2.2 hstatus⟩

/-- **A reconciliation keeps the pins tidy.** -/
theorem Tidy.reconcile {s : PinStore} (h : s.Tidy) (sources : SourceStore F) :
    (reconcile s sources).2.Tidy := by
  refine ⟨⟨?_, ?_⟩, ?_⟩
  · have hkeys : Dict.keys (Hexa.reconcile s sources).2.pins = Dict.keys s.pins := by
      simp [Hexa.reconcile, Dict.keys, Function.comp_def]
    rw [hkeys]
    exact h.nodup
  · intro id p hp
    rw [get_reconcile] at hp
    obtain ⟨q, hq, rfl⟩ := Option.map_eq_some_iff.mp hp
    rw [reconciled]
    split_ifs
    · exact h.named id q hq
    · rw [(reconcilePin_spec sources q).1]
      exact h.named id q hq
  · intro p hp q hq hk
    obtain ⟨p', hp', rfl⟩ := (mem_live_reconcile sources).mp hp
    obtain ⟨q', hq', rfl⟩ := (mem_live_reconcile sources).mp hq
    rw [(reconcilePin_spec sources p').2.1, (reconcilePin_spec sources q').2.1] at hk
    rw [h.single p' hp' q' hq' hk]

end PinStore

/-! ### A second reconciliation -/

/-- The pin is to be moved to a source that is superseded itself: its chain breaks off there,
or comes back. -/
def Stranded (sources : SourceStore F) (pin : Pin) : Prop :=
  (resolve pin sources).status ≠ .active ∧
    ∃ head ∈ pin.ref.bind sources.currentChainHead,
      some head.sourceId ≠ pin.sourceRef ∧ head.status = .superseded

instance (sources : SourceStore F) (pin : Pin) : Decidable (Stranded sources pin) :=
  inferInstanceAs (Decidable (_ ∧ _))

theorem ref_of_ne_nil {pin : Pin} {ref : PyStr} (h : pin.sourceRef = some ref) (hne : ref ≠ []) :
    pin.ref = some ref := by
  rw [Pin.ref, h, Option.filter_some, if_pos (decide_eq_true hne)]

/-- What is found at a source. -/
theorem status_resolve_of_find {pin : Pin} {sources : SourceStore F} {ref : PyStr}
    {src : Source F} (href : pin.ref = some ref) (hsrc : sources.find ref = some src) :
    (resolve pin sources).status =
      match src.status with
      | .current => .active
      | .superseded => .stale
      | _ => .needsReview := by
  rw [resolve, href]
  simp only [hsrc]
  cases src.status <;> rfl

/-- A check does not look at the status that is stored. -/
theorem status_resolve_set (pin : Pin) (sources : SourceStore F) (status : PinStatus) :
    (resolve { pin with status := status } sources).status = (resolve pin sources).status := by
  have href : ({ pin with status := status } : Pin).ref = pin.ref := rfl
  rw [resolve, resolve, href]
  cases pin.ref with
  | none => rfl
  | some ref =>
    simp only
    cases sources.find ref with
    | none => rfl
    | some src =>
      simp only
      cases src.status <;> rfl

/-- A pin that is active stays as it is. -/
theorem reconcilePin_active {sources : SourceStore F} {pin : Pin}
    (h : (resolve pin sources).status = .active) : (reconcilePin sources pin).1 = pin := by
  unfold reconcilePin
  simp only [h]

/-- A pin whose chain leads nowhere else gets the status that a check finds. -/
theorem reconcilePin_stay {sources : SourceStore F} {pin : Pin}
    (hactive : (resolve pin sources).status ≠ .active)
    (hhead : ∀ head ∈ pin.ref.bind sources.currentChainHead, some head.sourceId = pin.sourceRef) :
    (reconcilePin sources pin).1 = { pin with status := (resolve pin sources).status } := by
  unfold reconcilePin
  simp only
  split
  · next h => exact absurd h hactive
  · rfl
  · cases hchain : pin.ref.bind sources.currentChainHead with
    | none => rfl
    | some head =>
      simp only
      rw [if_pos (hhead head hchain)]

/-- The outcomes of a move: a value is adopted from a current source, or the pin is left for
review. -/
theorem reconcilePin_move {sources : SourceStore F} {pin : Pin} {head : Source F}
    (hactive : (resolve pin sources).status ≠ .active)
    (hhead : pin.ref.bind sources.currentChainHead = some head)
    (hmoved : some head.sourceId ≠ pin.sourceRef) :
    (head.status = .current ∧ ∃ value, (reconcilePin sources pin).1 =
      { pin with sourceRef := some head.sourceId, value := value, status := .active }) ∨
    (reconcilePin sources pin).1 =
      { pin with sourceRef := some head.sourceId, status := .needsReview } := by
  -- a pin at no source has no chain to follow
  have hbroken : (resolve pin sources).status ≠ .broken := by
    obtain ⟨ref, href, hchain⟩ := Option.bind_eq_some_iff.mp hhead
    rw [SourceStore.currentChainHead] at hchain
    split_ifs at hchain with hsome
    obtain ⟨src, hsrc⟩ := Option.isSome_iff_exists.mp hsome
    rw [status_resolve_of_find href hsrc]
    cases src.status <;> exact fun h => by cases h
  unfold reconcilePin
  simp only [hhead, if_neg hmoved]
  cases hstatus : (resolve pin sources).status with
  | active => exact absurd hstatus hactive
  | broken => exact absurd hstatus hbroken
  | stale | needsReview | superseded =>
    cases head.claimValue with
    | none => exact .inr rfl
    | some value =>
      simp only
      split_ifs with hadopt
      · exact .inl ⟨hadopt.2, value, rfl⟩
      · exact .inr rfl

section Filed

variable {sources : SourceStore F} (hfiled : ∀ p ∈ sources.records, p.2.sourceId = p.1)
include hfiled

theorem sourceId_of_find {id : PyStr} {src : Source F} (h : sources.find id = some src) :
    src.sourceId = id := hfiled _ (Dict.mem_of_get h)

/-- **The head of a chain is its own head.** -/
theorem chainHead_again {ref : PyStr} {head : Source F}
    (h : sources.currentChainHead ref = some head) :
    sources.currentChainHead head.sourceId = some head := by
  have hdom : ∀ n m, sources.successor n = some m → n ∈ Dict.keys sources.records := by
    intro n m hm
    obtain ⟨hlink, -⟩ := Option.filter_eq_some_iff.mp hm
    exact SourceStore.mem_keys_of_byLink hlink
  have hlength : sources.records.length = (Dict.keys sources.records).length := by
    rw [Dict.keys, List.length_map]
  rw [SourceStore.currentChainHead] at h
  split_ifs at h
  have hid := sourceId_of_find hfiled h
  rw [SourceStore.currentChainHead, hid, h, Option.isSome_some, if_pos rfl, hlength,
    Walk.follow_follow hdom, ← hlength, h]

/-- A pin that is moved comes to a source with a name. -/
theorem chainHead_ne_nil {pin : Pin} {head : Source F}
    (hhead : pin.ref.bind sources.currentChainHead = some head) : head.sourceId ≠ [] := by
  obtain ⟨ref, href, hchain⟩ := Option.bind_eq_some_iff.mp hhead
  obtain ⟨-, hne⟩ := Option.filter_eq_some_iff.mp href
  rw [SourceStore.currentChainHead] at hchain
  split_ifs at hchain
  rw [sourceId_of_find hfiled hchain]
  rcases @Walk.follow_range _ sources.successor _ (sources.records.length + 1) [] ref with
    hstart | ⟨m, hm⟩
  · rw [hstart]
    exact of_decide_eq_true hne
  · obtain ⟨-, hlink⟩ := Option.filter_eq_some_iff.mp hm
    exact (of_decide_eq_true hlink).1

/-- **A pin is left alone the second time, unless it was stranded.** -/
theorem reconcilePin_again_iff (pin : Pin) :
    (reconcilePin sources (reconcilePin sources pin).1).1 = (reconcilePin sources pin).1 ↔
      ¬Stranded sources pin := by
  by_cases hactive : (resolve pin sources).status = .active
  · rw [reconcilePin_active hactive, reconcilePin_active hactive]
    exact iff_of_true rfl fun h => h.1 hactive
  · by_cases hstay : ∀ head ∈ pin.ref.bind sources.currentChainHead,
        some head.sourceId = pin.sourceRef
    · rw [reconcilePin_stay hactive hstay]
      refine iff_of_true ?_ fun ⟨_, head, hhead, hmoved, _⟩ => hmoved (hstay head hhead)
      have hsame := status_resolve_set pin sources (resolve pin sources).status
      have hagain := @reconcilePin_stay _ sources { pin with status := (resolve pin sources).status }
        (by rwa [hsame]) hstay
      rw [hagain, hsame]
    · simp only [not_forall] at hstay
      obtain ⟨head, hhead, hmoved⟩ := hstay
      obtain ⟨ref, -, hchain⟩ := Option.bind_eq_some_iff.mp hhead
      have hne := chainHead_ne_nil hfiled hhead
      have hfind := find_chainHead (fun id src => sourceId_of_find hfiled) hchain
      have hstranded : Stranded sources pin ↔ head.status = .superseded := by
        constructor
        · rintro ⟨-, head', hhead', -, hsup⟩
          obtain rfl := Option.some.inj (hhead.symm.trans hhead')
          exact hsup
        · exact fun hsup => ⟨hactive, head, hhead, hmoved, hsup⟩
      rw [hstranded]
      rcases reconcilePin_move hactive hhead hmoved with ⟨hcurrent, value, hpin⟩ | hpin
      · -- a value was adopted, and the source is current
        have href : (reconcilePin sources pin).1.ref = some head.sourceId :=
          ref_of_ne_nil (by rw [hpin]) hne
        have hresolve := status_resolve_of_find href hfind
        rw [hcurrent] at hresolve
        rw [reconcilePin_active hresolve, hcurrent]
        exact iff_of_true rfl fun h => by cases h
      · -- left for review, the pin gets the status of its new source
        have href : (reconcilePin sources pin).1.ref = some head.sourceId :=
          ref_of_ne_nil (by rw [hpin]) hne
        have hresolve := status_resolve_of_find href hfind
        have hsame : ∀ other ∈ (reconcilePin sources pin).1.ref.bind sources.currentChainHead,
            some other.sourceId = (reconcilePin sources pin).1.sourceRef := by
          intro other hother
          rw [href, Option.bind_some, chainHead_again hfiled hchain, Option.mem_some_iff] at hother
          rw [hpin, hother]
        have hreview : (reconcilePin sources pin).1.status = .needsReview := by rw [hpin]
        cases hstatus : head.status with
        | current =>
          rw [hstatus] at hresolve
          rw [reconcilePin_active hresolve]
          exact iff_of_true rfl fun h => by cases h
        | superseded =>
          rw [hstatus] at hresolve
          rw [reconcilePin_stay (by rw [hresolve]; exact fun h => by cases h) hsame, hresolve]
          refine iff_of_false (fun h => ?_) fun h => h rfl
          rw [← h] at hreview
          cases hreview
        | draft | unverified =>
          rw [hstatus] at hresolve
          rw [reconcilePin_stay (by rw [hresolve]; exact fun h => by cases h) hsame, hresolve,
            ← hreview]
          exact iff_of_true rfl fun h => by cases h

/-- **A second reconciliation changes nothing exactly when no pin was stranded.** -/
theorem reconcile_again_iff (pins : PinStore) :
    (reconcile (reconcile pins sources).2 sources).2 = (reconcile pins sources).2 ↔
      ∀ pin ∈ pins.live, ¬Stranded sources pin := by
  have hpin : ∀ p : Pin, reconciled sources (reconciled sources p) = reconciled sources p ↔
      (p.status ≠ .superseded → ¬Stranded sources p) := by
    intro p
    by_cases hsup : p.status = .superseded
    · rw [reconciled, reconciled, if_pos hsup, if_pos hsup]
      exact iff_of_true rfl fun h => absurd hsup h
    · have hlive := (reconcilePin_spec sources p).2.2 hsup
      rw [show reconciled sources p = (reconcilePin sources p).1 from if_neg hsup, reconciled,
        if_neg hlive, reconcilePin_again_iff hfiled]
      exact ⟨fun h _ => h, fun h => h hsup⟩
  simp only [reconcile, PinStore.mk.injEq, true_and, List.map_map, PinStore.live, PinStore.all,
    List.mem_filter, List.mem_map, decide_eq_true_eq, and_imp, forall_exists_index,
    List.map_inj_left, Function.comp_apply, Prod.mk.injEq, hpin]
  exact ⟨fun h pin p hp hpp hlive => hpp ▸ h p hp (hpp ▸ hlive),
    fun h p hp hlive => h p.2 p hp rfl hlive⟩

end Filed

/-- A source of a chain. -/
def chainSource (sourceId : PyStr) (status : SourceStatus) (supersededBy : Option PyStr) :
    PyStr × Source FloatLit :=
  (sourceId, ⟨sourceId, py "decision", py "t", 1, status, none, supersededBy, [], none, none, none,
    .none, []⟩)

/-- A store of one superseded source, with its successor. -/
def chainStore (next : PyStr × Source FloatLit) : SourceStore FloatLit :=
  ⟨py "P", [chainSource (py "P.S0001") .superseded (some (py "P.S0002")), next], [], []⟩

/-- A pin at the first source. -/
def chainPins : PinStore :=
  ⟨py "P", [(py "P.K001", ⟨py "P.K001", py "k", py "v", some (py "P.S0001"), .active, none, true,
    none, none, none⟩)]⟩

/-- A chain that ends at a current source. -/
theorem reconcile_again_sample :
    (reconcile (reconcile chainPins (chainStore (chainSource (py "P.S0002") .current none))).2
      (chainStore (chainSource (py "P.S0002") .current none))).2 =
    (reconcile chainPins (chainStore (chainSource (py "P.S0002") .current none))).2 :=
  (reconcile_again_iff (by decide) chainPins).mpr (by decide)

/-- The head of the chain was superseded by a source that is gone: the pin is left for review,
and stale the next time. -/
theorem reconcile_not_idempotent :
    ¬(reconcile (reconcile chainPins
        (chainStore (chainSource (py "P.S0002") .superseded (some (py "P.S0003"))))).2
      (chainStore (chainSource (py "P.S0002") .superseded (some (py "P.S0003"))))).2 =
    (reconcile chainPins
      (chainStore (chainSource (py "P.S0002") .superseded (some (py "P.S0003"))))).2 := by
  intro h
  exact absurd (congrArg PinStore.pins h) (by decide)

/-! ### The pins of a project -/

/-- The calls of a project that set pins and sources. -/
inductive PinCall (F : Type)
  | addSource (new : NewSource F)
  | pin (new : NewPin)
  | supersede (oldSourceId newSourceId : PyStr) (reconcilePins : Bool)
  | setStatus (sourceId : PyStr) (status : SourceStatus)
  | reconcilePins

/-- The sources and pins of a project, and for each pin the source that its value was set
for by its author or adopted from. -/
structure Pinned (F : Type) where
  sources : SourceStore F
  pins : PinStore
  origin : PyStr → Option PyStr

namespace Pinned

/-- `reconcile_pins`; a value is adopted where a pin was moved to a source that declares it. -/
def reconcilePins (s : Pinned F) : Pinned F :=
  { s with
    pins := (reconcile s.pins s.sources).2
    origin := fun id =>
      match Dict.get id s.pins.pins with
      | some pin =>
        let after := reconciled s.sources pin
        if after.sourceRef ≠ pin.sourceRef ∧ declares s.sources after then after.sourceRef
        else s.origin id
      | none => s.origin id }

/-- A call, whatever it returns or raises. -/
def step [PyFloat F] (s : Pinned F) : PinCall F → Pinned F
  | .addSource new => { s with sources := (s.sources.add new).2 }
  | .pin new =>
    { s with
      pins := (s.pins.add new).2
      origin := Function.update s.origin (s.pins.add new).1.pinId new.sourceRef }
  | .supersede oldId newId reconciling =>
    match s.sources.supersede oldId newId with
    | (.error _, sources) => { s with sources := sources }
    | (.ok (), sources) =>
      if reconciling then reconcilePins { s with sources := sources } else { s with sources := sources }
  | .setStatus id status => { s with sources := (s.sources.setStatus id status).2 }
  | .reconcilePins => s.reconcilePins

/-- The pins of a new project. -/
def create (F : Type) (projectPrefix : PyStr) : Pinned F :=
  ⟨SourceStore.empty F projectPrefix, ⟨projectPrefix, []⟩, fun _ => none⟩

/-- A key has one live pin; and a pin that is reported active, or that no warning is about,
has the value that was set for its source or adopted from it. -/
def Grounded (s : Pinned F) : Prop :=
  (∀ p ∈ s.pins.live, ∀ q ∈ s.pins.live, p.key = q.key → p = q) ∧
  (∀ r ∈ checkAll s.pins s.sources, r.status = .active → s.origin r.pin.pinId = r.pin.sourceRef) ∧
  ∀ p ∈ s.pins.live, (∀ r ∈ pinWarnings s.pins s.sources, r.pin ≠ p) →
    s.origin p.pinId = p.sourceRef

/-- The pins that a call moves adopt a value. -/
def Adopting [PyFloat F] (s : Pinned F) : PinCall F → Prop
  | .supersede oldId newId true =>
    ∀ pin ∈ s.pins.live, Adopts (s.sources.supersede oldId newId).2 pin
  | .reconcilePins => ∀ pin ∈ s.pins.live, Adopts s.sources pin
  | _ => True

/-- The invariant: the pins are tidy, sources are found under their ids, and every live pin
points at the source its value is from. -/
structure Sound (s : Pinned F) : Prop where
  tidy : s.pins.Tidy
  named : ∀ id src, s.sources.view id = some src → src.sourceId = id
  traced : ∀ p ∈ s.pins.live, s.origin p.pinId = p.sourceRef

/-- What the invariant is for. -/
theorem Sound.grounded {s : Pinned F} (h : s.Sound) : s.Grounded := by
  refine ⟨h.tidy.single, ?_, fun p hp _ => h.traced p hp⟩
  intro r hr _
  obtain ⟨p, hp, rfl⟩ := List.mem_map.mp hr
  have hpin : (resolve p s.sources).pin = p := by
    unfold resolve
    split
    · rfl
    · split
      · rfl
      · split <;> rfl
  rw [hpin]
  exact h.traced p hp

/-- A record under its own id may be put in. -/
theorem named_update {V : PyStr → Option (Source F)} (h : ∀ id src, V id = some src → src.sourceId = id)
    {k : PyStr} {r : Source F} (hr : r.sourceId = k) (id : PyStr) (src : Source F)
    (hsrc : Function.update V k (some r) id = some src) : src.sourceId = id := by
  by_cases hk : id = k
  · rw [hk, Function.update_self, Option.some.injEq] at hsrc
    rw [← hsrc, hr, hk]
  · rw [Function.update_of_ne hk] at hsrc
    exact h id src hsrc

/-- A reconciliation in which pins adopt values keeps the invariant. -/
theorem Sound.reconcilePins {s : Pinned F} (h : s.Sound)
    (hadopt : ∀ pin ∈ s.pins.live, Adopts s.sources pin) : s.reconcilePins.Sound := by
  refine ⟨h.tidy.reconcile s.sources, h.named, ?_⟩
  intro p hp
  obtain ⟨q, hq, rfl⟩ := (PinStore.mem_live_reconcile s.sources).mp hp
  obtain ⟨hget, hstatus⟩ := h.tidy.mem_live.mp hq
  have hafter : reconciled s.sources q = (reconcilePin s.sources q).1 := if_neg hstatus
  simp only [Pinned.reconcilePins, (reconcilePin_spec s.sources q).1, hget, hafter]
  split_ifs with hmoved
  · rfl
  · -- a pin that was not moved has the source it had
    rw [h.traced q hq]
    by_contra hne
    have hdeclares := reconcilePin_of_adopts (hadopt q hq) fun id src hsrc =>
      h.named id (SourceStore.bare src) (by rw [SourceStore.view, hsrc, Option.map_some])
    exact hmoved ⟨fun heq => hne heq.symm, hdeclares.resolve_left fun heq => hne heq.symm⟩

variable [PyFloat F]

/-- **An adopting call keeps the invariant.** -/
theorem Sound.step {s : Pinned F} (h : s.Sound) (c : PinCall F) (hc : s.Adopting c) :
    (s.step c).Sound := by
  cases c with
  | addSource new =>
    refine ⟨h.tidy, ?_, h.traced⟩
    rcases SourceStore.add_spec s.sources new with hview | ⟨src, -, hview, hid, -, -⟩
    · simp only [Pinned.step, hview]
      exact h.named
    · simp only [Pinned.step, hview]
      exact named_update h.named hid
  | pin new =>
    refine ⟨h.tidy.add new, h.named, ?_⟩
    intro p hp
    simp only [Pinned.step]
    rcases (PinStore.mem_live_add h.tidy new).mp hp with rfl | ⟨hp, -⟩
    · -- the new pin
      rw [Function.update_self]
      rfl
    · -- a pin that was there: its id is not the new one
      have hne : p.pinId ≠ (s.pins.add new).1.pinId := by
        intro hid
        refine s.pins.nextId_notMem ?_
        rw [← Dict.get_isSome]
        have hget := (h.tidy.mem_live.mp hp).1
        rw [hid] at hget
        exact Option.isSome_iff_exists.mpr ⟨p, hget⟩
      rw [Function.update_of_ne hne]
      exact h.traced p hp
  | supersede oldId newId reconciling =>
    have hnamed : ∀ id src, (s.sources.supersede oldId newId).2.view id = some src →
        src.sourceId = id := by
      rcases SourceStore.supersede_spec s.sources oldId newId with
        hview | ⟨old, new, hold, hnew, -, -, hview⟩
      · rw [hview]
        exact h.named
      · rw [hview]
        refine named_update (named_update h.named ?_) ?_
        · exact h.named _ old hold
        · exact h.named _ new hnew
    cases hsup : s.sources.supersede oldId newId with
    | mk r sources =>
      rw [hsup] at hnamed
      have hsound : ({ s with sources := sources } : Pinned F).Sound := ⟨h.tidy, hnamed, h.traced⟩
      cases r with
      | error e =>
        simp only [Pinned.step, hsup]
        exact hsound
      | ok u =>
        simp only [Pinned.step, hsup]
        cases reconciling with
        | false => exact hsound
        | true =>
          refine hsound.reconcilePins ?_
          rw [Adopting, hsup] at hc
          exact hc
  | setStatus id status =>
    refine ⟨h.tidy, ?_, h.traced⟩
    rcases SourceStore.setStatus_spec s.sources id status with hview | ⟨src, hsrc, hview⟩
    · simp only [Pinned.step, hview]
      exact h.named
    · simp only [Pinned.step, hview]
      exact named_update h.named (h.named id src hsrc)
  | reconcilePins => exact h.reconcilePins hc

omit [PyFloat F] in
theorem sound_create (projectPrefix : PyStr) : (create F projectPrefix).Sound where
  tidy := ⟨⟨List.nodup_nil, fun _ _ h => by cases h⟩, fun _ h => by cases h⟩
  named _ _ h := by cases h
  traced _ h := by cases h

/-- **Adopting calls keep the pins grounded**, in every state they pass through. -/
theorem pins_grounded (projectPrefix : PyStr) (calls : List (PinCall F))
    (hcalls : Run.Along step Adopting (create F projectPrefix) calls) :
    Run.Always step Grounded (create F projectPrefix) calls := by
  rintro js ⟨ks, rfl⟩
  exact (Run.run_invariant (P := Sound) (fun s c h hc => h.step c hc) (sound_create projectPrefix)
    (Run.along_append.mp hcalls).1).grounded

/-- A source that declares a value of a key. -/
def sampleClaim (claimKey claimValue : Option PyStr) : NewSource FloatLit :=
  ⟨py "decision", py "t", py "c", .current, [], claimKey, claimValue, none, .none⟩

/-- A pin at the first source. -/
def samplePin : NewPin := ⟨py "k", py "v", some (py "P.S0001"), true, none, none, none⟩

/-- A pin that is moved to a source that declares its value. -/
theorem pins_grounded_sample : Run.Always step Grounded (create FloatLit (py "P"))
    [.addSource (sampleClaim none none), .addSource (sampleClaim (some (py "k")) (some (py "w"))),
      .pin samplePin, .supersede (py "P.S0001") (py "P.S0002") true] := by
  have hadopt : ∀ pin ∈ (Run.run step (create FloatLit (py "P")) [.addSource (sampleClaim none none),
        .addSource (sampleClaim (some (py "k")) (some (py "w"))), .pin samplePin]).pins.live,
      Adopts ((Run.run step (create FloatLit (py "P")) [.addSource (sampleClaim none none),
        .addSource (sampleClaim (some (py "k")) (some (py "w"))),
        .pin samplePin]).sources.supersede (py "P.S0001") (py "P.S0002")).2 pin := by
    decide +kernel
  exact pins_grounded (py "P") _ ⟨trivial, trivial, trivial, hadopt, trivial⟩

/-- A pin is moved to a source that says nothing of its key, and reported active there. -/
theorem moved_pin_active : ¬ Run.Always step Grounded (create FloatLit (py "P"))
    [.addSource (sampleClaim none none), .addSource (sampleClaim none none), .pin samplePin,
      .supersede (py "P.S0001") (py "P.S0002") true] := by
  intro h
  have hread : let s := Run.run step (create FloatLit (py "P")) [.addSource (sampleClaim none none),
        .addSource (sampleClaim none none), .pin samplePin,
        .supersede (py "P.S0001") (py "P.S0002") true]
      ∃ r ∈ checkAll s.pins s.sources, r.status = .active ∧
        ¬ s.origin r.pin.pinId = r.pin.sourceRef := by
    decide +kernel
  obtain ⟨r, hr, hactive, horigin⟩ := hread
  exact horigin ((h _ (List.prefix_refl _)).2.1 r hr hactive)

end Pinned

end Hexa

end Daryl
