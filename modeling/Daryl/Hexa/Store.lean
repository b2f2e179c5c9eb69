import Daryl.Dsm.Storage
import Daryl.Lib.Dict
import Daryl.Lib.Lineage
import Daryl.Py.Name

/-!
# `hexashard.store`: the source store

Primary sources are kept in a directory, each as a record `<source_id>.json` and a text
`<source_id>.txt`; the records are held in memory, their texts are read when they are
needed.  A record file is the record it spells, with its metadata as `json.loads` gives it
back.  Where the store looks at a record without its text, the text is not read here.

## Main definitions

* `sourceAddress`, `parseSourceAddress` — the ids.
* `Source`, `SourceStore` — a record, and the store with its files.
* `SourceStore.add`, `setStatus`, `supersede`, `reopen` — what is done to it.
* `SourceStore.currentChainHead` — the newest source of a chain.

## Main results

* `parse_sourceAddress_iff` — the ids that read back are those of a plain prefix.
* `add_spec`, `setStatus_spec`, `supersede_spec` — what a call does to the records.
-/

namespace Daryl

open Py Json

/-- What the calls of a project raise. -/
inductive HexaError
  | keyError
  | fileNotFound
  | raised (e : PyError)
  deriving DecidableEq

/-! ### Addresses -/

/-- `[A-Za-z0-9]`. -/
def isAlnum (c : CodePoint) : Bool :=
  48 ≤ c.val && c.val ≤ 57 || 65 ≤ c.val && c.val ≤ 90 || 97 ≤ c.val && c.val ≤ 122

/-- A project prefix that the address patterns accept. -/
def PlainPrefix (s : PyStr) : Prop := s ≠ [] ∧ ∀ c ∈ s, isAlnum c = true

instance (s : PyStr) : Decidable (PlainPrefix s) := by unfold PlainPrefix; infer_instance

/-- What `$` lets a pattern end before. -/
def chomp (s : PyStr) : PyStr := if s.getLast? = some nl then s.dropLast else s

/-- `source_address`. -/
def sourceAddress (projectPrefix : PyStr) (seq : ℕ) : PyStr :=
  projectPrefix ++ 46 :: 83 :: fmt4 seq

/-- `parse_source_address`; `none` is the `ValueError`. -/
def parseSourceAddress (address : PyStr) : Option (PyStr × ℕ) :=
  let body := chomp address
  let project := body.takeWhile isAlnum
  match body.dropWhile isAlnum with
  | 46 :: 83 :: seq => if project = [] then none else (natText seq).map fun n => (project, n)
  | _ => none

theorem digit_fmt4 {n : ℕ} {c : CodePoint} (hc : c ∈ fmt4 n) : 48 ≤ c.val ∧ c.val ≤ 57 := by
  rw [fmt4_ofNat] at hc
  exact within_map_digitChar _ c hc

theorem chomp_sourceAddress (p : PyStr) (n : ℕ) : chomp (sourceAddress p n) = sourceAddress p n := by
  refine if_neg fun hlast => ?_
  obtain ⟨d, ds, hds⟩ := List.exists_cons_of_ne_nil (fmtDigits_ne_nil n)
  have hmem : nl ∈ fmt4 n := by
    have hne : fmt4 n ≠ [] := by
      rw [fmt4_ofNat, hds]
      simp
    have hsplit : sourceAddress p n = (p ++ [46, 83]) ++ fmt4 n := by
      rw [sourceAddress, List.append_assoc]
      rfl
    rw [hsplit, List.getLast?_append_of_ne_nil _ hne] at hlast
    exact List.mem_of_getLast? hlast
  exact absurd (digit_fmt4 hmem).1 (by decide)

theorem natText_fmt4 (n : ℕ) : natText (fmt4 n) = some n := by
  rw [fmt4_ofNat, natText_digits (fmtDigits_ne_nil n), fmtDigits, natOfDigits_zeros,
    natOfDigits_decDigits]

/-- An id of a plain prefix reads back. -/
theorem parse_sourceAddress {p : PyStr} (hp : PlainPrefix p) (n : ℕ) :
    parseSourceAddress (sourceAddress p n) = some (p, n) := by
  unfold parseSourceAddress
  simp only [chomp_sourceAddress]
  have hdot : isAlnum 46 = false := by decide
  have htake : (sourceAddress p n).takeWhile isAlnum = p := by
    rw [sourceAddress, List.takeWhile_append_of_pos hp.2, List.takeWhile_cons, hdot]
    simp
  have hdrop : (sourceAddress p n).dropWhile isAlnum = 46 :: 83 :: fmt4 n := by
    rw [sourceAddress, List.dropWhile_append_of_pos hp.2, List.dropWhile_cons, hdot]
    simp
  rw [htake, hdrop]
  simp only [if_neg hp.1, natText_fmt4, Option.map_some]

theorem natText_of_mem_dot {s : PyStr} (h : 46 ∈ s) : natText s = none := by
  have hval : decimalVal 46 = none := by decide
  have hmap : ∀ s : PyStr, 46 ∈ s → s.mapM decimalVal = none := by
    intro s
    induction s with
    | nil => intro h; cases h
    | cons c s ih =>
      intro h
      rw [List.mapM_cons]
      rcases List.mem_cons.mp h with rfl | h
      · rw [hval]
        rfl
      · rw [ih h]
        cases decimalVal c <;> rfl
  rw [natText, hmap s h]
  split <;> rfl

/-- **The ids that read back are those of a plain prefix.** -/
theorem parse_sourceAddress_iff {p : PyStr} {n : ℕ} :
    (parseSourceAddress (sourceAddress p n)).isSome ↔ PlainPrefix p := by
  constructor
  · intro h
    by_contra hp
    refine absurd h (by
      rw [Bool.not_eq_true, Option.isSome_eq_false_iff, Option.isNone_iff_eq_none]
      unfold parseSourceAddress
      simp only [chomp_sourceAddress]
      -- the letters end before the prefix does, or there are none
      cases hr : p.dropWhile isAlnum with
      | nil =>
        have hall : ∀ c ∈ p, isAlnum c = true := List.dropWhile_eq_nil_iff.mp hr
        have hnil : p = [] := by
          by_contra hne
          exact hp ⟨hne, hall⟩
        subst hnil
        rfl
      | cons c r =>
        have hdrop : (sourceAddress p n).dropWhile isAlnum = c :: (r ++ 46 :: 83 :: fmt4 n) := by
          rw [sourceAddress, List.dropWhile_append, hr]
          rfl
        rw [hdrop]
        split
        · next seq heq =>
          obtain ⟨rfl, hrest⟩ := List.cons.inj heq
          cases r with
          | nil =>
            obtain ⟨h1, -⟩ := List.cons.inj hrest
            exact absurd h1 (by decide)
          | cons d r =>
            obtain ⟨-, rfl⟩ := List.cons.inj hrest
            rw [natText_of_mem_dot (by simp)]
            split <;> rfl
        · rfl)
  · intro h
    rw [parse_sourceAddress h]
    rfl

/-- A number is at most the greatest. -/
theorem le_foldl_max : ∀ {seqs : List ℕ} (k : ℕ) {n : ℕ}, n ∈ seqs → n ≤ seqs.foldl max k
  | m :: seqs, k, n, hn => by
    have hstart : ∀ (seqs : List ℕ) (k : ℕ), k ≤ seqs.foldl max k := by
      intro seqs
      induction seqs with
      | nil => exact fun k => le_rfl
      | cons a seqs ih => exact fun k => (le_max_left k a).trans (ih _)
    rw [List.foldl_cons]
    rcases List.mem_cons.mp hn with rfl | hn
    · exact (le_max_right k n).trans (hstart _ _)
    · exact le_foldl_max (max k m) hn

/-! ### Sources -/

/-- `SourceStatus`. -/
inductive SourceStatus
  | current
  | draft
  | unverified
  | superseded
  deriving DecidableEq

/-- The value of a status. -/
def SourceStatus.value : SourceStatus → PyStr
  | .current => py "CURRENT"
  | .draft => py "DRAFT"
  | .unverified => py "UNVERIFIED"
  | .superseded => py "SUPERSEDED"

/-- `Source`. -/
structure Source (F : Type) where
  sourceId : PyStr
  sourceType : PyStr
  title : PyStr
  version : ℕ
  status : SourceStatus
  supersedes : Option PyStr
  supersededBy : Option PyStr
  tags : List PyStr
  claimKey : Option PyStr
  claimValue : Option PyStr
  createdAt : Option PyStr
  metadata : PyVal F
  content : PyStr

/-- A string, or `None`. -/
def optStr {F : Type} (s : Option PyStr) : PyVal F := (s.map PyVal.str).getD .none

section

variable {F : Type}

/-- `to_dict`, without the content. -/
def Source.toDict (src : Source F) : PyVal F :=
  .dict (strItems [
    (py "source_id", .str src.sourceId),
    (py "source_type", .str src.sourceType),
    (py "title", .str src.title),
    (py "version", .int src.version),
    (py "status", .str src.status.value),
    (py "supersedes", optStr src.supersedes),
    (py "superseded_by", optStr src.supersededBy),
    (py "tags", .list (src.tags.map PyVal.str)),
    (py "claim_key", optStr src.claimKey),
    (py "claim_value", optStr src.claimValue),
    (py "created_at", optStr src.createdAt),
    (py "metadata", src.metadata)])

/-- `SourceStore`, with the files of its directory. -/
structure SourceStore (F : Type) where
  projectPrefix : PyStr
  records : List (PyStr × Source F)
  recordFiles : List (PyStr × Source F)
  contentFiles : List (PyStr × List Byte)

/-- What an addition says. -/
structure NewSource (F : Type) where
  sourceType : PyStr
  title : PyStr
  content : PyStr
  status : SourceStatus
  tags : List PyStr
  claimKey : Option PyStr
  claimValue : Option PyStr
  createdAt : Option PyStr
  metadata : PyVal F

end

namespace SourceStore

variable {F : Type} [PyFloat F]

/-- A store in an empty directory. -/
def empty (F : Type) (projectPrefix : PyStr) : SourceStore F := ⟨projectPrefix, [], [], []⟩

/-- The record of an id. -/
def find (s : SourceStore F) (sourceId : PyStr) : Option (Source F) := Dict.get sourceId s.records

/-- The record in the place of the one of its id. -/
def setRecord (s : SourceStore F) (sourceId : PyStr) (src : Source F) : SourceStore F :=
  { s with records := Dict.set sourceId src s.records }

/-- `_next_id`. -/
def nextId (s : SourceStore F) : PyStr :=
  let seqs := (Dict.keys s.records).filterMap fun sid => (parseSourceAddress sid).map Prod.snd
  sourceAddress s.projectPrefix (seqs.foldl max 0 + 1)

/-- `_persist`: the text, and then the record. -/
def persist (s : SourceStore F) (src : Source F) : Except HexaError Unit × SourceStore F :=
  match encodeUtf8 src.content with
  | none => (.error (.raised .unicodeEncodeError), s)
  | some bytes =>
    let s := { s with contentFiles := Dict.set src.sourceId bytes s.contentFiles }
    match dumpsSorted fileStyle src.toDict with
    | .error e => (.error (.raised (DumpsError.toPyError e)), s)
    | .ok text =>
      if Encodable text then
        (.ok (), { s with recordFiles := Dict.set src.sourceId src s.recordFiles })
      else (.error (.raised .unicodeEncodeError), s)

/-- `add`. -/
def add (s : SourceStore F) (new : NewSource F) : Except HexaError (Source F) × SourceStore F :=
  let src : Source F := {
    sourceId := s.nextId
    sourceType := new.sourceType
    title := new.title
    version := 1
    status := new.status
    supersedes := none
    supersededBy := none
    tags := new.tags
    claimKey := new.claimKey
    claimValue := new.claimValue
    createdAt := new.createdAt
    metadata := new.metadata.orEmpty
    content := new.content }
  match s.persist src with
  | (.error e, s) => (.error e, s)
  | (.ok (), s) => (.ok src, s.setRecord src.sourceId src)

/-- The text of a record, from its file if it has none. -/
def load (s : SourceStore F) (src : Source F) : Except HexaError (Source F) :=
  if src.content = [] then
    match Dict.get src.sourceId s.contentFiles with
    | none => .ok { src with content := [] }
    | some bytes =>
      match decodeUtf8 bytes with
      | none => .error (.raised .unicodeDecodeError)
      | some text => .ok { src with content := universalNewlines false text }
  else .ok src

/-- `get`. -/
def get (s : SourceStore F) (sourceId : PyStr) : Except HexaError (Source F) × SourceStore F :=
  match s.find sourceId with
  | none => (.error .keyError, s)
  | some src =>
    match s.load src with
    | .error e => (.error e, s)
    | .ok src => (.ok src, s.setRecord sourceId src)

/-- `set_status`. -/
def setStatus (s : SourceStore F) (sourceId : PyStr) (status : SourceStatus) :
    Except HexaError Unit × SourceStore F :=
  match s.get sourceId with
  | (.error e, s) => (.error e, s)
  | (.ok src, s) =>
    let src := { src with status := status }
    (s.setRecord sourceId src).persist src

/-- What the source supersedes. -/
def predecessor (s : SourceStore F) (sourceId : PyStr) : Option PyStr :=
  ((s.find sourceId).bind Source.supersedes).filter fun id => id ≠ []

/-- `_ancestors`: everything the source supersedes, transitively. -/
def ancestors (s : SourceStore F) (sourceId : PyStr) : List PyStr :=
  (Walk.walk s.predecessor (s.records.length + 1) [] (s.predecessor sourceId)).1

/-- `supersede`. -/
def supersede (s : SourceStore F) (oldId newId : PyStr) : Except HexaError Unit × SourceStore F :=
  match s.get oldId with
  | (.error e, s) => (.error e, s)
  | (.ok old, s) =>
    match s.get newId with
    | (.error e, s) => (.error e, s)
    | (.ok new, s) =>
      if oldId = newId then (.error (.raised .valueError), s)
      else if newId ∈ s.ancestors oldId then (.error (.raised .valueError), s)
      else
        let old := { old with status := .superseded, supersededBy := some newId }
        let new := { new with
          status := .current, supersedes := some oldId, supersededBy := none
          version := old.version + 1 }
        match ((s.setRecord oldId old).setRecord newId new).persist old with
        | (.error e, s) => (.error e, s)
        | (.ok (), s) => s.persist new

/-- The source that superseded this one, if it is there. -/
def successor (s : SourceStore F) (sourceId : PyStr) : Option PyStr :=
  ((s.find sourceId).bind Source.supersededBy).filter fun id => id ≠ [] ∧ (s.find id).isSome

/-- `current_chain_head`: the newest source of the chain. -/
def currentChainHead (s : SourceStore F) (sourceId : PyStr) : Option (Source F) :=
  if (s.find sourceId).isSome then
    s.find (Walk.follow s.successor (s.records.length + 1) [] sourceId)
  else none

/-- The record as a new process reads it: no text yet, and the metadata as it is
spelled. -/
def reloaded (src : Source F) : Source F := { src with metadata := readBack src.metadata, content := [] }

/-- The store opened again on its directory. -/
def reopen (s : SourceStore F) : SourceStore F :=
  { s with records := s.recordFiles.map fun p => (p.2.sourceId, reloaded p.2) }

/-! ### What the calls do to the records -/

/-- A record without its text. -/
def bare (src : Source F) : Source F := { src with content := [] }

/-- The records without their texts, which are read at any time. -/
def view (s : SourceStore F) (sourceId : PyStr) : Option (Source F) := (s.find sourceId).map bare

omit [PyFloat F] in
theorem find_setRecord (s : SourceStore F) (id : PyStr) (src : Source F) :
    (s.setRecord id src).find = Function.update s.find id (some src) := by
  funext k
  rw [find, setRecord, Dict.get_set]
  by_cases hk : id = k
  · subst hk
    rw [if_pos rfl, Function.update_self]
  · rw [if_neg hk, Function.update_of_ne fun h => hk h.symm, find]

omit [PyFloat F] in
theorem view_setRecord (s : SourceStore F) (id : PyStr) (src : Source F) :
    (s.setRecord id src).view = Function.update s.view id (some (bare src)) := by
  funext k
  rw [view, find_setRecord]
  by_cases hk : k = id
  · subst hk
    rw [Function.update_self, Function.update_self, Option.map_some]
  · rw [Function.update_of_ne hk, Function.update_of_ne hk, view]

/-- **What a persisting does**: the text is filed if it encodes, and then the record if that
can be spelled. -/
theorem persist_cases (s : SourceStore F) (src : Source F) :
    (encodeUtf8 src.content = none ∧ ∃ e, s.persist src = (.error e, s)) ∨
    ∃ bytes, encodeUtf8 src.content = some bytes ∧
      let filed := { s with contentFiles := Dict.set src.sourceId bytes s.contentFiles }
      ((∃ e, s.persist src = (.error e, filed)) ∨
        s.persist src =
          (.ok (), { filed with recordFiles := Dict.set src.sourceId src s.recordFiles })) := by
  unfold persist
  split
  · next heq => exact .inl ⟨heq, _, rfl⟩
  · next bytes heq =>
    refine .inr ⟨bytes, heq, ?_⟩
    simp only
    split
    · exact .inl ⟨_, rfl⟩
    · split_ifs
      · exact .inr rfl
      · exact .inl ⟨_, rfl⟩

@[simp] theorem records_persist (s : SourceStore F) (src : Source F) :
    (s.persist src).2.records = s.records := by
  rcases persist_cases s src with ⟨-, e, h⟩ | ⟨bytes, -, ⟨e, h⟩ | h⟩ <;> rw [h]

theorem view_persist (s : SourceStore F) (src : Source F) : (s.persist src).2.view = s.view := by
  funext k
  simp only [view, find, records_persist]

omit [PyFloat F] in
theorem bare_load {s : SourceStore F} {src src' : Source F} (h : s.load src = .ok src') :
    bare src' = bare src := by
  unfold load at h
  split at h
  · split at h
    · obtain rfl := Except.ok.inj h
      rfl
    · split at h
      · cases h
      · obtain rfl := Except.ok.inj h
        rfl
  · obtain rfl := Except.ok.inj h
    rfl

omit [PyFloat F] in
/-- A reading changes no record, up to its text. -/
theorem view_get (s : SourceStore F) (id : PyStr) : (s.get id).2.view = s.view := by
  unfold get
  cases hfind : s.find id with
  | none => rfl
  | some src =>
    simp only
    cases hload : s.load src with
    | error e => rfl
    | ok src' =>
      simp only
      rw [view_setRecord, bare_load hload]
      refine Function.update_eq_self_iff.mpr ?_
      rw [view, hfind, Option.map_some]

omit [PyFloat F] in
theorem view_of_get {s s' : SourceStore F} {id : PyStr} {src : Source F}
    (h : s.get id = (.ok src, s')) : s.view id = some (bare src) := by
  unfold get at h
  cases hfind : s.find id with
  | none =>
    rw [hfind] at h
    cases h
  | some r =>
    rw [hfind] at h
    simp only at h
    cases hload : s.load r with
    | error e =>
      rw [hload] at h
      cases h
    | ok r' =>
      rw [hload] at h
      obtain rfl := Except.ok.inj (Prod.mk.inj h).1
      rw [view, hfind, Option.map_some, bare_load hload]

/-- **What an addition does**: a record under the next id, or nothing. -/
theorem add_spec (s : SourceStore F) (new : NewSource F) :
    (s.add new).2.view = s.view ∨ ∃ src, (s.add new).1 = .ok src ∧
      (s.add new).2.view = Function.update s.view s.nextId (some (bare src)) ∧
      src.sourceId = s.nextId ∧ src.supersedes = none ∧ src.supersededBy = none := by
  unfold add
  simp only
  split
  · next heq =>
    left
    rw [← view_persist s, heq]
  · next s' heq =>
    right
    refine ⟨_, rfl, ?_, rfl, rfl, rfl⟩
    rw [view_setRecord]
    congr 1
    rw [← view_persist s, heq]

/-- **What a status does**: nothing, or it is set. -/
theorem setStatus_spec (s : SourceStore F) (id : PyStr) (status : SourceStatus) :
    (s.setStatus id status).2.view = s.view ∨ ∃ src, s.view id = some src ∧
      (s.setStatus id status).2.view =
        Function.update s.view id (some { src with status := status }) := by
  unfold setStatus
  have hview := view_get s id
  cases h : s.get id with
  | mk r t =>
    rw [h] at hview
    cases r with
    | error e => exact .inl hview
    | ok src =>
      right
      refine ⟨bare src, view_of_get h, ?_⟩
      simp only
      rw [view_persist, view_setRecord]
      exact congrArg (fun v => Function.update v id _) hview

/-- **What a supersession does**: nothing, or the old record gets its successor and the
new one its predecessor. -/
theorem supersede_spec (s : SourceStore F) (oldId newId : PyStr) :
    (s.supersede oldId newId).2.view = s.view ∨ ∃ old new, s.view oldId = some old ∧
      s.view newId = some new ∧ oldId ≠ newId ∧
      (∃ t : SourceStore F, t.view = s.view ∧ newId ∉ t.ancestors oldId) ∧
      (s.supersede oldId newId).2.view = Function.update (Function.update s.view oldId
          (some { old with status := .superseded, supersededBy := some newId }))
        newId (some { new with
          status := .current, supersedes := some oldId, supersededBy := none
          version := old.version + 1 }) := by
  unfold supersede
  have hview1 := view_get s oldId
  cases h1 : s.get oldId with
  | mk r1 s1 =>
    rw [h1] at hview1
    cases r1 with
    | error e => exact .inl hview1
    | ok old =>
      simp only
      have hview2 := view_get s1 newId
      cases h2 : s1.get newId with
      | mk r2 s2 =>
        rw [h2] at hview2
        have hview : s2.view = s.view := hview2.trans hview1
        cases r2 with
        | error e => exact .inl hview
        | ok new =>
          simp only
          split_ifs with hne hcycle
          · exact .inl hview
          · exact .inl hview
          · -- both are there, and the new one is no ancestor of the old
            right
            refine ⟨bare old, bare new, view_of_get h1, ?_, hne, ⟨s2, hview, hcycle⟩, ?_⟩
            · rw [← hview1]
              exact view_of_get h2
            · have hset : ∀ o n : Source F, ((s2.setRecord oldId o).setRecord newId n).view =
                  Function.update (Function.update s.view oldId (some (bare o))) newId
                    (some (bare n)) := by
                intro o n
                rw [view_setRecord, view_setRecord, hview]
              split
              · next heq =>
                have hfirst := congrArg (fun r => r.2.view) heq
                simp only [view_persist, hset] at hfirst
                exact hfirst.symm
              · next heq =>
                have hfirst := congrArg (fun r => r.2.view) heq
                simp only [view_persist, hset] at hfirst
                exact (view_persist _ _).trans hfirst.symm

end SourceStore

end Daryl
