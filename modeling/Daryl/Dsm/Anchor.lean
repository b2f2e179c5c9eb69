import Daryl.Dsm.Segments
import Daryl.Py.Eq
import Daryl.Py.Instant

/-!
# `dsm.anchor`: commitments before and after

A commitment is a record in an append-only log, sealed by the hash of its own other fields; the
record made after the action is to carry that hash.  Verification takes the last record of either
kind, compares their timestamps as strings, and their hashes only where both are there.  It does
not compute a hash, and it does not look at where the records stand in the log.

## Main definitions

* `readLog`, `findByIntent`, `verifyCommitment` — the reader.
* `preCommit`, `postCommit` — the records that are written.
* `Committed` — a sealed record, and behind it one that carries its hash.
* `Passes` — what verification tests of the last two records.

## Main results

* `findByIntent_eq_ok` — the records found are the last ones.
* `sealed_preCommit` — what is written before the action is sealed when it is read back.
* `verified_iff` — when a commitment is verified.
* `verified_committed_iff` — **when this says that something was committed.**
-/

namespace Daryl

namespace Anchor

open Py Json

variable {F : Type} [PyFloat F]

/-! ### Comparing -/

mutual

/-- `v < w`; `none` is the `TypeError`. -/
def pyLt : PyVal F → PyVal F → Option Bool
  | .str s, .str t => some (s < t)
  | .list vs, .list ws => pyLtList vs ws
  | .tuple vs, .tuple ws => pyLtList vs ws
  | v, w =>
    if (v.isNan || v.num?.isSome) && (w.isNan || w.num?.isSome) then
      -- `nan` is neither less nor more
      some ((v.num?.bind fun x => w.num?.map fun y => decide (x < y)).getD false)
    else none

/-- Lists compare at the first elements that differ. -/
def pyLtList : List (PyVal F) → List (PyVal F) → Option Bool
  | [], ws => some (!ws.isEmpty)
  | _ :: _, [] => some false
  | v :: vs, w :: ws => if pySame v w then pyLtList vs ws else pyLt v w

end

/-! ### The log -/

/-- The style of a line. -/
def anchorLineStyle : Style := ⟨false, true, true⟩

/-- The style of the text that is hashed. -/
def anchorStyle : Style := ⟨true, true, false⟩

/-- `read_log`: lines that are not JSON are passed over.  A missing file is empty. -/
def readLog (file : Option (List Byte)) : Except PyError (List (PyVal F)) :=
  match file with
  | none => .ok []
  | some bytes =>
    (textLines bytes).map fun lines =>
      lines.filterMap fun line => if strip line = [] then none else loads (strip line)

/-- The kinds of records with an intent. -/
inductive CommitKind
  | preCommit
  | postCommit
  deriving DecidableEq

/-- The type of a record of a kind. -/
def CommitKind.type : CommitKind → PyStr
  | .preCommit => py "pre_commit"
  | .postCommit => py "post_commit"

/-- The result of `find_by_intent`. -/
structure CommitPair (F : Type) where
  pre : Option (List (Key F × PyVal F))
  post : Option (List (Key F × PyVal F))

/-- The record of a kind. -/
def CommitPair.get (pair : CommitPair F) : CommitKind → Option (List (Key F × PyVal F))
  | .preCommit => pair.pre
  | .postCommit => pair.post

/-- One turn of the loop; what is no dict has no `get`. -/
def CommitPair.take (intentId : PyStr) (pair : CommitPair F) : PyVal F → Except PyError (CommitPair F)
  | .dict kvs => .ok (
    if pyEq (getNone (py "intent_id") kvs) (.str intentId) then
      if pyEq (getNone (py "type") kvs) (.str (py "pre_commit")) then { pair with pre := some kvs }
      else if pyEq (getNone (py "type") kvs) (.str (py "post_commit")) then
        { pair with post := some kvs }
      else pair
    else pair)
  | _ => .error .attributeError

/-- `find_by_intent`. -/
def findByIntent (intentId : PyStr) (records : List (PyVal F)) : Except PyError (CommitPair F) :=
  records.foldlM (CommitPair.take intentId) ⟨none, none⟩

/-! ### Verification -/

/-- What `verify_commitment` may raise. -/
inductive AnchorError
  | raised (e : PyError)
  | keyError
  deriving DecidableEq

/-- The statuses of a commitment. -/
inductive CommitStatus
  | verified
  | sequenceViolation
  | hashMismatch
  | incomplete
  deriving DecidableEq, Repr

/-- The result of `verify_commitment`; the time between the records is in microseconds. -/
structure CommitReport (F : Type) where
  intentId : PyStr
  status : CommitStatus
  preCommitAt : PyVal F
  postCommitAt : PyVal F
  timeDelta : Option ℤ

/-- `record["timestamp"]`. -/
def timestampOf (kvs : List (Key F × PyVal F)) : Except AnchorError (PyVal F) :=
  match dictGet (py "timestamp") kvs with
  | some v => .ok v
  | none => .error .keyError

omit [PyFloat F] in
theorem timestampOf_eq_ok {kvs : List (Key F × PyVal F)} {v : PyVal F} :
    timestampOf kvs = .ok v ↔ dictGet (py "timestamp") kvs = some v := by
  unfold timestampOf
  split <;> simp_all

/-- The time of a text, with `Z` for UTC. -/
def zuluTime (text : PyStr) : Option Datetime :=
  fromisoformat (replace (py "Z") (py "+00:00") text)

/-- The time between two texts, if both are times, and both are aware or both naive. -/
def timeDelta (preAt postAt : PyStr) : Option ℤ :=
  (zuluTime preAt).bind fun p => (zuluTime postAt).bind fun q =>
    if p.val.offset.isSome = q.val.offset.isSome then some (q.val.instant - p.val.instant) else none

/-- The hash that a record carries. -/
def commitmentHash (kvs : List (Key F × PyVal F)) : PyVal F := getNone (py "commitment_hash") kvs

/-- The tests of `verify_commitment`, on records with these timestamps. -/
def judgeCommit (intentId : PyStr) (pre post : List (Key F × PyVal F)) (preAt postAt : PyVal F) :
    Except AnchorError (CommitReport F) :=
  match pyLt postAt preAt with
  | none => .error (.raised .typeError)
  | some true => .ok ⟨intentId, .sequenceViolation, preAt, postAt, none⟩
  | some false =>
    if (commitmentHash pre).truthy && (commitmentHash post).truthy &&
        !pyEq (commitmentHash pre) (commitmentHash post) then
      .ok ⟨intentId, .hashMismatch, preAt, postAt, none⟩
    else
      match preAt, postAt with
      | .str a, .str b => .ok ⟨intentId, .verified, preAt, postAt, timeDelta a b⟩
      -- what is no string has no `replace`
      | _, _ => .error (.raised .attributeError)

/-- `verify_commitment`, on the records that were found. -/
def verifyPair (intentId : PyStr) : CommitPair F → Except AnchorError (CommitReport F)
  | ⟨none, none⟩ => .ok ⟨intentId, .incomplete, .none, .none, none⟩
  | ⟨some pre, none⟩ =>
    (timestampOf pre).map fun preAt => ⟨intentId, .incomplete, preAt, .none, none⟩
  | ⟨none, some post⟩ =>
    (timestampOf post).map fun postAt => ⟨intentId, .incomplete, .none, postAt, none⟩
  | ⟨some pre, some post⟩ =>
    (timestampOf pre).bind fun preAt => (timestampOf post).bind fun postAt =>
      judgeCommit intentId pre post preAt postAt

/-- `verify_commitment`. -/
def verifyCommitment (file : Option (List Byte)) (intentId : PyStr) :
    Except AnchorError (CommitReport F) :=
  match (readLog file : Except PyError (List (PyVal F))).bind (findByIntent intentId) with
  | .error e => .error (.raised e)
  | .ok pair => verifyPair intentId pair

/-! ### What is written -/

/-- `_sha256` of the JSON text of a value; the text is ASCII. -/
def hashJson (sha : Sha256) (v : PyVal F) : Except PyError PyStr :=
  match dumpsSorted anchorStyle v with
  | .ok text => .ok (hexdigest sha (utf8Bytes text))
  | .error e => .error (DumpsError.toPyError e)

/-- What is hashed; of a value that is no dict, string or bytes, the text that `str` makes of it. -/
inductive HashInput (F : Type)
  | dict (kvs : List (Key F × PyVal F))
  | str (s : PyStr)
  | bytes (bs : List Byte)
  | other (text : PyStr)

/-- `_sha256`. -/
def hashInput (sha : Sha256) : HashInput F → Except PyError PyStr
  | .dict kvs => hashJson sha (.dict kvs)
  | .bytes bs => .ok (hexdigest sha bs)
  | .str s | .other s =>
    if Encodable s then .ok (hexdigest sha (utf8Bytes s)) else .error .unicodeEncodeError

/-- The fields of the record of `pre_commit`, before its hash. -/
def preFields (intentId actionName paramsHash timestamp : PyStr) : List (PyStr × PyVal F) := [
  (py "type", .str (py "pre_commit")),
  (py "intent_id", .str intentId),
  (py "action_name", .str actionName),
  (py "params_hash", .str paramsHash),
  (py "timestamp", .str timestamp)]

/-- The record of `pre_commit`, at a reading of the clock. -/
def preCommit (sha : Sha256) (intentId actionName : PyStr) (params : PyVal F) (now : Datetime) :
    Except PyError (List (PyStr × PyVal F)) :=
  (hashJson sha (.dict (strItems [(py "intent_id", .str intentId),
    (py "action_name", .str actionName), (py "params", params)]))).bind fun paramsHash =>
      let record := preFields intentId actionName paramsHash now.isoformat
      (hashJson sha (.dict (strItems record))).map fun hash =>
        record ++ [(py "commitment_hash", .str hash)]

/-- `_sha256(data) if data is not None else None`. -/
def hashOrNull (sha : Sha256) (data : Option (HashInput F)) : Except PyError (PyVal F) :=
  match data with
  | none => .ok .none
  | some data => (hashInput sha data).map .str

/-- The record of `post_commit`, at a reading of the clock. -/
def postCommit (sha : Sha256) (intentId : PyStr) (resultData rawInput : Option (HashInput F))
    (commitmentHash : Option PyStr) (now : Datetime) : Except PyError (List (PyStr × PyVal F)) :=
  (hashOrNull sha resultData).bind fun resultHash => (hashOrNull sha rawInput).map fun inputHash => [
    (py "type", .str (py "post_commit")),
    (py "intent_id", .str intentId),
    (py "result_hash", resultHash),
    (py "input_hash", inputHash),
    (py "commitment_hash", (commitmentHash.map .str).getD .none),
    (py "timestamp", .str now.isoformat)]

/-- `_append_record`: the line of a record goes behind the file. -/
def appendRecord (file : Option (List Byte)) (record : List (PyStr × PyVal F)) :
    Except PyError (List Byte) :=
  match dumpsSorted anchorLineStyle (.dict (strItems record)) with
  | .error e => .error (DumpsError.toPyError e)
  | .ok text =>
    if Encodable text then .ok (file.getD [] ++ utf8Bytes (text ++ [nl]))
    else .error .unicodeEncodeError

/-! ### The records that are found -/

/-- A record of a kind, with an intent. -/
def IsRecord (intentId : PyStr) (kind : CommitKind) (kvs : List (Key F × PyVal F)) : Prop :=
  getNone (py "intent_id") kvs = .str intentId ∧ getNone (py "type") kvs = .str kind.type

/-- The last record of a kind. -/
def LastRecord (intentId : PyStr) (kind : CommitKind) (records : List (PyVal F))
    (kvs : List (Key F × PyVal F)) : Prop :=
  ∃ before after, records = before ++ .dict kvs :: after ∧ IsRecord intentId kind kvs ∧
    ∀ other, .dict other ∈ after → ¬IsRecord intentId kind other

/-- Every record is a dict. -/
def AllDicts (records : List (PyVal F)) : Prop := ∀ r ∈ records, ∃ kvs, r = .dict kvs

omit [PyFloat F] in
theorem not_lastRecord_nil (intentId : PyStr) (kind : CommitKind) (kvs : List (Key F × PyVal F)) :
    ¬LastRecord intentId kind [] kvs := by
  rintro ⟨before, after, h, -⟩
  exact absurd h.symm (List.append_ne_nil_of_right_ne_nil _ (List.cons_ne_nil _ _))

omit [PyFloat F] in
/-- A record behind the others is the last of its kind. -/
theorem lastRecord_concat {intentId : PyStr} {kind : CommitKind} {records : List (PyVal F)}
    {new kvs : List (Key F × PyVal F)} :
    LastRecord intentId kind (records ++ [.dict new]) kvs ↔
      IsRecord intentId kind new ∧ new = kvs ∨
        ¬IsRecord intentId kind new ∧ LastRecord intentId kind records kvs := by
  constructor
  · rintro ⟨before, after, h, hrecord, hlast⟩
    rcases List.eq_nil_or_concat' after with rfl | ⟨after, r, rfl⟩
    · obtain ⟨-, hnew⟩ := List.append_inj' h rfl
      obtain rfl : new = kvs := by simpa using hnew
      exact .inl ⟨hrecord, rfl⟩
    · rw [← List.cons_append, ← List.append_assoc] at h
      obtain ⟨hrecords, hnew⟩ := List.append_inj' h rfl
      obtain rfl : PyVal.dict new = r := by simpa using hnew
      refine .inr ⟨hlast new (List.mem_append_right _ List.mem_cons_self), before, after, hrecords,
        hrecord, fun other hother => hlast other (List.mem_append_left _ hother)⟩
  · rintro (⟨hrecord, rfl⟩ | ⟨hnew, before, after, rfl, hrecord, hlast⟩)
    · exact ⟨records, [], rfl, hrecord, fun _ h => by cases h⟩
    · refine ⟨before, after ++ [.dict new], by simp, hrecord, fun other hother => ?_⟩
      rcases List.mem_append.mp hother with hother | hother
      · exact hlast other hother
      · obtain rfl : other = new := by simpa using hother
        exact hnew

/-- A record takes the place of its kind. -/
theorem take_dict (intentId : PyStr) (pair : CommitPair F) (kvs : List (Key F × PyVal F)) :
    ∃ pair', CommitPair.take intentId pair (.dict kvs) = .ok pair' ∧
      ∀ kind, (IsRecord intentId kind kvs → pair'.get kind = some kvs) ∧
        (¬IsRecord intentId kind kvs → pair'.get kind = pair.get kind) := by
  refine ⟨_, rfl, fun kind => ?_⟩
  have hkinds : py "pre_commit" ≠ py "post_commit" := by decide
  unfold IsRecord
  split_ifs with hintent hpre hpost <;> rw [pyEq_str_right] at *
  · rw [hpre]
    cases kind with
    | preCommit => simp [CommitPair.get, CommitKind.type, hintent]
    | postCommit => simp [CommitPair.get, CommitKind.type, hkinds]
  · rw [hpost]
    cases kind with
    | preCommit => simp [CommitPair.get, CommitKind.type, hkinds.symm]
    | postCommit => simp [CommitPair.get, CommitKind.type, hintent]
  · cases kind with
    | preCommit => simp [CommitKind.type, hpre]
    | postCommit => simp [CommitKind.type, hpost]
  · simp [hintent]

/-- **The records found are the last ones**, if all records are dicts. -/
theorem findByIntent_of_dicts {records : List (PyVal F)} (h : AllDicts records) (intentId : PyStr) :
    ∃ pair, findByIntent intentId records = .ok pair ∧
      ∀ kind kvs, pair.get kind = some kvs ↔ LastRecord intentId kind records kvs := by
  induction records using List.reverseRecOn with
  | nil =>
    refine ⟨_, rfl, fun kind kvs => ?_⟩
    refine iff_of_false ?_ (not_lastRecord_nil intentId kind kvs)
    cases kind <;> exact nofun
  | append_singleton records r ih =>
    obtain ⟨new, rfl⟩ := h r (List.mem_append_right _ List.mem_cons_self)
    obtain ⟨pair, hpair, hlast⟩ := ih fun x hx => h x (List.mem_append_left _ hx)
    obtain ⟨pair', htake, hget⟩ := take_dict intentId pair new
    refine ⟨pair', ?_, fun kind kvs => ?_⟩
    · rw [findByIntent] at hpair ⊢
      rw [List.foldlM_append, hpair]
      exact (congrArg (· >>= pure) htake).trans (bind_pure _)
    · rw [lastRecord_concat, ← hlast]
      by_cases hnew : IsRecord intentId kind new
      · simp [(hget kind).1 hnew, hnew]
      · simp [(hget kind).2 hnew, hnew]

theorem allDicts_of_findByIntent {records : List (PyVal F)} {intentId : PyStr} {pair : CommitPair F}
    (h : findByIntent intentId records = .ok pair) : AllDicts records := by
  have hfold : ∀ (rs : List (PyVal F)) (p : CommitPair F),
      rs.foldlM (CommitPair.take intentId) p = .ok pair → AllDicts rs := by
    intro rs
    induction rs with
    | nil => exact fun _ _ => List.forall_mem_nil _
    | cons r rs ih =>
      intro p hp
      rw [List.foldlM_cons] at hp
      cases r with
      | dict kvs =>
        obtain ⟨p', hp', -⟩ := take_dict intentId p kvs
        rw [hp'] at hp
        exact List.forall_mem_cons.mpr ⟨⟨kvs, rfl⟩, ih p' hp⟩
      | _ => cases hp
  exact hfold records _ h

/-! ### What verification says -/

/-- What is tested of the last records: their timestamps are strings, in order as such, and if both
carry a hash it is the same. -/
structure Passes (pre post : List (Key F × PyVal F)) : Prop where
  times : ∃ a b, dictGet (py "timestamp") pre = some (.str a) ∧
    dictGet (py "timestamp") post = some (.str b) ∧ ¬b < a
  hashes : (commitmentHash pre).truthy = true → (commitmentHash post).truthy = true →
    pyEq (commitmentHash pre) (commitmentHash post) = true

theorem judgeCommit_verified {intentId : PyStr} {pre post : List (Key F × PyVal F)}
    {preAt postAt : PyVal F} :
    (∃ report, judgeCommit intentId pre post preAt postAt = .ok report ∧ report.status = .verified) ↔
      (∃ a b, preAt = .str a ∧ postAt = .str b ∧ ¬b < a) ∧
        ((commitmentHash pre).truthy = true → (commitmentHash post).truthy = true →
          pyEq (commitmentHash pre) (commitmentHash post) = true) := by
  unfold judgeCommit
  constructor
  · rintro ⟨report, hreport, hstatus⟩
    split at hreport
    · cases hreport
    · cases hreport
      cases hstatus
    · next hlt =>
      split_ifs at hreport with hhash
      · cases hreport
        cases hstatus
      · split at hreport
        · next a b =>
          refine ⟨⟨a, b, rfl, rfl, ?_⟩, fun hpre hpost => ?_⟩
          · rw [pyLt] at hlt
            exact of_decide_eq_false (Option.some.inj hlt)
          · simpa [hpre, hpost] using hhash
        · cases hreport
  · rintro ⟨⟨a, b, rfl, rfl, hlt⟩, hhash⟩
    have hnot : ((commitmentHash pre).truthy && (commitmentHash post).truthy &&
        !pyEq (commitmentHash pre) (commitmentHash post)) = false := by
      cases hpre : (commitmentHash pre).truthy with
      | false => rfl
      | true =>
        cases hpost : (commitmentHash post).truthy with
        | false => rfl
        | true => rw [hhash hpre hpost]; rfl
    rw [pyLt, decide_eq_false hlt]
    simp only [hnot, Bool.false_eq_true, if_false]
    exact ⟨_, rfl, rfl⟩

/-- Two records are verified iff they pass. -/
theorem verifyPair_verified {intentId : PyStr} {pair : CommitPair F} :
    (∃ report, verifyPair intentId pair = .ok report ∧ report.status = .verified) ↔
      ∃ pre post, pair = ⟨some pre, some post⟩ ∧ Passes pre post := by
  constructor
  · rintro ⟨report, hreport, hstatus⟩
    obtain ⟨_ | pre, _ | post⟩ := pair
    · cases hreport
      cases hstatus
    · rw [verifyPair] at hreport
      cases hpost : timestampOf post <;> rw [hpost] at hreport <;> cases hreport
      cases hstatus
    · rw [verifyPair] at hreport
      cases hpre : timestampOf pre <;> rw [hpre] at hreport <;> cases hreport
      cases hstatus
    · refine ⟨pre, post, rfl, ?_⟩
      rw [verifyPair] at hreport
      cases hpre : timestampOf pre with
      | error e =>
        rw [hpre] at hreport
        cases hreport
      | ok preAt =>
        cases hpost : timestampOf post with
        | error e =>
          rw [hpre, hpost] at hreport
          cases hreport
        | ok postAt =>
          rw [hpre, hpost] at hreport
          obtain ⟨⟨a, b, rfl, rfl, hlt⟩, hhash⟩ := judgeCommit_verified.mp ⟨report, hreport, hstatus⟩
          exact ⟨⟨a, b, timestampOf_eq_ok.mp hpre, timestampOf_eq_ok.mp hpost, hlt⟩, hhash⟩
  · rintro ⟨pre, post, rfl, ⟨a, b, hpre, hpost, hlt⟩, hhash⟩
    rw [verifyPair, timestampOf_eq_ok.mpr hpre, timestampOf_eq_ok.mpr hpost]
    exact judgeCommit_verified.mpr ⟨⟨a, b, rfl, rfl, hlt⟩, hhash⟩

/-- **When a commitment is verified**: the last records of its intent are there, and pass. -/
theorem verified_iff {file : Option (List Byte)} {intentId : PyStr} :
    (∃ report : CommitReport F, verifyCommitment file intentId = .ok report ∧
      report.status = .verified) ↔
      ∃ records : List (PyVal F), readLog file = .ok records ∧ AllDicts records ∧
        ∃ pre post, LastRecord intentId .preCommit records pre ∧
          LastRecord intentId .postCommit records post ∧ Passes pre post := by
  unfold verifyCommitment
  cases hread : (readLog file : Except PyError (List (PyVal F))) with
  | error e => simp [Except.bind]
  | ok records =>
    simp only [Except.bind, Except.ok.injEq, exists_eq_left']
    cases hfind : findByIntent intentId records with
    | error e =>
      refine iff_of_false (by simp) fun h => ?_
      obtain ⟨pair, hpair, -⟩ := findByIntent_of_dicts h.1 intentId
      rw [hfind] at hpair
      cases hpair
    | ok pair =>
      have hdicts := allDicts_of_findByIntent hfind
      obtain ⟨pair', hpair, hlast⟩ := findByIntent_of_dicts hdicts intentId
      obtain rfl : pair = pair' := Except.ok.inj (hfind.symm.trans hpair)
      rw [and_iff_right hdicts]
      refine verifyPair_verified.trans (exists₂_congr fun pre post => ?_)
      rw [← and_assoc, ← hlast, ← hlast]
      refine and_congr_left fun _ => ⟨?_, ?_⟩
      · rintro rfl
        exact ⟨rfl, rfl⟩
      · rintro ⟨hpre, hpost⟩
        obtain ⟨p, q⟩ := pair
        cases hpre
        cases hpost
        rfl

/-- A record is sealed: its hash is that of its own other fields. -/
def Sealed (sha : Sha256) (kvs : List (Key F × PyVal F)) : Prop :=
  ∃ hash, commitmentHash kvs = .str hash ∧
    hashJson sha (.dict (kvs.filter fun kv => kv.1.str? ≠ some (py "commitment_hash"))) = .ok hash

/-! ### What is written is sealed -/

theorem sortDictsItems_texts {ps : List (PyStr × PyVal F)} (h : ∀ p ∈ ps, ∃ s, p.2 = .str s) :
    sortDictsItems (strItems ps) = some (strItems ps) := by
  induction ps with
  | nil => rfl
  | cons p ps ih =>
    obtain ⟨k, v⟩ := p
    obtain ⟨s, hs⟩ := h _ List.mem_cons_self
    obtain rfl : v = .str s := hs
    have hrest := ih fun x hx => h x (List.mem_cons_of_mem _ hx)
    rw [strItems, List.map_cons, ← strItems, sortDictsItems, hrest]
    rfl

/-- **A record of texts is sealed when it is read back**, if its hash is over the other fields. -/
theorem sealed_of_texts {sha : Sha256} {ps : List (PyStr × PyVal F)}
    (hkeys : (ps.map Prod.fst ++ [py "commitment_hash"]).Nodup) (htexts : ∀ p ∈ ps, ∃ s, p.2 = .str s)
    {hash text : PyStr} (hhash : hashJson sha (.dict (strItems ps)) = .ok hash)
    (htext : dumpsSorted anchorLineStyle
      (.dict (strItems (ps ++ [(py "commitment_hash", (.str hash : PyVal F))]))) = .ok text) :
    ∃ kvs : List (Key F × PyVal F), loads (strip text) = some (.dict kvs) ∧ Sealed sha kvs ∧
      ∀ p ∈ ps, dictGet p.1 kvs = some p.2 := by
  have hall : ∀ p ∈ ps ++ [(py "commitment_hash", (.str hash : PyVal F))], ∃ s, p.2 = .str s := by
    rw [List.forall_mem_append, List.forall_mem_singleton]
    exact ⟨htexts, hash, rfl⟩
  obtain ⟨qs, hperm, hlt, hqs⟩ := @exists_sortItems_strItems F (PyVal F) _
    (ps ++ [(py "commitment_hash", .str hash)]) (by rwa [List.map_append])
  obtain ⟨w, hw, hprint⟩ := dumpsSorted_eq_ok.mp htext
  rw [sortDicts, sortDictsItems_texts hall, Option.bind_some, hqs, Option.map_some,
    Option.some.injEq] at hw
  subst hw
  have hnodup : (qs.map Prod.fst).Nodup := hlt.imp fun h => ne_of_lt h
  have hform : (qs.map fun p => (p.1, form p.2)) = qs := by
    conv_rhs => rw [← List.map_id qs]
    refine List.map_congr_left fun p hp => ?_
    obtain ⟨s, hs⟩ := hall p (hperm.mem_iff.mp hp)
    rw [hs, id, ← hs]
    exact Prod.ext rfl (by rw [hs]; rfl)
  refine ⟨strItems qs, ?_, ⟨hash, ?_, ?_⟩, fun p hp => ?_⟩
  · rw [strip_print_dict hprint, loads_print hprint (by simp [anchorLineStyle]),
      form_strItems hnodup, hform]
  · exact congrArg (fun v => Option.getD v PyVal.none)
      (dictGet_of_mem hnodup (hperm.mem_iff.mpr (List.mem_append_right _ List.mem_cons_self)))
  · -- without its hash, the record has the fields in another order
    have hfilter : (strItems qs : List (Key F × PyVal F)).filter
        (fun kv => kv.1.str? ≠ some (py "commitment_hash")) =
          strItems (qs.filter fun p => p.1 ≠ py "commitment_hash") := by
      rw [strItems, List.filter_map, strItems]
      simp [Function.comp_def, Key.str?]
    have hfields : (ps ++ [(py "commitment_hash", (.str hash : PyVal F))]).filter
        (fun p => p.1 ≠ py "commitment_hash") = ps := by
      rw [List.filter_append, List.filter_cons_of_neg (by simp), List.filter_nil, List.append_nil,
        List.filter_eq_self]
      intro p hp
      rw [List.nodup_append] at hkeys
      exact decide_eq_true (hkeys.2.2 p.1 (List.mem_map_of_mem hp) _ List.mem_cons_self)
    have hperm' : (qs.filter fun p => p.1 ≠ py "commitment_hash").Perm ps := hfields ▸ hperm.filter _
    have hlt' : ((qs.filter fun p => p.1 ≠ py "commitment_hash").map Prod.fst).Pairwise (· < ·) :=
      hlt.sublist (List.filter_sublist.map _)
    have htexts' : ∀ p ∈ qs.filter fun p => p.1 ≠ py "commitment_hash", ∃ s, p.2 = .str s :=
      fun p hp => htexts p (hperm'.mem_iff.mp hp)
    have hsame : sortDicts (.dict (strItems (qs.filter fun p => p.1 ≠ py "commitment_hash"))) =
        sortDicts (.dict (strItems ps) : PyVal F) := by
      rw [sortDicts, sortDicts, sortDictsItems_texts htexts', sortDictsItems_texts htexts,
        Option.bind_some, Option.bind_some, sortItems_strItems hlt', sortItems_perm hperm' hlt']
    rw [hfilter, ← hhash, hashJson, hashJson, dumpsSorted, dumpsSorted, hsame]
  · exact dictGet_of_mem hnodup (hperm.mem_iff.mpr (List.mem_append_left _ hp))

/-- **What `pre_commit` writes is a sealed record of its intent.** -/
theorem sealed_preCommit {sha : Sha256} {intentId actionName : PyStr} {params : PyVal F}
    {now : Datetime} {record : List (PyStr × PyVal F)} {text : PyStr}
    (h : preCommit sha intentId actionName params now = .ok record)
    (htext : dumpsSorted anchorLineStyle (.dict (strItems record)) = .ok text) :
    ∃ kvs : List (Key F × PyVal F), loads (strip text) = some (.dict kvs) ∧ Sealed sha kvs ∧
      IsRecord intentId .preCommit kvs := by
  unfold preCommit at h
  cases hparams : hashJson sha (.dict (strItems [(py "intent_id", (.str intentId : PyVal F)),
      (py "action_name", .str actionName), (py "params", params)])) with
  | error e =>
    rw [hparams] at h
    cases h
  | ok paramsHash =>
    rw [hparams] at h
    simp only [Except.bind] at h
    cases hhash : hashJson sha (.dict (strItems
        (preFields intentId actionName paramsHash now.isoformat : List (PyStr × PyVal F)))) with
    | error e =>
      rw [hhash] at h
      cases h
    | ok hash =>
      rw [hhash] at h
      obtain rfl := Except.ok.inj h
      have hkeys : ((preFields intentId actionName paramsHash now.isoformat :
          List (PyStr × PyVal F)).map Prod.fst ++ [py "commitment_hash"]).Nodup := by
        rw [show (preFields intentId actionName paramsHash now.isoformat :
          List (PyStr × PyVal F)).map Prod.fst = [py "type", py "intent_id", py "action_name",
            py "params_hash", py "timestamp"] from rfl]
        decide +kernel
      have htexts : ∀ p ∈ (preFields intentId actionName paramsHash now.isoformat :
          List (PyStr × PyVal F)), ∃ s, p.2 = .str s := by
        simp [preFields]
      obtain ⟨kvs, hloads, hsealed, hget⟩ := sealed_of_texts hkeys htexts hhash htext
      refine ⟨kvs, hloads, hsealed, ?_, ?_⟩
      · rw [getNone, hget (py "intent_id", .str intentId) (by simp [preFields])]
        rfl
      · rw [getNone, hget (py "type", .str (py "pre_commit")) (by simp [preFields])]
        rfl

/-! ### What is verified was committed -/

/-- Something was committed: a sealed record, and behind it in the log one with its hash. -/
def Committed (sha : Sha256) (intentId : PyStr) (records : List (PyVal F)) : Prop :=
  ∃ before pre between post after,
    records = before ++ .dict pre :: (between ++ .dict post :: after) ∧
      IsRecord intentId .preCommit pre ∧ Sealed sha pre ∧
      IsRecord intentId .postCommit post ∧ commitmentHash post = commitmentHash pre

/-- The log backs what is verified: where its last records of either kind pass, it has a sealed
record with its hash behind it. -/
def Backed (sha : Sha256) (intentId : PyStr) (records : List (PyVal F)) : Prop :=
  ∀ pre post, LastRecord intentId .preCommit records pre → LastRecord intentId .postCommit records post →
    Passes pre post → Committed sha intentId records

/-- **Verification says that something was committed iff the log backs it.** -/
theorem verified_committed_iff (sha : Sha256) (file : Option (List Byte)) (intentId : PyStr) :
    (∀ report : CommitReport F, verifyCommitment file intentId = .ok report →
      report.status = .verified →
        ∃ records : List (PyVal F), readLog file = .ok records ∧ Committed sha intentId records) ↔
      ∀ records : List (PyVal F), readLog file = .ok records → AllDicts records →
        Backed sha intentId records := by
  constructor
  · intro h records hread hdicts pre post hpre hpost hpasses
    obtain ⟨report, hreport, hstatus⟩ :=
      verified_iff.mpr ⟨records, hread, hdicts, pre, post, hpre, hpost, hpasses⟩
    obtain ⟨records', hread', hcommitted⟩ := h report hreport hstatus
    obtain rfl : records = records' := Except.ok.inj (hread.symm.trans hread')
    exact hcommitted
  · intro h report hreport hstatus
    obtain ⟨records, hread, hdicts, pre, post, hpre, hpost, hpasses⟩ :=
      verified_iff.mp ⟨report, hreport, hstatus⟩
    exact ⟨records, hread, h records hread hdicts pre post hpre hpost hpasses⟩

/-- A log of two records, the second of which carries no hash. -/
def unsealedLog : List Byte := utf8Bytes (
  py "\x7b\"commitment_hash\": \"0\", \"intent_id\": \"i\", \"timestamp\": \"1\", " ++
    py "\"type\": \"pre_commit\"\x7d\n" ++
  py "\x7b\"commitment_hash\": null, \"intent_id\": \"i\", \"timestamp\": \"2\", " ++
    py "\"type\": \"post_commit\"\x7d\n")

/-- The record is no post-commit, or has no hash. -/
def isUnsealed : PyVal FloatLit → Bool
  | .dict kvs => !pyEq (getNone (py "type") kvs) (.str (py "post_commit")) ||
    (commitmentHash kvs).isNone
  | _ => true

/-- Records without a hash are verified, whatever the hash function. -/
theorem verified_not_committed :
    ¬∃ sha : Sha256, ∀ (file : Option (List Byte)) (intentId : PyStr) (report : CommitReport FloatLit),
      verifyCommitment file intentId = .ok report → report.status = .verified →
        ∃ records : List (PyVal FloatLit), readLog file = .ok records ∧ Committed sha intentId records := by
  rintro ⟨sha, hclaim⟩
  have hverified : (verifyCommitment (some unsealedLog) (py "i") : Except AnchorError
      (CommitReport FloatLit)).toOption.map CommitReport.status = some .verified := by
    decide +kernel
  obtain ⟨report, hreport, hstatus⟩ := Option.map_eq_some_iff.mp hverified
  have hok : verifyCommitment (some unsealedLog) (py "i") = .ok report := by
    cases h : (verifyCommitment (some unsealedLog) (py "i") :
        Except AnchorError (CommitReport FloatLit)) with
    | error e =>
      rw [h] at hreport
      cases hreport
    | ok r =>
      rw [h] at hreport
      cases hreport
      rfl
  obtain ⟨records, hread, before, pre, between, post, after, rfl, -, ⟨hash, hpre, -⟩, hpost, hhash⟩ :=
    hclaim _ _ report hok hstatus
  -- no record of the second kind has a hash
  have hnull : (readLog (some unsealedLog) : Except PyError (List (PyVal FloatLit))).toOption.map
      (fun records => records.all isUnsealed) = some true := by
    decide +kernel
  rw [hread] at hnull
  have hlast : (!pyEq (getNone (py "type") post) (.str (py "post_commit")) ||
      (commitmentHash post).isNone) = true :=
    List.all_eq_true.mp (Option.some.inj hnull) (.dict post) (by simp)
  have htype : getNone (py "type") post = .str (py "post_commit") := hpost.2
  rw [htype, hhash, hpre] at hlast
  exact absurd hlast (by simp [PyVal.isNone])

end Anchor

end Daryl
