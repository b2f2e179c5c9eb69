import Daryl.Dsm.Segments
import Daryl.Json.Ascii
import Daryl.Lib.Pointwise
import Daryl.Lib.Run
import Daryl.Py.Eq

/-!
# Traces and their replay

`TraceWriter.write` appends a record with the hash of its other fields and the hash of the record
before it.  `replay_session` reads the records of one session back, hashes their fields again and
goes along the links.  The two modules have a canonical JSON each: the writer leaves what is not
ASCII as it is, the replay escapes it.

What the file system does with a trace file that is missing is left out, as are the texts of the
errors a replay reports: a `Fault` holds what they show.

## Main definitions

* `TraceCall`, `TraceWriter`, `writeTrace` — the writer.
* `parseTraceLine`, `Replay.verifyRecord`, `Replay.verifyChain`, `replaySession` — the replay.
* `TraceLog`, `traceStep` — a writer and the calls it wrote.
* `TraceCall.Plain` — a record that both modules hash alike.

## Main results

* `recordValid_iff` — **a line is valid exactly when its record is plain.**
* `strictReplay_iff` — **the lines of a log are valid exactly when its records are plain, and a
  log of one session then replays.**
* `replaysEach_iff` — **every session of a log replays exactly when the log has one session, and
  its records are plain.**
-/

namespace Daryl

open Py Json Run

variable {F : Type} [PyFloat F]

/-! ### The writer -/

/-- The style of the writer's `canonical_json`. -/
def traceStyle : Style := ⟨false, true, false⟩

/-- The style of a line. -/
def traceLineStyle : Style := ⟨false, true, true⟩

/-- The style of the replay's `canonical_json`. -/
def replayStyle : Style := ⟨true, true, false⟩

/-- `compute_step_hash`, in either module, of a record without its `step_hash`. -/
def computeStepHash (sha : Sha256) (st : Style) (record : PyVal F) : Except PyError PyStr :=
  match dumpsSorted st record with
  | .ok text => hashText sha text
  | .error err => .error (DumpsError.toPyError err)

/-- A value whose dicts hold no key twice. -/
abbrev TraceData (F : Type) [PyFloat F] := {v : PyVal F // distinct v}

/-- A call of `write`, with what it takes from the clock and from `uuid4`. -/
structure TraceCall (F : Type) [PyFloat F] where
  actionType : PyStr
  intent : TraceData F
  scope : TraceData F
  input : TraceData F
  output : TraceData F
  ok : Bool
  error : TraceData F
  stateBefore : TraceData F
  stateAfter : TraceData F
  sessionId : Option PyStr
  ts : Datetime
  traceId : PyStr
  traceId_ne_nil : traceId ≠ []

/-- `session_id or "default"`. -/
def TraceCall.session (c : TraceCall F) : PyStr :=
  match c.sessionId with
  | some s => if s = [] then py "default" else s
  | none => py "default"

/-- A hash, or `None`. -/
def hashOrNone : Option PyStr → PyVal F
  | some s => .str s
  | none => .none

/-- The fields of a record but for its hashes. -/
def TraceCall.fields (c : TraceCall F) : List (PyStr × PyVal F) :=
  [(py "trace_id", .str c.traceId), (py "ts", .str c.ts.isoformat),
    (py "session_id", .str c.session), (py "action_type", .str c.actionType),
    (py "intent", c.intent.val), (py "scope", c.scope.val), (py "input", c.input.val),
    (py "output", c.output.val), (py "ok", .bool c.ok), (py "error", c.error.val),
    (py "state_before", c.stateBefore.val), (py "state_after", c.stateAfter.val)]

/-- The items of a record but for its `step_hash`. -/
def TraceCall.items (c : TraceCall F) (prevStepHash : Option PyStr) : List (PyStr × PyVal F) :=
  c.fields ++ [(py "prev_step_hash", hashOrNone prevStepHash)]

/-- The items of a record. -/
def TraceCall.record (c : TraceCall F) (prevStepHash : Option PyStr) (stepHash : PyStr) :
    List (PyStr × PyVal F) :=
  c.items prevStepHash ++ [(py "step_hash", .str stepHash)]

/-- A `TraceWriter`, and its file. -/
structure TraceWriter where
  lastStepHash : Option PyStr
  file : List Byte
  deriving DecidableEq

/-- `TraceWriter.write`. -/
def writeTrace (sha : Sha256) (w : TraceWriter) (c : TraceCall F) :
    Except PyError (PyVal F) × TraceWriter :=
  match computeStepHash sha traceStyle (.dict (strItems (c.items w.lastStepHash))) with
  | .error err => (.error err, w)
  | .ok stepHash =>
    let data : PyVal F := .dict (strItems (c.record w.lastStepHash stepHash))
    let w' := { w with lastStepHash := some stepHash }
    match dumps traceLineStyle data with
    | .error err => (.error (DumpsError.toPyError err), w')
    | .ok line =>
      match encodeUtf8 (line ++ [nl]) with
      | none => (.error .unicodeEncodeError, w')
      | some bs => (.ok data, { w' with file := w.file ++ bs })

/-! ### The replay -/

/-- `k in v`. -/
def pyContains (k : PyStr) : PyVal F → Except PyError Bool
  | .dict kvs => .ok (dictGet k kvs).isSome
  | .list vs | .tuple vs => .ok (pyIn (.str k) vs)
  | .str s => .ok (s.tails.any k.isPrefixOf)
  | _ => .error .typeError

/-- `required_fields`. -/
def requiredFields : List PyStr :=
  [py "trace_id", py "ts", py "session_id", py "action_type", py "ok", py "step_hash"]

/-- A `TraceRecord` of the replay. -/
structure TraceRecord (F : Type) where
  traceId : PyVal F
  ts : PyVal F
  sessionId : PyVal F
  actionType : PyVal F
  intent : PyVal F
  ok : PyVal F
  error : PyVal F
  stateBefore : PyVal F
  stateAfter : PyVal F
  prevStepHash : PyVal F
  stepHash : PyVal F
  rawLine : PyStr
  lineNumber : ℕ

/-- The record of a dict. -/
def traceRecord (kvs : List (Key F × PyVal F)) (rawLine : PyStr) (lineNumber : ℕ) :
    TraceRecord F where
  traceId := getNone (py "trace_id") kvs
  ts := getNone (py "ts") kvs
  sessionId := getNone (py "session_id") kvs
  actionType := getNone (py "action_type") kvs
  intent := (dictGet (py "intent") kvs).getD (.str [])
  ok := getNone (py "ok") kvs
  error := getNone (py "error") kvs
  stateBefore := getNone (py "state_before") kvs
  stateAfter := getNone (py "state_after") kvs
  prevStepHash := getNone (py "prev_step_hash") kvs
  stepHash := getNone (py "step_hash") kvs
  rawLine := rawLine
  lineNumber := lineNumber

/-- `parse_trace_line`.  What is no dict is a `TypeError`, at the first `in` or at the first
field. -/
def parseTraceLine (line : PyStr) (lineNumber : ℕ) : Except PyError (Option (TraceRecord F)) :=
  if strip line = [] then .ok none
  else
    match loads (strip line) with
    | none => .ok none
    | some (data : PyVal F) =>
      (requiredFields.allM fun field => pyContains field data).bind fun found =>
        if found then
          match data with
          | .dict kvs => .ok (some (traceRecord kvs (strip line) lineNumber))
          | _ => .error .typeError
        else .ok none

/-- What a replay reports of a line. -/
inductive Fault (F : Type)
  | corrupted
  | mismatch (computed : PyStr) (stored : PyVal F)
  | computation
  | noTraceId
  | noSessionId
  | noActionType
  | firstLinked
  | noPrevious
  | brokenChain (prevStepHash previous : PyVal F)

/-- `v[:16]` is an error, and is taken: of a number, or a dict, that is not empty. -/
def sliceFails : PyVal F → Bool
  | .str _ | .list _ | .tuple _ => false
  | v => v.truthy

/-- The required fields of `verify_record`. -/
def checkFields (r : TraceRecord F) : Bool × Option (Fault F) :=
  if r.traceId.truthy = false then (false, some .noTraceId)
  else if r.sessionId.truthy = false then (false, some .noSessionId)
  else if r.actionType.truthy = false then (false, some .noActionType)
  else (true, none)

/-- `verify_record`: whether the record is valid, and what is wrong with it. -/
def Replay.verifyRecord (sha : Sha256) (strict : Bool) (r : TraceRecord F) :
    Bool × Option (Fault F) :=
  match (loads r.rawLine : Option (PyVal F)) with
  | some (.dict rawData) =>
    let hashInput := rawData.filter fun kv => kv.1.str? != some (py "step_hash")
    match computeStepHash sha replayStyle (.dict hashInput) with
    | .error _ => (false, some .computation)
    | .ok computed =>
      let stored := getNone (py "step_hash") rawData
      if pyEq (.str computed) stored then checkFields r
      else if sliceFails stored then (false, some .computation)
      else (!strict, some (.mismatch computed stored))
  -- a record is made of a dict
  | _ => (false, some .computation)

/-- `record.prev_step_hash not in [None, ""]`. -/
def linked (v : PyVal F) : Bool :=
  match v with
  | .none => false
  | .str s => s ≠ []
  | _ => true

/-- The loop of `verify_chain`, behind a record. -/
def verifyLinks : PyVal F → List (TraceRecord F) → List (ℕ × Fault F)
  | _, [] => []
  | previous, r :: rs =>
    (if previous.isNone then [(r.lineNumber, .noPrevious)]
      else if pyEq r.prevStepHash previous then []
      else [(r.lineNumber, .brokenChain r.prevStepHash previous)]) ++ verifyLinks r.stepHash rs

/-- `verify_chain`. -/
def Replay.verifyChain : List (TraceRecord F) → List (ℕ × Fault F)
  | [] => []
  | r :: rs =>
    (if linked r.prevStepHash then [(r.lineNumber, .firstLinked)] else []) ++
      verifyLinks r.stepHash rs

/-- What the loop of `replay_session` has gathered. -/
structure Gathering (F : Type) where
  records : List (TraceRecord F)
  errors : List (ℕ × Fault F)
  corruptRecords : ℕ
  missingHashRecords : ℕ

/-- One turn of the loop of `replay_session`. -/
def gatherLine (sha : Sha256) (sessionId : PyStr) (strict : Bool) (g : Gathering F)
    (line : PyStr × ℕ) : Except PyError (Gathering F) :=
  (parseTraceLine line.1 line.2).map fun
    | none =>
      if strip line.1 = [] then g
      else { g with
        corruptRecords := g.corruptRecords + 1
        errors := g.errors ++ [(line.2, .corrupted)] }
    | some r =>
      if pyEq r.sessionId (.str sessionId) then
        let v := Replay.verifyRecord sha strict r
        let errors := g.errors ++ (v.2.map fun fault => (r.lineNumber, fault)).toList
        if v.1 then { g with records := g.records ++ [r] }
        else if strict then { g with corruptRecords := g.corruptRecords + 1, errors := errors }
        else { g with missingHashRecords := g.missingHashRecords + 1, errors := errors }
      else g

/-- `status`. -/
inductive ReplayStatus
  | ok
  | divergence
  | corrupt
  deriving DecidableEq, Repr

/-- A `ReplayReport`. -/
structure ReplayReport (F : Type) where
  sessionId : PyStr
  totalRecords : ℕ
  verifiedRecords : ℕ
  corruptRecords : ℕ
  missingHashRecords : ℕ
  brokenChainRecords : ℕ
  firstTimestamp : Option (PyVal F)
  lastTimestamp : Option (PyVal F)
  status : ReplayStatus
  errors : List (ℕ × Fault F)

/-- `records[:limit]`, if there is a limit. -/
def limited (limit : Option ℕ) (records : List (TraceRecord F)) : List (TraceRecord F) :=
  match limit with
  | none | some 0 => records
  | some n => records.take n

/-- The end of `replay_session`. -/
def replayReport (sessionId : PyStr) (limit : Option ℕ) (g : Gathering F) : ReplayReport F :=
  let records := limited limit g.records
  let chainErrors := Replay.verifyChain records
  { sessionId := sessionId
    totalRecords := records.length
    verifiedRecords := records.length - chainErrors.length
    corruptRecords := g.corruptRecords
    missingHashRecords := g.missingHashRecords
    brokenChainRecords := chainErrors.length
    firstTimestamp := records.head?.map TraceRecord.ts
    lastTimestamp := records.getLast?.map TraceRecord.ts
    status := if 0 < g.corruptRecords then .corrupt
      else if chainErrors ≠ [] then .divergence else .ok
    errors := g.errors ++ chainErrors }

/-- `replay_session`, on the bytes of the trace file. -/
def replaySession (sha : Sha256) (traceFile : List Byte) (sessionId : PyStr) (strict : Bool)
    (limit : Option ℕ) : Except PyError (ReplayReport F) :=
  (textLines traceFile).bind fun lines =>
    ((lines.zipIdx 1).foldlM (gatherLine sha sessionId strict) ⟨[], [], 0, 0⟩).map
      (replayReport sessionId limit)

/-! ### Records that were written -/

theorem computeStepHash_eq_ok {sha : Sha256} {st : Style} {v : PyVal F} {h : PyStr} :
    computeStepHash sha st v = .ok h ↔ ∃ text, dumpsSorted st v = .ok text ∧ Encodable text ∧
      h = hexdigest sha (utf8Bytes text) := by
  unfold computeStepHash
  cases hdumps : dumpsSorted st v with
  | error err => simp
  | ok text =>
    dsimp only
    rw [hashText_eq_ok]
    simp

/-- The action type is not empty, the strings of the fields are below `DEL`, and the keys of every
dict are in the same order as they are and as texts. -/
def TraceCall.Plain (c : TraceCall F) : Prop :=
  c.actionType ≠ [] ∧ ∀ p ∈ c.fields, eachStr Ascii p.2 ∧ stable p.2 = true

theorem TraceCall.session_ne_nil (c : TraceCall F) : c.session ≠ [] := by
  unfold session
  split
  · split_ifs with h
    · decide
    · exact h
  · decide

theorem ascii_hexdigest (sha : Sha256) (bs : List Byte) : Ascii (hexdigest sha bs) := by
  intro c hc
  have hdigit : ∀ d : Fin 16, (hexDigit d).val < 127 := by decide
  obtain ⟨d, -, rfl⟩ := List.mem_map.mp hc
  exact hdigit d

/-- The names of the fields that are hashed. -/
def traceNames : List PyStr :=
  [py "trace_id", py "ts", py "session_id", py "action_type", py "intent", py "scope", py "input",
    py "output", py "ok", py "error", py "state_before", py "state_after", py "prev_step_hash"]

theorem map_fst_items (c : TraceCall F) (prev : Option PyStr) :
    (c.items prev).map Prod.fst = traceNames := rfl

theorem nodup_items (c : TraceCall F) (prev : Option PyStr) :
    ((c.items prev).map Prod.fst).Nodup := (by decide : traceNames.Nodup)

theorem nodup_record (c : TraceCall F) (prev : Option PyStr) (stepHash : PyStr) :
    ((c.record prev stepHash).map Prod.fst).Nodup :=
  (by decide : (traceNames ++ [py "step_hash"]).Nodup)

/-- A record is distinct, as what the caller passes is. -/
theorem distinct_items (c : TraceCall F) (prev : Option PyStr) :
    distinct (.dict (strItems (c.items prev))) := by
  refine ⟨?_, ?_⟩
  · rw [distinctItems_iff, strItems, List.forall_mem_map]
    have hprev : distinct (hashOrNone prev : PyVal F) := by cases prev <;> exact trivial
    rw [TraceCall.items, List.forall_mem_append, List.forall_mem_singleton]
    refine ⟨?_, hprev⟩
    simp only [TraceCall.fields, List.forall_mem_cons]
    exact ⟨trivial, trivial, trivial, trivial, c.intent.2, c.scope.2, c.input.2, c.output.2, trivial,
      c.error.2, c.stateBefore.2, c.stateAfter.2, List.forall_mem_nil _⟩
  · rw [map_text_strItems]
    exact nodup_items c prev

/-- What the hashes are over is plain when the fields are. -/
theorem plain_items {c : TraceCall F} {prev : Option PyStr} (hprev : ∀ h ∈ prev, Ascii h) :
    (eachStr Ascii (.dict (strItems (c.items prev))) ∧
        stable (.dict (strItems (c.items prev))) = true) ↔
      ∀ p ∈ c.fields, eachStr Ascii p.2 ∧ stable p.2 = true := by
  have hnames : ∀ k ∈ traceNames, Ascii k := by decide +kernel
  have hkeys : ∀ p ∈ c.items prev, Ascii p.1 := fun p hp =>
    hnames p.1 (map_fst_items c prev ▸ List.mem_map_of_mem hp)
  have hlink : eachStr Ascii (hashOrNone prev : PyVal F) ∧
      stable (hashOrNone prev : PyVal F) = true := by
    cases prev with
    | none => exact ⟨trivial, rfl⟩
    | some h => exact ⟨hprev h rfl, rfl⟩
  have hstrings : eachStr Ascii (.dict (strItems (c.items prev)) : PyVal F) ↔
      ∀ p ∈ c.items prev, eachStr Ascii p.2 := by
    rw [eachStr, eachStrItems_iff, strItems, List.forall_mem_map]
    exact forall₂_congr fun p hp => and_iff_right (hkeys p hp)
  rw [hstrings, stable_strItems (nodup_items c prev), ← forall₂_and, TraceCall.items,
    List.forall_mem_append, List.forall_mem_singleton, and_iff_left hlink]

/-- A record that was written: its call and its link, its canonical JSON and its line. -/
structure Traced (sha : Sha256) (F : Type) [PyFloat F] where
  call : TraceCall F
  prev : Option PyStr
  ascii_prev : ∀ h ∈ prev, Ascii h
  text : PyStr
  line : PyStr
  canonical : dumpsSorted traceStyle (.dict (strItems (call.items prev))) = .ok text
  encodable : Encodable text
  printed : dumps traceLineStyle
    (.dict (strItems (call.record prev (hexdigest sha (utf8Bytes text))))) = .ok line

namespace Traced

variable {sha : Sha256}

/-- The `step_hash`. -/
def stepHash (t : Traced sha F) : PyStr := hexdigest sha (utf8Bytes t.text)

/-- The items of the record. -/
def items (t : Traced sha F) : List (PyStr × PyVal F) := t.call.record t.prev t.stepHash

/-- The items that are read back. -/
def reread (t : Traced sha F) : List (PyStr × PyVal F) := t.items.map fun p => (p.1, form p.2)

theorem print_line (t : Traced sha F) :
    print traceLineStyle (.dict (strItems t.items)) = some t.line := dumps_eq_ok.mp t.printed

theorem strip_line (t : Traced sha F) : strip t.line = t.line := strip_print_dict t.print_line

theorem line_ne_nil (t : Traced sha F) : t.line ≠ [] :=
  List.ne_nil_of_length_pos (print_ne_nil t.print_line)

theorem loads_line (t : Traced sha F) :
    (loads t.line : Option (PyVal F)) = some (.dict (strItems t.reread)) := by
  rw [loads_print t.print_line (by simp [traceLineStyle]), items, form_strItems (nodup_record _ _ _)]
  rfl

/-- **A line can be written when what is hashed can.** -/
theorem encodable_line (t : Traced sha F) : Encodable t.line := by
  obtain ⟨w, hw, hprint⟩ := dumpsSorted_eq_ok.mp t.canonical
  have htext : eachStr Encodable (.dict (strItems (t.call.items t.prev))) :=
    (eachStr_of_sortDicts hw).mp ((encodable_print rfl hprint).mp t.encodable)
  rw [encodable_print rfl t.print_line]
  rw [eachStr, eachStrItems_iff, strItems, List.forall_mem_map] at htext ⊢
  rw [items, TraceCall.record, List.forall_mem_append, List.forall_mem_singleton]
  exact ⟨htext, (by decide : Encodable (py "step_hash")), encodable_hexdigest _ _⟩

theorem plainLine (t : Traced sha F) : PlainLine t.line :=
  ⟨t.encodable_line, nl_notMem_print t.print_line, cr_notMem_print t.print_line⟩

theorem nodup_reread (t : Traced sha F) : (t.reread.map Prod.fst).Nodup := by
  have hkeys : t.reread.map Prod.fst = t.items.map Prod.fst := by
    rw [reread, List.map_map]
    rfl
  rw [hkeys]
  exact nodup_record _ _ _

/-- A field is read back. -/
theorem dictGet_reread (t : Traced sha F) {k : PyStr} {v : PyVal F} (h : (k, v) ∈ t.items) :
    dictGet k (strItems t.reread : List (Key F × PyVal F)) = some (form v) :=
  dictGet_of_mem t.nodup_reread (List.mem_map.mpr ⟨(k, v), h, rfl⟩)

theorem getNone_reread (t : Traced sha F) (k : PyStr) {v : PyVal F} (h : (k, v) ∈ t.items) :
    getNone k (strItems t.reread : List (Key F × PyVal F)) = form v := by
  rw [getNone, t.dictGet_reread h, Option.getD_some]

theorem mem_items (t : Traced sha F) {p : PyStr × PyVal F} (h : p ∈ t.call.fields) :
    p ∈ t.items := List.mem_append_left _ (List.mem_append_left _ h)

/-- The record as the replay sees it. -/
def toRecord (t : Traced sha F) (lineNumber : ℕ) : TraceRecord F :=
  traceRecord (strItems t.reread) t.line lineNumber

theorem sessionId_toRecord (t : Traced sha F) (n : ℕ) :
    (t.toRecord n).sessionId = .str t.call.session := by
  have hmem : (py "session_id", PyVal.str t.call.session) ∈ t.call.fields := by
    simp [TraceCall.fields]
  exact t.getNone_reread _ (t.mem_items hmem)

/-- What `verify_record` asks of the fields. -/
theorem truthy_toRecord (t : Traced sha F) (n : ℕ) :
    (t.toRecord n).traceId.truthy = !t.call.traceId.isEmpty ∧
      (t.toRecord n).sessionId.truthy = !t.call.session.isEmpty ∧
        (t.toRecord n).actionType.truthy = !t.call.actionType.isEmpty := by
  have hmem : (py "trace_id", PyVal.str t.call.traceId) ∈ t.call.fields := by
    simp [TraceCall.fields]
  have hmem' : (py "action_type", PyVal.str t.call.actionType) ∈ t.call.fields := by
    simp [TraceCall.fields]
  have htrace : (t.toRecord n).traceId = .str t.call.traceId := t.getNone_reread _ (t.mem_items hmem)
  have haction : (t.toRecord n).actionType = .str t.call.actionType :=
    t.getNone_reread _ (t.mem_items hmem')
  rw [htrace, haction, t.sessionId_toRecord n]
  exact ⟨rfl, rfl, rfl⟩

end Traced

theorem allM_eq_ok {α : Type*} {p : α → Except PyError Bool} {l : List α}
    (h : ∀ a ∈ l, p a = .ok true) : l.allM p = .ok true := by
  induction l with
  | nil => rfl
  | cons a l ih =>
    rw [List.allM, h a List.mem_cons_self]
    exact ih fun b hb => h b (List.mem_cons_of_mem _ hb)

/-- **A line that was written is parsed.** -/
theorem parseTraceLine_traced {sha : Sha256} (t : Traced sha F) (n : ℕ) :
    parseTraceLine t.line n = .ok (some (t.toRecord n)) := by
  have hrequired : ∀ k ∈ requiredFields, k ∈ t.items.map Prod.fst := by
    have hnames : ∀ k ∈ requiredFields, k ∈ traceNames ++ [py "step_hash"] := by decide
    exact hnames
  have hfound : (requiredFields.allM fun field =>
      pyContains field (.dict (strItems t.reread) : PyVal F)) = .ok true := by
    refine allM_eq_ok fun k hk => ?_
    obtain ⟨⟨k, v⟩, hmem, rfl⟩ := List.mem_map.mp (hrequired k hk)
    rw [pyContains, t.dictGet_reread hmem, Option.isSome_some]
  rw [parseTraceLine, t.strip_line, if_neg t.line_ne_nil, t.loads_line]
  dsimp only
  rw [hfound, Except.bind, if_pos rfl]
  rfl

/-- What a write does: nothing, or a record. -/
theorem writeTrace_cases (sha : Sha256) {w : TraceWriter} (hw : ∀ h ∈ w.lastStepHash, Ascii h)
    (c : TraceCall F) :
    (∃ err, computeStepHash sha traceStyle (.dict (strItems (c.items w.lastStepHash))) = .error err ∧
        writeTrace sha w c = (.error err, w)) ∨
      ∃ t : Traced sha F, t.call = c ∧ t.prev = w.lastStepHash ∧
        writeTrace sha w c = (.ok (.dict (strItems t.items)),
          ⟨some t.stepHash, w.file ++ lineBytes t.line⟩) := by
  unfold writeTrace
  cases hhash : computeStepHash sha traceStyle (.dict (strItems (c.items w.lastStepHash))) with
  | error err => exact .inl ⟨err, rfl, rfl⟩
  | ok stepHash =>
    obtain ⟨text, hcanon, henc, rfl⟩ := computeStepHash_eq_ok.mp hhash
    have hprint : ∃ line, print traceLineStyle (.dict (strItems (c.record w.lastStepHash
        (hexdigest sha (utf8Bytes text))))) = some line := exists_print rfl _
    obtain ⟨line, hline⟩ := hprint
    let t : Traced sha F := ⟨c, w.lastStepHash, hw, text, line, hcanon, henc, dumps_eq_ok.mpr hline⟩
    have hencode : encodeUtf8 (line ++ [nl]) = some (lineBytes line) :=
      encodeUtf8_eq_some.mpr ⟨encodable_append.mpr ⟨t.encodable_line, by decide⟩, rfl⟩
    refine .inr ⟨t, rfl, rfl, ?_⟩
    dsimp only
    rw [dumps_eq_ok.mpr hline]
    dsimp only
    rw [hencode]
    rfl

/-! ### Valid records -/

theorem filter_reread {sha : Sha256} (t : Traced sha F) :
    (strItems t.reread : List (Key F × PyVal F)).filter
        (fun kv => kv.1.str? != some (py "step_hash"))
      = strItems ((t.call.items t.prev).map fun p => (p.1, form p.2)) := by
  have hother : ∀ k ∈ traceNames, k ≠ py "step_hash" := by decide
  rw [Traced.reread, Traced.items, TraceCall.record, List.map_append, strItems, List.map_append,
    List.filter_append]
  have hlast : (([(py "step_hash", (.str t.stepHash : PyVal F))].map fun p => (p.1, form p.2)).map
      fun p => ((Key.str p.1 : Key F), p.2)).filter
        (fun kv => kv.1.str? != some (py "step_hash")) = [] := by
    simp [Key.str?]
  rw [hlast, List.append_nil, List.filter_eq_self.mpr]
  · rfl
  · intro kv hkv
    rw [List.map_map] at hkv
    obtain ⟨p, hp, rfl⟩ := List.mem_map.mp hkv
    have hne := hother p.1 (map_fst_items t.call t.prev ▸ List.mem_map_of_mem hp)
    simpa [Key.str?] using hne

/-- **The replay computes the hash that was written exactly when the fields are plain.** -/
theorem computeStepHash_reread {sha : Sha256} (hinj : Function.Injective sha)
    (t : Traced sha F) : ∃ computed, computeStepHash sha replayStyle
        (.dict (strItems ((t.call.items t.prev).map fun p => (p.1, form p.2)))) = .ok computed ∧
      (computed = t.stepHash ↔ ∀ p ∈ t.call.fields, eachStr Ascii p.2 ∧ stable p.2 = true) := by
  obtain ⟨w, hw, hprint⟩ := dumpsSorted_eq_ok.mp t.canonical
  obtain ⟨w', hw', -⟩ := sortDicts_of_stable (stable_form (.dict (strItems (t.call.items t.prev))))
  have hrewrite : ∃ text, print replayStyle w' = some text := exists_print rfl w'
  obtain ⟨text, htext⟩ := hrewrite
  have henc : Encodable text := (within_print htext).encodable (by norm_num [Style.bound, replayStyle])
  have hwritten : print replayStyle.unescaped w = some t.text := hprint
  have hiff := print_readBack_iff (distinct_items t.call t.prev) hw hwritten hw'
  rw [form_strItems (nodup_items _ _)] at hw'
  refine ⟨hexdigest sha (utf8Bytes text), computeStepHash_eq_ok.mpr ⟨text,
    dumpsSorted_eq_ok.mpr ⟨w', hw', htext⟩, henc, rfl⟩, ?_⟩
  rw [← plain_items t.ascii_prev, ← hiff]
  constructor
  · intro heq
    obtain rfl : text = t.text := utf8Bytes_inj henc t.encodable (hexdigest_injective hinj heq)
    exact htext
  · intro heq
    obtain rfl : text = t.text := Option.some.inj (htext.symm.trans heq)
    rfl

/-- **A line is valid exactly when its record is plain.** -/
theorem recordValid_iff {sha : Sha256} (hinj : Function.Injective sha) (t : Traced sha F) (n : ℕ) :
    (Replay.verifyRecord sha true (t.toRecord n)).1 = true ↔ t.call.Plain := by
  have hraw : (t.toRecord n).rawLine = t.line := rfl
  have hstored : getNone (py "step_hash") (strItems t.reread : List (Key F × PyVal F))
      = .str t.stepHash :=
    t.getNone_reread _ (List.mem_append_right _ (List.mem_singleton.mpr rfl))
  obtain ⟨computed, hcomputed, hiff⟩ := computeStepHash_reread hinj t
  rw [Replay.verifyRecord, hraw, t.loads_line]
  dsimp only
  rw [filter_reread, hcomputed]
  dsimp only
  rw [hstored, TraceCall.Plain, ← hiff]
  by_cases heq : computed = t.stepHash
  · have hsession := t.call.session_ne_nil
    rw [if_pos (pyEq_str_left.mpr (congrArg PyVal.str heq.symm)), and_iff_left heq, checkFields,
      (t.truthy_toRecord n).1, (t.truthy_toRecord n).2.1, (t.truthy_toRecord n).2.2]
    simp only [Bool.not_eq_false', List.isEmpty_iff, t.call.traceId_ne_nil, hsession, if_false]
    split_ifs with haction
    · exact iff_of_false id (not_not.mpr haction)
    · exact iff_of_true rfl haction
  · have hne : ¬ pyEq (.str computed : PyVal F) (.str t.stepHash) = true := fun h =>
      heq (PyVal.str.inj (pyEq_str_left.mp h)).symm
    rw [if_neg hne, sliceFails, if_neg Bool.false_ne_true]
    exact iff_of_false Bool.false_ne_true fun h => heq h.2

/-! ### The replay of a log -/

section Replay

variable {sha : Sha256}

/-- The trace file of these records. -/
def tracesJsonl (log : List (Traced sha F)) : List Byte := log.flatMap fun t => lineBytes t.line

theorem textLines_traces (log : List (Traced sha F)) :
    textLines (tracesJsonl log) = .ok (log.map Traced.line ++ [[]]) := by
  have hplain : ∀ l ∈ log.map Traced.line, PlainLine l :=
    List.forall_mem_map.mpr fun t _ => t.plainLine
  rw [← textLines_lines hplain, tracesJsonl, List.flatMap_map]

/-- A strict replay takes the record as valid. -/
def Traced.valid (t : Traced sha F) : Bool := (Replay.verifyRecord sha true (t.toRecord 0)).1

theorem valid_toRecord (t : Traced sha F) (n : ℕ) :
    (Replay.verifyRecord sha true (t.toRecord n)).1 = t.valid := rfl

/-- The record belongs to the session. -/
def Traced.inSession (sid : PyStr) (t : Traced sha F) : Bool := t.call.session == sid

/-- **What a line that was written adds to a strict replay.** -/
theorem gatherLine_traced (sid : PyStr) (t : Traced sha F) (n : ℕ) (g : Gathering F) :
    ∃ g', gatherLine sha sid true g (t.line, n) = .ok g' ∧
      g'.records = g.records ++ (if t.inSession sid && t.valid then [t.toRecord n] else []) ∧
        g'.corruptRecords =
          g.corruptRecords + (if t.inSession sid && !t.valid then 1 else 0) := by
  rw [gatherLine, parseTraceLine_traced, Except.map]
  dsimp only
  rw [t.sessionId_toRecord n, valid_toRecord, Traced.inSession]
  by_cases hsid : t.call.session = sid
  · rw [if_pos (pyEq_str_right.mpr (congrArg PyVal.str hsid)), beq_iff_eq.mpr hsid]
    cases t.valid with
    | true => exact ⟨_, rfl, rfl, rfl⟩
    | false => exact ⟨_, rfl, (List.append_nil _).symm, rfl⟩
  · have hother : ¬ pyEq (.str t.call.session : PyVal F) (.str sid) = true := fun h =>
      hsid (PyVal.str.inj (pyEq_str_right.mp h))
    rw [if_neg hother, beq_eq_false_iff_ne.mpr hsid]
    exact ⟨g, rfl, (List.append_nil _).symm, rfl⟩

/-- The records that a strict replay of a session goes along. -/
def replayed (sid : PyStr) (log : List (Traced sha F)) : List (Traced sha F) :=
  log.filter fun t => t.inSession sid && t.valid

/-- The records of a session that it rejects. -/
def rejected (sid : PyStr) (log : List (Traced sha F)) : ℕ :=
  log.countP fun t => t.inSession sid && !t.valid

/-- A record of the replay is one that was written. -/
def Shows (t : Traced sha F) (r : TraceRecord F) : Prop := ∃ n, r = t.toRecord n

theorem gather_traces (sid : PyStr) (log : List (Traced sha F)) (n : ℕ) (g : Gathering F) :
    ∃ g' rs, ((log.map Traced.line ++ [[]]).zipIdx n).foldlM (gatherLine sha sid true) g = .ok g' ∧
      g'.records = g.records ++ rs ∧ List.Forall₂ Shows (replayed sid log) rs ∧
        g'.corruptRecords = g.corruptRecords + rejected sid log := by
  induction log generalizing n g with
  | nil =>
    have hparse : parseTraceLine (F := F) [] n = .ok none := if_pos strip_nil
    have hblank : gatherLine sha sid true g ([], n) = .ok g := by
      rw [gatherLine, hparse]
      exact congrArg Except.ok (if_pos strip_nil)
    refine ⟨g, [], ?_, (List.append_nil _).symm, List.Forall₂.nil, rfl⟩
    rw [List.map_nil, List.nil_append, List.zipIdx_cons, List.zipIdx_nil, List.foldlM_cons, hblank]
    rfl
  | cons t log ih =>
    obtain ⟨g₁, hline, hrecords, hcorrupt⟩ := gatherLine_traced sid t n g
    obtain ⟨g', rs, hrest, hrecords', hshows, hcorrupt'⟩ := ih (n + 1) g₁
    refine ⟨g', (if t.inSession sid && t.valid then [t.toRecord n] else []) ++ rs, ?_, ?_, ?_, ?_⟩
    · rw [List.map_cons, List.cons_append, List.zipIdx_cons, List.foldlM_cons, hline]
      exact hrest
    · rw [hrecords', hrecords, List.append_assoc]
    · rw [replayed, List.filter_cons]
      split_ifs
      · exact List.Forall₂.cons ⟨n, rfl⟩ hshows
      · exact hshows
    · have hcons : rejected sid (t :: log)
          = rejected sid log + if t.inSession sid && !t.valid then 1 else 0 := List.countP_cons
      rw [hcorrupt', hcorrupt, hcons]
      omega

/-- **What a strict replay of a session reports.** -/
theorem replaySession_traces (sid : PyStr) (log : List (Traced sha F)) :
    ∃ (rs : List (TraceRecord F)) (r : ReplayReport F),
    replaySession sha (tracesJsonl log) sid true none = .ok r ∧
      List.Forall₂ Shows (replayed sid log) rs ∧ r.totalRecords = rs.length ∧
      r.corruptRecords = rejected sid log ∧ r.brokenChainRecords = (Replay.verifyChain rs).length ∧
      (r.status = .ok ↔ rejected sid log = 0 ∧ Replay.verifyChain rs = []) := by
  obtain ⟨g, rs, hgather, hrecords, hshows, hcorrupt⟩ :=
    gather_traces sid log 1 ⟨[], [], 0, 0⟩
  rw [List.nil_append] at hrecords
  rw [Nat.zero_add] at hcorrupt
  refine ⟨rs, replayReport sid none g, ?_, hshows, ?_, hcorrupt, ?_, ?_⟩
  · rw [replaySession, textLines_traces, Except.bind, hgather]
    rfl
  · rw [replayReport, limited, hrecords]
  · rw [replayReport, limited, hrecords]
  · rw [replayReport, limited, hrecords, hcorrupt]
    dsimp only
    split_ifs with hpos hbroken
    · exact iff_of_false nofun fun h => (Nat.ne_of_gt hpos) h.1
    · exact iff_of_false nofun fun h => hbroken h.2
    · exact iff_of_true rfl ⟨Nat.eq_zero_of_not_pos hpos, not_not.mp hbroken⟩

/-! ### Links -/

/-- Every record names the hash of the one before it. -/
def StepsLinked : Option PyStr → List (Traced sha F) → Prop
  | _, [] => True
  | prev, t :: ts => t.prev = prev ∧ StepsLinked (some t.stepHash) ts

/-- The hash that the next record names. -/
def tipAfter : Option PyStr → List (Traced sha F) → Option PyStr
  | prev, [] => prev
  | _, t :: ts => tipAfter (some t.stepHash) ts

theorem stepsLinked_concat {prev : Option PyStr} {log : List (Traced sha F)} {t : Traced sha F}
    (h : StepsLinked prev log) (ht : t.prev = tipAfter prev log) : StepsLinked prev (log ++ [t]) := by
  induction log generalizing prev with
  | nil => exact ⟨ht, trivial⟩
  | cons u log ih => exact ⟨h.1, ih h.2 ht⟩

theorem tipAfter_concat (prev : Option PyStr) (log : List (Traced sha F)) (t : Traced sha F) :
    tipAfter prev (log ++ [t]) = some t.stepHash := by
  induction log generalizing prev with
  | nil => rfl
  | cons u log ih => exact ih _

/-- All but the first name a hash. -/
theorem exists_prev {h : PyStr} {ts : List (Traced sha F)} (hl : StepsLinked (some h) ts)
    {t : Traced sha F} (ht : t ∈ ts) : t.prev = some h ∨ ∃ u ∈ ts, t.prev = some u.stepHash := by
  induction ts generalizing h with
  | nil => cases ht
  | cons u ts ih =>
    rcases List.mem_cons.mp ht with rfl | ht
    · exact .inl hl.1
    · rcases ih hl.2 ht with hprev | ⟨v, hv, hprev⟩
      · exact .inr ⟨u, List.mem_cons_self, hprev⟩
      · exact .inr ⟨v, List.mem_cons_of_mem _ hv, hprev⟩

theorem prevStepHash_toRecord (t : Traced sha F) (n : ℕ) :
    (t.toRecord n).prevStepHash = hashOrNone t.prev := by
  have hmem : (py "prev_step_hash", hashOrNone t.prev) ∈ t.items :=
    List.mem_append_left _ (List.mem_append_right _ (List.mem_singleton.mpr rfl))
  have hform : form (hashOrNone t.prev : PyVal F) = hashOrNone t.prev := by cases t.prev <;> rfl
  exact (t.getNone_reread _ hmem).trans hform

theorem stepHash_toRecord (t : Traced sha F) (n : ℕ) :
    (t.toRecord n).stepHash = .str t.stepHash :=
  t.getNone_reread (py "step_hash") (v := .str t.stepHash)
    (List.mem_append_right _ (List.mem_singleton.mpr rfl))

theorem verifyLinks_linked {h : PyStr} {ts : List (Traced sha F)} {rs : List (TraceRecord F)}
    (hl : StepsLinked (some h) ts) (hs : List.Forall₂ Shows ts rs) : verifyLinks (.str h) rs = [] := by
  induction hs generalizing h with
  | nil => rfl
  | @cons t r ts rs hshow _ ih =>
    obtain ⟨n, rfl⟩ := hshow
    obtain ⟨hprev, hrest⟩ := hl
    have hsame : pyEq (t.toRecord n).prevStepHash (.str h) = true := by
      rw [prevStepHash_toRecord, hprev]
      exact pyEq_str_right.mpr rfl
    have hnone : (PyVal.str h : PyVal F).isNone = false := rfl
    rw [verifyLinks, stepHash_toRecord, ih hrest, hnone, if_neg Bool.false_ne_true, if_pos hsame]
    rfl

/-- **A linked log has no broken link.** -/
theorem verifyChain_linked {ts : List (Traced sha F)} {rs : List (TraceRecord F)}
    (hl : StepsLinked none ts) (hs : List.Forall₂ Shows ts rs) : Replay.verifyChain rs = [] := by
  cases hs with
  | nil => rfl
  | @cons t r ts rs hshow hrest =>
    obtain ⟨n, rfl⟩ := hshow
    rw [Replay.verifyChain, prevStepHash_toRecord, hl.1, stepHash_toRecord,
      verifyLinks_linked hl.2 hrest]
    rfl

/-- **What starts with a record that names a hash has one.** -/
theorem verifyChain_ne_nil {t : Traced sha F} {ts : List (Traced sha F)}
    {rs : List (TraceRecord F)} {h : PyStr} (hprev : t.prev = some h) (hne : h ≠ [])
    (hs : List.Forall₂ Shows (t :: ts) rs) : Replay.verifyChain rs ≠ [] := by
  obtain ⟨r, rs, ⟨n, rfl⟩, -, rfl⟩ := List.forall₂_cons_left_iff.mp hs
  have hlinked : linked (t.toRecord n).prevStepHash = true := by
    rw [prevStepHash_toRecord, hprev]
    exact decide_eq_true hne
  rw [Replay.verifyChain, if_pos hlinked]
  exact List.cons_ne_nil _ _

end Replay

/-! ### Runs of a writer -/

/-- A writer, and the calls that it wrote. -/
structure TraceLog (F : Type) [PyFloat F] where
  writer : TraceWriter
  accepted : List (TraceCall F)

/-- A new writer on a new file. -/
def TraceLog.empty (F : Type) [PyFloat F] : TraceLog F := ⟨⟨none, []⟩, []⟩

/-- The state after a call. -/
def traceStep (sha : Sha256) (s : TraceLog F) (c : TraceCall F) : TraceLog F :=
  match writeTrace sha s.writer c with
  | (.ok _, w) => ⟨w, s.accepted ++ [c]⟩
  | (.error _, w) => ⟨w, s.accepted⟩

section Runs

variable {sha : Sha256}

/-- The file holds these records, one linked to the other. -/
structure Written (s : TraceLog F) (log : List (Traced sha F)) : Prop where
  file : s.writer.file = tracesJsonl log
  linked : StepsLinked none log
  tip : s.writer.lastStepHash = tipAfter none log
  ascii : ∀ h ∈ s.writer.lastStepHash, Ascii h
  calls : s.accepted = log.map Traced.call

theorem written_empty : Written (TraceLog.empty F) ([] : List (Traced sha F)) :=
  ⟨rfl, trivial, rfl, nofun, rfl⟩

/-- **A call adds its record, or nothing.** -/
theorem written_step {s : TraceLog F} {log : List (Traced sha F)} (h : Written s log)
    (c : TraceCall F) : ∃ log' : List (Traced sha F), Written (traceStep sha s c) log' := by
  rcases writeTrace_cases sha h.ascii c with ⟨err, -, hw⟩ | ⟨t, rfl, hprev, hw⟩
  · refine ⟨log, ?_⟩
    rw [traceStep, hw]
    exact h
  · refine ⟨log ++ [t], ?_⟩
    rw [traceStep, hw]
    refine ⟨?_, stepsLinked_concat h.linked (hprev.trans h.tip), (tipAfter_concat none log t).symm, ?_, ?_⟩
    · rw [h.file, tracesJsonl, tracesJsonl, List.flatMap_append, List.flatMap_singleton]
    · rintro h' ⟨⟩
      exact ascii_hexdigest _ _
    · rw [h.calls, List.map_append, List.map_singleton]

/-- **After any calls the file holds the records of those that were written.** -/
theorem written_run (sha : Sha256) (cs : List (TraceCall F)) :
    ∃ log : List (Traced sha F), Written (run (traceStep sha) (TraceLog.empty F) cs) log :=
  run_keeps (P := fun s => ∃ log : List (Traced sha F), Written s log)
    (fun _ c ⟨_, h⟩ => written_step h c) ⟨[], written_empty⟩ cs

/-- A strict replay takes what a writer wrote for valid. -/
def StrictlyReplays (sha : Sha256) (s : TraceLog F) : Prop :=
  (∃ lines, textLines s.writer.file = .ok lines ∧ ∀ line ∈ lines.zipIdx 1, strip line.1 ≠ [] →
    ∃ r : TraceRecord F, parseTraceLine line.1 line.2 = .ok (some r) ∧
      (Replay.verifyRecord sha true r).1 = true) ∧
  ∀ sid, (∀ c ∈ s.accepted, c.session = sid) → ∃ r : ReplayReport F,
    replaySession sha s.writer.file sid true none = .ok r ∧ r.status = .ok ∧ r.corruptRecords = 0

/-- A strict replay of every session goes well, and sees all its records. -/
def EachReplays (sha : Sha256) (s : TraceLog F) : Prop :=
  ∀ sid ∈ s.accepted.map TraceCall.session, ∃ r : ReplayReport F,
    replaySession sha s.writer.file sid true none = .ok r ∧ r.status = .ok ∧
      r.brokenChainRecords = 0 ∧ r.totalRecords = (s.accepted.filter (·.session = sid)).length

theorem valid_iff (hinj : Function.Injective sha) (t : Traced sha F) :
    t.valid = true ↔ t.call.Plain := recordValid_iff hinj t 0

theorem replayed_of_session {sid : PyStr} {log : List (Traced sha F)}
    (hsid : ∀ t ∈ log, t.call.session = sid) (hvalid : ∀ t ∈ log, t.valid = true) :
    replayed sid log = log ∧ rejected sid log = 0 := by
  have hin : ∀ t ∈ log, t.inSession sid = true := fun t ht => beq_iff_eq.mpr (hsid t ht)
  constructor
  · exact List.filter_eq_self.mpr fun t ht => by rw [hin t ht, hvalid t ht, Bool.and_self]
  · exact List.countP_eq_zero.mpr fun t ht => by
      rw [hvalid t ht, Bool.not_true, Bool.and_false]
      exact Bool.false_ne_true

/-- **A log of one session whose records are valid replays.** -/
theorem replays_of_session {s : TraceLog F} {log : List (Traced sha F)} (h : Written s log)
    {sid : PyStr} (hsid : ∀ t ∈ log, t.call.session = sid) (hvalid : ∀ t ∈ log, t.valid = true) :
    ∃ r : ReplayReport F, replaySession sha s.writer.file sid true none = .ok r ∧ r.status = .ok ∧
      r.corruptRecords = 0 ∧ r.brokenChainRecords = 0 ∧ r.totalRecords = log.length := by
  obtain ⟨hreplayed, hrejected⟩ := replayed_of_session hsid hvalid
  obtain ⟨rs, r, hrun, hshows, htotal, hcorrupt, hbroken, hstatus⟩ := replaySession_traces sid log
  rw [hreplayed] at hshows
  have hchain : Replay.verifyChain rs = [] := verifyChain_linked h.linked hshows
  rw [h.file]
  refine ⟨r, hrun, hstatus.mpr ⟨hrejected, hchain⟩, hcorrupt.trans hrejected, ?_, ?_⟩
  · rw [hbroken, hchain, List.length_nil]
  · rw [htotal, hshows.length_eq]

theorem strictlyReplays_iff (hinj : Function.Injective sha) {s : TraceLog F}
    {log : List (Traced sha F)} (h : Written s log) :
    StrictlyReplays sha s ↔ ∀ c ∈ s.accepted, c.Plain := by
  rw [h.calls, List.forall_mem_map]
  constructor
  · rintro ⟨⟨lines, hlines, hvalid⟩, -⟩ t ht
    rw [h.file, textLines_traces] at hlines
    obtain rfl := Except.ok.inj hlines
    -- the line of the record, with its number
    have hmem : t.line ∈ ((log.map Traced.line ++ [[]]).zipIdx 1).map Prod.fst := by
      rw [List.zipIdx_map_fst]
      exact List.mem_append_left _ (List.mem_map_of_mem ht)
    obtain ⟨⟨line, n⟩, hline, rfl⟩ := List.mem_map.mp hmem
    obtain ⟨r, hparse, hr⟩ := hvalid _ hline (by rw [t.strip_line]; exact t.line_ne_nil)
    rw [parseTraceLine_traced] at hparse
    obtain rfl := Option.some.inj (Except.ok.inj hparse)
    exact (recordValid_iff hinj t n).mp hr
  · intro hplain
    have hvalid : ∀ t ∈ log, t.valid = true := fun t ht => (valid_iff hinj t).mpr (hplain t ht)
    refine ⟨⟨_, by rw [h.file, textLines_traces], fun line hline hblank => ?_⟩, fun sid hsid => ?_⟩
    · have hmem : line.1 ∈ log.map Traced.line ++ [[]] := by
        rw [← List.zipIdx_map_fst 1 (log.map Traced.line ++ [[]])]
        exact List.mem_map_of_mem hline
      rcases List.mem_append.mp hmem with hmem | hmem
      · obtain ⟨t, ht, hline'⟩ := List.mem_map.mp hmem
        rw [← hline']
        exact ⟨_, parseTraceLine_traced t line.2, (recordValid_iff hinj t line.2).mpr (hplain t ht)⟩
      · rw [List.mem_singleton.mp hmem] at hblank
        exact absurd strip_nil hblank
    · have hsid' : ∀ t ∈ log, t.call.session = sid := fun t ht =>
        hsid t.call (h.calls ▸ List.mem_map_of_mem ht)
      obtain ⟨r, hrun, hstatus, hcorrupt, -⟩ := replays_of_session h hsid' hvalid
      exact ⟨r, hrun, hstatus, hcorrupt⟩

theorem stepHash_ne_nil (hne : ∀ bs, sha bs ≠ []) (t : Traced sha F) : t.stepHash ≠ [] := by
  rw [Traced.stepHash, hexdigest, Ne, List.map_eq_nil_iff]
  exact hne _

/-- **A session that begins after another does not replay**: its first record names the hash of a
record of the other. -/
theorem session_eq_of_replays (hne : ∀ bs, sha bs ≠ []) {t₀ t : Traced sha F}
    {log : List (Traced sha F)} (hl : StepsLinked none (t₀ :: log)) (ht : t ∈ t₀ :: log)
    (hvalid : t.valid = true) {r : ReplayReport F}
    (hrun : replaySession sha (tracesJsonl (t₀ :: log)) t.call.session true none = .ok r)
    (hok : r.status = .ok) : t.call.session = t₀.call.session := by
  by_contra hother
  obtain ⟨rs, r', hrun', hshows, -, -, -, hstatus⟩ :=
    replaySession_traces t.call.session (t₀ :: log)
  obtain rfl := Except.ok.inj (hrun.symm.trans hrun')
  have hfirst : (t₀.inSession t.call.session && t₀.valid) = false := by
    rw [Traced.inSession, beq_eq_false_iff_ne.mpr (Ne.symm hother), Bool.false_and]
  have hskip : replayed t.call.session (t₀ :: log) = replayed t.call.session log :=
    List.filter_cons_of_neg (by rw [hfirst]; exact Bool.false_ne_true)
  have hmem : t ∈ replayed t.call.session (t₀ :: log) := by
    refine List.mem_filter.mpr ⟨ht, ?_⟩
    rw [Traced.inSession, hvalid, beq_self_eq_true, Bool.and_self]
  obtain ⟨u, us, hus⟩ := List.exists_cons_of_ne_nil (List.ne_nil_of_mem hmem)
  have hu : u ∈ log := by
    have hin : u ∈ replayed t.call.session log := by
      rw [← hskip, hus]
      exact List.mem_cons_self
    exact (List.mem_filter.mp hin).1
  rw [hus] at hshows
  rcases exists_prev hl.2 hu with hprev | ⟨v, -, hprev⟩
  · exact verifyChain_ne_nil hprev (stepHash_ne_nil hne t₀) hshows (hstatus.mp hok).2
  · exact verifyChain_ne_nil hprev (stepHash_ne_nil hne v) hshows (hstatus.mp hok).2

theorem eachReplays_iff (hinj : Function.Injective sha) (hne : ∀ bs, sha bs ≠ []) {s : TraceLog F}
    {log : List (Traced sha F)} (h : Written s log) :
    EachReplays sha s ↔ (∀ c ∈ s.accepted, c.Plain) ∧
      ∀ c ∈ s.accepted, ∀ c' ∈ s.accepted, c.session = c'.session := by
  rw [EachReplays, h.calls, List.forall_mem_map, List.forall_mem_map, List.forall_mem_map]
  simp only [List.forall_mem_map]
  constructor
  · intro heach
    -- the replay of a session rejects none of its records
    have hvalid : ∀ t ∈ log, t.valid = true := by
      intro t ht
      obtain ⟨r, hrun, hok, -⟩ := heach t ht
      obtain ⟨rs, r', hrun', -, -, -, -, hstatus⟩ := replaySession_traces t.call.session log
      rw [h.file] at hrun
      obtain rfl := Except.ok.inj (hrun.symm.trans hrun')
      have hnone := List.countP_eq_zero.mp (hstatus.mp hok).1 t ht
      have hin : t.inSession t.call.session = true := beq_self_eq_true _
      rwa [hin, Bool.true_and, Bool.not_eq_true, Bool.not_eq_false'] at hnone
    refine ⟨fun t ht => (valid_iff hinj t).mp (hvalid t ht), ?_⟩
    rw [h.file] at heach
    cases log with
    | nil => exact List.forall_mem_nil _
    | cons t₀ log =>
      have hfirst : ∀ t ∈ t₀ :: log, t.call.session = t₀.call.session := by
        intro t ht
        obtain ⟨r, hrun, hok, -⟩ := heach t ht
        exact session_eq_of_replays hne h.linked ht (hvalid t ht) hrun hok
      exact fun t ht t' ht' => (hfirst t ht).trans (hfirst t' ht').symm
  · rintro ⟨hplain, hsame⟩ t ht
    have hvalid : ∀ t ∈ log, t.valid = true := fun t ht => (valid_iff hinj t).mpr (hplain t ht)
    have hsid : ∀ u ∈ log, u.call.session = t.call.session := fun u hu => hsame u hu t ht
    obtain ⟨r, hrun, hstatus, -, hbroken, htotal⟩ := replays_of_session h hsid hvalid
    refine ⟨r, hrun, hstatus, hbroken, htotal.trans ?_⟩
    rw [List.filter_eq_self.mpr, List.length_map]
    exact List.forall_mem_map.mpr fun u hu => decide_eq_true (hsid u hu)

/-- **A strict replay takes what was written for valid exactly when the records are plain.** -/
theorem strictReplay_iff (hinj : Function.Injective sha) (cs : List (TraceCall F)) :
    StrictlyReplays sha (run (traceStep sha) (TraceLog.empty F) cs) ↔
      ∀ c ∈ (run (traceStep sha) (TraceLog.empty F) cs).accepted, c.Plain := by
  obtain ⟨log, h⟩ := written_run sha cs
  exact strictlyReplays_iff hinj h

/-- **Every session replays exactly when the records are plain and of one session.** -/
theorem replaysEach_iff (hinj : Function.Injective sha) (hne : ∀ bs, sha bs ≠ [])
    (cs : List (TraceCall F)) :
    EachReplays sha (run (traceStep sha) (TraceLog.empty F) cs) ↔
      (∀ c ∈ (run (traceStep sha) (TraceLog.empty F) cs).accepted, c.Plain) ∧
        ∀ c ∈ (run (traceStep sha) (TraceLog.empty F) cs).accepted,
          ∀ c' ∈ (run (traceStep sha) (TraceLog.empty F) cs).accepted, c.session = c'.session := by
  obtain ⟨log, h⟩ := written_run sha cs
  exact eachReplays_iff hinj hne h

/-! ### Samples -/

/-- **A call whose keys are stable and whose strings encode is written.** -/
theorem accepted_step {s : TraceLog F} (hs : ∀ h ∈ s.writer.lastStepHash, Ascii h)
    {c : TraceCall F} (hstable : ∀ p ∈ c.fields, stable p.2 = true)
    (henc : ∀ p ∈ c.fields, eachStr Encodable p.2) :
    (traceStep sha s c).accepted = s.accepted ++ [c] ∧
      ∀ h ∈ (traceStep sha s c).writer.lastStepHash, Ascii h := by
  have hlink : eachStr Encodable (hashOrNone s.writer.lastStepHash : PyVal F) ∧
      stable (hashOrNone s.writer.lastStepHash : PyVal F) = true := by
    cases hlast : s.writer.lastStepHash with
    | none => exact ⟨trivial, rfl⟩
    | some h => exact ⟨(hs h hlast).encodable, rfl⟩
  rcases writeTrace_cases sha hs c with ⟨err, herr, -⟩ | ⟨t, rfl, -, hw⟩
  · exfalso
    have hitems : ∀ p ∈ c.items s.writer.lastStepHash, stable p.2 = true := by
      rw [TraceCall.items, List.forall_mem_append, List.forall_mem_singleton]
      exact ⟨hstable, hlink.2⟩
    obtain ⟨w, hw, -⟩ := sortDicts_of_stable ((stable_strItems (nodup_items c _)).mpr hitems)
    have hprint : ∃ text, print traceStyle w = some text := exists_print rfl w
    obtain ⟨text, htext⟩ := hprint
    have hnames : ∀ k ∈ traceNames, Encodable k := by decide +kernel
    have hencoded : Encodable text := by
      rw [encodable_print rfl htext, eachStr_of_sortDicts hw, eachStr, eachStrItems_iff, strItems,
        List.forall_mem_map]
      intro p hp
      refine ⟨hnames p.1 (map_fst_items c _ ▸ List.mem_map_of_mem hp), ?_⟩
      rcases List.mem_append.mp hp with hp | hp
      · exact henc p hp
      · rw [List.mem_singleton.mp hp]
        exact hlink.1
    have hok : computeStepHash sha traceStyle (.dict (strItems (c.items s.writer.lastStepHash)))
        = .ok (hexdigest sha (utf8Bytes text)) :=
      computeStepHash_eq_ok.mpr ⟨text, dumpsSorted_eq_ok.mpr ⟨w, hw, htext⟩, hencoded, rfl⟩
    exact nomatch herr.symm.trans hok
  · rw [traceStep, hw]
    refine ⟨rfl, ?_⟩
    rintro h ⟨⟩
    exact ascii_hexdigest _ _

end Runs

/-- A marker. -/
def sampleTrace (sessionId intent : PyStr) : TraceCall FloatLit where
  actionType := py "MARKER"
  intent := ⟨.str intent, trivial⟩
  scope := ⟨.str (py "global"), trivial⟩
  input := ⟨.none, trivial⟩
  output := ⟨.none, trivial⟩
  ok := true
  error := ⟨.none, trivial⟩
  stateBefore := ⟨.none, trivial⟩
  stateAfter := ⟨.none, trivial⟩
  sessionId := some sessionId
  ts := ⟨⟨2026, 1, 2, 3, 4, 5, 0, some 0⟩, sampleSecond_valid⟩
  traceId := py "0c9f5b4e"
  traceId_ne_nil := by decide

theorem fields_sampleTrace {P : PyVal FloatLit → Prop} {sessionId intent : PyStr}
    (hne : sessionId ≠ []) (hsession : P (.str sessionId)) (hintent : P (.str intent))
    (hstr : ∀ s, Ascii s → P (.str s)) (hnone : P .none) (hbool : P (.bool true)) :
    ∀ p ∈ (sampleTrace sessionId intent).fields, P p.2 := by
  have hid : (sampleTrace sessionId intent).session = sessionId := if_neg hne
  have hts := ascii_of_within (within_isoformat (sampleTrace sessionId intent).ts) (by norm_num)
  have htrace : Ascii (py "0c9f5b4e") := by decide
  have haction : Ascii (py "MARKER") := by decide
  have hscope : Ascii (py "global") := by decide
  simp only [TraceCall.fields, List.forall_mem_cons, hid]
  exact ⟨hstr _ htrace, hstr _ hts, hsession, hstr _ haction, hintent, hstr _ hscope,
    hnone, hnone, hbool, hnone, hnone, hnone, List.forall_mem_nil _⟩

theorem plain_sampleTrace {sessionId intent : PyStr} (hne : sessionId ≠ []) (hs : Ascii sessionId)
    (hi : Ascii intent) : (sampleTrace sessionId intent).Plain := by
  have hsession : eachStr Ascii (.str sessionId : PyVal FloatLit) := hs
  have hintent : eachStr Ascii (.str intent : PyVal FloatLit) := hi
  have haction : py "MARKER" ≠ [] := by decide
  refine ⟨haction, fields_sampleTrace (P := fun v => eachStr Ascii v ∧ stable v = true) hne
    ⟨hsession, rfl⟩ ⟨hintent, rfl⟩ (fun s h => ⟨h, rfl⟩) ⟨trivial, rfl⟩ ⟨trivial, rfl⟩⟩

/-- Such calls are written. -/
theorem accepted_sampleTrace (sha : Sha256) {s : TraceLog FloatLit}
    (hs : ∀ h ∈ s.writer.lastStepHash, Ascii h) {sessionId intent : PyStr} (hne : sessionId ≠ [])
    (henc : Encodable sessionId) (henc' : Encodable intent) :
    (traceStep sha s (sampleTrace sessionId intent)).accepted
        = s.accepted ++ [sampleTrace sessionId intent] ∧
      ∀ h ∈ (traceStep sha s (sampleTrace sessionId intent)).writer.lastStepHash, Ascii h := by
  refine accepted_step hs ?_ ?_
  · exact fields_sampleTrace (P := fun v => stable v = true) hne rfl rfl (fun _ _ => rfl) rfl rfl
  · refine fields_sampleTrace hne henc henc' (fun s h => ?_) trivial trivial
    exact (h.encodable : Encodable s)

/-- Calls of one kind. -/
theorem accepted_samples (sha : Sha256) (cs : List (PyStr × PyStr))
    (h : ∀ c ∈ cs, c.1 ≠ [] ∧ Encodable c.1 ∧ Encodable c.2) :
    (run (traceStep sha) (TraceLog.empty FloatLit) (cs.map fun c => sampleTrace c.1 c.2)).accepted
      = cs.map fun c => sampleTrace c.1 c.2 := by
  suffices hrun : ∀ s : TraceLog FloatLit, (∀ h ∈ s.writer.lastStepHash, Ascii h) →
      (run (traceStep sha) s (cs.map fun c => sampleTrace c.1 c.2)).accepted
        = s.accepted ++ cs.map fun c => sampleTrace c.1 c.2 from hrun _ nofun
  induction cs with
  | nil => exact fun s _ => (List.append_nil _).symm
  | cons c cs ih =>
    intro s hs
    obtain ⟨hne, henc, henc'⟩ := h c List.mem_cons_self
    obtain ⟨haccepted, hs'⟩ := accepted_sampleTrace sha hs hne henc henc'
    rw [List.map_cons, run_cons, ih (fun c hc => h c (List.mem_cons_of_mem _ hc)) _ hs', haccepted,
      List.append_assoc, List.singleton_append]

/-- The sessions and intents of three calls, the sessions interleaved. -/
def sampleTraces : List (PyStr × PyStr) :=
  [(py "s", py "note"), (py "t", py "other"), (py "s", py "again")]

theorem strictReplay_sample :
    StrictlyReplays nibbles (run (traceStep nibbles) (TraceLog.empty FloatLit)
      (sampleTraces.map fun c => sampleTrace c.1 c.2)) := by
  refine (strictReplay_iff nibbles_injective _).mpr ?_
  have hplain : ∀ c ∈ sampleTraces, c.1 ≠ [] ∧ Ascii c.1 ∧ Ascii c.2 := by decide
  have haccepted := accepted_samples nibbles sampleTraces fun c hc =>
    ⟨(hplain c hc).1, (hplain c hc).2.1.encodable, (hplain c hc).2.2.encodable⟩
  rw [haccepted, List.forall_mem_map]
  rintro ⟨session, intent⟩ hc
  obtain ⟨hne, hsession, hintent⟩ := hplain _ hc
  exact plain_sampleTrace hne hsession hintent

/-- The writer does not escape an accent, and the replayer does. -/
theorem strictReplay_fails_accent :
    Function.Injective nibbles ∧ ¬StrictlyReplays nibbles (run (traceStep nibbles)
      (TraceLog.empty FloatLit) [sampleTrace (py "s") [0xE9]]) := by
  refine ⟨nibbles_injective, fun hreplays => ?_⟩
  obtain ⟨log, h⟩ := written_run nibbles [sampleTrace (py "s") [0xE9]]
  have haccepted := accepted_samples nibbles [(py "s", [0xE9])]
    (List.forall_mem_singleton.mpr (by decide))
  rw [List.map_singleton] at haccepted
  have hplain := (strictlyReplays_iff nibbles_injective h).mp hreplays
  rw [haccepted, List.forall_mem_singleton] at hplain
  have hin : (py "intent", (sampleTrace (py "s") [0xE9]).intent.val)
      ∈ (sampleTrace (py "s") [0xE9]).fields := by
    simp [TraceCall.fields]
  have hascii : Ascii [0xE9] := (hplain.2 _ hin).1
  exact absurd hascii (by decide)

/-- A digest that is never empty. -/
def wideNibbles : Sha256 := fun bs => 0 :: nibbles bs

theorem wideNibbles_injective : Function.Injective wideNibbles := fun _ _ h =>
  nibbles_injective (List.cons.inj h).2

theorem replaysEach_sample :
    EachReplays wideNibbles (run (traceStep wideNibbles) (TraceLog.empty FloatLit)
      [sampleTrace (py "s") (py "a"), sampleTrace (py "s") (py "b")]) := by
  refine (replaysEach_iff wideNibbles_injective (fun _ => List.cons_ne_nil _ _) _).mpr ?_
  have haccepted := accepted_samples wideNibbles [(py "s", py "a"), (py "s", py "b")]
    (by decide)
  simp only [List.map_cons, List.map_nil] at haccepted
  have hsession : ∀ i, (sampleTrace (py "s") i).session = py "s" := fun i => rfl
  rw [haccepted]
  constructor
  · simp only [List.forall_mem_cons]
    exact ⟨plain_sampleTrace (by decide) (by decide) (by decide),
      plain_sampleTrace (by decide) (by decide) (by decide), List.forall_mem_nil _⟩
  · simp [hsession]

/-- The second session's first record is linked to a record of the first session. -/
theorem replaysEach_fails_interleaved :
    Function.Injective wideNibbles ∧ (∀ bs, wideNibbles bs ≠ []) ∧
      ¬EachReplays wideNibbles (run (traceStep wideNibbles) (TraceLog.empty FloatLit)
        [sampleTrace (py "a") (py "note"), sampleTrace (py "b") (py "note")]) := by
  refine ⟨wideNibbles_injective, fun _ => List.cons_ne_nil _ _, fun hreplays => ?_⟩
  obtain ⟨log, h⟩ := written_run wideNibbles
    [sampleTrace (py "a") (py "note"), sampleTrace (py "b") (py "note")]
  have haccepted := accepted_samples wideNibbles
    [(py "a", py "note"), (py "b", py "note")] (by decide)
  simp only [List.map_cons, List.map_nil] at haccepted
  have hsame := ((eachReplays_iff wideNibbles_injective (fun _ => List.cons_ne_nil _ _) h).mp
    hreplays).2
  rw [haccepted] at hsame
  have hnames := hsame _ List.mem_cons_self _ (List.mem_cons_of_mem _ List.mem_cons_self)
  revert hnames
  decide

end Daryl
