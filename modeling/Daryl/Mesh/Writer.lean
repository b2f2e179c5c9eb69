import Daryl.Json.Again
import Daryl.Mesh.Events

/-!
# `DSMWriter`: the log stays bounded and readable

The writer of the mesh appends the canonical JSON of an event as a line of `events.jsonl`.  It measures
the event and the file in bytes, and refuses what would pass one of its two bounds; a bound of `0` is
none.  `Mesh.write` leaves open when a write is refused; here it is said.

A line holds what JSON has of an event: a key that is no string is one there, and a tuple a list.

## Main definitions

* `DSMWriter`, `DSMWriter.write`, `DSMWriter.readAll` — the writer.
* `BoundedLog`, `BoundedLog.step` — the log of the server, with its bounds.
* `EventDict` — a dict with an `event_id`.
* `Session`, `Session.step` — writes and injected failures, one after the other.
* `ReturnedAs` — how an event that was accepted is returned.

## Main results

* `DSMWriter.write_cases` — what one write does.
* `writer_refines` — **in every run the writer does with the events of the server what `Mesh.write`
  does**, refused by the bounds and the test hook alone.
* `log_bounded_readable` — **the log keeps its bounds, holds the accepted events and no others, and a
  write that is refused or raises leaves it alone**; an event is returned equal when it is made of what
  JSON has, and written again with its hash when its keys are stable.
-/

namespace Daryl

open Py Json

namespace Mesh

variable {F : Type} [PyFloat F]

/-! ### The writer -/

/-- `WrittenEntry`. -/
structure WrittenEntry (F : Type) where
  eventId : PyVal F
  entryHash : PyStr
  writtenAt : PyStr

/-- What a write raises. -/
inductive WriteError
  | json (e : PyError)
  | keyError
  deriving DecidableEq

/-- `DSMWriter`, with its file if there is one. -/
structure DSMWriter where
  maxEventBytes : ℕ
  maxLogBytes : ℕ
  file : Option (List Byte)
  failNext : Bool

namespace DSMWriter

/-- The bytes of the file; there are none if it does not exist. -/
def content (w : DSMWriter) : List Byte := w.file.getD []

/-- An event of so many bytes is refused, for its own size or for that of the file. -/
def refuses (w : DSMWriter) (n : ℕ) : Bool :=
  (w.maxEventBytes != 0 && w.maxEventBytes < n) ||
    (w.maxLogBytes != 0 && w.maxLogBytes < w.content.length + (n + 1))

/-- `inject_failure`. -/
def injectFailure (w : DSMWriter) (fail : Bool) : DSMWriter := { w with failNext := fail }

/-- `fh.write(line)`, to a file opened to append. -/
def append (w : DSMWriter) (line : PyStr) : DSMWriter :=
  { w with file := some (w.content ++ utf8Bytes line) }

end DSMWriter

/-- `_canonical_json`. -/
def canonicalJson (event : List (Key F × PyVal F)) : Except PyError (List Byte) :=
  match dumpsSorted lineStyle (.dict event) with
  | .error err => .error (DumpsError.toPyError err)
  | .ok text =>
    match encodeUtf8 text with
    | some canonical => .ok canonical
    | none => .error .unicodeEncodeError

namespace DSMWriter

/-- `write`; the time is an argument.  `event["event_id"]` is looked up when the line is written. -/
def write (sha : Sha256) (w : DSMWriter) (event : List (Key F × PyVal F)) (now : PyStr) :
    Except WriteError (Option (WrittenEntry F)) × DSMWriter :=
  if w.failNext then (.ok none, { w with failNext := false })
  else
    match canonicalJson event with
    | .error err => (.error (.json err), w)
    | .ok canonical =>
      if w.refuses canonical.length then (.ok none, w)
      else
        match decodeUtf8 canonical with
        | none => (.error (.json .unicodeDecodeError), w)
        | some text =>
          match dictGet (py "event_id") event with
          | none => (.error .keyError, w.append (text ++ [nl]))
          | some eventId =>
            (.ok (some ⟨eventId, hexdigest sha canonical, now⟩), w.append (text ++ [nl]))

/-- `read_all`. -/
def readAll (w : DSMWriter) : Except PyError (List (PyVal F)) :=
  match w.file with
  | none => .ok []
  | some bs => Mesh.readAll bs

@[simp] theorem content_append (w : DSMWriter) (line : PyStr) :
    (w.append line).content = w.content ++ utf8Bytes line := rfl

@[simp] theorem content_injectFailure (w : DSMWriter) (fail : Bool) :
    (w.injectFailure fail).content = w.content := rfl

/-- An empty file reads as no file. -/
theorem readAll_eq (w : DSMWriter) : w.readAll = Mesh.readAll (F := F) w.content := by
  unfold readAll content
  cases w.file with
  | none => rfl
  | some bs => rfl

end DSMWriter

/-! ### One write -/

/-- The canonical JSON of the event is the text. -/
def CanonicalText (event : List (Key F × PyVal F)) (text : PyStr) : Prop :=
  Encodable text ∧ ∃ w, sortDicts (.dict event) = some w ∧ print lineStyle w = some text

theorem canonicalJson_eq_ok {event : List (Key F × PyVal F)} {canonical : List Byte} :
    canonicalJson event = .ok canonical ↔
      ∃ text, CanonicalText event text ∧ utf8Bytes text = canonical := by
  have hdumps : ∀ text, dumpsSorted lineStyle (.dict event) = .ok text ↔ _ :=
    fun text => dumpsSorted_eq_ok
  simp only [CanonicalText, ← hdumps, canonicalJson]
  cases dumpsSorted lineStyle (.dict event) with
  | error err => exact iff_of_false nofun fun ⟨_, h, _⟩ => nomatch h.2
  | ok text =>
    dsimp only
    constructor
    · intro h
      split at h
      · next bs hbs =>
        obtain ⟨henc, heq⟩ := encodeUtf8_eq_some.mp hbs
        exact ⟨text, ⟨henc, rfl⟩, heq.trans (Except.ok.inj h)⟩
      · cases h
    · rintro ⟨text', ⟨henc, heq⟩, rfl⟩
      obtain rfl := Except.ok.inj heq
      rw [encodeUtf8_eq_some.mpr ⟨henc, rfl⟩]

/-- **What a write does**: it leaves the file alone and returns no entry, or it appends the canonical
JSON of the event as a line, within the bounds. -/
theorem DSMWriter.write_cases (sha : Sha256) (w : DSMWriter) (event : List (Key F × PyVal F))
    (now : PyStr) :
    ((∀ entry, (w.write sha event now).1 ≠ .ok (some entry)) ∧
      ∃ fail, (w.write sha event now).2 = w.injectFailure fail) ∨
    ∃ text, CanonicalText event text ∧ w.refuses (utf8Bytes text).length = false ∧
      (w.write sha event now).2 = w.append (text ++ [nl]) ∧
      (w.write sha event now).1 = match dictGet (py "event_id") event with
        | none => .error .keyError
        | some eventId => .ok (some ⟨eventId, hexdigest sha (utf8Bytes text), now⟩) := by
  unfold write
  split_ifs with hfail
  · exact .inl ⟨nofun, false, rfl⟩
  · cases hcanonical : canonicalJson event with
    | error err => exact .inl ⟨nofun, w.failNext, rfl⟩
    | ok canonical =>
      obtain ⟨text, htext, rfl⟩ := canonicalJson_eq_ok.mp hcanonical
      dsimp only
      split_ifs with hrefuses
      · exact .inl ⟨nofun, w.failNext, rfl⟩
      · rw [decodeUtf8_utf8Bytes htext.1]
        refine .inr ⟨text, htext, Bool.not_eq_true _ ▸ hrefuses, ?_, ?_⟩
        · dsimp only
          split <;> rfl
        · dsimp only
          split <;> rfl

/-! ### The events of the server -/

theorem canonicalJson_meshEvent (e : MeshEvent F) :
    canonicalJson (strItems e.items) = (canonicalEvent e).map utf8Bytes := by
  unfold canonicalJson canonicalEvent encodeUtf8 MeshEvent.toPy
  cases dumpsSorted lineStyle (.dict (strItems e.items)) with
  | error err => rfl
  | ok text =>
    dsimp only
    by_cases henc : Encodable text
    · rw [if_pos henc, if_pos henc]
      rfl
    · rw [if_neg henc, if_neg henc]
      rfl

theorem eventId_meshEvent (e : MeshEvent F) :
    dictGet (py "event_id") (strItems e.items : List (Key F × PyVal F)) = some (.str e.eventId.val) :=
  rfl

/-- How a write of the server ends, as the writer returns it. -/
def WriteEnd.toResult (sha : Sha256) (now : PyStr) :
    WriteEnd F → Except WriteError (Option (WrittenEntry F))
  | .written l => .ok (some ⟨.str l.event.eventId.val, l.entryHash sha, now⟩)
  | .refused => .ok none
  | .raised err => .error (.json err)

/-- The log of the server: its lines, the two bounds on them, and the test hook. -/
structure BoundedLog (F : Type) [PyFloat F] where
  maxEventBytes : ℕ
  maxLogBytes : ℕ
  log : List (LoggedEvent F)
  failNext : Bool

/-- The event is refused: by the test hook, or for a line that would pass a bound. -/
def BoundedLog.refuses (b : BoundedLog F) (e : MeshEvent F) : Bool :=
  b.failNext || match canonicalEvent e with
    | .ok line =>
      (b.maxEventBytes != 0 && b.maxEventBytes < (utf8Bytes line).length) ||
        (b.maxLogBytes != 0 && b.maxLogBytes < (eventsJsonl b.log ++ lineBytes line).length)
    | .error _ => false

/-- What the server asks of the writer. -/
inductive ServerCall (F : Type) [PyFloat F]
  | write (event : MeshEvent F) (now : PyStr)
  | injectFailure (fail : Bool)

/-- A call, and how the writes ended. -/
def BoundedLog.step (b : BoundedLog F × List (WriteEnd F × PyStr)) :
    ServerCall F → BoundedLog F × List (WriteEnd F × PyStr)
  | .injectFailure fail => ({ b.1 with failNext := fail }, b.2)
  | .write event now =>
    let written := Mesh.write (b.1.refuses event) event
    ({ b.1 with log := b.1.log ++ written.lines, failNext := false }, b.2 ++ [(written, now)])

/-- The call, and what the writer returned. -/
def DSMWriter.step (sha : Sha256)
    (w : DSMWriter × List (Except WriteError (Option (WrittenEntry F)))) :
    ServerCall F → DSMWriter × List (Except WriteError (Option (WrittenEntry F)))
  | .injectFailure fail => (w.1.injectFailure fail, w.2)
  | .write event now =>
    ((w.1.write sha (strItems event.items) now).2,
      w.2 ++ [(w.1.write sha (strItems event.items) now).1])

/-- The file of the writer holds the lines of the log, and the bounds are the same. -/
structure Matches (w : DSMWriter) (b : BoundedLog F) : Prop where
  maxEventBytes : w.maxEventBytes = b.maxEventBytes
  maxLogBytes : w.maxLogBytes = b.maxLogBytes
  failNext : w.failNext = b.failNext
  content : w.content = eventsJsonl b.log

/-- The writer refuses what passes a bound of the log. -/
theorem Matches.refuses {w : DSMWriter} {b : BoundedLog F} (h : Matches w b) {e : MeshEvent F}
    {line : PyStr} (hline : canonicalEvent e = .ok line) (hfail : b.failNext = false) :
    b.refuses e = w.refuses (utf8Bytes line).length := by
  have hlength : (eventsJsonl b.log ++ lineBytes line).length
      = w.content.length + ((utf8Bytes line).length + 1) := by
    rw [← h.content, lineBytes, utf8Bytes_append, List.length_append, List.length_append]
    rfl
  rw [BoundedLog.refuses, hfail, hline, Bool.false_or, DSMWriter.refuses, h.maxEventBytes,
    h.maxLogBytes]
  dsimp only
  rw [hlength]

/-- **An event of the server is written as `Mesh.write` has it**, refused when the log says so. -/
theorem Matches.write {w : DSMWriter} {b : BoundedLog F} (h : Matches w b) (sha : Sha256)
    (e : MeshEvent F) (now : PyStr) :
    (w.write sha (strItems e.items) now).1 = (Mesh.write (b.refuses e) e).toResult sha now ∧
      Matches (w.write sha (strItems e.items) now).2
        { b with log := b.log ++ (Mesh.write (b.refuses e) e).lines, failNext := false } := by
  have hnone : ∀ v : DSMWriter, v = w.injectFailure false → Matches v
      { b with log := b.log ++ [], failNext := false } := by
    rintro v rfl
    exact ⟨h.maxEventBytes, h.maxLogBytes, rfl, by rw [List.append_nil]; exact h.content⟩
  unfold DSMWriter.write
  rw [canonicalJson_meshEvent, eventId_meshEvent]
  split_ifs with hfail
  · -- by the test hook
    have hrefuses : b.refuses e = true := by rw [BoundedLog.refuses, ← h.failNext, hfail, Bool.true_or]
    rw [hrefuses]
    exact ⟨rfl, hnone _ rfl⟩
  · have hfail' : b.failNext = false := by rw [← h.failNext, Bool.eq_false_of_not_eq_true hfail]
    have hsame : w = w.injectFailure false := by
      rw [DSMWriter.injectFailure, ← Bool.eq_false_of_not_eq_true hfail]
    cases hline : canonicalEvent e with
    | error err =>
      have hrefuses : b.refuses e = false := by rw [BoundedLog.refuses, hfail', hline, Bool.false_or]
      rw [hrefuses, write_eq_raised hline]
      exact ⟨rfl, hnone w hsame⟩
    | ok line =>
      rw [Except.map, h.refuses hline hfail']
      dsimp only
      cases hfits : w.refuses (utf8Bytes line).length with
      | true => exact ⟨rfl, hnone w hsame⟩
      | false =>
        rw [if_neg Bool.false_ne_true, decodeUtf8_utf8Bytes (canonicalEvent_eq_ok.mp hline).1,
          write_eq_written hline]
        refine ⟨rfl, h.maxEventBytes, h.maxLogBytes, Bool.eq_false_of_not_eq_true hfail, ?_⟩
        rw [DSMWriter.content_append, h.content, eventsJsonl, eventsJsonl, List.flatMap_append]
        exact congrArg _ (List.flatMap_singleton _ _).symm

/-- **In every run from an empty log the writer does with the events of the server what `Mesh.write`
does**, refused by the test hook and by the bounds alone: it returns how the writes end, its file is the
lines of those that were written, and from it they are read. -/
theorem writer_refines (sha : Sha256) (maxEventBytes maxLogBytes : ℕ) (failNext : Bool)
    (calls : List (ServerCall F)) :
    let w := Run.run (DSMWriter.step sha) (⟨maxEventBytes, maxLogBytes, none, failNext⟩, []) calls
    let b := Run.run BoundedLog.step (⟨maxEventBytes, maxLogBytes, [], failNext⟩, []) calls
    w.1.content = eventsJsonl b.1.log ∧
      w.2 = b.2.map (fun r => r.1.toResult sha r.2) ∧
      b.1.log = b.2.flatMap (fun r => r.1.lines) ∧
      w.1.readAll = .ok (b.1.log.map LoggedEvent.stored) := by
  intro w b
  obtain ⟨hmatches, hresults, hlog⟩ : Matches w.1 b.1 ∧
      w.2 = b.2.map (fun r => r.1.toResult sha r.2) ∧ b.1.log = b.2.flatMap fun r => r.1.lines := by
    induction calls using List.reverseRecOn with
    | nil => exact ⟨⟨rfl, rfl, rfl, rfl⟩, rfl, rfl⟩
    | append_singleton calls call ih =>
      obtain ⟨hmatches, hresults, hlog⟩ := ih
      simp only [w, b, Run.run_append, Run.run_cons, Run.run_nil]
      cases call with
      | injectFailure fail =>
        exact ⟨⟨hmatches.maxEventBytes, hmatches.maxLogBytes, rfl, hmatches.content⟩, hresults, hlog⟩
      | write event now =>
        obtain ⟨hresult, hmatches'⟩ := hmatches.write sha event now
        refine ⟨hmatches', ?_, ?_⟩
        · rw [DSMWriter.step, BoundedLog.step, hresults, hresult, List.map_append]
          rfl
        · rw [BoundedLog.step, hlog, List.flatMap_append, List.flatMap_singleton]
  refine ⟨hmatches.content, hresults, hlog, ?_⟩
  rw [DSMWriter.readAll_eq, hmatches.content, readAll_eventsJsonl]

/-! ### A session -/

/-- An event: a dict with an `event_id`. -/
structure EventDict (F : Type) [PyFloat F] where
  items : List (Key F × PyVal F)
  keysOnce : Json.keysOnce (.dict items)
  eventId : PyVal F
  has_eventId : dictGet (py "event_id") items = some eventId

/-- The dict as a value. -/
def EventDict.toPy (event : EventDict F) : PyVal F := .dict event.items

/-- What is asked of a writer. -/
inductive WriterCall (F : Type) [PyFloat F]
  | write (event : EventDict F) (now : PyStr)
  | injectFailure (fail : Bool)

/-- A writer, and the events it accepted with the entries it returned. -/
structure Session (F : Type) [PyFloat F] where
  writer : DSMWriter
  accepted : List (EventDict F × WrittenEntry F)

/-- The event, if the write returned an entry. -/
def acceptedWith (event : EventDict F) :
    Except WriteError (Option (WrittenEntry F)) → List (EventDict F × WrittenEntry F)
  | .ok (some entry) => [(event, entry)]
  | _ => []

/-- One call. -/
def Session.step (sha : Sha256) (s : Session F) : WriterCall F → Session F
  | .injectFailure fail => { s with writer := s.writer.injectFailure fail }
  | .write event now =>
    ⟨(s.writer.write sha event.items now).2,
      s.accepted ++ acceptedWith event (s.writer.write sha event.items now).1⟩

/-- How an event that was accepted is returned: equal, if it is made of what JSON has and only then, and
with the canonical JSON of which the write returned the hash, if its keys are stable and only then. -/
structure ReturnedAs (sha : Sha256) (a : EventDict F × WrittenEntry F) (v : PyVal F) : Prop where
  readBack : v = readBack a.1.toPy
  equal_iff : pyEq a.1.toPy v = true ↔ native a.1.toPy
  rehashed_iff : ∃ kvs canonical, v = .dict kvs ∧ canonicalJson a.1.items = .ok canonical ∧
    a.2.entryHash = hexdigest sha canonical ∧
    (canonicalJson kvs = .ok canonical ↔ stable a.1.toPy = true)

/-- The text is the line of an event that was accepted. -/
def LineOf (sha : Sha256) (a : EventDict F × WrittenEntry F) (text : PyStr) : Prop :=
  CanonicalText a.1.items text ∧ a.2.entryHash = hexdigest sha (utf8Bytes text)

/-- The file holds the lines of the events that were accepted, within the bounds. -/
structure Session.Holds (sha : Sha256) (maxEventBytes maxLogBytes : ℕ) (s : Session F)
    (texts : List PyStr) : Prop where
  eventBound : s.writer.maxEventBytes = maxEventBytes
  logBound : s.writer.maxLogBytes = maxLogBytes
  content : s.writer.content = texts.flatMap lineBytes
  bounded : s.writer.content.length ≤ maxLogBytes
  short : ∀ text ∈ texts, (utf8Bytes text).length ≤ maxEventBytes
  lines : List.Forall₂ (LineOf sha) s.accepted texts

theorem DSMWriter.refuses_eq_false {w : DSMWriter} {n : ℕ} (h : w.refuses n = false)
    (hEvent : 0 < w.maxEventBytes) (hLog : 0 < w.maxLogBytes) :
    n ≤ w.maxEventBytes ∧ w.content.length + (n + 1) ≤ w.maxLogBytes := by
  simp only [refuses, Bool.or_eq_false_iff, Bool.and_eq_false_iff, bne_eq_false_iff_eq,
    decide_eq_false_iff_not, not_lt] at h
  exact ⟨h.1.resolve_left hEvent.ne', h.2.resolve_left hLog.ne'⟩

theorem acceptedWith_eq_nil {event : EventDict F} {r : Except WriteError (Option (WrittenEntry F))}
    (h : ∀ entry, r ≠ .ok (some entry)) : acceptedWith event r = [] := by
  unfold acceptedWith
  split
  · next entry => exact absurd rfl (h entry)
  · rfl

/-- One call keeps the file. -/
theorem Session.Holds.step {sha : Sha256} {maxEventBytes maxLogBytes : ℕ} {s : Session F}
    {texts : List PyStr} (hEvent : 0 < maxEventBytes) (hLog : 0 < maxLogBytes)
    (h : s.Holds sha maxEventBytes maxLogBytes texts) (call : WriterCall F) :
    ∃ texts', (s.step sha call).Holds sha maxEventBytes maxLogBytes texts' := by
  cases call with
  | injectFailure fail =>
    exact ⟨texts, h.eventBound, h.logBound, h.content, h.bounded, h.short, h.lines⟩
  | write event now =>
    rcases s.writer.write_cases sha event.items now with
      ⟨hnot, fail, hwriter⟩ | ⟨text, htext, hfits, hwriter, hresult⟩
    · have hstep : s.step sha (.write event now)
          = { s with writer := s.writer.injectFailure fail } := by
        rw [Session.step, hwriter, acceptedWith_eq_nil hnot, List.append_nil]
      exact ⟨texts, hstep ▸
        ⟨h.eventBound, h.logBound, h.content, h.bounded, h.short, h.lines⟩⟩
    · rw [event.has_eventId] at hresult
      dsimp only at hresult
      rw [Session.step, hwriter, hresult]
      obtain ⟨hshort, hroom⟩ := DSMWriter.refuses_eq_false hfits (h.eventBound ▸ hEvent)
        (h.logBound ▸ hLog)
      rw [h.eventBound] at hshort
      rw [h.logBound] at hroom
      refine ⟨texts ++ [text], h.eventBound, h.logBound, ?_, ?_, ?_, ?_⟩
      · rw [DSMWriter.content_append, h.content, List.flatMap_append, List.flatMap_singleton,
          lineBytes]
      · rw [DSMWriter.content_append, List.length_append, utf8Bytes_append, List.length_append]
        exact hroom
      · rw [List.forall_mem_append, List.forall_mem_singleton]
        exact ⟨h.short, hshort⟩
      · exact List.rel_append h.lines (.cons ⟨htext, rfl⟩ .nil)

/-- The canonical JSON of an event is that of what is read back exactly when the keys are stable. -/
theorem canonicalJson_readBack_iff {event : EventDict F} {text : PyStr} {kvs : List (Key F × PyVal F)}
    (htext : CanonicalText event.items text) (hback : readBack event.toPy = .dict kvs) :
    canonicalJson kvs = .ok (utf8Bytes text) ↔ stable event.toPy = true := by
  obtain ⟨henc, w, hw, hprint⟩ := htext
  obtain ⟨w', hw', -⟩ := sortDicts_of_stable (stable_form w)
  have hform : form w = .dict kvs := (readBack_of_sortDicts hw).symm.trans hback
  rw [EventDict.toPy, ← print_again_iff event.keysOnce hw hprint hw' (by simp [lineStyle]),
    canonicalJson_eq_ok]
  constructor
  · rintro ⟨text', ⟨henc', w'', hw'', hprint'⟩, hbytes⟩
    obtain rfl := utf8Bytes_inj henc' henc hbytes
    rw [hform, hw''] at hw'
    rwa [Option.some.inj hw'] at hprint'
  · intro hprint'
    exact ⟨text, ⟨henc, w', hform ▸ hw', hprint'⟩, rfl⟩

/-- An accepted event is read from its line. -/
theorem LineOf.returned {sha : Sha256} {a : EventDict F × WrittenEntry F} {text : PyStr}
    (h : LineOf sha a text) :
    ReadsAs text (readBack a.1.toPy) ∧ ReturnedAs sha a (readBack a.1.toPy) := by
  obtain ⟨htext, hhash⟩ := h
  have ⟨henc, w, hw, hprint⟩ := htext
  obtain ⟨lws, hlws⟩ := exists_dict_of_sortDicts hw
  have hback : readBack a.1.toPy = .dict (dictOf (formItems lws)) := by
    rw [EventDict.toPy, readBack_of_sortDicts hw, hlws, form]
  exact ⟨readsAs_print hw hprint henc, rfl, pyEq_readBack_iff hw a.1.keysOnce, _, utf8Bytes text, hback,
    canonicalJson_eq_ok.mpr ⟨text, htext, rfl⟩, hhash, canonicalJson_readBack_iff htext hback⟩

/-- The file of a session is read back, line by line. -/
theorem Session.Holds.read {sha : Sha256} {maxEventBytes maxLogBytes : ℕ} {s : Session F}
    {texts : List PyStr} (h : s.Holds sha maxEventBytes maxLogBytes texts) :
    (∀ line ∈ s.writer.content.splitOn 10, line.length ≤ maxEventBytes) ∧
      ∃ vs, s.writer.readAll = .ok vs ∧ List.Forall₂ (ReturnedAs sha) s.accepted vs := by
  obtain ⟨vs, hreads, hreturned⟩ : ∃ vs, List.Forall₂ ReadsAs texts vs ∧
      List.Forall₂ (ReturnedAs sha) s.accepted vs := by
    have hlines := h.lines
    clear h
    generalize s.accepted = accepted at hlines
    induction hlines with
    | nil => exact ⟨[], .nil, .nil⟩
    | cons hline _ ih =>
      obtain ⟨vs, hreads, hreturned⟩ := ih
      exact ⟨_, .cons hline.returned.1 hreads, .cons hline.returned.2 hreturned⟩
  refine ⟨fun line hline => ?_, vs, ?_, hreturned⟩
  · have hplain : ∀ text ∈ texts, PlainLine text := by
      intro text htext
      obtain ⟨v, -, hv⟩ := Pointwise.exists_of_mem_left hreads htext
      exact hv.plain
    rw [h.content, splitOn_lines hplain, List.mem_append, List.mem_map, List.mem_singleton] at hline
    obtain ⟨text, htext, rfl⟩ | rfl := hline
    · exact h.short text htext
    · exact Nat.zero_le _
  · rw [DSMWriter.readAll_eq, h.content, readAll_lines hreads]

/-- **From an empty log on, whatever is written: the file keeps its bound, and every line its own; what
is refused or raises leaves the file alone; and of every event accepted, in their order, what JSON has of
it is returned.** -/
theorem log_bounded_readable (sha : Sha256) (maxEventBytes maxLogBytes : ℕ)
    (hEvent : 0 < maxEventBytes) (hLog : 0 < maxLogBytes) (file : Option (List Byte))
    (hempty : file.getD [] = []) (failNext : Bool) (calls : List (WriterCall F)) :
    let s := Run.run (Session.step sha) ⟨⟨maxEventBytes, maxLogBytes, file, failNext⟩, []⟩ calls
    s.writer.content.length ≤ maxLogBytes ∧
      (∀ line ∈ s.writer.content.splitOn 10, line.length ≤ maxEventBytes) ∧
      (∀ (event : EventDict F) (now : PyStr),
        (∀ entry, (s.writer.write sha event.items now).1 ≠ .ok (some entry)) →
          (s.writer.write sha event.items now).2.file = s.writer.file) ∧
      ∃ vs, s.writer.readAll = .ok vs ∧ List.Forall₂ (ReturnedAs sha) s.accepted vs := by
  intro s
  obtain ⟨texts, h⟩ : ∃ texts, s.Holds sha maxEventBytes maxLogBytes texts :=
    Run.run_keeps (P := fun s => ∃ texts, Session.Holds sha maxEventBytes maxLogBytes s texts)
      (fun s call hs => hs.elim fun texts hs => hs.step hEvent hLog call)
      (s := ⟨⟨maxEventBytes, maxLogBytes, file, failNext⟩, []⟩)
      ⟨[], rfl, rfl, hempty, (congrArg List.length hempty).trans_le (Nat.zero_le _), by simp, .nil⟩ calls
  refine ⟨h.bounded, h.read.1, fun event now hnot => ?_, h.read.2⟩
  rcases s.writer.write_cases sha event.items now with
    ⟨-, fail, hwriter⟩ | ⟨text, -, -, -, hresult⟩
  · rw [hwriter]
    rfl
  · rw [event.has_eventId] at hresult
    exact absurd hresult (hnot _)

/-- An event with a line separator in its identifier, of eighteen bytes. -/
def separatorEvent : EventDict FloatLit where
  items := strItems [(py "event_id", .str [8232])]
  keysOnce := ⟨⟨trivial, trivial⟩, List.nodup_singleton _⟩
  eventId := .str [8232]
  has_eventId := by decide +kernel

/-- It is written twice with room for no more; in between a failure is injected. -/
def separatorCalls : List (WriterCall FloatLit) :=
  [.write separatorEvent (py "t"), .injectFailure true, .write separatorEvent (py "t"),
    .write separatorEvent (py "t"), .write separatorEvent (py "t")]

/-- The session of a log of just two lines of just eighteen bytes. -/
def separatorSession : Session FloatLit :=
  Run.run (Session.step nibbles) ⟨⟨18, 38, none, false⟩, []⟩ separatorCalls

/-- **Both bounds are reached and kept**, and the two events are returned. -/
theorem separator_bounded_readable :
    separatorSession.writer.content.length = 38 ∧ separatorSession.accepted.length = 2 ∧
      (∀ line ∈ separatorSession.writer.content.splitOn 10, line.length ≤ 18) ∧
      ∃ vs, separatorSession.writer.readAll = .ok vs ∧
        List.Forall₂ (ReturnedAs nibbles) separatorSession.accepted vs := by
  obtain ⟨-, hlines, -, hread⟩ := log_bounded_readable nibbles 18 38 (by decide) (by decide) none rfl
    false separatorCalls
  exact ⟨by decide +kernel, by decide +kernel, hlines, hread⟩

/-- An event with a payload whose keys are two numbers. -/
def numberEvent : EventDict FloatLit where
  items := [(.str (py "event_id"), .str (py "e")),
    (.str (py "payload"), .dict [(.int 2, .int 0), (.int 10, .int 0)])]
  keysOnce := ⟨⟨trivial, ⟨⟨trivial, trivial, trivial⟩, by decide⟩, trivial⟩, by decide⟩
  eventId := .str (py "e")
  has_eventId := by decide +kernel

/-- What is read back of it; the number `10` came after `2`. -/
def numberBack : List (Key FloatLit × PyVal FloatLit) :=
  [(.str (py "event_id"), .str (py "e")),
    (.str (py "payload"), .dict [(.str (py "2"), .int 0), (.str (py "10"), .int 0)])]

/-- **An event whose keys are numbers is accepted, and another dict is returned**, with another hash:
there the key `"10"` comes before `"2"`. -/
theorem number_event_returned :
    let s := Run.run (Session.step nibbles) ⟨⟨100, 100, none, false⟩, []⟩ [.write numberEvent (py "t")]
    s.accepted.map (fun a => a.1.items) = [numberEvent.items] ∧
      s.writer.readAll = .ok [.dict numberBack] ∧
      pyEq numberEvent.toPy (.dict numberBack) = false ∧
      ∃ canonical, canonicalJson numberBack = .ok canonical ∧
        s.accepted.map (fun a => a.2.entryHash) ≠ [hexdigest nibbles canonical] := by
  refine ⟨by decide +kernel, by decide +kernel, by decide +kernel, utf8Bytes (py
    "\x7b\"event_id\":\"e\",\"payload\":\x7b\"10\":0,\"2\":0\x7d\x7d"), by decide +kernel, by decide +kernel⟩

end Mesh

end Daryl
