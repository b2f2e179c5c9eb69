import Daryl.Mesh.Server

/-!
# Starts and stops

A server writes an event when it starts and one when it stops.  At the next start the last of
these events decides whether the run before it crashed.  The log is read strictly: one line that
is no JSON, and the server does not start.

## Main definitions

* `detectRecovery` — `_detect_recovery`.
* `Process`, `DataDir`, `serverRun` — one run of a server, cut off at any byte, and what it
  leaves.
* `Noticed` — the next start succeeds and sees whether the run before it stopped.
* `CutsAtLine`, `CrashSeen` — a crash at the end of a line, and one that the next start sees.

## Main results

* `detectRecovery_append` — what is read of complete lines, and of what follows them.
* `readAll_torn`, `readAll_merged` — neither a torn line is read, nor one that another was
  written onto.
* `noticed_serverRun` — one run is noticed exactly when its crash is seen.
* `noticed_always_iff` — **unclean shutdowns are noticed in exactly the sequences of runs whose
  crashes are seen.**
* `second_crash_unnoticed` — two crashes in a row.
-/

namespace Daryl

open Py Json Run

namespace Mesh

variable {F : Type} [PyFloat F]

/-! ### What a start reads -/

/-- `v == s`, for a string `s`. -/
def isStr (v : Option (PyVal F)) (s : PyStr) : Bool :=
  match v with
  | some (.str t) => t == s
  | _ => false

/-- One turn of the loop of `_detect_recovery`. -/
def seeLifecycle (last : Option (PyVal F)) : PyVal F → Except PyError (Option (PyVal F))
  | .dict e =>
    .ok (if isStr (dictGet (py "scope_id") e) (py "system.server.lifecycle") then
      dictGet (py "event_type") e else last)
  | _ => .error .attributeError

/-- `_detect_recovery`, on the bytes of `events.jsonl`. -/
def detectRecovery (F : Type) [PyFloat F] (bs : List Byte) : Except PyError Bool :=
  (readAll (F := F) bs).bind fun events =>
    (events.foldlM seeLifecycle none).map fun last => isStr last (py "server_started")

/-! ### Runs of a server -/

/-- One run of a server: what is asked of it, and the byte at which a crash cuts off what it
writes. -/
structure Process (F : Type) [PyFloat F] where
  deployment : Deployment
  startTime : Text
  requests : List (Request F)
  stopTime : Text
  crash : Option ℕ

namespace Process

/-- The memory of a server that has just started. -/
def fresh (p : Process F) : AppState F :=
  { started F p.deployment p.startTime with log := [] }

/-- The state when the server stops, with the events of the requests. -/
def final (p : Process F) : AppState F := run (serve p.deployment) p.fresh p.requests

/-- The event of the start. -/
def startEvent (p : Process F) (recovered : Bool) : MeshEvent F :=
  systemEvent (p.deployment.ulids.next 0) p.startTime lifecycleScope p.deployment.serverId
    (if recovered then .serverRecovered p.deployment.serverId
      else .serverStarted p.deployment.serverId)

/-- The event of the stop. -/
def stopEvent (p : Process F) : MeshEvent F :=
  systemEvent (p.deployment.ulids.next p.final.drawn) p.stopTime lifecycleScope
    p.deployment.serverId (.serverStopped p.deployment.serverId)

/-- What the server writes until it has stopped. -/
def log (p : Process F) (recovered : Bool) : List (LoggedEvent F) :=
  (write false (p.startEvent recovered)).lines ++ p.final.log ++ (write false p.stopEvent).lines

/-- The bytes of these events. -/
def bytes (p : Process F) (recovered : Bool) : List Byte := eventsJsonl (p.log recovered)

end Process

/-- A data directory, and whether the run before this one left without its `server_stopped`. -/
structure DataDir where
  events : List Byte
  unclean : Bool
  deriving DecidableEq

/-- A new data directory. -/
def DataDir.empty : DataDir := ⟨[], false⟩

/-- What a run of a server leaves. -/
def serverRun (s : DataDir) (p : Process F) : DataDir :=
  match detectRecovery F s.events with
  | .error _ => ⟨s.events, true⟩
  | .ok recovered =>
    match p.crash with
    | none => ⟨s.events ++ p.bytes recovered, false⟩
    | some k => ⟨s.events ++ (p.bytes recovered).take k, decide (k < (p.bytes recovered).length)⟩

/-- The next start succeeds, and writes `server_recovered` exactly when the last run did not
write `server_stopped`. -/
def Noticed (F : Type) [PyFloat F] (s : DataDir) : Prop :=
  detectRecovery F s.events = .ok s.unclean

/-! ### Complete lines, and what follows them -/

/-- A line, and what follows it. -/
theorem textLines_line_append {line : PyStr} (h : PlainLine line) (bs : List Byte) :
    textLines (lineBytes line ++ bs) = (textLines bs).map (line :: ·) := by
  have henc : Encodable (line ++ [nl]) := encodable_append.mpr ⟨h.encodable, by decide⟩
  have hcr : cr ∉ line ++ [nl] := by simpa using ⟨h.cr, by decide⟩
  rw [textLines, textLines, lineBytes, decodeUtf8_utf8Bytes_append henc]
  cases decodeUtf8 bs with
  | none => rfl
  | some u =>
    rw [Option.map_some]
    dsimp only
    rw [universalNewlines_append hcr, List.append_assoc, List.singleton_append,
      splitNl_line_append _ h.nl]
    rfl

theorem eventsJsonl_append (log log' : List (LoggedEvent F)) :
    eventsJsonl (log ++ log') = eventsJsonl log ++ eventsJsonl log' := List.flatMap_append

theorem eventsJsonl_cons (l : LoggedEvent F) (log : List (LoggedEvent F)) :
    eventsJsonl (l :: log) = lineBytes l.line ++ eventsJsonl log := List.flatMap_cons

/-- **The events of complete lines are read, and then what follows them.** -/
theorem readAll_append (log : List (LoggedEvent F)) (bs : List Byte) :
    readAll (F := F) (eventsJsonl log ++ bs) =
      (readAll bs).map (log.map LoggedEvent.stored ++ ·) := by
  induction log with
  | nil =>
    simp only [eventsJsonl, List.flatMap_nil, List.nil_append, List.map_nil]
    cases readAll (F := F) bs <;> rfl
  | cons l log ih =>
    have hblank : notBlank l.line = true := by simpa [notBlank] using l.strip_line_ne_nil
    rw [eventsJsonl_cons, List.append_assoc]
    rw [readAll] at ih ⊢
    rw [textLines_line_append l.plain]
    cases htext : textLines (eventsJsonl log ++ bs) with
    | error err =>
      rw [htext] at ih
      cases hread : readAll (F := F) bs with
      | error err' =>
        rw [hread] at ih
        exact congrArg _ (Except.error.inj ih)
      | ok vs =>
        rw [hread] at ih
        cases ih
    | ok lines =>
      rw [htext] at ih
      simp only [Except.map, Except.bind] at ih ⊢
      rw [List.filter_cons_of_pos hblank, List.mapM_cons, l.loads_line]
      simp only [bind, Except.bind, pure, Except.pure]
      rw [ih]
      cases readAll (F := F) bs <;> rfl

/-- The type of the last event of the life cycle, or what it was before. -/
def lifecycleAfter (last : Option PyStr) (log : List (LoggedEvent F)) : Option PyStr :=
  log.foldl (fun last l =>
    if l.event.scopeId = lifecycleScope then some l.event.payload.eventType else last) last

theorem lifecycleAfter_append (last : Option PyStr) (log log' : List (LoggedEvent F)) :
    lifecycleAfter last (log ++ log') = lifecycleAfter (lifecycleAfter last log) log' :=
  List.foldl_append

theorem lifecycleAfter_singleton {last : Option PyStr} {l : LoggedEvent F}
    (h : l.event.scopeId = lifecycleScope) :
    lifecycleAfter last [l] = some l.event.payload.eventType := if_pos h

/-- Events of other scopes do not count. -/
theorem lifecycleAfter_others {last : Option PyStr} {log : List (LoggedEvent F)}
    (h : ∀ l ∈ log, l.event.scopeId ≠ lifecycleScope) : lifecycleAfter last log = last := by
  induction log with
  | nil => rfl
  | cons l log ih =>
    rw [lifecycleAfter, List.foldl_cons, if_neg (h l List.mem_cons_self)]
    exact ih fun l' hl' => h l' (List.mem_cons_of_mem _ hl')

/-- The loop sees the events that were written. -/
theorem foldlM_seeLifecycle (last : Option PyStr) (log : List (LoggedEvent F)) :
    (log.map LoggedEvent.stored).foldlM seeLifecycle (last.map .str) =
      .ok ((lifecycleAfter last log).map .str) := by
  induction log generalizing last with
  | nil => rfl
  | cons l log ih =>
    obtain ⟨kvs, hkvs, hget⟩ := l.stored_get
    have hscope : dictGet (py "scope_id") kvs = some (.str l.event.scopeId.val) :=
      hget (py "scope_id", .str l.event.scopeId.val) (by simp [MeshEvent.items])
    have htype : dictGet (py "event_type") kvs = some (.str l.event.payload.eventType) :=
      hget (py "event_type", .str l.event.payload.eventType) (by simp [MeshEvent.items])
    have hsee : seeLifecycle (last.map .str) l.stored = .ok ((if l.event.scopeId = lifecycleScope
        then some l.event.payload.eventType else last).map (.str : PyStr → PyVal F)) := by
      rw [hkvs, seeLifecycle, hscope, htype]
      by_cases h : l.event.scopeId = lifecycleScope
      · rw [if_pos h, if_pos (by rw [h]; rfl)]
        rfl
      · rw [if_neg h, if_neg]
        intro heq
        exact h (Subtype.ext (beq_iff_eq.mp heq))
    rw [List.map_cons, List.foldlM_cons, hsee]
    exact ih _

/-- **What a start sees after complete lines.** -/
theorem detectRecovery_append (log : List (LoggedEvent F)) (bs : List Byte) :
    detectRecovery F (eventsJsonl log ++ bs) = (readAll (F := F) bs).bind fun events =>
      (events.foldlM seeLifecycle ((lifecycleAfter none log).map .str)).map fun last =>
        isStr last (py "server_started") := by
  rw [detectRecovery, readAll_append]
  cases readAll (F := F) bs with
  | error err => rfl
  | ok events =>
    simp only [Except.map, Except.bind]
    rw [List.foldlM_append]
    have hfold := foldlM_seeLifecycle (F := F) none log
    rw [Option.map_none] at hfold
    simp only [hfold, bind, Except.bind]

/-- A start after complete lines sees the last event of the life cycle. -/
theorem detectRecovery_eventsJsonl (log : List (LoggedEvent F)) :
    detectRecovery F (eventsJsonl log) =
      .ok (decide (lifecycleAfter none log = some (py "server_started"))) := by
  have hfold := foldlM_seeLifecycle (F := F) none log
  rw [Option.map_none] at hfold
  rw [detectRecovery, readAll_eventsJsonl, Except.bind]
  rw [hfold, Except.map]
  cases lifecycleAfter none log with
  | none => rfl
  | some t => simp [isStr, beq_eq_decide]

/-- A last line is read without its newline too. -/
theorem readAll_openLine (log : List (LoggedEvent F)) (l : LoggedEvent F) :
    readAll (F := F) (eventsJsonl log ++ utf8Bytes l.line) = readAll (eventsJsonl (log ++ [l])) := by
  have hblank : notBlank l.line = true := by simpa [notBlank] using l.strip_line_ne_nil
  have hline : readAll (F := F) (utf8Bytes l.line) = .ok [l.stored] := by
    rw [readAll, textLines, decodeUtf8_utf8Bytes l.plain.encodable]
    dsimp only
    rw [universalNewlines_eq_self l.plain.cr, splitNl_eq_singleton l.plain.nl, Except.bind]
    rw [List.filter_cons_of_pos hblank, List.filter_nil, List.mapM_cons, l.loads_line]
    rfl
  rw [readAll_append, hline, readAll_eventsJsonl, List.map_append]
  rfl

/-- **A torn line is not read.** -/
theorem readAll_torn (l : LoggedEvent F) {p r : List Byte} (h : utf8Bytes l.line = p ++ r)
    (hp : p ≠ []) (hr : r ≠ []) : ∃ err, readAll (F := F) p = .error err := by
  rw [readAll, textLines]
  cases hu : decodeUtf8 p with
  | none => exact ⟨_, rfl⟩
  | some u =>
    obtain ⟨rfl, v, hv⟩ := decodeUtf8_splits l.plain.encodable h hu
    obtain ⟨kvs, -, hline⟩ := l.exists_print
    obtain ⟨s, hs⟩ := print_dict_shape hline
    obtain ⟨u, rfl⟩ : ∃ u', u = 123 :: u' := by
      cases u with
      | nil => exact absurd rfl hp
      | cons c u =>
        rw [hs, List.cons_append, List.cons_append] at hv
        exact ⟨u, by rw [(List.cons.inj hv).1]⟩
    have hvne : v ≠ [] := by
      rintro rfl
      rw [List.append_nil] at hv
      rw [hv] at h
      exact hr (List.append_right_eq_self.mp h.symm)
    have hmem {c : CodePoint} (hc : c ∉ l.line) : c ∉ 123 :: u := fun hcu =>
      hc (hv ▸ List.mem_append_left _ hcu)
    -- what stripping leaves is a beginning of the line, and not all of it
    obtain ⟨r', hr'⟩ := strip_cons_isPrefix (a := 123) (by decide) u
    have hload : (loads (strip (123 :: u)) : Option (PyVal F)) = none :=
      loads_torn (r := r' ++ v) hline (by simp [lineStyle])
        (by rw [hv, ← List.append_assoc, hr']) (by simp [hvne])
    have hblank : notBlank (123 :: u) = true := by simpa [notBlank] using strip_cons_ne_nil (by decide) u
    dsimp only
    rw [universalNewlines_eq_self (hmem l.plain.cr), splitNl_eq_singleton (hmem l.plain.nl),
      Except.bind]
    rw [List.filter_cons_of_pos hblank, List.filter_nil, List.mapM_cons, hload]
    exact ⟨_, rfl⟩

/-- **Nor is a line that another one was written onto.** -/
theorem readAll_merged (l : LoggedEvent F) (bs : List Byte) :
    ∃ err, readAll (F := F) (utf8Bytes l.line ++ 123 :: bs) = .error err := by
  have hbrace : decodeUtf8 (123 :: bs) = (decodeUtf8 bs).map ((123 : CodePoint) :: ·) :=
    decodeUtf8_utf8Bytes_append (s := [123]) (by decide) bs
  rw [readAll, textLines, decodeUtf8_utf8Bytes_append l.plain.encodable, hbrace]
  cases decodeUtf8 bs with
  | none => exact ⟨_, rfl⟩
  | some u =>
    obtain ⟨kvs, -, hline⟩ := l.exists_print
    obtain ⟨s, hs⟩ := print_dict_shape hline
    have hnl : nl ∉ l.line ++ [123] := by
      rw [List.mem_append, List.mem_singleton]
      exact not_or.mpr ⟨l.plain.nl, by decide⟩
    have hcr : cr ∉ l.line ++ [123] := by
      rw [List.mem_append, List.mem_singleton]
      exact not_or.mpr ⟨l.plain.cr, by decide⟩
    obtain ⟨t, ls, -, hsplit⟩ := splitNl_prefixed hnl (universalNewlines false u)
    have htext : splitNl (universalNewlines false (l.line ++ 123 :: u))
        = (l.line ++ 123 :: t) :: ls := by
      rw [List.append_cons l.line 123 u, universalNewlines_append hcr, hsplit,
        List.append_cons l.line 123 t]
    obtain ⟨t', hstrip⟩ := strip_append_cons (a := 123) (b := 123) (by decide) (by decide)
      (s ++ [125]) t
    have hload : (loads (strip (l.line ++ 123 :: t)) : Option (PyVal F)) = none := by
      rw [hs] at hline ⊢
      rw [List.cons_append, hstrip]
      exact loads_trailing hline (by simp [lineStyle]) (by decide)
        ⟨by decide, by decide, by decide, by decide⟩
    have hblank : notBlank (l.line ++ 123 :: t) = true := by
      rw [hs, List.cons_append, notBlank, hstrip]
      rfl
    rw [Option.map_some, Option.map_some]
    dsimp only
    rw [htext, Except.bind]
    rw [List.filter_cons_of_pos hblank, List.mapM_cons, hload]
    exact ⟨_, rfl⟩

/-! ### What a server writes -/

theorem missionScope_ne (missionId : Text) : missionScope missionId ≠ lifecycleScope := by
  intro h
  exact absurd (List.cons.inj (congrArg Subtype.val h)).1 (by decide)

/-- **The events of a request are not of the life cycle.** -/
theorem scopes_serve {d : Deployment} {s : AppState F}
    (h : ∀ l ∈ s.log, l.event.scopeId ≠ lifecycleScope) (r : Request F) :
    ∀ l ∈ (serve d s r).log, l.event.scopeId ≠ lifecycleScope := by
  have happend {log ls : List (LoggedEvent F)} (hlog : ∀ l ∈ log, l.event.scopeId ≠ lifecycleScope)
      (hls : ∀ l ∈ ls, l.event.scopeId ≠ lifecycleScope) :
      ∀ l ∈ log ++ ls, l.event.scopeId ≠ lifecycleScope := fun l hl =>
    (List.mem_append.mp hl).elim (hlog l) (hls l)
  have hone {e : MeshEvent F} {l : LoggedEvent F} (hl : l.event = e)
      (he : e.scopeId ≠ lifecycleScope) : ∀ l' ∈ [l], l'.event.scopeId ≠ lifecycleScope := by
    intro l' hl'
    rwa [List.mem_singleton.mp hl', hl]
  have hlines {refuse : Bool} {e : MeshEvent F} (he : e.scopeId ≠ lifecycleScope) :
      ∀ l ∈ (write refuse e).lines, l.event.scopeId ≠ lifecycleScope := by
    intro l hl
    rwa [event_of_mem_lines hl]
  cases r with
  | register body w =>
    rw [serve, handle]
    rcases registerAgent_cases d s body w with ⟨-, h'⟩ | ⟨-, -, h'⟩ | ⟨-, -, h'⟩
    · rwa [h']
    · rwa [h']
    · rw [h']
      have hscope : registryScope ≠ lifecycleScope := by decide
      exact happend h (hlines hscope)
  | createMission body w =>
    rw [serve, handle]
    rcases createMission_cases d s body w with h' | ⟨l, hl, h'⟩
    · rwa [h']
    · rw [h']
      exact happend h (hone hl (missionScope_ne _))
  | createTask body w w' =>
    rw [serve, handle]
    rcases createTask_cases d s body w w' with ⟨-, h'⟩ | ⟨-, -, h'⟩ |
      ⟨-, -, l, hl, ⟨-, h'⟩ | ⟨a, n, -, h'⟩⟩
    · rwa [h']
    · rwa [h']
    · rw [h']
      exact happend h (hone hl (missionScope_ne _))
    · rw [h']
      exact happend (happend h (hone hl (missionScope_ne _))) (hlines (missionScope_ne _))
  | nextTask agentId capabilities => exact h
  | submit taskId body w =>
    rw [serve, handle]
    rcases submit_cases d s taskId body w with ⟨task, keyId, contentHash, l, -, hl, h'⟩ |
      ⟨-, ⟨n, -, h'⟩, -⟩
    · rw [h']
      exact happend h (hone hl (missionScope_ne _))
    · rwa [h']
  | getContext index query w =>
    obtain ⟨n, ls, -, hls, h'⟩ := getContext_cases d s index query w
    rw [serve, handle, h']
    refine happend h fun l hl => ?_
    rw [hls l hl, contextEvent]
    rcases (contextPackIssued_spec (F := F) _ _ _ _).2 with ⟨m, -, hscope⟩ | ⟨-, hscope | hscope⟩
    · rw [hscope]; exact missionScope_ne m
    · rw [hscope]; decide
    · rw [hscope]; decide

/-- An event that encodes is one line. -/
theorem lines_of_encodes {e : MeshEvent F} (h : e.payload.Encodes) :
    ∃ l, l.event = e ∧ (write false e).lines = [l] := by
  rcases write_cases false e with ⟨h', -⟩ | ⟨-, henc, -⟩ | ⟨-, -, l, hl, hw⟩
  · exact absurd h' Bool.false_ne_true
  · exact absurd h henc
  · exact ⟨l, hl, by rw [hw, WriteEnd.lines]⟩

namespace Process

/-- **The log of a run**: its start, then its requests, then its stop. -/
theorem log_shape (p : Process F) (recovered : Bool) : ∃ first requests last,
    p.log recovered = first :: requests ++ [last] ∧ first.event = p.startEvent recovered ∧
      (∀ l ∈ requests, l.event.scopeId ≠ lifecycleScope) ∧ last.event = p.stopEvent := by
  have hstart : (p.startEvent recovered).payload.Encodes := by cases recovered <;> exact trivial
  obtain ⟨first, hfirst, hlines⟩ := lines_of_encodes hstart
  obtain ⟨last, hlast, hlines'⟩ := lines_of_encodes (e := p.stopEvent) trivial
  refine ⟨first, p.final.log, last, by rw [log, hlines, hlines', List.singleton_append], hfirst,
    ?_, hlast⟩
  have hkeeps : ∀ (s : AppState F) (r : Request F),
      (∀ l ∈ s.log, l.event.scopeId ≠ lifecycleScope) →
        ∀ l ∈ (serve p.deployment s r).log, l.event.scopeId ≠ lifecycleScope :=
    fun s r hs => scopes_serve hs r
  have hfresh : ∀ l ∈ p.fresh.log, l.event.scopeId ≠ lifecycleScope := by
    rw [fresh]
    exact List.forall_mem_nil _
  exact run_keeps hkeeps hfresh p.requests

/-- The type of the event of the start. -/
def startType (recovered : Bool) : PyStr :=
  if recovered then py "server_recovered" else py "server_started"

theorem eventType_startEvent (p : Process F) (recovered : Bool) :
    (p.startEvent recovered).payload.eventType = startType recovered := by cases recovered <;> rfl

/-- From its start to its stop, a run is one that has started. -/
theorem lifecycleAfter_running {p : Process F} {recovered : Bool} {log log' : List (LoggedEvent F)}
    (h : p.log recovered = log ++ log') (hne : log ≠ []) (hne' : log' ≠ [])
    (last : Option PyStr) : lifecycleAfter last log = some (startType recovered) := by
  obtain ⟨first, requests, stop, hlog, hfirst, hrequests, -⟩ := p.log_shape recovered
  obtain ⟨l, log, rfl⟩ := List.exists_cons_of_ne_nil hne
  rw [hlog, List.cons_append, List.cons_append] at h
  obtain ⟨rfl, htail⟩ := List.cons.inj h
  -- the last line is the stop, and it is not among these
  obtain ⟨ls, l, rfl⟩ := (List.eq_nil_or_concat' _).resolve_left hne'
  rw [← List.append_assoc] at htail
  have hinit : requests = log ++ ls := (List.append_inj' htail rfl).1
  have hothers : ∀ l ∈ log, l.event.scopeId ≠ lifecycleScope := fun l hl =>
    hrequests l (hinit ▸ List.mem_append_left _ hl)
  have hscope : first.event.scopeId = lifecycleScope := by rw [hfirst]; rfl
  rw [← List.singleton_append, lifecycleAfter_append, lifecycleAfter_singleton hscope,
    lifecycleAfter_others hothers, hfirst, eventType_startEvent]

/-- After its stop it has stopped. -/
theorem lifecycleAfter_log (p : Process F) (recovered : Bool) (last : Option PyStr) :
    lifecycleAfter last (p.log recovered) = some (py "server_stopped") := by
  obtain ⟨first, requests, stop, hlog, -, -, hstop⟩ := p.log_shape recovered
  have hscope : stop.event.scopeId = lifecycleScope := by rw [hstop]; rfl
  rw [hlog, lifecycleAfter_append, lifecycleAfter_singleton hscope, hstop]
  rfl

end Process

/-! ### Where a crash cuts -/

/-- The crash cuts off the events at the end of a line, before its newline or after it, and
not of the last one. -/
def CutsAtLine (log : List (LoggedEvent F)) (k : ℕ) : Prop :=
  ∃ log₁ log₂, log₁ ≠ [] ∧ log₂ ≠ [] ∧ log = log₁ ++ log₂ ∧
    (k = (eventsJsonl log₁).length ∨ k + 1 = (eventsJsonl log₁).length)

theorem eventsJsonl_concat (log : List (LoggedEvent F)) (l : LoggedEvent F) :
    eventsJsonl (log ++ [l]) = eventsJsonl log ++ utf8Bytes l.line ++ [10] := by
  have hnil : eventsJsonl ([] : List (LoggedEvent F)) = [] := rfl
  rw [eventsJsonl_append, eventsJsonl_cons, hnil, List.append_nil, lineBytes_eq, List.append_assoc]

/-- **What is left of lines when they are cut off**: some of them, and a part of the next. -/
theorem take_eventsJsonl {log : List (LoggedEvent F)} {k : ℕ} (h : k < (eventsJsonl log).length) :
    ∃ log₁ l log₂ q r, log = log₁ ++ l :: log₂ ∧ utf8Bytes l.line = q ++ r ∧
      (eventsJsonl log).take k = eventsJsonl log₁ ++ q ∧
        k = (eventsJsonl log₁).length + q.length := by
  induction log generalizing k with
  | nil => exact absurd h (Nat.not_lt_zero k)
  | cons l log ih =>
    rw [eventsJsonl_cons] at h ⊢
    by_cases hk : k ≤ (utf8Bytes l.line).length
    · refine ⟨[], l, log, (utf8Bytes l.line).take k, (utf8Bytes l.line).drop k, rfl,
        (List.take_append_drop _ _).symm, ?_, ?_⟩
      · rw [lineBytes_eq, List.append_assoc, List.take_append_of_le_length hk]
        rfl
      · rw [List.length_take, min_eq_left hk, eventsJsonl, List.flatMap_nil, List.length_nil,
          Nat.zero_add]
    · -- the line is there as a whole
      have hlen : (lineBytes l.line).length = (utf8Bytes l.line).length + 1 := by
        rw [lineBytes_eq, List.length_append, List.length_singleton]
      obtain ⟨j, rfl⟩ : ∃ j, k = (lineBytes l.line).length + j :=
        Nat.exists_eq_add_of_le (by omega)
      rw [List.length_append] at h
      obtain ⟨log₁, l', log₂, q, r, rfl, hqr, htake, rfl⟩ := ih (k := j) (by omega)
      refine ⟨l :: log₁, l', log₂, q, r, rfl, hqr, ?_, ?_⟩
      · rw [List.take_length_add_append, htake, eventsJsonl_cons, List.append_assoc]
      · rw [eventsJsonl_cons, List.length_append, Nat.add_assoc]

theorem eventsJsonl_ne_nil {log : List (LoggedEvent F)} (h : log ≠ []) : eventsJsonl log ≠ [] := by
  obtain ⟨l, log, rfl⟩ := List.exists_cons_of_ne_nil h
  rw [eventsJsonl_cons, lineBytes_eq]
  simp

/-- What is left when the events are cut off at the end of a line. -/
theorem CutsAtLine.take {log : List (LoggedEvent F)} {k : ℕ} (h : CutsAtLine log k) :
    k < (eventsJsonl log).length ∧ ∃ log₁ log₂, log₁ ≠ [] ∧ log₂ ≠ [] ∧ log = log₁ ++ log₂ ∧
      ((eventsJsonl log).take k = eventsJsonl log₁ ∨ ∃ log₀ l, log₁ = log₀ ++ [l] ∧
        (eventsJsonl log).take k = eventsJsonl log₀ ++ utf8Bytes l.line) := by
  obtain ⟨log₁, log₂, hne, hne', rfl, hk⟩ := h
  have hpos := List.length_pos_of_ne_nil (eventsJsonl_ne_nil hne')
  rw [eventsJsonl_append, List.length_append]
  refine ⟨by omega, log₁, log₂, hne, hne', rfl, ?_⟩
  rcases hk with rfl | hk
  · exact .inl (List.take_left)
  · obtain ⟨log₀, l, rfl⟩ := (List.eq_nil_or_concat' _).resolve_left hne
    rw [eventsJsonl_concat, List.length_append, List.length_singleton] at hk
    obtain rfl : k = (eventsJsonl log₀ ++ utf8Bytes l.line).length := by omega
    refine .inr ⟨log₀, l, rfl, ?_⟩
    rw [eventsJsonl_concat, List.append_assoc _ [10], List.take_left]

/-! ### What the next start sees -/

/-- A start after the lines of a run that has not stopped. -/
theorem detectRecovery_running {p : Process F} {recovered : Bool} {log log' : List (LoggedEvent F)}
    (h : p.log recovered = log ++ log') (hne : log ≠ []) (hne' : log' ≠ [])
    (prior : List (LoggedEvent F)) :
    detectRecovery F (eventsJsonl (prior ++ log)) = .ok !recovered := by
  rw [detectRecovery_eventsJsonl, lifecycleAfter_append,
    Process.lifecycleAfter_running h hne hne']
  cases recovered <;> rfl

/-- A start after a run that has stopped. -/
theorem detectRecovery_stopped (p : Process F) (recovered : Bool)
    (prior : List (LoggedEvent F)) :
    detectRecovery F (eventsJsonl (prior ++ p.log recovered)) = .ok false := by
  rw [detectRecovery_eventsJsonl, lifecycleAfter_append, p.lifecycleAfter_log]
  rfl

theorem detectRecovery_openLine (log : List (LoggedEvent F)) (l : LoggedEvent F) :
    detectRecovery F (eventsJsonl log ++ utf8Bytes l.line)
      = detectRecovery F (eventsJsonl (log ++ [l])) := by
  rw [detectRecovery, readAll_openLine, detectRecovery]

theorem detectRecovery_error (log : List (LoggedEvent F)) {bs : List Byte}
    (h : ∃ err, readAll (F := F) bs = .error err) :
    ∃ err, detectRecovery F (eventsJsonl log ++ bs) = .error err := by
  obtain ⟨err, herr⟩ := h
  exact ⟨err, by rw [detectRecovery_append, herr]; rfl⟩

/-- **A crash at the end of a line** is one that the next start reads, as a run that has
not stopped. -/
theorem detectRecovery_cutsAtLine {p : Process F} {recovered : Bool} {k : ℕ}
    (h : CutsAtLine (p.log recovered) k) (prior : List (LoggedEvent F)) :
    detectRecovery F (eventsJsonl prior ++ (p.bytes recovered).take k) = .ok !recovered := by
  obtain ⟨-, log₁, log₂, hne, hne', hlog, htake | ⟨log₀, l, rfl, htake⟩⟩ := h.take
  · rw [Process.bytes, htake, ← eventsJsonl_append, detectRecovery_running hlog hne hne']
  · rw [Process.bytes, htake, ← List.append_assoc, ← eventsJsonl_append, detectRecovery_openLine,
      List.append_assoc, detectRecovery_running hlog hne hne']

/-- **And no other crash that leaves something is read so.** -/
theorem cutsAtLine_of_detectRecovery {p : Process F} {recovered : Bool} {k : ℕ}
    {prior : List (LoggedEvent F)} (hk : k < (p.bytes recovered).length) (hpos : k ≠ 0)
    (h : detectRecovery F (eventsJsonl prior ++ (p.bytes recovered).take k) = .ok true) :
    CutsAtLine (p.log recovered) k := by
  obtain ⟨log₁, l, log₂, q, r, hlog, hqr, htake, hlen⟩ := take_eventsJsonl hk
  rw [Process.bytes, htake, ← List.append_assoc, ← eventsJsonl_append] at h
  by_cases hq : q = []
  · -- nothing of the next line
    subst hq
    rw [List.length_nil, Nat.add_zero] at hlen
    refine ⟨log₁, l :: log₂, ?_, List.cons_ne_nil _ _, hlog, .inl hlen⟩
    rintro rfl
    exact hpos hlen
  by_cases hr : r = []
  · -- the next line, without its newline
    subst hr
    rw [List.append_nil] at hqr
    rw [← hqr, detectRecovery_openLine, List.append_assoc] at h
    have hall : p.log recovered = (log₁ ++ [l]) ++ log₂ := by rw [hlog, List.append_cons]
    refine ⟨log₁ ++ [l], log₂, by simp, ?_, hall, .inr ?_⟩
    · rintro rfl
      rw [List.append_nil] at hall
      rw [← hall, detectRecovery_stopped] at h
      exact absurd (Except.ok.inj h) Bool.false_ne_true
    · rw [eventsJsonl_concat, List.length_append, List.length_append, hqr, hlen,
        List.length_singleton]
  · obtain ⟨err, herr⟩ := detectRecovery_error (prior ++ log₁) (readAll_torn l hqr hq hr)
    exact nomatch h.symm.trans herr

/-! ### Runs on one directory -/

/-- The events of a directory are whole lines, or a crash has left the last without its newline. -/
def Lines (F : Type) [PyFloat F] (s : DataDir) : Prop :=
  (∃ log : List (LoggedEvent F), s.events = eventsJsonl log) ∨
    ∃ (log : List (LoggedEvent F)) (l : LoggedEvent F),
      s.events = eventsJsonl log ++ utf8Bytes l.line ∧ s.unclean = true

/-- The file is empty, or ends in a newline. -/
def DataDir.Closed (s : DataDir) : Prop := s.events = [] ∨ s.events.getLast? = some 10

instance (s : DataDir) : Decidable s.Closed := inferInstanceAs (Decidable (_ ∨ _))

theorem closed_eventsJsonl {s : DataDir} {log : List (LoggedEvent F)}
    (h : s.events = eventsJsonl log) : s.Closed := by
  rcases List.eq_nil_or_concat' log with rfl | ⟨log, l, rfl⟩
  · exact .inl h
  · rw [eventsJsonl_concat] at h
    exact .inr (by rw [h, List.getLast?_append, List.getLast?_singleton, Option.some_or])

theorem not_closed_openLine {s : DataDir} {log : List (LoggedEvent F)} {l : LoggedEvent F}
    (h : s.events = eventsJsonl log ++ utf8Bytes l.line) : ¬ s.Closed := by
  obtain ⟨kvs, -, hline⟩ := l.exists_print
  obtain ⟨t, ht⟩ := print_dict_shape hline
  have hlast : s.events.getLast? = some 125 := by
    have hbrace : utf8Bytes [125] = [125] := by decide
    rw [h, ht, utf8Bytes_append, ← List.append_assoc, hbrace, List.getLast?_append,
      List.getLast?_singleton, Option.some_or]
  rintro (hnil | hnl)
  · rw [hnil] at hlast
    cases hlast
  · rw [hlast] at hnl
    exact absurd (Option.some.inj hnl) (by decide)

/-- The crash of a run is one that the next start sees: of a run that began after a stop it cuts
off the events at the end of a line, of one that began after a crash it leaves nothing, as it
does where the last line has no newline. -/
def CrashSeen (s : DataDir) (p : Process F) : Prop :=
  if s.Closed then
    match p.crash with
    | none => True
    | some k => (p.bytes s.unclean).length ≤ k ∨
        if s.unclean then k = 0 else CutsAtLine (p.log s.unclean) k
  else p.crash = some 0

theorem serverRun_none {s : DataDir} {p : Process F} (hs : Noticed F s) (hp : p.crash = none) :
    serverRun s p = ⟨s.events ++ p.bytes s.unclean, false⟩ := by
  rw [serverRun, hs, hp]

theorem serverRun_some {s : DataDir} {p : Process F} {k : ℕ} (hs : Noticed F s)
    (hp : p.crash = some k) : serverRun s p = ⟨s.events ++ (p.bytes s.unclean).take k,
      decide (k < (p.bytes s.unclean).length)⟩ := by
  rw [serverRun, hs, hp]

/-- A run writes something. -/
theorem Process.exists_bytes (p : Process F) (recovered : Bool) :
    ∃ bs, p.bytes recovered = 123 :: bs := by
  obtain ⟨first, requests, last, hlog, -⟩ := p.log_shape recovered
  obtain ⟨kvs, -, hline⟩ := first.exists_print
  obtain ⟨t, ht⟩ := print_dict_shape hline
  have hbrace : utf8Bytes [123] = [123] := by decide
  refine ⟨utf8Bytes (t ++ [125]) ++ [10] ++ eventsJsonl (requests ++ [last]), ?_⟩
  rw [Process.bytes, hlog, List.cons_append, eventsJsonl_cons, lineBytes_eq, ht, List.cons_append,
    ← List.singleton_append, utf8Bytes_append, hbrace]
  rfl

/-- **One run is noticed exactly when its crash is seen.** -/
theorem noticed_serverRun {s : DataDir} {p : Process F} (h : Lines F s) (hs : Noticed F s) :
    Noticed F (serverRun s p) ↔ CrashSeen s p := by
  rw [CrashSeen]
  rcases h with ⟨log, hlog⟩ | ⟨log, l, hlog, hunclean⟩
  · rw [if_pos (closed_eventsJsonl hlog)]
    have hstop : detectRecovery F (s.events ++ p.bytes s.unclean) = .ok false := by
      rw [hlog, Process.bytes, ← eventsJsonl_append, detectRecovery_stopped]
    cases hp : p.crash with
    | none =>
      rw [serverRun_none hs hp]
      exact iff_of_true hstop trivial
    | some k =>
      rw [serverRun_some hs hp, Noticed]
      dsimp only
      by_cases hk : (p.bytes s.unclean).length ≤ k
      · rw [List.take_of_length_le hk, hstop, decide_eq_false (not_lt.mpr hk)]
        exact iff_of_true rfl (.inl hk)
      rw [decide_eq_true (not_le.mp hk), or_iff_right hk]
      rw [Noticed] at hs
      split_ifs with hu
      · constructor
        · intro hsees
          by_contra hpos
          -- what a recovered run writes is not read as a start
          rw [hlog] at hsees
          have hcut := cutsAtLine_of_detectRecovery (not_le.mp hk) hpos hsees
          rw [detectRecovery_cutsAtLine hcut, hu] at hsees
          exact absurd (Except.ok.inj hsees) Bool.false_ne_true
        · rintro rfl
          rw [List.take_zero, List.append_nil, hs, hu]
      · rw [Bool.not_eq_true] at hu
        constructor
        · intro hsees
          refine cutsAtLine_of_detectRecovery (not_le.mp hk) ?_ (hlog ▸ hsees)
          rintro rfl
          rw [List.take_zero, List.append_nil, hs, hu] at hsees
          exact absurd (Except.ok.inj hsees) Bool.false_ne_true
        · intro hcut
          rw [hlog, detectRecovery_cutsAtLine hcut, hu]
          rfl
  · rw [if_neg (not_closed_openLine hlog)]
    obtain ⟨bs, hbs⟩ := p.exists_bytes s.unclean
    have hmerged (bs' : List Byte) : ∃ err, detectRecovery F (s.events ++ 123 :: bs') = .error err := by
      rw [hlog, List.append_assoc]
      exact detectRecovery_error log (readAll_merged l bs')
    cases hp : p.crash with
    | none =>
      rw [serverRun_none hs hp, Noticed, hbs]
      obtain ⟨err, herr⟩ := hmerged bs
      exact iff_of_false (fun hsees => nomatch hsees.symm.trans herr) nofun
    | some k =>
      rw [serverRun_some hs hp, Noticed, hbs]
      dsimp only
      cases k with
      | zero =>
        have hleft : 0 < (123 :: bs).length := Nat.succ_pos _
        rw [List.take_zero, List.append_nil, decide_eq_true hleft]
        exact iff_of_true (hs.trans (congrArg _ hunclean)) rfl
      | succ k =>
        obtain ⟨err, herr⟩ := hmerged (bs.take k)
        rw [List.take_succ_cons, herr]
        exact iff_of_false nofun fun heq => nomatch heq

/-- What such a run leaves. -/
theorem lines_serverRun {s : DataDir} {p : Process F} (h : Lines F s) (hs : Noticed F s)
    (hc : CrashSeen s p) : Lines F (serverRun s p) := by
  rw [CrashSeen] at hc
  rcases h with ⟨log, hlog⟩ | ⟨log, l, hlog, hunclean⟩
  · rw [if_pos (closed_eventsJsonl hlog)] at hc
    have hall : s.events ++ p.bytes s.unclean = eventsJsonl (log ++ p.log s.unclean) := by
      rw [hlog, Process.bytes, eventsJsonl_append]
    cases hp : p.crash with
    | none =>
      rw [serverRun_none hs hp]
      exact .inl ⟨_, hall⟩
    | some k =>
      rw [serverRun_some hs hp]
      rw [hp] at hc
      dsimp only at hc
      rcases hc with hk | hc
      · rw [List.take_of_length_le hk]
        exact .inl ⟨_, hall⟩
      split_ifs at hc with hu
      · rw [hc, List.take_zero, List.append_nil]
        exact .inl ⟨log, hlog⟩
      · obtain ⟨hk, log₁, log₂, -, -, -, htake | ⟨log₀, l, -, htake⟩⟩ := hc.take
        · exact .inl ⟨log ++ log₁, by rw [Process.bytes, htake, hlog, eventsJsonl_append]⟩
        · refine .inr ⟨log ++ log₀, l, ?_, ?_⟩
          · rw [Process.bytes, htake, hlog, eventsJsonl_append, List.append_assoc]
          · rw [Process.bytes]
            dsimp only
            exact decide_eq_true hk
  · rw [if_neg (not_closed_openLine hlog)] at hc
    obtain ⟨bs, hbs⟩ := p.exists_bytes s.unclean
    rw [serverRun_some hs hc, List.take_zero, List.append_nil, hbs]
    exact .inr ⟨log, l, hlog, rfl⟩

theorem noticed_empty : Noticed F DataDir.empty := detectRecovery_eventsJsonl []

/-- **Unclean shutdowns are noticed in exactly the sequences of runs whose crashes are seen.** -/
theorem noticed_always_iff (ps : List (Process F)) :
    Always serverRun (Noticed F) DataDir.empty ps ↔ Along serverRun CrashSeen DataDir.empty ps :=
  always_iff_along (Q := Lines F) (fun _ _ h hs hc => lines_serverRun h hs hc)
    (fun _ _ h hs => noticed_serverRun h hs) (.inl ⟨[], rfl⟩) noticed_empty

/-! ### Two crashes in a row -/

/-- A run that is asked nothing. -/
def idleRun (crash : Option ℕ) : Process FloatLit :=
  ⟨sampleDeployment, sampleTimeText, [], sampleTimeText, crash⟩

/-- The lines that such a run writes at its start. -/
def startLines (recovered : Bool) : List (LoggedEvent FloatLit) :=
  (write false ((idleRun none).startEvent recovered)).lines

/-- A run that is asked nothing, and crashes after its start was written. -/
def crashedRun (recovered : Bool) : Process FloatLit :=
  idleRun (some (eventsJsonl (startLines recovered)).length)

theorem log_crashedRun (recovered : Bool) : ∃ last,
    (crashedRun recovered).log recovered = startLines recovered ++ [last] := by
  obtain ⟨last, -, hlines⟩ := lines_of_encodes (e := (crashedRun recovered).stopEvent) trivial
  have hfinal : (crashedRun recovered).final.log = [] := by
    rw [Process.final, Process.fresh]
    rfl
  have hstart : (crashedRun recovered).startEvent recovered
      = (idleRun none).startEvent recovered := rfl
  exact ⟨last, by rw [Process.log, hfinal, List.append_nil, hlines, hstart, startLines]⟩

theorem startLines_ne_nil (recovered : Bool) : startLines recovered ≠ [] := by
  have hencodes : ((idleRun none).startEvent recovered).payload.Encodes := by
    cases recovered <;> exact trivial
  obtain ⟨first, -, hlines⟩ := lines_of_encodes hencodes
  rw [startLines, hlines]
  exact List.cons_ne_nil _ _

theorem crashedRun_cutsAtLine (recovered : Bool) :
    CutsAtLine ((crashedRun recovered).log recovered) (eventsJsonl (startLines recovered)).length := by
  obtain ⟨last, hlog⟩ := log_crashedRun recovered
  exact ⟨_, [last], startLines_ne_nil recovered, List.cons_ne_nil _ _, hlog, .inl rfl⟩

/-- What it leaves of a directory whose start it takes for what it was. -/
theorem serverRun_crashedRun {s : DataDir} {recovered : Bool} (hs : Noticed FloatLit s)
    (hr : s.unclean = recovered) : serverRun s (crashedRun recovered)
      = ⟨s.events ++ eventsJsonl (startLines recovered), true⟩ := by
  obtain ⟨hlt, -⟩ := (crashedRun_cutsAtLine recovered).take
  obtain ⟨last, hlog⟩ := log_crashedRun recovered
  rw [serverRun_some hs rfl, hr, Process.bytes, decide_eq_true hlt, hlog, eventsJsonl_append,
    List.take_left]

/-- One such crash is noticed. -/
theorem crash_noticed : Always serverRun (Noticed FloatLit) DataDir.empty [crashedRun false] := by
  have hclosed : DataDir.empty.Closed := .inl rfl
  refine (noticed_always_iff _).mpr ⟨?_, trivial⟩
  rw [CrashSeen, if_pos hclosed]
  exact .inr (crashedRun_cutsAtLine false)

/-- **Of two crashes in a row the second goes unnoticed**: the last event of the life cycle is
`server_recovered`, and the run after it writes `server_started`. -/
theorem second_crash_unnoticed : ¬ ∀ ps : List (Process FloatLit),
    Always serverRun (Noticed FloatLit) DataDir.empty ps := by
  intro h
  have hclean : DataDir.empty.unclean = false := rfl
  have hfirst : serverRun DataDir.empty (crashedRun false)
      = ⟨eventsJsonl (startLines false), true⟩ := by
    rw [serverRun_crashedRun noticed_empty hclean, DataDir.empty, List.nil_append]
  obtain ⟨-, hrest⟩ := always_cons.mp (h [crashedRun false, crashedRun true, idleRun none])
  rw [hfirst] at hrest
  obtain ⟨hseen, hrest⟩ := always_cons.mp hrest
  have hunclean : (⟨eventsJsonl (startLines false), true⟩ : DataDir).unclean = true := rfl
  rw [serverRun_crashedRun hseen hunclean] at hrest
  obtain ⟨hnext, -⟩ := always_cons.mp hrest
  unfold Noticed at hnext
  dsimp only at hnext
  rw [← eventsJsonl_append] at hnext
  -- the next start reads the second crash as a run that had recovered
  obtain ⟨last, hlog⟩ := log_crashedRun true
  rw [detectRecovery_running hlog (startLines_ne_nil true) (List.cons_ne_nil _ _)] at hnext
  exact absurd (Except.ok.inj hnext) Bool.false_ne_true

end Mesh

end Daryl
