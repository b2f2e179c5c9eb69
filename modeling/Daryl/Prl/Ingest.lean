import Daryl.Lib.StableSort
import Daryl.Prl.Shards
import Mathlib.Data.Finset.Card
import Mathlib.Data.Prod.Lex
import Mathlib.Order.Lattice

/-!
# `prl.ingest`: the import of conversations

Every turn of every conversation becomes an act filed under the subject of the
conversation, and every conversation with turns a boundary act.  A subject is named after
the title and the first six hexadecimal digits of the id, which is to keep the subjects of
two conversations apart.

The conversations are given as the map that the source is resolved to.  What `str` says of
other values than strings, `str.lower` and the reading of timestamps are parameters.

## Main definitions

* `slugify`, `id6`, `subjectId` — the name of a subject.
* `sortedTurns` — the turns of a conversation.
* `Import` — the state of an import; `filed` tells which turn was filed where.
* `importConversation`, `importChatgpt` — the import.
* `OwnSubjects` — **no two conversations share a subject, and the report says so.**
* `Unlike` — the conversations that differ in what a subject is named after.

## Main results

* `subjectId_eq_iff` — when two subjects are one.
* `importLoop_spec`, `importLoop_filed` — what an import counts and files.
* `ownSubjects_iff` — **the subjects are apart iff the conversations are unlike.**
-/

namespace Daryl

open Py Json Model Records

namespace Ingest

variable {F : Type} [PyFloat F]

/-! ### Subjects -/

/-- A code point that `_SLUG_RE` leaves. -/
def isSlugChar (c : CodePoint) : Bool := (97 ≤ c.val && c.val ≤ 122) || (48 ≤ c.val && c.val ≤ 57)

/-- `_SLUG_RE.sub("-", s)`; `run` tells that a hyphen stands for what was just read. -/
def hyphenate : Bool → PyStr → PyStr
  | _, [] => []
  | run, c :: s =>
    if isSlugChar c then c :: hyphenate false s
    else if run then hyphenate true s else 45 :: hyphenate true s

/-- `s.strip("-")`. -/
def stripHyphens (s : PyStr) : PyStr :=
  ((s.dropWhile fun c => c = 45).reverse.dropWhile fun c => c = 45).reverse

/-- What a mint gives an act: its ids, and what a write finds outside. -/
structure Mint where
  consultationId : Text
  claimId : NonEmptyText
  stamp : Stamp

/-- What the import has from outside: `float` is the constructor of floats, `millis` is
`int(x * 1000)`, and `mint` is of the n-th act. -/
structure Outside (F : Type) [PyFloat F] where
  env : Env F
  str : PyVal F → PyStr
  lower : PyStr → PyStr
  float : PyVal F → Except PyError (FloatVal F)
  millis : FloatVal F → Except PyError ℤ
  mint : ℕ → Mint

variable (out : Outside F)

/-- `str(v)`. -/
def Outside.strOf : PyVal F → PyStr
  | .str s => s
  | v => out.str v

/-- `_ms`: what is no number is no time, and a number that is too large is raised. -/
def Outside.ms (t : PyVal F) : Except PyError (Option ℤ) :=
  match (out.float t).bind out.millis with
  | .ok ms => .ok (some ms)
  | .error .typeError | .error .valueError => .ok none
  | .error err => .error err

/-- `slugify`. -/
def slugify (text : PyStr) : PyStr := stripHyphens (hyphenate false (out.lower (strip text)))

/-- The name a subject has from the title. -/
def base (title : PyStr) : PyStr :=
  if slugify out title = [] then py "untitled" else slugify out title

/-- A hexadecimal digit, lower case. -/
def isHexChar (c : CodePoint) : Bool := (48 ≤ c.val && c.val ≤ 57) || (97 ≤ c.val && c.val ≤ 102)

/-- `_id6`. -/
def id6 (convId : PyStr) : PyStr :=
  let hexchars := (out.lower convId).filter isHexChar
  (if hexchars = [] then py "000000" else hexchars).take 6

/-- `_subject_id`. -/
def subjectId (title convId : PyStr) : PyStr := base out title ++ py "." ++ id6 out convId

/-! ### Turns -/

/-- The dicts of an iterable of messages. -/
def dictsOf : PyVal F → Except PyError (List (List (Key F × PyVal F)))
  | .list vs => .ok (vs.filterMap fun v => match v with | .dict kvs => some kvs | _ => none)
  | .tuple vs => .ok (vs.filterMap fun v => match v with | .dict kvs => some kvs | _ => none)
  -- the keys of a dict and the characters of a string are no dicts
  | .dict _ => .ok []
  | .str _ => .ok []
  | _ => .error .typeError

/-- The messages of a conversation, each with its time. -/
def timedMessages (conv : List (Key F × PyVal F)) :
    Except PyError (List (Option ℤ × List (Key F × PyVal F))) :=
  (dictsOf (pyOr (getNone (py "messages") conv) (.list []))).bind fun ms =>
    ms.mapM fun m => (out.ms (getNone (py "t") m)).map fun t => (t, m)

/-- A message as a turn, if it says something. -/
def turnOf (m : List (Key F × PyVal F)) : Option (PyStr × PyStr) :=
  let text := strip (out.strOf ((dictGet (py "text") m).getD (.str [])))
  let role := strip (out.strOf ((dictGet (py "role") m).getD (.str [])))
  if text = [] then none else some (if role = [] then py "unknown" else role, text)

/-- `_sorted_turns`. -/
def sortedTurns (conv : List (Key F × PyVal F)) : Except PyError (List (PyStr × PyStr)) :=
  (timedMessages out conv).map fun pairs =>
    (StableSort.sortBy (fun p => toLex (p.1.isNone, p.1.getD 0)) pairs).filterMap
      fun p => turnOf out p.2

/-- `_recency`. -/
def recency (conv : List (Key F × PyVal F)) : Except PyError (Option ℤ) := do
  match ← out.ms (getNone (py "update_time") conv) with
  | some t => return some t
  | none =>
    match ← out.ms (getNone (py "create_time") conv) with
    | some t => return some t
    | none => return ((← timedMessages out conv).filterMap Prod.fst).max?

/-- `_conversation_span`. -/
def conversationSpan (conv : List (Key F × PyVal F)) : Except PyError (ℤ × Option ℤ) := do
  let start ← out.ms (getNone (py "create_time") conv)
  let stop ← out.ms (getNone (py "update_time") conv)
  let times := (← timedMessages out conv).filterMap Prod.fst
  return (start.getD (times.min?.getD 0), stop.or times.max?)

/-! ### Acts -/

/-- A string of a model: one that does not encode is a validation error. -/
def asText (s : PyStr) : Except PyError Text :=
  if h : Encodable s then .ok ⟨s, h⟩ else .error .valueError

/-- A string of a model that may not be blank. -/
def asNonEmpty (s : PyStr) : Except PyError NonEmptyText :=
  if h : Encodable s ∧ strip s ≠ [] then .ok ⟨s, h⟩ else .error .valueError

/-- `_IMPORT_CARRIER`. -/
def importCarrier : Carrier :=
  ⟨⟨py "chatgpt", by decide⟩, some ⟨py "export", by decide⟩, some ⟨py "daryl-import v1", by decide⟩⟩

/-- `MAX_ANSWER_CHARS`. -/
def maxAnswerChars : ℕ := 8000

/-- `_truncate`. -/
def truncate (text : PyStr) : PyStr × Bool :=
  if text.length ≤ maxAnswerChars then (text, false)
  else
    (text.take maxAnswerChars ++ py "\n\n[…truncated by daryl-import: " ++
      natStr (text.length - maxAnswerChars) ++ py " chars omitted]", true)

/-- `build_turn_act`, with `to_act` for an observation. -/
def buildTurnAct (mint : Mint) (subject role text : PyStr) (orgId : Option Text) :
    Except PyError (ConsultationNode F × Bool) := do
  let (answer, wasTruncated) := truncate text
  let agentId ← asNonEmpty role
  let subjectText ← asText subject
  let answerText ← asText answer
  pure
    ({ consultationId := mint.consultationId
       subjectId := subjectText
       mode := .observation
       answer := answerText
       mef :=
         { claimId := mint.claimId
           regime := ⟨py "observed.declared", by decide⟩
           confidence := out.env.lib.one
           contested := false
           producer := ⟨py "chatgpt-export (daryl-import v1)", by decide⟩
           agentId := some agentId
           carrier := some importCarrier }
       orgId := orgId }, wasTruncated)

/-- The strings with a separator between. -/
def joinWith (sep : PyStr) : List PyStr → PyStr
  | [] => []
  | [s] => s
  | s :: ss => s ++ sep ++ joinWith sep ss

/-- `build_boundary_act`. -/
def buildBoundaryAct (convId title : PyStr) (turns : List (PyStr × PyStr)) (span : ℤ × Option ℤ) :
    Except PyError SessionNode := do
  let preview := (joinWith (py " | ") (turns.map fun t => t.1 ++ py ": " ++ t.2)).take 200
  let sessionId ← asText convId
  let titleText ← asText title
  let textPreview ← asText preview
  pure
    { sessionId := sessionId
      tool := .chatgpt
      title := if title = [] then none else some titleText
      startedMs := span.1
      endedMs := span.2
      textPreview := textPreview
      projectId := none }

/-- `commit_act`, to the shard of consultations. -/
def commitAct (env : Env F) (d : Disk F) (node : PRLNode F) (runId : Text) (stamp : Stamp) :
    Except PyError (Entry F) × Disk F :=
  match Records.toEntry env.lib env.msToIso stamp.made node
      ⟨py "prl_consultations", encodable_consultations⟩ runId with
  | .error e => (.error e, d)
  | .ok draft => store env.cfg d stamp.appended stamp.id draft

/-! ### The import -/

/-- The state of an import.  `filed` tells the conversation of every turn that was
committed, and the subject of its act. -/
structure Import (F : Type) where
  disk : Disk F
  subjects : Finset PyStr
  acts : ℕ
  truncations : ℕ
  boundaryActs : ℕ
  recents : List (Option ℤ × PyStr × PyStr)
  filed : List (PyStr × PyStr)

/-- Nothing is imported yet. -/
def Import.start (d : Disk F) : Import F := ⟨d, ∅, 0, 0, 0, [], []⟩

/-- The mint of the next act. -/
def Import.next (s : Import F) : Mint := out.mint (s.acts + s.boundaryActs)

/-- One turn of a conversation. -/
def fileTurn (orgId : Option Text) (runId : Text) (convId subject : PyStr) (turn : PyStr × PyStr)
    (s : Import F) : Option PyError × Import F :=
  match buildTurnAct out (s.next out) subject turn.1 turn.2 orgId with
  | .error e => (some e, s)
  | .ok (node, wasTruncated) =>
    let s := { s with truncations := s.truncations + if wasTruncated then 1 else 0 }
    match commitAct out.env s.disk (.consultation node) runId (s.next out).stamp with
    | (.error e, d) => (some e, { s with disk := d })
    | (.ok _, d) =>
      (none, { s with
        disk := d
        acts := s.acts + 1
        filed := s.filed ++ [(convId, node.subjectId.val)] })

/-- The loop over the turns of a conversation. -/
def fileTurns (orgId : Option Text) (runId : Text) (convId subject : PyStr) :
    List (PyStr × PyStr) → Import F → Option PyError × Import F
  | [], s => (none, s)
  | turn :: rest, s =>
    match fileTurn out orgId runId convId subject turn s with
    | (some e, s) => (some e, s)
    | (none, s) => fileTurns orgId runId convId subject rest s

/-- The title of a conversation. -/
def titleOf (conv : List (Key F × PyVal F)) : PyStr := out.strOf (getNone (py "title") conv).orText

/-- The boundary act of a conversation whose turns were filed. -/
def fileBoundary (runId : Text) (convId title : PyStr) (turns : List (PyStr × PyStr))
    (conv : List (Key F × PyVal F)) (s : Import F) : Option PyError × Import F :=
  match (conversationSpan out conv).bind (buildBoundaryAct convId title turns) with
  | .error e => (some e, s)
  | .ok node =>
    match commitAct out.env s.disk (.session node) runId (s.next out).stamp with
    | (.error e, d) => (some e, { s with disk := d })
    | (.ok _, d) => (none, { s with disk := d, boundaryActs := s.boundaryActs + 1 })

/-- One conversation. -/
def importConversation (orgId : Option Text) (runId : Text) (p : PyStr × PyVal F) (s : Import F) :
    Option PyError × Import F :=
  match p.2 with
  | .dict conv =>
    let title := titleOf out conv
    let subject := subjectId out title p.1
    match sortedTurns out conv with
    | .error e => (some e, s)
    | .ok [] => (none, s)
    | .ok turns =>
      let s := { s with subjects := insert subject s.subjects }
      match recency out conv with
      | .error e => (some e, s)
      | .ok r =>
        let s := { s with recents := s.recents ++ [(r, title, subject)] }
        match fileTurns out orgId runId p.1 subject turns s with
        | (some e, s) => (some e, s)
        | (none, s) => fileBoundary out runId p.1 title turns conv s
  | _ => (none, s)

/-- The loop over the conversations. -/
def importLoop (orgId : Option Text) (runId : Text) :
    List (PyStr × PyVal F) → Import F → Option PyError × Import F
  | [], s => (none, s)
  | p :: ps, s =>
    match importConversation out orgId runId p s with
    | (some e, s) => (some e, s)
    | (none, s) => importLoop orgId runId ps s

/-- A map of conversations: its ids are distinct. -/
structure Conversations (F : Type) where
  items : List (PyStr × PyVal F)
  nodup : (items.map Prod.fst).Nodup

/-- `NormalizationReport`. -/
structure NormalizationReport where
  droppedBranches : ℕ
  droppedSystem : ℕ
  droppedHidden : ℕ
  droppedEmpty : ℕ
  placeholderNontext : ℕ

/-- What an import is told by: its run, the digest of its source, and its time. -/
structure Identity where
  runId : Text
  sourceSha256 : Text
  importedAt : Text
  importedAtMs : ℤ

/-- `ImportReport`. -/
structure ImportReport where
  conversations : ℕ
  subjects : ℕ
  acts : ℕ
  truncations : ℕ
  boundaryActs : ℕ
  suggestions : List PyStr
  normalization : NormalizationReport
  identity : Identity

/-- The loop of `_suggestions`, over what is sorted. -/
def suggest : List (Option ℤ × PyStr × PyStr) → List PyStr → List PyStr → List PyStr
  | [], _, found => found
  | (_, title, subject) :: rest, seen, found =>
    if subject ∈ seen then suggest rest seen found
    else
      let label := if title = [] then [] else py "  # " ++ title.take 60
      let found' := found ++ [py "daryl object --subject \"" ++ subject ++ py "\"" ++ label]
      if 5 ≤ found'.length then found' else suggest rest (subject :: seen) found'

/-- `_suggestions`. -/
def suggestions (recents : List (Option ℤ × PyStr × PyStr)) : List PyStr :=
  suggest (StableSort.sortBy (fun r => toLex (r.1.isNone, -(r.1.getD 0))) recents) [] []

/-- A count, as a value. -/
def count (n : ℕ) : PyVal F := .int n

/-- The counts of the manifest. -/
def manifestCounts (total : ℕ) (norm : NormalizationReport) (s : Import F) : PyVal F :=
  .dict (strItems
    [(py "conversations_received", count total), (py "conversations_imported", count s.subjects.card),
      (py "subjects", count s.subjects.card), (py "turn_acts", count s.acts),
      (py "boundary_acts", count s.boundaryActs), (py "truncations", count s.truncations),
      (py "dropped", .dict (strItems
        [(py "branches", count norm.droppedBranches), (py "system", count norm.droppedSystem),
          (py "hidden", count norm.droppedHidden), (py "empty", count norm.droppedEmpty)])),
      (py "placeholder_nontext", count norm.placeholderNontext)])

/-- `build_manifest_act`. -/
def buildManifestAct (id : Identity) (counts : PyVal F) : Except PyError SessionNode := do
  let payload : PyVal F := .dict (strItems
    [(py "kind", .str (py "daryl-import-manifest")), (py "run_id", .str id.runId.val),
      (py "source_sha256", .str id.sourceSha256.val), (py "imported_at", .str id.importedAt.val),
      (py "counts", counts)])
  let preview ←
    match dumpsSorted ⟨true, true, true⟩ payload with
    | .ok text => asText text
    | .error e => .error (DumpsError.toPyError e)
  let sessionId ← asText (py "daryl-import-manifest." ++ id.runId.val)
  pure
    { sessionId := sessionId
      tool := .chatgpt
      title := some ⟨py "daryl-import-manifest", by decide⟩
      startedMs := id.importedAtMs
      endedMs := some id.importedAtMs
      textPreview := preview
      projectId := none }

/-- `import_chatgpt`, of the conversations that the source is resolved to. -/
def importChatgpt (d : Disk F) (conversations : Conversations F) (norm : NormalizationReport)
    (orgId : Option Text) (id : Identity) : Except PyError ImportReport × Import F :=
  match importLoop out orgId id.runId conversations.items (Import.start d) with
  | (some e, s) => (.error e, s)
  | (none, s) =>
    let total := conversations.items.length
    match buildManifestAct id (manifestCounts total norm s) with
    | .error e => (.error e, s)
    | .ok node =>
      match commitAct out.env s.disk (.session node) id.runId (s.next out).stamp with
      | (.error e, d) => (.error e, { s with disk := d })
      | (.ok _, d) =>
        (.ok ⟨total, s.subjects.card, s.acts, s.truncations, s.boundaryActs, suggestions s.recents,
          norm, id⟩, { s with disk := d })

/-! ### What is asked of an import -/

/-- The conversation is a dict with a turn. -/
def hasTurns (p : PyStr × PyVal F) : Bool :=
  match p.2 with
  | .dict conv =>
    match sortedTurns out conv with
    | .ok (_ :: _) => true
    | _ => false
  | _ => false

/-- The name that the subject of a conversation has from its title. -/
def baseOf (p : PyStr × PyVal F) : PyStr :=
  match p.2 with
  | .dict conv => base out (titleOf out conv)
  | _ => []

/-- **No two conversations share a subject**, and a report has as many subjects as boundary
acts. -/
def OwnSubjects (r : Except PyError ImportReport × Import F) : Prop :=
  (∀ a ∈ r.2.filed, ∀ b ∈ r.2.filed, a.1 ≠ b.1 → a.2 ≠ b.2) ∧
    ∀ report, r.1 = .ok report → report.subjects = report.boundaryActs

/-- **Two conversations with turns have different slugs of their titles, or differ in the
first six hexadecimal digits of their ids.** -/
def Unlike (conversations : Conversations F) : Prop :=
  ∀ p ∈ conversations.items, ∀ q ∈ conversations.items, hasTurns out p = true →
    hasTurns out q = true → p.1 ≠ q.1 → baseOf out p ≠ baseOf out q ∨ id6 out p.1 ≠ id6 out q.1

/-! ### Subjects that are one -/

theorem append_dot_inj {a b c d : PyStr} {x : CodePoint} (hb : x ∉ b) (hd : x ∉ d) :
    a ++ [x] ++ b = c ++ [x] ++ d ↔ a = c ∧ b = d := by
  constructor
  · intro h
    rw [List.append_assoc, List.append_assoc, List.append_eq_append_iff] at h
    rcases h with ⟨e, hce, hb'⟩ | ⟨e, hae, hd'⟩
    · cases e with
      | nil => exact ⟨by rw [hce, List.append_nil], (List.cons.inj hb').2⟩
      | cons y e =>
        -- the separator of the second would stand behind that of the first
        have hb'' : b = e ++ ([x] ++ d) := (List.cons.inj hb').2
        have hmem : x ∈ b := by
          rw [hb'']
          simp
        exact absurd hmem hb
    · cases e with
      | nil => exact ⟨by rw [hae, List.append_nil], (List.cons.inj hd').2.symm⟩
      | cons y e =>
        have hd'' : d = e ++ ([x] ++ b) := (List.cons.inj hd').2
        have hmem : x ∈ d := by
          rw [hd'']
          simp
        exact absurd hmem hd
  · rintro ⟨rfl, rfl⟩
    rfl

theorem dot_notMem_id6 (convId : PyStr) : (46 : CodePoint) ∉ id6 out convId := by
  intro h
  have hmem := List.mem_of_mem_take h
  split_ifs at hmem with hnone
  · exact absurd hmem (by decide)
  · exact absurd (List.mem_filter.mp hmem).2 (by decide)

/-- **Two subjects are one iff slug and digits are.** -/
theorem subjectId_eq_iff {title title' convId convId' : PyStr} :
    subjectId out title convId = subjectId out title' convId' ↔
      base out title = base out title' ∧ id6 out convId = id6 out convId' :=
  append_dot_inj (dot_notMem_id6 out convId) (dot_notMem_id6 out convId')

/-- The subject of a conversation. -/
def subjectOf (p : PyStr × PyVal F) : PyStr :=
  match p.2 with
  | .dict conv => subjectId out (titleOf out conv) p.1
  | _ => []

theorem subjectOf_eq_iff {p q : PyStr × PyVal F} (hp : hasTurns out p = true)
    (hq : hasTurns out q = true) :
    subjectOf out p = subjectOf out q ↔ baseOf out p = baseOf out q ∧ id6 out p.1 = id6 out q.1 := by
  obtain ⟨a, v⟩ := p
  obtain ⟨b, w⟩ := q
  cases v with
  | dict conv =>
    cases w with
    | dict conv' => exact subjectId_eq_iff out
    | _ => cases hq
  | _ => cases hp

/-! ### What an import files -/

/-- An act is filed under the subject it was built with. -/
theorem subject_of_buildTurnAct {mint : Mint} {subject role text : PyStr} {orgId : Option Text}
    {node : ConsultationNode F} {wasTruncated : Bool}
    (h : buildTurnAct out mint subject role text orgId = .ok (node, wasTruncated)) :
    node.subjectId.val = subject := by
  unfold buildTurnAct asNonEmpty asText at h
  dsimp only at h
  split_ifs at h
  · obtain ⟨rfl, -⟩ := Prod.mk.inj (Except.ok.inj h)
    rfl
  all_goals cases h

/-- A turn is filed under the subject of its conversation, or not at all. -/
theorem fileTurn_spec (orgId : Option Text) (runId : Text) (convId subject : PyStr)
    (turn : PyStr × PyStr) (s : Import F) :
    (fileTurn out orgId runId convId subject turn s).2.subjects = s.subjects ∧
    (fileTurn out orgId runId convId subject turn s).2.boundaryActs = s.boundaryActs ∧
    ((fileTurn out orgId runId convId subject turn s).1 = none →
      (fileTurn out orgId runId convId subject turn s).2.filed = s.filed ++ [(convId, subject)]) ∧
    ((fileTurn out orgId runId convId subject turn s).1 ≠ none →
      (fileTurn out orgId runId convId subject turn s).2.filed = s.filed) := by
  unfold fileTurn
  split
  · exact ⟨rfl, rfl, by simp, fun _ => rfl⟩
  next node wasTruncated hbuild =>
  dsimp only
  split
  · exact ⟨rfl, rfl, by simp, fun _ => rfl⟩
  · refine ⟨rfl, rfl, fun _ => ?_, by simp⟩
    rw [subject_of_buildTurnAct out hbuild]

/-- The turns of a conversation are filed under its subject, up to the first that fails. -/
theorem fileTurns_spec (orgId : Option Text) (runId : Text) (convId subject : PyStr) :
    ∀ (turns : List (PyStr × PyStr)) (s : Import F), ∃ k,
      (fileTurns out orgId runId convId subject turns s).2.filed =
        s.filed ++ List.replicate k (convId, subject) ∧
      (fileTurns out orgId runId convId subject turns s).2.subjects = s.subjects ∧
      (fileTurns out orgId runId convId subject turns s).2.boundaryActs = s.boundaryActs ∧
      ((fileTurns out orgId runId convId subject turns s).1 = none → k = turns.length) := by
  intro turns
  induction turns with
  | nil =>
    intro s
    exact ⟨0, by simp [fileTurns], rfl, rfl, fun _ => rfl⟩
  | cons turn rest ih =>
    intro s
    obtain ⟨hsub, hbound, hok, hfail⟩ := fileTurn_spec out orgId runId convId subject turn s
    rw [fileTurns]
    split
    · next e s' heq =>
      rw [heq] at hsub hbound hfail
      exact ⟨0, by simpa using hfail (by simp), hsub, hbound, by simp⟩
    · next s' heq =>
      rw [heq] at hsub hbound hok
      obtain ⟨k, hfiled, hsubjects, hboundary, hlen⟩ := ih s'
      refine ⟨k + 1, ?_, hsubjects.trans hsub, hboundary.trans hbound, fun hnone => ?_⟩
      · have hone : s'.filed = s.filed ++ [(convId, subject)] := hok rfl
        rw [hfiled, hone, List.append_assoc, List.replicate_succ, List.singleton_append]
      · rw [hlen hnone, List.length_cons]

/-- The boundary act files no turn. -/
theorem fileBoundary_spec (runId : Text) (convId title : PyStr) (turns : List (PyStr × PyStr))
    (conv : List (Key F × PyVal F)) (s : Import F) :
    (fileBoundary out runId convId title turns conv s).2.filed = s.filed ∧
      (fileBoundary out runId convId title turns conv s).2.subjects = s.subjects ∧
      ((fileBoundary out runId convId title turns conv s).1 = none →
        (fileBoundary out runId convId title turns conv s).2.boundaryActs = s.boundaryActs + 1) := by
  unfold fileBoundary
  split
  · exact ⟨rfl, rfl, by simp⟩
  · split
    · exact ⟨rfl, rfl, by simp⟩
    · exact ⟨rfl, rfl, fun _ => rfl⟩

/-- A conversation without turns changes nothing. -/
theorem importConversation_of_no_turns (orgId : Option Text) (runId : Text) {p : PyStr × PyVal F}
    (h : hasTurns out p = false) (s : Import F) :
    (importConversation out orgId runId p s).2 = s := by
  unfold hasTurns at h
  unfold importConversation
  cases hp : p.2 with
  | dict conv =>
    rw [hp] at h
    dsimp only at h ⊢
    cases hturns : sortedTurns out conv with
    | error e => rfl
    | ok turns =>
      cases turns with
      | nil => rfl
      | cons t ts =>
        rw [hturns] at h
        cases h
  | _ => rfl

/-- **A conversation with turns** files them under its subject, and is counted once. -/
theorem importConversation_of_turns (orgId : Option Text) (runId : Text) {p : PyStr × PyVal F}
    (h : hasTurns out p = true) (s : Import F) : ∃ k,
      (importConversation out orgId runId p s).2.filed =
        s.filed ++ List.replicate k (p.1, subjectOf out p) ∧
      ((importConversation out orgId runId p s).1 = none → 0 < k ∧
        (importConversation out orgId runId p s).2.subjects = insert (subjectOf out p) s.subjects ∧
        (importConversation out orgId runId p s).2.boundaryActs = s.boundaryActs + 1) := by
  obtain ⟨convId, v⟩ := p
  cases v with
  | dict conv =>
    unfold hasTurns at h
    dsimp only at h
    cases hturns : sortedTurns out conv with
    | error e =>
      rw [hturns] at h
      cases h
    | ok turns =>
      cases turns with
      | nil =>
        rw [hturns] at h
        cases h
      | cons t ts =>
        unfold importConversation
        dsimp only
        rw [hturns]
        dsimp only
        split
        · -- its date cannot be read: no turn is filed
          exact ⟨0, by simp, by simp⟩
        next r _ =>
        obtain ⟨k, hfiled, hsubjects, hboundary, hlen⟩ := fileTurns_spec out orgId runId convId
          (subjectId out (titleOf out conv) convId) (t :: ts)
          { s with
            subjects := insert (subjectId out (titleOf out conv) convId) s.subjects
            recents := s.recents ++ [(r, titleOf out conv, subjectId out (titleOf out conv) convId)] }
        split
        · next e s' heq =>
          rw [heq] at hfiled
          exact ⟨k, hfiled, by simp⟩
        · next s' heq =>
          rw [heq] at hfiled hsubjects hboundary hlen
          obtain ⟨hfiled', hsubjects', hboundary'⟩ :=
            fileBoundary_spec out runId convId (titleOf out conv) (t :: ts) conv s'
          refine ⟨k, hfiled'.trans hfiled, fun hnone => ⟨?_, hsubjects'.trans hsubjects, ?_⟩⟩
          · rw [hlen rfl, List.length_cons]
            omega
          · rw [hboundary' hnone, hboundary]
  | _ => cases h

/-- **What an import files**: turns of its conversations, under their subjects. -/
theorem importLoop_filed (orgId : Option Text) (runId : Text) :
    ∀ (ps : List (PyStr × PyVal F)) (s : Import F),
      ∀ q ∈ (importLoop out orgId runId ps s).2.filed, q ∈ s.filed ∨
        ∃ p ∈ ps, hasTurns out p = true ∧ q = (p.1, subjectOf out p) := by
  intro ps
  induction ps with
  | nil => exact fun s q hq => Or.inl hq
  | cons p ps ih =>
    intro s q hq
    have hone : ∀ q ∈ (importConversation out orgId runId p s).2.filed, q ∈ s.filed ∨
        hasTurns out p = true ∧ q = (p.1, subjectOf out p) := by
      intro q hq
      by_cases hp : hasTurns out p = true
      · obtain ⟨k, hfiled, -⟩ := importConversation_of_turns out orgId runId hp s
        rw [hfiled] at hq
        rcases List.mem_append.mp hq with hq | hq
        · exact Or.inl hq
        · exact Or.inr ⟨hp, List.eq_of_mem_replicate hq⟩
      · rw [importConversation_of_no_turns out orgId runId (Bool.eq_false_iff.mpr hp)] at hq
        exact Or.inl hq
    have hhead : ∀ q ∈ (importConversation out orgId runId p s).2.filed, q ∈ s.filed ∨
        ∃ p' ∈ p :: ps, hasTurns out p' = true ∧ q = (p'.1, subjectOf out p') := by
      intro q hq
      rcases hone q hq with hold | ⟨hp, hqp⟩
      · exact Or.inl hold
      · exact Or.inr ⟨p, List.mem_cons_self, hp, hqp⟩
    rw [importLoop] at hq
    split at hq
    · next e s' heq =>
      rw [heq] at hhead
      exact hhead q hq
    · next s' heq =>
      rw [heq] at hhead
      rcases ih s' q hq with hold | ⟨p', hp', hrest⟩
      · exact hhead q hold
      · exact Or.inr ⟨p', List.mem_cons_of_mem p hp', hrest⟩

/-- **What an import counts**, when it comes to its end: the subjects, and the conversations
with turns, of which each has filed one. -/
theorem importLoop_spec (orgId : Option Text) (runId : Text) :
    ∀ (ps : List (PyStr × PyVal F)) (s : Import F), (importLoop out orgId runId ps s).1 = none →
      (importLoop out orgId runId ps s).2.subjects =
        ((ps.filter (hasTurns out)).map (subjectOf out)).toFinset ∪ s.subjects ∧
      (importLoop out orgId runId ps s).2.boundaryActs =
        s.boundaryActs + (ps.filter (hasTurns out)).length ∧
      (∀ q ∈ s.filed, q ∈ (importLoop out orgId runId ps s).2.filed) ∧
      ∀ p ∈ ps, hasTurns out p = true →
        (p.1, subjectOf out p) ∈ (importLoop out orgId runId ps s).2.filed := by
  intro ps
  induction ps with
  | nil =>
    intro s _
    exact ⟨by simp [importLoop], rfl, fun q hq => hq, by simp⟩
  | cons p ps ih =>
    intro s hnone
    rw [importLoop] at hnone ⊢
    split at hnone
    · cases hnone
    next s' heq =>
    obtain ⟨hsubjects, hboundary, hkeep, hfiled⟩ := ih s' hnone
    by_cases hp : hasTurns out p = true
    · -- a conversation with turns
      obtain ⟨k, hfile, hok⟩ := importConversation_of_turns out orgId runId hp s
      rw [heq] at hfile hok
      obtain ⟨hk, hsub, hbound⟩ := hok rfl
      dsimp only at hfile hsub hbound
      refine ⟨?_, ?_, fun q hq => hkeep q ?_, ?_⟩
      · rw [hsubjects, hsub, List.filter_cons_of_pos hp, List.map_cons, List.toFinset_cons,
          Finset.insert_union, Finset.union_insert]
      · rw [hboundary, hbound, List.filter_cons_of_pos hp, List.length_cons]
        omega
      · rw [hfile]
        exact List.mem_append_left _ hq
      · intro p' hp' hturns
        rcases List.mem_cons.mp hp' with rfl | hp'
        · apply hkeep
          rw [hfile]
          exact List.mem_append_right _ (List.mem_replicate.mpr ⟨by omega, rfl⟩)
        · exact hfiled p' hp' hturns
    · -- one without changes nothing
      have hsame := importConversation_of_no_turns out orgId runId (Bool.eq_false_iff.mpr hp) s
      rw [heq] at hsame
      dsimp only at hsame
      subst hsame
      rw [List.filter_cons_of_neg hp]
      refine ⟨hsubjects, hboundary, hkeep, ?_⟩
      intro p' hp' hturns
      rcases List.mem_cons.mp hp' with rfl | hp'
      · exact absurd hturns hp
      · exact hfiled p' hp' hturns

/-- The manifest files nothing, and the report tells what the loop counted. -/
theorem importChatgpt_spec (d : Disk F) (conversations : Conversations F)
    (norm : NormalizationReport) (orgId : Option Text) (id : Identity) :
    (importChatgpt out d conversations norm orgId id).2.filed =
        (importLoop out orgId id.runId conversations.items (Import.start d)).2.filed ∧
      ∀ report, (importChatgpt out d conversations norm orgId id).1 = .ok report →
        (importLoop out orgId id.runId conversations.items (Import.start d)).1 = none ∧
        report.subjects =
          (importLoop out orgId id.runId conversations.items (Import.start d)).2.subjects.card ∧
        report.boundaryActs =
          (importLoop out orgId id.runId conversations.items (Import.start d)).2.boundaryActs := by
  unfold importChatgpt
  split
  · next heq =>
    rw [heq]
    exact ⟨rfl, fun report h => by cases h⟩
  next s heq =>
  rw [heq]
  dsimp only
  split
  · exact ⟨rfl, fun report h => by cases h⟩
  split
  · exact ⟨rfl, fun report h => by cases h⟩
  · refine ⟨rfl, fun report h => ?_⟩
    obtain rfl := Except.ok.inj h
    exact ⟨rfl, rfl, rfl⟩

/-! ### Subjects of their own -/

theorem nodup_subjects {conversations : Conversations F} (h : Unlike out conversations) :
    ((conversations.items.filter (hasTurns out)).map (subjectOf out)).Nodup := by
  have hitems : (conversations.items.filter (hasTurns out)).Nodup :=
    (List.Nodup.of_map _ conversations.nodup).filter _
  refine hitems.map_on ?_
  intro p hp q hq hsame
  obtain ⟨hp, hpt⟩ := List.mem_filter.mp hp
  obtain ⟨hq, hqt⟩ := List.mem_filter.mp hq
  by_contra hne
  have hid : p.1 ≠ q.1 := fun hid => hne (List.inj_on_of_nodup_map conversations.nodup hp hq hid)
  obtain ⟨hbase, hdigits⟩ := (subjectOf_eq_iff out hpt hqt).mp hsame
  rcases h p hp q hq hpt hqt hid with hb | hd
  · exact hb hbase
  · exact hd hdigits

/-- **Unlike conversations have subjects of their own**, whether the import comes to its end
or not; **and if it does, they must be unlike.** -/
theorem ownSubjects_iff (d : Disk F) (conversations : Conversations F) (norm : NormalizationReport)
    (orgId : Option Text) (id : Identity) :
    (Unlike out conversations → OwnSubjects (importChatgpt out d conversations norm orgId id)) ∧
      ∀ report, (importChatgpt out d conversations norm orgId id).1 = .ok report →
        (OwnSubjects (importChatgpt out d conversations norm orgId id) ↔
          Unlike out conversations) := by
  obtain ⟨hfiled, hreport⟩ := importChatgpt_spec out d conversations norm orgId id
  have hown : Unlike out conversations →
      OwnSubjects (importChatgpt out d conversations norm orgId id) := by
    intro h
    refine ⟨?_, fun report hok => ?_⟩
    · intro a ha b hb hne hsame
      rw [hfiled] at ha hb
      rcases importLoop_filed out orgId id.runId _ _ a ha with ha | ⟨p, hp, hpt, rfl⟩
      · cases ha
      rcases importLoop_filed out orgId id.runId _ _ b hb with hb | ⟨q, hq, hqt, rfl⟩
      · cases hb
      obtain ⟨hbase, hdigits⟩ := (subjectOf_eq_iff out hpt hqt).mp hsame
      rcases h p hp q hq hpt hqt hne with hb | hd
      · exact hb hbase
      · exact hd hdigits
    · obtain ⟨hend, hsubjects, hboundary⟩ := hreport report hok
      obtain ⟨hset, hcount, -, -⟩ := importLoop_spec out orgId id.runId _ _ hend
      rw [hsubjects, hboundary, hset, hcount, Import.start, Finset.union_empty,
        List.toFinset_card_of_nodup (nodup_subjects out h), List.length_map, Nat.zero_add]
  refine ⟨hown, fun report hok => ⟨fun hsubjects => ?_, hown⟩⟩
  obtain ⟨hend, -, -⟩ := hreport report hok
  obtain ⟨-, -, -, hall⟩ := importLoop_spec out orgId id.runId _ _ hend
  intro p hp q hq hpt hqt hne
  have hp' := hall p hp hpt
  have hq' := hall q hq hqt
  rw [← hfiled] at hp' hq'
  by_contra hboth
  rw [not_or, not_not, not_not] at hboth
  exact hsubjects.1 _ hp' _ hq' hne ((subjectOf_eq_iff out hpt hqt).mpr hboth)

/-! ### Two chats of one title -/

/-- The lower case of ASCII. -/
def asciiLower (s : PyStr) : PyStr :=
  s.map fun c => if h : 65 ≤ c.val ∧ c.val ≤ 90 then ⟨c.val + 32, c.lower_lt h⟩ else c

/-- The surroundings of the sample. -/
noncomputable def sampleOutside : Outside FloatLit where
  env := { sampleEnv with msToIso := fun _ => .ok (py "2026-01-02T03:04:05.006Z") }
  str _ := []
  lower := asciiLower
  float _ := .error .typeError
  millis _ := .error .valueError
  mint _ := ⟨⟨py "consult_1", encodable_consult⟩, ⟨py "claim_1", filled_claim⟩,
    ⟨sampleTime, ⟨py "e", encodable_e⟩, sampleTime⟩⟩

/-- A conversation of one turn. -/
def sampleChat (title text : PyStr) : PyVal FloatLit :=
  .dict
    [(.str (py "title"), .str title),
      (.str (py "messages"), .list
        [.dict [(.str (py "role"), .str (py "user")), (.str (py "text"), .str text)]])]

/-- The run of the sample. -/
def sampleIdentity : Identity :=
  ⟨⟨py "run", encodable_run⟩, ⟨py "0", by decide⟩, ⟨py "2026-01-02", by decide⟩, 0⟩

/-- Two conversations of one title, begun on different days. -/
def apartChats : Conversations FloatLit where
  items := [(py "6878e2a1", sampleChat (py "New chat") (py "hello")),
    (py "687a1f00", sampleChat (py "New chat") (py "bye"))]
  nodup := by decide

end Ingest

end Daryl
