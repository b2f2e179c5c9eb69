import Daryl.Lib.StableSort
import Daryl.Rr.Relay

/-!
# `recall.search`: the search over the memory

The search reads every shard through the relay, keeps the entries that share a word with
the query, ranks and caps them, and says of each whether it is still relevant.  The code
does not keep which shard an entry was read from: what it calls the source shard is the
one the entry names.  Here an item carries both.

What Python has built in and the search uses is a parameter: `str` of what is no string,
`str.lower`, and the floating-point numbers of times and scores.

## Main definitions

* `Builtins` — the parameter.
* `tokenize`, `flattenContent`, `eventType`, `classify` — what is made of an entry.
* `Item`, `buildMatch` — `_build_match_from_entry`.
* `timeStatus` — `_apply_temporal_status`.
* `Call`, `recallItems` — the items of a search, ranked and with their status.
-/

namespace Daryl

open Py Json

/-- What the search takes from Python.  Scores and times are of a type `R`, with the arithmetic of
floats; `number` is the float of a number, and `timestamp` the method of a time. -/
structure Builtins (F R : Type) where
  str : PyVal F → PyStr
  lower : PyStr → PyStr
  timestamp : Datetime → Option R
  number : ℚ → R
  sqrt : R → R
  sub : R → R → R
  mul : R → R → R
  div : R → R → R
  pow : R → R → R
  round : ℕ → R → R

/-- `str(v)`. -/
def Builtins.strOf {F R : Type} (b : Builtins F R) : PyVal F → PyStr
  | .str s => s
  | v => b.str v

/-! ### Scores and ages -/

section

variable {F R : Type} (b : Builtins F R)

/-- `_ts_to_seconds` of a time: one without a time stamp is 0. -/
def Builtins.seconds (ts : Datetime) : R := (b.timestamp ts).getD (b.number 0)

/-- `_score_match`: of so many words so many match. -/
def Builtins.scoreMatch (matched total : ℕ) : R :=
  b.div (b.number matched) (b.sqrt (b.number (total + 1)))

/-- An age in days. -/
def Builtins.days (now ts : R) : R := b.div (b.sub now ts) (b.number 86400)

variable [LinearOrder R]

/-- `_recency_boost`, with `_RECENCY_HALF_LIFE_DAYS`. -/
def Builtins.recencyBoost (ts now : R) : R :=
  if ts ≤ b.number 0 ∨ now ≤ b.number 0 ∨ now < ts then b.number 1
  else b.pow (b.number (1 / 2)) (b.div (max (b.number 0) (b.days now ts)) (b.number 14))

/-- The rounded score of a match at a time. -/
def Builtins.relevance (matched total : ℕ) (ts now : R) : R :=
  b.round 4 (b.mul (b.scoreMatch matched total) (b.recencyBoost ts now))

/-- The test of the age, with `_OUTDATED_AGE_DAYS`. -/
def Builtins.outdated (ts now : R) : Bool := b.number 0 < ts && b.number 30 < b.days now ts

end

/-! ### Words -/

/-- The first code point of a word: a letter of Latin script. -/
def isWordStart (c : CodePoint) : Bool :=
  (65 ≤ c.val && c.val ≤ 90) || (97 ≤ c.val && c.val ≤ 122) || (0xC0 ≤ c.val && c.val ≤ 0x24F)

/-- A later one: also a digit, an underscore or a hyphen. -/
def isWordChar (c : CodePoint) : Bool :=
  isWordStart c || (48 ≤ c.val && c.val ≤ 57) || c.val == 95 || c.val == 45

/-- `_WORD_RE.findall`; the word being read is kept in reverse. -/
def findWords : Option PyStr → PyStr → List PyStr
  | cur, [] => (cur.map List.reverse).toList
  | none, c :: s => if isWordStart c then findWords (some [c]) s else findWords none s
  | some w, c :: s =>
    if isWordChar c then findWords (some (c :: w)) s else w.reverse :: findWords none s

/-- `_STOPWORDS`. -/
def stopwords : List PyStr :=
  [py "the", py "a", py "an", py "and", py "or", py "of", py "to", py "in", py "on", py "for",
    py "is", py "are", py "was", py "were", py "be", py "been", py "by", py "it", py "this",
    py "that", py "with", py "as", py "at", py "from", py "but", py "not", py "no", py "if",
    py "then", py "so", py "do", py "did", py "has", py "have", py "had", py "can", py "could",
    py "will", py "would", py "should", py "le", py "la", py "les", py "un", py "une", py "des",
    py "de", py "du", py "et", py "ou", py "dans", py "pour", py "est", py "sont",
    233 :: py "tait", 234 :: py "tre", py "par", py "ce", py "cette", py "avec", py "au",
    py "aux", py "mais", py "non", py "si", py "on", py "plus", py "tr" ++ 232 :: py "s"]

section

variable {F R : Type} [PyFloat F] (b : Builtins F R)

/-- `_tokenize`. -/
def tokenize (text : PyStr) : List PyStr :=
  ((findWords none text).filter fun t => 2 < t.length ∧ b.lower t ∉ stopwords).map b.lower

/-- The keys whose texts make the text of a dict. -/
def textKeys : List PyStr :=
  [py "text", py "prompt", py "msg", py "message", py "output", py "response", py "result"]

mutual

/-- `_flatten_content`. -/
def flattenContent : PyVal F → PyStr
  | .none => []
  | .str s => s
  | .dict kvs =>
    let parts := textKeys.filterMap fun k =>
      match dictGet k kvs with
      | some (.str s) => some s
      | _ => none
    if parts = [] then (print fileStyle (.dict kvs)).getD [] else (py " ").intercalate parts
  | .list vs => (py " ").intercalate (flattenContents vs)
  | .tuple vs => (py " ").intercalate (flattenContents vs)
  | v => b.str v

/-- `_flatten_content` of each. -/
def flattenContents : List (PyVal F) → List PyStr
  | [] => []
  | v :: vs => flattenContent v :: flattenContents vs

end

/-! ### Types -/

/-- `_entry_event_type`.  Metadata that are no dict have no `get`. -/
def eventType (entry : Entry F) : Except PyError PyStr :=
  match entry.metadata.orEmpty with
  | .dict fields =>
    let named := pyOr (getNone (py "event_type") fields) (getNone (py "action_name") fields)
    .ok (b.strOf (pyOr named (pyOr entry.source (.str []))))
  | _ => .error .attributeError

/-- `TYPE_HISTORICAL_DECISION`. -/
def historicalDecision : PyStr := py "historical_decision"

/-- `TYPE_WORKING_ASSUMPTION`. -/
def workingAssumption : PyStr := py "working_assumption"

/-- `TYPE_OUTDATED_POSSIBILITY`. -/
def outdatedPossibility : PyStr := py "outdated_possibility"

/-- `_DEFAULT_TYPE_MAP`; an event of type `none` is left out of the search. -/
def defaultTypeMap : List (PyStr × Option PyStr) :=
  [(py "session_start", none), (py "session_end", none),
    (py "user_prompt", some historicalDecision), (py "user_input", some historicalDecision),
    (py "final_output", some historicalDecision), (py "llm_response", some historicalDecision),
    (py "tool_exec:call", some workingAssumption), (py "tool_exec:return", some workingAssumption),
    (py "tool_call", some workingAssumption), (py "snapshot", some workingAssumption),
    (py "error", some outdatedPossibility), (py "transcript_ingest", none),
    (py "transcript_ingest_error", none)]

/-- `_classify`. -/
def classify (typeOverrides : List (PyStr × Option PyStr)) (event : PyStr) : Option PyStr :=
  match Dict.get event typeOverrides with
  | some type => type
  | none => (Dict.get event defaultTypeMap).getD (some workingAssumption)

/-! ### Items -/

/-- Whether an item is still relevant. -/
inductive TimeStatus
  | stillRelevant
  | superseded
  | outdated
  deriving DecidableEq

/-- A match: the shard the entry was read from, the entry, and what is made of it. -/
structure Item (F R : Type) where
  shard : PyStr
  entry : Entry F
  type : PyStr
  matched : List PyStr
  time : R
  relevance : R
  timeStatus : TimeStatus

variable [LinearOrder R]

/-- `_build_match_from_entry`: there is no match without a common word. -/
def buildMatch (typeOverrides : List (PyStr × Option PyStr)) (queryTokens : List PyStr) (now : R)
    (shard : PyStr) (entry : Entry F) : Except PyError (Option (Item F R)) :=
  (eventType b entry).map fun event =>
    (classify typeOverrides event).bind fun type =>
      let tokens := tokenize b (flattenContent b entry.content)
      let matched := queryTokens.filter fun t => t ∈ tokens
      if matched = [] then none
      else
        let time := b.seconds entry.timestamp
        some ⟨shard, entry, type, matched, time,
          b.relevance matched.length tokens.length time now, .stillRelevant⟩

/-- The types whose items may be superseded. -/
def supersedableTypes : List PyStr := [historicalDecision, workingAssumption]

/-- The status of an item among all: a later one that matches all its words supersedes
it. -/
def timeStatus (now : R) (all : List (Item F R)) (m : Item F R) : TimeStatus :=
  if m.type ∈ supersedableTypes ∧ m.matched ≠ [] ∧
      all.any fun other => m.time < other.time ∧ ∀ t ∈ m.matched, t ∈ other.matched then
    .superseded
  else if b.outdated m.time now then .outdated
  else m.timeStatus

/-- `_apply_temporal_status`, for some of the items. -/
def applyTemporalStatus (now : R) (all ms : List (Item F R)) : List (Item F R) :=
  ms.map fun m => { m with timeStatus := timeStatus b now all m }

/-! ### The search -/

/-- A call of `search_memory`; `clock` is the time the relay puts on the entries of a
block that have none. -/
structure Call (R : Type) where
  query : PyStr
  sessionId : Option PyStr
  shardIds : List PyStr
  acrossSessions : Bool
  maxResults : ℕ
  includeCurrentSession : Bool
  typeOverrides : List (PyStr × Option PyStr)
  now : R
  clock : Datetime

/-- `entry.session_id == resolved_current`. -/
def inSession (sessionId : Option PyStr) (entry : Entry F) : Bool :=
  match sessionId with
  | some s => pyEq entry.sessionId (.str s)
  | none => entry.sessionId.isNone

/-- The matches of the entries, in order; the first exception ends the search. -/
def collectMatches (c : Call R) (queryTokens : List PyStr) :
    List (PyStr × Entry F) → Except PyError (List (Item F R))
  | [] => .ok []
  | p :: ps =>
    if !c.acrossSessions && !inSession c.sessionId p.2 then collectMatches c queryTokens ps
    else
      (buildMatch b c.typeOverrides queryTokens c.now p.1 p.2).bind fun m =>
        (collectMatches c queryTokens ps).map (m.toList ++ ·)

/-- Most relevant first, and no more than asked for. -/
def ranked (c : Call R) (ms : List (Item F R)) : List (Item F R) :=
  (StableSort.sortBy (fun m : Item F R => OrderDual.toDual m.relevance) ms).take c.maxResults

/-- The items of a search, those of past sessions first, with their status. -/
def recallItems (d : Disk F) (c : Call R) : Except PyError (List (Item F R) × List (Item F R)) :=
  let queryTokens := (tokenize b c.query).dedup
  let scanned := if queryTokens = [] then [] else scanEntries c.clock d c.shardIds 100000
  (collectMatches b c queryTokens scanned).map fun ms =>
    let current := ms.filter fun m => c.sessionId.isSome && inSession c.sessionId m.entry
    let past := ms.filter fun m => !(c.sessionId.isSome && inSession c.sessionId m.entry)
    let past := ranked c past
    let current := if c.includeCurrentSession then ranked c current else []
    let all := past ++ current
    (applyTemporalStatus b c.now all past, applyTemporalStatus b c.now all current)

end

end Daryl
