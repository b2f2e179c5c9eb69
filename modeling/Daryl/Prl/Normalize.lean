import Daryl.Dsm.Anchor
import Daryl.Lib.Walk
import Daryl.Prl.Ingest

/-!
# `prl.chatgpt_normalize`: the official export

A conversation of the official export is a tree of nodes with messages.  The normalizer keeps
the branch that leads to the current node, and counts what it drops.

The nodes of the branch are found by their keys in the mapping; the nodes off the branch are
those whose key is not the `id` of a node on it.  Where a node carries another id than its key,
it is kept and counted as dropped, and the node whose key it names is neither.

## Main definitions

* `Mapping`, `Export` — the nodes of a conversation under distinct keys, and the conversations.
* `linearPath` — the kept branch.
* `fateOf` — what becomes of a node on it.
* `normalizeConversation`, `normalizeOfficial` — the conversations, and the report.
* `doubled`, `missed`, `shadowed` — what is counted twice, never, and what another conversation
  takes the place of.

## Main results

* `walk_ends` — the walk to the root ends, whatever the parents are.
* `count_conversation` — what one conversation keeps and drops.
* `accounted_iff` — **when nothing is dropped silently.**
-/

namespace Daryl

open Py Json Model

namespace Normalize

variable {F : Type} [PyFloat F]

/-! ### The export -/

/-- The items of an object. -/
abbrev Items (F : Type) : Type := List (Key F × PyVal F)

/-- The mapping of a conversation: objects under distinct keys. -/
structure Mapping (F : Type) where
  items : List (PyStr × Items F)
  nodup : (Dict.keys items).Nodup

/-- A conversation of the export: its mapping, and its other fields. -/
structure OfficialConversation (F : Type) where
  mapping : Mapping F
  fields : Items F

/-- The export: a list or a dict of conversations; `none` is an item that is no object. -/
inductive Export (F : Type)
  | list (convs : List (Option (OfficialConversation F)))
  | dict (convs : List (PyStr × Option (OfficialConversation F)))

variable (str : PyVal F → PyStr)

/-- `str(v)`, for a string the string itself. -/
def strOf : PyVal F → PyStr
  | .str s => s
  | v => str v

/-! ### Rendering -/

/-- `_placeholder_for`. -/
def placeholderFor (part : Items F) : PyStr :=
  let ct := strOf str (pyOr (getNone (py "content_type") part) (.str []))
  if py "image" <:+: ct ∨ (dictGet (py "asset_pointer") part).isSome then py "[image]"
  else if py "audio" <:+: ct then py "[audio]"
  else if (getNone (py "name") part).truthy then
    py "[file: " ++ strOf str (getNone (py "name") part) ++ py "]"
  else py "[attachment]"

/-- One part of a content: its chunk, and how many placeholders it is. -/
def renderPart : PyVal F → Option PyStr × ℕ
  | .str s => (if strip s = [] then none else some s, 0)
  | .dict part => (some (placeholderFor str part), 1)
  | _ => (some (py "[attachment]"), 1)

/-- `_render_content`. -/
def renderContent (content : Items F) : PyStr × ℕ :=
  match getNone (py "parts") content with
  | .list parts =>
    let rendered := parts.map (renderPart str)
    (Ingest.joinWith [nl] (rendered.filterMap Prod.fst), (rendered.map Prod.snd).sum)
  | _ =>
    let typed : PyStr × ℕ :=
      let ct := strOf str (pyOr (getNone (py "content_type") content) (.str []))
      if ct = [] then ([], 0) else (py "[" ++ ct ++ py "]", 1)
    match getNone (py "text") content with
    | .str text => if strip text = [] then typed else (text, 0)
    | _ => typed

/-! ### The kept branch -/

/-- The node bears a message. -/
def bears (node : Items F) : Bool := (getNone (py "message") node).truthy

/-- The parent of a node, if that is a key. -/
def parentOf (m : Mapping F) (k : PyStr) : Option PyStr :=
  match Dict.get k m.items with
  | none => none
  | some node =>
    match getNone (py "parent") node with
    | .str p => if p ∈ Dict.keys m.items then some p else none
    | _ => none

/-- The keys that the walk to the root passes, from a key on. -/
def walkKeys (m : Mapping F) (start : PyStr) : List PyStr :=
  (Walk.walk (parentOf m) (m.items.length + 1) [] (some start)).1

/-- The current node, if it is a key. -/
def startKey (m : Mapping F) : PyVal F → Option PyStr
  | .str s => if s ∈ Dict.keys m.items then some s else none
  | _ => none

/-- What the messages are sorted by; `none` is the `AttributeError` of a message that is no
object. -/
def timeKey (node : Items F) : Option (PyVal F) :=
  match getNone (py "message") node with
  | .dict m =>
    let t := getNone (py "create_time") m
    some (.tuple [.bool t.isNone, pyOr t (.int 0)])
  | _ => none

/-- `nodes.sort(key=...)`; `none` is an exception: a message that is no object, or two times that
do not compare. -/
def sortByTime (nodes : List (Items F)) : Option (List (Items F)) :=
  match nodes.mapM fun n => (timeKey n).map fun t => (t, n) with
  | none => none
  | some keyed =>
    if keyed.Pairwise fun a b => (Anchor.pyLt b.1 a.1).isSome = true then
      some ((keyed.insertionSort fun a b => Anchor.pyLt b.1 a.1 ≠ some true).map Prod.snd)
    else none

/-- `_linear_path`. -/
def linearPath (m : Mapping F) (currentNode : PyVal F) : Option (List (Items F)) :=
  match startKey m currentNode with
  | some start => some ((walkKeys m start).reverse.filterMap fun k => Dict.get k m.items)
  | none => sortByTime ((m.items.map Prod.snd).filter bears)

/-! ### What becomes of a node -/

/-- A message of the output. -/
structure Message (F : Type) where
  role : PyStr
  text : PyStr
  t : PyVal F

/-- What becomes of a node on the branch. -/
inductive Fate (F : Type)
  | anchor
  | hidden
  | system
  | empty (placeholders : ℕ)
  | kept (message : Message F) (placeholders : ℕ)

/-- The body of the loop over the branch, without its counts; `none` is the `AttributeError` of
what is no object. -/
def fateOf (node : Items F) : Option (Fate F) :=
  if bears node then
    match getNone (py "message") node with
    | .dict m =>
      match (getNone (py "author") m).orEmpty, (getNone (py "metadata") m).orEmpty with
      | .dict author, .dict metadata =>
        let role := strOf str (pyOr (getNone (py "role") author) (.str (py "unknown")))
        if (getNone (py "is_visually_hidden_from_conversation") metadata).truthy then some .hidden
        else if role = py "system" then some .system
        else
          match (getNone (py "content") m).orEmpty with
          | .dict content =>
            let (text, placeholders) := renderContent str content
            if strip text = [] then some (.empty placeholders)
            else some (.kept ⟨role, text, getNone (py "create_time") m⟩ placeholders)
          | _ => none
      | _, _ => none
    | _ => none
  else some .anchor

/-- The node is kept as a message. -/
def Fate.isKept : Fate F → Bool
  | .kept _ _ => true
  | _ => false

/-- The node is passed over. -/
def Fate.isAnchor : Fate F → Bool
  | .anchor => true
  | _ => false

/-- What the loop counts and keeps. -/
def tally (acc : List (Message F) × Ingest.NormalizationReport) :
    Fate F → List (Message F) × Ingest.NormalizationReport
  | .anchor => acc
  | .hidden => (acc.1, { acc.2 with droppedHidden := acc.2.droppedHidden + 1 })
  | .system => (acc.1, { acc.2 with droppedSystem := acc.2.droppedSystem + 1 })
  | .empty placeholders => (acc.1, { acc.2 with
      placeholderNontext := acc.2.placeholderNontext + placeholders
      droppedEmpty := acc.2.droppedEmpty + 1 })
  | .kept message placeholders => (acc.1 ++ [message], { acc.2 with
      placeholderNontext := acc.2.placeholderNontext + placeholders })

/-- A conversation of the output. -/
structure NormalConversation (F : Type) where
  title : PyVal F
  gizmoId : PyVal F
  createTime : PyVal F
  updateTime : PyVal F
  messages : List (Message F)

/-- The key is none of the ids of the branch. -/
def offBranch (path : List (Items F)) (k : PyStr) : Bool :=
  !pyIn (.str k) (path.map (getNone (py "id")))

/-- `_normalize_conversation`; `none` is an exception. -/
def normalizeConversation (conv : OfficialConversation F) (report : Ingest.NormalizationReport) :
    Option (NormalConversation F × Ingest.NormalizationReport) :=
  match linearPath conv.mapping (getNone (py "current_node") conv.fields) with
  | none => none
  | some path =>
    -- the ids go into a set
    if path.all fun n => (getNone (py "id") n).hashes then
      let branches := conv.mapping.items.countP fun kv => offBranch path kv.1 && bears kv.2
      let report := { report with droppedBranches := report.droppedBranches + branches }
      match path.mapM (fateOf str) with
      | none => none
      | some fates =>
        let (messages, report) := fates.foldl tally ([], report)
        some (⟨(getNone (py "title") conv.fields).orText, getNone (py "gizmo_id") conv.fields,
          getNone (py "create_time") conv.fields, getNone (py "update_time") conv.fields, messages⟩,
          report)
    else none

/-- The id of a conversation. -/
def convId (conv : OfficialConversation F) (other : PyVal F) : PyStr :=
  strOf str (pyOr (getNone (py "conversation_id") conv.fields)
    (pyOr (getNone (py "id") conv.fields) other))

/-- `_iter_official`. -/
def iterOfficial : Export F → List (PyStr × OfficialConversation F)
  | .list convs => convs.zipIdx.filterMap fun p => p.1.map fun c => (convId str c (.int p.2), c)
  | .dict convs => convs.filterMap fun p => p.2.map fun c => (convId str c (.str p.1), c)

/-- An empty `NormalizationReport`. -/
def noReport : Ingest.NormalizationReport := ⟨0, 0, 0, 0, 0⟩

/-- The loop of `normalize_official`. -/
def normalizeLoop : List (PyStr × OfficialConversation F) →
    List (PyStr × NormalConversation F) × Ingest.NormalizationReport →
    Option (List (PyStr × NormalConversation F) × Ingest.NormalizationReport)
  | [], acc => some acc
  | p :: rest, acc =>
    match normalizeConversation str p.2 acc.2 with
    | none => none
    | some (conv, report) => normalizeLoop rest (Dict.set p.1 conv acc.1, report)

/-- `normalize_official`; `none` is an exception. -/
def normalizeOfficial (data : Export F) :
    Option (List (PyStr × NormalConversation F) × Ingest.NormalizationReport) :=
  normalizeLoop str (iterOfficial str data) ([], noReport)

/-! ### What is counted -/

/-- The keys of the branch. -/
def branchKeys (conv : OfficialConversation F) : List PyStr :=
  match startKey conv.mapping (getNone (py "current_node") conv.fields) with
  | some start => walkKeys conv.mapping start
  | none => Dict.keys conv.mapping.items

/-- The nodes of the branch. -/
def branch (conv : OfficialConversation F) : List (Items F) :=
  (linearPath conv.mapping (getNone (py "current_node") conv.fields)).getD []

/-- The nodes that bear a message. -/
def bearing (conv : OfficialConversation F) : ℕ := conv.mapping.items.countP fun kv => bears kv.2

/-- The nodes on the branch that are counted as off it. -/
def doubled (conv : OfficialConversation F) : ℕ :=
  conv.mapping.items.countP fun kv =>
    decide (kv.1 ∈ branchKeys conv) && (offBranch (branch conv) kv.1 && bears kv.2)

/-- The nodes off the branch that are not counted so. -/
def missed (conv : OfficialConversation F) : ℕ :=
  conv.mapping.items.countP fun kv =>
    !decide (kv.1 ∈ branchKeys conv) && (!offBranch (branch conv) kv.1 && bears kv.2)

/-- The node is kept as a message. -/
def isKept (node : Items F) : Bool := ((fateOf str node).map Fate.isKept).getD false

/-- The messages that a conversation keeps. -/
def shown (conv : OfficialConversation F) : ℕ := (branch conv).countP (isKept str)

/-- The messages of the conversations whose id comes again. -/
def shadowed (data : Export F) : ℕ :=
  ((Dict.overwritten Prod.fst (iterOfficial str data)).map fun p => shown str p.2).sum

/-- The value is an object, or stands for an empty one. -/
def IsObject (v : PyVal F) : Prop := ∃ kvs, v.orEmpty = .dict kvs

/-- **The message of a node can be read**: it is an object with objects for author and metadata,
and one for content unless it is dropped before. -/
def Legible (node : Items F) : Prop :=
  ∃ m, getNone (py "message") node = .dict m ∧
    IsObject (getNone (py "metadata") m) ∧
    ∃ author, (getNone (py "author") m).orEmpty = .dict author ∧
      (IsObject (getNone (py "content") m) ∨
        strOf str (pyOr (getNone (py "role") author) (.str (py "unknown"))) = py "system" ∨
        ∃ metadata, (getNone (py "metadata") m).orEmpty = .dict metadata ∧
          (getNone (py "is_visually_hidden_from_conversation") metadata).truthy = true)

/-- **The branch of a conversation can be read**: there is one, where the times need no comparing
or compare; its ids go into a set; and its messages can be read. -/
def Readable (conv : OfficialConversation F) : Prop :=
  (linearPath conv.mapping (getNone (py "current_node") conv.fields)).isSome = true ∧
    ∀ n ∈ branch conv, (getNone (py "id") n).hashes = true ∧ (bears n = true → Legible str n)

/-- The messages of an output. -/
def keptMessages (out : List (PyStr × NormalConversation F)) : ℕ :=
  (out.map fun p => p.2.messages.length).sum

/-- All that a report counts as dropped. -/
def dropped (report : Ingest.NormalizationReport) : ℕ :=
  report.droppedBranches + report.droppedHidden + report.droppedSystem + report.droppedEmpty

/-- **Nothing is dropped silently**: the export is normalized, and every node with a message is a
message of the output or counted. -/
def Accounted (data : Export F) : Prop :=
  ∃ out report, normalizeOfficial str data = some (out, report) ∧
    ((iterOfficial str data).map fun p => bearing p.2).sum = keptMessages out + dropped report

/-! ### The walk to the root -/

omit [PyFloat F] in
theorem parentOf_mem_keys {m : Mapping F} {n k : PyStr} (h : parentOf m n = some k) :
    n ∈ Dict.keys m.items ∧ k ∈ Dict.keys m.items := by
  unfold parentOf at h
  cases hget : Dict.get n m.items with
  | none => rw [hget] at h; exact nomatch h
  | some node =>
    have hn : n ∈ Dict.keys m.items := by
      rw [← Dict.get_isSome, hget]
      rfl
    rw [hget] at h
    dsimp only at h
    split at h
    · split_ifs at h with hmem
      obtain rfl := Option.some.inj h
      exact ⟨hn, hmem⟩
    · exact nomatch h

omit [PyFloat F] in
/-- **The walk ends, whatever the parents are**: more steps than there are nodes add nothing. -/
theorem walk_ends (m : Mapping F) (start : PyStr) {fuel : ℕ} (hfuel : m.items.length < fuel) :
    (Walk.walk (parentOf m) fuel [] (some start)).1 = walkKeys m start := by
  have hdom : ∀ n k, parentOf m n = some k → n ∈ Dict.keys m.items :=
    fun n k h => (parentOf_mem_keys h).1
  have hlen : (Dict.keys m.items).length = m.items.length := List.length_map _
  rw [Walk.walk_of_fuel start hdom (by rw [hlen]; exact hfuel), hlen]
  rfl

omit [PyFloat F] in
/-- The keys passed are distinct keys of the mapping. -/
theorem walkKeys_spec {m : Mapping F} {start : PyStr} (hstart : start ∈ Dict.keys m.items) :
    (walkKeys m start).Nodup ∧ ∀ k ∈ walkKeys m start, k ∈ Dict.keys m.items := by
  have hlen : (Dict.keys m.items).length = m.items.length := List.length_map _
  have hdom : ∀ n k, parentOf m n = some k → n ∈ Dict.keys m.items :=
    fun n k h => (parentOf_mem_keys h).1
  have hwalk := Walk.trail_walk start hdom
  rw [hlen] at hwalk
  obtain ⟨htrail, hended⟩ := hwalk
  refine ⟨htrail.nodup, ?_⟩
  obtain ⟨rest, hrest⟩ := htrail.exists_cons hended
  have hchain := htrail.chain
  intro k hk
  rw [walkKeys, hrest] at hk
  rw [hrest] at hchain
  -- a step ends at a key
  induction Walk.reach_of_chain hchain hk with
  | refl => exact hstart
  | tail _ hstep _ => exact (parentOf_mem_keys hstep).2

/-! ### One conversation -/

/-- A value that is no object after all makes the message illegible. -/
theorem isObject_iff_match {A : Type} {v : PyVal F} {f : Items F → Option A} :
    (match v.orEmpty with | .dict kvs => f kvs | _ => none).isSome = true ↔
      ∃ kvs, v.orEmpty = .dict kvs ∧ (f kvs).isSome = true := by
  cases v.orEmpty with
  | dict kvs => simp
  | _ => simp

/-- **A node has a fate iff its message, if it bears one, can be read.** -/
theorem fateOf_isSome_iff (node : Items F) :
    (fateOf str node).isSome = true ↔ (bears node = true → Legible str node) := by
  unfold fateOf
  by_cases hbears : bears node = true
  · rw [if_pos hbears]
    simp only [hbears, true_imp_iff]
    unfold Legible
    cases hm : getNone (py "message") node with
    | dict m =>
      dsimp only
      cases hauthor : (getNone (py "author") m).orEmpty with
      | dict author =>
        cases hmeta : (getNone (py "metadata") m).orEmpty with
        | dict metadata =>
          dsimp only
          constructor
          · intro h
            refine ⟨m, rfl, ⟨metadata, hmeta⟩, author, hauthor, ?_⟩
            -- hidden, of the system, or shown, and then its content is read
            split_ifs at h with hhidden hsystem
            · exact Or.inr (Or.inr ⟨metadata, hmeta, hhidden⟩)
            · exact Or.inr (Or.inl hsystem)
            · obtain ⟨content, hcontent, -⟩ := isObject_iff_match.mp h
              exact Or.inl ⟨content, hcontent⟩
          · rintro ⟨m', ⟨⟩, -, author', hauthor', hrest⟩
            obtain rfl := PyVal.dict.inj (hauthor.symm.trans hauthor')
            split_ifs with hhidden hsystem
            · rfl
            · rfl
            · rcases hrest with ⟨content, hcontent⟩ | hsys | ⟨metadata', hmeta', hhid⟩
              · refine isObject_iff_match.mpr ⟨content, hcontent, ?_⟩
                split_ifs
                · rfl
                · rfl
              · exact absurd hsys hsystem
              · obtain rfl := PyVal.dict.inj (hmeta.symm.trans hmeta')
                exact absurd hhid hhidden
        | _ =>
          constructor
          · rintro ⟨⟩
          · rintro ⟨m', ⟨⟩, ⟨kvs, hkvs⟩, -⟩
            -- metadata that is no dict
            cases hmeta.symm.trans hkvs
      | _ =>
        constructor
        · rintro ⟨⟩
        · rintro ⟨m', ⟨⟩, -, author', hauthor', -⟩
          -- an author that is no dict
          cases hauthor.symm.trans hauthor'
    | _ =>
      constructor
      · rintro ⟨⟩
      · rintro ⟨m', hm', -⟩
        cases hm'
  · rw [if_neg hbears]
    exact ⟨fun _ h => absurd h hbears, fun _ => rfl⟩

/-- A node is passed over iff it bears no message. -/
theorem isAnchor_fateOf {node : Items F} {fate : Fate F} (h : fateOf str node = some fate) :
    fate.isAnchor = !bears node := by
  unfold fateOf at h
  by_cases hbears : bears node = true
  · rw [if_pos hbears] at h
    rw [hbears]
    -- every branch for a message gives another fate
    split at h
    · split at h
      · dsimp only at h
        split_ifs at h
        · rw [← Option.some.inj h]; rfl
        · rw [← Option.some.inj h]; rfl
        · split at h
          · split_ifs at h
            · rw [← Option.some.inj h]; rfl
            · rw [← Option.some.inj h]; rfl
          · exact nomatch h
      · exact nomatch h
    · exact nomatch h
  · rw [if_neg hbears] at h
    have hfalse : bears node = false := by simpa using hbears
    rw [← Option.some.inj h, hfalse]
    rfl

omit [PyFloat F] in
/-- One fate: a message is kept, or something is counted, or the node is passed over. -/
theorem tally_step (acc : List (Message F) × Ingest.NormalizationReport) (fate : Fate F) :
    (tally acc fate).1.length = acc.1.length + (if fate.isKept then 1 else 0) ∧
      dropped (tally acc fate).2 + (tally acc fate).1.length
        = dropped acc.2 + acc.1.length + (if !fate.isAnchor then 1 else 0) := by
  cases fate with
  | anchor => exact ⟨rfl, rfl⟩
  | kept message k =>
    constructor
    · exact List.length_append
    · simp only [tally, dropped, Fate.isAnchor, List.length_append, List.length_singleton,
        Bool.not_false, if_true]
      omega
  | hidden | system | empty k =>
    constructor
    · rfl
    · simp only [tally, dropped, Fate.isAnchor, Bool.not_false, if_true]
      omega

/-- **What the loop over the branch keeps and counts.** -/
theorem tally_spec {path : List (Items F)} {fates : List (Fate F)}
    (h : path.mapM (fateOf str) = some fates)
    (acc : List (Message F) × Ingest.NormalizationReport) :
    (fates.foldl tally acc).1.length = acc.1.length + path.countP (isKept str) ∧
      dropped (fates.foldl tally acc).2 + (fates.foldl tally acc).1.length
        = dropped acc.2 + acc.1.length + path.countP bears := by
  induction path generalizing fates acc with
  | nil =>
    obtain rfl := Option.some.inj h
    exact ⟨rfl, rfl⟩
  | cons n path ih =>
    rw [List.mapM_cons] at h
    cases hfate : fateOf str n with
    | none => rw [hfate] at h; exact nomatch h
    | some fate =>
      cases hrest : path.mapM (fateOf str) with
      | none => rw [hfate, hrest] at h; exact nomatch h
      | some rest =>
        rw [hfate, hrest] at h
        obtain rfl := Option.some.inj h
        obtain ⟨hlen, htotal⟩ := ih hrest (tally acc fate)
        obtain ⟨hlen₁, htotal₁⟩ := tally_step acc fate
        have hkept : isKept str n = fate.isKept := by rw [isKept, hfate]; rfl
        rw [← hkept] at hlen₁
        rw [isAnchor_fateOf str hfate, Bool.not_not] at htotal₁
        rw [List.foldl_cons, List.countP_cons, List.countP_cons]
        exact ⟨by omega, by omega⟩

/-- Sorting keeps the nodes. -/
theorem sortByTime_perm {nodes path : List (Items F)} (h : sortByTime nodes = some path) :
    path.Perm nodes := by
  have hkeyed : ∀ {nodes : List (Items F)} {keyed : List (PyVal F × Items F)},
      (nodes.mapM fun n => (timeKey n).map fun t => (t, n)) = some keyed →
      keyed.map Prod.snd = nodes := by
    intro nodes
    induction nodes with
    | nil =>
      rintro keyed h
      rw [← Option.some.inj h]
      rfl
    | cons n nodes ih =>
      intro keyed h
      rw [List.mapM_cons] at h
      cases htime : timeKey n with
      | none => rw [htime] at h; exact nomatch h
      | some t =>
        cases hrest : nodes.mapM fun n => (timeKey n).map fun t => (t, n) with
        | none => rw [htime, hrest] at h; exact nomatch h
        | some rest =>
          rw [htime, hrest] at h
          rw [← Option.some.inj h, List.map_cons, ih hrest]
  unfold sortByTime at h
  cases hmap : nodes.mapM fun n => (timeKey n).map fun t => (t, n) with
  | none => rw [hmap] at h; exact nomatch h
  | some keyed =>
    rw [hmap] at h
    dsimp only at h
    split_ifs at h with hpairs
    rw [← Option.some.inj h, ← hkeyed hmap]
    exact (List.perm_insertionSort _ keyed).map Prod.snd

/-- **The branch has the nodes of its keys**, as far as they bear messages. -/
theorem countP_branch {conv : OfficialConversation F}
    (h : (linearPath conv.mapping (getNone (py "current_node") conv.fields)).isSome = true) :
    (branch conv).countP bears = conv.mapping.items.countP fun kv =>
      decide (kv.1 ∈ branchKeys conv) && bears kv.2 := by
  unfold branch branchKeys
  unfold linearPath at h ⊢
  cases hstart : startKey conv.mapping (getNone (py "current_node") conv.fields) with
  | some start =>
    have hmem : start ∈ Dict.keys conv.mapping.items := by
      unfold startKey at hstart
      split at hstart
      · split_ifs at hstart with hmem
        rw [← Option.some.inj hstart]
        exact hmem
      · exact nomatch hstart
    obtain ⟨hnodup, hsub⟩ := walkKeys_spec hmem
    dsimp only [Option.getD_some]
    rw [List.filterMap_reverse, List.countP_reverse,
      Dict.countP_filterMap_get bears conv.mapping.nodup hnodup hsub]
    apply List.countP_congr
    intro kv _
    simp
  | none =>
    rw [hstart] at h
    obtain ⟨path, hpath⟩ := Option.isSome_iff_exists.mp h
    dsimp only at hpath ⊢
    rw [hpath, Option.getD_some, (sortByTime_perm hpath).countP_eq, List.countP_filter,
      List.countP_map]
    apply List.countP_congr
    intro kv hkv
    have hkey : kv.1 ∈ Dict.keys conv.mapping.items := List.mem_map_of_mem hkv
    simp [hkey]

/-- A count is that of those with a property and of those without. -/
theorem countP_split {A : Type*} (p q : A → Bool) (l : List A) :
    l.countP p = (l.countP fun a => q a && p a) + l.countP fun a => !q a && p a := by
  induction l with
  | nil => rfl
  | cons a l ih =>
    rw [List.countP_cons, List.countP_cons, List.countP_cons, ih]
    cases q a <;> cases p a <;> simp <;> omega

/-- **What one conversation keeps and drops**: its nodes with a message, up to those that are
counted twice or never. -/
theorem count_conversation {conv : OfficialConversation F}
    (h : (linearPath conv.mapping (getNone (py "current_node") conv.fields)).isSome = true) :
    bearing conv + doubled conv = (branch conv).countP bears +
      (conv.mapping.items.countP fun kv => offBranch (branch conv) kv.1 && bears kv.2) +
      missed conv := by
  rw [countP_branch h, bearing, doubled, missed]
  have hall := countP_split (fun kv : PyStr × Items F => bears kv.2)
    (fun kv => decide (kv.1 ∈ branchKeys conv)) conv.mapping.items
  have hoff := countP_split
    (fun kv : PyStr × Items F => offBranch (branch conv) kv.1 && bears kv.2)
    (fun kv => decide (kv.1 ∈ branchKeys conv)) conv.mapping.items
  have hrest := countP_split
    (fun kv : PyStr × Items F => !decide (kv.1 ∈ branchKeys conv) && bears kv.2)
    (fun kv => offBranch (branch conv) kv.1) conv.mapping.items
  have hswap : ∀ f : PyStr × Items F → Bool,
      (conv.mapping.items.countP fun kv =>
        f kv && (!decide (kv.1 ∈ branchKeys conv) && bears kv.2)) =
      conv.mapping.items.countP fun kv =>
        !decide (kv.1 ∈ branchKeys conv) && (f kv && bears kv.2) := by
    intro f
    apply List.countP_congr
    intro kv _
    rw [Bool.and_left_comm]
  rw [hswap, hswap] at hrest
  omega

/-- The nodes of the branch have a fate each iff their messages can be read. -/
theorem mapM_fateOf_isSome_iff (path : List (Items F)) :
    (path.mapM (fateOf str)).isSome = true ↔ ∀ n ∈ path, bears n = true → Legible str n := by
  induction path with
  | nil => simp
  | cons n path ih =>
    rw [List.forall_mem_cons, ← ih, ← fateOf_isSome_iff, List.mapM_cons]
    cases fateOf str n with
    | none => simp
    | some fate => cases path.mapM (fateOf str) <;> simp

/-- **A conversation is normalized iff its branch can be read.** -/
theorem normalizeConversation_isSome_iff (conv : OfficialConversation F)
    (report : Ingest.NormalizationReport) :
    (normalizeConversation str conv report).isSome = true ↔ Readable str conv := by
  unfold normalizeConversation Readable branch
  cases linearPath conv.mapping (getNone (py "current_node") conv.fields) with
  | none =>
    constructor
    · exact fun h => nomatch h
    · exact fun h => nomatch h.1
  | some path =>
    dsimp only [Option.getD_some]
    have hmap := mapM_fateOf_isSome_iff str path
    by_cases hids : (path.all fun n => (getNone (py "id") n).hashes) = true
    · rw [if_pos hids]
      have hhash := List.all_eq_true.mp hids
      constructor
      · intro h
        refine ⟨rfl, fun n hn => ⟨hhash n hn, ?_⟩⟩
        refine hmap.mp ?_ n hn
        cases hfates : path.mapM (fateOf str) with
        | none => rw [hfates] at h; exact nomatch h
        | some fates => rfl
      · rintro ⟨-, hall⟩
        obtain ⟨fates, hfates⟩ := Option.isSome_iff_exists.mp
          (hmap.mpr fun n hn => (hall n hn).2)
        rw [hfates]
        rfl
    · rw [if_neg hids]
      constructor
      · exact fun h => nomatch h
      · rintro ⟨-, hall⟩
        exact absurd (List.all_eq_true.mpr fun n hn => (hall n hn).1) hids

/-- **What a conversation adds to the output and to the report.** -/
theorem normalizeConversation_spec {conv : OfficialConversation F} {c : NormalConversation F}
    {report report' : Ingest.NormalizationReport}
    (h : normalizeConversation str conv report = some (c, report')) :
    c.messages.length = shown str conv ∧
      bearing conv + doubled conv + dropped report
        = c.messages.length + dropped report' + missed conv := by
  have hreadable := (normalizeConversation_isSome_iff str conv report).mp (by rw [h]; rfl)
  have hcount := count_conversation hreadable.1
  obtain ⟨path, hpath⟩ := Option.isSome_iff_exists.mp hreadable.1
  have hbranch : branch conv = path := by rw [branch, hpath]; rfl
  unfold normalizeConversation at h
  rw [hpath] at h
  dsimp only at h
  split_ifs at h with hids
  cases hfates : path.mapM (fateOf str) with
  | none => rw [hfates] at h; exact nomatch h
  | some fates =>
    rw [hfates] at h
    obtain ⟨hlen, htotal⟩ := tally_spec str hfates ([], { report with
      droppedBranches := report.droppedBranches +
        conv.mapping.items.countP fun kv => offBranch path kv.1 && bears kv.2 })
    obtain ⟨rfl, rfl⟩ := Prod.mk.inj (Option.some.inj h)
    rw [List.length_nil, Nat.zero_add] at hlen
    rw [shown, hbranch]
    refine ⟨hlen, ?_⟩
    rw [hbranch] at hcount
    simp only [dropped, List.length_nil] at htotal ⊢
    omega

/-! ### The export -/

/-- **The export is normalized iff the branches can be read**, and then the output holds, of the
conversations with one id, the last. -/
theorem normalizeLoop_spec (convs : List (PyStr × OfficialConversation F))
    (acc : List (PyStr × NormalConversation F) × Ingest.NormalizationReport) :
    ((normalizeLoop str convs acc).isSome = true ↔ ∀ p ∈ convs, Readable str p.2) ∧
      ∀ out report, normalizeLoop str convs acc = some (out, report) →
        ∃ results : List (PyStr × NormalConversation F),
          (results.map fun r => (r.1, r.2.messages.length))
              = (convs.map fun p => (p.1, shown str p.2)) ∧
            out = results.foldl (fun d r => Dict.set r.1 r.2 d) acc.1 ∧
            (convs.map fun p => bearing p.2).sum + (convs.map fun p => doubled p.2).sum +
                dropped acc.2
              = (convs.map fun p => shown str p.2).sum + dropped report +
                (convs.map fun p => missed p.2).sum := by
  induction convs generalizing acc with
  | nil =>
    refine ⟨by simp [normalizeLoop], ?_⟩
    intro out report h
    obtain ⟨rfl, rfl⟩ := Prod.mk.inj (Option.some.inj h)
    exact ⟨[], rfl, rfl, by simp⟩
  | cons p convs ih =>
    have hiff := normalizeConversation_isSome_iff str p.2 acc.2
    rw [List.forall_mem_cons]
    unfold normalizeLoop
    cases hconv : normalizeConversation str p.2 acc.2 with
    | none =>
      rw [hconv] at hiff
      constructor
      · constructor
        · exact fun h => nomatch h
        · exact fun h => nomatch hiff.mpr h.1
      · intro out report h
        exact nomatch h
    | some q =>
      obtain ⟨c, report₁⟩ := q
      rw [hconv] at hiff
      obtain ⟨hlen, hcount⟩ := normalizeConversation_spec str hconv
      obtain ⟨hrest, hout⟩ := ih (Dict.set p.1 c acc.1, report₁)
      refine ⟨⟨fun h => ⟨hiff.mp rfl, hrest.mp h⟩, fun h => hrest.mpr h.2⟩, ?_⟩
      intro out report h
      -- the rest goes on from the output and the report of this one
      obtain ⟨results, hresults, rfl, hsum⟩ := hout out report h
      refine ⟨(p.1, c) :: results, ?_, rfl, ?_⟩
      · rw [List.map_cons, List.map_cons, hresults, hlen]
      · simp only [List.map_cons, List.sum_cons]
        dsimp only at hsum
        omega

/-- **The walks end, and nothing is dropped silently iff every branch can be read and what is
counted twice makes up for what is not counted**: the nodes missed, and the messages of the
conversations whose id comes again. -/
theorem accounted_iff (data : Export F) :
    (∀ (m : Mapping F) start fuel, m.items.length < fuel →
        (Walk.walk (parentOf m) fuel [] (some start)).1 = walkKeys m start) ∧
      (Accounted str data ↔
        (∀ p ∈ iterOfficial str data, Readable str p.2) ∧
          ((iterOfficial str data).map fun p => doubled p.2).sum
            = ((iterOfficial str data).map fun p => missed p.2).sum + shadowed str data) := by
  refine ⟨fun m start _ hfuel => walk_ends m start hfuel, ?_⟩
  obtain ⟨hiff, hspec⟩ := normalizeLoop_spec str (iterOfficial str data) ([], noReport)
  have hdropped : dropped noReport = 0 := rfl
  -- what is kept and what is overwritten are all messages shown
  have hkept : ∀ out report, normalizeOfficial str data = some (out, report) →
      ((iterOfficial str data).map fun p => bearing p.2).sum +
          ((iterOfficial str data).map fun p => doubled p.2).sum
        = keptMessages out + shadowed str data + dropped report +
          ((iterOfficial str data).map fun p => missed p.2).sum := by
    intro out report h
    obtain ⟨results, hresults, rfl, hsum⟩ := hspec out report h
    have hleft : (Dict.overwritten Prod.fst results).map (fun r => (r.1, r.2.messages.length))
        = Dict.overwritten Prod.fst (results.map fun r => (r.1, r.2.messages.length)) := by
      apply Dict.map_overwritten
      intro r
      rfl
    have hright : (Dict.overwritten Prod.fst (iterOfficial str data)).map
          (fun p => (p.1, shown str p.2))
        = Dict.overwritten Prod.fst ((iterOfficial str data).map fun p => (p.1, shown str p.2)) := by
      apply Dict.map_overwritten
      intro p
      rfl
    have hshadowed : ((Dict.overwritten Prod.fst results).map fun r => r.2.messages.length).sum
        = shadowed str data := by
      have hsnd := congrArg (fun l => (l.map Prod.snd).sum) (hleft.trans (hresults ▸ hright.symm))
      rw [List.map_map, List.map_map] at hsnd
      exact hsnd
    have hshown : (results.map fun r => r.2.messages.length).sum
        = ((iterOfficial str data).map fun p => shown str p.2).sum := by
      have hsnd := congrArg (fun l => (l.map Prod.snd).sum) hresults
      rw [List.map_map, List.map_map] at hsnd
      exact hsnd
    have hperm := ((Dict.perm_latest Prod.fst results).map
      fun r => r.2.messages.length).sum_eq
    rw [List.map_append, List.sum_append, hshadowed, hshown, List.map_map] at hperm
    rw [Dict.foldl_set_eq_latest, keptMessages, List.map_map]
    dsimp only [Function.comp_def] at hperm hsum ⊢
    omega
  constructor
  · rintro ⟨out, report, h, hsum⟩
    have heq := hkept out report h
    refine ⟨hiff.mp (by rw [← normalizeOfficial, h]; rfl), ?_⟩
    omega
  · rintro ⟨hreadable, hbalance⟩
    obtain ⟨⟨out, report⟩, h⟩ := Option.isSome_iff_exists.mp (hiff.mpr hreadable)
    have heq := hkept out report h
    refine ⟨out, report, h, ?_⟩
    omega

/-- A node with a message of the user. -/
def userNode (id : PyStr) : Items FloatLit :=
  strItems [(py "id", .str id), (py "message", .dict (strItems
    [(py "author", .dict (strItems [(py "role", .str (py "user"))])),
      (py "content", .dict (strItems [(py "parts", .list [.str (py "hello")])]))]))]

/-- A conversation of one such node. -/
def oneNode (key id : PyStr) : OfficialConversation FloatLit where
  mapping := ⟨[(key, userNode id)], List.nodup_singleton _⟩
  fields := strItems [(py "id", .str (py "c")), (py "current_node", .str key)]

/-- **Two exports that are not accounted for**: a node that carries another id than its key is
kept and counted as dropped; and of two conversations with one id, one is in the output. -/
theorem not_accounted :
    (((iterOfficial (fun _ => []) (.list [some (oneNode (py "a") (py "x"))])).map fun p =>
          bearing p.2).sum = 1 ∧
        (normalizeOfficial (fun _ => []) (.list [some (oneNode (py "a") (py "x"))])).map
          (fun r => (keptMessages r.1, dropped r.2)) = some (1, 1)) ∧
      ((iterOfficial (fun _ => []) (.list [some (oneNode (py "a") (py "a")),
          some (oneNode (py "a") (py "a"))])).map fun p => bearing p.2).sum = 2 ∧
        (normalizeOfficial (fun _ => []) (.list [some (oneNode (py "a") (py "a")),
          some (oneNode (py "a") (py "a"))])).map
          (fun r => (keptMessages r.1, dropped r.2)) = some (1, 0) := by
  refine ⟨⟨?_, ?_⟩, ?_, ?_⟩
  · decide +kernel
  · decide +kernel
  · decide +kernel
  · decide +kernel

end Normalize

end Daryl
