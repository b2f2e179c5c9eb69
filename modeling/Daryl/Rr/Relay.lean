import Daryl.Dsm.Disk
import Daryl.Dsm.History
import Mathlib.Algebra.Order.BigOperators.Group.List

/-!
# `rr.relay`: the read relay

The relay reads the newest entries of a shard, and shows for an entry whose content is
a block, that is the JSON of a dict with a true `"block"` and with `"entries"`, the
entries of the block in its place.  It knows a block by its content alone, in every
shard; a block whose entries cannot be gone over stays as it is, and one of whose
entries is no dict is an `AttributeError`, which the relay does not catch.

## Main definitions

* `blockEntries` — what stands under `"entries"` in a block.
* `expandEntry`, `expandEntries` — `_expand_entries`.
* `readRecent` — `DSMReadRelay.read_recent`.
* `scanEntries`, `iterEntries` — `_iter_entries` of the search, which passes over a shard
  that raises.
* `Unexpanded` — a content the relay shows as it is.

## Main results

* `readRecent_appends_iff` — **the relay shows the newest entries of a shard iff no
  content of theirs is expanded.**
-/

namespace Daryl

open Py Json

variable {F : Type} [PyFloat F]

/-! ### Blocks -/

/-- The entries of a content that is a block.  A content that is no string does not load. -/
def blockEntries : PyVal F → Option (PyVal F)
  | .str text =>
    if text = [] then none
    else
      match loads text with
      | some (.dict data) =>
        if (getNone (py "block") data).truthy then dictGet (py "entries") data else none
      | _ => none
  | _ => none

/-- `_dict_to_entry`.  What is no dict has no `get`. -/
def dictToEntry (now : Datetime) : PyVal F → Except PyError (Entry F)
  | .dict data => .ok {
      id := (dictGet (py "id") data).getD (.str [])
      timestamp :=
        match dictGet (py "timestamp") data with
        | some (.str text) => (fromisoformat text).getD now
        | _ => now
      sessionId := (dictGet (py "session_id") data).getD (.str [])
      source := (dictGet (py "source") data).getD (.str [])
      content := (dictGet (py "content") data).getD (.str [])
      shard := (dictGet (py "shard") data).getD (.str (py "default"))
      hash := (dictGet (py "hash") data).getD (.str [])
      prevHash := getNone (py "prev_hash") data
      metadata := (dictGet (py "metadata") data).getD (.dict [])
      version := (dictGet (py "version") data).getD (.str (py "v2.0")) }
  | _ => .error .attributeError

/-- The entries of the dicts, one after the other. -/
def dictsToEntries (now : Datetime) : List (PyVal F) → Except PyError (List (Entry F))
  | [] => .ok []
  | d :: ds => (dictToEntry now d).bind fun e => (dictsToEntries now ds).map (e :: ·)

/-- One round of `_expand_entries`. -/
def expandEntry (now : Datetime) (entry : Entry F) : Except PyError (List (Entry F)) :=
  match blockEntries entry.content with
  | none => .ok [entry]
  | some entries =>
    match iterate entries with
    | .error _ => .ok [entry]
    | .ok ds => dictsToEntries now ds

/-- `_expand_entries`. -/
def expandEntries (now : Datetime) : List (Entry F) → Except PyError (List (Entry F))
  | [] => .ok []
  | e :: es => (expandEntry now e).bind fun xs => (expandEntries now es).map (xs ++ ·)

/-! ### Reading -/

/-- `DSMReadRelay.read_recent`. -/
def readRecent (now : Datetime) (d : Disk F) (shardId : PyStr) (limit : ℕ) :
    Except PyError (List (Entry F)) :=
  (d.read shardId 0 limit).bind fun raw => (expandEntries now raw).map (List.take limit)

/-- The entries that `_iter_entries` yields, each with the shard it is read from, which
the code does not keep.  A shard whose reading raises is passed over. -/
def scanEntries (now : Datetime) (d : Disk F) (shardIds : List PyStr) (limitPerShard : ℕ) :
    List (PyStr × Entry F) :=
  shardIds.flatMap fun shardId =>
    match readRecent now d shardId limitPerShard with
    | .ok entries => entries.map fun e => (shardId, e)
    | .error _ => []

/-- `_iter_entries`. -/
def iterEntries (now : Datetime) (d : Disk F) (shardIds : List PyStr) (limitPerShard : ℕ) :
    List (Entry F) := (scanEntries now d shardIds limitPerShard).map Prod.snd

/-! ### What is expanded -/

/-- A value is a dict. -/
def isDict : PyVal F → Bool
  | .dict _ => true
  | _ => false

/-- **The relay shows an entry with the content as it is**: the content is no block, or
its entries cannot be gone over.  With a limit of `0` nothing is shown of the one entry
that is read, and its block may be expanded, when it holds dicts alone. -/
def Unexpanded (limit : ℕ) (content : PyVal F) : Prop :=
  match (blockEntries content).map iterate with
  | some (.ok ds) => limit = 0 ∧ ds.all isDict
  | _ => True

instance (limit : ℕ) (content : PyVal F) : Decidable (Unexpanded limit content) := by
  unfold Unexpanded
  split <;> infer_instance

/-- The length of a text. -/
def textLength : PyVal F → ℕ
  | .str text => text.length
  | _ => 0

/-- A dict that holds short strings holds a short string under every key. -/
theorem textLength_dictGet {n : ℕ} (hn : 0 < n) {data : List (Key F × PyVal F)}
    (h : eachStrItems (fun t => t.length < n) data) (k : PyStr) :
    textLength ((dictGet k data).getD (.str [])) < n := by
  cases hget : dictGet k data with
  | none => exact hn
  | some v =>
    have hv := (eachStrItems_iff.mp h _ (mem_of_dictGet hget)).2
    rw [Option.getD_some]
    cases v with
    | str text => exact hv
    | _ => exact hn

/-- A block is a text, and its entries hold strings that are shorter. -/
theorem blockEntries_eq_some {content entries : PyVal F} (h : blockEntries content = some entries) :
    0 < textLength content ∧ eachStr (fun t => t.length < textLength content) entries := by
  cases content with
  | str text =>
    rw [blockEntries] at h
    by_cases hnil : text = []
    · simp [hnil] at h
    · rw [if_neg hnil] at h
      split at h
      · next data hdata =>
        split_ifs at h with hblock
        refine ⟨List.length_pos_of_ne_nil hnil, ?_⟩
        have hshort := shorter_of_loads hdata
        exact (eachStrItems_iff.mp hshort _ (mem_of_dictGet h)).2
      · cases h
  | _ => simp [blockEntries] at h

/-- The dicts gone over hold short strings if the value does. -/
theorem eachStr_iterate {P : PyStr → Prop} {v : PyVal F} {ds : List (PyVal F)}
    (h : iterate v = .ok ds) (hv : eachStr P v) :
    ∀ data, .dict data ∈ ds → eachStrItems P data := by
  intro data hdata
  cases v with
  | list vs =>
    cases h
    exact eachStrList_iff.mp hv _ hdata
  | tuple vs =>
    cases h
    exact eachStrList_iff.mp hv _ hdata
  | dict kvs =>
    cases h
    obtain ⟨⟨k, v⟩, -, hk⟩ := List.mem_map.mp hdata
    cases k <;> cases hk
  | str s =>
    cases h
    obtain ⟨c, -, hc⟩ := List.mem_map.mp hdata
    cases hc
  | _ => cases h

omit [PyFloat F] in
/-- An entry of dicts is made of one of them. -/
theorem mem_dictsToEntries {now : Datetime} {ds : List (PyVal F)} {es : List (Entry F)} {e : Entry F}
    (h : dictsToEntries now ds = .ok es) (he : e ∈ es) :
    ∃ data, .dict data ∈ ds ∧ dictToEntry now (.dict data) = .ok e := by
  induction ds generalizing es with
  | nil =>
    cases h
    exact absurd he List.not_mem_nil
  | cons d ds ih =>
    rw [dictsToEntries] at h
    cases hd : dictToEntry now d with
    | error err =>
      rw [hd] at h
      cases h
    | ok e' =>
      rw [hd, Except.bind] at h
      cases hds : dictsToEntries now ds with
      | error err =>
        rw [hds] at h
        cases h
      | ok es' =>
        rw [hds] at h
        cases h
        rcases List.mem_cons.mp he with rfl | he
        · cases d with
          | dict data => exact ⟨data, List.mem_cons_self, hd⟩
          | _ => cases hd
        · obtain ⟨data, hdata, hmk⟩ := ih hds he
          exact ⟨data, List.mem_cons_of_mem _ hdata, hmk⟩

omit [PyFloat F] in
/-- Dicts are made entries, and nothing else is. -/
theorem dictsToEntries_ok_iff (now : Datetime) (ds : List (PyVal F)) :
    (∃ es, dictsToEntries now ds = .ok es) ↔ ds.all isDict := by
  induction ds with
  | nil => exact ⟨fun _ => rfl, fun _ => ⟨[], rfl⟩⟩
  | cons d ds ih =>
    rw [dictsToEntries, List.all_cons, Bool.and_eq_true, ← ih]
    cases d with
    | dict data =>
      constructor
      · rintro ⟨es, hes⟩
        refine ⟨rfl, ?_⟩
        cases hds : dictsToEntries now ds with
        | error err =>
          rw [hds] at hes
          cases hes
        | ok es' => exact ⟨es', rfl⟩
      · rintro ⟨-, es, hes⟩
        rw [hes]
        exact ⟨_, rfl⟩
    | _ =>
      constructor
      · rintro ⟨_, h⟩
        cases h
      · rintro ⟨h, _⟩
        cases h

/-- **What stands in a block is shorter than the block.** -/
theorem textLength_expandEntry {now : Datetime} {entry e : Entry F} {es : List (Entry F)}
    (h : expandEntry now entry = .ok es) (he : e ∈ es) :
    e = entry ∧ Unexpanded 1 entry.content ∨ textLength e.content < textLength entry.content := by
  unfold expandEntry at h
  unfold Unexpanded
  cases hblock : blockEntries entry.content with
  | none =>
    rw [hblock] at h
    cases h
    exact Or.inl ⟨List.mem_singleton.mp he, trivial⟩
  | some entries =>
    rw [hblock] at h
    obtain ⟨hpos, hshort⟩ := blockEntries_eq_some hblock
    dsimp only at h
    cases hds : iterate entries with
    | error err =>
      rw [hds] at h
      cases h
      refine Or.inl ⟨List.mem_singleton.mp he, ?_⟩
      rw [Option.map_some, hds]
      trivial
    | ok ds =>
      rw [hds] at h
      obtain ⟨data, hdata, hmk⟩ := mem_dictsToEntries h he
      cases hmk
      exact Or.inr (textLength_dictGet hpos (eachStr_iterate hds hshort data hdata) _)

/-- An entry is shown as it is iff its content is not expanded. -/
theorem expandEntry_self {now : Datetime} {entry : Entry F} (h : Unexpanded 1 entry.content) :
    expandEntry now entry = .ok [entry] := by
  unfold Unexpanded at h
  unfold expandEntry
  cases hblock : blockEntries entry.content with
  | none => rfl
  | some entries =>
    rw [hblock, Option.map_some] at h
    dsimp only at h ⊢
    cases hds : iterate entries with
    | error err => rfl
    | ok ds =>
      rw [hds] at h
      exact absurd h.1 one_ne_zero

/-- With a limit of `0` an expansion is asked only not to raise. -/
theorem expandEntry_ok_iff (now : Datetime) (entry : Entry F) :
    (∃ es, expandEntry now entry = .ok es) ↔ Unexpanded 0 entry.content := by
  unfold expandEntry Unexpanded
  cases hblock : blockEntries entry.content with
  | none => exact iff_of_true ⟨_, rfl⟩ trivial
  | some entries =>
    rw [Option.map_some]
    dsimp only
    cases hds : iterate entries with
    | error err => exact iff_of_true ⟨_, rfl⟩ trivial
    | ok ds =>
      dsimp only
      rw [dictsToEntries_ok_iff]
      exact ⟨fun h => ⟨rfl, h⟩, fun h => h.2⟩

/-- What is expanded comes of one of the entries. -/
theorem mem_expandEntries {now : Datetime} {raw es : List (Entry F)} {e : Entry F}
    (h : expandEntries now raw = .ok es) (he : e ∈ es) :
    ∃ entry ∈ raw, ∃ xs, expandEntry now entry = .ok xs ∧ e ∈ xs := by
  induction raw generalizing es with
  | nil =>
    cases h
    exact absurd he List.not_mem_nil
  | cons entry raw ih =>
    rw [expandEntries] at h
    cases hx : expandEntry now entry with
    | error err =>
      rw [hx] at h
      cases h
    | ok xs =>
      rw [hx, Except.bind] at h
      cases hr : expandEntries now raw with
      | error err =>
        rw [hr] at h
        cases h
      | ok rest =>
        rw [hr] at h
        cases h
        rcases List.mem_append.mp he with he | he
        · exact ⟨entry, List.mem_cons_self, xs, hx, he⟩
        · obtain ⟨entry', hentry', xs', hxs', he'⟩ := ih hr he
          exact ⟨entry', List.mem_cons_of_mem _ hentry', xs', hxs', he'⟩

/-- Entries that are not expanded are shown as they are. -/
theorem expandEntries_self {now : Datetime} {raw : List (Entry F)}
    (h : ∀ e ∈ raw, Unexpanded 1 e.content) : expandEntries now raw = .ok raw := by
  induction raw with
  | nil => rfl
  | cons e raw ih =>
    rw [expandEntries, expandEntry_self (h e List.mem_cons_self),
      ih fun x hx => h x (List.mem_cons_of_mem _ hx)]
    rfl

/-- **If the entries are shown, none of them is expanded**: an expanded one would come of
a longer one, which is expanded in its turn. -/
theorem unexpanded_of_expandEntries {now : Datetime} {raw es : List (Entry F)}
    (h : expandEntries now raw = .ok es) (hall : ∀ e ∈ raw, e ∈ es) :
    ∀ e ∈ raw, Unexpanded 1 e.content := by
  have hlonger : ∀ e ∈ raw, ¬Unexpanded 1 e.content →
      ∃ e' ∈ raw, ¬Unexpanded 1 e'.content ∧ textLength e.content < textLength e'.content := by
    intro e he hexp
    obtain ⟨entry, hentry, xs, hxs, hex⟩ := mem_expandEntries h (hall e he)
    rcases textLength_expandEntry hxs hex with ⟨rfl, hun⟩ | hlt
    · exact absurd hun hexp
    · refine ⟨entry, hentry, ?_, hlt⟩
      intro hun
      rw [expandEntry_self hun] at hxs
      cases hxs
      rw [List.mem_singleton.mp hex] at hlt
      exact absurd hlt (lt_irrefl _)
  intro e he
  by_contra hexp
  have hany : ∀ n : ℕ, ∃ x ∈ raw, ¬Unexpanded 1 x.content ∧ n ≤ textLength x.content := by
    intro n
    induction n with
    | zero => exact ⟨e, he, hexp, Nat.zero_le _⟩
    | succ n ih =>
      obtain ⟨x, hx, hxexp, hn⟩ := ih
      obtain ⟨y, hy, hyexp, hlt⟩ := hlonger x hx hxexp
      exact ⟨y, hy, hyexp, by omega⟩
  obtain ⟨x, hx, -, hlong⟩ := hany ((raw.map fun e => textLength e.content).sum + 1)
  have hle : textLength x.content ≤ (raw.map fun e => textLength e.content).sum :=
    List.le_sum_of_mem (List.mem_map_of_mem hx)
  omega

/-- **The relay shows what it reads iff no content is expanded.** -/
theorem readRecent_iff (now : Datetime) {d : Disk F} {shardId : PyStr} {limit : ℕ}
    {newest : List (Entry F)}
    (hread : d.read shardId 0 limit = .ok (newest.take (max limit 1))) :
    readRecent now d shardId limit = .ok (newest.take limit) ↔
      ∀ e ∈ newest.take (max limit 1), Unexpanded limit e.content := by
  rw [readRecent, hread]
  change (expandEntries now (newest.take (max limit 1))).map (List.take limit) = _ ↔ _
  cases limit with
  | zero =>
    cases newest with
    | nil => exact iff_of_true rfl (by simp)
    | cons e newest =>
      -- limit 0: one entry is read and expanded, and none is shown
      have hone : (e :: newest).take (max 0 1) = [e] := rfl
      rw [hone, expandEntries, List.forall_mem_singleton, ← expandEntry_ok_iff now]
      cases hx : expandEntry now e with
      | error err =>
        constructor
        · intro h
          cases h
        · rintro ⟨es, hes⟩
          cases hes
      | ok xs => exact iff_of_true rfl ⟨xs, rfl⟩
  | succ n =>
    -- any other limit is the number that is read
    have hmax : max (n + 1) 1 = n + 1 := by omega
    have hcond : ∀ content : PyVal F, Unexpanded (n + 1) content ↔ Unexpanded 1 content := by
      intro content
      unfold Unexpanded
      split
      · exact iff_of_false (fun h => absurd h.1 (Nat.succ_ne_zero n))
          fun h => absurd h.1 one_ne_zero
      · exact Iff.rfl
    simp only [hcond, hmax]
    constructor
    · intro h
      cases hx : expandEntries now (newest.take (n + 1)) with
      | error err =>
        rw [hx] at h
        cases h
      | ok es =>
        rw [hx] at h
        apply unexpanded_of_expandEntries hx
        intro e he
        rw [← Except.ok.inj h] at he
        exact List.mem_of_mem_take he
    · intro h
      rw [expandEntries_self h]
      exact congrArg Except.ok (List.take_of_length_le (List.length_take_le _ _))

/-- A content read back is the block it was. -/
theorem blockEntries_readBack (content : PyVal F) :
    blockEntries (Py.readBack content) = blockEntries content := by
  cases content with
  | list vs =>
    rw [Py.readBack, canon, sortDicts]
    cases sortDictsList vs <;> rfl
  | tuple vs =>
    rw [Py.readBack, canon, sortDicts]
    cases sortDictsList vs <;> rfl
  | dict kvs =>
    rw [Py.readBack, canon]
    cases hw : sortDicts (.dict kvs) with
    | none => rfl
    | some w =>
      obtain ⟨lws, rfl⟩ := exists_dict_of_sortDicts hw
      rfl
  | _ => rfl

/-- A data directory with one shard. -/
def shardDisk (shardId : PyStr) (s : Shard F) : Disk F :=
  ⟨[(familyName shardId, s.family)], [], [(shardId, s.pin)]⟩

/-- The data directory after a run of appends to one shard, and the entries they
returned, newest first. -/
def relayed (cfg : Config) (shardId : PyStr) (is : List (Datetime × Entry F)) :
    Disk F × List (Entry F) :=
  let log := appends cfg shardId (familyName shardId) is
  (shardDisk shardId log.shard, log.returned.reverse)

/-- The newest entries of the shard, as they are read back. -/
def newest (cfg : Config) (shardId : PyStr) (is : List (Datetime × Entry F)) (limit : ℕ) :
    List (Entry F) := ((relayed cfg shardId is).2.take limit).map (Entry.readBack shardId)

/-- The storage reads the newest entries, and at least one. -/
theorem read_relayed (cfg : Config) (shardId : PyStr) (is : List (Datetime × Entry F)) (limit : ℕ) :
    (relayed cfg shardId is).1.read shardId 0 limit
      = .ok (((relayed cfg shardId is).2.map (Entry.readBack shardId)).take (max limit 1)) := by
  obtain ⟨⟨⟨segs, hhist, hclean⟩, -⟩, -⟩ := intact_appends cfg shardId (familyName shardId) is
  have hevents := entries_recorded (exists_recorded hhist.lines)
  rw [← filterMap_recorded hhist.lines, linesOf, ← filterMap_texts (quiet_of_clean hclean)]
    at hevents
  have hfam : Dict.get (familyName shardId) (relayed cfg shardId is).1.families
      = some (appends cfg shardId (familyName shardId) is).shard.family := if_pos rfl
  rw [Disk.read, hfam]
  dsimp only
  rw [readSegmented_take hhist.laid hevents limit, ← List.map_reverse]
  rfl

/-- **The relay shows exactly the newest entries of a shard, and the search sees them,
iff none of their contents is expanded.** -/
theorem readRecent_appends_iff (cfg : Config) (shardId : PyStr) (is : List (Datetime × Entry F))
    (now : Datetime) (limit : ℕ) :
    (readRecent now (relayed cfg shardId is).1 shardId limit = .ok (newest cfg shardId is limit) ∧
      iterEntries now (relayed cfg shardId is).1 [shardId] limit = newest cfg shardId is limit) ↔
      ∀ e ∈ (relayed cfg shardId is).2.take (max limit 1), Unexpanded limit e.content := by
  have hback : ∀ e : Entry F, Unexpanded limit (e.readBack shardId).content ↔
      Unexpanded limit e.content := by
    intro e
    unfold Unexpanded
    rw [show (e.readBack shardId).content = Py.readBack e.content from rfl, blockEntries_readBack]
  have hiff := readRecent_iff now (read_relayed cfg shardId is limit)
  rw [← List.map_take, ← List.map_take, List.forall_mem_map] at hiff
  simp only [hback] at hiff
  rw [← hiff]
  constructor
  · exact And.left
  · intro h
    refine ⟨h, ?_⟩
    rw [iterEntries, scanEntries, List.flatMap_singleton, h]
    dsimp only
    rw [List.map_map]
    exact List.map_id _

/-- The relay on a shard of one entry with the content. -/
def relayOf (content : PyStr) : ℕ × Except PyError (List (Entry FloatLit)) × List (Entry FloatLit) :=
  let r := relayed sampleConfig (py "default") [(sampleTime, sampleEntry content (.dict []))]
  (r.2.length, readRecent sampleTime r.1 (py "default") 10,
    iterEntries sampleTime r.1 [py "default"] 10)

/-- A block with an entry that was never appended. -/
def forgingContent : PyStr := py "\x7b\"block\": 1, \"entries\": [\x7b\"id\": \"forged\"\x7d]\x7d"

/-- A block with an entry that is no dict. -/
def raisingContent : PyStr := py "\x7b\"block\": 1, \"entries\": [1]\x7d"

/-- **A content is shown as an entry nobody appended, and another one makes the relay
raise and the search skip the shard.** -/
theorem relay_forges_and_raises :
    ((relayOf forgingContent).1 = 1 ∧
      (relayOf forgingContent).2.1.map (List.map Entry.id) = .ok [.str (py "forged")]) ∧
    (relayOf raisingContent).1 = 1 ∧ (relayOf raisingContent).2.1 = .error .attributeError ∧
      (relayOf raisingContent).2.2 = [] := by
  decide +kernel

end Daryl
