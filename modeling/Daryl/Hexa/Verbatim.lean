import Daryl.Hexa.Authority

/-!
# Verbatim sources

What a store returns as the text of a source is what was added, as long as no source with
a carriage return is read back from its file: a text is written as it is and read in text
mode, where `\r` and `\r\n` are newlines.  The ids of a plain prefix are fresh; under
another prefix the second addition takes the place of the first.

## Main definitions

* `SourceCall`, `Ledger` — the calls of a store, and what was added by them.
* `Ledger.Verbatim` — every source has the text it was added with.
* `Ledger.Legible` — the condition on a call.

## Main results

* `Kept` — the invariant: the texts in memory and on disk are those that were added.
* `sources_verbatim` — **legible calls keep every source verbatim.**
-/

namespace Daryl

open Py Json

variable {F : Type}

/-- The calls of a source store, and its opening again. -/
inductive SourceCall (F : Type)
  | add (new : NewSource F)
  | setStatus (sourceId : PyStr) (status : SourceStatus)
  | supersede (oldId newId : PyStr)
  | get (sourceId : PyStr)
  | reopen

/-- A store, and the texts that were added to it under the ids they got. -/
structure Ledger (F : Type) where
  store : SourceStore F
  added : List (PyStr × PyStr)

namespace Ledger

/-- A call; an addition that succeeds is noted. -/
def step [PyFloat F] (l : Ledger F) : SourceCall F → Ledger F
  | .add new =>
    match l.store.add new with
    | (.ok src, s) => ⟨s, l.added ++ [(src.sourceId, new.content)]⟩
    | (.error _, s) => ⟨s, l.added⟩
  | .setStatus sourceId status => ⟨(l.store.setStatus sourceId status).2, l.added⟩
  | .supersede oldId newId => ⟨(l.store.supersede oldId newId).2, l.added⟩
  | .get sourceId => ⟨(l.store.get sourceId).2, l.added⟩
  | .reopen => ⟨l.store.reopen, l.added⟩

/-- Every source that was added has an id of its own, and the text it was added with. -/
def Verbatim (l : Ledger F) : Prop :=
  (Dict.keys l.added).Nodup ∧
    ∀ id text, (id, text) ∈ l.added → ∃ src, (l.store.get id).1 = .ok src ∧ src.content = text

/-- The ids of an addition read back, or it is the first one; and no text with a carriage
return is there when the store is opened again. -/
def Legible (l : Ledger F) : SourceCall F → Prop
  | .add _ => PlainPrefix l.store.projectPrefix ∨ l.store.records = []
  | .reopen => ∀ p ∈ l.added, cr ∉ p.2
  | _ => True

end Ledger

namespace SourceStore

/-- The invariant: the records and their files are those that were added, and so are the
texts in the files; a text that is not in memory reads back as it was written. -/
structure Kept (added : List (PyStr × PyStr)) (s : SourceStore F) : Prop where
  distinct : (Dict.keys added).Nodup
  known : ∀ id, (s.find id).isSome ↔ id ∈ Dict.keys added
  filed : ∀ id, (Dict.get id s.recordFiles).isSome ↔ id ∈ Dict.keys added
  filesDistinct : (Dict.keys s.recordFiles).Nodup
  filesNamed : ∀ id src, Dict.get id s.recordFiles = some src → src.sourceId = id
  written : ∀ id text, (id, text) ∈ added →
    Encodable text ∧ Dict.get id s.contentFiles = some (utf8Bytes text)
  named : ∀ id src, s.find id = some src → src.sourceId = id
  held : ∀ id text src, (id, text) ∈ added → s.find id = some src →
    src.content = text ∨ src.content = [] ∧ cr ∉ text

variable {added : List (PyStr × PyStr)} {s : SourceStore F} {id text : PyStr}

/-- The text of a source that was added. -/
theorem Kept.load (h : s.Kept added) (hid : (id, text) ∈ added) {src : Source F}
    (hsrc : s.find id = some src) : s.load src = .ok { src with content := text } := by
  obtain ⟨hutf, hfile⟩ := h.written id text hid
  have hname := h.named id src hsrc
  unfold SourceStore.load
  split_ifs with hnil
  · -- what is not in memory is read from the file
    have hcr : cr ∉ text := by
      rcases h.held id text src hid hsrc with htext | ⟨-, hcr⟩
      · rw [← htext, hnil]
        exact List.not_mem_nil
      · exact hcr
    simp only [hname, hfile, decodeUtf8_utf8Bytes hutf, universalNewlines_eq_self hcr]
  · rcases h.held id text src hid hsrc with htext | ⟨hnil', -⟩
    · rw [← htext]
    · exact absurd hnil' hnil

/-- **A source that was added is found with its text.** -/
theorem Kept.get (h : s.Kept added) (hid : (id, text) ∈ added) :
    ∃ src, s.get id = (.ok src, s.setRecord id src) ∧ src.sourceId = id ∧ src.content = text := by
  obtain ⟨src, hsrc⟩ := Option.isSome_iff_exists.mp
    ((h.known id).mpr (List.mem_map_of_mem (f := Prod.fst) hid))
  refine ⟨{ src with content := text }, ?_, h.named id src hsrc, rfl⟩
  simp only [SourceStore.get, hsrc, h.load hid hsrc]

/-- Another id is not found. -/
theorem Kept.get_of_notMem (h : s.Kept added) (hid : id ∉ Dict.keys added) :
    s.get id = (.error .keyError, s) := by
  have hnone : s.find id = none := by
    rw [← Option.not_isSome_iff_eq_none, h.known]
    exact hid
  simp only [SourceStore.get, hnone]

/-! ### What keeps the texts -/

/-- A record with the text of its id may be put in. -/
theorem Kept.setRecord (h : s.Kept added) {src : Source F} (hid : (src.sourceId, src.content) ∈ added) :
    (s.setRecord src.sourceId src).Kept added := by
  have hfind := find_setRecord s src.sourceId src
  have hmem : src.sourceId ∈ Dict.keys added := List.mem_map_of_mem (f := Prod.fst) hid
  refine { h with known := ?_, named := ?_, held := ?_ }
  · intro k
    rw [hfind]
    by_cases hk : k = src.sourceId
    · rw [hk, Function.update_self]
      exact iff_of_true rfl hmem
    · rw [Function.update_of_ne hk]
      exact h.known k
  · intro k r hr
    rw [hfind] at hr
    by_cases hk : k = src.sourceId
    · rw [hk, Function.update_self] at hr
      rw [← Option.some.inj hr, hk]
    · rw [Function.update_of_ne hk] at hr
      exact h.named k r hr
  · intro k t r ht hr
    rw [hfind] at hr
    by_cases hk : k = src.sourceId
    · rw [hk, Function.update_self] at hr
      rw [hk] at ht
      -- an id was added with one text
      have htext := (Dict.get_of_mem h.distinct ht).symm.trans (Dict.get_of_mem h.distinct hid)
      exact .inl (by rw [← Option.some.inj hr, Option.some.inj htext])
    · rw [Function.update_of_ne hk] at hr
      exact h.held k t r ht hr

/-- Writing the text of an id again changes nothing. -/
theorem Kept.setContent (h : s.Kept added) (hid : (id, text) ∈ added) :
    ({ s with contentFiles := Dict.set id (utf8Bytes text) s.contentFiles } : SourceStore F).Kept
      added := by
  refine { h with written := ?_ }
  intro k t ht
  refine ⟨(h.written k t ht).1, ?_⟩
  rw [Dict.get_set]
  split_ifs with hk
  · subst hk
    have htext := (Dict.get_of_mem h.distinct ht).symm.trans (Dict.get_of_mem h.distinct hid)
    rw [Option.some.inj htext]
  · exact (h.written k t ht).2

/-- Filing a record of a known id keeps the invariant. -/
theorem Kept.setFile (h : s.Kept added) {src : Source F} (hid : src.sourceId ∈ Dict.keys added) :
    ({ s with recordFiles := Dict.set src.sourceId src s.recordFiles } : SourceStore F).Kept added := by
  refine { h with filed := ?_, filesDistinct := Dict.nodup_keys_set h.filesDistinct, filesNamed := ?_ }
  · intro k
    rw [Dict.get_set]
    split_ifs with hk
    · exact iff_of_true rfl (hk ▸ hid)
    · exact h.filed k
  · intro k r hr
    rw [Dict.get_set] at hr
    split_ifs at hr with hk
    · rw [← Option.some.inj hr, hk]
    · exact h.filesNamed k r hr

variable [PyFloat F]

/-- **Persisting a source with its text keeps the invariant.** -/
theorem Kept.persist (h : s.Kept added) {src : Source F} (hid : (src.sourceId, src.content) ∈ added) :
    (s.persist src).2.Kept added := by
  have hutf := (h.written _ _ hid).1
  have hmem : src.sourceId ∈ Dict.keys added := List.mem_map_of_mem (f := Prod.fst) hid
  rcases persist_cases s src with ⟨hnone, -⟩ | ⟨bytes, hbytes, ⟨e, heq⟩ | heq⟩
  · rw [encodeUtf8_of_encodable hutf] at hnone
    cases hnone
  · rw [encodeUtf8_of_encodable hutf, Option.some.injEq] at hbytes
    rw [heq, ← hbytes]
    exact h.setContent hid
  · rw [encodeUtf8_of_encodable hutf, Option.some.injEq] at hbytes
    rw [heq, ← hbytes]
    exact (h.setContent hid).setFile hmem

omit [PyFloat F] in
/-- A reading keeps the invariant. -/
theorem Kept.after_get (h : s.Kept added) (id : PyStr) : (s.get id).2.Kept added := by
  by_cases hid : id ∈ Dict.keys added
  · obtain ⟨⟨k, text⟩, hmem, rfl⟩ := List.mem_map.mp hid
    obtain ⟨src, hget, hname, htext⟩ := h.get hmem
    rw [hget]
    dsimp only at hname ⊢
    rw [← hname]
    exact h.setRecord (by rwa [hname, htext])
  · rw [h.get_of_notMem hid]
    exact h

/-- A status keeps the invariant. -/
theorem Kept.setStatus (h : s.Kept added) (id : PyStr) (status : SourceStatus) :
    (s.setStatus id status).2.Kept added := by
  by_cases hid : id ∈ Dict.keys added
  · obtain ⟨⟨k, text⟩, hmem, rfl⟩ := List.mem_map.mp hid
    obtain ⟨src, hget, rfl, rfl⟩ := h.get hmem
    simp only [SourceStore.setStatus, hget]
    set marked : Source F := { src with status := status } with hmarked
    have hmem' : (marked.sourceId, marked.content) ∈ added := hmem
    exact ((h.setRecord hmem).setRecord hmem').persist hmem'
  · simp only [SourceStore.setStatus, h.get_of_notMem hid]
    exact h

/-- A supersession keeps the invariant. -/
theorem Kept.supersede (h : s.Kept added) (oldId newId : PyStr) :
    (s.supersede oldId newId).2.Kept added := by
  unfold SourceStore.supersede
  by_cases hold : oldId ∈ Dict.keys added
  · obtain ⟨⟨k, text⟩, hmemOld, rfl⟩ := List.mem_map.mp hold
    obtain ⟨old, hgetOld, rfl, rfl⟩ := h.get hmemOld
    have h1 := h.setRecord hmemOld
    rw [hgetOld]
    simp only
    by_cases hnew : newId ∈ Dict.keys added
    · obtain ⟨⟨k, text⟩, hmemNew, rfl⟩ := List.mem_map.mp hnew
      obtain ⟨new, hgetNew, rfl, rfl⟩ := h1.get hmemNew
      have h2 := h1.setRecord hmemNew
      rw [hgetNew]
      simp only
      split_ifs
      · exact h2
      · exact h2
      · set superseded : Source F :=
          { old with status := .superseded, supersededBy := some new.sourceId } with hsuperseded
        set current : Source F := { new with
          status := .current, supersedes := some old.sourceId, supersededBy := none
          version := old.version + 1 } with hcurrent
        have hmemOld' : (superseded.sourceId, superseded.content) ∈ added := hmemOld
        have hmemNew' : (current.sourceId, current.content) ∈ added := hmemNew
        have h4 := ((h2.setRecord hmemOld').setRecord hmemNew').persist hmemOld'
        split
        · next heq =>
          rw [heq] at h4
          exact h4
        · next heq =>
          rw [heq] at h4
          exact Kept.persist h4 hmemNew'
    · rw [h1.get_of_notMem hnew]
      exact h1
  · rw [h.get_of_notMem hold]
    exact h

/-- Opening the store again keeps the invariant, if the texts read back as they were
written. -/
theorem Kept.reopen (h : s.Kept added) (hcr : ∀ p ∈ added, cr ∉ p.2) : s.reopen.Kept added := by
  have hrecords : s.reopen.records = s.recordFiles.map fun p => (p.1, reloaded p.2) := by
    refine List.map_congr_left fun p hp => ?_
    rw [h.filesNamed p.1 p.2 (Dict.get_of_mem h.filesDistinct hp)]
  have hfind : ∀ k, s.reopen.find k = (Dict.get k s.recordFiles).map reloaded := by
    intro k
    rw [find, hrecords, Dict.get_map fun _ src => reloaded src]
  refine { h with known := ?_, named := ?_, held := ?_ }
  · intro k
    rw [hfind, Option.isSome_map]
    exact h.filed k
  · intro k src hsrc
    rw [hfind] at hsrc
    obtain ⟨r, hr, rfl⟩ := Option.map_eq_some_iff.mp hsrc
    exact h.filesNamed k r hr
  · intro k text src htext hsrc
    rw [hfind] at hsrc
    obtain ⟨r, -, rfl⟩ := Option.map_eq_some_iff.mp hsrc
    exact .inr ⟨rfl, hcr _ htext⟩

/-- **An addition under a fresh id keeps the invariant**, with the new text if it succeeds. -/
theorem Kept.add (h : s.Kept added) (new : NewSource F) (hfresh : s.find s.nextId = none) :
    (∃ e t, s.add new = (.error e, t) ∧ t.Kept added) ∨
    ∃ src t, s.add new = (.ok src, t) ∧ t.Kept (added ++ [(src.sourceId, new.content)]) := by
  have hid : s.nextId ∉ Dict.keys added := by
    rw [← h.known, hfresh]
    simp
  -- a text filed under a fresh id is of no source yet
  have hfile : ∀ bytes, ({ s with
      contentFiles := Dict.set s.nextId bytes s.contentFiles } : SourceStore F).Kept added := by
    intro bytes
    refine { h with written := fun k t ht => ⟨(h.written k t ht).1, ?_⟩ }
    have hne : s.nextId ≠ k := fun hk => hid (hk ▸ List.mem_map_of_mem (f := Prod.fst) ht)
    rw [Dict.get_set_ne hne]
    exact (h.written k t ht).2
  unfold SourceStore.add
  simp only
  set src : Source F := ⟨s.nextId, new.sourceType, new.title, 1, new.status, none, none, new.tags,
    new.claimKey, new.claimValue, new.createdAt, new.metadata.orEmpty, new.content⟩ with hsrc
  rcases persist_cases s src with ⟨-, e, heq⟩ | ⟨bytes, hbytes, ⟨e, heq⟩ | heq⟩
  · rw [heq]
    exact .inl ⟨e, s, rfl, h⟩
  · rw [heq]
    exact .inl ⟨e, _, rfl, hfile bytes⟩
  · rw [heq]
    refine .inr ⟨src, _, rfl, ?_⟩
    obtain ⟨hutf, rfl⟩ := encodeUtf8_eq_some.mp hbytes
    have hkeys : ∀ k, k ∈ Dict.keys (added ++ [(s.nextId, new.content)]) ↔
        k = s.nextId ∨ k ∈ Dict.keys added := by
      intro k
      simp [Dict.keys, or_comm]
    refine ⟨?_, ?_, ?_, Dict.nodup_keys_set h.filesDistinct, ?_, ?_, ?_, ?_⟩
    · rw [Dict.keys, List.map_append]
      exact List.Nodup.append h.distinct (List.nodup_singleton _)
        (List.disjoint_singleton.mpr hid)
    · intro k
      rw [find_setRecord, hkeys]
      by_cases hk : k = s.nextId
      · rw [hk, Function.update_self]
        simp
      · rw [Function.update_of_ne hk]
        exact (h.known k).trans (or_iff_right hk).symm
    · intro k
      change (Dict.get k (Dict.set s.nextId src s.recordFiles)).isSome ↔ _
      rw [Dict.get_set, hkeys]
      split_ifs with hk
      · exact iff_of_true rfl (.inl hk.symm)
      · exact (h.filed k).trans (or_iff_right fun hk' => hk hk'.symm).symm
    · intro k r hr
      change Dict.get k (Dict.set s.nextId src s.recordFiles) = some r at hr
      rw [Dict.get_set] at hr
      split_ifs at hr with hk
      · rw [← Option.some.inj hr, ← hk]
      · exact h.filesNamed k r hr
    · intro k t ht
      rcases List.mem_append.mp ht with ht | ht
      · exact (hfile _).written k t ht
      · obtain ⟨rfl, rfl⟩ := Prod.mk.inj (List.mem_singleton.mp ht)
        exact ⟨hutf, Dict.get_set_self _ _ _⟩
    · intro k r hr
      rw [find_setRecord] at hr
      by_cases hk : k = s.nextId
      · rw [hk, Function.update_self] at hr
        rw [← Option.some.inj hr, hk]
      · rw [Function.update_of_ne hk] at hr
        exact h.named k r hr
    · intro k t r ht hr
      rw [find_setRecord] at hr
      rcases List.mem_append.mp ht with ht | ht
      · have hne : k ≠ s.nextId := fun hk => hid (hk ▸ List.mem_map_of_mem (f := Prod.fst) ht)
        rw [Function.update_of_ne hne] at hr
        exact h.held k t r ht hr
      · obtain ⟨rfl, rfl⟩ := Prod.mk.inj (List.mem_singleton.mp ht)
        rw [Function.update_self] at hr
        exact .inl (by rw [← Option.some.inj hr])

end SourceStore

namespace Ledger

open SourceStore

/-- What the invariant is for. -/
theorem verbatim_of_kept {l : Ledger F} (h : l.store.Kept l.added) : l.Verbatim := by
  refine ⟨h.distinct, fun id text hid => ?_⟩
  obtain ⟨src, hget, -, htext⟩ := h.get hid
  exact ⟨src, by rw [hget], htext⟩

/-- A legible call keeps the invariant. -/
theorem kept_step [PyFloat F] {l : Ledger F} (h : l.store.Kept l.added) (c : SourceCall F)
    (hc : l.Legible c) : (l.step c).store.Kept (l.step c).added := by
  cases c with
  | add new =>
    have hfresh : l.store.find l.store.nextId = none := by
      rcases hc with hplain | hnil
      · have hview := view_nextId hplain
        rwa [view, Option.map_eq_none_iff] at hview
      · rw [find, hnil]
        rfl
    rcases h.add new hfresh with ⟨e, t, heq, ht⟩ | ⟨src, t, heq, ht⟩
    · simp only [step, heq]
      exact ht
    · simp only [step, heq]
      exact ht
  | setStatus id status => exact h.setStatus id status
  | supersede oldId newId => exact h.supersede oldId newId
  | get id => exact h.after_get id
  | reopen => exact h.reopen hc

theorem kept_empty (projectPrefix : PyStr) : (empty F projectPrefix).Kept [] where
  distinct := List.nodup_nil
  known _ := by simp [empty, find]
  filed _ := by simp [empty]
  filesDistinct := List.nodup_nil
  filesNamed _ _ h := by cases h
  written _ _ h := by cases h
  named _ _ h := by cases h
  held _ _ _ h := by cases h

/-- **Legible calls keep every source verbatim**, in every state they pass through. -/
theorem sources_verbatim [PyFloat F] (projectPrefix : PyStr) (calls : List (SourceCall F))
    (hcalls : Run.Along step Legible ⟨empty F projectPrefix, []⟩ calls) :
    Run.Always step Verbatim ⟨empty F projectPrefix, []⟩ calls := by
  rintro js ⟨ks, rfl⟩
  exact verbatim_of_kept (Run.run_invariant (P := fun l => l.store.Kept l.added)
    (fun l c h hc => kept_step h c hc) (kept_empty projectPrefix) (Run.along_append.mp hcalls).1)

/-- An addition of a text. -/
def sampleSource (text : PyStr) : NewSource FloatLit :=
  ⟨py "decision", py "title", text, .current, [], none, none, none, .none⟩

/-- A text is kept when the store is opened again and its status is set. -/
theorem sources_verbatim_sample : Run.Always step Verbatim ⟨empty FloatLit (py "P1"), []⟩
    [.add (sampleSource (py "a")), .reopen, .setStatus (py "P1.S0001") .draft] := by
  have hadded : ((Ledger.mk (empty FloatLit (py "P1")) []).step
      (.add (sampleSource (py "a")))).added = [(py "P1.S0001", py "a")] := by
    decide +kernel
  refine sources_verbatim (py "P1") _ ⟨.inr rfl, fun p hp => ?_, trivial, trivial⟩
  rw [hadded, List.mem_singleton] at hp
  rw [hp]
  decide

/-- A carriage return is a newline once the store was opened again. -/
theorem carriage_return_lost :
    ¬ Run.Always step Verbatim ⟨empty FloatLit (py "P1"), []⟩
      [.add (sampleSource [97, cr]), .reopen] := by
  intro h
  have hread : (Run.run step ⟨empty FloatLit (py "P1"), []⟩
        [.add (sampleSource [97, cr]), .reopen]).added = [(py "P1.S0001", [97, cr])] ∧
      (((Run.run step ⟨empty FloatLit (py "P1"), []⟩
        [.add (sampleSource [97, cr]), .reopen]).store.get (py "P1.S0001")).1.map
          Source.content).toOption = some [97, nl] := by
    decide +kernel
  obtain ⟨src, hget, htext⟩ := (h _ (List.prefix_refl _)).2 (py "P1.S0001") [97, cr]
    (by rw [hread.1]; exact List.mem_singleton_self _)
  have hlost := hread.2
  rw [hget, Except.map, htext] at hlost
  exact absurd hlost (by decide)

end Ledger

end Daryl
