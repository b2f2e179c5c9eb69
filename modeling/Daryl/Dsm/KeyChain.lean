import Daryl.Dsm.Signing
import Daryl.Py.Datetime

/-!
# `signing`: the chain of a key history

An entry of a key history names the hash of the entry before it.  The hash is that of the
key, the time and the state `active` the entry was made in, so retiring and revoking a key
leave it as it is.  Entries of older histories have no hash; the link starts anew behind
them, both where an entry is written and where the chain is verified.

## Main definitions

* `KeyEntry.link` — what no call changes of an entry.
* `verifyChain` — `verify_chain`.
* `Represents` — at most one active key, and a chain that verifies.

## Main results

* `verifyFrom_append` — a chain goes on where it ends.
* `run_represents` — **in a run of calls whose texts UTF-8 takes, every history represents
  one, and nothing of it is removed or moved.**
-/

namespace Daryl

open Py

namespace KeyEntry

/-- What no call changes of an entry. -/
def link (e : KeyEntry) : PyStr × PyStr × Option PyStr × Option PyStr :=
  (e.publicKey, e.createdAt, e.prevHash, e.hash)

@[simp] theorem link_retire (now : PyStr) (reason : Option PyStr) (e : KeyEntry) :
    (e.retire now reason).link = e.link := by
  unfold KeyEntry.retire
  split_ifs <;> rfl

@[simp] theorem link_revoke (now publicKey reason : PyStr) (e : KeyEntry) :
    (e.revoke now publicKey reason).link = e.link := by
  unfold KeyEntry.revoke
  split_ifs <;> rfl

end KeyEntry

/-! ### Verifying the chain -/

/-- What `verify_chain` returns. -/
structure KeyChainReport where
  valid : Bool
  entriesChecked : ℕ
  error : Option PyStr
  deriving DecidableEq

/-- The loop of `verify_chain` from the entry `i` on, behind a hash. -/
def verifyFrom (sha : Sha256) (prev : Option PyStr) (i : ℕ) :
    List KeyEntry → Except PyError KeyChainReport
  | [] => .ok ⟨true, i, none⟩
  | e :: es =>
    match keyEntryHash sha e.publicKey e.createdAt prev with
    | none => .error .unicodeEncodeError
    | some expected =>
      match e.hash with
      -- an entry of an older history
      | none => verifyFrom sha none (i + 1) es
      | some stored =>
        if stored ≠ expected then
          .ok ⟨false, i + 1, some (py "Hash mismatch at entry " ++ natStr i ++ py ": expected " ++
            expected.take 16 ++ py "..., got " ++ stored.take 16 ++ py "...")⟩
        else if e.prevHash ≠ prev then
          .ok ⟨false, i + 1, some (py "prev_hash mismatch at entry " ++ natStr i)⟩
        else verifyFrom sha (some stored) (i + 1) es

/-- `verify_chain`. -/
def verifyChain (sha : Sha256) (entries : List KeyEntry) : Except PyError KeyChainReport :=
  verifyFrom sha none 0 entries

/-- The chain verifies. -/
def ChainValid (sha : Sha256) (entries : List KeyEntry) : Prop :=
  verifyChain sha entries = .ok ⟨true, entries.length, none⟩

/-- The chain depends on what no call changes. -/
theorem verifyFrom_congr (sha : Sha256) (prev : Option PyStr) (i : ℕ) {es es' : List KeyEntry}
    (h : es.map KeyEntry.link = es'.map KeyEntry.link) :
    verifyFrom sha prev i es = verifyFrom sha prev i es' := by
  induction es generalizing prev i es' with
  | nil =>
    obtain rfl := List.map_eq_nil_iff.mp h.symm
    rfl
  | cons e es ih =>
    cases es' with
    | nil => cases h
    | cons e' es' =>
      obtain ⟨hlink, hrest⟩ := List.cons.inj h
      simp only [KeyEntry.link, Prod.mk.injEq] at hlink
      obtain ⟨hkey, hcreated, hprev, hhash⟩ := hlink
      rw [verifyFrom, verifyFrom, hkey, hcreated, hprev, hhash]
      simp only [fun p j => ih p j hrest]

/-- **A valid chain goes on where it ends.** -/
theorem verifyFrom_append (sha : Sha256) {prev : Option PyStr} {i n : ℕ} {es : List KeyEntry}
    (h : verifyFrom sha prev i es = .ok ⟨true, n, none⟩) (more : List KeyEntry) :
    verifyFrom sha prev i (es ++ more) =
      verifyFrom sha (if es = [] then prev else lastLink es) n more := by
  induction es generalizing prev i with
  | nil =>
    obtain rfl : i = n := by simpa [verifyFrom] using h
    rfl
  | cons e es ih =>
    have hlast : ∀ p, e.hash = p →
        (if es = [] then p else lastLink es) = lastLink (e :: es) := by
      rintro p rfl
      cases es with
      | nil => rfl
      | cons e' es => rfl
    rw [List.cons_append, verifyFrom]
    rw [verifyFrom] at h
    rw [if_neg (List.cons_ne_nil e es)]
    cases hexpected : keyEntryHash sha e.publicKey e.createdAt prev with
    | none =>
      rw [hexpected] at h
      cases h
    | some expected =>
      rw [hexpected] at h
      dsimp only at h ⊢
      cases hhash : e.hash with
      | none =>
        rw [hhash] at h
        dsimp only at h ⊢
        rw [ih h, hlast none hhash]
      | some stored =>
        rw [hhash] at h
        dsimp only at h ⊢
        split_ifs at h ⊢ with hmismatch hprev
        · simp at h
        · simp at h
        · rw [ih h, hlast (some stored) hhash]

/-- An entry that names the end of a valid chain and has the hash of that is the next of it. -/
theorem ChainValid.concat {sha : Sha256} {es : List KeyEntry} (h : ChainValid sha es)
    {e : KeyEntry} {hash : PyStr}
    (hhash : keyEntryHash sha e.publicKey e.createdAt (lastLink es) = some hash)
    (hstored : e.hash = some hash) (hprev : e.prevHash = lastLink es) :
    ChainValid sha (es ++ [e]) := by
  unfold ChainValid verifyChain at h ⊢
  have hend : (if es = [] then none else lastLink es) = lastLink es := by
    split_ifs with hnil
    · rw [hnil]
      rfl
    · rfl
  rw [verifyFrom_append sha h, hend, verifyFrom, hhash]
  simp only [hstored, hprev, ne_eq, not_true_eq_false, if_false]
  rw [verifyFrom, List.length_append, List.length_singleton]

/-- A chain without a hash is valid, where UTF-8 takes its texts. -/
theorem chainValid_of_legacy {sha : Sha256} {es : List KeyEntry}
    (h : ∀ e ∈ es, e.hash = none ∧ e.Writable) : ChainValid sha es := by
  suffices hfrom : ∀ i, verifyFrom sha none i es = .ok ⟨true, i + es.length, none⟩ by
    rw [ChainValid, verifyChain, hfrom, Nat.zero_add]
  induction es with
  | nil => exact fun i => rfl
  | cons e es ih =>
    intro i
    obtain ⟨hnone, hwrite⟩ := h e List.mem_cons_self
    have hbytes : Encodable (e.publicKey ++ py ":" ++ e.createdAt ++ py ":active:" ++ py "None") := by
      simp only [encodable_append]
      exact ⟨⟨⟨⟨hwrite _ (by simp), by decide⟩, hwrite _ (by simp)⟩, by decide⟩, by decide⟩
    rw [verifyFrom, keyEntryHash, Option.getD_none, encodeUtf8_of_encodable hbytes]
    simp only [Option.map_some, hnone]
    rw [ih (fun x hx => h x (List.mem_cons_of_mem e hx)), List.length_cons]
    congr 2
    omega

/-! ### Runs -/

/-- A call on a history, or a new object on its directory. -/
inductive KeyCall
  | recordKey (now : Datetime) (publicKey : PyStr) (retireReason : Option PyStr)
  | revokeKey (now : Datetime) (publicKey reason : PyStr)
  | save
  | load

/-- One call. -/
def chainStep (sha : Sha256) (h : KeyHistory) : KeyCall → KeyHistory
  | .recordKey now publicKey retireReason =>
    (h.recordKey sha now.isoformat publicKey retireReason).2
  | .revokeKey now publicKey reason => (h.revokeKey now.isoformat publicKey reason).2
  | .save => h.save.2
  | .load => h.load

/-- The texts a call would write are ones UTF-8 takes. -/
def KeyCall.Encodes (h : KeyHistory) : KeyCall → Prop
  | .recordKey _ publicKey retireReason => h.activeKey = some publicKey ∨
      Encodable publicKey ∧ (h.activeKey = none ∨ Encodable (retireReason.getD []))
  | .revokeKey _ publicKey reason =>
    (∀ e ∈ h.entries, e.publicKey ≠ publicKey) ∨ Encodable reason
  | _ => True

/-- A history that was never hashed, as it is loaded, with at most one active key. -/
structure Legacy (h : KeyHistory) : Prop where
  unhashed : ∀ e ∈ h.entries, e.hash = none ∧ e.prevHash = none
  active : h.entries.countP (fun e => e.status = .active) ≤ 1
  loaded : h.file.getD [] = h.entries
  writable : ∀ e ∈ h.entries, e.Writable

/-- **At most one key is active, and the chain verifies.** -/
structure Represents (sha : Sha256) (h : KeyHistory) : Prop where
  active : h.entries.countP (fun e => e.status = .active) ≤ 1
  valid : ChainValid sha h.entries

/-- What runs keep: the history is what its file says. -/
structure InStep (sha : Sha256) (h : KeyHistory) : Prop extends Represents sha h where
  saved : h.file.getD [] = h.entries
  writable : ∀ e ∈ h.entries, e.Writable

theorem Legacy.inStep (sha : Sha256) {h : KeyHistory} (hl : Legacy h) : InStep sha h where
  active := hl.active
  valid := chainValid_of_legacy fun e he => ⟨(hl.unhashed e he).1, hl.writable e he⟩
  saved := hl.loaded
  writable := hl.writable

/-- The end of a chain is written like the rest of it. -/
theorem encodable_lastLink {es : List KeyEntry} (h : ∀ e ∈ es, e.Writable) :
    Encodable ((lastLink es).getD []) := by
  cases hlast : es.getLast? with
  | none => simp [lastLink, hlast]
  | some e =>
    rw [lastLink, hlast, Option.bind_some]
    exact h e (List.mem_of_getLast? hlast) _ (by simp)

/-- Retired entries are written like before. -/
theorem KeyEntry.Writable.retire {e : KeyEntry} (h : e.Writable) {now : PyStr}
    {reason : Option PyStr} (hnow : Encodable now)
    (hreason : e.status = .active → Encodable (reason.getD [])) : (e.retire now reason).Writable := by
  unfold KeyEntry.retire
  split_ifs with hactive hempty
  · intro s hs
    simp only [List.mem_cons, List.not_mem_nil, or_false, Option.getD_some] at hs
    rcases hs with rfl | rfl | rfl | rfl | rfl | rfl
    · exact h _ (by simp)
    · exact h _ (by simp)
    · exact hnow
    · decide
    · exact h _ (by simp)
    · exact h _ (by simp)
  · intro s hs
    simp only [List.mem_cons, List.not_mem_nil, or_false, Option.getD_some] at hs
    rcases hs with rfl | rfl | rfl | rfl | rfl | rfl
    · exact h _ (by simp)
    · exact h _ (by simp)
    · exact hnow
    · exact hreason hactive
    · exact h _ (by simp)
    · exact h _ (by simp)
  · exact h

/-- And so are revoked ones. -/
theorem KeyEntry.Writable.revoke {e : KeyEntry} (h : e.Writable) {now publicKey reason : PyStr}
    (hnow : Encodable now) (hreason : e.publicKey = publicKey → Encodable reason) :
    (e.revoke now publicKey reason).Writable := by
  unfold KeyEntry.revoke
  split_ifs with hkey
  · intro s hs
    simp only [List.mem_cons, List.not_mem_nil, or_false, Option.getD_some] at hs
    rcases hs with rfl | rfl | rfl | rfl | rfl | rfl
    · exact h _ (by simp)
    · exact h _ (by simp)
    · exact hnow
    · exact hreason hkey
    · exact h _ (by simp)
    · exact h _ (by simp)
  · exact h

/-- No key is active once all are retired. -/
theorem countP_retire (now : PyStr) (reason : Option PyStr) (es : List KeyEntry) :
    (es.map (KeyEntry.retire now reason)).countP (fun e => e.status = .active) = 0 := by
  rw [List.countP_eq_zero]
  intro e he
  obtain ⟨x, -, rfl⟩ := List.mem_map.mp he
  unfold KeyEntry.retire
  split_ifs with hactive
  · simp
  · simpa using hactive

/-- Revoking makes no key active. -/
theorem countP_revoke_le (now publicKey reason : PyStr) (es : List KeyEntry) :
    (es.map (KeyEntry.revoke now publicKey reason)).countP (fun e => e.status = .active) ≤
      es.countP fun e => e.status = .active := by
  rw [List.countP_map]
  apply List.countP_mono_left
  intro e _ he
  simp only [Function.comp_apply, KeyEntry.revoke] at he
  split_ifs at he with hkey
  · simp at he
  · exact he

theorem map_link_map {f : KeyEntry → KeyEntry} (hf : ∀ e, (f e).link = e.link)
    (es : List KeyEntry) : (es.map f).map KeyEntry.link = es.map KeyEntry.link := by
  rw [List.map_map]
  exact List.map_congr_left fun e _ => hf e

/-- A chain is valid whatever becomes of the states of its keys. -/
theorem ChainValid.map {sha : Sha256} {es : List KeyEntry} (h : ChainValid sha es)
    {f : KeyEntry → KeyEntry} (hf : ∀ e, (f e).link = e.link) : ChainValid sha (es.map f) := by
  rw [ChainValid, List.length_map, verifyChain, verifyFrom_congr sha none 0 (map_link_map hf es)]
  exact h

/-- There is no active entry without an active key. -/
theorem not_active_of_activeKey {h : KeyHistory} (hnone : h.activeKey = none) :
    ∀ e ∈ h.entries, e.status ≠ .active := by
  intro e he hactive
  rw [KeyHistory.activeKey, Option.map_eq_none_iff, List.find?_eq_none] at hnone
  exact hnone e (List.mem_reverse.mpr he) (by simpa using hactive)

/-- What is saved is what is there. -/
theorem save_of_writable {h : KeyHistory} (hw : ∀ e ∈ h.entries, e.Writable) :
    h.save = (.ok (), { h with file := some h.entries }) := if_pos hw

/-- The hash of an entry that UTF-8 takes. -/
theorem exists_keyEntryHash (sha : Sha256) {publicKey createdAt : PyStr} {prev : Option PyStr}
    (hkey : Encodable publicKey) (hcreated : Encodable createdAt) (hprev : Encodable (prev.getD [])) :
    ∃ hash, keyEntryHash sha publicKey createdAt prev = some hash ∧ Encodable hash := by
  have hbytes : Encodable (publicKey ++ py ":" ++ createdAt ++ py ":active:" ++
      prev.getD (py "None")) := by
    simp only [encodable_append]
    refine ⟨⟨⟨⟨hkey, by decide⟩, hcreated⟩, by decide⟩, ?_⟩
    cases prev with
    | none => decide
    | some s => exact hprev
  rw [keyEntryHash, encodeUtf8_of_encodable hbytes]
  exact ⟨_, rfl, encodable_hexdigest _ _⟩

/-- Recording a key keeps the history in step with its file. -/
theorem inStep_recordKey {sha : Sha256} {h : KeyHistory} (hin : InStep sha h) (now : Datetime)
    {publicKey : PyStr} {retireReason : Option PyStr}
    (hc : (KeyCall.recordKey now publicKey retireReason).Encodes h) :
    InStep sha (h.recordKey sha now.isoformat publicKey retireReason).2 ∧
      h.entries.map KeyEntry.link <+:
        (h.recordKey sha now.isoformat publicKey retireReason).2.entries.map KeyEntry.link := by
  rw [KeyHistory.recordKey]
  split_ifs with hactive
  · exact ⟨hin, List.prefix_rfl⟩
  obtain ⟨hkey, hreason⟩ := hc.resolve_left hactive
  have hnow := encodable_isoformat now
  have hlink : ∀ e : KeyEntry, (e.retire now.isoformat retireReason).link = e.link :=
    fun e => KeyEntry.link_retire _ _ e
  have hretired : ∀ e ∈ h.entries.map (KeyEntry.retire now.isoformat retireReason),
      e.Writable := by
    intro e he
    obtain ⟨x, hx, rfl⟩ := List.mem_map.mp he
    refine (hin.writable x hx).retire hnow fun hstatus => ?_
    -- the reason is written only where a key is active
    exact hreason.resolve_left fun hnone => not_active_of_activeKey hnone x hx hstatus
  have hlast := encodable_lastLink hretired
  obtain ⟨hash, hhash, henc⟩ := exists_keyEntryHash sha hkey hnow hlast
  dsimp only [KeyHistory.lastHash]
  rw [hhash]
  dsimp only
  have hnew : ∀ e ∈ h.entries.map (KeyEntry.retire now.isoformat retireReason) ++
      [⟨publicKey, now.isoformat, .active, none, none,
        lastLink (h.entries.map (KeyEntry.retire now.isoformat retireReason)), some hash⟩],
      e.Writable := by
    intro e he
    rcases List.mem_append.mp he with he | he
    · exact hretired e he
    · obtain rfl := List.mem_singleton.mp he
      intro s hs
      simp only [List.mem_cons, List.not_mem_nil, or_false, Option.getD_none,
        Option.getD_some] at hs
      rcases hs with rfl | rfl | rfl | rfl | rfl | rfl
      · exact hkey
      · exact hnow
      · exact encodable_nil
      · exact encodable_nil
      · exact hlast
      · exact henc
  rw [save_of_writable hnew]
  refine ⟨⟨⟨?_, (hin.valid.map hlink).concat hhash rfl rfl⟩, rfl, hnew⟩, ?_⟩
  · rw [List.countP_append, countP_retire, Nat.zero_add]
    exact List.countP_le_length
  · rw [List.map_append, map_link_map hlink]
    exact List.prefix_append _ _

/-- And so does revoking one. -/
theorem inStep_revokeKey {sha : Sha256} {h : KeyHistory} (hin : InStep sha h) (now : Datetime)
    {publicKey reason : PyStr} (hc : (KeyCall.revokeKey now publicKey reason).Encodes h) :
    InStep sha (h.revokeKey now.isoformat publicKey reason).2 ∧
      h.entries.map KeyEntry.link <+:
        (h.revokeKey now.isoformat publicKey reason).2.entries.map KeyEntry.link := by
  have hlink : ∀ e : KeyEntry, (e.revoke now.isoformat publicKey reason).link = e.link :=
    fun e => KeyEntry.link_revoke _ _ _ e
  rw [KeyHistory.revokeKey]
  split_ifs with hfound
  · obtain ⟨x, hx, hkey⟩ := List.any_eq_true.mp hfound
    have hreason : Encodable reason :=
      hc.resolve_left fun hnone => hnone x hx (of_decide_eq_true hkey)
    have hmarked : ∀ e ∈ h.entries.map (KeyEntry.revoke now.isoformat publicKey reason),
        e.Writable := by
      intro e he
      obtain ⟨y, hy, rfl⟩ := List.mem_map.mp he
      exact (hin.writable y hy).revoke (encodable_isoformat now) fun _ => hreason
    rw [save_of_writable hmarked]
    dsimp only
    refine ⟨⟨⟨(countP_revoke_le _ _ _ _).trans hin.active, hin.valid.map hlink⟩, rfl, hmarked⟩, ?_⟩
    rw [map_link_map hlink]
  · -- no entry has the key
    have hsame : h.entries.map (KeyEntry.revoke now.isoformat publicKey reason) = h.entries := by
      have heach : ∀ e ∈ h.entries, e.revoke now.isoformat publicKey reason = id e := by
        intro e he
        rw [KeyEntry.revoke, if_neg]
        · rfl
        · intro hkey
          exact hfound (List.any_eq_true.mpr ⟨e, he, decide_eq_true hkey⟩)
      rw [List.map_congr_left heach, List.map_id]
    rw [hsame]
    exact ⟨hin, List.prefix_rfl⟩

/-- **A call whose texts UTF-8 takes keeps the history in step with its file**, and leaves
what no call changes of its entries, in their order. -/
theorem inStep_chainStep {sha : Sha256} {h : KeyHistory} (hin : InStep sha h) {c : KeyCall}
    (hc : c.Encodes h) : InStep sha (chainStep sha h c) ∧
      h.entries.map KeyEntry.link <+: (chainStep sha h c).entries.map KeyEntry.link := by
  cases c with
  | recordKey now publicKey retireReason => exact inStep_recordKey hin now hc
  | revokeKey now publicKey reason => exact inStep_revokeKey hin now hc
  | save =>
    rw [chainStep, save_of_writable hin.writable]
    exact ⟨⟨⟨hin.active, hin.valid⟩, rfl, hin.writable⟩, List.prefix_rfl⟩
  | load =>
    rw [chainStep, KeyHistory.load, hin.saved]
    exact ⟨⟨⟨hin.active, hin.valid⟩, hin.saved, hin.writable⟩, List.prefix_rfl⟩

/-- The same of many calls. -/
theorem link_prefix_run {sha : Sha256} {h : KeyHistory} (hin : InStep sha h)
    {calls : List KeyCall}
    (hcalls : Run.Along (chainStep sha) (fun h c => c.Encodes h) h calls) :
    h.entries.map KeyEntry.link <+:
      (Run.run (chainStep sha) h calls).entries.map KeyEntry.link := by
  induction calls generalizing h with
  | nil => exact List.prefix_rfl
  | cons c calls ih =>
    obtain ⟨hnext, hprefix⟩ := inStep_chainStep hin hcalls.1
    exact hprefix.trans (ih hnext hcalls.2)

/-- **In a run of calls whose texts UTF-8 takes, every history represents one, and nothing
of it is removed or moved.** -/
theorem run_represents (sha : Sha256) {h : KeyHistory} (hl : Legacy h) {calls : List KeyCall}
    (hcalls : Run.Along (chainStep sha) (fun h c => c.Encodes h) h calls) :
    Run.Always (chainStep sha) (Represents sha) h calls ∧
      ∀ past more, past ++ more <+: calls →
        (Run.run (chainStep sha) h past).entries.map KeyEntry.link <+:
          (Run.run (chainStep sha) h (past ++ more)).entries.map KeyEntry.link := by
  have hstep : ∀ (h : KeyHistory) (c : KeyCall), InStep sha h → c.Encodes h →
      InStep sha (chainStep sha h c) := fun _ _ hin hc => (inStep_chainStep hin hc).1
  constructor
  · intro js hjs
    exact (Run.always_of_along hstep (hl.inStep sha) hcalls js hjs).toRepresents
  · rintro past more ⟨rest, rfl⟩
    rw [Run.along_append, Run.along_append] at hcalls
    rw [Run.run_append]
    exact link_prefix_run (Run.run_invariant hstep (hl.inStep sha) hcalls.1.1) hcalls.1.2

/-- The time of a rotation. -/
def sampleRotation : Datetime := ⟨⟨2026, 2, 3, 4, 5, 6, 0, some 0⟩, by decide⟩

/-- An older history with one key. -/
def sampleLegacy : KeyHistory :=
  let entries := [⟨py "k1", py "2026-01-01", .active, none, none, none, none⟩]
  ⟨entries, some entries⟩

/-- Its key is replaced, the new one revoked, and the history is read again. -/
theorem run_represents_sample :
    Represents nibbles (Run.run (chainStep nibbles) sampleLegacy
      [.recordKey sampleRotation (py "k2") none, .revokeKey sampleRotation (py "k2") (py "lost"), .load]) := by
  have hl : Legacy sampleLegacy := ⟨by decide, by decide, by decide, by decide⟩
  refine (run_represents nibbles hl ?_).1 _ List.prefix_rfl
  exact ⟨.inr ⟨by decide, .inr (by decide)⟩, .inr (by decide), trivial, trivial⟩

/-- A reason that UTF-8 refuses: the new key is not in the file, and is gone when the history
is read again. -/
theorem recorded_and_gone :
    ((Run.run (chainStep nibbles) sampleLegacy
      [.recordKey sampleRotation (py "k2") (some [0xD800])]).entries.map KeyEntry.publicKey
        = [py "k1", py "k2"]) ∧
    ((Run.run (chainStep nibbles) sampleLegacy
      [.recordKey sampleRotation (py "k2") (some [0xD800]), .load]).entries.map KeyEntry.publicKey
        = [py "k1"]) := by
  decide +kernel

end Daryl
