import Daryl.Dsm.Entry
import Daryl.Lib.Run

/-!
# `signing`: the history of an agent's keys

A key history is a list of entries in memory and the file they were last written
to.  Recording a key retires the active one and appends; revoking a key marks
every entry of it.  A write that UTF-8 refuses leaves the file as it was, while
the entries in memory have changed.  An agent's keypair on disk is the public key
that is read from it; a fresh keypair is an input.

## Main definitions

* `KeyEntry`, `KeyHistory` — an entry and the history.
* `KeyHistory.recordKey`, `KeyHistory.revokeKey` — the two updates.
* `AgentSigning.generateKeypair`, `AgentSigning.rotateKey` — their callers.
* `keyStep` — one call, with the keys whose revocation has returned so far.
* `KeyRevoked` — every entry of the key is revoked, and there is one.

## Main results

* `recordKey_keyRevoked` — recording another key leaves a revoked key revoked.
-/

namespace Daryl

open Py Json

/-- `_VALID_STATUSES`. -/
inductive KeyStatus
  | active
  | retired
  | revoked
  deriving DecidableEq

/-- An entry of the history; an older one has no hash. -/
structure KeyEntry where
  publicKey : PyStr
  createdAt : PyStr
  status : KeyStatus
  retiredAt : Option PyStr
  reason : Option PyStr
  prevHash : Option PyStr
  hash : Option PyStr
  deriving DecidableEq

/-- UTF-8 encodes every string of the entry. -/
def KeyEntry.Writable (e : KeyEntry) : Prop :=
  ∀ s ∈ [e.publicKey, e.createdAt, e.retiredAt.getD [], e.reason.getD [], e.prevHash.getD [],
    e.hash.getD []], Encodable s

instance (e : KeyEntry) : Decidable e.Writable := List.decidableBAll _ _

/-- The history: its entries in memory, and those of its file, if there is one. -/
structure KeyHistory where
  entries : List KeyEntry
  file : Option (List KeyEntry)
  deriving DecidableEq

/-- The hash of the last entry. -/
def lastLink (entries : List KeyEntry) : Option PyStr := entries.getLast?.bind KeyEntry.hash

namespace KeyHistory

/-- `_load`, by a new object on the same directory. -/
def load (h : KeyHistory) : KeyHistory := { h with entries := h.file.getD [] }

/-- `_save`: the text is encoded before it replaces the file. -/
def save (h : KeyHistory) : Except PyError Unit × KeyHistory :=
  if ∀ e ∈ h.entries, e.Writable then (.ok (), { h with file := some h.entries })
  else (.error .unicodeEncodeError, h)

/-- `_last_hash`. -/
def lastHash (h : KeyHistory) : Option PyStr := lastLink h.entries

/-- `active_key`: the newest active entry. -/
def activeKey (h : KeyHistory) : Option PyStr :=
  (h.entries.reverse.find? fun e => e.status = .active).map KeyEntry.publicKey

/-- `is_revoked`. -/
def isRevoked (h : KeyHistory) (publicKey : PyStr) : Bool :=
  h.entries.any fun e => e.publicKey = publicKey ∧ e.status = .revoked

/-- `all_valid_keys`. -/
def allValidKeys (h : KeyHistory) : List PyStr :=
  (h.entries.filter fun e => e.status = .active ∨ e.status = .retired).map KeyEntry.publicKey

end KeyHistory

/-- `_entry_hash` of a new entry. -/
def keyEntryHash (sha : Sha256) (publicKey createdAt : PyStr) (prevHash : Option PyStr) :
    Option PyStr :=
  (encodeUtf8 (publicKey ++ py ":" ++ createdAt ++ py ":active:" ++
    prevHash.getD (py "None"))).map (hexdigest sha)

/-- The entry after another key became active. -/
def KeyEntry.retire (now : PyStr) (reason : Option PyStr) (e : KeyEntry) : KeyEntry :=
  if e.status = .active then
    { e with
      status := .retired
      retiredAt := some now
      -- `retire_reason or "replaced by rotation"`
      reason := some (if reason.getD [] = [] then py "replaced by rotation" else reason.getD []) }
  else e

/-- The entry after its key was revoked. -/
def KeyEntry.revoke (now publicKey reason : PyStr) (e : KeyEntry) : KeyEntry :=
  if e.publicKey = publicKey then
    { e with
      status := .revoked
      retiredAt := some now
      reason := some reason }
  else e

namespace KeyHistory

/-- `record_key`.  The active entries are retired before the new entry is hashed,
and the file is written last. -/
def recordKey (sha : Sha256) (now publicKey : PyStr) (retireReason : Option PyStr)
    (h : KeyHistory) : Except PyError Unit × KeyHistory :=
  if h.activeKey = some publicKey then (.ok (), h)
  else
    let retired := { h with entries := h.entries.map (KeyEntry.retire now retireReason) }
    match keyEntryHash sha publicKey now retired.lastHash with
    | none => (.error .unicodeEncodeError, retired)
    | some hash =>
      save { retired with
        entries := retired.entries ++
          [⟨publicKey, now, .active, none, none, retired.lastHash, some hash⟩] }

/-- `revoke_key`: whether the key was found. -/
def revokeKey (now publicKey reason : PyStr) (h : KeyHistory) : Except PyError Bool × KeyHistory :=
  let found := h.entries.any fun e => e.publicKey = publicKey
  let marked := { h with entries := h.entries.map (KeyEntry.revoke now publicKey reason) }
  if found then
    match save marked with
    | (.ok _, h') => (.ok true, h')
    | (.error e, h') => (.error e, h')
  else (.ok false, marked)

end KeyHistory

/-- An agent: its history, and the public key of the keypair on disk, if there is
one. -/
structure AgentSigning where
  history : KeyHistory
  keypair : Option PyStr
  deriving DecidableEq

namespace AgentSigning

/-- The key `generate_keypair` records: the one on disk, or a fresh one. -/
def generatedKey (fresh : PyStr) (force : Bool) (a : AgentSigning) : PyStr :=
  if force then fresh else a.keypair.getD fresh

/-- `generate_keypair`: the keypair is on disk before its key is recorded. -/
def generateKeypair (sha : Sha256) (now fresh : PyStr) (force : Bool) (rotateReason : Option PyStr)
    (a : AgentSigning) : Except PyError Unit × AgentSigning :=
  let publicKey := a.generatedKey fresh force
  let (r, history) := a.history.recordKey sha now publicKey rotateReason
  (r, ⟨history, some publicKey⟩)

/-- `rotate_key`. -/
def rotateKey (sha : Sha256) (now fresh reason : PyStr) (a : AgentSigning) :
    Except PyError Unit × AgentSigning :=
  a.generateKeypair sha now fresh true (some reason)

end AgentSigning

/-- A call on an agent's keys, or a new object on its directory. -/
inductive KeyEvent
  | record (now publicKey : PyStr) (retireReason : Option PyStr)
  | revoke (now publicKey reason : PyStr)
  | generate (now fresh : PyStr) (force : Bool)
  | rotate (now fresh reason : PyStr)
  | reload

/-- An agent and the keys whose revocation has returned `True`. -/
structure KeyState where
  agent : AgentSigning
  revoked : List PyStr

/-- The key a call records. -/
def KeyEvent.recorded (a : AgentSigning) : KeyEvent → Option PyStr
  | record _ publicKey _ => some publicKey
  | generate _ fresh force => some (a.generatedKey fresh force)
  | rotate _ fresh _ => some (a.generatedKey fresh true)
  | _ => none

/-- One call. -/
def keyStep (sha : Sha256) (s : KeyState) : KeyEvent → KeyState
  | .record now publicKey retireReason =>
    { s with
      agent := { s.agent with
        history := (s.agent.history.recordKey sha now publicKey retireReason).2 } }
  | .revoke now publicKey reason =>
    match s.agent.history.revokeKey now publicKey reason with
    | (.ok true, h) => ⟨{ s.agent with history := h }, publicKey :: s.revoked⟩
    | (_, h) => { s with agent := { s.agent with history := h } }
  | .generate now fresh force =>
    { s with agent := (s.agent.generateKeypair sha now fresh force none).2 }
  | .rotate now fresh reason =>
    { s with agent := (s.agent.rotateKey sha now fresh reason).2 }
  | .reload => { s with agent := { s.agent with history := s.agent.history.load } }

/-! ### What a revoked key is -/

/-- The key has entries, and all of them are revoked. -/
def KeyRevoked (publicKey : PyStr) (es : List KeyEntry) : Prop :=
  (∃ e ∈ es, e.publicKey = publicKey) ∧ ∀ e ∈ es, e.publicKey = publicKey → e.status = .revoked

section

variable {publicKey : PyStr} {es : List KeyEntry}

/-- An update of the entries that keeps their keys, and keeps what is revoked so. -/
theorem KeyRevoked.map {f : KeyEntry → KeyEntry} (hkey : ∀ e, (f e).publicKey = e.publicKey)
    (hstatus : ∀ e, e.publicKey = publicKey → e.status = .revoked → (f e).status = .revoked)
    (h : KeyRevoked publicKey es) : KeyRevoked publicKey (es.map f) := by
  obtain ⟨⟨e, he, hpk⟩, hall⟩ := h
  refine ⟨⟨f e, List.mem_map_of_mem he, (hkey e).trans hpk⟩, ?_⟩
  intro d hd hdk
  obtain ⟨c, hc, rfl⟩ := List.mem_map.mp hd
  rw [hkey] at hdk
  exact hstatus c hdk (hall c hc hdk)

/-- An entry of another key does not count. -/
theorem KeyRevoked.concat {e : KeyEntry} (hne : e.publicKey ≠ publicKey)
    (h : KeyRevoked publicKey es) : KeyRevoked publicKey (es ++ [e]) := by
  obtain ⟨⟨c, hc, hpk⟩, hall⟩ := h
  refine ⟨⟨c, List.mem_append_left _ hc, hpk⟩, ?_⟩
  intro d hd hdk
  rcases List.mem_append.mp hd with hd | hd
  · exact hall d hd hdk
  · rw [List.mem_singleton] at hd
    exact absurd (hd ▸ hdk) hne

theorem KeyRevoked.retire (now : PyStr) (reason : Option PyStr) (h : KeyRevoked publicKey es) :
    KeyRevoked publicKey (es.map (KeyEntry.retire now reason)) := by
  apply h.map
  · intro e
    unfold KeyEntry.retire
    split_ifs <;> rfl
  · intro e _ hs
    rw [KeyEntry.retire, if_neg (by simp [hs])]
    exact hs

theorem KeyRevoked.revoke (now pk reason : PyStr) (h : KeyRevoked publicKey es) :
    KeyRevoked publicKey (es.map (KeyEntry.revoke now pk reason)) := by
  apply h.map
  · intro e
    unfold KeyEntry.revoke
    split_ifs <;> rfl
  · intro e _ hs
    unfold KeyEntry.revoke
    split_ifs
    · rfl
    · exact hs

/-- Marking every entry of a key that has one revokes it. -/
theorem keyRevoked_map_revoke (now reason : PyStr) (h : ∃ e ∈ es, e.publicKey = publicKey) :
    KeyRevoked publicKey (es.map (KeyEntry.revoke now publicKey reason)) := by
  obtain ⟨e, he, hpk⟩ := h
  refine ⟨⟨_, List.mem_map_of_mem he, by simp [KeyEntry.revoke, hpk]⟩, ?_⟩
  intro d hd hdk
  obtain ⟨c, _, rfl⟩ := List.mem_map.mp hd
  by_cases hc : c.publicKey = publicKey
  · simp [KeyEntry.revoke, hc]
  · rw [KeyEntry.revoke, if_neg hc] at hdk
    exact absurd hdk hc

variable {h : KeyHistory}

/-- **A revoked key is not active, not valid, and reported revoked.** -/
theorem KeyRevoked.seen (hr : KeyRevoked publicKey h.entries) :
    h.activeKey ≠ some publicKey ∧ publicKey ∉ h.allValidKeys ∧ h.isRevoked publicKey = true := by
  obtain ⟨⟨c, hc, hck⟩, hall⟩ := hr
  refine ⟨?_, ?_, ?_⟩
  · intro hact
    obtain ⟨e, he, hpk⟩ := Option.map_eq_some_iff.mp hact
    have hmem : e ∈ h.entries := List.mem_reverse.mp (List.mem_of_find?_eq_some he)
    have hactive : e.status = .active := by simpa using List.find?_some he
    rw [hall e hmem hpk] at hactive
    cases hactive
  · intro hvalid
    obtain ⟨e, he, hpk⟩ := List.mem_map.mp hvalid
    obtain ⟨hmem, hs⟩ := List.mem_filter.mp he
    rw [hall e hmem hpk] at hs
    simp at hs
  · exact List.any_eq_true.mpr ⟨c, hc, by simp [hck, hall c hc hck]⟩

/-! ### What the updates do -/

/-- A save leaves the entries, and the file is the old one or the entries. -/
theorem save_spec (h : KeyHistory) :
    h.save.2.entries = h.entries ∧ (h.save.2.file = h.file ∨ h.save.2.file = some h.entries) := by
  unfold KeyHistory.save
  split_ifs
  · exact ⟨rfl, .inr rfl⟩
  · exact ⟨rfl, .inl rfl⟩

/-- The key is revoked in memory and in the file. -/
def KeyHistory.Revoked (h : KeyHistory) (publicKey : PyStr) : Prop :=
  KeyRevoked publicKey h.entries ∧ KeyRevoked publicKey (h.file.getD [])

theorem KeyHistory.Revoked.save (hm : KeyRevoked publicKey h.entries)
    (hf : KeyRevoked publicKey (h.file.getD [])) : h.save.2.Revoked publicKey := by
  obtain ⟨hentries, hfile⟩ := save_spec h
  refine ⟨hentries ▸ hm, ?_⟩
  rcases hfile with hfile | hfile
  · exact hfile ▸ hf
  · exact hfile ▸ hm

theorem KeyHistory.Revoked.load (hr : h.Revoked publicKey) : h.load.Revoked publicKey :=
  ⟨hr.2, hr.2⟩

/-- **Recording another key leaves a revoked key revoked.** -/
theorem recordKey_keyRevoked (sha : Sha256) (now : PyStr) {pk : PyStr} (reason : Option PyStr)
    (hne : pk ≠ publicKey) (hr : h.Revoked publicKey) :
    (h.recordKey sha now pk reason).2.Revoked publicKey := by
  have hret := hr.1.retire now reason
  unfold KeyHistory.recordKey
  split_ifs
  · exact hr
  · dsimp only
    cases keyEntryHash sha pk now
        ({ h with entries := h.entries.map (KeyEntry.retire now reason) } : KeyHistory).lastHash with
    | none => exact ⟨hret, hr.2⟩
    | some hash =>
      apply KeyHistory.Revoked.save
      · exact hret.concat hne
      · exact hr.2

/-- Revoking any key leaves a revoked key revoked. -/
theorem revokeKey_keyRevoked (now pk reason : PyStr) (hr : h.Revoked publicKey) :
    (h.revokeKey now pk reason).2.Revoked publicKey := by
  have hmark := hr.1.revoke now pk reason
  have hsave := KeyHistory.Revoked.save
    (h := { h with entries := h.entries.map (KeyEntry.revoke now pk reason) }) hmark hr.2
  unfold KeyHistory.revokeKey
  dsimp only
  split_ifs
  · split
    · next heq =>
      rw [heq] at hsave
      exact hsave
    · next heq =>
      rw [heq] at hsave
      exact hsave
  · exact ⟨hmark, hr.2⟩

/-- A revocation that returns `True` revokes the key, in the file too. -/
theorem revokeKey_true {now reason : PyStr} {h' : KeyHistory}
    (hrev : h.revokeKey now publicKey reason = (.ok true, h')) : h'.Revoked publicKey := by
  unfold KeyHistory.revokeKey at hrev
  dsimp only at hrev
  split_ifs at hrev with hfound
  have hmark : KeyRevoked publicKey (h.entries.map (KeyEntry.revoke now publicKey reason)) := by
    apply keyRevoked_map_revoke
    simpa using hfound
  unfold KeyHistory.save at hrev
  split_ifs at hrev
  · obtain rfl := (Prod.mk.injEq .. ▸ hrev).2
    exact ⟨hmark, hmark⟩
  · cases hrev
  · cases hrev

end

/-! ### Runs -/

/-- No key whose revocation has returned is active or valid, and each is reported
revoked. -/
def RevocationHolds (s : KeyState) : Prop :=
  ∀ pk ∈ s.revoked, s.agent.history.activeKey ≠ some pk ∧
    pk ∉ s.agent.history.allValidKeys ∧ s.agent.history.isRevoked pk = true

/-- The step records no key that has been revoked. -/
def RecordsFresh (s : KeyState) (i : KeyEvent) : Prop :=
  ∀ pk, i.recorded s.agent = some pk → pk ∉ s.revoked

/-- The keys revoked so far are revoked, in memory and in the file. -/
def RevokedKept (s : KeyState) : Prop := ∀ pk ∈ s.revoked, s.agent.history.Revoked pk

theorem RevokedKept.holds {s : KeyState} (h : RevokedKept s) : RevocationHolds s :=
  fun pk hpk => (h pk hpk).1.seen

/-- **A step that records no revoked key keeps the revoked keys revoked.** -/
theorem keyStep_kept {sha : Sha256} (s : KeyState) (i : KeyEvent) (hs : RevokedKept s)
    (hi : RecordsFresh s i) : RevokedKept (keyStep sha s i) := by
  cases i with
  | record now publicKey retireReason =>
    intro pk hpk
    have hne : publicKey ≠ pk := fun h => hi publicKey rfl (h ▸ hpk)
    exact recordKey_keyRevoked sha now retireReason hne (hs pk hpk)
  | revoke now publicKey reason =>
    have hold : ∀ pk ∈ s.revoked,
        (s.agent.history.revokeKey now publicKey reason).2.Revoked pk :=
      fun pk hpk => revokeKey_keyRevoked now publicKey reason (hs pk hpk)
    simp only [keyStep]
    split
    · next h heq =>
      intro pk hpk
      rcases List.mem_cons.mp hpk with rfl | hpk
      · exact revokeKey_true heq
      · have := hold pk hpk
        rw [heq] at this
        exact this
    · next h _ heq =>
      intro pk hpk
      have := hold pk hpk
      rw [heq] at this
      exact this
  | generate now fresh force =>
    intro pk hpk
    have hne : s.agent.generatedKey fresh force ≠ pk := fun h => hi _ rfl (h ▸ hpk)
    exact recordKey_keyRevoked sha now none hne (hs pk hpk)
  | rotate now fresh reason =>
    intro pk hpk
    have hne : s.agent.generatedKey fresh true ≠ pk := fun h => hi _ rfl (h ▸ hpk)
    exact recordKey_keyRevoked sha now (some reason) hne (hs pk hpk)
  | reload =>
    intro pk hpk
    exact (hs pk hpk).load

/-- **In every run that records no key after its revocation, from any history on
disk, a revoked key is never active or valid again and stays reported revoked**,
in every state on the way. -/
theorem revocation_holds (sha : Sha256) (a : AgentSigning) (is : List KeyEvent)
    (h : Run.Along (keyStep sha) RecordsFresh ⟨a, []⟩ is) :
    ∀ pre, pre <+: is → RevocationHolds (Run.run (keyStep sha) ⟨a, []⟩ pre) := by
  rintro pre ⟨post, rfl⟩
  have hpre := (Run.along_append.mp h).1
  have hstart : RevokedKept (⟨a, []⟩ : KeyState) := fun pk hpk => absurd hpk (by simp)
  exact (Run.run_invariant keyStep_kept hstart hpre).holds

/-- An agent without keys. -/
def noKeys : AgentSigning := ⟨⟨[], none⟩, none⟩

theorem revocation_holds_sample :
    RevocationHolds (Run.run (keyStep nibbles) ⟨noKeys, []⟩
      [.generate (py "t0") (py "aa") false, .revoke (py "t1") (py "aa") (py "leaked"), .reload,
        .rotate (py "t2") (py "bb") (py "leaked")]) :=
  revocation_holds nibbles noKeys _
    (by simp only [Run.Along, RecordsFresh]; decide +kernel) _ List.prefix_rfl

/-- The keypair on disk survives the revocation of its key, and the next
`generate_keypair` records it again. -/
theorem revocation_undone :
    ¬RevocationHolds (Run.run (keyStep nibbles) ⟨noKeys, []⟩
      [.generate (py "t0") (py "aa") false, .revoke (py "t1") (py "aa") (py "leaked"), .reload,
        .generate (py "t2") (py "bb") false]) := by
  intro h
  exact (h (py "aa") (by decide +kernel)).1 (by decide +kernel)

end Daryl
