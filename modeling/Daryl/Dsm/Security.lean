import Daryl.Dsm.Primitives
import Daryl.Lib.Dict
import Daryl.Lib.Run
import Daryl.Py.Name

/-!
# `SecurityLayer`: the integrity of the critical files

The hashes of the critical files, which a scan compares and, where it has none, records, and
which a forced update replaces.  The files are UTF-8 texts; what `git` says, the user and the
clock are arguments of a call, the upper case of a string is a parameter, and the saves are
allowed.

## Main definitions

* `computeFileHash`, `verifyIntegrity`, `checkBaselineGate`, `updateBaseline` — the code.
* `Monitored` — the workspace, and beside it the files as they were when their hashes were
  taken.
* `TellsTruly` — a scan reports an anomaly iff a file that has a hash is not what it was, and
  keeps the hashes there are.
* `Noticeable` — what the file system has to be like for that.

## Main results

* `verifyIntegrity_spec` — what a scan finds and what it records.
* `tellsTruly_along_iff` — **the scans of a run tell truly exactly when every change among
  the recorded files is noticeable.**
* `deletion_unnoticed` — a recorded file is deleted, and the scan finds nothing.
-/

namespace Daryl

open Py

namespace Security

/-! ### Files -/

/-- A file that is UTF-8 text. -/
structure TextFile where
  bytes : List Byte
  text : PyStr
  decodes : decodeUtf8 bytes = some text

/-- Files are told apart by their bytes. -/
theorem TextFile.ext_bytes {a b : TextFile} (h : a.bytes = b.bytes) : a = b := by
  obtain ⟨bytes, text, hdec⟩ := a
  obtain ⟨bytes', text', hdec'⟩ := b
  obtain rfl : bytes = bytes' := h
  obtain rfl : text = text' := Option.some.inj (hdec.symm.trans hdec')
  rfl

/-- What a reader in text mode gets. -/
def TextFile.content (file : TextFile) : PyStr := universalNewlines false file.text

/-- What was decoded can be encoded. -/
theorem TextFile.encodable_content (file : TextFile) : Encodable file.content := by
  intro c hc
  rcases mem_universalNewlines hc with rfl | hc
  · decide
  · exact encodable_of_decodeUtf8 file.decodes c hc

/-- `CRITICAL_FILES`. -/
def criticalFiles : List PyStr :=
  [py "src/dsm/core/models.py", py "src/dsm/core/storage.py", py "src/dsm/core/signing.py",
    py "src/dsm/core/shard_segments.py", py "src/dsm/core/replay.py",
    py "src/dsm/core/security.py", py "data/security/baseline.json",
    py "data/security/policy.json"]

/-- `last_update`. -/
structure LastUpdate where
  timestamp : PyStr
  reason : PyStr
  updatedFiles : List PyStr
  user : PyStr
  forced : Bool

/-- The content of `integrity.json`. -/
structure IntegrityData where
  files : List (PyStr × PyStr)
  lastUpdate : Option LastUpdate

/-- The events of the audit log. -/
inductive AuditEvent
  | fileModified (file oldHash newHash : PyStr)
  | baselineUpdate (files : List PyStr) (reason : PyStr) (forced ack : Bool) (user : PyStr)

/-- What the layer sees of the disk. -/
structure Workspace where
  files : PyStr → Option TextFile
  integrity : Option IntegrityData
  auditLog : List AuditEvent

/-- `_load_integrity_data`. -/
def loadIntegrityData (w : Workspace) : IntegrityData := w.integrity.getD ⟨[], none⟩

/-- `compute_file_hash`, of a file that is there. -/
def computeFileHash (sha : Sha256) (file : TextFile) : PyStr := hexdigest sha (utf8Bytes file.content)

/-- The recorded hash of a file. -/
def Workspace.known (w : Workspace) (filename : PyStr) : Option PyStr :=
  Dict.get filename (loadIntegrityData w).files

/-! ### `verify_integrity` -/

/-- What the loop over the files has gathered. -/
structure Scan where
  results : List (PyStr × Option Bool)
  hasAnomalies : Bool
  integrity : IntegrityData
  auditLog : List AuditEvent

/-- The loop body.  A file that is missing is only logged. -/
def scanFile (sha : Sha256) (files : PyStr → Option TextFile) (s : Scan) (filename : PyStr) : Scan :=
  match files filename with
  | none => { s with results := Dict.set filename none s.results }
  | some file =>
    let currentHash := computeFileHash sha file
    match Dict.get filename s.integrity.files with
    | none =>
      { s with
        results := Dict.set filename none s.results
        integrity := { s.integrity with files := Dict.set filename currentHash s.integrity.files } }
    | some knownHash =>
      if currentHash = knownHash then { s with results := Dict.set filename (some true) s.results }
      else
        { s with
          results := Dict.set filename (some false) s.results
          hasAnomalies := true
          auditLog := s.auditLog ++
            [.fileModified filename (knownHash.take 16) (currentHash.take 16)] }

/-- What `verify_integrity` returns. -/
structure IntegrityReport where
  files : List (PyStr × Option Bool)
  hasAnomalies : Bool
  gitStatus : List (PyStr × PyStr)
  timestamp : PyStr

/-- What a scan takes from outside. -/
structure VerifyCall where
  gitStatus : List (PyStr × PyStr)
  timestamp : PyStr

/-- `verify_integrity`. -/
def verifyIntegrity (sha : Sha256) (w : Workspace) (call : VerifyCall) :
    IntegrityReport × Workspace :=
  let s := criticalFiles.foldl (scanFile sha w.files) ⟨[], false, loadIntegrityData w, w.auditLog⟩
  (⟨s.results, s.hasAnomalies, call.gitStatus, call.timestamp⟩,
    { w with integrity := some s.integrity, auditLog := s.auditLog })

/-! ### `update_baseline` -/

/-- A string argument that is missing or empty. -/
def falsy (s : Option PyStr) : Bool := s.getD [] = []

/-- The lines of the first check. -/
def gitChecks (gitStatus : List (PyStr × PyStr)) : List PyStr :=
  if gitStatus = [] then [py "❌ Git working tree is dirty (run `git status` to see changes)"]
  else
    let errorFiles := gitStatus.filter fun p => p.2 ≠ py "clean"
    if errorFiles = [] then []
    else
      [py "❌ Git working tree is dirty:"] ++
        ((errorFiles.take 5).map fun p => py "   • " ++ p.1 ++ py " (" ++ p.2 ++ py ")") ++
        if 5 < errorFiles.length then
          [py "   ... and " ++ natStr (errorFiles.length - 5) ++ py " more"]
        else []

/-- The lines of the three checks. -/
def gateChecks (gitStatus : List (PyStr × PyStr)) (reason manualAck : Option PyStr) : List PyStr :=
  gitChecks gitStatus ++
    (if falsy reason then
      [py "❌ Missing --reason argument",
        py "   Usage: python -m dsm security update-baseline --reason \"...\""]
    else []) ++
    if falsy manualAck then
      [py "❌ Manual acknowledgment required",
        py "   Type 'I UNDERSTAND' to confirm you understand the security implications"]
    else []

/-- `check_baseline_gate`. -/
def checkBaselineGate (gitStatus : List (PyStr × PyStr)) (reason manualAck : Option PyStr)
    (force : Bool) : Bool × PyStr :=
  if force then
    if manualAck ≠ some (py "I UNDERSTAND") then
      (false, py "❌ Forced update requires acknowledgment: \"I UNDERSTAND\"")
    else (true, py "⚠️ Forced update approved (double ack required)")
  else
    let checks := gateChecks gitStatus reason manualAck
    if checks = [] then (true, py "✅ All baseline gate checks passed")
    else (false, (py "\n").intercalate checks)

/-- What an update takes, and what it asks of its surroundings. -/
structure UpdateCall where
  reason : Option PyStr
  force : Bool
  manualAck : Option PyStr
  gitStatus : List (PyStr × PyStr)
  user : PyStr
  timestamp : PyStr

/-- The loop body: the hash of a file that is there is taken, if it is another. -/
def takeHash (sha : Sha256) (files : PyStr → Option TextFile)
    (st : List (PyStr × PyStr) × List PyStr) (filename : PyStr) : List (PyStr × PyStr) × List PyStr :=
  match files filename with
  | none => st
  | some file =>
    if some (computeFileHash sha file) ≠ Dict.get filename st.1 then
      (Dict.set filename (computeFileHash sha file) st.1, st.2 ++ [filename])
    else st

/-- `reason or "forced"`. -/
def reasonText (reason : Option PyStr) : PyStr :=
  if falsy reason then py "forced" else reason.getD []

/-- The message of an update. -/
def updateMessage (call : UpdateCall) (updated : ℕ) : PyStr :=
  py "✅ Baseline updated (" ++ natStr updated ++ py " files)" ++
    (if falsy call.reason then [] else py "\n   Reason: " ++ call.reason.getD []) ++
    if call.force then py "\n   ⚠️ Forced update (bypassed gates)" else []

/-- `update_baseline`; `upper` is `str.upper`. -/
def updateBaseline (sha : Sha256) (upper : PyStr → PyStr) (w : Workspace) (call : UpdateCall) :
    (Bool × PyStr) × Workspace :=
  let gate := checkBaselineGate call.gitStatus call.reason none false
  if call.force = false ∧ gate.1 = false then (gate, w)
  else if call.force ∧
      (falsy call.manualAck ∨ upper (call.manualAck.getD []) ≠ py "I UNDERSTAND I UNDERSTAND") then
    ((false, py "❌ Refused: invalid acknowledgment for forced baseline update"), w)
  else
    let st := criticalFiles.foldl (takeHash sha w.files) ((loadIntegrityData w).files, [])
    let reason := reasonText call.reason
    ((true, updateMessage call st.2.length),
      { w with
        integrity := some ⟨st.1, some ⟨call.timestamp, reason, st.2, call.user, call.force⟩⟩
        auditLog := w.auditLog ++
          [.baselineUpdate st.2 reason call.force (!falsy call.manualAck) call.user] })

/-! ### What the loops do -/

/-- **What a scan finds and what it records**: an anomaly is a file that is there with another
hash than the one recorded, and a hash is taken of a file that is there and has none. -/
theorem foldl_scanFile (sha : Sha256) (files : PyStr → Option TextFile) :
    ∀ (l : List PyStr) (s : Scan),
      (∀ f, Dict.get f (l.foldl (scanFile sha files) s).integrity.files =
        (Dict.get f s.integrity.files).or
          (if f ∈ l then (files f).map (computeFileHash sha) else none)) ∧
      ((l.foldl (scanFile sha files) s).hasAnomalies = true ↔ s.hasAnomalies = true ∨
        ∃ f ∈ l, ∃ file h, files f = some file ∧ Dict.get f s.integrity.files = some h ∧
          computeFileHash sha file ≠ h)
  | [], s => by simp
  | g :: l, s => by
    rw [List.foldl_cons]
    obtain ⟨hget, hanom⟩ := foldl_scanFile sha files l (scanFile sha files s g)
    -- what the first file does to the hashes and to the flag
    have hfirst : ∀ f, Dict.get f (scanFile sha files s g).integrity.files =
        (Dict.get f s.integrity.files).or
          (if f = g then (files f).map (computeFileHash sha) else none) := by
      intro f
      unfold scanFile
      cases hfile : files g with
      | none =>
        by_cases hf : f = g
        · simp [hf, hfile]
        · simp [hf]
      | some file =>
        cases hknown : Dict.get g s.integrity.files with
        | none =>
          by_cases hf : f = g
          · subst hf
            simp [hknown, hfile]
          · simp [Dict.get_set_ne (Ne.symm hf), hf]
        | some h =>
          have hsame : ∀ {s' : Scan}, s'.integrity = s.integrity →
              Dict.get f s'.integrity.files = (Dict.get f s.integrity.files).or
                (if f = g then (files f).map (computeFileHash sha) else none) := by
            intro s' heq
            rw [heq]
            by_cases hf : f = g
            · rw [hf, hknown]
              rfl
            · rw [if_neg hf, Option.or_none]
          simp only
          split
          · exact hsame rfl
          · exact hsame rfl
    have hflag : (scanFile sha files s g).hasAnomalies = true ↔ s.hasAnomalies = true ∨
        ∃ file h, files g = some file ∧ Dict.get g s.integrity.files = some h ∧
          computeFileHash sha file ≠ h := by
      unfold scanFile
      cases hfile : files g with
      | none => simp
      | some file =>
        cases hknown : Dict.get g s.integrity.files with
        | none => simp
        | some h =>
          by_cases heq : computeFileHash sha file = h <;> simp [heq]
    refine ⟨fun f => ?_, ?_⟩
    · rw [hget, hfirst, Option.or_assoc]
      congr 1
      by_cases hf : f = g
      · rw [if_pos hf, if_pos (List.mem_cons.mpr (Or.inl hf))]
        split <;> cases files f <;> rfl
      · simp [hf]
    · rw [hanom, hflag, or_assoc, List.exists_mem_cons_iff]
      refine or_congr_right (or_congr_right ?_)
      -- a hash that the first file took is its own, so it makes no anomaly later
      constructor
      · rintro ⟨f, hf, file, h, hfile, hknown, hne⟩
        rw [hfirst] at hknown
        cases hold : Dict.get f s.integrity.files with
        | some h' =>
          rw [hold] at hknown
          exact ⟨f, hf, file, h, hfile, hknown ▸ hold, hne⟩
        | none =>
          rw [hold, Option.none_or] at hknown
          split at hknown
          · rw [hfile] at hknown
            exact absurd (Option.some.inj hknown) hne
          · cases hknown
      · rintro ⟨f, hf, file, h, hfile, hknown, hne⟩
        refine ⟨f, hf, file, h, hfile, ?_, hne⟩
        rw [hfirst, hknown]
        rfl

theorem verifyIntegrity_spec (sha : Sha256) (w : Workspace) (call : VerifyCall) :
    (∀ f, (verifyIntegrity sha w call).2.known f = (w.known f).or
      (if f ∈ criticalFiles then (w.files f).map (computeFileHash sha) else none)) ∧
    ((verifyIntegrity sha w call).1.hasAnomalies = true ↔
      ∃ f ∈ criticalFiles, ∃ file h, w.files f = some file ∧ w.known f = some h ∧
        computeFileHash sha file ≠ h) := by
  obtain ⟨hget, hanom⟩ := foldl_scanFile sha w.files criticalFiles
    ⟨[], false, loadIntegrityData w, w.auditLog⟩
  refine ⟨hget, hanom.trans ?_⟩
  simp only [Bool.false_eq_true, false_or]
  rfl

/-- An update takes the hash of every file that is there. -/
theorem foldl_takeHash (sha : Sha256) (files : PyStr → Option TextFile) :
    ∀ (l : List PyStr) (st : List (PyStr × PyStr) × List PyStr) (f : PyStr),
      Dict.get f (l.foldl (takeHash sha files) st).1 =
        (if f ∈ l then (files f).map (computeFileHash sha) else none).or (Dict.get f st.1)
  | [], st, f => by simp
  | g :: l, st, f => by
    rw [List.foldl_cons, foldl_takeHash sha files l]
    have hfirst : Dict.get f (takeHash sha files st g).1 =
        (if f = g then (files f).map (computeFileHash sha) else none).or (Dict.get f st.1) := by
      unfold takeHash
      by_cases hf : f = g
      · subst hf
        cases hfile : files f with
        | none => simp
        | some file =>
          by_cases heq : some (computeFileHash sha file) = Dict.get f st.1
          · simp [← heq]
          · simp [heq]
      · cases hfile : files g with
        | none => simp [hf]
        | some file =>
          by_cases heq : some (computeFileHash sha file) = Dict.get g st.1
          · simp [heq, hf]
          · simp [heq, hf, Dict.get_set_ne (Ne.symm hf)]
    rw [hfirst]
    by_cases hf : f = g
    · rw [if_pos hf, if_pos (List.mem_cons.mpr (Or.inl hf))]
      split <;> cases files f <;> rfl
    · simp [hf]

/-- An update that is refused changes nothing; one that is not takes the hash of every
critical file that is there. -/
theorem updateBaseline_spec (sha : Sha256) (upper : PyStr → PyStr) (w : Workspace)
    (call : UpdateCall) :
    ((updateBaseline sha upper w call).1.1 = false ∧ (updateBaseline sha upper w call).2 = w) ∨
    ((updateBaseline sha upper w call).1.1 = true ∧
      (updateBaseline sha upper w call).2.files = w.files ∧
      ∀ f, (updateBaseline sha upper w call).2.known f =
        (if f ∈ criticalFiles then (w.files f).map (computeFileHash sha) else none).or
          (w.known f)) := by
  unfold updateBaseline
  simp only
  split
  · next h => exact Or.inl ⟨h.2, rfl⟩
  · split
    · exact Or.inl ⟨rfl, rfl⟩
    · exact Or.inr ⟨rfl, rfl, fun f => foldl_takeHash sha w.files criticalFiles _ f⟩

/-! ### Runs -/

/-- The workspace, and every file that has a hash as it was when the hash was taken. -/
structure Monitored where
  workspace : Workspace
  recorded : PyStr → Option TextFile

/-- What happens to the critical files, and the calls. -/
inductive SecurityStep
  | write (filename : PyStr) (file : TextFile)
  | delete (filename : PyStr)
  | verify (call : VerifyCall)
  | update (call : UpdateCall)

/-- A step.  A scan takes the files that have no hash yet; an update that is not refused takes
every critical file that is there. -/
def Monitored.step (sha : Sha256) (upper : PyStr → PyStr) (m : Monitored) :
    SecurityStep → Monitored
  | .write filename file =>
    { m with workspace :=
        { m.workspace with files := Function.update m.workspace.files filename (some file) } }
  | .delete filename =>
    { m with workspace :=
        { m.workspace with files := Function.update m.workspace.files filename none } }
  | .verify call =>
    { workspace := (verifyIntegrity sha m.workspace call).2
      recorded := fun f =>
        (m.recorded f).or (if f ∈ criticalFiles then m.workspace.files f else none) }
  | .update call =>
    let r := updateBaseline sha upper m.workspace call
    { workspace := r.2
      recorded :=
        if r.1.1 then fun f =>
          (if f ∈ criticalFiles then m.workspace.files f else none).or (m.recorded f)
        else m.recorded }

/-- Any files, and no hashes. -/
def Monitored.start (files : PyStr → Option TextFile) : Monitored :=
  ⟨⟨files, none, []⟩, fun _ => none⟩

/-- Some critical file that has a hash is missing or has other bytes. -/
def Monitored.Changed (m : Monitored) : Prop :=
  ∃ f ∈ criticalFiles, ∃ old, m.recorded f = some old ∧
    (m.workspace.files f = none ∨ ∃ file, m.workspace.files f = some file ∧ file.bytes ≠ old.bytes)

/-- **A scan tells truly**: it reports an anomaly iff a file that has a hash is not what it
was, and it leaves the hashes that there are. -/
def TellsTruly (sha : Sha256) (m : Monitored) : SecurityStep → Prop
  | .verify call =>
    ((verifyIntegrity sha m.workspace call).1.hasAnomalies = true ↔ m.Changed) ∧
      ∀ f h, m.workspace.known f = some h →
        (verifyIntegrity sha m.workspace call).2.known f = some h
  | _ => True

/-- A recorded file is there with another text, its line endings aside. -/
def Monitored.Rewritten (m : Monitored) : Prop :=
  ∃ f ∈ criticalFiles, ∃ old file, m.recorded f = some old ∧ m.workspace.files f = some file ∧
    file.content ≠ old.content

/-- **When a scan is made, either some recorded file has another text, or no recorded file is
missing and none differs in its line endings.** -/
def Noticeable (m : Monitored) : SecurityStep → Prop
  | .verify _ =>
    m.Rewritten ∨ ∀ f ∈ criticalFiles, ∀ old, m.recorded f = some old →
      ∃ file, m.workspace.files f = some file ∧
        (file.content = old.content → file.bytes = old.bytes)
  | _ => True

/-- The hashes are those of the files as they were. -/
def Monitored.Sound (sha : Sha256) (m : Monitored) : Prop :=
  ∀ f, m.workspace.known f = (m.recorded f).map (computeFileHash sha)

/-- **Every step keeps the hashes those of the recorded files.** -/
theorem sound_step (sha : Sha256) (upper : PyStr → PyStr) (m : Monitored) (i : SecurityStep)
    (h : m.Sound sha) : (m.step sha upper i).Sound sha := by
  intro f
  cases i with
  | write filename file => exact h f
  | delete filename => exact h f
  | verify call =>
    have hknown := (verifyIntegrity_spec sha m.workspace call).1 f
    simp only [Monitored.step]
    rw [hknown, h f]
    cases m.recorded f with
    | some old => rfl
    | none => split <;> rfl
  | update call =>
    simp only [Monitored.step]
    obtain ⟨hrefused, hsame⟩ | ⟨hdone, -, hknown⟩ :=
      updateBaseline_spec sha upper m.workspace call
    · rw [hrefused, hsame]
      exact h f
    · rw [hknown f, h f, hdone, if_pos rfl]
      split
      · cases m.workspace.files f <;> rfl
      · rfl

/-- Another hash is another text. -/
theorem computeFileHash_eq_iff {sha : Sha256} (hinj : Function.Injective sha) {a b : TextFile} :
    computeFileHash sha a = computeFileHash sha b ↔ a.content = b.content := by
  constructor
  · intro h
    exact utf8Bytes_inj a.encodable_content b.encodable_content (hexdigest_injective hinj h)
  · intro h
    rw [computeFileHash, computeFileHash, h]

/-- A scan reports an anomaly iff a recorded file has another text. -/
theorem hasAnomalies_iff {sha : Sha256} (hinj : Function.Injective sha) {m : Monitored}
    (h : m.Sound sha) (call : VerifyCall) :
    (verifyIntegrity sha m.workspace call).1.hasAnomalies = true ↔ m.Rewritten := by
  rw [(verifyIntegrity_spec sha m.workspace call).2]
  constructor
  · rintro ⟨f, hf, file, k, hfile, hknown, hne⟩
    rw [h f] at hknown
    obtain ⟨old, hold, rfl⟩ := Option.map_eq_some_iff.mp hknown
    exact ⟨f, hf, old, file, hold, hfile, fun heq => hne ((computeFileHash_eq_iff hinj).mpr heq)⟩
  · rintro ⟨f, hf, old, file, hold, hfile, hne⟩
    refine ⟨f, hf, file, computeFileHash sha old, hfile, ?_, fun heq => ?_⟩
    · rw [h f, hold]
      rfl
    · exact hne ((computeFileHash_eq_iff hinj).mp heq)

/-- **A scan tells truly exactly when what changed can be noticed.** -/
theorem tellsTruly_iff {sha : Sha256} (hinj : Function.Injective sha) {m : Monitored}
    (h : m.Sound sha) (i : SecurityStep) : TellsTruly sha m i ↔ Noticeable m i := by
  cases i with
  | verify call =>
    have hkeeps : ∀ f k, m.workspace.known f = some k →
        (verifyIntegrity sha m.workspace call).2.known f = some k := by
      intro f k hk
      rw [(verifyIntegrity_spec sha m.workspace call).1 f, hk]
      rfl
    simp only [TellsTruly, Noticeable]
    rw [hasAnomalies_iff hinj h]
    constructor
    · rintro ⟨hiff, -⟩
      by_cases hre : m.Rewritten
      · exact Or.inl hre
      · -- nothing was rewritten, so nothing changed at all
        refine Or.inr fun f hf old hold => ?_
        have hsame : ¬ m.Changed := fun hch => hre (hiff.mpr hch)
        cases hfile : m.workspace.files f with
        | none => exact absurd ⟨f, hf, old, hold, Or.inl hfile⟩ hsame
        | some file =>
          refine ⟨file, rfl, fun _ => ?_⟩
          by_contra hne
          exact hsame ⟨f, hf, old, hold, Or.inr ⟨file, hfile, hne⟩⟩
    · intro hcond
      refine ⟨⟨?_, fun hch => ?_⟩, hkeeps⟩
      · rintro ⟨f, hf, old, file, hold, hfile, hne⟩
        refine ⟨f, hf, old, hold, Or.inr ⟨file, hfile, fun hbytes => hne ?_⟩⟩
        rw [TextFile.ext_bytes hbytes]
      · rcases hcond with hre | hall
        · exact hre
        · obtain ⟨f, hf, old, hold, hch⟩ := hch
          obtain ⟨file, hfile, himp⟩ := hall f hf old hold
          refine ⟨f, hf, old, file, hold, hfile, fun heq => ?_⟩
          rcases hch with hnone | ⟨file', hfile', hne⟩
          · rw [hfile] at hnone
            cases hnone
          · rw [hfile] at hfile'
            exact hne (Option.some.inj hfile' ▸ himp heq)
  | _ => exact Iff.rfl

/-- **The scans of a run tell truly exactly when every change among the recorded files is
noticeable**: a file that is missing, or differs in its line endings alone, is not reported,
unless another has a new text. -/
theorem tellsTruly_along_iff {sha : Sha256} (hinj : Function.Injective sha)
    (upper : PyStr → PyStr) (files : PyStr → Option TextFile) (is : List SecurityStep) :
    Run.Along (Monitored.step sha upper) (TellsTruly sha) (Monitored.start files) is ↔
      Run.Along (Monitored.step sha upper) Noticeable (Monitored.start files) is := by
  have hstart : (Monitored.start files).Sound sha := fun _ => rfl
  exact Run.along_congr (fun m i => sound_step sha upper m i)
    (fun m i hm => tellsTruly_iff hinj hm i) hstart is

/-! ### A file that is deleted -/

/-- An empty file. -/
def emptyFile : TextFile := ⟨[], [], rfl⟩

/-- A scan call. -/
def sampleCall : VerifyCall := ⟨[], py "2026-01-02T03:04:05+00:00"⟩

/-- A file is scanned, deleted and scanned again. -/
def deletion : List SecurityStep :=
  [.write (py "src/dsm/core/models.py") emptyFile, .verify sampleCall,
    .delete (py "src/dsm/core/models.py"), .verify sampleCall]

/-- What the scans of the sample are worth. -/
theorem tellsTruly_along_sample :
    Run.Along (Monitored.step nibbles id) (TellsTruly nibbles) (Monitored.start fun _ => none)
        deletion ↔
      Run.Along (Monitored.step nibbles id) Noticeable (Monitored.start fun _ => none) deletion :=
  tellsTruly_along_iff nibbles_injective id (fun _ => none) deletion

/-- **The deletion of a recorded file is not reported.** -/
theorem deletion_unnoticed :
    ¬ Run.Along (Monitored.step nibbles id) (TellsTruly nibbles) (Monitored.start fun _ => none)
      deletion := by
  rintro ⟨-, -, -, ⟨htruly, -⟩, -⟩
  have hquiet : (verifyIntegrity nibbles
      (Run.run (Monitored.step nibbles id) (Monitored.start fun _ => none)
        (deletion.take 3)).workspace sampleCall).1.hasAnomalies = false := by decide +kernel
  have hchanged : (Run.run (Monitored.step nibbles id) (Monitored.start fun _ => none)
      (deletion.take 3)).Changed :=
    ⟨py "src/dsm/core/models.py", by decide, emptyFile, by rfl, Or.inl (by rfl)⟩
  exact Bool.false_ne_true (hquiet.symm.trans (htruly.mpr hchanged))

end Security

end Daryl
