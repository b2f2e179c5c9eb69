import Daryl.Mesh.Results

/-!
# Workers

A worker registers, signs what its model answers and submits it; the server builds the signed
payload again from what it knows.  What carries the body of a submission to the route, an HTTP
client and the validation of the request, is a parameter.

## Main definitions

* `Ed25519` — a signature scheme in which a signature is valid for one message and one key.
* `WorkerConfig`, `WorkerConfig.registered` — a worker, and what it holds after `register`.
* `signResult`, `submissionBody`, `submit` — `sign_result` and `submit`, up to the request the
  route gets.
* `Transport` — a submission arrives as it was sent, if it arrives.
* `Agrees` — the server has the key and the key id that the worker holds.
* `WritesVouched` — what stands behind a verified result that is written.

## Main results

* `jsonTransport` — JSON that is not escaped is such a transport.
* `accepted_iff` — **a result is accepted exactly when server and worker agree on the key and
  the answer of the model has no surrogate.**
* `agreement` — **the claim of both sides over runs.**
* `stale_key_rejected` — a worker that is registered already and holds another key id.
-/

namespace Daryl

open Py Json Run

namespace Mesh

variable {F : Type} [PyFloat F]

/-! ### Signatures -/

/-- Ed25519 over base64 texts.  What a key signs is valid under that key and no other, and no
signature is valid for two messages. -/
structure Ed25519 where
  Key : Type
  decode : PyStr → Option Key
  publicOf : Text → PyStr
  sign : List Byte → Text → Text
  verify : List Byte → PyStr → PyStr → Bool
  verify_sign : ∀ m m' sk pk, verify m (sign m' sk).val pk = true ↔
    m = m' ∧ decode pk = decode (publicOf sk)
  binding : ∀ m m' sig pk, verify m sig pk = true → verify m' sig pk = true → m = m'

/-- The server checks signatures of the scheme. -/
def Ed25519.deploy (e : Ed25519) (d : Deployment) : Deployment := { d with verifyBytes := e.verify }

/-! ### The worker -/

/-- `WorkerConfig`, as far as signing and registering go. -/
structure WorkerConfig (e : Ed25519) where
  agentId : Text
  capabilities : List Text
  privateKey : Text
  publicKey : Text
  keyId : Text
  paired : e.decode publicKey.val = e.decode (e.publicOf privateKey)

/-- The body of `POST /agents/register`. -/
def WorkerConfig.body {e : Ed25519} (cfg : WorkerConfig e) : RegisterAgentRequest :=
  ⟨cfg.agentId, ⟨py "worker", by decide⟩, cfg.capabilities, cfg.publicKey⟩

/-- `register`, from the answer on: a 201 has a `key_id`, a 409 has none, and any other answer
is raised. -/
def WorkerConfig.registered {e : Ed25519} (cfg : WorkerConfig e) :
    Answer F → Option (WorkerConfig e)
  | .registered keyId _ => some { cfg with keyId := keyId }
  | .http 409 _ => some cfg
  | _ => none

/-- `SignedResult`. -/
structure SignedResult (F : Type) [PyFloat F] where
  contentDict : PyVal F
  contentHash : Text
  payloadHash : Text
  signature : Text
  createdAt : Text

/-- `{"text": content, "agent_id": agent_id}`. -/
def contentDict (content : PyStr) (agentId : Text) : PyVal F :=
  .dict (strItems [(py "text", .str content), (py "agent_id", .str agentId.val)])

/-- `_sha256`. -/
def sha256Text (sha : Sha256) (bs : List Byte) : Text :=
  ⟨v1Prefix ++ hexdigest sha bs, encodable_hash sha bs⟩

/-- `sign_result`. -/
def signResult (F : Type) [PyFloat F] {e : Ed25519} (sha : Sha256) (cfg : WorkerConfig e)
    (taskId missionId : Text) (content : PyStr) (contributionId signedAt : Text) :
    Except DumpsError (SignedResult F) := do
  let bytes ← canonicalJson (F := F) (contentDict content cfg.agentId)
  let contentHash := sha256Text sha bytes
  let canonical ← canonicalJson (F := F) (signingPayload cfg.agentId cfg.keyId missionId taskId
    contributionId contentHash signedAt)
  return {
    contentDict := contentDict content cfg.agentId
    contentHash := contentHash
    payloadHash := sha256Text sha canonical
    signature := e.sign canonical cfg.privateKey
    createdAt := signedAt }

/-- The items of the body of a submission. -/
def submissionItems {e : Ed25519} (cfg : WorkerConfig e) (result : SignedResult F)
    (contributionId : Text) (confidence : F) : List (PyStr × PyVal F) :=
  [(py "agent_id", .str cfg.agentId.val), (py "contribution_id", .str contributionId.val),
    (py "content", result.contentDict),
    (py "self_reported_confidence", .float (.finite confidence)),
    (py "signature", .str result.signature.val), (py "created_at", .str result.createdAt.val),
    (py "key_id", .str cfg.keyId.val), (py "payload_hash", .str result.payloadHash.val)]

/-- The body of a submission. -/
def submissionBody {e : Ed25519} (cfg : WorkerConfig e) (result : SignedResult F)
    (contributionId : Text) (confidence : F) : PyVal F :=
  .dict (strItems (submissionItems cfg result contributionId confidence))

/-- The content of a result, as the route gets it. -/
def workerContent (F : Type) [PyFloat F] (content : PyStr) (agentId : Text) : JsonDict F where
  items := strItems [(py "text", .str content), (py "agent_id", .str agentId.val)]
  json := form_strItems (by decide : [py "text", py "agent_id"].Nodup)

/-- The request that a submission arrives as. -/
def arrival {e : Ed25519} (cfg : WorkerConfig e) (result : SignedResult F) (content : PyStr)
    (contributionId : Text) (confidence : F) : SubmitTaskResultRequest F where
  agentId := cfg.agentId
  contributionId := contributionId
  content := workerContent F content cfg.agentId
  selfReportedConfidence := .finite confidence
  signature := result.signature
  createdAt := result.createdAt
  keyId := some cfg.keyId
  payloadHash := some result.payloadHash

/-- The client and the validation of the request.  A submission arrives as it was sent or not at
all, and it arrives when its content can be encoded. -/
structure Transport (F : Type) [PyFloat F] where
  deliver : PyVal F → Option (SubmitTaskResultRequest F)
  sent : ∀ {e : Ed25519} (cfg : WorkerConfig e) (result : SignedResult F) (content : PyStr)
    (contributionId : Text) (confidence : F),
    result.contentDict = contentDict content cfg.agentId →
      ∀ body ∈ deliver (submissionBody cfg result contributionId confidence),
        body = arrival cfg result content contributionId confidence
  arrives : ∀ {e : Ed25519} (cfg : WorkerConfig e) (result : SignedResult F) (content : PyStr)
    (contributionId : Text) (confidence : F),
    result.contentDict = contentDict content cfg.agentId → Encodable content →
      (deliver (submissionBody cfg result contributionId confidence)).isSome

/-- `submit`: the state after it, and the answer; `none` when the client raises or the body is
refused before the route. -/
def submit (net : Transport F) (d : Deployment) (s : AppState F) {e : Ed25519}
    (cfg : WorkerConfig e) (taskId : Text) (result : SignedResult F) (contributionId : Text)
    (confidence : F) (w : Attempt) : Option (AppState F × Answer F) :=
  (net.deliver (submissionBody cfg result contributionId confidence)).map
    fun body => submitTaskResult d s taskId body w

/-! ### A transport by JSON -/

/-- The style of the client: `ensure_ascii=False`, `allow_nan=False`, compact. -/
def httpStyle : Style := ⟨false, false, false⟩

/-- The body that arrives; `none` when the client raises. -/
def transmit (body : PyVal F) : Option (PyVal F) :=
  match dumps httpStyle body with
  | .ok text => if Encodable text then loads text else none
  | .error _ => none

/-- A field declared `str`. -/
def textOf : PyVal F → Option Text
  | .str s => if h : Encodable s then some ⟨s, h⟩ else none
  | _ => none

/-- A field declared `str | None`. -/
def optTextOf : Option (PyVal F) → Option (Option Text)
  | none | some .none => some none
  | some v => (textOf v).map some

/-- A field declared `dict`.  What was parsed is JSON, and is its own form. -/
def dictField : PyVal F → Option (JsonDict F)
  | .dict kvs => some ⟨dictOf (formItems kvs), by
      rw [← form]
      exact form_form (.dict kvs)⟩
  | _ => none

/-- A field declared `float`, of which a worker sends one. -/
def floatOf : PyVal F → Option (FloatVal F)
  | .float x => some x
  | _ => none

/-- The request that a body is validated to. -/
def parseSubmission : PyVal F → Option (SubmitTaskResultRequest F)
  | .dict kvs => do
    return {
      agentId := ← (dictGet (py "agent_id") kvs).bind textOf
      contributionId := ← (dictGet (py "contribution_id") kvs).bind textOf
      content := ← (dictGet (py "content") kvs).bind dictField
      selfReportedConfidence := ← (dictGet (py "self_reported_confidence") kvs).bind floatOf
      signature := ← (dictGet (py "signature") kvs).bind textOf
      createdAt := ← (dictGet (py "created_at") kvs).bind textOf
      keyId := ← optTextOf (dictGet (py "key_id") kvs)
      payloadHash := ← optTextOf (dictGet (py "payload_hash") kvs) }
  | _ => none

theorem encodable_contentDict {content : PyStr} (agentId : Text) :
    eachStr Encodable (contentDict content agentId : PyVal F) ↔ Encodable content := by
  have htext : Encodable (py "text") := by decide
  have hagent : Encodable (py "agent_id") := by decide
  simp [contentDict, strItems, eachStr, eachStrItems, Key.text, htext, hagent, agentId.2]

theorem dictField_contentDict (content : PyStr) (agentId : Text) :
    dictField (contentDict content agentId) = some (workerContent F content agentId) := by
  rw [contentDict, dictField]
  refine congrArg some ?_
  unfold workerContent
  congr 1

theorem exists_print_body {e : Ed25519} (cfg : WorkerConfig e) (result : SignedResult F)
    (content : PyStr) (hcontent : result.contentDict = contentDict content cfg.agentId)
    (contributionId : Text) (confidence : F) :
    ∃ t, print httpStyle (submissionBody cfg result contributionId confidence) = some t := by
  simp [submissionBody, submissionItems, hcontent, contentDict, strItems, print, printItems,
    printItemsTail, printKey, printFloat]

theorem encodable_body {e : Ed25519} (cfg : WorkerConfig e) (result : SignedResult F)
    (content : PyStr) (hcontent : result.contentDict = contentDict content cfg.agentId)
    (contributionId : Text) (confidence : F) :
    eachStr Encodable (submissionBody cfg result contributionId confidence) ↔ Encodable content := by
  have htext (t : Text) : Encodable t.val := t.2
  rw [← encodable_contentDict (F := F) cfg.agentId, submissionBody, submissionItems, hcontent]
  simp +decide only [strItems, List.map_cons, List.map_nil, eachStr, eachStrItems, Key.text, htext,
    true_and, and_true]

/-- **A submission arrives as it was sent**, unless the answer of the model has a surrogate. -/
theorem parseSubmission_transmit {e : Ed25519} (cfg : WorkerConfig e) (result : SignedResult F)
    (content : PyStr) (hcontent : result.contentDict = contentDict content cfg.agentId)
    (contributionId : Text) (confidence : F) :
    (transmit (submissionBody cfg result contributionId confidence)).bind parseSubmission =
      if Encodable content then some (arrival cfg result content contributionId confidence)
      else none := by
  obtain ⟨t, ht⟩ := exists_print_body cfg result content hcontent contributionId confidence
  have htext (t : Text) : textOf (F := F) (.str t.val) = some t := by rw [textOf, dif_pos t.2]
  rw [transmit, dumps_eq_ok.mpr ht]
  dsimp only
  have henc : Encodable t ↔ Encodable content := (encodable_print rfl ht).trans
    (encodable_body cfg result content hcontent contributionId confidence)
  by_cases hc : Encodable content
  · -- the body is read back as it was sent, and each field is where the parser looks
    have hkeys : ((submissionItems cfg result contributionId confidence).map Prod.fst).Nodup :=
      (by decide : [py "agent_id", py "contribution_id", py "content",
        py "self_reported_confidence", py "signature", py "created_at", py "key_id",
        py "payload_hash"].Nodup)
    have hform : form (submissionBody cfg result contributionId confidence) =
        submissionBody cfg result contributionId confidence := by
      rw [submissionBody, form_strItems hkeys, submissionItems, hcontent]
      have hdict : form (contentDict content cfg.agentId : PyVal F) =
          contentDict content cfg.agentId := (workerContent F content cfg.agentId).json
      simp only [List.map_cons, List.map_nil, hdict, form]
    rw [if_pos (henc.mpr hc), if_pos hc, loads_print ht (by simp [httpStyle]), hform]
    have hget {k : PyStr} {v : PyVal F}
        (hmem : (k, v) ∈ submissionItems cfg result contributionId confidence) :
        dictGet k (strItems (submissionItems cfg result contributionId confidence) :
          List (Key F × PyVal F)) = some v :=
      dictGet_of_mem hkeys hmem
    have hid := hget (.head _)
    have hcontribution := hget (.tail _ (.head _))
    have hsent := hget (.tail _ (.tail _ (.head _)))
    have hconf := hget (.tail _ (.tail _ (.tail _ (.head _))))
    have hsig := hget (.tail _ (.tail _ (.tail _ (.tail _ (.head _)))))
    have hcreated := hget (.tail _ (.tail _ (.tail _ (.tail _ (.tail _ (.head _))))))
    have hkey := hget (.tail _ (.tail _ (.tail _ (.tail _ (.tail _ (.tail _ (.head _)))))))
    have hhash := hget (.tail _ (.tail _ (.tail _ (.tail _ (.tail _ (.tail _ (.tail _ (.head _))))))))
    rw [hcontent] at hsent
    rw [Option.bind_some, submissionBody, parseSubmission, hid, hcontribution, hsent, hconf, hsig,
      hcreated, hkey, hhash]
    simp only [Option.bind_some, htext, dictField_contentDict, floatOf, optTextOf, Option.map_some]
    rfl
  · -- a surrogate: there are no bytes to send
    rw [if_neg (mt henc.mp hc), if_neg hc]
    rfl

/-- JSON that is not escaped carries a submission. -/
def jsonTransport : Transport F where
  deliver body := (transmit body).bind parseSubmission
  sent cfg result content contributionId confidence hcontent body hbody := by
    rw [parseSubmission_transmit cfg result content hcontent] at hbody
    split_ifs at hbody
    · exact (Option.some.inj hbody).symm
    · cases hbody
  arrives cfg result content contributionId confidence hcontent hc := by
    rw [parseSubmission_transmit cfg result content hcontent, if_pos hc]
    rfl

/-! ### What is signed -/

/-- A dict of strings. -/
def strDict (F : Type) [PyFloat F] (ks ss : List PyStr) : PyVal F :=
  .dict (strItems (ks.zip (ss.map .str)))

theorem exists_canonical_strDict (ks ss : List PyStr) :
    ∃ bs, canonicalJson (strDict F ks ss) = .ok bs := by
  have hprintable : Printable canonicalStyle (strDict F ks ss) := by
    refine printable_object fun p hp => ?_
    obtain ⟨s, -, hs⟩ := List.mem_map.mp (List.of_mem_zip hp).2
    rw [← hs]
    exact ⟨_, _, rfl, rfl⟩
  obtain ⟨w, t, hw, ht⟩ := hprintable
  exact ⟨_, canonicalJson_eq_ok.mpr ⟨w, t, hw, ht, rfl⟩⟩

/-- **The canonical bytes of a dict of strings name every string.** -/
theorem strDict_injective {ks ss ss' : List PyStr} (hks : ks.Nodup) (hks' : ∀ k ∈ ks, Encodable k)
    (hss : ∀ s ∈ ss, Encodable s) (hss' : ∀ s ∈ ss', Encodable s) (hlen : ss.length = ks.length)
    (hlen' : ss'.length = ks.length) {bs : List Byte}
    (h : canonicalJson (strDict F ks ss) = .ok bs)
    (h' : canonicalJson (strDict F ks ss') = .ok bs) : ss = ss' := by
  have hjoined {ts : List PyStr} (hts : ∀ s ∈ ts, Encodable s) :
      eachStr Joined (strDict F ks ts) := by
    refine eachStr_mono (fun _ => joined_of_encodable) (encodable_object fun p hp => ?_)
    obtain ⟨hk, hv⟩ := List.of_mem_zip hp
    obtain ⟨s, hs, heq⟩ := List.mem_map.mp hv
    exact ⟨hks' _ hk, heq ▸ hts s hs⟩
  have hcanon := canon_eq_of_canonicalJson_eq h h' (hjoined hss) (hjoined hss')
  obtain ⟨w, -, hw, -⟩ := canonicalJson_eq_ok.mp h
  obtain ⟨w', -, hw', -⟩ := canonicalJson_eq_ok.mp h'
  have hback : readBack (strDict F ks ss) = readBack (strDict F ks ss') := by
    rw [canon, canon, hw, hw', Option.map_some, Option.map_some, Option.some.injEq] at hcanon
    rw [readBack_of_sortDicts hw, readBack_of_sortDicts hw', hcanon]
  have hkeys {ts : List PyStr} (hts : ts.length = ks.length) :
      ((ks.zip (ts.map (.str : PyStr → PyVal F))).map Prod.fst).Nodup := by
    rw [List.map_fst_zip (by simp [hts])]
    exact hks
  -- the strings at one place are read back under one key
  refine List.ext_getElem (hlen.trans hlen'.symm) fun i hi hi' => ?_
  have hik : i < ks.length := hlen ▸ hi
  have hmem {ts : List PyStr} (hts : ts.length = ks.length) (hit : i < ts.length) :
      (ks[i], .str ts[i]) ∈ ks.zip (ts.map (.str : PyStr → PyVal F)) := by
    rw [List.mem_iff_getElem]
    exact ⟨i, by simp [hts ▸ hit, hit], by simp⟩
  obtain ⟨kvs, hkvs, hget⟩ := dictGet_readBack (hkeys hlen) hw (hmem hlen hi)
  obtain ⟨kvs', hkvs', hget'⟩ := dictGet_readBack (hkeys hlen') hw' (hmem hlen' hi')
  obtain rfl := PyVal.dict.inj (hkvs.symm.trans (hback.trans hkvs'))
  exact PyVal.str.inj (Option.some.inj (hget.symm.trans hget'))

/-- The keys of what is signed. -/
def signingKeys : List PyStr :=
  [py "schema_version", py "agent_id", py "key_id", py "mission_id", py "task_id",
    py "contribution_id", py "contribution_type", py "content_hash", py "created_at"]

/-- **The bytes that are signed name every field.** -/
theorem signingPayload_injective {agentId keyId missionId taskId contributionId contentHash
    createdAt agentId' keyId' missionId' taskId' contributionId' contentHash' createdAt' : Text}
    {bs : List Byte}
    (h : canonicalJson (signingPayload (F := F) agentId keyId missionId taskId contributionId
      contentHash createdAt) = .ok bs)
    (h' : canonicalJson (signingPayload (F := F) agentId' keyId' missionId' taskId' contributionId'
      contentHash' createdAt') = .ok bs) :
    agentId = agentId' ∧ keyId = keyId' ∧ missionId = missionId' ∧ taskId = taskId' ∧
      contributionId = contributionId' ∧ contentHash = contentHash' ∧ createdAt = createdAt' := by
  have hstrings (a k m t c h u : Text) : ∀ s ∈ [py "signing.v1", a.val, k.val, m.val, t.val, c.val,
      py "task_result", h.val, u.val], Encodable s := by
    intro s hs
    simp only [List.mem_cons, List.not_mem_nil, or_false] at hs
    rcases hs with rfl | rfl | rfl | rfl | rfl | rfl | rfl | rfl | rfl
    · decide
    · exact a.2
    · exact k.2
    · exact m.2
    · exact t.2
    · exact c.2
    · decide
    · exact h.2
    · exact u.2
  have heq := strDict_injective (by decide : signingKeys.Nodup)
    (by decide : ∀ k ∈ signingKeys, Encodable k)
    (hstrings agentId keyId missionId taskId contributionId contentHash createdAt)
    (hstrings agentId' keyId' missionId' taskId' contributionId' contentHash' createdAt')
    rfl rfl h h'
  simp only [List.cons.injEq, Subtype.val_inj, true_and, and_true] at heq
  exact heq

/-- **A worker can always sign.** -/
theorem exists_signResult {e : Ed25519} (sha : Sha256) (cfg : WorkerConfig e)
    (taskId missionId : Text) (content : PyStr) (contributionId signedAt : Text) :
    ∃ bytes canonical, canonicalJson (contentDict content cfg.agentId : PyVal F) = .ok bytes ∧
      canonicalJson (signingPayload (F := F) cfg.agentId cfg.keyId missionId taskId contributionId
        (sha256Text sha bytes) signedAt) = .ok canonical ∧
      signResult F sha cfg taskId missionId content contributionId signedAt = .ok
        ⟨contentDict content cfg.agentId, sha256Text sha bytes, sha256Text sha canonical,
          e.sign canonical cfg.privateKey, signedAt⟩ := by
  obtain ⟨bytes, hbytes⟩ := exists_canonical_strDict (F := F) [py "text", py "agent_id"]
    [content, cfg.agentId.val]
  obtain ⟨canonical, hcanonical⟩ := exists_canonical_strDict (F := F) signingKeys
    [py "signing.v1", cfg.agentId.val, cfg.keyId.val, missionId.val, taskId.val,
      contributionId.val, py "task_result", (sha256Text sha bytes).val, signedAt.val]
  refine ⟨bytes, canonical, hbytes, hcanonical, ?_⟩
  change canonicalJson (contentDict content cfg.agentId : PyVal F) = .ok bytes at hbytes
  change canonicalJson (signingPayload (F := F) cfg.agentId cfg.keyId missionId taskId
    contributionId (sha256Text sha bytes) signedAt) = .ok canonical at hcanonical
  rw [signResult, hbytes]
  simp only [bind, Except.bind, hcanonical]
  rfl

/-! ### What the server accepts -/

theorem verifyContribution_eq_none {d : Deployment} {keys : List (Text × Text)} {agentId : Text}
    {payload : PyVal F} {signature : Text} :
    verifyContribution d keys agentId payload signature = .ok none ↔
      ∃ pk bs, Dict.get agentId keys = some pk ∧ canonicalJson payload = .ok bs ∧
        d.verifyBytes bs signature.val pk.val = true := by
  unfold verifyContribution
  cases Dict.get agentId keys with
  | none => simp
  | some pk =>
    cases canonicalJson payload with
    | error err => simp
    | ok bs => by_cases hv : d.verifyBytes bs signature.val pk.val = true <;> simp [hv]

theorem computeContentHash_eq_ok {sha : Sha256} {content : JsonDict F} {hash : Text} :
    computeContentHash sha content = .ok hash ↔
      ∃ bs, canonicalJson content.toPy = .ok bs ∧ hash = sha256Text sha bs := by
  unfold computeContentHash
  cases canonicalJson content.toPy with
  | error err => simp
  | ok bs => simp [sha256Text, eq_comm]

/-- The server has the key id that the worker holds, and the key it signs with. -/
def Agrees {e : Ed25519} (s : AppState F) (cfg : WorkerConfig e) : Prop :=
  Dict.get cfg.agentId s.keyIds = some cfg.keyId ∧
    ∃ pk, Dict.get cfg.agentId s.keys = some pk ∧ e.decode pk.val = e.decode cfg.publicKey.val

/-- The answer of the model is small enough for the route. -/
def WithinLimit (F : Type) [PyFloat F] (d : Deployment) (content : PyStr) (agentId : Text) : Prop :=
  ∃ text, dumps spacedStyle (contentDict content agentId : PyVal F) = .ok text ∧
    (text.length : ℤ) ≤ d.maxResultContentBytes

/-- What a worker sends is accepted. -/
def SubmissionAccepted (net : Transport F) (d : Deployment) (s : AppState F) {e : Ed25519}
    (cfg : WorkerConfig e) (taskId : Text) (result : SignedResult F) (contributionId : Text)
    (confidence : F) (w : Attempt) : Prop :=
  ∃ s' eventId receiptId entryHash, submit net d s cfg taskId result contributionId confidence w =
    some (s', .submitted taskId eventId receiptId entryHash)

/-- The route answers 201 exactly when the checks pass. -/
theorem submitted_iff {d : Deployment} {s : AppState F} {taskId : Text}
    {body : SubmitTaskResultRequest F} {w : Attempt} :
    (∃ s' eventId receiptId entryHash, submitTaskResult d s taskId body w =
      (s', .submitted taskId eventId receiptId entryHash)) ↔
    ∃ task keyId contentHash, Accepted d s taskId body w task keyId contentHash := by
  rcases submit_cases d s taskId body w with ⟨task, keyId, contentHash, l, hacc, -, hs⟩ |
    ⟨hno, -, hanswer⟩
  · exact iff_of_true ⟨_, _, _, _, hs⟩ ⟨task, keyId, contentHash, hacc⟩
  · refine iff_of_false ?_ fun ⟨task, keyId, contentHash, hacc⟩ => hno task keyId contentHash hacc
    rintro ⟨s', eventId, receiptId, entryHash, hs⟩
    exact hanswer taskId eventId receiptId entryHash (congrArg Prod.snd hs)

/-- **A result is accepted exactly when server and worker agree on the key and its identifier,
and the answer of the model has no surrogate.** -/
theorem accepted_iff (net : Transport F) {e : Ed25519} {d : Deployment} {s : AppState F}
    (cfg : WorkerConfig e) {taskId : Text} {task : Task F}
    (htask : Dict.get taskId s.tasks = some task)
    (howner : task.assignedTo = some cfg.agentId) {content : PyStr}
    (hsize : WithinLimit F d content cfg.agentId) {contributionId signedAt : Text}
    {result : SignedResult F} (hsign : signResult F d.sha cfg taskId task.missionId content
      contributionId signedAt = .ok result) (confidence : F) {w : Attempt}
    (hw : w.refuse = false) :
    SubmissionAccepted net (e.deploy d) s cfg taskId result contributionId confidence w ↔
      Agrees s cfg ∧ Encodable content := by
  obtain ⟨bytes, canonical, hbytes, hcanonical, hok⟩ := exists_signResult (F := F) d.sha cfg taskId
    task.missionId content contributionId signedAt
  obtain rfl := Except.ok.inj (hok.symm.trans hsign)
  set result : SignedResult F := ⟨contentDict content cfg.agentId, sha256Text d.sha bytes,
    sha256Text d.sha canonical, e.sign canonical cfg.privateKey, signedAt⟩
  cases hdelivered : net.deliver (submissionBody cfg result contributionId confidence) with
  | none =>
    -- only a content with a surrogate is not delivered
    rw [SubmissionAccepted, submit, hdelivered]
    refine iff_of_false (by simp) fun h => ?_
    have hsome := net.arrives cfg result content contributionId confidence rfl h.2
    rw [hdelivered] at hsome
    cases hsome
  | some body =>
  obtain rfl := net.sent cfg result content contributionId confidence rfl body hdelivered
  rw [SubmissionAccepted, submit, hdelivered, Option.map_some]
  simp only [Option.some.injEq]
  rw [submitted_iff]
  constructor
  · rintro ⟨task', keyId, contentHash, hacc⟩
    obtain rfl := Option.some.inj (htask.symm.trans hacc.found)
    obtain ⟨bytes', hbytes', rfl⟩ := computeContentHash_eq_ok.mp hacc.hashed
    obtain rfl := Except.ok.inj (hbytes.symm.trans hbytes')
    -- the key id that the worker sends is compared with the server's
    have hkeyId : cfg.keyId = keyId := Option.some.inj (hacc.named.resolve_left nofun)
    obtain ⟨pk, bs, hpk, hbs, hverify⟩ := verifyContribution_eq_none.mp hacc.signature
    obtain ⟨-, hkey⟩ := (e.verify_sign _ _ _ _).mp hverify
    have hknown := hacc.known
    rw [← hkeyId] at hknown
    -- the route writes the content, which is the one of the worker
    exact ⟨⟨hknown, pk, hpk, hkey.trans cfg.paired.symm⟩,
      (encodable_contentDict cfg.agentId).mp hacc.encodes⟩
  · rintro ⟨⟨hkeyId, pk, hpk, hkey⟩, hc⟩
    have hverify : verifyContribution (e.deploy d) s.keys cfg.agentId (signingPayload (F := F)
        cfg.agentId cfg.keyId task.missionId taskId contributionId (sha256Text d.sha bytes)
        signedAt) (e.sign canonical cfg.privateKey) = .ok none :=
      verifyContribution_eq_none.mpr ⟨pk, canonical, hpk, hcanonical,
        (e.verify_sign _ _ _ _).mpr ⟨rfl, hkey.trans cfg.paired⟩⟩
    exact ⟨task, cfg.keyId, sha256Text d.sha bytes, htask, hkeyId, howner, hsize,
      computeContentHash_eq_ok.mpr ⟨bytes, hbytes, rfl⟩, hverify, .inr rfl, hw,
      (encodable_contentDict cfg.agentId).mpr hc⟩

/-! ### Keys stay -/

/-- **No request changes the key of an agent that has one.** -/
theorem keys_serve {d : Deployment} {s : AppState F} (h : Coherent d s) (r : Request F) {id : Text}
    (hid : (Dict.get id s.registry).isSome) :
    (Dict.get id (serve d s r).registry).isSome ∧
      Dict.get id (serve d s r).keys = Dict.get id s.keys ∧
      Dict.get id (serve d s r).keyIds = Dict.get id s.keyIds := by
  cases r with
  | register body w =>
    rw [serve, handle]
    rcases registerAgent_cases d s body w with ⟨-, hs⟩ | ⟨hreg, hkey, -⟩ | ⟨hreg, -, hs⟩
    · rw [hs]; exact ⟨hid, rfl, rfl⟩
    · rw [h.keys.registered, hreg] at hkey
      exact absurd hkey Bool.false_ne_true
    · -- only an agent that is new gets a key
      have hne : body.agentId ≠ id := fun heq => by simp [← heq, hreg] at hid
      rw [hs]
      dsimp only [AppState.register, AppState.registerKey]
      rw [Dict.get_set_ne hne, Dict.get_set_ne hne, Dict.get_set_ne hne]
      exact ⟨hid, rfl, rfl⟩
  | createMission body w =>
    rw [serve, handle]
    rcases createMission_cases d s body w with hs | ⟨l, -, hs⟩ <;> rw [hs] <;> exact ⟨hid, rfl, rfl⟩
  | createTask body w w' =>
    rw [serve, handle]
    rcases createTask_cases d s body w w' with ⟨-, hs⟩ | ⟨-, -, hs⟩ |
      ⟨-, -, l, -, ⟨-, hs⟩ | ⟨a, n, -, hs⟩⟩ <;> rw [hs] <;> exact ⟨hid, rfl, rfl⟩
  | nextTask agentId capabilities => exact ⟨hid, rfl, rfl⟩
  | submit taskId body w =>
    rw [serve, handle]
    rcases submit_cases d s taskId body w with ⟨task, keyId, contentHash, l, -, -, hs⟩ |
      ⟨-, ⟨n, -, hs⟩, -⟩ <;> rw [hs] <;> exact ⟨hid, rfl, rfl⟩
  | getContext index query w =>
    obtain ⟨n, ls, -, -, hs⟩ := getContext_cases d s index query w
    rw [serve, handle, hs]
    exact ⟨hid, rfl, rfl⟩

theorem coherent_run {d : Deployment} {s : AppState F} (h : Coherent d s) (is : List (Request F)) :
    Coherent d (run (serve d) s is) := 
  run_keeps (P := Coherent d) (fun _ r hs => coherent_serve hs r) h is

/-- What a worker and the server agree on, or do not agree on, stays so. -/
theorem agrees_run {e : Ed25519} {d : Deployment} {s : AppState F} (h : Coherent d s)
    {cfg : WorkerConfig e} (hid : (Dict.get cfg.agentId s.registry).isSome)
    (is : List (Request F)) : Agrees (run (serve d) s is) cfg ↔ Agrees s cfg := by
  induction is generalizing s with
  | nil => exact Iff.rfl
  | cons r is ih =>
    obtain ⟨hid', hkeys, hkeyIds⟩ := keys_serve h r hid
    rw [run_cons, ih (coherent_serve h r) hid', Agrees, Agrees, hkeys, hkeyIds]

/-- **What `register` leaves a worker with**: a new agent holds the key id of the server, and one
that is registered already keeps its own. -/
theorem registered_agrees {e : Ed25519} {d : Deployment} {s : AppState F} (h : Coherent d s)
    {cfg cfg' : WorkerConfig e} {w : Attempt}
    (hreg : cfg.registered (handle d s (.register cfg.body w)).2 = some cfg') :
    cfg'.agentId = cfg.agentId ∧
      (Dict.get cfg.agentId (serve d s (.register cfg.body w)).registry).isSome ∧
      (Agrees (serve d s (.register cfg.body w)) cfg' ↔
        Dict.get cfg.agentId s.registry = none ∨ Agrees s cfg) := by
  rw [serve, handle] at *
  rw [registerAgent] at hreg ⊢
  by_cases hold : (Dict.get cfg.body.agentId s.registry).isSome
  · -- 409
    rw [if_pos hold] at hreg ⊢
    obtain rfl := Option.some.inj hreg
    have hsome : Dict.get cfg.agentId s.registry ≠ none := Option.isSome_iff_ne_none.mp hold
    exact ⟨rfl, hold, (or_iff_right hsome).symm⟩
  rw [if_neg hold] at hreg ⊢
  have hnone : Dict.get cfg.agentId s.registry = none := Option.not_isSome_iff_eq_none.mp hold
  have hkey : (Dict.get cfg.body.agentId s.keys).isSome ≠ true := by
    change (Dict.get cfg.agentId s.keys).isSome ≠ true
    simp [h.keys.registered, hnone]
  dsimp only at hreg ⊢
  rw [if_neg hkey] at hreg ⊢
  cases hwrite : write w.refuse (registrationEvent d s cfg.body w) with
  | refused =>
    rw [hwrite] at hreg
    cases hreg
  | raised err =>
    rw [hwrite] at hreg
    cases hreg
  | written l =>
    rw [hwrite] at hreg
    obtain rfl := Option.some.inj hreg
    refine ⟨rfl, ?_, iff_of_true ?_ (.inl hnone)⟩
    · simp [AppState.register, AppState.registerKey, WorkerConfig.body]
    · exact ⟨by simp [AppState.register, AppState.registerKey, WorkerConfig.body],
        cfg.publicKey, by simp [AppState.register, AppState.registerKey, WorkerConfig.body], rfl⟩

/-- A worker that is new gets the key id of the server. -/
theorem registered_of_new {e : Ed25519} {d : Deployment} {s : AppState F} (h : Coherent d s)
    (cfg : WorkerConfig e) {w : Attempt} (hnone : Dict.get cfg.agentId s.registry = none)
    (hw : w.refuse = false) : cfg.registered (handle d s (.register cfg.body w)).2 =
      some { cfg with keyId := deriveKeyId d.sha cfg.publicKey } := by
  have hold : (Dict.get cfg.body.agentId s.registry).isSome ≠ true := by
    change (Dict.get cfg.agentId s.registry).isSome ≠ true
    simp [hnone]
  have hkey : (Dict.get cfg.body.agentId s.keys).isSome ≠ true := by
    change (Dict.get cfg.agentId s.keys).isSome ≠ true
    simp [h.keys.registered, hnone]
  rw [handle, registerAgent, if_neg hold]
  dsimp only
  rw [if_neg hkey]
  rcases write_cases w.refuse (registrationEvent d s cfg.body w) with ⟨href, -⟩ | ⟨-, henc, -⟩ |
    ⟨-, -, l, -, hl⟩
  · exact absurd (hw.symm.trans href) Bool.false_ne_true
  · exact absurd trivial henc
  · rw [hl]
    rfl

/-- A worker that is registered already keeps the key id it has. -/
theorem registered_of_known {e : Ed25519} (d : Deployment) {s : AppState F}
    (cfg : WorkerConfig e) (w : Attempt) (h : (Dict.get cfg.agentId s.registry).isSome) :
    cfg.registered (handle d s (.register cfg.body w)).2 = some cfg := by
  have hbody : (Dict.get cfg.body.agentId s.registry).isSome := h
  rw [handle, registerAgent, if_pos hbody]
  rfl

/-! ### What is written -/

/-- What stands behind a result: the task is the agent's, the content has its hash, and the
signature is the one of the registered key for these fields and no others. -/
structure Vouched (e : Ed25519) (d : Deployment) (s : AppState F) (p : TaskResult F) : Prop where
  assignee : ∃ task, Dict.get p.taskId s.tasks = some task ∧ task.assignedTo = some p.agentId ∧
    task.missionId = p.missionId
  hashed : computeContentHash d.sha p.content = .ok p.contentHash
  content : Function.Injective d.sha → ∀ content : JsonDict F, eachStr Joined content.toPy →
    computeContentHash d.sha content = .ok p.contentHash → canon content.toPy = canon p.content.toPy
  signed : ∃ pk keyId bs, Dict.get p.agentId s.keys = some pk ∧
    Dict.get p.agentId s.keyIds = some keyId ∧
    canonicalJson (signingPayload (F := F) p.agentId keyId p.missionId p.taskId p.contributionId
      p.contentHash p.createdAt) = .ok bs ∧
    e.verify bs p.signature.val pk.val = true ∧
    ∀ agentId keyId' missionId taskId contributionId contentHash createdAt bs',
      canonicalJson (signingPayload (F := F) agentId keyId' missionId taskId contributionId
        contentHash createdAt) = .ok bs' → e.verify bs' p.signature.val pk.val = true →
      agentId = p.agentId ∧ keyId' = keyId ∧ missionId = p.missionId ∧ taskId = p.taskId ∧
        contributionId = p.contributionId ∧ contentHash = p.contentHash ∧ createdAt = p.createdAt

/-- What a request writes is vouched for, if it is a result marked as verified. -/
def WritesVouched (e : Ed25519) (d : Deployment) (s : AppState F) (r : Request F) : Prop :=
  ∃ ls, (serve (e.deploy d) s r).log = s.log ++ ls ∧ ∀ l ∈ ls, ∀ p,
    l.event.payload = .taskResultSubmitted p → l.event.auth.signatureVerified = true →
    Vouched e d s p

/-- Contents with one hash are one content. -/
theorem canon_eq_of_hash_eq {sha : Sha256} (hinj : Function.Injective sha)
    {content content' : JsonDict F} (hj : eachStr Joined content.toPy)
    (hj' : eachStr Joined content'.toPy) {hash : Text}
    (h : computeContentHash sha content = .ok hash)
    (h' : computeContentHash sha content' = .ok hash) : canon content.toPy = canon content'.toPy := by
  obtain ⟨bs, hbs, rfl⟩ := computeContentHash_eq_ok.mp h
  obtain ⟨bs', hbs', heq⟩ := computeContentHash_eq_ok.mp h'
  have hdigest : hexdigest sha bs = hexdigest sha bs' :=
    List.append_cancel_left (congrArg Subtype.val heq)
  obtain rfl := hexdigest_injective hinj hdigest
  exact canon_eq_of_canonicalJson_eq hbs hbs' hj hj'

/-- **The checks of the route vouch for the result that it writes.** -/
theorem Accepted.vouched {e : Ed25519} {d : Deployment} {s : AppState F} {taskId : Text}
    {body : SubmitTaskResultRequest F} {w : Attempt} {task : Task F} {keyId contentHash : Text}
    (h : Accepted (e.deploy d) s taskId body w task keyId contentHash) :
    Vouched e d s (taskResult contentHash taskId task body) := by
  obtain ⟨pk, bs, hpk, hbs, hverify⟩ := verifyContribution_eq_none.mp h.signature
  refine ⟨⟨task, h.found, h.assignee, rfl⟩, h.hashed, fun hinj content hj hhash => ?_,
    pk, keyId, bs, hpk, h.known, hbs, hverify, ?_⟩
  · have hjoined := eachStr_mono (fun _ => joined_of_encodable) h.encodes
    exact canon_eq_of_hash_eq hinj hj hjoined hhash h.hashed
  · intro agentId keyId' missionId taskId' contributionId contentHash' createdAt bs' hbs' hverify'
    -- a signature is valid for one message
    obtain rfl := e.binding _ _ _ _ hverify hverify'
    exact signingPayload_injective hbs' hbs

theorem writesVouched_of_results {e : Ed25519} {d : Deployment} {s : AppState F} {r : Request F}
    {ls : List (LoggedEvent F)} (hlog : (serve (e.deploy d) s r).log = s.log ++ ls)
    (h : results ls = []) : WritesVouched e d s r := by
  refine ⟨ls, hlog, fun l hl p hp _ => ?_⟩
  have hmem : p ∈ results ls := List.mem_filterMap.mpr ⟨l, hl, by rw [hp]; rfl⟩
  rw [h] at hmem
  exact absurd hmem List.not_mem_nil

/-- **What a request writes is vouched for.** -/
theorem writesVouched_serve (e : Ed25519) (d : Deployment) (s : AppState F) (r : Request F) :
    WritesVouched e d s r := by
  have hunchanged {s' : AppState F} (hlog : s'.log = s.log) : s'.log = s.log ++ [] := by
    rw [hlog, List.append_nil]
  cases r with
  | register body w =>
    rcases registerAgent_cases (e.deploy d) s body w with ⟨-, hs⟩ | ⟨-, -, hs⟩ | ⟨-, -, hs⟩
    · exact writesVouched_of_results (hunchanged (by rw [serve, handle, hs])) rfl
    · exact writesVouched_of_results (hunchanged (by rw [serve, handle, hs]; rfl)) rfl
    · exact writesVouched_of_results (by rw [serve, handle, hs]) (results_lines _ _ rfl)
  | createMission body w =>
    rcases createMission_cases (e.deploy d) s body w with hs | ⟨l, hl, hs⟩
    · exact writesVouched_of_results (hunchanged (by rw [serve, handle, hs])) rfl
    · exact writesVouched_of_results (by rw [serve, handle, hs]) (results_singleton hl rfl)
  | createTask body w w' =>
    rcases createTask_cases (e.deploy d) s body w w' with ⟨-, hs⟩ | ⟨-, -, hs⟩ |
      ⟨-, -, l, hl, ⟨-, hs⟩ | ⟨a, n, -, hs⟩⟩
    · exact writesVouched_of_results (hunchanged (by rw [serve, handle, hs])) rfl
    · exact writesVouched_of_results (hunchanged (by rw [serve, handle, hs]; rfl)) rfl
    · exact writesVouched_of_results (by rw [serve, handle, hs]) (results_singleton hl rfl)
    · refine writesVouched_of_results (by rw [serve, handle, hs, List.append_assoc]) ?_
      rw [results_append, results_singleton hl rfl, results_lines _ _ rfl, List.append_nil]
  | nextTask agentId capabilities => exact writesVouched_of_results (hunchanged rfl) rfl
  | submit taskId body w =>
    rcases submit_cases (e.deploy d) s taskId body w with ⟨task, keyId, contentHash, l, hacc, hl,
      hs⟩ | ⟨-, ⟨n, -, hs⟩, -⟩
    · refine ⟨[l], by rw [serve, handle, hs]; rfl, fun l' hl' p hp _ => ?_⟩
      obtain rfl := List.mem_singleton.mp hl'
      rw [hl] at hp
      obtain rfl := Payload.taskResultSubmitted.inj hp
      exact hacc.vouched
    · exact writesVouched_of_results (hunchanged (by rw [serve, handle, hs])) rfl
  | getContext index query w =>
    obtain ⟨n, ls, -, hls, hs⟩ := getContext_cases (e.deploy d) s index query w
    exact writesVouched_of_results (by rw [serve, handle, hs]) (results_contextPack hls)

/-! ### A sample scheme -/

/-- The bytes of a message, then a zero and the key. -/
def sampleSignature (m : List Byte) (key : PyStr) : PyStr :=
  m.map (fun b => ⟨b.val + 1, by omega⟩) ++ 0 :: key

theorem sampleSignature_injective {m m' : List Byte} {key key' : PyStr}
    (h : sampleSignature m key = sampleSignature m' key') : m = m' ∧ key = key' := by
  induction m generalizing m' with
  | nil =>
    cases m' with
    | nil => exact ⟨rfl, (List.cons.inj h).2⟩
    | cons b' m' => exact absurd (congrArg Fin.val (List.cons.inj h).1) (by simp)
  | cons b m ih =>
    cases m' with
    | nil => exact absurd (congrArg Fin.val (List.cons.inj h).1) (by simp)
    | cons b' m' =>
      obtain ⟨hb, htail⟩ := List.cons.inj h
      obtain ⟨rfl, rfl⟩ := ih htail
      have hval : b.val + 1 = b'.val + 1 := congrArg Fin.val hb
      exact ⟨by rw [Fin.ext (Nat.succ.inj hval)], rfl⟩

theorem encodable_sampleSignature (m : List Byte) (key : Text) :
    Encodable (sampleSignature m key.val) := by
  refine encodable_append.mpr ⟨fun c hc => ?_, List.forall_mem_cons.mpr ⟨by decide, key.2⟩⟩
  obtain ⟨b, -, rfl⟩ := List.mem_map.mp hc
  have hb := b.isLt
  simp only [CodePoint.isSurrogate, Bool.and_eq_false_iff, decide_eq_false_iff_not]
  omega

/-- A scheme that shows the message and the key. -/
def sampleScheme : Ed25519 where
  Key := PyStr
  decode := some
  publicOf sk := sk.val
  sign m sk := ⟨sampleSignature m sk.val, encodable_sampleSignature m sk⟩
  verify m sig pk := decide (sig = sampleSignature m pk)
  verify_sign m m' sk pk := by
    rw [decide_eq_true_eq, Option.some.injEq]
    constructor
    · exact fun h => (sampleSignature_injective h).imp Eq.symm Eq.symm
    · rintro ⟨rfl, rfl⟩
      rfl
  binding m m' sig pk h h' := by
    rw [decide_eq_true_eq] at h h'
    exact (sampleSignature_injective (h.symm.trans h')).1

/-- A worker, with the key id it was configured with. -/
def sampleWorker : WorkerConfig sampleScheme where
  agentId := sampleAgent
  capabilities := [sampleSkill]
  privateKey := sampleSkill
  publicKey := sampleSkill
  keyId := ⟨py "key_generic_v1", by decide⟩
  paired := rfl

/-- A mission, and a task of it. -/
def sampleWork : List (Request FloatLit) :=
  [.createMission ⟨sampleSkill, sampleSkill, emptyDict FloatLit⟩ sampleAttempt,
    .createTask ⟨sampleUlids.next 2, sampleSkill, emptyDict FloatLit⟩ sampleAttempt sampleAttempt]

/-! ### Both sides -/

section

variable (e : Ed25519) (d : Deployment) (time : Text)

/-- The state a worker registers in. -/
def stateBefore (is : List (Request F)) : AppState F :=
  run (serve (e.deploy d)) (started F (e.deploy d) time) is

/-- The run in which a worker registers. -/
def workerRun (is is' : List (Request F)) (cfg : WorkerConfig e) (w : Attempt) : List (Request F) :=
  is ++ .register cfg.body w :: is'

/-- **Server and worker agree on what is signed** in exactly the runs in which the worker is new
when it registers, or holds the key id and the key of the server already, and its model answers
without surrogates.  Signing does not fail, and what is written as verified is vouched for, in
any run. -/
theorem agreement (net : Transport F) {is is' : List (Request F)} {cfg cfg' : WorkerConfig e}
    {w₀ w : Attempt}
    (hreg : cfg.registered (handle (e.deploy d) (stateBefore e d time is)
      (.register cfg.body w₀)).2 = some cfg')
    {taskId : Text} {task : Task F}
    (htask : Dict.get taskId (stateBefore e d time (workerRun e is is' cfg w₀)).tasks = some task)
    (howner : task.assignedTo = some cfg.agentId) {content : PyStr}
    (hsize : WithinLimit F d content cfg.agentId) (hw : w.refuse = false)
    (contributionId signedAt : Text) (confidence : F) :
    ((∃ result, signResult F d.sha cfg' taskId task.missionId content contributionId signedAt =
        .ok result ∧ SubmissionAccepted net (e.deploy d)
          (stateBefore e d time (workerRun e is is' cfg w₀)) cfg' taskId result contributionId
          confidence w) ∧
      Along (serve (e.deploy d)) (WritesVouched e d) (started F (e.deploy d) time)
        (workerRun e is is' cfg w₀)) ↔
    (Dict.get cfg.agentId (stateBefore (F := F) e d time is).registry = none ∨
      Agrees (stateBefore (F := F) e d time is) cfg) ∧ Encodable content := by
  have hvouched : Along (serve (e.deploy d)) (WritesVouched e d) (started F (e.deploy d) time)
      (workerRun e is is' cfg w₀) :=
    along_of_forall (writesVouched_serve e d) _ _
  have hcoherent : Coherent (e.deploy d) (stateBefore (F := F) e d time is) :=
    coherent_run (coherent_started _ time) is
  obtain ⟨hid, hknown, hagrees⟩ := registered_agrees hcoherent hreg
  -- what holds after the registration holds until the submission
  have hstate : stateBefore e d time (workerRun e is is' cfg w₀) =
      run (serve (e.deploy d)) (serve (e.deploy d) (stateBefore e d time is)
        (.register cfg.body w₀)) is' := by
    rw [stateBefore, workerRun, run_append, run_cons, stateBefore]
  have hregistered : (Dict.get cfg'.agentId (serve (e.deploy d) (stateBefore (F := F) e d time is)
      (.register cfg.body w₀)).registry).isSome := by
    rw [hid]
    exact hknown
  have hrun := agrees_run (coherent_serve hcoherent (.register cfg.body w₀)) hregistered is'
  obtain ⟨bytes, canonical, -, -, hsign⟩ := exists_signResult (F := F) d.sha cfg' taskId
    task.missionId content contributionId signedAt
  rw [← hid] at howner hsize
  have hiff := accepted_iff net cfg' htask howner hsize hsign confidence hw
  rw [hstate, hrun, hagrees] at hiff
  rw [hstate, ← hiff]
  constructor
  · rintro ⟨⟨result, hresult, haccepted⟩, -⟩
    obtain rfl := Except.ok.inj (hsign.symm.trans hresult)
    exact haccepted
  · exact fun h => ⟨⟨_, hsign, h⟩, hvouched⟩

end

/-- A worker that is new registers, gets a task and is accepted. -/
theorem agreement_new_worker : ∃ (task : Task FloatLit) (cfg' : WorkerConfig sampleScheme),
    task.assignedTo = some sampleAgent ∧ ∃ result, signResult FloatLit sampleDeployment.sha cfg'
      (sampleUlids.next 4) task.missionId (py "4") sampleSkill sampleTimeText = .ok result ∧
    SubmissionAccepted jsonTransport (sampleScheme.deploy sampleDeployment)
      (stateBefore sampleScheme sampleDeployment sampleTimeText
        (workerRun sampleScheme [] sampleWork sampleWorker sampleAttempt)) cfg' (sampleUlids.next 4)
      result sampleSkill ⟨false, 0, .frac 9 [] none⟩ sampleAttempt := by
  have hsome : (Dict.get (sampleUlids.next 4) (stateBefore sampleScheme sampleDeployment
      sampleTimeText (workerRun sampleScheme [] sampleWork sampleWorker sampleAttempt)).tasks).map
        Task.assignedTo = some (some sampleAgent) := by
    decide +kernel
  obtain ⟨task, htask, howner⟩ := Option.map_eq_some_iff.mp hsome
  have hunrefused : sampleAttempt.refuse = false := rfl
  have hsize : WithinLimit FloatLit sampleDeployment (py "4") sampleAgent :=
    ⟨_, rfl, by decide +kernel⟩
  have hreg : sampleWorker.registered (handle (sampleScheme.deploy sampleDeployment)
      (stateBefore (F := FloatLit) sampleScheme sampleDeployment sampleTimeText [])
      (.register sampleWorker.body sampleAttempt)).2 = some { sampleWorker with
        keyId := deriveKeyId sampleDeployment.sha sampleWorker.publicKey } :=
    registered_of_new (coherent_started _ _) sampleWorker rfl hunrefused
  have hagreement := agreement sampleScheme sampleDeployment sampleTimeText jsonTransport hreg htask
    howner hsize hunrefused sampleSkill sampleTimeText ⟨false, 0, .frac 9 [] none⟩
  exact ⟨task, _, howner, (hagreement.mpr ⟨.inl rfl, by decide⟩).1⟩

/-- The run in which the worker of the sample registers again, with the key id that it was
configured with. -/
def staleRun : List (Request FloatLit) :=
  workerRun sampleScheme [.register sampleWorker.body sampleAttempt] sampleWork sampleWorker
    sampleAttempt

/-- **A worker that is registered already is refused.** -/
theorem stale_key_rejected :
    sampleWorker.registered (handle (sampleScheme.deploy sampleDeployment)
      (stateBefore (F := FloatLit) sampleScheme sampleDeployment sampleTimeText
        [.register sampleWorker.body sampleAttempt])
      (.register sampleWorker.body sampleAttempt)).2 = some sampleWorker ∧
    ∃ task, Dict.get (sampleUlids.next 4) (stateBefore sampleScheme sampleDeployment sampleTimeText
        staleRun).tasks = some task ∧ task.assignedTo = some sampleAgent ∧
      ¬ ∃ result, signResult FloatLit sampleDeployment.sha sampleWorker (sampleUlids.next 4)
          task.missionId (py "4") sampleSkill sampleTimeText = .ok result ∧
        SubmissionAccepted jsonTransport (sampleScheme.deploy sampleDeployment)
          (stateBefore sampleScheme sampleDeployment sampleTimeText staleRun) sampleWorker
          (sampleUlids.next 4) result sampleSkill ⟨false, 0, .frac 9 [] none⟩ sampleAttempt := by
  have hsome : (Dict.get (sampleUlids.next 4) (stateBefore sampleScheme sampleDeployment
      sampleTimeText staleRun).tasks).map Task.assignedTo = some (some sampleAgent) := by
    decide +kernel
  have hkeyId : Dict.get sampleAgent (stateBefore (F := FloatLit) sampleScheme sampleDeployment
      sampleTimeText staleRun).keyIds ≠ some sampleWorker.keyId := by
    decide +kernel
  have hsize : WithinLimit FloatLit sampleDeployment (py "4") sampleAgent :=
    ⟨_, rfl, by decide +kernel⟩
  have hunrefused : sampleAttempt.refuse = false := rfl
  obtain ⟨task, htask, howner⟩ := Option.map_eq_some_iff.mp hsome
  refine ⟨registered_of_known _ _ _ (by decide +kernel), task, htask, howner, ?_⟩
  rintro ⟨result, hresult, haccepted⟩
  have hiff := accepted_iff jsonTransport sampleWorker htask howner hsize hresult
    ⟨false, 0, .frac 9 [] none⟩ hunrefused
  exact hkeyId (hiff.mp haccepted).1.1

end Mesh

end Daryl
