import Daryl.Dsm.Exchange

/-!
# `attestation`: compute attestations

An attestation claims an output for an input.  Its hash is taken of five strings put one
behind the other, with nothing between them and without their lengths.

## Main definitions

* `ComputeAttestation`, `attestationPayload` — an attestation, and the text that is hashed.
* `createAttestation`, `verifyAttestation` — making one, and the check of hash and signature.
* `ComputeAttestation.Valid` — `verify_attestation` says `VALID`.

## Main results

* `createAttestation_valid` — an attestation that was created is valid.
* `attestation_binding` — **valid attestations with one hash have the same fields exactly when
  their fields have the same lengths.**
* `attestation_recut` — a model and an agent that are cut in another place.
-/

namespace Daryl

open Py Json

variable {F : Type} [PyFloat F]

/-- `ComputeAttestation`. -/
structure ComputeAttestation where
  attestationId : PyStr
  agentId : PyStr
  inputHash : PyStr
  outputHash : PyStr
  modelId : PyStr
  timestamp : PyStr
  attestationHash : PyStr
  entryHash : Option PyStr
  signature : Option PyStr
  publicKey : Option PyStr
  dispatchHash : Option PyStr
  deriving DecidableEq

/-- What can be given as input or output. -/
inductive RawData (F : Type) [PyFloat F]
  | bytes (bs : List Byte)
  | str (s : PyStr)
  | dict (kvs : List (Key F × PyVal F))

/-- `json.dumps(data, sort_keys=True, separators=(",", ":"))`. -/
def rawStyle : Style := ⟨true, true, false⟩

/-- `_serialize`. -/
def serialize : RawData F → Except PyError (List Byte)
  | .bytes bs => .ok bs
  | .str s =>
    match encodeUtf8 s with
    | some bs => .ok bs
    | none => .error .unicodeEncodeError
  | .dict kvs =>
    match dumpsSorted rawStyle (.dict kvs) with
    | .ok text => .ok (utf8Bytes text)
    | .error err => .error (DumpsError.toPyError err)

/-- `input_hash + output_hash + model_id + agent_id + timestamp`. -/
def attestationPayload (inputHash outputHash modelId agentId timestamp : PyStr) : PyStr :=
  inputHash ++ outputHash ++ modelId ++ agentId ++ timestamp

/-- `create_attestation`, with the time and the identifier it draws. -/
def createAttestation (sha : Sha256) (agentId : PyStr) (rawInput rawOutput : RawData F)
    (modelId : PyStr) (entryHash dispatchHash : Option PyStr) (attestationId : PyStr)
    (now : Datetime) : Except PyError ComputeAttestation := do
  let inputHash := hexdigest sha (← serialize rawInput)
  let outputHash := hexdigest sha (← serialize rawOutput)
  let timestamp := now.isoformat
  let attestationHash ←
    hashText sha (attestationPayload inputHash outputHash modelId agentId timestamp)
  return {
    attestationId := attestationId
    agentId := agentId
    inputHash := inputHash
    outputHash := outputHash
    modelId := modelId
    timestamp := timestamp
    attestationHash := attestationHash
    entryHash := entryHash
    signature := none
    publicKey := none
    dispatchHash := dispatchHash }

/-- The statuses of an attestation. -/
inductive AttestationStatus
  | valid
  | hashMismatch
  | signatureInvalid
  deriving DecidableEq

/-- What `verify_attestation` returns. -/
structure AttestationReport where
  status : AttestationStatus
  signatureVerified : Option Bool
  deriving DecidableEq

/-- `attestation.signature and attestation.public_key`. -/
def ComputeAttestation.signed (a : ComputeAttestation) : Option (PyStr × PyStr) :=
  match a.signature, a.publicKey with
  | some (c :: sig), some (d :: pub) => some (c :: sig, d :: pub)
  | _, _ => none

/-- `verify_attestation`; `nacl` is `none` where PyNaCl is not installed. -/
def verifyAttestation (sha : Sha256) (nacl : Option Nacl) (a : ComputeAttestation) :
    Except PyError AttestationReport :=
  match hashText sha (attestationPayload a.inputHash a.outputHash a.modelId a.agentId
    a.timestamp) with
  | .error err => .error err
  | .ok expected =>
    if expected ≠ a.attestationHash then .ok ⟨.hashMismatch, none⟩
    else
      match a.signed, nacl with
      | none, _ | _, none => .ok ⟨.valid, none⟩
      | some (sig, pub), some nacl =>
        match fromHex pub, fromHex sig, encodeUtf8 a.attestationHash with
        | some pubBytes, some sigBytes, some msg =>
          if nacl.verifies pubBytes (sigBytes ++ msg) then
            .ok ⟨.valid, some true⟩
          else .ok ⟨.signatureInvalid, some false⟩
        | _, _, _ => .ok ⟨.signatureInvalid, some false⟩

namespace ComputeAttestation

/-- `verify_attestation` says `VALID`. -/
def Valid (sha : Sha256) (nacl : Option Nacl) (a : ComputeAttestation) : Prop :=
  ∃ report, verifyAttestation sha nacl a = .ok report ∧ report.status = .valid

/-- The fields that are hashed, in their order. -/
def fields (a : ComputeAttestation) : List PyStr :=
  [a.inputHash, a.outputHash, a.modelId, a.agentId, a.timestamp]

theorem payload_eq_flatten (a : ComputeAttestation) :
    attestationPayload a.inputHash a.outputHash a.modelId a.agentId a.timestamp =
      a.fields.flatten := by
  simp [attestationPayload, fields]

/-- A valid attestation has the hash of its fields. -/
theorem Valid.hashed {sha : Sha256} {nacl : Option Nacl} {a : ComputeAttestation}
    (h : a.Valid sha nacl) : hashText sha a.fields.flatten = .ok a.attestationHash := by
  obtain ⟨report, hreport, hstatus⟩ := h
  unfold verifyAttestation at hreport
  rw [payload_eq_flatten] at hreport
  cases hhash : hashText sha a.fields.flatten with
  | error err =>
    rw [hhash] at hreport
    cases hreport
  | ok expected =>
    rw [hhash] at hreport
    by_cases heq : expected = a.attestationHash
    · rw [heq]
    · dsimp only at hreport
      rw [if_pos heq] at hreport
      obtain rfl := Except.ok.inj hreport
      cases hstatus

/-- Without a signature the hash is all that is checked. -/
theorem valid_of_hashed {sha : Sha256} {a : ComputeAttestation} (nacl : Option Nacl)
    (hsigned : a.signed = none) (h : hashText sha a.fields.flatten = .ok a.attestationHash) :
    a.Valid sha nacl := by
  refine ⟨⟨.valid, none⟩, ?_, rfl⟩
  unfold verifyAttestation
  rw [payload_eq_flatten, h]
  dsimp only
  rw [if_neg (not_not.mpr rfl), hsigned]

end ComputeAttestation

/-- **An attestation that was created is valid.** -/
theorem createAttestation_valid {sha : Sha256} {agentId modelId attestationId : PyStr}
    {rawInput rawOutput : RawData F} {entryHash dispatchHash : Option PyStr} {now : Datetime}
    {a : ComputeAttestation} (nacl : Option Nacl)
    (h : createAttestation sha agentId rawInput rawOutput modelId entryHash dispatchHash
      attestationId now = .ok a) : a.Valid sha nacl := by
  rw [createAttestation] at h
  cases hin : serialize rawInput with
  | error err => rw [hin] at h; cases h
  | ok input =>
  cases hout : serialize rawOutput with
  | error err => rw [hin, hout] at h; cases h
  | ok output =>
  rw [hin, hout] at h
  simp only [bind, Except.bind] at h
  cases hhash : hashText sha (attestationPayload (hexdigest sha input) (hexdigest sha output) modelId
    agentId now.isoformat) with
  | error err => rw [hhash] at h; cases h
  | ok hash =>
    rw [hhash] at h
    obtain rfl := Except.ok.inj h
    refine ComputeAttestation.valid_of_hashed nacl rfl ?_
    rw [← ComputeAttestation.payload_eq_flatten]
    exact hhash

/-- **Valid attestations with one hash have the same fields exactly when their fields have the
same lengths.**  Put one behind the other, the fields can be cut anywhere. -/
theorem attestation_binding {sha : Sha256} (hinj : Function.Injective sha) {nacl : Option Nacl}
    {a b : ComputeAttestation} (ha : a.Valid sha nacl) (hb : b.Valid sha nacl)
    (hsame : a.attestationHash = b.attestationHash) :
    (a.inputHash = b.inputHash ∧ a.outputHash = b.outputHash ∧ a.modelId = b.modelId ∧
      a.agentId = b.agentId ∧ a.timestamp = b.timestamp) ↔
    a.fields.map List.length = b.fields.map List.length := by
  have htext : a.fields.flatten = b.fields.flatten :=
    text_eq_of_hashText hinj ha.hashed (hsame ▸ hb.hashed)
  have hfields : a.fields = b.fields ↔ a.fields.map List.length = b.fields.map List.length := by
    rw [List.eq_iff_flatten_eq]
    exact and_iff_right htext
  rw [← hfields]
  simp [ComputeAttestation.fields]

/-- An attestation of a model and an agent. -/
def sampleAttestation (modelId agentId : PyStr) : ComputeAttestation where
  attestationId := py "att_0"
  agentId := agentId
  inputHash := []
  outputHash := []
  modelId := modelId
  timestamp := []
  attestationHash := hexdigest nibbles (utf8Bytes (modelId ++ agentId))
  entryHash := none
  signature := none
  publicKey := none
  dispatchHash := none

theorem sampleAttestation_valid {modelId agentId : PyStr} (hmodel : Encodable modelId)
    (hagent : Encodable agentId) : (sampleAttestation modelId agentId).Valid nibbles none := by
  refine ComputeAttestation.valid_of_hashed none rfl (hashText_eq_ok.mpr ?_)
  simp [sampleAttestation, ComputeAttestation.fields, encodable_append, hmodel, hagent]

/-- Two attestations of one model and agent. -/
theorem attestation_binding_sample :
    (sampleAttestation (py "m1") (py "ada")).modelId =
      ({ sampleAttestation (py "m1") (py "ada") with attestationId := py "att_1" } :
        ComputeAttestation).modelId := by
  have hvalid := sampleAttestation_valid (by decide : Encodable (py "m1"))
    (by decide : Encodable (py "ada"))
  have hcopy : ({ sampleAttestation (py "m1") (py "ada") with attestationId := py "att_1" } :
      ComputeAttestation).Valid nibbles none :=
    ComputeAttestation.valid_of_hashed none rfl hvalid.hashed
  exact ((attestation_binding nibbles_injective hvalid hcopy rfl).mpr rfl).2.2.1

/-- **A model and an agent that are cut in another place.** -/
theorem attestation_recut :
    (sampleAttestation (py "m1") (py "ada")).Valid nibbles none ∧
    (sampleAttestation (py "m") (py "1ada")).Valid nibbles none ∧
    (sampleAttestation (py "m1") (py "ada")).attestationHash =
      (sampleAttestation (py "m") (py "1ada")).attestationHash ∧
    (sampleAttestation (py "m1") (py "ada")).modelId ≠
      (sampleAttestation (py "m") (py "1ada")).modelId := by
  refine ⟨sampleAttestation_valid (by decide) (by decide),
    sampleAttestation_valid (by decide) (by decide), ?_, by decide⟩
  have htext : py "m1" ++ py "ada" = py "m" ++ py "1ada" := by decide
  rw [sampleAttestation, sampleAttestation, htext]

end Daryl
