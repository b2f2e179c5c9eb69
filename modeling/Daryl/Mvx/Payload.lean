import Daryl.Mvx.Schemas
import Daryl.Lib.BigEndian
import Daryl.Dsm.Exchange
import Daryl.Json.RoundTrip

/-!
# `multiversx.payload`: the DSM01 codec

The data field of an anchor transaction: five magic bytes, the length of the shard id,
the shard id in UTF-8, and three fields of fixed width.

## Main definitions

* `encodePayload`, `decodePayload` — the codec.
* `isDsmAnchorPayload` — the check without decoding.
* `layout` — the bytes of a payload from the bytes of its fields.

## Main results

* `encodePayload_eq_ok` — what encodes, and to which bytes.
* `decodePayload_eq_ok` — which bytes decode, and to what.
* `payload_round_trip` — **both ways round.**
* `corruption_detected_iff` — which changed bytes are detected.
-/

namespace Daryl

open Py Json

namespace Mvx

/-! ### The codec -/

/-- `MAGIC`. -/
def magic : List Byte := [68, 83, 77, 48, 49]

/-- `SHARD_ID_MAX_BYTES`. -/
def shardIdMaxBytes : ℕ := 64

/-- `LAST_HASH_BYTES`. -/
def lastHashBytes : ℕ := 32

/-- `ENTRY_NONCE_BYTES`. -/
def entryNonceBytes : ℕ := 8

/-- `INTENT_ID_BYTES`. -/
def intentIdBytes : ℕ := 16

/-- `MIN_PAYLOAD_BYTES`. -/
def minPayloadBytes : ℕ :=
  magic.length + 1 + 1 + lastHashBytes + entryNonceBytes + intentIdBytes

/-- `MAX_PAYLOAD_BYTES`. -/
def maxPayloadBytes : ℕ :=
  magic.length + 1 + shardIdMaxBytes + lastHashBytes + entryNonceBytes + intentIdBytes

/-- `ABSOLUTE_DATA_FIELD_CEILING`. -/
def absoluteDataFieldCeiling : ℕ := 255

/-- What encoding and decoding raise: the `UnicodeEncodeError` of the shard id, and the
`PayloadError`s with the values of their messages. -/
inductive CodecError
  | shardIdNotEncodable
  | shardIdEmpty
  | shardIdTooLong (length : ℕ)
  | lastHashNotHex
  | lastHashLength (length : ℕ)
  | entryNonceRange
  | intentIdLength (length : ℕ)
  | aboveCeiling (length : ℕ)
  | belowMin (length : ℕ)
  | aboveMax (length : ℕ)
  | magicMismatch (got : List Byte)
  | shardIdLenRange (shardIdLen : ℕ)
  | inconsistent (length shardIdLen expectedTotal : ℕ)
  | shardIdNotUtf8
  | entryNonceUnpack
  | trailing (extra : ℤ)
  | notUuid
  deriving DecidableEq, Repr

/-- `DecodedPayload`. -/
structure DecodedPayload where
  shardId : PyStr
  lastHash : List Byte
  entryNonce : ℤ
  intentId : Uuid
  deriving DecidableEq

/-- `bytes.hex`. -/
def toHex (bs : List Byte) : PyStr :=
  bs.flatMap fun b => [hexDigit ⟨b.val / 16, highNibble_lt b⟩, hexDigit ⟨b.val % 16, lowNibble_lt b⟩]

/-- `as_hex_last_hash`. -/
def DecodedPayload.asHexLastHash (d : DecodedPayload) : PyStr := py "0x" ++ toHex d.lastHash

/-- `struct.pack(">Q", n)`; `none` is `struct.error`. -/
def packQ (n : ℤ) : Option (List Byte) :=
  if 0 ≤ n ∧ n < 2 ^ 64 then some (BigEndian.toDigits 8 n.toNat) else none

/-- `struct.unpack(">Q", bs)`; `none` is `struct.error`. -/
def unpackQ (bs : List Byte) : Option ℤ :=
  if bs.length = 8 then some (BigEndian.ofDigits bs) else none

/-- `uuid.UUID(bytes=bs)`; `none` is `ValueError`. -/
def uuidOfBytes (bs : List Byte) : Option Uuid :=
  if h : bs.length = 16 then some ⟨bs, h⟩ else none

/-- The hex of `last_hash`, its prefix taken off. -/
def stripHexPrefix (s : PyStr) : PyStr :=
  if s.take 2 = py "0x" ∨ s.take 2 = py "0X" then s.drop 2 else s

/-- `encode_payload`. -/
def encodePayload (intent : AnchorIntent) : Except CodecError (List Byte) :=
  match encodeUtf8 intent.shardId with
  | none => .error .shardIdNotEncodable
  | some shardId =>
    if shardId.length = 0 then .error .shardIdEmpty
    else if shardIdMaxBytes < shardId.length then .error (.shardIdTooLong shardId.length)
    else
      match fromHex (stripHexPrefix intent.lastHash) with
      | none => .error .lastHashNotHex
      | some lastHash =>
        if lastHash.length ≠ lastHashBytes then .error (.lastHashLength lastHash.length)
        else
          match packQ intent.entryNonce with
          | none => .error .entryNonceRange
          | some entryNonce =>
            let intentId := intent.intentId.bytes
            if intentId.length ≠ intentIdBytes then .error (.intentIdLength intentId.length)
            else
              let result := magic ++ [Fin.ofNat 256 shardId.length] ++ shardId ++ lastHash ++
                entryNonce ++ intentId
              if absoluteDataFieldCeiling < result.length then .error (.aboveCeiling result.length)
              else .ok result

/-- `data[i : i + n]`. -/
def slice (data : List Byte) (i n : ℕ) : List Byte := (data.drop i).take n

/-- `decode_payload`. -/
def decodePayload (data : List Byte) : Except CodecError DecodedPayload :=
  if data.length < minPayloadBytes then .error (.belowMin data.length)
  else if maxPayloadBytes < data.length then .error (.aboveMax data.length)
  else if data.take magic.length ≠ magic then .error (.magicMismatch (data.take magic.length))
  else
    let shardIdLen := (data.getD magic.length 0).val
    if shardIdLen = 0 ∨ shardIdMaxBytes < shardIdLen then .error (.shardIdLenRange shardIdLen)
    else
      let expectedTotal :=
        magic.length + 1 + shardIdLen + lastHashBytes + entryNonceBytes + intentIdBytes
      if data.length ≠ expectedTotal then
        .error (.inconsistent data.length shardIdLen expectedTotal)
      else
        let cursor := magic.length + 1
        match decodeUtf8 (slice data cursor shardIdLen) with
        | none => .error .shardIdNotUtf8
        | some shardId =>
          let cursor := cursor + shardIdLen
          let lastHash := slice data cursor lastHashBytes
          let cursor := cursor + lastHashBytes
          match unpackQ (slice data cursor entryNonceBytes) with
          | none => .error .entryNonceUnpack
          | some entryNonce =>
            let cursor := cursor + entryNonceBytes
            let intentIdRaw := slice data cursor intentIdBytes
            let cursor := cursor + intentIdBytes
            if cursor ≠ data.length then .error (.trailing (data.length - cursor))
            else
              match uuidOfBytes intentIdRaw with
              | none => .error .notUuid
              | some intentId => .ok ⟨shardId, lastHash, entryNonce, intentId⟩

/-- `is_dsm_anchor_payload`. -/
def isDsmAnchorPayload (data : List Byte) : Bool :=
  if data.length < minPayloadBytes ∨ maxPayloadBytes < data.length then false
  else if data.take magic.length ≠ magic then false
  else
    let shardIdLen := (data.getD magic.length 0).val
    decide (1 ≤ shardIdLen ∧ shardIdLen ≤ shardIdMaxBytes)

/-! ### The bytes of a payload -/

/-- The bytes of a payload from the bytes of its fields. -/
def layout (shardId lastHash entryNonce intentId : List Byte) : List Byte :=
  magic ++ [Fin.ofNat 256 shardId.length] ++ shardId ++ lastHash ++ entryNonce ++ intentId

/-- The lengths the format gives its fields. -/
structure Sized (shardId lastHash entryNonce intentId : List Byte) : Prop where
  shardId_pos : 1 ≤ shardId.length
  shardId_le : shardId.length ≤ shardIdMaxBytes
  lastHash : lastHash.length = lastHashBytes
  entryNonce : entryNonce.length = entryNonceBytes
  intentId : intentId.length = intentIdBytes

@[simp] theorem length_magic : magic.length = 5 := rfl

section

variable {shardId lastHash entryNonce intentId : List Byte}

theorem length_layout (shardId lastHash entryNonce intentId : List Byte) :
    (layout shardId lastHash entryNonce intentId).length =
      6 + shardId.length + lastHash.length + entryNonce.length + intentId.length := by
  simp only [layout, List.length_append, length_magic, List.length_cons, List.length_nil]

theorem slice_mid {data a b c : List Byte} {i n : ℕ} (h : data = a ++ b ++ c)
    (hi : i = a.length) (hn : b.length = n) : slice data i n = b := by
  rw [h, slice, List.append_assoc, List.drop_left' hi.symm, List.take_left' hn]

theorem take_layout : (layout shardId lastHash entryNonce intentId).take magic.length = magic := by
  unfold layout
  simp only [List.append_assoc]
  exact List.take_left' rfl

/-- The length byte. -/
theorem Sized.getD_layout (h : Sized shardId lastHash entryNonce intentId) :
    ((layout shardId lastHash entryNonce intentId).getD magic.length 0).val = shardId.length := by
  have hle := h.shardId_le
  have hget : (layout shardId lastHash entryNonce intentId).getD magic.length 0 =
      Fin.ofNat 256 shardId.length := rfl
  rw [hget]
  exact Nat.mod_eq_of_lt (by unfold shardIdMaxBytes at hle; omega)

end

/-! ### Encoding -/

/-- **What encodes, and to which bytes.** -/
theorem encodePayload_eq_ok {intent : AnchorIntent} {data : List Byte} :
    encodePayload intent = .ok data ↔
      Encodable intent.shardId ∧ (0 ≤ intent.entryNonce ∧ intent.entryNonce < 2 ^ 64) ∧
        ∃ lastHash, fromHex (stripHexPrefix intent.lastHash) = some lastHash ∧
          Sized (utf8Bytes intent.shardId) lastHash (BigEndian.toDigits 8 intent.entryNonce.toNat)
            intent.intentId.bytes ∧
          data = layout (utf8Bytes intent.shardId) lastHash
            (BigEndian.toDigits 8 intent.entryNonce.toNat) intent.intentId.bytes := by
  have hid := intent.intentId.length_bytes
  constructor
  · intro h
    unfold encodePayload at h
    split at h
    · cases h
    next shardId hshard =>
    obtain ⟨henc, rfl⟩ := encodeUtf8_eq_some.mp hshard
    split_ifs at h with hpos hmax
    split at h
    · cases h
    next lastHash hhash =>
    split_ifs at h with hlen
    split at h
    · cases h
    next nonce hnonce =>
    unfold packQ at hnonce
    split_ifs at hnonce with hrange
    obtain rfl := Option.some.inj hnonce
    dsimp only at h
    split_ifs at h with hceil
    cases h
    exact ⟨henc, hrange, lastHash, hhash,
      ⟨by omega, by omega, not_not.mp hlen, BigEndian.length_toDigits _ _, hid⟩, rfl⟩
  · rintro ⟨henc, hrange, lastHash, hhash, hsized, rfl⟩
    have hpos := hsized.shardId_pos
    have hle := hsized.shardId_le
    have hlayout := length_layout (utf8Bytes intent.shardId) lastHash
      (BigEndian.toDigits 8 intent.entryNonce.toNat) intent.intentId.bytes
    rw [hsized.lastHash, hsized.entryNonce, hsized.intentId] at hlayout
    unfold encodePayload
    rw [encodeUtf8_of_encodable henc]
    dsimp only
    rw [if_neg (by omega), if_neg (by omega), hhash]
    dsimp only
    rw [if_neg (not_not.mpr hsized.lastHash), packQ, if_pos hrange]
    dsimp only
    rw [if_neg (not_not.mpr hsized.intentId)]
    refine if_neg ?_
    change ¬ absoluteDataFieldCeiling < (layout _ _ _ _).length
    rw [hlayout]
    unfold absoluteDataFieldCeiling lastHashBytes entryNonceBytes intentIdBytes
    unfold shardIdMaxBytes at hle
    omega

/-! ### Decoding -/

/-- Bytes of the length a shard id length announces, cut where the fields end. -/
theorem exists_layout {data : List Byte} (hmagic : data.take magic.length = magic)
    (hlen : data.length = magic.length + 1 + (data.getD magic.length 0).val + lastHashBytes +
      entryNonceBytes + intentIdBytes) :
    ∃ shardId lastHash entryNonce intentId, data = layout shardId lastHash entryNonce intentId ∧
      shardId.length = (data.getD magic.length 0).val ∧ lastHash.length = lastHashBytes ∧
      entryNonce.length = entryNonceBytes ∧ intentId.length = intentIdBytes := by
  set n := (data.getD magic.length 0).val with hn
  have hcut : ∀ (m : ℕ) (xs : List Byte), m ≤ xs.length → ∃ a b, xs = a ++ b ∧ a.length = m :=
    fun m xs h => ⟨xs.take m, xs.drop m, (List.take_append_drop m xs).symm,
      List.length_take_of_le h⟩
  simp only [length_magic, lastHashBytes, entryNonceBytes, intentIdBytes] at *
  obtain ⟨pre, rest, hdata, hpre⟩ := hcut 5 data (by omega)
  obtain rfl : pre = magic := by
    rw [← hmagic, hdata, List.take_left' hpre]
  rw [hdata, List.length_append, hpre] at hlen
  obtain ⟨b, rest, rfl⟩ := List.exists_cons_of_length_pos (show 0 < rest.length by omega)
  rw [List.length_cons] at hlen
  have hb : b.val = n := by
    rw [hn, hdata]
    rfl
  obtain ⟨shardId, rest, rfl, h₁⟩ := hcut n rest (by omega)
  rw [List.length_append] at hlen
  obtain ⟨lastHash, rest, rfl, h₂⟩ := hcut 32 rest (by omega)
  rw [List.length_append] at hlen
  obtain ⟨entryNonce, intentId, rfl, h₃⟩ := hcut 8 rest (by omega)
  rw [List.length_append] at hlen
  refine ⟨shardId, lastHash, entryNonce, intentId, ?_, h₁, h₂, h₃, by omega⟩
  have hbyte : Fin.ofNat 256 shardId.length = b := by
    refine Fin.ext ?_
    show shardId.length % 256 = b.val
    rw [h₁, hb]
    exact Nat.mod_eq_of_lt (hb ▸ b.isLt)
  rw [hdata, layout, hbyte]
  simp only [List.append_assoc, List.cons_append, List.nil_append]

section

variable {shardId lastHash entryNonce intentId : List Byte}

/-- **A payload decodes to its fields**, when the shard id is UTF-8. -/
theorem Sized.decodePayload (h : Sized shardId lastHash entryNonce intentId) :
    decodePayload (layout shardId lastHash entryNonce intentId) =
      match decodeUtf8 shardId with
      | none => .error .shardIdNotUtf8
      | some s => .ok ⟨s, lastHash, BigEndian.ofDigits entryNonce, ⟨intentId, h.intentId⟩⟩ := by
  have hpos := h.shardId_pos
  have hle := h.shardId_le
  have hlen := length_layout shardId lastHash entryNonce intentId
  rw [h.lastHash, h.entryNonce, h.intentId] at hlen
  have hbyte := h.getD_layout
  set data := layout shardId lastHash entryNonce intentId with hdata
  set n := (data.getD magic.length 0).val
  -- where each field stands
  set pre := magic ++ [Fin.ofNat 256 shardId.length] with hpre
  have hlenPre : pre.length = magic.length + 1 := List.length_append ..
  have h₁ : slice data (magic.length + 1) n = shardId :=
    slice_mid (c := lastHash ++ entryNonce ++ intentId) (by simp only [hdata, layout, hpre,
      List.append_assoc]) hlenPre.symm hbyte.symm
  have h₂ : slice data (magic.length + 1 + n) lastHashBytes = lastHash :=
    slice_mid (a := pre ++ shardId) (c := entryNonce ++ intentId)
      (by simp only [hdata, layout, hpre, List.append_assoc])
      (by rw [List.length_append, hlenPre, hbyte]) h.lastHash
  have h₃ : slice data (magic.length + 1 + n + lastHashBytes) entryNonceBytes = entryNonce :=
    slice_mid (a := pre ++ shardId ++ lastHash) hdata
      (by simp only [List.length_append, hlenPre, hbyte, h.lastHash]) h.entryNonce
  have h₄ : slice data (magic.length + 1 + n + lastHashBytes + entryNonceBytes) intentIdBytes =
      intentId :=
    slice_mid (a := pre ++ shardId ++ lastHash ++ entryNonce) (c := [])
      (by rw [List.append_nil]; exact hdata)
      (by simp only [List.length_append, hlenPre, hbyte, h.lastHash, h.entryNonce]) h.intentId
  have htotal : magic.length + 1 + n + lastHashBytes + entryNonceBytes + intentIdBytes =
      data.length := by
    rw [hlen, hbyte]
    rfl
  unfold shardIdMaxBytes at hle
  have hmin : ¬data.length < minPayloadBytes := by
    show ¬_ < 5 + 1 + 1 + lastHashBytes + entryNonceBytes + intentIdBytes
    omega
  have hmax : ¬maxPayloadBytes < data.length := by
    show ¬5 + 1 + 64 + lastHashBytes + entryNonceBytes + intentIdBytes < _
    omega
  have hrange : ¬(n = 0 ∨ shardIdMaxBytes < n) := by
    show ¬(n = 0 ∨ 64 < n)
    omega
  unfold Mvx.decodePayload
  rw [if_neg hmin, if_neg hmax, if_neg (not_not.mpr take_layout)]
  dsimp only
  rw [if_neg hrange, if_neg (not_not.mpr htotal.symm), h₁]
  cases decodeUtf8 shardId with
  | none => rfl
  | some s =>
    dsimp only
    rw [h₂, h₃, h₄, unpackQ, if_pos (show entryNonce.length = 8 from h.entryNonce)]
    dsimp only
    rw [if_neg (not_not.mpr htotal), uuidOfBytes,
      dif_pos (show intentId.length = 16 from h.intentId)]

end

/-- **Which bytes decode, and to what.** -/
theorem decodePayload_eq_ok {data : List Byte} {d : DecodedPayload} :
    decodePayload data = .ok d ↔
      ∃ shardId entryNonce, Sized shardId d.lastHash entryNonce d.intentId.bytes ∧
        data = layout shardId d.lastHash entryNonce d.intentId.bytes ∧
        decodeUtf8 shardId = some d.shardId ∧ d.entryNonce = BigEndian.ofDigits entryNonce := by
  constructor
  · intro h
    have hguard := h
    unfold decodePayload at hguard
    split_ifs at hguard with hmin hmax hmagic
    dsimp only at hguard
    split at hguard
    · cases hguard
    next hrange =>
    split at hguard
    · cases hguard
    next htotal =>
    obtain ⟨shardId, lastHash, entryNonce, intentId, rfl, h₁, h₂, h₃, h₄⟩ :=
      exists_layout (not_not.mp hmagic) (not_not.mp htotal)
    have hsized : Sized shardId lastHash entryNonce intentId :=
      ⟨by omega, by omega, h₂, h₃, h₄⟩
    rw [hsized.decodePayload] at h
    split at h
    · cases h
    next s hs =>
    cases h
    exact ⟨shardId, entryNonce, hsized, rfl, hs, rfl⟩
  · rintro ⟨shardId, entryNonce, hsized, rfl, hutf, hnonce⟩
    rw [hsized.decodePayload, hutf]
    dsimp only
    rw [← hnonce]

/-- **What decodes looks like an anchor.** -/
theorem Sized.isDsmAnchorPayload {shardId lastHash entryNonce intentId : List Byte}
    (h : Sized shardId lastHash entryNonce intentId) :
    isDsmAnchorPayload (layout shardId lastHash entryNonce intentId) = true := by
  have hpos := h.shardId_pos
  have hle := h.shardId_le
  have hlen := length_layout shardId lastHash entryNonce intentId
  rw [h.lastHash, h.entryNonce, h.intentId] at hlen
  have hsize : ¬((layout shardId lastHash entryNonce intentId).length < minPayloadBytes ∨
      maxPayloadBytes < (layout shardId lastHash entryNonce intentId).length) := by
    simp only [minPayloadBytes, maxPayloadBytes, shardIdMaxBytes, lastHashBytes, entryNonceBytes,
      intentIdBytes, length_magic] at hlen hle ⊢
    omega
  unfold Mvx.isDsmAnchorPayload
  rw [if_neg hsize, if_neg (not_not.mpr take_layout), h.getD_layout]
  exact decide_eq_true ⟨hpos, hle⟩

/-! ### Re-encoding -/

/-- The digits of a byte read back as the byte. -/
theorem fromHex_toHex (bs : List Byte) : fromHex (toHex bs) = some bs := by
  have hspace : ∀ d : Fin 16, ¬((hexDigit d).val = 32 ∨ 9 ≤ (hexDigit d).val ∧
      (hexDigit d).val ≤ 13) := by decide
  induction bs with
  | nil => rfl
  | cons b bs ih =>
    have hcons : toHex (b :: bs) =
        hexDigit ⟨b.val / 16, by omega⟩ :: hexDigit ⟨b.val % 16, by omega⟩ :: toHex bs := rfl
    rw [hcons, fromHex, if_neg (hspace _)]
    simp only [hexVal_hexDigit, ih, Option.map_some, Option.some.injEq, List.cons.injEq, and_true]
    exact Fin.ext (by simp only; omega)

theorem length_toHex (bs : List Byte) : (toHex bs).length = 2 * bs.length := by
  induction bs with
  | nil => rfl
  | cons b bs ih =>
    have hcons : (toHex (b :: bs)).length = (toHex bs).length + 2 := rfl
    rw [hcons, ih, List.length_cons]
    omega

theorem isHex_of_mem_toHex {bs : List Byte} {c : CodePoint} (h : c ∈ toHex bs) : IsHex c := by
  have hdigit : ∀ d : Fin 16, IsHex (hexDigit d) := by decide
  obtain ⟨b, -, hb⟩ := List.mem_flatMap.mp h
  rcases List.mem_pair.mp hb with rfl | rfl
  · exact hdigit _
  · exact hdigit _

namespace DecodedPayload

theorem drop_asHexLastHash (d : DecodedPayload) : d.asHexLastHash.drop 2 = toHex d.lastHash :=
  List.drop_left' rfl

theorem take_asHexLastHash (d : DecodedPayload) : d.asHexLastHash.take 2 = py "0x" :=
  List.take_left' rfl

/-- The text of a decoded hash is the hash again. -/
theorem fromHex_asHexLastHash (d : DecodedPayload) :
    fromHex (stripHexPrefix d.asHexLastHash) = some d.lastHash := by
  rw [stripHexPrefix, if_pos (.inl d.take_asHexLastHash), d.drop_asHexLastHash, fromHex_toHex]

theorem isHash_asHexLastHash {d : DecodedPayload} (h : d.lastHash.length = lastHashBytes) :
    IsHash d.asHexLastHash := by
  refine ⟨d.take_asHexLastHash, ?_, ?_⟩
  · rw [d.drop_asHexLastHash, length_toHex, h]
    rfl
  · rw [d.drop_asHexLastHash]
    exact fun c => isHex_of_mem_toHex

/-- The intent a decoded payload is about, with what a payload does not hold. -/
def toIntent (d : DecodedPayload) (regime : EpochRegime) (snapshot : Option NetworkConfigSnapshot)
    (version signature : Option PyStr) : AnchorIntent where
  intentId := d.intentId
  shardId := d.shardId
  lastHash := d.asHexLastHash
  entryNonce := d.entryNonce
  epochRegime := regime
  networkConfigSnapshot := snapshot
  adapterVersion := version
  signatureEd25519 := signature

end DecodedPayload

/-- A text is no longer than its bytes. -/
theorem length_le_length_utf8Bytes (s : PyStr) : s.length ≤ (utf8Bytes s).length := by
  induction s with
  | nil => exact Nat.le_refl 0
  | cons c s ih =>
    have := List.length_pos_iff.mpr (utf8Char_ne_nil c)
    rw [utf8Bytes_cons, List.length_append, List.length_cons]
    omega

/-- **Both ways round**: what encodes decodes to the same fields, and what decodes is the
encoding of its fields, which make a valid intent. -/
theorem payload_round_trip :
    (∀ (intent : AnchorIntent) (data : List Byte), encodePayload intent = .ok data →
      ∃ lastHash, fromHex (stripHexPrefix intent.lastHash) = some lastHash ∧
        decodePayload data =
          .ok ⟨intent.shardId, lastHash, intent.entryNonce, intent.intentId⟩) ∧
    ∀ (data : List Byte) (d : DecodedPayload), decodePayload data = .ok d →
      (∀ regime snapshot version signature,
        encodePayload (d.toIntent regime snapshot version signature) = .ok data) ∧
      (∀ regime, (d.toIntent regime none none none).Valid) ∧ isDsmAnchorPayload data = true := by
  constructor
  · -- what encodes decodes
    intro intent data h
    obtain ⟨henc, ⟨h0, h64⟩, lastHash, hhash, hsized, rfl⟩ := encodePayload_eq_ok.mp h
    refine ⟨lastHash, hhash, decodePayload_eq_ok.mpr
      ⟨_, _, hsized, rfl, decodeUtf8_utf8Bytes henc, ?_⟩⟩
    have hread : (BigEndian.ofDigits (BigEndian.toDigits 8 intent.entryNonce.toNat : List Byte)) =
        intent.entryNonce.toNat := BigEndian.ofDigits_toDigits (by omega)
    rw [hread]
    exact (Int.toNat_of_nonneg h0).symm
  · -- what decodes encodes
    intro data d h
    obtain ⟨shardId, nonce, hsized, rfl, hutf, hnonce⟩ := decodePayload_eq_ok.mp h
    have hbytes := utf8Bytes_of_decodeUtf8 hutf
    have henc := encodable_of_decodeUtf8 hutf
    have hlt := BigEndian.ofDigits_lt nonce
    rw [hsized.entryNonce] at hlt
    have hdigits : BigEndian.toDigits 8 d.entryNonce.toNat = nonce := by
      have := BigEndian.toDigits_ofDigits nonce
      rwa [hsized.entryNonce, ← Int.toNat_natCast (BigEndian.ofDigits nonce), ← hnonce] at this
    refine ⟨fun regime snapshot version signature => ?_, fun regime => ?_,
      hsized.isDsmAnchorPayload⟩
    · -- the same bytes
      refine encodePayload_eq_ok.mpr ⟨henc, ?_, d.lastHash, d.fromHex_asHexLastHash, ?_, ?_⟩
      · show 0 ≤ d.entryNonce ∧ d.entryNonce < 2 ^ 64
        rw [hnonce]
        exact ⟨Int.natCast_nonneg _, by exact_mod_cast hlt⟩
      · show Sized (utf8Bytes d.shardId) d.lastHash (BigEndian.toDigits 8 d.entryNonce.toNat) _
        rw [hbytes, hdigits]
        exact hsized
      · show _ = layout (utf8Bytes d.shardId) d.lastHash
          (BigEndian.toDigits 8 d.entryNonce.toNat) d.intentId.bytes
        rw [hbytes, hdigits]
    · -- a valid intent: its id has a character, and no more than it has bytes
      have hpos := hsized.shardId_pos
      have hle := hsized.shardId_le
      have hchars := length_le_length_utf8Bytes d.shardId
      rw [← hbytes] at hpos hle
      have hne : 1 ≤ d.shardId.length := by
        by_contra hzero
        rw [List.eq_nil_of_length_eq_zero (by omega : d.shardId.length = 0)] at hpos
        exact absurd hpos (by decide)
      have h0 : 0 ≤ d.entryNonce := hnonce ▸ Int.natCast_nonneg _
      exact ⟨⟨henc, hne, hchars.trans hle⟩, DecodedPayload.isHash_asHexLastHash hsized.lastHash, h0,
        by simp [DecodedPayload.toIntent], by simp [DecodedPayload.toIntent],
        by simp [DecodedPayload.toIntent]⟩

/-- An intent with an upper-case hash. -/
def sampleIntent : AnchorIntent where
  intentId := Uuid.zero
  shardId := py "sessions"
  lastHash := py "0x" ++ List.replicate 64 65
  entryNonce := 258
  epochRegime := .supernova
  networkConfigSnapshot := none
  adapterVersion := none
  signatureEd25519 := none

/-- Its payload. -/
def samplePayload : List Byte :=
  layout (utf8Bytes (py "sessions")) (List.replicate 32 170) [0, 0, 0, 0, 0, 0, 1, 2]
    (List.replicate 16 0)

/-- Both ways on this intent. -/
theorem payload_round_trip_sample :
    (∃ lastHash, fromHex (stripHexPrefix sampleIntent.lastHash) = some lastHash ∧
      decodePayload samplePayload = .ok ⟨py "sessions", lastHash, 258, Uuid.zero⟩) ∧
    isDsmAnchorPayload samplePayload = true := by
  have hencode : encodePayload sampleIntent = .ok samplePayload := by decide +kernel
  have hdecode : decodePayload samplePayload =
      .ok ⟨py "sessions", List.replicate 32 170, 258, Uuid.zero⟩ := by decide +kernel
  exact ⟨payload_round_trip.1 sampleIntent samplePayload hencode,
    (payload_round_trip.2 samplePayload _ hdecode).2.2⟩

/-! ### Corruption -/

theorem take_head_layout (shardId lastHash entryNonce intentId : List Byte) :
    (layout shardId lastHash entryNonce intentId).take (magic.length + 1) =
      magic ++ [Fin.ofNat 256 shardId.length] := by
  unfold layout
  simp only [List.append_assoc]
  rw [← List.append_assoc magic]
  exact List.take_left' rfl

/-- The bytes of the shard id, where the length byte puts them. -/
theorem slice_shardId (shardId lastHash entryNonce intentId : List Byte) :
    slice (layout shardId lastHash entryNonce intentId) (magic.length + 1) shardId.length = shardId :=
  slice_mid (a := magic ++ [Fin.ofNat 256 shardId.length])
    (c := lastHash ++ entryNonce ++ intentId) (by simp only [layout, List.append_assoc]) rfl rfl

/-- Bytes with the head of a payload and its length are a payload, if their shard id is one. -/
theorem decodePayload_of_head {shardId lastHash entryNonce intentId q : List Byte}
    (h : Sized shardId lastHash entryNonce intentId)
    (hlen : q.length = (layout shardId lastHash entryNonce intentId).length)
    (hhead : q.take (magic.length + 1) =
      (layout shardId lastHash entryNonce intentId).take (magic.length + 1)) {s : PyStr}
    (hs : decodeUtf8 (slice q (magic.length + 1) shardId.length) = some s) :
    ∃ d, decodePayload q = .ok d := by
  rw [take_head_layout] at hhead
  rw [length_layout, h.lastHash, h.entryNonce, h.intentId] at hlen
  have hle := h.shardId_le
  unfold shardIdMaxBytes at hle
  have hmagic : q.take magic.length = magic := by
    have htake : q.take magic.length = (q.take (magic.length + 1)).take magic.length := by
      rw [List.take_take]
      rfl
    rw [htake, hhead]
    exact List.take_left' rfl
  have hbyte : (q.getD magic.length 0).val = shardId.length := by
    have hget : q.getD magic.length 0 = (q.take (magic.length + 1)).getD magic.length 0 := by
      rw [List.getD_eq_getElem?_getD, List.getD_eq_getElem?_getD, List.getElem?_take_of_lt (by simp)]
    rw [hget, hhead]
    exact Nat.mod_eq_of_lt (by omega)
  have htotal : q.length = magic.length + 1 + (q.getD magic.length 0).val + lastHashBytes +
      entryNonceBytes + intentIdBytes := by
    rw [hlen, hbyte]
    rfl
  obtain ⟨shardId', lastHash', entryNonce', intentId', rfl, h₁, h₂, h₃, h₄⟩ :=
    exists_layout hmagic htotal
  rw [hbyte] at h₁
  have hsized : Sized shardId' lastHash' entryNonce' intentId' :=
    ⟨h₁ ▸ h.shardId_pos, h₁ ▸ h.shardId_le, h₂, h₃, h₄⟩
  rw [← h₁, slice_shardId] at hs
  rw [hsized.decodePayload, hs]
  exact ⟨_, rfl⟩

/-- **Which changed bytes are detected**: those of the magic and of the length, and those that
leave no shard id.  Whatever else is changed decodes to another payload. -/
theorem corruption_detected_iff {intent : AnchorIntent} {p q : List Byte}
    (hp : encodePayload intent = .ok p) (hlen : q.length = p.length) (hne : q ≠ p) :
    ((∃ e, decodePayload q = .error e) ↔
      q.take (magic.length + 1) ≠ p.take (magic.length + 1) ∨
        decodeUtf8 (slice q (magic.length + 1) (utf8Bytes intent.shardId).length) = none) ∧
    ∀ d, decodePayload q = .ok d → decodePayload p ≠ .ok d := by
  have hback := payload_round_trip.2
  obtain ⟨-, -, lastHash, -, hsized, rfl⟩ := encodePayload_eq_ok.mp hp
  refine ⟨⟨?_, ?_⟩, ?_⟩
  · rintro ⟨e, he⟩
    by_contra hkept
    rw [not_or, not_not] at hkept
    obtain ⟨hhead, hshard⟩ := hkept
    obtain ⟨s, hs⟩ := Option.ne_none_iff_exists'.mp hshard
    obtain ⟨d, hd⟩ := decodePayload_of_head hsized hlen hhead hs
    rw [he] at hd
    cases hd
  · intro hchanged
    cases hdecode : decodePayload q with
    | error e => exact ⟨e, rfl⟩
    | ok d =>
      obtain ⟨shardId, entryNonce, hsized', rfl, hutf, -⟩ := decodePayload_eq_ok.mp hdecode
      -- of one length, the two have shard ids of one length
      have hshard : shardId.length = (utf8Bytes intent.shardId).length := by
        simp only [length_layout, hsized.lastHash, hsized.entryNonce, hsized.intentId,
          hsized'.lastHash, hsized'.entryNonce, hsized'.intentId] at hlen
        omega
      rcases hchanged with hhead | hnone
      · rw [take_head_layout, take_head_layout, hshard] at hhead
        exact absurd rfl hhead
      · rw [← hshard, slice_shardId, hutf] at hnone
        cases hnone
  · intro d hq hpd
    have hencq := (hback q d hq).1 .supernova none none none
    have hencp := (hback _ d hpd).1 .supernova none none none
    rw [hencp] at hencq
    exact hne (Except.ok.inj hencq).symm

/-- The payload with one byte of its shard id changed. -/
def brokenPayload : List Byte :=
  layout (255 :: utf8Bytes (py "essions")) (List.replicate 32 170) [0, 0, 0, 0, 0, 0, 1, 2]
    (List.replicate 16 0)

/-- A byte that is no UTF-8 is detected. -/
theorem corruption_detected_sample : ∃ e, decodePayload brokenPayload = .error e := by
  have hencode : encodePayload sampleIntent = .ok samplePayload := by decide +kernel
  have hnone : decodeUtf8 (slice brokenPayload (magic.length + 1)
      (utf8Bytes sampleIntent.shardId).length) = none := by decide +kernel
  have hlen : brokenPayload.length = samplePayload.length := by decide +kernel
  have hne : brokenPayload ≠ samplePayload := by decide +kernel
  exact (corruption_detected_iff hencode hlen hne).1.mpr (.inr hnone)

/-- The payload with one byte of its hash changed. -/
def forgedPayload : List Byte :=
  layout (utf8Bytes (py "sessions")) (171 :: List.replicate 31 170) [0, 0, 0, 0, 0, 0, 1, 2]
    (List.replicate 16 0)

/-- A changed hash is not detected: it decodes to another payload. -/
theorem forgedPayload_decodes :
    encodePayload sampleIntent = .ok samplePayload ∧ forgedPayload ≠ samplePayload ∧
      forgedPayload.length = samplePayload.length ∧
      ∃ d, decodePayload forgedPayload = .ok d ∧ decodePayload samplePayload ≠ .ok d := by
  refine ⟨by decide +kernel, by decide +kernel, by decide +kernel,
    ⟨py "sessions", 171 :: List.replicate 31 170, 258, Uuid.zero⟩, by decide +kernel,
    by decide +kernel⟩

end Mvx

end Daryl
