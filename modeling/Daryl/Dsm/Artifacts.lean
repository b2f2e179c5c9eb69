import Daryl.Dsm.Attestation
import Daryl.Dsm.History
import Daryl.Json.Scan
import Daryl.Lib.Run
import Daryl.Py.Eq
import Daryl.Py.Name

/-!
# `artifacts`: the store of raw data

The bytes of a request or an answer are kept, compressed, under their hash, and a small dict
beside them says where they are from.  The first store of some bytes writes the two files one
after the other; a later one reads the dict and writes nothing.  A link rewrites the dict in
place.  A process can die in any of these writes.

## Main definitions

* `Gzip` — the compression.
* `store`, `retrieve`, `getMetadata`, `verifyArtifact`, `linkToEntry` — the code.
* `Call` — what can be done to the store, or begun.
* `Readable` — every artifact with both files has a dict.
* `Careful` — a write of a dict is of text that encodes, and the process lives through it.

## Main results

* `step_cases` — what a call does to the files.
* `stored_kept` — **bytes that were stored are given back and verified ever after**, whatever is
  called and wherever it dies.
* `told_grows` — a dict keeps its fields, and its links in order, until a write of it fails.
* `readable_always_iff` — **every artifact has its dict in exactly the careful runs.**
-/

namespace Daryl

open Py Json Run

namespace Artifacts

variable {F : Type} [PyFloat F] {sha : Sha256}

/-! ### The files -/

/-- `gzip`: what was compressed decompresses, whatever time was written into it. -/
structure Gzip where
  compress : ℕ → List Byte → List Byte
  decompress : List Byte → Option (List Byte)
  decompress_compress : ∀ mtime bs, decompress (compress mtime bs) = some bs

/-- The two files of an artifact. -/
structure Files where
  bin : Option (List Byte)
  info : Option (List Byte)

/-- The directory: the files under a subdirectory and a name. -/
abbrev Dir := PyStr × PyStr → Files

/-- An empty directory. -/
def Dir.empty : Dir := fun _ => ⟨none, none⟩

/-- `_path_for`, of a name without a slash: `with_suffix` replaces an extension. -/
def pathFor (artifactHash : PyStr) : PyStr × PyStr := (artifactHash.take 2, stem artifactHash)

/-- `json.dumps(meta, ensure_ascii=False)`. -/
def metaStyle : Style := ⟨false, true, true⟩

/-- `meta_path.write_text(json.dumps(meta, ensure_ascii=False))`: what it raises, and the file.
The file is there, and empty, when the text turns out not to encode. -/
def writeMeta (old : Option (List Byte)) (v : PyVal F) :
    Except PyError Unit × Option (List Byte) :=
  match dumps metaStyle v with
  | .error err => (.error (DumpsError.toPyError err), old)
  | .ok text =>
    match encodeUtf8 text with
    | some bs => (.ok (), some bs)
    | none => (.error .unicodeEncodeError, some [])

/-- `json.loads(meta_path.read_text())`. -/
def loadMeta (bs : List Byte) : Except PyError (PyVal F) :=
  match decodeUtf8 bs with
  | none => .error .unicodeDecodeError
  | some text =>
    match loads (universalNewlines false text) with
    | none => .error .valueError
    | some v => .ok v

/-- What has a `get`. -/
def fieldsOf : PyVal F → Except PyError (List (Key F × PyVal F))
  | .dict kvs => .ok kvs
  | _ => .error .attributeError

/-! ### `store` -/

/-- The arguments of `store`, the time that `gzip` writes and the time of the clock. -/
structure StoreCall (F : Type) [PyFloat F] where
  rawData : RawData F
  source : PyStr
  artifactType : PyStr
  metadata : Option (List (Key F × PyVal F))
  mtime : ℕ
  now : Datetime

/-- What `store` returns. -/
structure Receipt (F : Type) [PyFloat F] where
  artifactHash : PyStr
  sizeBytes : PyVal F
  compressedBytes : PyVal F
  source : PyVal F
  artifactType : PyVal F
  storedAt : PyVal F
  path : PyStr

/-- `f"{artifact_hash[:2]}/{artifact_hash}.bin.gz"`. -/
def receiptPath (artifactHash : PyStr) : PyStr :=
  artifactHash.take 2 ++ py "/" ++ artifactHash ++ py ".bin.gz"

/-- The items of `meta`. -/
def metaItems (artifactHash : PyStr) (sizeBytes compressedBytes : ℕ) (c : StoreCall F) :
    List (PyStr × PyVal F) :=
  [(py "artifact_hash", .str artifactHash), (py "size_bytes", .int sizeBytes),
    (py "compressed_bytes", .int compressedBytes), (py "source", .str c.source),
    (py "artifact_type", .str c.artifactType), (py "stored_at", .str c.now.isoformat),
    (py "linked_entries", .list [])] ++
  match c.metadata with
  | some (kv :: kvs) => [(py "extra", .dict (kv :: kvs))]
  | _ => []

/-- The dict that a first store writes. -/
def metaDict (sha : Sha256) (gz : Gzip) (c : StoreCall F) (rawBytes : List Byte) : PyVal F :=
  .dict (strItems (metaItems (hexdigest sha rawBytes) rawBytes.length
    (gz.compress c.mtime rawBytes).length c))

/-- What a later store returns. -/
def storedReceipt (artifactHash : PyStr) (rawBytes : List Byte) (c : StoreCall F)
    (m : List (Key F × PyVal F)) : Receipt F where
  artifactHash := artifactHash
  sizeBytes := (dictGet (py "size_bytes") m).getD (.int rawBytes.length)
  compressedBytes := (dictGet (py "compressed_bytes") m).getD (.int 0)
  source := (dictGet (py "source") m).getD (.str c.source)
  artifactType := (dictGet (py "artifact_type") m).getD (.str c.artifactType)
  storedAt := (dictGet (py "stored_at") m).getD (.str [])
  path := receiptPath artifactHash

/-- `store`. -/
def store (sha : Sha256) (gz : Gzip) (d : Dir) (c : StoreCall F) :
    Except PyError (Receipt F) × Dir :=
  match serialize c.rawData with
  | .error err => (.error err, d)
  | .ok rawBytes =>
    let artifactHash := hexdigest sha rawBytes
    let path := pathFor artifactHash
    match (d path).bin, (d path).info with
    | some _, some bs =>
      (((loadMeta bs).bind fieldsOf).map (storedReceipt artifactHash rawBytes c), d)
    | _, old =>
      let compressed := gz.compress c.mtime rawBytes
      let w := writeMeta old (metaDict sha gz c rawBytes)
      (w.1.map fun _ => {
        artifactHash := artifactHash
        sizeBytes := .int rawBytes.length
        compressedBytes := .int compressed.length
        source := .str c.source
        artifactType := .str c.artifactType
        storedAt := .str c.now.isoformat
        path := receiptPath artifactHash },
      Function.update d path ⟨some compressed, w.2⟩)

/-- Where a process dies: it had written the first bytes of a file. -/
inductive Death
  | bin (k : ℕ)
  | info (k : ℕ)

/-- The directory after a `store` in which the process dies. -/
def storeDying (sha : Sha256) (gz : Gzip) (d : Dir) (c : StoreCall F) (death : Death) : Dir :=
  match serialize c.rawData with
  | .error _ => d
  | .ok rawBytes =>
    let path := pathFor (hexdigest sha rawBytes)
    match (d path).bin, (d path).info with
    | some _, some _ => d
    | _, old =>
      let compressed := gz.compress c.mtime rawBytes
      match death with
      | .bin k => Function.update d path ⟨some (compressed.take k), old⟩
      | .info k => Function.update d path
        ⟨some compressed, (writeMeta old (metaDict sha gz c rawBytes)).2.map (List.take k)⟩

/-! ### The other calls -/

/-- `retrieve`. -/
def retrieve (gz : Gzip) (d : Dir) (artifactHash : PyStr) : Option (List Byte) :=
  (d (pathFor artifactHash)).bin.bind gz.decompress

/-- `get_metadata`. -/
def getMetadata (d : Dir) (artifactHash : PyStr) : Option (PyVal F) :=
  (d (pathFor artifactHash)).info.bind fun bs => (loadMeta bs).toOption

/-- `exists`. -/
def isStored (d : Dir) (artifactHash : PyStr) : Bool := (d (pathFor artifactHash)).bin.isSome

/-- What `verify_artifact` says. -/
inductive ArtifactStatus
  | missing
  | corrupted
  | intact (sizeBytes : ℕ)
  deriving DecidableEq

/-- `verify_artifact`. -/
def verifyArtifact (sha : Sha256) (gz : Gzip) (d : Dir) (artifactHash : PyStr) : ArtifactStatus :=
  match (d (pathFor artifactHash)).bin with
  | none => .missing
  | some bs =>
    match gz.decompress bs with
    | none => .corrupted
    | some raw => if hexdigest sha raw ≠ artifactHash then .corrupted else .intact raw.length

/-- What `link_to_entry` makes of the dict of an artifact: the dict to write, if any, and the
number it returns. -/
def linkMeta (entryId : PyStr) (m : List (Key F × PyVal F)) :
    Except PyError (Option (PyVal F) × ℕ) :=
  match (dictGet (py "linked_entries") m).getD (.list []) with
  | .list linked =>
    if pyIn (.str entryId) linked then .ok (none, linked.length)
    else .ok (some (.dict (dictSet (py "linked_entries") (.list (linked ++ [.str entryId])) m)),
      linked.length + 1)
  -- a string or a dict can be searched, and has no `append`
  | .str linked =>
    if entryId <:+: linked then .ok (none, linked.length) else .error .attributeError
  | .dict linked =>
    if (dictGet entryId linked).isSome then .ok (none, linked.length) else .error .attributeError
  | _ => .error .typeError

/-- `link_to_entry`. -/
def linkToEntry (F : Type) [PyFloat F] (d : Dir) (artifactHash entryId : PyStr) :
    Except PyError ℕ × Dir :=
  let path := pathFor artifactHash
  match (d path).info with
  | none => (.ok 0, d)
  | some bs =>
    match (loadMeta (F := F) bs).bind fun v => (fieldsOf v).bind (linkMeta entryId) with
    | .error err => (.error err, d)
    | .ok (none, n) => (.ok n, d)
    | .ok (some v, n) =>
      let w := writeMeta (some bs) v
      (w.1.map fun _ => n, Function.update d path ⟨(d path).bin, w.2⟩)

/-- The directory after a `link_to_entry` in which the process dies. -/
def linkDying (F : Type) [PyFloat F] (d : Dir) (artifactHash entryId : PyStr) (k : ℕ) : Dir :=
  let path := pathFor artifactHash
  match (d path).info with
  | none => d
  | some bs =>
    match (loadMeta (F := F) bs).bind fun v => (fieldsOf v).bind (linkMeta entryId) with
    | .ok (some v, _) =>
      Function.update d path ⟨(d path).bin, (writeMeta (some bs) v).2.map (List.take k)⟩
    | _ => d

/-- The name of an artifact in a link.  One with a slash may be another artifact's: the path it
makes has a directory more. -/
abbrev ArtifactName := {s : PyStr // 47 ∉ s}

/-- A call, or one in which the process dies. -/
inductive Call (F : Type) [PyFloat F]
  | store (c : StoreCall F)
  | storeDying (c : StoreCall F) (death : Death)
  | link (artifactHash : ArtifactName) (entryId : PyStr)
  | linkDying (artifactHash : ArtifactName) (entryId : PyStr) (k : ℕ)

/-- What a call leaves. -/
def step (sha : Sha256) (gz : Gzip) (d : Dir) : Call F → Dir
  | .store c => (Artifacts.store sha gz d c).2
  | .storeDying c death => Artifacts.storeDying sha gz d c death
  | .link artifactHash entryId => (linkToEntry F d artifactHash.val entryId).2
  | .linkDying artifactHash entryId k => Artifacts.linkDying F d artifactHash.val entryId k

/-! ### Dicts that are set in place -/

omit [PyFloat F] in
theorem dictGet_dictSet {V : Type} (k l : PyStr) (v : V) (kvs : List (Key F × V)) :
    dictGet l (dictSet k v kvs) = if k = l then some v else dictGet l kvs := by
  induction kvs with
  | nil => rfl
  | cons q kvs ih =>
    obtain ⟨key, w⟩ := q
    cases key with
    | str m =>
      rw [dictSet]
      by_cases hm : m = k
      · subst hm
        rw [if_pos rfl, dictGet, dictGet]
        split_ifs <;> rfl
      · rw [if_neg hm, dictGet, dictGet, ih]
        by_cases hl : m = l
        · rw [if_pos hl, if_pos hl, if_neg fun h => hm (hl.trans h.symm)]
        · rw [if_neg hl, if_neg hl]
    | _ => exact ih

/-- What is read back as it is stays so when a value that is goes in. -/
theorem form_dictSet {kvs : List (Key F × PyVal F)} (h : form (.dict kvs) = .dict kvs) (k : PyStr)
    {v : PyVal F} (hv : form v = v) : form (.dict (dictSet k v kvs)) = .dict (dictSet k v kvs) := by
  have hvalue : ∀ q ∈ dictSet k v kvs, form q.2 = q.2 := by
    intro q hq
    rcases mem_dictSet hq with rfl | hq
    · exact hv
    · exact form_of_mem h hq
  obtain ⟨qs, hqs, hnodup⟩ : ∃ qs : List (PyStr × PyVal F),
      dictSet k v kvs = strItems qs ∧ (qs.map Prod.fst).Nodup := by
    obtain ⟨ps, rfl, hps⟩ := exists_strItems_of_form h
    by_cases hk : k ∈ ps.map Prod.fst
    · obtain ⟨qs, hqs, hkeys⟩ := exists_dictSet_strItems (F := F) v hk
      exact ⟨qs, hqs, hkeys ▸ hps⟩
    · refine ⟨ps ++ [(k, v)], dictSet_strItems v hk, ?_⟩
      rw [List.map_append, List.map_singleton]
      exact hps.append (List.nodup_singleton k) (List.disjoint_singleton.mpr hk)
  rw [hqs] at hvalue ⊢
  rw [form_strItems hnodup]
  congr 2
  conv_rhs => rw [← List.map_id qs]
  refine List.map_congr_left fun q hq => ?_
  rw [hvalue (.str q.1, q.2) (List.mem_map.mpr ⟨q, hq, rfl⟩)]
  rfl

/-! ### What a write of a dict leaves -/

/-- The file holds the text of a value. -/
def Written (bs : List Byte) (v : PyVal F) : Prop :=
  eachStr Encodable v ∧ ∃ text, print metaStyle v = some text ∧ bs = utf8Bytes text

variable (F) in
/-- The file cannot be read. -/
def Broken (bs : List Byte) : Prop := ∃ err, loadMeta (F := F) bs = .error err

theorem broken_nil : Broken F [] := ⟨.valueError, rfl⟩

theorem Written.loads {bs : List Byte} {v : PyVal F} (h : Written bs v) :
    loadMeta bs = .ok (form v) := by
  obtain ⟨henc, text, htext, rfl⟩ := h
  rw [loadMeta, decodeUtf8_utf8Bytes ((encodable_print rfl htext).mpr henc)]
  dsimp only
  rw [universalNewlines_eq_self (cr_notMem_print htext), loads_print htext nofun]

/-- **A dict that was cut short cannot be read.** -/
theorem Written.torn {bs : List Byte} {kvs : List (Key F × PyVal F)} (h : Written bs (.dict kvs))
    {k : ℕ} (hk : k < bs.length) : Broken F (bs.take k) := by
  obtain ⟨henc, text, htext, rfl⟩ := h
  have hsplit : utf8Bytes text = (utf8Bytes text).take k ++ (utf8Bytes text).drop k :=
    (List.take_append_drop k _).symm
  rw [Broken, loadMeta]
  cases hu : decodeUtf8 ((utf8Bytes text).take k) with
  | none => exact ⟨_, rfl⟩
  | some u =>
    obtain ⟨hbytes, w, rfl⟩ := decodeUtf8_splits ((encodable_print rfl htext).mpr henc) hsplit hu
    have hcr : cr ∉ u := fun hu => cr_notMem_print htext (List.mem_append_left w hu)
    have hw : w ≠ [] := by
      rintro rfl
      have hlength := congrArg List.length hbytes
      rw [List.append_nil, List.length_take] at hlength
      rw [List.append_nil] at hk
      omega
    dsimp only
    rw [universalNewlines_eq_self hcr, loads_torn htext nofun rfl hw]
    exact ⟨_, rfl⟩

/-- **A write leaves the text, or an empty file when some string does not encode.** -/
theorem writeMeta_cases (old : Option (List Byte)) (v : PyVal F) :
    (eachStr Encodable v ∧ ∃ bs, writeMeta old v = (.ok (), some bs) ∧ Written bs v) ∨
    (¬ eachStr Encodable v ∧ writeMeta old v = (.error .unicodeEncodeError, some [])) := by
  obtain ⟨text, htext⟩ := exists_print (show metaStyle.allowNan = true from rfl) v
  have henc := encodable_print (show metaStyle.ensureAscii = false from rfl) htext
  rw [writeMeta, dumps_eq_ok.mpr htext]
  dsimp only
  by_cases h : Encodable text
  · rw [encodeUtf8_of_encodable h]
    exact .inl ⟨henc.mp h, _, rfl, henc.mp h, text, htext, rfl⟩
  · rw [encodeUtf8, if_neg h]
    exact .inr ⟨fun hv => h (henc.mpr hv), rfl⟩

/-- The write of a value ends before the process dies. -/
def Survives (v : PyVal F) (k : ℕ) : Prop :=
  eachStr Encodable v ∧ ∀ text, print metaStyle v = some text → (utf8Bytes text).length ≤ k

/-- The file after a write in which the process dies: whole, or broken. -/
theorem writeMeta_take (old : Option (List Byte)) (kvs : List (Key F × PyVal F)) (k : ℕ) :
    ∃ bs, (writeMeta old (.dict kvs)).2.map (List.take k) = some bs ∧
      ((Survives (.dict kvs) k ∧ Written bs (.dict kvs)) ∨
        (¬ Survives (.dict kvs) k ∧ Broken F bs)) := by
  rcases writeMeta_cases old (.dict kvs) with ⟨henc, bs, hw, hwritten⟩ | ⟨henc, hw⟩
  · rw [hw]
    obtain ⟨-, text, htext, hbs⟩ := hwritten
    refine ⟨bs.take k, rfl, ?_⟩
    by_cases hk : bs.length ≤ k
    · rw [List.take_of_length_le hk]
      refine .inl ⟨⟨henc, fun text' htext' => ?_⟩, henc, text, htext, hbs⟩
      obtain rfl := Option.some.inj (htext.symm.trans htext')
      exact hbs ▸ hk
    · refine .inr ⟨fun h => hk (hbs ▸ h.2 text htext), ?_⟩
      exact Written.torn ⟨henc, text, htext, hbs⟩ (not_le.mp hk)
  · rw [hw]
    exact ⟨[], congrArg some List.take_nil, .inr ⟨fun h => henc h.1, broken_nil⟩⟩

/-! ### What the dicts say -/

variable {gz : Gzip} {bs : List Byte} {kvs : List (Key F × PyVal F)} {links : List PyStr}

/-- The file holds a dict, with these links. -/
structure Told (bs : List Byte) (kvs : List (Key F × PyVal F)) (links : List PyStr) : Prop where
  loads : loadMeta bs = .ok (.dict kvs)
  linked : dictGet (py "linked_entries") kvs = some (.list (links.map .str))
  nodup : links.Nodup
  encodable : eachStr Encodable (.dict kvs)

theorem Told.not_broken (h : Told bs kvs links) : ¬ Broken F bs := by
  rintro ⟨err, herr⟩
  exact nomatch h.loads.symm.trans herr

theorem Told.form (h : Told bs kvs links) : Py.form (.dict kvs) = .dict kvs := by
  have hloads := h.loads
  unfold loadMeta at hloads
  split at hloads
  · cases hloads
  split at hloads
  · cases hloads
  next v hv =>
  obtain rfl := Except.ok.inj hloads
  exact form_of_loads hv

theorem Told.unique {kvs kvs' : List (Key F × PyVal F)} {links links' : List PyStr}
    (h : Told bs kvs links) (h' : Told bs kvs' links') : kvs = kvs' ∧ links = links' := by
  obtain rfl := PyVal.dict.inj (Except.ok.inj (h.loads.symm.trans h'.loads))
  refine ⟨rfl, ?_⟩
  have hlists := PyVal.list.inj (Option.some.inj (h.linked.symm.trans h'.linked))
  exact List.map_injective_iff.mpr (fun _ _ => PyVal.str.inj) hlists

theorem keys_metaItems (artifactHash : PyStr) (sizeBytes compressedBytes : ℕ) (c : StoreCall F) :
    ((metaItems artifactHash sizeBytes compressedBytes c).map Prod.fst).Nodup := by
  have hkeys : [py "artifact_hash", py "size_bytes", py "compressed_bytes", py "source",
      py "artifact_type", py "stored_at", py "linked_entries", py "extra"].Nodup := by decide
  unfold metaItems
  split
  · exact hkeys
  · exact hkeys.sublist (List.sublist_append_left _ [py "extra"])

/-- What the caller gives to be written encodes. -/
def StoreCall.Encodes (c : StoreCall F) : Prop :=
  Encodable c.source ∧ Encodable c.artifactType ∧
    ∀ m, c.metadata = some m → eachStrItems Encodable m

/-- The dict of a first store encodes when what the caller says does. -/
theorem encodable_metaDict {c : StoreCall F} {rawBytes : List Byte} :
    eachStr Encodable (metaDict sha gz c rawBytes) ↔ c.Encodes := by
  have hkey : ∀ k ∈ [py "artifact_hash", py "size_bytes", py "compressed_bytes", py "source",
      py "artifact_type", py "stored_at", py "linked_entries", py "extra"], Encodable k := by decide
  simp only [List.forall_mem_cons] at hkey
  obtain ⟨hhash, hsize, hcompressed, hsource, htype, hstored, hlinked, hextra, -⟩ := hkey
  rw [metaDict, eachStr, eachStrItems_iff, strItems, List.forall_mem_map, metaItems,
    List.forall_mem_append, StoreCall.Encodes]
  -- of the fields that are always there, two are texts of the caller
  have hfixed : (∀ i ∈ [(py "artifact_hash", .str (hexdigest sha rawBytes)),
      (py "size_bytes", .int rawBytes.length),
      (py "compressed_bytes", .int (gz.compress c.mtime rawBytes).length),
      (py "source", .str c.source), (py "artifact_type", .str c.artifactType),
      (py "stored_at", .str c.now.isoformat), (py "linked_entries", (.list [] : PyVal F))],
      Encodable i.1 ∧ eachStr Encodable i.2) ↔ Encodable c.source ∧ Encodable c.artifactType := by
    simp [eachStr, eachStrList, hhash, hsize, hcompressed, hsource, htype,
      hstored, hlinked, encodable_hexdigest, encodable_isoformat]
  rw [← and_assoc]
  refine and_congr hfixed ?_
  split
  next kv kvs hmeta =>
    simp [hmeta, hextra, eachStr, Key.text]
  next hmeta =>
    refine iff_of_true (List.forall_mem_nil _) fun m hm => ?_
    cases m with
    | nil => exact trivial
    | cons kv kvs => exact (hmeta kv kvs hm).elim

/-- The dict of a first store is told, without links. -/
theorem told_of_written {c : StoreCall F} {rawBytes bs : List Byte}
    (h : Written bs (metaDict sha gz c rawBytes)) :
    ∃ kvs : List (Key F × PyVal F), Told bs kvs [] := by
  have hform := form_strItems (keys_metaItems (hexdigest sha rawBytes) rawBytes.length
    (gz.compress c.mtime rawBytes).length c)
  have hloads := h.loads
  rw [metaDict, hform] at hloads
  have henc := eachStr_form_of h.1
  rw [metaDict, hform] at henc
  refine ⟨_, hloads, ?_, List.nodup_nil, henc⟩
  refine dictGet_of_mem ?_ (List.mem_map.mpr ⟨(py "linked_entries", .list []), ?_, rfl⟩)
  · rw [List.map_map]
    exact keys_metaItems _ _ _ c
  · simp [metaItems]

/-- What a link makes of a dict. -/
theorem linkMeta_told (h : Told bs kvs links) (entryId : PyStr) : linkMeta entryId kvs =
      if entryId ∈ links then .ok (none, links.length)
      else .ok (some (.dict (dictSet (py "linked_entries")
        (.list ((links ++ [entryId]).map .str)) kvs)), links.length + 1) := by
  have hin : pyIn (.str entryId : PyVal F) (links.map .str) = true ↔ entryId ∈ links := by
    rw [pyIn_iff]
    simp
  rw [linkMeta, h.linked, Option.getD_some]
  dsimp only
  by_cases hmem : entryId ∈ links
  · rw [if_pos (hin.mpr hmem), if_pos hmem, List.length_map]
  · rw [if_neg fun h => hmem (hin.mp h), if_neg hmem, List.length_map, List.map_append]
    rfl

/-- The dict with a link more. -/
theorem Told.link {bs bs' : List Byte}
    (h : Told bs kvs links) {entryId : PyStr} (hnew : entryId ∉ links)
    (hw : Written bs' (.dict (dictSet (py "linked_entries")
      (.list ((links ++ [entryId]).map .str)) kvs) : PyVal F)) :
    Told bs' (dictSet (py "linked_entries") (.list ((links ++ [entryId]).map .str)) kvs)
      (links ++ [entryId]) := by
  have hlist (ss : List PyStr) : Py.form (.list (ss.map .str) : PyVal F) = .list (ss.map .str) := by
    have hl : formList (ss.map .str : List (PyVal F)) = ss.map .str := by
      induction ss with
      | nil => rfl
      | cons s ss ih => rw [List.map_cons, formList, ih]; rfl
    rw [Py.form, hl]
  refine ⟨?_, ?_, ?_, hw.1⟩
  · rw [hw.loads, form_dictSet h.form _ (hlist _)]
  · rw [dictGet_dictSet, if_pos rfl]
  · exact h.nodup.append (List.nodup_singleton _) (List.disjoint_singleton.mpr hnew)

/-- It encodes when the identifier does. -/
theorem Told.encodable_link (h : Told bs kvs links) (entryId : PyStr) :
    eachStr Encodable (.dict (dictSet (py "linked_entries")
      (.list ((links ++ [entryId]).map .str)) kvs) : PyVal F) ↔ Encodable entryId := by
  have hlist (ss : List PyStr) :
      eachStr Encodable (.list (ss.map .str) : PyVal F) ↔ ∀ s ∈ ss, Encodable s := by
    rw [eachStr, eachStrList_iff]
    simp [eachStr]
  have hall := h.encodable
  rw [eachStr, eachStrItems_iff] at hall ⊢
  constructor
  · intro hset
    have hmem := mem_of_dictGet (F := F) (k := py "linked_entries")
      (v := .list ((links ++ [entryId]).map .str)) (m := dictSet (py "linked_entries")
        (.list ((links ++ [entryId]).map .str)) kvs) (by rw [dictGet_dictSet, if_pos rfl])
    exact (hlist _).mp (hset _ hmem).2 entryId (List.mem_append_right _ (List.mem_singleton_self _))
  · intro hid q hq
    rcases mem_dictSet hq with rfl | hq
    · have hkey : Encodable (py "linked_entries") := by decide
      refine ⟨hkey, (hlist _).mpr fun s hs => ?_⟩
      rcases List.mem_append.mp hs with hs | hs
      · exact (hlist links).mp (hall _ (mem_of_dictGet h.linked)).2 s hs
      · exact List.mem_singleton.mp hs ▸ hid
    · exact hall q hq

/-! ### One call -/

variable {d : Dir} {p : PyStr × PyStr}

/-- The process lives through every write of a dict, and the text of the dict encodes.  The
other file may be cut. -/
def Careful (sha : Sha256) (gz : Gzip) (d : Dir) : Call F → Prop
  | .store c => ∀ rawBytes, serialize c.rawData = .ok rawBytes →
    (d (pathFor (hexdigest sha rawBytes))).info = none → c.Encodes
  | .storeDying _ (.bin _) => True
  | .storeDying c (.info k) => ∀ rawBytes, serialize c.rawData = .ok rawBytes →
    (d (pathFor (hexdigest sha rawBytes))).info = none → Survives (metaDict sha gz c rawBytes) k
  | .link artifactHash entryId => ∀ bs (kvs : List (Key F × PyVal F)) links,
    (d (pathFor artifactHash.val)).info = some bs → Told bs kvs links →
    entryId ∈ links ∨ Encodable entryId
  | .linkDying artifactHash entryId k => ∀ bs (kvs : List (Key F × PyVal F)) links,
    (d (pathFor artifactHash.val)).info = some bs → Told bs kvs links →
    entryId ∈ links ∨ Survives (.dict (dictSet (py "linked_entries")
      (.list ((links ++ [entryId]).map .str)) kvs)) k

/-- A dict has the bytes it is about beside it, and can be read or not. -/
structure Kept (F : Type) [PyFloat F] (sha : Sha256) (gz : Gzip) (d : Dir) : Prop where
  whole : ∀ p bs, (d p).info = some bs → ∃ rawBytes mtime,
    pathFor (hexdigest sha rawBytes) = p ∧ (d p).bin = some (gz.compress mtime rawBytes)
  told : ∀ p bs, (d p).info = some bs →
    Broken F bs ∨ ∃ (kvs : List (Key F × PyVal F)) (links : List PyStr), Told bs kvs links

/-- What a call does to the files. -/
inductive Change (sha : Sha256) (gz : Gzip) (d : Dir) (call : Call F) : Dir → Prop
  | same (hc : Careful sha gz d call) : Change sha gz d call d
  | bin (hc : Careful sha gz d call) {p : PyStr × PyStr} (hp : (d p).info = none)
    (bs : Option (List Byte)) : Change sha gz d call (Function.update d p ⟨bs, none⟩)
  | created {p : PyStr × PyStr} (hp : (d p).info = none) {rawBytes : List Byte}
    (hpath : pathFor (hexdigest sha rawBytes) = p) (mtime : ℕ) {bs : List Byte}
    (hbs : (Careful sha gz d call ∧ ∃ kvs : List (Key F × PyVal F), Told bs kvs []) ∨
      (¬ Careful sha gz d call ∧ Broken F bs)) :
    Change sha gz d call (Function.update d p ⟨some (gz.compress mtime rawBytes), some bs⟩)
  | linked {p : PyStr × PyStr} {old : List Byte} (hp : (d p).info = some old)
    {kvs : List (Key F × PyVal F)} {links : List PyStr} (hold : Told old kvs links)
    {e : PyStr} {bs : List Byte}
    (hbs : (Careful sha gz d call ∧ Told bs (dictSet (py "linked_entries")
        (.list ((links ++ [e]).map .str)) kvs) (links ++ [e])) ∨
      (¬ Careful sha gz d call ∧ Broken F bs)) :
    Change sha gz d call (Function.update d p ⟨(d p).bin, some bs⟩)

/-- In the kept directories a first store finds no dict. -/
theorem Kept.info_eq_none (h : Kept F sha gz d)
    (hp : ∀ bs bs', (d p).bin = some bs → (d p).info = some bs' → False) : (d p).info = none := by
  cases hinfo : (d p).info with
  | none => rfl
  | some bs =>
    obtain ⟨rawBytes, mtime, -, hbin⟩ := h.whole p bs hinfo
    exact (hp _ _ hbin hinfo).elim

theorem store_eq (gz : Gzip) (h : Kept F sha gz d) {c : StoreCall F}
    {rawBytes : List Byte} (hser : serialize c.rawData = .ok rawBytes) :
    (store sha gz d c).2 = if (d (pathFor (hexdigest sha rawBytes))).info = none then
      Function.update d (pathFor (hexdigest sha rawBytes)) ⟨some (gz.compress c.mtime rawBytes),
        (writeMeta none (metaDict sha gz c rawBytes)).2⟩ else d := by
  rw [store, hser]
  dsimp only
  split
  · next hbin hinfo => rw [if_neg (by rw [hinfo]; exact nofun)]
  · next hnot =>
    have hnone := h.info_eq_none fun bs bs' hbin hinfo => hnot bs bs' hbin hinfo
    rw [if_pos hnone, hnone]

theorem storeDying_eq (gz : Gzip) (h : Kept F sha gz d) {c : StoreCall F}
    {rawBytes : List Byte} (hser : serialize c.rawData = .ok rawBytes) (death : Death) :
    storeDying sha gz d c death = if (d (pathFor (hexdigest sha rawBytes))).info = none then
      match death with
      | .bin k => Function.update d (pathFor (hexdigest sha rawBytes))
        ⟨some ((gz.compress c.mtime rawBytes).take k), none⟩
      | .info k => Function.update d (pathFor (hexdigest sha rawBytes))
        ⟨some (gz.compress c.mtime rawBytes),
          (writeMeta none (metaDict sha gz c rawBytes)).2.map (List.take k)⟩ else d := by
  rw [storeDying, hser]
  dsimp only
  split
  · next hbin hinfo => rw [if_neg (by rw [hinfo]; exact nofun)]
  · next hnot =>
    have hnone := h.info_eq_none fun bs bs' hbin hinfo => hnot bs bs' hbin hinfo
    rw [if_pos hnone, hnone]

theorem change_store (h : Kept F sha gz d) (c : StoreCall F) :
    Change sha gz d (.store c) (step sha gz d (.store c)) := by
  rw [step]
  cases hser : serialize c.rawData with
  | error err =>
    rw [store, hser]
    exact .same fun rawBytes hraw => nomatch hser.symm.trans hraw
  | ok rawBytes =>
    have hcareful : Careful sha gz d (.store c) ↔
        ((d (pathFor (hexdigest sha rawBytes))).info = none → c.Encodes) := by
      refine ⟨fun hc => hc rawBytes hser, fun hc raw hraw => ?_⟩
      obtain rfl := Except.ok.inj (hser.symm.trans hraw)
      exact hc
    rw [store_eq gz h hser]
    split_ifs with hnone
    · rcases writeMeta_cases none (metaDict sha gz c rawBytes) with ⟨henc, bs, hw, hwritten⟩ |
        ⟨henc, hw⟩
      · rw [hw]
        exact .created hnone rfl _
          (.inl ⟨hcareful.mpr fun _ => encodable_metaDict.mp henc, told_of_written hwritten⟩)
      · rw [hw]
        exact .created hnone rfl _
          (.inr ⟨fun hc => henc (encodable_metaDict.mpr (hcareful.mp hc hnone)), broken_nil⟩)
    · exact .same (hcareful.mpr fun hinfo => absurd hinfo hnone)

theorem change_storeDying (h : Kept F sha gz d) (c : StoreCall F) (death : Death) :
    Change sha gz d (.storeDying c death) (step sha gz d (.storeDying c death)) := by
  rw [step]
  cases hser : serialize c.rawData with
  | error err =>
    rw [storeDying, hser]
    cases death with
    | bin k => exact .same trivial
    | info k => exact .same fun rawBytes hraw => nomatch hser.symm.trans hraw
  | ok rawBytes =>
    rw [storeDying_eq gz h hser]
    cases death with
    | bin k =>
      have hcareful : Careful sha gz d (.storeDying c (.bin k)) := trivial
      split_ifs with hnone
      · exact .bin hcareful hnone _
      · exact .same hcareful
    | info k =>
      have hcareful : Careful sha gz d (.storeDying c (.info k)) ↔
          ((d (pathFor (hexdigest sha rawBytes))).info = none →
            Survives (metaDict sha gz c rawBytes) k) := by
        refine ⟨fun hc => hc rawBytes hser, fun hc raw hraw => ?_⟩
        obtain rfl := Except.ok.inj (hser.symm.trans hraw)
        exact hc
      split_ifs with hnone
      · -- the write of the dict is cut off after k bytes
        obtain ⟨bs, hw, ⟨hsurvives, hwritten⟩ | ⟨hsurvives, hbroken⟩⟩ :=
          writeMeta_take none (strItems (metaItems (hexdigest sha rawBytes) rawBytes.length
            (gz.compress c.mtime rawBytes).length c)) k
        · dsimp only
          rw [metaDict, hw]
          exact .created hnone rfl _
            (.inl ⟨hcareful.mpr fun _ => hsurvives, told_of_written hwritten⟩)
        · dsimp only
          rw [metaDict, hw]
          exact .created hnone rfl _ (.inr ⟨fun hc => hsurvives (hcareful.mp hc hnone), hbroken⟩)
      · exact .same (hcareful.mpr fun hinfo => absurd hinfo hnone)

theorem change_link (h : Kept F sha gz d) (artifactHash : ArtifactName)
    (entryId : PyStr) :
    Change sha gz d (.link (F := F) artifactHash entryId)
      (step sha gz d (.link (F := F) artifactHash entryId)) := by
  rw [step, linkToEntry]
  dsimp only
  cases hinfo : (d (pathFor artifactHash.val)).info with
  | none => exact .same fun bs _ _ hbs => nomatch hinfo.symm.trans hbs
  | some old =>
    rcases h.told _ old hinfo with ⟨err, herr⟩ | ⟨kvs, links, htold⟩
    · -- the dict cannot be read: nothing is written
      dsimp only
      rw [herr]
      refine .same fun bs kvs links hbs htold => ?_
      obtain rfl := Option.some.inj (hinfo.symm.trans hbs)
      exact nomatch htold.loads.symm.trans herr
    · have hcareful : Careful sha gz d (.link (F := F) artifactHash entryId) ↔
          entryId ∈ links ∨ Encodable entryId := by
        refine ⟨fun hc => hc old kvs links hinfo htold, fun hc bs kvs' links' hbs htold' => ?_⟩
        obtain rfl := Option.some.inj (hinfo.symm.trans hbs)
        rwa [← (htold.unique htold').2]
      dsimp only
      rw [htold.loads, Except.bind, fieldsOf, Except.bind, linkMeta_told htold]
      split_ifs with hmem
      · -- linked already
        exact .same (hcareful.mpr (.inl hmem))
      · dsimp only
        rcases writeMeta_cases (some old) (.dict (dictSet (py "linked_entries")
          (.list ((links ++ [entryId]).map .str)) kvs)) with ⟨henc, bs, hw, hwritten⟩ | ⟨henc, hw⟩
        · rw [hw]
          exact .linked hinfo htold (.inl ⟨hcareful.mpr (.inr ((htold.encodable_link _).mp henc)),
            htold.link hmem hwritten⟩)
        · rw [hw]
          exact .linked hinfo htold (e := entryId) (.inr ⟨fun hc => henc
            ((htold.encodable_link _).mpr ((hcareful.mp hc).resolve_left hmem)), broken_nil⟩)

theorem change_linkDying (h : Kept F sha gz d) (artifactHash : ArtifactName)
    (entryId : PyStr) (k : ℕ) :
    Change sha gz d (.linkDying (F := F) artifactHash entryId k)
      (step sha gz d (.linkDying (F := F) artifactHash entryId k)) := by
  rw [step, linkDying]
  cases hinfo : (d (pathFor artifactHash.val)).info with
  | none => exact .same fun bs _ _ hbs => nomatch hinfo.symm.trans hbs
  | some old =>
    rcases h.told _ old hinfo with ⟨err, herr⟩ | ⟨kvs, links, htold⟩
    · -- the dict cannot be read: nothing is written
      dsimp only
      rw [herr]
      refine .same fun bs kvs links hbs htold => ?_
      obtain rfl := Option.some.inj (hinfo.symm.trans hbs)
      exact nomatch htold.loads.symm.trans herr
    · have hcareful : Careful sha gz d (.linkDying (F := F) artifactHash entryId k) ↔
          entryId ∈ links ∨ Survives (.dict (dictSet (py "linked_entries")
            (.list ((links ++ [entryId]).map .str)) kvs)) k := by
        refine ⟨fun hc => hc old kvs links hinfo htold, fun hc bs kvs' links' hbs htold' => ?_⟩
        obtain rfl := Option.some.inj (hinfo.symm.trans hbs)
        obtain ⟨rfl, rfl⟩ := htold.unique htold'
        exact hc
      dsimp only
      rw [htold.loads, Except.bind, fieldsOf, Except.bind, linkMeta_told htold]
      split_ifs with hmem
      · -- linked already
        exact .same (hcareful.mpr (.inl hmem))
      · dsimp only
        obtain ⟨bs, hw, ⟨hsurvives, hwritten⟩ | ⟨hsurvives, hbroken⟩⟩ := writeMeta_take (some old)
          (dictSet (py "linked_entries") (.list ((links ++ [entryId]).map .str)) kvs) k
        · rw [hw]
          exact .linked hinfo htold
            (.inl ⟨hcareful.mpr (.inr hsurvives), htold.link hmem hwritten⟩)
        · rw [hw]
          exact .linked hinfo htold (e := entryId)
            (.inr ⟨fun hc => hsurvives ((hcareful.mp hc).resolve_left hmem), hbroken⟩)

/-- **What a call does to the files**, and when the dict it writes is one. -/
theorem step_cases (h : Kept F sha gz d) (call : Call F) :
    Change sha gz d call (step sha gz d call) := by
  cases call with
  | store c => exact change_store h c
  | storeDying c death => exact change_storeDying h c death
  | link artifactHash entryId => exact change_link h artifactHash entryId
  | linkDying artifactHash entryId k => exact change_linkDying h artifactHash entryId k

/-! ### Runs -/

/-- **What a call leaves is kept.** -/
theorem Change.kept {d d' : Dir} {call : Call F} (h : Kept F sha gz d)
    (hc : Change sha gz d call d') : Kept F sha gz d' := by
  cases hc with
  | same => exact h
  | bin _ hp bs =>
    refine ⟨fun q b hq => ?_, fun q b hq => ?_⟩
    · rw [Function.update_apply] at hq ⊢
      split_ifs at hq ⊢ with heq
      exact h.whole q b hq
    · rw [Function.update_apply] at hq
      split_ifs at hq
      exact h.told q b hq
  | created hp hpath mtime hbs =>
    refine ⟨fun q b hq => ?_, fun q b hq => ?_⟩
    · rw [Function.update_apply] at hq ⊢
      split_ifs at hq ⊢ with heq
      · exact ⟨_, mtime, hpath.trans heq.symm, rfl⟩
      · exact h.whole q b hq
    · rw [Function.update_apply] at hq
      split_ifs at hq
      · obtain rfl := Option.some.inj hq
        rcases hbs with ⟨-, kvs, htold⟩ | ⟨-, hbroken⟩
        · exact .inr ⟨kvs, [], htold⟩
        · exact .inl hbroken
      · exact h.told q b hq
  | linked hp _ hbs =>
    refine ⟨fun q b hq => ?_, fun q b hq => ?_⟩
    · rw [Function.update_apply] at hq ⊢
      split_ifs at hq ⊢ with heq
      · subst heq
        exact h.whole _ _ hp
      · exact h.whole q b hq
    · rw [Function.update_apply] at hq
      split_ifs at hq
      · obtain rfl := Option.some.inj hq
        rcases hbs with ⟨-, htold⟩ | ⟨-, hbroken⟩
        · exact .inr ⟨_, _, htold⟩
        · exact .inl hbroken
      · exact h.told q b hq

theorem kept_step (h : Kept F sha gz d) (call : Call F) :
    Kept F sha gz (step sha gz d call) := (step_cases h call).kept h

theorem kept_run (h : Kept F sha gz d) (calls : List (Call F)) :
    Kept F sha gz (run (step sha gz) d calls) :=
  run_keeps (P := Kept F sha gz) (fun _ call h => kept_step h call) h calls

theorem kept_empty (gz : Gzip) : Kept F sha gz Dir.empty := ⟨nofun, nofun⟩

/-- **Where there is a dict, the bytes stay.** -/
theorem Change.bin_eq {d d' : Dir} {call : Call F} (hc : Change sha gz d call d')
    {bin : List Byte} (hp : (d p).bin = some bin ∧ (d p).info.isSome) :
    (d' p).bin = some bin ∧ (d' p).info.isSome := by
  cases hc with
  | same => exact hp
  | bin _ hnone | created hnone =>
    rw [Function.update_apply]
    split_ifs with heq
    · subst heq
      rw [hnone] at hp
      exact absurd hp.2 Bool.false_ne_true
    · exact hp
  | linked =>
    rw [Function.update_apply]
    split_ifs with heq
    · subst heq
      exact ⟨hp.1, rfl⟩
    · exact hp

/-- After a store both files are there, of bytes with this hash. -/
theorem whole_store (h : Kept F sha gz d) {c : StoreCall F}
    {rawBytes : List Byte} (hser : serialize c.rawData = .ok rawBytes) :
    ∃ raw mtime, pathFor (hexdigest sha raw) = pathFor (hexdigest sha rawBytes) ∧
      ((store sha gz d c).2 (pathFor (hexdigest sha rawBytes))).bin =
        some (gz.compress mtime raw) ∧
      ((store sha gz d c).2 (pathFor (hexdigest sha rawBytes))).info.isSome := by
  rw [store_eq gz h hser]
  split_ifs with hnone
  · refine ⟨rawBytes, c.mtime, rfl, ?_, ?_⟩
    · rw [Function.update_self]
    · rw [Function.update_self]
      rcases writeMeta_cases none (metaDict sha gz c rawBytes) with ⟨-, bs, hw, -⟩ | ⟨-, hw⟩ <;>
        rw [hw] <;> rfl
  · obtain ⟨bs, hinfo⟩ := Option.ne_none_iff_exists'.mp hnone
    obtain ⟨raw, mtime, hpath, hbin⟩ := h.whole _ bs hinfo
    exact ⟨raw, mtime, hpath, hbin, by rw [hinfo]; rfl⟩

/-- A hash has no extension. -/
theorem stem_hexdigest (bs : List Byte) : stem (hexdigest sha bs) = hexdigest sha bs := by
  have hdot : ∀ c ∈ (hexdigest sha bs).reverse, (c != 46) = true := by
    intro c hc
    obtain ⟨d, -, rfl⟩ := List.mem_map.mp (List.mem_reverse.mp hc)
    have hdigit : ∀ d : Fin 16, (hexDigit d != 46) = true := by decide
    exact hdigit d
  rw [stem, List.dropWhile_eq_nil_iff.mpr hdot]

/-- **Bytes that were stored are given back, and verified, after every later call**: a process
that dies, a text that does not encode and a link do not touch them.  They are the bytes of the
call unless others had their digest before. -/
theorem stored_kept (gz : Gzip) (earlier : List (Call F)) (c : StoreCall F) {rawBytes : List Byte}
    (h : serialize c.rawData = .ok rawBytes) :
    ∃ raw, hexdigest sha raw = hexdigest sha rawBytes ∧
      (Function.Injective sha → raw = rawBytes) ∧ ∀ later : List (Call F),
      retrieve gz (run (step sha gz) Dir.empty (earlier ++ .store c :: later))
        (hexdigest sha rawBytes) = some raw ∧
      verifyArtifact sha gz (run (step sha gz) Dir.empty (earlier ++ .store c :: later))
        (hexdigest sha rawBytes) = .intact raw.length := by
  have hkept := kept_run (kept_empty gz : Kept F sha gz Dir.empty) earlier
  obtain ⟨raw, mtime, hpath, hfiles⟩ := whole_store hkept h
  have hhash : hexdigest sha raw = hexdigest sha rawBytes := by
    have hstem := (Prod.mk.inj hpath).2
    rwa [stem_hexdigest, stem_hexdigest] at hstem
  refine ⟨raw, hhash, fun hinj => hexdigest_injective hinj hhash, fun later => ?_⟩
  -- the two files are there after the store, and every later call leaves them
  have hlater : Kept F sha gz (run (step sha gz) Dir.empty (earlier ++ .store c :: later)) ∧
      ((run (step sha gz) Dir.empty (earlier ++ .store c :: later)
        (pathFor (hexdigest sha rawBytes))).bin = some (gz.compress mtime raw) ∧
      (run (step sha gz) Dir.empty (earlier ++ .store c :: later)
        (pathFor (hexdigest sha rawBytes))).info.isSome) := by
    rw [run_append, run_cons]
    refine run_keeps (P := fun d => Kept F sha gz d ∧
      (d (pathFor (hexdigest sha rawBytes))).bin = some (gz.compress mtime raw) ∧
        (d (pathFor (hexdigest sha rawBytes))).info.isSome) (fun d call hd => ?_)
      ⟨kept_step hkept (.store c), hfiles⟩ later
    exact ⟨kept_step hd.1 call, (step_cases hd.1 call).bin_eq hd.2⟩
  have hbin := hlater.2.1
  constructor
  · rw [retrieve, hbin, Option.bind_some, gz.decompress_compress]
  · rw [verifyArtifact, hbin]
    dsimp only
    rw [gz.decompress_compress]
    dsimp only
    rw [if_neg (not_not.mpr hhash)]

/-- A compression that keeps the bytes. -/
def plainGzip : Gzip := ⟨fun _ bs => bs, some, fun _ _ => rfl⟩

/-- One byte to store. -/
def sampleStore : StoreCall FloatLit :=
  ⟨.bytes [97], py "api", py "response", none, 0, sampleTime⟩

theorem stored_kept_sample : ∃ raw, hexdigest nibbles raw = hexdigest nibbles [97] ∧
    (Function.Injective nibbles → raw = [97]) ∧ ∀ later : List (Call FloatLit),
      retrieve plainGzip
        (run (step nibbles plainGzip) Dir.empty ([] ++ .store sampleStore :: later))
        (hexdigest nibbles [97]) = some raw ∧
      verifyArtifact nibbles plainGzip
        (run (step nibbles plainGzip) Dir.empty ([] ++ .store sampleStore :: later))
        (hexdigest nibbles [97]) = .intact raw.length :=
  stored_kept plainGzip [] sampleStore rfl

/-! ### The dicts of a run -/

/-- A dict is what it was, with links that were added. -/
def Grown (kvs kvs' : List (Key F × PyVal F)) (links links' : List PyStr) : Prop :=
  links <+: links' ∧ ∀ k, k ≠ py "linked_entries" → dictGet k kvs' = dictGet k kvs

/-- The dict at a path is broken, or has grown. -/
def Since (p : PyStr × PyStr) (kvs : List (Key F × PyVal F)) (links : List PyStr) (d : Dir) :
    Prop :=
  ∃ bs, (d p).info = some bs ∧ (Broken F bs ∨
    ∃ kvs' links', Told bs kvs' links' ∧ Grown kvs kvs' links links')

theorem Change.since {d d' : Dir} {call : Call F} (hc : Change sha gz d call d')
    (h : Since p kvs links d) : Since p kvs links d' := by
  obtain ⟨bs, hinfo, hbs⟩ := h
  cases hc with
  | same => exact ⟨bs, hinfo, hbs⟩
  | bin _ hnone | created hnone =>
    refine ⟨bs, ?_, hbs⟩
    rw [Function.update_apply]
    split_ifs with heq
    · subst heq
      exact nomatch hnone.symm.trans hinfo
    · exact hinfo
  | linked hold htold hnew =>
    rw [Since, Function.update_apply]
    split_ifs with heq
    · subst heq
      obtain rfl := Option.some.inj (hold.symm.trans hinfo)
      refine ⟨_, rfl, ?_⟩
      rcases hnew with ⟨-, hnew⟩ | ⟨-, hbroken⟩
      · rcases hbs with hbroken | ⟨kvs', links', htold', hgrown⟩
        · exact absurd hbroken htold.not_broken
        · obtain ⟨rfl, rfl⟩ := htold.unique htold'
          refine .inr ⟨_, _, hnew, hgrown.1.trans (List.prefix_append _ _), fun k hk => ?_⟩
          rw [dictGet_dictSet, if_neg (Ne.symm hk), hgrown.2 k hk]
      · exact .inl hbroken
    · exact ⟨bs, hinfo, hbs⟩

/-- **The dict of an artifact keeps its fields, and its links in the order in which they were
made, once each, until a write of it fails.** -/
theorem told_grows (gz : Gzip) (earlier later : List (Call F)) (artifactHash : PyStr)
    (h : getMetadata (run (step sha gz) Dir.empty earlier) artifactHash = some (.dict kvs)) :
    (getMetadata (run (step sha gz) Dir.empty (earlier ++ later)) artifactHash :
      Option (PyVal F)) = none ∨
    ∃ kvs' links links',
      getMetadata (run (step sha gz) Dir.empty (earlier ++ later)) artifactHash =
        some (.dict kvs') ∧
      (∀ k, k ≠ py "linked_entries" → dictGet k kvs' = dictGet k kvs) ∧
      dictGet (py "linked_entries") kvs = some (.list (links.map .str)) ∧
      dictGet (py "linked_entries") kvs' = some (.list (links'.map .str)) ∧
      links <+: links' ∧ links'.Nodup := by
  have hkept := kept_run (kept_empty gz : Kept F sha gz Dir.empty) earlier
  obtain ⟨bs, hinfo, hload⟩ := Option.bind_eq_some_iff.mp h
  have hloads : loadMeta bs = .ok (.dict kvs) := by
    cases hbs : loadMeta (F := F) bs with
    | error err => rw [hbs] at hload; cases hload
    | ok v => rw [hbs] at hload; exact congrArg Except.ok (Option.some.inj hload)
  rcases hkept.told _ bs hinfo with ⟨err, herr⟩ | ⟨kvs₀, links, htold⟩
  · exact nomatch herr.symm.trans hloads
  obtain rfl := PyVal.dict.inj (Except.ok.inj (htold.loads.symm.trans hloads))
  -- what is told at the start of the later calls has grown at their end
  have hsince : Kept F sha gz (run (step sha gz) Dir.empty (earlier ++ later)) ∧
      Since (pathFor artifactHash) kvs₀ links
        (run (step sha gz) Dir.empty (earlier ++ later)) := by
    rw [run_append]
    refine run_keeps (P := fun d => Kept F sha gz d ∧ Since (pathFor artifactHash) kvs₀ links d)
      (fun d call hd => ⟨kept_step hd.1 call, (step_cases hd.1 call).since hd.2⟩)
      ⟨hkept, bs, hinfo, .inr ⟨kvs₀, links, htold, List.prefix_refl _, fun _ _ => rfl⟩⟩ later
  obtain ⟨bs', hinfo', ⟨err, herr⟩ | ⟨kvs', links', htold', hlinks, hfields⟩⟩ := hsince.2
  · -- a write of it has failed
    refine .inl ?_
    rw [getMetadata, hinfo', Option.bind_some, herr]
    rfl
  · refine .inr ⟨kvs', links, links', ?_, hfields, htold.linked, htold'.linked, hlinks,
      htold'.nodup⟩
    rw [getMetadata, hinfo', Option.bind_some, htold'.loads]
    rfl

/-- The name of the byte. -/
def sampleName : ArtifactName := ⟨hexdigest nibbles [97], by decide⟩

/-- The dict of the byte. -/
def sampleMeta : List (Key FloatLit × PyVal FloatLit) :=
  strItems (metaItems (hexdigest nibbles [97]) 1 1 sampleStore)

theorem told_grows_sample :
    (getMetadata (run (step nibbles plainGzip) Dir.empty ([.store sampleStore] ++
      [.link sampleName (py "e1")])) (hexdigest nibbles [97]) :
        Option (PyVal FloatLit)) = none ∨
    ∃ kvs' links links',
      getMetadata (run (step nibbles plainGzip) Dir.empty ([.store sampleStore] ++
        [.link sampleName (py "e1")])) (hexdigest nibbles [97]) =
          some (.dict kvs') ∧
      (∀ k, k ≠ py "linked_entries" → dictGet k kvs' = dictGet k sampleMeta) ∧
      dictGet (py "linked_entries") sampleMeta = some (.list (links.map .str)) ∧
      dictGet (py "linked_entries") kvs' = some (.list (links'.map .str)) ∧
      links <+: links' ∧ links'.Nodup :=
  told_grows plainGzip [.store sampleStore] [.link sampleName (py "e1")] _
    (by decide +kernel)

variable (F) in
/-- Every dict that is there can be read. -/
def Readable (d : Dir) : Prop :=
  ∀ p bs, (d p).info = some bs → ∃ kvs : List (Key F × PyVal F), loadMeta bs = .ok (.dict kvs)

/-- **One call keeps the dicts readable exactly when it is careful.** -/
theorem readable_step (h : Kept F sha gz d) (hd : Readable F d)
    (call : Call F) : Readable F (step sha gz d call) ↔ Careful sha gz d call := by
  have hset {p : PyStr × PyStr} {bin : Option (List Byte)} {bs : List Byte}
      {kvs : List (Key F × PyVal F)} (hbs : loadMeta bs = .ok (.dict kvs)) :
      Readable F (Function.update d p ⟨bin, some bs⟩) := by
    intro q b hq
    rw [Function.update_apply] at hq
    split_ifs at hq
    · exact ⟨kvs, Option.some.inj hq ▸ hbs⟩
    · exact hd q b hq
  have hbad {p : PyStr × PyStr} {bin : Option (List Byte)} {bs : List Byte} (hbs : Broken F bs) :
      ¬ Readable F (Function.update d p ⟨bin, some bs⟩) := by
    intro hall
    obtain ⟨err, herr⟩ := hbs
    obtain ⟨kvs, hkvs⟩ := hall p bs (by rw [Function.update_self])
    exact nomatch herr.symm.trans hkvs
  have hchange := step_cases h call
  generalize step sha gz d call = d' at hchange ⊢
  cases hchange with
  | same hc => exact iff_of_true hd hc
  | bin hc hp bs =>
    refine iff_of_true (fun q b hq => ?_) hc
    rw [Function.update_apply] at hq
    split_ifs at hq
    exact hd q b hq
  | created hp hpath mtime hbs =>
    rcases hbs with ⟨hc, kvs, htold⟩ | ⟨hc, hbroken⟩
    · exact iff_of_true (hset htold.loads) hc
    · exact iff_of_false (hbad hbroken) hc
  | linked hp hold hbs =>
    rcases hbs with ⟨hc, htold⟩ | ⟨hc, hbroken⟩
    · exact iff_of_true (hset htold.loads) hc
    · exact iff_of_false (hbad hbroken) hc

/-- **The dicts of all artifacts can be read all along a run exactly when every call of it is
careful**: one string that does not encode, or one death in the write of a dict, and the artifact
cannot be stored again. -/
theorem readable_always_iff (sha : Sha256) (gz : Gzip) (calls : List (Call F)) :
    Always (step sha gz) (Readable F) Dir.empty calls ↔
      Along (step sha gz) (Careful sha gz) Dir.empty calls :=
  always_iff_along (Q := Kept F sha gz) (fun _ call h _ _ => kept_step h call)
    (fun _ call h hd => readable_step h hd call) (kept_empty gz) nofun

end Artifacts

end Daryl
