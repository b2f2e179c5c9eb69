import Daryl.Dsm.ColdStorage

/-!
# `cold_storage`: archives that keep apart, and the chain they vouch for

An archive is a file under its shard id, with `:` and `/` written as `_`, so ids that differ in
these alone share one.  And the check before an export passes an entry that names no hash, where
`verify_shard` counts a break, and sees only the entries that are exported.

## Main definitions

* `ExportCall`, `exportAll` — exports to one backend, one after the other.
* `Unbroken` — every entry names the last hash before it.

## Main results

* `get_exportAll_iff` — when an archive is left as it was written.
* `chainBreaks_eq_zero_iff` — what a chain without breaks is.
* `unbroken_iff_of_chainBreak` — what is left to say of one that passes the check of an export.
* `archives_iff` — **the two together.**
-/

namespace Daryl

open Py Json HashChain

variable {F : Type} [PyFloat F]

/-! ### Exporting many shards -/

/-- An export, from a storage at a time. -/
structure ExportCall (F : Type) where
  disk : Disk F
  shardId : PyStr
  verifyFirst : Bool
  now : Datetime

namespace ExportCall

/-- The export, to a backend. -/
def run (sha : Sha256) (c : ExportCall F) (backend : Backend) : Except PyError ArchiveResult × Backend :=
  exportShard sha c.disk c.shardId c.verifyFirst c.now backend

/-- The export is `ok`; this does not depend on the backend. -/
def Succeeds (sha : Sha256) (c : ExportCall F) : Prop :=
  ∃ r, (c.run sha []).1 = .ok r ∧ r.ok = true

end ExportCall

/-- Exports, one after the other. -/
def exportAll (sha : Sha256) (calls : List (ExportCall F)) (backend : Backend) : Backend :=
  calls.foldl (fun backend c => (c.run sha backend).2) backend

/-- An archive says which shard it is of. -/
def Names (F : Type) [PyFloat F] (shardId : PyStr) (bytes : List Byte) : Prop :=
  ∃ (text : PyStr) (kvs : List (Key F × PyVal F)), bytes = utf8Bytes text ∧ Encodable text ∧
    loads text = some (.dict kvs) ∧ dictGet (py "shard_id") kvs = some (.str shardId)

/-- Archives of two shards are never the same. -/
theorem Names.eq {s t : PyStr} {bytes : List Byte} (hs : Names F s bytes) (ht : Names F t bytes) :
    s = t := by
  obtain ⟨text, kvs, rfl, hencodable, hloads, hget⟩ := hs
  obtain ⟨text', kvs', hbytes, hencodable', hloads', hget'⟩ := ht
  have htext : text = text' := by
    have hdecode := decodeUtf8_utf8Bytes hencodable
    rw [hbytes, decodeUtf8_utf8Bytes hencodable'] at hdecode
    exact (Option.some.inj hdecode).symm
  subst htext
  rw [hloads] at hloads'
  cases hloads'
  rw [hget] at hget'
  cases hget'
  rfl

/-- The document of an archive names its shard. -/
theorem names_of_archiveBytes {ps : List (PyStr × PyVal F)} {bytes : List Byte} {shardId : PyStr}
    (hkeys : (ps.map Prod.fst).Nodup) (hmem : (py "shard_id", .str shardId) ∈ ps)
    (h : archiveBytes ps = .ok bytes) : Names F shardId bytes := by
  unfold archiveBytes at h
  cases hdumps : dumpsSorted archiveStyle (.dict (strItems ps) : PyVal F) with
  | error e =>
    rw [hdumps] at h
    cases h
  | ok text =>
    rw [hdumps] at h
    simp only at h
    split_ifs at h with hencodable
    cases h
    obtain ⟨w, hw, hprint⟩ := dumpsSorted_eq_ok.mp hdumps
    obtain ⟨kvs, hdict, hget⟩ := dictGet_readBack hkeys hw hmem
    refine ⟨text, kvs, rfl, hencodable, ?_, hget⟩
    rw [loads_print hprint (by simp [archiveStyle]), ← readBack_of_sortDicts hw, hdict]

/-- What writing an archive does to a backend: nothing, or the file of the shard is set. -/
theorem writeArchive_cases (sha : Sha256) (shardId : PyStr) (now : Datetime) (chrono : List (Entry F)) :
    (∃ e, ∀ backend, writeArchive sha shardId now backend chrono = (.error e, backend)) ∨
    ∃ r bytes, r.ok = true ∧ Names F shardId bytes ∧ ∀ backend,
      writeArchive sha shardId now backend chrono =
        (.ok r, Dict.set (archivePath shardId) bytes backend) := by
  unfold writeArchive
  simp only
  cases hashed : archiveBytes (archiveData shardId now chrono) with
  | error e => exact .inl ⟨e, fun _ => rfl⟩
  | ok bytes₀ =>
    simp only
    cases hbytes : archiveBytes (archiveData shardId now chrono ++
        [(py "archive_hash", .str (hexdigest sha bytes₀))]) with
    | error e => exact .inl ⟨e, fun _ => rfl⟩
    | ok bytes =>
      refine .inr ⟨_, bytes, rfl, names_of_archiveBytes ?_ ?_ hbytes, fun _ => rfl⟩
      · change [py "shard_id", py "archived_at", py "entry_count", py "entries",
          py "archive_hash"].Nodup
        decide
      · simp [archiveData]

theorem ok_refused (shardId : PyStr) (entryCount : ℕ) (now : Datetime) (error : PyStr)
    (r : ArchiveResult)
    (h : (.ok (refusedArchive shardId entryCount now error) : Except PyError ArchiveResult) = .ok r) :
    r.ok = false := by
  cases h
  rfl

/-- What an export does to a backend: nothing, or the file of its shard is set. -/
theorem exportShard_cases (sha : Sha256) (d : Disk F) (shardId : PyStr) (verifyFirst : Bool)
    (now : Datetime) :
    (∃ x : Except PyError ArchiveResult, (∀ r, x = .ok r → r.ok = false) ∧
      ∀ backend, exportShard sha d shardId verifyFirst now backend = (x, backend)) ∨
    ∃ r bytes, r.ok = true ∧ Names F shardId bytes ∧ ∀ backend,
      exportShard sha d shardId verifyFirst now backend =
        (.ok r, Dict.set (archivePath shardId) bytes backend) := by
  unfold exportShard
  cases d.read shardId 0 exportLimit with
  | error e => exact .inl ⟨.error e, fun r hr => (by cases hr), fun _ => rfl⟩
  | ok entries =>
    cases entries with
    | nil => exact .inl ⟨_, ok_refused shardId 0 now _, fun _ => rfl⟩
    | cons newest older =>
      simp only
      cases if verifyFirst then chainBreak (newest :: older).reverse else none with
      | some i => exact .inl ⟨_, ok_refused shardId _ now _, fun _ => rfl⟩
      | none =>
        rcases writeArchive_cases sha shardId now (newest :: older).reverse with ⟨e, he⟩ | h
        · exact .inl ⟨.error e, fun r hr => (by cases hr), he⟩
        · exact .inr h

namespace ExportCall

theorem run_cases (sha : Sha256) (c : ExportCall F) :
    (¬c.Succeeds sha ∧ ∀ backend, (c.run sha backend).2 = backend) ∨
    c.Succeeds sha ∧ ∃ bytes, Names F c.shardId bytes ∧
      ∀ backend, (c.run sha backend).2 = Dict.set (archivePath c.shardId) bytes backend := by
  rcases exportShard_cases sha c.disk c.shardId c.verifyFirst c.now with
    ⟨x, hx, hrun⟩ | ⟨r, bytes, hr, hnames, hrun⟩
  · refine .inl ⟨?_, fun backend => congrArg Prod.snd (hrun backend)⟩
    rintro ⟨r, hr, hok⟩
    rw [run, hrun] at hr
    exact absurd (hok.symm.trans (hx r hr)) (by decide)
  · refine .inr ⟨⟨r, ?_, hr⟩, bytes, hnames, fun backend => congrArg Prod.snd (hrun backend)⟩
    exact congrArg Prod.fst (hrun [])

end ExportCall

/-- The file of an archive after more exports: left alone, or of the shard that wrote it last. -/
theorem get_exportAll (sha : Sha256) (path : PyStr) (calls : List (ExportCall F)) (backend : Backend) :
    (∀ c ∈ calls, c.Succeeds sha → archivePath c.shardId ≠ path) ∧
        Dict.get path (exportAll sha calls backend) = Dict.get path backend ∨
      ∃ c ∈ calls, c.Succeeds sha ∧ archivePath c.shardId = path ∧ ∃ bytes, Names F c.shardId bytes ∧
        Dict.get path (exportAll sha calls backend) = some bytes := by
  induction calls using List.reverseRecOn with
  | nil => exact .inl ⟨List.forall_mem_nil _, rfl⟩
  | append_singleton calls c ih =>
    have hstep : exportAll sha (calls ++ [c]) backend = (c.run sha (exportAll sha calls backend)).2 := by
      rw [exportAll, List.foldl_append]
      rfl
    have hearlier : Dict.get path (exportAll sha (calls ++ [c]) backend) =
          Dict.get path (exportAll sha calls backend) → (c.Succeeds sha → archivePath c.shardId ≠ path) →
        (∀ c' ∈ calls ++ [c], c'.Succeeds sha → archivePath c'.shardId ≠ path) ∧
            Dict.get path (exportAll sha (calls ++ [c]) backend) = Dict.get path backend ∨
          ∃ c' ∈ calls ++ [c], c'.Succeeds sha ∧ archivePath c'.shardId = path ∧
            ∃ bytes, Names F c'.shardId bytes ∧
              Dict.get path (exportAll sha (calls ++ [c]) backend) = some bytes := by
      intro hget hc
      rw [hget]
      rcases ih with ⟨hne, hsame⟩ | ⟨c', hc', h⟩
      · refine .inl ⟨fun c' hc' => ?_, hsame⟩
        rcases List.mem_append.mp hc' with hc' | hc'
        · exact hne c' hc'
        · exact List.mem_singleton.mp hc' ▸ hc
      · exact .inr ⟨c', List.mem_append_left _ hc', h⟩
    rcases c.run_cases sha with ⟨hfails, hrun⟩ | ⟨hsucceeds, bytes, hnames, hrun⟩
    · exact hearlier (by rw [hstep, hrun]) fun h => absurd h hfails
    · by_cases hpath : archivePath c.shardId = path
      · refine .inr ⟨c, by simp, hsucceeds, hpath, bytes, hnames, ?_⟩
        rw [hstep, hrun, hpath, Dict.get_set_self]
      · exact hearlier (by rw [hstep, hrun, Dict.get_set_ne hpath]) fun _ => hpath

/-- **An archive is left as it was written iff no later one has its name.** -/
theorem get_exportAll_iff {sha : Sha256} {c : ExportCall F} {backend backend' : Backend}
    {r : ArchiveResult} (hrun : c.run sha backend = (.ok r, backend')) (hok : r.ok = true)
    {later : List (ExportCall F)} (hids : ∀ c' ∈ later, c'.Succeeds sha → c'.shardId ≠ c.shardId) :
    Dict.get (archivePath c.shardId) (exportAll sha later backend') =
        Dict.get (archivePath c.shardId) backend' ↔
      ∀ c' ∈ later, c'.Succeeds sha → archivePath c'.shardId ≠ archivePath c.shardId := by
  obtain ⟨bytes, hnames, hwritten⟩ : ∃ bytes, Names F c.shardId bytes ∧
      Dict.get (archivePath c.shardId) backend' = some bytes := by
    rcases exportShard_cases sha c.disk c.shardId c.verifyFirst c.now with
      ⟨x, hx, heq⟩ | ⟨r', bytes, -, hnames, heq⟩
    · have hr := (congrArg Prod.fst (heq backend)).symm.trans (congrArg Prod.fst hrun)
      exact absurd (hok.symm.trans (hx r hr)) (by decide)
    · have hbackend := (congrArg Prod.snd hrun).symm.trans (congrArg Prod.snd (heq backend))
      refine ⟨bytes, hnames, ?_⟩
      rw [show backend' = _ from hbackend, Dict.get_set_self]
  rcases get_exportAll sha (archivePath c.shardId) later backend' with
    ⟨hne, hsame⟩ | ⟨c', hc', hsucceeds, hpath, bytes', hnames', hget⟩
  · exact iff_of_true hsame hne
  · refine iff_of_false ?_ fun h => h c' hc' hsucceeds hpath
    intro hsame
    rw [hget, hwritten, Option.some.injEq] at hsame
    exact hids c' hc' hsucceeds (hnames'.eq (hsame ▸ hnames))

/-! ### Links -/

/-- A number counts as true iff it is not zero. -/
theorem truthy_of_num {v : PyVal F} {q : ℤ ×ₗ ℚ} (h : v.num? = some q) :
    v.truthy = decide (q ≠ toLex (0, 0)) := by
  cases v with
  | bool b =>
    cases h
    cases b <;> simp [PyVal.truthy]
  | int n =>
    cases h
    rw [Bool.eq_iff_iff]
    simp [PyVal.truthy]
  | float x =>
    cases x with
    | nan => cases h
    | inf neg =>
      cases h
      cases neg <;> simp [PyVal.truthy]
    | finite x =>
      cases h
      rw [Bool.eq_iff_iff]
      simp [PyVal.truthy]
  | _ => cases h

/-- What is equal counts as true together. -/
theorem truthy_of_pyEq {v w : PyVal F} (h : pyEq v w = true) : v.truthy = w.truthy := by
  unfold pyEq at h
  split at h
  · rfl
  · rw [eq_of_beq h]
  · next vs ws =>
    cases vs <;> cases ws <;> simp_all [pyEqList, PyVal.truthy]
  · next vs ws =>
    cases vs <;> cases ws <;> simp_all [pyEqList, PyVal.truthy]
  · next kvs lws =>
    cases kvs <;> cases lws <;> simp_all [PyVal.truthy]
  · rw [Bool.and_eq_true, beq_iff_eq, Option.isSome_iff_exists] at h
    obtain ⟨⟨q, hq⟩, heq⟩ := h
    rw [truthy_of_num hq, truthy_of_num (heq ▸ hq)]

/-- The hash to link to, behind an entry. -/
def nextHash (last : PyVal F) (e : Entry F) : PyVal F := if e.hash.truthy then e.hash else last

/-- The last hash of entries. -/
def lastHashOf (es : List (Entry F)) : PyVal F := es.foldl nextHash .none

/-- What every entry names, with the last hash before it; nothing is asked where there is none. -/
def Links (R : PyVal F → PyVal F → Prop) : PyVal F → List (Entry F) → Prop
  | _, [] => True
  | last, e :: es => (last ≠ .none → R e.prevHash last) ∧ Links R (nextHash last e) es

/-- Every entry behind one with a hash names the last hash before it. -/
def Unbroken (es : List (Entry F)) : Prop := Links (fun named last => pyEq named last = true) .none es

/-- Every entry behind one with a hash names something. -/
def Points (last : PyVal F) (es : List (Entry F)) : Prop := Links (fun named _ => named.truthy = true) last es

theorem links_append {R : PyVal F → PyVal F → Prop} {last : PyVal F} {es fs : List (Entry F)} :
    Links R last (es ++ fs) ↔ Links R last es ∧ Links R (es.foldl nextHash last) fs := by
  induction es generalizing last with
  | nil => simp [Links]
  | cons e es ih => rw [List.cons_append, Links, Links, ih, List.foldl_cons, and_assoc]

/-- **The pass counts no breaks iff every entry names the last hash.** -/
theorem chainBreaks_eq_zero_iff {sha : Sha256} {es : List (Entry F)} :
    (checkChain sha es).chainBreaks = 0 ↔ Unbroken es := by
  have hfold : ∀ c : Chain F, (es.foldl (Chain.step sha) c).chainBreaks = 0 ↔
      c.chainBreaks = 0 ∧ Links (fun named last => pyEq named last = true) c.prevHash es := by
    induction es with
    | nil => simp [Links]
    | cons e es ih =>
      intro c
      rw [List.foldl_cons, ih, Links]
      have hnext : (c.step sha e).prevHash = nextHash c.prevHash e := rfl
      rw [hnext, ← and_assoc]
      refine and_congr_left fun _ => ?_
      simp only [Chain.step, Chain.linkOk]
      by_cases hnone : c.prevHash = .none
      · simp [hnone, PyVal.isNone]
      · have hsome : c.prevHash.isNone = false := by
          rw [Bool.eq_false_iff, ne_eq, isNone_iff]
          exact hnone
        by_cases heq : pyEq e.prevHash c.prevHash = true <;> simp [hnone, hsome, heq]
  simpa [checkChain, Chain.start, Unbroken] using hfold .start

/-- Entries that pass the check of an export are linked iff they all name something. -/
theorem links_iff_of_chainBreakFrom {i : ℕ} {last : Entry F} {es : List (Entry F)} {p : PyVal F}
    (h : chainBreakFrom i last es = none) (hlast : last.hash.truthy = true → p = last.hash)
    (hp : p ≠ .none → p.truthy = true) :
    Links (fun named last => pyEq named last = true) p es ↔ Points p es := by
  unfold Points
  induction es generalizing i last p with
  | nil => exact Iff.rfl
  | cons e es ih =>
    rw [chainBreakFrom] at h
    split_ifs at h with hbreak
    rw [Links, Links]
    refine and_congr (forall_congr' fun hne => ?_) (ih h ?_ ?_)
    · constructor
      · intro heq
        rw [truthy_of_pyEq heq]
        exact hp hne
      · intro htruthy
        have heq : pyEq e.prevHash last.hash = true := by simpa [htruthy] using hbreak
        rw [hlast ((truthy_of_pyEq heq).symm.trans htruthy)]
        exact heq
    · intro htruthy
      exact if_pos htruthy
    · intro hne
      rw [nextHash] at hne ⊢
      split_ifs at hne ⊢ with htruthy
      · exact htruthy
      · exact hp hne

theorem lastHashOf_truthy {es : List (Entry F)} (h : lastHashOf es ≠ .none) :
    (lastHashOf es).truthy = true := by
  induction es using List.reverseRecOn with
  | nil => exact absurd rfl h
  | append_singleton es e ih =>
    rw [lastHashOf, List.foldl_append, List.foldl_cons, List.foldl_nil, nextHash] at h ⊢
    split_ifs at h ⊢ with htruthy
    · exact htruthy
    · exact ih h

/-- **A chain whose last entries pass the check of an export is unbroken iff** it is up to the first
of them, and these name something. -/
theorem unbroken_iff_of_chainBreak {earlier rest : List (Entry F)} {first : Entry F}
    (h : chainBreak (first :: rest) = none) :
    Unbroken (earlier ++ first :: rest) ↔
      Unbroken (earlier ++ [first]) ∧ Points (lastHashOf (earlier ++ [first])) rest := by
  have hsplit : earlier ++ first :: rest = (earlier ++ [first]) ++ rest := by simp
  rw [hsplit, Unbroken, links_append, ← Unbroken]
  refine and_congr_right fun _ => links_iff_of_chainBreakFrom h ?_ lastHashOf_truthy
  intro htruthy
  rw [List.foldl_append]
  exact if_pos htruthy

/-- What is asked of a shard beyond the check of an export: it is unbroken up to the first entry that
is exported, and behind that every entry names something, once there is a hash. -/
def Whole (ds : List (Entry F)) : Prop :=
  Unbroken (ds.take (ds.length - exportLimit + 1)) ∧
    Points (lastHashOf (ds.take (ds.length - exportLimit + 1))) (ds.drop (ds.length - exportLimit + 1))

theorem whole_iff {ds : List (Entry F)} (hne : ds ≠ [])
    (h : chainBreak (ds.drop (ds.length - exportLimit)) = none) : Unbroken ds ↔ Whole ds := by
  have hlimit : 0 < exportLimit := by
    rw [exportLimit]
    positivity
  have hpos := List.length_pos_iff.mpr hne
  generalize hk : ds.length - exportLimit = k at h
  have hlt : k < ds.length := by omega
  have hdrop := List.drop_eq_getElem_cons hlt
  have hsplit : ds = ds.take k ++ ds[k] :: ds.drop (k + 1) := by
    rw [← hdrop, List.take_append_drop]
  rw [hdrop] at h
  rw [Whole, hk, ← List.take_concat_get' ds k hlt]
  conv_lhs => rw [hsplit]
  exact unbroken_iff_of_chainBreak h

/-- **A shard that is exported with `verify_first` has no breaks iff it is vouched for.** -/
theorem export_vouches_iff {sha : Sha256} {d : Disk F} {shardId : PyStr} {now : Datetime}
    {backend backend' : Backend} {r : ArchiveResult}
    (h : exportShard sha d shardId true now backend = (.ok r, backend')) (hok : r.ok = true) :
    (∃ rep, d.verify sha shardId = .ok rep ∧ rep.chainBreaks = 0) ↔
      ∃ ds : List (Entry F), chronoEntries (d.shard shardId).family = .ok ds ∧ Whole ds := by
  have hverify : (∃ rep, d.verify sha shardId = .ok rep ∧ rep.chainBreaks = 0) ↔
      ∃ ds : List (Entry F), chronoEntries (d.shard shardId).family = .ok ds ∧ Unbroken ds := by
    constructor
    · rintro ⟨rep, hrep, hbreaks⟩
      obtain ⟨ds, hds, rfl⟩ := verifyShard_eq_ok.mp hrep
      exact ⟨ds, hds, chainBreaks_eq_zero_iff.mp hbreaks⟩
    · rintro ⟨ds, hds, hunbroken⟩
      exact ⟨_, verifyShard_eq_ok.mpr ⟨ds, hds, rfl⟩, chainBreaks_eq_zero_iff.mpr hunbroken⟩
  rw [hverify]
  refine exists_congr fun ds => and_congr_right fun hds => ?_
  unfold exportShard at h
  cases hfam : Dict.get (familyName shardId) d.families with
  | none =>
    -- what is exported stands in a file of its own, and the directory is empty
    have hempty : (d.shard shardId).family = Family.empty (familyName shardId) := by
      rw [Disk.shard, hfam]
      rfl
    rw [hempty] at hds
    obtain rfl : [] = ds := Except.ok.inj hds
    exact iff_of_true trivial ⟨trivial, trivial⟩
  | some fam =>
    have hfamily : (d.shard shardId).family = fam := by
      rw [Disk.shard, hfam]
      rfl
    have hread : d.read shardId 0 exportLimit = .ok (ds.drop (ds.length - exportLimit)).reverse := by
      rw [Disk.read, hfam]
      simp only
      rw [← hfamily, readSegmented_chrono hds, max_exportLimit, List.take_reverse]
    rw [hread] at h
    cases hrev : (ds.drop (ds.length - exportLimit)).reverse with
    | nil =>
      rw [hrev] at h
      cases h
      exact absurd hok Bool.false_ne_true
    | cons newest older =>
      have hchrono : (newest :: older).reverse = ds.drop (ds.length - exportLimit) := by
        rw [← hrev, List.reverse_reverse]
      rw [hrev] at h
      simp only [hchrono, if_true] at h
      cases hcheck : chainBreak (ds.drop (ds.length - exportLimit)) with
      | some i =>
        rw [hcheck] at h
        cases h
        exact absurd hok Bool.false_ne_true
      | none =>
        refine whole_iff ?_ hcheck
        rintro rfl
        simp at hrev

/-- **Archives keep apart, and vouch for their chain, under these conditions**: of exports to one
backend, and of exports that check the chain first. -/
theorem archives_iff (sha : Sha256) :
    (∀ (c : ExportCall F) (later : List (ExportCall F)) (backend backend' : Backend) (r : ArchiveResult),
      c.run sha backend = (.ok r, backend') → r.ok = true →
        (∀ c' ∈ later, c'.Succeeds sha → c'.shardId ≠ c.shardId) →
          (Dict.get (archivePath c.shardId) (exportAll sha later backend') =
              Dict.get (archivePath c.shardId) backend' ↔
            ∀ c' ∈ later, c'.Succeeds sha → archivePath c'.shardId ≠ archivePath c.shardId)) ∧
      ∀ (d : Disk F) (shardId : PyStr) (now : Datetime) (backend backend' : Backend) (r : ArchiveResult),
        exportShard sha d shardId true now backend = (.ok r, backend') → r.ok = true →
          ((∃ rep, d.verify sha shardId = .ok rep ∧ rep.chainBreaks = 0) ↔
            ∃ ds : List (Entry F), chronoEntries (d.shard shardId).family = .ok ds ∧ Whole ds) := by
  refine ⟨?_, ?_⟩
  · intro c later backend backend' r hrun hok hids
    exact get_exportAll_iff hrun hok hids
  · intro d shardId now backend backend' r h hok
    exact export_vouches_iff h hok

/-! ### Sample shards -/

/-- A data directory with one shard, in one segment. -/
def segmentDisk (shardId text : PyStr) : Disk FloatLit :=
  ⟨[(familyName shardId, ⟨familyName shardId, [(segmentName (familyName shardId) 1, utf8Bytes text)],
    none⟩)], [], []⟩

/-- A line with an entry of this hash, which names none. -/
def unlinkedLine (hash : PyStr) : PyStr :=
  py "\x7b\"timestamp\": \"2026-01-02T03:04:05+00:00\", \"hash\": \"" ++ hash ++ py "\"\x7d\n"

/-- The export of a shard of one entry. -/
def exportOne (shardId : PyStr) : ExportCall FloatLit :=
  ⟨segmentDisk shardId (unlinkedLine (py "1")), shardId, true, sampleTime⟩

/-- A shard of two entries that name no hash. -/
def unlinkedShard : Disk FloatLit := segmentDisk (py "s") (unlinkedLine (py "1") ++ unlinkedLine (py "2"))

/-- An export that returns `ok`, as the run it is. -/
theorem exists_run {sha : Sha256} {c : ExportCall F}
    (h : (c.run sha []).1.toOption.map ArchiveResult.ok = some true) :
    ∃ r backend, c.run sha [] = (.ok r, backend) ∧ r.ok = true := by
  generalize c.run sha [] = x at h
  obtain ⟨_ | r, backend⟩ := x
  · cases h
  · exact ⟨r, backend, rfl, Option.some.inj h⟩

theorem archives_sample :
    ∃ backend r, exportShard nibbles unlinkedShard (py "s") true sampleTime [] = (.ok r, backend) ∧
      ((∃ rep, unlinkedShard.verify nibbles (py "s") = .ok rep ∧ rep.chainBreaks = 0) ↔
        ∃ ds : List (Entry FloatLit),
          chronoEntries (unlinkedShard.shard (py "s")).family = .ok ds ∧ Whole ds) := by
  obtain ⟨r, backend, hrun, hok⟩ := @exists_run FloatLit _ nibbles
    ⟨unlinkedShard, py "s", true, sampleTime⟩ (by decide +kernel)
  exact ⟨backend, r, hrun, (archives_iff nibbles).2 _ _ _ _ _ r hrun hok⟩

/-- The archive of `a_b` replaces that of `a:b`, and two entries without a link are exported. -/
theorem archives_fail :
    (¬∀ (c : ExportCall FloatLit) (later : List (ExportCall FloatLit)) (backend backend' : Backend)
        (r : ArchiveResult), c.run nibbles backend = (.ok r, backend') → r.ok = true →
          (∀ c' ∈ later, c'.Succeeds nibbles → c'.shardId ≠ c.shardId) →
            Dict.get (archivePath c.shardId) (exportAll nibbles later backend') =
              Dict.get (archivePath c.shardId) backend') ∧
      ¬∀ (d : Disk FloatLit) (shardId : PyStr) (now : Datetime) (backend backend' : Backend)
        (r : ArchiveResult), exportShard nibbles d shardId true now backend = (.ok r, backend') →
          r.ok = true → ∃ rep, d.verify nibbles shardId = .ok rep ∧ rep.chainBreaks = 0 := by
  constructor
  · intro hclaim
    obtain ⟨r, backend, hrun, hok⟩ := @exists_run FloatLit _ nibbles (exportOne (py "a:b"))
      (by decide +kernel)
    obtain ⟨r', backend', hrun', hok'⟩ := @exists_run FloatLit _ nibbles (exportOne (py "a_b"))
      (by decide +kernel)
    have hids : ∀ c' ∈ [exportOne (py "a_b")], c'.Succeeds nibbles →
        c'.shardId ≠ (exportOne (py "a:b")).shardId := by
      intro c' hc' _
      rw [List.mem_singleton.mp hc']
      exact fun h => absurd h (by decide)
    have hkept := hclaim _ [exportOne (py "a_b")] [] backend r hrun hok hids
    -- the two ids have one name
    refine (get_exportAll_iff hrun hok hids).mp hkept _ List.mem_cons_self ⟨r', ?_, hok'⟩ (by decide)
    rw [hrun']
  · intro hclaim
    obtain ⟨r, backend, hrun, hok⟩ := @exists_run FloatLit _ nibbles
      ⟨unlinkedShard, py "s", true, sampleTime⟩ (by decide +kernel)
    obtain ⟨rep, hrep, hbreaks⟩ := hclaim _ _ _ _ _ r hrun hok
    have hone : (unlinkedShard.verify nibbles (py "s")).map Report.chainBreaks = .ok 1 := by
      decide +kernel
    rw [hrep] at hone
    exact absurd (hbreaks.symm.trans (Except.ok.inj hone)) (by decide)

end Daryl
