import Daryl.Dsm.Verify
import Daryl.Lib.Dict

/-!
# The data directory

All shards of a storage lie in one data directory: a family directory under `shards/`
for each family name, which is the shard id without the occurrences of `shard_`, and a
pin under `integrity/` for each shard id.  A shard that has no family directory is read
from the file `shards/{shard_id}.jsonl`, if there is one.

Shard ids are taken to be names, that is to have no path separator.

## Main definitions

* `familyName` — the name of the family directory of a shard id.
* `Disk` — the data directory.
* `Disk.shard` — a shard of it.
* `Disk.allEntries` — all entries of it.
* `Disk.append`, `Disk.read`, `Disk.verify` — `Storage.append`, `Storage.read` and
  `verify_shard` on the data directory.
-/

namespace Daryl

open Py

/-- `shard_id.replace("shard_", "")`. -/
def familyName (shardId : PyStr) : PyStr := replace (py "shard_") [] shardId

/-- The data directory: the directories and the files under `shards/`, and the pins under
`integrity/`. -/
structure Disk (F : Type) where
  families : List (PyStr × Family)
  monoliths : List (PyStr × List Byte)
  pins : List (PyStr × PinFile F)

/-- A data directory just made. -/
def Disk.empty (F : Type) : Disk F := ⟨[], [], []⟩

namespace Disk

variable {F : Type}

/-- The shard of an id: its family directory, which is made when it is asked for, and its
pin. -/
def shard (d : Disk F) (shardId : PyStr) : Shard F where
  family := (Dict.get (familyName shardId) d.families).getD (Family.empty (familyName shardId))
  pin := (Dict.get shardId d.pins).getD .absent

/-- The data directory with another shard under the id. -/
def setShard (d : Disk F) (shardId : PyStr) (s : Shard F) : Disk F where
  families := Dict.set (familyName shardId) s.family d.families
  monoliths := d.monoliths
  pins := Dict.set shardId s.pin d.pins

theorem shard_setShard (d : Disk F) (shardId : PyStr) (s : Shard F) :
    (d.setShard shardId s).shard shardId = s := by
  unfold shard setShard
  dsimp only
  rw [Dict.get_set_self, Dict.get_set_self]
  rfl

/-- A shard of another id and another family is left alone. -/
theorem shard_setShard_ne (d : Disk F) {shardId other : PyStr} (s : Shard F)
    (hid : other ≠ shardId) (hfam : familyName other ≠ familyName shardId) :
    (d.setShard other s).shard shardId = d.shard shardId := by
  unfold shard setShard
  dsimp only
  rw [Dict.get_set_ne hfam, Dict.get_set_ne hid]

variable [PyFloat F]

/-- `Storage.read`.  What stands at `shards/{shard_id}.jsonl` may also be the directory
of another family. -/
def read (d : Disk F) (shardId : PyStr) (offset limit : ℕ) : Except PyError (List (Entry F)) :=
  match Dict.get (familyName shardId) d.families with
  | some fam => readSegmented fam offset limit
  | none =>
    match Dict.get shardId d.monoliths with
    | some bs => readMonolithic bs offset limit
    | none =>
      if shardId ++ jsonl ∈ Dict.keys d.families then .error .isADirectoryError else .ok []

/-- All entries of a shard, the oldest first. -/
def allEntries (d : Disk F) (shardId : PyStr) : Except PyError (List (Entry F)) :=
  match Dict.get (familyName shardId) d.families with
  | some fam => chronoEntries fam
  | none =>
    match Dict.get shardId d.monoliths with
    | some bs => (textLines bs).bind fun lines => entriesOf (lines.filterMap lineEvent)
    | none =>
      if shardId ++ jsonl ∈ Dict.keys d.families then .error .isADirectoryError else .ok []

/-- `verify_shard`. -/
def verify (sha : Sha256) (d : Disk F) (shardId : PyStr) : Except PyError (Report F) :=
  verifyShard sha shardId (d.shard shardId)

/-- `Storage.append` to a shard. -/
def appendTo (cfg : Config) (d : Disk F) (shardId : PyStr) (now : Datetime) (entry : Entry F) :
    Except PyError (Entry F) × Disk F :=
  let r := (d.shard shardId).append cfg shardId now entry
  (r.1, d.setShard shardId r.2)

end Disk

/-- `entry.shard or "default"`, for a shard that is a string. -/
def Entry.shardId {F : Type} (entry : Entry F) : PyStr :=
  match entry.shard with
  | .str s => if s = [] then py "default" else s
  | _ => py "default"

/-- `Storage.append`. -/
def Disk.append {F : Type} [PyFloat F] (cfg : Config) (d : Disk F) (now : Datetime)
    (entry : Entry F) : Except PyError (Entry F) × Disk F :=
  d.appendTo cfg entry.shardId now entry

/-- A file is read newest first, as many entries as the limit says. -/
theorem readMonolithic_take {F : Type} [PyFloat F] {bs : List Byte} {lines : List PyStr}
    (hlines : textLines bs = .ok lines) {es : List (Entry F)}
    (hes : entriesOf (lines.filterMap lineEvent) = .ok es) (limit : ℕ) :
    readMonolithic bs 0 limit = .ok (es.reverse.take limit) := by
  unfold readMonolithic
  rw [hlines]
  simp only [Except.bind]
  rw [hes]
  simp only [Except.map, Nat.zero_add, Nat.sub_zero, Except.ok.injEq]
  have hlen : (es.drop (es.length - limit)).length ≤ limit := by
    rw [List.length_drop]
    omega
  rw [Nat.sub_eq_zero_of_le hlen, List.drop_zero, Nat.sub_zero, List.take_length,
    List.take_reverse]
  split
  · next h => rw [List.length_eq_zero_iff.mp (Nat.le_zero.mp h), List.reverse_nil]
  · rfl

/-- **A shard is read newest first**, as many entries as the limit says. -/
theorem read_of_entries {F : Type} [PyFloat F] {d : Disk F} {shardId : PyStr} {es : List (Entry F)}
    (h : d.allEntries shardId = .ok es) {limit : ℕ} (hlimit : 0 < limit) :
    d.read shardId 0 limit = .ok (es.reverse.take limit) := by
  unfold Disk.allEntries at h
  unfold Disk.read
  cases hfam : Dict.get (familyName shardId) d.families with
  | some fam =>
    rw [hfam] at h
    simp only
    rw [readSegmented_chrono h, max_eq_left hlimit]
  | none =>
    rw [hfam] at h
    simp only at h ⊢
    cases hmono : Dict.get shardId d.monoliths with
    | some bs =>
      rw [hmono] at h
      simp only at h ⊢
      cases hlines : textLines bs with
      | error err =>
        rw [hlines] at h
        cases h
      | ok lines =>
        rw [hlines] at h
        exact readMonolithic_take hlines h limit
    | none =>
      rw [hmono] at h
      simp only at h ⊢
      split at h
      · cases h
      · next hdir =>
        obtain rfl := Except.ok.inj h
        rw [if_neg hdir, List.reverse_nil, List.take_nil]

/-- What is read of a shard that was just set. -/
theorem read_setShard {F : Type} [PyFloat F] (d : Disk F) (shardId : PyStr) (s : Shard F) (offset limit : ℕ) :
    (d.setShard shardId s).read shardId offset limit = readSegmented s.family offset limit := by
  unfold Disk.read Disk.setShard
  dsimp only
  rw [Dict.get_set_self]

end Daryl
