import AppendStore.Disk.Path
import AppendStore.StoreError

/-!
# Configuration

A configuration names the two directories of a store, bounds the segments of its
log and says when appended records are made durable. `Config.check` accepts
it or names the first thing that is wrong with it.
-/

namespace AppendStore

inductive SyncPolicy where
  /-- After every append. -/
  | everyWrite
  /-- After every `count` appends. -/
  | everyEntries (count : Nat)
  /-- Only when asked. -/
  | manual
  deriving DecidableEq, Repr

/-- The settings of a store. -/
structure Config where
  logDir : Path := ⟨"./driftkv_data/wal"⟩
  /-- A segment that has grown beyond this size is followed by a new one. -/
  sizeLimit : UInt64 := 8388608
  /-- The capacity of a new segment. -/
  segmentCapacity : UInt32 := 16777216
  syncPolicy : SyncPolicy := .everyEntries 100
  valueDir : Path := ⟨"./driftkv_data/values"⟩
  deriving DecidableEq, Repr

namespace Config

def withDataDir (c : Config) (root : Path) : Config :=
  { c with logDir := root.join "wal", valueDir := root.join "values" }

def fault? (c : Config) : Option ConfigFault :=
  if c.logDir.isEmpty then some .emptyLogDir
  else if c.valueDir.isEmpty then some .emptyValueDir
  else if ¬ Segment.CapacityOk c.segmentCapacity then
    some (.capacityOutOfRange c.segmentCapacity)
  else if c.sizeLimit = 0 then some .zeroSizeLimit
  else if c.syncPolicy = .everyEntries 0 then some .zeroSyncCount
  else none

/-- Accepts the settings or names their first fault. -/
def check (c : Config) : Except StoreError Unit :=
  match c.fault? with
  | some fault => .error (.config fault)
  | none => .ok ()

theorem check_eq_ok_iff {c : Config} : c.check = .ok () ↔ c.fault? = none := by
  unfold check
  split <;> simp_all

theorem capacityOk_of_check {c : Config} (h : c.check = .ok ()) :
    Segment.CapacityOk c.segmentCapacity := by
  have hfault := check_eq_ok_iff.1 h
  unfold fault? at hfault
  split at hfault
  · cases hfault
  · split at hfault
    · cases hfault
    · split at hfault
      · cases hfault
      · next hcapacity => exact Decidable.not_not.1 hcapacity

end Config

end AppendStore
