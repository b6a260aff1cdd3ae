import AppendStore.Config.Basic
import AppendStore.Json.Reader

/-!
# Configurations as JSON

A configuration is written as an object of its five settings. Reading asks for
each of them once and ignores what else there is; an array of just the five
values, in the order they are written, is read as well.
-/

namespace AppendStore

namespace SyncPolicy

def toJson : SyncPolicy → JsonValue
  | everyWrite => .text "EveryWrite"
  | everyEntries count =>
    .object [(some "EveryNEntries", .object [(some "count", .natural count)])]
  | manual => .text "Manual"

/-- The policy that JSON stands for. A policy without a count may also be the name of an empty
member. -/
def ofJson? : JsonValue → Option SyncPolicy
  | .text (some "EveryWrite") => some everyWrite
  | .text (some "Manual") => some manual
  | .object [(some "EveryWrite", .null)] => some everyWrite
  | .object [(some "Manual", .null)] => some manual
  | .object [(some "EveryNEntries", value)] => do
    match ← value.fields? ["count"] with
    | [count] => return everyEntries (← count.below? UInt64.size)
    | _ => none
  | _ => none

end SyncPolicy

namespace Config

def fieldNames : List String :=
  ["wal_dir", "max_wal_segment_size", "wal_segment_capacity", "wal_sync_strategy", "value_dir"]

def toJson (c : Config) : JsonValue :=
  .object [
    (some "wal_dir", .text c.logDir.text),
    (some "max_wal_segment_size", .natural c.sizeLimit.toNat),
    (some "wal_segment_capacity", .natural c.segmentCapacity.toNat),
    (some "wal_sync_strategy", c.syncPolicy.toJson),
    (some "value_dir", .text c.valueDir.text)]

def ofJson? (value : JsonValue) : Option Config := do
  match ← value.fields? fieldNames with
  | [logDir, sizeLimit, segmentCapacity, syncPolicy, valueDir] =>
    return {
      logDir := ⟨← logDir.text?⟩
      sizeLimit := UInt64.ofNat (← sizeLimit.below? UInt64.size)
      segmentCapacity := UInt32.ofNat (← segmentCapacity.below? UInt32.size)
      syncPolicy := ← SyncPolicy.ofJson? syncPolicy
      valueDir := ⟨← valueDir.text?⟩ }
  | _ => none

def parse? (s : String) : Option Config := (JsonValue.parse? s).bind ofJson?

end Config

end AppendStore
