import AppendStore.Sorting
import AppendStore.StoreError

/-!
# Timestamped keys

A timestamped key is a key with its time behind it in eight big-endian bytes.
Keys are ordered as byte strings, so the versions of one key follow each other
in time.
-/

namespace AppendStore

/-- A key and its time as one byte string. -/
structure TimestampedKey where
  bytes : Bytes
  eight_le_length : 8 ≤ bytes.length

namespace TimestampedKey

def timestampSize : Nat := 8

def of (key : Bytes) (timestamp : UInt64) : TimestampedKey :=
  ⟨key ++ timestamp.beBytes, by simp⟩

/-- A byte string as a timestamped key, if it is long enough to hold a time. -/
def ofBytes (bs : Bytes) : Except StoreError TimestampedKey :=
  if h : 8 ≤ bs.length then .ok ⟨bs, h⟩ else .error (.decode (.shortTimestampedKey bs.length))

def key (k : TimestampedKey) : Bytes := k.bytes.take (k.bytes.length - timestampSize)

def timestamp (k : TimestampedKey) : UInt64 :=
  .ofBeBytes (k.bytes.drop (k.bytes.length - timestampSize))

@[simp] theorem bytes_of (key : Bytes) (timestamp : UInt64) :
    (of key timestamp).bytes = key ++ timestamp.beBytes := rfl

@[simp] theorem key_of (k : Bytes) (timestamp : UInt64) : (of k timestamp).key = k := by
  simp [key, timestampSize]

@[simp] theorem timestamp_of (key : Bytes) (t : UInt64) : (of key t).timestamp = t := by
  simp [timestamp, timestampSize]

@[ext] theorem ext {k l : TimestampedKey} (h : k.bytes = l.bytes) : k = l := by
  cases k
  cases l
  cases h
  rfl

instance : DecidableEq TimestampedKey := fun k l =>
  decidable_of_iff (k.bytes = l.bytes) ⟨ext, fun h => h ▸ rfl⟩

/-- Timestamped keys are ordered as byte strings: by their first difference, a shorter one before
its extensions. -/
instance : Ord TimestampedKey := ⟨fun k l => compare k.bytes l.bytes⟩

def sort (ks : List TimestampedKey) : List TimestampedKey :=
  sortBy (fun k l => compare k l != .gt) ks

def distinct (ks : List TimestampedKey) : Nat := ks.eraseDups.length

end TimestampedKey

end AppendStore
