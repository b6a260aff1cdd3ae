import AppendStore.Action
import AppendStore.ByteStore.Transfer
import AppendStore.Checksum
import AppendStore.Disk.Path
import AppendStore.ValueFile.Pointer

/-!
# Value files

A value file holds values one after the other, each behind it with its CRC-32 in
four big-endian bytes. An open value file claims the place of a record before it
writes it, starting from the size that the file had when it was opened, and a
failed write does not give its place back.

Reading checks that the whole record lies in the file and that the checksum is
that of the value, so it never answers with damaged data.
-/

namespace AppendStore

/-- An open value file. `offset` is where the next record goes. -/
structure ValueFile where
  id : UInt64
  path : Option Path := none
  offset : UInt64
  deriving DecidableEq, Repr

namespace ValueFile

def maxSize : Nat := UInt64.size - 1

def storedLength (value : Bytes) : Nat := value.length + checksumSize

def recordLayout (value : Bytes) (checksum : UInt32) : Bytes := value ++ checksum.beBytes

@[simp] theorem length_recordLayout (value : Bytes) (checksum : UInt32) :
    (recordLayout value checksum).length = storedLength value := by
  simp [recordLayout, storedLength, checksumSize]

/-- The file that is opened on a store: the next record goes behind what is there. -/
def opened (id : UInt64) (s : ByteStore) : ValueFile where
  id
  offset := UInt64.ofNat s.size

def attach (id : UInt64) : Action ByteStore ValueFile := fun s => .ok (opened id s) s

/-- Claims the place of a record of `size` bytes and answers its offset. -/
def claim (size : Nat) : Action (Over ValueFile ByteStore) UInt64 := do
  let file ← Action.item
  Action.setItem { file with offset := file.offset + UInt64.ofNat size }
  return file.offset

def write (value : Bytes) : Action (Over ValueFile ByteStore) UInt64 := do
  let offset ← claim (storedLength value)
  let checksum ← Action.ofExcept (Checksum.of value)
  let record := recordLayout value checksum
  let n ← Action.onBase (Action.ofIo (ByteStore.writeSpan record offset.toNat))
  if n = record.length then return offset else throw (.incompleteValue record.length n)

/-- The value in a record of `size` bytes and a checksum, if the two agree. -/
def readRecord (size : Nat) (record : Bytes) : Except StoreError Bytes :=
  let value := record.take size
  let stored := UInt32.ofBeBytes (record.drop size)
  match Checksum.of value with
  | .error e => .error e
  | .ok computed => if computed = stored then .ok value else .error (.badChecksum stored computed)

def read (offset : UInt64) (size : Nat) : Action (Over ValueFile ByteStore) Bytes := do
  let file ← get
  let available := file.base.size - offset.toNat
  if maxSize < size + checksumSize ∨ available < size + checksumSize then
    throw (.incompleteValue (min (size + checksumSize) maxSize) available)
  let record ← Action.onBase (Action.ofIo (ByteStore.readSpan (size + checksumSize) offset.toNat))
  if record.length ≠ size + checksumSize then
    throw (.incompleteValue (size + checksumSize) record.length)
  Action.ofExcept (readRecord size record)

def sync : Action (Over ValueFile ByteStore) Unit :=
  Action.onBase (Action.ofIo ByteStore.sync)

end ValueFile

end AppendStore
