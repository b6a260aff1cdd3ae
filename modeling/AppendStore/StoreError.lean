import AppendStore.Bytes.Hex
import AppendStore.Segment.Layout

/-!
# Errors

`IoError` is what a byte store or the file system reports. `StoreError` is what
the library reports: an I/O error, or one of its own findings. Every error names
its cause, and the wording is in the functions `message`. The two classes that a
caller acts upon are `StoreError.isCorruption`, damaged or missing data, and
`StoreError.isInsufficientSpace`, a full segment.

The constructors `other` carry a cause in the caller's own words.
-/

namespace AppendStore

inductive IoKind where
  | notFound
  | alreadyExists
  | notADirectory
  | isADirectory
  | directoryNotEmpty
  | resourceBusy
  | invalidInput
  | invalidFilename
  | interrupted
  | other
  deriving DecidableEq, Repr

def IoKind.name : IoKind → String
  | .notFound => "NotFound"
  | .alreadyExists => "AlreadyExists"
  | .notADirectory => "NotADirectory"
  | .isADirectory => "IsADirectory"
  | .directoryNotEmpty => "DirectoryNotEmpty"
  | .resourceBusy => "ResourceBusy"
  | .invalidInput => "InvalidInput"
  | .invalidFilename => "InvalidFilename"
  | .interrupted => "Interrupted"
  | .other => "Other"

inductive IoError where
  /-- The file system refused a path. -/
  | refused (kind : IoKind)
  /-- A file was to have a length that no file can have. -/
  | lengthOutOfRange
  /-- No plain file holds the log segment `id`. -/
  | segmentMissing (id : UInt64)
  /-- A planned interruption: the call may be made again. -/
  | interrupted
  /-- A planned failure. -/
  | failed
  /-- A planned failure of durable sync. -/
  | syncFailed
  | other (text : String)
  deriving DecidableEq, Repr

namespace IoError

def kind : IoError → IoKind
  | refused kind => kind
  | lengthOutOfRange => .invalidInput
  | segmentMissing _ => .notFound
  | interrupted => .interrupted
  | failed | syncFailed | other _ => .other

def message : IoError → String
  | refused kind => kind.name
  | lengthOutOfRange => "number too large to fit in target type"
  | segmentMissing id => s!"WAL segment {id} not found"
  | interrupted => "scripted interrupt"
  | failed => "scripted failure"
  | syncFailed => "scripted sync failure"
  | other text => text

end IoError

inductive Field where
  | key
  | value
  deriving DecidableEq, Repr

def Field.name : Field → String
  | .key => "key"
  | .value => "value"

/-- Why bytes could not be read as what they should hold. -/
inductive DecodeFault where
  | shortCursorWord (got : Nat)
  | shortRecordHeader (got : Nat)
  | shortTimestampedKey (got : Nat)
  | shortTransaction (got : Nat)
  | noChanges (transaction : UInt64)
  | missingChange (transaction : UInt64) (declared present : Nat)
  | unknownChange (tag : UInt8)
  | missingLength (field : Field)
  | shortField (field : Field) (expected got : Nat)
  | trailingBytes (extra changes : Nat)
  | oversizedSegment (segment : UInt64) (size : Nat)
  | corruptCursors (segment : UInt64) (front back capacity : UInt32)
  | bodyOutside (transaction : UInt64) (start stop : UInt32)
  | wrongTransaction (named held : UInt64)
  | other (text : String)
  deriving DecidableEq, Repr

def DecodeFault.message : DecodeFault → String
  | shortCursorWord got => s!"allocator word needs {Segment.wordSize} bytes, got {got}"
  | shortRecordHeader got =>
    s!"record header needs {Segment.recordHeaderSize} bytes, got {got}"
  | shortTimestampedKey got => s!"timestamped key needs at least 8 bytes, got {got}"
  | shortTransaction got => s!"transaction prefix needs 34 bytes, got {got}"
  | noChanges id => s!"transaction {id} has no changes"
  | missingChange id declared present =>
    s!"transaction {id} declares {declared} changes, only {present} present"
  | unknownChange tag => s!"unknown change type: 0x{Bytes.hex [tag]}"
  | missingLength field => s!"missing {field.name} length"
  | shortField field expected got =>
    s!"incomplete {field.name} (expected {expected}, got {got})"
  | trailingBytes extra changes => s!"{extra} trailing bytes after {changes} changes"
  | oversizedSegment id size => s!"segment {id} is {size} bytes, too large"
  | corruptCursors id front back capacity =>
    s!"segment {id} has a corrupt allocator word (front {front}, back {back}, " ++
      s!"capacity {capacity})"
  | bodyOutside id start stop =>
    s!"record header for txn {id} points outside the body region ({start}..{stop})"
  | wrongTransaction named held => s!"header names txn {named}, body holds txn {held}"
  | other text => text

inductive TransactionFault where
  | noChanges (transaction : UInt64)
  | tooManyChanges (transaction : UInt64) (changes : Nat)
  | oversizedField (field : Field) (length : Nat)
  | other (text : String)
  deriving DecidableEq, Repr

def TransactionFault.message : TransactionFault → String
  | noChanges id => s!"transaction {id} has no changes"
  | tooManyChanges id changes => s!"transaction {id} has {changes} changes (max 65535)"
  | oversizedField field length => s!"{field.name} of {length} bytes is too large"
  | other text => text

inductive ConfigFault where
  | emptyLogDir
  | emptyValueDir
  | capacityOutOfRange (capacity : UInt32)
  | segmentCapacityOutOfRange (segment : UInt64) (capacity : UInt32)
  | zeroSizeLimit
  | zeroSyncCount
  | other (text : String)
  deriving DecidableEq, Repr

def ConfigFault.message : ConfigFault → String
  | emptyLogDir => "wal_dir must not be empty"
  | emptyValueDir => "value_dir must not be empty"
  | capacityOutOfRange capacity =>
    s!"wal_segment_capacity must be in ({Segment.minCapacity}, {Segment.maxCapacity}], " ++
      s!"got {capacity}"
  | segmentCapacityOutOfRange id capacity =>
    s!"segment {id} capacity must be in ({Segment.minCapacity}, {Segment.maxCapacity}], " ++
      s!"got {capacity}"
  | zeroSizeLimit => "max_wal_segment_size must be greater than zero"
  | zeroSyncCount => "EveryNEntries sync strategy needs a count of at least 1"
  | other text => text

inductive StoreError where
  | io (cause : IoError)
  /-- A segment has `available` bytes between its cursors, which may be negative, and the record
  needs `requested`. -/
  | insufficientSpace (requested : Nat) (available : Int)
  | incompleteWrite (expected actual : Nat)
  | decode (fault : DecodeFault)
  | invalidTransaction (fault : TransactionFault)
  | incompleteValue (expected actual : Nat)
  | badChecksum (stored computed : UInt32)
  | checksumCreation (expected hashed : Nat)
  | config (fault : ConfigFault)
  deriving DecidableEq, Repr

namespace StoreError

def message : StoreError → String
  | io cause => s!"IO error: {cause.message}"
  | insufficientSpace requested available =>
    s!"insufficient space in WAL segment: requested {requested} bytes, {available} available"
  | incompleteWrite expected actual =>
    s!"incomplete write: expected {expected} bytes, wrote {actual}"
  | decode fault => s!"decode error: {fault.message}"
  | invalidTransaction fault => s!"invalid transaction: {fault.message}"
  | incompleteValue expected actual =>
    s!"incomplete value: expected {expected} bytes, got {actual}"
  | badChecksum stored computed =>
    s!"bad value checksum: stored 0x{stored.beBytes.hex}, computed 0x{computed.beBytes.hex}"
  | checksumCreation expected hashed =>
    s!"could not create checksum for value: hashed {hashed} of {expected} bytes"
  | config fault => s!"Configuration error: {fault.message}"

/-- Stored data is damaged or incomplete. -/
def isCorruption : StoreError → Bool
  | badChecksum .. | incompleteValue .. | incompleteWrite .. | decode _ => true
  | _ => false

def isInsufficientSpace : StoreError → Bool
  | insufficientSpace .. => true
  | _ => false

end StoreError

end AppendStore
