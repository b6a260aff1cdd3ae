import AppendStore.Bytes.Basic

/-!
# Value pointers

A value pointer says where a value is stored: the file, the offset of its record
and the size of the value itself.
-/

namespace AppendStore

def checksumSize : Nat := 4

/-- The place of a stored value. -/
structure ValuePointer where
  fileId : UInt64
  offset : UInt64
  size : Nat
  deriving DecidableEq, Repr

def ValuePointer.storedLength (p : ValuePointer) : Nat := p.size + checksumSize

end AppendStore
