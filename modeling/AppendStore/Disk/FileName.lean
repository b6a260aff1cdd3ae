import AppendStore.Bytes.Hex

/-!
# File names

A file of the store is named by its kind and its id: the tag of the kind in two
hexadecimal digits and the id in sixteen. Names are written in lowercase. They
are read in either case, and the tag also as a plus sign and a single digit.
-/

namespace AppendStore

inductive FileKind where
  | manifest
  | log
  | heap
  | value
  deriving DecidableEq, Repr

namespace FileKind

def tag : FileKind → UInt8
  | manifest => 0
  | log => 1
  | heap => 2
  | value => 3

def ofTag? (tag : UInt8) : Option FileKind :=
  if tag = 0 then some manifest
  else if tag = 1 then some log
  else if tag = 2 then some heap
  else if tag = 3 then some value
  else none

@[simp] theorem ofTag?_tag (kind : FileKind) : ofTag? kind.tag = some kind := by
  cases kind <;> rfl

end FileKind

namespace FileName

def length : Nat := 18

def of (kind : FileKind) (id : UInt64) : String := Bytes.hex (kind.tag :: id.beBytes)

/-- The number that two characters write: two digits, or a plus sign and a digit. -/
def readTag? (first second : Char) : Option Nat :=
  if first = '+' then hexValue? second
  else (hexValue? first).bind fun high => (hexValue? second).map (16 * high + ·)

def readChars? : List Char → Option (FileKind × UInt64)
  | first :: second :: digits =>
    if digits.length = 16 then do
      let tag ← readTag? first second
      let kind ← FileKind.ofTag? (UInt8.ofNat tag)
      let id ← hexNat? digits
      return (kind, UInt64.ofNat id)
    else none
  | _ => none

/-- The kind and the id that a file name stands for. -/
def parse? (name : String) : Option (FileKind × UInt64) := readChars? name.toList

end FileName

end AppendStore
