import AppendStore.Action
import AppendStore.ByteStore.Transfer
import AppendStore.Disk.Path

/-!
# The disk

A disk is a tree of directories and plain files. The bytes of the files are kept
in one table and the entries of the directories in another, and an entry only
refers to them. So an open file outlives the entry that it was opened through: a
byte store that no entry refers to is a file in memory, or one that was removed
while it was open.

A `Place` is where something stands or could stand. `Disk.locate` follows a path
to a place: every name but the last must lead to a directory, `.` stays, and `..`
goes back. `Disk.find` also gives what stands there, and takes a path that ends in
a slash for that of a directory.

Paths start in one directory of the disk. What lies around it, and where absolute
paths start, is one more directory, and nothing is known to be in it.
-/

namespace AppendStore

structure StoreRef where
  index : Nat
  deriving DecidableEq, Repr

structure DirectoryRef where
  index : Nat
  deriving DecidableEq, Repr

inductive Entry where
  | directory (ref : DirectoryRef)
  | file (store : StoreRef)
  deriving DecidableEq, Repr

/-- Directories, plain files and the bytes of all files. The first directory is what lies around
the disk, and paths start in the second. -/
structure Disk where
  stores : Array ByteStore := #[]
  directories : Array (List (String × Entry)) := #[[], []]

/-- A name in the last of the directories gone into, or that directory itself. The directories are
listed with the innermost first, and all of them lie in the first of the disk. -/
structure Place where
  trail : List DirectoryRef
  name? : Option String := none
  deriving DecidableEq, Repr

namespace Place

def outside : Place := { trail := [] }

def start : Place := { trail := [⟨1⟩] }

def directory (place : Place) : DirectoryRef := place.trail.headD ⟨0⟩

/-- The place that a name leads to at the end of a trail. -/
def step (trail : List DirectoryRef) (name : String) : Place :=
  if name = "." then { trail }
  else if name = ".." then { trail := trail.tail }
  else { trail, name? := some name }

end Place

namespace Disk

def empty : Disk := {}

def store (d : Disk) (ref : StoreRef) : ByteStore := d.stores.getD ref.index {}

def setStore (ref : StoreRef) (s : ByteStore) (d : Disk) : Disk :=
  { d with stores := d.stores.setIfInBounds ref.index s }

def onStore {ε α : Type} (ref : StoreRef) (x : EStateM ε ByteStore α) : EStateM ε Disk α :=
  Action.zoom (·.store ref) (setStore ref) x

def newStore {ε : Type} (s : ByteStore) : EStateM ε Disk StoreRef := fun d =>
  .ok ⟨d.stores.size⟩ { d with stores := d.stores.push s }

def newDirectory {ε : Type} : EStateM ε Disk DirectoryRef := fun d =>
  .ok ⟨d.directories.size⟩ { d with directories := d.directories.push [] }

def children (d : Disk) (ref : DirectoryRef) : List (String × Entry) :=
  d.directories.getD ref.index []

def mapChildren (ref : DirectoryRef) (f : List (String × Entry) → List (String × Entry))
    (d : Disk) : Disk :=
  { d with directories := d.directories.modify ref.index f }

/-- What stands at a place, if anything. A name that is too long cannot be looked up. -/
def lookup (d : Disk) (place : Place) : Except IoKind (Option Entry) :=
  match place.name? with
  | none => .ok (some (.directory place.directory))
  | some name =>
    if Path.maxNameBytes < name.utf8ByteSize then .error .invalidFilename
    else .ok ((d.children place.directory).lookup name)

def enter (d : Disk) (place : Place) : Except IoKind (List DirectoryRef) :=
  match place.name? with
  | none => .ok place.trail
  | some _ =>
    match d.lookup place with
    | .error kind => .error kind
    | .ok none => .error .notFound
    | .ok (some (.file _)) => .error .notADirectory
    | .ok (some (.directory ref)) => .ok (ref :: place.trail)

def walk (d : Disk) (place : Place) : List String → Except IoKind Place
  | [] => .ok place
  | name :: rest =>
    match d.enter place with
    | .error kind => .error kind
    | .ok trail => d.walk (.step trail name) rest

def locate (d : Disk) (p : Path) : Except IoKind Place :=
  match p.refusal? with
  | some kind => .error kind
  | none => d.walk (if p.isAbsolute then .outside else .start) p.parts.reverse

/-- What stands at a path, and where. A path that ends in a slash does not lead to a file. -/
def find (d : Disk) (p : Path) : Except IoKind (Place × Entry) :=
  match d.locate p with
  | .error kind => .error kind
  | .ok place =>
    match d.lookup place with
    | .error kind => .error kind
    | .ok none => .error .notFound
    | .ok (some (.directory ref)) => .ok (place, .directory ref)
    | .ok (some (.file ref)) =>
      if p.endsInSlash then .error .notADirectory else .ok (place, .file ref)

def isFile (d : Disk) (p : Path) : Bool :=
  match d.find p with
  | .ok (_, .file _) => true
  | _ => false

def isDirectory (d : Disk) (p : Path) : Bool :=
  match d.find p with
  | .ok (_, .directory _) => true
  | _ => false

def observe {α : Type} (look : Disk → Except IoKind α) : EStateM IoError Disk α := fun d =>
  match look d with
  | .ok a => .ok a d
  | .error kind => .error (.refused kind) d

def addEntry (place : Place) (entry : Entry) : EStateM IoError Disk Unit :=
  match place.name? with
  | none => return
  | some name => modify (mapChildren place.directory ((name, entry) :: ·))

def dropEntry (place : Place) : EStateM IoError Disk Unit :=
  match place.name? with
  | none => return
  | some name => modify (mapChildren place.directory (·.filter (·.1 ≠ name)))

def refuse {α : Type} (kind : IoKind) : EStateM IoError Disk α := throw (.refused kind)

def openExisting (p : Path) : EStateM IoError Disk StoreRef := do
  match ← observe (·.find p) with
  | (_, .directory _) => refuse .isADirectory
  | (_, .file ref) => return ref

/-- Opens a plain file to read and write, and makes an empty one if there is none. A path that ends
in a slash asks for a directory, whatever stands there. -/
def openOrCreate (p : Path) : EStateM IoError Disk StoreRef := do
  let place ← observe (·.locate p)
  if p.endsInSlash then refuse .isADirectory
  else
    match ← observe (·.lookup place) with
    | some (.directory _) => refuse .isADirectory
    | some (.file ref) => return ref
    | none =>
      let ref ← newStore (.onDisk [])
      addEntry place (.file ref)
      return ref

/-- Makes a directory; the one around it must be there, and nothing in its place. -/
def createDirectory (p : Path) : EStateM IoError Disk Unit := do
  let place ← observe (·.locate p)
  match ← observe (·.lookup place) with
  | some _ => refuse .alreadyExists
  | none => addEntry place (.directory (← newDirectory))

def putFile (p : Path) (bs : Bytes) : EStateM IoError Disk Unit := do
  let ref ← openOrCreate p
  onStore ref (modify fun s => { s with contents := .ofBytes bs })

def dropFile (p : Path) : EStateM IoError Disk Unit := do
  match ← observe (·.find p) with
  | (_, .directory _) => refuse .isADirectory
  | (place, .file _) => dropEntry place

def dropDirectory (p : Path) : EStateM IoError Disk Unit := do
  match ← observe (·.find p) with
  | (_, .file _) => refuse .notADirectory
  | (place, .directory ref) =>
    if p.parts = [] then refuse .resourceBusy
    else if p.parts.head? = some "." then refuse .invalidInput
    else if p.parts.head? = some ".." ∨ ¬ ((← get).children ref).isEmpty then
      refuse .directoryNotEmpty
    else dropEntry place

def maxLength : Nat := 0x7fffffffffffffff

def setLength (p : Path) (length : Nat) : EStateM IoError Disk Unit := do
  let ref ← openExisting p
  if maxLength < length then throw .lengthOutOfRange
  onStore ref (modify fun s => { s with contents := s.contents.resize length })

/-- Overwrites a part of a plain file; the answer is the number of bytes written. Unless there are
none, they must end within `maxLength`. -/
def overwrite (p : Path) (off : Nat) (bs : Bytes) : EStateM IoError Disk Nat := do
  let ref ← openExisting p
  if ¬ bs.isEmpty ∧ maxLength < off + bs.length then refuse .invalidInput
  onStore ref (modify fun s => { s with contents := s.contents.write off bs })
  return bs.length

def readRange (p : Path) (off : Nat) (len : Option Nat) : EStateM IoError Disk (Nat × Bytes) := do
  let ref ← openExisting p
  let contents := ((← get).store ref).contents
  return (contents.size, contents.read off (len.getD contents.size))

end Disk

end AppendStore
