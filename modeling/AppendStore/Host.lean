import AppendStore.Disk.Directory
import AppendStore.Segment.Basic
import AppendStore.ValueFile.Basic

/-!
# The host of a store

A `Host` is a disk together with the segments and value files that are open on
it. An open object is referred to by its place in a table, so several holders can
share it: what one of them appends moves the cursors that all of them see. Each
open object refers to the byte store it works on.

`Host.openSegment` and `Host.openValueFile` open files by directory and id;
`Host.attachSegment` and `Host.attachValueFile` use a byte store directly.
-/

namespace AppendStore

structure Opened (α : Type) where
  item : α
  store : StoreRef

structure SegmentRef where
  index : Nat
  deriving DecidableEq, Repr

structure ValueFileRef where
  index : Nat
  deriving DecidableEq, Repr

/-- A disk and what is open on it. -/
structure Host where
  disk : Disk := {}
  segments : Array (Opened Segment) := #[]
  valueFiles : Array (Opened ValueFile) := #[]

namespace Host

def empty : Host := {}

def onDisk {ε α : Type} (x : EStateM ε Disk α) : EStateM ε Host α :=
  Action.zoom Host.disk (fun d h => { h with disk := d }) x

def onStore {ε α : Type} (ref : StoreRef) (x : EStateM ε ByteStore α) : EStateM ε Host α :=
  onDisk (Disk.onStore ref x)

def segment? (h : Host) (ref : SegmentRef) : Option (Opened Segment) := h.segments[ref.index]?

def valueFile? (h : Host) (ref : ValueFileRef) : Option (Opened ValueFile) :=
  h.valueFiles[ref.index]?

/-- An error that stands for a reference to nothing. -/
def dangling : StoreError := .io (.other "nothing is open here")

def onSegment {α : Type} (ref : SegmentRef) (x : Action (Over Segment ByteStore) α) :
    Action Host α := fun h =>
  match h.segment? ref with
  | none => .error dangling h
  | some opened =>
    let put (o : Over Segment ByteStore) : Host :=
      { h with
        disk := h.disk.setStore opened.store o.base
        segments := h.segments.setIfInBounds ref.index ⟨o.item, opened.store⟩ }
    match x ⟨opened.item, h.disk.store opened.store⟩ with
    | .ok a o => .ok a (put o)
    | .error e o => .error e (put o)

def onValueFile {α : Type} (ref : ValueFileRef) (x : Action (Over ValueFile ByteStore) α) :
    Action Host α := fun h =>
  match h.valueFile? ref with
  | none => .error dangling h
  | some opened =>
    let put (o : Over ValueFile ByteStore) : Host :=
      { h with
        disk := h.disk.setStore opened.store o.base
        valueFiles := h.valueFiles.setIfInBounds ref.index ⟨o.item, opened.store⟩ }
    match x ⟨opened.item, h.disk.store opened.store⟩ with
    | .ok a o => .ok a (put o)
    | .error e o => .error e (put o)

def addSegment (segment : Segment) (store : StoreRef) : Action Host SegmentRef := fun h =>
  .ok ⟨h.segments.size⟩ { h with segments := h.segments.push ⟨segment, store⟩ }

def addValueFile (file : ValueFile) (store : StoreRef) : Action Host ValueFileRef := fun h =>
  .ok ⟨h.valueFiles.size⟩ { h with valueFiles := h.valueFiles.push ⟨file, store⟩ }

def attachSegment (store : StoreRef) (id : UInt64) (capacity : UInt32) :
    Action Host SegmentRef := do
  addSegment (← onStore store (Segment.attach id capacity)) store

def attachValueFile (store : StoreRef) (id : UInt64) : Action Host ValueFileRef := do
  addValueFile (← onStore store (ValueFile.attach id)) store

def segmentPath (dir : Path) (id : UInt64) : Path := dir.join (FileName.of .log id)

def valueFilePath (dir : Path) (id : UInt64) : Path := dir.join (FileName.of .value id)

/-- Opens the log segment in an open file. A file with no more than a word in it is new: its word
is written before it is given its size, so a half-made segment still counts as new. -/
def attachLogFile (store : StoreRef) (id : UInt64) (capacity : UInt32) :
    Action Host Segment := do
  if ((← get).disk.store store).contents.size ≤ Segment.wordSize then
    let segment ← onStore store (Segment.start id capacity)
    onStore store (modify fun s => { s with contents := s.contents.resize capacity.toNat })
    return segment
  else onStore store (Segment.resume id)

/-- Opens a log segment in a directory, and makes a new one of the given capacity if there is
none. -/
def openSegment (dir : Path) (id : UInt64) (capacity : UInt32) : Action Host SegmentRef := do
  let path := segmentPath dir id
  let store ← onDisk (Action.ofIo (Disk.openOrCreate path))
  let segment ← attachLogFile store id capacity
  addSegment { segment with path := some path } store

def attachValueFileAt (path : Path) (id : UInt64) (store : StoreRef) :
    Action Host ValueFileRef := do
  let file ← onStore store (ValueFile.attach id)
  addValueFile { file with path := some path } store

def openValueFile (dir : Path) (id : UInt64) : Action Host ValueFileRef := do
  let path := valueFilePath dir id
  attachValueFileAt path id (← onDisk (Action.ofIo (Disk.openOrCreate path)))

/-- Opens a value file in a directory if there is one. -/
def reopenValueFile (dir : Path) (id : UInt64) : Action Host ValueFileRef := do
  let path := valueFilePath dir id
  attachValueFileAt path id (← onDisk (Action.ofIo (Disk.openExisting path)))

def makeDirectory (dir : Path) : Action Host Unit :=
  onDisk (Action.ofIo (Disk.makeDirectory dir))

def idsIn (kind : FileKind) (dir : Path) : Action Host (List UInt64) :=
  onDisk (Action.ofIo (Disk.idsIn kind dir))

end Host

end AppendStore
