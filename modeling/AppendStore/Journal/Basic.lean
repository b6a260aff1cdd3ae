import AppendStore.Config.Basic
import AppendStore.Host

/-!
# Journals

A journal is a log that is split into segments: files of one directory with
consecutive ids. Records go to the active segment. The journal moves on to the
next segment when a record does not fit, and after an append that has taken the
active one beyond the size limit.

The first kind of rotation is needed for the append, so its failure is the
append's failure. The second is not: the record is in the log, and the next
append tries again.

`charged` is what the journal itself has counted for the active segment, starting
from the records that were there when it was opened. It can differ from what the
segment holds when the segment is shared.
-/

namespace AppendStore

structure Journal where
  dir : Path
  sizeLimit : UInt64
  segmentCapacity : UInt32
  syncPolicy : SyncPolicy
  active : SegmentRef
  charged : UInt64
  /-- The appends since the last sync that count towards the next one. -/
  pending : Nat := 0

/-- Where an appended record went. -/
structure Appended where
  segmentId : UInt64
  header : RecordHeader
  deriving DecidableEq, Repr

namespace Journal

def firstSegmentId : UInt64 := 1

def segmentOf (ref : SegmentRef) : Action Host Segment :=
  Host.onSegment ref Action.item

/-- What a journal charges for a segment that it takes up. -/
def initialCharge (ref : SegmentRef) : Action Host UInt64 := do
  return UInt64.ofNat (← segmentOf ref).used

/-- Opens the journal of a configuration at its newest segment. -/
def attach (config : Config) : Action Host Journal := do
  Action.ofExcept config.check
  Host.makeDirectory config.logDir
  let ids ← Host.idsIn .log config.logDir
  let active ← Host.openSegment config.logDir (ids.getLastD firstSegmentId) config.segmentCapacity
  return {
    dir := config.logDir
    sizeLimit := config.sizeLimit
    segmentCapacity := config.segmentCapacity
    syncPolicy := config.syncPolicy
    active
    charged := ← initialCharge active }

def onActive {α : Type} (x : Action (Over Segment ByteStore) α) : Action (Over Journal Host) α := do
  let journal ← Action.item
  Action.onBase (Host.onSegment journal.active x)

def activeId : Action (Over Journal Host) UInt64 := do
  return (← onActive Action.item).id

def advance : Action (Over Journal Host) Unit := do
  onActive Segment.sync
  let journal ← Action.item
  Action.setItem { journal with pending := 0 }
  let id ← activeId
  let next ← Action.onBase (Host.openSegment journal.dir (id + 1) journal.segmentCapacity)
  let charged ← Action.onBase (initialCharge next)
  Action.setItem { journal with pending := 0, active := next, charged }

/-- Appends to the active segment, or to the next one if it is full. -/
def place (t : Transaction) : Action (Over Journal Host) RecordHeader := do
  match ← Action.attempt (onActive (Segment.append t)) with
  | .ok header => return header
  | .error e =>
    if e.isInsufficientSpace then
      advance
      onActive (Segment.append t)
    else throw e

/-- Syncs the active segment if the policy asks for it after one more append. -/
def applyPolicy : Action (Over Journal Host) Unit := do
  let journal ← Action.item
  match journal.syncPolicy with
  | .everyWrite => onActive Segment.sync
  | .everyEntries count =>
    if count ≤ journal.pending + 1 then
      Action.setItem { journal with pending := 0 }
      onActive Segment.sync
    else Action.setItem { journal with pending := journal.pending + 1 }
  | .manual => return

def charge (header : RecordHeader) : Action (Over Journal Host) Unit := do
  let journal ← Action.item
  Action.setItem { journal with charged := journal.charged + UInt64.ofNat header.recordLength }

/-- Appends a transaction and answers where it went. -/
def append (t : Transaction) : Action (Over Journal Host) Appended := do
  let header ← place t
  let segmentId ← activeId
  charge header
  let journal ← Action.item
  applyPolicy
  if journal.sizeLimit < journal.charged then
    let _ ← Action.attempt advance
  return ⟨segmentId, header⟩

def sync : Action (Over Journal Host) Unit := do
  onActive Segment.sync
  let journal ← Action.item
  Action.setItem { journal with pending := 0 }

def ids (j : Journal) : Action Host (List UInt64) := Host.idsIn .log j.dir

def segmentAt (j : Journal) (id : UInt64) : Action Host SegmentRef := do
  if (← get).disk.isFile (Host.segmentPath j.dir id) then
    Host.openSegment j.dir id j.segmentCapacity
  else throw (.io (.segmentMissing id))

/-- The records of a segment of the journal: of the active one as it is open, of any other one
through the file. -/
def readSegment (j : Journal) (id : UInt64) :
    Action Host (List (RecordHeader × Except StoreError Transaction)) := do
  if (← segmentOf j.active).id = id then Host.onSegment j.active Segment.records
  else
    let ref ← j.segmentAt id
    Host.onSegment ref Segment.records

end Journal

end AppendStore
