import AppendStore.Action
import AppendStore.ByteStore.Transfer
import AppendStore.Disk.Path
import AppendStore.Segment.Cursors
import AppendStore.Segment.RecordHeader
import AppendStore.Transaction.Decoding

/-!
# Log segments

A segment keeps records in one byte store, the headers from the front and the
bodies from the back. What an open segment knows is a value of type `Segment`;
its operations are actions on that value on top of the store.

`append` claims space, writes the body, then the header, and then the cursor
word, so the word on the store never covers a record that is not there. Claimed
space is not given back when a write fails. `savedFront` is the front cursor of
the last word that was written, and the word is only written again for a later
one.
-/

namespace AppendStore

structure Segment where
  id : UInt64
  path : Option Path := none
  capacity : UInt32
  cursors : Cursors
  savedFront : UInt32
  deriving DecidableEq, Repr

namespace Segment

def writeWhole (bs : Bytes) (off : Nat) : Action ByteStore Unit := do
  let n ← Action.ofIo (ByteStore.writeSpan bs off)
  if n = bs.length then return else throw (.incompleteWrite bs.length n)

def readWhole (len off : Nat) : Action ByteStore Bytes := do
  let bs ← Action.ofIo (ByteStore.readSpan len off)
  if bs.length = len then return bs else throw (.incompleteValue len bs.length)

def fresh (id : UInt64) (capacity : UInt32) : Segment where
  id
  capacity
  cursors := .ofCapacity capacity
  savedFront := UInt32.ofNat wordSize

def start (id : UInt64) (capacity : UInt32) : Action ByteStore Segment :=
  if CapacityOk capacity then do
    let segment := fresh id capacity
    writeWhole segment.cursors.bytes 0
    return segment
  else throw (.config (.segmentCapacityOutOfRange id capacity))

/-- The segment that a cursor word and a capacity describe, if they fit each other. -/
def ofCursors (id : UInt64) (capacity : UInt32) (cursors : Cursors) :
    Except StoreError Segment :=
  if cursors.front.toNat < wordSize ∨ capacity < cursors.back ∨ cursors.back < cursors.front then
    .error (.decode (.corruptCursors id cursors.front cursors.back capacity))
  else .ok { id, capacity, cursors, savedFront := cursors.front }

/-- Takes up a segment from what its store holds. Its capacity is the size of the store. A word
of zeros was never written, so the segment starts afresh. -/
def resume (id : UInt64) : Action ByteStore Segment := do
  let size := (← get).size
  if maxCapacity < size then throw (.decode (.oversizedSegment id size))
  let capacity := UInt32.ofNat size
  let word ← readWhole wordSize 0
  let cursors := Cursors.ofBytes word
  if cursors.word = 0 then start id capacity
  else Action.ofExcept (ofCursors id capacity cursors)

/-- Opens the segment in a byte store, or starts one with the given capacity if the store holds no
more than a word. -/
def attach (id : UInt64) (capacity : UInt32) : Action ByteStore Segment := do
  if (← get).size ≤ wordSize then start id capacity else resume id

def space (s : Segment) : Int := s.cursors.space

def used (s : Segment) : Nat :=
  (s.cursors.front.toNat - wordSize) + (s.capacity.toNat - s.cursors.back.toNat)

def claim (bodyLength : Nat) : Action (Over Segment ByteStore) Claim := do
  let segment ← Action.item
  if bodyLength < UInt32.size then
    let (claim?, cursors) :=
      segment.cursors.claim (UInt32.ofNat recordHeaderSize) (UInt32.ofNat bodyLength)
    Action.setItem { segment with cursors }
    match claim? with
    | some claim => return claim
    | none => throw (.insufficientSpace (recordHeaderSize + bodyLength) cursors.space)
  else throw (.insufficientSpace (recordHeaderSize + bodyLength) segment.space)

/-- Writes the cursor word, and remembers a front that is further than the last one. -/
def saveCursors : Action (Over Segment ByteStore) Unit := do
  let segment ← Action.item
  Action.onBase (writeWhole segment.cursors.bytes 0)
  Action.setItem { segment with savedFront := max segment.savedFront segment.cursors.front }

/-- Writes the cursor word if the front has moved since it was last written. -/
def saveMovedCursors : Action (Over Segment ByteStore) Unit := do
  let segment ← Action.item
  if segment.savedFront < segment.cursors.front then saveCursors

/-- Appends a transaction and answers the header of its record. -/
def append (t : Transaction) : Action (Over Segment ByteStore) RecordHeader := do
  let body ← Action.ofExcept t.encode
  let claim ← claim body.length
  let header : RecordHeader := {
    transactionId := t.id
    start := UInt32.ofNat claim.bodyOffset
    stop := UInt32.ofNat (claim.bodyOffset + body.length) }
  Action.onBase (writeWhole body claim.bodyOffset)
  Action.onBase (writeWhole header.layout claim.headerOffset)
  saveMovedCursors
  return header

def sync : Action (Over Segment ByteStore) Unit := do
  saveCursors
  Action.onBase (Action.ofIo ByteStore.sync)

/-- The headers of all records in the order of their claims. -/
def headers : Action (Over Segment ByteStore) (List RecordHeader) := do
  let segment ← Action.item
  let region ← Action.onBase (readWhole (segment.cursors.front.toNat - wordSize) wordSize)
  return RecordHeader.decodeAll region

def Holds (s : Segment) (h : RecordHeader) : Prop :=
  s.cursors.back ≤ h.start ∧ h.stop ≤ s.capacity ∧ h.start < h.stop

instance (s : Segment) (h : RecordHeader) : Decidable (s.Holds h) :=
  inferInstanceAs (Decidable (_ ∧ _ ∧ _))

/-- The transaction that a body holds, if it is the one its header names. -/
def readBody (h : RecordHeader) (body : Bytes) : Except StoreError Transaction :=
  match Transaction.decode body with
  | .error e => .error e
  | .ok t =>
    if t.id = h.transactionId then .ok t
    else .error (.decode (.wrongTransaction h.transactionId t.id))

def transactionOf (h : RecordHeader) : Action (Over Segment ByteStore) Transaction := do
  let segment ← Action.item
  if segment.Holds h then
    let body ← Action.onBase (readWhole h.bodyLength h.start.toNat)
    Action.ofExcept (readBody h body)
  else throw (.decode (.bodyOutside h.transactionId h.start h.stop))

def recordsOf : List RecordHeader →
    Action (Over Segment ByteStore) (List (RecordHeader × Except StoreError Transaction))
  | [] => return []
  | h :: hs => do
    let found ← Action.attempt (transactionOf h)
    return (h, found) :: (← recordsOf hs)

def records :
    Action (Over Segment ByteStore) (List (RecordHeader × Except StoreError Transaction)) := do
  recordsOf (← headers)

end Segment

end AppendStore
