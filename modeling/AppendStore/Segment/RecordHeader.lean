import AppendStore.StoreError

/-!
# Record headers

A record header names the transaction of a record and the range of its body in
the segment: sixteen bytes, all numbers big-endian. `RecordHeader.decodeAll`
reads a whole region of headers and ignores a last piece that is too short for
one.
-/

namespace AppendStore

/-- Where the body of a transaction lies. -/
structure RecordHeader where
  transactionId : UInt64
  start : UInt32
  stop : UInt32
  deriving DecidableEq, Repr

namespace RecordHeader

def layout (h : RecordHeader) : Bytes :=
  h.transactionId.beBytes ++ h.start.beBytes ++ h.stop.beBytes

@[simp] theorem length_layout (h : RecordHeader) :
    h.layout.length = Segment.recordHeaderSize := by
  simp [layout, Segment.recordHeaderSize]

def ofBytes (bs : Bytes) : RecordHeader where
  transactionId := .ofBeBytes (bs.take 8)
  start := .ofBeBytes ((bs.drop 8).take 4)
  stop := .ofBeBytes ((bs.drop 12).take 4)

@[simp] theorem ofBytes_layout_append (h : RecordHeader) (rest : Bytes) :
    ofBytes (h.layout ++ rest) = h := by
  simp [ofBytes, layout, List.drop_append, List.drop_of_length_le]

def decode (bs : Bytes) : Except StoreError RecordHeader :=
  if bs.length < Segment.recordHeaderSize then .error (.decode (.shortRecordHeader bs.length))
  else .ok (ofBytes bs)

def decodeOnto (before : List RecordHeader) : Nat → Bytes → List RecordHeader
  | 0, _ => before.reverse
  | n + 1, bs => decodeOnto (ofBytes bs :: before) n (bs.drop Segment.recordHeaderSize)

def decodeAll (region : Bytes) : List RecordHeader :=
  decodeOnto [] (region.length / Segment.recordHeaderSize) region

/-- The number of bytes of the body; none if the range is turned around. -/
def bodyLength (h : RecordHeader) : Nat := h.stop.toNat - h.start.toNat

def recordLength (h : RecordHeader) : Nat := Segment.recordHeaderSize + h.bodyLength

end RecordHeader

end AppendStore
