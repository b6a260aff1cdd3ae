import AppendStore.StoreError

/-!
# Cursors of a log segment

A segment is filled from both ends. The front cursor is the end of its record
headers and the back cursor the start of its record bodies, and both are halves
of one 64-bit word: the front above, the back below. One addition to the word
claims space at both ends at once.

`Cursors.claim` adds first and judges the word that it added to. It takes the
addition back when the claim does not hold, so a borrow out of the lower half is
never kept. Any word at all can be a value of `Cursors`; the back is then read
as a signed number, and `space` may be negative.
-/

namespace AppendStore

/-- The two ends of the free part of a segment, in one word. -/
structure Cursors where
  word : UInt64
  deriving DecidableEq, Repr

/-- The places that a claim was given for a record header and a record body. -/
structure Claim where
  headerOffset : Nat
  bodyOffset : Nat
  deriving DecidableEq, Repr

namespace Cursors

def pack (front back : UInt32) : Cursors := ⟨front.toUInt64 <<< 32 ||| back.toUInt64⟩

def ofCapacity (capacity : UInt32) : Cursors := pack (UInt32.ofNat Segment.wordSize) capacity

def front (c : Cursors) : UInt32 := (c.word >>> 32).toUInt32

def back (c : Cursors) : UInt32 := c.word.toUInt32

/-- The start of the record bodies, read as a signed number. -/
def signedBack (c : Cursors) : Int := (c.back.toNat : Int).bmod UInt32.size

def space (c : Cursors) : Int := c.signedBack - c.front.toNat

def bytes (c : Cursors) : Bytes := c.word.beBytes

def ofBytes (bs : Bytes) : Cursors := ⟨.ofBeBytes bs⟩

def decode (bs : Bytes) : Except StoreError Cursors :=
  if bs.length < Segment.wordSize then .error (.decode (.shortCursorWord bs.length))
  else .ok (ofBytes (bs.take Segment.wordSize))

@[simp] theorem ofBytes_bytes (c : Cursors) : ofBytes c.bytes = c := by
  simp [ofBytes, bytes]

@[simp] theorem length_bytes (c : Cursors) : c.bytes.length = Segment.wordSize :=
  UInt64.length_beBytes c.word

/-- What is written out of a word that takes on the given values one after the other: the first of
them whose back is not behind its front. -/
def awaited : List Cursors → Option Bytes
  | [] => none
  | c :: later => if c.signedBack < c.front.toNat then awaited later else some c.bytes

/-- The places of a claim on top of these cursors, if it fits between them and the back is no
further than a segment may reach. -/
def place? (c : Cursors) (headerLength bodyLength : UInt32) : Option Claim :=
  let front : Int := c.front.toNat
  let back := c.signedBack
  if back < front ∨ (Segment.maxCapacity : Int) < back then none
  else if front + headerLength.toNat ≤ back - bodyLength.toNat then
    some ⟨c.front.toNat, (back - bodyLength.toNat).toNat⟩
  else none

/-- What is added to the word to move the front up and the back down. -/
def delta (headerLength bodyLength : UInt32) : UInt64 :=
  headerLength.toUInt64 <<< 32 - bodyLength.toUInt64

/-- Claims space for a record header and a record body; the cursors stay as they are if there is
none. -/
def claim (c : Cursors) (headerLength bodyLength : UInt32) : Option Claim × Cursors :=
  if c.space < headerLength.toNat + bodyLength.toNat then (none, c)
  else
    let moved := c.word + delta headerLength bodyLength
    match c.place? headerLength bodyLength with
    | some claim => (some claim, ⟨moved⟩)
    | none => (none, ⟨moved - delta headerLength bodyLength⟩)

theorem claim_snd_of_fst_eq_none {c : Cursors} {headerLength bodyLength : UInt32}
    (h : (c.claim headerLength bodyLength).1 = none) :
    (c.claim headerLength bodyLength).2 = c := by
  unfold claim at h ⊢
  split
  · rfl
  · next hspace =>
    rw [if_neg hspace] at h
    cases hplace : c.place? headerLength bodyLength with
    | some claim => simp [hplace] at h
    | none => simp

end Cursors

end AppendStore
