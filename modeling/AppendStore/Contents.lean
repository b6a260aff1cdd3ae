import AppendStore.Bytes.Basic
import AppendStore.PagedBytes

/-!
# Contents of a file

`Contents` is a size together with the byte at every position, zero from the
size on. Reading stops at the size; writing beyond it leaves zeros in the gap.
A file can be long and hold little, so the size is kept apart from the bytes.

Every operation is pinned by its size and its byte at a position; two contents
that agree on both are equal (`Contents.ext`).
-/

namespace AppendStore

/-- The bytes of a file. -/
structure Contents where
  size : Nat
  bytes : ByteMap
  zero_beyond : ∀ i, size ≤ i → bytes.byte i = 0

namespace Contents

def byte (c : Contents) (i : Nat) : UInt8 := c.bytes.byte i

theorem byte_eq_zero (c : Contents) (i : Nat) (h : c.size ≤ i) : c.byte i = 0 :=
  c.zero_beyond i h

@[ext] theorem ext {c d : Contents} (hsize : c.size = d.size) (hbyte : ∀ i, c.byte i = d.byte i) :
    c = d := by
  cases c
  cases d
  simp only [mk.injEq]
  exact ⟨hsize, ByteMap.ext hbyte⟩

def empty : Contents := ⟨0, .empty, fun i _ => ByteMap.byte_empty i⟩

def ofArray (a : Array UInt8) : Contents where
  size := a.size
  bytes := ByteMap.empty.overlay 0 a
  zero_beyond i hi := by simp [ByteMap.byte_overlay, hi]

def ofBytes (bs : Bytes) : Contents := ofArray bs.toArray

/-- The bytes from `off` on, at most `len` of them, as far as the size goes. -/
def read (c : Contents) (off len : Nat) : Bytes :=
  (List.range' off (min len (c.size - off))).map c.byte

@[simp] theorem length_read (c : Contents) (off len : Nat) :
    (c.read off len).length = min len (c.size - off) := by
  simp [read]

theorem length_read_le (c : Contents) (off len : Nat) : (c.read off len).length ≤ len := by
  rw [length_read]
  exact Nat.min_le_left _ _

@[simp] theorem read_zero (c : Contents) (off : Nat) : c.read off 0 = [] := by
  simp [read]

def toBytes (c : Contents) : Bytes := c.read 0 c.size

def overlay (c : Contents) (off : Nat) (a : Array UInt8) : Contents where
  size := max c.size (off + a.size)
  bytes := c.bytes.overlay off a
  zero_beyond i hi := by
    rw [ByteMap.byte_overlay, if_neg (by omega), Array.getElem?_eq_none (by omega)]
    exact c.zero_beyond i (by omega)

/-- The contents after `bs` is written at `off`; writing nothing changes nothing. -/
def write (c : Contents) (off : Nat) (bs : Bytes) : Contents :=
  if bs.isEmpty then c else c.overlay off bs.toArray

@[simp] theorem write_nil (c : Contents) (off : Nat) : c.write off [] = c := rfl

theorem size_write {c : Contents} {off : Nat} {bs : Bytes} (h : bs ≠ []) :
    (c.write off bs).size = max c.size (off + bs.length) := by
  simp [write, h, overlay]

theorem byte_write (c : Contents) (off : Nat) (bs : Bytes) (i : Nat) :
    (c.write off bs).byte i = if i < off then c.byte i else (bs[i - off]?).getD (c.byte i) := by
  cases bs with
  | nil => simp
  | cons b bs => simp [write, overlay, byte, ByteMap.byte_overlay]

/-- The same bytes with room up to `size` at least. -/
def extend (c : Contents) (size : Nat) : Contents :=
  ⟨max c.size size, c.bytes, fun i hi => c.zero_beyond i (by omega)⟩

@[simp] theorem size_extend (c : Contents) (size : Nat) :
    (c.extend size).size = max c.size size := rfl

@[simp] theorem byte_extend (c : Contents) (size i : Nat) : (c.extend size).byte i = c.byte i :=
  rfl

theorem write_extend {c : Contents} {off : Nat} {bs : Bytes} (h : bs ≠ []) :
    (c.extend off).write off bs = c.write off bs := by
  ext i
  · rw [size_write h, size_write h, size_extend]
    omega
  · rw [byte_write, byte_write, byte_extend]

def resize (c : Contents) (size : Nat) : Contents :=
  if h : c.size ≤ size then
    ⟨size, c.bytes, fun i hi => c.zero_beyond i (by omega)⟩
  else
    ⟨size, c.bytes.truncate size, fun i hi => by rw [ByteMap.byte_truncate, if_neg (by omega)]⟩

@[simp] theorem size_resize (c : Contents) (size : Nat) : (c.resize size).size = size := by
  unfold resize
  split <;> rfl

@[simp] theorem byte_resize (c : Contents) (size i : Nat) :
    (c.resize size).byte i = if i < size then c.byte i else 0 := by
  unfold resize
  split
  · split
    · rfl
    · exact c.byte_eq_zero i (by omega)
  · exact c.bytes.byte_truncate size i

def flip (c : Contents) (off : Nat) (mask : UInt8) : Contents :=
  if off < c.size then c.write off [c.byte off ^^^ mask] else c

end Contents

end AppendStore
