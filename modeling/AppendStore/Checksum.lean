import AppendStore.StoreError

/-!
# CRC-32

The checksum kept behind every stored value: the cyclic redundancy check of
degree 32 with the reflected polynomial `0xEDB88320`, an all-ones start and a
final complement. `Crc.step` takes one byte into the register, bit by bit, and
`Crc.steps` a byte string, so appended byte strings compose
(`Crc.steps_append`).

`Checksum` is a running computation that also counts what it has been fed;
`Checksum.finish` refuses to answer for a length other than the one it counted.
-/

namespace AppendStore

namespace Crc

/-- The reflected polynomial, without its leading term. -/
def polynomial : UInt32 := 0xEDB88320

/-- One step of division: the register moves down, and the polynomial is taken off when a one
leaves it. -/
def shiftBit (register : UInt32) : UInt32 :=
  if register &&& 1 = 0 then register >>> 1 else (register >>> 1) ^^^ polynomial

def shiftByte (register : UInt32) : UInt32 :=
  shiftBit (shiftBit (shiftBit (shiftBit
    (shiftBit (shiftBit (shiftBit (shiftBit register)))))))

def step (register : UInt32) (b : UInt8) : UInt32 := shiftByte (register ^^^ b.toUInt32)

def steps (register : UInt32) (bs : Bytes) : UInt32 := bs.foldl step register

@[simp] theorem steps_nil (register : UInt32) : steps register [] = register := rfl

@[simp] theorem steps_cons (register : UInt32) (b : UInt8) (bs : Bytes) :
    steps register (b :: bs) = steps (step register b) bs := rfl

theorem steps_append (register : UInt32) (as bs : Bytes) :
    steps register (as ++ bs) = steps (steps register as) bs :=
  List.foldl_append

def start : UInt32 := 0xFFFFFFFF

end Crc

/-- The CRC-32 of a byte string. -/
def crc32 (bs : Bytes) : UInt32 := ~~~ Crc.steps Crc.start bs

structure Checksum where
  register : UInt32 := Crc.start
  hashed : Nat := 0

namespace Checksum

def empty : Checksum := {}

def feed (c : Checksum) (bs : Bytes) : Checksum :=
  ⟨Crc.steps c.register bs, c.hashed + bs.length⟩

/-- The checksum of all pieces, if they amount to `expected` bytes. -/
def finish (c : Checksum) (expected : Nat) : Except StoreError UInt32 :=
  if c.hashed = expected then .ok (~~~ c.register)
  else .error (.checksumCreation expected c.hashed)

def of (bs : Bytes) : Except StoreError UInt32 := (empty.feed bs).finish bs.length

/-- The checksum of one byte string always comes out. -/
theorem of_eq (bs : Bytes) : of bs = .ok (crc32 bs) := by
  simp [of, empty, feed, finish, crc32]

/-- The check value of the algorithm. -/
example : of (Bytes.ofText "123456789") = .ok 0xCBF43926 :=
  (of_eq _).trans (congrArg Except.ok (by decide +kernel))

end Checksum

end AppendStore
