/-!
# Layout of a log segment

A segment starts with the eight bytes of its cursor word. Record headers of
sixteen bytes follow and grow upward; record bodies grow downward from the end.
A segment must hold more than the word and one header, and it stays below a
quarter of the word's range, so that its cursors are never read as negative.
-/

namespace AppendStore

namespace Segment

def wordSize : Nat := 8

def recordHeaderSize : Nat := 16

/-- A segment's capacity is above this bound: the word and one record header. -/
def minCapacity : Nat := wordSize + recordHeaderSize

def maxCapacity : Nat := 1073741823

def CapacityOk (capacity : UInt32) : Prop :=
  minCapacity < capacity.toNat ∧ capacity.toNat ≤ maxCapacity

instance (capacity : UInt32) : Decidable (CapacityOk capacity) :=
  inferInstanceAs (Decidable (_ ∧ _))

theorem CapacityOk.wordSize_lt {capacity : UInt32} (h : CapacityOk capacity) :
    wordSize < capacity.toNat :=
  Nat.lt_of_le_of_lt (Nat.le_add_right _ _) h.1

end Segment

end AppendStore
