/-!
# Byte strings

`Bytes` is a finite list of bytes. `Bytes.splitExact? n bs` takes `n` bytes off
the front, or nothing if `bs` is shorter; it looks at no more than `n` bytes, so
a reader that splits its input piece by piece stays linear.
-/

namespace AppendStore

abbrev Bytes := List UInt8

namespace Bytes

def ofText (s : String) : Bytes := s.toUTF8.toList

def splitExact? (n : Nat) (bs : Bytes) : Option (Bytes × Bytes) :=
  if (bs.take n).length = n then some (bs.take n, bs.drop n) else none

theorem splitExact?_eq_some_iff {n : Nat} {bs first rest : Bytes} :
    splitExact? n bs = some (first, rest) ↔ bs = first ++ rest ∧ first.length = n := by
  unfold splitExact?
  constructor
  · intro h
    split at h
    · next hn =>
      simp only [Option.some.injEq, Prod.mk.injEq] at h
      obtain ⟨rfl, rfl⟩ := h
      exact ⟨(List.take_append_drop n bs).symm, hn⟩
    · simp at h
  · rintro ⟨rfl, rfl⟩
    simp

theorem splitExact?_append (first rest : Bytes) :
    splitExact? first.length (first ++ rest) = some (first, rest) :=
  splitExact?_eq_some_iff.2 ⟨rfl, rfl⟩

/-- The byte string as a buffer of `len` bytes, zero where it holds nothing. -/
def padTo (len : Nat) (bs : Bytes) : Bytes := bs ++ List.replicate (len - bs.length) 0

end Bytes

end AppendStore
