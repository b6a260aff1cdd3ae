import AppendStore.Action
import AppendStore.ByteStore.Transfer

/-!
# Reading into a buffer

A caller that reads hands in a buffer. What comes is put into it from the front, piece by
piece, and the rest of the buffer stays as it was, also when the read fails half way.
`ByteStore.readInto` is a full read on a buffer and its store; it answers the number of
bytes that have come. `readSpan` is what it leaves in the buffer if only the bytes that have
come are looked at (`ByteStore.readSpan_eq_readInto`).
-/

namespace AppendStore

namespace ByteStore

/-- Repeated reads from `off` on into `buf`, each into what the ones before have left of it. -/
def readIntoFrom (s : ByteStore) (buf : Bytes) (off : Nat) :
    EStateM.Result IoError (Over Bytes ByteStore) Nat :=
  if buf = [] then .ok 0 ⟨[], s⟩
  else
    match _ : readAt buf.length off s with
    | .ok bs s' =>
      if _ : bs = [] then .ok 0 ⟨buf, s'⟩
      else
        match readIntoFrom s' (buf.drop bs.length) (off + bs.length) with
        | .ok more ⟨rest, s''⟩ => .ok (bs.length + more) ⟨bs ++ rest, s''⟩
        | .error e ⟨rest, s''⟩ => .error e ⟨bs ++ rest, s''⟩
    | .error e s' =>
      if e.kind = .interrupted then readIntoFrom s' buf off else .error e ⟨buf, s'⟩
  termination_by buf.length + s.plannedReads.length
  decreasing_by
    · rename_i h hbs
      have := readAt_ok h
      have := List.length_pos_iff.2 hbs
      rw [List.length_drop]
      omega
    · rename_i h _
      have := readAt_error h
      omega

/-- Reads from `off` on until the buffer is full, or no more comes; the answer is the number of
bytes that have come. -/
def readInto (off : Nat) : EStateM IoError (Over Bytes ByteStore) Nat := fun o =>
  readIntoFrom o.base o.item off

def filled : EStateM.Result IoError (Over Bytes ByteStore) Nat →
    EStateM.Result IoError ByteStore Bytes
  | .ok n o => .ok (o.item.take n) o.base
  | .error e o => .error e o.base

theorem readSpanFrom_of_ok {s s' : ByteStore} {len off : Nat} {bs : Bytes} (hlen : len ≠ 0)
    (hread : readAt len off s = .ok bs s') :
    readSpanFrom s len off =
      if bs = [] then .ok [] s'
      else match readSpanFrom s' (len - bs.length) (off + bs.length) with
        | .ok more s'' => .ok (bs ++ more) s''
        | .error e s'' => .error e s'' := by
  rw [readSpanFrom, if_neg hlen]
  split
  · next h =>
    cases hread.symm.trans h
    rfl
  · next h => cases hread.symm.trans h

theorem readSpanFrom_of_error {s s' : ByteStore} {len off : Nat} {e : IoError} (hlen : len ≠ 0)
    (hread : readAt len off s = .error e s') :
    readSpanFrom s len off =
      if e.kind = .interrupted then readSpanFrom s' len off else .error e s' := by
  rw [readSpanFrom, if_neg hlen]
  split
  · next h => cases hread.symm.trans h
  · next h =>
    cases hread.symm.trans h
    rfl

/-- A full read gives what it puts into any buffer of its length. -/
theorem readSpan_eq_readInto (buf : Bytes) (off : Nat) (s : ByteStore) :
    readSpan buf.length off s = filled (readInto off ⟨buf, s⟩) := by
  have hlen : ∀ {bs : Bytes}, bs ≠ [] → bs.length ≠ 0 := mt List.eq_nil_of_length_eq_zero
  simp only [readSpan, readInto]
  fun_induction readIntoFrom s buf off with
  | case1 s off => rw [List.length_nil, readSpanFrom, if_pos rfl, filled, List.take_zero]
  | case2 s buf off hbuf s' hread =>
    rw [readSpanFrom_of_ok (hlen hbuf) hread, if_pos rfl, filled, List.take_zero]
  | case3 s buf off hbuf bs s' hread hbs more rest s'' hrest ih =>
    rw [readSpanFrom_of_ok (hlen hbuf) hread, if_neg hbs, ← List.length_drop, ih, hrest]
    simp only [filled, List.take_length_add_append]
  | case4 s buf off hbuf bs s' hread hbs e rest s'' hrest ih =>
    rw [readSpanFrom_of_ok (hlen hbuf) hread, if_neg hbs, ← List.length_drop, ih, hrest]
    rfl
  | case5 s buf off hbuf e s' hread hkind ih =>
    rw [readSpanFrom_of_error (hlen hbuf) hread, if_pos hkind, ih]
  | case6 s buf off hbuf e s' hread hkind =>
    rw [readSpanFrom_of_error (hlen hbuf) hread, if_neg hkind]
    rfl

end ByteStore

end AppendStore
