import AppendStore.ByteStore.Basic

/-!
# Full transfers

`readSpan` and `writeSpan` repeat single calls until everything is transferred.
They go on after an interruption, stop at a call that moves nothing, and give up
on any other error; what was transferred before stays. An interruption uses up a
planned outcome and every other round moves a byte, so the bytes left and the
plan together bound the rounds.
-/

namespace AppendStore

namespace ByteStore

def readSpanFrom (s : ByteStore) (len off : Nat) : EStateM.Result IoError ByteStore Bytes :=
  if len = 0 then .ok [] s
  else
    match _ : readAt len off s with
    | .ok bs s' =>
      if _ : bs = [] then .ok [] s'
      else
        match readSpanFrom s' (len - bs.length) (off + bs.length) with
        | .ok more s'' => .ok (bs ++ more) s''
        | .error e s'' => .error e s''
    | .error e s' =>
      if e.kind = .interrupted then readSpanFrom s' len off else .error e s'
  termination_by len + s.plannedReads.length
  decreasing_by
    · rename_i h hbs
      have := readAt_ok h
      have := List.length_pos_iff.2 hbs
      omega
    · rename_i h _
      have := readAt_error h
      omega

/-- Reads until `len` bytes from `off` on have come, or no more come. -/
def readSpan (len off : Nat) : EStateM IoError ByteStore Bytes := fun s =>
  s.readSpanFrom len off

def writeSpanFrom (s : ByteStore) (bs : Bytes) (off : Nat) : EStateM.Result IoError ByteStore Nat :=
  if bs = [] then .ok 0 s
  else
    match _ : writeAt bs off s with
    | .ok n s' =>
      if _ : n = 0 then .ok 0 s'
      else
        match writeSpanFrom s' (bs.drop n) (off + n) with
        | .ok more s'' => .ok (n + more) s''
        | .error e s'' => .error e s''
    | .error e s' =>
      if e.kind = .interrupted then writeSpanFrom s' bs off else .error e s'
  termination_by bs.length + s.plannedWrites.length
  decreasing_by
    · rename_i h _
      have := writeAt_ok h
      simp only [List.length_drop]
      omega
    · rename_i h _
      have := writeAt_error h
      omega

/-- Writes until all of `bs` is written at `off`, or nothing more can be; the answer is the number
of bytes written. -/
def writeSpan (bs : Bytes) (off : Nat) : EStateM IoError ByteStore Nat := fun s =>
  s.writeSpanFrom bs off

@[simp] theorem readSpan_zero (off : Nat) (s : ByteStore) : readSpan 0 off s = .ok [] s := by
  simp [readSpan, readSpanFrom]

end ByteStore

end AppendStore
