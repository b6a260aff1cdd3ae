import AppendStore.Proofs.ByteStore.Torn
import AppendStore.ValueFile.Basic

/-!
# Records of a value file

Writing a value claims its place first, and then writes the record as far as it gets:
`ValueFile.write_cases` says that nothing else can happen. A record that stands whole in
the store is read back as the value that it was made from (`ValueFile.read_of_shows`).
-/

namespace AppendStore

namespace ValueFile

open ByteStore

variable {f : ValueFile} {b : ByteStore} {value : Bytes}

/-- The value with its own checksum behind it. -/
def recordOf (value : Bytes) : Bytes := recordLayout value (crc32 value)

@[simp] theorem length_recordOf (value : Bytes) :
    (recordOf value).length = storedLength value :=
  length_recordLayout value _

theorem recordOf_ne_nil (value : Bytes) : recordOf value ≠ [] := by
  intro h
  have hlength := length_recordOf value
  rw [h] at hlength
  cases hlength

theorem size_write_recordOf (c : Contents) (off : Nat) (value : Bytes) :
    (c.write off (recordOf value)).size = max c.size (off + storedLength value) := by
  rw [Contents.size_write (recordOf_ne_nil value), length_recordOf]

/-- The open file after a value was given its place. -/
def claimed (f : ValueFile) (value : Bytes) : ValueFile :=
  { f with offset := f.offset + UInt64.ofNat (storedLength value) }

theorem toNat_offset_claimed (h : f.offset.toNat + storedLength value < UInt64.size) :
    (f.claimed value).offset.toNat = f.offset.toNat + storedLength value := by
  have hlength : storedLength value < UInt64.size := Nat.lt_of_le_of_lt (Nat.le_add_left _ _) h
  rw [claimed, UInt64.toNat_add, UInt64.toNat_ofNat_of_lt' hlength]
  exact Nat.mod_eq_of_lt h

theorem write_eq (f : ValueFile) (b : ByteStore) (value : Bytes) :
    write value ⟨f, b⟩ =
      (do
        let n ← Action.onBase (Action.ofIo (writeSpan (recordOf value) f.offset.toNat))
        if n = (recordOf value).length then return f.offset
        else throw (.incompleteValue (recordOf value).length n) :
        Action (Over ValueFile ByteStore) UInt64) ⟨f.claimed value, b⟩ := by
  have hclaim : claim (storedLength value) ⟨f, b⟩ = .ok f.offset ⟨f.claimed value, b⟩ := rfl
  have hchecksum : (Action.ofExcept (Checksum.of value) : Action (Over ValueFile ByteStore) UInt32)
      ⟨f.claimed value, b⟩ = .ok (crc32 value) ⟨f.claimed value, b⟩ := by
    rw [Checksum.of_eq]
    rfl
  unfold write
  rw [Action.bind_of_ok hclaim, Action.bind_of_ok hchecksum]
  rfl

/-- A value that was written has all of its record in the place that is answered. Otherwise there
is a start of the record in that place, and the place is not given back. It is never the checksum
that fails. -/
theorem write_cases (hb : b.Readable) (f : ValueFile) (value : Bytes) :
    (∃ b', write value ⟨f, b⟩ = .ok f.offset ⟨f.claimed value, b'⟩ ∧
      b.Torn f.offset.toNat (recordOf value) (storedLength value) b') ∨
    ∃ e k b', write value ⟨f, b⟩ = .error e ⟨f.claimed value, b'⟩ ∧
      b.Torn f.offset.toNat (recordOf value) k b' ∧
      ∀ expected hashed, e ≠ .checksumCreation expected hashed := by
  rw [write_eq]
  obtain ⟨k, b', htorn, hok | ⟨e, herror⟩⟩ := writeSpan_cases hb (recordOf value) f.offset.toNat
  · have hspan : Action.ofIo (writeSpan (recordOf value) f.offset.toNat) b = .ok k b' := by
      simp only [Action.ofIo, hok]
    rw [Action.bind_of_ok (Action.onBase_of_ok hspan)]
    by_cases hk : k = (recordOf value).length
    · rw [if_pos hk]
      rw [length_recordOf] at hk
      exact .inl ⟨b', rfl, hk ▸ htorn⟩
    · rw [if_neg hk]
      refine .inr ⟨_, k, b', rfl, htorn, ?_⟩
      rintro expected hashed ⟨⟩
  · have hspan : Action.ofIo (writeSpan (recordOf value) f.offset.toNat) b = .error (.io e) b' := by
      simp only [Action.ofIo, herror]
    rw [Action.bind_of_error (Action.onBase_of_error hspan)]
    refine .inr ⟨_, k, b', rfl, htorn, ?_⟩
    rintro expected hashed ⟨⟩

theorem write_of_plain (hb : b.Plain) (f : ValueFile) (value : Bytes) :
    write value ⟨f, b⟩ = .ok f.offset ⟨f.claimed value,
      b.withContents (b.contents.write f.offset.toNat (recordOf value))⟩ := by
  have hspan : Action.ofIo (writeSpan (recordOf value) f.offset.toNat) b =
      .ok (recordOf value).length
        (b.withContents (b.contents.write f.offset.toNat (recordOf value))) := by
    simp only [Action.ofIo, hb.writeSpan_eq]
  rw [write_eq, Action.bind_of_ok (Action.onBase_of_ok hspan), if_pos rfl]
  rfl

theorem readRecord_eq (size : Nat) (record : Bytes) :
    readRecord size record =
      if crc32 (record.take size) = UInt32.ofBeBytes (record.drop size) then
        .ok (record.take size)
      else
        .error (.badChecksum (UInt32.ofBeBytes (record.drop size)) (crc32 (record.take size))) := by
  simp only [readRecord, Checksum.of_eq]

theorem readRecord_recordOf (value : Bytes) :
    readRecord value.length (recordOf value) = .ok value := by
  have htake : (recordOf value).take value.length = value := List.take_left
  have hdrop : (recordOf value).drop value.length = (crc32 value).beBytes := List.drop_left
  rw [readRecord_eq, htake, hdrop, UInt32.ofBeBytes_beBytes, if_pos rfl]

/-- Where the store holds a whole record, it is this record that is judged. -/
theorem read_eq_readRecord (hb : b.Readable) {offset : UInt64} {size : Nat}
    (hsize : size + checksumSize < UInt64.size)
    (hreach : offset.toNat + (size + checksumSize) ≤ b.contents.size) (f : ValueFile) :
    read offset size ⟨f, b⟩ =
      (Action.ofExcept (readRecord size (b.contents.window offset.toNat (size + checksumSize))) :
        Action (Over ValueFile ByteStore) Bytes) ⟨f, b⟩ := by
  have hroom : ¬ (maxSize < size + checksumSize ∨
      b.size - offset.toNat < size + checksumSize) := by
    rw [hb.size_eq, maxSize]
    omega
  have hspan : Action.ofIo (readSpan (size + checksumSize) offset.toNat) b =
      .ok (b.contents.window offset.toNat (size + checksumSize)) b := by
    simp only [Action.ofIo, hb.readSpan_eq, Contents.read_eq_window hreach]
  have hlength : ¬ (b.contents.window offset.toNat (size + checksumSize)).length ≠
      size + checksumSize :=
    not_not_intro (Contents.length_window _ _ _)
  unfold read
  rw [Action.get_bind]
  simp only [if_neg hroom]
  rw [Action.bind_of_ok (Action.onBase_of_ok hspan)]
  simp only [if_neg hlength]

/-- Reading leaves everything as it is, and it does not fail for a reason of the file system. -/
theorem read_cases (hb : b.Readable) (offset : UInt64) (size : Nat) (f : ValueFile) :
    (∃ value, read offset size ⟨f, b⟩ = .ok value ⟨f, b⟩) ∨
      ∃ e, read offset size ⟨f, b⟩ = .error e ⟨f, b⟩ ∧ ∀ io, e ≠ .io io := by
  by_cases hroom : maxSize < size + checksumSize ∨ b.size - offset.toNat < size + checksumSize
  · refine .inr ⟨.incompleteValue (min (size + checksumSize) maxSize) (b.size - offset.toNat),
      ?_, ?_⟩
    · unfold read
      rw [Action.get_bind]
      simp only [if_pos hroom]
      rfl
    · rintro io ⟨⟩
  · rw [hb.size_eq, maxSize, checksumSize] at hroom
    rw [read_eq_readRecord hb (by rw [checksumSize]; omega) (by rw [checksumSize]; omega),
      readRecord_eq]
    split
    · exact .inl ⟨_, rfl⟩
    · refine .inr ⟨_, rfl, ?_⟩
      rintro io ⟨⟩

/-- A record that stands whole in the store is read, whatever the file is that reads it. -/
theorem read_of_shows (hb : b.Readable) (hsize : b.contents.size < UInt64.size) {offset : UInt64}
    (h : b.contents.Shows offset.toNat (recordOf value)) (f : ValueFile) :
    read offset value.length ⟨f, b⟩ = .ok value ⟨f, b⟩ := by
  have hreach := h.size
  have hwindow := h.window
  rw [length_recordOf, storedLength] at hreach hwindow
  rw [read_eq_readRecord hb (by omega) hreach f, hwindow, readRecord_recordOf]
  rfl

end ValueFile

end AppendStore
