import AppendStore.ByteStore.Transfer

/-!
# Plain byte stores

On a `Readable` store a full read is one operation on the contents: `readSpan`
gives what `Contents.read` gives and leaves the store as it is. On a `Plain` store
so is a full write: `writeSpan` writes all of its bytes and changes the contents as
`Contents.write` does.
-/

namespace AppendStore

namespace ByteStore

theorem plain_onDisk (bs : Bytes) : (onDisk bs).Plain := ⟨⟨rfl, rfl, rfl⟩, rfl, rfl⟩

theorem plain_ofBytes (bs : Bytes) : (ofBytes bs).Plain := ⟨⟨rfl, rfl, rfl⟩, rfl, rfl⟩

namespace Readable

variable {s : ByteStore}

theorem withContents (hs : s.Readable) (c : Contents) : (s.withContents c).Readable :=
  ⟨hs.plannedReads, hs.reportedSize, hs.trace⟩

theorem size_eq (hs : s.Readable) : s.size = s.contents.size := by
  simp [size, hs.reportedSize]

theorem record_eq (hs : s.Readable) (call : Call) : s.record call = s := by
  obtain ⟨_, _, _, _, _, _, _⟩ := s
  have := hs.trace
  simp_all [record]

theorem readAt_eq (hs : s.Readable) (len off : Nat) :
    readAt len off s = .ok (s.contents.read off len) s := by
  simp [readAt, hs.plannedReads, hs.record_eq]

theorem readSpanFrom_eq_nil (hs : s.Readable) {len off : Nat}
    (h : s.contents.read off len = []) : readSpanFrom s len off = .ok [] s := by
  unfold readSpanFrom
  split
  · rfl
  · split
    · next bs s' hread =>
      rw [hs.readAt_eq, h] at hread
      cases hread
      rfl
    · next hread =>
      rw [hs.readAt_eq] at hread
      cases hread

theorem readSpan_eq (hs : s.Readable) (len off : Nat) :
    readSpan len off s = .ok (s.contents.read off len) s := by
  unfold readSpan readSpanFrom
  split
  · next hlen => simp [hlen]
  · split
    · next bs s' hread =>
      rw [hs.readAt_eq] at hread
      cases hread
      split
      · next hbs => rw [hbs]
      · have hrest : s.contents.read (off + (s.contents.read off len).length)
            (len - (s.contents.read off len).length) = [] := by
          apply List.eq_nil_of_length_eq_zero
          simp only [Contents.length_read]
          omega
        rw [hs.readSpanFrom_eq_nil hrest]
        simp
    · next hread =>
      rw [hs.readAt_eq] at hread
      cases hread

end Readable

namespace Plain

variable {s : ByteStore}

theorem withContents (hs : s.Plain) (c : Contents) : (s.withContents c).Plain :=
  ⟨hs.toReadable.withContents c, hs.limit, hs.plannedWrites⟩

theorem writeAt_eq (hs : s.Plain) {bs : Bytes} (hbs : bs ≠ []) (off : Nat) :
    writeAt bs off s = .ok bs.length (s.withContents (s.contents.write off bs)) := by
  have hput : s.put off bs = s.withContents (s.contents.write off bs) := by
    simp [put, hs.limit, Contents.write_extend hbs, ByteStore.withContents]
  have hrecord := (hs.withContents (s.contents.write off bs)).record_eq
  simp [writeAt, hs.plannedWrites, hput, hrecord, fitting, hs.limit]

theorem writeSpan_eq (hs : s.Plain) (bs : Bytes) (off : Nat) :
    writeSpan bs off s = .ok bs.length (s.withContents (s.contents.write off bs)) := by
  unfold writeSpan writeSpanFrom
  split
  · next hbs => simp [hbs, ByteStore.withContents]
  · next hbs =>
    split
    · next n s' hwrite =>
      rw [hs.writeAt_eq hbs] at hwrite
      cases hwrite
      rw [dif_neg (by simpa using hbs)]
      simp [writeSpanFrom]
    · next hwrite =>
      rw [hs.writeAt_eq hbs] at hwrite
      cases hwrite

end Plain

end ByteStore

end AppendStore
