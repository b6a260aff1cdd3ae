import AppendStore.Proofs.Segment.Append

/-!
# What stands in a store after an append

Wherever the three writes of an append are torn, they stay on the word, on the next
free slot and on the free bytes in front of the back cursor: every window beside
these shows what it showed before (`Segment.Landed.window_of_disjoint`), so that
every record that is there is still there (`Segment.Recorded.landed`). On its own
places an append shows as far as it has got (`Segment.Landed.word_eq`,
`Segment.Landed.slot_eq`, `Segment.Landed.shows_body`), and one that has got to the
end of its header has left a record (`Segment.Landed.recorded`).
-/

namespace AppendStore

namespace Segment

namespace Landed

variable {s : Segment} {t : Transaction} {b b' : ByteStore} {i j k : Nat}

theorem of_plain (hb : b.Plain) :
    Landed s t b t.layout.length recordHeaderSize wordSize
      (b.withContents (recordedContents s t b.contents)) where
  header_after := fun _ => rfl
  word_after := fun _ => rfl
  contents := by
    have hheader := RecordHeader.length_layout (s.nextHeader t)
    have hword := Cursors.length_bytes (s.claimed t.layout.length).cursors
    rw [List.take_length, ← hheader, List.take_length, ← hword, List.take_length]
    rfl
  limit := rfl
  readable := hb.toReadable.withContents _

theorem lengths_le (s : Segment) (t : Transaction) (i j k : Nat) :
    (t.layout.take i).length ≤ t.layout.length ∧
      ((s.nextHeader t).layout.take j).length ≤ recordHeaderSize ∧
      ((s.claimed t.layout.length).cursors.bytes.take k).length ≤ wordSize := by
  have hheader := RecordHeader.length_layout (s.nextHeader t)
  have hword := Cursors.length_bytes (s.claimed t.layout.length).cursors
  exact ⟨List.length_take_le' _ _, hheader ▸ List.length_take_le' _ _,
    hword ▸ List.length_take_le' _ _⟩

/-- The three places that an append writes on lie apart. -/
theorem places (hs : s.Sound) (hfits : s.Fits t.layout.length) :
    wordSize ≤ s.cursors.front.toNat ∧
      s.cursors.front.toNat + recordHeaderSize ≤ (s.nextHeader t).start.toNat ∧
      (s.nextHeader t).start.toNat + t.layout.length = s.cursors.back.toNat := by
  have hword := hs.word
  rw [start_nextHeader]
  simp only [Fits] at hfits
  omega

/-- A window beside the word, the slot and the body shows what it showed before. -/
theorem window_of_disjoint (hl : Landed s t b i j k b') (hs : s.Sound)
    (hfits : s.Fits t.layout.length) {off len : Nat} (hword : wordSize ≤ off)
    (hbeside : off + len ≤ s.cursors.front.toNat ∨
      s.cursors.front.toNat + recordHeaderSize ≤ off ∧
        off + len ≤ (s.nextHeader t).start.toNat ∨
      s.cursors.back.toNat ≤ off) :
    b'.contents.window off len = b.contents.window off len := by
  obtain ⟨hbody, hheader, hcursors⟩ := lengths_le s t i j k
  obtain ⟨hfront, hgap, hback⟩ := places hs hfits
  rw [hl.contents, Contents.window_write_of_disjoint _ (by omega),
    Contents.window_write_of_disjoint _ (by omega), Contents.window_write_of_disjoint _ (by omega)]

theorem size_le (hl : Landed s t b i j k b') : b.contents.size ≤ b'.contents.size := by
  rw [hl.contents]
  exact Nat.le_trans (Contents.size_le_size_write _ _ _)
    (Nat.le_trans (Contents.size_le_size_write _ _ _) (Contents.size_le_size_write _ _ _))

theorem size_le_capacity (hl : Landed s t b i j k b') (hs : s.Sound)
    (hfits : s.Fits t.layout.length) (hsize : b.contents.size ≤ s.capacity.toNat) :
    b'.contents.size ≤ s.capacity.toNat := by
  obtain ⟨hbody, hheader, hcursors⟩ := lengths_le s t i j k
  have hwithin := hs.within
  obtain ⟨hfront, hgap, hback⟩ := places hs hfits
  rw [hl.contents]
  exact Contents.size_write_le (Contents.size_write_le (Contents.size_write_le hsize (by omega))
    (by omega)) (by omega)

theorem shows_of_disjoint (hl : Landed s t b i j k b') (hs : s.Sound)
    (hfits : s.Fits t.layout.length) {off : Nat} {bs : Bytes} (hshows : b.contents.Shows off bs)
    (hword : wordSize ≤ off)
    (hbeside : off + bs.length ≤ s.cursors.front.toNat ∨ s.cursors.back.toNat ≤ off) :
    b'.contents.Shows off bs := by
  refine ⟨Nat.le_trans hshows.size hl.size_le, ?_⟩
  rw [hl.window_of_disjoint hs hfits hword (hbeside.imp_right .inr), hshows.window]

theorem word_eq (hl : Landed s t b i j k b') (hs : s.Sound) (hfits : s.Fits t.layout.length) :
    b'.contents.window 0 wordSize =
      (s.claimed t.layout.length).cursors.bytes.take k ++ (b.contents.window 0 wordSize).drop k := by
  obtain ⟨hfront, hgap, -⟩ := places hs hfits
  have hcut := fun c : Contents =>
    Contents.window_write_take c 0 (s.claimed t.layout.length).cursors.bytes k
  simp only [Cursors.length_bytes] at hcut
  rw [hl.contents, hcut, Contents.window_write_of_disjoint _ (by omega),
    Contents.window_write_of_disjoint _ (by omega)]

theorem word_full (hl : Landed s t b i j wordSize b') (hs : s.Sound)
    (hfits : s.Fits t.layout.length) :
    b'.contents.window 0 wordSize = (s.claimed t.layout.length).cursors.bytes := by
  have hnew := Cursors.length_bytes (s.claimed t.layout.length).cursors
  have hold := Contents.length_window b.contents 0 wordSize
  rw [hl.word_eq hs hfits, List.take_of_length_le (Nat.le_of_eq hnew),
    List.drop_eq_nil_of_le (Nat.le_of_eq hold), List.append_nil]

theorem slot_eq (hl : Landed s t b i j k b') (hs : s.Sound) (hfits : s.Fits t.layout.length) :
    b'.contents.window s.cursors.front.toNat recordHeaderSize =
      (s.nextHeader t).layout.take j ++
        (b.contents.window s.cursors.front.toNat recordHeaderSize).drop j := by
  obtain ⟨-, -, hcursors⟩ := lengths_le s t i j k
  obtain ⟨hfront, hgap, -⟩ := places hs hfits
  have hcut := fun c : Contents =>
    Contents.window_write_take c s.cursors.front.toNat (s.nextHeader t).layout j
  simp only [RecordHeader.length_layout] at hcut
  rw [hl.contents, Contents.window_write_of_disjoint _ (by omega), hcut,
    Contents.window_write_of_disjoint _ (by omega)]

/-- The whole body stands in the store as soon as a byte of the header does. -/
theorem shows_body (hl : Landed s t b i j k b') (hs : s.Sound) (hfits : s.Fits t.layout.length)
    (hw : t.Writable) (hj : 0 < j) : b'.contents.Shows (s.nextHeader t).start.toNat t.layout := by
  obtain ⟨-, hheader, hcursors⟩ := lengths_le s t i j k
  have hpos := Transaction.prefixSize_lt_length_layout hw
  have hne : t.layout ≠ [] := fun h => by rw [h] at hpos; exact absurd hpos (Nat.not_lt_zero _)
  obtain ⟨hfront, hgap, -⟩ := places hs hfits
  rw [hl.contents, hl.header_after hj, List.take_length]
  exact ((Contents.shows_write _ hne).write_of_disjoint (by omega)).write_of_disjoint (by omega)

/-- An append that has got to the end of its header has left a record. -/
theorem recorded (hl : Landed s t b i recordHeaderSize k b') (hs : s.Sound)
    (hfits : s.Fits t.layout.length) (hw : t.Writable) {n : Nat}
    (hslot : s.cursors.front.toNat = slotOffset n) :
    Recorded b'.contents n (s.nextHeader t) t := by
  obtain ⟨-, -, hcursors⟩ := lengths_le s t i recordHeaderSize k
  obtain ⟨hfront, hgap, -⟩ := places hs hfits
  have hbehind : slotOffset (n + 1) ≤ (s.nextHeader t).start.toNat := by
    rw [slotOffset_succ, ← hslot]
    exact hgap
  have hlen := RecordHeader.length_layout (s.nextHeader t)
  have hne : (s.nextHeader t).layout ≠ [] := fun h => by
    rw [h] at hlen
    exact absurd hlen (by decide)
  refine ⟨hw, rfl, stop_nextHeader hfits, hbehind, ?_, hl.shows_body hs hfits hw (by decide)⟩
  have hfull : (s.nextHeader t).layout.take recordHeaderSize = (s.nextHeader t).layout := by
    rw [← hlen, List.take_length]
  rw [hl.contents, ← hslot, hfull]
  exact (Contents.shows_write _ hne).write_of_disjoint (by omega)

end Landed

variable {s : Segment} {t u : Transaction} {b b' : ByteStore} {h : RecordHeader} {i j k n : Nat}

/-- Every record between the cursors and the ends of the segment outlives an append, torn or not. -/
theorem Recorded.landed (hrec : Recorded b.contents n h u) (hl : Landed s t b i j k b')
    (hs : s.Sound) (hfits : s.Fits t.layout.length)
    (hfront : slotOffset (n + 1) ≤ s.cursors.front.toNat)
    (hback : s.cursors.back.toNat ≤ h.start.toNat) : Recorded b'.contents n h u := by
  have hslot := wordSize_le_slotOffset n
  have hstart := hrec.behind
  have hsucc := slotOffset_succ n
  refine { hrec with
    header := hl.shows_of_disjoint hs hfits hrec.header hslot (.inl ?_)
    body := hl.shows_of_disjoint hs hfits hrec.body (by omega) (.inr hback) }
  rw [RecordHeader.length_layout, ← hsucc]
  exact hfront

theorem Recorded.torn_word (hrec : Recorded b.contents n h u) {word : Bytes}
    (hword : word.length = wordSize) (htorn : b.Torn 0 word k b') :
    Recorded b'.contents n h u := by
  have hslot := wordSize_le_slotOffset n
  have hstart := hrec.behind
  have hsucc := slotOffset_succ n
  have hlen : (word.take k).length ≤ wordSize := hword ▸ List.length_take_le' _ _
  rw [htorn.contents_eq]
  exact hrec.write_of_disjoint (.inl (by omega)) (.inl (by omega))

end Segment

end AppendStore
