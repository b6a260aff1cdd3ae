import AppendStore.Proofs.ByteStore.Torn
import AppendStore.Proofs.Transaction.Codec

/-!
# Records of a segment

The headers of a segment are its slots, sixteen bytes each from the end of the word
on, whatever stands in them (`Segment.headers_of_readable`). `Segment.Recorded` says
that a record stands in the contents, with its header in a slot and its body where
the header points. Such a record is listed at its slot and its transaction is read
back (`Segment.Recorded.slotHeader_eq`, `Segment.Recorded.transactionOf_eq`), and it
outlives every write beside it (`Segment.Recorded.write_of_disjoint`).
-/

namespace AppendStore

namespace RecordHeader

theorem ofBytes_take (bs : Bytes) : ofBytes (bs.take Segment.recordHeaderSize) = ofBytes bs := by
  simp only [ofBytes, Segment.recordHeaderSize, List.take_take, List.drop_take]
  rfl

theorem ofBytes_layout (h : RecordHeader) : ofBytes h.layout = h := by
  have happend := ofBytes_layout_append h []
  rwa [List.append_nil] at happend

theorem decodeOnto_eq (before : List RecordHeader) (n : Nat) (bs : Bytes) :
    decodeOnto before n bs = before.reverse ++
      (List.range n).map fun k => ofBytes (bs.drop (Segment.recordHeaderSize * k)) := by
  induction n generalizing before bs with
  | zero => simp [decodeOnto]
  | succ n ih =>
    rw [decodeOnto, ih, List.range_succ_eq_map, List.map_cons, List.map_map, List.reverse_cons,
      List.append_assoc, List.singleton_append, Nat.mul_zero, List.drop_zero]
    congr 3
    funext k
    simp only [Function.comp_apply, List.drop_drop, Nat.mul_succ, Nat.add_comm]

end RecordHeader

namespace Segment

/-- Where the header with the number `k` stands. -/
def slotOffset (k : Nat) : Nat := wordSize + recordHeaderSize * k

theorem slotOffset_succ (k : Nat) : slotOffset (k + 1) = slotOffset k + recordHeaderSize := by
  simp only [slotOffset, Nat.mul_succ, Nat.add_assoc]

theorem slotOffset_mono {j k : Nat} (h : j ≤ k) : slotOffset j ≤ slotOffset k :=
  Nat.add_le_add_left (Nat.mul_le_mul_left _ h) _

theorem wordSize_le_slotOffset (k : Nat) : wordSize ≤ slotOffset k := Nat.le_add_right _ _

def slotHeader (c : Contents) (k : Nat) : RecordHeader :=
  .ofBytes (c.window (slotOffset k) recordHeaderSize)

def slots (s : Segment) : Nat := (s.cursors.front.toNat - wordSize) / recordHeaderSize

theorem decodeAll_window (c : Contents) (len : Nat) :
    RecordHeader.decodeAll (c.window wordSize len) =
      (List.range (len / recordHeaderSize)).map (slotHeader c) := by
  rw [RecordHeader.decodeAll, RecordHeader.decodeOnto_eq, Contents.length_window, List.reverse_nil,
    List.nil_append]
  apply List.map_congr_left
  intro k hk
  have hlt : k < len / recordHeaderSize := List.mem_range.1 hk
  simp only [recordHeaderSize] at hlt
  have hslot : recordHeaderSize * k + recordHeaderSize ≤ len := by
    simp only [recordHeaderSize]
    omega
  rw [← RecordHeader.ofBytes_take, Contents.drop_window c (by omega),
    Contents.take_window c (by omega)]
  rfl

theorem readWhole_eq_ok {s t : ByteStore} (hs : s.Readable) {len off : Nat} {bs : Bytes}
    (h : readWhole len off s = .ok bs t) : bs = s.contents.window off len ∧ t = s := by
  by_cases hroom : off + len ≤ s.contents.size
  · rw [readWhole_of_readable hs hroom] at h
    cases h
    exact ⟨rfl, rfl⟩
  · rcases Nat.eq_zero_or_pos len with rfl | hlen
    · have hspan : Action.ofIo (ByteStore.readSpan 0 off) s = .ok [] s := by
        simp only [Action.ofIo, ByteStore.readSpan_zero]
      unfold readWhole at h
      rw [Action.bind_of_ok hspan] at h
      cases h
      exact ⟨rfl, rfl⟩
    · rw [readWhole_of_short hs hlen (Nat.lt_of_not_le hroom)] at h
      cases h

variable {o : Over Segment ByteStore} {h : RecordHeader} {t : Transaction} {k : Nat}

/-- The headers are the slots in front of the front cursor, if the store reaches that far. -/
theorem headers_of_readable (hs : o.base.Readable) (hword : wordSize ≤ o.item.cursors.front.toNat)
    (hsize : o.item.cursors.front.toNat ≤ o.base.contents.size) :
    headers o = .ok ((List.range o.item.slots).map (slotHeader o.base.contents)) o := by
  have hread : Action.onBase (readWhole (o.item.cursors.front.toNat - wordSize) wordSize) o =
      .ok (o.base.contents.window wordSize (o.item.cursors.front.toNat - wordSize)) o :=
    Action.onBase_of_ok (readWhole_of_readable hs (by omega))
  unfold headers
  rw [Action.item_bind, Action.bind_of_ok hread, decodeAll_window]
  rfl

theorem headers_eq_ok (hs : o.base.Readable) {found : List RecordHeader}
    {o' : Over Segment ByteStore} (hread : headers o = .ok found o') :
    found = (List.range o.item.slots).map (slotHeader o.base.contents) ∧ o' = o := by
  unfold headers at hread
  rw [Action.item_bind] at hread
  obtain ⟨region, o'', hregion, hdecode⟩ := Action.bind_eq_ok hread
  obtain ⟨t, hwhole, rfl⟩ := Action.onBase_eq_ok hregion
  obtain ⟨rfl, rfl⟩ := readWhole_eq_ok hs hwhole
  cases hdecode
  exact ⟨decodeAll_window _ _, rfl⟩

theorem transactionOf_of_shows (hs : o.base.Readable) (hholds : o.item.Holds h) {body : Bytes}
    (hbody : o.base.contents.Shows h.start.toNat body)
    (hstop : h.stop.toNat = h.start.toNat + body.length) :
    transactionOf h o = Action.ofExcept (readBody h body) o := by
  have hlen : h.bodyLength = body.length := by
    rw [RecordHeader.bodyLength, hstop, Nat.add_sub_cancel_left]
  have hread : Action.onBase (readWhole h.bodyLength h.start.toNat) o = .ok body o := by
    apply Action.onBase_of_ok
    rw [hlen, readWhole_of_readable hs hbody.size, hbody.window]
  unfold transactionOf
  rw [Action.item_bind, if_pos hholds, Action.bind_of_ok hread]

theorem transactionOf_of_outside (houtside : ¬ o.item.Holds h) :
    transactionOf h o = .error (.decode (.bodyOutside h.transactionId h.start h.stop)) o := by
  unfold transactionOf
  rw [Action.item_bind, if_neg houtside]
  rfl

theorem readBody_layout (hw : t.Writable) (hid : h.transactionId = t.id) :
    readBody h t.layout = .ok t := by
  rw [readBody, Transaction.decode_layout hw]
  exact if_pos hid.symm

/-- No proper start of a written transaction is the body of a record. -/
theorem readBody_take (hw : t.Writable) {n : Nat} (hn : n < t.layout.length) :
    ∃ e, readBody h (t.layout.take n) = .error e := by
  rw [readBody]
  cases hread : Transaction.decode (t.layout.take n) with
  | ok u => exact absurd hread (Transaction.decode_take_ne_ok hw hn)
  | error e => exact ⟨e, rfl⟩

/-- The record of `t` stands in the contents: its header `h` in slot `k`, and behind all slots up
to that one the body that the header points at. -/
structure Recorded (c : Contents) (k : Nat) (h : RecordHeader) (t : Transaction) : Prop where
  writable : t.Writable
  transactionId : h.transactionId = t.id
  stop : h.stop.toNat = h.start.toNat + t.layout.length
  behind : slotOffset (k + 1) ≤ h.start.toNat
  header : c.Shows (slotOffset k) h.layout
  body : c.Shows h.start.toNat t.layout

namespace Recorded

variable {c : Contents}

theorem slotHeader_eq (hrec : Recorded c k h t) : slotHeader c k = h := by
  have hwindow := hrec.header.window
  rw [RecordHeader.length_layout] at hwindow
  rw [slotHeader, hwindow, RecordHeader.ofBytes_layout]

theorem start_lt_stop (hrec : Recorded c k h t) : h.start.toNat < h.stop.toNat := by
  have hpos := Transaction.prefixSize_lt_length_layout hrec.writable
  have hstop := hrec.stop
  omega

theorem stop_le_size (hrec : Recorded c k h t) : h.stop.toNat ≤ c.size := by
  rw [hrec.stop]
  exact hrec.body.size

theorem transactionOf_eq (hrec : Recorded o.base.contents k h t) (hs : o.base.Readable)
    (hback : o.item.cursors.back.toNat ≤ h.start.toNat)
    (hcapacity : h.stop.toNat ≤ o.item.capacity.toNat) : transactionOf h o = .ok t o := by
  have hholds : o.item.Holds h := ⟨hback, hcapacity, hrec.start_lt_stop⟩
  rw [transactionOf_of_shows hs hholds hrec.body hrec.stop,
    readBody_layout hrec.writable hrec.transactionId]
  rfl

/-- A write on neither the header nor the body of a record leaves the record alone. -/
theorem write_of_disjoint (hrec : Recorded c k h t) {off : Nat} {bs : Bytes}
    (hheader : off + bs.length ≤ slotOffset k ∨ slotOffset (k + 1) ≤ off)
    (hbody : off + bs.length ≤ h.start.toNat ∨ h.stop.toNat ≤ off) :
    Recorded (c.write off bs) k h t := by
  have hstop := hrec.stop
  refine { hrec with
    header := hrec.header.write_of_disjoint ?_
    body := hrec.body.write_of_disjoint ?_ }
  · rw [RecordHeader.length_layout, ← slotOffset_succ]
    exact hheader.symm
  · rw [← hstop]
    exact hbody.symm

end Recorded

theorem recordsOf_eq {ps : List (RecordHeader × Transaction)}
    (hread : ∀ p ∈ ps, transactionOf p.1 o = .ok p.2 o) :
    recordsOf (ps.map (·.1)) o = .ok (ps.map fun p => (p.1, .ok p.2)) o := by
  induction ps with
  | nil => rfl
  | cons p ps ih =>
    have hfirst := hread p List.mem_cons_self
    have hrest := ih fun q hq => hread q (List.mem_cons_of_mem p hq)
    rw [List.map_cons, recordsOf, Action.bind_of_ok (Action.attempt_of_ok hfirst),
      Action.bind_of_ok hrest]
    rfl

end Segment

end AppendStore
