import AppendStore.Proofs.Segment.Cursors
import AppendStore.Proofs.Segment.Record

/-!
# What the operations of a segment do

On a segment in order (`Segment.Sound`) an append is refused and changes nothing, or
it claims the space of the record and writes body, header and word one after the
other. Each write may be torn, and a later one is only begun when the earlier ones
are complete: `Segment.Landed` says how far the three have got, and
`Segment.append_cases` that there is no other outcome. A sync writes the word alone
(`Segment.sync_cases`). On a plain store an append that has its space succeeds
(`Segment.append_of_plain`). The word that is written is one that is in order, so nothing
is waited for (`Segment.Sound.saveCursors_eq_awaited`).
-/

namespace AppendStore

namespace Segment

/-- The cursors of the segment lie in order within its capacity. -/
structure Sound (s : Segment) : Prop where
  word : wordSize ≤ s.cursors.front.toNat
  order : s.cursors.front.toNat ≤ s.cursors.back.toNat
  within : s.cursors.back.toNat ≤ s.capacity.toNat
  capacity : s.capacity.toNat ≤ maxCapacity
  saved : s.savedFront.toNat ≤ s.cursors.front.toNat

def Fits (s : Segment) (bodyLength : Nat) : Prop :=
  s.cursors.front.toNat + recordHeaderSize + bodyLength ≤ s.cursors.back.toNat

instance (s : Segment) (bodyLength : Nat) : Decidable (s.Fits bodyLength) :=
  inferInstanceAs (Decidable (_ ≤ _))

def claimed (s : Segment) (bodyLength : Nat) : Segment :=
  { s with
    cursors := .pack (s.cursors.front + UInt32.ofNat recordHeaderSize)
      (s.cursors.back - UInt32.ofNat bodyLength) }

def nextHeader (s : Segment) (t : Transaction) : RecordHeader where
  transactionId := t.id
  start := UInt32.ofNat (s.cursors.back.toNat - t.layout.length)
  stop := s.cursors.back

variable {s : Segment} {t : Transaction} {n : Nat}

theorem Sound.back_le (hs : s.Sound) : s.cursors.back.toNat ≤ maxCapacity :=
  Nat.le_trans hs.within hs.capacity

theorem Sound.bodyLength_lt (hs : s.Sound) (hfits : s.Fits n) : n < UInt32.size := by
  have hback := hs.back_le
  simp only [Fits, maxCapacity, UInt32.size] at hfits hback ⊢
  omega

theorem Sound.front_claimed (hs : s.Sound) (hfits : s.Fits n) :
    (s.claimed n).cursors.front.toNat = s.cursors.front.toNat + recordHeaderSize := by
  have hback := hs.back_le
  rw [claimed, Cursors.front_pack, UInt32.toNat_add]
  simp only [Fits, maxCapacity, recordHeaderSize] at hfits hback ⊢
  apply Nat.mod_eq_of_lt
  change s.cursors.front.toNat + 16 < UInt32.size
  simp only [UInt32.size]
  omega

theorem Sound.back_claimed (hs : s.Sound) (hfits : s.Fits n) :
    (s.claimed n).cursors.back.toNat = s.cursors.back.toNat - n := by
  have hlen : (UInt32.ofNat n).toNat = n := UInt32.toNat_ofNat_of_lt' (hs.bodyLength_lt hfits)
  have hle : UInt32.ofNat n ≤ s.cursors.back := by
    rw [UInt32.le_iff_toNat_le, hlen]
    exact Nat.le_trans (Nat.le_add_left n _) hfits
  rw [claimed, Cursors.back_pack, UInt32.toNat_sub_of_le _ _ hle, hlen]

theorem Sound.claimed (hs : s.Sound) (hfits : s.Fits n) : (s.claimed n).Sound := by
  have hfront := hs.front_claimed hfits
  have hback := hs.back_claimed hfits
  have hword := hs.word
  have hwithin := hs.within
  have hsaved := hs.saved
  simp only [Fits] at hfits
  refine ⟨by omega, by omega, ?_, hs.capacity, ?_⟩
  · exact Nat.le_trans (Nat.le_of_eq hback) (Nat.le_trans (Nat.sub_le _ _) hwithin)
  · exact Nat.le_trans hsaved (by omega)

theorem start_nextHeader (s : Segment) (t : Transaction) :
    (s.nextHeader t).start.toNat = s.cursors.back.toNat - t.layout.length :=
  UInt32.toNat_ofNat_of_lt' (Nat.lt_of_le_of_lt (Nat.sub_le _ _) s.cursors.back.toNat_lt)

theorem stop_nextHeader (hfits : s.Fits t.layout.length) :
    (s.nextHeader t).stop.toNat = (s.nextHeader t).start.toNat + t.layout.length := by
  have hle : t.layout.length ≤ s.cursors.back.toNat := Nat.le_trans (Nat.le_add_left _ _) hfits
  rw [start_nextHeader, Nat.sub_add_cancel hle]
  rfl

theorem Sound.savedFront (hs : s.Sound) {front : UInt32}
    (hfront : front.toNat ≤ s.cursors.front.toNat) : Sound { s with savedFront := front } :=
  ⟨hs.word, hs.order, hs.within, hs.capacity, hfront⟩

theorem size_le_of_torn_word {c : Cursors} {b b' : ByteStore} {k bound : Nat}
    (htorn : b.Torn 0 c.bytes k b') (hsize : b.contents.size ≤ bound) (hword : wordSize ≤ bound) :
    b'.contents.size ≤ bound := by
  have hcut : (c.bytes.take k).length ≤ wordSize := c.length_bytes ▸ List.length_take_le' _ _
  rw [htorn.contents_eq]
  exact Contents.size_write_le hsize (by rw [Nat.zero_add]; exact Nat.le_trans hcut hword)

section Claims

variable {o : Over Segment ByteStore}

theorem claim_of_fits (hs : o.item.Sound) (hfits : o.item.Fits n) :
    claim n o = .ok ⟨o.item.cursors.front.toNat, o.item.cursors.back.toNat - n⟩
      ⟨o.item.claimed n, o.base⟩ := by
  have hlt := hs.bodyLength_lt hfits
  have hlen : (UInt32.ofNat n).toNat = n := UInt32.toNat_ofNat_of_lt' hlt
  have hheader : (UInt32.ofNat recordHeaderSize).toNat = recordHeaderSize := rfl
  have hclaim := Cursors.claim_of_fits (c := o.item.cursors)
    (h := UInt32.ofNat recordHeaderSize) (d := UInt32.ofNat n) hs.back_le
    (by rw [hlen, hheader]; exact hfits)
  rw [hlen] at hclaim
  unfold claim
  rw [Action.item_bind, if_pos hlt, hclaim]
  rfl

theorem claim_of_full (hs : o.item.Sound) (hfull : ¬ o.item.Fits n) :
    claim n o = .error (.insufficientSpace (recordHeaderSize + n) o.item.space) o := by
  unfold claim
  rw [Action.item_bind]
  by_cases hlt : n < UInt32.size
  · have hlen : (UInt32.ofNat n).toNat = n := UInt32.toNat_ofNat_of_lt' hlt
    have hheader : (UInt32.ofNat recordHeaderSize).toNat = recordHeaderSize := rfl
    have hclaim := Cursors.claim_of_full (c := o.item.cursors)
      (h := UInt32.ofNat recordHeaderSize) (d := UInt32.ofNat n) hs.back_le
      (by rw [hlen, hheader]; exact Nat.lt_of_not_le hfull)
    rw [if_pos hlt, hclaim]
    rfl
  · rw [if_neg hlt]
    rfl

theorem append_of_invalid {e : StoreError} (h : t.encode = .error e) :
    append t o = .error e o := by
  have hbody : (Action.ofExcept t.encode : Action (Over Segment ByteStore) Bytes) o =
      .error e o := by
    simp only [Action.ofExcept, h]
  unfold append
  rw [Action.bind_of_error hbody]

theorem append_of_full (hs : o.item.Sound) (hw : t.Writable)
    (hfull : ¬ o.item.Fits t.layout.length) :
    append t o =
      .error (.insufficientSpace (recordHeaderSize + t.layout.length) o.item.space) o := by
  have hencode := Transaction.encode_eq_ok_iff.2 ⟨hw, rfl⟩
  have hbody : (Action.ofExcept t.encode : Action (Over Segment ByteStore) Bytes) o =
      .ok t.layout o := by
    simp only [Action.ofExcept, hencode]
  unfold append
  rw [Action.bind_of_ok hbody, Action.bind_of_error (claim_of_full hs hfull)]

/-- The writes of an append, once space is claimed. -/
def writeRecord (h : RecordHeader) (body : Bytes) (slot : Nat) :
    Action (Over Segment ByteStore) RecordHeader := do
  Action.onBase (writeWhole body h.start.toNat)
  Action.onBase (writeWhole h.layout slot)
  saveMovedCursors
  return h

theorem append_of_fits (hs : o.item.Sound) (hw : t.Writable) (hfits : o.item.Fits t.layout.length) :
    append t o = writeRecord (o.item.nextHeader t) t.layout o.item.cursors.front.toNat
      ⟨o.item.claimed t.layout.length, o.base⟩ := by
  have hencode := Transaction.encode_eq_ok_iff.2 ⟨hw, rfl⟩
  have hbody : (Action.ofExcept t.encode : Action (Over Segment ByteStore) Bytes) o =
      .ok t.layout o := by
    simp only [Action.ofExcept, hencode]
  have hle : t.layout.length ≤ o.item.cursors.back.toNat := Nat.le_trans (Nat.le_add_left _ _) hfits
  have hstop : UInt32.ofNat (o.item.cursors.back.toNat - t.layout.length + t.layout.length) =
      o.item.cursors.back := by
    rw [Nat.sub_add_cancel hle, UInt32.ofNat_toNat]
  unfold append writeRecord
  rw [Action.bind_of_ok hbody, Action.bind_of_ok (claim_of_fits hs hfits), start_nextHeader]
  simp only [hstop]
  rfl

def saved (s : Segment) : Segment := { s with savedFront := s.cursors.front }

/-- What is saved is what waiting for the word gives, whatever values it takes on later. -/
theorem Sound.saveCursors_eq_awaited (hs : s.Sound) (later : List Cursors) :
    ∃ word, Cursors.awaited (s.cursors :: later) = some word ∧
      ∀ b, saveCursors ⟨s, b⟩ = (Action.onBase (writeWhole word 0) >>= fun _ =>
        Action.setItem { s with savedFront := max s.savedFront s.cursors.front }) ⟨s, b⟩ :=
  ⟨_, Cursors.awaited_cons_of_order hs.order hs.back_le later, fun _ => rfl⟩

theorem saveCursors_of_ok {b b' : ByteStore} (hle : s.savedFront ≤ s.cursors.front)
    (h : writeWhole s.cursors.bytes 0 b = .ok () b') : saveCursors ⟨s, b⟩ = .ok () ⟨s.saved, b'⟩ := by
  have hmax : max s.savedFront s.cursors.front = s.cursors.front := if_pos hle
  unfold saveCursors
  rw [Action.item_bind, Action.bind_of_ok (Action.onBase_of_ok h), hmax]
  rfl

theorem saveCursors_of_error {b b' : ByteStore} {e : StoreError}
    (h : writeWhole s.cursors.bytes 0 b = .error e b') :
    saveCursors ⟨s, b⟩ = .error e ⟨s, b'⟩ := by
  unfold saveCursors
  rw [Action.item_bind, Action.bind_of_error (Action.onBase_of_error h)]

theorem saveMovedCursors_eq (h : s.savedFront < s.cursors.front) (b : ByteStore) :
    saveMovedCursors ⟨s, b⟩ = saveCursors ⟨s, b⟩ := by
  unfold saveMovedCursors
  rw [Action.item_bind, if_pos h]

theorem saveMovedCursors_of_ok {b b' : ByteStore} (hmoved : s.savedFront < s.cursors.front)
    (h : writeWhole s.cursors.bytes 0 b = .ok () b') :
    saveMovedCursors ⟨s, b⟩ = .ok () ⟨s.saved, b'⟩ := by
  rw [saveMovedCursors_eq hmoved, saveCursors_of_ok (UInt32.le_of_lt hmoved) h]

theorem saveMovedCursors_of_error {b b' : ByteStore} {e : StoreError}
    (hmoved : s.savedFront < s.cursors.front)
    (h : writeWhole s.cursors.bytes 0 b = .error e b') :
    saveMovedCursors ⟨s, b⟩ = .error e ⟨s, b'⟩ := by
  rw [saveMovedCursors_eq hmoved, saveCursors_of_error h]

theorem savedFront_lt_front_claimed (hs : s.Sound) (hfits : s.Fits n) :
    (s.claimed n).savedFront < (s.claimed n).cursors.front := by
  have hfront := hs.front_claimed hfits
  have hsaved := hs.saved
  rw [UInt32.lt_iff_toNat_lt, hfront]
  exact Nat.lt_of_le_of_lt hsaved (Nat.lt_add_of_pos_right (by decide))

end Claims

/-- How far the writes of a record have got: `i` bytes of the body, then `j` of the header, then
`k` of the word. -/
structure Landed (s : Segment) (t : Transaction) (b : ByteStore) (i j k : Nat) (b' : ByteStore) :
    Prop where
  header_after : 0 < j → i = t.layout.length
  word_after : 0 < k → j = recordHeaderSize
  contents : b'.contents =
    ((b.contents.write (s.nextHeader t).start.toNat (t.layout.take i)).write
      s.cursors.front.toNat ((s.nextHeader t).layout.take j)).write 0
      ((s.claimed t.layout.length).cursors.bytes.take k)
  limit : b'.limit = b.limit
  readable : b'.Readable

theorem Landed.of_torn {b b₁ b₂ b₃ : ByteStore} {i j k : Nat} (hb : b.Readable)
    (hbody : b.Torn (s.nextHeader t).start.toNat t.layout i b₁)
    (hheader : b₁.Torn s.cursors.front.toNat (s.nextHeader t).layout j b₂)
    (hword : b₂.Torn 0 (s.claimed t.layout.length).cursors.bytes k b₃)
    (hij : 0 < j → i = t.layout.length) (hjk : 0 < k → j = recordHeaderSize) :
    Landed s t b i j k b₃ where
  header_after := hij
  word_after := hjk
  contents := by rw [hword.contents_eq, hheader.contents_eq, hbody.contents_eq]
  limit := by rw [hword.limit_eq, hheader.limit_eq, hbody.limit_eq]
  readable := hword.readable (hheader.readable (hbody.readable hb))

section Appends

variable {o : Over Segment ByteStore}

/-- An append that has its space succeeds with all three writes complete, or fails with them torn;
the space stays claimed. -/
theorem append_cases (hb : o.base.Readable) (hs : o.item.Sound) (hw : t.Writable)
    (hfits : o.item.Fits t.layout.length) :
    (∃ b', append t o = .ok (o.item.nextHeader t) ⟨(o.item.claimed t.layout.length).saved, b'⟩ ∧
      Landed o.item t o.base t.layout.length recordHeaderSize wordSize b') ∨
    ∃ e i j k b', append t o = .error e ⟨o.item.claimed t.layout.length, b'⟩ ∧
      Landed o.item t o.base i j k b' ∧ e.isRefusal = false := by
  have hmoved := savedFront_lt_front_claimed hs hfits
  rw [append_of_fits hs hw hfits]
  unfold writeRecord
  rcases writeWhole_cases hb t.layout (o.item.nextHeader t).start.toNat with
    ⟨b₁, hbody, torn₁⟩ | ⟨e, i, b₁, hbody, torn₁, he⟩
  · rw [Action.bind_of_ok (Action.onBase_of_ok hbody)]
    have hb₁ := torn₁.readable hb
    rcases writeWhole_cases hb₁ (o.item.nextHeader t).layout o.item.cursors.front.toNat with
      ⟨b₂, hheader, torn₂⟩ | ⟨e, j, b₂, hheader, torn₂, he⟩
    · rw [Action.bind_of_ok (Action.onBase_of_ok hheader)]
      rw [RecordHeader.length_layout] at torn₂
      rcases writeWhole_cases (torn₂.readable hb₁)
          (o.item.claimed t.layout.length).cursors.bytes 0 with
        ⟨b₃, hword, torn₃⟩ | ⟨e, k, b₃, hword, torn₃, he⟩
      · rw [Action.bind_of_ok (saveMovedCursors_of_ok hmoved hword)]
        rw [Cursors.length_bytes] at torn₃
        exact .inl ⟨b₃, rfl, .of_torn hb torn₁ torn₂ torn₃ (fun _ => rfl) fun _ => rfl⟩
      · rw [Action.bind_of_error (saveMovedCursors_of_error hmoved hword)]
        exact .inr ⟨e, _, _, k, b₃, rfl, .of_torn hb torn₁ torn₂ torn₃ (fun _ => rfl) fun _ => rfl,
          he⟩
    · rw [Action.bind_of_error (Action.onBase_of_error hheader)]
      exact .inr ⟨e, _, j, 0, b₂, rfl, .of_torn hb torn₁ torn₂ (.refl _ _ _) (fun _ => rfl)
        fun h => absurd h (Nat.lt_irrefl 0), he⟩
  · rw [Action.bind_of_error (Action.onBase_of_error hbody)]
    exact .inr ⟨e, i, 0, 0, b₁, rfl, .of_torn hb torn₁ (.refl _ _ _) (.refl _ _ _)
      (fun h => absurd h (Nat.lt_irrefl 0)) fun h => absurd h (Nat.lt_irrefl 0), he⟩

def recordedContents (s : Segment) (t : Transaction) (c : Contents) : Contents :=
  ((c.write (s.nextHeader t).start.toNat t.layout).write s.cursors.front.toNat
    (s.nextHeader t).layout).write 0 (s.claimed t.layout.length).cursors.bytes

theorem append_of_plain (hb : o.base.Plain) (hs : o.item.Sound) (hw : t.Writable)
    (hfits : o.item.Fits t.layout.length) :
    append t o = .ok (o.item.nextHeader t) ⟨(o.item.claimed t.layout.length).saved,
      o.base.withContents (recordedContents o.item t o.base.contents)⟩ := by
  have hmoved := savedFront_lt_front_claimed hs hfits
  have hbody := writeWhole_of_plain hb t.layout (o.item.nextHeader t).start.toNat
  generalize hc : o.base.contents.write (o.item.nextHeader t).start.toNat t.layout = c at hbody
  have hheader : writeWhole (o.item.nextHeader t).layout o.item.cursors.front.toNat
      (o.base.withContents c) = .ok () (o.base.withContents
        (c.write o.item.cursors.front.toNat (o.item.nextHeader t).layout)) :=
    writeWhole_of_plain (hb.withContents c) _ _
  generalize hd : c.write o.item.cursors.front.toNat (o.item.nextHeader t).layout = d at hheader
  have hword : writeWhole (o.item.claimed t.layout.length).cursors.bytes 0
      (o.base.withContents d) = .ok () (o.base.withContents
        (d.write 0 (o.item.claimed t.layout.length).cursors.bytes)) :=
    writeWhole_of_plain (hb.withContents d) _ _
  rw [append_of_fits hs hw hfits, recordedContents, hc, hd]
  unfold writeRecord
  rw [Action.bind_of_ok (Action.onBase_of_ok hbody), Action.bind_of_ok (Action.onBase_of_ok hheader),
    Action.bind_of_ok (saveMovedCursors_of_ok hmoved hword)]
  rfl

/-- Behind its word a sync only makes the store durable, and fails only if that cannot be done. -/
theorem sync_of_saved {o' : Over Segment ByteStore} (hsaved : saveCursors o = .ok () o')
    (hb : o'.base.Readable) :
    sync o = .ok () o' ∨
      o'.base.durability = .fails ∧ sync o = .error (.io .syncFailed) o' := by
  unfold sync
  rw [Action.bind_of_ok hsaved]
  cases hd : o'.base.durability with
  | absent =>
    refine .inl (Action.onBase_of_ok ?_)
    simp only [Action.ofIo, ByteStore.sync, hd]
  | works =>
    refine .inl (Action.onBase_of_ok ?_)
    simp only [Action.ofIo, ByteStore.sync, hd, hb.record_eq]
  | fails =>
    refine .inr ⟨rfl, Action.onBase_of_error ?_⟩
    simp only [Action.ofIo, ByteStore.sync, hd, hb.record_eq]

/-- A sync writes the word, and whatever becomes of it moves no cursor. -/
theorem sync_cases (hb : o.base.Readable) (hs : o.item.Sound) :
    (∃ b', o.base.Torn 0 o.item.cursors.bytes wordSize b' ∧
      (sync o = .ok () ⟨o.item.saved, b'⟩ ∨
        ∃ e, sync o = .error e ⟨o.item.saved, b'⟩ ∧ e.isRefusal = false)) ∨
    ∃ e k b', o.base.Torn 0 o.item.cursors.bytes k b' ∧ sync o = .error e ⟨o.item, b'⟩ ∧
      e.isRefusal = false := by
  rcases writeWhole_cases hb o.item.cursors.bytes 0 with
    ⟨b', hword, htorn⟩ | ⟨e, k, b', hword, htorn, he⟩
  · have hsaved := saveCursors_of_ok (UInt32.le_iff_toNat_le.2 hs.saved) hword
    rw [Cursors.length_bytes] at htorn
    refine .inl ⟨b', htorn, ?_⟩
    rcases sync_of_saved hsaved (htorn.readable hb) with hsync | ⟨-, hsync⟩
    · exact .inl hsync
    · exact .inr ⟨_, hsync, rfl⟩
  · unfold sync
    rw [Action.bind_of_error (saveCursors_of_error hword)]
    exact .inr ⟨e, k, b', htorn, rfl, he⟩

end Appends

end Segment

end AppendStore
