import AppendStore.Proofs.ByteStore.Calls
import AppendStore.Proofs.Segment.Intact
import AppendStore.Proofs.Transaction.Canonical

/-!
# Reading bodies that may be damaged

A header can name any range and any transaction, and the store below may hold anything or
end early. Reading the body still has one outcome for each case: `Segment.reading` says what
the bytes give, and `Segment.readingWithin` what is answered if the contents end before the
body does. A transaction is answered if and only if the bytes of the range are what it is
written as and it is the one that the header names
(`Segment.transactionOf_sound_complete`), so nothing is ever read that was not written.
-/

namespace AppendStore

namespace Segment

variable {s : Segment} {b : ByteStore} {c : Contents} {h : RecordHeader} {t : Transaction}

/-- A full read that may pass gives all of the range if the contents reach that far, and says how
much there is if they do not. -/
theorem readWhole_of_passing (hpass : ∀ o ∈ b.plannedReads, o.Passing) {len : Nat}
    (hlen : 0 < len) (off : Nat) :
    ∃ b', b'.contents = b.contents ∧
      readWhole len off b =
        if off + len ≤ b.contents.size then .ok (b.contents.window off len) b'
        else .error (.incompleteValue len (b.contents.size - off)) b' := by
  obtain ⟨calls, b', hgave, hok⟩ := ByteStore.readSpan_of_passing hpass len off
  have hspan : Action.ofIo (ByteStore.readSpan len off) b = .ok (b.contents.read off len) b' := by
    simp only [Action.ofIo, hok]
  refine ⟨b', hgave.contents_eq, ?_⟩
  unfold readWhole
  rw [Action.bind_of_ok hspan, Contents.length_read]
  by_cases hsize : off + len ≤ b.contents.size
  · rw [Contents.read_eq_window hsize, if_pos (by omega), if_pos hsize]
    rfl
  · rw [if_neg (by omega), if_neg hsize, Nat.min_eq_right (by omega)]
    rfl

theorem readBody_eq_ok_iff {body : Bytes} :
    readBody h body = .ok t ↔ t.id = h.transactionId ∧ t.encode = .ok body := by
  rw [← Transaction.decode_eq_ok_iff_encode]
  unfold readBody
  cases hread : Transaction.decode body with
  | error e =>
    constructor
    · intro hresult
      cases hresult
    · rintro ⟨-, hother⟩
      cases hother
  | ok u =>
    dsimp only
    constructor
    · intro hresult
      split at hresult
      · next hid =>
        cases hresult
        exact ⟨hid, rfl⟩
      · cases hresult
    · rintro ⟨hid, hsame⟩
      cases hsame
      exact if_pos hid

theorem readBody_eq_error {body : Bytes} {e : StoreError} (herror : readBody h body = .error e) :
    ∃ fault, e = .decode fault := by
  unfold readBody at herror
  cases hread : Transaction.decode body with
  | error e' =>
    rw [hread] at herror
    cases herror
    exact Transaction.decode_eq_error hread
  | ok u =>
    rw [hread] at herror
    dsimp only at herror
    split at herror
    · cases herror
    · exact ⟨_, (Except.error.inj herror).symm⟩

theorem reading_eq_ok_iff :
    s.reading c h = .ok t ↔
      s.Holds h ∧ t.id = h.transactionId ∧
        t.encode = .ok (c.window h.start.toNat h.bodyLength) := by
  unfold reading
  by_cases hholds : s.Holds h
  · rw [if_pos hholds, readBody_eq_ok_iff]
    exact (and_iff_right hholds).symm
  · rw [if_neg hholds]
    exact ⟨nofun, fun hall => absurd hall.1 hholds⟩

theorem reading_eq_error {e : StoreError} (herror : s.reading c h = .error e) :
    ∃ fault, e = .decode fault := by
  unfold reading at herror
  split at herror
  · exact readBody_eq_error herror
  · exact ⟨_, (Except.error.inj herror).symm⟩

/-- What reading a record gives in contents that may end before its body does. -/
def readingWithin (s : Segment) (c : Contents) (h : RecordHeader) : Except StoreError Transaction :=
  if s.Holds h ∧ c.size < h.stop.toNat then
    .error (.incompleteValue h.bodyLength (c.size - h.start.toNat))
  else s.reading c h

theorem Holds.start_add_bodyLength (hholds : s.Holds h) :
    h.start.toNat + h.bodyLength = h.stop.toNat ∧ 0 < h.bodyLength := by
  have hlt := UInt32.lt_iff_toNat_lt.1 hholds.2.2
  rw [RecordHeader.bodyLength]
  omega

theorem Holds.read_eq_window (hholds : s.Holds h) (hstop : h.stop.toNat ≤ c.size) :
    c.read h.start.toNat h.bodyLength = c.window h.start.toNat h.bodyLength :=
  Contents.read_eq_window (by rwa [hholds.start_add_bodyLength.1])

theorem readingWithin_eq_ok_iff :
    s.readingWithin c h = .ok t ↔
      s.Holds h ∧ h.stop.toNat ≤ c.size ∧ t.id = h.transactionId ∧
        t.encode = .ok (c.read h.start.toNat h.bodyLength) := by
  unfold readingWithin
  split
  · next hshort => exact ⟨nofun, fun hall => absurd hall.2.1 (Nat.not_le.2 hshort.2)⟩
  · next hlong =>
    rw [reading_eq_ok_iff]
    refine and_congr_right fun hholds => ?_
    have hstop : h.stop.toNat ≤ c.size := Nat.le_of_not_lt fun hlt => hlong ⟨hholds, hlt⟩
    rw [hholds.read_eq_window hstop, and_iff_right hstop]

theorem readingWithin_eq_incompleteValue_iff {wanted got : Nat} :
    s.readingWithin c h = .error (.incompleteValue wanted got) ↔
      s.Holds h ∧ c.size < h.stop.toNat ∧ wanted = h.bodyLength ∧
        got = c.size - h.start.toNat := by
  unfold readingWithin
  split
  · next hshort =>
    rw [Except.error.injEq, StoreError.incompleteValue.injEq, and_iff_right hshort.1,
      and_iff_right hshort.2, eq_comm, @eq_comm _ _ got]
  · next hlong =>
    constructor
    · intro herror
      obtain ⟨fault, hfault⟩ := reading_eq_error herror
      cases hfault
    · exact fun hall => absurd ⟨hall.1, hall.2.1⟩ hlong

theorem readingWithin_eq_decode_iff :
    (∃ fault, s.readingWithin c h = .error (.decode fault)) ↔
      ¬ s.Holds h ∨ h.stop.toNat ≤ c.size ∧ ∀ t : Transaction, t.id = h.transactionId →
        t.encode ≠ .ok (c.read h.start.toNat h.bodyLength) := by
  constructor
  · rintro ⟨fault, herror⟩
    by_cases hholds : s.Holds h
    · have hstop : h.stop.toNat ≤ c.size := Nat.le_of_not_lt fun hlt => by
        cases herror.symm.trans (readingWithin_eq_incompleteValue_iff.2 ⟨hholds, hlt, rfl, rfl⟩)
      refine .inr ⟨hstop, fun t hid hencode => ?_⟩
      cases herror.symm.trans (readingWithin_eq_ok_iff.2 ⟨hholds, hstop, hid, hencode⟩)
    · exact .inl hholds
  · intro hreason
    have hlong : ¬ (s.Holds h ∧ c.size < h.stop.toNat) := fun hshort =>
      hreason.elim (fun hout => hout hshort.1) fun hother => absurd hother.1 (Nat.not_le.2 hshort.2)
    have hreading : s.readingWithin c h = s.reading c h := if_neg hlong
    cases hresult : s.reading c h with
    | error e =>
      obtain ⟨fault, rfl⟩ := reading_eq_error hresult
      exact ⟨fault, hreading.trans hresult⟩
    | ok t =>
      obtain ⟨hholds, hstop, hid, hencode⟩ := readingWithin_eq_ok_iff.1 (hreading.trans hresult)
      exact (hreason.elim (fun hout => hout hholds) fun hother => hother.2 t hid hencode).elim

/-- However the calls are split, a read goes by the contents alone and changes nothing. -/
theorem transactionOf_of_passing (hpass : ∀ o ∈ b.plannedReads, o.Passing) (s : Segment)
    (h : RecordHeader) :
    ∃ b', b'.contents = b.contents ∧
      transactionOf h ⟨s, b⟩ = Action.ofExcept (s.readingWithin b.contents h) ⟨s, b'⟩ := by
  unfold readingWithin
  by_cases hholds : s.Holds h
  · obtain ⟨hstop, hpos⟩ := hholds.start_add_bodyLength
    obtain ⟨b', hcontents, hread⟩ := readWhole_of_passing hpass hpos h.start.toNat
    refine ⟨b', hcontents, ?_⟩
    unfold transactionOf
    rw [Action.item_bind, if_pos hholds]
    rw [hstop] at hread
    by_cases hsize : h.stop.toNat ≤ b.contents.size
    · rw [if_pos hsize] at hread
      rw [Action.bind_of_ok (Action.onBase_of_ok hread), if_neg fun hshort => by omega, reading,
        if_pos hholds]
    · rw [if_neg hsize] at hread
      rw [Action.bind_of_error (Action.onBase_of_error hread),
        if_pos ⟨hholds, Nat.lt_of_not_le hsize⟩]
      rfl
  · refine ⟨b, rfl, ?_⟩
    rw [transactionOf_of_outside hholds, if_neg fun hshort => hholds hshort.1, reading,
      if_neg hholds]
    rfl

/-- Reading a body is sound and complete, whatever the header says and whatever the store holds.

A transaction is answered if and only if the range of the header lies between the back cursor and
the end of the segment, the store reaches to its end, and the bytes there are what the transaction
named by the header is written as. Out of bounds or with other bytes the answer is an error of
decoding, and if the store ends within a range in bounds the answer says how much of it there is.
Reads leave the segment and the contents alone. -/
theorem transactionOf_sound_complete (s : Segment) {b : ByteStore}
    (hpass : ∀ o ∈ b.plannedReads, o.Passing) (h : RecordHeader) :
    ∃ answer b', transactionOf h ⟨s, b⟩ = Action.ofExcept answer ⟨s, b'⟩ ∧
      b'.contents = b.contents ∧
      (∀ t : Transaction, answer = .ok t ↔
        (s.cursors.back ≤ h.start ∧ h.start < h.stop ∧ h.stop ≤ s.capacity) ∧
          h.stop.toNat ≤ b.contents.size ∧ t.id = h.transactionId ∧
          t.encode = .ok (b.contents.read h.start.toNat (h.stop.toNat - h.start.toNat))) ∧
      ((∃ fault, answer = .error (.decode fault)) ↔
        ¬ (s.cursors.back ≤ h.start ∧ h.start < h.stop ∧ h.stop ≤ s.capacity) ∨
          h.stop.toNat ≤ b.contents.size ∧ ∀ t : Transaction, t.id = h.transactionId →
            t.encode ≠ .ok (b.contents.read h.start.toNat (h.stop.toNat - h.start.toNat))) ∧
      ∀ wanted got, answer = .error (.incompleteValue wanted got) ↔
        (s.cursors.back ≤ h.start ∧ h.start < h.stop ∧ h.stop ≤ s.capacity) ∧
          b.contents.size < h.stop.toNat ∧ wanted = h.stop.toNat - h.start.toNat ∧
          got = b.contents.size - h.start.toNat := by
  obtain ⟨b', hcontents, hread⟩ := transactionOf_of_passing hpass s h
  have hbounds : (s.cursors.back ≤ h.start ∧ h.start < h.stop ∧ h.stop ≤ s.capacity) ↔
      s.Holds h := and_congr_right fun _ => and_comm
  refine ⟨s.readingWithin b.contents h, b', hread, hcontents, ?_⟩
  rw [hbounds]
  exact ⟨fun t => readingWithin_eq_ok_iff, readingWithin_eq_decode_iff,
    fun wanted got => readingWithin_eq_incompleteValue_iff⟩

/-- A body that comes byte by byte, and the same body under the name of another transaction and
with its last byte cut off. -/
theorem transactionOf_sound_complete_split :
    let t : Transaction := { id := 7, changes := [.delete [97]] }
    let plan : List Outcome := [.atMost 1, .interrupted, .atMost 3]
    let s : Segment := { id := 1, capacity := 128, cursors := .pack 24 88, savedFront := 24 }
    let contents := Contents.ofBytes (List.replicate 88 0 ++ t.layout)
    let b : ByteStore := { contents, plannedReads := plan }
    let short := b.withContents (contents.resize 127)
    (∀ o ∈ plan, o.Passing) ∧
      (∃ b', transactionOf ⟨7, 88, 128⟩ ⟨s, b⟩ = .ok t ⟨s, b'⟩) ∧
      (∃ fault b', transactionOf ⟨8, 88, 128⟩ ⟨s, b⟩ = .error (.decode fault) ⟨s, b'⟩) ∧
      ∃ b', transactionOf ⟨7, 88, 128⟩ ⟨s, short⟩ = .error (.incompleteValue 40 39) ⟨s, b'⟩ := by
  intro t plan s contents b short
  have hpass : ∀ o ∈ plan, o.Passing := by decide
  have hbody : t.layout = contents.read 88 40 := by decide +kernel
  have hencode : t.encode = .ok (contents.read 88 40) := hbody ▸ rfl
  refine ⟨hpass, ?_, ?_, ?_⟩
  · obtain ⟨answer, b', hread, -, hok, -⟩ :=
      @transactionOf_sound_complete s b hpass ⟨7, 88, 128⟩
    have hanswer := (hok t).2 ⟨by decide, by decide +kernel, rfl, hencode⟩
    exact ⟨b', by rw [hread, hanswer]; rfl⟩
  · obtain ⟨answer, b', hread, -, -, hdecode, -⟩ :=
      @transactionOf_sound_complete s b hpass ⟨8, 88, 128⟩
    have hother : ∀ u : Transaction, u.id = 8 → u.encode ≠ .ok (contents.read 88 40) := by
      intro u hid hu
      have hread := Transaction.decode_eq_ok_iff_encode.2 hu
      cases hread.symm.trans (Transaction.decode_eq_ok_iff_encode.2 hencode)
      exact absurd hid (by decide)
    obtain ⟨fault, hanswer⟩ := hdecode.2 (.inr ⟨by decide +kernel, hother⟩)
    exact ⟨fault, b', by rw [hread, hanswer]; rfl⟩
  · obtain ⟨answer, b', hread, -, -, -, hincomplete⟩ :=
      @transactionOf_sound_complete s short hpass ⟨7, 88, 128⟩
    have hanswer := (hincomplete 40 39).2 ⟨by decide, by decide +kernel, by decide,
      by decide +kernel⟩
    exact ⟨b', by rw [hread, hanswer]; rfl⟩

end Segment

end AppendStore
