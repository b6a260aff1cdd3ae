import AppendStore.Proofs.Segment.Append

/-!
# How a segment is opened

A store that holds no more than a word is started afresh, with the word as the only
write (`Segment.start_cases`, `Segment.start_of_room`). It is a word that is in order
(`Segment.start_eq_awaited`). Any other store is taken up as it is: its capacity is its
size, its cursors are the word, and nothing is written unless the word is zero
(`Segment.resume_eq`). A word whose cursors lie in order within the store describes a
segment in order (`Segment.sound_of_ofCursors`).
-/

namespace AppendStore

namespace Segment

theorem toNat_wordSize : (UInt32.ofNat wordSize).toNat = wordSize := rfl

theorem toNat_ofNat_of_le_maxCapacity {n : Nat} (h : n ≤ maxCapacity) :
    (UInt32.ofNat n).toNat = n :=
  UInt32.toNat_ofNat_of_lt' (Nat.lt_of_le_of_lt h (by decide))

variable {id : UInt64} {capacity : UInt32} {b : ByteStore} {s : Segment}

theorem front_fresh (id : UInt64) (capacity : UInt32) :
    (fresh id capacity).cursors.front.toNat = wordSize := by
  rw [fresh, Cursors.front_ofCapacity, toNat_wordSize]

theorem back_fresh (id : UInt64) (capacity : UInt32) :
    (fresh id capacity).cursors.back = capacity :=
  Cursors.back_ofCapacity capacity

theorem sound_fresh (h : CapacityOk capacity) : (fresh id capacity).Sound := by
  have hfront := front_fresh id capacity
  have hback := back_fresh id capacity
  refine ⟨Nat.le_of_eq hfront.symm, ?_, ?_, h.2, ?_⟩
  · rw [hfront, hback]
    exact Nat.le_of_lt h.wordSize_lt
  · rw [hback]
    exact Nat.le_refl _
  · exact Nat.le_of_eq hfront.symm

/-- The word that a segment starts with is the one that waiting for it gives. -/
theorem start_eq_awaited (hcapacity : CapacityOk capacity) (later : List Cursors) :
    ∃ word, Cursors.awaited ((fresh id capacity).cursors :: later) = some word ∧
      start id capacity = writeWhole word 0 >>= fun _ => pure (fresh id capacity) := by
  have hs : (fresh id capacity).Sound := sound_fresh hcapacity
  exact ⟨_, Cursors.awaited_cons_of_order hs.order hs.back_le later, if_pos hcapacity⟩

/-- Starting a segment writes the word of a fresh one, as far as it gets. -/
theorem start_cases (hb : b.Readable) (id : UInt64) (capacity : UInt32) :
    (∃ b', start id capacity b = .ok (fresh id capacity) b' ∧ CapacityOk capacity ∧
      b.Torn 0 (fresh id capacity).cursors.bytes wordSize b') ∨
    ∃ e k b', start id capacity b = .error e b' ∧
      b.Torn 0 (fresh id capacity).cursors.bytes k b' := by
  unfold start
  by_cases hcapacity : CapacityOk capacity
  · rw [if_pos hcapacity]
    rcases writeWhole_cases hb (fresh id capacity).cursors.bytes 0 with
      ⟨b', hword, htorn⟩ | ⟨e, k, b', hword, htorn, -⟩
    · rw [Cursors.length_bytes] at htorn
      exact .inl ⟨b', Action.bind_of_ok hword, hcapacity, htorn⟩
    · exact .inr ⟨e, k, b', Action.bind_of_error hword, htorn⟩
  · rw [if_neg hcapacity]
    exact .inr ⟨_, 0, b, rfl, .refl b 0 _⟩

theorem start_of_room (hb : b.Readable) (hplan : b.plannedWrites = [])
    (hroom : b.HasRoom 0 wordSize) (hcapacity : CapacityOk capacity) :
    start id capacity b = .ok (fresh id capacity)
      (b.after (b.contents.write 0 (fresh id capacity).cursors.bytes) []) := by
  have hlen := Cursors.length_bytes (fresh id capacity).cursors
  unfold start
  rw [if_pos hcapacity, Action.bind_of_ok (writeWhole_of_room hb hplan (hlen ▸ hroom))]
  rfl

theorem sound_of_ofCursors {cursors : Cursors} (hmax : capacity.toNat ≤ maxCapacity)
    (h : ofCursors id capacity cursors = .ok s) :
    s.Sound ∧ s = { id, capacity, cursors, savedFront := cursors.front } := by
  unfold ofCursors at h
  split at h
  · cases h
  · next hsound =>
    cases h
    obtain ⟨hword, hwithin, horder⟩ := not_or.1 hsound |>.imp_right not_or.1
    exact ⟨⟨Nat.le_of_not_lt hword, UInt32.le_iff_toNat_le.1 (UInt32.not_lt.1 horder),
      UInt32.le_iff_toNat_le.1 (UInt32.not_lt.1 hwithin), hmax, Nat.le_refl _⟩, rfl⟩

theorem decode_of_ofCursors {cursors : Cursors} {e : StoreError}
    (h : ofCursors id capacity cursors = .error e) : ∃ fault, e = .decode fault := by
  unfold ofCursors at h
  split at h
  · exact ⟨_, (Except.error.inj h).symm⟩
  · cases h

theorem ofCursors_of_order {cursors : Cursors} (hword : wordSize ≤ cursors.front.toNat)
    (horder : cursors.front.toNat ≤ cursors.back.toNat)
    (hwithin : cursors.back.toNat ≤ capacity.toNat) :
    ofCursors id capacity cursors =
      .ok { id, capacity, cursors, savedFront := cursors.front } := by
  unfold ofCursors
  rw [if_neg]
  rintro (h | h | h)
  · exact absurd hword (Nat.not_le_of_lt h)
  · exact absurd hwithin (Nat.not_le_of_lt (UInt32.lt_iff_toNat_lt.1 h))
  · exact absurd horder (Nat.not_le_of_lt (UInt32.lt_iff_toNat_lt.1 h))

theorem resume_eq_ite (hb : b.Readable) (hsize : wordSize ≤ b.contents.size)
    (hmax : b.contents.size ≤ maxCapacity) :
    resume id b =
      (if (Cursors.ofBytes (b.contents.window 0 wordSize)).word = 0 then
        start id (UInt32.ofNat b.contents.size)
      else Action.ofExcept (ofCursors id (UInt32.ofNat b.contents.size)
        (.ofBytes (b.contents.window 0 wordSize)))) b := by
  have hread : readWhole wordSize 0 b = .ok (b.contents.window 0 wordSize) b :=
    readWhole_of_readable hb (by rwa [Nat.zero_add])
  unfold resume
  rw [Action.get_bind, hb.size_eq, if_neg (Nat.not_lt.2 hmax)]
  exact Action.bind_of_ok hread

theorem resume_eq (hb : b.Readable) (hsize : wordSize ≤ b.contents.size)
    (hmax : b.contents.size ≤ maxCapacity)
    (hword : (Cursors.ofBytes (b.contents.window 0 wordSize)).word ≠ 0) :
    resume id b = Action.ofExcept (ofCursors id (UInt32.ofNat b.contents.size)
      (.ofBytes (b.contents.window 0 wordSize))) b := by
  rw [resume_eq_ite hb hsize hmax, if_neg hword]

theorem attach_of_small (hb : b.Readable) (hsize : b.contents.size ≤ wordSize) :
    attach id capacity b = start id capacity b := by
  unfold attach
  rw [Action.get_bind, hb.size_eq, if_pos hsize]

theorem attach_of_large (hb : b.Readable) (hsize : wordSize < b.contents.size) :
    attach id capacity b = resume id b := by
  unfold attach
  rw [Action.get_bind, hb.size_eq, if_neg (Nat.not_le.2 hsize)]

theorem attach_of_room (hb : b.Readable) (hsmall : b.contents.size ≤ wordSize)
    (hplan : b.plannedWrites = []) (hroom : b.HasRoom 0 wordSize) (hcapacity : CapacityOk capacity) :
    attach id capacity b = .ok (fresh id capacity)
      (b.after (b.contents.write 0 (fresh id capacity).cursors.bytes) []) := by
  rw [attach_of_small hb hsmall]
  exact start_of_room hb hplan hroom hcapacity

end Segment

end AppendStore
