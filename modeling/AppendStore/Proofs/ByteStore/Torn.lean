import AppendStore.ByteStore.Plain
import AppendStore.Proofs.ByteStore.Calls
import AppendStore.Segment.Basic

/-!
# Torn writes

However the single calls turn out, what a full write leaves behind is a start of
its bytes: the write is torn after some number of bytes, and all of them are there
if it succeeds. `ByteStore.Torn` is that relation between a store that keeps no trace and
the store after; `ByteStore.writeSpan_cases` and `Segment.writeWhole_cases` say that nothing
else can happen. A store whose writes go by no plan writes everything that its
limit leaves room for (`Segment.writeWhole_of_room`, `Segment.writeWhole_of_plain`).
-/

namespace AppendStore

namespace ByteStore

theorem Readable.after {s : ByteStore} (hs : s.Readable) (c : Contents) (plan : List Outcome) :
    (s.after c plan).Readable :=
  ⟨hs.plannedReads, hs.reportedSize, hs.trace⟩

theorem Plain.after_nil {s : ByteStore} (hs : s.Plain) (c : Contents) :
    s.after c [] = s.withContents c := by
  obtain ⟨_, _, _, _, _, _, _⟩ := s
  have := hs.plannedWrites
  simp_all [ByteStore.after, ByteStore.withContents]

/-- The store `t` is `s` after the first `k` bytes of `bs` were written at `off`. -/
structure Torn (s : ByteStore) (off : Nat) (bs : Bytes) (k : Nat) (t : ByteStore) : Prop where
  le : k ≤ bs.length
  room : 0 < k → s.HasRoom off k
  eq : ∃ plan, t = s.after (s.contents.write off (bs.take k)) plan

namespace Torn

variable {s t u : ByteStore} {off k m : Nat} {bs : Bytes}

theorem contents_eq (h : s.Torn off bs k t) : t.contents = s.contents.write off (bs.take k) := by
  obtain ⟨plan, rfl⟩ := h.eq
  rfl

theorem limit_eq (h : s.Torn off bs k t) : t.limit = s.limit := by
  obtain ⟨plan, rfl⟩ := h.eq
  rfl

theorem readable (h : s.Torn off bs k t) (hs : s.Readable) : t.Readable := by
  obtain ⟨plan, rfl⟩ := h.eq
  exact hs.after _ plan

theorem refl (s : ByteStore) (off : Nat) (bs : Bytes) : s.Torn off bs 0 s :=
  ⟨Nat.zero_le _, fun h => absurd h (Nat.lt_irrefl 0), s.plannedWrites, rfl⟩

end Torn

variable {s t : ByteStore}

/-- Without a trace nothing of the calls is left but what they wrote. -/
theorem Wrote.torn {off n : Nat} {bs : Bytes} {calls : List Call} (h : s.Wrote off bs n calls t)
    (htrace : s.trace = none) : s.Torn off bs n t := by
  obtain ⟨plan, -, rfl⟩ := h.eq
  exact ⟨h.le, h.room, plan, recorded_of_untraced (s := s.after _ plan) htrace calls⟩

/-- A full write leaves a start of its bytes behind, and says how much unless it fails. -/
theorem writeSpan_cases (hs : s.Readable) (bs : Bytes) (off : Nat) :
    ∃ k t, s.Torn off bs k t ∧
      (writeSpan bs off s = .ok k t ∨ ∃ e, writeSpan bs off s = .error e t) := by
  have hends := s.writeSpan_ends bs off
  generalize writeSpan bs off s = result at hends
  cases hends with
  | ok wrote => exact ⟨_, _, wrote.torn hs.trace, .inl rfl⟩
  | error wrote => exact ⟨_, _, wrote.torn hs.trace, .inr ⟨_, rfl⟩⟩

theorem writeSpan_of_room (hs : s.Readable) (hplan : s.plannedWrites = []) {bs : Bytes} {off : Nat}
    (hroom : s.HasRoom off bs.length) :
    writeSpan bs off s = .ok bs.length (s.after (s.contents.write off bs) []) := by
  have hfit : s.fitting off bs = bs := by
    unfold fitting
    split
    · rfl
    · next limit hlimit =>
      have := hroom limit hlimit
      exact List.take_of_length_le (by omega)
  have hpass : ∀ o ∈ s.plannedWrites, o.Passing := by
    rw [hplan]
    exact fun o ho => absurd ho List.not_mem_nil
  obtain ⟨calls, t, hwrote, hok⟩ := writeSpan_of_passing hpass bs off
  obtain ⟨plan, hsuffix, rfl⟩ := hwrote.eq
  rw [hplan] at hsuffix
  rw [hok, hfit, List.take_length, List.suffix_nil.1 hsuffix]
  exact congrArg (EStateM.Result.ok bs.length)
    (recorded_of_untraced (s := s.after _ []) hs.trace calls)

end ByteStore

namespace StoreError

/-- The transaction or its record was refused before anything was claimed for it. -/
def isRefusal : StoreError → Bool
  | invalidTransaction _ | insufficientSpace .. => true
  | _ => false

end StoreError

namespace Segment

open ByteStore

variable {s : ByteStore}

/-- A write succeeds with all of its bytes, or fails and leaves a start of them. -/
theorem writeWhole_cases (hs : s.Readable) (bs : Bytes) (off : Nat) :
    (∃ t, writeWhole bs off s = .ok () t ∧ s.Torn off bs bs.length t) ∨
      ∃ e k t, writeWhole bs off s = .error e t ∧ s.Torn off bs k t ∧ e.isRefusal = false := by
  obtain ⟨k, t, htorn, hok | ⟨e, herror⟩⟩ := writeSpan_cases hs bs off
  · have hspan : Action.ofIo (writeSpan bs off) s = .ok k t := by
      simp only [Action.ofIo, hok]
    unfold writeWhole
    rw [Action.bind_of_ok hspan]
    by_cases hk : k = bs.length
    · rw [if_pos hk]
      exact .inl ⟨t, rfl, hk ▸ htorn⟩
    · rw [if_neg hk]
      exact .inr ⟨_, k, t, rfl, htorn, rfl⟩
  · have hspan : Action.ofIo (writeSpan bs off) s = .error (.io e) t := by
      simp only [Action.ofIo, herror]
    unfold writeWhole
    rw [Action.bind_of_error hspan]
    exact .inr ⟨_, k, t, rfl, htorn, rfl⟩

theorem writeWhole_of_room (hs : s.Readable) (hplan : s.plannedWrites = []) {bs : Bytes}
    {off : Nat} (hroom : s.HasRoom off bs.length) :
    writeWhole bs off s = .ok () (s.after (s.contents.write off bs) []) := by
  have hspan : Action.ofIo (writeSpan bs off) s =
      .ok bs.length (s.after (s.contents.write off bs) []) := by
    simp only [Action.ofIo, writeSpan_of_room hs hplan hroom]
  unfold writeWhole
  rw [Action.bind_of_ok hspan, if_pos rfl]
  rfl

theorem writeWhole_of_plain (hs : s.Plain) (bs : Bytes) (off : Nat) :
    writeWhole bs off s = .ok () (s.withContents (s.contents.write off bs)) := by
  have hspan : Action.ofIo (writeSpan bs off) s =
      .ok bs.length (s.withContents (s.contents.write off bs)) := by
    simp only [Action.ofIo, hs.writeSpan_eq]
  unfold writeWhole
  rw [Action.bind_of_ok hspan, if_pos rfl]
  rfl

theorem readWhole_of_readable (hs : s.Readable) {len off : Nat} (h : off + len ≤ s.contents.size) :
    readWhole len off s = .ok (s.contents.window off len) s := by
  have hspan : Action.ofIo (readSpan len off) s = .ok (s.contents.window off len) s := by
    simp only [Action.ofIo, hs.readSpan_eq, Contents.read_eq_window h]
  unfold readWhole
  rw [Action.bind_of_ok hspan, if_pos (Contents.length_window _ _ _)]
  rfl

theorem readWhole_of_short (hs : s.Readable) {len off : Nat} (hlen : 0 < len)
    (h : s.contents.size < off + len) :
    readWhole len off s =
      .error (.incompleteValue len (min len (s.contents.size - off))) s := by
  have hspan : Action.ofIo (readSpan len off) s = .ok (s.contents.read off len) s := by
    simp only [Action.ofIo, hs.readSpan_eq]
  unfold readWhole
  rw [Action.bind_of_ok hspan, Contents.length_read, if_neg (by omega)]
  rfl

end Segment

end AppendStore
