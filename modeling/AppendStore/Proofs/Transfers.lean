import AppendStore.Proofs.Agreement
import AppendStore.Proofs.ByteStore.Calls
import AppendStore.Proofs.Segment.Alike
import AppendStore.ValueFile.Basic

/-!
# Transfers behind segments and value files

`Splits` is a way in which the calls of a store are cut into pieces and interrupted, none of
them empty and none of them failed. Two stores that are the same up to that are `Resplit`.
A full transfer on one of them comes to the same as on the other, and segments and value
files transfer in no other way, so no answer of theirs tells the two apart: neither of an
operation (`Segment.agree_perform`, `ValueFile.agree_perform`) nor of a whole run in which
each operation has calls of its own (`agree_serveAll`).

`full_transfers_hide_splits` states this next to what a full transfer does for any plan at all.
-/

namespace AppendStore

open AppendStore.Action

/-- A way in which the calls of a store are split and interrupted. -/
structure Splits where
  reads : List Outcome
  writes : List Outcome
  passing : ∀ o ∈ reads ++ writes, o.Passing

namespace ByteStore

def split (p : Splits) (s : ByteStore) : ByteStore :=
  { s with plannedReads := p.reads, plannedWrites := p.writes }

/-- The calls of the store are split and interrupted, and nothing worse. -/
structure Passing (s : ByteStore) : Prop where
  reads : ∀ o ∈ s.plannedReads, o.Passing
  writes : ∀ o ∈ s.plannedWrites, o.Passing

theorem passing_split (p : Splits) (s : ByteStore) : (s.split p).Passing :=
  ⟨fun o ho => p.passing o (List.mem_append_left _ ho),
    fun o ho => p.passing o (List.mem_append_right _ ho)⟩

/-- The stores are the same, except for how their calls are split and what they have recorded. -/
structure Resplit (s t : ByteStore) : Prop where
  contents : s.contents = t.contents
  limit : s.limit = t.limit
  durability : s.durability = t.durability
  reportedSize : s.reportedSize = t.reportedSize
  passing_left : s.Passing
  passing_right : t.Passing

theorem Passing.gave {s t : ByteStore} (h : s.Passing) {off len n : Nat} {calls : List Call}
    (hgave : s.Gave off len n calls t) : t.Passing := by
  obtain ⟨plan, hplan, rfl⟩ := hgave.eq
  exact ⟨fun o ho => h.reads o (hplan.subset ho), h.writes⟩

theorem Passing.wrote {s t : ByteStore} (h : s.Passing) {off n : Nat} {bs : Bytes}
    {calls : List Call} (hwrote : s.Wrote off bs n calls t) : t.Passing := by
  obtain ⟨plan, hplan, rfl⟩ := hwrote.eq
  exact ⟨h.reads, fun o ho => h.writes o (hplan.subset ho)⟩

namespace Resplit

variable {s s' t t' : ByteStore} {off n : Nat} {bs : Bytes} {calls calls' : List Call}

theorem size_eq (h : Resplit s t) : s.size = t.size := by
  rw [size, size, h.reportedSize, h.contents]

theorem record (h : Resplit s t) (call call' : Call) :
    Resplit (s.record call) (t.record call') :=
  ⟨h.contents, h.limit, h.durability, h.reportedSize,
    ⟨h.passing_left.reads, h.passing_left.writes⟩,
    ⟨h.passing_right.reads, h.passing_right.writes⟩⟩

theorem gave (h : Resplit s t) {len : Nat} (hs : s.Gave off len n calls s')
    (ht : t.Gave off len n calls' t') : Resplit s' t' := by
  have hpass := h.passing_left.gave hs
  have hpass' := h.passing_right.gave ht
  obtain ⟨_, -, rfl⟩ := hs.eq
  obtain ⟨_, -, rfl⟩ := ht.eq
  exact ⟨h.contents, h.limit, h.durability, h.reportedSize, hpass, hpass'⟩

theorem wrote (h : Resplit s t) (hs : s.Wrote off bs n calls s') (ht : t.Wrote off bs n calls' t') :
    Resplit s' t' := by
  have hpass := h.passing_left.wrote hs
  have hpass' := h.passing_right.wrote ht
  have hcontents : s'.contents = t'.contents := by
    rw [hs.contents_eq, ht.contents_eq, h.contents]
  obtain ⟨_, -, rfl⟩ := hs.eq
  obtain ⟨_, -, rfl⟩ := ht.eq
  exact ⟨hcontents, h.limit, h.durability, h.reportedSize, hpass, hpass'⟩

end Resplit

theorem agree_readSpan (len off : Nat) : Agree Resplit (readSpan len off) (readSpan len off) := by
  intro s t h
  obtain ⟨calls, s', hs, hreads⟩ := readSpan_of_passing h.passing_left.reads len off
  obtain ⟨calls', t', ht, hreadt⟩ := readSpan_of_passing h.passing_right.reads len off
  rw [← h.contents] at ht hreadt
  rw [hreads, hreadt]
  exact .ok _ (h.gave hs ht)

theorem agree_writeSpan (bs : Bytes) (off : Nat) :
    Agree Resplit (writeSpan bs off) (writeSpan bs off) := by
  intro s t h
  have hfit : t.fitting off bs = s.fitting off bs := by rw [fitting, fitting, h.limit]
  obtain ⟨calls, s', hs, hwrites⟩ := writeSpan_of_passing h.passing_left.writes bs off
  obtain ⟨calls', t', ht, hwritet⟩ := writeSpan_of_passing h.passing_right.writes bs off
  rw [hfit] at ht hwritet
  rw [hwrites, hwritet]
  exact .ok _ (h.wrote hs ht)

theorem agree_sync : Agree Resplit sync sync := by
  intro s t h
  unfold sync
  rw [← h.durability]
  split
  · exact .ok () h
  · exact .ok () (h.record .sync .sync)
  · exact .error _ (h.record .sync .sync)

end ByteStore

open ByteStore

abbrev OverResplit {σ : Type} : Over σ ByteStore → Over σ ByteStore → Prop :=
  Over.Related Resplit

namespace Segment

theorem agree_writeWhole (bs : Bytes) (off : Nat) :
    Agree Resplit (writeWhole bs off) (writeWhole bs off) := by
  refine (agree_writeSpan bs off).ofIo.bind fun n => ?_
  split
  · exact .pure ()
  · exact .throw _

theorem agree_readWhole (len off : Nat) :
    Agree Resplit (readWhole len off) (readWhole len off) := by
  refine (agree_readSpan len off).ofIo.bind fun bs => ?_
  split
  · exact .pure bs
  · exact .throw _

theorem agree_start (id : UInt64) (capacity : UInt32) :
    Agree Resplit (start id capacity) (start id capacity) := by
  unfold start
  split
  · exact (agree_writeWhole _ _).bind fun _ => .pure _
  · exact .throw _

theorem agree_resume (id : UInt64) : Agree Resplit (resume id) (resume id) := by
  refine .get_bind fun s t h => ?_
  rw [h.size_eq]
  split
  · exact .error _ h
  · refine (agree_readWhole wordSize 0).bind (fun word => ?_) h
    dsimp only
    split
    · exact agree_start _ _
    · exact .ofExcept _

theorem agree_attach (id : UInt64) (capacity : UInt32) :
    Agree Resplit (attach id capacity) (attach id capacity) := by
  refine .get_bind fun s t h => ?_
  rw [h.size_eq]
  split
  · exact agree_start id capacity h
  · exact agree_resume id h

theorem agree_claim (n : Nat) : Agree OverResplit (claim n) (claim n) := by
  intro o o' h
  unfold claim
  rw [item_bind, item_bind, h.item]
  by_cases hn : n < UInt32.size
  · rw [if_pos hn]
    generalize o'.item.cursors.claim _ _ = result
    obtain ⟨claim?, cursors⟩ := result
    refine (Agree.setItem _).bind (fun _ => ?_) h
    cases claim? with
    | some claim => exact .pure claim
    | none => exact .throw _
  · rw [if_neg hn]
    exact .error _ h

theorem agree_saveCursors : Agree OverResplit saveCursors saveCursors :=
  Agree.item.bind fun _ => (agree_writeWhole _ _).onBase.bind fun _ => .setItem _

theorem agree_saveMovedCursors : Agree OverResplit saveMovedCursors saveMovedCursors := by
  refine Agree.item.bind fun s => ?_
  split
  · exact agree_saveCursors
  · exact .pure _

theorem agree_append (t : Transaction) : Agree OverResplit (append t) (append t) :=
  (Agree.ofExcept _).bind fun body =>
    (agree_claim body.length).bind fun _ =>
      (agree_writeWhole body _).onBase.bind fun _ =>
        (agree_writeWhole _ _).onBase.bind fun _ =>
          agree_saveMovedCursors.bind fun _ => .pure _

theorem agree_sync : Agree OverResplit sync sync :=
  agree_saveCursors.bind fun _ => ByteStore.agree_sync.ofIo.onBase

theorem agree_headers : Agree OverResplit headers headers :=
  Agree.item.bind fun _ => (agree_readWhole _ _).onBase.bind fun _ => .pure _

theorem agree_transactionOf (h : RecordHeader) :
    Agree OverResplit (transactionOf h) (transactionOf h) := by
  refine Agree.item.bind fun s => ?_
  split
  · exact (agree_readWhole _ _).onBase.bind fun _ => .ofExcept _
  · exact .throw _

/-- No operation on a segment tells how the calls of its store are split. -/
theorem agree_perform (op : Operation) : Agree OverResplit op.perform op.perform := by
  cases op with
  | append t => exact (agree_append t).bind fun _ => .pure _
  | sync => exact agree_sync.bind fun _ => .pure _
  | headers => exact agree_headers.bind fun _ => .pure _
  | read h => exact (agree_transactionOf h).bind fun _ => .pure _

end Segment

namespace ValueFile

inductive Operation where
  | write (value : Bytes)
  | read (offset : UInt64) (size : Nat)
  | sync
  deriving DecidableEq

inductive Reply where
  | done
  | written (offset : UInt64)
  | value (value : Bytes)
  deriving DecidableEq

def Operation.perform : Operation → Action (Over ValueFile ByteStore) Reply
  | write value => do return .written (← ValueFile.write value)
  | read offset size => do return .value (← ValueFile.read offset size)
  | sync => do
    ValueFile.sync
    return .done

theorem agree_attach (id : UInt64) : Agree Resplit (attach id) (attach id) := by
  intro s t h
  rw [attach, attach, opened, opened, h.size_eq]
  exact .ok _ h

theorem agree_claim (n : Nat) : Agree OverResplit (claim n) (claim n) :=
  Agree.item.bind fun _ => (Agree.setItem _).bind fun _ => .pure _

theorem agree_write (value : Bytes) : Agree OverResplit (write value) (write value) := by
  refine (agree_claim _).bind fun offset => (Agree.ofExcept _).bind fun checksum =>
    (agree_writeSpan _ _).ofIo.onBase.bind fun n => ?_
  split
  · exact .pure _
  · exact .throw _

theorem agree_read (offset : UInt64) (size : Nat) :
    Agree OverResplit (read offset size) (read offset size) := by
  refine .get_bind fun s t h => ?_
  rw [h.base.size_eq]
  split
  · exact .error _ h
  · refine (agree_readSpan _ _).ofIo.onBase.bind (fun record => ?_) h
    split
    · exact .throw _
    · exact .ofExcept _

/-- No operation on a value file tells how the calls of its store are split. -/
theorem agree_perform (op : Operation) : Agree OverResplit op.perform op.perform := by
  cases op with
  | write value => exact (agree_write value).bind fun _ => .pure _
  | read offset size => exact (agree_read offset size).bind fun _ => .pure _
  | sync => exact ByteStore.agree_sync.ofIo.onBase.bind fun _ => .pure _

end ValueFile

section Runs

variable {Op Reply σ : Type}

def splitCalls (p : Splits) : Action ByteStore Unit := fun s => .ok () (s.split p)

/-- Performs operations one after the other, the calls of each split in its own way. The answers
of those that fail are errors, and the others go on. -/
def serveAll (perform : Op → Action (Over σ ByteStore) Reply) :
    List (Op × Splits) → Action (Over σ ByteStore) (List (Except StoreError Reply))
  | [] => return []
  | (op, p) :: rest => do
    onBase (splitCalls p)
    let reply ← attempt (perform op)
    return reply :: (← serveAll perform rest)

theorem agree_splitCalls (p q : Splits) : Agree Resplit (splitCalls p) (splitCalls q) :=
  fun s t h => .ok () ⟨h.contents, h.limit, h.durability, h.reportedSize, passing_split p s,
    passing_split q t⟩

/-- If no operation tells how calls are split, no run of operations does. -/
theorem agree_serveAll {perform : Op → Action (Over σ ByteStore) Reply}
    (hperform : ∀ op, Agree OverResplit (perform op) (perform op))
    (ops : List (Op × Splits × Splits)) :
    Agree OverResplit (serveAll perform (ops.map fun o => (o.1, o.2.1)))
      (serveAll perform (ops.map fun o => (o.1, o.2.2))) := by
  induction ops with
  | nil => exact .pure _
  | cons o rest ih =>
    obtain ⟨op, p, q⟩ := o
    exact (agree_splitCalls p q).onBase.bind fun _ => (hperform op).attempt.bind fun _ =>
      ih.bind fun _ => .pure _

end Runs

/-- Full transfers hide how the store splits them.

Whatever the plan, a full write leaves one write of a start of its bytes behind, and a full read
fills a start of the buffer and nothing more of it. They stop early only at a call that moves
nothing, and fail only if a call is planned to fail for good, never with an interruption. Segments
and value files therefore answer the same on stores that differ in splits and interruptions, in
every run. -/
theorem full_transfers_hide_splits :
    (∀ (s : ByteStore) (bs : Bytes) (off : Nat), ∃ n calls t,
      n ≤ bs.length ∧ t.contents = s.contents.write off (bs.take n) ∧
        t.trace = s.trace.map (calls ++ ·) ∧
        ((writeSpan bs off s = .ok n t ∧ (n = bs.length ∨ s.StopsShort off n calls)) ∨
          ∃ e, writeSpan bs off s = .error e t ∧ e.kind ≠ .interrupted ∧ n < bs.length ∧
            .failed ∈ s.plannedWrites)) ∧
    (∀ (s : ByteStore) (buf : Bytes) (off : Nat),
      readSpan buf.length off s = filled (readInto off ⟨buf, s⟩) ∧ ∃ n calls t,
        n ≤ min buf.length (s.contents.size - off) ∧ t.contents = s.contents ∧
          t.trace = s.trace.map (calls ++ ·) ∧
          ((readInto off ⟨buf, s⟩ = .ok n ⟨s.contents.read off n ++ buf.drop n, t⟩ ∧
              (n = min buf.length (s.contents.size - off) ∨ s.RunsDry calls)) ∨
            ∃ e, readInto off ⟨buf, s⟩ = .error e ⟨s.contents.read off n ++ buf.drop n, t⟩ ∧
              e.kind ≠ .interrupted ∧ n < buf.length ∧ .failed ∈ s.plannedReads)) ∧
    (∀ id capacity, Agree Resplit (Segment.attach id capacity) (Segment.attach id capacity)) ∧
    (∀ ops : List (Segment.Operation × Splits × Splits),
      Agree OverResplit
        (serveAll Segment.Operation.perform (ops.map fun o => (o.1, o.2.1)))
        (serveAll Segment.Operation.perform (ops.map fun o => (o.1, o.2.2)))) ∧
    (∀ id, Agree Resplit (ValueFile.attach id) (ValueFile.attach id)) ∧
    ∀ ops : List (ValueFile.Operation × Splits × Splits),
      Agree OverResplit
        (serveAll ValueFile.Operation.perform (ops.map fun o => (o.1, o.2.1)))
        (serveAll ValueFile.Operation.perform (ops.map fun o => (o.1, o.2.2))) := by
  refine ⟨fun s bs off => ?_, fun s buf off => ⟨readSpan_eq_readInto buf off s, ?_⟩,
    Segment.agree_attach, agree_serveAll Segment.agree_perform, ValueFile.agree_attach,
    agree_serveAll ValueFile.agree_perform⟩
  · have hends := s.writeSpan_ends bs off
    generalize writeSpan bs off s = result at hends ⊢
    cases hends with
    | ok wrote short =>
      exact ⟨_, _, _, wrote.le, wrote.contents_eq, wrote.trace_eq,
        .inl ⟨rfl, (Nat.eq_or_lt_of_le wrote.le).imp_right short⟩⟩
    | error wrote lt kind failed =>
      exact ⟨_, _, _, wrote.le, wrote.contents_eq, wrote.trace_eq,
        .inr ⟨_, rfl, kind, lt, failed⟩⟩
  · have hends := s.readInto_ends buf off
    generalize readInto off ⟨buf, s⟩ = result at hends ⊢
    cases hends with
    | ok gave dry =>
      have hle := Nat.le_min.2 ⟨gave.le, gave.available⟩
      exact ⟨_, _, _, hle, gave.contents_eq, gave.trace_eq,
        .inl ⟨rfl, (Nat.eq_or_lt_of_le hle).imp_right dry⟩⟩
    | error gave lt kind failed =>
      exact ⟨_, _, _, Nat.le_min.2 ⟨gave.le, gave.available⟩, gave.contents_eq, gave.trace_eq,
        .inr ⟨_, rfl, kind, lt, failed⟩⟩

end AppendStore
