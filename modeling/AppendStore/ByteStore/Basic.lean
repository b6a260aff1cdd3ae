import AppendStore.Contents
import AppendStore.StoreError

/-!
# Byte stores

A `ByteStore` is a file as its users see it: contents that are read and written
at positions. `readAt` and `writeAt` are single calls, which may transfer less
than they are asked for.

A store can be told how its next calls turn out. `plannedReads` and
`plannedWrites` are queues of outcomes, one for each coming call; a call beyond
the plan transfers all it can. `limit` bounds the contents, `reportedSize`
replaces the size that is reported, and `durability` says whether there is a
durable sync and whether it works. A store that keeps a `trace` records in it
every call that it answers. A store whose reads go by no plan is `Readable`: they
change nothing. With no plan or limit for its writes either it is `Plain`, and its
writes change the contents alone.
-/

namespace AppendStore

/-- How one planned call turns out. -/
inductive Outcome where
  /-- At most `n` bytes are transferred. -/
  | atMost (n : Nat)
  | interrupted
  | failed
  deriving DecidableEq, Repr

inductive Durability where
  | absent
  | works
  | fails
  deriving DecidableEq, Repr

/-- A call that a store has answered: where, how much was asked for, and the bytes moved or the
error. -/
inductive Call where
  | read (off asked : Nat) (moved : Except IoError Nat)
  | write (off asked : Nat) (moved : Except IoError Nat)
  | sync

/-- A file that is read and written at positions. -/
structure ByteStore where
  contents : Contents := .empty
  limit : Option Nat := none
  plannedReads : List Outcome := []
  plannedWrites : List Outcome := []
  durability : Durability := .absent
  reportedSize : Option UInt64 := none
  /-- The calls answered so far, the newest first, if the store records them. -/
  trace : Option (List Call) := none

namespace ByteStore

def ofBytes (bs : Bytes) : ByteStore := { contents := .ofBytes bs }

def bounded (limit : Nat) : ByteStore := { limit := some limit }

def onDisk (bs : Bytes) : ByteStore := { contents := .ofBytes bs, durability := .works }

def traced (s : ByteStore) : ByteStore := { s with trace := some [] }

def withContents (c : Contents) (s : ByteStore) : ByteStore := { s with contents := c }

/-- Nothing but the contents decides what reads of the store and its size tell. -/
structure Readable (s : ByteStore) : Prop where
  plannedReads : s.plannedReads = []
  reportedSize : s.reportedSize = none
  trace : s.trace = none

/-- Nothing but the contents decides how the calls of the store turn out. -/
structure Plain (s : ByteStore) : Prop extends Readable s where
  limit : s.limit = none
  plannedWrites : s.plannedWrites = []

def size (s : ByteStore) : Nat :=
  match s.reportedSize with
  | some n => n.toNat
  | none => s.contents.size

def record (call : Call) (s : ByteStore) : ByteStore :=
  { s with trace := s.trace.map (call :: ·) }

def fitting (s : ByteStore) (off : Nat) (bs : Bytes) : Bytes :=
  match s.limit with
  | none => bs
  | some limit => bs.take (limit - off)

/-- The store after `bs` is written at `off` as far as the limit allows. Without a limit the
contents reach up to `off` even if `bs` is empty. -/
def put (off : Nat) (bs : Bytes) (s : ByteStore) : ByteStore :=
  match s.limit with
  | none => { s with contents := (s.contents.extend off).write off bs }
  | some _ => { s with contents := s.contents.write off (s.fitting off bs) }

def readAt (len off : Nat) : EStateM IoError ByteStore Bytes := fun s =>
  match s.plannedReads with
  | [] =>
    let bs := s.contents.read off len
    .ok bs (s.record (.read off len (.ok bs.length)))
  | .atMost n :: rest =>
    let bs := s.contents.read off (min len n)
    .ok bs ({ s with plannedReads := rest }.record (.read off len (.ok bs.length)))
  | .interrupted :: rest =>
    .error .interrupted
      ({ s with plannedReads := rest }.record (.read off len (.error .interrupted)))
  | .failed :: rest =>
    .error .failed ({ s with plannedReads := rest }.record (.read off len (.error .failed)))

/-- One call that writes bytes at `off`; it answers how many of them it has written. A planned
call that may transfer nothing does not reach the contents. -/
def writeAt (bs : Bytes) (off : Nat) : EStateM IoError ByteStore Nat := fun s =>
  match s.plannedWrites with
  | [] =>
    let n := (s.fitting off bs).length
    .ok n ((s.put off bs).record (.write off bs.length (.ok n)))
  | .atMost k :: rest =>
    let s := { s with plannedWrites := rest }
    let cut := bs.take k
    let n := (s.fitting off cut).length
    .ok n ((if cut.isEmpty then s else s.put off cut).record (.write off bs.length (.ok n)))
  | .interrupted :: rest =>
    .error .interrupted
      ({ s with plannedWrites := rest }.record (.write off bs.length (.error .interrupted)))
  | .failed :: rest =>
    .error .failed
      ({ s with plannedWrites := rest }.record (.write off bs.length (.error .failed)))

def sync : EStateM IoError ByteStore Unit := fun s =>
  match s.durability with
  | .absent => .ok () s
  | .works => .ok () (s.record .sync)
  | .fails => .error .syncFailed (s.record .sync)

theorem length_fitting_le (s : ByteStore) (off : Nat) (bs : Bytes) :
    (s.fitting off bs).length ≤ bs.length := by
  unfold fitting
  split
  · exact Nat.le_refl _
  · rw [List.length_take]
    exact Nat.min_le_right _ _

/-- A read never gives more than it was asked for, and uses up no more than its plan. -/
theorem readAt_ok {len off : Nat} {s s' : ByteStore} {bs : Bytes}
    (h : readAt len off s = .ok bs s') :
    bs.length ≤ len ∧ s'.plannedReads.length ≤ s.plannedReads.length := by
  unfold readAt at h
  split at h
  · simp only [EStateM.Result.ok.injEq] at h
    obtain ⟨rfl, rfl⟩ := h
    exact ⟨Contents.length_read_le _ _ _, Nat.le_refl _⟩
  · next n rest hplan =>
    simp only [EStateM.Result.ok.injEq] at h
    obtain ⟨rfl, rfl⟩ := h
    refine ⟨Nat.le_trans (Contents.length_read_le _ _ _) (Nat.min_le_left _ _), ?_⟩
    simp [record, hplan]
  all_goals simp at h

theorem readAt_error {len off : Nat} {s s' : ByteStore} {e : IoError}
    (h : readAt len off s = .error e s') :
    s'.plannedReads.length < s.plannedReads.length := by
  unfold readAt at h
  split at h
  · simp at h
  · simp at h
  all_goals
    next rest hplan =>
    simp only [EStateM.Result.error.injEq] at h
    obtain ⟨-, rfl⟩ := h
    simp [record, hplan]

@[simp] theorem plannedWrites_record (call : Call) (s : ByteStore) :
    (s.record call).plannedWrites = s.plannedWrites := rfl

@[simp] theorem plannedWrites_put (off : Nat) (bs : Bytes) (s : ByteStore) :
    (s.put off bs).plannedWrites = s.plannedWrites := by
  unfold put
  split <;> rfl

theorem writeAt_ok {bs : Bytes} {off n : Nat} {s s' : ByteStore}
    (h : writeAt bs off s = .ok n s') :
    n ≤ bs.length ∧ s'.plannedWrites.length ≤ s.plannedWrites.length := by
  unfold writeAt at h
  split at h
  · simp only [EStateM.Result.ok.injEq] at h
    obtain ⟨rfl, rfl⟩ := h
    exact ⟨length_fitting_le _ _ _, by simp⟩
  · next k rest hplan =>
    simp only [EStateM.Result.ok.injEq] at h
    obtain ⟨rfl, rfl⟩ := h
    refine ⟨Nat.le_trans (length_fitting_le _ _ _) (List.length_take_le' _ _), ?_⟩
    split <;> simp [hplan]
  all_goals simp at h

theorem writeAt_error {bs : Bytes} {off : Nat} {s s' : ByteStore} {e : IoError}
    (h : writeAt bs off s = .error e s') :
    s'.plannedWrites.length < s.plannedWrites.length := by
  unfold writeAt at h
  split at h
  · simp at h
  · simp at h
  all_goals
    next rest hplan =>
    simp only [EStateM.Result.error.injEq] at h
    obtain ⟨-, rfl⟩ := h
    simp [hplan]

end ByteStore

end AppendStore
