import AppendStore.Proofs.ByteStore.Buffer
import AppendStore.Proofs.Contents.Window

/-!
# The calls of a full transfer

A full transfer makes single calls until all is moved, and its store may cut any of them
short, interrupt it, or fail it. Whatever the plan of the store is, what has been done in the
end can be said in one step: `ByteStore.Wrote` is one write of a start of the bytes, and
`ByteStore.Gave` one read of a start of the range. Both also say which calls were made, so
that no byte outside the transfer's own range is touched on the way. How a transfer may end
is kept by one call more in front of it (`WriteEnds.after`, `ReadEnds.after`), so by induction
over the calls every transfer ends in one of these ways (`writeSpan_ends`, `readInto_ends`).

If every planned outcome is `Outcome.Passing`, no call moves nothing without a reason of its
own, and a full transfer moves all that there is to move (`readSpan_of_passing`,
`writeSpan_of_passing`).
-/

namespace AppendStore

namespace Call

def AsksIn (writes : Bool) (low high : Nat) : Call → Prop
  | write off asked _ => writes = true ∧ low ≤ off ∧ 0 < asked ∧ off + asked ≤ high
  | read off asked _ => writes = false ∧ low ≤ off ∧ 0 < asked ∧ off + asked ≤ high
  | sync => False

theorem AsksIn.mono {writes : Bool} {low low' high high' : Nat} {call : Call}
    (h : call.AsksIn writes low' high') (hlow : low ≤ low') (hhigh : high' ≤ high) :
    call.AsksIn writes low high := by
  cases call with
  | write off asked moved =>
    obtain ⟨hkind, hstart, hpos, hstop⟩ := h
    exact ⟨hkind, Nat.le_trans hlow hstart, hpos, Nat.le_trans hstop hhigh⟩
  | read off asked moved =>
    obtain ⟨hkind, hstart, hpos, hstop⟩ := h
    exact ⟨hkind, Nat.le_trans hlow hstart, hpos, Nat.le_trans hstop hhigh⟩
  | sync => exact h

end Call

/-- The outcome neither fails a call for good nor lets it move nothing. -/
def Outcome.Passing : Outcome → Prop
  | atMost n => n ≠ 0
  | interrupted => True
  | failed => False

instance : DecidablePred Outcome.Passing := fun o =>
  match o with
  | .atMost n => inferInstanceAs (Decidable (n ≠ 0))
  | .interrupted => isTrue trivial
  | .failed => isFalse id

namespace ByteStore

/-- The store with other contents and another plan of writes. -/
def after (c : Contents) (plan : List Outcome) (s : ByteStore) : ByteStore :=
  { s with contents := c, plannedWrites := plan }

def afterReads (plan : List Outcome) (s : ByteStore) : ByteStore :=
  { s with plannedReads := plan }

def recorded (calls : List Call) (s : ByteStore) : ByteStore :=
  { s with trace := s.trace.map (calls ++ ·) }

theorem recorded_recorded (calls more : List Call) (s : ByteStore) :
    (s.recorded calls).recorded more = s.recorded (more ++ calls) := by
  simp only [recorded, Option.map_map, ByteStore.mk.injEq, true_and]
  congr 1
  funext before
  exact (List.append_assoc _ _ _).symm

theorem recorded_nil (s : ByteStore) : s.recorded [] = s := by
  simp only [recorded, List.nil_append, Option.map_id']

theorem recorded_of_untraced {s : ByteStore} (h : s.trace = none) (calls : List Call) :
    s.recorded calls = s := by
  obtain ⟨_, _, _, _, _, _, _⟩ := s
  simp_all [recorded]

def HasRoom (s : ByteStore) (off len : Nat) : Prop :=
  ∀ limit, s.limit = some limit → off + len ≤ limit

theorem length_fitting_le_of_limit {s : ByteStore} {off limit : Nat} (bs : Bytes)
    (h : s.limit = some limit) (hpos : 0 < (s.fitting off bs).length) :
    off + (s.fitting off bs).length ≤ limit := by
  simp only [fitting, h, List.length_take] at hpos ⊢
  omega

theorem fitting_eq_take (s : ByteStore) (off : Nat) (bs : Bytes) :
    s.fitting off bs = bs.take (s.fitting off bs).length := by
  unfold fitting
  split
  · rw [List.take_length]
  · rw [List.length_take, ← List.take_eq_take_min]

theorem not_hasRoom_of_fitting {s : ByteStore} {off : Nat} {bs : Bytes} (hbs : bs ≠ [])
    (h : (s.fitting off bs).length = 0) : ¬ s.HasRoom off 1 := by
  have hpos := List.length_pos_iff.2 hbs
  unfold fitting at h
  split at h
  · omega
  · next limit hlimit =>
    intro hroom
    have := hroom limit hlimit
    rw [List.length_take] at h
    omega

theorem put_eq (s : ByteStore) (off : Nat) {bs : Bytes} (h : bs ≠ []) :
    s.put off bs = s.after (s.contents.write off (s.fitting off bs)) s.plannedWrites := by
  unfold put fitting
  split
  · rw [Contents.write_extend h]
    rfl
  · rfl

/-- The store `t` is `s` after the given calls have written the first `n` bytes of `bs` at
`off`. -/
structure Wrote (s : ByteStore) (off : Nat) (bs : Bytes) (n : Nat) (calls : List Call)
    (t : ByteStore) : Prop where
  le : n ≤ bs.length
  room : 0 < n → s.HasRoom off n
  within : ∀ call ∈ calls, call.AsksIn true off (off + bs.length)
  eq : ∃ plan, plan <:+ s.plannedWrites ∧
    t = (s.after (s.contents.write off (bs.take n)) plan).recorded calls

namespace Wrote

variable {s t u : ByteStore} {off n m : Nat} {bs : Bytes} {calls more : List Call}
  {plan : List Outcome}

theorem contents_eq (h : s.Wrote off bs n calls t) :
    t.contents = s.contents.write off (bs.take n) := by
  obtain ⟨plan, -, rfl⟩ := h.eq
  rfl

theorem limit_eq (h : s.Wrote off bs n calls t) : t.limit = s.limit := by
  obtain ⟨plan, -, rfl⟩ := h.eq
  rfl

theorem trace_eq (h : s.Wrote off bs n calls t) : t.trace = s.trace.map (calls ++ ·) := by
  obtain ⟨plan, -, rfl⟩ := h.eq
  rfl

theorem plannedWrites_subset (h : s.Wrote off bs n calls t) :
    t.plannedWrites ⊆ s.plannedWrites := by
  obtain ⟨plan, hplan, rfl⟩ := h.eq
  exact hplan.subset

theorem hasRoom_iff (h : s.Wrote off bs n calls t) (off len : Nat) :
    t.HasRoom off len ↔ s.HasRoom off len := by
  rw [HasRoom, HasRoom, h.limit_eq]

theorem nothing (hplan : plan <:+ s.plannedWrites)
    (hcalls : ∀ call ∈ calls, call.AsksIn true off (off + bs.length)) :
    s.Wrote off bs 0 calls ((s.after s.contents plan).recorded calls) :=
  ⟨Nat.zero_le _, fun h => absurd h (Nat.lt_irrefl 0), hcalls, plan, hplan, rfl⟩

theorem refl (s : ByteStore) (off : Nat) (bs : Bytes) : s.Wrote off bs 0 [] s :=
  ⟨Nat.zero_le _, fun h => absurd h (Nat.lt_irrefl 0), fun _ h => absurd h List.not_mem_nil,
    s.plannedWrites, List.suffix_refl _, (recorded_nil s).symm⟩

/-- A write that is taken up where it stopped is one write. -/
theorem trans (h : s.Wrote off bs n calls t) (h' : t.Wrote (off + n) (bs.drop n) m more u) :
    s.Wrote off bs (n + m) (more ++ calls) u := by
  have hle := h.le
  have hle' := h'.le
  rw [List.length_drop] at hle'
  refine ⟨by omega, ?_, ?_, ?_⟩
  · intro hpos limit hlimit
    rcases Nat.eq_zero_or_pos m with rfl | hm
    · exact h.room hpos limit hlimit
    · have hroom := h'.room hm limit (h.limit_eq ▸ hlimit)
      omega
  · intro call hcall
    rcases List.mem_append.1 hcall with hmore | hcalls
    · refine (h'.within call hmore).mono (Nat.le_add_right _ _) ?_
      rw [List.length_drop]
      omega
    · exact h.within call hcalls
  · obtain ⟨plan, hplan, rfl⟩ := h.eq
    obtain ⟨plan', hplan', rfl⟩ := h'.eq
    refine ⟨plan', hplan'.trans hplan, ?_⟩
    have hlen : (bs.take n).length = n := by
      rw [List.length_take]
      exact Nat.min_eq_left h.le
    have hjoin := Contents.write_write_append s.contents off (bs.take n) ((bs.drop n).take m)
    rw [hlen, ← List.take_add] at hjoin
    rw [← recorded_recorded]
    simp only [recorded, after, hjoin]

end Wrote

variable {s : ByteStore}

theorem wrote_put {plan : List Outcome} (hplan : plan <:+ s.plannedWrites) {bs cut : Bytes}
    {off : Nat} (hcut : cut ≠ []) (hstart : cut <+: bs) {calls : List Call}
    (hcalls : ∀ call ∈ calls, call.AsksIn true off (off + bs.length)) :
    s.Wrote off bs (s.fitting off cut).length calls
      (((s.after s.contents plan).put off cut).recorded calls) := by
  have hfit : s.fitting off cut <+: bs := by
    rw [s.fitting_eq_take off cut]
    exact (List.take_prefix _ cut).trans hstart
  refine ⟨hfit.length_le, ?_, hcalls, plan, hplan, ?_⟩
  · intro hpos limit hlimit
    exact length_fitting_le_of_limit _ hlimit hpos
  · rw [put_eq _ off hcut, ← List.prefix_iff_eq_take.1 hfit]
    rfl

/-- A single call writes a start of its bytes and says how much, or fails and writes nothing. -/
theorem writeAt_wrote (s : ByteStore) {bs : Bytes} (hbs : bs ≠ []) (off : Nat) :
    match writeAt bs off s with
    | .ok n t => s.Wrote off bs n [.write off bs.length (.ok n)] t ∧
        (n = 0 → .atMost 0 ∈ s.plannedWrites ∨ ¬ s.HasRoom off 1)
    | .error e t => s.Wrote off bs 0 [.write off bs.length (.error e)] t ∧
        (e.kind = .interrupted ∨ .failed ∈ s.plannedWrites) := by
  have hcalls : ∀ moved, ∀ call ∈ [Call.write off bs.length moved],
      call.AsksIn true off (off + bs.length) := by
    intro moved call hcall
    rw [List.mem_singleton.1 hcall]
    exact ⟨rfl, Nat.le_refl _, List.length_pos_iff.2 hbs, Nat.le_refl _⟩
  unfold writeAt
  cases hplan : s.plannedWrites with
  | nil =>
    exact ⟨wrote_put (List.suffix_refl _) hbs (List.prefix_refl bs) (hcalls _),
      fun hzero => .inr (not_hasRoom_of_fitting hbs hzero)⟩
  | cons outcome plan =>
    have hsuffix : plan <:+ s.plannedWrites := hplan ▸ List.suffix_cons _ _
    cases outcome with
    | atMost k =>
      dsimp only
      split
      · next hcut =>
        have hk : k = 0 := (List.take_eq_nil_iff.1 (List.isEmpty_iff.1 hcut)).resolve_right hbs
        have hzero : (fitting { s with plannedWrites := plan } off (bs.take k)).length = 0 := by
          rw [List.isEmpty_iff.1 hcut]
          exact Nat.le_zero.1 (length_fitting_le _ off [])
        rw [hzero]
        exact ⟨.nothing hsuffix (hcalls _), fun _ => .inl (hk ▸ List.mem_cons_self)⟩
      · next hcut =>
        have hne : bs.take k ≠ [] := mt List.isEmpty_iff.2 hcut
        exact ⟨wrote_put hsuffix hne (List.take_prefix k bs) (hcalls _),
          fun hzero => .inr (not_hasRoom_of_fitting hne hzero)⟩
    | interrupted => exact ⟨.nothing hsuffix (hcalls _), .inl rfl⟩
    | failed => exact ⟨.nothing hsuffix (hcalls _), .inr List.mem_cons_self⟩

/-- Why a full write may stop after `n` bytes without an error: a call has moved nothing, since
it was planned to, or since the limit was reached. -/
def StopsShort (s : ByteStore) (off n : Nat) (calls : List Call) : Prop :=
  (∃ off' asked, .write off' asked (.ok 0) ∈ calls) ∧
    (.atMost 0 ∈ s.plannedWrites ∨ ¬ s.HasRoom (off + n) 1)

theorem StopsShort.after_wrote {t : ByteStore} {off n m : Nat} {bs : Bytes}
    {calls more : List Call} (hwrote : s.Wrote off bs n calls t)
    (h : t.StopsShort (off + n) m more) : s.StopsShort off (n + m) (more ++ calls) := by
  obtain ⟨⟨off', asked, hcall⟩, hplan | hroom⟩ := h
  · exact ⟨⟨off', asked, List.mem_append_left _ hcall⟩, .inl (hwrote.plannedWrites_subset hplan)⟩
  · refine ⟨⟨off', asked, List.mem_append_left _ hcall⟩, .inr ?_⟩
    rwa [← Nat.add_assoc, ← hwrote.hasRoom_iff]

/-- How a full write may end: it answers how much of the start of its bytes it has written, or it
gives up before the end with an error that is no interruption. -/
inductive WriteEnds (s : ByteStore) (off : Nat) (bs : Bytes) :
    EStateM.Result IoError ByteStore Nat → Prop
  | ok {n : Nat} {calls : List Call} {t : ByteStore} (wrote : s.Wrote off bs n calls t)
      (short : n < bs.length → s.StopsShort off n calls) : WriteEnds s off bs (.ok n t)
  | error {e : IoError} {n : Nat} {calls : List Call} {t : ByteStore}
      (wrote : s.Wrote off bs n calls t) (lt : n < bs.length) (kind : e.kind ≠ .interrupted)
      (failed : .failed ∈ s.plannedWrites) : WriteEnds s off bs (.error e t)

def plus (n : Nat) : EStateM.Result IoError ByteStore Nat → EStateM.Result IoError ByteStore Nat
  | .ok m t => .ok (n + m) t
  | .error e t => .error e t

theorem plus_zero (result : EStateM.Result IoError ByteStore Nat) : plus 0 result = result := by
  cases result with
  | ok m t => rw [plus, Nat.zero_add]
  | error e t => rfl

/-- One call more in front of a write makes no difference to how it may end. -/
theorem WriteEnds.after {t : ByteStore} {off n : Nat} {bs : Bytes} {calls : List Call}
    {result : EStateM.Result IoError ByteStore Nat} (hwrote : s.Wrote off bs n calls t)
    (h : t.WriteEnds (off + n) (bs.drop n) result) : s.WriteEnds off bs (plus n result) := by
  cases h with
  | ok wrote short =>
    rw [List.length_drop] at short
    exact .ok (hwrote.trans wrote) fun hlt => (short (by omega)).after_wrote hwrote
  | error wrote lt kind failed =>
    rw [List.length_drop] at lt
    exact .error (hwrote.trans wrote) (by omega) kind (hwrote.plannedWrites_subset failed)

/-- Whatever the plan of a store, a full write is one write of a start of its bytes. -/
theorem writeSpan_ends (s : ByteStore) (bs : Bytes) (off : Nat) :
    s.WriteEnds off bs (writeSpan bs off s) := by
  simp only [writeSpan]
  fun_induction writeSpanFrom s bs off with
  | case1 s off => exact .ok (.refl s off []) fun hlt => absurd hlt (Nat.lt_irrefl 0)
  | case2 s bs off hbs t hwrite =>
    have hcall := s.writeAt_wrote hbs off
    rw [hwrite] at hcall
    exact .ok hcall.1 fun _ => ⟨⟨off, bs.length, List.mem_cons_self⟩, hcall.2 rfl⟩
  | case3 s bs off hbs n t hwrite hn more u hrest ih =>
    have hcall := s.writeAt_wrote hbs off
    rw [hwrite] at hcall
    rw [hrest] at ih
    exact ih.after hcall.1
  | case4 s bs off hbs n t hwrite hn e u hrest ih =>
    have hcall := s.writeAt_wrote hbs off
    rw [hwrite] at hcall
    rw [hrest] at ih
    exact ih.after hcall.1
  | case5 s bs off hbs e t hwrite hkind ih =>
    have hcall := s.writeAt_wrote hbs off
    rw [hwrite] at hcall
    rw [← plus_zero (writeSpanFrom t bs off)]
    exact WriteEnds.after hcall.1 ih
  | case6 s bs off hbs e t hwrite hkind =>
    have hcall := s.writeAt_wrote hbs off
    rw [hwrite] at hcall
    exact .error hcall.1 (List.length_pos_iff.2 hbs) hkind (hcall.2.resolve_left hkind)

/-- A full write that may pass writes everything that the limit leaves room for. -/
theorem writeSpan_of_passing (hpass : ∀ o ∈ s.plannedWrites, o.Passing) (bs : Bytes) (off : Nat) :
    ∃ calls t, s.Wrote off bs (s.fitting off bs).length calls t ∧
      writeSpan bs off s = .ok (s.fitting off bs).length t := by
  have hends := s.writeSpan_ends bs off
  generalize hresult : writeSpan bs off s = result at hends
  cases hends with
  | @ok n calls t hwrote hshort =>
    have hn : n = (s.fitting off bs).length := by
      have hle := hwrote.le
      have hroom := hwrote.room
      have hstop : n < bs.length → ¬ s.HasRoom (off + n) 1 := fun hlt =>
        (hshort hlt).2.resolve_left fun hplan => hpass _ hplan rfl
      cases hlimit : s.limit with
      | none =>
        have hnone : ∀ off len, s.HasRoom off len := fun off len limit h => by
          rw [hlimit] at h
          cases h
        rw [fitting, hlimit]
        exact Nat.le_antisymm hle (Nat.not_lt.1 fun hlt => hstop hlt (hnone _ _))
      | some limit =>
        have hiff : ∀ off len, s.HasRoom off len ↔ off + len ≤ limit := fun off len =>
          ⟨fun h => h limit hlimit, fun h limit' h' => by rw [hlimit] at h'; cases h'; exact h⟩
        rw [fitting, hlimit, List.length_take]
        rw [hiff] at hroom hstop
        omega
    exact ⟨calls, t, hn ▸ hwrote, hn ▸ rfl⟩
  | error _ _ _ hfailed => exact (hpass _ hfailed).elim

/-- The store `t` is `s` after the given calls have read the first `n` of the `len` bytes at
`off`. -/
structure Gave (s : ByteStore) (off len n : Nat) (calls : List Call) (t : ByteStore) : Prop where
  le : n ≤ len
  available : n ≤ s.contents.size - off
  within : ∀ call ∈ calls, call.AsksIn false off (off + len)
  eq : ∃ plan, plan <:+ s.plannedReads ∧ t = (s.afterReads plan).recorded calls

namespace Gave

variable {t u : ByteStore} {off len n m : Nat} {calls more : List Call} {plan : List Outcome}

theorem contents_eq (h : s.Gave off len n calls t) : t.contents = s.contents := by
  obtain ⟨plan, -, rfl⟩ := h.eq
  rfl

theorem trace_eq (h : s.Gave off len n calls t) : t.trace = s.trace.map (calls ++ ·) := by
  obtain ⟨plan, -, rfl⟩ := h.eq
  rfl

theorem plannedReads_subset (h : s.Gave off len n calls t) : t.plannedReads ⊆ s.plannedReads := by
  obtain ⟨plan, hplan, rfl⟩ := h.eq
  exact hplan.subset

theorem nothing (hplan : plan <:+ s.plannedReads)
    (hcalls : ∀ call ∈ calls, call.AsksIn false off (off + len)) :
    s.Gave off len 0 calls ((s.afterReads plan).recorded calls) :=
  ⟨Nat.zero_le _, Nat.zero_le _, hcalls, plan, hplan, rfl⟩

theorem refl (s : ByteStore) (off len : Nat) : s.Gave off len 0 [] s :=
  ⟨Nat.zero_le _, Nat.zero_le _, fun _ h => absurd h List.not_mem_nil, s.plannedReads,
    List.suffix_refl _, (recorded_nil s).symm⟩

theorem trans (h : s.Gave off len n calls t) (h' : t.Gave (off + n) (len - n) m more u) :
    s.Gave off len (n + m) (more ++ calls) u := by
  have hle := h.le
  have hle' := h'.le
  have havailable := h.available
  have havailable' := h'.available
  rw [h.contents_eq] at havailable'
  refine ⟨by omega, by omega, ?_, ?_⟩
  · intro call hcall
    rcases List.mem_append.1 hcall with hmore | hcalls
    · exact (h'.within call hmore).mono (Nat.le_add_right _ _) (by omega)
    · exact h.within call hcalls
  · obtain ⟨plan, hplan, rfl⟩ := h.eq
    obtain ⟨plan', hplan', rfl⟩ := h'.eq
    refine ⟨plan', hplan'.trans hplan, ?_⟩
    rw [← recorded_recorded]
    rfl

theorem read_append (h : s.Gave off len n calls t) (buf : Bytes) (m : Nat) :
    s.contents.read off n ++ (t.contents.read (off + n) m ++ (buf.drop n).drop m) =
      s.contents.read off (n + m) ++ buf.drop (n + m) := by
  rw [h.contents_eq, Contents.read_add _ h.available, List.drop_drop, List.append_assoc]

end Gave

theorem gave_read {plan : List Outcome} (hplan : plan <:+ s.plannedReads) {off len k : Nat}
    (hk : k ≤ len) {calls : List Call}
    (hcalls : ∀ call ∈ calls, call.AsksIn false off (off + len)) :
    s.Gave off len (s.contents.read off k).length calls ((s.afterReads plan).recorded calls) := by
  have hlength := s.contents.length_read off k
  exact ⟨by omega, by omega, hcalls, plan, hplan, rfl⟩

theorem readAt_gave (s : ByteStore) {len : Nat} (hlen : 0 < len) (off : Nat) :
    match readAt len off s with
    | .ok bs t => s.Gave off len bs.length [.read off len (.ok bs.length)] t ∧
        s.contents.read off bs.length = bs ∧
        (bs = [] → s.contents.size ≤ off ∨ .atMost 0 ∈ s.plannedReads)
    | .error e t => s.Gave off len 0 [.read off len (.error e)] t ∧
        (e.kind = .interrupted ∨ .failed ∈ s.plannedReads) := by
  have hcalls : ∀ moved, ∀ call ∈ [Call.read off len moved], call.AsksIn false off (off + len) := by
    intro moved call hcall
    rw [List.mem_singleton.1 hcall]
    exact ⟨rfl, Nat.le_refl _, hlen, Nat.le_refl _⟩
  have hempty : ∀ k, s.contents.read off k = [] → s.contents.size ≤ off ∨ k = 0 := by
    intro k h
    have hlength := s.contents.length_read off k
    rw [h, List.length_nil] at hlength
    omega
  unfold readAt
  cases hplan : s.plannedReads with
  | nil =>
    exact ⟨gave_read (List.suffix_refl _) (Nat.le_refl len) (hcalls _),
      (Contents.read_eq_read_length _ _ _).symm,
      fun h => .inl ((hempty len h).resolve_right (Nat.ne_of_gt hlen))⟩
  | cons outcome plan =>
    have hsuffix : plan <:+ s.plannedReads := hplan ▸ List.suffix_cons _ _
    cases outcome with
    | atMost k =>
      refine ⟨gave_read hsuffix (Nat.min_le_left len k) (hcalls _),
        (Contents.read_eq_read_length _ _ _).symm, fun h => (hempty _ h).imp id fun hzero => ?_⟩
      obtain rfl : k = 0 := by omega
      exact List.mem_cons_self
    | interrupted => exact ⟨.nothing hsuffix (hcalls _), .inl rfl⟩
    | failed => exact ⟨.nothing hsuffix (hcalls _), .inr List.mem_cons_self⟩

/-- Why a full read may stop before the end without an error: a call was planned to move nothing,
and it did so although there was something to read. -/
def RunsDry (s : ByteStore) (calls : List Call) : Prop :=
  (∃ off asked, off < s.contents.size ∧ .read off asked (.ok 0) ∈ calls) ∧
    .atMost 0 ∈ s.plannedReads

theorem RunsDry.after_gave {t : ByteStore} {off len n : Nat} {calls more : List Call}
    (hgave : s.Gave off len n calls t) (h : t.RunsDry more) : s.RunsDry (more ++ calls) := by
  obtain ⟨⟨off', asked, hoff, hcall⟩, hplan⟩ := h
  rw [hgave.contents_eq] at hoff
  exact ⟨⟨off', asked, hoff, List.mem_append_left _ hcall⟩, hgave.plannedReads_subset hplan⟩

/-- How a full read into a buffer may end: it fills a start of the buffer and leaves the rest as it
was, and it answers how long that start is, or gives up before the end with an error that is no
interruption. -/
inductive ReadEnds (s : ByteStore) (off : Nat) (buf : Bytes) :
    EStateM.Result IoError (Over Bytes ByteStore) Nat → Prop
  | ok {n : Nat} {calls : List Call} {t : ByteStore} (gave : s.Gave off buf.length n calls t)
      (dry : n < min buf.length (s.contents.size - off) → s.RunsDry calls) :
      ReadEnds s off buf (.ok n ⟨s.contents.read off n ++ buf.drop n, t⟩)
  | error {e : IoError} {n : Nat} {calls : List Call} {t : ByteStore}
      (gave : s.Gave off buf.length n calls t) (lt : n < buf.length)
      (kind : e.kind ≠ .interrupted) (failed : .failed ∈ s.plannedReads) :
      ReadEnds s off buf (.error e ⟨s.contents.read off n ++ buf.drop n, t⟩)

def behind (bs : Bytes) : EStateM.Result IoError (Over Bytes ByteStore) Nat →
    EStateM.Result IoError (Over Bytes ByteStore) Nat
  | .ok m o => .ok (bs.length + m) ⟨bs ++ o.item, o.base⟩
  | .error e o => .error e ⟨bs ++ o.item, o.base⟩

theorem behind_nil (result : EStateM.Result IoError (Over Bytes ByteStore) Nat) :
    behind [] result = result := by
  cases result with
  | ok m o => rw [behind, List.length_nil, Nat.zero_add, List.nil_append]
  | error e o => rfl

/-- One call more in front of a read makes no difference to how it may end. -/
theorem ReadEnds.after {t : ByteStore} {off : Nat} {buf bs : Bytes} {calls : List Call}
    {result : EStateM.Result IoError (Over Bytes ByteStore) Nat}
    (hgave : s.Gave off buf.length bs.length calls t) (hbs : s.contents.read off bs.length = bs)
    (h : t.ReadEnds (off + bs.length) (buf.drop bs.length) result) :
    s.ReadEnds off buf (behind bs result) := by
  have hfilled := hgave.read_append buf
  rw [hbs] at hfilled
  cases h with
  | ok gave dry =>
    rw [List.length_drop] at gave dry
    rw [hgave.contents_eq] at dry
    rw [behind, hfilled]
    exact .ok (hgave.trans gave) fun hlt => (dry (by omega)).after_gave hgave
  | error gave lt kind failed =>
    rw [List.length_drop] at gave lt
    rw [behind, hfilled]
    exact .error (hgave.trans gave) (by omega) kind (hgave.plannedReads_subset failed)

/-- Whatever the plan of a store, a full read is one read into a start of the buffer. -/
theorem readInto_ends (s : ByteStore) (buf : Bytes) (off : Nat) :
    s.ReadEnds off buf (readInto off ⟨buf, s⟩) := by
  simp only [readInto]
  fun_induction readIntoFrom s buf off with
  | case1 s off => exact .ok (.refl s off 0) fun hlt => absurd hlt (by simp)
  | case2 s buf off hbuf t hread =>
    have hcall := s.readAt_gave (List.length_pos_iff.2 hbuf) off
    rw [hread] at hcall
    refine .ok hcall.1 fun hlt => ?_
    have hoff : off < s.contents.size := by omega
    exact ⟨⟨off, buf.length, hoff, List.mem_cons_self⟩,
      (hcall.2.2 rfl).resolve_left (Nat.not_le.2 hoff)⟩
  | case3 s buf off hbuf bs t hread hbs more rest u hrest ih =>
    have hcall := s.readAt_gave (List.length_pos_iff.2 hbuf) off
    rw [hread] at hcall
    rw [hrest] at ih
    exact ih.after hcall.1 hcall.2.1
  | case4 s buf off hbuf bs t hread hbs e rest u hrest ih =>
    have hcall := s.readAt_gave (List.length_pos_iff.2 hbuf) off
    rw [hread] at hcall
    rw [hrest] at ih
    exact ih.after hcall.1 hcall.2.1
  | case5 s buf off hbuf e t hread hkind ih =>
    have hcall := s.readAt_gave (List.length_pos_iff.2 hbuf) off
    have hnothing : s.contents.read off ([] : Bytes).length = [] := Contents.read_zero _ _
    rw [hread] at hcall
    rw [← behind_nil (readIntoFrom t buf off)]
    exact ReadEnds.after hcall.1 hnothing ih
  | case6 s buf off hbuf e t hread hkind =>
    have hcall := s.readAt_gave (List.length_pos_iff.2 hbuf) off
    rw [hread] at hcall
    exact .error hcall.1 (List.length_pos_iff.2 hbuf) hkind (hcall.2.resolve_left hkind)

theorem readSpan_gave (s : ByteStore) (len off : Nat) :
    ∃ n calls t, s.Gave off len n calls t ∧
      ((readSpan len off s = .ok (s.contents.read off n) t ∧
          (n < min len (s.contents.size - off) → s.RunsDry calls)) ∨
        ∃ e, readSpan len off s = .error e t ∧ .failed ∈ s.plannedReads) := by
  have hread := readSpan_eq_readInto (List.replicate len 0) off s
  have hends := s.readInto_ends (List.replicate len 0) off
  generalize readInto off ⟨List.replicate len 0, s⟩ = result at hread hends
  cases hends with
  | @ok n calls t gave dry =>
    rw [List.length_replicate] at hread gave dry
    have hlength : (s.contents.read off n).length = n := by
      rw [Contents.length_read]
      exact Nat.min_eq_left gave.available
    rw [filled, List.take_left' hlength] at hread
    exact ⟨n, calls, t, gave, .inl ⟨hread, dry⟩⟩
  | @error e n calls t gave _ _ failed =>
    rw [List.length_replicate] at hread gave
    exact ⟨n, calls, t, gave, .inr ⟨e, hread, failed⟩⟩

/-- A full read that may pass gives what a read of the contents gives. -/
theorem readSpan_of_passing (hpass : ∀ o ∈ s.plannedReads, o.Passing) (len off : Nat) :
    ∃ calls t, s.Gave off len (min len (s.contents.size - off)) calls t ∧
      readSpan len off s = .ok (s.contents.read off len) t := by
  obtain ⟨n, calls, t, hgave, ⟨hok, hdry⟩ | ⟨e, -, hfailed⟩⟩ := s.readSpan_gave len off
  · have hn : n = min len (s.contents.size - off) := by
      have hle := hgave.le
      have havailable := hgave.available
      have hnot : ¬ n < min len (s.contents.size - off) := fun hlt =>
        hpass _ (hdry hlt).2 rfl
      omega
    have hbytes := s.contents.read_eq_read_length off len
    rw [Contents.length_read, ← hn] at hbytes
    exact ⟨calls, t, hn ▸ hgave, hbytes ▸ hok⟩
  · exact (hpass _ hfailed).elim

end ByteStore

end AppendStore
