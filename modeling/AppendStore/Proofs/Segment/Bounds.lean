import AppendStore.Proofs.Action
import AppendStore.Proofs.ByteStore.Calls
import AppendStore.Proofs.Segment.Alike
import AppendStore.Proofs.Segment.Regions

/-!
# The bounds of a segment on any store

A segment is opened from bytes that anyone may have written, and its calls may fail at any
point. What it relies on are its cursors: they are checked once, when the word is read, and
every operation then keeps them in order (`Segment.Sound`), since space that was claimed is
never given back. `Segment.Reached` are the segments that a run of operations leads to, each
of them on a store in any state.

What an operation may do to its store is `ByteStore.Touched`: it writes in a few spans and
nowhere else, both by the calls that it makes and by the bytes that it leaves. For a segment
these are its word and what the operation has newly claimed (`Segment.claimedSpans`).
-/

namespace AppendStore

open AppendStore.Action

namespace Call

def StaysIn (spans : List Span) : Call → Prop
  | write off asked _ => 0 < asked ∧ ∃ r ∈ spans, r.start ≤ off ∧ off + asked ≤ r.stop
  | _ => True

end Call

namespace ByteStore

variable {s t u : ByteStore} {spans spans' : List Span} {r : Span} {off n : Nat} {bs : Bytes}
  {calls : List Call}

/-- The store `t` is `s` after calls that write in the given spans at most. -/
structure Touched (spans : List Span) (s t : ByteStore) : Prop where
  calls : ∃ calls : List Call, t.trace = s.trace.map (calls ++ ·) ∧
    ∀ call ∈ calls, call.StaysIn spans
  byte : ∀ i, (∀ r ∈ spans, i < r.start ∨ r.stop ≤ i) → t.contents.byte i = s.contents.byte i
  size : t.contents.size = s.contents.size ∨ ∃ r ∈ spans, t.contents.size ≤ r.stop

namespace Touched

theorem refl (spans : List Span) (s : ByteStore) : s.Touched spans s where
  calls := ⟨[], by simp, nofun⟩
  byte := fun _ _ => rfl
  size := .inl rfl

theorem trans (h : s.Touched spans t) (h' : t.Touched spans u) : s.Touched spans u where
  calls := by
    obtain ⟨calls, htrace, hstay⟩ := h.calls
    obtain ⟨more, htrace', hstay'⟩ := h'.calls
    refine ⟨more ++ calls, ?_, fun call hcall => ?_⟩
    · rw [htrace', htrace, Option.map_map]
      congr 1
      funext before
      exact (List.append_assoc _ _ _).symm
    · exact (List.mem_append.1 hcall).elim (hstay' call) (hstay call)
  byte := fun i hi => (h'.byte i hi).trans (h.byte i hi)
  size := h'.size.elim (fun heq => heq ▸ h.size) .inr

end Touched

theorem Wrote.touched (h : s.Wrote off bs n calls t) (hr : r ∈ spans) (hlow : r.start ≤ off)
    (hhigh : off + bs.length ≤ r.stop) : s.Touched spans t where
  calls := by
    refine ⟨calls, h.trace_eq, fun call hcall => ?_⟩
    have hin := h.within call hcall
    cases call with
    | write off' asked moved =>
      obtain ⟨-, hstart, hpos, hstop⟩ := hin
      exact ⟨hpos, r, hr, Nat.le_trans hlow hstart, Nat.le_trans hstop hhigh⟩
    | read off' asked moved => trivial
    | sync => trivial
  byte := by
    intro i hi
    have hlength : (bs.take n).length ≤ bs.length := List.length_take_le' _ _
    rw [h.contents_eq]
    apply Contents.byte_write_of_outside
    have := hi r hr
    omega
  size := by
    rw [h.contents_eq]
    by_cases hnil : bs.take n = []
    · exact .inl (by rw [hnil, Contents.write_nil])
    · have hlength : (bs.take n).length ≤ bs.length := List.length_take_le' _ _
      rw [Contents.size_write hnil]
      rcases Nat.le_total s.contents.size (off + (bs.take n).length) with hle | hle
      · exact .inr ⟨r, hr, by omega⟩
      · exact .inl (Nat.max_eq_left hle)

theorem Gave.touched {len : Nat} (h : s.Gave off len n calls t) (spans : List Span) :
    s.Touched spans t where
  calls := by
    refine ⟨calls, h.trace_eq, fun call hcall => ?_⟩
    have hin := h.within call hcall
    cases call with
    | write off' asked moved => cases hin.1
    | read off' asked moved => trivial
    | sync => trivial
  byte := fun i _ => by rw [h.contents_eq]
  size := .inl (by rw [h.contents_eq])

theorem keeps_writeSpan (hr : r ∈ spans) (hlow : r.start ≤ off) (hhigh : off + bs.length ≤ r.stop) :
    Keeps (s.Touched spans) (writeSpan bs off) := by
  intro t h
  have hends := t.writeSpan_ends bs off
  generalize writeSpan bs off t = result at hends ⊢
  cases hends with
  | ok wrote => exact h.trans (wrote.touched hr hlow hhigh)
  | error wrote => exact h.trans (wrote.touched hr hlow hhigh)

theorem keeps_readSpan (len off : Nat) : Keeps (s.Touched spans) (readSpan len off) := by
  intro t h
  obtain ⟨n, calls, u, hgave, ⟨hok, -⟩ | ⟨e, herror, -⟩⟩ := t.readSpan_gave len off
  · rw [hok]
    exact h.trans (hgave.touched spans)
  · rw [herror]
    exact h.trans (hgave.touched spans)

theorem touched_record_sync (s : ByteStore) (spans : List Span) :
    s.Touched spans (s.record .sync) where
  calls := ⟨[.sync], rfl, fun call hcall => by rw [List.mem_singleton.1 hcall]; trivial⟩
  byte := fun _ _ => rfl
  size := .inl rfl

theorem keeps_sync : Keeps (s.Touched spans) sync := by
  intro t h
  have hsync : t.Touched spans (t.record .sync) := touched_record_sync t spans
  unfold sync
  split
  · next hresult =>
    split at hresult <;> cases hresult
    · exact h
    · exact h.trans hsync
  · next hresult =>
    split at hresult <;> cases hresult
    exact h.trans hsync

end ByteStore

namespace Segment

open ByteStore

variable {id : UInt64} {asked : UInt32} {s s' : Segment} {b b' t : ByteStore}
  {spans : List Span} {o : Over Segment ByteStore}

def wordSpan : Span := ⟨0, wordSize⟩

/-- The bytes for headers that the cursors of `s'` have claimed beyond those of `s`. -/
def headerSpan (s s' : Segment) : Span :=
  ⟨s.cursors.front.toNat, s'.cursors.front.toNat - s.cursors.front.toNat⟩

def bodySpan (s s' : Segment) : Span :=
  ⟨s'.cursors.back.toNat, s.cursors.back.toNat - s'.cursors.back.toNat⟩

/-- The word, and what was claimed between `s` and `s'`. -/
def claimedSpans (s s' : Segment) : List Span := [wordSpan, headerSpan s s', bodySpan s s']

theorem keeps_writeWhole {r : Span} {bs : Bytes} {off : Nat} (hr : r ∈ spans)
    (hlow : r.start ≤ off) (hhigh : off + bs.length ≤ r.stop) :
    Keeps (t.Touched spans) (writeWhole bs off) := by
  refine (keeps_writeSpan hr hlow hhigh).ofIo.bind fun n => ?_
  split
  · exact .pure ()
  · exact .throw _

theorem keeps_readWhole (len off : Nat) : Keeps (t.Touched spans) (readWhole len off) := by
  refine (keeps_readSpan len off).ofIo.bind fun bs => ?_
  split
  · exact .pure bs
  · exact .throw _

structure Holding (spans : List Span) (s : Segment) (b : ByteStore) (o : Over Segment ByteStore) :
    Prop where
  cursors : o.item.cursors = s.cursors
  capacity : o.item.capacity = s.capacity
  saved : o.item.savedFront.toNat ≤ s.cursors.front.toNat
  touched : b.Touched spans o.base

namespace Holding

theorem sound (h : Holding spans s b o) (hs : s.Sound) : o.item.Sound := by
  obtain ⟨⟨_, _, _, _, _⟩, _⟩ := o
  obtain ⟨rfl, rfl, hsaved, -⟩ := h
  exact ⟨hs.word, hs.order, hs.within, hs.capacity, hsaved⟩

theorem keeps_onBase {α : Type} {x : Action ByteStore α} (hx : Keeps (b.Touched spans) x) :
    Keeps (Holding spans s b) (onBase x) :=
  hx.zoom (fun _ h => h.touched) fun _ _ h htouched => { h with touched := htouched }

theorem keeps_saveCursors (hword : wordSpan ∈ spans) : Keeps (Holding spans s b) saveCursors := by
  intro o h
  have hwrite : Keeps (Holding spans s b) (onBase (writeWhole o.item.cursors.bytes 0)) :=
    keeps_onBase (keeps_writeWhole hword (Nat.le_refl _)
      (by rw [Cursors.length_bytes]; exact Nat.le_refl _))
  unfold saveCursors
  rw [item_bind]
  refine hwrite.bind (fun _ o' h' => ?_) o h
  refine ⟨h.cursors, h.capacity, ?_, h'.touched⟩
  change (if o.item.savedFront ≤ o.item.cursors.front then o.item.cursors.front
    else o.item.savedFront).toNat ≤ _
  split
  · exact Nat.le_of_eq (congrArg (fun c => c.front.toNat) h.cursors)
  · exact h.saved

theorem keeps_saveMovedCursors (hword : wordSpan ∈ spans) :
    Keeps (Holding spans s b) saveMovedCursors := by
  intro o h
  unfold saveMovedCursors
  rw [item_bind]
  by_cases hmoved : o.item.savedFront < o.item.cursors.front
  · rw [if_pos hmoved]
    exact keeps_saveCursors hword o h
  · rw [if_neg hmoved]
    exact h

theorem keeps_writeRecord (hword : wordSpan ∈ spans) {h : RecordHeader} {body : Bytes} {slot : Nat}
    {r r' : Span} (hr : r ∈ spans) (hlow : r.start ≤ h.start.toNat)
    (hhigh : h.start.toNat + body.length ≤ r.stop) (hr' : r' ∈ spans) (hlow' : r'.start ≤ slot)
    (hhigh' : slot + recordHeaderSize ≤ r'.stop) :
    Keeps (Holding spans s b) (writeRecord h body slot) :=
  (keeps_onBase (keeps_writeWhole hr hlow hhigh)).bind fun _ =>
    (keeps_onBase (keeps_writeWhole hr' hlow'
      (by rw [RecordHeader.length_layout]; exact hhigh'))).bind fun _ =>
      (keeps_saveMovedCursors hword).bind fun _ => .pure _

end Holding

theorem Holding.refl (spans : List Span) (hs : s.Sound) (b : ByteStore) :
    Holding spans s b ⟨s, b⟩ :=
  ⟨rfl, rfl, hs.saved, .refl spans b⟩

theorem keeps_sync (hword : wordSpan ∈ spans) : Keeps (Holding spans s b) sync :=
  (Holding.keeps_saveCursors hword).bind fun _ => Holding.keeps_onBase ByteStore.keeps_sync.ofIo

theorem keeps_headers : Keeps (Holding spans s b) headers := by
  intro o h
  unfold headers
  rw [item_bind]
  exact (Holding.keeps_onBase (keeps_readWhole _ _)).bind (fun _ => .pure _) o h

theorem keeps_transactionOf (h : RecordHeader) : Keeps (Holding spans s b) (transactionOf h) := by
  intro o ho
  by_cases hholds : o.item.Holds h
  · unfold transactionOf
    rw [item_bind, if_pos hholds]
    exact (Holding.keeps_onBase (keeps_readWhole _ _)).bind (fun _ => .ofExcept _) o ho
  · rw [transactionOf_of_outside hholds]
    exact ho

theorem headerSpan_claimed {n : Nat} (hs : s.Sound) (hfits : s.Fits n) :
    headerSpan s (s.claimed n) = ⟨s.cursors.front.toNat, recordHeaderSize⟩ := by
  rw [headerSpan, hs.front_claimed hfits, Nat.add_sub_cancel_left]

theorem bodySpan_claimed {n : Nat} (hs : s.Sound) (hfits : s.Fits n) :
    bodySpan s (s.claimed n) = ⟨s.cursors.back.toNat - n, n⟩ := by
  rw [bodySpan, hs.back_claimed hfits, Nat.sub_sub_self (Nat.le_trans (Nat.le_add_left _ _) hfits)]

/-- The writes of an append stay in the word and in what it has claimed. -/
theorem keeps_record {t : Transaction} (hs : s.Sound) (hfits : s.Fits t.layout.length) :
    Keeps (Holding (claimedSpans s (s.claimed t.layout.length)) (s.claimed t.layout.length) b)
      (writeRecord (s.nextHeader t) t.layout s.cursors.front.toNat) := by
  have hstart := start_nextHeader s t
  unfold claimedSpans
  rw [headerSpan_claimed hs hfits, bodySpan_claimed hs hfits]
  exact Holding.keeps_writeRecord List.mem_cons_self
    (List.mem_cons_of_mem _ (List.mem_cons_of_mem _ List.mem_cons_self)) (Nat.le_of_eq hstart.symm)
    (Nat.le_of_eq (congrArg (· + t.layout.length) hstart))
    (List.mem_cons_of_mem _ List.mem_cons_self) (Nat.le_refl _) (Nat.le_refl _)

def Operation.ClaimsFor (op : Operation) (s : Segment) (n : Nat) : Prop :=
  ∃ record body, op = .append record ∧ record.encode = .ok body ∧ s.Fits body.length ∧
    body.length = n

theorem Operation.ClaimsFor.unique {op : Operation} {m n : Nat} (h : op.ClaimsFor s m)
    (h' : op.ClaimsFor s n) : m = n := by
  obtain ⟨record, body, rfl, hencode, -, rfl⟩ := h
  obtain ⟨_, body', ⟨⟩, hencode', -, rfl⟩ := h'
  cases hencode.symm.trans hencode'
  rfl

/-- The cursors after an operation are those with the space of a record claimed, if it appends one
that there is room for, and else those before it. The bytes that may have changed are the word and
this space. -/
theorem perform_step (hs : s.Sound) (op : Operation) (b : ByteStore) :
    ∃ s', ((∃ n, op.ClaimsFor s n ∧ s.Fits n ∧ s' = s.claimed n) ∨
        (∀ n, ¬ op.ClaimsFor s n) ∧ s' = s) ∧
      Holding (claimedSpans s s') s' b (leaves op.perform ⟨s, b⟩) := by
  have hword : wordSpan ∈ claimedSpans s s := List.mem_cons_self
  have hrefl := Holding.refl (claimedSpans s s) hs b
  cases op with
  | append t =>
    have hleaves : leaves (Operation.append t).perform ⟨s, b⟩ = leaves (append t) ⟨s, b⟩ :=
      leaves_bind_pure (append t) Reply.appended ⟨s, b⟩
    rw [hleaves]
    cases hencode : t.encode with
    | error e =>
      refine ⟨s, .inr ⟨?_, rfl⟩, ?_⟩
      · rintro n ⟨_, body, ⟨⟩, hbody, -⟩
        cases hencode.symm.trans hbody
      · rw [leaves, append_of_invalid hencode]
        exact hrefl
    | ok body =>
      obtain ⟨hw, rfl⟩ := Transaction.encode_eq_ok_iff.1 hencode
      by_cases hfits : s.Fits t.layout.length
      · refine ⟨_, .inl ⟨_, ⟨t, _, rfl, hencode, hfits, rfl⟩, hfits, rfl⟩, ?_⟩
        rw [leaves, append_of_fits (o := ⟨s, b⟩) hs hw hfits]
        exact (keeps_record hs hfits).leaves (.refl _ (hs.claimed hfits) b)
      · refine ⟨s, .inr ⟨?_, rfl⟩, ?_⟩
        · rintro n ⟨_, body, ⟨⟩, hbody, hfits', -⟩
          cases hencode.symm.trans hbody
          exact hfits hfits'
        · rw [leaves, append_of_full (o := ⟨s, b⟩) hs hw hfits]
          exact hrefl
  | sync =>
    exact ⟨s, .inr ⟨nofun, rfl⟩, ((keeps_sync hword).bind fun _ => .pure _).leaves hrefl⟩
  | headers => exact ⟨s, .inr ⟨nofun, rfl⟩, (keeps_headers.bind fun _ => .pure _).leaves hrefl⟩
  | read h =>
    exact ⟨s, .inr ⟨nofun, rfl⟩, ((keeps_transactionOf h).bind fun _ => .pure _).leaves hrefl⟩

theorem keeps_start (id : UInt64) (asked : UInt32) :
    Keeps (b.Touched [wordSpan]) (start id asked) := by
  unfold start
  split
  · exact (keeps_writeWhole List.mem_cons_self (Nat.le_refl _)
      (by rw [Cursors.length_bytes]; exact Nat.le_refl _)).bind fun _ => .pure _
  · exact .throw _

theorem keeps_resume (id : UInt64) : Keeps (b.Touched [wordSpan]) (resume id) := by
  intro t h
  unfold resume
  rw [get_bind]
  by_cases hmax : maxCapacity < t.size
  · rw [if_pos hmax]
    exact h
  · rw [if_neg hmax]
    refine (keeps_readWhole wordSize 0).bind (fun word => ?_) t h
    dsimp only
    split
    · exact keeps_start _ _
    · exact .ofExcept _

theorem keeps_attach (id : UInt64) (asked : UInt32) :
    Keeps (b.Touched [wordSpan]) (attach id asked) := by
  intro t h
  unfold attach
  rw [get_bind]
  by_cases hsize : t.size ≤ wordSize
  · rw [if_pos hsize]
    exact keeps_start id asked t h
  · rw [if_neg hsize]
    exact keeps_resume id t h

theorem sound_of_start (h : start id asked b = .ok s b') : s.Sound := by
  unfold start at h
  split at h
  · next hcapacity =>
    obtain ⟨_, _, -, hresult⟩ := bind_eq_ok h
    cases hresult
    exact sound_fresh hcapacity
  · cases h

theorem sound_of_resume (h : resume id b = .ok s b') : s.Sound := by
  unfold resume at h
  rw [get_bind] at h
  by_cases hmax : maxCapacity < b.size
  · rw [if_pos hmax] at h
    cases h
  · rw [if_neg hmax] at h
    have hcapacity : (UInt32.ofNat b.size).toNat ≤ maxCapacity := by
      rw [toNat_ofNat_of_le_maxCapacity (Nat.le_of_not_lt hmax)]
      exact Nat.le_of_not_lt hmax
    obtain ⟨word, _, -, hresult⟩ := bind_eq_ok h
    dsimp only at hresult
    split at hresult
    · exact sound_of_start hresult
    · exact (sound_of_ofCursors hcapacity (ofExcept_eq_ok hresult).1).1

/-- Whatever the store holds and however its calls turn out, a segment that is opened has its
cursors in order. -/
theorem sound_of_attach (h : attach id asked b = .ok s b') : s.Sound := by
  unfold attach at h
  rw [get_bind] at h
  split at h
  · exact sound_of_start h
  · exact sound_of_resume h

/-- The segment `s'` is `s` with more of its space claimed, or as much. -/
structure Advanced (s s' : Segment) : Prop where
  capacity : s'.capacity = s.capacity
  front : s.cursors.front ≤ s'.cursors.front
  back : s'.cursors.back ≤ s.cursors.back

namespace Advanced

theorem refl (s : Segment) : Advanced s s := ⟨rfl, UInt32.le_refl _, UInt32.le_refl _⟩

theorem trans {s'' : Segment} (h : Advanced s s') (h' : Advanced s' s'') : Advanced s s'' :=
  ⟨h'.capacity.trans h.capacity, UInt32.le_trans h.front h'.front, UInt32.le_trans h'.back h.back⟩

end Advanced

/-- What is promised of an operation on a segment over any store. -/
structure SafeStep (s : Segment) (op : Operation) (t : ByteStore) : Prop where
  /-- The front is not taken back and the back is not put forward. -/
  advanced : Advanced s (leaves op.perform ⟨s, t⟩).item
  /-- An append that there is room for claims a slot and the bytes of its body. -/
  claims : ∀ n, op.ClaimsFor s n →
    headerSpan s (leaves op.perform ⟨s, t⟩).item = ⟨s.cursors.front.toNat, recordHeaderSize⟩ ∧
      bodySpan s (leaves op.perform ⟨s, t⟩).item = ⟨s.cursors.back.toNat - n, n⟩
  /-- Nothing else claims anything. -/
  quiet : (∀ n, ¬ op.ClaimsFor s n) → (leaves op.perform ⟨s, t⟩).item.cursors = s.cursors
  /-- Nothing is written but the word and what was claimed. -/
  touched : t.Touched (claimedSpans s (leaves op.perform ⟨s, t⟩).item)
    (leaves op.perform ⟨s, t⟩).base
  /-- All of this lies in the segment. -/
  inside : ∀ r ∈ claimedSpans s (leaves op.perform ⟨s, t⟩).item, r.stop ≤ s.capacity.toNat

theorem Sound.wordSize_le_capacity (hs : s.Sound) : wordSize ≤ s.capacity.toNat :=
  Nat.le_trans hs.word (Nat.le_trans hs.order hs.within)

theorem advanced_claimed {n : Nat} (hs : s.Sound) (hfits : s.Fits n) :
    Advanced s (s.claimed n) := by
  refine ⟨rfl, ?_, ?_⟩
  · rw [UInt32.le_iff_toNat_le, hs.front_claimed hfits]
    exact Nat.le_add_right _ _
  · rw [UInt32.le_iff_toNat_le, hs.back_claimed hfits]
    exact Nat.sub_le _ _

theorem Advanced.inside (h : Advanced s s') (hs : s.Sound) (hs' : s'.Sound) :
    ∀ r ∈ claimedSpans s s', r.stop ≤ s.capacity.toNat := by
  have hword := hs.wordSize_le_capacity
  have hfront := UInt32.le_iff_toNat_le.1 h.front
  have hback := UInt32.le_iff_toNat_le.1 h.back
  have horder := hs'.order
  have hwithin := hs.within
  intro r hr
  simp only [claimedSpans, List.mem_cons, List.not_mem_nil, or_false] at hr
  rcases hr with rfl | rfl | rfl
  · simpa [Span.stop, wordSpan] using hword
  · simp only [Span.stop, headerSpan]
    omega
  · simp only [Span.stop, bodySpan]
    omega

/-- Every operation keeps the cursors in order and writes where it may. -/
theorem Sound.perform (hs : s.Sound) (op : Operation) (t : ByteStore) :
    (leaves op.perform ⟨s, t⟩).item.Sound ∧ SafeStep s op t := by
  obtain ⟨s', hcase, hholding⟩ := perform_step hs op t
  have hspans : claimedSpans s (leaves op.perform ⟨s, t⟩).item = claimedSpans s s' := by
    simp only [claimedSpans, headerSpan, bodySpan, hholding.cursors]
  have hheader : headerSpan s (leaves op.perform ⟨s, t⟩).item = headerSpan s s' := by
    simp only [headerSpan, hholding.cursors]
  have hbody : bodySpan s (leaves op.perform ⟨s, t⟩).item = bodySpan s s' := by
    simp only [bodySpan, hholding.cursors]
  have hnext : s'.Sound ∧ Advanced s s' := by
    rcases hcase with ⟨n, -, hfits, rfl⟩ | ⟨-, rfl⟩
    · exact ⟨hs.claimed hfits, advanced_claimed hs hfits⟩
    · exact ⟨hs, .refl s'⟩
  have hadvanced : Advanced s (leaves op.perform ⟨s, t⟩).item := by
    obtain ⟨-, hcapacity, hfront, hback⟩ := hnext
    refine ⟨hholding.capacity.trans hcapacity, ?_, ?_⟩
    · rwa [hholding.cursors]
    · rwa [hholding.cursors]
  refine ⟨hholding.sound hnext.1, hadvanced, ?_, ?_, hspans ▸ hholding.touched, ?_⟩
  · intro n hclaims
    rcases hcase with ⟨m, hclaims', hfits, rfl⟩ | ⟨hquiet, -⟩
    · obtain rfl := hclaims.unique hclaims'
      exact ⟨hheader.trans (headerSpan_claimed hs hfits), hbody.trans (bodySpan_claimed hs hfits)⟩
    · exact absurd hclaims (hquiet n)
  · intro hquiet
    rcases hcase with ⟨n, hclaims, -⟩ | ⟨-, rfl⟩
    · exact absurd hclaims (hquiet n)
    · exact hholding.cursors
  · rw [hspans]
    exact hnext.2.inside hs hnext.1

/-- The segments that operations lead to from `s₀`, whatever their stores hold by then and however
their calls turn out. -/
inductive Reached (s₀ : Segment) : Segment → Prop
  | opened : Reached s₀ s₀
  | performed {s : Segment} (h : Reached s₀ s) (op : Operation) (t : ByteStore) :
      Reached s₀ (leaves op.perform ⟨s, t⟩).item

theorem Reached.sound {s₀ : Segment} (h : Reached s₀ s) (hs₀ : s₀.Sound) :
    s.Sound ∧ Advanced s₀ s := by
  induction h with
  | opened => exact ⟨hs₀, .refl s₀⟩
  | performed _ op t ih =>
    obtain ⟨hs, hadvanced⟩ := ih
    obtain ⟨hnext, hstep⟩ := hs.perform op t
    exact ⟨hnext, hadvanced.trans hstep.advanced⟩

/-- A claim that was granted has the next slot and the bytes before the last body, and its numbers
keep their values as numbers of 32 bits. -/
theorem places_of_claim {n : Nat} {c : Claim} {o : Over Segment ByteStore} (hs : s.Sound)
    (h : claim n ⟨s, t⟩ = .ok c o) :
    c.headerOffset = s.cursors.front.toNat ∧ c.bodyOffset + n = s.cursors.back.toNat ∧
      (UInt32.ofNat c.bodyOffset).toNat = c.bodyOffset ∧
      (UInt32.ofNat (c.bodyOffset + n)).toNat = c.bodyOffset + n := by
  by_cases hfits : s.Fits n
  · cases h.symm.trans (claim_of_fits (o := ⟨s, t⟩) hs hfits)
    have hle : n ≤ s.cursors.back.toNat := Nat.le_trans (Nat.le_add_left _ _) hfits
    have hlt := s.cursors.back.toNat_lt
    refine ⟨rfl, Nat.sub_add_cancel hle, ?_, ?_⟩
    · exact UInt32.toNat_ofNat_of_lt' (Nat.lt_of_le_of_lt (Nat.sub_le _ _) hlt)
    · dsimp only
      rw [Nat.sub_add_cancel hle, UInt32.ofNat_toNat]
  · cases h.symm.trans (claim_of_full (o := ⟨s, t⟩) hs hfits)

/-- The cursors of a segment are safe on any store.

Of the store that the segment was opened on nothing is known but that opening it has succeeded, and
the stores that the operations work on later may be in any state, with any plan of faults. The
cursors stay in order within the capacity and only ever close in on each other. So the word is
never waited for when it is written, no number of a record is cut off, and nothing is ever written
but the word and the space that was newly claimed, all of it in the segment. -/
theorem cursors_safe_on_any_store {id : UInt64} {asked : UInt32} {b b₀ : ByteStore} {s₀ : Segment}
    (hattach : attach id asked b = .ok s₀ b₀) :
    b.Touched [wordSpan] b₀ ∧ ∀ s, Reached s₀ s →
      (wordSize ≤ s.cursors.front.toNat ∧ s.cursors.front.toNat ≤ s.cursors.back.toNat ∧
        s.cursors.back.toNat ≤ s.capacity.toNat ∧ s.capacity.toNat ≤ maxCapacity) ∧
      Advanced s₀ s ∧
      (∀ later, Cursors.awaited (s.cursors :: later) = some s.cursors.bytes) ∧
      ∀ t : ByteStore,
        (∀ n c o, claim n ⟨s, t⟩ = .ok c o →
          c.headerOffset = s.cursors.front.toNat ∧ c.bodyOffset + n = s.cursors.back.toNat ∧
            (UInt32.ofNat c.bodyOffset).toNat = c.bodyOffset ∧
            (UInt32.ofNat (c.bodyOffset + n)).toNat = c.bodyOffset + n) ∧
        ∀ op, SafeStep s op t := by
  have hs₀ := sound_of_attach hattach
  refine ⟨(keeps_attach id asked).of_ok (.refl _ b) hattach, fun s hreached => ?_⟩
  obtain ⟨hs, hadvanced⟩ := hreached.sound hs₀
  exact ⟨⟨hs.word, hs.order, hs.within, hs.capacity⟩, hadvanced,
    Cursors.awaited_cons_of_order hs.order hs.back_le,
    fun t => ⟨fun n c o hclaim => places_of_claim hs hclaim, fun op => (hs.perform op t).2⟩⟩

/-- A word that no append has written, an append that fails within its body, and a sync. -/
theorem cursors_safe_on_any_store_forged :
    let store := ByteStore.ofBytes ((Cursors.pack 24 100).bytes ++ List.replicate 120 0)
    let record : Transaction := { id := 7, changes := [.delete [97]] }
    ∃ s₀ b₀, attach 1 0 store = .ok s₀ b₀ ∧ s₀.cursors = .pack 24 100 ∧
      let torn : ByteStore := { b₀ with plannedWrites := [.atMost 3, .failed], trace := some [] }
      let o := leaves (Operation.append record).perform ⟨s₀, torn⟩
      o.item.cursors.front.toNat ≤ o.item.cursors.back.toNat ∧
        SafeStep s₀ (.append record) torn ∧ SafeStep o.item .sync o.base := by
  intro store record
  have hfound := @found_of_shows store.contents (.pack 24 100) ⟨by decide +kernel, by decide +kernel⟩
    (by decide +kernel) (by decide +kernel) (by decide) (by decide) (by decide +kernel) 1 0
  have hstore : store.Plain := ByteStore.plain_ofBytes _
  have hattach := attach_of_plain hstore 1 0
  rw [hfound, opened] at hattach
  obtain ⟨-, hsafe⟩ := cursors_safe_on_any_store hattach
  obtain ⟨-, -, -, hfirst⟩ := hsafe _ .opened
  refine ⟨_, _, hattach, rfl, ?_⟩
  intro torn o
  have hreached : Reached _ o.item := .performed .opened (.append record) torn
  clear_value torn o
  obtain ⟨hbounds, -, -, hsecond⟩ := hsafe _ hreached
  exact ⟨hbounds.2.1, (hfirst torn).2 _, (hsecond o.base).2 _⟩

end Segment

end AppendStore
