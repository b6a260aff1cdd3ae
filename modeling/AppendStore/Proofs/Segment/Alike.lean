import AppendStore.Proofs.Segment.Intact

/-!
# Segments on stores of two lengths

A segment can lie on a store that has its size from the start, such as a log file, or on
one that only grows when it is written, such as a store in memory. `Segment.Alike` says
that two segments have the same cursors and that their stores differ in zeros at the end
alone. Whatever is done with both then ends the same way, and they stay alike
(`Segment.Alike.perform`). After the first record the stores hold the same bytes.
-/

namespace AppendStore

namespace Segment

inductive Operation where
  | append (t : Transaction)
  | sync
  | headers
  | read (h : RecordHeader)
  deriving DecidableEq

inductive Reply where
  | done
  | appended (h : RecordHeader)
  | headers (hs : List RecordHeader)
  | transaction (t : Transaction)
  deriving DecidableEq

def Operation.perform : Operation → Action (Over Segment ByteStore) Reply
  | append t => do return .appended (← Segment.append t)
  | sync => do
    Segment.sync
    return .done
  | headers => do return .headers (← Segment.headers)
  | read h => do return .transaction (← transactionOf h)

structure Figures where
  front : UInt32
  back : UInt32
  space : Int
  capacity : UInt32
  used : Nat
  deriving DecidableEq, Repr

def figures (s : Segment) : Figures where
  front := s.cursors.front
  back := s.cursors.back
  space := s.space
  capacity := s.capacity
  used := s.used

/-- The segment `m` is `f` on a store that may lack zeros at the end. It lacks none if `full`
holds. -/
structure Alike (asked : UInt32) (full : Prop) (f m : Over Segment ByteStore) : Prop where
  capacity : f.item.capacity = m.item.capacity
  cursors : f.item.cursors = m.item.cursors
  long : Intact asked f.item f.base
  short : Intact asked m.item m.base
  durable_long : f.base.durability ≠ .fails
  durable_short : m.base.durability ≠ .fails
  contents : f.base.contents = m.base.contents.extend m.item.capacity.toNat
  full : full → f.base.contents = m.base.contents

section Congruence

variable {s s' : Segment} {t : Transaction} {n : Nat}

theorem nextHeader_congr (h : s.cursors = s'.cursors) (t : Transaction) :
    s.nextHeader t = s'.nextHeader t := by
  rw [nextHeader, nextHeader, h]

theorem cursors_claimed_congr (h : s.cursors = s'.cursors) (n : Nat) :
    (s.claimed n).saved.cursors = (s'.claimed n).saved.cursors := by
  change Cursors.pack (s.cursors.front + _) (s.cursors.back - _) = _
  rw [h]
  rfl

theorem fits_congr (h : s.cursors = s'.cursors) : s.Fits n ↔ s'.Fits n := by
  rw [Fits, Fits, h]

theorem listing_congr (h : s.cursors = s'.cursors) (c : Contents) :
    s.listing c = s'.listing c := by
  rw [listing, listing, slots, slots, h]

theorem holds_congr (hcapacity : s.capacity = s'.capacity) (hcursors : s.cursors = s'.cursors)
    (h : RecordHeader) : s.Holds h ↔ s'.Holds h := by
  rw [Holds, Holds, hcapacity, hcursors]

theorem figures_congr (hcapacity : s.capacity = s'.capacity) (hcursors : s.cursors = s'.cursors) :
    s.figures = s'.figures := by
  simp only [figures, space, used, hcapacity, hcursors]

theorem recordedContents_congr (h : s.cursors = s'.cursors) (t : Transaction) (c : Contents) :
    recordedContents s t c = recordedContents s' t c := by
  have hword : (s.claimed t.layout.length).cursors = (s'.claimed t.layout.length).cursors :=
    cursors_claimed_congr h _
  rw [recordedContents, recordedContents, nextHeader_congr h, h, hword]

theorem recordedContents_extend (s : Segment) (t : Transaction) (c : Contents) (size : Nat) :
    recordedContents s t (c.extend size) = (recordedContents s t c).extend size := by
  simp only [recordedContents, Contents.write_extend_comm]

end Congruence

namespace Alike

variable {asked : UInt32} {full full' : Prop} {f m : Over Segment ByteStore}

theorem mono (h : Alike asked full f m) (himp : full' → full) : Alike asked full' f m :=
  { h with full := fun hfull => h.full (himp hfull) }

theorem figures_eq (h : Alike asked full f m) : f.item.figures = m.item.figures :=
  figures_congr h.capacity h.cursors

theorem saved (h : Alike asked full f m) :
    Alike asked full ⟨f.item.saved, f.base⟩ ⟨m.item.saved, m.base⟩ :=
  { h with
    long := h.long.saved
    short := h.short.saved }

theorem recorded (h : Alike asked full f m) {t : Transaction} (hw : t.Writable)
    (hfits : m.item.Fits t.layout.length) :
    Alike asked True
      ⟨(f.item.claimed t.layout.length).saved,
        f.base.withContents (recordedContents f.item t f.base.contents)⟩
      ⟨(m.item.claimed t.layout.length).saved,
        m.base.withContents (recordedContents m.item t m.base.contents)⟩ := by
  have hsize := h.short.size_recordedContents hw hfits
  have hcontents : recordedContents f.item t f.base.contents =
      (recordedContents m.item t m.base.contents).extend m.item.capacity.toNat := by
    rw [recordedContents_congr h.cursors, h.contents, recordedContents_extend]
  exact
    { capacity := h.capacity
      cursors := cursors_claimed_congr h.cursors _
      long := h.long.recorded hw ((fits_congr h.cursors).2 hfits)
      short := h.short.recorded hw hfits
      durable_long := h.durable_long
      durable_short := h.durable_short
      contents := hcontents
      full := fun _ => hcontents.trans (Contents.extend_of_le (Nat.le_of_eq hsize.symm)) }

theorem reading_eq (h : Alike asked full f m) (header : RecordHeader) :
    f.item.reading f.base.contents header = m.item.reading m.base.contents header := by
  unfold reading
  rw [h.contents]
  by_cases hholds : m.item.Holds header
  · rw [if_pos hholds, if_pos ((holds_congr h.capacity h.cursors header).2 hholds)]
    rfl
  · rw [if_neg hholds, if_neg (fun hf => hholds ((holds_congr h.capacity h.cursors header).1 hf))]

theorem listing_eq (h : Alike asked full f m) :
    f.item.listing f.base.contents = m.item.listing m.base.contents := by
  rw [listing_congr h.cursors, h.contents]
  rfl

/-- What is found on two stores with the same bytes is alike once one of them has its size. -/
theorem of_found {id : UInt64} {b b' : ByteStore} {s : Segment} (hb : b.Plain) (hb' : b'.Plain)
    (hdurable : b.durability ≠ .fails) (hdurable' : b'.durability ≠ .fails)
    (hsame : b.contents = b'.contents) (hfound : found id asked b'.contents = .ok s)
    (path : Option Path) :
    Alike asked False
      ⟨{ s with path }, b.withContents
        ((b.contents.write 0 s.cursors.bytes).extend s.capacity.toNat)⟩
      ⟨s, b'.withContents (b'.contents.write 0 s.cursors.bytes)⟩ where
  capacity := rfl
  cursors := rfl
  long := (intact_of_found hb (hsame ▸ hfound)).extended.renamed path
  short := intact_of_found hb' hfound
  durable_long := hdurable
  durable_short := hdurable'
  contents := by
    rw [hsame]
    rfl
  full := False.elim

theorem again (h : Alike asked full f m) (id : UInt64) (path : Option Path) :
    Alike asked full ⟨{ f.item.again id with path }, f.base⟩ ⟨m.item.again id, m.base⟩ :=
  { h with
    long := (h.long.again id).renamed path
    short := h.short.again id }

theorem capacity_le_size (h : Alike asked full f m) :
    f.item.capacity.toNat ≤ f.base.contents.size := by
  rw [h.contents, h.capacity]
  exact Nat.le_max_right _ _

theorem append (h : Alike asked full f m) (t : Transaction) :
    (∃ header f' m', Segment.append t f = .ok header f' ∧ Segment.append t m = .ok header m' ∧
      Alike asked True f' m') ∨
    ∃ e, Segment.append t f = .error e f ∧ Segment.append t m = .error e m := by
  cases hencode : t.encode with
  | error e => exact .inr ⟨e, append_of_invalid hencode, append_of_invalid hencode⟩
  | ok body =>
    have hw := (Transaction.encode_eq_ok_iff.1 hencode).1
    have hiff : f.item.Fits t.layout.length ↔ _ := fits_congr h.cursors
    by_cases hfits : m.item.Fits t.layout.length
    · have hlong := append_of_plain h.long.plain h.long.sound hw (hiff.2 hfits)
      have hshort := append_of_plain h.short.plain h.short.sound hw hfits
      rw [nextHeader_congr h.cursors] at hlong
      exact .inl ⟨_, _, _, hlong, hshort, h.recorded hw hfits⟩
    · have hlong := append_of_full h.long.sound hw fun hf => hfits (hiff.1 hf)
      have hshort := append_of_full h.short.sound hw hfits
      rw [space, h.cursors] at hlong
      exact .inr ⟨_, hlong, hshort⟩

/-- Every operation ends the same way on both. One that fails changes nothing. -/
theorem perform (h : Alike asked full f m) (op : Operation) :
    (∃ reply f' m', op.perform f = .ok reply f' ∧ op.perform m = .ok reply m' ∧
      Alike asked (full ∨ ∃ header, reply = .appended header) f' m') ∨
    ∃ e, op.perform f = .error e f ∧ op.perform m = .error e m := by
  have hkept : ∀ {reply : Reply}, (∀ header, reply ≠ .appended header) →
      Alike asked (full ∨ ∃ header, reply = .appended header) f m := fun hreply =>
    h.mono fun hfull => hfull.resolve_right fun ⟨header, heq⟩ => hreply header heq
  cases op with
  | append t =>
    rcases h.append t with ⟨header, f', m', hlong, hshort, hnext⟩ | ⟨e, hlong, hshort⟩
    · exact .inl ⟨_, f', m', Action.bind_of_ok hlong, Action.bind_of_ok hshort,
        hnext.mono fun _ => trivial⟩
    · exact .inr ⟨e, Action.bind_of_error hlong, Action.bind_of_error hshort⟩
  | sync =>
    have hlong := h.long.sync_of_durable h.durable_long
    have hshort := h.short.sync_of_durable h.durable_short
    exact .inl ⟨.done, _, _, Action.bind_of_ok hlong, Action.bind_of_ok hshort,
      (@hkept .done nofun).saved⟩
  | headers =>
    have hlong := h.long.headers_eq
    rw [h.listing_eq] at hlong
    exact .inl ⟨_, _, _, Action.bind_of_ok hlong, Action.bind_of_ok h.short.headers_eq,
      hkept nofun⟩
  | read header =>
    have hlong := h.long.transactionOf_eq header
    have hshort := h.short.transactionOf_eq header
    rw [h.reading_eq] at hlong
    cases hread : m.item.reading m.base.contents header with
    | ok t =>
      rw [hread] at hlong hshort
      exact .inl ⟨_, _, _, Action.bind_of_ok hlong, Action.bind_of_ok hshort, hkept nofun⟩
    | error e =>
      rw [hread] at hlong hshort
      exact .inr ⟨e, Action.bind_of_error hlong, Action.bind_of_error hshort⟩

end Alike

end Segment

end AppendStore
