import AppendStore.Proofs.Segment.Intact
import AppendStore.Proofs.Segment.Session

/-!
# A segment as a list of transactions

`Segment.Ledger` is a segment without bytes: a capacity and the transactions of its
records. Everything that an undisturbed segment tells can be computed from it.
`Ledger.Models` relates the two, every operation of the segment keeps the relation,
and `Segment.session_refines_ledger` is the result for all runs. Such a segment is
intact (`Ledger.Models.intact`), which is all that a sync and opening it again need.
-/

namespace AppendStore

namespace Segment

/-- The capacity of a segment and the transactions of its records, the oldest first. -/
structure Ledger where
  capacity : UInt32
  records : List Transaction := []
  deriving DecidableEq, Repr

namespace Ledger

def bodyBytes (ts : List Transaction) : Nat := ts.foldr (fun t n => t.encodedLength + n) 0

def used (l : Ledger) : Nat :=
  l.records.foldr (fun t n => recordHeaderSize + t.encodedLength + n) 0

def room (l : Ledger) : Nat := l.capacity.toNat - wordSize - l.used

/-- The header of a record whose body ends at `stop`. -/
def header (stop : Nat) (t : Transaction) : RecordHeader where
  transactionId := t.id
  start := UInt32.ofNat (stop - t.encodedLength)
  stop := UInt32.ofNat stop

/-- The headers and transactions of records that are stacked downward from `stop`. -/
def entriesFrom (stop : Nat) : List Transaction → List (RecordHeader × Transaction)
  | [] => []
  | t :: ts => (header stop t, t) :: entriesFrom (stop - t.encodedLength) ts

def entries (l : Ledger) : List (RecordHeader × Transaction) :=
  entriesFrom l.capacity.toNat l.records

def back (l : Ledger) : Nat := l.capacity.toNat - bodyBytes l.records

/-- There is a written form of the transaction, and room for its record. -/
def Accepts (l : Ledger) (t : Transaction) : Prop :=
  t.Writable ∧ recordHeaderSize + t.encodedLength ≤ l.room

instance (l : Ledger) (t : Transaction) : Decidable (l.Accepts t) :=
  inferInstanceAs (Decidable (_ ∧ _))

def push (l : Ledger) (t : Transaction) : Ledger := { l with records := l.records ++ [t] }

def serve (l : Ledger) : Request → Ledger
  | .append t => if l.Accepts t then l.push t else l
  | .sync => l
  | .reopen => l

def run (l : Ledger) (requests : List Request) : Ledger := requests.foldl serve l

theorem bodyBytes_append (ts : List Transaction) (t : Transaction) :
    bodyBytes (ts ++ [t]) = bodyBytes ts + t.encodedLength := by
  induction ts with
  | nil => exact (Nat.zero_add _).symm
  | cons u ts ih =>
    have hfold : ∀ (u : Transaction) us, bodyBytes (u :: us) = u.encodedLength + bodyBytes us :=
      fun _ _ => rfl
    rw [List.cons_append, hfold, ih, hfold, Nat.add_assoc]

theorem used_eq (l : Ledger) :
    l.used = recordHeaderSize * l.records.length + bodyBytes l.records := by
  unfold used
  induction l.records with
  | nil => rfl
  | cons t ts ih =>
    rw [List.foldr_cons, ih, List.length_cons, Nat.mul_succ]
    change _ = _ + (t.encodedLength + bodyBytes ts)
    omega

theorem used_push (l : Ledger) (t : Transaction) :
    (l.push t).used = l.used + (recordHeaderSize + t.encodedLength) := by
  have hcount : (l.push t).records.length = l.records.length + 1 := List.length_append
  have hbodies : bodyBytes (l.push t).records = _ := bodyBytes_append l.records t
  rw [used_eq, used_eq, hcount, hbodies, Nat.mul_succ]
  omega

theorem recordLength_header {stop : Nat} {t : Transaction} (hstop : stop < UInt32.size)
    (hbody : t.encodedLength ≤ stop) :
    (header stop t).recordLength = recordHeaderSize + t.encodedLength := by
  have hstart : stop - t.encodedLength < UInt32.size :=
    Nat.lt_of_le_of_lt (Nat.sub_le _ _) hstop
  rw [RecordHeader.recordLength, RecordHeader.bodyLength, header,
    UInt32.toNat_ofNat_of_lt' hstop, UInt32.toNat_ofNat_of_lt' hstart, Nat.sub_sub_self hbody]

theorem room_push (l : Ledger) (t : Transaction) :
    (l.push t).room = l.room - (recordHeaderSize + t.encodedLength) := by
  have hused := l.used_push t
  have hcapacity : (l.push t).capacity = l.capacity := rfl
  rw [room, room, hused, hcapacity, Nat.sub_sub]
  omega

namespace Accepts

variable {l : Ledger} {t : Transaction}

/-- The header of a record that there is room for tells the length of the record. -/
theorem recordLength_eq (ha : l.Accepts t) :
    (header l.back t).recordLength = recordHeaderSize + t.encodedLength := by
  have hroom := ha.2
  have hbodies := l.used_eq
  have hcapacity : l.capacity.toNat < UInt32.size := l.capacity.toNat_lt
  rw [room] at hroom
  apply recordLength_header
  · rw [back]
    omega
  · rw [back]
    omega

theorem used_push_lt (ha : l.Accepts t) : (l.push t).used < UInt32.size := by
  have hroom := ha.2
  have hcapacity : l.capacity.toNat < UInt32.size := l.capacity.toNat_lt
  rw [room] at hroom
  rw [used_push]
  simp only [recordHeaderSize] at hroom ⊢
  omega

end Accepts

theorem length_entriesFrom (stop : Nat) (ts : List Transaction) :
    (entriesFrom stop ts).length = ts.length := by
  induction ts generalizing stop with
  | nil => rfl
  | cons t ts ih => rw [entriesFrom, List.length_cons, ih, List.length_cons]

theorem entriesFrom_append (stop : Nat) (ts : List Transaction) (t : Transaction) :
    entriesFrom stop (ts ++ [t]) =
      entriesFrom stop ts ++ [(header (stop - bodyBytes ts) t, t)] := by
  induction ts generalizing stop with
  | nil => rfl
  | cons u ts ih =>
    rw [List.cons_append, entriesFrom, ih, entriesFrom, List.cons_append, Nat.sub_sub]
    rfl

theorem entries_push (l : Ledger) (t : Transaction) :
    (l.push t).entries = l.entries ++ [(header l.back t, t)] :=
  entriesFrom_append l.capacity.toNat l.records t

theorem map_snd_entries (l : Ledger) : l.entries.map (·.2) = l.records := by
  have hfrom : ∀ stop, (entriesFrom stop l.records).map (·.2) = l.records := by
    induction l.records with
    | nil => exact fun _ => rfl
    | cons t ts ih =>
      intro stop
      rw [entriesFrom, List.map_cons, ih]
  exact hfrom _

/-- The segment `s` on the store `b` holds the records of the ledger and nothing else. -/
structure Models (l : Ledger) (s : Segment) (b : ByteStore) : Prop where
  plain : b.Plain
  durable : b.durability ≠ .fails
  valid : CapacityOk l.capacity
  sound : s.Sound
  capacity : s.capacity = l.capacity
  front : s.cursors.front.toNat = slotOffset l.records.length
  back : s.cursors.back.toNat + bodyBytes l.records = l.capacity.toNat
  word : b.contents.Shows 0 s.cursors.bytes
  size : b.contents.size = l.capacity.toNat ∨ l.records = [] ∧ b.contents.size = wordSize
  recorded : ∀ (k : Nat) (e : RecordHeader × Transaction), l.entries[k]? = some e →
    Recorded b.contents k e.1 e.2 ∧ s.cursors.back.toNat ≤ e.1.start.toNat

namespace Models

variable {l : Ledger} {s : Segment} {b : ByteStore} {t : Transaction}

theorem of_fresh {id : UInt64} {asked capacity : UInt32} (h : Intact asked (fresh id capacity) b)
    (hdurable : b.durability ≠ .fails) (hcapacity : CapacityOk capacity) :
    (⟨capacity, []⟩ : Ledger).Models (fresh id capacity) b where
  plain := h.plain
  durable := hdurable
  valid := hcapacity
  sound := h.sound
  capacity := rfl
  front := front_fresh id capacity
  back := by
    rw [back_fresh]
    rfl
  word := h.word
  size := h.size.imp_right fun hsize => ⟨rfl, hsize.1⟩
  recorded := nofun

theorem start {id : UInt64} {capacity : UInt32} (hb : b.Plain) (hdurable : b.durability ≠ .fails)
    (hsmall : b.contents.size ≤ wordSize) (hcapacity : CapacityOk capacity) :
    Segment.start id capacity b = .ok (fresh id capacity)
        (b.withContents (b.contents.write 0 (fresh id capacity).cursors.bytes)) ∧
      (⟨capacity, []⟩ : Ledger).Models (fresh id capacity)
        (b.withContents (b.contents.write 0 (fresh id capacity).cursors.bytes)) := by
  have hstart := start_of_plain hb id capacity
  rw [started, if_pos hcapacity, opened] at hstart
  have hfound : found id capacity b.contents = .ok (fresh id capacity) :=
    found_of_small hsmall hcapacity
  exact ⟨hstart, of_fresh (intact_of_found hb hfound) hdurable hcapacity⟩

theorem wordSize_lt_capacity (h : l.Models s b) : wordSize < s.capacity.toNat := by
  rw [h.capacity]
  exact h.valid.wordSize_lt

theorem intact_of_size (h : l.Models s b) (hsize : b.contents.size = l.capacity.toNat)
    (asked : UInt32) : Intact asked s b where
  plain := h.plain
  sound := h.sound
  room := h.wordSize_lt_capacity
  word := h.word
  size := .inl (hsize.trans (congrArg UInt32.toNat h.capacity.symm))

theorem cursors_eq {s' : Segment} {b' : ByteStore} (h : l.Models s b) (h' : l.Models s' b') :
    s.cursors = s'.cursors := by
  have hback := h.back
  have hback' := h'.back
  apply Cursors.ext_halves
  · rw [← UInt32.toNat_inj, h.front, h'.front]
  · rw [← UInt32.toNat_inj]
    omega

theorem cursors_of_empty (h : l.Models s b) (hempty : l.records = []) :
    s.cursors = .ofCapacity l.capacity := by
  have hfront := h.front
  have hback := h.back
  rw [hempty] at hfront hback
  apply Cursors.ext_halves
  · rw [← UInt32.toNat_inj, hfront, Cursors.front_ofCapacity]
    rfl
  · rw [← UInt32.toNat_inj, Cursors.back_ofCapacity]
    exact hback

theorem intact (h : l.Models s b) : Intact l.capacity s b := by
  rcases h.size with hsize | ⟨hempty, hsize⟩
  · exact h.intact_of_size hsize _
  · exact ⟨h.plain, h.sound, h.wordSize_lt_capacity, h.word,
      .inr ⟨hsize, h.valid, h.capacity, h.cursors_of_empty hempty⟩⟩

theorem again (h : l.Models s b) (id : UInt64) : l.Models (s.again id) b :=
  { h with sound := h.sound.again id }

theorem back_eq (h : l.Models s b) : l.back = s.cursors.back.toNat := by
  rw [Ledger.back, ← h.back, Nat.add_sub_cancel]

theorem room_eq (h : l.Models s b) : s.cursors.front.toNat + l.room = s.cursors.back.toNat := by
  have hfront := h.front
  have hback := h.back
  have horder := h.sound.order
  have hused := l.used_eq
  simp only [slotOffset] at hfront
  rw [Ledger.room]
  omega

theorem space_eq (h : l.Models s b) : s.space = l.room := by
  have hroom := h.room_eq
  rw [space, Cursors.space_eq h.sound.back_le]
  omega

theorem used_eq (h : l.Models s b) : s.used = l.used := by
  have hfront := h.front
  have hback := h.back
  have hused := l.used_eq
  simp only [slotOffset] at hfront
  rw [Segment.used, h.capacity]
  omega

theorem used_lt (h : l.Models s b) : l.used < UInt32.size := by
  have hroom := h.room_eq
  have hcapacity := h.back
  have hused := l.used_eq
  have hlt : l.capacity.toNat < UInt32.size := l.capacity.toNat_lt
  have hfront := h.front
  simp only [slotOffset] at hfront
  omega

theorem nextHeader_eq (h : l.Models s b) (t : Transaction) :
    s.nextHeader t = Ledger.header l.back t := by
  rw [Ledger.header, h.back_eq, nextHeader, t.length_layout, UInt32.ofNat_toNat]

/-- What the ledger accepts is what the segment has room for. -/
theorem accepts_iff (h : l.Models s b) : l.Accepts t ↔ t.Writable ∧ s.Fits t.layout.length := by
  have hroom := h.room_eq
  rw [Accepts, Fits, t.length_layout]
  constructor
  · rintro ⟨hw, hle⟩
    exact ⟨hw, by omega⟩
  · rintro ⟨hw, hle⟩
    exact ⟨hw, by omega⟩

theorem size_le (h : l.Models s b) : b.contents.size ≤ s.capacity.toNat := by
  rcases h.size with hsize | ⟨-, hsize⟩
  · exact Nat.le_of_eq (by rw [hsize, h.capacity])
  · rw [hsize]
    exact Nat.le_trans h.sound.word (Nat.le_trans h.sound.order h.sound.within)

section Landing

variable {b' : ByteStore}

theorem size_landed (h : l.Models s b) (hw : t.Writable) (hfits : s.Fits t.layout.length)
    (hl : Landed s t b t.layout.length recordHeaderSize wordSize b') :
    b'.contents.size = l.capacity.toNat := by
  have hs := h.sound
  have hlength := h.back
  obtain ⟨-, -, htile⟩ := Landed.places hs hfits
  have hle := hl.size_le_capacity hs hfits h.size_le
  rw [h.capacity] at hle
  apply Nat.le_antisymm hle
  -- A store that is shorter than its segment has no records, so this body is the outermost.
  rcases h.size with hsize | ⟨hempty, -⟩
  · exact hsize ▸ hl.size_le
  · have hend : s.cursors.back.toNat = l.capacity.toNat := by
      rw [hempty] at hlength
      exact hlength
    rw [← hend, ← htile]
    exact (hl.recorded hs hfits hw h.front).body.size

/-- The record of the append stands behind those that were there. -/
theorem recorded_landed (h : l.Models s b) (hw : t.Writable) (hfits : s.Fits t.layout.length)
    (hl : Landed s t b t.layout.length recordHeaderSize wordSize b') {k : Nat}
    {e : RecordHeader × Transaction} (hk : (l.push t).entries[k]? = some e) :
    Recorded b'.contents k e.1 e.2 ∧
      (s.claimed t.layout.length).cursors.back.toNat ≤ e.1.start.toNat := by
  have hs := h.sound
  have hcount : l.entries.length = l.records.length := length_entriesFrom _ _
  have hback := hs.back_claimed hfits
  rw [← start_nextHeader] at hback
  rw [hback]
  rw [entries_push] at hk
  rcases Nat.lt_trichotomy k l.entries.length with hlt | rfl | hgt
  · rw [List.getElem?_append_left hlt] at hk
    obtain ⟨hold, hbehind⟩ := h.recorded k e hk
    have hfront : slotOffset (k + 1) ≤ s.cursors.front.toNat := by
      rw [h.front]
      exact slotOffset_mono (hcount ▸ hlt)
    obtain ⟨-, -, htile⟩ := Landed.places hs hfits
    exact ⟨hold.landed hl hs hfits hfront hbehind, by omega⟩
  · rw [List.getElem?_concat_length] at hk
    cases hk
    rw [hcount, ← h.nextHeader_eq]
    exact ⟨hl.recorded hs hfits hw h.front, Nat.le_refl _⟩
  · rw [List.getElem?_eq_none (by rw [List.length_append]; exact hgt)] at hk
    cases hk

theorem back_landed (h : l.Models s b) (hfits : s.Fits t.layout.length) :
    (s.claimed t.layout.length).cursors.back.toNat + bodyBytes (l.push t).records =
      l.capacity.toNat := by
  have hbodies : bodyBytes (l.push t).records = _ := bodyBytes_append l.records t
  have hback := h.sound.back_claimed hfits
  have hlength := h.back
  obtain ⟨-, -, htile⟩ := Landed.places h.sound hfits
  rw [← start_nextHeader] at hback
  rw [hback, hbodies, ← t.length_layout]
  omega

theorem word_landed (h : l.Models s b) (hw : t.Writable) (hfits : s.Fits t.layout.length)
    (hl : Landed s t b t.layout.length recordHeaderSize wordSize b') :
    b'.contents.Shows 0 (s.claimed t.layout.length).cursors.bytes := by
  have hs := h.sound
  have hlen := Cursors.length_bytes (s.claimed t.layout.length).cursors
  constructor
  · rw [hlen, h.size_landed hw hfits hl, Nat.zero_add, ← h.capacity]
    exact Nat.le_trans hs.word (Nat.le_trans hs.order hs.within)
  · rw [hlen]
    exact hl.word_full hs hfits

theorem landed (h : l.Models s b) (ha : l.Accepts t) (hplain : b'.Plain)
    (hdurable : b'.durability ≠ .fails)
    (hl : Landed s t b t.layout.length recordHeaderSize wordSize b') :
    (l.push t).Models (s.claimed t.layout.length).saved b' := by
  obtain ⟨hw, hfits⟩ := h.accepts_iff.1 ha
  have hs := h.sound
  have hfront : (s.claimed t.layout.length).cursors.front.toNat =
      slotOffset (l.push t).records.length := by
    have hcount : (l.push t).records.length = l.records.length + 1 := List.length_append
    rw [hs.front_claimed hfits, h.front, hcount, slotOffset_succ]
  exact
    { plain := hplain
      durable := hdurable
      valid := h.valid
      sound := (hs.claimed hfits).savedFront (Nat.le_refl _)
      capacity := h.capacity
      front := hfront
      back := h.back_landed hfits
      word := h.word_landed hw hfits hl
      size := .inl (h.size_landed hw hfits hl)
      recorded := fun _ _ hk => h.recorded_landed hw hfits hl hk }

end Landing

theorem append_of_accepts (h : l.Models s b) (ha : l.Accepts t) :
    ∃ s' b', append t ⟨s, b⟩ = .ok (header l.back t) ⟨s', b'⟩ ∧ s'.id = s.id ∧
      (l.push t).Models s' b' := by
  obtain ⟨hw, hfits⟩ := h.accepts_iff.1 ha
  have happend := append_of_plain (o := ⟨s, b⟩) h.plain h.sound hw hfits
  have hplain := h.plain.withContents (recordedContents s t b.contents)
  have hlanded := h.landed ha hplain h.durable (.of_plain h.plain)
  rw [h.nextHeader_eq] at happend
  exact ⟨_, _, happend, rfl, hlanded⟩

theorem append_of_not_accepts (h : l.Models s b) (ha : ¬ l.Accepts t) :
    ∃ e, append t ⟨s, b⟩ = .error e ⟨s, b⟩ ∧
      (t.Writable → e = .insufficientSpace (recordHeaderSize + t.encodedLength) l.room) ∧
      (¬ t.Writable → ∃ fault, e = .invalidTransaction fault) := by
  by_cases hw : t.Writable
  · have hfull : ¬ s.Fits t.layout.length := fun hfits => ha (h.accepts_iff.2 ⟨hw, hfits⟩)
    have happend := append_of_full (o := ⟨s, b⟩) h.sound hw hfull
    rw [h.space_eq, t.length_layout] at happend
    exact ⟨_, happend, fun _ => rfl, fun hnot => absurd hw hnot⟩
  · cases hencode : t.encode with
    | ok body => exact absurd (Transaction.encode_eq_ok_iff.1 hencode).1 hw
    | error e =>
      exact ⟨e, append_of_invalid hencode, fun hyes => absurd hyes hw,
        fun _ => Transaction.invalid_of_encode_error hencode⟩

theorem sync (h : l.Models s b) : Segment.sync ⟨s, b⟩ = .ok () ⟨s.saved, b⟩ ∧ l.Models s.saved b :=
  ⟨h.intact.sync_of_durable h.durable, { h with sound := h.sound.savedFront (Nat.le_refl _) }⟩

theorem attach (h : l.Models s b) (id : UInt64) :
    ∃ s', Segment.attach id l.capacity b = .ok s' b ∧ s'.cursors = s.cursors ∧ l.Models s' b :=
  ⟨s.again id, h.intact.attach_eq id, rfl, h.again id⟩

theorem slots_eq (h : l.Models s b) : s.slots = l.entries.length := by
  rw [slots, h.front, slotOffset, Nat.add_sub_cancel_left, Nat.mul_div_cancel_left _ (by decide),
    entries, length_entriesFrom]

theorem map_slotHeader (h : l.Models s b) :
    (List.range s.slots).map (slotHeader b.contents) = l.entries.map (·.1) := by
  rw [h.slots_eq]
  apply List.ext_getElem?
  intro k
  rw [List.getElem?_map, List.getElem?_map]
  cases hk : l.entries[k]? with
  | none =>
    rw [List.getElem?_eq_none (by rw [List.length_range]; exact List.getElem?_eq_none_iff.1 hk)]
    rfl
  | some e =>
    obtain ⟨hlt, -⟩ := List.getElem?_eq_some_iff.1 hk
    rw [List.getElem?_range hlt, Option.map_some, Option.map_some,
      (h.recorded k e hk).1.slotHeader_eq]

theorem headers_eq (h : l.Models s b) :
    headers ⟨s, b⟩ = .ok (l.entries.map (·.1)) ⟨s, b⟩ := by
  have hlisting : s.listing b.contents = l.entries.map (·.1) := h.map_slotHeader
  rw [h.intact.headers_eq, hlisting]

theorem transactionOf_eq (h : l.Models s b) {e : RecordHeader × Transaction} (he : e ∈ l.entries) :
    transactionOf e.1 ⟨s, b⟩ = .ok e.2 ⟨s, b⟩ := by
  obtain ⟨k, hk⟩ := List.mem_iff_getElem?.1 he
  obtain ⟨hrec, hback⟩ := h.recorded k e hk
  apply hrec.transactionOf_eq (o := ⟨s, b⟩) h.plain.toReadable hback
  have hstop := hrec.stop_le_size
  rcases h.size with hsize | ⟨hempty, -⟩
  · rwa [hsize, ← h.capacity] at hstop
  · rw [entries, hempty] at he
    cases he

theorem records_eq (h : l.Models s b) :
    Segment.records ⟨s, b⟩ = .ok (l.entries.map fun e => (e.1, .ok e.2)) ⟨s, b⟩ := by
  unfold Segment.records
  rw [Action.bind_of_ok h.headers_eq]
  exact recordsOf_eq (o := ⟨s, b⟩) fun e he => h.transactionOf_eq he

theorem renamed (h : l.Models s b) (path : Option Path) : l.Models { s with path } b :=
  { h with sound := h.sound.renamed path }

end Models

/-- The file `b` holds the records of the ledger, whether or not a segment is open on it. -/
structure Stored (l : Ledger) (b : ByteStore) : Prop where
  size : b.contents.size = l.capacity.toNat
  models : ∃ s, l.Models s b

/-- A session stands on the records of the ledger, and these are the ones it has acknowledged. -/
structure Follows (l : Ledger) (past : List Event) (σ : Session) : Prop where
  capacity : σ.capacity = l.capacity
  models : ∃ s, σ.segment? = some s ∧ l.Models s σ.store
  acks : (acks past).map (fun a => (a.header, a.transaction)) = l.entries

namespace Follows

variable {l : Ledger} {past : List Event} {σ : Session}

/-- Serving a request without a fault does what the ledger does. -/
theorem serve (h : l.Follows past σ) (request : Request) :
    (l.serve request).Follows (past ++ [(σ.serve request []).1]) (σ.serve request []).2 := by
  obtain ⟨s, hs, hmodels⟩ := h.models
  have hstore : σ.store.after σ.store.contents [] = σ.store := by
    rw [hmodels.plain.after_nil]
    rfl
  cases request with
  | append t =>
    rw [Ledger.serve]
    by_cases ha : l.Accepts t
    · obtain ⟨s', b', happend, -, hnext⟩ := hmodels.append_of_accepts ha
      rw [← hstore] at happend
      rw [if_pos ha, Session.serve_append_of_ok hs happend]
      refine ⟨h.capacity, ⟨s', rfl, hnext⟩, ?_⟩
      rw [acks_append, List.map_append, h.acks, entries_push]
      rfl
    · obtain ⟨e, happend, -, -⟩ := hmodels.append_of_not_accepts ha
      rw [← hstore] at happend
      rw [if_neg ha, Session.serve_append_of_error hs happend]
      refine ⟨h.capacity, ⟨s, rfl, hstore.symm ▸ hmodels⟩, ?_⟩
      rw [acks_append, List.map_append, h.acks]
      exact List.append_nil _
  | sync =>
    obtain ⟨hsync, hnext⟩ := hmodels.sync
    rw [← hstore] at hsync
    rw [Session.serve_sync_of_ok hs hsync]
    refine ⟨h.capacity, ⟨s.saved, rfl, hstore.symm ▸ hnext⟩, ?_⟩
    rw [acks_append, List.map_append, h.acks]
    exact List.append_nil _
  | reopen =>
    obtain ⟨s', hattach, -, hnext⟩ := hmodels.attach σ.id
    rw [← hstore, ← h.capacity] at hattach
    rw [Session.serve_reopen_of_ok hattach]
    refine ⟨h.capacity, ⟨s', rfl, hstore.symm ▸ hnext⟩, ?_⟩
    rw [acks_append, List.map_append, h.acks]
    exact List.append_nil _

theorem run (h : l.Follows past σ) (requests : List Request) :
    (l.run requests).Follows (past ++ (σ.run (requests.map (·, []))).1)
      (σ.run (requests.map (·, []))).2 := by
  induction requests generalizing l past σ with
  | nil =>
    rw [List.map_nil, Session.run, List.append_nil]
    exact h
  | cons request rest ih =>
    have hrest := ih (h.serve request)
    rw [List.append_assoc, List.singleton_append] at hrest
    exact hrest

end Follows

/-- What the segment `s` on the store `b` tells is what the ledger says. -/
structure Shown (l : Ledger) (s : Segment) (b : ByteStore) : Prop where
  front : s.cursors.front.toNat = wordSize + recordHeaderSize * l.records.length
  back : s.cursors.back.toNat + bodyBytes l.records = l.capacity.toNat
  used : s.used = l.used
  headers : headers ⟨s, b⟩ = .ok (l.entries.map (·.1)) ⟨s, b⟩
  transactions : ∀ e ∈ l.entries, transactionOf e.1 ⟨s, b⟩ = .ok e.2 ⟨s, b⟩
  /-- An append is acknowledged just if the ledger accepts it. -/
  accepted : ∀ t, l.Accepts t → ∃ o, append t ⟨s, b⟩ = .ok (header l.back t) o
  /-- Any other append leaves the segment and its store as they were. -/
  refused : ∀ t, ¬ l.Accepts t → ∃ e, append t ⟨s, b⟩ = .error e ⟨s, b⟩ ∧
    (t.Writable → e = .insufficientSpace (recordHeaderSize + t.encodedLength) l.room) ∧
    (¬ t.Writable → ∃ fault, e = .invalidTransaction fault)
  synced : ∃ s', sync ⟨s, b⟩ = .ok () ⟨s', b⟩ ∧ s'.cursors = s.cursors
  reopened : ∀ id, ∃ s', attach id l.capacity b = .ok s' b ∧ s'.cursors = s.cursors

theorem Models.shown {l : Ledger} {s : Segment} {b : ByteStore} (h : l.Models s b) : l.Shown s b where
  front := h.front
  back := h.back
  used := h.used_eq
  headers := h.headers_eq
  transactions := fun _ he => h.transactionOf_eq he
  accepted := fun _ ha => by
    obtain ⟨s', b', happend, -, -⟩ := h.append_of_accepts ha
    exact ⟨_, happend⟩
  refused := fun _ ha => h.append_of_not_accepts ha
  synced := ⟨_, h.sync.1, rfl⟩
  reopened := fun id => by
    obtain ⟨s', hattach, hcursors, -⟩ := h.attach id
    exact ⟨s', hattach, hcursors⟩

end Ledger

/-- A segment that is opened on an empty store and used without a fault is the list of the
transactions that were appended: after every run it tells what its ledger says, and the headers that
were answered are those of the ledger, in order. -/
theorem session_refines_ledger {id : UInt64} {capacity : UInt32} {store : ByteStore}
    (hb : store.Plain) (hdurable : store.durability ≠ .fails) (hempty : store.contents.size = 0)
    (hcapacity : CapacityOk capacity) (requests : List Request) :
    ∃ first store', attach id capacity store = .ok first store' ∧
      let history := Session.run ⟨id, capacity, some first, store'⟩ (requests.map (·, []))
      let ledger := Ledger.run ⟨capacity, []⟩ requests
      (acks history.1).map (fun a => (a.header, a.transaction)) = ledger.entries ∧
        ledger.capacity = capacity ∧
        ∃ s, history.2.segment? = some s ∧ ledger.Shown s history.2.store := by
  have hsmall : store.contents.size ≤ wordSize := hempty ▸ Nat.zero_le _
  obtain ⟨hstart, hmodels⟩ := @Ledger.Models.start store id _ hb hdurable hsmall hcapacity
  rw [← attach_of_small hb.toReadable hsmall] at hstart
  refine ⟨_, _, hstart, ?_⟩
  intro history ledger
  have hfirst : (⟨capacity, []⟩ : Ledger).Follows [] ⟨id, capacity, some (fresh id capacity),
      store.withContents (store.contents.write 0 (fresh id capacity).cursors.bytes)⟩ :=
    ⟨rfl, ⟨_, rfl, hmodels⟩, rfl⟩
  have hlast := hfirst.run requests
  rw [List.nil_append] at hlast
  obtain ⟨-, hkept⟩ := Session.run_id_capacity ⟨id, capacity, some (fresh id capacity),
    store.withContents (store.contents.write 0 (fresh id capacity).cursors.bytes)⟩
    (requests.map (·, []))
  obtain ⟨s, hs, hfound⟩ := hlast.models
  exact ⟨hlast.acks, hlast.capacity.symm.trans hkept, s, hs, hfound.shown⟩

/-- One record that fills the segment to the last byte, and one more that is refused. -/
theorem session_refines_ledger_full :
    let t : Transaction := { id := 7, changes := [.delete [97]] }
    let requests := [.append t, .reopen, .append { t with id := 8 }, .sync]
    CapacityOk 64 ∧ Ledger.run ⟨64, []⟩ requests = ⟨64, [t]⟩ ∧
      ∃ first store', attach 1 64 {} = .ok first store' ∧
        ∃ s, (Session.run ⟨1, 64, some first, store'⟩ (requests.map (·, []))).2.segment? = some s ∧
          Ledger.Shown ⟨64, [t]⟩ s
            (Session.run ⟨1, 64, some first, store'⟩ (requests.map (·, []))).2.store := by
  intro t requests
  have hrun : Ledger.run ⟨64, []⟩ requests = ⟨64, [t]⟩ := by decide
  refine ⟨by decide, hrun, ?_⟩
  obtain ⟨first, store', hfirst, -, -, s, hs, hshown⟩ := @session_refines_ledger 1 64 {}
    (ByteStore.plain_ofBytes []) (by decide) rfl (by decide) requests
  rw [hrun] at hshown
  exact ⟨first, store', hfirst, s, hs, hshown⟩

end Segment

end AppendStore
