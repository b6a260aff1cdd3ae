import AppendStore.Proofs.Segment.Landing
import AppendStore.Proofs.Segment.Opening

/-!
# Segments on plain stores

On a plain store everything that a segment does is decided by what it knows and by the
contents of the store. Opening finds what `Segment.found` says, and its word is on the
store afterwards (`Segment.attach_of_plain`).

`Segment.Intact` is what holds of a segment then, whatever stood on the store before, and
every operation keeps it. Such a segment tells its headers and its transactions without
fail (`Segment.Intact.headers_eq`, `Segment.Intact.transactionOf_eq`), and it is found
again as it is (`Segment.Intact.found_eq`).

A store is `Segment.Barren` if nothing but a fresh segment is found on it. This is what a
segment that was never finished leaves behind (`Segment.barren_of_small`,
`Segment.barren_of_zeros`), and what may stand by the name of a later segment without
being taken for one with records.
-/

namespace AppendStore

namespace Segment

def started (id : UInt64) (capacity : UInt32) : Except StoreError Segment :=
  if CapacityOk capacity then .ok (fresh id capacity)
  else .error (.config (.segmentCapacityOutOfRange id capacity))

def resumed (id : UInt64) (c : Contents) : Except StoreError Segment :=
  if maxCapacity < c.size then .error (.decode (.oversizedSegment id c.size))
  else if (Cursors.ofBytes (c.window 0 wordSize)).word = 0 then started id (UInt32.ofNat c.size)
  else ofCursors id (UInt32.ofNat c.size) (.ofBytes (c.window 0 wordSize))

/-- The segment that contents hold, or a fresh one if they hold no more than a word. -/
def found (id : UInt64) (capacity : UInt32) (c : Contents) : Except StoreError Segment :=
  if c.size ≤ wordSize then started id capacity else resumed id c

def opened (b : ByteStore) : Except StoreError Segment → EStateM.Result StoreError ByteStore Segment
  | .ok s => .ok s (b.withContents (b.contents.write 0 s.cursors.bytes))
  | .error e => .error e b

def listing (s : Segment) (c : Contents) : List RecordHeader :=
  (List.range s.slots).map (slotHeader c)

def reading (s : Segment) (c : Contents) (h : RecordHeader) : Except StoreError Transaction :=
  if s.Holds h then readBody h (c.window h.start.toNat h.bodyLength)
  else .error (.decode (.bodyOutside h.transactionId h.start h.stop))

def again (s : Segment) (id : UInt64) : Segment where
  id
  capacity := s.capacity
  cursors := s.cursors
  savedFront := s.cursors.front

variable {id : UInt64} {capacity : UInt32} {b : ByteStore} {s : Segment} {t : Transaction}

theorem started_eq_ok (h : started id capacity = .ok s) :
    CapacityOk capacity ∧ s = fresh id capacity := by
  unfold started at h
  split at h
  · next hcapacity =>
    cases h
    exact ⟨hcapacity, rfl⟩
  · cases h

theorem found_of_small {c : Contents} (hsmall : c.size ≤ wordSize) (hcapacity : CapacityOk capacity) :
    found id capacity c = .ok (fresh id capacity) := by
  rw [found, if_pos hsmall, started, if_pos hcapacity]

theorem Sound.again (hs : s.Sound) (id : UInt64) : (s.again id).Sound :=
  ⟨hs.word, hs.order, hs.within, hs.capacity, Nat.le_refl _⟩

theorem resumed_of_zeros {c : Contents} (hmax : c.size ≤ maxCapacity)
    (hzeros : c.window 0 wordSize = List.replicate wordSize 0) (id : UInt64) :
    resumed id c = started id (UInt32.ofNat c.size) := by
  rw [resumed, if_neg (Nat.not_lt.2 hmax), hzeros]
  exact if_pos rfl

theorem Sound.renamed (hs : s.Sound) (path : Option Path) : Sound { s with path } :=
  ⟨hs.word, hs.order, hs.within, hs.capacity, hs.saved⟩

theorem start_of_plain (hb : b.Plain) (id : UInt64) (capacity : UInt32) :
    start id capacity b = opened b (started id capacity) := by
  unfold start started
  by_cases hcapacity : CapacityOk capacity
  · rw [if_pos hcapacity, if_pos hcapacity,
      Action.bind_of_ok (writeWhole_of_plain hb (fresh id capacity).cursors.bytes 0)]
    rfl
  · rw [if_neg hcapacity, if_neg hcapacity]
    rfl

theorem resume_of_plain (hb : b.Plain) (hsize : wordSize ≤ b.contents.size) (id : UInt64) :
    resume id b = opened b (resumed id b.contents) := by
  unfold resumed
  by_cases hmax : maxCapacity < b.contents.size
  · unfold resume
    rw [Action.get_bind, hb.size_eq, if_pos hmax, if_pos hmax]
    rfl
  · rw [if_neg hmax]
    by_cases hzero : (Cursors.ofBytes (b.contents.window 0 wordSize)).word = 0
    · rw [if_pos hzero, ← start_of_plain hb,
        resume_eq_ite hb.toReadable hsize (Nat.le_of_not_lt hmax), if_pos hzero]
    · rw [if_neg hzero, resume_eq hb.toReadable hsize (Nat.le_of_not_lt hmax) hzero]
      cases hcursors : ofCursors id (UInt32.ofNat b.contents.size)
          (.ofBytes (b.contents.window 0 wordSize)) with
      | error e => rfl
      | ok s =>
        have hbound : (UInt32.ofNat b.contents.size).toNat ≤ maxCapacity :=
          Nat.le_trans (Nat.mod_le _ _) (Nat.le_of_not_lt hmax)
        obtain ⟨-, rfl⟩ := sound_of_ofCursors hbound hcursors
        have hshows : b.contents.Shows 0 (b.contents.window 0 wordSize) :=
          Contents.shows_window (by rwa [Nat.zero_add])
        rw [opened, Cursors.bytes_ofBytes (Contents.length_window _ _ _), hshows.write_eq]
        rfl

theorem attach_of_plain (hb : b.Plain) (id : UInt64) (capacity : UInt32) :
    attach id capacity b = opened b (found id capacity b.contents) := by
  unfold found
  by_cases hsize : b.contents.size ≤ wordSize
  · rw [if_pos hsize, attach_of_small hb.toReadable hsize, start_of_plain hb]
  · rw [if_neg hsize, attach_of_large hb.toReadable (Nat.lt_of_not_le hsize),
      resume_of_plain hb (Nat.le_of_not_le hsize)]

theorem found_of_shows {c : Contents} {cursors : Cursors} (hword : c.Shows 0 cursors.bytes)
    (hlarge : wordSize < c.size) (hmax : c.size ≤ maxCapacity)
    (hfront : wordSize ≤ cursors.front.toNat) (horder : cursors.front.toNat ≤ cursors.back.toNat)
    (hwithin : cursors.back.toNat ≤ c.size) (id : UInt64) (capacity : UInt32) :
    found id capacity c =
      .ok { id, capacity := UInt32.ofNat c.size, cursors, savedFront := cursors.front } := by
  have hsize := toNat_ofNat_of_le_maxCapacity hmax
  have hwindow := hword.window
  rw [Cursors.length_bytes] at hwindow
  have hne := Cursors.word_ne_zero (Nat.lt_of_lt_of_le (by decide) hfront)
  unfold found resumed
  rw [if_neg (Nat.not_le_of_lt hlarge), if_neg (Nat.not_lt_of_le hmax), hwindow,
    Cursors.ofBytes_bytes, if_neg hne, ofCursors_of_order hfront horder (by rwa [hsize])]

/-- The segment is in order, its word stands on the store, and the store has the size of the
segment. As long as there is no record, a store of a segment that was given the capacity `asked` may
also end behind the word. -/
structure Intact (asked : UInt32) (s : Segment) (b : ByteStore) : Prop where
  plain : b.Plain
  sound : s.Sound
  room : wordSize < s.capacity.toNat
  word : b.contents.Shows 0 s.cursors.bytes
  size : b.contents.size = s.capacity.toNat ∨
    b.contents.size = wordSize ∧ CapacityOk asked ∧ s.capacity = asked ∧
      s.cursors = .ofCapacity asked

theorem sound_of_resumed {c : Contents} (h : resumed id c = .ok s) :
    s.Sound ∧ s.capacity.toNat = c.size := by
  unfold resumed at h
  split at h
  · cases h
  · next hmax =>
    have hcapacity := toNat_ofNat_of_le_maxCapacity (Nat.le_of_not_lt hmax)
    split at h
    · obtain ⟨hok, rfl⟩ := started_eq_ok h
      exact ⟨sound_fresh hok, hcapacity⟩
    · obtain ⟨hsound, rfl⟩ := sound_of_ofCursors (by omega) h
      exact ⟨hsound, hcapacity⟩

/-- Whatever stands on a store, a segment that is found there is intact. -/
theorem intact_of_found (hb : b.Plain) (h : found id capacity b.contents = .ok s) :
    Intact capacity s (b.withContents (b.contents.write 0 s.cursors.bytes)) := by
  have hword : (b.contents.write 0 s.cursors.bytes).Shows 0 s.cursors.bytes :=
    Contents.shows_write _ s.cursors.bytes_ne_nil
  have hwritten : (b.contents.write 0 s.cursors.bytes).size = max b.contents.size wordSize := by
    rw [Contents.size_write s.cursors.bytes_ne_nil, Cursors.length_bytes, Nat.zero_add]
  unfold found at h
  split at h
  · next hsmall =>
    obtain ⟨hcapacity, rfl⟩ := started_eq_ok h
    exact ⟨hb.withContents _, sound_fresh hcapacity, hcapacity.wordSize_lt, hword,
      .inr ⟨hwritten.trans (Nat.max_eq_right hsmall), hcapacity, rfl, rfl⟩⟩
  · next hlarge =>
    have hlt := Nat.lt_of_not_le hlarge
    obtain ⟨hsound, hcapacity⟩ := sound_of_resumed h
    exact ⟨hb.withContents _, hsound, hcapacity ▸ hlt, hword,
      .inl (hwritten.trans ((Nat.max_eq_left (Nat.le_of_lt hlt)).trans hcapacity.symm))⟩

theorem intact_of_attach {b₀ : ByteStore} (hb : b.Plain) (h : attach id capacity b = .ok s b₀) :
    Intact capacity s b₀ := by
  rw [attach_of_plain hb] at h
  cases hfound : found id capacity b.contents with
  | error e =>
    rw [hfound] at h
    cases h
  | ok s' =>
    rw [hfound] at h
    cases h
    exact intact_of_found hb hfound

namespace Intact

variable {asked : UInt32}

theorem front_le_size (h : Intact asked s b) : s.cursors.front.toNat ≤ b.contents.size := by
  rcases h.size with hsize | ⟨hsize, -, -, hcursors⟩
  · rw [hsize]
    exact Nat.le_trans h.sound.order h.sound.within
  · rw [hsize, hcursors, Cursors.front_ofCapacity]
    exact Nat.le_refl _

theorem size_le (h : Intact asked s b) : b.contents.size ≤ s.capacity.toNat := by
  rcases h.size with hsize | ⟨hsize, -, -, -⟩
  · exact Nat.le_of_eq hsize
  · rw [hsize]
    exact Nat.le_of_lt h.room

theorem stop_le_size (h : Intact asked s b) {header : RecordHeader} (hholds : s.Holds header) :
    header.stop.toNat ≤ b.contents.size := by
  obtain ⟨hback, hstop, hlt⟩ := hholds
  rcases h.size with hsize | ⟨-, -, hcapacity, hcursors⟩
  · rw [hsize]
    exact UInt32.le_iff_toNat_le.1 hstop
  · rw [hcursors, Cursors.back_ofCapacity, ← hcapacity] at hback
    exact absurd (UInt32.lt_of_lt_of_le hlt hstop) (UInt32.not_lt.2 hback)

theorem headers_eq (h : Intact asked s b) :
    headers ⟨s, b⟩ = .ok (s.listing b.contents) ⟨s, b⟩ :=
  headers_of_readable (o := ⟨s, b⟩) h.plain.toReadable h.sound.word h.front_le_size

theorem transactionOf_eq (h : Intact asked s b) (header : RecordHeader) :
    transactionOf header ⟨s, b⟩ = Action.ofExcept (s.reading b.contents header) ⟨s, b⟩ := by
  unfold reading
  by_cases hholds : s.Holds header
  · have hlt := UInt32.lt_iff_toNat_lt.1 hholds.2.2
    have hstop : header.stop.toNat = header.start.toNat + header.bodyLength := by
      rw [RecordHeader.bodyLength]
      omega
    have hshows : b.contents.Shows header.start.toNat
        (b.contents.window header.start.toNat header.bodyLength) :=
      Contents.shows_window (hstop ▸ h.stop_le_size hholds)
    rw [if_pos hholds]
    exact transactionOf_of_shows (o := ⟨s, b⟩) h.plain.toReadable hholds hshows
      (by rwa [Contents.length_window])
  · rw [if_neg hholds, transactionOf_of_outside (o := ⟨s, b⟩) hholds]
    rfl

/-- What is found again on the store is the segment. -/
theorem found_eq (h : Intact asked s b) (id : UInt64) :
    found id asked b.contents = .ok (s.again id) := by
  rcases h.size with hsize | ⟨hsize, hasked, hcapacity, hcursors⟩
  · have hfound := found_of_shows h.word (hsize ▸ h.room) (hsize ▸ h.sound.capacity) h.sound.word
      h.sound.order (hsize ▸ h.sound.within) id asked
    rw [hfound, hsize, UInt32.ofNat_toNat]
    rfl
  · rw [found, hsize, if_pos (Nat.le_refl _), started, if_pos hasked, again, hcapacity, hcursors,
      Cursors.front_ofCapacity]
    rfl

theorem again (h : Intact asked s b) (id : UInt64) : Intact asked (s.again id) b :=
  { h with sound := h.sound.again id }

theorem renamed (h : Intact asked s b) (path : Option Path) : Intact asked { s with path } b :=
  { h with sound := h.sound.renamed path }

theorem extended (h : Intact asked s b) :
    Intact asked s (b.withContents (b.contents.extend s.capacity.toNat)) :=
  { h with
    plain := h.plain.withContents _
    word := h.word.extend _
    size := .inl (Nat.max_eq_right h.size_le) }

theorem write_again (h : Intact asked s b) (id : UInt64) :
    b.withContents (b.contents.write 0 (s.again id).cursors.bytes) = b := by
  have hword : b.contents.write 0 (s.again id).cursors.bytes = b.contents := h.word.write_eq
  rw [hword]
  rfl

/-- Opening the store again changes nothing on it. -/
theorem attach_eq (h : Intact asked s b) (id : UInt64) :
    attach id asked b = .ok (s.again id) b := by
  rw [attach_of_plain h.plain, h.found_eq, opened, h.write_again]

theorem saved (h : Intact asked s b) : Intact asked s.saved b :=
  { h with sound := h.sound.savedFront (Nat.le_refl _) }

theorem sync_cases (h : Intact asked s b) :
    sync ⟨s, b⟩ = .ok () ⟨s.saved, b⟩ ∨
      b.durability = .fails ∧ ∃ e, sync ⟨s, b⟩ = .error e ⟨s.saved, b⟩ := by
  have hword := writeWhole_of_plain h.plain s.cursors.bytes 0
  rw [h.word.write_eq] at hword
  have hsaved := saveCursors_of_ok (UInt32.le_iff_toNat_le.2 h.sound.saved) hword
  rcases sync_of_saved hsaved h.plain.toReadable with hsync | ⟨hfails, hsync⟩
  · exact .inl hsync
  · exact .inr ⟨hfails, _, hsync⟩

theorem sync_of_durable (h : Intact asked s b) (hdurable : b.durability ≠ .fails) :
    sync ⟨s, b⟩ = .ok () ⟨s.saved, b⟩ :=
  h.sync_cases.resolve_right fun hfails => hdurable hfails.1

theorem size_recordedContents (h : Intact asked s b) (hw : t.Writable)
    (hfits : s.Fits t.layout.length) :
    (recordedContents s t b.contents).size = s.capacity.toNat := by
  have hl := Landed.of_plain (s := s) (t := t) h.plain
  have hle := hl.size_le_capacity h.sound hfits h.size_le
  apply Nat.le_antisymm hle
  rcases h.size with hsize | ⟨-, -, hcapacity, hcursors⟩
  · exact hsize ▸ hl.size_le
  · obtain ⟨-, -, htile⟩ := Landed.places h.sound hfits
    have hend := (hl.shows_body h.sound hfits hw (by decide)).size
    rw [htile, hcursors, Cursors.back_ofCapacity, ← hcapacity] at hend
    exact hend

/-- An append that has its space leaves the segment intact. -/
theorem recorded (h : Intact asked s b) (hw : t.Writable) (hfits : s.Fits t.layout.length) :
    Intact asked (s.claimed t.layout.length).saved
      (b.withContents (recordedContents s t b.contents)) where
  plain := h.plain.withContents _
  sound := (h.sound.claimed hfits).savedFront (Nat.le_refl _)
  room := h.room
  word := Contents.shows_write _ (Cursors.bytes_ne_nil _)
  size := .inl (h.size_recordedContents hw hfits)

end Intact

/-- The store has no records: whatever is found on it is a fresh segment. -/
structure Barren (id : UInt64) (b : ByteStore) : Prop where
  plain : b.Plain
  durable : b.durability ≠ .fails
  fresh : ∀ {capacity : UInt32} {s : Segment}, found id capacity b.contents = .ok s →
    CapacityOk s.capacity ∧ s = Segment.fresh id s.capacity

/-- A store of no more than a word has no records. -/
theorem barren_of_small (hplain : b.Plain) (hdurable : b.durability ≠ .fails)
    (hsmall : b.contents.size ≤ wordSize) (id : UInt64) : Barren id b where
  plain := hplain
  durable := hdurable
  fresh := fun hfound => by
    rw [found, if_pos hsmall] at hfound
    obtain ⟨hcapacity, rfl⟩ := started_eq_ok hfound
    exact ⟨hcapacity, rfl⟩

/-- Nor does one that is zeros where its word should be. -/
theorem barren_of_zeros (hplain : b.Plain) (hdurable : b.durability ≠ .fails)
    (hlarge : wordSize < b.contents.size) (hmax : b.contents.size ≤ maxCapacity)
    (hzeros : b.contents.window 0 wordSize = List.replicate wordSize 0) (id : UInt64) :
    Barren id b where
  plain := hplain
  durable := hdurable
  fresh := fun hfound => by
    rw [found, if_neg (Nat.not_le_of_lt hlarge), resumed_of_zeros hmax hzeros] at hfound
    obtain ⟨hcapacity, rfl⟩ := started_eq_ok hfound
    exact ⟨hcapacity, rfl⟩

end Segment

end AppendStore
