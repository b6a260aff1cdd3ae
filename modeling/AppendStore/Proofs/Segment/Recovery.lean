import AppendStore.Proofs.Action
import AppendStore.Proofs.Segment.Landing
import AppendStore.Proofs.Segment.Session
import AppendStore.Proofs.Segment.StoredWord

/-!
# Acknowledged records outlive torn writes

`Segment.Kept` is what every request keeps, whatever becomes of its writes: each
acknowledged record stands in the store, in front of the front cursor and behind the
back cursor of the last word that was written in full. No blend of the words since
then moves the cursors past it, so a segment that is opened again lists the record
and reads it (`Segment.acknowledged_survive`), unless the blend is found to be no word
of a segment at all.
-/

namespace AppendStore

namespace Segment

/-- The record is listed at its slot and its transaction is read. -/
def Reads (o : Over Segment ByteStore) (a : Ack) : Prop :=
  ∃ found, headers o = .ok found o ∧ found[a.slot]? = some a.header ∧
    transactionOf a.header o = .ok a.transaction o

structure Ack.Within (a : Ack) (c : Cursors) : Prop where
  front : slotOffset (a.slot + 1) ≤ c.front.toNat
  back : c.back.toNat ≤ a.header.start.toNat

/-- What a session keeps of its acknowledged records `as`. If `exact` holds, nothing was written
since the last of them. -/
structure Kept (as : List Ack) (exact : Prop) (σ : Session) : Prop where
  capacity : CapacityOk σ.capacity
  readable : σ.store.Readable
  room : σ.store.HasRoom 0 wordSize
  bounded : σ.store.contents.size ≤ maxCapacity
  recorded : ∀ a ∈ as, Recorded σ.store.contents a.slot a.header a.transaction
  small : σ.store.contents.size ≤ wordSize → as = [] ∧ ¬ exact
  sound : ∀ s, σ.segment? = some s → s.Sound ∧ σ.store.contents.size ≤ s.capacity.toNat
  word : (σ.segment? = none → wordSize < σ.store.contents.size) →
    ∃ base current, StoredWord base current (σ.store.contents.window 0 wordSize) ∧
      wordSize ≤ base.front.toNat ∧ (∀ a ∈ as, a.Within base) ∧
      ∀ s, σ.segment? = some s → s.cursors = current
  exact : exact → ∃ s, σ.segment? = some s ∧ s.cursors.back.toNat ≤ σ.store.contents.size ∧
    σ.store.contents.window 0 wordSize = s.cursors.bytes

variable {as : List Ack} {exact : Prop} {σ : Session} {s : Segment}

theorem Ack.Within.mono {a : Ack} {c d : Cursors} (h : a.Within c)
    (hfront : c.front.toNat ≤ d.front.toNat) (hback : d.back.toNat ≤ c.back.toNat) : a.Within d :=
  ⟨Nat.le_trans h.front hfront, Nat.le_trans hback h.back⟩

theorem Sound.front_eq (hs : s.Sound) (h : s.cursors.front.toNat % 16 = 8) :
    s.cursors.front.toNat = slotOffset s.slots := by
  have hword := hs.word
  simp only [slotOffset, slots, wordSize, recordHeaderSize] at hword ⊢
  omega

theorem reads_of_within {o : Over Segment ByteStore} {a : Ack} (hb : o.base.Readable)
    (hs : o.item.Sound) (hsize : o.item.capacity.toNat = o.base.contents.size)
    (hrec : Recorded o.base.contents a.slot a.header a.transaction)
    (hwithin : a.Within o.item.cursors) : Reads o a := by
  have horder := Nat.le_trans hs.order hs.within
  have hslot : a.slot < o.item.slots := by
    have hfront := hwithin.front
    simp only [slotOffset, slots, wordSize, recordHeaderSize] at hfront ⊢
    omega
  refine ⟨_, headers_of_readable hb hs.word (hsize ▸ horder), ?_, ?_⟩
  · rw [List.getElem?_map, List.getElem?_range hslot, Option.map_some, hrec.slotHeader_eq]
  · exact hrec.transactionOf_eq hb hwithin.back (hsize ▸ hrec.stop_le_size)

namespace Kept

theorem start {b b' : ByteStore} (hb : b.Readable) (hsize : b.contents.size ≤ wordSize)
    (hcapacity : CapacityOk σ.capacity)
    (htorn : b.Torn 0 (fresh σ.id σ.capacity).cursors.bytes wordSize b') :
    Kept [] False (σ.on ⟨fresh σ.id σ.capacity, b'⟩) := by
  have hfront := front_fresh σ.id σ.capacity
  have haligned : (fresh σ.id σ.capacity).cursors.front.toNat % 16 = 8 := by
    rw [hfront]
    rfl
  have hsize' := size_le_of_torn_word htorn hsize (Nat.le_refl _)
  have hword : b'.contents.window 0 wordSize = (fresh σ.id σ.capacity).cursors.bytes := by
    rw [htorn.contents_eq, ← (fresh σ.id σ.capacity).cursors.length_bytes, List.take_length,
      Contents.window_write]
  exact
    { capacity := hcapacity
      readable := htorn.readable hb
      room := fun limit hlimit => htorn.room (by decide) limit (htorn.limit_eq ▸ hlimit)
      bounded := Nat.le_trans hsize' (by decide)
      recorded := nofun
      small := fun _ => ⟨rfl, not_false⟩
      sound := by
        rintro _ ⟨⟩
        exact ⟨sound_fresh hcapacity, Nat.le_trans hsize' (Nat.le_of_lt hcapacity.wordSize_lt)⟩
      word := fun _ => by
        refine ⟨(fresh σ.id σ.capacity).cursors, (fresh σ.id σ.capacity).cursors,
          hword.symm ▸ .self haligned, Nat.le_of_eq hfront.symm, nofun, ?_⟩
        rintro _ ⟨⟩
        rfl
      exact := False.elim }

theorem mono {exact' : Prop} (h : Kept as exact σ) (himp : exact' → exact) : Kept as exact' σ :=
  { h with
    small := fun hsize => (h.small hsize).imp_right fun hnot hexact => hnot (himp hexact)
    exact := fun hexact => h.exact (himp hexact) }

theorem stored (h : Kept as exact σ) (hs : σ.segment? = some s) :
    ∃ base, StoredWord base s.cursors (σ.store.contents.window 0 wordSize) ∧
      wordSize ≤ base.front.toNat ∧ ∀ a ∈ as, a.Within base := by
  obtain ⟨base, current, hword, hbase, hwithin, hcurrent⟩ := h.word (by rw [hs]; exact nofun)
  rw [← hcurrent s hs] at hword
  exact ⟨base, hword, hbase, hwithin⟩

theorem within (h : Kept as exact σ) (hs : σ.segment? = some s) :
    s.cursors.front.toNat % 16 = 8 ∧ ∀ a ∈ as, a.Within s.cursors := by
  obtain ⟨base, hword, -, hwithin⟩ := h.stored hs
  exact ⟨hword.aligned, fun a ha => (hwithin a ha).mono hword.front_le hword.back_le⟩

theorem after (h : Kept as exact σ) (hs : σ.segment? = some s) (plan : List Outcome) :
    Kept as exact (σ.on ⟨s, σ.store.after σ.store.contents plan⟩) where
  capacity := h.capacity
  readable := h.readable.after _ plan
  room := h.room
  bounded := h.bounded
  recorded := h.recorded
  small := h.small
  sound := fun s' hs' => h.sound s' (hs.trans hs')
  word := fun _ => by
    obtain ⟨base, current, hword, hfront, hwithin, hcurrent⟩ := h.word (by rw [hs]; exact nofun)
    exact ⟨base, current, hword, hfront, hwithin, fun s' hs' => hcurrent s' (hs.trans hs')⟩
  exact := fun hexact => by
    obtain ⟨s', hs', hback⟩ := h.exact hexact
    exact ⟨s', hs.symm.trans hs', hback⟩

theorem stored_landed {t : Transaction} {s' : Segment} {b' : ByteStore} {i j k : Nat}
    {plan : List Outcome} (h : Kept as exact σ) (hs : σ.segment? = some s)
    (hfits : s.Fits t.layout.length)
    (hl : Landed s t (σ.store.after σ.store.contents plan) i j k b')
    (hcursors : s'.cursors = (s.claimed t.layout.length).cursors) :
    ∃ base, StoredWord base s'.cursors (b'.contents.window 0 wordSize) ∧
      wordSize ≤ base.front.toNat ∧ ∀ a ∈ as, a.Within base := by
  obtain ⟨hsound, -⟩ := h.sound s hs
  obtain ⟨base, hword, hbase, hwithin⟩ := h.stored hs
  have hfront := hsound.front_claimed hfits
  have hback := hsound.back_claimed hfits
  have heq := hl.word_eq hsound hfits
  rw [← hcursors] at hfront hback heq
  have hclaim : StoredWord base s'.cursors (σ.store.contents.window 0 wordSize) := by
    apply hword.claim
    · rw [hfront]
      exact Nat.le_add_right _ _
    · rw [hback]
      exact Nat.sub_le _ _
    · rw [hfront]
      exact (Nat.add_mod_right _ 16).trans hword.aligned
  exact ⟨base, heq.symm ▸ hclaim.overwrite k, hbase, hwithin⟩

theorem landed {t : Transaction} {s' : Segment} {b' : ByteStore} {i j k : Nat} {plan : List Outcome}
    (h : Kept as exact σ) (hs : σ.segment? = some s) (hfits : s.Fits t.layout.length)
    (hl : Landed s t (σ.store.after σ.store.contents plan) i j k b')
    (hsound : s'.Sound) (hcursors : s'.cursors = (s.claimed t.layout.length).cursors)
    (hcapacity : s'.capacity = s.capacity) : Kept as False (σ.on ⟨s', b'⟩) := by
  obtain ⟨hs', hsize⟩ := h.sound s hs
  obtain ⟨-, hwithin⟩ := h.within hs
  have hsize' := hl.size_le_capacity hs' hfits hsize
  exact
    { capacity := h.capacity
      readable := hl.readable
      room := fun limit hlimit => h.room limit (hl.limit.symm.trans hlimit)
      bounded := Nat.le_trans hsize' hs'.capacity
      recorded := fun a ha => by
        have hrec : Recorded (σ.store.after σ.store.contents plan).contents a.slot a.header
            a.transaction := h.recorded a ha
        exact hrec.landed hl hs' hfits (hwithin a ha).front (hwithin a ha).back
      small := fun hsmall => ⟨(h.small (Nat.le_trans hl.size_le hsmall)).1, not_false⟩
      sound := by
        rintro _ ⟨⟩
        exact ⟨hsound, hcapacity ▸ hsize'⟩
      word := fun _ => by
        obtain ⟨base, hword, hbase, hwithin'⟩ := h.stored_landed hs hfits hl hcursors
        refine ⟨base, s'.cursors, hword, hbase, hwithin', ?_⟩
        rintro _ ⟨⟩
        rfl
      exact := False.elim }

theorem synced {s' : Segment} {b' : ByteStore} {k : Nat} {plan : List Outcome}
    (h : Kept as exact σ) (hs : σ.segment? = some s)
    (htorn : (σ.store.after σ.store.contents plan).Torn 0 s.cursors.bytes k b')
    (hsound : s'.Sound) (hcursors : s'.cursors = s.cursors) (hcapacity : s'.capacity = s.capacity) :
    Kept as False (σ.on ⟨s', b'⟩) := by
  obtain ⟨hs', hsize⟩ := h.sound s hs
  have hlen := s.cursors.length_bytes
  have hroom := Nat.le_trans hs'.word (Nat.le_trans hs'.order hs'.within)
  have hsize' := size_le_of_torn_word htorn hsize hroom
  have hgrows : σ.store.contents.size ≤ b'.contents.size :=
    htorn.contents_eq ▸ Contents.size_le_size_write _ _ _
  have hwindow := Contents.window_write_take σ.store.contents 0 s.cursors.bytes k
  rw [hlen] at hwindow
  exact
    { capacity := h.capacity
      readable := htorn.readable (h.readable.after _ _)
      room := fun limit hlimit => h.room limit (htorn.limit_eq.symm.trans hlimit)
      bounded := Nat.le_trans hsize' hs'.capacity
      recorded := fun a ha => by
        have hrec : Recorded (σ.store.after σ.store.contents plan).contents a.slot a.header
            a.transaction := h.recorded a ha
        exact hrec.torn_word hlen htorn
      small := fun hsmall => ⟨(h.small (Nat.le_trans hgrows hsmall)).1, not_false⟩
      sound := by
        rintro _ ⟨⟩
        exact ⟨hsound, hcapacity ▸ hsize'⟩
      word := fun _ => by
        obtain ⟨base, hword, hbase, hwithin⟩ := h.stored hs
        refine ⟨base, s.cursors, ?_, hbase, hwithin, ?_⟩
        · exact htorn.contents_eq.symm ▸ hwindow.symm ▸ hword.overwrite k
        · rintro _ ⟨⟩
          exact hcursors
      exact := False.elim }

/-- An append that has succeeded: its word is the one that stands on the store. -/
theorem acknowledged {a : Ack} (h : Kept as exact σ) (hs : σ.segment? = some s)
    (hword : σ.store.contents.window 0 wordSize = s.cursors.bytes)
    (hrec : Recorded σ.store.contents a.slot a.header a.transaction) (ha : a.Within s.cursors) :
    Kept (as ++ [a]) True σ := by
  obtain ⟨haligned, hwithin⟩ := h.within hs
  have hback := Nat.le_trans (Nat.le_of_lt hrec.start_lt_stop) hrec.stop_le_size
  have hlarge : wordSize < σ.store.contents.size := by
    have hslot := wordSize_le_slotOffset (a.slot + 1)
    exact Nat.lt_of_le_of_lt (Nat.le_trans hslot hrec.behind)
      (Nat.lt_of_lt_of_le hrec.start_lt_stop hrec.stop_le_size)
  exact
    { capacity := h.capacity
      readable := h.readable
      room := h.room
      bounded := h.bounded
      recorded := List.forall_mem_append.2 ⟨h.recorded, List.forall_mem_singleton.2 hrec⟩
      small := fun hsmall => absurd hsmall (Nat.not_le_of_lt hlarge)
      sound := h.sound
      word := fun _ => by
        refine ⟨s.cursors, s.cursors, hword.symm ▸ .self haligned, (h.sound s hs).1.word, ?_, ?_⟩
        · exact List.forall_mem_append.2 ⟨hwithin, List.forall_mem_singleton.2 ha⟩
        · intro s' hs'
          rw [Option.some.inj (hs.symm.trans hs')]
      exact := fun _ => ⟨s, hs, Nat.le_trans ha.back hback, hword⟩ }

theorem appended {t : Transaction} {b' : ByteStore} {plan : List Outcome} (h : Kept as exact σ)
    (hs : σ.segment? = some s) (hfits : s.Fits t.layout.length) (hw : t.Writable)
    (hl : Landed s t (σ.store.after σ.store.contents plan) t.layout.length recordHeaderSize
      wordSize b') :
    Kept (as ++ [⟨s.slots, s.nextHeader t, t⟩]) True
      (σ.on ⟨(s.claimed t.layout.length).saved, b'⟩) := by
  obtain ⟨hsound, -⟩ := h.sound s hs
  obtain ⟨haligned, -⟩ := h.within hs
  have hslot := hsound.front_eq haligned
  have hclaimed := (hsound.claimed hfits).savedFront (Nat.le_refl _)
  have hkept : Kept as False (σ.on ⟨(s.claimed t.layout.length).saved, b'⟩) :=
    h.landed hs hfits hl hclaimed rfl rfl
  apply hkept.acknowledged (a := ⟨s.slots, s.nextHeader t, t⟩) rfl (hl.word_full hsound hfits)
    (hl.recorded hsound hfits hw hslot)
  constructor
  · have hfront := hsound.front_claimed hfits
    rw [hslot, ← slotOffset_succ] at hfront
    exact Nat.le_of_eq hfront.symm
  · have hback := hsound.back_claimed hfits
    rw [← start_nextHeader] at hback
    exact Nat.le_of_eq hback

theorem cursors_of_exact (h : Kept as exact σ) (hexact : exact) :
    ∃ s, σ.segment? = some s ∧ s.cursors.back.toNat ≤ σ.store.contents.size ∧
      Cursors.ofBytes (σ.store.contents.window 0 wordSize) = s.cursors := by
  obtain ⟨s, hs, hback, hword⟩ := h.exact hexact
  exact ⟨s, hs, hback, by rw [hword, Cursors.ofBytes_bytes]⟩

theorem toNat_size (h : Kept as exact σ) :
    (UInt32.ofNat σ.store.contents.size).toNat = σ.store.contents.size :=
  toNat_ofNat_of_le_maxCapacity h.bounded

/-- Opening a store that holds more than a word judges that word and writes nothing. -/
theorem attach_eq (h : Kept as exact σ) (hlarge : wordSize < σ.store.contents.size)
    (plan : List Outcome) :
    attach σ.id σ.capacity (σ.store.after σ.store.contents plan) =
      Action.ofExcept (ofCursors σ.id (UInt32.ofNat σ.store.contents.size)
        (.ofBytes (σ.store.contents.window 0 wordSize)))
        (σ.store.after σ.store.contents plan) := by
  have hb := h.readable.after σ.store.contents plan
  obtain ⟨base, current, hword, hbase, -, -⟩ := h.word fun _ => hlarge
  have hfront := Nat.le_trans hbase hword.front_le_ofBytes
  rw [attach_of_large hb hlarge]
  apply resume_eq hb (Nat.le_of_lt hlarge) h.bounded
  apply Cursors.word_ne_zero
  exact Nat.lt_of_lt_of_le (by decide) hfront

theorem resumed (h : Kept as exact σ) (hlarge : wordSize < σ.store.contents.size)
    (hok : ofCursors σ.id (UInt32.ofNat σ.store.contents.size)
      (.ofBytes (σ.store.contents.window 0 wordSize)) = .ok s) (plan : List Outcome) :
    s.capacity.toNat = σ.store.contents.size ∧
      Kept as exact (σ.on ⟨s, σ.store.after σ.store.contents plan⟩) := by
  have hsize := h.toNat_size
  obtain ⟨hsound, heq⟩ := sound_of_ofCursors (hsize.symm ▸ h.bounded) hok
  have hcursors : s.cursors = .ofBytes (σ.store.contents.window 0 wordSize) := by rw [heq]
  have hcapacity : s.capacity.toNat = σ.store.contents.size := by
    rw [heq]
    exact hsize
  have hbytes : σ.store.contents.window 0 wordSize = s.cursors.bytes := by
    rw [hcursors]
    exact (UInt64.beBytes_ofBeBytes (Contents.length_window _ _ _)).symm
  refine ⟨hcapacity, h.capacity, h.readable.after _ plan, h.room, h.bounded, h.recorded, h.small,
    ?_, ?_, ?_⟩
  · rintro _ ⟨⟩
    exact ⟨hsound, Nat.le_of_eq hcapacity.symm⟩
  · intro _
    obtain ⟨base, current, hword, -, hwithin, -⟩ := h.word fun _ => hlarge
    refine ⟨s.cursors, s.cursors, ?_, hsound.word, ?_, ?_⟩
    · exact hbytes.symm ▸ StoredWord.self (hcursors.symm ▸ hword.aligned_ofBytes)
    · intro a ha
      rw [hcursors]
      exact (hwithin a ha).mono hword.front_le_ofBytes hword.back_ofBytes_le
    · rintro _ ⟨⟩
      rfl
  · intro _
    exact ⟨s, rfl, hcapacity ▸ hsound.within, hbytes⟩

theorem ofCursors_of_exact (h : Kept as exact σ) (hexact : exact) :
    ∃ s, ofCursors σ.id (UInt32.ofNat σ.store.contents.size)
      (.ofBytes (σ.store.contents.window 0 wordSize)) = .ok s := by
  obtain ⟨s, hs, hback, hcursors⟩ := h.cursors_of_exact hexact
  obtain ⟨hsound, -⟩ := h.sound s hs
  rw [hcursors]
  exact ⟨_, ofCursors_of_order hsound.word hsound.order (h.toNat_size.symm ▸ hback)⟩

/-- Dropping the segment and opening its store again, whether or not that succeeds. -/
theorem reopen (h : Kept as exact σ) (plan : List Outcome) :
    Kept as exact (σ.serve .reopen plan).2 := by
  have hb := h.readable.after σ.store.contents plan
  rcases Nat.lt_or_ge wordSize σ.store.contents.size with hlarge | hsmall
  · have hattach := h.attach_eq hlarge plan
    cases hcursors : ofCursors σ.id (UInt32.ofNat σ.store.contents.size)
        (.ofBytes (σ.store.contents.window 0 wordSize)) with
    | ok s =>
      rw [hcursors] at hattach
      rw [Session.serve_reopen_of_ok hattach]
      exact (h.resumed hlarge hcursors plan).2
    | error e =>
      rw [hcursors] at hattach
      rw [Session.serve_reopen_of_error hattach]
      refine ⟨h.capacity, hb, h.room, h.bounded, h.recorded, h.small, nofun, ?_, ?_⟩
      · intro _
        obtain ⟨base, current, hword, hbase, hwithin, -⟩ := h.word fun _ => hlarge
        exact ⟨base, current, hword, hbase, hwithin, nofun⟩
      · intro hexact
        obtain ⟨s, hs⟩ := h.ofCursors_of_exact hexact
        cases hs.symm.trans hcursors
  · obtain ⟨rfl, hexact⟩ := h.small hsmall
    suffices hnothing : Kept [] False (σ.serve .reopen plan).2 from hnothing.mono hexact
    rcases start_cases hb σ.id σ.capacity with
      ⟨b', hstart, hcapacity, htorn⟩ | ⟨e, k, b', hstart, htorn⟩
    · rw [← attach_of_small hb hsmall] at hstart
      rw [Session.serve_reopen_of_ok hstart]
      exact .start hb hsmall hcapacity htorn
    · rw [← attach_of_small hb hsmall] at hstart
      rw [Session.serve_reopen_of_error hstart]
      have hsize := size_le_of_torn_word htorn hsmall (Nat.le_refl _)
      refine ⟨h.capacity, htorn.readable hb, ?_, Nat.le_trans hsize (by decide), nofun,
        fun _ => ⟨rfl, not_false⟩, nofun, ?_, False.elim⟩
      · intro limit hlimit
        exact h.room limit (htorn.limit_eq.symm.trans hlimit)
      · intro hlarge
        exact absurd (hlarge rfl) (Nat.not_lt_of_le hsize)

end Kept

namespace Kept

variable {past : List Event} {event : Event}

theorem quiet (h : Kept (acks past) (EndsInAck past) σ) (hack : event.ack? = none)
    (hwrote : event.wrote? = none) :
    Kept (acks (past ++ [event])) (EndsInAck (past ++ [event])) σ := by
  have hacks := acks_append past event
  have hends := endsInAck_append past event
  rw [hack, Option.toList_none, List.append_nil] at hacks
  rw [hwrote] at hends
  rw [hacks]
  exact h.mono hends.1

theorem unacknowledged (h : Kept (acks past) False σ) (hack : event.ack? = none)
    (hwrote : event.wrote? = some false) :
    Kept (acks (past ++ [event])) (EndsInAck (past ++ [event])) σ := by
  have hacks := acks_append past event
  have hends := endsInAck_append past event
  rw [hack, Option.toList_none, List.append_nil] at hacks
  rw [hwrote] at hends
  rw [hacks]
  exact h.mono fun hlast => Bool.false_ne_true (hends.1 hlast)

/-- Every request keeps the acknowledged records, whatever becomes of its writes. -/
theorem serve (h : Kept (acks past) (EndsInAck past) σ) (request : Request) (plan : List Outcome) :
    Kept (acks (past ++ [(σ.serve request plan).1])) (EndsInAck (past ++ [(σ.serve request plan).1]))
      (σ.serve request plan).2 := by
  by_cases hopen : request = .reopen
  · subst hopen
    obtain ⟨result, hevent⟩ := σ.serve_reopen_fst plan
    rw [hevent]
    exact (h.reopen plan).quiet rfl rfl
  cases hs : σ.segment? with
  | none =>
    rw [Session.serve_of_none hs hopen]
    exact h.quiet rfl rfl
  | some s =>
    obtain ⟨hsound, -⟩ := h.sound s hs
    cases request with
    | append t =>
      rcases Session.serve_append_cases hs hsound h.readable t plan with
        ⟨e, he, hserve⟩ | ⟨hw, hfits, ⟨b', hserve, hl⟩ | ⟨e, i, j, k, b', he, hserve, hl⟩⟩
      · rw [hserve]
        apply (h.after hs plan).quiet rfl
        exact if_pos he
      · rw [hserve, acks_append]
        exact (h.appended hs hfits hw hl).mono fun _ => trivial
      · rw [hserve]
        apply (h.landed hs hfits hl (hsound.claimed hfits) rfl rfl).unacknowledged
        · rfl
        · exact if_neg (by rw [he]; exact Bool.false_ne_true)
    | sync =>
      obtain ⟨result, s', k, b', hs', hserve, htorn⟩ :=
        Session.serve_sync_cases hs hsound h.readable plan
      rw [hserve]
      have hkept : Kept (acks past) False (σ.on ⟨s', b'⟩) := by
        rcases hs' with rfl | rfl
        · exact h.synced hs htorn hsound rfl rfl
        · exact h.synced hs htorn (hsound.savedFront (Nat.le_refl _)) rfl rfl
      exact hkept.unacknowledged rfl rfl
    | reopen => exact absurd rfl hopen

theorem run (h : Kept (acks past) (EndsInAck past) σ) (requests : List (Request × List Outcome)) :
    Kept (acks (past ++ (σ.run requests).1)) (EndsInAck (past ++ (σ.run requests).1))
      (σ.run requests).2 :=
  Session.run_induction (P := fun past σ => Kept (acks past) (EndsInAck past) σ)
    (fun _ _ request plan _ h => h.serve request plan) past h

theorem restored_large (h : Kept as exact σ) (hlarge : wordSize < σ.store.contents.size) :
    let left := σ.store.after σ.store.contents []
    (∃ fault, attach σ.id σ.capacity left = .error (.decode fault) left ∧ ¬ exact) ∨
    ∃ s, attach σ.id σ.capacity left = .ok s left ∧
      (∃ found, headers ⟨s, left⟩ = .ok found ⟨s, left⟩) ∧
      (∀ a ∈ as, Reads ⟨s, left⟩ a) ∧
      (exact → ∃ s', σ.segment? = some s' ∧ s.cursors = s'.cursors) := by
  intro left
  have hleft : left.Readable := h.readable.after σ.store.contents []
  have hattach := h.attach_eq hlarge []
  cases hcursors : ofCursors σ.id (UInt32.ofNat σ.store.contents.size)
      (.ofBytes (σ.store.contents.window 0 wordSize)) with
  | ok s =>
    rw [hcursors] at hattach
    obtain ⟨hcapacity, hresumed⟩ := h.resumed hlarge hcursors []
    obtain ⟨hsound, -⟩ := hresumed.sound s rfl
    obtain ⟨-, hwithin⟩ := hresumed.within rfl
    have horder := Nat.le_trans hsound.order hsound.within
    refine .inr ⟨s, hattach, ?_, ?_, ?_⟩
    · exact ⟨_, headers_of_readable hleft hsound.word (hcapacity ▸ horder)⟩
    · intro a ha
      exact reads_of_within hleft hsound hcapacity (h.recorded a ha) (hwithin a ha)
    · intro hexact
      obtain ⟨s', hs', -, heq⟩ := h.cursors_of_exact hexact
      have hfound := (sound_of_ofCursors (h.toNat_size.symm ▸ h.bounded) hcursors).2
      exact ⟨s', hs', by rw [hfound, ← heq]⟩
  | error e =>
    rw [hcursors] at hattach
    obtain ⟨fault, rfl⟩ := decode_of_ofCursors hcursors
    refine .inl ⟨fault, hattach, fun hexact => ?_⟩
    obtain ⟨s, hs⟩ := h.ofCursors_of_exact hexact
    cases hs.symm.trans hcursors

theorem restored_small (h : Kept as exact σ) (hsmall : σ.store.contents.size ≤ wordSize) :
    ∃ s b, attach σ.id σ.capacity (σ.store.after σ.store.contents []) = .ok s b ∧
      ∃ found, headers ⟨s, b⟩ = .ok found ⟨s, b⟩ := by
  obtain ⟨rfl, -⟩ := h.small hsmall
  have hleft := h.readable.after σ.store.contents []
  have hstart := @start_of_room σ.id _ _ hleft rfl h.room h.capacity
  rw [← attach_of_small hleft hsmall] at hstart
  refine ⟨_, _, hstart, _, headers_of_readable (hleft.after _ []) ?_ ?_⟩
  · exact Nat.le_of_eq (front_fresh σ.id σ.capacity).symm
  · change (fresh σ.id σ.capacity).cursors.front.toNat ≤
      (σ.store.contents.write 0 (fresh σ.id σ.capacity).cursors.bytes).size
    rw [front_fresh, Contents.size_write (Cursors.bytes_ne_nil _), Cursors.length_bytes]
    exact Nat.le_max_right _ _

theorem restored (h : Kept as exact σ) :
    let left := σ.store.after σ.store.contents []
    (∃ fault, attach σ.id σ.capacity left = .error (.decode fault) left ∧ ¬ exact) ∨
    ∃ s b, attach σ.id σ.capacity left = .ok s b ∧
      (∃ found, headers ⟨s, b⟩ = .ok found ⟨s, b⟩) ∧
      (∀ a ∈ as, Reads ⟨s, b⟩ a) ∧
      (exact → ∃ s', σ.segment? = some s' ∧ s.cursors = s'.cursors) := by
  rcases Nat.lt_or_ge wordSize σ.store.contents.size with hlarge | hsmall
  · exact (h.restored_large hlarge).imp_right fun ⟨s, hs⟩ => ⟨s, _, hs⟩
  · obtain ⟨rfl, hexact⟩ := h.small hsmall
    obtain ⟨s, b, hattach, hheaders⟩ := h.restored_small hsmall
    exact .inr ⟨s, b, hattach, hheaders, nofun, fun h => absurd h hexact⟩

end Kept

section Survival

variable {id : UInt64} {capacity : UInt32} {store store' : ByteStore} {first : Segment}

theorem kept_of_attach (hb : store.Readable) (hempty : store.contents.size = 0)
    (hfirst : attach id capacity store = .ok first store') :
    Kept (acks []) (EndsInAck []) ⟨id, capacity, some first, store'⟩ := by
  have hsmall : store.contents.size ≤ wordSize := hempty ▸ Nat.zero_le _
  rw [attach_of_small hb hsmall] at hfirst
  rcases start_cases hb id capacity with ⟨b', hstart, hcapacity, htorn⟩ | ⟨e, k, b', hstart, -⟩
  · cases hfirst.symm.trans hstart
    have hkept := Kept.start (σ := ⟨id, capacity, none, store⟩) hb hsmall hcapacity htorn
    exact hkept.mono nofun
  · cases hfirst.symm.trans hstart

/-- Whatever becomes of the single writes of a run, opening the store afterwards finds every
acknowledged record at its slot and reads its transaction, unless the cursor word is found to be
corrupt. It is not if the last thing written was an acknowledged append, and the cursors are then
those after that append. -/
theorem acknowledged_survive (hb : store.Readable) (hempty : store.contents.size = 0)
    (hfirst : attach id capacity store = .ok first store')
    (requests : List (Request × List Outcome)) :
    let history := Session.run ⟨id, capacity, some first, store'⟩ requests
    let left := history.2.store.after history.2.store.contents []
    (∃ fault, attach id capacity left = .error (.decode fault) left ∧ ¬ EndsInAck history.1) ∨
    ∃ s b, attach id capacity left = .ok s b ∧
      (∃ found, headers ⟨s, b⟩ = .ok found ⟨s, b⟩) ∧
      (∀ a ∈ acks history.1, Reads ⟨s, b⟩ a) ∧
      (EndsInAck history.1 → ∃ s', history.2.segment? = some s' ∧ s.cursors = s'.cursors) := by
  intro history left
  have hkept := (kept_of_attach hb hempty hfirst).run requests
  rw [List.nil_append] at hkept
  change Kept (acks history.1) (EndsInAck history.1) history.2 at hkept
  obtain ⟨hid, hcapacity⟩ := Session.run_id_capacity ⟨id, capacity, some first, store'⟩ requests
  have hrestored := hkept.restored
  rw [hid, hcapacity] at hrestored
  exact hrestored

/-- A body that is torn after three bytes, and an append after it. -/
theorem acknowledged_survive_torn_body :
    let t : Transaction := { id := 7, changes := [.delete [97]] }
    let requests := [(.append t, [.atMost 3, .failed]), (.append { t with id := 8 }, [])]
    ∃ first store', attach 1 128 {} = .ok first store' ∧
      let history := Session.run ⟨1, 128, some first, store'⟩ requests
      let left := history.2.store.after history.2.store.contents []
      acks history.1 = [⟨1, ⟨8, 48, 88⟩, { t with id := 8 }⟩] ∧ EndsInAck history.1 ∧
        ∃ s b, attach 1 128 left = .ok s b ∧ s.cursors = .pack 40 48 ∧
          headers ⟨s, b⟩ = .ok [⟨0, 0, 0⟩, ⟨8, 48, 88⟩] ⟨s, b⟩ ∧
          ∀ a ∈ acks history.1, Reads ⟨s, b⟩ a := by
  intro t requests
  have hb : (ByteStore.ofBytes []).Readable := (ByteStore.plain_ofBytes []).toReadable
  have hfirst : attach 1 128 (ByteStore.ofBytes []) = _ :=
    attach_of_room hb (Nat.zero_le _) rfl nofun (by decide)
  refine ⟨_, _, hfirst, ?_⟩
  have hsurvive := acknowledged_survive hb rfl hfirst requests
  generalize hrun : Session.run _ requests = history at hsurvive ⊢
  intro history' left
  have hacks : acks history.1 = [⟨1, ⟨8, 48, 88⟩, { t with id := 8 }⟩] := by
    rw [← hrun]
    decide +kernel
  have hends : EndsInAck history.1 := by
    rw [← hrun]
    decide +kernel
  let answered : Segment → Action ByteStore (Cursors × Option (List RecordHeader)) := fun s b =>
    .ok (s.cursors, headers.run' ⟨s, b⟩) b
  have hevaluated : (attach 1 128 >>= answered).run' left =
      some (.pack 40 48, some [⟨0, 0, 0⟩, ⟨8, 48, 88⟩]) := by
    simp only [left, history', ← hrun]
    decide +kernel
  rcases hsurvive with ⟨fault, -, hnot⟩ | ⟨s, b, hattach, ⟨found, hfound⟩, hreads, -⟩
  · exact absurd hends hnot
  · rw [Action.run'_of_ok (Action.bind_of_ok hattach : (attach 1 128 >>= answered) left = .ok _ b),
      Option.some_inj, Prod.mk.injEq, Action.run'_of_ok hfound, Option.some_inj] at hevaluated
    obtain ⟨hcursors, rfl⟩ := hevaluated
    exact ⟨hacks, hends, s, b, hattach, hcursors, hfound, hreads⟩

end Survival

end Segment

end AppendStore
