import AppendStore.Proofs.Segment.Intact
import AppendStore.Proofs.Segment.Session

/-!
# What a segment lists after it was taken up

A segment that is taken up from a store has whatever headers the store shows in front of
its cursor. Records that are appended to it can be read from then on, whatever the store
held. They are also listed behind those headers, each at its slot, if the front cursor
that was found is the end of a slot (`Segment.resumed_lists_acknowledged`). A word whose
front lies between two slots is taken up all the same, and then no later header is listed
as it was written (`Segment.header_listed_across_slots`).
-/

namespace AppendStore

namespace Segment

/-- The front cursor is the end of a slot. -/
def Aligned (s : Segment) : Prop := s.cursors.front.toNat = slotOffset s.slots

instance (s : Segment) : Decidable s.Aligned := inferInstanceAs (Decidable (_ = _))

structure Retained (s : Segment) (c : Contents) (h : RecordHeader) (t : Transaction) : Prop where
  writable : t.Writable
  transactionId : h.transactionId = t.id
  stop : h.stop.toNat = h.start.toNat + t.layout.length
  back : s.cursors.back.toNat ≤ h.start.toNat
  body : c.Shows h.start.toNat t.layout

variable {asked : UInt32} {s : Segment} {b : ByteStore} {h : RecordHeader} {t u : Transaction}

theorem Retained.transactionOf_eq (hretained : Retained s b.contents h t) (hs : Intact asked s b) :
    transactionOf h ⟨s, b⟩ = .ok t ⟨s, b⟩ := by
  have hpos := Transaction.prefixSize_lt_length_layout hretained.writable
  have hstop := hretained.stop
  have hwithin : h.stop.toNat ≤ s.capacity.toNat :=
    hstop ▸ Nat.le_trans hretained.body.size hs.size_le
  have hholds : s.Holds h :=
    ⟨UInt32.le_iff_toNat_le.2 hretained.back, UInt32.le_iff_toNat_le.2 hwithin,
      UInt32.lt_iff_toNat_lt.2 (by omega)⟩
  rw [transactionOf_of_shows (o := ⟨s, b⟩) hs.plain.toReadable hholds hretained.body hstop,
    readBody_layout hretained.writable hretained.transactionId]
  rfl

namespace Intact

theorem retained_recorded (hs : Intact asked s b) (hfits : s.Fits t.layout.length)
    (hretained : Retained s b.contents h u) :
    Retained (s.claimed t.layout.length).saved (recordedContents s t b.contents) h u := by
  have hback := hs.sound.back_claimed hfits
  have hword := hs.sound.word
  have horder := hs.sound.order
  have hl := Landed.of_plain (s := s) (t := t) hs.plain
  refine { hretained with back := ?_, body := ?_ }
  · exact Nat.le_trans (Nat.le_of_eq hback) (Nat.le_trans (Nat.sub_le _ _) hretained.back)
  · exact hl.shows_of_disjoint hs.sound hfits hretained.body
      (Nat.le_trans hword (Nat.le_trans horder hretained.back)) (.inr hretained.back)

theorem retained_nextHeader (hs : Intact asked s b) (hw : t.Writable) (hfits : s.Fits t.layout.length) :
    Retained (s.claimed t.layout.length).saved (recordedContents s t b.contents) (s.nextHeader t) t where
  writable := hw
  transactionId := rfl
  stop := stop_nextHeader hfits
  back := by
    rw [start_nextHeader]
    exact Nat.le_of_eq (hs.sound.back_claimed hfits)
  body := (Landed.of_plain hs.plain).shows_body hs.sound hfits hw (by decide)

theorem slots_claimed (hs : Intact asked s b) (hfits : s.Fits t.layout.length) :
    (s.claimed t.layout.length).saved.slots = s.slots + 1 := by
  have hfront : (s.claimed t.layout.length).saved.cursors.front.toNat = _ :=
    hs.sound.front_claimed hfits
  have hword := hs.sound.word
  rw [slots, hfront, slots, Nat.sub_add_comm hword, Nat.add_div_right _ (by decide)]

theorem aligned_claimed (hs : Intact asked s b) (hfits : s.Fits t.layout.length)
    (ha : s.Aligned) : (s.claimed t.layout.length).saved.Aligned := by
  have hfront : (s.claimed t.layout.length).saved.cursors.front.toNat = _ :=
    hs.sound.front_claimed hfits
  rw [Aligned, hfront, hs.slots_claimed hfits, slotOffset_succ, ha]

/-- An append whose header goes to a slot is listed behind all others. -/
theorem listing_recorded (hs : Intact asked s b) (hfits : s.Fits t.layout.length)
    (ha : s.Aligned) :
    (s.claimed t.layout.length).saved.listing (recordedContents s t b.contents) =
      s.listing b.contents ++ [s.nextHeader t] := by
  have hl := Landed.of_plain (s := s) (t := t) hs.plain
  have hold : ∀ k ∈ List.range s.slots,
      slotHeader (recordedContents s t b.contents) k = slotHeader b.contents k := by
    intro k hk
    have hbefore : slotOffset (k + 1) ≤ s.cursors.front.toNat :=
      ha ▸ slotOffset_mono (List.mem_range.1 hk)
    rw [slotOffset_succ] at hbefore
    exact congrArg RecordHeader.ofBytes (hl.window_of_disjoint hs.sound hfits
      (wordSize_le_slotOffset k) (.inl hbefore))
  have hnew : slotHeader (recordedContents s t b.contents) s.slots = s.nextHeader t := by
    have hlen := RecordHeader.length_layout (s.nextHeader t)
    have hslot := hl.slot_eq hs.sound hfits
    rw [List.take_of_length_le (Nat.le_of_eq hlen),
      List.drop_of_length_le (Nat.le_of_eq (Contents.length_window _ _ _)), List.append_nil,
      ha] at hslot
    exact (congrArg RecordHeader.ofBytes hslot).trans (RecordHeader.ofBytes_layout _)
  rw [listing, hs.slots_claimed hfits, List.range_succ, List.map_append,
    List.map_congr_left hold, List.map_singleton, hnew]
  rfl

end Intact

/-- Every record that the session has acknowledged can be read, and if the front cursor was the end
of a slot at first, all of them are listed behind the headers `before`. -/
structure Lists (aligned : Prop) (before : List RecordHeader) (past : List Event) (σ : Session)
    (s : Segment) : Prop where
  segment : σ.segment? = some s
  intact : Intact σ.capacity s σ.store
  retained : ∀ a ∈ acks past, Retained s σ.store.contents a.header a.transaction
  listed : aligned → s.Aligned ∧
    s.listing σ.store.contents = before ++ (acks past).map Ack.header

namespace Lists

variable {aligned : Prop} {before : List RecordHeader} {past : List Event} {σ : Session}

theorem unchanged (hl : Lists aligned before past σ s) {s' : Segment}
    (hs : Intact σ.capacity s' σ.store) (hcursors : s'.cursors = s.cursors) {event : Event}
    (hnone : event.ack? = none) :
    Lists aligned before (past ++ [event]) (σ.on ⟨s', σ.store⟩) s' := by
  have hacks : acks (past ++ [event]) = acks past := by
    rw [acks_append, hnone]
    exact List.append_nil _
  have hslots : s'.slots = s.slots := by rw [slots, hcursors, slots]
  refine ⟨rfl, hs, ?_, ?_⟩
  · intro a ha
    rw [hacks] at ha
    have hretained := hl.retained a ha
    exact { hretained with back := hcursors ▸ hretained.back }
  · intro haligned
    rw [hacks, Aligned, listing, hslots, hcursors]
    exact hl.listed haligned

theorem appended (hl : Lists aligned before past σ s) (hw : t.Writable)
    (hfits : s.Fits t.layout.length) :
    Lists aligned before (past ++ [.appended s.slots t (.ok (s.nextHeader t))])
      (σ.on ⟨(s.claimed t.layout.length).saved,
        σ.store.withContents (recordedContents s t σ.store.contents)⟩)
      (s.claimed t.layout.length).saved := by
  have hs := hl.intact
  refine ⟨rfl, hs.recorded hw hfits, ?_, ?_⟩
  · intro a ha
    rw [acks_append] at ha
    rcases List.mem_append.1 ha with hpast | hnew
    · exact hs.retained_recorded hfits (hl.retained a hpast)
    · cases List.mem_singleton.1 hnew
      exact hs.retained_nextHeader hw hfits
  · intro haligned
    obtain ⟨hfront, hlisting⟩ := hl.listed haligned
    refine ⟨hs.aligned_claimed hfits hfront, ?_⟩
    rw [acks_append, List.map_append, ← List.append_assoc, ← hlisting]
    exact hs.listing_recorded hfits hfront

theorem serve (hl : Lists aligned before past σ s) (request : Request) :
    ∃ s', Lists aligned before (past ++ [(σ.serve request []).1]) (σ.serve request []).2 s' := by
  have hs := hl.intact
  have hstore : σ.store.after σ.store.contents [] = σ.store := hs.plain.after_nil _
  cases request with
  | append t =>
    cases hencode : t.encode with
    | error e =>
      rw [Session.serve_append_of_error hl.segment (append_of_invalid hencode), hstore]
      exact ⟨s, hl.unchanged hs rfl rfl⟩
    | ok body =>
      have hw := (Transaction.encode_eq_ok_iff.1 hencode).1
      by_cases hfits : s.Fits t.layout.length
      · have happend := append_of_plain (o := ⟨s, σ.store⟩) hs.plain hs.sound hw hfits
        rw [← hstore] at happend
        rw [Session.serve_append_of_ok hl.segment happend, hstore]
        exact ⟨_, hl.appended hw hfits⟩
      · have hfull := append_of_full (o := ⟨s, σ.store.after σ.store.contents []⟩) hs.sound hw hfits
        rw [Session.serve_append_of_error hl.segment hfull, hstore]
        exact ⟨s, hl.unchanged hs rfl rfl⟩
  | sync =>
    rcases hs.sync_cases with hsync | ⟨-, e, hsync⟩
    · rw [← hstore] at hsync
      rw [Session.serve_sync_of_ok hl.segment hsync, hstore]
      exact ⟨_, hl.unchanged hs.saved rfl rfl⟩
    · rw [← hstore] at hsync
      rw [Session.serve_sync_of_error hl.segment hsync, hstore]
      exact ⟨_, hl.unchanged hs.saved rfl rfl⟩
  | reopen =>
    have hattach := hs.attach_eq σ.id
    rw [← hstore] at hattach
    rw [Session.serve_reopen_of_ok hattach, hstore]
    exact ⟨_, hl.unchanged (hs.again σ.id) rfl rfl⟩

theorem run (hl : Lists aligned before past σ s) (requests : List Request) :
    ∃ s', Lists aligned before (past ++ (σ.run (requests.map (·, []))).1)
      (σ.run (requests.map (·, []))).2 s' := by
  induction requests generalizing past σ s with
  | nil =>
    rw [List.map_nil, Session.run, List.append_nil]
    exact ⟨s, hl⟩
  | cons request rest ih =>
    obtain ⟨s', hnext⟩ := hl.serve request
    have hrest := ih hnext
    rw [List.append_assoc, List.singleton_append] at hrest
    exact hrest

end Lists

/-- Whatever a store held when a segment was taken up from it, records that are appended without a
fault can be read ever after. They are listed behind the headers that were found, in the order of
their appends, if the front cursor that was found is the end of a slot. -/
theorem resumed_lists_acknowledged {id : UInt64} {capacity : UInt32} {b b₀ : ByteStore}
    {s₀ : Segment} (hb : b.Plain) (hattach : attach id capacity b = .ok s₀ b₀)
    (requests : List Request) :
    let history := Session.run ⟨id, capacity, some s₀, b₀⟩ (requests.map (·, []))
    ∃ s before, history.2.segment? = some s ∧ headers ⟨s₀, b₀⟩ = .ok before ⟨s₀, b₀⟩ ∧
      (∀ a ∈ acks history.1, transactionOf a.header ⟨s, history.2.store⟩ =
        .ok a.transaction ⟨s, history.2.store⟩) ∧
      (s₀.Aligned → headers ⟨s, history.2.store⟩ =
        .ok (before ++ (acks history.1).map Ack.header) ⟨s, history.2.store⟩) := by
  intro history
  have hs₀ := intact_of_attach hb hattach
  have hfirst : Lists s₀.Aligned (s₀.listing b₀.contents) [] ⟨id, capacity, some s₀, b₀⟩ s₀ :=
    ⟨rfl, hs₀, nofun, fun haligned => ⟨haligned, (List.append_nil _).symm⟩⟩
  obtain ⟨s, hlast⟩ := hfirst.run requests
  rw [List.nil_append] at hlast
  obtain ⟨-, hcapacity⟩ := Session.run_id_capacity ⟨id, capacity, some s₀, b₀⟩
    (requests.map (·, []))
  refine ⟨s, _, hlast.segment, hs₀.headers_eq, ?_, ?_⟩
  · intro a ha
    exact (hlast.retained a ha).transactionOf_eq hlast.intact
  · intro haligned
    rw [← (hlast.listed haligned).2]
    exact hlast.intact.headers_eq

/-- A slot that was never written stays in front of the record that is appended, also after the
store was opened again. -/
theorem resumed_lists_acknowledged_behind_gap :
    let t : Transaction := { id := 7, changes := [.delete [97]] }
    let store := ByteStore.ofBytes ((Cursors.pack 24 128).bytes ++ List.replicate 120 0)
    let requests := [.append t, .reopen, .append { t with id := 8 }]
    store.Plain ∧ ∃ s₀ b₀ history, attach 1 128 store = .ok s₀ b₀ ∧ s₀.Aligned ∧
      Session.run ⟨1, 128, some s₀, b₀⟩ (requests.map (·, [])) = history ∧
        (acks history.1).map Ack.header = [⟨7, 88, 128⟩] ∧
          ∃ s, history.2.segment? = some s ∧ headers ⟨s, history.2.store⟩ =
            .ok (⟨0, 0, 0⟩ :: (acks history.1).map Ack.header) ⟨s, history.2.store⟩ := by
  intro t store requests
  have hb : store.Plain := ByteStore.plain_ofBytes _
  have hfound := @found_of_shows store.contents (.pack 24 128) ⟨by decide +kernel, by decide +kernel⟩
    (by decide +kernel) (by decide +kernel) (by decide) (by decide) (by decide +kernel) 1 128
  have hattach := attach_of_plain hb 1 128
  rw [hfound, opened] at hattach
  obtain ⟨s, before, hs, hbefore, -, hlisted⟩ := resumed_lists_acknowledged hb hattach requests
  have hgap : before = [⟨0, 0, 0⟩] := by
    cases hbefore.symm.trans (intact_of_attach hb hattach).headers_eq
    decide +kernel
  have hlast := hlisted (by decide +kernel)
  rw [hgap, List.singleton_append] at hlast
  exact ⟨hb, _, _, _, hattach, by decide +kernel, rfl, by decide +kernel, s, hs, hlast⟩

/-- A front that lies between two slots is taken up. The header of the next record goes there and is
cut when the segment is listed. -/
theorem header_listed_across_slots :
    let t : Transaction := { id := 7, changes := [.delete [97]] }
    let store := ByteStore.ofBytes ((Cursors.pack 20 128).bytes ++ List.replicate 120 0)
    store.Plain ∧ ∃ s₀ b₀ h s b before after, attach 1 128 store = .ok s₀ b₀ ∧
      headers ⟨s₀, b₀⟩ = .ok before ⟨s₀, b₀⟩ ∧ append t ⟨s₀, b₀⟩ = .ok h ⟨s, b⟩ ∧
        headers ⟨s, b⟩ = .ok after ⟨s, b⟩ ∧
          before = [] ∧ h = ⟨7, 88, 128⟩ ∧ after = [⟨0, 0, 0⟩] ∧ after ≠ before ++ [h] := by
  intro t store
  have hb : store.Plain := ByteStore.plain_ofBytes _
  have hfound := @found_of_shows store.contents (.pack 20 128) ⟨by decide +kernel, by decide +kernel⟩
    (by decide +kernel) (by decide +kernel) (by decide) (by decide) (by decide +kernel) 1 128
  have hattach := attach_of_plain hb 1 128
  rw [hfound, opened] at hattach
  have hs := intact_of_attach hb hattach
  have hw : t.Writable := by decide
  have happend := @append_of_plain t ⟨_, _⟩ hs.plain hs.sound hw (by decide +kernel)
  have hlast := (hs.recorded hw (by decide +kernel)).headers_eq
  exact ⟨hb, _, _, _, _, _, _, _, hattach, hs.headers_eq, happend, hlast,
    by decide +kernel, by decide +kernel, by decide +kernel, by decide +kernel⟩

end Segment

end AppendStore
