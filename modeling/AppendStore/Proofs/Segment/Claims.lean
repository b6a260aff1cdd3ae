import Mathlib.Control.Monad.Basic
import AppendStore.Proofs.Action
import AppendStore.Proofs.Bytes.Blend
import AppendStore.Proofs.Segment.Landing
import AppendStore.Proofs.Segment.Session

/-!
# Claimed records that were torn

An append that has claimed its slot and then failed leaves a start of its header
there, with zeros behind it. `Segment.Claimed.Stands` is what then stands in the store.
Such a slot is read as the transaction of the append or not at all
(`Segment.Claimed.Stands.read`): a header that is cut in its numbers has no end, one
that is cut in its end names a start of the body, and no start of a transaction is a
transaction.

`Segment.Tracked` holds of every claim of a run on one handle, and
`Segment.claims_read_back` is the result.
-/

namespace AppendStore

namespace RecordHeader

/-- A header of which the first `j` bytes were written where zeros stood. -/
def cut (h : RecordHeader) (j : Nat) : RecordHeader :=
  .ofBytes (overwrite j h.layout (List.replicate Segment.recordHeaderSize 0))

variable {h : RecordHeader} {j : Nat}

theorem length_zeros (h : RecordHeader) :
    h.layout.length = (List.replicate Segment.recordHeaderSize (0 : UInt8)).length := by
  rw [length_layout, List.length_replicate]

theorem drop_layout (h : RecordHeader) : h.layout.drop 12 = h.stop.beBytes := by
  rw [layout, List.drop_left' (by simp)]

theorem stop_cut (h : RecordHeader) (j : Nat) :
    (h.cut j).stop = .ofBeBytes (overwrite (j - 12) h.stop.beBytes
      (List.replicate h.stop.beBytes.length 0)) := by
  have hdrop := drop_overwrite (length_zeros h) j 12
  rw [drop_layout, List.drop_replicate] at hdrop
  have hlen : (overwrite (j - 12) h.stop.beBytes
      (List.replicate (Segment.recordHeaderSize - 12) 0)).length = 4 := by
    rw [length_overwrite (by rw [UInt32.length_beBytes, List.length_replicate]; rfl),
      UInt32.length_beBytes]
  simp only [cut, ofBytes, hdrop]
  rw [List.take_of_length_le (Nat.le_of_eq hlen), UInt32.length_beBytes]
  rfl

theorem stop_cut_eq_zero (hj : j ≤ 12) : (h.cut j).stop = 0 := by
  rw [stop_cut, Nat.sub_eq_zero_of_le hj, overwrite, List.take_zero, List.nil_append,
    List.drop_zero, UInt32.ofBeBytes, beNat_zeros]
  rfl

theorem stop_cut_le (h : RecordHeader) (j : Nat) : (h.cut j).stop.toNat ≤ h.stop.toNat := by
  have hle := beNat_overwrite_zeros_le h.stop.beBytes (j - 12)
  rw [UInt32.beNat_beBytes] at hle
  rw [stop_cut, UInt32.toNat_ofBeBytes]
  · exact hle
  · rw [length_overwrite (List.length_replicate ..).symm, UInt32.length_beBytes]

theorem ofBytes_congr {bs bs' : Bytes} (h : bs.take 12 = bs'.take 12) :
    (ofBytes bs).transactionId = (ofBytes bs').transactionId ∧
      (ofBytes bs).start = (ofBytes bs').start := by
  have hid : ∀ bs : Bytes, (bs.take 12).take 8 = bs.take 8 := by
    intro bs
    rw [List.take_take]
    rfl
  have hstart : ∀ bs : Bytes, (bs.take 12).drop 8 = (bs.drop 8).take 4 := by
    intro bs
    rw [List.drop_take]
  constructor
  · simp only [ofBytes]
    rw [← hid bs, h, hid]
  · simp only [ofBytes]
    rw [← hstart bs, h, hstart]

theorem cut_of_le (hj : 12 ≤ j) :
    (h.cut j).transactionId = h.transactionId ∧ (h.cut j).start = h.start := by
  have htake : (overwrite j h.layout (List.replicate Segment.recordHeaderSize 0)).take 12 =
      h.layout.take 12 := by
    rw [take_overwrite (length_zeros h), overwrite_of_le]
    · rw [List.length_take, List.length_take, length_zeros h]
    · exact Nat.le_trans (List.length_take_le _ _) hj
  have hsame := ofBytes_congr htake
  rw [ofBytes_layout] at hsame
  exact hsame

theorem cut_full (h : RecordHeader) : h.cut Segment.recordHeaderSize = h := by
  rw [cut, overwrite_of_le (length_zeros h) (Nat.le_of_eq List.length_replicate),
    ofBytes_layout]

end RecordHeader

namespace Segment

/-- What stands in the store for a claim: the first `j` bytes of its header `h` with zeros behind
them, and the body as soon as there is a byte of the header. -/
structure Claimed.Stands (x : Claimed) (c : Contents) (slot : Nat) (h : RecordHeader) (j : Nat) :
    Prop where
  writable : x.transaction.Writable
  transactionId : h.transactionId = x.transaction.id
  stop : h.stop.toNat = h.start.toNat + x.transaction.layout.length
  behind : slotOffset (slot + 1) ≤ h.start.toNat
  header : c.window (slotOffset slot) recordHeaderSize =
    overwrite j h.layout (List.replicate recordHeaderSize 0)
  body : 0 < j → c.Shows h.start.toNat x.transaction.layout
  answered : ∀ h', x.header? = some h' → h' = h ∧ j = recordHeaderSize

namespace Claimed.Stands

variable {x : Claimed} {c c' : Contents} {k j : Nat} {h : RecordHeader} {o : Over Segment ByteStore}

theorem slotHeader_eq (hx : x.Stands c k h j) : slotHeader c k = h.cut j := by
  rw [slotHeader, hx.header, RecordHeader.cut]

theorem of_windows (hx : x.Stands c k h j) {front back : Nat}
    (hsize : c.size ≤ c'.size) (hfront : slotOffset (k + 1) ≤ front) (hback : back ≤ h.start.toNat)
    (hwindow : ∀ off len, wordSize ≤ off → off + len ≤ front ∨ back ≤ off →
      c'.window off len = c.window off len) : x.Stands c' k h j := by
  have hslot := wordSize_le_slotOffset k
  have hbehind := hx.behind
  have hsucc := slotOffset_succ k
  refine { hx with header := ?_, body := ?_ }
  · rw [hwindow _ _ hslot (.inl (hsucc ▸ hfront))]
    exact hx.header
  · intro hj
    have hbody := hx.body hj
    refine ⟨Nat.le_trans hbody.size hsize, ?_⟩
    rw [hwindow _ _ (by omega) (.inr hback), hbody.window]

/-- A header with an end behind its start has a byte of its end. -/
theorem lt_of_start_lt_stop (hcut : (h.cut j).start < (h.cut j).stop) : 12 < j := by
  apply Nat.lt_of_not_le
  intro hj
  rw [RecordHeader.stop_cut_eq_zero hj] at hcut
  exact UInt32.not_lt_zero hcut

theorem read_whole (hx : x.Stands o.base.contents k h j) (hb : o.base.Readable)
    (hback : o.item.cursors.back.toNat ≤ h.start.toNat)
    (hcapacity : h.stop.toNat ≤ o.item.capacity.toNat) (hwhole : h.cut j = h) :
    transactionOf h o = .ok x.transaction o := by
  have hpos := Transaction.prefixSize_lt_length_layout hx.writable
  have hstop := hx.stop
  have horder : h.start < h.stop := by
    rw [UInt32.lt_iff_toNat_lt]
    omega
  have hbyte := lt_of_start_lt_stop (hwhole.symm ▸ horder)
  have hbody := hx.body (Nat.lt_trans (by decide) hbyte)
  have hholds : o.item.Holds h := ⟨hback, hcapacity, horder⟩
  rw [transactionOf_of_shows hb hholds hbody hstop,
    readBody_layout hx.writable hx.transactionId]
  rfl

/-- A header that is torn is not read as any transaction. -/
theorem read_torn (hx : x.Stands o.base.contents k h j) (hb : o.base.Readable)
    (htorn : h.cut j ≠ h) : ∃ e, transactionOf (h.cut j) o = .error e o := by
  by_cases hholds : o.item.Holds (h.cut j)
  · have horder := hholds.2.2
    have hbyte := lt_of_start_lt_stop horder
    obtain ⟨hid, hstart⟩ := RecordHeader.cut_of_le (h := h) (Nat.le_of_lt hbyte)
    have hstop : (h.cut j).stop.toNat < h.stop.toNat := by
      apply Nat.lt_of_le_of_ne (h.stop_cut_le j)
      intro heq
      apply htorn
      calc h.cut j = ⟨(h.cut j).transactionId, (h.cut j).start, (h.cut j).stop⟩ := rfl
        _ = h := by rw [hid, hstart, UInt32.toNat_inj.1 heq]
    rw [UInt32.lt_iff_toNat_lt, hstart] at horder
    obtain ⟨n, hn⟩ := Nat.exists_eq_add_of_lt horder
    -- The body that the torn header names is a proper start of the one that was written.
    have hshort : n + 1 < x.transaction.layout.length := by
      have hwhole := hx.stop
      omega
    have hlen : (x.transaction.layout.take (n + 1)).length = n + 1 := by
      rw [List.length_take]
      exact Nat.min_eq_left (Nat.le_of_lt hshort)
    have hbody : o.base.contents.Shows (h.cut j).start.toNat (x.transaction.layout.take (n + 1)) := by
      rw [hstart]
      exact (hx.body (Nat.lt_trans (by decide) hbyte)).take _
    obtain ⟨e, he⟩ := readBody_take (h := h.cut j) hx.writable hshort
    rw [transactionOf_of_shows hb hholds hbody (by rw [hlen, hstart]; exact hn), he]
    exact ⟨e, rfl⟩
  · exact ⟨_, transactionOf_of_outside hholds⟩

end Claimed.Stands

/-- The claims `xs` fill the slots of the segment up to the front in order, and the bytes between
the cursors are zero. -/
structure Filled (xs : List Claimed) (s : Segment) (c : Contents) : Prop where
  sound : s.Sound
  front : s.cursors.front.toNat = slotOffset xs.length
  free : ∀ off len, s.cursors.front.toNat ≤ off → off + len ≤ s.cursors.back.toNat →
    c.window off len = List.replicate len 0
  claims : ∀ (k : Nat) (x : Claimed), xs[k]? = some x → ∃ (h : RecordHeader) (j : Nat),
    x.Stands c k h j ∧ s.cursors.back.toNat ≤ h.start.toNat ∧ h.stop.toNat ≤ s.capacity.toNat

namespace Filled

variable {xs : List Claimed} {s s' : Segment} {c c' : Contents} {b b' : ByteStore} {t : Transaction}
  {i j k : Nat}

theorem start {id : UInt64} {capacity : UInt32} (hempty : b.contents.size = 0)
    (hcapacity : CapacityOk capacity)
    (htorn : b.Torn 0 (fresh id capacity).cursors.bytes wordSize b') :
    Filled [] (fresh id capacity) b'.contents := by
  have hfront := front_fresh id capacity
  have hsize := size_le_of_torn_word htorn (hempty ▸ Nat.zero_le _) (Nat.le_refl _)
  refine ⟨sound_fresh hcapacity, hfront, ?_, nofun⟩
  intro off len hlow _
  exact Contents.window_eq_zeros (Nat.le_trans hsize (hfront ▸ hlow)) len

theorem slotOffset_le_front (h : Filled xs s c) {x : Claimed} (hk : xs[k]? = some x) :
    slotOffset (k + 1) ≤ s.cursors.front.toNat := by
  obtain ⟨hlt, -⟩ := List.getElem?_eq_some_iff.1 hk
  rw [h.front]
  exact slotOffset_mono hlt

theorem synced (h : Filled xs s b.contents) (htorn : b.Torn 0 s.cursors.bytes k b')
    (hsound : s'.Sound) (hcursors : s'.cursors = s.cursors) (hcapacity : s'.capacity = s.capacity) :
    Filled xs s' b'.contents := by
  have hlen : (s.cursors.bytes.take k).length ≤ wordSize :=
    Cursors.length_bytes s.cursors ▸ List.length_take_le' _ _
  have hwindow : ∀ off len, wordSize ≤ off →
      b'.contents.window off len = b.contents.window off len := by
    intro off len hoff
    rw [htorn.contents_eq]
    apply Contents.window_write_of_disjoint
    right
    rw [Nat.zero_add]
    exact Nat.le_trans hlen hoff
  have hsize : b.contents.size ≤ b'.contents.size := by
    rw [htorn.contents_eq]
    exact Contents.size_le_size_write _ _ _
  refine ⟨hsound, hcursors ▸ h.front, ?_, ?_⟩
  · intro off len hlow hhigh
    rw [hcursors] at hlow hhigh
    rw [hwindow off len (Nat.le_trans h.sound.word hlow), h.free off len hlow hhigh]
  · intro k x hk
    obtain ⟨header, j, hx, hback, hstop⟩ := h.claims k x hk
    refine ⟨header, j, ?_, hcursors ▸ hback, hcapacity ▸ hstop⟩
    exact hx.of_windows hsize (h.slotOffset_le_front hk) hback fun off len hoff _ =>
      hwindow off len hoff

/-- The claim of an append stands in the next slot, wherever the append is torn. -/
theorem stands_landed {header? : Option RecordHeader} (h : Filled xs s b.contents)
    (hl : Landed s t b i j k b') (hw : t.Writable) (hfits : s.Fits t.layout.length)
    (hanswered : ∀ h', header? = some h' → h' = s.nextHeader t ∧ j = recordHeaderSize) :
    Claimed.Stands ⟨t, header?⟩ b'.contents xs.length (s.nextHeader t) j := by
  obtain ⟨-, hgap, -⟩ := Landed.places h.sound hfits
  constructor
  case writable => exact hw
  case transactionId => rfl
  case stop => exact stop_nextHeader hfits
  case behind =>
    rw [slotOffset_succ, ← h.front]
    exact hgap
  case header =>
    have hback : s.cursors.front.toNat + recordHeaderSize ≤ s.cursors.back.toNat :=
      Nat.le_trans (Nat.le_add_right _ _) hfits
    have hzeros := h.free s.cursors.front.toNat recordHeaderSize (Nat.le_refl _) hback
    rw [← h.front, hl.slot_eq h.sound hfits, hzeros]
    rfl
  case body => exact hl.shows_body h.sound hfits hw
  case answered => exact hanswered

/-- The claims before it stand as they did. -/
theorem claims_landed (h : Filled xs s b.contents) (hl : Landed s t b i j k b')
    (hfits : s.Fits t.layout.length) {n : Nat} {x : Claimed} (hn : xs[n]? = some x) :
    ∃ (header : RecordHeader) (m : Nat), x.Stands b'.contents n header m ∧
      s.cursors.back.toNat ≤ header.start.toNat ∧ header.stop.toNat ≤ s.capacity.toNat := by
  obtain ⟨header, m, hx, hstart, hstop⟩ := h.claims n x hn
  refine ⟨header, m, ?_, hstart, hstop⟩
  apply hx.of_windows hl.size_le (h.slotOffset_le_front hn) hstart
  intro off len hoff hbeside
  exact hl.window_of_disjoint h.sound hfits hoff (hbeside.imp_right .inr)

/-- An append adds its claim, wherever it is torn. -/
theorem landed {header? : Option RecordHeader} (h : Filled xs s b.contents)
    (hl : Landed s t b i j k b') (hw : t.Writable) (hfits : s.Fits t.layout.length)
    (hsound : s'.Sound) (hcursors : s'.cursors = (s.claimed t.layout.length).cursors)
    (hcapacity : s'.capacity = s.capacity)
    (hanswered : ∀ h', header? = some h' → h' = s.nextHeader t ∧ j = recordHeaderSize) :
    Filled (xs ++ [⟨t, header?⟩]) s' b'.contents := by
  have hs := h.sound
  have hfront := hs.front_claimed hfits
  have hback := hs.back_claimed hfits
  obtain ⟨hword, -, -⟩ := Landed.places hs hfits
  rw [← start_nextHeader] at hback
  rw [← hcursors] at hfront hback
  constructor
  case sound => exact hsound
  case front =>
    rw [hfront, h.front, List.length_append]
    exact (slotOffset_succ _).symm
  case free =>
    intro off len hlow hhigh
    rw [hfront] at hlow
    rw [hback] at hhigh
    rw [hl.window_of_disjoint hs hfits (by omega) (.inr (.inl ⟨hlow, hhigh⟩)),
      h.free off len (by omega) (by rw [start_nextHeader] at hhigh; omega)]
  case claims =>
    intro n x hn
    rcases Nat.lt_trichotomy n xs.length with hlt | rfl | hgt
    · rw [List.getElem?_append_left hlt] at hn
      obtain ⟨header, m, hx, hstart, hstop⟩ := h.claims_landed hl hfits hn
      refine ⟨header, m, hx, Nat.le_trans ?_ hstart, hcapacity ▸ hstop⟩
      rw [hback, start_nextHeader]
      exact Nat.sub_le _ _
    · rw [List.getElem?_concat_length] at hn
      cases hn
      exact ⟨_, j, h.stands_landed hl hw hfits hanswered, Nat.le_of_eq hback,
        hcapacity ▸ hs.within⟩
    · rw [List.getElem?_eq_none (by rw [List.length_append]; exact hgt)] at hn
      cases hn

theorem slots_eq (h : Filled xs s c) : s.slots = xs.length := by
  rw [slots, h.front, slotOffset, Nat.add_sub_cancel_left, Nat.mul_div_cancel_left _ (by decide)]

/-- A claim is read as its transaction or not at all, and as its transaction if it was answered. -/
theorem read_claim {x : Claimed} (h : Filled xs s b.contents) (hb : b.Readable)
    (hk : xs[k]? = some x) :
    ((∃ e, transactionOf (slotHeader b.contents k) ⟨s, b⟩ = .error e ⟨s, b⟩) ∨
      transactionOf (slotHeader b.contents k) ⟨s, b⟩ = .ok x.transaction ⟨s, b⟩) ∧
    ∀ h', x.header? = some h' → slotHeader b.contents k = h' ∧
      transactionOf h' ⟨s, b⟩ = .ok x.transaction ⟨s, b⟩ := by
  obtain ⟨header, j, hx, hback, hstop⟩ := h.claims k x hk
  have hwhole := hx.read_whole (o := ⟨s, b⟩) hb hback hstop
  have htorn := hx.read_torn (o := ⟨s, b⟩) hb
  rw [hx.slotHeader_eq]
  constructor
  · by_cases hcut : header.cut j = header
    · rw [hcut]
      exact .inr (hwhole hcut)
    · exact .inl (htorn hcut)
  · intro h' hanswer
    obtain ⟨rfl, rfl⟩ := hx.answered h' hanswer
    exact ⟨h'.cut_full, hwhole h'.cut_full⟩

/-- The headers can be read once a claim was answered: the store reaches beyond the front. -/
theorem headers_of_answered {x : Claimed} (h : Filled xs s b.contents) (hb : b.Readable)
    (hx : x ∈ xs) (hanswer : x.header?.isSome) :
    ∃ found, headers ⟨s, b⟩ = .ok found ⟨s, b⟩ := by
  obtain ⟨k, hk⟩ := List.mem_iff_getElem?.1 hx
  obtain ⟨h', hh'⟩ := Option.isSome_iff_exists.1 hanswer
  obtain ⟨header, j, hstands, hback, -⟩ := h.claims k x hk
  obtain ⟨-, rfl⟩ := hstands.answered h' hh'
  have hreach : header.start.toNat ≤ b.contents.size :=
    Nat.le_trans (Nat.le_add_right _ _) (hstands.body (by decide)).size
  exact ⟨_, headers_of_readable hb h.sound.word
    (Nat.le_trans h.sound.order (Nat.le_trans hback hreach))⟩

end Filled

/-- A session on one handle keeps its claims. -/
structure Tracked (xs : List Claimed) (σ : Session) : Prop where
  readable : σ.store.Readable
  filled : ∃ s, σ.segment? = some s ∧ Filled xs s σ.store.contents

namespace Tracked

variable {past : List Event} {σ : Session}

theorem serve {request : Request} (h : Tracked (claims past) σ) (hopen : request ≠ .reopen)
    (plan : List Outcome) :
    Tracked (claims (past ++ [(σ.serve request plan).1])) (σ.serve request plan).2 := by
  obtain ⟨s, hs, hfilled⟩ := h.filled
  have hb := h.readable.after σ.store.contents plan
  change Filled (claims past) s (σ.store.after σ.store.contents plan).contents at hfilled
  have hsound := hfilled.sound
  cases request with
  | append t =>
    rcases Session.serve_append_cases hs hsound h.readable t plan with
      ⟨e, he, hserve⟩ | ⟨hw, hfits, ⟨b', hserve, hl⟩ | ⟨e, i, j, k, b', he, hserve, hl⟩⟩
    · have hclaim : (Event.appended s.slots t (.error e)).claim? = none := if_pos he
      rw [hserve, claims_append, hclaim, Option.toList_none, List.append_nil]
      exact ⟨hb, s, rfl, hfilled⟩
    · rw [hserve, claims_append]
      have hclaimed := (hsound.claimed hfits).savedFront (Nat.le_refl _)
      refine ⟨hl.readable, _, rfl, hfilled.landed hl hw hfits hclaimed rfl rfl ?_⟩
      intro h' hanswer
      cases hanswer
      exact ⟨rfl, rfl⟩
    · have hclaim : (Event.appended s.slots t (.error e)).claim? = some ⟨t, none⟩ :=
        if_neg (by rw [he]; exact Bool.false_ne_true)
      rw [hserve, claims_append, hclaim]
      exact ⟨hl.readable, _, rfl, hfilled.landed hl hw hfits (hsound.claimed hfits) rfl rfl nofun⟩
  | sync =>
    obtain ⟨result, s', k, b', hs', hserve, htorn⟩ :=
      Session.serve_sync_cases hs hsound h.readable plan
    rw [hserve, claims_append]
    refine ⟨htorn.readable hb, s', rfl, ?_⟩
    have hnone : (Event.synced result).claim?.toList = [] := rfl
    rw [hnone, List.append_nil]
    rcases hs' with rfl | rfl
    · exact hfilled.synced htorn hsound rfl rfl
    · exact hfilled.synced htorn (hsound.savedFront (Nat.le_refl _)) rfl rfl
  | reopen => exact absurd rfl hopen

theorem run (h : Tracked (claims past) σ) {requests : List (Request × List Outcome)}
    (hopen : ∀ r ∈ requests, r.1 ≠ .reopen) :
    Tracked (claims (past ++ (σ.run requests).1)) (σ.run requests).2 :=
  Session.run_induction (P := fun past σ => Tracked (claims past) σ)
    (fun _ _ _ plan hmem h => h.serve (hopen _ hmem) plan) past h

end Tracked

section Runs

variable {id : UInt64} {capacity : UInt32} {store store' : ByteStore} {first : Segment}

theorem tracked_of_attach (hb : store.Readable) (hempty : store.contents.size = 0)
    (hfirst : attach id capacity store = .ok first store') :
    Tracked (claims []) ⟨id, capacity, some first, store'⟩ := by
  rw [attach_of_small hb (hempty ▸ Nat.zero_le _)] at hfirst
  rcases start_cases hb id capacity with ⟨b', hstart, hcapacity, htorn⟩ | ⟨e, k, b', hstart, -⟩
  · cases hfirst.symm.trans hstart
    exact ⟨htorn.readable hb, _, rfl, .start hempty hcapacity htorn⟩
  · cases hfirst.symm.trans hstart

/-- Whatever becomes of the single writes of a run on one handle, the headers that are listed are
one for each append that was given space, in order, and each is read as the transaction of that
append or not at all. For an append that has succeeded it is the header that was answered, and it is
read; once there is one the headers can be listed. -/
theorem claims_read_back (hb : store.Readable) (hempty : store.contents.size = 0)
    (hfirst : attach id capacity store = .ok first store')
    {requests : List (Request × List Outcome)} (hopen : ∀ r ∈ requests, r.1 ≠ .reopen) :
    let history := Session.run ⟨id, capacity, some first, store'⟩ requests
    ∃ s, history.2.segment? = some s ∧
      (∀ found o, headers ⟨s, history.2.store⟩ = .ok found o →
        found.length = (claims history.1).length ∧
        ∀ (k : Nat) (h : RecordHeader) (x : Claimed), found[k]? = some h →
          (claims history.1)[k]? = some x →
          ((∃ e, transactionOf h o = .error e o) ∨ transactionOf h o = .ok x.transaction o) ∧
          ∀ h', x.header? = some h' → h = h' ∧ transactionOf h o = .ok x.transaction o) ∧
      ∀ x ∈ claims history.1, x.header?.isSome →
        ∃ found o, headers ⟨s, history.2.store⟩ = .ok found o := by
  intro history
  have htracked := (tracked_of_attach hb hempty hfirst).run hopen
  rw [List.nil_append] at htracked
  obtain ⟨s, hs, hfilled⟩ := htracked.filled
  refine ⟨s, hs, ?_, ?_⟩
  · intro found o hread
    obtain ⟨rfl, rfl⟩ := headers_eq_ok (o := ⟨s, history.2.store⟩) htracked.readable hread
    have hslots := hfilled.slots_eq
    constructor
    · rw [List.length_map, List.length_range]
      exact hslots
    · intro k h x hk hx
      obtain ⟨hlt, -⟩ := List.getElem?_eq_some_iff.1 hx
      rw [List.getElem?_map, List.getElem?_range (hslots.symm ▸ hlt), Option.map_some] at hk
      cases hk
      obtain ⟨hany, hanswered⟩ := hfilled.read_claim htracked.readable hx
      refine ⟨hany, ?_⟩
      intro h' hh'
      obtain ⟨heq, hok⟩ := hanswered h' hh'
      exact ⟨heq, heq.symm ▸ hok⟩
  · intro x hx hanswer
    obtain ⟨found, hfound⟩ := hfilled.headers_of_answered htracked.readable hx hanswer
    exact ⟨found, _, hfound⟩

/-- A header that is torn in its end and names a start of its body, and an append after it. -/
theorem claims_read_back_torn_header :
    let long : Transaction := { id := 7, changes := [.delete (List.replicate 61 97)] }
    let t : Transaction := { id := 8, changes := [.delete [97]] }
    let requests := [(.append long, [.atMost 100, .atMost 15, .failed]), (.append t, [])]
    (∀ r ∈ requests, r.1 ≠ .reopen) ∧ ∃ first store', attach 1 304 {} = .ok first store' ∧
      let history := Session.run ⟨1, 304, some first, store'⟩ requests
      claims history.1 = [⟨long, none⟩, ⟨t, some ⟨8, 164, 204⟩⟩] ∧
        ∃ s o, history.2.segment? = some s ∧
          headers ⟨s, history.2.store⟩ = .ok [⟨7, 204, 256⟩, ⟨8, 164, 204⟩] o ∧
          transactionOf ⟨7, 204, 256⟩ o = .error (.decode (.shortField .key 61 13)) o ∧
          transactionOf ⟨8, 164, 204⟩ o = .ok t o := by
  intro long t requests
  have hb : (ByteStore.ofBytes []).Readable := (ByteStore.plain_ofBytes []).toReadable
  have hfirst : attach 1 304 (ByteStore.ofBytes []) = _ :=
    attach_of_room hb (Nat.zero_le _) rfl nofun (by decide)
  have hopen : ∀ r ∈ requests, r.1 ≠ .reopen := by decide
  refine ⟨hopen, _, _, hfirst, ?_⟩
  obtain ⟨s, hs, hread, hlisted⟩ := claims_read_back hb rfl hfirst hopen
  generalize hrun : Session.run _ requests = history at hs hread hlisted ⊢
  have hclaims : claims history.1 = [⟨long, none⟩, ⟨t, some ⟨8, 164, 204⟩⟩] := by
    rw [← hrun]
    decide +kernel
  let torn : Action (Over Segment ByteStore) (Except StoreError Transaction) :=
    Action.attempt (transactionOf ⟨7, 204, 256⟩)
  have hheaders : (history.2.segment?.bind fun s => headers.run' ⟨s, history.2.store⟩) =
      some [⟨7, 204, 256⟩, ⟨8, 164, 204⟩] := by
    rw [← hrun]
    decide +kernel
  have htorn : (history.2.segment?.bind fun s => (headers >>= fun _ => torn).run'
      ⟨s, history.2.store⟩) = some (.error (.decode (.shortField .key 61 13))) := by
    rw [← hrun]
    decide +kernel
  obtain ⟨found, o, hfound⟩ := hlisted ⟨t, some ⟨8, 164, 204⟩⟩
    (hclaims ▸ List.mem_cons_of_mem _ List.mem_cons_self) rfl
  rw [hs, Option.bind_some, Action.run'_of_ok hfound, Option.some_inj] at hheaders
  subst hheaders
  obtain ⟨-, hreads⟩ := hread _ o hfound
  obtain ⟨-, hsecond⟩ := hreads 1 ⟨8, 164, 204⟩ ⟨t, some ⟨8, 164, 204⟩⟩ rfl (by rw [hclaims]; rfl)
  refine ⟨hclaims, s, o, hs, hfound, ?_, (hsecond _ rfl).2⟩
  obtain ⟨⟨e, herror⟩ | hok, -⟩ := hreads 0 ⟨7, 204, 256⟩ ⟨long, none⟩ rfl (by rw [hclaims]; rfl)
  · have hanswered : (headers >>= fun _ => torn) ⟨s, history.2.store⟩ = .ok (.error e) o :=
      (Action.bind_of_ok hfound).trans (Action.attempt_of_error herror)
    rw [hs, Option.bind_some, Action.run'_of_ok hanswered, Option.some_inj] at htorn
    cases htorn
    exact herror
  · have hanswered : (headers >>= fun _ => torn) ⟨s, history.2.store⟩ = .ok (.ok long) o :=
      (Action.bind_of_ok hfound).trans (Action.attempt_of_ok hok)
    rw [hs, Option.bind_some, Action.run'_of_ok hanswered, Option.some_inj] at htorn
    cases htorn

end Runs

end Segment

end AppendStore
