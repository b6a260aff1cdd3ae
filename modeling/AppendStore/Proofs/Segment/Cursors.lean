import AppendStore.Segment.Cursors

/-!
# Cursors as two numbers

The word of `Cursors` holds its two halves side by side: they are read back from
`pack` (`Cursors.front_pack`, `Cursors.back_pack`), and on the store the word is the
four bytes of the front before the four bytes of the back (`Cursors.bytes_eq`).

While the back is no further than a segment may reach, a claim is decided by the
bytes between the cursors alone: `Cursors.claim_of_fits` and `Cursors.claim_of_full`.
On a word of any kind, a damaged one too, the signed reading of its halves decides
(`Cursors.claim_any_word`).
-/

namespace AppendStore

namespace Cursors

theorem toNat_word (c : Cursors) :
    c.word.toNat = c.front.toNat * UInt32.size + c.back.toNat := by
  have hlt : c.word.toNat < UInt64.size := c.word.toNat_lt
  have hfront : c.front.toNat = c.word.toNat / UInt32.size := by
    simp only [front, UInt64.toNat_toUInt32, UInt64.toNat_shiftRight, Nat.shiftRight_eq_div_pow]
    change c.word.toNat / UInt32.size % UInt32.size = c.word.toNat / UInt32.size
    simp only [UInt32.size, UInt64.size] at hlt ⊢
    omega
  have hback : c.back.toNat = c.word.toNat % UInt32.size := by
    simp only [back, UInt64.toNat_toUInt32]
  rw [hfront, hback, Nat.mul_comm, Nat.div_add_mod]

theorem ext_halves {c d : Cursors} (hfront : c.front = d.front) (hback : c.back = d.back) :
    c = d := by
  have hword : c.word = d.word := by
    rw [← UInt64.toNat_inj, toNat_word, toNat_word, hfront, hback]
  cases c
  cases d
  exact congrArg Cursors.mk hword

theorem toNat_word_pack (front back : UInt32) :
    (pack front back).word.toNat = front.toNat * UInt32.size + back.toNat := by
  have hfront : front.toNat < UInt32.size := front.toNat_lt
  have hshift : (front.toUInt64 <<< 32).toNat = front.toNat <<< 32 := by
    rw [UInt64.toNat_shiftLeft, UInt32.toNat_toUInt64]
    change front.toNat <<< 32 % UInt64.size = _
    apply Nat.mod_eq_of_lt
    rw [Nat.shiftLeft_eq]
    change front.toNat * UInt32.size < UInt64.size
    simp only [UInt32.size, UInt64.size] at hfront ⊢
    omega
  rw [pack, UInt64.toNat_or, hshift, UInt32.toNat_toUInt64,
    ← Nat.shiftLeft_add_eq_or_of_lt back.toNat_lt, Nat.shiftLeft_eq]

@[simp] theorem front_pack (front back : UInt32) : (pack front back).front = front := by
  have hfront : front.toNat < UInt32.size := front.toNat_lt
  have hback : back.toNat < UInt32.size := back.toNat_lt
  have hback' : (pack front back).back.toNat < UInt32.size := (pack front back).back.toNat_lt
  have hword := (toNat_word (pack front back)).symm.trans (toNat_word_pack front back)
  rw [← UInt32.toNat_inj]
  simp only [UInt32.size] at *
  omega

@[simp] theorem back_pack (front back : UInt32) : (pack front back).back = back := by
  have hword := (toNat_word (pack front back)).symm.trans (toNat_word_pack front back)
  rw [front_pack] at hword
  exact UInt32.toNat_inj.1 (Nat.add_left_cancel hword)

@[simp] theorem front_ofCapacity (capacity : UInt32) :
    (ofCapacity capacity).front = UInt32.ofNat Segment.wordSize :=
  front_pack _ _

@[simp] theorem back_ofCapacity (capacity : UInt32) : (ofCapacity capacity).back = capacity :=
  back_pack _ _

theorem word_ne_zero {c : Cursors} (h : 0 < c.front.toNat) : c.word ≠ 0 := by
  intro hzero
  have hword := c.toNat_word
  have hsize : 0 < UInt32.size := by decide
  have hpos := Nat.mul_pos h hsize
  rw [hzero, show (0 : UInt64).toNat = 0 from rfl] at hword
  omega

/-- The bytes of the cursors are those of the front before those of the back. -/
theorem bytes_eq (c : Cursors) : c.bytes = c.front.beBytes ++ c.back.beBytes := by
  have hlen : (c.front.beBytes ++ c.back.beBytes).length = 8 := by simp
  have hfront : beNat c.front.beBytes = c.front.toNat := beNat_beBytes_of_lt c.front.toNat_lt
  have hback : beNat c.back.beBytes = c.back.toNat := beNat_beBytes_of_lt c.back.toNat_lt
  have hnat : beNat (c.front.beBytes ++ c.back.beBytes) = c.word.toNat := by
    rw [beNat_append, hfront, hback, UInt32.length_beBytes, toNat_word, Nat.mul_comm]
    rfl
  rw [bytes, UInt64.beBytes, ← hnat, ← hlen, beBytes_beNat]

theorem bytes_ofBytes {word : Bytes} (h : word.length = Segment.wordSize) :
    (ofBytes word).bytes = word :=
  UInt64.beBytes_ofBeBytes h

theorem bytes_ne_nil (c : Cursors) : c.bytes ≠ [] := by
  intro h
  have hlen := length_bytes c
  rw [h] at hlen
  exact absurd hlen (by decide)

theorem ofBytes_append {front back : Bytes} (hfront : front.length = 4) (hback : back.length = 4) :
    ofBytes (front ++ back) = pack (.ofBeBytes front) (.ofBeBytes back) := by
  have hlen : (front ++ back).length = 8 := by rw [List.length_append, hfront, hback]
  have hword : (ofBytes (front ++ back)).word =
      (pack (.ofBeBytes front) (.ofBeBytes back)).word := by
    rw [← UInt64.toNat_inj, toNat_word_pack, ofBytes, UInt64.toNat_ofBeBytes hlen, beNat_append,
      UInt32.toNat_ofBeBytes hfront, UInt32.toNat_ofBeBytes hback, hback, Nat.mul_comm]
    rfl
  exact congrArg Cursors.mk hword

theorem toNat_front_ofBytes {word : Bytes} (h : word.length = Segment.wordSize) :
    (ofBytes word).front.toNat = beNat (word.take 4) := by
  have hfront : (word.take 4).length = 4 := by rw [List.length_take, h]; rfl
  have hback : (word.drop 4).length = 4 := by rw [List.length_drop, h]; rfl
  have hsplit := ofBytes_append hfront hback
  rw [List.take_append_drop] at hsplit
  rw [hsplit, front_pack, UInt32.toNat_ofBeBytes hfront]

theorem toNat_back_ofBytes {word : Bytes} (h : word.length = Segment.wordSize) :
    (ofBytes word).back.toNat = beNat (word.drop 4) := by
  have hfront : (word.take 4).length = 4 := by rw [List.length_take, h]; rfl
  have hback : (word.drop 4).length = 4 := by rw [List.length_drop, h]; rfl
  have hsplit := ofBytes_append hfront hback
  rw [List.take_append_drop] at hsplit
  rw [hsplit, back_pack, UInt32.toNat_ofBeBytes hback]

theorem signedBack_eq {c : Cursors} (h : c.back.toNat ≤ Segment.maxCapacity) :
    c.signedBack = c.back.toNat := by
  have hlt : c.back.toNat * 2 < UInt32.size := by
    simp only [Segment.maxCapacity, UInt32.size] at h ⊢
    omega
  exact Int.bmod_eq_of_le_mul_two (by omega) (by omega)

theorem signedBack_of_nonneg {c : Cursors} (h : 0 ≤ c.signedBack) :
    c.signedBack = c.back.toNat := by
  have hback : (c.back.toNat : Int) < UInt32.size := Int.ofNat_lt.2 c.back.toNat_lt
  have hhalf : c.signedBack < (UInt32.size + 1) / 2 := Int.bmod_lt (by decide)
  have hlt : c.signedBack < UInt32.size := Int.lt_trans hhalf (by decide)
  have hsame : c.signedBack % UInt32.size = c.back.toNat % UInt32.size := Int.bmod_emod
  rwa [Int.emod_eq_of_lt h hlt, Int.emod_eq_of_lt (Int.natCast_nonneg _) hback] at hsame

/-- The halves of a word as numbers, the upper one unsigned and the lower one signed. -/
def halves (word : UInt64) : Nat × Int :=
  (word.toNat / UInt32.size, word.toUInt32.toInt32.toInt)

theorem halves_word (c : Cursors) : halves c.word = (c.front.toNat, c.signedBack) := by
  have hback : c.back.toNat < UInt32.size := c.back.toNat_lt
  have hword := c.toNat_word
  have hfront : c.word.toNat / UInt32.size = c.front.toNat := by
    simp only [UInt32.size] at *
    omega
  have hsigned : c.word.toUInt32.toInt32.toInt = c.signedBack :=
    BitVec.toInt_eq_toNat_bmod c.back.toBitVec
  rw [halves, hfront, hsigned]

theorem space_eq {c : Cursors} (h : c.back.toNat ≤ Segment.maxCapacity) :
    c.space = (c.back.toNat : Int) - c.front.toNat := by
  rw [space, signedBack_eq h]

/-- Cursors in order are not waited for. -/
theorem awaited_cons_of_order {c : Cursors} (horder : c.front.toNat ≤ c.back.toNat)
    (hback : c.back.toNat ≤ Segment.maxCapacity) (later : List Cursors) :
    awaited (c :: later) = some c.bytes := by
  have hsigned := signedBack_eq hback
  rw [awaited, if_neg]
  omega

/-- One addition to the word moves both cursors, if neither leaves its half. -/
theorem word_add_delta {c : Cursors} {h d : UInt32} (hfront : c.front.toNat + h.toNat < UInt32.size)
    (hback : d.toNat ≤ c.back.toNat) :
    (⟨c.word + delta h d⟩ : Cursors) = pack (c.front + h) (c.back - d) := by
  have hword := c.toNat_word
  have hlt : c.word.toNat < UInt64.size := c.word.toNat_lt
  have hdlt : d.toNat < UInt32.size := d.toNat_lt
  have hhlt : h.toNat < UInt32.size := h.toNat_lt
  have hblt : c.back.toNat < UInt32.size := c.back.toNat_lt
  have hshift : (h.toUInt64 <<< 32).toNat = h.toNat * UInt32.size := by
    have hpack := toNat_word_pack h 0
    have hzero : h.toUInt64 <<< 32 ||| (0 : UInt32).toUInt64 = h.toUInt64 <<< 32 := by simp
    rw [pack, hzero] at hpack
    simpa using hpack
  have hdelta : (c.word + delta h d).toNat =
      (c.front.toNat + h.toNat) * UInt32.size + (c.back.toNat - d.toNat) := by
    rw [UInt64.toNat_add, delta, UInt64.toNat_sub, hshift, UInt32.toNat_toUInt64]
    change (c.word.toNat + (UInt64.size - d.toNat + h.toNat * UInt32.size) % UInt64.size) %
      UInt64.size = _
    simp only [UInt32.size, UInt64.size] at *
    omega
  have hfrontEq : (c.front + h).toNat = c.front.toNat + h.toNat := by
    rw [UInt32.toNat_add]
    exact Nat.mod_eq_of_lt hfront
  have hbackEq : (c.back - d).toNat = c.back.toNat - d.toNat :=
    UInt32.toNat_sub_of_le _ _ hback
  have hpack : (c.word + delta h d).toNat = (pack (c.front + h) (c.back - d)).word.toNat := by
    rw [hdelta, toNat_word_pack, hfrontEq, hbackEq]
  exact congrArg Cursors.mk (UInt64.toNat_inj.1 hpack)

theorem claim_of_fits {c : Cursors} {h d : UInt32} (hmax : c.back.toNat ≤ Segment.maxCapacity)
    (hfits : c.front.toNat + h.toNat + d.toNat ≤ c.back.toNat) :
    c.claim h d =
      (some ⟨c.front.toNat, c.back.toNat - d.toNat⟩, pack (c.front + h) (c.back - d)) := by
  have hsigned := signedBack_eq hmax
  have hspace := space_eq hmax
  have hplace : c.place? h d = some ⟨c.front.toNat, c.back.toNat - d.toNat⟩ := by
    have hoffset : ((c.back.toNat : Int) - d.toNat).toNat = c.back.toNat - d.toNat := by omega
    simp only [place?, hsigned, hoffset]
    rw [if_neg (by omega), if_pos (by omega)]
  have hmoved := word_add_delta (c := c) (h := h) (d := d)
    (by simp only [UInt32.size, Segment.maxCapacity] at *; omega) (by omega)
  rw [claim, if_neg (by omega), hplace]
  simp only [hmoved]

theorem claim_of_misfit {c : Cursors} {h d : UInt32}
    (hmisfit : ¬ (c.front.toNat + h.toNat + d.toNat ≤ c.signedBack ∧
      c.signedBack ≤ Segment.maxCapacity)) :
    c.claim h d = (none, c) := by
  have hplace : c.place? h d = none := by
    simp only [place?]
    split
    · rfl
    · rw [if_neg (by omega)]
  have hnone : (c.claim h d).1 = none := by
    rw [claim]
    split
    · rfl
    · rw [hplace]
  exact Prod.ext hnone (claim_snd_of_fst_eq_none hnone)

theorem claim_of_full {c : Cursors} {h d : UInt32} (hmax : c.back.toNat ≤ Segment.maxCapacity)
    (hfull : c.back.toNat < c.front.toNat + h.toNat + d.toNat) : c.claim h d = (none, c) := by
  have hsigned := signedBack_eq hmax
  exact claim_of_misfit (by omega)

/-- The halves of the word after a claim that fits: neither takes from the other. -/
theorem halves_word_pack {c : Cursors} {h d : UInt32} (hmax : c.back.toNat ≤ Segment.maxCapacity)
    (hfits : c.front.toNat + h.toNat + d.toNat ≤ c.back.toNat) :
    halves (pack (c.front + h) (c.back - d)).word =
      (c.front.toNat + h.toNat, (c.back.toNat : Int) - d.toNat) := by
  have hlt : c.back.toNat < UInt32.size := c.back.toNat_lt
  have hfront : (c.front + h).toNat = c.front.toNat + h.toNat := by
    rw [UInt32.toNat_add]
    exact Nat.mod_eq_of_lt (Nat.lt_of_le_of_lt (by omega) hlt)
  have hle : d.toNat ≤ c.back.toNat := by omega
  have hback : (c.back - d).toNat = c.back.toNat - d.toNat := UInt32.toNat_sub_of_le _ _ hle
  have hsigned : (pack (c.front + h) (c.back - d)).signedBack = (c.back.toNat : Int) - d.toNat := by
    rw [signedBack_eq (by rw [back_pack]; omega), back_pack, hback]
    omega
  rw [halves_word, front_pack, hfront, hsigned]

/-- A claim on any word at all. It is granted just if it fits between the halves of the word and
the lower half is no further than a segment may reach; then it takes its bytes from both ends. If
it is not granted the word is what it was. -/
theorem claim_any_word (word : UInt64) (h d : UInt32) :
    let front := (halves word).1
    let back := (halves word).2
    let claimed := (ofBytes word.beBytes).claim h d
    ((∃ place, claimed.1 = some place) ↔
      front + h.toNat + d.toNat ≤ back ∧ back ≤ Segment.maxCapacity) ∧
    (∀ place, claimed.1 = some place →
      place.headerOffset = front ∧ place.bodyOffset = back - d.toNat ∧
        halves claimed.2.word = (front + h.toNat, back - d.toNat)) ∧
    (claimed.1 = none → claimed.2.word = word) := by
  have hbytes : ofBytes word.beBytes = ⟨word⟩ := ofBytes_bytes ⟨word⟩
  have hhalves := halves_word ⟨word⟩
  generalize hc : (⟨word⟩ : Cursors) = c at hbytes hhalves
  obtain rfl : word = c.word := congrArg Cursors.word hc
  simp only [hbytes, hhalves]
  by_cases hfits : c.front.toNat + h.toNat + d.toNat ≤ c.signedBack ∧
      c.signedBack ≤ Segment.maxCapacity
  · have hback : c.signedBack = c.back.toNat := signedBack_of_nonneg (by omega)
    have hmax : c.back.toNat ≤ Segment.maxCapacity := by omega
    have hbetween : c.front.toNat + h.toNat + d.toNat ≤ c.back.toNat := by omega
    have hmoved := halves_word_pack hmax hbetween
    rw [claim_of_fits hmax hbetween, hback]
    refine ⟨⟨fun _ => hback ▸ hfits, fun _ => ⟨_, rfl⟩⟩, ?_, nofun⟩
    rintro _ ⟨⟩
    exact ⟨rfl, Int.ofNat_sub (by omega), hmoved⟩
  · rw [claim_of_misfit hfits]
    exact ⟨⟨nofun, fun h => absurd h hfits⟩, nofun, fun _ => rfl⟩

/-- A back that is negative as a signed number leaves room for nothing. -/
example : (ofBytes (UInt64.beBytes 0x80000000)).claim 16 4 = (none, ⟨0x80000000⟩) := by
  decide

end Cursors

end AppendStore
