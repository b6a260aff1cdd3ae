import AppendStore.Proofs.Checksum.Burst
import AppendStore.Proofs.ValueFile.Record

/-!
# Damaged values

`Contents.Damaged off len` relates contents to others that differ from them, but nowhere
except in the `len` bytes from `off` on. Flipping bits of one byte is such a damage
(`Contents.damaged_flip`).

A stored value is damaged locally if its damage lies either in at most four bytes in a row
of the value or in the bytes of the checksum (`ValueFile.Local`). Local damage is never read
as a value: `ValueFile.local_damage_detected`. What the checksum cannot see, such as longer
bursts and damage in both parts at once, is left out.
-/

namespace AppendStore

namespace Contents

/-- The contents `d` differ from `c`, but only in the `len` bytes from `off` on. -/
structure Damaged (c : Contents) (off len : Nat) (d : Contents) : Prop where
  size : d.size = c.size
  outside : ∀ i, i < off ∨ off + len ≤ i → d.byte i = c.byte i
  differs : d ≠ c

namespace Damaged

variable {c d : Contents} {off len : Nat}

theorem mono (h : c.Damaged off len d) {off' len' : Nat} (hlow : off' ≤ off)
    (hhigh : off + len ≤ off' + len') : c.Damaged off' len' d :=
  ⟨h.size, fun i hi => h.outside i (by omega), h.differs⟩

theorem window_of_disjoint (h : c.Damaged off len d) {off' len' : Nat}
    (hdisjoint : off' + len' ≤ off ∨ off + len ≤ off') :
    d.window off' len' = c.window off' len' :=
  window_congr fun i hlow hhigh => h.outside i (by omega)

theorem window_ne (h : c.Damaged off len d) : d.window off len ≠ c.window off len := by
  intro hwindow
  refine h.differs (Contents.ext h.size fun i => ?_)
  by_cases hi : i < off ∨ off + len ≤ i
  · exact h.outside i hi
  · have hbyte := congrArg (fun bs : Bytes => bs[i - off]?) hwindow
    simp only [getElem?_window] at hbyte
    rw [if_pos (by omega), if_pos (by omega), Nat.add_sub_cancel' (by omega)] at hbyte
    exact Option.some.inj hbyte

end Damaged

theorem damaged_write {c : Contents} {off : Nat} {bs : Bytes} (h : off + bs.length ≤ c.size)
    (hne : bs ≠ c.window off bs.length) : c.Damaged off bs.length (c.write off bs) := by
  have hbs : bs ≠ [] := by
    rintro rfl
    exact hne rfl
  constructor
  · rw [size_write hbs]
    exact Nat.max_eq_left h
  · intro i hi
    exact byte_write_of_outside c hi
  · intro hsame
    have hwindow := window_write c off bs
    rw [hsame] at hwindow
    exact hne hwindow.symm

theorem damaged_flip {c : Contents} {off : Nat} (h : off < c.size) {mask : UInt8}
    (hmask : mask ≠ 0) : c.Damaged off 1 (c.flip off mask) := by
  rw [flip, if_pos h]
  refine @damaged_write c off [c.byte off ^^^ mask] h ?_
  intro hsame
  have hbyte : c.byte off ^^^ mask = c.byte off ^^^ 0 := by
    rw [UInt8.xor_zero]
    exact List.head_eq_of_cons_eq hsame
  exact hmask ((UInt8.xor_right_inj _).1 hbyte)

end Contents

namespace ValueFile

open ByteStore

/-- The `len` bytes from `start` on lie in the value of `size` bytes at `offset` and are few, or
they are its checksum. -/
def Local (offset size start len : Nat) : Prop :=
  (offset ≤ start ∧ start + len ≤ offset + size ∧ len ≤ 4) ∨
    (start = offset + size ∧ len = checksumSize)

/-- Reading the value fails because of its checksum. -/
def FailsChecksum (offset : UInt64) (size : Nat) (o : Over ValueFile ByteStore) : Prop :=
  ∃ stored computed, computed ≠ stored ∧
    read offset size o = .error (.badChecksum stored computed) o

variable {c d : Contents} {off start len : Nat} {value : Bytes}

theorem windows_of_shows (h : c.Shows off (recordOf value)) :
    c.window off value.length = value ∧
      c.window (off + value.length) checksumSize = (crc32 value).beBytes := by
  have hwindow := h.window
  rw [length_recordOf, storedLength, Contents.window_add] at hwindow
  exact List.append_inj hwindow (Contents.length_window _ _ _)

theorem crc32_window_ne (h : c.Damaged start len d) (hlow : off ≤ start)
    (hhigh : start + len ≤ off + value.length) (hfew : len ≤ 4)
    (hvalue : c.window off value.length = value) :
    crc32 (d.window off value.length) ≠ crc32 value := by
  obtain ⟨before, rfl⟩ := Nat.exists_eq_add_of_le hlow
  obtain ⟨behind, hbehind⟩ := Nat.exists_eq_add_of_le hhigh
  have hlength : value.length = before + len + behind := by omega
  have hsplit : ∀ e : Contents, e.window off value.length =
      e.window off before ++ e.window (off + before) len ++
        e.window (off + (before + len)) behind := by
    intro e
    rw [hlength, Contents.window_add, Contents.window_add]
  have hbefore : d.window off before = c.window off before :=
    h.window_of_disjoint (.inl (Nat.le_refl _))
  have hrest : d.window (off + (before + len)) behind = c.window (off + (before + len)) behind :=
    h.window_of_disjoint (.inr (by omega))
  rw [hsplit d, hbefore, hrest]
  conv => rhs; rw [← hvalue, hsplit c]
  refine crc32_ne_of_burst ?_ ?_ h.window_ne _ _
  · rw [Contents.length_window, Contents.length_window]
  · rwa [Contents.length_window]

/-- Local damage makes the two checksums differ, whichever of them it is that changes. -/
theorem checksums_ne (h : c.Damaged start len d) (hlocal : Local off value.length start len)
    (hshows : c.Shows off (recordOf value)) :
    crc32 (d.window off value.length) ≠
      UInt32.ofBeBytes (d.window (off + value.length) checksumSize) := by
  obtain ⟨hvalue, hchecksum⟩ := windows_of_shows hshows
  rcases hlocal with ⟨hlow, hhigh, hfew⟩ | ⟨rfl, rfl⟩
  · rw [h.window_of_disjoint (.inr hhigh), hchecksum, UInt32.ofBeBytes_beBytes]
    exact crc32_window_ne h hlow hhigh hfew hvalue
  · rw [h.window_of_disjoint (.inl (Nat.le_refl _)), hvalue]
    intro hsame
    apply h.window_ne
    rw [hchecksum, hsame]
    exact (UInt32.beBytes_ofBeBytes (Contents.length_window _ _ _)).symm

theorem failsChecksum_of_damaged {t : ByteStore} (ht : t.Readable)
    (hlength : storedLength value < UInt64.size) {offset : UInt64}
    (hshows : t.contents.Shows offset.toNat (recordOf value)) (h : t.contents.Damaged start len d)
    (hlocal : Local offset.toNat value.length start len) (g : ValueFile) :
    FailsChecksum offset value.length ⟨g, t.withContents d⟩ := by
  have hreach := hshows.size
  rw [length_recordOf, storedLength, ← h.size] at hreach
  refine ⟨_, _, checksums_ne h hlocal hshows, ?_⟩
  have htake : (d.window offset.toNat (value.length + checksumSize)).take value.length =
      d.window offset.toNat value.length :=
    d.take_window (Nat.le_add_right _ _)
  have hdrop : (d.window offset.toNat (value.length + checksumSize)).drop value.length =
      d.window (offset.toNat + value.length) checksumSize := by
    rw [d.drop_window (Nat.le_add_right _ _), Nat.add_sub_cancel_left]
  rw [read_eq_readRecord (ht.withContents d) hlength hreach]
  change (Action.ofExcept (readRecord _ (d.window _ _)) : Action (Over ValueFile ByteStore) Bytes)
    _ = _
  rw [readRecord_eq, htake, hdrop, if_neg (checksums_ne h hlocal hshows)]
  rfl

/-- Whatever file has stored a value and whatever is stored behind it later: local damage to it is
found out by every read, and so is a flipped bit in any byte of its record. -/
theorem local_damage_detected {f f' : ValueFile} {b b' t : ByteStore} {offset : UInt64}
    (hb : b.Readable) (hlength : storedLength value < UInt64.size)
    (hwrite : write value ⟨f, b⟩ = .ok offset ⟨f', b'⟩) (ht : t.Readable)
    (hlater : b'.contents.Begins t.contents) (g : ValueFile) :
    (∀ start len d, Local offset.toNat value.length start len → t.contents.Damaged start len d →
      FailsChecksum offset value.length ⟨g, t.withContents d⟩) ∧
    ∀ i mask, i < storedLength value → mask ≠ 0 →
      FailsChecksum offset value.length
        ⟨g, t.withContents (t.contents.flip (offset.toNat + i) mask)⟩ := by
  have hshows : t.contents.Shows offset.toNat (recordOf value) := by
    rcases write_cases hb f value with ⟨b₁, hok, htorn⟩ | ⟨e, k, b₁, herror, -, -⟩
    · cases hok.symm.trans hwrite
      have hcontents := htorn.contents_eq
      rw [← length_recordOf value, List.take_length] at hcontents
      exact hlater.shows_of_shows (hcontents ▸ Contents.shows_write _ (recordOf_ne_nil value))
    · cases herror.symm.trans hwrite
  refine ⟨fun start len d hlocal h => failsChecksum_of_damaged ht hlength hshows h hlocal g, ?_⟩
  intro i mask hi hmask
  have hreach := hshows.size
  rw [length_recordOf] at hreach
  have hflip := Contents.damaged_flip
    (Nat.lt_of_lt_of_le (Nat.add_lt_add_left hi offset.toNat) hreach) hmask
  rw [storedLength] at hi
  by_cases hvalue : i < value.length
  · exact failsChecksum_of_damaged ht hlength hshows hflip
      (.inl ⟨Nat.le_add_right _ _, by omega, by omega⟩) g
  · have hchecksum : t.contents.Damaged (offset.toNat + value.length) checksumSize
        (t.contents.flip (offset.toNat + i) mask) :=
      hflip.mono (by omega) (by omega)
    exact failsChecksum_of_damaged ht hlength hshows hchecksum (.inr ⟨rfl, rfl⟩) g

/-- Both bytes of a value are damaged, or its checksum is. -/
theorem local_damage_detected_two_bytes :
    let store := ByteStore.ofBytes [7]
    let file := opened 1 store
    let later := store.withContents (store.contents.write 1 (recordOf [10, 20]))
    store.Readable ∧ storedLength [10, 20] < UInt64.size ∧
      write [10, 20] ⟨file, store⟩ = .ok 1 ⟨file.claimed [10, 20], later⟩ ∧
      later.contents.Damaged 1 2 (later.contents.write 1 [11, 21]) ∧
      FailsChecksum 1 2 ⟨file, later.withContents (later.contents.write 1 [11, 21])⟩ ∧
      FailsChecksum 1 2 ⟨file, later.withContents (later.contents.flip 6 0x80)⟩ := by
  intro store file later
  have hstore : store.Plain := plain_ofBytes _
  have hlength : storedLength [10, 20] < UInt64.size := by decide
  have hwrite : write [10, 20] ⟨file, store⟩ = .ok 1 ⟨file.claimed [10, 20], later⟩ :=
    write_of_plain hstore file [10, 20]
  have hdamage : later.contents.Damaged 1 2 (later.contents.write 1 [11, 21]) :=
    @Contents.damaged_write later.contents 1 [11, 21] (by decide +kernel) (by decide +kernel)
  obtain ⟨hburst, hflip⟩ := local_damage_detected hstore.toReadable hlength hwrite
    (hstore.withContents _).toReadable (.refl _) file
  exact ⟨hstore.toReadable, hlength, hwrite, hdamage,
    hburst 1 2 _ (.inl ⟨by decide, by decide, by decide⟩) hdamage,
    hflip 5 0x80 (by decide) (by decide)⟩

end ValueFile

end AppendStore
