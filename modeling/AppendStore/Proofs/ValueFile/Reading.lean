import AppendStore.Proofs.ByteStore.Calls
import AppendStore.Proofs.ValueFile.Record

/-!
# Reading values that may be damaged

A read can ask for any range, also for one that no file can have. `ValueFile.verified` is
what it gives of some contents: too little of them is an incomplete value, and the rest is
judged by its checksum. However the calls of the store are split, a read answers just that
(`ValueFile.read_of_passing`), so a value is answered if and only if it stands in the store
with its own checksum behind it (`ValueFile.read_answers_verified`).
-/

namespace AppendStore

namespace ValueFile

open ByteStore

variable {b : ByteStore} {c : Contents} {offset size : Nat} {value : Bytes}

/-- What a read of `size` bytes at `offset` gives of some contents. -/
def verified (c : Contents) (offset size : Nat) : Except StoreError Bytes :=
  if c.size < offset + size + checksumSize then
    .error (.incompleteValue (min (size + checksumSize) maxSize) (c.size - offset))
  else readRecord size (c.read offset (size + checksumSize))

/-- A read that may pass goes by the contents alone and changes nothing. -/
theorem read_of_passing (hpass : ∀ o ∈ b.plannedReads, o.Passing) (hreported : b.reportedSize = none)
    (hlength : b.contents.size < UInt64.size) (f : ValueFile) (offset : UInt64) (size : Nat) :
    ∃ b', b'.contents = b.contents ∧
      read offset size ⟨f, b⟩ =
        Action.ofExcept (verified b.contents offset.toNat size) ⟨f, b'⟩ := by
  have hsize : b.size = b.contents.size := by rw [ByteStore.size, hreported]
  -- The sum of offset and size is never formed, and near the end of the numbers it is the size
  -- alone that is too large.
  have hshort : (maxSize < size + checksumSize ∨
      b.contents.size - offset.toNat < size + checksumSize) ↔
        b.contents.size < offset.toNat + size + checksumSize := by
    rw [maxSize, checksumSize]
    omega
  unfold read verified
  rw [Action.get_bind]
  by_cases hroom : b.contents.size < offset.toNat + size + checksumSize
  · refine ⟨b, rfl, ?_⟩
    simp only [hsize, if_pos hroom, if_pos (hshort.2 hroom)]
    rfl
  · obtain ⟨calls, b', hgave, hok⟩ :=
      readSpan_of_passing hpass (size + checksumSize) offset.toNat
    have hspan : Action.ofIo (readSpan (size + checksumSize) offset.toNat) b =
        .ok (b.contents.read offset.toNat (size + checksumSize)) b' := by
      simp only [Action.ofIo, hok]
    have hwhole : ¬ (b.contents.read offset.toNat (size + checksumSize)).length ≠
        size + checksumSize := by
      rw [Contents.length_read]
      omega
    refine ⟨b', hgave.contents_eq, ?_⟩
    simp only [hsize, if_neg hroom, if_neg (mt hshort.1 hroom)]
    rw [Action.bind_of_ok (Action.onBase_of_ok hspan)]
    simp only [if_neg hwhole]

/-- Where the contents reach far enough the four bytes behind the value decide. -/
theorem verified_of_fits (h : offset + size + checksumSize ≤ c.size) :
    verified c offset size =
      if c.read (offset + size) checksumSize = (crc32 (c.read offset size)).beBytes then
        .ok (c.read offset size)
      else .error (.badChecksum (.ofBeBytes (c.read (offset + size) checksumSize))
        (crc32 (c.read offset size))) := by
  have hvalue : (c.read offset size).length = size := by
    rw [Contents.length_read]
    omega
  have hchecksum : (c.read (offset + size) checksumSize).length = 4 := by
    rw [Contents.length_read]
    exact Nat.min_eq_left (by omega)
  have hsplit : c.read offset (size + checksumSize) =
      c.read offset size ++ c.read (offset + size) checksumSize :=
    Contents.read_add c (by omega) checksumSize
  have hagree : crc32 (c.read offset size) = .ofBeBytes (c.read (offset + size) checksumSize) ↔
      c.read (offset + size) checksumSize = (crc32 (c.read offset size)).beBytes := by
    constructor
    · intro heq
      rw [heq, UInt32.beBytes_ofBeBytes hchecksum]
    · intro heq
      rw [heq, UInt32.ofBeBytes_beBytes]
  unfold verified
  rw [if_neg (Nat.not_lt.2 h), readRecord_eq, hsplit, List.take_left' hvalue,
    List.drop_left' hvalue]
  simp only [hagree]

theorem verified_eq_ok_iff :
    verified c offset size = .ok value ↔
      offset + size + checksumSize ≤ c.size ∧ value = c.read offset size ∧
        c.read (offset + size) checksumSize = (crc32 value).beBytes := by
  by_cases hfits : offset + size + checksumSize ≤ c.size
  · rw [verified_of_fits hfits, and_iff_right hfits]
    split
    · next hagree =>
      rw [Except.ok.injEq, eq_comm]
      exact ⟨fun heq => ⟨heq, heq ▸ hagree⟩, And.left⟩
    · next hdiffer =>
      refine ⟨nofun, ?_⟩
      rintro ⟨rfl, hagree⟩
      exact absurd hagree hdiffer
  · unfold verified
    rw [if_pos (Nat.lt_of_not_le hfits)]
    exact ⟨nofun, fun hall => absurd hall.1 hfits⟩

theorem verified_eq_incompleteValue_iff {expected actual : Nat} :
    verified c offset size = .error (.incompleteValue expected actual) ↔
      c.size < offset + size + checksumSize ∧ expected = min (size + checksumSize) maxSize ∧
        actual = c.size - offset := by
  by_cases hfits : offset + size + checksumSize ≤ c.size
  · rw [verified_of_fits hfits]
    refine ⟨fun heq => ?_, fun hall => absurd hfits (Nat.not_le.2 hall.1)⟩
    split at heq
    · cases heq
    · cases heq
  · have hshort := Nat.lt_of_not_le hfits
    unfold verified
    rw [if_pos hshort, Except.error.injEq, StoreError.incompleteValue.injEq, and_iff_right hshort,
      eq_comm, @eq_comm _ _ actual]

theorem verified_eq_badChecksum_iff {stored computed : UInt32} :
    verified c offset size = .error (.badChecksum stored computed) ↔
      offset + size + checksumSize ≤ c.size ∧ computed = crc32 (c.read offset size) ∧
        stored = .ofBeBytes (c.read (offset + size) checksumSize) ∧
        c.read (offset + size) checksumSize ≠ computed.beBytes := by
  by_cases hfits : offset + size + checksumSize ≤ c.size
  · rw [verified_of_fits hfits, and_iff_right hfits]
    split
    · next hagree =>
      refine ⟨nofun, ?_⟩
      rintro ⟨rfl, -, hdiffer⟩
      exact absurd hagree hdiffer
    · next hdiffer =>
      rw [Except.error.injEq, StoreError.badChecksum.injEq]
      constructor
      · rintro ⟨rfl, rfl⟩
        exact ⟨rfl, rfl, hdiffer⟩
      · rintro ⟨rfl, rfl, -⟩
        exact ⟨rfl, rfl⟩
  · unfold verified
    rw [if_pos (Nat.lt_of_not_le hfits)]
    exact ⟨nofun, fun hall => absurd hall.1 hfits⟩

/-- Every read answers with verified bytes or says what is wrong, for every offset and size.

The value is answered if and only if the store reaches to the end of its checksum and the checksum
is that of the value. A store that ends earlier gives an incomplete value, whatever it holds, and
only bytes that are there and disagree give a bad checksum. Cut off anywhere before its end, a
record is incomplete. Reads leave the file and the contents alone. -/
theorem read_answers_verified {b : ByteStore} (hpass : ∀ o ∈ b.plannedReads, o.Passing)
    (hreported : b.reportedSize = none) (hlength : b.contents.size < UInt64.size) (f : ValueFile)
    (offset : UInt64) (size : Nat) :
    (∃ answer b', read offset size ⟨f, b⟩ = Action.ofExcept answer ⟨f, b'⟩ ∧
      b'.contents = b.contents ∧
      (∀ value, answer = .ok value ↔
        offset.toNat + size + checksumSize ≤ b.contents.size ∧
          value = b.contents.read offset.toNat size ∧
          b.contents.read (offset.toNat + size) checksumSize = (crc32 value).beBytes) ∧
      (∀ expected actual, answer = .error (.incompleteValue expected actual) ↔
        b.contents.size < offset.toNat + size + checksumSize ∧
          expected = min (size + checksumSize) maxSize ∧
          actual = b.contents.size - offset.toNat) ∧
      ∀ stored computed, answer = .error (.badChecksum stored computed) ↔
        offset.toNat + size + checksumSize ≤ b.contents.size ∧
          computed = crc32 (b.contents.read offset.toNat size) ∧
          stored = .ofBeBytes (b.contents.read (offset.toNat + size) checksumSize) ∧
          b.contents.read (offset.toNat + size) checksumSize ≠ computed.beBytes) ∧
    ∀ n ≤ b.contents.size, n < offset.toNat + size + checksumSize →
      ∃ b', read offset size ⟨f, b.withContents (b.contents.resize n)⟩ =
        .error (.incompleteValue (min (size + checksumSize) maxSize) (n - offset.toNat)) ⟨f, b'⟩ := by
  constructor
  · obtain ⟨b', hcontents, hread⟩ := read_of_passing hpass hreported hlength f offset size
    exact ⟨_, b', hread, hcontents, fun value => verified_eq_ok_iff,
      fun expected actual => verified_eq_incompleteValue_iff,
      fun stored computed => verified_eq_badChecksum_iff⟩
  · intro n hn hcut
    have hsize : (b.contents.resize n).size = n := Contents.size_resize _ n
    have hlength' : (b.contents.resize n).size < UInt64.size := by
      rw [hsize]
      exact Nat.lt_of_le_of_lt hn hlength
    obtain ⟨b', -, hread⟩ := @read_of_passing (b.withContents (b.contents.resize n)) hpass
      hreported hlength' f offset size
    have hanswer : verified (b.contents.resize n) offset.toNat size =
        .error (.incompleteValue (min (size + checksumSize) maxSize) (n - offset.toNat)) :=
      verified_eq_incompleteValue_iff.2 ⟨by rwa [hsize], rfl, by rw [hsize]⟩
    refine ⟨b', hread.trans ?_⟩
    rw [ByteStore.withContents, hanswer]
    rfl

/-- A value that comes byte by byte, a read beyond every end, and a record without its last
byte. -/
theorem read_answers_verified_split :
    let plan : List Outcome := [.atMost 1, .interrupted, .atMost 2]
    let contents := Contents.ofBytes (7 :: recordOf [10, 20])
    let b : ByteStore := { contents, plannedReads := plan }
    let f := opened 1 b
    (∀ o ∈ plan, o.Passing) ∧
      (∃ b', read 1 2 ⟨f, b⟩ = .ok [10, 20] ⟨f, b'⟩) ∧
      (∃ b', read 18446744073709551615 18446744073709551615 ⟨f, b⟩ =
        .error (.incompleteValue maxSize 0) ⟨f, b'⟩) ∧
      ∃ b', read 1 2 ⟨f, b.withContents (contents.resize 6)⟩ =
        .error (.incompleteValue 6 5) ⟨f, b'⟩ := by
  intro plan contents b f
  have hpass : ∀ o ∈ plan, o.Passing := by decide
  have hlength : contents.size < UInt64.size := by decide +kernel
  obtain ⟨⟨answer, b', hread, -, hok, -⟩, hcut⟩ :=
    @read_answers_verified b hpass rfl hlength f 1 2
  obtain ⟨⟨far, b'', hfar, -, -, hincomplete, -⟩, -⟩ :=
    @read_answers_verified b hpass rfl hlength f 18446744073709551615 18446744073709551615
  have hanswer := (hok [10, 20]).2 ⟨by decide +kernel, by decide +kernel, by decide +kernel⟩
  have hend := (hincomplete maxSize 0).2 ⟨by decide +kernel, by decide +kernel, by decide +kernel⟩
  exact ⟨hpass, ⟨b', by rw [hread, hanswer]; rfl⟩, ⟨b'', by rw [hfar, hend]; rfl⟩,
    hcut 6 (by decide +kernel) (by decide +kernel)⟩

end ValueFile

end AppendStore
