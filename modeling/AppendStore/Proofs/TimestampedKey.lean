import AppendStore.Proofs.Bytes.Order
import AppendStore.TimestampedKey

/-!
# Versions of a key

The time of a timestamped key is its last eight bytes, so that every byte string that is
long enough is one key with one time (`TimestampedKey.of_key_timestamp`). In the order of
byte strings the versions of a key follow each other in time
(`TimestampedKey.compare_of_same`), and keys that differ within both are in their own order
whatever the times (`TimestampedKey.compare_of_not_prefix`).

The order says nothing of the kind if one key begins with the other: the bytes of a time
are then compared with bytes of the longer key.
-/

namespace AppendStore

namespace TimestampedKey

theorem compare_eq (k l : TimestampedKey) : compare k l = compare k.bytes l.bytes := rfl

/-- Versions of one key are in the order of their times. -/
theorem compare_of_same (key : Bytes) (s t : UInt64) :
    compare (of key s) (of key t) = compare s t := by
  rw [compare_eq, bytes_of, bytes_of, Bytes.compare_append_left, UInt64.compare_beBytes]

/-- Versions of keys of which neither begins with the other are in the order of the keys. -/
theorem compare_of_not_prefix {k l : Bytes} (h : ¬k <+: l) (h' : ¬l <+: k) (s t : UInt64) :
    compare (of k s) (of l t) = compare k l := by
  rw [compare_eq, bytes_of, bytes_of, Bytes.compare_append_of_not_prefix h h']

theorem of_key_timestamp (k : TimestampedKey) : of k.key k.timestamp = k := by
  have hlength := k.eight_le_length
  have htime : (k.bytes.drop (k.bytes.length - timestampSize)).length = 8 := by
    rw [List.length_drop, timestampSize, Nat.sub_sub_self hlength]
  ext1
  rw [bytes_of, key, timestamp, UInt64.beBytes_ofBeBytes htime, List.take_append_drop]

theorem ofBytes_of_le {bs : Bytes} (h : 8 ≤ bs.length) : ofBytes bs = .ok ⟨bs, h⟩ := dif_pos h

/-- A timestamped key is taken apart into what it was made of, versions of a key are in the order
of their times, versions of keys that differ within both are in the order of the keys, and every
byte string of eight bytes or more is the version of a key. -/
theorem orders_versions (k l : Bytes) (s t : UInt64) :
    (of k s).key = k ∧ (of k s).timestamp = s ∧
      compare (of k s) (of k t) = compare s t ∧
      (¬k <+: l → ¬l <+: k → compare (of k s) (of l t) = compare k l) ∧
      ∀ bs : Bytes, 8 ≤ bs.length →
        ∃ v, ofBytes bs = .ok v ∧ v.bytes = bs ∧ v = of v.key v.timestamp :=
  ⟨key_of k s, timestamp_of k s, compare_of_same k s t,
    fun h h' => compare_of_not_prefix h h' s t,
    fun bs h => ⟨⟨bs, h⟩, ofBytes_of_le h, rfl, (of_key_timestamp _).symm⟩⟩

/-- A later version of a smaller key still comes first. -/
theorem orders_versions_of_differing :
    ¬[1, 9] <+: ([2] : Bytes) ∧ ¬[2] <+: ([1, 9] : Bytes) ∧
      compare (of [1, 9] 300) (of [2] 7) = .lt ∧ compare (of [2] 7) (of [2] 300) = .lt := by
  have hleft : ¬[1, 9] <+: ([2] : Bytes) := by decide
  have hright : ¬[2] <+: ([1, 9] : Bytes) := by decide
  obtain ⟨-, -, -, hkeys, -⟩ := orders_versions [1, 9] [2] 300 7
  obtain ⟨-, -, htimes, -, -⟩ := orders_versions [2] [2] 7 300
  exact ⟨hleft, hright, (hkeys hleft hright).trans (by decide), htimes.trans (by decide)⟩

end TimestampedKey

end AppendStore
