import AppendStore.Proofs.Bytes.Blend
import AppendStore.Proofs.Segment.Cursors

/-!
# The word on the store

The word of a segment is written after every append and on every sync, and each of
these writes may be torn. `Segment.StoredWord base current word` says what stands on
the store between a word `base` that was written in full and the present cursors
`current`: both halves are blends of the cursors between the two. So the front that
stands there is not before that of `base` and the back not behind it, and the front is
the start of a slot.
-/

namespace AppendStore

namespace Segment

/-- The bytes `word` on the store are a blend of the words from `base` to `current`. -/
structure StoredWord (base current : Cursors) (word : Bytes) : Prop where
  front_le : base.front.toNat ≤ current.front.toNat
  back_le : current.back.toNat ≤ base.back.toNat
  front : Blend base.front.beBytes current.front.beBytes (word.take 4)
  back : Blend base.back.beBytes current.back.beBytes (word.drop 4)
  front_stored : base.front.toNat ≤ beNat (word.take 4)
  back_stored : beNat (word.drop 4) ≤ base.back.toNat
  aligned : current.front.toNat % 16 = 8
  aligned_stored : beNat (word.take 4) % 16 = 8

theorem take_bytes (c : Cursors) : c.bytes.take 4 = c.front.beBytes := by
  rw [Cursors.bytes_eq, List.take_left' (UInt32.length_beBytes _)]

theorem drop_bytes (c : Cursors) : c.bytes.drop 4 = c.back.beBytes := by
  rw [Cursors.bytes_eq, List.drop_left' (UInt32.length_beBytes _)]

namespace StoredWord

variable {base current next : Cursors} {word : Bytes}

theorem length_eq (h : StoredWord base current word) : word.length = wordSize := by
  have hfront := h.front.length_stored
  have hback := h.back.length_stored
  rw [UInt32.length_beBytes, List.length_take] at hfront
  rw [UInt32.length_beBytes, List.length_drop] at hback
  simp only [wordSize]
  omega

theorem self {c : Cursors} (h : c.front.toNat % 16 = 8) : StoredWord c c c.bytes := by
  have hfront : beNat (c.bytes.take 4) = c.front.toNat := by
    rw [take_bytes, UInt32.beNat_beBytes]
  have hback : beNat (c.bytes.drop 4) = c.back.toNat := by
    rw [drop_bytes, UInt32.beNat_beBytes]
  exact
    { front_le := Nat.le_refl _
      back_le := Nat.le_refl _
      front := take_bytes c ▸ .self _
      back := drop_bytes c ▸ .self _
      front_stored := Nat.le_of_eq hfront.symm
      back_stored := Nat.le_of_eq hback
      aligned := h
      aligned_stored := hfront.symm ▸ h }

theorem claim (h : StoredWord base current word)
    (hfront : current.front.toNat ≤ next.front.toNat)
    (hback : next.back.toNat ≤ current.back.toNat) (haligned : next.front.toNat % 16 = 8) :
    StoredWord base next word := by
  have hlen : ∀ c d : UInt32, c.beBytes.length = d.beBytes.length := by
    intro c d
    rw [UInt32.length_beBytes, UInt32.length_beBytes]
  constructor
  case front_le => exact Nat.le_trans h.front_le hfront
  case back_le => exact Nat.le_trans hback h.back_le
  case front =>
    apply h.front.rise (hlen _ _) <;> simp only [UInt32.beNat_beBytes]
    · exact h.front_le
    · exact hfront
  case back =>
    apply h.back.fall (hlen _ _) <;> simp only [UInt32.beNat_beBytes]
    · exact h.back_le
    · exact hback
  case front_stored => exact h.front_stored
  case back_stored => exact h.back_stored
  case aligned => exact haligned
  case aligned_stored => exact h.aligned_stored

theorem overwrite (h : StoredWord base current word) (k : Nat) :
    StoredWord base current (overwrite k current.bytes word) := by
  have hlen : current.bytes.length = word.length := by
    rw [Cursors.length_bytes, h.length_eq]
  have htake := take_overwrite hlen k 4
  have hdrop := drop_overwrite hlen k 4
  rw [take_bytes] at htake
  rw [drop_bytes] at hdrop
  have hlow := h.front.le_overwrite (k := k)
  have hhigh := h.back.overwrite_le (k := k - 4)
  simp only [UInt32.beNat_beBytes] at hlow hhigh
  constructor
  case front_le => exact h.front_le
  case back_le => exact h.back_le
  case front =>
    rw [htake]
    exact h.front.overwrite k
  case back =>
    rw [hdrop]
    exact h.back.overwrite (k - 4)
  case front_stored =>
    rw [htake]
    exact hlow h.front_le h.front_stored
  case back_stored =>
    rw [hdrop]
    exact hhigh h.back_le h.back_stored
  case aligned => exact h.aligned
  case aligned_stored =>
    rw [htake]
    apply beNat_overwrite_mod
    · exact h.front.length_current.symm.trans h.front.length_stored
    · rw [UInt32.beNat_beBytes]
      exact h.aligned
    · exact h.aligned_stored

theorem front_le_ofBytes (h : StoredWord base current word) :
    base.front.toNat ≤ (Cursors.ofBytes word).front.toNat := by
  rw [Cursors.toNat_front_ofBytes h.length_eq]
  exact h.front_stored

theorem back_ofBytes_le (h : StoredWord base current word) :
    (Cursors.ofBytes word).back.toNat ≤ base.back.toNat := by
  rw [Cursors.toNat_back_ofBytes h.length_eq]
  exact h.back_stored

theorem aligned_ofBytes (h : StoredWord base current word) :
    (Cursors.ofBytes word).front.toNat % 16 = 8 := by
  rw [Cursors.toNat_front_ofBytes h.length_eq]
  exact h.aligned_stored

end StoredWord

end Segment

end AppendStore
