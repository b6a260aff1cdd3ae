import AppendStore.Bytes.BigEndian

/-!
# The order of byte strings

Byte strings are compared at their first difference, and a shorter one comes before its
extensions. What two of them begin with in common says nothing
(`Bytes.compare_append_left`), and neither does what follows a difference
(`Bytes.compare_append_of_not_prefix`).

Numbers that are written in equally many bytes are in the order of these bytes, the most
significant being the first (`Bytes.compare_beNat`, `UInt64.compare_beBytes`).
-/

namespace UInt8

theorem compare_toNat (a b : UInt8) : compare a.toNat b.toNat = compare a b := by
  change compareOfLessAndEq a.toNat b.toNat = compareOfLessAndEq a b
  simp only [compareOfLessAndEq, UInt8.lt_iff_toNat_lt, UInt8.toNat_inj]

theorem compare_self (a : UInt8) : compare a a = .eq := by
  rw [← compare_toNat, Nat.compare_eq_eq]

theorem compare_ne_eq {a b : UInt8} (h : a ≠ b) : compare a b ≠ .eq := by
  rw [← compare_toNat, Ne, Nat.compare_eq_eq, UInt8.toNat_inj]
  exact h

end UInt8

namespace AppendStore

theorem compare_mul_add {w r s : Nat} (hr : r < w) (hs : s < w) (a b : Nat) :
    compare (w * a + r) (w * b + s) = (compare a b).then (compare r s) := by
  have hstep : ∀ {m n : Nat}, m < n → w * m + w ≤ w * n := fun hlt =>
    Nat.mul_succ w _ ▸ Nat.mul_le_mul_left w hlt
  rcases Nat.lt_trichotomy a b with hlt | rfl | hgt
  · have := hstep hlt
    rw [Nat.compare_eq_lt.2 hlt, Ordering.lt_then, Nat.compare_eq_lt]
    omega
  · rw [Nat.compare_eq_eq.2 rfl, Ordering.eq_then]
    change compareOfLessAndEq (w * a + r) (w * a + s) = compareOfLessAndEq r s
    simp only [compareOfLessAndEq, Nat.add_lt_add_iff_left, Nat.add_left_cancel_iff]
  · have := hstep hgt
    rw [Nat.compare_eq_gt.2 hgt, Ordering.gt_then, Nat.compare_eq_gt]
    omega

namespace Bytes

variable {as bs : Bytes}

theorem compare_append_left (as bs cs : Bytes) :
    compare (as ++ bs) (as ++ cs) = compare bs cs := by
  induction as with
  | nil => rfl
  | cons a as ih =>
    rw [List.cons_append, List.cons_append, List.compare_cons_cons, UInt8.compare_self,
      Ordering.eq_then, ih]

/-- Byte strings of which neither begins with the other compare alike whatever follows them. -/
theorem compare_append_of_not_prefix (h : ¬as <+: bs) (h' : ¬bs <+: as) (cs ds : Bytes) :
    compare (as ++ cs) (bs ++ ds) = compare as bs := by
  induction as generalizing bs with
  | nil => exact absurd List.nil_prefix h
  | cons a as ih =>
    cases bs with
    | nil => exact absurd List.nil_prefix h'
    | cons b bs =>
      rw [List.cons_append, List.cons_append, List.compare_cons_cons, List.compare_cons_cons]
      by_cases hsame : a = b
      · rw [ih (fun hp => h (List.cons_prefix_cons.2 ⟨hsame, hp⟩))
          fun hp => h' (List.cons_prefix_cons.2 ⟨hsame.symm, hp⟩)]
      · have hne := UInt8.compare_ne_eq hsame
        cases hcompare : compare a b with
        | lt => rfl
        | eq => exact absurd hcompare hne
        | gt => rfl

/-- Byte strings of one length are in the order of the numbers that they write. -/
theorem compare_beNat (h : as.length = bs.length) :
    compare (beNat as) (beNat bs) = compare as bs := by
  induction as generalizing bs with
  | nil =>
    cases bs with
    | nil => rfl
    | cons b bs => cases h
  | cons a as ih =>
    cases bs with
    | nil => cases h
    | cons b bs =>
      have hlength : as.length = bs.length := Nat.succ.inj h
      rw [beNat_cons, beNat_cons, hlength, compare_mul_add (hlength ▸ beNat_lt as) (beNat_lt bs),
        UInt8.compare_toNat, ih hlength, List.compare_cons_cons]

end Bytes

end AppendStore

namespace UInt64

@[simp] theorem beNat_beBytes (n : UInt64) : AppendStore.beNat n.beBytes = n.toNat :=
  AppendStore.beNat_beBytes_of_lt n.toNat_lt

/-- Words are in the order of their bytes. -/
theorem compare_beBytes (a b : UInt64) : compare a.beBytes b.beBytes = compare a b := by
  have hlength : a.beBytes.length = b.beBytes.length := by rw [length_beBytes, length_beBytes]
  rw [← AppendStore.Bytes.compare_beNat hlength, beNat_beBytes, beNat_beBytes]
  change compareOfLessAndEq a.toNat b.toNat = compareOfLessAndEq a b
  simp only [compareOfLessAndEq, UInt64.lt_iff_toNat_lt, UInt64.toNat_inj]

end UInt64
