import AppendStore.Checksum
import AppendStore.Proofs.Bytes.Blend

/-!
# Bursts of damaged bytes

A step of the checksum's register is linear in exclusive or (`Crc.shiftByte_xor`) and
loses nothing (`Crc.shiftByte_injective`). So a difference between two registers is still
there after any number of further bytes (`Crc.steps_injective`).

Four bytes fill the register: taking in at most four bytes is the same as adding them to
the register at once (`Crc.shiftByte_addWord`). Therefore different bursts of up to four bytes
lead to different registers (`Crc.addWord_eq_of_steps_eq`), and two byte strings that differ
in such a burst alone have different checksums (`crc32_ne_of_burst`).
-/

namespace AppendStore

namespace Crc

theorem and_one_cases (a : UInt32) : a &&& 1 = 0 ∨ a &&& 1 = 1 := by
  have hlow : (a &&& 1).toNat = a.toNat % 2 := by
    rw [UInt32.toNat_and]
    exact Nat.and_one_is_mod a.toNat
  rcases Nat.mod_two_eq_zero_or_one a.toNat with h | h
  · exact .inl (UInt32.toNat_inj.1 (hlow.trans h))
  · exact .inr (UInt32.toNat_inj.1 (hlow.trans h))

theorem and_one_xor (a b : UInt32) : (a ^^^ b) &&& 1 = (a &&& 1) ^^^ (b &&& 1) := by
  apply UInt32.toBitVec_inj.1
  simp only [UInt32.toBitVec_and, UInt32.toBitVec_xor]
  ext i hi
  simp only [BitVec.getElem_and, BitVec.getElem_xor, Bool.and_xor_distrib_right]

theorem shiftBit_xor (a b : UInt32) : shiftBit (a ^^^ b) = shiftBit a ^^^ shiftBit b := by
  unfold shiftBit
  rw [and_one_xor, UInt32.shiftRight_xor]
  rcases and_one_cases a with ha | ha <;> rcases and_one_cases b with hb | hb <;> rw [ha, hb]
  · rfl
  · exact UInt32.xor_assoc _ _ _
  · change a >>> 1 ^^^ b >>> 1 ^^^ polynomial = (a >>> 1 ^^^ polynomial) ^^^ b >>> 1
    rw [UInt32.xor_assoc, UInt32.xor_comm (b >>> 1), ← UInt32.xor_assoc]
  · change a >>> 1 ^^^ b >>> 1 = (a >>> 1 ^^^ polynomial) ^^^ (b >>> 1 ^^^ polynomial)
    rw [UInt32.xor_comm (b >>> 1), UInt32.xor_assoc, ← UInt32.xor_assoc polynomial,
      UInt32.xor_self, UInt32.zero_xor]

theorem shiftByte_xor (a b : UInt32) : shiftByte (a ^^^ b) = shiftByte a ^^^ shiftByte b := by
  simp only [shiftByte, shiftBit_xor]

theorem shiftBit_double {n : Nat} (h : 2 * n < UInt32.size) :
    shiftBit (UInt32.ofNat (2 * n)) = UInt32.ofNat n := by
  have hn : n < UInt32.size := by omega
  have heven : UInt32.ofNat (2 * n) &&& 1 = 0 := by
    apply UInt32.toNat_inj.1
    rw [UInt32.toNat_and, UInt32.toNat_ofNat_of_lt' h]
    exact (Nat.and_one_is_mod _).trans (Nat.mul_mod_right 2 n)
  rw [shiftBit, if_pos heven]
  apply UInt32.toNat_inj.1
  rw [UInt32.toNat_shiftRight, UInt32.toNat_ofNat_of_lt' h, UInt32.toNat_ofNat_of_lt' hn]
  exact Nat.mul_div_cancel_left n Nat.two_pos

theorem shiftByte_mul {n : Nat} (h : 256 * n < UInt32.size) :
    shiftByte (UInt32.ofNat (256 * n)) = UInt32.ofNat n := by
  simp only [UInt32.size] at h
  have hsplit : 256 * n = 2 * (2 * (2 * (2 * (2 * (2 * (2 * (2 * n))))))) := by omega
  rw [hsplit, shiftByte, shiftBit_double, shiftBit_double, shiftBit_double, shiftBit_double,
    shiftBit_double, shiftBit_double, shiftBit_double, shiftBit_double]
  all_goals simp only [UInt32.size]; omega

/-- The polynomial reaches the top bit, which nothing else does after a step. -/
theorem eq_zero_of_shiftBit {a : UInt32} (h : shiftBit a = 0) : a = 0 := by
  have hhalf : (a >>> 1).toNat = a.toNat / 2 := by
    rw [UInt32.toNat_shiftRight]
    rfl
  have hlow : (a &&& 1).toNat = a.toNat % 2 := by
    rw [UInt32.toNat_and]
    exact Nat.and_one_is_mod a.toNat
  unfold shiftBit at h
  split at h
  · next heven =>
    rw [h] at hhalf
    rw [heven] at hlow
    apply UInt32.toNat_inj.1
    simp only [UInt32.toNat_zero] at hhalf hlow ⊢
    omega
  · have hpolynomial : a >>> 1 = polynomial := by
      rw [← UInt32.xor_left_inj polynomial, h, UInt32.xor_self]
    have hlt := a.toNat_lt
    rw [hpolynomial, polynomial] at hhalf
    simp only [UInt32.reduceToNat] at hhalf
    omega

theorem shiftByte_injective {a b : UInt32} (h : shiftByte a = shiftByte b) : a = b := by
  have hdiff : shiftByte (a ^^^ b) = 0 := by rw [shiftByte_xor, h, UInt32.xor_self]
  have hzero : a ^^^ b = 0 := eq_zero_of_shiftBit (eq_zero_of_shiftBit (eq_zero_of_shiftBit
    (eq_zero_of_shiftBit (eq_zero_of_shiftBit (eq_zero_of_shiftBit (eq_zero_of_shiftBit
      (eq_zero_of_shiftBit hdiff)))))))
  rw [← UInt32.xor_left_inj b, hzero, UInt32.xor_self]

theorem step_injective {r r' : UInt32} {b : UInt8} (h : step r b = step r' b) : r = r' :=
  (UInt32.xor_left_inj b.toUInt32).1 (shiftByte_injective h)

/-- Bytes that are taken in alike keep two registers apart. -/
theorem steps_injective {r r' : UInt32} {bs : Bytes} (h : steps r bs = steps r' bs) : r = r' := by
  induction bs generalizing r r' with
  | nil => exact h
  | cons b bs ih => exact step_injective (ih h)

/-- A register with bytes added to it, the first one to its lowest eight bits. -/
def addWord (register : UInt32) (bs : Bytes) : UInt32 :=
  register ^^^ UInt32.ofNat (beNat bs.reverse)

theorem xor_add_low {n b : Nat} (hb : b < 256) : 256 * n ^^^ b = 256 * n + b := by
  apply Nat.eq_of_testBit_eq
  intro i
  have hhigh := @Nat.testBit_two_pow_mul 8 n i
  have hsum := @Nat.testBit_two_pow_mul_add n b 8 hb i
  rw [Nat.testBit_xor]
  refine (congrArg (· ^^ b.testBit i) hhigh).trans (Eq.trans ?_ hsum.symm)
  by_cases hi : i < 8
  · simp [hi, Nat.not_le_of_lt hi]
  · have hzero : b.testBit i = false := Nat.testBit_lt_two_pow
      (Nat.lt_of_lt_of_le hb (Nat.pow_le_pow_right Nat.two_pos (Nat.le_of_not_lt hi)))
    simp [hi, hzero, Nat.le_of_not_lt hi]

/-- With three more bytes to come, it makes no difference that they are added beforehand. -/
theorem shiftByte_addWord (r : UInt32) (b : UInt8) {bs : Bytes} (h : bs.length ≤ 3) :
    shiftByte (addWord r (b :: bs)) = addWord (step r b) bs := by
  have hb : b.toNat < 256 := b.toNat_lt
  have hbound : 256 * beNat bs.reverse + 256 ≤ UInt32.size := by
    have hlt := beNat_lt bs.reverse
    have hmono : beRange bs.reverse.length ≤ beRange 3 := by
      rw [List.length_reverse]
      match bs.length, h with
      | 0, _ | 1, _ | 2, _ | 3, _ => decide
    have hrange : beRange 3 = 16777216 := rfl
    simp only [UInt32.size]
    omega
  have hword : UInt32.ofNat (beNat (b :: bs).reverse) =
      UInt32.ofNat (256 * beNat bs.reverse) ^^^ b.toUInt32 := by
    have hvalue : beNat (b :: bs).reverse = 256 * beNat bs.reverse + b.toNat := by
      rw [List.reverse_cons, beNat_append, beNat_cons, beNat_nil]
      simp [beRange]
    apply UInt32.toNat_inj.1
    rw [UInt32.toNat_xor, hvalue, UInt32.toNat_ofNat_of_lt' (by omega),
      UInt32.toNat_ofNat_of_lt' (by omega), UInt8.toNat_toUInt32, xor_add_low hb]
  rw [addWord, hword, UInt32.xor_comm _ b.toUInt32, ← UInt32.xor_assoc, shiftByte_xor,
    shiftByte_mul (by omega)]
  rfl

/-- At most four bytes that lead to the same register were the same altogether. -/
theorem addWord_eq_of_steps_eq {as bs : Bytes} (hlen : as.length = bs.length)
    (hshort : as.length ≤ 4) {r r' : UInt32} (h : steps r as = steps r' bs) :
    addWord r as = addWord r' bs := by
  induction as generalizing bs r r' with
  | nil =>
    cases List.eq_nil_of_length_eq_zero hlen.symm
    exact congrArg (addWord · []) h
  | cons a as ih =>
    cases bs with
    | nil => cases hlen
    | cons b bs =>
      have htail : as.length = bs.length := Nat.succ.inj hlen
      have hthree : as.length ≤ 3 := Nat.le_of_succ_le_succ hshort
      apply shiftByte_injective
      rw [shiftByte_addWord r a hthree, shiftByte_addWord r' b (htail ▸ hthree)]
      exact ih htail (Nat.le_succ_of_le hthree) h

theorem addWord_injective {as bs : Bytes} (hlen : as.length = bs.length) (hshort : as.length ≤ 4)
    {r : UInt32} (h : addWord r as = addWord r bs) : as = bs := by
  have hbound : ∀ {cs : Bytes}, cs.length ≤ 4 → beNat cs.reverse < UInt32.size := by
    intro cs hcs
    have hmono : beRange cs.length ≤ beRange 4 := by
      match cs.length, hcs with
      | 0, _ | 1, _ | 2, _ | 3, _ | 4, _ => decide
    have hlt := beNat_lt cs.reverse
    rw [List.length_reverse] at hlt
    exact Nat.lt_of_lt_of_le hlt hmono
  have hvalue := congrArg UInt32.toNat ((UInt32.xor_right_inj r).1 h)
  rw [UInt32.toNat_ofNat_of_lt' (hbound hshort),
    UInt32.toNat_ofNat_of_lt' (hbound (hlen ▸ hshort))] at hvalue
  apply List.reverse_inj.1
  exact eq_of_beNat_eq (by rw [List.length_reverse, List.length_reverse, hlen]) hvalue

end Crc

/-- Two byte strings that differ in a burst of at most four bytes have different checksums. -/
theorem crc32_ne_of_burst {as bs : Bytes} (hlen : as.length = bs.length) (hshort : as.length ≤ 4)
    (hne : as ≠ bs) (before behind : Bytes) :
    crc32 (before ++ as ++ behind) ≠ crc32 (before ++ bs ++ behind) := by
  intro h
  have hregister := UInt32.not_inj.1 h
  simp only [Crc.steps_append] at hregister
  have hburst := Crc.steps_injective hregister
  exact hne (Crc.addWord_injective hlen hshort (Crc.addWord_eq_of_steps_eq hlen hshort hburst))

end AppendStore
