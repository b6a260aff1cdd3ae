import AppendStore.Bytes.Basic

/-!
# Big-endian numbers

`beBytes w n` writes `n` modulo `beRange w` in `w` bytes, the most significant
first, and `beNat` reads any byte string back. The two are inverse to each other
on numbers below `beRange w` and byte strings of length `w`.

The words of the on-disk formats are written through the instances at the end:
`UInt32.beBytes` and `UInt64.beBytes`.
-/

namespace AppendStore

def beRange : Nat → Nat
  | 0 => 1
  | w + 1 => beRange w * 256

@[simp] theorem beRange_zero : beRange 0 = 1 := rfl

theorem beRange_succ (w : Nat) : beRange (w + 1) = beRange w * 256 := rfl

theorem beRange_add (v w : Nat) : beRange (v + w) = beRange v * beRange w := by
  induction w with
  | zero => simp
  | succ w ih => rw [← Nat.add_assoc, beRange_succ, beRange_succ, ih, Nat.mul_assoc]

theorem beRange_pos (w : Nat) : 0 < beRange w := by
  induction w with
  | zero => exact Nat.one_pos
  | succ w ih => exact Nat.mul_pos ih (by decide)

/-- The `w` base-256 digits of `n`, most significant first. -/
def beBytes : Nat → Nat → Bytes
  | 0, _ => []
  | w + 1, n => UInt8.ofNat (n / beRange w) :: beBytes w n

/-- The number whose base-256 digits are given, most significant first. -/
def beNat (bs : Bytes) : Nat := bs.foldl (fun n b => 256 * n + b.toNat) 0

@[simp] theorem beBytes_zero (n : Nat) : beBytes 0 n = [] := rfl

theorem beBytes_succ (w n : Nat) :
    beBytes (w + 1) n = UInt8.ofNat (n / beRange w) :: beBytes w n := rfl

@[simp] theorem length_beBytes (w n : Nat) : (beBytes w n).length = w := by
  induction w with
  | zero => rfl
  | succ w ih => simp [beBytes_succ, ih]

@[simp] theorem beNat_nil : beNat [] = 0 := rfl

theorem foldl_be (bs : Bytes) (n : Nat) :
    bs.foldl (fun n b => 256 * n + b.toNat) n = beRange bs.length * n + beNat bs := by
  induction bs generalizing n with
  | nil => simp
  | cons b bs ih =>
    simp only [List.foldl_cons, List.length_cons, beNat]
    rw [ih, ih (256 * 0 + b.toNat), beRange_succ, Nat.mul_add, Nat.mul_assoc, Nat.mul_zero,
      Nat.zero_add, Nat.add_assoc]

theorem beNat_cons (b : UInt8) (bs : Bytes) :
    beNat (b :: bs) = beRange bs.length * b.toNat + beNat bs := by
  have h := foldl_be bs (256 * 0 + b.toNat)
  simpa [beNat] using h

theorem beNat_append (as bs : Bytes) :
    beNat (as ++ bs) = beRange bs.length * beNat as + beNat bs := by
  rw [beNat, List.foldl_append, foldl_be]
  rfl

theorem beNat_lt (bs : Bytes) : beNat bs < beRange bs.length := by
  induction bs with
  | nil => simp
  | cons b bs ih =>
    have hb : b.toNat + 1 ≤ 256 := b.toNat_lt
    have h : beRange bs.length * (b.toNat + 1) ≤ beRange bs.length * 256 :=
      Nat.mul_le_mul_left _ hb
    rw [beNat_cons, List.length_cons, beRange_succ]
    rw [Nat.mul_add] at h
    omega

/-- Reading back what was written gives the number modulo `beRange w`. -/
theorem beNat_beBytes (w n : Nat) : beNat (beBytes w n) = n % beRange w := by
  induction w with
  | zero => simp [Nat.mod_one]
  | succ w ih =>
    rw [beBytes_succ, beNat_cons, length_beBytes, ih, beRange_succ, Nat.mod_mul]
    rw [UInt8.toNat_ofNat', show 2 ^ 8 = 256 from rfl, Nat.add_comm]

theorem beNat_beBytes_of_lt {w n : Nat} (h : n < beRange w) : beNat (beBytes w n) = n := by
  rw [beNat_beBytes, Nat.mod_eq_of_lt h]

theorem beBytes_mod {w k : Nat} (h : w ≤ k) (n : Nat) :
    beBytes w (n % beRange k) = beBytes w n := by
  induction w with
  | zero => rfl
  | succ w ih =>
    have hk : beRange k = beRange w * (256 * beRange (k - (w + 1))) := by
      rw [← Nat.mul_assoc, ← beRange_succ, ← beRange_add]
      congr 1
      omega
    rw [beBytes_succ, beBytes_succ, ih (by omega)]
    congr 1
    apply UInt8.toNat_inj.1
    rw [UInt8.toNat_ofNat', UInt8.toNat_ofNat', hk, Nat.mod_mul_right_div_self,
      show 2 ^ 8 = 256 from rfl, Nat.mod_mul_right_mod]

theorem beBytes_beNat (bs : Bytes) : beBytes bs.length (beNat bs) = bs := by
  induction bs with
  | nil => rfl
  | cons b bs ih =>
    have hlt := beNat_lt bs
    have hpos : 0 < beRange bs.length := beRange_pos _
    rw [List.length_cons, beBytes_succ, beNat_cons]
    congr 1
    · rw [Nat.mul_add_div hpos, Nat.div_eq_of_lt hlt]
      apply UInt8.toNat_inj.1
      have := b.toNat_lt
      simp
    · rw [← beBytes_mod (Nat.le_refl bs.length), Nat.mul_add_mod, Nat.mod_eq_of_lt hlt, ih]

end AppendStore

namespace UInt32

def beBytes (n : UInt32) : AppendStore.Bytes := AppendStore.beBytes 4 n.toNat

def ofBeBytes (bs : AppendStore.Bytes) : UInt32 := UInt32.ofNat (AppendStore.beNat bs)

@[simp] theorem length_beBytes (n : UInt32) : n.beBytes.length = 4 :=
  AppendStore.length_beBytes 4 n.toNat

@[simp] theorem ofBeBytes_beBytes (n : UInt32) : ofBeBytes n.beBytes = n := by
  have h : n.toNat < AppendStore.beRange 4 := n.toNat_lt
  simp [ofBeBytes, beBytes, AppendStore.beNat_beBytes_of_lt h]

@[simp] theorem beNat_beBytes (n : UInt32) : AppendStore.beNat n.beBytes = n.toNat :=
  AppendStore.beNat_beBytes_of_lt n.toNat_lt

theorem toNat_ofBeBytes {bs : AppendStore.Bytes} (h : bs.length = 4) :
    (ofBeBytes bs).toNat = AppendStore.beNat bs := by
  have hlt : AppendStore.beNat bs < AppendStore.beRange 4 := h ▸ AppendStore.beNat_lt bs
  exact UInt32.toNat_ofNat_of_lt' hlt

theorem beBytes_ofBeBytes {bs : AppendStore.Bytes} (h : bs.length = 4) :
    (ofBeBytes bs).beBytes = bs := by
  rw [beBytes, toNat_ofBeBytes h, ← h, AppendStore.beBytes_beNat]

end UInt32

namespace UInt64

def beBytes (n : UInt64) : AppendStore.Bytes := AppendStore.beBytes 8 n.toNat

def ofBeBytes (bs : AppendStore.Bytes) : UInt64 := UInt64.ofNat (AppendStore.beNat bs)

@[simp] theorem length_beBytes (n : UInt64) : n.beBytes.length = 8 :=
  AppendStore.length_beBytes 8 n.toNat

@[simp] theorem ofBeBytes_beBytes (n : UInt64) : ofBeBytes n.beBytes = n := by
  have h : n.toNat < AppendStore.beRange 8 := n.toNat_lt
  simp [ofBeBytes, beBytes, AppendStore.beNat_beBytes_of_lt h]

theorem toNat_ofBeBytes {bs : AppendStore.Bytes} (h : bs.length = 8) :
    (ofBeBytes bs).toNat = AppendStore.beNat bs := by
  have hlt : AppendStore.beNat bs < AppendStore.beRange 8 := h ▸ AppendStore.beNat_lt bs
  exact UInt64.toNat_ofNat_of_lt' hlt

theorem beBytes_ofBeBytes {bs : AppendStore.Bytes} (h : bs.length = 8) :
    (ofBeBytes bs).beBytes = bs := by
  rw [beBytes, toNat_ofBeBytes h, ← h, AppendStore.beBytes_beNat]

end UInt64
