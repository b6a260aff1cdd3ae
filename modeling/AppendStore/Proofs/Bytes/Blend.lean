import AppendStore.Bytes.BigEndian

/-!
# Numbers that were overwritten in part

A number in a file is overwritten again and again, each time from its first byte on
but perhaps not to its last. What stands there then is a blend of the numbers that
were written, and can be a number that never was.

While the numbers only rise, no blend falls below the first of them, and while they
only fall none rises above it: `Blend.le_overwrite`, `Blend.overwrite_le`. What makes
that true is kept by `Blend`: a start that the first number and the present one have
in common stands in the blend too.
-/

namespace AppendStore

theorem beNat_take_add_drop (bs : Bytes) (k : Nat) :
    beNat bs = beRange (bs.length - k) * beNat (bs.take k) + beNat (bs.drop k) := by
  have hsplit := beNat_append (bs.take k) (bs.drop k)
  rwa [List.take_append_drop, List.length_drop] at hsplit

variable {xs ys zs : Bytes}

theorem eq_of_beNat_eq (hlen : xs.length = ys.length) (h : beNat xs = beNat ys) : xs = ys := by
  rw [← beBytes_beNat xs, ← beBytes_beNat ys, hlen, h]

/-- The order of two numbers is decided at the first place where they differ. -/
theorem beNat_lt_of_take_lt (hlen : xs.length = ys.length) {k : Nat}
    (h : beNat (xs.take k) < beNat (ys.take k)) : beNat xs < beNat ys := by
  have hx := beNat_take_add_drop xs k
  have hy := beNat_take_add_drop ys k
  have hlt := beNat_lt (xs.drop k)
  rw [List.length_drop] at hlt
  have hmul : beRange (xs.length - k) * (beNat (xs.take k) + 1) ≤
      beRange (xs.length - k) * beNat (ys.take k) := Nat.mul_le_mul_left _ h
  rw [Nat.mul_add, Nat.mul_one] at hmul
  rw [← hlen] at hy
  omega

theorem beNat_take_le (hlen : xs.length = ys.length) (h : beNat xs ≤ beNat ys) (k : Nat) :
    beNat (xs.take k) ≤ beNat (ys.take k) := by
  apply Nat.le_of_not_lt
  intro hlt
  exact absurd h (Nat.not_le_of_lt (beNat_lt_of_take_lt hlen.symm hlt))

/-- What two numbers have in common at their start, every number between them has too. -/
theorem take_eq_of_between (hxy : xs.length = ys.length) (hyz : ys.length = zs.length)
    (hle : beNat xs ≤ beNat ys) (hle' : beNat ys ≤ beNat zs) {k : Nat}
    (h : xs.take k = zs.take k) : ys.take k = xs.take k := by
  have hlow := beNat_take_le hxy hle k
  have hhigh := beNat_take_le hyz hle' k
  rw [← h] at hhigh
  apply eq_of_beNat_eq
  · rw [List.length_take, List.length_take, hxy]
  · exact Nat.le_antisymm hhigh hlow

/-- The byte string `old` with its first `k` bytes replaced by those of `new`. -/
def overwrite (k : Nat) (new old : Bytes) : Bytes := new.take k ++ old.drop k

@[simp] theorem length_overwrite (hlen : xs.length = ys.length) (k : Nat) :
    (overwrite k xs ys).length = xs.length := by
  rw [overwrite, List.length_append, List.length_take, List.length_drop]
  omega

theorem overwrite_self (k : Nat) (bs : Bytes) : overwrite k bs bs = bs :=
  List.take_append_drop k bs

theorem overwrite_of_le {k : Nat} (hlen : xs.length = ys.length) (h : ys.length ≤ k) :
    overwrite k xs ys = xs := by
  rw [overwrite, List.drop_eq_nil_of_le h, List.append_nil, List.take_of_length_le (hlen ▸ h)]

theorem take_overwrite (hlen : xs.length = ys.length) (k j : Nat) :
    (overwrite k xs ys).take j = overwrite k (xs.take j) (ys.take j) := by
  have hdrop : (ys.drop k).take (j - min k xs.length) = (ys.take j).drop k := by
    rw [List.drop_take]
    rcases Nat.le_total k xs.length with h | h
    · rw [Nat.min_eq_left h]
    · rw [List.drop_eq_nil_of_le (hlen ▸ h), List.take_nil, List.take_nil]
  rw [overwrite, overwrite, List.take_append, List.length_take, hdrop, List.take_take,
    List.take_take, Nat.min_comm]

theorem drop_overwrite (hlen : xs.length = ys.length) (k j : Nat) :
    (overwrite k xs ys).drop j = overwrite (k - j) (xs.drop j) (ys.drop j) := by
  have hdrop : (ys.drop k).drop (j - min k xs.length) = (ys.drop j).drop (k - j) := by
    rw [List.drop_drop, List.drop_drop]
    rcases Nat.le_total k xs.length with h | h
    · rw [Nat.min_eq_left h, show k + (j - k) = j + (k - j) by omega]
    · rw [List.drop_eq_nil_of_le (by omega), List.drop_eq_nil_of_le (by omega)]
  rw [overwrite, overwrite, List.drop_append, List.length_take, hdrop, List.drop_take]

/-- The last byte decides a number modulo sixteen, and it is the last byte of one of the two. -/
theorem beNat_overwrite_mod (hlen : xs.length = ys.length) {r : Nat} (hx : beNat xs % 16 = r)
    (hy : beNat ys % 16 = r) (k : Nat) : beNat (overwrite k xs ys) % 16 = r := by
  rcases Nat.lt_or_ge k ys.length with h | h
  · obtain ⟨n, hn⟩ := Nat.exists_eq_add_of_lt h
    have hlast : (ys.drop k).length = n + 1 := by rw [List.length_drop]; omega
    have hold := beNat_take_add_drop ys k
    have hnew := beNat_append (xs.take k) (ys.drop k)
    rw [← List.length_drop, hlast, beRange_succ, Nat.mul_assoc, Nat.mul_left_comm] at hold
    rw [hlast, beRange_succ, Nat.mul_assoc, Nat.mul_left_comm] at hnew
    rw [overwrite]
    omega
  · rw [overwrite_of_le hlen h]
    exact hx

theorem beNat_zeros (n : Nat) : beNat (List.replicate n 0) = 0 := by
  induction n with
  | zero => rfl
  | succ n ih =>
    rw [List.replicate_succ, beNat_cons, ih]
    rfl

/-- A number that was begun where zeros stood is not above the number. -/
theorem beNat_overwrite_zeros_le (bs : Bytes) (k : Nat) :
    beNat (overwrite k bs (List.replicate bs.length 0)) ≤ beNat bs := by
  have hnew := beNat_append (bs.take k) (List.replicate (bs.length - k) 0)
  have hold := beNat_take_add_drop bs k
  rw [List.length_replicate, beNat_zeros] at hnew
  rw [overwrite, List.drop_replicate]
  omega

/-- `stored` is a blend of numbers from `base` to `current`. -/
structure Blend (base current stored : Bytes) : Prop where
  length_current : base.length = current.length
  length_stored : base.length = stored.length
  shared : ∀ k, base.take k = current.take k → stored.take k = base.take k

namespace Blend

variable {base current next stored : Bytes}

theorem self (bs : Bytes) : Blend bs bs bs := ⟨rfl, rfl, fun _ _ => rfl⟩

theorem rise (h : Blend base current stored) (hlen : current.length = next.length)
    (hle : beNat base ≤ beNat current) (hle' : beNat current ≤ beNat next) :
    Blend base next stored := by
  refine ⟨h.length_current.trans hlen, h.length_stored, ?_⟩
  intro k hk
  have hcurrent := take_eq_of_between h.length_current hlen hle hle' hk
  exact h.shared k hcurrent.symm

theorem fall (h : Blend base current stored) (hlen : current.length = next.length)
    (hle : beNat current ≤ beNat base) (hle' : beNat next ≤ beNat current) :
    Blend base next stored := by
  refine ⟨h.length_current.trans hlen, h.length_stored, ?_⟩
  intro k hk
  have hcurrent := take_eq_of_between hlen.symm h.length_current.symm hle' hle hk.symm
  exact h.shared k (hk.trans hcurrent.symm)

theorem overwrite (h : Blend base current stored) (k : Nat) :
    Blend base current (overwrite k current stored) := by
  have hlen : current.length = stored.length := h.length_current.symm.trans h.length_stored
  refine ⟨h.length_current, ?_, ?_⟩
  · rw [length_overwrite hlen, h.length_current]
  · intro j hj
    rw [take_overwrite hlen, ← hj, h.shared j hj, overwrite_self]

/-- A start of the present number that differs from the first one decides; otherwise nothing has
changed. -/
theorem overwrite_cases (h : Blend base current stored) (k : Nat) :
    AppendStore.overwrite k current stored = stored ∨
      beNat (base.take k) ≠ beNat (current.take k) := by
  by_cases heq : base.take k = current.take k
  · left
    rw [AppendStore.overwrite, ← heq, ← h.shared k heq, List.take_append_drop]
  · right
    intro hnat
    exact heq (eq_of_beNat_eq (by rw [List.length_take, List.length_take, h.length_current]) hnat)

theorem take_overwrite_self (h : Blend base current stored) (k : Nat) :
    (AppendStore.overwrite k current stored).take k = current.take k := by
  have hlen : current.length = stored.length := h.length_current.symm.trans h.length_stored
  rw [take_overwrite hlen, AppendStore.overwrite, List.drop_eq_nil_of_le (List.length_take_le _ _),
    List.append_nil, List.take_take, Nat.min_self]

/-- No blend of rising numbers is below the first of them. -/
theorem le_overwrite (h : Blend base current stored) (hle : beNat base ≤ beNat current)
    (hstored : beNat base ≤ beNat stored) (k : Nat) :
    beNat base ≤ beNat (AppendStore.overwrite k current stored) := by
  rcases h.overwrite_cases k with heq | hne
  · rw [heq]
    exact hstored
  · have htake := beNat_take_le h.length_current hle k
    apply Nat.le_of_lt
    apply beNat_lt_of_take_lt (k := k) (h.overwrite k).length_stored
    rw [h.take_overwrite_self]
    exact Nat.lt_of_le_of_ne htake hne

/-- No blend of falling numbers is above the first of them. -/
theorem overwrite_le (h : Blend base current stored) (hle : beNat current ≤ beNat base)
    (hstored : beNat stored ≤ beNat base) (k : Nat) :
    beNat (AppendStore.overwrite k current stored) ≤ beNat base := by
  rcases h.overwrite_cases k with heq | hne
  · rw [heq]
    exact hstored
  · have htake := beNat_take_le h.length_current.symm hle k
    apply Nat.le_of_lt
    apply beNat_lt_of_take_lt (k := k) (h.overwrite k).length_stored.symm
    rw [h.take_overwrite_self]
    exact Nat.lt_of_le_of_ne htake (Ne.symm hne)

end Blend

end AppendStore
