import AppendStore.Contents

/-!
# Windows on contents

`Contents.window off len` are the `len` bytes from `off` on, whether or not the
contents reach that far; where they do, the window is what is read there
(`Contents.read_eq_window`). A write shows in a window on its own place as far as it
has got (`Contents.window_write_take`) and in no window beside it
(`Contents.window_write_of_disjoint`).

`Contents.Shows off bs` says that `bs` stands in the contents from `off` on, and
`Contents.Begins` that other contents begin with these: a write behind the end leaves
all that was there, whatever becomes of it.
-/

namespace AppendStore

namespace Contents

/-- The `len` bytes from `off` on, zero beyond the size. -/
def window (c : Contents) (off len : Nat) : Bytes := (List.range' off len).map c.byte

@[simp] theorem length_window (c : Contents) (off len : Nat) :
    (c.window off len).length = len := by
  simp [window]

theorem getElem?_window (c : Contents) (off len i : Nat) :
    (c.window off len)[i]? = if i < len then some (c.byte (off + i)) else none := by
  simp only [window, List.getElem?_map]
  split
  · next h => rw [List.getElem?_range' h]; simp
  · next h => rw [List.getElem?_eq_none (by rw [List.length_range']; exact Nat.le_of_not_lt h)]; rfl

theorem window_congr {c d : Contents} {off len : Nat}
    (h : ∀ i, off ≤ i → i < off + len → c.byte i = d.byte i) :
    c.window off len = d.window off len := by
  apply List.ext_getElem?
  intro i
  rw [getElem?_window, getElem?_window]
  split
  · next hi => rw [h (off + i) (Nat.le_add_right off i) (Nat.add_lt_add_left hi off)]
  · rfl

theorem read_eq_window {c : Contents} {off len : Nat} (h : off + len ≤ c.size) :
    c.read off len = c.window off len := by
  have hmin : min len (c.size - off) = len := Nat.min_eq_left (by omega)
  rw [read, window, hmin]

theorem read_eq_read_length (c : Contents) (off len : Nat) :
    c.read off len = c.read off (c.read off len).length := by
  have hmin : min (min len (c.size - off)) (c.size - off) = min len (c.size - off) := by omega
  rw [length_read, read, read, hmin]

theorem read_add (c : Contents) {off n : Nat} (h : n ≤ c.size - off) (m : Nat) :
    c.read off (n + m) = c.read off n ++ c.read (off + n) m := by
  have hfirst : min n (c.size - off) = n := Nat.min_eq_left h
  have hboth : min (n + m) (c.size - off) = n + min m (c.size - (off + n)) := by omega
  rw [read, read, read, hfirst, hboth, ← List.map_append, List.range'_append_1]

theorem window_add (c : Contents) (off m n : Nat) :
    c.window off (m + n) = c.window off m ++ c.window (off + m) n := by
  rw [window, window, window, ← List.map_append, List.range'_append_1]

theorem take_window (c : Contents) {off len k : Nat} (h : k ≤ len) :
    (c.window off len).take k = c.window off k := by
  obtain ⟨n, rfl⟩ := Nat.exists_eq_add_of_le h
  rw [window_add, List.take_left' (length_window c off k)]

theorem drop_window (c : Contents) {off len k : Nat} (h : k ≤ len) :
    (c.window off len).drop k = c.window (off + k) (len - k) := by
  obtain ⟨n, rfl⟩ := Nat.exists_eq_add_of_le h
  rw [window_add, List.drop_left' (length_window c off k), Nat.add_sub_cancel_left]

theorem window_eq_zeros {c : Contents} {off : Nat} (h : c.size ≤ off) (len : Nat) :
    c.window off len = List.replicate len 0 := by
  apply List.ext_getElem?
  intro i
  rw [getElem?_window, List.getElem?_replicate, c.byte_eq_zero (off + i) (by omega)]

theorem window_extend (c : Contents) (size off len : Nat) :
    (c.extend size).window off len = c.window off len := by
  apply List.ext_getElem?
  intro i
  rw [getElem?_window, getElem?_window, byte_extend]

/-- A write shows in the window on its place as far as it has got. -/
theorem window_write_take (c : Contents) (off : Nat) (bs : Bytes) (k : Nat) :
    (c.write off (bs.take k)).window off bs.length =
      bs.take k ++ (c.window off bs.length).drop k := by
  apply List.ext_getElem?
  intro i
  rw [getElem?_window]
  by_cases hi : i < bs.length
  · rw [if_pos hi, byte_write, if_neg (by omega), Nat.add_sub_cancel_left]
    by_cases hk : i < k
    · rw [List.getElem?_append_left (by rw [List.length_take]; omega), List.getElem?_take_of_lt hk,
        List.getElem?_eq_getElem hi, Option.getD_some]
    · rw [List.getElem?_eq_none (by rw [List.length_take]; omega), Option.getD_none,
        List.getElem?_append_right (by rw [List.length_take]; omega), List.getElem?_drop,
        getElem?_window, List.length_take, Nat.min_eq_left (by omega),
        show k + (i - k) = i by omega, if_pos hi]
  · rw [if_neg hi, eq_comm, List.getElem?_eq_none]
    rw [List.length_append, List.length_take, List.length_drop, length_window]
    omega

theorem window_write (c : Contents) (off : Nat) (bs : Bytes) :
    (c.write off bs).window off bs.length = bs := by
  have h := window_write_take c off bs bs.length
  have hdrop : (c.window off bs.length).drop bs.length = [] :=
    List.drop_eq_nil_iff.2 (Nat.le_of_eq (length_window c off bs.length))
  rwa [List.take_length, hdrop, List.append_nil] at h

theorem byte_write_of_outside (c : Contents) {off i : Nat} {bs : Bytes}
    (h : i < off ∨ off + bs.length ≤ i) : (c.write off bs).byte i = c.byte i := by
  rw [byte_write]
  rcases h with h | h
  · rw [if_pos h]
  · rw [if_neg (by omega), List.getElem?_eq_none (by omega), Option.getD_none]

/-- A write shows in no window beside it. -/
theorem window_write_of_disjoint (c : Contents) {off len off' : Nat} {bs : Bytes}
    (h : off + len ≤ off' ∨ off' + bs.length ≤ off) :
    (c.write off' bs).window off len = c.window off len := by
  apply window_congr
  intro i hlow hhigh
  exact byte_write_of_outside c (by omega)

theorem size_le_size_write (c : Contents) (off : Nat) (bs : Bytes) :
    c.size ≤ (c.write off bs).size := by
  by_cases h : bs = []
  · exact Nat.le_of_eq (by rw [h, write_nil])
  · rw [size_write h]
    exact Nat.le_max_left _ _

theorem size_write_le {c : Contents} {off bound : Nat} {bs : Bytes} (hc : c.size ≤ bound)
    (hbs : off + bs.length ≤ bound) : (c.write off bs).size ≤ bound := by
  by_cases h : bs = []
  · rw [h, write_nil]
    exact hc
  · rw [size_write h]
    exact Nat.max_le.2 ⟨hc, hbs⟩

theorem write_extend_comm (c : Contents) (size off : Nat) (bs : Bytes) :
    (c.extend size).write off bs = (c.write off bs).extend size := by
  by_cases h : bs = []
  · rw [h, write_nil, write_nil]
  ext i
  · rw [size_write h, size_extend, size_extend, size_write h]
    omega
  · rw [byte_write, byte_extend, byte_extend, byte_write]

theorem extend_of_le {c : Contents} {size : Nat} (h : size ≤ c.size) : c.extend size = c :=
  ext (Nat.max_eq_left h) (byte_extend c size)

theorem resize_eq_extend {c : Contents} {size : Nat} (h : c.size ≤ size) :
    c.resize size = c.extend size := by
  apply ext
  · rw [size_resize, size_extend, Nat.max_eq_right h]
  · intro i
    rw [byte_resize, byte_extend]
    split
    · rfl
    · exact (c.byte_eq_zero i (by omega)).symm

theorem write_write_append (c : Contents) (off : Nat) (as bs : Bytes) :
    (c.write off as).write (off + as.length) bs = c.write off (as ++ bs) := by
  by_cases ha : as = []
  · rw [ha, write_nil, List.length_nil, Nat.add_zero, List.nil_append]
  by_cases hb : bs = []
  · rw [hb, write_nil, List.append_nil]
  have hab : as ++ bs ≠ [] := fun h => ha (List.append_eq_nil_iff.1 h).1
  ext i
  · rw [size_write hb, size_write ha, size_write hab, List.length_append]
    omega
  · rw [byte_write, byte_write, byte_write]
    by_cases hoff : i < off
    · rw [if_pos hoff, if_pos hoff, if_pos (by omega)]
    · rw [if_neg hoff, if_neg hoff]
      by_cases has : i < off + as.length
      · rw [if_pos has, List.getElem?_append_left (by omega)]
      · rw [if_neg has, List.getElem?_append_right (by omega),
          List.getElem?_eq_none (l := as) (by omega), Option.getD_none, Nat.sub_sub]

/-- The bytes `bs` stand in the contents from `off` on. -/
structure Shows (c : Contents) (off : Nat) (bs : Bytes) : Prop where
  size : off + bs.length ≤ c.size
  window : c.window off bs.length = bs

theorem shows_write (c : Contents) {off : Nat} {bs : Bytes} (h : bs ≠ []) :
    (c.write off bs).Shows off bs :=
  ⟨by rw [size_write h]; exact Nat.le_max_right _ _, window_write c off bs⟩

theorem shows_window {c : Contents} {off len : Nat} (h : off + len ≤ c.size) :
    c.Shows off (c.window off len) :=
  ⟨by rwa [length_window], by rw [length_window]⟩

namespace Shows

variable {c : Contents} {off : Nat} {bs : Bytes}

theorem write_eq (h : c.Shows off bs) : c.write off bs = c := by
  by_cases hbs : bs = []
  · rw [hbs, write_nil]
  ext i
  · rw [size_write hbs]
    exact Nat.max_eq_left h.size
  · rw [byte_write]
    by_cases hi : i < off
    · rw [if_pos hi]
    · rw [if_neg hi]
      have hread := getElem?_window c off bs.length (i - off)
      rw [h.window, Nat.add_sub_cancel' (Nat.le_of_not_lt hi)] at hread
      rw [hread]
      split <;> rfl

theorem take (h : c.Shows off bs) (k : Nat) : c.Shows off (bs.take k) := by
  have hlen : (bs.take k).length ≤ bs.length := by
    rw [List.length_take]
    exact Nat.min_le_right _ _
  refine ⟨Nat.le_trans (Nat.add_le_add_left hlen off) h.size, ?_⟩
  rw [← take_window c hlen, h.window, List.length_take, List.take_eq_take_iff]
  omega

theorem write_of_disjoint (h : c.Shows off bs) {off' : Nat} {more : Bytes}
    (hdisjoint : off + bs.length ≤ off' ∨ off' + more.length ≤ off) :
    (c.write off' more).Shows off bs :=
  ⟨Nat.le_trans h.size (size_le_size_write c off' more), by
    rw [window_write_of_disjoint c hdisjoint, h.window]⟩

theorem extend (h : c.Shows off bs) (size : Nat) : (c.extend size).Shows off bs :=
  ⟨Nat.le_trans h.size (Nat.le_max_left _ _), h.window⟩

end Shows

/-- The contents `d` begin with the contents `c`. -/
structure Begins (c d : Contents) : Prop where
  size : c.size ≤ d.size
  byte : ∀ i, i < c.size → d.byte i = c.byte i

namespace Begins

variable {c d e : Contents} {off : Nat} {bs : Bytes}

theorem refl (c : Contents) : c.Begins c := ⟨Nat.le_refl _, fun _ _ => rfl⟩

theorem trans (h : c.Begins d) (h' : d.Begins e) : c.Begins e where
  size := Nat.le_trans h.size h'.size
  byte := fun i hi => (h'.byte i (Nat.lt_of_lt_of_le hi h.size)).trans (h.byte i hi)

/-- What is written behind the end changes nothing before it. -/
theorem write (hoff : c.size ≤ off) (bs : Bytes) : c.Begins (c.write off bs) where
  size := size_le_size_write c off bs
  byte := fun i hi => by rw [byte_write, if_pos (Nat.lt_of_lt_of_le hi hoff)]

theorem shows_of_shows (h : c.Begins d) (hshows : c.Shows off bs) : d.Shows off bs := by
  refine ⟨Nat.le_trans hshows.size h.size, ?_⟩
  rw [← hshows.window, length_window]
  apply window_congr
  intro i _ hi
  exact h.byte i (Nat.lt_of_lt_of_le hi hshows.size)

end Begins

end Contents

end AppendStore
