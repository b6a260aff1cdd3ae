import Std.Data.TreeMap

/-!
# Bytes kept in pages

`PagedBytes` has a byte at every position: pages of `pageSize` bytes in a search
tree, and zero where there is no page. A write makes the pages it touches anew
and reading looks up one page, so that neither takes longer after many writes,
and a gap of any length takes no room.

A page of zeros reads as no page at all. `ByteMap` forgets the difference: it is
given by its bytes alone (`ByteMap.ext`).
-/

namespace AppendStore

structure PagedBytes where
  pages : Std.TreeMap Nat (Array UInt8)

namespace PagedBytes

def pageSize : Nat := 64

def page (t : PagedBytes) (p : Nat) : Array UInt8 :=
  t.pages[p]?.getD #[]

def byte (t : PagedBytes) (i : Nat) : UInt8 :=
  (t.page (i / pageSize))[i % pageSize]?.getD 0

def empty : PagedBytes := ⟨∅⟩

@[simp] theorem byte_empty (i : Nat) : empty.byte i = 0 := by
  simp [byte, page, empty]

def mapPage (t : PagedBytes) (f : Nat → UInt8 → UInt8) (p : Nat) : Array UInt8 :=
  let old := t.page p
  Array.ofFn fun j : Fin pageSize => f (p * pageSize + j) (old[j.val]?.getD 0)

def mapPages (t : PagedBytes) (f : Nat → UInt8 → UInt8) (ps : List Nat) : PagedBytes :=
  ⟨ps.foldl (fun pages p => pages.insert p (t.mapPage f p)) t.pages⟩

theorem getElem?_foldl_insert (new : Nat → Array UInt8) (ps : List Nat)
    (pages : Std.TreeMap Nat (Array UInt8)) (q : Nat) :
    (ps.foldl (fun pages p => pages.insert p (new p)) pages)[q]? =
      if q ∈ ps then some (new q) else pages[q]? := by
  induction ps generalizing pages with
  | nil => simp
  | cons p ps ih =>
    rw [List.foldl_cons, ih, Std.TreeMap.getElem?_insert]
    by_cases hq : q ∈ ps
    · simp [hq]
    · by_cases hpq : p = q
      · simp [hpq]
      · simp [hq, hpq, Ne.symm hpq]

theorem byte_mapPages (t : PagedBytes) (f : Nat → UInt8 → UInt8) (ps : List Nat) (i : Nat) :
    (t.mapPages f ps).byte i = if i / pageSize ∈ ps then f i (t.byte i) else t.byte i := by
  have hpos : i % pageSize < pageSize := Nat.mod_lt i (by decide)
  have hsum : i / pageSize * pageSize + i % pageSize = i := by
    rw [Nat.mul_comm, Nat.div_add_mod]
  simp only [byte, page, mapPages, getElem?_foldl_insert]
  split
  · simp [mapPage, page, hpos, hsum]
  · rfl

def overlay (t : PagedBytes) (off : Nat) (a : Array UInt8) : PagedBytes :=
  let first := off / pageSize
  t.mapPages (fun i b => if i < off then b else a[i - off]?.getD b)
    (List.range' first ((off + a.size + (pageSize - 1)) / pageSize - first))

theorem byte_overlay (t : PagedBytes) (off : Nat) (a : Array UInt8) (i : Nat) :
    (t.overlay off a).byte i = if i < off then t.byte i else a[i - off]?.getD (t.byte i) := by
  rw [overlay, byte_mapPages]
  split
  · rfl
  · next hpage =>
    split
    · rfl
    · next hoff =>
      rw [Array.getElem?_eq_none, Option.getD_none]
      refine Nat.le_of_not_lt fun hlt => hpage (List.mem_range'_1.2 ?_)
      simp only [pageSize]
      omega

def truncate (t : PagedBytes) (size : Nat) : PagedBytes :=
  t.mapPages (fun i b => if i < size then b else 0) t.pages.keys

theorem byte_truncate (t : PagedBytes) (size i : Nat) :
    (t.truncate size).byte i = if i < size then t.byte i else 0 := by
  rw [truncate, byte_mapPages]
  split
  · rfl
  · next hpage =>
    rw [Std.TreeMap.mem_keys, Std.TreeMap.mem_iff_isSome_getElem?] at hpage
    simp [byte, page, Option.not_isSome_iff_eq_none.1 hpage]

instance sameBytes : Setoid PagedBytes where
  r t u := t.byte = u.byte
  iseqv := ⟨fun _ => rfl, fun h => h.symm, fun h k => h.trans k⟩

end PagedBytes

/-- A byte at every position. -/
def ByteMap : Type := Quotient PagedBytes.sameBytes

namespace ByteMap

def byte (m : ByteMap) (i : Nat) : UInt8 :=
  m.lift (fun t => t.byte i) fun _ _ h => congrFun h i

@[ext] theorem ext {m n : ByteMap} (h : ∀ i, m.byte i = n.byte i) : m = n := by
  induction m using Quotient.inductionOn
  induction n using Quotient.inductionOn
  exact Quotient.sound (funext h)

def empty : ByteMap := Quotient.mk _ .empty

@[simp] theorem byte_empty (i : Nat) : empty.byte i = 0 :=
  PagedBytes.byte_empty i

def overlay (m : ByteMap) (off : Nat) (a : Array UInt8) : ByteMap :=
  m.lift (fun t => Quotient.mk _ (t.overlay off a)) fun t u (h : t.byte = u.byte) =>
    Quotient.sound (funext fun i => by simp only [PagedBytes.byte_overlay, h])

theorem byte_overlay (m : ByteMap) (off : Nat) (a : Array UInt8) (i : Nat) :
    (m.overlay off a).byte i = if i < off then m.byte i else a[i - off]?.getD (m.byte i) := by
  induction m using Quotient.inductionOn with
  | h t => exact t.byte_overlay off a i

def truncate (m : ByteMap) (size : Nat) : ByteMap :=
  m.lift (fun t => Quotient.mk _ (t.truncate size)) fun t u (h : t.byte = u.byte) =>
    Quotient.sound (funext fun i => by simp only [PagedBytes.byte_truncate, h])

theorem byte_truncate (m : ByteMap) (size i : Nat) :
    (m.truncate size).byte i = if i < size then m.byte i else 0 := by
  induction m using Quotient.inductionOn with
  | h t => exact t.byte_truncate size i

end ByteMap

end AppendStore
