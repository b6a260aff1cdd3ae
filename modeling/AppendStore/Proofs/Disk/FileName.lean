import AppendStore.Disk.FileName

/-!
# Names of files

A name is read as the kind and the id that it was made from (`FileName.parse?_of`), so
different ids have different names. It is a plain name in every directory: eighteen
bytes, and nothing in it but digits (`FileName.isDigit_of_mem`).
-/

namespace AppendStore

theorem hexNat?_cons (c : Char) (cs : List Char) (n : Nat) :
    (c :: cs).foldlM (fun n c => (hexValue? c).map (16 * n + ·)) n =
      (hexValue? c).bind fun d => cs.foldlM (fun n c => (hexValue? c).map (16 * n + ·)) (16 * n + d) := by
  rw [List.foldlM_cons]
  cases hexValue? c <;> rfl

theorem hexNat?_hexChars (bs : Bytes) : hexNat? bs.hexChars = some (beNat bs) := by
  have hfrom : ∀ n, bs.hexChars.foldlM (fun n c => (hexValue? c).map (16 * n + ·)) n =
      some (bs.foldl (fun n b => 256 * n + b.toNat) n) := by
    induction bs with
    | nil => exact fun _ => rfl
    | cons b bs ih =>
      intro n
      have hb : b.toNat < 256 := b.toNat_lt
      have hhigh : hexValue? (Nat.digitChar (b.toNat / 16)) = some (b.toNat / 16) :=
        hexValue?_digitChar (by omega)
      have hlow : hexValue? (Nat.digitChar (b.toNat % 16)) = some (b.toNat % 16) :=
        hexValue?_digitChar (by omega)
      have hvalue : 16 * (16 * n + b.toNat / 16) + b.toNat % 16 = 256 * n + b.toNat := by omega
      rw [Bytes.hexChars_cons, hexPair, List.cons_append, List.singleton_append, hexNat?_cons, hhigh,
        Option.bind_some, hexNat?_cons, hlow, Option.bind_some, hvalue, ih]
      rfl
  exact hfrom 0

def IsDigit (c : Char) : Prop := ∃ n, n < 16 ∧ c = Nat.digitChar n

theorem isDigit_of_mem_hexChars {bs : Bytes} {c : Char} (h : c ∈ bs.hexChars) : IsDigit c := by
  rw [Bytes.hexChars, List.mem_flatMap] at h
  obtain ⟨b, -, hc⟩ := h
  have hb : b.toNat < 256 := b.toNat_lt
  rw [hexPair, List.mem_cons, List.mem_singleton] at hc
  rcases hc with rfl | rfl
  · exact ⟨_, by omega, rfl⟩
  · exact ⟨_, by omega, rfl⟩

theorem IsDigit.plain {c : Char} (h : IsDigit c) :
    c.utf8Size = 1 ∧ c ≠ '/' ∧ c ≠ '.' ∧ c ≠ '\x00' := by
  obtain ⟨n, hn, rfl⟩ := h
  have hall : ∀ m : Fin 16, (Nat.digitChar m.val).utf8Size = 1 ∧ Nat.digitChar m.val ≠ '/' ∧
      Nat.digitChar m.val ≠ '.' ∧ Nat.digitChar m.val ≠ '\x00' := by
    decide
  exact hall ⟨n, hn⟩

theorem utf8ByteSize_ofList {cs : List Char} (h : ∀ c ∈ cs, c.utf8Size = 1) :
    (String.ofList cs).utf8ByteSize = cs.length := by
  induction cs with
  | nil => rfl
  | cons c cs ih =>
    have hsplit : String.ofList (c :: cs) = String.ofList [c] ++ String.ofList cs := by
      rw [← String.ofList_append, List.singleton_append]
    have hfirst : (String.ofList [c]).utf8ByteSize = c.utf8Size := by
      rw [← String.singleton_eq_ofList, String.utf8ByteSize_singleton]
    rw [hsplit, String.utf8ByteSize_append, hfirst, h c List.mem_cons_self,
      ih fun d hd => h d (List.mem_cons_of_mem c hd), List.length_cons, Nat.add_comm]

namespace FileName

variable {kind : FileKind} {id : UInt64}

theorem toList_of (kind : FileKind) (id : UInt64) :
    (of kind id).toList = hexPair kind.tag ++ Bytes.hexChars id.beBytes := by
  rw [of, Bytes.hex, String.toList_ofList, Bytes.hexChars_cons]

theorem isDigit_of_mem {c : Char} (h : c ∈ (of kind id).toList) : IsDigit c := by
  rw [of, Bytes.hex, String.toList_ofList] at h
  exact isDigit_of_mem_hexChars h

theorem utf8ByteSize_of (kind : FileKind) (id : UInt64) : (of kind id).utf8ByteSize = length := by
  have hdigits : ∀ c ∈ Bytes.hexChars (kind.tag :: id.beBytes), c.utf8Size = 1 :=
    fun c hc => (isDigit_of_mem_hexChars hc).plain.1
  rw [of, Bytes.hex, utf8ByteSize_ofList hdigits, Bytes.length_hexChars, List.length_cons,
    UInt64.length_beBytes]
  rfl

/-- A name is read as what it was made from. -/
theorem parse?_of (kind : FileKind) (id : UInt64) : parse? (of kind id) = some (kind, id) := by
  have hdigits : (Bytes.hexChars id.beBytes).length = 16 := by
    rw [Bytes.length_hexChars, UInt64.length_beBytes]
  have htag : readTag? (Nat.digitChar (kind.tag.toNat / 16)) (Nat.digitChar (kind.tag.toNat % 16)) =
      some kind.tag.toNat := by
    cases kind <;> decide
  have hid : UInt64.ofNat (beNat id.beBytes) = id := UInt64.ofBeBytes_beBytes id
  rw [parse?, toList_of, hexPair, List.cons_append, List.singleton_append, readChars?,
    if_pos hdigits, htag, hexNat?_hexChars]
  simp only [bind, Option.bind_some, UInt8.ofNat_toNat, FileKind.ofTag?_tag, hid]
  rfl

theorem of_injective {a b : UInt64} (h : of kind a = of kind b) : a = b := by
  have hparse := parse?_of kind a
  rw [h, parse?_of] at hparse
  cases hparse
  rfl

end FileName

end AppendStore
