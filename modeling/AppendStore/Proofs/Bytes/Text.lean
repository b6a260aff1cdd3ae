import AppendStore.Bytes.Hex
import AppendStore.Proofs.Bytes.Order
import AppendStore.Proofs.Disk.FileName

/-!
# The order of hexadecimal text

A text of characters of one byte each has these bytes in UTF-8 (`Bytes.ofText_ofList`).
The digits of a byte string are such characters, and they are in the order of their
values, so that hexadecimal texts are in the order of what they write
(`Bytes.compare_hex`).
-/

namespace ByteArray

theorem toList_loop (bs : ByteArray) (i : Nat) (before : List UInt8) :
    toList.loop bs i before = before.reverse ++ bs.data.toList.drop i := by
  fun_induction toList.loop bs i before with
  | case1 i before hi ih =>
    have hlength : i < bs.data.toList.length := by rwa [Array.length_toList]
    rw [ih, List.drop_eq_getElem_cons hlength]
    simp [ByteArray.get!, hi]
  | case2 i before hi =>
    rw [List.drop_eq_nil_of_le (by rw [Array.length_toList]; exact Nat.le_of_not_lt hi)]
    simp

theorem toList_toByteArray (bs : List UInt8) : bs.toByteArray.toList = bs := by
  rw [toList, toList_loop, List.reverse_nil, List.nil_append, List.drop_zero,
    List.data_toByteArray, List.toList_toArray]

end ByteArray

namespace AppendStore

namespace Bytes

/-- A text of characters of one byte each. -/
theorem ofText_ofList {cs : List Char} (h : ∀ c ∈ cs, c.utf8Size = 1) :
    ofText (String.ofList cs) = cs.map (·.val.toUInt8) := by
  have hencode : cs.flatMap String.utf8EncodeChar = cs.map (·.val.toUInt8) := by
    induction cs with
    | nil => rfl
    | cons c cs ih =>
      rw [List.flatMap_cons, String.utf8EncodeChar_eq_singleton (h c List.mem_cons_self),
        ih fun d hd => h d (List.mem_cons_of_mem c hd), List.map_cons, List.singleton_append]
  rw [ofText, String.toUTF8, String.toByteArray_ofList, List.utf8Encode,
    ByteArray.toList_toByteArray, hencode]

def digitByte (n : Nat) : UInt8 := (Nat.digitChar n).val.toUInt8

theorem compare_digitByte {m n : Nat} (hm : m < 16) (hn : n < 16) :
    compare (digitByte m) (digitByte n) = compare m n := by
  have hall : ∀ a b : Fin 16, compare (digitByte a.val) (digitByte b.val) =
      compare a.val b.val := by
    decide
  exact hall ⟨m, hm⟩ ⟨n, hn⟩

def digitBytes (b : UInt8) : Bytes := [digitByte (b.toNat / 16), digitByte (b.toNat % 16)]

theorem compare_digitBytes_append (a b : UInt8) (as bs : Bytes) :
    compare (digitBytes a ++ as) (digitBytes b ++ bs) = (compare a b).then (compare as bs) := by
  have ha : a.toNat < 256 := a.toNat_lt
  have hb : b.toNat < 256 := b.toNat_lt
  have hbyte : (compare (a.toNat / 16) (b.toNat / 16)).then
      (compare (a.toNat % 16) (b.toNat % 16)) = compare a b := by
    rw [← compare_mul_add (Nat.mod_lt _ (by decide)) (Nat.mod_lt _ (by decide)),
      Nat.div_add_mod, Nat.div_add_mod, UInt8.compare_toNat]
  simp only [digitBytes, List.cons_append, List.nil_append]
  rw [List.compare_cons_cons, List.compare_cons_cons, compare_digitByte (by omega) (by omega),
    compare_digitByte (by omega) (by omega), ← Ordering.then_assoc, hbyte]

theorem ofText_hex (bs : Bytes) : ofText bs.hex = bs.flatMap digitBytes := by
  rw [hex, ofText_ofList fun c hc => (isDigit_of_mem_hexChars hc).plain.1, hexChars,
    List.map_flatMap]
  rfl

/-- Hexadecimal texts are in the order of the byte strings that they write. -/
theorem compare_hex (as bs : Bytes) : compare (ofText as.hex) (ofText bs.hex) = compare as bs := by
  rw [ofText_hex, ofText_hex]
  induction as generalizing bs with
  | nil =>
    cases bs with
    | nil => rfl
    | cons b bs => rfl
  | cons a as ih =>
    cases bs with
    | nil => rfl
    | cons b bs =>
      rw [List.flatMap_cons, List.flatMap_cons, compare_digitBytes_append, ih,
        List.compare_cons_cons]

end Bytes

end AppendStore
