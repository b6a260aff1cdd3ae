import AppendStore.Bytes.BigEndian

/-!
# Hexadecimal text

`Bytes.hex` writes each byte as two lowercase digits. Reading accepts digits of
either case: `hexNat?` reads a number of any width and `Bytes.ofHex?` a byte
string, both refusing whatever is not a digit.
-/

namespace AppendStore

def hexValue? (c : Char) : Option Nat :=
  if '0' ≤ c ∧ c ≤ '9' then some (c.toNat - '0'.toNat)
  else if 'a' ≤ c ∧ c ≤ 'f' then some (c.toNat - 'a'.toNat + 10)
  else if 'A' ≤ c ∧ c ≤ 'F' then some (c.toNat - 'A'.toNat + 10)
  else none

theorem hexValue?_digitChar {n : Nat} (h : n < 16) : hexValue? (Nat.digitChar n) = some n := by
  have key : ∀ m : Fin 16, hexValue? (Nat.digitChar m.val) = some m.val := by decide
  exact key ⟨n, h⟩

/-- The number written by a list of digits, most significant first; the empty list is `0`. -/
def hexNat? (cs : List Char) : Option Nat :=
  cs.foldlM (fun n c => (hexValue? c).map (16 * n + ·)) 0

@[simp] theorem hexNat?_nil : hexNat? [] = some 0 := rfl

def hexPair (b : UInt8) : List Char := [Nat.digitChar (b.toNat / 16), Nat.digitChar (b.toNat % 16)]

namespace Bytes

def hexChars (bs : Bytes) : List Char := bs.flatMap hexPair

@[simp] theorem hexChars_nil : hexChars [] = [] := rfl

theorem hexChars_cons (b : UInt8) (bs : Bytes) : hexChars (b :: bs) = hexPair b ++ hexChars bs :=
  rfl

theorem length_hexChars (bs : Bytes) : (hexChars bs).length = 2 * bs.length := by
  induction bs with
  | nil => rfl
  | cons b bs ih => simp [hexChars_cons, hexPair, ih]; omega

def hex (bs : Bytes) : String := String.ofList bs.hexChars

def ofHexOnto (before : Bytes) : List Char → Option Bytes
  | [] => some before.reverse
  | [_] => none
  | c :: d :: rest =>
    match hexValue? c, hexValue? d with
    | some h, some l => ofHexOnto (UInt8.ofNat (16 * h + l) :: before) rest
    | _, _ => none

def ofHex? (cs : List Char) : Option Bytes := ofHexOnto [] cs

end Bytes

end AppendStore
