import AppendStore.Proofs.Bytes.Text
import AppendStore.Proofs.Disk.Kinds

/-!
# Spelling of names

A name is written as eighteen lowercase digits, and names of one kind are in the order of
their ids (`FileName.names_in_order`).

More is read than is written. `FileName.Spells` says that a name consists of eighteen
digits of either case that write the tag of a kind and an id. All of these names are read,
and besides them those in which a plus sign stands for the first digit of the tag, and
there are no others (`FileName.parse?_eq_some_iff`).
-/

namespace AppendStore

def DigitOf (c : Char) (n : Nat) : Prop :=
  n < 16 ∧ (c = Nat.digitChar n ∨ c = (Nat.digitChar n).toUpper)

inductive Numeral : List Char → Nat → Prop
  | nil : Numeral [] 0
  | snoc {cs : List Char} {c : Char} {n d : Nat} (before : Numeral cs n) (digit : DigitOf c d) :
      Numeral (cs ++ [c]) (16 * n + d)

theorem toNat_lt_of_hexValue? {c : Char} {n : Nat} (h : hexValue? c = some n) :
    c.toNat < 128 := by
  unfold hexValue? at h
  have hbelow : ∀ {last : Char}, c ≤ last → last.toNat < 128 → c.toNat < 128 :=
    fun hle hlast => Nat.lt_of_le_of_lt hle hlast
  split at h
  · next hrange => exact hbelow hrange.2 (by decide)
  split at h
  · next hrange => exact hbelow hrange.2 (by decide)
  split at h
  · next hrange => exact hbelow hrange.2 (by decide)
  · cases h

theorem digitOf_of_hexValue? {c : Char} {n : Nat} (h : hexValue? c = some n) : DigitOf c n := by
  have hall : ∀ m : Fin 128, ∀ n ∈ hexValue? (Char.ofNat m.val), DigitOf (Char.ofNat m.val) n := by
    unfold DigitOf
    decide
  have hdigit := hall ⟨c.toNat, toNat_lt_of_hexValue? h⟩ n
  rw [Char.ofNat_toNat] at hdigit
  exact hdigit h

theorem DigitOf.hexValue?_eq {c : Char} {n : Nat} (h : DigitOf c n) : hexValue? c = some n := by
  have hupper : ∀ m : Fin 16, hexValue? (Nat.digitChar m.val).toUpper = some m.val := by decide
  obtain ⟨hn, rfl | rfl⟩ := h
  · exact hexValue?_digitChar hn
  · exact hupper ⟨n, hn⟩

theorem hexValue?_eq_some_iff {c : Char} {n : Nat} : hexValue? c = some n ↔ DigitOf c n :=
  ⟨digitOf_of_hexValue?, DigitOf.hexValue?_eq⟩

theorem Numeral.append {before cs : List Char} {m n : Nat} (hbefore : Numeral before m)
    (h : cs.foldlM (fun n c => (hexValue? c).map (16 * n + ·)) m = some n) :
    Numeral (before ++ cs) n := by
  induction cs generalizing before m with
  | nil =>
    cases h
    rwa [List.append_nil]
  | cons c cs ih =>
    rw [hexNat?_cons, Option.bind_eq_some_iff] at h
    obtain ⟨d, hdigit, hrest⟩ := h
    have hnext := ih (hbefore.snoc (hexValue?_eq_some_iff.1 hdigit)) hrest
    rwa [List.append_assoc, List.singleton_append] at hnext

theorem Numeral.hexNat?_eq {cs : List Char} {n : Nat} (h : Numeral cs n) :
    hexNat? cs = some n := by
  induction h with
  | nil => rfl
  | snoc _ hdigit ih =>
    rw [hexNat?] at ih ⊢
    rw [List.foldlM_append, ih]
    simp [hdigit.hexValue?_eq]

theorem hexNat?_eq_some_iff {cs : List Char} {n : Nat} : hexNat? cs = some n ↔ Numeral cs n :=
  ⟨fun h => Numeral.nil.append h, Numeral.hexNat?_eq⟩

theorem Numeral.lt_pow {cs : List Char} {n : Nat} (h : Numeral cs n) :
    n < Nat.pow 16 cs.length := by
  induction h with
  | nil => decide
  | @snoc cs c n d _ hdigit ih =>
    have hd : d < 16 := hdigit.1
    have hpow : Nat.pow 16 (cs ++ [c]).length = Nat.pow 16 cs.length * 16 := by
      rw [List.length_append, List.length_singleton]
      rfl
    omega

theorem IsDigit.lowercase {c : Char} (h : IsDigit c) :
    '0' ≤ c ∧ c ≤ '9' ∨ 'a' ≤ c ∧ c ≤ 'f' := by
  have hall : ∀ m : Fin 16, '0' ≤ Nat.digitChar m.val ∧ Nat.digitChar m.val ≤ '9' ∨
      'a' ≤ Nat.digitChar m.val ∧ Nat.digitChar m.val ≤ 'f' := by
    decide
  obtain ⟨n, hn, rfl⟩ := h
  exact hall ⟨n, hn⟩

namespace FileName

variable {name : String} {kind : FileKind} {id : UInt64}

/-- Eighteen digits: two that write the tag of a kind, and sixteen that write an id. -/
def Spells (name : String) (kind : FileKind) (id : UInt64) : Prop :=
  ∃ first second digits, name.toList = first :: second :: digits ∧ digits.length = 16 ∧
    Numeral [first, second] kind.tag.toNat ∧ Numeral digits id.toNat

/-- A plus sign, a digit that writes the tag of a kind, and sixteen that write an id. -/
def SpellsSigned (name : String) (kind : FileKind) (id : UInt64) : Prop :=
  ∃ second digits, name.toList = '+' :: second :: digits ∧ digits.length = 16 ∧
    Numeral [second] kind.tag.toNat ∧ Numeral digits id.toNat

theorem ofTag?_eq_some_iff {tag : UInt8} : FileKind.ofTag? tag = some kind ↔ tag = kind.tag := by
  constructor
  · intro h
    unfold FileKind.ofTag? at h
    split at h
    · cases h; assumption
    split at h
    · cases h; assumption
    split at h
    · cases h; assumption
    split at h
    · cases h; assumption
    · cases h
  · rintro rfl
    exact FileKind.ofTag?_tag kind

theorem readTag?_of_ne {first : Char} (h : first ≠ '+') (second : Char) :
    readTag? first second = hexNat? [first, second] := by
  rw [readTag?, if_neg h, hexNat?, hexNat?_cons]
  simp

theorem readTag?_plus (second : Char) : readTag? '+' second = hexNat? [second] := by
  rw [readTag?, if_pos rfl, hexNat?]
  simp

/-- The tag is read from two digits, or from one behind a plus sign. -/
theorem readTag?_eq_some_iff {first second : Char} {n : Nat} :
    readTag? first second = some n ↔
      Numeral [first, second] n ∨ first = '+' ∧ Numeral [second] n := by
  by_cases hplus : first = '+'
  · subst hplus
    have hsign : ¬Numeral ['+', second] n := fun h => by cases h.hexNat?_eq
    rw [readTag?_plus, hexNat?_eq_some_iff]
    exact ⟨fun h => .inr ⟨rfl, h⟩, fun h => (h.resolve_left hsign).2⟩
  · rw [readTag?_of_ne hplus, hexNat?_eq_some_iff]
    exact ⟨.inl, fun h => h.resolve_right fun hsigned => hplus hsigned.1⟩

theorem lt_of_readTag? {first second : Char} {n : Nat} (h : readTag? first second = some n) :
    n < UInt8.size := by
  rcases readTag?_eq_some_iff.1 h with htwo | ⟨-, hone⟩
  · exact htwo.lt_pow
  · have hsmall : Nat.pow 16 1 < UInt8.size := by decide
    exact Nat.lt_trans hone.lt_pow hsmall

theorem readChars?_eq_some_iff {first second : Char} {digits : List Char}
    (hlength : digits.length = 16) :
    readChars? (first :: second :: digits) = some (kind, id) ↔
      readTag? first second = some kind.tag.toNat ∧ Numeral digits id.toNat := by
  rw [readChars?, if_pos hlength]
  constructor
  · intro h
    simp only [bind, Option.bind_eq_some_iff] at h
    obtain ⟨tag, htag, found, hfound, n, hn, heq⟩ := h
    cases heq
    have hsize : n < UInt64.size := by
      have hpow := (hexNat?_eq_some_iff.1 hn).lt_pow
      rwa [hlength] at hpow
    rw [← ofTag?_eq_some_iff.1 hfound, UInt8.toNat_ofNat_of_lt' (lt_of_readTag? htag),
      UInt64.toNat_ofNat_of_lt' hsize]
    exact ⟨htag, hexNat?_eq_some_iff.1 hn⟩
  · rintro ⟨htag, hdigits⟩
    rw [htag, hdigits.hexNat?_eq]
    simp only [bind, Option.bind_some, UInt8.ofNat_toNat, FileKind.ofTag?_tag, UInt64.ofNat_toNat]
    rfl

/-- The names that are read are those that are spelled by digits, and those in which a plus sign
stands for the first digit of the tag. -/
theorem parse?_eq_some_iff :
    parse? name = some (kind, id) ↔ Spells name kind id ∨ SpellsSigned name kind id := by
  rw [parse?]
  constructor
  · intro h
    rcases hchars : name.toList with - | ⟨first, - | ⟨second, digits⟩⟩
    · rw [hchars] at h
      cases h
    · rw [hchars] at h
      cases h
    by_cases hlength : digits.length = 16
    · rw [hchars, readChars?_eq_some_iff hlength, readTag?_eq_some_iff] at h
      rcases h with ⟨htwo | ⟨rfl, hone⟩, hdigits⟩
      · exact .inl ⟨first, second, digits, hchars, hlength, htwo, hdigits⟩
      · exact .inr ⟨second, digits, hchars, hlength, hone, hdigits⟩
    · rw [hchars, readChars?, if_neg hlength] at h
      cases h
  · rintro (⟨first, second, digits, hchars, hlength, htwo, hdigits⟩ |
      ⟨second, digits, hchars, hlength, hone, hdigits⟩)
    · rw [hchars, readChars?_eq_some_iff hlength, readTag?_eq_some_iff]
      exact ⟨.inl htwo, hdigits⟩
    · rw [hchars, readChars?_eq_some_iff hlength, readTag?_eq_some_iff]
      exact ⟨.inr ⟨rfl, hone⟩, hdigits⟩

/-- A name with a sign is read, which no digits spell. -/
theorem reads_signed_name :
    parse? "+10000000000000005" = some (.log, 5) ∧
      ¬∃ kind id, Spells "+10000000000000005" kind id := by
  refine ⟨by decide, ?_⟩
  rintro ⟨kind, id, first, second, digits, hchars, -, htwo, -⟩
  have hfirst : first = '+' := (List.cons.inj hchars).1.symm
  subst hfirst
  cases htwo.hexNat?_eq

theorem length_toList_of (kind : FileKind) (id : UInt64) : (of kind id).toList.length = length := by
  rw [of, Bytes.hex, String.toList_ofList, Bytes.length_hexChars, List.length_cons,
    UInt64.length_beBytes]
  rfl

theorem compare_of (kind : FileKind) (a b : UInt64) :
    compare (Bytes.ofText (of kind a)) (Bytes.ofText (of kind b)) = compare a b := by
  rw [of, of, Bytes.compare_hex, List.compare_cons_cons, UInt8.compare_self, Ordering.eq_then,
    UInt64.compare_beBytes]

/-- Every name consists of eighteen lowercase digits and is read as what it was made from, no two
are the same, and those of one kind are in the order of their ids. -/
theorem names_in_order :
    (∀ kind id, (of kind id).toList.length = 18 ∧
      (∀ c ∈ (of kind id).toList, '0' ≤ c ∧ c ≤ '9' ∨ 'a' ≤ c ∧ c ≤ 'f') ∧
      parse? (of kind id) = some (kind, id)) ∧
    (∀ kind other a b, of kind a = of other b → kind = other ∧ a = b) ∧
    ∀ kind a b, compare (Bytes.ofText (of kind a)) (Bytes.ofText (of kind b)) = compare a b := by
  refine ⟨fun kind id => ⟨length_toList_of kind id, fun c hc => (isDigit_of_mem hc).lowercase,
    parse?_of kind id⟩, fun kind other a b h => ?_, compare_of⟩
  obtain rfl := kind_eq h
  exact ⟨rfl, of_injective h⟩

end FileName

end AppendStore
