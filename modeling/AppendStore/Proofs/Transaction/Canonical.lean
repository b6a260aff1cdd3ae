import AppendStore.Proofs.Transaction.Codec

/-!
# Transactions and their written forms

`Transaction.WithinLimits` says in numbers which transactions the format has room for.
Writing and reading go back and forth between these transactions and the byte strings
that are accepted. `Transaction.encode_invertible` starts from a transaction: it is
written just if it is within the limits, and read back from what was written.
`Transaction.decode_canonical` starts from a byte string: it is accepted just if it is
what some transaction is written as, and then there is only the one. No written form is
a proper start of another (`Transaction.encode_prefix_free`), so a form that is cut
short or runs on is never read as a transaction.

A transaction that is not written is refused for a reason that applies to it
(`TransactionFault.Blames`).
-/

namespace AppendStore

namespace Change

theorem writable_iff {c : Change} :
    c.Writable ↔ c.key.length < UInt32.size ∧
      ∀ value, c.value? = some value → value.length < UInt32.size := by
  cases c with
  | set key value =>
    rw [Writable, oversized?_set_eq_none_iff]
    constructor
    · rintro ⟨hkey, hvalue⟩
      refine ⟨hkey, ?_⟩
      rintro _ ⟨⟩
      exact hvalue
    · rintro ⟨hkey, hvalue⟩
      exact ⟨hkey, hvalue value rfl⟩
  | delete key =>
    rw [Writable, oversized?_delete_eq_none_iff]
    constructor
    · intro hkey
      exact ⟨hkey, nofun⟩
    · exact fun h => h.1

theorem length_of_oversized? {c : Change} {field : Field} {length : Nat}
    (h : c.oversized? = some (field, length)) :
    UInt32.size ≤ length ∧
      match field with
      | .key => c.key.length = length
      | .value => ∃ value, c.value? = some value ∧ value.length = length := by
  have hfield : ∀ {name : Field} {bytes : Bytes},
      oversizedField? name bytes = some (field, length) →
        UInt32.size ≤ length ∧ name = field ∧ bytes.length = length := by
    intro name bytes hbytes
    unfold oversizedField? at hbytes
    split at hbytes
    · next hsize =>
      cases hbytes
      exact ⟨hsize, rfl, rfl⟩
    · cases hbytes
  cases c with
  | set key value =>
    rcases Option.or_eq_some_iff.1 h with hkey | ⟨-, hvalue⟩
    · obtain ⟨hsize, rfl, hlength⟩ := hfield hkey
      exact ⟨hsize, hlength⟩
    · obtain ⟨hsize, rfl, hlength⟩ := hfield hvalue
      exact ⟨hsize, value, rfl, hlength⟩
  | delete key =>
    obtain ⟨hsize, rfl, hlength⟩ := hfield h
    exact ⟨hsize, hlength⟩

end Change

/-- What the fault says is true of the transaction. -/
def TransactionFault.Blames (t : Transaction) : TransactionFault → Prop
  | noChanges id => id = t.id ∧ t.changes = []
  | tooManyChanges id changes => id = t.id ∧ changes = t.changes.length ∧ 65535 < changes
  | oversizedField .key length =>
    UInt32.size ≤ length ∧ ∃ c ∈ t.changes, c.key.length = length
  | oversizedField .value length =>
    UInt32.size ≤ length ∧ ∃ value ∈ t.values, value.length = length
  | other _ => False

namespace Transaction

/-- Between 1 and 65535 changes, and every key and value shorter than 2^32 bytes. -/
structure WithinLimits (t : Transaction) : Prop where
  nonempty : 1 ≤ t.changes.length
  count : t.changes.length ≤ 65535
  keys : ∀ c ∈ t.changes, c.key.length < UInt32.size
  values : ∀ value ∈ t.values, value.length < UInt32.size

variable {t : Transaction}

theorem writable_iff_withinLimits : t.Writable ↔ t.WithinLimits := by
  constructor
  · intro h
    refine ⟨List.length_pos_iff.2 h.nonempty, h.count, ?_, ?_⟩
    · intro c hc
      exact (Change.writable_iff.1 (h.changes c hc)).1
    · intro value hvalue
      obtain ⟨c, hc, hset⟩ := List.mem_filterMap.1 hvalue
      exact (Change.writable_iff.1 (h.changes c hc)).2 value hset
  · intro h
    refine ⟨List.length_pos_iff.1 h.nonempty, h.count, ?_⟩
    intro c hc
    refine Change.writable_iff.2 ⟨h.keys c hc, ?_⟩
    intro value hset
    exact h.values value (List.mem_filterMap.2 ⟨c, hc, hset⟩)

theorem not_withinLimits_of_blames {fault : TransactionFault} (h : fault.Blames t) :
    ¬ t.WithinLimits := by
  intro hlimits
  cases fault with
  | noChanges id =>
    have hlength := hlimits.nonempty
    rw [h.2] at hlength
    exact Nat.not_succ_le_zero 0 hlength
  | tooManyChanges id changes =>
    obtain ⟨-, rfl, hmany⟩ := h
    exact Nat.not_le_of_lt hmany hlimits.count
  | oversizedField field length =>
    cases field with
    | key =>
      obtain ⟨hsize, c, hc, rfl⟩ := h
      exact Nat.not_le_of_lt (hlimits.keys c hc) hsize
    | value =>
      obtain ⟨hsize, value, hvalue, rfl⟩ := h
      exact Nat.not_le_of_lt (hlimits.values value hvalue) hsize
  | other text => exact h

/-- A transaction is written in its one form, or refused for a reason that applies to it. -/
theorem encode_cases (t : Transaction) :
    t.encode = .ok t.layout ∨
      ∃ fault, t.encode = .error (.invalidTransaction fault) ∧ fault.Blames t := by
  unfold encode
  by_cases hempty : t.changes.isEmpty
  · rw [if_pos hempty]
    exact .inr ⟨_, rfl, rfl, List.isEmpty_iff.1 hempty⟩
  rw [if_neg hempty]
  by_cases hmany : maxChanges < t.changes.length
  · rw [if_pos hmany]
    exact .inr ⟨_, rfl, rfl, rfl, hmany⟩
  rw [if_neg hmany]
  cases hfound : t.changes.findSome? Change.oversized? with
  | none => exact .inl rfl
  | some found =>
    obtain ⟨field, length⟩ := found
    obtain ⟨c, hc, hoversized⟩ := List.exists_of_findSome?_eq_some hfound
    obtain ⟨hsize, hfield⟩ := Change.length_of_oversized? hoversized
    refine .inr ⟨_, rfl, ?_⟩
    cases field with
    | key => exact ⟨hsize, c, hc, hfield⟩
    | value =>
      obtain ⟨value, hset, hlength⟩ := hfield
      exact ⟨hsize, value, List.mem_filterMap.2 ⟨c, hc, hset⟩, hlength⟩

/-- Every transaction within the limits is written, with as many bytes as announced, and read back
as it was. Every other one is invalid, and the fault says why. -/
theorem encode_invertible (t : Transaction) :
    ((∃ body, t.encode = .ok body) ↔ t.WithinLimits) ∧
      (∀ body, t.encode = .ok body → body.length = t.encodedLength ∧ decode body = .ok t) ∧
      ((∃ fault, t.encode = .error (.invalidTransaction fault) ∧ fault.Blames t) ↔
        ¬ t.WithinLimits) := by
  refine ⟨?_, ?_, ?_⟩
  · constructor
    · rintro ⟨body, hencode⟩
      exact writable_iff_withinLimits.1 (encode_eq_ok_iff.1 hencode).1
    · intro hlimits
      exact ⟨t.layout, encode_eq_ok_iff.2 ⟨writable_iff_withinLimits.2 hlimits, rfl⟩⟩
  · intro body hencode
    obtain ⟨hwritable, rfl⟩ := encode_eq_ok_iff.1 hencode
    exact ⟨t.length_layout, decode_layout hwritable⟩
  · constructor
    · rintro ⟨fault, -, hblames⟩
      exact not_withinLimits_of_blames hblames
    · intro hlimits
      rcases t.encode_cases with hencode | hrefused
      · have hwritable := (encode_eq_ok_iff.1 hencode).1
        exact absurd (writable_iff_withinLimits.1 hwritable) hlimits
      · exact hrefused

/-- Reading undoes writing, and nothing else is read. -/
theorem decode_eq_ok_iff_encode {bs : Bytes} : decode bs = .ok t ↔ t.encode = .ok bs := by
  constructor
  · intro hread
    obtain ⟨rfl, hwritable⟩ := eq_layout_of_decode? (decode_eq_ok_iff.1 hread)
    exact encode_eq_ok_iff.2 ⟨hwritable, rfl⟩
  · intro hencode
    obtain ⟨hwritable, rfl⟩ := encode_eq_ok_iff.1 hencode
    exact decode_layout hwritable

theorem decode_eq_error {bs : Bytes} {e : StoreError} (h : decode bs = .error e) :
    ∃ fault, e = .decode fault := by
  unfold decode at h
  cases hread : decode? bs with
  | ok t =>
    rw [hread] at h
    cases h
  | error fault =>
    rw [hread] at h
    cases h
    exact ⟨fault, rfl⟩

/-- A byte string is accepted just if a transaction is written as it. No two byte strings are read
as the same transaction, and a byte string that no transaction is written as is refused for what it
holds. -/
theorem decode_canonical (bs : Bytes) :
    (∀ t, decode bs = .ok t ↔ t.encode = .ok bs) ∧
      (∀ t bs', decode bs = .ok t → decode bs' = .ok t → bs = bs') ∧
      ((∃ fault, decode bs = .error (.decode fault)) ↔ ∀ t : Transaction, t.encode ≠ .ok bs) := by
  refine ⟨fun t => decode_eq_ok_iff_encode, ?_, ?_⟩
  · intro t bs' hread hread'
    have hencode := decode_eq_ok_iff_encode.1 hread
    have hencode' := decode_eq_ok_iff_encode.1 hread'
    exact Except.ok.inj (hencode.symm.trans hencode')
  · constructor
    · rintro ⟨fault, hread⟩ t hencode
      cases hread.symm.trans (decode_eq_ok_iff_encode.2 hencode)
    · intro hnone
      cases hread : decode bs with
      | ok t => exact absurd (decode_eq_ok_iff_encode.1 hread) (hnone t)
      | error e =>
        obtain ⟨fault, rfl⟩ := decode_eq_error hread
        exact ⟨fault, rfl⟩

theorem decode_encode_append {body more : Bytes} (h : t.encode = .ok body) (hmore : more ≠ []) :
    decode (body ++ more) = .error (.decode (.trailingBytes more.length t.changes.length)) := by
  obtain ⟨hwritable, rfl⟩ := encode_eq_ok_iff.1 h
  rw [decode, decode?_layout_append hwritable, if_neg hmore]
  rfl

theorem decode_start_of_encode {body start : Bytes} (h : t.encode = .ok body)
    (hstart : start <+: body) (hcut : start ≠ body) :
    ∃ fault, decode start = .error (.decode fault) := by
  obtain ⟨hwritable, rfl⟩ := encode_eq_ok_iff.1 h
  have hshort : start.length < t.layout.length := by
    refine Nat.lt_of_le_of_ne hstart.length_le ?_
    intro hlength
    exact hcut (hstart.eq_of_length hlength)
  rw [List.prefix_iff_eq_take.1 hstart]
  cases hread : decode (t.layout.take start.length) with
  | ok u => exact absurd hread (decode_take_ne_ok hwritable hshort)
  | error e =>
    obtain ⟨fault, rfl⟩ := decode_eq_error hread
    exact ⟨fault, rfl⟩

/-- Written transactions are prefix-free. A written transaction that is cut short anywhere, or has
anything behind it, is refused as bytes that are no transaction; so it is the start of no other
written transaction. -/
theorem encode_prefix_free {body : Bytes} (h : t.encode = .ok body) :
    (∀ start, start <+: body → start ≠ body →
      ∃ fault, decode start = .error (.decode fault)) ∧
    (∀ more, more ≠ [] → ∃ fault, decode (body ++ more) = .error (.decode fault)) ∧
    (∀ u body', u.encode = .ok body' → body <+: body' → u = t) := by
  refine ⟨fun start => decode_start_of_encode h, ?_, ?_⟩
  · intro more hmore
    exact ⟨_, decode_encode_append h hmore⟩
  · rintro u _ hu ⟨more, rfl⟩
    have hread := decode_eq_ok_iff_encode.2 hu
    by_cases hmore : more = []
    · rw [hmore, List.append_nil, decode_eq_ok_iff_encode.2 h] at hread
      exact (Except.ok.inj hread).symm
    · rw [decode_encode_append h hmore] at hread
      cases hread

def twoChanges : Transaction :=
  { id := 7, timestamp := 5, changes := [.set [1, 2] [3], .delete [1, 2]] }

/-- The form is cut in the key of the second change, and lengthened by one byte. -/
theorem encode_prefix_free_two_changes :
    twoChanges.encode = .ok twoChanges.layout ∧
      (∃ fault, decode (twoChanges.layout.take 52) = .error (.decode fault)) ∧
      ∃ fault, decode (twoChanges.layout ++ [0]) = .error (.decode fault) := by
  have hencode : twoChanges.encode = .ok twoChanges.layout := rfl
  have hfree := encode_prefix_free hencode
  exact ⟨hencode, hfree.1 _ (List.take_prefix ..) (by decide), hfree.2.1 _ (by decide)⟩

end Transaction

end AppendStore
