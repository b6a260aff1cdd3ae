import AppendStore.Transaction.Decoding

/-!
# Reading written transactions

Reading and writing of transactions are inverse to each other, piece by piece: a
field, a change, a list of changes and a whole transaction. Each piece is read off
the front of any byte string (`readChanges_layout`), and whatever is read was
written in its one form (`readChanges_sound`).

So a transaction is read back from its bytes (`Transaction.decode?_layout`), every
accepted byte string is the written form of what is read from it
(`Transaction.eq_layout_of_decode?`), and no proper start of a written transaction
is accepted (`Transaction.decode_take_ne_ok`).
-/

namespace AppendStore

theorem readField_sound {field : Field} {bs bytes rest : Bytes}
    (h : readField field bs = .ok (bytes, rest)) :
    bs = fieldLayout bytes ++ rest ∧ bytes.length < UInt32.size := by
  unfold readField at h
  split at h
  · simp at h
  · next length after hlength =>
    obtain ⟨rfl, hfour⟩ := Bytes.splitExact?_eq_some_iff.1 hlength
    split at h
    · simp at h
    · next first last hfirst =>
      obtain ⟨rfl, hbytes⟩ := Bytes.splitExact?_eq_some_iff.1 hfirst
      simp only [Except.ok.injEq, Prod.mk.injEq] at h
      obtain ⟨rfl, rfl⟩ := h
      have hback : beBytes 4 first.length = length := by
        rw [hbytes, ← hfour, beBytes_beNat]
      have hlt : beNat length < beRange 4 := by
        rw [← hfour]
        exact beNat_lt length
      rw [fieldLayout, hback, List.append_assoc]
      exact ⟨rfl, by rw [hbytes]; exact hlt⟩

namespace Change

def Writable (c : Change) : Prop := c.oversized? = none

theorem readTagged_layout {c : Change} (h : c.Writable) {tag : UInt8} {bs rest : Bytes}
    (hbs : tag :: bs = c.layout ++ rest) : readTagged tag bs = .ok (c, rest) := by
  cases c with
  | set key value =>
    obtain ⟨hkey, hvalue⟩ := oversized?_set_eq_none_iff.1 h
    simp only [layout, List.cons_append, List.cons.injEq, List.append_assoc] at hbs
    obtain ⟨rfl, rfl⟩ := hbs
    simp only [readTagged, if_true, readField_fieldLayout hkey, bind, Except.bind,
      readField_fieldLayout hvalue]
    rfl
  | delete key =>
    have hkey := oversized?_delete_eq_none_iff.1 h
    simp only [layout, List.cons_append, List.cons.injEq] at hbs
    obtain ⟨rfl, rfl⟩ := hbs
    have htag : deleteTag ≠ setTag := by decide
    simp only [readTagged, htag, if_false, if_true, readField_fieldLayout hkey, bind, Except.bind]
    rfl

theorem readTagged_sound {c : Change} {tag : UInt8} {bs rest : Bytes}
    (h : readTagged tag bs = .ok (c, rest)) : tag :: bs = c.layout ++ rest ∧ c.Writable := by
  unfold readTagged at h
  split at h
  · next htag =>
    cases hkey : readField .key bs with
    | error fault => simp [hkey, bind, Except.bind] at h
    | ok found =>
      obtain ⟨key, after⟩ := found
      cases hvalue : readField .value after with
      | error fault => simp [hkey, hvalue, bind, Except.bind] at h
      | ok found =>
        obtain ⟨value, last⟩ := found
        simp only [hkey, hvalue, bind, Except.bind, pure, Except.pure, Except.ok.injEq,
          Prod.mk.injEq] at h
        obtain ⟨rfl, rfl⟩ := h
        obtain ⟨rfl, hkeylt⟩ := readField_sound hkey
        obtain ⟨rfl, hvaluelt⟩ := readField_sound hvalue
        refine ⟨?_, oversized?_set_eq_none_iff.2 ⟨hkeylt, hvaluelt⟩⟩
        rw [htag, layout, List.cons_append, List.append_assoc]
  · split at h
    · next htag =>
      cases hkey : readField .key bs with
      | error fault => simp [hkey, bind, Except.bind] at h
      | ok found =>
        obtain ⟨key, after⟩ := found
        simp only [hkey, bind, Except.bind, pure, Except.pure, Except.ok.injEq,
          Prod.mk.injEq] at h
        obtain ⟨rfl, rfl⟩ := h
        obtain ⟨rfl, hkeylt⟩ := readField_sound hkey
        refine ⟨?_, oversized?_delete_eq_none_iff.2 hkeylt⟩
        rw [htag, layout, List.cons_append]
    · simp [throw, throwThe, MonadExceptOf.throw] at h

theorem layout_ne_nil (c : Change) : c.layout ≠ [] := by
  cases c <;> simp [layout]

end Change

namespace Transaction

theorem readChanges_layout {id : UInt64} {count : Nat} {cs : List Change}
    (h : ∀ c ∈ cs, c.Writable) (before : List Change) (rest : Bytes) :
    readChanges id count before cs.length (cs.flatMap Change.layout ++ rest) =
      .ok (before.reverse ++ cs, rest) := by
  induction cs generalizing before with
  | nil => simp [readChanges]
  | cons c cs ih =>
    have hc : c.Writable := h c List.mem_cons_self
    have hcs : ∀ d ∈ cs, d.Writable := fun d hd => h d (List.mem_cons_of_mem c hd)
    rw [List.length_cons, List.flatMap_cons, List.append_assoc]
    cases hlayout : c.layout ++ (cs.flatMap Change.layout ++ rest) with
    | nil => exact absurd (List.append_eq_nil_iff.1 hlayout).1 c.layout_ne_nil
    | cons tag bs =>
      rw [readChanges, Change.readTagged_layout hc hlayout.symm]
      simp only
      rw [ih hcs, List.reverse_cons, List.append_assoc, List.singleton_append]

theorem readChanges_sound {id : UInt64} {count left : Nat} {before cs : List Change}
    {bs rest : Bytes} (h : readChanges id count before left bs = .ok (cs, rest)) :
    ∃ more, cs = before.reverse ++ more ∧ more.length = left ∧
      bs = more.flatMap Change.layout ++ rest ∧ ∀ c ∈ more, c.Writable := by
  induction left generalizing before bs with
  | zero =>
    simp only [readChanges, Except.ok.injEq, Prod.mk.injEq] at h
    obtain ⟨rfl, rfl⟩ := h
    exact ⟨[], by simp⟩
  | succ left ih =>
    cases bs with
    | nil => simp [readChanges] at h
    | cons tag bs =>
      cases hread : Change.readTagged tag bs with
      | error fault => simp [readChanges, hread] at h
      | ok found =>
        obtain ⟨c, after⟩ := found
        simp only [readChanges, hread] at h
        obtain ⟨more, rfl, hlen, rfl, hmore⟩ := ih h
        obtain ⟨hbs, hc⟩ := Change.readTagged_sound hread
        refine ⟨c :: more, by simp, by simp [hlen], ?_, ?_⟩
        · rw [hbs, List.flatMap_cons, List.append_assoc]
        · intro d hd
          rcases List.mem_cons.1 hd with rfl | hd
          · exact hc
          · exact hmore d hd

/-- The format has room for the transaction. -/
structure Writable (t : Transaction) : Prop where
  nonempty : t.changes ≠ []
  count : t.changes.length ≤ maxChanges
  changes : ∀ c ∈ t.changes, c.Writable

instance (t : Transaction) : Decidable t.Writable :=
  decidable_of_iff (t.changes ≠ [] ∧ t.changes.length ≤ maxChanges ∧
    ∀ c ∈ t.changes, c.oversized? = none)
    ⟨fun h => ⟨h.1, h.2.1, h.2.2⟩, fun h => ⟨h.nonempty, h.count, h.changes⟩⟩

theorem encode_eq_ok_iff {t : Transaction} {body : Bytes} :
    t.encode = .ok body ↔ t.Writable ∧ t.layout = body := by
  unfold encode
  constructor
  · intro h
    split at h
    · simp at h
    · next hempty =>
      split at h
      · simp at h
      · next hcount =>
        split at h
        · simp at h
        · next hfound =>
          have hnil : t.changes ≠ [] := by simpa using hempty
          have hall : ∀ c ∈ t.changes, c.Writable := List.findSome?_eq_none_iff.1 hfound
          exact ⟨⟨hnil, Nat.le_of_not_lt hcount, hall⟩, Except.ok.inj h⟩
  · rintro ⟨⟨hnil, hcount, hall⟩, rfl⟩
    have hempty : t.changes.isEmpty = false := List.isEmpty_eq_false_iff.2 hnil
    have hfound : t.changes.findSome? Change.oversized? = none := List.findSome?_eq_none_iff.2 hall
    rw [if_neg (by simp [hempty]), if_neg (Nat.not_lt.2 hcount), hfound]

theorem invalid_of_encode_error {t : Transaction} {e : StoreError} (h : t.encode = .error e) :
    ∃ fault, e = .invalidTransaction fault := by
  unfold encode at h
  split at h
  · exact ⟨_, (Except.error.inj h).symm⟩
  · split at h
    · exact ⟨_, (Except.error.inj h).symm⟩
    · split at h
      · exact ⟨_, (Except.error.inj h).symm⟩
      · simp at h

theorem prefixSize_lt_length_layout {t : Transaction} (h : t.Writable) :
    prefixSize < t.layout.length := by
  rw [layout, List.length_append, length_prefixLayout]
  cases hchanges : t.changes with
  | nil => exact absurd hchanges h.nonempty
  | cons c cs =>
    have hpos : 0 < c.layout.length := List.length_pos_iff.2 c.layout_ne_nil
    rw [List.flatMap_cons, List.length_append]
    omega

theorem readBody_prefixLayout {t : Transaction} (h : t.Writable) (rest : Bytes) :
    readBody (t.prefixLayout t.changes.length) (t.changes.flatMap Change.layout ++ rest) =
      if rest = [] then .ok t else .error (.trailingBytes rest.length t.changes.length) := by
  have hcount : t.changes.length < beRange 2 := Nat.lt_succ_of_le h.count
  have hread : beNat ((t.prefixLayout t.changes.length).drop 32) = t.changes.length := by
    simp [prefixLayout, List.drop_append, List.drop_of_length_le, beNat_beBytes_of_lt hcount]
  have hpos : t.changes.length ≠ 0 := fun hzero => h.nonempty (List.eq_nil_of_length_eq_zero hzero)
  rw [readBody]
  simp only [hread, if_neg hpos, readChanges_layout h.changes, List.reverse_nil, List.nil_append]
  cases rest with
  | nil =>
    simp [prefixLayout, List.drop_append, List.drop_of_length_le]
  | cons b rest => simp

/-- A transaction is read back from its bytes, and bytes behind it are noticed. -/
theorem decode?_layout_append {t : Transaction} (h : t.Writable) (rest : Bytes) :
    decode? (t.layout ++ rest) =
      if rest = [] then .ok t else .error (.trailingBytes rest.length t.changes.length) := by
  have hsplit : Bytes.splitExact? prefixSize (t.layout ++ rest) =
      some (t.prefixLayout t.changes.length, t.changes.flatMap Change.layout ++ rest) := by
    rw [layout, List.append_assoc]
    exact Bytes.splitExact?_eq_some_iff.2 ⟨rfl, length_prefixLayout t _⟩
  rw [decode?, hsplit]
  exact readBody_prefixLayout h rest

theorem decode?_layout {t : Transaction} (h : t.Writable) : decode? t.layout = .ok t := by
  have := decode?_layout_append h []
  rwa [List.append_nil, if_pos rfl] at this

/-- The prefix that is read is the prefix of what is read. -/
theorem prefixLayout_of_fields {start : Bytes} (h : start.length = prefixSize)
    {t : Transaction} (hid : t.id = .ofBeBytes (start.take 8))
    (htimestamp : t.timestamp = .ofBeBytes ((start.drop 8).take 8))
    (hheap : t.heapId = .ofBeBytes ((start.drop 16).take 8))
    (hfile : t.valueFileId = .ofBeBytes ((start.drop 24).take 8)) :
    t.prefixLayout (beNat (start.drop 32)) = start := by
  have hlast : (start.drop 32).length = 2 := by rw [List.length_drop, h]; rfl
  have hcount : beBytes 2 (beNat (start.drop 32)) = start.drop 32 := by
    rw [← hlast, beBytes_beNat]
  have hlen : ∀ k, k + 8 ≤ 34 → ((start.drop k).take 8).length = 8 := by
    intro k hk
    rw [List.length_take, List.length_drop, h, prefixSize]
    omega
  have hzero := hlen 0 (by omega)
  rw [List.drop_zero] at hzero
  rw [prefixLayout, hid, htimestamp, hheap, hfile, hcount, UInt64.beBytes_ofBeBytes hzero,
    UInt64.beBytes_ofBeBytes (hlen 8 (by omega)), UInt64.beBytes_ofBeBytes (hlen 16 (by omega)),
    UInt64.beBytes_ofBeBytes (hlen 24 (by omega))]
  have hjoin : ∀ k, (start.drop k).take 8 ++ start.drop (k + 8) = start.drop k := by
    intro k
    rw [← List.drop_drop, List.take_append_drop]
  simp only [List.append_assoc, hjoin]
  exact List.take_append_drop 8 start

/-- Every byte string that is accepted is the written form of what is read from it. -/
theorem eq_layout_of_decode? {bs : Bytes} {t : Transaction} (h : decode? bs = .ok t) :
    bs = t.layout ∧ t.Writable := by
  unfold decode? at h
  split at h
  · simp at h
  · next start rest hsplit =>
    obtain ⟨rfl, hstart⟩ := Bytes.splitExact?_eq_some_iff.1 hsplit
    unfold readBody at h
    simp only at h
    split at h
    · simp at h
    · next hcount =>
      split at h
      · simp at h
      · next cs hread =>
        obtain ⟨more, hmore, hlen, rfl, hall⟩ := readChanges_sound hread
        rw [List.reverse_nil, List.nil_append] at hmore
        subst hmore
        simp only [Except.ok.injEq] at h
        have hchanges : t.changes = cs := by rw [← h]
        have hfront := prefixLayout_of_fields (t := t) hstart (by rw [← h]) (by rw [← h])
          (by rw [← h]) (by rw [← h])
        have hle : cs.length ≤ maxChanges := by
          have hlt := beNat_lt (start.drop 32)
          rw [← hlen, List.length_drop, hstart] at hlt
          exact Nat.le_of_lt_succ hlt
        refine ⟨?_, ?_, hchanges ▸ hle, hchanges ▸ hall⟩
        · rw [layout, hchanges, hlen, hfront, List.append_nil]
        · rw [hchanges]
          rintro rfl
          exact hcount hlen.symm
      · simp at h

theorem decode_eq_ok_iff {bs : Bytes} {t : Transaction} :
    decode bs = .ok t ↔ decode? bs = .ok t := by
  unfold decode
  cases decode? bs with
  | error e =>
    constructor
    · intro h
      cases h
    · intro h
      cases h
  | ok u =>
    constructor
    · intro h
      cases h
      rfl
    · intro h
      cases h
      rfl

theorem decode_layout {t : Transaction} (h : t.Writable) : decode t.layout = .ok t :=
  decode_eq_ok_iff.2 (decode?_layout h)

/-- No proper start of a written transaction is a transaction. -/
theorem decode_take_ne_ok {t u : Transaction} (h : t.Writable) {k : Nat}
    (hk : k < t.layout.length) : decode (t.layout.take k) ≠ .ok u := by
  intro hread
  obtain ⟨htake, hu⟩ := eq_layout_of_decode? (decode_eq_ok_iff.1 hread)
  have hsplit : u.layout ++ t.layout.drop k = t.layout := by
    rw [← htake, List.take_append_drop]
  have hrest : t.layout.drop k ≠ [] := by
    intro hnil
    have := List.drop_eq_nil_iff.1 hnil
    omega
  have hlong := decode?_layout_append hu (t.layout.drop k)
  rw [hsplit, if_neg hrest, decode?_layout h] at hlong
  simp at hlong

end Transaction

end AppendStore
