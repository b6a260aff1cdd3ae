import AppendStore.Transaction.Basic
import AppendStore.StoreError

/-!
# Written transactions

A written transaction is a prefix of 34 bytes, holding its four numbers and the
count of changes, followed by the changes. A change is a tag, the key behind its
length and, if it sets a value, the value behind its length. All numbers are
big-endian.

`Transaction.layout` is that byte string for any transaction. `Transaction.encode`
refuses the transactions that the format has no room for: those without changes,
with more than 65535, or with a field of 2^32 bytes or more.
-/

namespace AppendStore

def fieldLayout (field : Bytes) : Bytes := beBytes 4 field.length ++ field

theorem length_fieldLayout (field : Bytes) : (fieldLayout field).length = 4 + field.length := by
  simp [fieldLayout]

def oversizedField? (field : Field) (bytes : Bytes) : Option (Field × Nat) :=
  if UInt32.size ≤ bytes.length then some (field, bytes.length) else none

theorem oversizedField?_eq_none_iff {field : Field} {bytes : Bytes} :
    oversizedField? field bytes = none ↔ bytes.length < UInt32.size := by
  simp [oversizedField?]

namespace Change

def setTag : UInt8 := 0

def deleteTag : UInt8 := 1

def layout : Change → Bytes
  | set key value => setTag :: (fieldLayout key ++ fieldLayout value)
  | delete key => deleteTag :: fieldLayout key

def encodedLength : Change → Nat
  | set key value => 1 + 4 + key.length + 4 + value.length
  | delete key => 1 + 4 + key.length

theorem length_layout (c : Change) : c.layout.length = c.encodedLength := by
  cases c <;> simp [layout, encodedLength, length_fieldLayout] <;> omega

/-- The first field of a change that is too long for its length, and its own length. -/
def oversized? : Change → Option (Field × Nat)
  | set key value => (oversizedField? .key key).or (oversizedField? .value value)
  | delete key => oversizedField? .key key

theorem oversized?_set_eq_none_iff {key value : Bytes} :
    (set key value).oversized? = none ↔ key.length < UInt32.size ∧ value.length < UInt32.size := by
  simp [oversized?, oversizedField?_eq_none_iff]

theorem oversized?_delete_eq_none_iff {key : Bytes} :
    (delete key).oversized? = none ↔ key.length < UInt32.size := by
  simp [oversized?, oversizedField?_eq_none_iff]

end Change

namespace Transaction

def prefixSize : Nat := 34

def maxChanges : Nat := 65535

def prefixLayout (t : Transaction) (count : Nat) : Bytes :=
  t.id.beBytes ++ t.timestamp.beBytes ++ t.heapId.beBytes ++ t.valueFileId.beBytes ++
    beBytes 2 count

theorem length_prefixLayout (t : Transaction) (count : Nat) :
    (t.prefixLayout count).length = prefixSize := by
  simp [prefixLayout, prefixSize]

def layout (t : Transaction) : Bytes :=
  t.prefixLayout t.changes.length ++ t.changes.flatMap Change.layout

def encodedLength (t : Transaction) : Nat :=
  prefixSize + t.changes.foldr (fun c n => c.encodedLength + n) 0

theorem length_layout (t : Transaction) : t.layout.length = t.encodedLength := by
  rw [layout, List.length_append, length_prefixLayout, encodedLength]
  congr 1
  induction t.changes with
  | nil => rfl
  | cons c cs ih => rw [List.flatMap_cons, List.length_append, ih, c.length_layout]; rfl

/-- The written transaction, or the reason why it cannot be written. -/
def encode (t : Transaction) : Except StoreError Bytes :=
  if t.changes.isEmpty then .error (.invalidTransaction (.noChanges t.id))
  else if maxChanges < t.changes.length then
    .error (.invalidTransaction (.tooManyChanges t.id t.changes.length))
  else
    match t.changes.findSome? Change.oversized? with
    | some (field, length) => .error (.invalidTransaction (.oversizedField field length))
    | none => .ok t.layout

end Transaction

end AppendStore
