import AppendStore.Transaction.Encoding

/-!
# Reading transactions

`Transaction.decode` reads a whole byte string as one transaction. It asks for
the prefix, at least one change, all changes that the count declares, and
nothing behind them; every fault names the first thing that is wrong.
-/

namespace AppendStore

def readField (field : Field) (bs : Bytes) : Except DecodeFault (Bytes × Bytes) :=
  match bs.splitExact? 4 with
  | none => .error (.missingLength field)
  | some (length, rest) =>
    match rest.splitExact? (beNat length) with
    | none => .error (.shortField field (beNat length) rest.length)
    | some (bytes, rest) => .ok (bytes, rest)

theorem readField_fieldLayout {field : Field} {bytes rest : Bytes} (h : bytes.length < UInt32.size) :
    readField field (fieldLayout bytes ++ rest) = .ok (bytes, rest) := by
  have hlen : beNat (beBytes 4 bytes.length) = bytes.length :=
    beNat_beBytes_of_lt h
  have hsplit : Bytes.splitExact? 4 (beBytes 4 bytes.length ++ (bytes ++ rest)) =
      some (beBytes 4 bytes.length, bytes ++ rest) :=
    Bytes.splitExact?_eq_some_iff.2 ⟨rfl, length_beBytes _ _⟩
  simp [readField, fieldLayout, List.append_assoc, hsplit, hlen, Bytes.splitExact?_append]

namespace Change

def readTagged (tag : UInt8) (bs : Bytes) : Except DecodeFault (Change × Bytes) :=
  if tag = setTag then do
    let (key, rest) ← readField .key bs
    let (value, rest) ← readField .value rest
    return (set key value, rest)
  else if tag = deleteTag then do
    let (key, rest) ← readField .key bs
    return (delete key, rest)
  else throw (.unknownChange tag)

end Change

namespace Transaction

/-- Reads `left` further changes of the `count` that transaction `id` declares, onto those read
before in reverse order; answers all changes and the bytes after them. -/
def readChanges (id : UInt64) (count : Nat) (before : List Change) :
    Nat → Bytes → Except DecodeFault (List Change × Bytes)
  | 0, bs => .ok (before.reverse, bs)
  | left + 1, [] => .error (.missingChange id count (count - (left + 1)))
  | left + 1, tag :: bs =>
    match Change.readTagged tag bs with
    | .ok (change, rest) => readChanges id count (change :: before) left rest
    | .error fault => .error fault

def readBody (start rest : Bytes) : Except DecodeFault Transaction :=
  let id := UInt64.ofBeBytes (start.take 8)
  let count := beNat (start.drop 32)
  if count = 0 then .error (.noChanges id)
  else
    match readChanges id count [] count rest with
    | .error fault => .error fault
    | .ok (changes, []) =>
      .ok {
        id
        timestamp := UInt64.ofBeBytes ((start.drop 8).take 8)
        heapId := UInt64.ofBeBytes ((start.drop 16).take 8)
        valueFileId := UInt64.ofBeBytes ((start.drop 24).take 8)
        changes }
    | .ok (_, extra) => .error (.trailingBytes extra.length count)

/-- The transaction that a byte string holds, or what is wrong with it. -/
def decode? (bs : Bytes) : Except DecodeFault Transaction :=
  match bs.splitExact? prefixSize with
  | none => .error (.shortTransaction bs.length)
  | some (start, rest) => readBody start rest

def decode (bs : Bytes) : Except StoreError Transaction :=
  (decode? bs).mapError .decode

end Transaction

end AppendStore
