import AppendStore.Bytes.Basic

/-!
# Transactions

A transaction is a list of changes to keys under one id, together with its time
and the places that its data go to.
-/

namespace AppendStore

inductive Change where
  | set (key value : Bytes)
  | delete (key : Bytes)
  deriving DecidableEq, Repr

namespace Change

def key : Change → Bytes
  | set key _ => key
  | delete key => key

def value? : Change → Option Bytes
  | set _ value => some value
  | delete _ => none

end Change

/-- Changes made together. -/
structure Transaction where
  id : UInt64
  timestamp : UInt64 := 0
  heapId : UInt64 := 0
  valueFileId : UInt64 := 0
  changes : List Change := []
  deriving DecidableEq, Repr

namespace Transaction

def values (t : Transaction) : List Bytes := t.changes.filterMap Change.value?

end Transaction

end AppendStore
