/-!
# JSON values

`JsonValue` is what a JSON text says, as far as settings need it: whole numbers
are kept and of all other numbers only that they are numbers. A text can contain
half of a surrogate pair, which stands for no character; such a text is `none`.
Members of an object keep their order and may repeat a name.
-/

namespace AppendStore

inductive JsonValue where
  | null
  | bool (b : Bool)
  /-- A whole number without a sign. -/
  | natural (n : Nat)
  /-- A number of any other form. -/
  | number
  | text (s : Option String)
  | array (elements : List JsonValue)
  | object (members : List (Option String × JsonValue))

namespace JsonValue

def below? (bound : Nat) : JsonValue → Option Nat
  | natural n => if n < bound then some n else none
  | _ => none

def text? : JsonValue → Option String
  | text s => s
  | _ => none

def member? (name : String) (members : List (Option String × JsonValue)) : Option JsonValue :=
  match members.filter (·.1 = some name) with
  | [(_, value)] => some value
  | _ => none

/-- The values of the named fields of a record, in the order of `names`: from an object that has
each of them once, or from an array of just these values. -/
def fields? (names : List String) : JsonValue → Option (List JsonValue)
  | object members =>
    if members.all (·.1.isSome) then names.mapM (member? · members) else none
  | array elements => if elements.length = names.length then some elements else none
  | _ => none

end JsonValue

end AppendStore
