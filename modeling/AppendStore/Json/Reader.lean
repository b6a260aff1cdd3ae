import AppendStore.Bytes.Hex
import AppendStore.Json.Basic

/-!
# Reading JSON

`JsonValue.parse?` reads a JSON text: one value with blanks around it and nothing
else. The readers below take a value, a string or a number off the front of a
list of characters and give the rest. A value is read with a bound on its
nesting and on the number of its parts; the length of the text is bound enough,
since every part takes a character.
-/

namespace AppendStore

namespace JsonValue

def isBlank (c : Char) : Bool := c = ' ' || c = '\t' || c = '\n' || c = '\r'

def skipBlanks (cs : List Char) : List Char := cs.dropWhile isBlank

def readUnit? (a b c d : Char) : Option Nat := hexNat? [a, b, c, d]

def isHighSurrogate (u : Nat) : Bool := decide (0xD800 ≤ u ∧ u < 0xDC00)

def isLowSurrogate (u : Nat) : Bool := decide (0xDC00 ≤ u ∧ u < 0xE000)

def ofSurrogates (high low : Nat) : Char :=
  Char.ofNat (0x10000 + (high - 0xD800) * 0x400 + (low - 0xDC00))

def shortEscape? : Char → Option Char
  | '"' => some '"'
  | '\\' => some '\\'
  | '/' => some '/'
  | 'b' => some '\x08'
  | 'f' => some '\x0c'
  | 'n' => some '\n'
  | 'r' => some '\r'
  | 't' => some '\t'
  | _ => none

/-- The rest of a string whose opening quote and first characters, in reverse order, are read.
Nothing is known of the characters once half of a surrogate pair has been met. -/
def readString (before : Option (List Char)) : List Char → Option (Option String × List Char)
  | '"' :: rest => some (before.map fun cs => String.ofList cs.reverse, rest)
  | '\\' :: 'u' :: a :: b :: c :: d :: '\\' :: 'u' :: a' :: b' :: c' :: d' :: rest =>
    match readUnit? a b c d, readUnit? a' b' c' d' with
    | some high, some low =>
      if isHighSurrogate high && isLowSurrogate low then
        readString (before.map (ofSurrogates high low :: ·)) rest
      else
        readString (push high before) ('\\' :: 'u' :: a' :: b' :: c' :: d' :: rest)
    | _, _ => none
  | '\\' :: 'u' :: a :: b :: c :: d :: rest =>
    match readUnit? a b c d with
    | some u => readString (push u before) rest
    | none => none
  | '\\' :: c :: rest =>
    match shortEscape? c with
    | some c => readString (before.map (c :: ·)) rest
    | none => none
  | c :: rest => if c = '\\' ∨ c < ' ' then none else readString (before.map (c :: ·)) rest
  | [] => none
where
  /-- One more code unit, which is a character unless it is half of a surrogate pair. -/
  push (u : Nat) (before : Option (List Char)) : Option (List Char) :=
    if isHighSurrogate u || isLowSurrogate u then none else before.map (Char.ofNat u :: ·)

def skipDigits? (cs : List Char) : Option (List Char) :=
  match cs with
  | c :: rest => if c.isDigit then some (rest.dropWhile Char.isDigit) else none
  | [] => none

def skipFraction? : List Char → Option (List Char)
  | '.' :: rest => skipDigits? rest
  | cs => some cs

def skipExponent? : List Char → Option (List Char)
  | c :: rest =>
    if c = 'e' ∨ c = 'E' then
      match rest with
      | '+' :: rest => skipDigits? rest
      | '-' :: rest => skipDigits? rest
      | rest => skipDigits? rest
    else some (c :: rest)
  | [] => some []

/-- The whole number at the start, without a sign and without a zero in front of other digits. -/
def readNatural? (cs : List Char) : Option (Nat × List Char) :=
  match cs with
  | '0' :: rest => some (0, rest)
  | c :: _ =>
    if c.isDigit then
      some ((cs.takeWhile Char.isDigit).foldl (fun n d => 10 * n + (d.toNat - '0'.toNat)) 0,
        cs.dropWhile Char.isDigit)
    else none
  | [] => none

def goesOn : List Char → Bool
  | c :: _ => c = '.' || c = 'e' || c = 'E'
  | [] => false

def readNumber? (cs : List Char) : Option (JsonValue × List Char) := do
  let (negative, digits) := match cs with
    | '-' :: rest => (true, rest)
    | cs => (false, cs)
  let (n, whole) ← readNatural? digits
  let rest ← skipExponent? (← skipFraction? whole)
  if negative || goesOn whole then return (number, rest)
  else return (natural n, rest)

mutual

def valueAt : Nat → List Char → Option (JsonValue × List Char)
  | 0, _ => none
  | bound + 1, cs =>
    match skipBlanks cs with
    | 'n' :: 'u' :: 'l' :: 'l' :: rest => some (null, rest)
    | 't' :: 'r' :: 'u' :: 'e' :: rest => some (bool true, rest)
    | 'f' :: 'a' :: 'l' :: 's' :: 'e' :: rest => some (bool false, rest)
    | '"' :: rest => (readString (some []) rest).map fun (s, rest) => (text s, rest)
    | '[' :: rest =>
      match skipBlanks rest with
      | ']' :: rest => some (array [], rest)
      | rest => readElements bound [] rest
    | '\x7b' :: rest =>
      match skipBlanks rest with
      | '\x7d' :: rest => some (object [], rest)
      | rest => readMembers bound [] rest
    | rest => readNumber? rest

def readElements : Nat → List JsonValue → List Char → Option (JsonValue × List Char)
  | 0, _, _ => none
  | bound + 1, before, cs =>
    match valueAt bound cs with
    | none => none
    | some (value, rest) =>
      match skipBlanks rest with
      | ',' :: rest => readElements bound (value :: before) rest
      | ']' :: rest => some (array (value :: before).reverse, rest)
      | _ => none

def readMembers : Nat → List (Option String × JsonValue) → List Char →
    Option (JsonValue × List Char)
  | 0, _, _ => none
  | bound + 1, before, cs =>
    match skipBlanks cs with
    | '"' :: rest =>
      match readString (some []) rest with
      | none => none
      | some (name, rest) =>
        match skipBlanks rest with
        | ':' :: rest =>
          match valueAt bound rest with
          | none => none
          | some (value, rest) =>
            match skipBlanks rest with
            | ',' :: rest => readMembers bound ((name, value) :: before) rest
            | '\x7d' :: rest => some (object ((name, value) :: before).reverse, rest)
            | _ => none
        | _ => none
    | _ => none

end

def parse? (s : String) : Option JsonValue :=
  let cs := s.toList
  match valueAt (cs.length + 2) cs with
  | some (value, rest) => if (skipBlanks rest).isEmpty then some value else none
  | none => none

end JsonValue

end AppendStore
