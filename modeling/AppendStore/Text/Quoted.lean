import AppendStore.Text.Unprinted

/-!
# Quoted text

`quoted` puts a text between double quotes so that it can be shown in a line.
The double quote and the backslash get a backslash, the usual control characters
their short forms, and any other unprinted character its code point in
hexadecimal between braces.
-/

namespace AppendStore

namespace Text

def codePoint (c : Char) : List Char :=
  '\\' :: 'u' :: '\x7b' :: (Nat.toDigits 16 c.toNat ++ ['\x7d'])

def escapeChar (c : Char) : List Char :=
  if c = '\x00' then ['\\', '0']
  else if c = '\t' then ['\\', 't']
  else if c = '\r' then ['\\', 'r']
  else if c = '\n' then ['\\', 'n']
  else if c = '"' ∨ c = '\\' then ['\\', c]
  else if ' ' ≤ c ∧ c ≤ '~' then [c]
  else if isUnprinted c then codePoint c
  else [c]

/-- A text between double quotes. -/
def quoted (s : String) : String :=
  String.ofList ('"' :: (s.toList.flatMap escapeChar ++ ['"']))

end Text

end AppendStore
