import AppendStore.StoreError

/-!
# Paths

A path is kept as it was written, since it is shown that way. `Path.parts` are
its names without the empty ones, the innermost first. `Path.refusal?` tells the
paths that no file system takes, whatever is on it.
-/

namespace AppendStore

structure Path where
  text : String
  deriving DecidableEq, Repr

namespace Path

def isEmpty (p : Path) : Bool := p.text.toList.isEmpty

def isAbsolute (p : Path) : Bool := p.text.toList.head? = some '/'

def endsInSlash (p : Path) : Bool := p.text.toList.getLast? = some '/'

def maxBytes : Nat := 4095

def maxNameBytes : Nat := 255

/-- A path must have no NUL in it, some text, and no more than `maxBytes` of it. -/
def refusal? (p : Path) : Option IoKind :=
  if '\x00' ∈ p.text.toList then some .invalidInput
  else if p.isEmpty then some .notFound
  else if maxBytes < p.text.utf8ByteSize then some .invalidFilename
  else none

/-- The path of `name` in the directory `dir`. A slash is put between the two unless `dir` is empty
or ends in one. -/
def join (dir : Path) (name : String) : Path :=
  if dir.isEmpty || dir.endsInSlash then ⟨dir.text ++ name⟩ else ⟨dir.text ++ "/" ++ name⟩

/-- The names of a path, the innermost first. -/
def parts (p : Path) : List String :=
  (((p.text.toList.splitOn '/').filter (!·.isEmpty)).map String.ofList).reverse

end Path

end AppendStore
