import AppendStore.Disk.Basic
import AppendStore.Disk.FileName
import AppendStore.Sorting

/-!
# Directories

`Disk.makeDirectory` makes a directory together with those around it, and is
content if it is there already. `Disk.idsIn` gives the ids of the files of
one kind in a directory, and `Disk.list` everything that is in it.
-/

namespace AppendStore

namespace Disk

def pathThrough (absolute : Bool) (parts : List String) : Path :=
  ⟨(if absolute then "/" else "") ++ String.intercalate "/" parts.reverse⟩

/-- Makes a directory at `p`, after `makeAround` if the one around it is missing. A directory that
is there already is enough. -/
def createWith (makeAround : EStateM IoError Disk Unit) (p : Path) :
    EStateM IoError Disk Unit := do
  match ← Action.attempt (createDirectory p) with
  | .ok () => return
  | .error (.refused .notFound) =>
    makeAround
    settle (← Action.attempt (createDirectory p))
  | .error e => settle (.error e)
where
  /-- Fails only if there is no directory after all. -/
  settle (made : Except IoError Unit) : EStateM IoError Disk Unit := do
    match made with
    | .ok () => return
    | .error e => if (← get).isDirectory p then return else throw e

def createAll (absolute : Bool) : List String → EStateM IoError Disk Unit
  | [] => return
  | name :: around =>
    if name = "." then createAll absolute around
    else createWith (createAll absolute around) (pathThrough absolute (name :: around))

/-- Makes a directory and those around it. The empty path needs nothing. -/
def makeDirectory (p : Path) : EStateM IoError Disk Unit :=
  if p.isEmpty then return
  else createWith (createAll p.isAbsolute (p.parts.dropWhile (· = ".")).tail) p

def entriesOf (p : Path) : EStateM IoError Disk (List (String × Entry)) := do
  match ← observe (·.find p) with
  | (_, .file _) => refuse .notADirectory
  | (_, .directory ref) => return ((← get).children ref).reverse

def idOf? (kind : FileKind) : String × Entry → Option UInt64
  | (_, .directory _) => none
  | (name, .file _) =>
    match FileName.parse? name with
    | some (found, id) => if found = kind then some id else none
    | none => none

/-- The ids of the files of one kind in a directory, in order. Names that stand for the same id
count separately. -/
def idsIn (kind : FileKind) (p : Path) : EStateM IoError Disk (List UInt64) := do
  return sortBy (fun a b => decide (a ≤ b)) ((← entriesOf p).filterMap (idOf? kind))

def list (p : Path) : EStateM IoError Disk (List (String × Option Nat)) := do
  let d ← get
  let sized := (← entriesOf p).map fun
    | (name, .directory _) => (name, none)
    | (name, .file ref) => (name, some (d.store ref).contents.size)
  return sortBy (fun a b => decide (a.1 ≤ b.1)) sized

end Disk

end AppendStore
