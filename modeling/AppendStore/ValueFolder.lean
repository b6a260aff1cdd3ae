import AppendStore.Host

/-!
# Value folders

A value folder is a directory of value files together with those of them that
are open. A file is opened when it is first needed and stays open until it is
closed; a holder of a closed file can still use it.
-/

namespace AppendStore

/-- A directory of value files. `files` are the open ones by their ids. -/
structure ValueFolder where
  dir : Path
  files : List (UInt64 × ValueFileRef) := []

namespace ValueFolder

def attach (dir : Path) : Action Host ValueFolder := do
  Host.makeDirectory dir
  return { dir }

def file? (v : ValueFolder) (id : UInt64) : Option ValueFileRef := v.files.lookup id

def openIds (v : ValueFolder) : List UInt64 :=
  sortBy (fun a b => decide (a ≤ b)) (v.files.map (·.1)).reverse

/-- An open file of the folder, or the one that `opening` gives. -/
def fileOr (opening : Path → UInt64 → Action Host ValueFileRef) (id : UInt64) :
    Action (Over ValueFolder Host) ValueFileRef := do
  let folder ← Action.item
  match folder.file? id with
  | some ref => return ref
  | none =>
    let ref ← Action.onBase (opening folder.dir id)
    Action.setItem { folder with files := (id, ref) :: folder.files }
    return ref

def fileOrNew : UInt64 → Action (Over ValueFolder Host) ValueFileRef := fileOr Host.openValueFile

def storedFile : UInt64 → Action (Over ValueFolder Host) ValueFileRef :=
  fileOr Host.reopenValueFile

def writeTo (id : UInt64) (ref : ValueFileRef) (value : Bytes) :
    Action (Over ValueFolder Host) ValuePointer := do
  let offset ← Action.onBase (Host.onValueFile ref (ValueFile.write value))
  return ⟨id, offset, value.length⟩

def write (id : UInt64) (value : Bytes) : Action (Over ValueFolder Host) ValuePointer := do
  let ref ← fileOrNew id
  writeTo id ref value

def read (p : ValuePointer) : Action (Over ValueFolder Host) Bytes := do
  let ref ← storedFile p.fileId
  Action.onBase (Host.onValueFile ref (ValueFile.read p.offset p.size))

def sync : Action (Over ValueFolder Host) Unit := do
  for (_, ref) in (← Action.item).files do
    Action.onBase (Host.onValueFile ref ValueFile.sync)

/-- Closes a file; the answer says whether it was open. -/
def close (id : UInt64) : Action (Over ValueFolder Host) Bool := do
  let folder ← Action.item
  Action.setItem { folder with files := folder.files.filter (·.1 ≠ id) }
  return (folder.file? id).isSome

def storedIds (v : ValueFolder) : Action Host (List UInt64) := Host.idsIn .value v.dir

end ValueFolder

end AppendStore
