import AppendStore.Journal.Basic
import AppendStore.ValueFolder

/-!
# Stores

A store is a journal of transactions beside a folder of values. The two are kept
apart: a commit goes to the journal only, and values are written where the caller
asks for them.
-/

namespace AppendStore

structure Store where
  config : Config
  journal : Journal
  values : ValueFolder

namespace Store

def attach (config : Config) : Action Host Store := do
  Action.ofExcept config.check
  let journal ← Journal.attach config
  let values ← ValueFolder.attach config.valueDir
  return { config, journal, values }

def onJournal {α : Type} (x : Action (Over Journal Host) α) : Action (Over Store Host) α :=
  Action.zoom (fun o => ⟨o.item.journal, o.base⟩)
    (fun p o => ⟨{ o.item with journal := p.item }, p.base⟩) x

def onValues {α : Type} (x : Action (Over ValueFolder Host) α) : Action (Over Store Host) α :=
  Action.zoom (fun o => ⟨o.item.values, o.base⟩)
    (fun p o => ⟨{ o.item with values := p.item }, p.base⟩) x

def commit (t : Transaction) : Action (Over Store Host) Appended := onJournal (Journal.append t)

/-- Stores the values that a transaction sets in one file and answers their places. -/
def storeValues (id : UInt64) (t : Transaction) : Action (Over Store Host) (List ValuePointer) :=
  onValues do
    let ref ← ValueFolder.fileOrNew id
    t.values.mapM (ValueFolder.writeTo id ref)

def valueAt (p : ValuePointer) : Action (Over Store Host) Bytes := onValues (ValueFolder.read p)

def sync : Action (Over Store Host) Unit := do
  onJournal Journal.sync
  onValues ValueFolder.sync

def close (store : Store) : Action Host Unit := fun h =>
  match sync ⟨store, h⟩ with
  | .ok () o => .ok () o.base
  | .error e o => .error e o.base

end Store

end AppendStore
