import AppendStore.Store
import AppendStore.Text.Quoted

/-!
# Diagnostics

One-line descriptions of open objects: the name of the kind, and its fields
between braces.
-/

namespace AppendStore

namespace Text

def record (name : String) (fields : List (String × String)) : String :=
  let body := String.intercalate ", " (fields.map fun (field, value) => field ++ ": " ++ value)
  name ++ " \x7b " ++ body ++ " \x7d"

def optionalPath : Option Path → String
  | some p => "Some(" ++ quoted p.text ++ ")"
  | none => "None"

def idList (ids : List UInt64) : String :=
  "[" ++ String.intercalate ", " (ids.map toString) ++ "]"

end Text

def Segment.describe (s : Segment) : String :=
  Text.record "WalSegment" [
    ("id", toString s.id),
    ("path", Text.optionalPath s.path),
    ("capacity", toString s.capacity),
    ("cursors", s!"({s.cursors.front}, {s.cursors.back})")]

def ValueFile.describe (f : ValueFile) : String :=
  Text.record "ValueFile" [
    ("file_id", toString f.id),
    ("path", Text.optionalPath f.path),
    ("offset", toString f.offset)]

def Journal.describe (j : Journal) (active : UInt64) : String :=
  Text.record "WalManager" [
    ("dir", Text.quoted j.dir.text),
    ("max_segment_size", toString j.sizeLimit),
    ("segment_capacity", toString j.segmentCapacity),
    ("active", toString active)]

def ValueFolder.describe (v : ValueFolder) : String :=
  Text.record "ValueManager" [
    ("dir", Text.quoted v.dir.text),
    ("open_files", Text.idList v.openIds)]

def SyncPolicy.describe : SyncPolicy → String
  | everyWrite => "EveryWrite"
  | everyEntries count => Text.record "EveryNEntries" [("count", toString count)]
  | manual => "Manual"

def Config.describe (c : Config) : String :=
  Text.record "Config" [
    ("wal_dir", Text.quoted c.logDir.text),
    ("max_wal_segment_size", toString c.sizeLimit),
    ("wal_segment_capacity", toString c.segmentCapacity),
    ("wal_sync_strategy", c.syncPolicy.describe),
    ("value_dir", Text.quoted c.valueDir.text)]

def Store.describe (s : Store) (active : UInt64) : String :=
  Text.record "Store" [
    ("config", s.config.describe),
    ("wal", s.journal.describe active),
    ("values", s.values.describe)]

end AppendStore
