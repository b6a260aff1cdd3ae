import AppendStore.Proofs.Host.ValueFiles
import AppendStore.Proofs.Segment.Reading
import AppendStore.Store

/-!
# Refused settings

Settings are looked at where something is opened. Whatever is done with a value folder or with
an open segment afterwards can fail for many reasons, but none of them is that settings are
refused (`StoreError.NotConfig`).
-/

namespace AppendStore

open AppendStore.Action (FailsAs)

namespace StoreError

def isConfig : StoreError → Bool
  | config _ => true
  | _ => false

/-- The settings are not what is wrong. -/
def NotConfig (e : StoreError) : Prop := e.isConfig = false

instance : DecidablePred NotConfig := fun e => inferInstanceAs (Decidable (e.isConfig = false))

theorem notConfig_io (e : IoError) : NotConfig (.io e) := rfl

end StoreError

open StoreError (NotConfig notConfig_io)

namespace Host

variable {P : StoreError → Prop} {α : Type}

theorem failsAs_onValueFile {x : Action (Over ValueFile ByteStore) α} (hx : FailsAs P x)
    (hnone : P dangling) (ref : ValueFileRef) : FailsAs P (onValueFile ref x) := by
  intro h e h' herror
  unfold onValueFile at herror
  split at herror
  · cases herror
    exact hnone
  · split at herror
    · cases herror
    · next o hresult =>
      cases herror
      exact hx _ e o hresult

theorem failsAs_onSegment {x : Action (Over Segment ByteStore) α} (hx : FailsAs P x)
    (hnone : P dangling) (ref : SegmentRef) : FailsAs P (onSegment ref x) := by
  intro h e h' herror
  unfold onSegment at herror
  split at herror
  · cases herror
    exact hnone
  · split at herror
    · cases herror
    · next o hresult =>
      cases herror
      exact hx _ e o hresult

theorem notConfig_onDisk (x : EStateM IoError Disk α) :
    FailsAs NotConfig (onDisk (Action.ofIo x)) :=
  (FailsAs.ofIo notConfig_io x).zoom _ _

theorem notConfig_attachValueFileAt (path : Path) (id : UInt64) (r : StoreRef) :
    FailsAs NotConfig (attachValueFileAt path id r) :=
  .of_ok fun h => ⟨_, _, attachValueFileAt_eq path id r h⟩

end Host

namespace ValueFile

theorem notConfig_write (value : Bytes) : FailsAs NotConfig (write value) := by
  have hclaim : FailsAs NotConfig (claim (storedLength value)) :=
    .bind .item fun _ => .bind (.setItem _) fun _ => .pure _
  have hchecksum : FailsAs NotConfig
      (Action.ofExcept (Checksum.of value) : Action (Over ValueFile ByteStore) UInt32) :=
    .ofExcept fun e herror => nomatch (Checksum.of_eq value).symm.trans herror
  refine hclaim.bind fun offset => hchecksum.bind fun checksum =>
    .bind ((FailsAs.ofIo notConfig_io _).zoom _ _) fun n => ?_
  split
  · exact .pure _
  · exact .throw rfl

theorem notConfig_readRecord {size : Nat} {record : Bytes} {e : StoreError}
    (herror : readRecord size record = .error e) : NotConfig e := by
  unfold readRecord at herror
  simp only [Checksum.of_eq] at herror
  split at herror
  · cases herror
  · cases herror
    rfl

theorem notConfig_read (offset : UInt64) (size : Nat) : FailsAs NotConfig (read offset size) := by
  refine .bind .get fun file => ?_
  have hrest : FailsAs NotConfig (do
      let record ← Action.onBase (Action.ofIo
        (ByteStore.readSpan (size + checksumSize) offset.toNat))
      if record.length ≠ size + checksumSize then
        throw (.incompleteValue (size + checksumSize) record.length)
      Action.ofExcept (readRecord size record) : Action (Over ValueFile ByteStore) Bytes) := by
    refine .bind ((FailsAs.ofIo notConfig_io _).zoom _ _) fun record => ?_
    dsimp only
    split
    · exact .bind (.throw rfl) fun _ => .ofExcept fun e => notConfig_readRecord
    · exact .ofExcept fun e => notConfig_readRecord
  dsimp only
  split
  · exact .bind (.throw rfl) fun _ => hrest
  · exact hrest

theorem notConfig_sync : FailsAs NotConfig sync := (FailsAs.ofIo notConfig_io _).zoom _ _

end ValueFile

namespace ValueFolder

theorem notConfig_onFile {α : Type} {x : Action (Over ValueFile ByteStore) α}
    (hx : FailsAs NotConfig x) (ref : ValueFileRef) :
    FailsAs NotConfig
      (Action.onBase (Host.onValueFile ref x) : Action (Over ValueFolder Host) α) :=
  (Host.failsAs_onValueFile hx rfl ref).zoom _ _

theorem notConfig_fileOr {opening : Path → UInt64 → Action Host ValueFileRef}
    (hopening : ∀ dir id, FailsAs NotConfig (opening dir id)) (id : UInt64) :
    FailsAs NotConfig (fileOr opening id) := by
  refine .bind .item fun folder => ?_
  cases folder.file? id with
  | some ref => exact .pure ref
  | none => exact .bind ((hopening _ _).zoom _ _) fun _ => .bind (.setItem _) fun _ => .pure _

theorem notConfig_fileOrNew (id : UInt64) : FailsAs NotConfig (fileOrNew id) :=
  notConfig_fileOr (fun _ _ => .bind (Host.notConfig_onDisk _) fun _ =>
    Host.notConfig_attachValueFileAt _ _ _) id

theorem notConfig_storedFile (id : UInt64) : FailsAs NotConfig (storedFile id) :=
  notConfig_fileOr (fun _ _ => .bind (Host.notConfig_onDisk _) fun _ =>
    Host.notConfig_attachValueFileAt _ _ _) id

theorem notConfig_writeTo (id : UInt64) (ref : ValueFileRef) (value : Bytes) :
    FailsAs NotConfig (writeTo id ref value) :=
  .bind (notConfig_onFile (ValueFile.notConfig_write value) ref) fun _ => .pure _

theorem notConfig_writeAll (id : UInt64) (values : List Bytes) :
    FailsAs NotConfig (fileOrNew id >>= fun ref => values.mapM (writeTo id ref)) :=
  .bind (notConfig_fileOrNew id) fun ref => .mapM (notConfig_writeTo id ref) values

theorem notConfig_write (id : UInt64) (value : Bytes) : FailsAs NotConfig (write id value) :=
  .bind (notConfig_fileOrNew id) fun ref => notConfig_writeTo id ref value

theorem notConfig_read (p : ValuePointer) : FailsAs NotConfig (read p) :=
  .bind (notConfig_storedFile p.fileId) fun ref =>
    notConfig_onFile (ValueFile.notConfig_read _ _) ref

theorem notConfig_close (id : UInt64) : FailsAs NotConfig (close id) :=
  .bind .item fun _ => .bind (.setItem _) fun _ => .pure _

theorem notConfig_sync : FailsAs NotConfig sync := by
  refine .bind .item fun folder => .bind (.forIn (fun e _ => ?_) _ _) fun _ => .pure _
  exact .bind (notConfig_onFile ValueFile.notConfig_sync e.2) fun _ => .pure _

end ValueFolder

namespace Segment

theorem notConfig_readWhole (len off : Nat) : FailsAs NotConfig (readWhole len off) := by
  refine .bind (.ofIo notConfig_io _) fun bs => ?_
  split
  · exact .pure _
  · exact .throw rfl

theorem notConfig_readBody {header : RecordHeader} {body : Bytes} {e : StoreError}
    (herror : readBody header body = .error e) : NotConfig e := by
  obtain ⟨fault, rfl⟩ := readBody_eq_error herror
  rfl

theorem notConfig_transactionOf (header : RecordHeader) :
    FailsAs NotConfig (transactionOf header) := by
  refine .bind .item fun segment => ?_
  split
  · exact .bind ((notConfig_readWhole _ _).zoom _ _) fun _ =>
      .ofExcept fun e => notConfig_readBody
  · exact .throw rfl

theorem notConfig_recordsOf (headers : List RecordHeader) :
    FailsAs NotConfig (recordsOf headers) := by
  induction headers with
  | nil => exact .pure []
  | cons header headers ih =>
    exact .bind (.attempt _) fun _ => .bind ih fun _ => .pure _

theorem notConfig_records : FailsAs NotConfig records :=
  .bind (.bind .item fun _ => .bind ((notConfig_readWhole _ _).zoom _ _) fun _ => .pure _)
    notConfig_recordsOf

end Segment

end AppendStore
