import AppendStore.Host
import AppendStore.Proofs.Disk.Stores
import AppendStore.Proofs.Segment.Intact
import AppendStore.Proofs.Segment.Ledger

/-!
# Segments of a host

Running an action on an open segment changes that segment and its file, and no other
file and no directory (`Host.onSegment_of_ok`, `Host.withSegment`). Opening a file ends
as `Segment.found` says, and gives the file the size of its segment
(`Host.openSegment_of_found`, `Host.openSegment_of_error`).

So a log file whose ledger is known is opened as a segment of that ledger
(`Host.openSegment_of_file`), and a new one is made where there is none
(`Host.openSegment_of_free`). A directory of the same name is in the way of both. What
stands in a file without records makes no difference to its segment
(`Host.models_foundFile`).
-/

namespace AppendStore

namespace Host

variable {h : Host} {ref : SegmentRef} {r : StoreRef} {s : Segment} {o : Over Segment ByteStore}
  {α : Type} {x : Action (Over Segment ByteStore) α}

theorem onDisk_ofIo_of_ok {y : EStateM IoError Disk α} {a : α} {d : Disk}
    (hy : y h.disk = .ok a d) : onDisk (Action.ofIo y) h = .ok a { h with disk := d } := by
  simp only [onDisk, Action.zoom, Action.ofIo, hy]

theorem onDisk_ofIo_of_error {y : EStateM IoError Disk α} {e : IoError} {d : Disk}
    (hy : y h.disk = .error e d) :
    onDisk (Action.ofIo y) h = .error (.io e) { h with disk := d } := by
  simp only [onDisk, Action.zoom, Action.ofIo, hy]

theorem onDisk_ofIo_eq_ok {y : EStateM IoError Disk α} {a : α} {h' : Host}
    (hy : onDisk (Action.ofIo y) h = .ok a h') : y h.disk = .ok a h'.disk := by
  unfold onDisk Action.zoom Action.ofIo at hy
  cases hresult : y h.disk with
  | ok a' d =>
    rw [hresult] at hy
    cases hy
    rfl
  | error e d =>
    rw [hresult] at hy
    cases hy

def withStore (h : Host) (r : StoreRef) (b : ByteStore) : Host :=
  { h with disk := h.disk.setStore r b }

theorem onStore_of_ok {a : α} {b : ByteStore} {y : Action ByteStore α}
    (hy : y (h.disk.store r) = .ok a b) : onStore r y h = .ok a (h.withStore r b) := by
  simp only [onStore, onDisk, Disk.onStore, Action.zoom, hy, withStore]

theorem onStore_of_error {e : StoreError} {b : ByteStore} {y : Action ByteStore α}
    (hy : y (h.disk.store r) = .error e b) : onStore r y h = .error e (h.withStore r b) := by
  simp only [onStore, onDisk, Disk.onStore, Action.zoom, hy, withStore]

theorem withStore_self (h : Host) (r : StoreRef) : h.withStore r (h.disk.store r) = h := by
  rw [withStore, Disk.setStore_store]

/-- The host with another state of an open segment and of its file. -/
def withSegment (h : Host) (ref : SegmentRef) (r : StoreRef) (o : Over Segment ByteStore) : Host :=
  { h with
    disk := h.disk.setStore r o.base
    segments := h.segments.setIfInBounds ref.index ⟨o.item, r⟩ }

theorem onSegment_of_ok {a : α} (href : h.segment? ref = some ⟨s, r⟩)
    (hx : x ⟨s, h.disk.store r⟩ = .ok a o) :
    onSegment ref x h = .ok a (h.withSegment ref r o) := by
  simp only [onSegment, href, hx, withSegment]

theorem onSegment_of_error {e : StoreError} (href : h.segment? ref = some ⟨s, r⟩)
    (hx : x ⟨s, h.disk.store r⟩ = .error e o) :
    onSegment ref x h = .error e (h.withSegment ref r o) := by
  simp only [onSegment, href, hx, withSegment]

theorem segment?_withSegment (href : h.segment? ref = some ⟨s, r⟩) :
    (h.withSegment ref r o).segment? ref = some ⟨o.item, r⟩ := by
  obtain ⟨hlt, -⟩ := Array.getElem?_eq_some_iff.1 href
  exact Array.getElem?_setIfInBounds_self_of_lt hlt

theorem withSegment_self (href : h.segment? ref = some ⟨s, r⟩) :
    h.withSegment ref r ⟨s, h.disk.store r⟩ = h := by
  have hsegments : h.segments.setIfInBounds ref.index ⟨s, r⟩ = h.segments := by
    apply Array.ext_getElem?
    intro i
    rw [Array.getElem?_setIfInBounds]
    by_cases hi : ref.index = i
    · subst hi
      obtain ⟨hlt, -⟩ := Array.getElem?_eq_some_iff.1 href
      rw [if_pos rfl, if_pos hlt]
      exact href.symm
    · rw [if_neg hi]
  rw [withSegment, Disk.setStore_store, hsegments]

section Opening

open Segment

variable {dir : Path} {trail : List DirectoryRef} {id : UInt64} {capacity : UInt32} {d : Disk}
  {e : StoreError}

theorem attachLogFile_of_large (hsize : wordSize < (h.disk.store r).contents.size) :
    attachLogFile r id capacity h = onStore r (resume id) h := by
  unfold attachLogFile
  rw [Action.get_bind, if_neg (Nat.not_le_of_lt hsize)]

def newLogFile (id : UInt64) (capacity : UInt32) (b : ByteStore) : ByteStore :=
  let b := b.withContents (b.contents.write 0 (fresh id capacity).cursors.bytes)
  b.withContents (b.contents.resize capacity.toNat)

/-- A file with no more than a word in it becomes a new log file. -/
theorem attachLogFile_of_small (hplain : (h.disk.store r).Plain)
    (hsmall : (h.disk.store r).contents.size ≤ wordSize) (hroom : r.index < h.disk.stores.size)
    (hcapacity : CapacityOk capacity) :
    attachLogFile r id capacity h = .ok (fresh id capacity)
      (h.withStore r (newLogFile id capacity (h.disk.store r))) := by
  have hstart := start_of_plain hplain id capacity
  rw [started, if_pos hcapacity, opened] at hstart
  unfold attachLogFile newLogFile
  rw [Action.get_bind, if_pos hsmall, Action.bind_of_ok (onStore_of_ok hstart)]
  generalize (h.disk.store r).withContents _ = b
  have hstore : (h.withStore r b).disk.store r = b := Disk.store_setStore hroom
  have hresize : (modify fun s : ByteStore => { s with contents := s.contents.resize capacity.toNat } :
      Action ByteStore Unit) ((h.withStore r b).disk.store r) =
      .ok () (b.withContents (b.contents.resize capacity.toNat)) := by
    rw [hstore]
    rfl
  have htwice : (h.withStore r b).withStore r (b.withContents (b.contents.resize capacity.toNat)) =
      h.withStore r (b.withContents (b.contents.resize capacity.toNat)) := by
    simp only [withStore, Disk.setStore, Array.setIfInBounds_setIfInBounds]
  rw [Action.bind_of_ok (onStore_of_ok hresize), htwice]
  rfl

def foundFile (b : ByteStore) (s : Segment) : ByteStore :=
  b.withContents ((b.contents.write 0 s.cursors.bytes).extend s.capacity.toNat)

theorem newLogFile_eq {b : ByteStore} (hsmall : b.contents.size ≤ wordSize)
    (hcapacity : CapacityOk capacity) : newLogFile id capacity b = foundFile b (fresh id capacity) := by
  have hlen := Cursors.length_bytes (fresh id capacity).cursors
  have hroom := Nat.le_of_lt hcapacity.wordSize_lt
  have hsize : (b.contents.write 0 (fresh id capacity).cursors.bytes).size ≤ capacity.toNat :=
    Contents.size_write_le (Nat.le_trans hsmall hroom) (by rwa [hlen, Nat.zero_add])
  exact congrArg b.withContents (Contents.resize_eq_extend hsize)

theorem attachLogFile_of_found (hplain : (h.disk.store r).Plain)
    (hroom : r.index < h.disk.stores.size)
    (hfound : found id capacity (h.disk.store r).contents = .ok s) :
    attachLogFile r id capacity h = .ok s (h.withStore r (foundFile (h.disk.store r) s)) := by
  unfold found at hfound
  split at hfound
  · next hsmall =>
    obtain ⟨hcapacity, rfl⟩ := started_eq_ok hfound
    rw [attachLogFile_of_small hplain hsmall hroom hcapacity, newLogFile_eq hsmall hcapacity]
  · next hlarge =>
    have hlt := Nat.lt_of_not_le hlarge
    have hresume := resume_of_plain hplain (Nat.le_of_lt hlt) id
    rw [hfound] at hresume
    obtain ⟨-, hcapacity⟩ := sound_of_resumed hfound
    have hextend : ((h.disk.store r).contents.write 0 s.cursors.bytes).extend s.capacity.toNat =
        (h.disk.store r).contents.write 0 s.cursors.bytes :=
      Contents.extend_of_le (hcapacity ▸ Contents.size_le_size_write _ _ _)
    rw [attachLogFile_of_large hlt, onStore_of_ok hresume, foundFile, hextend]

/-- A file of the size of its segment stays as it is when the segment is found again. -/
theorem foundFile_again {asked : UInt32} {b : ByteStore} (hs : Intact asked s b)
    (hsize : s.capacity.toNat ≤ b.contents.size) : foundFile b (s.again id) = b := by
  have hextend : (b.contents.write 0 (s.again id).cursors.bytes).extend s.capacity.toNat =
      b.contents.write 0 (s.again id).cursors.bytes :=
    Contents.extend_of_le (Nat.le_trans hsize (Contents.size_le_size_write _ _ _))
  exact (congrArg b.withContents hextend).trans (hs.write_again id)

theorem attachLogFile_of_error (hplain : (h.disk.store r).Plain)
    (hfound : found id capacity (h.disk.store r).contents = .error e) :
    attachLogFile r id capacity h = .error e h := by
  unfold found at hfound
  split at hfound
  · next hsmall =>
    have hstart := start_of_plain hplain id capacity
    rw [hfound] at hstart
    have hfail := onStore_of_error hstart
    rw [withStore_self] at hfail
    unfold attachLogFile
    rw [Action.get_bind, if_pos hsmall, Action.bind_of_error hfail]
  · next hlarge =>
    have hlt := Nat.lt_of_not_le hlarge
    have hresume := resume_of_plain hplain (Nat.le_of_lt hlt) id
    rw [hfound] at hresume
    rw [attachLogFile_of_large hlt, onStore_of_error hresume, withStore_self]

def withOpened (h : Host) (s : Segment) (r : StoreRef) : Host :=
  { h with segments := h.segments.push ⟨s, r⟩ }

theorem segment?_withOpened (h : Host) (s : Segment) (r : StoreRef) :
    (h.withOpened s r).segment? ⟨h.segments.size⟩ = some ⟨s, r⟩ :=
  Array.getElem?_push_size

theorem segment?_withOpened_of_some {ref : SegmentRef} {opened : Opened Segment}
    (href : h.segment? ref = some opened) (s : Segment) (r : StoreRef) :
    (h.withOpened s r).segment? ref = some opened := by
  obtain ⟨hlt, hget⟩ := Array.getElem?_eq_some_iff.1 href
  exact (Array.getElem?_push_lt hlt).trans (congrArg some hget)

theorem maxNameBytes_of (kind : FileKind) (id : UInt64) :
    (FileName.of kind id).utf8ByteSize ≤ Path.maxNameBytes := by
  rw [FileName.utf8ByteSize_of]
  decide

theorem openSegment_of_found (hopen : Disk.openOrCreate (segmentPath dir id) h.disk = .ok r d)
    (hplain : (d.store r).Plain) (hroom : r.index < d.stores.size)
    (hfound : found id capacity (d.store r).contents = .ok s) :
    openSegment dir id capacity h = .ok ⟨h.segments.size⟩
      (({ h with disk := d }.withStore r (foundFile (d.store r) s)).withOpened
        { s with path := some (segmentPath dir id) } r) := by
  have hattach := attachLogFile_of_found (h := { h with disk := d }) hplain hroom hfound
  unfold openSegment
  rw [Action.bind_of_ok (onDisk_ofIo_of_ok hopen), Action.bind_of_ok hattach]
  rfl

theorem openSegment_of_error (hopen : Disk.openOrCreate (segmentPath dir id) h.disk = .ok r d)
    (hplain : (d.store r).Plain) (hfound : found id capacity (d.store r).contents = .error e) :
    openSegment dir id capacity h = .error e { h with disk := d } := by
  have hattach := attachLogFile_of_error (h := { h with disk := d }) hplain hfound
  unfold openSegment
  rw [Action.bind_of_ok (onDisk_ofIo_of_ok hopen), Action.bind_of_error hattach]

theorem openSegment_of_directory {ref : DirectoryRef} (hleads : h.disk.Leads dir trail)
    (hrefusal : (dir.join (FileName.of .log id)).refusal? = none)
    (hfound : (h.disk.children (Disk.lastOf trail)).lookup (FileName.of .log id) =
      some (.directory ref)) :
    openSegment dir id capacity h = .error (.io (.refused .isADirectory)) h := by
  have hrefused := Disk.openOrCreate_of_directory hleads (FileName.plainName .log id) hrefusal
    (maxNameBytes_of .log id) hfound
  have hopen : onDisk (Action.ofIo (Disk.openOrCreate (segmentPath dir id))) h =
      .error (.io (.refused .isADirectory)) h := by
    simp only [onDisk, Action.zoom, Action.ofIo, segmentPath, hrefused]
  unfold openSegment
  rw [Action.bind_of_error hopen]

/-- A log file that is there is opened with its records. -/
theorem openSegment_of_file {l : Ledger} (hleads : h.disk.Leads dir trail)
    (hrefusal : (dir.join (FileName.of .log id)).refusal? = none)
    (hfound : (h.disk.children (Disk.lastOf trail)).lookup (FileName.of .log id) = some (.file r))
    (hroom : r.index < h.disk.stores.size) (hstored : l.Stored (h.disk.store r)) :
    ∃ s, openSegment dir id capacity h = .ok ⟨h.segments.size⟩ (h.withOpened s r) ∧ s.id = id ∧
      l.Models s (h.disk.store r) := by
  obtain ⟨hsize, s, hmodels⟩ := hstored
  have hopen := Disk.openOrCreate_of_file hleads (FileName.plainName .log id) hrefusal
    (maxNameBytes_of .log id) hfound
  have hintact := hmodels.intact_of_size hsize capacity
  have hsegment := openSegment_of_found hopen hmodels.plain hroom (hintact.found_eq id)
  have hle : s.capacity.toNat ≤ (h.disk.store r).contents.size :=
    Nat.le_of_eq (hmodels.capacity ▸ hsize.symm)
  rw [foundFile_again hintact hle, withStore_self] at hsegment
  exact ⟨_, hsegment, rfl, (hmodels.again id).renamed _⟩

/-- A log file without records is given the size of the segment that is found in it. -/
theorem models_foundFile {b : ByteStore} (hbarren : Barren id b)
    (hfound : found id capacity b.contents = .ok s) :
    (⟨s.capacity, []⟩ : Ledger).Models s (foundFile b s) ∧
      (foundFile b s).contents.size = s.capacity.toNat := by
  have hintact := intact_of_found hbarren.plain hfound
  obtain ⟨hcapacity, hfresh⟩ := hbarren.fresh hfound
  refine ⟨?_, Nat.max_eq_right hintact.size_le⟩
  have hextended := hintact.extended
  rw [hfresh] at hextended ⊢
  exact .of_fresh hextended hbarren.durable hcapacity

/-- A log file that is not there is made. -/
theorem openSegment_of_free (hleads : h.disk.Leads dir trail)
    (hrefusal : (dir.join (FileName.of .log id)).refusal? = none)
    (hroom : (Disk.lastOf trail).index < h.disk.directories.size)
    (hfree : (h.disk.children (Disk.lastOf trail)).lookup (FileName.of .log id) = none)
    (hcapacity : CapacityOk capacity) :
    ∃ s d b, openSegment dir id capacity h = .ok ⟨h.segments.size⟩
        (({ h with disk := d }.withStore ⟨h.disk.stores.size⟩ b).withOpened s ⟨h.disk.stores.size⟩) ∧
      h.disk.Grown (Disk.lastOf trail) (FileName.of .log id) (.onDisk []) d ∧ s.id = id ∧
      (⟨capacity, []⟩ : Ledger).Models s b ∧ b.contents.size = capacity.toNat := by
  obtain ⟨d, hcreate, hgrown⟩ := Disk.openOrCreate_of_free hleads (FileName.plainName .log id)
    hrefusal (maxNameBytes_of .log id) hroom hfree
  have hplain := ByteStore.plain_onDisk []
  have hsmall : (ByteStore.onDisk []).contents.size ≤ wordSize := Nat.zero_le _
  have hnew := hgrown.store_new
  have hfound : found id capacity (d.store ⟨h.disk.stores.size⟩).contents =
      .ok (fresh id capacity) := found_of_small (hnew ▸ hsmall) hcapacity
  have hbarren : Barren id (d.store ⟨h.disk.stores.size⟩) :=
    hnew ▸ barren_of_small hplain (by decide) hsmall id
  have hopen := openSegment_of_found hcreate hbarren.plain hgrown.lt_size hfound
  obtain ⟨hmodels, hsize⟩ := models_foundFile hbarren hfound
  exact ⟨_, d, _, hopen, hgrown, rfl, hmodels.renamed _, hsize⟩

end Opening

end Host

end AppendStore
