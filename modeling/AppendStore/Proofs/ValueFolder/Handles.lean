import AppendStore.Proofs.ValueFolder.Files

/-!
# Handles of value files

A folder hands out its open files, and who holds one can go on using it after the folder has
closed the file. Each open file has an offset of its own. So a file that was closed and opened
again can be written at the same place through both: `Handles.old_handle_overwrites`.

What has been written to one file does not overlap as long as nothing is written through an
open file after a newer one of the same file (`Handles.apart_through_newest`). The invariant is
that the newest one is behind all that was written (`Session.Ordered.behind`), and it holds
whatever becomes of single writes.
-/

namespace AppendStore

namespace Host

variable {h h' : Host} {ref later : ValueFileRef} {f f' : ValueFile} {r r' : StoreRef}

def fileIds (h : Host) : List UInt64 := h.valueFiles.toList.map (·.item.id)

/-- No file of this id was opened later. -/
def IsNewest (h : Host) (ref : ValueFileRef) (id : UInt64) : Prop :=
  id ∉ h.fileIds.drop (ref.index + 1)

instance (h : Host) (ref : ValueFileRef) (id : UInt64) : Decidable (h.IsNewest ref id) :=
  inferInstanceAs (Decidable (id ∉ _))

theorem getElem?_fileIds (href : h.valueFile? ref = some ⟨f, r⟩) :
    h.fileIds[ref.index]? = some f.id := by
  rw [fileIds, List.getElem?_map, Array.getElem?_toList]
  exact congrArg (Option.map _) href

theorem fileIds_withValueFile {o : Over ValueFile ByteStore} (href : h.valueFile? ref = some ⟨f, r⟩)
    (hid : o.item.id = f.id) : (h.withValueFile ref r o).fileIds = h.fileIds := by
  rw [fileIds, withValueFile, Array.toList_setIfInBounds, List.map_set, hid]
  obtain ⟨hlt, hget⟩ := List.getElem?_eq_some_iff.1 (getElem?_fileIds href)
  rw [← hget]
  exact List.set_getElem_self hlt

theorem isNewest_withValueFile_iff {o : Over ValueFile ByteStore} {id : UInt64}
    (href : h.valueFile? ref = some ⟨f, r⟩) (hid : o.item.id = f.id) :
    (h.withValueFile ref r o).IsNewest later id ↔ h.IsNewest later id := by
  rw [IsNewest, fileIds_withValueFile href hid, IsNewest]

section Opening

variable {path : Path} {id id' : UInt64}

theorem fileIds_withFile (hfile : h.WithFile path id h') : h'.fileIds = h.fileIds ++ [id] := by
  obtain ⟨r, d, -, rfl⟩ := hfile
  rw [fileIds, withOpenedFile, Array.toList_push, List.map_append]
  rfl

theorem isNewest_withFile_self (hfile : h.WithFile path id h') :
    h'.IsNewest ⟨h.valueFiles.size⟩ id := by
  have hlength : (h.fileIds ++ [id]).length = h.valueFiles.size + 1 := by
    rw [List.length_append, fileIds, List.length_map, Array.length_toList, List.length_singleton]
  rw [IsNewest, fileIds_withFile hfile, List.drop_eq_nil_of_le (Nat.le_of_eq hlength)]
  exact List.not_mem_nil

theorem isNewest_withFile_iff (hfile : h.WithFile path id h') (hid : id' ≠ id) :
    h'.IsNewest ref id' ↔ h.IsNewest ref id' := by
  have hlast : id' ∉ [id].drop (ref.index + 1 - h.fileIds.length) :=
    fun hmem => hid (List.mem_singleton.1 (List.mem_of_mem_drop hmem))
  rw [IsNewest, fileIds_withFile hfile, List.drop_append, List.mem_append, not_or]
  exact and_iff_left hlast

end Opening

namespace IsNewest

variable {id : UInt64}

/-- Of two open files of one id the newest is not before the other. -/
theorem le (hnewest : h.IsNewest ref id) (hlater : h.valueFile? later = some ⟨f, r⟩)
    (hid : f.id = id) : later.index ≤ ref.index := by
  refine Nat.le_of_not_lt fun hlt => hnewest ?_
  obtain ⟨n, hn⟩ := Nat.exists_eq_add_of_le (Nat.succ_le_of_lt hlt)
  have hget := getElem?_fileIds hlater
  rw [hid, hn, ← List.getElem?_drop] at hget
  exact List.mem_of_getElem? hget

theorem unique (hnewest : h.IsNewest ref id) (hnewest' : h.IsNewest later id)
    (hopened : h.valueFile? ref = some ⟨f, r⟩) (hid : f.id = id)
    (hopened' : h.valueFile? later = some ⟨f', r'⟩) (hid' : f'.id = id) : ref = later := by
  have hindex := Nat.le_antisymm (hnewest'.le hopened hid) (hnewest.le hopened' hid')
  cases ref
  cases later
  exact congrArg ValueFileRef.mk hindex

/-- A file that was opened since takes the place of the newest. -/
theorem not_withFile {path : Path} (hfile : h.WithFile path id h')
    (hopened : h.valueFile? ref = some ⟨f, r⟩) : ¬ h'.IsNewest ref id := by
  intro hnewest
  obtain ⟨r', -, hnew⟩ := hfile.valueFile?_new
  have hle : h.valueFiles.size ≤ ref.index := hnewest.le hnew rfl
  obtain ⟨hlt, -⟩ := Array.getElem?_eq_some_iff.1 hopened
  exact Nat.not_lt_of_le hle hlt

end IsNewest

end Host

namespace ValueFolder

open ValueFile (recordOf storedLength)
open Host (valueFilePath)

namespace Handles

structure Written where
  id : UInt64
  start : Nat
  value : Bytes
  deriving DecidableEq

def Written.stop (w : Written) : Nat := w.start + storedLength w.value

/-- The two are in different files, or beside each other. -/
def Written.Apart (w w' : Written) : Prop := w.id = w'.id → w.stop ≤ w'.start ∨ w'.stop ≤ w.start

instance : DecidableRel Written.Apart := fun w w' =>
  inferInstanceAs (Decidable (w.id = w'.id → _))

inductive Request where
  | file (id : UInt64)
  | stored (id : UInt64)
  | write (id : UInt64) (value : Bytes)
  | close (id : UInt64)
  | through (k : Nat) (value : Bytes)

/-- A folder with the files that it has handed out, the oldest first, and what was written, the
newest first. -/
structure Session where
  folder : ValueFolder
  host : Host
  handles : List (UInt64 × ValueFileRef) := []
  written : List Written := []

namespace Session

def handOut (σ : Session) (id : UInt64) :
    EStateM.Result StoreError (Over ValueFolder Host) ValueFileRef → Session
  | .ok ref o =>
    { σ with folder := o.item, host := o.base, handles := σ.handles ++ [(id, ref)] }
  | .error _ o => { σ with folder := o.item, host := o.base }

def serve (σ : Session) : Request → Session
  | .file id => σ.handOut id (fileOrNew id ⟨σ.folder, σ.host⟩)
  | .stored id => σ.handOut id (storedFile id ⟨σ.folder, σ.host⟩)
  | .write id value =>
    match ValueFolder.write id value ⟨σ.folder, σ.host⟩ with
    | .ok p o =>
      { σ with
        folder := o.item
        host := o.base
        written := ⟨id, p.offset.toNat, value⟩ :: σ.written }
    | .error _ o => { σ with folder := o.item, host := o.base }
  | .close id =>
    match ValueFolder.close id ⟨σ.folder, σ.host⟩ with
    | .ok _ o => { σ with folder := o.item, host := o.base }
    | .error _ o => { σ with folder := o.item, host := o.base }
  | .through k value =>
    match σ.handles[k]? with
    | none => σ
    | some (id, ref) =>
      match Host.onValueFile ref (ValueFile.write value) σ.host with
      | .ok offset h => { σ with host := h, written := ⟨id, offset.toNat, value⟩ :: σ.written }
      | .error _ h => { σ with host := h }

def run (σ : Session) (requests : List Request) : Session := requests.foldl serve σ

def HasRoom (h : Host) (ref : ValueFileRef) (value : Bytes) : Prop :=
  ((h.valueFile? ref).map (·.item.offset.toNat)).getD 0 + storedLength value < UInt64.size

instance (h : Host) (ref : ValueFileRef) (value : Bytes) : Decidable (HasRoom h ref value) :=
  Nat.decLt _ _

/-- A value finds room, and it is not written through a file that was opened again since. -/
def Fair (σ : Session) : Request → Prop
  | .write id value => σ.folder.offsetOf id σ.host + storedLength value < UInt64.size
  | .through k value => ∀ e ∈ σ.handles[k]?, σ.host.IsNewest e.2 e.1 ∧ HasRoom σ.host e.2 value
  | _ => True

instance (σ : Session) : DecidablePred σ.Fair
  | .write _ _ => Nat.decLt _ _
  | .through k value => inferInstanceAs
    (Decidable (∀ e ∈ σ.handles[k]?, σ.host.IsNewest e.2 e.1 ∧ HasRoom σ.host e.2 value))
  | .file _ | .stored _ | .close _ => .isTrue trivial

def FairIn : Session → List Request → Prop
  | _, [] => True
  | σ, request :: rest => σ.Fair request ∧ (σ.serve request).FairIn rest

instance FairIn.decidable : (σ : Session) → (requests : List Request) →
    Decidable (σ.FairIn requests)
  | _, [] => .isTrue trivial
  | σ, request :: rest =>
    have := FairIn.decidable (σ.serve request) rest
    inferInstanceAs (Decidable (σ.Fair request ∧ (σ.serve request).FairIn rest))

end Session

/-- Both handles start at the end of the file that was found, so the second value takes the place of
the first. -/
theorem old_handle_overwrites :
    let host : Host := { disk := { directories := #[[], [("v", .directory ⟨2⟩)], []] } }
    let σ : Session := { folder := { dir := ⟨"v"⟩ }, host }
    let requests := [.file 1, .close 1, .write 1 [10], .through 0 [20]]
    attach ⟨"v"⟩ Host.empty = .ok σ.folder host ∧
      (σ.run requests).written = [⟨1, 0, [20]⟩, ⟨1, 0, [10]⟩] ∧
      ¬ (σ.run requests).written.Pairwise Written.Apart := by
  intro host σ requests
  have hwritten : (σ.run requests).written = [⟨1, 0, [20]⟩, ⟨1, 0, [10]⟩] := by decide +kernel
  refine ⟨rfl, hwritten, ?_⟩
  rw [hwritten]
  decide

def Measured (b : ByteStore) : Prop := b.Readable ∧ b.contents.size < UInt64.size

theorem measured_new : Measured (.onDisk []) := ⟨(ByteStore.plain_onDisk []).toReadable, by decide⟩

theorem Measured.torn {b b' : ByteStore} {off k : Nat} {value : Bytes} (hb : Measured b)
    (hroom : off + storedLength value < UInt64.size) (htorn : b.Torn off (recordOf value) k b') :
    Measured b' := by
  obtain ⟨hreadable, hsize⟩ := hb
  have htake := List.length_take_le' k (recordOf value)
  rw [ValueFile.length_recordOf] at htake
  have hbound := Contents.size_write_le (Nat.le_sub_one_of_lt hsize)
    (Nat.le_trans (Nat.add_le_add_left htake off) (Nat.le_sub_one_of_lt hroom))
  refine ⟨htorn.readable hreadable, ?_⟩
  rw [htorn.contents_eq]
  exact Nat.lt_of_le_of_lt hbound (by decide)

namespace Session

variable {σ : Session} {id id' : UInt64} {ref ref' : ValueFileRef} {value : Bytes} {h' : Host}
  {r : StoreRef} {w : Written}

def Knows (σ : Session) (id : UInt64) (ref : ValueFileRef) : Prop :=
  (id, ref) ∈ σ.handles ∨ σ.folder.file? id = some ref

def withOpen (σ : Session) (id : UInt64) (h' : Host) : Session :=
  { σ with folder := σ.folder.withOpen id ⟨σ.host.valueFiles.size⟩, host := h' }

/-- The session when a place was claimed for a value through an open file, whatever became of the
value. -/
def claimed (σ : Session) (ref : ValueFileRef) (value : Bytes) (f : ValueFile) (r : StoreRef)
    (b : ByteStore) : Session :=
  { σ with host := σ.host.withValueFile ref r ⟨f.claimed value, b⟩ }

theorem Knows.of_withOpen (hknows : (σ.withOpen id h').Knows id' ref) :
    σ.Knows id' ref ∨ id' = id ∧ ref = ⟨σ.host.valueFiles.size⟩ := by
  rcases hknows with hhandle | href
  · exact .inl (.inl hhandle)
  · by_cases hid : id' = id
    · subst hid
      exact .inr ⟨rfl, (Option.some.inj ((file?_withOpen _ _ _).symm.trans href)).symm⟩
    · exact .inl (.inr ((file?_withOpen_of_ne hid).symm.trans href))

/-- What was written is in the files, and every newest handle is behind it. -/
structure Ordered (σ : Session) : Prop where
  linked : σ.host.disk.Linked
  measured : EachFile Measured σ.host.disk
  known : ∀ {id ref}, σ.Knows id ref → ∃ f r, σ.host.valueFile? ref = some ⟨f, r⟩ ∧ f.id = id ∧
    σ.host.disk.Names (valueFilePath σ.folder.dir id) r
  newest : ∀ {id ref}, σ.folder.file? id = some ref → σ.host.IsNewest ref id
  reached : ∀ w ∈ σ.written, ∃ r, σ.host.disk.Names (valueFilePath σ.folder.dir w.id) r ∧
    w.stop ≤ (σ.host.disk.store r).contents.size
  behind : ∀ {id ref f r}, σ.Knows id ref → σ.host.IsNewest ref id →
    σ.host.valueFile? ref = some ⟨f, r⟩ → ∀ w ∈ σ.written, w.id = id → w.stop ≤ f.offset.toNat
  apart : σ.written.Pairwise Written.Apart

namespace Ordered

section Opening

variable (ho : σ.Ordered) (hfile : σ.host.WithFile (valueFilePath σ.folder.dir id) id h')

include ho hfile

theorem known_withOpen (hknows : (σ.withOpen id h').Knows id' ref) :
    ∃ f r, h'.valueFile? ref = some ⟨f, r⟩ ∧ f.id = id' ∧
      h'.disk.Names (valueFilePath σ.folder.dir id') r := by
  rcases hknows.of_withOpen with hold | ⟨rfl, rfl⟩
  · obtain ⟨f, r, hopened, hid, hnames⟩ := ho.known hold
    exact ⟨f, r, hfile.valueFile?_old hopened, hid, hnames.extended hfile.extended⟩
  · obtain ⟨r, hnames, hnew⟩ := hfile.valueFile?_new
    exact ⟨_, r, hnew, rfl, hnames⟩

theorem newest_withOpen (href : (σ.withOpen id h').folder.file? id' = some ref) :
    h'.IsNewest ref id' := by
  by_cases hid : id' = id
  · subst hid
    cases (file?_withOpen _ id' _).symm.trans href
    exact Host.isNewest_withFile_self hfile
  · have hold := (file?_withOpen_of_ne hid).symm.trans href
    exact (Host.isNewest_withFile_iff hfile hid).2 (ho.newest hold)

theorem reached_withOpen (hw : w ∈ σ.written) :
    ∃ r, h'.disk.Names (valueFilePath σ.folder.dir w.id) r ∧
      w.stop ≤ (h'.disk.store r).contents.size := by
  obtain ⟨r, hnames, hreached⟩ := ho.reached w hw
  refine ⟨r, hnames.extended hfile.extended, ?_⟩
  rw [hfile.store_old (hnames.lt ho.linked)]
  exact hreached

/-- A file that is opened starts behind all that was written to it. -/
theorem behind_new {f : ValueFile}
    (hopened : h'.valueFile? ⟨σ.host.valueFiles.size⟩ = some ⟨f, r⟩) (hw : w ∈ σ.written)
    (hid : w.id = id) : w.stop ≤ f.offset.toNat := by
  subst hid
  obtain ⟨r', hnames, hnew⟩ := hfile.valueFile?_new
  cases hnew.symm.trans hopened
  obtain ⟨hreadable, hsize⟩ :=
    (ho.measured.withFile ho.linked hfile measured_new).of_names hnames
  obtain ⟨r', hnames', hreached⟩ := ho.reached_withOpen hfile hw
  cases hnames.unique hnames'
  rw [Host.toNat_offset_openedAt hreadable hsize]
  exact hreached

theorem behind_withOpen {f : ValueFile} (hknows : (σ.withOpen id h').Knows id' ref)
    (hnewest : h'.IsNewest ref id') (hopened : h'.valueFile? ref = some ⟨f, r⟩)
    (hw : w ∈ σ.written) (hid : w.id = id') : w.stop ≤ f.offset.toNat := by
  rcases hknows.of_withOpen with hold | ⟨rfl, rfl⟩
  · obtain ⟨f', r', hopened', -, -⟩ := ho.known hold
    by_cases hsame : id' = id
    · subst hsame
      exact absurd hnewest (Host.IsNewest.not_withFile hfile hopened')
    · cases (hfile.valueFile?_old hopened').symm.trans hopened
      exact ho.behind hold ((Host.isNewest_withFile_iff hfile hsame).1 hnewest) hopened' w hw hid
  · exact ho.behind_new hfile hopened hw hid

theorem withOpen : (σ.withOpen id h').Ordered where
  linked := hfile.linked ho.linked
  measured := ho.measured.withFile ho.linked hfile measured_new
  known := ho.known_withOpen hfile
  newest := ho.newest_withOpen hfile
  reached := fun _ hw => ho.reached_withOpen hfile hw
  behind := fun hknows hnewest hopened _ hw hid =>
    ho.behind_withOpen hfile hknows hnewest hopened hw hid
  apart := ho.apart

end Opening

theorem handOut (ho : σ.Ordered) (href : σ.folder.file? id = some ref) :
    ({ σ with handles := σ.handles ++ [(id, ref)] } : Session).Ordered := by
  have hold : ∀ {id' ref'},
      ({ σ with handles := σ.handles ++ [(id, ref)] } : Session).Knows id' ref' →
      σ.Knows id' ref' := by
    rintro id' ref' (hhandle | hfiled)
    · rcases List.mem_append.1 hhandle with hmem | hmem
      · exact .inl hmem
      · cases List.mem_singleton.1 hmem
        exact .inr href
    · exact .inr hfiled
  exact { ho with
    known := fun hknows => ho.known (hold hknows)
    behind := fun hknows => ho.behind (hold hknows) }

section Writing

variable {f : ValueFile} {b : ByteStore} {k : Nat}

theorem known_claimed (ho : σ.Ordered) (hopened : σ.host.valueFile? ref = some ⟨f, r⟩)
    (hknows : σ.Knows id' ref') :
    ∃ f' r', (σ.claimed ref value f r b).host.valueFile? ref' = some ⟨f', r'⟩ ∧ f'.id = id' ∧
      (σ.host.disk.setStore r b).Names (valueFilePath σ.folder.dir id') r' := by
  obtain ⟨f', r', hopened', hid, hnames⟩ := ho.known hknows
  obtain ⟨f'', hopened'', hsame⟩ :=
    Host.exists_valueFile?_withValueFile (o := ⟨f.claimed value, b⟩) hopened rfl hopened'
  exact ⟨f'', r', hopened'', hsame.trans hid, hnames.setStore r b⟩

theorem reached_claimed (ho : σ.Ordered) (hr : r.index < σ.host.disk.stores.size)
    (hgrows : (σ.host.disk.store r).contents.size ≤ b.contents.size) (hw : w ∈ σ.written) :
    ∃ r', (σ.host.disk.setStore r b).Names (valueFilePath σ.folder.dir w.id) r' ∧
      w.stop ≤ ((σ.host.disk.setStore r b).store r').contents.size := by
  obtain ⟨r', hnames, hreached⟩ := ho.reached w hw
  refine ⟨r', hnames.setStore r b, ?_⟩
  by_cases hsame : r = r'
  · subst hsame
    rw [Disk.store_setStore hr]
    exact Nat.le_trans hreached hgrows
  · rw [Disk.store_setStore_of_ne hsame]
    exact hreached

theorem behind_claimed (ho : σ.Ordered) (hopened : σ.host.valueFile? ref = some ⟨f, r⟩)
    (hroom : f.offset.toNat + storedLength value < UInt64.size) (hknows : σ.Knows id' ref')
    (hnewest : σ.host.IsNewest ref' id') {f' : ValueFile} {r' : StoreRef}
    (hopened' : (σ.claimed ref value f r b).host.valueFile? ref' = some ⟨f', r'⟩)
    (hw : w ∈ σ.written) (hid : w.id = id') : w.stop ≤ f'.offset.toNat := by
  rcases Host.valueFile?_withValueFile_cases hopened hopened' with ⟨rfl, heq⟩ | ⟨-, hold⟩
  · cases heq
    have hbehind := ho.behind hknows hnewest hopened w hw hid
    rw [ValueFile.toNat_offset_claimed hroom]
    exact Nat.le_add_right_of_le hbehind
  · exact ho.behind hknows hnewest hold w hw hid

/-- A value that was only claimed a place for moves an offset on, and leaves what was written. -/
theorem claim (ho : σ.Ordered) (hknows : σ.Knows id ref)
    (hopened : σ.host.valueFile? ref = some ⟨f, r⟩)
    (hroom : f.offset.toNat + storedLength value < UInt64.size)
    (htorn : (σ.host.disk.store r).Torn f.offset.toNat (recordOf value) k b) :
    (σ.claimed ref value f r b).Ordered := by
  obtain ⟨f', r', hopened', -, hnames⟩ := ho.known hknows
  cases hopened'.symm.trans hopened
  have hr := hnames.lt ho.linked
  have hgrows : (σ.host.disk.store r).contents.size ≤ b.contents.size :=
    htorn.contents_eq ▸ Contents.size_le_size_write _ _ _
  exact
    { linked := ho.linked.setStore r b
      measured := ho.measured.setStore hr ((ho.measured.of_names hnames).torn hroom htorn)
      known := ho.known_claimed hopened
      newest := fun href => (Host.isNewest_withValueFile_iff hopened rfl).2 (ho.newest href)
      reached := fun _ hw => ho.reached_claimed hr hgrows hw
      behind := fun hknows' hnewest hopened' _ hw hid => ho.behind_claimed hopened hroom hknows'
        ((Host.isNewest_withValueFile_iff hopened rfl).1 hnewest) hopened' hw hid
      apart := ho.apart }

/-- The place that was claimed is behind all that was written before, and the newest handle of its
file, the one that was written through, is behind it. -/
theorem withWritten (ho : σ.Ordered) (hknows : σ.Knows id ref) (hnewest : σ.host.IsNewest ref id)
    (hopened : σ.host.valueFile? ref = some ⟨f, r⟩)
    (hroom : f.offset.toNat + storedLength value < UInt64.size)
    (htorn : (σ.host.disk.store r).Torn f.offset.toNat (recordOf value) (storedLength value) b) :
    ({ σ.claimed ref value f r b with
      written := ⟨id, f.offset.toNat, value⟩ :: σ.written } : Session).Ordered := by
  have hclaim := ho.claim hknows hopened hroom htorn
  obtain ⟨f₀, r₀, hopened₀, hid, hnames⟩ := ho.known hknows
  cases hopened₀.symm.trans hopened
  have hself : (σ.claimed ref value f r b).host.valueFile? ref = some ⟨f.claimed value, r⟩ :=
    Host.valueFile?_withValueFile hopened
  refine { hclaim with
    reached := fun w hw => ?_
    behind := fun {id' ref' f' r'} hknows' hnewest' hopened' w hw hid' => ?_
    apart := List.pairwise_cons.2 ⟨fun w hw hid' => .inr ?_, ho.apart⟩ }
  · rcases List.mem_cons.1 hw with rfl | hw
    · refine ⟨r, hnames.setStore r b, ?_⟩
      change _ ≤ ((σ.host.disk.setStore r b).store r).contents.size
      rw [Disk.store_setStore (hnames.lt ho.linked), htorn.contents_eq,
        ← ValueFile.length_recordOf value, List.take_length, ValueFile.size_write_recordOf]
      exact Nat.le_max_right _ _
    · exact hclaim.reached w hw
  · rcases List.mem_cons.1 hw with rfl | hw
    · subst hid'
      obtain ⟨f'', r'', hopened'', hsame, -⟩ := hclaim.known hknows'
      have hstill : (σ.claimed ref value f r b).host.IsNewest ref id :=
        (Host.isNewest_withValueFile_iff hopened rfl).2 hnewest
      cases hstill.unique hnewest' hself hid hopened'' hsame
      cases hself.symm.trans hopened'
      exact Nat.le_of_eq (ValueFile.toNat_offset_claimed hroom).symm
    · exact hclaim.behind hknows' hnewest' hopened' w hw hid'
  · exact ho.behind hknows hnewest hopened w hw hid'.symm

/-- A value is written behind all that was written before, if it is written at all. -/
theorem write (ho : σ.Ordered) (hknows : σ.Knows id ref) (hnewest : σ.host.IsNewest ref id)
    (hroom : HasRoom σ.host ref value) :
    (∃ offset h', Host.onValueFile ref (ValueFile.write value) σ.host = .ok offset h' ∧
        ({ σ with host := h', written := ⟨id, offset.toNat, value⟩ :: σ.written } :
          Session).Ordered) ∨
      ∃ e h', Host.onValueFile ref (ValueFile.write value) σ.host = .error e h' ∧
        ({ σ with host := h' } : Session).Ordered := by
  obtain ⟨f, r, hopened, -, hnames⟩ := ho.known hknows
  have hroom' : f.offset.toNat + storedLength value < UInt64.size := by
    simpa only [HasRoom, hopened, Option.map_some, Option.getD_some] using hroom
  rcases ValueFile.write_cases (ho.measured.of_names hnames).1 f value with
    ⟨b, hwrite, htorn⟩ | ⟨e, k, b, hwrite, htorn, -⟩
  · exact .inl ⟨_, _, Host.onValueFile_of_ok hopened hwrite,
      ho.withWritten hknows hnewest hopened hroom' htorn⟩
  · exact .inr ⟨_, _, Host.onValueFile_of_error hopened hwrite,
      ho.claim hknows hopened hroom' htorn⟩

end Writing

theorem close (ho : σ.Ordered) (id : UInt64) :
    ({ σ with folder := { σ.folder with files := σ.folder.files.filter (·.1 ≠ id) } } :
      Session).Ordered := by
  have hold : ∀ {id' ref}, ({ σ with
      folder := { σ.folder with files := σ.folder.files.filter (·.1 ≠ id) } } :
        Session).Knows id' ref → σ.Knows id' ref :=
    fun hknows => hknows.imp_right lookup_filter
  exact { ho with
    known := fun hknows => ho.known (hold hknows)
    newest := fun href => ho.newest (lookup_filter href)
    behind := fun hknows => ho.behind (hold hknows) }

theorem fileOrNew (ho : σ.Ordered) (id : UInt64) :
    (∃ e, ValueFolder.fileOrNew id ⟨σ.folder, σ.host⟩ = .error e ⟨σ.folder, σ.host⟩) ∨
      ∃ ref v h, ValueFolder.fileOrNew id ⟨σ.folder, σ.host⟩ = .ok ref ⟨v, h⟩ ∧
        v.file? id = some ref ∧ ({ σ with folder := v, host := h } : Session).Ordered ∧
        ∀ value, σ.Fair (.write id value) → HasRoom h ref value := by
  rcases fileOrNew_cases ho.linked σ.folder id with
    ⟨ref, href, hok⟩ | ⟨hclosed, ⟨e, herror⟩ | ⟨h', hok, hfile⟩⟩
  · refine .inr ⟨ref, σ.folder, σ.host, hok, href, ho, fun value hroom => ?_⟩
    simp only [Fair, offsetOf, href] at hroom
    exact hroom
  · exact .inl ⟨_, herror⟩
  · have hnext := ho.withOpen hfile
    refine .inr ⟨_, _, h', hok, file?_withOpen _ _ _, hnext, fun value hroom => ?_⟩
    obtain ⟨r, d, hopening, rfl⟩ := hfile
    obtain ⟨hreadable, hsize⟩ : Measured (d.store r) := hnext.measured.of_names hopening.names
    simp only [Fair, offsetOf, hclosed] at hroom
    rw [← hopening.sizeAt_eq, hopening.names.sizeAt_eq] at hroom
    simp only [HasRoom, Host.valueFile?_withOpenedFile, Option.map_some, Option.getD_some]
    rwa [Host.toNat_offset_openedAt hreadable hsize]

theorem storedFile (ho : σ.Ordered) (id : UInt64) :
    (∃ e, ValueFolder.storedFile id ⟨σ.folder, σ.host⟩ = .error e ⟨σ.folder, σ.host⟩) ∨
      ∃ ref v h, ValueFolder.storedFile id ⟨σ.folder, σ.host⟩ = .ok ref ⟨v, h⟩ ∧
        v.file? id = some ref ∧ ({ σ with folder := v, host := h } : Session).Ordered := by
  rcases storedFile_cases σ.folder σ.host id with
    ⟨ref, href, hok⟩ | ⟨-, ⟨e, herror, -⟩ | ⟨h', hok, hfile, -⟩⟩
  · exact .inr ⟨ref, σ.folder, σ.host, hok, href, ho⟩
  · exact .inl ⟨_, herror⟩
  · exact .inr ⟨_, _, h', hok, file?_withOpen _ _ _, ho.withOpen hfile⟩

theorem serve (ho : σ.Ordered) {request : Request} (hfair : σ.Fair request) :
    (σ.serve request).Ordered := by
  cases request with
  | file id =>
    rcases ho.fileOrNew id with ⟨e, herror⟩ | ⟨ref, v, h, hok, href, hnext, -⟩
    · simp only [Session.serve, Session.handOut, herror]
      exact ho
    · simp only [Session.serve, Session.handOut, hok]
      exact hnext.handOut href
  | stored id =>
    rcases ho.storedFile id with ⟨e, herror⟩ | ⟨ref, v, h, hok, href, hnext⟩
    · simp only [Session.serve, Session.handOut, herror]
      exact ho
    · simp only [Session.serve, Session.handOut, hok]
      exact hnext.handOut href
  | write id value =>
    rcases ho.fileOrNew id with ⟨e, herror⟩ | ⟨ref, v, h, hok, href, hnext, hroom⟩
    · have hwrite : ValueFolder.write id value ⟨σ.folder, σ.host⟩ = .error e ⟨σ.folder, σ.host⟩ :=
        Action.bind_of_error herror
      simp only [Session.serve, hwrite]
      exact ho
    · rcases hnext.write (.inr href) (hnext.newest href) (hroom value hfair) with
        ⟨offset, h', hon, hlast⟩ | ⟨e, h', hon, hlast⟩
      · have hwrite : ValueFolder.write id value ⟨σ.folder, σ.host⟩ =
            .ok ⟨id, offset, value.length⟩ ⟨v, h'⟩ :=
          (Action.bind_of_ok hok).trans (Action.bind_of_ok (Action.onBase_of_ok hon))
        simp only [Session.serve, hwrite]
        exact hlast
      · have hwrite : ValueFolder.write id value ⟨σ.folder, σ.host⟩ = .error e ⟨v, h'⟩ :=
          (Action.bind_of_ok hok).trans (Action.bind_of_error (Action.onBase_of_error hon))
        simp only [Session.serve, hwrite]
        exact hlast
  | close id => exact ho.close id
  | through k value =>
    cases hhandle : σ.handles[k]? with
    | none =>
      simp only [Session.serve, hhandle]
      exact ho
    | some e =>
      obtain ⟨id, ref⟩ := e
      obtain ⟨hnewest, hroom⟩ := hfair (id, ref) hhandle
      rcases ho.write (.inl (List.mem_of_getElem? hhandle)) hnewest hroom with
        ⟨offset, h', hon, hlast⟩ | ⟨e, h', hon, hlast⟩
      · simp only [Session.serve, hhandle, hon]
        exact hlast
      · simp only [Session.serve, hhandle, hon]
        exact hlast

theorem run {requests : List Request} (ho : σ.Ordered) (hfair : σ.FairIn requests) :
    (σ.run requests).Ordered := by
  induction requests generalizing σ with
  | nil => exact ho
  | cons request rest ih => exact ih (ho.serve hfair.1) hfair.2

end Ordered

end Session

/-- What is written to the files of a folder never overlaps, as long as a file that was closed is
not written through an older handle once it is open again. -/
theorem apart_through_newest {dir : Path} {h h' : Host} {v : ValueFolder}
    (hlinked : h.disk.Linked) (hmeasured : EachFile Measured h.disk)
    (hattach : attach dir h = .ok v h') {requests : List Request}
    (hfair : ({ folder := v, host := h' } : Session).FairIn requests) :
    (({ folder := v, host := h' } : Session).run requests).written.Pairwise Written.Apart := by
  obtain ⟨rfl, -, hlinked', hmeasured'⟩ := attach_eq_ok hlinked hmeasured hattach
  have hnone : ∀ {id ref}, ¬ ({ folder := { dir }, host := h' } : Session).Knows id ref := by
    rintro id ref (hhandle | href)
    · cases hhandle
    · cases href
  have hstart : ({ folder := { dir }, host := h' } : Session).Ordered :=
    ⟨hlinked', hmeasured', fun hknows => absurd hknows hnone, nofun, nofun,
      fun hknows => absurd hknows hnone, .nil⟩
  exact (hstart.run hfair).apart

/-- A handle is written through before its file is closed, and its successor after it. -/
theorem apart_through_newest_reopened :
    let host : Host := { disk := { directories := #[[], [("v", .directory ⟨2⟩)], []] } }
    let σ : Session := { folder := { dir := ⟨"v"⟩ }, host }
    let requests := [.file 1, .through 0 [10], .write 2 [], .close 1, .through 0 [20, 30],
      .stored 1, .through 1 [40], .write 1 [50]]
    Host.empty.disk.Linked ∧ EachFile Measured Host.empty.disk ∧
      attach ⟨"v"⟩ Host.empty = .ok σ.folder host ∧ σ.FairIn requests ∧
      (σ.run requests).written =
        [⟨1, 16, [50]⟩, ⟨1, 11, [40]⟩, ⟨1, 5, [20, 30]⟩, ⟨2, 0, []⟩, ⟨1, 0, [10]⟩] ∧
      (σ.run requests).written.Pairwise Written.Apart := by
  intro host σ requests
  have hattach : attach ⟨"v"⟩ Host.empty = .ok σ.folder host := rfl
  have hfair : σ.FairIn requests := by decide +kernel
  exact ⟨.empty, eachFile_empty _, hattach, hfair, by decide +kernel,
    apart_through_newest .empty (eachFile_empty _) hattach hfair⟩

end Handles

end ValueFolder

end AppendStore
