import AppendStore.Proofs.Disk.Naming
import AppendStore.Proofs.Host.Segments

/-!
# Value files of a host

Running an action on an open value file changes that file and its bytes, and nothing else
(`Host.onValueFile_of_ok`, `Host.withValueFile`). Opening a value file by its directory and
id either fails and leaves the host as it is, or adds one open file that starts at the size
found (`Host.openValueFile_cases`, `Host.reopenValueFile_cases`).
-/

namespace AppendStore

namespace Host

variable {h : Host} {ref ref' : ValueFileRef} {r : StoreRef} {f : ValueFile}
  {o : Over ValueFile ByteStore} {opened : Opened ValueFile} {α : Type}

def withValueFile (h : Host) (ref : ValueFileRef) (r : StoreRef) (o : Over ValueFile ByteStore) :
    Host :=
  { h with
    disk := h.disk.setStore r o.base
    valueFiles := h.valueFiles.setIfInBounds ref.index ⟨o.item, r⟩ }

section Action

variable {x : Action (Over ValueFile ByteStore) α}

theorem onValueFile_of_ok {a : α} (href : h.valueFile? ref = some ⟨f, r⟩)
    (hx : x ⟨f, h.disk.store r⟩ = .ok a o) :
    onValueFile ref x h = .ok a (h.withValueFile ref r o) := by
  simp only [onValueFile, href, hx, withValueFile]

theorem onValueFile_of_error {e : StoreError} (href : h.valueFile? ref = some ⟨f, r⟩)
    (hx : x ⟨f, h.disk.store r⟩ = .error e o) :
    onValueFile ref x h = .error e (h.withValueFile ref r o) := by
  simp only [onValueFile, href, hx, withValueFile]

end Action

theorem valueFile?_withValueFile (href : h.valueFile? ref = some ⟨f, r⟩) :
    (h.withValueFile ref r o).valueFile? ref = some ⟨o.item, r⟩ := by
  obtain ⟨hlt, -⟩ := Array.getElem?_eq_some_iff.1 href
  exact Array.getElem?_setIfInBounds_self_of_lt hlt

theorem valueFile?_withValueFile_of_ne (hne : ref ≠ ref') :
    (h.withValueFile ref r o).valueFile? ref' = h.valueFile? ref' := by
  have hindex : ref.index ≠ ref'.index := by
    intro heq
    cases ref
    cases ref'
    exact hne (congrArg ValueFileRef.mk heq)
  exact Array.getElem?_setIfInBounds_ne hindex

theorem valueFile?_withValueFile_cases (href : h.valueFile? ref = some ⟨f, r⟩)
    (hopened : (h.withValueFile ref r o).valueFile? ref' = some opened) :
    ref = ref' ∧ opened = ⟨o.item, r⟩ ∨ ref ≠ ref' ∧ h.valueFile? ref' = some opened := by
  by_cases hsame : ref = ref'
  · subst hsame
    exact .inl ⟨rfl, Option.some.inj (hopened.symm.trans (valueFile?_withValueFile href))⟩
  · exact .inr ⟨hsame, (valueFile?_withValueFile_of_ne hsame).symm.trans hopened⟩

theorem exists_valueFile?_withValueFile {f' : ValueFile} {r' : StoreRef}
    (href : h.valueFile? ref = some ⟨f, r⟩) (hid : o.item.id = f.id)
    (hopened : h.valueFile? ref' = some ⟨f', r'⟩) :
    ∃ f'', (h.withValueFile ref r o).valueFile? ref' = some ⟨f'', r'⟩ ∧ f''.id = f'.id := by
  by_cases hsame : ref = ref'
  · subst hsame
    cases href.symm.trans hopened
    exact ⟨o.item, valueFile?_withValueFile href, hid⟩
  · exact ⟨f', (valueFile?_withValueFile_of_ne hsame).trans hopened, rfl⟩

theorem withValueFile_self (href : h.valueFile? ref = some ⟨f, r⟩) :
    h.withValueFile ref r ⟨f, h.disk.store r⟩ = h := by
  have hfiles : h.valueFiles.setIfInBounds ref.index ⟨f, r⟩ = h.valueFiles := by
    apply Array.ext_getElem?
    intro i
    rw [Array.getElem?_setIfInBounds]
    by_cases hi : ref.index = i
    · subst hi
      obtain ⟨hlt, -⟩ := Array.getElem?_eq_some_iff.1 href
      rw [if_pos rfl, if_pos hlt]
      exact href.symm
    · rw [if_neg hi]
  rw [withValueFile, Disk.setStore_store, hfiles]

def withOpenedFile (h : Host) (f : ValueFile) (r : StoreRef) : Host :=
  { h with valueFiles := h.valueFiles.push ⟨f, r⟩ }

theorem valueFile?_withOpenedFile (h : Host) (f : ValueFile) (r : StoreRef) :
    (h.withOpenedFile f r).valueFile? ⟨h.valueFiles.size⟩ = some ⟨f, r⟩ :=
  Array.getElem?_push_size

theorem valueFile?_withOpenedFile_of_some (href : h.valueFile? ref = some opened) :
    (h.withOpenedFile f r).valueFile? ref = some opened := by
  obtain ⟨hlt, hget⟩ := Array.getElem?_eq_some_iff.1 href
  exact (Array.getElem?_push_lt hlt).trans (congrArg some hget)

def openedAt (path : Path) (id : UInt64) (b : ByteStore) : ValueFile :=
  { ValueFile.opened id b with path := some path }

theorem toNat_offset_openedAt {path : Path} {id : UInt64} {b : ByteStore} (hb : b.Readable)
    (hsize : b.contents.size < UInt64.size) :
    (openedAt path id b).offset.toNat = b.contents.size := by
  rw [openedAt, ValueFile.opened, hb.size_eq, UInt64.toNat_ofNat_of_lt' hsize]

theorem attachValueFileAt_eq (path : Path) (id : UInt64) (r : StoreRef) (h : Host) :
    attachValueFileAt path id r h = .ok ⟨h.valueFiles.size⟩
      (h.withOpenedFile (openedAt path id (h.disk.store r)) r) := by
  have hattach : onStore r (ValueFile.attach id) h =
      .ok (ValueFile.opened id (h.disk.store r)) (h.withStore r (h.disk.store r)) :=
    onStore_of_ok rfl
  rw [withStore_self] at hattach
  unfold attachValueFileAt
  rw [Action.bind_of_ok hattach]
  rfl

/-- What opening a value file makes of the host: it has one more open file, on the bytes that the
path leads to. -/
def WithFile (h : Host) (path : Path) (id : UInt64) (h' : Host) : Prop :=
  ∃ r d, h.disk.Opening path r d ∧
    h' = { h with disk := d }.withOpenedFile (openedAt path id (d.store r)) r

namespace WithFile

variable {path : Path} {id : UInt64} {h' : Host}

theorem extended (hfile : h.WithFile path id h') : h.disk.Extends h'.disk := by
  obtain ⟨r, d, hopening, rfl⟩ := hfile
  exact hopening.extended

theorem linked (hfile : h.WithFile path id h') (hlinked : h.disk.Linked) : h'.disk.Linked := by
  obtain ⟨r, d, hopening, rfl⟩ := hfile
  exact hopening.linked hlinked

theorem store_old (hfile : h.WithFile path id h') (hr : r.index < h.disk.stores.size) :
    h'.disk.store r = h.disk.store r := by
  obtain ⟨r', d, hopening, rfl⟩ := hfile
  exact hopening.store_old hr

theorem valueFile?_old (hfile : h.WithFile path id h') (href : h.valueFile? ref = some opened) :
    h'.valueFile? ref = some opened := by
  obtain ⟨r, d, hopening, rfl⟩ := hfile
  exact valueFile?_withOpenedFile_of_some href

/-- The new one is the file at the path, and starts at the size that is told of it. -/
theorem valueFile?_new (hfile : h.WithFile path id h') :
    ∃ r, h'.disk.Names path r ∧
      h'.valueFile? ⟨h.valueFiles.size⟩ = some ⟨openedAt path id (h'.disk.store r), r⟩ := by
  obtain ⟨r, d, hopening, rfl⟩ := hfile
  exact ⟨r, hopening.names, valueFile?_withOpenedFile _ _ _⟩

end WithFile

theorem openValueFile_cases (hlinked : h.disk.Linked) (dir : Path) (id : UInt64) :
    (∃ e, openValueFile dir id h = .error (.io e) h) ∨
      ∃ h', openValueFile dir id h = .ok ⟨h.valueFiles.size⟩ h' ∧
        h.WithFile (valueFilePath dir id) id h' := by
  unfold openValueFile
  rcases Disk.openOrCreate_cases hlinked (valueFilePath dir id) with
    ⟨kind, herror⟩ | ⟨r, d, hok, hopening⟩
  · exact .inl ⟨_, Action.bind_of_error (onDisk_ofIo_of_error herror)⟩
  · refine .inr ⟨_, ?_, r, d, hopening, rfl⟩
    exact (Action.bind_of_ok (onDisk_ofIo_of_ok hok)).trans (attachValueFileAt_eq _ _ _ _)

/-- No file is made when one that is there is asked for. -/
theorem reopenValueFile_cases (h : Host) (dir : Path) (id : UInt64) :
    (∃ e, reopenValueFile dir id h = .error (.io e) h ∧
      ∀ r, ¬ h.disk.Names (valueFilePath dir id) r) ∨
      ∃ h', reopenValueFile dir id h = .ok ⟨h.valueFiles.size⟩ h' ∧
        h.WithFile (valueFilePath dir id) id h' ∧ h'.disk = h.disk := by
  unfold reopenValueFile
  rcases Disk.openExisting_cases h.disk (valueFilePath dir id) with
    ⟨kind, herror, hnone⟩ | ⟨r, hok, hnames⟩
  · exact .inl ⟨_, Action.bind_of_error (onDisk_ofIo_of_error herror), hnone⟩
  · refine .inr ⟨_, ?_, ⟨r, h.disk, .of_names hnames, rfl⟩, rfl⟩
    exact (Action.bind_of_ok (onDisk_ofIo_of_ok hok)).trans (attachValueFileAt_eq _ _ _ _)

end Host

end AppendStore
