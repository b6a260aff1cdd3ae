import AppendStore.Proofs.Disk.Kinds
import AppendStore.Proofs.Host.ValueFiles
import AppendStore.Proofs.ValueFile.Record
import AppendStore.ValueFolder

/-!
# The files of a value folder

A folder is in order (`ValueFolder.Sound`) if every open file of it is the one on the disk,
with its offset at the end of what is there. What an operation does is then known:
`ValueFolder.fileOrNew_cases` for opening, `ValueFolder.Sound.writeTo` for a value that is
stored, `ValueFolder.Sound.read_cases` for a read. `ValueFolder.Step` is what they have in
common: the folder stays in order, a value that a pointer holds (`ValueFolder.Holds`) is held
by it still, and no file changes but those the step is about.
-/

namespace AppendStore

structure ByteStore.Healthy (b : ByteStore) : Prop extends Plain b where
  durable : b.durability ≠ .fails
  size : b.contents.size < UInt64.size

namespace ByteStore

theorem healthy_new : (onDisk []).Healthy := ⟨plain_onDisk [], by decide, by decide⟩

theorem Healthy.withContents {b : ByteStore} (h : b.Healthy) {c : Contents}
    (hsize : c.size < UInt64.size) : (b.withContents c).Healthy :=
  ⟨h.toPlain.withContents c, h.durable, hsize⟩

theorem Healthy.sync_eq {b : ByteStore} (h : b.Healthy) : sync b = .ok () b := by
  unfold sync
  split
  · rfl
  · rw [h.record_eq]
  · next hfails => exact absurd hfails h.durable

end ByteStore

namespace ValueFolder

open ValueFile (recordOf storedLength)
open Host (valueFilePath)

variable {v v' : ValueFolder} {h h' : Host} {id id' : UInt64} {ref ref' : ValueFileRef}
  {r : StoreRef} {value : Bytes} {p : ValuePointer}

def withOpen (v : ValueFolder) (id : UInt64) (ref : ValueFileRef) : ValueFolder :=
  { v with files := (id, ref) :: v.files }

theorem file?_withOpen (v : ValueFolder) (id : UInt64) (ref : ValueFileRef) :
    (v.withOpen id ref).file? id = some ref :=
  List.lookup_cons_self

theorem file?_withOpen_of_ne (hne : id' ≠ id) :
    (v.withOpen id ref).file? id' = v.file? id' := by
  rw [file?, withOpen, List.lookup_cons, beq_eq_false_iff_ne.2 hne]
  rfl

theorem mem_files (href : v.file? id = some ref) : (id, ref) ∈ v.files := by
  obtain ⟨before, after, hsplit, -⟩ := List.lookup_eq_some_iff.1 href
  rw [hsplit]
  exact List.mem_append_right _ List.mem_cons_self

theorem lookup_filter {files : List (UInt64 × ValueFileRef)}
    (hfound : (files.filter (·.1 ≠ id)).lookup id' = some ref) : files.lookup id' = some ref := by
  have hne : id' ≠ id := by
    obtain ⟨before, after, hsplit, -⟩ := List.lookup_eq_some_iff.1 hfound
    have hmem : (id', ref) ∈ files.filter (·.1 ≠ id) :=
      hsplit ▸ List.mem_append_right _ List.mem_cons_self
    exact of_decide_eq_true (List.mem_filter.1 hmem).2
  induction files with
  | nil => exact hfound
  | cons e files ih =>
    obtain ⟨first, opened⟩ := e
    by_cases hfirst : first = id
    · subst hfirst
      rw [List.filter_cons_of_neg (by simp)] at hfound
      rw [List.lookup_cons, beq_eq_false_iff_ne.2 hne]
      exact ih hfound
    · rw [List.filter_cons_of_pos (by simpa using hfirst), List.lookup_cons] at hfound
      rw [List.lookup_cons]
      cases hsame : id' == first with
      | true =>
        rw [hsame] at hfound
        exact hfound
      | false =>
        rw [hsame] at hfound
        exact ih hfound

/-- Where the next value of a file goes: the offset of the open file, and the size of the file on
disk if it is not open. -/
def offsetOf (v : ValueFolder) (id : UInt64) (h : Host) : Nat :=
  match v.file? id with
  | some ref => ((h.valueFile? ref).map (·.item.offset.toNat)).getD 0
  | none => h.disk.sizeAt (valueFilePath v.dir id)

/-- A file that is not open is opened, and made if there is none. -/
theorem fileOrNew_cases (hlinked : h.disk.Linked) (v : ValueFolder) (id : UInt64) :
    (∃ ref, v.file? id = some ref ∧ fileOrNew id ⟨v, h⟩ = .ok ref ⟨v, h⟩) ∨
      v.file? id = none ∧ ((∃ e, fileOrNew id ⟨v, h⟩ = .error (.io e) ⟨v, h⟩) ∨
        ∃ h', fileOrNew id ⟨v, h⟩ =
            .ok ⟨h.valueFiles.size⟩ ⟨v.withOpen id ⟨h.valueFiles.size⟩, h'⟩ ∧
          h.WithFile (valueFilePath v.dir id) id h') := by
  cases href : v.file? id with
  | some ref =>
    refine .inl ⟨ref, rfl, ?_⟩
    simp only [fileOrNew, fileOr, Action.item_bind, href]
    rfl
  | none =>
    refine .inr ⟨rfl, ?_⟩
    simp only [fileOrNew, fileOr, Action.item_bind, href]
    rcases Host.openValueFile_cases hlinked v.dir id with ⟨e, herror⟩ | ⟨h', hok, hfile⟩
    · exact .inl ⟨e, Action.bind_of_error (Action.onBase_of_error herror)⟩
    · exact .inr ⟨h', Action.bind_of_ok (Action.onBase_of_ok hok), hfile⟩

theorem storedFile_cases (v : ValueFolder) (h : Host) (id : UInt64) :
    (∃ ref, v.file? id = some ref ∧ storedFile id ⟨v, h⟩ = .ok ref ⟨v, h⟩) ∨
      v.file? id = none ∧ ((∃ e, storedFile id ⟨v, h⟩ = .error (.io e) ⟨v, h⟩ ∧
          ∀ r, ¬ h.disk.Names (valueFilePath v.dir id) r) ∨
        ∃ h', storedFile id ⟨v, h⟩ =
            .ok ⟨h.valueFiles.size⟩ ⟨v.withOpen id ⟨h.valueFiles.size⟩, h'⟩ ∧
          h.WithFile (valueFilePath v.dir id) id h' ∧ h'.disk = h.disk) := by
  cases href : v.file? id with
  | some ref =>
    refine .inl ⟨ref, rfl, ?_⟩
    simp only [storedFile, fileOr, Action.item_bind, href]
    rfl
  | none =>
    refine .inr ⟨rfl, ?_⟩
    simp only [storedFile, fileOr, Action.item_bind, href]
    rcases Host.reopenValueFile_cases h v.dir id with ⟨e, herror, hnone⟩ | ⟨h', hok, hfile⟩
    · exact .inl ⟨e, Action.bind_of_error (Action.onBase_of_error herror), hnone⟩
    · exact .inr ⟨h', Action.bind_of_ok (Action.onBase_of_ok hok), hfile⟩

/-- The value stands in the file of the pointer, where the pointer says. -/
def Holds (d : Disk) (dir : Path) (p : ValuePointer) (value : Bytes) : Prop :=
  p.size = value.length ∧ ∃ r, d.Names (valueFilePath dir p.fileId) r ∧
    (d.store r).contents.Shows p.offset.toNat (recordOf value)

def EachFile (P : ByteStore → Prop) (d : Disk) : Prop :=
  ∀ (ref : DirectoryRef) (id : UInt64) (b : ByteStore),
    d.file? ref (FileName.of .value id) = some b → P b

theorem eachFile_empty (P : ByteStore → Prop) : EachFile P Disk.empty := by
  intro ref id b hfile
  rw [Disk.file?, Disk.lookup_children_empty] at hfile
  cases hfile

/-- Every open file is the one on the disk, with its offset at the end of it. -/
structure Sound (v : ValueFolder) (h : Host) : Prop where
  has : h.disk.Has v.dir
  linked : h.disk.Linked
  healthy : EachFile ByteStore.Healthy h.disk
  known : ∀ e ∈ v.files, ∃ f r, h.valueFile? e.2 = some ⟨f, r⟩ ∧ f.id = e.1 ∧
    h.disk.Names (valueFilePath v.dir e.1) r
  offset : ∀ {id : UInt64} {ref : ValueFileRef} {f : ValueFile} {r : StoreRef},
    v.file? id = some ref → h.valueFile? ref = some ⟨f, r⟩ →
      f.offset.toNat = (h.disk.store r).contents.size

/-- A step of a folder that is in order. Only files of the names in `P` can have changed. -/
structure Step (P : DirectoryRef → String → Prop) (v : ValueFolder) (h : Host) (v' : ValueFolder)
    (h' : Host) : Prop where
  sound : v'.Sound h'
  dir : v'.dir = v.dir
  touches : Disk.Touches P h.disk h'.disk
  /-- Files of other kinds are none of a folder's business. -/
  spares : ∀ {kind : FileKind}, .value ≠ kind → h.disk.Spares kind h'.disk
  kept : ∀ p value, Holds h.disk v.dir p value → Holds h'.disk v.dir p value
  segments : h'.segments = h.segments

structure Stores (id : UInt64) (value : Bytes) (v : ValueFolder) (h : Host) (p : ValuePointer)
    (v' : ValueFolder) (h' : Host) : Prop extends
    Step (h.disk.Locates (valueFilePath v.dir id)) v h v' h' where
  fileId : p.fileId = id
  start : p.offset.toNat = v.offsetOf id h
  holds : Holds h'.disk v.dir p value
  next : v'.offsetOf id h' = v.offsetOf id h + storedLength value

theorem fileName_eq_of_locates {d : Disk} {dir : Path} {parent : DirectoryRef} {name : String}
    (hlocates : d.Locates (valueFilePath dir id) parent name) : name = FileName.of .value id :=
  hlocates.name_eq (FileName.plainName .value id)

namespace EachFile

variable {P : ByteStore → Prop} {d d' : Disk} {dir path : Path} {b : ByteStore}

theorem of_names (hall : EachFile P d) (hnames : d.Names (valueFilePath dir id) r) :
    P (d.store r) := by
  obtain ⟨parent, name, hlocates, hfound⟩ := hnames.entry
  rw [fileName_eq_of_locates hlocates] at hfound
  have hfile : d.file? parent (FileName.of .value id) = some (d.store r) := by
    simp only [Disk.file?, hfound]
  exact hall _ _ _ hfile

theorem withFile (hall : EachFile P h.disk) (hlinked : h.disk.Linked) (hfile : h.WithFile path id h')
    (hnew : P (.onDisk [])) : EachFile P h'.disk := by
  obtain ⟨r, d, hopening, rfl⟩ := hfile
  intro ref id b hb
  rcases hopening.file?_cases hlinked hb with rfl | hold
  · exact hnew
  · exact hall _ _ _ hold

theorem spared (hall : EachFile P d) (hspares : d.Spares .value d') : EachFile P d' := by
  intro ref id b hb
  rw [hspares.file?_eq] at hb
  exact hall ref id b hb

theorem setStore (hall : EachFile P d) (hr : r.index < d.stores.size) (hb : P b) :
    EachFile P (d.setStore r b) := by
  intro ref id b' hb'
  rcases Disk.file?_setStore_cases hr hb' with rfl | hold
  · exact hb
  · exact hall _ _ _ hold

end EachFile

theorem names_injective {d : Disk} {dir : Path} (hlinked : d.Linked)
    (hnames : d.Names (valueFilePath dir id) r) (hnames' : d.Names (valueFilePath dir id') r) :
    id = id' := by
  obtain ⟨parent, name, hlocates, hfound⟩ := hnames.entry
  obtain ⟨parent', name', hlocates', hfound'⟩ := hnames'.entry
  obtain ⟨-, hsame⟩ := hlinked.separate hfound hfound'
  rw [fileName_eq_of_locates hlocates, fileName_eq_of_locates hlocates'] at hsame
  exact FileName.of_injective hsame

theorem Step.trans {P : DirectoryRef → String → Prop} {v'' : ValueFolder} {h'' : Host}
    (hstep : Step P v h v' h') (hstep' : Step P v' h' v'' h'') : Step P v h v'' h'' where
  sound := hstep'.sound
  dir := hstep'.dir.trans hstep.dir
  touches := hstep.touches.trans hstep'.touches
  spares := fun hne => (hstep.spares hne).trans (hstep'.spares hne)
  kept := fun p value hholds => by
    have hkept := hstep'.kept p value
    rw [hstep.dir] at hkept
    exact hkept (hstep.kept p value hholds)
  segments := hstep'.segments.trans hstep.segments

theorem Step.mono {P Q : DirectoryRef → String → Prop} (hstep : Step P v h v' h')
    (hsub : ∀ ref name, P ref name → Q ref name) : Step Q v h v' h' :=
  { hstep with touches := hstep.touches.mono hsub }

theorem Holds.withFile {dir path : Path} (hholds : Holds h.disk dir p value)
    (hlinked : h.disk.Linked) (hfile : h.WithFile path id h') : Holds h'.disk dir p value := by
  obtain ⟨hlength, r, hnames, hshows⟩ := hholds
  refine ⟨hlength, r, hnames.extended hfile.extended, ?_⟩
  rw [hfile.store_old (hnames.lt hlinked)]
  exact hshows

/-- A file that only grows keeps the values that are in it. -/
theorem Holds.setStore {d : Disk} {dir : Path} {b : ByteStore} (hholds : Holds d dir p value)
    (hr : r.index < d.stores.size) (hbegins : (d.store r).contents.Begins b.contents) :
    Holds (d.setStore r b) dir p value := by
  obtain ⟨hlength, r', hnames, hshows⟩ := hholds
  refine ⟨hlength, r', hnames.setStore r b, ?_⟩
  by_cases hsame : r = r'
  · subst hsame
    rw [Disk.store_setStore hr]
    exact hbegins.shows_of_shows hshows
  · rw [Disk.store_setStore_of_ne hsame]
    exact hshows

theorem offsetOf_of_file? {f : ValueFile} (href : v.file? id = some ref)
    (hopened : h.valueFile? ref = some ⟨f, r⟩) : v.offsetOf id h = f.offset.toNat := by
  simp only [offsetOf, href, hopened, Option.map_some, Option.getD_some]

namespace Sound

theorem refl (hs : v.Sound h) (P : DirectoryRef → String → Prop) : Step P v h v h :=
  ⟨hs, rfl, .refl P _, fun _ => .refl _ _, fun _ _ hholds => hholds, rfl⟩

theorem opened (hs : v.Sound h) (href : v.file? id = some ref) :
    ∃ f r, h.valueFile? ref = some ⟨f, r⟩ ∧ f.id = id ∧
      h.disk.Names (valueFilePath v.dir id) r ∧
      f.offset.toNat = (h.disk.store r).contents.size := by
  obtain ⟨f, r, hfile, hid, hnames⟩ := hs.known (id, ref) (mem_files href)
  exact ⟨f, r, hfile, hid, hnames, hs.offset href hfile⟩

/-- The next value of a file goes to its end, whether or not the file is open. -/
theorem offsetOf_eq (hs : v.Sound h) (id : UInt64) :
    v.offsetOf id h = h.disk.sizeAt (valueFilePath v.dir id) := by
  unfold offsetOf
  split
  · next ref href =>
    obtain ⟨f, r, hfile, -, hnames, hoffset⟩ := hs.opened href
    rw [hfile, hnames.sizeAt_eq]
    exact hoffset
  · rfl

section Opening

theorem known_withOpen (hs : v.Sound h) (hfile : h.WithFile (valueFilePath v.dir id) id h')
    {e : UInt64 × ValueFileRef} (he : e ∈ (v.withOpen id ⟨h.valueFiles.size⟩).files) :
    ∃ f r, h'.valueFile? e.2 = some ⟨f, r⟩ ∧ f.id = e.1 ∧
      h'.disk.Names (valueFilePath v.dir e.1) r := by
  rcases List.mem_cons.1 he with rfl | he
  · obtain ⟨r, hnames, hnew⟩ := hfile.valueFile?_new
    exact ⟨_, r, hnew, rfl, hnames⟩
  · obtain ⟨f, r, hknown, hid, hnames⟩ := hs.known e he
    exact ⟨f, r, hfile.valueFile?_old hknown, hid, hnames.extended hfile.extended⟩

theorem offset_withOpen (hs : v.Sound h) (hfile : h.WithFile (valueFilePath v.dir id) id h')
    {f : ValueFile} (href : (v.withOpen id ⟨h.valueFiles.size⟩).file? id' = some ref)
    (hopened : h'.valueFile? ref = some ⟨f, r⟩) :
    f.offset.toNat = (h'.disk.store r).contents.size := by
  by_cases hid : id' = id
  · subst hid
    cases (file?_withOpen v id' _).symm.trans href
    obtain ⟨r', hnames, hnew⟩ := hfile.valueFile?_new
    cases hnew.symm.trans hopened
    have hhealthy := (hs.healthy.withFile hs.linked hfile ByteStore.healthy_new).of_names hnames
    exact Host.toNat_offset_openedAt hhealthy.toReadable hhealthy.size
  · rw [file?_withOpen_of_ne hid] at href
    obtain ⟨f', r', hknown, -, hnames, hoffset⟩ := hs.opened href
    cases (hfile.valueFile?_old hknown).symm.trans hopened
    rw [hoffset, hfile.store_old (hnames.lt hs.linked)]

theorem sound_withOpen (hs : v.Sound h) (hfile : h.WithFile (valueFilePath v.dir id) id h') :
    (v.withOpen id ⟨h.valueFiles.size⟩).Sound h' where
  has := hs.has.extended hfile.extended
  linked := hfile.linked hs.linked
  healthy := hs.healthy.withFile hs.linked hfile ByteStore.healthy_new
  known := fun _ he => hs.known_withOpen hfile he
  offset := fun href hopened => hs.offset_withOpen hfile href hopened

theorem withOpen (hs : v.Sound h) (hfile : h.WithFile (valueFilePath v.dir id) id h') :
    Step (h.disk.Locates (valueFilePath v.dir id)) v h
        (v.withOpen id ⟨h.valueFiles.size⟩) h' ∧
      (v.withOpen id ⟨h.valueFiles.size⟩).offsetOf id h' =
        h.disk.sizeAt (valueFilePath v.dir id) ∧
      ∀ {parent : DirectoryRef} {name : String},
        h'.disk.Locates (valueFilePath v.dir id) parent name →
          h.disk.Locates (valueFilePath v.dir id) parent name := by
  have hsound := hs.sound_withOpen hfile
  have hkept : ∀ p value, Holds h.disk v.dir p value → Holds h'.disk v.dir p value :=
    fun _ _ hholds => hholds.withFile hs.linked hfile
  have hoffset := hsound.offsetOf_eq id
  obtain ⟨r, d, hopening, rfl⟩ := hfile
  exact ⟨⟨hsound, rfl, hopening.touches hs.linked, hopening.spares hs.linked, hkept, rfl⟩,
    hoffset.trans hopening.sizeAt_eq, hopening.locates⟩

end Opening

theorem fileOrNew (hs : v.Sound h) (id : UInt64) :
    (∃ e, ValueFolder.fileOrNew id ⟨v, h⟩ = .error (.io e) ⟨v, h⟩) ∨
      ∃ ref v' h', ValueFolder.fileOrNew id ⟨v, h⟩ = .ok ref ⟨v', h'⟩ ∧ v'.file? id = some ref ∧
        v'.offsetOf id h' = v.offsetOf id h ∧
        Step (h.disk.Locates (valueFilePath v.dir id)) v h v' h' ∧
        ∀ {parent : DirectoryRef} {name : String},
          h'.disk.Locates (valueFilePath v.dir id) parent name →
            h.disk.Locates (valueFilePath v.dir id) parent name := by
  rcases fileOrNew_cases hs.linked v id with ⟨ref, href, hok⟩ | ⟨-, ⟨e, herror⟩ | ⟨h', hok, hfile⟩⟩
  · exact .inr ⟨ref, v, h, hok, href, rfl, hs.refl _, fun hlocates => hlocates⟩
  · exact .inl ⟨e, herror⟩
  · obtain ⟨hstep, hoffset, hlocates⟩ := hs.withOpen hfile
    exact .inr ⟨_, _, h', hok, file?_withOpen v id _, hoffset.trans (hs.offsetOf_eq id).symm, hstep,
      hlocates⟩

theorem storedFile (hs : v.Sound h) (id : UInt64) :
    (∃ e, ValueFolder.storedFile id ⟨v, h⟩ = .error (.io e) ⟨v, h⟩ ∧
        ∀ r, ¬ h.disk.Names (valueFilePath v.dir id) r) ∨
      ∃ ref v' h', ValueFolder.storedFile id ⟨v, h⟩ = .ok ref ⟨v', h'⟩ ∧ v'.file? id = some ref ∧
        h'.disk = h.disk ∧ Step (fun _ _ => False) v h v' h' := by
  rcases storedFile_cases v h id with ⟨ref, href, hok⟩ | ⟨-, ⟨e, herror⟩ | ⟨h', hok, hfile, hdisk⟩⟩
  · exact .inr ⟨ref, v, h, hok, href, rfl, hs.refl _⟩
  · exact .inl ⟨e, herror⟩
  · obtain ⟨hstep, -, -⟩ := hs.withOpen hfile
    exact .inr ⟨_, _, h', hok, file?_withOpen v id _, hdisk,
      { hstep with touches := hdisk ▸ .refl _ _ }⟩

section Writing

variable {f f' : ValueFile} {b : ByteStore}

theorem known_withValueFile (hs : v.Sound h) (hopened : h.valueFile? ref = some ⟨f, r⟩)
    (hid : f'.id = f.id) {e : UInt64 × ValueFileRef} (he : e ∈ v.files) :
    ∃ g r', (h.withValueFile ref r ⟨f', b⟩).valueFile? e.2 = some ⟨g, r'⟩ ∧ g.id = e.1 ∧
      (h.disk.setStore r b).Names (valueFilePath v.dir e.1) r' := by
  obtain ⟨g, r', hknown, hsame, hnames⟩ := hs.known e he
  obtain ⟨g', hknown', hsame'⟩ :=
    Host.exists_valueFile?_withValueFile (o := ⟨f', b⟩) hopened hid hknown
  exact ⟨g', r', hknown', hsame'.trans hsame, hnames.setStore r b⟩

/-- Files of different ids are different, so no other open file is behind its end. -/
theorem offset_withValueFile (hs : v.Sound h) (href : v.file? id = some ref)
    (hopened : h.valueFile? ref = some ⟨f, r⟩) (hnames : h.disk.Names (valueFilePath v.dir id) r)
    (hend : f'.offset.toNat = b.contents.size) {g : ValueFile} {r' : StoreRef}
    (href' : v.file? id' = some ref')
    (hopened' : (h.withValueFile ref r ⟨f', b⟩).valueFile? ref' = some ⟨g, r'⟩) :
    g.offset.toNat = ((h.disk.setStore r b).store r').contents.size := by
  rcases Host.valueFile?_withValueFile_cases hopened hopened' with ⟨rfl, heq⟩ | ⟨hother, hold⟩
  · cases heq
    rw [Disk.store_setStore (hnames.lt hs.linked)]
    exact hend
  · obtain ⟨g', r'', hknown, -, hnames', hoffset⟩ := hs.opened href'
    cases hknown.symm.trans hold
    have hne : r ≠ r' := by
      rintro rfl
      cases names_injective hs.linked hnames hnames'
      exact hother (Option.some.inj (href.symm.trans href'))
    rw [Disk.store_setStore_of_ne hne]
    exact hoffset

theorem step_withValueFile (hs : v.Sound h) (href : v.file? id = some ref)
    (hopened : h.valueFile? ref = some ⟨f, r⟩) (hnames : h.disk.Names (valueFilePath v.dir id) r)
    (hid : f'.id = f.id) (hhealthy : b.Healthy) (hend : f'.offset.toNat = b.contents.size)
    (hbegins : (h.disk.store r).contents.Begins b.contents) :
    Step (h.disk.Locates (valueFilePath v.dir id)) v h v (h.withValueFile ref r ⟨f', b⟩) where
  sound :=
    { has := hs.has.extended (.of_directories rfl)
      linked := hs.linked.setStore r b
      healthy := hs.healthy.setStore (hnames.lt hs.linked) hhealthy
      known := fun _ he => hs.known_withValueFile hopened hid he
      offset := fun href' hopened' =>
        hs.offset_withValueFile href hopened hnames hend href' hopened' }
  dir := rfl
  touches := hnames.touches_setStore hs.linked b
  spares := fun hne => by
    obtain ⟨parent, hfound⟩ := hnames.lookup
    exact Disk.spares_setStore hs.linked hfound hne b
  kept := fun _ _ hholds => hholds.setStore (hnames.lt hs.linked) hbegins
  segments := rfl

/-- A value is stored at the end of an open file. -/
theorem writeTo (hs : v.Sound h) (href : v.file? id = some ref)
    (hroom : v.offsetOf id h + storedLength value < UInt64.size) :
    ∃ p h', ValueFolder.writeTo id ref value ⟨v, h⟩ = .ok p ⟨v, h'⟩ ∧
      Stores id value v h p v h' := by
  obtain ⟨f, r, hopened, -, hnames, hoffset⟩ := hs.opened href
  have hhealthy := hs.healthy.of_names hnames
  have hstart : v.offsetOf id h = f.offset.toNat := offsetOf_of_file? href hopened
  rw [hstart] at hroom
  have hon := Host.onValueFile_of_ok hopened (ValueFile.write_of_plain hhealthy.toPlain f value)
  generalize hb : (h.disk.store r).withContents _ = b at hon
  have hcontents : b.contents =
      (h.disk.store r).contents.write f.offset.toNat (recordOf value) := by rw [← hb]; rfl
  have hsize : b.contents.size = f.offset.toNat + storedLength value := by
    rw [hcontents, ValueFile.size_write_recordOf, hoffset]
    exact Nat.max_eq_right (Nat.le_add_right _ _)
  have hclaimed := ValueFile.toNat_offset_claimed hroom
  have hhealthy' : b.Healthy := by
    rw [← hb]
    exact hhealthy.withContents (hcontents ▸ hsize ▸ hroom)
  have hid : (f.claimed value).id = f.id := rfl
  have hstep := hs.step_withValueFile href hopened hnames hid hhealthy'
    (hclaimed.trans hsize.symm) (hcontents ▸ .write (Nat.le_of_eq hoffset.symm) _)
  have hshows : b.contents.Shows f.offset.toNat (recordOf value) :=
    hcontents ▸ Contents.shows_write _ (ValueFile.recordOf_ne_nil value)
  have hstore : (h.disk.setStore r b).store r = b := Disk.store_setStore (hnames.lt hs.linked)
  refine ⟨⟨id, f.offset, value.length⟩, _, Action.bind_of_ok (Action.onBase_of_ok hon),
    { toStep := hstep, fileId := rfl, start := hstart.symm, holds := ?_, next := ?_ }⟩
  · exact ⟨rfl, r, hnames.setStore r b, hstore.symm ▸ hshows⟩
  · rw [hstart, offsetOf_of_file? href (Host.valueFile?_withValueFile hopened)]
    exact hclaimed

end Writing

theorem write_cases (hs : v.Sound h)
    (hroom : v.offsetOf id h + storedLength value < UInt64.size) :
    (∃ e, ValueFolder.write id value ⟨v, h⟩ = .error e ⟨v, h⟩) ∨
      ∃ p v' h', ValueFolder.write id value ⟨v, h⟩ = .ok p ⟨v', h'⟩ ∧
        Stores id value v h p v' h' := by
  rcases hs.fileOrNew id with ⟨e, herror⟩ | ⟨ref, v', h', hok, href, hoffset, hstep, hlocates⟩
  · exact .inl ⟨_, Action.bind_of_error herror⟩
  · rw [← hoffset] at hroom
    obtain ⟨p, h'', hwrite, hstores⟩ := hstep.sound.writeTo href hroom
    have hstep' := hstores.toStep
    rw [hstep.dir] at hstep'
    refine .inr ⟨p, v', h'', (Action.bind_of_ok hok).trans hwrite,
      hstep.trans (hstep'.mono fun _ _ => hlocates), hstores.fileId,
      hstores.start.trans hoffset, hstep.dir ▸ hstores.holds, hoffset ▸ hstores.next⟩

/-- A read does not change the disk, and it fails because of the disk only if there is no file. What
a pointer holds is read. -/
theorem read_cases (hs : v.Sound h) (p : ValuePointer) :
    (∃ e, ValueFolder.read p ⟨v, h⟩ = .error (.io e) ⟨v, h⟩ ∧
        ∀ value, ¬ Holds h.disk v.dir p value) ∨
      ∃ v' h', h'.disk = h.disk ∧ Step (fun _ _ => False) v h v' h' ∧
        (∀ value, Holds h.disk v.dir p value →
          ValueFolder.read p ⟨v, h⟩ = .ok value ⟨v', h'⟩) ∧
        ((∃ value, ValueFolder.read p ⟨v, h⟩ = .ok value ⟨v', h'⟩) ∨
          ∃ e, ValueFolder.read p ⟨v, h⟩ = .error e ⟨v', h'⟩ ∧ ∀ io, e ≠ .io io) := by
  rcases hs.storedFile p.fileId with
    ⟨e, herror, hnone⟩ | ⟨ref, v', h', hok, href, hdisk, hstep⟩
  · refine .inl ⟨e, Action.bind_of_error herror, ?_⟩
    rintro value ⟨-, r, hnames, -⟩
    exact hnone r hnames
  · obtain ⟨f, r, hfile, -, hnames, -⟩ := hstep.sound.opened href
    have hhealthy := hstep.sound.healthy.of_names hnames
    have hback : h'.withValueFile ref r ⟨f, h'.disk.store r⟩ = h' := Host.withValueFile_self hfile
    have hread : ∀ value, ValueFile.read p.offset p.size ⟨f, h'.disk.store r⟩ =
        .ok value ⟨f, h'.disk.store r⟩ → ValueFolder.read p ⟨v, h⟩ = .ok value ⟨v', h'⟩ := by
      intro value hvalue
      have hon := Host.onValueFile_of_ok hfile hvalue
      rw [hback] at hon
      exact (Action.bind_of_ok hok).trans (Action.onBase_of_ok hon)
    refine .inr ⟨v', h', hdisk, hstep, ?_, ?_⟩
    · rintro value ⟨hlength, r', hnames', hshows⟩
      rw [← hdisk, ← hstep.dir] at hnames'
      cases hnames.unique hnames'
      rw [← hdisk] at hshows
      have hvalue := ValueFile.read_of_shows hhealthy.toReadable hhealthy.size hshows f
      rw [← hlength] at hvalue
      exact hread value hvalue
    · rcases ValueFile.read_cases hhealthy.toReadable p.offset p.size f with
        ⟨value, hvalue⟩ | ⟨e, herror, hio⟩
      · exact .inl ⟨value, hread value hvalue⟩
      · have hon := Host.onValueFile_of_error hfile herror
        rw [hback] at hon
        exact .inr ⟨e, (Action.bind_of_ok hok).trans (Action.onBase_of_error hon), hio⟩

theorem close (hs : v.Sound h) (id : UInt64) :
    ∃ v', ValueFolder.close id ⟨v, h⟩ = .ok (v.file? id).isSome ⟨v', h⟩ ∧
      Step (fun _ _ => False) v h v' h := by
  refine ⟨{ v with files := v.files.filter (·.1 ≠ id) }, rfl,
    ⟨hs.has, hs.linked, hs.healthy, ?_, ?_⟩, rfl, .refl _ _, fun _ => .refl _ _, fun _ _ hholds => hholds, rfl⟩
  · intro e he
    exact hs.known e (List.mem_filter.1 he).1
  · intro id' ref f r href hfile
    exact hs.offset (lookup_filter href) hfile

theorem sync (hs : v.Sound h) : ValueFolder.sync ⟨v, h⟩ = .ok () ⟨v, h⟩ := by
  have hfile : ∀ e ∈ v.files, Host.onValueFile e.2 ValueFile.sync h = .ok () h := by
    intro e he
    obtain ⟨f, r, hknown, -, hnames⟩ := hs.known e he
    have hsync : ValueFile.sync ⟨f, h.disk.store r⟩ = .ok () ⟨f, h.disk.store r⟩ := by
      have hstore := (hs.healthy.of_names hnames).sync_eq
      simp only [ValueFile.sync, Action.onBase, Action.zoom, Action.ofIo, hstore]
    rw [Host.onValueFile_of_ok hknown hsync, Host.withValueFile_self hknown]
  have hloop : ∀ files : List (UInt64 × ValueFileRef), (∀ e ∈ files, e ∈ v.files) →
      (forIn files PUnit.unit fun e _ => do
        Action.onBase (Host.onValueFile e.2 ValueFile.sync)
        pure (ForInStep.yield PUnit.unit) : Action (Over ValueFolder Host) PUnit) ⟨v, h⟩ =
        .ok PUnit.unit ⟨v, h⟩ := by
    intro files hfiles
    induction files with
    | nil => rfl
    | cons e files ih =>
      have hfirst := hfile e (hfiles e List.mem_cons_self)
      have hrest := ih fun e' he' => hfiles e' (List.mem_cons_of_mem _ he')
      have hround : (do
          Action.onBase (Host.onValueFile e.2 ValueFile.sync)
          pure (ForInStep.yield PUnit.unit) : Action (Over ValueFolder Host) (ForInStep PUnit))
          ⟨v, h⟩ = .ok (.yield PUnit.unit) ⟨v, h⟩ :=
        Action.bind_of_ok (Action.onBase_of_ok hfirst)
      rw [List.forIn_cons, Action.bind_of_ok hround]
      exact hrest
  unfold ValueFolder.sync
  rw [Action.item_bind]
  exact Action.bind_of_ok (hloop v.files fun _ he => he)

end Sound

section Spared

variable {d d' : Disk} {dir : Path}

theorem Holds.spared (hholds : Holds d dir p value) (hspares : d.Spares .value d') :
    Holds d' dir p value := by
  obtain ⟨hsize, r, hnames, hshows⟩ := hholds
  obtain ⟨parent, hfound⟩ := hnames.lookup
  exact ⟨hsize, r, hnames.extended hspares.extended, (hspares.store_eq hfound).symm ▸ hshows⟩

theorem Sound.spared (hs : v.Sound h) (hlinked : h'.disk.Linked)
    (hspares : h.disk.Spares .value h'.disk) (hfiles : h'.valueFiles = h.valueFiles) :
    v.Sound h' := by
  have hopen : ∀ ref, h'.valueFile? ref = h.valueFile? ref := fun ref => by
    rw [Host.valueFile?, hfiles, Host.valueFile?]
  refine ⟨hs.has.extended hspares.extended, hlinked, hs.healthy.spared hspares, ?_, ?_⟩
  · intro e he
    obtain ⟨f, r, hfile, hid, hnames⟩ := hs.known e he
    exact ⟨f, r, (hopen e.2).trans hfile, hid, hnames.extended hspares.extended⟩
  · intro id ref f r href hfile
    rw [hopen] at hfile
    obtain ⟨f', r', hknown, -, hnames, hoffset⟩ := hs.opened href
    cases hknown.symm.trans hfile
    obtain ⟨parent, hfound⟩ := hnames.lookup
    rw [hspares.store_eq hfound]
    exact hoffset

end Spared

theorem sound_of_has {dir : Path} (hhas : h.disk.Has dir) (hlinked : h.disk.Linked)
    (hhealthy : EachFile ByteStore.Healthy h.disk) : ({ dir } : ValueFolder).Sound h :=
  ⟨hhas, hlinked, hhealthy, nofun, nofun⟩

theorem keeps_attach (kind : FileKind) (d : Disk) (dir : Path) :
    Action.Keeps (fun h => h.disk.Linked ∧ d.Spares kind h.disk) (attach dir) := by
  have hmake := Disk.keeps_makeDirectory (Disk.Spares.keeps_createDirectory kind d) dir
  exact .bind (hmake.ofIo.zoom (fun _ hd => hd) fun _ _ _ hd => hd) fun _ => .pure _

/-- Opening a folder makes its directory and nothing else. -/
theorem attach_spares {dir : Path} (hlinked : h.disk.Linked) (hattach : attach dir h = .ok v h') :
    v = { dir } ∧ h'.disk.Has dir ∧ h'.disk.Linked ∧ (∀ kind, h.disk.Spares kind h'.disk) ∧
      h'.segments = h.segments := by
  unfold attach Host.makeDirectory at hattach
  obtain ⟨u, h₁, hmake, hattach⟩ := Action.bind_eq_ok hattach
  cases hattach
  have hmake' := Host.onDisk_ofIo_eq_ok hmake
  have hsegments : h'.segments = h.segments := by
    injection (Host.onDisk_ofIo_of_ok hmake').symm.trans hmake with _ hhost
    rw [← hhost]
  exact ⟨rfl, Disk.has_of_makeDirectory hlinked hmake', hlinked.of_makeDirectory hmake',
    Disk.spares_of_makeDirectory hlinked hmake', hsegments⟩

theorem attach_eq_ok {P : ByteStore → Prop} {dir : Path} (hlinked : h.disk.Linked)
    (hall : EachFile P h.disk) (hattach : attach dir h = .ok v h') :
    v = { dir } ∧ h'.disk.Has dir ∧ h'.disk.Linked ∧ EachFile P h'.disk := by
  obtain ⟨heq, hhas, hlinked', hspares, -⟩ := attach_spares hlinked hattach
  exact ⟨heq, hhas, hlinked', hall.spared (hspares .value)⟩

theorem attach_of_has {dir : Path} (hhas : h.disk.Has dir) : attach dir h = .ok { dir } h := by
  unfold attach Host.makeDirectory
  rw [Action.bind_of_ok (Host.onDisk_ofIo_of_ok hhas.makeDirectory_eq)]
  rfl

end ValueFolder

end AppendStore
