import AppendStore.Proofs.ValueFolder.Files

/-!
# What a value folder leaves alone

A folder writes to value files only. `Host.ValueOnly h h'` says that nothing else has changed on
the host: log files have the bytes that they had, the open segments are as they were, and no
directory has come up. `ValueFolder.Works` adds that the open files of the folder are value files.
Everything that is asked of a folder keeps this, whether it fails or not.

Nothing is said here of what is in the value files, and writing to them may fail.
-/

namespace AppendStore

open AppendStore.Action (Keeps)

def Disk.IsValue (d : Disk) (r : StoreRef) : Prop :=
  ∃ ref id, (d.children ref).lookup (FileName.of .value id) = some (.file r)

theorem Disk.IsValue.extended {d d' : Disk} {r : StoreRef} (h : d.IsValue r)
    (hextends : d.Extends d') : d'.IsValue r := by
  obtain ⟨ref, id, hfound⟩ := h
  exact ⟨ref, id, hextends _ _ _ hfound⟩

def Disk.NoneMade (d d' : Disk) : Prop :=
  ∀ (ref : DirectoryRef) (name : String) (inner : DirectoryRef),
    (d'.children ref).lookup name = some (.directory inner) →
      (d.children ref).lookup name = some (.directory inner)

theorem Disk.Opening.noneMade {d d' : Disk} {path : Path} {r : StoreRef}
    (h : d.Opening path r d') : d.NoneMade d' := by
  intro ref name inner hfound
  rcases h.grows with rfl | ⟨-, -, parent, new, -, hgrown⟩
  · exact hfound
  · rcases hgrown.lookup_cases hfound with ⟨-, -, heq⟩ | hold
    · cases heq
    · exact hold

namespace Host

variable {h h' h'' : Host} {r : StoreRef}

/-- The host after work on value files. -/
structure ValueOnly (h h' : Host) : Prop where
  linked : h'.disk.Linked
  spares : h.disk.Spares .log h'.disk
  noneMade : h.disk.NoneMade h'.disk
  segments : h'.segments = h.segments

namespace ValueOnly

theorem refl (hlinked : h.disk.Linked) : h.ValueOnly h :=
  ⟨hlinked, .refl _ _, fun _ _ _ hfound => hfound, rfl⟩

theorem trans (hfirst : h.ValueOnly h') (hnext : h'.ValueOnly h'') : h.ValueOnly h'' where
  linked := hnext.linked
  spares := hfirst.spares.trans hnext.spares
  noneMade := fun _ _ _ hfound => hfirst.noneMade _ _ _ (hnext.noneMade _ _ _ hfound)
  segments := hnext.segments.trans hfirst.segments

theorem withValueFile (hv : h.ValueOnly h') (hvalue : h'.disk.IsValue r) (ref : ValueFileRef)
    (o : Over ValueFile ByteStore) : h.ValueOnly (h'.withValueFile ref r o) := by
  obtain ⟨parent, id, hfound⟩ := hvalue
  have hspares : h'.disk.Spares .log (h'.disk.setStore r o.base) :=
    Disk.spares_setStore hv.linked hfound (by decide) o.base
  exact ⟨hv.linked.setStore r o.base, hv.spares.trans hspares, hv.noneMade, hv.segments⟩

end ValueOnly

/-- A value file that is opened changes nothing else. -/
theorem WithFile.valueOnly {dir : Path} {id : UInt64} (hlinked : h.disk.Linked)
    (hfile : h.WithFile (valueFilePath dir id) id h') : h.ValueOnly h' := by
  obtain ⟨r, d, hopening, rfl⟩ := hfile
  exact ⟨hopening.linked hlinked, hopening.spares hlinked (by decide), hopening.noneMade, rfl⟩

end Host

namespace ValueFolder

variable {h : Host} {o : Over ValueFolder Host} {id : UInt64} {ref : ValueFileRef} {dir : Path}
  {α : Type}

/-- The folder of a directory is at work on value files, and no other file has changed since `h`. -/
structure Works (dir : Path) (h : Host) (o : Over ValueFolder Host) : Prop
    extends h.ValueOnly o.base where
  dir_eq : o.item.dir = dir
  files : ∀ {e : UInt64 × ValueFileRef}, e ∈ o.item.files →
    ∃ f r, o.base.valueFile? e.2 = some ⟨f, r⟩ ∧ o.base.disk.IsValue r

namespace Works

theorem fresh (dir : Path) (hlinked : h.disk.Linked) : Works dir h ⟨{ dir := dir }, h⟩ :=
  ⟨.refl hlinked, rfl, fun he => absurd he List.not_mem_nil⟩

theorem here (hworks : Works dir h o) : Works dir o.base o :=
  ⟨.refl hworks.linked, hworks.dir_eq, hworks.files⟩

theorem spared (hworks : Works dir h o) {base : Host} (hlinked : base.disk.Linked)
    (hextends : o.base.disk.Extends base.disk) (hfiles : base.valueFiles = o.base.valueFiles) :
    Works dir base ⟨o.item, base⟩ := by
  refine ⟨.refl hlinked, hworks.dir_eq, fun he => ?_⟩
  obtain ⟨f, r, hopened, hvalue⟩ := hworks.files he
  refine ⟨f, r, ?_, hvalue.extended hextends⟩
  rw [Host.valueFile?, hfiles]
  exact hopened

theorem withOpen (hworks : Works dir h o) {base : Host}
    (hfile : o.base.WithFile (Host.valueFilePath o.item.dir id) id base) :
    Works dir h ⟨o.item.withOpen id ⟨o.base.valueFiles.size⟩, base⟩ := by
  refine ⟨hworks.toValueOnly.trans (hfile.valueOnly hworks.linked), hworks.dir_eq, fun he => ?_⟩
  rcases List.mem_cons.1 he with rfl | he
  · obtain ⟨r, hnames, hnew⟩ := hfile.valueFile?_new
    obtain ⟨parent, hfound⟩ := hnames.lookup
    exact ⟨_, r, hnew, parent, id, hfound⟩
  · obtain ⟨f, r', hopened, hvalue⟩ := hworks.files he
    exact ⟨f, r', hfile.valueFile?_old hopened, hvalue.extended hfile.extended⟩

end Works

theorem keeps_fileOrNew (id : UInt64) : Keeps (Works dir h) (fileOrNew id) := by
  rintro ⟨v, base⟩ hworks
  rcases fileOrNew_cases hworks.linked v id with ⟨ref, -, hok⟩ | ⟨-, ⟨e, herror⟩ | ⟨h', hok, hfile⟩⟩
  · rw [hok]
    exact hworks
  · rw [herror]
    exact hworks
  · rw [hok]
    exact hworks.withOpen hfile

theorem keeps_storedFile (id : UInt64) : Keeps (Works dir h) (storedFile id) := by
  rintro ⟨v, base⟩ hworks
  rcases storedFile_cases v base id with
    ⟨ref, -, hok⟩ | ⟨-, ⟨e, herror, -⟩ | ⟨h', hok, hfile, -⟩⟩
  · rw [hok]
    exact hworks
  · rw [herror]
    exact hworks
  · rw [hok]
    exact hworks.withOpen hfile

/-- The same, while the folder itself stays as it is. -/
def WorksAs (dir : Path) (h : Host) (v : ValueFolder) (o : Over ValueFolder Host) : Prop :=
  Works dir h o ∧ o.item = v

theorem keeps_onFile {v : ValueFolder} (hmem : (id, ref) ∈ v.files)
    (x : Action (Over ValueFile ByteStore) α) :
    Keeps (WorksAs dir h v) (Action.onBase (Host.onValueFile ref x)) := by
  rintro ⟨folder, base⟩ ⟨hworks, rfl⟩
  obtain ⟨f, r, hopened, hvalue⟩ := hworks.files hmem
  have hnext : ∀ p, WorksAs dir h folder ⟨folder, base.withValueFile ref r p⟩ := by
    refine fun p => ⟨⟨hworks.withValueFile hvalue ref p, hworks.dir_eq, fun {e} he => ?_⟩, rfl⟩
    obtain ⟨f', r', hopened', hvalue'⟩ := hworks.files he
    by_cases hsame : ref = e.2
    · subst hsame
      exact ⟨p.item, r, Host.valueFile?_withValueFile hopened, hvalue⟩
    · exact ⟨f', r', (Host.valueFile?_withValueFile_of_ne hsame).trans hopened', hvalue'⟩
  cases hx : x ⟨f, base.disk.store r⟩ with
  | ok a p =>
    rw [Action.onBase_of_ok (Host.onValueFile_of_ok hopened hx)]
    exact hnext p
  | error e p =>
    rw [Action.onBase_of_error (Host.onValueFile_of_error hopened hx)]
    exact hnext p

theorem mem_of_fileOr {opening : Path → UInt64 → Action Host ValueFileRef}
    {o' : Over ValueFolder Host} (hok : fileOr opening id o = .ok ref o') :
    (id, ref) ∈ o'.item.files := by
  unfold fileOr at hok
  rw [Action.item_bind] at hok
  cases href : o.item.file? id with
  | some known =>
    rw [href] at hok
    cases hok
    exact mem_files href
  | none =>
    simp only [href] at hok
    obtain ⟨opened, o₁, -, hok⟩ := Action.bind_eq_ok hok
    cases hok
    exact List.mem_cons_self

theorem keeps_withFile {opening : Path → UInt64 → Action Host ValueFileRef}
    {f : ValueFileRef → Action (Over ValueFolder Host) α}
    (hopening : Keeps (Works dir h) (fileOr opening id))
    (hf : ∀ {v : ValueFolder} {ref : ValueFileRef}, (id, ref) ∈ v.files →
      Keeps (WorksAs dir h v) (f ref)) :
    Keeps (Works dir h) (fileOr opening id >>= f) := by
  intro o hworks
  cases hopen : fileOr opening id o with
  | error e o' =>
    rw [Action.bind_of_error hopen]
    exact hopening.of_error hworks hopen
  | ok ref o' =>
    rw [Action.bind_of_ok hopen]
    have hkept := hf (mem_of_fileOr hopen)
    have hopened : WorksAs dir h o'.item o' := ⟨hopening.of_ok hworks hopen, rfl⟩
    cases hresult : f ref o' with
    | ok a o'' => exact (hkept.of_ok hopened hresult).1
    | error e o'' => exact (hkept.of_error hopened hresult).1

theorem keeps_writeTo {v : ValueFolder} (hmem : (id, ref) ∈ v.files) (value : Bytes) :
    Keeps (WorksAs dir h v) (writeTo id ref value) :=
  .bind (keeps_onFile hmem _) fun _ => .pure _

theorem keeps_writeAll (id : UInt64) (values : List Bytes) :
    Keeps (Works dir h) (fileOrNew id >>= fun ref => values.mapM (writeTo id ref)) :=
  keeps_withFile (keeps_fileOrNew id) fun hmem => .mapM fun value _ => keeps_writeTo hmem value

theorem keeps_write (id : UInt64) (value : Bytes) : Keeps (Works dir h) (write id value) :=
  keeps_withFile (keeps_fileOrNew id) fun hmem => keeps_writeTo hmem value

theorem keeps_read (p : ValuePointer) : Keeps (Works dir h) (read p) :=
  keeps_withFile (keeps_storedFile p.fileId) fun hmem => keeps_onFile hmem _

theorem keeps_close (id : UInt64) : Keeps (Works dir h) (close id) := fun _ hworks =>
  { hworks with files := fun he => hworks.files (List.mem_filter.1 he).1 }

theorem keeps_sync : Keeps (Works dir h) sync := by
  intro o hworks
  have hall : Keeps (WorksAs dir h o.item) sync := by
    intro o' hkept
    unfold sync
    rw [Action.item_bind, hkept.2]
    refine Keeps.bind (.forIn _ fun e he _ => ?_) (fun _ => .pure _) o' hkept
    exact .bind (keeps_onFile he _) fun _ => .pure _
  cases hsync : sync o with
  | ok u o' => exact (hall.of_ok ⟨hworks, rfl⟩ hsync).1
  | error e o' => exact (hall.of_error ⟨hworks, rfl⟩ hsync).1

end ValueFolder

end AppendStore
