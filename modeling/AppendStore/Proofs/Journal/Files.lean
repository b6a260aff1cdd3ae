import AppendStore.Journal.Basic
import AppendStore.Proofs.Disk.Kinds
import AppendStore.Proofs.Host.Segments

/-!
# The files of a journal

The segments of a journal are files with the ids 1, 2, 3 and so on. They are listed
here with the newest first, so a file is numbered by the files behind it
(`Journal.idAt`).

`Journal.OwnFiles` says that the files of a list are in the directory, and that each one
holds the records of its ledger. There may be other log files, but none with records.
Opening a file of the list for reading, writing to the newest one and moving on to the
next one are the three things that happen to a journal. The first leaves the disk alone
(`OwnFiles.openSegment_of_known`), and the other two lead to another list
(`OwnFiles.update`, `OwnFiles.openSegment_of_offer`). What stands by the name of the next
file decides how opening it ends (`Journal.offer`): something that is in the way stays
there, and nothing happens (`OwnFiles.openSegment_of_refused`).

`Journal.LogFiles` says that the files of the list are all log files that there are, and
`Journal.Files` adds the path of the directory. Whatever else is in the directory does
not count as a log file. Such files are a journal's own (`Files.own`, `OwnFiles.alone`).

Ids are numbers of 64 bits. The names of a journal stay apart until all of them are
used, but only up to the last id but one are they in the order of their files.
-/

namespace AppendStore

namespace Journal

open Segment

section Opening

variable {j : Journal} {h : Host} {id : UInt64}

theorem segmentAt_of_isFile (hfile : h.disk.isFile (Host.segmentPath j.dir id) = true) :
    j.segmentAt id h = Host.openSegment j.dir id j.segmentCapacity h := by
  unfold segmentAt
  rw [Action.get_bind, if_pos hfile]

theorem segmentAt_of_not_isFile (hfile : h.disk.isFile (Host.segmentPath j.dir id) ≠ true) :
    j.segmentAt id h = .error (.io (.segmentMissing id)) h := by
  unfold segmentAt
  rw [Action.get_bind, if_neg hfile]
  rfl

end Opening

def idAt (n : Nat) : UInt64 := UInt64.ofNat (n + 1)

theorem idAt_succ (n : Nat) : idAt (n + 1) = idAt n + 1 := UInt64.ofNat_add (n + 1) 1

theorem toNat_idAt {n : Nat} (h : n + 1 < UInt64.size) : (idAt n).toNat = n + 1 := by
  rw [idAt, UInt64.toNat_ofNat_of_lt' h]

theorem eq_idAt {id : UInt64} (hpos : 0 < id.toNat) : id = idAt (id.toNat - 1) := by
  rw [idAt, Nat.sub_add_cancel hpos, UInt64.ofNat_toNat]

theorem map_idAt_range (n : Nat) :
    (List.range n).map idAt = (List.range' 1 n).map UInt64.ofNat := by
  rw [List.range'_eq_map_range, List.map_map]
  apply List.map_congr_left
  intro i _
  rw [idAt, Function.comp_apply, Nat.add_comm]

theorem idAt_injective {m n : Nat} (hm : m < UInt64.size) (hn : n < UInt64.size)
    (h : idAt m = idAt n) : m = n := by
  have hmod : (m + 1) % UInt64.size = (n + 1) % UInt64.size := by
    have htoNat := congrArg UInt64.toNat h
    rwa [idAt, idAt, UInt64.toNat_ofNat', UInt64.toNat_ofNat'] at htoNat
  simp only [UInt64.size] at hm hn hmod
  omega

theorem idAt_ne {m n : Nat} (hn : n < UInt64.size) (hlt : m < n) : idAt m ≠ idAt n :=
  fun heq => Nat.ne_of_lt hlt (idAt_injective (Nat.lt_trans hlt hn) hn heq)

/-- An id that is none of the first ones is zero, which is never given, or it comes later. -/
theorem forall_idAt_ne_iff {n : Nat} (hn : n + 1 < UInt64.size) {id : UInt64} :
    (∀ m < n + 1, idAt m ≠ id) ↔ id.toNat = 0 ∨ idAt n < id := by
  rw [UInt64.lt_iff_toNat_lt, toNat_idAt hn]
  constructor
  · intro hother
    rcases Nat.eq_zero_or_pos id.toNat with hzero | hpos
    · exact .inl hzero
    · refine .inr (Nat.lt_of_not_le fun hle => ?_)
      exact hother (id.toNat - 1) (Nat.lt_of_lt_of_le (Nat.sub_lt hpos Nat.one_pos) hle)
        (eq_idAt hpos).symm
  · rintro hcases m hm rfl
    rw [toNat_idAt (Nat.lt_of_le_of_lt hm hn)] at hcases
    omega

theorem pairwise_idAt {n : Nat} (h : n < UInt64.size) :
    ((List.range n).map idAt).Pairwise (· < ·) := by
  rw [List.pairwise_map]
  refine List.Pairwise.imp_of_mem ?_ List.pairwise_lt_range
  intro i j hi hj hij
  rw [List.mem_range] at hi hj
  rw [UInt64.lt_iff_toNat_lt, toNat_idAt (Nat.lt_of_le_of_lt hi h),
    toNat_idAt (Nat.lt_of_le_of_lt hj h)]
  exact Nat.succ_lt_succ hij

/-- A file of a journal: where its bytes are, and the records in it. -/
structure LogFile where
  store : StoreRef
  ledger : Ledger

def recordsIn : List LogFile → List (Appended × Transaction)
  | [] => []
  | f :: older =>
    recordsIn older ++ f.ledger.entries.map fun e => (⟨idAt older.length, e.1⟩, e.2)

theorem exists_suffix {files : List LogFile} {n : Nat} (hn : n < files.length) :
    ∃ f older, f :: older <:+ files ∧ older.length = n := by
  induction files with
  | nil => cases hn
  | cons g rest ih =>
    rcases Nat.lt_or_eq_of_le (Nat.le_of_lt_succ hn) with hlt | heq
    · obtain ⟨f, older, hmem, hlength⟩ := ih hlt
      exact ⟨f, older, hmem.trans (List.suffix_cons g rest), hlength⟩
    · exact ⟨g, rest, List.suffix_rfl, heq.symm⟩

theorem exists_suffix_of_mem {files : List LogFile} {f : LogFile} (hf : f ∈ files) :
    ∃ older, f :: older <:+ files := by
  obtain ⟨newer, older, rfl⟩ := List.append_of_mem hf
  exact ⟨older, List.suffix_append newer (f :: older)⟩

theorem length_eq_of_store {files older rest : List LogFile} {f g : LogFile}
    (hapart : (files.map LogFile.store).Nodup) (hf : f :: older <:+ files) (hg : g :: rest <:+ files)
    (hstore : f.store = g.store) : older.length = rest.length := by
  have hinner : ∀ {f g : LogFile} {older rest : List LogFile}, f :: older <:+ g :: rest →
      g :: rest <:+ files → f.store = g.store → older.length = rest.length := by
    intro f g older rest hmem hg hstore
    have hnodup : ((g :: rest).map LogFile.store).Nodup := (hg.sublist.map _).nodup hapart
    rcases List.suffix_cons_iff.1 hmem with heq | hmem
    · cases heq
      rfl
    · have hf : f.store ∈ rest.map LogFile.store :=
        List.mem_map_of_mem (hmem.subset List.mem_cons_self)
      exact absurd (hstore ▸ hf) (List.nodup_cons.1 hnodup).1
  rcases List.suffix_or_suffix_of_suffix hf hg with hmem | hmem
  · exact hinner hmem hg hstore
  · exact (hinner hmem hf hstore.symm).symm

/-- What opening the log file of an id comes to: the capacity of the segment, or what is in the
way. -/
def offer (d : Disk) (ref : DirectoryRef) (id : UInt64) (capacity : UInt32) :
    Except StoreError UInt32 :=
  match (d.children ref).lookup (FileName.of .log id) with
  | none => .ok capacity
  | some (.directory _) => .error (.io (.refused .isADirectory))
  | some (.file r) => (found id capacity (d.store r).contents).map Segment.capacity

def withFile (entries : List (String × Entry)) (name : String) (r : StoreRef) :
    List (String × Entry) :=
  match entries.lookup name with
  | none => (name, .file r) :: entries
  | some _ => entries

/-- The log files of the directory at the end of the trail are the given ones, and others that
have no records. -/
structure OwnFiles (dir : Path) (trail : List DirectoryRef) (files : List LogFile) (d : Disk) :
    Prop where
  leads : d.Leads dir trail
  room : (Disk.lastOf trail).index < d.directories.size
  accepted : ∀ id, (dir.join (FileName.of .log id)).refusal? = none
  count : files.length ≤ UInt64.size
  found : ∀ {f : LogFile} {older : List LogFile}, f :: older <:+ files →
    (d.children (Disk.lastOf trail)).lookup (FileName.of .log (idAt older.length)) =
      some (.file f.store)
  stored : ∀ f ∈ files, f.ledger.Stored (d.store f.store)
  bound : ∀ {id : UInt64} {r : StoreRef},
    (d.children (Disk.lastOf trail)).lookup (FileName.of .log id) = some (.file r) →
      r.index < d.stores.size
  separate : ∀ {id id' : UInt64} {r : StoreRef},
    (d.children (Disk.lastOf trail)).lookup (FileName.of .log id) = some (.file r) →
    (d.children (Disk.lastOf trail)).lookup (FileName.of .log id') = some (.file r) → id = id'
  /-- A log file that is none of the given ones. -/
  others : ∀ {id : UInt64} {r : StoreRef},
    (d.children (Disk.lastOf trail)).lookup (FileName.of .log id) = some (.file r) →
    (∀ n < files.length, idAt n ≠ id) → Barren id (d.store r)

namespace OwnFiles

variable {dir : Path} {trail : List DirectoryRef} {files older : List LogFile} {f : LogFile}
  {d d' : Disk} {h : Host} {l : Ledger} {b : ByteStore} {r : StoreRef} {id : UInt64}
  {capacity c : UInt32} {e : StoreError}

theorem store_ne (hown : OwnFiles dir trail files d) (hmem : f :: older <:+ files)
    (hne : idAt older.length ≠ id)
    (hfound : (d.children (Disk.lastOf trail)).lookup (FileName.of .log id) = some (.file r)) :
    f.store ≠ r :=
  fun heq => hne (hown.separate (hown.found hmem) (heq ▸ hfound))

theorem store_ne_of_mem (hown : OwnFiles dir trail (f :: older) d) {g : LogFile} (hg : g ∈ older) :
    f.store ≠ g.store := by
  obtain ⟨rest, hmem⟩ := exists_suffix_of_mem hg
  have hlt : rest.length < older.length := hmem.length_le
  exact hown.store_ne List.suffix_rfl (idAt_ne hown.count hlt).symm
    (hown.found (hmem.trans (List.suffix_cons f older)))

theorem apart (hown : OwnFiles dir trail files d) : (files.map LogFile.store).Nodup := by
  have hsuffix : ∀ {behind : List LogFile}, behind <:+ files →
      (behind.map LogFile.store).Nodup := by
    intro behind hbehind
    induction behind with
    | nil => exact List.nodup_nil
    | cons g rest ih =>
      refine List.nodup_cons.2 ⟨fun hmem => ?_, ih ((List.suffix_cons g rest).trans hbehind)⟩
      obtain ⟨g', hg', hstore⟩ := List.mem_map.1 hmem
      obtain ⟨rest', hrest⟩ := exists_suffix_of_mem hg'
      have hlt : rest.length < UInt64.size := Nat.lt_of_lt_of_le hbehind.length_le hown.count
      have hne := idAt_ne hlt hrest.length_le
      exact hown.store_ne hbehind hne.symm
        (hown.found (hrest.trans ((List.suffix_cons g rest).trans hbehind))) hstore.symm
  exact hsuffix List.suffix_rfl

theorem bound_of_mem (hown : OwnFiles dir trail files d) (hf : f ∈ files) :
    f.store.index < d.stores.size := by
  obtain ⟨older, hmem⟩ := exists_suffix_of_mem hf
  exact hown.bound (hown.found hmem)

/-- A file of the list is opened as it is. -/
theorem openSegment_of_known (hown : OwnFiles dir trail files h.disk) (hmem : f :: older <:+ files)
    (capacity : UInt32) :
    ∃ s, Host.openSegment dir (idAt older.length) capacity h =
        .ok ⟨h.segments.size⟩ (h.withOpened s f.store) ∧
      s.id = idAt older.length ∧ f.ledger.Models s (h.disk.store f.store) :=
  Host.openSegment_of_file hown.leads (hown.accepted _) (hown.found hmem)
    (hown.bound (hown.found hmem)) (hown.stored f (hmem.subset List.mem_cons_self))

theorem isFile_of_known (hown : OwnFiles dir trail files d) (hmem : f :: older <:+ files) :
    d.isFile (Host.segmentPath dir (idAt older.length)) = true :=
  Disk.isFile_of_file hown.leads (FileName.plainName .log _) (hown.accepted _)
    (Host.maxNameBytes_of .log _) (hown.found hmem)

/-- Writing to the newest file changes what is in it. -/
theorem update (hown : OwnFiles dir trail (f :: older) d) (hstored : l.Stored b) :
    OwnFiles dir trail ({ f with ledger := l } :: older) (d.setStore f.store b) where
  leads := hown.leads.setStore _ _
  room := hown.room
  accepted := hown.accepted
  count := hown.count
  found := fun hmem => by
    rcases List.suffix_cons_iff.1 hmem with heq | hmem
    · cases heq
      exact hown.found (f := f) List.suffix_rfl
    · exact hown.found (hmem.trans (List.suffix_cons f older))
  stored := fun g hg => by
    rcases List.mem_cons.1 hg with rfl | hg
    · rw [Disk.store_setStore (hown.bound_of_mem List.mem_cons_self)]
      exact hstored
    · rw [Disk.store_setStore_of_ne (hown.store_ne_of_mem hg)]
      exact hown.stored g (List.mem_cons_of_mem f hg)
  bound := fun hfound => by
    rw [Disk.setStore, Array.size_setIfInBounds]
    exact hown.bound hfound
  separate := fun hfound => hown.separate hfound
  others := fun hfound hother => by
    have hne := hown.store_ne List.suffix_rfl (hother older.length (Nat.lt_succ_self _)) hfound
    rw [Disk.store_setStore_of_ne hne]
    exact hown.others hfound hother

theorem offer_setStore (hown : OwnFiles dir trail (f :: older) d) (hne : idAt older.length ≠ id)
    (b : ByteStore) (capacity : UInt32) :
    offer (d.setStore f.store b) (Disk.lastOf trail) id capacity =
      offer d (Disk.lastOf trail) id capacity := by
  have hchildren : (d.setStore f.store b).children (Disk.lastOf trail) =
      d.children (Disk.lastOf trail) := rfl
  unfold offer
  rw [hchildren]
  split
  · rfl
  · rfl
  · next r hfound =>
    rw [Disk.store_setStore_of_ne (hown.store_ne List.suffix_rfl hne hfound)]

theorem lookup_of_grown
    (hgrown : d.Grown (Disk.lastOf trail) (FileName.of .log id) (.onDisk []) d') {id' : UInt64}
    (hfound : (d'.children (Disk.lastOf trail)).lookup (FileName.of .log id') = some (.file r)) :
    id' = id ∧ r = ⟨d.stores.size⟩ ∨
      (d.children (Disk.lastOf trail)).lookup (FileName.of .log id') = some (.file r) := by
  rcases hgrown.lookup_cases hfound with ⟨-, hname, heq⟩ | hold
  · cases heq
    exact .inl ⟨FileName.of_injective hname, rfl⟩
  · exact .inr hold

theorem separate_grown (hown : OwnFiles dir trail files d)
    (hgrown : d.Grown (Disk.lastOf trail) (FileName.of .log id) (.onDisk []) d') {id' id'' : UInt64}
    (hfound' : (d'.children (Disk.lastOf trail)).lookup (FileName.of .log id') = some (.file r))
    (hfound'' : (d'.children (Disk.lastOf trail)).lookup (FileName.of .log id'') = some (.file r)) :
    id' = id'' := by
  rcases lookup_of_grown hgrown hfound' with ⟨rfl, rfl⟩ | hold'
  · rcases lookup_of_grown hgrown hfound'' with ⟨rfl, -⟩ | hold''
    · rfl
    · exact absurd (hown.bound hold'') (Nat.lt_irrefl _)
  · rcases lookup_of_grown hgrown hfound'' with ⟨rfl, rfl⟩ | hold''
    · exact absurd (hown.bound hold') (Nat.lt_irrefl _)
    · exact hown.separate hold' hold''

theorem grown (hown : OwnFiles dir trail files d)
    (hgrown : d.Grown (Disk.lastOf trail) (FileName.of .log id) (.onDisk []) d') :
    OwnFiles dir trail files d' where
  leads := hgrown.extended.leads hown.leads
  room := hgrown.directories_size.symm ▸ hown.room
  accepted := hown.accepted
  count := hown.count
  found := fun hmem => hgrown.extended _ _ _ (hown.found hmem)
  stored := fun f hf => by
    rw [hgrown.store_old (hown.bound_of_mem hf)]
    exact hown.stored f hf
  bound := fun hfound => by
    rcases lookup_of_grown hgrown hfound with ⟨-, rfl⟩ | hold
    · exact hgrown.lt_size
    · exact Nat.lt_trans (hown.bound hold) hgrown.lt_size
  separate := hown.separate_grown hgrown
  others := fun hfound hother => by
    rcases lookup_of_grown hgrown hfound with ⟨rfl, rfl⟩ | hold
    · rw [hgrown.store_new]
      exact barren_of_small (ByteStore.plain_onDisk []) (by decide) (Nat.zero_le _) _
    · rw [hgrown.store_old (hown.bound hold)]
      exact hown.others hold hother

theorem withOther (hown : OwnFiles dir trail files d) (hother : ∀ n < files.length, idAt n ≠ id)
    (hfound : (d.children (Disk.lastOf trail)).lookup (FileName.of .log id) = some (.file r))
    (hbarren : Barren id b) : OwnFiles dir trail files (d.setStore r b) where
  leads := hown.leads.setStore _ _
  room := hown.room
  accepted := hown.accepted
  count := hown.count
  found := hown.found
  stored := fun f hf => by
    obtain ⟨older, hmem⟩ := exists_suffix_of_mem hf
    rw [Disk.store_setStore_of_ne (hown.store_ne hmem (hother _ hmem.length_le) hfound).symm]
    exact hown.stored f hf
  bound := fun hfound' => by
    rw [Disk.setStore, Array.size_setIfInBounds]
    exact hown.bound hfound'
  separate := hown.separate
  others := fun {id' r'} hfound' hother' => by
    by_cases hsame : r = r'
    · subst hsame
      rw [Disk.store_setStore (hown.bound hfound), hown.separate hfound' hfound]
      exact hbarren
    · rw [Disk.store_setStore_of_ne hsame]
      exact hown.others hfound' hother'

/-- A file by the next name, with other bytes in it, is the newest one. -/
theorem take (hown : OwnFiles dir trail files d) (hcount : files.length < UInt64.size)
    (hfound : (d.children (Disk.lastOf trail)).lookup (FileName.of .log (idAt files.length)) =
      some (.file r)) (hstored : l.Stored b) :
    OwnFiles dir trail (⟨r, l⟩ :: files) (d.setStore r b) where
  leads := hown.leads.setStore _ _
  room := hown.room
  accepted := hown.accepted
  count := hcount
  found := fun hmem => by
    rcases List.suffix_cons_iff.1 hmem with heq | hmem
    · cases heq
      exact hfound
    · exact hown.found hmem
  stored := fun g hg => by
    rcases List.mem_cons.1 hg with rfl | hg
    · rw [Disk.store_setStore (hown.bound hfound)]
      exact hstored
    · obtain ⟨rest, hmem⟩ := exists_suffix_of_mem hg
      rw [Disk.store_setStore_of_ne (hown.store_ne hmem (idAt_ne hcount hmem.length_le) hfound).symm]
      exact hown.stored g hg
  bound := fun hfound => by
    rw [Disk.setStore, Array.size_setIfInBounds]
    exact hown.bound hfound
  separate := fun hfound => hown.separate hfound
  others := fun hfound' hother => by
    have hne : r ≠ _ := fun heq =>
      hother files.length (Nat.lt_succ_self _) (hown.separate hfound (heq ▸ hfound'))
    rw [Disk.store_setStore_of_ne hne]
    exact hown.others hfound' fun n hn => hother n (Nat.lt_succ_of_lt hn)

/-- What is in the way of the next file stays there, and nothing happens. -/
theorem openSegment_of_refused (hown : OwnFiles dir trail files h.disk)
    (hcount : files.length < UInt64.size)
    (hoffer : offer h.disk (Disk.lastOf trail) (idAt files.length) capacity = .error e) :
    Host.openSegment dir (idAt files.length) capacity h = .error e h := by
  unfold offer at hoffer
  split at hoffer
  · cases hoffer
  · next hfound =>
    cases hoffer
    exact Host.openSegment_of_directory hown.leads (hown.accepted _) hfound
  · next r hfound =>
    have hbarren := hown.others hfound fun n hn => idAt_ne hcount hn
    have hopen := Disk.openOrCreate_of_file hown.leads (FileName.plainName .log _)
      (hown.accepted _) (Host.maxNameBytes_of .log _) hfound
    cases hresult : Segment.found (idAt files.length) capacity (h.disk.store r).contents with
    | ok s =>
      rw [hresult] at hoffer
      cases hoffer
    | error e' =>
      rw [hresult] at hoffer
      cases hoffer
      exact Host.openSegment_of_error hopen hbarren.plain hresult

/-- Opening the next segment makes a file without records, unless something is in the way. -/
theorem openSegment_of_offer (hown : OwnFiles dir trail files h.disk)
    (hcount : files.length < UInt64.size) (hcapacity : CapacityOk capacity)
    (hoffer : offer h.disk (Disk.lastOf trail) (idAt files.length) capacity = .ok c) :
    ∃ r s h', Host.openSegment dir (idAt files.length) capacity h = .ok ⟨h.segments.size⟩ h' ∧
      OwnFiles dir trail (⟨r, ⟨c, []⟩⟩ :: files) h'.disk ∧
      h'.disk.children (Disk.lastOf trail) = withFile (h.disk.children (Disk.lastOf trail))
        (FileName.of .log (idAt files.length)) r ∧
      h'.segment? ⟨h.segments.size⟩ = some ⟨s, r⟩ ∧ s.id = idAt files.length ∧
      (⟨c, []⟩ : Ledger).Models s (h'.disk.store r) := by
  unfold offer at hoffer
  split at hoffer
  · next hfree =>
    cases hoffer
    obtain ⟨s, d, b, hopen, hgrown, hid, hmodels, hsize⟩ := Host.openSegment_of_free hown.leads
      (hown.accepted _) hown.room hfree hcapacity
    have hchildren := hgrown.children_same
    have hstore : (d.setStore ⟨h.disk.stores.size⟩ b).store ⟨h.disk.stores.size⟩ = b :=
      Disk.store_setStore hgrown.lt_size
    refine ⟨_, s, _, hopen, (hown.grown hgrown).take hcount ?_ ⟨hsize, s, hmodels⟩, ?_,
      Host.segment?_withOpened _ _ _, hid, ?_⟩
    · rw [hchildren, List.lookup_cons_self]
    · rw [withFile, hfree]
      exact hchildren
    · exact hstore.symm ▸ hmodels
  · cases hoffer
  · next r hfound =>
    have hbarren := hown.others hfound fun n hn => idAt_ne hcount hn
    have hopen := Disk.openOrCreate_of_file hown.leads (FileName.plainName .log _)
      (hown.accepted _) (Host.maxNameBytes_of .log _) hfound
    cases hresult : Segment.found (idAt files.length) capacity (h.disk.store r).contents with
    | error e' =>
      rw [hresult] at hoffer
      cases hoffer
    | ok s =>
      rw [hresult] at hoffer
      cases hoffer
      obtain ⟨hmodels, hsize⟩ := Host.models_foundFile hbarren hresult
      have hid : s.id = idAt files.length := congrArg Segment.id (hbarren.fresh hresult).2
      have hsegment := Host.openSegment_of_found hopen hbarren.plain (hown.bound hfound) hresult
      have hstore : (h.disk.setStore r (Host.foundFile (h.disk.store r) s)).store r = _ :=
        Disk.store_setStore (hown.bound hfound)
      refine ⟨r, _, _, hsegment, hown.take hcount hfound ⟨hsize, s, hmodels⟩, ?_,
        Host.segment?_withOpened _ _ _, hid, ?_⟩
      · rw [withFile, hfound]
        rfl
      · exact hstore.symm ▸ hmodels.renamed _

end OwnFiles

/-- The log files in a directory are the given ones, and hold the records of their ledgers. -/
structure LogFiles (ref : DirectoryRef) (files : List LogFile) (d : Disk) : Prop where
  count : files.length ≤ UInt64.size
  found : ∀ {f : LogFile} {older : List LogFile}, f :: older <:+ files →
    (d.children ref).lookup (FileName.of .log (idAt older.length)) = some (.file f.store)
  /-- Just the ids of the files are read off the names. -/
  ids : (d.children ref).filterMap (Disk.idOf? .log) = ((List.range files.length).map idAt).reverse
  apart : (files.map LogFile.store).Nodup
  bound : ∀ f ∈ files, f.store.index < d.stores.size
  stored : ∀ f ∈ files, f.ledger.Stored (d.store f.store)

theorem logFiles_nil {ref : DirectoryRef} {d : Disk}
    (hnone : ∀ e ∈ d.children ref, Disk.idOf? .log e = none) : LogFiles ref [] d where
  count := Nat.zero_le _
  found := fun hmem => by cases List.suffix_nil.1 hmem
  ids := List.filterMap_eq_nil_iff.2 hnone
  apart := List.nodup_nil
  bound := nofun
  stored := nofun

structure Files (dir : Path) (trail : List DirectoryRef) (files : List LogFile) (d : Disk) :
    Prop extends LogFiles (Disk.lastOf trail) files d where
  leads : d.Leads dir trail
  room : (Disk.lastOf trail).index < d.directories.size
  accepted : ∀ id, (dir.join (FileName.of .log id)).refusal? = none

theorem Files.exists_of_lookup {dir : Path} {trail : List DirectoryRef} {files : List LogFile}
    {d : Disk} {id : UInt64} {r : StoreRef} (hfiles : Files dir trail files d)
    (hfound : (d.children (Disk.lastOf trail)).lookup (FileName.of .log id) = some (.file r)) :
    ∃ f older, f :: older <:+ files ∧ id = idAt older.length ∧ r = f.store := by
  obtain ⟨before, after, hsplit, -⟩ := List.lookup_eq_some_iff.1 hfound
  have hmem : id ∈ (d.children (Disk.lastOf trail)).filterMap (Disk.idOf? .log) := by
    refine List.mem_filterMap.2 ⟨_, ?_, Disk.idOf?_file .log _ r⟩
    rw [hsplit]
    exact List.mem_append_right _ List.mem_cons_self
  rw [hfiles.ids] at hmem
  obtain ⟨n, hn, rfl⟩ := List.mem_map.1 (List.mem_reverse.1 hmem)
  obtain ⟨f, older, hsuffix, rfl⟩ := exists_suffix (List.mem_range.1 hn)
  rw [hfiles.found hsuffix] at hfound
  cases hfound
  exact ⟨f, older, hsuffix, rfl, rfl⟩

theorem Files.own {dir : Path} {trail : List DirectoryRef} {files : List LogFile} {d : Disk}
    (hfiles : Files dir trail files d) : OwnFiles dir trail files d where
  leads := hfiles.leads
  room := hfiles.room
  accepted := hfiles.accepted
  count := hfiles.count
  found := hfiles.found
  stored := hfiles.stored
  bound := fun hfound => by
    obtain ⟨f, older, hmem, -, rfl⟩ := hfiles.exists_of_lookup hfound
    exact hfiles.bound f (hmem.subset List.mem_cons_self)
  separate := fun hfound hfound' => by
    obtain ⟨f, older, hmem, rfl, rfl⟩ := hfiles.exists_of_lookup hfound
    obtain ⟨g, rest, hmem', rfl, hsame⟩ := hfiles.exists_of_lookup hfound'
    rw [length_eq_of_store hfiles.apart hmem hmem' hsame]
  others := fun hfound hother => by
    obtain ⟨f, older, hmem, rfl, -⟩ := hfiles.exists_of_lookup hfound
    exact absurd rfl (hother older.length hmem.length_le)

/-- If just the ids of the files are read off the names, there are no others. -/
theorem OwnFiles.alone {dir : Path} {trail : List DirectoryRef} {files : List LogFile} {d : Disk}
    (hown : OwnFiles dir trail files d)
    (hids : (d.children (Disk.lastOf trail)).filterMap (Disk.idOf? .log) =
      ((List.range files.length).map idAt).reverse) : Files dir trail files d :=
  ⟨⟨hown.count, hown.found, hids, hown.apart, fun _ => hown.bound_of_mem, hown.stored⟩, hown.leads,
    hown.room, hown.accepted⟩

theorem idsIn_of_ids {dir : Path} {trail : List DirectoryRef} {h : Host} {n : Nat}
    (hleads : h.disk.Leads dir trail)
    (hids : (h.disk.children (Disk.lastOf trail)).filterMap (Disk.idOf? .log) =
      ((List.range n).map idAt).reverse) (hn : n < UInt64.size) :
    Host.idsIn .log dir h = .ok ((List.range n).map idAt) h := by
  have hsorted : ((List.range n).map idAt).Pairwise (· ≤ ·) :=
    (pairwise_idAt hn).imp UInt64.le_of_lt
  have hlist := hleads.idsIn_eq .log
  rw [List.filterMap_reverse, hids, List.reverse_reverse, hsorted.insertionSort_eq] at hlist
  exact Host.onDisk_ofIo_of_ok hlist

namespace Files

variable {dir : Path} {trail : List DirectoryRef} {files older : List LogFile} {f : LogFile}
  {d d' : Disk} {h : Host} {l : Ledger} {b : ByteStore}

theorem idsIn_sorted (hfiles : Files dir trail files h.disk) :
    ∃ ids, Host.idsIn .log dir h = .ok ids h ∧
      ids = ((List.range files.length).map idAt).insertionSort (· ≤ ·) := by
  have hids := hfiles.leads.idsIn_eq .log
  rw [List.filterMap_reverse, hfiles.ids, List.reverse_reverse] at hids
  exact ⟨_, Host.onDisk_ofIo_of_ok hids, rfl⟩

theorem idsIn_eq (hfiles : Files dir trail files h.disk) (hcount : files.length < UInt64.size) :
    Host.idsIn .log dir h = .ok ((List.range files.length).map idAt) h :=
  idsIn_of_ids hfiles.leads hfiles.ids hcount

/-- Work that is nothing to log files leaves the files of a journal as they are. -/
theorem spared (hfiles : Files dir trail files d) (hlinked : d'.Linked)
    (hspares : d.Spares .log d') : Files dir trail files d' := by
  have hleads := hspares.extended.leads hfiles.leads
  have hthere : ∀ g ∈ files, ∃ id,
      (d.children (Disk.lastOf trail)).lookup (FileName.of .log id) = some (.file g.store) := by
    intro g hg
    obtain ⟨older, hmem⟩ := exists_suffix_of_mem hg
    exact ⟨_, hfiles.found hmem⟩
  refine ⟨⟨hfiles.count, fun hmem => hspares.extended _ _ _ (hfiles.found hmem),
    (hspares.listed _).trans hfiles.ids, hfiles.apart, fun g hg => ?_, fun g hg => ?_⟩,
    hleads, hlinked.leads_lt hleads, hfiles.accepted⟩
  · obtain ⟨id, hfound⟩ := hthere g hg
    exact hlinked.files (hspares.extended _ _ _ hfound)
  · obtain ⟨id, hfound⟩ := hthere g hg
    rw [hspares.store_eq hfound]
    exact hfiles.stored g hg

theorem ids_next (hfiles : Files dir trail files d) (r : StoreRef) :
    ((FileName.of .log (idAt files.length), .file r) ::
      d.children (Disk.lastOf trail)).filterMap (Disk.idOf? .log) =
      ((List.range (files.length + 1)).map idAt).reverse := by
  rw [List.filterMap_cons_some (Disk.idOf?_file .log _ _), hfiles.ids, List.range_succ,
    List.map_append, List.reverse_append]
  rfl

/-- Nothing has the name of the next file, or a directory does. -/
theorem offer_next (hfiles : Files dir trail files d) (hcount : files.length < UInt64.size)
    (capacity : UInt32) :
    (d.children (Disk.lastOf trail)).lookup (FileName.of .log (idAt files.length)) = none ∧
      offer d (Disk.lastOf trail) (idAt files.length) capacity = .ok capacity ∨
    (∃ inner, (d.children (Disk.lastOf trail)).lookup (FileName.of .log (idAt files.length)) =
      some (.directory inner)) ∧ ∃ e,
      offer d (Disk.lastOf trail) (idAt files.length) capacity = .error e := by
  unfold offer
  cases hfound : (d.children (Disk.lastOf trail)).lookup
      (FileName.of .log (idAt files.length)) with
  | none => exact .inl ⟨rfl, rfl⟩
  | some entry =>
    cases entry with
    | directory inner => exact .inr ⟨⟨inner, rfl⟩, _, rfl⟩
    | file r =>
      obtain ⟨f, older, hmem, hid, -⟩ := hfiles.exists_of_lookup hfound
      exact absurd hid.symm (idAt_ne hcount hmem.length_le)

end Files

end Journal

end AppendStore
