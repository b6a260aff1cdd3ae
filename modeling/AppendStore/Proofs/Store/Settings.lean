import AppendStore.Proofs.Disk.Beside
import AppendStore.Proofs.Store.Operations

/-!
# What accepted settings are good for

Settings that `Config.check` accepts open a store wherever their directories can be made and
there is nothing in the one of the log then (`Store.inUse_of_prepared`). The value directory is
made after the first log file. It can be made as well then, since it is not inside the log
directory (`Disk.makeDirectory_beside`).

Such a store can be used, but not always written to. A segment must be larger than its word and
one record header to be accepted, and the body of a record has at least
`Transaction.minLength` bytes besides. If the capacity leaves room for that,
the smallest transaction can always be committed and read back. Otherwise no transaction can
ever be committed. `Store.accepted_settings_serve` puts this together.
-/

namespace AppendStore

open StoreError (NotConfig)

namespace Transaction

variable {t : Transaction}

/-- The bytes of the smallest transaction: the prefix, a tag and the length of an empty key. -/
def minLength : Nat := prefixSize + 5

/-- It deletes the empty key, and that is all. -/
def IsSmallest (t : Transaction) : Prop := t.changes = [.delete []]

instance (t : Transaction) : Decidable t.IsSmallest := inferInstanceAs (Decidable (_ = _))

theorem IsSmallest.writable (h : t.IsSmallest) : t.Writable where
  nonempty := h ▸ List.cons_ne_nil _ _
  count := h ▸ (by decide)
  changes := by
    rw [h]
    exact List.forall_mem_singleton.2 rfl

theorem IsSmallest.encodedLength_eq (h : t.IsSmallest) : t.encodedLength = minLength := by
  rw [encodedLength, h]
  rfl

theorem Writable.minLength_le (h : t.Writable) : minLength ≤ t.encodedLength := by
  rw [encodedLength, minLength]
  cases hchanges : t.changes with
  | nil => exact absurd hchanges h.nonempty
  | cons c cs =>
    have hchange : 5 ≤ c.encodedLength := by
      cases c <;> simp only [Change.encodedLength] <;> omega
    exact Nat.add_le_add_left (Nat.le_add_right_of_le hchange) prefixSize

end Transaction

/-- A new segment has room for the smallest transaction. -/
def Config.Suffices (c : Config) : Prop :=
  Segment.minCapacity + Transaction.minLength ≤ c.segmentCapacity.toNat

instance (c : Config) : Decidable c.Suffices := inferInstanceAs (Decidable (_ ≤ _))

/-- Both directories of the settings can be made, and there is nothing in the one of the log then.
The file system takes the path of the first log file in it. -/
def Host.Prepared (h : Host) (config : Config) : Prop :=
  ∃ h₁ h₂ place ref, makeDirectory config.logDir h = .ok () h₁ ∧
    makeDirectory config.valueDir h₁ = .ok () h₂ ∧
    h₂.disk.find config.logDir = .ok (place, .directory ref) ∧
    h₂.disk.directories[ref.index]? = some [] ∧
    (config.logDir.join (FileName.of .log Journal.firstSegmentId)).refusal? = none

/-- The directory of the log was empty as soon as it was there. -/
theorem Host.Prepared.stages {config : Config} {h : Host} (hprepared : h.Prepared config)
    (hlinked : h.disk.Linked) :
    ∃ h₁ h₂ trail, makeDirectory config.logDir h = .ok () h₁ ∧
      makeDirectory config.valueDir h₁ = .ok () h₂ ∧ h₁.disk.Leads config.logDir trail ∧
      h₁.disk.children (Disk.lastOf trail) = [] ∧ h₂.disk.children (Disk.lastOf trail) = [] ∧
      (config.logDir.join (FileName.of .log Journal.firstSegmentId)).refusal? = none := by
  obtain ⟨h₁, h₂, place, ref, hmake, hvalues, hfind, hempty, haccepted⟩ := hprepared
  obtain ⟨trail, hleads₂, rfl⟩ := Disk.leads_of_find hfind
  have hmake₁ := onDisk_ofIo_eq_ok hmake
  have hmake₂ := onDisk_ofIo_eq_ok hvalues
  have hextends := (Disk.spares_of_makeDirectory (hlinked.of_makeDirectory hmake₁) hmake₂
    .log).extended
  have hnone₂ : h₂.disk.children (Disk.lastOf trail) = [] := by
    rw [Disk.children, Array.getD_eq_getD_getElem?, hempty]
    rfl
  have hnone₁ : h₁.disk.children (Disk.lastOf trail) = [] := by
    obtain ⟨more, hmore, -⟩ := (Disk.made_of_makeDirectory hmake₂).children (Disk.lastOf trail)
    exact (List.append_eq_nil_iff.1 (hmore.symm.trans hnone₂)).2
  have hleads₁ : h₁.disk.Leads config.logDir trail := by
    rcases Disk.has_of_makeDirectory hlinked hmake₁ with hpath | ⟨trail', hleads⟩
    · rw [hleads₂.nonempty] at hpath
      cases hpath
    · rwa [(hextends.leads hleads).trail_eq hleads₂] at hleads
  exact ⟨h₁, h₂, trail, hmake, hvalues, hleads₁, hnone₁, hnone₂, haccepted⟩

theorem Host.vacant_of_leads {dir : Path} {h h₁ : Host} {trail : List DirectoryRef}
    (hmake : makeDirectory dir h = .ok () h₁) (hlinked : h₁.disk.Linked)
    (hleads : h₁.disk.Leads dir trail) (hnone : h₁.disk.children (Disk.lastOf trail) = [])
    (haccepted : (dir.join (FileName.of .log Journal.firstSegmentId)).refusal? = none) :
    h.Vacant dir := by
  obtain ⟨place, -, -, hfind⟩ := hleads.find_eq
  have hroom := Array.getElem?_eq_getElem (hlinked.leads_lt hleads)
  rw [Disk.children, Array.getD_eq_getD_getElem?, hroom] at hnone
  exact ⟨h₁, place, _, hmake, hfind, hroom.trans (congrArg some hnone), haccepted⟩

theorem Host.prepared_empty {config : Config} (hlog : config.logDir = ⟨"wal"⟩)
    (hvalues : config.valueDir = ⟨"values"⟩) : Host.empty.Prepared config := by
  have hmake : makeDirectory ⟨"wal"⟩ Host.empty =
      .ok () { disk := { directories := #[[], [("wal", .directory ⟨2⟩)], []] } } := rfl
  have hmake' : makeDirectory ⟨"values"⟩
      { disk := { directories := #[[], [("wal", .directory ⟨2⟩)], []] } } =
      .ok () { disk := { directories := #[[], [("values", .directory ⟨3⟩), ("wal", .directory ⟨2⟩)],
        [], []] } } := rfl
  rw [Prepared, hlog, hvalues]
  exact ⟨_, _, _, _, hmake, hmake', rfl, rfl, rfl⟩

/-- A record that has room in a new segment has room where the gauge puts it. -/
theorem Journal.Gauge.fits_seat_iff {config : Config} {g : Gauge} {length : Nat} :
    (g.seat config length).Fits config length ↔
      Segment.wordSize + length ≤ config.segmentCapacity.toNat := by
  unfold seat
  split
  · next hfits =>
    refine ⟨fun _ => ?_, fun _ => hfits⟩
    rw [Fits] at hfits
    omega
  · rfl

namespace Store

variable {config : Config} {n : Nat} {o : Over Store Host} {h : Host} {t : Transaction}

namespace InUse

open Segment

theorem commit_of_suffices (h : InUse config n o) (hn : n + 2 < UInt64.size)
    (hsuffices : config.Suffices) (ht : t.IsSmallest) :
    ∃ a o', commit t o = .ok a o' ∧
      ∃ h', o'.item.journal.transactionAt a o'.base = .ok t h' := by
  obtain ⟨records, g, hstands, hused, -, hid⟩ := h.exists_gauge hn t
  rcases hstands.append hused t hid with ⟨a, p, hok, -, hnext⟩ | ⟨e, p, -, hgauge, -⟩
  · obtain ⟨trail, f, older, hlaid, hrecords, -⟩ := hnext
    have hmem : (a, t) ∈ Journal.recordsIn (f :: older) :=
      hrecords ▸ List.mem_append_right _ List.mem_cons_self
    obtain ⟨h', hread, -⟩ := hlaid.active.held.transactionAt hmem
    exact ⟨a, _, onJournal_of_ok hok, h', hread⟩
  · have hencode := Transaction.encode_eq_ok_iff.2 ⟨ht.writable, rfl⟩
    have hroom : wordSize + (recordHeaderSize + t.layout.length) ≤
        config.segmentCapacity.toNat := by
      rw [t.length_layout, ht.encodedLength_eq, ← Nat.add_assoc]
      exact hsuffices
    rw [Journal.Gauge.append_of_encode hencode,
      Journal.Gauge.place_of_fits (Journal.Gauge.fits_seat_iff.2 hroom)] at hgauge
    cases hgauge

theorem commit_of_not_suffices (h : InUse config n o) (hn : n + 2 < UInt64.size)
    (hsuffices : ¬ config.Suffices) (t : Transaction) :
    ∃ e o', commit t o = .error e o' ∧ (t.Writable →
      e = .insufficientSpace (recordHeaderSize + t.encodedLength)
        (config.segmentCapacity.toNat - wordSize : Nat)) := by
  obtain ⟨records, g, hstands, hused, -, hid⟩ := h.exists_gauge hn t
  have happend := hstands.append hused t hid
  by_cases hw : t.Writable
  · have hencode := Transaction.encode_eq_ok_iff.2 ⟨hw, rfl⟩
    have hfull : ¬ (g.seat config (recordHeaderSize + t.layout.length)).Fits config
        (recordHeaderSize + t.layout.length) := by
      have hmin := hw.minLength_le
      rw [Config.Suffices, minCapacity] at hsuffices
      rw [Journal.Gauge.fits_seat_iff, t.length_layout]
      omega
    rw [Journal.Gauge.append_of_encode hencode, Journal.Gauge.place_of_full hfull,
      t.length_layout] at happend
    rcases happend with ⟨a, p, -, hgauge, -⟩ | ⟨e, p, herror, hgauge, -⟩
    · cases hgauge
    · cases hgauge
      exact ⟨_, _, onJournal_of_error herror, fun _ => rfl⟩
  · rcases happend with ⟨a, p, -, hgauge, -⟩ | ⟨e, p, herror, -⟩
    · cases hencode : t.encode with
      | ok body => exact absurd (Transaction.encode_eq_ok_iff.1 hencode).1 hw
      | error e =>
        rw [Journal.Gauge.append_of_invalid hencode] at hgauge
        cases hgauge
    · exact ⟨e, _, onJournal_of_error herror, fun hwritable => absurd hwritable hw⟩

end InUse

/-- A journal that starts in an empty directory makes its first file there, and changes no other
name. -/
theorem first_file_of_attach {h₁ h₃ : Host} {j : Journal} {trail : List DirectoryRef}
    (hattach : Journal.attach config h = .ok j h₃)
    (hmake : Host.makeDirectory config.logDir h = .ok () h₁) (hlinked : h₁.disk.Linked)
    (hleads : h₁.disk.Leads config.logDir trail)
    (hnone : h₁.disk.children (Disk.lastOf trail) = [])
    (haccepted : (config.logDir.join (FileName.of .log Journal.firstSegmentId)).refusal? = none) :
    h₁.disk.Beside (Disk.lastOf trail) (FileName.of .log Journal.firstSegmentId) h₃.disk ∧
      ∃ r, (h₃.disk.children (Disk.lastOf trail)).lookup
        (FileName.of .log Journal.firstSegmentId) = some (.file r) := by
  obtain ⟨hcheck, h₁', ids, h₂, h₃', charged, hmake', hids, hopen, hcharge⟩ :=
    Journal.attach_eq_ok hattach
  cases hmake.symm.trans hmake'
  have hlisted := hleads.idsIn_eq .log
  rw [hnone] at hlisted
  cases (Host.onDisk_ofIo_of_ok hlisted).symm.trans hids
  have hfree : (h₁.disk.children (Disk.lastOf trail)).lookup
      (FileName.of .log Journal.firstSegmentId) = none := by rw [hnone]; rfl
  obtain ⟨s, d, b, hopened, hgrown, -⟩ := Host.openSegment_of_free hleads haccepted
    (hlinked.leads_lt hleads) hfree (Config.capacityOk_of_check hcheck)
  injection hopened.symm.trans hopen with href hhost
  subst hhost
  have hdisk : h₃.disk = d.setStore ⟨h₁.disk.stores.size⟩ b :=
    (Journal.keeps_initialCharge (·.disk = d.setStore ⟨h₁.disk.stores.size⟩ b) j.active).of_ok rfl
      hcharge
  rw [hdisk]
  refine ⟨hgrown.beside.setStore _ _, ⟨h₁.disk.stores.size⟩, ?_⟩
  have hchildren : (d.setStore ⟨h₁.disk.stores.size⟩ b).children (Disk.lastOf trail) = _ :=
    hgrown.children_same
  rw [hchildren, List.lookup_cons_self]

theorem lookup_of_beside {d d₁ d₂ : Disk} {parent : DirectoryRef} {name other : String}
    {r : StoreRef} {inner : DirectoryRef} (hbeside : d.Beside parent name d₂)
    (hnone : d.children parent = []) (hextends : d₁.Extends d₂)
    (hfile : (d₁.children parent).lookup name = some (.file r))
    (hfound : (d₂.children parent).lookup other = some (.directory inner)) :
    (d₁.children parent).lookup other = some (.directory inner) := by
  by_cases hname : other = name
  · subst hname
    cases (hextends _ _ _ hfile).symm.trans hfound
  · rw [hbeside.same fun hsame => hname hsame.2, hnone] at hfound
    cases hfound

/-- Accepted settings open a store, and the journal starts at its first segment. -/
theorem inUse_of_prepared (hcheck : config.check = .ok ()) (hlinked : h.disk.Linked)
    (hprepared : h.Prepared config) :
    ∃ s h', attach config h = .ok s h' ∧ InUse config 1 ⟨s, h'⟩ := by
  obtain ⟨h₁, h₂, trail, hmake, hvalues, hleads, hnone₁, hnone₂, haccepted⟩ :=
    hprepared.stages hlinked
  have hlinked₁ := hlinked.of_makeDirectory (Host.onDisk_ofIo_eq_ok hmake)
  obtain ⟨j, h₃, hattach, hstands⟩ := Journal.Stands.of_vacant
    (Host.vacant_of_leads hmake hlinked₁ hleads hnone₁ haccepted) hcheck
  have hworks := Journal.works_of_attach hlinked hattach
  obtain ⟨hbeside, r, hfile⟩ := first_file_of_attach hattach hmake hlinked₁ hleads hnone₁ haccepted
  obtain ⟨d, hmake₃, hnext⟩ := Disk.makeDirectory_beside hlinked₁ hbeside
    (Host.onDisk_ofIo_eq_ok hvalues) (by rw [hnone₂]; rfl)
  have hlinked₃ := hworks.linked.of_makeDirectory hmake₃
  have hspares := Disk.spares_of_makeDirectory hworks.linked hmake₃ .log
  have hstands₃ : Journal.Stands config [] {} ⟨j, { h₃ with disk := d }⟩ := by
    refine hstands.spared hlinked₃ hspares rfl fun {trail'} hleads' id inner hfound => ?_
    cases hleads'.trail_eq (hbeside.leads (by rw [hnone₁]; rfl) hleads)
    exact lookup_of_beside hnext hnone₂ hspares.extended hfile hfound
  have haccept : Action.ofExcept config.check h = .ok () h := by rw [hcheck]; rfl
  have hfolder : ValueFolder.attach config.valueDir h₃ =
      .ok { dir := config.valueDir } { h₃ with disk := d } :=
    Action.bind_of_ok (Host.onDisk_ofIo_of_ok hmake₃)
  refine ⟨⟨config, j, { dir := config.valueDir }⟩, { h₃ with disk := d }, ?_, rfl,
    ⟨[], {}, hstands₃, Nat.le_refl _, Nat.zero_le _⟩, .fresh config.valueDir hlinked₃,
    Disk.has_of_makeDirectory hworks.linked hmake₃⟩
  unfold attach
  rw [Action.bind_of_ok haccept, Action.bind_of_ok hattach, Action.bind_of_ok hfolder]
  rfl

/-- What can be asked of a store with these settings. -/
structure Honours (config : Config) (o : Over Store Host) : Prop where
  /-- Whatever an operation fails for, it is not the settings. -/
  notConfig : ∀ op e o', Operation.perform op o = .error e o' → NotConfig e
  reopens : ∃ s h, attach config o.base = .ok s h
  /-- The smallest transaction is committed, and read through the file of its segment. -/
  commits : config.Suffices → ∀ t, t.IsSmallest → ∃ a o', commit t o = .ok a o' ∧
    ∃ h, o'.item.journal.transactionAt a o'.base = .ok t h
  /-- Without room for that one no transaction is, and each that could be written says so. -/
  refuses : ¬ config.Suffices → ∀ t, ∃ e o', commit t o = .error e o' ∧ (t.Writable →
    e = .insufficientSpace (Segment.recordHeaderSize + t.encodedLength)
      (config.segmentCapacity.toNat - Segment.wordSize : Nat))

theorem InUse.honours (h : InUse config n o) (hcheck : config.check = .ok ())
    (hn : n + 2 < UInt64.size) : Honours config o where
  notConfig := fun op => (h.perform hcheck hn op).notConfig
  reopens := by
    obtain ⟨s, base, hattach, -⟩ := h.reopens hcheck (Nat.lt_of_add_right_lt hn)
    exact ⟨s, base, hattach⟩
  commits := fun hsuffices _ ht => h.commit_of_suffices hn hsuffices ht
  refuses := fun hsuffices t => h.commit_of_not_suffices hn hsuffices t

end Store

end AppendStore
