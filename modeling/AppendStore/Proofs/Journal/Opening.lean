import AppendStore.Proofs.Disk.Linked
import AppendStore.Proofs.Journal.Active

/-!
# Opening a journal

A directory is `Host.Unused` if making sure of it leaves it without files: because it
was empty (`Host.unused_of_empty`) or was not there (`Host.unused_of_absent`). It is
`Host.Logged` if the log files in it are those of a journal, whatever other files there
are. A journal that is opened has the records that were there
(`Journal.carries_of_attach_logged`), and starts with one file that has none if there
were no log files (`Journal.carries_of_attach`). In a directory that is `Host.Vacant`
nothing at all is in the way of its files, and it can be opened. Opened again, with any
settings that are valid, it takes up its newest file (`Journal.Files.attach`).
-/

namespace AppendStore

namespace Host

variable {h h' : Host} {dir : Path}

/-- Once the directory is there, it has no files in it: it was not there, or it was empty. -/
def Unused (h : Host) (dir : Path) : Prop :=
  ∀ h' place ref, makeDirectory dir h = .ok () h' →
    h'.disk.find dir = .ok (place, .directory ref) →
    ∃ names, h'.disk.directories[ref.index]? = some names ∧
      ∀ e ∈ names, ∃ inner, e.2 = .directory inner

/-- Once the directory is there, the log files in it are those of a journal with these records, and
there is an id left. -/
def Logged (h : Host) (dir : Path) (records : List (Appended × Transaction)) : Prop :=
  ∀ h' place ref, makeDirectory dir h = .ok () h' →
    h'.disk.find dir = .ok (place, .directory ref) →
    ∃ files, Journal.LogFiles ref files h'.disk ∧ Journal.recordsIn files = records ∧
      files.length < UInt64.size

theorem Unused.logFiles {place : Place} {ref : DirectoryRef} (hunused : h.Unused dir)
    (hmake : makeDirectory dir h = .ok () h')
    (hfind : h'.disk.find dir = .ok (place, .directory ref)) :
    Journal.LogFiles ref [] h'.disk ∧ ref.index < h'.disk.directories.size := by
  obtain ⟨names, hnames, hdirectories⟩ := hunused h' place ref hmake hfind
  refine ⟨Journal.logFiles_nil fun e he => ?_, (Array.getElem?_eq_some_iff.1 hnames).1⟩
  rw [Disk.children, Array.getD_eq_getD_getElem?, hnames] at he
  obtain ⟨inner, hinner⟩ := hdirectories e he
  rw [← Prod.eta e, hinner]
  rfl

theorem Unused.logged (hunused : h.Unused dir) : h.Logged dir [] :=
  fun _ _ _ hmake hfind => ⟨[], (hunused.logFiles hmake hfind).1, rfl, by decide⟩

theorem unused_of_made {place : Place} {ref : DirectoryRef}
    (hmake : makeDirectory dir h = .ok () h')
    (hfind : h'.disk.find dir = .ok (place, .directory ref))
    (hempty : h'.disk.directories[ref.index]? = some []) : h.Unused dir := by
  intro h'' place' ref' hmake' hfind'
  cases hmake.symm.trans hmake'
  cases hfind.symm.trans hfind'
  exact ⟨[], hempty, nofun⟩

/-- The directory can be made, is empty then, and the file system takes the path of the first log
file in it. -/
def Vacant (h : Host) (dir : Path) : Prop :=
  ∃ h₁ place ref, makeDirectory dir h = .ok () h₁ ∧
    h₁.disk.find dir = .ok (place, .directory ref) ∧
    h₁.disk.directories[ref.index]? = some [] ∧
    (dir.join (FileName.of .log Journal.firstSegmentId)).refusal? = none

/-- A directory that is there and is empty is unused. -/
theorem unused_of_empty {place : Place} {ref : DirectoryRef}
    (hfind : h.disk.find dir = .ok (place, .directory ref))
    (hempty : h.disk.directories[ref.index]? = some []) : h.Unused dir := by
  obtain ⟨trail, hleads, -⟩ := Disk.leads_of_find hfind
  have hmake : makeDirectory dir h = .ok () h := by
    simp only [makeDirectory, onDisk, Action.zoom, Action.ofIo, hleads.makeDirectory_eq]
  exact unused_of_made hmake hfind hempty

/-- A directory that is not there is unused, as long as its path does not go back. -/
theorem unused_of_absent (habsent : h.disk.find dir = .error .notFound)
    (hback : ".." ∉ dir.parts) : h.Unused dir := by
  intro h' place ref hmake hfind
  have hmade := Disk.made_of_makeDirectory (onDisk_ofIo_eq_ok hmake)
  exact hmade.directories_of_isNew (hmade.isNew_of_find habsent hback hfind)

end Host

namespace Journal

open Segment

variable {config : Config} {h h' h₁ : Host} {trail : List DirectoryRef}

def opened (config : Config) (ref : SegmentRef) (s : Segment) : Journal where
  dir := config.logDir
  sizeLimit := config.sizeLimit
  segmentCapacity := config.segmentCapacity
  syncPolicy := config.syncPolicy
  active := ref
  charged := UInt64.ofNat s.used

theorem charged_opened {l : Ledger} {ref : SegmentRef} {s : Segment} (hlt : l.used < UInt32.size)
    (hused : s.used = l.used) : (opened config ref s).charged.toNat = l.used := by
  rw [opened, hused, UInt64.toNat_ofNat_of_lt']
  exact Nat.lt_trans hlt (by decide)

theorem attach_eq {ids : List UInt64} {ref : SegmentRef} {s : Segment} {r : StoreRef}
    (hcheck : config.check = .ok ()) (hmake : Host.makeDirectory config.logDir h = .ok () h₁)
    (hids : Host.idsIn .log config.logDir h₁ = .ok ids h₁)
    (hopen : Host.openSegment config.logDir (ids.getLastD firstSegmentId) config.segmentCapacity h₁ =
      .ok ref h')
    (href : h'.segment? ref = some ⟨s, r⟩) : attach config h = .ok (opened config ref s) h' := by
  have haccept : Action.ofExcept config.check h = .ok () h := by rw [hcheck]; rfl
  unfold attach
  rw [Action.bind_of_ok haccept, Action.bind_of_ok hmake, Action.bind_of_ok hids,
    Action.bind_of_ok hopen, Action.bind_of_ok (initialCharge_eq href)]
  rfl

section Made

variable {files older : List LogFile} {f : LogFile} {ids : List UInt64} {c : UInt32} {e : StoreError}

/-- Where the newest log file is one of the journal's it is taken up with all its records, and the
disk stays as it is. -/
theorem OwnFiles.attach_known (hown : OwnFiles config.logDir trail (f :: older) h₁.disk)
    (hcheck : config.check = .ok ()) (hmake : Host.makeDirectory config.logDir h = .ok () h₁)
    (hids : Host.idsIn .log config.logDir h₁ = .ok ids h₁)
    (hnewest : ids.getLastD firstSegmentId = idAt older.length) :
    ∃ ref s h', Journal.attach config h = .ok (opened config ref s) h' ∧
      s.used = f.ledger.used ∧ h'.disk = h₁.disk ∧
      Held config.logDir trail f older ⟨opened config ref s, h'⟩ := by
  obtain ⟨s, hopen, hid, hmodels⟩ := hown.openSegment_of_known List.suffix_rfl
    config.segmentCapacity
  rw [← hnewest] at hopen
  have href := Host.segment?_withOpened h₁ s f.store
  exact ⟨_, s, _, attach_eq hcheck hmake hids hopen href, hmodels.used_eq, rfl, hown, rfl,
    Config.capacityOk_of_check hcheck, s, href, hid, hmodels⟩

theorem OwnFiles.attach_next (hown : OwnFiles config.logDir trail files h₁.disk)
    (hcount : files.length < UInt64.size) (hcheck : config.check = .ok ())
    (hmake : Host.makeDirectory config.logDir h = .ok () h₁)
    (hids : Host.idsIn .log config.logDir h₁ = .ok ids h₁)
    (hnewest : ids.getLastD firstSegmentId = idAt files.length)
    (hoffer : offer h₁.disk (Disk.lastOf trail) (idAt files.length) config.segmentCapacity = .ok c) :
    ∃ ref s h' r, Journal.attach config h = .ok (opened config ref s) h' ∧ s.used = 0 ∧
      h'.disk.children (Disk.lastOf trail) = withFile (h₁.disk.children (Disk.lastOf trail))
        (FileName.of .log (idAt files.length)) r ∧
      Held config.logDir trail ⟨r, ⟨c, []⟩⟩ files ⟨opened config ref s, h'⟩ := by
  have hcapacity := Config.capacityOk_of_check hcheck
  obtain ⟨r, s, h', hopen, hnext, hchildren, href, hid, hmodels⟩ :=
    hown.openSegment_of_offer hcount hcapacity hoffer
  rw [← hnewest] at hopen
  exact ⟨_, s, h', r, attach_eq hcheck hmake hids hopen href, hmodels.used_eq, hchildren, hnext, rfl,
    hcapacity, s, href, hid, hmodels⟩

theorem OwnFiles.attach_refused (hown : OwnFiles config.logDir trail files h₁.disk)
    (hcount : files.length < UInt64.size) (hcheck : config.check = .ok ())
    (hmake : Host.makeDirectory config.logDir h = .ok () h₁)
    (hids : Host.idsIn .log config.logDir h₁ = .ok ids h₁)
    (hnewest : ids.getLastD firstSegmentId = idAt files.length)
    (hoffer : offer h₁.disk (Disk.lastOf trail) (idAt files.length) config.segmentCapacity =
      .error e) : Journal.attach config h = .error e h₁ := by
  have haccept : Action.ofExcept config.check h = .ok () h := by rw [hcheck]; rfl
  have hopen := hown.openSegment_of_refused hcount hoffer
  rw [← hnewest] at hopen
  unfold attach
  rw [Action.bind_of_ok haccept, Action.bind_of_ok hmake, Action.bind_of_ok hids]
  exact Action.bind_of_error hopen

end Made

theorem Files.attach_made {f : LogFile} {older : List LogFile}
    (hfiles : Files config.logDir trail (f :: older) h₁.disk)
    (hcount : (f :: older).length < UInt64.size) (hcheck : config.check = .ok ())
    (hmake : Host.makeDirectory config.logDir h = .ok () h₁) :
    ∃ ref s h', Journal.attach config h = .ok (opened config ref s) h' ∧
      s.used = f.ledger.used ∧ h'.disk = h₁.disk ∧
      Active config.logDir trail f older ⟨opened config ref s, h'⟩ := by
  have hlast : ((List.range (f :: older).length).map idAt).getLastD firstSegmentId =
      idAt older.length := by
    rw [List.length_cons, List.range_succ, List.map_append, List.map_singleton,
      List.getLastD_concat]
  obtain ⟨ref, s, h', hattach, hused, hdisk, hheld⟩ :=
    hfiles.own.attach_known hcheck hmake (hfiles.idsIn_eq hcount) hlast
  exact ⟨ref, s, h', hattach, hused, hdisk, hheld.active (by rw [hdisk]; exact hfiles.ids)⟩

/-- The files of a journal are taken up with all their records, and the disk stays as it is. -/
theorem Files.attach {f : LogFile} {older : List LogFile}
    (hfiles : Files config.logDir trail (f :: older) h.disk)
    (hcount : (f :: older).length < UInt64.size) (hcheck : config.check = .ok ()) :
    ∃ ref s h', Journal.attach config h = .ok (opened config ref s) h' ∧
      s.used = f.ledger.used ∧ h'.disk = h.disk ∧
      Active config.logDir trail f older ⟨opened config ref s, h'⟩ :=
  hfiles.attach_made hcount hcheck (Host.onDisk_ofIo_of_ok hfiles.leads.makeDirectory_eq)

theorem cases_of_attach {j : Journal} (hattach : attach config h = .ok j h') :
    config.check = .ok () ∧ ∃ h₁, Host.makeDirectory config.logDir h = .ok () h₁ ∧
      (∃ place ref, h₁.disk.find config.logDir = .ok (place, .directory ref)) ∧
      ∃ id, (config.logDir.join (FileName.of .log id)).refusal? = none := by
  obtain ⟨haccept, h₁, ids, h₂, h₃, charged, hmake, hids, hopen, -⟩ := attach_eq_ok hattach
  unfold Host.openSegment at hopen
  obtain ⟨store, h₄, hstore, -⟩ := Action.bind_eq_ok hopen
  exact ⟨haccept, h₁, hmake, Disk.find_of_idsIn (Host.onDisk_ofIo_eq_ok hids), _,
    Disk.refusal?_of_openOrCreate (Host.onDisk_ofIo_eq_ok hstore)⟩

theorem LogFiles.files {dir : Path} {d : Disk} {files : List LogFile} {id : UInt64}
    (hfiles : LogFiles (Disk.lastOf trail) files d) (hleads : d.Leads dir trail)
    (hroom : (Disk.lastOf trail).index < d.directories.size)
    (haccepted : (dir.join (FileName.of .log id)).refusal? = none) : Files dir trail files d where
  toLogFiles := hfiles
  leads := hleads
  room := hroom
  accepted := fun _ => hleads.refusal?_eq_none haccepted

/-- In a directory without log files a journal starts with one file that has no records, unless a
directory has the name of that file. -/
theorem attach_of_files_nil (hcheck : config.check = .ok ())
    (hmake : Host.makeDirectory config.logDir h = .ok () h₁)
    (hfiles : Files config.logDir trail [] h₁.disk) :
    (∃ ref s h' r, attach config h = .ok (opened config ref s) h' ∧ s.used = 0 ∧
      h'.disk.children (Disk.lastOf trail) =
        (FileName.of .log firstSegmentId, .file r) :: h₁.disk.children (Disk.lastOf trail) ∧
      Active config.logDir trail ⟨r, ⟨config.segmentCapacity, []⟩⟩ []
        ⟨opened config ref s, h'⟩) ∨
    (∃ inner, (h₁.disk.children (Disk.lastOf trail)).lookup (FileName.of .log firstSegmentId) =
      some (.directory inner)) ∧ ∃ e, attach config h = .error e h₁ := by
  have hids : Host.idsIn .log config.logDir h₁ = .ok [] h₁ := hfiles.idsIn_eq (by decide)
  rcases hfiles.offer_next (by decide) config.segmentCapacity with
    ⟨hfree, hoffer⟩ | ⟨hother, e, hoffer⟩
  · obtain ⟨ref, s, h', r, hattach, hused, hchildren, hheld⟩ :=
      hfiles.own.attach_next (by decide) hcheck hmake hids rfl hoffer
    simp only [withFile, hfree] at hchildren
    refine .inl ⟨ref, s, h', r, hattach, hused, hchildren, hheld.active ?_⟩
    rw [hchildren]
    exact hfiles.ids_next r
  · exact .inr ⟨hother, e, hfiles.own.attach_refused (by decide) hcheck hmake hids rfl hoffer⟩

theorem Files.carries {j : Journal} {files : List LogFile}
    (hfiles : Files config.logDir trail files h₁.disk) (hcount : files.length < UInt64.size)
    (hcheck : config.check = .ok ()) (hmake : Host.makeDirectory config.logDir h = .ok () h₁)
    (hattach : Journal.attach config h = .ok j h') :
    Carries config.logDir (recordsIn files) (max files.length 1) ⟨j, h'⟩ := by
  cases files with
  | nil =>
    rcases attach_of_files_nil hcheck hmake hfiles with
      ⟨ref, s, h'', r, hopened, -, -, hactive⟩ | ⟨-, e, hfailed⟩
    · cases hopened.symm.trans hattach
      exact ⟨trail, _, [], hactive, rfl, rfl⟩
    · cases hfailed.symm.trans hattach
  | cons f older =>
    obtain ⟨ref, s, h'', hopened, -, -, hactive⟩ := hfiles.attach_made hcount hcheck hmake
    cases hopened.symm.trans hattach
    exact ⟨trail, f, older, hactive, rfl, (Nat.max_eq_left (Nat.le_add_left 1 _)).symm⟩

/-- On a disk that hangs together nothing else is needed. -/
theorem carries_of_attach_logged {j : Journal} {records : List (Appended × Transaction)}
    (hlogged : h.Logged config.logDir records) (hlinked : h.disk.Linked)
    (hattach : attach config h = .ok j h') : ∃ n, Carries config.logDir records n ⟨j, h'⟩ := by
  obtain ⟨hcheck, h₁, hmake, ⟨place, ref, hfind⟩, id, haccepted⟩ := cases_of_attach hattach
  obtain ⟨files, hfiles, rfl, hcount⟩ := hlogged h₁ place ref hmake hfind
  obtain ⟨trail, hleads, rfl⟩ := Disk.leads_of_find hfind
  have hlinked' := hlinked.of_makeDirectory (Host.onDisk_ofIo_eq_ok hmake)
  exact ⟨_, (hfiles.files hleads (hlinked'.leads_lt hleads) haccepted).carries hcount hcheck hmake
    hattach⟩

/-- A journal that was opened in a directory without files has no records. -/
theorem carries_of_attach {j : Journal} (hunused : h.Unused config.logDir)
    (hattach : attach config h = .ok j h') : Carries config.logDir [] 1 ⟨j, h'⟩ := by
  obtain ⟨hcheck, h₁, hmake, ⟨place, ref, hfind⟩, id, haccepted⟩ := cases_of_attach hattach
  obtain ⟨hfiles, hroom⟩ := hunused.logFiles hmake hfind
  obtain ⟨trail, hleads, rfl⟩ := Disk.leads_of_find hfind
  exact (hfiles.files hleads hroom haccepted).carries (by decide) hcheck hmake hattach

theorem attach_of_vacant (hvacant : h.Vacant config.logDir) (hcheck : config.check = .ok ()) :
    ∃ trail ref s h' r, attach config h = .ok (opened config ref s) h' ∧ s.used = 0 ∧
      h'.disk.children (Disk.lastOf trail) = [(FileName.of .log firstSegmentId, .file r)] ∧
      Active config.logDir trail ⟨r, ⟨config.segmentCapacity, []⟩⟩ []
        ⟨opened config ref s, h'⟩ := by
  obtain ⟨h₁, place, ref, hmake, hfind, hempty, haccepted⟩ := hvacant
  obtain ⟨trail, hleads, rfl⟩ := Disk.leads_of_find hfind
  have hchildren : h₁.disk.children (Disk.lastOf trail) = [] := by
    rw [Disk.children, Array.getD_eq_getD_getElem?, hempty]
    rfl
  have hnone : LogFiles (Disk.lastOf trail) [] h₁.disk :=
    logFiles_nil (hchildren.symm ▸ List.forall_mem_nil _)
  have hfiles := hnone.files hleads (Array.getElem?_eq_some_iff.1 hempty).1 haccepted
  rcases attach_of_files_nil hcheck hmake hfiles with
    ⟨active, s, h', r, hattach, hused, hnames, hactive⟩ | ⟨⟨inner, hother⟩, -⟩
  · rw [hchildren] at hnames
    exact ⟨trail, active, s, h', r, hattach, hused, hnames, hactive⟩
  · rw [hchildren] at hother
    cases hother

/-- In an empty directory every valid configuration opens a journal. -/
theorem exists_attach {place : Place} {ref : DirectoryRef} (hcheck : config.check = .ok ())
    (hmake : Host.makeDirectory config.logDir h = .ok () h₁)
    (hfind : h₁.disk.find config.logDir = .ok (place, .directory ref))
    (hempty : h₁.disk.directories[ref.index]? = some [])
    (haccepted : (config.logDir.join (FileName.of .log firstSegmentId)).refusal? = none) :
    ∃ j h', attach config h = .ok j h' := by
  obtain ⟨trail, active, s, h', r, hattach, -⟩ :=
    attach_of_vacant ⟨h₁, place, ref, hmake, hfind, hempty, haccepted⟩ hcheck
  exact ⟨_, h', hattach⟩

end Journal

end AppendStore
