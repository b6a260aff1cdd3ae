import AppendStore.Proofs.Disk.Listing
import AppendStore.Proofs.Journal.Files

/-!
# Listing and opening the segments of a journal

The ids of a journal are read off the names in its directory, and a segment is opened by
the name that is made for its id. A segment is found just if there is a file by that name
(`Journal.finds_iff`), and then its id is listed. It is not so the other way round: a file
by another name can be read as that of an id, and then the id is listed and there is
nothing to open, or it is listed twice (`Journal.listed_is_missing`).

Listing and opening agree just where there are no such files (`Journal.listing_agrees_iff`).
-/

namespace AppendStore

/-- There is nothing by the name that was asked for. -/
def StoreError.isNotFound : StoreError → Bool
  | .io cause => cause.kind = .notFound
  | _ => false

/-- Contents that cannot be read as a segment are not reported as missing. -/
theorem Segment.isNotFound_of_found {id : UInt64} {capacity : UInt32} {c : Contents} {e : StoreError}
    (h : found id capacity c = .error e) : e.isNotFound = false := by
  have hstarted : ∀ {capacity}, started id capacity = .error e → e.isNotFound = false := by
    intro capacity h
    unfold started at h
    split at h <;> cases h
    rfl
  unfold found at h
  split at h
  · exact hstarted h
  · unfold resumed at h
    split at h
    · cases h
      rfl
    · split at h
      · exact hstarted h
      · unfold ofCursors at h
        split at h <;> cases h
        rfl

/-- A directory that can be listed, and that takes the paths of log files. Each name stands in it
once, and no file in it is scripted to misbehave. -/
structure Host.LogDirectory (h : Host) (dir : Path) (ref : DirectoryRef) : Prop where
  found : ∃ place, h.disk.find dir = .ok (place, .directory ref)
  accepted : (Host.segmentPath dir Journal.firstSegmentId).refusal? = none
  distinct : ((h.disk.children ref).map (·.1)).Nodup
  files : ∀ name r, (name, .file r) ∈ h.disk.children ref →
    r.index < h.disk.stores.size ∧ (h.disk.store r).Plain

theorem Host.LogDirectory.accepts {h : Host} {dir : Path} {ref : DirectoryRef}
    (hdir : h.LogDirectory dir ref) (id : UInt64) : (segmentPath dir id).refusal? = none := by
  obtain ⟨place, hfind⟩ := hdir.found
  obtain ⟨trail, hleads, -⟩ := Disk.leads_of_find hfind
  exact hleads.refusal?_eq_none hdir.accepted

namespace Journal

open Segment

/-- Opening the segment of an id does not end with an error that says there is none. -/
def Finds (j : Journal) (id : UInt64) (h : Host) : Prop :=
  ∀ e h', j.segmentAt id h = .error e h' → e.isNotFound = false

variable {j : Journal} {h : Host} {ref : DirectoryRef} {id : UInt64}

/-- A segment is found just if there is a file by the name that is made for its id. -/
theorem finds_iff (hdir : h.LogDirectory j.dir ref) :
    j.Finds id h ↔ h.disk.isFile (Host.segmentPath j.dir id) = true := by
  constructor
  · intro hfinds
    refine Decidable.byContradiction fun hfile => ?_
    cases hfinds _ _ (segmentAt_of_not_isFile hfile)
  · intro hfile e h' herror
    rw [segmentAt_of_isFile hfile] at herror
    obtain ⟨place, hfind⟩ := hdir.found
    obtain ⟨trail, hleads, rfl⟩ := Disk.leads_of_find hfind
    obtain ⟨r, hlookup⟩ := (hleads.isFile_iff (hdir.accepts id)).1 hfile
    obtain ⟨hroom, hplain⟩ := hdir.files _ r (Disk.mem_of_lookup hlookup)
    have hopen := Disk.openOrCreate_of_file hleads (FileName.plainName .log id)
      (hdir.accepts id) (Host.maxNameBytes_of .log id) hlookup
    cases hsegment : found id j.segmentCapacity (h.disk.store r).contents with
    | ok s => cases (Host.openSegment_of_found hopen hplain hroom hsegment).symm.trans herror
    | error e' =>
      cases (Host.openSegment_of_error hopen hplain hsegment).symm.trans herror
      exact isNotFound_of_found hsegment

/-- A name with a plus sign in it is read as that of a log file. Its id is listed, and there is
nothing to open. -/
theorem listed_is_missing :
    let h : Host := {
      disk := {
        stores := #[.onDisk [], .onDisk []]
        directories := #[[], [("w", .directory ⟨2⟩)],
          [("+10000000000000005", .file ⟨1⟩), ("010000000000000007", .file ⟨0⟩)]] } }
    let j : Journal := ⟨⟨"w"⟩, 1, 64, .manual, ⟨0⟩, 0, 0⟩
    j.ids h = .ok [5, 7] h ∧ FileName.of .log 5 = "010000000000000005" ∧
      j.segmentAt 5 h = .error (.io (.segmentMissing 5)) h ∧ ¬ j.Finds 5 h := by
  intro h j
  have hfind : h.disk.find ⟨"w"⟩ = .ok (⟨[⟨1⟩], some "w"⟩, .directory ⟨2⟩) := rfl
  obtain ⟨trail, hleads, hlast⟩ := Disk.leads_of_find hfind
  have hids := hleads.idsIn_eq .log
  have hsorted : ((h.disk.children ⟨2⟩).reverse.filterMap (Disk.idOf? .log)).insertionSort (· ≤ ·) =
      [5, 7] := by decide +kernel
  rw [hlast, hsorted] at hids
  have hmissing := @segmentAt_of_not_isFile j h 5 (by decide +kernel)
  refine ⟨Host.onDisk_ofIo_of_ok hids, by decide +kernel, hmissing, fun hfinds => ?_⟩
  cases hfinds _ _ hmissing

/-- The ids of a journal are in order, and every segment that is found is among them. They are all
different and all found just if no other file in the directory counts as a log file. -/
theorem listing_agrees_iff (hdir : h.LogDirectory j.dir ref) :
    ∃ ids, j.ids h = .ok ids h ∧ ids.Pairwise (· ≤ ·) ∧
      (∀ id, j.Finds id h ↔ h.disk.isFile (Host.segmentPath j.dir id) = true) ∧
      (∀ id, j.Finds id h → id ∈ ids) ∧
      ((ids.Pairwise (· < ·) ∧ ∀ id ∈ ids, j.Finds id h) ↔
        Disk.Canonical .log (h.disk.children ref)) := by
  obtain ⟨place, hfind⟩ := hdir.found
  obtain ⟨trail, hleads, rfl⟩ := Disk.leads_of_find hfind
  obtain ⟨ids, hids, hsorted, hperm⟩ := hleads.idsIn_cases .log
  have hnamed : ∀ {id}, j.Finds id h ↔ ∃ r, (h.disk.children (Disk.lastOf trail)).lookup
      (FileName.of .log id) = some (.file r) := fun {id} =>
    (finds_iff hdir).trans (hleads.isFile_iff (hdir.accepts id))
  refine ⟨ids, Host.onDisk_ofIo_of_ok hids, hsorted, fun id => finds_iff hdir, ?_, ?_, ?_⟩
  · intro id hfinds
    obtain ⟨r, hlookup⟩ := hnamed.1 hfinds
    exact hperm.mem_iff.2 (List.mem_filterMap.2
      ⟨_, Disk.mem_of_lookup hlookup, Disk.idOf?_file .log id r⟩)
  · rintro ⟨hstrict, hfinds⟩
    have hnodup : ids.Nodup := hstrict.imp fun hlt => UInt64.ne_of_lt hlt
    exact Disk.canonical_of_nodup (hperm.nodup_iff.1 hnodup) fun id hid =>
      hnamed.1 (hfinds id (hperm.mem_iff.2 hid))
  · intro hcanonical
    have hnodup := hperm.nodup_iff.2 (Disk.nodup_of_canonical hdir.distinct hcanonical)
    refine ⟨(hsorted.and hnodup).imp fun ⟨hle, hne⟩ => UInt64.lt_of_le_of_ne hle hne, ?_⟩
    intro id hid
    obtain ⟨⟨name, entry⟩, hmem, hidOf⟩ := List.mem_filterMap.1 (hperm.mem_iff.1 hid)
    obtain ⟨r, rfl⟩ := Disk.exists_file_of_idOf? hidOf
    have hname : name = FileName.of .log id := hcanonical _ hmem id hidOf
    exact hnamed.2 ⟨r, Disk.lookup_of_mem hdir.distinct (hname ▸ hmem)⟩

/-- Two log files, a file of another kind, a file that is none of the store's, and a directory with a
name like that of a log file. -/
theorem listing_agrees_iff_mixed :
    let entries : List (String × Entry) := [("01000000000000000a", .file ⟨0⟩), ("notes", .file ⟨1⟩),
      ("0100000000000000FF", .directory ⟨3⟩), ("020000000000000007", .file ⟨1⟩),
      ("010000000000000007", .file ⟨2⟩)]
    let h : Host := {
      disk := {
        stores := #[.onDisk [], .onDisk [1, 2, 3], .onDisk [0, 0, 0, 20, 0, 0, 0, 8, 5]]
        directories := #[[], [("w", .directory ⟨2⟩)], entries, []] } }
    let j : Journal := ⟨⟨"w"⟩, 1, 64, .manual, ⟨0⟩, 0, 0⟩
    h.LogDirectory j.dir ⟨2⟩ ∧ Disk.Canonical .log entries ∧
      ∃ ids, j.ids h = .ok ids h ∧ ids.Pairwise (· < ·) ∧ 10 ∈ ids ∧ ∀ id ∈ ids, j.Finds id h := by
  intro entries h j
  have hfind : h.disk.find ⟨"w"⟩ = .ok (⟨[⟨1⟩], some "w"⟩, .directory ⟨2⟩) := rfl
  have hdir : h.LogDirectory ⟨"w"⟩ ⟨2⟩ := by
    refine ⟨⟨_, hfind⟩, by decide +kernel, by decide +kernel, fun name r hmem => ?_⟩
    have hentries : (name, .file r) ∈ entries := hmem
    simp only [entries, List.mem_cons, Prod.mk.injEq, Entry.file.injEq, reduceCtorEq, and_false,
      false_or, List.not_mem_nil, or_false] at hentries
    rcases hentries with ⟨-, rfl⟩ | ⟨-, rfl⟩ | ⟨-, rfl⟩ | ⟨-, rfl⟩
    all_goals exact ⟨by decide, ByteStore.plain_onDisk _⟩
  have hcanonical : Disk.Canonical .log entries := by decide +kernel
  obtain ⟨ids, hids, -, hfinds, hlisted, hagree⟩ := @listing_agrees_iff j h ⟨2⟩ hdir
  obtain ⟨hstrict, hall⟩ := hagree.2 hcanonical
  exact ⟨hdir, hcanonical, ids, hids, hstrict, hlisted 10 ((hfinds 10).2 (by decide +kernel)), hall⟩

end Journal

end AppendStore
