import AppendStore.Proofs.Journal.Opening

/-!
# Reading a journal

A segment of a journal is read through its file (`Journal.recordsAt`), or the active
one as it is open (`Journal.readSegment`). Either way of reading gives the records of
the ledger and only opens one more segment, so reading the segments one after the
other gives all records in order (`ReadsFiles.collect`).

`Journal.Shows` is what can be seen of a journal that has the given records:
`Carries.shows` proves it, as long as there are ids for the files.
-/

namespace AppendStore

namespace Journal

def recordsAt (j : Journal) (id : UInt64) :
    Action Host (List (RecordHeader × Except StoreError Transaction)) := do
  Host.onSegment (← j.segmentAt id) Segment.records

def transactionAt (j : Journal) (a : Appended) : Action Host Transaction := do
  Host.onSegment (← j.segmentAt a.segmentId) (Segment.transactionOf a.header)

/-- The records of the given segments, one segment after the other. -/
def collect (read : UInt64 → Action Host (List (RecordHeader × Except StoreError Transaction))) :
    List UInt64 → Action Host (List (Appended × Except StoreError Transaction))
  | [] => return []
  | id :: ids => do
    let found ← read id
    return found.map (fun e => (⟨id, e.1⟩, e.2)) ++ (← collect read ids)

/-- The records that are in the segment with the given id. -/
def slotsIn (id : UInt64) (records : List (Appended × Transaction)) :
    List (Appended × Transaction) :=
  records.filter fun r => r.1.segmentId = id

/-- Reading the journal gives the records, and leaves the disk as it is. -/
structure Shows (records : List (Appended × Transaction)) (ids : List UInt64) (j : Journal)
    (h : Host) : Prop where
  ids_eq : j.ids h = .ok ids h
  sorted : ids.Pairwise (· < ·)
  /-- The segments give all records in the order of their ids, each segment through its file. -/
  collect_recordsAt : ∃ h', collect j.recordsAt ids h =
    .ok (records.map fun r => (r.1, .ok r.2)) h' ∧ h'.disk = h.disk
  /-- The same holds when the active segment is read as it is open. -/
  collect_readSegment : ∃ h', collect j.readSegment ids h =
    .ok (records.map fun r => (r.1, .ok r.2)) h' ∧ h'.disk = h.disk
  /-- A record is in the segment that its append has named, in the slot of its turn. -/
  slots : ∀ id ∈ ids, ∃ h', j.recordsAt id h =
    .ok ((slotsIn id records).map fun r => (r.1.header, .ok r.2)) h' ∧ h'.disk = h.disk
  /-- Every answer of an append leads to its transaction. -/
  designated : ∀ r ∈ records, ∃ h', j.transactionAt r.1 h = .ok r.2 h' ∧ h'.disk = h.disk

theorem collect_append
    (read : UInt64 → Action Host (List (RecordHeader × Except StoreError Transaction)))
    {ids more : List UInt64} {h h' h'' : Host}
    {found rest : List (Appended × Except StoreError Transaction)}
    (hids : collect read ids h = .ok found h') (hmore : collect read more h' = .ok rest h'') :
    collect read (ids ++ more) h = .ok (found ++ rest) h'' := by
  induction ids generalizing h found with
  | nil =>
    cases hids
    exact hmore
  | cons id ids ih =>
    rw [collect] at hids
    obtain ⟨first, h₁, hread, hids⟩ := Action.bind_eq_ok hids
    obtain ⟨others, h₂, hcollect, hids⟩ := Action.bind_eq_ok hids
    cases hids
    rw [List.cons_append, collect, Action.bind_of_ok hread, Action.bind_of_ok (ih hcollect),
      List.append_assoc]
    rfl

theorem collect_singleton
    {read : UInt64 → Action Host (List (RecordHeader × Except StoreError Transaction))}
    {id : UInt64} {h h' : Host} {found : List (RecordHeader × Except StoreError Transaction)}
    (hread : read id h = .ok found h') :
    collect read [id] h = .ok (found.map fun e => (⟨id, e.1⟩, e.2)) h' := by
  rw [collect, Action.bind_of_ok hread]
  change EStateM.Result.ok (_ ++ []) h' = _
  rw [List.append_nil]

section Slots

variable {f g : LogFile} {older rest files : List LogFile}

theorem mem_recordsIn {r : Appended × Transaction} :
    r ∈ recordsIn files ↔ ∃ g rest, g :: rest <:+ files ∧ r.1.segmentId = idAt rest.length ∧
      (r.1.header, r.2) ∈ g.ledger.entries := by
  induction files with
  | nil =>
    refine ⟨nofun, ?_⟩
    rintro ⟨g, rest, hmem, -⟩
    cases List.suffix_nil.1 hmem
  | cons f older ih =>
    rw [recordsIn, List.mem_append, ih, List.mem_map]
    constructor
    · rintro (⟨g, rest, hmem, hid, he⟩ | ⟨e, he, rfl⟩)
      · exact ⟨g, rest, hmem.trans (List.suffix_cons f older), hid, he⟩
      · exact ⟨f, older, List.suffix_rfl, rfl, he⟩
    · rintro ⟨g, rest, hmem, hid, he⟩
      rcases List.suffix_cons_iff.1 hmem with heq | hmem
      · cases heq
        refine .inr ⟨_, he, ?_⟩
        rw [← hid]
      · exact .inl ⟨g, rest, hmem, hid, he⟩

theorem slotsIn_map (id id' : UInt64) (entries : List (RecordHeader × Transaction)) :
    slotsIn id (entries.map fun e => (⟨id', e.1⟩, e.2)) =
      if id' = id then entries.map fun e => (⟨id', e.1⟩, e.2) else [] := by
  split
  · next heq =>
    rw [slotsIn, List.filter_eq_self]
    intro r hr
    obtain ⟨e, -, rfl⟩ := List.mem_map.1 hr
    exact decide_eq_true heq
  · next hne =>
    rw [slotsIn, List.filter_eq_nil_iff]
    intro r hr
    obtain ⟨e, -, rfl⟩ := List.mem_map.1 hr
    exact fun hdecide => hne (of_decide_eq_true hdecide)

theorem slotsIn_next {n : Nat} (hle : files.length ≤ n) (hn : n < UInt64.size) :
    slotsIn (idAt n) (recordsIn files) = [] := by
  rw [slotsIn, List.filter_eq_nil_iff]
  intro r hr hdecide
  obtain ⟨_, rest, hmem, hid, -⟩ := mem_recordsIn.1 hr
  have hlt : rest.length < n := Nat.lt_of_lt_of_le hmem.length_le hle
  have hsame := idAt_injective (Nat.lt_trans hlt hn) hn
    (hid.symm.trans (of_decide_eq_true hdecide))
  exact Nat.ne_of_lt hlt hsame

theorem slotsIn_recordsIn (hmem : g :: rest <:+ files) (hcount : files.length ≤ UInt64.size) :
    slotsIn (idAt rest.length) (recordsIn files) =
      g.ledger.entries.map fun e => (⟨idAt rest.length, e.1⟩, e.2) := by
  induction files with
  | nil => cases List.suffix_nil.1 hmem
  | cons f older ih =>
    rw [recordsIn, slotsIn, List.filter_append]
    change slotsIn _ (recordsIn older) ++ slotsIn _ _ = _
    rw [slotsIn_map]
    rcases List.suffix_cons_iff.1 hmem with heq | hmem
    · cases heq
      rw [slotsIn_next (Nat.le_refl _) hcount, if_pos rfl, List.nil_append]
    · have hlt : rest.length < older.length := hmem.length_le
      have hne : idAt older.length ≠ idAt rest.length := fun heq =>
        Nat.ne_of_gt hlt (idAt_injective hcount (Nat.lt_trans hlt hcount) heq)
      rw [if_neg hne, List.append_nil]
      exact ih hmem (Nat.le_of_lt hcount)

end Slots

/-- Every answer of an append leads to its transaction. -/
theorem Held.transactionAt {dir : Path} {trail : List DirectoryRef} {f : LogFile}
    {older : List LogFile} {j : Journal} {h : Host} (hheld : Held dir trail f older ⟨j, h⟩)
    {r : Appended × Transaction} (hr : r ∈ recordsIn (f :: older)) :
    ∃ h', j.transactionAt r.1 h = .ok r.2 h' ∧ h'.disk = h.disk := by
  obtain ⟨g, rest, hmem, hid, he⟩ := mem_recordsIn.1 hr
  obtain ⟨s, h', hopen, -, hdisk, href, hmodels⟩ := hheld.segmentAt hmem
  have hread := Host.onSegment_of_ok href (hmodels.transactionOf_eq he)
  rw [Host.withSegment_self href] at hread
  refine ⟨h', ?_, hdisk⟩
  unfold Journal.transactionAt
  rw [hid, Action.bind_of_ok hopen, hread]

def ReadsFiles (dir : Path) (trail : List DirectoryRef) (f : LogFile) (older : List LogFile)
    (j : Journal)
    (read : UInt64 → Action Host (List (RecordHeader × Except StoreError Transaction))) : Prop :=
  ∀ (h : Host) (g : LogFile) (rest : List LogFile), Active dir trail f older ⟨j, h⟩ →
    g :: rest <:+ f :: older →
    ∃ h', read (idAt rest.length) h = .ok (g.ledger.entries.map fun e => (e.1, .ok e.2)) h' ∧
      Active dir trail f older ⟨j, h'⟩ ∧ h'.disk = h.disk

namespace Active

variable {dir : Path} {trail : List DirectoryRef} {f g : LogFile} {older rest : List LogFile}
  {j : Journal} {h : Host}

theorem readsFiles_recordsAt (dir : Path) (trail : List DirectoryRef) (f : LogFile)
    (older : List LogFile) (j : Journal) : ReadsFiles dir trail f older j j.recordsAt := by
  intro h g rest hactive hmem
  obtain ⟨s, h', hopen, hheld, hdisk, href, hmodels⟩ := hactive.held.segmentAt hmem
  have hread := Host.onSegment_of_ok href hmodels.records_eq
  rw [Host.withSegment_self href] at hread
  refine ⟨h', ?_, hactive.same hheld (by rw [hdisk]), hdisk⟩
  unfold recordsAt
  rw [Action.bind_of_ok hopen, hread]

theorem readsFiles_readSegment (dir : Path) (trail : List DirectoryRef) (f : LogFile)
    (older : List LogFile) (j : Journal) : ReadsFiles dir trail f older j j.readSegment := by
  intro h g rest hactive hmem
  obtain ⟨s, href, hid, hmodels⟩ := hactive.segment
  unfold readSegment
  rw [Action.bind_of_ok (segmentOf_eq href)]
  by_cases hsame : s.id = idAt rest.length
  · have hcount := hactive.files.count
    have hlt : rest.length < (f :: older).length := hmem.length_le
    have hlength := idAt_injective hcount (Nat.lt_of_lt_of_le hlt hcount) (hid.symm.trans hsame)
    have hhere : g :: rest = f :: older := hmem.eq_of_length (congrArg Nat.succ hlength.symm)
    cases hhere
    have hread := Host.onSegment_of_ok href hmodels.records_eq
    rw [Host.withSegment_self href] at hread
    rw [if_pos hsame]
    exact ⟨h, hread, hactive, rfl⟩
  · rw [if_neg hsame]
    exact readsFiles_recordsAt dir trail f older j h g rest hactive hmem

end Active

/-- Reading file after file gives all records in order. -/
theorem ReadsFiles.collect {dir : Path} {trail : List DirectoryRef} {f : LogFile}
    {older files : List LogFile} {j : Journal} {h : Host}
    {read : UInt64 → Action Host (List (RecordHeader × Except StoreError Transaction))}
    (hread : ReadsFiles dir trail f older j read) (hactive : Active dir trail f older ⟨j, h⟩)
    (hmem : files <:+ f :: older) :
    ∃ h', Journal.collect read ((List.range files.length).map idAt) h =
        .ok ((recordsIn files).map fun r => (r.1, .ok r.2)) h' ∧
      Active dir trail f older ⟨j, h'⟩ ∧ h'.disk = h.disk := by
  induction files with
  | nil => exact ⟨h, rfl, hactive, rfl⟩
  | cons g rest ih =>
    obtain ⟨h₁, hrest, hactive₁, hdisk₁⟩ := ih ((List.suffix_cons g rest).trans hmem)
    obtain ⟨h₂, hlast, hactive₂, hdisk₂⟩ := hread h₁ g rest hactive₁ hmem
    refine ⟨h₂, ?_, hactive₂, hdisk₂.trans hdisk₁⟩
    rw [List.length_cons, List.range_succ, List.map_append, List.map_singleton,
      collect_append read hrest (collect_singleton hlast), recordsIn, List.map_append]
    simp only [List.map_map]
    rfl

variable {dir : Path} {records : List (Appended × Transaction)} {n : Nat} {j : Journal} {h : Host}

/-- What a journal carries can be read. -/
theorem Carries.shows (hcarries : Carries dir records n ⟨j, h⟩) (hn : n < UInt64.size) :
    Shows records ((List.range n).map idAt) j h := by
  obtain ⟨trail, f, older, hactive, rfl, rfl⟩ := hcarries
  have hids := hactive.files.idsIn_eq hn
  rw [← hactive.dir_eq] at hids
  have hrecordsAt := Active.readsFiles_recordsAt dir trail f older j
  have hreadSegment := Active.readsFiles_readSegment dir trail f older j
  exact
    { ids_eq := hids
      sorted := pairwise_idAt hn
      collect_recordsAt := by
        obtain ⟨h', hcollect, -, hdisk⟩ := hrecordsAt.collect hactive List.suffix_rfl
        exact ⟨h', hcollect, hdisk⟩
      collect_readSegment := by
        obtain ⟨h', hcollect, -, hdisk⟩ := hreadSegment.collect hactive List.suffix_rfl
        exact ⟨h', hcollect, hdisk⟩
      slots := fun id hid => by
        obtain ⟨i, hi, rfl⟩ := List.mem_map.1 hid
        obtain ⟨g, rest, hmem, rfl⟩ := exists_suffix (List.mem_range.1 hi)
        obtain ⟨h', hread, -, hdisk⟩ := hrecordsAt h g rest hactive hmem
        refine ⟨h', ?_, hdisk⟩
        rw [hread, slotsIn_recordsIn hmem hactive.files.count, List.map_map]
        rfl
      designated := fun r hr => hactive.held.transactionAt hr }

end Journal

end AppendStore
