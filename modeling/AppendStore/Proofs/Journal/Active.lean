import AppendStore.Proofs.Journal.Held

/-!
# A journal in use

`Journal.Active` says that a journal appends to the newest of its files, and that this
file and all others hold the records of their ledgers. Every operation of the journal
leads from such a state to such a state: an append that fits adds its record
(`Active.append_of_accepts`), one that does not changes nothing, a sync changes no
record (`Active.sync`), and moving on adds a file without records (`Active.advance`).
The names in the directory stay what they are but for that file.

`Journal.Carries` forgets the files and keeps only their number and the records, in
order. That is what `Journal.append` is described with: an acknowledged append has
added its record behind all others, and any other append has left the records as they
were (`Carries.append`).
-/

namespace AppendStore

namespace Journal

open Segment

/-- The journal writes to `f`, the newest of its files. -/
structure Active (dir : Path) (trail : List DirectoryRef) (f : LogFile) (older : List LogFile)
    (o : Over Journal Host) : Prop where
  files : Files dir trail (f :: older) o.base.disk
  dir_eq : o.item.dir = dir
  valid : CapacityOk o.item.segmentCapacity
  segment : ∃ s, o.base.segment? o.item.active = some ⟨s, f.store⟩ ∧ s.id = idAt older.length ∧
    f.ledger.Models s (o.base.disk.store f.store)

theorem Active.held {dir : Path} {trail : List DirectoryRef} {f : LogFile} {older : List LogFile}
    {o : Over Journal Host} (h : Active dir trail f older o) : Held dir trail f older o where
  own := h.files.own
  dir_eq := h.dir_eq
  valid := h.valid
  segment := h.segment

theorem Held.active {dir : Path} {trail : List DirectoryRef} {f : LogFile} {older : List LogFile}
    {o : Over Journal Host} (h : Held dir trail f older o)
    (hids : (o.base.disk.children (Disk.lastOf trail)).filterMap (Disk.idOf? .log) =
      ((List.range (f :: older).length).map idAt).reverse) : Active dir trail f older o where
  files := h.own.alone hids
  dir_eq := h.dir_eq
  valid := h.valid
  segment := h.segment

namespace Active

variable {dir : Path} {trail : List DirectoryRef} {f f' : LogFile} {older : List LogFile}
  {o o' : Over Journal Host} {t : Transaction}

theorem same (h : Active dir trail f older o) (hheld : Held dir trail f' older o')
    (hchildren : o'.base.disk.children (Disk.lastOf trail) =
      o.base.disk.children (Disk.lastOf trail)) : Active dir trail f' older o' :=
  hheld.active (by rw [hchildren]; exact h.files.ids)

theorem withItem (h : Active dir trail f older o) {j : Journal} (hdir : j.dir = o.item.dir)
    (hcapacity : j.segmentCapacity = o.item.segmentCapacity) (hactive : j.active = o.item.active) :
    Active dir trail f older ⟨j, o.base⟩ :=
  h.same (h.held.withItem hdir hcapacity hactive) rfl

theorem withPending (h : Active dir trail f older o) (pending : Nat) :
    Active dir trail f older ⟨{ o.item with pending }, o.base⟩ :=
  h.withItem rfl rfl rfl

/-- Work that is nothing to log files, and to open segments, leaves a journal in use. -/
theorem spared (h : Active dir trail f older o) {base : Host} (hlinked : base.disk.Linked)
    (hspares : o.base.disk.Spares .log base.disk) (hsegments : base.segments = o.base.segments) :
    Active dir trail f older ⟨o.item, base⟩ where
  files := h.files.spared hlinked hspares
  dir_eq := h.dir_eq
  valid := h.valid
  segment := by
    obtain ⟨s, href, hid, hmodels⟩ := h.segment
    refine ⟨s, ?_, hid, ?_⟩
    · rw [Host.segment?, hsegments]
      exact href
    · rw [hspares.store_eq (h.files.found List.suffix_rfl)]
      exact hmodels

theorem append_of_accepts (h : Active dir trail f older o) (ha : f.ledger.Accepts t) :
    ∃ base, onActive (Segment.append t) o = .ok (Ledger.header f.ledger.back t) ⟨o.item, base⟩ ∧
      base.disk.children (Disk.lastOf trail) = o.base.disk.children (Disk.lastOf trail) ∧
      Active dir trail { f with ledger := f.ledger.push t } older ⟨o.item, base⟩ := by
  obtain ⟨base, b, happend, hdisk, hnext⟩ := h.held.append_of_accepts ha
  have hchildren : base.disk.children (Disk.lastOf trail) =
      o.base.disk.children (Disk.lastOf trail) := by rw [hdisk]; rfl
  exact ⟨base, happend, hchildren, h.same hnext hchildren⟩

/-- A sync only notes how far the segment has got. -/
theorem sync (h : Active dir trail f older o) :
    ∃ base, onActive Segment.sync o = .ok () ⟨o.item, base⟩ ∧ base.disk = o.base.disk ∧
      Active dir trail f older ⟨o.item, base⟩ := by
  obtain ⟨base, hsync, hdisk, hnext⟩ := h.held.sync
  exact ⟨base, hsync, hdisk, h.same hnext (by rw [hdisk])⟩

/-- The journal moves on to a file without records, or a directory has the name of that file and it
stays. -/
theorem advance (h : Active dir trail f older o) (hcount : (f :: older).length < UInt64.size) :
    (∃ r active base, Journal.advance o =
        .ok () ⟨{ o.item with pending := 0, active, charged := 0 }, base⟩ ∧
      base.disk.children (Disk.lastOf trail) = (FileName.of .log (idAt (f :: older).length),
        .file r) :: o.base.disk.children (Disk.lastOf trail) ∧
      Active dir trail ⟨r, ⟨o.item.segmentCapacity, []⟩⟩ (f :: older)
        ⟨{ o.item with pending := 0, active, charged := 0 }, base⟩) ∨
    (∃ inner, (o.base.disk.children (Disk.lastOf trail)).lookup
      (FileName.of .log (idAt (f :: older).length)) = some (.directory inner)) ∧
      ∃ e o', Journal.advance o = .error e o' ∧ Active dir trail f older o' := by
  rcases h.files.offer_next hcount o.item.segmentCapacity with
    ⟨hfree, hoffer⟩ | ⟨hother, e, hoffer⟩
  · obtain ⟨r, active, base, hadvance, hchildren, hnext⟩ := h.held.advance_of_offer hcount hoffer
    simp only [withFile, hfree] at hchildren
    refine .inl ⟨r, active, base, hadvance, hchildren, hnext.active ?_⟩
    rw [hchildren]
    exact h.files.ids_next r
  · obtain ⟨base, hadvance, hdisk, hnext⟩ := h.held.advance_of_refused hcount hoffer
    exact .inr ⟨hother, e, _, hadvance, h.same hnext (by rw [hdisk])⟩

theorem applyPolicy (h : Active dir trail f older o) :
    ∃ pending base, Journal.applyPolicy o = .ok () ⟨{ o.item with pending }, base⟩ ∧
      base.disk = o.base.disk ∧ Active dir trail f older ⟨{ o.item with pending }, base⟩ := by
  obtain ⟨pending, base, hpolicy, hdisk, hnext⟩ := h.held.applyPolicy
  exact ⟨pending, base, hpolicy, hdisk, h.same hnext (by rw [hdisk])⟩

end Active

/-- The journal has `n` files, and in them the given records in order. -/
def Carries (dir : Path) (records : List (Appended × Transaction)) (n : Nat)
    (o : Over Journal Host) : Prop :=
  ∃ trail f older, Active dir trail f older o ∧ recordsIn (f :: older) = records ∧
    (f :: older).length = n

namespace Carries

variable {dir : Path} {records : List (Appended × Transaction)} {n : Nat} {o : Over Journal Host}

theorem withItem (h : Carries dir records n o) {j : Journal} (hdir : j.dir = o.item.dir)
    (hcapacity : j.segmentCapacity = o.item.segmentCapacity) (hactive : j.active = o.item.active) :
    Carries dir records n ⟨j, o.base⟩ := by
  obtain ⟨trail, f, older, hactive', hrecords, hn⟩ := h
  exact ⟨trail, f, older, hactive'.withItem hdir hcapacity hactive, hrecords, hn⟩

theorem spared (h : Carries dir records n o) {base : Host} (hlinked : base.disk.Linked)
    (hspares : o.base.disk.Spares .log base.disk) (hsegments : base.segments = o.base.segments) :
    Carries dir records n ⟨o.item, base⟩ := by
  obtain ⟨trail, f, older, hactive, hrecords, hn⟩ := h
  exact ⟨trail, f, older, hactive.spared hlinked hspares hsegments, hrecords, hn⟩

theorem attempt_advance (h : Carries dir records n o) (hn : n < UInt64.size) :
    ∃ result o' m, (Action.attempt advance : Action (Over Journal Host) (Except StoreError Unit)) o =
        .ok result o' ∧ Carries dir records m o' ∧ m ≤ n + 1 := by
  obtain ⟨trail, f, older, hactive, hrecords, rfl⟩ := h
  rcases hactive.advance hn with ⟨r, active, base, hadvance, -, hnext⟩ | ⟨-, e, o', hadvance, hnext⟩
  · refine ⟨_, _, _, Action.attempt_of_ok hadvance, ⟨trail, _, f :: older, hnext, ?_, rfl⟩,
      Nat.le_refl _⟩
    rw [recordsIn_cons_of_empty rfl, hrecords]
  · exact ⟨_, o', _, Action.attempt_of_error hadvance, ⟨trail, f, older, hnext, hrecords, rfl⟩,
      Nat.le_succ _⟩

/-- A record is placed behind all others, in the file that is active then, or there is no room for
it and the records stay. -/
theorem place (h : Carries dir records n o) (hn : n < UInt64.size) (t : Transaction) :
    (∃ header id o' m, Journal.place t o = .ok header o' ∧ activeId o' = .ok id o' ∧
      Carries dir (records ++ [(⟨id, header⟩, t)]) m o' ∧ m ≤ n + 1) ∨
    ∃ e o' m, Journal.place t o = .error e o' ∧ Carries dir records m o' ∧ m ≤ n + 1 := by
  obtain ⟨trail, f, older, hactive, rfl, rfl⟩ := h
  cases hencode : t.encode with
  | error e =>
    obtain ⟨fault, rfl⟩ := Transaction.invalid_of_encode_error hencode
    exact .inr ⟨_, o, _, place_of_error (hactive.held.append_of_invalid hencode) rfl,
      ⟨trail, f, older, hactive, rfl, rfl⟩, Nat.le_succ _⟩
  | ok body =>
    obtain ⟨hw, -⟩ := Transaction.encode_eq_ok_iff.1 hencode
    by_cases hroom : recordHeaderSize + t.encodedLength ≤ f.ledger.room
    · obtain ⟨base, happend, -, hnext⟩ := hactive.append_of_accepts ⟨hw, hroom⟩
      exact .inl ⟨_, _, _, _, place_of_ok happend, hnext.held.activeId_eq,
        ⟨trail, _, older, hnext, recordsIn_push f older t, rfl⟩, Nat.le_succ _⟩
    · rw [place_of_full (hactive.held.append_of_full hw hroom) rfl]
      rcases hactive.advance hn with
        ⟨r, active, base, hadvance, -, hnext⟩ | ⟨-, e, o', hadvance, hnext⟩
      -- The retry is on an empty file, so it decides whether there is room at all.
      · have hsame : recordsIn (⟨r, ⟨o.item.segmentCapacity, []⟩⟩ :: f :: older) = _ :=
          recordsIn_cons_of_empty rfl (f :: older)
        rw [Action.bind_of_ok hadvance]
        by_cases hfits : recordHeaderSize + t.encodedLength ≤
            (⟨o.item.segmentCapacity, []⟩ : Ledger).room
        · obtain ⟨base', happend, -, hlast⟩ := hnext.append_of_accepts ⟨hw, hfits⟩
          refine .inl ⟨_, _, _, _, happend, hlast.held.activeId_eq,
            ⟨trail, _, f :: older, hlast, ?_, rfl⟩, Nat.le_refl _⟩
          rw [recordsIn_push, hsame]
        · exact .inr ⟨_, _, _, hnext.held.append_of_full hw hfits,
            ⟨trail, _, f :: older, hnext, hsame, rfl⟩, Nat.le_refl _⟩
      · exact .inr ⟨e, o', _, Action.bind_of_error hadvance, ⟨trail, f, older, hnext, rfl, rfl⟩,
          Nat.le_succ _⟩

theorem applyPolicy (h : Carries dir records n o) :
    ∃ o', Journal.applyPolicy o = .ok () o' ∧ Carries dir records n o' := by
  obtain ⟨trail, f, older, hactive, hrecords, hn⟩ := h
  obtain ⟨pending, base, hpolicy, -, hnext⟩ := hactive.applyPolicy
  exact ⟨_, hpolicy, trail, f, older, hnext, hrecords, hn⟩

theorem append_of_placed {header : RecordHeader} {id : UInt64} {t : Transaction}
    {o₁ : Over Journal Host} (h : Carries dir records n o₁) (hn : n < UInt64.size)
    (hplace : Journal.place t o = .ok header o₁) (hid : activeId o₁ = .ok id o₁) :
    ∃ o' m, Journal.append t o = .ok ⟨id, header⟩ o' ∧ Carries dir records m o' ∧ m ≤ n + 1 := by
  have hcounted := h.withItem (j := counted o₁.item header) rfl rfl rfl
  obtain ⟨o₂, hpolicy, hsynced⟩ := hcounted.applyPolicy
  rw [Journal.append_of_placed hplace hid hpolicy]
  split
  · obtain ⟨result, o₃, m, hadvance, hlast, hm⟩ := hsynced.attempt_advance hn
    exact ⟨o₃, m, Action.bind_of_ok hadvance, hlast, hm⟩
  · exact ⟨o₂, n, rfl, hsynced, Nat.le_succ n⟩

/-- An acknowledged append adds its record behind all others, and a failed one leaves the records
as they are. At most two files are made for it. -/
theorem append (h : Carries dir records n o) (hn : n + 1 < UInt64.size) (t : Transaction) :
    (∃ a o' m, Journal.append t o = .ok a o' ∧ Carries dir (records ++ [(a, t)]) m o' ∧
      m ≤ n + 2) ∨
    ∃ e o' m, Journal.append t o = .error e o' ∧ Carries dir records m o' ∧ m ≤ n + 2 := by
  rcases h.place (Nat.lt_of_succ_lt hn) t with
    ⟨header, id, o₁, m, hplace, hid, hplaced, hm⟩ | ⟨e, o₁, m, hplace, hkept, hm⟩
  · obtain ⟨o₂, m', happend, hlast, hm'⟩ :=
      hplaced.append_of_placed (Nat.lt_of_le_of_lt hm hn) hplace hid
    exact .inl ⟨_, o₂, m', happend, hlast, Nat.le_trans hm' (Nat.succ_le_succ hm)⟩
  · exact .inr ⟨e, o₁, m, append_of_unplaced hplace, hkept, Nat.le_succ_of_le hm⟩

/-- A sync keeps the records and leaves the disk as it is. -/
theorem sync (h : Carries dir records n o) :
    ∃ o', Journal.sync o = .ok () o' ∧ Carries dir records n o' ∧ o'.base.disk = o.base.disk := by
  obtain ⟨trail, f, older, hactive, hrecords, hn⟩ := h
  obtain ⟨base, hsync, hdisk, hnext⟩ := hactive.sync
  refine ⟨⟨{ o.item with pending := 0 }, base⟩, ?_,
    ⟨trail, f, older, hnext.withPending 0, hrecords, hn⟩, hdisk⟩
  unfold Journal.sync
  rw [Action.bind_of_ok hsync]
  rfl

end Carries

end Journal

end AppendStore
