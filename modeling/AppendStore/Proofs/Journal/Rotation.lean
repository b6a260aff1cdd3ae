import AppendStore.Proofs.Journal.Gauge

/-!
# The rotation of a journal

`Journal.run_follows_gauge` says that a journal is the machine of its rotation, which is
`Journal.Gauge`. The journal must have its directory for itself and be opened with the
same settings every time. Then every append goes where the machine puts it, or fails as
the machine says, and after every request the journal is at the id and the number of
bytes of the machine (`Gauge.Reads`). A segment that is `Packed` passed the size limit
with its last record, if at all, and all segments of such a journal are.

`Journal.Stands` is the invariant. It relates the files of a journal to the machine
while an append is under way, so the bytes may be past the limit in it. The bound on
them is a fact about the machine alone (`Gauge.used_run_le`).
-/

namespace AppendStore

namespace Journal

open Segment

/-- The records of a segment have room in it, and all but the last one stay within the limit. -/
structure Packed (config : Config) (l : Ledger) : Prop where
  capacity : l.capacity = config.segmentCapacity
  room : wordSize + l.used ≤ l.capacity.toNat
  within : ({ l with records := l.records.dropLast } : Ledger).used ≤ config.sizeLimit.toNat

namespace Packed

variable {config : Config} {l : Ledger} {t : Transaction}

theorem of_nil (hcapacity : CapacityOk config.segmentCapacity) :
    Packed config ⟨config.segmentCapacity, []⟩ where
  capacity := rfl
  room := Nat.le_of_lt hcapacity.wordSize_lt
  within := Nat.zero_le _

theorem used_lt (h : Packed config l) : l.used < UInt32.size :=
  Nat.lt_of_le_of_lt (Nat.le_trans (Nat.le_add_left _ _) h.room) l.capacity.toNat_lt

theorem push (h : Packed config l) (hwithin : l.used ≤ config.sizeLimit.toNat)
    (hroom : wordSize + l.used + (recordHeaderSize + t.encodedLength) ≤ l.capacity.toNat) :
    Packed config (l.push t) where
  capacity := h.capacity
  room := by
    rw [Ledger.used_push, ← Nat.add_assoc]
    exact hroom
  within := by
    have hrest : ({ l.push t with records := (l.push t).records.dropLast } : Ledger) = l := by
      rw [Ledger.push, List.dropLast_concat]
    rwa [hrest]

end Packed

/-- The files of a journal that had the given settings all along, in a directory where nothing is in
the way of the next one. -/
structure Laid (config : Config) (trail : List DirectoryRef) (f : LogFile) (older : List LogFile)
    (o : Over Journal Host) : Prop where
  active : Active config.logDir trail f older o
  /-- No directory has the name of a log file. -/
  clear : ∀ id inner, (o.base.disk.children (Disk.lastOf trail)).lookup (FileName.of .log id) ≠
    some (.directory inner)
  sizeLimit : o.item.sizeLimit = config.sizeLimit
  segmentCapacity : o.item.segmentCapacity = config.segmentCapacity
  packed : ∀ g ∈ f :: older, Packed config g.ledger

theorem clear_cons {entries : List (String × Entry)}
    (h : ∀ id inner, entries.lookup (FileName.of .log id) ≠ some (.directory inner))
    (name : String) (r : StoreRef) : ∀ id inner,
      ((name, Entry.file r) :: entries).lookup (FileName.of .log id) ≠
        some (.directory inner) := by
  intro id inner hfound
  rw [List.lookup_cons] at hfound
  split at hfound
  · cases hfound
  · exact h id inner hfound

namespace Laid

variable {config : Config} {trail : List DirectoryRef} {f : LogFile} {older : List LogFile}
  {o : Over Journal Host} {t : Transaction}

theorem newest (h : Laid config trail f older o) : Packed config f.ledger :=
  h.packed f List.mem_cons_self

theorem withItem (h : Laid config trail f older o) {j : Journal} {base : Host}
    (hactive : Active config.logDir trail f older ⟨j, base⟩)
    (hdisk : base.disk = o.base.disk) (hlimit : j.sizeLimit = o.item.sizeLimit)
    (hcapacity : j.segmentCapacity = o.item.segmentCapacity) :
    Laid config trail f older ⟨j, base⟩ where
  active := hactive
  clear := hdisk ▸ h.clear
  sizeLimit := hlimit.trans h.sizeLimit
  segmentCapacity := hcapacity.trans h.segmentCapacity
  packed := h.packed

theorem accepts (h : Laid config trail f older o) (hw : t.Writable)
    (hroom : wordSize + f.ledger.used + (recordHeaderSize + t.encodedLength) ≤
      config.segmentCapacity.toNat) : f.ledger.Accepts t := by
  rw [← h.newest.capacity] at hroom
  refine ⟨hw, ?_⟩
  rw [Ledger.room]
  omega

theorem append (h : Laid config trail f older o) (hw : t.Writable)
    (hwithin : f.ledger.used ≤ config.sizeLimit.toNat)
    (hroom : wordSize + f.ledger.used + (recordHeaderSize + t.encodedLength) ≤
      config.segmentCapacity.toNat) :
    ∃ base, onActive (Segment.append t) o = .ok (Ledger.header f.ledger.back t) ⟨o.item, base⟩ ∧
      Laid config trail { f with ledger := f.ledger.push t } older ⟨o.item, base⟩ := by
  obtain ⟨base, happend, hchildren, hnext⟩ := h.active.append_of_accepts (h.accepts hw hroom)
  rw [← h.newest.capacity] at hroom
  exact ⟨base, happend, hnext, hchildren ▸ h.clear, h.sizeLimit, h.segmentCapacity,
    List.forall_mem_cons.2 ⟨h.newest.push hwithin hroom, (List.forall_mem_cons.1 h.packed).2⟩⟩

theorem lookup_next (h : Laid config trail f older o) (hcount : (f :: older).length < UInt64.size) :
    (o.base.disk.children (Disk.lastOf trail)).lookup
      (FileName.of .log (idAt (f :: older).length)) = none := by
  rcases h.active.files.offer_next hcount o.item.segmentCapacity with
    ⟨hfree, -⟩ | ⟨⟨inner, hother⟩, -⟩
  · exact hfree
  · exact absurd hother (h.clear _ inner)

theorem advance (h : Laid config trail f older o) (hcount : (f :: older).length < UInt64.size) :
    ∃ r active base, Journal.advance o =
        .ok () ⟨{ o.item with pending := 0, active, charged := 0 }, base⟩ ∧
      Laid config trail ⟨r, ⟨config.segmentCapacity, []⟩⟩ (f :: older)
        ⟨{ o.item with pending := 0, active, charged := 0 }, base⟩ := by
  have hcapacity : CapacityOk config.segmentCapacity := h.segmentCapacity ▸ h.active.valid
  rcases h.active.advance hcount with
    ⟨r, active, base, hadvance, hchildren, hnext⟩ | ⟨⟨inner, hother⟩, -⟩
  · rw [h.segmentCapacity] at hnext
    exact ⟨r, active, base, hadvance, hnext, hchildren ▸ clear_cons h.clear _ r, h.sizeLimit,
      h.segmentCapacity, List.forall_mem_cons.2 ⟨Packed.of_nil hcapacity, h.packed⟩⟩
  · exact absurd hother (h.clear _ inner)

/-- The records of a segment are those of a file, or there are none. -/
theorem packed_slotsIn (h : Laid config trail f older o) (id : UInt64) :
    Packed config
      ⟨config.segmentCapacity, (slotsIn id (recordsIn (f :: older))).map (·.2)⟩ := by
  cases hslots : slotsIn id (recordsIn (f :: older)) with
  | nil => exact Packed.of_nil (h.segmentCapacity ▸ h.active.valid)
  | cons r rest =>
    have hr : r ∈ slotsIn id (recordsIn (f :: older)) := hslots ▸ List.mem_cons_self
    obtain ⟨hmem, hid⟩ := List.mem_filter.1 hr
    obtain ⟨g, behind, hsuffix, hnumber, -⟩ := mem_recordsIn.1 hmem
    have hg : g ∈ f :: older := hsuffix.subset List.mem_cons_self
    have hsame : id = idAt behind.length := (of_decide_eq_true hid).symm.trans hnumber
    have hrecords : (slotsIn id (recordsIn (f :: older))).map (·.2) = g.ledger.records := by
      rw [hsame, slotsIn_recordsIn hsuffix h.active.files.count, List.map_map]
      exact g.ledger.map_snd_entries
    rw [← hslots, hrecords, ← (h.packed g hg).capacity]
    exact h.packed g hg

end Laid

/-- The journal has the given records, and its active segment is the one of the gauge. -/
def Stands (config : Config) (records : List (Appended × Transaction)) (g : Gauge)
    (o : Over Journal Host) : Prop :=
  ∃ trail f older, Laid config trail f older o ∧ recordsIn (f :: older) = records ∧
    (f :: older).length = g.id ∧ f.ledger.used = g.used ∧ o.item.charged.toNat = g.used

namespace Stands

variable {config : Config} {records : List (Appended × Transaction)} {g : Gauge}
  {o : Over Journal Host} {t : Transaction}

theorem sizeLimit_eq (h : Stands config records g o) : o.item.sizeLimit = config.sizeLimit := by
  obtain ⟨trail, f, older, hlaid, -⟩ := h
  exact hlaid.sizeLimit

theorem charged_toNat (h : Stands config records g o) : o.item.charged.toNat = g.used := by
  obtain ⟨trail, f, older, -, -, -, -, hcharged⟩ := h
  exact hcharged

theorem activeId_eq (h : Stands config records g o) :
    activeId o = .ok (UInt64.ofNat g.id) o := by
  obtain ⟨trail, f, older, hlaid, -, hlength, -⟩ := h
  rw [← hlength]
  exact hlaid.active.held.activeId_eq

theorem append_of_invalid (h : Stands config records g o) {e : StoreError}
    (hencode : t.encode = .error e) : Journal.append t o = .error e o := by
  obtain ⟨trail, f, older, hlaid, -⟩ := h
  obtain ⟨fault, rfl⟩ := Transaction.invalid_of_encode_error hencode
  exact append_of_unplaced (place_of_error (hlaid.active.held.append_of_invalid hencode) rfl)

theorem append_of_full (h : Stands config records g o) (hw : t.Writable)
    (hfull : ¬ g.Fits config (recordHeaderSize + t.encodedLength)) :
    onActive (Segment.append t) o = .error (.insufficientSpace (recordHeaderSize + t.encodedLength)
      (config.segmentCapacity.toNat - wordSize - g.used : Nat)) o := by
  obtain ⟨trail, f, older, hlaid, -, -, hused, -⟩ := h
  have hroom : f.ledger.room = config.segmentCapacity.toNat - wordSize - g.used := by
    rw [Ledger.room, hlaid.newest.capacity, hused]
  rw [Gauge.Fits] at hfull
  rw [← hroom]
  apply hlaid.active.held.append_of_full hw
  rw [hroom]
  simp only [recordHeaderSize] at hfull ⊢
  omega

theorem append_of_fits (h : Stands config records g o) (hw : t.Writable)
    (hwithin : g.used ≤ config.sizeLimit.toNat)
    (hfits : g.Fits config (recordHeaderSize + t.encodedLength)) :
    ∃ header base, onActive (Segment.append t) o = .ok header ⟨o.item, base⟩ ∧
      activeId ⟨o.item, base⟩ = .ok (UInt64.ofNat g.id) ⟨o.item, base⟩ ∧
      Stands config (records ++ [(⟨UInt64.ofNat g.id, header⟩, t)])
        (g.add (recordHeaderSize + t.encodedLength)) ⟨counted o.item header, base⟩ := by
  obtain ⟨trail, f, older, hlaid, rfl, hlength, hused, hcharged⟩ := h
  rw [Gauge.Fits, ← hused] at hfits
  rw [← hused] at hwithin hcharged
  obtain ⟨base, happend, hnext⟩ := hlaid.append hw hwithin hfits
  have hid : idAt older.length = UInt64.ofNat g.id := congrArg UInt64.ofNat hlength
  have hadd : (f.ledger.push t).used = (g.add (recordHeaderSize + t.encodedLength)).used := by
    rw [Ledger.used_push, hused, Gauge.add]
  refine ⟨_, base, happend, hid ▸ hnext.active.held.activeId_eq, trail, _, older,
    hnext.withItem (hnext.active.withItem rfl rfl rfl) rfl rfl rfl, ?_, hlength, hadd, ?_⟩
  · rw [recordsIn_push, hid]
  · exact (charged_counted hcharged (hlaid.accepts hw hfits)).trans hadd

theorem advance (h : Stands config records g o) (hid : g.id < UInt64.size) :
    ∃ o', Journal.advance o = .ok () o' ∧ Stands config records g.next o' := by
  obtain ⟨trail, f, older, hlaid, hrecords, hlength, -⟩ := h
  obtain ⟨r, active, base, hadvance, hnext⟩ := hlaid.advance (hlength ▸ hid)
  refine ⟨_, hadvance, trail, _, f :: older, hnext, ?_, congrArg (· + 1) hlength, rfl, rfl⟩
  rw [recordsIn_cons_of_empty rfl, hrecords]

theorem applyPolicy (h : Stands config records g o) :
    ∃ o', Journal.applyPolicy o = .ok () o' ∧ Stands config records g o' := by
  obtain ⟨trail, f, older, hlaid, hgauge⟩ := h
  obtain ⟨pending, base, hpolicy, hdisk, hnext⟩ := hlaid.active.applyPolicy
  exact ⟨_, hpolicy, trail, f, older, hlaid.withItem hnext hdisk rfl rfl, hgauge⟩

/-- A record goes where the gauge puts it, or there is no room for it. -/
theorem place (h : Stands config records g o) (hw : t.Writable)
    (hwithin : g.used ≤ config.sizeLimit.toNat) {length : Nat}
    (hlength : recordHeaderSize + t.encodedLength = length)
    (hid : (g.seat config length).id < UInt64.size) :
    if (g.seat config length).Fits config length then
      ∃ header o', Journal.place t o = .ok header o' ∧
        activeId o' = .ok (UInt64.ofNat (g.seat config length).id) o' ∧
        Stands config (records ++ [(⟨UInt64.ofNat (g.seat config length).id, header⟩, t)])
          ((g.seat config length).add length) ⟨counted o'.item header, o'.base⟩
    else ∃ o', Journal.place t o =
        .error (.insufficientSpace length (config.segmentCapacity.toNat - wordSize : Nat)) o' ∧
      Stands config records (g.seat config length) o' := by
  subst hlength
  rw [Gauge.seat] at hid ⊢
  split at hid
  · next hfits =>
    obtain ⟨header, base, happend, hactive, hnext⟩ := h.append_of_fits hw hwithin hfits
    simp only [if_pos hfits]
    exact ⟨header, _, place_of_ok happend, hactive, hnext⟩
  · next hfull =>
    obtain ⟨o', hadvance, hnext⟩ := h.advance (Nat.lt_of_succ_lt hid)
    rw [if_neg hfull, place_of_full (h.append_of_full hw hfull) rfl, Action.bind_of_ok hadvance]
    split
    · next hfits =>
      obtain ⟨header, base, happend, hactive, hlast⟩ :=
        hnext.append_of_fits hw (Nat.zero_le _) hfits
      exact ⟨header, _, happend, hactive, hlast⟩
    · next hfull' => exact ⟨o', hnext.append_of_full hw hfull', hnext⟩

theorem append_of_placed {header : RecordHeader} {o' : Over Journal Host}
    (h : Stands config records g ⟨counted o'.item header, o'.base⟩)
    (hplace : Journal.place t o = .ok header o')
    (hactive : activeId o' = .ok (UInt64.ofNat g.id) o')
    (hid : (g.settle config).id < UInt64.size) :
    ∃ o'', Journal.append t o = .ok ⟨UInt64.ofNat g.id, header⟩ o'' ∧
      Stands config records (g.settle config) o'' := by
  obtain ⟨o₂, hpolicy, hsynced⟩ := h.applyPolicy
  have happend := Journal.append_of_placed hplace hactive hpolicy
  have hpast : o'.item.sizeLimit < (counted o'.item header).charged ↔
      config.sizeLimit.toNat < g.used := by
    have hlimit : o'.item.sizeLimit = config.sizeLimit := h.sizeLimit_eq
    rw [UInt64.lt_iff_toNat_lt, hlimit, h.charged_toNat]
  rw [Gauge.settle] at hid ⊢
  split at hid
  · next hlt =>
    obtain ⟨o₃, hadvance, hlast⟩ := hsynced.advance (Nat.lt_of_succ_lt hid)
    rw [if_pos (hpast.2 hlt), Action.bind_of_ok (Action.attempt_of_ok hadvance)] at happend
    rw [if_pos hlt]
    exact ⟨o₃, happend, hlast⟩
  · next hge =>
    rw [if_neg (hge ∘ hpast.1)] at happend
    rw [if_neg hge]
    exact ⟨o₂, happend, hsynced⟩

/-- An append does what the gauge says. -/
theorem append (h : Stands config records g o) (hwithin : g.used ≤ config.sizeLimit.toNat)
    (t : Transaction) (hid : (g.append config t).2.id < UInt64.size) :
    (∃ a o', Journal.append t o = .ok a o' ∧ (g.append config t).1 = .ok a.segmentId.toNat ∧
      Stands config (records ++ [(a, t)]) (g.append config t).2 o') ∨
    ∃ e o', Journal.append t o = .error e o' ∧ (g.append config t).1 = .error e ∧
      Stands config records (g.append config t).2 o' := by
  cases hencode : t.encode with
  | error e =>
    rw [Gauge.append_of_invalid hencode]
    exact .inr ⟨e, o, h.append_of_invalid hencode, rfl, h⟩
  | ok body =>
    obtain ⟨hw, rfl⟩ := Transaction.encode_eq_ok_iff.1 hencode
    rw [Gauge.append_of_encode hencode, t.length_layout] at hid ⊢
    generalize hlength : recordHeaderSize + t.encodedLength = length at hid ⊢
    have hseat := Nat.lt_of_le_of_lt (Gauge.id_seat_le_place config length g) hid
    have hplaced := h.place hw hwithin hlength hseat
    by_cases hfits : (g.seat config length).Fits config length
    · rw [Gauge.place_of_fits hfits] at hid ⊢
      rw [if_pos hfits] at hplaced
      obtain ⟨header, o₁, hplace, hactive, hnext⟩ := hplaced
      obtain ⟨o₂, happend, hlast⟩ := hnext.append_of_placed hplace hactive hid
      have hnumber := UInt64.toNat_ofNat_of_lt' hseat
      exact .inl ⟨_, o₂, happend, congrArg Except.ok hnumber.symm, hlast⟩
    · rw [Gauge.place_of_full hfits]
      rw [if_neg hfits] at hplaced
      obtain ⟨o₁, hplace, hnext⟩ := hplaced
      exact .inr ⟨_, o₁, append_of_unplaced hplace, rfl, hnext⟩

theorem sync (h : Stands config records g o) :
    ∃ o', Journal.sync o = .ok () o' ∧ Stands config records g o' := by
  obtain ⟨trail, f, older, hlaid, hgauge⟩ := h
  obtain ⟨base, hsync, hdisk, hnext⟩ := hlaid.active.sync
  refine ⟨⟨{ o.item with pending := 0 }, base⟩, ?_, trail, f, older,
    hlaid.withItem (hnext.withPending 0) hdisk rfl rfl, hgauge⟩
  unfold Journal.sync
  rw [Action.bind_of_ok hsync]
  rfl

variable {j : Journal} {h₀ : Host}

theorem attach (h : Stands config records g ⟨j, h₀⟩) (hcheck : config.check = .ok ())
    (hid : g.id < UInt64.size) :
    ∃ j' h', Journal.attach config h₀ = .ok j' h' ∧ Stands config records g ⟨j', h'⟩ := by
  obtain ⟨trail, f, older, hlaid, hrecords, hlength, hused, -⟩ := h
  obtain ⟨ref, s, h', hattach, hsame, hdisk, hactive⟩ :=
    hlaid.active.files.attach (hlength ▸ hid) hcheck
  exact ⟨_, h', hattach, trail, f, older,
    ⟨hactive, hdisk ▸ hlaid.clear, rfl, rfl, hlaid.packed⟩, hrecords, hlength, hused,
    (charged_opened hlaid.newest.used_lt hsame).trans hused⟩

theorem of_vacant (hvacant : h₀.Vacant config.logDir) (hcheck : config.check = .ok ()) :
    ∃ j h', Journal.attach config h₀ = .ok j h' ∧ Stands config [] {} ⟨j, h'⟩ := by
  obtain ⟨trail, ref, s, h', r, hattach, hused, hnames, hactive⟩ := attach_of_vacant hvacant hcheck
  have hfirst : Packed config ⟨config.segmentCapacity, []⟩ :=
    Packed.of_nil (Config.capacityOk_of_check hcheck)
  have hnone : ∀ id inner, ([] : List (String × Entry)).lookup (FileName.of .log id) ≠
      some (.directory inner) := fun id inner hfound => by cases hfound
  exact ⟨_, h', hattach, trail, _, [],
    ⟨hactive, hnames ▸ clear_cons hnone _ r, rfl, rfl, List.forall_mem_singleton.2 hfirst⟩, rfl, rfl,
    rfl,
    charged_opened hfirst.used_lt hused⟩

end Stands

/-- What can be seen of a journal with the given records is what the gauge says. -/
structure Gauge.Reads (g : Gauge) (records : List (Appended × Transaction)) (j : Journal)
    (h : Host) : Prop where
  activeId_eq : activeId ⟨j, h⟩ = .ok (UInt64.ofNat g.id) ⟨j, h⟩
  charged : j.charged.toNat = g.used
  used : ∃ s, segmentOf j.active h = .ok s h ∧ s.used = g.used
  /-- The segments up to the active one are there, with the records in them. -/
  shows : Shows records ((List.range' 1 g.id).map UInt64.ofNat) j h
  /-- A transaction that has no written form changes nothing at all. -/
  append_of_invalid : ∀ t e, t.encode = .error e → Journal.append t ⟨j, h⟩ = .error e ⟨j, h⟩

theorem Stands.reads {config : Config} {records : List (Appended × Transaction)} {g : Gauge}
    {j : Journal} {h : Host} (hstands : Stands config records g ⟨j, h⟩)
    (hid : g.id < UInt64.size) : g.Reads records j h := by
  have hactive := hstands.activeId_eq
  have hinvalid : ∀ t e, t.encode = .error e → Journal.append t ⟨j, h⟩ = .error e ⟨j, h⟩ :=
    fun t e => hstands.append_of_invalid
  obtain ⟨trail, f, older, hlaid, hrecords, hlength, hused, hcharged⟩ := hstands
  obtain ⟨s, href, -, hmodels⟩ := hlaid.active.segment
  have hcarries : Carries config.logDir records g.id ⟨j, h⟩ :=
    ⟨trail, f, older, hlaid.active, hrecords, hlength⟩
  exact
    { activeId_eq := hactive
      charged := hcharged
      used := ⟨s, segmentOf_eq href, hmodels.used_eq.trans hused⟩
      shows := map_idAt_range g.id ▸ hcarries.shows hid
      append_of_invalid := hinvalid }

def Event.placement? : Event → Option (Except StoreError Nat)
  | appended _ result => some (result.map fun a => a.segmentId.toNat)
  | _ => none

/-- Where the appends have gone. -/
def placements (events : List Event) : List (Except StoreError Nat) :=
  events.filterMap Event.placement?

theorem placements_append (past : List Event) (event : Event) :
    placements (past ++ [event]) = placements past ++ event.placement?.toList :=
  filterMap_concat _ past event

def Tracks (config : Config) (g : Gauge) (σ : Session) : Prop :=
  ∃ j, σ.journal? = some j ∧ Stands config (acks σ.past) g ⟨j, σ.host⟩

namespace Tracks

variable {config : Config} {g : Gauge} {σ : Session}

theorem on_appended {o : Over Journal Host} {a : Appended} {t : Transaction}
    (h : Stands config (acks σ.past ++ [(a, t)]) g o) :
    Tracks config g (σ.on o (.appended t (.ok a))) := by
  refine ⟨o.item, rfl, ?_⟩
  rw [Session.on, acks_append]
  exact h

theorem on_quiet {o : Over Journal Host} {event : Event} (h : Stands config (acks σ.past) g o)
    (hquiet : event.ack? = none) : Tracks config g (σ.on o event) := by
  refine ⟨o.item, rfl, ?_⟩
  rw [Session.acks_on_of_quiet hquiet]
  exact h

theorem serve (h : Tracks config g σ) (hcheck : config.check = .ok ())
    (hwithin : g.used ≤ config.sizeLimit.toNat) {request : Request}
    (hsame : ∀ config', request = .reopen config' → config' = config)
    (hid : (g.serve config request).id < UInt64.size) :
    Tracks config (g.serve config request) (σ.serve request) ∧
      placements (σ.serve request).past =
        placements σ.past ++ (g.placement? config request).toList := by
  obtain ⟨j, hj, hstands⟩ := h
  cases request with
  | append t =>
    rw [Gauge.placement?]
    rcases hstands.append hwithin t hid with
      ⟨a, o, happend, hplace, hnext⟩ | ⟨e, o, happend, hplace, hnext⟩
    · rw [Session.serve_append_of_ok hj happend, hplace]
      exact ⟨on_appended hnext, placements_append _ _⟩
    · rw [Session.serve_append_of_error hj happend, hplace]
      exact ⟨on_quiet hnext rfl, placements_append _ _⟩
  | sync =>
    obtain ⟨o, hsync, hnext⟩ := hstands.sync
    rw [Session.serve_sync_of_ok hj hsync]
    exact ⟨on_quiet hnext rfl, placements_append _ _⟩
  | reopen config' =>
    cases hsame config' rfl
    obtain ⟨j', h', hattach, hnext⟩ := hstands.attach hcheck hid
    rw [Session.serve_reopen_of_ok hattach]
    exact ⟨on_quiet hnext rfl, placements_append _ _⟩

theorem run {requests : List Request} (h : Tracks config g σ) (hcheck : config.check = .ok ())
    (hwithin : g.used ≤ config.sizeLimit.toNat)
    (hsame : ∀ config', .reopen config' ∈ requests → config' = config)
    (hid : (g.run config requests).id < UInt64.size) :
    Tracks config (g.run config requests) (σ.run requests) ∧
      placements (σ.run requests).past = placements σ.past ++ g.placements config requests := by
  induction requests generalizing σ g with
  | nil => exact ⟨h, (List.append_nil _).symm⟩
  | cons request rest ih =>
    have hfirst := Nat.lt_of_le_of_lt (Gauge.id_le_run config _ rest) hid
    obtain ⟨hnext, hplace⟩ := h.serve hcheck hwithin
      (fun config' heq => hsame config' (heq ▸ List.mem_cons_self)) hfirst
    obtain ⟨hlast, hrest⟩ := ih hnext (Gauge.used_serve_le hwithin request)
      (fun config' hmem => hsame config' (List.mem_cons_of_mem request hmem)) hid
    refine ⟨hlast, ?_⟩
    rw [Gauge.placements, ← List.append_assoc, ← hplace]
    exact hrest

end Tracks

/-- A journal that has its directory for itself, and is always opened with the same settings, is the
machine of its rotation. -/
theorem run_follows_gauge {config : Config} {h : Host} {requests : List Request}
    (hcheck : config.check = .ok ()) (hvacant : h.Vacant config.logDir)
    (hsame : ∀ config', .reopen config' ∈ requests → config' = config)
    (hid : (Gauge.run config {} requests).id < UInt64.size) :
    ∃ j h', attach config h = .ok j h' ∧ ∀ earlier, earlier <+: requests →
      let σ := (Session.start j h').run earlier
      let g := Gauge.run config {} earlier
      placements σ.past = Gauge.placements config {} earlier ∧
      (∃ j', σ.journal? = some j' ∧ g.Reads (acks σ.past) j' σ.host) ∧
      g.used ≤ config.sizeLimit.toNat ∧
      ∀ id, Packed config
        ⟨config.segmentCapacity, (slotsIn id (acks σ.past)).map (·.2)⟩ := by
  obtain ⟨j, h', hattach, hstands⟩ := Stands.of_vacant hvacant hcheck
  refine ⟨j, h', hattach, fun earlier hearlier => ?_⟩
  have hstart : Tracks config {} (Session.start j h') := ⟨j, rfl, hstands⟩
  have hfirst := Nat.lt_of_le_of_lt (Gauge.id_run_le hearlier config {}) hid
  obtain ⟨⟨j', hj', hlast⟩, hplace⟩ := hstart.run hcheck (Nat.zero_le _)
    (fun config' hmem => hsame config' (hearlier.subset hmem)) hfirst
  refine ⟨hplace, ⟨j', hj', hlast.reads hfirst⟩, Gauge.used_run_le (Nat.zero_le _) earlier, ?_⟩
  intro id
  obtain ⟨trail, f, older, hlaid, hrecords, -⟩ := hlast
  rw [← hrecords]
  exact hlaid.packed_slotsIn id

/-- A record that does not fit behind the first one and takes the next segment past the limit, one
that fits in no segment, and a transaction without changes. -/
theorem run_follows_gauge_twice_rotated :
    let config : Config := { logDir := ⟨"wal"⟩, segmentCapacity := 80, sizeLimit := 58 }
    let delete (n : Nat) : Transaction := { id := 7, changes := [.delete (List.replicate n 97)] }
    let requests := [.append (delete 1), .append (delete 5), .append (delete 1), .reopen config,
      .append (delete 20), .append { id := 9, changes := [] }, .sync, .append (delete 1)]
    config.check = .ok () ∧ Host.empty.Vacant config.logDir ∧
    Gauge.run config {} requests = ⟨4, 56⟩ ∧
    ∃ j h', attach config Host.empty = .ok j h' ∧
      placements ((Session.start j h').run requests).past =
        [.ok 1, .ok 2, .ok 3, .error (.insufficientSpace 75 72),
          .error (.invalidTransaction (.noChanges 9)), .ok 4] ∧
      ∃ j', ((Session.start j h').run requests).journal? = some j' ∧ j'.charged.toNat = 56 := by
  intro config delete requests
  have hcheck : ({ logDir := ⟨"wal"⟩, segmentCapacity := 80, sizeLimit := 58 } : Config).check =
      .ok () := rfl
  have hmake : Host.makeDirectory ⟨"wal"⟩ Host.empty =
      .ok () { disk := { directories := #[[], [("wal", .directory ⟨2⟩)], []] } } := rfl
  have hvacant : Host.empty.Vacant ⟨"wal"⟩ := ⟨_, _, _, hmake, rfl, rfl, rfl⟩
  have hsame : ∀ config', .reopen config' ∈ requests → config' = config := by
    intro config' hmem
    simpa [requests] using hmem
  have hgauge : Gauge.run config {} requests = ⟨4, 56⟩ := by
    simp only [requests, delete, config]
    decide +kernel
  have hplaces : Gauge.placements config {} requests =
      [.ok 1, .ok 2, .ok 3, .error (.insufficientSpace 75 72),
        .error (.invalidTransaction (.noChanges 9)), .ok 4] := by
    simp only [requests, delete, config]
    rfl
  obtain ⟨j, h', hattach, hruns⟩ := run_follows_gauge hcheck hvacant hsame (hgauge ▸ by decide)
  obtain ⟨hplaced, ⟨j', hj', hreads⟩, -⟩ := hruns requests List.prefix_rfl
  have hcharged : j'.charged.toNat = 56 := by
    rw [hreads.charged, hgauge]
  exact ⟨hcheck, hvacant, hgauge, j, h', hattach, hplaced.trans hplaces, j', hj', hcharged⟩

end Journal

end AppendStore
