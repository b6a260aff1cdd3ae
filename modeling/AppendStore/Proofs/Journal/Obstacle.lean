import AppendStore.Proofs.Journal.Frame
import AppendStore.Proofs.Journal.Keeping

/-!
# Obstacles to a rotation

While a journal is in use others may be at work beside it, and put something where its
next segment belongs. `Journal.Elsewhere` is such work: whatever it does, it leaves the
journal's own files as they are and brings no records. `Journal.Reached` are the states
that a journal gets into by its own work and that of others.

`Journal.append_survives_obstacle` says what becomes of an append in each of them. If the
next segment cannot be opened, it ends as `Journal.Withstands` says: a record that fits is
taken even if that goes past the size limit, so the limit may be passed by any number of
records, and a record that does not fit is refused with nothing changed. As soon as the
next segment can be opened again, the first append that has a reason to move on does
(`Journal.MovesOn`).
-/

namespace AppendStore

namespace Journal

open Segment

variable {dir : Path} {trail : List DirectoryRef} {f : LogFile} {older : List LogFile}
  {o o' : Over Journal Host} {j : Journal} {h h' : Host} {t : Transaction} {c : UInt32}
  {e : StoreError} {records : List (Appended × Transaction)} {id : UInt64}

/-- Work on the host that is not the journal's, while its segments are those up to the given one.
They keep their names and their bytes, the active one stays open, and no other log file with
records is put beside them. -/
structure Elsewhere (j : Journal) (newest : UInt64) (h h' : Host) : Prop where
  linked : h'.disk.Linked
  leads : ∀ {trail : List DirectoryRef}, h.disk.Leads j.dir trail → h'.disk.Leads j.dir trail
  kept : ∀ {trail : List DirectoryRef} {id : UInt64} {r : StoreRef}, h.disk.Leads j.dir trail →
    0 < id.toNat → id ≤ newest →
    (h.disk.children (Disk.lastOf trail)).lookup (FileName.of .log id) = some (.file r) →
    (h'.disk.children (Disk.lastOf trail)).lookup (FileName.of .log id) = some (.file r) ∧
      h'.disk.store r = h.disk.store r
  others : ∀ {trail : List DirectoryRef} {id : UInt64} {r : StoreRef},
    h'.disk.Leads j.dir trail → (id.toNat = 0 ∨ newest < id) →
    (h'.disk.children (Disk.lastOf trail)).lookup (FileName.of .log id) = some (.file r) →
    Barren id (h'.disk.store r)
  active : h'.segment? j.active = h.segment? j.active

theorem Held.kept_elsewhere (hheld : Held dir trail f older ⟨j, h⟩)
    (hcount : (f :: older).length < UInt64.size)
    (helse : Elsewhere j (idAt older.length) h h') {g : LogFile} {rest : List LogFile}
    (hmem : g :: rest <:+ f :: older) :
    (h'.disk.children (Disk.lastOf trail)).lookup (FileName.of .log (idAt rest.length)) =
        some (.file g.store) ∧ h'.disk.store g.store = h.disk.store g.store := by
  have hleads : h.disk.Leads j.dir trail := hheld.dir_eq.symm ▸ hheld.own.leads
  have hle : rest.length + 1 ≤ older.length + 1 := hmem.length_le
  have hnumber := toNat_idAt (Nat.lt_of_le_of_lt hle hcount)
  refine helse.kept hleads (hnumber.symm ▸ Nat.succ_pos _) ?_ (hheld.own.found hmem)
  rw [UInt64.le_iff_toNat_le, hnumber, toNat_idAt hcount]
  exact hle

theorem Held.own_elsewhere (hheld : Held dir trail f older ⟨j, h⟩)
    (hcount : (f :: older).length < UInt64.size)
    (helse : Elsewhere j (idAt older.length) h h') :
    OwnFiles dir trail (f :: older) h'.disk := by
  have hdir : j.dir = dir := hheld.dir_eq
  have hleads : h'.disk.Leads j.dir trail := helse.leads (hdir.symm ▸ hheld.own.leads)
  exact
    { leads := hdir ▸ hleads
      room := helse.linked.leads_lt hleads
      accepted := hheld.own.accepted
      count := hheld.own.count
      found := fun hmem => (hheld.kept_elsewhere hcount helse hmem).1
      stored := fun g hg => by
        obtain ⟨rest, hmem⟩ := exists_suffix_of_mem hg
        rw [(hheld.kept_elsewhere hcount helse hmem).2]
        exact hheld.own.stored g hg
      bound := fun hfound => helse.linked.files hfound
      separate := fun hfound hfound' =>
        FileName.of_injective (helse.linked.separate hfound hfound').2
      others := fun hfound hother =>
        helse.others hleads ((forall_idAt_ne_iff hcount).1 hother) hfound }

theorem Held.elsewhere (hheld : Held dir trail f older ⟨j, h⟩)
    (hcount : (f :: older).length < UInt64.size)
    (helse : Elsewhere j (idAt older.length) h h') : Held dir trail f older ⟨j, h'⟩ where
  own := hheld.own_elsewhere hcount helse
  dir_eq := hheld.dir_eq
  valid := hheld.valid
  segment := by
    obtain ⟨s, href, hid, hmodels⟩ := hheld.segment
    refine ⟨s, helse.active.trans href, hid, ?_⟩
    rw [(hheld.kept_elsewhere hcount helse List.suffix_rfl).2]
    exact hmodels

theorem Retains.elsewhere (hretains : Retains dir records ⟨j, h⟩)
    (hid : activeId ⟨j, h⟩ = .ok id ⟨j, h⟩) (helse : Elsewhere j id h h') :
    Retains dir records ⟨j, h'⟩ := by
  obtain ⟨trail, f, older, hheld, hrecords, hcharged, hcount⟩ := hretains
  cases hid.symm.trans hheld.activeId_eq
  exact ⟨trail, f, older, hheld.elsewhere hcount helse, hrecords, hcharged, hcount⟩

/-- Taking away what has the name of a later segment is none of the journal's work. -/
theorem Retains.elsewhere_without (hretains : Retains dir records ⟨j, h⟩)
    (hid : activeId ⟨j, h⟩ = .ok id ⟨j, h⟩) (hlinked : h.disk.Linked)
    (hleads : h.disk.Leads dir trail) {later : UInt64} (hlater : id < later)
    (hleads' : (h.disk.without (Disk.lastOf trail) (FileName.of .log later)).Leads dir trail) :
    Elsewhere j id h
      { h with disk := h.disk.without (Disk.lastOf trail) (FileName.of .log later) } := by
  obtain ⟨trail', f, older, hheld, -, -, hcount⟩ := hretains
  cases hid.symm.trans hheld.activeId_eq
  obtain rfl := hleads.trail_eq hheld.own.leads
  obtain rfl : j.dir = dir := hheld.dir_eq
  have hroom := hheld.own.room
  exact
    { linked := hlinked.without hroom _
      leads := fun hleads₁ => by
        rwa [← hleads.trail_eq hleads₁]
      kept := fun hleads₁ _ hle hfound => by
        obtain rfl := hleads.trail_eq hleads₁
        have hother : FileName.of .log _ ≠ FileName.of .log later := fun heq =>
          UInt64.not_lt.2 (FileName.of_injective heq ▸ hle) hlater
        rw [Disk.lookup_without_of_ne hroom hother]
        exact ⟨hfound, rfl⟩
      others := fun hleads₁ hother hfound => by
        obtain rfl := hleads'.trail_eq hleads₁
        exact hheld.own.others (Disk.lookup_of_without hroom hfound)
          ((forall_idAt_ne_iff hcount).2 hother)
      active := rfl }

/-- The states of a journal in a directory that was without files: what was asked of it, and what
others did in between, with the records that it has acknowledged. -/
inductive Reached (dir : Path) : List (Appended × Transaction) → Over Journal Host → Prop where
  | opened {config : Config} {h h' : Host} {j : Journal} (hdir : config.logDir = dir)
      (hunused : h.Unused dir) (hattach : attach config h = .ok j h') : Reached dir [] ⟨j, h'⟩
  | appended {records : List (Appended × Transaction)} {o o' : Over Journal Host}
      {t : Transaction} {a : Appended} {id : UInt64} (hreached : Reached dir records o)
      (hid : activeId o = .ok id o) (hleft : id.toNat + 2 < UInt64.size)
      (happend : append t o = .ok a o') : Reached dir (records ++ [(a, t)]) o'
  | refused {records : List (Appended × Transaction)} {o o' : Over Journal Host}
      {t : Transaction} {e : StoreError} {id : UInt64} (hreached : Reached dir records o)
      (hid : activeId o = .ok id o) (hleft : id.toNat + 2 < UInt64.size)
      (happend : append t o = .error e o') : Reached dir records o'
  | synced {records : List (Appended × Transaction)} {o o' : Over Journal Host}
      (hreached : Reached dir records o) (hsync : sync o = .ok () o') : Reached dir records o'
  /-- One of its segments was opened to be read. -/
  | looked {records : List (Appended × Transaction)} {o : Over Journal Host} {h' : Host}
      {ref : SegmentRef} {id newest : UInt64} (hreached : Reached dir records o)
      (hactive : activeId o = .ok newest o) (hpos : 0 < id.toNat) (hle : id ≤ newest)
      (hopen : o.item.segmentAt id o.base = .ok ref h') : Reached dir records ⟨o.item, h'⟩
  /-- Opened again, on the same host or another one, where no newer log file is listed but perhaps
  that of the next segment. -/
  | reopened {records : List (Appended × Transaction)} {o : Over Journal Host} {config : Config}
      {h h' : Host} {j : Journal} {ids : List UInt64} {id newest : UInt64}
      (hreached : Reached dir records o) (hdisk : h.disk = o.base.disk)
      (hdir : config.logDir = dir) (hid : activeId o = .ok id o)
      (hids : Host.idsIn .log dir h = .ok ids h) (hnewest : ids.getLast? = some newest)
      (hnear : newest = id ∨ newest = id + 1 ∧ id.toNat + 2 < UInt64.size)
      (hattach : attach config h = .ok j h') : Reached dir records ⟨j, h'⟩
  | disturbed {records : List (Appended × Transaction)} {o : Over Journal Host} {h' : Host}
      {id : UInt64} (hreached : Reached dir records o) (hid : activeId o = .ok id o)
      (helse : Elsewhere o.item id o.base h') : Reached dir records ⟨o.item, h'⟩

theorem Reached.retains (hreached : Reached dir records o) : Retains dir records o := by
  induction hreached with
  | opened hdir hunused hattach =>
    subst hdir
    exact .of_attach hunused hattach
  | appended _ hid hleft happend ih =>
    rcases ih.append hid hleft _ with ⟨a, o', happend', hnext⟩ | ⟨e, o', happend', -⟩
    · cases happend'.symm.trans happend
      exact hnext
    · cases happend'.symm.trans happend
  | refused _ hid hleft happend ih =>
    rcases ih.append hid hleft _ with ⟨a, o', happend', -⟩ | ⟨e, o', happend', hnext⟩
    · cases happend'.symm.trans happend
    · cases happend'.symm.trans happend
      exact hnext
  | synced _ hsync ih =>
    obtain ⟨o', hsync', hnext⟩ := ih.sync
    cases hsync'.symm.trans hsync
    exact hnext
  | looked _ hactive hpos hle hopen ih => exact ih.segmentAt hactive hpos hle hopen
  | reopened _ hdisk hdir hid hids hnewest hnear hattach ih =>
    exact ih.attach hdisk hdir hid hids hnewest hnear hattach
  | disturbed _ hid helse ih => exact ih.elsewhere hid helse

/-- How an append of a record of `length` bytes ends while the segment behind `s`, the active one,
cannot be opened. A record that fits is taken, whatever the limit. One that does not is refused with
the error of the opening, and nothing is changed. -/
structure Withstands (records : List (Appended × Transaction)) (o : Over Journal Host) (s : Segment)
    (t : Transaction) (length : Nat) (e : StoreError) : Prop where
  fits : (length : Int) ≤ s.space → ∃ a o' s', append t o = .ok a o' ∧ a.segmentId = s.id ∧
    o'.item = { o.item with charged := o'.item.charged, pending := o'.item.pending } ∧
    segmentOf o'.item.active o'.base = .ok s' o'.base ∧
    s'.id = s.id ∧ s'.space = s.space - length ∧
    o'.item.charged.toNat = o.item.charged.toNat + length ∧ ReadsBack (records ++ [(a, t)]) o'
  full : s.space < length → ∃ o' s', append t o = .error e o' ∧
    o'.item = { o.item with pending := o'.item.pending } ∧ o'.base.disk = o.base.disk ∧
    segmentOf o'.item.active o'.base = .ok s' o'.base ∧ s'.id = s.id ∧ s'.cursors = s.cursors ∧
    ReadsBack records o'

/-- How an append of a record of `length` bytes ends when the segment behind `s`, the active one,
can be opened as `next`. A record that fits and is past the limit is followed by the rotation, and
one that does not fit goes to the next segment if there is room in it. -/
structure MovesOn (records : List (Appended × Transaction)) (o : Over Journal Host)
    (s next : Segment) (t : Transaction) (length : Nat) : Prop where
  past : (length : Int) ≤ s.space → o.item.sizeLimit.toNat < o.item.charged.toNat + length →
    ∃ a o', append t o = .ok a o' ∧ a.segmentId = s.id ∧ activeId o' = .ok (s.id + 1) o' ∧
      o'.item.charged = 0 ∧ ReadsBack (records ++ [(a, t)]) o'
  full : s.space < length → (length : Int) ≤ next.space →
    ∃ a o', append t o = .ok a o' ∧ a.segmentId = s.id + 1 ∧ ReadsBack (records ++ [(a, t)]) o'
  nowhere : s.space < length → next.space < length →
    ∃ o', append t o = .error (.insufficientSpace length next.space) o' ∧
      activeId o' = .ok (s.id + 1) o' ∧ ReadsBack records o'

namespace Held

theorem segmentOf_eq (hheld : Held dir trail f older o) :
    ∃ s, segmentOf o.item.active o.base = .ok s o.base ∧ s.id = idAt older.length ∧
      f.ledger.Models s (o.base.disk.store f.store) := by
  obtain ⟨s, href, hid, hmodels⟩ := hheld.segment
  exact ⟨s, Journal.segmentOf_eq href, hid, hmodels⟩

variable {s next : Segment}

theorem fits_iff (hmodels : f.ledger.Models s (o.base.disk.store f.store)) :
    (((recordHeaderSize + t.encodedLength : Nat) : Int) ≤ s.space) ↔
      recordHeaderSize + t.encodedLength ≤ f.ledger.room := by
  rw [hmodels.space_eq, Int.ofNat_le]

theorem withstands (hheld : Held dir trail f older o)
    (hcharged : o.item.charged.toNat = f.ledger.used) (hcount : (f :: older).length < UInt64.size)
    (hsegment : segmentOf o.item.active o.base = .ok s o.base) (hw : t.Writable)
    (hoffer : nextOffer trail older o = .error e) :
    Withstands (recordsIn (f :: older)) o s t (recordHeaderSize + t.encodedLength) e := by
  obtain ⟨s₀, hsegment₀, hid, hmodels⟩ := hheld.segmentOf_eq
  cases hsegment₀.symm.trans hsegment
  constructor
  case fits =>
    intro hfits
    rw [fits_iff hmodels] at hfits
    obtain ⟨o', happend, hsettled⟩ := hheld.append_of_fits hcharged ⟨hw, hfits⟩ hcount
    cases hsettled with
    | moved past offered => cases offered.symm.trans hoffer
    | stays held item charged =>
      obtain ⟨s', hsegment', hid', hmodels'⟩ := held.segmentOf_eq
      refine ⟨_, o', s', happend, hid.symm, item, hsegment', hid'.trans hid.symm, ?_, ?_, ?_⟩
      · rw [hmodels'.space_eq, hmodels.space_eq, Ledger.room_push, Int.ofNat_sub hfits]
      · rw [charged, Ledger.used_push, hcharged]
      · rw [← recordsIn_push]
        exact held.readsBack
  case full =>
    intro hfull
    have hroom : ¬ recordHeaderSize + t.encodedLength ≤ f.ledger.room := by
      rw [← fits_iff hmodels]
      exact Int.not_le.2 hfull
    obtain ⟨base, happend, hdisk, hnext⟩ := hheld.append_of_refused hw hroom hcount hoffer
    obtain ⟨s', hsegment', hid', hmodels'⟩ := hnext.segmentOf_eq
    exact ⟨_, s', happend, rfl, hdisk, hsegment', hid'.trans hid.symm, hmodels'.cursors_eq hmodels,
      hnext.readsBack⟩

theorem movesOn (hheld : Held dir trail f older o)
    (hcharged : o.item.charged.toNat = f.ledger.used)
    (hcount : (f :: older).length + 1 < UInt64.size)
    (hsegment : segmentOf o.item.active o.base = .ok s o.base) (hw : t.Writable)
    (hoffer : nextOffer trail older o = .ok c) {b : ByteStore}
    (hnext : (⟨c, []⟩ : Ledger).Models next b) :
    MovesOn (recordsIn (f :: older)) o s next t (recordHeaderSize + t.encodedLength) := by
  obtain ⟨s₀, hsegment₀, hid, hmodels⟩ := hheld.segmentOf_eq
  cases hsegment₀.symm.trans hsegment
  have hsucc : s.id + 1 = idAt (f :: older).length := by
    rw [hid, List.length_cons, idAt_succ]
  have hfull : s.space < (recordHeaderSize + t.encodedLength : Nat) →
      ¬ recordHeaderSize + t.encodedLength ≤ f.ledger.room := by
    intro hlt
    rw [← fits_iff hmodels]
    exact Int.not_le.2 hlt
  have hspace := hnext.space_eq
  have hsame : ∀ {r : StoreRef}, recordsIn (⟨r, ⟨c, []⟩⟩ :: f :: older) = recordsIn (f :: older) :=
    recordsIn_cons_of_empty rfl _
  constructor
  case past =>
    intro hfits hpast
    rw [fits_iff hmodels] at hfits
    rw [hcharged, ← Ledger.used_push] at hpast
    obtain ⟨o', happend, hsettled⟩ :=
      hheld.append_of_fits hcharged ⟨hw, hfits⟩ (Nat.lt_of_succ_lt hcount)
    have hreads := hsettled.readsBack
    rw [recordsIn_push] at hreads
    cases hsettled with
    | stays held item charged reason =>
      obtain ⟨e, hrefused⟩ := reason hpast
      cases hrefused.symm.trans hoffer
    | moved past offered held charged =>
      exact ⟨_, o', happend, hid.symm, hsucc ▸ held.activeId_eq, charged, hreads⟩
  case full =>
    intro hlt hfits
    obtain ⟨r, hgoes, -⟩ := hheld.append_of_offer hw (hfull hlt) hcount hoffer
    obtain ⟨j, offer, o', happend, hsettled⟩ := hgoes (by omega)
    have hreads := hsettled.readsBack
    rw [recordsIn_push ⟨r, ⟨c, []⟩⟩, hsame] at hreads
    exact ⟨_, o', happend, hsucc.symm, hreads⟩
  case nowhere =>
    intro hlt hnone
    obtain ⟨r, -, hstays⟩ := hheld.append_of_offer hw (hfull hlt) hcount hoffer
    obtain ⟨o', happend, hlast, -⟩ := hstays (by omega)
    rw [← hspace] at happend
    exact ⟨o', happend, hsucc ▸ hlast.activeId_eq, hsame ▸ hlast.readsBack⟩

end Held

/-- A rotation that fails loses nothing. -/
theorem append_survives_obstacle (hreached : Reached dir records o) {body : Bytes}
    (hencode : t.encode = .ok body) :
    ∃ s, segmentOf o.item.active o.base = .ok s o.base ∧ ReadsBack records o ∧
      (∀ e h', Host.openSegment dir (s.id + 1) o.item.segmentCapacity o.base = .error e h' →
        Withstands records o s t (recordHeaderSize + body.length) e) ∧
      ∀ ref h', Host.openSegment dir (s.id + 1) o.item.segmentCapacity o.base = .ok ref h' →
        s.id.toNat + 2 < UInt64.size →
        ∃ next, segmentOf ref h' = .ok next h' ∧ next.id = s.id + 1 ∧
          next.cursors = .ofCapacity next.capacity ∧
          MovesOn records o s next t (recordHeaderSize + body.length) := by
  obtain ⟨trail, f, older, hheld, rfl, hcharged, hcount⟩ := hreached.retains
  obtain ⟨hw, rfl⟩ := Transaction.encode_eq_ok_iff.1 hencode
  obtain ⟨s, hsegment, hid, hmodels⟩ := hheld.segmentOf_eq
  have hsucc : s.id + 1 = idAt (f :: older).length := by
    rw [hid, List.length_cons, idAt_succ]
  refine ⟨s, hsegment, hheld.readsBack, ?_⟩
  rw [hsucc, t.length_layout, hid, toNat_idAt hcount]
  cases hoffer : nextOffer trail older o with
  | error e =>
    have hopen := hheld.own.openSegment_of_refused hcount hoffer
    refine ⟨fun e' h' hfailed => ?_, fun ref h' hopened => ?_⟩
    · cases hopen.symm.trans hfailed
      exact hheld.withstands hcharged hcount hsegment hw hoffer
    · cases hopen.symm.trans hopened
  | ok c =>
    obtain ⟨r, next, h₁, hopen, -, -, href, hnumber, hnext⟩ :=
      hheld.own.openSegment_of_offer hcount hheld.valid hoffer
    refine ⟨fun e' h' hfailed => ?_, fun ref h' hopened hleft => ?_⟩
    · cases hopen.symm.trans hfailed
    · cases hopen.symm.trans hopened
      exact ⟨next, Journal.segmentOf_eq href, hnumber,
        hnext.capacity ▸ hnext.cursors_of_empty rfl,
        hheld.movesOn hcharged (Nat.lt_of_succ_lt hleft) hsegment hw hoffer hnext⟩

/-- Settings under which every record takes a journal past the limit. -/
def tightConfig : Config := { logDir := ⟨"."⟩, segmentCapacity := 4096, sizeLimit := 50 }

/-- A disk on which a directory has the name of the second segment. -/
def walledDisk : Disk where
  directories := #[[], [(FileName.of .log 2, .directory ⟨2⟩)], []]

theorem leads_here (d : Disk) : d.Leads ⟨"."⟩ [⟨1⟩] := ⟨rfl, ⟨[⟨1⟩], none⟩, rfl, rfl⟩

theorem linked_walledDisk : walledDisk.Linked :=
  Disk.Linked.empty.of_makeDirectory
    (rfl : Disk.makeDirectory (Host.segmentPath ⟨"."⟩ 2) Disk.empty = .ok () walledDisk)

theorem makeDirectory_walledDisk :
    Host.makeDirectory tightConfig.logDir { disk := walledDisk } =
      .ok () { disk := walledDisk } := rfl

theorem find_walledDisk :
    walledDisk.find ⟨"."⟩ = .ok (⟨[⟨1⟩], none⟩, .directory ⟨1⟩) := rfl

theorem unused_walledDisk : ({ disk := walledDisk } : Host).Unused ⟨"."⟩ := by
  intro h' place ref hmake hfind
  cases makeDirectory_walledDisk.symm.trans hmake
  cases find_walledDisk.symm.trans hfind
  exact ⟨_, rfl, List.forall_mem_singleton.2 ⟨⟨2⟩, rfl⟩⟩

theorem attach_walledDisk :
    ∃ ref s₀ h s, attach tightConfig { disk := walledDisk } = .ok (opened tightConfig ref s₀) h ∧
      (opened tightConfig ref s₀).charged = 0 ∧ segmentOf ref h = .ok s h ∧ s.id = 1 ∧
      s.space = 4088 ∧
      (h.disk.children ⟨1⟩).lookup (FileName.of .log 2) = some (.directory ⟨2⟩) := by
  obtain ⟨hlog, hroom⟩ := unused_walledDisk.logFiles makeDirectory_walledDisk find_walledDisk
  have haccepted : (Path.join ⟨"."⟩ (FileName.of .log 1)).refusal? = none := rfl
  have hfiles : Files tightConfig.logDir [⟨1⟩] [] walledDisk :=
    LogFiles.files hlog (leads_here _) hroom haccepted
  rcases attach_of_files_nil rfl makeDirectory_walledDisk hfiles with
    ⟨ref, s, h, r, hattach, hused, hchildren, hactive⟩ | ⟨⟨inner, hother⟩, -⟩
  · obtain ⟨s₁, href, hid, hmodels⟩ := hactive.segment
    refine ⟨ref, s, h, s₁, hattach, ?_, segmentOf_eq href, hid, hmodels.space_eq, ?_⟩
    · rw [opened, hused]
      rfl
    · rw [show h.disk.children ⟨1⟩ = _ from hchildren]
      rfl
  · cases hother

def cleared (h : Host) : Host := { h with disk := h.disk.without ⟨1⟩ (FileName.of .log 2) }

/-- A record goes past the limit while a directory has the name of the next segment, and the journal
moves on with the first record after it was removed. -/
theorem append_survives_obstacle_directory :
    let t : Transaction := { id := 7, changes := [.delete [97]] }
    ∃ j h a o, attach tightConfig { disk := walledDisk } = .ok j h ∧
      append t ⟨j, h⟩ = .ok a o ∧ a.segmentId = 1 ∧ o.item.charged.toNat = 56 ∧
      ReadsBack [(a, t)] o ∧
      ∃ a' o', append t ⟨o.item, cleared o.base⟩ = .ok a' o' ∧ a'.segmentId = 1 ∧
        activeId o' = .ok 2 o' ∧ ReadsBack [(a, t), (a', t)] o' := by
  intro t
  have hencode : t.encode = .ok t.layout := rfl
  obtain ⟨ref, s₀, h, s₁, hattach, hcharged, hsegment, hid, hspace, hblocked⟩ := attach_walledDisk
  have hreached : Reached ⟨"."⟩ [] ⟨opened tightConfig ref s₀, h⟩ :=
    .opened rfl unused_walledDisk hattach
  obtain ⟨s₁', hsegment', -, hwithstands, -⟩ := append_survives_obstacle hreached hencode
  cases hsegment.symm.trans hsegment'
  rw [hid] at hwithstands
  obtain ⟨a, o, s₂, happend, hplace, hitem, hsegment₂, hid₂, hspace₂, hcharged₂, hreads⟩ :=
    (hwithstands _ h (Host.openSegment_of_directory (leads_here _) rfl hblocked)).fits
      (hspace.symm ▸ by decide)
  refine ⟨_, h, a, o, hattach, happend, hplace.trans hid, ?_, hreads, ?_⟩
  · rw [hcharged₂, hcharged]
    rfl
  have hactiveId : activeId o = .ok 1 o := by
    rw [activeId_of_segmentOf hsegment₂, hid₂, hid]
  have hreached₂ := hreached.appended (activeId_of_segmentOf hsegment) (hid ▸ by decide) happend
  have hworks := keeps_append t |>.of_ok (works_of_attach linked_walledDisk hattach) happend
  have hroom₂ : 1 < o.base.disk.directories.size := hworks.linked.roots
  have helse : Elsewhere o.item 1 o.base (cleared o.base) :=
    hreached₂.retains.elsewhere_without hactiveId hworks.linked (leads_here _) (by decide)
      (leads_here _)
  have hreached₃ := hreached₂.disturbed hactiveId helse
  obtain ⟨s₃, hsegment₃, -, -, hopens⟩ := append_survives_obstacle hreached₃ hencode
  obtain ⟨r₂, href₂⟩ := exists_of_segmentOf hsegment₂
  cases (segmentOf_eq (h := cleared o.base) href₂).symm.trans hsegment₃
  rw [hid₂, hid] at hopens
  have hlimit : o.item.sizeLimit = 50 := congrArg Journal.sizeLimit hitem
  have hcapacity : o.item.segmentCapacity = 4096 := congrArg Journal.segmentCapacity hitem
  have hfree : ((cleared o.base).disk.children (Disk.lastOf [⟨1⟩])).lookup (FileName.of .log 2) =
      none := Disk.lookup_without_self hroom₂
  have hvalid : CapacityOk o.item.segmentCapacity := hcapacity ▸ by decide
  obtain ⟨s', d, b, hopen, -⟩ :=
    Host.openSegment_of_free (leads_here _) rfl helse.linked.roots hfree hvalid
  obtain ⟨next, -, -, -, hmoves⟩ := hopens _ _ hopen (by decide)
  obtain ⟨a', o', happend', hplace', hactive', -, hreads'⟩ := hmoves.past
    (by rw [hspace₂, hspace]; decide) (by rw [hlimit, hcharged₂, hcharged]; decide)
  refine ⟨a', o', happend', hplace'.trans (hid₂.trans hid), ?_, hreads'⟩
  rw [hactive', hid₂, hid]
  rfl

end Journal

end AppendStore
