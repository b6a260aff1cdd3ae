import AppendStore.Proofs.Journal.Reading

/-!
# How an append ends

An append that has put its record into the active file may be followed by a rotation, and
whether that succeeds is nothing to the append: the journal is `Journal.Settled` then,
where it was or in the next file. `Held.append_of_fits`, `Held.append_of_refused` and
`Held.append_of_offer` are the three ways for an append to end. Which one it is depends on
the room in the active file, and on what stands by the name of the next one.

`Journal.Retains` forgets the files and keeps the records. Whatever an append comes to,
an acknowledged one has added its record and any other one has lost none
(`Retains.append`). In both cases every record is read through the file of its segment
(`Held.readsBack`).
-/

namespace AppendStore

namespace Journal

open Segment

variable {dir : Path} {trail : List DirectoryRef} {f : LogFile} {older : List LogFile}
  {o o' : Over Journal Host} {j : Journal} {h h' : Host} {t : Transaction} {c : UInt32}
  {e : StoreError} {records : List (Appended × Transaction)} {id : UInt64}

theorem place_of_advanced {o₁ o₂ : Over Journal Host}
    (happend : onActive (Segment.append t) o = .error e o₁) (he : e.isInsufficientSpace = true)
    (hadvance : advance o₁ = .ok () o₂) :
    Journal.place t o = onActive (Segment.append t) o₂ := by
  rw [place_of_full happend he, Action.bind_of_ok hadvance]

/-- The journal after an append that has put its record into `f`: it stays there, unless that is
past the limit and there is nothing in the way of the next file. -/
inductive Settled (dir : Path) (trail : List DirectoryRef) (f : LogFile) (older : List LogFile)
    (j : Journal) (offer : Except StoreError UInt32) (o : Over Journal Host) : Prop where
  | stays (held : Held dir trail f older o)
      (item : o.item = { j with charged := o.item.charged, pending := o.item.pending })
      (charged : o.item.charged.toNat = f.ledger.used)
      (reason : j.sizeLimit.toNat < f.ledger.used → ∃ e, offer = .error e)
  | moved {r : StoreRef} {c : UInt32} (past : j.sizeLimit.toNat < f.ledger.used)
      (offered : offer = .ok c) (held : Held dir trail ⟨r, ⟨c, []⟩⟩ (f :: older) o)
      (charged : o.item.charged = 0)

namespace Held

/-- An append that reaches the newest file and is accepted there is acknowledged, whatever becomes
of the rotation after it. -/
theorem append_of_reached {o₁ : Over Journal Host} (h : Held dir trail f older o₁)
    (hcharged : o₁.item.charged.toNat = f.ledger.used) (ha : f.ledger.Accepts t)
    (hcount : (f :: older).length < UInt64.size)
    (hplace : ∀ {header o₂}, onActive (Segment.append t) o₁ = .ok header o₂ →
      Journal.place t o = .ok header o₂) :
    ∃ o', Journal.append t o = .ok ⟨idAt older.length, Ledger.header f.ledger.back t⟩ o' ∧
      Settled dir trail { f with ledger := f.ledger.push t } older o₁.item
        (nextOffer trail older o₁) o' := by
  obtain ⟨base, b, happend, hdisk, hnext⟩ := h.append_of_accepts ha
  have hcounted := hnext.withItem (j := counted o₁.item (Ledger.header f.ledger.back t)) rfl rfl rfl
  obtain ⟨pending, base₂, hpolicy, hdisk₂, hsynced⟩ := hcounted.applyPolicy
  have htail := Journal.append_of_placed (hplace happend) hnext.activeId_eq hpolicy
  have htotal := charged_counted hcharged ha
  have hpast : o₁.item.sizeLimit < (counted o₁.item (Ledger.header f.ledger.back t)).charged ↔
      o₁.item.sizeLimit.toNat < (f.ledger.push t).used := by
    rw [UInt64.lt_iff_toNat_lt, htotal]
  have hoffer : offer base₂.disk (Disk.lastOf trail) (idAt (older.length + 1))
      o₁.item.segmentCapacity = nextOffer trail older o₁ := by
    have hne : idAt older.length ≠ idAt (older.length + 1) := idAt_ne hcount (Nat.lt_succ_self _)
    rw [hdisk₂, hdisk, h.own.offer_setStore hne, nextOffer]
  split at htail
  · next hlt =>
    cases hresult : nextOffer trail older o₁ with
    | ok c =>
      obtain ⟨r, active, base₃, hadvance, -, hlast⟩ :=
        hsynced.advance_of_offer hcount (hoffer.trans hresult)
      refine ⟨_, htail.trans (Action.bind_of_ok (Action.attempt_of_ok hadvance)),
        .moved (hpast.1 hlt) rfl hlast rfl⟩
    | error e =>
      obtain ⟨base₃, hadvance, -, hlast⟩ :=
        hsynced.advance_of_refused hcount (hoffer.trans hresult)
      exact ⟨_, htail.trans (Action.bind_of_ok (Action.attempt_of_error hadvance)),
        .stays hlast rfl htotal fun _ => ⟨e, rfl⟩⟩
  · next hge =>
    exact ⟨_, htail, .stays hsynced rfl htotal fun hlt => absurd (hpast.2 hlt) hge⟩

/-- If the record fits into the newest file it goes there. -/
theorem append_of_fits (h : Held dir trail f older o)
    (hcharged : o.item.charged.toNat = f.ledger.used) (ha : f.ledger.Accepts t)
    (hcount : (f :: older).length < UInt64.size) :
    ∃ o', Journal.append t o = .ok ⟨idAt older.length, Ledger.header f.ledger.back t⟩ o' ∧
      Settled dir trail { f with ledger := f.ledger.push t } older o.item
        (nextOffer trail older o) o' :=
  h.append_of_reached hcharged ha hcount place_of_ok

/-- If the record does not fit and something is in the way of the next file, the append fails with
what is in the way. -/
theorem append_of_refused (h : Held dir trail f older o) (hw : t.Writable)
    (hfull : ¬ recordHeaderSize + t.encodedLength ≤ f.ledger.room)
    (hcount : (f :: older).length < UInt64.size) (hoffer : nextOffer trail older o = .error e) :
    ∃ base, Journal.append t o = .error e ⟨{ o.item with pending := 0 }, base⟩ ∧
      base.disk = o.base.disk ∧ Held dir trail f older ⟨{ o.item with pending := 0 }, base⟩ := by
  obtain ⟨base, hadvance, hdisk, hnext⟩ := h.advance_of_refused hcount hoffer
  refine ⟨base, append_of_unplaced ?_, hdisk, hnext⟩
  rw [place_of_full (h.append_of_full hw hfull) rfl, Action.bind_of_error hadvance]

/-- If the record does not fit and nothing is in the way of the next file, the journal moves on, and
the record goes to that file or fits nowhere. -/
theorem append_of_offer (h : Held dir trail f older o) (hw : t.Writable)
    (hfull : ¬ recordHeaderSize + t.encodedLength ≤ f.ledger.room)
    (hcount : (f :: older).length + 1 < UInt64.size) (hoffer : nextOffer trail older o = .ok c) :
    ∃ r, (recordHeaderSize + t.encodedLength ≤ (⟨c, []⟩ : Ledger).room →
        ∃ j offer o', Journal.append t o =
          .ok ⟨idAt (f :: older).length, Ledger.header (⟨c, []⟩ : Ledger).back t⟩ o' ∧
          Settled dir trail ⟨r, (⟨c, []⟩ : Ledger).push t⟩ (f :: older) j offer o') ∧
      (¬ recordHeaderSize + t.encodedLength ≤ (⟨c, []⟩ : Ledger).room →
        ∃ o', Journal.append t o = .error (.insufficientSpace (recordHeaderSize + t.encodedLength)
            (⟨c, []⟩ : Ledger).room) o' ∧
          Held dir trail ⟨r, ⟨c, []⟩⟩ (f :: older) o' ∧ o'.item.charged = 0) := by
  obtain ⟨r, active, base, hadvance, -, hnext⟩ :=
    h.advance_of_offer (Nat.lt_of_succ_lt hcount) hoffer
  have hretry := place_of_advanced (h.append_of_full hw hfull) rfl hadvance
  refine ⟨r, fun hfits => ?_, fun hfull' => ?_⟩
  · obtain ⟨o', happend, hsettled⟩ := hnext.append_of_reached (o := o) rfl ⟨hw, hfits⟩ hcount
      fun happend => hretry.trans happend
    exact ⟨_, _, o', happend, hsettled⟩
  · exact ⟨_, append_of_unplaced (hretry.trans (hnext.append_of_full hw hfull')), hnext, rfl⟩

end Held

/-- Every record is read, through the file of its segment. -/
def ReadsBack (records : List (Appended × Transaction)) (o : Over Journal Host) : Prop :=
  ∀ r ∈ records, ∃ h', o.item.transactionAt r.1 o.base = .ok r.2 h' ∧ h'.disk = o.base.disk

theorem Held.readsBack (hheld : Held dir trail f older o) : ReadsBack (recordsIn (f :: older)) o :=
  fun _ hr => hheld.transactionAt hr

theorem Settled.readsBack {offer : Except StoreError UInt32}
    (h : Settled dir trail f older j offer o) : ReadsBack (recordsIn (f :: older)) o := by
  cases h with
  | stays held => exact held.readsBack
  | @moved r c past offered held =>
    have hsame : recordsIn (⟨r, ⟨c, []⟩⟩ :: f :: older) = _ := recordsIn_cons_of_empty rfl _
    exact hsame ▸ held.readsBack

/-- The journal has the given records, counts the bytes of those in its newest file, and there is an
id left. -/
def Retains (dir : Path) (records : List (Appended × Transaction)) (o : Over Journal Host) : Prop :=
  ∃ trail f older, Held dir trail f older o ∧ recordsIn (f :: older) = records ∧
    o.item.charged.toNat = f.ledger.used ∧ (f :: older).length < UInt64.size

theorem Settled.retains {j : Journal} {offer : Except StoreError UInt32}
    (h : Settled dir trail f older j offer o) (hcount : (f :: older).length + 1 < UInt64.size) :
    Retains dir (recordsIn (f :: older)) o := by
  cases h with
  | stays held item charged reason =>
    exact ⟨trail, f, older, held, rfl, charged, Nat.lt_of_succ_lt hcount⟩
  | moved past offered held charged =>
    exact ⟨trail, _, f :: older, held, recordsIn_cons_of_empty rfl _, congrArg UInt64.toNat charged,
      hcount⟩

namespace Retains

/-- An acknowledged append adds its record behind all others, and a failed one leaves the records
as they are. -/
theorem append (h : Retains dir records o) (hid : activeId o = .ok id o)
    (hlast : id.toNat + 2 < UInt64.size) (t : Transaction) :
    (∃ a o', Journal.append t o = .ok a o' ∧ Retains dir (records ++ [(a, t)]) o') ∨
    ∃ e o', Journal.append t o = .error e o' ∧ Retains dir records o' := by
  obtain ⟨trail, f, older, hheld, rfl, hcharged, hcount⟩ := h
  cases hid.symm.trans hheld.activeId_eq
  rw [toNat_idAt hcount] at hlast
  cases hencode : t.encode with
  | error e =>
    obtain ⟨fault, rfl⟩ := Transaction.invalid_of_encode_error hencode
    exact .inr ⟨_, o, append_of_unplaced (place_of_error (hheld.append_of_invalid hencode) rfl),
      trail, f, older, hheld, rfl, hcharged, hcount⟩
  | ok body =>
    obtain ⟨hw, -⟩ := Transaction.encode_eq_ok_iff.1 hencode
    by_cases hroom : recordHeaderSize + t.encodedLength ≤ f.ledger.room
    · obtain ⟨o', happend, hsettled⟩ := hheld.append_of_fits hcharged ⟨hw, hroom⟩ hcount
      refine .inl ⟨_, o', happend, ?_⟩
      rw [← recordsIn_push]
      exact hsettled.retains (Nat.lt_of_succ_lt hlast)
    · cases hoffer : nextOffer trail older o with
      | error e =>
        obtain ⟨base, happend, -, hnext⟩ := hheld.append_of_refused hw hroom hcount hoffer
        exact .inr ⟨e, _, happend, trail, f, older, hnext, rfl, hcharged, hcount⟩
      | ok c =>
        obtain ⟨r, hfits, hfull⟩ := hheld.append_of_offer hw hroom (Nat.lt_of_succ_lt hlast) hoffer
        have hsame : recordsIn (⟨r, ⟨c, []⟩⟩ :: f :: older) = recordsIn (f :: older) :=
          recordsIn_cons_of_empty rfl _
        by_cases hroom' : recordHeaderSize + t.encodedLength ≤ (⟨c, []⟩ : Ledger).room
        · obtain ⟨j, offer, o', happend, hsettled⟩ := hfits hroom'
          refine .inl ⟨_, o', happend, ?_⟩
          have hpush := recordsIn_push ⟨r, ⟨c, []⟩⟩ (f :: older) t
          rw [hsame] at hpush
          rw [← hpush]
          exact hsettled.retains hlast
        · obtain ⟨o', happend, hnext, hzero⟩ := hfull hroom'
          exact .inr ⟨_, o', happend, trail, _, f :: older, hnext, hsame,
            congrArg UInt64.toNat hzero, Nat.lt_of_succ_lt hlast⟩

theorem sync (hretains : Retains dir records o) :
    ∃ o', Journal.sync o = .ok () o' ∧ Retains dir records o' := by
  obtain ⟨trail, f, older, hheld, hrecords, hcharged, hcount⟩ := hretains
  obtain ⟨base, hsync, -, hnext⟩ := hheld.sync
  refine ⟨⟨{ o.item with pending := 0 }, base⟩, ?_, trail, f, older, hnext.withPending 0, hrecords,
    hcharged, hcount⟩
  unfold Journal.sync
  rw [Action.bind_of_ok hsync]
  rfl

theorem segmentAt {newest : UInt64} {ref : SegmentRef} (hretains : Retains dir records ⟨j, h⟩)
    (hactive : activeId ⟨j, h⟩ = .ok newest ⟨j, h⟩) (hpos : 0 < id.toNat) (hle : id ≤ newest)
    (hopen : j.segmentAt id h = .ok ref h') : Retains dir records ⟨j, h'⟩ := by
  obtain ⟨trail, f, older, hheld, hrecords, hcharged, hcount⟩ := hretains
  cases hactive.symm.trans hheld.activeId_eq
  rw [UInt64.le_iff_toNat_le, toNat_idAt hcount] at hle
  have hlt : id.toNat - 1 < (f :: older).length :=
    Nat.lt_of_lt_of_le (Nat.sub_lt hpos Nat.one_pos) hle
  obtain ⟨g, rest, hmem, hlength⟩ := exists_suffix hlt
  obtain ⟨s, h₁, hopen', hnext, -⟩ := hheld.segmentAt hmem
  rw [hlength, ← eq_idAt hpos] at hopen'
  cases hopen'.symm.trans hopen
  exact ⟨trail, f, older, hnext, hrecords, hcharged, hcount⟩

/-- A journal that is opened where the newest log file is that of the active segment, or the one
after it, takes that one up. -/
theorem attach {config : Config} {j' : Journal} {ids : List UInt64} {newest : UInt64}
    (hretains : Retains dir records o) (hdisk : h.disk = o.base.disk) (hdir : config.logDir = dir)
    (hid : activeId o = .ok id o) (hids : Host.idsIn .log dir h = .ok ids h)
    (hnewest : ids.getLast? = some newest)
    (hnear : newest = id ∨ newest = id + 1 ∧ id.toNat + 2 < UInt64.size)
    (hattach : Journal.attach config h = .ok j' h') : Retains dir records ⟨j', h'⟩ := by
  obtain ⟨trail, f, older, hheld, hrecords, -, hcount⟩ := hretains
  cases hid.symm.trans hheld.activeId_eq
  subst hdir
  have hown := hheld.own
  rw [← hdisk] at hown
  obtain ⟨hcheck, -⟩ := cases_of_attach hattach
  have hmake : Host.makeDirectory config.logDir h = .ok () h :=
    Host.onDisk_ofIo_of_ok hown.leads.makeDirectory_eq
  have hlast : ids.getLastD firstSegmentId = newest := by
    rw [List.getLastD_eq_getLast?, hnewest]
    rfl
  rcases hnear with rfl | ⟨rfl, hleft⟩
  · obtain ⟨s, hmodels⟩ := (hown.stored f List.mem_cons_self).models
    obtain ⟨ref, s, h'', hopened, hused, -, hnext⟩ := hown.attach_known hcheck hmake hids hlast
    cases hopened.symm.trans hattach
    exact ⟨trail, f, older, hnext, hrecords, charged_opened hmodels.used_lt hused, hcount⟩
  · rw [toNat_idAt hcount] at hleft
    rw [← idAt_succ] at hlast
    cases hoffer : offer h.disk (Disk.lastOf trail) (idAt (f :: older).length)
        config.segmentCapacity with
    | error e =>
      cases (hown.attach_refused hcount hcheck hmake hids hlast hoffer).symm.trans hattach
    | ok c =>
      obtain ⟨ref, s, h'', r, hopened, hused, -, hnext⟩ :=
        hown.attach_next hcount hcheck hmake hids hlast hoffer
      cases hopened.symm.trans hattach
      exact ⟨trail, _, f :: older, hnext, (recordsIn_cons_of_empty rfl _).trans hrecords,
        charged_opened (l := ⟨c, []⟩) (show 0 < UInt32.size by decide) hused,
        Nat.lt_of_succ_lt hleft⟩

theorem of_attach {config : Config} (hunused : h.Unused config.logDir)
    (hattach : Journal.attach config h = .ok j h') : Retains config.logDir [] ⟨j, h'⟩ := by
  obtain ⟨hcheck, h₁, hmake, ⟨place, ref, hfind⟩, id, haccepted⟩ := cases_of_attach hattach
  obtain ⟨hfiles, hroom⟩ := hunused.logFiles hmake hfind
  obtain ⟨trail, hleads, rfl⟩ := Disk.leads_of_find hfind
  rcases attach_of_files_nil hcheck hmake (hfiles.files hleads hroom haccepted) with
    ⟨ref, s, h'', r, hopened, hused, -, hactive⟩ | ⟨-, e, hfailed⟩
  · cases hopened.symm.trans hattach
    exact ⟨trail, _, [], hactive.held, rfl,
      charged_opened (l := ⟨config.segmentCapacity, []⟩) (show 0 < UInt32.size by decide) hused,
      (by decide : 1 < UInt64.size)⟩
  · cases hfailed.symm.trans hattach

end Retains

end Journal

end AppendStore
