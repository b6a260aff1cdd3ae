import AppendStore.Proofs.Journal.Files

/-!
# A journal at work on its newest file

`Journal.Held` says that a journal appends to the newest of its files, and that this
file and all others hold the records of their ledgers. There may be other log files in
the directory, but none with records.

Every operation of the journal leads from such a state to such a state: an append that
fits adds its record (`Held.append_of_accepts`), one that does not changes nothing
(`Held.append_of_full`), and a sync changes no record (`Held.sync`). Moving on adds a file
without records (`Held.advance_of_offer`), or something is in the way of that file and the
journal stays where it is (`Held.advance_of_refused`). The names in the directory stay
what they are but for that file. Each record is read through the file of its segment
(`Held.segmentAt`).
-/

namespace AppendStore

namespace Journal

open Segment

section Opened

variable {h : Host} {ref : SegmentRef} {r : StoreRef} {s : Segment} {o : Over Journal Host}
  {p : Over Segment ByteStore} {α : Type} {x : Action (Over Segment ByteStore) α} {a : α}

theorem segmentOf_eq (href : h.segment? ref = some ⟨s, r⟩) : segmentOf ref h = .ok s h := by
  have hitem := Host.onSegment_of_ok (x := Action.item) (a := s) href rfl
  rwa [Host.withSegment_self href] at hitem

theorem exists_of_segmentOf {h' : Host} (hsegment : segmentOf ref h = .ok s h') :
    ∃ r, h.segment? ref = some ⟨s, r⟩ := by
  unfold segmentOf Host.onSegment at hsegment
  cases hopened : h.segment? ref with
  | none =>
    rw [hopened] at hsegment
    cases hsegment
  | some opened =>
    rw [hopened] at hsegment
    cases hsegment
    exact ⟨opened.store, rfl⟩

theorem activeId_of_segmentOf
    (hsegment : segmentOf o.item.active o.base = .ok s o.base) : activeId o = .ok s.id o := by
  have hitem : onActive Action.item o = .ok s o := Action.onBase_of_ok hsegment
  unfold activeId
  rw [Action.bind_of_ok hitem]
  rfl

theorem initialCharge_eq (href : h.segment? ref = some ⟨s, r⟩) :
    initialCharge ref h = .ok (UInt64.ofNat s.used) h := by
  unfold initialCharge
  rw [Action.bind_of_ok (segmentOf_eq href)]
  rfl

theorem attach_eq_ok {config : Config} {j : Journal} {h' : Host}
    (hattach : attach config h = .ok j h') :
    config.check = .ok () ∧ ∃ h₁ ids h₂ h₃ charged,
      Host.makeDirectory config.logDir h = .ok () h₁ ∧
      Host.idsIn .log config.logDir h₁ = .ok ids h₂ ∧
      Host.openSegment config.logDir (ids.getLastD firstSegmentId) config.segmentCapacity h₂ =
        .ok j.active h₃ ∧
      initialCharge j.active h₃ = .ok charged h' := by
  unfold attach at hattach
  obtain ⟨_, h₀, hcheck, hattach⟩ := Action.bind_eq_ok hattach
  obtain ⟨_, h₁, hmake, hattach⟩ := Action.bind_eq_ok hattach
  obtain ⟨ids, h₂, hids, hattach⟩ := Action.bind_eq_ok hattach
  obtain ⟨ref, h₃, hopen, hattach⟩ := Action.bind_eq_ok hattach
  obtain ⟨charged, h₄, hcharge, hattach⟩ := Action.bind_eq_ok hattach
  cases hattach
  obtain ⟨haccept, rfl⟩ := Action.ofExcept_eq_ok hcheck
  exact ⟨haccept, h₁, ids, h₂, h₃, charged, hmake, hids, hopen, hcharge⟩

theorem onActive_of_ok (href : o.base.segment? o.item.active = some ⟨s, r⟩)
    (hx : x ⟨s, o.base.disk.store r⟩ = .ok a p) :
    onActive x o = .ok a ⟨o.item, o.base.withSegment o.item.active r p⟩ := by
  unfold onActive
  rw [Action.item_bind]
  exact Action.onBase_of_ok (Host.onSegment_of_ok href hx)

theorem onActive_of_error {e : StoreError} (href : o.base.segment? o.item.active = some ⟨s, r⟩)
    (hx : x ⟨s, o.base.disk.store r⟩ = .error e p) :
    onActive x o = .error e ⟨o.item, o.base.withSegment o.item.active r p⟩ := by
  unfold onActive
  rw [Action.item_bind]
  exact Action.onBase_of_error (Host.onSegment_of_error href hx)

/-- An action that fails without an effect has none on the journal. -/
theorem onActive_of_refused {e : StoreError}
    (href : o.base.segment? o.item.active = some ⟨s, r⟩)
    (hx : x ⟨s, o.base.disk.store r⟩ = .error e ⟨s, o.base.disk.store r⟩) :
    onActive x o = .error e o := by
  have hsame := onActive_of_error href hx
  rwa [Host.withSegment_self href] at hsame

end Opened

theorem recordsIn_push (f : LogFile) (older : List LogFile) (t : Transaction) :
    recordsIn ({ f with ledger := f.ledger.push t } :: older) =
      recordsIn (f :: older) ++ [(⟨idAt older.length, Ledger.header f.ledger.back t⟩, t)] := by
  rw [recordsIn, Ledger.entries_push, List.map_append, ← List.append_assoc]
  rfl

theorem recordsIn_cons_of_empty {f : LogFile} (hempty : f.ledger.records = [])
    (older : List LogFile) : recordsIn (f :: older) = recordsIn older := by
  rw [recordsIn, Ledger.entries, hempty]
  exact List.append_nil _

/-- The journal writes to `f`, the newest of its files, in a directory that may hold other log files
without records. -/
structure Held (dir : Path) (trail : List DirectoryRef) (f : LogFile) (older : List LogFile)
    (o : Over Journal Host) : Prop where
  own : OwnFiles dir trail (f :: older) o.base.disk
  dir_eq : o.item.dir = dir
  valid : CapacityOk o.item.segmentCapacity
  segment : ∃ s, o.base.segment? o.item.active = some ⟨s, f.store⟩ ∧ s.id = idAt older.length ∧
    f.ledger.Models s (o.base.disk.store f.store)

/-- What opening the segment after the active one comes to. -/
def nextOffer (trail : List DirectoryRef) (older : List LogFile) (o : Over Journal Host) :
    Except StoreError UInt32 :=
  offer o.base.disk (Disk.lastOf trail) (idAt (older.length + 1)) o.item.segmentCapacity

namespace Held

variable {dir : Path} {trail : List DirectoryRef} {f : LogFile} {older : List LogFile}
  {o : Over Journal Host} {t : Transaction} {c : UInt32} {e : StoreError}

theorem withItem (h : Held dir trail f older o) {j : Journal} (hdir : j.dir = o.item.dir)
    (hcapacity : j.segmentCapacity = o.item.segmentCapacity) (hactive : j.active = o.item.active) :
    Held dir trail f older ⟨j, o.base⟩ where
  own := h.own
  dir_eq := hdir.trans h.dir_eq
  valid := hcapacity.symm ▸ h.valid
  segment := hactive.symm ▸ h.segment

theorem withPending (h : Held dir trail f older o) (pending : Nat) :
    Held dir trail f older ⟨{ o.item with pending }, o.base⟩ :=
  h.withItem rfl rfl rfl

theorem written (h : Held dir trail f older o) {s s' : Segment} {l : Ledger} {b : ByteStore}
    (href : o.base.segment? o.item.active = some ⟨s, f.store⟩) (hid : s'.id = idAt older.length)
    (hmodels : l.Models s' b) (hsize : b.contents.size = l.capacity.toNat) :
    Held dir trail { f with ledger := l } older
      ⟨o.item, o.base.withSegment o.item.active f.store ⟨s', b⟩⟩ where
  own := h.own.update ⟨hsize, s', hmodels⟩
  dir_eq := h.dir_eq
  valid := h.valid
  segment := by
    refine ⟨s', Host.segment?_withSegment href, hid, ?_⟩
    have hstore : (o.base.disk.setStore f.store b).store f.store = b :=
      Disk.store_setStore (h.own.bound_of_mem List.mem_cons_self)
    exact hstore.symm ▸ hmodels

theorem append_of_accepts (h : Held dir trail f older o) (ha : f.ledger.Accepts t) :
    ∃ base b, onActive (Segment.append t) o = .ok (Ledger.header f.ledger.back t) ⟨o.item, base⟩ ∧
      base.disk = o.base.disk.setStore f.store b ∧
      Held dir trail { f with ledger := f.ledger.push t } older ⟨o.item, base⟩ := by
  obtain ⟨s, href, hid, hmodels⟩ := h.segment
  obtain ⟨s', b, happend, hsame, hnext⟩ := hmodels.append_of_accepts ha
  refine ⟨_, b, onActive_of_ok href happend, rfl, h.written href (hsame.trans hid) hnext ?_⟩
  rcases hnext.size with hsize | ⟨hempty, -⟩
  · exact hsize
  · exact absurd hempty (List.append_ne_nil_of_right_ne_nil _ (List.cons_ne_nil _ _))

theorem append_of_invalid (h : Held dir trail f older o)
    (hencode : t.encode = .error e) : onActive (Segment.append t) o = .error e o := by
  obtain ⟨s, href, -, -⟩ := h.segment
  exact onActive_of_refused href (Segment.append_of_invalid hencode)

/-- Where there is no room the append says how much there is, and changes nothing. -/
theorem append_of_full (h : Held dir trail f older o) (hw : t.Writable)
    (hfull : ¬ recordHeaderSize + t.encodedLength ≤ f.ledger.room) :
    onActive (Segment.append t) o =
      .error (.insufficientSpace (recordHeaderSize + t.encodedLength) f.ledger.room) o := by
  obtain ⟨s, href, -, hmodels⟩ := h.segment
  obtain ⟨e, happend, hspace, -⟩ := hmodels.append_of_not_accepts fun ha => hfull ha.2
  exact onActive_of_refused href (hspace hw ▸ happend)

/-- A sync only notes how far the segment has got. -/
theorem sync (h : Held dir trail f older o) :
    ∃ base, onActive Segment.sync o = .ok () ⟨o.item, base⟩ ∧ base.disk = o.base.disk ∧
      Held dir trail f older ⟨o.item, base⟩ := by
  obtain ⟨s, href, hid, hmodels⟩ := h.segment
  obtain ⟨hsync, hnext⟩ := hmodels.sync
  exact ⟨_, onActive_of_ok href hsync, Disk.setStore_store _ _,
    h.written href hid hnext (h.own.stored f List.mem_cons_self).size⟩

theorem activeId_eq (h : Held dir trail f older o) :
    activeId o = .ok (idAt older.length) o := by
  obtain ⟨s, href, hid, -⟩ := h.segment
  exact hid ▸ activeId_of_segmentOf (segmentOf_eq href)

theorem advance_eq (h : Held dir trail f older o) :
    ∃ base, base.disk = o.base.disk ∧
      Held dir trail f older ⟨{ o.item with pending := 0 }, base⟩ ∧
      Journal.advance o = (do
        let next ← Action.onBase (Host.openSegment dir (idAt (older.length + 1))
          o.item.segmentCapacity)
        let charged ← Action.onBase (initialCharge next)
        Action.setItem { o.item with pending := 0, active := next, charged }
        : Action (Over Journal Host) Unit) ⟨{ o.item with pending := 0 }, base⟩ := by
  obtain ⟨base, hsync, hdisk, hsynced⟩ := h.sync
  have hreset := hsynced.withPending 0
  refine ⟨base, hdisk, hreset, ?_⟩
  unfold Journal.advance
  rw [Action.bind_of_ok hsync, Action.item_bind, Action.setItem_bind,
    Action.bind_of_ok hreset.activeId_eq, idAt_succ, ← h.dir_eq]

/-- The journal moves on to a file without records. -/
theorem advance_of_offer (h : Held dir trail f older o)
    (hcount : (f :: older).length < UInt64.size) (hoffer : nextOffer trail older o = .ok c) :
    ∃ r active base, Journal.advance o =
        .ok () ⟨{ o.item with pending := 0, active, charged := 0 }, base⟩ ∧
      base.disk.children (Disk.lastOf trail) = withFile (o.base.disk.children (Disk.lastOf trail))
        (FileName.of .log (idAt (f :: older).length)) r ∧
      Held dir trail ⟨r, ⟨c, []⟩⟩ (f :: older)
        ⟨{ o.item with pending := 0, active, charged := 0 }, base⟩ := by
  obtain ⟨base, hdisk, hreset, hadvance⟩ := h.advance_eq
  rw [nextOffer, ← hdisk] at hoffer
  obtain ⟨r, s, base', hopen, hown, hchildren, href, hid, hmodels⟩ :=
    hreset.own.openSegment_of_offer hcount h.valid hoffer
  rw [hdisk] at hchildren
  refine ⟨r, _, base', ?_, hchildren, hown, h.dir_eq, h.valid, s, href, hid, hmodels⟩
  have hcharge := initialCharge_eq href
  rw [hmodels.used_eq] at hcharge
  exact hadvance.trans ((Action.bind_of_ok (Action.onBase_of_ok hopen)).trans
    (Action.bind_of_ok (Action.onBase_of_ok hcharge)))

/-- If something is in the way of the next file, the journal stays where it is. -/
theorem advance_of_refused (h : Held dir trail f older o)
    (hcount : (f :: older).length < UInt64.size) (hoffer : nextOffer trail older o = .error e) :
    ∃ base, Journal.advance o = .error e ⟨{ o.item with pending := 0 }, base⟩ ∧
      base.disk = o.base.disk ∧ Held dir trail f older ⟨{ o.item with pending := 0 }, base⟩ := by
  obtain ⟨base, hdisk, hreset, hadvance⟩ := h.advance_eq
  rw [nextOffer, ← hdisk] at hoffer
  have hopen := hreset.own.openSegment_of_refused hcount hoffer
  refine ⟨base, ?_, hdisk, hreset⟩
  rw [hadvance]
  exact Action.bind_of_error (Action.onBase_of_error hopen)

/-- Whatever the policy asks for changes nothing but the count of appends since the last sync. -/
theorem applyPolicy (h : Held dir trail f older o) :
    ∃ pending base, Journal.applyPolicy o = .ok () ⟨{ o.item with pending }, base⟩ ∧
      base.disk = o.base.disk ∧ Held dir trail f older ⟨{ o.item with pending }, base⟩ := by
  obtain ⟨⟨_, _, _, policy, _, _, pending⟩, base⟩ := o
  unfold Journal.applyPolicy
  rw [Action.item_bind]
  cases policy with
  | everyWrite =>
    obtain ⟨base', hsync, hdisk, hnext⟩ := h.sync
    exact ⟨pending, base', hsync, hdisk, hnext⟩
  | everyEntries count =>
    by_cases hdue : count ≤ pending + 1
    · obtain ⟨base', hsync, hdisk, hnext⟩ := (h.withPending 0).sync
      refine ⟨0, base', ?_, hdisk, hnext⟩
      simp only [if_pos hdue]
      exact hsync
    · refine ⟨pending + 1, base, ?_, rfl, h.withPending _⟩
      simp only [if_neg hdue]
      rfl
  | manual => exact ⟨pending, base, rfl, rfl, h⟩

variable {g : LogFile} {rest : List LogFile} {j : Journal} {h : Host}

theorem withOpened (hheld : Held dir trail f older ⟨j, h⟩) (s : Segment) (r : StoreRef) :
    Held dir trail f older ⟨j, h.withOpened s r⟩ where
  own := hheld.own
  dir_eq := hheld.dir_eq
  valid := hheld.valid
  segment := by
    obtain ⟨t, href, hid, hmodels⟩ := hheld.segment
    exact ⟨t, Host.segment?_withOpened_of_some href s r, hid, hmodels⟩

/-- Any file of the journal is opened for reading. -/
theorem segmentAt (hheld : Held dir trail f older ⟨j, h⟩) (hmem : g :: rest <:+ f :: older) :
    ∃ s h', j.segmentAt (idAt rest.length) h = .ok ⟨h.segments.size⟩ h' ∧
      Held dir trail f older ⟨j, h'⟩ ∧ h'.disk = h.disk ∧
      h'.segment? ⟨h.segments.size⟩ = some ⟨s, g.store⟩ ∧
      g.ledger.Models s (h'.disk.store g.store) := by
  obtain ⟨s, hopen, -, hmodels⟩ := hheld.own.openSegment_of_known hmem j.segmentCapacity
  have hfile := hheld.own.isFile_of_known hmem
  rw [← hheld.dir_eq] at hopen hfile
  exact ⟨s, _, (segmentAt_of_isFile hfile).trans hopen, hheld.withOpened s g.store, rfl,
    Host.segment?_withOpened h s g.store, hmodels⟩

end Held

section Steps

variable {o o' : Over Journal Host} {t : Transaction} {e : StoreError} {header : RecordHeader}

theorem place_of_ok (happend : onActive (Segment.append t) o = .ok header o') :
    Journal.place t o = .ok header o' := by
  unfold Journal.place
  rw [Action.bind_of_ok (Action.attempt_of_ok happend)]
  rfl

theorem place_of_error (happend : onActive (Segment.append t) o = .error e o')
    (he : e.isInsufficientSpace = false) : Journal.place t o = .error e o' := by
  unfold Journal.place
  rw [Action.bind_of_ok (Action.attempt_of_error happend)]
  simp only [he]
  rfl

theorem place_of_full (happend : onActive (Segment.append t) o = .error e o')
    (he : e.isInsufficientSpace = true) :
    Journal.place t o = (advance >>= fun _ => onActive (Segment.append t)) o' := by
  unfold Journal.place
  rw [Action.bind_of_ok (Action.attempt_of_error happend)]
  simp only [he, if_true]

theorem append_of_unplaced (hplace : Journal.place t o = .error e o') :
    Journal.append t o = .error e o' := by
  unfold Journal.append
  rw [Action.bind_of_error hplace]

def counted (j : Journal) (header : RecordHeader) : Journal :=
  { j with charged := j.charged + UInt64.ofNat header.recordLength }

theorem charged_counted {j : Journal} {l : Ledger} (hcharged : j.charged.toNat = l.used)
    (ha : l.Accepts t) :
    (counted j (Ledger.header l.back t)).charged.toNat = (l.push t).used := by
  have hlt := ha.used_push_lt
  have hpush := l.used_push t
  rw [hpush] at hlt ⊢
  rw [counted, ha.recordLength_eq, UInt64.toNat_add, hcharged, UInt64.toNat_ofNat']
  simp only [UInt32.size] at hlt
  omega

theorem append_of_placed {id : UInt64} {o'' : Over Journal Host}
    (hplace : Journal.place t o = .ok header o') (hid : activeId o' = .ok id o')
    (hpolicy : applyPolicy ⟨counted o'.item header, o'.base⟩ = .ok () o'') :
    Journal.append t o =
      (do
        if o'.item.sizeLimit < (counted o'.item header).charged then
          let _ ← (Action.attempt advance : Action (Over Journal Host) (Except StoreError Unit))
        return ⟨id, header⟩ : Action (Over Journal Host) Appended) o'' := by
  have hcharge : charge header o' = .ok () ⟨counted o'.item header, o'.base⟩ := rfl
  unfold Journal.append
  rw [Action.bind_of_ok hplace, Action.bind_of_ok hid, Action.bind_of_ok hcharge,
    Action.item_bind, Action.bind_of_ok hpolicy]
  rfl

end Steps

end Journal

end AppendStore
