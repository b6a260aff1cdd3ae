import AppendStore.Proofs.Journal.Frame
import AppendStore.Proofs.Journal.Rotation
import AppendStore.Proofs.Store.Errors

/-!
# A journal with others on its host

A journal that stands where its gauge says stays there when others work on the host: when files
of other kinds are written (`Stands.spared`), and when its own segments are opened and read
(`Host.Browsed`, `Stands.browses_reading`). What it does itself changes log files only, since its
active segment is one (`Stands.works`).

No error that comes up in this is a refusal of settings. The one that a segment of the wrong
capacity would give (`Segment.start`) is not among them, since the files of the journal have
their capacities already and the next one gets that of the settings, which were accepted.
-/

namespace AppendStore

open AppendStore.Action (FailsAs Keeps leaves)
open StoreError (NotConfig)

namespace Host

/-- The host after files were opened for reading: what was open still is, and the disk is as it
was. -/
structure Browsed (h h' : Host) : Prop where
  disk : h'.disk = h.disk
  valueFiles : h'.valueFiles = h.valueFiles
  segments : ∀ {ref : SegmentRef} {opened : Opened Segment},
    h.segment? ref = some opened → h'.segment? ref = some opened

theorem Browsed.refl (h : Host) : h.Browsed h := ⟨rfl, rfl, fun href => href⟩

theorem Browsed.trans {h h' h'' : Host} (hfirst : h.Browsed h') (hnext : h'.Browsed h'') :
    h.Browsed h'' where
  disk := hnext.disk.trans hfirst.disk
  valueFiles := hnext.valueFiles.trans hfirst.valueFiles
  segments := fun href => hnext.segments (hfirst.segments href)

theorem Browsed.withOpened (h : Host) (s : Segment) (r : StoreRef) : h.Browsed (h.withOpened s r) :=
  ⟨rfl, rfl, fun href => segment?_withOpened_of_some href s r⟩

end Host

theorem Host.leaves_idsIn (kind : FileKind) (dir : Path) (h : Host) :
    leaves (idsIn kind dir) h = h := by
  have hlisted : Keeps (· = h.disk) (Disk.idsIn kind dir) := Disk.keeps_idsIn kind dir
  rw [idsIn, onDisk, Action.leaves_zoom, hlisted.ofIo.leaves rfl]

namespace Journal

open Segment

variable {config : Config} {records : List (Appended × Transaction)} {g : Gauge} {j : Journal}
  {h h' base : Host} {o : Over Journal Host} {t : Transaction} {α β : Type}

namespace Gauge

theorem id_append_le (config : Config) (t : Transaction) (g : Gauge) :
    (g.append config t).2.id ≤ g.id + 2 := by
  cases hencode : t.encode with
  | error e =>
    rw [append_of_invalid hencode]
    exact Nat.le_add_right _ _
  | ok body =>
    rw [append_of_encode hencode]
    generalize recordHeaderSize + body.length = length
    have hseat : (g.seat config length).id ≤ g.id + 1 := by
      unfold seat
      split
      · exact Nat.le_succ _
      · exact Nat.le_refl _
    by_cases hfits : (g.seat config length).Fits config length
    · rw [place_of_fits hfits]
      unfold settle
      split
      · exact Nat.succ_le_succ hseat
      · exact Nat.le_succ_of_le hseat
    · rw [place_of_full hfits]
      exact Nat.le_succ_of_le hseat

theorem used_append_le (hwithin : g.used ≤ config.sizeLimit.toNat) (t : Transaction) :
    (g.append config t).2.used ≤ config.sizeLimit.toNat :=
  used_serve_le hwithin (.append t)

theorem notConfig_append {e : StoreError} (herror : (g.append config t).1 = .error e) :
    NotConfig e := by
  cases hencode : t.encode with
  | error e' =>
    obtain ⟨fault, rfl⟩ := Transaction.invalid_of_encode_error hencode
    rw [append_of_invalid hencode] at herror
    cases herror
    rfl
  | ok body =>
    rw [append_of_encode hencode] at herror
    by_cases hfits : (g.seat config (recordHeaderSize + body.length)).Fits config
        (recordHeaderSize + body.length)
    · rw [place_of_fits hfits] at herror
      cases herror
    · rw [place_of_full hfits] at herror
      cases herror
      rfl

end Gauge

namespace Active

variable {dir : Path} {trail : List DirectoryRef} {f : LogFile} {older : List LogFile}

theorem works (h : Active dir trail f older o) (hlinked : o.base.disk.Linked) :
    Works o.base o := by
  obtain ⟨s, href, -, -⟩ := h.segment
  refine ⟨.refl hlinked, fun hopened => ?_⟩
  cases href.symm.trans hopened
  exact ⟨_, _, h.files.found List.suffix_rfl⟩

theorem browsed (hactive : Active dir trail f older ⟨j, h⟩) (hbrowsed : h.Browsed h') :
    Active dir trail f older ⟨j, h'⟩ where
  files := hbrowsed.disk.symm ▸ hactive.files
  dir_eq := hactive.dir_eq
  valid := hactive.valid
  segment := by
    obtain ⟨s, href, hid, hmodels⟩ := hactive.segment
    exact ⟨s, hbrowsed.segments href, hid, hbrowsed.disk.symm ▸ hmodels⟩

end Active

namespace Stands

/-- The journal is at work on a log file. -/
theorem works (hstands : Stands config records g o) (hlinked : o.base.disk.Linked) :
    Works o.base o := by
  obtain ⟨trail, f, older, hlaid, -⟩ := hstands
  exact hlaid.active.works hlinked

theorem browsed (hstands : Stands config records g ⟨j, h⟩) (hbrowsed : h.Browsed h') :
    Stands config records g ⟨j, h'⟩ := by
  obtain ⟨trail, f, older, hlaid, hgauge⟩ := hstands
  exact ⟨trail, f, older,
    hlaid.withItem (hlaid.active.browsed hbrowsed) hbrowsed.disk rfl rfl, hgauge⟩

/-- Work that is nothing to log files and makes no directories. -/
theorem spared (hstands : Stands config records g o) (hlinked : base.disk.Linked)
    (hspares : o.base.disk.Spares .log base.disk) (hsegments : base.segments = o.base.segments)
    (hclear : ∀ {trail}, o.base.disk.Leads config.logDir trail → ∀ id inner,
      (base.disk.children (Disk.lastOf trail)).lookup (FileName.of .log id) =
          some (.directory inner) →
        (o.base.disk.children (Disk.lastOf trail)).lookup (FileName.of .log id) =
          some (.directory inner)) :
    Stands config records g ⟨o.item, base⟩ := by
  obtain ⟨trail, f, older, hlaid, hgauge⟩ := hstands
  exact ⟨trail, f, older, ⟨hlaid.active.spared hlinked hspares hsegments,
    fun id inner hfound => hlaid.clear id inner (hclear hlaid.active.files.leads id inner hfound),
    hlaid.sizeLimit, hlaid.segmentCapacity, hlaid.packed⟩, hgauge⟩

/-- Whatever comes of an append, the journal stands where the gauge moves to. -/
theorem leaves_append (hstands : Stands config records g o)
    (hwithin : g.used ≤ config.sizeLimit.toNat) (t : Transaction)
    (hid : (g.append config t).2.id < UInt64.size) :
    (∃ records', Stands config records' (g.append config t).2 (leaves (Journal.append t) o)) ∧
      ∀ e o', Journal.append t o = .error e o' → NotConfig e := by
  rcases hstands.append hwithin t hid with
    ⟨a, p, hok, -, hnext⟩ | ⟨e, p, herror, hgauge, hnext⟩
  · rw [leaves, hok]
    exact ⟨⟨_, hnext⟩, fun e o' hresult => nomatch hresult⟩
  · rw [leaves, herror]
    refine ⟨⟨_, hnext⟩, fun e' o' hresult => ?_⟩
    cases hresult
    exact Gauge.notConfig_append hgauge

theorem segmentAt (hstands : Stands config records g ⟨j, h⟩) (id : UInt64) :
    j.segmentAt id h = .error (.io (.segmentMissing id)) h ∨
      ∃ s r l, j.segmentAt id h = .ok ⟨h.segments.size⟩ (h.withOpened s r) ∧
        (l : Ledger).Models s (h.disk.store r) := by
  obtain ⟨trail, f, older, hlaid, -⟩ := hstands
  have hfiles := hlaid.active.files
  by_cases hfile : h.disk.isFile (Host.segmentPath j.dir id) = true
  · obtain ⟨r, hnames⟩ := Disk.names_of_isFile hfile
    rw [Host.segmentPath, hlaid.active.dir_eq] at hnames
    have hfound := hfiles.leads.lookup_of_names (FileName.plainName .log id) (hfiles.accepted id)
      hnames
    obtain ⟨g, rest, hmem, rfl, -⟩ := hfiles.exists_of_lookup hfound
    obtain ⟨s, hopen, -, hmodels⟩ := hfiles.own.openSegment_of_known hmem j.segmentCapacity
    rw [segmentAt_of_isFile hfile, hlaid.active.dir_eq]
    exact .inr ⟨s, g.store, g.ledger, hopen, hmodels⟩
  · exact .inl (segmentAt_of_not_isFile hfile)

end Stands

section Browsing

variable {ref : SegmentRef} {x : Action (Over Segment ByteStore) α}

def Looks (x : Action (Over Segment ByteStore) α) : Prop :=
  ∀ {l : Ledger} {s : Segment} {b : ByteStore}, l.Models s b → leaves x ⟨s, b⟩ = ⟨s, b⟩

theorem looks_records : Looks Segment.records := fun hmodels => by
  simp only [leaves, hmodels.records_eq]

theorem looks_transactionOf (header : RecordHeader) : Looks (transactionOf header) := by
  intro l s b hmodels
  rw [leaves, hmodels.intact.transactionOf_eq header]
  cases s.reading b.contents header <;> rfl

/-- Started here, the computation only opens segments for reading, and no settings are refused. -/
structure Browses (h : Host) (x : Action Host α) : Prop where
  browsed : h.Browsed (leaves x h)
  notConfig : ∀ e h', x h = .error e h' → NotConfig e

namespace Browses

variable {x y : Action Host α} {f : α → Action Host β} {a : α} {e : StoreError}

theorem of_ok (hok : x h = .ok a h') (hbrowsed : h.Browsed h') : Browses h x where
  browsed := by rwa [leaves, hok]
  notConfig := fun e h'' herror => nomatch hok.symm.trans herror

theorem of_error (herror : x h = .error e h) (he : NotConfig e) : Browses h x where
  browsed := by
    rw [leaves, herror]
    exact .refl h
  notConfig := fun e' h' hresult => by
    cases herror.symm.trans hresult
    exact he

theorem of_eq (hsame : x h = y h) (hy : Browses h y) : Browses h x where
  browsed := by
    rw [leaves, hsame]
    exact hy.browsed
  notConfig := fun e h' hresult => hy.notConfig e h' (hsame.symm.trans hresult)

theorem bind_of_ok (hok : x h = .ok a h') (hbrowsed : h.Browsed h') (hf : Browses h' (f a)) :
    Browses h (x >>= f) where
  browsed := by
    rw [leaves, Action.bind_of_ok hok]
    exact hbrowsed.trans hf.browsed
  notConfig := fun e h'' hresult => hf.notConfig e h'' ((Action.bind_of_ok hok).symm.trans hresult)

end Browses

theorem browses_idsIn (kind : FileKind) (dir : Path) (h : Host) :
    Browses h (Host.idsIn kind dir) where
  browsed := (Host.leaves_idsIn kind dir h).symm ▸ .refl h
  notConfig := Host.notConfig_onDisk _ h

theorem leaves_onSegment {s : Segment} {r : StoreRef} {l : Ledger}
    (href : h.segment? ref = some ⟨s, r⟩) (hmodels : l.Models s (h.disk.store r)) (hx : Looks x) :
    leaves (Host.onSegment ref x) h = h := by
  have hlooked := hx hmodels
  unfold leaves at hlooked ⊢
  cases hresult : x ⟨s, h.disk.store r⟩ with
  | ok a p =>
    rw [hresult] at hlooked
    have hsame : p = ⟨s, h.disk.store r⟩ := hlooked
    rw [Host.onSegment_of_ok href hresult, hsame]
    exact Host.withSegment_self href
  | error e p =>
    rw [hresult] at hlooked
    have hsame : p = ⟨s, h.disk.store r⟩ := hlooked
    rw [Host.onSegment_of_error href hresult, hsame]
    exact Host.withSegment_self href

theorem browses_onSegment {s : Segment} {r : StoreRef} {l : Ledger}
    (href : h.segment? ref = some ⟨s, r⟩) (hmodels : l.Models s (h.disk.store r)) (hx : Looks x)
    (hfails : FailsAs NotConfig x) : Browses h (Host.onSegment ref x) where
  browsed := (leaves_onSegment href hmodels hx).symm ▸ .refl h
  notConfig := Host.failsAs_onSegment hfails rfl ref h

namespace Stands

theorem browses_segmentAt (hstands : Stands config records g ⟨j, h⟩) (id : UInt64) :
    Browses h (j.segmentAt id) := by
  rcases hstands.segmentAt id with herror | ⟨s, r, l, hok, -⟩
  · exact .of_error herror rfl
  · exact .of_ok hok (.withOpened h s r)

/-- A segment is read through its file. -/
theorem browses_reading (hstands : Stands config records g ⟨j, h⟩) (hx : Looks x)
    (hfails : FailsAs NotConfig x) (id : UInt64) :
    Browses h (j.segmentAt id >>= fun ref => Host.onSegment ref x) := by
  rcases hstands.segmentAt id with herror | ⟨s, r, l, hok, hmodels⟩
  · exact .of_error (Action.bind_of_error herror) rfl
  · exact .bind_of_ok hok (.withOpened h s r)
      (browses_onSegment (h.segment?_withOpened s r) hmodels hx hfails)

theorem browses_transactionAt (hstands : Stands config records g ⟨j, h⟩) (a : Appended) :
    Browses h (j.transactionAt a) :=
  hstands.browses_reading (looks_transactionOf a.header) (notConfig_transactionOf a.header)
    a.segmentId

theorem browses_readSegment (hstands : Stands config records g ⟨j, h⟩) (id : UInt64) :
    Browses h (j.readSegment id) := by
  have hreading := hstands.browses_reading looks_records notConfig_records id
  obtain ⟨trail, f, older, hlaid, -⟩ := hstands
  obtain ⟨s, href, -, hmodels⟩ := hlaid.active.segment
  have hread : j.readSegment id h = if s.id = id then Host.onSegment j.active Segment.records h
      else (j.segmentAt id >>= fun ref => Host.onSegment ref Segment.records) h := by
    unfold readSegment
    rw [Action.bind_of_ok (segmentOf_eq href)]
    split <;> rfl
  by_cases hid : s.id = id
  · rw [if_pos hid] at hread
    exact .of_eq hread (browses_onSegment href hmodels looks_records notConfig_records)
  · rw [if_neg hid] at hread
    exact .of_eq hread hreading

end Stands

end Browsing

end Journal

end AppendStore
