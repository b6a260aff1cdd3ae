import AppendStore.Proofs.Disk.Kinds
import AppendStore.Proofs.Journal.Active

/-!
# What a journal leaves alone

A journal writes to log files only. `Host.LogOnly h h'` says that nothing else has changed
on the host: the value files have the bytes that they had, and the open ones are as they
were. `Journal.Works` adds that the journal's active segment is on a log file. This is so
after opening a journal (`Journal.works_of_attach`), and an append keeps it
(`Journal.keeps_append`), whether it fails or not, as does a sync (`Journal.keeps_sync`).

Nothing is said here of what is in the log files. They need not be those of a journal, and
writing to them may fail.
-/

namespace AppendStore

open AppendStore.Action (Keeps)

def Disk.IsLog (d : Disk) (r : StoreRef) : Prop :=
  ∃ ref id, (d.children ref).lookup (FileName.of .log id) = some (.file r)

theorem Disk.IsLog.extended {d d' : Disk} {r : StoreRef} (h : d.IsLog r) (hextends : d.Extends d') :
    d'.IsLog r := by
  obtain ⟨ref, id, hfound⟩ := h
  exact ⟨ref, id, hextends _ _ _ hfound⟩

namespace Host

variable {h h' h'' : Host} {r : StoreRef} {α : Type}

/-- The host after work on log files. -/
structure LogOnly (h h' : Host) : Prop where
  linked : h'.disk.Linked
  spares : h.disk.Spares .value h'.disk
  valueFiles : h'.valueFiles = h.valueFiles

namespace LogOnly

theorem refl (hlinked : h.disk.Linked) : h.LogOnly h := ⟨hlinked, .refl _ _, rfl⟩

theorem trans (hfirst : h.LogOnly h') (hnext : h'.LogOnly h'') : h.LogOnly h'' :=
  ⟨hnext.linked, hfirst.spares.trans hnext.spares, hnext.valueFiles.trans hfirst.valueFiles⟩

theorem setStore (hl : h.LogOnly h') (hlog : h'.disk.IsLog r) (b : ByteStore)
    (segments : Array (Opened Segment)) :
    h.LogOnly { h' with disk := h'.disk.setStore r b, segments } := by
  obtain ⟨ref, id, hfound⟩ := hlog
  have hspares : h'.disk.Spares .value (h'.disk.setStore r b) :=
    Disk.spares_setStore hl.linked hfound (by decide) b
  exact ⟨hl.linked.setStore r b, hl.spares.trans hspares, hl.valueFiles⟩

end LogOnly

structure OnLog (h : Host) (segments : Array (Opened Segment)) (r : StoreRef) (h' : Host) :
    Prop extends h.LogOnly h' where
  segments_eq : h'.segments = segments
  isLog : h'.disk.IsLog r

theorem keeps_onStore {segments : Array (Opened Segment)} (x : Action ByteStore α) :
    Keeps (h.OnLog segments r) (onStore r x) := by
  intro h' hon
  have hnext : ∀ b, h.OnLog segments r (h'.withStore r b) := fun b =>
    ⟨hon.toLogOnly.setStore hon.isLog b h'.segments, hon.segments_eq, hon.isLog⟩
  cases hx : x (h'.disk.store r) with
  | ok a b =>
    rw [onStore_of_ok hx]
    exact hnext b
  | error e b =>
    simp only [onStore, onDisk, Disk.onStore, Action.zoom, hx]
    exact hnext b

theorem keeps_attachLogFile {segments : Array (Opened Segment)} (id : UInt64) (capacity : UInt32) :
    Keeps (h.OnLog segments r) (attachLogFile r id capacity) := by
  unfold attachLogFile
  refine Keeps.bind (fun h' hon => hon) fun now => ?_
  split
  · exact Keeps.bind (keeps_onStore _) fun s => Keeps.bind (keeps_onStore _) fun _ => .pure s
  · exact keeps_onStore _

/-- A log file is opened, or not, and no other file changes. -/
theorem openSegment_cases (hlinked : h.disk.Linked) (dir : Path) (id : UInt64)
    (capacity : UInt32) :
    (∃ e h', openSegment dir id capacity h = .error e h' ∧ h.LogOnly h' ∧
      h'.segments = h.segments) ∨
    ∃ s r h', openSegment dir id capacity h = .ok ⟨h.segments.size⟩ (h'.withOpened s r) ∧
      h.OnLog h.segments r h' := by
  unfold openSegment
  rcases Disk.openOrCreate_cases hlinked (segmentPath dir id) with
    ⟨kind, herror⟩ | ⟨r, d, hok, hopening⟩
  · exact .inl ⟨_, h, Action.bind_of_error (onDisk_ofIo_of_error herror), .refl hlinked, rfl⟩
  · obtain ⟨ref, hfound⟩ := hopening.names.lookup
    have hon : h.OnLog h.segments r { h with disk := d } :=
      ⟨⟨hopening.linked hlinked, hopening.spares hlinked (by decide), rfl⟩, rfl, ⟨ref, id, hfound⟩⟩
    have hkept := @keeps_attachLogFile h r h.segments id capacity
    rw [Action.bind_of_ok (onDisk_ofIo_of_ok hok)]
    cases hattach : attachLogFile r id capacity { h with disk := d } with
    | error e h' =>
      have hnext := hkept.of_error hon hattach
      exact .inl ⟨e, h', Action.bind_of_error hattach, hnext.toLogOnly, hnext.segments_eq⟩
    | ok s h' =>
      have hnext := hkept.of_ok hon hattach
      refine .inr ⟨{ s with path := some (segmentPath dir id) }, r, h', ?_, hnext⟩
      rw [Action.bind_of_ok hattach, ← hnext.segments_eq]
      rfl

theorem keeps_openSegment (h : Host) (dir : Path) (id : UInt64) (capacity : UInt32) :
    Keeps h.LogOnly (openSegment dir id capacity) := by
  intro h' hl
  rcases openSegment_cases hl.linked dir id capacity with
    ⟨e, h'', herror, hnext, -⟩ | ⟨s, r, h'', hok, hnext⟩
  · rw [herror]
    exact hl.trans hnext
  · rw [hok]
    have hlast := hl.trans hnext.toLogOnly
    exact ⟨hlast.linked, hlast.spares, hlast.valueFiles⟩

theorem keeps_onDisk {x : EStateM IoError Disk α}
    (hx : Keeps (fun d => d.Linked ∧ h.disk.Spares .value d) x) :
    Keeps h.LogOnly (onDisk (Action.ofIo x)) :=
  hx.ofIo.zoom (fun _ hl => ⟨hl.linked, hl.spares⟩) fun _ _ hl hd => ⟨hd.1, hd.2, hl.valueFiles⟩

theorem keeps_makeDirectory (h : Host) (dir : Path) : Keeps h.LogOnly (makeDirectory dir) :=
  keeps_onDisk (Disk.keeps_makeDirectory (Disk.Spares.keeps_createDirectory .value h.disk) dir)

theorem keeps_idsIn (h : Host) (kind : FileKind) (dir : Path) :
    Keeps h.LogOnly (idsIn kind dir) :=
  keeps_onDisk (Disk.keeps_idsIn kind dir)

end Host

namespace Journal

variable {h : Host} {α : Type}

/-- The journal is at work on a log file, and no other file has changed since `h`. -/
structure Works (h : Host) (o : Over Journal Host) : Prop extends h.LogOnly o.base where
  active : ∀ {opened : Opened Segment}, o.base.segment? o.item.active = some opened →
    o.base.disk.IsLog opened.store

theorem Works.withItem {o : Over Journal Host} (hworks : Works h o) {j : Journal}
    (hactive : j.active = o.item.active) : Works h ⟨j, o.base⟩ :=
  ⟨hworks.toLogOnly, fun hopened => hworks.active (hactive ▸ hopened)⟩

theorem Works.here {o : Over Journal Host} (hworks : Works h o) : Works o.base o :=
  ⟨.refl hworks.linked, hworks.active⟩

theorem Works.spared {o : Over Journal Host} (hworks : Works h o) {base : Host}
    (hlinked : base.disk.Linked) (hspares : o.base.disk.Spares .log base.disk)
    (hsegments : base.segments = o.base.segments) : Works base ⟨o.item, base⟩ := by
  refine ⟨.refl hlinked, fun hopened => ?_⟩
  rw [Host.segment?, hsegments] at hopened
  exact (hworks.active hopened).extended hspares.extended

theorem works_of_openSegment {h₁ h' : Host} {dir : Path} {id : UInt64} {capacity : UInt32}
    {j : Journal} (hl : h.LogOnly h₁)
    (hopen : Host.openSegment dir id capacity h₁ = .ok j.active h') : Works h ⟨j, h'⟩ := by
  rcases Host.openSegment_cases hl.linked dir id capacity with
    ⟨e, h'', herror, -⟩ | ⟨s, r, h'', hok, hnext⟩
  · cases herror.symm.trans hopen
  · injection hok.symm.trans hopen with href hhost
    subst hhost
    have hlast := hl.trans hnext.toLogOnly
    refine ⟨⟨hlast.linked, hlast.spares, hlast.valueFiles⟩, fun hopened => ?_⟩
    rw [← href, ← hnext.segments_eq] at hopened
    cases (Host.segment?_withOpened h'' s r).symm.trans hopened
    exact hnext.isLog

theorem keeps_onActive (x : Action (Over Segment ByteStore) α) :
    Keeps (Works h) (onActive x) := by
  rintro ⟨j, base⟩ hworks
  cases hopened : base.segment? j.active with
  | none =>
    have hdangling : Host.onSegment j.active x base = .error Host.dangling base := by
      simp only [Host.onSegment, hopened]
    have hnone : onActive x ⟨j, base⟩ = .error Host.dangling ⟨j, base⟩ := by
      unfold onActive
      rw [Action.item_bind]
      exact Action.onBase_of_error hdangling
    rw [hnone]
    exact hworks
  | some opened =>
    obtain ⟨s, r⟩ := opened
    have hlog := hworks.active hopened
    have hnext : ∀ p, Works h ⟨j, base.withSegment j.active r p⟩ := by
      intro p
      refine ⟨hworks.toLogOnly.setStore hlog _ _, fun {opened} hopened' => ?_⟩
      cases (Host.segment?_withSegment hopened).symm.trans hopened'
      exact hlog
    cases hx : x ⟨s, base.disk.store r⟩ with
    | ok a p =>
      rw [onActive_of_ok hopened hx]
      exact hnext p
    | error e p =>
      rw [onActive_of_error hopened hx]
      exact hnext p

theorem keeps_activeId : Keeps (Works h) activeId :=
  Keeps.bind (keeps_onActive _) fun s => .pure s.id

theorem keeps_advance : Keeps (Works h) advance := by
  refine Keeps.bind (keeps_onActive _) fun _ o hworks => ?_
  rw [Action.item_bind, Action.setItem_bind]
  refine Keeps.bind keeps_activeId (fun id => ?_) _ (hworks.withItem rfl)
  rintro ⟨j, base⟩ hworks
  rcases Host.openSegment_cases hworks.linked o.item.dir (id + 1) o.item.segmentCapacity with
    ⟨e, base', herror, hnext, hsegments⟩ | ⟨s, r, base', hok, hnext⟩
  · rw [Action.bind_of_error (Action.onBase_of_error herror)]
    refine ⟨hworks.toLogOnly.trans hnext, fun {opened} hopened => ?_⟩
    rw [Host.segment?, hsegments] at hopened
    exact (hworks.active hopened).extended hnext.spares.extended
  · have href : (base'.withOpened s r).segment? ⟨base.segments.size⟩ = some ⟨s, r⟩ := by
      rw [← hnext.segments_eq]
      exact Host.segment?_withOpened base' s r
    rw [Action.bind_of_ok (Action.onBase_of_ok hok),
      Action.bind_of_ok (Action.onBase_of_ok (initialCharge_eq href))]
    exact works_of_openSegment hworks.toLogOnly hok

theorem keeps_place (t : Transaction) : Keeps (Works h) (place t) := by
  refine Keeps.bind (keeps_onActive _).attempt fun placed => ?_
  cases placed with
  | ok header => exact .pure header
  | error e =>
    simp only
    split
    · exact Keeps.bind keeps_advance fun _ => keeps_onActive _
    · exact .throw e

theorem keeps_applyPolicy : Keeps (Works h) applyPolicy := by
  intro o hworks
  unfold applyPolicy
  rw [Action.item_bind]
  cases o.item.syncPolicy with
  | everyWrite => exact keeps_onActive _ o hworks
  | everyEntries count =>
    by_cases hdue : count ≤ o.item.pending + 1
    · simp only [if_pos hdue]
      exact keeps_onActive _ _ (hworks.withItem rfl)
    · simp only [if_neg hdue]
      exact hworks.withItem rfl
  | manual => exact hworks

/-- Whatever comes of an append, it changes log files only. -/
theorem keeps_append (t : Transaction) : Keeps (Works h) (append t) := by
  refine Keeps.bind (keeps_place t) fun header => Keeps.bind keeps_activeId fun id =>
    Keeps.bind (fun o hworks => hworks.withItem rfl) fun _ o hworks => ?_
  rw [Action.item_bind]
  refine Keeps.bind keeps_applyPolicy (fun _ => ?_) o hworks
  split
  · exact Keeps.bind keeps_advance.attempt fun _ => .pure _
  · exact .pure _

theorem keeps_sync : Keeps (Works h) sync :=
  Keeps.bind (keeps_onActive _) fun _ _ hworks => hworks.withItem rfl

theorem keeps_initialCharge (P : Host → Prop) (ref : SegmentRef) :
    Keeps P (initialCharge ref) := by
  intro base hbase
  cases hopened : base.segment? ref with
  | none =>
    have hdangling : segmentOf ref base = .error Host.dangling base := by
      simp only [segmentOf, Host.onSegment, hopened]
    unfold initialCharge
    rw [Action.bind_of_error hdangling]
    exact hbase
  | some opened =>
    rw [initialCharge_eq hopened]
    exact hbase

theorem keeps_attach (h : Host) (config : Config) : Keeps h.LogOnly (attach config) :=
  Keeps.bind (.ofExcept _) fun _ => Keeps.bind (h.keeps_makeDirectory _) fun _ =>
    Keeps.bind (h.keeps_idsIn .log _) fun _ => Keeps.bind (h.keeps_openSegment _ _ _) fun active =>
      Keeps.bind (keeps_initialCharge _ active) fun _ => .pure _

/-- A journal that was opened is at work on a log file. -/
theorem works_of_attach {config : Config} {j : Journal} {h' : Host} (hlinked : h.disk.Linked)
    (hattach : attach config h = .ok j h') : Works h ⟨j, h'⟩ := by
  obtain ⟨-, h₁, ids, h₂, h₃, charged, hmake, hids, hopen, hcharge⟩ := attach_eq_ok hattach
  have hmade := (h.keeps_makeDirectory _).of_ok (.refl hlinked) hmake
  have hlisted := (h.keeps_idsIn .log _).of_ok hmade hids
  exact (keeps_initialCharge (fun base => Works h ⟨j, base⟩) j.active).of_ok
    (works_of_openSegment hlisted hopen) hcharge

end Journal

end AppendStore
