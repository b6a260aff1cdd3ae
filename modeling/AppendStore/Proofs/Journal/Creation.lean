import AppendStore.Proofs.Journal.Rotation

/-!
# Torn away from a new segment

Making a log file takes several steps: the file is made, its word is written, and it is
given its size. `Journal.beginLogFile` stops after any of them, or within the word, and
nothing that was open is left then (`Host.rebooted`). Whatever is left of the file has no
records (`Segment.Barren`), and the newest log file is taken up without records, as if it
had been made in one go (`Files.attach_begun`).

`Session.Survived` are the sessions that were torn away from their next segment any number
of times and opened again. `Journal.creation_survives_crash` says that nothing is lost in
them, wherever the creation stopped.
-/

namespace AppendStore

namespace Host

/-- The host after everything that was open is gone. -/
def rebooted (h : Host) : Host := { disk := h.disk }

def onFile (path : Path) (x : Action ByteStore Unit) : Action Host Unit := do
  onStore (← onDisk (Action.ofIo (Disk.openOrCreate path))) x

theorem onFile_of_free {h : Host} {d : Disk} {path : Path} {ref : DirectoryRef} {name : String}
    {x : Action ByteStore Unit} {b : ByteStore}
    (hcreate : Disk.openOrCreate path h.disk = .ok ⟨h.disk.stores.size⟩ d)
    (hgrown : h.disk.Grown ref name (.onDisk []) d) (hx : x (.onDisk []) = .ok () b) :
    onFile path x h = .ok () { h with disk := d.setStore ⟨h.disk.stores.size⟩ b } := by
  rw [← hgrown.store_new] at hx
  unfold onFile
  rw [Action.bind_of_ok (onDisk_ofIo_of_ok hcreate)]
  exact onStore_of_ok (h := { h with disk := d }) hx

end Host

namespace Journal

open Segment

/-- How far making a log file has got. -/
inductive Stage where
  | absent
  /-- The file is there, with that many bytes of its word: none, some or all. -/
  | word (written : Nat)
  /-- The word is written and the file has its size. -/
  | sized
  /-- The file has its size but no word. -/
  | blank
  deriving DecidableEq, Repr

/-- Makes a log file as far as the given stage. -/
def beginLogFile (dir : Path) (id : UInt64) (capacity : UInt32) : Stage → Action Host Unit
  | .absent => return
  | .word written =>
    Host.onFile (Host.segmentPath dir id)
      (writeWhole ((fresh id capacity).cursors.bytes.take written) 0)
  | .sized => do
    let _ ← Host.openSegment dir id capacity
  | .blank =>
    Host.onFile (Host.segmentPath dir id)
      (modify fun s => { s with contents := s.contents.resize capacity.toNat })

section Begun

variable {config : Config} {trail : List DirectoryRef} {files : List LogFile} {d d' : Disk}
  {h : Host} {b : ByteStore} {s : Segment} {id : UInt64} {capacity : UInt32} {dir : Path}

/-- What is left of a log file that was not finished: no records, and opening it makes the segment
again. -/
structure Remnant (id : UInt64) (capacity : UInt32) (b : ByteStore) : Prop
    extends Barren id b where
  found_eq : found id capacity b.contents = .ok (Segment.fresh id capacity)

theorem remnant_word (hplain : b.Plain) (hdurable : b.durability ≠ .fails)
    (hempty : b.contents.size = 0) (hcapacity : CapacityOk capacity) (id : UInt64) {bs : Bytes}
    (hlen : bs.length ≤ wordSize) :
    Remnant id capacity (b.withContents (b.contents.write 0 bs)) := by
  have hsmall : (b.contents.write 0 bs).size ≤ wordSize :=
    Contents.size_write_le (hempty ▸ Nat.zero_le _) (by rwa [Nat.zero_add])
  exact ⟨barren_of_small (hplain.withContents (b.contents.write 0 bs)) hdurable hsmall id,
    found_of_small hsmall hcapacity⟩

theorem remnant_blank (hplain : b.Plain) (hdurable : b.durability ≠ .fails)
    (hempty : b.contents.size = 0) (hcapacity : CapacityOk capacity) (id : UInt64) :
    Remnant id capacity (b.withContents (b.contents.resize capacity.toNat)) := by
  have hsize : (b.contents.resize capacity.toNat).size = capacity.toNat := Contents.size_resize _ _
  have hlarge : wordSize < (b.contents.resize capacity.toNat).size :=
    hsize.symm ▸ hcapacity.wordSize_lt
  have hmax : (b.contents.resize capacity.toNat).size ≤ maxCapacity := hsize.symm ▸ hcapacity.2
  have hzeros : (b.contents.resize capacity.toNat).window 0 wordSize =
      List.replicate wordSize 0 := by
    rw [Contents.resize_eq_extend (hempty ▸ Nat.zero_le _), Contents.window_extend,
      Contents.window_eq_zeros (Nat.le_of_eq hempty)]
  refine ⟨barren_of_zeros (hplain.withContents (b.contents.resize capacity.toNat)) hdurable hlarge
    hmax hzeros id, ?_⟩
  change found id capacity (b.contents.resize capacity.toNat) = _
  rw [found, if_neg (Nat.not_le_of_lt hlarge), resumed_of_zeros hmax hzeros, hsize,
    UInt32.ofNat_toNat, started, if_pos hcapacity]

/-- A journal is opened on what is left of its next file as if that was finished. -/
theorem Files.attach_remnant (hfiles : Files config.logDir trail files d)
    (hcount : files.length + 1 < UInt64.size) (hcheck : config.check = .ok ())
    (hgrown : d.Grown (Disk.lastOf trail) (FileName.of .log (idAt files.length)) (.onDisk []) d')
    (hremnant : Remnant (idAt files.length) config.segmentCapacity b)
    (hdisk : h.disk = d'.setStore ⟨d.stores.size⟩ b) :
    ∃ ref s h' r, Journal.attach config h = .ok (opened config ref s) h' ∧ s.used = 0 ∧
      Active config.logDir trail ⟨r, ⟨config.segmentCapacity, []⟩⟩ files
        ⟨opened config ref s, h'⟩ := by
  have hbefore : files.length < UInt64.size := Nat.lt_of_succ_lt hcount
  have hchildren : h.disk.children (Disk.lastOf trail) =
      (FileName.of .log (idAt files.length), .file ⟨d.stores.size⟩) ::
        d.children (Disk.lastOf trail) := by
    rw [hdisk]
    exact hgrown.children_same
  have hfound : (h.disk.children (Disk.lastOf trail)).lookup
      (FileName.of .log (idAt files.length)) = some (.file ⟨d.stores.size⟩) := by
    rw [hchildren, List.lookup_cons_self]
  have hids := hfiles.ids_next ⟨d.stores.size⟩
  rw [← hchildren] at hids
  have hown : OwnFiles config.logDir trail files h.disk := by
    rw [hdisk] at hfound ⊢
    exact (hfiles.own.grown hgrown).withOther (fun n hn => idAt_ne hbefore hn) hfound
      hremnant.toBarren
  have hoffer : offer h.disk (Disk.lastOf trail) (idAt files.length) config.segmentCapacity =
      .ok config.segmentCapacity := by
    have hstore : h.disk.store ⟨d.stores.size⟩ = b := by
      rw [hdisk]
      exact Disk.store_setStore hgrown.lt_size
    simp only [offer, hfound, hstore, hremnant.found_eq]
    rfl
  have hlast : ((List.range (files.length + 1)).map idAt).getLastD firstSegmentId =
      idAt files.length := by
    rw [List.range_succ, List.map_append, List.map_singleton, List.getLastD_concat]
  obtain ⟨ref, s, h', r, hattach, hused, hkept, hheld⟩ := hown.attach_next hbefore hcheck
    (Host.onDisk_ofIo_of_ok hown.leads.makeDirectory_eq) (idsIn_of_ids hown.leads hids hcount) hlast
    hoffer
  simp only [withFile, hfound] at hkept
  exact ⟨ref, s, h', r, hattach, hused, hheld.active (hkept ▸ hids)⟩

/-- Wherever making the next file stopped, a journal is opened on it as if it was finished. -/
theorem Files.attach_begun (hfiles : Files config.logDir trail files h.disk)
    (hcount : files.length + 1 < UInt64.size) (hcheck : config.check = .ok ())
    (hfree : (h.disk.children (Disk.lastOf trail)).lookup (FileName.of .log (idAt files.length)) =
      none) {stage : Stage} (hstage : stage ≠ .absent) :
    ∃ h₁ ref s h' r, beginLogFile config.logDir (idAt files.length) config.segmentCapacity stage h =
        .ok () h₁ ∧
      Journal.attach config h₁.rebooted = .ok (opened config ref s) h' ∧ s.used = 0 ∧
      Active config.logDir trail ⟨r, ⟨config.segmentCapacity, []⟩⟩ files
        ⟨opened config ref s, h'⟩ := by
  have hcapacity := Config.capacityOk_of_check hcheck
  have hbefore : files.length < UInt64.size := Nat.lt_of_succ_lt hcount
  obtain ⟨d, hcreate, hgrown⟩ := Disk.openOrCreate_of_free hfiles.leads
    (FileName.plainName .log (idAt files.length)) (hfiles.accepted _) (Host.maxNameBytes_of .log _)
    hfiles.room hfree
  have hplain := ByteStore.plain_onDisk []
  have hdurable : (ByteStore.onDisk []).durability ≠ .fails := by decide
  cases stage with
  | absent => exact absurd rfl hstage
  | word written =>
    have hlen : ((fresh (idAt files.length) config.segmentCapacity).cursors.bytes.take
        written).length ≤ wordSize := by
      rw [List.length_take, Cursors.length_bytes]
      exact Nat.min_le_right _ _
    obtain ⟨ref, s, h', r, hattach, hused, hactive⟩ := hfiles.attach_remnant hcount hcheck hgrown
      (remnant_word hplain hdurable rfl hcapacity _ hlen)
      (h := Host.rebooted { h with disk := d.setStore ⟨h.disk.stores.size⟩ _ }) rfl
    exact ⟨_, ref, s, h', r, Host.onFile_of_free hcreate hgrown (writeWhole_of_plain hplain _ 0),
      hattach, hused, hactive⟩
  | sized =>
    have hoffer : offer h.disk (Disk.lastOf trail) (idAt files.length) config.segmentCapacity =
        .ok config.segmentCapacity := by
      simp only [offer, hfree]
    obtain ⟨r, s, h₁, hopen, hown, hchildren, -⟩ :=
      hfiles.own.openSegment_of_offer hbefore hcapacity hoffer
    simp only [withFile, hfree] at hchildren
    have hmade : Files config.logDir trail (⟨r, ⟨config.segmentCapacity, []⟩⟩ :: files)
        h₁.rebooted.disk :=
      hown.alone (by rw [hchildren]; exact hfiles.ids_next r)
    obtain ⟨ref, s', h', hattach, hused, -, hactive⟩ := hmade.attach hcount hcheck
    exact ⟨h₁, ref, s', h', r, Action.bind_of_ok hopen, hattach, hused, hactive⟩
  | blank =>
    obtain ⟨ref, s, h', r, hattach, hused, hactive⟩ := hfiles.attach_remnant hcount hcheck hgrown
      (remnant_blank hplain hdurable rfl hcapacity _)
      (h := Host.rebooted { h with disk := d.setStore ⟨h.disk.stores.size⟩ _ }) rfl
    exact ⟨_, ref, s, h', r, Host.onFile_of_free hcreate hgrown rfl, hattach, hused, hactive⟩

end Begun

/-- The sessions in a directory that was without files. They were asked for anything, torn away from
their next segment any number of times, and opened again each time. -/
inductive Survived (dir : Path) : Session → Prop where
  | opened {config : Config} {h h' : Host} {j : Journal} (hdir : config.logDir = dir)
      (hunused : h.Unused dir) (hattach : attach config h = .ok j h') :
      Survived dir (.start j h')
  | served {σ : Session} {request : Request} (hsurvived : Survived dir σ) (hids : σ.IdsLeft)
      (hvalid : request.ValidIn dir) : Survived dir (σ.serve request)
  /-- An append that has placed its record and got no further. -/
  | placed {σ : Session} {j : Journal} {o : Over Journal Host} {t : Transaction}
      {header : RecordHeader} {id : UInt64} (hsurvived : Survived dir σ) (hids : σ.IdsLeft)
      (hj : σ.journal? = some j) (hplace : place t ⟨j, σ.host⟩ = .ok header o)
      (hid : activeId o = .ok id o) : Survived dir (σ.on o (.appended t (.ok ⟨id, header⟩)))
  | torn {σ : Session} {j j' : Journal} {config : Config} {id : UInt64} {stage : Stage}
      {h₁ h' : Host} (hsurvived : Survived dir σ) (hids : σ.IdsLeft) (hj : σ.journal? = some j)
      (hid : activeId ⟨j, σ.host⟩ = .ok id ⟨j, σ.host⟩) (hdir : config.logDir = dir)
      (hfree : σ.host.disk.find (Host.segmentPath dir (id + 1)) = .error .notFound)
      (hbegin : beginLogFile dir (id + 1) config.segmentCapacity stage σ.host = .ok () h₁)
      (hattach : attach config h₁.rebooted = .ok j' h') :
      Survived dir (σ.on ⟨j', h'⟩ (.opened (.ok ())))

/-- What a journal takes up that is opened after the segment behind `s`, the active one, was begun:
that segment, with nothing in it, or the active one if there is nothing of the next. -/
structure TakesUp (config : Config) (s : Segment) (stage : Stage)
    (records : List (Appended × Transaction)) (j : Journal) (h : Host) (s' : Segment) : Prop where
  segment : segmentOf j.active h = .ok s' h
  shows : Shows records ((List.range' 1 s'.id.toNat).map UInt64.ofNat) j h
  absent : stage = .absent → s'.id = s.id ∧ s'.cursors = s.cursors
  begun : stage ≠ .absent → s'.id = s.id + 1 ∧ s'.capacity = config.segmentCapacity ∧
    s'.cursors = .ofCapacity config.segmentCapacity ∧ j.charged = 0

section Torn

variable {dir : Path} {trail : List DirectoryRef} {f : LogFile} {older : List LogFile}
  {records : List (Appended × Transaction)} {n : Nat} {j : Journal} {h : Host} {s : Segment}
  {config : Config} {t : Transaction} {o : Over Journal Host}

theorem Active.lookup_next (hactive : Active dir trail f older o)
    (hfree : o.base.disk.find (Host.segmentPath dir (idAt (f :: older).length)) =
      .error .notFound) :
    (o.base.disk.children (Disk.lastOf trail)).lookup
      (FileName.of .log (idAt (f :: older).length)) = none :=
  Disk.lookup_of_find_join hactive.files.leads (FileName.plainName .log _)
    (hactive.files.accepted _) (Host.maxNameBytes_of .log _) hfree

theorem Active.takesUp (hactive : Active config.logDir trail f older ⟨j, h⟩)
    (hcount : (f :: older).length + 1 < UInt64.size) (hcheck : config.check = .ok ())
    (hfree : h.disk.find (Host.segmentPath config.logDir (idAt (f :: older).length)) =
      .error .notFound)
    (hsegment : segmentOf j.active h = .ok s h) (stage : Stage) :
    ∃ h₁ j' h' s' m, beginLogFile config.logDir (idAt (f :: older).length) config.segmentCapacity
        stage h = .ok () h₁ ∧
      Journal.attach config h₁.rebooted = .ok j' h' ∧
      TakesUp config s stage (recordsIn (f :: older)) j' h' s' ∧
      Carries config.logDir (recordsIn (f :: older)) m ⟨j', h'⟩ := by
  have hbefore : (f :: older).length < UInt64.size := Nat.lt_of_succ_lt hcount
  obtain ⟨s₀, href, hid, hmodels⟩ := hactive.segment
  cases (segmentOf_eq href).symm.trans hsegment
  by_cases hstage : stage = .absent
  · subst hstage
    have hfiles : Files config.logDir trail (f :: older) h.rebooted.disk := hactive.files
    obtain ⟨ref, s₁, h', hattach, -, -, hnext⟩ := hfiles.attach hbefore hcheck
    obtain ⟨s', href', hid', hmodels'⟩ := hnext.segment
    have hcarries : Carries config.logDir (recordsIn (f :: older)) (f :: older).length _ :=
      ⟨trail, f, older, hnext, rfl, rfl⟩
    refine ⟨h, _, h', s', _, rfl, hattach, ⟨segmentOf_eq href', ?_, ?_, fun h => absurd rfl h⟩,
      hcarries⟩
    · rw [hid', toNat_idAt hbefore, ← List.length_cons, ← map_idAt_range]
      exact hcarries.shows hbefore
    · exact fun _ => ⟨hid'.trans hid.symm, hmodels'.cursors_eq hmodels⟩
  · obtain ⟨h₁, ref, s₁, h', r, hbegin, hattach, hused, hnext⟩ :=
      hactive.files.attach_begun hcount hcheck (hactive.lookup_next hfree) hstage
    obtain ⟨s', href', hid', hmodels'⟩ := hnext.segment
    have hsame : recordsIn (⟨r, ⟨config.segmentCapacity, []⟩⟩ :: f :: older) = _ :=
      recordsIn_cons_of_empty rfl _
    have hcarries : Carries config.logDir (recordsIn (f :: older)) ((f :: older).length + 1) _ :=
      ⟨trail, _, f :: older, hnext, hsame, rfl⟩
    refine ⟨h₁, _, h', s', _, hbegin, hattach,
      ⟨segmentOf_eq href', ?_, fun h => absurd h hstage, fun _ => ⟨?_, hmodels'.capacity,
        hmodels'.cursors_of_empty rfl, ?_⟩⟩, hcarries⟩
    · rw [hid', toNat_idAt hcount, ← map_idAt_range]
      exact hcarries.shows hcount
    · rw [hid', hid, List.length_cons, idAt_succ]
    · rw [opened, hused]
      rfl

/-- There is room for a record of `length` bytes: in the active segment `s`, or in the next one,
whose name is free. -/
def HasRoom (dir : Path) (j : Journal) (h : Host) (s : Segment) (length : Nat) : Prop :=
  (length : Int) ≤ s.space ∨ h.disk.find (Host.segmentPath dir (s.id + 1)) = .error .notFound ∧
    wordSize + length ≤ j.segmentCapacity.toNat

theorem Active.place_of_hasRoom (hactive : Active dir trail f older ⟨j, h⟩)
    (hcount : (f :: older).length < UInt64.size) (hsegment : segmentOf j.active h = .ok s h)
    (hw : t.Writable) (hroom : HasRoom dir j h s (recordHeaderSize + t.encodedLength)) :
    ∃ header o', place t ⟨j, h⟩ = .ok header o' := by
  obtain ⟨s₀, href, hid, hmodels⟩ := hactive.segment
  cases (segmentOf_eq href).symm.trans hsegment
  rw [HasRoom, hmodels.space_eq, Int.ofNat_le] at hroom
  by_cases hfits : recordHeaderSize + t.encodedLength ≤ f.ledger.room
  · obtain ⟨base, happend, -⟩ := hactive.append_of_accepts ⟨hw, hfits⟩
    exact ⟨_, _, place_of_ok happend⟩
  · obtain ⟨hfree, hcapacity⟩ := hroom.resolve_left hfits
    rw [hid, ← idAt_succ] at hfree
    rcases hactive.advance hcount with
      ⟨r, active, base, hadvance, -, hnext⟩ | ⟨⟨inner, hother⟩, -⟩
    · have hempty : (⟨j.segmentCapacity, []⟩ : Ledger).room = j.segmentCapacity.toNat - wordSize :=
        rfl
      obtain ⟨base', happend, -⟩ :=
        hnext.append_of_accepts ⟨hw, hempty ▸ Nat.le_sub_of_add_le' hcapacity⟩
      have hplace := place_of_full (hactive.held.append_of_full hw hfits) rfl
      rw [Action.bind_of_ok hadvance, happend] at hplace
      exact ⟨_, _, hplace⟩
    · cases (hactive.lookup_next hfree).symm.trans hother

end Torn

theorem Survived.follows {dir : Path} {σ : Session} (hsurvived : Survived dir σ) :
    ∃ n, Follows dir n σ := by
  induction hsurvived with
  | opened hdir hunused hattach =>
    subst hdir
    exact ⟨1, _, 1, rfl, carries_of_attach hunused hattach, Nat.le_refl 1⟩
  | served _ hids hvalid ih =>
    obtain ⟨n, hfollows⟩ := ih
    exact ⟨_, hfollows.serve hids hvalid⟩
  | placed _ hids hj hplace hid ih =>
    obtain ⟨n, j', m, hj', hcarries, -⟩ := ih
    cases hj.symm.trans hj'
    have hlt := hcarries.lt_of_ids fun ids h' => hids _ ids h' hj
    rcases hcarries.place (Nat.lt_of_succ_lt hlt) _ with
      ⟨header, id, o₁, k, hplace', hid', hplaced, -⟩ | ⟨e, o₁, k, hplace', -⟩
    · cases hplace'.symm.trans hplace
      cases hid'.symm.trans hid
      exact ⟨k, Follows.on_appended hplaced⟩
    · cases hplace'.symm.trans hplace
  | torn _ hids hj hid hdir hfree hbegin hattach ih =>
    obtain ⟨n, j', m, hj', hcarries, -⟩ := ih
    cases hj.symm.trans hj'
    subst hdir
    have hlt := hcarries.lt_of_ids fun ids h' => hids _ ids h' hj
    obtain ⟨trail, f, older, hactive, hrecords, rfl⟩ := hcarries
    cases hid.symm.trans hactive.held.activeId_eq
    rw [← idAt_succ] at hfree hbegin
    obtain ⟨s, href, -⟩ := hactive.segment
    obtain ⟨h₂, j₂, h₃, s', k, hbegin', hattach', -, hnext⟩ := hactive.takesUp hlt
      (cases_of_attach hattach).1 hfree (segmentOf_eq href) _
    cases hbegin'.symm.trans hbegin
    cases hattach'.symm.trans hattach
    rw [hrecords] at hnext
    exact ⟨k, Follows.on_quiet hnext rfl⟩

/-- Nothing is lost when a journal is torn away from its next segment. -/
theorem creation_survives_crash {dir : Path} {σ : Session} (hsurvived : Survived dir σ)
    (hids : σ.IdsLeft) :
    ∃ j s, σ.journal? = some j ∧ segmentOf j.active σ.host = .ok s σ.host ∧
      Shows (acks σ.past) ((List.range' 1 s.id.toNat).map UInt64.ofNat) j σ.host ∧
      (∀ t body, t.encode = .ok body →
        HasRoom dir j σ.host s (recordHeaderSize + body.length) →
        ∃ a o, append t ⟨j, σ.host⟩ = .ok a o ∧ Survived dir (σ.on o (.appended t (.ok a)))) ∧
      ∀ config stage, config.check = .ok () → config.logDir = dir →
        σ.host.disk.find (Host.segmentPath dir (s.id + 1)) = .error .notFound →
        ∃ h₁ j' h' s', beginLogFile dir (s.id + 1) config.segmentCapacity stage σ.host =
            .ok () h₁ ∧
          attach config h₁.rebooted = .ok j' h' ∧
          TakesUp config s stage (acks σ.past) j' h' s' ∧
          Survived dir (σ.on ⟨j', h'⟩ (.opened (.ok ()))) := by
  obtain ⟨n, j, m, hj, hcarries, -⟩ := hsurvived.follows
  have hlt := hcarries.lt_of_ids fun ids h' => hids _ ids h' hj
  have hbefore := Nat.lt_of_succ_lt hlt
  obtain ⟨trail, f, older, hactive, hrecords, rfl⟩ := id hcarries
  obtain ⟨s, href, hid, -⟩ := hactive.segment
  have hsegment := segmentOf_eq href
  refine ⟨j, s, hj, hsegment, ?_, ?_, ?_⟩
  · rw [hid, toNat_idAt hbefore, ← List.length_cons, ← map_idAt_range]
    exact hcarries.shows hbefore
  · intro t body hencode hroom
    obtain ⟨hw, rfl⟩ := Transaction.encode_eq_ok_iff.1 hencode
    rw [t.length_layout] at hroom
    obtain ⟨header, o₁, hplace⟩ := hactive.place_of_hasRoom hbefore hsegment hw hroom
    rcases hcarries.place hbefore t with
      ⟨header', id, o₂, k, hplace', hid', hplaced, hk⟩ | ⟨e, o₂, k, hplace', -⟩
    · obtain ⟨o', k', happend, -⟩ :=
        hplaced.append_of_placed (Nat.lt_of_le_of_lt hk hlt) hplace' hid'
      have hserved : Survived dir (σ.serve (.append t)) := hsurvived.served hids trivial
      rw [Session.serve_append_of_ok hj happend] at hserved
      exact ⟨_, o', happend, hserved⟩
    · cases hplace'.symm.trans hplace
  · intro config stage hcheck hdir hfree
    subst hdir
    have hsucc : s.id + 1 = idAt (f :: older).length := by
      rw [hid, List.length_cons, idAt_succ]
    have hactiveId : activeId ⟨j, σ.host⟩ = .ok s.id ⟨j, σ.host⟩ := activeId_of_segmentOf hsegment
    obtain ⟨h₁, j', h', s', k, hbegin, hattach, htakes, -⟩ :=
      hactive.takesUp hlt hcheck (hsucc ▸ hfree) hsegment stage
    rw [← hsucc] at hbegin
    rw [hrecords] at htakes
    exact ⟨h₁, j', h', s', hbegin, hattach, htakes,
      hsurvived.torn hids hj hactiveId rfl hfree hbegin hattach⟩

/-- Settings under which a segment has room for one record. -/
def narrowConfig : Config := { logDir := ⟨"wal"⟩, segmentCapacity := 64 }

/-- A record is put in the first segment, and nothing has the name of the second one. -/
theorem survived_narrow {t : Transaction} (hencode : t.encode = .ok t.layout)
    (hlength : recordHeaderSize + t.layout.length = 56) :
    ∃ j h a o, attach narrowConfig Host.empty = .ok j h ∧ append t ⟨j, h⟩ = .ok a o ∧
      Survived ⟨"wal"⟩ ((Session.start j h).on o (.appended t (.ok a))) ∧
      ((Session.start j h).on o (.appended t (.ok a))).IdsLeft ∧ activeId o = .ok 1 o ∧
      o.base.disk.find (Host.segmentPath ⟨"wal"⟩ 2) = .error .notFound := by
  have hmake : Host.makeDirectory ⟨"wal"⟩ Host.empty =
      .ok () { disk := { directories := #[[], [("wal", .directory ⟨2⟩)], []] } } := rfl
  have hvacant : Host.empty.Vacant ⟨"wal"⟩ := ⟨_, _, _, hmake, rfl, rfl, rfl⟩
  have hunused : Host.empty.Unused ⟨"wal"⟩ := Host.unused_of_absent rfl (by decide)
  have hcheck : narrowConfig.check = .ok () := rfl
  obtain ⟨j, h, hattach, hstands⟩ := @Stands.of_vacant narrowConfig _ hvacant hcheck
  have hgauge : Gauge.append narrowConfig t {} = (.ok 1, ⟨1, 56⟩) := by
    rw [Gauge.append_of_encode hencode, hlength]
    rfl
  have hplaced := hstands.append (Nat.zero_le _) t (hgauge ▸ by decide)
  rw [hgauge] at hplaced
  obtain ⟨a, o, happend, -, hnext⟩ := hplaced.resolve_right fun ⟨e, o, _, herror, _⟩ => by
    cases herror
  have hstart : Follows ⟨"wal"⟩ 1 (.start j h) :=
    ⟨j, 1, rfl, carries_of_attach hunused hattach, Nat.le_refl 1⟩
  have hserved : (Session.start j h).serve (.append t) = _ := Session.serve_append_of_ok rfl happend
  have hrequest : (Request.append t).ValidIn ⟨"wal"⟩ := trivial
  have hfirst := hstart.idsLeft (by decide)
  have hsurvived := (Survived.opened rfl hunused hattach).served hfirst hrequest
  have hids := (hstart.serve hfirst hrequest).idsLeft (by decide)
  rw [hserved] at hsurvived hids
  refine ⟨j, h, a, o, hattach, happend, hsurvived, hids, hnext.activeId_eq, ?_⟩
  obtain ⟨trail, f, older, hlaid, -, hcount, -⟩ := hnext
  have hlength : (f :: older).length = 1 := hcount
  have hfree := hlaid.lookup_next (hlength ▸ by decide)
  rw [hlength] at hfree
  exact Disk.find_join_of_free hlaid.active.files.leads (FileName.plainName .log 2) rfl
    (Host.maxNameBytes_of .log 2) hfree

/-- A record in the first segment, and five bytes of the word of the second one. -/
theorem creation_survives_crash_torn_word :
    let t : Transaction := { id := 7, changes := [.delete [97]] }
    ∃ j h a o, attach narrowConfig Host.empty = .ok j h ∧ append t ⟨j, h⟩ = .ok a o ∧
      ∃ h₁ j' h', beginLogFile ⟨"wal"⟩ 2 64 (.word 5) o.base = .ok () h₁ ∧
        attach narrowConfig h₁.rebooted = .ok j' h' ∧ Shows [(a, t)] [1, 2] j' h' ∧
        ∃ a' o', append t ⟨j', h'⟩ = .ok a' o' := by
  intro t
  have hencode : t.encode = .ok t.layout := rfl
  have hlength : recordHeaderSize + t.layout.length = 56 := by decide
  obtain ⟨j, h, a, o, hattach, happend, hsurvived, hids, hactive, hfree⟩ :=
    survived_narrow hencode hlength
  obtain ⟨j₁, s, hj₁, hsegment, -, -, htorn⟩ := creation_survives_crash hsurvived hids
  cases hj₁
  have hid : s.id = 1 := by
    injection (activeId_of_segmentOf hsegment).symm.trans hactive
  obtain ⟨h₁, j', h', s', hbegin, hagain, htakes, hsurvived'⟩ :=
    htorn narrowConfig (.word 5) rfl rfl (hid.symm ▸ hfree)
  obtain ⟨hid', hcapacity, hcursors, -⟩ := htakes.begun (by decide)
  have hshows : Shows [(a, t)] [1, 2] j' h' := by
    have hshown := htakes.shows
    rwa [hid', hid] at hshown
  rw [hid] at hbegin
  refine ⟨j, h, a, o, hattach, happend, h₁, j', h', hbegin, hagain, hshows, ?_⟩
  have hfew : ∀ id ∈ ([1, 2] : List UInt64), id.toNat + 1 < UInt64.size :=
    List.forall_mem_cons.2 ⟨by decide, List.forall_mem_singleton.2 (by decide)⟩
  have hids' : ((Session.start j h).on o (.appended t (.ok a)) |>.on ⟨j', h'⟩
      (.opened (.ok ()))).IdsLeft := by
    intro j₂ ids h₂ hj₂ hlist id hmem
    cases hj₂
    cases hlist.symm.trans hshows.ids_eq
    exact hfew id hmem
  obtain ⟨j₂, s₂, hj₂, hsegment₂, -, hgrows, -⟩ := creation_survives_crash hsurvived' hids'
  cases hj₂
  cases hsegment₂.symm.trans htakes.segment
  have hroom : HasRoom ⟨"wal"⟩ j' h' s' (recordHeaderSize + t.layout.length) := by
    rw [HasRoom, hlength, space, hcursors]
    exact .inl (by decide)
  obtain ⟨a', o', happend', -⟩ := hgrows t _ hencode hroom
  exact ⟨a', o', happend'⟩

end Journal

end AppendStore
