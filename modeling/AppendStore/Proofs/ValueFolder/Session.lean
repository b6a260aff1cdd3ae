import AppendStore.Proofs.ValueFolder.Files

/-!
# Sessions of a value folder

A session stores values in any files of a folder, reads, closes files, makes them durable,
and gives the folder up for a new one on the same directory. It remembers the pointers that
it was given with the values they stand for.

A folder in order stays in order (`Session.Valid.serve`), so at the end of every run each
pointer is read as its value, a value that is stored touches no file but its own, and nothing
else touches any: `ValueFolder.pointers_stay_valid`.
-/

namespace AppendStore

namespace ValueFolder

open ValueFile (storedLength)
open Host (valueFilePath)

inductive Request where
  | write (id : UInt64) (value : Bytes)
  | read (p : ValuePointer)
  | close (id : UInt64)
  | sync
  | reopen

/-- A folder at work. `stored` are the pointers it has answered and the values they stand for, the
newest first. -/
structure Session where
  folder : ValueFolder
  host : Host
  stored : List (ValuePointer × Bytes) := []

namespace Session

def onto {α : Type} (σ : Session) :
    EStateM.Result StoreError (Over ValueFolder Host) α → Session
  | .ok _ o => { σ with folder := o.item, host := o.base }
  | .error _ o => { σ with folder := o.item, host := o.base }

/-- Serves a request. A folder is reopened by opening one on the same directory. -/
def serve (σ : Session) : Request → Session
  | .write id value =>
    match ValueFolder.write id value ⟨σ.folder, σ.host⟩ with
    | .ok p o => { folder := o.item, host := o.base, stored := (p, value) :: σ.stored }
    | .error _ o => { σ with folder := o.item, host := o.base }
  | .read p => σ.onto (ValueFolder.read p ⟨σ.folder, σ.host⟩)
  | .close id => σ.onto (ValueFolder.close id ⟨σ.folder, σ.host⟩)
  | .sync => σ.onto (ValueFolder.sync ⟨σ.folder, σ.host⟩)
  | .reopen =>
    match attach σ.folder.dir σ.host with
    | .ok v h => { σ with folder := v, host := h }
    | .error _ h => { σ with host := h }

def run (σ : Session) (requests : List Request) : Session := requests.foldl serve σ

/-- A value that is to be stored ends below 2^64. -/
def RoomFor (σ : Session) : Request → Prop
  | .write id value => σ.folder.offsetOf id σ.host + storedLength value < UInt64.size
  | _ => True

instance (σ : Session) : DecidablePred σ.RoomFor
  | .write _ _ => Nat.decLt _ _
  | .read _ | .close _ | .sync | .reopen => .isTrue trivial

def RoomIn : Session → List Request → Prop
  | _, [] => True
  | σ, request :: rest => σ.RoomFor request ∧ (σ.serve request).RoomIn rest

instance RoomIn.decidable : (σ : Session) → (requests : List Request) →
    Decidable (σ.RoomIn requests)
  | _, [] => .isTrue trivial
  | σ, request :: rest =>
    have := RoomIn.decidable (σ.serve request) rest
    inferInstanceAs (Decidable (σ.RoomFor request ∧ (σ.serve request).RoomIn rest))

/-- The names whose files a request can change. -/
def touched (σ : Session) : Request → DirectoryRef → String → Prop
  | .write id _ => σ.host.disk.Locates (valueFilePath σ.folder.dir id)
  | _ => fun _ _ => False

/-- The folder is in order and holds what was stored in it. -/
structure Valid (σ : Session) : Prop where
  sound : σ.folder.Sound σ.host
  held : ∀ e ∈ σ.stored, Holds σ.host.disk σ.folder.dir e.1 e.2

variable {σ : Session} {request : Request} {requests : List Request}

/-- Nothing is lost in a step that stores nothing. -/
theorem Valid.step {P : DirectoryRef → String → Prop} {v : ValueFolder} {h : Host}
    (hvalid : σ.Valid) (hstep : Step P σ.folder σ.host v h) :
    ({ σ with folder := v, host := h } : Session).Valid :=
  ⟨hstep.sound, fun e he => hstep.dir ▸ hstep.kept e.1 e.2 (hvalid.held e he)⟩

/-- Every request is a step, and the value that it stores is held. -/
theorem Valid.serve (hvalid : σ.Valid) (hroom : σ.RoomFor request) :
    (σ.serve request).Valid ∧
      Step (σ.touched request) σ.folder σ.host (σ.serve request).folder (σ.serve request).host := by
  have hs := hvalid.sound
  cases request with
  | write id value =>
    rcases hs.write_cases hroom with ⟨e, herror⟩ | ⟨p, v', h', hok, hstores⟩
    · simp only [Session.serve, herror]
      exact ⟨hvalid, hs.refl _⟩
    · simp only [Session.serve, hok]
      have hnext := hvalid.step hstores.toStep
      refine ⟨⟨hnext.sound, fun e he => ?_⟩, hstores.toStep⟩
      rcases List.mem_cons.1 he with rfl | he
      · exact hstores.dir ▸ hstores.holds
      · exact hnext.held e he
  | read p =>
    rcases hs.read_cases p with
      ⟨e, herror, -⟩ | ⟨v', h', hdisk, hstep, -, ⟨value, hok⟩ | ⟨e, herror, -⟩⟩
    · simp only [Session.serve, herror, onto]
      exact ⟨hvalid, hs.refl _⟩
    · simp only [Session.serve, hok, onto]
      exact ⟨hvalid.step hstep, hstep⟩
    · simp only [Session.serve, herror, onto]
      exact ⟨hvalid.step hstep, hstep⟩
  | close id =>
    obtain ⟨v', hok, hstep⟩ := hs.close id
    simp only [Session.serve, hok, onto]
    exact ⟨hvalid.step hstep, hstep⟩
  | sync =>
    simp only [Session.serve, hs.sync, onto]
    exact ⟨hvalid, hs.refl _⟩
  | reopen =>
    have hstep : Step (fun _ _ => False) σ.folder σ.host { dir := σ.folder.dir } σ.host :=
      ⟨sound_of_has hs.has hs.linked hs.healthy, rfl, .refl _ _, fun _ => .refl _ _,
        fun _ _ hholds => hholds, rfl⟩
    simp only [Session.serve, attach_of_has hs.has]
    exact ⟨hvalid.step hstep, hstep⟩

theorem Valid.run (hvalid : σ.Valid) (hroom : σ.RoomIn requests) : (σ.run requests).Valid := by
  induction requests generalizing σ with
  | nil => exact hvalid
  | cons request rest ih => exact ih (hvalid.serve hroom.1).1 hroom.2

/-- Only a value that is stored changes the disk. -/
theorem Valid.disk_serve (hvalid : σ.Valid) (hquiet : ∀ id value, request ≠ .write id value) :
    (σ.serve request).host.disk = σ.host.disk := by
  have hs := hvalid.sound
  cases request with
  | write id value => exact absurd rfl (hquiet id value)
  | read p =>
    rcases hs.read_cases p with
      ⟨e, herror, -⟩ | ⟨v', h', hdisk, hstep, -, ⟨value, hok⟩ | ⟨e, herror, -⟩⟩
    · simp only [Session.serve, herror, onto]
    · simp only [Session.serve, hok, onto, hdisk]
    · simp only [Session.serve, herror, onto, hdisk]
  | close id =>
    obtain ⟨v', hok, -⟩ := hs.close id
    simp only [Session.serve, hok, onto]
  | sync => simp only [Session.serve, hs.sync, onto]
  | reopen => simp only [Session.serve, attach_of_has hs.has]

/-- What a session shows of the values it has stored and of the files around them. -/
structure Intact (σ : Session) : Prop where
  sizes : ∀ e ∈ σ.stored, e.1.size = e.2.length
  read_back : ∀ e ∈ σ.stored, ∃ o, ValueFolder.read e.1 ⟨σ.folder, σ.host⟩ = .ok e.2 o
  /-- A value that is stored in one file changes no other. -/
  write_touches : ∀ id value, σ.RoomFor (.write id value) →
    Disk.Touches (σ.host.disk.Locates (valueFilePath σ.folder.dir id)) σ.host.disk
      (σ.serve (.write id value)).host.disk
  /-- Everything else leaves the disk as it is, and makes no file. -/
  quiet : ∀ request, (∀ id value, request ≠ .write id value) →
    (σ.serve request).host.disk = σ.host.disk
  /-- A read that finds no file opens none. -/
  not_found : ∀ p e o, ValueFolder.read p ⟨σ.folder, σ.host⟩ = .error (.io e) o →
    o = ⟨σ.folder, σ.host⟩
  /-- The folder can be given up for a new one. -/
  reopens : attach σ.folder.dir σ.host = .ok { dir := σ.folder.dir } σ.host

theorem Valid.intact (hvalid : σ.Valid) : σ.Intact where
  sizes := fun e he => (hvalid.held e he).1
  read_back := fun e he => by
    have hheld := hvalid.held e he
    rcases hvalid.sound.read_cases e.1 with ⟨io, -, hnone⟩ | ⟨v', h', -, -, hread, -⟩
    · exact absurd hheld (hnone e.2)
    · exact ⟨⟨v', h'⟩, hread e.2 hheld⟩
  write_touches := fun id value hroom => (hvalid.serve hroom).2.touches
  quiet := fun _ hquiet => hvalid.disk_serve hquiet
  not_found := fun p e o hread => by
    rcases hvalid.sound.read_cases p with
      ⟨io, herror, -⟩ | ⟨v', h', -, -, -, ⟨value, hok⟩ | ⟨e', herror, hio⟩⟩
    · cases herror.symm.trans hread
      rfl
    · cases hok.symm.trans hread
    · cases herror.symm.trans hread
      exact absurd rfl (hio e)
  reopens := attach_of_has hvalid.sound.has

end Session

/-- In a folder whose files are healthy, every pointer that was answered is read as its value after
every run of requests, as long as the files stay below 2^64 bytes. -/
theorem pointers_stay_valid {dir : Path} {h h' : Host} {v : ValueFolder}
    (hlinked : h.disk.Linked) (hhealthy : EachFile ByteStore.Healthy h.disk)
    (hattach : attach dir h = .ok v h') {requests : List Request}
    (hroom : ({ folder := v, host := h' } : Session).RoomIn requests) :
    (({ folder := v, host := h' } : Session).run requests).Intact := by
  obtain ⟨rfl, hhas, hlinked', hhealthy'⟩ := attach_eq_ok hlinked hhealthy hattach
  have hstart : ({ folder := { dir }, host := h' } : Session).Valid :=
    ⟨sound_of_has hhas hlinked' hhealthy', nofun⟩
  exact (hstart.run hroom).intact

/-- Two files, one of them closed in between, and a pointer to nothing. -/
theorem pointers_stay_valid_two_files :
    let folder : ValueFolder := { dir := ⟨"v"⟩ }
    let host : Host := { disk := { directories := #[[], [("v", .directory ⟨2⟩)], []] } }
    let σ : Session := { folder, host }
    let requests := [.write 1 [10], .read ⟨7, 0, 1⟩, .close 1, .write 1 [20, 30], .sync,
      .write 2 [], .reopen, .write 2 [40]]
    Host.empty.disk.Linked ∧ EachFile ByteStore.Healthy Host.empty.disk ∧
      attach ⟨"v"⟩ Host.empty = .ok folder host ∧ σ.RoomIn requests ∧
      (σ.run requests).stored = [(⟨2, 4, 1⟩, [40]), (⟨2, 0, 0⟩, []), (⟨1, 5, 2⟩, [20, 30]),
        (⟨1, 0, 1⟩, [10])] ∧
      (σ.run requests).Intact := by
  intro folder host σ requests
  have hattach : attach ⟨"v"⟩ Host.empty = .ok folder host := rfl
  have hroom : σ.RoomIn requests := by decide +kernel
  exact ⟨.empty, eachFile_empty _, hattach, hroom, by decide +kernel,
    pointers_stay_valid .empty (eachFile_empty _) hattach hroom⟩

end ValueFolder

end AppendStore
