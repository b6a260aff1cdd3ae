import AppendStore.Proofs.Journal.Session
import AppendStore.Proofs.Store.Order

/-!
# Sessions of a store

A session commits transactions, stores their values in any files, reads values back, makes
everything durable, and closes the store to open it again with the same settings. It
remembers what was committed, and the pointers that it was given with the values they stand
for.

A store that is in order stays so whatever is asked of it (`Session.Valid.serve`). So after
every run its log and its values are still `Session.Apart`, whatever was in the log at first.
If that was the log of a journal, then it has all that was committed since
(`Session.Recorded.serve`), and it is `Session.Complete`. `Store.log_and_values_apart` says
both.
-/

namespace AppendStore

namespace Store

open ValueFile (storedBytes)
open ValueFolder (Holds EachFile Step pointersFrom)
open Host (valueFilePath)

inductive Request where
  | commit (t : Transaction)
  | storeValues (id : UInt64) (t : Transaction)
  | valueAt (p : ValuePointer)
  | sync
  /-- To be closed, and opened again with the same settings. -/
  | reopen

/-- A store at work, with the transactions it has committed and where they went, and the pointers it
has answered and the values they stand for, both in order. There is no store when it was closed and
could not be opened again. -/
structure Session where
  config : Config
  store? : Option Store
  host : Host
  committed : List (Appended × Transaction)
  stored : List (ValuePointer × Bytes) := []

def reopened (s : Store) : Action Host Store := do
  s.close
  attach s.config

namespace Session

def left (σ : Session) (o : Over Store Host) : Session :=
  { σ with store? := some o.item, host := o.base }

def onto {α : Type} (σ : Session) : EStateM.Result StoreError (Over Store Host) α → Session
  | .ok _ o | .error _ o => σ.left o

def opened (σ : Session) : EStateM.Result StoreError Host Store → Session
  | .ok s h => { σ with store? := some s, host := h }
  | .error _ h => { σ with store? := none, host := h }

def serveWith (σ : Session) (s : Store) : Request → Session
  | .commit t =>
    match Store.commit t ⟨s, σ.host⟩ with
    | .ok a o => { σ.left o with committed := σ.committed ++ [(a, t)] }
    | .error _ o => σ.left o
  | .storeValues id t =>
    match Store.storeValues id t ⟨s, σ.host⟩ with
    | .ok ps o => { σ.left o with stored := σ.stored ++ ps.zip t.values }
    | .error _ o => σ.left o
  | .valueAt p => σ.onto (Store.valueAt p ⟨s, σ.host⟩)
  | .sync => σ.onto (Store.sync ⟨s, σ.host⟩)
  | .reopen => σ.opened (reopened s σ.host)

def serveClosed (σ : Session) : Request → Session
  | .reopen => σ.opened (attach σ.config σ.host)
  | .commit _ | .storeValues _ _ | .valueAt _ | .sync => σ

def serve (σ : Session) (request : Request) : Session :=
  match σ.store? with
  | some s => σ.serveWith s request
  | none => σ.serveClosed request

def run (σ : Session) (requests : List Request) : Session := requests.foldl serve σ

/-- The session on a store that was just opened on a log with the given records, if it could be. -/
def start? (config : Config) (h : Host) (records : List (Appended × Transaction)) :
    Option Session :=
  match attach config h with
  | .ok s h' => some { config, store? := some s, host := h', committed := records }
  | .error _ _ => none

/-- Values that are to be stored end below 2^64. -/
def RoomFor (σ : Session) : Request → Prop
  | .storeValues id t =>
    ∀ s ∈ σ.store?, s.values.offsetOf id σ.host + storedBytes t.values < UInt64.size
  | _ => True

instance RoomFor.decidable (σ : Session) : DecidablePred σ.RoomFor
  | .storeValues id t => inferInstanceAs (Decidable (∀ s ∈ σ.store?,
      s.values.offsetOf id σ.host + storedBytes t.values < UInt64.size))
  | .commit _ | .valueAt _ | .sync | .reopen => .isTrue trivial

def RoomIn : Session → List Request → Prop
  | _, [] => True
  | σ, request :: rest => σ.RoomFor request ∧ (σ.serve request).RoomIn rest

instance RoomIn.decidable : (σ : Session) → (requests : List Request) →
    Decidable (σ.RoomIn requests)
  | _, [] => .isTrue trivial
  | σ, request :: rest =>
    have := RoomIn.decidable (σ.serve request) rest
    inferInstanceAs (Decidable (σ.RoomFor request ∧ (σ.serve request).RoomIn rest))

/-- No segment that is listed has the last of all ids. -/
def IdsLeftIn (h : Host) (j : Journal) : Prop :=
  ∀ ids h', j.ids h = .ok ids h' → ∀ id ∈ ids, id.toNat + 1 < UInt64.size

instance IdsLeftIn.decidable (h : Host) : DecidablePred (IdsLeftIn h) := fun j =>
  match hids : j.ids h with
  | .ok ids h' =>
    have := List.decidableBAll (fun id : UInt64 => id.toNat + 1 < UInt64.size) ids
    decidable_of_iff (∀ id ∈ ids, id.toNat + 1 < UInt64.size)
      ⟨fun hall _ _ hok => by cases hids.symm.trans hok; exact hall, fun hall => hall ids h' hids⟩
  | .error _ _ => .isTrue fun _ _ hok => by cases hids.symm.trans hok

def IdsLeft (σ : Session) : Prop := ∀ s ∈ σ.store?, IdsLeftIn σ.host s.journal

instance (σ : Session) : Decidable σ.IdsLeft :=
  inferInstanceAs (Decidable (∀ s ∈ σ.store?, IdsLeftIn σ.host s.journal))

def IdsIn : Session → List Request → Prop
  | σ, [] => σ.IdsLeft
  | σ, request :: rest => σ.IdsLeft ∧ (σ.serve request).IdsIn rest

instance IdsIn.decidable : (σ : Session) → (requests : List Request) →
    Decidable (σ.IdsIn requests)
  | σ, [] => inferInstanceAs (Decidable σ.IdsLeft)
  | σ, request :: rest =>
    have := IdsIn.decidable (σ.serve request) rest
    inferInstanceAs (Decidable (σ.IdsLeft ∧ (σ.serve request).IdsIn rest))

/-- The values that were stored are there, and the store is in order if there is one. -/
structure Valid (σ : Session) : Prop where
  linked : σ.host.disk.Linked
  healthy : EachFile ByteStore.Healthy σ.host.disk
  held : ∀ e ∈ σ.stored, Holds σ.host.disk σ.config.valueDir e.1 e.2
  store : ∀ {s : Store}, σ.store? = some s → s.InOrder σ.config σ.host

variable {σ : Session} {s : Store} {request : Request} {requests : List Request}

theorem serve_of_some (hs : σ.store? = some s) : σ.serve request = σ.serveWith s request := by
  unfold serve
  rw [hs]

theorem serve_of_none (hs : σ.store? = none) : σ.serve request = σ.serveClosed request := by
  unfold serve
  rw [hs]

theorem Valid.closed (hvalid : σ.Valid) {h : Host} (hlinked : h.disk.Linked)
    (hspares : σ.host.disk.Spares .value h.disk) :
    ({ σ with store? := none, host := h } : Session).Valid where
  linked := hlinked
  healthy := hvalid.healthy.spared hspares
  held := fun e he => (hvalid.held e he).spared hspares
  store := nofun

theorem Valid.opened (hvalid : σ.Valid) : (σ.opened (attach σ.config σ.host)).Valid := by
  rcases attach_cases hvalid.linked hvalid.healthy σ.config with
    ⟨e, h, herror, hlinked, hspares⟩ | ⟨s, h, hok, hnext, hspares⟩
  · rw [herror]
    exact hvalid.closed hlinked hspares
  · rw [hok]
    have hclosed := hvalid.closed hnext.sound.linked hspares
    exact ⟨hclosed.linked, hclosed.healthy, hclosed.held, fun heq => Option.some.inj heq ▸ hnext⟩

theorem Valid.onJournal (hvalid : σ.Valid) (hs : σ.store? = some s) {o : Over Journal Host}
    (hworks : Journal.Works σ.host o) (committed : List (Appended × Transaction)) :
    ({ σ.left ⟨{ s with journal := o.item }, o.base⟩ with committed } : Session).Valid where
  linked := hworks.linked
  healthy := hvalid.healthy.spared hworks.spares
  held := fun e he => (hvalid.held e he).spared hworks.spares
  store := fun heq => Option.some.inj heq ▸ (hvalid.store hs).onJournal hworks

theorem Valid.onValues (hvalid : σ.Valid) (hs : σ.store? = some s)
    {P : DirectoryRef → String → Prop} {v : ValueFolder} {h : Host}
    (hstep : Step P s.values σ.host v h) {stored : List (ValuePointer × Bytes)}
    (hholds : ∀ e ∈ stored, Holds h.disk s.values.dir e.1 e.2) :
    ({ σ.left ⟨{ s with values := v }, h⟩ with stored := σ.stored ++ stored } : Session).Valid where
  linked := hstep.sound.linked
  healthy := hstep.sound.healthy
  held := fun e he => by
    have hdir := (hvalid.store hs).dir
    rcases List.mem_append.1 he with he | he
    · have hheld := hvalid.held e he
      rw [← hdir] at hheld
      exact hdir ▸ hstep.kept e.1 e.2 hheld
    · exact hdir ▸ hholds e he
  store := fun heq => Option.some.inj heq ▸ (hvalid.store hs).onValues hstep

theorem Valid.commit_eq (hvalid : σ.Valid) (hs : σ.store? = some s) (t : Transaction) :
    ∃ o committed, σ.serveWith s (.commit t) =
        { σ.left ⟨{ s with journal := o.item }, o.base⟩ with committed } ∧
      Journal.Works σ.host o := by
  have hkept := @Journal.keeps_append σ.host t
  have hworks := (hvalid.store hs).works
  cases happend : Journal.append t ⟨s.journal, σ.host⟩ with
  | ok a o =>
    have hcommit : Store.commit t ⟨s, σ.host⟩ = _ := onJournal_of_ok happend
    refine ⟨o, σ.committed ++ [(a, t)], ?_, hkept.of_ok hworks happend⟩
    simp only [serveWith, hcommit]
  | error e o =>
    have hcommit : Store.commit t ⟨s, σ.host⟩ = _ := onJournal_of_error happend
    refine ⟨o, σ.committed, ?_, hkept.of_error hworks happend⟩
    simp only [serveWith, hcommit]
    rfl

theorem Valid.storeValues_eq (hvalid : σ.Valid) (hs : σ.store? = some s) {id : UInt64}
    {t : Transaction} (hroom : σ.RoomFor (.storeValues id t)) :
    ∃ v h stored, σ.serveWith s (.storeValues id t) =
        { σ.left ⟨{ s with values := v }, h⟩ with stored := σ.stored ++ stored } ∧
      Step (σ.host.disk.Locates (valueFilePath s.values.dir id)) s.values σ.host v h ∧
      ∀ e ∈ stored, Holds h.disk s.values.dir e.1 e.2 := by
  have hsound := (hvalid.store hs).sound
  rcases storeValues_cases (o := ⟨s, σ.host⟩) hsound id t (hroom s hs) with
    ⟨e, herror⟩ | ⟨v, h, hok, hstep, hholds⟩
  · refine ⟨s.values, σ.host, [], ?_, hsound.refl _, List.forall_mem_nil _⟩
    simp only [serveWith, herror, List.append_nil]
    rfl
  · refine ⟨v, h, _, ?_, hstep, hholds⟩
    simp only [serveWith, hok]

theorem Valid.valueAt_eq (hvalid : σ.Valid) (hs : σ.store? = some s) (p : ValuePointer) :
    ∃ v h, σ.serveWith s (.valueAt p) = σ.left ⟨{ s with values := v }, h⟩ ∧
      h.disk = σ.host.disk ∧ Step (fun _ _ => False) s.values σ.host v h := by
  have hsound := (hvalid.store hs).sound
  rcases hsound.read_cases p with
    ⟨e, herror, -⟩ | ⟨v, h, hdisk, hstep, -, ⟨value, hok⟩ | ⟨e, herror, -⟩⟩
  · have hread : Store.valueAt p ⟨s, σ.host⟩ = _ := onValues_of_error herror
    refine ⟨s.values, σ.host, ?_, rfl, hsound.refl _⟩
    simp only [serveWith, hread, onto]
  · have hread : Store.valueAt p ⟨s, σ.host⟩ = _ := onValues_of_ok hok
    refine ⟨v, h, ?_, hdisk, hstep⟩
    simp only [serveWith, hread, onto]
  · have hread : Store.valueAt p ⟨s, σ.host⟩ = _ := onValues_of_error herror
    refine ⟨v, h, ?_, hdisk, hstep⟩
    simp only [serveWith, hread, onto]

/-- Every request leaves a session of this kind. -/
theorem Valid.serve (hvalid : σ.Valid) (hroom : σ.RoomFor request) : (σ.serve request).Valid := by
  cases hs : σ.store? with
  | none =>
    rw [serve_of_none hs]
    cases request with
    | reopen => exact hvalid.opened
    | commit t => exact hvalid
    | storeValues id t => exact hvalid
    | valueAt p => exact hvalid
    | sync => exact hvalid
  | some s =>
    have horder := hvalid.store hs
    rw [serve_of_some hs]
    cases request with
    | commit t =>
      obtain ⟨o, committed, hserve, hworks⟩ := hvalid.commit_eq hs t
      rw [hserve]
      exact hvalid.onJournal hs hworks committed
    | storeValues id t =>
      obtain ⟨v, h, stored, hserve, hstep, hholds⟩ := hvalid.storeValues_eq hs hroom
      rw [hserve]
      exact hvalid.onValues hs hstep hholds
    | valueAt p =>
      obtain ⟨v, h, hserve, -, hstep⟩ := hvalid.valueAt_eq hs p
      have hnext := hvalid.onValues hs hstep (List.forall_mem_nil _)
      rw [List.append_nil] at hnext
      rw [hserve]
      exact hnext
    | sync =>
      rcases sync_cases horder with ⟨e, o, -, hsync, hworks⟩ | ⟨o, -, hsync, hworks⟩
      · simp only [serveWith, hsync, onto]
        exact hvalid.onJournal hs hworks _
      · simp only [serveWith, hsync, onto]
        exact hvalid.onJournal hs hworks _
    | reopen =>
      unfold serveWith reopened
      rcases sync_cases horder with ⟨e, o, -, hsync, hworks⟩ | ⟨o, -, hsync, hworks⟩
      · have hclose : s.close σ.host = .error e o.base := by simp only [close, hsync]
        rw [Action.bind_of_error hclose]
        exact hvalid.closed hworks.linked hworks.spares
      · have hclose : s.close σ.host = .ok () o.base := by simp only [close, hsync]
        rw [Action.bind_of_ok hclose, horder.config_eq]
        exact (hvalid.closed hworks.linked hworks.spares).opened

theorem Valid.run (hvalid : σ.Valid) (hroom : σ.RoomIn requests) : (σ.run requests).Valid := by
  induction requests generalizing σ with
  | nil => exact hvalid
  | cons request rest ih => exact ih (hvalid.serve hroom.1) hroom.2

theorem valid_of_start {config : Config} {h : Host} {records : List (Appended × Transaction)}
    (hlinked : h.disk.Linked) (hhealthy : EachFile ByteStore.Healthy h.disk)
    (hstart : start? config h records = some σ) : σ.Valid := by
  have hclosed : ({ config, store? := none, host := h, committed := records } : Session).Valid :=
    ⟨hlinked, hhealthy, nofun, nofun⟩
  have hopened := hclosed.opened
  unfold start? at hstart
  cases hattach : attach config h with
  | error e h' =>
    rw [hattach] at hstart
    cases hstart
  | ok s h' =>
    rw [hattach] at hstart
    cases hstart
    simp only [Session.opened, hattach] at hopened
    exact hopened

/-- What a session shows of its values, and what the next request does to the files. -/
structure Apart (σ : Session) : Prop where
  read_back : ∀ s, σ.store? = some s → ∀ e ∈ σ.stored,
    ∃ o, Store.valueAt e.1 ⟨s, σ.host⟩ = .ok e.2 o
  /-- The values of a transaction have a pointer each, and they are stored one behind the other from
  the offset of the file on. -/
  pointers : ∀ s, σ.store? = some s → ∀ id t ps o, σ.RoomFor (.storeValues id t) →
    Store.storeValues id t ⟨s, σ.host⟩ = .ok ps o →
      ps = pointersFrom id (s.values.offsetOf id σ.host) t.values ∧ ps.length = t.values.length
  /-- A commit changes no value file, whatever comes of it. -/
  commit_spares : ∀ t, σ.host.disk.Spares .value (σ.serve (.commit t)).host.disk
  /-- Values that are stored change no log file, and of the value files only their own. -/
  store_spares : ∀ id t, σ.RoomFor (.storeValues id t) →
    σ.host.disk.Spares .log (σ.serve (.storeValues id t)).host.disk ∧
      Disk.Touches (σ.host.disk.Locates (valueFilePath σ.config.valueDir id)) σ.host.disk
        (σ.serve (.storeValues id t)).host.disk
  read_same : ∀ p, (σ.serve (.valueAt p)).host.disk = σ.host.disk

theorem Valid.apart (hvalid : σ.Valid) : σ.Apart where
  read_back := fun s hs e he => by
    have horder := hvalid.store hs
    have hheld := hvalid.held e he
    rw [← horder.dir] at hheld
    rcases horder.sound.read_cases e.1 with ⟨io, -, hnone⟩ | ⟨v, h, -, -, hread, -⟩
    · exact absurd hheld (hnone e.2)
    · exact ⟨_, onValues_of_ok (hread e.2 hheld)⟩
  pointers := fun s hs id t ps o hroom hstore => by
    rcases storeValues_cases (o := ⟨s, σ.host⟩) (hvalid.store hs).sound id t (hroom s hs) with
      ⟨e, herror⟩ | ⟨v, h, hok, -⟩
    · cases herror.symm.trans hstore
    · cases hok.symm.trans hstore
      exact ⟨rfl, ValueFolder.length_pointersFrom _ _ _⟩
  commit_spares := fun t => by
    cases hs : σ.store? with
    | none =>
      rw [serve_of_none hs]
      exact .refl _ _
    | some s =>
      obtain ⟨o, committed, hserve, hworks⟩ := hvalid.commit_eq hs t
      rw [serve_of_some hs, hserve]
      exact hworks.spares
  store_spares := fun id t hroom => by
    cases hs : σ.store? with
    | none =>
      rw [serve_of_none hs]
      exact ⟨.refl _ _, .refl _ _⟩
    | some s =>
      obtain ⟨v, h, stored, hserve, hstep, -⟩ := hvalid.storeValues_eq hs hroom
      rw [serve_of_some hs, hserve, ← (hvalid.store hs).dir]
      exact ⟨hstep.spares (by decide), hstep.touches⟩
  read_same := fun p => by
    cases hs : σ.store? with
    | none =>
      rw [serve_of_none hs]
      rfl
    | some s =>
      obtain ⟨v, h, hserve, hdisk, -⟩ := hvalid.valueAt_eq hs p
      rw [serve_of_some hs, hserve]
      exact hdisk

structure Recorded (σ : Session) : Prop where
  check : σ.config.check = .ok ()
  carried : ∃ s n, σ.store? = some s ∧
    Journal.Carries σ.config.logDir σ.committed n ⟨s.journal, σ.host⟩

theorem sync_of_carries (hvalid : σ.Valid) (hs : σ.store? = some s) {n : Nat}
    (hcarries : Journal.Carries σ.config.logDir σ.committed n ⟨s.journal, σ.host⟩) :
    ∃ o, Store.sync ⟨s, σ.host⟩ = .ok () ⟨{ s with journal := o.item }, o.base⟩ ∧
      Journal.Carries σ.config.logDir σ.committed n o ∧ o.base.disk = σ.host.disk := by
  obtain ⟨o, hok, hnext, hdisk⟩ := hcarries.sync
  rcases sync_cases (hvalid.store hs) with ⟨e, o', herror, -⟩ | ⟨o', hok', hsync, -⟩
  · cases herror.symm.trans hok
  · cases hok'.symm.trans hok
    exact ⟨o, hsync, hnext, hdisk⟩

/-- The store can be closed and opened again, and the journal carries what it did. -/
theorem reopened_of_carries (hvalid : σ.Valid) (hs : σ.store? = some s) {n : Nat}
    (hcarries : Journal.Carries σ.config.logDir σ.committed n ⟨s.journal, σ.host⟩)
    (hn : n < UInt64.size) (hcheck : σ.config.check = .ok ()) :
    ∃ s' h, reopened s σ.host = .ok s' h ∧
      Journal.Carries σ.config.logDir σ.committed n ⟨s'.journal, h⟩ ∧ h.disk = σ.host.disk := by
  have horder := hvalid.store hs
  obtain ⟨o, hsync, hsynced, hdisk⟩ := sync_of_carries hvalid hs hcarries
  obtain ⟨j, h, hattach, hagain, hdisk'⟩ := hsynced.attach hn hcheck rfl
  have hsame := hdisk'.trans hdisk
  have hhas : h.disk.Has σ.config.valueDir := by
    rw [hsame, ← horder.dir]
    exact horder.sound.has
  have hclose : s.close σ.host = .ok () o.base := by simp only [close, hsync]
  have haccept : Action.ofExcept σ.config.check o.base = .ok () o.base := by rw [hcheck]; rfl
  refine ⟨⟨σ.config, j, { dir := σ.config.valueDir }⟩, h, ?_, hagain, hsame⟩
  unfold reopened Store.attach
  rw [Action.bind_of_ok hclose, horder.config_eq, Action.bind_of_ok haccept,
    Action.bind_of_ok hattach, Action.bind_of_ok (ValueFolder.attach_of_has hhas)]
  rfl

/-- Nothing is lost from the log, and only commits add to it. -/
theorem Recorded.serve (hrecorded : σ.Recorded) (hvalid : σ.Valid) (hids : σ.IdsLeft)
    (hroom : σ.RoomFor request) : (σ.serve request).Recorded := by
  obtain ⟨hcheck, s, n, hs, hcarries⟩ := hrecorded
  have hn := hcarries.lt_of_ids (hids s hs)
  rw [serve_of_some hs]
  cases request with
  | commit t =>
    rcases hcarries.append hn t with
      ⟨a, o, m, happend, hnext, -⟩ | ⟨e, o, m, happend, hnext, -⟩
    · have hcommit : Store.commit t ⟨s, σ.host⟩ = _ := onJournal_of_ok happend
      simp only [serveWith, hcommit]
      exact ⟨hcheck, _, m, rfl, hnext⟩
    · have hcommit : Store.commit t ⟨s, σ.host⟩ = _ := onJournal_of_error happend
      simp only [serveWith, hcommit]
      exact ⟨hcheck, _, m, rfl, hnext⟩
  | storeValues id t =>
    obtain ⟨v, h, stored, hserve, hstep, -⟩ := hvalid.storeValues_eq hs hroom
    rw [hserve]
    exact ⟨hcheck, _, n, rfl,
      hcarries.spared hstep.sound.linked (hstep.spares (by decide)) hstep.segments⟩
  | valueAt p =>
    obtain ⟨v, h, hserve, -, hstep⟩ := hvalid.valueAt_eq hs p
    rw [hserve]
    exact ⟨hcheck, _, n, rfl,
      hcarries.spared hstep.sound.linked (hstep.spares (by decide)) hstep.segments⟩
  | sync =>
    obtain ⟨o, hsync, hnext, -⟩ := sync_of_carries hvalid hs hcarries
    simp only [serveWith, hsync, onto]
    exact ⟨hcheck, _, n, rfl, hnext⟩
  | reopen =>
    obtain ⟨s', h, hreopen, hnext, -⟩ :=
      reopened_of_carries hvalid hs hcarries (Nat.lt_of_succ_lt hn) hcheck
    simp only [serveWith, hreopen]
    exact ⟨hcheck, s', n, rfl, hnext⟩

theorem Recorded.run (hrecorded : σ.Recorded) (hvalid : σ.Valid) (hroom : σ.RoomIn requests)
    (hids : σ.IdsIn requests) : (σ.run requests).Recorded ∧ (σ.run requests).IdsLeft := by
  induction requests generalizing σ with
  | nil => exact ⟨hrecorded, hids⟩
  | cons request rest ih =>
    exact ih (hrecorded.serve hvalid hids.1 hroom.1) (hvalid.serve hroom.1) hroom.2 hids.2

theorem recorded_of_start {config : Config} {h : Host} {records : List (Appended × Transaction)}
    (hlinked : h.disk.Linked) (hlogged : h.Logged config.logDir records)
    (hstart : start? config h records = some σ) : σ.Recorded := by
  unfold start? at hstart
  cases hattach : attach config h with
  | error e h' =>
    rw [hattach] at hstart
    cases hstart
  | ok s h' =>
    rw [hattach] at hstart
    cases hstart
    unfold attach at hattach
    obtain ⟨u, h₀, hcheck, hattach⟩ := Action.bind_eq_ok hattach
    obtain ⟨j, h₁, hjournal, hattach⟩ := Action.bind_eq_ok hattach
    obtain ⟨v, h₂, hvalues, hattach⟩ := Action.bind_eq_ok hattach
    cases hattach
    obtain ⟨haccept, rfl⟩ := Action.ofExcept_eq_ok hcheck
    have hworks := Journal.works_of_attach hlinked hjournal
    obtain ⟨n, hcarries⟩ := Journal.carries_of_attach_logged hlogged hlinked hjournal
    obtain ⟨-, -, hlinked', hspares, hsegments⟩ :=
      ValueFolder.attach_spares hworks.linked hvalues
    exact ⟨haccept, _, n, rfl, hcarries.spared hlinked' (hspares .log) hsegments⟩

/-- What a session shows of its log. -/
structure Complete (σ : Session) : Prop where
  /-- The segments, each through its file or the active one as it is open, have the transactions
  that were committed and no others. -/
  shows : ∃ s ids, σ.store? = some s ∧ Journal.Shows σ.committed ids s.journal σ.host
  /-- The store can be closed and opened again. -/
  reopens : ∃ s, (σ.serve .reopen).store? = some s
  /-- Neither this nor making it durable changes the disk. -/
  quiet : (σ.serve .sync).host.disk = σ.host.disk ∧ (σ.serve .reopen).host.disk = σ.host.disk

theorem Recorded.complete (hrecorded : σ.Recorded) (hvalid : σ.Valid) (hids : σ.IdsLeft) :
    σ.Complete := by
  obtain ⟨hcheck, s, n, hs, hcarries⟩ := hrecorded
  have hn := Nat.lt_of_succ_lt (hcarries.lt_of_ids (hids s hs))
  obtain ⟨o, hsync, -, hdisk⟩ := sync_of_carries hvalid hs hcarries
  obtain ⟨s', h, hreopen, -, hdisk'⟩ := reopened_of_carries hvalid hs hcarries hn hcheck
  refine ⟨⟨s, _, hs, hcarries.shows hn⟩, ⟨s', ?_⟩, ?_, ?_⟩
  · simp only [serve_of_some hs, serveWith, hreopen, opened]
  · simp only [serve_of_some hs, serveWith, hsync, onto, left, hdisk]
  · simp only [serve_of_some hs, serveWith, hreopen, opened, hdisk']

end Session

/-- A store keeps its log and its values apart, even in one directory: after every run every pointer
is read as its value, a commit changes no value file, and values that are stored change no log file.
If there was a log at first, it has what it had then and what was committed since. -/
theorem log_and_values_apart {config : Config} {h : Host} {records : List (Appended × Transaction)}
    {σ : Session} (hlinked : h.disk.Linked) (hhealthy : EachFile ByteStore.Healthy h.disk)
    (hstart : Session.start? config h records = some σ) {requests : List Request}
    (hroom : σ.RoomIn requests) :
    (σ.run requests).Apart ∧
      (h.Logged config.logDir records → σ.IdsIn requests → (σ.run requests).Complete) := by
  have hvalid := Session.valid_of_start hlinked hhealthy hstart
  have hlast := hvalid.run hroom
  refine ⟨hlast.apart, fun hlogged hids => ?_⟩
  have hrecorded := Session.recorded_of_start hlinked hlogged hstart
  obtain ⟨hnext, hleft⟩ := hrecorded.run hvalid hroom hids
  exact hnext.complete hlast hleft

/-- Log and values in one directory, two segments, a transaction that only deletes, an empty value,
a transaction that is refused, and the store opened again in between. -/
theorem log_and_values_apart_one_directory :
    let config : Config := { logDir := ⟨"data"⟩, segmentCapacity := 80, valueDir := ⟨"data"⟩ }
    let t : Transaction := { id := 7, changes := [.set [97] [1, 2], .delete [98]] }
    let requests := [.commit t, .storeValues 1 t, .commit { t with id := 8 },
      .storeValues 1 { id := 8, changes := [.delete [97]] },
      .storeValues 1 { id := 9, changes := [.set [98] [], .set [97] [3]] }, .reopen,
      .storeValues 1 t, .valueAt ⟨1, 0, 2⟩, .sync, .commit { id := 9, changes := [] }]
    Host.empty.disk.Linked ∧ EachFile ByteStore.Healthy Host.empty.disk ∧
      Host.empty.Logged config.logDir [] ∧
      ∃ σ, Session.start? config Host.empty [] = some σ ∧ σ.RoomIn requests ∧ σ.IdsIn requests ∧
        (σ.run requests).stored = [(⟨1, 0, 2⟩, [1, 2]), (⟨1, 6, 0⟩, []), (⟨1, 10, 1⟩, [3]),
          (⟨1, 15, 2⟩, [1, 2])] ∧
        (σ.run requests).committed.map (fun r => (r.1.segmentId, r.2)) =
          [(1, t), (2, { t with id := 8 })] ∧
        (σ.run requests).Apart ∧ (σ.run requests).Complete := by
  intro config t requests
  have hhealthy : EachFile ByteStore.Healthy Host.empty.disk := ValueFolder.eachFile_empty _
  have hunused : Host.empty.Unused ⟨"data"⟩ := Host.unused_of_absent rfl (by decide)
  have hevaluated : (Session.start? config Host.empty []).any (fun σ =>
      decide (σ.RoomIn requests ∧ σ.IdsIn requests ∧
        (σ.run requests).stored = [(⟨1, 0, 2⟩, [1, 2]), (⟨1, 6, 0⟩, []), (⟨1, 10, 1⟩, [3]),
          (⟨1, 15, 2⟩, [1, 2])] ∧
        (σ.run requests).committed.map (fun r => (r.1.segmentId, r.2)) =
          [(1, t), (2, { t with id := 8 })])) = true := by
    decide +kernel
  obtain ⟨σ, hstart, hshown⟩ := (Option.any_eq_true _ _).1 hevaluated
  obtain ⟨hroom, hids, hstored, hcommitted⟩ := of_decide_eq_true hshown
  obtain ⟨hapart, hlogged⟩ := log_and_values_apart .empty hhealthy hstart hroom
  exact ⟨.empty, hhealthy, hunused.logged, σ, hstart, hroom, hids, hstored, hcommitted, hapart,
    hlogged hunused.logged hids⟩

end Store

end AppendStore
