import AppendStore.Proofs.Journal.Standing
import AppendStore.Proofs.Store.Order
import AppendStore.Proofs.ValueFolder.Frame

/-!
# Stores in use

`Store.Operation` is what can be asked of an open store: of the store itself, of its log and of
its values, and to be given up and opened again with its settings. `Store.InUse` says that the
journal stands where some gauge says and that the value folder writes to value files. Every
operation leaves a store in use, and none of them fails because settings are refused
(`InUse.perform`), and so it is after any number of them (`InUse.run`).

Each operation takes two new segments at most, so the ids last for a run that is shorter than
half of them. Nothing is said here of the value files: writing to them may fail.
-/

namespace AppendStore

open AppendStore.Action (FailsAs Keeps leaves)
open StoreError (NotConfig)

namespace Store

/-- What can be asked of an open store. -/
inductive Operation where
  | commit (t : Transaction)
  | storeValues (id : UInt64) (t : Transaction)
  | valueAt (p : ValuePointer)
  | sync
  /-- To be given up, and opened again with the same settings. -/
  | reopen
  | syncLog
  | segmentIds
  | segmentAt (id : UInt64)
  | readSegment (id : UInt64)
  | transactionAt (a : Appended)
  | writeValue (id : UInt64) (value : Bytes)
  | fileOrNew (id : UInt64)
  | storedFile (id : UInt64)
  | closeFile (id : UInt64)
  | syncValues
  | storedIds

def silently {σ α : Type} (x : Action σ α) : Action σ Unit := x >>= fun _ => pure ()

def lookAt {α : Type} (x : Journal → Action Host α) : Action (Over Store Host) α :=
  Action.item >>= fun s => Action.onBase (x s.journal)

/-- The store of the same settings, opened again. If it cannot be, there is still the old one. -/
def reopen : Action (Over Store Host) Unit := fun o =>
  match attach o.item.config o.base with
  | .ok s h => .ok () ⟨s, h⟩
  | .error e h => .error e ⟨o.item, h⟩

namespace Operation

/-- What an operation does; only its failure is told. -/
def perform : Operation → Action (Over Store Host) Unit
  | commit t => silently (Store.commit t)
  | storeValues id t => silently (Store.storeValues id t)
  | valueAt p => silently (Store.valueAt p)
  | sync => Store.sync
  | reopen => Store.reopen
  | syncLog => onJournal Journal.sync
  | segmentIds => silently (lookAt Journal.ids)
  | segmentAt id => silently (lookAt (Journal.segmentAt · id))
  | readSegment id => silently (lookAt (Journal.readSegment · id))
  | transactionAt a => silently (lookAt (Journal.transactionAt · a))
  | writeValue id value => silently (onValues (ValueFolder.write id value))
  | fileOrNew id => silently (onValues (ValueFolder.fileOrNew id))
  | storedFile id => silently (onValues (ValueFolder.storedFile id))
  | closeFile id => silently (onValues (ValueFolder.close id))
  | syncValues => onValues ValueFolder.sync
  | storedIds => silently (Action.item >>= fun s => Action.onBase s.values.storedIds)

def run (ops : List Operation) (o : Over Store Host) : Over Store Host :=
  ops.foldl (fun o op => leaves op.perform o) o

end Operation

/-- The store has the settings, its journal stands where a gauge says that has used up `n` ids at
most, and its folder is at work on value files. -/
structure InUse (config : Config) (n : Nat) (o : Over Store Host) : Prop where
  config_eq : o.item.config = config
  stands : ∃ records g, Journal.Stands config records g ⟨o.item.journal, o.base⟩ ∧ g.id ≤ n ∧
    g.used ≤ config.sizeLimit.toNat
  works : ValueFolder.Works config.valueDir o.base ⟨o.item.values, o.base⟩
  has : o.base.disk.Has config.valueDir

/-- Started here, the computation leaves a store in use, and no settings are refused. -/
structure Serves {α : Type} (config : Config) (n : Nat) (o : Over Store Host)
    (x : Action (Over Store Host) α) : Prop where
  inUse : InUse config n (leaves x o)
  notConfig : ∀ e o', x o = .error e o' → NotConfig e

variable {config : Config} {n m : Nat} {o : Over Store Host} {t : Transaction} {α β : Type}

namespace Serves

variable {x : Action (Over Store Host) α} {f : α → Action (Over Store Host) β}

theorem bind (hx : Serves config n o x)
    (hf : ∀ a o', InUse config n o' → Serves config n o' (f a)) :
    Serves config n o (x >>= f) := by
  cases hresult : x o with
  | ok a o' =>
    have hnext : InUse config n o' := by
      have hleft := hx.inUse
      rwa [leaves, hresult] at hleft
    have hrest := hf a o' hnext
    refine ⟨?_, fun e o'' herror => hrest.notConfig e o'' ?_⟩
    · have hleft := hrest.inUse
      unfold leaves at hleft ⊢
      rwa [Action.bind_of_ok hresult]
    · rwa [Action.bind_of_ok hresult] at herror
  | error e o' =>
    have hnext : InUse config n o' := by
      have hleft := hx.inUse
      rwa [leaves, hresult] at hleft
    refine ⟨?_, fun e' o'' herror => ?_⟩
    · unfold leaves
      rwa [Action.bind_of_error hresult]
    · cases (Action.bind_of_error hresult).symm.trans herror
      exact hx.notConfig e o' hresult

theorem pure (h : InUse config n o) (a : α) :
    Serves config n o (Pure.pure a : Action (Over Store Host) α) := ⟨h, FailsAs.pure a o⟩

theorem item {f : Store → Action (Over Store Host) α} (hf : Serves config n o (f o.item)) :
    Serves config n o (Action.item >>= f) := ⟨hf.inUse, hf.notConfig⟩

theorem silently (hx : Serves config n o x) : Serves config n o (silently x) :=
  hx.bind fun _ _ hnext => .pure hnext ()

end Serves

namespace InUse

theorem mono (h : InUse config n o) (hle : n ≤ m) : InUse config m o := by
  obtain ⟨records, g, hstands, hid, hused⟩ := h.stands
  exact { h with stands := ⟨records, g, hstands, Nat.le_trans hid hle, hused⟩ }

theorem onJournal (h : InUse config n o) {records : List (Appended × Transaction)}
    {g : Journal.Gauge} {p : Over Journal Host} (hstands : Journal.Stands config records g p)
    (hid : g.id ≤ m) (hused : g.used ≤ config.sizeLimit.toNat) (hlog : o.base.LogOnly p.base) :
    InUse config m ⟨{ o.item with journal := p.item }, p.base⟩ where
  config_eq := h.config_eq
  stands := ⟨records, g, hstands, hid, hused⟩
  works := h.works.spared hlog.linked hlog.spares.extended hlog.valueFiles
  has := h.has.extended hlog.spares.extended

theorem onValues (h : InUse config n o) {p : Over ValueFolder Host}
    (hworks : ValueFolder.Works config.valueDir o.base p) :
    InUse config n ⟨{ o.item with values := p.item }, p.base⟩ where
  config_eq := h.config_eq
  stands := by
    obtain ⟨records, g, hstands, hgauge⟩ := h.stands
    exact ⟨records, g, hstands.spared hworks.linked hworks.spares hworks.segments
      fun _ _ _ hfound => hworks.noneMade _ _ _ hfound, hgauge⟩
  works := hworks.here
  has := h.has.extended hworks.spares.extended

theorem serves_onJournal (h : InUse config n o) {x : Action (Over Journal Host) α}
    {g : Journal.Gauge} (hstands : ∃ records,
      Journal.Stands config records g (leaves x ⟨o.item.journal, o.base⟩))
    (hid : g.id ≤ m) (hused : g.used ≤ config.sizeLimit.toNat)
    (hkeeps : Keeps (Journal.Works o.base) x)
    (hfails : ∀ e p, x ⟨o.item.journal, o.base⟩ = .error e p → NotConfig e) :
    Serves config m o (Store.onJournal x) := by
  obtain ⟨records, g₀, hstands₀, -⟩ := h.stands
  obtain ⟨records', hnext⟩ := hstands
  have hlog := (hkeeps.leaves (hstands₀.works h.works.linked)).toLogOnly
  constructor
  · rw [Store.onJournal, Action.leaves_zoom]
    exact h.onJournal hnext hid hused hlog
  · intro e o' herror
    obtain ⟨p, hresult⟩ := Action.zoom_eq_error herror
    exact hfails e p hresult

theorem serves_onValues (h : InUse config n o) {x : Action (Over ValueFolder Host) α}
    (hkeeps : Keeps (ValueFolder.Works config.valueDir o.base) x) (hfails : FailsAs NotConfig x) :
    Serves config n o (Store.onValues x) := by
  constructor
  · rw [Store.onValues, Action.leaves_zoom]
    exact h.onValues (hkeeps.leaves h.works)
  · exact hfails.zoom _ _ o

theorem browsed (h : InUse config n o) {base : Host} (hbrowsed : o.base.Browsed base) :
    InUse config n ⟨o.item, base⟩ where
  config_eq := h.config_eq
  stands := by
    obtain ⟨records, g, hstands, hgauge⟩ := h.stands
    exact ⟨records, g, hstands.browsed hbrowsed, hgauge⟩
  works := h.works.spared (hbrowsed.disk ▸ h.works.linked) (.of_directories (by rw [hbrowsed.disk]))
    hbrowsed.valueFiles
  has := hbrowsed.disk ▸ h.has

theorem serves_onBase (h : InUse config n o) {x : Action Host α} (hx : Journal.Browses o.base x) :
    Serves config n o (Action.onBase x) := by
  constructor
  · rw [Action.onBase, Action.leaves_zoom]
    exact h.browsed hx.browsed
  · intro e o' herror
    obtain ⟨p, hresult⟩ := Action.zoom_eq_error herror
    exact hx.notConfig e p hresult

theorem serves_lookAt (h : InUse config n o) {x : Journal → Action Host α}
    (hx : ∀ {records g}, Journal.Stands config records g ⟨o.item.journal, o.base⟩ →
      Journal.Browses o.base (x o.item.journal)) :
    Serves config n o (silently (lookAt x)) := by
  obtain ⟨records, g, hstands, -⟩ := h.stands
  exact Serves.silently (.item (h.serves_onBase (hx hstands)))

theorem exists_gauge (h : InUse config n o) (hn : n + 2 < UInt64.size) (t : Transaction) :
    ∃ records g, Journal.Stands config records g ⟨o.item.journal, o.base⟩ ∧
      g.used ≤ config.sizeLimit.toNat ∧ (g.append config t).2.id ≤ n + 2 ∧
      (g.append config t).2.id < UInt64.size := by
  obtain ⟨records, g, hstands, hid, hused⟩ := h.stands
  have hnext := Nat.le_trans (g.id_append_le config t) (Nat.add_le_add_right hid 2)
  exact ⟨records, g, hstands, hused, hnext, Nat.lt_of_le_of_lt hnext hn⟩

theorem serves_commit (h : InUse config n o) (hn : n + 2 < UInt64.size) (t : Transaction) :
    Serves config (n + 2) o (Store.commit t) := by
  obtain ⟨records, g, hstands, hused, hid, hlast⟩ := h.exists_gauge hn t
  obtain ⟨hleft, hfails⟩ := hstands.leaves_append hused t hlast
  exact h.serves_onJournal hleft hid (g.used_append_le hused t) (Journal.keeps_append t) hfails

theorem serves_syncLog (h : InUse config n o) :
    Serves config n o (Store.onJournal Journal.sync) := by
  obtain ⟨records, g, hstands, hid, hused⟩ := h.stands
  obtain ⟨p, hok, hnext⟩ := hstands.sync
  have hleft : leaves Journal.sync ⟨o.item.journal, o.base⟩ = p := by rw [leaves, hok]
  refine h.serves_onJournal ⟨records, hleft.symm ▸ hnext⟩ hid hused Journal.keeps_sync ?_
  intro e o' herror
  cases hok.symm.trans herror

theorem serves_syncValues (h : InUse config n o) :
    Serves config n o (Store.onValues ValueFolder.sync) :=
  h.serves_onValues ValueFolder.keeps_sync ValueFolder.notConfig_sync

theorem serves_storedIds (h : InUse config n o) :
    Serves config n o (silently (Action.item >>= fun s => Action.onBase s.values.storedIds)) :=
  Serves.silently (.item (h.serves_onBase
    (Journal.browses_idsIn .value o.item.values.dir o.base)))

/-- The settings that were accepted before are accepted again. -/
theorem reopens (h : InUse config n o) (hcheck : config.check = .ok ()) (hn : n < UInt64.size) :
    ∃ s base, attach config o.base = .ok s base ∧ InUse config n ⟨s, base⟩ := by
  obtain ⟨records, g, hstands, hid, hused⟩ := h.stands
  obtain ⟨j, base, hattach, hnext⟩ := hstands.attach hcheck (Nat.lt_of_le_of_lt hid hn)
  have hworks := Journal.works_of_attach h.works.linked hattach
  have hhas := h.has.extended hworks.spares.extended
  have haccept : Action.ofExcept config.check o.base = .ok () o.base := by rw [hcheck]; rfl
  refine ⟨⟨config, j, { dir := config.valueDir }⟩, base, ?_, rfl, ⟨records, g, hnext, hid, hused⟩,
    .fresh config.valueDir hworks.linked, hhas⟩
  unfold attach
  rw [Action.bind_of_ok haccept, Action.bind_of_ok hattach,
    Action.bind_of_ok (ValueFolder.attach_of_has hhas)]
  rfl

theorem serves_reopen (h : InUse config n o) (hcheck : config.check = .ok ())
    (hn : n < UInt64.size) : Serves config n o Store.reopen := by
  obtain ⟨s, base, hattach, hnext⟩ := h.reopens hcheck hn
  have hreopen : Store.reopen o = .ok () ⟨s, base⟩ := by
    simp only [Store.reopen, h.config_eq, hattach]
  constructor
  · rwa [leaves, hreopen]
  · intro e o' herror
    cases hreopen.symm.trans herror

/-- Every operation leaves a store in use, and none is refused for the settings. -/
theorem perform (h : InUse config n o) (hcheck : config.check = .ok ())
    (hn : n + 2 < UInt64.size) (op : Operation) : Serves config (n + 2) o op.perform := by
  have hlater := h.mono (Nat.le_add_right n 2)
  cases op with
  | commit t => exact (h.serves_commit hn t).silently
  | storeValues id t =>
    exact (hlater.serves_onValues (ValueFolder.keeps_writeAll id t.values)
      (ValueFolder.notConfig_writeAll id t.values)).silently
  | valueAt p =>
    exact (hlater.serves_onValues (ValueFolder.keeps_read p)
      (ValueFolder.notConfig_read p)).silently
  | sync => exact hlater.serves_syncLog.bind fun _ _ hnext => hnext.serves_syncValues
  | reopen => exact hlater.serves_reopen hcheck hn
  | syncLog => exact hlater.serves_syncLog
  | segmentIds => exact hlater.serves_lookAt fun _ => Journal.browses_idsIn .log _ _
  | segmentAt id => exact hlater.serves_lookAt fun hstands => hstands.browses_segmentAt id
  | readSegment id => exact hlater.serves_lookAt fun hstands => hstands.browses_readSegment id
  | transactionAt a => exact hlater.serves_lookAt fun hstands => hstands.browses_transactionAt a
  | writeValue id value =>
    exact (hlater.serves_onValues (ValueFolder.keeps_write id value)
      (ValueFolder.notConfig_write id value)).silently
  | fileOrNew id =>
    exact (hlater.serves_onValues (ValueFolder.keeps_fileOrNew id)
      (ValueFolder.notConfig_fileOrNew id)).silently
  | storedFile id =>
    exact (hlater.serves_onValues (ValueFolder.keeps_storedFile id)
      (ValueFolder.notConfig_storedFile id)).silently
  | closeFile id =>
    exact (hlater.serves_onValues (ValueFolder.keeps_close id)
      (ValueFolder.notConfig_close id)).silently
  | syncValues => exact hlater.serves_syncValues
  | storedIds => exact hlater.serves_storedIds

/-- A store stays in use through any number of operations. -/
theorem run (h : InUse config n o) (hcheck : config.check = .ok ()) {ops : List Operation}
    (hn : n + 2 * ops.length < UInt64.size) :
    InUse config (n + 2 * ops.length) (Operation.run ops o) := by
  induction ops generalizing n o with
  | nil => exact h
  | cons op ops ih =>
    rw [List.length_cons, Nat.mul_succ, Nat.add_comm _ 2, ← Nat.add_assoc] at hn ⊢
    exact ih (h.perform hcheck (Nat.lt_of_le_of_lt (Nat.le_add_right _ _) hn) op).inUse hn

end InUse

end Store

end AppendStore
