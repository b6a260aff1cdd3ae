import AppendStore.Proofs.Journal.Frame
import AppendStore.Proofs.Store.Values

/-!
# Stores in order

The log and the values of a store may be in one directory. Still the journal leaves the
folder as it is, since it changes log files only (`Journal.Works`), and the folder leaves the
journal as it is, since it changes value files only (`ValueFolder.Step`). So a store that is
in order (`Store.InOrder`) stays so, whichever side works (`Store.InOrder.onJournal`,
`Store.InOrder.onValues`). What is in the log does not matter for this, and neither do
faults of its files.
-/

namespace AppendStore

namespace Store

open ValueFolder (EachFile Step)

/-- The store has the settings, its folder is in order, and its journal is at work on a log file. -/
structure InOrder (config : Config) (s : Store) (h : Host) : Prop where
  config_eq : s.config = config
  dir : s.values.dir = config.valueDir
  sound : s.values.Sound h
  works : Journal.Works h ⟨s.journal, h⟩

variable {config : Config} {s : Store} {h h' : Host}

/-- What the journal has done is nothing to the folder. -/
theorem InOrder.onJournal (hs : s.InOrder config h) {o : Over Journal Host}
    (hworks : Journal.Works h o) :
    ({ s with journal := o.item } : Store).InOrder config o.base where
  config_eq := hs.config_eq
  dir := hs.dir
  sound := hs.sound.spared hworks.linked hworks.spares hworks.valueFiles
  works := hworks.here

/-- What the folder has done is nothing to the journal. -/
theorem InOrder.onValues (hs : s.InOrder config h) {P : DirectoryRef → String → Prop}
    {v : ValueFolder} (hstep : Step P s.values h v h') :
    ({ s with values := v } : Store).InOrder config h' where
  config_eq := hs.config_eq
  dir := hstep.dir.trans hs.dir
  sound := hstep.sound
  works := hs.works.spared hstep.sound.linked (hstep.spares (by decide)) hstep.segments

theorem sync_cases (hs : s.InOrder config h) :
    (∃ e o, Journal.sync ⟨s.journal, h⟩ = .error e o ∧
        sync ⟨s, h⟩ = .error e ⟨{ s with journal := o.item }, o.base⟩ ∧ Journal.Works h o) ∨
      ∃ o, Journal.sync ⟨s.journal, h⟩ = .ok () o ∧
        sync ⟨s, h⟩ = .ok () ⟨{ s with journal := o.item }, o.base⟩ ∧ Journal.Works h o := by
  have hkept := @Journal.keeps_sync h
  unfold sync
  cases hsync : Journal.sync ⟨s.journal, h⟩ with
  | error e o =>
    have hfailed := onJournal_of_error (o := ⟨s, h⟩) hsync
    exact .inl ⟨e, o, rfl, Action.bind_of_error hfailed, hkept.of_error hs.works hsync⟩
  | ok u o =>
    have hworks := hkept.of_ok hs.works hsync
    have hvalues : ValueFolder.sync ⟨s.values, o.base⟩ = .ok () ⟨s.values, o.base⟩ :=
      (hs.onJournal hworks).sound.sync
    refine .inr ⟨o, rfl, ?_, hworks⟩
    rw [Action.bind_of_ok (onJournal_of_ok (o := ⟨s, h⟩) hsync)]
    exact onValues_of_ok (o := ⟨{ s with journal := o.item }, o.base⟩) hvalues

/-- Opening a store changes no value file, and a store that was opened is in order. -/
theorem attach_cases (hlinked : h.disk.Linked) (hhealthy : EachFile ByteStore.Healthy h.disk)
    (config : Config) :
    (∃ e h', attach config h = .error e h' ∧ h'.disk.Linked ∧ h.disk.Spares .value h'.disk) ∨
      ∃ s h', attach config h = .ok s h' ∧ s.InOrder config h' ∧
        h.disk.Spares .value h'.disk := by
  unfold attach
  cases hcheck : config.check with
  | error e => exact .inl ⟨_, h, rfl, hlinked, .refl _ _⟩
  | ok u =>
    have haccept : Action.ofExcept (.ok u : Except StoreError Unit) h = .ok u h := rfl
    rw [Action.bind_of_ok haccept]
    cases hjournal : Journal.attach config h with
    | error e h₁ =>
      have hlog := (Journal.keeps_attach h config).of_error (.refl hlinked) hjournal
      exact .inl ⟨e, h₁, Action.bind_of_error hjournal, hlog.linked, hlog.spares⟩
    | ok j h₁ =>
      have hworks := Journal.works_of_attach hlinked hjournal
      rw [Action.bind_of_ok hjournal]
      cases hvalues : ValueFolder.attach config.valueDir h₁ with
      | error e h₂ =>
        have hkept := (ValueFolder.keeps_attach .value h.disk config.valueDir).of_error
          ⟨hworks.linked, hworks.spares⟩ hvalues
        exact .inl ⟨e, h₂, Action.bind_of_error hvalues, hkept.1, hkept.2⟩
      | ok v h₂ =>
        obtain ⟨rfl, hhas, hlinked', hspares, hsegments⟩ :=
          ValueFolder.attach_spares hworks.linked hvalues
        have hall := hworks.spares.trans (hspares .value)
        exact .inr ⟨_, h₂, Action.bind_of_ok hvalues, ⟨rfl, rfl,
          ValueFolder.sound_of_has hhas hlinked' (hhealthy.spared hall),
          hworks.spared hlinked' (hspares .log) hsegments⟩, hall⟩

end Store

end AppendStore
