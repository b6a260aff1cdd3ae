import AppendStore.Proofs.ValueFile.Session
import AppendStore.Proofs.ValueFolder.Files
import AppendStore.Store

/-!
# The values of a transaction

A store writes the values that a transaction sets to one file, one behind the other from the
end of the file on (`ValueFolder.Sound.writeAll`). So the pointers it answers are known
beforehand: `ValueFolder.pointersFrom` carries the offset along. Either that, or the file
could not be opened and nothing has happened (`Store.storeValues_cases`).
-/

namespace AppendStore

namespace ValueFolder

open ValueFile (storedBytes storedLength)
open Host (valueFilePath)

/-- The pointers to values that are stored in a file one behind the other, from an offset on. -/
def pointersFrom (id : UInt64) (offset : Nat) : List Bytes → List ValuePointer
  | [] => []
  | value :: values =>
    let p : ValuePointer := ⟨id, UInt64.ofNat offset, value.length⟩
    p :: pointersFrom id (offset + p.storedLength) values

theorem length_pointersFrom (id : UInt64) (offset : Nat) (values : List Bytes) :
    (pointersFrom id offset values).length = values.length := by
  induction values generalizing offset with
  | nil => rfl
  | cons value values ih => rw [pointersFrom, List.length_cons, List.length_cons, ih]

variable {v : ValueFolder} {h : Host} {id : UInt64} {ref : ValueFileRef} {values : List Bytes}

theorem Stores.pointer_eq {value : Bytes} {p : ValuePointer} {v' : ValueFolder} {h' : Host}
    (hstores : Stores id value v h p v' h') :
    p = ⟨id, UInt64.ofNat (v.offsetOf id h), value.length⟩ := by
  obtain ⟨fileId, offset, size⟩ := p
  obtain rfl : fileId = id := hstores.fileId
  obtain rfl : size = value.length := hstores.holds.1
  rw [← hstores.start, UInt64.ofNat_toNat]

/-- Values are stored in an open file one behind the other. -/
theorem Sound.writeAll (hs : v.Sound h) (href : v.file? id = some ref)
    (hroom : v.offsetOf id h + storedBytes values < UInt64.size) :
    ∃ h', values.mapM (ValueFolder.writeTo id ref) ⟨v, h⟩ =
        .ok (pointersFrom id (v.offsetOf id h) values) ⟨v, h'⟩ ∧
      Step (h.disk.Locates (valueFilePath v.dir id)) v h v h' ∧
      ∀ e ∈ (pointersFrom id (v.offsetOf id h) values).zip values,
        Holds h'.disk v.dir e.1 e.2 := by
  induction values generalizing h with
  | nil => exact ⟨h, rfl, hs.refl _, nofun⟩
  | cons value values ih =>
    rw [ValueFile.storedBytes_cons, ← Nat.add_assoc] at hroom
    obtain ⟨p, h₁, hwrite, hstores⟩ :=
      hs.writeTo href (Nat.lt_of_le_of_lt (Nat.le_add_right _ _) hroom)
    have hp := hstores.pointer_eq
    have hnext : v.offsetOf id h₁ = v.offsetOf id h + p.storedLength := by
      rw [hstores.next, hp]
      rfl
    rw [← hstores.next] at hroom
    obtain ⟨h', hrest, hstep, hholds⟩ := ih hstores.sound hroom
    rw [hnext] at hrest hholds
    have hback : ∀ ref name, h₁.disk.Locates (valueFilePath v.dir id) ref name →
        h.disk.Locates (valueFilePath v.dir id) ref name := by
      intro ref name hlocates
      obtain ⟨f, r, -, -, ⟨place, hfind⟩, -⟩ := hs.opened href
      exact hlocates.of_extended hstores.touches.extended (Disk.find_eq_file.1 hfind).1
    refine ⟨h', ?_, hstores.toStep.trans (hstep.mono hback), fun e he => ?_⟩
    · rw [List.mapM_cons, Action.bind_of_ok hwrite, Action.bind_of_ok hrest, pointersFrom, ← hp]
      rfl
    · rw [pointersFrom, List.zip_cons_cons, ← hp] at he
      rcases List.mem_cons.1 he with rfl | he
      · exact hstep.kept _ _ hstores.holds
      · exact hholds e he

end ValueFolder

namespace Store

open ValueFile (storedBytes)
open ValueFolder (Holds Step pointersFrom)
open Host (valueFilePath)

variable {o : Over Store Host} {α : Type} {a : α} {e : StoreError}

theorem onJournal_of_ok {x : Action (Over Journal Host) α} {p : Over Journal Host}
    (hx : x ⟨o.item.journal, o.base⟩ = .ok a p) :
    onJournal x o = .ok a ⟨{ o.item with journal := p.item }, p.base⟩ :=
  Action.zoom_of_ok hx

theorem onJournal_of_error {x : Action (Over Journal Host) α} {p : Over Journal Host}
    (hx : x ⟨o.item.journal, o.base⟩ = .error e p) :
    onJournal x o = .error e ⟨{ o.item with journal := p.item }, p.base⟩ :=
  Action.zoom_of_error hx

theorem onValues_of_ok {x : Action (Over ValueFolder Host) α} {p : Over ValueFolder Host}
    (hx : x ⟨o.item.values, o.base⟩ = .ok a p) :
    onValues x o = .ok a ⟨{ o.item with values := p.item }, p.base⟩ :=
  Action.zoom_of_ok hx

theorem onValues_of_error {x : Action (Over ValueFolder Host) α} {p : Over ValueFolder Host}
    (hx : x ⟨o.item.values, o.base⟩ = .error e p) :
    onValues x o = .error e ⟨{ o.item with values := p.item }, p.base⟩ :=
  Action.zoom_of_error hx

/-- The values of a transaction are stored at the end of a file, or the file cannot be opened and
nothing happens. -/
theorem storeValues_cases (hs : o.item.values.Sound o.base) (id : UInt64) (t : Transaction)
    (hroom : o.item.values.offsetOf id o.base + storedBytes t.values < UInt64.size) :
    (∃ e, storeValues id t o = .error e o) ∨
      ∃ v h, storeValues id t o =
          .ok (pointersFrom id (o.item.values.offsetOf id o.base) t.values)
            ⟨{ o.item with values := v }, h⟩ ∧
        Step (o.base.disk.Locates (valueFilePath o.item.values.dir id)) o.item.values o.base v h ∧
        ∀ e ∈ (pointersFrom id (o.item.values.offsetOf id o.base) t.values).zip t.values,
          Holds h.disk o.item.values.dir e.1 e.2 := by
  unfold storeValues
  rcases hs.fileOrNew id with ⟨e, herror⟩ | ⟨ref, v, h, hok, href, hoffset, hstep, hlocates⟩
  · exact .inl ⟨_, onValues_of_error (Action.bind_of_error herror)⟩
  · rw [← hoffset] at hroom ⊢
    obtain ⟨h', hwrite, hlast, hholds⟩ := hstep.sound.writeAll href hroom
    rw [hstep.dir] at hlast hholds
    have hall := (Action.bind_of_ok (f := fun ref =>
      t.values.mapM (ValueFolder.writeTo id ref)) hok).trans hwrite
    exact .inr ⟨v, h', onValues_of_ok hall, hstep.trans (hlast.mono fun _ _ => hlocates), hholds⟩

end Store

end AppendStore
