import AppendStore.Proofs.Disk.Naming

/-!
# Files of one kind

Files of all kinds can lie in one directory, and only their names tell them apart
(`FileName.kind_eq`). `Disk.Spares kind` says that a change of the disk is nothing to the
files of a kind: each has the bytes that it had, no file of the kind has come up, and the
directory lists the ids that it did.

Making directories spares the files of every kind (`Disk.spares_of_makeDirectory`). A file
that is opened or written spares the files of other kinds (`Disk.Opening.spares`,
`Disk.spares_setStore`).
-/

namespace AppendStore

/-- The kind of a file is read off its name. -/
theorem FileName.kind_eq {kind other : FileKind} {a b : UInt64} (h : of kind a = of other b) :
    kind = other := by
  have hparse := parse?_of kind a
  rw [h, parse?_of] at hparse
  cases hparse
  rfl

namespace Disk

variable {d d' d'' : Disk} {kind other : FileKind} {id : UInt64} {r : StoreRef} {dir : Path}

theorem idOf?_file (kind : FileKind) (id : UInt64) (r : StoreRef) :
    idOf? kind (FileName.of kind id, .file r) = some id := by
  rw [idOf?, FileName.parse?_of]
  exact if_pos rfl

theorem idOf?_of_ne (hne : other ≠ kind) (id : UInt64) (entry : Entry) :
    idOf? kind (FileName.of other id, entry) = none := by
  cases entry with
  | directory ref => rfl
  | file r =>
    rw [idOf?, FileName.parse?_of]
    exact if_neg hne

/-- The disk after changes that are nothing to the files of a kind. -/
structure Spares (kind : FileKind) (d d' : Disk) : Prop where
  extended : d.Extends d'
  file?_eq : ∀ (ref : DirectoryRef) (id : UInt64),
    d'.file? ref (FileName.of kind id) = d.file? ref (FileName.of kind id)
  listed : ∀ ref : DirectoryRef,
    (d'.children ref).filterMap (idOf? kind) = (d.children ref).filterMap (idOf? kind)

namespace Spares

theorem refl (kind : FileKind) (d : Disk) : d.Spares kind d :=
  ⟨fun _ _ _ hfound => hfound, fun _ _ => rfl, fun _ => rfl⟩

theorem trans (h : d.Spares kind d') (h' : d'.Spares kind d'') : d.Spares kind d'' where
  extended := fun _ _ _ hfound => h'.extended _ _ _ (h.extended _ _ _ hfound)
  file?_eq := fun ref id => (h'.file?_eq ref id).trans (h.file?_eq ref id)
  listed := fun ref => (h'.listed ref).trans (h.listed ref)

theorem store_eq (h : d.Spares kind d') {ref : DirectoryRef}
    (hfound : (d.children ref).lookup (FileName.of kind id) = some (.file r)) :
    d'.store r = d.store r := by
  have hsame := h.file?_eq ref id
  simp only [file?, hfound, h.extended _ _ _ hfound] at hsame
  exact Option.some.inj hsame

end Spares

theorem Names.lookup (h : d.Names (dir.join (FileName.of kind id)) r) :
    ∃ ref, (d.children ref).lookup (FileName.of kind id) = some (.file r) := by
  obtain ⟨ref, name, hlocates, hfound⟩ := h.entry
  rw [hlocates.name_eq (FileName.plainName kind id)] at hfound
  exact ⟨ref, hfound⟩

theorem spares_named {parent : DirectoryRef} {name : String} {inner : DirectoryRef}
    (hroom : parent.index < d.directories.size) (hfree : (d.children parent).lookup name = none) :
    d.Spares kind (mapChildren parent ((name, .directory inner) :: ·) d) := by
  have hextends : d.Extends (mapChildren parent ((name, .directory inner) :: ·) d) :=
    extends_mapChildren hroom hfree
  refine ⟨hextends, fun ref id => ?_, fun ref => ?_⟩
  · have hstore : ∀ r, (mapChildren parent ((name, .directory inner) :: ·) d).store r =
        d.store r := fun _ => rfl
    by_cases hsame : ref = parent
    · subst hsame
      unfold file?
      rw [children_mapChildren_same hroom, List.lookup_cons]
      by_cases hname : FileName.of kind id = name
      · rw [hname, hfree, beq_self_eq_true]
      · rw [beq_eq_false_iff_ne.2 hname]
        simp only [hstore]
    · unfold file?
      rw [children_mapChildren_other hsame]
      simp only [hstore]
  · by_cases hsame : ref = parent
    · subst hsame
      rw [children_mapChildren_same hroom]
      exact List.filterMap_cons_none rfl
    · rw [children_mapChildren_other hsame]

theorem spares_withDirectory (kind : FileKind) (d : Disk) : d.Spares kind d.withDirectory where
  extended := d.extends_withDirectory
  file?_eq := fun ref id => by
    unfold file?
    rw [withDirectory, children_push]
    rfl
  listed := fun ref => by rw [withDirectory, children_push]

theorem Spares.keeps_createDirectory (kind : FileKind) (d : Disk) (p : Path) :
    Action.Keeps (fun d' => d'.Linked ∧ d.Spares kind d') (createDirectory p) := by
  rintro d' ⟨hlinked, hspares⟩
  rcases createDirectory_cases hlinked p with
    ⟨e, herror⟩ | ⟨place, name, -, hname, hlookup, hroom, hok⟩
  · rw [herror]
    exact ⟨hlinked, hspares⟩
  · have hfree : (d'.withDirectory.children place.directory).lookup name = none := by
      rw [withDirectory, children_push]
      exact (lookup_eq_none hname hlookup).2
    have hnext := (keeps_linked p).of_ok hlinked hok
    rw [hok]
    exact ⟨hnext, hspares.trans ((spares_withDirectory kind d').trans
      (spares_named hroom hfree))⟩

theorem spares_of_makeDirectory (hlinked : d.Linked) (hmake : makeDirectory dir d = .ok () d')
    (kind : FileKind) : d.Spares kind d' :=
  ((keeps_makeDirectory (Spares.keeps_createDirectory kind d) dir).of_ok
    ⟨hlinked, .refl kind d⟩ hmake).2

/-- A file that is opened by its name spares the files of other kinds. -/
theorem Opening.spares (h : d.Opening (dir.join (FileName.of other id)) r d') (hlinked : d.Linked)
    (hne : other ≠ kind) : d.Spares kind d' where
  extended := h.extended
  file?_eq := fun ref id' => h.file?_eq hlinked fun hlocates =>
    hne (FileName.kind_eq (hlocates.name_eq (FileName.plainName other id))).symm
  listed := fun ref => by
    rcases h.grows with rfl | ⟨-, -, parent, name, hlocates, hgrown⟩
    · rfl
    · by_cases hsame : ref = parent
      · subst hsame
        rw [hgrown.children_same, hlocates.name_eq (FileName.plainName other id)]
        exact List.filterMap_cons_none (idOf?_of_ne hne id _)
      · rw [hgrown.children_other hsame]

/-- Other bytes in a file spare the files of other kinds. -/
theorem spares_setStore (hlinked : d.Linked) {ref : DirectoryRef}
    (hfound : (d.children ref).lookup (FileName.of other id) = some (.file r)) (hne : other ≠ kind)
    (b : ByteStore) : d.Spares kind (d.setStore r b) where
  extended := .of_directories rfl
  file?_eq := fun _ _ => file?_setStore_of_ne hlinked hfound
    fun heq => hne (FileName.kind_eq heq.2).symm
  listed := fun _ => rfl

end Disk

end AppendStore
