import AppendStore.Proofs.Disk.Kinds

/-!
# The ids that a directory lists

A directory lists the id of every file whose name can be read as one of the kind, and
more names can be read than are ever made for a file: digits may be uppercase, and the
tag may have a plus sign. `Disk.Canonical` says that there are no such names. Then no id
is listed twice (`Disk.nodup_of_canonical`), and conversely if no id is listed twice, and
each listed one has a file by the name that is made for it, then there are no other names
(`Disk.canonical_of_nodup`).
-/

namespace AppendStore

theorem eq_of_nodup_filterMap {α β : Type} {f : α → Option β} {as : List α} {a a' : α} {b : β}
    (h : (as.filterMap f).Nodup) (ha : a ∈ as) (ha' : a' ∈ as) (hf : f a = some b)
    (hf' : f a' = some b) : a = a' := by
  induction as with
  | nil => cases ha
  | cons first rest ih =>
    have hrest : (rest.filterMap f).Nodup := h.sublist ((List.sublist_cons_self first rest).filterMap f)
    have hfirst : ∀ {x y : α}, x = first → y ∈ rest → f x = some b → f y ≠ some b := by
      rintro x y rfl hy hx hfy
      rw [List.filterMap_cons_some hx] at h
      exact (List.nodup_cons.1 h).1 (List.mem_filterMap.2 ⟨y, hy, hfy⟩)
    rcases List.mem_cons.1 ha with hx | ha
    · rcases List.mem_cons.1 ha' with hy | ha'
      · exact hx.trans hy.symm
      · exact absurd hf' (hfirst hx ha' hf)
    · rcases List.mem_cons.1 ha' with hy | ha'
      · exact absurd hf (hfirst hy ha hf')
      · exact ih hrest ha ha'

namespace Disk

variable {kind : FileKind} {entries : List (String × Entry)} {name : String} {entry : Entry}
  {id : UInt64} {r : StoreRef}

/-- Every file that counts as one of the kind has the name that is made for its id. -/
def Canonical (kind : FileKind) (entries : List (String × Entry)) : Prop :=
  ∀ e ∈ entries, ∀ id ∈ idOf? kind e, e.1 = FileName.of kind id

instance (kind : FileKind) (entries : List (String × Entry)) : Decidable (Canonical kind entries) :=
  @List.decidableBAll _ _ (fun e => Option.decidableForallMem (idOf? kind e)) entries

theorem mem_of_lookup (h : entries.lookup name = some entry) : (name, entry) ∈ entries := by
  obtain ⟨before, after, rfl, -⟩ := List.lookup_eq_some_iff.1 h
  exact List.mem_append_right _ List.mem_cons_self

/-- Where every name stands once, it stands for what is listed with it. -/
theorem lookup_of_mem (hdistinct : (entries.map (·.1)).Nodup) (h : (name, entry) ∈ entries) :
    entries.lookup name = some entry := by
  obtain ⟨before, after, rfl⟩ := List.append_of_mem h
  refine List.lookup_eq_some_iff.2 ⟨before, after, rfl, fun e he => bne_iff_ne.2 ?_⟩
  rw [List.map_append, List.nodup_append] at hdistinct
  exact (hdistinct.2.2 e.1 (List.mem_map_of_mem he) name List.mem_cons_self).symm

theorem exists_file_of_idOf? (h : idOf? kind (name, entry) = some id) : ∃ r, entry = .file r := by
  cases entry with
  | directory ref => cases h
  | file r => exact ⟨r, rfl⟩

/-- No id is listed twice where files have the names that are made for them. -/
theorem nodup_of_canonical (hdistinct : (entries.map (·.1)).Nodup)
    (hcanonical : Canonical kind entries) : (entries.filterMap (idOf? kind)).Nodup := by
  refine List.pairwise_filterMap.2 ((List.pairwise_map.1 hdistinct).imp_of_mem ?_)
  rintro e e' he he' hne id hid id' hid' rfl
  exact hne ((hcanonical e he id hid).trans (hcanonical e' he' id hid').symm)

/-- Files have the names that are made for them where no id is listed twice and there is a file by
the name of each. -/
theorem canonical_of_nodup (hnodup : (entries.filterMap (idOf? kind)).Nodup)
    (hfiles : ∀ id ∈ entries.filterMap (idOf? kind),
      ∃ r, entries.lookup (FileName.of kind id) = some (.file r)) : Canonical kind entries := by
  intro e he id hid
  obtain ⟨r, hlookup⟩ := hfiles id (List.mem_filterMap.2 ⟨e, he, hid⟩)
  have hsame : e = (FileName.of kind id, .file r) :=
    eq_of_nodup_filterMap hnodup he (mem_of_lookup hlookup) hid (idOf?_file kind id r)
  exact congrArg Prod.fst hsame

namespace Leads

variable {d : Disk} {dir : Path} {trail : List DirectoryRef}

theorem isFile_iff (hleads : d.Leads dir trail)
    (hrefusal : (dir.join (FileName.of kind id)).refusal? = none) :
    d.isFile (dir.join (FileName.of kind id)) = true ↔
      ∃ r, (d.children (lastOf trail)).lookup (FileName.of kind id) = some (.file r) := by
  have hname := FileName.plainName kind id
  have hlen : (FileName.of kind id).utf8ByteSize ≤ Path.maxNameBytes := by
    rw [FileName.utf8ByteSize_of]
    decide
  constructor
  · intro h
    unfold isFile at h
    split at h
    · next place r hfind =>
      obtain ⟨hlocate, hlookup, -⟩ := find_eq_file.1 hfind
      cases hlocate.symm.trans (hleads.locate_join hname hrefusal)
      rw [lookup_name hlen] at hlookup
      exact ⟨r, Except.ok.inj hlookup⟩
    · cases h
  · rintro ⟨r, hfound⟩
    exact isFile_of_file hleads hname hrefusal hlen hfound

/-- The ids in the directory are in order, and are those of the files whose names can be read. -/
theorem idsIn_cases (hleads : d.Leads dir trail) (kind : FileKind) :
    ∃ ids, idsIn kind dir d = .ok ids d ∧ ids.Pairwise (· ≤ ·) ∧
      ids.Perm ((d.children (lastOf trail)).filterMap (idOf? kind)) := by
  refine ⟨_, hleads.idsIn_eq kind, ?_, ?_⟩
  · exact List.pairwise_insertionSort _ _
  · rw [List.filterMap_reverse]
    exact (List.perm_insertionSort _ _).trans (List.reverse_perm _)

end Leads

end Disk

end AppendStore
