import Mathlib.Data.List.Sort
import AppendStore.Disk.Directory
import AppendStore.Proofs.Disk.FileName
import AppendStore.Proofs.Disk.Path

/-!
# Files in a directory

`Disk.Leads` says that a path leads to a directory. It then leads to every name in it
(`Disk.Leads.locate_join`), and making the directory once more does nothing
(`Disk.Leads.makeDirectory_eq`). A new entry under a free name changes no other one,
so every path that led to a directory still does (`Disk.Extends.leads`).

`Disk.openOrCreate_of_file`, `Disk.openOrCreate_of_free` and
`Disk.openOrCreate_of_directory` say what opening a file in the directory does, and
`Disk.Leads.idsIn_eq` lists the ids of the files that are there, in the order of the
library's insertion sort (`sortBy_eq_insertionSort`).
-/

namespace AppendStore

theorem insertBy_eq_orderedInsert {α : Type} (r : α → α → Prop) [DecidableRel r] (a : α)
    (bs : List α) : insertBy (fun a b => decide (r a b)) a bs = bs.orderedInsert r a := by
  induction bs with
  | nil => rfl
  | cons b bs ih => simp only [insertBy, decide_eq_true_eq, List.orderedInsert_cons, ih]

/-- Sorting is the insertion sort of the library. -/
theorem sortBy_eq_insertionSort {α : Type} (r : α → α → Prop) [DecidableRel r] (as : List α) :
    sortBy (fun a b => decide (r a b)) as = as.insertionSort r := by
  induction as with
  | nil => rfl
  | cons a as ih =>
    rw [List.insertionSort_cons, ← ih, ← insertBy_eq_orderedInsert]
    rfl

theorem FileName.plainName (kind : FileKind) (id : UInt64) : PlainName (FileName.of kind id) where
  nonempty := by
    rw [FileName.toList_of, hexPair]
    exact List.cons_ne_nil _ _
  slash := fun h => (FileName.isDigit_of_mem h).plain.2.1 rfl
  dot := fun h => (FileName.isDigit_of_mem h).plain.2.2.1 rfl
  nul := fun h => (FileName.isDigit_of_mem h).plain.2.2.2 rfl

namespace Place

theorem step_eq (trail : List DirectoryRef) {name : String} (hname : PlainName name) :
    step trail name = ⟨trail, some name⟩ := by
  have hdot : name ≠ "." := fun h => hname.dot (h ▸ List.mem_singleton.2 rfl)
  have hback : name ≠ ".." := fun h => hname.dot (h ▸ List.mem_cons_self)
  rw [step, if_neg hdot, if_neg hback]

end Place

namespace Disk

variable {d d' : Disk} {dir : Path} {trail : List DirectoryRef} {place : Place}

theorem observe_of_ok {α : Type} {look : Disk → Except IoKind α} {a : α} (h : look d = .ok a) :
    observe look d = .ok a d := by
  simp only [observe, h]

theorem observe_eq_ok {α : Type} {look : Disk → Except IoKind α} {a : α}
    (h : observe look d = .ok a d') : look d = .ok a := by
  unfold observe at h
  cases hlook : look d with
  | error kind =>
    rw [hlook] at h
    cases h
  | ok b =>
    rw [hlook] at h
    cases h
    rfl

theorem walk_append (d : Disk) (place : Place) (names more : List String) :
    d.walk place (names ++ more) =
      match d.walk place names with
      | .error kind => .error kind
      | .ok place => d.walk place more := by
  induction names generalizing place with
  | nil => rfl
  | cons name names ih =>
    rw [List.cons_append, walk, walk]
    cases d.enter place with
    | error kind => rfl
    | ok trail => exact ih _

/-- The path leads into the directory at the end of the trail. -/
structure Leads (d : Disk) (dir : Path) (trail : List DirectoryRef) : Prop where
  nonempty : dir.isEmpty = false
  enter : ∃ place, d.locate dir = .ok place ∧ d.enter place = .ok trail

def lastOf (trail : List DirectoryRef) : DirectoryRef := trail.headD ⟨0⟩

theorem lookup_of_enter (h : d.enter place = .ok trail) :
    d.lookup place = .ok (some (.directory (lastOf trail))) := by
  unfold enter at h
  cases hname : place.name? with
  | none =>
    simp only [hname, Except.ok.injEq] at h
    simp only [lookup, hname, Place.directory, h, lastOf]
  | some name =>
    simp only [hname] at h
    cases hlookup : d.lookup place with
    | error kind =>
      rw [hlookup] at h
      cases h
    | ok entry? =>
      rw [hlookup] at h
      match entry? with
      | none => cases h
      | some (.file ref) => cases h
      | some (.directory ref) =>
        cases h
        rfl

theorem isEmpty_eq_false_of_locate (h : d.locate dir = .ok place) : dir.isEmpty = false := by
  unfold locate at h
  cases hrefusal : dir.refusal? with
  | some kind =>
    rw [hrefusal] at h
    cases h
  | none =>
    cases hempty : dir.isEmpty with
    | false => rfl
    | true =>
      rw [Path.refusal?, hempty] at hrefusal
      split at hrefusal <;> cases hrefusal

theorem leads_of_find {ref : DirectoryRef} (h : d.find dir = .ok (place, .directory ref)) :
    ∃ trail, d.Leads dir trail ∧ lastOf trail = ref := by
  unfold find at h
  cases hlocate : d.locate dir with
  | error kind =>
    rw [hlocate] at h
    cases h
  | ok found =>
    simp only [hlocate] at h
    cases hlookup : d.lookup found with
    | error kind =>
      rw [hlookup] at h
      cases h
    | ok entry? =>
      rw [hlookup] at h
      match entry? with
      | none => cases h
      | some (.file store) =>
        simp only at h
        split at h <;> cases h
      | some (.directory inner) =>
        cases h
        have hnonempty := isEmpty_eq_false_of_locate hlocate
        cases hname : place.name? with
        | none =>
          refine ⟨place.trail, ⟨hnonempty, place, hlocate, ?_⟩, ?_⟩
          · simp only [enter, hname]
          · simp only [lookup, hname] at hlookup
            cases hlookup
            rfl
        | some name =>
          refine ⟨ref :: place.trail, ⟨hnonempty, place, hlocate, ?_⟩, rfl⟩
          simp only [enter, hname, hlookup]

theorem settle_of_isDirectory (h : d.isDirectory dir = true) (made : Except IoError Unit) :
    createWith.settle dir made d = .ok () d := by
  cases made with
  | ok u => rfl
  | error e =>
    unfold createWith.settle
    simp only
    rw [Action.get_bind, if_pos h]
    rfl

theorem find_of_idsIn {kind : FileKind} {ids : List UInt64} (h : idsIn kind dir d = .ok ids d') :
    ∃ place ref, d.find dir = .ok (place, .directory ref) := by
  unfold idsIn at h
  obtain ⟨names, d₁, hnames, -⟩ := Action.bind_eq_ok h
  unfold entriesOf at hnames
  obtain ⟨⟨place, entry⟩, d₂, hfind, hnames⟩ := Action.bind_eq_ok hnames
  have hfound := observe_eq_ok hfind
  cases entry with
  | directory ref => exact ⟨place, ref, hfound⟩
  | file ref => cases hnames

namespace Leads

theorem trail_eq {trail' : List DirectoryRef} (h : d.Leads dir trail) (h' : d.Leads dir trail') :
    trail = trail' := by
  obtain ⟨place, hlocate, henter⟩ := h.enter
  obtain ⟨place', hlocate', henter'⟩ := h'.enter
  cases hlocate.symm.trans hlocate'
  cases henter.symm.trans henter'
  rfl

theorem find_eq (h : d.Leads dir trail) :
    ∃ place, d.locate dir = .ok place ∧ d.lookup place = .ok (some (.directory (lastOf trail))) ∧
      d.find dir = .ok (place, .directory (lastOf trail)) := by
  obtain ⟨place, hlocate, henter⟩ := h.enter
  have hlookup := lookup_of_enter henter
  exact ⟨place, hlocate, hlookup, by simp only [find, hlocate, hlookup]⟩

/-- A path into a directory leads to every name in it that the file system takes. -/
theorem locate_join (h : d.Leads dir trail) {name : String} (hname : PlainName name)
    (hrefusal : (dir.join name).refusal? = none) :
    d.locate (dir.join name) = .ok ⟨trail, some name⟩ := by
  obtain ⟨place, hlocate, henter⟩ := h.enter
  unfold locate at hlocate ⊢
  cases hdir : dir.refusal? with
  | some kind =>
    rw [hdir] at hlocate
    cases hlocate
  | none =>
    simp only [hdir] at hlocate
    simp only [hrefusal]
    rw [Path.isAbsolute_join h.nonempty, Path.parts_join h.nonempty hname, List.reverse_cons,
      walk_append, hlocate]
    simp only [walk, henter, Place.step_eq trail hname]

/-- Where the path of one file is taken, those of all files are. -/
theorem refusal?_eq_none (h : d.Leads dir trail) {kind other : FileKind} {id id' : UInt64}
    (htaken : (dir.join (FileName.of kind id)).refusal? = none) :
    (dir.join (FileName.of other id')).refusal? = none := by
  have hsize : (FileName.of other id').utf8ByteSize = (FileName.of kind id).utf8ByteSize :=
    (FileName.utf8ByteSize_of _ _).trans (FileName.utf8ByteSize_of _ _).symm
  rw [← htaken]
  exact Path.refusal?_join h.nonempty (FileName.plainName _ _) (FileName.plainName _ _) hsize

/-- Making a directory that is there does nothing. -/
theorem makeDirectory_eq (h : d.Leads dir trail) : makeDirectory dir d = .ok () d := by
  obtain ⟨place, hlocate, hlookup, hfind⟩ := h.find_eq
  have hcreate : createDirectory dir d = .error (.refused .alreadyExists) d := by
    unfold createDirectory
    rw [Action.bind_of_ok (observe_of_ok hlocate), Action.bind_of_ok (observe_of_ok hlookup)]
    rfl
  have hthere : d.isDirectory dir = true := by simp only [isDirectory, hfind]
  unfold makeDirectory createWith
  rw [h.nonempty, if_neg Bool.false_ne_true, Action.bind_of_ok (Action.attempt_of_error hcreate)]
  exact settle_of_isDirectory hthere _

/-- The ids in the directory are read off its names. -/
theorem idsIn_eq (h : d.Leads dir trail) (kind : FileKind) :
    idsIn kind dir d = .ok (((d.children (lastOf trail)).reverse.filterMap
      (idOf? kind)).insertionSort (· ≤ ·)) d := by
  obtain ⟨place, -, -, hfind⟩ := h.find_eq
  have hentries : entriesOf dir d = .ok (d.children (lastOf trail)).reverse d := by
    unfold entriesOf
    rw [Action.bind_of_ok (observe_of_ok hfind)]
    rfl
  unfold idsIn
  rw [Action.bind_of_ok hentries, sortBy_eq_insertionSort]
  rfl

end Leads

/-- Every name that stands for something still stands for it. -/
def Extends (d d' : Disk) : Prop :=
  ∀ (ref : DirectoryRef) (name : String) (entry : Entry),
    (d.children ref).lookup name = some entry → (d'.children ref).lookup name = some entry

namespace Extends

theorem of_directories (h : d'.directories = d.directories) : d.Extends d' := by
  intro ref name entry hfound
  rw [children, h]
  exact hfound

theorem enter (h : d.Extends d') (henter : d.enter place = .ok trail) :
    d'.enter place = .ok trail := by
  unfold Disk.enter at henter ⊢
  cases hname : place.name? with
  | none =>
    rw [hname] at henter
    exact henter
  | some name =>
    simp only [hname, lookup] at henter ⊢
    by_cases hlong : Path.maxNameBytes < name.utf8ByteSize
    · rw [if_pos hlong] at henter
      cases henter
    · rw [if_neg hlong] at henter ⊢
      cases hfound : (d.children place.directory).lookup name with
      | none =>
        rw [hfound] at henter
        cases henter
      | some entry =>
        rw [hfound] at henter
        rw [h _ _ _ hfound]
        exact henter

theorem walk (h : d.Extends d') {start : Place} {names : List String}
    (hwalk : d.walk start names = .ok place) : d'.walk start names = .ok place := by
  induction names generalizing start with
  | nil => exact hwalk
  | cons name names ih =>
    rw [Disk.walk] at hwalk ⊢
    cases henter : d.enter start with
    | error kind =>
      rw [henter] at hwalk
      cases hwalk
    | ok trail =>
      rw [henter] at hwalk
      rw [h.enter henter]
      exact ih hwalk

/-- A path that leads to a directory still does. -/
theorem leads (h : d.Extends d') (hleads : d.Leads dir trail) : d'.Leads dir trail := by
  obtain ⟨place, hlocate, henter⟩ := hleads.enter
  refine ⟨hleads.nonempty, place, ?_, h.enter henter⟩
  unfold locate at hlocate ⊢
  cases hrefusal : dir.refusal? with
  | some kind =>
    rw [hrefusal] at hlocate
    cases hlocate
  | none =>
    rw [hrefusal] at hlocate
    exact h.walk hlocate

end Extends

theorem children_mapChildren_same {parent : DirectoryRef}
    {f : List (String × Entry) → List (String × Entry)} (h : parent.index < d.directories.size) :
    (mapChildren parent f d).children parent = f (d.children parent) := by
  rw [children, mapChildren, children, Array.getD_eq_getD_getElem?, Array.getD_eq_getD_getElem?,
    Array.getElem?_modify, if_pos rfl, Array.getElem?_eq_getElem h]
  rfl

theorem children_mapChildren_other {parent ref : DirectoryRef}
    {f : List (String × Entry) → List (String × Entry)} (hne : ref ≠ parent) :
    (mapChildren parent f d).children ref = d.children ref := by
  have hindex : parent.index ≠ ref.index := by
    intro heq
    cases ref
    cases parent
    exact hne (congrArg DirectoryRef.mk heq.symm)
  rw [children, mapChildren, children, Array.getD_eq_getD_getElem?, Array.getD_eq_getD_getElem?,
    Array.getElem?_modify, if_neg hindex]

theorem extends_mapChildren {parent : DirectoryRef} {name : String} {entry : Entry}
    (hroom : parent.index < d.directories.size) (hfree : (d.children parent).lookup name = none) :
    d.Extends (mapChildren parent ((name, entry) :: ·) d) := by
  intro ref other found hfound
  by_cases hsame : ref = parent
  · subst hsame
    have hne : (other == name) = false := by
      rw [beq_eq_false_iff_ne]
      intro heq
      rw [heq, hfree] at hfound
      cases hfound
    rw [children_mapChildren_same hroom, List.lookup_cons, hne]
    exact hfound
  · rw [children_mapChildren_other hsame]
    exact hfound

/-- The disk with one more file in a directory, under a name that was free. -/
structure Grown (d : Disk) (parent : DirectoryRef) (name : String) (s : ByteStore) (d' : Disk) :
    Prop where
  room : parent.index < d.directories.size
  free : (d.children parent).lookup name = none
  eq : d' = mapChildren parent ((name, .file ⟨d.stores.size⟩) :: ·)
    { d with stores := d.stores.push s }

namespace Grown

variable {parent : DirectoryRef} {name : String} {s : ByteStore}

theorem children_same (h : d.Grown parent name s d') :
    d'.children parent = (name, .file ⟨d.stores.size⟩) :: d.children parent := by
  rw [h.eq]
  exact children_mapChildren_same h.room

theorem children_other (h : d.Grown parent name s d') {ref : DirectoryRef} (hne : ref ≠ parent) :
    d'.children ref = d.children ref := by
  rw [h.eq]
  exact children_mapChildren_other hne

theorem extended (h : d.Grown parent name s d') : d.Extends d' := by
  rw [h.eq]
  exact @extends_mapChildren { d with stores := d.stores.push s } _ _ _ h.room h.free

theorem directories_size (h : d.Grown parent name s d') :
    d'.directories.size = d.directories.size := by
  rw [h.eq, mapChildren, Array.size_modify]

theorem stores_eq (h : d.Grown parent name s d') : d'.stores = d.stores.push s := by
  rw [h.eq, mapChildren]

end Grown

theorem refusal?_of_openOrCreate {p : Path} {ref : StoreRef} (h : openOrCreate p d = .ok ref d') :
    p.refusal? = none := by
  unfold openOrCreate at h
  obtain ⟨place, d₁, hobserve, -⟩ := Action.bind_eq_ok h
  have hlocate := observe_eq_ok hobserve
  unfold locate at hlocate
  cases hrefusal : p.refusal? with
  | none => rfl
  | some kind =>
    rw [hrefusal] at hlocate
    cases hlocate

section Opening

variable {name : String}

theorem lookup_name (hlen : name.utf8ByteSize ≤ Path.maxNameBytes) :
    d.lookup ⟨trail, some name⟩ = .ok ((d.children (lastOf trail)).lookup name) := by
  simp only [lookup, if_neg (Nat.not_lt_of_le hlen)]
  rfl

/-- A file in the directory is opened by what its name stands for. -/
theorem openOrCreate_join (hleads : d.Leads dir trail) (hname : PlainName name)
    (hrefusal : (dir.join name).refusal? = none) (hlen : name.utf8ByteSize ≤ Path.maxNameBytes) :
    openOrCreate (dir.join name) d =
      (match (d.children (lastOf trail)).lookup name with
        | some (.directory _) => refuse .isADirectory
        | some (.file ref) => return ref
        | none => do
          let ref ← newStore (.onDisk [])
          addEntry ⟨trail, some name⟩ (.file ref)
          return ref : EStateM IoError Disk StoreRef) d := by
  have hlocate : observe (·.locate (dir.join name)) d = .ok ⟨trail, some name⟩ d :=
    observe_of_ok (hleads.locate_join hname hrefusal)
  have hlookup : observe (·.lookup ⟨trail, some name⟩) d =
      .ok ((d.children (lastOf trail)).lookup name) d :=
    observe_of_ok (lookup_name hlen)
  unfold openOrCreate
  rw [Action.bind_of_ok hlocate, Path.endsInSlash_join hleads.nonempty hname,
    if_neg Bool.false_ne_true]
  apply (Action.bind_of_ok hlookup).trans
  cases (d.children (lastOf trail)).lookup name with
  | none => rfl
  | some entry => cases entry <;> rfl

/-- A free name in the directory is given to a new file. -/
theorem openOrCreate_of_free (hleads : d.Leads dir trail) (hname : PlainName name)
    (hrefusal : (dir.join name).refusal? = none) (hlen : name.utf8ByteSize ≤ Path.maxNameBytes)
    (hroom : (lastOf trail).index < d.directories.size)
    (hfree : (d.children (lastOf trail)).lookup name = none) :
    ∃ d', openOrCreate (dir.join name) d = .ok ⟨d.stores.size⟩ d' ∧
      d.Grown (lastOf trail) name (.onDisk []) d' := by
  refine ⟨_, ?_, hroom, hfree, rfl⟩
  rw [openOrCreate_join hleads hname hrefusal hlen, hfree]
  rfl

/-- A file in the directory is opened as it is. -/
theorem openOrCreate_of_file {ref : StoreRef} (hleads : d.Leads dir trail) (hname : PlainName name)
    (hrefusal : (dir.join name).refusal? = none) (hlen : name.utf8ByteSize ≤ Path.maxNameBytes)
    (hfound : (d.children (lastOf trail)).lookup name = some (.file ref)) :
    openOrCreate (dir.join name) d = .ok ref d := by
  rw [openOrCreate_join hleads hname hrefusal hlen, hfound]
  rfl

/-- A directory is not opened as a file. -/
theorem openOrCreate_of_directory {ref : DirectoryRef} (hleads : d.Leads dir trail)
    (hname : PlainName name) (hrefusal : (dir.join name).refusal? = none)
    (hlen : name.utf8ByteSize ≤ Path.maxNameBytes)
    (hfound : (d.children (lastOf trail)).lookup name = some (.directory ref)) :
    openOrCreate (dir.join name) d = .error (.refused .isADirectory) d := by
  rw [openOrCreate_join hleads hname hrefusal hlen, hfound]
  rfl

theorem isFile_of_file {ref : StoreRef} (hleads : d.Leads dir trail) (hname : PlainName name)
    (hrefusal : (dir.join name).refusal? = none) (hlen : name.utf8ByteSize ≤ Path.maxNameBytes)
    (hfound : (d.children (lastOf trail)).lookup name = some (.file ref)) :
    d.isFile (dir.join name) = true := by
  simp only [isFile, find, hleads.locate_join hname hrefusal, lookup_name hlen, hfound,
    Path.endsInSlash_join hleads.nonempty hname, if_neg Bool.false_ne_true]

theorem lookup_of_find_join (hleads : d.Leads dir trail) (hname : PlainName name)
    (hrefusal : (dir.join name).refusal? = none) (hlen : name.utf8ByteSize ≤ Path.maxNameBytes)
    (hfind : d.find (dir.join name) = .error .notFound) :
    (d.children (lastOf trail)).lookup name = none := by
  cases hfound : (d.children (lastOf trail)).lookup name with
  | none => rfl
  | some entry =>
    simp only [find, hleads.locate_join hname hrefusal, lookup_name hlen, hfound] at hfind
    cases entry with
    | directory ref => cases hfind
    | file ref =>
      simp only [Path.endsInSlash_join hleads.nonempty hname, if_neg Bool.false_ne_true] at hfind
      cases hfind

theorem find_join_of_free (hleads : d.Leads dir trail) (hname : PlainName name)
    (hrefusal : (dir.join name).refusal? = none) (hlen : name.utf8ByteSize ≤ Path.maxNameBytes)
    (hfree : (d.children (lastOf trail)).lookup name = none) :
    d.find (dir.join name) = .error .notFound := by
  simp only [find, hleads.locate_join hname hrefusal, lookup_name hlen, hfree]

end Opening

end Disk

end AppendStore
