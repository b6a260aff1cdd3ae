import AppendStore.Proofs.Disk.Linked

/-!
# Paths of files

`Disk.Names` says that a path leads to a file. Opening the path gives that file, and the
only other thing it can do is to make an empty one there: `Disk.openOrCreate_cases` and
`Disk.openExisting_cases`. `Disk.Opening` is what the disk has become then, and
`Disk.Opening.file?_eq` says that no name but the one in that place stands for another file.
-/

namespace AppendStore

namespace Disk

variable {d d' : Disk} {p dir : Path} {place : Place} {r r' : StoreRef} {name other : String}
  {ref : DirectoryRef}

def file? (d : Disk) (ref : DirectoryRef) (name : String) : Option ByteStore :=
  match (d.children ref).lookup name with
  | some (.file r) => some (d.store r)
  | _ => none

/-- The path leads to the file with these bytes. -/
def Names (d : Disk) (p : Path) (r : StoreRef) : Prop := ∃ place, d.find p = .ok (place, .file r)

/-- The place that a path leads to is this name. -/
def Locates (d : Disk) (p : Path) (ref : DirectoryRef) (name : String) : Prop :=
  ∃ place, d.locate p = .ok place ∧ place.directory = ref ∧ place.name? = some name

theorem find_eq_file : d.find p = .ok (place, .file r) ↔
    d.locate p = .ok place ∧ d.lookup place = .ok (some (.file r)) ∧ p.endsInSlash = false := by
  constructor
  · intro h
    unfold find at h
    cases hlocate : d.locate p with
    | error kind =>
      rw [hlocate] at h
      cases h
    | ok found =>
      simp only [hlocate] at h
      cases hlookup : d.lookup found with
      | error kind =>
        rw [hlookup] at h
        cases h
      | ok entry? =>
        rw [hlookup] at h
        match entry? with
        | none => cases h
        | some (.directory ref) => cases h
        | some (.file store) =>
          cases hslash : p.endsInSlash with
          | true =>
            simp only [hslash, if_true] at h
            cases h
          | false =>
            simp only [hslash, if_neg Bool.false_ne_true] at h
            cases h
            exact ⟨rfl, hlookup, rfl⟩
  · rintro ⟨hlocate, hlookup, hslash⟩
    simp only [find, hlocate, hlookup, hslash, if_neg Bool.false_ne_true]

theorem lookup_eq_some {entry : Entry} (hname : place.name? = some name)
    (h : d.lookup place = .ok (some entry)) :
    name.utf8ByteSize ≤ Path.maxNameBytes ∧
      (d.children place.directory).lookup name = some entry := by
  simp only [lookup, hname] at h
  by_cases hlong : Path.maxNameBytes < name.utf8ByteSize
  · rw [if_pos hlong] at h
    cases h
  · rw [if_neg hlong] at h
    exact ⟨Nat.le_of_not_lt hlong, Except.ok.inj h⟩

namespace Names

theorem unique (h : d.Names p r) (h' : d.Names p r') : r = r' := by
  obtain ⟨place, hfind⟩ := h
  obtain ⟨place', hfind'⟩ := h'
  cases hfind.symm.trans hfind'
  rfl

theorem entry (h : d.Names p r) : ∃ ref name, d.Locates p ref name ∧
    (d.children ref).lookup name = some (.file r) := by
  obtain ⟨place, hfind⟩ := h
  obtain ⟨hlocate, hlookup, -⟩ := find_eq_file.1 hfind
  obtain ⟨name, hname⟩ := @name?_of_lookup d place (by rw [hlookup]; rintro ref ⟨⟩)
  exact ⟨place.directory, name, ⟨place, hlocate, rfl, hname⟩, (lookup_eq_some hname hlookup).2⟩

theorem lt (hlinked : d.Linked) (h : d.Names p r) : r.index < d.stores.size := by
  obtain ⟨ref, name, -, hfound⟩ := h.entry
  exact hlinked.files hfound

theorem extended (h : d.Names p r) (hextends : d.Extends d') : d'.Names p r := by
  obtain ⟨place, hfind⟩ := h
  obtain ⟨hlocate, hlookup, hslash⟩ := find_eq_file.1 hfind
  obtain ⟨name, hname⟩ := @name?_of_lookup d place (by rw [hlookup]; rintro ref ⟨⟩)
  obtain ⟨hshort, hfound⟩ := lookup_eq_some hname hlookup
  refine ⟨place, find_eq_file.2 ⟨hextends.locate hlocate, ?_, hslash⟩⟩
  simp only [Disk.lookup, hname, if_neg (Nat.not_lt_of_le hshort), hextends _ _ _ hfound]

theorem setStore (h : d.Names p r) (r' : StoreRef) (b : ByteStore) :
    (d.setStore r' b).Names p r :=
  h.extended (.of_directories rfl)

end Names

/-- The disk after the file at a path was opened: as it was, or with a new empty file there. -/
structure Opening (d : Disk) (p : Path) (r : StoreRef) (d' : Disk) : Prop where
  names : d'.Names p r
  grows : d' = d ∨ (r = ⟨d.stores.size⟩ ∧ (∀ r', ¬ d.Names p r') ∧ ∃ ref name,
    d.Locates p ref name ∧ d.Grown ref name (.onDisk []) d')

/-- The file at the path is opened if there is one. -/
theorem openExisting_cases (d : Disk) (p : Path) :
    (∃ kind, openExisting p d = .error (.refused kind) d ∧ ∀ r, ¬ d.Names p r) ∨
      ∃ r, openExisting p d = .ok r d ∧ d.Names p r := by
  unfold openExisting
  cases hfind : d.find p with
  | error kind =>
    have hobserve : observe (·.find p) d = .error (.refused kind) d := by simp only [observe, hfind]
    refine .inl ⟨kind, Action.bind_of_error hobserve, ?_⟩
    rintro r ⟨place, hfile⟩
    cases hfind.symm.trans hfile
  | ok found =>
    obtain ⟨place, entry⟩ := found
    rw [Action.bind_of_ok (observe_of_ok hfind)]
    cases entry with
    | directory ref =>
      refine .inl ⟨_, rfl, ?_⟩
      rintro r ⟨place', hfile⟩
      cases hfind.symm.trans hfile
    | file r => exact .inr ⟨r, rfl, place, hfind⟩

theorem openOrCreate_of_none (h : d.Linked) (hlocate : d.locate p = .ok place)
    (hslash : p.endsInSlash = false) (hlookup : d.lookup place = .ok none) :
    ∃ r d', openOrCreate p d = .ok r d' ∧ d.Opening p r d' := by
  obtain ⟨name, hname⟩ := @name?_of_lookup d place (by rw [hlookup]; rintro ref ⟨⟩)
  obtain ⟨hshort, hfree⟩ := lookup_eq_none hname hlookup
  have hgrown : d.Grown place.directory name (.onDisk []) (mapChildren place.directory
      ((name, .file ⟨d.stores.size⟩) :: ·) { d with stores := d.stores.push (.onDisk []) }) :=
    ⟨h.directory_lt hlocate, hfree, rfl⟩
  refine ⟨⟨d.stores.size⟩, _, ?_, ⟨place, ?_⟩, .inr ⟨rfl, ?_, place.directory, name,
    ⟨place, hlocate, rfl, hname⟩, hgrown⟩⟩
  · have hnew : (newStore (.onDisk []) : EStateM IoError Disk StoreRef) d =
        .ok ⟨d.stores.size⟩ { d with stores := d.stores.push (.onDisk []) } := rfl
    unfold openOrCreate
    rw [Action.bind_of_ok (observe_of_ok hlocate), hslash, if_neg Bool.false_ne_true,
      Action.bind_of_ok (observe_of_ok hlookup)]
    simp only
    rw [Action.bind_of_ok hnew]
    simp only [addEntry, hname]
    rfl
  · refine find_eq_file.2 ⟨hgrown.extended.locate hlocate, ?_, hslash⟩
    simp only [lookup, hname, if_neg (Nat.not_lt_of_le hshort), hgrown.children_same,
      List.lookup_cons, beq_self_eq_true]
  · rintro r' ⟨place', hfind⟩
    obtain ⟨hlocate', hlookup', -⟩ := find_eq_file.1 hfind
    cases hlocate.symm.trans hlocate'
    cases hlookup.symm.trans hlookup'

theorem openOrCreate_of_names (h : d.Names p r) : openOrCreate p d = .ok r d := by
  obtain ⟨place, hfind⟩ := h
  obtain ⟨hlocate, hlookup, hslash⟩ := find_eq_file.1 hfind
  unfold openOrCreate
  rw [Action.bind_of_ok (observe_of_ok hlocate), hslash, if_neg Bool.false_ne_true,
    Action.bind_of_ok (observe_of_ok hlookup)]
  rfl

/-- A path that cannot be opened leaves the disk as it is. -/
theorem openOrCreate_cases (h : d.Linked) (p : Path) :
    (∃ kind, openOrCreate p d = .error (.refused kind) d) ∨
      ∃ r d', openOrCreate p d = .ok r d' ∧ d.Opening p r d' := by
  cases hlocate : d.locate p with
  | error kind =>
    have hobserve : observe (·.locate p) d = .error (.refused kind) d := by
      simp only [observe, hlocate]
    exact .inl ⟨kind, Action.bind_of_error hobserve⟩
  | ok place =>
    cases hslash : p.endsInSlash with
    | true =>
      refine .inl ⟨.isADirectory, ?_⟩
      unfold openOrCreate
      rw [Action.bind_of_ok (observe_of_ok hlocate), hslash, if_pos rfl]
      rfl
    | false =>
      cases hlookup : d.lookup place with
      | error kind =>
        have hobserve : observe (·.lookup place) d = .error (.refused kind) d := by
          simp only [observe, hlookup]
        refine .inl ⟨kind, ?_⟩
        unfold openOrCreate
        rw [Action.bind_of_ok (observe_of_ok hlocate), hslash, if_neg Bool.false_ne_true]
        exact Action.bind_of_error hobserve
      | ok found? =>
        cases found? with
        | none => exact .inr (openOrCreate_of_none h hlocate hslash hlookup)
        | some entry =>
          unfold openOrCreate
          rw [Action.bind_of_ok (observe_of_ok hlocate), hslash, if_neg Bool.false_ne_true,
            Action.bind_of_ok (observe_of_ok hlookup)]
          cases entry with
          | directory ref => exact .inl ⟨_, rfl⟩
          | file r =>
            have hnames : d.Names p r := ⟨place, find_eq_file.2 ⟨hlocate, hlookup, hslash⟩⟩
            exact .inr ⟨r, d, rfl, hnames, .inl rfl⟩

namespace Opening

theorem of_names (h : d.Names p r) : d.Opening p r d := ⟨h, .inl rfl⟩

theorem linked (h : d.Opening p r d') (hlinked : d.Linked) : d'.Linked := by
  rcases h.grows with rfl | ⟨-, -, ref, name, -, hgrown⟩
  · exact hlinked
  · exact hlinked.grown hgrown

theorem extended (h : d.Opening p r d') : d.Extends d' := by
  rcases h.grows with rfl | ⟨-, -, ref, name, -, hgrown⟩
  · exact fun _ _ _ hfound => hfound
  · exact hgrown.extended

theorem store_old (h : d.Opening p r d') (hr : r'.index < d.stores.size) :
    d'.store r' = d.store r' := by
  rcases h.grows with rfl | ⟨-, -, ref, name, -, hgrown⟩
  · rfl
  · exact hgrown.store_old hr

/-- A file that a name stands for is a new one, or it was there before. -/
theorem file?_cases (h : d.Opening p r d') (hlinked : d.Linked) {b : ByteStore}
    (hfile : d'.file? ref name = some b) : b = .onDisk [] ∨ d.file? ref name = some b := by
  rcases h.grows with rfl | ⟨-, -, parent, other, -, hgrown⟩
  · exact .inr hfile
  · unfold file? at hfile ⊢
    split at hfile
    · next found hfound =>
      cases hfile
      rcases hgrown.lookup_cases hfound with ⟨-, -, heq⟩ | hold
      · cases heq
        exact .inl hgrown.store_new
      · rw [hold, hgrown.store_old (hlinked.files hold)]
        exact .inr rfl
    · cases hfile

/-- Every name but the one at the path stands for the file it did. -/
theorem file?_eq (h : d.Opening p r d') (hlinked : d.Linked) {ref : DirectoryRef}
    {other : String} (hother : ¬ d.Locates p ref other) :
    d'.file? ref other = d.file? ref other := by
  rcases h.grows with rfl | ⟨-, -, parent, name, hlocates, hgrown⟩
  · rfl
  · have hlookup : (d'.children ref).lookup other = (d.children ref).lookup other := by
      by_cases href : ref = parent
      · subst href
        have hne : (other == name) = false :=
          beq_eq_false_iff_ne.2 fun heq => hother (heq ▸ hlocates)
        rw [hgrown.children_same, List.lookup_cons, hne]
      · rw [hgrown.children_other href]
    unfold file?
    rw [hlookup]
    split
    · next hfound => rw [hgrown.store_old (hlinked.files hfound)]
    · rfl

end Opening

/-- The disk after changes to the files of some names, and to no others. -/
structure Touches (P : DirectoryRef → String → Prop) (d d' : Disk) : Prop where
  extended : d.Extends d'
  same : ∀ {ref : DirectoryRef} {name : String}, ¬ P ref name → d'.file? ref name = d.file? ref name

namespace Touches

variable {P Q : DirectoryRef → String → Prop} {d'' : Disk}

theorem refl (P : DirectoryRef → String → Prop) (d : Disk) : Touches P d d :=
  ⟨fun _ _ _ hfound => hfound, fun _ => rfl⟩

theorem trans (h : Touches P d d') (h' : Touches P d' d'') : Touches P d d'' :=
  ⟨fun _ _ _ hfound => h'.extended _ _ _ (h.extended _ _ _ hfound),
    fun hnot => (h'.same hnot).trans (h.same hnot)⟩

theorem mono (h : Touches P d d') (hsub : ∀ ref name, P ref name → Q ref name) : Touches Q d d' :=
  ⟨h.extended, fun hnot => h.same fun hp => hnot (hsub _ _ hp)⟩

end Touches

theorem Opening.touches (h : d.Opening p r d') (hlinked : d.Linked) :
    Touches (d.Locates p) d d' :=
  ⟨h.extended, h.file?_eq hlinked⟩

theorem file?_setStore_of_ne (hlinked : d.Linked) {parent : DirectoryRef}
    (hfound : (d.children parent).lookup other = some (.file r))
    (hne : ¬ (ref = parent ∧ name = other)) {b : ByteStore} :
    (d.setStore r b).file? ref name = d.file? ref name := by
  have hlookup : ((d.setStore r b).children ref).lookup name = (d.children ref).lookup name := rfl
  unfold file?
  rw [hlookup]
  split
  · next r' hother =>
    have hstore : r ≠ r' := by
      rintro rfl
      exact hne (hlinked.separate hother hfound)
    rw [store_setStore_of_ne hstore]
  · rfl

theorem Names.touches_setStore (h : d.Names p r) (hlinked : d.Linked) (b : ByteStore) :
    Touches (d.Locates p) d (d.setStore r b) := by
  refine ⟨.of_directories rfl, fun {ref name} hnot => ?_⟩
  obtain ⟨parent, other, hlocates, hfound⟩ := h.entry
  refine file?_setStore_of_ne hlinked hfound ?_
  rintro ⟨rfl, rfl⟩
  exact hnot hlocates

theorem file?_setStore_cases (hr : r.index < d.stores.size) {b b' : ByteStore}
    (hfile : (d.setStore r b).file? ref name = some b') : b' = b ∨ d.file? ref name = some b' := by
  have hlookup : ((d.setStore r b).children ref).lookup name = (d.children ref).lookup name := rfl
  unfold file? at hfile ⊢
  rw [hlookup] at hfile
  split at hfile
  · next r' hfound =>
    cases hfile
    by_cases hne : r = r'
    · subst hne
      exact .inl (store_setStore hr)
    · rw [store_setStore_of_ne hne]
      exact .inr rfl
  · cases hfile

theorem Locates.of_extended (hextends : d.Extends d') (hlocate : d.locate p = .ok place)
    (h : d'.Locates p ref name) : d.Locates p ref name := by
  obtain ⟨place', hlocate', hplace⟩ := h
  cases (hextends.locate hlocate).symm.trans hlocate'
  exact ⟨place, hlocate, hplace⟩

theorem Opening.locates (h : d.Opening p r d') (hlocates : d'.Locates p ref name) :
    d.Locates p ref name := by
  rcases h.grows with rfl | ⟨-, -, parent, name', ⟨place, hlocate, -⟩, hgrown⟩
  · exact hlocates
  · exact hlocates.of_extended hgrown.extended hlocate

def sizeAt (d : Disk) (p : Path) : Nat :=
  match d.find p with
  | .ok (_, .file r) => (d.store r).contents.size
  | _ => 0

theorem Names.sizeAt_eq (h : d.Names p r) : d.sizeAt p = (d.store r).contents.size := by
  obtain ⟨place, hfind⟩ := h
  simp only [sizeAt, hfind]

theorem sizeAt_eq_zero (h : ∀ r, ¬ d.Names p r) : d.sizeAt p = 0 := by
  unfold sizeAt
  split
  · next place r hfind => exact absurd ⟨place, hfind⟩ (h r)
  · rfl

theorem Opening.sizeAt_eq (h : d.Opening p r d') : d'.sizeAt p = d.sizeAt p := by
  rcases h.grows with rfl | ⟨rfl, hnone, parent, name, -, hgrown⟩
  · rfl
  · rw [h.names.sizeAt_eq, hgrown.store_new, sizeAt_eq_zero hnone]
    rfl

theorem Locates.name_eq (h : d.Locates (dir.join name) ref other) (hname : PlainName name) :
    other = name := by
  obtain ⟨place, hlocate, -, hother⟩ := h
  obtain ⟨around, hparts⟩ := Path.exists_parts_join dir hname
  have hwalk := locate_eq_ok hlocate
  rw [hparts, List.reverse_cons, walk_append] at hwalk
  cases hfirst : d.walk (if (dir.join name).isAbsolute then .outside else .start)
      around.reverse with
  | error kind =>
    rw [hfirst] at hwalk
    cases hwalk
  | ok first =>
    simp only [hfirst, walk] at hwalk
    cases henter : d.enter first with
    | error kind =>
      rw [henter] at hwalk
      cases hwalk
    | ok trail =>
      simp only [henter, Place.step_eq trail hname, Except.ok.injEq] at hwalk
      rw [← hwalk] at hother
      exact (Option.some.inj hother).symm

theorem names_of_isFile (hfile : d.isFile p = true) : ∃ r, d.Names p r := by
  unfold isFile at hfile
  split at hfile
  · next place r hfind => exact ⟨r, place, hfind⟩
  · cases hfile

theorem Leads.lookup_of_names {dir : Path} {trail : List DirectoryRef} (hleads : d.Leads dir trail)
    (hname : PlainName name) (hrefusal : (dir.join name).refusal? = none)
    (hnames : d.Names (dir.join name) r) :
    (d.children (lastOf trail)).lookup name = some (.file r) := by
  obtain ⟨place, hfind⟩ := hnames
  obtain ⟨hlocate, hlookup, -⟩ := find_eq_file.1 hfind
  cases (hleads.locate_join hname hrefusal).symm.trans hlocate
  exact (lookup_eq_some rfl hlookup).2

end Disk

end AppendStore
