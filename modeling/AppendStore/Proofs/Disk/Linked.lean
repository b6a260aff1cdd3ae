import AppendStore.Proofs.Disk.Making
import AppendStore.Proofs.Disk.Stores

/-!
# Disks that hang together

On a disk that is `Disk.Linked` whatever a name stands for is there, and no file has two
names. Making directories keeps this (`Disk.Linked.of_makeDirectory`), and so does a new
file (`Disk.Linked.grown`).

A directory that was made is there (`Disk.has_of_makeDirectory`), and making it again does
nothing (`Disk.Has.makeDirectory_eq`).

Taking a name away keeps such a disk together too (`Disk.Linked.without`), and all that is
still there was there before (`Disk.lookup_of_without`).
-/

namespace AppendStore

namespace Disk

open AppendStore.Action (Keeps)

variable {d d' : Disk} {p dir : Path} {place : Place} {r r' : StoreRef} {name : String}

/-- What names stand for is on the disk, and no two of them stand for one file. -/
structure Linked (d : Disk) : Prop where
  roots : 2 ≤ d.directories.size
  directories : ∀ {ref : DirectoryRef} {name : String} {inner : DirectoryRef},
    (d.children ref).lookup name = some (.directory inner) → inner.index < d.directories.size
  files : ∀ {ref : DirectoryRef} {name : String} {r : StoreRef},
    (d.children ref).lookup name = some (.file r) → r.index < d.stores.size
  separate : ∀ {ref ref' : DirectoryRef} {name name' : String} {r : StoreRef},
    (d.children ref).lookup name = some (.file r) →
      (d.children ref').lookup name' = some (.file r) → ref = ref' ∧ name = name'

theorem lookup_children_empty (ref : DirectoryRef) (name : String) :
    (Disk.empty.children ref).lookup name = none := by
  have hchildren : Disk.empty.children ref = [] := by
    match ref with
    | ⟨0⟩ | ⟨1⟩ => rfl
    | ⟨n + 2⟩ => exact children_of_size_le (Nat.le_add_left 2 n)
  rw [hchildren, List.lookup_nil]

theorem locate_eq_ok (h : d.locate p = .ok place) :
    d.walk (if p.isAbsolute then .outside else .start) p.parts.reverse = .ok place := by
  unfold locate at h
  cases hrefusal : p.refusal? with
  | some kind =>
    rw [hrefusal] at h
    cases h
  | none =>
    rw [hrefusal] at h
    exact h

theorem Extends.locate (hextends : d.Extends d') (h : d.locate p = .ok place) :
    d'.locate p = .ok place := by
  unfold Disk.locate at h ⊢
  cases hrefusal : p.refusal? with
  | some kind =>
    rw [hrefusal] at h
    cases h
  | none =>
    rw [hrefusal] at h
    exact hextends.walk h

namespace Linked

theorem enter_lt (h : d.Linked) {trail : List DirectoryRef}
    (hplace : ∀ ref ∈ place.trail, ref.index < d.directories.size)
    (henter : d.enter place = .ok trail) : ∀ ref ∈ trail, ref.index < d.directories.size := by
  unfold enter at henter
  cases hname : place.name? with
  | none =>
    rw [hname] at henter
    cases henter
    exact hplace
  | some name =>
    simp only [hname, lookup] at henter
    by_cases hlong : Path.maxNameBytes < name.utf8ByteSize
    · rw [if_pos hlong] at henter
      cases henter
    · rw [if_neg hlong] at henter
      cases hfound : (d.children place.directory).lookup name with
      | none =>
        rw [hfound] at henter
        cases henter
      | some entry =>
        rw [hfound] at henter
        cases entry with
        | file r => cases henter
        | directory inner =>
          cases henter
          intro ref href
          rcases List.mem_cons.1 href with rfl | href
          · exact h.directories hfound
          · exact hplace ref href

theorem step_lt {bound : Nat} {trail : List DirectoryRef}
    (htrail : ∀ ref ∈ trail, ref.index < bound) (name : String) : ∀ ref ∈ (Place.step trail name).trail, ref.index < bound := by
  unfold Place.step
  split
  · exact htrail
  · split
    · exact fun ref href => htrail ref (List.mem_of_mem_tail href)
    · exact htrail

theorem walk_lt (h : d.Linked) {start : Place} {names : List String}
    (hstart : ∀ ref ∈ start.trail, ref.index < d.directories.size)
    (hwalk : d.walk start names = .ok place) :
    ∀ ref ∈ place.trail, ref.index < d.directories.size := by
  induction names generalizing start with
  | nil =>
    cases hwalk
    exact hstart
  | cons name names ih =>
    rw [walk] at hwalk
    cases henter : d.enter start with
    | error kind =>
      rw [henter] at hwalk
      cases hwalk
    | ok trail =>
      rw [henter] at hwalk
      exact ih (step_lt (h.enter_lt hstart henter) name) hwalk

theorem locate_lt (h : d.Linked) (hlocate : d.locate p = .ok place) :
    ∀ ref ∈ place.trail, ref.index < d.directories.size := by
  refine h.walk_lt ?_ (locate_eq_ok hlocate)
  split
  · exact nofun
  · intro ref href
    cases List.mem_singleton.1 href
    exact h.roots

theorem lastOf_lt (h : d.Linked) {trail : List DirectoryRef}
    (htrail : ∀ ref ∈ trail, ref.index < d.directories.size) :
    (lastOf trail).index < d.directories.size := by
  cases trail with
  | nil => exact Nat.lt_of_lt_of_le Nat.two_pos h.roots
  | cons ref trail => exact htrail ref List.mem_cons_self

theorem directory_lt (h : d.Linked) (hlocate : d.locate p = .ok place) :
    place.directory.index < d.directories.size :=
  h.lastOf_lt (h.locate_lt hlocate)

theorem leads_lt (h : d.Linked) {trail : List DirectoryRef} (hleads : d.Leads dir trail) :
    (lastOf trail).index < d.directories.size := by
  obtain ⟨place, hlocate, henter⟩ := hleads.enter
  exact h.lastOf_lt (h.enter_lt (h.locate_lt hlocate) henter)

theorem empty : Disk.empty.Linked := by
  refine ⟨Nat.le_refl 2, ?_, ?_, ?_⟩
  all_goals
    intros
    rename_i hfound
    rw [lookup_children_empty] at hfound
    cases hfound

theorem setStore (h : d.Linked) (r : StoreRef) (b : ByteStore) : (d.setStore r b).Linked where
  roots := h.roots
  directories := h.directories
  files := fun hfound => by
    rw [Disk.setStore, Array.size_setIfInBounds]
    exact h.files hfound
  separate := h.separate

theorem made (h : d.Linked) (hmade : d.Made d') (hstores : d'.stores = d.stores) : d'.Linked := by
  have hold : ∀ {ref : DirectoryRef} {name : String} {r : StoreRef},
      (d'.children ref).lookup name = some (.file r) →
        (d.children ref).lookup name = some (.file r) := by
    intro ref name r hfound
    rcases hmade.lookup_cases hfound with hold | ⟨inner, heq, -⟩
    · exact hold
    · cases heq
  refine ⟨Nat.le_trans h.roots hmade.size_le, ?_, ?_, ?_⟩
  · intro ref name inner hfound
    rcases hmade.lookup_cases hfound with hold | ⟨inner', heq, hnew⟩
    · exact Nat.lt_of_lt_of_le (h.directories hold) hmade.size_le
    · cases heq
      exact hnew.2
  · intro ref name r hfound
    rw [hstores]
    exact h.files (hold hfound)
  · intro ref ref' name name' r hfound hfound'
    exact h.separate (hold hfound) (hold hfound')

end Linked

theorem keeps_stores (stores : Array ByteStore) (p : Path) :
    Keeps (fun d => d.stores = stores) (createDirectory p) := by
  refine Keeps.bind (keeps_observe _) fun place => Keeps.bind (keeps_observe _) fun entry? => ?_
  cases entry? with
  | some entry => exact .throw _
  | none =>
    refine Keeps.bind (fun d h => h) fun ref => ?_
    unfold addEntry
    cases place.name? with
    | none => exact .pure ()
    | some name => exact fun d h => h

theorem keeps_linked (p : Path) : Keeps Linked (createDirectory p) := by
  intro d h
  have hmade := Made.keeps_createDirectory d p
  have hstores := keeps_stores d.stores p
  cases hcreate : createDirectory p d with
  | ok u d' => exact h.made (hmade.of_ok (.refl d) hcreate) (hstores.of_ok rfl hcreate)
  | error e d' => exact h.made (hmade.of_error (.refl d) hcreate) (hstores.of_error rfl hcreate)

theorem Linked.of_makeDirectory (h : d.Linked) (hmake : makeDirectory dir d = .ok () d') :
    d'.Linked :=
  (keeps_makeDirectory keeps_linked dir).of_ok h hmake

section Grown

variable {parent : DirectoryRef} {s : ByteStore}

theorem Grown.lookup_cases (h : d.Grown parent name s d') {ref : DirectoryRef} {other : String}
    {entry : Entry} (hfound : (d'.children ref).lookup other = some entry) :
    (ref = parent ∧ other = name ∧ entry = .file ⟨d.stores.size⟩) ∨
      (d.children ref).lookup other = some entry := by
  by_cases href : ref = parent
  · subst href
    rw [h.children_same, List.lookup_cons] at hfound
    cases hname : other == name with
    | true =>
      rw [hname] at hfound
      exact .inl ⟨rfl, beq_iff_eq.1 hname, (Option.some.inj hfound).symm⟩
    | false =>
      rw [hname] at hfound
      exact .inr hfound
  · rw [h.children_other href] at hfound
    exact .inr hfound

theorem Linked.grown (h : d.Linked) (hgrown : d.Grown parent name s d') : d'.Linked := by
  have hlt := hgrown.lt_size
  have hfresh : ∀ {ref : DirectoryRef} {other : String},
      (d.children ref).lookup other ≠ some (.file ⟨d.stores.size⟩) :=
    fun hfound => Nat.lt_irrefl _ (h.files hfound)
  refine ⟨hgrown.directories_size ▸ h.roots, ?_, ?_, ?_⟩
  · intro ref other inner hfound
    rcases hgrown.lookup_cases hfound with ⟨-, -, heq⟩ | hold
    · cases heq
    · rw [hgrown.directories_size]
      exact h.directories hold
  · intro ref other r hfound
    rcases hgrown.lookup_cases hfound with ⟨-, -, heq⟩ | hold
    · cases heq
      exact hlt
    · exact Nat.lt_trans (h.files hold) hlt
  · intro ref ref' other other' r hfound hfound'
    rcases hgrown.lookup_cases hfound with ⟨rfl, rfl, heq⟩ | hold
    · cases heq
      rcases hgrown.lookup_cases hfound' with ⟨rfl, rfl, -⟩ | hold'
      · exact ⟨rfl, rfl⟩
      · exact absurd hold' hfresh
    · rcases hgrown.lookup_cases hfound' with ⟨rfl, rfl, heq⟩ | hold'
      · cases heq
        exact absurd hold hfresh
      · exact h.separate hold hold'

end Grown

theorem lookup_eq_none (hname : place.name? = some name) (h : d.lookup place = .ok none) :
    name.utf8ByteSize ≤ Path.maxNameBytes ∧ (d.children place.directory).lookup name = none := by
  simp only [lookup, hname] at h
  by_cases hlong : Path.maxNameBytes < name.utf8ByteSize
  · rw [if_pos hlong] at h
    cases h
  · rw [if_neg hlong] at h
    exact ⟨Nat.le_of_not_lt hlong, Except.ok.inj h⟩

theorem name?_of_lookup (h : ∀ ref, d.lookup place ≠ .ok (some (.directory ref))) :
    ∃ name, place.name? = some name := by
  cases hname : place.name? with
  | some name => exact ⟨name, rfl⟩
  | none => exact absurd (by simp only [lookup, hname]) (h place.directory)

/-- The path is empty, or it leads to a directory. -/
def Has (d : Disk) (dir : Path) : Prop := dir.isEmpty = true ∨ ∃ trail, d.Leads dir trail

theorem Has.extended (h : d.Has dir) (hextends : d.Extends d') : d'.Has dir :=
  h.imp_right fun ⟨trail, hleads⟩ => ⟨trail, hextends.leads hleads⟩

/-- Making a directory that is there does nothing. -/
theorem Has.makeDirectory_eq (h : d.Has dir) : makeDirectory dir d = .ok () d := by
  rcases h with hempty | ⟨trail, hleads⟩
  · unfold makeDirectory
    rw [if_pos hempty]
    rfl
  · exact hleads.makeDirectory_eq

theorem find_of_isDirectory (h : d.isDirectory p = true) :
    ∃ place ref, d.find p = .ok (place, .directory ref) := by
  unfold isDirectory at h
  split at h
  · next place ref hfind => exact ⟨place, ref, hfind⟩
  · cases h

theorem find_of_named {inner : DirectoryRef} (hlocate : d.locate p = .ok place)
    (hname : place.name? = some name) (hlookup : d.lookup place = .ok none)
    (hroom : place.directory.index < d.directories.size) :
    (mapChildren place.directory ((name, .directory inner) :: ·) d).find p =
      .ok (place, .directory inner) := by
  obtain ⟨hshort, hfree⟩ := lookup_eq_none hname hlookup
  have hthere : (mapChildren place.directory ((name, .directory inner) :: ·) d).lookup place =
      .ok (some (.directory inner)) := by
    simp only [lookup, hname, if_neg (Nat.not_lt_of_le hshort)]
    rw [children_mapChildren_same hroom, List.lookup_cons, beq_self_eq_true]
  have hextends : d.Extends (mapChildren place.directory ((name, .directory inner) :: ·) d) :=
    extends_mapChildren hroom hfree
  simp only [find, hextends.locate hlocate, hthere]

def withDirectory (d : Disk) : Disk := { d with directories := d.directories.push [] }

theorem extends_withDirectory (d : Disk) : d.Extends d.withDirectory := by
  intro ref other entry hfound
  rwa [withDirectory, children_push]

/-- A directory is made where there is nothing. -/
theorem createDirectory_cases (h : d.Linked) (p : Path) :
    (∃ e, createDirectory p d = .error e d) ∨
      ∃ place name, d.locate p = .ok place ∧ place.name? = some name ∧ d.lookup place = .ok none ∧
        place.directory.index < d.withDirectory.directories.size ∧
        createDirectory p d = .ok () (mapChildren place.directory
          ((name, .directory ⟨d.directories.size⟩) :: ·) d.withDirectory) := by
  unfold createDirectory
  cases hlocate : d.locate p with
  | error kind =>
    have hobserve : observe (·.locate p) d = .error (.refused kind) d := by
      simp only [observe, hlocate]
    exact .inl ⟨_, Action.bind_of_error hobserve⟩
  | ok place =>
    rw [Action.bind_of_ok (observe_of_ok hlocate)]
    cases hlookup : d.lookup place with
    | error kind =>
      have hobserve : observe (·.lookup place) d = .error (.refused kind) d := by
        simp only [observe, hlookup]
      exact .inl ⟨_, Action.bind_of_error hobserve⟩
    | ok found? =>
      rw [Action.bind_of_ok (observe_of_ok hlookup)]
      cases found? with
      | some entry => exact .inl ⟨_, rfl⟩
      | none =>
        obtain ⟨name, hname⟩ := @name?_of_lookup d place (by rw [hlookup]; rintro ref ⟨⟩)
        have hnew : (newDirectory : EStateM IoError Disk DirectoryRef) d =
            .ok ⟨d.directories.size⟩ d.withDirectory := rfl
        have hroom : place.directory.index < d.withDirectory.directories.size := by
          rw [withDirectory, Array.size_push]
          exact Nat.lt_succ_of_lt (h.directory_lt hlocate)
        refine .inr ⟨place, name, rfl, hname, hlookup, hroom, ?_⟩
        simp only
        rw [Action.bind_of_ok hnew]
        simp only [addEntry, hname]
        rfl

theorem find_of_createDirectory (h : d.Linked) (hcreate : createDirectory p d = .ok () d') :
    ∃ place ref, d'.find p = .ok (place, .directory ref) := by
  rcases createDirectory_cases h p with
    ⟨e, herror⟩ | ⟨place, name, hlocate, hname, hlookup, hroom, hok⟩
  · cases herror.symm.trans hcreate
  · cases hok.symm.trans hcreate
    have hfree : d.withDirectory.lookup place = .ok none := by
      simpa only [lookup, hname, withDirectory, children_push] using hlookup
    exact ⟨place, _, find_of_named (d.extends_withDirectory.locate hlocate) hname hfree hroom⟩

/-- Making a directory once more after a failure is enough if it is there. -/
theorem find_of_settle {made : Except IoError Unit} {d₀ : Disk} (h : d₀.Linked)
    (hattempt : (Action.attempt (createDirectory p) :
      EStateM IoError Disk (Except IoError Unit)) d₀ = .ok made d)
    (hsettle : createWith.settle p made d = .ok () d') :
    ∃ place ref, d'.find p = .ok (place, .directory ref) := by
  cases made with
  | ok u =>
    cases hsettle
    unfold Action.attempt at hattempt
    cases hcreate : createDirectory p d₀ with
    | ok u' d₁ =>
      rw [hcreate] at hattempt
      cases hattempt
      exact find_of_createDirectory h hcreate
    | error e d₁ =>
      rw [hcreate] at hattempt
      cases hattempt
  | error e =>
    unfold createWith.settle at hsettle
    simp only at hsettle
    rw [Action.get_bind] at hsettle
    cases hthere : d.isDirectory p with
    | true =>
      rw [hthere, if_pos rfl] at hsettle
      cases hsettle
      exact find_of_isDirectory hthere
    | false =>
      rw [hthere, if_neg Bool.false_ne_true] at hsettle
      cases hsettle

theorem find_of_createWith {around : EStateM IoError Disk Unit} (haround : Keeps Linked around)
    (h : d.Linked) (hcreate : createWith around p d = .ok () d') :
    ∃ place ref, d'.find p = .ok (place, .directory ref) := by
  unfold createWith at hcreate
  obtain ⟨made, d₁, hattempt, hcreate⟩ := Action.bind_eq_ok hcreate
  have h₁ : d₁.Linked := (keeps_linked p).attempt.of_ok h hattempt
  split at hcreate
  · cases hcreate
    exact find_of_settle h hattempt rfl
  · obtain ⟨u, d₂, hmake, hcreate⟩ := Action.bind_eq_ok hcreate
    obtain ⟨made', d₃, hagain, hcreate⟩ := Action.bind_eq_ok hcreate
    exact find_of_settle (haround.of_ok h₁ hmake) hagain hcreate
  · exact find_of_settle h hattempt hcreate

theorem has_of_makeDirectory (h : d.Linked) (hmake : makeDirectory dir d = .ok () d') :
    d'.Has dir := by
  unfold makeDirectory at hmake
  cases hempty : dir.isEmpty with
  | true => exact .inl hempty
  | false =>
    rw [hempty, if_neg Bool.false_ne_true] at hmake
    obtain ⟨place, ref, hfind⟩ :=
      find_of_createWith (keeps_createAll keeps_linked _ _) h hmake
    obtain ⟨trail, hleads, -⟩ := leads_of_find hfind
    exact .inr ⟨trail, hleads⟩

section Removing

variable {parent ref : DirectoryRef} {other : String} {entry : Entry}
  {entries : List (String × Entry)}

def without (d : Disk) (parent : DirectoryRef) (name : String) : Disk :=
  mapChildren parent (·.filter (·.1 ≠ name)) d

theorem lookup_filter_self : (entries.filter (·.1 ≠ name)).lookup name = none := by
  rw [List.lookup_eq_none_iff]
  intro e he
  exact bne_iff_ne.2 (of_decide_eq_true (List.mem_filter.1 he).2).symm

theorem lookup_filter_of_ne (hne : other ≠ name) :
    (entries.filter (·.1 ≠ name)).lookup other = entries.lookup other := by
  induction entries with
  | nil => rfl
  | cons e rest ih =>
    by_cases hsame : e.1 = name
    · have hother : (other == e.1) = false := beq_eq_false_iff_ne.2 (hsame ▸ hne)
      rw [List.filter_cons_of_neg (by simp [hsame]), ih, ← Prod.eta e, List.lookup_cons, hother]
    · rw [List.filter_cons_of_pos (by simp [hsame]), ← Prod.eta e, List.lookup_cons,
        List.lookup_cons, ih]

theorem lookup_without_self (hroom : parent.index < d.directories.size) :
    ((d.without parent name).children parent).lookup name = none := by
  rw [without, children_mapChildren_same hroom, lookup_filter_self]

theorem lookup_without_of_ne (hroom : parent.index < d.directories.size) (hne : other ≠ name) :
    ((d.without parent name).children parent).lookup other = (d.children parent).lookup other := by
  rw [without, children_mapChildren_same hroom, lookup_filter_of_ne hne]

/-- What is still there was there. -/
theorem lookup_of_without (hroom : parent.index < d.directories.size)
    (hfound : ((d.without parent name).children ref).lookup other = some entry) :
    (d.children ref).lookup other = some entry := by
  by_cases hsame : ref = parent
  · subst hsame
    by_cases hname : other = name
    · rw [hname, lookup_without_self hroom] at hfound
      cases hfound
    · rwa [lookup_without_of_ne hroom hname] at hfound
  · rwa [without, children_mapChildren_other hsame] at hfound

theorem Linked.without (h : d.Linked) (hroom : parent.index < d.directories.size) (name : String) :
    (d.without parent name).Linked := by
  have hsize : (d.without parent name).directories.size = d.directories.size :=
    Array.size_modify
  refine ⟨hsize ▸ h.roots, ?_, ?_, ?_⟩
  · intro ref other inner hfound
    exact hsize ▸ h.directories (lookup_of_without hroom hfound)
  · intro ref other r hfound
    exact h.files (lookup_of_without hroom hfound)
  · intro ref ref' other other' r hfound hfound'
    exact h.separate (lookup_of_without hroom hfound) (lookup_of_without hroom hfound')

end Removing

end Disk

end AppendStore
