import AppendStore.Proofs.Action
import AppendStore.Proofs.Disk.Directory

/-!
# Directories that are made

Making a directory and those around it adds directories and names for them
(`Disk.made_of_makeDirectory`). So a directory that was not there, and that is reached
without going back, is a new one (`Disk.Made.isNew_of_find`) and has no files in it
(`Disk.Made.directories_of_isNew`).
-/

namespace AppendStore

namespace Disk

open AppendStore.Action (Keeps)

section Induction

variable {P : Disk → Prop}

theorem keeps_observe {α : Type} (look : Disk → Except IoKind α) : Keeps P (observe look) := by
  intro d h
  unfold observe
  cases look d with
  | ok a => exact h
  | error kind => exact h

theorem keeps_idsIn (kind : FileKind) (p : Path) : Keeps P (idsIn kind p) := by
  refine Keeps.bind (Keeps.bind (keeps_observe _) fun found => ?_) fun _ => .pure _
  obtain ⟨place, entry⟩ := found
  cases entry with
  | file ref => exact .throw _
  | directory ref => exact Keeps.bind (fun d hd => hd) fun _ => .pure _

theorem keeps_settle (p : Path) (made : Except IoError Unit) :
    Keeps P (createWith.settle p made) := by
  cases made with
  | ok u => exact .pure ()
  | error e =>
    refine Keeps.bind (fun d h => h) fun d => ?_
    split
    · exact .pure ()
    · exact .throw e

theorem keeps_createWith (hcreate : ∀ p, Keeps P (createDirectory p))
    {around : EStateM IoError Disk Unit} (haround : Keeps P around) (p : Path) :
    Keeps P (createWith around p) := by
  refine Keeps.bind (hcreate p).attempt fun made => ?_
  split
  · exact .pure ()
  · exact haround.bind fun _ => Keeps.bind (hcreate p).attempt (keeps_settle p)
  · exact keeps_settle p _

theorem keeps_createAll (hcreate : ∀ p, Keeps P (createDirectory p)) (absolute : Bool)
    (names : List String) : Keeps P (createAll absolute names) := by
  induction names with
  | nil => exact .pure ()
  | cons name around ih =>
    unfold createAll
    split
    · exact ih
    · exact keeps_createWith hcreate ih _

/-- What making one directory keeps is kept when those around it are made too. -/
theorem keeps_makeDirectory (hcreate : ∀ p, Keeps P (createDirectory p)) (p : Path) :
    Keeps P (makeDirectory p) := by
  unfold makeDirectory
  split
  · exact .pure ()
  · exact keeps_createWith hcreate (keeps_createAll hcreate _ _) p

end Induction

variable {d d' : Disk} {dir : Path} {place start : Place} {names : List String}

def IsNew (d d' : Disk) (ref : DirectoryRef) : Prop :=
  d.directories.size ≤ ref.index ∧ ref.index < d'.directories.size

/-- The disk with more directories, and more names for them. -/
structure Made (d d' : Disk) : Prop where
  size_le : d.directories.size ≤ d'.directories.size
  children : ∀ ref, ∃ more, d'.children ref = more ++ d.children ref ∧
    ∀ e ∈ more, ∃ inner, e.2 = .directory inner ∧ d.IsNew d' inner

theorem children_of_size_le {ref : DirectoryRef} (h : d.directories.size ≤ ref.index) :
    d.children ref = [] := by
  rw [Disk.children, Array.getD_eq_getD_getElem?, Array.getElem?_eq_none h]
  rfl

theorem children_push (d : Disk) (ref : DirectoryRef) :
    ({ d with directories := d.directories.push [] } : Disk).children ref = d.children ref := by
  rw [Disk.children, Disk.children, Array.getD_eq_getD_getElem?, Array.getD_eq_getD_getElem?,
    Array.getElem?_push]
  split
  · next h => rw [Array.getElem?_eq_none (Nat.le_of_eq h.symm)]; rfl
  · rfl

theorem children_mapChildren_cons (d : Disk) (parent ref : DirectoryRef) (e : String × Entry) :
    (mapChildren parent (e :: ·) d).children ref = d.children ref ∨
      (mapChildren parent (e :: ·) d).children ref = e :: d.children ref := by
  rw [Disk.children, Disk.children, mapChildren, Array.getD_eq_getD_getElem?,
    Array.getD_eq_getD_getElem?, Array.getElem?_modify]
  split
  · cases d.directories[ref.index]? with
    | none => exact .inl rfl
    | some names => exact .inr rfl
  · exact .inl rfl

namespace Made

theorem refl (d : Disk) : d.Made d where
  size_le := Nat.le_refl _
  children := fun _ => ⟨[], rfl, nofun⟩

theorem push (h : d.Made d') :
    d.Made { d' with directories := d'.directories.push [] } := by
  have hsize : d'.directories.size ≤ (d'.directories.push []).size := by
    rw [Array.size_push]
    exact Nat.le_succ _
  refine ⟨Nat.le_trans h.size_le hsize, fun ref => ?_⟩
  obtain ⟨more, hmore, hnew⟩ := h.children ref
  refine ⟨more, (children_push d' ref).trans hmore, fun e he => ?_⟩
  obtain ⟨inner, hinner, hle, hlt⟩ := hnew e he
  exact ⟨inner, hinner, hle, Nat.lt_of_lt_of_le hlt hsize⟩

theorem name (h : d.Made d') (parent : DirectoryRef) (name : String) {inner : DirectoryRef}
    (hinner : d.IsNew d' inner) :
    d.Made (mapChildren parent ((name, .directory inner) :: ·) d') := by
  have hsize : (mapChildren parent ((name, .directory inner) :: ·) d').directories.size =
      d'.directories.size := by
    rw [mapChildren, Array.size_modify]
  have hnew : ∀ ref, d.IsNew d' ref → d.IsNew
      (mapChildren parent ((name, .directory inner) :: ·) d') ref := by
    intro ref href
    exact ⟨href.1, hsize.symm ▸ href.2⟩
  refine ⟨hsize.symm ▸ h.size_le, fun ref => ?_⟩
  obtain ⟨more, hmore, hall⟩ := h.children ref
  have hlater : ∀ e ∈ more, ∃ inner', e.2 = .directory inner' ∧ d.IsNew
      (mapChildren parent ((name, .directory inner) :: ·) d') inner' := by
    intro e he
    obtain ⟨inner', heq, hinner'⟩ := hall e he
    exact ⟨inner', heq, hnew inner' hinner'⟩
  rcases children_mapChildren_cons d' parent ref (name, .directory inner) with hsame | hcons
  · exact ⟨more, hsame.trans hmore, hlater⟩
  · refine ⟨(name, .directory inner) :: more, ?_, fun e he => ?_⟩
    · rw [hcons, hmore, List.cons_append]
    · rcases List.mem_cons.1 he with rfl | he
      · exact ⟨inner, rfl, hnew inner hinner⟩
      · exact hlater e he

theorem keeps_createDirectory (d : Disk) (p : Path) : Keeps d.Made (createDirectory p) := by
  refine Keeps.bind (keeps_observe _) fun place => Keeps.bind (keeps_observe _) fun entry? => ?_
  cases entry? with
  | some entry => exact .throw _
  | none =>
    intro d' h
    have hroom : d.IsNew { d' with directories := d'.directories.push [] }
        ⟨d'.directories.size⟩ := by
      refine ⟨h.size_le, ?_⟩
      rw [Array.size_push]
      exact Nat.lt_succ_self _
    have hadded : (newDirectory : EStateM IoError Disk DirectoryRef) d' =
        .ok ⟨d'.directories.size⟩ { d' with directories := d'.directories.push [] } := rfl
    simp only
    rw [Action.bind_of_ok hadded]
    unfold addEntry
    cases place.name? with
    | none => exact h.push
    | some name => exact h.push.name place.directory name hroom

theorem lookup_cases (h : d.Made d') {ref : DirectoryRef} {name : String} {entry : Entry}
    (hfound : (d'.children ref).lookup name = some entry) :
    (d.children ref).lookup name = some entry ∨ ∃ inner, entry = .directory inner ∧
      d.IsNew d' inner := by
  obtain ⟨more, hmore, hnew⟩ := h.children ref
  rw [hmore, List.lookup_append] at hfound
  cases hfirst : more.lookup name with
  | none =>
    rw [hfirst, Option.none_or] at hfound
    exact .inl hfound
  | some found =>
    rw [hfirst, Option.some_or] at hfound
    cases hfound
    obtain ⟨before, after, hsplit, -⟩ := List.lookup_eq_some_iff.1 hfirst
    exact .inr (hnew (name, entry) (hsplit ▸ List.mem_append_right _ List.mem_cons_self))

theorem enter_cases (h : d.Made d') {trail : List DirectoryRef}
    (henter : d'.enter place = .ok trail) :
    d.enter place = .ok trail ∨ d.IsNew d' (lastOf trail) := by
  unfold enter at henter ⊢
  cases hname : place.name? with
  | none =>
    rw [hname] at henter
    exact .inl henter
  | some name =>
    simp only [hname, lookup] at henter ⊢
    by_cases hlong : Path.maxNameBytes < name.utf8ByteSize
    · rw [if_pos hlong] at henter
      cases henter
    · rw [if_neg hlong] at henter ⊢
      cases hfound : (d'.children place.directory).lookup name with
      | none =>
        rw [hfound] at henter
        cases henter
      | some entry =>
        rw [hfound] at henter
        rcases h.lookup_cases hfound with hold | ⟨inner, rfl, hnew⟩
        · rw [hold]
          exact .inl henter
        · cases henter
          exact .inr hnew

theorem enter_of_isNew (h : d.Made d') {trail : List DirectoryRef}
    (hstart : d.IsNew d' place.directory) (henter : d'.enter place = .ok trail) :
    d.IsNew d' (lastOf trail) := by
  rcases h.enter_cases henter with hold | hnew
  · unfold enter at hold
    cases hname : place.name? with
    | none =>
      rw [hname] at hold
      cases hold
      exact hstart
    | some name =>
      simp only [hname, lookup, children_of_size_le hstart.1, List.lookup_nil] at hold
      split at hold
      · next heq =>
        split at heq <;> cases heq
        cases hold
      · next heq => cases hold
      · next heq => cases hold
      · next heq => split at heq <;> cases heq
  · exact hnew

theorem directory_step {trail : List DirectoryRef} {name : String} (hback : name ≠ "..") :
    (Place.step trail name).directory = lastOf trail := by
  unfold Place.step
  rw [if_neg hback]
  split <;> rfl

theorem walk_of_isNew (h : d.Made d') (hback : ".." ∉ names)
    (hstart : d.IsNew d' start.directory) (hwalk : d'.walk start names = .ok place) :
    d.IsNew d' place.directory := by
  induction names generalizing start with
  | nil =>
    cases hwalk
    exact hstart
  | cons name names ih =>
    rw [walk] at hwalk
    cases henter : d'.enter start with
    | error kind =>
      rw [henter] at hwalk
      cases hwalk
    | ok trail =>
      rw [henter] at hwalk
      -- Going back is the only way out of a new directory.
      have hname : name ≠ ".." := fun heq => hback (heq ▸ List.mem_cons_self)
      apply ih (fun hmem => hback (List.mem_cons_of_mem _ hmem)) _ hwalk
      rw [directory_step hname]
      exact h.enter_of_isNew hstart henter

/-- Without going back, a walk ends where it did, or in a new directory. -/
theorem walk_cases (h : d.Made d') (hback : ".." ∉ names)
    (hwalk : d'.walk start names = .ok place) :
    d.walk start names = .ok place ∨ d.IsNew d' place.directory := by
  induction names generalizing start with
  | nil => exact .inl hwalk
  | cons name names ih =>
    rw [walk] at hwalk ⊢
    cases henter : d'.enter start with
    | error kind =>
      rw [henter] at hwalk
      cases hwalk
    | ok trail =>
      rw [henter] at hwalk
      have hrest : ".." ∉ names := fun hmem => hback (List.mem_cons_of_mem _ hmem)
      rcases h.enter_cases henter with hold | hnew
      · rw [hold]
        exact ih hrest hwalk
      · have hname : name ≠ ".." := fun heq => hback (heq ▸ List.mem_cons_self)
        refine .inr (h.walk_of_isNew hrest ?_ hwalk)
        rw [directory_step hname]
        exact hnew

/-- A directory that was not there is a new one. -/
theorem isNew_of_find (h : d.Made d') (habsent : d.find dir = .error .notFound)
    (hback : ".." ∉ dir.parts) {ref : DirectoryRef}
    (hfind : d'.find dir = .ok (place, .directory ref)) : d.IsNew d' ref := by
  have hwalked : ∀ found, d'.locate dir = .ok found →
      d.locate dir = .ok found ∨ d.IsNew d' found.directory := by
    intro found hlocate
    unfold locate at hlocate ⊢
    cases hrefusal : dir.refusal? with
    | some kind =>
      rw [hrefusal] at hlocate
      cases hlocate
    | none =>
      rw [hrefusal] at hlocate
      exact h.walk_cases (fun hmem => hback (List.mem_reverse.1 hmem)) hlocate
  obtain ⟨trail, hleads, rfl⟩ := leads_of_find hfind
  obtain ⟨found, hlocate, hlookup, -⟩ := hleads.find_eq
  have henter : d'.enter found = .ok trail := by
    obtain ⟨found', hlocate', henter⟩ := hleads.enter
    cases hlocate.symm.trans hlocate'
    exact henter
  rcases hwalked found hlocate with hold | hnew
  · rcases h.enter_cases henter with hentered | hnew
    · have hthere : d.find dir = .ok (found, .directory (lastOf trail)) := by
        simp only [find, hold, lookup_of_enter hentered]
      rw [hthere] at habsent
      cases habsent
    · exact hnew
  · exact h.enter_of_isNew hnew henter

/-- A new directory has only directories in it. -/
theorem directories_of_isNew (h : d.Made d') {ref : DirectoryRef} (hnew : d.IsNew d' ref) :
    ∃ names, d'.directories[ref.index]? = some names ∧
      ∀ e ∈ names, ∃ inner, e.2 = .directory inner := by
  obtain ⟨more, hmore, hall⟩ := h.children ref
  rw [children_of_size_le hnew.1, List.append_nil, Disk.children, Array.getD_eq_getD_getElem?,
    Array.getElem?_eq_getElem hnew.2] at hmore
  refine ⟨_, Array.getElem?_eq_getElem hnew.2, fun e he => ?_⟩
  obtain ⟨inner, hinner, -⟩ := hall e (hmore ▸ he)
  exact ⟨inner, hinner⟩

end Made

theorem made_of_makeDirectory (hmake : makeDirectory dir d = .ok () d') : d.Made d' :=
  (keeps_makeDirectory (Made.keeps_createDirectory d) dir).of_ok (.refl d) hmake

end Disk

end AppendStore
