import AppendStore.Proofs.Disk.Kinds

/-!
# Directories beside a new name

A directory that can be made can be made as well when something has come up beside it in the
meantime. `Disk.Beside` relates a disk to one on which a single name stands for something
else. If a directory is made on the first disk and the name is free after that, then it is
made on the second one in the same way (`Disk.makeDirectory_beside`): no path that is gone
along while it is made leads through the name.
-/

namespace AppendStore

namespace Disk

open AppendStore.Action (Keeps)

/-- The disk, but for what one name stands for. -/
structure Beside (parent : DirectoryRef) (name : String) (d d' : Disk) : Prop where
  size : d'.directories.size = d.directories.size
  same : ∀ {ref : DirectoryRef} {other : String}, ¬(ref = parent ∧ other = name) →
    (d'.children ref).lookup other = (d.children ref).lookup other

variable {parent : DirectoryRef} {name : String} {d d' d₁ last : Disk} {p dir : Path}
  {place start : Place} {trail : List DirectoryRef} {names : List String}
  {around : EStateM IoError Disk Unit} {e : IoError}

theorem Grown.beside {s : ByteStore} (h : d.Grown parent name s d') : d.Beside parent name d' where
  size := h.directories_size
  same := fun {ref other} hother => by
    by_cases href : ref = parent
    · subst href
      have hne : (other == name) = false := beq_eq_false_iff_ne.2 fun heq => hother ⟨rfl, heq⟩
      rw [h.children_same, List.lookup_cons, hne]
    · rw [h.children_other href]

namespace Beside

theorem setStore (h : d.Beside parent name d') (r : StoreRef) (b : ByteStore) :
    d.Beside parent name (d'.setStore r b) := ⟨h.size, h.same⟩

section Walking

theorem lookup_eq (h : d.Beside parent name d') (hfree : (last.children parent).lookup name = none)
    {entry : Entry} (hlast : last.lookup place = .ok (some entry)) :
    d'.lookup place = d.lookup place := by
  unfold lookup at hlast ⊢
  cases hname : place.name? with
  | none => rfl
  | some other =>
    simp only [hname] at hlast ⊢
    by_cases hlong : Path.maxNameBytes < other.utf8ByteSize
    · rw [if_pos hlong, if_pos hlong]
    · rw [if_neg hlong] at hlast
      have hother : ¬(place.directory = parent ∧ other = name) := by
        rintro ⟨rfl, rfl⟩
        rw [hfree] at hlast
        cases hlast
      rw [if_neg hlong, if_neg hlong, h.same hother]

theorem enter_eq (h : d.Beside parent name d') (hfree : (last.children parent).lookup name = none)
    (hlast : last.enter place = .ok trail) : d'.enter place = d.enter place := by
  unfold enter
  rw [h.lookup_eq hfree (lookup_of_enter hlast)]

/-- A walk that gets through on a disk with more names and nothing by this one. -/
theorem walk_eq (h : d.Beside parent name d') (hextends : d.Extends last)
    (hfree : (last.children parent).lookup name = none)
    (hlast : last.walk start names = .ok place) : d'.walk start names = d.walk start names := by
  induction names generalizing start with
  | nil => rfl
  | cons first rest ih =>
    rw [walk] at hlast ⊢
    rw [walk]
    cases henter : last.enter start with
    | error kind =>
      rw [henter] at hlast
      cases hlast
    | ok trail =>
      rw [henter] at hlast
      rw [h.enter_eq hfree henter]
      cases hentered : d.enter start with
      | error kind => rfl
      | ok trail' =>
        cases (hextends.enter hentered).symm.trans henter
        exact ih hlast

theorem locate_eq (h : d.Beside parent name d') (hextends : d.Extends last)
    (hfree : (last.children parent).lookup name = none) (hlast : last.locate p = .ok place) :
    d'.locate p = d.locate p := by
  have hwalk := locate_eq_ok hlast
  unfold locate
  rw [h.walk_eq hextends hfree hwalk]

theorem find_eq (h : d.Beside parent name d') (hextends : d.Extends last)
    (hfree : (last.children parent).lookup name = none) (hleads : last.Leads p trail) :
    d'.find p = d.find p := by
  obtain ⟨place, hlocate, hlookup, -⟩ := hleads.find_eq
  unfold find
  rw [h.locate_eq hextends hfree hlocate]
  cases hfound : d.locate p with
  | error kind => rfl
  | ok place' =>
    cases (hextends.locate hfound).symm.trans hlocate
    simp only [h.lookup_eq hfree hlookup]

theorem leads (h : d.Beside parent name d') (hfree : (d.children parent).lookup name = none)
    (hleads : d.Leads p trail) : d'.Leads p trail := by
  obtain ⟨place, hlocate, henter⟩ := hleads.enter
  have hsame := h.locate_eq (fun _ _ _ hfound => hfound) hfree hlocate
  exact ⟨hleads.nonempty, place, hsame.trans hlocate, (h.enter_eq hfree henter).trans henter⟩

end Walking

theorem withDirectory (h : d.Beside parent name d') :
    d.withDirectory.Beside parent name d'.withDirectory where
  size := by rw [Disk.withDirectory, Disk.withDirectory, Array.size_push, Array.size_push, h.size]
  same := fun hother => by
    rw [Disk.withDirectory, Disk.withDirectory, children_push, children_push, h.same hother]

theorem named (h : d.Beside parent name d') {ref : DirectoryRef}
    (hroom : ref.index < d.directories.size) (entry : String × Entry) :
    (mapChildren ref (entry :: ·) d).Beside parent name (mapChildren ref (entry :: ·) d') where
  size := by rw [mapChildren, mapChildren, Array.size_modify, Array.size_modify, h.size]
  same := fun {ref' other} hother => by
    by_cases hsame : ref' = ref
    · subst hsame
      rw [children_mapChildren_same hroom, children_mapChildren_same (h.size.symm ▸ hroom),
        ← Prod.eta entry, List.lookup_cons, List.lookup_cons, h.same hother]
    · rw [children_mapChildren_other hsame, children_mapChildren_other hsame, h.same hother]

end Beside

theorem createDirectory_eq (hlocate : d.locate p = .ok place) :
    createDirectory p d =
      match d.lookup place with
      | .error kind => .error (.refused kind) d
      | .ok (some _) => .error (.refused .alreadyExists) d
      | .ok none => addEntry place (.directory ⟨d.directories.size⟩) d.withDirectory := by
  unfold createDirectory
  rw [Action.bind_of_ok (observe_of_ok hlocate)]
  cases hlookup : d.lookup place with
  | error kind =>
    have hobserve : observe (·.lookup place) d = .error (.refused kind) d := by
      simp only [observe, hlookup]
    exact Action.bind_of_error hobserve
  | ok found? =>
    rw [Action.bind_of_ok (observe_of_ok hlookup)]
    cases found? with
    | none => rfl
    | some entry => rfl

/-- Making one directory has the same outcome on both disks. -/
theorem createDirectory_beside (hlinked : d.Linked) (hbeside : d.Beside parent name d')
    (hextends : d.Extends last) (hfree : (last.children parent).lookup name = none)
    (hleads : last.Leads p trail) :
    (∃ e, createDirectory p d = .error e d ∧ createDirectory p d' = .error e d') ∨
      ∃ d₁ d₁', createDirectory p d = .ok () d₁ ∧ createDirectory p d' = .ok () d₁' ∧
        d₁.Beside parent name d₁' := by
  obtain ⟨place, hlast, hlookup, -⟩ := hleads.find_eq
  have hsame := hbeside.locate_eq hextends hfree hlast
  cases hlocate : d.locate p with
  | error kind =>
    rw [hlocate] at hsame
    have hfails : ∀ {d : Disk}, d.locate p = .error kind →
        createDirectory p d = .error (.refused kind) d := by
      intro d hlocate
      have hobserve : observe (·.locate p) d = .error (.refused kind) d := by
        simp only [observe, hlocate]
      exact Action.bind_of_error hobserve
    exact .inl ⟨_, hfails hlocate, hfails hsame⟩
  | ok place' =>
    cases (hextends.locate hlocate).symm.trans hlast
    rw [hlocate] at hsame
    rw [createDirectory_eq hlocate, createDirectory_eq hsame, hbeside.lookup_eq hfree hlookup,
      hbeside.size]
    cases d.lookup place with
    | error kind => exact .inl ⟨_, rfl, rfl⟩
    | ok found? =>
      cases found? with
      | some entry => exact .inl ⟨_, rfl, rfl⟩
      | none =>
        unfold addEntry
        cases place.name? with
        | none => exact .inr ⟨_, _, rfl, rfl, hbeside.withDirectory⟩
        | some other =>
          have hroom : place.directory.index < d.withDirectory.directories.size := by
            rw [withDirectory, Array.size_push]
            exact Nat.lt_succ_of_lt (hlinked.directory_lt hlocate)
          exact .inr ⟨_, _, rfl, rfl, hbeside.withDirectory.named hroom _⟩

/-- Making a directory where the ones around it are there already is one attempt. -/
theorem createWith_of_around
    (h : ∀ d₁, createDirectory p d ≠ .error (.refused .notFound) d₁) :
    createWith around p d = (Action.attempt (createDirectory p) >>= createWith.settle p) d := by
  unfold createWith
  cases hmake : createDirectory p d with
  | ok u d₁ =>
    rw [Action.bind_of_ok (Action.attempt_of_ok hmake),
      Action.bind_of_ok (Action.attempt_of_ok hmake)]
    rfl
  | error e d₁ =>
    rw [Action.bind_of_ok (Action.attempt_of_error hmake),
      Action.bind_of_ok (Action.attempt_of_error hmake)]
    have hne : e ≠ .refused .notFound := by
      rintro rfl
      exact h d₁ hmake
    cases e with
    | refused kind => cases kind <;> first | rfl | exact absurd rfl hne
    | _ => rfl

theorem createWith_of_notFound (h : createDirectory p d = .error (.refused .notFound) d₁) :
    createWith around p d =
      (around >>= fun _ => Action.attempt (createDirectory p) >>= createWith.settle p) d₁ := by
  unfold createWith
  rw [Action.bind_of_ok (Action.attempt_of_error h)]

theorem attempt_beside (hlinked : d.Linked) (hbeside : d.Beside parent name d')
    (hextends : d.Extends last) (hfree : (last.children parent).lookup name = none)
    (hleads : last.Leads p trail)
    (h : (Action.attempt (createDirectory p) >>= createWith.settle p) d = .ok () d₁) :
    ∃ d₁', (Action.attempt (createDirectory p) >>= createWith.settle p) d' = .ok () d₁' ∧
      d₁.Beside parent name d₁' := by
  rcases createDirectory_beside hlinked hbeside hextends hfree hleads with
    ⟨e, herror, herror'⟩ | ⟨d₂, d₂', hok, hok', hnext⟩
  · rw [Action.bind_of_ok (Action.attempt_of_error herror)] at h
    rw [Action.bind_of_ok (Action.attempt_of_error herror')]
    have hthere : d'.isDirectory p = d.isDirectory p := by
      rw [isDirectory, isDirectory, hbeside.find_eq hextends hfree hleads]
    unfold createWith.settle at h ⊢
    simp only [Action.get_bind] at h ⊢
    rw [hthere]
    split at h
    · next hdirectory =>
      cases h
      exact ⟨d', by rw [if_pos hdirectory]; rfl, hbeside⟩
    · cases h
  · rw [Action.bind_of_ok (Action.attempt_of_ok hok)] at h
    cases h
    exact ⟨d₂', by rw [Action.bind_of_ok (Action.attempt_of_ok hok')]; rfl, hnext⟩

/-- The computation makes directories, and has the same outcome beside the name if that is still
free on the last disk. -/
structure MakesBeside (parent : DirectoryRef) (name : String) (last : Disk)
    (x : EStateM IoError Disk Unit) : Prop where
  keeps : ∀ d₀ : Disk, Keeps (fun d => d.Linked ∧ d₀.Spares .log d) x
  same : ∀ {d d' d₁ : Disk}, d.Linked → d.Beside parent name d' →
    x d = .ok () d₁ → d₁.Extends last → ∃ d₁', x d' = .ok () d₁' ∧ d₁.Beside parent name d₁'

namespace MakesBeside

theorem pure : MakesBeside parent name last (Pure.pure () : EStateM IoError Disk Unit) where
  keeps := fun _ => .pure ()
  same := fun _ hbeside hx _ => by
    cases hx
    exact ⟨_, rfl, hbeside⟩

/-- What a computation starts from has a place on the last disk if what it ends with has. -/
theorem extends_last {x : EStateM IoError Disk Unit}
    (hkeeps : Keeps (fun d' => d'.Linked ∧ d.Spares .log d') x) (hlinked : d.Linked)
    (hok : x d = .ok () d₁) (hextends : d₁.Extends last) : d.Extends last := fun _ _ _ hfound =>
  hextends _ _ _ ((hkeeps.of_ok ⟨hlinked, .refl _ _⟩ hok).2.extended _ _ _ hfound)

theorem createWith (haround : MakesBeside parent name last around)
    (hfree : (last.children parent).lookup name = none) (p : Path) :
    MakesBeside parent name last (createWith around p) where
  keeps := fun d₀ => keeps_createWith (Spares.keeps_createDirectory .log d₀) (haround.keeps d₀) p
  same := fun {d d' d₁} hlinked hbeside hx hextends => by
    have hlast := extends_last (keeps_createWith (Spares.keeps_createDirectory .log d)
      (haround.keeps d) p) hlinked hx hextends
    have haround' : Keeps Linked around := fun d₀ hd₀ => by
      have hkept := haround.keeps d₀ d₀ ⟨hd₀, .refl _ _⟩
      split at hkept <;> exact hkept.1
    obtain ⟨place, ref, hfind⟩ := find_of_createWith haround' hlinked hx
    obtain ⟨trail, hleads, -⟩ := leads_of_find hfind
    have hthere := hextends.leads hleads
    rcases createDirectory_beside hlinked hbeside hlast hfree hthere with
      ⟨e, hfails, hfails'⟩ | ⟨d₂, d₂', hok, hok', hnext⟩
    · by_cases hmissing : e = .refused .notFound
      · subst hmissing
        rw [createWith_of_notFound hfails] at hx
        rw [createWith_of_notFound hfails']
        obtain ⟨u, d₂, hmake, hx⟩ := Action.bind_eq_ok hx
        have hlinked₂ := haround'.of_ok hlinked hmake
        have hlast₂ := extends_last ((Spares.keeps_createDirectory .log d₂ p).attempt.bind
          (keeps_settle p)) hlinked₂ hx hextends
        obtain ⟨d₂', hmake', hbeside₂⟩ := haround.same hlinked hbeside hmake hlast₂
        rw [Action.bind_of_ok hmake']
        exact attempt_beside hlinked₂ hbeside₂ hlast₂ hfree hthere hx
      · have hother : ∀ {d : Disk}, createDirectory p d = .error e d →
            ∀ d₁, createDirectory p d ≠ .error (.refused .notFound) d₁ := by
          intro d hfails d₁ herror
          cases hfails.symm.trans herror
          exact hmissing rfl
        rw [createWith_of_around (hother hfails)] at hx
        rw [createWith_of_around (hother hfails')]
        exact attempt_beside hlinked hbeside hlast hfree hthere hx
    · rw [createWith_of_around fun _ herror => nomatch hok.symm.trans herror] at hx
      rw [createWith_of_around fun _ herror => nomatch hok'.symm.trans herror]
      exact attempt_beside hlinked hbeside hlast hfree hthere hx

theorem createAll (hfree : (last.children parent).lookup name = none) (absolute : Bool)
    (names : List String) : MakesBeside parent name last (createAll absolute names) := by
  induction names with
  | nil => exact .pure
  | cons first around ih =>
    unfold Disk.createAll
    split
    · exact ih
    · exact ih.createWith hfree _

end MakesBeside

/-- A directory that can be made, beside a name that is free after that, can be made as well when
the name stands for something. -/
theorem makeDirectory_beside (hlinked : d.Linked) (hbeside : d.Beside parent name d')
    (hmake : makeDirectory dir d = .ok () d₁) (hfree : (d₁.children parent).lookup name = none) :
    ∃ d₁', makeDirectory dir d' = .ok () d₁' ∧ d₁.Beside parent name d₁' := by
  have hmakes : MakesBeside parent name d₁ (makeDirectory dir) := by
    unfold makeDirectory
    split
    · exact .pure
    · exact (MakesBeside.createAll hfree _ _).createWith hfree _
  exact hmakes.same hlinked hbeside hmake fun _ _ _ hfound => hfound

end Disk

end AppendStore
