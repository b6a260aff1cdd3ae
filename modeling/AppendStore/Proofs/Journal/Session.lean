import AppendStore.Proofs.Journal.Reading

/-!
# Runs of a journal

A `Journal.Session` is a journal on its host, as it is used: one request after the
other, and each leaves an event behind. Dropping the journal and opening its directory
again is a request too, with settings of its own.

`Journal.run_shows_acknowledged` is the contract of the log. After every run, reading
the segments in the order of their ids gives the transactions whose appends were
acknowledged, each of them once and in the order of the appends. The answers of the
appends stay good, whatever was appended, rotated or opened again since.
-/

namespace AppendStore

namespace Journal

inductive Request where
  | append (t : Transaction)
  | sync
  /-- To be dropped and opened again with the given settings. -/
  | reopen (config : Config)
  deriving DecidableEq

namespace Request

/-- Only valid settings are used, and only for the one directory. -/
def ValidIn (dir : Path) : Request → Prop
  | reopen config => config.check = .ok () ∧ config.logDir = dir
  | _ => True

end Request

/-- What has become of a request. -/
inductive Event where
  | appended (t : Transaction) (result : Except StoreError Appended)
  | synced (result : Except StoreError Unit)
  | opened (result : Except StoreError Unit)
  /-- There was no journal. -/
  | unserved

def Event.ack? : Event → Option (Appended × Transaction)
  | appended t (.ok a) => some (a, t)
  | _ => none

/-- The acknowledged records, in the order of their appends. -/
def acks (events : List Event) : List (Appended × Transaction) := events.filterMap Event.ack?

theorem acks_append (past : List Event) (event : Event) :
    acks (past ++ [event]) = acks past ++ event.ack?.toList :=
  filterMap_concat _ past event

/-- A journal on its host, and what has become of the requests so far. -/
structure Session where
  journal? : Option Journal
  host : Host
  past : List Event := []

namespace Session

def start (j : Journal) (h : Host) : Session where
  journal? := some j
  host := h

def on (σ : Session) (o : Over Journal Host) (event : Event) : Session where
  journal? := some o.item
  host := o.base
  past := σ.past ++ [event]

def serve (σ : Session) (request : Request) : Session :=
  match request, σ.journal? with
  | .append t, some j =>
    match Journal.append t ⟨j, σ.host⟩ with
    | .ok a o => σ.on o (.appended t (.ok a))
    | .error e o => σ.on o (.appended t (.error e))
  | .sync, some j =>
    match Journal.sync ⟨j, σ.host⟩ with
    | .ok _ o => σ.on o (.synced (.ok ()))
    | .error e o => σ.on o (.synced (.error e))
  | .reopen config, _ =>
    match attach config σ.host with
    | .ok j host => σ.on ⟨j, host⟩ (.opened (.ok ()))
    | .error e host => { journal? := none, host, past := σ.past ++ [.opened (.error e)] }
  | _, none => { σ with past := σ.past ++ [.unserved] }

section Serving

variable {σ : Session} {j : Journal} {o : Over Journal Host}

theorem serve_append_of_ok {t : Transaction} {a : Appended} (hj : σ.journal? = some j)
    (happend : Journal.append t ⟨j, σ.host⟩ = .ok a o) :
    σ.serve (.append t) = σ.on o (.appended t (.ok a)) := by
  simp only [serve, hj, happend]

theorem serve_append_of_error {t : Transaction} {e : StoreError} (hj : σ.journal? = some j)
    (happend : Journal.append t ⟨j, σ.host⟩ = .error e o) :
    σ.serve (.append t) = σ.on o (.appended t (.error e)) := by
  simp only [serve, hj, happend]

theorem serve_sync_of_ok (hj : σ.journal? = some j) (hsync : Journal.sync ⟨j, σ.host⟩ = .ok () o) :
    σ.serve .sync = σ.on o (.synced (.ok ())) := by
  simp only [serve, hj, hsync]

theorem serve_reopen_of_ok {config : Config} {h : Host} (hattach : attach config σ.host = .ok j h) :
    σ.serve (.reopen config) = σ.on ⟨j, h⟩ (.opened (.ok ())) := by
  simp only [serve, hattach]

end Serving

def run (σ : Session) (requests : List Request) : Session := requests.foldl serve σ

/-- No segment that is listed has the last of all ids. -/
def IdsLeft (σ : Session) : Prop :=
  ∀ j ids h, σ.journal? = some j → j.ids σ.host = .ok ids h →
    ∀ id ∈ ids, id.toNat + 1 < UInt64.size

theorem acks_on_of_quiet {event : Event} (hquiet : event.ack? = none) (σ : Session)
    (o : Over Journal Host) : acks (σ.on o event).past = acks σ.past := by
  rw [on, acks_append, hquiet, Option.toList_none, List.append_nil]

theorem past_serve (σ : Session) (request : Request) :
    ∃ event, (σ.serve request).past = σ.past ++ [event] := by
  cases request with
  | append t =>
    cases hj : σ.journal? with
    | none => exact ⟨.unserved, by simp only [serve, hj]⟩
    | some j => simp only [serve, hj]; split <;> exact ⟨_, rfl⟩
  | sync =>
    cases hj : σ.journal? with
    | none => exact ⟨.unserved, by simp only [serve, hj]⟩
    | some j => simp only [serve, hj]; split <;> exact ⟨_, rfl⟩
  | reopen config => simp only [serve]; split <;> exact ⟨_, rfl⟩

theorem past_run (σ : Session) (requests : List Request) : σ.past <+: (σ.run requests).past := by
  induction requests generalizing σ with
  | nil => exact List.prefix_rfl
  | cons request rest ih =>
    obtain ⟨event, hpast⟩ := σ.past_serve request
    have hfirst : σ.past <+: (σ.serve request).past := hpast ▸ List.prefix_append σ.past [event]
    exact hfirst.trans (ih _)

end Session

theorem slotsIn_run {earlier requests : List Request} (h : earlier <+: requests) (σ : Session)
    (id : UInt64) :
    slotsIn id (acks (σ.run earlier).past) <+: slotsIn id (acks (σ.run requests).past) := by
  obtain ⟨later, rfl⟩ := h
  have hpast := (σ.run earlier).past_run later
  rw [Session.run, Session.run, ← List.foldl_append] at hpast
  exact (hpast.filterMap Event.ack?).filter _

/-- The session has a journal with the acknowledged records, in at most `n` files. -/
def Follows (dir : Path) (n : Nat) (σ : Session) : Prop :=
  ∃ j m, σ.journal? = some j ∧ Carries dir (acks σ.past) m ⟨j, σ.host⟩ ∧ m ≤ n

namespace Carries

variable {dir : Path} {records : List (Appended × Transaction)} {n : Nat} {j : Journal} {h : Host}

/-- While the last id is not in use, there are ids left for two more files. -/
theorem lt_of_ids (hcarries : Carries dir records n ⟨j, h⟩)
    (hids : ∀ ids h', j.ids h = .ok ids h' → ∀ id ∈ ids, id.toNat + 1 < UInt64.size) :
    n + 1 < UInt64.size := by
  obtain ⟨trail, f, older, hactive, -, rfl⟩ := hcarries
  obtain ⟨ids, hlist, hsorted⟩ := hactive.files.idsIn_sorted
  rw [← hactive.dir_eq] at hlist
  rcases Nat.lt_or_ge ((f :: older).length + 1) UInt64.size with hlt | hge
  · exact hlt
  · have hlast : UInt64.size - 2 < (f :: older).length := by
      simp only [UInt64.size] at hge ⊢
      omega
    have hmem : idAt (UInt64.size - 2) ∈ ids := by
      rw [hsorted]
      exact (List.perm_insertionSort _ _).symm.subset
        (List.mem_map_of_mem (List.mem_range.2 hlast))
    have hbound := hids ids h hlist _ hmem
    rw [toNat_idAt (by decide)] at hbound
    exact absurd hbound (by decide)

theorem attach (hcarries : Carries dir records n ⟨j, h⟩) (hn : n < UInt64.size) {config : Config}
    (hcheck : config.check = .ok ()) (hdir : config.logDir = dir) :
    ∃ j' h', Journal.attach config h = .ok j' h' ∧ Carries dir records n ⟨j', h'⟩ ∧
      h'.disk = h.disk := by
  obtain ⟨trail, f, older, hactive, hrecords, rfl⟩ := hcarries
  subst hdir
  obtain ⟨ref, s, h', hattach, -, hdisk, hagain⟩ := hactive.files.attach hn hcheck
  exact ⟨_, h', hattach, ⟨trail, f, older, hagain, hrecords, rfl⟩, hdisk⟩

end Carries

namespace Follows

variable {dir : Path} {n : Nat} {σ : Session}

theorem idsLeft (h : Follows dir n σ) (hn : n + 1 < UInt64.size) : σ.IdsLeft := by
  obtain ⟨j, m, hj, hcarries, hm⟩ := h
  have hlt : m + 1 < UInt64.size := Nat.lt_of_le_of_lt (Nat.succ_le_succ hm) hn
  intro j' ids h' hj' hids id hid
  rw [hj] at hj'
  cases hj'
  rw [(hcarries.shows (Nat.lt_of_succ_lt hlt)).ids_eq] at hids
  cases hids
  obtain ⟨i, hi, rfl⟩ := List.mem_map.1 hid
  have hi' : i + 1 < UInt64.size := Nat.lt_trans (Nat.succ_lt_succ (List.mem_range.1 hi)) hlt
  rw [toNat_idAt hi']
  exact Nat.lt_of_le_of_lt (Nat.succ_le_succ (List.mem_range.1 hi)) hlt

theorem on_appended {o : Over Journal Host} {a : Appended} {t : Transaction}
    (h : Carries dir (acks σ.past ++ [(a, t)]) n o) :
    Follows dir n (σ.on o (.appended t (.ok a))) := by
  refine ⟨o.item, n, rfl, ?_, Nat.le_refl n⟩
  rw [Session.on, acks_append]
  exact h

theorem on_quiet {o : Over Journal Host} {event : Event} (h : Carries dir (acks σ.past) n o)
    (hquiet : event.ack? = none) : Follows dir n (σ.on o event) := by
  refine ⟨o.item, n, rfl, ?_, Nat.le_refl n⟩
  rw [Session.acks_on_of_quiet hquiet]
  exact h

theorem mono (h : Follows dir n σ) {m : Nat} (hle : n ≤ m) : Follows dir m σ := by
  obtain ⟨j, k, hj, hcarries, hk⟩ := h
  exact ⟨j, k, hj, hcarries, Nat.le_trans hk hle⟩

/-- Every request is served by the journal, and leaves one with the acknowledged records. -/
theorem serve (h : Follows dir n σ) (hids : σ.IdsLeft) {request : Request}
    (hvalid : request.ValidIn dir) : Follows dir (n + 2) (σ.serve request) := by
  obtain ⟨j, m, hj, hcarries, hm⟩ := h
  have hlt := hcarries.lt_of_ids fun ids h' => hids j ids h' hj
  have hle := Nat.add_le_add_right hm 2
  cases request with
  | append t =>
    rcases hcarries.append hlt t with
      ⟨a, o, k, happend, hnext, hk⟩ | ⟨e, o, k, happend, hnext, hk⟩
    · rw [Session.serve_append_of_ok hj happend]
      exact (on_appended hnext).mono (Nat.le_trans hk hle)
    · rw [Session.serve_append_of_error hj happend]
      exact (on_quiet hnext rfl).mono (Nat.le_trans hk hle)
  | sync =>
    obtain ⟨o, hsync, hnext, -⟩ := hcarries.sync
    rw [Session.serve_sync_of_ok hj hsync]
    exact (on_quiet hnext rfl).mono (Nat.le_add_right_of_le hm)
  | reopen config =>
    obtain ⟨j', h', hattach, hnext, -⟩ := hcarries.attach (Nat.lt_of_succ_lt hlt) hvalid.1 hvalid.2
    rw [Session.serve_reopen_of_ok hattach]
    exact (on_quiet hnext rfl).mono (Nat.le_add_right_of_le hm)

theorem run {requests : List Request} (h : Follows dir n σ)
    (hvalid : ∀ request ∈ requests, request.ValidIn dir)
    (hids : ∀ earlier, earlier <+: requests → (σ.run earlier).IdsLeft) :
    Follows dir (n + 2 * requests.length) (σ.run requests) := by
  induction requests generalizing σ n with
  | nil => exact h
  | cons request rest ih =>
    have hnext := h.serve (hids [] List.nil_prefix) (hvalid request List.mem_cons_self)
    have hlast := ih hnext (fun r hr => hvalid r (List.mem_cons_of_mem request hr))
      (fun earlier hearlier => hids (request :: earlier) (List.cons_prefix_cons.2 ⟨rfl, hearlier⟩))
    rw [List.length_cons, Nat.mul_succ, Nat.add_comm (2 * rest.length), ← Nat.add_assoc]
    exact hlast

theorem idsLeft_run {requests : List Request} (h : Follows dir n σ)
    (hvalid : ∀ request ∈ requests, request.ValidIn dir)
    (hn : n + 2 * requests.length + 1 < UInt64.size) {earlier : List Request}
    (hearlier : earlier <+: requests) : (σ.run earlier).IdsLeft := by
  have hfew : n + 1 < UInt64.size :=
    Nat.lt_of_le_of_lt (Nat.succ_le_succ (Nat.le_add_right n _)) hn
  induction requests generalizing σ n earlier with
  | nil =>
    rw [List.prefix_nil.1 hearlier]
    exact h.idsLeft hfew
  | cons request rest ih =>
    rcases List.prefix_cons_iff.1 hearlier with rfl | ⟨others, rfl, hothers⟩
    · exact h.idsLeft hfew
    · have hnext := h.serve (h.idsLeft hfew) (hvalid request List.mem_cons_self)
      rw [List.length_cons, Nat.mul_succ, Nat.add_comm (2 * rest.length), ← Nat.add_assoc] at hn
      exact ih hnext (fun r hr => hvalid r (List.mem_cons_of_mem request hr)) hn hothers
        (Nat.lt_of_le_of_lt (Nat.succ_le_succ (Nat.le_add_right _ _)) hn)

end Follows

/-- A journal that was opened in a directory without files, and is all that uses it, shows after
every run what it has acknowledged and nothing else. -/
theorem run_shows_acknowledged {config : Config} {h h' : Host} {j : Journal}
    (hunused : h.Unused config.logDir) (hattach : attach config h = .ok j h')
    {requests : List Request} (hvalid : ∀ request ∈ requests, request.ValidIn config.logDir)
    (hids : ∀ earlier, earlier <+: requests → ((Session.start j h').run earlier).IdsLeft) :
    let σ := (Session.start j h').run requests
    ∃ j' ids, σ.journal? = some j' ∧ Shows (acks σ.past) ids j' σ.host ∧
      ∀ earlier, earlier <+: requests → ∀ id,
        slotsIn id (acks ((Session.start j h').run earlier).past) <+: slotsIn id (acks σ.past) := by
  intro σ
  have hstart : Follows config.logDir 1 (Session.start j h') :=
    ⟨j, 1, rfl, carries_of_attach hunused hattach, Nat.le_refl 1⟩
  obtain ⟨j', n, hj', hcarries, -⟩ := hstart.run hvalid hids
  have hlt := hcarries.lt_of_ids fun ids h'' => hids requests List.prefix_rfl j' ids h'' hj'
  exact ⟨j', _, hj', hcarries.shows (Nat.lt_of_succ_lt hlt),
    fun earlier hearlier id => slotsIn_run hearlier _ id⟩

/-- Two records that need a segment each, in a directory that is there and is empty, with other
settings in between and a transaction without changes at the end. -/
theorem run_shows_acknowledged_rotation :
    let config : Config := { logDir := ⟨"wal"⟩, segmentCapacity := 64 }
    let host : Host := { disk := { directories := #[[], [("wal", .directory ⟨2⟩)], []] } }
    let t : Transaction := { id := 7, changes := [.delete [97]] }
    let requests := [.append t, .reopen { config with segmentCapacity := 128 },
      .append { t with id := 8 }, .sync, .append { id := 9, changes := [] }]
    let records : List (Appended × Transaction) :=
      [(⟨1, ⟨7, 24, 64⟩⟩, t), (⟨2, ⟨8, 88, 128⟩⟩, { t with id := 8 })]
    host.Unused config.logDir ∧ (∀ request ∈ requests, request.ValidIn config.logDir) ∧
      ∃ j h', attach config host = .ok j h' ∧
        let σ := (Session.start j h').run requests
        acks σ.past = records ∧ ∃ j', σ.journal? = some j' ∧ Shows records [1, 2] j' σ.host := by
  intro config host t requests records
  have hcheck : ({ logDir := ⟨"wal"⟩, segmentCapacity := 64 } : Config).check = .ok () := rfl
  have hagain : ({ logDir := ⟨"wal"⟩, segmentCapacity := 128 } : Config).check = .ok () := rfl
  have hfind : host.disk.find ⟨"wal"⟩ = .ok (⟨[⟨1⟩], some "wal"⟩, .directory ⟨2⟩) := rfl
  have hmake : Host.makeDirectory ⟨"wal"⟩
      { disk := { directories := #[[], [("wal", .directory ⟨2⟩)], []] } } = .ok () host := rfl
  have hunused : host.Unused ⟨"wal"⟩ := Host.unused_of_empty hfind rfl
  have hvalid : ∀ request ∈ requests, request.ValidIn config.logDir := by
    intro request hrequest
    simp only [requests, List.mem_cons, List.not_mem_nil, or_false] at hrequest
    rcases hrequest with rfl | rfl | rfl | rfl | rfl
    · trivial
    · exact ⟨hagain, rfl⟩
    · trivial
    · trivial
    · trivial
  obtain ⟨j, h', hattach⟩ := exists_attach hcheck hmake rfl rfl rfl
  let answered : Journal → Action Host (List (Appended × Transaction) × Option (List UInt64)) :=
    fun j h' =>
      let σ := (Session.start j h').run requests
      .ok (acks σ.past, σ.journal?.bind fun j' => j'.ids.run' σ.host) h'
  have hevaluated : (attach config >>= answered).run' host = some (records, some [1, 2]) := by
    decide +kernel
  have hanswered := Action.run'_of_ok
    (Action.bind_of_ok hattach : (attach config >>= answered) host = .ok _ h')
  obtain ⟨hacks, hids⟩ := Prod.mk.inj (Option.some.inj (hanswered.symm.trans hevaluated))
  have hstart : Follows config.logDir 1 (Session.start j h') :=
    ⟨j, 1, rfl, carries_of_attach hunused hattach, Nat.le_refl 1⟩
  obtain ⟨j', ids, hj', hshows, -⟩ := run_shows_acknowledged hunused hattach hvalid
    fun earlier hearlier => hstart.idsLeft_run hvalid (by decide) hearlier
  rw [hj', Option.bind_some, Action.run'_of_ok hshows.ids_eq] at hids
  cases hids
  exact ⟨hunused, hvalid, j, h', hattach, hacks, j', hj', hacks ▸ hshows⟩

end Journal

end AppendStore
