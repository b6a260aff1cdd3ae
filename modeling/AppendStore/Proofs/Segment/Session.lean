import AppendStore.Proofs.Segment.Opening

/-!
# A segment in use

A `Session` is a segment over its store, as it is used: one request after the other,
each with a plan of how its single writes turn out. `Session.run` answers with one
event for each request. Dropping the segment and opening its store again is a request
too; if that fails there is no segment until it succeeds.

`Event.ack?`, `Event.claim?` and `Event.wrote?` say what an event tells about the
records of the segment. An append that was refused has claimed nothing; an append that
has claimed space and failed keeps its slot.
-/

namespace AppendStore

theorem filterMap_concat {α β : Type} (f : α → Option β) (past : List α) (event : α) :
    (past ++ [event]).filterMap f = past.filterMap f ++ (f event).toList := by
  rw [List.filterMap_append]
  cases h : f event with
  | none => rw [List.filterMap_cons_none h]; rfl
  | some b => rw [List.filterMap_cons_some h]; rfl

namespace Segment

inductive Request where
  | append (t : Transaction)
  | sync
  /-- To be dropped and opened again on the same store. -/
  | reopen
  deriving DecidableEq

inductive Event where
  /-- An append that would go to the given slot. -/
  | appended (slot : Nat) (t : Transaction) (result : Except StoreError RecordHeader)
  | synced (result : Except StoreError Unit)
  | opened (result : Except StoreError Segment)
  /-- There was no segment. -/
  | unserved

/-- A segment over its store. -/
structure Session where
  id : UInt64
  capacity : UInt32
  segment? : Option Segment
  store : ByteStore

/-- An acknowledged record: the header that an append has answered with. -/
structure Ack where
  slot : Nat
  header : RecordHeader
  transaction : Transaction
  deriving DecidableEq

/-- An append that was given space, and the header that it has answered with if it has
succeeded. -/
structure Claimed where
  transaction : Transaction
  header? : Option RecordHeader
  deriving DecidableEq

namespace Event

def ack? : Event → Option Ack
  | appended slot t (.ok h) => some ⟨slot, h, t⟩
  | _ => none

def claim? : Event → Option Claimed
  | appended _ t (.ok h) => some ⟨t, some h⟩
  | appended _ t (.error e) => if e.isRefusal then none else some ⟨t, none⟩
  | _ => none

/-- Whether a request that could write was an append that has succeeded; `none` if it was neither
a sync nor an append with space. -/
def wrote? : Event → Option Bool
  | appended _ _ (.ok _) => some true
  | appended _ _ (.error e) => if e.isRefusal then none else some false
  | synced _ => some false
  | _ => none

end Event

/-- The acknowledged records of a run. -/
def acks (events : List Event) : List Ack := events.filterMap Event.ack?

/-- The appends of a run that were given space, in order. -/
def claims (events : List Event) : List Claimed := events.filterMap Event.claim?

/-- The last request of a run that could write was an append that has succeeded. -/
def EndsInAck (events : List Event) : Prop := (events.filterMap Event.wrote?).getLast? = some true

instance (events : List Event) : Decidable (EndsInAck events) :=
  inferInstanceAs (Decidable (_ = _))

theorem acks_append (past : List Event) (event : Event) :
    acks (past ++ [event]) = acks past ++ event.ack?.toList :=
  filterMap_concat _ past event

theorem claims_append (past : List Event) (event : Event) :
    claims (past ++ [event]) = claims past ++ event.claim?.toList :=
  filterMap_concat _ past event

theorem endsInAck_append (past : List Event) (event : Event) :
    EndsInAck (past ++ [event]) ↔
      match event.wrote? with
      | none => EndsInAck past
      | some succeeded => succeeded = true := by
  rw [EndsInAck, filterMap_concat]
  cases event.wrote? with
  | none =>
    rw [Option.toList_none, List.append_nil]
    rfl
  | some succeeded =>
    rw [Option.toList_some, List.getLast?_concat]
    exact Option.some_inj

namespace Session

def on (σ : Session) (o : Over Segment ByteStore) : Session :=
  { σ with segment? := some o.item, store := o.base }

/-- Serves a request while the single writes turn out as planned. -/
def serve (σ : Session) (request : Request) (plan : List Outcome) : Event × Session :=
  let store := σ.store.after σ.store.contents plan
  match request, σ.segment? with
  | .append t, some s =>
    match Segment.append t ⟨s, store⟩ with
    | .ok h o => (.appended s.slots t (.ok h), σ.on o)
    | .error e o => (.appended s.slots t (.error e), σ.on o)
  | .sync, some s =>
    match Segment.sync ⟨s, store⟩ with
    | .ok _ o => (.synced (.ok ()), σ.on o)
    | .error e o => (.synced (.error e), σ.on o)
  | .reopen, _ =>
    match attach σ.id σ.capacity store with
    | .ok s b => (.opened (.ok s), σ.on ⟨s, b⟩)
    | .error e b => (.opened (.error e), { σ with segment? := none, store := b })
  | _, none => (.unserved, σ)

def run (σ : Session) : List (Request × List Outcome) → List Event × Session
  | [] => ([], σ)
  | (request, plan) :: rest =>
    let (event, σ) := σ.serve request plan
    let (events, σ) := σ.run rest
    (event :: events, σ)

/-- What every request keeps, from any events that came before it, a run keeps. -/
theorem run_induction {P : List Event → Session → Prop} {requests : List (Request × List Outcome)}
    (hserve : ∀ past σ request plan, (request, plan) ∈ requests → P past σ →
      P (past ++ [(σ.serve request plan).1]) (σ.serve request plan).2)
    (past : List Event) {σ : Session} (h : P past σ) :
    P (past ++ (σ.run requests).1) (σ.run requests).2 := by
  induction requests generalizing past σ with
  | nil =>
    rw [run, List.append_nil]
    exact h
  | cons r rest ih =>
    obtain ⟨request, plan⟩ := r
    have hfirst := hserve past σ request plan List.mem_cons_self h
    have hrest := ih (fun past σ request plan hmem =>
      hserve past σ request plan (List.mem_cons_of_mem _ hmem)) _ hfirst
    rw [List.append_assoc, List.singleton_append] at hrest
    exact hrest

variable {σ : Session} {s : Segment} {plan : List Outcome}

theorem serve_of_none {request : Request} (hs : σ.segment? = none) (hopen : request ≠ .reopen) :
    σ.serve request plan = (.unserved, σ) := by
  cases request with
  | append t => simp only [serve, hs]
  | sync => simp only [serve, hs]
  | reopen => exact absurd rfl hopen

theorem serve_append (hs : σ.segment? = some s) (t : Transaction) (plan : List Outcome) :
    σ.serve (.append t) plan =
      match Segment.append t ⟨s, σ.store.after σ.store.contents plan⟩ with
      | .ok h o => (.appended s.slots t (.ok h), σ.on o)
      | .error e o => (.appended s.slots t (.error e), σ.on o) := by
  simp only [serve, hs]

theorem serve_sync (hs : σ.segment? = some s) (plan : List Outcome) :
    σ.serve .sync plan =
      match Segment.sync ⟨s, σ.store.after σ.store.contents plan⟩ with
      | .ok _ o => (.synced (.ok ()), σ.on o)
      | .error e o => (.synced (.error e), σ.on o) := by
  simp only [serve, hs]

theorem serve_reopen (σ : Session) (plan : List Outcome) :
    σ.serve .reopen plan =
      match attach σ.id σ.capacity (σ.store.after σ.store.contents plan) with
      | .ok s b => (.opened (.ok s), σ.on ⟨s, b⟩)
      | .error e b => (.opened (.error e), { σ with segment? := none, store := b }) := by
  simp only [serve]

theorem serve_append_of_ok {t : Transaction} {h : RecordHeader} {o : Over Segment ByteStore}
    (hs : σ.segment? = some s)
    (happend : Segment.append t ⟨s, σ.store.after σ.store.contents plan⟩ = .ok h o) :
    σ.serve (.append t) plan = (.appended s.slots t (.ok h), σ.on o) := by
  rw [serve_append hs, happend]

theorem serve_append_of_error {t : Transaction} {e : StoreError} {o : Over Segment ByteStore}
    (hs : σ.segment? = some s)
    (happend : Segment.append t ⟨s, σ.store.after σ.store.contents plan⟩ = .error e o) :
    σ.serve (.append t) plan = (.appended s.slots t (.error e), σ.on o) := by
  rw [serve_append hs, happend]

theorem serve_sync_of_ok {o : Over Segment ByteStore} (hs : σ.segment? = some s)
    (hsync : Segment.sync ⟨s, σ.store.after σ.store.contents plan⟩ = .ok () o) :
    σ.serve .sync plan = (.synced (.ok ()), σ.on o) := by
  rw [serve_sync hs, hsync]

theorem serve_sync_of_error {e : StoreError} {o : Over Segment ByteStore}
    (hs : σ.segment? = some s)
    (hsync : Segment.sync ⟨s, σ.store.after σ.store.contents plan⟩ = .error e o) :
    σ.serve .sync plan = (.synced (.error e), σ.on o) := by
  rw [serve_sync hs, hsync]

theorem serve_reopen_of_ok {b : ByteStore}
    (hattach : attach σ.id σ.capacity (σ.store.after σ.store.contents plan) = .ok s b) :
    σ.serve .reopen plan = (.opened (.ok s), σ.on ⟨s, b⟩) := by
  rw [serve_reopen, hattach]

theorem serve_reopen_of_error {e : StoreError} {b : ByteStore}
    (hattach : attach σ.id σ.capacity (σ.store.after σ.store.contents plan) = .error e b) :
    σ.serve .reopen plan = (.opened (.error e), { σ with segment? := none, store := b }) := by
  rw [serve_reopen, hattach]

theorem serve_id_capacity (σ : Session) (request : Request) (plan : List Outcome) :
    (σ.serve request plan).2.id = σ.id ∧ (σ.serve request plan).2.capacity = σ.capacity := by
  cases request with
  | append t =>
    cases hs : σ.segment? with
    | none =>
      have hopen : Request.append t ≠ .reopen := nofun
      rw [serve_of_none hs hopen]
      exact ⟨rfl, rfl⟩
    | some s =>
      rw [serve_append hs]
      split <;> exact ⟨rfl, rfl⟩
  | sync =>
    cases hs : σ.segment? with
    | none =>
      have hopen : Request.sync ≠ .reopen := nofun
      rw [serve_of_none hs hopen]
      exact ⟨rfl, rfl⟩
    | some s =>
      rw [serve_sync hs]
      split <;> exact ⟨rfl, rfl⟩
  | reopen =>
    rw [serve_reopen]
    split <;> exact ⟨rfl, rfl⟩

theorem run_id_capacity (σ : Session) (requests : List (Request × List Outcome)) :
    (σ.run requests).2.id = σ.id ∧ (σ.run requests).2.capacity = σ.capacity := by
  have hserve : ∀ (past : List Event) (τ : Session) (request : Request) (plan : List Outcome),
      (request, plan) ∈ requests → τ.id = σ.id ∧ τ.capacity = σ.capacity →
        (τ.serve request plan).2.id = σ.id ∧ (τ.serve request plan).2.capacity = σ.capacity := by
    intro past τ request plan _ hτ
    obtain ⟨hid, hcapacity⟩ := τ.serve_id_capacity request plan
    exact ⟨hid.trans hτ.1, hcapacity.trans hτ.2⟩
  exact run_induction (P := fun _ τ => τ.id = σ.id ∧ τ.capacity = σ.capacity) hserve []
    ⟨rfl, rfl⟩

theorem serve_reopen_fst (σ : Session) (plan : List Outcome) :
    ∃ result, (σ.serve .reopen plan).1 = .opened result := by
  cases hattach : attach σ.id σ.capacity (σ.store.after σ.store.contents plan) with
  | ok s b => exact ⟨_, by rw [serve_reopen_of_ok hattach]⟩
  | error e b => exact ⟨_, by rw [serve_reopen_of_error hattach]⟩

/-- An append is refused and changes nothing, or claims its space and writes as far as it gets. -/
theorem serve_append_cases (hs : σ.segment? = some s) (hsound : s.Sound) (hb : σ.store.Readable)
    (t : Transaction) (plan : List Outcome) :
    (∃ e, e.isRefusal = true ∧ σ.serve (.append t) plan =
      (.appended s.slots t (.error e), σ.on ⟨s, σ.store.after σ.store.contents plan⟩)) ∨
    t.Writable ∧ s.Fits t.layout.length ∧
      ((∃ b', σ.serve (.append t) plan = (.appended s.slots t (.ok (s.nextHeader t)),
          σ.on ⟨(s.claimed t.layout.length).saved, b'⟩) ∧
        Landed s t (σ.store.after σ.store.contents plan) t.layout.length recordHeaderSize
          wordSize b') ∨
      ∃ e i j k b', e.isRefusal = false ∧ σ.serve (.append t) plan =
          (.appended s.slots t (.error e), σ.on ⟨s.claimed t.layout.length, b'⟩) ∧
        Landed s t (σ.store.after σ.store.contents plan) i j k b') := by
  have hb' := hb.after σ.store.contents plan
  cases hencode : t.encode with
  | error e =>
    obtain ⟨fault, rfl⟩ := Transaction.invalid_of_encode_error hencode
    exact .inl ⟨_, rfl, serve_append_of_error hs (append_of_invalid hencode)⟩
  | ok body =>
    have hw := (Transaction.encode_eq_ok_iff.1 hencode).1
    by_cases hfits : s.Fits t.layout.length
    · refine .inr ⟨hw, hfits, ?_⟩
      rcases append_cases (o := ⟨s, _⟩) hb' hsound hw hfits with
        ⟨b', happend, hl⟩ | ⟨e, i, j, k, b', happend, hl, he⟩
      · exact .inl ⟨b', serve_append_of_ok hs happend, hl⟩
      · exact .inr ⟨e, i, j, k, b', he, serve_append_of_error hs happend, hl⟩
    · have hfull := append_of_full (o := ⟨s, σ.store.after σ.store.contents plan⟩) hsound hw hfits
      exact .inl ⟨_, rfl, serve_append_of_error hs hfull⟩

theorem serve_sync_cases (hs : σ.segment? = some s) (hsound : s.Sound) (hb : σ.store.Readable)
    (plan : List Outcome) :
    ∃ result s' k b', (s' = s ∨ s' = s.saved) ∧
      σ.serve .sync plan = (.synced result, σ.on ⟨s', b'⟩) ∧
      (σ.store.after σ.store.contents plan).Torn 0 s.cursors.bytes k b' := by
  have hb' := hb.after σ.store.contents plan
  rcases sync_cases (o := ⟨s, _⟩) hb' hsound with
    ⟨b', htorn, hsync | ⟨e, hsync, -⟩⟩ | ⟨e, k, b', htorn, hsync, -⟩
  · exact ⟨_, s.saved, _, b', .inr rfl, serve_sync_of_ok hs hsync, htorn⟩
  · exact ⟨_, s.saved, _, b', .inr rfl, serve_sync_of_error hs hsync, htorn⟩
  · exact ⟨_, s, k, b', .inl rfl, serve_sync_of_error hs hsync, htorn⟩

end Session

end Segment

end AppendStore
