import AppendStore.Proofs.ValueFile.Record

/-!
# A value file in use

A `Session` is a value file over its store, as it is used: values are written, each with
a plan of how the single writes turn out, and in between the file is dropped and opened
again on the same store. What becomes of one handle is its `Life`: the size that it has
found and its attempts to write.

`ValueFile.stored_values_survive` is the contract of a value file, for every store and
every run in which the offsets stay numbers of 64 bits. What was there at first is never
changed, and a value whose write has succeeded is read back for ever. The attempts of one
handle claim ranges one behind the other, whether they succeed or not, and write nowhere
else.

The invariant is `Session.Sound`. It rests on the contents ending before the next offset
at all times, so every write goes behind what is there. That survives a handle, although
the next one may claim again what a failed write has left free.
-/

namespace AppendStore

namespace ValueFile

open ByteStore

inductive Request where
  | write (value : Bytes)
  /-- To be dropped and opened again on the same store. -/
  | reopen
  deriving DecidableEq

/-- An attempt to write a value. The offset of the file was `start` before it and `stop` after
it. -/
structure Attempt where
  value : Bytes
  start : UInt64
  stop : UInt64
  result : Except StoreError UInt64

/-- What has become of one handle. -/
structure Life where
  /-- The size of the store when it was opened. -/
  size : Nat
  attempts : List Attempt := []

/-- A value file over its store, with the lives of the handles before it, the newest first. -/
structure Session where
  file : ValueFile
  store : ByteStore
  life : Life
  past : List Life := []

def rangesFrom (start : Nat) : List Bytes → List (Nat × Nat)
  | [] => []
  | v :: vs => (start, start + storedLength v) :: rangesFrom (start + storedLength v) vs

def storedBytes (vs : List Bytes) : Nat := vs.foldr (fun v n => storedLength v + n) 0

theorem storedBytes_cons (v : Bytes) (vs : List Bytes) :
    storedBytes (v :: vs) = storedLength v + storedBytes vs := rfl

theorem storedBytes_append_singleton (vs : List Bytes) (v : Bytes) :
    storedBytes (vs ++ [v]) = storedBytes vs + storedLength v := by
  induction vs with
  | nil => exact (Nat.zero_add _).symm
  | cons u vs ih => rw [List.cons_append, storedBytes_cons, ih, storedBytes_cons, Nat.add_assoc]

theorem rangesFrom_append_singleton (start : Nat) (vs : List Bytes) (v : Bytes) :
    rangesFrom start (vs ++ [v]) = rangesFrom start vs ++
      [(start + storedBytes vs, start + storedBytes vs + storedLength v)] := by
  induction vs generalizing start with
  | nil => rfl
  | cons u vs ih =>
    rw [List.cons_append, rangesFrom, ih, rangesFrom, List.cons_append, storedBytes_cons,
      Nat.add_assoc start]

theorem le_of_mem_rangesFrom {start : Nat} {vs : List Bytes} {r : Nat × Nat}
    (h : r ∈ rangesFrom start vs) : start ≤ r.1 := by
  induction vs generalizing start with
  | nil => cases h
  | cons v vs ih =>
    rcases List.mem_cons.1 h with rfl | h
    · exact Nat.le_refl _
    · exact Nat.le_trans (Nat.le_add_right _ _) (ih h)

theorem pairwise_rangesFrom (start : Nat) (vs : List Bytes) :
    (rangesFrom start vs).Pairwise fun r r' => r.2 ≤ r'.1 := by
  induction vs generalizing start with
  | nil => exact .nil
  | cons v vs ih =>
    refine .cons ?_ (ih _)
    intro r hr
    exact le_of_mem_rangesFrom hr

def Attempt.range (a : Attempt) : Nat × Nat := (a.start.toNat, a.stop.toNat)

namespace Life

def values (l : Life) : List Bytes := l.attempts.map Attempt.value

def ranges (l : Life) : List (Nat × Nat) := l.attempts.map Attempt.range

def reach (l : Life) : Nat := l.size + storedBytes l.values

def push (l : Life) (a : Attempt) : Life := { l with attempts := l.attempts ++ [a] }

theorem values_push (l : Life) (a : Attempt) : (l.push a).values = l.values ++ [a.value] :=
  List.map_append

theorem ranges_push (l : Life) (a : Attempt) : (l.push a).ranges = l.ranges ++ [a.range] :=
  List.map_append

theorem reach_push (l : Life) (a : Attempt) :
    (l.push a).reach = l.reach + storedLength a.value := by
  rw [reach, values_push, storedBytes_append_singleton, ← Nat.add_assoc]
  rfl

/-- The attempts of the handle have claimed their ranges one behind the other from the size on that
it has found, and were answered with the start of the range or a failure to write. -/
structure Tiled (l : Life) : Prop where
  ranges : l.ranges = rangesFrom l.size l.values
  answers : ∀ a ∈ l.attempts, ∀ offset, a.result = .ok offset → offset = a.start
  checksums : ∀ a ∈ l.attempts, ∀ expected hashed,
    a.result ≠ .error (.checksumCreation expected hashed)

theorem tiled_of_new (size : Nat) : (⟨size, []⟩ : Life).Tiled := ⟨rfl, nofun, nofun⟩

theorem Tiled.push {l : Life} {a : Attempt} (h : l.Tiled) (hstart : a.start.toNat = l.reach)
    (hstop : a.stop.toNat = l.reach + storedLength a.value)
    (hanswer : ∀ offset, a.result = .ok offset → offset = a.start)
    (hchecksum : ∀ expected hashed, a.result ≠ .error (.checksumCreation expected hashed)) :
    (l.push a).Tiled where
  ranges := by
    rw [ranges_push, h.ranges, values_push, rangesFrom_append_singleton, Attempt.range, hstart,
      hstop]
    rfl
  answers := fun a' ha' => by
    rcases List.mem_append.1 ha' with hold | hnew
    · exact h.answers a' hold
    · cases List.mem_singleton.1 hnew
      exact hanswer
  checksums := fun a' ha' => by
    rcases List.mem_append.1 ha' with hold | hnew
    · exact h.checksums a' hold
    · cases List.mem_singleton.1 hnew
      exact hchecksum

end Life

namespace Session

def start (id : UInt64) (store : ByteStore) : Session where
  file := opened id store
  store
  life := ⟨store.size, []⟩

def after (σ : Session) (value : Bytes) (result : Except StoreError UInt64)
    (o : Over ValueFile ByteStore) : Session :=
  { σ with
    file := o.item
    store := o.base
    life := σ.life.push ⟨value, σ.file.offset, o.item.offset, result⟩ }

/-- Serves a request while the single writes turn out as planned. -/
def serve (σ : Session) (request : Request) (plan : List Outcome) : Session :=
  let store := σ.store.after σ.store.contents plan
  match request with
  | .write value =>
    match ValueFile.write value ⟨σ.file, store⟩ with
    | .ok offset o => σ.after value (.ok offset) o
    | .error e o => σ.after value (.error e) o
  | .reopen =>
    match attach σ.file.id store with
    | .ok file b => { file, store := b, life := ⟨b.size, []⟩, past := σ.life :: σ.past }
    | .error _ b => { σ with store := b }

def run (σ : Session) (requests : List (Request × List Outcome)) : Session :=
  requests.foldl (fun σ r => σ.serve r.1 r.2) σ

def lives (σ : Session) : List Life := σ.life :: σ.past

def HasOffset (σ : Session) (value : Bytes) : Prop :=
  σ.file.offset.toNat + storedLength value < UInt64.size

/-- In the run of the requests every value finds room behind the offset. -/
def OffsetsLeft (σ : Session) (requests : List (Request × List Outcome)) : Prop :=
  ∀ earlier value plan, earlier ++ [(.write value, plan)] <+: requests →
    (σ.run earlier).HasOffset value

def requestedBytes (requests : List (Request × List Outcome)) : Nat :=
  requests.foldr (fun r n =>
    match r.1 with
    | .write value => storedLength value + n
    | .reopen => n) 0

theorem requestedBytes_cons_write (value : Bytes) (plan : List Outcome)
    (rest : List (Request × List Outcome)) :
    requestedBytes ((.write value, plan) :: rest) = storedLength value + requestedBytes rest := rfl

theorem serve_reopen (σ : Session) (plan : List Outcome) :
    σ.serve .reopen plan =
      { file := opened σ.file.id (σ.store.after σ.store.contents plan)
        store := σ.store.after σ.store.contents plan
        life := ⟨(σ.store.after σ.store.contents plan).size, []⟩
        past := σ.life :: σ.past } := rfl

/-- An attempt writes a start of its record at the offset and moves the offset on. -/
theorem serve_write_cases {σ : Session} (hb : σ.store.Readable) (value : Bytes)
    (plan : List Outcome) :
    ∃ result k b, σ.serve (.write value) plan = σ.after value result ⟨σ.file.claimed value, b⟩ ∧
      (σ.store.after σ.store.contents plan).Torn σ.file.offset.toNat (recordOf value) k b ∧
      (∀ offset, result = .ok offset → offset = σ.file.offset ∧ k = storedLength value) ∧
      ∀ expected hashed, result ≠ .error (.checksumCreation expected hashed) := by
  rcases write_cases (hb.after σ.store.contents plan) σ.file value with
    ⟨b, hwrite, htorn⟩ | ⟨e, k, b, hwrite, htorn, he⟩
  · refine ⟨.ok σ.file.offset, _, b, ?_, htorn, ?_, nofun⟩
    · simp only [serve, hwrite]
    · rintro _ ⟨⟩
      exact ⟨rfl, rfl⟩
  · refine ⟨.error e, k, b, ?_, htorn, nofun, ?_⟩
    · simp only [serve, hwrite]
    · rintro expected hashed ⟨⟩
      exact he expected hashed rfl

theorem attempt_cases {σ : Session} {value : Bytes} {result : Except StoreError UInt64}
    {o : Over ValueFile ByteStore} {l : Life} (hl : l ∈ (σ.after value result o).lives)
    {a : Attempt} (ha : a ∈ l.attempts) :
    a = ⟨value, σ.file.offset, o.item.offset, result⟩ ∨ ∃ l' ∈ σ.lives, a ∈ l'.attempts := by
  rcases List.mem_cons.1 hl with rfl | hl
  · rcases List.mem_append.1 ha with hold | hnew
    · exact .inr ⟨σ.life, List.mem_cons_self, hold⟩
    · exact .inl (List.mem_singleton.1 hnew)
  · exact .inr ⟨l, List.mem_cons_of_mem _ hl, ha⟩

/-- The session on a store that has begun with the contents `first`. -/
structure Sound (first : Contents) (σ : Session) : Prop where
  readable : σ.store.Readable
  /-- The next record goes behind all that is there. -/
  behind : σ.store.contents.size ≤ σ.file.offset.toNat
  begins : first.Begins σ.store.contents
  shown : ∀ l ∈ σ.lives, ∀ a ∈ l.attempts, ∀ offset, a.result = .ok offset →
    σ.store.contents.Shows offset.toNat (recordOf a.value)
  tiled : ∀ l ∈ σ.lives, l.Tiled
  offset : σ.file.offset.toNat = σ.life.reach

namespace Sound

variable {first : Contents} {σ : Session} {value : Bytes}

theorem start {id : UInt64} {store : ByteStore} (hstore : store.Readable)
    (hsize : store.contents.size < UInt64.size) :
    (Session.start id store).Sound store.contents := by
  have hoffset : (opened id store).offset.toNat = store.contents.size := by
    rw [opened, hstore.size_eq, UInt64.toNat_ofNat_of_lt' hsize]
  exact
    { readable := hstore
      behind := Nat.le_of_eq hoffset.symm
      begins := .refl _
      shown := List.forall_mem_singleton.2 nofun
      tiled := List.forall_mem_singleton.2 (Life.tiled_of_new _)
      offset := hoffset.trans hstore.size_eq.symm }

theorem lt_size (h : σ.Sound first) : σ.store.contents.size < UInt64.size :=
  Nat.lt_of_le_of_lt h.behind σ.file.offset.toNat_lt

theorem shown_of_begins (h : σ.Sound first) {c : Contents} (hc : σ.store.contents.Begins c)
    {l : Life} (hl : l ∈ σ.lives) {a : Attempt} (ha : a ∈ l.attempts) {offset : UInt64}
    (hresult : a.result = .ok offset) : c.Shows offset.toNat (recordOf a.value) :=
  hc.shows_of_shows (h.shown l hl a ha offset hresult)

theorem serve_write (h : σ.Sound first) (hroom : σ.HasOffset value) (plan : List Outcome) :
    (σ.serve (.write value) plan).Sound first := by
  obtain ⟨result, k, b, hserve, htorn, hok, hchecksum⟩ := serve_write_cases h.readable value plan
  have hclaimed := toNat_offset_claimed hroom
  have hcontents : b.contents =
    σ.store.contents.write σ.file.offset.toNat ((recordOf value).take k) := htorn.contents_eq
  have hbegins : σ.store.contents.Begins b.contents := hcontents ▸ .write h.behind _
  rw [hserve]
  constructor
  case readable => exact htorn.readable (h.readable.after _ _)
  case behind =>
    have htake := List.length_take_le' k (recordOf value)
    rw [length_recordOf] at htake
    change b.contents.size ≤ (σ.file.claimed value).offset.toNat
    rw [hclaimed, hcontents]
    exact Contents.size_write_le (Nat.le_trans h.behind (Nat.le_add_right _ _))
      (Nat.add_le_add_left htake _)
  case begins => exact h.begins.trans hbegins
  case shown =>
    intro l hl a ha offset hresult
    rcases attempt_cases hl ha with rfl | ⟨l', hl', ha'⟩
    · obtain ⟨rfl, rfl⟩ := hok offset hresult
      rw [← length_recordOf, List.take_length] at hcontents
      exact hcontents ▸ Contents.shows_write _ (recordOf_ne_nil value)
    · exact h.shown_of_begins hbegins hl' ha' hresult
  case tiled =>
    intro l hl
    rcases List.mem_cons.1 hl with rfl | hl
    · refine (h.tiled _ List.mem_cons_self).push h.offset ?_ (fun o ho => (hok o ho).1) hchecksum
      exact hclaimed.trans (by rw [h.offset])
    · exact h.tiled l (List.mem_cons_of_mem _ hl)
  case offset =>
    change (σ.file.claimed value).offset.toNat = (σ.life.push _).reach
    rw [hclaimed, h.offset, Life.reach_push]

theorem offset_serve_write (h : σ.Sound first) (hroom : σ.HasOffset value) {plan : List Outcome} :
    (σ.serve (.write value) plan).file.offset.toNat = σ.file.offset.toNat + storedLength value := by
  obtain ⟨result, k, b, hserve, -⟩ := serve_write_cases h.readable value plan
  rw [hserve]
  exact toNat_offset_claimed hroom

theorem serve_reopen (h : σ.Sound first) (plan : List Outcome) :
    (σ.serve .reopen plan).Sound first := by
  have hreadable := h.readable.after σ.store.contents plan
  have hnew := @start σ.file.id _ hreadable h.lt_size
  rw [Session.serve_reopen]
  exact
    { readable := hreadable
      behind := hnew.behind
      begins := h.begins
      shown := List.forall_mem_cons.2 ⟨nofun, h.shown⟩
      tiled := List.forall_mem_cons.2 ⟨Life.tiled_of_new _, h.tiled⟩
      offset := hnew.offset }

theorem run {requests : List (Request × List Outcome)} (h : σ.Sound first)
    (hleft : σ.OffsetsLeft requests) : (σ.run requests).Sound first := by
  induction requests generalizing σ with
  | nil => exact h
  | cons r rest ih =>
    obtain ⟨request, plan⟩ := r
    have hfirst : (σ.serve request plan).Sound first := by
      cases request with
      | write value =>
        exact h.serve_write (hleft [] value plan (List.cons_prefix_cons.2 ⟨rfl, List.nil_prefix⟩)) plan
      | reopen => exact h.serve_reopen plan
    refine ih hfirst ?_
    intro earlier value plan' hprefix
    exact hleft ((request, plan) :: earlier) value plan' (List.cons_prefix_cons.2 ⟨rfl, hprefix⟩)

/-- The offset never gets further than all values of the run together reach. -/
theorem offsetsLeft (h : σ.Sound first) {requests : List (Request × List Outcome)}
    (hfew : σ.file.offset.toNat + requestedBytes requests < UInt64.size) :
    σ.OffsetsLeft requests := by
  induction requests generalizing σ with
  | nil =>
    intro earlier value plan hprefix
    exact absurd (List.prefix_nil.1 hprefix) (List.append_ne_nil_of_right_ne_nil _ (by simp))
  | cons r rest ih =>
    obtain ⟨request, plan⟩ := r
    have hfirst : ∀ value, request = .write value → σ.HasOffset value := by
      rintro value rfl
      rw [requestedBytes_cons_write, ← Nat.add_assoc] at hfew
      exact Nat.lt_of_le_of_lt (Nat.le_add_right _ _) hfew
    have hrest : (σ.serve request plan).OffsetsLeft rest := by
      cases request with
      | write value =>
        have hnext := h.serve_write (hfirst value rfl) plan
        refine ih hnext ?_
        rw [requestedBytes_cons_write, ← Nat.add_assoc] at hfew
        rwa [h.offset_serve_write (hfirst value rfl)]
      | reopen =>
        have hnext := h.serve_reopen plan
        refine ih hnext (Nat.lt_of_le_of_lt (Nat.add_le_add_right ?_ _) hfew)
        rw [hnext.offset]
        exact Nat.le_trans (Nat.le_of_eq (h.readable.after _ _).size_eq) h.behind
    intro earlier value plan' hprefix
    cases earlier with
    | nil =>
      obtain ⟨heq, -⟩ := List.cons_prefix_cons.1 hprefix
      exact hfirst value (congrArg Prod.fst heq).symm
    | cons r' earlier =>
      obtain ⟨rfl, hlater⟩ := List.cons_prefix_cons.1 hprefix
      exact hrest earlier value plan' hlater

end Sound

/-- What a session shows of a store that has begun with the contents `first`. -/
structure Intact (first : Contents) (σ : Session) : Prop where
  /-- What was there at first is there still. -/
  begins : first.Begins σ.store.contents
  /-- Whichever handle has stored a value, it is read back. -/
  read_back : ∀ l ∈ σ.lives, ∀ a ∈ l.attempts, ∀ offset, a.result = .ok offset →
    read offset a.value.length ⟨σ.file, σ.store⟩ = .ok a.value ⟨σ.file, σ.store⟩
  tiled : ∀ l ∈ σ.lives, l.Tiled
  disjoint : ∀ l ∈ σ.lives, l.ranges.Pairwise fun r r' => r.2 ≤ r'.1
  offset : σ.file.offset.toNat = σ.life.size + storedBytes σ.life.values
  /-- The next attempt changes no byte outside the range that it claims. -/
  inside : ∀ value plan i,
    i < σ.file.offset.toNat ∨ σ.file.offset.toNat + storedLength value ≤ i →
    (σ.serve (.write value) plan).store.contents.byte i = σ.store.contents.byte i

theorem Sound.intact {first : Contents} {σ : Session} (h : σ.Sound first) : σ.Intact first where
  begins := h.begins
  read_back := fun l hl a ha offset hresult =>
    read_of_shows h.readable h.lt_size (h.shown l hl a ha offset hresult) σ.file
  tiled := h.tiled
  disjoint := fun l hl => by
    rw [(h.tiled l hl).ranges]
    exact pairwise_rangesFrom _ _
  offset := h.offset
  inside := fun value plan i hi => by
    obtain ⟨result, k, b, hserve, htorn, -, -⟩ := serve_write_cases h.readable value plan
    have hcontents : b.contents =
      σ.store.contents.write σ.file.offset.toNat ((recordOf value).take k) := htorn.contents_eq
    have hlength : ((recordOf value).take k).length ≤ storedLength value :=
      Nat.le_trans (List.length_take_le' _ _) (Nat.le_of_eq (length_recordOf value))
    rw [hserve]
    change b.contents.byte i = _
    rw [hcontents]
    exact Contents.byte_write_of_outside _ (by omega)

end Session

/-- A value file loses no value and changes nothing that was there before, whatever becomes of its
single writes and however often it is opened again, as long as the offsets stay below 2^64. -/
theorem stored_values_survive {id : UInt64} {store : ByteStore} (hstore : store.Readable)
    (hsize : store.contents.size < UInt64.size) {requests : List (Request × List Outcome)}
    (hleft : (Session.start id store).OffsetsLeft requests) :
    attach id store = .ok (Session.start id store).file store ∧
      ((Session.start id store).run requests).Intact store.contents :=
  ⟨rfl, ((Session.Sound.start hstore hsize).run hleft).intact⟩

/-- A record that is torn after two bytes. The next handle goes on behind these. -/
theorem stored_values_survive_torn_record :
    let store := ByteStore.ofBytes [1, 2, 3]
    let requests : List (Request × List Outcome) :=
      [(.write [10, 20], []), (.write [30], [.atMost 2, .failed]), (.reopen, []),
        (.write [], [.interrupted])]
    store.Readable ∧ store.contents.size < UInt64.size ∧
      (Session.start 1 store).OffsetsLeft requests ∧
      ((Session.start 1 store).run requests).lives.map (fun l => (l.size, l.ranges)) =
        [(11, [(11, 15)]), (3, [(3, 9), (9, 14)])] ∧
      ((Session.start 1 store).run requests).Intact store.contents := by
  intro store requests
  have hstore : store.Readable := (ByteStore.plain_ofBytes _).toReadable
  have hsize : store.contents.size < UInt64.size := by decide
  have hleft : (Session.start 1 store).OffsetsLeft requests :=
    (Session.Sound.start hstore hsize).offsetsLeft (by decide)
  exact ⟨hstore, hsize, hleft, by decide +kernel, (stored_values_survive hstore hsize hleft).2⟩

end ValueFile

end AppendStore
