import AppendStore.Proofs.Disk.Naming
import AppendStore.Proofs.Host.Segments
import AppendStore.Proofs.Segment.Alike

/-!
# Segments in files and in memory

A segment is opened in a directory, where it lies in a file, or on a byte store in
memory. The file is given the size of the segment when it is made, and the store in
memory grows as it is written. `Host.Holder` is a host on which one segment is used, and
opened again at any time, either way.

Whatever a file and a store in memory hold at first, if they hold the same, the two ways
give the same answers (`Host.file_and_memory_agree`), and the same bytes as soon as an
append has succeeded.
-/

namespace AppendStore

namespace Host

open Segment

inductive Request where
  | operate (op : Operation)
  /-- To drop its segment and open it again. -/
  | reopen
  deriving DecidableEq

/-- What a holder has answered, and the figures of its segment since. There is no result if there
was no segment. -/
structure Answer where
  result? : Option (Except StoreError Reply)
  figures? : Option Figures

/-- A host and the segment that is in use on it. -/
structure Holder where
  host : Host
  ref? : Option SegmentRef := none

def Answer.isAppended : Answer → Bool
  | ⟨some (.ok (.appended _)), _⟩ => true
  | _ => false

theorem Answer.result?_of_isAppended {a : Answer} (h : a.isAppended) :
    ∃ header, a.result? = some (.ok (.appended header)) := by
  obtain ⟨result?, figures?⟩ := a
  unfold isAppended at h
  split at h
  · next header _ heq =>
    cases heq
    exact ⟨header, rfl⟩
  · cases h

namespace Holder

def figures? (x : Holder) : Option Figures :=
  (x.ref?.bind x.host.segment?).map fun opened => opened.item.figures

/-- Does what it is asked for; `attach` opens the segment. -/
def act (attach : Action Host SegmentRef) (x : Holder) :
    Request → Option (Except StoreError Reply) × Holder
  | .operate op =>
    match x.ref? with
    | none => (none, x)
    | some ref =>
      match onSegment ref op.perform x.host with
      | .ok reply h => (some (.ok reply), { x with host := h })
      | .error e h => (some (.error e), { x with host := h })
  | .reopen =>
    match attach x.host with
    | .ok ref h => (some (.ok .done), ⟨h, some ref⟩)
    | .error e h => (some (.error e), ⟨h, none⟩)

def serve (attach : Action Host SegmentRef) (x : Holder) (request : Request) : Answer × Holder :=
  let (result?, x) := x.act attach request
  (⟨result?, x.figures?⟩, x)

def run (attach : Action Host SegmentRef) (x : Holder) : List Request → List Answer × Holder
  | [] => ([], x)
  | request :: rest =>
    let (answer, x) := x.serve attach request
    let (answers, x) := x.run attach rest
    (answer :: answers, x)

variable {attach : Action Host SegmentRef} {x : Holder} {h : Host} {ref : SegmentRef}
  {op : Operation} {e : StoreError}

theorem act_reopen_of_ok (hattach : attach x.host = .ok ref h) :
    x.act attach .reopen = (some (.ok .done), ⟨h, some ref⟩) := by
  simp only [act, hattach]

theorem act_reopen_of_error (hattach : attach x.host = .error e h) :
    x.act attach .reopen = (some (.error e), ⟨h, none⟩) := by
  simp only [act, hattach]

theorem act_of_none (href : x.ref? = none) (op : Operation) :
    x.act attach (.operate op) = (none, x) := by
  simp only [act, href]

theorem act_of_ok {reply : Reply} (href : x.ref? = some ref)
    (hop : onSegment ref op.perform x.host = .ok reply h) :
    x.act attach (.operate op) = (some (.ok reply), { x with host := h }) := by
  simp only [act, href, hop]

theorem act_of_error (href : x.ref? = some ref)
    (hop : onSegment ref op.perform x.host = .error e h) :
    x.act attach (.operate op) = (some (.error e), { x with host := h }) := by
  simp only [act, href, hop]

end Holder

section Opening

variable {h : Host} {r : StoreRef} {dir : Path} {id : UInt64} {capacity : UInt32} {s : Segment}
  {e : StoreError} {α : Type}

theorem attachSegment_of_found (hplain : (h.disk.store r).Plain)
    (hfound : found id capacity (h.disk.store r).contents = .ok s) :
    attachSegment r id capacity h = .ok ⟨h.segments.size⟩
      ((h.withStore r ((h.disk.store r).withContents
        ((h.disk.store r).contents.write 0 s.cursors.bytes))).withOpened s r) := by
  have hattach := attach_of_plain hplain id capacity
  rw [hfound] at hattach
  unfold attachSegment
  rw [Action.bind_of_ok (onStore_of_ok hattach)]
  rfl

theorem attachSegment_of_error (hplain : (h.disk.store r).Plain)
    (hfound : found id capacity (h.disk.store r).contents = .error e) :
    attachSegment r id capacity h = .error e h := by
  have hattach := attach_of_plain hplain id capacity
  rw [hfound] at hattach
  unfold attachSegment
  rw [Action.bind_of_error (onStore_of_error hattach), withStore_self]

end Opening

structure InUse (p : Path) (asked : UInt32) (r m : StoreRef) (full : Prop) (x y : Holder) : Prop where
  names : x.host.disk.Names p r
  room : r.index < x.host.disk.stores.size
  room_memory : m.index < y.host.disk.stores.size
  held : ∃ i j s s', x.ref? = some i ∧ x.host.segment? i = some ⟨s, r⟩ ∧
    y.ref? = some j ∧ y.host.segment? j = some ⟨s', m⟩ ∧
      Alike asked full ⟨s, x.host.disk.store r⟩ ⟨s', y.host.disk.store m⟩

structure Closed (p : Path) (r m : StoreRef) (x y : Holder) : Prop where
  free : x.ref? = none ∧ y.ref? = none
  file : ∃ d, Disk.openOrCreate p x.host.disk = .ok r d ∧ d.Names p r ∧
    r.index < d.stores.size ∧ (d.store r).Plain ∧ (d.store r).durability ≠ .fails ∧
      (d.store r).contents = (y.host.disk.store m).contents
  room_memory : m.index < y.host.disk.stores.size
  memory : (y.host.disk.store m).Plain ∧ (y.host.disk.store m).durability ≠ .fails

/-- Two holders that have come equally far, one with a file and one with a store in memory. As soon
as `full` holds the two have the same bytes. -/
inductive Twins (p : Path) (asked : UInt32) (r m : StoreRef) (full : Prop) (x y : Holder) : Prop
  | closed (hnot : ¬ full) (h : Closed p r m x y)
  | inUse (h : InUse p asked r m full x y)

section Serving

variable {dir : Path} {id : UInt64} {capacity : UInt32} {r m : StoreRef} {full : Prop}
  {x y : Holder} {d : Disk} {s s' : Segment}

theorem InUse.of_found (hopen : Disk.openOrCreate (segmentPath dir id) x.host.disk = .ok r d)
    (hnames : d.Names (segmentPath dir id) r) (hroom : r.index < d.stores.size)
    (hroom' : m.index < y.host.disk.stores.size)
    (hplain : (d.store r).Plain) (hplain' : (y.host.disk.store m).Plain)
    (hfound : found id capacity (d.store r).contents = .ok s)
    (hfound' : found id capacity (y.host.disk.store m).contents = .ok s')
    (halike : Alike capacity full ⟨{ s with path := some (segmentPath dir id) },
      foundFile (d.store r) s⟩ ⟨s', (y.host.disk.store m).withContents
        ((y.host.disk.store m).contents.write 0 s'.cursors.bytes)⟩) :
    ∃ x' y', x.act (openSegment dir id capacity) .reopen = (some (.ok .done), x') ∧
      y.act (attachSegment m id capacity) .reopen = (some (.ok .done), y') ∧
        InUse (segmentPath dir id) capacity r m full x' y' := by
  have hfile := openSegment_of_found hopen hplain hroom hfound
  have hmemory := attachSegment_of_found hplain' hfound'
  refine ⟨_, _, Holder.act_reopen_of_ok hfile, Holder.act_reopen_of_ok hmemory, ?_⟩
  constructor
  · exact hnames.setStore r _
  · exact Nat.lt_of_lt_of_eq hroom Array.size_setIfInBounds.symm
  · exact Nat.lt_of_lt_of_eq hroom' Array.size_setIfInBounds.symm
  · refine ⟨_, _, _, _, rfl, segment?_withOpened _ _ _, rfl, segment?_withOpened _ _ _, ?_⟩
    have hstore : (d.setStore r (foundFile (d.store r) s)).store r = _ :=
      Disk.store_setStore hroom
    have hstore' : (y.host.disk.setStore m _).store m = _ :=
      @Disk.store_setStore _ _ ((y.host.disk.store m).withContents
        ((y.host.disk.store m).contents.write 0 s'.cursors.bytes)) hroom'
    simp only [withOpened, withStore, hstore, hstore']
    exact halike

theorem InUse.operate (h : InUse (segmentPath dir id) capacity r m full x y) (op : Operation) :
    ∃ result x' y', x.act (openSegment dir id capacity) (.operate op) = (some result, x') ∧
      y.act (attachSegment m id capacity) (.operate op) = (some result, y') ∧
        InUse (segmentPath dir id) capacity r m
          (full ∨ ∃ header, result = .ok (.appended header)) x' y' := by
  obtain ⟨i, j, s, s', hi, hs, hj, hs', halike⟩ := h.held
  rcases halike.perform op with ⟨reply, f, g, hfile, hmemory, hnext⟩ | ⟨e, hfile, hmemory⟩
  · refine ⟨.ok reply, _, _, Holder.act_of_ok hi (onSegment_of_ok hs hfile),
      Holder.act_of_ok hj (onSegment_of_ok hs' hmemory), ?_⟩
    constructor
    · exact h.names.setStore r _
    · exact Nat.lt_of_lt_of_eq h.room Array.size_setIfInBounds.symm
    · exact Nat.lt_of_lt_of_eq h.room_memory Array.size_setIfInBounds.symm
    · refine ⟨i, j, f.item, g.item, hi, segment?_withSegment hs, hj, segment?_withSegment hs', ?_⟩
      have hstore : (x.host.disk.setStore r f.base).store r = f.base :=
        Disk.store_setStore h.room
      have hstore' : (y.host.disk.setStore m g.base).store m = g.base :=
        Disk.store_setStore h.room_memory
      simp only [withSegment, hstore, hstore']
      exact hnext.mono fun hfull => hfull.imp_right (Exists.imp fun _ heq => Except.ok.inj heq)
  · have hfile := onSegment_of_error hs hfile
    have hmemory := onSegment_of_error hs' hmemory
    rw [withSegment_self hs] at hfile
    rw [withSegment_self hs'] at hmemory
    have hnone : ¬ ∃ header, (.error e : Except StoreError Reply) = .ok (.appended header) := by
      rintro ⟨header, heq⟩
      cases heq
    refine ⟨.error e, _, _, Holder.act_of_error hi hfile, Holder.act_of_error hj hmemory, ?_⟩
    exact ⟨h.names, h.room, h.room_memory, i, j, s, s', hi, hs, hj, hs',
      halike.mono fun hfull => hfull.resolve_right hnone⟩

theorem InUse.reopen (h : InUse (segmentPath dir id) capacity r m full x y) :
    ∃ x' y', x.act (openSegment dir id capacity) .reopen = (some (.ok .done), x') ∧
      y.act (attachSegment m id capacity) .reopen = (some (.ok .done), y') ∧
        InUse (segmentPath dir id) capacity r m full x' y' := by
  obtain ⟨i, j, s, s', -, -, -, -, halike⟩ := h.held
  have hagain := halike.again id (some (segmentPath dir id))
  apply InUse.of_found (Disk.openOrCreate_of_names h.names) h.names h.room h.room_memory
    halike.long.plain halike.short.plain (halike.long.found_eq id) (halike.short.found_eq id)
  have hfile : foundFile (x.host.disk.store r) (s.again id) = x.host.disk.store r :=
    foundFile_again halike.long halike.capacity_le_size
  have hmemory : (y.host.disk.store m).withContents
      ((y.host.disk.store m).contents.write 0 (s'.again id).cursors.bytes) =
        y.host.disk.store m := halike.short.write_again id
  rw [hfile, hmemory]
  exact hagain

theorem InUse.mono {full' : Prop} {p : Path} (h : InUse p capacity r m full x y)
    (himp : full' → full) : InUse p capacity r m full' x y :=
  { h with
    held := by
      obtain ⟨i, j, s, s', hi, hs, hj, hs', halike⟩ := h.held
      exact ⟨i, j, s, s', hi, hs, hj, hs', halike.mono himp⟩ }

/-- Opening for the first time finds the same segment on both, or the same that is wrong. -/
theorem Closed.reopen (h : Closed (segmentPath dir id) r m x y) :
    ∃ result x' y', x.act (openSegment dir id capacity) .reopen = (some result, x') ∧
      y.act (attachSegment m id capacity) .reopen = (some result, y') ∧
        (∀ header, result ≠ .ok (.appended header)) ∧
          Twins (segmentPath dir id) capacity r m False x' y' := by
  obtain ⟨d, hopen, hnames, hroom, hplain, hdurable, hsame⟩ := h.file
  obtain ⟨hplain', hdurable'⟩ := h.memory
  cases hfound : found id capacity (y.host.disk.store m).contents with
  | ok s =>
    obtain ⟨x', y', hx, hy, hnext⟩ := InUse.of_found hopen hnames hroom h.room_memory hplain hplain'
      (hsame ▸ hfound) hfound (.of_found hplain hplain' hdurable hdurable' hsame hfound _)
    exact ⟨_, x', y', hx, hy, nofun, .inUse hnext⟩
  | error e =>
    have hfile := openSegment_of_error hopen hplain (hsame ▸ hfound)
    have hmemory := attachSegment_of_error hplain' hfound
    refine ⟨_, _, _, Holder.act_reopen_of_error hfile, Holder.act_reopen_of_error hmemory, nofun,
      .closed not_false ⟨⟨rfl, rfl⟩, ?_, h.room_memory, h.memory⟩⟩
    exact ⟨d, Disk.openOrCreate_of_names hnames, hnames, hroom, hplain, hdurable, hsame⟩

namespace Twins

variable {p : Path} {asked : UInt32}

theorem mono {full' : Prop} (h : Twins p capacity r m full x y) (himp : full' → full) :
    Twins p capacity r m full' x y := by
  cases h with
  | closed hnot h => exact .closed (mt himp hnot) h
  | inUse h => exact .inUse (h.mono himp)

theorem figures_eq (h : Twins p asked r m full x y) : x.figures? = y.figures? := by
  cases h with
  | closed _ h =>
    rw [Holder.figures?, Holder.figures?, h.free.1, h.free.2]
    rfl
  | inUse h =>
    obtain ⟨i, j, s, s', hi, hs, hj, hs', halike⟩ := h.held
    rw [Holder.figures?, Holder.figures?, hi, hj, Option.bind_some, Option.bind_some, hs, hs',
      Option.map_some, Option.map_some, halike.figures_eq]

/-- Both holders give the same result, and stay twins. -/
theorem act (h : Twins (segmentPath dir id) capacity r m full x y) (request : Request) :
    ∃ result? x' y', x.act (openSegment dir id capacity) request = (result?, x') ∧
      y.act (attachSegment m id capacity) request = (result?, y') ∧
        Twins (segmentPath dir id) capacity r m
          (full ∨ ∃ header, result? = some (.ok (.appended header))) x' y' := by
  cases h with
  | closed hnot h =>
    cases request with
    | operate op =>
      exact ⟨none, x, y, Holder.act_of_none h.free.1 op, Holder.act_of_none h.free.2 op,
        .closed (fun hfull => hfull.elim hnot nofun) h⟩
    | reopen =>
      obtain ⟨result, x', y', hx, hy, hresult, hnext⟩ := @Closed.reopen dir id capacity r m x y h
      have hnone : ¬ (full ∨ ∃ header, some result = some (.ok (.appended header))) := by
        rintro (hfull | ⟨header, heq⟩)
        · exact hnot hfull
        · exact hresult header (Option.some.inj heq)
      exact ⟨some result, x', y', hx, hy, hnext.mono hnone⟩
  | inUse h =>
    cases request with
    | operate op =>
      obtain ⟨result, x', y', hx, hy, hnext⟩ := h.operate op
      refine ⟨some result, x', y', hx, hy, .inUse (hnext.mono ?_)⟩
      exact fun hfull => hfull.imp_right (Exists.imp fun _ heq => Option.some.inj heq)
    | reopen =>
      obtain ⟨x', y', hx, hy, hnext⟩ := h.reopen
      exact ⟨_, x', y', hx, hy, .inUse (hnext.mono fun hfull => hfull.resolve_right nofun)⟩

theorem serve (h : Twins (segmentPath dir id) capacity r m full x y) (request : Request) :
    ∃ answer x' y', x.serve (openSegment dir id capacity) request = (answer, x') ∧
      y.serve (attachSegment m id capacity) request = (answer, y') ∧
        Twins (segmentPath dir id) capacity r m (full ∨ answer.isAppended) x' y' := by
  obtain ⟨result?, x', y', hx, hy, hnext⟩ := h.act request
  refine ⟨⟨result?, x'.figures?⟩, x', y', ?_, ?_, hnext.mono fun hfull =>
    hfull.imp_right Answer.result?_of_isAppended⟩
  · simp only [Holder.serve, hx]
  · simp only [Holder.serve, hy, hnext.figures_eq]

theorem run (h : Twins (segmentPath dir id) capacity r m full x y) (requests : List Request) :
    ∃ answers x' y', x.run (openSegment dir id capacity) requests = (answers, x') ∧
      y.run (attachSegment m id capacity) requests = (answers, y') ∧
        Twins (segmentPath dir id) capacity r m (full ∨ ∃ a ∈ answers, a.isAppended) x' y' := by
  induction requests generalizing full x y with
  | nil => exact ⟨[], x, y, rfl, rfl, h.mono fun hfull => hfull.resolve_right nofun⟩
  | cons request rest ih =>
    obtain ⟨answer, x', y', hx, hy, hnext⟩ := h.serve request
    obtain ⟨answers, x'', y'', hx', hy', hlast⟩ := ih hnext
    refine ⟨answer :: answers, x'', y'', ?_, ?_, ?_⟩
    · simp only [Holder.run, hx, hx']
    · simp only [Holder.run, hy, hy']
    · refine hlast.mono ?_
      rintro (hfull | ⟨a, ha, happended⟩)
      · exact .inl (.inl hfull)
      · rcases List.mem_cons.1 ha with rfl | ha
        · exact .inl (.inr happended)
        · exact .inr ⟨a, ha, happended⟩

end Twins

/-- A segment that is opened in a directory and one that is opened on a store in memory with the same
bytes as its file give the same answers and figures, whatever they are asked for. As soon as an
append has succeeded the file and the store hold the same bytes. -/
theorem file_and_memory_agree {h k : Host} {bs : Bytes} (hlinked : h.disk.Linked)
    (hopen : Disk.openOrCreate (segmentPath dir id) h.disk = .ok r d)
    (hfile : d.store r = .onDisk bs) (hmemory : k.disk.store m = .ofBytes bs)
    (hroom : m.index < k.disk.stores.size) (requests : List Request) :
    let file := Holder.run (openSegment dir id capacity) ⟨h, none⟩ requests
    let memory := Holder.run (attachSegment m id capacity) ⟨k, none⟩ requests
    file.1 = memory.1 ∧
      ((∃ a ∈ file.1, a.isAppended) → file.2.host.disk.Names (segmentPath dir id) r ∧
        (file.2.host.disk.store r).contents = (memory.2.host.disk.store m).contents) := by
  intro file memory
  have hopening : h.disk.Opening (segmentPath dir id) r d := by
    rcases Disk.openOrCreate_cases hlinked (segmentPath dir id) with
      ⟨kind, herror⟩ | ⟨r', d', hopen', hopening⟩
    · cases hopen.symm.trans herror
    · cases hopen.symm.trans hopen'
      exact hopening
  have hroom' : r.index < d.stores.size := hopening.names.lt (hopening.linked hlinked)
  have hdurable : (d.store r).durability ≠ .fails := by
    rw [hfile]
    exact nofun
  have hdurable' : (k.disk.store m).durability ≠ .fails := by
    rw [hmemory]
    exact nofun
  have hfirst : Twins (segmentPath dir id) capacity r m False ⟨h, none⟩ ⟨k, none⟩ := by
    refine .closed not_false ⟨⟨rfl, rfl⟩, ⟨d, hopen, hopening.names, hroom', ?_, hdurable, ?_⟩, hroom,
      ?_, hdurable'⟩
    · exact hfile ▸ ByteStore.plain_onDisk bs
    · rw [hfile, hmemory]
      rfl
    · exact hmemory ▸ ByteStore.plain_ofBytes bs
  obtain ⟨answers, x, y, hx, hy, hlast⟩ := hfirst.run requests
  have hx' : file = (answers, x) := hx
  have hy' : memory = (answers, y) := hy
  rw [hx', hy']
  refine ⟨rfl, fun happended => ?_⟩
  cases hlast with
  | closed hnot _ => exact absurd (.inr happended) hnot
  | inUse hlast =>
    obtain ⟨i, j, s, s', -, -, -, -, halike⟩ := hlast.held
    exact ⟨hlast.names, halike.full (.inr happended)⟩

end Serving

/-- A file that is not there yet and an empty store. One record fits, and is read after both were
opened again. -/
theorem file_and_memory_agree_new_file :
    let t : Transaction := { id := 7, changes := [.delete [97]] }
    let k : Host := { disk := { stores := #[.ofBytes []] } }
    let requests := [.operate .headers, .reopen, .operate (.append t), .operate (.append t), .reopen,
      .operate .headers, .operate (.read ⟨7, 24, 64⟩), .operate (.read ⟨7, 8, 64⟩), .operate .sync]
    let file := Holder.run (openSegment ⟨""⟩ 1 64) ⟨Host.empty, none⟩ requests
    let memory := Holder.run (attachSegment ⟨0⟩ 1 64) ⟨k, none⟩ requests
    ∃ d, Host.empty.disk.Linked ∧
      Disk.openOrCreate (segmentPath ⟨""⟩ 1) Host.empty.disk = .ok ⟨0⟩ d ∧
        d.store ⟨0⟩ = .onDisk [] ∧ k.disk.store ⟨0⟩ = .ofBytes [] ∧ 0 < k.disk.stores.size ∧
          file.1 = memory.1 ∧ (∃ a ∈ file.1, a.isAppended) ∧
            (file.2.host.disk.store ⟨0⟩).contents = (memory.2.host.disk.store ⟨0⟩).contents := by
  intro t k requests file memory
  have hopen : Disk.openOrCreate (segmentPath ⟨""⟩ 1) Host.empty.disk = .ok ⟨0⟩
      { stores := #[.onDisk []], directories := #[[], [("010000000000000001", .file ⟨0⟩)]] } := rfl
  have happended : ∃ a ∈ file.1, a.isAppended := by decide +kernel
  obtain ⟨hanswers, hbytes⟩ :=
    @file_and_memory_agree ⟨""⟩ 1 64 ⟨0⟩ ⟨0⟩ _ _ k [] .empty hopen rfl rfl (by decide) requests
  exact ⟨_, .empty, hopen, rfl, rfl, by decide, hanswers, happended, (hbytes happended).2⟩

end Host

end AppendStore
