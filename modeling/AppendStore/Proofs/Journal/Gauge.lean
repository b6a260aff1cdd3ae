import AppendStore.Proofs.Journal.Session

/-!
# The machine of a journal's rotation

Which segment a record goes to depends on two numbers only: the id of the active
segment and the bytes of the records in it. `Journal.Gauge` is the machine on these
two numbers. It moves on to the next segment when a record does not fit, and after a
record that has taken the active segment past the size limit. Opening the journal
again is no reason to move on.

The id only grows (`Gauge.id_run_le`), and between requests the bytes are within the
limit (`Gauge.used_run_le`).
-/

namespace AppendStore

namespace Journal

open Segment

/-- The number of the active segment and the bytes of the records in it. -/
structure Gauge where
  id : Nat := 1
  used : Nat := 0
  deriving DecidableEq, Repr

namespace Gauge

def next (g : Gauge) : Gauge where
  id := g.id + 1

def Fits (config : Config) (length : Nat) (g : Gauge) : Prop :=
  wordSize + g.used + length ≤ config.segmentCapacity.toNat

instance (config : Config) (length : Nat) (g : Gauge) : Decidable (g.Fits config length) :=
  inferInstanceAs (Decidable (_ ≤ _))

/-- The segment that a record of the given length is tried in last. -/
def seat (config : Config) (length : Nat) (g : Gauge) : Gauge :=
  if g.Fits config length then g else g.next

def add (length : Nat) (g : Gauge) : Gauge := { g with used := g.used + length }

/-- The segment, or the next one if this one has passed the limit. -/
def settle (config : Config) (g : Gauge) : Gauge :=
  if config.sizeLimit.toNat < g.used then g.next else g

/-- The number of the segment that a record of the given length goes to, or why there is none, and
the segment that is active then. -/
def place (config : Config) (length : Nat) (g : Gauge) : Except StoreError Nat × Gauge :=
  let seat := g.seat config length
  if seat.Fits config length then (.ok seat.id, (seat.add length).settle config)
  else
    let room := config.segmentCapacity.toNat - wordSize
    (.error (.insufficientSpace length room), seat)

def append (config : Config) (t : Transaction) (g : Gauge) : Except StoreError Nat × Gauge :=
  match t.encode with
  | .error e => (.error e, g)
  | .ok body => g.place config (recordHeaderSize + body.length)

def placement? (config : Config) (g : Gauge) : Request → Option (Except StoreError Nat)
  | .append t => some (g.append config t).1
  | _ => none

def serve (config : Config) (g : Gauge) : Request → Gauge
  | .append t => (g.append config t).2
  | _ => g

def run (config : Config) (g : Gauge) (requests : List Request) : Gauge :=
  requests.foldl (serve config) g

/-- Where the appends among the requests go. -/
def placements (config : Config) : Gauge → List Request → List (Except StoreError Nat)
  | _, [] => []
  | g, request :: rest =>
    (g.placement? config request).toList ++ placements config (g.serve config request) rest

section Bounds

variable {config : Config} {g : Gauge} {length : Nat} {t : Transaction}

theorem append_of_invalid {e : StoreError} (hencode : t.encode = .error e) :
    g.append config t = (.error e, g) := by
  rw [append, hencode]

theorem append_of_encode {body : Bytes} (hencode : t.encode = .ok body) :
    g.append config t = g.place config (recordHeaderSize + body.length) := by
  rw [append, hencode]

theorem place_of_fits (h : (g.seat config length).Fits config length) :
    g.place config length =
      (.ok (g.seat config length).id, ((g.seat config length).add length).settle config) :=
  if_pos h

theorem place_of_full (h : ¬ (g.seat config length).Fits config length) :
    g.place config length =
      (.error (.insufficientSpace length (config.segmentCapacity.toNat - wordSize : Nat)),
        g.seat config length) :=
  if_neg h

theorem id_le_seat (config : Config) (length : Nat) (g : Gauge) :
    g.id ≤ (g.seat config length).id := by
  unfold seat
  split
  · exact Nat.le_refl _
  · exact Nat.le_succ _

theorem used_seat_le (h : g.used ≤ config.sizeLimit.toNat) (length : Nat) :
    (g.seat config length).used ≤ config.sizeLimit.toNat := by
  unfold seat
  split
  · exact h
  · exact Nat.zero_le _

theorem id_le_settle (config : Config) (g : Gauge) : g.id ≤ (g.settle config).id := by
  unfold settle
  split
  · exact Nat.le_succ _
  · exact Nat.le_refl _

theorem used_settle_le (config : Config) (g : Gauge) :
    (g.settle config).used ≤ config.sizeLimit.toNat := by
  unfold settle
  split
  · exact Nat.zero_le _
  · next hwithin => exact Nat.le_of_not_lt hwithin

theorem id_seat_le_place (config : Config) (length : Nat) (g : Gauge) :
    (g.seat config length).id ≤ (g.place config length).2.id := by
  by_cases hfits : (g.seat config length).Fits config length
  · rw [place_of_fits hfits]
    exact id_le_settle config ((g.seat config length).add length)
  · have hstays := congrArg (fun result => result.2.id) (place_of_full hfits)
    exact Nat.le_of_eq hstays.symm

theorem used_place_le (h : g.used ≤ config.sizeLimit.toNat) (length : Nat) :
    (g.place config length).2.used ≤ config.sizeLimit.toNat := by
  by_cases hfits : (g.seat config length).Fits config length
  · rw [place_of_fits hfits]
    exact used_settle_le config _
  · rw [place_of_full hfits]
    exact used_seat_le h length

theorem id_le_serve (config : Config) (g : Gauge) (request : Request) :
    g.id ≤ (g.serve config request).id := by
  cases request with
  | append t =>
    rw [serve, append]
    cases t.encode with
    | error e => exact Nat.le_refl _
    | ok body => exact Nat.le_trans (id_le_seat config _ g) (id_seat_le_place config _ g)
  | sync => exact Nat.le_refl _
  | reopen config' => exact Nat.le_refl _

theorem used_serve_le (h : g.used ≤ config.sizeLimit.toNat) (request : Request) :
    (g.serve config request).used ≤ config.sizeLimit.toNat := by
  cases request with
  | append t =>
    rw [serve, append]
    cases t.encode with
    | error e => exact h
    | ok body => exact used_place_le h _
  | sync => exact h
  | reopen config' => exact h

theorem id_le_run (config : Config) (g : Gauge) (requests : List Request) :
    g.id ≤ (g.run config requests).id := by
  induction requests generalizing g with
  | nil => exact Nat.le_refl _
  | cons request rest ih => exact Nat.le_trans (id_le_serve config g request) (ih _)

theorem used_run_le (h : g.used ≤ config.sizeLimit.toNat) (requests : List Request) :
    (g.run config requests).used ≤ config.sizeLimit.toNat := by
  induction requests generalizing g with
  | nil => exact h
  | cons request rest ih => exact ih (used_serve_le h request)

/-- Earlier in a run the segment was no later one. -/
theorem id_run_le {earlier requests : List Request} (h : earlier <+: requests) (config : Config)
    (g : Gauge) : (g.run config earlier).id ≤ (g.run config requests).id := by
  obtain ⟨later, rfl⟩ := h
  rw [run, run, List.foldl_append]
  exact id_le_run config _ later

end Bounds

end Gauge

end Journal

end AppendStore
