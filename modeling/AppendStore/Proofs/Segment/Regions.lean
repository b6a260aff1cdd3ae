import AppendStore.Proofs.Segment.Cursors

/-!
# The two regions of a segment

Cursors that start at the ends of a segment divide it among all claims that they are
given: the headers tile it upward from the word, the bodies downward from the end, and
what is left lies between the cursors. `Cursors.Regions` is the invariant, and
`Cursors.divided_run` the result for every run of claims. In between the cursors may be
written out and read back.

The invariant speaks of the tiles alone. That no two ranges have a byte in common and
that each of them lies in the segment is read off them.
-/

namespace AppendStore

/-- The bytes from `start` on, `length` of them. -/
structure Span where
  start : Nat
  length : Nat
  deriving DecidableEq, Repr

namespace Span

def stop (r : Span) : Nat := r.start + r.length

/-- One of the two ends before the other starts. -/
def Apart (r r' : Span) : Prop := r.stop ≤ r'.start ∨ r'.stop ≤ r.start

/-- The spans lie one behind the other and fill everything from `low` up to `high`. -/
def Tiles (low : Nat) : List Span → Nat → Prop
  | [], high => low = high
  | r :: rs, high => r.start = low ∧ Tiles r.stop rs high

theorem start_le_stop (r : Span) : r.start ≤ r.stop := Nat.le_add_right _ _

namespace Tiles

variable {low high : Nat} {r : Span} {rs : List Span}

theorem le (h : Tiles low rs high) : low ≤ high := by
  induction rs generalizing low with
  | nil => exact Nat.le_of_eq h
  | cons r rs ih =>
    obtain ⟨rfl, hrest⟩ := h
    exact Nat.le_trans r.start_le_stop (ih hrest)

theorem append_singleton (h : Tiles low rs high) (hstart : r.start = high) :
    Tiles low (rs ++ [r]) r.stop := by
  induction rs generalizing low with
  | nil =>
    obtain rfl : low = high := h
    exact ⟨hstart, rfl⟩
  | cons first rs ih => exact ⟨h.1, ih h.2⟩

theorem within (h : Tiles low rs high) (hr : r ∈ rs) : low ≤ r.start ∧ r.stop ≤ high := by
  induction rs generalizing low with
  | nil => cases hr
  | cons first rs ih =>
    obtain ⟨rfl, hrest⟩ := h
    rcases List.mem_cons.1 hr with rfl | hr
    · exact ⟨Nat.le_refl _, hrest.le⟩
    · obtain ⟨hlow, hhigh⟩ := ih hrest hr
      exact ⟨Nat.le_trans first.start_le_stop hlow, hhigh⟩

theorem pairwise (h : Tiles low rs high) : rs.Pairwise fun r r' => r.stop ≤ r'.start := by
  induction rs generalizing low with
  | nil => exact .nil
  | cons first rs ih =>
    obtain ⟨rfl, hrest⟩ := h
    exact .cons (fun r' hr' => (hrest.within hr').1) (ih hrest)

end Tiles

end Span

namespace Cursors

inductive Request where
  | claim (headerLength bodyLength : UInt32)
  /-- To be written out and read back. -/
  | restore
  deriving DecidableEq

/-- A claim that was granted, and the lengths that it was made for. -/
structure Grant where
  claim : Claim
  headerLength : UInt32
  bodyLength : UInt32
  deriving DecidableEq, Repr

namespace Grant

def header (g : Grant) : Span := ⟨g.claim.headerOffset, g.headerLength.toNat⟩

def body (g : Grant) : Span := ⟨g.claim.bodyOffset, g.bodyLength.toNat⟩

def size (g : Grant) : Nat := g.headerLength.toNat + g.bodyLength.toNat

end Grant

def claimedBytes (grants : List Grant) : Nat := grants.foldr (fun g n => g.size + n) 0

def serve (c : Cursors) : Request → Option Grant × Cursors
  | .claim headerLength bodyLength =>
    ((c.claim headerLength bodyLength).1.map (⟨·, headerLength, bodyLength⟩),
      (c.claim headerLength bodyLength).2)
  | .restore => (none, .ofBytes c.bytes)

def run (c : Cursors) : List Request → List Grant × Cursors
  | [] => ([], c)
  | request :: rest =>
    let (grant?, c) := c.serve request
    let (grants, c) := c.run rest
    (grant?.toList ++ grants, c)

theorem claimedBytes_append_singleton (grants : List Grant) (g : Grant) :
    claimedBytes (grants ++ [g]) = claimedBytes grants + g.size := by
  induction grants with
  | nil => exact (Nat.zero_add _).symm
  | cons first grants ih =>
    have hcons : ∀ gs, claimedBytes (first :: gs) = first.size + claimedBytes gs := fun _ => rfl
    rw [List.cons_append, hcons, ih, hcons, Nat.add_assoc]

/-- What was granted and what lies between the cursors are all of the segment. -/
structure Regions (capacity : Nat) (grants : List Grant) (c : Cursors) : Prop where
  headers : Span.Tiles Segment.wordSize (grants.map Grant.header) c.front.toNat
  /-- The body of the last claim is the lowest. -/
  bodies : Span.Tiles c.back.toNat (grants.map Grant.body).reverse capacity
  order : c.front.toNat ≤ c.back.toNat
  claimed : c.front.toNat + capacity = c.back.toNat + Segment.wordSize + claimedBytes grants
  bound : capacity ≤ Segment.maxCapacity

namespace Regions

variable {capacity : Nat} {grants : List Grant} {c : Cursors} {h d : UInt32}

theorem back_le (hc : Regions capacity grants c) : c.back.toNat ≤ Segment.maxCapacity :=
  Nat.le_trans hc.bodies.le hc.bound

theorem space_eq (hc : Regions capacity grants c) :
    c.space = (c.back.toNat : Int) - c.front.toNat :=
  Cursors.space_eq hc.back_le

theorem claim_of_fits (hc : Regions capacity grants c)
    (hfits : c.front.toNat + h.toNat + d.toNat ≤ c.back.toNat) :
    ∃ g c', c.claim h d = (some g, c') ∧ Regions capacity (grants ++ [⟨g, h, d⟩]) c' := by
  refine ⟨_, _, Cursors.claim_of_fits hc.back_le hfits, ?_⟩
  have hback := hc.back_le
  have hfront' : (c.front + h).toNat = c.front.toNat + h.toNat := by
    rw [UInt32.toNat_add]
    apply Nat.mod_eq_of_lt
    change c.front.toNat + h.toNat < UInt32.size
    simp only [Segment.maxCapacity, UInt32.size] at hback ⊢
    omega
  have hback' : (c.back - d).toNat = c.back.toNat - d.toNat :=
    UInt32.toNat_sub_of_le _ _ (UInt32.le_iff_toNat_le.2 (by omega))
  have hclaimed := hc.claimed
  constructor
  case headers =>
    rw [front_pack, hfront', List.map_append]
    exact hc.headers.append_singleton rfl
  case bodies =>
    rw [back_pack, hback', List.map_append, List.reverse_append]
    refine ⟨rfl, ?_⟩
    have hstop : c.back.toNat - d.toNat + d.toNat = c.back.toNat := Nat.sub_add_cancel (by omega)
    simp only [Grant.body, Span.stop, hstop]
    exact hc.bodies
  case order =>
    rw [front_pack, back_pack, hfront', hback']
    omega
  case claimed =>
    have hsize : ∀ g : Claim, (⟨g, h, d⟩ : Grant).size = h.toNat + d.toNat := fun _ => rfl
    rw [front_pack, back_pack, hfront', hback', claimedBytes_append_singleton, hsize]
    omega
  case bound => exact hc.bound

theorem claim_of_full (hc : Regions capacity grants c)
    (hfull : c.back.toNat < c.front.toNat + h.toNat + d.toNat) : c.claim h d = (none, c) :=
  Cursors.claim_of_full hc.back_le hfull

theorem serve (hc : Regions capacity grants c) (request : Request) :
    Regions capacity (grants ++ (c.serve request).1.toList) (c.serve request).2 := by
  cases request with
  | claim h d =>
    rcases Nat.lt_or_ge c.back.toNat (c.front.toNat + h.toNat + d.toNat) with hfull | hfits
    · simp only [Cursors.serve, hc.claim_of_full hfull, Option.map_none, Option.toList_none,
        List.append_nil]
      exact hc
    · obtain ⟨g, c', hclaim, hnext⟩ := hc.claim_of_fits hfits
      simp only [Cursors.serve, hclaim, Option.map_some, Option.toList_some]
      exact hnext
  | restore =>
    simp only [Cursors.serve, ofBytes_bytes, Option.toList_none, List.append_nil]
    exact hc

theorem run (hc : Regions capacity grants c) (requests : List Request) :
    Regions capacity (grants ++ (c.run requests).1) (c.run requests).2 := by
  induction requests generalizing grants c with
  | nil =>
    rw [Cursors.run, List.append_nil]
    exact hc
  | cons request rest ih =>
    have hrest := ih (hc.serve request)
    rw [List.append_assoc] at hrest
    exact hrest

end Regions

theorem regions_ofCapacity {capacity : UInt32} (hmin : Segment.wordSize ≤ capacity.toNat)
    (hmax : capacity.toNat ≤ Segment.maxCapacity) :
    Regions capacity.toNat [] (ofCapacity capacity) where
  headers := by
    rw [front_ofCapacity]
    rfl
  bodies := by
    rw [back_ofCapacity]
    rfl
  order := by
    rw [front_ofCapacity, back_ofCapacity]
    exact hmin
  claimed := by
    rw [front_ofCapacity, back_ofCapacity, Nat.add_comm]
    rfl
  bound := hmax

/-- The segment is divided between the granted headers, what is free, and the granted bodies. -/
structure Divided (capacity : Nat) (grants : List Grant) (c : Cursors) : Prop where
  /-- The headers tile the bytes behind the word in the order of the claims. -/
  headers : Span.Tiles Segment.wordSize (grants.map Grant.header) c.front.toNat
  /-- The bodies tile the bytes before the end, the first one outermost. -/
  bodies : Span.Tiles c.back.toNat (grants.map Grant.body).reverse capacity
  apart : (grants.map Grant.header ++ grants.map Grant.body).Pairwise Span.Apart
  within : ∀ r ∈ grants.map Grant.header ++ grants.map Grant.body,
    Segment.wordSize ≤ r.start ∧ r.stop ≤ capacity
  below : ∀ g ∈ grants, ∀ g' ∈ grants, g.header.stop ≤ g'.body.start
  space : c.space = (capacity : Int) - Segment.wordSize - claimedBytes grants
  /-- The cursors are in order, so they can be written out at any time. -/
  settled : 0 ≤ c.space
  granted : ∀ h d : UInt32, (c.claim h d).1.isSome ↔ (h.toNat : Int) + d.toNat ≤ c.space
  refused : ∀ h d : UInt32, (c.claim h d).1 = none → (c.claim h d).2 = c

theorem Regions.header_within {capacity : Nat} {grants : List Grant} {c : Cursors}
    (hc : Regions capacity grants c) {r : Span} (hr : r ∈ grants.map Grant.header) :
    Segment.wordSize ≤ r.start ∧ r.stop ≤ c.front.toNat :=
  hc.headers.within hr

theorem Regions.body_within {capacity : Nat} {grants : List Grant} {c : Cursors}
    (hc : Regions capacity grants c) {r : Span} (hr : r ∈ grants.map Grant.body) :
    c.back.toNat ≤ r.start ∧ r.stop ≤ capacity :=
  hc.bodies.within (List.mem_reverse.2 hr)

theorem Regions.header_le_body {capacity : Nat} {grants : List Grant} {c : Cursors}
    (hc : Regions capacity grants c) {r r' : Span} (hr : r ∈ grants.map Grant.header)
    (hr' : r' ∈ grants.map Grant.body) : r.stop ≤ r'.start :=
  Nat.le_trans (hc.header_within hr).2 (Nat.le_trans hc.order (hc.body_within hr').1)

theorem Regions.isSome_claim {capacity : Nat} {grants : List Grant} {c : Cursors}
    (hc : Regions capacity grants c) (h d : UInt32) :
    (c.claim h d).1.isSome ↔ (h.toNat : Int) + d.toNat ≤ c.space := by
  have hspace := hc.space_eq
  have hclaimed := hc.claimed
  rcases Nat.lt_or_ge c.back.toNat (c.front.toNat + h.toNat + d.toNat) with hfull | hfits
  · rw [hc.claim_of_full hfull]
    exact ⟨nofun, fun hle => absurd hle (by omega)⟩
  · obtain ⟨g, c', hclaim, -⟩ := hc.claim_of_fits hfits
    rw [hclaim]
    exact ⟨fun _ => by omega, fun _ => rfl⟩

theorem Regions.divided {capacity : Nat} {grants : List Grant} {c : Cursors}
    (hc : Regions capacity grants c) : Divided capacity grants c := by
  have hspace := hc.space_eq
  have horder := hc.order
  have hclaimed := hc.claimed
  exact
    { headers := hc.headers
      bodies := hc.bodies
      apart := List.pairwise_append.2 ⟨hc.headers.pairwise.imp .inl,
        (List.pairwise_reverse.1 hc.bodies.pairwise).imp .inr,
        fun _ hr _ hr' => .inl (hc.header_le_body hr hr')⟩
      within := fun r hr => by
        rcases List.mem_append.1 hr with hr | hr
        · obtain ⟨hlow, hhigh⟩ := hc.header_within hr
          exact ⟨hlow, Nat.le_trans hhigh (Nat.le_trans horder hc.bodies.le)⟩
        · obtain ⟨hlow, hhigh⟩ := hc.body_within hr
          exact ⟨Nat.le_trans hc.headers.le (Nat.le_trans horder hlow), hhigh⟩
      below := fun _ hg _ hg' =>
        hc.header_le_body (List.mem_map_of_mem hg) (List.mem_map_of_mem hg')
      space := by omega
      settled := by omega
      granted := hc.isSome_claim
      refused := fun _ _ hnone => claim_snd_of_fst_eq_none hnone }

/-- However many claims of whatever lengths are made on a segment, those that are granted divide
it. -/
theorem divided_run {capacity : UInt32} (hmin : Segment.wordSize ≤ capacity.toNat)
    (hmax : capacity.toNat ≤ Segment.maxCapacity) (requests : List Request) :
    let history := (ofCapacity capacity).run requests
    Divided capacity.toNat history.1 history.2 :=
  ((regions_ofCapacity hmin hmax).run requests).divided

/-- A claim is refused and a smaller one granted, and one more fills the segment after the cursors
were read back. -/
theorem divided_run_full :
    let requests := [.claim 16 20, .claim 16 20, .claim 0 12, .restore, .claim 8 0, .claim 0 1]
    let history := (ofCapacity 64).run requests
    Segment.wordSize ≤ (64 : UInt32).toNat ∧ (64 : UInt32).toNat ≤ Segment.maxCapacity ∧
      history.1 = [⟨⟨8, 44⟩, 16, 20⟩, ⟨⟨24, 32⟩, 0, 12⟩, ⟨⟨24, 32⟩, 8, 0⟩] ∧
      history.2 = pack 32 32 ∧ Divided 64 history.1 history.2 :=
  ⟨by decide, by decide, by decide +kernel, by decide +kernel,
    @divided_run 64 (by decide) (by decide) _⟩

end Cursors

end AppendStore
