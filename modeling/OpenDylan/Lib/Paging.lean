import Mathlib.Data.Nat.Bitwise

/-!
# Regions of a paged memory

A region is a number of addresses in a row, in the hands of an owner.  Owners
share no page, so that regions of different owners are apart, and a region may
be followed by another one of its owner up to the end of its last page.
-/

namespace OpenDylan.Lib.Paging

variable {Owner : Type} {page : Nat}

structure Region (Owner : Type) where
  owner : Owner
  address : Nat
  size : Nat
deriving DecidableEq

/-- The address after a region. -/
def Region.stop (region : Region Owner) : Nat := region.address + region.size

/-- Two regions have no address in common. -/
def Region.Apart (first second : Region Owner) : Prop :=
  first.stop ≤ second.address ∨ second.stop ≤ first.address

theorem Region.Apart.symm {first second : Region Owner}
    (apart : first.Apart second) : second.Apart first :=
  Or.symm apart

/-- A region has an address on the page with a number. -/
def Region.On (page : Nat) (region : Region Owner) (number : Nat) : Prop :=
  ∃ address, region.address ≤ address ∧ address < region.stop ∧
    address / page = number

/-- A region that is smaller than a page is on one page. -/
def Region.Uncrossed (page : Nat) (region : Region Owner) : Prop :=
  region.size < page → ∀ first second, region.On page first →
    region.On page second → first = second

/-- No page holds regions of two owners. -/
def Unshared (page : Nat) (regions : List (Region Owner)) : Prop :=
  ∀ first ∈ regions, ∀ second ∈ regions, ∀ number, first.On page number →
    second.On page number → first.owner = second.owner

/-- The addresses from inside a page to its end. -/
theorem div_add_of_lt {address more : Nat}
    (fits : address % page + more < page) :
    (address + more) / page = address / page := by
  have split := Nat.div_add_mod address page
  have positive : 0 < page := Nat.zero_lt_of_lt fits
  rw [Nat.div_eq_iff positive]
  constructor
  · rw [Nat.mul_comm]
    omega
  · rw [Nat.mul_comm]
    omega

/-- Inside a page the address before is on the same page. -/
theorem pred_div_of_mod_pos {address : Nat} (inside : 0 < address % page) :
    (address - 1) / page = address / page := by
  have split := Nat.div_add_mod address page
  by_cases positive : 0 < page
  · rw [Nat.div_eq_iff positive]
    have below := Nat.mod_lt address positive
    constructor
    · rw [Nat.mul_comm]
      omega
    · rw [Nat.mul_comm]
      omega
  · have zero : page = 0 := by omega
    rw [zero, Nat.div_zero, Nat.div_zero]

/-- Before the start of a page there is the whole page that an address is
in. -/
theorem add_le_of_dvd {address more limit : Nat} (aligned : page ∣ limit)
    (below : address ≤ limit) (begun : 0 < address % page)
    (fits : address % page + more < page) : address + more ≤ limit := by
  rcases aligned with ⟨count, rfl⟩
  have split := Nat.div_add_mod address page
  have before : page * (address / page) < page * count := by omega
  have whole : page * (address / page + 1) ≤ page * count :=
    Nat.mul_le_mul_left page (Nat.lt_of_mul_lt_mul_left before)
  rw [Nat.mul_succ] at whole
  omega

/-- A region with room on its first page is on no other. -/
theorem Region.on_eq_of_room {region : Region Owner} {number : Nat}
    (room : region.address % page + region.size ≤ page)
    (on : region.On page number) : number = region.address / page := by
  rcases on with ⟨address, above, below, rfl⟩
  rw [stop] at below
  have split : address = region.address + (address - region.address) := by
    omega
  rw [split]
  apply div_add_of_lt
  omega

theorem Region.uncrossed_of_room {region : Region Owner}
    (room : region.address % page + region.size ≤ page) :
    region.Uncrossed page := by
  intro _ first second onFirst onSecond
  rw [on_eq_of_room room onFirst, on_eq_of_room room onSecond]

/-- Two regions that are not apart have an address in common. -/
theorem Region.apart_or_meet (first second : Region Owner)
    (some : 0 < first.size) (other : 0 < second.size) :
    first.Apart second ∨
      ∃ address, (first.address ≤ address ∧ address < first.stop) ∧
        second.address ≤ address ∧ address < second.stop := by
  by_cases apart : first.Apart second
  · exact Or.inl apart
  · right
    rw [Apart, not_or] at apart
    have starts : first.address < first.stop := Nat.lt_add_of_pos_right some
    have starts' : second.address < second.stop :=
      Nat.lt_add_of_pos_right other
    refine ⟨max first.address second.address, ?_⟩
    omega

end OpenDylan.Lib.Paging
