import OpenDylan.Lib.Paging

/-!
# Allocation in pages

Objects are put into segments.  A segment keeps the address after its last
object, and goes on there when the next object fits into the page; otherwise
it gets new pages at the end of the database.
-/

namespace OpenDylan.Dood.PageAllocation

open OpenDylan.Lib.Paging

/-! ## Buffers and pages -/

/-- `ash` -/
def ash (x : Nat) (count : Int) : Nat :=
  if 0 ≤ count then x <<< count.toNat else x >>> (-count).toNat

/-- `$dood-default-buffer-size` -/
def defaultBufferSize : Nat := 16 * 1024

/-- `mask-from-power-of-two` -/
def maskFromPowerOfTwo (size : Nat) : Nat := size - 1

/-- The loop `search` of `bit-from-power-of-two`; `none` when the fuel runs
out. -/
def search : Nat → Nat → Nat → Option Nat
  | 0, _, _ => none
  | fuel + 1, bit, x =>
      if x.testBit 0 then some bit else search fuel (bit + 1) (ash x (-1))

/-- `bit-from-power-of-two`; `none` for zero, on which the loop does not
end. -/
def bitFromPowerOfTwo (size : Nat) : Option Nat := search (size + 1) 0 size

/-- `*dood-buffer-size*`, `*dood-address-buffer-mask*` and
`*dood-address-buffer-bit-offset*` -/
structure Buffers where
  size : Nat
  addressMask : Nat
  addressBitOffset : Nat

/-- `dood-buffer-size-setter` -/
def Buffers.ofSize (newSize : Nat) : Option Buffers :=
  (bitFromPowerOfTwo newSize).map fun bit =>
    ⟨newSize, maskFromPowerOfTwo newSize, bit⟩

/-- `dood-address-page-mask` -/
def Buffers.addressPageMask (buffers : Buffers) : Nat :=
  ash buffers.addressMask (-2)

/-- `dood-page-size` -/
def Buffers.pageSize (buffers : Buffers) : Nat := ash buffers.size (-2)

/-- `dood-address-page-bit-offset` -/
def Buffers.addressPageBitOffset (buffers : Buffers) : Int :=
  buffers.addressBitOffset - 2

/-- `dood-fits-in-page?` -/
def Buffers.fitsInPage (buffers : Buffers) (address size : Nat) : Bool :=
  decide (size < (address + size) &&& buffers.addressPageMask)

/-- `dood-number-pages` -/
def Buffers.numberPages (buffers : Buffers) (size : Nat) : Nat :=
  ash size (-buffers.addressPageBitOffset) +
    if size &&& buffers.addressPageMask > 0 then 1 else 0

/-! ## Segments -/

variable {Segment : Type}

/-- The free address of a database and those of its segments; 0 before a
segment is used. -/
structure DoodState (Segment : Type) where
  freeAddress : Nat
  segmentFreeAddress : Segment → Nat

/-- `dood-allocate-pages` -/
def DoodState.allocatePages (buffers : Buffers) (dood : DoodState Segment)
    (n : Nat) : Nat × DoodState Segment :=
  (dood.freeAddress,
    { dood with freeAddress := dood.freeAddress + n * buffers.pageSize })

/-- `dood-segment-initialized?` -/
def DoodState.segmentInitialized (dood : DoodState Segment) (segment : Segment) : Bool :=
  decide (dood.segmentFreeAddress segment > 0)

/-- `dood-segment-fits-in-page?` -/
def DoodState.segmentFitsInPage (buffers : Buffers) (dood : DoodState Segment)
    (segment : Segment) (size : Nat) : Bool :=
  buffers.fitsInPage (dood.segmentFreeAddress segment) size

variable [DecidableEq Segment]

/-- `dood-segment-free-address-setter` -/
def DoodState.setSegmentFreeAddress (dood : DoodState Segment) (segment : Segment)
    (address : Nat) : DoodState Segment :=
  { dood with
    segmentFreeAddress :=
      Function.update dood.segmentFreeAddress segment address }

/-- `dood-allocate-in` -/
def DoodState.allocateIn (buffers : Buffers) (dood : DoodState Segment)
    (segment : Segment) (size : Nat) : Nat × DoodState Segment :=
  let (address, dood) :=
    if dood.segmentInitialized segment &&
        dood.segmentFitsInPage buffers segment size then
      (dood.segmentFreeAddress segment, dood)
    else
      dood.allocatePages buffers (buffers.numberPages size)
  (address, dood.setSegmentFreeAddress segment (address + size))

/-- Requests one after the other, and the regions that they return. -/
def DoodState.allocateAll (buffers : Buffers) :
    List (Segment × Nat) → DoodState Segment → List (Region Segment) × DoodState Segment
  | [], dood => ([], dood)
  | (segment, size) :: requests, dood =>
      let (address, dood) := dood.allocateIn buffers segment size
      let (regions, dood) := DoodState.allocateAll buffers requests dood
      (⟨segment, address, size⟩ :: regions, dood)

/-! ## Page arithmetic -/

theorem ash_neg (x count : Nat) : ash x (-count) = x / 2 ^ count := by
  rw [ash]
  split
  · have zero : count = 0 := by omega
    subst zero
    simp
  · rw [Int.neg_neg, Int.toNat_natCast, Nat.shiftRight_eq_div_pow]

theorem search_pow {fuel bits : Nat} (enough : bits < fuel) (bit : Nat) :
    search fuel bit (2 ^ bits) = some (bit + bits) := by
  induction fuel generalizing bits bit with
  | zero => cases enough
  | succ fuel inductionHypothesis =>
      rw [search]
      cases bits with
      | zero => rfl
      | succ bits =>
          have even : (2 ^ (bits + 1)).testBit 0 = false := by
            rw [Nat.testBit_two_pow]
            simp
          have half : ash (2 ^ (bits + 1)) (-1) = 2 ^ bits := by
            rw [show (-1 : Int) = -((1 : Nat) : Int) from rfl, ash_neg,
              Nat.pow_succ, Nat.pow_one, Nat.mul_div_cancel _ (by decide)]
          rw [even, half, if_neg Bool.false_ne_true,
            inductionHypothesis (by omega), Nat.add_right_comm, Nat.add_assoc]

/-- Buffers whose size is a power of two have pages of a quarter of their
size. -/
structure Buffers.Paged (buffers : Buffers) (pageBits : Nat) : Prop where
  pageSize : buffers.pageSize = 2 ^ pageBits
  addressPageMask : buffers.addressPageMask = 2 ^ pageBits - 1
  addressPageBitOffset : buffers.addressPageBitOffset = pageBits

theorem Buffers.ofSize_pow (pageBits : Nat) :
    ∃ buffers, Buffers.ofSize (2 ^ (pageBits + 2)) = some buffers ∧
      buffers.Paged pageBits := by
  have enough : pageBits + 2 < 2 ^ (pageBits + 2) + 1 :=
    Nat.lt_succ_of_lt Nat.lt_two_pow_self
  have quarter : ∀ x : Nat, ash x (-2) = x / 4 := fun x => ash_neg x 2
  have four : 2 ^ (pageBits + 2) = 2 ^ pageBits * 4 := Nat.pow_add 2 pageBits 2
  have positive : 0 < 2 ^ pageBits := Nat.two_pow_pos pageBits
  rw [ofSize, bitFromPowerOfTwo, search_pow enough, Option.map_some]
  refine ⟨_, rfl, ?_, ?_, ?_⟩
  · rw [Buffers.pageSize, quarter, four, Nat.mul_div_cancel _ (by decide)]
  · rw [Buffers.addressPageMask, quarter, maskFromPowerOfTwo, four]
    show (2 ^ pageBits * 4 - 1) / 4 = 2 ^ pageBits - 1
    omega
  · rw [Buffers.addressPageBitOffset, Nat.zero_add]
    push_cast
    omega

section Arithmetic

variable {buffers : Buffers} {pageBits : Nat}

theorem Buffers.Paged.mask (paged : buffers.Paged pageBits) (x : Nat) :
    x &&& buffers.addressPageMask = x % 2 ^ pageBits := by
  rw [paged.addressPageMask, Nat.and_two_pow_sub_one_eq_mod]

/-- An object fits if its page has begun and it ends before its end. -/
theorem Buffers.Paged.fitsInPage_iff (paged : buffers.Paged pageBits)
    {address size : Nat} :
    buffers.fitsInPage address size = true ↔
      0 < address % 2 ^ pageBits ∧
        address % 2 ^ pageBits + size < 2 ^ pageBits := by
  have positive : 0 < 2 ^ pageBits := Nat.two_pow_pos pageBits
  have inside := Nat.mod_lt address positive
  rw [fitsInPage, decide_eq_true_iff, paged.mask, Nat.add_mod]
  by_cases small : size < 2 ^ pageBits
  · rw [Nat.mod_eq_of_lt small]
    by_cases ends : address % 2 ^ pageBits + size < 2 ^ pageBits
    · rw [Nat.mod_eq_of_lt ends]
      omega
    · rw [Nat.mod_eq_sub_mod (Nat.le_of_not_lt ends),
        Nat.mod_eq_of_lt (by omega)]
      omega
  · have below := Nat.mod_lt
      (address % 2 ^ pageBits + size % 2 ^ pageBits) positive
    omega

theorem Buffers.Paged.le_numberPages (paged : buffers.Paged pageBits)
    (size : Nat) : size ≤ buffers.numberPages size * buffers.pageSize := by
  have split := Nat.div_add_mod size (2 ^ pageBits)
  have inside := Nat.mod_lt size (Nat.two_pow_pos pageBits)
  rw [numberPages, paged.addressPageBitOffset, ash_neg, paged.mask,
    paged.pageSize, Nat.add_mul, Nat.mul_comm]
  split
  · omega
  · omega

end Arithmetic

/-! ## What the regions keep -/

@[simp]
theorem segmentFreeAddress_self (dood : DoodState Segment) (segment : Segment)
    (address : Nat) :
    (dood.setSegmentFreeAddress segment address).segmentFreeAddress segment =
      address :=
  Function.update_self ..

theorem segmentFreeAddress_of_ne (dood : DoodState Segment)
    {segment other : Segment} (different : other ≠ segment) (address : Nat) :
    (dood.setSegmentFreeAddress segment address).segmentFreeAddress other =
      dood.segmentFreeAddress other :=
  Function.update_of_ne different ..

/-- The regions that have been returned are below the free address and apart,
and every segment's free address is the end of its last region. -/
structure Allocated (page : Nat) (regions : List (Region Segment))
    (dood : DoodState Segment) : Prop where
  aligned : page ∣ dood.freeAddress
  nonempty : ∀ region ∈ regions, 0 < region.size
  below : ∀ region ∈ regions, region.stop ≤ dood.freeAddress
  apart : regions.Pairwise Region.Apart
  uncrossed : ∀ region ∈ regions, region.Uncrossed page
  unshared : Unshared page regions
  behind : ∀ region ∈ regions,
    region.stop ≤ dood.segmentFreeAddress region.owner
  last : ∀ segment, dood.segmentFreeAddress segment = 0 ∨
    ∃ region ∈ regions, region.owner = segment ∧
      region.stop = dood.segmentFreeAddress segment

omit [DecidableEq Segment] in
theorem Allocated.start {page : Nat} {dood : DoodState Segment}
    (aligned : page ∣ dood.freeAddress)
    (unused : ∀ segment, dood.segmentFreeAddress segment = 0) :
    Allocated page [] dood where
  aligned := aligned
  nonempty := by simp
  below := by simp
  apart := List.Pairwise.nil
  uncrossed := by simp
  unshared := by simp [Unshared]
  behind := by simp
  last := fun segment => Or.inl (unused segment)

/-- A region that is apart from the others, below a new free address, and
shares its pages with regions of its own segment only. -/
theorem Allocated.add {page : Nat} {regions : List (Region Segment)}
    {dood : DoodState Segment} (all : Allocated page regions dood)
    {segment : Segment} {address size freeAddress : Nat} (positive : 0 < size)
    (grown : dood.freeAddress ≤ freeAddress) (aligned : page ∣ freeAddress)
    (below : address + size ≤ freeAddress)
    (ahead : dood.segmentFreeAddress segment ≤ address)
    (apart : ∀ region ∈ regions,
      (⟨segment, address, size⟩ : Region Segment).Apart region)
    (uncrossed : (⟨segment, address, size⟩ : Region Segment).Uncrossed page)
    (unshared : ∀ region ∈ regions, ∀ number,
      (⟨segment, address, size⟩ : Region Segment).On page number →
        region.On page number → segment = region.owner) :
    Allocated page (⟨segment, address, size⟩ :: regions)
      (({ dood with freeAddress } : DoodState Segment).setSegmentFreeAddress
        segment (address + size)) where
  aligned := aligned
  nonempty := List.forall_mem_cons.mpr ⟨positive, all.nonempty⟩
  below := by
    intro region member
    rcases List.mem_cons.mp member with rfl | old
    · exact below
    · exact (all.below region old).trans grown
  apart := List.Pairwise.cons apart all.apart
  uncrossed := by
    intro region member
    rcases List.mem_cons.mp member with rfl | old
    · exact uncrossed
    · exact all.uncrossed region old
  unshared := by
    intro first isFirst second isSecond number onFirst onSecond
    rcases List.mem_cons.mp isFirst with rfl | oldFirst
    · rcases List.mem_cons.mp isSecond with rfl | oldSecond
      · rfl
      · exact unshared second oldSecond number onFirst onSecond
    · rcases List.mem_cons.mp isSecond with rfl | oldSecond
      · exact (unshared first oldFirst number onSecond onFirst).symm
      · exact all.unshared first oldFirst second oldSecond number onFirst
          onSecond
  behind := by
    intro region member
    by_cases same : region.owner = segment
    · rw [same, segmentFreeAddress_self]
      rcases List.mem_cons.mp member with rfl | old
      · exact Nat.le_refl _
      · have before := all.behind region old
        rw [same] at before
        exact Nat.le_add_right_of_le (before.trans ahead)
    · rw [segmentFreeAddress_of_ne _ same]
      rcases List.mem_cons.mp member with rfl | old
      · exact absurd rfl same
      · exact all.behind region old
  last := by
    intro other
    by_cases same : other = segment
    · subst same
      right
      refine ⟨_, List.mem_cons_self, rfl, ?_⟩
      rw [segmentFreeAddress_self]
      rfl
    · rw [segmentFreeAddress_of_ne _ same]
      rcases all.last other with unused | ⟨region, member, owner, stop⟩
      · exact Or.inl unused
      · exact Or.inr ⟨region, List.mem_cons_of_mem _ member, owner, stop⟩

/-- New pages at the end of the database. -/
theorem Allocated.pages {page : Nat} {regions : List (Region Segment)}
    {dood : DoodState Segment} (all : Allocated page regions dood)
    (segment : Segment) {size more : Nat} (wide : 0 < page)
    (positive : 0 < size) (multiple : page ∣ more) (enough : size ≤ more) :
    Allocated page (⟨segment, dood.freeAddress, size⟩ :: regions)
      (({ dood with freeAddress := dood.freeAddress + more } :
          DoodState Segment).setSegmentFreeAddress segment
        (dood.freeAddress + size)) := by
  have start : dood.freeAddress % page = 0 := Nat.mod_eq_zero_of_dvd all.aligned
  apply all.add positive
  · exact Nat.le_add_right _ _
  · exact Nat.dvd_add all.aligned multiple
  · exact Nat.add_le_add_left enough _
  · rcases all.last segment with unused | ⟨region, member, owner, stop⟩
    · rw [unused]
      exact Nat.zero_le _
    · rw [← stop]
      exact all.below region member
  · intro region member
    exact Or.inr (all.below region member)
  · intro small
    apply Region.uncrossed_of_room _ small
    rw [start, Nat.zero_add]
    exact small.le
  · intro region member number onNew onOld
    rcases onNew with ⟨a, above, _, rfl⟩
    rcases onOld with ⟨b, _, before, same⟩
    have inside : b < dood.freeAddress :=
      Nat.lt_of_lt_of_le before (all.below region member)
    rcases all.aligned with ⟨count, whole⟩
    rw [whole] at above inside
    have high := (Nat.le_div_iff_mul_le wide).mpr
      (Nat.le_trans (Nat.le_of_eq (Nat.mul_comm count page)) above)
    have low := Nat.div_lt_of_lt_mul inside
    omega

/-- The page after the free address of a segment. -/
theorem Allocated.fits {page : Nat} {regions : List (Region Segment)}
    {dood : DoodState Segment} (all : Allocated page regions dood)
    {segment : Segment} {size : Nat} (positive : 0 < size)
    (begun : 0 < dood.segmentFreeAddress segment % page)
    (room : dood.segmentFreeAddress segment % page + size < page) :
    Allocated page
      (⟨segment, dood.segmentFreeAddress segment, size⟩ :: regions)
      (dood.setSegmentFreeAddress segment
        (dood.segmentFreeAddress segment + size)) := by
  have used : dood.segmentFreeAddress segment ≠ 0 := by
    intro unused
    rw [unused, Nat.zero_mod] at begun
    exact Nat.lt_irrefl 0 begun
  rcases all.last segment with unused | ⟨last, member, owner, stop⟩
  · exact absurd unused used
  have onLast : last.On page (dood.segmentFreeAddress segment / page) := by
    refine ⟨dood.segmentFreeAddress segment - 1, ?_, by omega,
      pred_div_of_mod_pos begun⟩
    have some := all.nonempty last member
    rw [Region.stop] at stop
    omega
  have onNew : ∀ {number},
      (⟨segment, dood.segmentFreeAddress segment, size⟩ :
        Region Segment).On page number →
      number = dood.segmentFreeAddress segment / page :=
    Region.on_eq_of_room room.le
  have unshared : ∀ region ∈ regions, ∀ number,
      (⟨segment, dood.segmentFreeAddress segment, size⟩ :
        Region Segment).On page number →
      region.On page number → segment = region.owner := by
    intro region isRegion number onFirst onSecond
    rw [onNew onFirst] at onSecond
    rw [← owner]
    exact all.unshared last member region isRegion _ onLast onSecond
  apply all.add positive (Nat.le_refl _) all.aligned
  · apply add_le_of_dvd all.aligned _ begun room
    rw [← stop]
    exact all.below last member
  · exact Nat.le_refl _
  · intro region isRegion
    rcases Region.apart_or_meet
        ⟨segment, dood.segmentFreeAddress segment, size⟩ region positive
        (all.nonempty region isRegion) with
      apart | ⟨address, inNew, inOld⟩
    · exact apart
    · have owned := unshared region isRegion _ ⟨address, inNew.1, inNew.2, rfl⟩
        ⟨address, inOld.1, inOld.2, rfl⟩
      right
      have behind := all.behind region isRegion
      rw [← owned] at behind
      exact behind
  · exact Region.uncrossed_of_room room.le
  · exact unshared

/-! ## Runs -/

variable {buffers : Buffers} {pageBits : Nat}

theorem Allocated.allocateIn {regions : List (Region Segment)}
    {dood : DoodState Segment} (paged : buffers.Paged pageBits)
    (all : Allocated (2 ^ pageBits) regions dood) (segment : Segment)
    {size : Nat} (positive : 0 < size) :
    Allocated (2 ^ pageBits)
      (⟨segment, (dood.allocateIn buffers segment size).1, size⟩ :: regions)
      (dood.allocateIn buffers segment size).2 := by
  by_cases going : (dood.segmentInitialized segment &&
      dood.segmentFitsInPage buffers segment size) = true
  · simp only [DoodState.allocateIn, if_pos going]
    rw [Bool.and_eq_true, DoodState.segmentFitsInPage,
      paged.fitsInPage_iff] at going
    exact all.fits positive going.2.1 going.2.2
  · simp only [DoodState.allocateIn, if_neg going]
    apply all.pages segment (Nat.two_pow_pos pageBits) positive
    · rw [paged.pageSize]
      exact Nat.dvd_mul_left ..
    · exact paged.le_numberPages size

theorem Allocated.allocateAll {regions : List (Region Segment)}
    {dood : DoodState Segment} (paged : buffers.Paged pageBits)
    (all : Allocated (2 ^ pageBits) regions dood)
    {requests : List (Segment × Nat)}
    (positive : ∀ request ∈ requests, 0 < request.2) :
    Allocated (2 ^ pageBits)
      ((dood.allocateAll buffers requests).1.reverse ++ regions)
      (dood.allocateAll buffers requests).2 := by
  induction requests generalizing regions dood with
  | nil => exact all
  | cons request requests inductionHypothesis =>
      have step := all.allocateIn paged request.1
        (positive request List.mem_cons_self)
      have rest := inductionHypothesis step
        (fun later member => positive later (List.mem_cons_of_mem _ member))
      rw [DoodState.allocateAll, List.reverse_cons, List.append_assoc]
      exact rest

/-- The regions answer the requests. -/
theorem allocateAll_requests (buffers : Buffers)
    (requests : List (Segment × Nat)) (dood : DoodState Segment) :
    (dood.allocateAll buffers requests).1.map
        (fun region => (region.owner, region.size)) = requests := by
  induction requests generalizing dood with
  | nil => rfl
  | cons request requests inductionHypothesis =>
      rw [DoodState.allocateAll, List.map_cons]
      exact congrArg _ (inductionHypothesis _)

/-- The regions that are allocated are apart and below the free address; a
region smaller than a page is on one page, and no page holds regions of two
segments. -/
theorem allocated_regions {bufferSize : Nat}
    (set : Buffers.ofSize bufferSize = some buffers)
    (power : bufferSize = 2 ^ (pageBits + 2)) {dood : DoodState Segment}
    (aligned : buffers.pageSize ∣ dood.freeAddress)
    (unused : ∀ segment, dood.segmentFreeAddress segment = 0)
    {requests : List (Segment × Nat)}
    (positive : ∀ request ∈ requests, 1 ≤ request.2) :
    let (regions, after) := dood.allocateAll buffers requests
    regions.map (fun region => (region.owner, region.size)) = requests ∧
      regions.Pairwise Region.Apart ∧
      (∀ region ∈ regions, region.stop ≤ after.freeAddress) ∧
      (∀ region ∈ regions, region.Uncrossed buffers.pageSize) ∧
      Unshared buffers.pageSize regions := by
  rcases Buffers.ofSize_pow pageBits with ⟨_, found, paged⟩
  rw [← power, set] at found
  cases found
  rw [paged.pageSize] at aligned ⊢
  have all := (Allocated.start aligned unused).allocateAll paged positive
  rw [List.append_nil] at all
  refine ⟨allocateAll_requests .., ?_, ?_, ?_, ?_⟩
  · apply List.pairwise_reverse.mp
    exact all.apart.imp Region.Apart.symm
  · intro region member
    exact all.below region (List.mem_reverse.mpr member)
  · intro region member
    exact all.uncrossed region (List.mem_reverse.mpr member)
  · intro first isFirst second isSecond
    exact all.unshared first (List.mem_reverse.mpr isFirst) second
      (List.mem_reverse.mpr isSecond)

/-- Two segments that take turns, one of them with an object of two pages. -/
theorem allocated_regions_turns :
    (([(false, 0, 1), (true, 4096, 5000), (false, 1, 4000), (true, 9096, 8),
        (false, 12288, 100)] : List (Bool × Nat × Nat)).map
      fun (owner, address, size) =>
        (⟨owner, address, size⟩ : Region Bool)).Pairwise Region.Apart :=
  (@allocated_regions Bool _ ⟨16384, 16383, 14⟩ 12 defaultBufferSize rfl rfl
    ⟨0, fun _ => 0⟩ (Nat.dvd_zero _) (fun _ => rfl)
    [(false, 1), (true, 5000), (false, 4000), (true, 8), (false, 100)]
    (by decide)).2.1

end OpenDylan.Dood.PageAllocation
