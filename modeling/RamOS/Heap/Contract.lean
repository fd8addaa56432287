import RamOS.Heap.Reachable

/-!
# The contract of `kmalloc`

In a heap in order, `kmalloc` takes the first free block that is large enough for the rounded
request, and writes nothing outside of it. The rounding wraps: the three largest requests come
out as zero, which any free block satisfies. `kmalloc_aligned` asks for `alignment` bytes more
and moves the pointer up inside the block it was given. No call changes a block that another
client holds.
-/

namespace RamOS.Heap

open ByteMemory BlockList

def suitable (memory : Memory) (addresses : List ℕ) (request : ℕ) : Set ℕ :=
  {block | block ∈ addresses ∧ isFree memory block ≠ 0 ∧
    (request + 3) / 4 * 4 ≤ size memory block}

/-- What a caller of `kmalloc` may rely on. -/
structure Served (memory updated : Memory) (addresses : List ℕ) (request pointer : ℕ) : Prop where
  null_iff : pointer = 0 ↔ suitable memory addresses request = ∅
  unchanged : pointer = 0 → updated = memory
  lowest : pointer ≠ 0 → ∃ block, IsLeast (suitable memory addresses request) block ∧
    pointer = block + headerSize ∧ request ≤ size updated block ∧
    ∀ other ∈ addresses, other ≠ block →
      Set.EqOn updated memory (range other (headerSize + size memory other))

variable {region : Region} {state : State} {memory : Memory} {start fuel request : ℕ}
  {block : Block} {blocks left right : List Block} {addresses : List ℕ}

theorem roundUp_eq_zero (wraps : 2 ^ 32 ≤ request + 3) (word : request < 2 ^ 32) :
    Word32.add request 3 &&& Word32.not 3 = 0 := by
  have rounded := @Word32.and_not_low 2 (Word32.add request 3) (by omega) (Word32.add_lt _ _)
  have small : Word32.add request 3 / 2 ^ 2 = 0 := by
    rw [Word32.add]
    omega
  rw [small, Nat.mul_zero] at rounded
  exact rounded

namespace Invariant

variable (invariant : Invariant region state blocks)
include invariant

theorem addresses_eq (walk : blockList state.memory 65536 region.start = some addresses) :
    addresses = (placed headerSize region.start blocks).map Prod.fst :=
  Option.some.inj (walk.symm.trans (invariant.tiles.walk 65536 le_rfl))

theorem mem_suitable_iff {address : ℕ} :
    address ∈ suitable state.memory ((placed headerSize region.start blocks).map Prod.fst) request ↔
      ∃ place ∈ placed headerSize region.start blocks, place.1 = address ∧
        place.2.free = true ∧ (request + 3) / 4 * 4 ≤ place.2.size := by
  simp only [suitable, Set.mem_ofPred_eq, List.mem_map]
  constructor
  · rintro ⟨⟨place, listed, rfl⟩, free, enough⟩
    rw [ne_eq, invariant.isFree_iff listed, Bool.not_eq_false] at free
    rw [invariant.size_eq listed] at enough
    exact ⟨place, listed, rfl, free, enough⟩
  · rintro ⟨place, listed, rfl, free, enough⟩
    refine ⟨⟨place, listed, rfl⟩, ?_, ?_⟩
    · rw [ne_eq, invariant.isFree_iff listed, free]
      decide
    · rwa [invariant.size_eq listed]

theorem exists_free_iff :
    (∃ address ∈ (placed headerSize region.start blocks).map Prod.fst,
      isFree state.memory address ≠ 0) ↔ ∃ block ∈ blocks, block.free = true := by
  constructor
  · rintro ⟨address, listed, free⟩
    rcases List.mem_map.mp listed with ⟨place, placeListed, rfl⟩
    rw [ne_eq, invariant.isFree_iff placeListed, Bool.not_eq_false] at free
    exact ⟨place.2, mem_of_mem_placed placeListed, free⟩
  · rintro ⟨block, listed, free⟩
    rcases exists_mem_placed region.start listed with ⟨address, placeListed⟩
    refine ⟨address, List.mem_map.mpr ⟨_, placeListed, rfl⟩, ?_⟩
    rw [ne_eq, invariant.isFree_iff placeListed, free]
    decide

theorem size_lt {place : ℕ × Block}
    (listed : place ∈ placed headerSize region.start blocks) : place.2.size < heapSize := by
  have bounds := placed_bounds listed
  rw [invariant.covers] at bounds
  simp only [headerSize] at bounds
  omega

omit invariant in
theorem isLeast_suitable (invariant : Invariant region state (left ++ block :: right))
    (unsuited : ∀ earlier ∈ left,
      ¬ (earlier.free = true ∧ (request + 3) / 4 * 4 ≤ earlier.size))
    (free : block.free = true) (enough : (request + 3) / 4 * 4 ≤ block.size) :
    IsLeast (suitable state.memory
        ((placed headerSize region.start (left ++ block :: right)).map Prod.fst) request)
      (region.start + span headerSize left) := by
  constructor
  · exact invariant.mem_suitable_iff.mpr ⟨_, mem_placed_middle left right, rfl, free, enough⟩
  · intro address member
    rcases invariant.mem_suitable_iff.mp member with ⟨place, listed, rfl, isFree, fitting⟩
    rw [placed_append, List.mem_append] at listed
    rcases listed with earlier | later
    · exact absurd ⟨isFree, fitting⟩ (unsuited place.2 (mem_of_mem_placed earlier))
    · exact (placed_bounds later).1

theorem served_of_fits (nonzero : request ≠ 0) (fits : request + 3 < 2 ^ 32) :
    ∃ updated pointer,
      (∀ fuel, 65536 ≤ fuel →
        kmalloc fuel region.start state.memory request = some (updated, pointer)) ∧
      Served state.memory updated ((placed headerSize region.start blocks).map Prod.fst) request
        pointer := by
  cases found : firstFit headerSize 16 ((request + 3) / 4 * 4) region.start blocks with
  | none =>
    have empty : suitable state.memory ((placed headerSize region.start blocks).map Prod.fst)
        request = ∅ := by
      refine Set.eq_empty_of_forall_notMem fun address member => ?_
      rcases invariant.mem_suitable_iff.mp member with ⟨place, listed, _, free, enough⟩
      exact firstFit_eq_none_iff.mp found place.2 (mem_of_mem_placed listed) ⟨free, enough⟩
    refine ⟨state.memory, 0, ?_, ⟨by simp [empty], fun _ => rfl, fun null => absurd rfl null⟩⟩
    intro fuel enoughFuel
    have refined := kmalloc_refines invariant enoughFuel nonzero
    rwa [roundUp_eq fits, found] at refined
  | some pair =>
    have refined := kmalloc_refines invariant (le_refl 65536) nonzero
    rw [roundUp_eq fits, found] at refined
    rcases refined with ⟨updated, taken, run, _, takes⟩
    rcases firstFit_split (found : _ = some (pair.1, pair.2)) with
      ⟨left, block, right, rfl, unsuited, free, enough, place⟩
    have least := invariant.isLeast_suitable unsuited free enough
    have chosen : taken.1 = region.start + span headerSize left := by
      have same := takes.pointer_eq
      omega
    have notNull : pair.1 ≠ 0 := by
      simp only [headerSize] at place
      omega
    refine ⟨updated, pair.1, fun fuel enoughFuel => kmalloc_mono enoughFuel run, ?_, ?_, ?_⟩
    · exact iff_of_false notNull (Set.nonempty_iff_ne_empty.mp ⟨_, least.1⟩)
    · exact fun null => absurd null notNull
    · intro _
      rw [← chosen] at least
      refine ⟨taken.1, least, takes.pointer_eq, ?_, ?_⟩
      · have served := takes.enough
        omega
      · intro other listed distinct
        rcases List.mem_map.mp listed with ⟨place, placeListed, rfl⟩
        rw [invariant.size_eq placeListed]
        exact takes.frame.mono (extents_apart placeListed takes.listed distinct).subset_compl_right

/-- One of the largest requests finds no suitable block, but takes any free one. -/
theorem kmalloc_of_wraps (nonzero : request ≠ 0)
    (wraps : 2 ^ 32 ≤ request + 3) (word : request < 2 ^ 32) :
    suitable state.memory ((placed headerSize region.start blocks).map Prod.fst) request = ∅ ∧
      ((∃ block ∈ blocks, block.free = true) →
        ∃ updated pointer, pointer ≠ 0 ∧
          kmalloc 65536 region.start state.memory request = some (updated, pointer)) ∧
      ((¬ ∃ block ∈ blocks, block.free = true) → ∀ fuel, 65536 ≤ fuel →
        kmalloc fuel region.start state.memory request = some (state.memory, 0)) := by
  refine ⟨?_, ?_, ?_⟩
  · refine Set.eq_empty_of_forall_notMem fun address member => ?_
    rcases invariant.mem_suitable_iff.mp member with ⟨place, listed, _, _, enough⟩
    have small := invariant.size_lt listed
    simp only [heapSize] at small
    omega
  · rintro ⟨block, listed, free⟩
    have refined := kmalloc_refines invariant (le_refl 65536) nonzero
    rw [roundUp_eq_zero wraps word] at refined
    cases found : firstFit headerSize 16 0 region.start blocks with
    | none => exact absurd ⟨free, Nat.zero_le _⟩ (firstFit_eq_none_iff.mp found block listed)
    | some pair =>
      rw [found] at refined
      rcases refined with ⟨updated, _, run, _, takes⟩
      have place := takes.pointer_eq
      simp only [headerSize] at place
      exact ⟨updated, pair.1, by omega, run⟩
  · intro allUsed fuel enoughFuel
    have refined := kmalloc_refines invariant enoughFuel nonzero
    have failed : firstFit headerSize 16 0 region.start blocks = none :=
      firstFit_eq_none_iff.mpr fun block listed taken => allUsed ⟨block, listed, taken.1⟩
    rwa [roundUp_eq_zero wraps word, failed] at refined

end Invariant

/-- In every reachable heap, `kmalloc` keeps its contract exactly if rounding the size does not
wrap around, or no block is free. -/
theorem kmalloc_served_iff (reachable : Reachable region state)
    (walk : blockList state.memory 65536 region.start = some addresses) (positive : 1 ≤ request)
    (word : request < 2 ^ 32) :
    (∃ updated pointer,
      (∀ fuel, 65536 ≤ fuel →
        kmalloc fuel region.start state.memory request = some (updated, pointer)) ∧
      Served state.memory updated addresses request pointer) ↔
    request + 3 < 2 ^ 32 ∨ ∀ block ∈ addresses, isFree state.memory block = 0 := by
  rcases reachable.invariant with ⟨blocks, invariant⟩
  rw [invariant.addresses_eq walk]
  have nonzero : request ≠ 0 := by omega
  by_cases fits : request + 3 < 2 ^ 32
  · exact iff_of_true (invariant.served_of_fits nonzero fits) (Or.inl fits)
  · rcases invariant.kmalloc_of_wraps nonzero (by omega) word with ⟨empty, taken, failed⟩
    constructor
    · rintro ⟨updated, pointer, run, served⟩
      refine Or.inr fun address listed => ?_
      by_contra free
      rcases taken (invariant.exists_free_iff.mp ⟨address, listed, free⟩) with
        ⟨_, other, notNull, same⟩
      rw [run 65536 le_rfl, Option.some.injEq, Prod.mk.injEq] at same
      exact notNull (same.2.symm.trans (served.null_iff.mpr empty))
    · rintro (small | allUsed)
      · exact absurd small fits
      · have noneFree : ¬ ∃ block ∈ blocks, block.free = true := by
          rw [← invariant.exists_free_iff]
          rintro ⟨address, listed, free⟩
          exact free (allUsed address listed)
        exact ⟨state.memory, 0, failed noneFree,
          ⟨by simp [empty], fun _ => rfl, fun null => absurd rfl null⟩⟩

def sampleRegion : Region where
  start := 0x300000
  start_pos := by decide
  fits := by decide

def freshHeap : State where
  memory := heapInit sampleRegion fun _ => 0
  live := ∅

theorem freshHeap_walk :
    blockList freshHeap.memory 65536 sampleRegion.start = some [0x300000] :=
  (invariant_heapInit sampleRegion fun _ => 0).tiles.walk 65536 le_rfl

theorem kmalloc_served_freshHeap :
    ∃ updated pointer,
      (∀ fuel, 65536 ≤ fuel →
        kmalloc fuel sampleRegion.start freshHeap.memory 100 = some (updated, pointer)) ∧
      Served freshHeap.memory updated [0x300000] 100 pointer :=
  (kmalloc_served_iff ⟨fun _ => 0, .refl⟩ freshHeap_walk (by decide) (by decide)).mpr
    (Or.inl (by decide))

/-- A request of four gigabytes less one byte is granted, with a block of size zero. -/
theorem kmalloc_grants_largest_request :
    suitable freshHeap.memory [0x300000] 0xFFFFFFFF = ∅ ∧
      ∃ updated, kmalloc 65536 sampleRegion.start freshHeap.memory 0xFFFFFFFF =
          some (updated, 0x300010) ∧ size updated 0x300000 = 0 := by
  refine ⟨?_, takeBlock freshHeap.memory 0x300000 0, rfl, by decide⟩
  refine Set.eq_empty_of_forall_notMem fun address member => ?_
  rcases member with ⟨_, _, enough⟩
  have small := read32_lt freshHeap.memory (address + 4)
  rw [size] at enough
  omega

/-- What `kmalloc_aligned` hands out, in the block with its header at `block`. The headers are
`addresses` before the call and `later` after it. -/
structure AlignedIn (before after : State) (addresses later : List ℕ)
    (request alignment pointer block : ℕ) : Prop where
  aligned : alignment ∣ pointer
  wasFree : block ∈ addresses ∧ isFree before.memory block ≠ 0
  isUsed : block ∈ later ∧ isFree after.memory block = 0
  inside : range pointer request ⊆ range (block + headerSize) (size after.memory block)
  live_apart : ∀ other ∈ before.live,
    Disjoint (range pointer request) (range other (size after.memory (other - headerSize)))
  headers_apart : ∀ header ∈ later,
    Disjoint (range header headerSize) (range pointer request)

theorem kmallocAligned_pointer {updated : Memory} {exponent pointer : ℕ}
    (fits : request + 2 ^ exponent < 2 ^ 32) (room : pointer + 2 ^ exponent < 2 ^ 32)
    (notNull : pointer ≠ 0) :
    ∃ aligned, 2 ^ exponent ∣ aligned ∧ pointer ≤ aligned ∧ aligned < pointer + 2 ^ exponent ∧
      ∀ fuel, kmalloc fuel start memory (request + 2 ^ exponent) = some (updated, pointer) →
        kmallocAligned fuel start memory request (2 ^ exponent) = some (updated, aligned) := by
  rcases Word32.alignUp_spec room with ⟨aligned, value, dvd, lower, upper⟩
  refine ⟨aligned, dvd, lower, upper, fun fuel run => ?_⟩
  rw [kmallocAligned, Word32.add_eq fits, run]
  simp only [if_neg notNull, value]

theorem Tiles.alignedIn {updated : Memory} {later : List ℕ} {alignment pointer block : ℕ}
    (before : Tiles region state addresses)
    (after : Tiles region ⟨updated, insert (block + headerSize) state.live⟩ later)
    (wasFree : block ∈ addresses ∧ isFree state.memory block ≠ 0) (aligned : alignment ∣ pointer)
    (lower : block + headerSize ≤ pointer)
    (upper : pointer + request ≤ block + headerSize + size updated block) :
    AlignedIn state ⟨updated, insert (block + headerSize) state.live⟩ addresses later request
      alignment pointer block := by
  have held : block + headerSize ∈ insert (block + headerSize) state.live := Set.mem_insert _ _
  have inside : range pointer request ⊆ range (block + headerSize) (size updated block) :=
    range_subset_range lower upper
  refine ⟨aligned, wasFree, ?_, inside, ?_, ?_⟩
  · rcases (after.live_iff _).mp held with ⟨owner, listed, used, same⟩
    rw [Nat.add_right_cancel same]
    exact ⟨listed, used⟩
  · intro other live
    have distinct : block + headerSize ≠ other := by
      rintro rfl
      rcases (before.live_iff _).mp live with ⟨owner, _, used, same⟩
      rw [Nat.add_right_cancel same] at wasFree
      exact wasFree.2 used
    have apart := after.payloads_apart _ held _ (Set.mem_insert_of_mem _ live) distinct
    rw [Nat.add_sub_cancel] at apart
    exact apart.mono_left inside
  · intro header listed
    have apart := after.header_payload_apart header listed _ held
    rw [Nat.add_sub_cancel] at apart
    exact apart.mono_right inside

/-- In every reachable heap, `kmalloc_aligned` changes nothing, or hands out aligned bytes of a
block that was free before and is in use now. -/
theorem kmallocAligned_alignedIn (reachable : Reachable region state) {exponent : ℕ}
    (fits : request + 2 ^ exponent + 3 < 2 ^ 32) :
    ∃ updated pointer,
      (∀ fuel, 65536 ≤ fuel →
        kmallocAligned fuel region.start state.memory request (2 ^ exponent) =
          some (updated, pointer)) ∧
      (pointer = 0 → updated = state.memory) ∧
      (pointer ≠ 0 → ∃ addresses later block,
        Tiles region state addresses ∧
        Tiles region ⟨updated, insert (block + headerSize) state.live⟩ later ∧
        AlignedIn state ⟨updated, insert (block + headerSize) state.live⟩ addresses later request
          (2 ^ exponent) pointer block) := by
  rcases reachable.invariant with ⟨blocks, invariant⟩
  have power : 0 < 2 ^ exponent := Nat.two_pow_pos exponent
  rcases @Invariant.served_of_fits region state (request + 2 ^ exponent) blocks invariant (by omega)
    fits with ⟨updated, place, run, served⟩
  by_cases null : place = 0
  · refine ⟨updated, 0, fun fuel enough => ?_, fun _ => served.unchanged null, fun no => ?_⟩
    · rw [kmallocAligned, Word32.add_eq (by omega), run fuel enough]
      simp only [if_pos null]
    · exact absurd rfl no
  · rcases served.lowest null with ⟨block, least, rfl, enough, _⟩
    rcases kmalloc_invariant invariant (run 65536 le_rfl) with ⟨result, preserved⟩
    rw [if_neg null] at preserved
    have later := preserved.tiles
    rcases (later.live_iff _).mp (Set.mem_insert _ _) with ⟨owner, listed, _, same⟩
    obtain rfl : block = owner := Nat.add_right_cancel same
    have extent : range block (headerSize + size updated block) ⊆ range region.start heapSize :=
      later.inside block listed
    have last : block + headerSize + size updated block - 1 ∈ range region.start heapSize := by
      apply extent
      rw [mem_range]
      omega
    have ends := region.fits
    rw [mem_range] at last
    rcases @kmallocAligned_pointer state.memory region.start request updated exponent
      (block + headerSize) (by omega) (by omega) null with ⟨aligned, dvd, lower, upper, moved⟩
    refine ⟨updated, aligned, fun fuel enough => moved fuel (run fuel enough), ?_, fun _ => ?_⟩
    · intro isNull
      omega
    · exact ⟨_, _, block, invariant.tiles, later, invariant.tiles.alignedIn later
        ⟨least.1.1, least.1.2.1⟩ dvd lower (by omega)⟩

/-- A page for a page table, in a heap that was not used before. -/
theorem kmallocAligned_alignedIn_freshHeap :
    ∃ updated, kmallocAligned 65536 sampleRegion.start freshHeap.memory 4096 4096 =
        some (updated, 0x301000) ∧
      ∃ addresses later block, AlignedIn freshHeap
        ⟨updated, insert (block + headerSize) freshHeap.live⟩ addresses later 4096 4096 0x301000
        block := by
  have reachable : Reachable sampleRegion freshHeap := ⟨fun _ => 0, .refl⟩
  rcases @kmallocAligned_alignedIn _ _ 4096 reachable 12 (by decide) with
    ⟨updated, pointer, run, _, handed⟩
  have place : some pointer = some 0x301000 := congrArg (Option.map Prod.snd)
    ((run 65536 le_rfl).symm : _ = kmallocAligned 65536 sampleRegion.start freshHeap.memory 4096
      4096)
  obtain rfl : pointer = 0x301000 := Option.some.inj place
  rcases handed (by decide) with ⟨addresses, later, block, _, _, inBlock⟩
  exact ⟨updated, run 65536 le_rfl, addresses, later, block, inBlock⟩

section Owners

variable {after : State} {updated : Memory} {blocks : List Block} {pointer mine : ℕ} {live : Set ℕ}

theorem kmalloc_eqOn (invariant : Invariant region state blocks)
    (run : kmalloc fuel region.start state.memory request = some (updated, pointer)) :
    Set.EqOn updated state.memory (managed region.start blocks)ᶜ := by
  by_cases zero : request = 0
  · rw [kmalloc, if_pos zero] at run
    cases run
    exact Set.eqOn_refl _ _
  · have enough := kmalloc_mono (Nat.le_add_right fuel 65536) run
    have refined := kmalloc_refines invariant (Nat.le_add_left 65536 fuel) zero
    split at refined
    · cases enough.symm.trans refined
      exact Set.eqOn_refl _ _
    · rcases refined with ⟨_, _, same, _, takes⟩
      cases enough.symm.trans same
      exact takes.eqOn_managed

/-- The block of one client, seen by the others: it is not among theirs, and it is as it was at
the start. -/
structure Spared (region : Region) (mine bytes : ℕ) (start : Memory) (state : State) : Prop where
  ordered : ∃ blocks, Invariant region ⟨state.memory, insert mine state.live⟩ blocks
  notTheirs : mine ∉ state.live
  isSize : size state.memory (mine - headerSize) = bytes
  same : Set.EqOn state.memory start (range mine bytes)

/-- Changes inside a block of another client, which may have been freed. -/
theorem Spared.of_eqOn {bytes : ℕ} {start : Memory} (spared : Spared region mine bytes start state)
    (theirs : pointer ∈ state.live) (fewer : live ⊆ state.live)
    (ordered : ∃ blocks, Invariant region ⟨updated, insert mine live⟩ blocks)
    (elsewhere : Set.EqOn updated state.memory (range (pointer - headerSize)
      (headerSize + size state.memory (pointer - headerSize)))ᶜ) :
    Spared region mine bytes start ⟨updated, live⟩ := by
  rcases spared with ⟨⟨blocks, invariant⟩, notTheirs, isSize, same⟩
  rcases invariant.mem_live_iff.mp (Set.mem_insert mine _) with ⟨place, placed, -, rfl⟩
  rcases invariant.mem_live_iff.mp (Set.mem_insert_of_mem _ theirs) with ⟨other, listed, -, rfl⟩
  have distinct : place.1 ≠ other.1 := fun equal => notTheirs (equal ▸ theirs)
  have apart := Invariant.extents_apart placed listed distinct
  simp only [Nat.add_sub_cancel, invariant.size_eq placed, invariant.size_eq listed] at *
  subst isSize
  have kept := elsewhere.mono (Set.subset_compl_iff_disjoint_right.mpr apart)
  refine ⟨ordered, fun listed => notTheirs (fewer listed), ?_, ?_⟩
  · rw [Nat.add_sub_cancel, ← invariant.size_eq placed]
    refine read32_congr (kept.mono (range_subset_range (by omega) ?_))
    simp only [headerSize]
    omega
  · exact (kept.mono Invariant.payload_subset_extent).trans same

theorem Spared.step {bytes : ℕ} {start : Memory} (spared : Spared region mine bytes start state)
    (step : Step region state after) : Spared region mine bytes start after := by
  rcases id spared with ⟨⟨blocks, invariant⟩, notTheirs, rfl, same⟩
  have held := Set.mem_insert mine state.live
  rcases invariant.mem_live_iff.mp held with ⟨place, placed, used, isMine⟩
  cases step with
  | malloc word run =>
    have owned : range mine (size _ (mine - headerSize)) ⊆ (managed region.start blocks)ᶜ :=
      fun address inside unowned => unowned.2 (mem_livePayload_of_size invariant.represented
        (invariant.live_eq.subset held) inside)
    have frame := (kmalloc_eqOn invariant run).mono owned
    rcases kmalloc_cases invariant run with ⟨null, rfl⟩ | ⟨notNull, _, result, found, kept⟩
    · rw [if_pos null]
      exact ⟨⟨blocks, invariant⟩, notTheirs, rfl, same⟩
    · have fresh := (livePointers_firstFit (by decide) found).1
      have before := invariant.size_eq placed
      have later := kept.size_eq (mem_placed_firstFit used placed found)
      rw [show place.1 = mine - headerSize by omega] at before later
      rw [← invariant.live_eq] at fresh
      rw [if_neg notNull]
      refine ⟨⟨result, Set.insert_comm mine _ _ ▸ kept⟩, ?_, later.trans before.symm,
        frame.trans same⟩
      rintro (rfl | theirs)
      · exact fresh held
      · exact notTheirs theirs
  | @free memory live pointer freed =>
    have other : mine ≠ pointer := by
      rintro rfl
      rcases freed with null | theirs
      · simp only [headerSize] at isMine
        omega
      · exact notTheirs theirs
    have ordered : ∃ blocks, Invariant region ⟨kfree memory pointer, insert mine live \ {pointer}⟩
        blocks := kfree_invariant invariant (freed.imp_right (Set.mem_insert_of_mem mine))
    rw [← Set.insert_sdiff_singleton_comm other] at ordered
    rcases freed with rfl | theirs
    · exact ⟨ordered, fun listed => notTheirs listed.1, rfl, same⟩
    · have bounds := livePointers_bounds
        (invariant.live_eq.subset (Set.mem_insert_of_mem mine theirs))
      have fits := invariant.fits
      refine spared.of_eqOn theirs Set.sdiff_subset ordered
        ((kfree_eqOn memory (by omega) (by omega)).mono (Set.compl_subset_compl.mpr ?_))
      exact range_subset_range le_rfl (by omega)
  | @write memory live pointer address value theirs inside =>
    refine spared.of_eqOn theirs subset_rfl
      ⟨blocks, write_invariant invariant (Set.mem_insert_of_mem mine theirs) inside⟩ ?_
    intro location outside
    refine write8_apply_of_ne ?_
    rintro rfl
    rw [mem_range] at inside
    rw [mem_compl_range] at outside
    dsimp only at outside
    omega

/-- What a client holds is left to it: whatever the others allocate, free and write, the block is
not handed out again, keeps its size and keeps what is stored in it. -/
theorem held_block_untouched (reachable : Reachable region state) (held : mine ∈ state.live)
    (others : Relation.ReflTransGen (Step region) ⟨state.memory, state.live \ {mine}⟩ after) :
    let bytes := size state.memory (mine - headerSize)
    mine ∉ after.live ∧ size after.memory (mine - headerSize) = bytes ∧
      Set.EqOn after.memory state.memory (range mine bytes) ∧
      ∃ addresses, Tiles region ⟨after.memory, insert mine after.live⟩ addresses := by
  intro bytes
  rcases reachable.invariant with ⟨blocks, invariant⟩
  have run : Spared region mine bytes state.memory after := by
    induction others with
    | refl =>
      refine ⟨⟨blocks, ?_⟩, fun theirs => theirs.2 rfl, rfl, Set.eqOn_refl _ _⟩
      rwa [Set.insert_sdiff_singleton, Set.insert_eq_of_mem held]
    | tail _ step ih => exact ih.step step
  rcases run.ordered with ⟨_, ordered⟩
  exact ⟨run.notTheirs, run.isSize, run.same, _, ordered.tiles⟩

/-- One client holds ten bytes while another one allocates and frees twenty. -/
theorem held_block_untouched_freshHeap :
    ∃ memory updated, kmalloc 1 sampleRegion.start freshHeap.memory 10 = some (memory, 0x300010) ∧
      kmalloc 2 sampleRegion.start memory 20 = some (updated, 0x30002C) ∧
      Set.EqOn (kfree updated 0x30002C) memory (range 0x300010 (size memory 0x300000)) := by
  obtain ⟨memory, updated, first, second⟩ : ∃ memory updated,
      kmalloc 1 sampleRegion.start freshHeap.memory 10 = some (memory, 0x300010) ∧
        kmalloc 2 sampleRegion.start memory 20 = some (updated, 0x30002C) := ⟨_, _, rfl, rfl⟩
  have others := Relation.ReflTransGen.tail
    (.single (@Step.malloc sampleRegion _ _ ∅ _ _ _ (by decide) second))
    (@Step.free sampleRegion _ _ 0x30002C (Or.inr (Set.mem_insert _ _)))
  have untouched := @held_block_untouched sampleRegion ⟨memory, insert 0x300010 ∅⟩ _ 0x300010
    ⟨fun _ => 0, .single (.malloc (by decide) first)⟩ (Set.mem_insert _ _) (by simpa using others)
  exact ⟨memory, updated, first, second, untouched.2.2.1⟩

end Owners

end RamOS.Heap
