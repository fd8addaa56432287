import RamOS.Heap.Refinement

/-!
# Reachable heaps

A heap is used by clients that allocate, free what they were given, and write into blocks they
hold. In every state that they can reach from `heap_init`, memory represents a block list which
covers the region exactly, has sizes that are multiples of four, and whose blocks in use are the
pointers that clients hold.
-/

namespace RamOS.Heap

open ByteMemory BlockList

structure State where
  memory : Memory
  live : Set ℕ

/-- One action of a client, with any fuel for the search of `kmalloc`. -/
inductive Step (region : Region) : State → State → Prop
  | malloc {memory updated : Memory} {live : Set ℕ} {fuel request pointer : ℕ}
      (word : request < 2 ^ 32)
      (run : kmalloc fuel region.start memory request = some (updated, pointer)) :
      Step region ⟨memory, live⟩ ⟨updated, if pointer = 0 then live else insert pointer live⟩
  | free {memory : Memory} {live : Set ℕ} {pointer : ℕ}
      (held : pointer = 0 ∨ pointer ∈ live) :
      Step region ⟨memory, live⟩ ⟨kfree memory pointer, live \ {pointer}⟩
  | write {memory : Memory} {live : Set ℕ} {pointer address : ℕ} {value : UInt8}
      (held : pointer ∈ live)
      (inside : address ∈ range pointer (size memory (pointer - headerSize))) :
      Step region ⟨memory, live⟩ ⟨write8 memory address value, live⟩

def Reachable (region : Region) (state : State) : Prop :=
  ∃ memory, Relation.ReflTransGen (Step region) ⟨heapInit region memory, ∅⟩ state

structure Invariant (region : Region) (state : State) (blocks : List Block) : Prop where
  represented : Represents state.memory region.start blocks
  covers : span headerSize blocks = heapSize
  grain : ∀ block ∈ blocks, 4 ∣ block.size
  live_eq : state.live = livePointers headerSize region.start blocks

variable {region : Region} {state after : State} {blocks : List Block} {memory updated : Memory}
  {fuel request pointer : ℕ}

namespace Invariant

variable (invariant : Invariant region state blocks)
include invariant

theorem fits : region.start + span headerSize blocks < 2 ^ 32 := by
  rw [invariant.covers]
  exact region.fits

theorem small : span headerSize blocks ≤ heapSize := invariant.covers.le

theorem entry_eq : entry region.start blocks = region.start := by
  cases blocks with
  | nil =>
    have covers := invariant.covers
    simp [span, heapSize] at covers
  | cons block blocks => exact entry_cons

theorem length_le : blocks.length ≤ 65536 := by
  have bound (list : List Block) : 16 * list.length ≤ span headerSize list := by
    induction list with
    | nil => simp
    | cons block list ih =>
      simp only [List.length_cons, span, headerSize] at ih ⊢
      omega
  have covered := bound blocks
  rw [invariant.covers, heapSize] at covered
  omega

end Invariant

theorem kmallocLoop_mono {current more : ℕ} {outcome : Memory × ℕ} (le : fuel ≤ more)
    (run : kmallocLoop memory request fuel current = some outcome) :
    kmallocLoop memory request more current = some outcome := by
  induction fuel generalizing current more with
  | zero =>
    simp only [kmallocLoop] at run
    by_cases null : current = 0
    · cases more <;> simpa [kmallocLoop, null] using run
    · simp [null] at run
  | succ fuel ih =>
    rcases more with _ | more
    · omega
    by_cases null : current = 0
    · simpa only [kmallocLoop, if_pos null] using run
    by_cases corrupt : magic memory current ≠ heapMagic
    · simpa only [kmallocLoop, if_neg null, if_pos corrupt] using run
    by_cases suitable : isFree memory current ≠ 0 ∧ size memory current ≥ request
    · simpa only [kmallocLoop, if_neg null, if_neg corrupt, if_pos suitable] using run
    · simp only [kmallocLoop, if_neg null, if_neg corrupt, if_neg suitable] at run ⊢
      exact ih (by omega) run

theorem roundUp_dvd (request : ℕ) : 4 ∣ Word32.add request 3 &&& Word32.not 3 := by
  have rounded := @Word32.and_not_low 2 (Word32.add request 3) (by omega) (Word32.add_lt _ _)
  exact ⟨_, rounded⟩

theorem roundUp_eq (fits : request + 3 < 2 ^ 32) :
    Word32.add request 3 &&& Word32.not 3 = (request + 3) / 4 * 4 := by
  have rounded := @Word32.and_not_low 2 (Word32.add request 3) (by omega) (Word32.add_lt _ _)
  rw [Word32.add_eq fits] at rounded ⊢
  rw [Nat.mul_comm]
  exact rounded

theorem kmalloc_mono {more : ℕ} {outcome : Memory × ℕ} (le : fuel ≤ more)
    (run : kmalloc fuel region.start memory request = some outcome) :
    kmalloc more region.start memory request = some outcome := by
  by_cases zero : request = 0
  · simpa only [kmalloc, if_pos zero] using run
  · simp only [kmalloc, if_neg zero] at run ⊢
    exact kmallocLoop_mono le run

theorem invariant_heapInit (region : Region) (memory : Memory) :
    Invariant region ⟨heapInit region memory, ∅⟩ [⟨heapSize - headerSize, true⟩] := by
  refine ⟨⟨?_, trivial⟩, by decide, by decide, ?_⟩
  · exact headerAt_putFreeBlock (by decide) (by decide)
  · refine Set.ext fun candidate => ?_
    rw [mem_livePointers_cons]
    simp [livePointers]

theorem mem_livePayload_of_size {start address : ℕ} (represented : Represents memory start blocks)
    (member : pointer ∈ livePointers headerSize start blocks)
    (inside : address ∈ range pointer (size memory (pointer - headerSize))) :
    address ∈ livePayload headerSize start blocks := by
  induction blocks generalizing start with
  | nil => exact absurd member (Set.notMem_empty pointer)
  | cons block blocks ih =>
    rw [mem_livePointers_cons] at member
    rw [mem_livePayload_cons]
    rcases member with ⟨used, rfl⟩ | later
    · rw [Nat.add_sub_cancel, represented.1.size_eq] at inside
      exact Or.inl ⟨used, inside⟩
    · exact Or.inr (ih represented.2 later)

section Calls

variable (invariant : Invariant region state blocks)
include invariant

theorem kmalloc_refines (enoughFuel : 65536 ≤ fuel) (nonzero : request ≠ 0) :
    match firstFit headerSize 16 (Word32.add request 3 &&& Word32.not 3) region.start blocks with
    | none => kmalloc fuel region.start state.memory request = some (state.memory, 0)
    | some (pointer, result) =>
      ∃ updated place, kmalloc fuel region.start state.memory request = some (updated, pointer) ∧
        Invariant region ⟨updated, insert pointer state.live⟩ result ∧
        Takes state.memory updated region.start (Word32.add request 3 &&& Word32.not 3) pointer
          blocks place := by
  have loop := @kmallocLoop_refines state.memory region.start
    (Word32.add request 3 &&& Word32.not 3) fuel blocks invariant.represented region.start_pos
    invariant.fits invariant.small (invariant.length_le.trans enoughFuel)
  rw [invariant.entry_eq] at loop
  simp only [kmalloc, if_neg nonzero]
  cases found : firstFit headerSize 16 (Word32.add request 3 &&& Word32.not 3) region.start
      blocks with
  | none => simpa only [found] using loop
  | some pair =>
    rcases pair with ⟨pointer, result⟩
    rw [found] at loop
    rcases loop with ⟨updated, place, run, represented, takes⟩
    refine ⟨updated, place, run, ⟨represented, ?_, ?_, ?_⟩, takes⟩
    · rw [span_firstFit found, invariant.covers]
    · exact dvd_size_firstFit (by decide) (roundUp_dvd request) invariant.grain found
    · rw [(livePointers_firstFit (by decide) found).2, invariant.live_eq]

theorem kmalloc_cases
    (run : kmalloc fuel region.start state.memory request = some (updated, pointer)) :
    pointer = 0 ∧ updated = state.memory ∨
      pointer ≠ 0 ∧ ∃ rounded result,
        firstFit headerSize 16 rounded region.start blocks = some (pointer, result) ∧
        Invariant region ⟨updated, insert pointer state.live⟩ result := by
  by_cases zero : request = 0
  · simp only [kmalloc, if_pos zero, Option.some.injEq, Prod.mk.injEq] at run
    exact Or.inl ⟨run.2.symm, run.1.symm⟩
  · have enough := kmalloc_mono (Nat.le_add_right fuel 65536) run
    have refined := kmalloc_refines invariant (Nat.le_add_left 65536 fuel) zero
    cases found : firstFit headerSize 16 (Word32.add request 3 &&& Word32.not 3) region.start
        blocks with
    | none =>
      rw [found] at refined
      rw [enough, Option.some.injEq, Prod.mk.injEq] at refined
      exact Or.inl ⟨refined.2, refined.1⟩
    | some pair =>
      rcases pair with ⟨place, result⟩
      rw [found] at refined
      rcases refined with ⟨memory, _, same, preserved, takes⟩
      rw [enough, Option.some.injEq, Prod.mk.injEq] at same
      rcases same with ⟨rfl, rfl⟩
      have notNull : pointer ≠ 0 := by
        simp [takes.pointer_eq, headerSize]
      exact Or.inr ⟨notNull, _, result, found, preserved⟩

theorem kmalloc_invariant
    (run : kmalloc fuel region.start state.memory request = some (updated, pointer)) :
    ∃ result, Invariant region
      ⟨updated, if pointer = 0 then state.live else insert pointer state.live⟩ result := by
  rcases kmalloc_cases invariant run with ⟨null, same⟩ | ⟨notNull, _, result, _, preserved⟩
  · rw [if_pos null, same]
    exact ⟨blocks, invariant⟩
  · rw [if_neg notNull]
    exact ⟨result, preserved⟩

theorem kfree_releases (held : pointer ∈ state.live) :
    Invariant region ⟨kfree state.memory pointer, state.live \ {pointer}⟩
      (release headerSize pointer region.start blocks) := by
  have member : pointer ∈ livePointers headerSize region.start blocks := by
    rwa [← invariant.live_eq]
  have refined := kfree_refines invariant.represented region.start_pos invariant.fits member
  refine ⟨refined.1, ?_, dvd_size_release (by decide) invariant.grain, ?_⟩
  · rw [span_release, invariant.covers]
  · rw [livePointers_release (by decide) member, invariant.live_eq]

theorem kfree_invariant (held : pointer = 0 ∨ pointer ∈ state.live) :
    ∃ result, Invariant region ⟨kfree state.memory pointer, state.live \ {pointer}⟩ result := by
  by_cases null : pointer = 0
  · have absent : pointer ∉ state.live := by
      rw [invariant.live_eq]
      intro member
      have bounds := livePointers_bounds member
      simp only [headerSize] at bounds
      omega
    refine ⟨blocks, ?_⟩
    rw [Set.sdiff_singleton_eq_self absent, kfree, if_pos null]
    exact invariant
  · exact ⟨_, kfree_releases invariant (held.resolve_left null)⟩

theorem write_invariant {address : ℕ} {value : UInt8} (held : pointer ∈ state.live)
    (inside : address ∈ range pointer (size state.memory (pointer - headerSize))) :
    Invariant region ⟨write8 state.memory address value, state.live⟩ blocks := by
  rw [invariant.live_eq] at held
  have owned := mem_livePayload_of_size invariant.represented held inside
  refine ⟨invariant.represented.congr_of_managed ?_, invariant.covers, invariant.grain,
    invariant.live_eq⟩
  intro location unowned
  apply write8_apply_of_ne
  rintro rfl
  exact unowned.2 owned

end Calls

theorem Step.invariant (step : Step region state after)
    (invariant : Invariant region state blocks) :
    ∃ result, Invariant region after result := by
  cases step with
  | malloc word run => exact kmalloc_invariant invariant run
  | free held => exact kfree_invariant invariant held
  | write held inside => exact ⟨blocks, write_invariant invariant held inside⟩

theorem Reachable.invariant (reachable : Reachable region state) :
    ∃ blocks, Invariant region state blocks := by
  rcases reachable with ⟨memory, run⟩
  induction run with
  | refl => exact ⟨_, invariant_heapInit region memory⟩
  | tail _ step ih =>
    rcases ih with ⟨blocks, invariant⟩
    exact step.invariant invariant

theorem blockList_eq {start : ℕ} (represented : Represents memory start blocks)
    (positive : 0 < start) (enoughFuel : blocks.length ≤ fuel) :
    blockList memory fuel (entry start blocks) =
      some ((placed headerSize start blocks).map Prod.fst) := by
  induction blocks generalizing start fuel with
  | nil => cases fuel <;> simp [blockList, placed]
  | cons block blocks ih =>
    rcases fuel with _ | fuel
    · simp at enoughFuel
    have step := @ih fuel (start + headerSize + block.size) represented.2 (by omega)
      (by simpa using enoughFuel)
    rw [entry_cons, blockList, if_neg (by omega), represented.1.next_eq, step]
    rfl

theorem Represents.headerAt {start : ℕ} {place : ℕ × Block}
    (represented : Represents memory start blocks)
    (member : place ∈ placed headerSize start blocks) :
    HeaderAt memory place.1 place.2 (place.1 + headerSize + place.2.size) ∨
      HeaderAt memory place.1 place.2 0 ∧
        place.1 + headerSize + place.2.size = start + span headerSize blocks := by
  induction blocks generalizing start with
  | nil => simp [placed] at member
  | cons block blocks ih =>
    simp only [placed, List.mem_cons] at member
    rcases member with rfl | later
    · have header := represented.1
      cases blocks with
      | nil => exact Or.inr ⟨header, by simp only [span]; omega⟩
      | cons following blocks =>
        rw [entry_cons] at header
        exact Or.inl header
    · rcases ih represented.2 later with linked | ⟨final, ends⟩
      · exact Or.inl linked
      · exact Or.inr ⟨final, by simp only [span]; omega⟩

theorem countP_placed_eq {start : ℕ} (represented : Represents memory start blocks) :
    ((placed headerSize start blocks).map Prod.fst).countP (fun block => isFree memory block ≠ 0) =
      blocks.countP (·.free) := by
  induction blocks generalizing start with
  | nil => rfl
  | cons block blocks ih =>
    simp only [placed, List.map_cons, List.countP_cons, ih represented.2,
      decide_eq_true_eq, represented.1.free_iff]

/-- The block list found in memory is a tiling of the heap. `addresses` are the headers in order.
-/
structure Tiles (region : Region) (state : State) (addresses : List ℕ) : Prop where
  walk : ∀ fuel, 65536 ≤ fuel → blockList state.memory fuel region.start = some addresses
  first : addresses.head? = some region.start
  magic_eq : ∀ block ∈ addresses, magic state.memory block = heapMagic
  next_eq : ∀ block ∈ addresses,
    next state.memory block = block + headerSize + size state.memory block ∨
      next state.memory block = 0 ∧
        block + headerSize + size state.memory block = region.start + heapSize
  size_dvd : ∀ block ∈ addresses, 4 ∣ size state.memory block
  live_iff : ∀ pointer, pointer ∈ state.live ↔
    ∃ block ∈ addresses, isFree state.memory block = 0 ∧ pointer = block + headerSize
  inside : ∀ block ∈ addresses,
    range block (headerSize + size state.memory block) ⊆ range region.start heapSize
  headers_apart : ∀ left ∈ addresses, ∀ right ∈ addresses, left ≠ right →
    Disjoint (range left headerSize) (range right headerSize)
  payloads_apart : ∀ left ∈ state.live, ∀ right ∈ state.live, left ≠ right →
    Disjoint (range left (size state.memory (left - headerSize)))
      (range right (size state.memory (right - headerSize)))
  header_payload_apart : ∀ block ∈ addresses, ∀ pointer ∈ state.live,
    Disjoint (range block headerSize) (range pointer (size state.memory (pointer - headerSize)))
  accounted : ∀ fuel, 65536 ≤ fuel → ∃ used free,
    heapGetUsed fuel region.start state.memory = some used ∧
      heapGetFree fuel region.start state.memory = some free ∧
      used + free + 16 * addresses.countP (fun block => isFree state.memory block ≠ 0) = heapSize

namespace Invariant

variable {place left right : ℕ × Block}

theorem extents_apart (leftMem : left ∈ placed headerSize region.start blocks)
    (rightMem : right ∈ placed headerSize region.start blocks) (distinct : left.1 ≠ right.1) :
    Disjoint (range left.1 (headerSize + left.2.size))
      (range right.1 (headerSize + right.2.size)) := by
  rw [Set.disjoint_left]
  intro address inLeft inRight
  rw [mem_range] at inLeft inRight
  rcases Nat.lt_or_gt_of_ne distinct with before | before
  · have ordered := placed_ordered leftMem rightMem before
    omega
  · have ordered := placed_ordered rightMem leftMem before
    omega

theorem header_subset_extent : range place.1 headerSize ⊆
    range place.1 (headerSize + place.2.size) := range_subset_range le_rfl (by omega)

theorem payload_subset_extent : range (place.1 + headerSize) place.2.size ⊆
    range place.1 (headerSize + place.2.size) := range_subset_range (by omega) (by omega)

variable (invariant : Invariant region state blocks)
include invariant

theorem size_eq (member : place ∈ placed headerSize region.start blocks) :
    size state.memory place.1 = place.2.size := by
  rcases invariant.represented.headerAt member with header | ⟨header, _⟩
  · exact header.size_eq
  · exact header.size_eq

theorem isFree_iff (member : place ∈ placed headerSize region.start blocks) :
    isFree state.memory place.1 = 0 ↔ place.2.free = false := by
  have flag : isFree state.memory place.1 ≠ 0 ↔ place.2.free = true := by
    rcases invariant.represented.headerAt member with header | ⟨header, _⟩
    · exact header.free_iff
    · exact header.free_iff
  rw [← not_iff_not, ← ne_eq, flag, Bool.not_eq_false]

theorem mem_live_iff : pointer ∈ state.live ↔
    ∃ place ∈ placed headerSize region.start blocks,
      place.2.free = false ∧ pointer = place.1 + headerSize := by
  rw [invariant.live_eq, mem_livePointers_iff]

theorem accounted (enough : 65536 ≤ fuel) :
    heapGetUsed fuel region.start state.memory = some (usedBytes blocks) ∧
      heapGetFree fuel region.start state.memory = some (freeBytes blocks) := by
  have length := invariant.length_le.trans enough
  have fits : 0 + span headerSize blocks < 2 ^ 32 := by
    have bound := invariant.fits
    omega
  have used := heapGetUsedLoop_eq invariant.represented region.start_pos fits length
  have free := heapGetFreeLoop_eq invariant.represented region.start_pos fits length
  rw [invariant.entry_eq, Nat.zero_add] at used free
  exact ⟨used, free⟩

theorem tiles : Tiles region state ((placed headerSize region.start blocks).map Prod.fst) := by
  constructor
  · intro fuel enough
    have walked := blockList_eq invariant.represented region.start_pos
      (invariant.length_le.trans enough)
    rwa [invariant.entry_eq] at walked
  · cases blocks with
    | nil =>
      have covers := invariant.covers
      simp [span, heapSize] at covers
    | cons block blocks => rfl
  · simp only [List.forall_mem_map]
    intro place member
    rcases invariant.represented.headerAt member with header | ⟨header, _⟩
    · exact header.magic_eq
    · exact header.magic_eq
  · simp only [List.forall_mem_map]
    intro place member
    rw [invariant.size_eq member]
    rcases invariant.represented.headerAt member with header | ⟨header, ends⟩
    · exact Or.inl header.next_eq
    · rw [invariant.covers] at ends
      exact Or.inr ⟨header.next_eq, ends⟩
  · simp only [List.forall_mem_map]
    intro place member
    rw [invariant.size_eq member]
    exact invariant.grain place.2 (mem_of_mem_placed member)
  · intro pointer
    rw [invariant.mem_live_iff]
    simp only [List.mem_map, exists_exists_and_eq_and]
    apply exists_congr
    intro place
    apply and_congr_right
    intro member
    rw [invariant.isFree_iff member]
  · simp only [List.forall_mem_map]
    intro place member address inside
    have bounds := placed_bounds member
    rw [invariant.covers] at bounds
    rw [invariant.size_eq member, mem_range] at inside
    rw [mem_range]
    omega
  · simp only [List.forall_mem_map]
    intro left leftMem right rightMem distinct
    exact (extents_apart leftMem rightMem distinct).mono header_subset_extent header_subset_extent
  · intro left leftLive right rightLive distinct
    rw [invariant.mem_live_iff] at leftLive rightLive
    rcases leftLive with ⟨leftPlace, leftMem, _, rfl⟩
    rcases rightLive with ⟨rightPlace, rightMem, _, rfl⟩
    rw [Nat.add_sub_cancel, Nat.add_sub_cancel, invariant.size_eq leftMem,
      invariant.size_eq rightMem]
    exact (extents_apart leftMem rightMem (by omega)).mono payload_subset_extent
      payload_subset_extent
  · simp only [List.forall_mem_map]
    intro place member pointer live
    rw [invariant.mem_live_iff] at live
    rcases live with ⟨owner, ownerMem, _, rfl⟩
    rw [Nat.add_sub_cancel, invariant.size_eq ownerMem]
    by_cases same : place.1 = owner.1
    · rw [same, Set.disjoint_left]
      intro address inHeader inPayload
      rw [mem_range] at inHeader inPayload
      omega
    · exact (extents_apart member ownerMem same).mono header_subset_extent payload_subset_extent
  · intro fuel enough
    rcases invariant.accounted enough with ⟨used, free⟩
    refine ⟨_, _, used, free, ?_⟩
    rw [countP_placed_eq invariant.represented, ← invariant.covers]
    exact usedBytes_add_freeBytes blocks

theorem kmalloc_total (enough : 65536 ≤ fuel) (request : ℕ) :
    (kmalloc fuel region.start state.memory request).isSome = true := by
  by_cases zero : request = 0
  · simp [kmalloc, zero]
  · have refined := kmalloc_refines invariant enough zero
    cases found : firstFit headerSize 16 (Word32.add request 3 &&& Word32.not 3) region.start
        blocks with
    | none =>
      rw [found] at refined
      simp [refined]
    | some pair =>
      rw [found] at refined
      rcases refined with ⟨updated, _, run, _⟩
      simp [run]

end Invariant

/-- In every reachable heap, the block list tiles the region and every `kmalloc` returns. -/
theorem reachable_tiles (reachable : Reachable region state) :
    (∃ addresses, Tiles region state addresses) ∧
      ∀ fuel request, 65536 ≤ fuel →
        (kmalloc fuel region.start state.memory request).isSome = true := by
  rcases reachable.invariant with ⟨blocks, invariant⟩
  refine ⟨⟨_, invariant.tiles⟩, ?_⟩
  intro fuel request enough
  exact invariant.kmalloc_total enough request

theorem reachable_tiles_after_malloc :
    ∃ updated, kmalloc 1 0x200000 (heapInit ⟨0x200000, by decide, by decide⟩ fun _ => 0) 10 =
        some (updated, 0x200010) ∧
      ∃ addresses, Tiles ⟨0x200000, by decide, by decide⟩ ⟨updated, {0x200010}⟩ addresses := by
  refine ⟨_, rfl, (reachable_tiles ⟨fun _ => 0, .single ?_⟩).1⟩
  have step := @Step.malloc ⟨0x200000, by decide, by decide⟩ _ _ ∅ 1 10 0x200010 (by decide)
    (Eq.refl (kmalloc 1 0x200000 (heapInit ⟨0x200000, by decide, by decide⟩ fun _ => 0) 10))
  simpa using step

end RamOS.Heap
