import RamOS.Heap.Contract

/-!
# Allocations that are freed in reverse order

`kfree` joins a block with the following one only. This file follows clients that always free
the block they were given last. There are never two free blocks side by side then, because each
`kfree` undoes the `kmalloc` it belongs to.
-/

namespace RamOS.Heap

open ByteMemory BlockList

structure BlockView where
  address : ℕ
  size : ℕ
  free : Bool
deriving DecidableEq

def heapView (region : Region) (memory : Memory) : Option (List BlockView) :=
  (blockList memory 65536 region.start).map fun addresses =>
    addresses.map fun block => ⟨block, size memory block, isFree memory block ≠ 0⟩

/-- Memory, and the blocks held, the last one first, each with the heap before its `kmalloc`. -/
structure StackState where
  memory : Memory
  held : List (ℕ × Option (List BlockView))

/-- One action of a client that frees the block it was given last. -/
inductive StackStep (region : Region) : StackState → StackState → Prop
  | malloc {memory updated : Memory} {held : List (ℕ × Option (List BlockView))}
      {fuel request pointer : ℕ} (word : request < 2 ^ 32)
      (run : kmalloc fuel region.start memory request = some (updated, pointer)) :
      StackStep region ⟨memory, held⟩
        ⟨updated, if pointer = 0 then held else (pointer, heapView region memory) :: held⟩
  | free {memory : Memory} {pointer : ℕ} {before : Option (List BlockView)}
      {held : List (ℕ × Option (List BlockView))} :
      StackStep region ⟨memory, (pointer, before) :: held⟩ ⟨kfree memory pointer, held⟩
  | write {memory : Memory} {held : List (ℕ × Option (List BlockView))}
      {pointer address : ℕ} {value : UInt8} (holds : pointer ∈ held.map Prod.fst)
      (inside : address ∈ range pointer (size memory (pointer - headerSize))) :
      StackStep region ⟨memory, held⟩ ⟨write8 memory address value, held⟩

def blocksView (region : Region) (blocks : List Block) : List BlockView :=
  (placed headerSize region.start blocks).map fun place =>
    ⟨place.1, place.2.size, place.2.free⟩

/-- The block list comes from the initial one by the allocations of the blocks held. -/
inductive Nested (region : Region) :
    List Block → List (ℕ × Option (List BlockView)) → Prop
  | empty : Nested region [⟨heapSize - headerSize, true⟩] []
  | push {blocks result : List Block} {held : List (ℕ × Option (List BlockView))}
      {request pointer : ℕ} (nested : Nested region blocks held)
      (found : firstFit headerSize 16 request region.start blocks = some (pointer, result)) :
      Nested region result ((pointer, some (blocksView region blocks)) :: held)

def NestedHeap (region : Region) (state : StackState) (blocks : List Block) : Prop :=
  Invariant region ⟨state.memory, livePointers headerSize region.start blocks⟩ blocks ∧
    Nested region blocks state.held

section Steps

variable {region : Region} {state after : StackState} {blocks result : List Block}
  {held : List (ℕ × Option (List BlockView))} {memory updated : Memory}
  {fuel request pointer : ℕ}

theorem Invariant.heapView_eq {live : Set ℕ} (invariant : Invariant region ⟨memory, live⟩ blocks) :
    heapView region memory = some (blocksView region blocks) := by
  rw [heapView, invariant.tiles.walk 65536 le_rfl, Option.map_some, List.map_map]
  refine congrArg some (List.map_congr_left fun place member => ?_)
  have flag := invariant.isFree_iff member
  simp only [Function.comp_apply, invariant.size_eq member]
  cases free : place.2.free <;> simp_all

theorem Nested.separated (nested : Nested region blocks held) : Separated blocks := by
  induction nested with
  | empty => exact List.isChain_singleton _
  | push _ found ih => exact separated_firstFit ih found

theorem Nested.mem_livePointers (nested : Nested region blocks held)
    (holds : pointer ∈ held.map Prod.fst) :
    pointer ∈ livePointers headerSize region.start blocks := by
  induction nested with
  | empty => cases holds
  | push _ found ih =>
    rw [(livePointers_firstFit (by decide) found).2]
    rcases List.mem_cons.mp holds with rfl | earlier
    · exact Set.mem_insert _ _
    · exact Set.mem_insert_of_mem _ (ih earlier)

theorem NestedHeap.malloc (heap : NestedHeap region ⟨memory, held⟩ blocks)
    (run : kmalloc fuel region.start memory request = some (updated, pointer)) :
    ∃ result, NestedHeap region
      ⟨updated, if pointer = 0 then held else (pointer, heapView region memory) :: held⟩
      result := by
  rcases heap with ⟨invariant, nested⟩
  rcases kmalloc_cases invariant run with ⟨null, same⟩ | ⟨notNull, _, result, found, allocated⟩
  · rw [if_pos null, same]
    exact ⟨blocks, invariant, nested⟩
  · rw [if_neg notNull, invariant.heapView_eq]
    refine ⟨result, ?_, nested.push found⟩
    rwa [(livePointers_firstFit (by decide) found).2]

/-- Freeing the block that was allocated last restores the heap. -/
theorem NestedHeap.free {before : Option (List BlockView)}
    (heap : NestedHeap region ⟨memory, (pointer, before) :: held⟩ blocks) :
    ∃ result, NestedHeap region ⟨kfree memory pointer, held⟩ result ∧
      before = some (blocksView region result) := by
  rcases heap with ⟨invariant, nested⟩
  have live := nested.mem_livePointers (List.mem_cons_self ..)
  have freed := kfree_releases invariant live
  cases nested with
  | @push earlier _ _ request _ nested found =>
    have inUse := livePointers_firstFit (by decide : 0 < headerSize) found
    rw [release_firstFit (by decide) nested.separated found, inUse.2,
      Set.insert_sdiff_self_of_notMem inUse.1] at freed
    exact ⟨earlier, ⟨freed, nested⟩, rfl⟩

theorem StackStep.nestedHeap (step : StackStep region state after)
    (heap : NestedHeap region state blocks) : ∃ result, NestedHeap region after result := by
  cases step with
  | malloc word run => exact heap.malloc run
  | free =>
    rcases heap.free with ⟨result, restored, -⟩
    exact ⟨result, restored⟩
  | write holds inside =>
    exact ⟨blocks, write_invariant heap.1 (heap.2.mem_livePointers holds) inside, heap.2⟩

theorem exists_nestedHeap (memory : Memory)
    (run : Relation.ReflTransGen (StackStep region) ⟨heapInit region memory, []⟩ state) :
    ∃ blocks, NestedHeap region state blocks := by
  induction run with
  | refl =>
    have initial := invariant_heapInit region memory
    refine ⟨_, ?_, .empty⟩
    rwa [← initial.live_eq]
  | tail _ step ih =>
    rcases ih with ⟨blocks, heap⟩
    exact step.nestedHeap heap

end Steps

/-- For a client that frees in reverse order, `kmalloc` returns, the list of blocks ends, `kfree`
restores the heap before the matching `kmalloc`, and with nothing held the heap is the block of
`heap_init`. -/
theorem stack_use_restores_heap (region : Region) (memory : Memory) (state : StackState)
    (run : Relation.ReflTransGen (StackStep region) ⟨heapInit region memory, []⟩ state) :
    (∀ request, (kmalloc 65536 region.start state.memory request).isSome = true) ∧
      (heapView region state.memory).isSome = true ∧
      (∀ pointer before held, state.held = (pointer, before) :: held →
        heapView region (kfree state.memory pointer) = before ∧ before.isSome = true) ∧
      (state.held = [] →
        heapView region state.memory = some [⟨region.start, heapSize - headerSize, true⟩]) := by
  rcases exists_nestedHeap memory run with ⟨blocks, heap⟩
  refine ⟨fun request => heap.1.kmalloc_total le_rfl request, ?_, ?_, ?_⟩
  · rw [heap.1.heapView_eq]
    rfl
  · rintro pointer before held isHeld
    obtain ⟨memory, stack⟩ := state
    subst isHeld
    rcases heap.free with ⟨result, restored, rfl⟩
    exact ⟨restored.1.heapView_eq, rfl⟩
  · intro nothing
    obtain ⟨invariant, nested⟩ := heap
    rw [nothing] at nested
    cases nested
    exact invariant.heapView_eq

/-- Ten bytes are allocated on the fresh heap and freed again. -/
theorem stack_use_restores_fresh_heap :
    ∃ updated, kmalloc 1 sampleRegion.start freshHeap.memory 10 = some (updated, 0x300010) ∧
      heapView sampleRegion (kfree updated 0x300010) =
        heapView sampleRegion freshHeap.memory := by
  refine ⟨_, rfl, ?_⟩
  have step := @StackStep.malloc sampleRegion freshHeap.memory _ [] 1 10 0x300010 (by decide)
    (Eq.refl (kmalloc 1 sampleRegion.start freshHeap.memory 10))
  exact ((stack_use_restores_heap sampleRegion (fun _ => 0) _ (.single step)).2.2.1 _ _ _ rfl).1

end RamOS.Heap
