import RamOS.Heap.Reachable
import RamOS.Lib.Ownership
import RamOS.Proc.Fork
import RamOS.Vmm.Runs

/-!
# Memory in use

Two allocators share physical memory: the heap manages its region, and the frame
allocator the frames that its bitmap does not mark. This file says what it means that
a set of addresses is in use, so that neither allocator hands it out or writes to it,
and that memory they do hand out is in use from then on.
-/

namespace RamOS.Proc

open ByteMemory BlockList
open Vmm (frameUsed maxFrames pageSize)
open Heap (headerSize heapSize managed)

def Guards (state : Vmm.State) (owned : Set ℕ) : Prop :=
  ∀ frame < maxFrames, frameUsed state frame = false →
    Disjoint owned (range (frame * pageSize) pageSize)

/-- The heap is in order, apart from free frames, and neither allocator disposes of `owned`. -/
structure InUse (region : Heap.Region) (state : Vmm.State) (owned : Set ℕ) : Prop where
  heap : ∃ live blocks, Heap.Invariant region ⟨state.memory, live⟩ blocks ∧
    Disjoint owned (managed region.start blocks)
  frames : Guards state owned
  apart : Guards state (range region.start heapSize)

variable {region : Heap.Region} {state : Vmm.State} {owned : Set ℕ} {memory : Memory}

theorem InUse.write (inUse : InUse region state owned)
    (inside : Set.EqOn memory state.memory ownedᶜ) :
    InUse region { state with memory := memory } owned := by
  rcases inUse.heap with ⟨live, blocks, invariant, apart⟩
  refine ⟨⟨live, blocks, ⟨?_, invariant.covers, invariant.grain, invariant.live_eq⟩, apart⟩,
    inUse.frames, inUse.apart⟩
  apply invariant.represented.congr_of_managed
  exact inside.mono fun address isManaged isOwned =>
    Set.disjoint_left.mp apart isOwned isManaged

theorem managed_subset_heap {live : Set ℕ} {blocks : List Block}
    (invariant : Heap.Invariant region ⟨memory, live⟩ blocks) :
    managed region.start blocks ⊆ range region.start heapSize := by
  rintro address ⟨inHeap, _⟩
  rwa [invariant.covers] at inHeap

theorem managed_firstFit {request pointer : ℕ} {blocks result : List Block}
    (found : firstFit headerSize 16 request region.start blocks = some (pointer, result)) :
    ∃ granted, request ≤ granted ∧ region.start + headerSize ≤ pointer ∧
      pointer + granted ≤ region.start + span headerSize blocks ∧
      range pointer granted ⊆ managed region.start blocks ∧
      managed region.start result ⊆ managed region.start blocks \ range pointer granted := by
  rcases livePayload_firstFit found with ⟨granted, enough, payload, apart, lower, upper⟩
  refine ⟨granted, enough, lower, upper, ?_, ?_⟩
  · intro address inside
    refine ⟨?_, fun isLive => Set.disjoint_left.mp apart isLive inside⟩
    rw [mem_range] at inside ⊢
    omega
  · rintro address ⟨inHeap, notLive⟩
    rw [payload, Set.mem_union, not_or] at notLive
    rw [span_firstFit found] at inHeap
    exact ⟨⟨inHeap, notLive.1⟩, notLive.2⟩

/-- Stores to memory that the allocators respect do not disturb them. -/
def AllowsStores (safe : Vmm.State → Set ℕ → Prop) : Prop :=
  ∀ ⦃state owned memory⦄, safe state owned → Set.EqOn memory state.memory ownedᶜ →
    safe { state with memory := memory } owned

/-- A block that was not in use before and is now; what was in use has not changed. -/
structure GrantedBy (safe : Vmm.State → Set ℕ → Prop) (state : Vmm.State) (owned : Set ℕ)
    (pointer length : ℕ) (after : Vmm.State) : Prop where
  positive : 0 < pointer
  bound : pointer + length < 2 ^ 32
  fresh : Disjoint owned (range pointer length)
  inUse : safe after (owned ∪ range pointer length)
  frame : Set.EqOn after.memory state.memory owned

/-- A phase of a program. What the allocators respect is `safe`. -/
abbrev Spreads (safe : Vmm.State → Set ℕ → Prop) (writable : Set ℕ) (before : Vmm.State)
    (owned : Set ℕ) (after : Vmm.State) (ownedAfter : Set ℕ) : Prop :=
  Ownership.Extends (fun state : Vmm.State => state.memory) safe writable before owned after
    ownedAfter

abbrev Keeps (safe : Vmm.State → Set ℕ → Prop) (original : Memory) (kept : Set ℕ)
    (state : Vmm.State) (owned : Set ℕ) : Prop :=
  Ownership.Keeps (fun state : Vmm.State => state.memory) safe original kept state owned

/-- An allocator of pages fails and changes no memory, or gives out a page that was not in
use. -/
def ServesPages (safe : Vmm.State → Set ℕ → Prop) (alloc : Vmm.State → ℕ × Vmm.State) : Prop :=
  ∀ state owned, safe state owned →
    (alloc state).1 = 0 ∧ safe (alloc state).2 owned ∧ (alloc state).2.memory = state.memory ∨
      2 ^ 12 ∣ (alloc state).1 ∧
        GrantedBy safe state owned (alloc state).1 pageSize (alloc state).2

section

variable {safe : Vmm.State → Set ℕ → Prop} {after : Vmm.State} {pointer length address : ℕ}

theorem spreads_store {writable : Set ℕ} (stores : AllowsStores safe) (isSafe : safe state owned)
    (inside : writable ⊆ owned) (outside : Set.EqOn memory state.memory writableᶜ) :
    Spreads safe writable state owned { state with memory := memory } owned :=
  ⟨subset_rfl, stores isSafe (outside.mono (Set.compl_subset_compl.mpr inside)),
    outside.mono fun _ isOwned => isOwned.2⟩

theorem servesPages_of_takeFrame (guarded : ∀ state owned, safe state owned → Guards state owned)
    (fewer : ∀ state owned frame, safe (Vmm.takeFrame state frame)
      (owned ∪ range (frame * pageSize) pageSize) → safe (Vmm.takeFrame state frame) owned)
    (taken : ∀ state owned frame, safe state owned → frame < maxFrames →
      frameUsed state frame = false →
        safe (Vmm.takeFrame state frame) (owned ∪ range (frame * pageSize) pageSize)) :
    ServesPages safe Vmm.allocFrame := by
  intro state owned isSafe
  rcases Vmm.allocFrame_cases state with ⟨none, _⟩ | ⟨frame, inside, free, found⟩
  · left
    rw [none]
    exact ⟨rfl, isSafe, rfl⟩
  have safeAfter := taken state owned frame isSafe inside free
  rw [found]
  by_cases null : frame * pageSize = 0
  · exact Or.inl ⟨null, fewer state owned frame safeAfter, rfl⟩
  right
  refine ⟨⟨frame, Nat.mul_comm _ _⟩, by omega, ?_, guarded state owned isSafe frame inside free,
    safeAfter, fun _ _ => rfl⟩
  simp only [maxFrames, pageSize] at inside ⊢
  omega

variable (granted : GrantedBy safe state owned pointer length after)

include granted

theorem GrantedBy.overwrite (stores : AllowsStores safe)
    (inside : Set.EqOn memory after.memory (range pointer length)ᶜ) :
    GrantedBy safe state owned pointer length { after with memory := memory } := by
  refine ⟨granted.positive, granted.bound, granted.fresh, stores granted.inUse ?_, ?_⟩
  · exact inside.mono fun _ notOwned inBlock => notOwned (Or.inr inBlock)
  · intro address isOwned
    exact (inside (Set.disjoint_left.mp granted.fresh isOwned)).trans (granted.frame isOwned)

theorem GrantedBy.store (stores : AllowsStores safe) (inside : range address 4 ⊆ owned)
    (outside : Set.EqOn memory after.memory (range pointer length)ᶜ) (value : ℕ) :
    safe { after with memory := write32 memory address value } (owned ∪ range pointer length) ∧
      Set.EqOn (write32 memory address value) state.memory (owned \ range address 4) := by
  have stored := write32_eqOn memory address value
  refine ⟨stores granted.inUse ?_, ?_⟩
  · intro location notOwned
    rw [Set.mem_compl_iff, Set.mem_union, not_or] at notOwned
    rw [stored fun inWord => notOwned.1 (inside inWord), outside notOwned.2]
  · rintro location ⟨isOwned, notInWord⟩
    have notInBlock := Set.disjoint_left.mp granted.fresh isOwned
    exact (stored notInWord).trans ((outside notInBlock).trans (granted.frame isOwned))

theorem GrantedBy.keeps {original : Memory} {kept : Set ℕ}
    (keeps : Keeps safe original kept state owned) :
    Keeps safe original kept after (owned ∪ range pointer length) ∧
      Disjoint kept (range pointer length) :=
  ⟨⟨granted.inUse, keeps.subset.trans Set.subset_union_left,
    (granted.frame.mono keeps.subset).trans keeps.same⟩, granted.fresh.mono_left keeps.subset⟩

end

theorem grantedBy_createPageDirectory {safe : Vmm.State → Set ℕ → Prop} (stores : AllowsStores safe)
    (serves : ServesPages safe Vmm.allocFrame) (isSafe : safe state owned)
    (created : (Vmm.vmmCreatePageDirectory state).1 ≠ 0) :
    GrantedBy safe state owned (Vmm.vmmCreatePageDirectory state).1 pageSize
      (Vmm.vmmCreatePageDirectory state).2 := by
  have served := serves state owned isSafe
  cases run : Vmm.allocFrame state with
  | mk directory after =>
    rw [run] at served
    by_cases null : directory = 0
    · simp [Vmm.vmmCreatePageDirectory, run, null] at created
    · simp only [Vmm.vmmCreatePageDirectory, run, if_neg null]
      rcases served with ⟨isNull, _⟩ | ⟨_, granted⟩
      · exact absurd isNull null
      · exact granted.overwrite stores (Vmm.newDirectory_eqOn _ _ _)

theorem allowsStores_inUse : AllowsStores (InUse region) :=
  fun _ _ _ inUse inside => inUse.write inside

/-- A block that was not in use before and is now, for the two allocators. -/
abbrev Granted (region : Heap.Region) (state : Vmm.State) (owned : Set ℕ) (pointer length : ℕ)
    (after : Vmm.State) : Prop :=
  GrantedBy (InUse region) state owned pointer length after

theorem Guards.mono (guards : Guards state owned) {fewer : Set ℕ} (subset : fewer ⊆ owned) :
    Guards state fewer :=
  fun frame inside free => (guards frame inside free).mono_left subset

theorem InUse.mono (inUse : InUse region state owned) {fewer : Set ℕ} (subset : fewer ⊆ owned) :
    InUse region state fewer := by
  rcases inUse.heap with ⟨live, blocks, invariant, apart⟩
  exact ⟨⟨live, blocks, invariant, apart.mono_left subset⟩, inUse.frames.mono subset, inUse.apart⟩

theorem Granted.shrink {after : Vmm.State} {pointer length inner innerLength : ℕ}
    (granted : Granted region state owned pointer length after) (lower : pointer ≤ inner)
    (upper : inner + innerLength ≤ pointer + length) :
    Granted region state owned inner innerLength after := by
  have subset := range_subset_range lower upper
  exact ⟨granted.positive.trans_le lower, upper.trans_lt granted.bound,
    granted.fresh.mono_right subset, granted.inUse.mono (Set.union_subset_union_right _ subset),
    granted.frame⟩

/-- `kmalloc` fails and changes nothing, or gives out memory that was not in use. -/
theorem InUse.kmalloc (inUse : InUse region state owned) {request : ℕ} (positive : request ≠ 0)
    (small : request + 3 < 2 ^ 32) :
    Proc.kmalloc region state request = (0, state) ∨
    ∃ pointer after, Proc.kmalloc region state request = (pointer, after) ∧
      Granted region state owned pointer request after := by
  rcases inUse.heap with ⟨live, blocks, invariant, apart⟩
  have refined := Heap.kmalloc_refines invariant (le_refl searchFuel) positive
  have rounded := @Heap.roundUp_eq request small
  cases found : firstFit headerSize 16 (Word32.add request 3 &&& Word32.not 3) region.start
      blocks with
  | none =>
    left
    simp only [found] at refined
    simp only [Proc.kmalloc, refined]
  | some pair =>
    right
    rcases pair with ⟨pointer, result⟩
    simp only [found] at refined
    rcases refined with ⟨memory, _, run, preserved, takes⟩
    have frame := takes.eqOn_managed
    rcases managed_firstFit found with ⟨granted, enough, lower, upper, taken, remaining⟩
    have fits := invariant.fits
    have covers := invariant.covers
    have subset : range pointer request ⊆ range pointer granted :=
      range_subset_range le_rfl (by omega)
    refine ⟨pointer, { state with memory := memory }, by simp only [Proc.kmalloc, run], ?_⟩
    refine ⟨by simp only [headerSize] at lower; omega, by omega,
      apart.mono_right (subset.trans taken), ⟨⟨_, result, preserved, ?_⟩, ?_, inUse.apart⟩, ?_⟩
    · rw [Set.disjoint_union_left]
      constructor
      · exact apart.mono_right (remaining.trans Set.sdiff_subset)
      · rw [Set.disjoint_left]
        exact fun address inside isManaged => (remaining isManaged).2 (subset inside)
    · intro frame inside free
      rw [Set.disjoint_union_left]
      refine ⟨inUse.frames frame inside free, ?_⟩
      apply (inUse.apart frame inside free).mono_left
      intro address inBlock
      rw [mem_range] at inBlock ⊢
      simp only [headerSize] at lower
      omega
    · exact frame.mono fun address isOwned isManaged =>
        Set.disjoint_left.mp apart isOwned isManaged

theorem kmallocAligned_eq (region : Heap.Region) (state : Vmm.State) (request alignment : ℕ) :
    kmallocAligned region state request alignment =
      match kmalloc region state (Word32.add request alignment) with
      | (pointer, after) =>
        if pointer = 0 then (0, after)
        else
          (Word32.sub (Word32.add pointer alignment) 1 &&&
            Word32.not (Word32.sub alignment 1), after) := by
  cases run : Heap.kmalloc searchFuel region.start state.memory
      (Word32.add request alignment) with
  | none => simp [kmallocAligned, Heap.kmallocAligned, kmalloc, run]
  | some outcome =>
    rcases outcome with ⟨memory, pointer⟩
    by_cases null : pointer = 0 <;>
      simp [kmallocAligned, Heap.kmallocAligned, kmalloc, run, null]

theorem InUse.kmallocAligned (inUse : InUse region state owned) {request exponent : ℕ}
    (small : request + 2 ^ exponent + 3 < 2 ^ 32) :
    Proc.kmallocAligned region state request (2 ^ exponent) = (0, state) ∨
    ∃ pointer after,
      Proc.kmallocAligned region state request (2 ^ exponent) = (pointer, after) ∧
      2 ^ exponent ∣ pointer ∧ Granted region state owned pointer request after := by
  have power : 0 < 2 ^ exponent := Nat.two_pow_pos exponent
  rw [kmallocAligned_eq, Word32.add_eq (by omega)]
  rcases @InUse.kmalloc region state owned inUse (request + 2 ^ exponent) (by omega) small with
    failed | ⟨block, after, run, granted⟩
  · left
    simp only [failed, if_true]
  · right
    have bound := granted.bound
    have notNull : block ≠ 0 := granted.positive.ne'
    rcases @Word32.alignUp_spec exponent block (by omega) with ⟨aligned, value, dvd, lower, upper⟩
    refine ⟨aligned, after, ?_, dvd, granted.shrink (by omega) (by omega)⟩
    simp only [run, if_neg notNull, value]

theorem allowsStores_guards : AllowsStores Guards := fun _ _ _ guards _ => guards

theorem frameUsed_of_takeFrame {frame other : ℕ}
    (unused : frameUsed (Vmm.takeFrame state frame) other = false) :
    other ≠ frame ∧ frameUsed state other = false := by
  rwa [Vmm.frameUsed_takeFrame, Bool.or_eq_false_iff, decide_eq_false_iff_not] at unused

theorem Guards.takeFrame (guards : Guards state owned) (frame : ℕ) :
    Guards (Vmm.takeFrame state frame) (owned ∪ range (frame * pageSize) pageSize) := by
  intro other inside unused
  rcases frameUsed_of_takeFrame unused with ⟨different, free⟩
  refine Set.disjoint_union_left.mpr ⟨guards other inside free, ?_⟩
  rw [Set.disjoint_left]
  intro address inFrame inOther
  simp only [mem_range, pageSize] at inFrame inOther
  omega

theorem servesPages_guards : ServesPages Guards Vmm.allocFrame :=
  servesPages_of_takeFrame (fun _ _ guards => guards)
    (fun _ _ _ guards => guards.mono Set.subset_union_left)
    fun _ _ frame guards _ _ => guards.takeFrame frame

theorem servesPages_inUse : ServesPages (InUse region) Vmm.allocFrame := by
  refine servesPages_of_takeFrame (fun _ _ inUse => inUse.frames)
    (fun _ _ _ inUse => inUse.mono Set.subset_union_left) ?_
  intro state owned frame inUse inside free
  rcases inUse.heap with ⟨live, blocks, invariant, apart⟩
  have heapApart := (inUse.apart frame inside free).symm
  exact ⟨⟨live, blocks, invariant, Set.disjoint_union_left.mpr
    ⟨apart, heapApart.mono_right (managed_subset_heap invariant)⟩⟩, inUse.frames.takeFrame frame,
    fun other inside unused => inUse.apart other inside (frameUsed_of_takeFrame unused).2⟩

theorem InUse.vmmCreatePageDirectory (inUse : InUse region state owned)
    (created : (Vmm.vmmCreatePageDirectory state).1 ≠ 0) :
    Granted region state owned (Vmm.vmmCreatePageDirectory state).1 pageSize
      (Vmm.vmmCreatePageDirectory state).2 :=
  grantedBy_createPageDirectory allowsStores_inUse servesPages_inUse inUse created

theorem Guards.vmmCreatePageDirectory (guards : Guards state owned)
    (created : (Vmm.vmmCreatePageDirectory state).1 ≠ 0) :
    GrantedBy Guards state owned (Vmm.vmmCreatePageDirectory state).1 pageSize
      (Vmm.vmmCreatePageDirectory state).2 :=
  grantedBy_createPageDirectory allowsStores_guards servesPages_guards guards created

theorem createPageDirectory_memory (hasFrame : (Vmm.vmmCreatePageDirectory state).1 ≠ 0) :
    (Vmm.vmmCreatePageDirectory state).2.memory =
      if state.kernelPageDirectory = 0 then
        fillWords state.memory (Vmm.vmmCreatePageDirectory state).1 0 1024
      else copyWords (fillWords state.memory (Vmm.vmmCreatePageDirectory state).1 0 1024)
        (Vmm.vmmCreatePageDirectory state).1 state.kernelPageDirectory 512 := by
  rcases Vmm.allocFrame_cases state with ⟨none, _⟩ | ⟨frame, _, _, found⟩
  · simp [Vmm.vmmCreatePageDirectory, none] at hasFrame
  · by_cases null : frame * pageSize = 0
    · simp [Vmm.vmmCreatePageDirectory, found, null] at hasFrame
    · simp only [Vmm.vmmCreatePageDirectory, found, if_neg null]
      rfl

theorem createPageDirectory_clear {slot : ℕ} (hasFrame : (Vmm.vmmCreatePageDirectory state).1 ≠ 0)
    (upper : slot < 1024) (high : 512 ≤ slot ∨ state.kernelPageDirectory = 0) :
    read32 (Vmm.vmmCreatePageDirectory state).2.memory
      ((Vmm.vmmCreatePageDirectory state).1 + 4 * slot) = 0 := by
  rw [createPageDirectory_memory hasFrame]
  exact Vmm.read32_newDirectory_clear upper high

end RamOS.Proc
