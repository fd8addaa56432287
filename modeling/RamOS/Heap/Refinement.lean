import RamOS.Lib.BlockList
import RamOS.Heap.Model

/-!
# The heap in memory refines the block list

`Represents` relates the headers in memory to an abstract list of blocks. On the represented
list, `kmalloc` performs `BlockList.firstFit` and `kfree` performs `BlockList.release`; either
leaves every byte alone which is outside the heap or owned by a user.
-/

namespace RamOS.Heap

open ByteMemory BlockList

/-- The header of `block` is stored at `address` and links to `following`. -/
structure HeaderAt (memory : Memory) (address : ℕ) (block : Block) (following : ℕ) : Prop where
  magic_eq : magic memory address = heapMagic
  size_eq : size memory address = block.size
  free_iff : isFree memory address ≠ 0 ↔ block.free = true
  next_eq : next memory address = following

/-- The address of a list of blocks as a `next` pointer holds it. -/
def entry (start : ℕ) (blocks : List Block) : ℕ := if blocks = [] then 0 else start

def Represents (memory : Memory) : ℕ → List Block → Prop
  | _, [] => True
  | start, block :: blocks =>
    HeaderAt memory start block (entry (start + headerSize + block.size) blocks) ∧
      Represents memory (start + headerSize + block.size) blocks

/-- Bytes of the heap that no user owns: headers and free payloads. -/
def managed (start : ℕ) (blocks : List Block) : Set ℕ :=
  range start (span headerSize blocks) \ livePayload headerSize start blocks

variable {memory updated : Memory} {start address request pointer fuel following : ℕ}
  {block : Block} {blocks result : List Block}

@[simp]
theorem entry_nil : entry start [] = 0 := rfl

@[simp]
theorem entry_cons : entry start (block :: blocks) = start := by
  simp [entry]

theorem HeaderAt.congr (header : HeaderAt memory address block following)
    (agree : Set.EqOn updated memory (range address headerSize)) :
    HeaderAt updated address block following := by
  have word (offset : ℕ) (inside : offset ≤ 12) :
      read32 updated (address + offset) = read32 memory (address + offset) := by
    apply read32_congr
    intro location locationMem
    apply agree
    simp only [mem_range, headerSize] at locationMem ⊢
    omega
  have flag : updated (address + 8) = memory (address + 8) := by
    apply agree
    simp only [mem_range, headerSize]
    omega
  constructor
  · rw [← header.magic_eq]
    exact word 0 (by omega)
  · rw [← header.size_eq]
    exact word 4 (by omega)
  · rw [← header.free_iff, isFree, isFree, flag]
  · rw [← header.next_eq]
    exact word 12 (by omega)

theorem Represents.congr (represented : Represents memory start blocks)
    (agree : Set.EqOn updated memory (headers headerSize start blocks)) :
    Represents updated start blocks := by
  induction blocks generalizing start with
  | nil => trivial
  | cons block blocks ih =>
    refine ⟨represented.1.congr ?_, ih represented.2 ?_⟩
    · exact agree.mono fun _ inside => Or.inl inside
    · exact agree.mono fun _ inside => Or.inr inside

theorem Represents.congr_of_managed (represented : Represents memory start blocks)
    (agree : Set.EqOn updated memory (managed start blocks)) :
    Represents updated start blocks := by
  apply represented.congr
  apply agree.mono
  intro address inside
  refine ⟨headers_bounds inside, ?_⟩
  intro owned
  exact notMem_headers_of_mem_livePayload owned inside

theorem headerAt_putFreeBlock {blockSize : ℕ} (sizeFits : blockSize < 2 ^ 32)
    (followingFits : following < 2 ^ 32) :
    HeaderAt (putFreeBlock memory address blockSize following) address ⟨blockSize, true⟩
      following := by
  constructor
  · simp (disch := omega) only [putFreeBlock, magic, setMagic, setSize, setIsFree, setNext,
      read32_write32_of_disjoint, read32_write8_of_outside, read32_write32_same]
    rfl
  · simp (disch := omega) only [putFreeBlock, size, setSize, setIsFree, setNext,
      read32_write32_of_disjoint, read32_write8_of_outside, read32_write32_same]
    omega
  · simp (disch := omega) only [putFreeBlock, isFree, setSize, setIsFree, setNext,
      write32_apply_of_outside, write8_same]
    decide
  · simp (disch := omega) only [putFreeBlock, next, setNext, read32_write32_same]
    omega

theorem putFreeBlock_eqOn (memory : Memory) (address blockSize following : ℕ) :
    Set.EqOn (putFreeBlock memory address blockSize following) memory
      (range address headerSize)ᶜ := by
  intro location outside
  simp only [mem_compl_range, headerSize] at outside
  simp (disch := omega) only [putFreeBlock, setMagic, setSize, setIsFree, setNext,
    write32_apply_of_outside, write8_apply_of_ne]

theorem takeBlock_of_split (header : HeaderAt memory start block following)
    (split : request + headerSize + 16 < block.size)
    (fits : start + headerSize + block.size ≤ 2 ^ 32) :
    takeBlock memory start request =
      setIsFree (setNext (setSize (putFreeBlock memory (start + headerSize + request)
        (block.size - request - headerSize) following) start request) start
          (start + headerSize + request)) start 0 := by
  simp only [headerSize] at split fits
  have threshold : Word32.add (Word32.add request headerSize) 16 = request + 16 + 16 := by
    simp (disch := omega) only [headerSize, Word32.add_eq]
  have place : Word32.add (Word32.add start headerSize) request = start + headerSize + request := by
    simp (disch := omega) only [headerSize, Word32.add_eq]
  have rest : Word32.sub (Word32.sub block.size request) headerSize =
      block.size - request - headerSize := by
    simp (disch := omega) only [headerSize, Word32.sub_eq]
  simp only [takeBlock, header.size_eq, header.next_eq, threshold, place, rest]
  rw [if_pos (by omega)]

theorem takeBlock_of_not_split (header : HeaderAt memory start block following)
    (whole : ¬request + headerSize + 16 < block.size) (small : request + headerSize + 16 < 2 ^ 32) :
    takeBlock memory start request = setIsFree memory start 0 := by
  have threshold : Word32.add (Word32.add request headerSize) 16 = request + headerSize + 16 := by
    simp only [headerSize] at small ⊢
    simp (disch := omega) only [Word32.add_eq]
  simp only [takeBlock, header.size_eq, threshold]
  rw [if_neg (by omega)]

theorem headerAt_setIsFree {value : UInt8} {free : Bool}
    (header : HeaderAt memory start block following) (flag : value ≠ 0 ↔ free = true) :
    HeaderAt (setIsFree memory start value) start ⟨block.size, free⟩ following := by
  constructor
  · rw [← header.magic_eq]
    simp (disch := omega) only [magic, setIsFree, read32_write8_of_outside]
  · rw [← header.size_eq]
    simp (disch := omega) only [size, setIsFree, read32_write8_of_outside]
  · simpa [isFree, setIsFree] using flag
  · rw [← header.next_eq]
    simp (disch := omega) only [next, setIsFree, read32_write8_of_outside]

theorem setIsFree_eqOn (memory : Memory) (start : ℕ) (value : UInt8) :
    Set.EqOn (setIsFree memory start value) memory (range start headerSize)ᶜ := by
  intro location outside
  simp only [mem_compl_range, headerSize] at outside
  apply write8_apply_of_ne
  omega

theorem headerAt_resize {newSize newNext : ℕ} (header : HeaderAt memory start block following)
    (sizeFits : newSize < 2 ^ 32) (nextFits : newNext < 2 ^ 32) :
    HeaderAt (setNext (setSize memory start newSize) start newNext) start
      ⟨newSize, block.free⟩ newNext := by
  constructor
  · rw [← header.magic_eq]
    simp (disch := omega) only [magic, setSize, setNext, read32_write32_of_disjoint]
  · simp (disch := omega) only [size, setSize, setNext, read32_write32_of_disjoint,
      read32_write32_same]
    omega
  · rw [← header.free_iff]
    simp (disch := omega) only [isFree, setSize, setNext, write32_apply_of_outside]
  · simp (disch := omega) only [next, setNext, read32_write32_same]
    omega

theorem resize_eqOn (memory : Memory) (start newSize newNext : ℕ) :
    Set.EqOn (setNext (setSize memory start newSize) start newNext) memory
      (range start headerSize)ᶜ := by
  intro location outside
  simp only [mem_compl_range, headerSize] at outside
  simp (disch := omega) only [setSize, setNext, write32_apply_of_outside]

theorem shrink_eqOn (memory : Memory) (start newSize newNext : ℕ) :
    Set.EqOn (setIsFree (setNext (setSize memory start newSize) start newNext) start 0) memory
      (range start headerSize)ᶜ :=
  (setIsFree_eqOn _ _ _).trans (resize_eqOn _ _ _ _)

theorem Represents.congr_behind {place : ℕ} (represented : Represents memory place blocks)
    (behind : start + headerSize ≤ place)
    (agree : Set.EqOn updated memory (range start headerSize)ᶜ) :
    Represents updated place blocks := by
  apply represented.congr
  intro location inside
  have bounds := headers_bounds inside
  apply agree
  rw [mem_compl_range]
  omega

theorem takeBlock_eqOn (header : HeaderAt memory start block following)
    (enough : request ≤ block.size) (fits : start + headerSize + block.size < 2 ^ 32)
    (small : headerSize + block.size ≤ heapSize) :
    Set.EqOn (takeBlock memory start request) memory (range start (headerSize + block.size))ᶜ := by
  simp only [heapSize, headerSize] at small
  have inBlock {address : ℕ} (above : start ≤ address) (below : address ≤ start + block.size) :
      (range start (headerSize + block.size))ᶜ ⊆ (range address headerSize)ᶜ :=
    Set.compl_subset_compl.mpr (range_subset_range above (by omega))
  by_cases split : request + headerSize + 16 < block.size
  · rw [takeBlock_of_split header split (by omega)]
    refine ((shrink_eqOn _ _ _ _).mono (inBlock le_rfl (by omega))).trans ?_
    exact (putFreeBlock_eqOn _ _ _ _).mono (inBlock (by omega) (by omega))
  · rw [takeBlock_of_not_split header split (by simp only [headerSize]; omega)]
    exact (setIsFree_eqOn _ _ _).mono (inBlock le_rfl (by omega))

theorem range_head_subset_managed (wasFree : block.free = true) :
    range start (headerSize + block.size) ⊆ managed start (block :: blocks) := by
  intro location inside
  rw [mem_range] at inside
  refine ⟨?_, ?_⟩
  · simp only [mem_range, span]
    omega
  · rw [mem_livePayload_cons, wasFree]
    rintro (⟨used, _⟩ | later)
    · simp at used
    · have bounds := livePayload_bounds later
      omega

theorem represents_split (header : HeaderAt memory start block
      (entry (start + headerSize + block.size) blocks))
    (tail : Represents memory (start + headerSize + block.size) blocks)
    (split : request + headerSize + 16 < block.size)
    (fits : start + headerSize + block.size < 2 ^ 32) :
    Represents (takeBlock memory start request) start
      (⟨request, false⟩ :: ⟨block.size - request - headerSize, true⟩ :: blocks) := by
  rw [takeBlock_of_split header split (by omega)]
  simp only [headerSize] at split fits
  have followingFits : entry (start + headerSize + block.size) blocks < 2 ^ 32 := by
    rw [← header.next_eq]
    exact read32_lt _ _
  have lastPlace : start + headerSize + request + headerSize +
      (block.size - request - headerSize) = start + headerSize + block.size := by
    simp only [headerSize]
    omega
  refine ⟨?_, ?_, ?_⟩
  · rw [entry_cons]
    refine headerAt_setIsFree (headerAt_resize (header.congr ?_) (by omega)
      (by simp only [headerSize]; omega)) (by decide)
    intro location inside
    apply putFreeBlock_eqOn
    simp only [mem_compl_range, mem_range, headerSize] at inside ⊢
    omega
  · rw [lastPlace]
    apply (headerAt_putFreeBlock (by omega) followingFits).congr
    intro location inside
    apply shrink_eqOn
    simp only [mem_compl_range, mem_range, headerSize] at inside ⊢
    omega
  · rw [lastPlace]
    have placed := tail.congr_behind (by simp only [headerSize]; omega)
      (putFreeBlock_eqOn memory (start + headerSize + request) (block.size - request - headerSize)
        (entry (start + headerSize + block.size) blocks))
    exact placed.congr_behind (by omega) (shrink_eqOn _ _ _ _)

theorem takeBlock_represents (represented : Represents memory start (block :: blocks))
    (enough : request ≤ block.size) (fits : start + span headerSize (block :: blocks) < 2 ^ 32)
    (small : span headerSize (block :: blocks) ≤ heapSize) :
    Represents (takeBlock memory start request) start
        (carve headerSize 16 request block ++ blocks) ∧
      request ≤ size (takeBlock memory start request) start := by
  rcases represented with ⟨header, tail⟩
  rw [span] at fits small
  by_cases split : request + headerSize + 16 < block.size
  · simp only [carve, if_pos split, List.cons_append, List.nil_append]
    have after := represents_split header tail split (by omega)
    exact ⟨after, after.1.size_eq.ge⟩
  · simp only [carve, if_neg split, List.cons_append, List.nil_append]
    simp only [heapSize, headerSize] at small
    rw [takeBlock_of_not_split header split (by simp only [headerSize]; omega)]
    have marked := headerAt_setIsFree header (by decide : (0 : UInt8) ≠ 0 ↔ false = true)
    exact ⟨⟨marked, tail.congr_behind (by omega) (setIsFree_eqOn _ _ _)⟩,
      enough.trans marked.size_eq.ge⟩

theorem managed_tail_subset :
    managed (start + headerSize + block.size) blocks ⊆ managed start (block :: blocks) := by
  rintro address ⟨inside, unowned⟩
  simp only [mem_range] at inside
  refine ⟨?_, ?_⟩
  · simp only [mem_range, span]
    omega
  · rw [mem_livePayload_cons, mem_range]
    rintro (⟨_, here⟩ | later)
    · omega
    · exact unowned later

theorem range_start_subset_compl_managed_tail :
    range start headerSize ⊆ (managed (start + headerSize + block.size) blocks)ᶜ := by
  rintro address inside ⟨later, _⟩
  simp only [mem_range] at inside later
  omega

/-- The free block at `place` was taken for `request`, and nothing outside of it changed. -/
structure Takes (memory updated : Memory) (start request pointer : ℕ) (blocks : List Block)
    (place : ℕ × Block) : Prop where
  listed : place ∈ placed headerSize start blocks
  free : place.2.free = true
  fits : request ≤ place.2.size
  pointer_eq : pointer = place.1 + headerSize
  enough : request ≤ size updated place.1
  frame : Set.EqOn updated memory (range place.1 (headerSize + place.2.size))ᶜ

theorem range_subset_managed {place : ℕ × Block} (listed : place ∈ placed headerSize start blocks)
    (free : place.2.free = true) :
    range place.1 (headerSize + place.2.size) ⊆ managed start blocks := by
  induction blocks generalizing start with
  | nil => simp [placed] at listed
  | cons block blocks ih =>
    rw [placed, List.mem_cons] at listed
    rcases listed with rfl | later
    · exact range_head_subset_managed free
    · exact (ih later).trans managed_tail_subset

theorem Takes.eqOn_managed {place : ℕ × Block}
    (takes : Takes memory updated start request pointer blocks place) :
    Set.EqOn updated memory (managed start blocks)ᶜ :=
  takes.frame.mono (Set.compl_subset_compl.mpr (range_subset_managed takes.listed takes.free))

theorem entry_firstFit
    (found : firstFit headerSize 16 request start blocks = some (pointer, result)) :
    entry address result = entry address blocks := by
  cases blocks with
  | nil => simp [firstFit] at found
  | cons block blocks =>
    have nonempty : result ≠ [] := by
      rintro rfl
      have spans := span_firstFit found
      simp only [span, headerSize] at spans
      omega
    simp [entry, nonempty]

theorem kmallocLoop_cons (represented : Represents memory start (block :: blocks))
    (positive : 0 < start) :
    kmallocLoop memory request (fuel + 1) (entry start (block :: blocks)) =
      if block.free = true ∧ request ≤ block.size then
        some (takeBlock memory start request, Word32.add start headerSize)
      else kmallocLoop memory request fuel (entry (start + headerSize + block.size) blocks) := by
  have header := represented.1
  simp [kmallocLoop, header.magic_eq, header.size_eq, header.next_eq, header.free_iff,
    Nat.pos_iff_ne_zero.mp positive]

theorem kmallocLoop_refines (represented : Represents memory start blocks)
    (positive : 0 < start) (fits : start + span headerSize blocks < 2 ^ 32)
    (small : span headerSize blocks ≤ heapSize) (enoughFuel : blocks.length ≤ fuel) :
    match firstFit headerSize 16 request start blocks with
    | none => kmallocLoop memory request fuel (entry start blocks) = some (memory, 0)
    | some (pointer, result) =>
      ∃ updated place,
        kmallocLoop memory request fuel (entry start blocks) = some (updated, pointer) ∧
        Represents updated start result ∧
        Takes memory updated start request pointer blocks place := by
  induction blocks generalizing start fuel with
  | nil => cases fuel <;> simp [firstFit, kmallocLoop]
  | cons block blocks ih =>
    rcases fuel with _ | fuel
    · simp at enoughFuel
    have header := represented.1
    rw [kmallocLoop_cons represented positive]
    by_cases suitable : block.free = true ∧ request ≤ block.size
    · rcases takeBlock_represents represented suitable.2 fits small with ⟨after, enough⟩
      rw [span] at fits small
      have pointerFits : Word32.add start headerSize = start + headerSize :=
        Word32.add_eq (by omega)
      have frame := takeBlock_eqOn header suitable.2 (by omega) (by omega)
      simp only [firstFit, if_pos suitable, pointerFits]
      exact ⟨_, (start, block), rfl, after, List.mem_cons_self, suitable.1, suitable.2, rfl, enough,
        frame⟩
    · simp only [firstFit, if_neg suitable]
      have inner := @ih (start + headerSize + block.size) fuel represented.2 (by omega)
        (by simp only [span] at fits; omega)
        (by simp only [span] at small; omega) (by simpa using enoughFuel)
      cases found : firstFit headerSize 16 request (start + headerSize + block.size) blocks with
      | none =>
        rw [found] at inner
        simpa using inner
      | some pair =>
        rcases pair with ⟨pointer, result⟩
        rw [found] at inner
        rcases inner with ⟨updated, place, run, after, takes⟩
        simp only [Option.map_some]
        refine ⟨updated, place, run, ⟨?_, after⟩,
          { takes with listed := List.mem_cons_of_mem _ takes.listed }⟩
        rw [entry_firstFit found]
        exact header.congr (takes.eqOn_managed.mono range_start_subset_compl_managed_tail)

theorem kfree_eqOn (memory : Memory) {pointer : ℕ} (behind : headerSize ≤ pointer)
    (fits : pointer < 2 ^ 32) :
    Set.EqOn (kfree memory pointer) memory (range (pointer - headerSize) headerSize)ᶜ := by
  have marked := setIsFree_eqOn memory (pointer - headerSize) 1
  simp only [kfree, Word32.sub_eq behind fits]
  split_ifs
  · exact fun _ _ => rfl
  · exact fun _ _ => rfl
  · exact (resize_eqOn _ _ _ _).trans marked
  · exact marked

theorem represents_grow {other : Block}
    (header : HeaderAt memory start block (start + headerSize + block.size))
    (tail : Represents memory (start + headerSize + block.size) (other :: blocks))
    (fits : block.size + headerSize + other.size < 2 ^ 32) :
    Represents
      (setNext (setSize memory start (block.size + headerSize + other.size)) start
        (entry (start + headerSize + block.size + headerSize + other.size) blocks)) start
      (⟨block.size + headerSize + other.size, block.free⟩ :: blocks) := by
  have place : start + headerSize + (block.size + headerSize + other.size) =
      start + headerSize + block.size + headerSize + other.size := by omega
  refine ⟨?_, ?_⟩
  · rw [place]
    apply headerAt_resize header fits
    rw [← tail.1.next_eq]
    exact read32_lt _ _
  · rw [place]
    exact tail.2.congr_behind (by omega) (resize_eqOn _ _ _ _)

theorem kfree_joined {other : Block} {marked merged : Memory}
    (header : HeaderAt marked start block (start + headerSize + block.size))
    (otherHeader : HeaderAt marked (start + headerSize + block.size) other following)
    (fits : block.size + (headerSize + other.size) < 2 ^ 32)
    (isMerged : merged = setSize marked start
      (Word32.add (size marked start) (Word32.add headerSize (size marked (next marked start))))) :
    setNext merged start (next merged (next merged start)) =
      setNext (setSize marked start (block.size + headerSize + other.size)) start following := by
  have total : Word32.add block.size (Word32.add headerSize other.size) =
      block.size + headerSize + other.size := by
    have inner : Word32.add headerSize other.size = headerSize + other.size :=
      Word32.add_eq (by omega)
    rw [inner, Word32.add_eq fits]
    omega
  have ownNext (value : ℕ) : next (setSize marked start value) start =
      start + headerSize + block.size := by
    rw [next, setSize, read32_write32_of_disjoint (by omega)]
    exact header.next_eq
  have otherNext (value : ℕ) :
      next (setSize marked start value) (start + headerSize + block.size) = following := by
    rw [next, setSize, read32_write32_of_disjoint (by simp only [headerSize]; omega)]
    exact otherHeader.next_eq
  rw [header.next_eq, header.size_eq, otherHeader.size_eq, total] at isMerged
  rw [isMerged, ownNext, otherNext]

theorem kfree_head (represented : Represents memory start (block :: blocks))
    (positive : 0 < start) (fits : start + span headerSize (block :: blocks) < 2 ^ 32) :
    Represents (kfree memory (start + headerSize)) start (coalesce headerSize block blocks) := by
  rcases represented with ⟨header, tail⟩
  simp only [span] at fits
  have blockPlace : Word32.sub (start + headerSize) headerSize = start := by
    rw [Word32.sub_eq (by omega) (by omega)]
    omega
  have notNull : start + headerSize ≠ 0 := by omega
  have marked : HeaderAt (setIsFree memory start 1) start ⟨block.size, true⟩ _ :=
    headerAt_setIsFree header (by decide)
  have tailKept := tail.congr_behind (by omega) (setIsFree_eqOn memory start 1)
  rw [kfree, if_neg notNull]
  dsimp only
  rw [blockPlace, if_neg (not_not.mpr header.magic_eq)]
  generalize setIsFree memory start 1 = changed at marked tailKept ⊢
  cases blocks with
  | nil =>
    rw [if_neg (fun linked => linked.1 marked.next_eq)]
    exact ⟨marked, trivial⟩
  | cons other others =>
    have otherHeader := tailKept.1
    rw [entry_cons] at marked
    have linked : next changed start ≠ 0 := by
      rw [marked.next_eq]
      omega
    have joins : next changed start ≠ 0 ∧ isFree changed (next changed start) ≠ 0 ↔
        other.free = true := by
      rw [and_iff_right linked, marked.next_eq, otherHeader.free_iff]
    rw [coalesce]
    by_cases joined : other.free = true
    · simp only [span] at fits
      rw [if_pos (joins.mpr joined), if_pos joined,
        kfree_joined marked otherHeader (by dsimp only; omega) rfl]
      exact represents_grow marked tailKept (by dsimp only; omega)
    · rw [if_neg (fun both => joined (joins.mp both)), if_neg joined]
      refine ⟨?_, tailKept⟩
      rwa [entry_cons]

theorem entry_release :
    entry address (release headerSize pointer start blocks) = entry address blocks := by
  cases blocks with
  | nil => rfl
  | cons block blocks =>
    have nonempty : release headerSize pointer start (block :: blocks) ≠ [] := by
      intro empty
      have spans := @span_release headerSize pointer start (block :: blocks)
      rw [empty] at spans
      simp only [span, headerSize] at spans
      omega
    simp [entry, nonempty]

theorem kfree_refines (represented : Represents memory start blocks)
    (positive : 0 < start) (fits : start + span headerSize blocks < 2 ^ 32)
    (inUse : pointer ∈ livePointers headerSize start blocks) :
    Represents (kfree memory pointer) start (release headerSize pointer start blocks) ∧
      Set.EqOn (kfree memory pointer) memory (managed start blocks)ᶜ := by
  induction blocks generalizing start with
  | nil => exact absurd inUse (Set.notMem_empty pointer)
  | cons block blocks ih =>
    by_cases here : start + headerSize = pointer
    · subst pointer
      have after := kfree_head represented positive fits
      simp only [span] at fits
      have frame := @kfree_eqOn memory (start + headerSize) (by omega) (by omega)
      rw [Nat.add_sub_cancel] at frame
      simp only [release, if_true]
      refine ⟨after, frame.mono (Set.compl_subset_compl.mpr ?_)⟩
      intro location inside
      refine ⟨?_, ?_⟩
      · simp only [mem_range, span] at inside ⊢
        omega
      · exact fun owned => notMem_headers_of_mem_livePayload owned (Or.inl inside)
    · rw [mem_livePointers_cons] at inUse
      have later : pointer ∈ livePointers headerSize (start + headerSize + block.size) blocks := by
        rcases inUse with ⟨_, first⟩ | later
        · omega
        · exact later
      rcases ih represented.2 (by omega) (by simp only [span] at fits; omega) later with
        ⟨after, frame⟩
      simp only [release, if_neg here]
      refine ⟨⟨?_, after⟩, frame.mono (Set.compl_subset_compl.mpr managed_tail_subset)⟩
      rw [entry_release]
      exact represented.1.congr (frame.mono range_start_subset_compl_managed_tail)

def usedBytes : List Block → ℕ
  | [] => 0
  | block :: blocks =>
    (if block.free = true then 0 else block.size + headerSize) + usedBytes blocks

def freeBytes : List Block → ℕ
  | [] => 0
  | block :: blocks => (if block.free = true then block.size else 0) + freeBytes blocks

theorem usedBytes_add_freeBytes (blocks : List Block) :
    usedBytes blocks + freeBytes blocks + headerSize * blocks.countP (·.free) =
      span headerSize blocks := by
  induction blocks with
  | nil => rfl
  | cons block blocks ih =>
    simp only [headerSize] at ih
    cases free : block.free <;>
      simp only [usedBytes, freeBytes, span, headerSize, List.countP_cons, free, if_true,
        Bool.false_eq_true, if_false] <;> omega

theorem heapGetUsedLoop_eq {used : ℕ} (represented : Represents memory start blocks)
    (positive : 0 < start) (fits : used + span headerSize blocks < 2 ^ 32)
    (enoughFuel : blocks.length ≤ fuel) :
    heapGetUsedLoop memory fuel used (entry start blocks) = some (used + usedBytes blocks) := by
  induction blocks generalizing start fuel used with
  | nil => cases fuel <;> simp [heapGetUsedLoop, usedBytes]
  | cons block blocks ih =>
    rcases fuel with _ | fuel
    · simp at enoughFuel
    have header := represented.1
    simp only [span] at fits
    have counted : (if isFree memory start = 0 then
        Word32.add used (Word32.add (size memory start) headerSize) else used) =
        used + if block.free = true then 0 else block.size + headerSize := by
      have inner : Word32.add block.size headerSize = block.size + headerSize :=
        Word32.add_eq (by omega)
      have flag := header.free_iff
      cases free : block.free
      · have clear : isFree memory start = 0 := by simpa [free] using flag
        rw [if_pos clear, header.size_eq, inner, Word32.add_eq (by omega)]
        simp
      · have set : isFree memory start ≠ 0 := by simpa [free] using flag
        rw [if_neg set]
        simp
    have step := @ih (start + headerSize + block.size) fuel
      (used + if block.free = true then 0 else block.size + headerSize) represented.2
      (by omega) (by split <;> omega) (by simpa using enoughFuel)
    rw [entry_cons, heapGetUsedLoop, if_neg (by omega), counted, header.next_eq, step, usedBytes,
      Nat.add_assoc]

theorem heapGetFreeLoop_eq {free : ℕ} (represented : Represents memory start blocks)
    (positive : 0 < start) (fits : free + span headerSize blocks < 2 ^ 32)
    (enoughFuel : blocks.length ≤ fuel) :
    heapGetFreeLoop memory fuel free (entry start blocks) = some (free + freeBytes blocks) := by
  induction blocks generalizing start fuel free with
  | nil => cases fuel <;> simp [heapGetFreeLoop, freeBytes]
  | cons block blocks ih =>
    rcases fuel with _ | fuel
    · simp at enoughFuel
    have header := represented.1
    simp only [span] at fits
    have counted : (if isFree memory start ≠ 0 then Word32.add free (size memory start)
        else free) = free + if block.free = true then block.size else 0 := by
      rw [header.size_eq, Word32.add_eq (by omega)]
      by_cases set : block.free = true
      · rw [if_pos (header.free_iff.mpr set), if_pos set]
      · rw [if_neg (fun flag => set (header.free_iff.mp flag)), if_neg set, Nat.add_zero]
    have step := @ih (start + headerSize + block.size) fuel
      (free + if block.free = true then block.size else 0) represented.2
      (by omega) (by split <;> omega) (by simpa using enoughFuel)
    rw [entry_cons, heapGetFreeLoop, if_neg (by omega), counted, header.next_eq, step, freeBytes,
      Nat.add_assoc]

end RamOS.Heap
