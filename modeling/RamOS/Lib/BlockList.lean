import Mathlib.Data.List.Chain
import RamOS.Lib.Memory

/-!
# First-fit allocation over a list of adjacent blocks

A stretch of memory is cut into adjacent blocks, each with a header of `header` bytes and a
payload of `size` bytes, free or in use.

`firstFit` takes the first free block that is large enough and cuts off the rest when more than
`slack` payload bytes would remain. `release` frees the block with a given payload address and
joins it with its successor when that one is free.
-/

namespace BlockList

open ByteMemory

structure Block where
  size : ℕ
  free : Bool
deriving DecidableEq, Repr

def span (header : ℕ) : List Block → ℕ
  | [] => 0
  | block :: blocks => header + block.size + span header blocks

/-- Payload addresses of the blocks in use, for a list that begins at `start`. -/
def livePointers (header : ℕ) : ℕ → List Block → Set ℕ
  | _, [] => ∅
  | start, block :: blocks =>
    {pointer | block.free = false ∧ pointer = start + header} ∪
      livePointers header (start + header + block.size) blocks

def livePayload (header : ℕ) : ℕ → List Block → Set ℕ
  | _, [] => ∅
  | start, block :: blocks =>
    {address | block.free = false ∧ address ∈ range (start + header) block.size} ∪
      livePayload header (start + header + block.size) blocks

def headers (header : ℕ) : ℕ → List Block → Set ℕ
  | _, [] => ∅
  | start, block :: blocks =>
    range start header ∪ headers header (start + header + block.size) blocks

def placed (header : ℕ) : ℕ → List Block → List (ℕ × Block)
  | _, [] => []
  | start, block :: blocks => (start, block) :: placed header (start + header + block.size) blocks

/-- A free block turned into a used one of at least `request` bytes. -/
def carve (header slack request : ℕ) (block : Block) : List Block :=
  if request + header + slack < block.size then
    [⟨request, false⟩, ⟨block.size - request - header, true⟩]
  else [⟨block.size, false⟩]

def firstFit (header slack request : ℕ) : ℕ → List Block → Option (ℕ × List Block)
  | _, [] => none
  | start, block :: blocks =>
    if block.free = true ∧ request ≤ block.size then
      some (start + header, carve header slack request block ++ blocks)
    else
      (firstFit header slack request (start + header + block.size) blocks).map
        fun result => (result.1, block :: result.2)

/-- A block that becomes free, joined with a free successor. -/
def coalesce (header : ℕ) (block : Block) : List Block → List Block
  | [] => [⟨block.size, true⟩]
  | following :: blocks =>
    if following.free = true then ⟨block.size + header + following.size, true⟩ :: blocks
    else ⟨block.size, true⟩ :: following :: blocks

def release (header pointer : ℕ) : ℕ → List Block → List Block
  | _, [] => []
  | start, block :: blocks =>
    if start + header = pointer then coalesce header block blocks
    else block :: release header pointer (start + header + block.size) blocks

variable {header slack request pointer start address align : ℕ} {block : Block}
  {blocks result : List Block}

@[simp]
theorem mem_livePointers_cons : pointer ∈ livePointers header start (block :: blocks) ↔
    (block.free = false ∧ pointer = start + header) ∨
      pointer ∈ livePointers header (start + header + block.size) blocks := Iff.rfl

@[simp]
theorem mem_livePayload_cons : address ∈ livePayload header start (block :: blocks) ↔
    (block.free = false ∧ address ∈ range (start + header) block.size) ∨
      address ∈ livePayload header (start + header + block.size) blocks := Iff.rfl

@[simp]
theorem mem_headers_cons : address ∈ headers header start (block :: blocks) ↔
    address ∈ range start header ∨
      address ∈ headers header (start + header + block.size) blocks := Iff.rfl

@[simp]
theorem span_append (left right : List Block) :
    span header (left ++ right) = span header left + span header right := by
  induction left with
  | nil => simp [span]
  | cons block left ih =>
    simp only [List.cons_append, span, ih]
    omega

theorem livePointers_bounds (inUse : pointer ∈ livePointers header start blocks) :
    start + header ≤ pointer ∧ pointer ≤ start + span header blocks := by
  induction blocks generalizing start with
  | nil => exact absurd inUse (Set.notMem_empty pointer)
  | cons block blocks ih =>
    rw [mem_livePointers_cons] at inUse
    simp only [span]
    rcases inUse with ⟨_, here⟩ | later
    · omega
    · have bounds := ih later
      omega

theorem livePayload_bounds (owned : address ∈ livePayload header start blocks) :
    start + header ≤ address ∧ address < start + span header blocks := by
  induction blocks generalizing start with
  | nil => exact absurd owned (Set.notMem_empty address)
  | cons block blocks ih =>
    rw [mem_livePayload_cons, mem_range] at owned
    simp only [span]
    rcases owned with ⟨_, here⟩ | later
    · omega
    · have bounds := ih later
      omega

theorem headers_bounds (inside : address ∈ headers header start blocks) :
    start ≤ address ∧ address < start + span header blocks := by
  induction blocks generalizing start with
  | nil => exact absurd inside (Set.notMem_empty address)
  | cons block blocks ih =>
    rw [mem_headers_cons, mem_range] at inside
    simp only [span]
    rcases inside with here | later
    · omega
    · have bounds := ih later
      omega

theorem placed_bounds {place : ℕ × Block} (member : place ∈ placed header start blocks) :
    start ≤ place.1 ∧ place.1 + header + place.2.size ≤ start + span header blocks := by
  induction blocks generalizing start with
  | nil => simp [placed] at member
  | cons block blocks ih =>
    simp only [placed, List.mem_cons] at member
    simp only [span]
    rcases member with rfl | later
    · dsimp only
      omega
    · have bounds := ih later
      omega

theorem mem_of_mem_placed {place : ℕ × Block} (member : place ∈ placed header start blocks) :
    place.2 ∈ blocks := by
  induction blocks generalizing start with
  | nil => simp [placed] at member
  | cons block blocks ih =>
    simp only [placed, List.mem_cons] at member ⊢
    rcases member with rfl | later
    · exact Or.inl rfl
    · exact Or.inr (ih later)

theorem exists_mem_placed (start : ℕ) (listed : block ∈ blocks) :
    ∃ address, (address, block) ∈ placed header start blocks := by
  induction blocks generalizing start with
  | nil => simp at listed
  | cons first blocks ih =>
    rcases List.mem_cons.mp listed with rfl | later
    · exact ⟨start, List.mem_cons_self⟩
    · rcases ih (start + header + first.size) later with ⟨address, member⟩
      exact ⟨address, List.mem_cons_of_mem _ member⟩

theorem placed_ordered {left right : ℕ × Block} (leftMem : left ∈ placed header start blocks)
    (rightMem : right ∈ placed header start blocks) (before : left.1 < right.1) :
    left.1 + header + left.2.size ≤ right.1 := by
  induction blocks generalizing start with
  | nil => simp [placed] at leftMem
  | cons block blocks ih =>
    simp only [placed, List.mem_cons] at leftMem rightMem
    rcases leftMem with rfl | leftLater
    · rcases rightMem with rfl | rightLater
      · exact absurd before (lt_irrefl _)
      · exact (placed_bounds rightLater).1
    · rcases rightMem with rfl | rightLater
      · have bounds := placed_bounds leftLater
        dsimp only at before
        omega
      · exact ih leftLater rightLater

theorem mem_livePointers_iff : pointer ∈ livePointers header start blocks ↔
    ∃ place ∈ placed header start blocks, place.2.free = false ∧ pointer = place.1 + header := by
  induction blocks generalizing start with
  | nil => simp [livePointers, placed]
  | cons block blocks ih => simp [placed, ih]

theorem notMem_headers_of_mem_livePayload (owned : address ∈ livePayload header start blocks) :
    address ∉ headers header start blocks := by
  induction blocks generalizing start with
  | nil => exact absurd owned (Set.notMem_empty address)
  | cons block blocks ih =>
    rw [mem_livePayload_cons, mem_range] at owned
    rw [mem_headers_cons, mem_range, not_or]
    rcases owned with ⟨_, here⟩ | later
    · refine ⟨by omega, ?_⟩
      intro inHeader
      have bounds := headers_bounds inHeader
      omega
    · have bounds := livePayload_bounds later
      exact ⟨by omega, ih later⟩

@[simp]
theorem span_carve (block : Block) :
    span header (carve header slack request block) = header + block.size := by
  by_cases split : request + header + slack < block.size
  · simp only [carve, if_pos split, span]
    omega
  · simp [carve, if_neg split, span]

@[simp]
theorem span_coalesce (block : Block) (blocks : List Block) :
    span header (coalesce header block blocks) = header + block.size + span header blocks := by
  cases blocks with
  | nil => simp [coalesce, span]
  | cons following blocks =>
    by_cases joined : following.free = true
    · simp only [coalesce, if_pos joined, span]
      omega
    · simp [coalesce, joined, span]

theorem firstFit_cons_cases
    (found : firstFit header slack request start (block :: blocks) = some (pointer, result)) :
    (block.free = true ∧ request ≤ block.size) ∧ pointer = start + header ∧
        result = carve header slack request block ++ blocks ∨
      ∃ rest, firstFit header slack request (start + header + block.size) blocks =
        some (pointer, rest) ∧ result = block :: rest := by
  rw [firstFit] at found
  split at found
  next suitable =>
    rw [Option.some.injEq, Prod.mk.injEq] at found
    exact Or.inl ⟨suitable, found.1.symm, found.2.symm⟩
  next =>
    rcases Option.map_eq_some_iff.mp found with ⟨⟨place, rest⟩, inner, same⟩
    rw [Prod.mk.injEq] at same
    rcases same with ⟨rfl, rfl⟩
    exact Or.inr ⟨rest, inner, rfl⟩

theorem firstFit_eq_none_iff : firstFit header slack request start blocks = none ↔
    ∀ block ∈ blocks, ¬ (block.free = true ∧ request ≤ block.size) := by
  induction blocks generalizing start with
  | nil => simp [firstFit]
  | cons block blocks ih =>
    rw [firstFit, List.forall_mem_cons]
    split
    next suitable => simp [suitable]
    next unsuited => simp only [Option.map_eq_none_iff, ih, unsuited, not_false_eq_true, true_and]

theorem firstFit_split
    (found : firstFit header slack request start blocks = some (pointer, result)) :
    ∃ left block right, blocks = left ++ block :: right ∧
      (∀ earlier ∈ left, ¬ (earlier.free = true ∧ request ≤ earlier.size)) ∧
      block.free = true ∧ request ≤ block.size ∧ pointer = start + span header left + header := by
  induction blocks generalizing start result with
  | nil => simp [firstFit] at found
  | cons block blocks ih =>
    by_cases suitable : block.free = true ∧ request ≤ block.size
    · rw [firstFit, if_pos suitable, Option.some.injEq, Prod.mk.injEq] at found
      exact ⟨[], block, blocks, rfl, by simp, suitable.1, suitable.2, by simp [span, found.1]⟩
    · rcases firstFit_cons_cases found with ⟨taken, _⟩ | ⟨rest, inner, _⟩
      · exact absurd taken suitable
      · rcases ih inner with ⟨left, chosen, right, rfl, earlier, free, enough, place⟩
        refine ⟨block :: left, chosen, right, rfl, ?_, free, enough, ?_⟩
        · exact List.forall_mem_cons.mpr ⟨suitable, earlier⟩
        · rw [place, span]
          omega

theorem placed_append (left right : List Block) :
    placed header start (left ++ right) =
      placed header start left ++ placed header (start + span header left) right := by
  induction left generalizing start with
  | nil => simp [placed, span]
  | cons block left ih =>
    have place : start + header + block.size + span header left =
        start + (header + block.size + span header left) := by omega
    rw [List.cons_append, placed, placed, ih, List.cons_append, span, place]

theorem mem_placed_middle (left right : List Block) :
    (start + span header left, block) ∈ placed header start (left ++ block :: right) := by
  rw [placed_append]
  exact List.mem_append_right _ List.mem_cons_self

theorem span_firstFit
    (found : firstFit header slack request start blocks = some (pointer, result)) :
    span header result = span header blocks := by
  induction blocks generalizing start result with
  | nil => simp [firstFit] at found
  | cons block blocks ih =>
    rcases firstFit_cons_cases found with ⟨_, _, rfl⟩ | ⟨rest, inner, rfl⟩
    · rw [span_append, span_carve, span]
    · simp only [span, ih inner]

theorem span_release : span header (release header pointer start blocks) = span header blocks := by
  induction blocks generalizing start with
  | nil => rfl
  | cons block blocks ih =>
    by_cases here : start + header = pointer
    · simp only [release, if_pos here, span_coalesce, span]
    · simp only [release, if_neg here, span, ih]

theorem mem_placed_firstFit {place : ℕ × Block} (used : place.2.free = false)
    (member : place ∈ placed header start blocks)
    (found : firstFit header slack request start blocks = some (pointer, result)) :
    place ∈ placed header start result := by
  induction blocks generalizing start result with
  | nil => simp [firstFit] at found
  | cons block blocks ih =>
    rcases List.mem_cons.mp member with rfl | later
    · rcases firstFit_cons_cases found with ⟨⟨free, _⟩, _⟩ | ⟨rest, _, rfl⟩
      · cases used.symm.trans free
      · exact List.mem_cons_self
    · rcases firstFit_cons_cases found with ⟨_, _, rfl⟩ | ⟨rest, foundRest, rfl⟩
      · rw [placed_append, span_carve, ← Nat.add_assoc]
        exact List.mem_append_right _ later
      · exact List.mem_cons_of_mem _ (ih later foundRest)

theorem dvd_size_firstFit (headerGrain : align ∣ header) (requestGrain : align ∣ request)
    (grain : ∀ block ∈ blocks, align ∣ block.size)
    (found : firstFit header slack request start blocks = some (pointer, result)) :
    ∀ block ∈ result, align ∣ block.size := by
  induction blocks generalizing start result with
  | nil => simp [firstFit] at found
  | cons block blocks ih =>
    have blockGrain : align ∣ block.size := grain block (by simp)
    rcases firstFit_cons_cases found with ⟨_, _, rfl⟩ | ⟨rest, inner, rfl⟩
    · intro candidate member
      rcases List.mem_append.mp member with carved | kept
      · by_cases split : request + header + slack < block.size
        · simp only [carve, if_pos split, List.mem_cons, List.not_mem_nil, or_false] at carved
          rcases carved with rfl | rfl
          · exact requestGrain
          · exact Nat.dvd_sub (Nat.dvd_sub blockGrain requestGrain) headerGrain
        · simp only [carve, if_neg split, List.mem_singleton] at carved
          subst candidate
          exact blockGrain
      · exact grain candidate (by simp [kept])
    · intro candidate member
      rcases List.mem_cons.mp member with rfl | later
      · exact blockGrain
      · exact ih (fun other otherMem => grain other (by simp [otherMem])) inner candidate later

theorem dvd_size_release (headerGrain : align ∣ header)
    (grain : ∀ block ∈ blocks, align ∣ block.size) :
    ∀ block ∈ release header pointer start blocks, align ∣ block.size := by
  induction blocks generalizing start with
  | nil => simp [release]
  | cons block blocks ih =>
    have blockGrain : align ∣ block.size := grain block (by simp)
    by_cases here : start + header = pointer
    · simp only [release, if_pos here]
      cases blocks with
      | nil => simpa [coalesce] using blockGrain
      | cons following blocks =>
        have followingGrain : align ∣ following.size := grain following (by simp)
        intro candidate member
        by_cases joined : following.free = true
        · simp only [coalesce, if_pos joined, List.mem_cons] at member
          rcases member with rfl | kept
          · exact Nat.dvd_add (Nat.dvd_add blockGrain headerGrain) followingGrain
          · exact grain candidate (by simp [kept])
        · simp only [coalesce, if_neg joined, List.mem_cons] at member
          rcases member with rfl | rfl | kept
          · exact blockGrain
          · exact followingGrain
          · exact grain candidate (by simp [kept])
    · simp only [release, if_neg here]
      intro candidate member
      rcases List.mem_cons.mp member with rfl | later
      · exact blockGrain
      · exact ih (fun other otherMem => grain other (by simp [otherMem])) candidate later

theorem mem_livePointers_carve_append (wasFree : block.free = true) :
    address ∈ livePointers header start (carve header slack request block ++ blocks) ↔
      address = start + header ∨ address ∈ livePointers header start (block :: blocks) := by
  by_cases split : request + header + slack < block.size
  · have place : start + header + request + header + (block.size - request - header) =
        start + header + block.size := by omega
    simp only [carve, if_pos split, List.cons_append, List.nil_append, mem_livePointers_cons,
      wasFree, place, Bool.true_eq_false, false_and, false_or, true_and]
  · simp only [carve, if_neg split, List.cons_append, List.nil_append, mem_livePointers_cons,
      wasFree, Bool.true_eq_false, false_and, false_or, true_and]

theorem livePointers_firstFit (positive : 0 < header)
    (found : firstFit header slack request start blocks = some (pointer, result)) :
    pointer ∉ livePointers header start blocks ∧
      livePointers header start result = insert pointer (livePointers header start blocks) := by
  induction blocks generalizing start result with
  | nil => simp [firstFit] at found
  | cons block blocks ih =>
    rcases firstFit_cons_cases found with ⟨suitable, rfl, rfl⟩ | ⟨rest, inner, rfl⟩
    · refine ⟨?_, Set.ext fun candidate => ?_⟩
      · rw [mem_livePointers_cons]
        rintro (⟨used, _⟩ | later)
        · simp [suitable.1] at used
        · have bounds := livePointers_bounds later
          omega
      · rw [mem_livePointers_carve_append suitable.1, Set.mem_insert_iff]
    · rcases ih inner with ⟨fresh, after⟩
      have below : start + header < pointer := by
        have member : pointer ∈ livePointers header (start + header + block.size) rest := by
          rw [after]
          exact Set.mem_insert pointer _
        have bounds := livePointers_bounds member
        omega
      refine ⟨?_, Set.ext fun candidate => ?_⟩
      · rw [mem_livePointers_cons]
        rintro (⟨_, here⟩ | later)
        · omega
        · exact fresh later
      · rw [mem_livePointers_cons, after, Set.mem_insert_iff, Set.mem_insert_iff,
          mem_livePointers_cons]
        exact or_left_comm

theorem livePayload_carve_append (wasFree : block.free = true) (enough : request ≤ block.size) :
    ∃ granted, request ≤ granted ∧ granted ≤ block.size ∧
      livePayload header start (carve header slack request block ++ blocks) =
        livePayload header start (block :: blocks) ∪ range (start + header) granted := by
  by_cases split : request + header + slack < block.size
  · have place : start + header + request + header + (block.size - request - header) =
        start + header + block.size := by omega
    refine ⟨request, le_rfl, enough, Set.ext fun address => ?_⟩
    simp only [carve, if_pos split, List.cons_append, List.nil_append, Set.mem_union,
      mem_livePayload_cons, wasFree, place, Bool.true_eq_false, false_and, false_or, true_and]
    exact or_comm
  · refine ⟨block.size, enough, le_rfl, Set.ext fun address => ?_⟩
    simp only [carve, if_neg split, List.cons_append, List.nil_append, Set.mem_union,
      mem_livePayload_cons, wasFree, Bool.true_eq_false, false_and, false_or, true_and]
    exact or_comm

/-- An allocation hands out bytes that nobody owned, at least as many as requested. -/
theorem livePayload_firstFit
    (found : firstFit header slack request start blocks = some (pointer, result)) :
    ∃ granted, request ≤ granted ∧
      livePayload header start result =
        livePayload header start blocks ∪ range pointer granted ∧
      Disjoint (livePayload header start blocks) (range pointer granted) ∧
      start + header ≤ pointer ∧ pointer + granted ≤ start + span header blocks := by
  induction blocks generalizing start result with
  | nil => simp [firstFit] at found
  | cons block blocks ih =>
    rcases firstFit_cons_cases found with ⟨suitable, rfl, rfl⟩ | ⟨rest, inner, rfl⟩
    · rcases @livePayload_carve_append header slack request start _ blocks suitable.1 suitable.2
        with ⟨granted, enough, inside, after⟩
      refine ⟨granted, enough, after, ?_, le_rfl, ?_⟩
      · rw [Set.disjoint_left]
        intro address owned inRange
        rw [mem_livePayload_cons, suitable.1] at owned
        rw [mem_range] at inRange
        rcases owned with ⟨used, _⟩ | later
        · simp at used
        · have bounds := livePayload_bounds later
          omega
      · simp only [span]
        omega
    · rcases ih inner with ⟨granted, enough, after, apart, lower, upper⟩
      refine ⟨granted, enough, Set.ext fun address => ?_, ?_, by omega, ?_⟩
      · rw [mem_livePayload_cons, after, Set.mem_union, Set.mem_union, mem_livePayload_cons,
          or_assoc]
      · rw [Set.disjoint_left] at apart ⊢
        intro address owned inRange
        rw [mem_livePayload_cons, mem_range] at owned
        rcases owned with ⟨_, here⟩ | later
        · rw [mem_range] at inRange
          omega
        · exact apart later inRange
      · simp only [span]
        omega

theorem mem_livePointers_coalesce :
    address ∈ livePointers header start (coalesce header block blocks) ↔
      address ∈ livePointers header (start + header + block.size) blocks := by
  cases blocks with
  | nil => simp [coalesce]
  | cons following blocks =>
    by_cases joined : following.free = true
    · have place : start + header + (block.size + header + following.size) =
          start + header + block.size + header + following.size := by omega
      simp [coalesce, joined, place]
    · simp [coalesce, joined]

theorem livePointers_release (positive : 0 < header)
    (inUse : pointer ∈ livePointers header start blocks) :
    livePointers header start (release header pointer start blocks) =
      livePointers header start blocks \ {pointer} := by
  induction blocks generalizing start with
  | nil => exact absurd inUse (Set.notMem_empty pointer)
  | cons block blocks ih =>
    refine Set.ext fun candidate => ?_
    by_cases here : start + header = pointer
    · simp only [release, if_pos here]
      rw [mem_livePointers_coalesce, Set.mem_sdiff, Set.mem_singleton_iff, mem_livePointers_cons]
      constructor
      · intro later
        have bounds := livePointers_bounds later
        exact ⟨Or.inr later, by omega⟩
      · rintro ⟨⟨_, first⟩ | later, distinct⟩
        · omega
        · exact later
    · simp only [release, if_neg here]
      rw [mem_livePointers_cons] at inUse
      have later : pointer ∈ livePointers header (start + header + block.size) blocks := by
        rcases inUse with ⟨_, first⟩ | later
        · omega
        · exact later
      rw [mem_livePointers_cons, ih later, Set.mem_sdiff, Set.mem_sdiff, Set.mem_singleton_iff,
        mem_livePointers_cons]
      constructor
      · rintro (⟨used, first⟩ | ⟨kept, distinct⟩)
        · exact ⟨Or.inl ⟨used, first⟩, by omega⟩
        · exact ⟨Or.inr kept, distinct⟩
      · rintro ⟨first | kept, distinct⟩
        · exact Or.inl first
        · exact Or.inr ⟨kept, distinct⟩

def Separated (blocks : List Block) : Prop :=
  blocks.IsChain fun block following => ¬(block.free = true ∧ following.free = true)

theorem separated_cons_cons {following : Block} : Separated (block :: following :: blocks) ↔
    ¬(block.free = true ∧ following.free = true) ∧ Separated (following :: blocks) :=
  List.isChain_cons_cons

theorem Separated.of_cons (separated : Separated (block :: blocks)) : Separated blocks := by
  cases blocks with
  | nil => exact List.isChain_nil
  | cons following blocks => exact (separated_cons_cons.mp separated).2

theorem Separated.replace_head {other : Block} (separated : Separated (block :: blocks))
    (flag : other.free = true → block.free = true) : Separated (other :: blocks) := by
  cases blocks with
  | nil => exact List.isChain_singleton other
  | cons following blocks =>
    rw [separated_cons_cons] at separated ⊢
    exact ⟨fun both => separated.1 ⟨flag both.1, both.2⟩, separated.2⟩

theorem separated_cons_firstFit (separated : Separated (block :: blocks))
    (found : firstFit header slack request start blocks = some (pointer, result)) :
    Separated (block :: result) := by
  induction blocks generalizing block start result with
  | nil => simp [firstFit] at found
  | cons following blocks ih =>
    rw [separated_cons_cons] at separated
    rcases firstFit_cons_cases found with ⟨suitable, -, rfl⟩ | ⟨rest, inner, rfl⟩
    · by_cases split : request + header + slack < following.size
      · have behind := @separated.2.replace_head _ _
          ⟨following.size - request - header, true⟩ (fun _ => suitable.1)
        simp [carve, split, separated_cons_cons, behind]
      · have behind := @separated.2.replace_head _ _ ⟨following.size, false⟩ (by simp)
        simp [carve, split, separated_cons_cons, behind]
    · exact separated_cons_cons.mpr ⟨separated.1, ih separated.2 inner⟩

theorem separated_firstFit (separated : Separated blocks)
    (found : firstFit header slack request start blocks = some (pointer, result)) :
    Separated result := by
  have fenced : Separated (⟨0, false⟩ :: blocks) := by
    cases blocks with
    | nil => exact List.isChain_singleton _
    | cons first blocks => exact separated_cons_cons.mpr ⟨by simp, separated⟩
  exact (separated_cons_firstFit fenced found).of_cons

theorem release_carve (separated : Separated (block :: blocks)) (wasFree : block.free = true) :
    release header (start + header) start (carve header slack request block ++ blocks) =
      block :: blocks := by
  have same : block = ⟨block.size, true⟩ := by rw [← wasFree]
  by_cases split : request + header + slack < block.size
  · have size : request + header + (block.size - request - header) = block.size := by omega
    simp only [carve, if_pos split, List.cons_append, List.nil_append, release, if_true, coalesce,
      size]
    rw [← same]
  · simp only [carve, if_neg split, List.cons_append, List.nil_append, release, if_true]
    cases blocks with
    | nil => rw [coalesce, ← same]
    | cons following blocks =>
      have used : ¬following.free = true := fun free =>
        (separated_cons_cons.mp separated).1 ⟨wasFree, free⟩
      rw [coalesce, if_neg used, ← same]

/-- Where no two free blocks are neighbours, freeing the block that was just allocated restores
the list. -/
theorem release_firstFit (positive : 0 < header) (separated : Separated blocks)
    (found : firstFit header slack request start blocks = some (pointer, result)) :
    release header pointer start result = blocks := by
  induction blocks generalizing start result with
  | nil => simp [firstFit] at found
  | cons block blocks ih =>
    rcases firstFit_cons_cases found with ⟨suitable, rfl, rfl⟩ | ⟨rest, inner, rfl⟩
    · exact release_carve separated suitable.1
    · have behind : start + header ≠ pointer := by
        have member : pointer ∈ livePointers header (start + header + block.size) rest := by
          rw [(livePointers_firstFit positive inner).2]
          exact Set.mem_insert pointer _
        have bounds := livePointers_bounds member
        omega
      rw [release, if_neg behind, ih separated.of_cons inner]

end BlockList
