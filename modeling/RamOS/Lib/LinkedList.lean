import Mathlib.Data.List.Basic
import Mathlib.Data.List.Pairwise
import RamOS.Lib.Memory

/-!
# Linked lists in memory

A list of blocks of `size` bytes, each of which holds the address of the following one in the
word at the offset `next`; the null pointer ends the list. Storing into the cell behind a
segment redirects the segment and leaves the rest of the list as it is.
-/

namespace LinkedList

open ByteMemory

variable {next size : ℕ} {memory : Memory} {pointer last : ℕ} {blocks left right : List ℕ}

def Segment (next : ℕ) (memory : Memory) : ℕ → List ℕ → ℕ → Prop
  | pointer, [], last => pointer = last
  | pointer, block :: blocks, last =>
    pointer = block ∧ block ≠ 0 ∧ Segment next memory (read32 memory (block + next)) blocks last

def Apart (size : ℕ) (blocks : List ℕ) : Prop :=
  blocks.Pairwise fun one two => Disjoint (range one size) (range two size)

def bytes (size : ℕ) (blocks : List ℕ) : Set ℕ :=
  { location | ∃ block ∈ blocks, location ∈ range block size }

variable {block : ℕ} {changed : Memory}

theorem range_subset_bytes (listed : block ∈ blocks) :
    range block size ⊆ bytes size blocks := fun _ inside => ⟨block, listed, inside⟩

/-- The loop over the blocks of a list, for at most `fuel` pointers. -/
def blocksFrom (next : ℕ) (memory : Memory) : ℕ → ℕ → Option (List ℕ)
  | 0, _ => none
  | fuel + 1, pointer =>
    if pointer = 0 then some []
    else (blocksFrom next memory fuel (read32 memory (pointer + next))).map (pointer :: ·)

/-- The pointer in a cell: the variable with the first one, or a word in memory. -/
def loadCell (memory : Memory) (head : ℕ) : Option ℕ → ℕ
  | none => head
  | some address => read32 memory address

def storeCell (memory : Memory) (head : ℕ) (value : ℕ) : Option ℕ → Memory × ℕ
  | none => (memory, value)
  | some address => (write32 memory address value, head)

def lastCell (next : ℕ) (blocks : List ℕ) : Option ℕ := blocks.getLast?.map (· + next)

@[simp]
theorem lastCell_concat (block : ℕ) : lastCell next (left ++ [block]) = some (block + next) := by
  rw [lastCell, List.getLast?_concat, Option.map_some]

theorem segment_append : Segment next memory pointer (left ++ right) last ↔
    ∃ middle, Segment next memory pointer left middle ∧ Segment next memory middle right last := by
  induction left generalizing pointer with
  | nil => simp [Segment]
  | cons block left ih =>
    simp only [List.cons_append, Segment, ih]
    constructor
    · rintro ⟨here, nonnull, middle, before, after⟩
      exact ⟨middle, ⟨here, nonnull, before⟩, after⟩
    · rintro ⟨middle, ⟨here, nonnull, before⟩, after⟩
      exact ⟨here, nonnull, middle, before, after⟩

theorem Segment.congr (segment : Segment next memory pointer blocks last)
    (agree : ∀ block ∈ blocks, read32 changed (block + next) = read32 memory (block + next)) :
    Segment next changed pointer blocks last := by
  induction blocks generalizing pointer with
  | nil => exact segment
  | cons block blocks ih =>
    refine ⟨segment.1, segment.2.1, ?_⟩
    rw [agree block List.mem_cons_self]
    exact ih segment.2.2 fun block listed => agree block (List.mem_cons_of_mem _ listed)

theorem Segment.ne_zero (segment : Segment next memory pointer blocks last)
    (listed : block ∈ blocks) : block ≠ 0 := by
  rcases List.append_of_mem listed with ⟨left, right, rfl⟩
  rcases segment_append.mp segment with ⟨_, _, _, nonnull, _⟩
  exact nonnull

theorem Segment.blocksFrom (segment : Segment next memory pointer blocks 0) {fuel : ℕ}
    (enough : blocks.length < fuel) : blocksFrom next memory fuel pointer = some blocks := by
  induction blocks generalizing pointer fuel with
  | nil =>
    rcases fuel with _ | fuel
    · omega
    exact if_pos segment
  | cons block blocks ih =>
    rw [List.length_cons] at enough
    rcases fuel with _ | fuel
    · omega
    rcases segment with ⟨rfl, nonnull, rest⟩
    rw [LinkedList.blocksFrom, if_neg nonnull, ih rest (by omega), Option.map_some]

theorem Segment.eq_of_blocksFrom (segment : Segment next memory pointer blocks 0) {fuel : ℕ}
    {found : List ℕ} (run : LinkedList.blocksFrom next memory fuel pointer = some found) :
    found = blocks := by
  induction fuel generalizing pointer blocks found with
  | zero => cases run
  | succ fuel ih =>
    rw [LinkedList.blocksFrom] at run
    cases blocks with
    | nil =>
      have isNull : pointer = 0 := segment
      rw [if_pos isNull, Option.some.injEq] at run
      exact run.symm
    | cons block blocks =>
      rcases segment with ⟨rfl, nonnull, rest⟩
      rw [if_neg nonnull] at run
      rcases Option.map_eq_some_iff.mp run with ⟨later, runLater, rfl⟩
      rw [ih rest runLater]

theorem Segment.loadCell (segment : Segment next memory pointer left last) :
    loadCell memory pointer (lastCell next left) = last := by
  rcases left.eq_nil_or_concat' with rfl | ⟨before, block, rfl⟩
  · exact segment
  · rcases segment_append.mp segment with ⟨middle, _, _, _, isLast⟩
    rw [lastCell_concat]
    exact isLast

theorem read32_eq_of_eqOn {offset : ℕ} (agree : Set.EqOn changed memory (range block size))
    (inside : offset + 4 ≤ size) :
    read32 changed (block + offset) = read32 memory (block + offset) := by
  exact read32_congr (agree.mono (range_subset_range (by omega) (by omega)))

theorem Apart.words_apart (apart : Apart size blocks) {one two first second : ℕ}
    (oneListed : one ∈ blocks) (twoListed : two ∈ blocks)
    (fields : first + 4 ≤ second ∨ second + 4 ≤ first) (firstInside : first + 4 ≤ size)
    (secondInside : second + 4 ≤ size) :
    one + first + 4 ≤ two + second ∨ two + second + 4 ≤ one + first := by
  by_cases same : one = two
  · omega
  · have symmetric : Std.Symm fun one two : ℕ => Disjoint (range one size) (range two size) :=
      ⟨fun _ _ separate => separate.symm⟩
    have disjoint := List.Pairwise.forall apart oneListed twoListed same
    have separate := apart_of_disjoint_range disjoint (by omega) (by omega)
    omega

theorem write32_eqOn_of_apart {other offset value : ℕ}
    (apart : Disjoint (range other size) (range block size)) (inside : offset + 4 ≤ size) :
    Set.EqOn (write32 memory (block + offset) value) memory (range other size) := by
  have owned : range (block + offset) 4 ⊆ range block size :=
    range_subset_range (by omega) (by omega)
  exact (write32_eqOn _ _ _).mono (Set.disjoint_left.mp (apart.mono_right owned))

theorem Segment.storeCell (segment : Segment next memory pointer left last)
    (apart : Apart size left) (inside : next + 4 ≤ size) {value : ℕ} (word : value < 2 ^ 32) :
    Segment next (storeCell memory pointer value (lastCell next left)).1
      (storeCell memory pointer value (lastCell next left)).2 left value := by
  rcases left.eq_nil_or_concat' with rfl | ⟨before, block, rfl⟩
  · exact rfl
  · rcases segment_append.mp segment with ⟨middle, reach, here, nonnull, _⟩
    rw [lastCell_concat]
    rw [Apart, List.pairwise_append] at apart
    refine segment_append.mpr ⟨middle, reach.congr fun earlier listed => ?_, here, nonnull, ?_⟩
    · have separate := apart.2.2 earlier listed block (List.mem_singleton_self _)
      exact read32_eq_of_eqOn (write32_eqOn_of_apart separate inside) inside
    · exact (read32_write32_same _ _ _).trans (Nat.mod_eq_of_lt word)

theorem storeCell_eqOn {value block : ℕ} (inside : next + 4 ≤ size)
    (separate : ∀ other ∈ left, Disjoint (range block size) (range other size)) :
    Set.EqOn (storeCell memory pointer value (lastCell next left)).1 memory (range block size) := by
  rcases left.eq_nil_or_concat' with rfl | ⟨before, last, rfl⟩
  · exact fun _ _ => rfl
  · rw [lastCell_concat]
    exact write32_eqOn_of_apart (separate last (by simp)) inside

theorem storeCell_eqOn_front {value block : ℕ} (inside : next + 4 ≤ size) (apart : Apart size left)
    (listed : block ∈ left) :
    Set.EqOn (storeCell memory pointer value (lastCell next left)).1 memory (range block next) := by
  rcases left.eq_nil_or_concat' with rfl | ⟨before, last, rfl⟩
  · cases listed
  · rw [lastCell_concat]
    rw [Apart, List.pairwise_append] at apart
    rcases List.mem_append.mp listed with earlier | isLast
    · have separate := apart.2.2 block earlier last (List.mem_singleton_self _)
      exact (write32_eqOn_of_apart separate inside).mono (range_subset_range le_rfl (by omega))
    · rw [List.mem_singleton.mp isLast]
      exact fun location within => write32_apply_of_outside (Or.inl within.2)

/-- Storing the pointer behind a block into the cell that points to it takes the block out of the
list. -/
theorem Segment.remove {head : ℕ}
    (segment : Segment next memory pointer (left ++ block :: right) last)
    (apart : Apart size (left ++ block :: right)) (inside : next + 4 ≤ size)
    (stored : LinkedList.storeCell memory pointer (read32 memory (block + next))
      (lastCell next left) = (changed, head)) :
    Segment next changed head (left ++ right) last ∧
      ∀ listed ∈ left ++ block :: right, Set.EqOn changed memory (range listed next) := by
  rcases segment_append.mp segment with ⟨middle, before, _, _, rest⟩
  rw [Apart, List.pairwise_append] at apart
  rcases apart with ⟨leftApart, _, across⟩
  have redirected := before.storeCell leftApart inside (read32_lt memory (block + next))
  rw [stored] at redirected
  have agrees {listed : ℕ} (behind : listed ∈ block :: right) :
      Set.EqOn changed memory (range listed size) := by
    have outside (other : ℕ) (inLeft : other ∈ left) :
        Disjoint (range listed size) (range other size) := (across other inLeft listed behind).symm
    have agree :=
      @storeCell_eqOn next size memory pointer left (read32 memory (block + next)) listed
      inside outside
    rwa [stored] at agree
  constructor
  · refine segment_append.mpr ⟨_, redirected, rest.congr fun listed inRight => ?_⟩
    exact read32_eq_of_eqOn (agrees (List.mem_cons_of_mem _ inRight)) inside
  · intro listed member
    rcases List.mem_append.mp member with inLeft | behind
    · have agree := @storeCell_eqOn_front next size memory pointer left
        (read32 memory (block + next)) listed inside leftApart inLeft
      rwa [stored] at agree
    · exact (agrees behind).mono (range_subset_range le_rfl (by omega))

theorem Apart.remove (apart : Apart size (left ++ block :: right)) :
    Apart size (left ++ right) :=
  List.Pairwise.sublist ((List.sublist_cons_self block right).append_left left) apart

end LinkedList
