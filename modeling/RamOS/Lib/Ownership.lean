import RamOS.Lib.Memory

/-!
# Growing ownership

A program that allocates as it goes owns more and more memory. A phase that writes to new memory
and to a few places of its own leaves everything else it owns unchanged. The state of the
program is arbitrary: `memory` is its memory, and `safe` says that the allocators respect a set of
addresses. The loops run on a state that has more to it, of which `view` is the program's.
-/

namespace Ownership

open ByteMemory

section

variable {T : Type*} {memory : T → Memory} {safe : T → Set ℕ → Prop}

/-- A phase of the program. Only `writable` and memory that was not owned may change. -/
structure Extends (memory : T → Memory) (safe : T → Set ℕ → Prop) (writable : Set ℕ) (before : T)
    (owned : Set ℕ) (after : T) (ownedAfter : Set ℕ) : Prop where
  subset : owned ⊆ ownedAfter
  safe : safe after ownedAfter
  frame : Set.EqOn (memory after) (memory before) (owned \ writable)

/-- The allocators respect `owned`, and `kept` still holds what it held in `original`. -/
structure Keeps (memory : T → Memory) (safe : T → Set ℕ → Prop) (original : Memory)
    (kept : Set ℕ) (state : T) (owned : Set ℕ) : Prop where
  safe : safe state owned
  subset : kept ⊆ owned
  same : Set.EqOn (memory state) original kept

variable {writable left right kept : Set ℕ} {first second third : T} {owned₁ owned₂ owned₃ : Set ℕ}
  {original : Memory}

theorem Extends.refl (isSafe : safe first owned₁) :
    Extends memory safe writable first owned₁ first owned₁ :=
  ⟨subset_rfl, isSafe, fun _ _ => rfl⟩

theorem Extends.trans (one : Extends memory safe left first owned₁ second owned₂)
    (two : Extends memory safe right second owned₂ third owned₃)
    (leftSubset : left ∩ owned₁ ⊆ writable) (rightSubset : right ∩ owned₁ ⊆ writable) :
    Extends memory safe writable first owned₁ third owned₃ where
  subset := one.subset.trans two.subset
  safe := two.safe
  frame := by
    rintro address ⟨isOwned, fixed⟩
    have fixedOne := one.frame ⟨isOwned, fun inLeft => fixed (leftSubset ⟨inLeft, isOwned⟩)⟩
    have fixedTwo := two.frame
      ⟨one.subset isOwned, fun inRight => fixed (rightSubset ⟨inRight, isOwned⟩)⟩
    exact fixedTwo.trans fixedOne

theorem Keeps.extends (keeps : Keeps memory safe original kept first owned₁)
    (extension : Extends memory safe writable first owned₁ second owned₂)
    (apart : Disjoint kept writable) : Keeps memory safe original kept second owned₂ where
  safe := extension.safe
  subset := keeps.subset.trans extension.subset
  same := (extension.frame.mono (Set.subset_sdiff.mpr ⟨keeps.subset, apart⟩)).trans keeps.same

/-- The words of an array from `lower` on. -/
def words (base lower count : ℕ) : Set ℕ := range (base + 4 * lower) (4 * count)

/-- Words of an array that a loop has filled. What `Filled` says of a word concerns a part of the
memory that was not owned before, and the parts for different words are disjoint. -/
structure Fills (memory : T → Memory) (safe : T → Set ℕ → Prop)
    (Filled : ℕ → Memory → Set ℕ → ℕ → Prop) (base lower count : ℕ) (before : T)
    (owned : Set ℕ) (after : T) (ownedAfter : Set ℕ) (part : ℕ → Set ℕ) : Prop where
  extension : Extends memory safe (words base lower count) before owned after ownedAfter
  isPart : ∀ index, lower ≤ index → index < lower + count → part index ⊆ ownedAfter \ owned
  partsApart : ∀ left right, lower ≤ left → left < right → right < lower + count →
    Disjoint (part left) (part right)
  filled : ∀ index, lower ≤ index → index < lower + count →
    Filled index (memory after) (part index) (read32 (memory after) (base + 4 * index))

variable {Filled : ℕ → Memory → Set ℕ → ℕ → Prop} {base lower count reached : ℕ}

theorem word_subset_words {index : ℕ} (above : lower ≤ index) (below : index < lower + count) :
    range (base + 4 * index) 4 ⊆ words base lower count :=
  range_subset_range (by omega) (by omega)

theorem words_subset_words (bound : reached ≤ count) :
    words base lower reached ⊆ words base lower count :=
  range_subset_range le_rfl (by omega)

theorem lt_or_eq_last {index : ℕ} (below : index < lower + (reached + 1)) :
    index < lower + reached ∨ index = lower + reached := by
  omega

theorem Fills.push {part : ℕ → Set ℕ}
    (fills : Fills memory safe Filled base lower reached first owned₁ second owned₂ part)
    (stable : ∀ index old new fresh word, Set.EqOn new old fresh →
      Filled index old fresh word → Filled index new fresh word)
    (inside : words base lower (reached + 1) ⊆ owned₁)
    (one : Extends memory safe (range (base + 4 * (lower + reached)) 4) second owned₂ third owned₃)
    (filled : Filled (lower + reached) (memory third) (owned₃ \ owned₂)
      (read32 (memory third) (base + 4 * (lower + reached)))) :
    Fills memory safe Filled base lower (reached + 1) first owned₁ third owned₃
      (Function.update part (lower + reached) (owned₃ \ owned₂)) := by
  have cell : range (base + 4 * (lower + reached)) 4 ⊆ words base lower (reached + 1) :=
    word_subset_words (by omega) (by omega)
  have older {index : ℕ} (earlier : index < lower + reached) :
      Function.update part (lower + reached) (owned₃ \ owned₂) index = part index :=
    Function.update_of_ne earlier.ne _ _
  constructor
  · exact fills.extension.trans one
      (Set.inter_subset_left.trans (words_subset_words (Nat.le_succ reached)))
      (Set.inter_subset_left.trans cell)
  · intro index above below
    rcases lt_or_eq_last below with earlier | rfl
    · rw [older earlier]
      exact (fills.isPart index above earlier).trans (Set.sdiff_subset_sdiff_left one.subset)
    · rw [Function.update_self]
      exact Set.sdiff_subset_sdiff_right fills.extension.subset
  · intro left right above ordered below
    rw [older (show left < lower + reached by omega)]
    rcases lt_or_eq_last below with earlier | rfl
    · rw [older earlier]
      exact fills.partsApart left right above ordered earlier
    · rw [Function.update_self]
      exact Set.disjoint_sdiff_right.mono_left
        ((fills.isPart left above ordered).trans Set.sdiff_subset)
  · intro index above below
    rcases lt_or_eq_last below with earlier | rfl
    · have word : range (base + 4 * index) 4 ⊆ words base lower (reached + 1) :=
        word_subset_words above below
      have fixed : range (base + 4 * index) 4 ⊆
          owned₂ \ range (base + 4 * (lower + reached)) 4 := by
        intro address inWord
        refine ⟨fills.extension.subset (inside (word inWord)), ?_⟩
        rw [mem_range] at inWord ⊢
        omega
      rw [older earlier, read32_congr (one.frame.mono fixed)]
      refine stable index _ _ _ _ ?_ (fills.filled index above earlier)
      apply one.frame.mono
      intro address inPart
      rcases fills.isPart index above earlier inPart with ⟨isOwned, isNew⟩
      exact ⟨isOwned, fun inCell => isNew (inside (cell inCell))⟩
    · rw [Function.update_self]
      exact filled

section Loop

variable {S : Type*}

/-- A loop over the indices from `lower` on. -/
def runFrom (step : ℕ → S → S) (lower : ℕ) (start : S) (count : ℕ) : S :=
  Nat.fold count (fun index _ state => step (lower + index) state) start

variable {step : ℕ → S → S} {start : S}

theorem runFrom_succ : runFrom step lower start (count + 1) =
    step (lower + count) (runFrom step lower start count) := Nat.fold_succ ..

theorem runFrom_zero :
    runFrom step 0 start count = Nat.fold count (fun index _ state => step index state) start := by
  simp only [runFrom, Nat.zero_add]

/-- A loop that fills an array of owned words, one word and some new memory at a time, as long as
each step does so and reports by `good` whether it was a good one. -/
theorem Keeps.fold_words {view : S → T} {good : S → Prop} {Good : ℕ → Prop}
    (keeps : Keeps memory safe original kept (view start) owned₁)
    (inside : words base lower count ⊆ owned₁) (apart : Disjoint kept (words base lower count))
    (stable : ∀ index old new fresh word, Set.EqOn new old fresh →
      Filled index old fresh word → Filled index new fresh word)
    (each : ∀ index, lower ≤ index → index < lower + count → ∀ state owned,
      runFrom step lower start (index - lower) = state →
      Keeps memory safe original kept (view state) owned →
      range (base + 4 * index) 4 ⊆ owned →
      read32 (memory (view state)) (base + 4 * index) =
        read32 (memory (view start)) (base + 4 * index) →
      ∃ ownedAfter,
        Extends memory safe (range (base + 4 * index) 4) (view state) owned
          (view (step index state)) ownedAfter ∧
        Filled index (memory (view (step index state))) (ownedAfter \ owned)
          (read32 (memory (view (step index state))) (base + 4 * index)) ∧
        (good (step index state) ↔ good state ∧ Good index))
    (bound : reached ≤ count) :
    ∃ owned part,
      Fills memory safe Filled base lower reached (view start) owned₁
        (view (runFrom step lower start reached)) owned part ∧
      (good (runFrom step lower start reached) ↔
        good start ∧ ∀ index, lower ≤ index → index < lower + reached → Good index) := by
  induction reached with
  | zero =>
    refine ⟨owned₁, fun _ => ∅, ⟨Extends.refl keeps.safe, ?_, ?_, ?_⟩, ?_⟩
    · exact fun _ _ _ => Set.empty_subset _
    · exact fun _ _ _ _ _ => Set.disjoint_empty _
    · exact fun index above below => absurd above (Nat.not_le.mpr below)
    · exact ⟨fun isGood => ⟨isGood, fun index above below =>
        absurd above (Nat.not_le.mpr below)⟩, fun both => both.1⟩
  | succ reached ih =>
    rcases ih (by omega) with ⟨owned, part, fills, isGood⟩
    rw [runFrom_succ]
    generalize here : runFrom step lower start reached = state at fills isGood ⊢
    have above := Nat.le_add_right lower reached
    have below : lower + reached < lower + count := by omega
    have cell := (word_subset_words above below).trans inside
    have untouched : range (base + 4 * (lower + reached)) 4 ⊆
        owned₁ \ words base lower reached := by
      intro address inWord
      refine ⟨cell inWord, ?_⟩
      rw [words, mem_range]
      rw [mem_range] at inWord
      omega
    rcases each (lower + reached) above below state owned (by rwa [Nat.add_sub_cancel_left])
      (keeps.extends fills.extension (apart.mono_right (words_subset_words (by omega))))
      (cell.trans fills.extension.subset)
      (read32_congr (fills.extension.frame.mono untouched)) with
      ⟨ownedAfter, one, filled, goodNow⟩
    refine ⟨ownedAfter, _, fills.push stable ((words_subset_words bound).trans inside) one filled,
      ?_⟩
    rw [goodNow, isGood, and_assoc]
    refine and_congr_right fun _ => ⟨fun both index lowerBound upper => ?_, fun all =>
      ⟨fun index lowerBound upper => all index lowerBound (by omega), all _ above (by omega)⟩⟩
    rcases lt_or_eq_last upper with before | rfl
    · exact both.1 index lowerBound before
    · exact both.2

end Loop

end

end Ownership
