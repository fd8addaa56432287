import Mathlib.Data.Set.BooleanAlgebra
import Mathlib.Order.Interval.Set.Disjoint
import Mathlib.Order.CompletePartialOrder

/-!
# Extents on a line of cells

An extent is a run of consecutive cells. A family of extents is packed below a
limit when its members do not share a cell and none of them reaches past the
limit. Replacing one member of a packed family is judged by the new member alone.
-/

structure Extent where
  first : ℕ
  count : ℕ

namespace Extent

def stop (extent : Extent) : ℕ := extent.first + extent.count

def cells (extent : Extent) : Set ℕ := Set.Ico extent.first extent.stop

theorem disjoint_cells_of_empty {left : Extent} (empty : left.count = 0) (right : Extent) :
    Disjoint left.cells right.cells := by
  simp [cells, stop, empty]

theorem disjoint_cells_iff {left right : Extent} (leftPos : 0 < left.count)
    (rightPos : 0 < right.count) :
    Disjoint left.cells right.cells ↔ left.stop ≤ right.first ∨ right.stop ≤ left.first := by
  rw [cells, cells, Set.Ico_disjoint_Ico]
  simp only [stop]
  omega

/-- The members share no cell, and those that have cells end at the limit or
before it. -/
structure Packed {ι : Type} (limit : ℕ) (extents : ι → Extent) : Prop where
  inside : ∀ index, 0 < (extents index).count → (extents index).stop ≤ limit
  disjoint : Pairwise fun left right => Disjoint (extents left).cells (extents right).cells

namespace Packed

variable {ι : Type} {limit : ℕ} {extents : ι → Extent}

theorem apart (packed : Packed limit extents) {left right : ι} (distinct : left ≠ right)
    (leftPos : 0 < (extents left).count) (rightPos : 0 < (extents right).count) :
    (extents left).stop ≤ (extents right).first ∨ (extents right).stop ≤ (extents left).first :=
  (disjoint_cells_iff leftPos rightPos).mp (packed.disjoint distinct)

/-- A new member keeps the family packed exactly when it is empty, or ends inside the limit and
apart from every other member. -/
theorem update_iff [DecidableEq ι] (packed : Packed limit extents) (index : ι) (new : Extent) :
    Packed limit (Function.update extents index new) ↔
      new.count = 0 ∨
        (new.stop ≤ limit ∧ ∀ other ≠ index, 0 < (extents other).count →
          (extents other).stop ≤ new.first ∨ new.stop ≤ (extents other).first) := by
  constructor
  · intro updated
    by_cases empty : new.count = 0
    · exact Or.inl empty
    · have positive : 0 < new.count := by omega
      refine Or.inr ⟨?_, ?_⟩
      · simpa [positive] using updated.inside index
      · intro other distinct otherPos
        have separate := updated.disjoint distinct
        simp only [Function.update_self, Function.update_of_ne distinct] at separate
        exact (disjoint_cells_iff otherPos positive).mp separate
  · intro fits
    have separate (other : ι) (distinct : other ≠ index) :
        Disjoint (extents other).cells new.cells := by
      rcases fits with empty | ⟨-, separate⟩
      · exact (disjoint_cells_of_empty empty _).symm
      · by_cases otherEmpty : (extents other).count = 0
        · exact disjoint_cells_of_empty otherEmpty _
        · by_cases empty : new.count = 0
          · exact (disjoint_cells_of_empty empty _).symm
          · exact (disjoint_cells_iff (by omega) (by omega)).mpr
              (separate other distinct (by omega))
    refine ⟨?_, ?_⟩
    · intro other otherPos
      by_cases same : other = index
      · subst same
        rw [Function.update_self] at otherPos ⊢
        rcases fits with empty | ⟨ends, -⟩
        · omega
        · exact ends
      · rw [Function.update_of_ne same] at otherPos ⊢
        exact packed.inside other otherPos
    · intro left right distinct
      by_cases sameLeft : left = index
      · subst sameLeft
        simpa [Function.update_of_ne (Ne.symm distinct)] using
          (separate right (Ne.symm distinct)).symm
      · by_cases sameRight : right = index
        · subst sameRight
          simpa [Function.update_of_ne sameLeft] using separate left sameLeft
        · simpa [Function.update_of_ne sameLeft, Function.update_of_ne sameRight] using
            packed.disjoint distinct

end Packed

end Extent
