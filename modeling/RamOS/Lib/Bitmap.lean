import RamOS.Lib.Word32

/-!
# Bitmaps in an array of 32-bit words

A set of small numbers is kept as an array of words, one bit for each number. The
operations mask the word that holds the bit, as C code does.
-/

namespace Bitmap

variable {words : ℕ → ℕ} {index other : ℕ}

/-- Membership: the bit of `index`. -/
def test (words : ℕ → ℕ) (index : ℕ) : Bool := (words (index / 32)).testBit (index % 32)

def set (words : ℕ → ℕ) (index : ℕ) : ℕ → ℕ :=
  Function.update words (index / 32) (words (index / 32) ||| 1 <<< (index % 32))

def clear (words : ℕ → ℕ) (index : ℕ) : ℕ → ℕ :=
  Function.update words (index / 32)
    (words (index / 32) &&& Word32.not (1 <<< (index % 32)))

theorem and_bit_eq_zero_iff (word bit : ℕ) :
    word &&& 1 <<< bit = 0 ↔ word.testBit bit = false := by
  rw [Nat.one_shiftLeft]
  constructor
  · intro masked
    have bitOf := congrArg (fun value => value.testBit bit) masked
    simpa [Nat.testBit_and, Nat.testBit_two_pow_self] using bitOf
  · intro isClear
    apply Nat.eq_of_testBit_eq
    intro position
    by_cases same : bit = position
    · subst same
      simp [Nat.testBit_and, isClear]
    · simp [Nat.testBit_and, Nat.testBit_two_pow_of_ne same]

theorem masked_eq_zero_iff :
    words (index / 32) &&& 1 <<< (index % 32) = 0 ↔ test words index = false :=
  and_bit_eq_zero_iff _ _

@[simp]
theorem test_zero : test (fun _ => 0) index = false := by
  simp [test]

theorem testBit_full (index : ℕ) : (0xFFFFFFFF : ℕ).testBit (index % 32) = true := by
  rw [show (0xFFFFFFFF : ℕ) = 2 ^ 32 - 1 from rfl, Nat.testBit_two_pow_sub_one]
  exact decide_eq_true (Nat.mod_lt _ (by decide))

@[simp]
theorem test_full : test (fun _ => 0xFFFFFFFF) index = true := testBit_full index

theorem test_set : test (set words index) other = (decide (other = index) || test words other) := by
  by_cases sameWord : other / 32 = index / 32
  · simp only [test, set, sameWord, Function.update_self, Nat.testBit_or, Nat.one_shiftLeft]
    by_cases sameBit : index % 32 = other % 32
    · have same : other = index := by omega
      simp [same, Nat.testBit_two_pow_self]
    · have distinct : other ≠ index := by
        rintro rfl
        exact sameBit rfl
      simp [distinct, Nat.testBit_two_pow_of_ne sameBit]
  · have distinct : other ≠ index := by
      rintro rfl
      exact sameWord rfl
    simp [test, set, Function.update_of_ne sameWord, distinct]

theorem testBit_not_bit {bit position : ℕ} (inside : bit < 32) (small : position < 32) :
    (Word32.not (1 <<< bit)).testBit position = decide (position ≠ bit) := by
  have below : 2 ^ bit < 2 ^ 32 := Nat.pow_lt_pow_right (by omega) inside
  rw [Nat.one_shiftLeft, Word32.not, Nat.sub_right_comm, Nat.sub_sub,
    Nat.testBit_two_pow_sub_succ below, Nat.testBit_two_pow]
  by_cases same : bit = position
  · simp [same]
  · simp [small, same, Ne.symm same]

theorem test_clear :
    test (clear words index) other = (decide (other ≠ index) && test words other) := by
  have bit : index % 32 < 32 := Nat.mod_lt _ (by decide)
  have position : other % 32 < 32 := Nat.mod_lt _ (by decide)
  by_cases sameWord : other / 32 = index / 32
  · have same : other % 32 ≠ index % 32 ↔ other ≠ index := by omega
    simp only [test, clear, sameWord, Function.update_self, Nat.testBit_and,
      testBit_not_bit bit position, same, Bool.and_comm]
  · have distinct : other ≠ index := by
      rintro rfl
      exact sameWord rfl
    simp [test, clear, Function.update_of_ne sameWord, distinct]

end Bitmap
