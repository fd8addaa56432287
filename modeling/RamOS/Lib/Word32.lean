import Mathlib.Data.Nat.Bitwise

/-!
# 32-bit words as natural numbers

A machine word is a natural number below `2 ^ 32`, and the operations that can
leave that range wrap explicitly. A mask that keeps the high bits rounds down to
a multiple of a power of two, a mask that keeps the low bits is a remainder, and
an `or` of two fields that do not overlap is a sum.
-/

namespace Word32

def add (left right : ℕ) : ℕ := (left + right) % 2 ^ 32

def sub (left right : ℕ) : ℕ := (left + 2 ^ 32 - right % 2 ^ 32) % 2 ^ 32

def not (word : ℕ) : ℕ := 2 ^ 32 - 1 - word

def ofInt (value : ℤ) : ℕ := (value % 2 ^ 32).toNat

def toInt (word : ℕ) : ℤ := if word < 2 ^ 31 then word else (word : ℤ) - 2 ^ 32

theorem ofInt_eq {value : ℤ} (nonnegative : 0 ≤ value) (fits : value < 2 ^ 32) :
    ofInt value = value.toNat := by
  rw [ofInt, Int.emod_eq_of_lt nonnegative fits]

theorem ofInt_lt (value : ℤ) : ofInt value < 2 ^ 32 := by
  rw [ofInt]
  omega

theorem toInt_eq {word : ℕ} (small : word < 2 ^ 31) : toInt word = word := by
  rw [toInt, if_pos small]

theorem toInt_nonneg_iff {word : ℕ} (fits : word < 2 ^ 32) : 0 ≤ toInt word ↔ word < 2 ^ 31 := by
  rw [toInt]
  split
  all_goals omega

/-- The value that is left of a number in an `int`. -/
def int (value : ℤ) : ℤ := toInt (ofInt value)

def IsInt (value : ℤ) : Prop := -2 ^ 31 ≤ value ∧ value < 2 ^ 31

theorem isInt_int (value : ℤ) : IsInt (int value) := by
  rw [IsInt, int, toInt, ofInt]
  split
  all_goals omega

theorem int_eq {value : ℤ} (isInt : IsInt value) : int value = value := by
  rw [IsInt] at isInt
  rw [int, toInt, ofInt]
  split
  all_goals omega

theorem int_congr {left right : ℤ} (same : left % 2 ^ 32 = right % 2 ^ 32) :
    int left = int right := by
  rw [int, int, ofInt, ofInt, same]

theorem int_emod (value : ℤ) : int value % 2 ^ 32 = value % 2 ^ 32 := by
  rw [int, toInt, ofInt]
  split
  all_goals omega

theorem add_eq {left right : ℕ} (fits : left + right < 2 ^ 32) :
    add left right = left + right := Nat.mod_eq_of_lt fits

theorem add_lt (left right : ℕ) : add left right < 2 ^ 32 :=
  Nat.mod_lt _ (by decide)

theorem sub_eq {left right : ℕ} (ordered : right ≤ left) (fits : left < 2 ^ 32) :
    sub left right = left - right := by
  simp only [sub]
  omega

theorem testBit_highMask {low width : ℕ} (ordered : low ≤ width) (index : ℕ) :
    (2 ^ width - 2 ^ low).testBit index = (decide (low ≤ index) && decide (index < width)) := by
  have shape : 2 ^ width - 2 ^ low = 2 ^ low * (2 ^ (width - low) - 1) := by
    rw [Nat.mul_sub, ← Nat.pow_add, Nat.mul_one, Nat.add_sub_cancel' ordered]
  rw [shape, Nat.testBit_two_pow_mul, Nat.testBit_two_pow_sub_one]
  by_cases below : low ≤ index
  · simp only [below, decide_true, Bool.true_and, decide_eq_decide]
    omega
  · simp [below]

theorem and_highMask {low width word : ℕ} (ordered : low ≤ width) (small : word < 2 ^ width) :
    word &&& (2 ^ width - 2 ^ low) = 2 ^ low * (word / 2 ^ low) := by
  apply Nat.eq_of_testBit_eq
  intro index
  rw [Nat.testBit_and, testBit_highMask ordered, Nat.testBit_two_pow_mul,
    Nat.testBit_div_two_pow]
  by_cases below : low ≤ index
  · rw [Nat.sub_add_cancel below]
    by_cases inside : index < width
    · simp [below, inside]
    · have clear : word.testBit index = false :=
        Nat.testBit_lt_two_pow (small.trans_le (Nat.pow_le_pow_right (by omega) (by omega)))
      simp [clear]
  · simp [below]

theorem and_not_low {low word : ℕ} (ordered : low ≤ 32) (small : word < 2 ^ 32) :
    word &&& not (2 ^ low - 1) = 2 ^ low * (word / 2 ^ low) := by
  have positive : 0 < 2 ^ low := Nat.two_pow_pos low
  have bound : 2 ^ low ≤ 2 ^ 32 := Nat.pow_le_pow_right (by omega) ordered
  have shape : not (2 ^ low - 1) = 2 ^ 32 - 2 ^ low := by
    simp only [not]
    omega
  rw [shape, and_highMask ordered small]

theorem alignUp_spec {low word : ℕ} (fits : word + 2 ^ low < 2 ^ 32) :
    ∃ aligned, sub (add word (2 ^ low)) 1 &&& not (sub (2 ^ low) 1) = aligned ∧
      2 ^ low ∣ aligned ∧ word ≤ aligned ∧ aligned < word + 2 ^ low := by
  have power : 0 < 2 ^ low := Nat.two_pow_pos low
  have ordered : low ≤ 32 := by
    by_contra large
    have bound : 2 ^ 32 ≤ 2 ^ low := Nat.pow_le_pow_right (by decide) (by omega)
    omega
  have split := Nat.div_add_mod (word + 2 ^ low - 1) (2 ^ low)
  have remainder := Nat.mod_lt (word + 2 ^ low - 1) power
  refine ⟨2 ^ low * ((word + 2 ^ low - 1) / 2 ^ low), ?_, Nat.dvd_mul_right _ _, by omega,
    by omega⟩
  rw [add_eq fits, sub_eq (by omega) fits, sub_eq power (by omega)]
  exact and_not_low ordered (by omega)

theorem mul_or_eq_add {low high field : ℕ} (small : field < 2 ^ low) :
    2 ^ low * high ||| field = 2 ^ low * high + field :=
  (Nat.two_pow_add_eq_or_of_lt small high).symm

end Word32
