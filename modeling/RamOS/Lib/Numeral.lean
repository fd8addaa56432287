import Mathlib.Data.Nat.Digits.Defs
import RamOS.Lib.CString

/-!
# Numerals

The numeral of a natural number in a base of at most 36: its digits, the most
significant one first, as characters. `foldl_numeral` says that a left fold which
reads one digit correctly reads the whole numeral.
-/

namespace Numeral

open CString

def digitChar (digit : ℕ) : UInt8 := (ascii "0123456789abcdefghijklmnopqrstuvwxyz").getD digit 0

/-- The digits from the least significant one on, where zero has one digit. -/
def lowDigits (base n : ℕ) : List ℕ := if n = 0 then [0] else Nat.digits base n

def numeral (base n : ℕ) : Bytes := ((lowDigits base n).map digitChar).reverse

variable {base n : ℕ}

theorem lowDigits_eq (two : 2 ≤ base) : lowDigits base n =
    n % base :: if n / base = 0 then [] else lowDigits base (n / base) := by
  by_cases zero : n = 0
  · simp [lowDigits, zero]
  · rw [lowDigits, if_neg zero, Nat.digits_def' (by omega) (by omega)]
    by_cases last : n / base = 0
    · rw [if_pos last, last, Nat.digits_zero]
    · rw [if_neg last, lowDigits, if_neg last]

theorem numeral_ne_nil : numeral base n ≠ [] := by
  by_cases zero : n = 0
  · simp [numeral, lowDigits, zero]
  · simpa [numeral, lowDigits, zero] using Nat.digits_ne_nil_iff_ne_zero.mpr zero

theorem lt_of_mem_lowDigits (two : 2 ≤ base) {digit : ℕ} (listed : digit ∈ lowDigits base n) :
    digit < base := by
  by_cases zero : n = 0
  · rw [lowDigits, if_pos zero, List.mem_singleton] at listed
    omega
  · rw [lowDigits, if_neg zero] at listed
    exact Nat.digits_lt_base (by omega) listed

theorem exists_of_mem_numeral (two : 2 ≤ base) {char : UInt8} (listed : char ∈ numeral base n) :
    ∃ digit < base, char = digitChar digit := by
  rw [numeral, List.mem_reverse, List.mem_map] at listed
  rcases listed with ⟨digit, isDigit, rfl⟩
  exact ⟨digit, lt_of_mem_lowDigits two isDigit, rfl⟩

/-- A fold whose step reads a digit behind a number that was read already. -/
theorem foldl_numeral {α : Type*} {step : α → UInt8 → α} {image : ℕ → α} (two : 2 ≤ base)
    (reads : ∀ m, ∀ digit < base, step (image m) (digitChar digit) = image (m * base + digit)) :
    (numeral base n).foldl step (image 0) = image n := by
  induction n using Nat.strong_induction_on with
  | h n ih =>
    have digit := Nat.mod_lt n (show 0 < base by omega)
    have split := Nat.div_add_mod' n base
    rw [numeral, lowDigits_eq two, List.map_cons, List.reverse_cons, List.foldl_append]
    by_cases last : n / base = 0
    · rw [last] at split
      rw [if_pos last]
      simp only [List.map_nil, List.reverse_nil, List.foldl_nil, List.foldl_cons]
      rw [reads 0 _ digit, split]
    · have positive : 0 < n := Nat.pos_of_ne_zero (by rintro rfl; exact last (Nat.zero_div base))
      have smaller : n / base < n := Nat.div_lt_self positive (by omega)
      rw [if_neg last, ← numeral, ih _ smaller]
      simp only [List.foldl_cons, List.foldl_nil]
      rw [reads _ _ digit, split]

end Numeral
