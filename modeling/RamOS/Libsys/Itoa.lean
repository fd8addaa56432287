import RamOS.Lib.Numeral
import RamOS.Lib.StringEdits
import RamOS.Lib.Word32

/-!
# Numbers as text

`itoa` divides by the base until nothing is left. A remainder has the sign of the
number, and the table of the digits is mirrored around its index 35, so that no
negation is needed and the least `int` is no exception. The digits come out from the
least significant one on, with the sign behind them, and are then reversed in place.
`atoi` reads a number back.
-/

namespace RamOS.Libsys

open ByteMemory CString StringEdits Numeral
open Word32 (IsInt int int_eq int_congr int_emod)

def digitTable : Bytes :=
  ascii "zyxwvutsrqponmlkjihgfedcba9876543210123456789abcdefghijklmnopqrstuvwxyz"

def itoaLoop (base : ℤ) : ℕ → Memory → ℕ → ℤ → Option (Memory × ℕ × ℤ)
  | 0, _, _, _ => none
  | fuel + 1, memory, ptr, tmpValue =>
    let value := tmpValue.tdiv base
    let memory := write8 memory ptr (digitTable.getD (35 + (tmpValue - value * base)).toNat 0)
    if value = 0 then some (memory, ptr + 1, tmpValue)
    else itoaLoop base fuel memory (ptr + 1) value

def atoiLoop : ℤ → Bytes → ℤ
  | result, [] => result
  | result, char :: str =>
    if '0'.toUInt8 ≤ char ∧ char ≤ '9'.toUInt8 then
      atoiLoop (int (result * 10 + (char - '0'.toUInt8).toNat)) str
    else result

def atoi (str : Bytes) : ℤ :=
  let start := str.dropWhile (· = ' '.toUInt8)
  if start.headD 0 = '-'.toUInt8 then int (-atoiLoop 0 start.tail)
  else if start.headD 0 = '+'.toUInt8 then atoiLoop 0 start.tail
  else atoiLoop 0 start

/-- The loop `while (ptr1 < ptr)`, which reverses what is between the two pointers. -/
def reverseLoop : ℕ → Memory → ℕ → ℕ → Option Memory
  | 0, _, _, _ => none
  | fuel + 1, memory, ptr1, ptr =>
    if ptr1 < ptr then
      reverseLoop fuel (write8 (write8 memory ptr (memory ptr1)) ptr1 (memory ptr)) (ptr1 + 1)
        (ptr - 1)
    else some memory

def itoa (fuel : ℕ) (memory : Memory) (value : ℤ) (str : ℕ) (base : ℤ) : Option Memory :=
  if base < 2 ∨ 36 < base then some (write8 memory str 0)
  else
    (itoaLoop base fuel memory str value).bind fun (memory, ptr, tmpValue) =>
      let (memory, ptr) :=
        if tmpValue < 0 then (write8 memory ptr '-'.toUInt8, ptr + 1) else (memory, ptr)
      reverseLoop fuel (write8 memory ptr 0) str (ptr - 1)

def signedNumeral (base : ℕ) (value : ℤ) : Bytes :=
  if value < 0 then '-'.toUInt8 :: numeral base value.natAbs else numeral base value.natAbs

variable {base fuel ptr low high : ℕ} {value : ℤ} {memory : Memory}

theorem digitTable_getD {remainder : ℤ} (small : remainder.natAbs < 36) :
    digitTable.getD (35 + remainder).toNat 0 = digitChar remainder.natAbs := by
  have mirrored : ∀ digit < 36, digitTable.getD (35 + digit) 0 = digitChar digit ∧
      digitTable.getD (35 - digit) 0 = digitChar digit := by decide +kernel
  rcases Int.natAbs_eq remainder with positive | negative
  · have index : (35 + remainder).toNat = 35 + remainder.natAbs := by omega
    rw [index, (mirrored _ small).1]
  · have index : (35 + remainder).toNat = 35 - remainder.natAbs := by omega
    rw [index, (mirrored _ small).2]

theorem itoaLoop_succ (two : 2 ≤ base) (small : base ≤ 36) :
    itoaLoop base (fuel + 1) memory ptr value =
      if value.tdiv base = 0 then
        some (write8 memory ptr (digitChar (value.natAbs % base)), ptr + 1, value)
      else
        itoaLoop base fuel (write8 memory ptr (digitChar (value.natAbs % base))) (ptr + 1)
          (value.tdiv base) := by
  have remainder : value - value.tdiv base * base = value.tmod base := by
    rw [Int.tmod_def, Int.mul_comm]
  have magnitude : (value.tmod base).natAbs = value.natAbs % base := Int.natAbs_tmod value base
  have digit : (value.tmod base).natAbs < 36 := by
    rw [magnitude]
    exact (Nat.mod_lt _ (by omega)).trans_le small
  simp only [itoaLoop, remainder, digitTable_getD digit, magnitude]

theorem tdiv_neg_iff (more : value.tdiv base ≠ 0) : value.tdiv base < 0 ↔ value < 0 := by
  by_cases negative : value < 0
  · have opposite : (-value).tdiv base = -value.tdiv base := Int.neg_tdiv value base
    have nonneg : 0 ≤ (-value).tdiv base := Int.tdiv_nonneg (by omega) (Int.natCast_nonneg base)
    omega
  · have nonneg : 0 ≤ value.tdiv base := Int.tdiv_nonneg (by omega) (Int.natCast_nonneg base)
    omega

theorem itoaLoop_eq (two : 2 ≤ base) (small : base ≤ 36) (positive : 0 < fuel)
    (bound : value.natAbs < 2 ^ fuel) :
    (lowDigits base value.natAbs).length ≤ fuel ∧ ∃ tmpValue, (tmpValue < 0 ↔ value < 0) ∧
      itoaLoop base fuel memory ptr value =
        some (store memory ptr ((lowDigits base value.natAbs).map digitChar),
          ptr + (lowDigits base value.natAbs).length, tmpValue) := by
  induction fuel generalizing memory ptr value with
  | zero => omega
  | succ fuel ih =>
    have quotient : (value.tdiv base).natAbs = value.natAbs / base := Int.natAbs_tdiv value base
    have halved : value.natAbs / base < 2 ^ fuel := by
      refine (Nat.div_le_div_left two (by decide)).trans_lt ?_
      rw [Nat.pow_succ] at bound
      omega
    have ends : value.tdiv base = 0 ↔ value.natAbs / base = 0 := by
      rw [← Int.natAbs_eq_zero, quotient]
    rw [lowDigits_eq two, itoaLoop_succ two small]
    by_cases last : value.natAbs / base = 0
    · rw [if_pos last, if_pos (ends.mpr last)]
      exact ⟨by simp, value, Iff.rfl, rfl⟩
    · have more : value.tdiv base ≠ 0 := mt ends.mp last
      have left : 0 < fuel := by
        by_contra none
        rw [Nat.eq_zero_of_not_pos none] at halved
        omega
      rw [← quotient] at halved
      rcases @ih (ptr + 1) (value.tdiv base) (write8 memory ptr (digitChar (value.natAbs % base)))
        left halved with ⟨count, tmpValue, sign, run⟩
      rw [quotient] at count run
      rw [if_neg last, if_neg more, List.length_cons, List.map_cons, store, run]
      refine ⟨by omega, tmpValue, sign.trans (tdiv_neg_iff more), ?_⟩
      rw [Nat.add_assoc, Nat.add_comm 1]

def mirrored (memory : Memory) (low high : ℕ) : Memory := fun address =>
  if low ≤ address ∧ address ≤ high then memory (low + high - address) else memory address

theorem mirrored_of_le (short : high ≤ low) : mirrored memory low high = memory := by
  funext address
  rw [mirrored]
  split
  next inside => rw [show low + high - address = address by omega]
  next => rfl

theorem mirrored_swap (more : low < high) :
    mirrored (write8 (write8 memory high (memory low)) low (memory high)) (low + 1) (high - 1) =
      mirrored memory low high := by
  funext address
  have sum : low + 1 + (high - 1) - address = low + high - address := by omega
  simp only [mirrored, sum]
  by_cases first : address = low
  · rw [first, if_neg (by omega), if_pos (by omega), write8_same, Nat.add_sub_cancel_left]
  by_cases last : address = high
  · rw [last, if_neg (by omega), if_pos (by omega), write8_apply_of_ne (by omega), write8_same,
      Nat.add_sub_cancel]
  by_cases inside : low ≤ address ∧ address ≤ high
  · rw [if_pos (by omega), if_pos inside, write8_apply_of_ne (by omega),
      write8_apply_of_ne (by omega)]
  · rw [if_neg (by omega), if_neg inside, write8_apply_of_ne first, write8_apply_of_ne last]

theorem reverseLoop_eq (near : high ≤ low + 2 * fuel) :
    reverseLoop (fuel + 1) memory low high = some (mirrored memory low high) := by
  induction fuel generalizing memory low high with
  | zero => rw [reverseLoop, if_neg (by omega), mirrored_of_le (by omega)]
  | succ fuel ih =>
    rw [reverseLoop]
    by_cases more : low < high
    · rw [if_pos more, ih (by omega), mirrored_swap more]
    · rw [if_neg more, mirrored_of_le (by omega)]

theorem mirrored_strcpy {str : ℕ} {text : Bytes} (noZero : 0 ∉ text) (nonempty : text ≠ []) :
    StringAt (mirrored (strcpy memory str text.reverse) str (str + text.length - 1)) str text ∧
      Set.EqOn (mirrored (strcpy memory str text.reverse) str (str + text.length - 1)) memory
        (range str (text.length + 1))ᶜ := by
  have positive := List.length_pos_iff.mpr nonempty
  have frame := strcpy_eqOn memory str text.reverse
  rw [List.length_reverse] at frame
  constructor
  · refine StringAt.of_apply ?_ ?_ noZero
    · intro offset inside
      have place : str + (str + text.length - 1) - (str + offset) =
          str + (text.length - 1 - offset) := by omega
      have index : text.length - 1 - (text.length - 1 - offset) = offset := by omega
      rw [mirrored, if_pos (by omega), place, strcpy_apply (by simp; omega),
        List.getD_reverse _ (by omega), index]
    · rw [mirrored, if_neg (by omega), strcpy_apply (by simp)]
      simp
  · intro address outside
    rw [mem_compl_range] at outside
    rw [mirrored, if_neg (by omega), frame (by rw [mem_compl_range]; omega)]

theorem reverse_signedNumeral : (signedNumeral base value).reverse =
    (lowDigits base value.natAbs).map digitChar ++ if value < 0 then ['-'.toUInt8] else [] := by
  rw [signedNumeral]
  split
  · simp [numeral]
  · simp [numeral]

theorem noZero_signedNumeral (two : 2 ≤ base) (small : base ≤ 36) :
    0 ∉ signedNumeral base value := by
  have nonzero : ∀ digit < 36, digitChar digit ≠ 0 := by decide +kernel
  have digits : 0 ∉ numeral base value.natAbs := by
    intro listed
    rcases exists_of_mem_numeral two listed with ⟨digit, below, zero⟩
    exact nonzero digit (by omega) zero.symm
  rw [signedNumeral]
  split
  · rw [List.mem_cons, not_or]
    exact ⟨by decide, digits⟩
  · exact digits

theorem itoa_eq {str : ℕ} (two : 2 ≤ base) (small : base ≤ 36) (isInt : IsInt value)
    (enough : 32 ≤ fuel) :
    itoa fuel memory value str base =
      some (mirrored (strcpy memory str (signedNumeral base value).reverse) str
        (str + (signedNumeral base value).length - 1)) := by
  rw [IsInt] at isInt
  have narrow : value.natAbs < 2 ^ 32 := by omega
  have bound : value.natAbs < 2 ^ fuel := narrow.trans_le (Nat.pow_le_pow_right (by decide) enough)
  have length := (@itoaLoop_eq base 32 str value memory two small (by decide) narrow).1
  rcases @itoaLoop_eq base fuel str value memory two small (by omega) bound with
    ⟨_, tmpValue, sign, run⟩
  rcases Nat.exists_eq_add_of_le' (show 1 ≤ fuel by omega) with ⟨fuel, rfl⟩
  have count := congrArg List.length (@reverse_signedNumeral base value)
  rw [List.length_reverse] at count
  rw [itoa, if_neg (by omega), run, Option.bind_some, reverse_signedNumeral, count,
    strcpy_eq_store, store_append]
  by_cases negative : value < 0
  · simp only [if_pos negative, if_pos (sign.mpr negative), List.length_append, List.length_map,
      List.length_singleton, store, ← Nat.add_assoc]
    exact reverseLoop_eq (by omega)
  · simp only [if_neg negative, if_neg (mt sign.mp negative), List.append_nil, List.length_map,
      store]
    exact reverseLoop_eq (by omega)

theorem atoiLoop_numeral (n : ℕ) : atoiLoop 0 (numeral 10 n) = int n := by
  have digits : ∀ digit < 10, ('0'.toUInt8 ≤ digitChar digit ∧ digitChar digit ≤ '9'.toUInt8) ∧
      (digitChar digit - '0'.toUInt8).toNat = digit := by decide
  have reads (text : Bytes) (each : ∀ char ∈ text, ∃ digit < 10, char = digitChar digit)
      (result : ℤ) : atoiLoop result text = text.foldl
        (fun result char => int (result * 10 + (char - '0'.toUInt8).toNat)) result := by
    induction text generalizing result with
    | nil => rfl
    | cons char text ih =>
      rcases each char (by simp) with ⟨digit, below, rfl⟩
      rw [atoiLoop, if_pos (digits digit below).1, List.foldl_cons,
        ih fun char listed => each char (by simp [listed])]
  rw [reads _ (fun char => exists_of_mem_numeral (by omega))]
  refine @foldl_numeral 10 n ℤ _ (fun m => int m) (by omega) ?_
  intro m digit below
  rw [(digits digit below).2]
  have wrapped := int_emod m
  exact int_congr (by omega)

theorem atoi_signedNumeral (isInt : IsInt value) : atoi (signedNumeral 10 value) = value := by
  have isDigit : ∀ digit < 10, digitChar digit ≠ ' '.toUInt8 ∧ digitChar digit ≠ '-'.toUInt8 ∧
      digitChar digit ≠ '+'.toUInt8 := by decide
  have wrapped := int_emod value.natAbs
  rw [signedNumeral]
  by_cases negative : value < 0
  · have read : atoi ('-'.toUInt8 :: numeral 10 value.natAbs) =
        int (-atoiLoop 0 (numeral 10 value.natAbs)) := rfl
    rw [if_pos negative, read, atoiLoop_numeral]
    exact (int_congr (by omega)).trans (int_eq isInt)
  · have read : atoi (numeral 10 value.natAbs) = atoiLoop 0 (numeral 10 value.natAbs) := by
      cases shape : numeral 10 value.natAbs with
      | nil => exact absurd shape numeral_ne_nil
      | cons char text =>
        rcases exists_of_mem_numeral (by omega : 2 ≤ 10) (shape ▸ List.mem_cons_self) with
          ⟨digit, below, rfl⟩
        simp [atoi, isDigit digit below]
    rw [if_neg negative, read, atoiLoop_numeral]
    exact (int_congr (by omega)).trans (int_eq isInt)

/-- `itoa` writes the numeral of every `int` in every base from 2 to 36, and `atoi` reads it back
in base 10. -/
theorem itoa_exact (memory : Memory) (str : ℕ) (isInt : IsInt value) (two : 2 ≤ base)
    (small : base ≤ 36) :
    ∃ after, (∀ fuel, 32 ≤ fuel → itoa fuel memory value str base = some after) ∧
      StringAt after str (signedNumeral base value) ∧
      Set.EqOn after memory (range str ((signedNumeral base value).length + 1))ᶜ ∧
      (base = 10 → atoi (signedNumeral base value) = value) := by
  have nonempty : signedNumeral base value ≠ [] := by
    rw [signedNumeral]
    split
    · simp
    · exact numeral_ne_nil
  have written := @mirrored_strcpy memory str _ (noZero_signedNumeral two small) nonempty
  refine ⟨_, fun fuel => itoa_eq two small isInt, written.1, written.2, ?_⟩
  rintro rfl
  exact atoi_signedNumeral isInt

/-- The least `int` in base 2 and in base 10. -/
theorem itoa_exact_least :
    (∃ after, itoa 32 (fun _ => 0) (-2147483648) 100 2 = some after ∧
      StringAt after 100 (ascii "-10000000000000000000000000000000")) ∧
    ∃ after, itoa 32 (fun _ => 0) (-2147483648) 100 10 = some after ∧
      StringAt after 100 (ascii "-2147483648") ∧ atoi (ascii "-2147483648") = -2147483648 := by
  have isInt : IsInt (-2147483648) := ⟨by decide, by decide⟩
  constructor
  · rcases @itoa_exact 2 (-2147483648) (fun _ => 0) 100 isInt (by decide) (by decide) with
      ⟨after, run, stored, _, _⟩
    exact ⟨after, run 32 le_rfl, stored⟩
  · rcases @itoa_exact 10 (-2147483648) (fun _ => 0) 100 isInt (by decide) (by decide) with
      ⟨after, run, stored, _, back⟩
    exact ⟨after, run 32 le_rfl, stored, back rfl⟩

end RamOS.Libsys
