import RamOS.Drivers.Model
import RamOS.Lib.Numeral
import RamOS.Lib.StringEdits

/-!
# Device names

A device is opened under the name of its driver with the minor number behind it, and `/dev/` may
stand in front. `parse_device_name` copies the characters before the first digit into a buffer
of 64 bytes and reads the digits as a number.
-/

namespace RamOS.Drivers

open ByteMemory CString StringEdits Numeral

/-- The copy loop of `parse_device_name`, and what it leaves of the name. -/
def copyDriverName (driverName : ℕ) : Memory → ℕ → Bytes → Memory × Bytes
  | memory, i, [] => (write8 memory (driverName + i) 0, [])
  | memory, i, char :: name =>
    if ¬ IsDigit char ∧ i < 63 then
      copyDriverName driverName (write8 memory (driverName + i) char) (i + 1) name
    else (write8 memory (driverName + i) 0, char :: name)

/-- `parse_device_name` with a buffer at `driverName`, and the minor number. -/
def parseDeviceNameAt (memory : Memory) (driverName : ℕ) (name : Bytes) : Memory × ℕ :=
  let name := if strncmp name (ascii "/dev/") 5 = 0 then name.drop 5 else name
  let (memory, rest) := copyDriverName driverName memory 0 name
  (memory, if IsDigit (rest.headD 0) then atoi rest else 0)

structure Parsed (memory : Memory) (driverName : ℕ) (text name : Bytes) (minor : ℕ) :
    Prop where
  value : parseDeviceName text = (name, minor)
  number : (parseDeviceNameAt memory driverName text).2 = minor
  stored : StringAt (parseDeviceNameAt memory driverName text).1 driverName name
  frame : Set.EqOn (parseDeviceNameAt memory driverName text).1 memory (range driverName 64)ᶜ

variable {name tail : Bytes} {minor : ℕ}

theorem copyDriverName_eq (memory : Memory) (driverName i : ℕ) (name : Bytes) :
    copyDriverName driverName memory i name =
      (strcpy memory (driverName + i) ((name.takeWhile fun char => ¬ IsDigit char).take (63 - i)),
        name.drop ((name.takeWhile fun char => ¬ IsDigit char).take (63 - i)).length) := by
  induction name generalizing memory i with
  | nil => simp [copyDriverName, strcpy]
  | cons char name ih =>
    rw [copyDriverName]
    by_cases isDigit : IsDigit char
    · simp [isDigit, strcpy]
    by_cases room : i < 63
    · have count : 63 - i = 63 - (i + 1) + 1 := by omega
      rw [if_pos ⟨isDigit, room⟩, ih, List.takeWhile_cons_of_pos (by simpa using isDigit), count,
        List.take_succ_cons, strcpy, List.length_cons, List.drop_succ_cons, Nat.add_assoc]
    · have full : 63 - i = 0 := by omega
      rw [if_neg (fun both => room both.2), full]
      simp [strcpy]

theorem parseDeviceNameAt_eq (memory : Memory) (driverName : ℕ) (text : Bytes) :
    parseDeviceNameAt memory driverName text =
      (strcpy memory driverName (parseDeviceName text).1, (parseDeviceName text).2) := by
  simp only [parseDeviceNameAt, copyDriverName_eq]
  rfl

theorem parsed_of_value (memory : Memory) (driverName : ℕ) {text : Bytes}
    (value : parseDeviceName text = (name, minor)) (noZero : 0 ∉ name) (short : name.length ≤ 63) :
    Parsed memory driverName text name minor := by
  refine ⟨value, ?_, ?_, ?_⟩
  all_goals rw [parseDeviceNameAt_eq, value]
  · exact StringAt.of_strcpy memory driverName noZero
  · refine (strcpy_eqOn memory driverName name).mono ?_
    rw [Set.compl_subset_compl]
    exact range_subset_range le_rfl (by omega)

theorem isDigit_of_mem_numeral {char : UInt8} (listed : char ∈ numeral 10 minor) :
    IsDigit char := by
  have digits : ∀ digit < 10, IsDigit (digitChar digit) := by decide
  rcases exists_of_mem_numeral (by omega) listed with ⟨digit, small, rfl⟩
  exact digits digit small

theorem atoi_numeral (small : minor < 2 ^ 31) : atoi (numeral 10 minor) = minor := by
  have digits : ∀ digit < 10, (digitChar digit).toNat - '0'.toNat = digit := by decide
  have all : ∀ char ∈ numeral 10 minor, decide (IsDigit char) = true :=
    fun char listed => decide_eq_true (isDigit_of_mem_numeral listed)
  have reads : (numeral 10 minor).foldl
      (fun result char => (result * 10 + (char.toNat - '0'.toNat)) % 2 ^ 32) (0 % 2 ^ 32) =
        minor % 2 ^ 32 := by
    refine @foldl_numeral 10 minor ℕ _ (fun m => m % 2 ^ 32) (by omega) ?_
    intro m digit below
    rw [digits digit below]
    omega
  have fits : minor % 2 ^ 32 = minor := Nat.mod_eq_of_lt (by omega)
  rw [atoi, List.takeWhile_eq_self_iff.mpr all]
  exact reads.trans fits

theorem parseDeviceName_stem {text : Bytes}
    (skipped : (if strncmp text (ascii "/dev/") 5 = 0 then text.drop 5 else text) = name ++ tail)
    (short : name.length ≤ 63) (noDigit : ∀ char ∈ name, ¬ IsDigit char)
    (digits : ∀ char ∈ tail, IsDigit char) :
    parseDeviceName text = (name, if tail = [] then 0 else atoi tail) := by
  have stem : (name ++ tail).takeWhile (fun char => ¬ IsDigit char) = name := by
    have nameGoes : ∀ char ∈ name, decide (¬ IsDigit char) = true :=
      fun char listed => decide_eq_true (noDigit char listed)
    rw [List.takeWhile_append_of_pos nameGoes]
    cases tail with
    | nil => simp
    | cons char tail =>
      rw [List.takeWhile_cons_of_neg (by simpa using digits char (by simp)), List.append_nil]
  simp only [parseDeviceName]
  rw [skipped, stem, List.take_of_length_le short, List.drop_left]
  cases tail with
  | nil =>
    have noDigit : ¬ IsDigit (([] : Bytes).headD 0) := by decide
    rw [if_neg noDigit, if_pos rfl]
  | cons char tail =>
    have isDigit : IsDigit ((char :: tail).headD 0) := digits char (by simp)
    rw [if_pos isDigit, if_neg (by simp)]

theorem skips_dev (rest : Bytes) :
    (if strncmp (ascii "/dev/" ++ rest) (ascii "/dev/") 5 = 0 then (ascii "/dev/" ++ rest).drop 5
      else ascii "/dev/" ++ rest) = rest := by
  have found : strncmp (ascii "/dev/" ++ rest) (ascii "/dev/") (ascii "/dev/").length = 0 :=
    (strncmp_length_eq_zero (by decide)).mpr (List.prefix_append _ _)
  exact (if_pos found).trans rfl

theorem keeps_stem (noDev : ¬ ascii "/dev/" <+: name) (digits : ∀ char ∈ tail, IsDigit char) :
    (if strncmp (name ++ tail) (ascii "/dev/") 5 = 0 then (name ++ tail).drop 5
      else name ++ tail) = name ++ tail := by
  apply if_neg
  intro found
  have starts : ascii "/dev/" <+: name ++ tail :=
    (strncmp_length_eq_zero (by decide)).mp (found : strncmp _ _ (ascii "/dev/").length = 0)
  rcases List.prefix_or_prefix_of_prefix starts (List.prefix_append name tail) with
    here | ⟨rest, split⟩
  · exact noDev here
  · -- the characters of `/dev/` behind the name would be digits
    rw [← split, List.prefix_append_right_inj] at starts
    cases rest with
    | nil => exact noDev ⟨[], by rw [List.append_nil, ← split, List.append_nil]⟩
    | cons char rest =>
      have isDigit : IsDigit char := digits char (starts.subset (by simp))
      have inDev : char ∈ ascii "/dev/" := by simp [← split]
      have none : ∀ char ∈ ascii "/dev/", ¬ IsDigit char := by decide +kernel
      exact none char inDev isDigit

/-- A driver name and a minor number come back from a device name, with or without `/dev/` in
front, and no digits stand for 0. -/
theorem parseDeviceName_decodes (memory : Memory) (driverName : ℕ) (noZero : 0 ∉ name)
    (short : name.length ≤ 63) (noDigit : ∀ char ∈ name, ¬ IsDigit char)
    (noDev : ¬ ascii "/dev/" <+: name) (small : minor < 2 ^ 31) :
    Parsed memory driverName (ascii "/dev/" ++ (name ++ numeral 10 minor)) name minor ∧
      Parsed memory driverName (name ++ numeral 10 minor) name minor ∧
      Parsed memory driverName (ascii "/dev/" ++ name) name 0 ∧
      Parsed memory driverName name name 0 := by
  have digits : ∀ char ∈ numeral 10 minor, IsDigit char := fun _ => isDigit_of_mem_numeral
  have number : (if numeral 10 minor = [] then 0 else atoi (numeral 10 minor)) = minor := by
    rw [atoi_numeral small, if_neg numeral_ne_nil]
  have bare : name ++ [] = name := List.append_nil name
  have noTail : ∀ char ∈ ([] : Bytes), IsDigit char := by simp
  have front := skips_dev (name ++ numeral 10 minor)
  have frontBare := skips_dev (name ++ [])
  have plain := keeps_stem noDev digits
  have plainBare := keeps_stem noDev noTail
  refine ⟨?_, ?_, ?_, ?_⟩
  all_goals refine parsed_of_value memory driverName ?_ noZero short
  · rw [parseDeviceName_stem front short noDigit digits, number]
  · rw [parseDeviceName_stem plain short noDigit digits, number]
  · rw [bare] at frontBare
    rw [parseDeviceName_stem (frontBare.trans bare.symm) short noDigit noTail, if_pos rfl]
  · rw [bare] at plainBare
    rw [parseDeviceName_stem (plainBare.trans bare.symm) short noDigit noTail, if_pos rfl]

theorem parseDeviceName_decodes_ata :
    Parsed (fun _ => 0) 0x2000 (ascii "/dev/ata2147483647") (ascii "ata") 2147483647 ∧
      Parsed (fun _ => 0) 0x2000 (ascii "ata2147483647") (ascii "ata") 2147483647 ∧
      Parsed (fun _ => 0) 0x2000 (ascii "/dev/ata") (ascii "ata") 0 ∧
      Parsed (fun _ => 0) 0x2000 (ascii "ata") (ascii "ata") 0 := by
  have written : numeral 10 2147483647 = ascii "2147483647" := by decide
  have parsed := @parseDeviceName_decodes (ascii "ata") 2147483647 (fun _ => 0) 0x2000 (by decide)
    (by decide) (by decide +kernel) (by decide) (by decide)
  rwa [written] at parsed

end RamOS.Drivers
