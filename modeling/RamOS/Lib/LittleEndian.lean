import Mathlib.Algebra.GroupWithZero.Nat
import Mathlib.Algebra.Order.Group.Nat
import Mathlib.Data.List.Basic
import RamOS.Lib.Memory

/-!
# Packed records of little-endian numbers

A packed record is a sequence of fields without gaps, each a number in a fixed count of
bytes, the least significant byte first. Taking a record apart with the widths of its fields
gives the values that it was put together from, as far as they fit.
-/

namespace LittleEndian

def toBytes : ℕ → ℕ → Bytes
  | 0, _ => []
  | width + 1, value => UInt8.ofNat value :: toBytes width (value / 2 ^ 8)

def ofBytes : Bytes → ℕ
  | [] => 0
  | byte :: bytes => byte.toNat + 2 ^ 8 * ofBytes bytes

def pack (fields : List (ℕ × ℕ)) : Bytes := fields.flatMap fun field => toBytes field.1 field.2

def unpack : List ℕ → Bytes → List ℕ
  | [], _ => []
  | width :: widths, bytes => ofBytes (bytes.take width) :: unpack widths (bytes.drop width)

@[simp]
theorem length_toBytes (width value : ℕ) : (toBytes width value).length = width := by
  induction width generalizing value with
  | zero => rfl
  | succ width ih => rw [toBytes, List.length_cons, ih]

theorem ofBytes_toBytes (width value : ℕ) :
    ofBytes (toBytes width value) = value % 2 ^ (8 * width) := by
  induction width generalizing value with
  | zero => rw [toBytes, ofBytes, Nat.mul_zero, Nat.pow_zero, Nat.mod_one]
  | succ width ih =>
    have byte : (UInt8.ofNat value).toNat = value % 2 ^ 8 := rfl
    rw [toBytes, ofBytes, ih, byte, Nat.mul_succ, Nat.add_comm (8 * width), Nat.pow_add,
      Nat.mod_mul]

theorem unpack_pack {fields : List (ℕ × ℕ)} (rest : Bytes)
    (fits : ∀ field ∈ fields, field.2 < 2 ^ (8 * field.1)) :
    unpack (fields.map Prod.fst) (pack fields ++ rest) = fields.map Prod.snd := by
  induction fields with
  | nil => rfl
  | cons field fields ih =>
    have shape : pack (field :: fields) ++ rest =
        toBytes field.1 field.2 ++ (pack fields ++ rest) := by
      rw [pack, List.flatMap_cons, ← pack, List.append_assoc]
    rw [List.map_cons, unpack, shape, List.take_left' (length_toBytes _ _),
      List.drop_left' (length_toBytes _ _), ofBytes_toBytes,
      Nat.mod_eq_of_lt (fits field List.mem_cons_self),
      ih fun other listed => fits other (List.mem_cons_of_mem field listed), List.map_cons]

theorem length_pack (fields : List (ℕ × ℕ)) : (pack fields).length = (fields.map Prod.fst).sum := by
  simp [pack, List.length_flatMap]

end LittleEndian
