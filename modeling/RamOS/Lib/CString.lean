import RamOS.Lib.Memory

/-!
# Strings of bytes

A string that lives in memory is reached through its address and ends at its first zero byte; a
string held by value is the list of the bytes before that zero. The comparison loops are those
of the C library, and answer zero exactly for equal strings as long as no zero byte is stored
inside.
-/

namespace CString

open ByteMemory

def ascii (text : String) : Bytes := text.toList.map Char.toUInt8

def load (memory : Memory) (address : ℕ) : ℕ → Bytes
  | 0 => []
  | count + 1 => memory address :: load memory (address + 1) count

@[simp]
theorem length_load (memory : Memory) (address count : ℕ) :
    (load memory address count).length = count := by
  induction count generalizing address with
  | zero => rfl
  | succ count ih => simp [load, ih]

theorem load_add (memory : Memory) (address left right : ℕ) :
    load memory address (left + right) =
      load memory address left ++ load memory (address + left) right := by
  induction left generalizing address with
  | zero => simp [load]
  | succ left ih =>
    have shape : left + 1 + right = left + right + 1 := by omega
    have shifted : address + 1 + left = address + (left + 1) := by omega
    rw [shape, load, load, ih, shifted, List.cons_append]

variable {memory : Memory} {address count size : ℕ}

theorem load_eq_append {left right : Bytes} :
    load memory address (left ++ right).length = left ++ right ↔
      load memory address left.length = left ∧
        load memory (address + left.length) right.length = right := by
  rw [List.length_append, load_add]
  constructor
  · intro same
    exact List.append_inj same (length_load _ _ _)
  · rintro ⟨sameLeft, sameRight⟩
    rw [sameLeft, sameRight]

theorem take_load {kept : ℕ} (inside : kept ≤ count) :
    (load memory address count).take kept = load memory address kept := by
  rcases Nat.exists_eq_add_of_le inside with ⟨rest, rfl⟩
  rw [load_add, List.take_left' (length_load _ _ _)]

theorem drop_load {skipped : ℕ} (inside : skipped ≤ count) :
    (load memory address count).drop skipped =
      load memory (address + skipped) (count - skipped) := by
  rcases Nat.exists_eq_add_of_le inside with ⟨rest, rfl⟩
  rw [load_add, List.drop_left' (length_load _ _ _), Nat.add_sub_cancel_left]

theorem load_congr {left right : Memory} (agree : Set.EqOn left right (range address count)) :
    load left address count = load right address count := by
  induction count generalizing address with
  | zero => rfl
  | succ count ih =>
    have head : left address = right address := agree (by rw [mem_range]; omega)
    have tail : Set.EqOn left right (range (address + 1) count) := by
      intro location inside
      rw [mem_range] at inside
      exact agree (by rw [mem_range]; omega)
    rw [load, load, head, ih tail]

theorem load_eq {text : Bytes}
    (each : ∀ offset < text.length, memory (address + offset) = text.getD offset 0) :
    load memory address text.length = text := by
  induction text generalizing address with
  | nil => rfl
  | cons byte text ih =>
    have head : memory address = byte := each 0 (by simp)
    have tail : load memory (address + 1) text.length = text := by
      refine ih fun offset inside => ?_
      have shifted : address + 1 + offset = address + (offset + 1) := by omega
      rw [shifted, each (offset + 1) (by simpa using inside), List.getD_cons_succ]
    rw [List.length_cons, load, head, tail]

theorem getD_load {memory : Memory} {address count offset : ℕ} (inside : offset < count) :
    (load memory address count).getD offset 0 = memory (address + offset) := by
  induction count generalizing address offset with
  | zero => omega
  | succ count ih =>
    rcases offset with _ | offset
    · rfl
    · rw [load, List.getD_cons_succ, ih (by omega), Nat.add_assoc, Nat.add_comm 1]

theorem load_write8_append (memory : Memory) (address count : ℕ) (byte : UInt8) :
    load (write8 memory (address + count) byte) address (count + 1) =
      load memory address count ++ [byte] := by
  have unchanged : load (write8 memory (address + count) byte) address count =
      load memory address count := by
    apply load_congr
    apply write8_eqOn
    simp
  rw [load_add, unchanged, load, load, write8_same]

theorem mem_load {byte : UInt8} :
    byte ∈ load memory address count ↔ ∃ offset < count, memory (address + offset) = byte := by
  induction count generalizing address with
  | zero => simp [load]
  | succ count ih =>
    rw [load, List.mem_cons, ih]
    constructor
    · rintro (rfl | ⟨offset, inside, rfl⟩)
      · exact ⟨0, by omega, rfl⟩
      · exact ⟨offset + 1, by omega, by rw [Nat.add_assoc, Nat.add_comm 1]⟩
    · rintro ⟨offset, inside, rfl⟩
      rcases offset with _ | offset
      · exact Or.inl rfl
      · exact Or.inr ⟨offset, by omega, by rw [Nat.add_assoc, Nat.add_comm 1]⟩

def place (address : ℕ) (bytes : Bytes) : Memory := fun location =>
  if location < address then 0 else bytes.getD (location - address) 0

theorem load_place {address offset count : ℕ} {bytes : Bytes}
    (inside : offset + count ≤ bytes.length) :
    load (place address bytes) (address + offset) count = (bytes.drop offset).take count := by
  induction count generalizing offset with
  | zero => simp [load]
  | succ count ih =>
    have listed : offset < bytes.length := by omega
    have byte : place address bytes (address + offset) = bytes[offset] := by
      simp [place, listed]
    rw [load, byte, Nat.add_assoc, @ih (offset + 1) (by omega),
      List.drop_eq_getElem_cons listed, List.take_succ_cons]

theorem load_place_all (address : ℕ) (bytes : Bytes) :
    load (place address bytes) address bytes.length = bytes := by
  have whole := @load_place address 0 bytes.length bytes (by omega)
  rwa [Nat.add_zero, List.drop_zero, List.take_length] at whole

/-- The loop `while (s[len]) len++`, for at most `fuel` bytes. -/
def strlen : ℕ → Memory → ℕ → Option ℕ
  | 0, _, _ => none
  | fuel + 1, memory, address =>
    if memory address = 0 then some 0 else (strlen fuel memory (address + 1)).map (· + 1)

theorem strlen_of_load {memory : Memory} {text : Bytes} {address fuel : ℕ}
    (held : load memory address (text ++ [0]).length = text ++ [0]) (noZero : 0 ∉ text)
    (enough : text.length < fuel) : strlen fuel memory address = some text.length := by
  induction text generalizing address fuel with
  | nil =>
    rcases fuel with _ | fuel
    · omega
    have ended : memory address = 0 := by simpa [load] using held
    simp [strlen, ended]
  | cons byte text ih =>
    rcases fuel with _ | fuel
    · omega
    simp only [List.mem_cons, not_or] at noZero
    simp only [List.length_cons] at enough
    have shape : (byte :: text ++ [0]).length = (text ++ [0]).length + 1 := by simp
    rw [shape, load, List.cons_append, List.cons.injEq] at held
    have nonzero : memory address ≠ 0 := by
      rw [held.1]
      exact Ne.symm noZero.1
    have rest : strlen fuel memory (address + 1) = some text.length :=
      ih held.2 noZero.2 (by omega)
    simp [strlen, nonzero, rest]

theorem strlen_of_le {fuel more length : ℕ} (atLeast : fuel ≤ more)
    (counted : strlen fuel memory address = some length) :
    strlen more memory address = some length := by
  induction fuel generalizing address more length with
  | zero => cases counted
  | succ fuel ih =>
    rcases more with _ | more
    · omega
    rw [strlen] at counted ⊢
    split at counted
    next ended => rw [if_pos ended, counted]
    next nonzero =>
      rcases Option.map_eq_some_iff.mp counted with ⟨rest, countedRest, rfl⟩
      rw [if_neg nonzero, ih (Nat.le_of_succ_le_succ atLeast) countedRest, Option.map_some]

theorem exists_strlen_iff :
    (∃ fuel length, strlen fuel memory address = some length) ↔
      ∃ offset, memory (address + offset) = 0 := by
  constructor
  · rintro ⟨fuel, length, counted⟩
    induction fuel generalizing address length with
    | zero => cases counted
    | succ fuel ih =>
      rw [strlen] at counted
      split at counted
      next ended => exact ⟨0, ended⟩
      next =>
        rcases Option.map_eq_some_iff.mp counted with ⟨rest, countedRest, _⟩
        rcases ih rest countedRest with ⟨offset, ended⟩
        exact ⟨offset + 1, by rwa [Nat.add_right_comm] at ended⟩
  · rintro ⟨offset, ended⟩
    induction offset generalizing address with
    | zero => exact ⟨1, 0, if_pos ended⟩
    | succ offset ih =>
      by_cases here : memory address = 0
      · exact ⟨1, 0, if_pos here⟩
      · rcases @ih (address + 1) (by rwa [Nat.add_right_comm]) with ⟨fuel, length, counted⟩
        refine ⟨fuel + 1, length + 1, ?_⟩
        rw [strlen, if_neg here, counted, Option.map_some]

theorem load_noZero_of_strlen {fuel length : ℕ}
    (counted : strlen fuel memory address = some length) :
    0 ∉ load memory address length := by
  induction fuel generalizing address length with
  | zero => simp [strlen] at counted
  | succ fuel ih =>
    rw [strlen] at counted
    split at counted
    next =>
      cases counted
      simp [load]
    next nonzero =>
      rcases Option.map_eq_some_iff.mp counted with ⟨rest, restCounted, rfl⟩
      rw [load, List.mem_cons, not_or]
      exact ⟨Ne.symm nonzero, ih restCounted⟩

/-- The loop `while (*s1 && *s1 == *s2)`, and the difference of the bytes it stops at. -/
def strcmp : Bytes → Bytes → ℤ
  | [], right => - (right.headD 0).toNat
  | byte :: _, [] => byte.toNat
  | byte :: left, other :: right =>
    if byte = other then strcmp left right else (byte.toNat : ℤ) - other.toNat

theorem strcmp_eq_zero {left right : Bytes} (leftNoZero : 0 ∉ left) (rightNoZero : 0 ∉ right) :
    strcmp left right = 0 ↔ left = right := by
  have positive {byte : UInt8} (nonzero : 0 ≠ byte) : byte.toNat ≠ 0 :=
    fun zero => nonzero (UInt8.toNat_inj.mp (by simp [zero]))
  induction left generalizing right with
  | nil =>
    cases right with
    | nil => simp [strcmp]
    | cons other right =>
      simp only [List.mem_cons, not_or] at rightNoZero
      have nonzero := positive rightNoZero.1
      simp [strcmp, nonzero]
  | cons byte left ih =>
    simp only [List.mem_cons, not_or] at leftNoZero
    cases right with
    | nil =>
      have nonzero := positive leftNoZero.1
      simp [strcmp, nonzero]
    | cons other right =>
      simp only [List.mem_cons, not_or] at rightNoZero
      by_cases same : byte = other
      · simp [strcmp, same, ih leftNoZero.2 rightNoZero.2]
      · have differ : byte.toNat ≠ other.toNat := fun equal => same (UInt8.toNat_inj.mp equal)
        rw [strcmp, if_neg same]
        simp only [List.cons.injEq, same, false_and, iff_false]
        omega

/-- The same loop for a string in memory and a literal. -/
def strcmpAt (memory : Memory) : ℕ → Bytes → ℤ
  | address, [] => (memory address).toNat
  | address, other :: right =>
    if memory address ≠ 0 ∧ memory address = other then strcmpAt memory (address + 1) right
    else ((memory address).toNat : ℤ) - other.toNat

theorem strcmpAt_eq_zero {literal : Bytes} (noZero : 0 ∉ literal) :
    strcmpAt memory address literal = 0 ↔
      load memory address (literal ++ [0]).length = literal ++ [0] := by
  induction literal generalizing address with
  | nil =>
    simp only [strcmpAt, List.nil_append, List.length_singleton, load, List.cons.injEq, and_true]
    rw [← UInt8.toNat_inj]
    simp
  | cons other literal ih =>
    simp only [List.mem_cons, not_or] at noZero
    have shape : (other :: literal ++ [0]).length = (literal ++ [0]).length + 1 := by simp
    rw [shape, load, List.cons_append, List.cons.injEq]
    by_cases same : memory address = other
    · have nonzero : memory address ≠ 0 := by
        rw [same]
        exact Ne.symm noZero.1
      rw [strcmpAt, if_pos ⟨nonzero, same⟩, ih noZero.2]
      simp [same]
    · have differ : (memory address).toNat ≠ other.toNat :=
        fun equal => same (UInt8.toNat_inj.mp equal)
      simp only [strcmpAt, same, and_false, if_false, false_and, iff_false]
      omega

def strncmp : Bytes → Bytes → ℕ → ℤ
  | _, _, 0 => 0
  | [], right, _ + 1 => - (right.headD 0).toNat
  | byte :: _, [], _ + 1 => byte.toNat
  | byte :: left, other :: right, count + 1 =>
    if byte = other then strncmp left right count else (byte.toNat : ℤ) - other.toNat

theorem strncmp_length_eq_zero {left right : Bytes} (noZero : 0 ∉ right) :
    strncmp left right right.length = 0 ↔ right <+: left := by
  induction right generalizing left with
  | nil => simp [strncmp]
  | cons other right ih =>
    simp only [List.mem_cons, not_or] at noZero
    cases left with
    | nil =>
      have nonzero : other.toNat ≠ 0 :=
        fun zero => noZero.1 (UInt8.toNat_inj.mp (by simp [zero]))
      simp [strncmp, nonzero]
    | cons byte left =>
      rw [List.length_cons, strncmp, List.cons_prefix_cons]
      by_cases same : byte = other
      · rw [if_pos same, ih noZero.2]
        simp [same]
      · have differ : byte.toNat ≠ other.toNat := fun equal => same (UInt8.toNat_inj.mp equal)
        rw [if_neg same]
        refine iff_of_false (by omega) ?_
        rintro ⟨equal, -⟩
        exact same equal.symm

/-- The string in a field of the given size: the bytes before its first zero. -/
def stringIn (memory : Memory) (address size : ℕ) : Bytes :=
  (load memory address size).takeWhile (· ≠ 0)

theorem stringIn_congr {left right : Memory} (agree : Set.EqOn left right (range address size)) :
    stringIn left address size = stringIn right address size := by
  rw [stringIn, stringIn, load_congr agree]

theorem stringIn_eq {text : Bytes}
    (held : load memory address (text ++ [0]).length = text ++ [0]) (noZero : 0 ∉ text)
    (fits : text.length < size) : stringIn memory address size = text := by
  rcases Nat.exists_eq_add_of_le fits with ⟨rest, rfl⟩
  rw [List.length_append, List.length_singleton] at held
  have all : ∀ byte ∈ text, decide (byte ≠ 0) = true := by
    intro byte listed
    simp only [decide_eq_true_eq]
    rintro rfl
    exact noZero listed
  rw [stringIn, Nat.succ_eq_add_one, load_add, held, List.append_assoc,
    List.takeWhile_append_of_pos all]
  simp

theorem zero_notMem_stringIn (memory : Memory) (address size : ℕ) :
    0 ∉ stringIn memory address size := by
  intro listed
  have nonzero := List.all_eq_true.mp List.all_takeWhile 0 listed
  simp at nonzero

theorem load_stringIn (terminated : 0 ∈ load memory address size) :
    load memory address (stringIn memory address size ++ [0]).length =
      stringIn memory address size ++ [0] := by
  have split : stringIn memory address size ++ (load memory address size).dropWhile (· ≠ 0) =
      load memory address size := List.takeWhile_append_dropWhile
  have rest : ∃ behind, (load memory address size).dropWhile (· ≠ 0) = 0 :: behind := by
    cases found : (load memory address size).dropWhile (· ≠ 0) with
    | nil =>
      rw [found, List.append_nil] at split
      rw [← split] at terminated
      exact absurd terminated (zero_notMem_stringIn memory address size)
    | cons byte behind =>
      have stopped := List.head?_dropWhile_not (· ≠ (0 : UInt8)) (load memory address size)
      rw [found] at stopped
      have zero : byte = 0 := by simpa using stopped
      exact ⟨behind, by rw [zero]⟩
  rcases rest with ⟨behind, isRest⟩
  rw [isRest] at split
  have count : (stringIn memory address size ++ [0]).length ≤ size := by
    have total := congrArg List.length split
    rw [length_load] at total
    simp only [List.length_append, List.length_cons, List.length_nil] at total ⊢
    omega
  have shape : stringIn memory address size ++ 0 :: behind =
      (stringIn memory address size ++ [0]) ++ behind := by simp
  rw [← take_load count, ← split, shape, List.take_left]

theorem strcmpAt_eq_zero_iff {literal : Bytes} (terminated : 0 ∈ load memory address size)
    (noZero : 0 ∉ literal) :
    strcmpAt memory address literal = 0 ↔ stringIn memory address size = literal := by
  rw [strcmpAt_eq_zero noZero]
  constructor
  · intro held
    refine stringIn_eq held noZero ?_
    by_contra long
    have inside : 0 ∈ load memory address literal.length := by
      rcases mem_load.mp terminated with ⟨offset, below, zero⟩
      exact mem_load.mpr ⟨offset, by omega, zero⟩
    rw [List.length_append, List.length_singleton, load_add] at held
    have whole : load memory address literal.length = literal :=
      (List.append_inj held (length_load _ _ _)).1
    rw [whole] at inside
    exact noZero inside
  · rintro rfl
    exact load_stringIn terminated

/-- The loop `while ((*dest++ = *src++))`. -/
def strcpy (memory : Memory) : ℕ → Bytes → Memory
  | dest, [] => write8 memory dest 0
  | dest, byte :: src => strcpy (write8 memory dest byte) (dest + 1) src

theorem strcpy_eqOn (memory : Memory) (dest : ℕ) (src : Bytes) :
    Set.EqOn (strcpy memory dest src) memory (range dest (src.length + 1))ᶜ := by
  induction src generalizing memory dest with
  | nil =>
    intro location outside
    simp only [mem_compl_range, List.length_nil] at outside
    exact write8_apply_of_ne (by omega)
  | cons byte src ih =>
    intro location outside
    simp only [mem_compl_range, List.length_cons] at outside
    rw [strcpy, ih _ _ (by rw [mem_compl_range]; omega)]
    exact write8_apply_of_ne (by omega)

theorem load_strcpy (memory : Memory) (dest : ℕ) (src : Bytes) :
    load (strcpy memory dest src) dest (src ++ [0]).length = src ++ [0] := by
  induction src generalizing memory dest with
  | nil => simp [strcpy, load]
  | cons byte src ih =>
    have shape : (byte :: src ++ [0]).length = (src ++ [0]).length + 1 := by simp
    rw [shape, load, strcpy, ih,
      strcpy_eqOn _ _ _ (by rw [mem_compl_range]; omega), write8_same,
      List.cons_append]

theorem strcpy_apply {memory : Memory} {dest offset : ℕ} {src : Bytes}
    (inside : offset ≤ src.length) :
    strcpy memory dest src (dest + offset) = src.getD offset 0 := by
  have listed : offset < (src ++ [0]).length := by
    simp only [List.length_append, List.length_singleton]
    omega
  have loaded := @getD_load (strcpy memory dest src) dest _ _ listed
  rw [← loaded, load_strcpy]
  rcases Nat.lt_or_eq_of_le inside with before | rfl
  · simp [List.getElem?_append_left before]
  · simp

theorem strcpy_write8_same (memory : Memory) (dest : ℕ) (byte : UInt8) (src : Bytes) :
    strcpy (write8 memory dest byte) dest src = strcpy memory dest src := by
  cases src with
  | nil => exact Function.update_idem _ _ _
  | cons first src => rw [strcpy, strcpy, write8, write8, Function.update_idem, write8]

theorem strcpy_append (memory : Memory) (dest : ℕ) (left right : Bytes) :
    strcpy (strcpy memory dest left) (dest + left.length) right =
      strcpy memory dest (left ++ right) := by
  induction left generalizing memory dest with
  | nil => exact strcpy_write8_same memory dest 0 right
  | cons byte left ih =>
    rw [List.cons_append, strcpy, strcpy, ← ih, List.length_cons, Nat.add_assoc, Nat.add_comm 1]

def store (memory : Memory) : ℕ → Bytes → Memory
  | _, [] => memory
  | dest, byte :: src => store (write8 memory dest byte) (dest + 1) src

theorem store_append (memory : Memory) (dest : ℕ) (left right : Bytes) :
    store memory dest (left ++ right) =
      store (store memory dest left) (dest + left.length) right := by
  induction left generalizing memory dest with
  | nil => rfl
  | cons byte left ih =>
    rw [List.cons_append, store, ih, store, List.length_cons, Nat.add_assoc, Nat.add_comm 1]

theorem strcpy_eq_store (memory : Memory) (dest : ℕ) (src : Bytes) :
    strcpy memory dest src = write8 (store memory dest src) (dest + src.length) 0 := by
  induction src generalizing memory dest with
  | nil => rfl
  | cons byte src ih =>
    rw [strcpy, ih, store, List.length_cons, Nat.add_assoc, Nat.add_comm 1]

/-- The loops `while (n && (*dest++ = *src++)) n--` and `while (n--) *dest++ = 0`. The terminator
of a string shorter than `n` is stored but not counted, so that `n + 1` bytes are written. -/
def strncpy (memory : Memory) : ℕ → Bytes → ℕ → Memory
  | _, _, 0 => memory
  | dest, [], n + 1 => fill (write8 memory dest 0) (dest + 1) 0 (n + 1)
  | dest, byte :: src, n + 1 => strncpy (write8 memory dest byte) (dest + 1) src n

theorem strncpy_eqOn (memory : Memory) (dest : ℕ) (src : Bytes) (n : ℕ) :
    Set.EqOn (strncpy memory dest src n) memory (range dest (n + 1))ᶜ := by
  induction n generalizing memory dest src with
  | zero => exact fun _ _ => by cases src <;> rfl
  | succ n ih =>
    intro location outside
    rw [mem_compl_range] at outside
    cases src with
    | nil =>
      rw [strncpy, fill_eqOn _ _ _ _ (by rw [mem_compl_range]; omega)]
      exact write8_apply_of_ne (by omega)
    | cons byte src =>
      rw [strncpy, ih _ _ _ (by rw [mem_compl_range]; omega)]
      exact write8_apply_of_ne (by omega)

theorem strncpy_apply {memory : Memory} {dest offset n : ℕ} {src : Bytes}
    (inside : offset < n) :
    strncpy memory dest src n (dest + offset) = src.getD offset 0 := by
  induction n generalizing memory dest src offset with
  | zero => omega
  | succ n ih =>
    have shift (offset : ℕ) : dest + (offset + 1) = dest + 1 + offset := by omega
    cases src with
    | nil =>
      rw [strncpy, List.getD_nil]
      rcases offset with _ | offset
      · rw [fill_eqOn _ _ _ _ (by rw [mem_compl_range]; omega),
          Nat.add_zero, write8_same]
      · rw [shift offset, fill_apply (by omega)]
    | cons byte src =>
      rw [strncpy]
      rcases offset with _ | offset
      · rw [strncpy_eqOn _ _ _ _ (by rw [mem_compl_range]; omega),
          Nat.add_zero, write8_same, List.getD_cons_zero]
      · rw [shift offset, ih (by omega), List.getD_cons_succ]

theorem strncpy_apply_of_le {memory : Memory} {dest n : ℕ} {src : Bytes}
    (long : n ≤ src.length) : strncpy memory dest src n (dest + n) = memory (dest + n) := by
  induction n generalizing memory dest src with
  | zero => cases src <;> rfl
  | succ n ih =>
    cases src with
    | nil => simp at long
    | cons byte src =>
      have place : dest + (n + 1) = dest + 1 + n := by omega
      rw [strncpy, place, ih (by simpa using long)]
      exact write8_apply_of_ne (by omega)

theorem strncpy_apply_end {memory : Memory} {dest n : ℕ} {src : Bytes}
    (short : src.length < n) :
    strncpy memory dest src n (dest + n) = 0 := by
  induction n generalizing memory dest src with
  | zero => omega
  | succ n ih =>
    have place : dest + (n + 1) = dest + 1 + n := by omega
    cases src with
    | nil => rw [strncpy, place, fill_apply (by omega)]
    | cons byte src => rw [strncpy, place, ih (by simpa using short)]

theorem getD_append_zero (text : Bytes) (offset : ℕ) :
    (text ++ [0]).getD offset 0 = text.getD offset 0 := by
  simp only [List.getD_eq_getElem?_getD]
  rcases Nat.lt_trichotomy offset text.length with inside | rfl | beyond
  · rw [List.getElem?_append_left inside]
  · simp
  · have outside : (text ++ [0]).length ≤ offset := by
      rw [List.length_append, List.length_singleton]
      exact beyond
    rw [List.getElem?_eq_none outside, List.getElem?_eq_none (Nat.le_of_lt beyond)]

theorem load_strncpy {dest n : ℕ} {src : Bytes} (short : src.length < n) :
    load (strncpy memory dest src n) dest (src ++ [0]).length = src ++ [0] := by
  refine load_eq fun offset inside => ?_
  rw [List.length_append, List.length_singleton] at inside
  rw [strncpy_apply (by omega), getD_append_zero]

end CString
