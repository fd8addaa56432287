import RamOS.Lib.CString
import RamOS.Lib.Word32

/-!
# The bounded formatter

The keyboard loader, the file manager, the shell and the installer have the same formatter,
which knows `%s` and copies every other character. The bound is tested before each store, in the
loop over the format and in the loop over an argument.
-/

namespace RamOS.Snprintf

open ByteMemory CString

def storeArgument (size str : ℕ) : Memory → ℕ → Bytes → Memory × ℕ
  | memory, pos, [] => (memory, pos)
  | memory, pos, char :: s =>
    if (pos : ℤ) < Word32.toInt size - 1 then
      storeArgument size str (write8 memory (str + pos) char) (pos + 1) s
    else (memory, pos)

/-- The loop over the format, undefined when a `%s` is left without an argument. -/
def snprintfLoop (size str : ℕ) :
    Bytes → List Bytes → Memory → ℕ → Option (Memory × ℕ)
  | [], _, memory, pos => some (memory, pos)
  | [char], _, memory, pos =>
    if (pos : ℤ) < Word32.toInt size - 1 then some (write8 memory (str + pos) char, pos + 1)
    else some (memory, pos)
  | char :: next :: format, args, memory, pos =>
    if (pos : ℤ) < Word32.toInt size - 1 then
      if char = '%'.toUInt8 ∧ next = 's'.toUInt8 then
        args.head?.bind fun s =>
          snprintfLoop size str format args.tail (storeArgument size str memory pos s).1
            (storeArgument size str memory pos s).2
      else snprintfLoop size str (next :: format) args (write8 memory (str + pos) char) (pos + 1)
    else some (memory, pos)

/-- The common body: the memory and the number of characters before the terminator. -/
def formatted (memory : Memory) (str size : ℕ) (format : Bytes) (args : List Bytes) :
    Option (Memory × ℕ) :=
  (snprintfLoop size str format args memory 0).map fun (memory, pos) =>
    (write8 memory (str + pos) 0, pos)

def Keyboard.mySnprintf (memory : Memory) (str size : ℕ) (format : Bytes)
    (args : List Bytes) : Option Memory :=
  (formatted memory str size format args).map Prod.fst

def FileManager.snprintf (memory : Memory) (str size : ℕ) (format : Bytes)
    (args : List Bytes) : Option Memory :=
  (formatted memory str size format args).map Prod.fst

def Shell.snprintf (memory : Memory) (str size : ℕ) (format : Bytes)
    (args : List Bytes) : Option Memory :=
  (formatted memory str size format args).map Prod.fst

/-- The installer's `snprintf` returns the position. -/
def Installer.snprintf (memory : Memory) (str size : ℕ) (format : Bytes)
    (args : List Bytes) : Option (Memory × ℕ) :=
  formatted memory str size format args

/-- The format with each `%s` replaced by the next argument. -/
def expand : Bytes → List Bytes → Bytes
  | [], _ => []
  | [char], _ => [char]
  | char :: next :: format, args =>
    if char = '%'.toUInt8 ∧ next = 's'.toUInt8 then args.headD [] ++ expand format args.tail
    else char :: expand (next :: format) args

def directives : Bytes → ℕ
  | [] => 0
  | [_] => 0
  | char :: next :: format =>
    if char = '%'.toUInt8 ∧ next = 's'.toUInt8 then directives format + 1
    else directives (next :: format)

variable {size str pos : ℕ} {memory : Memory}

def stored (memory : Memory) (size str pos : ℕ) (text : Bytes) : Memory × ℕ :=
  (store memory (str + pos) (text.take (size - 1 - pos)),
    pos + (text.take (size - 1 - pos)).length)

theorem stored_of_full (full : ¬ pos < size - 1) (text : Bytes) :
    stored memory size str pos text = (memory, pos) := by
  have none : size - 1 - pos = 0 := by omega
  rw [stored, none, List.take_zero, store, List.length_nil, Nat.add_zero]

theorem stored_cons (room : pos < size - 1) (char : UInt8) (text : Bytes) :
    stored memory size str pos (char :: text) =
      stored (write8 memory (str + pos) char) size str (pos + 1) text := by
  have count : size - 1 - pos = size - 1 - (pos + 1) + 1 := by omega
  rw [stored, stored, count, List.take_succ_cons, store, List.length_cons, Nat.add_assoc,
    Nat.add_assoc pos, Nat.add_comm 1]

theorem stored_append (left right : Bytes) :
    stored memory size str pos (left ++ right) =
      stored (stored memory size str pos left).1 size str (stored memory size str pos left).2
        right := by
  have rest : size - 1 - pos - left.length =
      size - 1 - (pos + (left.take (size - 1 - pos)).length) := by
    rw [List.length_take]
    omega
  simp only [stored]
  rw [List.take_append, store_append, List.length_append, rest, Nat.add_assoc, Nat.add_assoc]

theorem storeArgument_eq (small : size < 2 ^ 31) (s : Bytes) :
    storeArgument size str memory pos s = stored memory size str pos s := by
  induction s generalizing memory pos with
  | nil => simp [storeArgument, stored, store]
  | cons char s ih =>
    rw [storeArgument, Word32.toInt_eq small]
    by_cases room : pos < size - 1
    · rw [if_pos (by omega), ih, stored_cons room]
    · rw [if_neg (by omega), stored_of_full room]

theorem snprintfLoop_eq (small : size < 2 ^ 31) (format : Bytes) (args : List Bytes)
    (enough : directives format ≤ args.length) :
    snprintfLoop size str format args memory pos =
      some (stored memory size str pos (expand format args)) := by
  induction format, args using expand.induct generalizing memory pos with
  | case1 args => simp [snprintfLoop, expand, stored, store]
  | case2 char args =>
    rw [snprintfLoop, expand, Word32.toInt_eq small]
    by_cases room : pos < size - 1
    · rw [if_pos (by omega), stored_cons room]
      simp [stored, store]
    · rw [if_neg (by omega), stored_of_full room]
  | case3 char next format args isDirective ih =>
    rw [directives, if_pos isDirective] at enough
    rw [snprintfLoop, expand, if_pos isDirective, if_pos isDirective, Word32.toInt_eq small]
    by_cases room : pos < size - 1
    · cases args with
      | nil => simp at enough
      | cons s args =>
        rw [if_pos (by omega), List.head?_cons, Option.bind_some, storeArgument_eq small,
          stored_append]
        exact ih (by simpa using enough)
    · rw [if_neg (by omega), stored_of_full room]
  | case4 char next format args literal ih =>
    rw [directives, if_neg literal] at enough
    rw [snprintfLoop, expand, if_neg literal, if_neg literal, Word32.toInt_eq small]
    by_cases room : pos < size - 1
    · rw [if_pos (by omega), stored_cons room]
      exact ih enough
    · rw [if_neg (by omega), stored_of_full room]

/-- The first `size - 1` characters of the text and a terminator are in the buffer, and nothing
else has changed. -/
structure Truncated (memory : Memory) (str size : ℕ) (text : Bytes) (after : Memory) :
    Prop where
  bytes : load after str ((text.take (size - 1)).length + 1) = text.take (size - 1) ++ [0]
  frame : Set.EqOn after memory (range str size)ᶜ

theorem truncated_strcpy (memory : Memory) (str : ℕ) (positive : 1 ≤ size) (text : Bytes) :
    Truncated memory str size text (strcpy memory str (text.take (size - 1))) := by
  constructor
  · have loaded := load_strcpy memory str (text.take (size - 1))
    rwa [List.length_append, List.length_singleton] at loaded
  · refine (strcpy_eqOn memory str (text.take (size - 1))).mono ?_
    rw [Set.compl_subset_compl]
    refine range_subset_range le_rfl ?_
    rw [List.length_take]
    omega

theorem formatted_eq (memory : Memory) (str : ℕ) (small : size < 2 ^ 31) {format : Bytes}
    {args : List Bytes} (enough : directives format ≤ args.length) :
    formatted memory str size format args =
      some (strcpy memory str ((expand format args).take (size - 1)),
        ((expand format args).take (size - 1)).length) := by
  rw [formatted, snprintfLoop_eq small format args enough, strcpy_eq_store]
  simp [stored]

/-- Each of the four formatters stores the expanded format, truncated to the buffer. -/
theorem snprintf_truncates (memory : Memory) (str : ℕ) (positive : 1 ≤ size)
    (small : size < 2 ^ 31) {format : Bytes} {args : List Bytes}
    (enough : directives format ≤ args.length) :
    ∃ after, Truncated memory str size (expand format args) after ∧
      Keyboard.mySnprintf memory str size format args = some after ∧
      FileManager.snprintf memory str size format args = some after ∧
      Shell.snprintf memory str size format args = some after ∧
      Installer.snprintf memory str size format args =
        some (after, ((expand format args).take (size - 1)).length) := by
  have run := formatted_eq memory str small enough
  refine ⟨_, truncated_strcpy memory str positive _, ?_, ?_, ?_, run⟩
  · rw [Keyboard.mySnprintf, run, Option.map_some]
  · rw [FileManager.snprintf, run, Option.map_some]
  · rw [Shell.snprintf, run, Option.map_some]

/-- A buffer of eight bytes that ends inside the argument. -/
theorem snprintf_truncates_shell :
    ∃ after, Shell.snprintf (fun _ => 0) 100 8 (ascii "/bin/%s") [ascii "shell"] = some after ∧
      load after 100 8 = ascii "/bin/sh" ++ [0] := by
  rcases snprintf_truncates (fun _ => 0) 100 (by decide : 1 ≤ 8) (by decide)
    (show directives (ascii "/bin/%s") ≤ [ascii "shell"].length by decide) with
    ⟨after, truncated, _, _, run, _⟩
  exact ⟨after, run, truncated.bytes⟩

end RamOS.Snprintf
