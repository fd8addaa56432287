import RamOS.Proc.Exec

/-!
# The arguments on the initial stack

`process_exec` makes room for the arguments by moving the stack pointer down: by the strings, to
the next multiple of sixteen, by the array of pointers with its null, and by the two words of
`argv` and `argc`. Nothing limits how far it moves, and the pointer wraps.
-/

namespace RamOS.Proc

open ByteMemory

def stringsBelow (argv : List Bytes) : ℕ :=
  argv.foldr (fun text stack => Word32.sub stack (text.length + 1)) userStackTop

def stringRanges : List Bytes → List (ℕ × ℕ)
  | [] => []
  | text :: rest => (stringsBelow (text :: rest), text.length + 1) :: stringRanges rest

def argvPointer (argv : List Bytes) : ℕ :=
  argv.foldr (fun _ stack => Word32.sub stack 4)
    (Word32.sub (stringsBelow argv &&& Word32.not 0xF) 4)

def reservedRanges (argv : List Bytes) : List (ℕ × ℕ) :=
  (pushArguments argv, 4) :: (Word32.sub (argvPointer argv) 4, 4) ::
    (argvPointer argv, 4 * (argv.length + 1)) :: stringRanges argv

def stringBytes (argv : List Bytes) : ℕ := (argv.map fun text => text.length + 1).sum

def stackUse : Option (List Bytes) → ℕ
  | none => 0
  | some argv => (stringBytes argv + 15) / 16 * 16 + 4 * (argv.length + 1) + 8

/-- The stack pointer is in the two pages of the stack or at their end, and what is reserved
lies apart inside of them. -/
structure InsideStack (argv : Option (List Bytes)) (esp : ℕ) : Prop where
  low : userStackTop - userStackSize ≤ esp
  high : esp ≤ userStackTop
  inside : ∀ arguments, argv = some arguments → ∀ reserved ∈ reservedRanges arguments,
    userStackTop - userStackSize ≤ reserved.1 ∧ reserved.1 + reserved.2 ≤ userStackTop
  apart : ∀ arguments, argv = some arguments →
    (reservedRanges arguments).Pairwise fun left right =>
      Disjoint (range left.1 left.2) (range right.1 right.2)

variable {argv : List Bytes}

theorem pushArguments_eq (argv : List Bytes) :
    pushArguments argv = Word32.sub (Word32.sub (argvPointer argv) 4) 4 := by
  simp only [pushArguments, argvPointer, stringsBelow]

theorem pushArguments_of_le (room : 8 ≤ argvPointer argv) (word : argvPointer argv < 2 ^ 32) :
    pushArguments argv = argvPointer argv - 8 := by
  rw [pushArguments_eq, Word32.sub_eq (by omega) word, Word32.sub_eq (by omega) (by omega)]
  omega

@[simp]
theorem stringsBelow_nil : stringsBelow [] = userStackTop := by
  rw [stringsBelow, List.foldr_nil]

theorem stringsBelow_cons (text : Bytes) (rest : List Bytes) :
    stringsBelow (text :: rest) = Word32.sub (stringsBelow rest) (text.length + 1) := by
  rw [stringsBelow, List.foldr_cons, ← stringsBelow]

theorem stringBytes_cons (text : Bytes) (rest : List Bytes) :
    stringBytes (text :: rest) = text.length + 1 + stringBytes rest := by
  rw [stringBytes, List.map_cons, List.sum_cons, ← stringBytes]

theorem pushStrings_stack (pointers index : ℕ) (argv : List Bytes) (memory : Memory) :
    (pushStrings pointers index argv memory).2 = stringsBelow argv := by
  induction argv generalizing index with
  | nil => rw [pushStrings, stringsBelow_nil]
  | cons text rest ih =>
    have below := ih (index + 1)
    rw [pushStrings]
    dsimp only
    rw [below, stringsBelow_cons]

theorem stringsBelow_lt (argv : List Bytes) : stringsBelow argv < 2 ^ 32 := by
  cases argv with
  | nil =>
    rw [stringsBelow_nil]
    decide
  | cons text rest =>
    rw [stringsBelow_cons]
    exact Nat.mod_lt _ (by decide)

/-- The words that `process_exec` stores in `arg_ptrs` are the places of the strings. -/
theorem pushStrings_pointers (pointers start : ℕ) (argv : List Bytes) (memory : Memory)
    {index : ℕ} (listed : index < (stringRanges argv).length) :
    read32 (pushStrings pointers start argv memory).1 (pointers + 4 * (start + index)) =
      (stringRanges argv)[index].1 := by
  induction argv generalizing start index with
  | nil => cases listed
  | cons text rest ih =>
    have below : (pushStrings pointers start (text :: rest) memory).1 =
        write32 (pushStrings pointers (start + 1) rest memory).1 (pointers + 4 * start)
          (stringsBelow (text :: rest)) := by
      rw [pushStrings]
      dsimp only
      rw [pushStrings_stack, stringsBelow_cons]
    rw [below]
    cases index with
    | zero =>
      rw [Nat.add_zero start, read32_write32_same]
      exact Nat.mod_eq_of_lt (stringsBelow_lt _)
    | succ index =>
      rw [read32_write32_of_disjoint (by omega),
        show start + (index + 1) = start + 1 + index by omega]
      exact ih (start + 1) (Nat.lt_of_succ_lt_succ listed)

section Fitting

theorem stringsBelow_eq (fits : stringBytes argv ≤ userStackTop) :
    stringsBelow argv = userStackTop - stringBytes argv := by
  induction argv with
  | nil => rw [stringsBelow_nil, stringBytes, List.map_nil, List.sum_nil, Nat.sub_zero]
  | cons text rest ih =>
    have total := stringBytes_cons text rest
    have top : userStackTop < 2 ^ 32 := by decide
    have below := ih (by omega)
    rw [stringsBelow_cons, below, Word32.sub_eq (by omega) (by omega)]
    omega

theorem stringRanges_bounds (fits : stringBytes argv ≤ userStackTop) :
    ∀ place ∈ stringRanges argv,
      userStackTop - stringBytes argv ≤ place.1 ∧ place.1 + place.2 ≤ userStackTop := by
  induction argv with
  | nil => exact fun place listed => absurd listed List.not_mem_nil
  | cons text rest ih =>
    have total := stringBytes_cons text rest
    intro place listed
    rcases List.mem_cons.mp listed with rfl | later
    · dsimp only
      rw [stringsBelow_eq fits]
      omega
    · have bounds := ih (by omega) place later
      omega

theorem stringRanges_apart (fits : stringBytes argv ≤ userStackTop) :
    (stringRanges argv).Pairwise fun left right =>
      Disjoint (range left.1 left.2) (range right.1 right.2) := by
  induction argv with
  | nil => exact List.Pairwise.nil
  | cons text rest ih =>
    have total := stringBytes_cons text rest
    refine List.Pairwise.cons ?_ (ih (by omega))
    intro later listed
    have bounds := stringRanges_bounds (by omega : stringBytes rest ≤ userStackTop) later listed
    rw [stringsBelow_eq fits]
    exact disjoint_range (.inl (by omega))

theorem argvPointer_eq (fits : stringBytes argv + 15 + 4 * (argv.length + 1) ≤ userStackTop) :
    argvPointer argv =
      userStackTop - (stringBytes argv + 15) / 16 * 16 - 4 * (argv.length + 1) := by
  have top : userStackTop = 16 * 0x0C000000 := rfl
  have aligned : stringsBelow argv &&& Word32.not 0xF =
      userStackTop - (stringBytes argv + 15) / 16 * 16 := by
    have mask := @Word32.and_not_low 4 (stringsBelow argv) (by omega) (stringsBelow_lt argv)
    rw [show (2 : ℕ) ^ 4 - 1 = 0xF from rfl] at mask
    rw [mask, stringsBelow_eq (by omega)]
    omega
  have moved (rest : List Bytes) (stack : ℕ) (word : stack < 2 ^ 32)
      (room : 4 * rest.length ≤ stack) :
      rest.foldr (fun _ stack => Word32.sub stack 4) stack = stack - 4 * rest.length := by
    induction rest with
    | nil => rfl
    | cons text rest ih =>
      rw [List.length_cons] at room ⊢
      rw [List.foldr_cons, ih (by omega), Word32.sub_eq (by omega) (by omega)]
      omega
  rw [argvPointer, aligned, Word32.sub_eq (by omega) (by omega), moved argv _ (by omega) (by omega)]
  omega

theorem length_le_stringBytes (argv : List Bytes) : argv.length ≤ stringBytes argv := by
  induction argv with
  | nil => exact le_rfl
  | cons text rest ih =>
    have total := stringBytes_cons text rest
    rw [List.length_cons]
    omega

theorem stringBytes_le (inside : ∀ place ∈ stringRanges argv,
      userStackTop - userStackSize ≤ place.1 ∧ place.1 + place.2 ≤ userStackTop) :
    stringBytes argv ≤ userStackSize := by
  induction argv with
  | nil => exact Nat.zero_le _
  | cons text rest ih =>
    have total := stringBytes_cons text rest
    have top : userStackTop = 0xC0000000 := rfl
    have size : userStackSize = 8192 := rfl
    have room := ih fun place listed => inside place (List.mem_cons_of_mem _ listed)
    have first := inside _ List.mem_cons_self
    dsimp only at first
    rw [stringsBelow_cons, stringsBelow_eq (by omega),
      Word32.sub_eq (by omega) (by omega)] at first
    omega

theorem argvPointer_bounds (fits : stackUse (some argv) ≤ userStackSize) :
    userStackTop - userStackSize + 8 ≤ argvPointer argv ∧
      argvPointer argv + 4 * (argv.length + 1) + stringBytes argv ≤ userStackTop := by
  have top : userStackTop = 0xC0000000 := rfl
  have size : userStackSize = 8192 := rfl
  rw [stackUse] at fits
  have pointer := @argvPointer_eq argv (by omega)
  omega

theorem insideStack_of_fits (fits : stackUse (some argv) ≤ userStackSize) :
    InsideStack (some argv) (pushArguments argv) := by
  have top : userStackTop = 0xC0000000 := rfl
  rcases argvPointer_bounds fits with ⟨low, high⟩
  have slot : Word32.sub (argvPointer argv) 4 = argvPointer argv - 4 :=
    Word32.sub_eq (by omega) (by omega)
  have esp := pushArguments_of_le (show 8 ≤ argvPointer argv by omega) (by omega)
  have bounds := stringRanges_bounds (by omega : stringBytes argv ≤ userStackTop)
  refine ⟨by omega, by omega, ?_, ?_⟩
  · rintro _ ⟨⟩ reserved listed
    simp only [reservedRanges, List.mem_cons] at listed
    rcases listed with rfl | rfl | rfl | isString
    · dsimp only
      omega
    · dsimp only
      omega
    · dsimp only
      omega
    · have place := bounds reserved isString
      omega
  · rintro _ ⟨⟩
    simp only [reservedRanges, List.pairwise_cons, List.mem_cons, forall_eq_or_imp]
    refine ⟨⟨disjoint_range (.inl (by omega)), disjoint_range (.inl (by omega)), ?_⟩,
      ⟨disjoint_range (.inl (by omega)), ?_⟩, ?_, stringRanges_apart (by omega)⟩
    all_goals
      intro string listed
      have place := bounds string listed
      exact disjoint_range (.inl (by omega))

theorem fits_of_insideStack (insideStack : InsideStack (some argv) (pushArguments argv)) :
    stackUse (some argv) ≤ userStackSize := by
  have top : userStackTop = 0xC0000000 := rfl
  have size : userStackSize = 8192 := rfl
  have strings : stringBytes argv ≤ userStackSize := by
    apply stringBytes_le
    intro place listed
    apply insideStack.inside argv rfl
    simp only [reservedRanges, List.mem_cons]
    exact .inr (.inr (.inr listed))
  have count := length_le_stringBytes argv
  have pointer := @argvPointer_eq argv (by omega)
  have esp := pushArguments_of_le (show 8 ≤ argvPointer argv by omega) (by omega)
  have low := insideStack.low
  rw [stackUse]
  omega

end Fitting

section Exec

variable {table : Table} {process entry : ℕ}

theorem processExec_loaded (loaded : entry ≠ 0) (argv : Option (List Bytes)) :
    ∃ stack, processExec table process entry argv =
        (0, table.modify process fun record =>
          { record with eip := entry, esp := stack, ebp := stack, state := .ready }) ∧
      (argv = none → stack = userStackTop) ∧
      ∀ arguments, argv = some arguments → stack = pushArguments arguments := by
  unfold processExec
  cases argv with
  | none => exact ⟨userStackTop, if_neg loaded, fun _ => rfl, fun _ isSome => nomatch isSome⟩
  | some arguments =>
    refine ⟨pushArguments arguments, if_neg loaded, fun isNone => (nomatch isNone), ?_⟩
    rintro _ ⟨⟩
    rfl

theorem modify_esp (stack : ℕ) :
    ((table.modify process fun record =>
      { record with eip := entry, esp := stack, ebp := stack, state := .ready }).record
        process).esp = stack := by
  simp only [Table.modify, Function.update_self]

/-- If `process_exec` returns 0, the stack pointer and what is reserved lie inside the stack
exactly if the arguments take no more than two pages. -/
theorem processExec_stack_iff {argv : Option (List Bytes)}
    (succeeded : (processExec table process entry argv).1 = 0) :
    InsideStack argv (((processExec table process entry argv).2.record process).esp) ↔
      stackUse argv ≤ userStackSize := by
  have loaded : entry ≠ 0 := by
    rintro rfl
    simp [processExec] at succeeded
  rcases @processExec_loaded table process entry loaded argv with ⟨stack, run, alone, below⟩
  rw [run, modify_esp]
  cases argv with
  | none =>
    rw [alone rfl]
    refine iff_of_true ⟨by decide, le_rfl, ?_, ?_⟩ (by decide)
    · rintro arguments ⟨⟩
    · rintro arguments ⟨⟩
  | some arguments =>
    rw [below arguments rfl]
    exact ⟨fits_of_insideStack, insideStack_of_fits⟩

end Exec

def clearedTable : Table where
  record := fun _ => clearedProcess 0
  processList := []
  currentProcess := none
  nextPid := 1

theorem processExec_stack_short :
    (processExec clearedTable 0x1000 0x400000 (some [[0x6C, 0x73], [0x2F]])).1 = 0 ∧
      InsideStack (some [[0x6C, 0x73], [0x2F]])
        (((processExec clearedTable 0x1000 0x400000
          (some [[0x6C, 0x73], [0x2F]])).2.record 0x1000).esp) := by
  have succeeded :
      (processExec clearedTable 0x1000 0x400000 (some [[0x6C, 0x73], [0x2F]])).1 = 0 := rfl
  exact ⟨succeeded, (processExec_stack_iff succeeded).mpr (by decide)⟩

/-- With one argument of 8192 characters the stack pointer is below the stack. -/
theorem long_argument_leaves_stack :
    (processExec clearedTable 0x1000 0x400000 (some [List.replicate 8192 0x61])).1 = 0 ∧
      ((processExec clearedTable 0x1000 0x400000
          (some [List.replicate 8192 0x61])).2.record 0x1000).esp <
        userStackTop - userStackSize := by
  have esp : pushArguments [List.replicate 8192 0x61] = 0xBFFFDFE0 := by
    rw [pushArguments_eq, argvPointer, stringsBelow_cons, stringsBelow_nil,
      List.length_replicate, List.foldr_cons, List.foldr_nil]
    decide
  rcases @processExec_loaded clearedTable 0x1000 0x400000 (by decide)
    (some [List.replicate 8192 0x61]) with ⟨stack, run, -, below⟩
  rw [run, modify_esp, below _ rfl, esp]
  exact ⟨rfl, by decide⟩

end RamOS.Proc
