import Mathlib.Tactic.IntervalCases
import RamOS.Lib.Memory
import RamOS.Lib.Word32

/-!
# Entering the kernel

A program calls the kernel with a number in `eax` and up to three arguments in `ebx`, `ecx` and
`edx`. The stub behind `int $0x80` saves the registers on the stack, where they form the record
that `syscall_handler` reads and whose `eax` it replaces, and restores them from there.
-/

namespace RamOS.Proc.Syscall

open ByteMemory

inductive Register
  | eax | ecx | edx | ebx | esp | ebp | esi | edi | ds | es | fs | gs | eip | cs | eflags
deriving DecidableEq

structure Cpu where
  registers : Register → ℕ
  memory : Memory

namespace Cpu

@[simp]
def set (cpu : Cpu) (register : Register) (value : ℕ) : Cpu :=
  { cpu with registers := Function.update cpu.registers register value }

@[simp]
def push (cpu : Cpu) (value : ℕ) : Cpu :=
  let esp := Word32.sub (cpu.registers .esp) 4
  { cpu.set .esp esp with memory := write32 cpu.memory esp value }

/-- `add $4, %esp`, also the word of `esp` that `popa` leaves out. -/
@[simp]
def skip (cpu : Cpu) : Cpu := cpu.set .esp (Word32.add (cpu.registers .esp) 4)

@[simp]
def pop (cpu : Cpu) (register : Register) : Cpu :=
  cpu.skip.set register (read32 cpu.memory (cpu.registers .esp))

/-- The pushes of the named registers, with the values they have before the first one. -/
@[simp]
def pushAll (cpu : Cpu) (registers : List Register) : Cpu :=
  registers.foldl (fun after register => after.push (cpu.registers register)) cpu

@[simp]
def pusha (cpu : Cpu) : Cpu := cpu.pushAll [.eax, .ecx, .edx, .ebx, .esp, .ebp, .esi, .edi]

@[simp]
def popa (cpu : Cpu) : Cpu :=
  [.ebx, .edx, .ecx, .eax].foldl pop ([.edi, .esi, .ebp].foldl pop cpu).skip

end Cpu

/-- `syscall_table`: a function of three words, or `NULL`, for each number. -/
abbrev SyscallTable := List (Option (ℕ → ℕ → ℕ → Memory → ℤ × Memory))

def syscallDispatch (table : SyscallTable) (syscallNum arg₁ arg₂ arg₃ : ℕ) (memory : Memory) :
    ℤ × Memory :=
  match table[syscallNum]? with
  | none | some none => (-1, memory)
  | some (some function) => function arg₁ arg₂ arg₃ memory

/-- `syscall_handler`; `registers_t` begins with the words that the stub has pushed last. -/
def syscallHandler (table : SyscallTable) (regs : ℕ) (memory : Memory) : Memory :=
  let (ret, memory) := syscallDispatch table (read32 memory (regs + 32))
    (read32 memory (regs + 20)) (read32 memory (regs + 28)) (read32 memory (regs + 24)) memory
  write32 memory (regs + 32) (Word32.ofInt ret)

/-- `syscall_stub` up to its call, which pushes a return address. -/
def saveRegisters (returnTo : ℕ) (cpu : Cpu) : Cpu :=
  let cpu := cpu.pusha
  let cpu := cpu.push (cpu.registers .ds)
  let cpu := cpu.set .eax (cpu.registers .eax / 2 ^ 16 * 2 ^ 16 + 0x10)
  let cpu := [.ds, .es, .fs, .gs].foldl (fun cpu segment => cpu.set segment 0x10) cpu
  let cpu := cpu.push (cpu.registers .esp)
  cpu.push returnTo

/-- The return from the handler and the rest of `syscall_stub`, with its `iret`. -/
def restoreRegisters (cpu : Cpu) : Cpu :=
  [.eip, .cs, .eflags].foldl Cpu.pop (((cpu.pop .eip).skip.pop .ds).popa)

/-- `int $0x80`, without a change of the stack, up to the instruction behind it. What the compiled
handler leaves in the registers that it need not save is arbitrary. -/
def int80 (table : SyscallTable) (returnTo : ℕ) (left : Register → ℕ) (cpu : Cpu) : Cpu :=
  let cpu := saveRegisters returnTo (cpu.pushAll [.eflags, .cs, .eip])
  let regs := read32 cpu.memory (cpu.registers .esp + 4)
  restoreRegisters
    { registers := fun register =>
        if register ∈ [.eax, .ecx, .edx, .eflags] then left register else cpu.registers register
      memory := syscallHandler table regs cpu.memory }

/-- The call that the registers ask for. -/
def Cpu.request (table : SyscallTable) (cpu : Cpu) : Memory → ℤ × Memory :=
  syscallDispatch table (cpu.registers .eax) (cpu.registers .ebx) (cpu.registers .ecx)
    (cpu.registers .edx)

/-- The words on the stack of a system call, from the lowest on. -/
def frame : List Register :=
  [.ds, .edi, .esi, .ebp, .esp, .ebx, .edx, .ecx, .eax, .eip, .cs, .eflags]

section Frame

variable {cpu : Cpu} {returnTo top : ℕ}

theorem restoreRegisters_spec (isTop : cpu.registers .esp + 56 = top) (fits : top < 2 ^ 32) :
    (∀ i register, frame[i]? = some register → (restoreRegisters cpu).registers register =
        if register = .esp then top else read32 cpu.memory (top - (48 - 4 * i))) ∧
      ∀ segment ∈ [Register.es, .fs, .gs],
        (restoreRegisters cpu).registers segment = cpu.registers segment := by
  have esp : cpu.registers .esp = top - 56 := by omega
  have step (k : ℕ) (lower : 4 ≤ k) (upper : k ≤ 56) : Word32.add (top - k) 4 = top - (k - 4) := by
    rw [Word32.add_eq (by omega)]
    omega
  refine ⟨fun i register isField => ?_, by simp [restoreRegisters]⟩
  have inside : i < 12 := (List.getElem?_eq_some_iff.mp isField).1
  interval_cases i
  all_goals cases isField
  all_goals simp [restoreRegisters, esp, step]

variable (small : ∀ register, cpu.registers register < 2 ^ 32) (isTop : cpu.registers .esp = top)
  (room : 56 ≤ top)
include small isTop room

theorem saveRegisters_spec :
    let saved := saveRegisters returnTo (cpu.pushAll [.eflags, .cs, .eip])
    saved.registers .esp = top - 56 ∧
      (∀ segment ∈ [Register.es, .fs, .gs], saved.registers segment = 0x10) ∧
      read32 saved.memory (top - 52) = top - 48 ∧
      (∀ i register, frame[i]? = some register → register ≠ .esp →
        read32 saved.memory (top - (48 - 4 * i)) = cpu.registers register) ∧
      Set.EqOn saved.memory cpu.memory (range (top - 56) 56)ᶜ := by
  intro saved
  have fits := small .esp
  have step (k : ℕ) (inside : k ≤ 52) : Word32.sub (top - k) 4 = top - (k + 4) := by
    rw [Word32.sub_eq (by omega) (by omega), Nat.sub_sub]
  have first : Word32.sub top 4 = top - 4 := step 0 (by omega)
  have word (register : Register) : cpu.registers register % 2 ^ 32 = cpu.registers register :=
    Nat.mod_eq_of_lt (small register)
  refine ⟨?_, ?_, ?_, fun i register isField => ?_, ?_⟩
  · simp [saved, saveRegisters, isTop, first, step]
  · simp [saved, saveRegisters]
  · simp [saved, saveRegisters, isTop, first, step]
    simp (disch := omega) only [read32_write32_of_disjoint, read32_write32_same, Nat.mod_eq_of_lt]
  · have inside : i < 12 := (List.getElem?_eq_some_iff.mp isField).1
    interval_cases i
    all_goals cases isField
    all_goals simp [saved, saveRegisters, isTop, first, step]
    all_goals simp (disch := omega) only [read32_write32_of_disjoint, read32_write32_same, word]
  · intro location outside
    rw [mem_compl_range] at outside
    simp [saved, saveRegisters, isTop, first, step]
    simp (disch := omega) only [write32_apply_of_outside]

/-- A system call runs the function that the table has under the number in `eax` on the words in
`ebx`, `ecx` and `edx`, or answers -1. It returns with the answer in `eax` and the other registers
restored, except for three segment registers, and has changed nothing else but the 56 bytes below
the stack pointer. -/
theorem int80_serves {table : SyscallTable}
    (keeps : ∀ memory, Set.EqOn (cpu.request table memory).2 memory (range (top - 48) 48))
    (returnTo : ℕ) (left : Register → ℕ) :
    ∃ entry, Set.EqOn entry cpu.memory (range (top - 56) 56)ᶜ ∧
      let after := int80 table returnTo left cpu
      after.registers .eax = Word32.ofInt (cpu.request table entry).1 ∧
        (∀ register ∉ [Register.eax, .es, .fs, .gs],
          after.registers register = cpu.registers register) ∧
        (∀ register ∈ [Register.es, .fs, .gs], after.registers register = 0x10) ∧
        Set.EqOn after.memory (cpu.request table entry).2 (range (top - 56) 56)ᶜ := by
  have fits := small .esp
  have entered := @saveRegisters_spec _ returnTo _ small isTop room
  dsimp only [int80]
  generalize saveRegisters returnTo (cpu.pushAll [.eflags, .cs, .eip]) = saved at entered ⊢
  rcases entered with ⟨esp, segments, regs, fields, outside⟩
  have offset (k i : ℕ) (isIndex : k = 4 * i) (inside : i < 12) :
      top - 48 + k = top - (48 - 4 * i) := by omega
  have handled : syscallHandler table (top - 48) saved.memory =
      write32 (cpu.request table saved.memory).2 (top - (48 - 4 * 8))
        (Word32.ofInt (cpu.request table saved.memory).1) := by
    rw [syscallHandler, offset 32 8 rfl (by decide), offset 20 5 rfl (by decide),
      offset 28 7 rfl (by decide), offset 24 6 rfl (by decide), fields 8 .eax rfl (by decide),
      fields 5 .ebx rfl (by decide), fields 7 .ecx rfl (by decide),
      fields 6 .edx rfl (by decide)]
    rfl
  refine ⟨saved.memory, outside, ?_⟩
  rw [show saved.registers .esp + 4 = top - 52 by omega, regs, handled]
  have kept := keeps saved.memory
  generalize cpu.request table saved.memory = result at kept ⊢
  have restored := @restoreRegisters_spec
    { registers := fun register =>
        if register ∈ [.eax, .ecx, .edx, .eflags] then left register else saved.registers register
      memory := write32 result.2 (top - (48 - 4 * 8)) (Word32.ofInt result.1) }
    top (by simp [esp]; omega) (isTop ▸ fits)
  rcases restored with ⟨general, others⟩
  refine ⟨?_, ?_, ?_, ?_⟩
  · rw [general 8 .eax rfl, if_neg (by decide), read32_write32_same]
    exact Nat.mod_eq_of_lt (Word32.ofInt_lt _)
  · intro register other
    by_cases isEsp : register = .esp
    · rw [general 4 register (by rw [isEsp]; rfl), if_pos isEsp, isEsp, isTop]
    · have inFrame : register ∈ frame := by
        cases register <;> first | decide | simp at other
      obtain ⟨i, isField⟩ := List.mem_iff_getElem?.mp inFrame
      have inside : i < 12 := (List.getElem?_eq_some_iff.mp isField).1
      have notEax : i ≠ 8 := by
        rintro rfl
        cases isField
        simp at other
      rw [general i register isField, if_neg isEsp, read32_write32_of_disjoint (by omega),
        ← fields i register isField isEsp]
      refine read32_congr fun location inWord => kept ?_
      rw [mem_range] at inWord ⊢
      omega
  · intro segment listed
    rw [others segment listed, ← segments segment listed]
    exact if_neg (by rintro clobbered; simp at listed clobbered; grind)
  · intro location away
    rw [mem_compl_range] at away
    exact write32_apply_of_outside (by omega)

end Frame

/-- A program writes five bytes to the console, in a kernel that knows this call only. -/
theorem int80_serves_write :
    ∃ cpu, cpu.registers .eax = 1 ∧ cpu.registers .edx = 5 ∧
      (int80 [none, some fun _ _ count memory => (count, memory)] 0 (fun _ => 0) cpu).registers
        .eax = 5 := by
  let registers : Register → ℕ
    | .eax => 1 | .ebx => 1 | .ecx => 0x2000 | .edx => 5 | _ => 0x8000
  obtain ⟨_, _, result, _⟩ := @int80_serves ⟨registers, fun _ => 0⟩
    0x8000 (by rintro (_ | _) <;> decide) rfl (by decide)
    [none, some fun _ _ count memory => (count, memory)] (fun _ _ _ => rfl) 0 (fun _ => 0)
  exact ⟨⟨registers, fun _ => 0⟩, rfl, rfl, result⟩

end RamOS.Proc.Syscall
