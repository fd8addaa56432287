import RamOS.Console.Model
import RamOS.Lib.CString
import RamOS.Lib.FormatString

/-!
# Formatted output of the kernel

`kprintf` knows the letters `s`, `d`, `u`, `x` and `c` and the second `%`. Behind any
other character it goes on with the format as if nothing had been there, and it has
used no argument.
-/

namespace RamOS.Console

open CString FormatString

/-- The loop that takes the digits off a number, the last one first. -/
def digitLoop (base : ℕ) (digit : ℕ → UInt8) : ℕ → ℕ → Bytes
  | 0, _ => []
  | rounds + 1, n =>
    if 0 < n then digit (n % base) :: digitLoop base digit rounds (n / base) else []

def decimalDigit (digit : ℕ) : UInt8 := '0'.toUInt8 + UInt8.ofNat digit

def upperHexDigit (digit : ℕ) : UInt8 := (ascii "0123456789ABCDEF").getD digit 0

/-- The loop runs until nothing is left, which takes no more rounds than the number. -/
def printUint (console : State) (n : ℕ) : State :=
  if n = 0 then consolePutchar console '0'.toUInt8
  else consoleWrite console (digitLoop 10 decimalDigit n n).reverse

/-- To negate the least integer is undefined in C. It is taken to wrap around: the integer stays
negative, and then has no digits. -/
def printInt (console : State) (n : ℤ) : State :=
  let signed := if n < 0 then consolePutchar console '-'.toUInt8 else console
  let magnitude := if n < 0 then Word32.toInt (Word32.ofInt (-n)) else n
  if magnitude = 0 then consolePutchar signed '0'.toUInt8
  else consoleWrite signed (digitLoop 10 decimalDigit magnitude.toNat magnitude.toNat).reverse

def printHex (console : State) (n : ℕ) : State :=
  if n = 0 then consoleWrite console (ascii "0x0")
  else consoleWrite (consoleWrite console (ascii "0x")) (digitLoop 16 upperHexDigit n n).reverse

structure Kprintf where
  console : State
  progress : Progress

def Kprintf.putchar (state : Kprintf) (c : UInt8) : Kprintf :=
  { state with console := consolePutchar state.console c }

section

variable (strings : ℕ → Bytes) (args : ℕ → UInt32)

/-- A `case` that prints the argument `args[arg_index++]`. -/
def Kprintf.apply (kind : Kind) (print : State → ℕ → State) (state : Kprintf) : Kprintf :=
  ⟨print state.console (args state.progress.argIndex).toNat, state.progress.apply kind⟩

def kprintfDirective (state : Kprintf) (c : UInt8) : Kprintf :=
  if c = 's'.toUInt8 then
    state.apply args .string fun console word => consoleWrite console (strings word)
  else if c = 'd'.toUInt8 then
    state.apply args .signed fun console word => printInt console (Word32.toInt word)
  else if c = 'u'.toUInt8 then state.apply args .unsigned printUint
  else if c = 'x'.toUInt8 then state.apply args .hex printHex
  else if c = 'c'.toUInt8 then
    state.apply args .char fun console word => consolePutchar console (UInt8.ofNat word)
  else if c = '%'.toUInt8 then state.putchar '%'.toUInt8
  else (state.putchar '%'.toUInt8).putchar c

/-- The string at each address and the words behind `fmt` on the stack are given. -/
def kprintf (fmt : Bytes) (console : State) : Kprintf :=
  interpret (fun _ => false) Kprintf.putchar (kprintfDirective strings args) fmt ⟨console, .start⟩

theorem kprintf_tracks :
    Tracks Kprintf.putchar (kprintfDirective strings args) Kprintf.progress := by
  refine ⟨fun _ _ => rfl, fun state kind => ?_, fun state char noLetter => ?_⟩
  · cases kind
    all_goals rfl
  · rcases ne_letters noLetter with ⟨notString, notSigned, notUnsigned, notHex, notChar⟩
    simp only [kprintfDirective, notString, notSigned, notUnsigned, notHex, notChar, if_false]
    split
    · rfl
    · rfl

theorem kprintf_inStep (pieces : List Piece) (console : State) :
    InStep pieces (kprintf strings args (format pieces) console).progress ↔
      ∀ spec, Piece.conversion spec ∈ pieces → spec.Plain := by
  refine ((kprintf_tracks strings args).applied_iff pieces).trans ?_
  simp only [Bool.false_eq_true, not_false_eq_true, and_true]
  constructor
  · intro all spec listed
    rcases List.append_of_mem listed with ⟨before, after, shape⟩
    exact all before spec after shape
  · rintro all before spec after rfl
    exact all spec (List.mem_append_right before List.mem_cons_self)

end

end RamOS.Console
