import RamOS.Libsys.Printf

/-!
# Where `printf` stores

`printf` has a buffer of 1024 bytes. It tests its position before it reads a directive and
before each character of a string, but not between the characters of a number. The stores
are followed here one by one. They all stay inside the buffer exactly if no number begins
in front of the last byte and ends past it.
-/

namespace RamOS.Libsys

open CString FormatString

/-- The loop of `printf` with the index of each store so far. -/
structure Stores where
  state : Printf
  indices : List ℕ

namespace Stores

def store (stores : Stores) (c : UInt8) : Stores :=
  ⟨stores.state.put [c], stores.indices ++ [stores.state.buffer.length]⟩

def storeText (stores : Stores) (text : Bytes) : Stores := text.foldl store stores

def storeString : Bytes → Stores → Stores
  | [], stores => stores
  | c :: rest, stores =>
    if stores.state.buffer.length < 1023 then storeString rest (stores.store c) else stores

def argument (args : ℕ → UInt32) (stores : Stores) : ℕ :=
  (args stores.state.progress.argIndex).toNat

def used (kind : Kind) (stores : Stores) : Stores :=
  { stores with state := { stores.state with progress := stores.state.progress.apply kind } }

end Stores

section

variable (strings : ℕ → Bytes) (args : ℕ → UInt32)

def storeDirective (stores : Stores) (c : UInt8) : Stores :=
  let word := stores.argument args
  if c = 's'.toUInt8 then (stores.storeString (strings word)).used .string
  else if c = 'd'.toUInt8 then (stores.storeText (intText (Word32.toInt word))).used .signed
  else if c = 'u'.toUInt8 then (stores.storeText (uintText word)).used .unsigned
  else if c = 'x'.toUInt8 then (stores.storeText (hexText word)).used .hex
  else if c = 'c'.toUInt8 then (stores.store (UInt8.ofNat word)).used .char
  else if c = '%'.toUInt8 then stores.store '%'.toUInt8
  else stores

/-- The indices of all stores of a call, the one of the final NUL included. -/
def storeIndices (fmt : Bytes) : List ℕ :=
  let final := interpret (fun stores => full stores.state) Stores.store
    (storeDirective strings args) fmt ⟨⟨[], .start⟩, []⟩
  final.indices ++ [final.state.buffer.length]

def StaysInside (fmt : Bytes) : Prop :=
  ∀ index ∈ storeIndices strings args fmt, index ≤ 1023

end

/-- The stores so far lead to a state of `printf`, and filled the buffer from its start on. -/
def Stores.Fill (stores : Stores) (state : Printf) : Prop :=
  stores.state = state ∧ stores.indices = List.range state.buffer.length

namespace Stores.Fill

variable {stores : Stores} {state : Printf}

theorem store (fill : stores.Fill state) (c : UInt8) : (stores.store c).Fill (state.put [c]) := by
  rcases fill with ⟨rfl, indices⟩
  refine ⟨rfl, ?_⟩
  simp [Stores.store, Printf.put, indices, List.range_succ]

theorem storeText (fill : stores.Fill state) (text : Bytes) :
    (stores.storeText text).Fill (state.put text) := by
  induction text generalizing stores state with
  | nil => simpa [Stores.storeText, Printf.put] using fill
  | cons c text ih => simpa [Stores.storeText, Printf.put] using ih (fill.store c)

theorem storeString (fill : stores.Fill state) (text : Bytes) :
    (stores.storeString text).Fill (state.put (text.take (1023 - state.buffer.length))) := by
  induction text generalizing stores state with
  | nil => simpa [Stores.storeString, Printf.put] using fill
  | cons c text ih =>
    rw [Stores.storeString, fill.1]
    split
    · next room =>
        have count : 1023 - state.buffer.length = 1023 - (state.buffer.length + 1) + 1 := by
          omega
        have later := ih (fill.store c)
        simp only [Printf.put, List.length_append, List.length_singleton, List.append_assoc,
          List.singleton_append] at later
        rw [count, List.take_succ_cons]
        exact later
    · next noRoom =>
        have count : 1023 - state.buffer.length = 0 := by omega
        rw [count, List.take_zero]
        simpa [Printf.put] using fill

theorem used (fill : stores.Fill state) (kind : Kind) :
    (stores.used kind).Fill { state with progress := state.progress.apply kind } := by
  rcases fill with ⟨rfl, indices⟩
  exact ⟨rfl, indices⟩

theorem directive (strings : ℕ → Bytes) (args : ℕ → UInt32) (fill : stores.Fill state)
    (c : UInt8) :
    (storeDirective strings args stores c).Fill (printfDirective strings args state c) := by
  have word : stores.argument args = (args state.progress.argIndex).toNat := by
    rw [Stores.argument, fill.1]
  simp only [storeDirective, printfDirective, word]
  split_ifs
  · exact (fill.storeString _).used .string
  · exact (fill.storeText _).used .signed
  · exact (fill.storeText _).used .unsigned
  · exact (fill.storeText _).used .hex
  · exact (fill.store _).used .char
  · exact fill.store _
  · exact fill

end Stores.Fill

section

variable {strings : ℕ → Bytes} {args : ℕ → UInt32}

theorem storeIndices_eq_range (fmt : Bytes) :
    storeIndices strings args fmt =
      List.range ((printf strings args fmt).buffer.length + 1) := by
  have start : Stores.Fill ⟨⟨[], .start⟩, []⟩ ⟨[], .start⟩ := ⟨rfl, rfl⟩
  have final : Stores.Fill _ (printf strings args fmt) :=
    interpret_related (fun fill => congrArg full fill.1) (fun fill => fill.store)
      (fun fill => fill.directive strings args) fmt start
  rw [storeIndices, final.1, final.2, List.range_succ]

theorem staysInside_iff_length (fmt : Bytes) :
    StaysInside strings args fmt ↔ (printf strings args fmt).buffer.length ≤ 1023 := by
  simp only [StaysInside, storeIndices_eq_range, List.mem_range]
  constructor
  · intro inside
    exact inside _ (Nat.lt_succ_self _)
  · intro short index stored
    omega

end

/-- The numbers, whose characters are stored without a test of the position. -/
def isNumber : Token → Bool
  | .conversion .signed => true
  | .conversion .unsigned => true
  | .conversion .hex => true
  | _ => false

def nextArgument (index : ℕ) : Token → ℕ
  | .conversion _ => index + 1
  | _ => index

section

variable (strings : ℕ → Bytes) (args : ℕ → UInt32)

def tokenText (index : ℕ) : Token → Bytes
  | .literal char => [char]
  | .conversion kind => conversionText strings kind (args index).toNat
  | .other char _ => if char = '%'.toUInt8 then ['%'.toUInt8] else []

/-- The text that the tokens stand for from an argument on, however long it is. -/
def tokensText : ℕ → List Token → Bytes
  | _, [] => []
  | index, token :: rest =>
    tokenText strings args index token ++ tokensText (nextArgument index token) rest

/-- No number of the tokens begins in front of the last byte of the buffer and ends past it. -/
def NumbersFit (position index : ℕ) (list : List Token) : Prop :=
  ∀ before number after, list = before ++ number :: after → isNumber number →
    position + (tokensText strings args index before).length < 1023 →
    position + (tokensText strings args index (before ++ [number])).length ≤ 1023

variable {strings args}

theorem numbersFit_of_full {position : ℕ} (isFull : 1023 ≤ position) (index : ℕ)
    (list : List Token) : NumbersFit strings args position index list := by
  intro before number after shape isNumber begins
  omega

theorem numbersFit_cons {position index : ℕ} {token : Token} {list : List Token} :
    NumbersFit strings args position index (token :: list) ↔
      (isNumber token → position < 1023 →
          position + (tokenText strings args index token).length ≤ 1023) ∧
        NumbersFit strings args (position + (tokenText strings args index token).length)
          (nextArgument index token) list := by
  constructor
  · intro fit
    refine ⟨fun number begins => ?_, fun before number after shape found begins => ?_⟩
    · simpa [tokensText] using fit [] token list rfl number (by simpa [tokensText] using begins)
    · have here := fit (token :: before) number after (by rw [shape, List.cons_append]) found
      simp only [tokensText, List.cons_append, List.length_append] at here begins ⊢
      omega
  · rintro ⟨first, others⟩ before number after shape found begins
    cases before with
    | nil =>
      rw [List.nil_append, List.cons.injEq] at shape
      rw [← shape.1] at found ⊢
      simpa [tokensText] using first found (by simpa [tokensText] using begins)
    | cons _ before =>
      rw [List.cons_append, List.cons.injEq] at shape
      rcases shape with ⟨rfl, shape⟩
      have later := others before number after shape found
      simp only [tokensText, List.cons_append, List.length_append] at later begins ⊢
      omega

theorem length_apply {state : Printf} (going : state.buffer.length < 1023) (token : Token) :
    let behind := state.buffer.length +
      (tokenText strings args state.progress.argIndex token).length
    (token.apply (fun state c => Printf.put state [c]) (printfDirective strings args)
        state).buffer.length =
      if isNumber token then behind else min behind 1023 := by
  cases token with
  | literal char =>
    simp [Token.apply, Printf.put, tokenText, isNumber]
    omega
  | conversion kind =>
    cases kind with
    | string =>
      change (state.buffer ++ (strings _).take (1023 - state.buffer.length)).length = _
      simp [tokenText, conversionText, isNumber]
      omega
    | signed => exact List.length_append
    | unsigned => exact List.length_append
    | hex => exact List.length_append
    | char =>
      change (state.buffer ++ [_]).length = _
      simp [tokenText, conversionText, isNumber]
      omega
  | other char noLetter =>
    rcases ne_letters noLetter with ⟨notString, notSigned, notUnsigned, notHex, notChar⟩
    simp only [Token.apply, printfDirective, notString, notSigned, notUnsigned, notHex, notChar,
      if_false, tokenText, isNumber, Bool.false_eq_true]
    split
    · simp [Printf.put, ascii]
      omega
    · simp
      omega

theorem argIndex_apply (state : Printf) (token : Token) :
    (token.apply (fun state c => Printf.put state [c]) (printfDirective strings args)
        state).progress.argIndex =
      nextArgument state.progress.argIndex token := by
  have tracks := printf_tracks strings args
  cases token with
  | literal char => rfl
  | conversion kind => exact congrArg Progress.argIndex (tracks.letter state kind)
  | other char noLetter => exact congrArg Progress.argIndex (tracks.other state char noLetter)

/-- The run over the tokens, from a position inside the buffer. -/
theorem length_readTokens_le_iff (list : List Token) {state : Printf}
    (inside : state.buffer.length ≤ 1023) :
    (readTokens full (fun state c => Printf.put state [c]) (printfDirective strings args) list
        state).buffer.length ≤ 1023 ↔
      NumbersFit strings args state.buffer.length state.progress.argIndex list := by
  induction list generalizing state with
  | nil =>
    refine iff_of_true inside ?_
    intro before number after shape
    exact absurd shape.symm (by simp)
  | cons token list ih =>
    rw [readTokens]
    split
    · next stopped =>
        exact iff_of_true inside (numbersFit_of_full (of_decide_eq_true stopped) _ _)
    · next going =>
        have room : state.buffer.length < 1023 := by simpa [full] using going
        have length := @length_apply strings args state room token
        have next := @argIndex_apply strings args state token
        generalize token.apply _ _ state = after at length next ⊢
        by_cases fits : isNumber token → state.buffer.length +
            (tokenText strings args state.progress.argIndex token).length ≤ 1023
        · have stays : after.buffer.length ≤ 1023 := by
            rw [length]
            split
            · next number => exact fits number
            · exact Nat.min_le_right _ _
          rw [ih stays, next, numbersFit_cons, and_iff_right fun number _ => fits number]
          -- A string that is cut and the text it was cut from both fill the buffer.
          by_cases cut : after.buffer.length = 1023
          · refine iff_of_true (numbersFit_of_full (Nat.le_of_eq cut.symm) _ _)
              (numbersFit_of_full ?_ _ _)
            split at length <;> omega
          · have uncut : after.buffer.length = state.buffer.length +
                (tokenText strings args state.progress.argIndex token).length := by
              split at length <;> omega
            rw [uncut]
        · rcases Classical.not_imp.mp fits with ⟨number, past⟩
          simp only [number, if_true] at length
          have stopped : full after := decide_eq_true (by omega)
          rw [readTokens_of_stop stopped, numbersFit_cons]
          refine iff_of_false (by omega) ?_
          rintro ⟨fit, -⟩
          exact past (fit number room)

end

/-- Each store of `printf`, the final NUL included, is inside the buffer exactly if no number that
begins in front of the last byte ends past it. -/
theorem printf_staysInside_iff (strings : ℕ → Bytes) (args : ℕ → UInt32)
    (fmt : Bytes) :
    StaysInside strings args fmt ↔
      ∀ before number after, tokens fmt = before ++ number :: after → isNumber number →
        (tokensText strings args 0 before).length < 1023 →
        (tokensText strings args 0 (before ++ [number])).length ≤ 1023 := by
  have run := @length_readTokens_le_iff strings args (tokens fmt) ⟨[], .start⟩ (Nat.zero_le _)
  rw [staysInside_iff_length, printf, interpret_eq_readTokens, run]
  simp only [NumbersFit, List.length_nil, Nat.zero_add, Progress.start]

theorem buffer_string_number {strings : ℕ → Bytes} {args : ℕ → UInt32}
    (room : (strings (args 0).toNat).length < 1023) :
    (printf strings args (ascii "%s%d")).buffer =
      strings (args 0).toNat ++ intText (Word32.toInt (args 1).toNat) := by
  have text : printfDirective strings args ⟨[], .start⟩ 's'.toUInt8 =
      ⟨strings (args 0).toNat, Progress.start.apply .string⟩ := by
    simp only [printfDirective, Printf.apply, if_true, List.nil_append, List.length_nil,
      Nat.sub_zero]
    rw [Progress.start, List.take_of_length_le (Nat.le_of_lt room)]
  have going : ¬ full ⟨strings (args 0).toNat, Progress.start.apply .string⟩ := by
    simpa [full] using room
  have fmt : ascii "%s%d" = ['%'.toUInt8, 's'.toUInt8, '%'.toUInt8, 'd'.toUInt8] := rfl
  rw [printf, fmt, interpret_directive (by simp [full]), text, interpret_directive going]
  rfl

/-- A string of 1022 characters leaves one byte, and a number of two digits goes past the end: the
NUL is stored at index 1024. -/
theorem string_number_overflows :
    let strings := fun _ : ℕ => List.replicate 1022 'a'.toUInt8
    let args := fun index : ℕ => if index = 1 then (10 : UInt32) else 0x100000
    1024 ∈ storeIndices strings args (ascii "%s%d") ∧
      ¬ StaysInside strings args (ascii "%s%d") := by
  intro strings args
  have long : (strings (args 0).toNat).length = 1022 := List.length_replicate
  have stored : 1024 ∈ storeIndices strings args (ascii "%s%d") := by
    rw [storeIndices_eq_range, buffer_string_number (by omega), List.length_append, long]
    exact List.mem_range.mpr (by decide)
  exact ⟨stored, fun inside => absurd (inside 1024 stored) (by decide)⟩

end RamOS.Libsys
