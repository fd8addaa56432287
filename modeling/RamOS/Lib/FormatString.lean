import Mathlib.Data.List.Basic
import RamOS.Lib.Memory

/-!
# Format strings and their interpreters

A format string is made of literal characters, `%%` and conversions with flags and a width. An
interpreter reads it from left to right and may stop early. If it knows only the letters,
conversions and arguments stay in step exactly if each conversion is reached and has neither
flags nor a width.
-/

namespace FormatString

/-- The five conversions `%d`, `%u`, `%x`, `%s` and `%c`. -/
inductive Kind
  | signed
  | unsigned
  | hex
  | string
  | char
  deriving DecidableEq, Repr

def Kind.letter : Kind → UInt8
  | signed => 'd'.toUInt8
  | unsigned => 'u'.toUInt8
  | hex => 'x'.toUInt8
  | string => 's'.toUInt8
  | char => 'c'.toUInt8

theorem ne_letters {char : UInt8} (noLetter : ∀ kind : Kind, char ≠ kind.letter) :
    ¬ char = 's'.toUInt8 ∧ ¬ char = 'd'.toUInt8 ∧ ¬ char = 'u'.toUInt8 ∧ ¬ char = 'x'.toUInt8 ∧
      ¬ char = 'c'.toUInt8 :=
  ⟨noLetter .string, noLetter .signed, noLetter .unsigned, noLetter .hex, noLetter .char⟩

def Kind.ofLetter (letter : UInt8) : Option Kind :=
  [signed, unsigned, hex, string, char].find? fun kind => kind.letter = letter

theorem Kind.letter_of_ofLetter {kind : Kind} {letter : UInt8}
    (found : Kind.ofLetter letter = some kind) : letter = kind.letter := by
  have same := List.find?_some found
  exact (of_decide_eq_true same).symm

theorem Kind.ne_letter_of_ofLetter {letter : UInt8} (unknown : Kind.ofLetter letter = none)
    (kind : Kind) : letter ≠ kind.letter := by
  intro same
  have differs := List.find?_eq_none.mp unknown kind (by cases kind <;> simp)
  exact differs (decide_eq_true same.symm)

inductive Flag
  | minus
  | zero

def Flag.char : Flag → UInt8
  | minus => '-'.toUInt8
  | zero => '0'.toUInt8

def digitChar (digit : Fin 10) : UInt8 := '0'.toUInt8 + UInt8.ofNat digit.val

/-- Flags and the digits of a width between the `%` and the letter. -/
structure Conversion where
  flags : List Flag
  width : List (Fin 10)
  kind : Kind

namespace Conversion

def modifiers (conversion : Conversion) : Bytes :=
  conversion.flags.map Flag.char ++ conversion.width.map digitChar

def Plain (conversion : Conversion) : Prop := conversion.flags = [] ∧ conversion.width = []

theorem modifiers_eq_nil_iff {conversion : Conversion} :
    conversion.modifiers = [] ↔ conversion.Plain := by
  simp [modifiers, Plain]

theorem ne_of_mem_modifiers {conversion : Conversion} {char : UInt8}
    (listed : char ∈ conversion.modifiers) :
    char ≠ '%'.toUInt8 ∧ ∀ kind : Kind, char ≠ kind.letter := by
  have ofDigit (digit : Fin 10) : digitChar digit ≠ '%'.toUInt8 ∧
      ∀ kind : Kind, digitChar digit ≠ kind.letter := by
    refine ⟨?_, fun kind => ?_⟩
    · decide +revert
    · cases kind
      all_goals decide +revert
  have ofFlag (flag : Flag) : flag.char ≠ '%'.toUInt8 ∧
      ∀ kind : Kind, flag.char ≠ kind.letter := by
    cases flag
    all_goals
      refine ⟨by decide, fun kind => ?_⟩
      cases kind
      all_goals decide
  rcases List.mem_append.mp listed with isFlag | isDigit
  · rcases List.mem_map.mp isFlag with ⟨flag, -, rfl⟩
    exact ofFlag flag
  · rcases List.mem_map.mp isDigit with ⟨digit, -, rfl⟩
    exact ofDigit digit

end Conversion

/-- A literal character is not a `%` and does not end the string. -/
inductive Piece
  | literal (char : UInt8) (isLiteral : char ≠ '%'.toUInt8 ∧ char ≠ 0)
  | percent
  | conversion (spec : Conversion)

def Piece.text : Piece → Bytes
  | literal char _ => [char]
  | percent => ['%'.toUInt8, '%'.toUInt8]
  | conversion spec => '%'.toUInt8 :: (spec.modifiers ++ [spec.kind.letter])

def format (pieces : List Piece) : Bytes := pieces.flatMap Piece.text

def kinds : List Piece → List Kind
  | [] => []
  | .conversion conversion :: rest => conversion.kind :: kinds rest
  | _ :: rest => kinds rest

/-- A literal character, or a `%` with the character behind it. -/
inductive Token
  | literal (char : UInt8)
  | conversion (kind : Kind)
  | other (char : UInt8) (noLetter : ∀ kind : Kind, char ≠ kind.letter)

def Token.behindPercent (char : UInt8) : Token :=
  match letter : Kind.ofLetter char with
  | some kind => conversion kind
  | none => other char (Kind.ne_letter_of_ofLetter letter)

/-- A `%` at the end of the format is literal. -/
def tokens : Bytes → List Token
  | [] => []
  | [char] => [.literal char]
  | char :: next :: rest =>
    if char = '%'.toUInt8 then .behindPercent next :: tokens rest
    else .literal char :: tokens (next :: rest)

structure Progress where
  argIndex : ℕ
  applied : List (Kind × ℕ)
  deriving DecidableEq

def Progress.start : Progress := ⟨0, []⟩

def Progress.apply (progress : Progress) (kind : Kind) : Progress :=
  ⟨progress.argIndex + 1, progress.applied ++ [(kind, progress.argIndex)]⟩

def InStep (pieces : List Piece) (progress : Progress) : Prop :=
  progress.applied = (kinds pieces).zipIdx

section Interpreter

variable {State : Type*} (stop : State → Bool) (literal directive : State → UInt8 → State)

/-- The loop over the format: a `%` is read with the character behind it. -/
def interpret : Bytes → State → State
  | [], state => state
  | [char], state => if stop state then state else literal state char
  | char :: next :: rest, state =>
    if stop state then state
    else if char = '%'.toUInt8 then interpret rest (directive state next)
    else interpret (next :: rest) (literal state char)

def Token.apply (state : State) : Token → State
  | .literal char => literal state char
  | .conversion kind => directive state kind.letter
  | .other char _ => directive state char

/-- The same loop over the tokens of a format string. -/
def readTokens : List Token → State → State
  | [], state => state
  | token :: rest, state =>
    if stop state then state else readTokens rest (token.apply literal directive state)

/-- The letter of a conversion behind a `%` uses one argument, and nothing else does. -/
structure Tracks (progress : State → Progress) : Prop where
  literal : ∀ state char, progress (literal state char) = progress state
  letter : ∀ state (kind : Kind),
    progress (directive state kind.letter) = (progress state).apply kind
  other : ∀ state char, (∀ kind : Kind, char ≠ kind.letter) →
    progress (directive state char) = progress state

variable {stop literal directive} {state : State}

theorem interpret_of_stop (stopped : stop state) (fmt : Bytes) :
    interpret stop literal directive fmt state = state := by
  rcases fmt with _ | ⟨char, _ | ⟨next, rest⟩⟩
  · rfl
  · simp [interpret, stopped]
  · simp [interpret, stopped]

theorem interpret_literal (going : ¬ stop state) {char : UInt8} (isLiteral : char ≠ '%'.toUInt8)
    (rest : Bytes) :
    interpret stop literal directive (char :: rest) state =
      interpret stop literal directive rest (literal state char) := by
  cases rest with
  | nil => simp [interpret, going]
  | cons next rest => simp [interpret, going, isLiteral]

theorem interpret_directive (going : ¬ stop state) (char : UInt8) (rest : Bytes) :
    interpret stop literal directive ('%'.toUInt8 :: char :: rest) state =
      interpret stop literal directive rest (directive state char) := by
  simp [interpret, going]

theorem readTokens_of_stop (stopped : stop state) (list : List Token) :
    readTokens stop literal directive list state = state := by
  cases list with
  | nil => rfl
  | cons token list => simp [readTokens, stopped]

theorem Token.apply_behindPercent (char : UInt8) (state : State) :
    (Token.behindPercent char).apply literal directive state = directive state char := by
  rw [Token.behindPercent]
  split
  · next kind letter => rw [Token.apply, Kind.letter_of_ofLetter letter]
  · rfl

theorem interpret_eq_readTokens (fmt : Bytes) (state : State) :
    interpret stop literal directive fmt state =
      readTokens stop literal directive (tokens fmt) state := by
  induction fmt using tokens.induct generalizing state with
  | case1 => rfl
  | case2 char => simp [interpret, tokens, readTokens, Token.apply]
  | case3 next rest ih =>
    simp [interpret, tokens, readTokens, Token.apply_behindPercent, ih]
  | case4 char next rest isLiteral ih =>
    simp [interpret, tokens, readTokens, Token.apply, isLiteral, ih]

theorem interpret_related {Other : Type*} {otherStop : Other → Bool}
    {otherLiteral otherDirective : Other → UInt8 → Other} {Related : State → Other → Prop}
    (stops : ∀ {state other}, Related state other → stop state = otherStop other)
    (literals : ∀ {state other}, Related state other → ∀ char,
      Related (literal state char) (otherLiteral other char))
    (directives : ∀ {state other}, Related state other → ∀ char,
      Related (directive state char) (otherDirective other char))
    (fmt : Bytes) {other : Other} (related : Related state other) :
    Related (interpret stop literal directive fmt state)
      (interpret otherStop otherLiteral otherDirective fmt other) := by
  induction fmt using tokens.induct generalizing state other with
  | case1 => exact related
  | case2 char =>
    simp only [interpret, stops related]
    split
    · exact related
    · exact literals related char
  | case3 next rest ih =>
    simp only [interpret, stops related, if_true]
    split
    · exact related
    · exact ih (directives related next)
  | case4 char next rest isLiteral ih =>
    simp only [interpret, stops related, isLiteral, if_false]
    split
    · exact related
    · exact ih (literals related char)

theorem interpret_literals_append {text : Bytes}
    (isLiteral : ∀ char ∈ text, char ≠ '%'.toUInt8) (rest : Bytes) :
    interpret stop literal directive (text ++ rest) state =
      interpret stop literal directive rest (interpret stop literal directive text state) := by
  induction text generalizing state with
  | nil => rfl
  | cons char text ih =>
    by_cases stopped : stop state
    · simp only [interpret_of_stop stopped]
    · have here := isLiteral char List.mem_cons_self
      rw [List.cons_append, interpret_literal stopped here, interpret_literal stopped here]
      exact ih fun other listed => isLiteral other (List.mem_cons_of_mem char listed)

theorem Conversion.exists_cons (conversion : Conversion) :
    ∃ first others, conversion.modifiers ++ [conversion.kind.letter] = first :: others ∧
      (∀ char ∈ others, char ≠ '%'.toUInt8) ∧
      (¬ conversion.Plain → ∀ kind : Kind, first ≠ kind.letter) ∧
      (conversion.Plain → first = conversion.kind.letter ∧ others = []) := by
  have letterLiteral : conversion.kind.letter ≠ '%'.toUInt8 := by
    cases conversion.kind
    all_goals decide
  cases modified : conversion.modifiers with
  | nil =>
    have plain := Conversion.modifiers_eq_nil_iff.mp modified
    exact ⟨conversion.kind.letter, [], rfl, by simp, fun notPlain => absurd plain notPlain,
      fun _ => ⟨rfl, rfl⟩⟩
  | cons first others =>
    have notPlain : ¬ conversion.Plain := by
      rw [← Conversion.modifiers_eq_nil_iff, modified]
      exact List.cons_ne_nil first others
    have isModifier {char : UInt8} (listed : char ∈ first :: others) :=
      Conversion.ne_of_mem_modifiers (modified ▸ listed)
    refine ⟨first, others ++ [conversion.kind.letter], rfl, ?_,
      fun _ => (isModifier List.mem_cons_self).2, fun plain => absurd plain notPlain⟩
    intro char listed
    rcases List.mem_append.mp listed with isOther | isLetter
    · exact (isModifier (List.mem_cons_of_mem first isOther)).1
    · rw [List.mem_singleton.mp isLetter]
      exact letterLiteral

theorem interpret_text_append (piece : Piece) (rest : Bytes) :
    interpret stop literal directive (piece.text ++ rest) state =
      interpret stop literal directive rest
        (interpret stop literal directive piece.text state) := by
  by_cases stopped : stop state
  · simp only [interpret_of_stop stopped]
  · cases piece with
    | literal char isLiteral =>
      apply interpret_literals_append
      intro other listed
      rw [List.mem_singleton.mp listed]
      exact isLiteral.1
    | percent =>
      simp only [Piece.text, List.cons_append, List.nil_append]
      rw [interpret_directive stopped, interpret_directive stopped]
      rfl
    | conversion conversion =>
      rcases conversion.exists_cons with ⟨first, others, shape, othersLiteral, -, -⟩
      simp only [Piece.text, shape, List.cons_append]
      rw [interpret_directive stopped, interpret_directive stopped]
      exact interpret_literals_append othersLiteral rest

theorem interpret_format_cons (piece : Piece) (pieces : List Piece) :
    interpret stop literal directive (format (piece :: pieces)) state =
      interpret stop literal directive (format pieces)
        (interpret stop literal directive piece.text state) :=
  interpret_text_append piece (format pieces)

theorem forall_conversion_cons (piece : Piece) (pieces : List Piece) :
    (∀ before conversion after, piece :: pieces = before ++ .conversion conversion :: after →
        conversion.Plain ∧ ¬ stop (interpret stop literal directive (format before) state)) ↔
      (∀ conversion, piece = .conversion conversion → conversion.Plain ∧ ¬ stop state) ∧
        ∀ before conversion after, pieces = before ++ .conversion conversion :: after →
          conversion.Plain ∧ ¬ stop (interpret stop literal directive (format before)
            (interpret stop literal directive piece.text state)) := by
  constructor
  · intro all
    refine ⟨fun conversion isConversion => all [] conversion pieces (by rw [isConversion]; rfl),
      fun before conversion after shape => ?_⟩
    rw [← interpret_format_cons]
    exact all (piece :: before) conversion after (by rw [shape]; rfl)
  · rintro ⟨here, later⟩ before conversion after shape
    cases before with
    | nil => exact here conversion (List.cons.inj shape).1
    | cons first before =>
      rcases List.cons.inj shape with ⟨rfl, behind⟩
      rw [interpret_format_cons]
      exact later before conversion after behind

variable {progress : State → Progress} (tracks : Tracks literal directive progress)

include tracks

theorem Tracks.literals {text : Bytes} (isLiteral : ∀ char ∈ text, char ≠ '%'.toUInt8) :
    progress (interpret stop literal directive text state) = progress state := by
  induction text generalizing state with
  | nil => rfl
  | cons char text ih =>
    by_cases stopped : stop state
    · rw [interpret_of_stop stopped]
    · rw [interpret_literal stopped (isLiteral char List.mem_cons_self),
        ih fun other listed => isLiteral other (List.mem_cons_of_mem char listed)]
      exact tracks.literal state char

theorem Tracks.plain {conversion : Conversion} (going : ¬ stop state) (plain : conversion.Plain) :
    progress (interpret stop literal directive (Piece.conversion conversion).text state) =
      (progress state).apply conversion.kind := by
  rcases conversion.exists_cons with ⟨first, others, shape, -, -, whenPlain⟩
  rcases whenPlain plain with ⟨rfl, rfl⟩
  rw [Piece.text, shape, interpret_directive going]
  exact tracks.letter state conversion.kind

theorem Tracks.keeps {piece : Piece} (unused : ∀ conversion, piece = .conversion conversion →
      ¬ (conversion.Plain ∧ ¬ stop state)) :
    progress (interpret stop literal directive piece.text state) = progress state := by
  by_cases stopped : stop state
  · rw [interpret_of_stop stopped]
  · cases piece with
    | literal char isLiteral =>
      apply tracks.literals
      intro other listed
      rw [List.mem_singleton.mp listed]
      exact isLiteral.1
    | percent =>
      rw [Piece.text, interpret_directive stopped]
      apply tracks.other
      intro kind
      cases kind
      all_goals decide
    | conversion conversion =>
      have notPlain : ¬ conversion.Plain := fun plain => unused conversion rfl ⟨plain, stopped⟩
      rcases conversion.exists_cons with ⟨first, others, shape, othersLiteral, noLetter, -⟩
      rw [Piece.text, shape, interpret_directive stopped, tracks.literals othersLiteral]
      exact tracks.other state first (noLetter notPlain)

theorem Tracks.length_applied_le (pieces : List Piece) :
    (progress (interpret stop literal directive (format pieces) state)).applied.length ≤
      (progress state).applied.length + (kinds pieces).length := by
  induction pieces generalizing state with
  | nil => exact Nat.le_refl _
  | cons piece pieces ih =>
    rw [interpret_format_cons]
    refine Nat.le_trans ih ?_
    by_cases used : ∃ conversion, piece = .conversion conversion ∧ conversion.Plain ∧ ¬ stop state
    · rcases used with ⟨conversion, rfl, plain, going⟩
      rw [tracks.plain going plain]
      simp only [Progress.apply, kinds, List.length_append, List.length_cons, List.length_nil]
      omega
    · rw [tracks.keeps fun conversion isConversion both => used ⟨conversion, isConversion, both⟩]
      have longer : (kinds pieces).length ≤ (kinds (piece :: pieces)).length := by
        cases piece
        all_goals simp [kinds]
      omega

/-- The conversions are applied in order exactly if each is plain and is reached before the
interpreter stops. -/
theorem Tracks.applied_iff (pieces : List Piece) :
    (progress (interpret stop literal directive (format pieces) state)).applied =
        (progress state).applied ++ (kinds pieces).zipIdx (progress state).argIndex ↔
      ∀ before conversion after, pieces = before ++ .conversion conversion :: after →
        conversion.Plain ∧ ¬ stop (interpret stop literal directive (format before) state) := by
  induction pieces generalizing state with
  | nil => simp [format, interpret, kinds]
  | cons piece pieces ih =>
    rw [forall_conversion_cons, interpret_format_cons]
    by_cases used : ∃ conversion, piece = .conversion conversion ∧ conversion.Plain ∧ ¬ stop state
    · rcases used with ⟨conversion, rfl, plain, going⟩
      have next := @ih (interpret stop literal directive (Piece.conversion conversion).text state)
      rw [tracks.plain going plain] at next
      simp only [Progress.apply, List.append_assoc, List.singleton_append] at next
      rw [kinds, List.zipIdx_cons, next]
      constructor
      · intro later
        exact ⟨fun _ same => Piece.conversion.inj same ▸ ⟨plain, going⟩, later⟩
      · exact And.right
    · have kept : progress (interpret stop literal directive piece.text state) = progress state :=
        tracks.keeps fun conversion isConversion both => used ⟨conversion, isConversion, both⟩
      have next := @ih (interpret stop literal directive piece.text state)
      have bound := @Tracks.length_applied_le _ stop _ _
        (interpret stop literal directive piece.text state) _ tracks pieces
      rw [kept] at next bound
      cases piece with
      | conversion conversion =>
        refine iff_of_false (fun same => ?_) fun all =>
          used ⟨conversion, rfl, all.1 conversion rfl⟩
        have lengths := congrArg List.length same
        simp only [kinds, List.length_append, List.length_zipIdx, List.length_cons] at lengths
        omega
      | literal char isLiteral =>
        exact next.trans ⟨fun later => ⟨fun _ same => Piece.noConfusion same, later⟩, And.right⟩
      | percent =>
        exact next.trans ⟨fun later => ⟨fun _ same => Piece.noConfusion same, later⟩, And.right⟩

end Interpreter

end FormatString
