import RamOS.Lib.StringEdits
import RamOS.Lib.Words

/-!
# `parse_args` of the shell

The shell cuts a command line into words in place. A word is recorded when its
first character is met, and it is terminated only when the loop meets the blank
behind it. The loop ends as soon as fifteen words are recorded, so that nothing
terminates the fifteenth one: as a string it goes on to the end of the line.
-/

namespace RamOS.Shell

open ByteMemory CString StringEdits Words

def maxArgs : ℕ := 16

def isBlank (char : UInt8) : Bool := char = ' '.toUInt8 || char = '\t'.toUInt8

def parseArgsLoop : ℕ → Memory → (ℕ → ℕ) → ℕ → ℕ → Bool → Option (Memory × (ℕ → ℕ) × ℕ)
  | 0, _, _, _, _, _ => none
  | fuel + 1, memory, argv, p, argc, inWord =>
    if memory p ≠ 0 ∧ argc < maxArgs - 1 then
      if isBlank (memory p) then
        if inWord then parseArgsLoop fuel (write8 memory p 0) argv (p + 1) argc false
        else parseArgsLoop fuel memory argv (p + 1) argc false
      else if ¬ inWord then
        parseArgsLoop fuel memory (Function.update argv argc p) (p + 1) (argc + 1) true
      else parseArgsLoop fuel memory argv (p + 1) argc true
    else some (memory, argv, argc)

structure Parsed where
  argc : ℕ
  memory : Memory
  argv : ℕ → ℕ

def parseArgs (fuel : ℕ) (memory : Memory) (input : ℕ) (argv : ℕ → ℕ) : Option Parsed :=
  (parseArgsLoop fuel memory argv input 0 false).map fun (memory, argv, argc) =>
    { argc, memory, argv := Function.update argv argc 0 }

/-- The line is split into its words, fifteen of them at most. -/
structure SplitsIntoWords (line : Bytes) (parsed : Parsed) : Prop where
  count : parsed.argc = min (words isBlank line).length 15
  each : ∀ index < parsed.argc,
    StringAt parsed.memory (parsed.argv index) ((words isBlank line).getD index [])
  ended : parsed.argv parsed.argc = 0

/-- The strings that the loop leaves with room for some more words: the last one goes on to the
end of the line. -/
def arguments : ℕ → Bytes → List Bytes
  | 0, _ => []
  | room + 1, line =>
    match line.dropWhile isBlank with
    | [] => []
    | first :: rest =>
      if room = 0 then [first :: rest]
      else
        (first :: rest.takeWhile (!isBlank ·)) ::
          arguments room (rest.dropWhile (!isBlank ·))

def ArgumentsAt (memory : Memory) (argv : ℕ → ℕ) (start : ℕ) (texts : List Bytes) : Prop :=
  ∀ index < texts.length, StringAt memory (argv (start + index)) (texts.getD index [])

section Loop

variable {memory : Memory} {argv : ℕ → ℕ} {p argc fuel : ℕ} {line rest : Bytes}

theorem parseArgsLoop_passes {part : Bytes} {inWord : Bool} (room : argc < 15)
    (alike : ∀ char ∈ part, isBlank char = !inWord) (held : StringAt memory p (part ++ rest)) :
    parseArgsLoop (fuel + part.length) memory argv p argc inWord =
      parseArgsLoop fuel memory argv (p + part.length) argc inWord := by
  induction part generalizing p with
  | nil => rfl
  | cons char part ih =>
    rcases held with ⟨here, nonzero, later⟩
    rw [List.forall_mem_cons] at alike
    have next := ih alike.2 later
    rw [List.length_cons, ← Nat.add_assoc, parseArgsLoop,
      if_pos ⟨by rwa [here], room⟩, here, alike.1]
    cases inWord with
    | false => simpa [Nat.add_assoc, Nat.add_comm 1] using next
    | true => simpa [Nat.add_assoc, Nat.add_comm 1] using next

theorem parseArgsLoop_records {first : UInt8} (room : argc < 15) (symbol : isBlank first = false)
    (held : StringAt memory p (first :: rest)) :
    parseArgsLoop (fuel + 1) memory argv p argc false =
      parseArgsLoop fuel memory (Function.update argv argc p) (p + 1) (argc + 1) true := by
  rcases held with ⟨here, nonzero, _⟩
  rw [parseArgsLoop, here, if_pos ⟨nonzero, room⟩, symbol]
  simp

theorem parseArgsLoop_terminates {first : UInt8} (room : argc < 15) (blank : isBlank first)
    (held : StringAt memory p (first :: rest)) :
    parseArgsLoop (fuel + 1) memory argv p argc true =
      parseArgsLoop fuel (write8 memory p 0) argv (p + 1) argc false := by
  rcases held with ⟨here, nonzero, _⟩
  rw [parseArgsLoop, here, if_pos ⟨nonzero, room⟩, if_pos blank, if_pos rfl]

theorem parseArgsLoop_stops {inWord : Bool} (stops : memory p = 0 ∨ argc = 15) :
    parseArgsLoop (fuel + 1) memory argv p argc inWord = some (memory, argv, argc) := by
  rw [parseArgsLoop, if_neg]
  rintro ⟨nonzero, room⟩
  rcases stops with ended | full
  · exact nonzero ended
  · rw [full, maxArgs] at room
    omega

end Loop

@[simp]
theorem argumentsAt_nil {memory : Memory} {argv : ℕ → ℕ} {start : ℕ} :
    ArgumentsAt memory argv start [] := by
  simp [ArgumentsAt]

theorem argumentsAt_cons {memory : Memory} {argv : ℕ → ℕ} {start : ℕ} {text : Bytes}
    {texts : List Bytes} :
    ArgumentsAt memory argv start (text :: texts) ↔
      StringAt memory (argv start) text ∧ ArgumentsAt memory argv (start + 1) texts := by
  constructor
  · intro each
    refine ⟨each 0 (by simp), ?_⟩
    intro index inside
    have later := each (index + 1) (by simpa using inside)
    rwa [← Nat.add_assoc, Nat.add_right_comm] at later
  · rintro ⟨first, later⟩ index inside
    cases index with
    | zero => exact first
    | succ index =>
      rw [← Nat.add_assoc, Nat.add_right_comm]
      exact later index (by simpa using inside)

theorem arguments_nil (room : ℕ) : arguments room [] = [] := by
  cases room with
  | zero => rfl
  | succ room => rfl

theorem arguments_cons_blank {room : ℕ} {char : UInt8} (blank : isBlank char)
    (line : Bytes) : arguments room (char :: line) = arguments room line := by
  cases room with
  | zero => rfl
  | succ room => rw [arguments, arguments, List.dropWhile_cons_of_pos blank]

structure LeavesWords (memory : Memory) (argv : ℕ → ℕ) (argc p : ℕ) (line : Bytes)
    (texts : List Bytes) (result : Memory × (ℕ → ℕ) × ℕ) : Prop where
  count : result.2.2 = argc + texts.length
  strings : ArgumentsAt result.1 result.2.1 argc texts
  earlier : ∀ index < argc, result.2.1 index = argv index
  outside : Set.EqOn result.1 memory (range p line.length)ᶜ

section Leaving

variable {memory : Memory} {argv : ℕ → ℕ} {argc p : ℕ} {line : Bytes}
  {texts : List Bytes} {result : Memory × (ℕ → ℕ) × ℕ}

theorem leaves_nothing : LeavesWords memory argv argc p line [] (memory, argv, argc) where
  count := rfl
  strings := argumentsAt_nil
  earlier := fun _ _ => rfl
  outside := Set.eqOn_refl _ _

theorem LeavesWords.within {original : Memory} {start : ℕ} {whole : Bytes}
    (leaves : LeavesWords memory argv argc p line texts result)
    (part : range p line.length ⊆ range start whole.length)
    (kept : Set.EqOn memory original (range start whole.length)ᶜ) :
    LeavesWords original argv argc start whole texts result where
  count := leaves.count
  strings := leaves.strings
  earlier := leaves.earlier
  outside := (leaves.outside.mono (Set.compl_subset_compl.mpr part)).trans kept

theorem LeavesWords.record {first : UInt8} {word : Bytes}
    (leaves : LeavesWords memory (Function.update argv argc p) (argc + 1) (p + 1) line texts result)
    (held : StringAt memory p (first :: line)) (wordHeld : StringAt result.1 (p + 1) word) :
    LeavesWords memory argv argc p (first :: line) ((first :: word) :: texts) result where
  count := by
    rw [leaves.count, List.length_cons]
    omega
  strings := by
    rw [argumentsAt_cons, leaves.earlier argc (by omega), Function.update_self]
    refine ⟨⟨?_, held.2.1, wordHeld⟩, leaves.strings⟩
    rw [leaves.outside (by rw [mem_compl_range]; omega)]
    exact held.1
  earlier := by
    intro index below
    rw [leaves.earlier index (by omega), Function.update_of_ne (Nat.ne_of_lt below)]
  outside := by
    apply leaves.outside.mono
    apply Set.compl_subset_compl.mpr
    exact range_subset_range (by omega) (by rw [List.length_cons]; omega)

end Leaving

def RunsBetween (room : ℕ) : Prop :=
  ∀ {memory argv p argc line fuel}, argc + room = 15 → StringAt memory p line →
    line.length < fuel →
      ∃ result, parseArgsLoop fuel memory argv p argc false = some result ∧
        LeavesWords memory argv argc p line (arguments room line) result

theorem parseArgsLoop_inWord {room argc p fuel : ℕ} {memory : Memory} {argv : ℕ → ℕ}
    {line : Bytes} (between : RunsBetween room) (fills : argc + room = 15) (more : 0 < room)
    (held : StringAt memory p line) (enough : line.length < fuel) :
    ∃ result, parseArgsLoop fuel memory argv p argc true = some result ∧
      LeavesWords memory argv argc p line (arguments room (line.dropWhile (!isBlank ·))) result ∧
      StringAt result.1 p (line.takeWhile (!isBlank ·)) := by
  have split := @List.takeWhile_append_dropWhile _ (!isBlank ·) line
  have unbroken : ∀ char ∈ line.takeWhile (!isBlank ·), isBlank char = false := by
    intro char taken
    simpa using List.mem_takeWhile_imp taken
  have stops : ∀ char ∈ (line.dropWhile (!isBlank ·)).head?, isBlank char := by
    intro char isHead
    have := List.head?_dropWhile_not (!isBlank ·) line
    rw [isHead] at this
    simpa using this
  generalize line.takeWhile (!isBlank ·) = word at *
  generalize line.dropWhile (!isBlank ·) = tail at *
  subst split
  rw [List.length_append] at enough
  rcases Nat.exists_eq_add_of_lt enough with ⟨spare, rfl⟩
  have passed := @parseArgsLoop_passes memory argv p argc (spare + tail.length + 1) tail word true
    (by omega) unbroken held
  rw [show word.length + tail.length + spare + 1 = spare + tail.length + 1 + word.length by omega,
    passed]
  cases tail with
  | nil =>
    refine ⟨_, parseArgsLoop_stops (Or.inl held.suffix), ?_, by simpa using held⟩
    rw [arguments_nil]
    exact leaves_nothing
  | cons char tail =>
    have blank : isBlank char := stops char rfl
    rcases held.split with ⟨wordHeld, tailHeld⟩
    rcases @between _ argv _ argc tail (spare + (char :: tail).length) fills tailHeld
      (by rw [List.length_cons]; omega) with ⟨result, runs, leaves⟩
    refine ⟨result, ?_, ?_, ?_⟩
    · rw [parseArgsLoop_terminates (by omega) blank held.suffix]
      exact runs
    · rw [arguments_cons_blank blank]
      apply leaves.within
      · apply range_subset_range (by omega)
        rw [List.length_append, List.length_cons]
        omega
      · intro location outside
        rw [mem_compl_range, List.length_append, List.length_cons] at outside
        exact write8_apply_of_ne (by omega)
    · apply wordHeld.congr
      apply leaves.outside.mono
      intro location inside
      rw [mem_range] at inside
      rw [mem_compl_range]
      omega

theorem runsBetween_zero : RunsBetween 0 := by
  intro memory argv p argc line fuel fills held enough
  rcases fuel with _ | fuel
  · omega
  exact ⟨_, parseArgsLoop_stops (Or.inr fills), leaves_nothing⟩

theorem RunsBetween.succ {room : ℕ} (between : RunsBetween room) : RunsBetween (room + 1) := by
  intro memory argv p argc line fuel fills held enough
  have split := @List.takeWhile_append_dropWhile _ isBlank line
  have blank : ∀ char ∈ line.takeWhile isBlank, isBlank char := by
    intro char taken
    exact List.mem_takeWhile_imp taken
  have stops := List.head?_dropWhile_not isBlank line
  rw [arguments]
  generalize line.takeWhile isBlank = blanks at *
  generalize line.dropWhile isBlank = rest at *
  subst split
  rw [List.length_append] at enough
  rcases Nat.exists_eq_add_of_lt enough with ⟨spare, rfl⟩
  have passed := @parseArgsLoop_passes memory argv p argc (spare + rest.length + 1) rest blanks
    false (by omega) blank held
  rw [show blanks.length + rest.length + spare + 1 = spare + rest.length + 1 + blanks.length by
    omega, passed]
  cases rest with
  | nil =>
    exact ⟨_, parseArgsLoop_stops (Or.inl held.suffix), leaves_nothing⟩
  | cons first rest =>
    have here := held.suffix
    have part : range (p + blanks.length) (first :: rest).length ⊆
        range p (blanks ++ first :: rest).length := by
      apply range_subset_range (by omega)
      rw [List.length_append]
      omega
    rw [parseArgsLoop_records (by omega) stops here]
    dsimp only
    by_cases last : room = 0
    · rw [if_pos last]
      refine ⟨_, parseArgsLoop_stops (Or.inr (by omega)), ?_⟩
      exact (leaves_nothing.record here here.2.2).within part (Set.eqOn_refl _ _)
    · rw [if_neg last]
      rcases @parseArgsLoop_inWord room (argc + 1) (p + blanks.length + 1)
        (spare + (first :: rest).length) memory (Function.update argv argc (p + blanks.length))
        rest between (by omega) (by omega) here.2.2 (by rw [List.length_cons]; omega) with
        ⟨result, runs, leaves, wordHeld⟩
      exact ⟨result, runs, (leaves.record here wordHeld).within part (Set.eqOn_refl _ _)⟩

theorem runsBetween (room : ℕ) : RunsBetween room := by
  induction room with
  | zero => exact runsBetween_zero
  | succ room ih => exact ih.succ

def EndsInWord (line : Bytes) : Prop := ∀ last ∈ line.getLast?, isBlank last = false

theorem endsInWord_append {left right : Bytes} (nonempty : right ≠ []) :
    EndsInWord (left ++ right) ↔ EndsInWord right := by
  rw [EndsInWord, List.getLast?_append_of_ne_nil _ nonempty, EndsInWord]

theorem noWords_or_first (room : ℕ) (line : Bytes) :
    (words isBlank line = [] ∧ arguments (room + 1) line = []) ∨
      ∃ first rest, isBlank first = false ∧
        words isBlank line = (first :: rest.takeWhile (!isBlank ·)) ::
          words isBlank (rest.dropWhile (!isBlank ·)) ∧
        (arguments (room + 1) line =
          if room = 0 then [first :: rest]
          else (first :: rest.takeWhile (!isBlank ·)) ::
            arguments room (rest.dropWhile (!isBlank ·))) ∧
        (EndsInWord line ↔ EndsInWord (first :: rest)) := by
  have split := @List.takeWhile_append_dropWhile _ isBlank line
  have stops := List.head?_dropWhile_not isBlank line
  rw [arguments, ← words_dropWhile line]
  cases start : line.dropWhile isBlank with
  | nil => exact Or.inl ⟨words_nil, rfl⟩
  | cons first rest =>
    rw [start] at split stops
    refine Or.inr ⟨first, rest, stops, words_eq_cons stops, rfl, ?_⟩
    rw [← split, endsInWord_append (List.cons_ne_nil _ _)]

theorem length_arguments (room : ℕ) (line : Bytes) :
    (arguments room line).length = min (words isBlank line).length room := by
  induction room generalizing line with
  | zero => simp [arguments]
  | succ room ih =>
    rcases noWords_or_first room line with ⟨noWords, none⟩ | ⟨first, rest, -, found, some, -⟩
    · simp [noWords, none]
    · rw [found, some]
      by_cases last : room = 0
      · simp [last]
      · rw [if_neg last, List.length_cons, ih, List.length_cons]
        omega

/-- A line consists of its first word exactly when it has no other words and does not end in a
blank. -/
theorem takeWhile_eq_self_iff_endsInWord {first : UInt8} {rest : Bytes}
    (symbol : isBlank first = false) :
    rest = rest.takeWhile (!isBlank ·) ↔
      words isBlank (rest.dropWhile (!isBlank ·)) = [] ∧ EndsInWord (first :: rest) := by
  have split := @List.takeWhile_append_dropWhile _ (!isBlank ·) rest
  constructor
  · intro whole
    have unbroken : ∀ char ∈ first :: rest, isBlank char = false := by
      rw [List.forall_mem_cons]
      refine ⟨symbol, ?_⟩
      intro char isChar
      rw [whole] at isChar
      simpa using List.mem_takeWhile_imp isChar
    have ended : rest.dropWhile (!isBlank ·) = [] := by
      rw [← whole] at split
      simpa using split
    rw [ended]
    refine ⟨words_nil, ?_⟩
    intro last isLast
    exact unbroken last (List.mem_of_getLast? isLast)
  · rintro ⟨noWords, ends⟩
    have ended : rest.dropWhile (!isBlank ·) = [] := by
      by_contra more
      rw [← split, ← List.cons_append, endsInWord_append more] at ends
      have blank := words_eq_nil_iff.mp noWords _ (List.getLast_mem more)
      have unbroken := ends _ (List.getLast?_eq_some_getLast more)
      rw [unbroken] at blank
      exact absurd blank (by decide)
    rw [ended, List.append_nil] at split
    exact split.symm

/-- The strings are the words exactly when the last one that there is room for
ends the line. -/
theorem arguments_eq_words_iff {room : ℕ} {line : Bytes} :
    arguments (room + 1) line = (words isBlank line).take (room + 1) ↔
      (words isBlank line).length ≤ room ∨
        (words isBlank line).length = room + 1 ∧ EndsInWord line := by
  induction room generalizing line with
  | zero =>
    rcases noWords_or_first 0 line with ⟨noWords, none⟩ | ⟨first, rest, symbol, found, some, ends⟩
    · simp [noWords, none]
    · rw [found, some, if_pos rfl, ends]
      simpa using takeWhile_eq_self_iff_endsInWord symbol
  | succ room ih =>
    rcases noWords_or_first (room + 1) line with
      ⟨noWords, none⟩ | ⟨first, rest, symbol, found, some, ends⟩
    · simp [noWords, none]
    · rw [found, some, if_neg (Nat.succ_ne_zero _), List.take_succ_cons, List.cons.injEq,
        and_iff_right rfl, ih, List.length_cons, Nat.add_le_add_iff_right,
        Nat.add_right_cancel_iff, ends]
      apply or_congr_right
      apply and_congr_right
      intro full
      have more : rest.dropWhile (!isBlank ·) ≠ [] := by
        intro none
        rw [none, words_nil] at full
        exact absurd full (by simp)
      have split := @List.takeWhile_append_dropWhile _ (!isBlank ·) rest
      rw [← @endsInWord_append (first :: rest.takeWhile (!isBlank ·)) _ more,
        List.cons_append, split]

theorem parseArgs_arguments {memory : Memory} {input fuel : ℕ} (argv : ℕ → ℕ) {line : Bytes}
    (held : StringAt memory input line) (enough : line.length < fuel) :
    ∃ parsed, parseArgs fuel memory input argv = some parsed ∧
      parsed.argc = (arguments 15 line).length ∧
      ArgumentsAt parsed.memory parsed.argv 0 (arguments 15 line) ∧
      parsed.argv parsed.argc = 0 := by
  rcases @runsBetween 15 memory argv input 0 line fuel rfl held enough with
    ⟨⟨after, argvAfter, argc⟩, runs, leaves⟩
  have count : argc = (arguments 15 line).length := leaves.count.trans (Nat.zero_add _)
  refine ⟨_, by rw [parseArgs, runs, Option.map_some], count, ?_, Function.update_self _ _ _⟩
  intro index below
  have elsewhere : 0 + index ≠ argc := by omega
  dsimp only
  rw [Function.update_of_ne elsewhere]
  exact leaves.strings index below

/-- `parse_args` splits a line into its words exactly when there are fewer than fifteen, or
fifteen and no blank behind the last one. -/
theorem parseArgs_splitsIntoWords_iff {memory : Memory} {input fuel : ℕ} {argv : ℕ → ℕ}
    {line : Bytes} (held : StringAt memory input line) (enough : line.length < fuel) :
    ∃ parsed, parseArgs fuel memory input argv = some parsed ∧
      (SplitsIntoWords line parsed ↔
        (words isBlank line).length < 15 ∨
          (words isBlank line).length = 15 ∧ ∀ last ∈ line.getLast?, isBlank last = false) := by
  rcases parseArgs_arguments argv held enough with ⟨parsed, parses, count, stored, ended⟩
  refine ⟨parsed, parses, ?_⟩
  rw [← EndsInWord, Nat.lt_succ_iff, ← arguments_eq_words_iff]
  constructor
  · intro splits
    apply List.ext_getElem
    · rw [length_arguments, List.length_take, Nat.min_comm]
    · intro index inside _
      have here := stored index inside
      rw [Nat.zero_add] at here
      have same := here.unique (splits.each index (by rwa [count]))
      rw [length_arguments] at inside
      rw [List.getElem_take]
      simpa [length_arguments, inside, lt_of_lt_of_le inside (Nat.min_le_left _ _)] using same
  · intro same
    refine ⟨by rw [count, length_arguments], ?_, ended⟩
    intro index below
    rw [count] at below
    have here := stored index below
    rw [length_arguments] at below
    have short : index < 15 := lt_of_lt_of_le below (Nat.min_le_right _ _)
    rwa [Nat.zero_add, same, List.getD_eq_getElem?_getD, List.getElem?_take_of_lt short,
      ← List.getD_eq_getElem?_getD] at here

def listMemory : Memory := place 0x1000 (ascii "ls /bin" ++ [0])

theorem listMemory_held : StringAt listMemory 0x1000 (ascii "ls /bin") :=
  StringAt.of_load (load_place_all _ _) (by decide)

theorem parseArgs_ls :
    ∃ parsed, parseArgs 8 listMemory 0x1000 (fun _ => 0) = some parsed ∧
      (SplitsIntoWords (ascii "ls /bin") parsed ↔
        (words isBlank (ascii "ls /bin")).length < 15 ∨
          (words isBlank (ascii "ls /bin")).length = 15 ∧
            ∀ last ∈ (ascii "ls /bin").getLast?, isBlank last = false) :=
  parseArgs_splitsIntoWords_iff listMemory_held (by decide)

def spacedLine : Bytes := ascii "a b c d e f g h i j k l m n o "

def spacedMemory : Memory := place 0x1000 (spacedLine ++ [0])

theorem spacedMemory_held : StringAt spacedMemory 0x1000 spacedLine :=
  StringAt.of_load (load_place_all _ _) (by decide)

/-- The blank behind the fifteenth word becomes part of it. -/
theorem parseArgs_keeps_blank :
    ∃ parsed, parseArgs 31 spacedMemory 0x1000 (fun _ => 0) = some parsed ∧
      parsed.argc = 15 ∧ StringAt parsed.memory (parsed.argv 14) (ascii "o ") ∧
      ¬ SplitsIntoWords spacedLine parsed := by
  rcases @parseArgs_arguments _ _ 31 (fun _ => 0) _ spacedMemory_held (by decide) with
    ⟨parsed, parses, count, stored, -⟩
  have last : StringAt parsed.memory (parsed.argv 14) (ascii "o ") := stored 14 (by decide)
  refine ⟨parsed, parses, count, last, ?_⟩
  intro splits
  have word := splits.each 14 (by rw [count]; decide)
  exact absurd (last.unique word) (by decide)

end RamOS.Shell
