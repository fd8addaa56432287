import Mathlib.Data.Finset.Prod
import RamOS.Initrd.RoundTrip
import RamOS.Lib.Iteration

/-!
# Archives that are not well formed

`initrd_init` takes the two sizes of an entry from its header and checks neither. An iteration
of its loop skips an entry, whose name begins with `.`, or enters a file in the table, which has
room for 64. Skipping changes nothing but the cursor, so the loop goes on for ever exactly if it
comes to an entry from which skipping leads back to it.
-/

namespace RamOS.Initrd

open ByteMemory CString Relation

/-- There is room for a header with the magic number, and the name is not the trailer's. -/
def Readable (memory : Memory) (finish data : ℕ) : Prop :=
  Word32.add data 110 ≤ finish ∧ load memory data 6 = ascii "070701" ∧
    strcmpAt memory (data + 110) (ascii "TRAILER!!!") ≠ 0

instance (memory : Memory) (finish data : ℕ) : Decidable (Readable memory finish data) :=
  inferInstanceAs (Decidable (_ ∧ _ ∧ _))

def Dotted (memory : Memory) (data : ℕ) : Prop :=
  memory (data + 110) = '.'.toUInt8 ∧
    (memory (data + 110 + 1) = 0 ∨ memory (data + 110 + 1) = '/'.toUInt8)

instance (memory : Memory) (data : ℕ) : Decidable (Dotted memory data) :=
  inferInstanceAs (Decidable (_ ∧ _))

def sizeAt (memory : Memory) (data : ℕ) : ℕ := parseHex memory (data + 54) 8

def contentsAt (memory : Memory) (data : ℕ) : ℕ :=
  Word32.add data (headerSize (parseHex memory (data + 94) 8))

def following (memory : Memory) (data : ℕ) : ℕ :=
  nextEntry data (parseHex memory (data + 94) 8) (sizeAt memory data)

variable {memory : Memory} {allocate : ℕ → ℕ} {finish data fuel : ℕ} {state : State}

theorem initrdEntry_eq :
    initrdEntry fuel memory allocate finish data state =
      if ¬Readable memory finish data then some .leave
      else if Dotted memory data then some (.continue (following memory data) state)
      else if state.fileCount < maxFiles then
        (strlen fuel memory (data + 110)).map fun nameLen =>
          .continue (following memory data)
            (state.register allocate
              (load memory (data + 110) (if 256 ≤ nameLen then 255 else nameLen))
              (sizeAt memory data) (contentsAt memory data))
      else some .leave := by
  by_cases inside : finish < Word32.add data 110
  · have unreadable : ¬Readable memory finish data := fun readable => by
      have := readable.1
      omega
    rw [initrdEntry, if_pos inside, if_pos unreadable]
  rw [initrdEntry, if_neg inside]
  by_cases magic : load memory data 6 = ascii "070701"
  · rw [if_neg (not_not.mpr magic)]
    dsimp only
    by_cases isTrailer : strcmpAt memory (data + 110) (ascii "TRAILER!!!") = 0
    · have unreadable : ¬Readable memory finish data := fun readable => readable.2.2 isTrailer
      rw [if_pos isTrailer, if_pos unreadable]
    · have readable : Readable memory finish data := ⟨by omega, magic, isTrailer⟩
      rw [if_neg isTrailer, if_neg (not_not.mpr readable)]
      by_cases dotted : memory (data + 110) = '.'.toUInt8 ∧
          (memory (data + 110 + 1) = 0 ∨ memory (data + 110 + 1) = '/'.toUInt8)
      · have isDotted : Dotted memory data := dotted
        rw [if_pos dotted, if_pos isDotted]
        rfl
      · have notDotted : ¬Dotted memory data := dotted
        have whole : ¬(memory (data + 110) = '.'.toUInt8 ∧
            memory (data + 110 + 1) = '/'.toUInt8) :=
          fun stripped => dotted ⟨stripped.1, Or.inr stripped.2⟩
        rw [if_neg dotted, if_neg notDotted, if_neg whole]
        rfl
  · have unreadable : ¬Readable memory finish data := fun readable => magic readable.2.1
    rw [if_pos magic, if_pos unreadable]

def Continues (memory : Memory) (allocate : ℕ → ℕ) (finish : ℕ) (before after : ℕ × State) :
    Prop :=
  before.1 < finish ∧ before.2.fileCount < maxFiles ∧
    ∃ fuel, initrdEntry fuel memory allocate finish before.1 before.2 =
      some (.continue after.1 after.2)

def Skips (memory : Memory) (finish data next : ℕ) : Prop :=
  data < finish ∧ Readable memory finish data ∧ Dotted memory data ∧ next = following memory data

def Registers (memory : Memory) (finish : ℕ) (position : ℕ × State) : Prop :=
  position.1 < finish ∧ position.2.fileCount < maxFiles ∧
    Readable memory finish position.1 ∧ ¬Dotted memory position.1

variable {before after : ℕ × State} {more addr : ℕ} {loaded : State}

theorem Continues.cases (continues : Continues memory allocate finish before after) :
    after.1 = following memory before.1 ∧
      (Skips memory finish before.1 after.1 ∧ after.2 = before.2 ∨
        Registers memory finish before ∧ ∃ nameLen, (∃ fuel,
          strlen fuel memory (before.1 + 110) = some nameLen) ∧
          after.2 = before.2.register allocate
            (load memory (before.1 + 110) (if 256 ≤ nameLen then 255 else nameLen))
            (sizeAt memory before.1) (contentsAt memory before.1)) := by
  rcases continues with ⟨inside, room, fuel, run⟩
  rw [initrdEntry_eq] at run
  by_cases readable : Readable memory finish before.1
  · rw [if_neg (not_not.mpr readable)] at run
    by_cases dotted : Dotted memory before.1
    · rw [if_pos dotted, Option.some.injEq, Outcome.continue.injEq] at run
      exact ⟨run.1.symm, Or.inl ⟨⟨inside, readable, dotted, run.1.symm⟩, run.2.symm⟩⟩
    · rw [if_neg dotted, if_pos room] at run
      rcases Option.map_eq_some_iff.mp run with ⟨nameLen, counted, isAfter⟩
      rw [Outcome.continue.injEq] at isAfter
      exact ⟨isAfter.1.symm,
        Or.inr ⟨⟨inside, room, readable, dotted⟩, nameLen, ⟨fuel, counted⟩, isAfter.2.symm⟩⟩
  · rw [if_pos readable] at run
    cases run

theorem Skips.continues {next : ℕ} (skips : Skips memory finish data next)
    (room : state.fileCount < maxFiles) :
    Continues memory allocate finish (data, state) (next, state) := by
  rcases skips with ⟨inside, readable, dotted, rfl⟩
  refine ⟨inside, room, 0, ?_⟩
  rw [initrdEntry_eq, if_neg (not_not.mpr readable), if_pos dotted]

theorem Registers.exists_continues (registers : Registers memory finish before)
    (ended : ∃ offset, memory (before.1 + 110 + offset) = 0) :
    ∃ after, Continues memory allocate finish before after := by
  rcases registers with ⟨inside, room, readable, plain⟩
  rcases exists_strlen_iff.mpr ended with ⟨fuel, nameLen, counted⟩
  have entry := @initrdEntry_eq memory allocate finish before.1 fuel before.2
  rw [if_neg (not_not.mpr readable), if_neg plain, if_pos room, counted, Option.map_some] at entry
  exact ⟨(_, _), inside, room, fuel, entry⟩

theorem transGen_continues_cases (path : TransGen (Continues memory allocate finish) before after) :
    before.2.fileCount < after.2.fileCount ∨
      after.2 = before.2 ∧ TransGen (Skips memory finish) before.1 after.1 := by
  have one {before after : ℕ × State} (continues : Continues memory allocate finish before after) :
      before.2.fileCount < after.2.fileCount ∨
        after.2 = before.2 ∧ Skips memory finish before.1 after.1 := by
    rcases continues.cases.2 with ⟨skips, same⟩ | ⟨_, _, _, registered⟩
    · exact Or.inr ⟨same, skips⟩
    · left
      rw [registered, State.register_fileCount]
      omega
  induction path with
  | single step =>
    rcases one step with more | ⟨same, skips⟩
    · exact Or.inl more
    · exact Or.inr ⟨same, .single skips⟩
  | tail _ step ih =>
    rcases one step with more | ⟨same, skips⟩
    · left
      rcases ih with before | ⟨before, _⟩
      · omega
      · rwa [before] at more
    · rw [same]
      rcases ih with before | ⟨before, path⟩
      · exact Or.inl before
      · exact Or.inr ⟨before, path.tail skips⟩

theorem position_bounds {start position : ℕ × State} (word : start.1 < 2 ^ 32)
    (room : start.2.fileCount ≤ maxFiles)
    (reached : ReflTransGen (Continues memory allocate finish) start position) :
    position.1 < 2 ^ 32 ∧ position.2.fileCount ≤ maxFiles := by
  induction reached with
  | refl => exact ⟨word, room⟩
  | tail _ continues ih =>
    rcases continues.cases with ⟨place, ⟨_, same⟩ | ⟨⟨_, free, _⟩, _, _, registered⟩⟩
    · rw [place, same]
      exact ⟨Word32.add_lt _ _, ih.2⟩
    · rw [place, registered, State.register_fileCount]
      exact ⟨Word32.add_lt _ _, free⟩

def walkStart (addr : ℕ) (state : State) : ℕ × State := (addr, { state with fileCount := 0 })

def Reached (memory : Memory) (allocate : ℕ → ℕ) (finish addr : ℕ) (state : State)
    (position : ℕ × State) : Prop :=
  ReflTransGen (Continues memory allocate finish) (walkStart addr state) position

/-- The loop never comes to an entry from which skipping leads back to it. -/
def NoSkipCycle (memory : Memory) (allocate : ℕ → ℕ) (finish addr : ℕ) (state : State) : Prop :=
  ∀ position, Reached memory allocate finish addr state position →
    position.2.fileCount < maxFiles → ¬TransGen (Skips memory finish) position.1 position.1

theorem bounded_iff_noSkipCycle {addr : ℕ} (word : addr < 2 ^ 32) :
    Iteration.Bounded (Continues memory allocate finish) (walkStart addr state) ↔
      NoSkipCycle memory allocate finish addr state := by
  constructor
  · intro bounded position reached room cycle
    have lifted (data next : ℕ) (skips : Skips memory finish data next) :
        Continues memory allocate finish (data, position.2) (next, position.2) :=
      skips.continues room
    exact Iteration.not_bounded_of_cycle reached
      (cycle.lift (fun data => (data, position.2)) lifted) bounded
  · intro noCycle
    have bounds := @position_bounds memory allocate finish (walkStart addr state)
    generalize 2 ^ 32 = words at word bounds
    refine Iteration.bounded_of_noReturn (fun position => (position.1, position.2.fileCount))
      (Finset.range words ×ˢ Finset.range (maxFiles + 1)) (fun position reached => ?_)
      (fun position later reached path same => ?_)
    · rcases bounds word (Nat.zero_le _) reached with ⟨inside, room⟩
      rw [Finset.mem_product, Finset.mem_range, Finset.mem_range]
      exact ⟨inside, Nat.lt_succ_of_le room⟩
    · rw [Prod.mk.injEq] at same
      rcases transGen_continues_cases path with more | ⟨_, skips⟩
      · omega
      · rcases TransGen.head'_iff.mp path with ⟨_, step, _⟩
        rw [← same.1] at skips
        exact noCycle position reached step.2.1 skips

theorem initrdEntry_of_le {outcome : Outcome} (atLeast : fuel ≤ more)
    (run : initrdEntry fuel memory allocate finish data state = some outcome) :
    initrdEntry more memory allocate finish data state = some outcome := by
  rw [initrdEntry_eq] at run ⊢
  split_ifs at run ⊢ with readable dotted room
  · exact run
  · rcases Option.map_eq_some_iff.mp run with ⟨nameLen, counted, rfl⟩
    rw [strlen_of_le atLeast counted, Option.map_some]
  · exact run
  · exact run

theorem initrdEntry_unique {left right : Outcome}
    (one : initrdEntry fuel memory allocate finish data state = some left)
    (two : initrdEntry more memory allocate finish data state = some right) : left = right := by
  have same := initrdEntry_of_le (Nat.le_max_left fuel more) one
  rw [initrdEntry_of_le (Nat.le_max_right fuel more) two] at same
  exact (Option.some.inj same).symm

theorem initrdLoop_of_le (atLeast : fuel ≤ more)
    (run : initrdLoop memory allocate finish fuel data state = some loaded) :
    initrdLoop memory allocate finish more data state = some loaded := by
  fun_induction initrdLoop memory allocate finish fuel data state generalizing more with
  | case1 | case2 => cases run
  | case3 fuel data state inside entry =>
    rcases more with _ | more
    · omega
    rw [initrdLoop, if_pos inside, initrdEntry_of_le (by omega) entry, run]
  | case4 fuel data state inside next changed entry ih =>
    rcases more with _ | more
    · omega
    rw [initrdLoop, if_pos inside, initrdEntry_of_le (by omega) entry]
    exact ih (by omega) run
  | case5 fuel data state outside =>
    rcases more with _ | more
    · omega
    rw [initrdLoop, if_neg outside, run]

theorem initrdLoop_continues
    (run : initrdLoop memory allocate finish fuel before.1 before.2 = some loaded)
    (continues : Continues memory allocate finish before after) :
    ∃ less, fuel = less + 1 ∧
      initrdLoop memory allocate finish less after.1 after.2 = some loaded := by
  rcases continues with ⟨inside, room, more, entry⟩
  cases fuel with
  | zero => cases run
  | succ fuel =>
    refine ⟨fuel, rfl, ?_⟩
    rw [initrdLoop, if_pos ⟨inside, room⟩] at run
    cases found : initrdEntry fuel memory allocate finish before.1 before.2 with
    | none => simp only [found, reduceCtorEq] at run
    | some outcome =>
      have same := initrdEntry_unique found entry
      subst same
      simpa only [found] using run

theorem initrdLoop_steps {start position : ℕ × State} {loaded : State} {count : ℕ}
    (run : initrdLoop memory allocate finish fuel start.1 start.2 = some loaded)
    (chain : Iteration.Steps (Continues memory allocate finish) start count position) :
    ∃ less, fuel = less + count ∧
      initrdLoop memory allocate finish less position.1 position.2 = some loaded := by
  induction chain with
  | zero => exact ⟨fuel, rfl, run⟩
  | succ _ continues ih =>
    rcases ih with ⟨rest, isRest, runRest⟩
    rcases initrdLoop_continues runRest continues with ⟨less, isLess, runLess⟩
    exact ⟨less, by omega, runLess⟩

/-- The name of every file that the loop comes to ends somewhere. -/
def NamesEnd (memory : Memory) (allocate : ℕ → ℕ) (finish addr : ℕ) (state : State) : Prop :=
  ∀ position, Reached memory allocate finish addr state position →
    Registers memory finish position → ∃ offset, memory (position.1 + 110 + offset) = 0

/-- The loop returns if it makes finitely many iterations and every name ends. -/
theorem exists_initrdLoop
    (bounded : Iteration.Bounded (Continues memory allocate finish) (walkStart addr state))
    (names : NamesEnd memory allocate finish addr state) :
    ∃ fuel loaded, initrdLoop memory allocate finish fuel (walkStart addr state).1
      (walkStart addr state).2 = some loaded := by
  apply @Iteration.Bounded.induction _ _ _ (fun position => ∃ fuel loaded,
    initrdLoop memory allocate finish fuel position.1 position.2 = some loaded) bounded
  intro position reached later
  by_cases inside : position.1 < finish ∧ position.2.fileCount < maxFiles
  · have goesOn {next : ℕ × State} (continues : Continues memory allocate finish position next) :
        ∃ fuel loaded, initrdLoop memory allocate finish fuel position.1 position.2 =
          some loaded := by
      rcases later next continues with ⟨rest, loaded, run⟩
      rcases continues with ⟨_, _, fuel, entry⟩
      refine ⟨max fuel rest + 1, loaded, ?_⟩
      rw [initrdLoop, if_pos inside, initrdEntry_of_le (Nat.le_max_left fuel rest) entry]
      exact initrdLoop_of_le (Nat.le_max_right fuel rest) run
    by_cases readable : Readable memory finish position.1
    · by_cases dotted : Dotted memory position.1
      · have skips : Skips memory finish position.1 (following memory position.1) :=
          ⟨inside.1, readable, dotted, rfl⟩
        exact goesOn (skips.continues inside.2)
      · have registers : Registers memory finish position :=
          ⟨inside.1, inside.2, readable, dotted⟩
        rcases registers.exists_continues (names position reached registers) with
          ⟨next, continues⟩
        exact goesOn continues
    · refine ⟨1, position.2, ?_⟩
      rw [initrdLoop, if_pos inside, initrdEntry_eq, if_pos readable]
  · exact ⟨1, position.2, if_neg inside⟩

theorem bounded_of_initrdInit {size count : ℕ}
    (run : initrdInit fuel memory allocate addr size state = some (count, loaded)) :
    Iteration.Bounded (Continues memory allocate (Word32.add addr size))
      (walkStart addr state) := by
  rcases Option.map_eq_some_iff.mp run with ⟨walked, loop, _⟩
  refine ⟨fuel, fun count position chain => ?_⟩
  rcases @initrdLoop_steps _ _ _ _ (walkStart addr state) _ _ _ loop chain with ⟨less, isFuel, _⟩
  omega

theorem namesEnd_of_initrdInit {size count : ℕ}
    (run : initrdInit fuel memory allocate addr size state = some (count, loaded)) :
    NamesEnd memory allocate (Word32.add addr size) addr state := by
  rcases Option.map_eq_some_iff.mp run with ⟨walked, loop, _⟩
  rintro position reached ⟨inside, room, readable, plain⟩
  rcases Iteration.exists_steps reached with ⟨count, chain⟩
  rcases @initrdLoop_steps _ _ _ _ (walkStart addr state) _ _ _ loop chain with ⟨less, _, rest⟩
  cases less with
  | zero => cases rest
  | succ less =>
    rw [initrdLoop, if_pos ⟨inside, room⟩, initrdEntry_eq, if_neg (not_not.mpr readable),
      if_neg plain, if_pos room] at rest
    cases counted : strlen less memory (position.1 + 110) with
    | none => simp only [counted, Option.map_none, reduceCtorEq] at rest
    | some nameLen => exact exists_strlen_iff.mp ⟨less, nameLen, counted⟩

/-- The archive loop ends exactly if it never comes to an entry from which skipping leads back to
it; the call returns exactly if the names it comes to end as well. -/
theorem initrdInit_terminates_iff (memory : Memory) (allocate : ℕ → ℕ) (addr size : Fin (2 ^ 32))
    (state : State) :
    (Iteration.Bounded (Continues memory allocate (Word32.add addr size))
        (walkStart addr state) ↔
      NoSkipCycle memory allocate (Word32.add addr size) addr state) ∧
    ((∃ fuel result, initrdInit fuel memory allocate addr size state = some result) ↔
      NoSkipCycle memory allocate (Word32.add addr size) addr state ∧
        NamesEnd memory allocate (Word32.add addr size) addr state) := by
  have bounded := @bounded_iff_noSkipCycle memory allocate (Word32.add addr size) state addr
    addr.isLt
  refine ⟨bounded, ?_, ?_⟩
  · rintro ⟨fuel, ⟨count, loaded⟩, run⟩
    exact ⟨bounded.mp (bounded_of_initrdInit run), namesEnd_of_initrdInit run⟩
  · rintro ⟨noCycle, names⟩
    rcases exists_initrdLoop (bounded.mpr noCycle) names with ⟨fuel, walked, loop⟩
    exact ⟨fuel, _, Option.map_eq_some_iff.mpr ⟨walked, loop, rfl⟩⟩

/-- An entry for `.` whose sizes add up to nothing: 112 bytes for header and name, and contents of
112 bytes less than 2³². -/
def selfSkipping : Bytes :=
  plainHeader (ascii "FFFFFF90") (ascii "00000002") ++ ['.'.toUInt8, 0]

theorem selfSkipping_skips :
    Skips (place 0x800000 selfSkipping) (Word32.add 0x800000 112) 0x800000 0x800000 :=
  ⟨by decide, ⟨by decide, by decide, by decide⟩, by decide, by decide⟩

/-- The entry leads to itself, and `initrd_init` does not return. -/
theorem initrdInit_loops_forever :
    ¬Iteration.Bounded
        (Continues (place 0x800000 selfSkipping) (fun _ => 0) (Word32.add 0x800000 112))
        (walkStart 0x800000 State.initial) ∧
      ∀ fuel, initrdInit fuel (place 0x800000 selfSkipping) (fun _ => 0) 0x800000 112
        State.initial = none := by
  have unbounded : ¬Iteration.Bounded
      (Continues (place 0x800000 selfSkipping) (fun _ => 0) (Word32.add 0x800000 112))
      (walkStart 0x800000 State.initial) :=
    Iteration.not_bounded_of_cycle .refl
      (.single (selfSkipping_skips.continues (by decide)))
  refine ⟨unbounded, fun fuel => ?_⟩
  cases run : initrdInit fuel (place 0x800000 selfSkipping) (fun _ => 0) 0x800000 112
      State.initial with
  | none => rfl
  | some result => exact absurd (bounded_of_initrdInit run) unbounded

end RamOS.Initrd
