import RamOS.Lib.ShortestPrefix
import RamOS.Lib.Word32

/-!
# The timer and `sys_sleep`

The timer interrupt adds one to a 32-bit tick counter, and the uptime is ten milliseconds per
tick, again in 32 bits. `sys_sleep` halts until the uptime is at least the one at which it is to
return. Both the product with ten and the sum with the requested time can wrap.

Interrupts are taken to arrive while the processor is halted. One that is handled between the
comparison and the `hlt` would wake nobody, and the call would last until the next one; such
interrupts are left out.
-/

namespace RamOS.Timer

open ShortestPrefix

inductive Interrupt where
  | timer
  | device
  deriving DecidableEq

def timerHandler (tickCount : ℕ) : ℕ := Word32.add tickCount 1

def Interrupt.handle (tickCount : ℕ) : Interrupt → ℕ
  | timer => timerHandler tickCount
  | device => tickCount

def timerGetUptimeMs (tickCount : ℕ) : ℕ := tickCount * 10 % 2 ^ 32

/-- The loop of `sys_sleep`: the interrupts after the return, if it returns before the last of
them. -/
def sleepLoop (stop : ℕ) : ℕ → List Interrupt → Option (List Interrupt)
  | tickCount, [] => if timerGetUptimeMs tickCount < stop then none else some []
  | tickCount, interrupt :: interrupts =>
    if timerGetUptimeMs tickCount < stop then
      sleepLoop stop (interrupt.handle tickCount) interrupts
    else some (interrupt :: interrupts)

def sysSleep (tickCount ms : ℕ) (interrupts : List Interrupt) : Option (List Interrupt) :=
  sleepLoop (Word32.add (timerGetUptimeMs tickCount) ms) tickCount interrupts

/-- The milliseconds that some interrupts take, ten for every tick. -/
def elapsed (interrupts : List Interrupt) : ℕ := 10 * interrupts.count .timer

def Over (ms : ℕ) (slept : List Interrupt) : Prop := ms ≤ elapsed slept

/-- The call returns at the first moment at which the requested time is over. -/
def LastsAsAsked (tickCount ms : ℕ) : Prop :=
  ∀ interrupts later, sysSleep tickCount ms interrupts = some later ↔
    ∃ slept, Reads (Over ms) interrupts slept later

/-- The uptime has reached a value after some interrupts. -/
def Awake (stop tickCount : ℕ) (slept : List Interrupt) : Prop :=
  stop ≤ timerGetUptimeMs (slept.foldl Interrupt.handle tickCount)

theorem timerGetUptimeMs_foldl (tickCount : ℕ) (interrupts : List Interrupt) :
    timerGetUptimeMs (interrupts.foldl Interrupt.handle tickCount) =
      (timerGetUptimeMs tickCount + elapsed interrupts) % 2 ^ 32 := by
  induction interrupts generalizing tickCount with
  | nil => simp [timerGetUptimeMs, elapsed]
  | cons interrupt interrupts ih =>
    rw [List.foldl_cons, ih]
    cases interrupt with
    | timer =>
      simp only [timerGetUptimeMs, Interrupt.handle, timerHandler, Word32.add, elapsed,
        List.count_cons_self]
      omega
    | device => simp [timerGetUptimeMs, Interrupt.handle, elapsed]

theorem awake_iff {stop tickCount : ℕ} {slept : List Interrupt} :
    Awake stop tickCount slept ↔
      stop ≤ (timerGetUptimeMs tickCount + elapsed slept) % 2 ^ 32 := by
  rw [Awake, timerGetUptimeMs_foldl]

/-- The loop takes interrupts until the uptime has reached the value it waits for. -/
theorem sleepLoop_eq_some_iff {stop tickCount : ℕ} {interrupts later : List Interrupt} :
    sleepLoop stop tickCount interrupts = some later ↔
      ∃ slept, Reads (Awake stop tickCount) interrupts slept later := by
  induction interrupts generalizing tickCount with
  | nil =>
    by_cases asleep : timerGetUptimeMs tickCount < stop
    · have continues : ¬ Awake stop tickCount [] := not_le.mpr asleep
      simp [sleepLoop, asleep, not_reads_of_nil continues]
    · have awake : Awake stop tickCount [] := not_lt.mp asleep
      simp [sleepLoop, asleep, reads_iff_of_stops awake, eq_comm]
  | cons interrupt interrupts ih =>
    by_cases asleep : timerGetUptimeMs tickCount < stop
    · have continues : ¬ Awake stop tickCount [] := not_le.mpr asleep
      rw [sleepLoop, if_pos asleep, ih]
      constructor
      · rintro ⟨slept, reads⟩
        exact ⟨interrupt :: slept, (reads_cons_iff continues).mpr ⟨slept, rfl, reads⟩⟩
      · rintro ⟨_, reads⟩
        rcases (reads_cons_iff continues).mp reads with ⟨slept, -, reads⟩
        exact ⟨slept, reads⟩
    · have awake : Awake stop tickCount [] := not_lt.mp asleep
      simp [sleepLoop, asleep, reads_iff_of_stops awake, eq_comm]

theorem over_iff {ms : ℕ} {slept : List Interrupt} :
    Over ms slept ↔ (ms + 9) / 10 ≤ slept.count .timer := by
  rw [Over, elapsed]
  omega

theorem elapsed_le_of_continues {ms : ℕ} {slept : List Interrupt}
    (continues : Continues (Over ms) slept) :
    elapsed slept ≤ 10 * ((ms + 9) / 10) := by
  rcases List.eq_nil_or_concat' slept with rfl | ⟨earlier, last, rfl⟩
  · simp [elapsed]
  · have asleep := continues earlier (List.prefix_append _ _) (by simp)
    have oneTick : [last].count .timer ≤ 1 := List.count_le_length
    rw [over_iff] at asleep
    rw [elapsed, List.count_append]
    omega

theorem reads_replicate_ticks (ms : ℕ) :
    Reads (Over ms) (List.replicate ((ms + 9) / 10) Interrupt.timer)
      (List.replicate ((ms + 9) / 10) Interrupt.timer) [] := by
  refine ⟨by simp, by simp [over_iff], ?_⟩
  intro shorter isPrefix apart
  have shorterLength : shorter.length < (ms + 9) / 10 := by
    have bounded := isPrefix.length_le
    rw [List.length_replicate] at bounded
    apply lt_of_le_of_ne bounded
    intro same
    exact apart (isPrefix.eq_of_length (by rw [same, List.length_replicate]))
  have bounded : shorter.count .timer ≤ shorter.length := List.count_le_length
  rw [over_iff]
  omega

/-- A sleep lasts as long as asked exactly when the uptime does not wrap before the tick that
ought to end it. -/
theorem lastsAsAsked_iff {tickCount ms : ℕ} (word : ms < 2 ^ 32) :
    LastsAsAsked tickCount ms ↔ timerGetUptimeMs tickCount + 10 * ((ms + 9) / 10) < 2 ^ 32 := by
  have uptimeWord : timerGetUptimeMs tickCount < 2 ^ 32 := Nat.mod_lt _ (by decide)
  constructor
  · intro lasts
    rcases sleepLoop_eq_some_iff.mp ((lasts _ _).mpr ⟨_, reads_replicate_ticks ms⟩) with
      ⟨slept, reads⟩
    have all := reads.split
    rw [List.append_nil] at all
    subst all
    by_contra wraps
    have awake := reads.stops
    have asleep := reads.shortest [] List.nil_prefix (by
      intro none
      rw [eq_comm, List.replicate_eq_nil_iff] at none
      omega)
    simp only [awake_iff, Word32.add, elapsed, List.count_replicate_self, List.count_nil]
      at awake asleep
    omega
  · intro noWrap interrupts later
    have whole : Word32.add (timerGetUptimeMs tickCount) ms = timerGetUptimeMs tickCount + ms :=
      Nat.mod_eq_of_lt (by omega)
    rw [sysSleep, sleepLoop_eq_some_iff, whole]
    apply exists_congr
    intro slept
    apply reads_congr
    intro slept continues
    have bounded := elapsed_le_of_continues continues
    rw [awake_iff, Over, Nat.mod_eq_of_lt (by omega)]
    omega

theorem lastsAsAsked_at_boot :
    LastsAsAsked 0 10 ↔ timerGetUptimeMs 0 + 10 * ((10 + 9) / 10) < 2 ^ 32 :=
  lastsAsAsked_iff (by decide)

/-- At the last tick before the wrap, a sleep of ten milliseconds returns at once. -/
theorem not_lastsAsAsked_before_wrap :
    429496729 < 2 ^ 32 ∧ sysSleep 429496729 10 [] = some [] ∧ ¬ LastsAsAsked 429496729 10 := by
  have returns : sysSleep 429496729 10 [] = some [] := by decide
  refine ⟨by decide, returns, ?_⟩
  intro lasts
  rcases (lasts _ _).mp returns with ⟨slept, reads⟩
  have nothing := List.append_eq_nil_iff.mp reads.split.symm
  have isOver : Over 10 [] := nothing.1 ▸ reads.stops
  simp [Over, elapsed] at isOver

end RamOS.Timer
