import RamOS.Lib.CString
import RamOS.Lib.TextLines

/-!
# Strings edited in place

Code that takes a line apart does so in the buffer that holds it: it moves a string down over
the symbols that it skips, stores terminators where it cuts, and goes on with pointers to
the pieces. Each of these loops is compared here with what it does to the text, and with
the bytes that it may write.
-/

namespace StringEdits

open ByteMemory CString TextLines

def StringAt (memory : Memory) : ℕ → Bytes → Prop
  | address, [] => memory address = 0
  | address, byte :: text => memory address = byte ∧ byte ≠ 0 ∧ StringAt memory (address + 1) text

/-- The loop `while (condition(*start)) start++`. -/
def skipWhile (condition : UInt8 → Bool) (memory : Memory) : ℕ → ℕ → Option ℕ
  | 0, _ => none
  | fuel + 1, start =>
    if condition (memory start) then skipWhile condition memory fuel (start + 1) else some start

/-- The loop `while (*start) *p++ = *start++`, and its terminator. -/
def moveDown : ℕ → Memory → ℕ → ℕ → Option Memory
  | 0, _, _, _ => none
  | fuel + 1, memory, p, start =>
    if memory start = 0 then some (write8 memory p 0)
    else moveDown fuel (write8 memory p (memory start)) (p + 1) (start + 1)

/-- The loop `while ((*dest++ = *src++))`, with both strings in memory. -/
def strcpyAt : ℕ → Memory → ℕ → ℕ → Option Memory
  | 0, _, _, _ => none
  | fuel + 1, memory, dest, src =>
    if memory src = 0 then some (write8 memory dest 0)
    else strcpyAt fuel (write8 memory dest (memory src)) (dest + 1) (src + 1)

/-- The loop that stores terminators from the end of a string on. -/
def trimEnd (back : UInt8 → Bool) (memory : Memory) (str : ℕ) : ℕ → Memory
  | 0 => memory
  | len + 1 =>
    if back (memory (str + len)) then trimEnd back (write8 memory (str + len) 0) str len
    else memory

/-- Trim the string in a buffer at both ends. -/
def trimAt (front back : UInt8 → Bool) (fuel : ℕ) (memory : Memory) (str : ℕ) : Option Memory :=
  match skipWhile front memory fuel str with
  | none => none
  | some start =>
    match if start ≠ str then moveDown fuel memory str start else some memory with
    | none => none
    | some memory => (strlen fuel memory str).map (trimEnd back memory str)

def findMark (mark : UInt8) (memory : Memory) (fuel start : ℕ) : Option ℕ :=
  skipWhile (fun char => char ≠ 0 ∧ char ≠ mark) memory fuel start

/-- The loop that copies a line as far as there is room, with a terminator, and the pointer behind
the line. -/
def copyLine (newline : UInt8) : ℕ → Memory → ℕ → ℕ → Memory × ℕ
  | 0, memory, line, dest => (write8 memory dest 0, line)
  | room + 1, memory, line, dest =>
    if memory line ≠ 0 ∧ memory line ≠ newline then
      copyLine newline room (write8 memory dest (memory line)) (line + 1) (dest + 1)
    else (write8 memory dest 0, line)

variable {memory changed : Memory} {address fuel : ℕ} {text left right : Bytes}

namespace StringAt

theorem congr (held : StringAt memory address text)
    (agree : Set.EqOn changed memory (range address (text.length + 1))) :
    StringAt changed address text := by
  induction text generalizing address with
  | nil =>
    have same : changed address = memory address := agree (by simp)
    exact same.trans held
  | cons byte text ih =>
    rcases held with ⟨here, nonzero, rest⟩
    rw [List.length_cons] at agree
    refine ⟨?_, nonzero, ih rest ?_⟩
    · exact (agree (by rw [mem_range]; omega)).trans here
    · exact agree.mono (range_subset_range (by omega) (by omega))

theorem noZero (held : StringAt memory address text) : 0 ∉ text := by
  induction text generalizing address with
  | nil => simp
  | cons byte text ih =>
    rw [List.mem_cons, not_or]
    exact ⟨held.2.1.symm, ih held.2.2⟩

theorem unique (leftHeld : StringAt memory address left)
    (rightHeld : StringAt memory address right) : left = right := by
  induction left generalizing address right with
  | nil =>
    cases right with
    | nil => rfl
    | cons byte right => exact absurd (rightHeld.1.symm.trans leftHeld) rightHeld.2.1
  | cons first left ih =>
    cases right with
    | nil => exact absurd (leftHeld.1.symm.trans rightHeld) leftHeld.2.1
    | cons second right =>
      rw [← leftHeld.1, ← rightHeld.1, ih leftHeld.2.2 rightHeld.2.2]

theorem suffix (held : StringAt memory address (left ++ right)) :
    StringAt memory (address + left.length) right := by
  induction left generalizing address with
  | nil => exact held
  | cons byte left ih =>
    have rest := ih held.2.2
    rwa [Nat.add_assoc, Nat.add_comm 1] at rest

theorem apply (held : StringAt memory address text) : memory address = text.headD 0 := by
  cases text with
  | nil => exact held
  | cons byte text => exact held.1

theorem of_load {data : Bytes} (held : load memory address data.length = data)
    (terminated : 0 ∈ data) : StringAt memory address (data.takeWhile (· ≠ 0)) := by
  induction data generalizing address with
  | nil => cases terminated
  | cons byte data ih =>
    rw [List.length_cons, load, List.cons.injEq] at held
    by_cases zero : byte = 0
    · rw [List.takeWhile_cons_of_neg (by simpa using zero)]
      exact held.1.trans zero
    · rw [List.takeWhile_cons_of_pos (by simpa using zero)]
      rw [List.mem_cons, or_iff_right (Ne.symm zero)] at terminated
      exact ⟨held.1, zero, ih held.2 terminated⟩

theorem strlen (held : StringAt memory address text) (enough : text.length < fuel) :
    strlen fuel memory address = some text.length := by
  induction text generalizing address fuel with
  | nil =>
    rcases fuel with _ | fuel
    · omega
    exact if_pos held
  | cons byte text ih =>
    rcases fuel with _ | fuel
    · omega
    rcases held with ⟨rfl, nonzero, rest⟩
    rw [CString.strlen, if_neg nonzero, ih rest (Nat.lt_of_succ_lt_succ enough)]
    rfl

theorem stringIn (held : StringAt memory address text) (size : ℕ) :
    stringIn memory address size = text.take size := by
  induction size generalizing address text with
  | zero => rfl
  | succ size ih =>
    cases text with
    | nil =>
      have ended : memory address = 0 := held
      simp [CString.stringIn, load, ended]
    | cons byte text =>
      rcases held with ⟨rfl, nonzero, rest⟩
      have later := ih rest
      rw [CString.stringIn] at later
      rw [CString.stringIn, load, List.takeWhile_cons_of_pos (by simpa using nonzero), later,
        List.take_succ_cons]

theorem split {byte : UInt8} (held : StringAt memory address (left ++ byte :: right)) :
    StringAt (write8 memory (address + left.length) 0) address left ∧
      StringAt (write8 memory (address + left.length) 0) (address + left.length + 1) right := by
  constructor
  · induction left generalizing address with
    | nil => exact write8_same _ _ _
    | cons first left ih =>
      rcases held with ⟨here, nonzero, rest⟩
      have cut := ih rest
      rw [Nat.add_assoc, Nat.add_comm 1] at cut
      refine ⟨?_, nonzero, cut⟩
      rw [write8_apply_of_ne (by rw [List.length_cons]; omega)]
      exact here
  · refine held.suffix.2.2.congr (write8_eqOn ?_)
    rw [mem_range]
    omega

theorem of_apply (each : ∀ offset < text.length, memory (address + offset) = text.getD offset 0)
    (ended : memory (address + text.length) = 0) (noZero : 0 ∉ text) :
    StringAt memory address text := by
  induction text generalizing address with
  | nil => exact ended
  | cons byte text ih =>
    rw [List.mem_cons, not_or] at noZero
    refine ⟨each 0 (by simp), Ne.symm noZero.1, ih ?_ ?_ noZero.2⟩
    · intro offset inside
      have here := each (offset + 1) (by simpa using inside)
      rwa [List.getD_cons_succ, Nat.add_comm offset, ← Nat.add_assoc] at here
    · rwa [List.length_cons, Nat.add_comm text.length, ← Nat.add_assoc] at ended

theorem of_strcpy (memory : Memory) (dest : ℕ) (noZero : 0 ∉ text) :
    StringAt (strcpy memory dest text) dest text := by
  have stored := of_load (load_strcpy memory dest text) (by simp)
  rwa [List.takeWhile_append_of_pos (ne_of_absent noZero), List.takeWhile_cons_of_neg (by simp),
    List.append_nil] at stored

theorem strcpyAt {dest : ℕ} (held : StringAt memory address text)
    (apart : dest + text.length < address ∨ address + text.length < dest)
    (enough : text.length < fuel) :
    strcpyAt fuel memory dest address = some (strcpy memory dest text) := by
  induction text generalizing memory address dest fuel with
  | nil =>
    rcases fuel with _ | fuel
    · omega
    have ended : memory address = 0 := held
    rw [StringEdits.strcpyAt, if_pos ended, strcpy]
  | cons byte text ih =>
    rcases fuel with _ | fuel
    · omega
    rcases held with ⟨here, nonzero, rest⟩
    rw [List.length_cons] at apart enough
    have kept : StringAt (write8 memory dest byte) (address + 1) text := by
      apply rest.congr
      apply write8_eqOn
      rw [mem_range]
      omega
    rw [StringEdits.strcpyAt, here, if_neg nonzero, strcpy]
    exact ih kept (by omega) (by omega)

theorem skipWhile {condition : UInt8 → Bool} (held : StringAt memory address text)
    (stops : condition 0 = false) (enough : text.length < fuel) :
    skipWhile condition memory fuel address =
      some (address + (text.takeWhile condition).length) := by
  induction text generalizing address fuel with
  | nil =>
    rcases fuel with _ | fuel
    · omega
    have ended : memory address = 0 := held
    rw [StringEdits.skipWhile, ended, stops]
    rfl
  | cons byte text ih =>
    rcases fuel with _ | fuel
    · omega
    rcases held with ⟨rfl, nonzero, rest⟩
    rw [StringEdits.skipWhile]
    by_cases holds : condition (memory address) = true
    · rw [if_pos holds, List.takeWhile_cons_of_pos holds,
        ih rest (Nat.lt_of_succ_lt_succ enough), List.length_cons]
      congr 1
      omega
    · rw [if_neg holds, List.takeWhile_cons_of_neg holds]
      rfl

theorem moveDown {dest start : ℕ} (held : StringAt memory start text) (below : dest ≤ start)
    (enough : text.length < fuel) :
    ∃ changed, moveDown fuel memory dest start = some changed ∧ StringAt changed dest text ∧
      Set.EqOn changed memory (range dest (text.length + 1))ᶜ := by
  induction text generalizing memory dest start fuel with
  | nil =>
    rcases fuel with _ | fuel
    · omega
    refine ⟨write8 memory dest 0, if_pos held, write8_same _ _ _, write8_eqOn ?_⟩
    simp
  | cons byte text ih =>
    rcases fuel with _ | fuel
    · omega
    rcases held with ⟨rfl, nonzero, rest⟩
    have unread : StringAt (write8 memory dest (memory start)) (start + 1) text := by
      refine rest.congr (write8_eqOn ?_)
      rw [mem_range]
      omega
    rcases ih unread (Nat.succ_le_succ below) (Nat.lt_of_succ_lt_succ enough) with
      ⟨changed, run, moved, frame⟩
    refine ⟨changed, ?_, ⟨?_, nonzero, moved⟩, ?_⟩
    · rw [StringEdits.moveDown, if_neg nonzero, run]
    · rw [frame (by rw [mem_compl_range]; omega), write8_same]
    · intro location outside
      simp only [mem_compl_range, List.length_cons] at outside
      rw [frame (by rw [mem_compl_range]; omega),
        write8_apply_of_ne (by omega)]

theorem trimEnd {back : UInt8 → Bool} (held : StringAt memory address text) :
    StringAt (trimEnd back memory address text.length) address (text.rdropWhile back) ∧
      Set.EqOn (StringEdits.trimEnd back memory address text.length) memory
        (range address (text.length + 1))ᶜ := by
  induction text using List.reverseRecOn generalizing memory with
  | nil => exact ⟨held, fun _ _ => rfl⟩
  | append_singleton text byte ih =>
    have isLast : memory (address + text.length) = byte := held.suffix.1
    rw [List.length_append, List.length_singleton, StringEdits.trimEnd, isLast]
    by_cases removable : back byte = true
    · rw [if_pos removable, List.rdropWhile_concat_pos _ _ _ removable]
      rcases ih held.split.1 with ⟨trimmed, frame⟩
      refine ⟨trimmed, fun location outside => ?_⟩
      rw [mem_compl_range] at outside
      rw [frame (by rw [mem_compl_range]; omega),
        write8_apply_of_ne (by omega)]
    · rw [if_neg removable, List.rdropWhile_concat_neg _ _ _ removable]
      exact ⟨held, fun _ _ => rfl⟩

/-- Trimming a string in place is stripping its text. -/
theorem trimAt {front back : UInt8 → Bool} (held : StringAt memory address text)
    (stops : front 0 = false) (enough : text.length < fuel) :
    ∃ changed, trimAt front back fuel memory address = some changed ∧
      StringAt changed address (strip front back text) ∧
      Set.EqOn changed memory (range address (text.length + 1))ᶜ := by
  have whole : text.takeWhile front ++ text.dropWhile front = text :=
    List.takeWhile_append_dropWhile
  have shorter : (text.dropWhile front).length ≤ text.length := List.length_dropWhile_le _ _
  have enoughRest : (text.dropWhile front).length < fuel := shorter.trans_lt enough
  have rest : StringAt memory (address + (text.takeWhile front).length) (text.dropWhile front) := by
    rw [← whole] at held
    exact held.suffix
  -- The string is moved down unless it starts where it should.
  have moved : ∃ middle, (if address + (text.takeWhile front).length ≠ address then
        StringEdits.moveDown fuel memory address (address + (text.takeWhile front).length)
      else some memory) = some middle ∧ StringAt middle address (text.dropWhile front) ∧
      Set.EqOn middle memory (range address (text.length + 1))ᶜ := by
    split
    next =>
      rcases rest.moveDown (Nat.le_add_right address _) enoughRest with
        ⟨middle, run, atFront, frame⟩
      refine ⟨middle, run, atFront, frame.mono (Set.compl_subset_compl.mpr ?_)⟩
      exact range_subset_range le_rfl (by omega)
    next still =>
      have none : (text.takeWhile front).length = 0 := by omega
      rw [none, Nat.add_zero] at rest
      exact ⟨memory, rfl, rest, fun _ _ => rfl⟩
  rcases moved with ⟨middle, run, atFront, frame⟩
  rcases @trimEnd middle address _ back atFront with ⟨trimmed, endFrame⟩
  refine ⟨StringEdits.trimEnd back middle address (text.dropWhile front).length, ?_, trimmed, ?_⟩
  · rw [StringEdits.trimAt, held.skipWhile stops enough]
    dsimp only
    rw [run]
    dsimp only
    rw [atFront.strlen enoughRest]
    rfl
  · refine (endFrame.mono (Set.compl_subset_compl.mpr ?_)).trans frame
    exact range_subset_range le_rfl (by omega)

theorem passed_of_absent {mark : UInt8} (noZero : 0 ∉ text) (absent : mark ∉ text) :
    ∀ char ∈ text, decide (char ≠ 0 ∧ char ≠ mark) = true := by
  intro char listed
  rw [decide_eq_true_eq]
  constructor
  · rintro rfl
    exact noZero listed
  · rintro rfl
    exact absent listed

theorem findMark_none {mark : UInt8} (held : StringAt memory address text) (nonzero : mark ≠ 0)
    (absent : cut mark text = none) (enough : text.length < fuel) :
    ∃ stop, findMark mark memory fuel address = some stop ∧ memory stop ≠ mark := by
  have symbols := passed_of_absent held.noZero (cut_eq_none_iff.mp absent)
  refine ⟨address + text.length, ?_, ?_⟩
  · rw [findMark, held.skipWhile (by simp) enough, List.takeWhile_eq_self_iff.mpr symbols]
  · have whole : StringAt memory address (text ++ []) := by rwa [List.append_nil]
    have ended : memory (address + text.length) = 0 := whole.suffix
    rw [ended]
    exact nonzero.symm

theorem findMark_some {mark : UInt8} (held : StringAt memory address text)
    (isCut : cut mark text = some (left, right)) (enough : text.length < fuel) :
    findMark mark memory fuel address = some (address + left.length) ∧
      memory (address + left.length) = mark ∧
      StringAt (write8 memory (address + left.length) 0) address left ∧
      StringAt (write8 memory (address + left.length) 0) (address + left.length + 1) right := by
  rcases eq_append_of_cut isCut with ⟨rfl, absent⟩
  have symbols := passed_of_absent (fun zero => held.noZero (List.mem_append_left _ zero)) absent
  refine ⟨?_, held.suffix.1, held.split⟩
  rw [findMark, held.skipWhile (by simp) enough, List.takeWhile_append_of_pos symbols]
  simp

theorem copyLine {newline : UInt8} {room start dest : ℕ} (held : StringAt memory start text)
    (apart : Disjoint (range start (text.length + 1)) (range dest (room + 1))) :
    (copyLine newline room memory start dest).2 = start + (line newline room text).length ∧
      StringAt (StringEdits.copyLine newline room memory start dest).1 dest
        (line newline room text) ∧
      Set.EqOn (StringEdits.copyLine newline room memory start dest).1 memory
        (range dest (room + 1))ᶜ := by
  have ends (room : ℕ) (memory : Memory) (dest : ℕ) : StringAt (write8 memory dest 0) dest [] ∧
      Set.EqOn (write8 memory dest 0) memory (range dest (room + 1))ᶜ := by
    refine ⟨write8_same _ _ _, write8_eqOn ?_⟩
    simp
  induction room generalizing memory start dest text with
  | zero => exact ⟨rfl, ends 0 memory dest⟩
  | succ room ih =>
    rw [StringEdits.copyLine, held.apply]
    cases text with
    | nil => exact ⟨rfl, ends (room + 1) memory dest⟩
    | cons byte text =>
      rcases held with ⟨here, nonzero, rest⟩
      rw [List.headD_cons]
      by_cases isNewline : byte = newline
      · have stops : line newline (room + 1) (byte :: text) = [] := by
          simp [line, isNewline]
        rw [if_neg (fun both => both.2 isNewline), stops]
        exact ⟨rfl, ends (room + 1) memory dest⟩
      · have goes : line newline (room + 1) (byte :: text) =
            byte :: line newline room text := by
          simp [line, isNewline]
        have separate := apart_of_disjoint_range apart (by omega) (by omega)
        rw [List.length_cons] at separate
        have unread : StringAt (write8 memory dest byte) (start + 1) text := by
          refine rest.congr (write8_eqOn ?_)
          rw [mem_range]
          omega
        have behindApart : Disjoint (range (start + 1) (text.length + 1))
            (range (dest + 1) (room + 1)) := disjoint_range (by omega)
        rcases ih unread behindApart with ⟨behind, copied, frame⟩
        rw [if_pos ⟨nonzero, isNewline⟩, goes, List.length_cons]
        refine ⟨by omega, ⟨?_, nonzero, copied⟩, ?_⟩
        · rw [frame (by rw [mem_compl_range]; omega), write8_same]
        · intro location outside
          rw [mem_compl_range] at outside
          rw [frame (by rw [mem_compl_range]; omega),
            write8_apply_of_ne (by omega)]

end StringAt

end StringEdits
