import RamOS.Lib.CString

/-!
# The bounded string copy

`strncpy` is defined once in `libsys.c` and again, word for word, in six files of
the kernel. Both strings are in memory, and the source may lie where the copy is
written. The copy is what the by-value copy of `CString` does, provided that the
bytes which it has overwritten are read again as they were.
-/

namespace RamOS.Libsys

open ByteMemory CString

/-- The loop `while (n && (*dest++ = *src++)) n--`: the memory, the place reached, and what is
left of `n`. -/
def strncpyLoop : Memory → ℕ → ℕ → ℕ → Memory × ℕ × ℕ
  | memory, dest, _, 0 => (memory, dest, 0)
  | memory, dest, src, n + 1 =>
    let copied := write8 memory dest (memory src)
    if memory src = 0 then (copied, dest + 1, n + 1)
    else strncpyLoop copied (dest + 1) (src + 1) n

/-- `strncpy`, whose second loop is `while (n--) *dest++ = '\0'`. -/
def strncpy (memory : Memory) (dest src n : ℕ) : Memory :=
  let (copied, behind, left) := strncpyLoop memory dest src n
  fill copied behind 0 left

/-- The first `n` characters of a string, padded with zeros, have been written, and
nothing else. -/
structure WritesExactly (before after : Memory) (dest n : ℕ) (text : Bytes) : Prop where
  copied : ∀ offset < n, after (dest + offset) = text.getD offset 0
  framed : Set.EqOn after before (range dest n)ᶜ

/-- A string copied to a place further up inside itself repeats itself at that distance, as far as
it is read. -/
def RepeatsAt (text : Bytes) (dest src n : ℕ) : Prop :=
  ∀ shift offset, src + shift = dest → 0 < shift → shift + offset < n →
    shift + offset ≤ text.length → text.getD (shift + offset) 0 = text.getD offset 0

variable {memory : Memory} {dest src n : ℕ} {text : Bytes}

theorem strncpy_zero : strncpy memory dest src 0 = memory := rfl

theorem strncpy_ended (ended : memory src = 0) :
    strncpy memory dest src (n + 1) = fill (write8 memory dest 0) (dest + 1) 0 (n + 1) := by
  simp only [strncpy, strncpyLoop, if_pos ended]
  rw [ended]

theorem strncpy_next (nonzero : memory src ≠ 0) :
    strncpy memory dest src (n + 1) =
      strncpy (write8 memory dest (memory src)) (dest + 1) (src + 1) n := by
  simp only [strncpy, strncpyLoop, if_neg nonzero]

theorem strncpy_apply_below {location : ℕ} (below : location < dest) :
    strncpy memory dest src n location = memory location := by
  induction n generalizing memory dest src with
  | zero => rw [strncpy_zero]
  | succ n ih =>
    by_cases ended : memory src = 0
    · rw [strncpy_ended ended,
        fill_eqOn _ _ _ _ (by rw [mem_compl_range]; omega)]
      exact write8_apply_of_ne (by omega)
    · rw [strncpy_next ended, ih (by omega)]
      exact write8_apply_of_ne (by omega)

theorem strncpy_eq (noZero : 0 ∉ text)
    (reads : ∀ offset < n, offset ≤ text.length → memory (src + offset) = text.getD offset 0)
    (repeats : RepeatsAt text dest src n) :
    strncpy memory dest src n = CString.strncpy memory dest text n := by
  induction n generalizing memory dest src text with
  | zero => cases text <;> rfl
  | succ n ih =>
    have first : memory src = text.getD 0 0 := reads 0 (by omega) (by omega)
    cases text with
    | nil => rw [strncpy_ended first, CString.strncpy]
    | cons byte text =>
      have head : memory src = byte := first
      simp only [List.mem_cons, not_or] at noZero
      have nonzero : memory src ≠ 0 := by
        rw [head]
        exact Ne.symm noZero.1
      rw [strncpy_next nonzero, head, CString.strncpy]
      refine ih noZero.2 ?_ ?_
      · intro offset inside listed
        have place : src + 1 + offset = src + (offset + 1) := by omega
        rw [place]
        by_cases overwritten : src + (offset + 1) = dest
        · have again := repeats (offset + 1) 0 overwritten (by omega) (by omega)
            (by simpa using listed)
          rw [overwritten, write8_same]
          exact again.symm
        · rw [write8_apply_of_ne overwritten, reads (offset + 1) (by omega)
            (by simpa using listed), List.getD_cons_succ]
      · intro shift offset isDest positive inside listed
        have again := repeats shift (offset + 1) (by omega) positive (by omega)
          (by rw [List.length_cons]; omega)
        have shape : shift + (offset + 1) = shift + offset + 1 := by omega
        rwa [shape, List.getD_cons_succ, List.getD_cons_succ] at again

theorem strncpy_apply_dest : strncpy memory dest src (n + 1) dest = memory src := by
  by_cases ended : memory src = 0
  · rw [strncpy_ended ended,
      fill_eqOn _ _ _ _ (by rw [mem_compl_range]; omega), write8_same, ended]
  · rw [strncpy_next ended, strncpy_apply_below (by omega), write8_same]

theorem strncpy_apply_again {shift k : ℕ} (isDest : src + shift = dest) (positive : 0 < shift)
    (inside : k < n) (nonzero : ∀ earlier < k, strncpy memory dest src n (dest + earlier) ≠ 0) :
    strncpy memory dest src n (dest + k) =
      if shift ≤ k then strncpy memory dest src n (dest + (k - shift)) else memory (src + k) := by
  induction k generalizing n dest src memory with
  | zero =>
    rcases n with _ | n
    · omega
    rw [if_neg (by omega)]
    exact strncpy_apply_dest
  | succ k ih =>
    rcases n with _ | n
    · omega
    have started : memory src ≠ 0 := by
      have head : strncpy memory dest src (n + 1) dest ≠ 0 := nonzero 0 (by omega)
      rwa [strncpy_apply_dest] at head
    have next (offset : ℕ) : dest + (offset + 1) = dest + 1 + offset := by omega
    have rest (earlier : ℕ) (before : earlier < k) :
        strncpy (write8 memory dest (memory src)) (dest + 1) (src + 1) n
          (dest + 1 + earlier) ≠ 0 := by
      have kept := nonzero (earlier + 1) (by omega)
      rwa [strncpy_next started, next earlier] at kept
    rw [strncpy_next started, next k, ih (by omega) (by omega) rest]
    rcases Nat.lt_trichotomy shift (k + 1) with less | equal | greater
    · have place : dest + (k + 1 - shift) = dest + 1 + (k - shift) := by omega
      rw [if_pos (by omega), if_pos (by omega), place]
    · have place : src + 1 + k = dest := by omega
      have start : dest + (k + 1 - shift) = dest := by omega
      rw [if_neg (by omega), if_pos (by omega), place, write8_same, start,
        strncpy_apply_below (by omega), write8_same]
    · have place : src + 1 + k = src + (k + 1) := by omega
      rw [if_neg (by omega), if_neg (by omega), place]
      exact write8_apply_of_ne (by omega)

theorem byValue_writesExactly_iff :
    WritesExactly memory (CString.strncpy memory dest text n) dest n text ↔
      n ≤ text.length ∨ memory (dest + n) = 0 := by
  constructor
  · intro exact
    by_cases long : n ≤ text.length
    · exact Or.inl long
    · have unchanged : CString.strncpy memory dest text n (dest + n) = memory (dest + n) :=
        exact.framed (by rw [mem_compl_range]; omega)
      rw [strncpy_apply_end (by omega)] at unchanged
      exact Or.inr unchanged.symm
  · intro harmless
    refine ⟨fun offset inside => strncpy_apply inside, ?_⟩
    intro location outside
    by_cases behind : location = dest + n
    · rw [behind]
      rcases harmless with long | zero
      · exact strncpy_apply_of_le long
      · by_cases long : n ≤ text.length
        · exact strncpy_apply_of_le long
        · rw [strncpy_apply_end (by omega), zero]
    · refine strncpy_eqOn memory dest text n ?_
      rw [mem_compl_range] at outside ⊢
      omega

/-- `strncpy` writes the first `n` characters with their padding and nothing else exactly if the
string has at least `n` characters or the byte behind the field was zero already, and the string
is not overwritten before it has been read. -/
theorem strncpy_writesExactly_iff
    (held : load memory src (text ++ [0]).length = text ++ [0]) (noZero : 0 ∉ text) :
    WritesExactly memory (strncpy memory dest src n) dest n text ↔
      (n ≤ text.length ∨ memory (dest + n) = 0) ∧ RepeatsAt text dest src n := by
  have reads (offset : ℕ) (_ : offset < n) (listed : offset ≤ text.length) :
      memory (src + offset) = text.getD offset 0 := by
    rw [← getD_append_zero, ← held, getD_load]
    rw [List.length_append, List.length_singleton]
    omega
  constructor
  · intro exact
    have repeats : RepeatsAt text dest src n := by
      intro shift offset isDest positive inside listed
      have nonzero (earlier : ℕ) (before : earlier < shift + offset) :
          strncpy memory dest src n (dest + earlier) ≠ 0 := by
        rw [exact.copied earlier (by omega), List.getD_eq_getElem?_getD,
          List.getElem?_eq_getElem (by omega), Option.getD_some]
        exact fun zero => noZero (zero ▸ List.getElem_mem _)
      have again := strncpy_apply_again isDest positive inside nonzero
      rwa [if_pos (by omega), Nat.add_sub_cancel_left, exact.copied _ inside,
        exact.copied _ (by omega)] at again
    rw [strncpy_eq noZero reads repeats] at exact
    exact ⟨byValue_writesExactly_iff.mp exact, repeats⟩
  · rintro ⟨harmless, repeats⟩
    rw [strncpy_eq noZero reads repeats]
    exact byValue_writesExactly_iff.mpr harmless

theorem strncpy_writesExactly_full :
    WritesExactly (place 0 [97, 98, 0]) (strncpy (place 0 [97, 98, 0]) 16 0 2) 16 2 [97, 98] := by
  refine (strncpy_writesExactly_iff (by decide) (by decide)).mpr ⟨Or.inl (by decide), ?_⟩
  intro shift offset isDest _ inside
  omega

/-- A string of one character is copied into four bytes, and the byte behind them is cleared. -/
theorem strncpy_clears_next_field :
    load (place 0 [97, 0, 1, 1, 1, 1, 7]) 0 2 = [97, 0] ∧
      place 0 [97, 0, 1, 1, 1, 1, 7] 6 = 7 ∧
      strncpy (place 0 [97, 0, 1, 1, 1, 1, 7]) 2 0 4 6 = 0 ∧
      ¬ WritesExactly (place 0 [97, 0, 1, 1, 1, 1, 7])
        (strncpy (place 0 [97, 0, 1, 1, 1, 1, 7]) 2 0 4) 2 4 [97] := by
  refine ⟨by decide, by decide, by decide, ?_⟩
  intro exact
  have unchanged := exact.framed (show 6 ∈ (range 2 4)ᶜ by simp [mem_range])
  exact absurd unchanged (by decide)

end RamOS.Libsys
