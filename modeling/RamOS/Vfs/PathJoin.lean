import RamOS.Lib.StringEdits
import RamOS.Vfs.Paths

/-!
# Joining paths

`path_join` copies the first path into a block of `strlen(path1) + strlen(path2) + 2`
bytes, stores a slash behind it if none of the two paths brings one, and skips a
slash of the second path if both do. Behind a path that is not empty this leaves
exactly one slash of the two ends, which makes the operation associative.
-/

namespace RamOS.Vfs

open ByteMemory CString StringEdits

def pathJoinAt (fuel : ℕ) (memory : Memory) (path1 path2 result : ℕ) : Option Memory := do
  let len1 ← strlen fuel memory path1
  let memory ← strcpyAt fuel memory result path1
  let memory :=
    if 0 < len1 ∧ memory (result + len1 - 1) ≠ '/'.toUInt8 ∧ memory path2 ≠ '/'.toUInt8 then
      write8 (write8 memory (result + len1) '/'.toUInt8) (result + len1 + 1) 0
    else memory
  let p2 :=
    if 0 < len1 ∧ memory (result + len1 - 1) = '/'.toUInt8 ∧ memory path2 = '/'.toUInt8 then
      path2 + 1
    else path2
  let length ← strlen fuel memory result
  strcpyAt fuel memory (result + length) p2

structure Operands (memory : Memory) (path1 path2 result : ℕ) (a b : Bytes) : Prop where
  held1 : StringAt memory path1 a
  held2 : StringAt memory path2 b
  apart1 : Disjoint (range path1 (a.length + 1)) (range result (a.length + b.length + 2))
  apart2 : Disjoint (range path2 (b.length + 1)) (range result (a.length + b.length + 2))

def slashed (path : Bytes) : Bytes :=
  if path.getLast? = some '/'.toUInt8 then path else path ++ ['/'.toUInt8]

def unslash (path : Bytes) : Bytes :=
  if path.head? = some '/'.toUInt8 then path.drop 1 else path

variable {a b : Bytes}

theorem join_eq (nonempty : a ≠ []) (b : Bytes) : join a b = slashed a ++ unslash b := by
  by_cases ends : a.getLast? = some '/'.toUInt8
  · by_cases starts : b.head? = some '/'.toUInt8
    · simp [join, slashed, unslash, ends, starts, nonempty]
    · simp [join, slashed, unslash, ends, starts]
  · by_cases starts : b.head? = some '/'.toUInt8
    · rcases List.head?_eq_some_iff.mp starts with ⟨rest, rfl⟩
      simp [join, slashed, unslash, ends]
    · simp [join, slashed, unslash, ends, starts, nonempty]

theorem join_nil_left (b : Bytes) : join [] b = b := by simp [join]

theorem slashed_ne_nil (path : Bytes) : slashed path ≠ [] := by
  rw [slashed]
  split
  · rintro rfl
    contradiction
  · simp

theorem slashed_slashed (path : Bytes) : slashed (slashed path) = slashed path := by
  have ends : (slashed path).getLast? = some '/'.toUInt8 := by
    rw [slashed]
    split
    · assumption
    · simp
  rw [slashed, if_pos ends]

theorem slashed_append (nonempty : b ≠ []) (a : Bytes) :
    slashed (a ++ b) = a ++ slashed b := by
  rw [slashed, slashed, List.getLast?_append_of_ne_nil a nonempty]
  split
  · rfl
  · rw [List.append_assoc]

theorem unslash_append (nonempty : a ≠ []) (b : Bytes) :
    unslash (a ++ b) = unslash a ++ b := by
  cases a with
  | nil => exact absurd rfl nonempty
  | cons char a =>
    rw [unslash, unslash, List.cons_append, List.head?_cons, List.head?_cons]
    split
    · rfl
    · rfl

theorem slashed_append_unslash (nonempty : b ≠ []) (a : Bytes) :
    slashed (slashed a ++ unslash b) = slashed a ++ unslash (slashed b) := by
  cases b with
  | nil => exact absurd rfl nonempty
  | cons char b =>
    by_cases isSlash : char = '/'.toUInt8
    · have front (path : Bytes) : unslash (char :: path) = path := by simp [unslash, isSlash]
      by_cases alone : b = []
      · have same : slashed [char] = [char] := by simp [slashed, isSlash]
        rw [alone, same, front, List.append_nil, slashed_slashed]
      · have longer : slashed (char :: b) = char :: slashed b := slashed_append alone [char]
        rw [front, slashed_append alone, longer, front]
    · have kept (path : Bytes) : unslash (char :: path) = char :: path := by
        simp [unslash, isSlash]
      have whole : unslash (slashed (char :: b)) = slashed (char :: b) := by
        rw [slashed]
        split
        · exact kept b
        · exact kept (b ++ ['/'.toUInt8])
      rw [kept, whole, slashed_append nonempty]

theorem join_assoc (a b c : Bytes) : join (join a b) c = join a (join b c) := by
  by_cases leftEmpty : a = []
  · rw [leftEmpty, join_nil_left, join_nil_left]
  by_cases empty : b = []
  · have nothing : unslash [] = [] := rfl
    rw [empty, join_nil_left, join_eq leftEmpty, nothing, List.append_nil,
      join_eq (slashed_ne_nil a), slashed_slashed, join_eq leftEmpty]
  · have joined : slashed a ++ unslash b ≠ [] := by simp [slashed_ne_nil]
    rw [join_eq leftEmpty, join_eq joined, slashed_append_unslash empty, join_eq empty,
      join_eq leftEmpty, unslash_append (slashed_ne_nil b), List.append_assoc]

theorem length_join_le (a b : Bytes) : (join a b).length ≤ a.length + b.length + 1 := by
  simp only [join, List.length_append]
  split
  · split
    · simp
      omega
    · simp
      omega
  · split
    · simp
      omega
    · omega

theorem noZero_concat_slash (noZero : 0 ∉ a) : 0 ∉ a ++ ['/'.toUInt8] := by
  rw [List.mem_append, not_or]
  exact ⟨noZero, by decide⟩

theorem noZero_join (leftNoZero : 0 ∉ a) (rightNoZero : 0 ∉ b) : 0 ∉ join a b := by
  simp only [join, List.mem_append, not_or]
  constructor
  · split
    · exact noZero_concat_slash leftNoZero
    · exact leftNoZero
  · split
    · exact fun listed => rightNoZero (List.mem_of_mem_drop listed)
    · exact rightNoZero

variable {memory : Memory} {path1 path2 result fuel : ℕ}

theorem last_eq_slash_iff (held : StringAt memory result a) (nonempty : a ≠ []) :
    memory (result + a.length - 1) = '/'.toUInt8 ↔ a.getLast? = some '/'.toUInt8 := by
  rcases List.eq_nil_or_concat' a with rfl | ⟨front, last, rfl⟩
  · exact absurd rfl nonempty
  · have here : memory (result + front.length) = last := held.suffix.1
    rw [List.getLast?_concat, List.length_append, List.length_singleton, ← Nat.add_assoc,
      Nat.add_sub_cancel, here, Option.some.injEq]

theorem first_eq_slash_iff (held : StringAt memory path2 b) :
    memory path2 = '/'.toUInt8 ↔ b.head? = some '/'.toUInt8 := by
  rw [held.apply]
  cases b with
  | nil => decide
  | cons char b => simp

theorem Operands.pathJoinAt (operands : Operands memory path1 path2 result a b)
    (enough : a.length + b.length + 1 < fuel) :
    pathJoinAt fuel memory path1 path2 result = some (strcpy memory result (join a b)) := by
  rcases operands with ⟨held1, held2, apart1, apart2⟩
  have beside1 := apart_of_disjoint_range apart1 (by omega) (by omega)
  have beside2 := apart_of_disjoint_range apart2 (by omega) (by omega)
  have reads {text : Bytes} (noZero : 0 ∉ text) (short : text.length ≤ a.length + 1) :
      StringAt (strcpy memory result text) result text ∧
        StringAt (strcpy memory result text) path2 b := by
    refine ⟨StringAt.of_strcpy memory result noZero, held2.congr ?_⟩
    refine (strcpy_eqOn memory result text).mono ?_
    exact (apart2.mono_right (range_subset_range le_rfl (by omega))).subset_compl_right
  have finish {front back : Bytes} {p2 : ℕ} (noZero : 0 ∉ front)
      (short : front.length ≤ a.length + 1) (below : path2 ≤ p2)
      (rest : StringAt (strcpy memory result front) p2 back)
      (count : p2 + back.length = path2 + b.length) :
      (strlen fuel (strcpy memory result front) result).bind (fun length =>
        strcpyAt fuel (strcpy memory result front) (result + length) p2) =
          some (strcpy memory result (front ++ back)) := by
    rw [(reads noZero short).1.strlen (by omega), Option.bind_some,
      rest.strcpyAt (by omega) (by omega), strcpy_append]
  rcases reads held1.noZero (by omega) with ⟨copied, second⟩
  have beside : result + a.length < path1 ∨ path1 + a.length < result := by omega
  have enough : a.length < fuel := by omega
  simp only [Vfs.pathJoinAt, held1.strlen enough, Option.bind_eq_bind, Option.bind_some,
    held1.strcpyAt beside enough, List.length_pos_iff]
  by_cases nonempty : a = []
  · subst nonempty
    simpa [join] using finish (by simp) (by simp) le_rfl second rfl
  have endsIff := last_eq_slash_iff copied nonempty
  have startsIff := first_eq_slash_iff second
  by_cases apart : ¬ a.getLast? = some '/'.toUInt8 ∧ ¬ b.head? = some '/'.toUInt8
  · have stored : write8 (write8 (strcpy memory result a) (result + a.length) '/'.toUInt8)
        (result + a.length + 1) 0 = strcpy memory result (a ++ ['/'.toUInt8]) :=
      strcpy_append memory result a ['/'.toUInt8]
    have second := (reads (noZero_concat_slash held1.noZero) (by simp)).2
    simp only [ne_eq, endsIff, startsIff, if_pos (And.intro nonempty apart), stored]
    rw [if_neg (fun all => apart.2 ((first_eq_slash_iff second).mp all.2.2))]
    simpa [join, apart, nonempty] using
      finish (noZero_concat_slash held1.noZero) (by simp) le_rfl second rfl
  · simp only [ne_eq, endsIff, startsIff, if_neg (fun all => apart (And.right all))]
    by_cases both : a.getLast? = some '/'.toUInt8 ∧ b.head? = some '/'.toUInt8
    · rcases List.head?_eq_some_iff.mp both.2 with ⟨rest, rfl⟩
      rw [if_pos ⟨nonempty, both⟩]
      simpa [join, nonempty, both] using
        finish held1.noZero (by omega) (by omega) second.2.2 (by simp; omega)
    · rw [if_neg (fun all => both all.2)]
      have joined : join a b = a ++ b := by
        simp only [join]
        rw [if_neg (fun all => apart all.2), if_neg (fun all => both all.2)]
      rw [joined]
      exact finish held1.noZero (by omega) le_rfl second rfl

/-- `path_join` is associative, and writes at most the bytes that it has asked for. -/
theorem pathJoin_assoc_and_fits :
    (∀ a b c, pathJoin true (pathJoin true (some a) (some b)) (some c) =
      pathJoin true (some a) (pathJoin true (some b) (some c))) ∧
    ∀ fuel memory path1 path2 result a b, Operands memory path1 path2 result a b →
      a.length + b.length + 1 < fuel →
      ∃ joined after, pathJoin true (some a) (some b) = some joined ∧
        pathJoinAt fuel memory path1 path2 result = some after ∧ StringAt after result joined ∧
        joined.length + 1 ≤ a.length + b.length + 2 ∧
        Set.EqOn after memory (range result (a.length + b.length + 2))ᶜ := by
  constructor
  · intro a b c
    exact congrArg some (join_assoc a b c)
  · intro fuel memory path1 path2 result a b operands enough
    have length := length_join_le a b
    refine ⟨join a b, _, rfl, operands.pathJoinAt enough, ?_, by omega, ?_⟩
    · exact StringAt.of_strcpy _ _ (noZero_join operands.held1.noZero operands.held2.noZero)
    · refine (strcpy_eqOn memory result (join a b)).mono ?_
      rw [Set.compl_subset_compl]
      exact range_subset_range le_rfl (by omega)

/-- Joining `usr/` and `/bin` leaves out one of the two slashes. -/
theorem pathJoin_fits_usr_bin :
    ∃ after, pathJoinAt 16 (place 100 (ascii "usr/\x00/bin\x00")) 100 105 200 = some after ∧
      StringAt after 200 (ascii "usr/bin") ∧
      Set.EqOn after (place 100 (ascii "usr/\x00/bin\x00")) (range 200 10)ᶜ := by
  have operands : Operands (place 100 (ascii "usr/\x00/bin\x00")) 100 105 200 (ascii "usr/")
      (ascii "/bin") := by
    refine ⟨⟨rfl, by decide, rfl, by decide, rfl, by decide, rfl, by decide, rfl⟩,
      ⟨rfl, by decide, rfl, by decide, rfl, by decide, rfl, by decide, rfl⟩,
      disjoint_range (by decide), disjoint_range (by decide)⟩
  rcases pathJoin_assoc_and_fits.2 16 _ _ _ _ _ _ operands (by decide) with
    ⟨joined, after, value, run, stored, _, frame⟩
  cases value
  exact ⟨after, run, stored, frame⟩

end RamOS.Vfs
