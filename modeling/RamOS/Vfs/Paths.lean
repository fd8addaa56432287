import RamOS.Lib.Words
import RamOS.Vfs.Model

/-!
# Splitting and joining paths

`path_dirname` cuts a path at its last slash, `path_basename` takes what is behind the last
slash that does not end the path, and `path_join` puts two paths together with one slash between
them. On a path that ends in a slash the two scans disagree.
-/

namespace RamOS.Vfs

open CString Words

def lastSlash : Bytes → ℕ → Option ℕ → Option ℕ
  | [], _, found => found
  | char :: path, position, found =>
    lastSlash path (position + 1) (if char = '/'.toUInt8 then some position else found)

def dirname (path : Bytes) : Bytes :=
  match lastSlash path 0 none with
  | none => ascii "."
  | some position => if position = 0 then path.take 1 else path.take position

def pathDirname (allocated : Bool) (path : Option Bytes) : Option Bytes :=
  path.bind fun path => if allocated then some (dirname path) else none

def baseStart : Bytes → ℕ → ℕ → ℕ
  | [], _, start => start
  | char :: path, position, start =>
    baseStart path (position + 1)
      (if char = '/'.toUInt8 ∧ path ≠ [] then position + 1 else start)

/-- Remove one slash at the end of a name that is longer than that. -/
def dropSlash (name : Bytes) : Bytes :=
  if 1 < name.length ∧ name.getLast? = some '/'.toUInt8 then name.dropLast else name

def basename (path : Bytes) : Bytes := dropSlash (path.drop (baseStart path 0 0))

def pathBasename (allocated : Bool) (path : Option Bytes) : Option Bytes :=
  path.bind fun path => if allocated then some (basename path) else none

def join (path1 path2 : Bytes) : Bytes :=
  let ends := path1.getLast? = some '/'.toUInt8
  let starts := path2.head? = some '/'.toUInt8
  (if path1 ≠ [] ∧ ¬ ends ∧ ¬ starts then path1 ++ ['/'.toUInt8] else path1) ++
    (if path1 ≠ [] ∧ ends ∧ starts then path2.drop 1 else path2)

def pathJoin (allocated : Bool) (path1 path2 : Option Bytes) : Option Bytes :=
  path1.bind fun path1 => path2.bind fun path2 =>
    if allocated then some (join path1 path2) else none

def pathIsAbsolute (path : Bytes) : Prop := path.head? = some '/'.toUInt8

instance : DecidablePred pathIsAbsolute := fun _ => inferInstanceAs (Decidable (_ = _))

inductive MkdirFailure where
  | noPath
  | invalidPath
  | parentNotFound
  | parentNotDirectory
  | notImplemented
  deriving DecidableEq

/-- What `vfs_mkdir` returns, why, and the path that it hands to `vfs_finddir`. -/
structure Mkdir where
  returned : ℤ
  failure : MkdirFailure
  lookedUp : Option Bytes

variable {Callback : Type}

def vfsMkdir (vfs : State Callback) (dirAllocated baseAllocated : Bool)
    (path : Option Bytes) : Mkdir :=
  if path = none then { returned := -1, failure := .noPath, lookedUp := none }
  else
    match pathDirname dirAllocated path, pathBasename baseAllocated path with
    | some parentPath, some _ =>
      let parent := vfsFinddir vfs parentPath
      let failure :=
        if parent = 0 then .parentNotFound
        else if (vfs.nodes parent).flags &&& vfsDirectory = 0 then .parentNotDirectory
        else .notImplemented
      { returned := -1, failure, lookedUp := some parentPath }
    | _, _ => { returned := -1, failure := .invalidPath, lookedUp := none }

def components (path : Bytes) : List Bytes :=
  words (fun char => char = '/'.toUInt8) path

def significant (names : List Bytes) : List Bytes :=
  names.filter fun name => name ≠ ascii "."

/-- The base name is the last component, the joined path has the components of the path and is
absolute if the path is, and `vfs_mkdir` looks up the parent. -/
structure Lossless (vfs : State Callback) (path : Bytes) : Prop where
  base : pathBasename true (some path) = (components path).getLast?
  joined : ∃ joined,
    pathJoin true (pathDirname true (some path)) (pathBasename true (some path)) = some joined ∧
      significant (components joined) = significant (components path) ∧
      (pathIsAbsolute joined ↔ pathIsAbsolute path)
  parent : ∃ lookedUp, (vfsMkdir vfs true true (some path)).lookedUp = some lookedUp ∧
    significant (components lookedUp) = significant (components path).dropLast

section Scans

variable {name front : Bytes}

theorem lastSlash_of_absent (absent : '/'.toUInt8 ∉ name) (position : ℕ) (found : Option ℕ) :
    lastSlash name position found = found := by
  induction name generalizing position with
  | nil => rfl
  | cons char name ih =>
    rw [List.mem_cons, not_or] at absent
    rw [lastSlash, if_neg (Ne.symm absent.1), ih absent.2]

theorem lastSlash_append_name (absent : '/'.toUInt8 ∉ name) (position : ℕ) (found : Option ℕ) :
    lastSlash (front ++ '/'.toUInt8 :: name) position found = some (position + front.length) := by
  induction front generalizing position found with
  | nil => rw [List.nil_append, lastSlash, if_pos rfl, lastSlash_of_absent absent]; rfl
  | cons char front ih =>
    rw [List.cons_append, lastSlash, ih, List.length_cons, Nat.add_assoc, Nat.add_comm 1]

theorem baseStart_of_absent (absent : '/'.toUInt8 ∉ name) (position start : ℕ) :
    baseStart name position start = start := by
  induction name generalizing position with
  | nil => rfl
  | cons char name ih =>
    rw [List.mem_cons, not_or] at absent
    rw [baseStart, if_neg (fun slash => absent.1 slash.1.symm), ih absent.2]

theorem baseStart_concat_slash (absent : '/'.toUInt8 ∉ name) (position start : ℕ) :
    baseStart (name ++ ['/'.toUInt8]) position start = start := by
  induction name generalizing position with
  | nil => simp [baseStart]
  | cons char name ih =>
    rw [List.mem_cons, not_or] at absent
    rw [List.cons_append, baseStart, if_neg (fun slash => absent.1 slash.1.symm), ih absent.2]

theorem baseStart_append (nonempty : name ≠ []) (position start : ℕ) :
    baseStart (front ++ '/'.toUInt8 :: name) position start =
      baseStart name (position + front.length + 1) (position + front.length + 1) := by
  induction front generalizing position start with
  | nil => rw [List.nil_append, baseStart, if_pos ⟨rfl, nonempty⟩]; rfl
  | cons char front ih =>
    rw [List.cons_append, baseStart, ih, List.length_cons]
    rw [Nat.add_assoc position, Nat.add_comm 1]

end Scans

/-- The text before a name: nothing, or something that ends in a slash. -/
def Boundary (front : Bytes) : Prop := ∀ last ∈ front.getLast?, last = '/'.toUInt8

structure IsPart (name : Bytes) : Prop where
  nonempty : name ≠ []
  noSlash : '/'.toUInt8 ∉ name

section Names

variable {front name dir : Bytes}

theorem Boundary.cases (boundary : Boundary front) :
    front = [] ∨ ∃ before, front = before ++ ['/'.toUInt8] := by
  rcases List.eq_nil_or_concat' front with rfl | ⟨before, last, rfl⟩
  · exact Or.inl rfl
  · have slash := boundary last (by simp)
    exact Or.inr ⟨before, by rw [slash]⟩

theorem components_append_part (boundary : Boundary front) (isPart : IsPart name) :
    components (front ++ name) = components front ++ [name] := by
  apply words_append_word
  · simpa [Boundary] using boundary
  · exact isPart.nonempty
  · intro char isChar
    rw [decide_eq_false_iff_not]
    rintro rfl
    exact isPart.noSlash isChar

@[simp]
theorem components_concat_slash (path : Bytes) :
    components (path ++ ['/'.toUInt8]) = components path :=
  words_concat_break (by simp) path

theorem dirname_append_slash (noSlash : '/'.toUInt8 ∉ name) :
    dirname (front ++ '/'.toUInt8 :: name) = if front = [] then ['/'.toUInt8] else front := by
  rw [dirname, lastSlash_append_name noSlash, Nat.zero_add]
  cases front with
  | nil => rfl
  | cons char front => simp

theorem dirname_concat_slash (nonempty : dir ≠ []) : dirname (dir ++ ['/'.toUInt8]) = dir := by
  rw [dirname_append_slash List.not_mem_nil, if_neg nonempty]

/-- The directory name of a path that ends in a name has the components before it. -/
theorem components_dirname (boundary : Boundary front) (isPart : IsPart name) :
    significant (components (dirname (front ++ name))) = significant (components front) ∧
      dirname (front ++ name) ≠ [] ∧
      (pathIsAbsolute (dirname (front ++ name)) ↔ pathIsAbsolute (front ++ name)) := by
  rcases boundary.cases with rfl | ⟨before, rfl⟩
  · have here : dirname ([] ++ name) = ascii "." := by
      rw [List.nil_append, dirname, lastSlash_of_absent isPart.noSlash]
    have relative : ¬ pathIsAbsolute ([] ++ name) := by
      intro absolute
      exact isPart.noSlash (List.mem_of_mem_head? absolute)
    rw [here, iff_false_right relative]
    exact ⟨by decide, by decide, by decide⟩
  · rw [List.append_assoc, List.singleton_append, dirname_append_slash isPart.noSlash,
      components_concat_slash]
    by_cases root : before = []
    · rw [if_pos root, root]
      exact ⟨by decide, by decide, by simp [pathIsAbsolute]⟩
    · rw [if_neg root]
      rcases List.exists_cons_of_ne_nil root with ⟨first, later, rfl⟩
      exact ⟨rfl, root, Iff.rfl⟩

theorem dropSlash_name (isPart : IsPart name) : dropSlash name = name := by
  rw [dropSlash, if_neg]
  rintro ⟨-, slash⟩
  exact isPart.noSlash (List.mem_of_getLast? slash)

theorem dropSlash_concat_slash (nonempty : name ≠ []) :
    dropSlash (name ++ ['/'.toUInt8]) = name := by
  have long := List.length_pos_of_ne_nil nonempty
  rw [dropSlash, if_pos ⟨by simpa using long, by simp⟩, List.dropLast_concat]

theorem basename_append {rest : Bytes} (boundary : Boundary front) (nonempty : rest ≠ [])
    (stays : ∀ position start, baseStart rest position start = start) :
    basename (front ++ rest) = dropSlash rest := by
  have start : baseStart (front ++ rest) 0 0 = front.length := by
    rcases boundary.cases with rfl | ⟨before, rfl⟩
    · exact stays 0 0
    · rw [List.append_assoc, List.singleton_append, baseStart_append nonempty, stays]
      simp
  rw [basename, start, List.drop_left]

theorem basename_append_name (boundary : Boundary front) (isPart : IsPart name) :
    basename (front ++ name) = name := by
  rw [basename_append boundary isPart.nonempty (baseStart_of_absent isPart.noSlash),
    dropSlash_name isPart]

theorem basename_append_name_slash (boundary : Boundary front) (isPart : IsPart name) :
    basename (front ++ (name ++ ['/'.toUInt8])) = name := by
  rw [basename_append boundary (by simp) (baseStart_concat_slash isPart.noSlash),
    dropSlash_concat_slash isPart.nonempty]

theorem basename_two_slashes (path : Bytes) :
    basename (path ++ ['/'.toUInt8] ++ ['/'.toUInt8]) = ['/'.toUInt8] := by
  apply basename_append
  · simp [Boundary]
  · simp
  · intro position start
    simp [baseStart]

theorem components_join (nonempty : dir ≠ []) (isPart : IsPart name) :
    components (join dir name) = components dir ++ [name] ∧
      (pathIsAbsolute (join dir name) ↔ pathIsAbsolute dir) := by
  have starts : name.head? ≠ some '/'.toUInt8 := by
    intro slash
    exact isPart.noSlash (List.mem_of_mem_head? slash)
  rcases List.exists_cons_of_ne_nil nonempty with ⟨first, later, shape⟩
  by_cases ends : dir.getLast? = some '/'.toUInt8
  · have here : join dir name = dir ++ name := by simp [join, ends, starts]
    have boundary : Boundary dir := by simp [Boundary, ends]
    rw [here, components_append_part boundary isPart]
    exact ⟨rfl, by simp [pathIsAbsolute, shape]⟩
  · have here : join dir name = (dir ++ ['/'.toUInt8]) ++ name := by
      simp [join, ends, starts, nonempty]
    have boundary : Boundary (dir ++ ['/'.toUInt8]) := by simp [Boundary]
    rw [here, components_append_part boundary isPart, components_concat_slash]
    exact ⟨rfl, by simp [pathIsAbsolute, shape]⟩

end Names

theorem exists_last_part {path : Bytes} (named : components path ≠ []) :
    ∃ front name count, path = front ++ name ++ List.replicate count '/'.toUInt8 ∧
      Boundary front ∧ IsPart name := by
  rcases exists_last_word named with
    ⟨front, name, slashes, rfl, nonempty, noSlash, behind, boundary⟩
  refine ⟨front, name, slashes.length, ?_, by simpa [Boundary] using boundary, nonempty, ?_⟩
  · rw [List.append_cancel_left_eq]
    apply List.eq_replicate_of_mem
    simpa using behind
  · intro slash
    simpa using noSlash _ slash

variable {vfs : State Callback}

theorem lossless_iff_parts {path : Bytes} :
    Lossless vfs path ↔
      (components path).getLast? = some (basename path) ∧
      significant (components (join (dirname path) (basename path))) =
        significant (components path) ∧
      (pathIsAbsolute (join (dirname path) (basename path)) ↔ pathIsAbsolute path) ∧
      significant (components (dirname path)) = significant (components path).dropLast := by
  constructor
  · rintro ⟨base, ⟨joined, joins, same, absolute⟩, lookedUp, looks, parent⟩
    cases joins
    cases looks
    exact ⟨base.symm, same, absolute, parent⟩
  · rintro ⟨base, same, absolute, parent⟩
    exact ⟨base.symm, ⟨_, rfl, same, absolute⟩, _, rfl, parent⟩

theorem significant_concat (names : List Bytes) (name : Bytes) :
    significant (names ++ [name]) = significant names ↔ name = ascii "." := by
  by_cases dot : name = ascii "."
  · simp [significant, dot]
  · simp [significant, dot]

theorem lossless_append_name {front name : Bytes} (boundary : Boundary front)
    (isPart : IsPart name) : Lossless vfs (front ++ name) := by
  rcases components_dirname boundary isPart with ⟨directory, nonempty, absolute⟩
  rcases components_join nonempty isPart with ⟨joined, joinedAbsolute⟩
  rw [lossless_iff_parts, basename_append_name boundary isPart, joined,
    components_append_part boundary isPart, joinedAbsolute]
  refine ⟨by simp, ?_, absolute, ?_⟩
  · rw [significant, List.filter_append, ← significant, directory]
    simp [significant]
  · rw [directory, List.dropLast_concat]

theorem lossless_append_slash_iff {front name : Bytes} (boundary : Boundary front)
    (isPart : IsPart name) :
    Lossless vfs (front ++ name ++ ['/'.toUInt8]) ↔ name = ascii "." := by
  have nonempty : front ++ name ≠ [] := List.append_ne_nil_of_right_ne_nil _ isPart.nonempty
  have base : basename (front ++ name ++ ['/'.toUInt8]) = name := by
    rw [List.append_assoc, basename_append_name_slash boundary isPart]
  rcases components_join nonempty isPart with ⟨joined, absolute⟩
  have sameStart : pathIsAbsolute (front ++ name ++ ['/'.toUInt8]) ↔
      pathIsAbsolute (front ++ name) := by
    rcases List.exists_cons_of_ne_nil nonempty with ⟨first, later, shape⟩
    simp [pathIsAbsolute, shape]
  rw [lossless_iff_parts, base, dirname_concat_slash nonempty, joined, components_concat_slash,
    components_append_part boundary isPart, absolute, sameStart, List.dropLast_concat,
    significant_concat, significant_concat]
  simp

theorem not_lossless_append_slashes {front name : Bytes} (boundary : Boundary front)
    (isPart : IsPart name) (count : ℕ) :
    ¬ Lossless vfs (front ++ name ++ List.replicate (count + 2) '/'.toUInt8) := by
  intro lossless
  have shape : front ++ name ++ List.replicate (count + 2) '/'.toUInt8 =
      front ++ name ++ List.replicate count '/'.toUInt8 ++ ['/'.toUInt8] ++ ['/'.toUInt8] := by
    rw [List.replicate_succ', List.replicate_succ']
    simp
  have last : components (front ++ name ++ List.replicate (count + 2) '/'.toUInt8) =
      components front ++ [name] := by
    rw [← components_append_part boundary isPart]
    apply words_append_breaks
    simp
  have base := (lossless_iff_parts.mp lossless).1
  rw [last, shape, basename_two_slashes, List.getLast?_concat, Option.some.injEq] at base
  exact isPart.noSlash (by simp [base])

/-- Splitting and joining a path with a component is lossless exactly when it does not end in a
slash, or ends in a single slash behind a `.`. -/
theorem lossless_iff {path : Bytes} (named : components path ≠ []) :
    Lossless vfs path ↔
      path.getLast? ≠ some '/'.toUInt8 ∨
        (components path).getLast? = some (ascii ".") ∧
          ∃ front, path = front ++ ['/'.toUInt8] ∧ front.getLast? ≠ some '/'.toUInt8 := by
  rcases exists_last_part named with ⟨front, name, count, rfl, boundary, isPart⟩
  have nameEnds : (front ++ name).getLast? ≠ some '/'.toUInt8 := by
    rw [List.getLast?_append_of_ne_nil _ isPart.nonempty]
    intro slash
    exact isPart.noSlash (List.mem_of_getLast? slash)
  match count with
  | 0 =>
    rw [List.replicate_zero, List.append_nil]
    exact iff_of_true (lossless_append_name boundary isPart) (Or.inl nameEnds)
  | 1 =>
    rw [List.replicate_one, lossless_append_slash_iff boundary isPart, components_concat_slash,
      components_append_part boundary isPart, List.getLast?_concat, List.getLast?_concat,
      Option.some.injEq]
    constructor
    · intro dot
      exact Or.inr ⟨dot, _, rfl, nameEnds⟩
    · rintro (ends | ⟨dot, -⟩)
      · exact absurd rfl ends
      · exact dot
  | count + 2 =>
    apply iff_of_false (not_lossless_append_slashes boundary isPart count)
    rw [List.replicate_succ', ← List.append_assoc, List.getLast?_concat]
    rintro (ends | ⟨-, before, same, ends⟩)
    · exact ends rfl
    · apply ends
      rw [List.append_cancel_right_eq] at same
      rw [← same, List.replicate_succ', ← List.append_assoc, List.getLast?_concat]

def emptyVfs : State Unit where
  nodes := fun _ =>
    { name := [], flags := 0, inode := 0, length := 0, impl := 0, finddir := none }
  invoke := fun _ _ _ => 0
  rootNode := 0
  mountList := []

theorem lossless_bin_ls :
    components (ascii "/bin/ls") ≠ [] ∧
      (Lossless emptyVfs (ascii "/bin/ls") ↔
        (ascii "/bin/ls").getLast? ≠ some '/'.toUInt8 ∨
          (components (ascii "/bin/ls")).getLast? = some (ascii ".") ∧
            ∃ front, ascii "/bin/ls" = front ++ ['/'.toUInt8] ∧
              front.getLast? ≠ some '/'.toUInt8) :=
  ⟨by decide, lossless_iff (by decide)⟩

/-- The directory name of `a/b/` is `a/b`, and the joined path is `a/b/b`. -/
theorem not_lossless_trailing_slash :
    components (ascii "a/b/") ≠ [] ∧
      pathDirname true (some (ascii "a/b/")) = some (ascii "a/b") ∧
      pathJoin true (pathDirname true (some (ascii "a/b/")))
        (pathBasename true (some (ascii "a/b/"))) = some (ascii "a/b/b") ∧
      ¬ Lossless emptyVfs (ascii "a/b/") := by
  refine ⟨by decide, by decide, by decide, ?_⟩
  intro lossless
  exact absurd (lossless_iff_parts.mp lossless).2.1 (by decide)

end RamOS.Vfs
