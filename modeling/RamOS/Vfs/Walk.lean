import RamOS.Vfs.Model

/-!
# The component walk

Path resolution cuts a path into components with a byte buffer. On a path that
is a join of proper components, the loop with its buffer is the walk that looks
one component up after the other and stops at the null pointer.
-/

namespace RamOS.Vfs

open CString

variable {Callback : Type}

structure IsComponent (component : Bytes) : Prop where
  nonempty : component ≠ []
  short : component.length ≤ 127
  noZero : 0 ∉ component
  noSlash : '/'.toUInt8 ∉ component
  notDot : component ≠ ascii "."
  notDotDot : component ≠ ascii ".."

def joinPath (components : List Bytes) : Bytes :=
  List.intercalate ['/'.toUInt8] components

def follow (vfs : State Callback) : ℕ → List Bytes → ℕ
  | current, [] => current
  | current, component :: rest =>
    let next := findComponent vfs current component
    if next = 0 then 0 else follow vfs next rest

@[simp]
theorem joinPath_singleton (component : Bytes) : joinPath [component] = component := by
  simp [joinPath]

theorem joinPath_cons_cons (first second : Bytes) (rest : List Bytes) :
    joinPath (first :: second :: rest) = first ++ '/'.toUInt8 :: joinPath (second :: rest) := by
  simp [joinPath, List.intercalate_cons_cons]

theorem slash_mem_joinPath {components : List Bytes}
    (proper : ∀ component ∈ components, IsComponent component) :
    '/'.toUInt8 ∈ joinPath components ↔ 2 ≤ components.length := by
  match components, proper with
  | [], _ => simp [joinPath]
  | [component], proper => simp [(proper component (by simp)).noSlash]
  | first :: second :: rest, _ => simp [joinPath_cons_cons]

theorem IsComponent.not_staysPut {component : Bytes} (proper : IsComponent component) :
    ¬ (component = [] ∨ StaysPut component) := by
  rintro (empty | dot | dotDot)
  · exact proper.nonempty empty
  · exact proper.notDot ((strcmp_eq_zero proper.noZero (by decide)).mp dot)
  · exact proper.notDotDot ((strcmp_eq_zero proper.noZero (by decide)).mp dotDot)

theorem walk_append {vfs : State Callback} {component rest buffer : Bytes} {current : ℕ}
    (noSlash : '/'.toUInt8 ∉ component) (short : buffer.length + component.length ≤ 127) :
    walk vfs (component ++ rest) buffer current = walk vfs rest (buffer ++ component) current := by
  induction component generalizing buffer with
  | nil => simp
  | cons char component ih =>
    simp only [List.mem_cons, not_or] at noSlash
    rw [List.length_cons] at short
    rw [List.cons_append, walk, if_neg (Ne.symm noSlash.1), if_pos (by omega),
      ih noSlash.2 (by rw [List.length_append, List.length_singleton]; omega),
      List.append_assoc, List.singleton_append]

theorem walk_joinPath {vfs : State Callback} {components : List Bytes} {current : ℕ}
    (proper : ∀ component ∈ components, IsComponent component) :
    walk vfs (joinPath components) [] current = follow vfs current components := by
  match components with
  | [] => simp [joinPath, walk, follow]
  | [component] =>
    have isProper := proper component (by simp)
    have taken := @walk_append _ vfs component [] [] current isProper.noSlash
      (by simpa using isProper.short)
    rw [List.append_nil, List.nil_append] at taken
    rw [joinPath_singleton, taken, walk, if_neg isProper.not_staysPut]
    simp only [follow]
    split
    next null => rw [null]
    next => rfl
  | first :: second :: rest =>
    have isProper := proper first (by simp)
    have ih := fun next => @walk_joinPath vfs (second :: rest) next
      (fun component listed => proper component (by simp [listed]))
    rw [joinPath_cons_cons, walk_append isProper.noSlash (by simpa using isProper.short),
      List.nil_append, walk, if_pos rfl, if_neg isProper.not_staysPut]
    dsimp only
    rw [ih]
    rfl

theorem zero_notMem_joinPath {components : List Bytes}
    (proper : ∀ component ∈ components, IsComponent component) : 0 ∉ joinPath components := by
  match components with
  | [] => simp [joinPath]
  | [component] => simpa using (proper component (by simp)).noZero
  | first :: second :: rest =>
    have ih := @zero_notMem_joinPath (second :: rest)
      (fun component listed => proper component (by simp [listed]))
    rw [joinPath_cons_cons, List.mem_append, List.mem_cons, not_or, not_or]
    exact ⟨(proper first (by simp)).noZero, by decide, ih⟩

theorem joinPath_eq_append (first : Bytes) (rest : List Bytes) :
    ∃ tail, joinPath (first :: rest) = first ++ tail := by
  cases rest with
  | nil => exact ⟨[], by simp⟩
  | cons second rest => exact ⟨_, joinPath_cons_cons first second rest⟩

theorem exists_joinPath_eq_cons {first : Bytes} {rest : List Bytes}
    (proper : IsComponent first) :
    ∃ char tail, joinPath (first :: rest) = char :: tail ∧ char ≠ '/'.toUInt8 := by
  rcases joinPath_eq_append first rest with ⟨tail, shape⟩
  rcases List.exists_cons_of_ne_nil proper.nonempty with ⟨char, chars, rfl⟩
  refine ⟨char, chars ++ tail, shape, ?_⟩
  rintro rfl
  exact proper.noSlash (by simp)

theorem joinPath_ne_dot {components : List Bytes}
    (proper : ∀ component ∈ components, IsComponent component) :
    joinPath components ≠ ascii "." := by
  match components with
  | [] => simp [joinPath, ascii]
  | [component] => simpa using (proper component (by simp)).notDot
  | first :: second :: rest =>
    intro dot
    have slash : '/'.toUInt8 ∈ joinPath (first :: second :: rest) :=
      (slash_mem_joinPath proper).mpr (by simp)
    rw [dot] at slash
    exact absurd slash (by decide)

end RamOS.Vfs
