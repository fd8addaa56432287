import Mathlib.Data.List.Nodup
import RamOS.Vfs.Walk
import RamOS.Lib.Separated

/-!
# The mount table

The resolver compares a path with the mount points as strings. On canonical
paths the string comparison with its boundary test is the comparison of the
component lists, and a longer list has a longer string, so the search finds the
mount of most components. The rest of the path is then walked from its node.
-/

namespace RamOS.Vfs

open CString Separated

variable {Callback : Type}

structure IsName (name : Bytes) : Prop where
  nonempty : name ≠ []
  noZero : 0 ∉ name
  noSlash : '/'.toUInt8 ∉ name
  notDot : name ≠ ascii "."
  notDotDot : name ≠ ascii ".."

theorem IsComponent.isName {component : Bytes} (proper : IsComponent component) :
    IsName component :=
  ⟨proper.nonempty, proper.noZero, proper.noSlash, proper.notDot, proper.notDotDot⟩

def absolutePath (components : List Bytes) : Bytes :=
  '/'.toUInt8 :: joinPath components

structure MountedAt (mount : MountPoint) (components : List Bytes) : Prop where
  names : ∀ component ∈ components, IsName component
  path : mount.path = absolutePath components

theorem absolutePath_nil : absolutePath [] = ascii "/" := by decide

theorem root_ne_nil : ascii "/" ≠ [] := by decide

variable {components mounted : List Bytes} {mount : MountPoint}

theorem absolutePath_eq_marked (nonempty : components ≠ []) :
    absolutePath components = marked '/'.toUInt8 components := by
  rcases List.exists_cons_of_ne_nil nonempty with ⟨first, rest, rfl⟩
  exact (marked_eq_cons_intercalate first rest).symm

theorem zero_notMem_absolutePath (names : ∀ component ∈ components, IsName component) :
    0 ∉ absolutePath components := by
  by_cases root : components = []
  · rw [root]
    decide
  · rw [absolutePath_eq_marked root]
    exact notMem_marked (by decide) (fun component listed => (names component listed).noZero)

theorem absolutePath_eq_root_iff (names : ∀ component ∈ components, IsName component) :
    absolutePath components = ascii "/" ↔ components = [] := by
  refine ⟨fun isRoot => ?_, fun root => by rw [root, absolutePath_nil]⟩
  by_contra nonempty
  have long := @length_lt_length_marked _ '/'.toUInt8 _ nonempty
    (fun component listed => (names component listed).nonempty)
  rw [← absolutePath_eq_marked nonempty, isRoot] at long
  exact absurd long (by decide)

theorem atBoundary_iff {front rest : Bytes} (noZero : 0 ∉ front ++ rest) :
    (front ++ rest).getD front.length 0 = '/'.toUInt8 ∨ (front ++ rest).getD front.length 0 = 0 ↔
      AtBoundary '/'.toUInt8 rest := by
  have behind : (front ++ rest).getD front.length 0 = rest.headD 0 := by
    rw [List.getD_eq_getElem?_getD, List.getElem?_append_right le_rfl, Nat.sub_self]
    cases rest <;> rfl
  rw [behind]
  cases rest with
  | nil => simp [AtBoundary]
  | cons first rest =>
    have nonzero : first ≠ 0 := by
      rintro rfl
      exact noZero (by simp)
    simp [AtBoundary, nonzero]

def Covers (path : Bytes) (mount : MountPoint) : Prop :=
  strncmp path mount.path mount.path.length = 0 ∧
    (path.getD mount.path.length 0 = '/'.toUInt8 ∨ path.getD mount.path.length 0 = 0 ∨
      strcmp mount.path (ascii "/") = 0)

theorem covers_iff (names : ∀ component ∈ components, IsName component)
    (placed : MountedAt mount mounted) :
    Covers (absolutePath components) mount ↔ mounted <+: components := by
  have pathNoZero := zero_notMem_absolutePath names
  have mountNoZero := zero_notMem_absolutePath placed.names
  rw [Covers, placed.path, strncmp_length_eq_zero mountNoZero,
    strcmp_eq_zero mountNoZero (by decide), absolutePath_eq_root_iff placed.names, ← or_assoc]
  by_cases root : mounted = []
  · subst root
    have slash : absolutePath [] = ['/'.toUInt8] := by decide
    rw [slash]
    simp [absolutePath]
  · have isMarked := absolutePath_eq_marked root
    constructor
    · rintro ⟨⟨rest, split⟩, ends | isRoot⟩
      · rw [← split] at ends pathNoZero
        have nonempty : components ≠ [] := by
          rintro rfl
          have long := @length_lt_length_marked _ '/'.toUInt8 _ root
            (fun component listed => (placed.names component listed).nonempty)
          have sizes := congrArg List.length split
          rw [List.length_append, isMarked, absolutePath_nil] at sizes
          have one : (ascii "/").length = 1 := by decide
          omega
        refine prefix_of_marked (fun part listed => (placed.names part listed).noSlash)
          (fun part listed => (names part listed).noSlash) ((atBoundary_iff pathNoZero).mp ends) ?_
        rw [← isMarked, ← absolutePath_eq_marked nonempty, split]
      · exact absurd isRoot root
    · rintro ⟨rest, rfl⟩
      have whole : absolutePath (mounted ++ rest) =
          absolutePath mounted ++ marked '/'.toUInt8 rest := by
        rw [isMarked, absolutePath_eq_marked (by simp [root]), marked_append]
      rw [whole] at pathNoZero ⊢
      exact ⟨List.prefix_append ..,
        Or.inl ((atBoundary_iff pathNoZero).mpr (atBoundary_marked rest))⟩

theorem betterMount_eq (path : Bytes) (best : Option MountPoint × ℕ) (mount : MountPoint) :
    (Covers path mount ∧ best.2 ≤ mount.path.length ∧
        betterMount path best mount = (some mount, mount.path.length)) ∨
      ((Covers path mount → mount.path.length < best.2) ∧ betterMount path best mount = best) := by
  simp only [betterMount, Covers]
  split
  next candidate =>
    split
    next boundary => exact Or.inl ⟨⟨candidate.1, boundary⟩, candidate.2, rfl⟩
    next inside => exact Or.inr ⟨fun covers => absurd covers.2 inside, rfl⟩
  next other =>
    refine Or.inr ⟨fun covers => ?_, rfl⟩
    by_contra longer
    exact other ⟨covers.1, by omega⟩

/-- The search ends with its start value or with a longest covering mount. -/
theorem foldl_betterMount (path : Bytes) (mounts : List MountPoint)
    (best : Option MountPoint × ℕ) :
    (mounts.foldl (betterMount path) best = best ∨
      ∃ mount ∈ mounts, Covers path mount ∧
        mounts.foldl (betterMount path) best = (some mount, mount.path.length)) ∧
    best.2 ≤ (mounts.foldl (betterMount path) best).2 ∧
    ∀ mount ∈ mounts, Covers path mount →
      mount.path.length ≤ (mounts.foldl (betterMount path) best).2 := by
  induction mounts generalizing best with
  | nil => simp
  | cons mount mounts ih =>
    rw [List.foldl_cons]
    rcases ih (betterMount path best mount) with ⟨chosen, grown, longest⟩
    rcases betterMount_eq path best mount with ⟨covers, atLeast, replaced⟩ | ⟨shorter, kept⟩
    · rw [replaced] at chosen grown longest ⊢
      refine ⟨Or.inr ?_, by omega, ?_⟩
      · rcases chosen with same | ⟨other, listed, otherCovers, isOther⟩
        · exact ⟨mount, by simp, covers, same⟩
        · exact ⟨other, by simp [listed], otherCovers, isOther⟩
      · intro other listed otherCovers
        rcases List.mem_cons.mp listed with rfl | later
        · exact grown
        · exact longest other later otherCovers
    · rw [kept] at chosen grown longest ⊢
      refine ⟨?_, grown, ?_⟩
      · rcases chosen with same | ⟨other, listed, otherCovers, isOther⟩
        · exact Or.inl same
        · exact Or.inr ⟨other, by simp [listed], otherCovers, isOther⟩
      · intro other listed otherCovers
        rcases List.mem_cons.mp listed with rfl | later
        · exact (shorter otherCovers).le.trans grown
        · exact longest other later otherCovers

theorem findMountPoint_longest {mounts : List MountPoint} {path : Bytes}
    {covering : MountPoint} (listed : covering ∈ mounts) (covers : Covers path covering)
    (nonempty : covering.path ≠ []) :
    ∃ mount ∈ mounts, findMountPoint mounts path = some mount ∧ Covers path mount ∧
      ∀ other ∈ mounts, Covers path other → other.path.length ≤ mount.path.length := by
  rcases foldl_betterMount path mounts (none, 0) with ⟨chosen, -, longest⟩
  rcases chosen with empty | ⟨mount, inside, mountCovers, isMount⟩
  · have positive := List.length_pos_of_ne_nil nonempty
    have bounded := longest covering listed covers
    rw [empty] at bounded
    omega
  · rw [isMount] at longest
    exact ⟨mount, inside, by rw [findMountPoint, isMount], mountCovers, longest⟩

theorem length_absolutePath_lt {shorter longer : List Bytes}
    (names : ∀ component ∈ longer, IsName component) (isPrefix : shorter <+: longer)
    (fewer : shorter.length < longer.length) :
    (absolutePath shorter).length < (absolutePath longer).length := by
  have nonempty : longer ≠ [] := List.ne_nil_of_length_pos (by omega)
  rw [absolutePath_eq_marked nonempty]
  by_cases root : shorter = []
  · rw [root]
    exact length_lt_length_marked nonempty (fun part listed => (names part listed).nonempty)
  · rw [absolutePath_eq_marked root]
    exact length_marked_lt isPrefix fewer

theorem getRelativePath_eq {rest : List Bytes} (placed : MountedAt mount mounted)
    (proper : ∀ component ∈ rest, IsComponent component) :
    getRelativePath (absolutePath (mounted ++ rest)) mount =
      if rest = [] then ascii "." else joinPath rest := by
  have skipped : (joinPath rest).dropWhile (· = '/'.toUInt8) = joinPath rest := by
    cases rest with
    | nil => rfl
    | cons first rest =>
      rcases @exists_joinPath_eq_cons first rest (proper first (by simp)) with
        ⟨char, tail, shape, notSlash⟩
      simp [shape, notSlash]
  have behind : ((absolutePath (mounted ++ rest)).drop mount.path.length).dropWhile
      (· = '/'.toUInt8) = joinPath rest := by
    rw [placed.path]
    by_cases root : mounted = []
    · subst root
      exact skipped
    · rw [absolutePath_eq_marked root, absolutePath_eq_marked (by simp [root]), marked_append,
        List.drop_left]
      cases rest with
      | nil => rfl
      | cons first rest =>
        rw [marked_eq_cons_intercalate, List.dropWhile_cons_of_pos (by simp)]
        exact skipped
  simp only [getRelativePath, behind]
  cases rest with
  | nil => rfl
  | cons first rest =>
    rcases @exists_joinPath_eq_cons first rest (proper first (by simp)) with ⟨char, tail, shape, -⟩
    simp [shape]

theorem vfsFinddir_of_mount {vfs : State Callback} {rest : List Bytes}
    (placed : MountedAt mount mounted) (proper : ∀ component ∈ rest, IsComponent component)
    (notRoot : mounted ++ rest ≠ [])
    (found : findMountPoint vfs.mountList (absolutePath (mounted ++ rest)) = some mount) :
    vfsFinddir vfs (absolutePath (mounted ++ rest)) = follow vfs mount.node rest := by
  have names : ∀ component ∈ mounted ++ rest, IsName component := by
    intro component listed
    rcases List.mem_append.mp listed with inMount | inRest
    · exact placed.names component inMount
    · exact (proper component inRest).isName
  have otherPath : strcmp (absolutePath (mounted ++ rest)) (ascii "/") ≠ 0 := by
    rw [ne_eq, strcmp_eq_zero (zero_notMem_absolutePath names) (by decide),
      absolutePath_eq_root_iff names]
    exact notRoot
  rw [vfsFinddir, if_neg otherPath, found]
  dsimp only
  rw [getRelativePath_eq placed proper]
  by_cases ended : rest = []
  · subst ended
    rw [if_pos rfl, if_pos (Or.inl (by decide)), follow]
  · have nonempty : joinPath rest ≠ [] := by
      rcases List.exists_cons_of_ne_nil ended with ⟨first, others, rfl⟩
      rcases @exists_joinPath_eq_cons first others (proper first (by simp)) with
        ⟨char, tail, shape, -⟩
      simp [shape]
    have proceeds : ¬ (strcmp (joinPath rest) (ascii ".") = 0 ∨ joinPath rest = []) := by
      rw [strcmp_eq_zero (zero_notMem_joinPath proper) (by decide)]
      rintro (dot | empty)
      · exact joinPath_ne_dot proper dot
      · exact nonempty empty
    rw [if_neg ended, if_neg proceeds, walk_joinPath proper]

theorem vfsFinddir_joinPath {vfs : State Callback} {root : ℕ} {components : List Bytes}
    (onlyRoot : vfs.mountList = [{ path := ascii "/", node := root }]) (nonempty : components ≠ [])
    (proper : ∀ component ∈ components, IsComponent component) :
    vfsFinddir vfs ('/'.toUInt8 :: joinPath components) = follow vfs root components := by
  have placed : MountedAt { path := ascii "/", node := root } [] :=
    ⟨by simp, absolutePath_nil.symm⟩
  have covers : Covers (absolutePath components) { path := ascii "/", node := root } :=
    (covers_iff (fun component listed => (proper component listed).isName) placed).mpr
      List.nil_prefix
  rcases findMountPoint_longest (List.mem_singleton_self _) covers root_ne_nil with
    ⟨mount, listed, found, -, -⟩
  rw [List.mem_singleton.mp listed, ← onlyRoot] at found
  exact vfsFinddir_of_mount placed proper nonempty found

/-- With canonical and distinct mount points, the root's among them, a canonical path of
components that fit the buffer is resolved at the one mount whose components are its longest
prefix, and the rest is walked from its node. -/
theorem vfsFinddir_longestMount {vfs : State Callback} {components : List Bytes}
    (canonical : ∀ mount ∈ vfs.mountList, ∃ mounted, MountedAt mount mounted)
    (distinct : (vfs.mountList.map MountPoint.path).Nodup)
    (rootMounted : { path := ascii "/", node := vfs.rootNode } ∈ vfs.mountList)
    (proper : ∀ component ∈ components, IsComponent component) :
    ∃ mount ∈ vfs.mountList, ∃ mounted rest,
      MountedAt mount mounted ∧ components = mounted ++ rest ∧
      (∀ other ∈ vfs.mountList, ∀ otherMounted, MountedAt other otherMounted →
        otherMounted <+: components → other ≠ mount →
          otherMounted.length < mounted.length) ∧
      findMountPoint vfs.mountList (absolutePath components) = some mount ∧
      vfsFinddir vfs (absolutePath components) = follow vfs mount.node rest := by
  have names : ∀ component ∈ components, IsName component :=
    fun component listed => (proper component listed).isName
  have rootPlaced : MountedAt { path := ascii "/", node := vfs.rootNode } [] :=
    ⟨by simp, absolutePath_nil.symm⟩
  have samePath : ∀ mount ∈ vfs.mountList, ∀ other ∈ vfs.mountList, other.path = mount.path →
      other = mount := by
    intro mount listed other otherListed same
    exact List.inj_on_of_nodup_map distinct otherListed listed same
  rcases findMountPoint_longest rootMounted ((covers_iff names rootPlaced).mpr List.nil_prefix)
    root_ne_nil with ⟨mount, listed, found, covers, longest⟩
  rcases canonical mount listed with ⟨mounted, placed⟩
  rcases (covers_iff names placed).mp covers with ⟨rest, rfl⟩
  refine ⟨mount, listed, mounted, rest, placed, rfl, ?_, found, ?_⟩
  · intro other otherListed otherMounted otherPlaced isPrefix differs
    have bounded := longest other otherListed ((covers_iff names otherPlaced).mpr isPrefix)
    rw [otherPlaced.path, placed.path] at bounded
    rcases Nat.lt_trichotomy otherMounted.length mounted.length with shorter | same | longer
    · exact shorter
    · have equal := List.prefix_of_prefix_length_le isPrefix (List.prefix_append mounted rest)
        same.le |>.eq_of_length same
      exact absurd (samePath mount listed other otherListed
        (by rw [otherPlaced.path, placed.path, equal])) differs
    · have inside := List.prefix_of_prefix_length_le (List.prefix_append mounted rest) isPrefix
        longer.le
      have := length_absolutePath_lt otherPlaced.names inside longer
      omega
  · by_cases root : mounted ++ rest = []
    · rcases List.append_eq_nil_iff.mp root with ⟨rfl, rfl⟩
      have isRoot : mount = { path := ascii "/", node := vfs.rootNode } :=
        samePath _ rootMounted mount listed (by rw [placed.path, absolutePath_nil])
      rw [vfsFinddir, if_pos (by decide), isRoot, follow]
    · exact vfsFinddir_of_mount
        placed (fun component inRest => proper component (by simp [inRest])) root found

def twoMounts : State Unit where
  nodes := fun _ =>
    { name := [], flags := vfsDirectory, inode := 0, length := 0, impl := 0, finddir := some () }
  invoke := fun _ node _ => node + 1
  rootNode := 10
  mountList := [{ path := ascii "/mnt", node := 20 }, { path := ascii "/", node := 10 }]

theorem vfsFinddir_longestMount_mnt :
    ∃ mount ∈ twoMounts.mountList, ∃ mounted rest,
      MountedAt mount mounted ∧ [ascii "mnt", ascii "a"] = mounted ++ rest ∧
      (∀ other ∈ twoMounts.mountList, ∀ otherMounted, MountedAt other otherMounted →
        otherMounted <+: [ascii "mnt", ascii "a"] → other ≠ mount →
          otherMounted.length < mounted.length) ∧
      findMountPoint twoMounts.mountList (absolutePath [ascii "mnt", ascii "a"]) = some mount ∧
      vfsFinddir twoMounts (absolutePath [ascii "mnt", ascii "a"]) =
        follow twoMounts mount.node rest := by
  have mnt : IsComponent (ascii "mnt") :=
    ⟨by decide, by decide, by decide, by decide, by decide, by decide⟩
  have a : IsComponent (ascii "a") :=
    ⟨by decide, by decide, by decide, by decide, by decide, by decide⟩
  refine vfsFinddir_longestMount ?_ (by decide) (by simp [twoMounts]) ?_
  · simp only [twoMounts, List.forall_mem_cons, List.not_mem_nil, false_imp_iff, implies_true,
      and_true]
    exact ⟨⟨[ascii "mnt"], by simpa using mnt.isName, by decide⟩, ⟨[], by simp, by decide⟩⟩
  · simpa using ⟨mnt, a⟩

end RamOS.Vfs
