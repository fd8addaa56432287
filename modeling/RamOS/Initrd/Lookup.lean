import Mathlib.Data.Finset.Image
import Mathlib.Tactic.IntervalCases
import RamOS.Initrd.RoundTrip
import RamOS.Vfs.Lifetime

/-!
# Looking initrd files up through the VFS

The table of the initrd is flat: an entry's name is its whole path. The VFS
walks component by component, and the only directory it meets is the root, whose
callback compares a single component with whole names. A file at the top level
is found by both lookups, and a file below a directory only by `initrd_find`.
-/

namespace RamOS.Initrd

open ByteMemory CString

/-- `vfs_init` mounts the initrd's root if it exists and there is room at `rootMount`. -/
def vfsInit (initrd : State) (rootMount : ℕ) : Vfs.State Callback where
  nodes := initrd.nodes
  invoke := fun | .initrdFinddir, _, name => initrdFinddir initrd name
  rootNode := initrd.initrdRoot
  mountList :=
    if initrd.initrdRoot = 0 ∨ rootMount = 0 then []
    else [{ path := ascii "/", node := initrd.initrdRoot }]

variable {fuel count size : ℕ} {memory : Memory} {allocate : ℕ → ℕ} {state : State}

theorem initrdEntry_cases {finish data : ℕ} {outcome : Outcome}
    (ran : initrdEntry fuel memory allocate finish data state = some outcome) :
    outcome = .leave ∨ (∃ next, outcome = .continue next state) ∨
      ∃ next name size address, 0 ∉ name ∧
        outcome = .continue next (state.register allocate name size address) := by
  revert ran
  fun_cases initrdEntry fuel memory allocate finish data state with
  | case4 => exact fun ran => Or.inr (Or.inl ⟨_, (Option.some.inj ran).symm⟩)
  | case5 =>
    intro ran
    rcases Option.map_eq_some_iff.mp ran with ⟨length, counted, rfl⟩
    refine Or.inr (Or.inr ⟨_, _, _, _, ?_, rfl⟩)
    intro zero
    rcases mem_load.mp zero with ⟨offset, inside, isZero⟩
    refine load_noZero_of_strlen counted (mem_load.mpr ⟨offset, ?_, isZero⟩)
    split at inside
    all_goals omega
  | _ => exact fun ran => Or.inl (Option.some.inj ran).symm

theorem initrdLoop_invariant {P : State → Prop} {memory : Memory} {allocate : ℕ → ℕ}
    {finish fuel data : ℕ} {state loaded : State}
    (keeps : ∀ state name size address, P state → 0 ∉ name →
      P (state.register allocate name size address))
    (ran : initrdLoop memory allocate finish fuel data state = some loaded) (start : P state) :
    P loaded := by
  fun_induction initrdLoop memory allocate finish fuel data state with
  | case1 | case2 => cases ran
  | case3 | case5 => rwa [← Option.some.inj ran]
  | case4 fuel data state inside next changed entry ih =>
    rcases initrdEntry_cases entry with
      left | ⟨_, same⟩ | ⟨_, name, size, address, noZero, same⟩
    · cases left
    · cases same
      exact ih ran start
    · cases same
      exact ih ran (keeps state name size address start noZero)

structure FreshNode (allocate : ℕ → ℕ) (call : ℕ) : Prop where
  nonzero : allocate call ≠ 0
  apart : ∀ earlier < call, allocate earlier ≠ allocate call

theorem freshNode_of_injOn {call : ℕ} (allocated : ∀ call ≤ count, allocate call ≠ 0)
    (distinct : Set.InjOn allocate (Set.Iic count)) (atMost : call ≤ count) :
    FreshNode allocate call := by
  refine ⟨allocated call atMost, fun earlier before same => ?_⟩
  have equal := distinct (Set.mem_Iic.mpr (by omega)) (Set.mem_Iic.mpr atMost) same
  omega

theorem initrdInit_invariant {P : State → Prop} {addr : ℕ}
    {loaded : State}
    (keeps : ∀ reached name size address, FreshNode allocate reached.fileCount → P reached →
      0 ∉ name → P (reached.register allocate name size address))
    (start : P { state with fileCount := 0 })
    (ran : initrdInit fuel memory allocate addr size state = some (count, loaded))
    (allocated : ∀ call ≤ count, allocate call ≠ 0)
    (distinct : Set.InjOn allocate (Set.Iic count)) :
    ∃ table : State, table.fileCount = count ∧ table.createRoot allocate = loaded ∧ P table := by
  rcases Option.map_eq_some_iff.mp ran with ⟨table, looped, made⟩
  rw [Prod.mk.injEq] at made
  refine ⟨table, made.1, made.2, ?_⟩
  -- the count only grows, so the calls of the loop are among the first ones
  refine @initrdLoop_invariant (fun reached => reached.fileCount ≤ count → P reached)
    memory allocate _ fuel addr _ table ?_ looped (fun _ => start) made.1.le
  intro reached name size address reachedKeeps noZero atMost
  rw [State.register_fileCount] at atMost
  have fresh := freshNode_of_injOn allocated distinct (by omega : reached.fileCount ≤ count)
  exact keeps reached name size address fresh (reachedKeeps (by omega)) noZero

structure Registered (allocate : ℕ → ℕ) (state : State) : Prop where
  noZero : ∀ index < state.fileCount, 0 ∉ (state.files index).name
  vfsNode : ∀ index < state.fileCount, (state.files index).vfsNode = allocate index
  listed : ∀ index < state.fileCount, state.initrdNodes index = allocate index
  flags : ∀ index < state.fileCount, (state.nodes (allocate index)).flags = Vfs.vfsFile

theorem Registered.register {name : Bytes} {data : ℕ} (registered : Registered allocate state)
    (noZero : 0 ∉ name) (fresh : FreshNode allocate state.fileCount) :
    Registered allocate (state.register allocate name size data) := by
  have allocated := fresh.nonzero
  have old {index : ℕ} (inside : index < state.fileCount + 1) :
      index = state.fileCount ∨ index < state.fileCount := by omega
  refine ⟨?_, ?_, ?_, ?_⟩
  · intro index inside
    rcases old inside with rfl | earlier
    · rwa [State.register_files_same]
    · rw [State.register_files_of_ne (by omega)]
      exact registered.noZero index earlier
  · intro index inside
    rcases old inside with rfl | earlier
    · rw [State.register_files_same, if_neg allocated]
    · rw [State.register_files_of_ne (by omega)]
      exact registered.vfsNode index earlier
  · intro index inside
    rcases old inside with rfl | earlier
    · simp [State.register, allocated]
    · have other : index ≠ state.fileCount := by omega
      simp [State.register, allocated, other, registered.listed index earlier]
  · intro index inside
    rcases old inside with rfl | earlier
    · simp [State.register, allocated, fileNode]
    · simp [State.register, allocated, fresh.apart index earlier, registered.flags index earlier]

structure Loaded (allocate : ℕ → ℕ) (state : State) : Prop extends
    Registered allocate state where
  allocated : ∀ index ≤ state.fileCount, allocate index ≠ 0
  root : state.initrdRoot = allocate state.fileCount
  rootNode : state.nodes (allocate state.fileCount) = rootNode

theorem initrdInit_loaded {addr : ℕ} {loaded : State}
    (ran : initrdInit fuel memory allocate addr size state = some (count, loaded))
    (allocated : ∀ index ≤ count, allocate index ≠ 0)
    (distinct : Set.InjOn allocate (Set.Iic count)) :
    loaded.fileCount = count ∧ Loaded allocate loaded := by
  have empty : Registered allocate { state with fileCount := 0 } := by
    refine ⟨?_, ?_, ?_, ?_⟩
    all_goals exact fun index inside => absurd inside (Nat.not_lt_zero index)
  rcases initrdInit_invariant (fun _ _ _ _ fresh registered noZero =>
    registered.register noZero fresh) empty ran allocated distinct with
    ⟨table, rfl, rfl, registered⟩
  have root := freshNode_of_injOn allocated distinct le_rfl
  refine ⟨rfl, ⟨registered.noZero, registered.vfsNode, registered.listed, ?_⟩, allocated, rfl, ?_⟩
  · intro index inside
    have fileNode := registered.flags index inside
    simpa [State.createRoot, root.nonzero, root.apart index inside] using fileNode
  · simp [State.createRoot, root.nonzero]

theorem initrdFind_some {name : Bytes} {index : ℕ}
    (found : initrdFind state name = some index) :
    index < state.fileCount ∧ strcmp (state.files index).name name = 0 := by
  have matched := List.find?_some found
  exact ⟨List.mem_range.mp (List.mem_of_find?_eq_some found), by simpa using matched⟩

namespace Loaded

variable {allocate : ℕ → ℕ} {state : State} (loaded : Loaded allocate state)

include loaded

theorem initrdFind_eq {index : ℕ} (inside : index < state.fileCount)
    (unique : ∀ other < state.fileCount,
      (state.files other).name = (state.files index).name → other = index) :
    initrdFind state (state.files index).name = some index := by
  cases searched : initrdFind state (state.files index).name with
  | none =>
    have missed := List.find?_eq_none.mp searched index (List.mem_range.mpr inside)
    have noZero := loaded.noZero index inside
    simp [strcmp_eq_zero noZero noZero] at missed
  | some found =>
    rcases initrdFind_some searched with ⟨listed, same⟩
    rw [strcmp_eq_zero (loaded.noZero found listed) (loaded.noZero index inside)] at same
    rw [unique found listed same]

variable {rootMount : ℕ}

theorem mountList_eq (mounted : rootMount ≠ 0) :
    (vfsInit state rootMount).mountList =
      [{ path := ascii "/", node := allocate state.fileCount }] := by
  simp [vfsInit, loaded.root, loaded.allocated _ le_rfl, mounted]

theorem findComponent_root (rootMount : ℕ) (component : Bytes) :
    Vfs.findComponent (vfsInit state rootMount) (allocate state.fileCount) component =
      initrdFinddir state component := by
  have proceeds : ¬ (allocate state.fileCount = 0 ∨ Vfs.vfsDirectory &&& Vfs.vfsDirectory = 0) := by
    simp [loaded.allocated, Vfs.vfsDirectory]
  have callback : (Initrd.rootNode).finddir = some .initrdFinddir := rfl
  have flags : (Initrd.rootNode).flags = Vfs.vfsDirectory := rfl
  simp only [Vfs.findComponent, vfsInit, loaded.rootNode, callback, flags, if_neg proceeds]

theorem findComponent_file (rootMount : ℕ) (component : Bytes)
    {index : ℕ} (inside : index < state.fileCount) :
    Vfs.findComponent (vfsInit state rootMount) (allocate index) component = 0 := by
  have notDirectory : Vfs.vfsFile &&& Vfs.vfsDirectory = 0 := by decide
  simp only [Vfs.findComponent, vfsInit, loaded.flags index inside, notDirectory, or_true, if_true]

theorem initrdFinddir_cases (name : Bytes) :
    initrdFinddir state name = 0 ∨
      ∃ index < state.fileCount, initrdFinddir state name = allocate index := by
  cases searched : initrdFind state name with
  | none => exact Or.inl (by simp [initrdFinddir, searched])
  | some found =>
    have listed := (initrdFind_some searched).1
    exact Or.inr ⟨found, listed, by simp [initrdFinddir, searched, loaded.listed found listed]⟩

theorem vfsFinddir_topLevel (mounted : rootMount ≠ 0)
    {component : Bytes} (proper : Vfs.IsComponent component) :
    Vfs.vfsFinddir (vfsInit state rootMount) ('/'.toUInt8 :: component) =
      initrdFinddir state component := by
  have followed := @Vfs.vfsFinddir_joinPath _ _ _ [component] (loaded.mountList_eq mounted)
    (by simp) (by simpa using proper)
  rw [Vfs.joinPath_singleton] at followed
  simp only [followed, Vfs.follow, loaded.findComponent_root]
  split
  next null => rw [null]
  next => rfl

/-- A path of several components reaches nothing: the root has no directories. -/
theorem vfsFinddir_nested (mounted : rootMount ≠ 0)
    {components : List Bytes} (nested : 2 ≤ components.length)
    (proper : ∀ component ∈ components, Vfs.IsComponent component) :
    Vfs.vfsFinddir (vfsInit state rootMount) ('/'.toUInt8 :: Vfs.joinPath components) = 0 := by
  match components, nested with
  | first :: second :: rest, _ =>
    rw [Vfs.vfsFinddir_joinPath (loaded.mountList_eq mounted) (by simp) proper, Vfs.follow,
      loaded.findComponent_root]
    rcases loaded.initrdFinddir_cases first with null | ⟨index, listed, reached⟩
    · simp [null]
    · simp [reached, Vfs.follow, loaded.findComponent_file rootMount second listed]

end Loaded

def bootTree (initrd : State) (allocate : ℕ → ℕ) (rootMount : ℕ) : Vfs.Tree Callback where
  nodes := initrd.nodes
  invoke := (vfsInit initrd rootMount).invoke
  rootNode := initrd.initrdRoot
  mounts := (vfsInit initrd rootMount).mountList.map fun point =>
    { toMountPoint := point, fstype := ascii "initrd" }
  live := (Finset.range (initrd.fileCount + 1)).image allocate

theorem bootTree_vfs (initrd : State) (allocate : ℕ → ℕ) (rootMount : ℕ) :
    (bootTree initrd allocate rootMount).vfs = vfsInit initrd rootMount := by
  have sameMounts : (bootTree initrd allocate rootMount).mounts.map Vfs.Mount.toMountPoint =
      (vfsInit initrd rootMount).mountList := by
    rw [bootTree, List.map_map]
    exact List.map_id _
  rw [Vfs.Tree.vfs, sameMounts]
  rfl

theorem Loaded.booted (loaded : Loaded allocate state) (rootMount : ℕ) :
    Vfs.Booted (bootTree state allocate rootMount) := by
  have isLive {index : ℕ} (inside : index ≤ state.fileCount) :
      allocate index ∈ (bootTree state allocate rootMount).live :=
    Finset.mem_image_of_mem allocate (Finset.mem_range.mpr (by omega))
  have rootLive : state.initrdRoot ∈ (bootTree state allocate rootMount).live :=
    loaded.root ▸ isLive le_rfl
  refine ⟨Or.inr rootLive, ?_, ?_⟩
  · intro mount listed
    rcases List.mem_map.mp listed with ⟨point, isPoint, rfl⟩
    simp only [vfsInit] at isPoint
    split at isPoint
    · cases isPoint
    · rw [List.mem_singleton.mp isPoint]
      exact ⟨rootLive, show strcmp (ascii "initrd") (ascii "ext4") ≠ 0 by decide⟩
  · intro node _ callback _ name
    cases callback with
    | initrdFinddir =>
      rcases loaded.initrdFinddir_cases name with null | ⟨index, inside, answered⟩
      · exact Or.inl null
      · refine Or.inr ?_
        change initrdFinddir state name ∈ _
        rw [answered]
        exact isLive inside.le

/-- A name of proper components separated by single slashes. -/
def IsPathName (name : Bytes) : Prop :=
  ∃ components, components ≠ [] ∧ (∀ component ∈ components, Vfs.IsComponent component) ∧
    name = Vfs.joinPath components

/-- The VFS finds a file of unique name under the root exactly when its name has no directory
part. -/
theorem vfsFinddir_initrdFind_iff {fuel addr size count rootMount index : ℕ} {memory : Memory}
    {allocate : ℕ → ℕ} {before loaded : State}
    (ran : initrdInit fuel memory allocate addr size before = some (count, loaded))
    (allocated : ∀ call ≤ count, allocate call ≠ 0)
    (distinct : Set.InjOn allocate (Set.Iic count)) (mounted : rootMount ≠ 0)
    (inside : index < count)
    (unique : ∀ other < count,
      (loaded.files other).name = (loaded.files index).name → other = index)
    (isPath : IsPathName (loaded.files index).name) :
    (∃ found, initrdFind loaded (loaded.files index).name = some found ∧
      Vfs.vfsFinddir (vfsInit loaded rootMount) ('/'.toUInt8 :: (loaded.files index).name) =
        (loaded.files found).vfsNode) ↔
      '/'.toUInt8 ∉ (loaded.files index).name := by
  rcases initrdInit_loaded ran allocated distinct with ⟨rfl, isLoaded⟩
  have isFound := isLoaded.initrdFind_eq inside unique
  have finddir : initrdFinddir loaded (loaded.files index).name = allocate index := by
    simp [initrdFinddir, isFound, isLoaded.listed index inside]
  rcases isPath with ⟨components, nonempty, proper, named⟩
  rw [isFound]
  simp only [Option.some.injEq, exists_eq_left', isLoaded.vfsNode index inside]
  rw [named, Vfs.slash_mem_joinPath proper]
  constructor
  · intro reached nested
    rw [isLoaded.vfsFinddir_nested mounted nested proper] at reached
    exact allocated index inside.le reached.symm
  · intro flat
    match components, nonempty, flat with
    | [component], _, _ =>
      rw [Vfs.joinPath_singleton] at named ⊢
      rw [isLoaded.vfsFinddir_topLevel mounted (proper component (by simp)), ← named, finddir]
    | _ :: _ :: _, _, flat => simp at flat

def sampleNodes (call : ℕ) : ℕ := 0x200000 + 200 * call

theorem sampleNodes_ne_zero (call : ℕ) : sampleNodes call ≠ 0 := by
  simp [sampleNodes]

theorem sampleNodes_injective : Function.Injective sampleNodes := by
  intro left right same
  simp only [sampleNodes] at same
  omega

theorem sampleArchive_loaded :
    ∃ loaded,
      initrdInit 300 (place 0x800000 sampleArchive) sampleNodes 0x800000 sampleArchive.length
        State.initial = some (2, loaded) ∧
      (loaded.files 0).name = ascii "motd" ∧ (loaded.files 1).name = ascii "etc/hosts" := by
  have fits : 0x800000 + sampleArchive.length < 2 ^ 32 := by
    rw [length_sampleArchive]
    omega
  rcases initrdInit_valid sampleArchive_isArchive (by decide) sampleFiles_valid fits
    (load_place_all _ _) with ⟨loaded, runs, -, described⟩
  exact ⟨loaded, runs 300 (by decide), (described 0 (by decide)).name,
    (described 1 (by decide)).name⟩

theorem isComponent_motd : Vfs.IsComponent (ascii "motd") :=
  ⟨by decide, by decide, by decide, by decide, by decide, by decide⟩

theorem vfsFinddir_initrdFind_iff_motd :
    ∃ loaded,
      initrdInit 300 (place 0x800000 sampleArchive) sampleNodes 0x800000 sampleArchive.length
        State.initial = some (2, loaded) ∧
      ((∃ found, initrdFind loaded (loaded.files 0).name = some found ∧
        Vfs.vfsFinddir (vfsInit loaded 0x300000) ('/'.toUInt8 :: (loaded.files 0).name) =
          (loaded.files found).vfsNode) ↔
        '/'.toUInt8 ∉ (loaded.files 0).name) := by
  rcases sampleArchive_loaded with ⟨loaded, ran, first, second⟩
  refine ⟨loaded, ran, vfsFinddir_initrdFind_iff ran (fun call _ => sampleNodes_ne_zero call)
    sampleNodes_injective.injOn (by decide) (by decide) ?_ ?_⟩
  · intro other listed same
    interval_cases other
    · rfl
    · rw [first, second] at same
      exact absurd same (by decide)
  · rw [first]
    exact ⟨[ascii "motd"], by simp, by simpa using isComponent_motd, by simp⟩

/-- A file of unique name below a directory that `initrd_find` returns and the VFS does not. -/
theorem vfsFinddir_misses_nested_file :
    ∃ loaded,
      initrdInit 300 (place 0x800000 sampleArchive) sampleNodes 0x800000 sampleArchive.length
        State.initial = some (2, loaded) ∧
      IsPathName (loaded.files 1).name ∧ (loaded.files 0).name ≠ (loaded.files 1).name ∧
      initrdFind loaded (loaded.files 1).name = some 1 ∧
      Vfs.vfsFinddir (vfsInit loaded 0x300000) ('/'.toUInt8 :: (loaded.files 1).name) ≠
        (loaded.files 1).vfsNode := by
  rcases sampleArchive_loaded with ⟨loaded, ran, first, second⟩
  rcases initrdInit_loaded ran (fun call _ => sampleNodes_ne_zero call)
    sampleNodes_injective.injOn with ⟨count, isLoaded⟩
  have inside : 1 < loaded.fileCount := by omega
  have distinct : (loaded.files 0).name ≠ (loaded.files 1).name := by
    rw [first, second]
    decide
  have proper : ∀ component ∈ [ascii "etc", ascii "hosts"], Vfs.IsComponent component := by
    intro component listed
    rw [List.mem_cons, List.mem_singleton] at listed
    rcases listed with rfl | rfl
    · exact ⟨by decide, by decide, by decide, by decide, by decide, by decide⟩
    · exact ⟨by decide, by decide, by decide, by decide, by decide, by decide⟩
  have named : (loaded.files 1).name = Vfs.joinPath [ascii "etc", ascii "hosts"] := by
    rw [second]
    decide
  refine ⟨loaded, ran, ⟨_, by simp, proper, named⟩, distinct, ?_, ?_⟩
  · refine isLoaded.initrdFind_eq inside ?_
    intro other listed same
    rw [count] at listed
    interval_cases other
    · exact absurd same distinct
    · rfl
  · rw [named, isLoaded.vfsFinddir_nested (by decide) (by decide) proper,
      isLoaded.vfsNode 1 inside]
    exact Ne.symm (sampleNodes_ne_zero 1)

end RamOS.Initrd
