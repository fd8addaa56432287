import RamOS.Lib.Runs
import RamOS.Lib.Slice
import RamOS.Vfs.Isolation
import RamOS.Vfs.Mounting
import RamOS.Vfs.Mounts

/-!
# The lifetime of nodes

The nodes that are live at the start stay live, because only the root of a
mounted EXT4 file system is ever freed. Path resolution starts at a mount and
answers with a node that is live, so a descriptor can come to dangle in one way
only: its EXT4 file system is unmounted while it is open.
-/

namespace RamOS.Vfs

open CString

variable {Callback : Type} {callbacks : Interface (Tree Callback)}

def NullOr (valid : Finset ℕ) (node : ℕ) : Prop := node = 0 ∨ node ∈ valid

theorem walk_nullOr {vfs : State Callback} {valid : Finset ℕ}
    (answers : ∀ node ∈ valid, ∀ component, NullOr valid (findComponent vfs node component))
    (path component : Bytes) {current : ℕ} (start : NullOr valid current) :
    NullOr valid (walk vfs path component current) := by
  have looked (node : ℕ) (name : Bytes) (isValid : NullOr valid node) :
      NullOr valid (findComponent vfs node name) := by
    rcases isValid with null | inside
    · exact Or.inl (by rw [findComponent, if_pos (Or.inl null)])
    · exact answers node inside name
  fun_induction walk vfs path component current with
  | case1 => exact start
  | case2 component current => exact looked current component start
  | case3 _ _ _ _ ih | case6 _ _ _ _ _ _ ih | case7 _ _ _ _ _ _ ih => exact ih start
  | case4 => exact Or.inl rfl
  | case5 rest component current _ _ _ ih => exact ih (looked current component start)

theorem mem_of_findMountPoint {mounts : List MountPoint} {path : Bytes} {mount : MountPoint}
    (found : findMountPoint mounts path = some mount) : mount ∈ mounts := by
  rcases (foldl_betterMount path mounts (none, 0)).1 with none_ | ⟨other, listed, -, isOther⟩
  · rw [findMountPoint, none_] at found
    cases found
  · rw [findMountPoint, isOther] at found
    cases found
    exact listed

theorem vfsFinddir_nullOr {vfs : State Callback} {valid : Finset ℕ}
    (answers : ∀ node ∈ valid, ∀ component, NullOr valid (findComponent vfs node component))
    (root : NullOr valid vfs.rootNode) (mounted : ∀ mount ∈ vfs.mountList, mount.node ∈ valid)
    (path : Bytes) : NullOr valid (vfsFinddir vfs path) := by
  fun_cases vfsFinddir vfs path with
  | case1 => exact root
  | case2 => exact Or.inl rfl
  | case3 _ mount found => exact Or.inr (mounted mount (mem_of_findMountPoint found))
  | case4 _ mount found =>
    exact walk_nullOr answers _ [] (Or.inr (mounted mount (mem_of_findMountPoint found)))

/-- After `vfs_init` the root and what is mounted are live nodes of file systems that free none,
and the callbacks answer with live nodes. -/
structure Booted (tree : Tree Callback) : Prop where
  root : NullOr tree.live tree.rootNode
  mounted : ∀ mount ∈ tree.mounts,
    mount.node ∈ tree.live ∧ strcmp mount.fstype (ascii "ext4") ≠ 0
  answers : ∀ node ∈ tree.live, ∀ callback, (tree.nodes node).finddir = some callback →
    ∀ name, NullOr tree.live (tree.invoke callback node name)

/-- Since `start`, what was live is live and unchanged, every other live node is the root of one
mounted EXT4 file system and looks nothing up, and no descriptor dangles. -/
structure Tended (start : Tree Callback) (files : Files (Tree Callback)) : Prop where
  kept : start.live ⊆ files.env.live
  rootNode : files.env.rootNode = start.rootNode
  invoke : files.env.invoke = start.invoke
  nodes : ∀ node ∈ start.live, files.env.nodes node = start.nodes node
  leaves : ∀ node ∈ files.env.live, node ∉ start.live → (files.env.nodes node).finddir = none
  mounted : ∀ mount ∈ files.env.mounts, mount.node ∈ files.env.live
  owned : ∀ mount ∈ files.env.mounts,
    (strcmp mount.fstype (ascii "ext4") = 0 ↔ mount.node ∉ start.live)
  distinct : files.env.mounts.Pairwise fun first second =>
    first.node = second.node → first.node ∈ start.live
  descriptors : ∀ fd, (files.fdTable fd).node ≠ 0 → (files.fdTable fd).node ∈ files.env.live

section Steps

variable {start : Tree Callback} {files : Files (Tree Callback)}

theorem Booted.tended (booted : Booted start) : Tended start (clearedFiles start) where
  kept := Finset.Subset.refl _
  rootNode := rfl
  invoke := rfl
  nodes := fun _ _ => rfl
  leaves := fun _ inside outside => absurd inside outside
  mounted := fun mount listed => (booted.mounted mount listed).1
  owned := fun mount listed => iff_of_false (booted.mounted mount listed).2
    (not_not_intro (booted.mounted mount listed).1)
  distinct := List.pairwise_iff_forall_sublist.mpr fun sublist _ =>
    (booted.mounted _ (sublist.subset (by simp))).1
  descriptors := fun _ isOpen => absurd rfl isOpen

theorem Tended.vfsFinddir_live (tended : Tended start files) (booted : Booted start)
    (path : Bytes) : NullOr files.env.live (vfsFinddir files.env.vfs path) := by
  have wider {node : ℕ} (isValid : NullOr start.live node) : NullOr files.env.live node :=
    isValid.imp_right fun inside => tended.kept inside
  refine vfsFinddir_nullOr ?_ ?_ ?_ path
  · intro node inside component
    rw [findComponent]
    split
    · exact Or.inl rfl
    · cases lookup : (files.env.vfs.nodes node).finddir with
      | none => exact Or.inl rfl
      | some callback =>
        change (files.env.nodes node).finddir = some callback at lookup
        by_cases permanent : node ∈ start.live
        · rw [tended.nodes node permanent] at lookup
          have answered := booted.answers node permanent callback lookup component
          rw [← tended.invoke] at answered
          exact wider answered
        · rw [tended.leaves node inside permanent] at lookup
          cases lookup
  · change NullOr files.env.live files.env.rootNode
    rw [tended.rootNode]
    exact wider booted.root
  · intro mount listed
    rcases List.mem_map.mp listed with ⟨original, inside, rfl⟩
    exact tended.mounted original inside

theorem Tended.of_table {after : Files (Tree Callback)} (tended : Tended start files)
    (sameTree : after.env = files.env)
    (descriptors : ∀ fd, (after.fdTable fd).node ≠ 0 →
      (after.fdTable fd).node ∈ files.env.live) : Tended start after := by
  refine ⟨?_, ?_, ?_, ?_, ?_, ?_, ?_, ?_, ?_⟩
  all_goals rw [sameTree]
  · exact tended.kept
  · exact tended.rootNode
  · exact tended.invoke
  · exact tended.nodes
  · exact tended.leaves
  · exact tended.mounted
  · exact tended.owned
  · exact tended.distinct
  · exact descriptors

theorem Tended.of_update {after : Files (Tree Callback)} {slot : ℕ} {entry : FileDescriptor}
    (tended : Tended start files) (sameTree : after.env = files.env)
    (replaced : after.fdTable = Function.update files.fdTable slot entry)
    (valid : NullOr files.env.live entry.node) : Tended start after := by
  refine tended.of_table sameTree fun fd => ?_
  rw [replaced]
  by_cases same : fd = slot
  · rw [same, Function.update_self]
    exact fun isOpen => valid.resolve_left isOpen
  · rw [Function.update_of_ne same]
    exact tended.descriptors fd

theorem Tended.of_opens {after : Files (Tree Callback)} {result : ℤ} {node : ℕ}
    (tended : Tended start files) (sameTree : after.env = files.env)
    (opens : Opens files.fdTable after.fdTable result node)
    (valid : NullOr files.env.live node) : Tended start after := by
  cases opens with
  | failed _ unchanged =>
    refine tended.of_table sameTree fun fd => ?_
    rw [unchanged]
    exact tended.descriptors fd
  | opened fd entry _ _ _ _ ofNode _ replaced =>
    exact tended.of_update sameTree replaced (ofNode ▸ valid)

theorem passive_treeInterface : (treeInterface callbacks).Passive :=
  ⟨fun _ _ => rfl, fun _ _ => rfl, fun _ _ => rfl⟩

theorem vfsMount_cases {io : MountIo} {tree : Tree Callback}
    (source target fstype : Option Bytes) :
    (vfsMount io tree source target fstype).2 = tree ∨
      (∃ mount : Mount, mount.node = tree.rootNode ∧ mount.node ≠ 0 ∧
        strcmp mount.fstype (ascii "ext4") ≠ 0 ∧
        (vfsMount io tree source target fstype).2 = { tree with mounts := mount :: tree.mounts }) ∨
      ∃ mount : Mount, mount.node = io.rootBlock ∧ strcmp mount.fstype (ascii "ext4") = 0 ∧
        (vfsMount io tree source target fstype).2 = { tree with
          nodes := Function.update tree.nodes io.rootBlock (ext4Root io.fsBlock)
          live := insert io.rootBlock tree.live
          mounts := mount :: tree.mounts } := by
  match source, target, fstype with
  | none, _, _ => exact Or.inl rfl
  | some _, none, _ => exact Or.inl rfl
  | some _, some _, none => exact Or.inl rfl
  | some source, some target, some fstype =>
    simp only [vfsMount]
    split
    · exact Or.inl rfl
    split
    · exact Or.inl rfl
    split
    · exact Or.inl rfl
    by_cases isExt4 : strcmp fstype (ascii "ext4") = 0
    · simp only [loadFilesystem, if_pos isExt4, ext4Mount]
      split
      · exact Or.inl rfl
      split
      · exact Or.inl rfl
      split
      · exact Or.inl rfl
      · exact Or.inr (Or.inr ⟨_, rfl, isExt4, rfl⟩)
    · simp only [loadFilesystem, if_neg isExt4]
      split
      · split
        · exact Or.inl rfl
        next isRoot => exact Or.inr (Or.inl ⟨_, rfl, isRoot, isExt4, rfl⟩)
      · exact Or.inl rfl

theorem Tended.mount (tended : Tended start files) (booted : Booted start) {io : MountIo}
    (fresh : io.rootBlock ∉ files.env.live) (source target fstype : Option Bytes) :
    Tended start { files with env := (vfsMount io files.env source target fstype).2 } := by
  rcases @vfsMount_cases _ io files.env source target fstype with
    unchanged | ⟨mount, isRoot, nonzero, other, mounted⟩ | ⟨mount, isNew, isExt4, mounted⟩
  · rw [unchanged]
    exact tended
  · rw [mounted]
    have permanent : mount.node ∈ start.live := by
      rw [isRoot, tended.rootNode]
      exact booted.root.resolve_left (by rwa [← tended.rootNode, ← isRoot])
    exact
      { tended with
        mounted := List.forall_mem_cons.mpr ⟨tended.kept permanent, tended.mounted⟩
        owned := List.forall_mem_cons.mpr
          ⟨iff_of_false other (not_not_intro permanent), tended.owned⟩
        distinct := List.pairwise_cons.mpr ⟨fun _ _ _ => permanent, tended.distinct⟩ }
  · rw [mounted]
    have notPermanent : io.rootBlock ∉ start.live := fun inside => fresh (tended.kept inside)
    refine ⟨?_, tended.rootNode, tended.invoke, ?_, ?_, ?_, ?_, ?_, ?_⟩
    · exact tended.kept.trans (Finset.subset_insert ..)
    · intro node permanent
      have differs : node ≠ io.rootBlock := by
        rintro rfl
        exact notPermanent permanent
      dsimp only
      rw [Function.update_of_ne differs]
      exact tended.nodes node permanent
    · intro node inside outside
      dsimp only
      by_cases same : node = io.rootBlock
      · rw [same, Function.update_self]
        rfl
      · rw [Function.update_of_ne same]
        exact tended.leaves node (Finset.mem_of_mem_insert_of_ne inside same) outside
    · refine List.forall_mem_cons.mpr ⟨?_, fun other listed => ?_⟩
      · exact isNew ▸ Finset.mem_insert_self ..
      · exact Finset.mem_insert_of_mem (tended.mounted other listed)
    · exact List.forall_mem_cons.mpr ⟨iff_of_true isExt4 (isNew ▸ notPermanent), tended.owned⟩
    · refine List.pairwise_cons.mpr ⟨fun other listed same => ?_, tended.distinct⟩
      exact absurd (same ▸ tended.mounted other listed) (isNew ▸ fresh)
    · exact fun fd isOpen => Finset.mem_insert_of_mem (tended.descriptors fd isOpen)

theorem Tended.umount (tended : Tended start files) {target : Bytes} {mount : Mount}
    (found : removable files.env target = some mount)
    (unused : strcmp mount.fstype (ascii "ext4") = 0 →
      ∀ fd, (files.fdTable fd).node ≠ 0 → (files.fdTable fd).node ≠ mount.node) :
    Tended start { files with env := (vfsUmount files.env (some target)).2 } := by
  rcases Slice.exists_eraseP_eq (Option.filter_eq_some_iff.mp found).1 with
    ⟨front, back, split, erased⟩
  have shorter : (front ++ back).Sublist files.env.mounts := by
    rw [split]
    exact (List.Sublist.refl front).append (List.sublist_cons_self mount back)
  have isListed : mount ∈ files.env.mounts := by simp [split]
  have fewerMounts : Tended start
      { files with env := { files.env with mounts := front ++ back } } :=
    { tended with
      mounted := fun other listed => tended.mounted other (shorter.subset listed)
      owned := fun other listed => tended.owned other (shorter.subset listed)
      distinct := tended.distinct.sublist shorter }
  simp only [vfsUmount, found, erased]
  split
  next isExt4 =>
    have notPermanent : mount.node ∉ start.live := (tended.owned mount isListed).mp isExt4
    simp only [ext4Umount]
    split
    · exact fewerMounts
    · have differs : ∀ other ∈ front ++ back, other.node ≠ mount.node := by
        intro other listed same
        have pairs := tended.distinct
        rw [split, List.pairwise_append, List.pairwise_cons] at pairs
        rcases List.mem_append.mp listed with inFront | inBack
        · exact notPermanent (same ▸ pairs.2.2 other inFront mount (by simp) same)
        · exact notPermanent (pairs.2.1.1 other inBack same.symm)
      refine
        { fewerMounts with
          kept := ?_
          leaves := ?_
          mounted := ?_
          descriptors := ?_ }
      · intro node permanent
        refine Finset.mem_erase.mpr ⟨?_, tended.kept permanent⟩
        rintro rfl
        exact notPermanent permanent
      · intro node inside
        exact tended.leaves node (Finset.mem_of_mem_erase inside)
      · intro other listed
        exact Finset.mem_erase.mpr ⟨differs other listed, fewerMounts.mounted other listed⟩
      · intro fd isOpen
        exact Finset.mem_erase.mpr ⟨unused isExt4 fd isOpen, tended.descriptors fd isOpen⟩
  next => exact fewerMounts

/-- A call that frees no node in use keeps the tree tended. -/
theorem Tended.run (tended : Tended start files) (booted : Booted start) {call : TreeCall}
    (fresh : call.Fresh files) (keeps : call.KeepsNodes files) :
    Tended start (call.run callbacks files) := by
  have liveEntry {fd : ℤ} {entry : FileDescriptor} (found : files.openEntry fd = some entry) :
      NullOr files.env.live entry.node := by
    rcases openEntry_eq_some found with ⟨-, -, held, isOpen⟩
    subst held
    exact Or.inr (tended.descriptors fd.toNat isOpen)
  cases call with
  | mount io source target fstype => exact tended.mount booted fresh source target fstype
  | umount target =>
    cases target with
    | none => exact tended
    | some target =>
      cases found : removable files.env target with
      | none =>
        simp only [TreeCall.run, vfsUmount, found]
        exact tended
      | some mount => exact tended.umount found (keeps mount found)
  | openFile path flags =>
    cases path with
    | none => exact tended
    | some path =>
      exact tended.of_opens (passive_treeInterface.vfsOpen_env ..) (vfsOpen_opens path flags)
        (tended.vfsFinddir_live booted path)
  | dup oldfd =>
    cases found : files.openEntry oldfd with
    | none =>
      simp only [TreeCall.run, vfsDup, found]
      exact tended
    | some entry => exact tended.of_opens (vfsDup_env oldfd) (vfsDup_opens found) (liveEntry found)
  | dup2 oldfd newfd =>
    rcases @vfsDup2_cases _ (treeInterface callbacks) files oldfd newfd with
      unchanged | ⟨entry, found, -, replaced⟩
    · refine tended.of_table (passive_treeInterface.vfsDup2_env oldfd newfd) fun fd => ?_
      rw [TreeCall.run, unchanged]
      exact tended.descriptors fd
    · exact tended.of_update (passive_treeInterface.vfsDup2_env oldfd newfd) replaced
        (liveEntry found)
  | close fd =>
    cases found : files.openEntry fd with
    | none =>
      simp only [TreeCall.run, vfsClose, found]
      exact tended
    | some entry =>
      exact tended.of_update (passive_treeInterface.vfsClose_env fd) (vfsClose_table found)
        (Or.inl rfl)

theorem Tended.noDangling (tended : Tended start files) : NoDangling files :=
  ⟨tended.descriptors, tended.mounted⟩

theorem keepsNodes_of_noDangling {call : TreeCall}
    (safe : NoDangling (call.run callbacks files)) : call.KeepsNodes files := by
  cases call with
  | umount target =>
    cases target with
    | none => trivial
    | some target =>
      intro mount found isExt4 fd isOpen same
      have live := safe.1 fd isOpen
      have nonzero : mount.node ≠ 0 := same ▸ isOpen
      simp only [TreeCall.run, vfsUmount, found, if_pos isExt4, ext4Umount, if_neg nonzero,
        same] at live
      exact Finset.notMem_erase mount.node files.env.live live
  | _ => trivial

end Steps

/-- No state after `vfs_init` and calls with fresh allocations has a dangling descriptor or mount
exactly when no call unmounts an EXT4 file system whose root is open. -/
theorem noDangling_iff {start : Tree Callback} (booted : Booted start) {calls : List TreeCall}
    (fresh : ∀ k (listed : k < calls.length),
      calls[k].Fresh (treeAfter callbacks start (calls.take k))) :
    (∀ k, NoDangling (treeAfter callbacks start (calls.take k))) ↔
      ∀ k (listed : k < calls.length),
        calls[k].KeepsNodes (treeAfter callbacks start (calls.take k)) := by
  refine Runs.forall_take_iff ⟨booted.tended, booted.tended.noDangling⟩ ?_ ?_ fresh
  · exact fun files call tended isFresh keeps => tended.run booted isFresh keeps
  · intro files call tended _ isFresh
    exact ⟨keepsNodes_of_noDangling, fun keeps => (tended.run booted isFresh keeps).noDangling⟩

def emptyRoot : Tree Unit where
  nodes := fun _ =>
    { name := [], flags := vfsDirectory, inode := 0, length := 0, impl := 0, finddir := none }
  invoke := fun _ _ _ => 0
  rootNode := 10
  mounts := [{ path := ascii "/", node := 10, fstype := ascii "initrd" }]
  live := {10}

theorem emptyRoot_booted : Booted emptyRoot where
  root := Or.inr (by decide)
  mounted := by decide
  answers := fun _ _ _ _ _ => Or.inl rfl

def noCallbacks : Interface (Tree Unit) where
  finddir := fun tree _ => (0, tree)
  flags := fun _ _ => 0
  length := fun _ _ => 0
  setLength := fun tree _ _ => tree
  openNode := fun _ _ => none
  closeNode := fun _ _ => none
  read := fun _ _ => none
  write := fun _ _ => none
  readdir := fun _ _ => none
  fillDirent := fun tree _ _ => tree

/-- Mount an EXT4 file system at `/mnt` and open its root. -/
def mountAndOpen : List TreeCall :=
  [.mount { mountBlock := 30, fsBlock := 40, superblock := some ext4SuperMagic, rootBlock := 20 }
    (some (ascii "/dev/ata0")) (some (ascii "/mnt")) (some (ascii "ext4")),
    .openFile (some (ascii "/mnt")) 0]

theorem noDangling_iff_mnt :
    (∀ k, NoDangling (treeAfter noCallbacks emptyRoot (mountAndOpen.take k))) ↔
      ∀ k (listed : k < mountAndOpen.length),
        mountAndOpen[k].KeepsNodes (treeAfter noCallbacks emptyRoot (mountAndOpen.take k)) := by
  refine noDangling_iff emptyRoot_booted ?_
  intro k listed
  match k, listed with
  | 0, _ => exact (by decide : (20 : ℕ) ∉ emptyRoot.live)
  | 1, _ => trivial

/-- Unmounting `/mnt` then frees the node that descriptor 3 holds. -/
theorem umount_leaves_dangling_descriptor :
    ((treeAfter noCallbacks emptyRoot (mountAndOpen ++ [.umount (some (ascii "/mnt"))])).fdTable
        3).node = 20 ∧
      20 ∈ (treeAfter noCallbacks emptyRoot mountAndOpen).env.live ∧
      20 ∉ (treeAfter noCallbacks emptyRoot
        (mountAndOpen ++ [.umount (some (ascii "/mnt"))])).env.live := by
  decide

end RamOS.Vfs
