import RamOS.Vfs.Mounting
import RamOS.Vfs.MountTable

/-!
# The mount list and the tree of file systems

The tree of file systems keeps its mounts in a list, without the bytes of their records and
without their sources. A mount list in memory represents such a list. A call on the bytes
returns what the call on the tree returns and keeps them related, as long as both get the same
answers from path resolution, the allocator and the EXT4 driver.
-/

namespace RamOS.Vfs.MountTable

open ByteMemory CString

variable {Callback : Type}

def Entry.mount (entry : Entry) : Mount where
  path := entry.path
  node := entry.node
  fstype := entry.fstype

/-- The list in memory has the mounts of the tree. -/
structure Represents (kernel : MountState) (tree : Tree Callback) : Prop where
  mounts : ∃ entries, Holds kernel entries ∧ (entries.map Entry.path).Nodup ∧
    tree.mounts = entries.map Entry.mount
  rootNode : kernel.rootNode = tree.rootNode

/-- A mount gets the same answers from outside in memory and in the tree. -/
structure MountIo.Agrees (io : MountIo) (answers : Vfs.MountIo) (kernel : MountState)
    (tree : Tree Callback) (target : Bytes) : Prop where
  finddir : (io.finddir kernel.memory).1 =
    if vfsFinddir tree.vfs target = 0 then none
    else some (tree.nodes (vfsFinddir tree.vfs target)).flags
  block : io.block kernel = answers.mountBlock
  ext4Mount : ∀ memory, (io.ext4Mount memory).1 = (Vfs.ext4Mount answers tree).1

/-- The reasons for which a mount into the tree fails. -/
def TreeRefuses (answers : Vfs.MountIo) (tree : Tree Callback) (target fstype : Bytes) :
    Prop :=
  (vfsFinddir tree.vfs target ≠ 0 ∧
      (tree.nodes (vfsFinddir tree.vfs target)).flags &&& vfsDirectory = 0) ∨
    (∃ mount ∈ tree.mounts, strcmp mount.path target = 0) ∨ answers.mountBlock = 0 ∨
    (Vfs.loadFilesystem answers tree fstype).1 = 0

section Tree

variable {answers : Vfs.MountIo} {tree : Tree Callback} {source target fstype : Bytes}

theorem loadFilesystem_mounts :
    (Vfs.loadFilesystem answers tree fstype).2.mounts = tree.mounts ∧
      (Vfs.loadFilesystem answers tree fstype).2.rootNode = tree.rootNode := by
  rw [Vfs.loadFilesystem]
  split
  next =>
    rw [Vfs.ext4Mount]
    split_ifs
    all_goals exact ⟨rfl, rfl⟩
  next =>
    split
    next => exact ⟨rfl, rfl⟩
    next => exact ⟨rfl, rfl⟩

theorem treeMount_of_refuses (refuses : TreeRefuses answers tree target fstype) :
    let result := Vfs.vfsMount answers tree (some source) (some target) (some fstype)
    result.1 = -1 ∧ result.2.mounts = tree.mounts ∧ result.2.rootNode = tree.rootNode := by
  have same := @loadFilesystem_mounts _ answers tree fstype
  rw [Vfs.vfsMount]
  dsimp only
  split_ifs with notDirectory listed isNull noNode
  · exact ⟨rfl, rfl, rfl⟩
  · exact ⟨rfl, rfl, rfl⟩
  · exact ⟨rfl, rfl, rfl⟩
  · exact ⟨rfl, same⟩
  · rcases refuses with refused | refused | refused | refused
    · exact absurd refused notDirectory
    · exact absurd refused listed
    · exact absurd refused isNull
    · exact absurd refused noNode

theorem treeMount_of_accepts (accepts : ¬TreeRefuses answers tree target fstype)
    (short : target.length < 256) :
    let result := Vfs.vfsMount answers tree (some source) (some target) (some fstype)
    let node := (Vfs.loadFilesystem answers tree fstype).1
    result.1 = 0 ∧
      result.2.mounts = { path := target, node := node, fstype := fstype } :: tree.mounts ∧
      result.2.rootNode = tree.rootNode := by
  have same := @loadFilesystem_mounts _ answers tree fstype
  simp only [TreeRefuses, not_or] at accepts
  rcases accepts with ⟨isDirectory, notListed, nonnull, hasNode⟩
  rw [Vfs.vfsMount]
  dsimp only
  rw [if_neg isDirectory, if_neg notListed, if_neg nonnull, if_neg hasNode, same.1, storedPath,
    if_pos short]
  exact ⟨rfl, rfl, same.2⟩

end Tree

section Comparison

variable {kernel : MountState} {entries : List Entry} {target : Bytes}

theorem Holds.strcmp_path (holds : Holds kernel entries) (noZero : 0 ∉ target) {entry : Entry}
    (listed : entry ∈ entries) : strcmp entry.mount.path target = 0 ↔ entry.path = target := by
  rcases holds with ⟨blocks, _, rfl⟩
  rcases List.mem_map.mp listed with ⟨block, _, rfl⟩
  exact strcmp_eq_zero (zero_notMem_stringIn _ _ _) noZero

theorem Holds.exists_mount_iff (holds : Holds kernel entries) (noZero : 0 ∉ target) :
    (∃ mount ∈ entries.map Entry.mount, strcmp mount.path target = 0) ↔
      target ∈ entries.map Entry.path := by
  constructor
  · rintro ⟨mount, listed, same⟩
    rcases List.mem_map.mp listed with ⟨entry, inside, rfl⟩
    exact List.mem_map.mpr ⟨entry, inside, (holds.strcmp_path noZero inside).mp same⟩
  · intro listed
    rcases List.mem_map.mp listed with ⟨entry, inside, same⟩
    exact ⟨entry.mount, List.mem_map_of_mem inside, (holds.strcmp_path noZero inside).mpr same⟩

end Comparison

section Mount

variable {io : MountIo} {answers : Vfs.MountIo} {kernel : MountState} {tree : Tree Callback}
  {entries : List Entry} {source target fstype : Bytes}

theorem MountIo.Agrees.node (agrees : io.Agrees answers kernel tree target)
    (sameRoot : kernel.rootNode = tree.rootNode) :
    io.node kernel source target fstype = (Vfs.loadFilesystem answers tree fstype).1 := by
  rw [MountIo.node, loadedNode, Vfs.loadFilesystem, agrees.ext4Mount]
  split
  next => rfl
  next =>
    split
    next => exact sameRoot
    next => rfl

theorem MountIo.Agrees.refuses_iff (agrees : io.Agrees answers kernel tree target)
    (sameRoot : kernel.rootNode = tree.rootNode) (holds : Holds kernel entries)
    (sameMounts : tree.mounts = entries.map Entry.mount) (noZero : 0 ∉ target) :
    io.Refuses kernel entries source target fstype ↔ TreeRefuses answers tree target fstype := by
  have notDirectory : (io.finddir kernel.memory).1.any (· &&& vfsDirectory = 0) = true ↔
      vfsFinddir tree.vfs target ≠ 0 ∧
        (tree.nodes (vfsFinddir tree.vfs target)).flags &&& vfsDirectory = 0 := by
    rw [agrees.finddir]
    split
    next isNull => simp [isNull]
    next found => simp [found]
  rw [MountIo.Refuses, TreeRefuses, notDirectory, sameMounts, holds.exists_mount_iff noZero,
    agrees.block, agrees.node sameRoot]

theorem attach_rootNode {mp : ℕ} :
    (attach io kernel mp source target fstype).2.rootNode = kernel.rootNode := by
  rw [attach]
  split
  next => rfl
  next =>
    split
    next => rfl
    next => rfl

theorem vfsMount_rootNode {fuel : ℕ} {code : ℤ} {after : MountState}
    (returned : vfsMount fuel io kernel (some source) (some target) (some fstype) =
      some (code, after)) : after.rootNode = kernel.rootNode := by
  rcases vfsMount_cases returned with ⟨_, _, rfl⟩ | ⟨_, _, rfl⟩ |
    ⟨_, _, ⟨_, _, rfl⟩ | ⟨_, attached⟩⟩
  · rfl
  · rfl
  · rfl
  · have kept := congrArg (fun result => result.2.rootNode) attached
    rw [attach_rootNode] at kept
    exact kept.symm

theorem vfsMount_simulates (represents : Represents kernel tree)
    (valid : (MountCall.mount io source target fstype).Valid kernel)
    (agrees : io.Agrees answers kernel tree target) {fuel : ℕ} {code : ℤ} {after : MountState}
    (returned : vfsMount fuel io kernel (some source) (some target) (some fstype) =
      some (code, after)) :
    (Vfs.vfsMount answers tree (some source) (some target) (some fstype)).1 = code ∧
      Represents after (Vfs.vfsMount answers tree (some source) (some target) (some fstype)).2 := by
  rcases represents with ⟨⟨entries, holds, distinct, sameMounts⟩, sameRoot⟩
  have kept := vfsMount_rootNode returned
  rcases valid with ⟨isSource, isTarget, isType, respects⟩
  have refuses := @MountIo.Agrees.refuses_iff _ _ _ _ _ _ source _ fstype agrees sameRoot holds
    sameMounts isTarget.1
  rcases vfsMount_outcome holds isSource isTarget isType respects returned with
    ⟨refused, failed, unchanged⟩ | ⟨accepted, succeeded, extended⟩
  · rcases @treeMount_of_refuses _ _ _ source _ _ (refuses.mp refused) with
      ⟨treeFailed, treeMounts, treeRoot⟩
    refine ⟨treeFailed.trans failed.symm, ⟨entries, unchanged, distinct, ?_⟩, ?_⟩
    · rw [treeMounts, sameMounts]
    · rw [treeRoot, kept, sameRoot]
  · rcases @treeMount_of_accepts _ _ _ source _ _ (fun refused => accepted (refuses.mpr refused))
      isTarget.2 with ⟨treeSucceeded, treeMounts, treeRoot⟩
    simp only [MountIo.Refuses, not_or] at accepted
    refine ⟨treeSucceeded.trans succeeded.symm, ⟨_, extended, ?_, ?_⟩, ?_⟩
    · exact List.nodup_cons.mpr ⟨accepted.2.1, distinct⟩
    · rw [treeMounts, sameMounts, List.map_cons, ← agrees.node sameRoot]
      rfl
    · rw [treeRoot, kept, sameRoot]

end Mount

section Umount

variable {io : UmountIo} {kernel : MountState} {tree : Tree Callback} {entries : List Entry}
  {target : Bytes}

theorem umountLoop_rootNode {fuel : ℕ} {current : Option ℕ} {code : ℤ} {after : MountState}
    (run : umountLoop io kernel target fuel current = some (code, after)) :
    after.rootNode = kernel.rootNode := by
  induction fuel generalizing current with
  | zero => cases run
  | succ fuel ih =>
    rw [umountLoop] at run
    split_ifs at run
    · rw [Option.some.injEq, Prod.mk.injEq] at run
      rw [← run.2]
    · rw [Option.some.injEq, Prod.mk.injEq] at run
      rw [← run.2]
    · rw [Option.some.injEq, Prod.mk.injEq] at run
      rw [← run.2]
      rfl
    · exact ih run

theorem removable_of_refused (holds : Holds kernel entries)
    (sameMounts : tree.mounts = entries.map Entry.mount) (noZero : 0 ∉ target)
    (refused : target ∉ entries.map Entry.path ∨ target = ascii "/") :
    removable tree target = none := by
  rw [removable, Option.filter_eq_none_iff, sameMounts]
  intro mount found
  have hit := List.find?_some found
  rcases List.mem_map.mp (List.mem_of_find?_eq_some found) with ⟨entry, listed, rfl⟩
  have path := (holds.strcmp_path noZero listed).mp (of_decide_eq_true hit)
  rcases refused with notListed | isRoot
  · exact absurd (List.mem_map.mpr ⟨entry, listed, path⟩) notListed
  · have same := (@Holds.strcmp_path _ _ (ascii "/") holds (by decide) _ listed).mpr
      (path.trans isRoot)
    simpa using same

section Split

variable {left right : List Entry} {entry : Entry}

theorem strcmp_left_ne_zero (holds : Holds kernel (left ++ entry :: right))
    (distinct : ((left ++ entry :: right).map Entry.path).Nodup) (noZero : 0 ∉ target)
    (path : entry.path = target) :
    ∀ mount ∈ left.map Entry.mount, ¬decide (strcmp mount.path target = 0) = true := by
  intro mount inLeft same
  rcases List.mem_map.mp inLeft with ⟨other, inside, rfl⟩
  have otherPath := (holds.strcmp_path noZero (List.mem_append_left _ inside)).mp
    (of_decide_eq_true same)
  have own := (nodup_path_middle.mp distinct).1
  rw [path, ← otherPath] at own
  exact own (List.mem_map_of_mem (List.mem_append_left _ inside))

theorem treeUmount_of_split (holds : Holds kernel (left ++ entry :: right))
    (distinct : ((left ++ entry :: right).map Entry.path).Nodup)
    (sameMounts : tree.mounts = (left ++ entry :: right).map Entry.mount) (noZero : 0 ∉ target)
    (path : entry.path = target) (notRoot : target ≠ ascii "/") :
    (Vfs.vfsUmount tree (some target)).1 = 0 ∧
      (Vfs.vfsUmount tree (some target)).2.mounts = (left ++ right).map Entry.mount ∧
      (Vfs.vfsUmount tree (some target)).2.rootNode = tree.rootNode := by
  have listed : entry ∈ left ++ entry :: right := by simp
  have here : decide (strcmp entry.mount.path target = 0) = true :=
    decide_eq_true ((holds.strcmp_path noZero listed).mpr path)
  have others := strcmp_left_ne_zero holds distinct noZero path
  have first : tree.mounts.find? (fun mount => strcmp mount.path target = 0) =
      some entry.mount := by
    rw [sameMounts, List.map_append, List.find?_append, List.find?_eq_none.mpr others,
      Option.none_or, List.map_cons, List.find?_cons, here]
  have found : removable tree target = some entry.mount := by
    rw [removable, first, Option.filter_some, if_pos]
    refine decide_eq_true fun isRoot => notRoot ?_
    exact path.symm.trans
      ((@Holds.strcmp_path _ _ (ascii "/") holds (by decide) _ listed).mp isRoot)
  have erased : tree.mounts.eraseP (fun mount => strcmp mount.path target = 0) =
      (left ++ right).map Entry.mount := by
    rw [sameMounts, List.map_append, List.eraseP_append_right _ others, List.map_cons,
      List.eraseP_cons, here, cond_true, List.map_append]
  simp only [Vfs.vfsUmount, found, erased]
  split
  next =>
    rw [Vfs.ext4Umount]
    split
    next => exact ⟨rfl, rfl, rfl⟩
    next => exact ⟨rfl, rfl, rfl⟩
  next => exact ⟨rfl, rfl, rfl⟩

end Split

theorem vfsUmount_simulates (represents : Represents kernel tree)
    (valid : (MountCall.umount io target).Valid kernel) {fuel : ℕ} {code : ℤ} {after : MountState}
    (returned : vfsUmount fuel io kernel (some target) = some (code, after)) :
    (Vfs.vfsUmount tree (some target)).1 = code ∧
      Represents after (Vfs.vfsUmount tree (some target)).2 := by
  rcases represents with ⟨⟨entries, holds, distinct, sameMounts⟩, sameRoot⟩
  have kept := umountLoop_rootNode returned
  rcases valid with ⟨isTarget, respects⟩
  rcases vfsUmount_outcome holds distinct isTarget respects returned with
    ⟨refused, failed, unchanged⟩ |
      ⟨notRoot, succeeded, left, entry, right, rfl, path, removed⟩
  · have nothing := removable_of_refused holds sameMounts isTarget.1 refused
    simp only [Vfs.vfsUmount, nothing]
    exact ⟨failed.symm, ⟨entries, unchanged, distinct, sameMounts⟩, kept.trans sameRoot⟩
  · rcases treeUmount_of_split holds distinct sameMounts isTarget.1 path notRoot with
      ⟨treeSucceeded, treeMounts, treeRoot⟩
    refine ⟨treeSucceeded.trans succeeded.symm,
      ⟨_, removed, (nodup_path_middle.mp distinct).2, treeMounts⟩, ?_⟩
    rw [treeRoot, kept, sameRoot]

end Umount

inductive Together (start : MountState) (booted : Tree Callback) : MountState → Tree Callback → Prop
  | start : Together start booted start booted
  | mount {kernel after : MountState} {tree : Tree Callback} {io : MountIo} {answers : Vfs.MountIo}
      {source target fstype : Bytes} {fuel : ℕ} {code : ℤ}
      (before : Together start booted kernel tree)
      (valid : (MountCall.mount io source target fstype).Valid kernel)
      (agrees : io.Agrees answers kernel tree target)
      (returned : vfsMount fuel io kernel (some source) (some target) (some fstype) =
        some (code, after)) :
      Together start booted after
        (Vfs.vfsMount answers tree (some source) (some target) (some fstype)).2
  | umount {kernel after : MountState} {tree : Tree Callback} {io : UmountIo} {target : Bytes}
      {fuel : ℕ} {code : ℤ} (before : Together start booted kernel tree)
      (valid : (MountCall.umount io target).Valid kernel)
      (returned : vfsUmount fuel io kernel (some target) = some (code, after)) :
      Together start booted after (Vfs.vfsUmount tree (some target)).2

theorem represents_vfsInit {rootNode : ℕ} {kmalloc : Memory → ℕ × Memory} {memory : Memory}
    {tree : Tree Callback} (created : CreatesRoot rootNode kmalloc memory)
    (sameRoot : tree.rootNode = rootNode)
    (rootMount : tree.mounts =
      [{ path := ascii "/", node := rootNode, fstype := ascii "initrd" }]) :
    Represents (vfsInit rootNode kmalloc memory) tree := by
  rcases vfsInit_table created with ⟨table, rootEntry⟩
  refine ⟨⟨_, ⟨_, table, rfl⟩, List.nodup_singleton _, ?_⟩, ?_⟩
  · rw [rootMount, List.map_singleton, rootEntry]
    rfl
  · rw [sameRoot, vfsInit, if_neg created.rootExists]
    dsimp only
    rw [if_neg created.allocated]

/-- Every call returns, and with the same code in memory and in the tree. -/
def SameCodes (kernel : MountState) (tree : Tree Callback) : Prop :=
  (∀ call : MountCall, call.Valid kernel → ∃ fuel result, call.run fuel kernel = some result) ∧
    (∀ io answers source target fstype fuel code after,
      (MountCall.mount io source target fstype).Valid kernel →
      io.Agrees answers kernel tree target →
      vfsMount fuel io kernel (some source) (some target) (some fstype) = some (code, after) →
      (Vfs.vfsMount answers tree (some source) (some target) (some fstype)).1 = code) ∧
    ∀ io target fuel code after, (MountCall.umount io target).Valid kernel →
      vfsUmount fuel io kernel (some target) = some (code, after) →
      (Vfs.vfsUmount tree (some target)).1 = code

/-- After `vfs_init` and any calls, the mount list in memory represents the mounts of the tree, and
the next call returns the same code on both. -/
theorem mountList_represents_tree {rootNode : ℕ} {kmalloc : Memory → ℕ × Memory} {memory : Memory}
    {booted tree : Tree Callback} {kernel : MountState}
    (created : CreatesRoot rootNode kmalloc memory) (sameRoot : booted.rootNode = rootNode)
    (rootMount : booted.mounts =
      [{ path := ascii "/", node := rootNode, fstype := ascii "initrd" }])
    (together : Together (vfsInit rootNode kmalloc memory) booted kernel tree) :
    Represents kernel tree ∧ SameCodes kernel tree := by
  have represents : Represents kernel tree := by
    induction together with
    | start => exact represents_vfsInit created sameRoot rootMount
    | mount _ valid agrees returned ih => exact (vfsMount_simulates ih valid agrees returned).2
    | umount _ valid returned ih => exact (vfsUmount_simulates ih valid returned).2
  rcases represents.mounts with ⟨_, holds, -⟩
  refine ⟨represents, fun _ => MountCall.exists_run holds, ?_, ?_⟩
  · intro io answers source target fstype fuel code after valid agrees returned
    exact (vfsMount_simulates represents valid agrees returned).1
  · intro io target fuel code after valid returned
    exact (vfsUmount_simulates represents valid returned).1

def sampleTree : Tree Unit where
  nodes := fun _ => ext4Root 0
  invoke := fun _ _ _ => 0
  rootNode := 0x2000
  mounts := [{ path := ascii "/", node := 0x2000, fstype := ascii "initrd" }]
  live := ∅

def sampleAnswers : Vfs.MountIo where
  mountBlock := 0x3000
  fsBlock := 0x5000
  superblock := some ext4SuperMagic
  rootBlock := 0x4000

def mountedTree : Tree Unit :=
  (Vfs.vfsMount sampleAnswers sampleTree (some (ascii "hda1")) (some (ascii "/mnt"))
    (some (ascii "ext4"))).2

theorem mountList_represents_sampleTree :
    ∃ mounted, sampleMount.run 2 sampleKernel = some (0, mounted) ∧
      Represents mounted mountedTree ∧ SameCodes mounted mountedTree := by
  rcases sampleMount_run with ⟨mounted, run⟩
  have missing : vfsFinddir sampleTree.vfs (ascii "/mnt") = 0 := by decide +kernel
  refine ⟨mounted, run, mountList_represents_tree sampleKernel_createsRoot rfl rfl
    (@Together.mount Unit _ _ _ _ _ _ sampleAnswers _ _ _ 2 0 .start sampleMount_valid ?_ run)⟩
  exact ⟨(if_pos missing).symm, rfl, fun _ => rfl⟩

end RamOS.Vfs.MountTable
