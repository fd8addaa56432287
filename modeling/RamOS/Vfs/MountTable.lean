import Mathlib.Data.List.Nodup
import RamOS.Vfs.MountList

/-!
# The mount table as a finite map

What path resolution finds, what the allocator returns, what the EXT4 driver answers, and what
all of them do to memory is left to a call. As long as they respect the records in the list and
the one that is being mounted, the list is a finite map from paths, whatever sequence of calls
the kernel performs.
-/

namespace RamOS.Vfs.MountTable

open ByteMemory CString LinkedList

def MountIo.block (io : MountIo) (kernel : MountState) : ℕ :=
  (io.kmalloc (io.finddir kernel.memory).2).1

def MountIo.node (io : MountIo) (kernel : MountState) (source target fstype : Bytes) : ℕ :=
  loadedNode io kernel.rootNode
    (fillMountPoint (io.kmalloc (io.finddir kernel.memory).2).2 (io.block kernel) source target
      fstype) fstype

def MountIo.Refuses (io : MountIo) (kernel : MountState) (entries : List Entry)
    (source target fstype : Bytes) : Prop :=
  (io.finddir kernel.memory).1.any (· &&& vfsDirectory = 0) = true ∨
    target ∈ entries.map Entry.path ∨ io.block kernel = 0 ∨
    io.node kernel source target fstype = 0

/-- What is outside of the table does not touch it during a mount. -/
structure MountIo.Respects (io : MountIo) (kernel : MountState) : Prop where
  finddir : ∀ memory, Set.EqOn (io.finddir memory).2 memory (tableBytes kernel)
  kmalloc : ∀ memory, Set.EqOn (io.kmalloc memory).2 memory (tableBytes kernel)
  inSpace : io.block kernel + mountPointSize ≤ 2 ^ 32
  fresh : io.block kernel ≠ 0 →
    Disjoint (range (io.block kernel) mountPointSize) (tableBytes kernel)
  ext4Mount : ∀ memory, Set.EqOn (io.ext4Mount memory).2 memory
    (tableBytes kernel ∪ range (io.block kernel) mountPointSize)
  ext4Node : ∀ memory, (io.ext4Mount memory).1 < 2 ^ 32
  kfree : ∀ memory, Set.EqOn (io.kfree memory) memory (tableBytes kernel)

/-- An unmount does not touch the other mount points from outside. -/
structure UmountIo.Respects (io : UmountIo) (kernel : MountState) (target : Bytes) : Prop where
  ext4Umount : ∀ memory, Set.EqOn (io.ext4Umount memory) memory (otherBytes kernel target)
  kfree : ∀ memory, Set.EqOn (io.kfree memory) memory (otherBytes kernel target)

/-- The strings fit their fields, and what is outside respects the table. -/
def MountCall.Valid (kernel : MountState) : MountCall → Prop
  | mount io source target fstype =>
    IsString 256 source ∧ IsString 256 target ∧ IsString 32 fstype ∧ io.Respects kernel
  | umount io target => IsString 256 target ∧ io.Respects kernel target

inductive Reachable (start : MountState) : MountState → Prop
  | start : Reachable start start
  | call {kernel after : MountState} {call : MountCall} {fuel : ℕ} {code : ℤ}
      (before : Reachable start kernel) (valid : call.Valid kernel)
      (returned : call.run fuel kernel = some (code, after)) : Reachable start after

/-- The root file system exists and the allocator has room for its mount point. -/
structure CreatesRoot (rootNode : ℕ) (kmalloc : Memory → ℕ × Memory) (memory : Memory) : Prop where
  rootExists : rootNode ≠ 0
  rootWord : rootNode < 2 ^ 32
  allocated : (kmalloc memory).1 ≠ 0
  inSpace : (kmalloc memory).1 + mountPointSize ≤ 2 ^ 32

/-- What a call does to the entries, given the code that it returns. -/
def MountCall.Effect (before after : List Entry) (code : ℤ) (call : MountCall) : Prop :=
  code = -1 ∧ after = before ∨
    code = 0 ∧
      match call with
      | mount _ source target fstype => target ∉ before.map Entry.path ∧ ∃ node ≠ 0,
          after = { path := target, node := node, fstype := fstype, source := source } :: before
      | umount _ target => target ≠ ascii "/" ∧ ∃ left entry right,
          before = left ++ entry :: right ∧ entry.path = target ∧ after = left ++ right

def Holds (kernel : MountState) (entries : List Entry) : Prop :=
  ∃ blocks, Table kernel blocks ∧ entries = blocks.map (entryAt kernel.memory)

theorem Holds.lists {kernel : MountState} {entries : List Entry} (holds : Holds kernel entries) :
    Lists kernel entries := by
  rcases holds with ⟨blocks, table, rfl⟩
  exact table.lists

section Mounting

variable {io : MountIo} {kernel : MountState} {entries : List Entry} {fuel : ℕ}
  {source target fstype : Bytes}

theorem vfsMount_cases {code : ℤ} {after : MountState}
    (returned : vfsMount fuel io kernel (some source) (some target) (some fstype) =
      some (code, after)) :
    (io.finddir kernel.memory).1.any (· &&& vfsDirectory = 0) = true ∧ code = -1 ∧
        after = { kernel with memory := (io.finddir kernel.memory).2 } ∨
      alreadyMounted (io.finddir kernel.memory).2 target fuel kernel.mountList = some true ∧
        code = -1 ∧ after = { kernel with memory := (io.finddir kernel.memory).2 } ∨
      ¬(io.finddir kernel.memory).1.any (· &&& vfsDirectory = 0) = true ∧
        alreadyMounted (io.finddir kernel.memory).2 target fuel kernel.mountList = some false ∧
        (io.block kernel = 0 ∧ code = -1 ∧
            after = { kernel with memory := (io.kmalloc (io.finddir kernel.memory).2).2 } ∨
          io.block kernel ≠ 0 ∧
            attach io { kernel with memory := (io.kmalloc (io.finddir kernel.memory).2).2 }
              (io.block kernel) source target fstype = (code, after)) := by
  simp only [vfsMount] at returned
  split at returned
  next notDirectory =>
    cases returned
    exact Or.inl ⟨notDirectory, rfl, rfl⟩
  next isDirectory =>
    split at returned
    next => cases returned
    next listed =>
      cases returned
      exact Or.inr (Or.inl ⟨listed, rfl, rfl⟩)
    next notListed =>
      refine Or.inr (Or.inr ⟨isDirectory, notListed, ?_⟩)
      split at returned
      next isNull =>
        cases returned
        exact Or.inl ⟨isNull, rfl, rfl⟩
      next nonnull => exact Or.inr ⟨nonnull, Option.some.inj returned⟩

theorem vfsMount_outcome (holds : Holds kernel entries) (isSource : IsString 256 source)
    (isTarget : IsString 256 target) (isType : IsString 32 fstype) (respects : io.Respects kernel)
    {code : ℤ} {after : MountState}
    (returned : vfsMount fuel io kernel (some source) (some target) (some fstype) =
      some (code, after)) :
    io.Refuses kernel entries source target fstype ∧ code = -1 ∧ Holds after entries ∨
      ¬io.Refuses kernel entries source target fstype ∧ code = 0 ∧
        Holds after
          ({ path := target
             node := io.node kernel source target fstype
             fstype := fstype
             source := source } :: entries) := by
  rcases holds with ⟨blocks, table, rfl⟩
  have safe := table.tableBytes_eq
  have findAgrees := respects.finddir kernel.memory
  have allocAgrees := respects.kmalloc (io.finddir kernel.memory).2
  rw [safe] at findAgrees allocAgrees
  rcases table.keep findAgrees with ⟨found, foundEntries⟩
  rcases table.keep (allocAgrees.trans findAgrees) with ⟨allocated, allocatedEntries⟩
  have isListed {answer : Bool}
      (searched : alreadyMounted (io.finddir kernel.memory).2 target fuel kernel.mountList =
        some answer) :
      answer = true ↔ target ∈ (blocks.map (entryAt kernel.memory)).map Entry.path := by
    rw [← foundEntries]
    exact alreadyMounted_iff found.chain found.terminated isTarget.1 searched
  rcases vfsMount_cases returned with ⟨notDirectory, failed, rfl⟩ | ⟨searched, failed, rfl⟩ |
    ⟨isDirectory, searched, ⟨isNull, failed, rfl⟩ | ⟨nonnull, attached⟩⟩
  · exact Or.inl ⟨Or.inl notDirectory, failed, blocks, found, foundEntries.symm⟩
  · exact Or.inl ⟨Or.inr (Or.inl ((isListed searched).mp rfl)), failed, blocks, found,
      foundEntries.symm⟩
  · exact Or.inl ⟨Or.inr (Or.inr (Or.inl isNull)), failed, blocks, allocated,
      allocatedEntries.symm⟩
  · have apart := respects.fresh nonnull
    have driver := respects.ext4Mount
    have release := respects.kfree
    simp only [safe] at apart driver release
    rcases attach_effect allocated nonnull respects.inSpace apart respects.ext4Node driver release
      isSource isTarget isType rfl attached with
      ⟨noNode, failed, kept, same⟩ | ⟨hasNode, succeeded, extended, same, newEntry⟩
    · exact Or.inl ⟨Or.inr (Or.inr (Or.inr noNode)), failed, blocks, kept,
        (same.trans allocatedEntries).symm⟩
    · have accepted : ¬io.Refuses kernel (blocks.map (entryAt kernel.memory)) source target
          fstype := by
        rintro (notDirectory | listed | isNull | noNode)
        · exact isDirectory notDirectory
        · exact Bool.false_ne_true ((isListed searched).mpr listed)
        · exact nonnull isNull
        · exact hasNode noNode
      refine Or.inr ⟨accepted, succeeded, _, extended, ?_⟩
      rw [List.map_cons, newEntry, same.trans allocatedEntries]
      rfl

theorem exists_vfsMount (holds : Holds kernel entries) (respects : io.Respects kernel) :
    ∃ fuel result, vfsMount fuel io kernel (some source) (some target) (some fstype) =
      some result := by
  rcases holds with ⟨blocks, table, rfl⟩
  have findAgrees := respects.finddir kernel.memory
  rw [table.tableBytes_eq] at findAgrees
  rcases table.keep findAgrees with ⟨found, _⟩
  rcases @exists_alreadyMounted _ _ (blocks.length + 1) _ target found.chain
    (Nat.lt_succ_self _) with ⟨answer, searched⟩
  refine ⟨blocks.length + 1, ?_⟩
  dsimp only at searched
  simp only [vfsMount, searched]
  cases answer
  all_goals split_ifs <;> exact ⟨_, rfl⟩

end Mounting

theorem nodup_path_middle {left right : List Entry} {entry : Entry} :
    ((left ++ entry :: right).map Entry.path).Nodup ↔
      entry.path ∉ (left ++ right).map Entry.path ∧ ((left ++ right).map Entry.path).Nodup := by
  rw [List.map_append, List.map_cons, List.nodup_middle, List.nodup_cons, ← List.map_append]

section Unmounting

variable {io : UmountIo} {kernel : MountState} {left right : List ℕ} {target : Bytes}
  {fuel : ℕ}

theorem umountLoop_cases (table : Table kernel (left ++ right)) (noZero : 0 ∉ target)
    {code : ℤ} {after : MountState}
    (run : umountLoop io kernel target fuel (lastCell nextField left) = some (code, after)) :
    (target ∉ (right.map (entryAt kernel.memory)).map Entry.path ∨ target = ascii "/") ∧
        code = -1 ∧ after = kernel ∨
      ∃ before mp rest, left ++ right = before ++ mp :: rest ∧
        (entryAt kernel.memory mp).path = target ∧ target ≠ ascii "/" ∧
        code = 0 ∧ after = unlink io kernel (lastCell nextField before) mp := by
  induction right generalizing left fuel with
  | nil =>
    rcases segment_append.mp table.chain with ⟨middle, before, isNull⟩
    have null : loadCell kernel.memory kernel.mountList (lastCell nextField left) = 0 :=
      before.loadCell.trans isNull
    rcases fuel with _ | fuel
    · cases run
    rw [umountLoop, if_pos null] at run
    cases run
    exact Or.inl ⟨Or.inl (by simp), rfl, rfl⟩
  | cons mp rest ih =>
    rcases segment_append.mp table.chain with ⟨middle, before, isBlock, nonnull, _⟩
    have here : loadCell kernel.memory kernel.mountList (lastCell nextField left) = mp :=
      before.loadCell.trans isBlock
    have terminated := table.terminated mp (List.mem_append_right _ List.mem_cons_self)
    have isTarget := strcmpAt_path_iff terminated noZero
    have isRoot := @strcmpAt_path_iff _ (ascii "/") _ terminated (by decide)
    rcases fuel with _ | fuel
    · cases run
    rw [umountLoop, here, if_neg nonnull] at run
    split_ifs at run with found root
    · cases run
      exact Or.inl ⟨Or.inr ((isTarget.mp found).symm.trans (isRoot.mp root)), rfl, rfl⟩
    · cases run
      have path := isTarget.mp found
      refine Or.inr ⟨left, mp, rest, rfl, path, ?_, rfl, rfl⟩
      exact fun same => root (isRoot.mpr (path.trans same))
    · have other : target ≠ (entryAt kernel.memory mp).path := fun same =>
        found (isTarget.mpr same.symm)
      have shape : left ++ mp :: rest = (left ++ [mp]) ++ rest := by simp
      rw [← lastCell_concat] at run
      rw [shape] at table ⊢
      rw [List.map_cons, List.map_cons, List.mem_cons, or_iff_right other]
      exact ih table run

theorem exists_umountLoop (table : Table kernel (left ++ right)) (enough : right.length < fuel) :
    ∃ result, umountLoop io kernel target fuel (lastCell nextField left) = some result := by
  induction right generalizing left fuel with
  | nil =>
    rcases segment_append.mp table.chain with ⟨middle, before, isNull⟩
    rcases fuel with _ | fuel
    · omega
    rw [umountLoop, if_pos (before.loadCell.trans isNull)]
    exact ⟨_, rfl⟩
  | cons mp rest ih =>
    rcases segment_append.mp table.chain with ⟨middle, before, isBlock, nonnull, _⟩
    rw [List.length_cons] at enough
    rcases fuel with _ | fuel
    · omega
    rw [umountLoop, before.loadCell.trans isBlock, if_neg nonnull]
    split_ifs
    · exact ⟨_, rfl⟩
    · exact ⟨_, rfl⟩
    · have shape : left ++ mp :: rest = (left ++ [mp]) ++ rest := by simp
      rw [← lastCell_concat]
      rw [shape] at table
      exact ih table (by omega)

theorem Table.remove {mp : ℕ} (table : Table kernel (left ++ mp :: right)) {memory : Memory}
    {head : ℕ}
    (stored : storeCell kernel.memory kernel.mountList (read32 kernel.memory (mp + nextField))
      (lastCell nextField left) = (memory, head)) :
    Table { kernel with memory := memory, mountList := head } (left ++ right) ∧
      (left ++ right).map (entryAt memory) = (left ++ right).map (entryAt kernel.memory) := by
  rcases table.chain.remove table.apart (by decide) stored with ⟨chain, front⟩
  have keptBlock {block : ℕ} (listed : block ∈ left ++ right) : block ∈ left ++ mp :: right := by
    rw [List.mem_append] at listed ⊢
    exact listed.imp_right (List.mem_cons_of_mem _)
  refine ⟨⟨chain, table.apart.remove, ?_, ?_, table.rootWord⟩,
    List.map_congr_left fun block listed => entryAt_congr (front block (keptBlock listed))⟩
  · exact fun block listed => table.inSpace block (keptBlock listed)
  · intro block listed
    have path : Set.EqOn memory kernel.memory (range block 256) :=
      (front block (keptBlock listed)).mono
        (range_subset_range le_rfl (Nat.add_le_add_left (by decide) block))
    dsimp only
    rw [load_congr path]
    exact table.terminated block (keptBlock listed)

theorem Table.bytes_subset_otherBytes {mp : ℕ} (table : Table kernel (left ++ mp :: right))
    (distinct : (((left ++ mp :: right).map (entryAt kernel.memory)).map Entry.path).Nodup) :
    bytes mountPointSize (left ++ right) ⊆ otherBytes kernel (entryAt kernel.memory mp).path := by
  rintro location ⟨block, listed, inside⟩
  rw [List.map_append, List.map_cons, nodup_path_middle, ← List.map_append] at distinct
  have other : (entryAt kernel.memory block).path ≠ (entryAt kernel.memory mp).path := by
    intro same
    rw [← same] at distinct
    exact distinct.1 (List.mem_map_of_mem (List.mem_map_of_mem listed))
  refine ⟨_, _, table.chain.blocksFrom (Nat.lt_succ_self _), block, ?_, inside⟩
  rw [List.mem_filter]
  rw [List.mem_append] at listed ⊢
  exact ⟨listed.imp_right (List.mem_cons_of_mem _), decide_eq_true other⟩

theorem unlink_effect {mp : ℕ} (table : Table kernel (left ++ mp :: right))
    (distinct : (((left ++ mp :: right).map (entryAt kernel.memory)).map Entry.path).Nodup)
    (respects : io.Respects kernel (entryAt kernel.memory mp).path) :
    Table (unlink io kernel (lastCell nextField left) mp) (left ++ right) ∧
      (left ++ right).map (entryAt (unlink io kernel (lastCell nextField left) mp).memory) =
        (left ++ right).map (entryAt kernel.memory) := by
  have safe := table.bytes_subset_otherBytes distinct
  rw [unlink]
  cases stored : storeCell kernel.memory kernel.mountList (read32 kernel.memory (mp + nextField))
    (lastCell nextField left) with
  | mk memory head =>
    rcases table.remove stored with ⟨removed, sameEntries⟩
    have agree : Set.EqOn
        (io.kfree (if strcmpAt memory (mp + fstypeField) (ascii "ext4") = 0 then
          io.ext4Umount memory else memory)) memory (bytes mountPointSize (left ++ right)) := by
      refine ((respects.kfree _).mono safe).trans ?_
      split
      next => exact (respects.ext4Umount memory).mono safe
      next => exact fun _ _ => rfl
    rcases removed.keep agree with ⟨kept, keptEntries⟩
    exact ⟨kept, keptEntries.trans sameEntries⟩

/-- `vfs_umount` fails if nothing or the root is mounted at its target, or takes the entry out. -/
theorem vfsUmount_outcome {entries : List Entry} (holds : Holds kernel entries)
    (distinct : (entries.map Entry.path).Nodup) (isTarget : IsString 256 target)
    (respects : io.Respects kernel target) {code : ℤ} {after : MountState}
    (returned : vfsUmount fuel io kernel (some target) = some (code, after)) :
    (target ∉ entries.map Entry.path ∨ target = ascii "/") ∧ code = -1 ∧ Holds after entries ∨
      target ≠ ascii "/" ∧ code = 0 ∧ ∃ left entry right,
        entries = left ++ entry :: right ∧ entry.path = target ∧ Holds after (left ++ right) := by
  rcases holds with ⟨blocks, table, rfl⟩
  rcases @umountLoop_cases io kernel [] blocks target fuel table isTarget.1 _ _ returned with
    ⟨refused, failed, rfl⟩ | ⟨before, mp, rest, shape, rfl, notRoot, succeeded, rfl⟩
  · exact Or.inl ⟨refused, failed, blocks, table, rfl⟩
  · rw [List.nil_append] at shape
    subst shape
    rcases unlink_effect table distinct respects with ⟨removed, sameEntries⟩
    refine Or.inr ⟨notRoot, succeeded, before.map (entryAt kernel.memory), entryAt kernel.memory mp,
      rest.map (entryAt kernel.memory), ?_, rfl, _, removed, ?_⟩
    · rw [List.map_append, List.map_cons]
    · rw [sameEntries, List.map_append]

theorem exists_vfsUmount {entries : List Entry} (holds : Holds kernel entries) :
    ∃ fuel result, vfsUmount fuel io kernel (some target) = some result := by
  rcases holds with ⟨blocks, table, rfl⟩
  exact ⟨_, @exists_umountLoop io kernel [] blocks target _ table (Nat.lt_succ_self _)⟩

end Unmounting

section Effects

variable {call : MountCall} {before after : List Entry} {code : ℤ}

theorem MountCall.Effect.nodup (effect : call.Effect before after code)
    (distinct : (before.map Entry.path).Nodup) : (after.map Entry.path).Nodup := by
  rcases effect with ⟨_, rfl⟩ | ⟨_, effect⟩
  · exact distinct
  · cases call with
    | mount io source target fstype =>
      rcases effect with ⟨fresh, node, _, rfl⟩
      exact List.nodup_cons.mpr ⟨fresh, distinct⟩
    | umount io target =>
      rcases effect with ⟨_, left, entry, right, rfl, _, rfl⟩
      exact (nodup_path_middle.mp distinct).2

theorem MountCall.Effect.keepsRoot (effect : call.Effect before after code)
    (root : ascii "/" ∈ before.map Entry.path) : ascii "/" ∈ after.map Entry.path := by
  rcases effect with ⟨_, rfl⟩ | ⟨_, effect⟩
  · exact root
  · cases call with
    | mount io source target fstype =>
      rcases effect with ⟨_, node, _, rfl⟩
      exact List.mem_cons_of_mem _ root
    | umount io target =>
      rcases effect with ⟨notRoot, left, entry, right, rfl, rfl, rfl⟩
      simp only [List.map_append, List.map_cons, List.mem_append, List.mem_cons] at root ⊢
      rcases root with inLeft | isEntry | inRight
      · exact Or.inl inLeft
      · exact absurd isEntry.symm notRoot
      · exact Or.inr inRight

end Effects

section Runs

variable {kernel : MountState} {entries : List Entry} {call : MountCall}

theorem MountCall.run_effect (holds : Holds kernel entries)
    (distinct : (entries.map Entry.path).Nodup) (valid : call.Valid kernel) {fuel : ℕ} {code : ℤ}
    {after : MountState} (returned : call.run fuel kernel = some (code, after)) :
    ∃ later, Holds after later ∧ call.Effect entries later code := by
  cases call with
  | mount io source target fstype =>
    rcases valid with ⟨isSource, isTarget, isType, respects⟩
    rcases vfsMount_outcome holds isSource isTarget isType respects returned with
      ⟨_, failed, kept⟩ | ⟨accepted, succeeded, extended⟩
    · exact ⟨entries, kept, Or.inl ⟨failed, rfl⟩⟩
    · simp only [MountIo.Refuses, not_or] at accepted
      exact ⟨_, extended, Or.inr ⟨succeeded, accepted.2.1, _, accepted.2.2.2, rfl⟩⟩
  | umount io target =>
    rcases vfsUmount_outcome holds distinct valid.1 valid.2 returned with
      ⟨_, failed, kept⟩ | ⟨notRoot, succeeded, left, entry, right, split, path, removed⟩
    · exact ⟨entries, kept, Or.inl ⟨failed, rfl⟩⟩
    · exact ⟨_, removed, Or.inr ⟨succeeded, notRoot, left, entry, right, split, path, rfl⟩⟩

theorem MountCall.exists_run (holds : Holds kernel entries) (valid : call.Valid kernel) :
    ∃ fuel result, call.run fuel kernel = some result := by
  cases call with
  | mount io source target fstype => exact exists_vfsMount holds valid.2.2.2
  | umount io target => exact exists_vfsUmount holds

theorem filled_createRoot (memory : Memory) (rootMount rootNode : ℕ) :
    Filled (createRoot memory rootMount rootNode) rootMount (ascii "initrd") (ascii "/")
      (ascii "initrd") := by
  have behind {address size dest : ℕ} (stored : Memory) (text : Bytes)
      (apart : address + size ≤ dest) :
      Set.EqOn (strcpy stored dest text) stored (range address size) := by
    intro location within
    rw [mem_range] at within
    exact strcpy_eqOn _ _ _ (by rw [mem_compl_range]; omega)
  let copied := strcpy (strcpy (strcpy memory rootMount (ascii "/")) (rootMount + fstypeField)
    (ascii "initrd")) (rootMount + sourceField) (ascii "initrd")
  have filled : Filled copied rootMount (ascii "initrd") (ascii "/") (ascii "initrd") := by
    refine ⟨?_, ?_, load_strcpy _ _ _⟩
    · rw [load_congr_of_lt (@behind rootMount 256 _ _ _ (by simp [sourceField])) (by decide),
        load_congr_of_lt (@behind rootMount 256 _ _ _ (by simp [fstypeField])) (by decide),
        load_strcpy]
    · rw [load_congr_of_lt (@behind _ 32 _ _ _ (by simp [sourceField, fstypeField])) (by decide),
        load_strcpy]
  refine filled.congr (by decide) (by decide) (by decide) fun location inside outside => ?_
  rw [createRoot, write32_apply_of_outside (Or.inl inside.2), write32_eqOn _ _ _ outside]

theorem node_createRoot (memory : Memory) (rootMount : ℕ) {rootNode : ℕ}
    (rootWord : rootNode < 2 ^ 32) :
    read32 (createRoot memory rootMount rootNode) (rootMount + nodeField) = rootNode := by
  rw [createRoot, read32_write32_of_disjoint (by simp only [nodeField, nextField]; omega),
    read32_write32_same]
  exact Nat.mod_eq_of_lt rootWord

theorem vfsInit_table {rootNode : ℕ} {kmalloc : Memory → ℕ × Memory} {memory : Memory}
    (created : CreatesRoot rootNode kmalloc memory) :
    Table (vfsInit rootNode kmalloc memory) [(kmalloc memory).1] ∧
      entryAt (vfsInit rootNode kmalloc memory).memory (kmalloc memory).1 =
        { path := ascii "/"
          node := rootNode
          fstype := ascii "initrd"
          source := ascii "initrd" } := by
  rw [vfsInit, if_neg created.rootExists]
  dsimp only
  rw [if_neg created.allocated]
  have nonnull := created.allocated
  have inSpace := created.inSpace
  generalize (kmalloc memory).1 = rootMount at nonnull inSpace ⊢
  generalize (kmalloc memory).2 = memory
  have filled := filled_createRoot memory rootMount rootNode
  have next : read32 (createRoot memory rootMount rootNode) (rootMount + nextField) = 0 :=
    read32_write32_same _ _ _
  refine ⟨⟨⟨rfl, nonnull, next⟩, List.pairwise_singleton _ _, ?_, ?_, created.rootWord⟩, ?_⟩
  · intro block listed
    rwa [List.mem_singleton.mp listed]
  · intro block listed
    rw [List.mem_singleton.mp listed]
    exact filled.terminated (by decide)
  · rw [filled.entryAt_eq (by decide) (by decide) (by decide),
      node_createRoot memory rootMount created.rootWord]

theorem Reachable.table {start kernel : MountState} (reachable : Reachable start kernel)
    {first : List Entry} (initially : Holds start first)
    (distinct : (first.map Entry.path).Nodup) (root : ascii "/" ∈ first.map Entry.path) :
    ∃ entries, Holds kernel entries ∧ (entries.map Entry.path).Nodup ∧
      ascii "/" ∈ entries.map Entry.path := by
  induction reachable with
  | start => exact ⟨first, initially, distinct, root⟩
  | call before valid returned ih =>
    rcases ih with ⟨entries, holds, distinct, root⟩
    rcases MountCall.run_effect holds distinct valid returned with ⟨later, laterHolds, effect⟩
    exact ⟨later, laterHolds, effect.nodup distinct, effect.keepsRoot root⟩

/-- The mount table is a finite map. In every reachable state the list ends, its paths are
distinct, and the root is among them. Every call returns; a failed one leaves the entries, a mount
adds the entry of its target, and an unmount removes it and keeps the others in order. -/
theorem mountTable_finiteMap {rootNode : ℕ} {kmalloc : Memory → ℕ × Memory} {memory : Memory}
    (created : CreatesRoot rootNode kmalloc memory)
    (reachable : Reachable (vfsInit rootNode kmalloc memory) kernel) :
    ∃ entries, Lists kernel entries ∧ (entries.map Entry.path).Nodup ∧
      ascii "/" ∈ entries.map Entry.path ∧
      ∀ call : MountCall, call.Valid kernel →
        (∃ fuel result, call.run fuel kernel = some result) ∧
        ∀ fuel code after, call.run fuel kernel = some (code, after) →
          ∃ later, Lists after later ∧ call.Effect entries later code := by
  rcases vfsInit_table created with ⟨table, rootEntry⟩
  have rootPath := congrArg Entry.path rootEntry
  rcases reachable.table ⟨_, table, rfl⟩ (List.nodup_singleton _)
    (List.mem_singleton.mpr rootPath.symm) with ⟨entries, holds, distinct, root⟩
  refine ⟨entries, holds.lists, distinct, root, fun call valid => ?_⟩
  refine ⟨MountCall.exists_run holds valid, fun fuel code after returned => ?_⟩
  rcases MountCall.run_effect holds distinct valid returned with ⟨later, laterHolds, effect⟩
  exact ⟨later, laterHolds.lists, effect⟩

def sampleKernel : MountState := vfsInit 0x2000 (fun memory => (0x1000, memory)) fun _ => 0

/-- A mount of an EXT4 file system on a target that does not exist yet. -/
def sampleMount : MountCall :=
  MountCall.mount
    { finddir := fun memory => (none, memory)
      kmalloc := fun memory => (0x3000, memory)
      ext4Mount := fun memory => (0x4000, memory)
      kfree := id }
    (ascii "hda1") (ascii "/mnt") (ascii "ext4")

theorem sampleKernel_createsRoot :
    CreatesRoot 0x2000 (fun memory => (0x1000, memory)) fun _ => 0 :=
  ⟨by decide, by decide, by decide, by decide⟩

theorem sampleMount_valid : sampleMount.Valid sampleKernel := by
  have occupied : tableBytes sampleKernel = bytes mountPointSize [0x1000] :=
    (vfsInit_table sampleKernel_createsRoot).1.tableBytes_eq
  refine ⟨by decide, by decide, by decide, ?_⟩
  refine ⟨fun _ _ _ => rfl, fun _ _ _ => rfl, ?_, fun _ => ?_, fun _ _ _ => rfl, ?_,
    fun _ _ _ => rfl⟩
  · simp [MountIo.block, mountPointSize]
  · rw [occupied, Set.disjoint_left]
    rintro location inside ⟨block, listed, within⟩
    rw [List.mem_singleton.mp listed] at within
    simp only [mem_range, MountIo.block, mountPointSize] at inside within
    omega
  · simp

theorem sampleMount_run : ∃ mounted, sampleMount.run 2 sampleKernel = some (0, mounted) := by
  have code : (sampleMount.run 2 sampleKernel).map Prod.fst = some 0 := by decide +kernel
  rcases Option.map_eq_some_iff.mp code with ⟨result, run, isZero⟩
  exact ⟨result.2, run.trans (congrArg some (Prod.ext isZero rfl))⟩

theorem mountTable_finiteMap_sample :
    ∃ mounted, sampleMount.run 2 sampleKernel = some (0, mounted) ∧
      ∃ entries, Lists mounted entries ∧ (entries.map Entry.path).Nodup ∧
        ascii "/" ∈ entries.map Entry.path ∧
        ∀ call : MountCall, call.Valid mounted →
          (∃ fuel result, call.run fuel mounted = some result) ∧
          ∀ fuel code after, call.run fuel mounted = some (code, after) →
            ∃ later, Lists after later ∧ call.Effect entries later code := by
  rcases sampleMount_run with ⟨mounted, run⟩
  exact ⟨mounted, run,
    mountTable_finiteMap sampleKernel_createsRoot (Reachable.start.call sampleMount_valid run)⟩

end Runs

end RamOS.Vfs.MountTable
