import RamOS.Vmm.Translation

/-!
# Translation after runs of the memory manager

After `vmm_init` the kernel maps pages in its directory and, in between, creates
directories for processes, which takes frames from the same allocator. This file
follows such runs: what an address translates to is decided by the last call for
its page that was served.
-/

namespace RamOS.Vmm

open ByteMemory

/-- Calls into the memory manager. Arguments are 32-bit words. -/
inductive Call
  | mapPage (virtual physical flags : Fin (2 ^ 32))
  | createPageDirectory

def Call.run (state : State) : Call → State
  | .mapPage virtual physical flags => vmmMapPage state virtual physical flags
  | .createPageDirectory => (vmmCreatePageDirectory state).2

/-- The frame address that a call gives to a page, if it is served. -/
def Call.serve (state : State) (page : ℕ) : Call → Option ℕ
  | .mapPage virtual physical _ =>
    if virtual / pageSize = page ∧ Served state virtual then
      some (physical &&& Word32.not 0xFFF)
    else none
  | .createPageDirectory => none

/-- The frame address that the last served call for a page gives to it. -/
def lastServed (page : ℕ) : State → List Call → Option ℕ
  | _, [] => none
  | state, call :: calls => (lastServed page (call.run state) calls).or (call.serve state page)

variable {state : State} {frame page : ℕ}

theorem newDirectory_eqOn (memory : Memory) (directory kernel : ℕ) :
    Set.EqOn
      (if kernel = 0 then fillWords memory directory 0 1024
        else copyWords (fillWords memory directory 0 1024) directory kernel 512)
      memory (range directory pageSize)ᶜ := by
  have cleared := fillWords_eqOn memory directory 0 1024
  split
  · exact cleared
  · have copied := copyWords_eqOn (fillWords memory directory 0 1024) directory kernel 512
    refine Set.EqOn.trans (copied.mono ?_) cleared
    exact Set.compl_subset_compl.mpr (Set.Ico_subset_Ico_right (by simp [pageSize]))

theorem read32_newDirectory_clear {memory : Memory} {directory kernel slot : ℕ}
    (upper : slot < 1024) (high : 512 ≤ slot ∨ kernel = 0) :
    read32
      (if kernel = 0 then fillWords memory directory 0 1024
        else copyWords (fillWords memory directory 0 1024) directory kernel 512)
      (directory + 4 * slot) = 0 := by
  have cleared := @read32_fillWords memory directory 0 1024 slot upper
  split
  next => exact cleared
  next hasKernel =>
    have isHigh := high.resolve_right hasKernel
    rw [read32_copyWords_of_disjoint (by omega)]
    exact cleared

theorem read32_newDirectory_kernel {memory : Memory} {directory kernel slot : ℕ}
    (hasKernel : kernel ≠ 0) (low : slot < 512)
    (apart : directory + pageSize ≤ kernel ∨ kernel + pageSize ≤ directory) :
    read32
      (if kernel = 0 then fillWords memory directory 0 1024
        else copyWords (fillWords memory directory 0 1024) directory kernel 512)
      (directory + 4 * slot) = read32 memory (kernel + 4 * slot) := by
  simp only [pageSize] at apart
  rw [if_neg hasKernel, read32_copyWords low (by omega)]
  refine read32_congr ((fillWords_eqOn memory directory 0 1024).mono ?_)
  intro location inWord
  simp only [mem_compl_range, mem_range] at inWord ⊢
  omega

theorem createPageDirectory_cases (state : State) :
    vmmCreatePageDirectory state = (0, state) ∨
    ∃ frame < maxFrames, frameUsed state frame = false ∧
      (vmmCreatePageDirectory state).1 = frame * pageSize ∧
      (vmmCreatePageDirectory state).2.currentPageDirectory = state.currentPageDirectory ∧
      (∀ other, frameUsed (vmmCreatePageDirectory state).2 other =
        (decide (other = frame) || frameUsed state other)) ∧
      Set.EqOn (vmmCreatePageDirectory state).2.memory state.memory
        (range (frame * pageSize) pageSize)ᶜ := by
  rcases allocFrame_cases state with ⟨none, _⟩ | ⟨frame, inside, free, found⟩
  · left
    simp [vmmCreatePageDirectory, none]
  · right
    refine ⟨frame, inside, free, ?_⟩
    by_cases null : frame * pageSize = 0
    · simp only [vmmCreatePageDirectory, found, if_pos null]
      exact ⟨null.symm, rfl, fun other => frameUsed_takeFrame, fun _ _ => rfl⟩
    · simp only [vmmCreatePageDirectory, found, if_neg null]
      exact ⟨trivial, rfl, fun other => frameUsed_takeFrame,
        newDirectory_eqOn state.memory (frame * pageSize) state.kernelPageDirectory⟩

theorem createPageDirectory_spec (paging : Paging state) :
    Paging (vmmCreatePageDirectory state).2 ∧
      (∀ page < 1024 * 1024, lookup (vmmCreatePageDirectory state).2 page = lookup state page) ∧
      ∀ frame, HoldsPaging (vmmCreatePageDirectory state).2 frame ↔ HoldsPaging state frame := by
  rcases createPageDirectory_cases state with
    none | ⟨frame, inside, free, _, same, used, frameOnly⟩
  · rw [none]
    exact ⟨paging, fun _ _ => rfl, fun _ => Iff.rfl⟩
  · have agree : Set.EqOn (vmmCreatePageDirectory state).2.memory state.memory
        (pagingBytes state) := by
      intro location inPaging
      apply frameOnly
      intro inFrame
      exact paging.notMem_pagingBytes free inFrame inPaging
    have directory := agree.mono fun _ inDirectory => Or.inl inDirectory
    refine ⟨paging.congr same directory ?_, ?_, ?_⟩
    · intro other usedBefore
      simp [used other, usedBefore]
    · intro page pageInside
      exact lookup_congr pageInside same agree
    · exact fun frame =>
        holdsPaging_congr same fun slot inside => directoryEntry_congr inside same directory

theorem Call.run_paging (paging : Paging state) (call : Call) : Paging (call.run state) := by
  cases call with
  | mapPage virtual physical flags => exact paging.vmmMapPage virtual.isLt
  | createPageDirectory => exact (createPageDirectory_spec paging).1

theorem lookup_run (paging : Paging state) (calls : List Call) (pageInside : page < 1024 * 1024) :
    Paging (calls.foldl Call.run state) ∧
      lookup (calls.foldl Call.run state) page =
        (lastServed page state calls).or (lookup state page) := by
  induction calls generalizing state with
  | nil => exact ⟨paging, by simp [lastServed]⟩
  | cons call calls ih =>
    rcases ih (call.run_paging paging) with ⟨after, translated⟩
    refine ⟨after, ?_⟩
    rw [List.foldl_cons, translated, lastServed, Option.or_assoc]
    congr 1
    cases call with
    | mapPage virtual physical flags =>
      simp only [Call.run, Call.serve]
      by_cases served : Served state virtual
      · rw [(vmmMapPage_of_served paging virtual.isLt served).2 page pageInside]
        by_cases same : page = virtual / pageSize
        · simp [same, served]
        · have other : ¬(virtual.val / pageSize = page ∧ Served state virtual) := by
            rintro ⟨equal, _⟩
            exact same equal.symm
          simp [same, other]
      · simp [vmmMapPage_of_not_served paging served, served]
    | createPageDirectory =>
      simp [Call.run, Call.serve, (createPageDirectory_spec paging).2.1 page pageInside]

theorem frameUsed_initialFrames :
    frameUsed (initialFrames state) frame = decide (frame < 1024) := by
  have marked (count : ℕ) :
      frameUsed (Nat.fold count (fun frame _ state => markFrame state frame)
        { state with frameBitmap := fun _ => 0 }) frame = decide (frame < count) := by
    induction count with
    | zero => simp [frameUsed, Bitmap.test_zero]
    | succ count ih =>
      rw [Nat.fold_succ, frameUsed_markFrame, ih]
      grind
  have first : 0x400000 / pageSize = 1024 := rfl
  simp only [frameUsed] at marked
  simp only [frameUsed, initialFrames, first, marked]

theorem HandedOut.vmmMapPage {count virtual physical flags : ℕ} (handed : HandedOut count state)
    (paging : Paging state) (word : virtual < 2 ^ 32) :
    HandedOut (count + if ¬HasTable state (pageDirectoryIndex virtual) then 1 else 0)
      (vmmMapPage state virtual physical flags) := by
  by_cases present : HasTable state (pageDirectoryIndex virtual)
  · rw [if_neg (not_not.mpr present), vmmMapPage_of_hasTable paging word present]
    exact handed.congr rfl rfl
  · rw [if_pos present]
    by_cases inside : count < maxFrames
    · have free : frameUsed state count = false := by simp [handed.used count inside]
      rw [vmmMapPage_of_alloc paging present free inside (handed.allocFrame_eq inside)]
      exact handed.takeFrame.congr rfl rfl
    · have exhausted := handed.allocFrame_exhausted (not_lt.mp inside)
      rw [vmmMapPage_of_not_served paging (by simp [Served, present, exhausted])]
      exact handed.exhausted_succ (not_lt.mp inside)

theorem hasTable_vmmMapPage {virtual physical flags slot : ℕ} (paging : Paging state)
    (word : virtual < 2 ^ 32)
    (served : Served state virtual) (inside : slot < 1024) :
    HasTable (vmmMapPage state virtual physical flags) slot ↔
      HasTable state slot ∨ slot = pageDirectoryIndex virtual := by
  have slotInside := pageDirectoryIndex_lt word
  have indexInside := pageTableIndex_lt virtual
  by_cases present : HasTable state (pageDirectoryIndex virtual)
  · rw [vmmMapPage_of_hasTable paging word present, HasTable,
      directoryEntry_setEntry paging slotInside present indexInside inside]
    constructor
    · exact Or.inl
    · rintro (before | rfl)
      · exact before
      · exact present
  · rcases allocFrame_cases state with ⟨none, _⟩ | ⟨frame, frameInside, free, found⟩
    · rw [Served, none] at served
      exact absurd rfl (served.resolve_left present)
    · have added := @hasTable_addTable_self state (pageDirectoryIndex virtual) frame frameInside
      rw [vmmMapPage_of_alloc paging present free frameInside found, HasTable,
        directoryEntry_setEntry (paging.addTable free frameInside) slotInside added indexInside
          inside]
      by_cases same : slot = pageDirectoryIndex virtual
      · rw [same]
        exact iff_of_true added (Or.inr rfl)
      · rw [directoryEntry_addTable_of_ne paging free inside same]
        exact (or_iff_left same).symm

/-- The state in which `vmm_init` starts to map: its directory is a cleared frame. -/
def emptyDirectory (state : State) (frame : ℕ) : State :=
  { takeFrame state frame with
    memory := fillWords state.memory (frame * pageSize) 0 1024
    kernelPageDirectory := frame * pageSize
    currentPageDirectory := frame * pageSize }

theorem frameUsed_emptyDirectory {other : ℕ} :
    frameUsed (emptyDirectory state frame) other =
      (decide (other = frame) || frameUsed state other) :=
  Bitmap.test_set

theorem directoryEntry_emptyDirectory {slot : ℕ} (inside : slot < 1024) :
    directoryEntry (emptyDirectory state frame) slot = 0 :=
  read32_fillWords inside

theorem not_hasTable_emptyDirectory {slot : ℕ} (inside : slot < 1024) :
    ¬HasTable (emptyDirectory state frame) slot := by
  rw [HasTable, directoryEntry_emptyDirectory inside]
  exact not_not.mpr rfl

theorem paging_emptyDirectory (zero_used : frameUsed state 0 = true) (positive : 0 < frame)
    (inside : frame < maxFrames) : Paging (emptyDirectory state frame) := by
  have current : (emptyDirectory state frame).currentPageDirectory = frame * pageSize := rfl
  have quotient : frame * pageSize / pageSize = frame := Nat.mul_div_cancel _ (by decide)
  refine ⟨?_, ?_, ?_, ?_, ?_⟩
  · simp [frameUsed_emptyDirectory, zero_used]
  · simp [current]
  · rintro other (rfl | ⟨slot, slotInside, present, -⟩)
    · rw [current, quotient]
      exact ⟨positive.ne', inside, by simp [frameUsed_emptyDirectory]⟩
    · exact absurd present (not_hasTable_emptyDirectory slotInside)
  · exact fun slot slotInside present => absurd present (not_hasTable_emptyDirectory slotInside)
  · exact fun slot slotInside _ _ present =>
      absurd present (not_hasTable_emptyDirectory slotInside)

theorem initialFrames_cursor (state : State) : (initialFrames state).nextFreeFrame = 1024 := by
  simp only [initialFrames, pageSize]

theorem initialFrames_handedOut (state : State) : HandedOut 1024 (initialFrames state) :=
  ⟨fun _ => initialFrames_cursor state, fun _ _ => frameUsed_initialFrames⟩

/-- The first frame becomes the directory. -/
abbrev firstDirectory (initial : State) : State := emptyDirectory (initialFrames initial) 1024

theorem handedOut_firstDirectory (initial : State) : HandedOut 1025 (firstDirectory initial) :=
  (initialFrames_handedOut initial).takeFrame.congr rfl rfl

theorem paging_firstDirectory (initial : State) : Paging (firstDirectory initial) := by
  refine paging_emptyDirectory ?_ (by decide) (by decide)
  rw [frameUsed_initialFrames]
  rfl

/-- The loop of `vmm_init`, which maps the first pages to themselves. -/
def identityMap (state : State) (count : ℕ) : State :=
  Nat.fold count
    (fun page _ state =>
      vmmMapPage state (page * pageSize) (page * pageSize) (pagePresent ||| pageWrite))
    state

theorem identityMap_succ (count : ℕ) :
    identityMap state (count + 1) =
      vmmMapPage (identityMap state count) (count * pageSize) (count * pageSize)
        (pagePresent ||| pageWrite) :=
  Nat.fold_succ _ _ _

theorem identityMap_induction {property : State → Prop} (initially : property state)
    (keeps : ∀ state page, property state → page * pageSize < 2 ^ 32 →
      property (vmmMapPage state (page * pageSize) (page * pageSize) (pagePresent ||| pageWrite)))
    {count : ℕ} (small : count * pageSize ≤ 2 ^ 32) : property (identityMap state count) := by
  induction count with
  | zero => exact initially
  | succ count ih =>
    have smaller : count * pageSize < 2 ^ 32 := by
      simp only [pageSize] at small ⊢
      omega
    rw [identityMap_succ]
    exact keeps _ count (ih smaller.le) smaller

theorem vmmInit_eq (state : State) :
    vmmInit state = identityMap (firstDirectory state) (0x800000 / pageSize) := by
  have found := (initialFrames_handedOut state).allocFrame_eq (by decide)
  have positive : 1024 * pageSize ≠ 0 := by decide
  rw [vmmInit, found]
  dsimp only
  rw [if_neg positive, takeFrame_memory, firstDirectory, emptyDirectory, identityMap]

theorem identityMap_spec (initial : State) {pages : ℕ} (small : pages ≤ 2048) :
    HandedOut (1025 + (pages + 1023) / 1024) (identityMap (firstDirectory initial) pages) ∧
      Paging (identityMap (firstDirectory initial) pages) ∧
      (∀ slot < 1024,
        HasTable (identityMap (firstDirectory initial) pages) slot ↔ slot * 1024 < pages) ∧
      ∀ page < 1024 * 1024, lookup (identityMap (firstDirectory initial) pages) page =
        if page < pages then some (page * pageSize) else none := by
  induction pages with
  | zero =>
    refine ⟨handedOut_firstDirectory initial, paging_firstDirectory initial,
      fun slot inside => ?_, fun page inside => ?_⟩
    · exact iff_of_false (not_hasTable_emptyDirectory inside) (by omega)
    · rw [if_neg (by omega), identityMap, Nat.fold_zero, lookup,
        if_pos (not_ne_iff.mp (not_hasTable_emptyDirectory (by omega)))]
  | succ pages ih =>
    rcases ih (by omega) with ⟨handedBefore, pagingBefore, tables, translated⟩
    have word : pages * pageSize < 2 ^ 32 := by
      simp only [pageSize]
      omega
    have quotient : pages * pageSize / pageSize = pages := Nat.mul_div_cancel _ (by decide)
    have slot : pageDirectoryIndex (pages * pageSize) = pages / 1024 := by
      rw [pageDirectoryIndex_eq, quotient]
    have present := tables (pages / 1024) (by omega)
    have served : Served (identityMap (firstDirectory initial) pages) (pages * pageSize) := by
      rw [Served, slot, present]
      by_cases inTable : pages / 1024 * 1024 < pages
      · exact Or.inl inTable
      · right
        rw [handedBefore.allocFrame_eq (by simp only [maxFrames]; omega)]
        exact mul_ne_zero (by omega) (by decide)
    have handedAfter := @HandedOut.vmmMapPage _ _ (pages * pageSize) (pages * pageSize)
      (pagePresent ||| pageWrite) handedBefore pagingBefore word
    rcases vmmMapPage_of_served pagingBefore word served with ⟨pagingAfter, translatedAfter⟩
    rw [identityMap_succ]
    refine ⟨?_, pagingAfter, fun other inside => ?_, fun page pageInside => ?_⟩
    · simp only [slot, present] at handedAfter
      have counted : 1025 + (pages + 1023) / 1024 +
          (if ¬pages / 1024 * 1024 < pages then 1 else 0) =
            1025 + (pages + 1 + 1023) / 1024 := by
        split <;> omega
      rwa [counted] at handedAfter
    · rw [hasTable_vmmMapPage pagingBefore word served inside, tables other inside, slot]
      omega
    · have own : pages * pageSize &&& Word32.not 0xFFF = pages * pageSize := by
        rw [and_not_0xFFF, Nat.mod_eq_of_lt word, quotient]
      rw [translatedAfter page pageInside, translated page pageInside, own, quotient]
      grind

theorem vmmInit_tables (initial : State) :
    HandedOut 1027 (vmmInit initial) ∧ Paging (vmmInit initial) ∧
      (∀ slot < 1024, HasTable (vmmInit initial) slot ↔ slot * 1024 < 2048) ∧
      ∀ page < 1024 * 1024, lookup (vmmInit initial) page =
        if page < 0x800000 / pageSize then some (page * pageSize) else none := by
  rw [vmmInit_eq]
  exact identityMap_spec initial le_rfl

/-- After any calls, an address translates as the last served call for its page says; without one,
the first 8 MB translate to themselves and the rest to nothing. A call that is not served changes
no translation. -/
theorem vmmGetPhysical_after_calls (initial : State) (calls : List Call) :
    (∀ address : Fin (2 ^ 32),
      vmmGetPhysical (calls.foldl Call.run (vmmInit initial)) address =
        match lastServed (address.val / pageSize) (vmmInit initial) calls with
        | some base => base ||| (address.val &&& 0xFFF)
        | none => if address.val < 0x800000 then address.val else 0) ∧
    ∀ virtual physical flags : Fin (2 ^ 32),
      Served (calls.foldl Call.run (vmmInit initial)) virtual ∨
      ∀ address : Fin (2 ^ 32),
        vmmGetPhysical
          ((Call.mapPage virtual physical flags).run (calls.foldl Call.run (vmmInit initial)))
          address =
        vmmGetPhysical (calls.foldl Call.run (vmmInit initial)) address := by
  rcases vmmInit_tables initial with ⟨-, paging, -, identity⟩
  constructor
  · intro address
    have pageInside : address.val / pageSize < 1024 * 1024 := by
      simp only [pageSize]
      omega
    rcases lookup_run paging calls pageInside with ⟨pagingAfter, translated⟩
    rw [vmmGetPhysical_eq pagingAfter address.isLt, translated, identity _ pageInside]
    cases lastServed (address.val / pageSize) (vmmInit initial) calls with
    | some base => rfl
    | none =>
      have split : address.val / pageSize * pageSize ||| (address.val &&& 0xFFF) =
          address.val := by
        have combined := @Word32.mul_or_eq_add 12 (address.val / pageSize)
          (address.val % pageSize) (Nat.mod_lt _ (by decide))
        rw [Nat.mul_comm, show address.val &&& 0xFFF = address.val % pageSize from
          Nat.and_two_pow_sub_one_eq_mod _ 12]
        exact combined.trans (Nat.div_add_mod _ _)
      by_cases low : address.val < 0x800000
      · have lowPage : address.val / pageSize < 0x800000 / pageSize := by
          simp only [pageSize]
          omega
        simp only [Option.none_or, if_pos lowPage, if_pos low, split]
      · have highPage : ¬address.val / pageSize < 0x800000 / pageSize := by
          simp only [pageSize]
          omega
        simp only [Option.none_or, if_neg highPage, if_neg low]
  · intro virtual physical flags
    have pagingAfter := (lookup_run paging calls (by decide : 0 < 1024 * 1024)).1
    by_cases served : Served (calls.foldl Call.run (vmmInit initial)) virtual
    · exact Or.inl served
    · right
      intro address
      rw [Call.run, vmmMapPage_of_not_served pagingAfter served]

end RamOS.Vmm
