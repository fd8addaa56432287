import RamOS.Vmm.Runs

/-!
# The memory manager while paging is on

The last step of `vmm_init` turns paging on. From then on the memory manager reaches the
directory, the page tables and new frames through the page tables themselves: it uses their
physical addresses, but the processor translates these like any others, and an address that is not
mapped ends the call with a page fault. The accesses are those of a kernel without write
protection, for which only the present bits count, and every change of an entry is followed by an
`invlpg` of its page, so that no translation is older than the tables.

Where the directory, its tables and a new frame are mapped to themselves, all this makes no
difference: the functions below then do what those of `Vmm.Model` do.
-/

namespace RamOS.Vmm

open ByteMemory

def translate (state : State) (address : ℕ) : Option ℕ :=
  (lookup state (address / pageSize)).map (· + address % pageSize)

def loadWord (state : State) (address : ℕ) : Option ℕ :=
  (translate state address).map (read32 state.memory)

def storeWord (state : State) (address value : ℕ) : Option State :=
  (translate state address).map fun place =>
    { state with memory := write32 state.memory place value }

def clearEntries (state : State) (base : ℕ) : ℕ → Option State
  | 0 => some state
  | count + 1 => do
    let state ← clearEntries state base count
    storeWord state (base + 4 * count) 0

def copyEntries (state : State) (base source : ℕ) : ℕ → Option State
  | 0 => some state
  | count + 1 => do
    let state ← copyEntries state base source count
    let entry ← loadWord state (source + 4 * count)
    storeWord state (base + 4 * count) entry

namespace Paged

def vmmGetPage (state : State) (virtual : ℕ) (create : Bool) (directory : ℕ) :
    Option (ℕ × State) :=
  if directory = 0 then some (0, state)
  else do
    let slot := directory + 4 * pageDirectoryIndex virtual
    let offset := 4 * pageTableIndex virtual
    let entry ← loadWord state slot
    if entry &&& pagePresent = 0 then
      if create = false then some (0, state)
      else
        match allocFrame state with
        | (table, state) =>
          if table = 0 then some (0, state)
          else do
            let state ← clearEntries state table 1024
            let state ← storeWord state slot (table ||| pagePresent ||| pageWrite)
            let entry ← loadWord state slot
            some (physicalAddress entry + offset, state)
    else do
      let entry ← loadWord state slot
      some (physicalAddress entry + offset, state)

def vmmMapPage (state : State) (virtual physical flags : ℕ) : Option State := do
  let (page, state) ← vmmGetPage state virtual true state.currentPageDirectory
  if page = 0 then some state
  else storeWord state page ((physical &&& Word32.not 0xFFF) ||| (flags &&& 0xFFF) ||| pagePresent)

def vmmUnmapPage (state : State) (virtual : ℕ) : Option State := do
  let (page, state) ← vmmGetPage state virtual false state.currentPageDirectory
  if page = 0 then some state
  else
    let entry ← loadWord state page
    let physical := physicalAddress entry
    let state := if physical = 0 then state else freeFrame state physical
    storeWord state page 0

def vmmCreatePageDirectory (state : State) : Option (ℕ × State) :=
  match allocFrame state with
  | (directory, state) =>
    if directory = 0 then some (0, state)
    else do
      let state ← clearEntries state directory 1024
      let state ←
        if state.kernelPageDirectory = 0 then some state
        else copyEntries state directory state.kernelPageDirectory 512
      some (directory, state)

end Paged

/-- The directory and its page tables are mapped to themselves. -/
def SelfMapped (state : State) : Prop :=
  ∀ frame, HoldsPaging state frame → lookup state frame = some (frame * pageSize)

/-- The frame that `alloc_frame` would hand out is mapped to itself. -/
def NextMapped (state : State) : Prop :=
  (allocFrame state).1 ≠ 0 →
    lookup state ((allocFrame state).1 / pageSize) = some (allocFrame state).1

/-- A mapping of a page at which the directory or a page table lies is one to itself. -/
def SparesTables (state : State) (virtual physical : ℕ) : Prop :=
  HoldsPaging state (virtual / pageSize) → physical / pageSize = virtual / pageSize

variable {state : State} {frame source count address virtual physical flags slot index : ℕ}
  {memory : Memory}

section Accesses

variable (self : lookup state frame = some (frame * pageSize))
  (inside : address / pageSize = frame)

include self inside

theorem translate_self : translate state address = some address := by
  rw [translate, inside, self, Option.map_some, ← inside, Nat.div_add_mod']

theorem loadWord_self : loadWord state address = some (read32 state.memory address) := by
  rw [loadWord, translate_self self inside, Option.map_some]

theorem storeWord_self (value : ℕ) :
    storeWord state address value =
      some { state with memory := write32 state.memory address value } := by
  rw [storeWord, translate_self self inside, Option.map_some]

end Accesses

theorem lookup_of_agree {page : ℕ} (inside : page < 1024 * 1024)
    (agree : Set.EqOn memory state.memory (pagingBytes state)) :
    lookup { state with memory := memory } page = lookup state page :=
  @lookup_congr state { state with memory := memory } page inside rfl agree

theorem word_in_frame (inside : index < 1024) :
    (frame * pageSize + 4 * index) / pageSize = frame := by
  simp only [pageSize]
  omega

theorem directory_word (paging : Paging state) (inside : slot < 1024) :
    (state.currentPageDirectory + 4 * slot) / pageSize =
      state.currentPageDirectory / pageSize := by
  rw [paging.directory_eq, word_in_frame inside, Nat.mul_div_cancel _ (by decide)]

/-- A frame that is mapped to itself and is apart from the tables. -/
structure Writable (state : State) (frame : ℕ) : Prop where
  self : lookup state frame = some (frame * pageSize)
  inside : frame < 1024 * 1024
  apart : Disjoint (range (frame * pageSize) pageSize) (pagingBytes state)

theorem Writable.of_free (paging : Paging state) (free : frameUsed state frame = false)
    (inside : frame < maxFrames) (self : lookup state frame = some (frame * pageSize)) :
    Writable (takeFrame state frame) frame := by
  exact ⟨self, inside.trans (by decide), Set.disjoint_left.mpr fun location inFrame =>
    paging.notMem_pagingBytes free inFrame⟩

/-- What is stored into such a frame leaves the bytes of the tables as they are. -/
theorem Writable.agree {changed : Memory} (writable : Writable state frame)
    (agree : Set.EqOn memory state.memory (pagingBytes state)) (small : count ≤ 1024)
    (outside : Set.EqOn changed memory (range (frame * pageSize) (4 * count))ᶜ) :
    Set.EqOn changed state.memory (pagingBytes state) := by
  have apart : pagingBytes state ⊆ (range (frame * pageSize) (4 * count))ᶜ := by
    intro location inTables inFrame
    refine Set.disjoint_left.mp writable.apart ?_ inTables
    exact range_subset_range le_rfl (by simp only [pageSize]; omega) inFrame
  exact (outside.mono apart).trans agree

theorem clearEntries_eq (writable : Writable state frame)
    (agree : Set.EqOn memory state.memory (pagingBytes state)) (small : count ≤ 1024) :
    clearEntries { state with memory := memory } (frame * pageSize) count =
      some { state with memory := fillWords memory (frame * pageSize) 0 count } := by
  induction count with
  | zero => rfl
  | succ count ih =>
    have kept := writable.agree agree (by omega) (fillWords_eqOn memory (frame * pageSize) 0 count)
    rw [clearEntries, ih (by omega)]
    exact storeWord_self ((lookup_of_agree writable.inside kept).trans writable.self)
      (word_in_frame (by omega)) 0

theorem Writable.clears (writable : Writable (takeFrame state frame) frame) :
    clearEntries (takeFrame state frame) (frame * pageSize) 1024 =
      some { takeFrame state frame with
        memory := fillWords state.memory (frame * pageSize) 0 1024 } :=
  @clearEntries_eq (takeFrame state frame) frame 1024 state.memory writable (Set.eqOn_refl _ _)
    le_rfl

theorem Writable.cleared_agree (writable : Writable (takeFrame state frame) frame) :
    Set.EqOn (fillWords state.memory (frame * pageSize) 0 1024) state.memory (pagingBytes state) :=
  @Writable.agree (takeFrame state frame) frame 1024 state.memory _ writable (Set.eqOn_refl _ _)
    le_rfl (fillWords_eqOn _ _ 0 1024)

theorem copyEntries_eq (writable : Writable state frame)
    (sourceSelf : lookup state source = some (source * pageSize))
    (sourceInside : source < 1024 * 1024)
    (agree : Set.EqOn memory state.memory (pagingBytes state)) (small : count ≤ 1024) :
    copyEntries { state with memory := memory } (frame * pageSize) (source * pageSize) count =
      some { state with
        memory := copyWords memory (frame * pageSize) (source * pageSize) count } := by
  induction count with
  | zero => rfl
  | succ count ih =>
    have kept := writable.agree agree (by omega)
      (copyWords_eqOn memory (frame * pageSize) (source * pageSize) count)
    have sameSource := (lookup_of_agree sourceInside kept).trans sourceSelf
    have sameFrame := (lookup_of_agree writable.inside kept).trans writable.self
    rw [copyEntries, ih (by omega)]
    simp only [Option.bind_eq_bind, Option.bind_some,
      loadWord_self sameSource (word_in_frame (by omega : count < 1024))]
    exact storeWord_self sameFrame (word_in_frame (by omega)) _

/-- A page fault: the first entry of the frame cannot be written. -/
theorem clearEntries_of_unmapped (unmapped : lookup state frame = none) (positive : 0 < count) :
    clearEntries state (frame * pageSize) count = none := by
  have quotient : frame * pageSize / pageSize = frame := Nat.mul_div_cancel _ (by decide)
  induction count with
  | zero => exact absurd positive (Nat.lt_irrefl 0)
  | succ count ih =>
    rw [clearEntries]
    cases count with
    | zero =>
      simp only [clearEntries, Option.bind_eq_bind, Option.bind_some, Nat.mul_zero, Nat.add_zero,
        storeWord, translate, quotient, unmapped, Option.map_none]
    | succ count => rw [ih (Nat.succ_pos count), Option.bind_eq_bind, Option.bind_none]

theorem nextMapped_iff (found : allocFrame state = (frame * pageSize, takeFrame state frame))
    (nonzero : frame ≠ 0) : NextMapped state ↔ lookup state frame = some (frame * pageSize) := by
  have positive : frame * pageSize ≠ 0 := mul_ne_zero nonzero (by decide)
  rw [NextMapped, found, Nat.mul_div_cancel _ (by decide : 0 < pageSize)]
  exact ⟨fun mapped => mapped positive, fun mapped _ => mapped⟩

section Functions

variable (paging : Paging state) (self : SelfMapped state)

include paging self

theorem loadWord_directory (inside : slot < 1024) :
    loadWord state (state.currentPageDirectory + 4 * slot) = some (directoryEntry state slot) :=
  loadWord_self (self _ (Or.inl rfl)) (directory_word paging inside)

theorem Paged.vmmGetPage_eq {create : Bool} (word : virtual < 2 ^ 32)
    (next : create = true → ¬HasTable state (pageDirectoryIndex virtual) → NextMapped state) :
    Paged.vmmGetPage state virtual create state.currentPageDirectory =
      some (Vmm.vmmGetPage state virtual create state.currentPageDirectory) := by
  have notNull : state.currentPageDirectory ≠ 0 := paging.directory_pos.ne'
  have slotInside := pageDirectoryIndex_lt word
  have directory := self _ (Or.inl rfl)
  have directoryInside : state.currentPageDirectory / pageSize < 1024 * 1024 :=
    paging.directory.2.1.trans (by decide)
  have loads := loadWord_directory paging self slotInside
  simp only [Paged.vmmGetPage, if_neg notNull, loads, Option.bind_eq_bind, Option.bind_some]
  by_cases present : HasTable state (pageDirectoryIndex virtual)
  · rw [vmmGetPage_of_hasTable paging present, ← physicalAddress_directoryEntry, if_neg present]
  · have absent := not_ne_iff.mp present
    cases create with
    | false => rw [vmmGetPage_of_absent paging present, if_pos absent, if_pos rfl]
    | true =>
      rcases allocFrame_cases state with ⟨none, _⟩ | ⟨frame, inside, free, found⟩
      · rw [vmmGetPage_of_exhausted present none]
        simp only [if_pos absent, Bool.true_eq_false, if_false, none, if_true]
      · have mapped := (nextMapped_iff found (paging.nonzero_of_free free)).mp (next rfl present)
        have writable := Writable.of_free paging free inside mapped
        have stored : storeWord { takeFrame state frame with
              memory := fillWords state.memory (frame * pageSize) 0 1024 }
            (state.currentPageDirectory + 4 * pageDirectoryIndex virtual)
            (frame * pageSize ||| pagePresent ||| pageWrite) =
              some (addTable state (pageDirectoryIndex virtual) frame) :=
          storeWord_self ((@lookup_of_agree (takeFrame state frame) _ _ directoryInside
            writable.cleared_agree).trans directory) (directory_word paging slotInside) _
        have loaded : loadWord (addTable state (pageDirectoryIndex virtual) frame)
            (state.currentPageDirectory + 4 * pageDirectoryIndex virtual) =
              some (directoryEntry (addTable state (pageDirectoryIndex virtual) frame)
                (pageDirectoryIndex virtual)) :=
          loadWord_self ((lookup_addTable paging free inside slotInside present
            directoryInside).trans directory) (directory_word paging slotInside)
        rw [vmmGetPage_of_alloc paging present free inside found]
        simp only [if_pos absent, Bool.true_eq_false, if_false, found,
          if_neg (paging.address_ne_zero free), writable.clears, Option.bind_some, stored, loaded,
          physicalAddress_directoryEntry, tableFrame_addTable_self inside]

theorem Paged.vmmMapPage_eq (word : virtual < 2 ^ 32)
    (next : ¬HasTable state (pageDirectoryIndex virtual) → NextMapped state) :
    Paged.vmmMapPage state virtual physical flags =
      some (Vmm.vmmMapPage state virtual physical flags) := by
  have slotInside := pageDirectoryIndex_lt word
  have inTable (frame : ℕ) := @word_in_frame frame _ (pageTableIndex_lt virtual)
  have page := @Paged.vmmGetPage_eq _ _ paging self true word fun _ => next
  rcases found : Vmm.vmmGetPage state virtual true state.currentPageDirectory with ⟨place, after⟩
  have self : place ≠ 0 → lookup after (place / pageSize) = some (place / pageSize * pageSize) := by
    intro notNull
    by_cases present : HasTable state (pageDirectoryIndex virtual)
    · cases found.symm.trans (vmmGetPage_of_hasTable paging present)
      rw [inTable]
      exact self _ (Or.inr ⟨_, slotInside, present, rfl⟩)
    · rcases allocFrame_cases state with ⟨none, _⟩ | ⟨frame, inside, free, taken⟩
      · cases found.symm.trans (vmmGetPage_of_exhausted present none)
        exact absurd rfl notNull
      · cases found.symm.trans (vmmGetPage_of_alloc paging present free inside taken)
        rw [inTable, lookup_addTable paging free inside slotInside present
          (inside.trans (by decide))]
        exact (nextMapped_iff taken (paging.nonzero_of_free free)).mp (next present)
  rw [Vmm.vmmMapPage_eq found, Paged.vmmMapPage, page, found]
  simp only [Option.bind_eq_bind, Option.bind_some]
  split
  next => rfl
  next notNull => exact storeWord_self (self notNull) rfl _

theorem Paged.vmmCreatePageDirectory_eq
    (kernel : state.kernelPageDirectory = state.currentPageDirectory) (next : NextMapped state) :
    Paged.vmmCreatePageDirectory state = some (Vmm.vmmCreatePageDirectory state) := by
  rcases allocFrame_cases state with ⟨none, _⟩ | ⟨frame, inside, free, found⟩
  · simp only [Paged.vmmCreatePageDirectory, Vmm.vmmCreatePageDirectory, none, if_true]
  · have mapped := (nextMapped_iff found (paging.nonzero_of_free free)).mp next
    have writable := Writable.of_free paging free inside mapped
    have notNull : (takeFrame state frame).kernelPageDirectory ≠ 0 := by
      change state.kernelPageDirectory ≠ 0
      rw [kernel]
      exact paging.directory_pos.ne'
    have copied : copyEntries { takeFrame state frame with
          memory := fillWords state.memory (frame * pageSize) 0 1024 } (frame * pageSize)
          (takeFrame state frame).kernelPageDirectory 512 =
        some { takeFrame state frame with
          memory := copyWords (fillWords state.memory (frame * pageSize) 0 1024)
            (frame * pageSize) (takeFrame state frame).kernelPageDirectory 512 } := by
      rw [show (takeFrame state frame).kernelPageDirectory = _ from
        kernel.trans paging.directory_eq]
      exact copyEntries_eq writable (self _ (Or.inl rfl)) (paging.directory.2.1.trans (by decide))
        writable.cleared_agree (by decide)
    simp only [Paged.vmmCreatePageDirectory, Vmm.vmmCreatePageDirectory, found,
      if_neg (paging.address_ne_zero free), writable.clears, copied, if_neg notNull,
      Option.bind_eq_bind, Option.bind_some, takeFrame_memory]

end Functions

section Invariant

theorem not_served_lookup (absent : ¬HasTable state (pageDirectoryIndex virtual)) :
    lookup state (virtual / pageSize) = none := by
  rw [HasTable, not_ne_iff, pageDirectoryIndex_eq] at absent
  rw [lookup, if_pos absent]

theorem holdsPaging_vmmMapPage (paging : Paging state) (word : virtual < 2 ^ 32)
    (holds : HoldsPaging (vmmMapPage state virtual physical flags) frame) :
    HoldsPaging state frame ∨ ¬HasTable state (pageDirectoryIndex virtual) ∧
      allocFrame state = (frame * pageSize, takeFrame state frame) := by
  have slotInside := pageDirectoryIndex_lt word
  have indexInside := pageTableIndex_lt virtual
  by_cases present : HasTable state (pageDirectoryIndex virtual)
  · rw [vmmMapPage_of_hasTable paging word present] at holds
    exact Or.inl ((holdsPaging_setEntry paging slotInside present indexInside).mp holds)
  · rcases allocFrame_cases state with ⟨none, _⟩ | ⟨new, inside, free, found⟩
    · rw [vmmMapPage_of_not_served paging (by simp [Served, present, none])] at holds
      exact Or.inl holds
    · rw [vmmMapPage_of_alloc paging present free inside found] at holds
      have added := (holdsPaging_setEntry (paging.addTable free inside) slotInside
        (hasTable_addTable_self inside) indexInside).mp holds
      rcases added with directory | ⟨slot, slotIn, isPresent, rfl⟩
      · exact Or.inl (Or.inl directory)
      · rcases paging.tableFrame_addTable_cases free inside slotIn isPresent with
          ⟨_, isNew⟩ | ⟨_, before, same⟩
        · exact Or.inr ⟨present, by rw [isNew]; exact found⟩
        · exact Or.inl (Or.inr ⟨slot, slotIn, before, same.symm⟩)

theorem SelfMapped.vmmMapPage (self : SelfMapped state) (paging : Paging state)
    (word : virtual < 2 ^ 32) (physicalWord : physical < 2 ^ 32)
    (spares : SparesTables state virtual physical)
    (next : ¬HasTable state (pageDirectoryIndex virtual) → NextMapped state) :
    SelfMapped (vmmMapPage state virtual physical flags) := by
  by_cases served : Served state virtual
  · rcases @vmmMapPage_of_served _ _ physical flags paging word served with ⟨after, translated⟩
    intro frame holds
    have inside : frame < 1024 * 1024 := (after.frames frame holds).2.1.trans (by decide)
    rw [translated frame inside]
    rcases holdsPaging_vmmMapPage paging word holds with before | ⟨absent, found⟩
    · split
      next here =>
        rw [SparesTables, ← here] at spares
        rw [and_not_0xFFF, Nat.mod_eq_of_lt physicalWord, spares before]
      next => exact self frame before
    · have mapped := (nextMapped_iff found (after.frames frame holds).1).mp (next absent)
      -- the page of the new table is mapped, while that of the call has no table yet
      have other : frame ≠ virtual / pageSize := by
        intro here
        rw [here, not_served_lookup absent] at mapped
        cases mapped
      rw [if_neg other, mapped]
  · rwa [vmmMapPage_of_not_served paging served]

theorem SelfMapped.createPageDirectory (self : SelfMapped state) (paging : Paging state) :
    SelfMapped (vmmCreatePageDirectory state).2 := by
  rcases createPageDirectory_spec paging with ⟨after, translated, tables⟩
  intro frame holds
  have inside : frame < 1024 * 1024 := (after.frames frame holds).2.1.trans (by decide)
  rw [translated frame inside]
  exact self frame ((tables frame).mp holds)

theorem selfMapped_vmmInit (initial : State) : SelfMapped (vmmInit initial) := by
  rcases vmmInit_tables initial with ⟨handed, paging, -, identity⟩
  intro frame holds
  rcases paging.frames frame holds with ⟨-, inside, used⟩
  rw [handed.used frame inside, decide_eq_true_eq] at used
  have low : frame < 0x800000 / pageSize := used.trans (by decide)
  rw [identity frame (inside.trans (by decide)), if_pos low]

theorem vmmInit_directories (initial : State) :
    (vmmInit initial).currentPageDirectory = 1024 * pageSize ∧
      (vmmInit initial).kernelPageDirectory = 1024 * pageSize := by
  rw [vmmInit_eq]
  refine (@identityMap_induction _ (fun state => Paging state ∧
    state.currentPageDirectory = 1024 * pageSize ∧ state.kernelPageDirectory = 1024 * pageSize)
    ⟨paging_firstDirectory initial, rfl, rfl⟩ ?_ (0x800000 / pageSize) (by decide)).2
  rintro state page ⟨paging, current, kernel⟩ word
  rw [(vmmMapPage_directories paging word).1, (vmmMapPage_directories paging word).2]
  exact ⟨paging.vmmMapPage word, current, kernel⟩

end Invariant

/-- The variables of the memory manager before `vmm_init`. -/
def blank : State :=
  { memory := fun _ => 0
    frameBitmap := fun _ => 0
    nextFreeFrame := 0
    currentPageDirectory := 0
    kernelPageDirectory := 0 }

end RamOS.Vmm
