import RamOS.Lib.Runs
import RamOS.Vmm.Paged

/-!
# Unmapping pages

`vmm_unmap_page` gives the frame of a page back to the allocator and clears the entry of the
page. It does not ask who else uses the frame: the identity mapping that `vmm_init` sets up
covers the frames of the page directory and of its page tables, and nothing keeps two pages from
sharing a frame.

The calls are made while paging is on, so that a run goes through the page tables it changes.
-/

namespace RamOS.Vmm

open ByteMemory

variable {state : State} {slot index page frame entry virtual physical flags : ℕ}

/-- Calls that map and unmap pages. Arguments are 32-bit words. -/
inductive PageCall
  | mapPage (virtual physical flags : Fin (2 ^ 32))
  | unmapPage (virtual : Fin (2 ^ 32))

/-- A call made with paging on, `none` if it ends with a page fault. -/
def PageCall.run (state : State) : PageCall → Option State
  | .mapPage virtual physical flags => Paged.vmmMapPage state virtual physical flags
  | .unmapPage virtual => Paged.vmmUnmapPage state virtual

/-- The state after the first calls of a run, if none of them faults. -/
def PageCall.reached (initial : State) (calls : List PageCall) (k : ℕ) : Option State :=
  (calls.take k).foldl (fun state call => state.bind call.run) (some (vmmInit initial))

/-- The frame holds the directory or a page table, or another page is mapped to it. -/
def NeededBeside (state : State) (page frame : ℕ) : Prop :=
  HoldsPaging state frame ∨
    ∃ other < 1024 * 1024, other ≠ page ∧ lookup state other = some (frame * pageSize)

/-- An unmapping clears the bit of no frame that is still needed. -/
def PageCall.KeepsNeeded (state : State) : PageCall → Prop
  | .mapPage _ _ _ => True
  | .unmapPage virtual =>
    ∀ after ∈ Paged.vmmUnmapPage state virtual, ∀ frame,
      NeededBeside state (virtual / pageSize) frame → frameUsed state frame = true →
        frameUsed after frame = true

/-- A mapping leaves the directory and its tables mapped to themselves, those it adds included. -/
def PageCall.SparesTables (state : State) : PageCall → Prop
  | .mapPage virtual physical _ =>
    Vmm.SparesTables state virtual physical ∧
      (¬HasTable state (pageDirectoryIndex virtual) → NextMapped state)
  | .unmapPage _ => True

/-- If the frame of an unmapped page is marked, nothing else needs it. -/
def PageCall.OwnsFrame (state : State) : PageCall → Prop
  | .mapPage _ _ _ => True
  | .unmapPage virtual =>
    ∀ frame, lookup state (virtual / pageSize) = some (frame * pageSize) →
      0 < frame → frame < maxFrames → frameUsed state frame = true →
        ¬NeededBeside state (virtual / pageSize) frame

def Settled (state : State) : Prop :=
  ∀ slot < 1024, HasTable state slot → ∀ index < 1024,
    tableEntry state slot index = 0 ∨ tableEntry state slot index &&& pagePresent ≠ 0

theorem Settled.addTable (settled : Settled state) (paging : Paging state)
    (free : frameUsed state frame = false) (inside : frame < maxFrames)
    (slotInside : slot < 1024) : Settled (addTable state slot frame) := by
  intro other otherInside present index indexInside
  by_cases same : other = slot
  · left
    rw [same]
    exact tableEntry_addTable_self paging free inside slotInside indexInside
  · rw [HasTable, directoryEntry_addTable_of_ne paging free otherInside same] at present
    rw [tableEntry_addTable_of_ne paging free slotInside otherInside same present indexInside]
    exact settled other otherInside present index indexInside

theorem Settled.setEntry (settled : Settled state) (paging : Paging state) (inside : slot < 1024)
    (present : HasTable state slot) (indexInside : index < 1024) (word : entry < 2 ^ 32)
    (valid : entry = 0 ∨ entry &&& pagePresent ≠ 0) :
    Settled (setEntry state slot index entry) := by
  intro other otherInside otherPresent position positionInside
  rw [HasTable, directoryEntry_setEntry paging inside present indexInside otherInside]
    at otherPresent
  rw [tableEntry_setEntry paging inside present indexInside word otherInside otherPresent
    positionInside]
  split
  · exact valid
  · exact settled other otherInside otherPresent position positionInside

/-- The tables are in order, and their entries are clear or present. -/
structure Ordered (state : State) : Prop where
  paging : Paging state
  settled : Settled state

theorem Ordered.vmmMapPage (ordered : Ordered state) (word : virtual < 2 ^ 32) :
    Ordered (vmmMapPage state virtual physical flags) := by
  rcases ordered with ⟨paging, settled⟩
  refine ⟨paging.vmmMapPage word, ?_⟩
  have slotInside := pageDirectoryIndex_lt word
  have indexInside := pageTableIndex_lt virtual
  have valid : mappedEntry physical flags = 0 ∨ mappedEntry physical flags &&& pagePresent ≠ 0 :=
    Or.inr (mappedEntry_present physical flags)
  by_cases present : HasTable state (pageDirectoryIndex virtual)
  · rw [vmmMapPage_of_hasTable paging word present]
    exact settled.setEntry paging slotInside present indexInside (mappedEntry_lt _ _) valid
  · rcases allocFrame_cases state with ⟨none, _⟩ | ⟨frame, inside, free, found⟩
    · rwa [vmmMapPage_of_not_served paging (by simp [Served, present, none])]
    · rw [vmmMapPage_of_alloc paging present free inside found]
      exact (settled.addTable paging free inside slotInside).setEntry (paging.addTable free inside)
        slotInside (hasTable_addTable_self inside) indexInside (mappedEntry_lt _ _) valid

theorem ordered_vmmInit (initial : State) : Ordered (vmmInit initial) := by
  rw [vmmInit_eq]
  refine identityMap_induction ⟨paging_firstDirectory initial, fun _ inside present => ?_⟩
    (fun _ _ ordered word => ordered.vmmMapPage word) (by decide)
  exact absurd present (not_hasTable_emptyDirectory inside)

def giveBack (state : State) (physical : ℕ) : State :=
  if physical = 0 then state else freeFrame state physical

@[simp]
theorem giveBack_memory : (giveBack state physical).memory = state.memory := by
  rw [giveBack, freeFrame]
  split_ifs <;> rfl

@[simp]
theorem giveBack_currentPageDirectory :
    (giveBack state physical).currentPageDirectory = state.currentPageDirectory := by
  rw [giveBack, freeFrame]
  split_ifs <;> rfl

@[simp]
theorem directoryEntry_giveBack :
    directoryEntry (giveBack state physical) slot = directoryEntry state slot := by
  simp only [directoryEntry, giveBack_memory, giveBack_currentPageDirectory]

@[simp]
theorem tableFrame_giveBack :
    tableFrame (giveBack state physical) slot = tableFrame state slot := by
  simp only [tableFrame, directoryEntry_giveBack]

@[simp]
theorem tableEntry_giveBack :
    tableEntry (giveBack state physical) slot index = tableEntry state slot index := by
  simp only [tableEntry, tableFrame_giveBack, giveBack_memory]

@[simp]
theorem hasTable_giveBack : HasTable (giveBack state physical) slot ↔ HasTable state slot := by
  rw [HasTable, directoryEntry_giveBack, HasTable]

@[simp]
theorem lookup_giveBack : lookup (giveBack state physical) page = lookup state page := by
  simp only [lookup, directoryEntry_giveBack, tableEntry_giveBack]

theorem frameUsed_giveBack {other : ℕ} :
    frameUsed (giveBack state (frame * pageSize)) other =
      (frameUsed state other && !decide (other = frame ∧ 0 < frame ∧ frame < maxFrames)) := by
  have quotient : frame * pageSize / pageSize = frame := Nat.mul_div_cancel _ (by decide)
  by_cases zero : frame = 0
  · simp [giveBack, zero]
  · rw [giveBack, if_neg (mul_ne_zero zero (by decide)), freeFrame, quotient]
    by_cases inside : frame < maxFrames
    · rw [if_neg (not_le.mpr inside)]
      simp [frameUsed, Bitmap.test_clear, inside, Nat.pos_of_ne_zero zero, Bool.and_comm]
    · rw [if_pos (not_lt.mp inside)]
      simp [inside]

theorem vmmUnmapPage_of_hasTable (paging : Paging state) (word : virtual < 2 ^ 32)
    (present : HasTable state (pageDirectoryIndex virtual)) :
    vmmUnmapPage state virtual =
      setEntry
        (giveBack state (physicalAddress
          (tableEntry state (pageDirectoryIndex virtual) (pageTableIndex virtual))))
        (pageDirectoryIndex virtual) (pageTableIndex virtual) 0 := by
  rw [setEntry, tableFrame_giveBack]
  simp only [vmmUnmapPage, vmmGetPage_of_hasTable paging present,
    if_neg (paging.place_ne_zero word present)]
  rfl

theorem vmmUnmapPage_of_absent (paging : Paging state)
    (absent : ¬HasTable state (pageDirectoryIndex virtual)) :
    vmmUnmapPage state virtual = state := by
  simp only [vmmUnmapPage, vmmGetPage_of_absent paging absent, if_true]

theorem Paged.vmmUnmapPage_eq (paging : Paging state) (self : SelfMapped state)
    (word : virtual < 2 ^ 32) :
    Paged.vmmUnmapPage state virtual = some (Vmm.vmmUnmapPage state virtual) := by
  have found := @Paged.vmmGetPage_eq _ _ paging self false word
    fun create => absurd create (by decide)
  by_cases present : HasTable state (pageDirectoryIndex virtual)
  · have inTable : (tableFrame state (pageDirectoryIndex virtual) * pageSize +
        4 * pageTableIndex virtual) / pageSize = tableFrame state (pageDirectoryIndex virtual) :=
      word_in_frame (pageTableIndex_lt virtual)
    have table := self _ (Or.inr ⟨_, pageDirectoryIndex_lt word, present, rfl⟩)
    rw [vmmGetPage_of_hasTable paging present] at found
    rw [vmmUnmapPage_of_hasTable paging word present, setEntry, tableFrame_giveBack,
      Paged.vmmUnmapPage, found]
    simp only [Option.bind_eq_bind, Option.bind_some, if_neg (paging.place_ne_zero word present),
      loadWord_self table inTable]
    exact storeWord_self (lookup_giveBack.trans table) inTable 0
  · rw [vmmGetPage_of_absent paging present] at found
    rw [vmmUnmapPage_of_absent paging present, Paged.vmmUnmapPage, found]
    rfl

theorem frameUsed_vmmUnmapPage (ordered : Ordered state) (word : virtual < 2 ^ 32) {other : ℕ} :
    frameUsed (vmmUnmapPage state virtual) other =
      (frameUsed state other && !decide (lookup state (virtual / pageSize) =
        some (other * pageSize) ∧ 0 < other ∧ other < maxFrames)) := by
  have place : pageDirectoryIndex virtual = virtual / pageSize / 1024 := pageDirectoryIndex_eq _
  have offset : pageTableIndex virtual = virtual / pageSize % 1024 := pageTableIndex_eq _
  by_cases present : HasTable state (pageDirectoryIndex virtual)
  · have entries := ordered.settled _ (pageDirectoryIndex_lt word) present _
      (pageTableIndex_lt virtual)
    rw [vmmUnmapPage_of_hasTable ordered.paging word present]
    rw [HasTable] at present
    have translated : lookup state (virtual / pageSize) =
        if tableEntry state (pageDirectoryIndex virtual) (pageTableIndex virtual) &&&
            pagePresent = 0
        then none
        else some (physicalAddress
          (tableEntry state (pageDirectoryIndex virtual) (pageTableIndex virtual))) := by
      rw [place] at present
      rw [lookup, if_neg present, place, offset]
    have aligned := @physicalAddress_eq
      (tableEntry state (pageDirectoryIndex virtual) (pageTableIndex virtual)) (read32_lt _ _)
    rw [frameUsed_setEntry, translated]
    generalize tableEntry state (pageDirectoryIndex virtual) (pageTableIndex virtual) = word at *
    rw [aligned, frameUsed_giveBack]
    rcases entries with clear | valid
    · simp [clear]
    · have positive : 0 < pageSize := by decide
      rw [if_neg valid]
      congr 2
      simp only [Option.some.injEq, Nat.mul_left_inj positive.ne', decide_eq_decide]
      constructor
      · rintro ⟨rfl, bounds⟩
        exact ⟨rfl, bounds⟩
      · rintro ⟨rfl, bounds⟩
        exact ⟨rfl, bounds⟩
  · rw [vmmUnmapPage_of_absent ordered.paging present]
    rw [HasTable, not_ne_iff, place] at present
    simp [lookup, present]

/-- Tables in order that are mapped to themselves. -/
structure Intact (state : State) : Prop extends Ordered state where
  self : SelfMapped state

theorem intact_vmmInit (initial : State) : Intact (vmmInit initial) :=
  ⟨ordered_vmmInit initial, selfMapped_vmmInit initial⟩

theorem PageCall.keepsNeeded_iff (intact : Intact state) (call : PageCall) :
    call.KeepsNeeded state ↔ call.OwnsFrame state := by
  cases call with
  | mapPage virtual physical flags => exact Iff.rfl
  | unmapPage virtual =>
    simp only [KeepsNeeded, OwnsFrame, Paged.vmmUnmapPage_eq intact.paging intact.self virtual.isLt,
      Option.mem_some_iff, forall_eq', frameUsed_vmmUnmapPage intact.toOrdered virtual.isLt]
    constructor
    · intro keeps frame mapped positive inside used needed
      have kept := keeps frame needed used
      simp [mapped, positive, inside] at kept
    · intro owns frame needed used
      have apart : ¬(lookup state (virtual.val / pageSize) = some (frame * pageSize) ∧
          0 < frame ∧ frame < maxFrames) := by
        rintro ⟨mapped, positive, inside⟩
        exact owns frame mapped positive inside used needed
      simp [used, apart]

theorem Ordered.giveBack (ordered : Ordered state) (zero : frameUsed (giveBack state physical) 0)
    (keeps : ∀ frame, HoldsPaging state frame → frameUsed (giveBack state physical) frame = true) :
    Ordered (giveBack state physical) := by
  constructor
  · refine ordered.paging.congr_of_holdsPaging giveBack_currentPageDirectory ?_ ?_
    · intro location _
      rw [giveBack_memory]
    · rintro frame (rfl | holds) used
      · exact zero
      · exact keeps frame holds
  · simpa only [Settled, hasTable_giveBack, tableEntry_giveBack] using ordered.settled

theorem Intact.vmmUnmapPage (intact : Intact state) (word : virtual < 2 ^ 32)
    (spared : ¬HoldsPaging state (virtual / pageSize))
    (keeps : ∀ frame, HoldsPaging state frame →
      frameUsed (vmmUnmapPage state virtual) frame = true) :
    Intact (vmmUnmapPage state virtual) := by
  by_cases present : HasTable state (pageDirectoryIndex virtual)
  · have slotInside := pageDirectoryIndex_lt word
    have indexInside := pageTableIndex_lt virtual
    have zero := @frameUsed_vmmUnmapPage _ _ intact.toOrdered word 0
    rw [vmmUnmapPage_of_hasTable intact.paging word present] at zero keeps ⊢
    generalize physicalAddress (tableEntry state (pageDirectoryIndex virtual)
      (pageTableIndex virtual)) = given at zero keeps ⊢
    have marked : frameUsed (giveBack state given) 0 = true := by
      rw [← frameUsed_setEntry, zero, intact.paging.zero_used]
      simp
    have back : Ordered (giveBack state given) := intact.toOrdered.giveBack marked keeps
    have same : HasTable (Vmm.giveBack state given) (pageDirectoryIndex virtual) :=
      hasTable_giveBack.mpr present
    refine ⟨⟨back.paging.setEntry slotInside same indexInside,
      back.settled.setEntry back.paging slotInside same indexInside (by decide) (Or.inl rfl)⟩, ?_⟩
    intro frame holds
    have before : HoldsPaging state frame :=
      (holdsPaging_congr giveBack_currentPageDirectory fun _ _ => directoryEntry_giveBack).mp
        ((holdsPaging_setEntry back.paging slotInside same indexInside).mp holds)
    have inside : frame < 1024 * 1024 := (intact.paging.frames frame before).2.1.trans (by decide)
    rw [lookup_setEntry back.paging slotInside same indexInside (by decide) inside, if_neg,
      lookup_giveBack, intact.self frame before]
    rintro rfl
    apply spared
    rw [pageDirectoryIndex_eq, pageTableIndex_eq, Nat.div_add_mod'] at before
    exact before
  · rwa [vmmUnmapPage_of_absent intact.paging present]

theorem PageCall.run_intact (intact : Intact state) (call : PageCall)
    (spares : call.SparesTables state) (owns : call.OwnsFrame state) :
    ∃ after, call.run state = some after ∧ Intact after := by
  have keeps := (call.keepsNeeded_iff intact).mpr owns
  rcases intact with ⟨ordered, self⟩
  cases call with
  | mapPage virtual physical flags =>
    rcases spares with ⟨spares, next⟩
    exact ⟨_, Paged.vmmMapPage_eq ordered.paging self virtual.isLt next,
      ordered.vmmMapPage virtual.isLt,
      self.vmmMapPage ordered.paging virtual.isLt physical.isLt spares next⟩
  | unmapPage virtual =>
    have stays := Paged.vmmUnmapPage_eq ordered.paging self virtual.isLt
    have spared : ¬HoldsPaging state (virtual / pageSize) := by
      intro holds
      rcases ordered.paging.frames _ holds with ⟨nonzero, inside, used⟩
      exact owns _ (self _ holds) (Nat.pos_of_ne_zero nonzero) inside used (Or.inl holds)
    refine ⟨_, stays, Intact.vmmUnmapPage ⟨ordered, self⟩ virtual.isLt spared ?_⟩
    exact fun frame holds => keeps _ stays frame (Or.inl holds) (ordered.paging.frames _ holds).2.2

theorem PageCall.reached_succ (initial : State) {calls : List PageCall} {k : ℕ}
    (listed : k < calls.length) :
    PageCall.reached initial calls (k + 1) =
      (PageCall.reached initial calls k).bind calls[k].run :=
  Runs.foldl_take_succ listed

/-- As long as the directory and its tables stay mapped to themselves, no unmapping of a run gives
back a needed frame exactly if every page is unmapped only while nothing else needs its frame. No
call of such a run ends with a page fault. -/
theorem unmapping_keepsNeeded_iff (initial : State) (calls : List PageCall)
    (spares : ∀ k (listed : k < calls.length), ∀ state ∈ PageCall.reached initial calls k,
      calls[k].SparesTables state) :
    ((∀ k (listed : k < calls.length), ∀ state ∈ PageCall.reached initial calls k,
        calls[k].KeepsNeeded state) ↔
      ∀ k (listed : k < calls.length), ∀ state ∈ PageCall.reached initial calls k,
        calls[k].OwnsFrame state) ∧
    ((∀ k (listed : k < calls.length), ∀ state ∈ PageCall.reached initial calls k,
        calls[k].OwnsFrame state) →
      ∀ k ≤ calls.length, (PageCall.reached initial calls k).isSome) := by
  have keeps (k : ℕ) (listed : k < calls.length)
      (before : ∃ state, PageCall.reached initial calls k = some state ∧ Intact state)
      (owns : ∀ state ∈ PageCall.reached initial calls k, calls[k].OwnsFrame state) :
      ∃ state, PageCall.reached initial calls (k + 1) = some state ∧ Intact state := by
    rcases before with ⟨state, reached, intact⟩
    rw [PageCall.reached_succ initial listed, reached, Option.bind_some]
    exact calls[k].run_intact intact (spares k listed state reached) (owns state reached)
  have initially : ∃ state, PageCall.reached initial calls 0 = some state ∧ Intact state :=
    ⟨_, rfl, intact_vmmInit initial⟩
  constructor
  · refine Runs.forall_step_iff initially keeps ?_
    rintro k listed ⟨state, reached, intact⟩
    simp only [reached, Option.mem_some_iff, forall_eq']
    exact calls[k].keepsNeeded_iff intact
  · intro owns k atMost
    have intact : ∃ state, PageCall.reached initial calls k = some state ∧ Intact state := by
      induction k with
      | zero => exact initially
      | succ k ih => exact keeps k atMost (ih (by omega)) (owns k atMost)
    rcases intact with ⟨state, reached, -⟩
    rw [reached, Option.isSome_some]

/-- The directory and the tables of `vmm_init` lie behind the first 4 MB. -/
theorem holdsPaging_vmmInit (initial : State) (holds : HoldsPaging (vmmInit initial) frame) :
    1024 ≤ frame := by
  have behind (pages : ℕ) (small : pages ≤ 2048) {frame : ℕ}
      (holds : HoldsPaging (identityMap (firstDirectory initial) pages) frame) :
      1024 ≤ frame := by
    induction pages with
    | zero =>
      rcases holds with rfl | ⟨slot, inside, present, -⟩
      · exact (by decide : 1024 ≤ 1024 * pageSize / pageSize)
      · exact absurd present (not_hasTable_emptyDirectory inside)
    | succ pages ih =>
      rcases identityMap_spec initial (Nat.le_of_succ_le small) with ⟨handed, paging, -⟩
      rw [identityMap_succ] at holds
      rcases holdsPaging_vmmMapPage paging (by simp only [pageSize]; omega) holds with
        before | ⟨-, found⟩
      · exact ih (Nat.le_of_succ_le small) before
      · rw [handed.allocFrame_eq (by simp only [maxFrames]; omega), Prod.mk.injEq,
          Nat.mul_left_inj (by decide)] at found
        omega
  rw [vmmInit_eq] at holds
  exact behind _ le_rfl holds

def lowCalls : List PageCall := [.mapPage 0x6000 0x900000 3, .unmapPage 0x5000]

theorem unmapping_keepsNeeded_lowPages :
    (∀ k (listed : k < lowCalls.length), ∀ state ∈ PageCall.reached blank lowCalls k,
      lowCalls[k].KeepsNeeded state) ∧
    ∃ after ∈ PageCall.reached blank lowCalls 2, frameUsed after 5 = false := by
  rcases vmmInit_tables blank with ⟨-, paging, tables, identity⟩
  have self := selfMapped_vmmInit blank
  have present : HasTable (vmmInit blank) (pageDirectoryIndex 0x6000) :=
    (tables 0 (by decide)).mpr (by decide)
  have spared : SparesTables (vmmInit blank) 0x6000 0x900000 := by
    intro holds
    exact absurd (holdsPaging_vmmInit blank holds) (by decide)
  have first : PageCall.reached blank lowCalls 1 =
      some (vmmMapPage (vmmInit blank) 0x6000 0x900000 3) := by
    rw [PageCall.reached_succ blank (by decide), PageCall.reached, List.take_zero, List.foldl_nil,
      Option.bind_some]
    exact @Paged.vmmMapPage_eq (vmmInit blank) 0x6000 0x900000 3 paging self (by decide)
      fun absent => absurd present absent
  have intact : Intact (vmmMapPage (vmmInit blank) 0x6000 0x900000 3) :=
    ⟨(ordered_vmmInit blank).vmmMapPage (by decide), self.vmmMapPage paging (by decide) (by decide)
      spared fun absent => absurd present absent⟩
  have translated := (@vmmMapPage_of_served _ _ 0x900000 3 paging (by decide : 0x6000 < 2 ^ 32)
    (Or.inl present)).2
  have mapped : lookup (vmmMapPage (vmmInit blank) 0x6000 0x900000 3) 5 = some (5 * pageSize) := by
    rw [translated 5 (by decide), if_neg (by decide), identity 5 (by decide), if_pos (by decide)]
  have alone : ¬NeededBeside (vmmMapPage (vmmInit blank) 0x6000 0x900000 3) 5 5 := by
    rintro (holds | ⟨other, inside, apart, maps⟩)
    · rcases holdsPaging_vmmMapPage paging (by decide) holds with before | ⟨absent, -⟩
      · exact absurd (holdsPaging_vmmInit blank before) (by decide)
      · exact absent present
    · rw [translated other inside, identity other inside] at maps
      split at maps
      · exact absurd maps (by decide)
      · split at maps
        · exact apart (Nat.eq_of_mul_eq_mul_right (by decide) (Option.some.inj maps))
        · cases maps
  have owns : ∀ k (listed : k < lowCalls.length), ∀ state ∈ PageCall.reached blank lowCalls k,
      lowCalls[k].OwnsFrame state := by
    rintro (_ | _ | k) listed state reached
    · trivial
    · rw [Option.mem_def, first] at reached
      rw [← Option.some.inj reached]
      intro frame here _ _ _
      have isFive : frame = 5 :=
        Nat.eq_of_mul_eq_mul_right (by decide) (Option.some.inj (here.symm.trans mapped))
      rw [isFive]
      exact alone
    · exact absurd listed (by simp [lowCalls])
  constructor
  · refine (unmapping_keepsNeeded_iff blank lowCalls ?_).1.mpr owns
    rintro (_ | _ | k) listed state reached
    · rw [← (Option.some.inj reached : vmmInit blank = state)]
      exact ⟨spared, fun absent => absurd present absent⟩
    · trivial
    · exact absurd listed (by simp [lowCalls])
  · refine ⟨vmmUnmapPage (vmmMapPage (vmmInit blank) 0x6000 0x900000 3) 0x5000, ?_, ?_⟩
    · rw [PageCall.reached_succ blank (by decide), first, Option.bind_some]
      exact Paged.vmmUnmapPage_eq intact.paging intact.self (by decide)
    · rw [frameUsed_vmmUnmapPage intact.toOrdered (by decide)]
      simp [show 0x5000 / pageSize = 5 from rfl, mapped, maxFrames]

/-- The very first unmapping may give back the directory in use: its frame lies in the identity
mapping. -/
theorem unmapping_frees_directory :
    ¬(PageCall.unmapPage 0x400000).KeepsNeeded (vmmInit blank) ∧
      (vmmInit blank).currentPageDirectory = 1024 * pageSize ∧
      frameUsed (vmmInit blank) 1024 = true ∧
      ∃ after ∈ Paged.vmmUnmapPage (vmmInit blank) 0x400000, frameUsed after 1024 = false := by
  have intact := intact_vmmInit blank
  have directory := (vmmInit_directories blank).1
  have holds : HoldsPaging (vmmInit blank) 1024 := by
    left
    rw [directory, Nat.mul_div_cancel _ (by decide : 0 < pageSize)]
  have used := (intact.paging.frames _ holds).2.2
  have stays := @Paged.vmmUnmapPage_eq _ 0x400000 intact.paging intact.self (by decide)
  have freed : frameUsed (vmmUnmapPage (vmmInit blank) 0x400000) 1024 = false := by
    have mapped : lookup (vmmInit blank) (0x400000 / pageSize) = some (1024 * pageSize) :=
      intact.self 1024 holds
    rw [frameUsed_vmmUnmapPage intact.toOrdered (by decide)]
    simp [mapped, maxFrames]
  refine ⟨fun keeps => ?_, directory, used, _, stays, freed⟩
  have kept := keeps _ stays 1024 (Or.inl holds) used
  rw [freed] at kept
  exact absurd kept (by decide)

end RamOS.Vmm
