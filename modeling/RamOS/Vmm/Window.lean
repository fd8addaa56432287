import RamOS.Lib.Runs
import RamOS.Vmm.Paged

/-!
# The frames that the memory manager writes through

With paging enabled the memory manager still clears and fills a new page table or directory
through the address of its frame, which reaches the frame only where it is mapped to itself.

`vmm_init` maps the first 8 MB to themselves and leaves frame 1027 as the next one to hand out.
As long as no frame is given back, the frame that a call gets is known from the number of calls
before it that needed one.
-/

namespace RamOS.Vmm

open ByteMemory

variable {state : State} {frame address virtual physical flags count : ℕ}

/-- A call made with paging on, `none` if it ends with a page fault. -/
def Call.pagedRun (state : State) : Call → Option State
  | .mapPage virtual physical flags => Paged.vmmMapPage state virtual physical flags
  | .createPageDirectory => (Paged.vmmCreatePageDirectory state).map Prod.snd

/-- The state after the first calls of a run, if none of them faults. -/
def Call.reached (initial : State) (calls : List Call) (k : ℕ) : Option State :=
  (calls.take k).foldl (fun state call => state.bind call.pagedRun) (some (vmmInit initial))

/-- The call is for a directory, or for a mapping in a slot without a page table. -/
def Call.NeedsFrame (state : State) : Call → Prop
  | .mapPage virtual _ _ => ¬HasTable state (pageDirectoryIndex virtual)
  | .createPageDirectory => True

instance (state : State) (call : Call) : Decidable (call.NeedsFrame state) :=
  match call with
  | .mapPage _ _ _ => inferInstanceAs (Decidable (¬(_ ≠ _)))
  | .createPageDirectory => inferInstanceAs (Decidable True)

/-- The frame that the call takes from the allocator. -/
def Call.obtains (state : State) (call : Call) : Option ℕ :=
  if call.NeedsFrame state ∧ (allocFrame state).1 ≠ 0 then some (allocFrame state).1 else none

/-- The frame that the call takes, if any, is mapped to itself. -/
def Call.ObtainsMapped (state : State) (call : Call) : Prop :=
  ∀ address, call.obtains state = some address →
    lookup state (address / pageSize) = some address

def Call.SparesTables (state : State) : Call → Prop
  | .mapPage virtual physical _ => Vmm.SparesTables state virtual physical
  | .createPageDirectory => True

def framesNeeded : State → List Call → ℕ
  | _, [] => 0
  | state, call :: calls =>
    (if call.NeedsFrame state then 1 else 0) + framesNeeded (call.run state) calls

section HandedOut

variable (handed : HandedOut count state)

include handed

theorem HandedOut.createPageDirectory (positive : 0 < count) :
    HandedOut (count + 1) (vmmCreatePageDirectory state).2 := by
  by_cases inside : count < maxFrames
  · have nonzero : count * pageSize ≠ 0 := mul_ne_zero positive.ne' (by decide)
    simp only [vmmCreatePageDirectory, handed.allocFrame_eq inside, if_neg nonzero]
    exact handed.takeFrame.congr rfl rfl
  · have exhausted := handed.allocFrame_exhausted (not_lt.mp inside)
    simp only [vmmCreatePageDirectory, exhausted, if_true]
    exact handed.exhausted_succ (not_lt.mp inside)

theorem HandedOut.run (positive : 0 < count) (paging : Paging state) (call : Call) :
    HandedOut (count + if call.NeedsFrame state then 1 else 0) (call.run state) := by
  cases call with
  | mapPage virtual physical flags => exact handed.vmmMapPage paging virtual.isLt
  | createPageDirectory => exact handed.createPageDirectory positive

theorem HandedOut.foldl (positive : 0 < count) (paging : Paging state) (calls : List Call) :
    HandedOut (count + framesNeeded state calls) (calls.foldl Call.run state) := by
  induction calls generalizing count state with
  | nil => exact handed
  | cons call calls ih =>
    have rest := ih (handed.run positive paging call) (by omega) (call.run_paging paging)
    rwa [framesNeeded, ← Nat.add_assoc]

end HandedOut

theorem Call.obtainsMapped_iff (call : Call) :
    call.ObtainsMapped state ↔ (call.NeedsFrame state → NextMapped state) := by
  rw [ObtainsMapped, obtains, NextMapped]
  constructor
  · intro mapped needs nonzero
    exact mapped _ (if_pos ⟨needs, nonzero⟩)
  · intro next address obtained
    split at obtained
    next taken =>
      cases obtained
      exact next taken.1 taken.2
    next => cases obtained

/-- A call takes the frame whose bit it sets. -/
theorem Call.obtains_iff (paging : Paging state) (call : Call) :
    call.obtains state = some (frame * pageSize) ↔
      frameUsed state frame = false ∧ frameUsed (call.run state) frame = true := by
  by_cases needs : call.NeedsFrame state
  · rcases allocFrame_cases state with ⟨none, _⟩ | ⟨new, inside, free, found⟩
    · have unchanged : call.run state = state := by
        cases call with
        | mapPage virtual physical flags =>
          rw [NeedsFrame] at needs
          exact vmmMapPage_of_not_served paging (by simp [Served, needs, none])
        | createPageDirectory => simp only [Call.run, vmmCreatePageDirectory, none, if_true]
      rw [unchanged, obtains, none]
      simp
    · have positive := paging.address_ne_zero free
      have bits : frameUsed (call.run state) frame =
          (decide (frame = new) || frameUsed state frame) := by
        cases call with
        | mapPage virtual physical flags =>
          rw [Call.run, vmmMapPage_of_alloc paging needs free inside found, frameUsed_setEntry,
            frameUsed_addTable]
        | createPageDirectory =>
          simp only [Call.run, vmmCreatePageDirectory, found, if_neg positive]
          exact frameUsed_takeFrame
      rw [bits, obtains, found, if_pos ⟨needs, positive⟩, Option.some.injEq,
        Nat.mul_left_inj (by decide : pageSize ≠ 0)]
      grind
  · cases call with
    | mapPage virtual physical flags =>
      have present := not_not.mp needs
      rw [obtains, if_neg (fun taken => needs taken.1), Call.run,
        vmmMapPage_of_hasTable paging virtual.isLt present, frameUsed_setEntry]
      simp
    | createPageDirectory => exact absurd trivial needs

/-- Where the frame that a call takes is not mapped, the call ends with a page fault. -/
theorem Call.pagedRun_of_unmapped (paging : Paging state) (self : SelfMapped state) (call : Call)
    (obtained : call.obtains state = some address)
    (unmapped : lookup state (address / pageSize) = none) : call.pagedRun state = none := by
  rw [obtains] at obtained
  split at obtained
  next taken =>
    rcases taken with ⟨needs, nonzero⟩
    rcases allocFrame_cases state with ⟨none, _⟩ | ⟨new, inside, free, found⟩
    · exact absurd (congrArg Prod.fst none) nonzero
    · rw [found] at obtained nonzero
      cases obtained
      rw [Nat.mul_div_cancel _ (by decide)] at unmapped
      have faults : clearEntries (takeFrame state new) (new * pageSize) 1024 = none :=
        clearEntries_of_unmapped unmapped (by decide)
      cases call with
      | mapPage virtual physical flags =>
        have absent := not_ne_iff.mp needs
        simp only [Call.pagedRun, Paged.vmmMapPage, Paged.vmmGetPage,
          if_neg paging.directory_pos.ne',
          loadWord_directory paging self (pageDirectoryIndex_lt virtual.isLt),
          Option.bind_eq_bind, Option.bind_some, if_pos absent, Bool.true_eq_false, if_false, found,
          if_neg nonzero, faults, Option.bind_none]
      | createPageDirectory =>
        simp only [Call.pagedRun, Paged.vmmCreatePageDirectory, found, if_neg nonzero, faults,
          Option.bind_eq_bind, Option.bind_none, Option.map_none]
  next => cases obtained

/-- The tables are in order and mapped to themselves, and are those of the kernel. -/
structure Ready (state : State) : Prop where
  paging : Paging state
  self : SelfMapped state
  kernel : state.kernelPageDirectory = state.currentPageDirectory

theorem ready_vmmInit (initial : State) : Ready (vmmInit initial) := by
  rcases vmmInit_directories initial with ⟨current, kernel⟩
  exact ⟨(vmmInit_tables initial).2.1, selfMapped_vmmInit initial, kernel.trans current.symm⟩

theorem createPageDirectory_directories (state : State) :
    (vmmCreatePageDirectory state).2.currentPageDirectory = state.currentPageDirectory ∧
      (vmmCreatePageDirectory state).2.kernelPageDirectory = state.kernelPageDirectory := by
  rcases allocFrame_cases state with ⟨none, _⟩ | ⟨frame, inside, free, found⟩
  · simp [vmmCreatePageDirectory, none]
  · rw [vmmCreatePageDirectory, found]
    dsimp only
    split <;> exact ⟨rfl, rfl⟩

theorem Ready.pagedRun (ready : Ready state) (call : Call)
    (next : call.NeedsFrame state → NextMapped state) :
    call.pagedRun state = some (call.run state) := by
  cases call with
  | mapPage virtual physical flags =>
    exact Paged.vmmMapPage_eq ready.paging ready.self virtual.isLt next
  | createPageDirectory =>
    rw [Call.pagedRun, Paged.vmmCreatePageDirectory_eq ready.paging ready.self ready.kernel
      (next trivial)]
    rfl

theorem Ready.run (ready : Ready state) (call : Call) (spares : call.SparesTables state)
    (next : call.NeedsFrame state → NextMapped state) : Ready (call.run state) := by
  rcases ready with ⟨paging, self, kernel⟩
  cases call with
  | mapPage virtual physical flags =>
    have directories := @vmmMapPage_directories _ _ physical flags paging virtual.isLt
    refine ⟨paging.vmmMapPage virtual.isLt,
      self.vmmMapPage paging virtual.isLt physical.isLt spares next, ?_⟩
    rw [Call.run, directories.1, directories.2, kernel]
  | createPageDirectory =>
    have directories := createPageDirectory_directories state
    refine ⟨(createPageDirectory_spec paging).1, self.createPageDirectory paging, ?_⟩
    rw [Call.run, directories.1, directories.2, kernel]

theorem obtains_after_calls (initial : State) (calls : List Call) (call : Call) :
    call.obtains (calls.foldl Call.run (vmmInit initial)) =
      if call.NeedsFrame (calls.foldl Call.run (vmmInit initial)) ∧
          1027 + framesNeeded (vmmInit initial) calls < maxFrames then
        some ((1027 + framesNeeded (vmmInit initial) calls) * pageSize)
      else none := by
  have handed := (vmmInit_tables initial).1.foldl (by decide) (vmmInit_tables initial).2.1 calls
  have positive : 0 < 1027 + framesNeeded (vmmInit initial) calls := by omega
  rw [Call.obtains]
  generalize calls.foldl Call.run (vmmInit initial) = reached at handed ⊢
  generalize 1027 + framesNeeded (vmmInit initial) calls = next at handed positive ⊢
  by_cases inside : next < maxFrames
  · have nonzero : next * pageSize ≠ 0 := mul_ne_zero positive.ne' (by decide)
    simp [handed.allocFrame_eq inside, nonzero, inside]
  · simp [handed.allocFrame_exhausted (not_lt.mp inside), inside]

/-- The frame is mapped to itself after the calls: the last call for its page says so, or there is
none and it lies in the first 8 MB. -/
def KeptIdentity (initial : State) (calls : List Call) (frame : ℕ) : Prop :=
  match lastServed frame (vmmInit initial) calls with
  | some base => base = frame * pageSize
  | none => frame < 0x800000 / pageSize

theorem lookup_identity_iff (initial : State) (calls : List Call) (inside : frame < maxFrames) :
    lookup (calls.foldl Call.run (vmmInit initial)) frame = some (frame * pageSize) ↔
      KeptIdentity initial calls frame := by
  rcases vmmInit_tables initial with ⟨-, paging, -, identity⟩
  have pageInside : frame < 1024 * 1024 := inside.trans (by decide)
  rw [(lookup_run paging calls pageInside).2, identity frame pageInside, KeptIdentity]
  cases lastServed frame (vmmInit initial) calls with
  | some base => simp
  | none => simp

/-- The next frame in order is still mapped to itself when the call comes, if the call needs one
and there is one. -/
def Call.InWindow (initial : State) (before : List Call) (call : Call) : Prop :=
  call.NeedsFrame (before.foldl Call.run (vmmInit initial)) →
  1027 + framesNeeded (vmmInit initial) before < maxFrames →
    KeptIdentity initial before (1027 + framesNeeded (vmmInit initial) before)

theorem Call.obtainsMapped_iff_inWindow (initial : State) (before : List Call) (call : Call) :
    call.ObtainsMapped (before.foldl Call.run (vmmInit initial)) ↔
      call.InWindow initial before := by
  have quotient (frame : ℕ) : frame * pageSize / pageSize = frame :=
    Nat.mul_div_cancel _ (by decide)
  rw [ObtainsMapped, InWindow, obtains_after_calls]
  constructor
  · intro identity needs inside
    rw [if_pos ⟨needs, inside⟩] at identity
    have mapped := identity _ rfl
    rw [quotient] at mapped
    exact (lookup_identity_iff initial before inside).mp mapped
  · intro kept address obtained
    split at obtained
    next served =>
      cases obtained
      rw [quotient]
      exact (lookup_identity_iff initial before served.2).mpr (kept served.1 served.2)
    next => cases obtained

/-- A run reaches the state that its calls lead to if they address the tables physically. -/
def Call.OnTrack (initial : State) (calls : List Call) (k : ℕ) : Prop :=
  Call.reached initial calls k = some ((calls.take k).foldl Call.run (vmmInit initial)) ∧
    Ready ((calls.take k).foldl Call.run (vmmInit initial))

section Run

variable (initial : State) (calls : List Call)
  (spares : ∀ k (listed : k < calls.length),
    calls[k].SparesTables ((calls.take k).foldl Call.run (vmmInit initial)))

theorem Call.onTrack_zero : Call.OnTrack initial calls 0 := by
  rw [OnTrack, Call.reached, List.take_zero, List.foldl_nil, List.foldl_nil]
  exact ⟨rfl, ready_vmmInit initial⟩

include spares

theorem Call.OnTrack.succ {k : ℕ} (listed : k < calls.length)
    (before : Call.OnTrack initial calls k) (inWindow : calls[k].InWindow initial (calls.take k)) :
    Call.OnTrack initial calls (k + 1) := by
  rcases before with ⟨reached, ready⟩
  have next := calls[k].obtainsMapped_iff.mp
    ((calls[k].obtainsMapped_iff_inWindow initial (calls.take k)).mpr inWindow)
  rw [OnTrack, Runs.foldl_take_succ listed, Call.reached, Runs.foldl_take_succ listed]
  rw [Call.reached] at reached
  rw [reached]
  exact ⟨ready.pagedRun calls[k] next, ready.run calls[k] (spares k listed) next⟩

theorem Call.onTrack_of_inWindow
    (inWindow : ∀ k (listed : k < calls.length), calls[k].InWindow initial (calls.take k)) (k : ℕ)
    (atMost : k ≤ calls.length) : Call.OnTrack initial calls k := by
  induction k with
  | zero => exact Call.onTrack_zero initial calls
  | succ k ih => exact (ih (by omega)).succ initial calls spares atMost (inWindow k atMost)

/-- As long as no call maps a page of the tables elsewhere, every frame that a run obtains and
writes through is mapped to itself exactly if each call that needs a frame, while there are any,
comes when the next frame in order is still mapped to itself. No call of such a run ends with a
page fault. -/
theorem obtained_identity_iff :
    ((∀ k (listed : k < calls.length), ∀ state ∈ Call.reached initial calls k,
        calls[k].ObtainsMapped state) ↔
      ∀ k (listed : k < calls.length), calls[k].InWindow initial (calls.take k)) ∧
    ((∀ k (listed : k < calls.length), calls[k].InWindow initial (calls.take k)) →
      ∀ k ≤ calls.length, (Call.reached initial calls k).isSome) := by
  constructor
  · refine Runs.forall_step_iff (Call.onTrack_zero initial calls)
      (fun k listed before => before.succ initial calls spares listed) ?_
    rintro k listed ⟨reached, -⟩
    rw [reached]
    simp only [Option.mem_some_iff, forall_eq']
    exact calls[k].obtainsMapped_iff_inWindow initial (calls.take k)
  · intro inWindow k atMost
    rw [(Call.onTrack_of_inWindow initial calls spares inWindow k atMost).1, Option.isSome_some]

end Run

theorem lastServed_creations (page : ℕ) (state : State) (count : ℕ) :
    lastServed page state (List.replicate count .createPageDirectory) = none := by
  induction count generalizing state with
  | zero => rfl
  | succ count ih => rw [List.replicate_succ, lastServed, ih, Call.serve, Option.none_or]

theorem framesNeeded_creations (state : State) (count : ℕ) :
    framesNeeded state (List.replicate count .createPageDirectory) = count := by
  induction count generalizing state with
  | zero => rfl
  | succ count ih =>
    have needs : Call.createPageDirectory.NeedsFrame state := trivial
    rw [List.replicate_succ, framesNeeded, ih, if_pos needs, Nat.add_comm]

theorem creations_inWindow {count : ℕ} (small : count ≤ 1021) (k : ℕ)
    (listed : k < (List.replicate count Call.createPageDirectory).length) :
    (List.replicate count Call.createPageDirectory)[k].InWindow blank
      ((List.replicate count Call.createPageDirectory).take k) := by
  intro _ _
  have inside : k < count := by simpa using listed
  rw [List.take_replicate, framesNeeded_creations, KeptIdentity, lastServed_creations]
  simp only [pageSize]
  omega

theorem creations_spareTables {count : ℕ} (k : ℕ)
    (listed : k < (List.replicate count Call.createPageDirectory).length) :
    (List.replicate count Call.createPageDirectory)[k].SparesTables
      (((List.replicate count Call.createPageDirectory).take k).foldl Call.run
        (vmmInit blank)) := by
  rw [List.getElem_replicate]
  trivial

theorem obtained_identity_creations :
    (Call.reached blank (List.replicate 1021 .createPageDirectory) 1021).isSome ∧
      ∀ k (listed : k < (List.replicate 1021 Call.createPageDirectory).length),
        ∀ state ∈ Call.reached blank (List.replicate 1021 .createPageDirectory) k,
          (List.replicate 1021 Call.createPageDirectory)[k].ObtainsMapped state := by
  have identity := obtained_identity_iff blank _ (@creations_spareTables 1021)
  refine ⟨identity.2 (creations_inWindow le_rfl) 1021 ?_,
    identity.1.mpr (creations_inWindow le_rfl)⟩
  rw [List.length_replicate]

/-- After 1021 directories the next one gets the frame at 8 MB, which is not mapped, and its first
store there faults. -/
theorem obtained_beyond_window :
    ∃ state ∈ Call.reached blank (List.replicate 1021 .createPageDirectory) 1021,
      Call.createPageDirectory.obtains state = some 0x800000 ∧
      lookup state (0x800000 / pageSize) = none ∧
      Call.createPageDirectory.pagedRun state = none := by
  have length : (List.replicate 1021 Call.createPageDirectory).length = 1021 :=
    List.length_replicate
  rcases Call.onTrack_of_inWindow blank _ creations_spareTables (creations_inWindow le_rfl) 1021
    length.ge with ⟨reached, ready⟩
  rw [List.take_of_length_le length.le] at reached ready
  have obtained : Call.createPageDirectory.obtains
      ((List.replicate 1021 Call.createPageDirectory).foldl Call.run (vmmInit blank)) =
        some 0x800000 := by
    rw [obtains_after_calls, framesNeeded_creations, if_pos ⟨trivial, by decide⟩]
    rfl
  have unmapped : lookup ((List.replicate 1021 Call.createPageDirectory).foldl Call.run
      (vmmInit blank)) (0x800000 / pageSize) = none := by
    rcases vmmInit_tables blank with ⟨-, paging, -, identity⟩
    rw [(lookup_run paging _ (by decide)).2, lastServed_creations, identity _ (by decide),
      if_neg (lt_irrefl _), Option.none_or]
  exact ⟨_, reached, obtained, unmapped,
    Call.pagedRun_of_unmapped ready.paging ready.self _ obtained unmapped⟩

end RamOS.Vmm
