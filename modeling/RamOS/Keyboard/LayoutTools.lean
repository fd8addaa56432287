import Mathlib.Data.List.Forall2
import RamOS.Keyboard.Descriptions
import RamOS.Lib.ArrayList

/-!
# The layouts that the kernel and `kbmap` see

The kernel loads the layouts of a directory when it starts, and the tool `kbmap` loads their
descriptions to list them. They look for files with different extensions, and read them
differently. Both keep a layout only if its file gives a code.
-/

namespace RamOS.Keyboard.Layouts

open CString TextLines

/-- An array that is filled from its start. -/
structure Slots (α : Type) where
  slots : ℕ → α
  count : ℕ

namespace Slots

variable {α : Type} (table : Slots α) (item : α)

def stored : List α := ArrayList.toList table.slots table.count

def write : Slots α := { table with slots := Function.update table.slots table.count item }

def put : Slots α := { table.write item with count := table.count + 1 }

theorem stored_write : (table.write item).stored = table.stored := by
  apply ArrayList.toList_congr
  intro index listed
  exact Function.update_of_ne (Nat.ne_of_lt listed) _ _

theorem stored_put : (table.put item).stored = table.stored ++ [item] :=
  ArrayList.toList_push

end Slots

structure File where
  name : Bytes
  contents : Bytes
deriving DecidableEq

def layoutDir : Bytes := ascii "/etc/keyboard/layouts"

def maxLayouts : ℕ := 32

/-- The name that `vfs_readdir` gives for a file. -/
def listedName (file : File) : Bytes := file.name.take 127

def lookup (files : List File) (path : Bytes) : Option Bytes :=
  (files.find? fun file => layoutDir ++ '/'.toUInt8 :: file.name = path).map File.contents

def EndsIn (least : ℕ) (extension name : Bytes) : Prop :=
  least ≤ name.length ∧ strcmp (name.drop (name.length - extension.length)) extension = 0

instance (least : ℕ) (extension name : Bytes) : Decidable (EndsIn least extension name) :=
  inferInstanceAs (Decidable (_ ∧ _))

def IsConf (name : Bytes) : Prop := EndsIn 6 (ascii ".conf") name

instance (name : Bytes) : Decidable (IsConf name) := inferInstanceAs (Decidable (EndsIn _ _ _))

def IsLayout (name : Bytes) : Prop := EndsIn 7 (ascii ".layout") name

instance (name : Bytes) : Decidable (IsLayout name) :=
  inferInstanceAs (Decidable (EndsIn _ _ _))

def keyboardLoadFile (files : List File) (loaded : Slots Layout) (name : Bytes) :
    Slots Layout :=
  let path := (layoutDir ++ '/'.toUInt8 :: name).take 255
  let parsed := parseLayoutFile (lookup files path) (loaded.slots loaded.count)
  if parsed.1 = 0 then loaded.put parsed.2 else loaded.write parsed.2

def keyboardLoadLoop (files : List File) : List Bytes → Slots Layout → Slots Layout
  | [], loaded => loaded
  | name :: names, loaded =>
    if ¬IsConf name then keyboardLoadLoop files names loaded
    else if maxLayouts ≤ loaded.count then loaded
    else keyboardLoadLoop files names (keyboardLoadFile files loaded name)

def keyboardLoadLayouts (directory : Option (List File)) (loadedLayouts : ℕ → Layout) :
    ℤ × Slots Layout :=
  match directory with
  | none => (-1, ⟨loadedLayouts, 0⟩)
  | some files =>
    let loaded := keyboardLoadLoop files (files.map listedName) ⟨loadedLayouts, 0⟩
    (loaded.count, loaded)

/-- What the scanner of `kbmap` makes of the contents of a file. -/
def kbmapInfo (contents : Bytes) : LayoutInfo :=
  ((lines '\n'.toUInt8 maxLine (readString 2047 contents)).foldl Scanner.readLine
    Scanner.initial).info

def loadFile (files : List File) (layouts : Slots LayoutInfo) (name : Bytes) :
    Slots LayoutInfo :=
  match lookup files (layoutDir ++ '/'.toUInt8 :: name) with
  | none => layouts
  | some contents =>
    if contents.take 2047 = [] then layouts
    else if (kbmapInfo contents).code ≠ [] then layouts.put (kbmapInfo contents)
    else layouts.write (kbmapInfo contents)

def loadLoop (files : List File) : List Bytes → Slots LayoutInfo → Slots LayoutInfo
  | [], layouts => layouts
  | name :: names, layouts =>
    if maxLayouts ≤ layouts.count then layouts
    else if ¬IsLayout name then loadLoop files names layouts
    else loadLoop files names (loadFile files layouts name)

def loadLayouts (directory : Option (List File)) (layouts : Slots LayoutInfo) :
    ℤ × Slots LayoutInfo :=
  match directory with
  | none => (-1, layouts)
  | some files =>
    let loaded := loadLoop files (files.map listedName) ⟨layouts.slots, 0⟩
    (loaded.count, loaded)

def kernelRecords (loaded : Slots Layout) : List LayoutInfo :=
  (loaded.stored.map Layout.toLayoutInfo).filter fun info => info.code ≠ []

def kernelInfo (contents : Bytes) : LayoutInfo :=
  (parseLayoutFile (some contents) Layout.zeroed).2.toLayoutInfo

def openable (files : List File) (names : List Bytes) : List File :=
  names.filterMap fun name =>
    (lookup files (layoutDir ++ '/'.toUInt8 :: name)).map (File.mk name)

def LoadedBy (IsKind : Bytes → Prop) (info : Bytes → LayoutInfo) (file : File) : Prop :=
  IsKind file.name ∧ (info file.contents).code ≠ []

instance (IsKind : Bytes → Prop) [DecidablePred IsKind] (info : Bytes → LayoutInfo) :
    DecidablePred (LoadedBy IsKind info) := fun _ => inferInstanceAs (Decidable (_ ∧ _))

section Texts

variable {contents value : Bytes} {key : MetadataKey}

theorem kernelReading_gives_iff (layout : Layout) :
    kernelReading.Gives (kernelReading.lines contents) key value ↔
      (parseLayoutFile (some contents) layout).2.toLayoutInfo.get key = value := by
  rw [Reading.lines, (kernelReading_tracks layout).gives_iff zero_notMem_fileLines,
    parseLayoutFile]
  split_ifs with empty
  · rw [fileLines, readString, kernelReading, empty]
    rfl
  · rfl

theorem kbmapReading_gives_iff : kbmapReading.Gives (kbmapReading.lines contents) key value ↔
    (kbmapInfo contents).get key = value :=
  kbmapReading_tracks.gives_iff zero_notMem_fileLines

theorem toLayoutInfo_parseLayoutFile (layout : Layout) :
    (parseLayoutFile (some contents) layout).2.toLayoutInfo = kernelInfo contents :=
  LayoutInfo.ext_get fun _ =>
    (kernelReading_gives_iff layout).mp ((kernelReading_gives_iff Layout.zeroed).mpr rfl)

/-- A file that gives a code under a reading. -/
def Reading.HasCode (reading : Reading) (contents : Bytes) : Prop :=
  ∃ value, reading.Gives (reading.lines contents) .code value ∧ value ≠ []

def KernelLoads (file : File) : Prop := IsConf file.name ∧ kernelReading.HasCode file.contents

def KbmapLoads (file : File) : Prop := IsLayout file.name ∧ kbmapReading.HasCode file.contents

theorem kernelLoads_iff {file : File} : KernelLoads file ↔ LoadedBy IsConf kernelInfo file := by
  simp only [KernelLoads, Reading.HasCode, kernelReading_gives_iff Layout.zeroed]
  exact and_congr_right' exists_eq_left'

theorem kbmapLoads_iff {file : File} : KbmapLoads file ↔ LoadedBy IsLayout kbmapInfo file := by
  simp only [KbmapLoads, Reading.HasCode, kbmapReading_gives_iff]
  exact and_congr_right' exists_eq_left'

instance : DecidablePred KernelLoads := fun _ => decidable_of_iff _ kernelLoads_iff.symm

instance : DecidablePred KbmapLoads := fun _ => decidable_of_iff _ kbmapLoads_iff.symm

/-- The kernel reads from one file what the tool reads from the other one, for every key. -/
def SameDescription (conf layout : File) : Prop :=
  ∀ key value, kernelReading.Gives (kernelReading.lines conf.contents) key value ↔
    kbmapReading.Gives (kbmapReading.lines layout.contents) key value

theorem sameDescription_iff {conf layout : File} :
    SameDescription conf layout ↔ kernelInfo conf.contents = kbmapInfo layout.contents := by
  simp only [SameDescription, kernelReading_gives_iff Layout.zeroed, kbmapReading_gives_iff]
  constructor
  · exact fun same => LayoutInfo.ext_get fun key => ((same key _).mpr rfl)
  · intro same key value
    rw [← same]
    rfl

instance (conf layout : File) : Decidable (SameDescription conf layout) :=
  decidable_of_iff _ sameDescription_iff.symm

end Texts

section Directory

variable {files : List File} {name : Bytes} {names : List Bytes}

theorem openable_cons (IsKind : Bytes → Prop) [DecidablePred IsKind]
    (info : Bytes → LayoutInfo) :
    ((openable files (name :: names)).filter (LoadedBy IsKind info)).map
        (fun file => info file.contents) =
      (if IsKind name then
        ((lookup files (layoutDir ++ '/'.toUInt8 :: name)).toList.map info).filter
          fun info => info.code ≠ []
      else []) ++
        ((openable files names).filter (LoadedBy IsKind info)).map fun file =>
          info file.contents := by
  cases found : lookup files (layoutDir ++ '/'.toUInt8 :: name) with
  | none => simp [openable, found]
  | some contents =>
    by_cases isKind : IsKind name
    · by_cases coded : (info contents).code = []
      · simp [openable, found, LoadedBy, isKind, coded]
      · simp [openable, found, LoadedBy, isKind, coded]
    · simp [openable, found, LoadedBy, isKind]

theorem kernelRecords_put (loaded : Slots Layout) (layout : Layout) :
    kernelRecords (loaded.put layout) =
      kernelRecords loaded ++ [layout.toLayoutInfo].filter fun info => info.code ≠ [] := by
  rw [kernelRecords, Slots.stored_put, List.map_append, List.filter_append, ← kernelRecords,
    List.map_singleton]

theorem kernelRecords_write (loaded : Slots Layout) (layout : Layout) :
    kernelRecords (loaded.write layout) = kernelRecords loaded := by
  rw [kernelRecords, Slots.stored_write, ← kernelRecords]

theorem kernelRecords_loadFile (loaded : Slots Layout) (short : name.length ≤ 127) :
    kernelRecords (keyboardLoadFile files loaded name) = kernelRecords loaded ++
      ((lookup files (layoutDir ++ '/'.toUInt8 :: name)).toList.map kernelInfo).filter
        fun info => info.code ≠ [] := by
  have path : (layoutDir ++ '/'.toUInt8 :: name).take 255 = layoutDir ++ '/'.toUInt8 :: name := by
    apply List.take_of_length_le
    have directory : layoutDir.length = 21 := by decide
    rw [List.length_append, List.length_cons, directory]
    omega
  rw [keyboardLoadFile, path]
  cases lookup files (layoutDir ++ '/'.toUInt8 :: name) with
  | none =>
    have failed : parseLayoutFile none (loaded.slots loaded.count) =
        (-1, loaded.slots loaded.count) := rfl
    rw [failed, if_neg (by simp), kernelRecords_write]
    simp
  | some contents =>
    have info := @toLayoutInfo_parseLayoutFile contents (loaded.slots loaded.count)
    rw [Option.toList_some, List.map_singleton]
    by_cases empty : contents.take 4095 = []
    · have failed : parseLayoutFile (some contents) (loaded.slots loaded.count) =
          (-1, (loaded.slots loaded.count).cleared) := if_pos empty
      rw [← info, failed, if_neg (by simp), kernelRecords_write]
      simp [Layout.cleared, LayoutInfo.zeroed]
    · have succeeded : (parseLayoutFile (some contents) (loaded.slots loaded.count)).1 = 0 := by
        rw [parseLayoutFile, if_neg empty]
      rw [if_pos succeeded, kernelRecords_put, info]

theorem count_keyboardLoadFile_le (loaded : Slots Layout) :
    (keyboardLoadFile files loaded name).count ≤ loaded.count + 1 := by
  rw [keyboardLoadFile]
  split
  next => exact le_rfl
  next => exact Nat.le_succ _

theorem kernelRecords_loop (short : ∀ name ∈ names, name.length ≤ 127) {loaded : Slots Layout}
    (room : loaded.count + names.length ≤ maxLayouts) :
    kernelRecords (keyboardLoadLoop files names loaded) = kernelRecords loaded ++
      ((openable files names).filter (LoadedBy IsConf kernelInfo)).map fun file =>
        kernelInfo file.contents := by
  induction names generalizing loaded with
  | nil => simp [keyboardLoadLoop, openable]
  | cons name names ih =>
    rw [List.length_cons] at room
    have shortRest : ∀ name ∈ names, name.length ≤ 127 := fun name listed =>
      short name (List.mem_cons_of_mem _ listed)
    rw [keyboardLoadLoop, openable_cons]
    by_cases isConf : IsConf name
    · have more := @count_keyboardLoadFile_le files name loaded
      rw [if_neg (not_not.mpr isConf), if_neg (by omega), if_pos isConf,
        ih shortRest (by omega), kernelRecords_loadFile loaded (short name List.mem_cons_self),
        List.append_assoc]
    · rw [if_pos isConf, if_neg isConf, ih shortRest (by omega), List.nil_append]

theorem stored_loadFile (layouts : Slots LayoutInfo) :
    (loadFile files layouts name).stored = layouts.stored ++
      ((lookup files (layoutDir ++ '/'.toUInt8 :: name)).toList.map kbmapInfo).filter
        fun info => info.code ≠ [] := by
  rw [loadFile]
  cases lookup files (layoutDir ++ '/'.toUInt8 :: name) with
  | none => simp
  | some contents =>
    dsimp only
    rw [Option.toList_some, List.map_singleton]
    by_cases empty : contents.take 2047 = []
    · have nothing : kbmapInfo contents = LayoutInfo.zeroed := by
        rw [kbmapInfo, readString, empty]
        rfl
      rw [if_pos empty, nothing]
      simp [LayoutInfo.zeroed]
    · rw [if_neg empty]
      by_cases coded : (kbmapInfo contents).code ≠ []
      · rw [if_pos coded, Slots.stored_put]
        simp [coded]
      · rw [if_neg coded, Slots.stored_write]
        simp [not_not.mp coded]

theorem count_loadFile_le (layouts : Slots LayoutInfo) :
    (loadFile files layouts name).count ≤ layouts.count + 1 := by
  rw [loadFile]
  split
  next => exact Nat.le_succ _
  next =>
    split
    next => exact Nat.le_succ _
    next =>
      split
      next => exact le_rfl
      next => exact Nat.le_succ _

theorem stored_loadLoop {layouts : Slots LayoutInfo}
    (room : layouts.count + names.length ≤ maxLayouts) :
    (loadLoop files names layouts).stored = layouts.stored ++
      ((openable files names).filter (LoadedBy IsLayout kbmapInfo)).map fun file =>
        kbmapInfo file.contents := by
  induction names generalizing layouts with
  | nil => simp [loadLoop, openable]
  | cons name names ih =>
    rw [List.length_cons] at room
    rw [loadLoop, openable_cons, if_neg (by omega)]
    by_cases isLayout : IsLayout name
    · have more := @count_loadFile_le files name layouts
      rw [if_neg (not_not.mpr isLayout), if_pos isLayout, ih (by omega), stored_loadFile,
        List.append_assoc]
    · rw [if_pos isLayout, if_neg isLayout, ih (by omega), List.nil_append]

/-- Kernel and tool have the same descriptions exactly if the `.conf` files that give a code as the
kernel reads them and the `.layout` files that give one as the tool reads them correspond, in
order, and the two readings of each pair agree. -/
theorem loaders_agree_iff (files : List File) (atMost : files.length ≤ 32)
    (loadedLayouts : ℕ → Layout) (layouts : Slots LayoutInfo) :
    kernelRecords (keyboardLoadLayouts (some files) loadedLayouts).2 =
        (loadLayouts (some files) layouts).2.stored ↔
      List.Forall₂ SameDescription
        ((openable files (files.map listedName)).filter KernelLoads)
        ((openable files (files.map listedName)).filter KbmapLoads) := by
  have short : ∀ name ∈ files.map listedName, name.length ≤ 127 := by
    intro name listed
    rcases List.mem_map.mp listed with ⟨file, _, rfl⟩
    exact List.length_take_le _ _
  have room : 0 + (files.map listedName).length ≤ maxLayouts := by
    rw [List.length_map, Nat.zero_add]
    exact atMost
  have kernel := @kernelRecords_loop files (files.map listedName) short ⟨loadedLayouts, 0⟩ room
  have tool := @stored_loadLoop files (files.map listedName) ⟨layouts.slots, 0⟩ room
  have kernelStart : kernelRecords ⟨loadedLayouts, 0⟩ = [] := rfl
  have toolStart : (Slots.mk layouts.slots 0).stored = [] := rfl
  rw [kernelStart, List.nil_append] at kernel
  rw [toolStart, List.nil_append] at tool
  simp only [← kernelLoads_iff] at kernel
  simp only [← kbmapLoads_iff] at tool
  rw [keyboardLoadLayouts, loadLayouts]
  dsimp only
  rw [kernel, tool, ← List.forall₂_eq_eq_eq, List.forall₂_map_left_iff,
    List.forall₂_map_right_iff]
  simp only [← sameDescription_iff]

end Directory

def sampleMetadata : Bytes := ascii "[metadata]\ncode=en_US\n"

def twinFiles : List File :=
  [⟨ascii "us.conf", sampleMetadata⟩, ⟨ascii "us.layout", sampleMetadata⟩]

theorem loaders_agree_twinFiles :
    kernelRecords (keyboardLoadLayouts (some twinFiles) fun _ => Layout.zeroed).2 =
      (loadLayouts (some twinFiles) ⟨fun _ => LayoutInfo.zeroed, 0⟩).2.stored :=
  (loaders_agree_iff twinFiles (by decide) _ _).mpr (by decide)

def shippedFiles : List File := [⟨ascii "en_US.layout", sampleMetadata⟩]

/-- The tool lists the shipped layout, and the kernel has none. -/
theorem kernel_misses_shipped_layout :
    kernelRecords (keyboardLoadLayouts (some shippedFiles) fun _ => Layout.zeroed).2 = [] ∧
      (loadLayouts (some shippedFiles) ⟨fun _ => LayoutInfo.zeroed, 0⟩).2.stored =
        [{ LayoutInfo.zeroed with code := ascii "en_US" }] := by
  decide

end RamOS.Keyboard.Layouts
