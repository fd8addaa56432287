import RamOS.Initrd.Malformed

/-!
# Archives whose names begin with `./`

Some archivers put `./` in front of every name. The loop of `initrd_init` looks
at this prefix twice: once to skip the entries of directories, and once to strip
it from the name of a file. The first test takes every name with the prefix, so
that nothing is left for the second one and the archive registers no file.
-/

namespace RamOS.Initrd

open ByteMemory CString

structure PlainName (name : Bytes) : Prop where
  nonempty : name ≠ []
  short : name.length ≤ 253
  noZero : 0 ∉ name
  noDot : name.head? ≠ some '.'.toUInt8

def File.prefixed (file : File) : File where
  name := ascii "./" ++ file.name
  contents := file.contents

structure SameTable (leftMemory : Memory) (left : State) (rightMemory : Memory) (right : State) :
    Prop where
  count : left.fileCount = right.fileCount
  names : ∀ index < left.fileCount, (left.files index).name = (right.files index).name
  sizes : ∀ index < left.fileCount, (left.files index).size = (right.files index).size
  contents : ∀ index < left.fileCount,
    load leftMemory (left.files index).data (left.files index).size =
      load rightMemory (right.files index).data (right.files index).size

theorem PlainName.validName {name : Bytes} (plain : PlainName name)
    (notTrailer : name ≠ ascii "TRAILER!!!") : ValidName name where
  nonempty := plain.nonempty
  short := plain.short.trans (by decide)
  noZero := plain.noZero
  notTrailer := notTrailer
  notDot := by
    rintro rfl
    exact plain.noDot rfl
  notDotSlash := by
    rintro ⟨rest, rfl⟩
    exact plain.noDot rfl

section Entries

variable {memory : Memory} {allocate : ℕ → ℕ} {fuel finish data : ℕ} {state : State}
  {file : File} {header namePadding dataPadding : Bytes}

theorem initrdEntry_skips (entry : IsEntry file.prefixed header namePadding dataPadding)
    (held : EntryAt memory data file.prefixed namePadding.length)
    (short : file.name.length ≤ 253)
    (inside : data + (entryBytes file.prefixed header namePadding dataPadding).length ≤ finish)
    (fits : finish < 2 ^ 32) :
    initrdEntry fuel memory allocate finish data state =
      some (.continue
        (data + (entryBytes file.prefixed header namePadding dataPadding).length) state) := by
  have nameLength : file.prefixed.name.length ≤ 255 := by
    rw [File.prefixed, List.length_append]
    exact Nat.add_le_add_left short 2
  have name := held.name
  have dot : memory (data + 110) = '.'.toUInt8 := by
    simp_all [File.prefixed, load, ascii]
  have slash : memory (data + 110 + 1) = '/'.toUInt8 := by
    simp_all [File.prefixed, load, ascii]
  have notTrailer : strcmpAt memory (data + 110) (ascii "TRAILER!!!") ≠ 0 := by
    intro isTrailer
    have first : memory (data + 110) = 'T'.toUInt8 :=
      (List.cons.inj ((strcmpAt_eq_zero (by decide)).mp isTrailer)).1
    rw [dot] at first
    exact absurd first (by decide)
  have readable : Readable memory finish data := by
    refine ⟨?_, held.magic, notTrailer⟩
    rw [entry.length_entryBytes] at inside
    rw [Word32.add_eq (by omega)]
    omega
  have isDotted : Dotted memory data := ⟨dot, Or.inr slash⟩
  rw [initrdEntry_eq, if_neg (not_not.mpr readable), if_pos isDotted, following, sizeAt,
    held.namesize, held.filesize, entry.nextEntry_eq nameLength (by omega)]

end Entries

theorem initrdLoop_prefixed {memory : Memory} {allocate : ℕ → ℕ} {finish : ℕ} {files : List File}
    {archive : Bytes} (fits : finish < 2 ^ 32)
    (short : ∀ file ∈ files, file.name.length ≤ 253)
    (isArchive : IsArchive (files.map File.prefixed) archive) {data : ℕ} {state : State}
    (room : state.fileCount < maxFiles) (held : load memory data archive.length = archive)
    (inside : data + archive.length ≤ finish) {fuel : ℕ} (enough : files.length < fuel) :
    initrdLoop memory allocate finish fuel data state = some state := by
  induction files generalizing archive data fuel with
  | nil =>
    cases isArchive with
    | close rest entry =>
      rw [List.length_append] at inside
      have entryAt := entry.entryAt (load_eq_append.mp held).1 (by omega)
      exact initrdLoop_trailer entryAt rfl enough
  | cons file files ih =>
    rcases fuel with _ | fuel
    · omega
    rw [List.forall_mem_cons] at short
    cases isArchive with
    | @add _ _ header namePadding dataPadding archive entry tail =>
      rw [List.length_append] at inside
      rcases load_eq_append.mp held with ⟨entryHeld, tailHeld⟩
      have entryLength := entry.length_entryBytes
      have entryAt := entry.entryAt entryHeld (by omega)
      rw [initrdLoop, if_pos ⟨by omega, room⟩,
        initrdEntry_skips entry entryAt short.1 (by omega) fits]
      exact ih short.2 tail tailHeld (by omega) (by simpa using enough)

theorem initrdInit_prefixed {memory : Memory} {allocate : ℕ → ℕ} {addr : ℕ} {state : State}
    {files : List File} {archive : Bytes}
    (isArchive : IsArchive (files.map File.prefixed) archive)
    (short : ∀ file ∈ files, file.name.length ≤ 253) (fits : addr + archive.length < 2 ^ 32)
    (held : load memory addr archive.length = archive) {fuel : ℕ} (enough : files.length < fuel) :
    initrdInit fuel memory allocate addr archive.length state =
      some (0, { state with fileCount := 0 }.createRoot allocate) := by
  have passes := @initrdLoop_prefixed memory allocate (addr + archive.length) files archive fits
    short isArchive addr { state with fileCount := 0 } (by simp [maxFiles]) held (le_refl _) fuel
    enough
  rw [initrdInit, Word32.add_eq fits, passes, Option.map_some]

theorem initrdInit_plain {memory : Memory} {allocate : ℕ → ℕ} {addr : ℕ} {state : State}
    {files : List File} {archive : Bytes} (isArchive : IsArchive files archive)
    (atMost : files.length ≤ 64) (plain : ∀ file ∈ files, PlainName file.name)
    (fits : addr + archive.length < 2 ^ 32) (held : load memory addr archive.length = archive) :
    ∃ loaded,
      (∀ fuel ≥ files.length + 257,
        initrdInit fuel memory allocate addr archive.length state =
          some (loaded.fileCount, loaded)) ∧
      (loaded.fileCount = 0 ↔ ∀ file ∈ files.head?, file.name = ascii "TRAILER!!!") := by
  rcases initrdInit_listed isArchive (fun file listed => (plain file listed).validName) atMost fits
    held with ⟨loaded, runs, count, -⟩
  refine ⟨loaded, runs, ?_⟩
  rw [count, List.length_eq_zero_iff]
  cases files <;> simp [listedFiles, List.takeWhile_cons]

/-- The archives with and without the prefix build the same table exactly when the latter
registers nothing either: there are no files, or the first one has the trailer's name. -/
theorem sameTable_prefixed_iff {memory dotMemory : Memory} {allocate dotAllocate : ℕ → ℕ}
    {addr dotAddr : ℕ} {state dotState : State} {files : List File}
    {archive dotArchive : Bytes} (isArchive : IsArchive files archive)
    (isDotArchive : IsArchive (files.map File.prefixed) dotArchive) (atMost : files.length ≤ 64)
    (plain : ∀ file ∈ files, PlainName file.name) (fits : addr + archive.length < 2 ^ 32)
    (dotFits : dotAddr + dotArchive.length < 2 ^ 32)
    (held : load memory addr archive.length = archive)
    (dotHeld : load dotMemory dotAddr dotArchive.length = dotArchive) :
    ∃ loaded dotLoaded,
      (∀ fuel ≥ files.length + 257,
        initrdInit fuel memory allocate addr archive.length state =
            some (loaded.fileCount, loaded) ∧
          initrdInit fuel dotMemory dotAllocate dotAddr dotArchive.length dotState =
            some (dotLoaded.fileCount, dotLoaded)) ∧
      (SameTable memory loaded dotMemory dotLoaded ↔
        ∀ file ∈ files.head?, file.name = ascii "TRAILER!!!") := by
  rcases @initrdInit_plain memory allocate addr state files archive isArchive atMost plain fits
    held with ⟨loaded, runs, count⟩
  refine ⟨loaded, { dotState with fileCount := 0 }.createRoot dotAllocate, ?_, ?_⟩
  · intro fuel enough
    exact ⟨runs fuel enough,
      initrdInit_prefixed isDotArchive (fun file listed => (plain file listed).short) dotFits
        dotHeld (by omega)⟩
  · rw [← count]
    constructor
    · intro same
      exact same.count
    · intro none
      refine ⟨none, ?_, ?_, ?_⟩
      all_goals
        intro index below
        omega

def motdArchive : Bytes :=
  entryBytes motdFile (plainHeader (ascii "00000003") (ascii "00000005")) [0] [0] ++
    (entryBytes trailer (plainHeader (ascii "00000000") (ascii "0000000B")) [0, 0, 0] [] ++ [])

def dotMotdArchive : Bytes :=
  entryBytes motdFile.prefixed (plainHeader (ascii "00000003") (ascii "00000007")) [0, 0, 0] [0] ++
    (entryBytes trailer (plainHeader (ascii "00000000") (ascii "0000000B")) [0, 0, 0] [] ++ [])

theorem dotMotdFile_isEntry :
    IsEntry motdFile.prefixed (plainHeader (ascii "00000003") (ascii "00000007")) [0, 0, 0] [0] :=
  ⟨by decide, by decide, by decide, by decide, by decide, by decide⟩

theorem motdArchive_isArchive : IsArchive [motdFile] motdArchive :=
  .add motdFile_isEntry (.close [] trailer_isEntry)

theorem dotMotdArchive_isArchive : IsArchive ([motdFile].map File.prefixed) dotMotdArchive :=
  .add dotMotdFile_isEntry (.close [] trailer_isEntry)

theorem length_motdArchive : motdArchive.length = 244 := by
  simp only [motdArchive, List.length_append, motdFile_isEntry.length_entryBytes,
    trailer_isEntry.length_entryBytes]
  rfl

theorem length_dotMotdArchive : dotMotdArchive.length = 248 := by
  simp only [dotMotdArchive, List.length_append, dotMotdFile_isEntry.length_entryBytes,
    trailer_isEntry.length_entryBytes]
  rfl

theorem motdFile_plain : ∀ file ∈ [motdFile], PlainName file.name := by
  intro file listed
  rw [List.mem_singleton] at listed
  subst listed
  exact ⟨by decide, by decide, by decide, by decide⟩

theorem sameTable_prefixed_motd :
    ∃ loaded dotLoaded,
      (∀ fuel ≥ [motdFile].length + 257,
        initrdInit fuel (place 0x800000 motdArchive) (fun _ => 0) 0x800000 motdArchive.length
            State.initial = some (loaded.fileCount, loaded) ∧
          initrdInit fuel (place 0x800000 dotMotdArchive) (fun _ => 0) 0x800000
            dotMotdArchive.length State.initial = some (dotLoaded.fileCount, dotLoaded)) ∧
      (SameTable (place 0x800000 motdArchive) loaded (place 0x800000 dotMotdArchive) dotLoaded ↔
        ∀ file ∈ [motdFile].head?, file.name = ascii "TRAILER!!!") :=
  sameTable_prefixed_iff motdArchive_isArchive dotMotdArchive_isArchive (by decide) motdFile_plain
    (by rw [length_motdArchive]; omega) (by rw [length_dotMotdArchive]; omega)
    (load_place_all _ _) (load_place_all _ _)

/-- The file `motd` is registered only from the archive without the prefix. -/
theorem dotMotd_lost :
    ∃ loaded dotLoaded,
      initrdInit 258 (place 0x800000 motdArchive) (fun _ => 0) 0x800000 motdArchive.length
          State.initial = some (loaded.fileCount, loaded) ∧
        initrdInit 258 (place 0x800000 dotMotdArchive) (fun _ => 0) 0x800000 dotMotdArchive.length
          State.initial = some (0, dotLoaded) ∧
        dotLoaded.fileCount = 0 ∧ loaded.fileCount ≠ 0 ∧
        ¬ SameTable (place 0x800000 motdArchive) loaded (place 0x800000 dotMotdArchive)
          dotLoaded := by
  rcases @initrdInit_plain (place 0x800000 motdArchive) (fun _ => 0) 0x800000 State.initial _ _
    motdArchive_isArchive (by decide) motdFile_plain (by rw [length_motdArchive]; omega)
    (load_place_all _ _) with ⟨loaded, runs, count⟩
  have registered : loaded.fileCount ≠ 0 := by
    rw [ne_eq, count]
    simp only [List.head?_cons, Option.mem_some_iff, forall_eq']
    decide
  have short : ∀ file ∈ [motdFile], file.name.length ≤ 253 :=
    fun file listed => (motdFile_plain file listed).short
  refine ⟨loaded, _, runs 258 (le_refl _),
    initrdInit_prefixed dotMotdArchive_isArchive short (by rw [length_dotMotdArchive]; omega)
      (load_place_all _ _) (by decide), rfl, registered, ?_⟩
  intro same
  exact registered same.count

end RamOS.Initrd
