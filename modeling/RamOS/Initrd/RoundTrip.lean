import Mathlib.Data.List.TakeWhile
import RamOS.Initrd.Model

/-!
# Reading back a cpio archive

The newc format is stated as a relation between a list of files and the bytes of an archive: it
fixes the magic number, the two numerals that the reader needs, the terminated name and the two
paddings, and leaves the other fields, the letter case, the padding bytes and whatever follows
the trailer open.
-/

namespace RamOS.Initrd

open ByteMemory CString

structure File where
  name : Bytes
  contents : Bytes

def hexDigit (char : UInt8) : Option ℕ :=
  if '0'.toUInt8 ≤ char ∧ char ≤ '9'.toUInt8 then some (char.toNat - 48)
  else if 'A'.toUInt8 ≤ char ∧ char ≤ 'F'.toUInt8 then some (char.toNat - 55)
  else if 'a'.toUInt8 ≤ char ∧ char ≤ 'f'.toUInt8 then some (char.toNat - 87)
  else none

def hexValue (high : ℕ) : Bytes → Option ℕ
  | [] => some high
  | char :: rest => (hexDigit char).bind fun digit => hexValue (16 * high + digit) rest

/-- The parts of an archive entry in newc format. -/
structure IsEntry (file : File) (header namePadding dataPadding : Bytes) : Prop where
  headerLength : header.length = 110
  magic : header.take 6 = ascii "070701"
  filesize : hexValue 0 ((header.drop 54).take 8) = some file.contents.length
  namesize : hexValue 0 ((header.drop 94).take 8) = some (file.name.length + 1)
  namePadded : namePadding.length < 4 ∧ 4 ∣ 110 + (file.name.length + 1) + namePadding.length
  dataPadded : dataPadding.length < 4 ∧ 4 ∣ file.contents.length + dataPadding.length

def entryBytes (file : File) (header namePadding dataPadding : Bytes) : Bytes :=
  header ++ ((file.name ++ [0]) ++ (namePadding ++ (file.contents ++ dataPadding)))

def trailer : File where
  name := ascii "TRAILER!!!"
  contents := []

/-- An archive of the files, closed by the trailer entry. -/
inductive IsArchive : List File → Bytes → Prop
  | close {header namePadding dataPadding : Bytes} (rest : Bytes)
      (entry : IsEntry trailer header namePadding dataPadding) :
      IsArchive [] (entryBytes trailer header namePadding dataPadding ++ rest)
  | add {file : File} {files : List File} {header namePadding dataPadding archive : Bytes}
      (entry : IsEntry file header namePadding dataPadding) (tail : IsArchive files archive) :
      IsArchive (file :: files) (entryBytes file header namePadding dataPadding ++ archive)

structure ValidName (name : Bytes) : Prop where
  nonempty : name ≠ []
  short : name.length ≤ 255
  noZero : 0 ∉ name
  notTrailer : name ≠ ascii "TRAILER!!!"
  notDot : name ≠ ascii "."
  notDotSlash : ¬ ascii "./" <+: name

structure Describes (memory : Memory) (entry : InitrdFile) (file : File) : Prop where
  name : entry.name = file.name
  size : entry.size = file.contents.length
  contents : load memory entry.data file.contents.length = file.contents

variable {value data fuel finish : ℕ} {memory : Memory} {state : State} {file : File}
  {header namePadding dataPadding : Bytes} {allocate : ℕ → ℕ}

theorem align4_eq (fits : value + 3 < 2 ^ 32) :
    align4 value = 4 * ((value + 3) / 4) := by
  rw [align4, Word32.add_eq fits]
  exact @Word32.and_not_low 2 (value + 3) (by omega) fits

theorem parseHexDigit_eq {val digit : ℕ} {char : UInt8} (isDigit : hexDigit char = some digit)
    (fits : 16 * val + digit < 2 ^ 32) : parseHexDigit val char = 16 * val + digit := by
  have shifted : val * 2 ^ 4 % 2 ^ 32 = 16 * val := by omega
  have upper : 'A'.toUInt8 ≤ char → 65 ≤ char.toNat := fun le => UInt8.le_iff_toNat_le.mp le
  have lower : 'a'.toUInt8 ≤ char → 97 ≤ char.toNat := fun le => UInt8.le_iff_toNat_le.mp le
  simp only [parseHexDigit, hexDigit, shifted, Char.reduceToNat] at isDigit ⊢
  split_ifs at isDigit ⊢ with isDecimal isUpper isLower
  · cases isDigit
    exact Word32.add_eq fits
  · cases isDigit
    have value : char.toNat - 65 + 10 = char.toNat - 55 := by
      have := upper isUpper.1
      omega
    rw [value]
    exact Word32.add_eq fits
  · cases isDigit
    have value : char.toNat - 97 + 10 = char.toNat - 87 := by
      have := lower isLower.1
      omega
    rw [value]
    exact Word32.add_eq fits

theorem le_hexValue {high : ℕ} {text : Bytes} (read : hexValue high text = some value) :
    high ≤ value := by
  induction text generalizing high with
  | nil =>
    cases read
    exact le_rfl
  | cons char rest ih =>
    rcases Option.bind_eq_some_iff.mp read with ⟨digit, isDigit, readRest⟩
    have below := ih readRest
    omega

theorem foldl_parseHexDigit {high : ℕ} {text : Bytes} (read : hexValue high text = some value)
    (fits : value < 2 ^ 32) :
    text.foldl parseHexDigit high = value := by
  induction text generalizing high with
  | nil =>
    cases read
    rfl
  | cons char rest ih =>
    rcases Option.bind_eq_some_iff.mp read with ⟨digit, isDigit, readRest⟩
    have below := le_hexValue readRest
    rw [List.foldl_cons, parseHexDigit_eq isDigit (by omega)]
    exact ih readRest

structure EntryAt (memory : Memory) (data : ℕ) (file : File) (padding : ℕ) : Prop where
  magic : load memory data 6 = ascii "070701"
  filesize : parseHex memory (data + 54) 8 = file.contents.length
  namesize : parseHex memory (data + 94) 8 = file.name.length + 1
  name : load memory (data + 110) (file.name ++ [0]).length = file.name ++ [0]
  contents :
    load memory (data + (110 + (file.name.length + 1) + padding)) file.contents.length =
      file.contents

theorem parseHex_field {offset : ℕ} (held : load memory data header.length = header)
    (inside : offset + 8 ≤ header.length)
    (read : hexValue 0 ((header.drop offset).take 8) = some value) (fits : value < 2 ^ 32) :
    parseHex memory (data + offset) 8 = value := by
  have field : load memory (data + offset) 8 = (header.drop offset).take 8 := by
    rw [← held, drop_load (by omega), take_load (by omega)]
  rw [parseHex, field]
  exact foldl_parseHexDigit read fits

theorem IsEntry.length_entryBytes (entry : IsEntry file header namePadding dataPadding) :
    (entryBytes file header namePadding dataPadding).length =
      110 + (file.name.length + 1) + namePadding.length +
        (file.contents.length + dataPadding.length) := by
  simp only [entryBytes, List.length_append, entry.headerLength, List.length_singleton]
  omega

theorem IsEntry.entryAt
    (entry : IsEntry file header namePadding dataPadding)
    (held : load memory data (entryBytes file header namePadding dataPadding).length =
      entryBytes file header namePadding dataPadding)
    (fits : (entryBytes file header namePadding dataPadding).length < 2 ^ 32) :
    EntryAt memory data file namePadding.length := by
  rw [entry.length_entryBytes] at fits
  rw [entryBytes] at held
  rcases load_eq_append.mp held with ⟨headerHeld, held⟩
  rcases load_eq_append.mp held with ⟨nameHeld, held⟩
  rcases load_eq_append.mp held with ⟨-, held⟩
  rcases load_eq_append.mp held with ⟨contentsHeld, -⟩
  refine ⟨?_, ?_, ?_, ?_, ?_⟩
  · rw [← entry.magic, ← headerHeld, take_load (by rw [entry.headerLength]; omega)]
  · exact parseHex_field headerHeld (by rw [entry.headerLength]; omega) entry.filesize (by omega)
  · exact parseHex_field headerHeld (by rw [entry.headerLength]; omega) entry.namesize (by omega)
  · rwa [entry.headerLength] at nameHeld
  · rw [entry.headerLength, List.length_append, List.length_singleton] at contentsHeld
    convert contentsHeld using 2
    omega

theorem initrdEntry_trailer {padding : ℕ} (entry : EntryAt memory data file padding)
    (named : file.name = ascii "TRAILER!!!") :
    initrdEntry fuel memory allocate finish data state = some .leave := by
  have isTrailer : strcmpAt memory (data + 110) (ascii "TRAILER!!!") = 0 := by
    rw [strcmpAt_eq_zero (by decide), ← named]
    exact entry.name
  simp only [initrdEntry, entry.magic, isTrailer, ne_eq, not_true_eq_false, if_true,
    ite_self]

theorem initrdLoop_trailer {padding : ℕ} (entry : EntryAt memory data file padding)
    (named : file.name = ascii "TRAILER!!!") (enough : 0 < fuel) :
    initrdLoop memory allocate finish fuel data state = some state := by
  rcases Nat.exists_eq_succ_of_ne_zero enough.ne' with ⟨fuel, rfl⟩
  rw [initrdLoop, initrdEntry_trailer entry named]
  simp

theorem ValidName.strcmpAt_ne {address : ℕ} {name : Bytes} (valid : ValidName name)
    (held : load memory address (name ++ [0]).length = name ++ [0]) :
    strcmpAt memory address (ascii "TRAILER!!!") ≠ 0 := by
  intro isTrailer
  have trailerHeld := (strcmpAt_eq_zero (by decide)).mp isTrailer
  have nameLength := @strlen_of_load memory name address 300 held valid.noZero
    (by have := valid.short; omega)
  have trailerLength := @strlen_of_load memory _ address 300 trailerHeld (by decide) (by decide)
  have sameLength : name.length = (ascii "TRAILER!!!").length :=
    Option.some.inj (nameLength.symm.trans trailerLength)
  have same : name ++ [0] = ascii "TRAILER!!!" ++ [0] := by
    rw [← held, ← trailerHeld, List.length_append, List.length_append, sameLength]
  exact valid.notTrailer (List.append_cancel_right same)

theorem ValidName.not_skipped {address : ℕ} {name : Bytes} (valid : ValidName name)
    (held : load memory address (name ++ [0]).length = name ++ [0]) :
    ¬ (memory address = '.'.toUInt8 ∧
      (memory (address + 1) = 0 ∨ memory (address + 1) = '/'.toUInt8)) := by
  rintro ⟨dot, second⟩
  match name, valid, held with
  | [], valid, _ => exact valid.nonempty rfl
  | [first], valid, held =>
    have isFirst : memory address = first := by simp_all [load]
    exact valid.notDot (by rw [← isFirst, dot]; rfl)
  | first :: next :: rest, valid, held =>
    have isFirst : memory address = first := by simp_all [load]
    have isNext : memory (address + 1) = next := by simp_all [load]
    rcases second with ended | slash
    · exact valid.noZero (by simp [← isNext, ended])
    · refine valid.notDotSlash ⟨rest, ?_⟩
      rw [← isFirst, ← isNext, dot, slash]
      rfl

section Entry

variable (entry : IsEntry file header namePadding dataPadding)
include entry

theorem IsEntry.headerSize_eq (short : file.name.length ≤ 255) :
    headerSize (file.name.length + 1) = 110 + (file.name.length + 1) + namePadding.length := by
  have padded := entry.namePadded
  rw [headerSize, Word32.add_eq (by omega), align4_eq (by omega)]
  omega

theorem IsEntry.nextEntry_eq (short : file.name.length ≤ 255)
    (fits : data + (entryBytes file header namePadding dataPadding).length < 2 ^ 32) :
    nextEntry data (file.name.length + 1) file.contents.length =
      data + (entryBytes file header namePadding dataPadding).length := by
  rw [entry.length_entryBytes] at fits ⊢
  have padded := entry.dataPadded
  have dataEq : dataSize file.contents.length = file.contents.length + dataPadding.length := by
    rw [dataSize, align4_eq (by omega)]
    omega
  have sum := @Word32.add_eq (110 + (file.name.length + 1) + namePadding.length)
    (file.contents.length + dataPadding.length) (by omega)
  rw [nextEntry, entry.headerSize_eq short, dataEq, sum, Word32.add_eq (by omega)]

variable (held : EntryAt memory data file namePadding.length) (valid : ValidName file.name)
  (inside : data + (entryBytes file header namePadding dataPadding).length ≤ finish)
  (fits : finish < 2 ^ 32) (room : state.fileCount < maxFiles) (enough : 256 ≤ fuel)
include held valid inside fits room enough

theorem initrdEntry_file :
    initrdEntry fuel memory allocate finish data state =
      some (.continue (data + (entryBytes file header namePadding dataPadding).length)
        (state.register allocate file.name file.contents.length
          (data + (110 + (file.name.length + 1) + namePadding.length)))) := by
  have short := valid.short
  have namePadded := entry.namePadded
  have dataPadded := entry.dataPadded
  rw [entry.length_entryBytes] at inside ⊢
  have headerEq := entry.headerSize_eq short
  have next := entry.nextEntry_eq short (by rw [entry.length_entryBytes]; omega : data + _ < _)
  rw [entry.length_entryBytes] at next
  have counted : strlen fuel memory (data + 110) = some file.name.length :=
    strlen_of_load held.name valid.noZero (by omega)
  have nameHeld := (load_eq_append.mp held.name).1
  have notSkipped := valid.not_skipped held.name
  have notStripped : ¬ (memory (data + 110) = '.'.toUInt8 ∧
      memory (data + 110 + 1) = '/'.toUInt8) := fun ⟨dot, slash⟩ => notSkipped ⟨dot, Or.inr slash⟩
  have notCut : ¬ 256 ≤ file.name.length := by omega
  have bodyInside : ¬ finish < Word32.add data 110 := by
    rw [Word32.add_eq (by omega)]
    omega
  rw [initrdEntry, if_neg bodyInside, if_neg (by rw [held.magic]; simp)]
  dsimp only
  rw [if_neg (valid.strcmpAt_ne held.name), if_neg notSkipped, if_pos room, if_neg notStripped,
    counted, held.namesize, held.filesize, next, headerEq, Option.map_some, if_neg notCut,
    nameHeld, Word32.add_eq (by omega)]

theorem initrdLoop_file :
    initrdLoop memory allocate finish (fuel + 1) data state =
      initrdLoop memory allocate finish fuel
        (data + (entryBytes file header namePadding dataPadding).length)
        (state.register allocate file.name file.contents.length
          (data + (110 + (file.name.length + 1) + namePadding.length))) := by
  have before : data < finish := by
    rw [entry.length_entryBytes] at inside
    omega
  rw [initrdLoop, if_pos ⟨before, room⟩,
    initrdEntry_file entry held valid inside fits room enough]

end Entry

/-- The files before the first one with the trailer's name, at which the loop ends. -/
def listedFiles (files : List File) : List File :=
  files.takeWhile (·.name ≠ ascii "TRAILER!!!")

theorem listedFiles_eq {files : List File} (valid : ∀ file ∈ files, ValidName file.name) :
    listedFiles files = files := by
  rw [listedFiles, List.takeWhile_eq_self_iff]
  exact fun file listed => decide_eq_true (valid file listed).notTrailer

/-- The entry describes the file, and its contents lie between two addresses. -/
structure DescribesIn (memory : Memory) (start finish : ℕ) (entry : InitrdFile) (file : File) : Prop
    extends Describes memory entry file where
  lower : start ≤ entry.data
  upper : entry.data + entry.size ≤ finish

section Loop

variable {memory : Memory} {allocate : ℕ → ℕ} {files : List File} {archive : Bytes}
  (isArchive : IsArchive files archive)
  (valid : ∀ file ∈ files, file.name ≠ ascii "TRAILER!!!" → ValidName file.name)
include isArchive valid

theorem initrdLoop_archive {finish data : ℕ} {state : State} (fits : finish < 2 ^ 32)
    (held : load memory data archive.length = archive) (inside : data + archive.length ≤ finish)
    (room : state.fileCount + files.length ≤ maxFiles) :
    ∃ loaded,
      (∀ fuel ≥ files.length + 257,
        initrdLoop memory allocate finish fuel data state = some loaded) ∧
      loaded.fileCount = state.fileCount + (listedFiles files).length ∧
      (∀ index < state.fileCount, loaded.files index = state.files index) ∧
      ∀ (index : ℕ) (listed : index < (listedFiles files).length),
        DescribesIn memory data finish (loaded.files (state.fileCount + index))
          (listedFiles files)[index] := by
  induction isArchive generalizing data state with
  | @close header namePadding dataPadding rest entry =>
    rw [List.length_append] at inside
    have entryAt := entry.entryAt (load_eq_append.mp held).1 (by omega)
    refine ⟨state, ?_, rfl, fun _ _ => rfl, ?_⟩
    · intro fuel enough
      exact initrdLoop_trailer entryAt rfl (by omega)
    · intro index listed
      exact absurd listed (Nat.not_lt_zero index)
  | @add file files header namePadding dataPadding archive entry tail ih =>
    rw [List.length_append] at inside
    rw [List.length_cons] at room
    rcases load_eq_append.mp held with ⟨entryHeld, tailHeld⟩
    have entryAt := entry.entryAt entryHeld (by omega)
    by_cases isTrailer : file.name = ascii "TRAILER!!!"
    · have none : listedFiles (file :: files) = [] := by simp [listedFiles, isTrailer]
      rw [none]
      refine ⟨state, ?_, rfl, fun _ _ => rfl, ?_⟩
      · intro fuel enough
        exact initrdLoop_trailer entryAt isTrailer (by omega)
      · intro index listed
        exact absurd listed (Nat.not_lt_zero index)
    have listedCons : listedFiles (file :: files) = file :: listedFiles files := by
      simp [listedFiles, isTrailer]
    rw [listedCons]
    have validFile := valid file (by simp) isTrailer
    rcases @ih (fun other listed => valid other (by simp [listed]))
      (data + (entryBytes file header namePadding dataPadding).length)
      (state.register allocate file.name file.contents.length
        (data + (110 + (file.name.length + 1) + namePadding.length)))
      tailHeld (by omega) (by rw [State.register_fileCount]; omega) with
      ⟨loaded, runs, count, kept, described⟩
    rw [State.register_fileCount] at count kept described
    refine ⟨loaded, ?_, ?_, ?_, ?_⟩
    · intro fuel enough
      rw [List.length_cons] at enough
      rcases Nat.exists_eq_succ_of_ne_zero (by omega : fuel ≠ 0) with ⟨fuel, rfl⟩
      rw [initrdLoop_file entry entryAt validFile (by omega) fits (by omega) (by omega)]
      exact runs fuel (by omega)
    · rw [count, List.length_cons]
      omega
    · intro index before
      rw [kept index (by omega), State.register_files_of_ne (by omega)]
    · intro index listed
      have length := entry.length_entryBytes
      rcases index with _ | index
      · rw [Nat.add_zero, kept _ (by omega), State.register_files_same]
        exact ⟨⟨rfl, rfl, entryAt.contents⟩, Nat.le_add_right _ _, by dsimp only; omega⟩
      · have shifted : state.fileCount + (index + 1) = state.fileCount + 1 + index := by omega
        rw [shifted, List.getElem_cons_succ]
        have later := described index (by simpa using listed)
        exact { later with lower := (Nat.le_add_right _ _).trans later.lower }

theorem initrdInit_listed {addr : ℕ} {state : State} (atMost : files.length ≤ 64)
    (fits : addr + archive.length < 2 ^ 32) (held : load memory addr archive.length = archive) :
    ∃ loaded,
      (∀ fuel ≥ files.length + 257,
        initrdInit fuel memory allocate addr archive.length state =
          some (loaded.fileCount, loaded)) ∧
      loaded.fileCount = (listedFiles files).length ∧
      ∀ (index : ℕ) (listed : index < (listedFiles files).length),
        DescribesIn memory addr (addr + archive.length) (loaded.files index)
          (listedFiles files)[index] := by
  rcases @initrdLoop_archive memory allocate files archive isArchive valid (addr + archive.length)
    addr { state with fileCount := 0 } fits held le_rfl (by simpa [maxFiles] using atMost) with
    ⟨loaded, runs, count, -, described⟩
  simp only [Nat.zero_add] at count described
  refine ⟨loaded.createRoot allocate, ?_, count, described⟩
  intro fuel enough
  rw [initrdInit, Word32.add_eq fits, runs fuel enough, Option.map_some]
  rfl

end Loop

theorem initrdInit_valid {memory : Memory} {allocate : ℕ → ℕ} {addr : ℕ} {state : State}
    {files : List File} {archive : Bytes} (isArchive : IsArchive files archive)
    (atMost : files.length ≤ 64) (valid : ∀ file ∈ files, ValidName file.name)
    (fits : addr + archive.length < 2 ^ 32) (held : load memory addr archive.length = archive) :
    ∃ loaded,
      (∀ fuel ≥ files.length + 257,
        initrdInit fuel memory allocate addr archive.length state =
          some (files.length, loaded)) ∧
      loaded.fileCount = files.length ∧
      ∀ (index : ℕ) (listed : index < files.length),
        DescribesIn memory addr (addr + archive.length) (loaded.files index) files[index] := by
  rcases initrdInit_listed isArchive (fun file listed _ => valid file listed) atMost fits held with
    ⟨loaded, runs, count, described⟩
  rw [listedFiles_eq valid] at count described
  rw [count] at runs
  exact ⟨loaded, runs, count, described⟩

/-- Every newc archive of at most 64 files is read back: the call returns their number, and the
table holds their names, sizes and contents in order. -/
theorem initrdInit_archive {memory : Memory} {allocate : ℕ → ℕ} {addr : ℕ} {state : State}
    {files : List File} {archive : Bytes} (isArchive : IsArchive files archive)
    (atMost : files.length ≤ 64) (valid : ∀ file ∈ files, ValidName file.name)
    (fits : addr + archive.length < 2 ^ 32) (held : load memory addr archive.length = archive) :
    ∃ loaded,
      (∀ fuel ≥ files.length + 257,
        initrdInit fuel memory allocate addr archive.length state =
          some (files.length, loaded)) ∧
      loaded.fileCount = files.length ∧
      ∀ (index : ℕ) (listed : index < files.length),
        Describes memory (loaded.files index) files[index] := by
  rcases initrdInit_valid isArchive atMost valid fits held with ⟨loaded, runs, count, described⟩
  exact ⟨loaded, runs, count, fun index listed => (described index listed).toDescribes⟩

/-- A header with the given numerals and zeros in the fields nobody reads. -/
def plainHeader (filesize namesize : Bytes) : Bytes :=
  ascii "070701" ++ List.replicate 48 '0'.toUInt8 ++ filesize ++
    List.replicate 32 '0'.toUInt8 ++ namesize ++ List.replicate 8 '0'.toUInt8

def motdFile : File where
  name := ascii "motd"
  contents := ascii "hi!"

def hostsFile : File where
  name := ascii "etc/hosts"
  contents := ascii "hello world"

theorem motdFile_isEntry :
    IsEntry motdFile (plainHeader (ascii "00000003") (ascii "00000005")) [0] [0] :=
  ⟨by decide, by decide, by decide, by decide, by decide, by decide⟩

theorem hostsFile_isEntry :
    IsEntry hostsFile (plainHeader (ascii "0000000B") (ascii "0000000a")) [] [0] :=
  ⟨by decide, by decide, by decide, by decide, by decide, by decide⟩

theorem trailer_isEntry :
    IsEntry trailer (plainHeader (ascii "00000000") (ascii "0000000B")) [0, 0, 0] [] :=
  ⟨by decide, by decide, by decide, by decide, by decide, by decide⟩

def sampleArchive : Bytes :=
  entryBytes motdFile (plainHeader (ascii "00000003") (ascii "00000005")) [0] [0] ++
    (entryBytes hostsFile (plainHeader (ascii "0000000B") (ascii "0000000a")) [] [0] ++
      (entryBytes trailer (plainHeader (ascii "00000000") (ascii "0000000B")) [0, 0, 0] [] ++ []))

theorem sampleArchive_isArchive : IsArchive [motdFile, hostsFile] sampleArchive :=
  .add motdFile_isEntry (.add hostsFile_isEntry (.close [] trailer_isEntry))

theorem length_sampleArchive : sampleArchive.length = 376 := by
  simp only [sampleArchive, List.length_append, motdFile_isEntry.length_entryBytes,
    hostsFile_isEntry.length_entryBytes, trailer_isEntry.length_entryBytes]
  rfl

theorem sampleFiles_valid : ∀ file ∈ [motdFile, hostsFile], ValidName file.name := by
  intro file listed
  rw [List.mem_cons, List.mem_singleton] at listed
  rcases listed with rfl | rfl
  · exact ⟨by decide, by decide, by decide, by decide, by decide, by decide⟩
  · exact ⟨by decide, by decide, by decide, by decide, by decide, by decide⟩

theorem initrdInit_archive_sample :
    ∃ loaded,
      (∀ fuel ≥ [motdFile, hostsFile].length + 257,
        initrdInit fuel (place 0x800000 sampleArchive) (fun _ => 0) 0x800000 sampleArchive.length
          State.initial = some (2, loaded)) ∧
      loaded.fileCount = 2 ∧
      ∀ (index : ℕ) (listed : index < [motdFile, hostsFile].length),
        Describes (place 0x800000 sampleArchive) (loaded.files index)
          [motdFile, hostsFile][index] :=
  initrdInit_archive sampleArchive_isArchive (by decide) sampleFiles_valid
    (by rw [length_sampleArchive]; omega) (load_place_all _ _)

end RamOS.Initrd
