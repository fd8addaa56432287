import RamOS.Proc.ElfImage

/-!
# Incomplete loads

The loop of `elf_load` skips what it cannot read, and the entry point is returned all the same. For
a file of the initrd, what can be read is a matter of its bytes: the program headers have to lie
inside of it, and so do the bytes of a loadable segment, which must not belong at address 0. This
presupposes that no segment is loaded over the file or over the variables of the loader.
-/

namespace RamOS.Proc

open ByteMemory CString Slice
open Initrd (Disk Framed IsFileNode OpenOn contents fileAddresses initrdInterface)
open Vfs (FileDescriptor Files Machine vfsOpen vfsRead vfsSeek)

def Readable (text : Bytes) : Prop :=
  ∀ i < (headerOf text).phnum, HeaderInside text i ∧
    ((programHeaderOf text i).type = ptLoad → SegmentInside text (programHeaderOf text i))

section Segment

variable {disk : Disk} {fd : ℤ} {index : ℕ} {text : Bytes} {entry : FileDescriptor}
  {files : Files (Machine Disk)} {phdr : ProgramHeader} {kernel : Set ℕ}

end Segment

section Loop

variable {disk : Disk} {fd : ℤ} {index i : ℕ} {text : Bytes} {frame : Frame}
  {entry : FileDescriptor} {kernel : Set ℕ} {files started : Files (Machine Disk)}
  (short : text.length < 2 ^ 31)
  (locals : range frame.header headerBytes ∪ range frame.phdr programHeaderBytes ⊆ kernel)
  (kernelApart : Disjoint kernel (disk.initrd.files index).bytes)
  (apart : LoadsApart kernel (disk.initrd.files index).bytes text)

include short locals kernelApart apart

end Loop

end RamOS.Proc
