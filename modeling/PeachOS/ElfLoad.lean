import PeachOS.Elf
import PeachOS.File

/-! `elf_load` of `loader/formats/elfloader.c`: the file is read into a block of its size,
and its header is looked at there. -/

namespace PeachOS
open Program

abbrev sizeofElfFile : Word := 132

def Kernel.setElfFile (kernel : Kernel) (file : Addr) (record : ElfFile) : Kernel :=
  { kernel with elfFiles := Function.update kernel.elfFiles file record }

/-- `kzalloc` for the record of a file. -/
def newElfFile : KernelProg Addr := do
  let elfFile ← Kernel.kzalloc sizeofElfFile
  if elfFile = 0 then pure 0
  else
    update (fun kernel => kernel.setElfFile elfFile ⟨0, 0, 0, 0, 0⟩)
    pure elfFile

/-- `elf_process_loaded` on the record and on memory. -/
def Kernel.elfProcessLoaded (elfFile : Addr) : KernelProg Int := fun kernel =>
  let (res, record) := PeachOS.elfProcessLoaded kernel.memory.bytes (kernel.elfFiles elfFile)
  (.ok res, kernel.setElfFile elfFile record)

/-- `elf_load` with the file open, up to its `out` label. Neither pointer is checked: the
file may be read to address zero. -/
def elfLoadFile (elfFile : Addr) (fd : Int) : KernelProg (Int × Addr) := do
  let (res, stat) ← fstat fd ⟨0, 0⟩
  if res < 0 then pure (res, 0)
  else
    let memory ← Kernel.kzalloc stat.filesize
    if elfFile = 0 then fault
    else
      update (fun kernel => kernel.setElfFile elfFile
        { kernel.elfFiles elfFile with elfMemory := memory })
      let res ← fread memory stat.filesize 1 fd
      if res < 0 then pure (res, 0)
      else
        let res ← Kernel.elfProcessLoaded elfFile
        if res < 0 then pure (res, 0) else pure (res, elfFile)

/-- The result, and the record that goes out through `file_out`. -/
def elfLoad (filename : List Byte) : KernelProg (Int × Addr) := do
  let elfFile ← newElfFile
  let res ← fopen filename [0x72]
  if res < 0 then
    let _ ← fclose 0
    pure (res, 0)
  else
    let result ← elfLoadFile elfFile res
    let _ ← fclose res
    pure result

end PeachOS
