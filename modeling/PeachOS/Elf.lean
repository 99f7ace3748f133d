import PeachOS.Kernel

/-! The headers of an ELF image in memory, from `loader/formats/elf.h` and
`elfloader.c`. A header is the address of its first byte. -/

namespace PeachOS
open Program ByteMemory

abbrev pfW : Word := 0x02
abbrev ptLoad : Word := 1
abbrev etExec : BitVec 16 := 2

def elfType (bytes : Bytes) (header : Addr) : BitVec 16 := load16 bytes (header + 16)
def elfEntry (bytes : Bytes) (header : Addr) : Addr := load32 bytes (header + 24)
def elfPhoff (bytes : Bytes) (header : Addr) : Word := load32 bytes (header + 28)
def elfPhnum (bytes : Bytes) (header : Addr) : BitVec 16 := load16 bytes (header + 44)

def phdrType (bytes : Bytes) (phdr : Addr) : Word := load32 bytes phdr
def phdrOffset (bytes : Bytes) (phdr : Addr) : Word := load32 bytes (phdr + 4)
def phdrVaddr (bytes : Bytes) (phdr : Addr) : Addr := load32 bytes (phdr + 8)
def phdrPaddr (bytes : Bytes) (phdr : Addr) : Addr := load32 bytes (phdr + 12)
def phdrFilesz (bytes : Bytes) (phdr : Addr) : Word := load32 bytes (phdr + 16)
def phdrMemsz (bytes : Bytes) (phdr : Addr) : Word := load32 bytes (phdr + 20)
def phdrFlags (bytes : Bytes) (phdr : Addr) : Word := load32 bytes (phdr + 24)

def elfValidSignature (bytes : Bytes) (header : Addr) : Bool :=
  loadBytes bytes header 4 == [0x7f, 0x45, 0x4c, 0x46]

/-- `EI_CLASS` is none or 32-bit. -/
def elfValidClass (bytes : Bytes) (header : Addr) : Bool :=
  bytes (header + 4) == 0 || bytes (header + 4) == 1

/-- `EI_DATA` is none or little-endian. -/
def elfValidEncoding (bytes : Bytes) (header : Addr) : Bool :=
  bytes (header + 5) == 0 || bytes (header + 5) == 1

/-- No function of the loader calls it. -/
def elfIsExecutable (bytes : Bytes) (header : Addr) : Bool :=
  elfType bytes header == etExec &&
    decide (peachosProgramVirtualAddress.toNat ≤ (elfEntry bytes header).toNat)

def elfHasProgramHeader (bytes : Bytes) (header : Addr) : Bool := elfPhoff bytes header != 0

def elfValidateLoaded (bytes : Bytes) (header : Addr) : Int :=
  if elfValidSignature bytes header && elfValidClass bytes header &&
      elfValidEncoding bytes header && elfHasProgramHeader bytes header then 0
  else -EINFORMAT

def elfPheader (bytes : Bytes) (header : Addr) : Addr :=
  if elfPhoff bytes header = 0 then 0 else header + elfPhoff bytes header

def elfProgramHeader (bytes : Bytes) (header : Addr) (index : Nat) : Addr :=
  elfPheader bytes header + BitVec.ofNat 32 (32 * index)

def elfPhdrPhysAddress (bytes : Bytes) (file : ElfFile) (phdr : Addr) : Addr :=
  file.elfMemory + phdrOffset bytes phdr

def elfProcessPhdrPtLoad (bytes : Bytes) (file : ElfFile) (phdr : Addr) : ElfFile :=
  let based : ElfFile :=
    if (phdrVaddr bytes phdr).toNat ≤ file.virtualBaseAddress.toNat ∨ file.virtualBaseAddress = 0 then
      { file with
        virtualBaseAddress := phdrPaddr bytes phdr
        physicalBaseAddress := elfPhdrPhysAddress bytes file phdr }
    else file
  let endVirtualAddress := phdrVaddr bytes phdr + phdrFilesz bytes phdr
  if based.virtualEndAddress.toNat ≤ endVirtualAddress.toNat ∨ based.virtualEndAddress = 0 then
    { based with
      virtualEndAddress := endVirtualAddress
      physicalEndAddress := elfPhdrPhysAddress bytes file phdr + phdrFilesz bytes phdr }
  else based

def elfProcessPheader (bytes : Bytes) (file : ElfFile) (phdr : Addr) : ElfFile :=
  if phdrType bytes phdr = ptLoad then elfProcessPhdrPtLoad bytes file phdr else file

def elfProcessPheadersLoop (bytes : Bytes) : (remaining i : Nat) → ElfFile → ElfFile
  | 0, _, file => file
  | remaining + 1, i, file =>
      elfProcessPheadersLoop bytes remaining (i + 1)
        (elfProcessPheader bytes file (elfProgramHeader bytes file.elfMemory i))

def elfProcessPheaders (bytes : Bytes) (file : ElfFile) : ElfFile :=
  elfProcessPheadersLoop bytes (elfPhnum bytes file.elfMemory).toNat 0 file

/-- Fills in the addresses of a loaded file, when its header is one the loader takes. -/
def elfProcessLoaded (bytes : Bytes) (file : ElfFile) : Int × ElfFile :=
  if elfValidateLoaded bytes file.elfMemory < 0 then (elfValidateLoaded bytes file.elfMemory, file)
  else (0, elfProcessPheaders bytes file)

/-- The file is a null pointer or the address of its record. -/
def elfClose (file : Addr) : KernelProg Unit :=
  if file = 0 then pure ()
  else do
    let record ← read (fun kernel => kernel.elfFiles file)
    Kernel.kfree record.elfMemory
    Kernel.kfree file

end PeachOS
