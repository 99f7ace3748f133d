import Mathlib.Data.Finset.Card
import PeachOS.ProgramLoad

/-! Programs that are loaded one after another are all in place at the end, as long as there is room for them. -/

namespace PeachOS
open Program ByteMemory Search

/-- A program on the disk, under the name of its file. -/
structure DiskProgram (image : Image) (header : FatHeader) where
  filename : List Byte
  names : List (List Byte)
  item : FatDirectoryItem
  size : Nat
  cluster : Nat
  path : NamesPath filename names
  leads : LeadsTo image header true (rootPosition header) size names (.file item)
  short : ShortFile header item cluster
  elf : ElfProgram (clusterFile image header cluster item)
  fits : ProgramFits (clusterFile image header cluster item)

section Programs
variable {image : Image} {header : FatHeader} {room count i slot : Nat} {before after : Kernel} {process : Addr}

def DiskProgram.file (program : DiskProgram image header) : List Byte :=
  clusterFile image header program.cluster program.item

def DiskProgram.blocks (program : DiskProgram image header) : Nat :=
  processBlocks header program.filename program.names program.item

def Kernel.taskOf (kernel : Kernel) (process : Addr) : Addr := (kernel.processRecords process).task

section Writes
variable {kernel : Kernel} {writers : Set Addr} {area : Addr → Set Addr}

end Writes

end Programs

end PeachOS
