import Mathlib.Algebra.Group.Int.Defs
import Mathlib.Algebra.Group.Nat.Defs
import Mathlib.Data.Nat.Notation
import PeachOS.Lib.Program

/-! What the kernel's code runs on: the constants of `config.h`, `status.h` and `paging.h` that
the model reads, the registers of a task, and the ways in which a piece of kernel code ends
other than by returning. -/

namespace PeachOS
open Program

abbrev Addr := BitVec 32
abbrev Byte := BitVec 8
abbrev HalfWord := BitVec 16
abbrev Word := BitVec 32

abbrev heapBlockSize : Nat := 4096
abbrev heapSizeBytes : Nat := 104857600
abbrev heapAddress : Addr := 0x01000000
abbrev heapTableAddress : Addr := 0x00007E00

abbrev EIO : Int := 1
abbrev EINVARG : Int := 2
abbrev ENOMEM : Int := 3
abbrev EBADPATH : Int := 4
abbrev EFSNOTUS : Int := 5
abbrev ERDONLY : Int := 6
abbrev EUNIMP : Int := 7
abbrev EISTKN : Int := 8
abbrev EINFORMAT : Int := 9

/-- `struct registers`, in the order of its fields. -/
structure Registers where
  edi : Word
  esi : Word
  ebp : Word
  ebx : Word
  edx : Word
  ecx : Word
  eax : Word
  ip : Word
  cs : Word
  flags : Word
  esp : Word
  ss : Word
  deriving DecidableEq, Repr

/-- `fault` is an access through a null or dangling pointer or below a buffer, for
which the code has no defined behaviour; `panic` prints and never returns; `resume` is
an `iretd` to user mode with the registers it loads. -/
inductive Stop where
  | fault
  | panic (message : String)
  | resume (registers : Registers)
  deriving DecidableEq, Repr

def fault {σ α : Type} : Prog σ Stop α := stop Stop.fault

def panic {σ α : Type} (message : String) : Prog σ Stop α := stop (Stop.panic message)

end PeachOS
