import PeachOS.FileRecords
import PeachOS.Strings

/-! `fs/pparser.c`. A path is what is left of its characters; the pointer that the code
advances is the list that is left. -/

namespace PeachOS
open Program

abbrev slash : Byte := 0x2F

def pathparserPathValidFormat (filename : List Byte) : Bool :=
  let len := strnlen filename peachosMaxPath
  3 ≤ len && isdigit (filename.getD 0 0) && (filename.getD 1 0 == 0x3A && filename.getD 2 0 == slash)

/-- The drive, and the path after `0:/`. -/
def pathparserGetDriveByPath (path : List Byte) : Int × List Byte :=
  if !pathparserPathValidFormat path then (- EBADPATH, path)
  else (tonumericdigit (path.getD 0 0), path.drop 3)

def pathparserCreateRoot (driveNumber : Int) : KernelProg Addr := do
  let pathR ← Kernel.newRecord 8 (.pathRoot ⟨0, 0⟩)
  Kernel.writeRecord FileRecord.asPathRoot pathR (.pathRoot ⟨driveNumber, 0⟩)
  pure pathR

/-- Character `i` of the buffer of a part. -/
def pathparserSetChar (resultPathPart : Addr) (i : Nat) (c : Byte) : KernelProg Unit := do
  let _ ← Kernel.record FileRecord.asPathString resultPathPart
  update (fun kernel => kernel.setMemory { kernel.memory with
    bytes := Function.update kernel.memory.bytes (resultPathPart + BitVec.ofNat 32 i) c })

/-- The loop of `pathparser_get_path_part`, with the number of characters copied. -/
def pathparserCopyLoop (resultPathPart : Addr) : (i : Nat) → List Byte → KernelProg (Nat × List Byte)
  | i, [] => pure (i, [])
  | i, c :: path =>
      if c = slash ∨ c = 0 then pure (i, c :: path)
      else do
        pathparserSetChar resultPathPart i c
        pathparserCopyLoop resultPathPart (i + 1) path

def pathparserGetPathPart (path : List Byte) : KernelProg (Addr × List Byte) := do
  let resultPathPart ← Kernel.newRecord (BitVec.ofNat 32 peachosMaxPath) .pathString
  let (i, path) ← pathparserCopyLoop resultPathPart 0 path
  let path := if path.headD 0 = slash then path.tail else path
  if i = 0 then do
    Kernel.freeRecord FileRecord.asPathString resultPathPart
    pure (0, path)
  else pure (resultPathPart, path)

def pathparserParsePathPart (lastPart : Addr) (path : List Byte) : KernelProg (Addr × List Byte) := do
  let (pathPartStr, path) ← pathparserGetPathPart path
  if pathPartStr = 0 then pure (0, path)
  else
    let part ← Kernel.newRecord 8 (.pathPart ⟨0, 0⟩)
    Kernel.writeRecord FileRecord.asPathPart part (.pathPart ⟨pathPartStr, 0⟩)
    if lastPart ≠ 0 then
      let last ← Kernel.record FileRecord.asPathPart lastPart
      Kernel.writeRecord FileRecord.asPathPart lastPart (.pathPart { last with next := part })
    pure (part, path)

/-- The loop of `pathparser_parse`. Each round takes a character at least. -/
def pathparserParseLoop : (fuel : Nat) → (part : Addr) → List Byte → KernelProg Unit
  | 0, _, _ => fault
  | fuel + 1, part, path =>
      if part = 0 then pure ()
      else do
        let (part, path) ← pathparserParsePathPart part path
        pathparserParseLoop fuel part path

/-- The loop of `pathparser_free`. -/
def pathparserFreeLoop : (fuel : Nat) → (part : Addr) → KernelProg Unit
  | 0, _ => fault
  | fuel + 1, part =>
      if part = 0 then pure ()
      else do
        let record ← Kernel.record FileRecord.asPathPart part
        Kernel.freeRecord FileRecord.asPathString record.part
        Kernel.freeRecord FileRecord.asPathPart part
        pathparserFreeLoop fuel record.next

def pathparserFree (fuel : Nat) (root : Addr) : KernelProg Unit := do
  let record ← Kernel.record FileRecord.asPathRoot root
  pathparserFreeLoop fuel record.first
  Kernel.freeRecord FileRecord.asPathRoot root

def pathparserParse (path : List Byte) : KernelProg Addr := do
  if peachosMaxPath < strlen path then pure 0
  else
    let (res, tmpPath) := pathparserGetDriveByPath path
    if res < 0 then pure 0
    else
      let pathRoot ← pathparserCreateRoot res
      if pathRoot = 0 then pure pathRoot
      else
        let (firstPart, tmpPath) ← pathparserParsePathPart 0 tmpPath
        if firstPart = 0 then pure pathRoot
        else
          let root ← Kernel.record FileRecord.asPathRoot pathRoot
          Kernel.writeRecord FileRecord.asPathRoot pathRoot (.pathRoot { root with first := firstPart })
          let (part, rest) ← pathparserParsePathPart firstPart tmpPath
          pathparserParseLoop (tmpPath.length + 1) part rest
          pure pathRoot

end PeachOS
