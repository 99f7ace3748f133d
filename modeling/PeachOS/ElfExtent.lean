import Mathlib.Data.List.GetD
import Mathlib.Data.List.Induction
import Mathlib.Data.List.Perm.Basic
import Mathlib.Order.Minimal
import PeachOS.Elf

/-! Which addresses `elf_process_pheaders` finds. The end of a program is a running maximum. Its
base is meant as a running minimum, but the loop compares `p_vaddr` with a base that it took from
`p_paddr`, and a base of zero counts as none. -/

namespace PeachOS
open ByteMemory

/-- What `elf_process_pheader` reads of a program header. -/
structure ProgramHeader where
  type : Word
  offset : Word
  vaddr : Addr
  paddr : Addr
  filesz : Word
  deriving DecidableEq, Inhabited

def programHeader (bytes : Bytes) (phdr : Addr) : ProgramHeader :=
  ⟨phdrType bytes phdr, phdrOffset bytes phdr, phdrVaddr bytes phdr, phdrPaddr bytes phdr, phdrFilesz bytes phdr⟩

def programHeaders (bytes : Bytes) (memory : Addr) : List ProgramHeader :=
  (List.range (elfPhnum bytes memory).toNat).map (fun i => programHeader bytes (elfProgramHeader bytes memory i))

namespace ProgramHeader

/-- The address behind the bytes from the file. -/
def stop (header : ProgramHeader) : Nat := header.vaddr.toNat + header.filesz.toNat

end ProgramHeader

/-- The address and the place in memory of the base after one more header of type `PT_LOAD`. -/
def baseStep (memory : Addr) (base : Addr × Addr) (header : ProgramHeader) : Addr × Addr :=
  if header.vaddr.toNat ≤ base.1.toNat ∨ base.1 = 0 then (header.paddr, memory + header.offset) else base

def endStep (memory : Addr) (last : Addr × Addr) (header : ProgramHeader) : Addr × Addr :=
  if last.1.toNat ≤ (header.vaddr + header.filesz).toNat ∨ last.1 = 0 then
    (header.vaddr + header.filesz, memory + header.offset + header.filesz)
  else last

def loads (headers : List ProgramHeader) : List ProgramHeader := headers.filter (·.type = ptLoad)

/-- The two pairs of addresses after some headers, each of which changes one pair by itself. -/
structure HeadersTaken (headers : List ProgramHeader) (file after : ElfFile) : Prop where
  memory : after.elfMemory = file.elfMemory
  base : (after.virtualBaseAddress, after.physicalBaseAddress) =
    (loads headers).foldl (baseStep file.elfMemory) (file.virtualBaseAddress, file.physicalBaseAddress)
  last : (after.virtualEndAddress, after.physicalEndAddress) =
    (loads headers).foldl (endStep file.elfMemory) (file.virtualEndAddress, file.physicalEndAddress)

theorem HeadersTaken.append {first second : List ProgramHeader} {file middle after : ElfFile}
    (early : HeadersTaken first file middle) (late : HeadersTaken second middle after) :
    HeadersTaken (first ++ second) file after where
  memory := late.memory.trans early.memory
  base := by
    unfold loads
    rw [List.filter_append, List.foldl_append, late.base, early.base, early.memory]
    rfl
  last := by
    unfold loads
    rw [List.filter_append, List.foldl_append, late.last, early.last, early.memory]
    rfl

theorem elfProcessPheader_takes (bytes : Bytes) (file : ElfFile) (phdr : Addr) :
    HeadersTaken [programHeader bytes phdr] file (elfProcessPheader bytes file phdr) := by
  unfold elfProcessPheader
  by_cases load : phdrType bytes phdr = ptLoad
  · have listed : loads [programHeader bytes phdr] = [programHeader bytes phdr] :=
      List.filter_cons_of_pos (decide_eq_true load)
    rw [if_pos load]
    unfold elfProcessPhdrPtLoad elfPhdrPhysAddress
    constructor
    · dsimp only
      split_ifs <;> rfl
    · rw [listed, List.foldl_cons, List.foldl_nil, baseStep]
      unfold programHeader
      dsimp only
      split_ifs <;> rfl
    · rw [listed, List.foldl_cons, List.foldl_nil, endStep]
      unfold programHeader
      dsimp only
      split_ifs <;> simp_all
  · have listed : loads [programHeader bytes phdr] = [] := List.filter_cons_of_neg (decide_eq_true_iff.not.2 load)
    rw [if_neg load]
    exact ⟨rfl, by rw [listed]; rfl, by rw [listed]; rfl⟩

theorem elfProcessPheadersLoop_takes (bytes : Bytes) (remaining i : Nat) (file : ElfFile) :
    HeadersTaken ((List.range' i remaining).map (fun i => programHeader bytes (elfProgramHeader bytes file.elfMemory i)))
      file (elfProcessPheadersLoop bytes remaining i file) := by
  induction remaining generalizing i file with
  | zero => exact ⟨rfl, rfl, rfl⟩
  | succ remaining ih =>
    have step := elfProcessPheader_takes bytes file (elfProgramHeader bytes file.elfMemory i)
    have rest := ih (i + 1) (elfProcessPheader bytes file (elfProgramHeader bytes file.elfMemory i))
    rw [step.memory] at rest
    exact step.append rest

def freshFile (memory : Addr) : ElfFile where
  elfMemory := memory
  virtualBaseAddress := 0
  virtualEndAddress := 0
  physicalBaseAddress := 0
  physicalEndAddress := 0

theorem elfProcessPheaders_takes (bytes : Bytes) (memory : Addr) :
    HeadersTaken (programHeaders bytes memory) (freshFile memory) (elfProcessPheaders bytes (freshFile memory)) := by
  have taken := elfProcessPheadersLoop_takes bytes (elfPhnum bytes memory).toNat 0 (freshFile memory)
  rw [← List.range_eq_range'] at taken
  exact taken

section Found
variable (headers : List ProgramHeader) (memory : Addr)

/-- A header of type `PT_LOAD` that begins at the least address. -/
def IsLow (low : ProgramHeader) : Prop :=
  low ∈ loads headers ∧ ∀ header ∈ loads headers, low.vaddr.toNat ≤ header.vaddr.toNat

/-- One that ends at the greatest address. -/
def IsHigh (high : ProgramHeader) : Prop :=
  high ∈ loads headers ∧ ∀ header ∈ loads headers, header.stop ≤ high.stop

/-- The addresses are those of a lowest and of a highest header. -/
def Resolves (file : ElfFile) : Prop :=
  ∃ low high, IsLow headers low ∧ IsHigh headers high ∧
    file.virtualBaseAddress = low.vaddr ∧ file.physicalBaseAddress = memory + low.offset ∧
    file.virtualEndAddress.toNat = high.stop ∧ file.physicalEndAddress = memory + high.offset + high.filesz

/-- A file whose table lists the headers in any order is resolved, and always in the same way if there
is one lowest and one highest header. -/
def ResolvesInAnyOrder : Prop :=
  (∀ bytes, (programHeaders bytes memory).Perm headers →
    Resolves headers memory (elfProcessPheaders bytes (freshFile memory))) ∧
  ((∀ low other, IsLow headers low → IsLow headers other → low = other) →
    (∀ high other, IsHigh headers high → IsHigh headers other → high = other) →
    ∀ bytes other, (programHeaders bytes memory).Perm headers → (programHeaders other memory).Perm headers →
      elfProcessPheaders bytes (freshFile memory) = elfProcessPheaders other (freshFile memory))

/-- The base is taken from headers that are loaded where they are linked, and no header of another
place passes for the lowest. -/
def BasesAgree : Prop :=
  ∀ low, IsLow headers low → low.paddr = low.vaddr ∧
    (low.vaddr ≠ 0 → ∀ header ∈ loads headers, header.paddr = 0 ∨ low.vaddr.toNat ≤ header.paddr.toNat) ∧
    (low.vaddr = 0 → ∀ header ∈ loads headers, header.paddr = 0 ∧
      ∃ other ∈ loads headers, other.vaddr = 0 ∧ other.offset = header.offset)

end Found

section Order
variable {headers order : List ProgramHeader}

theorem loads_perm (perm : order.Perm headers) : (loads order).Perm (loads headers) := perm.filter _

theorem IsLow.perm {low : ProgramHeader} (perm : order.Perm headers) (lowest : IsLow headers low) : IsLow order low :=
  ⟨(loads_perm perm).mem_iff.2 lowest.1, fun header member => lowest.2 header ((loads_perm perm).mem_iff.1 member)⟩

theorem IsHigh.perm {high : ProgramHeader} (perm : order.Perm headers) (highest : IsHigh headers high) :
    IsHigh order high :=
  ⟨(loads_perm perm).mem_iff.2 highest.1, fun header member => highest.2 header ((loads_perm perm).mem_iff.1 member)⟩

theorem exists_isLow (some : loads headers ≠ []) : ∃ low, IsLow headers low := by
  obtain ⟨low, member, least⟩ := exists_minimalFor_of_wellFoundedLT (· ∈ loads headers)
    (fun header => header.vaddr.toNat) (List.exists_mem_of_ne_nil _ some)
  exact ⟨low, member, fun header other => (le_total _ _).elim id (least other)⟩

theorem stop_toNat {header : ProgramHeader} (noWrap : header.stop < 2 ^ 32) :
    (header.vaddr + header.filesz).toNat = header.stop := by
  rw [BitVec.toNat_add]
  exact Nat.mod_eq_of_lt noWrap

/-- The running maximum is reached by the last header that ends where no earlier one ended later. -/
theorem foldl_endStep (memory : Addr) {listed : List ProgramHeader} (noWrap : ∀ header ∈ listed, header.stop < 2 ^ 32)
    (some : listed ≠ []) :
    ∃ high ∈ listed, (∀ header ∈ listed, header.stop ≤ high.stop) ∧
      listed.foldl (endStep memory) (0, 0) = (high.vaddr + high.filesz, memory + high.offset + high.filesz) := by
  induction listed using List.reverseRecOn with
  | nil => exact absurd rfl some
  | append_singleton earlier header ih =>
    have last := stop_toNat (noWrap header List.mem_concat_self)
    rw [List.foldl_append, List.foldl_cons, List.foldl_nil]
    by_cases first : earlier = []
    · refine ⟨header, List.mem_concat_self, ?_, ?_⟩
      · intro other member
        rw [first, List.nil_append, List.mem_singleton] at member
        rw [member]
      · rw [first]
        exact if_pos (Or.inr rfl)
    · obtain ⟨high, listed, greatest, reached⟩ := ih (fun other member => noWrap other (List.mem_append_left _ member))
        first
      have before := stop_toNat (noWrap high (List.mem_append_left _ listed))
      rw [reached, endStep]
      dsimp only
      by_cases further : high.stop ≤ header.stop
      · rw [if_pos (Or.inl (by omega))]
        refine ⟨header, List.mem_concat_self, ?_, rfl⟩
        intro other member
        rcases List.mem_append.1 member with early | here
        · exact (greatest other early).trans further
        · rw [List.mem_singleton.1 here]
      · have kept : ¬ ((high.vaddr + high.filesz).toNat ≤ (header.vaddr + header.filesz).toNat ∨
            high.vaddr + high.filesz = 0) := by
          rintro (le | zero)
          · omega
          · rw [zero] at before
            have none : (0 : Addr).toNat = 0 := rfl
            omega
        rw [if_neg kept]
        refine ⟨high, List.mem_append_left _ listed, ?_, rfl⟩
        intro other member
        rcases List.mem_append.1 member with early | here
        · exact greatest other early
        · rw [List.mem_singleton.1 here]
          omega

/-- The base while no header loads below `least`: unset or not below it, and at it once a header
loads there. -/
theorem foldl_baseStep_nonzero (memory : Addr) {listed : List ProgramHeader} {least : Addr} (nonzero : least ≠ 0)
    (above : ∀ header ∈ listed, least.toNat ≤ header.vaddr.toNat)
    (placed : ∀ header ∈ listed, header.vaddr = least → header.paddr = least)
    (others : ∀ header ∈ listed, header.paddr = 0 ∨ least.toNat ≤ header.paddr.toNat) :
    ((listed.foldl (baseStep memory) (0, 0)).1 = 0 ∨ least.toNat ≤ (listed.foldl (baseStep memory) (0, 0)).1.toNat) ∧
      ((∃ header ∈ listed, header.vaddr = least) → ∃ low ∈ listed, low.vaddr = least ∧
        listed.foldl (baseStep memory) (0, 0) = (least, memory + low.offset)) := by
  induction listed using List.reverseRecOn with
  | nil => exact ⟨Or.inl rfl, fun ⟨_, member, _⟩ => absurd member List.not_mem_nil⟩
  | append_singleton earlier header ih =>
    obtain ⟨unset, found⟩ := ih (fun other member => above other (List.mem_append_left _ member))
      (fun other member => placed other (List.mem_append_left _ member))
      (fun other member => others other (List.mem_append_left _ member))
    have here : header ∈ earlier ++ [header] := List.mem_concat_self
    rw [List.foldl_append, List.foldl_cons, List.foldl_nil]
    generalize earlier.foldl (baseStep memory) (0, 0) = base at unset found
    unfold baseStep
    by_cases at_least : header.vaddr = least
    · -- a header at the least address is always taken
      have taken : header.vaddr.toNat ≤ base.1.toNat ∨ base.1 = 0 := by
        rw [at_least]
        exact unset.symm
      rw [if_pos taken, placed header here at_least]
      exact ⟨Or.inr le_rfl, fun _ => ⟨header, here, at_least, rfl⟩⟩
    · have later : (∃ other ∈ earlier ++ [header], other.vaddr = least) → ∃ other ∈ earlier, other.vaddr = least := by
        rintro ⟨other, member, same⟩
        rcases List.mem_append.1 member with early | last
        · exact ⟨other, early, same⟩
        · rw [List.mem_singleton.1 last] at same
          exact absurd same at_least
      have beyond : least.toNat < header.vaddr.toNat :=
        lt_of_le_of_ne (above header here) (fun same => at_least (BitVec.eq_of_toNat_eq same.symm))
      constructor
      · split_ifs
        · exact others header here
        · exact unset
      · intro some
        obtain ⟨low, listed, same, reached⟩ := found (later some)
        rw [reached]
        have kept : ¬ (header.vaddr.toNat ≤ least.toNat ∨ least = 0) := by
          rintro (le | zero)
          · omega
          · exact nonzero zero
        rw [if_neg kept]
        exact ⟨low, List.mem_append_left _ listed, same, rfl⟩

theorem foldl_baseStep_zero (memory : Addr) {listed : List ProgramHeader} (some : listed ≠ [])
    (zero : ∀ header ∈ listed, header.paddr = 0) :
    ∃ last ∈ listed, listed.foldl (baseStep memory) (0, 0) = (0, memory + last.offset) := by
  induction listed using List.reverseRecOn with
  | nil => exact absurd rfl some
  | append_singleton earlier header ih =>
    have here : header ∈ earlier ++ [header] := List.mem_concat_self
    have unset : (earlier.foldl (baseStep memory) (0, 0)).1 = 0 := by
      by_cases first : earlier = []
      · rw [first]
        rfl
      · obtain ⟨_, _, reached⟩ := ih first (fun other member => zero other (List.mem_append_left _ member))
        rw [reached]
    rw [List.foldl_append, List.foldl_cons, List.foldl_nil, baseStep, if_pos (Or.inr unset), zero header here]
    exact ⟨header, here, rfl⟩

end Order

section Image
variable (memory : Addr) (headers : List ProgramHeader)

def ProgramHeader.words (header : ProgramHeader) : List Word :=
  [header.type, header.offset, header.vaddr, header.paddr, header.filesz]

def imageOf : Bytes := fun target =>
  let place := (target - memory).toNat
  if place < 52 then
    if place = 28 then 52
    else if place = 44 then (BitVec.ofNat 16 headers.length).extractLsb' 0 8
    else if place = 45 then (BitVec.ofNat 16 headers.length).extractLsb' 8 8
    else 0
  else
    let word := (headers.getD ((place - 52) / 32) default).words.getD ((place - 52) % 32 / 4) 0
    word.extractLsb' (8 * (place % 4)) 8

theorem imageOf_word {i k : Nat} (bound : i < 2 ^ 16) (field : k < 5) :
    load32 (imageOf memory headers) (memory + 52 + BitVec.ofNat 32 (32 * i) + BitVec.ofNat 32 (4 * k)) =
      (headers.getD i default).words.getD k 0 := by
  have byte : ∀ j < 4, imageOf memory headers
      (memory + 52 + BitVec.ofNat 32 (32 * i) + BitVec.ofNat 32 (4 * k) + BitVec.ofNat 32 j) =
        ((headers.getD i default).words.getD k 0).extractLsb' (8 * j) 8 := by
    intro j small
    have place : (memory + 52 + BitVec.ofNat 32 (32 * i) + BitVec.ofNat 32 (4 * k) + BitVec.ofNat 32 j - memory).toNat =
        52 + 32 * i + 4 * k + j := by bv_omega
    unfold imageOf
    dsimp only
    rw [place, if_neg (by omega), show (52 + 32 * i + 4 * k + j - 52) / 32 = i by omega,
      show (52 + 32 * i + 4 * k + j - 52) % 32 / 4 = k by omega, show (52 + 32 * i + 4 * k + j) % 4 = j by omega]
  exact load32_of_bytes byte

theorem imageOf_phoff : elfPheader (imageOf memory headers) memory = memory + 52 := by
  have word : elfPhoff (imageOf memory headers) memory = 52 := by
    apply load32_of_bytes
    intro j small
    have place : (memory + 28 + BitVec.ofNat 32 j - memory).toNat = 28 + j := by bv_omega
    unfold imageOf
    dsimp only
    rw [place, if_pos (by omega)]
    match j, small with
    | 0, _ => rfl
    | 1, _ => rfl
    | 2, _ => rfl
    | 3, _ => rfl
  unfold elfPheader
  rw [word, if_neg (by decide)]

theorem imageOf_phnum : elfPhnum (imageOf memory headers) memory = BitVec.ofNat 16 headers.length := by
  apply load16_of_bytes
  intro j small
  have place : (memory + 44 + BitVec.ofNat 32 j - memory).toNat = 44 + j := by bv_omega
  unfold imageOf
  dsimp only
  rw [place, if_pos (by omega)]
  match j, small with
  | 0, _ => rfl
  | 1, _ => rfl

theorem programHeaders_imageOf (counted : headers.length < 2 ^ 16) :
    programHeaders (imageOf memory headers) memory = headers := by
  have count : (BitVec.ofNat 16 headers.length).toNat = headers.length := by
    rw [BitVec.toNat_ofNat, Nat.mod_eq_of_lt counted]
  unfold programHeaders
  rw [imageOf_phnum, count]
  apply List.ext_getElem
  · rw [List.length_map, List.length_range]
  · intro i _ bound
    have word : ∀ k < 5, load32 (imageOf memory headers)
        (memory + 52 + BitVec.ofNat 32 (32 * i) + BitVec.ofNat 32 (4 * k)) = headers[i].words.getD k 0 := by
      intro k field
      rw [imageOf_word memory headers (by omega) field, List.getD_eq_getElem _ _ bound]
    have type := word 0 (by decide)
    rw [BitVec.add_zero] at type
    rw [List.getElem_map, List.getElem_range]
    unfold programHeader elfProgramHeader
    rw [imageOf_phoff]
    unfold phdrType phdrOffset phdrVaddr phdrPaddr phdrFilesz
    have offset := word 1 (by decide)
    have vaddr := word 2 (by decide)
    have paddr := word 3 (by decide)
    have filesz := word 4 (by decide)
    exact congr (congr (congr (congr (congrArg ProgramHeader.mk type) offset) vaddr) paddr) filesz

end Image

section Exact
variable {headers : List ProgramHeader} {memory : Addr}

theorem BasesAgree.perm {order : List ProgramHeader} (agree : BasesAgree headers) (perm : order.Perm headers) :
    BasesAgree order := by
  intro low lowest
  obtain ⟨placed, others, zero⟩ := agree low (lowest.perm perm.symm)
  have same (header : ProgramHeader) : header ∈ loads order ↔ header ∈ loads headers := (loads_perm perm).mem_iff
  simp only [same]
  exact ⟨placed, others, zero⟩

theorem BasesAgree.base (memory : Addr) (agree : BasesAgree headers) (some : loads headers ≠ []) :
    ∃ low, IsLow headers low ∧ (loads headers).foldl (baseStep memory) (0, 0) = (low.vaddr, memory + low.offset) := by
  obtain ⟨least, lowest⟩ := exists_isLow some
  obtain ⟨_, others, zero⟩ := agree least lowest
  have level {low : ProgramHeader} (member : low ∈ loads headers) (same : low.vaddr = least.vaddr) : IsLow headers low :=
    ⟨member, fun header other => same ▸ lowest.2 header other⟩
  by_cases atZero : least.vaddr = 0
  · obtain ⟨last, listed, reached⟩ := foldl_baseStep_zero memory some (fun header member => (zero atZero header member).1)
    obtain ⟨_, low, member, same, offset⟩ := zero atZero last listed
    exact ⟨low, level member (same.trans atZero.symm), by rw [reached, same, offset]⟩
  · have placed : ∀ header ∈ loads headers, header.vaddr = least.vaddr → header.paddr = least.vaddr :=
      fun header member same => (agree header (level member same)).1.trans same
    obtain ⟨low, member, same, reached⟩ := (foldl_baseStep_nonzero memory atZero lowest.2 placed
      (others atZero)).2 ⟨least, lowest.1, rfl⟩
    exact ⟨low, level member same, by rw [reached, same]⟩

theorem BasesAgree.resolves {bytes : Bytes} (agree : BasesAgree headers) (some : loads headers ≠ [])
    (noWrap : ∀ header ∈ loads headers, header.stop < 2 ^ 32) (perm : (programHeaders bytes memory).Perm headers) :
    Resolves headers memory (elfProcessPheaders bytes (freshFile memory)) := by
  have listed := loads_perm perm
  have takes := elfProcessPheaders_takes bytes memory
  obtain ⟨low, lowest, base⟩ := (agree.perm perm).base memory
    (fun none => some (List.perm_nil.1 (none ▸ listed.symm)))
  obtain ⟨high, member, greatest, reached⟩ := foldl_endStep memory
    (fun header member => noWrap header (listed.mem_iff.1 member))
    (fun none => some (List.perm_nil.1 (none ▸ listed.symm)))
  have highest : IsHigh headers high := IsHigh.perm perm.symm ⟨member, greatest⟩
  have bases := takes.base.trans base
  have ends := takes.last.trans reached
  rw [Prod.mk.injEq] at bases ends
  exact ⟨low, high, lowest.perm perm.symm, highest, bases.1, bases.2,
    by rw [ends.1, stop_toNat (noWrap high highest.1)], ends.2⟩

theorem Resolves.unique {file other : ElfFile} (first : Resolves headers memory file)
    (second : Resolves headers memory other)
    (lows : ∀ low other, IsLow headers low → IsLow headers other → low = other)
    (highs : ∀ high other, IsHigh headers high → IsHigh headers other → high = other)
    (same : file.elfMemory = other.elfMemory) : file = other := by
  obtain ⟨low, high, lowest, highest, vbase, pbase, vend, pend⟩ := first
  obtain ⟨low', high', lowest', highest', vbase', pbase', vend', pend'⟩ := second
  rw [← lows low low' lowest lowest'] at vbase' pbase'
  rw [← highs high high' highest highest'] at vend' pend'
  have ends : file.virtualEndAddress = other.virtualEndAddress := BitVec.eq_of_toNat_eq (vend.trans vend'.symm)
  cases file
  cases other
  simp only [ElfFile.mk.injEq] at *
  exact ⟨same, vbase.trans vbase'.symm, ends, pbase.trans pbase'.symm, pend.trans pend'.symm⟩

theorem ResolvesInAnyOrder.base (resolved : ResolvesInAnyOrder headers memory) (counted : headers.length < 2 ^ 16)
    {order : List ProgramHeader} (perm : order.Perm headers) :
    ∃ low, IsLow headers low ∧ (loads order).foldl (baseStep memory) (0, 0) = (low.vaddr, memory + low.offset) := by
  have table : programHeaders (imageOf memory order) memory = order :=
    programHeaders_imageOf memory order (perm.length_eq ▸ counted)
  have takes := elfProcessPheaders_takes (imageOf memory order) memory
  obtain ⟨low, _, lowest, _, vbase, pbase, _, _⟩ := resolved.1 (imageOf memory order) (by rw [table]; exact perm)
  have base := takes.base
  rw [table, vbase, pbase] at base
  exact ⟨low, lowest, base.symm⟩

theorem loads_last {front : List ProgramHeader} {header : ProgramHeader} (load : header.type = ptLoad) :
    loads (front ++ [header]) = loads front ++ [header] := by
  have taken : loads [header] = [header] := List.filter_cons_of_pos (decide_eq_true load)
  unfold loads at *
  rw [List.filter_append, taken]

theorem load_of_mem {header : ProgramHeader} (member : header ∈ loads headers) :
    header ∈ headers ∧ header.type = ptLoad := by
  obtain ⟨listed, load⟩ := List.mem_filter.1 member
  exact ⟨listed, of_decide_eq_true load⟩

theorem foldl_baseStep_below (memory : Addr) {listed : List ProgramHeader} {base : Addr × Addr} (set : base.1 ≠ 0)
    (below : ∀ header ∈ listed, base.1.toNat < header.vaddr.toNat) : listed.foldl (baseStep memory) base = base := by
  induction listed with
  | nil => rfl
  | cons header rest ih =>
    have kept : ¬ (header.vaddr.toNat ≤ base.1.toNat ∨ base.1 = 0) := by
      rintro (le | zero)
      · have above := below header List.mem_cons_self
        omega
      · exact set zero
    rw [List.foldl_cons, baseStep, if_neg kept]
    exact ih (fun other member => below other (List.mem_cons_of_mem _ member))

theorem ResolvesInAnyOrder.placed (resolved : ResolvesInAnyOrder headers memory) (counted : headers.length < 2 ^ 16)
    {low : ProgramHeader} (lowest : IsLow headers low) : low.paddr = low.vaddr := by
  obtain ⟨listed, load⟩ := load_of_mem lowest.1
  have perm : (headers.erase low ++ [low]).Perm headers :=
    (List.perm_append_singleton low _).trans (List.perm_cons_erase listed).symm
  obtain ⟨other, otherLow, reached⟩ := resolved.base counted perm
  have least : other.vaddr = low.vaddr :=
    BitVec.eq_of_toNat_eq (le_antisymm (otherLow.2 low lowest.1) (lowest.2 other otherLow.1))
  rw [loads_last load, List.foldl_append, List.foldl_cons, List.foldl_nil, baseStep] at reached
  split_ifs at reached with taken
  · exact (congrArg Prod.fst reached).trans least
  · -- a base that is kept is below the lowest header
    rw [reached, least] at taken
    exact absurd (Or.inl le_rfl) taken

theorem ResolvesInAnyOrder.others (resolved : ResolvesInAnyOrder headers memory) (counted : headers.length < 2 ^ 16)
    {low header : ProgramHeader} (lowest : IsLow headers low) (member : header ∈ loads headers) :
    header.paddr = 0 ∨ low.vaddr.toNat ≤ header.paddr.toNat := by
  by_contra below
  obtain ⟨set, under⟩ := not_or.1 below
  obtain ⟨listed, load⟩ := load_of_mem member
  have perm : (header :: headers.erase header).Perm headers := (List.perm_cons_erase listed).symm
  obtain ⟨other, otherLow, reached⟩ := resolved.base counted perm
  have first : loads (header :: headers.erase header) = header :: loads (headers.erase header) :=
    List.filter_cons_of_pos (decide_eq_true load)
  have kept : (loads (headers.erase header)).foldl (baseStep memory) (header.paddr, memory + header.offset) =
      (header.paddr, memory + header.offset) := by
    apply foldl_baseStep_below memory set
    intro next later
    have least := lowest.2 next ((loads_perm perm).mem_iff.1 (first ▸ List.mem_cons_of_mem _ later))
    dsimp only
    omega
  rw [first, List.foldl_cons, baseStep, if_pos (Or.inr rfl), kept] at reached
  have least := lowest.2 other otherLow.1
  have same : header.paddr = other.vaddr := congrArg Prod.fst reached
  rw [same] at under
  omega

theorem ResolvesInAnyOrder.zero (resolved : ResolvesInAnyOrder headers memory) (counted : headers.length < 2 ^ 16)
    {low header : ProgramHeader} (lowest : IsLow headers low) (atZero : low.vaddr = 0) (member : header ∈ loads headers) :
    header.paddr = 0 ∧ ∃ other ∈ loads headers, other.vaddr = 0 ∧ other.offset = header.offset := by
  have placed := (resolved.placed counted lowest).trans atZero
  by_cases same : header = low
  · rw [same]
    exact ⟨placed, low, lowest.1, atZero, rfl⟩
  · obtain ⟨lowListed, lowLoad⟩ := load_of_mem lowest.1
    obtain ⟨listed, load⟩ := load_of_mem member
    have perm : ((headers.erase header).erase low ++ [low] ++ [header]).Perm headers := by
      have inner : ((headers.erase header).erase low ++ [low]).Perm (headers.erase header) :=
        (List.perm_append_singleton low _).trans
          (List.perm_cons_erase ((List.mem_erase_of_ne (Ne.symm same)).2 lowListed)).symm
      exact (inner.append_right [header]).trans
        ((List.perm_append_singleton header _).trans (List.perm_cons_erase listed).symm)
    obtain ⟨other, otherLow, reached⟩ := resolved.base counted perm
    have least : other.vaddr = 0 := by
      apply BitVec.eq_of_toNat_eq
      have le := otherLow.2 low lowest.1
      rw [atZero] at le
      exact Nat.le_zero.1 le
    rw [loads_last load, loads_last lowLoad, List.foldl_append, List.foldl_append, List.foldl_cons, List.foldl_nil,
      List.foldl_cons, List.foldl_nil] at reached
    have unset : baseStep memory ((loads ((headers.erase header).erase low)).foldl (baseStep memory) (0, 0)) low =
        (0, memory + low.offset) := by
      unfold baseStep
      rw [if_pos (Or.inl (by rw [atZero]; exact Nat.zero_le _)), placed]
    rw [unset, baseStep, if_pos (Or.inr rfl), least, Prod.mk.injEq] at reached
    exact ⟨reached.1, other, otherLow.1, least, (BitVec.add_right_inj memory).1 reached.2.symm⟩

/-- A table is resolved in any order of its headers if and only if their bases agree. -/
theorem elfProcessPheaders_resolves (counted : headers.length < 2 ^ 16) (some : loads headers ≠ [])
    (noWrap : ∀ header ∈ loads headers, header.stop < 2 ^ 32) :
    ResolvesInAnyOrder headers memory ↔ BasesAgree headers := by
  constructor
  · intro resolved low lowest
    exact ⟨resolved.placed counted lowest, fun _ header => resolved.others counted lowest,
      fun atZero header => resolved.zero counted lowest atZero⟩
  · intro agree
    refine ⟨fun bytes => agree.resolves some noWrap, fun lows highs bytes other perm otherPerm => ?_⟩
    have memorySame := (elfProcessPheaders_takes bytes memory).memory.trans
      (elfProcessPheaders_takes other memory).memory.symm
    exact (agree.resolves some noWrap perm).unique (agree.resolves some noWrap otherPerm) lows highs memorySame

end Exact

/-- Two segments of a program, the lower of which is to be placed at `placed`. -/
def relocatedHeaders (placed : Addr) : List ProgramHeader :=
  [⟨1, 0x1000, 0x400000, placed, 0x10⟩, ⟨1, 0x2000, 0x401000, 0x401000, 0x10⟩]

/-- It is placed where it is linked. -/
theorem elfProcessPheaders_resolves_linked : ResolvesInAnyOrder (relocatedHeaders 0x400000) 0x1000000 :=
  (elfProcessPheaders_resolves (by decide) (by decide) (by decide)).mpr fun low ⟨member, lowest⟩ => by
    have listed : loads (relocatedHeaders 0x400000) = relocatedHeaders 0x400000 := by decide
    rw [listed] at member lowest ⊢
    have least := lowest _ List.mem_cons_self
    rcases List.mem_cons.mp member with rfl | later
    · exact ⟨rfl, fun _ => by decide, fun zero => absurd zero (by decide)⟩
    · rw [List.mem_singleton.mp later] at least
      exact absurd least (by decide)

/-- The base of these is where the lower one is to be placed, not where it is linked. -/
theorem elfProcessPheaders_relocated : ¬ ResolvesInAnyOrder (relocatedHeaders 0x100000) 0x1000000 := by
  intro resolved
  have lowest : IsLow (relocatedHeaders 0x100000) ⟨1, 0x1000, 0x400000, 0x100000, 0x10⟩ := ⟨by decide, by decide⟩
  exact absurd (resolved.placed (by decide) lowest) (by decide)

end PeachOS
