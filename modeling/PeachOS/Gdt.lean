import Mathlib.Logic.Function.Basic
import Mathlib.Tactic.IntervalCases
import PeachOS.Machine

/-! `gdt/gdt.c`: the segment descriptors that the processor reads, out of a base, a limit and a type each. -/

namespace PeachOS
open Program

structure GdtStructured where
  base : Word
  limit : Word
  type : Byte
  deriving DecidableEq

abbrev GdtBytes := Nat → Byte

def setGdtByte (offset : Nat) (value : Byte) : Prog GdtBytes Stop Unit :=
  update (fun bytes => Function.update bytes offset value)

abbrev sizeofGdt : Nat := 8

def encodeGdtEntry (target : Nat) (source : GdtStructured) : Prog GdtBytes Stop Unit := do
  if 65536 < source.limit.toNat ∧ source.limit &&& 0xFFF ≠ 0xFFF then
    panic "encodeGdtEntry: Invalid argument\n"
  else
    setGdtByte (target + 6) 0x40
    let limit ← (if 65536 < source.limit.toNat then do
        setGdtByte (target + 6) 0xC0
        pure (source.limit >>> 12)
      else pure source.limit)
    setGdtByte target ((limit &&& 0xFF).setWidth 8)
    setGdtByte (target + 1) ((limit >>> 8 &&& 0xFF).setWidth 8)
    let flags ← read (fun bytes => bytes (target + 6))
    setGdtByte (target + 6) (flags ||| (limit >>> 16 &&& 0x0F).setWidth 8)
    setGdtByte (target + 2) ((source.base &&& 0xFF).setWidth 8)
    setGdtByte (target + 3) ((source.base >>> 8 &&& 0xFF).setWidth 8)
    setGdtByte (target + 4) ((source.base >>> 16 &&& 0xFF).setWidth 8)
    setGdtByte (target + 7) ((source.base >>> 24 &&& 0xFF).setWidth 8)
    setGdtByte (target + 5) source.type

def gdtStructuredToGdt (structuredGdt : Nat → GdtStructured) : (totalEntries : Nat) → Prog GdtBytes Stop Unit
  | 0 => pure ()
  | i + 1 => do
      gdtStructuredToGdt structuredGdt i
      encodeGdtEntry (sizeofGdt * i) (structuredGdt i)

/-- The entry at an offset as the processor loads it, low byte first. -/
def descriptor (bytes : GdtBytes) (offset : Nat) : BitVec 64 :=
  bytes (offset + 7) ++ bytes (offset + 6) ++ bytes (offset + 5) ++ bytes (offset + 4) ++ bytes (offset + 3) ++
    bytes (offset + 2) ++ bytes (offset + 1) ++ bytes offset

def limitField (entry : BitVec 64) : BitVec 20 := entry.extractLsb' 48 4 ++ entry.extractLsb' 0 16

/-- The segment that the processor takes a descriptor for: with the granularity bit, the limit is in pages. -/
def decodeDescriptor (entry : BitVec 64) : GdtStructured where
  base := entry.extractLsb' 56 8 ++ entry.extractLsb' 16 24
  limit := if entry.getLsbD 55 then limitField entry ++ 0xFFF#12 else (limitField entry).setWidth 32
  type := entry.extractLsb' 40 8

/-- A limit that the encoder takes. -/
def GdtStructured.Accepted (source : GdtStructured) : Prop :=
  source.limit.toNat ≤ 65536 ∨ source.limit &&& 0xFFF = 0xFFF

/-- The flags of an entry, without the limit's bits. -/
def GdtStructured.flags (source : GdtStructured) : Byte := if 65536 < source.limit.toNat then 0xC0 else 0x40

def GdtStructured.scaled (source : GdtStructured) : Word :=
  if 65536 < source.limit.toNat then source.limit >>> 12 else source.limit

def GdtStructured.encoded (source : GdtStructured) : List Byte :=
  [source.scaled.extractLsb' 0 8, source.scaled.extractLsb' 8 8, source.base.extractLsb' 0 8,
    source.base.extractLsb' 8 8, source.base.extractLsb' 16 8, source.type,
    source.flags ||| (source.scaled.extractLsb' 16 4).setWidth 8, source.base.extractLsb' 24 8]

def putEntry (bytes : GdtBytes) (target : Nat) (entry : List Byte) : GdtBytes := fun offset =>
  if target ≤ offset ∧ offset < target + sizeofGdt then entry.getD (offset - target) 0 else bytes offset

section Encode

theorem byte_of_word (word : Word) (k : Nat) : (word >>> k &&& 0xFF).setWidth 8 = word.extractLsb' k 8 := by
  rw [BitVec.setWidth_and, show (0xFF : Word).setWidth 8 = BitVec.allOnes 8 from rfl, BitVec.and_allOnes,
    BitVec.setWidth_ushiftRight_eq_extractLsb]

theorem nibble_of_word (word : Word) (k : Nat) :
    (word >>> k &&& 0x0F).setWidth 8 = (word.extractLsb' k 4).setWidth 8 := by
  rw [BitVec.setWidth_and, show (0x0F : Word).setWidth 8 = (BitVec.allOnes 4).setWidth 8 from rfl,
    BitVec.setWidth_ushiftRight_eq_extractLsb]
  ext i bound
  rw [BitVec.getElem_and, BitVec.getElem_setWidth, BitVec.getElem_setWidth, BitVec.getLsbD_allOnes,
    BitVec.getElem_extractLsb', BitVec.getLsbD_extractLsb', Bool.and_comm]

theorem flags_kept (bytes : GdtBytes) (target : Nat) (flags b0 b1 : Byte) :
    Function.update (Function.update (Function.update bytes (target + 6) flags) target b0) (target + 1) b1
      (target + 6) = flags := by
  rw [Function.update_of_ne (by omega), Function.update_of_ne (by omega), Function.update_self]

/-- Byte 6 is stored before the others and again between them. -/
theorem putEntry_updates (bytes : GdtBytes) (target : Nat) (flags b0 b1 b2 b3 b4 b5 b6 b7 : Byte) :
    Function.update (Function.update (Function.update (Function.update (Function.update (Function.update
      (Function.update (Function.update (Function.update bytes (target + 6) flags) target b0) (target + 1) b1)
      (target + 6) b6) (target + 2) b2) (target + 3) b3) (target + 4) b4) (target + 7) b7) (target + 5) b5 =
    putEntry bytes target [b0, b1, b2, b3, b4, b5, b6, b7] := by
  funext offset
  unfold putEntry sizeofGdt
  by_cases within : target ≤ offset ∧ offset < target + 8
  · obtain ⟨k, rfl⟩ : ∃ k, offset = target + k := ⟨offset - target, by omega⟩
    have small : k < 8 := by omega
    rw [if_pos within, Nat.add_sub_cancel_left]
    simp only [Function.update_apply, Nat.add_left_cancel_iff, Nat.add_eq_left]
    interval_cases k <;> rfl
  · have first : offset ≠ target := by omega
    have outside : ∀ k < 8, offset ≠ target + k := by omega
    rw [if_neg within, Function.update_of_ne (outside 5 (by omega)), Function.update_of_ne (outside 7 (by omega)),
      Function.update_of_ne (outside 4 (by omega)), Function.update_of_ne (outside 3 (by omega)),
      Function.update_of_ne (outside 2 (by omega)), Function.update_of_ne (outside 6 (by omega)),
      Function.update_of_ne (outside 1 (by omega)), Function.update_of_ne first,
      Function.update_of_ne (outside 6 (by omega))]

theorem encodeGdtEntry_run (bytes : GdtBytes) (target : Nat) {source : GdtStructured} (accepted : source.Accepted) :
    encodeGdtEntry target source bytes = (.ok (), putEntry bytes target source.encoded) := by
  have taken : ¬(65536 < source.limit.toNat ∧ source.limit &&& 0xFFF ≠ 0xFFF) := by
    rintro ⟨large, zeros⟩
    exact accepted.elim (fun small => by omega) zeros
  have first : ∀ word : Word, (word &&& (0xFF : Word)).setWidth 8 = word.extractLsb' 0 8 :=
    fun word => byte_of_word word 0
  unfold encodeGdtEntry GdtStructured.encoded GdtStructured.flags GdtStructured.scaled setGdtByte
  rw [if_neg taken]
  by_cases large : 65536 < source.limit.toNat
  · rw [if_pos large, if_pos large, if_pos large, ← putEntry_updates bytes target 0xC0]
    simp only [bind_run, update_run, read_run, pure_run, Function.update_idem, flags_kept]
    generalize source.limit >>> 12 = limit
    simp only [← byte_of_word, ← nibble_of_word, ← first]
  · rw [if_neg large, if_neg large, if_neg large, ← putEntry_updates bytes target 0x40]
    simp only [bind_run, update_run, read_run, pure_run, flags_kept]
    simp only [← byte_of_word, ← nibble_of_word, ← first]

theorem encodeGdtEntry_panics (bytes : GdtBytes) (target : Nat) {source : GdtStructured}
    (rejected : ¬source.Accepted) : encodeGdtEntry target source bytes =
      (.error (Stop.panic "encodeGdtEntry: Invalid argument\n"), bytes) := by
  obtain ⟨large, zeros⟩ := not_or.mp rejected
  unfold encodeGdtEntry
  rw [if_pos ⟨Nat.lt_of_not_le large, zeros⟩]
  rfl

end Encode

section Decode

theorem descriptor_base (bytes : GdtBytes) (offset : Nat) : (decodeDescriptor (descriptor bytes offset)).base =
    bytes (offset + 7) ++ bytes (offset + 4) ++ bytes (offset + 3) ++ bytes (offset + 2) := by
  unfold decodeDescriptor descriptor
  refine BitVec.eq_of_getLsbD_eq (fun i bound => ?_)
  simp only [BitVec.getLsbD_append, BitVec.getLsbD_extractLsb']
  grind

theorem descriptor_type (bytes : GdtBytes) (offset : Nat) :
    (decodeDescriptor (descriptor bytes offset)).type = bytes (offset + 5) := by
  unfold decodeDescriptor descriptor
  refine BitVec.eq_of_getLsbD_eq (fun i bound => ?_)
  simp only [BitVec.getLsbD_append, BitVec.getLsbD_extractLsb']
  grind

theorem descriptor_limitField (bytes : GdtBytes) (offset : Nat) : limitField (descriptor bytes offset) =
    (bytes (offset + 6)).extractLsb' 0 4 ++ bytes (offset + 1) ++ bytes offset := by
  unfold limitField descriptor
  refine BitVec.eq_of_getLsbD_eq (fun i bound => ?_)
  simp only [BitVec.getLsbD_append, BitVec.getLsbD_extractLsb']
  grind

theorem descriptor_granularity (bytes : GdtBytes) (offset : Nat) :
    (descriptor bytes offset).getLsbD 55 = (bytes (offset + 6)).getLsbD 7 := by
  unfold descriptor
  simp only [BitVec.getLsbD_append]
  grind

theorem flags_nibble {flags : Byte} (low : flags.extractLsb' 0 4 = 0) (nibble : BitVec 4) :
    (flags ||| nibble.setWidth 8).extractLsb' 0 4 = nibble := by
  rw [BitVec.extractLsb'_or, low]
  ext i bound
  have wide : i < 8 := by omega
  simp [wide, BitVec.getLsbD_eq_getElem bound]

theorem flags_high (flags : Byte) (nibble : BitVec 4) : (flags ||| nibble.setWidth 8).getLsbD 7 = flags.getLsbD 7 := by
  simp

theorem pages_of_limit {limit : Word} (ones : limit &&& 0xFFF = 0xFFF) :
    (limit >>> 12).extractLsb' 0 20 ++ 0xFFF#12 = limit := by
  have pages : (limit >>> 12).extractLsb' 0 20 = limit.extractLsb' 12 20 := by
    ext i bound
    simp
  have low : 0xFFF#12 = limit.extractLsb' 0 12 := by
    have cut := congrArg (BitVec.extractLsb' 0 12) ones
    rw [BitVec.extractLsb'_and] at cut
    exact cut.symm.trans (BitVec.and_allOnes (x := limit.extractLsb' 0 12))
  rw [pages, low, BitVec.extractLsb'_append_extractLsb'_eq_extractLsb' (show 12 = 0 + 12 from rfl)]
  exact BitVec.extractLsb'_eq_self

end Decode

section Tables
variable {bytes : GdtBytes} {source : GdtStructured}

theorem putEntry_inside (bytes : GdtBytes) (target : Nat) (entry : List Byte) {k : Nat} (small : k < sizeofGdt) :
    putEntry bytes target entry (target + k) = entry.getD k 0 := by
  unfold putEntry
  rw [if_pos (by omega), Nat.add_sub_cancel_left]

theorem putEntry_outside (bytes : GdtBytes) (target : Nat) (entry : List Byte) {offset : Nat}
    (outside : offset < target ∨ target + sizeofGdt ≤ offset) : putEntry bytes target entry offset = bytes offset := by
  unfold putEntry
  rw [if_neg (by omega)]

theorem descriptor_congr {before after : GdtBytes} {offset : Nat}
    (same : ∀ k < sizeofGdt, after (offset + k) = before (offset + k)) :
    descriptor after offset = descriptor before offset := by
  have first : after offset = before offset := same 0 (by decide)
  unfold descriptor
  rw [same 7 (by decide), same 6 (by decide), same 5 (by decide), same 4 (by decide), same 3 (by decide),
    same 2 (by decide), same 1 (by decide), first]

theorem encoded_limitField (source : GdtStructured) :
    (source.encoded.getD 6 0).extractLsb' 0 4 ++ source.encoded.getD 1 0 ++ source.encoded.getD 0 0 =
      source.scaled.extractLsb' 0 20 := by
  have low : source.flags.extractLsb' 0 4 = 0 := by
    unfold GdtStructured.flags
    split <;> rfl
  change (source.flags ||| (source.scaled.extractLsb' 16 4).setWidth 8).extractLsb' 0 4 ++
    source.scaled.extractLsb' 8 8 ++ source.scaled.extractLsb' 0 8 = _
  rw [flags_nibble low, BitVec.extractLsb'_append_extractLsb'_eq_extractLsb' (show 16 = 8 + 8 from rfl),
    BitVec.extractLsb'_append_extractLsb'_eq_extractLsb' (show 8 = 0 + 8 from rfl)]

/-- What the encoder stores is read as what it was given. -/
theorem decode_putEntry (bytes : GdtBytes) (target : Nat) (accepted : source.Accepted) :
    decodeDescriptor (descriptor (putEntry bytes target source.encoded) target) = source := by
  have stored : ∀ k < sizeofGdt, putEntry bytes target source.encoded (target + k) = source.encoded.getD k 0 :=
    fun k small => putEntry_inside bytes target _ small
  have first : putEntry bytes target source.encoded target = source.encoded.getD 0 0 := stored 0 (by decide)
  have base : (decodeDescriptor (descriptor (putEntry bytes target source.encoded) target)).base = source.base := by
    rw [descriptor_base, stored 7 (by decide), stored 4 (by decide), stored 3 (by decide), stored 2 (by decide)]
    change source.base.extractLsb' 24 8 ++ source.base.extractLsb' 16 8 ++ source.base.extractLsb' 8 8 ++
      source.base.extractLsb' 0 8 = source.base
    rw [BitVec.extractLsb'_append_extractLsb'_eq_extractLsb' (show 24 = 16 + 8 from rfl),
      BitVec.extractLsb'_append_extractLsb'_eq_extractLsb' (show 16 = 8 + 8 from rfl),
      BitVec.extractLsb'_append_extractLsb'_eq_extractLsb' (show 8 = 0 + 8 from rfl)]
    exact BitVec.extractLsb'_eq_self
  have type : (decodeDescriptor (descriptor (putEntry bytes target source.encoded) target)).type = source.type := by
    rw [descriptor_type, stored 5 (by decide)]
    rfl
  have limit : (decodeDescriptor (descriptor (putEntry bytes target source.encoded) target)).limit = source.limit := by
    change (if (descriptor (putEntry bytes target source.encoded) target).getLsbD 55 then
      limitField (descriptor (putEntry bytes target source.encoded) target) ++ 0xFFF#12 else _) = _
    have granular : (source.encoded.getD 6 0).getLsbD 7 = source.flags.getLsbD 7 := flags_high _ _
    rw [descriptor_granularity, descriptor_limitField, stored 6 (by decide), stored 1 (by decide), first,
      encoded_limitField, granular]
    unfold GdtStructured.flags GdtStructured.scaled
    by_cases large : 65536 < source.limit.toNat
    · rw [if_pos large, if_pos large, if_pos (by decide)]
      exact pages_of_limit (accepted.resolve_left (by omega))
    · rw [if_neg large, if_neg large, if_neg (by decide)]
      apply BitVec.eq_of_toNat_eq
      rw [BitVec.toNat_setWidth, BitVec.extractLsb'_toNat, Nat.shiftRight_zero]
      omega
  cases source
  exact congr (congr (congrArg _ base) limit) type

theorem gdtStructuredToGdt_run (structuredGdt : Nat → GdtStructured) (totalEntries : Nat)
    (accepted : ∀ i < totalEntries, (structuredGdt i).Accepted) (bytes : GdtBytes) :
    ∃ after, gdtStructuredToGdt structuredGdt totalEntries bytes = (.ok (), after) ∧
      (∀ i < totalEntries, decodeDescriptor (descriptor after (sizeofGdt * i)) = structuredGdt i) ∧
      ∀ offset, sizeofGdt * totalEntries ≤ offset → after offset = bytes offset := by
  induction totalEntries with
  | zero => exact ⟨bytes, rfl, fun i none => absurd none (Nat.not_lt_zero i), fun _ _ => rfl⟩
  | succ n ih =>
    obtain ⟨middle, ran, decoded, kept⟩ := ih (fun i below => accepted i (Nat.lt_succ_of_lt below))
    have last := accepted n (Nat.lt_succ_self n)
    refine ⟨putEntry middle (sizeofGdt * n) (structuredGdt n).encoded, ?_, fun i below => ?_, fun offset past => ?_⟩
    · rw [gdtStructuredToGdt, bind_ok ran]
      exact encodeGdtEntry_run middle _ last
    · rcases Nat.lt_succ_iff_lt_or_eq.mp below with earlier | rfl
      · have same : ∀ k < sizeofGdt, putEntry middle (sizeofGdt * n) (structuredGdt n).encoded (sizeofGdt * i + k) =
            middle (sizeofGdt * i + k) := by
          intro k small
          refine putEntry_outside _ _ _ (Or.inl ?_)
          unfold sizeofGdt at *
          omega
        rw [descriptor_congr same, decoded i earlier]
      · exact decode_putEntry middle _ last
    · rw [Nat.mul_succ] at past
      rw [putEntry_outside _ _ _ (Or.inr past), kept offset (by omega)]

end Tables

/-- The processor reads every accepted base, limit and type out of what is stored for it, in an entry alone and in a
table, and no other byte changes. -/
theorem gdt_decodes (bytes : GdtBytes) :
    (∀ target source, GdtStructured.Accepted source → ∃ after, encodeGdtEntry target source bytes = (.ok (), after) ∧
      decodeDescriptor (descriptor after target) = source ∧
      ∀ offset, offset < target ∨ target + sizeofGdt ≤ offset → after offset = bytes offset) ∧
    ∀ structuredGdt totalEntries, (∀ i < totalEntries, GdtStructured.Accepted (structuredGdt i)) →
      ∃ after, gdtStructuredToGdt structuredGdt totalEntries bytes = (.ok (), after) ∧
        (∀ i < totalEntries, decodeDescriptor (descriptor after (sizeofGdt * i)) = structuredGdt i) ∧
        ∀ offset, sizeofGdt * totalEntries ≤ offset → after offset = bytes offset := by
  refine ⟨fun target source accepted => ⟨_, encodeGdtEntry_run bytes target accepted,
    decode_putEntry bytes target accepted, fun offset outside => putEntry_outside bytes target _ outside⟩, ?_⟩
  exact fun structuredGdt totalEntries accepted => gdtStructuredToGdt_run structuredGdt totalEntries accepted bytes

/-- `gdt_structured` of `kernel.c`, with the `struct tss` at an address that the linker chooses. -/
def gdtStructured (tss : Word) : List GdtStructured :=
  [⟨0, 0, 0⟩, ⟨0, 0xFFFFFFFF, 0x9A⟩, ⟨0, 0xFFFFFFFF, 0x92⟩, ⟨0, 0xFFFFFFFF, 0xF8⟩, ⟨0, 0xFFFFFFFF, 0xF2⟩,
    ⟨tss, 100, 0xE9⟩]

theorem gdt_decodes_kernel : ∃ after,
    gdtStructuredToGdt (fun i => (gdtStructured 0x105000).getD i ⟨0, 0, 0⟩) 6 (fun _ => 0) = (.ok (), after) ∧
      decodeDescriptor (descriptor after 8) = ⟨0, 0xFFFFFFFF, 0x9A⟩ ∧
      decodeDescriptor (descriptor after 40) = ⟨0x105000, 100, 0xE9⟩ := by
  have accepted : ∀ i < 6, ((gdtStructured 0x105000).getD i ⟨0, 0, 0⟩).Accepted := by
    intro i bound
    unfold GdtStructured.Accepted
    interval_cases i <;> decide
  obtain ⟨after, ran, decoded, _⟩ := (gdt_decodes (fun _ => 0)).2 _ 6 accepted
  exact ⟨after, ran, decoded 1 (by decide), decoded 5 (by decide)⟩

end PeachOS
