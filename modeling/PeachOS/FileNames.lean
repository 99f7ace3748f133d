import Mathlib.Data.List.TakeWhile
import PeachOS.ArgumentList
import PeachOS.DirectoryLookup

/-! The name of a directory entry as it is written into a buffer, and names as they are compared. -/

namespace PeachOS
open ByteMemory

/-- The loop of `fat16_to_proper_string`, with `*out` and `in` as they are now. The `int` is compared with a
`size_t`. -/
def fat16ToProperStringLoop (size : Word) (bytes : Bytes) (out ptr : Addr) (i : Word) : Bytes × Addr :=
  if bytes ptr ≠ 0x00 ∧ bytes ptr ≠ 0x20 then
    let bytes := Function.update bytes out (bytes ptr)
    if last : (size - 1).toNat ≤ i.toNat then (bytes, out + 1)
    else fat16ToProperStringLoop size bytes (out + 1) (ptr + 1) (i + 1)
  else (bytes, out)
termination_by (size - 1).toNat - i.toNat
decreasing_by bv_omega

def fat16ToProperStringAt (bytes : Bytes) (out ptr : Addr) (size : Word) : Bytes × Addr :=
  let copied := fat16ToProperStringLoop size bytes out ptr 0
  (Function.update copied.1 copied.2 0x00, copied.2)

/-- `fat16_get_full_relative_filename` of the entry at `item`. -/
def fat16GetFullRelativeFilenameAt (bytes : Bytes) (item out : Addr) (maxLen : Nat) : Bytes :=
  let named := fat16ToProperStringAt (fill bytes out maxLen 0x00) out item 8
  if named.1 (item + 8) ≠ 0x00 ∧ named.1 (item + 8) ≠ 0x20 then
    (fat16ToProperStringAt (Function.update named.1 named.2 0x2E) (named.2 + 1) (item + 8) 3).1
  else named.1

/-- `istrncmp` through its two pointers. -/
def istrncmpAt (bytes : Bytes) (s1 s2 : Addr) : (n : Nat) → Int
  | 0 => 0
  | n + 1 =>
      let u1 := bytes s1
      let u2 := bytes s2
      if u1 ≠ u2 ∧ tolower u1 ≠ tolower u2 then (u1.toNat : Int) - u2.toNat
      else if u1 = 0 then 0
      else istrncmpAt bytes (s1 + 1) (s2 + 1) n

/-- A name as it fits into a directory entry. -/
structure ShortName where
  name : List Byte
  ext : List Byte
  nonempty : name ≠ []
  nameShort : name.length ≤ 8
  extShort : ext.length ≤ 3
  plain : ∀ c ∈ name ++ ext, c ≠ 0x00 ∧ c ≠ 0x20 ∧ c ≠ 0x2E

/-- A field of so many characters, filled up with spaces. -/
def padded (size : Nat) (text : List Byte) : List Byte := text ++ List.replicate (size - text.length) 0x20

/-- The entry at `item` has the name. -/
structure ShortName.At (short : ShortName) (bytes : Bytes) (item : Addr) : Prop where
  name : loadBytes bytes item 8 = padded 8 short.name
  ext : loadBytes bytes (item + 8) 3 = padded 3 short.ext

/-- The name, and its extension behind a dot when there is one. -/
def dotted (name ext : List Byte) : List Byte := name ++ (if ext = [] then [] else 0x2E :: ext)

def ShortName.spelling (short : ShortName) : List Byte := dotted short.name short.ext

/-- The buffer, as far as it is cleared and written to, is apart from the entry's name. -/
def BufferApart (item out : Addr) (maxLen : Nat) : Prop :=
  ∀ j < 11, max maxLen 13 ≤ (item + BitVec.ofNat 32 j - out).toNat

/-- A letter of the alphabet without its case; no other byte changes. -/
def asciiLower (c : Byte) : Byte := if 0x41 ≤ c ∧ c ≤ 0x5A then c ||| 0x20 else c

/-- A string as `istrncmp` is to see it: to its terminator, `n` characters at most, in lower case. -/
def foldedPrefix (n : Nat) (str : List Byte) : List Byte := ((str.takeWhile (fun c => c != 0)).take n).map asciiLower

section Copy
variable {bytes : Bytes} {out ptr : Addr}

theorem fat16ToProperString_length (remaining : Nat) (field : List Byte) :
    (fat16ToProperString remaining field).length ≤ remaining := by
  induction remaining generalizing field with
  | zero => exact Nat.le_of_eq rfl
  | succ remaining ih =>
    cases field with
    | nil => exact Nat.zero_le _
    | cons c rest =>
      rw [fat16ToProperString]
      split
      · exact Nat.zero_le _
      · exact Nat.succ_le_succ (ih rest)

/-- The loop stores the characters of the field, and the break keeps it inside of the field. -/
theorem fat16ToProperStringLoop_run (size : Word) (remaining : Nat) (bytes : Bytes) (out ptr : Addr) (i : Word)
    (left : i.toNat + (remaining + 1) = size.toNat)
    (apart : ∀ j ≤ remaining, ∀ k ≤ remaining, ptr + BitVec.ofNat 32 j ≠ out + BitVec.ofNat 32 k) :
    fat16ToProperStringLoop size bytes out ptr i =
      (storeBytes bytes out (fat16ToProperString (remaining + 1) (loadBytes bytes ptr (remaining + 1))),
        out + BitVec.ofNat 32 (fat16ToProperString (remaining + 1) (loadBytes bytes ptr (remaining + 1))).length) := by
  induction remaining generalizing bytes out ptr i with
  | zero =>
    have last : (size - 1).toNat ≤ i.toNat := by bv_omega
    rw [fat16ToProperStringLoop, loadBytes, fat16ToProperString]
    by_cases ends : bytes ptr = 0x00 ∨ bytes ptr = 0x20
    · rw [if_neg (by tauto), if_pos ends]
      simp [storeBytes]
    · rw [if_pos (by tauto), if_neg ends, dif_pos last]
      rfl
  | succ remaining ih =>
    have more : ¬(size - 1).toNat ≤ i.toNat := by bv_omega
    rw [fat16ToProperStringLoop, loadBytes, fat16ToProperString]
    by_cases ends : bytes ptr = 0x00 ∨ bytes ptr = 0x20
    · rw [if_neg (by tauto), if_pos ends]
      simp [storeBytes]
    · have field : loadBytes (Function.update bytes out (bytes ptr)) (ptr + 1) (remaining + 1) =
          loadBytes bytes (ptr + 1) (remaining + 1) := by
        refine loadBytes_congr (fun j bound => Function.update_of_ne ?_ _ _)
        have distinct := apart (j + 1) (by omega) 0 (by omega)
        rwa [BitVec.add_zero, show ptr + BitVec.ofNat 32 (j + 1) = ptr + 1 + BitVec.ofNat 32 j by bv_omega] at distinct
      have later : ∀ j ≤ remaining, ∀ k ≤ remaining,
          ptr + 1 + BitVec.ofNat 32 j ≠ out + 1 + BitVec.ofNat 32 k := by
        intro j jBound k kBound
        have distinct := apart (j + 1) (by omega) (k + 1) (by omega)
        rwa [show ptr + BitVec.ofNat 32 (j + 1) = ptr + 1 + BitVec.ofNat 32 j by bv_omega,
          show out + BitVec.ofNat 32 (k + 1) = out + 1 + BitVec.ofNat 32 k by bv_omega] at distinct
      have rest := ih (Function.update bytes out (bytes ptr)) (out + 1) (ptr + 1) (i + 1) (by bv_omega) later
      rw [if_pos (by tauto), if_neg ends, dif_neg more, rest, field, storeBytes, List.length_cons]
      congr 1
      bv_omega

theorem update_storeBytes (bytes : Bytes) (out : Addr) (text : List Byte) (c : Byte) :
    Function.update (storeBytes bytes out text) (out + BitVec.ofNat 32 text.length) c =
      storeBytes bytes out (text ++ [c]) := by
  rw [storeBytes_append]
  rfl

theorem fat16ToProperStringAt_run (bytes : Bytes) (out ptr : Addr) (size : Word) (remaining : Nat)
    (fieldSize : size.toNat = remaining + 1)
    (apart : ∀ j ≤ remaining, ∀ k ≤ remaining, ptr + BitVec.ofNat 32 j ≠ out + BitVec.ofNat 32 k) :
    fat16ToProperStringAt bytes out ptr size =
      (storeBytes bytes out (fat16ToProperString (remaining + 1) (loadBytes bytes ptr (remaining + 1)) ++ [0]),
        out + BitVec.ofNat 32 (fat16ToProperString (remaining + 1) (loadBytes bytes ptr (remaining + 1))).length) := by
  unfold fat16ToProperStringAt
  rw [fat16ToProperStringLoop_run size remaining bytes out ptr 0 (by rw [fieldSize]; exact Nat.zero_add _) apart]
  dsimp only
  rw [update_storeBytes]

theorem BufferApart.kept {item : Addr} {maxLen : Nat} (apart : BufferApart item out maxLen) (text : List Byte)
    (short : text.length ≤ 13) {j : Nat} (bound : j < 11) :
    storeBytes (fill bytes out maxLen 0) out text (item + BitVec.ofNat 32 j) = bytes (item + BitVec.ofNat 32 j) := by
  have far := apart j bound
  rw [storeBytes_outside _ _ _ (by omega) (by omega)]
  exact if_neg (by omega)

theorem BufferApart.distinct {item : Addr} {maxLen : Nat} (apart : BufferApart item out maxLen) {j k : Nat}
    (jBound : j < 11) (kBound : k < 13) : item + BitVec.ofNat 32 j ≠ out + BitVec.ofNat 32 k := by
  have far := apart j jBound
  intro same
  rw [same] at far
  have near : (out + BitVec.ofNat 32 k - out).toNat = k := by bv_omega
  omega

theorem fat16GetFullRelativeFilenameAt_run (bytes : Bytes) {item out : Addr} {maxLen : Nat}
    (apart : BufferApart item out maxLen) : fat16GetFullRelativeFilenameAt bytes item out maxLen =
      storeBytes (fill bytes out maxLen 0) out
        (fat16GetFullRelativeFilename (fatDirectoryItemAt bytes item) ++ [0]) := by
  have nameField : loadBytes (fill bytes out maxLen 0) item 8 = loadBytes bytes item 8 :=
    loadBytes_congr (fun j bound => apart.kept [] (by decide) (by omega))
  have first := fat16ToProperStringAt_run (fill bytes out maxLen 0) out item 8 7 rfl
    (fun j jBound k kBound => apart.distinct (by omega) (by omega))
  rw [nameField] at first
  have nameShort := fat16ToProperString_length 8 (loadBytes bytes item 8)
  unfold fat16GetFullRelativeFilenameAt fat16GetFullRelativeFilename fatDirectoryItemAt
  dsimp only
  rw [first]
  dsimp only
  generalize fat16ToProperString 8 (loadBytes bytes item 8) = name at *
  have extHead : storeBytes (fill bytes out maxLen 0) out (name ++ [0]) (item + 8) = bytes (item + 8) :=
    apart.kept (name ++ [0]) (j := 8) (by rw [List.length_append, List.length_singleton]; omega) (by omega)
  have head : (loadBytes bytes (item + 8) 3).headD 0 = bytes (item + 8) := rfl
  simp only [extHead, head]
  by_cases extension : bytes (item + 8) ≠ 0x00 ∧ bytes (item + 8) ≠ 0x20
  · rw [if_pos extension, if_pos extension, ← update_storeBytes, Function.update_idem, update_storeBytes]
    have extField : loadBytes (storeBytes (fill bytes out maxLen 0) out (name ++ [0x2E])) (item + 8) 3 =
        loadBytes bytes (item + 8) 3 := by
      refine loadBytes_congr (fun j bound => ?_)
      have kept : storeBytes (fill bytes out maxLen 0) out (name ++ [0x2E]) (item + BitVec.ofNat 32 (8 + j)) = _ :=
        apart.kept _ (by rw [List.length_append, List.length_singleton]; omega) (by omega)
      rwa [show item + BitVec.ofNat 32 (8 + j) = item + 8 + BitVec.ofNat 32 j by bv_omega] at kept
    have second := fat16ToProperStringAt_run (storeBytes (fill bytes out maxLen 0) out (name ++ [0x2E]))
      (out + BitVec.ofNat 32 name.length + 1) (item + 8) 3 2 rfl (by
        intro j jBound k kBound
        have distinct := apart.distinct (j := 8 + j) (k := name.length + 1 + k) (by omega) (by omega)
        rwa [show item + BitVec.ofNat 32 (8 + j) = item + 8 + BitVec.ofNat 32 j by bv_omega,
          show out + BitVec.ofNat 32 (name.length + 1 + k) =
            out + BitVec.ofNat 32 name.length + 1 + BitVec.ofNat 32 k by bv_omega] at distinct)
    rw [second, extField]
    dsimp only
    rw [show out + BitVec.ofNat 32 name.length + 1 = out + BitVec.ofNat 32 (name ++ [0x2E]).length by
      rw [List.length_append, List.length_singleton]; bv_omega, ← storeBytes_append]
    simp
  · rw [if_neg extension, if_neg extension, List.append_nil]

end Copy

section Spelling
variable {name ext name' ext' : List Byte} {short other : ShortName}

theorem fat16ToProperString_padded {text : List Byte} (plain : ∀ c ∈ text, c ≠ 0x00 ∧ c ≠ 0x20) {size : Nat}
    (fits : text.length ≤ size) : fat16ToProperString size (padded size text) = text := by
  unfold padded
  induction text generalizing size with
  | nil =>
    cases size with
    | zero => rfl
    | succ size =>
      rw [List.nil_append, List.length_nil, Nat.sub_zero, List.replicate_succ, fat16ToProperString, if_pos (Or.inr rfl)]
  | cons c text ih =>
    obtain ⟨size, rfl⟩ : ∃ rest, size = rest + 1 := ⟨size - 1, by rw [List.length_cons] at fits; omega⟩
    obtain ⟨first, later⟩ := List.forall_mem_cons.mp plain
    rw [List.length_cons] at fits
    rw [List.cons_append, List.length_cons, Nat.add_sub_add_right, fat16ToProperString, if_neg (by tauto),
      ih later (by omega)]

theorem padded_headD {size : Nat} (positive : 0 < size) (text : List Byte) :
    (padded size text).headD 0 = text.headD 0x20 := by
  unfold padded
  cases text with
  | nil =>
    obtain ⟨size, rfl⟩ : ∃ rest, size = rest + 1 := ⟨size - 1, by omega⟩
    rw [List.nil_append, List.length_nil, Nat.sub_zero, List.replicate_succ]
    rfl
  | cons c text => rfl

theorem ShortName.namePlain (short : ShortName) : ∀ c ∈ short.name, c ≠ 0x00 ∧ c ≠ 0x20 ∧ c ≠ 0x2E :=
  fun c member => short.plain c (List.mem_append_left _ member)

theorem ShortName.extPlain (short : ShortName) : ∀ c ∈ short.ext, c ≠ 0x00 ∧ c ≠ 0x20 ∧ c ≠ 0x2E :=
  fun c member => short.plain c (List.mem_append_right _ member)

theorem ShortName.At.filename {bytes : Bytes} {item : Addr} (entry : short.At bytes item) :
    fat16GetFullRelativeFilename (fatDirectoryItemAt bytes item) = short.spelling := by
  unfold fat16GetFullRelativeFilename fatDirectoryItemAt ShortName.spelling dotted
  dsimp only
  rw [entry.name, entry.ext,
    fat16ToProperString_padded (fun c member => ⟨(short.namePlain c member).1, (short.namePlain c member).2.1⟩)
      short.nameShort,
    fat16ToProperString_padded (fun c member => ⟨(short.extPlain c member).1, (short.extPlain c member).2.1⟩)
      short.extShort, padded_headD (by decide)]
  have plain := short.extPlain
  cases present : short.ext with
  | nil => rfl
  | cons c rest =>
    rw [present] at plain
    obtain ⟨nonzero, nonblank, _⟩ := plain c List.mem_cons_self
    rw [List.headD_cons, if_pos ⟨nonzero, nonblank⟩, if_neg (List.cons_ne_nil c rest)]

theorem dotted_nonzero (plain : ∀ c ∈ name ++ ext, c ≠ 0) : ∀ c ∈ dotted name ext, c ≠ 0 := by
  intro c member
  unfold dotted at member
  rcases List.mem_append.mp member with inName | behind
  · exact plain c (List.mem_append_left _ inName)
  · split at behind
    · exact absurd behind List.not_mem_nil
    · rcases List.mem_cons.mp behind with rfl | inExt
      · decide
      · exact plain c (List.mem_append_right _ inExt)

theorem ShortName.spelling_nonzero (short : ShortName) : ∀ c ∈ short.spelling, c ≠ 0 :=
  dotted_nonzero (fun c member => (short.plain c member).1)

theorem ShortName.spelling_length (short : ShortName) : short.spelling.length ≤ 12 := by
  have name := short.nameShort
  have ext := short.extShort
  unfold ShortName.spelling dotted
  rw [List.length_append]
  split
  · rw [List.length_nil]
    omega
  · rw [List.length_cons]
    omega

theorem dotted_takeWhile (ext : List Byte) (undotted : ∀ c ∈ name, c ≠ 0x2E) :
    (dotted name ext).takeWhile (fun c => c != 0x2E) = name := by
  unfold dotted
  rw [List.takeWhile_append_of_pos (fun c member => by simpa using undotted c member)]
  split
  · simp
  · rw [List.takeWhile_cons_of_neg (by simp), List.append_nil]

theorem dotted_injective (undotted : ∀ c ∈ name, c ≠ 0x2E) (undotted' : ∀ c ∈ name', c ≠ 0x2E)
    (same : dotted name ext = dotted name' ext') : name = name' ∧ ext = ext' := by
  have names : name = name' := by
    rw [← dotted_takeWhile ext undotted, same, dotted_takeWhile ext' undotted']
  subst names
  refine ⟨rfl, ?_⟩
  unfold dotted at same
  have behind := List.append_cancel_left same
  by_cases none : ext = []
  · by_cases none' : ext' = []
    · rw [none, none']
    · rw [if_pos none, if_neg none'] at behind
      cases behind
  · by_cases none' : ext' = []
    · rw [if_neg none, if_pos none'] at behind
      cases behind
    · rw [if_neg none, if_neg none'] at behind
      exact List.tail_eq_of_cons_eq behind

theorem tolower_dot : ∀ c : Byte, tolower c = 0x2E ↔ c = 0x2E := by decide +kernel

theorem dotted_map_tolower (name ext : List Byte) :
    (dotted name ext).map tolower = dotted (name.map tolower) (ext.map tolower) := by
  unfold dotted
  rw [List.map_append]
  by_cases none : ext = []
  · rw [if_pos none, none]
    rfl
  · rw [if_neg none, if_neg (fun empty => none (List.map_eq_nil_iff.mp empty)), List.map_cons]
    rfl

theorem lowered_of_nonzero {text : List Byte} (nonzero : ∀ c ∈ text, c ≠ 0) : lowered text = text.map tolower := by
  unfold lowered
  rw [List.takeWhile_eq_self_iff.mpr (fun c member => by simpa using nonzero c member)]

theorem ShortName.same_of_istrncmp {wanted : List Byte} {n : Nat} (whole : 12 ≤ n)
    (first : istrncmp short.spelling wanted n = 0) (second : istrncmp other.spelling wanted n = 0) :
    short.name.map tolower = other.name.map tolower ∧ short.ext.map tolower = other.ext.map tolower := by
  have undotted : ∀ known : ShortName, ∀ c ∈ known.name.map tolower, c ≠ 0x2E := by
    intro known c member dot
    obtain ⟨d, listed, rfl⟩ := List.mem_map.mp member
    exact (known.namePlain d listed).2.2 ((tolower_dot d).mp dot)
  have cut : ∀ known : ShortName, (lowered known.spelling).take n =
      dotted (known.name.map tolower) (known.ext.map tolower) := by
    intro known
    have length := known.spelling_length
    rw [lowered_of_nonzero known.spelling_nonzero, List.take_of_length_le (by rw [List.length_map]; omega)]
    exact dotted_map_tolower _ _
  rw [istrncmp_zero, cut] at first second
  exact dotted_injective (undotted short) (undotted other) (first.trans second.symm)

theorem ShortName.ext_of (name : short.name = other.name) (ext : short.ext = other.ext) :
    short = other := by
  cases short
  cases other
  cases name
  cases ext
  rfl

end Spelling

/-- An entry's buffer holds its name with a dot before its extension, and a terminator within 13 bytes. No other entry
has that string, and two entries that a path component is taken for differ in case at most. -/
theorem fat16_name_exact :
    (∀ (short : ShortName) (bytes : Bytes) (item out : Addr) (maxLen : Nat), short.At bytes item →
      BufferApart item out maxLen →
      HoldsString (fat16GetFullRelativeFilenameAt bytes item out maxLen) out short.spelling ∧
      short.spelling.length + 1 ≤ 13 ∧
      ∀ address, max maxLen 13 ≤ (address - out).toNat →
        fat16GetFullRelativeFilenameAt bytes item out maxLen address = bytes address) ∧
    (∀ short other : ShortName, short.spelling = other.spelling → short = other) ∧
    ∀ (short other : ShortName) (component : List Byte), istrncmp short.spelling component peachosMaxPath = 0 →
      istrncmp other.spelling component peachosMaxPath = 0 →
      short.name.map tolower = other.name.map tolower ∧ short.ext.map tolower = other.ext.map tolower := by
  refine ⟨fun short bytes item out maxLen entry apart => ?_, fun short other same => ?_,
    fun short other component first second => ShortName.same_of_istrncmp (by decide) first second⟩
  · have length := short.spelling_length
    have stored : (short.spelling ++ [0]).length = short.spelling.length + 1 := List.length_append
    rw [fat16GetFullRelativeFilenameAt_run bytes apart, entry.filename]
    refine ⟨⟨short.spelling_nonzero, ?_⟩, by omega, fun address outside => ?_⟩
    · rw [← stored]
      exact loadBytes_storeBytes _ _ _ (by omega)
    · rw [storeBytes_outside _ _ _ (by omega) (by omega)]
      exact if_neg (by omega)
  · obtain ⟨name, ext⟩ := dotted_injective (fun c member => (short.namePlain c member).2.2)
      (fun c member => (other.namePlain c member).2.2) same
    exact ShortName.ext_of name ext

/-- `SH      C  ` -/
theorem fat16_name_exact_shell :
    HoldsString (fat16GetFullRelativeFilenameAt
      (storeBytes (fun _ => 0) 0x1000 [0x53, 0x48, 0x20, 0x20, 0x20, 0x20, 0x20, 0x20, 0x43, 0x20, 0x20]) 0x1000 0x2000
      peachosMaxPath) 0x2000 [0x53, 0x48, 0x2E, 0x43] :=
  (fat16_name_exact.1 ⟨[0x53, 0x48], [0x43], by decide, by decide, by decide, by decide⟩ _ 0x1000 0x2000 peachosMaxPath
    ⟨by decide, by decide⟩ (by unfold BufferApart; decide)).1

section Comparison
variable {bytes : Bytes} {s1 s2 : Addr} {str1 str2 : List Byte}

theorem tolower_asciiLower : ∀ c : Byte, tolower c = asciiLower c := by decide +kernel

theorem lowered_take (n : Nat) (str : List Byte) : (lowered str).take n = foldedPrefix n str := by
  unfold lowered foldedPrefix
  rw [← List.map_take, funext tolower_asciiLower]

theorem HoldsString.head {address : Addr} {text : List Byte} (held : HoldsString bytes address text) :
    bytes address = text.headD 0 := by
  cases text with
  | nil => exact held.ends
  | cons c rest => exact held.tail.1

theorem HoldsString.next {address : Addr} {text : List Byte} (held : HoldsString bytes address text)
    (more : text.headD 0 ≠ 0) : HoldsString bytes (address + 1) text.tail := by
  cases text with
  | nil => exact absurd rfl more
  | cons c rest => exact held.tail.2

theorem bytes_differ (u1 u2 : Byte) :
    (!(u1 == u2 || tolower u1 == tolower u2)) = true ↔ u1 ≠ u2 ∧ tolower u1 ≠ tolower u2 := by
  rw [Bool.not_eq_true', Bool.or_eq_false_iff, beq_eq_false_iff_ne, beq_eq_false_iff_ne]

theorem istrncmpAt_run (held1 : HoldsString bytes s1 str1) (held2 : HoldsString bytes s2 str2) (n : Nat) :
    istrncmpAt bytes s1 s2 n = istrncmp str1 str2 n := by
  unfold istrncmp
  induction n generalizing s1 s2 str1 str2 with
  | zero => rfl
  | succ n ih =>
    rw [istrncmpAt, compareStrings, held1.head, held2.head]
    by_cases differ : str1.headD 0 ≠ str2.headD 0 ∧ tolower (str1.headD 0) ≠ tolower (str2.headD 0)
    · rw [if_pos differ, if_pos ((bytes_differ _ _).mpr differ)]
    · rw [if_neg differ, if_neg (mt (bytes_differ _ _).mp differ)]
      by_cases last : str1.headD 0 = 0
      · rw [if_pos last, if_pos last]
      · have more : str2.headD 0 ≠ 0 := by
          intro zero
          have different : str1.headD 0 ≠ str2.headD 0 := fun same => last (same.trans zero)
          have folded : tolower (str1.headD 0) = tolower (str2.headD 0) := by tauto
          rw [zero, (tolower_zero 0).mpr rfl, tolower_zero] at folded
          exact last folded
        rw [if_neg last, if_neg last]
        exact ih (held1.next last) (held2.next more)

end Comparison

/-- `istrncmp` is 0 exactly for strings that are the same to their terminator, or to `n` characters, but for the case
of their letters. So it sorts names into classes, and a lookup finds all the names of a class alike. -/
theorem istrncmp_folds :
    (∀ (bytes : Bytes) (s1 s2 : Addr) (str1 str2 : List Byte) (n : Nat), HoldsString bytes s1 str1 →
      HoldsString bytes s2 str2 → (istrncmpAt bytes s1 s2 n = 0 ↔ foldedPrefix n str1 = foldedPrefix n str2)) ∧
    (∀ n, Equivalence (fun str1 str2 => istrncmp str1 str2 n = 0)) ∧
    ∀ (wanted other : List Byte) (item : FatDirectoryItem), istrncmp wanted other peachosMaxPath = 0 →
      (Named wanted item ↔ Named other item) := by
  have folds : ∀ (str1 str2 : List Byte) (n : Nat),
      istrncmp str1 str2 n = 0 ↔ foldedPrefix n str1 = foldedPrefix n str2 := by
    intro str1 str2 n
    rw [istrncmp_zero, lowered_take, lowered_take]
  refine ⟨fun bytes s1 s2 str1 str2 n held1 held2 => ?_, fun n => ?_, fun wanted other item same => ?_⟩
  · rw [istrncmpAt_run held1 held2, folds]
  · refine ⟨fun str => (folds _ _ _).mpr rfl, fun same => ?_, fun first second => ?_⟩
    · exact (folds _ _ _).mpr ((folds _ _ _).mp same).symm
    · exact (folds _ _ _).mpr (((folds _ _ _).mp first).trans ((folds _ _ _).mp second))
  · unfold Named
    rw [folds] at same ⊢
    rw [folds, same]

/-- `README.TXT` and `readme.txt` -/
theorem istrncmp_folds_readme :
    istrncmpAt (storeBytes (storeBytes (fun _ => 0) 0x1000 [0x52, 0x2E, 0x54]) 0x2000 [0x72, 0x2E, 0x74]) 0x1000 0x2000
      108 = 0 := by
  refine (istrncmp_folds.1 _ _ _ [0x52, 0x2E, 0x54] [0x72, 0x2E, 0x74] 108 ⟨by decide, by decide⟩
    ⟨by decide, by decide⟩).mpr ?_
  decide

end PeachOS
