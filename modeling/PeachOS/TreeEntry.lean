import PeachOS.TreeWalk

/-! What `fat16_get_directory_entry` returns for a path, against where the path leads in the tree of directories that
the disk has. -/

namespace PeachOS
open Program ByteMemory

section Nested
variable {image : Image} {pos size : Nat} {name : List Byte} {item : FatDirectoryItem}

theorem Lists.single {result : Option FatDirectoryItem} (entries : Entries image pos 1)
    (inside : fatDirectoryItemSize ≤ size) (same : diskItem image pos = item) (live : ¬item.Deleted)
    (found : namedEntry [item] name = result) : Lists image pos size name result := by
  have listed : diskEntries image pos 1 = [item] := congrArg (fun entry => [entry]) same
  refine ⟨1, entries, by rwa [Nat.one_mul], ?_, ?_, ?_⟩
  · rw [listed]
    exact List.pairwise_singleton _ _
  · rw [listed]
    exact found
  · rw [listed]
    intro i other here _
    obtain ⟨rfl, rfl⟩ : i = 0 ∧ item = other := by
      cases i with
      | zero => exact ⟨rfl, Option.some.inj here⟩
      | succ i => cases here
    exact ⟨fun deleted => absurd deleted live, fun _ => by unfold liveTotal; simp [live]⟩

end Nested

section Concrete
variable (second third : Addr)

end Concrete

section Entry
variable {tables : Set (Nat → Addr)} {image : Image} {header : FatHeader} {kernel : Kernel} {part : Addr}
  {size count room : Nat} {names : List (List Byte)}

end Entry

end PeachOS
