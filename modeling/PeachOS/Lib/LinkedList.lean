import Mathlib.Data.List.Rotate

/-! Doubly linked segments over two link functions, for lists whose nodes live in a
store. A segment names the node before it and the node its last link points at. -/

namespace LinkedList
variable {Node : Type*} {next prev : Node → Node}

/-- The nodes are linked both ways, from the node `before` them to the node `after`. -/
def Segment (next prev : Node → Node) : (before : Node) → List Node → (after : Node) → Prop
  | _, [], _ => True
  | before, node :: rest, after =>
      prev node = before ∧ next node = rest.headD after ∧ Segment next prev node rest after

/-- The nodes seen by following `next` for `count` steps from `first`. -/
def walk (next : Node → Node) : (count : Nat) → (first : Node) → List Node
  | 0, _ => []
  | count + 1, first => first :: walk next count (next first)

theorem Segment.append {before after : Node} {first second : List Node} :
    Segment next prev before (first ++ second) after ↔
      Segment next prev before first (second.headD after) ∧
        Segment next prev (first.getLastD before) second after := by
  induction first generalizing before with
  | nil => simp [Segment]
  | cons node rest ih =>
    have head : (rest ++ second).headD after = rest.headD (second.headD after) := by
      cases rest <;> rfl
    have last : (node :: rest).getLastD before = rest.getLastD node := by
      cases rest <;> rfl
    rw [List.cons_append, Segment, Segment, ih, head, last]
    tauto

theorem Segment.congr {before after : Node} {nodes : List Node} {next' prev' : Node → Node}
    (segment : Segment next prev before nodes after)
    (sameNext : ∀ node ∈ nodes, next' node = next node)
    (samePrev : ∀ node ∈ nodes, prev' node = prev node) :
    Segment next' prev' before nodes after := by
  induction nodes generalizing before with
  | nil => trivial
  | cons node rest ih =>
    obtain ⟨back, forward, following⟩ := segment
    have here := List.mem_cons_self (a := node) (l := rest)
    refine ⟨(samePrev node here).trans back, (sameNext node here).trans forward, ih following ?_ ?_⟩
    · exact fun other member => sameNext other (List.mem_cons_of_mem node member)
    · exact fun other member => samePrev other (List.mem_cons_of_mem node member)

theorem Segment.retarget {before after target : Node} {nodes : List Node}
    {next' prev' : Node → Node} (segment : Segment next prev before nodes after)
    (distinct : nodes.Nodup) (samePrev : ∀ node ∈ nodes, prev' node = prev node)
    (lastNext : ∀ last, nodes.getLast? = some last → next' last = target)
    (sameNext : ∀ node ∈ nodes, nodes.getLast? ≠ some node → next' node = next node) :
    Segment next' prev' before nodes target := by
  rcases List.eq_nil_or_concat nodes with rfl | ⟨front, last, rfl⟩
  · trivial
  · rw [List.concat_eq_append] at *
    have tail : (front ++ [last]).getLast? = some last := by simp
    have notLast : ∀ node ∈ front, node ≠ last := by
      rintro node member rfl
      exact (List.nodup_append.mp distinct).2.2 node member node (List.mem_singleton_self node) rfl
    rw [Segment.append] at segment ⊢
    obtain ⟨frontSegment, back, _, _⟩ := segment
    refine ⟨frontSegment.congr ?_ ?_, ?_, ?_, trivial⟩
    · intro node member
      apply sameNext node (List.mem_append_left _ member)
      rw [tail]
      exact fun same => notLast node member (Option.some.inj same).symm
    · exact fun node member => samePrev node (List.mem_append_left _ member)
    · exact (samePrev last (by simp)).trans back
    · exact lastNext last tail

theorem Segment.next_at {before after : Node} {nodes : List Node}
    (segment : Segment next prev before nodes after) {i : Nat} {node : Node}
    (here : nodes[i]? = some node) : next node = nodes.getD (i + 1) after := by
  induction nodes generalizing before i with
  | nil => simp at here
  | cons first rest ih =>
    obtain ⟨_, forward, following⟩ := segment
    cases i with
    | zero =>
      rw [List.getElem?_cons_zero, Option.some_inj] at here
      rw [← here, forward]
      cases rest <;> rfl
    | succ i =>
      rw [List.getElem?_cons_succ] at here
      exact ih following here

/-- The node at a position of a list that is closed to a ring. -/
def ringNode (nodes : List Node) (outside : Node) (i : Nat) : Node :=
  nodes.getD (i % nodes.length) outside

theorem ringNode_mem {nodes : List Node} (outside : Node) (nonempty : nodes ≠ []) (i : Nat) :
    nodes[i % nodes.length]? = some (ringNode nodes outside i) := by
  have bound : i % nodes.length < nodes.length :=
    Nat.mod_lt i (List.length_pos_iff.mpr nonempty)
  unfold ringNode
  rw [List.getD_eq_getElem?_getD, List.getElem?_eq_getElem bound, Option.getD_some]

/-- A round of the ring visits the list, rotated to the node it starts with. -/
theorem ringNode_round (nodes : List Node) (outside : Node) (start : Nat) :
    (List.range nodes.length).map (fun i => ringNode nodes outside (start + i)) =
      nodes.rotate start := by
  apply List.ext_getElem?
  intro i
  by_cases bound : i < nodes.length
  · have position : (start + i) % nodes.length < nodes.length := Nat.mod_lt _ (by omega)
    rw [List.getElem?_rotate bound, List.getElem?_map, List.getElem?_range bound, Option.map_some,
      Nat.add_comm i start, List.getElem?_eq_getElem position]
    unfold ringNode
    rw [List.getD_eq_getElem?_getD, List.getElem?_eq_getElem position, Option.getD_some]
  · rw [List.getElem?_eq_none (by simpa using bound), List.getElem?_eq_none (by simpa using bound)]

theorem ringNode_rotate (nodes : List Node) (outside : Node) (shift i : Nat) :
    ringNode (nodes.rotate shift) outside i = ringNode nodes outside (i + shift) := by
  unfold ringNode
  rw [List.length_rotate]
  rcases nodes.eq_nil_or_concat with rfl | ⟨front, last, rfl⟩
  · simp
  · have positive : 0 < (front.concat last).length := by simp
    rw [List.getD_eq_getElem?_getD, List.getD_eq_getElem?_getD, List.getElem?_rotate (Nat.mod_lt _ positive),
      Nat.mod_add_mod]

theorem ringNode_inj {nodes : List Node} {outside : Node} (distinct : nodes.Nodup) {i j : Nat} (iBound : i < nodes.length)
    (jBound : j < nodes.length) (same : ringNode nodes outside i = ringNode nodes outside j) : i = j := by
  unfold ringNode at same
  rw [Nat.mod_eq_of_lt iBound, Nat.mod_eq_of_lt jBound, List.getD_eq_getElem?_getD, List.getD_eq_getElem?_getD,
    List.getElem?_eq_getElem iBound, List.getElem?_eq_getElem jBound, Option.getD_some, Option.getD_some] at same
  exact distinct.getElem_inj_iff.mp same

theorem Segment.ring_next [DecidableEq Node] {before outside : Node} {nodes : List Node}
    (segment : Segment next prev before nodes outside) (proper : ∀ node ∈ nodes, node ≠ outside)
    (nonempty : nodes ≠ []) (i : Nat) :
    (if next (ringNode nodes outside i) = outside then nodes.headD outside
      else next (ringNode nodes outside i)) = ringNode nodes outside (i + 1) := by
  have positive := List.length_pos_iff.mpr nonempty
  have bound : i % nodes.length < nodes.length := Nat.mod_lt i positive
  have step : (i + 1) % nodes.length = (i % nodes.length + 1) % nodes.length :=
    (Nat.mod_add_mod i nodes.length 1).symm
  rw [segment.next_at (ringNode_mem outside nonempty i)]
  by_cases last : i % nodes.length + 1 = nodes.length
  · rw [last, Nat.mod_self] at step
    have past : nodes.getD nodes.length outside = outside := by simp
    rw [last, past, if_pos rfl]
    unfold ringNode
    rw [step]
    cases nodes <;> rfl
  · rw [@Nat.mod_eq_of_lt (i % nodes.length + 1) nodes.length (by omega)] at step
    have here : nodes.getD (i % nodes.length + 1) outside = ringNode nodes outside (i + 1) := by
      unfold ringNode
      rw [step]
    have member := List.mem_of_getElem? (ringNode_mem outside nonempty (i + 1))
    rw [here, if_neg (proper _ member)]

theorem Segment.walk {before after : Node} {nodes : List Node}
    (segment : Segment next prev before nodes after) :
    walk next nodes.length (nodes.headD after) = nodes := by
  induction nodes generalizing before with
  | nil => rfl
  | cons node rest ih =>
    obtain ⟨_, forward, following⟩ := segment
    have tail := ih following
    rw [List.length_cons, LinkedList.walk, List.headD_cons, forward, tail]

end LinkedList
