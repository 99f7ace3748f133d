import Mathlib.Data.List.Basic

/-! The longest runs of a list without separators, in order and with their positions. -/

namespace Tokens
variable {α : Type} {separator : α → Prop}

/-- The word stands at that position, between separators or at the ends of the text. -/
def IsToken (separator : α → Prop) (text : List α) (start : Nat) (word : List α) : Prop :=
  word ≠ [] ∧ (∀ c ∈ word, ¬separator c) ∧ ∃ before after, text = before ++ (word ++ after) ∧ before.length = start ∧
    (∀ c, before.getLast? = some c → separator c) ∧ ∀ c, after.head? = some c → separator c

structure TokensOf (separator : α → Prop) (text : List α) (tokens : List (Nat × List α)) : Prop where
  listed : ∀ start word, (start, word) ∈ tokens ↔ IsToken separator text start word
  ordered : tokens.Pairwise (fun first second => first.1 < second.1)

def shift (n : Nat) (tokens : List (Nat × List α)) : List (Nat × List α) :=
  tokens.map (fun token => (n + token.1, token.2))

section Words
variable {text rest word : List α} {d : α} {start : Nat}

theorem isToken_nil : ¬IsToken separator [] start word := by
  rintro ⟨nonempty, _, before, after, split, _⟩
  exact nonempty (List.append_eq_nil_iff.mp (List.append_eq_nil_iff.mp split.symm).2).1

theorem isToken_separator (separates : separator d) :
    IsToken separator (d :: text) start word ↔ ∃ s, start = 1 + s ∧ IsToken separator text s word := by
  constructor
  · rintro ⟨nonempty, free, before, after, split, place, left, right⟩
    cases before with
    | nil =>
      obtain ⟨c, rest, rfl⟩ := List.exists_cons_of_ne_nil nonempty
      rw [List.nil_append, List.cons_append, List.cons.injEq] at split
      exact absurd (split.1 ▸ separates) (free c List.mem_cons_self)
    | cons c before =>
      rw [List.cons_append, List.cons.injEq] at split
      refine ⟨before.length, by rw [← place, List.length_cons, Nat.add_comm], nonempty, free, before, after, split.2,
        rfl, fun e last => left e ?_, right⟩
      rw [List.getLast?_cons, last]
      rfl
  · rintro ⟨s, rfl, nonempty, free, before, after, rfl, place, left, right⟩
    refine ⟨nonempty, free, d :: before, after, rfl, by rw [List.length_cons, place, Nat.add_comm], fun e last => ?_,
      right⟩
    rw [List.getLast?_cons, Option.some_inj] at last
    rw [← last]
    cases found : before.getLast? with
    | none => exact separates
    | some f => exact left f found

theorem isToken_word (nonempty : text ≠ []) (free : ∀ c ∈ text, ¬separator c) :
    IsToken separator text start word ↔ start = 0 ∧ word = text := by
  constructor
  · rintro ⟨_, _, before, after, split, place, left, right⟩
    have noBefore : before = [] := by
      by_contra some
      have last := List.getLast?_eq_some_getLast some
      refine free _ ?_ (left _ last)
      rw [split]
      exact List.mem_append_left _ (List.getLast_mem some)
    have noAfter : after = [] := by
      cases after with
      | nil => rfl
      | cons d back =>
        refine absurd (right d rfl) (free d ?_)
        rw [split]
        exact List.mem_append_right _ (List.mem_append_right _ List.mem_cons_self)
    rw [noBefore, noAfter, List.nil_append, List.append_nil] at split
    rw [noBefore, List.length_nil] at place
    exact ⟨place.symm, split.symm⟩
  · rintro ⟨rfl, rfl⟩
    refine ⟨nonempty, free, [], [], by simp, rfl, fun c none => ?_, fun c none => ?_⟩
    · cases none
    · cases none

theorem isToken_word_append (nonempty : text ≠ []) (free : ∀ c ∈ text, ¬separator c) (separates : separator d) :
    IsToken separator (text ++ d :: rest) start word ↔
      (start = 0 ∧ word = text) ∨ ∃ s, start = text.length + 1 + s ∧ IsToken separator rest s word := by
  constructor
  · rintro ⟨wordNonempty, wordFree, before, after, split, place, left, right⟩
    rcases List.append_eq_append_iff.mp split with ⟨more, rfl, behind⟩ | ⟨more, rfl, behind⟩
    · -- the word begins behind the first one
      cases more with
      | nil =>
        obtain ⟨c, others, rfl⟩ := List.exists_cons_of_ne_nil wordNonempty
        rw [List.nil_append, List.cons_append, List.cons.injEq] at behind
        exact absurd (behind.1 ▸ separates) (wordFree c List.mem_cons_self)
      | cons e more =>
        rw [List.cons_append, List.cons.injEq] at behind
        obtain ⟨rfl, behind⟩ := behind
        refine Or.inr ⟨more.length, ?_, wordNonempty, wordFree, more, after, behind, rfl,
          fun f last => left f ?_, right⟩
        · rw [← place, List.length_append, List.length_cons]
          omega
        · rw [List.getLast?_append, List.getLast?_cons, last]
          rfl
    · have noBefore : before = [] := by
        by_contra some
        have last := List.getLast?_eq_some_getLast some
        exact free _ (List.mem_append_left _ (List.getLast_mem some)) (left _ last)
      subst noBefore
      refine Or.inl ⟨place.symm, ?_⟩
      rw [List.nil_append]
      rcases List.append_eq_append_iff.mp behind with ⟨tail, rfl, remains⟩ | ⟨tail, rfl, remains⟩
      · cases tail with
        | nil => rw [List.append_nil]
        | cons e tail =>
          refine absurd (right e ?_) (free e (List.mem_append_right _ (List.mem_append_right _ List.mem_cons_self)))
          rw [remains]
          rfl
      · cases tail with
        | nil => rw [List.append_nil]
        | cons e tail =>
          rw [List.cons_append, List.cons.injEq] at remains
          exact absurd (remains.1 ▸ separates) (wordFree e (List.mem_append_right _ List.mem_cons_self))
  · rintro (⟨rfl, rfl⟩ | ⟨s, rfl, wordNonempty, wordFree, before, after, rfl, place, left, right⟩)
    · refine ⟨nonempty, free, [], d :: rest, rfl, rfl, fun c none => ?_, fun c first => ?_⟩
      · cases none
      · rw [← Option.some.inj first]
        exact separates
    · refine ⟨wordNonempty, wordFree, text ++ d :: before, after, by simp, ?_, fun c last => ?_, right⟩
      · rw [List.length_append, List.length_cons, place]
        omega
      · rw [List.getLast?_append, List.getLast?_cons, Option.some_or, Option.some_inj] at last
        rw [← last]
        cases found : before.getLast? with
        | none => exact separates
        | some f => exact left f found

end Words

section Lists
variable {text rest : List α} {tokens : List (Nat × List α)} {d : α}

theorem mem_shift (n start : Nat) (word : List α) (tokens : List (Nat × List α)) :
    (start, word) ∈ shift n tokens ↔ ∃ s, start = n + s ∧ (s, word) ∈ tokens := by
  unfold shift
  rw [List.mem_map]
  constructor
  · rintro ⟨⟨s, w⟩, member, same⟩
    cases same
    exact ⟨s, rfl, member⟩
  · rintro ⟨s, rfl, member⟩
    exact ⟨(s, word), member, rfl⟩

theorem shift_shift (m n : Nat) (tokens : List (Nat × List α)) : shift m (shift n tokens) = shift (m + n) tokens := by
  unfold shift
  rw [List.map_map]
  exact List.map_congr_left (fun token _ => by rw [Function.comp_apply, Nat.add_assoc])

theorem pairwise_shift (n : Nat) (ordered : tokens.Pairwise (fun first second => first.1 < second.1)) :
    (shift n tokens).Pairwise (fun first second => first.1 < second.1) :=
  List.pairwise_map.mpr (ordered.imp (fun less => Nat.add_lt_add_left less n))

theorem TokensOf.nil : TokensOf separator ([] : List α) [] :=
  ⟨fun _ _ => iff_of_false List.not_mem_nil isToken_nil, List.Pairwise.nil⟩

theorem TokensOf.skip (separates : separator d) (tokensOf : TokensOf separator text tokens) :
    TokensOf separator (d :: text) (shift 1 tokens) := by
  refine ⟨fun start word => ?_, pairwise_shift 1 tokensOf.ordered⟩
  rw [mem_shift, isToken_separator separates]
  exact exists_congr (fun s => and_congr_right (fun _ => tokensOf.listed s word))

theorem TokensOf.word (nonempty : text ≠ []) (free : ∀ c ∈ text, ¬separator c) :
    TokensOf separator text [(0, text)] := by
  refine ⟨fun start word => ?_, List.pairwise_singleton _ _⟩
  rw [isToken_word nonempty free, List.mem_singleton, Prod.mk.injEq]

theorem TokensOf.word_append (nonempty : text ≠ []) (free : ∀ c ∈ text, ¬separator c) (separates : separator d)
    (tokensOf : TokensOf separator rest tokens) :
    TokensOf separator (text ++ d :: rest) ((0, text) :: shift (text.length + 1) tokens) := by
  refine ⟨fun start word => ?_, List.pairwise_cons.mpr ⟨?_, pairwise_shift _ tokensOf.ordered⟩⟩
  · rw [List.mem_cons, Prod.mk.injEq, mem_shift, isToken_word_append nonempty free separates]
    exact or_congr_right (exists_congr (fun s => and_congr_right (fun _ => tokensOf.listed s word)))
  · rintro ⟨start, word⟩ member
    obtain ⟨s, rfl, _⟩ := (mem_shift _ _ _ _).mp member
    dsimp only
    omega

theorem TokensOf.skips {before : List α} (separates : ∀ c ∈ before, separator c)
    (tokensOf : TokensOf separator text tokens) :
    TokensOf separator (before ++ text) (shift before.length tokens) := by
  induction before with
  | nil =>
    have same : shift 0 tokens = tokens := by
      unfold shift
      simp
    rw [List.length_nil, same]
    exact tokensOf
  | cons d before ih =>
    obtain ⟨first, later⟩ := List.forall_mem_cons.mp separates
    rw [List.length_cons, Nat.add_comm, ← shift_shift]
    exact TokensOf.skip first (ih later)

end Lists

theorem splits_at (stops : α → Prop) (text : List α) : ∃ before rest, text = before ++ rest ∧
    (∀ c ∈ before, ¬stops c) ∧ ∀ c, rest.head? = some c → stops c := by
  induction text with
  | nil =>
    refine ⟨[], [], rfl, fun c none => absurd none List.not_mem_nil, fun c none => ?_⟩
    cases none
  | cons c text ih =>
    by_cases here : stops c
    · refine ⟨[], c :: text, rfl, fun d none => absurd none List.not_mem_nil, fun d first => ?_⟩
      rw [← Option.some.inj first]
      exact here
    · obtain ⟨before, rest, rfl, goesOn, ends⟩ := ih
      exact ⟨c :: before, rest, rfl, List.forall_mem_cons.mpr ⟨here, goesOn⟩, ends⟩

end Tokens
