import TelemetrySearch.Proofs.QueryComposition

/-!
# Compiled formulas are in normal form

The formula of a tree is normal (`Query.normal_formula`), and compiling its terms changes nothing but the leaves. What
a list of tokens compiles to is therefore normal as well (`Search.normal_of_compileTokens`).

`Formula.groups` lists the groups inside a formula. `Search.groups_compileTokens` says of each of them what the normal
form says of the whole formula.
-/

namespace TelemetrySearch

namespace Formula

variable {α β ε : Type}

/-! ## Normal form and leaves -/

theorem normal_group_iff {children : List (Formula α)} {connectives : List Connective} :
    (group children connectives).Normal ↔
      2 ≤ children.length ∧ (∀ f ∈ children, f.Normal) ∧
        ∃ c, connectives = List.replicate (children.length - 1) c ∧ ∀ f ∈ children, ¬f.Uses c := by
  constructor
  · intro h
    cases h with
    | @group c _ htwo hnormal huses => exact ⟨htwo, hnormal, c, rfl, huses⟩
  · rintro ⟨htwo, hnormal, c, rfl, huses⟩
    exact .group htwo hnormal huses

theorem uses_map (g : α → β) (c : Connective) (f : Formula α) : (f.map g).Uses c ↔ f.Uses c := by
  cases f with
  | leaf a => exact Iff.rfl
  | group children connectives => rw [map_group, Uses, Uses]

/-- The leaves do not matter for the normal form. -/
theorem normal_map_iff (g : α → β) (f : Formula α) : (f.map g).Normal ↔ f.Normal := by
  induction f using inductionOn with
  | leaf a => exact ⟨fun _ => .leaf a, fun _ => .leaf (g a)⟩
  | group children connectives ih =>
    have hnormal : (∀ f ∈ children, (f.map g).Normal) ↔ ∀ f ∈ children, f.Normal :=
      forall₂_congr ih
    simp only [map_group, normal_group_iff, List.length_map, List.forall_mem_map, hnormal, uses_map]

theorem normal_traverse_iff {g : α → Except ε β} {f : Formula α} {e : Formula β} (h : f.traverse g = .ok e) :
    e.Normal ↔ f.Normal := by
  rw [← normal_map_iff Except.ok e, ← traverse_eq_ok_iff.1 h, normal_map_iff]

/-- A normal formula is proper. -/
theorem Normal.proper {f : Formula α} (h : f.Normal) : f.Proper := by
  induction h with
  | leaf a => exact .leaf a
  | group htwo _ _ ih =>
    refine .group ?_ ih
    rw [List.length_replicate]
    omega

/-! ## The groups inside a formula -/

mutual

/-- The groups inside a formula, each with its children and its connectives, from the outside to the inside. -/
def groups : Formula α → List (List (Formula α) × List Connective)
  | leaf _ => []
  | group children connectives => (children, connectives) :: groupsAll children

/-- The groups inside a row of formulas. -/
def groupsAll : List (Formula α) → List (List (Formula α) × List Connective)
  | [] => []
  | f :: fs => f.groups ++ groupsAll fs

end

theorem groupsAll_eq_flatMap (fs : List (Formula α)) : groupsAll fs = fs.flatMap groups := by
  induction fs with
  | nil => rfl
  | cons f fs ih => rw [groupsAll, List.flatMap_cons, ih]

theorem mem_groups_group {children : List (Formula α)} {connectives : List Connective}
    {p : List (Formula α) × List Connective} :
    p ∈ (group children connectives).groups ↔ p = (children, connectives) ∨ ∃ f ∈ children, p ∈ f.groups := by
  rw [groups, groupsAll_eq_flatMap, List.mem_cons, List.mem_flatMap]

/-- Each group inside a normal formula is a normal formula. -/
theorem Normal.of_mem_groups {f : Formula α} (h : f.Normal) {children : List (Formula α)}
    {connectives : List Connective} (hg : (children, connectives) ∈ f.groups) :
    (Formula.group children connectives).Normal := by
  induction h with
  | leaf a => cases hg
  | group htwo hnormal huses ih =>
    rcases mem_groups_group.1 hg with heq | ⟨f, hf, hg⟩
    · cases heq
      exact .group htwo hnormal huses
    · exact ih f hf hg

end Formula

namespace Search

variable {s : Search}

/-- **What tokens compile to is in normal form.** -/
theorem normal_of_compileTokens {tokens : List Token} {e : Formula Condition}
    (h : s.compileTokens tokens = .ok (some e)) : e.Normal := by
  obtain ⟨q, -, -, he⟩ := exists_query_of_compileTokens_eq_some h
  exact (Formula.normal_traverse_iff he).2 q.normal_formula

/-- **`AND` and `OR` alternate in a compiled formula.** Every group in what tokens compile to has two children or more
and one connective less than children. All its connectives are the same, and no child is a group with this connective
in it. -/
theorem groups_compileTokens {tokens : List Token} {e : Formula Condition}
    (h : s.compileTokens tokens = .ok (some e)) {children : List (Formula Condition)} {connectives : List Connective}
    (hg : (children, connectives) ∈ e.groups) :
    2 ≤ children.length ∧ connectives.length + 1 = children.length ∧
      ∃ c, (∀ k ∈ connectives, k = c) ∧ ∀ inner ks, .group inner ks ∈ children → c ∉ ks := by
  have hnormal := (normal_of_compileTokens h).of_mem_groups hg
  obtain ⟨htwo, -, c, rfl, huses⟩ := Formula.normal_group_iff.1 hnormal
  refine ⟨htwo, ?_, c, ?_, ?_⟩
  · rw [List.length_replicate]
    omega
  · intro k hk
    exact List.eq_of_mem_replicate hk
  · intro inner ks hinner
    exact huses (.group inner ks) hinner

/-- The `AND` in parentheses stays a group of its own below the `OR`, and the group around it is merged. -/
theorem groups_compileTokens_nested :
    let a : Formula Condition := .leaf ⟨"hasTokenCaseInsensitive(SpanName, ?)", ["a"]⟩
    let b : Formula Condition := .leaf ⟨"hasTokenCaseInsensitive(SpanName, ?)", ["b"]⟩
    let c : Formula Condition := .leaf ⟨"hasTokenCaseInsensitive(SpanName, ?)", ["c"]⟩
    (⟨.traces, .reject⟩ : Search).compileTokens
        [.word "a", .keyword .or, .leftParen, .leftParen, .word "b", .word "c", .rightParen, .keyword .or, .word "a",
          .rightParen] =
      .ok (some (.group [a, .group [b, c] [.and], a] [.or, .or])) ∧
    ∃ k, (∀ k' ∈ [Connective.or, .or], k' = k) ∧
      ∀ inner ks, .group inner ks ∈ [a, .group [b, c] [.and], a] → k ∉ ks := by
  intro a b c
  let q : Query :=
    ⟨.term (.body (.word "a")) trivial,
      .cons (some .or)
        (.group
          (.group (.term (.body (.word "b")) trivial) (.cons none (.term (.body (.word "c")) trivial) .nil))
          (.cons (some .or) (.term (.body (.word "a")) trivial) .nil))
        .nil⟩
  refine (fun h => ⟨h, ?_⟩) (compileTokens_tokens ⟨.traces, .reject⟩ (show q.depth ≤ maxDepth by decide))
  exact (groups_compileTokens h List.mem_cons_self).2.2

end Search

end TelemetrySearch
