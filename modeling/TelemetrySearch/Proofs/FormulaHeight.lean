import TelemetrySearch.Proofs.FormulaShape
import TelemetrySearch.Proofs.QueryMeaning

/-!
# How deep formulas nest

The height of a formula is the number of groups that stand one inside another. Joining formulas adds at most one level
(`Formula.height_join_le`), and a row of operands is joined twice, by `AND` and by `OR`. A group of a query therefore
adds at most two levels, and so does the query itself (`Query.height_formula_le`). The length of the query does not
matter.

To count the leaves of a formula and to write it are recursions that go down the formula. `Formula.leavesWithin` and
`Formula.symbolsWithin` are these recursions with a bound on the calls that may be open at once. One call more than the
height is enough (`Formula.leavesWithin_eq`, `Formula.symbolsWithin_eq`).
-/

namespace TelemetrySearch

namespace Formula

variable {α β ε : Type}

/-! ## Height -/

mutual

/-- The number of groups that stand one inside another. -/
def height : Formula α → Nat
  | leaf _ => 0
  | group children _ => heightAll children + 1

/-- The greatest height in a row of formulas. -/
def heightAll : List (Formula α) → Nat
  | [] => 0
  | f :: fs => max f.height (heightAll fs)

end

theorem heightAll_le_iff {fs : List (Formula α)} {n : Nat} : heightAll fs ≤ n ↔ ∀ f ∈ fs, f.height ≤ n := by
  induction fs with
  | nil => simp [heightAll]
  | cons f fs ih => rw [heightAll, Nat.max_le, ih, List.forall_mem_cons]

theorem height_lt_of_mem {f : Formula α} {children : List (Formula α)} (h : f ∈ children)
    (connectives : List Connective) : f.height < (group children connectives).height := by
  rw [height]
  exact Nat.lt_succ_of_le (heightAll_le_iff.1 (Nat.le_refl _) f h)

/-- The leaves do not matter for the height. -/
theorem height_map (g : α → β) (f : Formula α) : (f.map g).height = f.height := by
  induction f using inductionOn with
  | leaf a => rfl
  | group children connectives ih =>
    rw [map_group, height, height]
    congr 1
    induction children with
    | nil => rfl
    | cons f fs ihs =>
      obtain ⟨hf, hfs⟩ := List.forall_mem_cons.1 ih
      rw [List.map_cons, heightAll, heightAll, hf, ihs hfs]

theorem height_traverse {g : α → Except ε β} {f : Formula α} {e : Formula β} (h : f.traverse g = .ok e) :
    e.height = f.height := by
  rw [← height_map Except.ok e, ← traverse_eq_ok_iff.1 h, height_map]

/-! ### Building -/

theorem height_le_of_mem_operands {c : Connective} {f g : Formula α} (h : g ∈ f.operands c) : g.height ≤ f.height := by
  cases f with
  | leaf a =>
    obtain rfl := List.mem_singleton.1 h
    exact Nat.le_refl _
  | group children connectives =>
    rw [operands] at h
    split at h
    · exact Nat.le_of_lt (height_lt_of_mem h connectives)
    · obtain rfl := List.mem_singleton.1 h
      exact Nat.le_refl _

/-- **Joining adds at most one level.** -/
theorem height_join_le {c : Connective} {fs : List (Formula α)} {n : Nat} (h : ∀ f ∈ fs, f.height ≤ n) :
    (join c fs).height ≤ n + 1 := by
  have hflat : ∀ g ∈ fs.flatMap (operands c), g.height ≤ n := by
    intro g hg
    obtain ⟨f, hf, hg⟩ := List.mem_flatMap.1 hg
    exact Nat.le_trans (height_le_of_mem_operands hg) (h f hf)
  unfold join
  split
  · next only heq =>
    have honly := hflat only (by simp [heq])
    omega
  · rw [height]
    have hall := heightAll_le_iff.2 hflat
    omega

/-- A row of operands is joined twice. -/
theorem height_ofOperands_le {row : List (Connective × Formula α)} {n : Nat} (h : ∀ p ∈ row, p.2.height ≤ n) :
    (ofOperands row).height ≤ n + 2 := by
  rw [ofOperands]
  apply height_join_le
  intro g hg
  obtain ⟨run, hrun, rfl⟩ := List.mem_map.1 hg
  apply height_join_le
  intro f hf
  obtain ⟨c, hc⟩ := mem_runs hrun hf
  exact h (c, f) hc

/-! ## Recursions with a bound on the open calls -/

/-- The leaves from left to right, with at most `frames` calls open at once; there is no result if it takes more. -/
def leavesWithin : Nat → Formula α → Option (List α)
  | 0, _ => none
  | _ + 1, leaf a => some [a]
  | frames + 1, group children _ => (children.mapM (leavesWithin frames)).map List.flatten

/-- Rows of symbols with connectives between them; a missing connective is `AND`. -/
def Symbol.joinRows : List (List (Symbol α)) → List Connective → List (Symbol α)
  | [], _ => []
  | [row], _ => row
  | row :: next :: rows, connectives =>
    row ++ .connective (connectives.headD .and) :: joinRows (next :: rows) connectives.tail

/-- The symbols of a formula, with at most `frames` calls open at once; there is no result if it takes more. -/
def symbolsWithin : Nat → Bool → Formula α → Option (List (Symbol α))
  | 0, _, _ => none
  | _ + 1, _, leaf a => some [.atom a]
  | frames + 1, nested, group [child] _ => symbolsWithin frames nested child
  | frames + 1, nested, group children connectives =>
    (children.mapM (symbolsWithin frames true)).map fun rows =>
      if nested || connectives.contains .or then
        Symbol.enclose (Symbol.joinRows rows connectives)
      else
        Symbol.joinRows rows connectives

theorem mapM_eq_some_map {g : α → Option β} {h : α → β} {as : List α} (hgh : ∀ a ∈ as, g a = some (h a)) :
    as.mapM g = some (as.map h) := by
  induction as with
  | nil => rfl
  | cons a as ih =>
    obtain ⟨ha, has⟩ := List.forall_mem_cons.1 hgh
    rw [List.mapM_cons, ha, ih has]
    rfl

theorem leavesWithin_eq {f : Formula α} {frames : Nat} (h : f.height < frames) :
    f.leavesWithin frames = some f.leaves := by
  induction f using inductionOn generalizing frames with
  | leaf a =>
    cases frames with
    | zero => cases h
    | succ frames => rfl
  | group children connectives ih =>
    cases frames with
    | zero => cases h
    | succ frames =>
      have hchildren : ∀ f ∈ children, f.leavesWithin frames = some f.leaves := by
        intro f hf
        have hlt := height_lt_of_mem hf connectives
        exact ih f hf (by omega)
      rw [leavesWithin, mapM_eq_some_map hchildren, leaves_group, List.flatMap_def]
      rfl

theorem rowSymbols_eq_joinRows (fs : List (Formula α)) (connectives : List Connective) :
    rowSymbols fs connectives = Symbol.joinRows (fs.map (symbols true)) connectives := by
  induction fs generalizing connectives with
  | nil => rfl
  | cons f fs ih =>
    cases fs with
    | nil => rfl
    | cons g fs =>
      rw [rowSymbols, ih]
      rfl

theorem symbolsWithin_eq {f : Formula α} {frames : Nat} (h : f.height < frames) (nested : Bool) :
    f.symbolsWithin frames nested = some (f.symbols nested) := by
  induction f using inductionOn generalizing frames nested with
  | leaf a =>
    cases frames with
    | zero => cases h
    | succ frames => rfl
  | group children connectives ih =>
    cases frames with
    | zero => cases h
    | succ frames =>
      have hchildren : ∀ f ∈ children, ∀ nested, f.symbolsWithin frames nested = some (f.symbols nested) := by
        intro f hf nested
        have hlt := height_lt_of_mem hf connectives
        exact ih f hf (by omega) nested
      by_cases hsingle : ∃ child, children = [child]
      · obtain ⟨child, rfl⟩ := hsingle
        rw [symbolsWithin, symbols]
        exact hchildren child List.mem_cons_self nested
      · have hne : ∀ child, children ≠ [child] := fun child heq => hsingle ⟨child, heq⟩
        rw [symbolsWithin, symbols, mapM_eq_some_map fun f hf => hchildren f hf true, rowSymbols_eq_joinRows]
        · rfl
        · exact hne
        · exact hne

end Formula

/-! ## Formulas of trees -/

mutual

theorem Operand.height_formula_le : ∀ o : Operand, o.formula.height ≤ 2 * o.depth
  | .term _ _ => Nat.le_refl 0
  | .group first more => by
    rw [Operand.formula, Operand.depth]
    have hfirst := Operand.height_formula_le first
    have hmore := Chain.height_row_le more
    have hrow : ∀ p ∈ (Connective.and, first.formula) :: more.row, p.2.height ≤ 2 * max first.depth more.depth := by
      intro p hp
      rcases List.mem_cons.1 hp with rfl | hp
      · show first.formula.height ≤ _
        omega
      · have hp := hmore p hp
        omega
    have hheight := Formula.height_ofOperands_le hrow
    omega

theorem Chain.height_row_le : ∀ (c : Chain), ∀ p ∈ c.row, p.2.height ≤ 2 * c.depth
  | .nil => List.forall_mem_nil _
  | .cons link o more => by
    rw [Chain.row, Chain.depth]
    intro p hp
    rcases List.mem_cons.1 hp with rfl | hp
    · have ho := Operand.height_formula_le o
      show o.formula.height ≤ _
      omega
    · have hmore := Chain.height_row_le more p hp
      omega

end

/-- **A query adds two levels to those of its groups.** -/
theorem Query.height_formula_le (q : Query) : q.formula.height ≤ 2 * (q.depth + 1) :=
  (Operand.group q.first q.more).height_formula_le

/-! ## Compiled formulas -/

namespace Search

variable {s : Search}

/-- **The height of what tokens compile to is bounded**, however many tokens there are. So are the calls that are open
at once when its leaves are counted or it is written. -/
theorem height_compileTokens {tokens : List Token} {e : Formula Condition}
    (h : s.compileTokens tokens = .ok (some e)) :
    e.height ≤ 2 * (maxDepth + 1) ∧ 2 * (maxDepth + 1) = 130 ∧
      e.leavesWithin 131 = some e.leaves ∧ ∀ nested, e.symbolsWithin 131 nested = some (e.symbols nested) := by
  obtain ⟨q, -, hd, he⟩ := exists_query_of_compileTokens_eq_some h
  have hheight : e.height ≤ 2 * (maxDepth + 1) := by
    rw [Formula.height_traverse he]
    have hq := q.height_formula_le
    omega
  have hbound : 2 * (maxDepth + 1) = 130 := rfl
  have hframes : e.height < 131 := by omega
  exact ⟨hheight, hbound, Formula.leavesWithin_eq hframes, Formula.symbolsWithin_eq hframes⟩

end Search

/-! ### The bound is reached -/

/-- The operand `(a OR b (a OR b (… a)))` of `n` groups, one inside another. -/
def Operand.steep : Nat → Operand
  | 0 => .term (.body (.word "a")) trivial
  | n + 1 =>
    .group (.term (.body (.word "a")) trivial)
      (.cons (some .or) (.term (.body (.word "b")) trivial) (.cons none (steep n) .nil))

/-- The query `a OR b (a OR b (… a))` of `n` groups, one inside another. -/
def Query.steep (n : Nat) : Query :=
  ⟨.term (.body (.word "a")) trivial,
    .cons (some .or) (.term (.body (.word "b")) trivial) (.cons none (Operand.steep n) .nil)⟩

theorem Operand.depth_steep (n : Nat) : (Operand.steep n).depth = n := by
  induction n with
  | zero => rfl
  | succ n ih => simp [Operand.steep, Operand.depth, Chain.depth, ih]

theorem Operand.terms_steep (n : Nat) : ∀ t ∈ (Operand.steep n).terms, ∃ l, t = .body l := by
  induction n with
  | zero => simp [Operand.steep, Operand.terms]
  | succ n ih => simpa [Operand.steep, Operand.terms, Chain.terms] using ih

/-- The row `a OR b f`, for an `f` that stays apart from the `AND` around it. -/
theorem Formula.ofOperands_or_and {α : Type} (a b : α) {f : Formula α} (hf : f.operands .and = [f]) :
    ofOperands [(.and, leaf a), (.or, leaf b), (.and, f)] = group [leaf a, group [leaf b, f] [.and]] [.or] := by
  have hflat : [leaf b, f].flatMap (operands .and) = [leaf b, f] := by
    rw [List.flatMap_cons, List.flatMap_singleton, hf]
    rfl
  have hjoin : join .and [leaf b, f] = group [leaf b, f] [.and] := by
    rw [join, hflat]
    rfl
  show join .or [join .and [leaf a], join .and [leaf b, f]] = _
  rw [hjoin]
  rfl

/-- Each group of `Operand.steep` is an `OR`, so it stays apart from the `AND` around it. -/
theorem Operand.formula_steep (n : Nat) :
    (Operand.steep n).formula.operands .and = [(Operand.steep n).formula] ∧
      (Operand.steep n).formula.height = 2 * n := by
  induction n with
  | zero => exact ⟨rfl, rfl⟩
  | succ n ih =>
    obtain ⟨hoperands, hheight⟩ := ih
    have hrow : (Operand.steep (n + 1)).formula =
        .ofOperands [(.and, .leaf (.body (.word "a"))), (.or, .leaf (.body (.word "b"))),
          (.and, (Operand.steep n).formula)] := rfl
    rw [hrow, Formula.ofOperands_or_and _ _ hoperands]
    refine ⟨rfl, ?_⟩
    simp only [Formula.height, Formula.heightAll, hheight]
    omega

/-- The query of 64 groups, one inside another, compiles to a formula of height 130. -/
theorem Search.height_compileTokens_steep :
    ∃ e, (⟨.traces, .reject⟩ : Search).compileTokens (Query.steep 64).tokens = .ok (some e) ∧ e.height = 130 ∧
      e.leavesWithin 131 = some e.leaves := by
  have hdepth : (Query.steep 64).depth ≤ maxDepth := by
    simp [Query.steep, Query.depth, Operand.depth, Chain.depth, Operand.depth_steep, maxDepth]
  have hterms : ∀ t ∈ (Query.steep 64).formula.leaves, ∃ c, (⟨.traces, .reject⟩ : Search).term t = .ok c := by
    intro t ht
    rw [Query.leaves_formula] at ht
    obtain ⟨l, rfl⟩ := Operand.terms_steep 65 t ht
    exact ⟨_, rfl⟩
  obtain ⟨e, he⟩ := Formula.exists_traverse_eq_ok hterms
  have hcompiled : (⟨.traces, .reject⟩ : Search).compileTokens (Query.steep 64).tokens = .ok (some e) := by
    rw [Search.compileTokens_tokens _ hdepth, he]
    rfl
  have hheight : e.height = 2 * 65 := (Formula.height_traverse he).trans (Operand.formula_steep 65).2
  exact ⟨e, hcompiled, hheight, (Search.height_compileTokens hcompiled).2.2.1⟩

end TelemetrySearch
