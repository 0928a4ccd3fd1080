import TelemetrySearch.Proofs.FormulaValue

/-!
# The written formula means what the formula means

SQL reads a row of symbols by the grammar

    disjunction := conjunction | disjunction OR conjunction
    conjunction := factor | conjunction AND factor
    factor      := atom | "(" disjunction ")"

`Disjunction v row b` says that `row` is such a disjunction and has the value `b` when the atom `a` has the value `v a`.

* A row has at most one value (`Disjunction.unique`): a machine that keeps one `Level` for each open parenthesis goes
  through the row once and finds it.
* The symbols of a proper formula are a conjunction, and even a factor where the formula stands inside a group
  (`Proper.factor_and_conjunction`), with the value of the formula. Nothing that is written around them can therefore
  take an operand out of its `OR`.
-/

namespace TelemetrySearch.Formula

variable {α : Type}

/-! ## The grammar -/

section Grammar

variable (v : α → Bool)

mutual

/-- An atom, or a disjunction in parentheses. -/
inductive Factor : List (Symbol α) → Bool → Prop
  | atom (a : α) : Factor [.atom a] (v a)
  | enclose {row : List (Symbol α)} {b : Bool} : Disjunction row b → Factor (Symbol.enclose row) b

/-- Factors with `AND` between them. -/
inductive Conjunction : List (Symbol α) → Bool → Prop
  | factor {row : List (Symbol α)} {b : Bool} : Factor row b → Conjunction row b
  | and {row row' : List (Symbol α)} {b b' : Bool} :
      Conjunction row b → Factor row' b' → Conjunction (row ++ .connective .and :: row') (b && b')

/-- Conjunctions with `OR` between them. -/
inductive Disjunction : List (Symbol α) → Bool → Prop
  | conjunction {row : List (Symbol α)} {b : Bool} : Conjunction row b → Disjunction row b
  | or {row row' : List (Symbol α)} {b b' : Bool} :
      Disjunction row b → Conjunction row' b' → Disjunction (row ++ .connective .or :: row') (b || b')

end

end Grammar

variable {v : α → Bool}

/-- A conjunction can also be put in front. -/
theorem Disjunction.or_left {row : List (Symbol α)} {b : Bool} (h : Conjunction v row b) :
    ∀ {row' : List (Symbol α)} {b' : Bool}, Disjunction v row' b' →
      Disjunction v (row ++ .connective .or :: row') (b || b')
  | _, _, .conjunction h' => .or (.conjunction h) h'
  | _, _, .or hd h' => by
    have := Disjunction.or (Disjunction.or_left h hd) h'
    simpa [Bool.or_assoc] using this

/-! ## A row has one value -/

/-- What is known inside an open parenthesis: the `OR` of the finished conjunctions, and the `AND` of the factors of the
current one. -/
structure Level where
  finished : Bool
  run : Bool

/-- The levels, innermost first, behind one more symbol. -/
def Level.step (v : α → Bool) : List Level → Symbol α → List Level
  | ⟨d, r⟩ :: ls, .atom a => ⟨d, r && v a⟩ :: ls
  | ls, .leftParen => ⟨false, true⟩ :: ls
  | l :: ⟨d, r⟩ :: ls, .rightParen => ⟨d, r && (l.finished || l.run)⟩ :: ls
  | ⟨d, r⟩ :: ls, .connective .or => ⟨d || r, true⟩ :: ls
  | ls, _ => ls

mutual

theorem Factor.foldl_step : ∀ {row : List (Symbol α)} {b : Bool}, Factor v row b → ∀ (d r : Bool) (ls : List Level),
    row.foldl (Level.step v) (⟨d, r⟩ :: ls) = ⟨d, r && b⟩ :: ls
  | _, _, .atom a, _, _, _ => rfl
  | _, _, .enclose hd, d, r, ls => by
    obtain ⟨d', r', hrun, hb⟩ := Disjunction.foldl_step hd false (⟨d, r⟩ :: ls)
    rw [Symbol.enclose, List.foldl_append, List.foldl_cons]
    simp only [Level.step, hrun, List.foldl_cons, List.foldl_nil, hb, Bool.false_or]

theorem Conjunction.foldl_step : ∀ {row : List (Symbol α)} {b : Bool}, Conjunction v row b →
    ∀ (d r : Bool) (ls : List Level), row.foldl (Level.step v) (⟨d, r⟩ :: ls) = ⟨d, r && b⟩ :: ls
  | _, _, .factor hf, d, r, ls => Factor.foldl_step hf d r ls
  | _, _, .and hc hf, d, r, ls => by
    rw [List.foldl_append, Conjunction.foldl_step hc, List.foldl_cons]
    simp only [Level.step, Factor.foldl_step hf, Bool.and_assoc]

/-- The finished conjunctions and the current one together have the value of the row. -/
theorem Disjunction.foldl_step : ∀ {row : List (Symbol α)} {b : Bool}, Disjunction v row b →
    ∀ (d : Bool) (ls : List Level),
      ∃ d' r', row.foldl (Level.step v) (⟨d, true⟩ :: ls) = ⟨d', r'⟩ :: ls ∧ (d' || r') = (d || b)
  | _, b, .conjunction hc, d, ls => ⟨d, b, by rw [Conjunction.foldl_step hc, Bool.true_and], rfl⟩
  | _, _, @Disjunction.or _ _ _ _ _ b' hd hc, d, ls => by
    obtain ⟨d', r', hrun, hb⟩ := Disjunction.foldl_step hd d ls
    refine ⟨d' || r', b', ?_, by rw [hb, Bool.or_assoc]⟩
    rw [List.foldl_append, hrun, List.foldl_cons]
    simp only [Level.step, Conjunction.foldl_step hc, Bool.true_and]

end

/-- **A row of symbols has at most one value.** -/
theorem Disjunction.unique {row : List (Symbol α)} {b b' : Bool} (h : Disjunction v row b)
    (h' : Disjunction v row b') : b = b' := by
  obtain ⟨d₁, r₁, hrun₁, hb₁⟩ := h.foldl_step false []
  obtain ⟨d₂, r₂, hrun₂, hb₂⟩ := h'.foldl_step false []
  rw [hrun₁] at hrun₂
  cases hrun₂
  simpa using hb₁.symm.trans hb₂

/-! ## The symbols of a formula -/

/-- The atom of a symbol, if it is one. -/
def Symbol.atoms : Symbol α → List α
  | atom a => [a]
  | leftParen | rightParen | connective _ => []

theorem flatMap_atoms_enclose (row : List (Symbol α)) :
    (Symbol.enclose row).flatMap Symbol.atoms = row.flatMap Symbol.atoms := by
  simp [Symbol.enclose, Symbol.atoms]

mutual

/-- The atoms that are written are the leaves, in order. -/
theorem flatMap_atoms_symbols : ∀ (nested : Bool) (f : Formula α), (f.symbols nested).flatMap Symbol.atoms = f.leaves
  | _, leaf a => rfl
  | nested, group [child] _ => by
    rw [symbols, leaves, flatMap_atoms_symbols nested child, leavesAll, leavesAll, List.append_nil]
  | nested, group [] connectives => by
    rw [symbols, apply_ite (List.flatMap Symbol.atoms), flatMap_atoms_enclose, ite_self]
    · rfl
    · exact fun _ h => by cases h
  | nested, group (f :: g :: fs) connectives => by
    rw [symbols, apply_ite (List.flatMap Symbol.atoms), flatMap_atoms_enclose, ite_self,
      flatMap_atoms_rowSymbols (f :: g :: fs) connectives, leaves]
    exact fun _ h => by cases h

theorem flatMap_atoms_rowSymbols : ∀ (fs : List (Formula α)) (ks : List Connective),
    (rowSymbols fs ks).flatMap Symbol.atoms = leavesAll fs
  | [], _ => rfl
  | [f], _ => by rw [rowSymbols, flatMap_atoms_symbols true f, leavesAll, leavesAll, List.append_nil]
  | f :: g :: fs, ks => by
    rw [rowSymbols, leavesAll, ← flatMap_atoms_rowSymbols (g :: fs) ks.tail, ← flatMap_atoms_symbols true f]
    simp [Symbol.atoms]

end

/-- A row of factors behind `xs`, where `xs` turns a factor into a conjunction: the first run of the row goes on with
the conjunction that `xs` starts. Without an `OR` nothing else is in it. -/
theorem disjunction_rowSymbols : ∀ (fs : List (Formula α)) (f : Formula α) (ks : List Connective)
    (xs : List (Symbol α)) (a : Bool), ks.length = fs.length →
    (∀ g ∈ f :: fs, Factor v (g.symbols true) (g.value v)) →
    (∀ ys b, Factor v ys b → Conjunction v (xs ++ ys) (a && b)) →
    Disjunction v (xs ++ rowSymbols (f :: fs) ks) (rowValue (a && f.value v) (ks.zip (fs.map (value v)))) ∧
      (.or ∉ ks →
        Conjunction v (xs ++ rowSymbols (f :: fs) ks) (rowValue (a && f.value v) (ks.zip (fs.map (value v)))))
  | [], f, [], xs, a, _, hf, hx => by
    have hc := hx _ _ (hf f List.mem_cons_self)
    exact ⟨.conjunction hc, fun _ => hc⟩
  | g :: fs, f, k :: ks, xs, a, hl, hf, hx => by
    have hc := hx _ _ (hf f List.mem_cons_self)
    have hl' : ks.length = fs.length := by simpa using hl
    have hf' : ∀ g' ∈ g :: fs, Factor v (g'.symbols true) (g'.value v) :=
      fun g' hg' => hf g' (List.mem_cons_of_mem f hg')
    cases k with
    | and =>
      obtain ⟨hd, hn⟩ := disjunction_rowSymbols fs g ks (xs ++ f.symbols true ++ [.connective .and]) (a && f.value v)
        hl' hf' fun ys b hb => by simpa using Conjunction.and hc hb
      refine ⟨by simpa [rowSymbols, rowValue] using hd, fun hor => ?_⟩
      simpa [rowSymbols, rowValue] using hn fun h => hor (List.mem_cons_of_mem _ h)
    | or =>
      -- the conjunction ends here, and the rest is a disjunction of its own
      obtain ⟨hd, -⟩ := disjunction_rowSymbols fs g ks [] true hl' hf'
        fun ys b hb => by simpa using Conjunction.factor hb
      refine ⟨?_, fun hor => absurd List.mem_cons_self hor⟩
      simpa [rowSymbols, rowValue] using Disjunction.or_left hc hd

/-- **A proper formula is written as a factor inside a group and as a conjunction elsewhere.** -/
theorem Proper.factor_and_conjunction {f : Formula α} (hf : f.Proper) :
    Factor v (f.symbols true) (f.value v) ∧ Conjunction v (f.symbols false) (f.value v) := by
  induction hf with
  | leaf a => exact ⟨.atom a, .factor (.atom a)⟩
  | @group children connectives hl hc ih =>
    match children, hl with
    | [child], hl =>
      obtain rfl : connectives = [] := List.eq_nil_of_length_eq_zero (by simpa using hl.symm)
      simpa [symbols, value, values, rowValue] using ih child List.mem_cons_self
    | f :: g :: fs, hl =>
      obtain ⟨hd, hn⟩ := disjunction_rowSymbols (g :: fs) f connectives [] true (by simpa using hl.symm)
        (fun g' hg' => (ih g' hg').1) fun ys b hb => by simpa using Conjunction.factor hb
      rw [Bool.true_and, ← value_group_cons, List.nil_append] at hd hn
      refine ⟨by simpa [symbols] using Factor.enclose hd, ?_⟩
      by_cases hor : Connective.or ∈ connectives
      · simpa [symbols, hor] using Conjunction.factor (.enclose hd)
      · simpa [symbols, hor] using hn hor

/-- **The text of a proper formula, read as SQL reads it, has the value of the formula.** It is the text of a row of
parentheses, connectives and atoms, one atom for each leaf and in the order of the leaves; the row is a disjunction,
and its one value is that of the formula. -/
theorem text_denotes_value (f : Formula α) (hf : f.Proper) (nested : Bool) (write : α → String) :
    ∃ row : List (Symbol α), f.text write nested = String.join (row.map fun s => (s.map write).text) ∧
      row.flatMap Symbol.atoms = f.leaves ∧
      ∀ (v : α → Bool) (b : Bool), Disjunction v row b ↔ b = f.value v := by
  refine ⟨f.symbols nested, rfl, flatMap_atoms_symbols nested f, fun v b => ?_⟩
  have hd : Disjunction v (f.symbols nested) (f.value v) := by
    obtain ⟨hfactor, hconj⟩ := hf.factor_and_conjunction (v := v)
    cases nested
    · exact .conjunction hconj
    · exact .conjunction (.factor hfactor)
  exact ⟨fun h => h.unique hd, fun h => h ▸ hd⟩

/-- A group with both connectives and a group of one child in it: the parentheses are those of the outer group, and
`AND` binds tighter inside them. -/
theorem text_denotes_value_mixed_group :
    (group [leaf "a", group [leaf "b"] [], leaf "c"] [.or, .and]).Proper ∧
      ∃ row : List (Symbol String), "(a OR b AND c)" = String.join (row.map fun s => (s.map id).text) ∧
        row.flatMap Symbol.atoms = ["a", "b", "c"] ∧
        ∀ (v : String → Bool) (b : Bool), Disjunction v row b ↔ b = (v "a" || (v "b" && v "c")) := by
  have hp : (group [leaf "a", group [leaf "b"] [], leaf "c"] [.or, .and]).Proper := by
    refine .group rfl fun f hf => ?_
    simp only [List.mem_cons, List.not_mem_nil, or_false] at hf
    rcases hf with rfl | rfl | rfl
    · exact .leaf _
    · exact .group rfl fun f hf => List.mem_singleton.1 hf ▸ .leaf "b"
    · exact .leaf _
  exact ⟨hp, text_denotes_value _ hp false id⟩

end TelemetrySearch.Formula
