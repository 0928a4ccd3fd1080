import Mathlib.Data.List.TakeWhile
import TelemetrySearch.Proofs.NormalForm
import TelemetrySearch.Proofs.Rendering

/-!
# Several queries for one statement

Queries are assigned to a statement one after another; a query that does not compile leaves the statement as it was.

* A query compiles to nothing exactly if it is blank (`Search.formula?_eq_ok_none_iff`), so an assignment adds one
  condition for a query that compiles and is not blank, and none for any other (`Search.accepts_iff`,
  `Statement.assigned_eq`).
* A run adds the conditions of these queries in order (`Statement.assignedAll_eq`).
* Formulas written side by side with `AND` between them are a conjunction, because each of them is one
  (`Formula.conjunction_conjoined`). `Statement.assignedAll_denotes` says what this means for the text of the statement.
-/

namespace TelemetrySearch

/-! ## Blank queries -/

theorem tokenize_eq_ok_nil_iff {query : String} : tokenize query = .ok [] ↔ isBlankText query = true := by
  rw [tokenize_eq_ok_iff, isBlankText, List.all_eq_true, ← List.dropWhile_eq_nil_iff]
  constructor
  · intro h
    cases h with
    | nil hs => exact hs
  · exact .nil

namespace Search

variable {s : Search} {query : String}

/-- A query without terms is blank. -/
theorem formula?_eq_ok_none_iff : s.formula? query = .ok none ↔ isBlankText query = true := by
  rw [← tokenize_eq_ok_nil_iff]
  constructor
  · intro h
    rw [formula?] at h
    cases ht : tokenize query with
    | error fault => rw [ht] at h; cases h
    | ok tokens =>
      rw [ht] at h
      by_cases hne : tokens = []
      · rw [hne]
      · obtain ⟨q, rfl, hd⟩ := exists_query_of_compileTokens hne h
        simp only [s.compileTokens_tokens hd] at h
        cases hf : q.formula.traverse s.term <;> rw [hf] at h <;> cases h
  · intro h
    rw [formula?, h]
    rfl

/-- The query compiles, and it has a character that is not blank. -/
def Accepts (s : Search) (query : String) : Prop :=
  (∃ result, s.formula? query = .ok result) ∧ ∃ c ∈ query.toList, isBlank c = false

/-- A query is accepted exactly if it compiles to a formula. -/
theorem accepts_iff : s.Accepts query ↔ ∃ e, s.formula? query = .ok (some e) := by
  have hblank : isBlankText query = true ↔ ¬∃ c ∈ query.toList, isBlank c = false := by
    simp [isBlankText]
  constructor
  · rintro ⟨⟨result, hresult⟩, hchar⟩
    cases result with
    | some e => exact ⟨e, hresult⟩
    | none => exact absurd hchar (hblank.1 (formula?_eq_ok_none_iff.1 hresult))
  · rintro ⟨e, he⟩
    refine ⟨⟨_, he⟩, ?_⟩
    by_cases hb : isBlankText query = true
    · rw [formula?_eq_ok_none_iff.2 hb] at he
      cases he
    · exact Decidable.not_not.1 fun hchar => hb (hblank.2 hchar)

end Search

/-! ## Formulas with `AND` between them -/

namespace Formula

variable {α : Type} {v : α → Bool}

/-- Two conjunctions with `AND` between them are one. -/
theorem Conjunction.append {row : List (Symbol α)} {b : Bool} (h : Conjunction v row b) :
    ∀ {row' : List (Symbol α)} {b' : Bool}, Conjunction v row' b' →
      Conjunction v (row ++ .connective .and :: row') (b && b')
  | _, _, .factor hf => .and h hf
  | _, _, .and hc hf => by
    have := Conjunction.and (Conjunction.append h hc) hf
    simpa [Bool.and_assoc] using this

/-- The symbols of formulas with `AND` between them. -/
def conjoined : List (Formula α) → List (Symbol α)
  | [] => []
  | [f] => f.symbols false
  | f :: g :: fs => f.symbols false ++ .connective .and :: conjoined (g :: fs)

/-- The text of conjoined formulas is made of their texts. -/
theorem join_text_conjoined (write : α → String) : ∀ fs : List (Formula α),
    String.join ((conjoined fs).map fun x => (x.map write).text) =
      String.intercalate " AND " (fs.map (text write false))
  | [] => by simp [conjoined]
  | [f] => by simp [conjoined, text]
  | f :: g :: fs => by
    have ih := join_text_conjoined write (g :: fs)
    rw [conjoined, List.map_append, List.map_cons, String.join_append, String.join_cons, ih]
    simp [String.intercalate_cons_cons, text, Symbol.map, Symbol.text, Connective.keyword, String.append_assoc]

theorem flatMap_atoms_conjoined : ∀ fs : List (Formula α), (conjoined fs).flatMap Symbol.atoms = fs.flatMap leaves
  | [] => rfl
  | [f] => by simp [conjoined, flatMap_atoms_symbols]
  | f :: g :: fs => by
    have ih := flatMap_atoms_conjoined (g :: fs)
    rw [conjoined, List.flatMap_append, List.flatMap_cons, ih, flatMap_atoms_symbols]
    simp [Symbol.atoms]

/-- **Proper formulas with `AND` between them are a conjunction of their values.** -/
theorem conjunction_conjoined (v : α → Bool) : ∀ {fs : List (Formula α)}, fs ≠ [] → (∀ f ∈ fs, f.Proper) →
    Conjunction v (conjoined fs) (fs.all (value v))
  | [f], _, hp => by
    have hf := (hp f List.mem_cons_self).factor_and_conjunction (v := v)
    simpa [conjoined] using hf.2
  | f :: g :: fs, _, hp => by
    obtain ⟨hf, hfs⟩ := List.forall_mem_cons.1 hp
    have hfirst := (hf.factor_and_conjunction (v := v)).2
    have hmore := conjunction_conjoined v (List.cons_ne_nil g fs) hfs
    rw [conjoined, List.all_cons]
    exact hfirst.append hmore

theorem disjunction_conjoined_iff {fs : List (Formula α)} (hne : fs ≠ []) (hp : ∀ f ∈ fs, f.Proper) (v : α → Bool)
    (b : Bool) : Disjunction v (conjoined fs) b ↔ b = fs.all (value v) := by
  have hvalue := Disjunction.conjunction (conjunction_conjoined v hne hp)
  constructor
  · intro h
    exact h.unique hvalue
  · rintro rfl
    exact hvalue

end Formula

/-! ## Runs of assignments -/

namespace Search

variable {s : Search} {query : String}

/-- The formula of a query that compiles to one. -/
def compiled? (s : Search) (query : String) : Option (Formula Condition) := (s.formula? query).toOption.join

theorem compiled?_eq_some_iff {e : Formula Condition} :
    s.compiled? query = some e ↔ s.formula? query = .ok (some e) := by
  rw [compiled?]
  cases s.formula? query <;> simp [Except.toOption]

theorem compiled?_eq_none_iff : s.compiled? query = none ↔ ¬s.Accepts query := by
  rw [accepts_iff, Option.eq_none_iff_forall_ne_some]
  simp [compiled?_eq_some_iff]

/-- The query is true, if the conditions have the truth values `v`: the query of its tokens has the value true. -/
def Holds (s : Search) (v : Condition → Bool) (query : String) : Prop :=
  ∃ q : Query, tokenize query = .ok q.tokens ∧ q.value (s.termValue v) = true

/-- A query that compiles is true exactly if its formula is. -/
theorem holds_iff {e : Formula Condition} (h : s.formula? query = .ok (some e)) (v : Condition → Bool) :
    s.Holds v query ↔ e.value v = true := by
  obtain ⟨q, hq, -, he⟩ := exists_query_of_formula? h
  have hvalue : e.value v = q.value (s.termValue v) := by
    rw [← Query.value_formula]
    exact Formula.value_traverse he fun t _ c hc => by rw [termValue, hc]
  rw [hvalue]
  constructor
  · rintro ⟨q', hq', hv⟩
    rw [hq] at hq'
    rw [Query.tokens_injective (Except.ok.inj hq')]
    exact hv
  · intro hv
    exact ⟨q, hq, hv⟩

theorem proper_of_formula? {e : Formula Condition} (h : s.formula? query = .ok (some e)) : e.Proper := by
  obtain ⟨q, -, -, he⟩ := exists_query_of_formula? h
  exact ((Formula.normal_traverse_iff he).2 q.normal_formula).proper

theorem condition?_eq (s : Search) (query : String) :
    (s.condition? query).toOption.join = (s.compiled? query).map Formula.condition := by
  rw [condition?, compiled?]
  cases s.formula? query with
  | error e => rfl
  | ok result => cases result <;> rfl

end Search

namespace Statement

variable {s : Search}

/-- The statement behind the assignment of a query; a query that does not compile leaves it as it was. -/
def assigned (s : Search) (statement : Statement) (query : String) : Statement :=
  (statement.assign s query).toOption.getD statement

/-- The statement behind the assignment of several queries, one after another. -/
def assignedAll (s : Search) (statement : Statement) (queries : List String) : Statement :=
  queries.foldl (assigned s) statement

/-- **One assignment** adds the condition of a query that compiles to one, and nothing else. -/
theorem assigned_eq (s : Search) (statement : Statement) (query : String) :
    assigned s statement query =
      { statement with
        conditions := statement.conditions ++ ((s.compiled? query).map Formula.condition).toList } := by
  rw [← s.condition?_eq, assigned, assign, Search.assign]
  cases s.condition? query with
  | error e => simp [Except.map, Except.toOption]
  | ok c => simp [Except.map, Except.toOption]

/-- **A run of assignments** adds the conditions of the queries that compile to one, in order. -/
theorem assignedAll_eq (s : Search) (statement : Statement) (queries : List String) :
    assignedAll s statement queries =
      { statement with
        conditions := statement.conditions ++ (queries.filterMap s.compiled?).map Formula.condition } := by
  induction queries generalizing statement with
  | nil => simp [assignedAll]
  | cons query queries ih =>
    have hcons : assignedAll s statement (query :: queries) = assignedAll s (assigned s statement query) queries := rfl
    rw [hcons, ih, assigned_eq, List.filterMap_cons]
    cases s.compiled? query <;> simp

/-- An assignment adds a condition exactly for an accepted query. -/
theorem exists_assigned_eq_add_iff (statement : Statement) (query : String) :
    (∃ c, assigned s statement query = statement.add c) ↔ s.Accepts query := by
  rw [assigned_eq]
  cases hc : s.compiled? query with
  | none =>
    have hnot := Search.compiled?_eq_none_iff.1 hc
    simp [hnot, add]
  | some e =>
    have haccepts := Search.accepts_iff.2 ⟨e, Search.compiled?_eq_some_iff.1 hc⟩
    simp [haccepts, add]

theorem assigned_of_not_accepts (statement : Statement) {query : String} (h : ¬s.Accepts query) :
    assigned s statement query = statement := by
  rw [assigned_eq, Search.compiled?_eq_none_iff.2 h]
  simp

/-! ## What the `WHERE` clause says -/

section Formulas

variable {queries : List String}

theorem filterMap_compiled?_eq_nil_iff :
    queries.filterMap s.compiled? = [] ↔ ∀ query ∈ queries, ¬s.Accepts query := by
  rw [List.filterMap_eq_nil_iff]
  exact forall₂_congr fun query _ => Search.compiled?_eq_none_iff

theorem proper_of_mem_filterMap {e : Formula Condition} (h : e ∈ queries.filterMap s.compiled?) : e.Proper := by
  obtain ⟨query, -, hcompiled⟩ := List.mem_filterMap.1 h
  exact Search.proper_of_formula? (Search.compiled?_eq_some_iff.1 hcompiled)

/-- All the accepted queries hold exactly if their formulas are true. -/
theorem all_value_eq_true_iff (v : Condition → Bool) :
    (queries.filterMap s.compiled?).all (Formula.value v) = true ↔
      ∀ query ∈ queries, s.Accepts query → s.Holds v query := by
  rw [List.all_eq_true]
  constructor
  · intro h query hquery haccepts
    obtain ⟨e, he⟩ := Search.accepts_iff.1 haccepts
    rw [Search.holds_iff he]
    exact h e (List.mem_filterMap.2 ⟨query, hquery, Search.compiled?_eq_some_iff.2 he⟩)
  · intro h e hmem
    obtain ⟨query, hquery, hcompiled⟩ := List.mem_filterMap.1 hmem
    have he := Search.compiled?_eq_some_iff.1 hcompiled
    rw [← Search.holds_iff he]
    exact h query hquery (Search.accepts_iff.2 ⟨e, he⟩)

end Formulas

/-- The parts of the text of a statement. -/
theorem text_eq (statement : Statement) :
    statement.text =
      "SELECT " ++ (if statement.columns = [] then "*" else String.intercalate ", " statement.columns) ++ " FROM " ++
        statement.source ++ statement.whereClause ++ statement.limit.elim "" fun n => " LIMIT " ++ toString n := by
  obtain ⟨columns, source, conditions, limit⟩ := statement
  cases columns <;> cases limit <;> rfl

/-- The text of conditions that are formulas, with `AND` between them. -/
theorem whereClause_conditions (columns : List String) (source : String) (limit : Option Nat)
    {es : List (Formula Condition)} (hes : es ≠ []) :
    whereClause ⟨columns, source, es.map Formula.condition, limit⟩ =
      " WHERE " ++ String.join ((Formula.conjoined es).map fun x => (x.map Condition.fragment).text) := by
  have hempty : (es.map Formula.condition).isEmpty = false := by simpa using hes
  rw [Formula.join_text_conjoined, whereClause, hempty, List.map_map]
  rfl

/-- **What a run of assignments leaves in a statement.** An assignment adds exactly one condition if the query compiles
and is not blank, and otherwise leaves the statement as it was. A run changes nothing but the conditions, and behind it

* there is nothing between the source and the limit of the statement if no query has been accepted;
* else there is a `WHERE` clause: the text of a row of parentheses, connectives and atoms, and the atoms are the leaves
  of the accepted queries. Read as SQL reads it, the row is true exactly if all the accepted queries are;
* the arguments are those of the accepted queries, in the order of the assignments. -/
theorem assignedAll_denotes (s : Search) (columns : List String) (source : String) (limit : Option Nat)
    (queries : List String) :
    (∀ (statement : Statement) (query : String),
      ((∃ c, assigned s statement query = statement.add c) ↔ s.Accepts query) ∧
      (¬s.Accepts query → assigned s statement query = statement)) ∧
    let run := assignedAll s ⟨columns, source, [], limit⟩ queries
    let front := "SELECT " ++ (if columns = [] then "*" else String.intercalate ", " columns) ++ " FROM " ++ source
    let back := limit.elim "" fun n => " LIMIT " ++ toString n
    run.columns = columns ∧ run.source = source ∧ run.limit = limit ∧
      ((∀ query ∈ queries, ¬s.Accepts query) → run.text = front ++ back) ∧
      ((∃ query ∈ queries, s.Accepts query) →
        ∃ row : List (Formula.Symbol Condition),
          run.text = front ++ " WHERE " ++ String.join (row.map fun x => (x.map Condition.fragment).text) ++ back ∧
          row.flatMap Formula.Symbol.atoms = (queries.filterMap s.compiled?).flatMap Formula.leaves ∧
          ∀ v b, Formula.Disjunction v row b ↔ (b = true ↔ ∀ query ∈ queries, s.Accepts query → s.Holds v query)) ∧
      run.args = (queries.filterMap fun query => (s.condition? query).toOption.join).flatMap Condition.args := by
  refine ⟨fun statement query => ⟨exists_assigned_eq_add_iff statement query, assigned_of_not_accepts statement⟩, ?_⟩
  intro run front back
  have hrun : run = ⟨columns, source, (queries.filterMap s.compiled?).map Formula.condition, limit⟩ :=
    assignedAll_eq s ⟨columns, source, [], limit⟩ queries
  have htext : run.text = front ++ run.whereClause ++ back := by
    rw [text_eq, hrun]
  refine ⟨by rw [hrun], by rw [hrun], by rw [hrun], ?_, ?_, ?_⟩
  · intro hnone
    have hclause : run.whereClause = "" := by
      rw [hrun, filterMap_compiled?_eq_nil_iff.2 hnone]
      rfl
    rw [htext, hclause, String.append_empty]
  · rintro ⟨query, hquery, haccepts⟩
    have hes : queries.filterMap s.compiled? ≠ [] := by
      intro h
      exact filterMap_compiled?_eq_nil_iff.1 h query hquery haccepts
    refine ⟨Formula.conjoined (queries.filterMap s.compiled?), ?_, Formula.flatMap_atoms_conjoined _, fun v b => ?_⟩
    · rw [htext, hrun, whereClause_conditions columns source limit hes, ← String.append_assoc]
    · rw [Formula.disjunction_conjoined_iff hes (fun e => proper_of_mem_filterMap), ← all_value_eq_true_iff,
        Bool.eq_iff_iff]
  · have hconditions : (queries.filterMap s.compiled?).map Formula.condition =
        queries.filterMap fun query => (s.condition? query).toOption.join := by
      rw [List.map_filterMap]
      simp only [s.condition?_eq]
    rw [hrun, args, hconditions]

/-- Of four queries one is blank and one does not compile. The `OR` of the first one stays in its parentheses. The two
others alone leave a statement without a `WHERE` clause. -/
theorem assignedAll_denotes_or :
    let s : Search := ⟨.traces, .reject⟩
    let queries := ["level=a OR level=b", " ", "duration>fast", "c"]
    let run := assignedAll s ⟨["TraceId", "SpanName"], "spans", [], some 10⟩ queries
    run.text =
        "SELECT TraceId, SpanName FROM spans WHERE (toString(Level) = ? OR toString(Level) = ?) AND " ++
          "hasTokenCaseInsensitive(SpanName, ?) LIMIT 10" ∧
      run.args = ["a", "b", "c"] ∧
      (∃ row : List (Formula.Symbol Condition),
        run.text = "SELECT TraceId, SpanName FROM spans" ++ " WHERE " ++
          String.join (row.map fun x => (x.map Condition.fragment).text) ++ " LIMIT 10" ∧
        ∀ v b, Formula.Disjunction v row b ↔ (b = true ↔ ∀ query ∈ queries, s.Accepts query → s.Holds v query)) ∧
      (assignedAll s ⟨[], "t", [], none⟩ [" ", "duration>fast"]).text = "SELECT * FROM t" := by
  intro s queries run
  let q : Query :=
    ⟨.term (.keyed "level" .eq (.single (.word "a"))) trivial,
      .cons (some .or) (.term (.keyed "level" .eq (.single (.word "b"))) trivial) .nil⟩
  have hor : s.formula? "level=a OR level=b" = (q.formula.traverse s.term).map some := by
    refine s.formula?_of_tokenize (tokenize_eq_ok_iff.2 ?_) (by decide)
    exact .cons rfl rfl (.cons rfl rfl (.cons rfl rfl (.cons rfl rfl (.cons rfl rfl (.cons rfl rfl (.cons rfl rfl
      (.nil rfl)))))))
  have hblank : s.formula? " " = .ok none := Search.formula?_eq_ok_none_iff.2 (by decide)
  let q' : Query := ⟨.term (.keyed "duration" .gt (.single (.word "fast"))) trivial, .nil⟩
  have hfast : s.formula? "duration>fast" = (q'.formula.traverse s.term).map some := by
    refine s.formula?_of_tokenize (tokenize_eq_ok_iff.2 ?_) (by decide)
    exact .cons rfl rfl (.cons rfl rfl (.cons rfl rfl (.nil rfl)))
  let q'' : Query := ⟨.term (.body (.word "c")) trivial, .nil⟩
  have hword : s.formula? "c" = (q''.formula.traverse s.term).map some := by
    refine s.formula?_of_tokenize (tokenize_eq_ok_iff.2 ?_) (by decide)
    exact .cons rfl rfl (.nil rfl)
  have hrun : run =
      ⟨["TraceId", "SpanName"], "spans",
        [⟨"(toString(Level) = ? OR toString(Level) = ?)", ["a", "b"]⟩,
          ⟨"hasTokenCaseInsensitive(SpanName, ?)", ["c"]⟩], some 10⟩ := by
    simp only [run, assignedAll_eq, queries, List.filterMap_cons, List.filterMap_nil, Search.compiled?, hor, hblank,
      hfast, hword]
    rfl
  have hnone : ∀ query ∈ [" ", "duration>fast"], s.compiled? query = none := by
    simp only [List.forall_mem_cons, Search.compiled?, hblank, hfast]
    exact ⟨rfl, rfl, List.forall_mem_nil _⟩
  obtain ⟨-, -, -, -, -, hrow, -⟩ := assignedAll_denotes s ["TraceId", "SpanName"] "spans" (some 10) queries
  obtain ⟨row, htext, -, hvalue⟩ := hrow ⟨_, List.mem_cons_self, Search.accepts_iff.2 ⟨_, hor⟩⟩
  obtain ⟨-, -, -, -, hempty, -, -⟩ := assignedAll_denotes s [] "t" none [" ", "duration>fast"]
  refine ⟨?_, ?_, ⟨row, htext, hvalue⟩, hempty fun query hquery => Search.compiled?_eq_none_iff.1 (hnone query hquery)⟩
  · rw [hrun]
    rfl
  · rw [hrun]
    rfl

end Statement

end TelemetrySearch
