import Mathlib.Data.List.Chain
import Mathlib.Data.List.TakeWhile
import TelemetrySearch.Proofs.FormulaShape
import TelemetrySearch.Proofs.Lexing
import TelemetrySearch.Proofs.QueryMeaning
import TelemetrySearch.Proofs.Rendering

/-!
# No term is lost, doubled or moved

A query is compiled term by term while it is read, and its formula is put together afterwards. The conditions of the
terms are nevertheless the leaves of the formula, one for each term and in the order of the query
(`Search.map_term_terms`).

* The log of a query that compiles has the events of its terms in between (`Search.events_eq`). A term has one event
  of its own, and before it a warning if the table has no field for its key (`Search.termEvents_cases`). The events of
  the terms come in the order of the leaves (`Search.compiledTerms_eq`).
* Neighbours in the log are a warning and the term it is about, or neither of the two (`Search.isChain_events`).
* `Search.formula?_terms` says what follows for the formula, the log and the arguments.
-/

namespace TelemetrySearch

/-- The event that a term has been compiled. -/
def Event.isCompiledTerm (event : Event) : Bool := event.level == "TRACE" && event.message == "compiled term"

namespace Search

variable {s : Search}

/-! ## Leaves -/

/-- The leaves of what a query compiles to are the conditions of its terms. -/
theorem map_term_terms {q : Query} {e : Formula Condition} (he : q.formula.traverse s.term = .ok e) :
    q.terms.map s.term = e.leaves.map .ok := by
  rw [← q.leaves_formula]
  exact Formula.map_leaves_of_traverse he

/-! ## Events of a term -/

/-- A term that compiles has one event, and a warning in front of it if there is no field for its key. -/
theorem termEvents_cases {t : Term} {c : Condition} (h : s.term t = .ok c) :
    (s.termEvents t = [.compiledTerm t c] ∧ ∀ key r v, t = .keyed key r v → s.table.resolve key ≠ none) ∨
      ∃ key r v, t = .keyed key r v ∧ s.table.resolve key = none ∧
        s.termEvents t = [.unknownKey key, .compiledTerm t c] := by
  cases t with
  | body l =>
    left
    refine ⟨by simp only [termEvents, h], ?_⟩
    intro key r v ht
    cases ht
  | keyed key r v =>
    cases hf : s.table.resolve key with
    | none =>
      right
      exact ⟨key, r, v, rfl, hf, by simp [termEvents, h, hf]⟩
    | some f =>
      left
      refine ⟨by simp [termEvents, h, hf], ?_⟩
      intro key' r' v' ht
      cases ht
      simp [hf]

/-- The events of the log that a term has been compiled. -/
def compiledTerms (s : Search) (query : String) : List Event := (s.events query).filter Event.isCompiledTerm

theorem filter_termEvents {t : Term} {c : Condition} (h : s.term t = .ok c) :
    (s.termEvents t).filter Event.isCompiledTerm = [.compiledTerm t c] := by
  rcases termEvents_cases h with ⟨hevents, -⟩ | ⟨key, r, v, rfl, -, hevents⟩
  · rw [hevents]
    rfl
  · rw [hevents]
    rfl

/-- Each term has its event, in the order of the terms and with the condition of the term. -/
theorem filter_flatMap_termEvents {ts : List Term} {cs : List Condition} (h : ts.map s.term = cs.map .ok) :
    (ts.flatMap s.termEvents).filter Event.isCompiledTerm = List.zipWith .compiledTerm ts cs := by
  induction ts generalizing cs with
  | nil => simp
  | cons t ts ih =>
    obtain ⟨c, cs, rfl, hc, hcs⟩ := List.map_eq_cons_iff.1 h.symm
    rw [List.flatMap_cons, List.filter_append, filter_termEvents hc.symm, ih hcs.symm]
    rfl

/-- The event of a term shows the text of its condition. -/
theorem map_fields_zipWith {ts : List Term} {cs : List Condition} (h : ts.length = cs.length) :
    ((List.zipWith Event.compiledTerm ts cs).map fun event => event.fields.lookup "predicate") =
      cs.map fun c => some c.fragment := by
  induction ts generalizing cs with
  | nil =>
    cases List.eq_nil_of_length_eq_zero h.symm
    rfl
  | cons t ts ih =>
    cases cs with
    | nil => cases h
    | cons c cs =>
      rw [List.zipWith_cons_cons, List.map_cons, ih (by simpa using h)]
      rfl

/-! ## Warnings -/

/-- Of two neighbours in a log the first is the warning about a key exactly if the second is the event of a term with
this key, for which the table has no field. -/
def Announces (s : Search) (first second : Event) : Prop :=
  ∀ key, first = .unknownKey key ↔ s.table.resolve key = none ∧ ∃ r v c, second = .compiledTerm (.keyed key r v) c

/-- Warnings stand before their terms and nowhere else, behind an event that is no warning. -/
theorem isChain_cons_termEvents {e : Formula Condition} {ts : List Term} {cs : List Condition} {event : Event}
    (h : ts.map s.term = cs.map .ok) (hevent : ∀ key, event ≠ .unknownKey key) :
    (event :: (ts.flatMap s.termEvents ++ [.compiledQuery e])).IsChain s.Announces := by
  induction ts generalizing cs event with
  | nil =>
    simp only [List.flatMap_nil, List.nil_append, List.isChain_pair]
    intro key
    simp [hevent key]
  | cons t ts ih =>
    obtain ⟨c, cs, rfl, hc, hcs⟩ := List.map_eq_cons_iff.1 h.symm
    have hterm : ∀ key, Event.compiledTerm t c ≠ .unknownKey key := by simp
    have hrest := ih hcs.symm hterm
    rcases termEvents_cases hc.symm with ⟨hevents, hfield⟩ | ⟨key, r, v, rfl, hnone, hevents⟩
    · rw [List.flatMap_cons, hevents, List.append_assoc, List.singleton_append, List.isChain_cons_cons]
      refine ⟨fun key => ?_, hrest⟩
      simp only [hevent key, false_iff]
      rintro ⟨hnone, r, v, c', heq⟩
      cases heq
      exact hfield key r v rfl hnone
    · rw [List.flatMap_cons, hevents, List.append_assoc, List.cons_append, List.singleton_append,
        List.isChain_cons_cons, List.isChain_cons_cons]
      refine ⟨fun key' => ?_, fun key' => ?_, hrest⟩
      · simp [hevent key']
      · constructor
        · rintro ⟨⟩
          exact ⟨hnone, r, v, c, rfl⟩
        · rintro ⟨-, r', v', c', heq⟩
          cases heq
          rfl

/-! ## The log -/

section Log

variable {query : String} {q : Query} {e : Formula Condition} (hq : tokenize query = .ok q.tokens)
  (hd : q.depth ≤ maxDepth) (he : q.formula.traverse s.term = .ok e)

include hq hd he

/-- The log of a query that compiles. -/
theorem events_eq :
    s.events query = .lexed q.tokens.length :: (q.terms.flatMap s.termEvents ++ [.compiledQuery e]) := by
  have hcompile : s.compileTokens q.tokens = .ok (some e) := by
    rw [s.compileTokens_tokens hd, he]
    rfl
  have hall : ∀ t ∈ q.terms, (s.term t).isOk = true := by
    intro t ht
    rw [← q.leaves_formula] at ht
    obtain ⟨c, hc⟩ := Formula.forall_leaves_of_traverse_eq_ok he t ht
    rw [hc]
    rfl
  have htake : (q.terms.takeWhile fun t => (s.term t).isOk) = q.terms := List.takeWhile_eq_self_iff.2 hall
  simp only [events, hq, hcompile, Query.readQuery_tokens hd, htake]
  rfl

/-- The log has one event for each leaf, in the order of the leaves. -/
theorem compiledTerms_eq : s.compiledTerms query = List.zipWith .compiledTerm q.terms e.leaves := by
  have hlexed : ¬Event.isCompiledTerm (.lexed q.tokens.length) = true := by simp [Event.isCompiledTerm, Event.level]
  rw [compiledTerms, events_eq hq hd he, List.filter_cons_of_neg hlexed, List.filter_append,
    filter_flatMap_termEvents (map_term_terms he)]
  exact List.append_nil _

theorem isChain_events : (s.events query).IsChain s.Announces := by
  rw [events_eq hq hd he]
  exact isChain_cons_termEvents (map_term_terms he) (by simp)

end Log

/-- What stands next to a warning in a log. -/
theorem exists_of_warning {log before after : List Event} {e : Formula Condition} {key : String}
    (hchain : log.IsChain s.Announces) (hlast : log.getLast? = some (.compiledQuery e))
    (hlog : log = before ++ .unknownKey key :: after) :
    s.table.resolve key = none ∧ ∃ r v c rest, after = .compiledTerm (.keyed key r v) c :: rest := by
  subst hlog
  cases after with
  | nil => simp at hlast
  | cons next rest =>
    have hnext := (List.isChain_append_cons_cons.1 hchain).2.1
    obtain ⟨hnone, r, v, c, rfl⟩ := (hnext key).1 rfl
    exact ⟨hnone, r, v, c, rest, rfl⟩

/-- What stands in front of the event of a term without a field. -/
theorem getLast?_of_compiledTerm {log before after : List Event} {n : Nat} {key : String} {r : Relation} {v : Value}
    {c : Condition} (hchain : log.IsChain s.Announces) (hfirst : log.head? = some (.lexed n))
    (hlog : log = before ++ .compiledTerm (.keyed key r v) c :: after) (hnone : s.table.resolve key = none) :
    before.getLast? = some (.unknownKey key) := by
  subst hlog
  rcases List.eq_nil_or_concat before with rfl | ⟨before, previous, rfl⟩
  · simp at hfirst
  · rw [List.concat_eq_append, List.append_assoc, List.singleton_append] at hchain
    have hprevious := (List.isChain_append_cons_cons.1 hchain).2.1
    rw [(hprevious key).2 ⟨hnone, r, v, c, rfl⟩]
    simp

/-- **The terms of a query are the leaves of its formula and the terms in its log.** If a query compiles to `e`, it is
the query of exactly one tree, and

* the leaves of `e` are the conditions of the terms, one for each and in the order of the query;
* the log has one event for each leaf, in the order of the leaves, with the term and with the text of the leaf;
* each warning in the log stands right in front of the event of a term with the key it is about, for which the table has
  no field, and no event of such a term is without its warning;
* the leaves are written in this order, and their arguments follow each other in this order. -/
theorem formula?_terms {query : String} {e : Formula Condition} (h : s.formula? query = .ok (some e)) :
    ∃ q : Query, tokenize query = .ok q.tokens ∧ (∀ q' : Query, tokenize query = .ok q'.tokens → q' = q) ∧
      q.terms.map s.term = e.leaves.map .ok ∧
      s.compiledTerms query = List.zipWith .compiledTerm q.terms e.leaves ∧
      (s.compiledTerms query).length = e.leaves.length ∧
      ((s.compiledTerms query).map fun event => event.fields.lookup "predicate") =
        e.leaves.map (fun c => some c.fragment) ∧
      (∀ before event after, s.events query = before ++ event :: after → event.level = "WARN" →
        ∃ key r v c rest, event = .unknownKey key ∧ s.table.resolve key = none ∧
          after = .compiledTerm (.keyed key r v) c :: rest) ∧
      (∀ before key r v c after, s.events query = before ++ .compiledTerm (.keyed key r v) c :: after →
        s.table.resolve key = none → before.getLast? = some (.unknownKey key)) ∧
      (e.symbols false).flatMap Formula.Symbol.atoms = e.leaves ∧
      e.condition.args = e.leaves.flatMap Condition.args := by
  obtain ⟨q, hq, hd, he⟩ := exists_query_of_formula? h
  have hterms := map_term_terms he
  have hlength : q.terms.length = e.leaves.length := by
    simpa using congrArg List.length hterms
  have hlog := events_eq hq hd he
  have hcompiled := compiledTerms_eq hq hd he
  have hchain := isChain_events hq hd he
  have hfirst : (s.events query).head? = some (.lexed q.tokens.length) := by
    rw [hlog]
    rfl
  have hlast : (s.events query).getLast? = some (.compiledQuery e) := by
    rw [hlog, ← List.cons_append, List.getLast?_concat]
  refine ⟨q, hq, ?_, hterms, hcompiled, ?_, ?_, ?_, ?_, Formula.flatMap_atoms_symbols false e, rfl⟩
  · intro q' hq'
    rw [hq] at hq'
    exact Query.tokens_injective (Except.ok.inj hq').symm
  · rw [hcompiled, List.length_zipWith, hlength, Nat.min_self]
  · rw [hcompiled, map_fields_zipWith hlength]
  · intro before event after hsplit hlevel
    cases event with
    | unknownKey key =>
      obtain ⟨hnone, r, v, c, rest, hafter⟩ := exists_of_warning hchain hlast hsplit
      exact ⟨key, r, v, c, rest, rfl, hnone, hafter⟩
    | _ => simp [Event.level] at hlevel
  · intro before key r v c after hsplit hnone
    exact getLast?_of_compiledTerm hchain hfirst hsplit hnone

/-- A table without attributes has no field for the first key, which leaves a warning and a condition without
arguments. The group is compiled after it and stays behind it. -/
theorem formula?_terms_warning :
    (⟨{ Table.traces with attributes := [] }, .matchNone⟩ : Search).formula? "nope!=x OR (level=a \"b c\")" =
      .ok (some (.group
        [.leaf ⟨"NOT (1 = 0)", []⟩,
          .group [.leaf ⟨"toString(Level) = ?", ["a"]⟩, .leaf ⟨"SpanName ILIKE ?", ["%b c%"]⟩] [.and]] [.or])) ∧
    ((compiledTerms ⟨{ Table.traces with attributes := [] }, .matchNone⟩ "nope!=x OR (level=a \"b c\")").map
        fun event => event.fields.lookup "predicate") =
      [some "NOT (1 = 0)", some "toString(Level) = ?", some "SpanName ILIKE ?"] := by
  let q : Query :=
    ⟨.term (.keyed "nope" .ne (.single (.word "x"))) trivial,
      .cons (some .or)
        (.group (.term (.keyed "level" .eq (.single (.word "a"))) trivial)
          (.cons none (.term (.body (.phrase "b c")) trivial) .nil))
        .nil⟩
  have hq : tokenize "nope!=x OR (level=a \"b c\")" = .ok q.tokens :=
    tokenize_eq_ok_iff.2 (.cons rfl rfl (.cons rfl rfl (.cons rfl rfl (.cons rfl rfl (.cons rfl rfl (.cons rfl rfl
      (.cons rfl rfl (.cons rfl rfl (.cons rfl rfl (.cons rfl rfl (.nil rfl)))))))))))
  have he := formula?_of_tokenize ⟨{ Table.traces with attributes := [] }, .matchNone⟩ hq (by decide)
  obtain ⟨-, -, -, -, -, -, hfields, -⟩ := formula?_terms he
  exact ⟨he, hfields⟩

end Search

end TelemetrySearch
