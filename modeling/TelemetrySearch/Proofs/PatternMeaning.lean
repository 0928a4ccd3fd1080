import Mathlib.Data.List.Forall2
import TelemetrySearch.Proofs.TermCondition

/-!
# What patterns match

`Like` says which texts a pattern of `LIKE` matches, when characters are compared by `same`. A search text is turned into
a pattern character by character.

* A character that has been escaped stands for itself, whatever pattern follows (`like_escapeLikeChar_append`), so an
  escaped text stands for itself as well (`like_escapeLike_append`).
* A search text with wildcards matches its pieces, one behind the other, with anything between them
  (`like_wildcardChars`); a phrase without wildcards matches wherever it occurs (`like_containsPattern`).
* `Search.term_pattern` says the same of the patterns that terms become.
-/

namespace TelemetrySearch

namespace Sql

variable (same : Char → Char → Prop)

/-- Whether `LIKE` lets a pattern match a text: `%` stands for any text and `_` for any character, a backslash protects
the character behind it, and all else stands for itself. -/
def Like : List Char → List Char → Prop
  | [], text => text = []
  | '%' :: pattern, text => ∃ skipped rest, text = skipped ++ rest ∧ Like pattern rest
  | '_' :: pattern, text => ∃ c rest, text = c :: rest ∧ Like pattern rest
  | '\\' :: p :: pattern, text => ∃ c rest, text = c :: rest ∧ same p c ∧ Like pattern rest
  | p :: pattern, text => ∃ c rest, text = c :: rest ∧ same p c ∧ Like pattern rest

/-- The text is made of the pieces in their order, each of them matched literally, and of anything between each two of
them. -/
def Spread : List (List Char) → List Char → Prop
  | [], text => text = []
  | [piece], text => List.Forall₂ same piece text
  | piece :: next :: pieces, text =>
    ∃ found skipped rest, text = found ++ skipped ++ rest ∧ List.Forall₂ same piece found ∧ Spread (next :: pieces) rest

/-- The piece occurs somewhere in the text. -/
def Occurs (piece text : List Char) : Prop :=
  ∃ before found after, text = before ++ found ++ after ∧ List.Forall₂ same piece found

variable {same}

/-! ## Escaped texts -/

theorem like_percent {pattern text : List Char} :
    Like same ('%' :: pattern) text ↔ ∃ skipped rest, text = skipped ++ rest ∧ Like same pattern rest := Iff.rfl

theorem like_escapeLikeChar_append {c : Char} {pattern text : List Char} :
    Like same (escapeLikeChar c ++ pattern) text ↔ ∃ d rest, text = d :: rest ∧ same c d ∧ Like same pattern rest := by
  unfold escapeLikeChar
  split
  · exact Iff.rfl
  · next hc =>
    -- none of the characters with a meaning of their own, so only the last equation of `Like` is left
    rw [List.singleton_append, Like]
    · rintro rfl; exact hc (.inl rfl)
    · rintro rfl; exact hc (.inr (.inl rfl))
    · rintro p pattern' rfl; exact absurd (.inr (.inr rfl)) hc

theorem like_escapeLike_append {cs pattern text : List Char} :
    Like same (cs.flatMap escapeLikeChar ++ pattern) text ↔
      ∃ found rest, text = found ++ rest ∧ List.Forall₂ same cs found ∧ Like same pattern rest := by
  induction cs generalizing text with
  | nil =>
    constructor
    · intro h
      exact ⟨[], text, rfl, .nil, h⟩
    · rintro ⟨found, rest, rfl, hfound, h⟩
      cases hfound
      exact h
  | cons c cs ih =>
    rw [List.flatMap_cons, List.append_assoc, like_escapeLikeChar_append]
    constructor
    · rintro ⟨d, more, rfl, hd, h⟩
      obtain ⟨found, rest, rfl, hfound, hrest⟩ := ih.1 h
      exact ⟨d :: found, rest, rfl, .cons hd hfound, hrest⟩
    · rintro ⟨_, rest, rfl, hfound, hrest⟩
      cases hfound with
      | cons hd hfound => exact ⟨_, _, rfl, hd, ih.2 ⟨_, rest, rfl, hfound, hrest⟩⟩

/-! ## Wildcards -/

/-- One more character at the front of the first piece. -/
theorem spread_modifyHead {c : Char} {pieces : List (List Char)} (hne : pieces ≠ []) {text : List Char} :
    Spread same (pieces.modifyHead (c :: ·)) text ↔ ∃ d rest, text = d :: rest ∧ same c d ∧ Spread same pieces rest := by
  obtain ⟨piece, pieces, rfl⟩ := List.exists_cons_of_ne_nil hne
  cases pieces with
  | nil =>
    constructor
    · intro h
      cases h with
      | cons hd hfound => exact ⟨_, _, rfl, hd, hfound⟩
    · rintro ⟨d, rest, rfl, hd, hrest⟩
      exact .cons hd hrest
  | cons next pieces =>
    constructor
    · rintro ⟨_, skipped, rest, rfl, hfound, hrest⟩
      cases hfound with
      | cons hd hfound => exact ⟨_, _, rfl, hd, _, skipped, rest, rfl, hfound, hrest⟩
    · rintro ⟨d, _, rfl, hd, found, skipped, rest, rfl, hfound, hrest⟩
      exact ⟨d :: found, skipped, rest, rfl, .cons hd hfound, hrest⟩

/-- A wildcard in front of the first piece. -/
theorem spread_cons_nil {pieces : List (List Char)} (hne : pieces ≠ []) {text : List Char} :
    Spread same ([] :: pieces) text ↔ ∃ skipped rest, text = skipped ++ rest ∧ Spread same pieces rest := by
  obtain ⟨piece, pieces, rfl⟩ := List.exists_cons_of_ne_nil hne
  constructor
  · rintro ⟨found, skipped, rest, rfl, hfound, hrest⟩
    cases hfound
    exact ⟨skipped, rest, rfl, hrest⟩
  · rintro ⟨skipped, rest, rfl, hrest⟩
    exact ⟨[], skipped, rest, rfl, .nil, hrest⟩

/-- **A search text matches its pieces with anything between them.** By induction on the text: an escaped character
belongs to the first piece, a wildcard ends it. -/
theorem like_wildcardChars {cs text : List Char} :
    Like same (cs.flatMap wildcardChar) text ↔ Spread same (cs.splitOn '*') text := by
  induction cs generalizing text with
  | nil =>
    rw [List.splitOn_nil]
    exact List.forall₂_nil_left_iff.symm
  | cons c cs ih =>
    have hne : cs.splitOn '*' ≠ [] := List.splitOn_ne_nil '*' cs
    rw [List.flatMap_cons, List.splitOn_cons_eq_if_modifyHead, wildcardChar]
    by_cases hc : c = '*'
    · rw [if_pos hc, if_pos (beq_iff_eq.2 hc), List.singleton_append, like_percent, spread_cons_nil hne]
      simp only [ih]
    · rw [if_neg hc, if_neg (fun h => hc (beq_iff_eq.1 h)), like_escapeLikeChar_append, spread_modifyHead hne]
      simp only [ih]

/-- **A phrase matches wherever it occurs.** -/
theorem like_containsPattern {piece : String} {text : List Char} :
    Like same (containsPattern piece).toList text ↔ Occurs same piece.toList text := by
  have hpattern : (containsPattern piece).toList = '%' :: (piece.toList.flatMap escapeLikeChar ++ ['%']) := by
    simp [containsPattern, escapeLike]
  rw [hpattern, like_percent]
  constructor
  · rintro ⟨before, more, rfl, h⟩
    obtain ⟨found, after, rfl, hfound, -⟩ := like_escapeLike_append.1 h
    exact ⟨before, found, after, by rw [List.append_assoc], hfound⟩
  · rintro ⟨before, found, after, rfl, hfound⟩
    have hany : Like same ['%'] after := ⟨after, [], by rw [List.append_nil], rfl⟩
    refine ⟨before, found ++ after, by rw [List.append_assoc], ?_⟩
    exact like_escapeLike_append.2 ⟨found, after, rfl, hfound, hany⟩

end Sql

open Sql

/-! ## The patterns of terms -/

/-- The pattern of a literal: with wildcards its pieces in order, without them the literal anywhere. -/
def Literal.pattern (l : Literal) : String :=
  if l.hasWildcard then wildcardPattern l.text else containsPattern l.text

theorem Literal.hasWildcard_iff {l : Literal} : l.hasWildcard = true ↔ '*' ∈ l.text.toList := by
  rw [hasWildcard, List.contains_iff_mem]

theorem Literal.pattern_of_hasWildcard {l : Literal} (h : l.hasWildcard = true) :
    l.pattern = wildcardPattern l.text := if_pos h

theorem Relation.isOrdering_base (r : Relation) : r.base.isOrdering = r.isOrdering := by
  cases r <;> rfl

namespace Field

variable {f : Field} {r : Relation} {l : Literal}

/-- The test of a field against the pattern of a literal. -/
def patternTest (f : Field) (l : Literal) : Condition :=
  ⟨f.operand false true ++ " ILIKE ?", f.args ++ [l.pattern]⟩

theorem compare_of_hasWildcard (hl : l.hasWildcard = true) (hr : r.isOrdering = false) :
    f.compare r l = .ok (f.patternTest l) := by
  rw [compare, if_pos hl, hr, if_neg Bool.false_ne_true, patternTest, Literal.pattern_of_hasWildcard hl]

/-- A literal with a wildcard is tested by its pattern in a list too, at its place among the tests of the list. -/
theorem exists_of_compareValue_append {before after : List Literal} {c : Condition} (hl : l.hasWildcard = true)
    (hr : r.isOrdering = false) (h : f.compareValue r (.list (before ++ l :: after)) = .ok c) :
    ∃ cs ds, cs.length = before.length ∧ ds.length = after.length ∧ c = .anyOf (cs ++ f.patternTest l :: ds) := by
  obtain ⟨all, hall, rfl⟩ := exists_of_compareValue_list h
  rw [List.map_append, List.map_cons, compare_of_hasWildcard hl hr] at hall
  obtain ⟨cs, more, rfl, hcs, hmore⟩ := List.map_eq_append_iff.1 hall.symm
  obtain ⟨d, ds, rfl, hd, hds⟩ := List.map_eq_cons_iff.1 hmore
  cases hd
  refine ⟨cs, ds, ?_, ?_, rfl⟩
  · simpa using congrArg List.length hcs
  · simpa using congrArg List.length hds

end Field

namespace Search

variable {s : Search} {l : Literal}

theorem term_body_of_pattern (h : l.hasWildcard = true ∨ l.quoted = true) :
    s.term (.body l) = .ok ⟨s.table.bodyColumn ++ " ILIKE ?", [l.pattern]⟩ := by
  rw [term, Field.search, Literal.pattern]
  by_cases hw : l.hasWildcard = true
  · rw [if_pos hw, if_pos hw]
    rfl
  · rw [if_neg hw, if_neg hw, if_pos (h.resolve_left hw)]
    rfl

/-- **Patterns mean what has been typed.** Let `LIKE` compare characters by any relation.

* A literal with a wildcard, quoted or not, becomes a pattern that matches the pieces between its wildcards, in order
  and with anything in the place of each wildcard, from the beginning of a text to its end. The pattern is what the body
  is tested by, and what a field is tested by under `=` and `!=`, alone and in a list.
* A phrase without a wildcard becomes a pattern that matches the texts in which the phrase occurs. The pattern is what
  the body is tested by. -/
theorem term_pattern (same : Char → Char → Prop) (s : Search) (l : Literal) :
    ('*' ∈ l.text.toList →
      (∀ subject : String, Like same l.pattern.toList subject.toList ↔
        Spread same (l.text.toList.splitOn '*') subject.toList) ∧
      s.term (.body l) = .ok ⟨s.table.bodyColumn ++ " ILIKE ?", [l.pattern]⟩ ∧
      ∀ key f r, s.table.resolve key = some f → r.isOrdering = false →
        s.term (.keyed key r (.single l)) = .ok (r.finish (f.patternTest l)) ∧
        ∀ before after c, s.term (.keyed key r (.list (before ++ l :: after))) = .ok c →
          ∃ cs ds, cs.length = before.length ∧ ds.length = after.length ∧
            c = r.finish (.anyOf (cs ++ f.patternTest l :: ds))) ∧
    ('*' ∉ l.text.toList → l.quoted = true →
      (∀ subject : String, Like same l.pattern.toList subject.toList ↔ Occurs same l.text.toList subject.toList) ∧
      s.term (.body l) = .ok ⟨s.table.bodyColumn ++ " ILIKE ?", [l.pattern]⟩) := by
  rw [← Literal.hasWildcard_iff]
  constructor
  · intro hl
    refine ⟨?_, term_body_of_pattern (.inl hl), ?_⟩
    · intro subject
      rw [Literal.pattern_of_hasWildcard hl, wildcardPattern, String.toList_ofList]
      exact like_wildcardChars
    · intro key f r hf hr
      have hbase : r.base.isOrdering = false := r.isOrdering_base.trans hr
      constructor
      · simp only [term, hf, Field.compareValue, Field.compare_of_hasWildcard hl hbase]
      · intro before after c hc
        rcases cases_of_term_keyed hc with ⟨f', d, hf', hd, rfl⟩ | ⟨hnone, -⟩
        · rw [hf] at hf'
          cases hf'
          obtain ⟨cs, ds, hcs, hds, rfl⟩ := Field.exists_of_compareValue_append hl hbase hd
          exact ⟨cs, ds, hcs, hds, rfl⟩
        · rw [hf] at hnone
          cases hnone
  · intro hl hq
    refine ⟨?_, term_body_of_pattern (.inr hq)⟩
    intro subject
    rw [Literal.pattern, if_neg hl]
    exact like_containsPattern

/-- A backslash in front of the wildcard stays a backslash and does not protect the `%` that the wildcard becomes. In a
phrase the `%` that has been typed is no wildcard. Case does not count here. -/
theorem term_pattern_backslash :
    let s : Search := ⟨.traces, .reject⟩
    let same : Char → Char → Prop := fun c d => c.toLower = d.toLower
    let l : Literal := .word "a\\*%"
    s.term (.body l) = .ok ⟨"SpanName ILIKE ?", ["a\\\\%\\%"]⟩ ∧
      s.term (.keyed "http.path" .ne (.single l)) =
        .ok ⟨"NOT (HttpAttributes[?] ILIKE ?)", ["http.path", "a\\\\%\\%"]⟩ ∧
      Like same l.pattern.toList "A\\b*%".toList ∧ ¬Like same l.pattern.toList "A%".toList ∧
      Like same (Literal.phrase "5%").pattern.toList "is 5% up".toList ∧
      ¬Like same (Literal.phrase "5%").pattern.toList "5".toList := by
  intro s same l
  obtain ⟨hmatch, hbody, hkeyed⟩ := (term_pattern same s l).1 (by decide)
  obtain ⟨hphrase, -⟩ := (term_pattern same s (.phrase "5%")).2 (by decide) rfl
  have hpattern : l.pattern = "a\\\\%\\%" := by decide +kernel
  have hpieces : l.text.toList.splitOn '*' = [['a', '\\'], ['%']] := by decide +kernel
  have hcell := (hkeyed "http.path" (.cell "HttpAttributes" "http.path") .ne (by decide +kernel) rfl).1
  rw [hpattern] at hbody
  rw [Field.patternTest, hpattern] at hcell
  refine ⟨hbody, hcell, ?_, ?_, ?_, ?_⟩
  · rw [hmatch, hpieces]
    exact ⟨['A', '\\'], ['b', '*'], ['%'], rfl, .cons rfl (.cons rfl .nil), .cons rfl .nil⟩
  · rw [hmatch, hpieces]
    rintro ⟨found, skipped, rest, htext, hfound, hrest⟩
    have hlength : 2 + skipped.length + 1 = 2 := by
      have h := congrArg List.length htext
      rw [List.length_append, List.length_append, ← hfound.length_eq, ← List.Forall₂.length_eq hrest] at h
      exact h.symm
    omega
  · rw [hphrase]
    exact ⟨"is ".toList, "5%".toList, " up".toList, rfl, .cons rfl (.cons rfl .nil)⟩
  · rw [hphrase]
    rintro ⟨before, found, after, htext, hfound⟩
    have hlength : before.length + 2 + after.length = 1 := by
      have h := congrArg List.length htext
      rw [List.length_append, List.length_append, ← hfound.length_eq] at h
      exact h.symm
    omega

end Search

end TelemetrySearch
