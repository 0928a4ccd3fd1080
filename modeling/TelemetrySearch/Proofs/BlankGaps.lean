import TelemetrySearch.Proofs.LexicalFaults

/-!
# Blanks only separate

A gap between two parts of a text may be made of any blanks, as long as it is not inside a phrase. The scan meets the
gap in three ways. It skips it in front of a token, it ends a word or a value there, and it looks over it to see whether
a relation makes a key of a keyword.

* `SameBehind ds ds'`: two texts that differ in the blanks at their head only, of which neither goes on with what stands
  before it. A token in front of the one is the same token in front of the other (`Reads.of_sameBehind`), for no token
  reaches beyond an even number of quotes.
* So the tokens of the whole text are the same (`Lexes.of_sameBehind`). `tokenize_gap` says it of the two texts with a
  gap between them.
-/

namespace TelemetrySearch

/-! ## What stands behind a text -/

/-- The two texts differ in the blanks at their head only, and neither goes on with a word, a value or a relation that
stands before it. -/
structure SameBehind (ds ds' : List Char) : Prop where
  head : ∀ d ∈ ds.head?, isValueChar d = false
  head' : ∀ d ∈ ds'.head?, isValueChar d = false
  skipBlanks_eq : skipBlanks ds = skipBlanks ds'

theorem skipBlanks_eq_nil_of_forall {gap : List Char} (h : ∀ c ∈ gap, isBlank c = true) : skipBlanks gap = [] :=
  List.dropWhile_eq_nil_iff.2 h

/-- A gap ends what stands before it. -/
theorem head?_gap {gap behind : List Char} (hgap : ∀ c ∈ gap, isBlank c = true) (h : gap ≠ [] ∨ behind = []) :
    ∀ d ∈ (gap ++ behind).head?, isValueChar d = false := by
  intro d hd
  cases gap with
  | nil =>
    rcases h with h | rfl
    · exact absurd rfl h
    · cases hd
  | cons c gap =>
    cases hd
    rw [isValueChar, hgap d List.mem_cons_self]
    rfl

theorem SameBehind.of_gaps {gap gap' behind : List Char} (hgap : ∀ c ∈ gap, isBlank c = true)
    (hgap' : ∀ c ∈ gap', isBlank c = true) (h : gap ≠ [] ∧ gap' ≠ [] ∨ behind = []) :
    SameBehind (gap ++ behind) (gap' ++ behind) where
  head := head?_gap hgap (h.imp_left And.left)
  head' := head?_gap hgap' (h.imp_left And.right)
  skipBlanks_eq := by
    rw [skipBlanks_append_of_blank (skipBlanks_eq_nil_of_forall hgap),
      skipBlanks_append_of_blank (skipBlanks_eq_nil_of_forall hgap')]

/-! ## One token -/

/-- Blanks are no quotes. -/
theorem count_quote_skipBlanks (cs : List Char) : (skipBlanks cs).count '"' = cs.count '"' := by
  have hcut : cs.takeWhile isBlank ++ skipBlanks cs = cs := List.takeWhile_append_dropWhile
  have hnone : (cs.takeWhile isBlank).count '"' = 0 :=
    count_eq_zero_of_blank (List.all_eq_true.1 List.all_takeWhile) rfl
  have hcount := congrArg (List.count '"') hcut
  rw [List.count_append, hnone] at hcount
  omega

/-- A phrase ends inside the first part of a text, if a quote stands there. -/
theorem exists_of_append_eq_quote {xs ds text rest : List Char} (h : xs ++ ds = text ++ '"' :: rest)
    (htext : '"' ∉ text) (hxs : '"' ∈ xs) : ∃ behind, xs = text ++ '"' :: behind ∧ rest = behind ++ ds := by
  rcases List.append_eq_append_iff.1 h with ⟨more, rfl, -⟩ | ⟨more, rfl, hmore⟩
  · exact absurd (List.mem_append_left more hxs) htext
  · cases more with
    | nil =>
      rw [List.append_nil] at hxs
      exact absurd hxs htext
    | cons c behind =>
      cases hmore
      exact ⟨behind, rfl, rfl⟩

/-- A value ends inside the first part of a text, if the second one does not go on with it. -/
theorem exists_of_append_eq_value {xs ds text rest : List Char} (h : xs ++ ds = text ++ rest)
    (htext : ∀ c ∈ text, isValueChar c = true) (hds : ∀ d ∈ ds.head?, isValueChar d = false) :
    ∃ behind, xs = text ++ behind ∧ rest = behind ++ ds := by
  rcases List.append_eq_append_iff.1 h with ⟨more, rfl, rfl⟩ | ⟨behind, hxs, hrest⟩
  · cases more with
    | nil => exact ⟨[], by simp, rfl⟩
    | cons c more =>
      have hvalue := htext c (by simp)
      rw [hds c rfl] at hvalue
      cases hvalue
  · exact ⟨behind, hxs, hrest⟩

section Exchange

variable {ds ds' : List Char} (hds : SameBehind ds ds')

include hds

theorem SameBehind.skipBlanks_append {cs : List Char} (hcs : skipBlanks cs = []) :
    skipBlanks (cs ++ ds') = skipBlanks (cs ++ ds) := by
  rw [skipBlanks_append_of_blank hcs, skipBlanks_append_of_blank hcs, hds.skipBlanks_eq]

/-- Whether a keyword is a key does not depend on the blanks behind it. -/
theorem wordToken_of_sameBehind (text rest : List Char) : wordToken text (rest ++ ds) = wordToken text (rest ++ ds') := by
  have hrel : (relation? (skipBlanks (rest ++ ds))).isNone = (relation? (skipBlanks (rest ++ ds'))).isNone := by
    by_cases hs : skipBlanks rest = []
    · rw [hds.skipBlanks_append hs]
    · rw [skipBlanks_append hs, skipBlanks_append hs, relation?_append hds.head hs, relation?_append hds.head' hs,
        Option.isNone_map, Option.isNone_map]
  rw [wordToken, wordToken, hrel]

/-- **A token in front of `ds` is the same token in front of `ds'`.** It ends before them, for a phrase that starts in
front of them also ends there. -/
theorem Reads.of_sameBehind {pending : Option Relation} {cs rest : List Char} {token : Token} (hne : cs ≠ [])
    (hquotes : cs.count '"' % 2 = 0) (h : Reads pending (cs ++ ds) token rest) :
    ∃ behind, rest = behind ++ ds ∧ Reads pending (cs ++ ds') token (behind ++ ds') := by
  obtain ⟨c, cs, rfl⟩ := List.exists_cons_of_ne_nil hne
  generalize htext : c :: cs ++ ds = text at h
  cases h with
  | leftParen =>
    cases htext
    exact ⟨cs, rfl, .leftParen _ _⟩
  | rightParen =>
    cases htext
    exact ⟨cs, rfl, .rightParen _⟩
  | @phrase _ inner after hinner =>
    obtain ⟨rfl, hcs⟩ := List.cons.inj htext
    have hmem : '"' ∈ cs := by
      rw [List.count_cons_self] at hquotes
      rw [← List.count_pos_iff]
      omega
    obtain ⟨behind, rfl, rfl⟩ := exists_of_append_eq_quote hcs hinner hmem
    refine ⟨behind, rfl, ?_⟩
    rw [List.cons_append, List.append_assoc, List.cons_append]
    exact .phrase _ _ hinner
  | value r hvalue hall hrest =>
    obtain ⟨behind, hcs, rfl⟩ := exists_of_append_eq_value htext hall hds.head
    refine ⟨behind, rfl, ?_⟩
    rw [hcs, List.append_assoc]
    refine .value r hvalue hall (head?_append_right hds.head' ?_)
    intro d hd
    apply hrest
    cases behind with
    | nil => cases hd
    | cons _ _ => exact hd
  | relation hr =>
    rw [← htext, relation?_append hds.head hne] at hr
    obtain ⟨⟨r, behind⟩, hrel, heq⟩ := Option.map_eq_some_iff.1 hr
    cases heq
    refine ⟨behind, rfl, .relation ?_⟩
    rw [relation?_append hds.head' hne, hrel]
    rfl
  | word hs hword =>
    rw [← htext, spanWord_append_right hds.head] at hs
    cases hs
    refine ⟨(spanWord (c :: cs)).2, rfl, ?_⟩
    rw [wordToken_of_sameBehind hds]
    exact .word (spanWord_append_right hds.head' _) hword

/-! ## Whole texts -/

/-- **A text has the same tokens in front of `ds` and in front of `ds'`.** By induction on the scan: a token takes an
even number of quotes, so what it leaves of the text has an even number again. -/
theorem Lexes.of_sameBehind {depth : Nat} {pending : Option Relation} {cs : List Char} {tokens : List Token}
    (hquotes : cs.count '"' % 2 = 0) (h : Lexes depth pending (cs ++ ds) tokens) :
    Lexes depth pending (cs ++ ds') tokens := by
  generalize htext : cs ++ ds = text at h
  induction h generalizing cs with
  | nil hs =>
    subst htext
    refine .nil ?_
    by_cases hblank : skipBlanks cs = []
    · rw [hds.skipBlanks_append hblank, hs]
    · rw [skipBlanks_append hblank] at hs
      exact absurd (List.append_eq_nil_iff.1 hs).1 hblank
  | cons hl hdepth hrest ih =>
    subst htext
    by_cases hblank : skipBlanks cs = []
    · exact (Lexes.cons hl hdepth hrest).of_skipBlanks_eq (hds.skipBlanks_append hblank)
    · -- the token ends in front of `ds`, so the scan goes on with what is left of `cs`
      rw [skipBlanks_append hblank] at hl
      have hread := lexeme_eq_ok_iff.1 hl
      rw [← count_quote_skipBlanks] at hquotes
      obtain ⟨behind, rfl, hread'⟩ := hread.of_sameBehind hds hblank hquotes
      obtain ⟨taken, htaken, htakes⟩ := hread.exists_takes
      rw [← List.append_assoc] at htaken
      have hcut : skipBlanks cs = taken ++ behind := List.append_cancel_right htaken
      have hbehind : behind.count '"' % 2 = 0 := by
        have heven := htakes.quotes
        rw [hcut, List.count_append] at hquotes
        omega
      refine .cons ?_ hdepth (ih hbehind rfl)
      rw [skipBlanks_append hblank, lexeme_eq_ok_iff]
      exact hread'

end Exchange

/-- The blanks of a gap can be exchanged, and at an end of the text they can be left out. -/
theorem Lexes.of_gap {a b w w' : List Char} {tokens : List Token} (hquotes : a.count '"' % 2 = 0)
    (hw : ∀ c ∈ w, isBlank c = true) (hw' : ∀ c ∈ w', isBlank c = true)
    (hgap : w ≠ [] ∧ w' ≠ [] ∨ a = [] ∨ b = []) (h : Lexes 0 none (a ++ (w ++ b)) tokens) :
    Lexes 0 none (a ++ (w' ++ b)) tokens := by
  by_cases ha : a = []
  · subst ha
    refine h.of_skipBlanks_eq ?_
    rw [List.nil_append, List.nil_append, skipBlanks_append_of_blank (skipBlanks_eq_nil_of_forall hw),
      skipBlanks_append_of_blank (skipBlanks_eq_nil_of_forall hw')]
  · have hends : w ≠ [] ∧ w' ≠ [] ∨ b = [] := hgap.imp_right fun hab => hab.resolve_left ha
    exact h.of_sameBehind (.of_gaps hw hw' hends) hquotes

/-- **Which blanks stand between two parts of a text does not matter**, if the first part has an even number of double
quotes. The texts with the gap `w` and with the gap `w'` have the same tokens, or both have a fault. A gap must not be
empty, unless it stands at the beginning or at the end of the text. -/
theorem tokenize_gap (a b w w' : String) (hquotes : a.toList.count '"' % 2 = 0) (hw : isBlankText w = true)
    (hw' : isBlankText w' = true) (hgap : w ≠ "" ∧ w' ≠ "" ∨ a = "" ∨ b = "") :
    (∃ tokens, tokenize (a ++ w ++ b) = .ok tokens ∧ tokenize (a ++ w' ++ b) = .ok tokens) ∨
      ∃ fault fault', tokenize (a ++ w ++ b) = .error fault ∧ tokenize (a ++ w' ++ b) = .error fault' := by
  have hblank : ∀ c ∈ w.toList, isBlank c = true := List.all_eq_true.1 hw
  have hblank' : ∀ c ∈ w'.toList, isBlank c = true := List.all_eq_true.1 hw'
  have hgaps : w.toList ≠ [] ∧ w'.toList ≠ [] ∨ a.toList = [] ∨ b.toList = [] := by
    simpa only [ne_eq, String.toList_eq_nil_iff] using hgap
  have htext : ∀ v : String, (a ++ v ++ b).toList = a.toList ++ (v.toList ++ b.toList) := by
    intro v
    rw [String.toList_append, String.toList_append, List.append_assoc]
  have hsame : ∀ tokens, tokenize (a ++ w ++ b) = .ok tokens ↔ tokenize (a ++ w' ++ b) = .ok tokens := by
    intro tokens
    rw [tokenize_eq_ok_iff, tokenize_eq_ok_iff, htext, htext]
    constructor
    · exact Lexes.of_gap hquotes hblank hblank' hgaps
    · exact Lexes.of_gap hquotes hblank' hblank (hgaps.imp_left And.symm)
  cases hleft : tokenize (a ++ w ++ b) with
  | ok tokens => exact .inl ⟨tokens, rfl, (hsame tokens).1 hleft⟩
  | error fault =>
    cases hright : tokenize (a ++ w' ++ b) with
    | ok tokens =>
      rw [(hsame tokens).2 hright] at hleft
      cases hleft
    | error fault' => exact .inr ⟨fault, fault', rfl, rfl⟩

/-- The gap stands behind a keyword and in front of the relation that makes a key of it. A tab does as well as two other
blanks of Unicode. -/
theorem tokenize_gap_key :
    tokenize ("\"x y\" and" ++ "\t" ++ "= (v)") =
      .ok [.phrase "x y", .word "and", .relation .eq, .leftParen, .word "v", .rightParen] ∧
    tokenize ("\"x y\" and" ++ "\u2003\u3000" ++ "= (v)") =
      .ok [.phrase "x y", .word "and", .relation .eq, .leftParen, .word "v", .rightParen] := by
  have htab : tokenize ("\"x y\" and" ++ "\t" ++ "= (v)") =
      .ok [.phrase "x y", .word "and", .relation .eq, .leftParen, .word "v", .rightParen] :=
    tokenize_eq_ok_iff.2 (.cons rfl rfl (.cons rfl rfl (.cons rfl rfl (.cons rfl rfl (.cons rfl rfl (.cons rfl rfl
      (.nil rfl)))))))
  refine ⟨htab, ?_⟩
  have hgap := tokenize_gap "\"x y\" and" "= (v)" "\t" "\u2003\u3000" (by decide) (by decide)
    (by decide) (.inl ⟨by decide, by decide⟩)
  rcases hgap with ⟨tokens, hleft, hright⟩ | ⟨fault, _, hleft, -⟩
  · rw [hright, ← hleft, htab]
  · rw [htab] at hleft
    cases hleft

end TelemetrySearch
