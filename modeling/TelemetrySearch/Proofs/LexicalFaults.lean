import Mathlib.Data.List.TakeWhile
import TelemetrySearch.Proofs.TokenSpelling

/-!
# Where a text fails

A character is quoted if an odd number of double quotes stands before it. The scan never counts quotes: it jumps over a
phrase at once, and it counts the parentheses it meets, behind a relation and elsewhere.

* `Passed before depth pending`: what the scan has behind it when it has come to the end of `before`. No quote is open,
  each unquoted `)` has its `(`, `depth` unquoted `(` are not closed, and the relation `pending` is the last thing but
  blanks. Blanks and tokens keep this (`Passed.blanks`, `Passed.token`).
* A token that cannot be read is a quote that nothing closes or a `)` behind a relation (`cases_of_lexeme_eq_error`).
* So a text either has tokens, and then its quotes and parentheses are in order, or one of five faults at a place that
  the text shows (`tokenize_outcome`).
-/

namespace TelemetrySearch

/-! ## Quoted characters -/

/-- The characters that are not quoted, behind `quotes` double quotes: those with an even number of double quotes before
them. -/
def unquotedFrom (quotes : Nat) : List Char → List Char
  | [] => []
  | c :: cs =>
    let rest := unquotedFrom (if c = '"' then quotes + 1 else quotes) cs
    if quotes % 2 = 0 then c :: rest else rest

/-- The characters of a text that are not quoted. -/
def unquoted (cs : List Char) : List Char := unquotedFrom 0 cs

theorem unquotedFrom_append (quotes : Nat) (xs ys : List Char) :
    unquotedFrom quotes (xs ++ ys) = unquotedFrom quotes xs ++ unquotedFrom (quotes + xs.count '"') ys := by
  induction xs generalizing quotes with
  | nil => rfl
  | cons c xs ih =>
    have hcount : (if c = '"' then quotes + 1 else quotes) + xs.count '"' = quotes + (c :: xs).count '"' := by
      rw [List.count_cons]
      by_cases hc : c = '"'
      · rw [if_pos hc, if_pos (by simpa using hc)]
        omega
      · rw [if_neg hc, if_neg (by simpa using hc)]
        omega
    simp only [List.cons_append, unquotedFrom, ih, hcount]
    split <;> rfl

/-- Only the parity of the quotes before a text counts. -/
theorem unquotedFrom_congr {m n : Nat} (h : m % 2 = n % 2) (cs : List Char) :
    unquotedFrom m cs = unquotedFrom n cs := by
  induction cs generalizing m n with
  | nil => rfl
  | cons c cs ih =>
    have hnext : (if c = '"' then m + 1 else m) % 2 = (if c = '"' then n + 1 else n) % 2 := by split <;> omega
    simp only [unquotedFrom, ih hnext, h]

theorem unquoted_append {xs : List Char} (h : xs.count '"' % 2 = 0) (ys : List Char) :
    unquoted (xs ++ ys) = unquoted xs ++ unquoted ys := by
  have hparity : (0 + xs.count '"') % 2 = 0 % 2 := by omega
  rw [unquoted, unquotedFrom_append, unquotedFrom_congr hparity]
  rfl

theorem unquotedFrom_of_not_mem {cs : List Char} (h : '"' ∉ cs) (quotes : Nat) :
    unquotedFrom quotes cs = if quotes % 2 = 0 then cs else [] := by
  induction cs with
  | nil => simp [unquotedFrom]
  | cons c cs ih =>
    obtain ⟨hc, hcs⟩ := List.ne_and_not_mem_of_not_mem_cons h
    simp only [unquotedFrom, if_neg hc.symm, ih hcs]
    split <;> rfl

/-! ## Nested parentheses -/

/-- No unquoted `)` of the text lacks its unquoted `(`. -/
def Nested (cs : List Char) : Prop := ∀ n, (unquoted (cs.take n)).count ')' ≤ (unquoted (cs.take n)).count '('

/-- The unquoted parentheses of the text are balanced. -/
structure Balanced (cs : List Char) : Prop where
  nested : Nested cs
  closed : (unquoted cs).count '(' = (unquoted cs).count ')'

/-- A beginning of a text has no more unquoted characters of a kind than the text. -/
theorem count_unquoted_take_le (c : Char) (cs : List Char) (n : Nat) :
    (unquoted (cs.take n)).count c ≤ (unquoted cs).count c := by
  have h := unquotedFrom_append 0 (cs.take n) (cs.drop n)
  rw [List.take_append_drop] at h
  rw [unquoted, unquoted, h, List.count_append]
  omega

/-- A text that closes no more parentheses than are open can follow. -/
theorem Nested.append {xs ys : List Char} {depth : Nat} (h : Nested xs) (hquotes : xs.count '"' % 2 = 0)
    (hdepth : (unquoted xs).count '(' = (unquoted xs).count ')' + depth) (hys : (unquoted ys).count ')' ≤ depth) :
    Nested (xs ++ ys) := by
  intro n
  by_cases hn : n ≤ xs.length
  · rw [List.take_append_of_le_length hn]
    exact h n
  · have hpart := count_unquoted_take_le ')' ys (n - xs.length)
    rw [List.take_append, List.take_of_length_le (by omega), unquoted_append hquotes, List.count_append,
      List.count_append]
    omega

/-! ## What a token takes of the text -/

/-- The ways to write a relation. -/
def Relation.spellings : Relation → List String
  | .eq => ["=", ":"]
  | r => [r.symbol]

/-- The text ends in the relation, but for blanks. -/
def EndsIn (r : Relation) (cs : List Char) : Prop :=
  ∃ before spelling blanks, cs = before ++ String.toList spelling ++ blanks ∧ spelling ∈ r.spellings ∧
    ∀ c ∈ blanks, isBlank c = true

/-- The characters `taken` count as much as the token: whole phrases, and the parenthesis or relation that it is. -/
structure Token.Takes (token : Token) (taken : List Char) : Prop where
  quotes : taken.count '"' % 2 = 0
  opened : (unquoted taken).count '(' = [token].count .leftParen
  closed : (unquoted taken).count ')' = [token].count .rightParen
  relation : ∀ r, token = .relation r → ∃ spelling ∈ r.spellings, taken = spelling.toList

theorem exists_spelling_of_relation? {cs rest : List Char} {r : Relation} (h : relation? cs = some (r, rest)) :
    ∃ spelling ∈ r.spellings, cs = spelling.toList ++ rest := by
  unfold relation? at h
  split at h <;> cases h
  · exact ⟨">=", by decide, rfl⟩
  · exact ⟨"<=", by decide, rfl⟩
  · exact ⟨"!=", by decide, rfl⟩
  · exact ⟨"=", by decide, rfl⟩
  · exact ⟨":", by decide, rfl⟩
  · exact ⟨">", by decide, rfl⟩
  · exact ⟨"<", by decide, rfl⟩

/-- Characters of values are neither quotes nor parentheses. -/
theorem count_unquoted_of_isValueChar {text : List Char} (h : ∀ c ∈ text, isValueChar c = true) :
    text.count '"' = 0 ∧ (unquoted text).count '(' = 0 ∧ (unquoted text).count ')' = 0 := by
  have hnone : ∀ c, isBracket c = true → c ∉ text := by
    intro c hc hmem
    rw [isBracket_of_isValueChar (h c hmem)] at hc
    cases hc
  have hunquoted : unquoted text = text := unquotedFrom_of_not_mem (hnone '"' rfl) 0
  rw [hunquoted]
  exact ⟨List.count_eq_zero.2 (hnone _ rfl), List.count_eq_zero.2 (hnone _ rfl), List.count_eq_zero.2 (hnone _ rfl)⟩

/-- A phrase takes its two quotes, of which the second is quoted like its text. -/
theorem takes_phrase {text : List Char} (h : '"' ∉ text) :
    (Token.phrase (String.ofList text)).Takes ('"' :: (text ++ ['"'])) := by
  have hcount : text.count '"' = 0 := List.count_eq_zero.2 h
  have hunquoted : unquoted ('"' :: (text ++ ['"'])) = ['"'] := by
    have hstep : unquoted ('"' :: (text ++ ['"'])) = '"' :: unquotedFrom 1 (text ++ ['"']) := rfl
    rw [hstep, unquotedFrom_append, unquotedFrom_of_not_mem h, hcount]
    rfl
  constructor
  · rw [List.count_cons_self, List.count_append, hcount]
    rfl
  · rw [hunquoted]
    rfl
  · rw [hunquoted]
    rfl
  · rintro r ⟨⟩

theorem isValueChar_of_mem_spellings {r : Relation} {spelling : String} (h : spelling ∈ r.spellings) :
    ∀ c ∈ spelling.toList, isValueChar c = true := by
  have hall : (r.spellings.all fun spelling => spelling.toList.all isValueChar) = true := by cases r <;> decide
  exact List.all_eq_true.1 (List.all_eq_true.1 hall spelling h)

/-- A token that is no parenthesis takes characters of values, and a relation takes its spelling. -/
theorem takes_of_isValueChar {token : Token} (htoken : token.depthAfter 0 = some 0) {text : List Char}
    (hrelation : ∀ r, token = .relation r → ∃ spelling ∈ r.spellings, text = spelling.toList)
    (htext : ∀ c ∈ text, isValueChar c = true) : token.Takes text := by
  obtain ⟨hquotes, hopened, hclosed⟩ := count_unquoted_of_isValueChar htext
  have hleft : token ≠ .leftParen := by rintro rfl; cases htoken
  have hright : token ≠ .rightParen := by rintro rfl; cases htoken
  refine ⟨by rw [hquotes], ?_, ?_, hrelation⟩
  · rw [hopened, List.count_singleton, if_neg (by simpa using hleft)]
  · rw [hclosed, List.count_singleton, if_neg (by simpa using hright)]

/-- A token that is read takes what it is written with. -/
theorem Reads.exists_takes {pending : Option Relation} {cs rest : List Char} {token : Token}
    (h : Reads pending cs token rest) : ∃ taken, cs = taken ++ rest ∧ token.Takes taken := by
  cases h with
  | leftParen => exact ⟨['('], rfl, by decide, by decide, by decide, by simp⟩
  | rightParen => exact ⟨[')'], rfl, by decide, by decide, by decide, by simp⟩
  | @phrase _ text _ htext => exact ⟨'"' :: (text ++ ['"']), by simp, takes_phrase htext⟩
  | value r hne hall hrest => exact ⟨_, rfl, takes_of_isValueChar rfl (by simp) hall⟩
  | @relation r _ _ hr =>
    obtain ⟨spelling, hmem, rfl⟩ := exists_spelling_of_relation? hr
    refine ⟨spelling.toList, rfl, takes_of_isValueChar rfl ?_ (isValueChar_of_mem_spellings hmem)⟩
    rintro r' ⟨⟩
    exact ⟨spelling, hmem, rfl⟩
  | @word _ text _ hs hne =>
    have happend := spanWord_append cs
    rw [hs] at happend
    refine ⟨text, happend.symm, takes_of_isValueChar ?_ ?_ fun c hc => (mem_spanWord hs c hc).1⟩
    · unfold wordToken
      split
      · split <;> rfl
      · rfl
    · intro r hr
      have hpending := pending_wordToken text rest
      rw [hr] at hpending
      cases hpending

/-! ## What the scan has behind it -/

/-- What is not blank does not stand in a gap. -/
theorem count_eq_zero_of_blank {gap : List Char} (hgap : ∀ c ∈ gap, isBlank c = true) {c : Char}
    (hc : isBlank c = false) : gap.count c = 0 := by
  rw [List.count_eq_zero]
  intro hmem
  rw [hgap c hmem] at hc
  cases hc

/-- The scan stands behind `before`, with `depth` parentheses open and the relation `pending` right before it. -/
structure Passed (before : List Char) (depth : Nat) (pending : Option Relation) : Prop where
  quotes : before.count '"' % 2 = 0
  nested : Nested before
  depth_eq : (unquoted before).count '(' = (unquoted before).count ')' + depth
  endsIn : ∀ r, pending = some r → EndsIn r before

/-- The parentheses that are open behind a token are those before it and those it opens, less those it closes. -/
theorem Token.depthAfter_eq {token : Token} {depth depth' : Nat} (h : token.depthAfter depth = some depth') :
    depth + [token].count .leftParen = depth' + [token].count .rightParen := by
  cases token with
  | leftParen =>
    cases h
    rfl
  | rightParen =>
    simp only [Token.depthAfter] at h
    split at h
    · cases h
    · next hdepth =>
      cases h
      show depth = depth - 1 + 1
      omega
  | _ =>
    cases h
    rfl

/-- Only a `)` finds nothing to close. -/
theorem Token.eq_of_depthAfter_eq_none {token : Token} {depth : Nat} (h : token.depthAfter depth = none) :
    token = .rightParen ∧ depth = 0 := by
  cases token with
  | rightParen =>
    simp only [Token.depthAfter] at h
    split at h
    · next hzero => exact ⟨rfl, hzero⟩
    · cases h
  | _ => cases h

theorem Reads.eq_of_rightParen {pending : Option Relation} {cs rest : List Char} {token : Token}
    (h : Reads pending cs token rest) (htoken : token = .rightParen) : cs = ')' :: rest := by
  cases h with
  | rightParen => rfl
  | leftParen => cases htoken
  | phrase => cases htoken
  | value => cases htoken
  | relation => cases htoken
  | word =>
    unfold wordToken at htoken
    split at htoken
    · split at htoken <;> cases htoken
    · cases htoken

namespace Passed

variable {before : List Char} {depth : Nat} {pending : Option Relation}

theorem start : Passed [] 0 none where
  quotes := rfl
  nested := fun n => by rw [List.take_nil]; exact Nat.le_refl _
  depth_eq := rfl
  endsIn := by simp

/-- Blanks change nothing. -/
theorem blanks (h : Passed before depth pending) {gap : List Char} (hgap : ∀ c ∈ gap, isBlank c = true) :
    Passed (before ++ gap) depth pending := by
  have hnone : ∀ c, isBlank c = false → gap.count c = 0 := fun c => count_eq_zero_of_blank hgap
  have hunquoted : unquoted gap = gap := unquotedFrom_of_not_mem (List.count_eq_zero.1 (hnone '"' rfl)) 0
  constructor
  · rw [List.count_append, hnone '"' rfl]
    exact h.quotes
  · refine h.nested.append h.quotes h.depth_eq ?_
    rw [hunquoted, hnone ')' rfl]
    omega
  · rw [unquoted_append h.quotes, hunquoted, List.count_append, List.count_append, hnone '(' rfl, hnone ')' rfl]
    exact h.depth_eq
  · intro r hr
    obtain ⟨start, spelling, more, rfl, hspelling, hmore⟩ := h.endsIn r hr
    refine ⟨start, spelling, more ++ gap, by simp only [List.append_assoc], hspelling, ?_⟩
    intro c hc
    exact (List.mem_append.1 hc).elim (hmore c) (hgap c)

/-- A token opens and closes what it takes, and a relation is what the text then ends in. -/
theorem token (h : Passed before depth pending) {token : Token} {taken : List Char} (htakes : token.Takes taken)
    {depth' : Nat} (hdepth : token.depthAfter depth = some depth') : Passed (before ++ taken) depth' token.pending := by
  have hcount := Token.depthAfter_eq hdepth
  constructor
  · have hquotes := h.quotes
    have htaken := htakes.quotes
    rw [List.count_append]
    omega
  · refine h.nested.append h.quotes h.depth_eq ?_
    rw [htakes.closed]
    cases token with
    | rightParen =>
      have hclosed : depth + 0 = depth' + 1 := hcount
      show 1 ≤ depth
      omega
    | _ => exact Nat.zero_le _
  · have hbefore := h.depth_eq
    rw [unquoted_append h.quotes, List.count_append, List.count_append, htakes.opened, htakes.closed]
    omega
  · intro r hr
    have htoken : token = .relation r := by
      cases token with
      | relation r' => cases hr; rfl
      | _ => cases hr
    obtain ⟨spelling, hspelling, rfl⟩ := htakes.relation r htoken
    exact ⟨before, spelling, [], by simp, hspelling, by simp⟩

end Passed

/-! ## A token that cannot be read -/

theorem not_mem_of_phrase? {cs : List Char} (h : phrase? cs = none) : '"' ∉ cs := by
  intro hmem
  rw [phrase?] at h
  split at h
  · next hd => simpa using List.dropWhile_eq_nil_iff.1 hd '"' hmem
  · cases h

/-- A character of a value starts a token wherever it stands. -/
theorem exists_lexeme_of_isValueChar {c : Char} (hc : isValueChar c = true) (pending : Option Relation)
    (cs : List Char) : ∃ lexed, lexeme pending (c :: cs) = .ok lexed := by
  cases pending with
  | some r => exact ⟨_, valueLexeme_of_isValueChar hc r cs⟩
  | none =>
    rw [lexeme, plainLexeme_of_isValueChar hc]
    cases hr : relation? (c :: cs) with
    | some p => exact ⟨_, rfl⟩
    | none =>
      rw [spanWord, hc, hr]
      exact ⟨_, rfl⟩

/-- What stands where no token can be read: a quote that nothing closes, or a `)` behind a relation. -/
theorem cases_of_lexeme_eq_error {pending : Option Relation} {c : Char} {cs : List Char} {fault : Nat → Fault}
    (hblank : isBlank c = false) (h : lexeme pending (c :: cs) = .error fault) :
    (c = '"' ∧ '"' ∉ cs ∧ fault = .openQuote) ∨ ∃ r, pending = some r ∧ c = ')' ∧ fault = .noValueAt r := by
  by_cases hvalue : isValueChar c = true
  · obtain ⟨lexed, hl⟩ := exists_lexeme_of_isValueChar hvalue pending cs
    rw [hl] at h
    cases h
  · have hbracket : isBracket c = true := by simpa [isValueChar, hblank] using hvalue
    rcases isBracket_eq_true_iff.1 hbracket with (rfl | rfl) | rfl
    · cases pending <;> cases h
    · cases pending with
      | none => cases h
      | some r =>
        cases h
        exact .inr ⟨r, rfl, rfl, rfl⟩
    · left
      cases hp : phrase? cs with
      | some lexed =>
        cases pending <;> simp [lexeme, valueLexeme, plainLexeme, hp] at h
      | none =>
        refine ⟨rfl, not_mem_of_phrase? hp, ?_⟩
        cases pending <;> simpa [lexeme, valueLexeme, plainLexeme, hp] using h.symm

/-! ## Whole texts -/

theorem byteLength_eq_utf8ByteSize (cs : List Char) : byteLength cs = (String.ofList cs).utf8ByteSize := by
  induction cs with
  | nil => rfl
  | cons c cs ih =>
    rw [byteLength_cons, ih, String.ofList_cons, String.utf8ByteSize_append, String.utf8ByteSize_singleton]

/-- Where a text is cut before a character, the position of the character is the number of bytes before it. -/
theorem cut_before (before after : List Char) (c : Char) :
    String.ofList (before ++ c :: after) = String.ofList before ++ String.singleton c ++ String.ofList after ∧
      positionOf (before ++ c :: after) (c :: after) = (String.ofList before).utf8ByteSize := by
  constructor
  · rw [← String.toList_inj]
    simp
  · rw [positionOf_append, byteLength_eq_utf8ByteSize]

/-- What is wrong with a text that has no tokens, and how it is said. A position is the number of bytes before it. -/
inductive LexicalFault (query : String) : Fault → String → Prop
  /-- The first unquoted `)` without its unquoted `(`: what stands before it is balanced. -/
  | strayParen {before after : String} : query = before ++ ")" ++ after → before.toList.count '"' % 2 = 0 →
      Balanced before.toList →
      LexicalFault query (.strayParen before.utf8ByteSize) s!"unmatched ')' at position {before.utf8ByteSize}"
  /-- The last double quote, which opens a phrase. -/
  | openQuote {before after : String} : query = before ++ "\"" ++ after → '"' ∉ after.toList →
      before.toList.count '"' % 2 = 0 →
      LexicalFault query (.openQuote before.utf8ByteSize) s!"unterminated quote at position {before.utf8ByteSize}"
  /-- An unquoted `)` behind a relation and blanks. -/
  | noValueAt {r : Relation} {before after : String} : query = before ++ ")" ++ after →
      before.toList.count '"' % 2 = 0 → EndsIn r before.toList →
      LexicalFault query (.noValueAt r before.utf8ByteSize)
        s!"operator '{r.symbol}' has no value at position {before.utf8ByteSize}"
  /-- A relation at the end. -/
  | noValueAtEnd {r : Relation} : EndsIn r query.toList →
      LexicalFault query (.noValueAtEnd r) s!"operator '{r.symbol}' has no value"
  /-- More unquoted `(` than unquoted `)`. -/
  | openParens {n : Nat} : 0 < n → (unquoted query.toList).count '(' = (unquoted query.toList).count ')' + n →
      LexicalFault query (.openParens n) s!"{n} unmatched '('"

/-- What the result of a scan says about the whole text. -/
def Outcome (query : String) : Except Fault (List Token) → Prop
  | .ok _ => query.toList.count '"' % 2 = 0 ∧ Balanced query.toList
  | .error fault => LexicalFault query fault fault.message

theorem Outcome.map {query : String} {result : Except Fault (List Token)} (h : Outcome query result)
    (f : List Token → List Token) : Outcome query (result.map f) := by
  cases result <;> exact h

namespace Passed

variable {before : List Char} {depth : Nat} {pending : Option Relation}

theorem outcome_endOfText (h : Passed before depth pending) :
    Outcome (String.ofList before) (endOfText depth pending) := by
  cases pending with
  | some r =>
    refine LexicalFault.noValueAtEnd ?_
    rw [String.toList_ofList]
    exact h.endsIn r rfl
  | none =>
    have hdepth := h.depth_eq
    rw [endOfText]
    split
    · next hzero =>
      rw [hzero] at hdepth
      rw [Outcome, String.toList_ofList]
      exact ⟨h.quotes, h.nested, hdepth⟩
    · next hpos =>
      refine LexicalFault.openParens (by omega) ?_
      rw [String.toList_ofList]
      exact hdepth

theorem outcome_of_lexeme_eq_error (h : Passed before depth pending) {c : Char} {after : List Char}
    {fault : Nat → Fault} (hblank : isBlank c = false) (hl : lexeme pending (c :: after) = .error fault) :
    Outcome (String.ofList (before ++ c :: after))
      (.error (fault (positionOf (before ++ c :: after) (c :: after)))) := by
  obtain ⟨htext, hposition⟩ := cut_before before after c
  rw [hposition]
  rcases cases_of_lexeme_eq_error hblank hl with ⟨rfl, hafter, rfl⟩ | ⟨r, rfl, rfl, rfl⟩
  · exact LexicalFault.openQuote htext (by simpa using hafter) (by simpa using h.quotes)
  · exact LexicalFault.noValueAt htext (by simpa using h.quotes) (by simpa using h.endsIn r rfl)

/-- A `)` that closes nothing is the first one, for the others have closed something. -/
theorem outcome_of_depthAfter_eq_none (h : Passed before depth pending) {c : Char} {after rest : List Char}
    {token : Token} (hread : Reads pending (c :: after) token rest) (hdepth : token.depthAfter depth = none) :
    Outcome (String.ofList (before ++ c :: after))
      (.error (.strayParen (positionOf (before ++ c :: after) (c :: after)))) := by
  obtain ⟨htext, hposition⟩ := cut_before before after c
  obtain ⟨htoken, rfl⟩ := Token.eq_of_depthAfter_eq_none hdepth
  obtain rfl : c = ')' := (List.cons.inj (hread.eq_of_rightParen htoken)).1
  rw [hposition]
  exact LexicalFault.strayParen htext (by simpa using h.quotes) (by simpa using Balanced.mk h.nested h.depth_eq)

/-- **The scan from any place on**: the result says about the whole text what `Outcome` asks for. -/
theorem outcome {cs : List Char} (h : Passed before depth pending) :
    Outcome (String.ofList (before ++ cs)) (scan (positionOf (before ++ cs)) depth pending cs) := by
  induction hn : cs.length using Nat.strongRecOn generalizing before depth pending cs with
  | _ n ih =>
  subst hn
  -- by the length of what is left; what blanks and a token take moves over to `before`
  have hgap : ∀ c ∈ cs.takeWhile isBlank, isBlank c = true := List.all_eq_true.1 List.all_takeWhile
  have hcut : cs.takeWhile isBlank ++ skipBlanks cs = cs := List.takeWhile_append_dropWhile
  have hpassed := h.blanks hgap
  cases hs : skipBlanks cs with
  | nil =>
    rw [hs, List.append_nil] at hcut
    rw [hcut] at hpassed
    rw [scan_of_blank hs]
    exact hpassed.outcome_endOfText
  | cons c after =>
    have hblank : isBlank c = false := by
      have hhead := List.head?_dropWhile_not isBlank cs
      rw [← skipBlanks, hs] at hhead
      exact hhead
    have htext : before ++ cs = before ++ cs.takeWhile isBlank ++ c :: after := by
      rw [List.append_assoc, ← hs, hcut]
    cases hl : lexeme pending (c :: after) with
    | error fault =>
      rw [scan_of_lexeme_eq_error (by rw [hs]; simp) (by rw [hs]; exact hl), hs, htext]
      exact hpassed.outcome_of_lexeme_eq_error hblank hl
    | ok lexed =>
      obtain ⟨token, rest⟩ := lexed
      have hread := lexeme_eq_ok_iff.1 hl
      have hshort : rest.length < cs.length := by
        have hlt := length_lexeme_lt hl
        have hle := length_skipBlanks_le cs
        rw [hs] at hle
        omega
      rw [scan_of_lexeme (by rw [hs]; exact hl), hs, htext]
      cases hdepth : token.depthAfter depth with
      | none => exact hpassed.outcome_of_depthAfter_eq_none hread hdepth
      | some depth' =>
        obtain ⟨taken, htaken, htakes⟩ := hread.exists_takes
        have hnext := ih rest.length hshort (hpassed.token htakes hdepth) rfl
        rw [List.append_assoc, ← htaken] at hnext
        exact hnext.map _

end Passed

/-- **A text has tokens or one of five faults, which the text shows.** If there are tokens, the double quotes are even
in number and the unquoted parentheses are balanced. Else the fault is one of those of `LexicalFault`, at its position
and with its message; in particular no character is unexpected. -/
theorem tokenize_outcome (query : String) :
    (∃ tokens, tokenize query = .ok tokens ∧ query.toList.count '"' % 2 = 0 ∧ Balanced query.toList) ∨
      ∃ fault, tokenize query = .error fault ∧ LexicalFault query fault fault.message ∧
        ∀ position, fault ≠ .unexpectedCharacter position := by
  have houtcome : Outcome (String.ofList ([] ++ query.toList)) (tokenize query) := Passed.start.outcome
  rw [List.nil_append, String.ofList_toList] at houtcome
  cases h : tokenize query with
  | ok tokens =>
    rw [h] at houtcome
    exact .inl ⟨tokens, rfl, houtcome⟩
  | error fault =>
    rw [h] at houtcome
    have hlexical : LexicalFault query fault fault.message := houtcome
    refine .inr ⟨fault, rfl, hlexical, ?_⟩
    rintro position rfl
    cases hlexical

end TelemetrySearch
