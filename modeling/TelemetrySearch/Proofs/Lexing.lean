import TelemetrySearch.Query.Lexer

/-!
# Lexing as a relation

`Reads pending cs token rest` says what the token at the head of a text can be, one rule for each kind of token; it is
what `lexeme` computes (`lexeme_eq_ok_iff`). `Lexes depth pending cs tokens` says that the text `cs` gives `tokens` when
`depth` parentheses are open before it and the relation `pending` stands right before it; it holds exactly if the scan
succeeds with these tokens (`scan_eq_ok_iff`). Facts about whole scans are shown by induction on its two rules.

* A relation stands next in the text exactly if it is the next token (`Lexes.isSome_relation?`).
* A text keeps its tokens when a text follows that neither goes on with its last word nor makes a key of it
  (`Separated`, `Lexes.append`). A text in parentheses is therefore lexed as it is lexed alone (`Lexes.enclose`).
-/

namespace TelemetrySearch

/-! ## One token -/

/-- The text `cs` starts with `token`, right behind the relation `pending`, and `rest` follows. -/
inductive Reads : Option Relation → List Char → Token → List Char → Prop
  | leftParen (pending : Option Relation) (rest : List Char) : Reads pending ('(' :: rest) .leftParen rest
  | rightParen (rest : List Char) : Reads none (')' :: rest) .rightParen rest
  | phrase (pending : Option Relation) {text : List Char} (rest : List Char) : '"' ∉ text →
      Reads pending ('"' :: (text ++ '"' :: rest)) (.phrase (String.ofList text)) rest
  | value (r : Relation) {text rest : List Char} : text ≠ [] → (∀ c ∈ text, isValueChar c = true) →
      (∀ c ∈ rest.head?, isValueChar c = false) → Reads (some r) (text ++ rest) (.word (String.ofList text)) rest
  | relation {r : Relation} {cs rest : List Char} : relation? cs = some (r, rest) → Reads none cs (.relation r) rest
  | word {cs text rest : List Char} : spanWord cs = (text, rest) → text ≠ [] →
      Reads none cs (wordToken text rest) rest

theorem phrase?_eq_some_iff {cs rest : List Char} {token : Token} :
    phrase? cs = some (token, rest) ↔
      ∃ text, '"' ∉ text ∧ cs = text ++ '"' :: rest ∧ token = .phrase (String.ofList text) := by
  constructor
  · intro h
    have hcs := List.takeWhile_append_dropWhile (p := (· != '"')) (l := cs)
    have hhead := List.head?_dropWhile_not (· != '"') cs
    unfold phrase? at h
    split at h
    · cases h
    · next quote after heq =>
      cases h
      rw [heq] at hcs hhead
      obtain rfl : quote = '"' := by simpa using hhead
      refine ⟨cs.takeWhile (· != '"'), fun hmem => ?_, hcs.symm, rfl⟩
      simpa using List.all_eq_true.1 List.all_takeWhile '"' hmem
  · rintro ⟨text, htext, rfl, rfl⟩
    have hall : ∀ c ∈ text, (c != '"') = true := by
      intro c hc
      rw [bne_iff_ne]
      rintro rfl
      exact htext hc
    rw [phrase?, List.dropWhile_append_of_pos hall, List.takeWhile_append_of_pos hall]
    simp

theorem takeWhile_append_of_head {p : Char → Bool} {text rest : List Char} (hall : ∀ c ∈ text, p c = true)
    (hrest : ∀ c ∈ rest.head?, p c = false) :
    (text ++ rest).takeWhile p = text ∧ (text ++ rest).dropWhile p = rest := by
  rw [List.takeWhile_append_of_pos hall, List.dropWhile_append_of_pos hall]
  cases rest with
  | nil => simp
  | cons c rest => simp [hrest c rfl]

theorem isBracket_eq_true_iff {c : Char} : isBracket c = true ↔ (c = '(' ∨ c = ')') ∨ c = '"' := by
  simp [isBracket]

theorem isBracket_of_isValueChar {c : Char} (h : isValueChar c = true) : isBracket c = false := by
  simp only [isValueChar, Bool.and_eq_true, Bool.not_eq_true'] at h
  exact h.2

/-- A word starts neither like a group nor like a phrase. -/
theorem plainLexeme_of_isValueChar {c : Char} (hc : isValueChar c = true) (cs : List Char) :
    plainLexeme (c :: cs) =
      match relation? (c :: cs) with
      | some (r, rest) => .ok (.relation r, rest)
      | none =>
        match spanWord (c :: cs) with
        | ([], _) => .error .unexpectedCharacter
        | (word, rest) => .ok (wordToken word rest, rest) := by
  have hb := isBracket_of_isValueChar hc
  unfold plainLexeme
  split
  · next h => cases h; cases hb
  · next h => cases h; cases hb
  · next h => cases h; cases hb
  · rfl

theorem valueLexeme_of_isValueChar {c : Char} (hc : isValueChar c = true) (r : Relation) (cs : List Char) :
    valueLexeme r (c :: cs) =
      .ok (.word (String.ofList ((c :: cs).takeWhile isValueChar)), (c :: cs).dropWhile isValueChar) := by
  have hb := isBracket_of_isValueChar hc
  rw [valueLexeme]
  · rw [List.takeWhile_cons_of_pos hc]
  all_goals
    rintro _ ⟨⟩
    cases hb

theorem isValueChar_of_relation? {cs rest : List Char} {r : Relation} (h : relation? cs = some (r, rest)) :
    ∃ c cs', cs = c :: cs' ∧ isValueChar c = true := by
  unfold relation? at h
  split at h <;> cases h <;> exact ⟨_, _, rfl, rfl⟩

/-- A word starts with one of its characters, and no relation starts there. -/
theorem exists_of_spanWord {cs text rest : List Char} (h : spanWord cs = (text, rest)) (hne : text ≠ []) :
    ∃ c cs', cs = c :: cs' ∧ isValueChar c = true ∧ relation? cs = none := by
  cases cs with
  | nil => cases h; exact absurd rfl hne
  | cons c cs =>
    rw [spanWord] at h
    split at h
    · next hc =>
      simp only [Bool.and_eq_true, Option.isNone_iff_eq_none] at hc
      exact ⟨c, cs, rfl, hc⟩
    · cases h; exact absurd rfl hne

theorem valueLexeme_eq_ok_iff {r : Relation} {cs rest : List Char} {token : Token} :
    valueLexeme r cs = .ok (token, rest) ↔ Reads (some r) cs token rest := by
  constructor
  · intro h
    unfold valueLexeme at h
    split at h
    · cases h; exact .leftParen _ _
    · split at h
      · next hp =>
        cases h
        obtain ⟨text, htext, rfl, rfl⟩ := phrase?_eq_some_iff.1 hp
        exact .phrase _ _ htext
      · cases h
    · split at h
      · cases h
      · next hne =>
        cases h
        have hhead : ∀ c ∈ (cs.dropWhile isValueChar).head?, isValueChar c = false := by
          intro c hc
          have h := List.head?_dropWhile_not isValueChar cs
          rw [Option.mem_def.1 hc] at h
          exact h
        have hread := Reads.value r hne (List.all_eq_true.1 List.all_takeWhile) hhead
        rwa [List.takeWhile_append_dropWhile] at hread
  · intro h
    cases h with
    | leftParen => rfl
    | phrase _ _ htext => rw [valueLexeme, phrase?_eq_some_iff.2 ⟨_, htext, rfl, rfl⟩]
    | @value _ text _ hne hall hrest =>
      obtain ⟨c, text, rfl⟩ := List.exists_cons_of_ne_nil hne
      obtain ⟨htake, hdrop⟩ := takeWhile_append_of_head hall hrest
      rw [List.cons_append] at htake hdrop ⊢
      rw [valueLexeme_of_isValueChar (hall c List.mem_cons_self), htake, hdrop]

theorem plainLexeme_eq_ok_iff {cs rest : List Char} {token : Token} :
    plainLexeme cs = .ok (token, rest) ↔ Reads none cs token rest := by
  constructor
  · intro h
    unfold plainLexeme at h
    split at h
    · cases h; exact .leftParen _ _
    · cases h; exact .rightParen _
    · split at h
      · next hp =>
        cases h
        obtain ⟨text, htext, rfl, rfl⟩ := phrase?_eq_some_iff.1 hp
        exact .phrase _ _ htext
      · cases h
    · split at h
      · next hr => cases h; exact .relation hr
      · split at h
        · cases h
        · next hne hs =>
          cases h
          exact .word hs hne
  · intro h
    cases h with
    | leftParen => rfl
    | rightParen => rfl
    | phrase _ _ htext => rw [plainLexeme, phrase?_eq_some_iff.2 ⟨_, htext, rfl, rfl⟩]
    | relation hr =>
      obtain ⟨c, cs, rfl, hc⟩ := isValueChar_of_relation? hr
      rw [plainLexeme_of_isValueChar hc, hr]
    | @word _ text _ hs hne =>
      obtain ⟨c, cs, rfl, hc, hr⟩ := exists_of_spanWord hs hne
      rw [plainLexeme_of_isValueChar hc, hr, hs]
      obtain ⟨d, text, rfl⟩ := List.exists_cons_of_ne_nil hne
      rfl

theorem lexeme_eq_ok_iff {pending : Option Relation} {cs rest : List Char} {token : Token} :
    lexeme pending cs = .ok (token, rest) ↔ Reads pending cs token rest := by
  cases pending with
  | none => exact plainLexeme_eq_ok_iff
  | some r => exact valueLexeme_eq_ok_iff

/-! ## The scan -/

/-- The text gives the tokens, behind `depth` open parentheses and the relation `pending`. -/
inductive Lexes : Nat → Option Relation → List Char → List Token → Prop
  | nil {cs : List Char} : skipBlanks cs = [] → Lexes 0 none cs []
  | cons {depth depth' : Nat} {pending : Option Relation} {cs rest : List Char} {token : Token} {tokens : List Token} :
      lexeme pending (skipBlanks cs) = .ok (token, rest) → token.depthAfter depth = some depth' →
        Lexes depth' token.pending rest tokens → Lexes depth pending cs (token :: tokens)

section Scan

variable {locate : List Char → Nat} {depth : Nat} {pending : Option Relation} {cs rest : List Char} {token : Token}

theorem ne_nil_of_lexeme_eq_ok (h : lexeme pending cs = .ok (token, rest)) : cs ≠ [] := by
  rintro rfl
  exact absurd (length_lexeme_lt h) (Nat.not_lt_zero _)

theorem scan_of_blank (h : skipBlanks cs = []) : scan locate depth pending cs = endOfText depth pending := by
  rw [scan]
  split
  · rfl
  · next h' => rw [h] at h'; cases h'

theorem scan_of_lexeme (h : lexeme pending (skipBlanks cs) = .ok (token, rest)) :
    scan locate depth pending cs =
      match token.depthAfter depth with
      | none => .error (.strayParen (locate (skipBlanks cs)))
      | some depth' => (scan locate depth' token.pending rest).map (token :: ·) := by
  rw [scan]
  split
  · next h' => exact absurd h' (ne_nil_of_lexeme_eq_ok h)
  · next c after h' =>
    rw [h'] at h ⊢
    split
    · next hl => rw [h] at hl; cases hl
    · next hl =>
      cases h.symm.trans hl
      cases token.depthAfter depth <;> rfl

theorem scan_of_lexeme_eq_error {fault : Nat → Fault} (hs : skipBlanks cs ≠ [])
    (h : lexeme pending (skipBlanks cs) = .error fault) :
    scan locate depth pending cs = .error (fault (locate (skipBlanks cs))) := by
  rw [scan]
  split
  · next h' => exact absurd h' hs
  · next c after h' =>
    rw [h'] at h ⊢
    split
    · next hl =>
      cases h.symm.trans hl
      rfl
    · next hl => cases h.symm.trans hl

theorem exists_lexeme_of_scan {tokens : List Token} (hs : skipBlanks cs ≠ [])
    (h : scan locate depth pending cs = .ok tokens) :
    ∃ token rest, lexeme pending (skipBlanks cs) = .ok (token, rest) := by
  cases hl : lexeme pending (skipBlanks cs) with
  | ok p => exact ⟨p.1, p.2, rfl⟩
  | error fault =>
    rw [scan_of_lexeme_eq_error hs hl] at h
    cases h

theorem Lexes.of_scan (cs : List Char) {depth : Nat} {pending : Option Relation} {tokens : List Token}
    (h : scan locate depth pending cs = .ok tokens) : Lexes depth pending cs tokens := by
  by_cases hs : skipBlanks cs = []
  · rw [scan_of_blank hs] at h
    cases pending with
    | some r => cases h
    | none =>
      rw [endOfText] at h
      split at h
      · next hd => cases h; exact hd ▸ .nil hs
      · cases h
  · obtain ⟨token, rest, hl⟩ := exists_lexeme_of_scan hs h
    rw [scan_of_lexeme hl] at h
    cases hd : token.depthAfter depth with
    | none => rw [hd] at h; cases h
    | some depth' =>
      simp only [hd] at h
      cases hscan : scan locate depth' token.pending rest with
      | error fault => rw [hscan] at h; cases h
      | ok tokens' =>
        rw [hscan] at h
        cases h
        have hlt : rest.length < cs.length := Nat.lt_of_lt_of_le (length_lexeme_lt hl) (length_skipBlanks_le cs)
        exact .cons hl hd (.of_scan rest hscan)
termination_by cs.length

/-- **The scan succeeds exactly with the tokens of the text**, whatever positions it would report. -/
theorem scan_eq_ok_iff {tokens : List Token} :
    scan locate depth pending cs = .ok tokens ↔ Lexes depth pending cs tokens := by
  refine ⟨.of_scan cs, fun h => ?_⟩
  induction h with
  | nil hs => rw [scan_of_blank hs]; rfl
  | cons hl hd _ ih => rw [scan_of_lexeme hl, hd]; simp only [ih]; rfl

theorem tokenize_eq_ok_iff {query : String} {tokens : List Token} :
    tokenize query = .ok tokens ↔ Lexes 0 none query.toList tokens :=
  scan_eq_ok_iff

end Scan

/-- Blanks in front of a text do not count. -/
theorem Lexes.of_skipBlanks_eq {depth : Nat} {pending : Option Relation} {cs cs' : List Char} {tokens : List Token}
    (h : Lexes depth pending cs tokens) (hs : skipBlanks cs' = skipBlanks cs) : Lexes depth pending cs' tokens := by
  cases h with
  | nil hnil => exact .nil (hs.trans hnil)
  | cons hl hd hrest => exact .cons (by rw [hs]; exact hl) hd hrest

/-! ## The relation ahead -/

theorem relation?_cons_eq_none_iff {c : Char} {cs : List Char} :
    relation? (c :: cs) = none ↔ c ∉ ['=', ':', '<', '>'] ∧ (c = '!' → ∀ rest, cs ≠ '=' :: rest) := by
  unfold relation?
  split <;> simp_all

theorem pending_wordToken (text rest : List Char) : (wordToken text rest).pending = none := by
  unfold wordToken
  split
  · split <;> rfl
  · rfl

/-- A token is a relation exactly if the text starts with one. -/
theorem Reads.isSome_relation? {cs rest : List Char} {token : Token} (h : Reads none cs token rest) :
    (relation? cs).isSome = token.pending.isSome := by
  cases h with
  | leftParen => rfl
  | rightParen => rfl
  | phrase => rfl
  | relation hr => rw [hr]; rfl
  | word hs hne =>
    obtain ⟨-, -, -, -, hr⟩ := exists_of_spanWord hs hne
    rw [hr, pending_wordToken]
    rfl

/-- Whether the first of the tokens is a relation. -/
def startsWithRelation : List Token → Bool
  | .relation _ :: _ => true
  | _ => false

/-- **A relation stands next in the text exactly if it is the next token.** -/
theorem Lexes.isSome_relation? {depth : Nat} {cs : List Char} {tokens : List Token} (h : Lexes depth none cs tokens) :
    (relation? (skipBlanks cs)).isSome = startsWithRelation tokens := by
  cases h with
  | nil hs => rw [hs]; rfl
  | @cons _ _ _ _ _ token _ hl _ _ =>
    rw [(lexeme_eq_ok_iff.1 hl).isSome_relation?]
    cases token <;> rfl

/-! ## What follows a text -/

/-- A text that can follow another one: it does not go on with a word or a relation, and no relation stands first in it
that would make a key of the last word. -/
structure Separated (ds : List Char) : Prop where
  head : ∀ d ∈ ds.head?, isValueChar d = false
  noRelation : relation? (skipBlanks ds) = none

theorem skipBlanks_cons_of_isBracket {d : Char} (hd : isBracket d = true) (ds : List Char) :
    skipBlanks (d :: ds) = d :: ds := by
  rcases isBracket_eq_true_iff.1 hd with (rfl | rfl) | rfl <;> rfl

theorem separated_of_isBracket {d : Char} (hd : isBracket d = true) (ds : List Char) : Separated (d :: ds) where
  head := by simp [isValueChar, hd]
  noRelation := by
    rw [skipBlanks_cons_of_isBracket hd]
    rcases isBracket_eq_true_iff.1 hd with (rfl | rfl) | rfl <;> rfl

section Append

variable {ds : List Char}

theorem skipBlanks_append {cs : List Char} (h : skipBlanks cs ≠ []) : skipBlanks (cs ++ ds) = skipBlanks cs ++ ds := by
  unfold skipBlanks at h ⊢
  rw [List.dropWhile_append, if_neg (by simpa using h)]

theorem skipBlanks_append_of_blank {cs : List Char} (h : skipBlanks cs = []) :
    skipBlanks (cs ++ ds) = skipBlanks ds := by
  unfold skipBlanks at h ⊢
  rw [List.dropWhile_append, if_pos (by simpa using h)]

section Head

variable (hds : ∀ d ∈ ds.head?, isValueChar d = false)

include hds

theorem append_ne_equals {cs : List Char} (h : ∀ rest, cs ≠ '=' :: rest) (rest : List Char) :
    cs ++ ds ≠ '=' :: rest := by
  cases cs with
  | nil =>
    rintro rfl
    cases hds '=' rfl
  | cons c cs =>
    rintro ⟨⟩
    exact h cs rfl

/-- The relation at the head of a text does not change with what follows, for no equals sign follows. -/
theorem relation?_append {cs : List Char} (hcs : cs ≠ []) :
    relation? (cs ++ ds) = (relation? cs).map fun p => (p.1, p.2 ++ ds) := by
  fun_cases relation? cs with
  | case1 rest => rfl
  | case2 rest => rfl
  | case3 rest => rfl
  | case4 rest => rfl
  | case5 rest => rfl
  | case6 rest h =>
    rw [List.cons_append, relation?]
    · rfl
    · exact append_ne_equals hds h
  | case7 rest h =>
    rw [List.cons_append, relation?]
    · rfl
    · exact append_ne_equals hds h
  | case8 _ hge hle hne heq hcolon hgt hlt =>
    have hnone : relation? cs = none := by rw [relation?] <;> assumption
    obtain ⟨c, cs, rfl⟩ := List.exists_cons_of_ne_nil hcs
    obtain ⟨hc, hbang⟩ := relation?_cons_eq_none_iff.1 hnone
    exact relation?_cons_eq_none_iff.2 ⟨hc, fun h => append_ne_equals hds (hbang h)⟩

/-- The word at the head of a text ends in front of what follows. -/
theorem spanWord_append_right (cs : List Char) :
    spanWord (cs ++ ds) = ((spanWord cs).1, (spanWord cs).2 ++ ds) := by
  induction cs with
  | nil =>
    cases ds with
    | nil => rfl
    | cons d ds => simp [spanWord, hds d rfl]
  | cons c cs ih =>
    have hrel : (relation? (c :: (cs ++ ds))).isNone = (relation? (c :: cs)).isNone := by
      rw [← List.cons_append, relation?_append hds (List.cons_ne_nil c cs), Option.isNone_map]
    rw [List.cons_append, spanWord, spanWord, hrel, ih]
    split <;> rfl

theorem head?_append_right {cs : List Char} (hcs : ∀ c ∈ cs.head?, isValueChar c = false) :
    ∀ d ∈ (cs ++ ds).head?, isValueChar d = false := by
  cases cs with
  | nil => exact hds
  | cons c cs => exact hcs

end Head

/-- What follows does not make a key of a keyword. -/
theorem wordToken_append (hds : Separated ds) (text rest : List Char) :
    wordToken text (rest ++ ds) = wordToken text rest := by
  have hrel : (relation? (skipBlanks (rest ++ ds))).isNone = (relation? (skipBlanks rest)).isNone := by
    by_cases hs : skipBlanks rest = []
    · rw [skipBlanks_append_of_blank hs, hds.noRelation, hs]
      rfl
    · rw [skipBlanks_append hs, relation?_append hds.head hs, Option.isNone_map]
  rw [wordToken, wordToken, hrel]

theorem Reads.append {pending : Option Relation} {cs rest : List Char} {token : Token}
    (h : Reads pending cs token rest) (hds : Separated ds) : Reads pending (cs ++ ds) token (rest ++ ds) := by
  cases h with
  | leftParen => exact .leftParen _ _
  | rightParen => exact .rightParen _
  | phrase _ _ htext =>
    simp only [List.cons_append, List.append_assoc]
    exact .phrase _ _ htext
  | value r hne hall hrest =>
    rw [List.append_assoc]
    exact .value r hne hall (head?_append_right hds.head hrest)
  | relation hr =>
    have hcs : cs ≠ [] := by rintro rfl; cases hr
    exact .relation (by rw [relation?_append hds.head hcs, hr]; rfl)
  | word hs hne =>
    rw [← wordToken_append hds]
    exact .word (by rw [spanWord_append_right hds.head, hs]) hne

/-- More open parentheses stay open. -/
theorem Token.depthAfter_add {token : Token} {depth depth' : Nat} (h : token.depthAfter depth = some depth') (k : Nat) :
    token.depthAfter (depth + k) = some (depth' + k) := by
  cases token with
  | leftParen => cases h; simp only [Token.depthAfter, Option.some.injEq]; omega
  | rightParen =>
    simp only [Token.depthAfter] at h ⊢
    split at h
    · cases h
    · next hd =>
      cases h
      rw [if_neg (by omega), Option.some.injEq]
      omega
  | _ => cases h; rfl

/-- **What follows a text does not change its tokens.** -/
theorem Lexes.append {depth k : Nat} {pending : Option Relation} {cs : List Char} {tokens more : List Token}
    (h : Lexes depth pending cs tokens) (hds : Separated ds) (hmore : Lexes k none ds more) :
    Lexes (depth + k) pending (cs ++ ds) (tokens ++ more) := by
  induction h with
  | nil hs => simpa using hmore.of_skipBlanks_eq (skipBlanks_append_of_blank hs)
  | cons hl hd _ ih =>
    refine .cons ?_ (Token.depthAfter_add hd k) ih
    rw [skipBlanks_append (ne_nil_of_lexeme_eq_ok hl), lexeme_eq_ok_iff]
    exact (lexeme_eq_ok_iff.1 hl).append hds

/-- **A text in parentheses is lexed as it is lexed alone.** -/
theorem Lexes.enclose {cs : List Char} {tokens more : List Token} (h : Lexes 0 none cs tokens)
    (hmore : Lexes 0 none ds more) :
    Lexes 0 none ('(' :: (cs ++ ')' :: ds)) (.leftParen :: (tokens ++ .rightParen :: more)) := by
  have hclose : Lexes 1 none (')' :: ds) (.rightParen :: more) := .cons rfl rfl hmore
  have hinner := h.append (separated_of_isBracket rfl ds) hclose
  exact .cons rfl rfl hinner

end Append

end TelemetrySearch
