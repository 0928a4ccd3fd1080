import Mathlib.Control.Monad.Basic
import Mathlib.Data.List.TakeWhile
import TelemetrySearch.Proofs.FormulaShape
import TelemetrySearch.Proofs.QueryMeaning
import TelemetrySearch.Proofs.StructuralFaults

/-!
# Queries of one key

The smallest query with a key is a text of a key, a relation and a value, with or without blanks around the relation.
What it is read as is decided where its parts meet: a key that ends in `!` takes part in a relation that starts with
`=`, a keyword in front of a relation is a key, and a value may start like a relation.

* Where a word ends in front of a relation, the scan goes on behind the relation with the value (`scan_key`). So the
  text of a key, a relation and a value has the tokens of the term (`tokenize_keyed`) and compiles to its condition
  (`Search.condition?_of_tokens`).
* `Search.condition?_colon`: a colon and an equals sign are the same relation, behind a key that does not end in `!`.
* `Search.condition?_negation`: `!=` gives the negation of what a colon gives, or the same error.
* `Search.condition?_alternatives`: a list of values gives the `OR` of what its values give, or the first error.
-/

namespace TelemetrySearch

/-! ## The key -/

/-- A word ends in front of what starts no word, but a `!` at its end must not meet an equals sign. -/
theorem spanWord_append_of_stop {text rest : List Char}
    (htext : ∀ c ∈ text, isValueChar c = true ∧ c ∉ ['=', ':', '<', '>']) (hrest : spanWord rest = ([], rest))
    (hbang : ∀ before after, text = before ++ ['!'] → rest ≠ '=' :: after) :
    spanWord (text ++ rest) = (text, rest) := by
  induction text with
  | nil => exact hrest
  | cons c text ih =>
    obtain ⟨⟨hvalue, hc⟩, htail⟩ := List.forall_mem_cons.1 htext
    have hequals : c = '!' → ∀ after, text ++ rest ≠ '=' :: after := by
      rintro rfl after h
      cases text with
      | nil => exact hbang [] after rfl h
      | cons d text =>
        cases h
        exact (htail '=' List.mem_cons_self).2 (by simp)
    have hbangTail : ∀ before after, text = before ++ ['!'] → rest ≠ '=' :: after := by
      rintro before after rfl
      exact hbang (c :: before) after rfl
    rw [List.cons_append, spanWord, hvalue, relation?_cons_eq_none_iff.2 ⟨hc, hequals⟩, ih htail hbangTail]
    rfl

/-- A relation starts no word. -/
theorem spanWord_of_relation? {cs after : List Char} {r : Relation} (h : relation? cs = some (r, after)) :
    spanWord cs = ([], cs) := by
  obtain ⟨c, cs, rfl, -⟩ := isValueChar_of_relation? h
  rw [spanWord, h, Option.isNone_some, Bool.and_false]
  rfl

/-- A blank starts no word. -/
theorem spanWord_of_isBlank {c : Char} (h : isBlank c = true) (cs : List Char) :
    spanWord (c :: cs) = ([], c :: cs) := by
  rw [spanWord, isValueChar, h]
  rfl

/-- A word in front of a relation is a key, also if it spells a keyword, and the scan goes on behind the relation. -/
theorem scan_key (locate : List Char → Nat) {cs text rest after : List Char} {r : Relation}
    (hs : spanWord (skipBlanks cs) = (text, rest)) (hne : text ≠ [])
    (hr : relation? (skipBlanks rest) = some (r, after)) :
    scan locate 0 none cs =
      (scan locate 0 (some r) after).map fun tokens => .word (String.ofList text) :: .relation r :: tokens := by
  have hword : wordToken text rest = .word (String.ofList text) := by
    have h : wordToken (String.ofList text).toList rest = .word (String.ofList text) :=
      wordToken_eq_word fun _ => by rw [hr]; rfl
    rwa [String.toList_ofList] at h
  have hkey := Reads.word hs hne
  rw [hword] at hkey
  rw [scan_of_lexeme (lexeme_eq_ok_iff.2 hkey)]
  simp only [Token.depthAfter, Token.pending]
  rw [scan_of_lexeme (lexeme_eq_ok_iff.2 (.relation hr))]
  simp only [Token.depthAfter, Token.pending]
  cases scan locate 0 (some r) after <;> rfl

/-! ## Two spellings of one relation -/

/-- The token that a bare word is read as. -/
def Token.isBareWord : Token → Bool
  | .word _ | .keyword _ => true
  | _ => false

theorem Lexes.skipBlanks_of_nil {depth : Nat} {pending : Option Relation} {cs : List Char}
    (h : Lexes depth pending cs []) : skipBlanks cs = [] := by
  cases h with
  | nil hs => exact hs

theorem Reads.exists_spanWord {cs rest : List Char} {token : Token} (h : Reads none cs token rest)
    (hword : token.isBareWord = true) : ∃ text, spanWord cs = (text, rest) ∧ text ≠ [] := by
  cases h with
  | word hs hne => exact ⟨_, hs, hne⟩
  | leftParen => cases hword
  | rightParen => cases hword
  | phrase => cases hword
  | relation => cases hword

/-- A text of one bare word has nothing but blanks around the word. -/
theorem exists_of_tokenize_bareWord {k : String} {token : Token} (h : tokenize k = .ok [token])
    (hword : token.isBareWord = true) :
    ∃ text rest, spanWord (skipBlanks k.toList) = (text, rest) ∧ text ≠ [] ∧ skipBlanks rest = [] := by
  rw [tokenize_eq_ok_iff] at h
  cases h with
  | cons hl _ hrest =>
    obtain ⟨text, hs, hne⟩ := (lexeme_eq_ok_iff.1 hl).exists_spanWord hword
    exact ⟨text, _, hs, hne, hrest.skipBlanks_of_nil⟩

/-- A word keeps its end when a relation comes behind it and its blanks, unless its `!` meets an equals sign. -/
theorem spanWord_skipBlanks_append {cs text rest : List Char} (hs : spanWord (skipBlanks cs) = (text, rest))
    (hne : text ≠ []) (hblank : skipBlanks rest = []) (hbang : ∀ before, cs ≠ before ++ ['!']) {mark v : List Char}
    {r : Relation} (hr : relation? mark = some (r, v)) :
    spanWord (skipBlanks (cs ++ mark)) = (text, rest ++ mark) := by
  have hcs : skipBlanks cs = text ++ rest := by
    have h := spanWord_append (skipBlanks cs)
    rw [hs] at h
    exact h.symm
  have hskip : skipBlanks (cs ++ mark) = text ++ (rest ++ mark) := by
    rw [skipBlanks_append, hcs, List.append_assoc]
    rw [hcs]
    exact List.append_ne_nil_of_left_ne_nil hne rest
  rw [hskip]
  cases rest with
  | nil =>
    refine spanWord_append_of_stop (mem_spanWord hs) (spanWord_of_relation? hr) ?_
    rintro before - rfl -
    obtain ⟨blanks, hblanks⟩ := List.dropWhile_suffix isBlank (l := cs)
    refine hbang (blanks ++ before) ?_
    rw [List.append_assoc, ← hblanks]
    congr 1
    simpa [skipBlanks] using hcs
  | cons d rest =>
    have hd : isBlank d = true := List.dropWhile_eq_nil_iff.1 hblank d List.mem_cons_self
    refine spanWord_append_of_stop (mem_spanWord hs) (spanWord_of_isBlank hd _) ?_
    rintro before after - h
    cases h
    cases hd

/-- Behind a word and its blanks the scan goes on with what stands behind the relation. -/
theorem exists_scan_eq {k : String} {token : Token} (hk : tokenize k = .ok [token]) (hword : token.isBareWord = true)
    (hbang : ∀ w, k ≠ w ++ "!") : ∃ text, ∀ (locate : List Char → Nat) (mark v : List Char) (r : Relation),
      relation? mark = some (r, v) → scan locate 0 none (k.toList ++ mark) =
        (scan locate 0 (some r) v).map fun tokens => .word text :: .relation r :: tokens := by
  obtain ⟨text, rest, hs, hne, hblank⟩ := exists_of_tokenize_bareWord hk hword
  have hlast : ∀ before, k.toList ≠ before ++ ['!'] := by
    intro before h
    refine hbang (String.ofList before) (String.toList_inj.1 ?_)
    rw [h, String.toList_append, String.toList_ofList]
    rfl
  refine ⟨String.ofList text, fun locate mark v r hr => ?_⟩
  have hnext : relation? (skipBlanks (rest ++ mark)) = some (r, v) := by
    rw [skipBlanks_append_of_blank hblank, (Reads.relation hr).skipBlanks_eq, hr]
  exact scan_key locate (spanWord_skipBlanks_append hs hne hblank hlast hr) hne hnext

/-- A colon and an equals sign behind a word give the same tokens, whatever follows. -/
theorem tokenize_colon {k : String} {token : Token} (hk : tokenize k = .ok [token]) (hword : token.isBareWord = true)
    (hbang : ∀ w, k ≠ w ++ "!") (v : String) : tokenize (k ++ ":" ++ v) = tokenize (k ++ "=" ++ v) := by
  obtain ⟨text, hscan⟩ := exists_scan_eq hk hword hbang
  have hcolon : (k ++ ":" ++ v).toList = k.toList ++ ':' :: v.toList := by simp
  have hequals : (k ++ "=" ++ v).toList = k.toList ++ '=' :: v.toList := by simp
  -- both marks take one byte, so the faults in what follows have the same positions
  have hlocate : positionOf (k.toList ++ ':' :: v.toList) = positionOf (k.toList ++ '=' :: v.toList) := by
    funext rest
    simp only [positionOf, byteLength_append, byteLength_cons]
    rfl
  rw [tokenize, tokenize, hcolon, hequals, hscan _ _ v.toList .eq rfl, hscan _ _ v.toList .eq rfl, hlocate]

namespace Search

/-- **A colon and an equals sign are the same relation.** Behind a text that is one bare word and does not end in `!`
they give the same condition or the same error, whatever follows. -/
theorem condition?_colon (s : Search) {k : String} {token : Token} (hk : tokenize k = .ok [token])
    (hword : token.isBareWord = true) (hbang : ∀ w, k ≠ w ++ "!") (v : String) :
    s.condition? (k ++ ":" ++ v) = s.condition? (k ++ "=" ++ v) := by
  rw [condition?, condition?, formula?, formula?, tokenize_colon hk hword hbang v]

/-- A keyword is a key here, and the value starts like a relation. -/
theorem condition?_colon_keyword :
    tokenize " or " = .ok [.keyword .or] ∧
      (⟨.traces, .reject⟩ : Search).condition? " or :=x" = .ok (some ⟨"TraceAttributes[?] = ?", ["or", "=x"]⟩) ∧
      (⟨.traces, .reject⟩ : Search).condition? " or ==x" = .ok (some ⟨"TraceAttributes[?] = ?", ["or", "=x"]⟩) := by
  have hk : tokenize " or " = .ok [.keyword .or] := tokenize_eq_ok_iff.2 (.cons rfl rfl (.nil rfl))
  have hcolon : (⟨.traces, .reject⟩ : Search).condition? " or :=x" =
      .ok (some ⟨"TraceAttributes[?] = ?", ["or", "=x"]⟩) := by
    have htokens : tokenize " or :=x" = .ok (Term.keyed "or" .eq (.single (.word "=x"))).tokens :=
      tokenize_eq_ok_iff.2 (.cons rfl rfl (.cons rfl rfl (.cons rfl rfl (.nil rfl))))
    refine (condition?_of_tokens _ ?_ htokens).trans ?_
    · trivial
    · decide +kernel
  have hbang : ∀ w, " or " ≠ w ++ "!" := by
    intro w h
    have hlast := congrArg (fun text => text.toList.getLast?) h
    simp at hlast
  exact ⟨hk, hcolon, (condition?_colon _ hk rfl hbang "=x").symm.trans hcolon⟩

/-- **Behind a key that ends in `!` a colon and an equals sign differ**: the `!` and the equals sign are one
relation. -/
theorem condition?_bang :
    let s : Search := ⟨.traces, .reject⟩
    tokenize "a!" = .ok [.word "a!"] ∧
      s.condition? ("a!" ++ ":" ++ "b") = .ok (some ⟨"TraceAttributes[?] = ?", ["a!", "b"]⟩) ∧
      s.condition? ("a!" ++ "=" ++ "b") = .ok (some ⟨"NOT (TraceAttributes[?] = ?)", ["a", "b"]⟩) ∧
      s.condition? ("a!" ++ ":" ++ "b") ≠ s.condition? ("a!" ++ "=" ++ "b") := by
  intro s
  have hcolon : s.condition? "a!:b" = .ok (some ⟨"TraceAttributes[?] = ?", ["a!", "b"]⟩) := by
    have htokens : tokenize "a!:b" = .ok (Term.keyed "a!" .eq (.single (.word "b"))).tokens :=
      tokenize_eq_ok_iff.2 (.cons rfl rfl (.cons rfl rfl (.cons rfl rfl (.nil rfl))))
    refine (condition?_of_tokens _ ?_ htokens).trans ?_
    · trivial
    · decide +kernel
  have hequals : s.condition? "a!=b" = .ok (some ⟨"NOT (TraceAttributes[?] = ?)", ["a", "b"]⟩) := by
    have htokens : tokenize "a!=b" = .ok (Term.keyed "a" .ne (.single (.word "b"))).tokens :=
      tokenize_eq_ok_iff.2 (.cons rfl rfl (.cons rfl rfl (.cons rfl rfl (.nil rfl))))
    refine (condition?_of_tokens _ ?_ htokens).trans ?_
    · trivial
    · decide +kernel
  refine ⟨tokenize_eq_ok_iff.2 (.cons rfl rfl (.nil rfl)), hcolon, hequals, ?_⟩
  show s.condition? "a!:b" ≠ s.condition? "a!=b"
  rw [hcolon, hequals]
  decide

end Search

/-! ## The value -/

/-- The text of a value behind a relation: an unquoted value, a phrase in its quotes, or a list in its parentheses,
whose text is read as literals with `OR` between them. -/
inductive SpellsValue : String → Value → Prop
  | word {text : String} : IsValueText text → SpellsValue text (.single (.word text))
  | phrase {text : String} : '"' ∉ text.toList → SpellsValue ("\"" ++ text ++ "\"") (.single (.phrase text))
  | list {text : String} {ls : List Literal} : ls ≠ [] → tokenize text = .ok (Literal.rowTokens ls) →
      SpellsValue ("(" ++ text ++ ")") (.list ls)

theorem SpellsValue.lexes {v : String} {value : Value} (h : SpellsValue v value) (r : Relation) :
    Lexes 0 (some r) v.toList value.tokens := by
  have hend : Lexes 0 none [] [] := .nil rfl
  cases h with
  | word htext =>
    obtain ⟨hne, hall⟩ := isValueText_iff.1 htext
    have hread : Reads (some r) (v.toList ++ []) (.word (String.ofList v.toList)) [] := .value r hne hall (by simp)
    rw [String.ofList_toList, List.append_nil] at hread
    refine .cons ?_ rfl hend
    rw [hread.skipBlanks_eq]
    exact lexeme_eq_ok_iff.2 hread
  | @phrase text htext =>
    have hread := Reads.phrase (some r) [] htext
    rw [String.ofList_toList] at hread
    have htoList : ("\"" ++ text ++ "\"").toList = '"' :: (text.toList ++ ['"']) := by simp
    rw [htoList]
    exact .cons (lexeme_eq_ok_iff.2 hread) rfl hend
  | @list text ls _ htext =>
    have hclose : Lexes 1 none [')'] [.rightParen] := .cons rfl rfl (.nil rfl)
    have hinner := (tokenize_eq_ok_iff.1 htext).append (separated_of_isBracket rfl []) hclose
    have htoList : ("(" ++ text ++ ")").toList = '(' :: (text.toList ++ [')']) := by simp
    rw [htoList]
    exact .cons rfl rfl hinner

/-- The text of a value does not stand for an empty list. -/
theorem SpellsValue.isWritten {v : String} {value : Value} (h : SpellsValue v value) (key : String) (r : Relation) :
    (Term.keyed key r value).IsWritten := by
  cases h with
  | word => trivial
  | phrase => trivial
  | list hne => exact hne

/-- A text of a key, a relation and a value has the tokens of the term; `cs` is what stands behind the key. -/
theorem tokenize_keyed {query k v : String} {value : Value} {r : Relation} {cs after : List Char} (hk : IsWordText k)
    (hv : SpellsValue v value) (hquery : query.toList = k.toList ++ cs) (hstop : spanWord cs = ([], cs))
    (hequals : ∀ rest, cs ≠ '=' :: rest) (hr : relation? (skipBlanks cs) = some (r, after))
    (hafter : skipBlanks after = skipBlanks v.toList) : tokenize query = .ok (Term.keyed k r value).tokens := by
  obtain ⟨hvalue, hchars⟩ := hk
  obtain ⟨hne, hall⟩ := isValueText_iff.1 hvalue
  have hs : spanWord (k.toList ++ cs) = (k.toList, cs) :=
    spanWord_append_of_stop (fun c hc => ⟨hall c hc, hchars c hc⟩) hstop fun _ rest _ => hequals rest
  have hskip : skipBlanks (k.toList ++ cs) = k.toList ++ cs := (Reads.word hs hne).skipBlanks_eq
  have hscan (locate : List Char → Nat) : scan locate 0 (some r) after = .ok value.tokens :=
    scan_eq_ok_iff.2 ((hv.lexes r).of_skipBlanks_eq hafter)
  rw [← hskip] at hs
  rw [tokenize, hquery, scan_key _ hs hne hr, hscan, String.ofList_toList]
  rfl

theorem tokenize_keyed_colon {k v : String} {value : Value} (hk : IsWordText k) (hv : SpellsValue v value) :
    tokenize (k ++ ":" ++ v) = .ok (Term.keyed k .eq value).tokens := by
  have hquery : (k ++ ":" ++ v).toList = k.toList ++ ':' :: v.toList := by simp
  exact tokenize_keyed hk hv hquery rfl (by simp) rfl rfl

theorem tokenize_keyed_ne {k v : String} {value : Value} (hk : IsWordText k) (hv : SpellsValue v value) :
    tokenize (k ++ "!=" ++ v) = .ok (Term.keyed k .ne value).tokens := by
  have hquery : (k ++ "!=" ++ v).toList = k.toList ++ '!' :: '=' :: v.toList := by simp
  exact tokenize_keyed hk hv hquery rfl (by simp) rfl rfl

theorem tokenize_keyed_spaced {k v : String} {value : Value} (hk : IsWordText k) (hv : SpellsValue v value)
    (r : Relation) : tokenize (k ++ " " ++ r.symbol ++ " " ++ v) = .ok (Term.keyed k r value).tokens := by
  have hquery : (k ++ " " ++ r.symbol ++ " " ++ v).toList =
      k.toList ++ ' ' :: (r.symbol.toList ++ ' ' :: v.toList) := by simp
  have hr : relation? (skipBlanks (' ' :: (r.symbol.toList ++ ' ' :: v.toList))) = some (r, ' ' :: v.toList) := by
    cases r <;> rfl
  exact tokenize_keyed hk hv hquery (spanWord_of_isBlank rfl _) (by simp) hr rfl

namespace Search

variable {s : Search} {k v : String} {value : Value}

/-! ## Negation -/

/-- A term whose key has a field is compiled by the field, and its error names the key. -/
theorem term_of_resolve {f : Field} (hf : s.table.resolve k = some f) (r : Relation) (value : Value) :
    s.term (.keyed k r value) = ((f.compareValue r.base value).mapError (Error.invalidValue k)).map r.finish := by
  simp only [term, hf]
  cases f.compareValue r.base value <;> rfl

/-- The condition of a term with `!=` is the negation of that with `=`. -/
theorem term_ne (s : Search) (k : String) (value : Value) :
    s.term (.keyed k .ne value) = (s.term (.keyed k .eq value)).map Condition.negate := by
  cases hf : s.table.resolve k with
  | some f =>
    have hbase : Relation.ne.base = .eq ∧ Relation.eq.base = .eq := ⟨rfl, rfl⟩
    rw [term_of_resolve hf, term_of_resolve hf, hbase.1, hbase.2]
    cases f.compareValue .eq value <;> rfl
  | none =>
    simp only [term, hf]
    cases s.unknownKeys <;> rfl

/-- **`!=` negates.** For every key and every text of a value, `!=` gives the error that a colon gives, or both give a
condition, and that of `!=` is the negation of the other one. -/
theorem condition?_negation (s : Search) (hk : IsWordText k) (hv : SpellsValue v value) :
    (∃ e, s.condition? (k ++ ":" ++ v) = .error e ∧ s.condition? (k ++ "!=" ++ v) = .error e) ∨
      ∃ c, s.condition? (k ++ ":" ++ v) = .ok (some c) ∧
        s.condition? (k ++ "!=" ++ v) = .ok (some ⟨"NOT (" ++ c.fragment ++ ")", c.args⟩) := by
  rw [s.condition?_of_tokens (hv.isWritten k .eq) (tokenize_keyed_colon hk hv),
    s.condition?_of_tokens (hv.isWritten k .ne) (tokenize_keyed_ne hk hv), term_ne]
  cases s.term (.keyed k .eq value) with
  | error e => exact .inl ⟨e, rfl, rfl⟩
  | ok c => exact .inr ⟨c, rfl, rfl⟩

/-- The key is a keyword with a `!`, and the list is read over blanks, with a phrase right behind its `or`. -/
theorem condition?_negation_list :
    let s : Search := ⟨.traces, .reject⟩
    let v := "(" ++ " x* or\"a b\"" ++ ")"
    IsWordText "or!" ∧ SpellsValue v (.list [.word "x*", .phrase "a b"]) ∧
      s.condition? ("or!" ++ ":" ++ v) =
        .ok (some ⟨"(TraceAttributes[?] ILIKE ? OR TraceAttributes[?] = ?)", ["or!", "x%", "or!", "a b"]⟩) ∧
      s.condition? ("or!" ++ "!=" ++ v) =
        .ok (some ⟨"NOT ((TraceAttributes[?] ILIKE ? OR TraceAttributes[?] = ?))", ["or!", "x%", "or!", "a b"]⟩) := by
  intro s v
  have hk : IsWordText "or!" := by decide +kernel
  have hitems : tokenize " x* or\"a b\"" = .ok (Literal.rowTokens [.word "x*", .phrase "a b"]) :=
    tokenize_eq_ok_iff.2 (.cons rfl rfl (.cons rfl rfl (.cons rfl rfl (.nil rfl))))
  have hv : SpellsValue v (.list [.word "x*", .phrase "a b"]) := .list (by simp) hitems
  have hcolon : s.condition? ("or!" ++ ":" ++ v) =
      .ok (some ⟨"(TraceAttributes[?] ILIKE ? OR TraceAttributes[?] = ?)", ["or!", "x%", "or!", "a b"]⟩) :=
    (s.condition?_of_tokens (hv.isWritten _ _) (tokenize_keyed_colon hk hv)).trans (by decide +kernel)
  refine ⟨hk, hv, hcolon, ?_⟩
  rcases condition?_negation s hk hv with ⟨e, herror, -⟩ | ⟨c, hok, hne⟩
  · rw [hcolon] at herror
    cases herror
  · rw [hcolon] at hok
    cases hok
    exact hne

end Search

/-! ## Lists -/

/-- A literal that can stand in a list: a phrase, or a bare word that spells no keyword. -/
def Literal.IsItem (l : Literal) : Prop :=
  if l.quoted then '"' ∉ l.text.toList else IsWordText l.text ∧ ¬SpellsKeyword l.text

instance (l : Literal) : Decidable l.IsItem := inferInstanceAs (Decidable (if l.quoted then _ else _))

namespace Literal

theorem spelling_token (l : Literal) : l.token.spelling = l.spelling := by
  obtain ⟨text, quoted⟩ := l
  cases quoted <;> rfl

theorem depthAfter_token (depth : Nat) (l : Literal) : l.token.depthAfter depth = some depth := by
  obtain ⟨text, quoted⟩ := l
  cases quoted <;> rfl

theorem rowTokens_cons_cons (l m : Literal) (ls : List Literal) :
    rowTokens (l :: m :: ls) = l.token :: .keyword .or :: rowTokens (m :: ls) := rfl

theorem exists_rowTokens_cons (l : Literal) (ls : List Literal) : ∃ more, rowTokens (l :: ls) = l.token :: more := by
  cases ls with
  | nil => exact ⟨[], rfl⟩
  | cons m ls => exact ⟨_, rfl⟩

theorem IsItem.fits {l : Literal} (h : l.IsItem) (ahead : Bool) : l.token.Fits false ahead := by
  obtain ⟨text, quoted⟩ := l
  cases quoted with
  | true => exact h
  | false => exact ⟨h.1, fun hkeyword => absurd hkeyword h.2⟩

/-- An item alone behind a relation is read as the literal that it is in a list. -/
theorem IsItem.spellsValue {l : Literal} (h : l.IsItem) : SpellsValue l.spelling (.single l) := by
  obtain ⟨text, quoted⟩ := l
  cases quoted with
  | true => exact .phrase h
  | false => exact .word h.1.1

theorem inPlace_rowTokens {ls : List Literal} (h : ∀ l ∈ ls, l.IsItem) : InPlace false (rowTokens ls) := by
  induction ls with
  | nil => rfl
  | cons l ls ih =>
    obtain ⟨hl, hls⟩ := List.forall_mem_cons.1 h
    have hpending : l.token.pending.isSome = false := by rw [l.pending_token]; rfl
    cases ls with
    | nil => exact ⟨hl.fits _, hpending⟩
    | cons m ls =>
      have hahead : startsWithRelation (rowTokens (m :: ls)) = false := by
        obtain ⟨more, hmore⟩ := exists_rowTokens_cons m ls
        obtain ⟨text, quoted⟩ := m
        rw [hmore]
        cases quoted <;> rfl
      rw [rowTokens_cons_cons]
      refine ⟨hl.fits _, ?_⟩
      rw [hpending]
      exact ⟨⟨rfl, hahead⟩, ih hls⟩

theorem closes_rowTokens (ls : List Literal) : Closes 0 (rowTokens ls) := by
  induction ls with
  | nil => rfl
  | cons l ls ih =>
    cases ls with
    | nil => exact ⟨0, l.depthAfter_token 0, rfl⟩
    | cons m ls => exact ⟨0, l.depthAfter_token 0, 0, rfl, ih⟩

theorem spell_rowTokens (ls : List Literal) : spell (rowTokens ls) = String.intercalate " OR " (ls.map spelling) := by
  induction ls with
  | nil => rfl
  | cons l ls ih =>
    cases ls with
    | nil => simp [rowTokens, spell, spelling_token]
    | cons m ls =>
      obtain ⟨more, hmore⟩ := exists_rowTokens_cons m ls
      have hor : " OR " = " " ++ (Token.keyword .or).spelling ++ " " := by decide
      rw [rowTokens_cons_cons, spell_cons_cons, hmore, spell_cons_cons, ← hmore, ih, spelling_token]
      simp only [List.map_cons, String.intercalate_cons_cons, hor, String.append_assoc]

end Literal

/-- A list of items, written with `OR` between them, is the text of their value. -/
theorem SpellsValue.of_items {ls : List Literal} (hne : ls ≠ []) (h : ∀ l ∈ ls, l.IsItem) :
    SpellsValue (Value.list ls).spelling (.list ls) := by
  refine .list hne ?_
  rw [← Literal.spell_rowTokens, tokenize_eq_ok_iff]
  have hlexes : Lexes 0 none (spellSpaced (Literal.rowTokens ls)) (Literal.rowTokens ls) :=
    InPlace.lexes (Literal.inPlace_rowTokens h) (Literal.closes_rowTokens ls)
  exact hlexes.of_skipBlanks_eq (skipBlanks_spell _)

theorem mapM_mapError {α β ε ε' : Type} (g : α → Except ε β) (h : ε → ε') (as : List α) :
    as.mapM (fun a => (g a).mapError h) = (as.mapM g).mapError h := by
  induction as with
  | nil => rfl
  | cons a as ih =>
    rw [List.mapM_cons, List.mapM_cons, ih]
    cases g a with
    | error e => rfl
    | ok b => cases as.mapM g <;> rfl

namespace Search

variable {s : Search} {k : String} {f : Field} {r : Relation}

/-- The condition of a list is that one of the conditions of its literals holds, and its error is the first of
theirs. -/
theorem term_list (hf : s.table.resolve k = some f) (hr : r ≠ .ne) (ls : List Literal) :
    s.term (.keyed k r (.list ls)) = (ls.mapM fun l => s.term (.keyed k r (.single l))).map Condition.anyOf := by
  have hbase : r.base = r := by
    cases r with
    | ne => exact absurd rfl hr
    | _ => rfl
  have hterm (value : Value) :
      s.term (.keyed k r value) = (f.compareValue r value).mapError (Error.invalidValue k) := by
    rw [term_of_resolve hf, hbase]
    cases f.compareValue r value with
    | error fault => rfl
    | ok c => exact congrArg Except.ok (if_neg hr)
  simp only [hterm, Field.compareValue, mapM_mapError]
  cases ls.mapM (f.compare r) <;> rfl

/-- A literal behind a key and a relation compiles as the term of the three. -/
theorem condition?_item (s : Search) (hk : IsWordText k) (r : Relation) {l : Literal} (hl : l.IsItem) :
    s.condition? (k ++ " " ++ r.symbol ++ " " ++ l.spelling) = (s.term (.keyed k r (.single l))).map some :=
  s.condition?_of_tokens trivial (tokenize_keyed_spaced hk hl.spellsValue r)

theorem condition?_item_eq_ok_iff (s : Search) (hk : IsWordText k) (r : Relation) {l : Literal} (hl : l.IsItem)
    (c : Condition) : s.condition? (k ++ " " ++ r.symbol ++ " " ++ l.spelling) = .ok (some c) ↔
      s.term (.keyed k r (.single l)) = .ok c := by
  rw [s.condition?_item hk r hl]
  cases s.term (.keyed k r (.single l)) <;> simp [Except.map]

theorem condition?_items (s : Search) (hk : IsWordText k) (r : Relation) {ls : List Literal} (hne : ls ≠ [])
    (hls : ∀ l ∈ ls, l.IsItem) :
    s.condition? (k ++ " " ++ r.symbol ++ " (" ++ String.intercalate " OR " (ls.map Literal.spelling) ++ ")") =
      (s.term (.keyed k r (.list ls))).map some := by
  have htext : k ++ " " ++ r.symbol ++ " (" ++ String.intercalate " OR " (ls.map Literal.spelling) ++ ")" =
      k ++ " " ++ r.symbol ++ " " ++ (Value.list ls).spelling := by
    rw [← String.toList_inj]
    simp [Value.spelling]
  rw [htext]
  exact s.condition?_of_tokens hne (tokenize_keyed_spaced hk (.of_items hne hls) r)

/-- **Lists distribute.** Behind a key that has a field and a relation other than `!=`, a list of values compiles
exactly if each of its values compiles behind the same key and relation. Then it gives the `OR` of their conditions in
parentheses, with their arguments one after another, and else the error of the first value that does not compile. -/
theorem condition?_alternatives (s : Search) (hk : IsWordText k) (hf : s.table.resolve k = some f) (hr : r ≠ .ne)
    {ls : List Literal} (hne : ls ≠ []) (hls : ∀ l ∈ ls, l.IsItem) :
    let items := String.intercalate " OR " (ls.map Literal.spelling)
    let whole := s.condition? (k ++ " " ++ r.symbol ++ " (" ++ items ++ ")")
    let alone := fun l : Literal => s.condition? (k ++ " " ++ r.symbol ++ " " ++ l.spelling)
    ((∃ c, whole = .ok (some c)) ↔ ∀ l ∈ ls, ∃ c, alone l = .ok (some c)) ∧
      (∀ cs : List Condition, ls.map alone = cs.map (fun c => .ok (some c)) →
        whole = .ok (some ⟨"(" ++ String.intercalate " OR " (cs.map Condition.fragment) ++ ")",
          cs.flatMap Condition.args⟩)) ∧
      ∀ before l after, ls = before ++ l :: after → (∀ m ∈ before, ∃ c, alone m = .ok (some c)) →
        (¬∃ c, alone l = .ok (some c)) → ∃ e, alone l = .error e ∧ whole = .error e := by
  intro items whole alone
  have hwhole : whole = ((ls.mapM fun l => s.term (.keyed k r (.single l))).map Condition.anyOf).map some := by
    rw [← term_list hf hr]
    exact s.condition?_items hk r hne hls
  have hok : ∀ l ∈ ls, ∀ c, alone l = .ok (some c) ↔ s.term (.keyed k r (.single l)) = .ok c := fun l hl =>
    s.condition?_item_eq_ok_iff hk r (hls l hl)
  refine ⟨⟨?_, ?_⟩, ?_, ?_⟩
  · rintro ⟨c, hc⟩ l hl
    rw [hwhole] at hc
    cases hm : ls.mapM fun l => s.term (.keyed k r (.single l)) with
    | error e => rw [hm] at hc; cases hc
    | ok cs =>
      obtain ⟨d, hd⟩ := Formula.forall_mem_of_mapM_eq_ok hm l hl
      exact ⟨d, (hok l hl d).2 hd⟩
  · intro hall
    obtain ⟨cs, hcs⟩ := Formula.exists_mapM_eq_ok fun l hl => (hall l hl).imp fun c => (hok l hl c).1
    exact ⟨.anyOf cs, by rw [hwhole, hcs]; rfl⟩
  · intro cs hcs
    rw [Formula.map_eq_map_iff_of_forall hok, ← Formula.mapM_eq_ok_iff] at hcs
    rw [hwhole, hcs]
    rfl
  · rintro before l after rfl hbefore hfails
    have hl : l ∈ before ++ l :: after := by simp
    have hterms : ∀ m ∈ before, ∃ c, s.term (.keyed k r (.single m)) = .ok c := fun m hm =>
      (hbefore m hm).imp fun c => (hok m (List.mem_append_left _ hm) c).1
    cases hterm : s.term (.keyed k r (.single l)) with
    | ok c => exact absurd ⟨c, (hok l hl c).2 hterm⟩ hfails
    | error e =>
      refine ⟨e, ?_, ?_⟩
      · simp only [alone, s.condition?_item hk r (hls l hl), hterm]
        rfl
      · rw [hwhole, Formula.mapM_append_cons_eq_error hterms hterm]
        rfl

/-- A word and a phrase of one length each compile to a number. In the other list two values do not compile, and the
error is that of the first of them. -/
theorem condition?_alternatives_durations :
    let s : Search := ⟨.traces, .reject⟩
    s.table.resolve "duration" = some (.column "Duration" true) ∧
      s.condition? "duration >= (1.5us OR \"2ms\")" =
        .ok (some ⟨"(Duration >= ? OR Duration >= ?)", ["1500", "2000000"]⟩) ∧
      s.condition? "duration >= (1s OR fast OR 1*)" =
        .error (.invalidValue "duration" (.duration "fast" .malformed)) := by
  intro s
  have hk : IsWordText "duration" := by decide +kernel
  have hf : s.table.resolve "duration" = some (.column "Duration" true) := by decide +kernel
  have hge : Relation.ge ≠ .ne := by decide
  refine ⟨hf, ?_, ?_⟩
  · have hls : ∀ l ∈ [Literal.word "1.5us", .phrase "2ms"], l.IsItem := by decide +kernel
    have hword := s.condition?_item hk .ge (hls _ List.mem_cons_self)
    have hphrase := s.condition?_item hk .ge (hls _ (List.mem_cons_of_mem _ List.mem_cons_self))
    refine (condition?_alternatives s hk hf hge (by simp) hls).2.1
      [⟨"Duration >= ?", ["1500"]⟩, ⟨"Duration >= ?", ["2000000"]⟩] ?_
    simp only [List.map_cons, List.map_nil, hword, hphrase]
    decide +kernel
  · have hls : ∀ l ∈ [Literal.word "1s", .word "fast", .word "1*"], l.IsItem := by decide +kernel
    let alone := fun l : Literal => s.condition? ("duration" ++ " " ++ Relation.ge.symbol ++ " " ++ l.spelling)
    have hbefore : ∀ m ∈ [Literal.word "1s"], ∃ c, alone m = .ok (some c) := by
      intro m hm
      obtain rfl := List.mem_singleton.1 hm
      exact ⟨⟨"Duration >= ?", ["1000000000"]⟩,
        (s.condition?_item hk .ge (hls _ List.mem_cons_self)).trans (by decide +kernel)⟩
    have hfast : alone (.word "fast") = .error (.invalidValue "duration" (.duration "fast" .malformed)) :=
      (s.condition?_item hk .ge (hls _ (List.mem_cons_of_mem _ List.mem_cons_self))).trans (by decide +kernel)
    have hfails : ¬∃ c, alone (.word "fast") = .ok (some c) := by
      rintro ⟨c, hc⟩
      rw [hfast] at hc
      cases hc
    obtain ⟨e, halone, hwhole⟩ :=
      (condition?_alternatives s hk hf hge (by simp) hls).2.2 [.word "1s"] _ [.word "1*"] rfl hbefore hfails
    obtain rfl := Except.error.inj (halone.symm.trans hfast)
    exact hwhole

end Search

end TelemetrySearch
