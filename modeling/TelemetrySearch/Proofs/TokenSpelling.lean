import TelemetrySearch.Proofs.Lexing

/-!
# The lists of tokens that texts have

`WellFormed` says of a list of tokens, without looking at a text, that its parentheses are balanced and that each token
can stand between its neighbours. `spell` writes the tokens with a space between each two.

* A token that is read fits to its neighbours (`Reads.fits`), and a token that fits is read from its spelling
  (`Reads.of_fits`), whatever follows behind a space.
* Hence the tokens of every text are well-formed, and the spelling of well-formed tokens has just these tokens
  (`tokenize_image`).
-/

namespace TelemetrySearch

/-! ## Well-formed tokens -/

/-- A text that can be a value: it is not empty, and no blank, parenthesis or double quote stands in it. -/
def IsValueText (text : String) : Prop :=
  text ≠ "" ∧ ∀ c ∈ text.toList, isBlank c = false ∧ c ∉ ['(', ')', '"']

/-- A text that can be a word elsewhere: no character of a relation stands in it either, `!` apart. -/
def IsWordText (text : String) : Prop :=
  IsValueText text ∧ ∀ c ∈ text.toList, c ∉ ['=', ':', '<', '>']

/-- The text is `and` or `or` in some case. -/
def SpellsKeyword (text : String) : Prop := text.toLower = "and" ∨ text.toLower = "or"

instance (text : String) : Decidable (IsValueText text) := @instDecidableAnd _ _ _ (List.decidableBAll _ _)

instance (text : String) : Decidable (IsWordText text) := @instDecidableAnd _ _ _ (List.decidableBAll _ _)

instance (text : String) : Decidable (SpellsKeyword text) := inferInstanceAs (Decidable (_ ∨ _))

/-- Whether the token can stand where it does: `behind` tells if a relation stands right before it, `ahead` if one
stands right behind it. -/
def Token.Fits (behind ahead : Bool) : Token → Prop
  | .word text => if behind then IsValueText text else IsWordText text ∧ (SpellsKeyword text → ahead = true)
  | .phrase text => '"' ∉ text.toList
  | .leftParen => True
  | .rightParen | .relation _ => behind = false
  | .keyword _ => behind = false ∧ ahead = false

instance (behind ahead : Bool) : (token : Token) → Decidable (token.Fits behind ahead)
  | .word text => inferInstanceAs (Decidable (if behind then IsValueText text else _ ∧ _))
  | .phrase _ => inferInstanceAs (Decidable (¬_))
  | .leftParen => inferInstanceAs (Decidable True)
  | .rightParen | .relation _ => inferInstanceAs (Decidable (_ = _))
  | .keyword _ => inferInstanceAs (Decidable (_ ∧ _))

/-- Each of the tokens fits to its neighbours, and the last one is no relation. -/
def InPlace (behind : Bool) : List Token → Prop
  | [] => behind = false
  | token :: rest => token.Fits behind (startsWithRelation rest) ∧ InPlace token.pending.isSome rest

instance decidableInPlace (behind : Bool) : (tokens : List Token) → Decidable (InPlace behind tokens)
  | [] => inferInstanceAs (Decidable (_ = _))
  | _ :: rest => @instDecidableAnd _ _ _ (decidableInPlace _ rest)

/-- The parentheses are balanced, and each token fits to its neighbours. -/
structure WellFormed (tokens : List Token) : Prop where
  nested : ∀ n, (tokens.take n).count .rightParen ≤ (tokens.take n).count .leftParen
  closed : tokens.count .rightParen = tokens.count .leftParen
  inPlace : InPlace false tokens

/-! ### Balanced parentheses -/

/-- The tokens close `depth` parentheses and all that they open. -/
def Closes (depth : Nat) : List Token → Prop
  | [] => depth = 0
  | token :: rest => ∃ depth', token.depthAfter depth = some depth' ∧ Closes depth' rest

theorem forall_take_cons {token : Token} {tokens : List Token} {depth : Nat} :
    (∀ n, ((token :: tokens).take n).count .rightParen ≤ depth + ((token :: tokens).take n).count .leftParen) ↔
      ∀ n, (token :: tokens.take n).count .rightParen ≤ depth + (token :: tokens.take n).count .leftParen := by
  constructor
  · intro h n
    exact h (n + 1)
  · intro h n
    cases n with
    | zero => exact Nat.zero_le _
    | succ n => exact h n

theorem closes_iff {depth : Nat} {tokens : List Token} :
    Closes depth tokens ↔
      (∀ n, (tokens.take n).count .rightParen ≤ depth + (tokens.take n).count .leftParen) ∧
        tokens.count .rightParen = depth + tokens.count .leftParen := by
  induction tokens generalizing depth with
  | nil => simp [Closes, eq_comm]
  | cons token tokens ih =>
    rw [forall_take_cons]
    cases token with
    | leftParen =>
      simp only [Closes, Token.depthAfter, Option.some.injEq, exists_eq_left', ih]
      simp [Nat.add_assoc, Nat.add_comm 1]
    | rightParen =>
      cases depth with
      | zero =>
        constructor
        · rintro ⟨_, h, -⟩
          cases h
        · -- the first token already is a `)` too many
          rintro ⟨h, -⟩
          simpa using h 0
      | succ depth =>
        simp only [Closes, Token.depthAfter, Nat.add_one_ne_zero, if_false, Nat.add_sub_cancel, Option.some.injEq,
          exists_eq_left', ih]
        simp [Nat.add_right_comm]
    | _ => simp [Closes, Token.depthAfter, ih]

theorem Lexes.closes {depth : Nat} {pending : Option Relation} {cs : List Char} {tokens : List Token}
    (h : Lexes depth pending cs tokens) : Closes depth tokens := by
  induction h with
  | nil => rfl
  | cons _ hd _ ih => exact ⟨_, hd, ih⟩

theorem wellFormed_iff {tokens : List Token} : WellFormed tokens ↔ Closes 0 tokens ∧ InPlace false tokens := by
  rw [closes_iff]
  simp only [Nat.zero_add]
  exact ⟨fun h => ⟨⟨h.nested, h.closed⟩, h.inPlace⟩, fun h => ⟨h.1.1, h.1.2, h.2⟩⟩

/-! ## Texts of words -/

theorem isValueChar_eq_true_iff {c : Char} :
    isValueChar c = true ↔ isBlank c = false ∧ c ∉ ['(', ')', '"'] := by
  simp [isValueChar, isBracket, and_assoc]

theorem isValueText_iff {text : String} :
    IsValueText text ↔ text.toList ≠ [] ∧ ∀ c ∈ text.toList, isValueChar c = true := by
  simp only [IsValueText, isValueChar_eq_true_iff, ne_eq, String.toList_eq_nil_iff]

theorem keyword?_eq_none_iff {text : String} : keyword? text.toList = none ↔ ¬SpellsKeyword text := by
  have hlower : text.toLower.toList = text.toList.map Char.toLower := String.toList_map
  have hand : text.toLower = "and" ↔ text.toList.map Char.toLower = ['a', 'n', 'd'] := by
    rw [← String.toList_inj, hlower]
    rfl
  have hor : text.toLower = "or" ↔ text.toList.map Char.toLower = ['o', 'r'] := by
    rw [← String.toList_inj, hlower]
    rfl
  rw [SpellsKeyword, hand, hor, keyword?]
  split <;> simp_all

/-- What is read as a bare word has no character of a relation in it, `!` apart. -/
theorem mem_spanWord {cs text rest : List Char} (h : spanWord cs = (text, rest)) :
    ∀ c ∈ text, isValueChar c = true ∧ c ∉ ['=', ':', '<', '>'] := by
  induction cs generalizing text with
  | nil => cases h; exact List.forall_mem_nil _
  | cons d cs ih =>
    rw [spanWord] at h
    split at h
    · next hd =>
      cases h
      simp only [Bool.and_eq_true, Option.isNone_iff_eq_none] at hd
      exact List.forall_mem_cons.2 ⟨⟨hd.1, (relation?_cons_eq_none_iff.1 hd.2).1⟩, ih (Prod.ext rfl rfl)⟩
    · cases h; exact List.forall_mem_nil _

theorem spanWord_eq_self {text : List Char} (h : ∀ c ∈ text, isValueChar c = true ∧ c ∉ ['=', ':', '<', '>']) :
    spanWord text = (text, []) := by
  induction text with
  | nil => rfl
  | cons c text ih =>
    obtain ⟨⟨hvalue, hc⟩, htext⟩ := List.forall_mem_cons.1 h
    have hbang : c = '!' → ∀ rest, text ≠ '=' :: rest := by
      rintro - rest rfl
      exact (htext '=' List.mem_cons_self).2 (by simp)
    rw [spanWord, hvalue, relation?_cons_eq_none_iff.2 ⟨hc, hbang⟩, ih htext]
    rfl

/-! ## Tokens that fit are the tokens that are read -/

/-- A token that is read fits to what stands before and behind it. -/
theorem Reads.fits {pending : Option Relation} {cs rest : List Char} {token : Token}
    (h : Reads pending cs token rest) : token.Fits pending.isSome (relation? (skipBlanks rest)).isSome := by
  cases h with
  | leftParen => trivial
  | rightParen => rfl
  | phrase _ _ htext => simpa [Token.Fits] using htext
  | value r hne hall _ => simpa [Token.Fits, isValueText_iff] using ⟨hne, hall⟩
  | relation => rfl
  | @word _ text _ hs hne =>
    have hchars := mem_spanWord hs
    have hword : IsWordText (String.ofList text) := by
      refine ⟨isValueText_iff.2 ?_, ?_⟩
      · simpa using ⟨hne, fun c hc => (hchars c hc).1⟩
      · simpa using fun c hc => (hchars c hc).2
    have hkeyword : keyword? text = none ↔ ¬SpellsKeyword (String.ofList text) := by
      rw [← keyword?_eq_none_iff, String.toList_ofList]
    unfold wordToken
    split
    · next c hc =>
      split
      · next hnone => exact ⟨rfl, by simpa using hnone⟩
      · next hsome => exact ⟨hword, fun _ => by simpa [Option.isSome_iff_ne_none] using hsome⟩
    · next hnone => exact ⟨hword, fun hspells => absurd hspells (hkeyword.1 hnone)⟩

theorem wordToken_keyword (c : Connective) {rest : List Char} (h : relation? (skipBlanks rest) = none) :
    wordToken c.keyword.toList rest = .keyword c := by
  have hkeyword : keyword? c.keyword.toList = some c := by cases c <;> decide
  rw [wordToken, hkeyword, h]
  rfl

theorem wordToken_eq_word {text : String} {rest : List Char}
    (h : SpellsKeyword text → (relation? (skipBlanks rest)).isSome = true) :
    wordToken text.toList rest = .word text := by
  unfold wordToken
  split
  · next c hc =>
    have hspells : SpellsKeyword text := by
      refine Decidable.byContradiction fun hn => ?_
      rw [keyword?_eq_none_iff.2 hn] at hc
      cases hc
    rw [if_neg (by simpa [Option.isSome_iff_ne_none] using h hspells), String.ofList_toList]
  · rw [String.ofList_toList]

/-- The token as a query writes it. -/
def Token.spelling : Token → String
  | .word text => text
  | .phrase text => "\"" ++ text ++ "\""
  | .relation r => r.symbol
  | .leftParen => "("
  | .rightParen => ")"
  | .keyword c => c.keyword

/-- A token that fits is read from its spelling. -/
theorem Reads.of_fits {pending : Option Relation} {rest : List Char} {token : Token}
    (h : token.Fits pending.isSome (relation? (skipBlanks rest)).isSome)
    (hrest : ∀ c ∈ rest.head?, isValueChar c = false) :
    Reads pending (token.spelling.toList ++ rest) token rest := by
  cases token with
  | leftParen => exact .leftParen pending rest
  | rightParen =>
    obtain rfl : pending = none := by simpa [Token.Fits] using h
    exact .rightParen rest
  | phrase text => simpa [Token.spelling] using Reads.phrase pending rest h
  | relation r =>
    obtain rfl : pending = none := by simpa [Token.Fits] using h
    refine .relation ?_
    cases r <;> rw [relation?_append hrest (by decide)] <;> rfl
  | keyword c =>
    obtain ⟨hpending, hahead⟩ : pending.isSome = false ∧ (relation? (skipBlanks rest)).isSome = false := h
    obtain rfl : pending = none := by simpa using hpending
    have hself : spanWord c.keyword.toList = (c.keyword.toList, []) := by cases c <;> rfl
    have hs : spanWord (c.keyword.toList ++ rest) = (c.keyword.toList, rest) := by
      rw [spanWord_append_right hrest, hself]
      rfl
    have hread := Reads.word hs (by cases c <;> decide)
    rwa [wordToken_keyword c (by simpa using hahead)] at hread
  | word text =>
    cases pending with
    | some r =>
      obtain ⟨hne, hall⟩ := isValueText_iff.1 h
      simpa [Token.spelling] using Reads.value r hne hall hrest
    | none =>
      obtain ⟨⟨hvalue, hchars⟩, hkeyword⟩ : IsWordText text ∧ _ := h
      obtain ⟨hne, hall⟩ := isValueText_iff.1 hvalue
      have hs : spanWord (text.toList ++ rest) = (text.toList, rest) := by
        rw [spanWord_append_right hrest, spanWord_eq_self fun c hc => ⟨hall c hc, hchars c hc⟩]
        rfl
      have hread := Reads.word hs hne
      rwa [wordToken_eq_word hkeyword] at hread

/-- Blanks stand before no token. -/
theorem Reads.skipBlanks_eq {pending : Option Relation} {cs rest : List Char} {token : Token}
    (h : Reads pending cs token rest) : skipBlanks cs = cs := by
  have hvalue : ∀ {c : Char} {cs : List Char}, isValueChar c = true → skipBlanks (c :: cs) = c :: cs := by
    intro c cs hc
    have hblank := (isValueChar_eq_true_iff.1 hc).1
    rw [skipBlanks, List.dropWhile_cons_of_neg (by simp [hblank])]
  cases h with
  | leftParen => rfl
  | rightParen => rfl
  | phrase => rfl
  | @value _ text _ hne hall _ =>
    obtain ⟨c, text, rfl⟩ := List.exists_cons_of_ne_nil hne
    exact hvalue (hall c List.mem_cons_self)
  | relation hr =>
    obtain ⟨c, cs, rfl, hc⟩ := isValueChar_of_relation? hr
    exact hvalue hc
  | word hs hne =>
    obtain ⟨c, cs, rfl, hc, -⟩ := exists_of_spanWord hs hne
    exact hvalue hc

/-! ## Whole texts -/

/-- What stands right behind a token in the text and in the list is the same, so far as the token cares. -/
theorem Lexes.fits_iff {depth : Nat} {token : Token} {cs : List Char} {tokens : List Token}
    (h : Lexes depth token.pending cs tokens) (behind : Bool) :
    token.Fits behind (relation? (skipBlanks cs)).isSome ↔ token.Fits behind (startsWithRelation tokens) := by
  cases token with
  | relation r => exact Iff.rfl
  | _ => rw [Lexes.isSome_relation? h]

theorem Lexes.inPlace {depth : Nat} {pending : Option Relation} {cs : List Char} {tokens : List Token}
    (h : Lexes depth pending cs tokens) : InPlace pending.isSome tokens := by
  induction h with
  | nil => rfl
  | cons hl _ hrest ih => exact ⟨(hrest.fits_iff _).1 (lexeme_eq_ok_iff.1 hl).fits, ih⟩

/-- The tokens, a space before each. -/
def spellSpaced (tokens : List Token) : List Char := tokens.flatMap fun token => ' ' :: token.spelling.toList

theorem head?_spellSpaced (tokens : List Token) : ∀ c ∈ (spellSpaced tokens).head?, isValueChar c = false := by
  cases tokens with
  | nil => simp [spellSpaced]
  | cons token tokens => simp [spellSpaced, isValueChar, isBlank]

theorem InPlace.lexes {tokens : List Token} : ∀ {depth : Nat} {pending : Option Relation},
    InPlace pending.isSome tokens → Closes depth tokens → Lexes depth pending (spellSpaced tokens) tokens := by
  induction tokens with
  | nil =>
    intro depth pending hp hc
    obtain rfl : depth = 0 := hc
    obtain rfl : pending = none := by simpa [InPlace] using hp
    exact .nil rfl
  | cons token tokens ih =>
    rintro depth pending ⟨hfits, hp⟩ ⟨depth', hd, hc⟩
    have hrest := ih hp hc
    have hread := Reads.of_fits ((hrest.fits_iff _).2 hfits) (head?_spellSpaced tokens)
    have hskip : skipBlanks (spellSpaced (token :: tokens)) = token.spelling.toList ++ spellSpaced tokens :=
      hread.skipBlanks_eq
    refine .cons ?_ hd hrest
    rw [hskip]
    exact lexeme_eq_ok_iff.2 hread

/-- The tokens with a space between each two. -/
def spell (tokens : List Token) : String := String.intercalate " " (tokens.map Token.spelling)

theorem spell_cons_cons (token next : Token) (tokens : List Token) :
    spell (token :: next :: tokens) = token.spelling ++ " " ++ spell (next :: tokens) := by
  simp only [spell, List.map_cons, String.intercalate_cons_cons]

theorem spellSpaced_cons (token : Token) (tokens : List Token) :
    spellSpaced (token :: tokens) = ' ' :: (spell (token :: tokens)).toList := by
  induction tokens generalizing token with
  | nil => simp [spellSpaced, spell]
  | cons next tokens ih =>
    have hspaced : spellSpaced (token :: next :: tokens) =
        ' ' :: token.spelling.toList ++ spellSpaced (next :: tokens) := by
      simp only [spellSpaced, List.flatMap_cons]
    rw [hspaced, ih, spell_cons_cons]
    simp

theorem skipBlanks_spell (tokens : List Token) :
    skipBlanks (spell tokens).toList = skipBlanks (spellSpaced tokens) := by
  cases tokens with
  | nil => rfl
  | cons token tokens => rw [spellSpaced_cons]; rfl

/-- **The lists of tokens that texts have are the well-formed ones.** The tokens of a text are well-formed; well-formed
tokens, written with a space between each two, are the tokens of what is written. -/
theorem tokenize_image (tokens : List Token) :
    (∀ query, tokenize query = .ok tokens → WellFormed tokens) ∧
      (WellFormed tokens → tokenize (spell tokens) = .ok tokens) := by
  constructor
  · intro query h
    rw [tokenize_eq_ok_iff] at h
    exact wellFormed_iff.2 ⟨h.closes, h.inPlace⟩
  · intro h
    obtain ⟨hc, hp⟩ := wellFormed_iff.1 h
    have hlexes : Lexes 0 none (spellSpaced tokens) tokens := InPlace.lexes hp hc
    rw [tokenize_eq_ok_iff]
    exact hlexes.of_skipBlanks_eq (skipBlanks_spell tokens)

/-- A keyword as a key and as a value, and a value that starts like a relation. A relation behind a keyword is in no
text. -/
theorem tokenize_image_neighbours :
    tokenize "OR >= =!x ( \"a (\" AND b! != or )" =
        .ok [.word "OR", .relation .ge, .word "=!x", .leftParen, .phrase "a (", .keyword .and, .word "b!",
          .relation .ne, .word "or", .rightParen] ∧
      ∀ query, tokenize query ≠ .ok [.keyword .or, .relation .ge, .word "=!x"] := by
  constructor
  · let tokens : List Token :=
      [.word "OR", .relation .ge, .word "=!x", .leftParen, .phrase "a (", .keyword .and, .word "b!", .relation .ne,
        .word "or", .rightParen]
    have hspell : spell tokens = "OR >= =!x ( \"a (\" AND b! != or )" := by
      simp [tokens, spell, Token.spelling, Relation.symbol, Connective.keyword]
    have hformed : WellFormed tokens := wellFormed_iff.2 ⟨by simp [tokens, Closes, Token.depthAfter], by decide +kernel⟩
    rw [← hspell]
    exact (tokenize_image tokens).2 hformed
  · intro query h
    have hp := ((tokenize_image _).1 query h).inPlace
    revert hp
    decide

end TelemetrySearch
