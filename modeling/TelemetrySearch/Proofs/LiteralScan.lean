import TelemetrySearch.Sql.Placeholder

/-!
# No argument breaks out of its literal

`scan` cuts a SQL text into `Piece`s: characters outside string literals, string literals, and the rest of a text that
ends inside one. A `?` outside the literals is a placeholder.

* A text is the text of its pieces (`flatMap_chars_scanFrom`), so a scan leaves nothing out.
* A character that is no placeholder takes the scanner on in the same way whatever follows (`scanFrom_cons`), and the
  string literal of an argument is one literal whatever follows (`scanFrom_quoteChars_append`). The scans of a text and
  of the text with its arguments put in therefore stay in step (`fill_spec`).
* Arguments can be put in exactly if there are as many as placeholders, and then the pieces stay as they are but for
  the placeholders, each of which has become a literal that spells its argument (`interpolate_scan`).
-/

namespace TelemetrySearch.Sql

/-! ## Pieces of a text -/

/-- A part of a SQL text. -/
inductive Piece where
  /-- A character outside string literals. -/
  | code (c : Char)
  /-- What stands between the quotes of a string literal. -/
  | literal (body : String)
  /-- What stands behind the opening quote of a string literal that nothing closes. -/
  | unclosed (body : String)
  deriving DecidableEq, Repr

/-- The characters of a piece. -/
def Piece.chars : Piece → List Char
  | code c => [c]
  | literal body => '\'' :: body.toList ++ ['\'']
  | unclosed body => '\'' :: body.toList

/-- Scans a text from a region of it. Outside literals a quote opens one; inside, a backslash protects the character
behind it, and a quote without protection closes the literal, of which `body` has been read so far. -/
def scanFrom : Region → List Char → List Char → List Piece
  | .code, _, [] => []
  | .literal, body, [] | .afterBackslash, body, [] => [.unclosed (String.ofList body)]
  | .code, _, c :: rest => if c = '\'' then scanFrom .literal [] rest else .code c :: scanFrom .code [] rest
  | .literal, body, c :: rest =>
    if c = '\'' then .literal (String.ofList body) :: scanFrom .code [] rest
    else if c = '\\' then scanFrom .afterBackslash (body ++ [c]) rest
    else scanFrom .literal (body ++ [c]) rest
  | .afterBackslash, body, c :: rest => scanFrom .literal (body ++ [c]) rest

/-- The pieces of a SQL text. -/
def scan (text : String) : List Piece := scanFrom .code [] text.toList

/-- The number of placeholders of a SQL text. -/
def placeholders (text : String) : Nat := (scan text).count (.code '?')

/-- `Filled ps args qs`: the pieces `qs` are `ps` with each placeholder turned into a literal that spells the argument
for it. -/
inductive Filled : List Piece → List String → List Piece → Prop
  | nil : Filled [] [] []
  | place {ps qs : List Piece} {args : List String} {arg body : String} :
      unescape body = arg → Filled ps args qs → Filled (.code '?' :: ps) (arg :: args) (.literal body :: qs)
  | keep {ps qs : List Piece} {args : List String} {p : Piece} :
      p ≠ .code '?' → Filled ps args qs → Filled (p :: ps) args (p :: qs)

theorem Filled.append_left {ps qs : List Piece} {args : List String} (h : Filled ps args qs) :
    ∀ {front : List Piece}, front.count (.code '?') = 0 → Filled (front ++ ps) args (front ++ qs)
  | [], _ => h
  | p :: front, hc => by
    have hp : p ≠ .code '?' := fun e => by simp [e] at hc
    exact .keep hp (h.append_left (by rwa [List.count_cons_of_ne hp] at hc))

/-! ## The scanner, step by step -/

/-- A character that is no placeholder gives the same pieces whatever follows it, and leaves the scanner in the region
behind it. -/
theorem scanFrom_cons (region : Region) (body : List Char) {c : Char} (h : ¬(region = .code ∧ c = '?')) :
    ∃ front body', front.count (.code '?') = 0 ∧
      ∀ cs, scanFrom region body (c :: cs) = front ++ scanFrom (region.next c) body' cs := by
  cases region with
  | code =>
    by_cases hq : c = '\''
    · exact ⟨[], [], rfl, fun cs => by simp [scanFrom, Region.next, hq]⟩
    · have hp : c ≠ '?' := fun e => h ⟨rfl, e⟩
      exact ⟨[.code c], [], by simp [hp], fun cs => by simp [scanFrom, Region.next, hq]⟩
  | literal =>
    by_cases hq : c = '\''
    · exact ⟨[.literal (String.ofList body)], [], rfl, fun cs => by simp [scanFrom, Region.next, hq]⟩
    · by_cases hb : c = '\\'
      · exact ⟨[], body ++ [c], rfl, fun cs => by simp [scanFrom, Region.next, hb]⟩
      · exact ⟨[], body ++ [c], rfl, fun cs => by simp [scanFrom, Region.next, hq, hb]⟩
  | afterBackslash => exact ⟨[], body ++ [c], rfl, fun cs => by simp [scanFrom, Region.next]⟩

/-- An escaped character stays inside the literal. -/
theorem scanFrom_escapeChar_append (c : Char) (body cs : List Char) :
    scanFrom .literal body (escapeChar c ++ cs) = scanFrom .literal (body ++ escapeChar c) cs := by
  unfold escapeChar
  split
  · simp [scanFrom]
  · next h =>
    have hq : c ≠ '\'' := by rintro rfl; simp [escapeCode?] at h
    have hb : c ≠ '\\' := by rintro rfl; simp [escapeCode?] at h
    simp [scanFrom, hq, hb]

theorem scanFrom_escapeChars_append : ∀ (arg body cs : List Char),
    scanFrom .literal body (escapeChars arg ++ cs) = scanFrom .literal (body ++ escapeChars arg) cs
  | [], body, cs => by simp [escapeChars]
  | c :: arg, body, cs => by
    have ih := scanFrom_escapeChars_append arg (body ++ escapeChar c) cs
    simp only [escapeChars, List.flatMap_cons, List.append_assoc] at ih ⊢
    rw [scanFrom_escapeChar_append, ih]

/-- **The string literal of an argument is one literal, whatever follows it.** -/
theorem scanFrom_quoteChars_append (arg : String) (body cs : List Char) :
    scanFrom .code body (quoteChars arg.toList ++ cs) = .literal (escape arg) :: scanFrom .code [] cs := by
  have h := scanFrom_escapeChars_append arg.toList [] ('\'' :: cs)
  simp only [List.nil_append] at h
  simp [quoteChars, scanFrom, h, escape]

/-- The pieces of a text spell it out again; in a literal, `body` has been read before. -/
theorem flatMap_chars_scanFrom : ∀ (cs body : List Char),
    (scanFrom .code body cs).flatMap Piece.chars = cs ∧
      (scanFrom .literal body cs).flatMap Piece.chars = '\'' :: body ++ cs ∧
      (scanFrom .afterBackslash body cs).flatMap Piece.chars = '\'' :: body ++ cs
  | [], body => by simp [scanFrom, Piece.chars]
  | c :: cs, body => by
    have ih := flatMap_chars_scanFrom cs
    refine ⟨?_, ?_, ?_⟩
    · by_cases hq : c = '\''
      · simp [scanFrom, hq, (ih []).2.1]
      · simp [scanFrom, hq, (ih []).1, Piece.chars]
    · by_cases hq : c = '\''
      · simp [scanFrom, hq, (ih []).1, Piece.chars]
      · by_cases hb : c = '\\'
        · simp [scanFrom, hb, (ih _).2.2]
        · simp [scanFrom, hq, hb, (ih _).2.1]
    · simp [scanFrom, (ih _).2.1]

/-! ## Putting arguments in -/

section Fill

variable (supplied : Nat) (args : List String) (written cs : List Char)

theorem fill_placeholder_nil : fill supplied .code [] written ('?' :: cs) = .error (.missing supplied) := by
  simp [fill]

theorem fill_placeholder_cons (arg : String) : fill supplied .code (arg :: args) written ('?' :: cs) =
    fill supplied .code args ((quoteChars arg.toList).reverse ++ written) cs := by
  simp [fill]

theorem fill_cons {region : Region} {c : Char} (h : ¬(region = .code ∧ c = '?')) :
    fill supplied region args written (c :: cs) = fill supplied (region.next c) args (c :: written) cs := by
  rw [fill.eq_def]
  exact if_neg h

end Fill

/-- What has been written stands in front of what is still to come. -/
theorem fill_written (supplied : Nat) : ∀ (cs : List Char) (region : Region) (args : List String) (written : List Char),
    fill supplied region args written cs = (fill supplied region args [] cs).map (written.reverse ++ ·)
  | [], region, args, written => by
    unfold fill
    split <;> simp [Except.map]
  | c :: cs, region, args, written => by
    by_cases hp : region = .code ∧ c = '?'
    · obtain ⟨rfl, rfl⟩ := hp
      cases args with
      | nil => simp only [fill_placeholder_nil, Except.map]
      | cons arg args =>
        rw [fill_placeholder_cons, fill_placeholder_cons, fill_written supplied cs,
          fill_written supplied cs _ _ (_ ++ [])]
        cases fill supplied .code args [] cs <;> simp [Except.map]
    · rw [fill_cons _ _ _ _ hp, fill_cons _ _ _ _ hp, fill_written supplied cs, fill_written supplied cs _ _ [c]]
      cases fill supplied (region.next c) args [] cs <;> simp [Except.map]

/-- What becomes of a text from `region` on, by its number `k` of placeholders: enough arguments fill it, and the scans
stay in step; otherwise the fault says what is wrong. -/
theorem fill_spec (supplied : Nat) : ∀ (cs : List Char) (region : Region) (body : List Char) (args : List String)
    (k : Nat), (scanFrom region body cs).count (.code '?') = k →
    (k = args.length → ∃ out, fill supplied region args [] cs = .ok out ∧
      Filled (scanFrom region body cs) args (scanFrom region body out)) ∧
    (args.length < k → fill supplied region args [] cs = .error (.missing supplied)) ∧
    (k < args.length → fill supplied region args [] cs = .error (.unused (args.length - k)))
  | [], region, body, args, k, hk => by
    have h0 : (scanFrom region body []).count (.code '?') = 0 := by cases region <;> rfl
    obtain rfl : k = 0 := hk.symm.trans h0
    refine ⟨fun hl => ?_, fun hl => absurd hl (by omega), fun hl => ?_⟩
    · obtain rfl := List.eq_nil_of_length_eq_zero hl.symm
      refine ⟨[], rfl, ?_⟩
      simpa using Filled.nil.append_left h0
    · obtain ⟨arg, args, rfl⟩ := List.exists_cons_of_length_pos hl
      rfl
  | c :: cs, region, body, args, k, hk => by
    by_cases hp : region = .code ∧ c = '?'
    · -- a placeholder: one piece and one argument less on both sides
      obtain ⟨rfl, rfl⟩ := hp
      have hs : ∀ cs, scanFrom .code body ('?' :: cs) = .code '?' :: scanFrom .code [] cs := by simp [scanFrom]
      rw [hs, List.count_cons_self] at hk
      cases args with
      | nil =>
        exact ⟨fun hl => absurd hl (by simp; omega), fun _ => fill_placeholder_nil .., fun hl => absurd hl (by simp)⟩
      | cons arg args =>
        obtain ⟨hok, hmissing, hunused⟩ := fill_spec supplied cs .code [] args (k - 1) (by omega)
        rw [fill_placeholder_cons, fill_written, List.length_cons, hs]
        refine ⟨fun hl => ?_, fun hl => ?_, fun hl => ?_⟩
        · obtain ⟨out, hout, hf⟩ := hok (by omega)
          refine ⟨quoteChars arg.toList ++ out, by rw [hout]; simp [Except.map], ?_⟩
          rw [scanFrom_quoteChars_append]
          exact .place (unescape_escape arg) hf
        · rw [hmissing (by omega)]; rfl
        · rw [hunused (by omega), show args.length + 1 - k = args.length - (k - 1) by omega]; rfl
    · obtain ⟨front, body', hfront, hs⟩ := scanFrom_cons region body hp
      rw [hs, List.count_append, hfront, Nat.zero_add] at hk
      obtain ⟨hok, hmissing, hunused⟩ := fill_spec supplied cs (region.next c) body' args k hk
      rw [fill_cons _ _ _ _ hp, fill_written, hs]
      refine ⟨fun hl => ?_, fun hl => ?_, fun hl => ?_⟩
      · obtain ⟨out, hout, hf⟩ := hok hl
        refine ⟨c :: out, by rw [hout]; rfl, ?_⟩
        rw [hs]
        exact hf.append_left hfront
      · rw [hmissing hl]; rfl
      · rw [hunused hl]; rfl

/-- **No argument breaks out of its literal.** Arguments can be put into a text exactly if there are as many as
placeholders, else the fault tells how many are missing or left over. The pieces of the result are those of the text,
but for the placeholders: each has become one closed literal, which spells the argument for it. -/
theorem interpolate_scan (text : String) (args : List String) :
    ((∃ out, interpolate text args = .ok out) ↔ placeholders text = args.length) ∧
      (∀ out, interpolate text args = .ok out → Filled (scan text) args (scan out)) ∧
      (args.length < placeholders text → interpolate text args = .error (.missing args.length)) ∧
      (placeholders text < args.length →
        interpolate text args = .error (.unused (args.length - placeholders text))) := by
  obtain ⟨hok, hmissing, hunused⟩ := fill_spec args.length text.toList .code [] args (placeholders text) rfl
  have hmiss : args.length < placeholders text → interpolate text args = .error (.missing args.length) :=
    fun hl => by rw [interpolate, hmissing hl]; rfl
  have hleft : placeholders text < args.length →
      interpolate text args = .error (.unused (args.length - placeholders text)) :=
    fun hl => by rw [interpolate, hunused hl]; rfl
  have hfill : placeholders text = args.length →
      ∃ out, interpolate text args = .ok out ∧ Filled (scan text) args (scan out) := fun hl => by
    obtain ⟨out, hout, hf⟩ := hok hl
    exact ⟨String.ofList out, by rw [interpolate, hout]; rfl, by simpa [scan] using hf⟩
  have hcount : (∃ out, interpolate text args = .ok out) → placeholders text = args.length := by
    rintro ⟨out, hout⟩
    rcases Nat.lt_trichotomy args.length (placeholders text) with hl | hl | hl
    · rw [hmiss hl] at hout; cases hout
    · exact hl.symm
    · rw [hleft hl] at hout; cases hout
  refine ⟨⟨hcount, fun hl => ?_⟩, fun out hout => ?_, hmiss, hleft⟩
  · obtain ⟨out, hout, -⟩ := hfill hl
    exact ⟨out, hout⟩
  · obtain ⟨out', hout', hf⟩ := hfill (hcount ⟨out, hout⟩)
    rw [hout] at hout'
    cases hout'
    exact hf

end TelemetrySearch.Sql
