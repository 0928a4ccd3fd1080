import Mathlib.Algebra.Order.Ring.Rat
import Mathlib.Data.List.DropRight
import Mathlib.Data.Nat.Digits.Defs
import Mathlib.Tactic.FieldSimp
import Mathlib.Tactic.Ring
import TelemetrySearch.Proofs.Lexing
import TelemetrySearch.Search

/-!
# The value of a duration

A duration is written in decimal, so it has an exact value in nanoseconds, a rational number. Values are cut at no
place: they are turned into numerals if they are whole and fit into 64 bits, and refused otherwise.

* `Duration.Spells d cs`: the characters `cs` are the digits, the point and the unit of `d`. Reading is the inverse of
  spelling (`ofChars?_eq_some_iff`).
* `Duration.amount d`: the exact number in front of the unit. `nanos?_eq_some_iff` compares it with what is computed;
  that more than nine digits behind the point cannot be whole is `dvd_of_mul_factor_eq`.
* `Duration.wordNanos`: the same computation on words of 128 bits, in which an operation without a check can stop the
  program. It never does (`wordNanos_eq`).
-/

namespace TelemetrySearch

/-! ## Decimal digits -/

/-- The digits as numbers, the last one first. -/
def digitValues (digits : List Char) : List ℕ := digits.reverse.map fun c => c.toNat - '0'.toNat

theorem decimalValue_eq_ofDigits (digits : List Char) : decimalValue digits = Nat.ofDigits 10 (digitValues digits) := by
  rw [decimalValue, Nat.ofDigits_eq_foldr, digitValues, List.map_reverse, List.foldr_reverse, List.foldl_map]
  simp only [Nat.add_comm, Nat.cast_id]

theorem decimalValue_append (front back : List Char) :
    decimalValue (front ++ back) = decimalValue front * 10 ^ back.length + decimalValue back := by
  simp only [decimalValue_eq_ofDigits, digitValues, List.reverse_append, List.map_append, Nat.ofDigits_append,
    List.length_map, List.length_reverse]
  ring

theorem decimalValue_concat (front : List Char) (c : Char) :
    decimalValue (front ++ [c]) = decimalValue front * 10 + (c.toNat - '0'.toNat) := by
  rw [decimalValue_append]
  simp [decimalValue]

theorem toNat_of_isDigit {c : Char} (h : c.isDigit = true) : '0'.toNat ≤ c.toNat ∧ c.toNat < '0'.toNat + 10 := by
  have hbounds : '0'.toNat ≤ c.toNat ∧ c.toNat ≤ '9'.toNat := by
    simpa [Char.isDigit, UInt32.le_iff_toNat_le] using h
  exact ⟨hbounds.1, Nat.lt_succ_of_le hbounds.2⟩

theorem decimalValue_lt {digits : List Char} (h : ∀ c ∈ digits, c.isDigit = true) :
    decimalValue digits < 10 ^ digits.length := by
  have hlt : ∀ n ∈ digitValues digits, n < 10 := by
    intro n hn
    obtain ⟨c, hc, rfl⟩ := List.mem_map.1 hn
    have hdigit := toNat_of_isDigit (h c (List.mem_reverse.1 hc))
    omega
  rw [decimalValue_eq_ofDigits]
  exact (Nat.ofDigits_lt_base_pow_length (by omega) hlt).trans_eq (by simp [digitValues])

theorem decimalValue_replicate (k : Nat) : decimalValue (List.replicate k '0') = 0 := by
  rw [decimalValue_eq_ofDigits, digitValues, List.reverse_replicate, List.map_replicate]
  exact Nat.ofDigits_replicate_zero

/-! ## Numerals -/

/-- The text is the numeral of `n`: digits with that value, the first of them not a zero unless it is the only one. -/
structure IsNumeral (n : ℕ) (text : String) : Prop where
  ne_nil : text.toList ≠ []
  isDigit : ∀ c ∈ text.toList, c.isDigit = true
  value : Nat.ofDigits 10 (digitValues text.toList) = n
  eq_zero : text.toList.head? = some '0' → text = "0"

theorem toNat_digitChar {n : Nat} (h : n < 10) : n.digitChar.toNat - '0'.toNat = n := by
  revert n
  decide

theorem decimalValue_toDigits (n : Nat) : decimalValue (Nat.toDigits 10 n) = n := by
  induction n using Nat.strongRecOn with
  | _ n ih =>
    by_cases hn : n < 10
    · rw [Nat.toDigits_of_lt_base hn, ← List.nil_append [n.digitChar], decimalValue_concat, toNat_digitChar hn]
      exact Nat.zero_add n
    · rw [Nat.toDigits_of_base_le (by omega) (by omega), decimalValue_concat, ih _ (by omega),
        toNat_digitChar (Nat.mod_lt n (by omega))]
      omega

theorem head?_toDigits_ne {n : Nat} (h : 0 < n) : (Nat.toDigits 10 n).head? ≠ some '0' := by
  induction n using Nat.strongRecOn with
  | _ n ih =>
    by_cases hn : n < 10
    · have hchar : ∀ n < 10, 0 < n → n.digitChar ≠ '0' := by decide
      rw [Nat.toDigits_of_lt_base hn]
      simpa using hchar n hn h
    · rw [Nat.toDigits_of_base_le (by omega) (by omega), List.head?_append_of_ne_nil _ Nat.toDigits_ne_nil]
      exact ih _ (by omega) (by omega)

theorem isNumeral_toString (n : ℕ) : IsNumeral n (toString n) := by
  have hdigits : (toString n).toList = Nat.toDigits 10 n := by
    rw [Nat.toString_eq_ofList_toDigits, String.toList_ofList]
  refine ⟨?_, ?_, ?_, ?_⟩
  · rw [hdigits]
    exact Nat.toDigits_ne_nil
  · rw [hdigits]
    exact fun c => Nat.isDigit_of_mem_toDigits (by omega) (by omega)
  · rw [hdigits, ← decimalValue_eq_ofDigits, decimalValue_toDigits]
  · intro hhead
    rw [hdigits] at hhead
    rcases Nat.eq_zero_or_pos n with rfl | hpos
    · rfl
    · exact absurd hhead (head?_toDigits_ne hpos)

/-! ## Reading and spelling -/

namespace DurationUnit

/-- The factor is a power of ten, of at most nine zeros. -/
theorem exists_factor_eq (unit : DurationUnit) : ∃ e, unit.factor = 10 ^ e ∧ e ≤ 9 := by
  cases unit with
  | nanoseconds => exact ⟨0, rfl, by omega⟩
  | microseconds => exact ⟨3, rfl, by omega⟩
  | milliseconds => exact ⟨6, rfl, by omega⟩
  | seconds => exact ⟨9, rfl, by omega⟩

theorem factor_pos (unit : DurationUnit) : 0 < unit.factor := by cases unit <;> decide

theorem factor_le (unit : DurationUnit) : unit.factor ≤ 10 ^ 9 := by cases unit <;> decide

/-- What the unit is written as. -/
def symbol : DurationUnit → List Char
  | nanoseconds => ['n', 's']
  | microseconds => ['u', 's']
  | milliseconds => ['m', 's']
  | seconds => ['s']

theorem ofChars?_eq_some_iff {cs : List Char} {unit : DurationUnit} : ofChars? cs = some unit ↔ cs = unit.symbol := by
  constructor
  · intro h
    unfold ofChars? at h
    split at h <;> cases h <;> rfl
  · rintro rfl
    cases unit <;> rfl

theorem isDigit_head?_symbol (unit : DurationUnit) : ∀ c ∈ unit.symbol.head?, c.isDigit = false := by
  intro c hc
  cases unit <;> cases hc <;> rfl

end DurationUnit

namespace Duration

/-- What is written behind the digits. -/
def ending (unit : Option DurationUnit) : List Char := unit.elim [] DurationUnit.symbol

/-- The characters of the duration. -/
def chars (d : Duration) : List Char :=
  d.whole ++ (if d.fraction = [] then ending d.unit else '.' :: (d.fraction ++ ending d.unit))

/-- The characters `cs` are `digits`, or `digits.digits`, and the unit if there is one. -/
structure Spells (d : Duration) (cs : List Char) : Prop where
  whole_ne_nil : d.whole ≠ []
  whole_isDigit : ∀ c ∈ d.whole, c.isDigit = true
  fraction_isDigit : ∀ c ∈ d.fraction, c.isDigit = true
  eq_chars : cs = d.chars

instance (d : Duration) (cs : List Char) : Decidable (d.Spells cs) :=
  decidable_of_iff
    (d.whole ≠ [] ∧ d.whole.all Char.isDigit = true ∧ d.fraction.all Char.isDigit = true ∧ cs = d.chars)
    ⟨fun h => ⟨h.1, List.all_eq_true.1 h.2.1, List.all_eq_true.1 h.2.2.1, h.2.2.2⟩,
      fun h => ⟨h.whole_ne_nil, List.all_eq_true.2 h.whole_isDigit, List.all_eq_true.2 h.fraction_isDigit, h.eq_chars⟩⟩

theorem isDigit_head?_ending (unit : Option DurationUnit) : ∀ c ∈ (ending unit).head?, c.isDigit = false := by
  cases unit with
  | none => exact fun c hc => nomatch hc
  | some unit => exact unit.isDigit_head?_symbol

theorem withUnit?_eq_some_iff {whole fraction cs : List Char} {d : Duration} :
    withUnit? whole fraction cs = some d ↔ d.whole = whole ∧ d.fraction = fraction ∧ cs = ending d.unit := by
  obtain ⟨whole', fraction', unit⟩ := d
  cases cs with
  | nil =>
    cases unit with
    | none => simp [withUnit?, ending, eq_comm]
    | some unit => cases unit <;> simp [withUnit?, ending, DurationUnit.symbol]
  | cons c cs =>
    cases unit with
    | none => simp [withUnit?, ending]
    | some unit =>
      rw [withUnit?.eq_def, Option.map_eq_some_iff]
      constructor
      · rintro ⟨unit, hunit, heq⟩
        cases heq
        exact ⟨rfl, rfl, DurationUnit.ofChars?_eq_some_iff.1 hunit⟩
      · rintro ⟨rfl, rfl, hunit⟩
        exact ⟨unit, DurationUnit.ofChars?_eq_some_iff.2 hunit, rfl⟩

theorem spells_of_ofChars? {cs : List Char} {d : Duration} (h : ofChars? cs = some d) : d.Spells cs := by
  have hcs := List.takeWhile_append_dropWhile (p := Char.isDigit) (l := cs)
  have hdigits : ∀ c ∈ cs.takeWhile Char.isDigit, c.isDigit = true := fun c => List.mem_takeWhile_imp
  unfold ofChars? at h
  simp only [List.isEmpty_iff] at h
  split at h
  · cases h
  · next hwhole =>
    split at h
    · next rest hrest =>
      have hfraction : ∀ c ∈ rest.takeWhile Char.isDigit, c.isDigit = true := fun c => List.mem_takeWhile_imp
      split at h
      · cases h
      · next hne =>
        obtain ⟨hw, hf, hu⟩ := withUnit?_eq_some_iff.1 h
        refine ⟨hw ▸ hwhole, hw ▸ hdigits, hf ▸ hfraction, ?_⟩
        rw [chars, hw, hf, if_neg hne, ← hu, List.takeWhile_append_dropWhile, ← hrest, hcs]
    · obtain ⟨hw, hf, hu⟩ := withUnit?_eq_some_iff.1 h
      refine ⟨hw ▸ hwhole, hw ▸ hdigits, ?_, ?_⟩
      · rw [hf]
        exact fun c hc => nomatch hc
      · rw [chars, hw, if_pos hf, ← hu, hcs]

theorem ending_ne_point (unit : Option DurationUnit) (rest : List Char) : ending unit ≠ '.' :: rest := by
  cases unit with
  | none => simp [ending]
  | some unit => cases unit <;> simp [ending, DurationUnit.symbol]

theorem ofChars?_of_spells {cs : List Char} {d : Duration} (h : d.Spells cs) : ofChars? cs = some d := by
  obtain ⟨hne, hwhole, hfraction, rfl⟩ := h
  have hending := isDigit_head?_ending d.unit
  rw [chars]
  by_cases hf : d.fraction = []
  · obtain ⟨htake, hdrop⟩ := takeWhile_append_of_head hwhole hending
    rw [if_pos hf, ofChars?, htake, hdrop]
    simp only [List.isEmpty_iff, if_neg hne]
    split
    · next rest hrest => exact absurd hrest (ending_ne_point d.unit rest)
    · exact withUnit?_eq_some_iff.2 ⟨rfl, hf, rfl⟩
  · have hpoint : ∀ c ∈ ('.' :: (d.fraction ++ ending d.unit)).head?, c.isDigit = false := by
      rintro c ⟨⟩
      rfl
    obtain ⟨htake, hdrop⟩ := takeWhile_append_of_head hwhole hpoint
    obtain ⟨htake', hdrop'⟩ := takeWhile_append_of_head hfraction hending
    rw [if_neg hf, ofChars?, htake, hdrop]
    simp only [List.isEmpty_iff, if_neg hne, htake', if_neg hf, hdrop']
    exact withUnit?_eq_some_iff.2 ⟨rfl, rfl, rfl⟩

theorem ofChars?_eq_some_iff {cs : List Char} {d : Duration} : ofChars? cs = some d ↔ d.Spells cs :=
  ⟨spells_of_ofChars?, ofChars?_of_spells⟩

/-! ## The digits behind the point -/

theorem exists_eq_trimZeros_append (digits : List Char) : ∃ k, digits = trimZeros digits ++ List.replicate k '0' := by
  refine ⟨(digits.rtakeWhile (· == '0')).length, ?_⟩
  have hzeros : digits.rtakeWhile (· == '0') = List.replicate (digits.rtakeWhile (· == '0')).length '0' :=
    List.eq_replicate_iff.2 ⟨rfl, fun c hc => by simpa using List.mem_rtakeWhile_imp hc⟩
  rw [← hzeros]
  exact List.rdropWhile_append_rtakeWhile.symm

theorem isDigit_of_mem_trimZeros {digits : List Char} (h : ∀ c ∈ digits, c.isDigit = true) :
    ∀ c ∈ trimZeros digits, c.isDigit = true :=
  fun c hc => h c ((List.rdropWhile_prefix (· == '0') digits).mem hc)

/-- A row of digits that does not end in a zero is no multiple of ten. -/
theorem not_dvd_decimalValue_trimZeros {digits : List Char} (h : ∀ c ∈ digits, c.isDigit = true)
    (hne : trimZeros digits ≠ []) : ¬10 ∣ decimalValue (trimZeros digits) := by
  have hdigit := toNat_of_isDigit (isDigit_of_mem_trimZeros h _ (List.getLast_mem hne))
  have hlast : ((trimZeros digits).getLast hne).toNat ≠ '0'.toNat := by
    intro heq
    apply List.rdropWhile_last_not (· == '0') digits hne
    exact beq_iff_eq.2 (Char.toNat_inj.1 heq)
  have hvalue := congrArg decimalValue (List.dropLast_append_getLast hne)
  rw [decimalValue_concat] at hvalue
  omega

/-- The zeros at the end of a fraction do not change its value. -/
theorem decimalValue_mul_eq_iff (fraction : List Char) (m n : Nat) :
    decimalValue fraction * m = n * 10 ^ fraction.length ↔
      decimalValue (trimZeros fraction) * m = n * 10 ^ (trimZeros fraction).length := by
  obtain ⟨k, hk⟩ := exists_eq_trimZeros_append fraction
  have hpos : 0 < 10 ^ k := Nat.pow_pos (by omega)
  have hvalue : decimalValue fraction = decimalValue (trimZeros fraction) * 10 ^ k := by
    rw [hk, decimalValue_append, decimalValue_replicate, List.length_replicate, ← hk]
    rfl
  have hlength : fraction.length = (trimZeros fraction).length + k := by
    rw [hk, List.length_append, List.length_replicate, ← hk]
  rw [hvalue, hlength, Nat.pow_add, Nat.mul_right_comm, ← Nat.mul_assoc]
  exact Nat.mul_right_cancel_iff hpos

/-- More digits behind the point than the factor has zeros: a whole number would end in a zero. -/
theorem dvd_of_mul_factor_eq {value n l : Nat} {unit : DurationUnit} (hl : 9 < l)
    (h : value * unit.factor = n * 10 ^ l) : 10 ∣ value := by
  obtain ⟨e, he, hle⟩ := unit.exists_factor_eq
  have hsplit : 10 ^ l = 10 * 10 ^ (l - 1 - e) * 10 ^ e := by
    rw [← Nat.pow_succ', ← Nat.pow_add]
    congr 1
    omega
  rw [he, hsplit, ← Nat.mul_assoc] at h
  have hvalue := Nat.mul_right_cancel (Nat.pow_pos (by omega)) h
  exact ⟨n * 10 ^ (l - 1 - e), by rw [hvalue]; ring⟩

/-- **The digits behind the point are computed exactly.** -/
theorem fractionNanos?_eq_some_iff {fraction : List Char} (h : ∀ c ∈ fraction, c.isDigit = true)
    {unit : DurationUnit} {n : Nat} :
    fractionNanos? fraction unit = some n ↔ decimalValue fraction * unit.factor = n * 10 ^ fraction.length := by
  rw [decimalValue_mul_eq_iff, fractionNanos?]
  by_cases hl : 9 < (trimZeros fraction).length
  · have hne : trimZeros fraction ≠ [] := List.length_pos_iff.1 (by omega)
    simp only [if_pos hl, reduceCtorEq, false_iff]
    intro hvalue
    exact not_dvd_decimalValue_trimZeros h hne (dvd_of_mul_factor_eq hl hvalue)
  · have hpos : 0 < 10 ^ (trimZeros fraction).length := Nat.pow_pos (by omega)
    simp only [if_neg hl, Nat.pow_eq]
    split
    · next hmod =>
      rw [Option.some_inj]
      exact Nat.div_eq_iff_eq_mul_left hpos (Nat.dvd_of_mod_eq_zero hmod)
    · next hmod =>
      simp only [reduceCtorEq, false_iff]
      intro hvalue
      rw [hvalue] at hmod
      exact hmod (Nat.mul_mod_left _ _)

/-! ## The exact value -/

/-- The number in front of the unit. -/
def amount (d : Duration) : ℚ :=
  (Nat.ofDigits 10 (digitValues d.whole) : ℕ) +
    (Nat.ofDigits 10 (digitValues d.fraction) : ℕ) / 10 ^ d.fraction.length

variable {d : Duration} {unit : DurationUnit}

theorem amount_mul_factor_eq_iff {n : Nat} :
    d.amount * unit.factor = n ↔
      decimalValue d.whole * unit.factor * 10 ^ d.fraction.length + decimalValue d.fraction * unit.factor =
        n * 10 ^ d.fraction.length := by
  have hne : (10 : ℚ) ^ d.fraction.length ≠ 0 := by positivity
  rw [amount, ← decimalValue_eq_ofDigits, ← decimalValue_eq_ofDigits, ← Nat.cast_inj (R := ℚ), ← mul_left_inj' hne]
  push_cast
  field_simp

/-- The exact value is whole if what the digits behind the point add is. -/
theorem exists_fractionNanos?_iff (h : ∀ c ∈ d.fraction, c.isDigit = true) {n : Nat} :
    d.amount * unit.factor = n ↔
      ∃ m, fractionNanos? d.fraction unit = some m ∧ decimalValue d.whole * unit.factor + m = n := by
  have hpos : 0 < 10 ^ d.fraction.length := Nat.pow_pos (by omega)
  simp only [amount_mul_factor_eq_iff, fractionNanos?_eq_some_iff h]
  constructor
  · intro hvalue
    have hle : decimalValue d.whole * unit.factor ≤ n :=
      Nat.le_of_mul_le_mul_right (hvalue ▸ Nat.le_add_right _ _) hpos
    refine ⟨n - decimalValue d.whole * unit.factor, ?_, Nat.add_sub_cancel' hle⟩
    rw [Nat.sub_mul, ← hvalue, Nat.add_sub_cancel_left]
  · rintro ⟨m, hm, rfl⟩
    rw [hm, Nat.add_mul]

/-- **The nanoseconds are the exact value, if it is whole and fits into 64 bits.** -/
theorem nanos?_eq_some_iff (h : ∀ c ∈ d.fraction, c.isDigit = true) {n : Nat} :
    d.nanos? unit = some n ↔ d.amount * unit.factor = n ∧ n < 2 ^ 64 := by
  rw [exists_fractionNanos?_iff h, nanos?]
  cases fractionNanos? d.fraction unit with
  | none => simp
  | some m =>
    simp only [Option.some_inj, exists_eq_left', Option.ite_none_right_eq_some]
    constructor
    · rintro ⟨hlt, rfl⟩
      exact ⟨rfl, hlt⟩
    · rintro ⟨rfl, hlt⟩
      exact ⟨hlt, rfl⟩

/-! ## The computation on words -/

/-- Why an operation on words stops the program. -/
inductive Trap where
  /-- The result has more than 128 bits. -/
  | overflow
  | divisionByZero
  deriving DecidableEq, Repr

/-- The number as a word of so many bits, if it fits. -/
def word? (bits n : Nat) : Option Nat := if n < 2 ^ bits then some n else none

/-- The result of an operation on words of 128 bits that has to fit. -/
def word (n : Nat) : Except Trap Nat := if n < 2 ^ 128 then .ok n else .error .overflow

def remainder (m n : Nat) : Except Trap Nat := if n = 0 then .error .divisionByZero else .ok (m % n)

def quotient (m n : Nat) : Except Trap Nat := if n = 0 then .error .divisionByZero else .ok (m / n)

/-- `fractionNanos?` on words: the digits are read with a check, the power of ten, the product, the remainder and the
quotient are computed without one. The power is taken of a word of 32 bits. -/
def wordFraction (fraction : List Char) (unit : DurationUnit) : Except Trap (Option Nat) :=
  let digits := trimZeros fraction
  if 9 < digits.length then
    .ok none
  else if digits.isEmpty then
    .ok (some 0)
  else do
    let scale ← word (10 ^ (digits.length % 2 ^ 32))
    match word? 128 (decimalValue digits) with
    | none => .ok none
    | some value =>
      let numerator ← word (value * unit.factor)
      if (← remainder numerator scale) = 0 then some <$> quotient numerator scale else .ok none

/-- `nanos?` on words: the digits are read and the whole units are multiplied and added with checks. -/
def wordNanos (d : Duration) (unit : DurationUnit) : Except Trap (Option Nat) :=
  match (word? 128 (decimalValue d.whole)).bind fun whole => word? 128 (whole * unit.factor) with
  | none => .ok none
  | some whole => do
    match ← wordFraction d.fraction unit with
    | none => .ok none
    | some fraction => .ok ((word? 128 (whole + fraction)).bind (word? 64))

theorem word_of_lt {n : Nat} (h : n < 2 ^ 128) : word n = .ok n := if_pos h

theorem word?_of_lt {bits n : Nat} (h : n < 2 ^ bits) : word? bits n = some n := if_pos h

theorem word?_of_le {bits n : Nat} (h : 2 ^ bits ≤ n) : word? bits n = none := if_neg (Nat.not_lt.2 h)

/-- Nine digits and a factor of nine zeros need fewer than 128 bits. -/
theorem wordFraction_eq {fraction : List Char} (h : ∀ c ∈ fraction, c.isDigit = true) (unit : DurationUnit) :
    wordFraction fraction unit = .ok (fractionNanos? fraction unit) := by
  rw [wordFraction, fractionNanos?]
  by_cases hl : 9 < (trimZeros fraction).length
  · simp only [if_pos hl]
  · simp only [if_neg hl, Nat.pow_eq]
    split
    · next hempty => simp [List.isEmpty_iff.1 hempty, decimalValue]
    · have hpos : 0 < 10 ^ (trimZeros fraction).length := Nat.pow_pos (by omega)
      have hscale : 10 ^ (trimZeros fraction).length ≤ 10 ^ 9 := Nat.pow_le_pow_right (by omega) (by omega)
      have hvalue := (decimalValue_lt (isDigit_of_mem_trimZeros h)).trans_le hscale
      have hproduct : decimalValue (trimZeros fraction) * unit.factor ≤ 10 ^ 9 * 10 ^ 9 :=
        Nat.mul_le_mul hvalue.le unit.factor_le
      rw [Nat.mod_eq_of_lt (by omega), word_of_lt (hscale.trans_lt (by decide)), word?_of_lt (hvalue.trans (by decide))]
      simp only [bind, Except.bind, word_of_lt (hproduct.trans_lt (by decide)), remainder, quotient, if_neg hpos.ne']
      split <;> rfl

/-- A factor that does not fit makes no product that does. -/
theorem word?_bind_mul {bits m n : Nat} (hn : 0 < n) :
    ((word? bits m).bind fun m => word? bits (m * n)) = word? bits (m * n) := by
  by_cases hm : m < 2 ^ bits
  · rw [word?_of_lt hm, Option.bind_some]
  · have hle : m ≤ m * n := Nat.le_mul_of_pos_right m hn
    rw [word?_of_le (Nat.not_lt.1 hm), word?_of_le ((Nat.not_lt.1 hm).trans hle), Option.bind_none]

theorem word?_bind_word? {bits fewer n : Nat} (h : fewer ≤ bits) : (word? bits n).bind (word? fewer) = word? fewer n := by
  have hle : 2 ^ fewer ≤ 2 ^ bits := Nat.pow_le_pow_right (by omega) h
  by_cases hn : n < 2 ^ bits
  · rw [word?_of_lt hn, Option.bind_some]
  · rw [word?_of_le (Nat.not_lt.1 hn), word?_of_le (hle.trans (Nat.not_lt.1 hn)), Option.bind_none]

/-- **The computation on words is never stopped, and gives what is computed on numbers.** -/
theorem wordNanos_eq (h : ∀ c ∈ d.fraction, c.isDigit = true) (unit : DurationUnit) :
    d.wordNanos unit = .ok (d.nanos? unit) := by
  rw [wordNanos, wordFraction_eq h, word?_bind_mul unit.factor_pos, nanos?]
  by_cases hwhole : decimalValue d.whole * unit.factor < 2 ^ 128
  · rw [word?_of_lt hwhole]
    cases fractionNanos? d.fraction unit with
    | none => rfl
    | some n =>
      show Except.ok ((word? 128 (decimalValue d.whole * unit.factor + n)).bind (word? 64)) = _
      rw [word?_bind_word? (by omega)]
      rfl
  · -- The whole units alone have too many bits, so the sum has.
    rw [word?_of_le (Nat.not_lt.1 hwhole)]
    cases fractionNanos? d.fraction unit with
    | none => rfl
    | some n =>
      have hsum : ¬decimalValue d.whole * unit.factor + n < Nat.pow 2 64 := by
        rw [Nat.pow_eq]
        omega
      simp only [if_neg hsum]

/-! ## Values of a key -/

/-- What a text becomes as a value of `key`, if the values of the key are durations. -/
def valueOf (key text : String) : Except Error String :=
  (normalize text).mapError fun fault => .invalidValue key (.duration text fault)

/-- A term with a key of that sort compares its column with the value. -/
theorem term_eq_map_valueOf (s : Search) {key name : String} (hkey : s.table.resolve key = some (.column name true))
    (r : Relation) {l : Literal} (hl : l.hasWildcard = false) :
    s.term (.keyed key r (.single l)) = (valueOf key l.text).map fun arg =>
      r.finish ⟨(Field.column name true).operand r.base.isOrdering false ++ " " ++ r.base.symbol ++ " ?", [arg]⟩ := by
  rw [Search.term, hkey, valueOf]
  simp only [Field.compareValue, Field.compare, hl, Field.isOrdered, Field.argument]
  cases normalize l.text <;> simp [Except.map, Except.mapError, Field.args]

theorem valueOf_of_spells {text : String} (h : d.Spells text.toList) (hunit : d.unit = some unit) (key : String) :
    valueOf key text =
      match d.nanos? unit with
      | none => .error (.invalidValue key (.duration text .notRepresentable))
      | some n => .ok (toString n) := by
  rw [valueOf, normalize, ofChars?_eq_some_iff.2 h]
  simp only [hunit]
  cases d.nanos? unit <;> rfl

/-- **Durations are exact.** A text that is not written as a duration is refused, and one without a unit is left as it
is. One with a unit becomes the numeral of its exact value in nanoseconds if that is whole and fits into 64 bits, and is
refused otherwise. On words of 128 bits none of the operations without a check stops the program. -/
theorem valueOf_exact (key text : String) :
    ((¬∃ d : Duration, d.Spells text.toList) →
        valueOf key text = .error (.invalidValue key (.duration text .malformed))) ∧
      ∀ d : Duration, d.Spells text.toList →
        (d.unit = none → valueOf key text = .ok text) ∧
          ∀ unit, d.unit = some unit →
            (∀ n : ℕ, d.amount * unit.factor = n → n ≤ 2 ^ 64 - 1 →
              valueOf key text = .ok (toString n) ∧ IsNumeral n (toString n)) ∧
            ((¬∃ n : ℕ, d.amount * unit.factor = n ∧ n ≤ 2 ^ 64 - 1) →
              valueOf key text = .error (.invalidValue key (.duration text .notRepresentable))) ∧
            d.wordNanos unit = .ok (d.nanos? unit) := by
  constructor
  · intro hnot
    have hread : ofChars? text.toList = none := by
      cases hd : ofChars? text.toList with
      | none => rfl
      | some d => exact absurd ⟨d, spells_of_ofChars? hd⟩ hnot
    rw [valueOf, normalize, hread]
    rfl
  · intro d h
    refine ⟨?_, ?_⟩
    · intro hunit
      rw [valueOf, normalize, ofChars?_eq_some_iff.2 h]
      simp only [hunit]
      rfl
    · intro unit hunit
      rw [valueOf_of_spells h hunit]
      refine ⟨?_, ?_, wordNanos_eq h.fraction_isDigit unit⟩
      · intro n hvalue hn
        rw [(nanos?_eq_some_iff h.fraction_isDigit).2 ⟨hvalue, by omega⟩]
        exact ⟨rfl, isNumeral_toString n⟩
      · intro hnot
        cases hnanos : d.nanos? unit with
        | none => rfl
        | some n =>
          obtain ⟨hvalue, hn⟩ := (nanos?_eq_some_iff h.fraction_isDigit).1 hnanos
          exact absurd ⟨n, hvalue, by omega⟩ hnot

/-- The last whole number of 64 bits, with a zero behind nine digits, in a search; one nanosecond more is refused. Then a
value in each of the smaller units, and half a nanosecond, which is refused. -/
theorem valueOf_exact_last :
    (⟨.traces, .reject⟩ : Search).term (.keyed "duration" .ge (.single (.word "18446744073.7095516150s"))) =
        .ok ⟨"Duration >= ?", ["18446744073709551615"]⟩ ∧
      valueOf "duration" "18446744073.709551616s" =
        .error (.invalidValue "duration" (.duration "18446744073.709551616s" .notRepresentable)) ∧
      valueOf "duration" "0.25ms" = .ok "250000" ∧ valueOf "duration" "1.5us" = .ok "1500" ∧
      valueOf "duration" "007.0ns" = .ok "7" ∧
      valueOf "duration" "0.5ns" = .error (.invalidValue "duration" (.duration "0.5ns" .notRepresentable)) := by
  have hexact {d : Duration} {unit : DurationUnit} {text numeral : String} {n : ℕ} (hd : d.Spells text.toList)
      (hunit : d.unit = some unit) (hvalue : d.amount * unit.factor = n) (hn : n ≤ 2 ^ 64 - 1)
      (hnumeral : toString n = numeral) : valueOf "duration" text = .ok numeral := by
    rw [← hnumeral]
    exact ((((valueOf_exact "duration" text).2 d hd).2 unit hunit).1 n hvalue hn).1
  have hrefused {d : Duration} {unit : DurationUnit} {text : String} (hd : d.Spells text.toList)
      (hunit : d.unit = some unit) (hnot : ¬∃ n : ℕ, d.amount * unit.factor = n ∧ n ≤ 2 ^ 64 - 1) :
      valueOf "duration" text = .error (.invalidValue "duration" (.duration text .notRepresentable)) :=
    (((valueOf_exact "duration" text).2 d hd).2 unit hunit).2.1 hnot
  let last : Duration := ⟨"18446744073".toList, "7095516150".toList, some .seconds⟩
  let beyond : Duration := ⟨"18446744073".toList, "709551616".toList, some .seconds⟩
  let half : Duration := ⟨"0".toList, "5".toList, some .nanoseconds⟩
  have hlast : last.amount * DurationUnit.seconds.factor = (18446744073709551615 : ℕ) :=
    amount_mul_factor_eq_iff.2 (by decide +kernel)
  have hbeyond : beyond.amount * DurationUnit.seconds.factor = (18446744073709551616 : ℕ) :=
    amount_mul_factor_eq_iff.2 (by decide +kernel)
  refine ⟨?_, ?_, ?_, ?_, ?_, ?_⟩
  · have htext : valueOf "duration" "18446744073.7095516150s" = .ok "18446744073709551615" :=
      hexact (d := last) (by decide) rfl hlast (by omega) (by decide +kernel)
    exact (term_eq_map_valueOf _ rfl _ rfl).trans (congrArg (Except.map _) htext)
  · refine hrefused (d := beyond) (by decide) rfl ?_
    rintro ⟨n, hn, hle⟩
    rw [hbeyond] at hn
    have := Nat.cast_injective hn
    omega
  · exact hexact (d := ⟨['0'], ['2', '5'], some .milliseconds⟩) (n := 250000) (by decide) rfl
      (amount_mul_factor_eq_iff.2 (by decide +kernel)) (by omega) (by decide +kernel)
  · exact hexact (d := ⟨['1'], ['5'], some .microseconds⟩) (n := 1500) (by decide) rfl
      (amount_mul_factor_eq_iff.2 (by decide +kernel)) (by omega) (by decide +kernel)
  · exact hexact (d := ⟨['0', '0', '7'], ['0'], some .nanoseconds⟩) (n := 7) (by decide) rfl
      (amount_mul_factor_eq_iff.2 (by decide +kernel)) (by omega) (by decide +kernel)
  · refine hrefused (d := half) (by decide) rfl ?_
    rintro ⟨n, hn, -⟩
    have hvalue : 5 = n * 10 := amount_mul_factor_eq_iff.1 hn
    omega

end Duration

end TelemetrySearch
