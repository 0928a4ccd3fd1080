/-!
# Formulas

A formula is a leaf, or a group of formulas with a connective, `AND` or `OR`, between each two neighbours.
`Formula.join` builds groups of one connective without nesting the same connective in itself; `Formula.ofOperands`
gives a flat row of operands its structure, `AND` binding tighter than `OR`. `Formula.symbols` writes a formula with
just enough parentheses: every group inside another one, and every group with an `OR` in it.
-/

namespace TelemetrySearch

/-- What joins two neighbours of a formula. -/
inductive Connective where
  | and | or
  deriving DecidableEq, Repr

/-- The connective as a query and as SQL write it. -/
def Connective.keyword : Connective → String
  | .and => "AND"
  | .or => "OR"

/-- A tree of connectives over leaves from `α`. In a group, connective `i` stands between the children `i` and
`i + 1`. -/
inductive Formula (α : Type) where
  | leaf (leaf : α)
  | group (children : List (Formula α)) (connectives : List Connective)
  deriving Repr

namespace Formula

variable {α β ε : Type}

/-! ## Leaves -/

mutual

/-- The leaves from left to right. -/
def leaves : Formula α → List α
  | leaf a => [a]
  | group children _ => leavesAll children

/-- The leaves of a row of formulas from left to right. -/
def leavesAll : List (Formula α) → List α
  | [] => []
  | f :: fs => f.leaves ++ leavesAll fs

end

mutual

/-- The formula with each leaf `a` replaced by `f a`; the error is that of the leftmost leaf that has one. -/
def traverse (f : α → Except ε β) : Formula α → Except ε (Formula β)
  | leaf a => (f a).map leaf
  | group children connectives => (traverseAll f children).map (group · connectives)

/-- A row of formulas with each leaf `a` replaced by `f a`. -/
def traverseAll (f : α → Except ε β) : List (Formula α) → Except ε (List (Formula β))
  | [] => .ok []
  | x :: xs =>
    match traverse f x with
    | .error e => .error e
    | .ok y => (traverseAll f xs).map (y :: ·)

end

/-! ## Building -/

/-- The operands of a formula under `c`: the children of a group that has no other connective, else the formula. -/
def operands (c : Connective) : Formula α → List (Formula α)
  | group children connectives =>
    if connectives.all (· == c) then children else [group children connectives]
  | leaf a => [leaf a]

/-- Joins formulas by `c`. Groups of the same connective are merged into the new one, and a single operand stays
as it is. -/
def join (c : Connective) (fs : List (Formula α)) : Formula α :=
  match fs.flatMap (operands c) with
  | [only] => only
  | flat => group flat (List.replicate (flat.length - 1) c)

/-- Cuts a row of operands, each with the connective before it, into the runs between two `OR`. The connective of the
first operand does not count. -/
def runs : List (Connective × α) → List (List α)
  | [] => []
  | [(_, x)] => [[x]]
  | (_, x) :: (.or, y) :: rest => [x] :: runs ((.or, y) :: rest)
  | (_, x) :: (.and, y) :: rest =>
    match runs ((.and, y) :: rest) with
    | [] => [[x]]
    | run :: more => (x :: run) :: more

/-- The formula of a row of operands, each with the connective before it: the `OR` of the `AND` of the runs. -/
def ofOperands (row : List (Connective × Formula α)) : Formula α :=
  join .or ((runs row).map (join .and))

/-! ## Writing -/

/-- What a formula is written with. -/
inductive Symbol (α : Type) where
  | leftParen
  | rightParen
  | connective (connective : Connective)
  | atom (atom : α)
  deriving Repr, DecidableEq

/-- Puts parentheses around a row of symbols. -/
def Symbol.enclose (row : List (Symbol α)) : List (Symbol α) := .leftParen :: row ++ [.rightParen]

mutual

/-- The symbols of a formula; `nested` tells whether it stands inside a group. -/
def symbols (nested : Bool) : Formula α → List (Symbol α)
  | leaf a => [.atom a]
  | group [child] _ => symbols nested child
  | group children connectives =>
    if nested || connectives.contains .or then
      Symbol.enclose (rowSymbols children connectives)
    else
      rowSymbols children connectives

/-- The symbols of a row of formulas with the connectives between them; a missing connective is `AND`. -/
def rowSymbols : List (Formula α) → List Connective → List (Symbol α)
  | [], _ => []
  | [f], _ => symbols true f
  | f :: g :: fs, connectives =>
    symbols true f ++ .connective (connectives.headD .and) :: rowSymbols (g :: fs) connectives.tail

end

/-- A symbol as SQL writes it. -/
def Symbol.text : Symbol String → String
  | leftParen => "("
  | rightParen => ")"
  | connective c => " " ++ c.keyword ++ " "
  | atom text => text

/-- A symbol with its atom replaced. -/
def Symbol.map (f : α → β) : Symbol α → Symbol β
  | leftParen => leftParen
  | rightParen => rightParen
  | connective c => connective c
  | atom a => atom (f a)

/-- The formula in SQL, its leaves written by `write`. -/
def text (write : α → String) (nested : Bool) (f : Formula α) : String :=
  String.join ((f.symbols nested).map fun s => (s.map write).text)

end Formula

end TelemetrySearch
