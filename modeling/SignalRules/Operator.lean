import SignalRules.Value

/-! # Operators

The thirteen operators of the script language, grouped by what they do with their operands.
-/

namespace SignalRules

inductive Comparison where
  | eq
  | ne
  | gt
  | lt
  | ge
  | le
  deriving DecidableEq

/-- Operators that join two or more truth values. -/
inductive Connective where
  | and
  | or
  deriving DecidableEq

inductive Arithmetic where
  | add
  | sub
  | mul
  | div
  deriving DecidableEq

inductive Operator where
  | comparison (c : Comparison)
  | connective (c : Connective)
  | not
  | arithmetic (a : Arithmetic)
  deriving DecidableEq

/-- How many operands an operator takes; no `most` means any number from `least` on. -/
structure Arity where
  least : Nat
  most : Option Nat
  deriving DecidableEq

namespace Arity

def Admits (arity : Arity) (count : Nat) : Prop :=
  arity.least ≤ count ∧ ∀ most ∈ arity.most, count ≤ most

instance (arity : Arity) (count : Nat) : Decidable (arity.Admits count) :=
  inferInstanceAs (Decidable (_ ∧ _))

def text (arity : Arity) : String :=
  match arity.most with
  | some most =>
    if most = arity.least then toString arity.least
    else toString arity.least ++ " to " ++ toString most
  | none => "at least " ++ toString arity.least

end Arity

namespace Comparison

def keyword : Comparison → String
  | eq => "eq"
  | ne => "ne"
  | gt => "gt"
  | lt => "lt"
  | ge => "ge"
  | le => "le"

/-- The sign shown to players. -/
def sign : Comparison → String
  | eq => "="
  | ne => "≠"
  | gt => ">"
  | lt => "<"
  | ge => "≥"
  | le => "≤"

/-- Whether the comparison is true of two values that stand in the order `o`. -/
def holds : Comparison → Ordering → Bool
  | eq, o => o == .eq
  | ne, o => o != .eq
  | gt, o => o == .gt
  | lt, o => o == .lt
  | ge, o => o != .lt
  | le, o => o != .gt

end Comparison

namespace Connective

def keyword : Connective → String
  | and => "and"
  | or => "or"

end Connective

namespace Arithmetic

def keyword : Arithmetic → String
  | add => "add"
  | sub => "sub"
  | mul => "mul"
  | div => "div"

def sign : Arithmetic → String
  | add => "+"
  | sub => "-"
  | mul => "×"
  | div => "÷"

/-- The sign used in error messages, which keep to ASCII. -/
def plainSign : Arithmetic → String
  | add => "+"
  | sub => "-"
  | mul => "*"
  | div => "/"

end Arithmetic

namespace Operator

def all : List Operator :=
  [.comparison .eq, .comparison .ne, .comparison .gt, .comparison .lt, .comparison .ge,
    .comparison .le, .connective .and, .connective .or, .not, .arithmetic .add,
    .arithmetic .sub, .arithmetic .mul, .arithmetic .div]

def keyword : Operator → String
  | .comparison c => c.keyword
  | .connective c => c.keyword
  | .not => "not"
  | .arithmetic a => a.keyword

def ofKeyword? (keyword : String) : Option Operator :=
  all.find? (·.keyword = keyword)

def isComparison : Operator → Bool
  | .comparison _ => true
  | _ => false

def isBoolean : Operator → Bool
  | .connective _ => true
  | .not => true
  | _ => false

def arity : Operator → Arity
  | .not => ⟨1, some 1⟩
  | .connective _ => ⟨2, none⟩
  | _ => ⟨2, some 2⟩

theorem ofKeyword?_keyword (op : Operator) : ofKeyword? op.keyword = some op := by
  rcases op with c | c | _ | c <;> first | decide | (cases c <;> decide)

end Operator

end SignalRules
