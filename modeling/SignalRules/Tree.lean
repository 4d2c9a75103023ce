import SignalRules.Host
import SignalRules.Operator

/-! # Expression trees

`Tree S A` is the shape of an expression whose signal leaves carry an `S` and whose action nodes
carry an `A`. A `Term` carries names and hosts only: it is what an expression says. Two
expressions are the same if their terms are equal.
-/

namespace SignalRules

/-- An expression tree. Nothing in the type keeps an action at the root or an operator from having
a wrong number of operands. -/
inductive Tree (S A : Type) where
  | constant (value : Value)
  | signal (binding : S)
  | operator (op : Operator) (operands : List (Tree S A))
  /-- A call of an action, which with `once` asks its rule to stop afterwards. -/
  | action (once : Bool) (binding : A) (args : List (Tree S A))

/-- A full name, `Provider.Local`, read or called on a host. -/
structure Ref where
  name : String
  host : HostId
  deriving DecidableEq

theorem Ref.eq_of_same {a b : Ref} (name : a.name = b.name) (host : a.host = b.host) : a = b := by
  cases a
  cases b
  cases name
  cases host
  rfl

/-- An expression as far as it can be written down and compared. -/
abbrev Term := Tree Ref Ref

namespace Tree

variable {S A S' A' : Type}

mutual

def map (f : S → S') (g : A → A') : Tree S A → Tree S' A'
  | .constant value => .constant value
  | .signal binding => .signal (f binding)
  | .operator op operands => .operator op (mapAll f g operands)
  | .action once binding args => .action once (g binding) (mapAll f g args)

def mapAll (f : S → S') (g : A → A') : List (Tree S A) → List (Tree S' A')
  | [] => []
  | tree :: trees => map f g tree :: mapAll f g trees

end

theorem mapAll_eq_map (f : S → S') (g : A → A') (trees : List (Tree S A)) :
    mapAll f g trees = trees.map (map f g) := by
  induction trees with
  | nil => rfl
  | cons tree trees ih => simp [mapAll, ih]

mutual

/-- The signals that occur, from left to right, each as often as it occurs. -/
def signals : Tree S A → List S
  | .constant _ => []
  | .signal binding => [binding]
  | .operator _ operands => signalsAll operands
  | .action _ _ args => signalsAll args

def signalsAll : List (Tree S A) → List S
  | [] => []
  | tree :: trees => signals tree ++ signalsAll trees

end

mutual

/-- The actions that occur, each before those in its arguments. -/
def actions : Tree S A → List A
  | .constant _ => []
  | .signal _ => []
  | .operator _ operands => actionsAll operands
  | .action _ binding args => binding :: actionsAll args

def actionsAll : List (Tree S A) → List A
  | [] => []
  | tree :: trees => actions tree ++ actionsAll trees

end

/-! ## Equality -/

section Equality

variable [DecidableEq S] [DecidableEq A]

mutual

def beq : Tree S A → Tree S A → Bool
  | .constant a, .constant b => a == b
  | .signal a, .signal b => a == b
  | .operator op as, .operator op' bs => op == op' && beqAll as bs
  | .action once a as, .action once' b bs => once == once' && a == b && beqAll as bs
  | _, _ => false

def beqAll : List (Tree S A) → List (Tree S A) → Bool
  | [], [] => true
  | a :: as, b :: bs => beq a b && beqAll as bs
  | _, _ => false

end

mutual

theorem eq_of_beq : ∀ {a b : Tree S A}, beq a b = true → a = b
  | .constant _, .constant _, h => by simpa [beq] using h
  | .signal _, .signal _, h => by simpa [beq] using h
  | .operator _ as, .operator _ bs, h => by
    simp only [beq, Bool.and_eq_true, beq_iff_eq] at h
    rw [h.1, eq_of_beqAll h.2]
  | .action _ _ as, .action _ _ bs, h => by
    simp only [beq, Bool.and_eq_true, beq_iff_eq] at h
    rw [h.1.1, h.1.2, eq_of_beqAll h.2]
  | .constant _, .signal _, h => by simp [beq] at h
  | .constant _, .operator _ _, h => by simp [beq] at h
  | .constant _, .action _ _ _, h => by simp [beq] at h
  | .signal _, .constant _, h => by simp [beq] at h
  | .signal _, .operator _ _, h => by simp [beq] at h
  | .signal _, .action _ _ _, h => by simp [beq] at h
  | .operator _ _, .constant _, h => by simp [beq] at h
  | .operator _ _, .signal _, h => by simp [beq] at h
  | .operator _ _, .action _ _ _, h => by simp [beq] at h
  | .action _ _ _, .constant _, h => by simp [beq] at h
  | .action _ _ _, .signal _, h => by simp [beq] at h
  | .action _ _ _, .operator _ _, h => by simp [beq] at h

theorem eq_of_beqAll : ∀ {as bs : List (Tree S A)}, beqAll as bs = true → as = bs
  | [], [], _ => rfl
  | _ :: _, _ :: _, h => by
    simp only [beqAll, Bool.and_eq_true] at h
    rw [eq_of_beq h.1, eq_of_beqAll h.2]
  | [], _ :: _, h => by simp [beqAll] at h
  | _ :: _, [], h => by simp [beqAll] at h

end

mutual

theorem beq_refl : ∀ a : Tree S A, beq a a = true
  | .constant _ => by simp [beq]
  | .signal _ => by simp [beq]
  | .operator _ as => by simp [beq, beqAll_refl as]
  | .action _ _ as => by simp [beq, beqAll_refl as]

theorem beqAll_refl : ∀ as : List (Tree S A), beqAll as as = true
  | [] => rfl
  | a :: as => by simp [beqAll, beq_refl a, beqAll_refl as]

end

instance : DecidableEq (Tree S A) := fun a b =>
  decidable_of_iff (beq a b = true) ⟨eq_of_beq, fun h => h ▸ beq_refl a⟩

end Equality

end Tree

/-! ## Script text -/

namespace Term

mutual

def toScript : Term → String
  | .constant value => value.toLiteral
  | .signal ref => "(sig " ++ ref.name ++ ")"
  | .operator op operands => "(" ++ op.keyword ++ toScriptAll operands ++ ")"
  | .action once ref args =>
    "(" ++ (if once then "act-once" else "act") ++ " " ++ ref.name ++ toScriptAll args ++ ")"

def toScriptAll : List Term → String
  | [] => ""
  | term :: terms => " " ++ toScript term ++ toScriptAll terms

end

/-- The distinct names of the signals that occur, in order of first occurrence. -/
def signalNames (term : Term) : List String :=
  (term.signals.map Ref.name).eraseDups

def actionNames (term : Term) : List String :=
  (term.actions.map Ref.name).eraseDups

end Term

end SignalRules
