import SignalRules.Error

/-! # Written items

The shape of script text before it means anything: symbols, number texts, strings and lists.
-/

namespace SignalRules

inductive Sexp where
  /-- A letter, then letters, digits, points, underscores and hyphens. -/
  | symbol (name : String)
  /-- The text of a number, not converted yet. -/
  | number (text : String)
  /-- The characters between two single quotes. -/
  | string (text : String)
  | list (items : List Sexp)

namespace Sexp

def kind : Sexp → ItemKind
  | symbol _ => .symbol
  | number _ => .number
  | string _ => .string
  | list _ => .list

mutual

/-- How many lists are open at the deepest place. -/
def depth : Sexp → Nat
  | symbol _ => 0
  | number _ => 0
  | string _ => 0
  | list items => depthAll items + 1

def depthAll : List Sexp → Nat
  | [] => 0
  | item :: items => max item.depth (depthAll items)

end

end Sexp

end SignalRules
