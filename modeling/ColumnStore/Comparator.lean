/-! Comparators of scans: on the order of two elements, and on the codes of a dictionary. -/
namespace ColumnStore

inductive Comparator where
  | equals | notEquals | lessThan | lessOrEqual | greaterThan | greaterOrEqual
  deriving DecidableEq, Repr

namespace Comparator

def name : Comparator → String
  | .equals => "Equals"
  | .notEquals => "NotEquals"
  | .lessThan => "LessThan"
  | .lessOrEqual => "LessOrEqual"
  | .greaterThan => "GreaterThan"
  | .greaterOrEqual => "GreaterOrEqual"

def all : List Comparator :=
  [.equals,.notEquals,.lessThan,.lessOrEqual,.greaterThan,.greaterOrEqual]

def ofName? (text : String) : Option Comparator := all.find? fun c => c.name == text

def holds : Comparator → Ordering → Bool
  | .equals, o => o == .eq
  | .notEquals, o => o != .eq
  | .lessThan, o => o == .lt
  | .lessOrEqual, o => o != .gt
  | .greaterThan, o => o == .gt
  | .greaterOrEqual, o => o != .lt

/-! The same on codes. The lower bound counts the entries in front of the element searched for, the upper
bound those in front of it or equal to it. -/
def holdsCode (c : Comparator) (code lower upper : UInt32) : Bool :=
  match c with
  | .equals => code == lower
  | .notEquals => decide (code < lower) || decide (upper ≤ code)
  | .lessThan => decide (code < lower)
  | .lessOrEqual => decide (code < upper)
  | .greaterThan => decide (upper ≤ code)
  | .greaterOrEqual => decide (lower ≤ code)

/-- Whether no code of a dictionary can pass, so that its codes need not be read. An element that is not
among the entries must be caught here, since its lower bound is then the code of another entry. -/
def excludesAll (c : Comparator) (lower upper entries : UInt32) : Bool :=
  match c with
  | .equals => lower == upper
  | .notEquals => lower == 0 && upper == entries
  | .lessThan => lower == 0
  | .lessOrEqual => upper == 0
  | .greaterThan => upper == entries
  | .greaterOrEqual => lower == entries

theorem ofNameName (c : Comparator) : ofName? c.name = some c := by
  cases c <;> decide

end Comparator
end ColumnStore
