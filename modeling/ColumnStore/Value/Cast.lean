import ColumnStore.Error
import ColumnStore.Text.Blank
import ColumnStore.Value.Basic
/-! Conversion of a value to a column's type. A number always converts: to a narrower whole number by keeping
the low bits, from a fraction by truncation within the range, to a fraction by one rounding. A
text converts to a number when its trimmed form is one. -/
namespace ColumnStore
namespace Value
open Numeral (readInteger?)

def leastInt : Int := -2147483648
def greatestInt : Int := 2147483647
def leastLong : Int := -9223372036854775808
def greatestLong : Int := 9223372036854775807

def wholeOf? (least greatest : Int) (text : String) : Option Int := do
  let n ← readInteger? (Text.trim text.toList)
  if least ≤ n ∧ n ≤ greatest then some n else none

def fractionOf? (f : BinaryFormat) (text : String) : Option (Binary f) :=
  Binary.read? (Text.trim text.toList)

/-- A text that is no number of the target type is reported untrimmed. -/
def parsed {α : Type} (text : String) (target : DataType) (result : Option α) : Except Error α :=
  match result with
  | some x => .ok x
  | none => .error (.unconvertible text target)

def toInt : Value → Except Error Int32
  | int n => .ok n
  | long n => .ok n.toInt32
  | float x => .ok (Int32.ofInt (x.clampTo leastInt greatestInt))
  | double x => .ok (Int32.ofInt (x.clampTo leastInt greatestInt))
  | string s => (parsed s .int (wholeOf? leastInt greatestInt s)).map Int32.ofInt

def toLong : Value → Except Error Int64
  | int n => .ok n.toInt64
  | long n => .ok n
  | float x => .ok (Int64.ofInt (x.clampTo leastLong greatestLong))
  | double x => .ok (Int64.ofInt (x.clampTo leastLong greatestLong))
  | string s => (parsed s .long (wholeOf? leastLong greatestLong s)).map Int64.ofInt

def toFloat : Value → Except Error Single
  | int n => .ok (Binary.ofInt n.toInt)
  | long n => .ok (Binary.ofInt n.toInt)
  | float x => .ok x
  | double x => .ok x.convert
  | string s => parsed s .float (fractionOf? .single s)

def toDouble : Value → Except Error Double
  | int n => .ok (Binary.ofInt n.toInt)
  | long n => .ok (Binary.ofInt n.toInt)
  | float x => .ok x.convert
  | double x => .ok x
  | string s => parsed s .double (fractionOf? .double s)

def cast (v : Value) : (t : DataType) → Except Error t.Elem
  | .int => v.toInt
  | .long => v.toLong
  | .float => v.toFloat
  | .double => v.toDouble
  | .string => .ok v.text

def convert (v : Value) (t : DataType) : Except Error Value := (v.cast t).map (Value.mk t)

theorem castSame {t : DataType} (x : t.Elem) : (Value.mk t x).cast t = .ok x := by
  cases t <;> rfl

theorem convertOk {v w : Value} {t : DataType} : v.convert t = .ok w ↔ ∃ x, v.cast t = .ok x ∧ w = ⟨t,x⟩ := by
  unfold convert
  cases v.cast t <;> simp [Except.map,eq_comm]

theorem convertError {v : Value} {t : DataType} {e : Error} : v.convert t = .error e ↔ v.cast t = .error e := by
  unfold convert
  cases v.cast t <;> simp [Except.map]

end Value
end ColumnStore
