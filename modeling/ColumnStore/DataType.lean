/-! The five element types of a column and their names. -/
namespace ColumnStore

inductive DataType where
  | int | long | float | double | string
  deriving DecidableEq, Repr

namespace DataType

def name : DataType → String
  | .int => "int"
  | .long => "long"
  | .float => "float"
  | .double => "double"
  | .string => "string"

def tag : DataType → String
  | .int => "Int"
  | .long => "Long"
  | .float => "Float"
  | .double => "Double"
  | .string => "String"

def all : List DataType := [.int,.long,.float,.double,.string]

def ofName? (text : String) : Option DataType := all.find? fun t => t.name == text

/-- The bytes that one element takes in a column. A text counts with its handle alone. -/
def size : DataType → Nat
  | .int => 4
  | .long => 8
  | .float => 4
  | .double => 8
  | .string => 24

theorem ofNameName (t : DataType) : ofName? t.name = some t := by
  cases t <;> decide

end DataType
end ColumnStore
