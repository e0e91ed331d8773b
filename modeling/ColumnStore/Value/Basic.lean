import ColumnStore.Binary.Text
import ColumnStore.DataType
/-! Elements of columns, and single values that carry their type with them. -/
namespace ColumnStore

abbrev DataType.Elem : DataType → Type
  | .int => Int32
  | .long => Int64
  | .float => Single
  | .double => Double
  | .string => String

instance (t : DataType) : DecidableEq t.Elem := by
  cases t <;> infer_instance

/-! Equality of elements as numbers, by which a NaN differs from itself and the two zeros are equal. It is
coarser than having the same bits on zeros and finer on NaN. -/
def DataType.Elem.same : {t : DataType} → t.Elem → t.Elem → Bool
  | .int, a, b => a == b
  | .long, a, b => a == b
  | .float, a, b => Binary.same a b
  | .double, a, b => Binary.same a b
  | .string, a, b => a == b

structure Value where
  type : DataType
  elem : type.Elem

namespace Value

@[match_pattern] def int (n : Int32) : Value := ⟨.int,n⟩
@[match_pattern] def long (n : Int64) : Value := ⟨.long,n⟩
@[match_pattern] def float (x : Single) : Value := ⟨.float,x⟩
@[match_pattern] def double (x : Double) : Value := ⟨.double,x⟩
@[match_pattern] def string (s : String) : Value := ⟨.string,s⟩

instance : DecidableEq Value
  | ⟨s,x⟩, ⟨t,y⟩ =>
    if types : s = t then by
      subst types
      exact if elems : x = y then .isTrue (by rw [elems]) else .isFalse (by simpa using elems)
    else .isFalse (by intro same; exact types (congrArg Value.type same))

def text : Value → String
  | int n => String.ofList (Numeral.writeInteger n.toInt)
  | long n => String.ofList (Numeral.writeInteger n.toInt)
  | float x => String.ofList x.write
  | double x => String.ofList x.write
  | string s => s

def same (v w : Value) : Bool :=
  if types : v.type = w.type then (types ▸ v.elem).same w.elem else false

end Value
end ColumnStore
