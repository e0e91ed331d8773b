import ColumnStore.Dictionary
import ColumnStore.RowId
/-! One column's rows within a chunk: plain elements, a dictionary, or references to rows of another table.
Plain elements grow at the end; the other two never change. A reference is followed by the
database that holds its table; here it is only described. -/
namespace ColumnStore

/-! A table is named by its identity in a database, a column by its position in a table. -/
abbrev TableId := Nat
abbrev ColumnId := UInt16

structure Reference where
  table : TableId
  column : ColumnId
  type : DataType
  rows : Array RowId
  deriving DecidableEq, Repr

namespace Reference

def describe (r : Reference) : String :=
  "ReferenceSegment \x7b referenced_column_id: " ++ Numeral.natText r.column.toNat ++
    ", data_type: " ++ r.type.tag ++ ", rows: " ++ Numeral.natText r.rows.size ++ " \x7d"

end Reference

inductive Segment where
  | plain (type : DataType) (elems : Array type.Elem)
  | encoded (type : DataType) (column : Dictionary type)
  | reference (view : Reference)

namespace Segment

def empty (type : DataType) : Segment := .plain type #[]

def type : Segment → DataType
  | .plain type _ => type
  | .encoded type _ => type
  | .reference view => view.type

def length : Segment → Nat
  | .plain _ elems => elems.size
  | .encoded _ column => column.length
  | .reference view => view.rows.size

def memory : Segment → Nat
  | .plain type elems => elems.size*type.size
  | .encoded _ column => column.memory
  | .reference view => view.rows.size*RowId.size

def isReference : Segment → Bool
  | .reference _ => true
  | _ => false

def stored (s : Segment) (offset : Nat) : Except Error Value :=
  match s with
  | .plain type elems => match elems[offset]? with
    | some x => .ok ⟨type,x⟩
    | none => .error (.outOfRange .valueSegment offset elems.size)
  | .encoded type column => (column.get offset).map (Value.mk type)
  | .reference _ => .error .nestedReference

def cell (s : Segment) (v : Value) : Except Error Value :=
  match s with
  | .plain type _ => v.convert type
  | .encoded .. => .error .fixedDictionary
  | .reference _ => .error .fixedReference

/-- A value of another type, or one for a segment that does not grow, is passed over. -/
def push (s : Segment) (v : Value) : Segment :=
  match s with
  | .plain type elems => if types : v.type = type then .plain type (elems.push (types ▸ v.elem)) else s
  | _ => s

/-- Elements past a length are dropped; segments that never grow are left alone. -/
def truncate (s : Segment) (length : Nat) : Segment :=
  match s with
  | .plain type elems => .plain type (elems.take length)
  | s => s

def append (s : Segment) (v : Value) : Except Error Segment := (s.cell v).map s.push

theorem cellType {type : DataType} {elems : Array type.Elem} {v w : Value}
    (ok : (plain type elems).cell v = .ok w) : w.type = type := by
  obtain ⟨_,_,rfl⟩ := Value.convertOk.mp ok
  rfl

theorem pushLength {s : Segment} {v w : Value} (ok : s.cell v = .ok w) :
    (s.push w).length = s.length+1 := by
  cases s with
  | plain type elems =>
    have types := cellType ok
    simp [push,types,length]
  | encoded => cases ok
  | reference => cases ok

end Segment
end ColumnStore
