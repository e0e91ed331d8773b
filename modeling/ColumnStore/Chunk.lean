import ColumnStore.Segment
/-! A group of rows: one segment per column, all of one length. A row goes in as a whole or not at all: first
every column says what it would take in, and only when none refuses does any of them grow. A segment of
another length is not added. -/
namespace ColumnStore

structure Chunk where
  segments : Array Segment

structure LengthMismatch where
  segment : Nat
  chunk : Nat
  deriving DecidableEq, Repr

def LengthMismatch.message (m : LengthMismatch) : String :=
  "segment length " ++ Numeral.natText m.segment ++ " does not match chunk length " ++
    Numeral.natText m.chunk

namespace Chunk

def empty : Chunk := ⟨#[]⟩

def ofTypes (types : Array DataType) : Chunk := ⟨types.map Segment.empty⟩

def length (c : Chunk) : Nat := match c.segments[0]? with
  | some s => s.length
  | none => 0

def memory (c : Chunk) : Nat := c.segments.foldr (fun s n => s.memory+n) 0

def segment (c : Chunk) (column : Nat) : Except Error Segment :=
  match c.segments[column]? with
  | some s => .ok s
  | none => .error (.outOfRange .chunkColumns column c.segments.size)

def addSegment (c : Chunk) (s : Segment) : Except LengthMismatch Chunk :=
  if c.segments.isEmpty ∨ s.length = c.length then .ok ⟨c.segments.push s⟩
  else .error ⟨s.length,c.length⟩

/-- What each column would take in of a row; the first column that refuses decides the error. -/
def cells (c : Chunk) (row : List Value) : Except Error (List Value) :=
  if row.length = c.segments.size then
    (c.segments.toList.zip row).mapM fun pair => pair.1.cell pair.2
  else .error (.rowWidth .chunk row.length c.segments.size)

def pushFrom (segments : Array Segment) (column : Nat) : List Value → Array Segment
  | [] => segments
  | v :: rest => pushFrom (segments.modify column (·.push v)) (column+1) rest

def push (c : Chunk) (cells : List Value) : Chunk := ⟨pushFrom c.segments 0 cells⟩

def append (c : Chunk) (row : List Value) : Except Error Chunk := (c.cells row).map c.push

/-- The segments that have grown so far, those still to come and what is left of the row. -/
def fillFrom (length : Nat) (done : List Segment) : List Segment → List Value → Except Error Unit × List Segment
  | s :: todo,v :: row => match s.append v with
    | .ok grown => fillFrom length (done ++ [grown]) todo row
    | .error e => (.error e,done.map (·.truncate length) ++ s :: todo)
  | todo,_ => (.ok (),done ++ todo)

def fill (c : Chunk) (row : List Value) : Except Error Unit × Chunk :=
  if row.length = c.segments.size then
    let (outcome,segments) := fillFrom c.length [] c.segments.toList row
    (outcome,⟨segments.toArray⟩)
  else (.error (.rowWidth .chunk row.length c.segments.size),c)

theorem pushFromSize (segments : Array Segment) (column : Nat) (cells : List Value) :
    (pushFrom segments column cells).size = segments.size := by
  induction cells generalizing segments column with
  | nil => rfl
  | cons v rest ih => simp [pushFrom,ih]

theorem pushFromBefore {segments : Array Segment} {column i : Nat} {cells : List Value}
    (before : i < column) : (pushFrom segments column cells)[i]? = segments[i]? := by
  induction cells generalizing segments column with
  | nil => rfl
  | cons v rest ih =>
    rw [pushFrom,ih (by omega),Array.getElem?_modify,if_neg (by omega)]

theorem pushFromAt {segments : Array Segment} {column i : Nat} {cells : List Value} {v : Value}
    (present : cells[i]? = some v) :
    (pushFrom segments column cells)[column+i]? = segments[column+i]?.map (·.push v) := by
  induction cells generalizing segments column i with
  | nil => simp at present
  | cons w rest ih =>
    cases i with
    | zero =>
      cases Option.some.inj present
      rw [pushFrom,pushFromBefore (by omega)]
      simp [Array.getElem?_modify]
    | succ i =>
      have next : (pushFrom (segments.modify column (·.push w)) (column+1) rest)[column+1+i]? = _ :=
        ih present
      rw [pushFrom,show column+(i+1) = column+1+i by omega,next,Array.getElem?_modify,
        if_neg (by omega)]

end Chunk
end ColumnStore
