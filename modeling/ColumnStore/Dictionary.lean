import ColumnStore.CodeVector
import ColumnStore.Sorted
import ColumnStore.Value.Cast
import ColumnStore.Value.Order
/-! Dictionary-encoded columns: every distinct element once, in ascending order, and for every row the index
of its element. -/
namespace ColumnStore

structure Dictionary (t : DataType) where
  entries : Array t.Elem
  codes : CodeVector
  deriving DecidableEq

namespace Dictionary
variable {t : DataType}

/-! Bounds are codes; an element that no entry reaches has none, which a code that is never given out marks.
Below are positions among the entries, found by binary search. -/
def missing : UInt32 := 4294967295

def countBelow (entries : Array t.Elem) (x : t.Elem) : Nat :=
  partitionPoint (fun entry => entry.order x == .lt) entries

def countUpTo (entries : Array t.Elem) (x : t.Elem) : Nat :=
  partitionPoint (fun entry => entry.order x != .gt) entries

/-- Of elements that compare equal, such as the two zeros, the first one becomes the entry. -/
def ofElems (elems : Array t.Elem) : Dictionary t :=
  let entries := (distinct DataType.Elem.order elems.toList).toArray
  ⟨entries,.ofCodes entries.size (elems.map fun x => UInt32.ofNat (countBelow entries x))⟩

def length (d : Dictionary t) : Nat := d.codes.length

def entry (d : Dictionary t) (code : UInt32) : Except Error t.Elem :=
  match d.entries[code.toNat]? with
  | some x => .ok x
  | none => .error (.outOfRange .dictionary code.toNat d.entries.size)

def get (d : Dictionary t) (offset : Nat) : Except Error t.Elem := do
  d.entry (← d.codes.get offset)

def bound (d : Dictionary t) (position : Nat) : UInt32 :=
  if position = d.entries.size then missing else UInt32.ofNat position

def lowerBound (d : Dictionary t) (x : t.Elem) : UInt32 := d.bound (countBelow d.entries x)

def upperBound (d : Dictionary t) (x : t.Elem) : UInt32 := d.bound (countUpTo d.entries x)

/-! The bounds of a value of any type, which is converted to the type of the entries first. -/
def lowerBoundOf (d : Dictionary t) (v : Value) : Except Error UInt32 := (v.cast t).map d.lowerBound

def upperBoundOf (d : Dictionary t) (v : Value) : Except Error UInt32 := (v.cast t).map d.upperBound

def memory (d : Dictionary t) : Nat := d.entries.size*t.size+d.codes.memory

def same (d e : Dictionary t) : Bool :=
  d.codes == e.codes && d.entries.size == e.entries.size &&
    (d.entries.zip e.entries).all fun pair => pair.1.same pair.2

end Dictionary
end ColumnStore
