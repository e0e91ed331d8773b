import ColumnStore.Error
/-! Dictionary codes, one per row, stored in the fewest bytes that the size of the dictionary allows. A code
that is too wide for its vector loses its high bits. -/
namespace ColumnStore

inductive CodeWidth where
  | one | two | four
  deriving DecidableEq, Repr

namespace CodeWidth

def bytes : CodeWidth → Nat
  | .one => 1
  | .two => 2
  | .four => 4

def codes : CodeWidth → Nat
  | .one => UInt8.size
  | .two => UInt16.size
  | .four => UInt32.size

/-- The greatest code of a width is always left over, since no dictionary has as many entries. -/
def forEntries (entries : Nat) : CodeWidth :=
  if entries < codes .one then .one else if entries < codes .two then .two else .four

def cut (width : CodeWidth) (code : UInt32) : UInt32 := UInt32.ofNat (code.toNat % width.codes)

end CodeWidth

structure CodeVector where
  width : CodeWidth
  codes : Array UInt32
  deriving DecidableEq, Repr

namespace CodeVector

def zeros (entries length : Nat) : CodeVector := ⟨.forEntries entries,Array.replicate length 0⟩

def ofCodes (entries : Nat) (codes : Array UInt32) : CodeVector :=
  ⟨.forEntries entries,codes.map (CodeWidth.forEntries entries).cut⟩

def length (v : CodeVector) : Nat := v.codes.size

def get (v : CodeVector) (index : Nat) : Except Error UInt32 :=
  match v.codes[index]? with
  | some code => .ok code
  | none => .error (.outOfRange .codeVector index v.length)

def set (v : CodeVector) (index : Nat) (code : UInt32) : Except Error CodeVector :=
  if bound : index < v.codes.size then .ok { v with codes := v.codes.set index (v.width.cut code) }
  else .error (.outOfRange .codeVector index v.length)

def memory (v : CodeVector) : Nat := v.length*v.width.bytes

theorem zerosLength (entries length : Nat) : (zeros entries length).length = length := by
  simp [zeros,CodeVector.length]

theorem getSet {v w : CodeVector} {index : Nat} {code : UInt32} (ok : v.set index code = .ok w) :
    w.get index = .ok (v.width.cut code) := by
  unfold set at ok
  split at ok <;> cases ok
  rename_i bound
  simp [get,bound]

theorem getSetOther {v w : CodeVector} {index other : Nat} {code : UInt32}
    (ok : v.set index code = .ok w) (apart : other ≠ index) : w.get other = v.get other := by
  unfold set at ok
  split at ok <;> cases ok
  simp [get,CodeVector.length,apart.symm]

end CodeVector
end ColumnStore
