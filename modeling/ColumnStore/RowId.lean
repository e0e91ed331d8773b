import ColumnStore.Sorted
/-! Addresses of rows, a chunk of a table and an offset in that chunk, ordered by chunk first. -/
namespace ColumnStore

structure RowId where
  chunk : UInt32
  offset : UInt32
  deriving DecidableEq, Repr

namespace RowId

def order (a b : RowId) : Ordering :=
  (compare a.chunk.toNat b.chunk.toNat).then (compare a.offset.toNat b.offset.toNat)

def ascending (rows : List RowId) : List RowId := distinct order rows

def size : Nat := 8

end RowId
end ColumnStore
