import ColumnStore.Value.Basic
/-! The order of the elements of one column, which sorting, deduplication, bound search and predicates share.
Whole numbers have their natural order, fractions the order of their ranks, and texts the order of
their code points. -/
namespace ColumnStore

namespace DataType.Elem

def order : {t : DataType} → t.Elem → t.Elem → Ordering
  | .int, a, b => compare a.toInt b.toInt
  | .long, a, b => compare a.toInt b.toInt
  | .float, a, b => compare a.rank b.rank
  | .double, a, b => compare a.rank b.rank
  | .string, a, b => compare a b

end DataType.Elem

end ColumnStore
