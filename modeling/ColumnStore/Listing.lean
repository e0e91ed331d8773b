import ColumnStore.Database
/-! Plain listings: one line for every named table, and the rows of one table. Fields are set apart by bars. -/
namespace ColumnStore
namespace Database

def line (fields : List String) : String := " | ".intercalate fields ++ "\n"

def heading : String := line ["table name","column count","row count","chunk count"]

def summary (name : String) (t : Table) : String :=
  line [name,Numeral.natText t.columns.size,Numeral.natText t.rowCount,Numeral.natText t.chunks.size]

/-- A heading, and the counts of every named table in the order of the names. A name without a table would
be passed over. -/
def catalogListing (db : Database) : String :=
  String.join (heading :: db.catalog.order.filterMap fun name =>
    (db.catalog.tables.lookup name).map fun id => summary name (db.table id))

def row (db : Database) (c : Chunk) (offset : Nat) : Except Error (List Value) :=
  c.segments.toList.mapM fun s => db.read s offset

def rowListing (db : Database) (t : Table) : Except Error String := do
  let rows ← (t.chunks.toList.flatMap fun c => (List.range c.length).map fun offset => (c,offset)).mapM
    fun place => db.row place.1 place.2
  return String.join (line (t.columns.toList.map Column.name) ::
    rows.map fun values => line (values.map Value.text))

end Database
end ColumnStore
