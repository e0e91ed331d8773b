import ColumnStore.Comparator
import ColumnStore.Compression
/-! Scans: the rows of a table whose element in one column compares with a search value as asked. The result is
a table of one chunk whose columns are references. A scan of stored columns refers to the table
scanned; a scan of references refers to the same table as they do, so references never chain. -/
namespace ColumnStore

structure Predicate where
  column : ColumnId
  comparator : Comparator
  value : Value

def rowsWhere {α : Type} (chunk : Nat) (xs : Array α) (test : α → Bool) : Array RowId :=
  xs.zipIdx.filterMap fun pair =>
    if test pair.1 then some ⟨UInt32.ofNat chunk,UInt32.ofNat pair.2⟩ else none

namespace Dictionary
variable {t : DataType}

def scan (d : Dictionary t) (chunk : Nat) (c : Comparator) (x : t.Elem) : Array RowId :=
  let entries := UInt32.ofNat d.entries.size
  let close (bound : UInt32) : UInt32 := if bound = missing then entries else bound
  let lower := close (d.lowerBound x)
  let upper := close (d.upperBound x)
  if c.excludesAll lower upper entries then #[]
  else rowsWhere chunk d.codes.codes fun code => c.holdsCode code lower upper

end Dictionary

inductive ScanSource where
  | unknown
  | stored
  | views (table : TableId) (columns : List ColumnId)
  deriving DecidableEq, Repr

namespace ScanSource

def meetStored : ScanSource → Except Error ScanSource
  | .unknown | .stored => .ok .stored
  | .views .. => .error .mixedColumn

/-- The columns that a chunk's segments refer to. All of them must refer to the same rows of one table as
the scanned one does. -/
def alignedColumns (c : Chunk) (scanned : Reference) : Except Error (List ColumnId) :=
  c.segments.toList.mapM fun s => match s with
    | .reference view =>
        if view.table = scanned.table ∧ view.rows = scanned.rows then .ok view.column
        else .error .unalignedColumns
    | _ => .error .unalignedColumns

def meetViews (source : ScanSource) (c : Chunk) (scanned : Reference) : Except Error ScanSource := do
  let columns ← alignedColumns c scanned
  match source with
  | .unknown => return .views scanned.table columns
  | .views table seen =>
      if table = scanned.table ∧ seen = columns then return source else throw .severalTargets
  | .stored => throw .mixedColumn

end ScanSource

namespace Database

/-- The rows of one chunk that pass, or for references the rows referred to, and what the column has been
made of up to here. Stored elements are compared in the type of their segment, referenced ones in
the type of the scanned column. -/
def scanChunk (db : Database) (type : DataType) (p : Predicate) (source : ScanSource) (c : Chunk)
    (id : Nat) : Except Error (ScanSource × Array RowId) := do
  match ← c.segment p.column.toNat with
  | .plain own elems =>
      let source ← source.meetStored
      let x ← p.value.cast own
      return (source,rowsWhere id elems fun y => p.comparator.holds (y.order x))
  | .encoded own column =>
      let source ← source.meetStored
      let x ← p.value.cast own
      return (source,column.scan id p.comparator x)
  | .reference view =>
      let source ← source.meetViews c view
      let x ← p.value.cast type
      let rows ← view.rows.foldlM (fun kept row => do
        let y ← (← db.valueAt view row).cast type
        return if p.comparator.holds (y.order x) then kept.push row else kept) #[]
      return (source,rows)

def scanChunks (db : Database) (type : DataType) (p : Predicate) (chunks : Array Chunk) :
    Except Error (ScanSource × Array RowId) :=
  chunks.zipIdx.foldlM (fun state pair => do
    let (source,found) ← db.scanChunk type p state.1 pair.1 pair.2
    return (source,state.2 ++ found)) (ScanSource.unknown,#[])

def scanned (db : Database) (id : TableId) (p : Predicate) : Except Error Table := do
  let input := db.table id
  let found ← input.column p.column.toNat
  discard <| p.value.cast found.type
  let (source,rows) ← db.scanChunks found.type p input.chunks
  let (target,columns) := match source with
    | .views table columns => (table,columns)
    | .unknown | .stored => (id,(List.range input.columns.size).map UInt16.ofNat)
  let views ← columns.mapM fun column => db.view target column rows
  return .ofReferences input.columns views.toArray

/-- The result becomes a table of its own, which nothing shares yet; the table scanned is shared from here
on. -/
def scan (db : Database) (id : TableId) (p : Predicate) : Except Error TableId × Database :=
  let db := db.share id
  match db.scanned id p with
  | .error e => (.error e,db)
  | .ok table => let (result,db) := db.insert table; (.ok result,db)

end Database
end ColumnStore
