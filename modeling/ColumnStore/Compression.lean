import ColumnStore.Database
/-! Compression: the segments of a chunk are replaced by dictionaries of their columns' types. The values are
read first, through references too, so a failure leaves the chunk as it was. -/
namespace ColumnStore
namespace Database

def elems (db : Database) (s : Segment) (type : DataType) : Except Error (Array type.Elem) :=
  ((List.range s.length).mapM fun offset => do
    (← db.read s offset).cast type).map List.toArray

def encode (db : Database) (s : Segment) (type : DataType) : Except Error (Dictionary type) :=
  (db.elems s type).map Dictionary.ofElems

def compressed (db : Database) (s : Segment) (type : DataType) : Except Error Segment :=
  (db.encode s type).map (Segment.encoded type)

/-- In parallel every column is encoded before any of them is looked at, else the columns after a failed
one are never begun. -/
def compressedChunk (db : Database) (c : Chunk) (types : Array DataType) (parallel : Bool) :
    Except Error Chunk := do
  let work := (c.segments.zip types).toList
  let segments ←
    if parallel then (work.map fun pair => db.compressed pair.1 pair.2).mapM id
    else work.mapM fun pair => db.compressed pair.1 pair.2
  return ⟨segments.toArray⟩

/-- Works on shared tables too, since the values stay. -/
def compress (db : Database) (id : TableId) (chunk : Nat) : Except Error Unit × Database :=
  let table := db.table id
  match table.chunk chunk >>= fun c => db.compressedChunk c table.types table.parallelCompression with
  | .error e => (.error e,db)
  | .ok c => (.ok (),db.modify id (·.setChunk chunk c))

end Database
end ColumnStore
