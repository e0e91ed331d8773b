import ColumnStore.Chunk
import ColumnStore.Config
/-! Tables: chunks that share one list of columns. Rows fill the last chunk up to its greatest size, then a new
chunk is started. Each change is a check that reads the table and a step that cannot fail, so a
refused change leaves nothing behind. -/
namespace ColumnStore

structure Column where
  name : String
  type : DataType
  deriving DecidableEq, Repr

structure Table where
  columns : Array Column
  chunks : Array Chunk
  maxChunkSize : Nat
  parallelCompression : Bool

namespace Table

def ofConfig (c : Config) : Table :=
  ⟨#[],#[.empty],max 1 (min c.maxChunkSize Config.greatestChunkSize),c.parallelCompression⟩

def ofChunkSize (size : Nat) : Table := ofConfig { maxChunkSize := size }

def ofReferences (columns : Array Column) (views : Array Reference) : Table :=
  let chunk : Chunk := ⟨views.map Segment.reference⟩
  ⟨columns,#[chunk],max 1 chunk.length,({} : Config).parallelCompression⟩

def types (t : Table) : Array DataType := t.columns.map Column.type

def rowCount (t : Table) : Nat := t.chunks.foldr (fun c n => c.length+n) 0

def memory (t : Table) : Nat := t.chunks.foldr (fun c n => c.memory+n) 0

def column (t : Table) (id : Nat) : Except Error Column :=
  match t.columns[id]? with
  | some c => .ok c
  | none => .error (.outOfRange .tableColumns id t.columns.size)

def columnId (t : Table) (name : String) : Except Error ColumnId :=
  match t.columns.findIdx? fun c => c.name == name with
  | some id => .ok (UInt16.ofNat id)
  | none => .error (.noColumn name)

def chunk (t : Table) (id : Nat) : Except Error Chunk :=
  match t.chunks[id]? with
  | some c => .ok c
  | none => .error (.outOfRange .tableChunks id t.chunks.size)

def greatestWidth : Nat := UInt16.size

def checkColumn (t : Table) (name : String) : Except Error Unit :=
  if 0 < t.rowCount then .error (.lateColumn name)
  else if greatestWidth ≤ t.columns.size then .error (.columnLimit name t.columns.size)
  else .ok ()

def pushColumn (t : Table) (c : Column) : Table :=
  { t with
    columns := t.columns.push c
    chunks := t.chunks.map fun chunk => ⟨chunk.segments.push (.empty c.type)⟩ }

def emptyChunk (t : Table) : Chunk := .ofTypes t.types

/-- An empty chunk is started even when the last one has room. -/
def startChunk (t : Table) : Table := { t with chunks := t.chunks.push t.emptyChunk }

def hasRoom (t : Table) : Bool := match t.chunks.back? with
  | some last => decide (last.length < t.maxChunkSize)
  | none => false

/-- What the columns would take in of a row: those of the last chunk while it has room, else those of
a chunk yet to be started. -/
def cells (t : Table) (row : List Value) : Except Error (List Value) :=
  if row.length = t.columns.size then
    match t.hasRoom, t.chunks.back? with
    | true, some last => last.cells row
    | _, _ => t.emptyChunk.cells row
  else .error (.rowWidth .table row.length t.columns.size)

def pushCells (t : Table) (cells : List Value) : Table :=
  if t.hasRoom then { t with chunks := t.chunks.modify (t.chunks.size-1) (·.push cells) }
  else { t with chunks := t.chunks.push (t.emptyChunk.push cells) }

def setChunk (t : Table) (id : Nat) (chunk : Chunk) : Table :=
  { t with chunks := t.chunks.setIfInBounds id chunk }

/-- A row put into a table in place: into its last chunk while that has room, else into a chunk that joins the others only
once it has taken in the row. -/
def fill (t : Table) (row : List Value) : Except Error Unit × Table :=
  if row.length = t.columns.size then
    match t.hasRoom,t.chunks.back? with
    | true,some last =>
      let (outcome,filled) := last.fill row
      (outcome,t.setChunk (t.chunks.size-1) filled)
    | _,_ => match t.emptyChunk.fill row with
      | (.ok _,filled) => (.ok (),{ t with chunks := t.chunks.push filled })
      | (.error e,_) => (.error e,t)
  else (.error (.rowWidth .table row.length t.columns.size),t)

end Table
end ColumnStore
