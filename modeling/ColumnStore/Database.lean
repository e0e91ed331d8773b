import ColumnStore.Catalog
import ColumnStore.Table
/-! Tables by identity, and names for some of them. A reference names its table by identity, so it sees that
table as it is now. A table that a reference or a name may hold is shared, and from then on its rows
and columns are fixed. -/
namespace ColumnStore

structure Slot where
  table : Table
  shared : Bool

structure Database where
  slots : Array Slot := #[]
  catalog : Catalog := {}

namespace Database

def insert (db : Database) (table : Table) : TableId × Database :=
  (db.slots.size,{ db with slots := db.slots.push ⟨table,false⟩ })

/-- An identity that was never given out denotes a table without columns. -/
def table (db : Database) (id : TableId) : Table := match db.slots[id]? with
  | some slot => slot.table
  | none => .ofConfig {}

def isShared (db : Database) (id : TableId) : Bool := match db.slots[id]? with
  | some slot => slot.shared
  | none => false

def share (db : Database) (id : TableId) : Database :=
  { db with slots := db.slots.modify id fun slot => { slot with shared := true } }

def modify (db : Database) (id : TableId) (f : Table → Table) : Database :=
  { db with slots := db.slots.modify id fun slot => { slot with table := f slot.table } }

def changeable (db : Database) (id : TableId) : Except Error Table :=
  if db.isShared id then .error .sharedTable else .ok (db.table id)

/-- A change of one table: its outcome, and the database after it. The check decides whether the change is
refused and what it needs. -/
@[inline] def change {α : Type} (db : Database) (id : TableId) (check : Table → Except Error α)
    (step : Table → α → Table) : Except Error Unit × Database :=
  match db.changeable id >>= check with
  | .error e => (.error e,db)
  | .ok needed => (.ok (),db.modify id fun t => step t needed)

def addColumn (db : Database) (id : TableId) (c : Column) : Except Error Unit × Database :=
  db.change id (·.checkColumn c.name) fun t _ => t.pushColumn c

def append (db : Database) (id : TableId) (row : List Value) : Except Error Unit × Database :=
  db.change id (·.cells row) (·.pushCells ·)

def startChunk (db : Database) (id : TableId) : Except Error Unit × Database :=
  db.change id (fun _ => .ok ()) fun t _ => t.startChunk

def valueAt (db : Database) (view : Reference) (row : RowId) : Except Error Value := do
  let chunk ← (db.table view.table).chunk row.chunk.toNat
  let segment ← chunk.segment view.column.toNat
  segment.stored row.offset.toNat

def read (db : Database) (s : Segment) (offset : Nat) : Except Error Value :=
  match s with
  | .reference view => match view.rows[offset]? with
    | some row => db.valueAt view row
    | none => .error (.outOfRange .referenceSegment offset view.rows.size)
  | s => s.stored offset

def readAll (db : Database) (s : Segment) : List (Except Error Value) :=
  (List.range s.length).map (db.read s)

/-- A description of rows of one column. A column that is itself made of references is refused; the rows
are not looked at. -/
def view (db : Database) (id : TableId) (column : ColumnId) (rows : Array RowId) :
    Except Error Reference := do
  let target := db.table id
  let found ← target.column column.toNat
  target.chunks.toList.forM fun chunk => do
    if (← chunk.segment column.toNat).isReference then throw (.notStored column.toNat)
  return ⟨id,column,found.type,rows⟩

def refer (db : Database) (id : TableId) (column : ColumnId) (rows : Array RowId) :
    Except Error Reference × Database :=
  (db.view id column rows,db.share id)

def register (db : Database) (name : String) (id : TableId) : Except Error Unit × Database :=
  let db := db.share id
  match db.catalog.add name id with
  | .error e => (.error e,db)
  | .ok catalog => (.ok (),{ db with catalog })

def create (db : Database) (name : String) : Except Error Unit × Database :=
  match db.catalog.checkNew name with
  | .error e => (.error e,db)
  | .ok _ =>
    let (id,db) := db.insert (.ofConfig db.catalog.config)
    db.register name id

def drop (db : Database) (name : String) : Except Error TableId × Database :=
  match db.catalog.remove name with
  | .error e => (.error e,db)
  | .ok (id,catalog) => (.ok id,{ db with catalog })

theorem tableModify {db : Database} {id : TableId} (live : id < db.slots.size) (f : Table → Table) :
    (db.modify id f).table id = f (db.table id) := by
  simp [modify,table,live,Array.getElem_modify]

theorem tableModifyOther (db : Database) {id other : TableId} (apart : id ≠ other) (f : Table → Table) :
    (db.modify id f).table other = db.table other := by
  simp [modify,table,Array.getElem?_modify,apart]

theorem tableShare (db : Database) (id other : TableId) : (db.share id).table other = db.table other := by
  simp only [share,table,Array.getElem?_modify]
  by_cases same : id = other
  · subst same
    cases db.slots[id]? <;> simp
  · simp [same]

theorem tableInsert (db : Database) (t : Table) : (db.insert t).2.table (db.insert t).1 = t := by
  simp [insert,table]

theorem tableInsertOther (db : Database) (t : Table) {other : TableId} (live : other < db.slots.size) :
    (db.insert t).2.table other = db.table other := by
  simp [insert,table,Array.getElem?_push,Nat.ne_of_lt live]

theorem changeRefused {α : Type} {db : Database} {id : TableId} {check : Table → Except Error α}
    {step : Table → α → Table} {e : Error} (refused : (db.change id check step).1 = .error e) :
    (db.change id check step).2 = db := by
  simp only [change] at refused ⊢
  split <;> simp_all

end Database
end ColumnStore
