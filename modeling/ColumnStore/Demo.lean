import ColumnStore.Listing
import ColumnStore.Query
import ColumnStore.Text.Quoted
/-! A demonstration: people in small chunks, of which the full ones are compressed, two scans one over the
other, and a listing of what came out. The environment sets the size of the chunks. -/
namespace ColumnStore.Demo

def chunkSize : Nat := 4

def people : List (Int32 × String) :=
  [(1,"Bill"),(2,"Steve"),(3,"Alexander"),(4,"Steve"),(5,"Hasso"),(6,"Bill"),(7,"Steve"),(8,"Grace"),
    (9,"Ada"),(10,"Steve")]

abbrev Steps := ExceptT Error (StateM Database)

def step {α : Type} (f : Database → Except Error α × Database) : Steps α := ExceptT.mk fun db => f db

/-- A variable that is set to no readable text still counts as set here. -/
def config (size parallel : Setting) : Except Error Config := do
  let c ← Config.ofEnvironment size parallel
  return if size.isSet then c else { c with maxChunkSize := chunkSize }

def fill (id : TableId) : Steps Unit := do
  step (·.addColumn id ⟨"id",.int⟩)
  step (·.addColumn id ⟨"name",.string⟩)
  people.forM fun (number,name) => step (·.append id [.int number,.string name])

/-- Only chunks without room are compressed, since a compressed one takes no more rows. -/
def compressFull (id : TableId) : Steps Unit := do
  let t := (← get).table id
  (List.range t.chunks.size).forM fun chunk => do
    if (← t.chunk chunk).length = t.maxChunkSize then step (·.compress id chunk)

def steves : Query :=
  .select (.select (.named "people") ⟨0,.greaterThan,.int 2⟩) ⟨1,.equals,.string "Steve"⟩

def report : Steps String := do
  let id ← modifyGet (·.insert (.ofConfig (← get).catalog.config))
  fill id
  compressFull id
  step (·.register "people" id)
  let result ← step fun db => steves.run db
  step (·.register "steves" result)
  let db ← get
  return db.catalogListing ++ "\n" ++ (← db.rowListing (db.table result))

structure Outcome where
  status : Nat
  output : String
  errors : String
  deriving DecidableEq, Repr

def failure (e : Error) : Outcome :=
  ⟨1,"","Error: " ++ e.kind.name ++ "(" ++ Text.quoted e.detail ++ ")\n"⟩

def run (size parallel : Setting) : Outcome :=
  match config size parallel with
  | .error e => failure e
  | .ok c => match (report.run { catalog := { config := c } }).1 with
    | .error e => failure e
    | .ok text => ⟨0,text,""⟩

end ColumnStore.Demo
