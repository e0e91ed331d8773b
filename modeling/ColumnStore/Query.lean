import ColumnStore.Scan
/-! Queries: a table, by identity or by name, under any number of scans. Each scan works on the result of the
query inside it. -/
namespace ColumnStore

inductive Query where
  | table (id : TableId)
  | named (name : String)
  | select (input : Query) (predicate : Predicate)

namespace Query

/-- A query without a scan gives the very table that it names. -/
def run (db : Database) : Query → Except Error TableId × Database
  | .table id => (.ok id,db.share id)
  | .named name => (db.catalog.get name,db)
  | .select input p => match input.run db with
    | (.error e,db) => (.error e,db)
    | (.ok id,db) => db.scan id p

def selectAll (input : Query) (steps : List Predicate) : Query := steps.foldl .select input

end Query
end ColumnStore
