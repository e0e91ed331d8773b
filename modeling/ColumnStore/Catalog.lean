import ColumnStore.Segment
import ColumnStore.Config
/-! Names of tables, and the settings of tables that are made by name. The tables are found by their names; the
names are kept besides in the order in which they were given. A name that is dropped and given again moves
to the end. -/
namespace ColumnStore

structure Catalog where
  config : Config := {}
  tables : List (String × TableId) := []
  order : List String := []

namespace Catalog

def get (c : Catalog) (name : String) : Except Error TableId :=
  match c.tables.lookup name with
  | some id => .ok id
  | none => .error (.noTable name)

def contains (c : Catalog) (name : String) : Bool := (c.tables.lookup name).isSome

def names (c : Catalog) : List String := c.order

def checkNew (c : Catalog) (name : String) : Except Error Unit :=
  if c.contains name then .error (.tableExists name) else .ok ()

def add (c : Catalog) (name : String) (id : TableId) : Except Error Catalog := do
  c.checkNew name
  return { c with tables := (name,id) :: c.tables, order := c.order ++ [name] }

def remove (c : Catalog) (name : String) : Except Error (TableId × Catalog) := do
  let id ← c.get name
  return (id,{ c with
    tables := c.tables.filter fun entry => entry.1 != name
    order := c.order.filter fun other => other != name })

def reset (c : Catalog) : Catalog := { c with tables := [], order := [] }

end Catalog
end ColumnStore
