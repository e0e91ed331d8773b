import ColumnStore.Error
import ColumnStore.Text.Blank
/-! Settings of tables: how many rows fill a chunk, and whether its columns are encoded independently of one
another. They are read from the environment, where an unset variable leaves the default. Of two
faulty settings an unreadable row count is reported first, then an unreadable switch, then a row
count outside its limits. -/
namespace ColumnStore
open Numeral (readNatural?)

structure Config where
  maxChunkSize : Nat := 65535
  parallelCompression : Bool := true
  deriving DecidableEq, Repr

/-- A variable of the environment. Bytes that are not UTF-8 are set but cannot be read. -/
inductive Setting where
  | unset
  | text (raw : String)
  | unreadable
  deriving DecidableEq, Repr

namespace Setting

def isSet : Setting → Bool
  | .unset => false
  | _ => true

def text? : Setting → Option String
  | .text raw => some raw
  | _ => none

end Setting

namespace Config

def chunkSizeName : String := "FLINTCOL_MAX_CHUNK_SIZE"
def parallelName : String := "FLINTCOL_PARALLEL_COMPRESSION"

def greatestChunkSize : Nat := UInt32.size-1

def readSize? (raw : String) : Option Nat := do
  let digits := match Text.trim raw.toList with
    | '+' :: rest => rest
    | text => text
  let n ← readNatural? digits
  if n < UInt64.size then some n else none

def readSwitch? (raw : String) : Option Bool :=
  let word := String.ofList ((Text.trim raw.toList).map Char.toLower)
  if word ∈ ["1","true","yes","on"] then some true
  else if word ∈ ["0","false","no","off"] then some false
  else none

def validate (c : Config) : Except Error Config :=
  if c.maxChunkSize = 0 then .error .zeroChunkSize
  else if greatestChunkSize < c.maxChunkSize then .error (.excessiveChunkSize greatestChunkSize)
  else .ok c

def withSize (c : Config) (setting : Setting) : Except Error Config :=
  match setting.text? with
  | none => .ok c
  | some raw => match readSize? raw with
    | some n => .ok { c with maxChunkSize := n }
    | none => .error (.badChunkSize chunkSizeName raw)

def withSwitch (c : Config) (setting : Setting) : Except Error Config :=
  match setting.text? with
  | none => .ok c
  | some raw => match readSwitch? raw with
    | some on => .ok { c with parallelCompression := on }
    | none => .error (.badSwitch parallelName raw)

def ofEnvironment (chunkSize parallel : Setting) : Except Error Config := do
  let sized ← ({} : Config).withSize chunkSize
  let switched ← sized.withSwitch parallel
  switched.validate

end Config
end ColumnStore
