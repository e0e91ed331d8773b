import ColumnStore.Comparator
import ColumnStore.Config
import ColumnStore.Json.Tree
import ColumnStore.RowId
import ColumnStore.Value.Cast
/-! JSON forms of settings, values, types, comparators and row addresses. A record is an object, or an array of
its fields in order; unknown fields of an object are passed over and known ones may come once. A
choice is its name, or an object with that name and null; a value is an object with its type's tag.
Settings that are not given keep their defaults. Written forms have no blanks; fractions are read but not
written. -/
namespace ColumnStore.Json

def recordFields? (names : List String) : Tree → Option (List (Option Tree))
  | .object fields => do
    let named ← fields.mapM fun field => field.1.map fun name => (name,field.2)
    if names.all fun name => (named.filter fun field => field.1 == name).length ≤ 1 then
      some (names.map fun name => named.lookup name)
    else none
  | .array items =>
    if items.length ≤ names.length then some ((List.range names.length).map fun i => items[i]?)
    else none
  | _ => none

def choice? : Tree → Option (String × Option Tree)
  | .text (some name) => some (name,none)
  | .object [(some name,payload)] => some (name,some payload)
  | _ => none

def bareChoice? (tree : Tree) : Option String := do
  match ← choice? tree with
  | (name,none) => some name
  | (name,some .null) => some name
  | _ => none

def integerIn? (least greatest : Int) : Tree → Option Int
  | .number x => do
    let n ← x.integer?
    if least ≤ n ∧ n ≤ greatest then some n else none
  | _ => none

def bool? : Tree → Option Bool
  | .bool value => some value
  | _ => none

def quotedCharacter (c : Char) : List Char :=
  match c with
  | '"' => ['\\','"']
  | '\\' => ['\\','\\']
  | '\x08' => ['\\','b']
  | '\x0c' => ['\\','f']
  | '\n' => ['\\','n']
  | '\r' => ['\\','r']
  | '\t' => ['\\','t']
  | c => if c.toNat < 0x20 then
      ['\\','u','0','0',Nat.digitChar (c.toNat/16),Nat.digitChar (c.toNat%16)]
    else [c]

def quoted (s : String) : String := "\"" ++ String.ofList (s.toList.flatMap quotedCharacter) ++ "\""

def writeObject (fields : List (String × String)) : String :=
  "\x7b" ++ ",".intercalate (fields.map fun field => quoted field.1 ++ ":" ++ field.2) ++ "\x7d"

def writeNatural (n : Nat) : String := Numeral.natText n

def writeInteger (n : Int) : String := String.ofList (Numeral.writeInteger n)

def writeBool (b : Bool) : String := if b then "true" else "false"

end ColumnStore.Json

namespace ColumnStore
open Json

namespace Config

def ofJson? (text : String) : Option Config := do
  match ← recordFields? ["max_chunk_size","parallel_compression"] (← Tree.read? text) with
  | [size,parallel] =>
    let initial : Config := {}
    let size ← match size with
      | some tree => (integerIn? 0 (UInt64.size-1) tree).map Int.toNat
      | none => some initial.maxChunkSize
    let parallel ← match parallel with
      | some tree => bool? tree
      | none => some initial.parallelCompression
    some ⟨size,parallel⟩
  | _ => none

def toJson (c : Config) : String :=
  writeObject [("max_chunk_size",writeNatural c.maxChunkSize),
    ("parallel_compression",writeBool c.parallelCompression)]

end Config

namespace RowId

def ofJson? (text : String) : Option RowId := do
  match ← recordFields? ["chunk_id","chunk_offset"] (← Tree.read? text) with
  | [some chunk,some offset] =>
    let chunk ← integerIn? 0 (UInt32.size-1) chunk
    let offset ← integerIn? 0 (UInt32.size-1) offset
    some ⟨UInt32.ofNat chunk.toNat,UInt32.ofNat offset.toNat⟩
  | _ => none

def toJson (r : RowId) : String :=
  writeObject [("chunk_id",writeNatural r.chunk.toNat),("chunk_offset",writeNatural r.offset.toNat)]

end RowId

namespace DataType

def ofJson? (text : String) : Option DataType := do
  ofName? (← bareChoice? (← Tree.read? text))

def toJson (t : DataType) : String := quoted t.name

end DataType

namespace Comparator

def ofJson? (text : String) : Option Comparator := do
  ofName? (← bareChoice? (← Tree.read? text))

def toJson (c : Comparator) : String := quoted c.name

end Comparator

namespace Value

def ofTagged? (tag : String) (payload : Tree) : Option Value := do
  match ← DataType.all.find? (fun t => t.tag == tag), payload with
  | .int, payload => (integerIn? leastInt greatestInt payload).map fun n => .int (Int32.ofInt n)
  | .long, payload => (integerIn? leastLong greatestLong payload).map fun n => .long (Int64.ofInt n)
  | .float, .number x => x.single?.map .float
  | .double, .number x => x.double?.map .double
  | .string, .text (some s) => some (.string s)
  | _, _ => none

def ofJson? (text : String) : Option Value := do
  match ← choice? (← Tree.read? text) with
  | (tag,some payload) => ofTagged? tag payload
  | (_,none) => none

def toJson? : Value → Option String
  | int n => some (writeObject [(DataType.int.tag,writeInteger n.toInt)])
  | long n => some (writeObject [(DataType.long.tag,writeInteger n.toInt)])
  | float _ => none
  | double _ => none
  | string s => some (writeObject [(DataType.string.tag,quoted s)])

end Value
end ColumnStore
