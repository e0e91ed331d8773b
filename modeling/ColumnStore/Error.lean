import ColumnStore.DataType
import ColumnStore.Numeral.Integer
/-! Everything that the store can refuse, by cause. A place is what an index ran past the end of, a holder what
a row was appended to. Each cause has one kind; its message is the heading of the kind in front of the
particulars. -/
namespace ColumnStore
open Numeral (natText)

inductive Place where
  | valueSegment | codeVector | dictionary | referenceSegment
  | chunkColumns | tableColumns | tableChunks
  deriving DecidableEq, Repr

def Place.name : Place → String
  | .valueSegment => "value segment"
  | .codeVector => "attribute vector"
  | .dictionary => "dictionary"
  | .referenceSegment => "reference segment"
  | .chunkColumns => "chunk columns"
  | .tableColumns => "table columns"
  | .tableChunks => "table chunks"

inductive Holder where
  | chunk | table
  deriving DecidableEq, Repr

def Holder.name : Holder → String
  | .chunk => "chunk"
  | .table => "table"

inductive Error where
  | unconvertible (text : String) (target : DataType)
  | fixedDictionary
  | fixedReference
  | nestedReference
  | notStored (column : Nat)
  | mixedColumn
  | unalignedColumns
  | severalTargets
  | outOfRange (place : Place) (index length : Nat)
  | rowWidth (holder : Holder) (values columns : Nat)
  | lateColumn (name : String)
  | columnLimit (name : String) (columns : Nat)
  | tableExists (name : String)
  | noColumn (name : String)
  | noTable (name : String)
  | unknownType (name : String)
  | badChunkSize (setting raw : String)
  | badSwitch (setting raw : String)
  | zeroChunkSize
  | excessiveChunkSize (limit : Nat)
  | sharedTable
  deriving DecidableEq, Repr

namespace Error

inductive Kind where
  | typeMismatch | unsupported | outOfRange | schemaViolation | notFound | invalidConfig | shared
  deriving DecidableEq, Repr

def Kind.name : Kind → String
  | .typeMismatch => "TypeMismatch"
  | .unsupported => "Unsupported"
  | .outOfRange => "OutOfRange"
  | .schemaViolation => "SchemaViolation"
  | .notFound => "NotFound"
  | .invalidConfig => "InvalidConfig"
  | .shared => "Shared"

def kind : Error → Kind
  | .unconvertible .. => .typeMismatch
  | .fixedDictionary | .fixedReference | .nestedReference | .notStored .. | .mixedColumn
  | .unalignedColumns | .severalTargets => .unsupported
  | .outOfRange .. => .outOfRange
  | .rowWidth .. | .lateColumn .. | .columnLimit .. | .tableExists .. => .schemaViolation
  | .noColumn .. | .noTable .. | .unknownType .. => .notFound
  | .badChunkSize .. | .badSwitch .. | .zeroChunkSize | .excessiveChunkSize .. => .invalidConfig
  | .sharedTable => .shared

def Kind.heading : Kind → String
  | .typeMismatch => "Type mismatch: "
  | .unsupported => "Unsupported operation: "
  | .outOfRange => ""
  | .schemaViolation => "Schema violation: "
  | .notFound => "Not found: "
  | .invalidConfig => "Invalid configuration: "
  | .shared => "Shared table: "

def detail : Error → String
  | .unconvertible text target => "cannot convert '" ++ text ++ "' to " ++ target.name
  | .fixedDictionary => "dictionary segments are immutable"
  | .fixedReference => "reference segments are immutable"
  | .nestedReference => "reference segments resolve a single level of indirection"
  | .notStored column =>
      "column " ++ natText column ++ " of the referenced table is not physically stored"
  | .mixedColumn => "scanned column mixes stored and referenced segments"
  | .unalignedColumns => "chunk columns do not reference the same rows of one table"
  | .severalTargets => "scanned column references more than one table"
  | .outOfRange place index length =>
      "Index " ++ natText index ++ " out of range for " ++ place.name ++ " of length " ++ natText length
  | .rowWidth holder values columns =>
      "row has " ++ natText values ++ " values but " ++ holder.name ++ " has " ++ natText columns ++
        " columns"
  | .lateColumn name => "cannot add column " ++ name ++ " to a table that already holds rows"
  | .columnLimit name columns =>
      "cannot add column " ++ name ++ ", table already has " ++ natText columns ++ " columns"
  | .tableExists name => "table " ++ name ++ " already exists"
  | .noColumn name => "column " ++ name
  | .noTable name => "table " ++ name
  | .unknownType name => "unknown data type: " ++ name
  | .badChunkSize setting raw => setting ++ " is not a row count: " ++ raw
  | .badSwitch setting raw => setting ++ " is not a boolean: " ++ raw
  | .zeroChunkSize => "max_chunk_size must be positive"
  | .excessiveChunkSize limit => "max_chunk_size must not exceed " ++ natText limit
  | .sharedTable => "only an unshared table can be changed"

def message (e : Error) : String := e.kind.heading ++ e.detail

end Error

def DataType.read (text : String) : Except Error DataType :=
  match ofName? text with
  | some t => .ok t
  | none => .error (.unknownType text)

end ColumnStore
