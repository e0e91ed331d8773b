import ColumnStore.Json.Number
/-! JSON texts as trees. The grammar is the strict one: no comments, no trailing commas, no control characters
inside texts. A text in quotes may spell half of a surrogate pair; such a text is part of the tree but
has no characters, so it is refused only where it is looked at. -/
namespace ColumnStore.Json

inductive Tree where
  | null
  | bool (value : Bool)
  | number (value : Number)
  | text (characters : Option String)
  | array (items : List Tree)
  | object (fields : List (Option String × Tree))

def hexValue? (c : Char) : Option Nat :=
  if '0' ≤ c ∧ c ≤ '9' then some (c.toNat - '0'.toNat)
  else if 'a' ≤ c ∧ c ≤ 'f' then some (c.toNat - 'a'.toNat+10)
  else if 'A' ≤ c ∧ c ≤ 'F' then some (c.toNat - 'A'.toNat+10)
  else none

def escaped? : Char → Option Char
  | '"' => some '"'
  | '\\' => some '\\'
  | '/' => some '/'
  | 'b' => some '\x08'
  | 'f' => some '\x0c'
  | 'n' => some '\n'
  | 'r' => some '\r'
  | 't' => some '\t'
  | _ => none

def readUnits? : List Char → Option (List Nat × List Char)
  | [] => none
  | '"' :: rest => some ([],rest)
  | '\\' :: 'u' :: a :: b :: c :: d :: rest => do
      let unit := (← hexValue? a)*4096+(← hexValue? b)*256+(← hexValue? c)*16+(← hexValue? d)
      let (units,rest) ← readUnits? rest
      some (unit :: units,rest)
  | '\\' :: c :: rest => do
      let meant ← escaped? c
      let (units,rest) ← readUnits? rest
      some (meant.toNat :: units,rest)
  | c :: rest => do
      if c.toNat < 0x20 then none else
        let (units,rest) ← readUnits? rest
        some (c.toNat :: units,rest)

def isHigh (unit : Nat) : Bool := decide (0xD800 ≤ unit) && decide (unit ≤ 0xDBFF)
def isLow (unit : Nat) : Bool := decide (0xDC00 ≤ unit) && decide (unit ≤ 0xDFFF)

def characters? : List Nat → Option (List Char)
  | [] => some []
  | high :: low :: rest =>
    if isHigh high && isLow low then
      (characters? rest).map (Char.ofNat (0x10000+(high-0xD800)*0x400+(low-0xDC00)) :: ·)
    else if isHigh high || isLow high then none
    else (characters? (low :: rest)).map (Char.ofNat high :: ·)
  | [unit] => if isHigh unit || isLow unit then none else some [Char.ofNat unit]

def readText? (text : List Char) : Option (Option String × List Char) :=
  (readUnits? text).map fun found => ((characters? found.1).map String.ofList,found.2)

def skipBlanks (text : List Char) : List Char :=
  text.dropWhile fun c => c == ' ' || c == '\n' || c == '\t' || c == '\r'

def afterWord? (word text : List Char) : Option (List Char) :=
  if word.isPrefixOf text then some (text.drop word.length) else none

/-! Values, and the rests of arrays and objects that are not empty, up to their closing mark. Each gives what
it read and what follows. The first argument bounds the number of steps. -/
mutual

def readTree? : Nat → List Char → Option (Tree × List Char)
  | 0, _ => none
  | steps+1, text => match skipBlanks text with
    | '\x7b' :: rest => match skipBlanks rest with
      | '\x7d' :: rest => some (.object [],rest)
      | rest => (readFields? steps rest).map fun found => (.object found.1,found.2)
    | '[' :: rest => match skipBlanks rest with
      | ']' :: rest => some (.array [],rest)
      | rest => (readItems? steps rest).map fun found => (.array found.1,found.2)
    | '"' :: rest => (readText? rest).map fun found => (.text found.1,found.2)
    | 'n' :: rest => (afterWord? ['u','l','l'] rest).map fun rest => (.null,rest)
    | 't' :: rest => (afterWord? ['r','u','e'] rest).map fun rest => (.bool true,rest)
    | 'f' :: rest => (afterWord? ['a','l','s','e'] rest).map fun rest => (.bool false,rest)
    | rest => (Number.read? rest).map fun found => (.number found.1,found.2)

def readItems? : Nat → List Char → Option (List Tree × List Char)
  | 0, _ => none
  | steps+1, text => do
    let (item,rest) ← readTree? steps text
    match skipBlanks rest with
    | ']' :: rest => some ([item],rest)
    | ',' :: rest =>
      let (items,rest) ← readItems? steps rest
      some (item :: items,rest)
    | _ => none

def readFields? : Nat → List Char → Option (List (Option String × Tree) × List Char)
  | 0, _ => none
  | steps+1, text => do
    let (name,rest) ← match skipBlanks text with
      | '"' :: rest => readText? rest
      | _ => none
    let (value,rest) ← match skipBlanks rest with
      | ':' :: rest => readTree? steps rest
      | _ => none
    match skipBlanks rest with
    | '\x7d' :: rest => some ([(name,value)],rest)
    | ',' :: rest =>
      let (fields,rest) ← readFields? steps rest
      some ((name,value) :: fields,rest)
    | _ => none

end

def Tree.read? (text : String) : Option Tree := do
  let characters := text.toList
  let (tree,rest) ← readTree? (characters.length+1) characters
  if (skipBlanks rest).isEmpty then some tree else none

end ColumnStore.Json
