import ColumnStore.Json.Codec
import ColumnStore.Proofs.Lossless
/-! What is written as JSON is read back. A written form ends where the text does or where a comma or a closing brace
follows, and up to there it is read as one tree, whatever comes after; the records, choices and values that the trees
stand for are those that were written. -/
namespace ColumnStore.Json
open Numeral (digits digitChar spelled valued isDigit digitsSpelled readSpelled spelledDigits)

section Text

theorem hexDigitRead {d : Nat} (small : d < 16) : hexValue? (Nat.digitChar d) = some d := by
  interval_cases d <;> decide

/- A character of a text is read as its own unit, however it is written. -/
theorem unitRead (c : Char) (rest : List Char) :
    readUnits? (quotedCharacter c ++ rest) = (readUnits? rest).map fun found => (c.toNat :: found.1,found.2) := by
  unfold quotedCharacter
  split
  case h_8 unquoted unslashed _ _ _ _ _ =>
    split
    · rename_i control
      have high := hexDigitRead (show c.toNat/16 < 16 by omega)
      have low := hexDigitRead (show c.toNat%16 < 16 by omega)
      have zero : hexValue? '0' = some 0 := rfl
      have whole : 0*4096+0*256+c.toNat/16*16+c.toNat%16 = c.toNat := by omega
      simp only [List.cons_append,List.nil_append,readUnits?,zero,high,low,bind,Option.bind_some,whole]
      cases readUnits? rest <;> rfl
    · rename_i printed
      rw [List.singleton_append,readUnits?,if_neg printed]
      · cases readUnits? rest <;> rfl
      · exact unquoted
      · exact fun _ _ _ _ _ same _ => unslashed same
      · exact fun _ _ same _ => unslashed same
  all_goals
    rw [List.cons_append,List.singleton_append,readUnits?]
    · cases readUnits? rest <;> rfl
    · exact fun _ _ _ _ _ same _ => absurd same (by decide)

theorem unitsRead (s rest : List Char) :
    readUnits? (s.flatMap quotedCharacter ++ '"' :: rest) = some (s.map Char.toNat,rest) := by
  induction s with
  | nil => rw [List.flatMap_nil,List.nil_append,readUnits?,List.map_nil]
  | cons c s ih => rw [List.flatMap_cons,List.append_assoc,unitRead,ih,Option.map_some,List.map_cons]

theorem characterWhole (c : Char) : isHigh c.toNat = false ∧ isLow c.toNat = false := by
  have valid : c.toNat < 0xD800 ∨ 0xDFFF < c.toNat ∧ c.toNat < 0x110000 := c.valid
  simp only [isHigh,isLow,Bool.and_eq_false_iff,decide_eq_false_iff_not]
  omega

theorem charactersRead (s : List Char) : characters? (s.map Char.toNat) = some s := by
  induction s with
  | nil => rfl
  | cons c s ih =>
    obtain ⟨high,low⟩ := characterWhole c
    cases s with
    | nil => simp [characters?,high,low,Char.ofNat_toNat]
    | cons d s =>
      rw [List.map_cons] at ih
      simp [characters?,high,low,ih,Char.ofNat_toNat]

theorem textRead (s rest : List Char) :
    readText? (s.flatMap quotedCharacter ++ '"' :: rest) = some (some (String.ofList s),rest) := by
  rw [readText?,unitsRead,Option.map_some,charactersRead,Option.map_some]

end Text

section Number

theorem digitsBegin (n : Nat) : ∃ (d : Fin 10) (more : List Char), digits n = digitChar d :: more := by
  obtain ⟨ds,nonempty,spelled,_⟩ := digitsSpelled n
  obtain ⟨d,others,rfl⟩ := List.exists_cons_of_ne_nil nonempty
  exact ⟨d,_,spelled⟩

theorem leadingDigit {n : Nat} (positive : 0 < n) : (digits n).head? ≠ some '0' := by
  induction n using Nat.strongRecOn with
  | ind n ih =>
    rw [digits]
    split
    · rename_i small
      interval_cases n <;> decide
    · rename_i large
      have first := ih (n/10) (by omega) (by omega)
      obtain ⟨d,more,front⟩ := digitsBegin (n/10)
      rw [front] at first ⊢
      exact first

/- What follows a written value: nothing, or a mark that goes on with no number. -/
def Ends (rest : List Char) : Prop := ∀ c ∈ rest.head?, c = ',' ∨ c = '\x7d'

theorem Ends.cases {rest : List Char} (ends : Ends rest) :
    rest = [] ∨ (∃ more, rest = ',' :: more) ∨ ∃ more, rest = '\x7d' :: more := by
  cases rest with
  | nil => exact .inl rfl
  | cons c more =>
    rcases ends c rfl with rfl | rfl
    · exact .inr (.inl ⟨more,rfl⟩)
    · exact .inr (.inr ⟨more,rfl⟩)

theorem digitsRead {n : Nat} {rest : List Char} (ends : Ends rest) :
    Number.readWhole? (digits n ++ rest) = some (digits n,rest) := by
  obtain ⟨ds,nonempty,spelled,value⟩ := digitsSpelled n
  have stops : rest.takeWhile isDigit = [] ∧ rest.dropWhile isDigit = rest := by
    rcases ends.cases with rfl | ⟨more,rfl⟩ | ⟨more,rfl⟩ <;> exact ⟨rfl,rfl⟩
  have taken : (digits n ++ rest).takeWhile isDigit = digits n := by
    rw [spelled,List.takeWhile_append_of_pos spelledDigits,stops.1,List.append_nil]
  have left : (digits n ++ rest).dropWhile isDigit = rest := by
    rw [spelled,List.dropWhile_append_of_pos spelledDigits,stops.2]
  have short : ¬ ((digits n).head? = some '0' ∧ 1 < (digits n).length) := by
    rintro ⟨zero,long⟩
    rcases Nat.eq_zero_or_pos n with rfl | positive
    · rw [digits] at long
      exact absurd long (by decide)
    · exact leadingDigit positive zero
  have found : takeDigits? (digits n ++ rest) = some (digits n,rest) := by
    obtain ⟨d,more,front⟩ := digitsBegin n
    rw [takeDigits?,taken,left,front]
  simp only [Number.readWhole?,found,bind,Option.bind_some,if_neg short]

def wholeNumber (n : Int) : Number := ⟨decide (n < 0),digits n.natAbs,none,none⟩

theorem numberRead (n : Int) {rest : List Char} (ends : Ends rest) :
    Number.read? (Numeral.writeInteger n ++ rest) = some (wholeNumber n,rest) := by
  have fraction : Number.readFraction? rest = some (none,rest) := by
    rcases ends.cases with rfl | ⟨more,rfl⟩ | ⟨more,rfl⟩ <;> rfl
  have exponent : Number.readExponent? rest = some (none,rest) := by
    rcases ends.cases with rfl | ⟨more,rfl⟩ | ⟨more,rfl⟩ <;> rfl
  rw [Numeral.writeInteger,wholeNumber]
  split
  · rename_i negative
    simp only [List.cons_append,Number.read?,digitsRead ends,fraction,exponent,bind,Option.bind_some,negative,decide_true]
  · rename_i natural
    have unsigned : ∀ more, digits n.natAbs ++ rest ≠ '-' :: more := by
      obtain ⟨d,others,front⟩ := digitsBegin n.natAbs
      intro more same
      rw [front] at same
      exact (Numeral.digitUnsigned d).1 (List.cons.inj same).1
    simp only [Number.read?,digitsRead ends,fraction,exponent,bind,Option.bind_some,natural,decide_false]

theorem integerWhole {n : Int} (least : -9223372036854775808 ≤ n) (greatest : n < 18446744073709551616) :
    (wholeNumber n).integer? = some n := by
  obtain ⟨ds,nonempty,spelled,value⟩ := digitsSpelled n.natAbs
  have read : Numeral.readNatural? (digits n.natAbs) = some n.natAbs := by
    rw [spelled,readSpelled nonempty,← value]
  have limit : UInt64.size = 18446744073709551616 := rfl
  simp only [Number.integer?,wholeNumber,read,decide_eq_true_eq,limit]
  split
  · rename_i negative
    rw [if_pos (by omega)]
    exact congrArg some (by omega)
  · rename_i natural
    rw [if_pos (by omega)]
    exact congrArg some (by omega)

end Number

section Tree

/- A written form and the tree that it is read as, in front of anything that it can stand in front of. -/
def Denotes (text : List Char) (tree : Tree) : Prop :=
  ∀ steps rest, text.length < steps → Ends rest → readTree? steps (text ++ rest) = some (tree,rest)

theorem treeRead {text : String} {tree : Tree} (denotes : Denotes text.toList tree) : Tree.read? text = some tree := by
  have whole := denotes (text.toList.length+1) [] (Nat.lt_succ_self _) (fun _ mem => by cases mem)
  rw [List.append_nil] at whole
  simp only [Tree.read?,whole,bind,Option.bind_some]
  rfl

theorem textDenotes (s : String) : Denotes (quoted s).toList (.text (some s)) := by
  intro steps rest bound ends
  cases steps with
  | zero => cases bound
  | succ steps =>
    have form : (quoted s).toList ++ rest = '"' :: (s.toList.flatMap quotedCharacter ++ '"' :: rest) := by
      simp [quoted]
    have started : skipBlanks ('"' :: (s.toList.flatMap quotedCharacter ++ '"' :: rest)) =
        '"' :: (s.toList.flatMap quotedCharacter ++ '"' :: rest) := rfl
    rw [form,readTree?,started]
    simp only [textRead,Option.map_some,String.ofList_toList]

theorem boolDenotes (b : Bool) : Denotes (writeBool b).toList (.bool b) := by
  intro steps rest bound ends
  cases steps with
  | zero => cases bound
  | succ steps => cases b <;> rfl

theorem numberBegins {c : Char} (begins : c = '-' ∨ ∃ d : Fin 10, c = digitChar d) (steps : Nat) (text : List Char) :
    readTree? (steps+1) (c :: text) = (Number.read? (c :: text)).map fun found => (.number found.1,found.2) := by
  rcases begins with rfl | ⟨d,rfl⟩
  · rfl
  · fin_cases d <;> rfl

theorem integerDenotes (n : Int) : Denotes (Numeral.writeInteger n) (.number (wholeNumber n)) := by
  intro steps rest bound ends
  cases steps with
  | zero => cases bound
  | succ steps =>
    obtain ⟨c,more,form,begins⟩ : ∃ c more, Numeral.writeInteger n = c :: more ∧ (c = '-' ∨ ∃ d : Fin 10, c = digitChar d) := by
      rw [Numeral.writeInteger]
      split
      · exact ⟨_,_,rfl,.inl rfl⟩
      · obtain ⟨d,more,front⟩ := digitsBegin n.natAbs
        exact ⟨_,_,front,.inr ⟨d,rfl⟩⟩
    have number := numberRead n ends
    rw [form,List.cons_append] at number ⊢
    rw [numberBegins begins,number,Option.map_some]

def fieldsText (fields : List (String × String)) : List Char :=
  (",".intercalate (fields.map fun field => quoted field.1 ++ ":" ++ field.2)).toList

theorem fieldsOne (name text : String) :
    fieldsText [(name,text)] = '"' :: (name.toList.flatMap quotedCharacter ++ '"' :: ':' :: text.toList) := by
  simp [fieldsText,quoted]

theorem fieldsMore (name text : String) (next : String × String) (others : List (String × String)) :
    fieldsText ((name,text) :: next :: others) =
      '"' :: (name.toList.flatMap quotedCharacter ++ '"' :: ':' :: (text.toList ++ ',' :: fieldsText (next :: others))) := by
  simp [fieldsText,quoted,String.intercalate_cons_cons]

theorem fieldsBegin {fields : List (String × String)} (nonempty : fields ≠ []) :
    ∃ more, fieldsText fields = '"' :: more := by
  obtain ⟨⟨name,text⟩,others,rfl⟩ := List.exists_cons_of_ne_nil nonempty
  cases others with
  | nil => exact ⟨_,fieldsOne name text⟩
  | cons next others => exact ⟨_,fieldsMore name text next others⟩

section Field
variable {name text : String} {tree : Tree} (denotes : Denotes text.toList tree) {steps : Nat}
  (bound : text.toList.length < steps)
include denotes bound

theorem lastField (rest : List Char) : readFields? (steps+1)
    ('"' :: (name.toList.flatMap quotedCharacter ++ '"' :: ':' :: (text.toList ++ '\x7d' :: rest))) =
      some ([(some name,tree)],rest) := by
  have started : ∀ c ∈ ['"',':','\x7d'], ∀ more, skipBlanks (c :: more) = c :: more := by simp [skipBlanks]
  have value := denotes steps ('\x7d' :: rest) bound (by rintro _ ⟨⟩; exact .inr rfl)
  rw [readFields?,started _ (by simp)]
  simp only [textRead,started ':' (by simp),started '\x7d' (by simp),value,bind,Option.bind_some,String.ofList_toList]

theorem nextField (rest : List Char) : readFields? (steps+1)
    ('"' :: (name.toList.flatMap quotedCharacter ++ '"' :: ':' :: (text.toList ++ ',' :: rest))) =
      (readFields? steps rest).map fun found => ((some name,tree) :: found.1,found.2) := by
  have started : ∀ c ∈ ['"',':',','], ∀ more, skipBlanks (c :: more) = c :: more := by simp [skipBlanks]
  have value := denotes steps (',' :: rest) bound (by rintro _ ⟨⟩; exact .inl rfl)
  rw [readFields?,started _ (by simp)]
  simp only [textRead,started ':' (by simp),started ',' (by simp),value,bind,Option.bind_some,String.ofList_toList]
  cases readFields? steps rest <;> rfl

end Field

theorem fieldsRead {fields : List (String × String)} {trees : List Tree} (nonempty : fields ≠ [])
    (each : List.Forall₂ (fun field tree => Denotes field.2.toList tree) fields trees) (steps : Nat)
    (bound : (fieldsText fields).length < steps) (rest : List Char) :
    readFields? steps (fieldsText fields ++ '\x7d' :: rest) =
      some (List.zipWith (fun field tree => (some field.1,tree)) fields trees,rest) := by
  induction each generalizing steps with
  | nil => exact absurd rfl nonempty
  | @cons field tree others trees denotes each ih =>
    obtain ⟨name,text⟩ := field
    cases steps with
    | zero => cases bound
    | succ steps =>
      change Denotes text.toList tree at denotes
      cases others with
      | nil =>
        cases each
        rw [fieldsOne] at bound ⊢
        simp only [List.length_cons,List.length_append] at bound
        simp only [List.cons_append,List.append_assoc]
        rw [lastField denotes (by omega)]
        rfl
      | cons next others =>
        rw [fieldsMore] at bound ⊢
        simp only [List.length_cons,List.length_append] at bound
        have tail := ih (List.cons_ne_nil _ _) steps (by omega)
        simp only [List.cons_append,List.append_assoc]
        rw [nextField denotes (by omega),tail]
        rfl

theorem objectDenotes {fields : List (String × String)} {trees : List Tree} (nonempty : fields ≠ [])
    (each : List.Forall₂ (fun field tree => Denotes field.2.toList tree) fields trees) :
    Denotes (writeObject fields).toList (.object (List.zipWith (fun field tree => (some field.1,tree)) fields trees)) := by
  intro steps rest bound ends
  have form : (writeObject fields).toList = '\x7b' :: (fieldsText fields ++ ['\x7d']) := by
    simp [writeObject,fieldsText]
  rw [form] at bound ⊢
  cases steps with
  | zero => cases bound
  | succ steps =>
    simp only [List.length_cons,List.length_append] at bound
    have inner := fieldsRead nonempty each steps (by omega) rest
    obtain ⟨more,begins⟩ := fieldsBegin nonempty
    have opened : ∀ more, skipBlanks ('\x7b' :: more) = '\x7b' :: more := fun _ => rfl
    have started : ∀ more, skipBlanks ('"' :: more) = '"' :: more := fun _ => rfl
    rw [List.cons_append,List.append_assoc,List.singleton_append,readTree?,opened]
    rw [begins] at inner ⊢
    simp only [List.cons_append,started] at inner ⊢
    change (readFields? steps ('"' :: (more ++ '\x7d' :: rest))).map _ = _
    rw [inner,Option.map_some]

end Tree

section Record

theorem naturalDenotes (n : Nat) : Denotes (writeNatural n).toList (.number (wholeNumber n)) := by
  have same : (writeNatural n).toList = Numeral.writeInteger n := by
    simp [writeNatural,Numeral.natText,Numeral.writeInteger]
  rw [same]
  exact integerDenotes n

theorem wholeDenotes (n : Int) : Denotes (writeInteger n).toList (.number (wholeNumber n)) := by
  rw [writeInteger,String.toList_ofList]
  exact integerDenotes n

theorem integerRead {n least greatest : Int} (low : least ≤ n) (high : n ≤ greatest)
    (least64 : -9223372036854775808 ≤ least) (greatest64 : greatest < 18446744073709551616) :
    integerIn? least greatest (.number (wholeNumber n)) = some n := by
  simp only [integerIn?,integerWhole (Int.le_trans least64 low) (Int.lt_of_le_of_lt high greatest64),bind,
    Option.bind_some,if_pos (And.intro low high)]

theorem recordRead {one two : String} (apart : one ≠ two) {first second : String} {x y : Tree}
    (left : Denotes first.toList x) (right : Denotes second.toList y) :
    (Tree.read? (writeObject [(one,first),(two,second)])).bind (recordFields? [one,two]) = some [some x,some y] := by
  have each : List.Forall₂ (fun (field : String × String) tree => Denotes field.2.toList tree)
      [(one,first),(two,second)] [x,y] := .cons left (.cons right .nil)
  rw [treeRead (objectDenotes (List.cons_ne_nil _ _) each),Option.bind_some]
  have other : (two == one) = false := beq_eq_false_iff_ne.mpr (Ne.symm apart)
  simp [recordFields?,List.lookup,apart,other]

theorem choiceRead (name : String) {text : String} {tree : Tree} (denotes : Denotes text.toList tree) :
    (Tree.read? (writeObject [(name,text)])).bind choice? = some (name,some tree) := by
  rw [treeRead (objectDenotes (List.cons_ne_nil _ _) (.cons denotes .nil))]
  rfl

theorem integerChoice (name : String) {n least greatest : Int} (inside : least ≤ n ∧ n ≤ greatest)
    (least64 : -9223372036854775808 ≤ least) (greatest64 : greatest < 18446744073709551616) :
    ∃ tree field, Tree.read? (writeObject [(name,writeInteger n)]) = some tree ∧
      choice? tree = some (name,some field) ∧ integerIn? least greatest field = some n := by
  obtain ⟨tree,read,choice⟩ := Option.bind_eq_some_iff.mp (choiceRead name (wholeDenotes n))
  exact ⟨tree,_,read,choice,integerRead inside.1 inside.2 least64 greatest64⟩

theorem bareChoiceRead (name : String) : (Tree.read? (quoted name)).bind bareChoice? = some name := by
  rw [treeRead (textDenotes name)]
  rfl

end Record

end ColumnStore.Json

namespace ColumnStore
open Json

theorem Config.readBack (c : Config) (small : c.maxChunkSize < 18446744073709551616) :
    Config.ofJson? c.toJson = some c := by
  have record := recordRead (by decide : "max_chunk_size" ≠ "parallel_compression") (naturalDenotes c.maxChunkSize)
    (boolDenotes c.parallelCompression)
  have limit : UInt64.size = 18446744073709551616 := rfl
  have size : integerIn? 0 (UInt64.size-1) (.number (wholeNumber c.maxChunkSize)) = some (c.maxChunkSize : Int) :=
    integerRead (by omega) (by omega) (by decide) (by decide)
  obtain ⟨tree,read,fields⟩ := Option.bind_eq_some_iff.mp record
  simp only [ofJson?,toJson,read,fields,size,bool?,bind,Option.bind_some,Option.map_some,Int.toNat_natCast]

theorem RowId.readBack (r : RowId) : RowId.ofJson? r.toJson = some r := by
  have record := recordRead (by decide : "chunk_id" ≠ "chunk_offset") (naturalDenotes r.chunk.toNat)
    (naturalDenotes r.offset.toNat)
  have limit : UInt32.size = 4294967296 := rfl
  have within : ∀ n : UInt32, integerIn? 0 (UInt32.size-1) (.number (wholeNumber n.toNat)) = some (n.toNat : Int) :=
    fun n => integerRead (by omega) (by have := n.toNat_lt; omega) (by decide) (by decide)
  obtain ⟨tree,read,fields⟩ := Option.bind_eq_some_iff.mp record
  simp only [ofJson?,toJson,read,fields,within,bind,Option.bind_some,Int.toNat_natCast,UInt32.ofNat_toNat]

theorem DataType.readBack (t : DataType) : DataType.ofJson? t.toJson = some t := by
  obtain ⟨tree,read,name⟩ := Option.bind_eq_some_iff.mp (bareChoiceRead t.name)
  simp only [ofJson?,toJson,read,name,bind,Option.bind_some,ofNameName]

theorem Comparator.readBack (c : Comparator) : Comparator.ofJson? c.toJson = some c := by
  obtain ⟨tree,read,name⟩ := Option.bind_eq_some_iff.mp (bareChoiceRead c.name)
  simp only [ofJson?,toJson,read,name,bind,Option.bind_some,ofNameName]

theorem Value.readBack {v : Value} {text : String} (written : v.toJson? = some text) :
    Value.ofJson? text = some v := by
  obtain ⟨type,x⟩ := v
  cases type with
  | int =>
    cases Option.some.inj written
    obtain ⟨tree,field,read,choice,whole⟩ :=
      integerChoice DataType.int.tag (intInside x) (by decide) (by decide)
    simp only [ofJson?,read,choice,bind,Option.bind_some]
    change (integerIn? leastInt greatestInt _).map _ = _
    rw [whole,Option.map_some,Int32.ofInt_toInt]
    rfl
  | long =>
    cases Option.some.inj written
    obtain ⟨tree,field,read,choice,whole⟩ :=
      integerChoice DataType.long.tag (longInside x) (by decide) (by decide)
    simp only [ofJson?,read,choice,bind,Option.bind_some]
    change (integerIn? leastLong greatestLong _).map _ = _
    rw [whole,Option.map_some,Int64.ofInt_toInt]
    rfl
  | float => cases written
  | double => cases written
  | string =>
    cases Option.some.inj written
    obtain ⟨tree,read,choice⟩ := Option.bind_eq_some_iff.mp (choiceRead DataType.string.tag (textDenotes x))
    simp only [ofJson?,read,choice,bind,Option.bind_some]
    rfl

end ColumnStore
