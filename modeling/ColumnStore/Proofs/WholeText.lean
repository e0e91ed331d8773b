import ColumnStore.Proofs.InPlace
import ColumnStore.Proofs.Spelling
import ColumnStore.Proofs.Trimming
/-! Texts as whole numbers. A text converts exactly when it spells, between blanks, a number in the range of the type,
and then to that number. The number is read as a whole before it is held against the range, so no text that is too
long comes out as another number; every other text is reported as it stands and leaves a segment as it was. -/
namespace ColumnStore

namespace Segment

def fill (s : Segment) (v : Value) : Except Error Unit × Segment :=
  match s.append v with
  | .ok longer => (.ok (),longer)
  | .error e => (.error e,s)

theorem fillPlain (t : DataType) (elems : Array t.Elem) (v : Value) : (plain t elems).fill v =
    match v.cast t with
    | .ok x => (.ok (),.plain t (elems.push x))
    | .error e => (.error e,.plain t elems) := by
  simp only [fill,append,cell,Value.convert]
  cases v.cast t <;> simp [Except.map,push]

end Segment

namespace Value
open Numeral (Spells readIntegerIff)
open Text (Trimmed trimmedIff)

def Denotes (text : String) (n : Int) : Prop := ∃ core, Trimmed text.toList core ∧ Spells core n

theorem denotesIff {text : String} {n : Int} :
    Denotes text n ↔ Numeral.readInteger? (Text.trim text.toList) = some n := by
  rw [readIntegerIff]
  simp only [Denotes,trimmedIff,exists_eq_left']

theorem wholeOfIff {least greatest n : Int} {text : String} :
    wholeOf? least greatest text = some n ↔ Denotes text n ∧ least ≤ n ∧ n ≤ greatest := by
  simp only [wholeOf?,bind,Option.bind_eq_some_iff,← denotesIff]
  constructor
  · rintro ⟨m,denotes,inRange⟩
    split at inRange
    · rename_i range
      cases inRange
      exact ⟨denotes,range⟩
    · cases inRange
  · rintro ⟨denotes,range⟩
    exact ⟨n,denotes,if_pos range⟩

theorem wholeOfNone {least greatest : Int} {text : String} :
    wholeOf? least greatest text = none ↔ ∀ n, Denotes text n → ¬ (least ≤ n ∧ n ≤ greatest) := by
  simp only [Option.eq_none_iff_forall_ne_some,ne_eq,wholeOfIff,not_and]

theorem intOfInside {n : Int} (low : leastInt ≤ n) (high : n ≤ greatestInt) : (Int32.ofInt n).toInt = n :=
  Int32.toInt_ofInt_of_le low (Int.lt_add_one_of_le high)

theorem longOfInside {n : Int} (low : leastLong ≤ n) (high : n ≤ greatestLong) : (Int64.ofInt n).toInt = n :=
  Int64.toInt_ofInt_of_le low (Int.lt_add_one_of_le high)

structure ReadsWhole (t : DataType) (least greatest : Int) (whole : t.Elem → Int) : Prop where
  reads : ∀ (text : String) (n : Int), (∃ x, (string text).cast t = .ok x ∧ whole x = n) ↔
    Denotes text n ∧ least ≤ n ∧ n ≤ greatest
  refuses : ∀ (text : String) (e : Error), (string text).cast t = .error e ↔
    e = .unconvertible text t ∧ ∀ n, Denotes text n → ¬ (least ≤ n ∧ n ≤ greatest)
  reported : ∀ text : String, (Error.unconvertible text t).kind = .typeMismatch ∧
    (Error.unconvertible text t).message = "Type mismatch: " ++ ("cannot convert '" ++ text ++ "' to " ++ t.name)
  filled : ∀ (text : String) (elems : Array t.Elem) (x : t.Elem), (string text).cast t = .ok x →
    (Segment.plain t elems).fill (.string text) = (.ok (),.plain t (elems.push x))
  kept : ∀ (text : String) (elems : Array t.Elem) (e : Error), (string text).cast t = .error e →
    (Segment.plain t elems).fill (.string text) = (.error e,.plain t elems)

section
variable {t : DataType} {least greatest : Int} {whole : t.Elem → Int} {ofWhole : Int → t.Elem}
  (casts : ∀ text, (string text).cast t = (parsed text t (wholeOf? least greatest text)).map ofWhole)
include casts

theorem castParsed {text : String} {x : t.Elem} :
    (string text).cast t = .ok x ↔ ∃ n, wholeOf? least greatest text = some n ∧ x = ofWhole n := by
  rw [casts]
  unfold parsed
  cases wholeOf? least greatest text <;> simp [Except.map,eq_comm]

theorem castUnparsed {text : String} {e : Error} :
    (string text).cast t = .error e ↔ e = .unconvertible text t ∧ wholeOf? least greatest text = none := by
  rw [casts]
  unfold parsed
  cases wholeOf? least greatest text <;> simp [Except.map,eq_comm]

theorem readsWhole (back : ∀ n, least ≤ n → n ≤ greatest → whole (ofWhole n) = n) :
    ReadsWhole t least greatest whole := by
  constructor
  case reads =>
    intro text n
    simp only [castParsed casts,wholeOfIff]
    constructor
    · rintro ⟨_,⟨m,⟨denotes,low,high⟩,rfl⟩,rfl⟩
      rw [back m low high]
      exact ⟨denotes,low,high⟩
    · rintro ⟨denotes,low,high⟩
      exact ⟨ofWhole n,⟨n,⟨denotes,low,high⟩,rfl⟩,back n low high⟩
  case refuses =>
    intro text e
    rw [castUnparsed casts,wholeOfNone]
  case reported =>
    intro text
    exact ⟨rfl,rfl⟩
  case filled =>
    intro text elems x converts
    rw [Segment.fillPlain,converts]
  case kept =>
    intro text elems e fails
    rw [Segment.fillPlain,fails]

end

theorem textReadsWhole : ReadsWhole .int leastInt greatestInt Int32.toInt ∧
    ReadsWhole .long leastLong greatestLong Int64.toInt := by
  constructor
  · exact readsWhole (fun text => rfl) fun n => intOfInside
  · exact readsWhole (fun text => rfl) fun n => longOfInside

example : wholeOf? leastInt greatestInt " -2147483648\n" = some (-2147483648) ∧
    wholeOf? leastInt greatestInt "+2147483648" = none := by decide +kernel

end Value
end ColumnStore
