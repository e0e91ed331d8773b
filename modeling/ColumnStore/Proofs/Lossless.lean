import ColumnStore.Proofs.FractionText
import ColumnStore.Proofs.TotalOrder
import ColumnStore.Proofs.WholeText
/-! Conversions that lose nothing. A whole number has a place of its own in every type with at least as many digits, a
fraction in every wider format, and a number of any type in the texts; the way back gives it again, to the last bit.
A fraction keeps its sign even at zero and reaches down to the least magnitudes and up to infinity; only NaN, whose
payload no text shows, is left out. -/
namespace ColumnStore

namespace Numeral

theorem Spells.unblank {text : List Char} {n : Int} (spells : Spells text n) :
    ∀ c ∈ text, Text.isBlank c = false := by
  cases spells with
  | unsigned => exact spelledUnblank
  | plus =>
    intro c mem
    rcases List.mem_cons.mp mem with rfl | digit
    · decide
    · exact spelledUnblank c digit
  | minus =>
    intro c mem
    rcases List.mem_cons.mp mem with rfl | digit
    · decide
    · exact spelledUnblank c digit

end Numeral

def DataType.isNumeric : DataType → Bool
  | .string => false
  | _ => true

theorem DataType.numericUnlessText {t : DataType} (number : t ≠ .string) : t.isNumeric = true := by
  cases t with
  | string => exact absurd rfl number
  | _ => rfl

inductive Lossless : DataType → DataType → Prop where
  | intLong : Lossless .int .long
  | intDouble : Lossless .int .double
  | intText : Lossless .int .string
  | longText : Lossless .long .string
  | floatDouble : Lossless .float .double
  | floatText : Lossless .float .string
  | doubleText : Lossless .double .string

theorem Lossless.source {t u : DataType} (lossless : Lossless t u) : t.isNumeric = true := by
  cases lossless <;> rfl

namespace Value

def Returns {t : DataType} (x : t.Elem) (u : DataType) : Prop :=
  ∃ y, (Value.mk t x).cast u = .ok y ∧ ∃ z, (Value.mk u y).cast t = .ok z ∧ z.sameBits x

theorem returns {t u : DataType} {x : t.Elem} {y : u.Elem} (there : (Value.mk t x).cast u = .ok y)
    (back : (Value.mk u y).cast t = .ok x) : Returns x u :=
  ⟨y,there,x,back,DataType.Elem.sameBitsEqual.mpr rfl⟩

theorem denotesWritten (n : Int) : Denotes (String.ofList (Numeral.writeInteger n)) n := by
  have spells := Numeral.writeSpells n
  rw [denotesIff,String.toList_ofList,Text.trimUnblank spells.unblank,Numeral.readIntegerIff]
  exact spells

theorem wholeWritten {least greatest n : Int} (low : least ≤ n) (high : n ≤ greatest) :
    wholeOf? least greatest (String.ofList (Numeral.writeInteger n)) = some n :=
  wholeOfIff.mpr ⟨denotesWritten n,low,high⟩

theorem fractionWritten {f : BinaryFormat} (wide : 0 < f.exponentBits) {x : Binary f} (number : x.isNaN = false) :
    fractionOf? f (String.ofList x.write) = some x := by
  rw [fractionOf?,String.toList_ofList,Text.trimUnblank (Binary.writtenUnblank number)]
  exact Binary.readWritten wide number

theorem parsedWritten {f : BinaryFormat} (wide : 0 < f.exponentBits) {x : Binary f} (number : x.isNaN = false)
    (t : DataType) : parsed (String.ofList x.write) t (fractionOf? f (String.ofList x.write)) = .ok x := by
  rw [fractionWritten wide number]
  rfl

theorem intInside (n : Int32) : leastInt ≤ n.toInt ∧ n.toInt ≤ greatestInt :=
  ⟨n.le_toInt,Int.le_of_lt_add_one n.toInt_lt⟩

theorem longInside (n : Int64) : leastLong ≤ n.toInt ∧ n.toInt ≤ greatestLong :=
  ⟨n.le_toInt,Int.le_of_lt_add_one n.toInt_lt⟩

theorem doubleHoldsInt (n : Int32) : (Binary.ofInt n.toInt : Double).clampTo leastInt greatestInt = n.toInt := by
  obtain ⟨low,high⟩ := intInside n
  have small : n.toInt.natAbs < Nat.pow 2 32 := by
    simp only [leastInt,greatestInt] at low high
    norm_num
    omega
  exact Binary.ofIntClamped (by decide) small (by decide) (by decide +kernel) low high

variable {t u : DataType}

theorem castNumeric (source : t.isNumeric = true) (target : u.isNumeric = true) (x : t.Elem) :
    ∃ y, (Value.mk t x).cast u = .ok y := by
  cases t with
  | string => cases source
  | _ =>
    cases u with
    | string => cases target
    | _ => exact ⟨_,rfl⟩

theorem backFromNumber (lossless : Lossless t u) (target : u.isNumeric = true) {x : t.Elem} {y : u.Elem}
    (number : x.isNaN = false) (there : (Value.mk t x).cast u = .ok y) : (Value.mk u y).cast t = .ok x := by
  cases lossless with
  | intLong =>
    cases there
    exact congrArg Except.ok (Int32.toInt32_toInt64 x)
  | intDouble =>
    cases there
    refine congrArg Except.ok ?_
    rw [doubleHoldsInt,Int32.ofInt_toInt]
  | floatDouble =>
    cases there
    exact congrArg Except.ok (Binary.convertBack BinaryFormat.singleWidens number)
  | intText => cases target
  | longText => cases target
  | floatText => cases target
  | doubleText => cases target

theorem backFromText (lossless : Lossless t .string) {x : t.Elem} (number : x.isNaN = false) :
    (string (Value.mk t x).text).cast t = .ok x := by
  cases lossless with
  | intText =>
    obtain ⟨low,high⟩ := intInside x
    have read := wholeWritten low high
    exact (castParsed fun _ => rfl).mpr ⟨_,read,(Int32.ofInt_toInt x).symm⟩
  | longText =>
    obtain ⟨low,high⟩ := longInside x
    have read := wholeWritten low high
    exact (castParsed fun _ => rfl).mpr ⟨_,read,(Int64.ofInt_toInt x).symm⟩
  | floatText => exact parsedWritten (by decide) number .float
  | doubleText => exact parsedWritten (by decide) number .double

theorem losslessReturns (lossless : Lossless t u) (x : t.Elem) (number : x.isNaN = false) : Returns x u := by
  by_cases text : u = .string
  · subst text
    exact returns rfl (backFromText lossless number)
  · have target : u.isNumeric = true := DataType.numericUnlessText text
    obtain ⟨y,there⟩ := castNumeric lossless.source target x
    exact returns there (backFromNumber lossless target number there)

def belowZero : Single := Binary.ofBits 0x80000001

theorem losslessReturnsBelowZero : Lossless .float .string ∧ DataType.Elem.isNaN (t := .float) belowZero = false ∧
    (float belowZero).text = "-0.000000000000000000000000000000000000000000001" ∧
    Returns (t := .float) belowZero .string :=
  ⟨.floatText,by decide,by decide +kernel,losslessReturns .floatText belowZero (by decide)⟩

end Value
end ColumnStore
