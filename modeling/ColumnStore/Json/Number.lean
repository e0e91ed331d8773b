import ColumnStore.Binary.Rounding
import ColumnStore.Numeral.Integer
/-! Numbers of a JSON text: how they are spelled, and which whole number or double they denote. A whole number
has neither point nor exponent and fits 64 bits, signed or unsigned. A double is built in two
roundings, of at most 64 bits of digits and then of their scaling by a power of ten, so it may miss the
nearest one by a little; one that grows past the finite range is refused. -/
namespace ColumnStore.Json
open Numeral (isDigit readNatural? digitValue?)

structure Number where
  negative : Bool
  whole : List Char
  fraction : Option (List Char)
  exponent : Option (Bool × List Char)
  deriving DecidableEq, Repr

def takeDigits? (text : List Char) : Option (List Char × List Char) :=
  match text.takeWhile isDigit with
  | [] => none
  | digits => some (digits,text.dropWhile isDigit)

namespace Number

def readWhole? (text : List Char) : Option (List Char × List Char) := do
  let (digits,rest) ← takeDigits? text
  if digits.head? = some '0' ∧ 1 < digits.length then none else some (digits,rest)

def readFraction? : List Char → Option (Option (List Char) × List Char)
  | '.' :: rest => (takeDigits? rest).map fun found => (some found.1,found.2)
  | text => some (none,text)

def readExponent? : List Char → Option (Option (Bool × List Char) × List Char)
  | [] => some (none,[])
  | c :: rest =>
    if c = 'e' ∨ c = 'E' then
      let (negative,digits) := Numeral.splitSign rest
      (takeDigits? digits).map fun found => (some (negative,found.1),found.2)
    else some (none,c :: rest)

def read? (text : List Char) : Option (Number × List Char) := do
  let (negative,unsigned) := match text with
    | '-' :: rest => (true,rest)
    | _ => (false,text)
  let (whole,rest) ← readWhole? unsigned
  let (fraction,rest) ← readFraction? rest
  let (exponent,rest) ← readExponent? rest
  some (⟨negative,whole,fraction,exponent⟩,rest)

/-- A minus in front of zero makes a fraction of it. -/
def integer? (x : Number) : Option Int :=
  match x.fraction, x.exponent, readNatural? x.whole with
  | none, none, some n =>
    if x.negative then (if 0 < n ∧ n ≤ 9223372036854775808 then some (-(n : Int)) else none)
    else if n < UInt64.size then some n else none
  | _, _, _ => none

/-- Takes in digits while the significand stays below 2 to the power of 64, and counts those left. -/
def takeIn : Nat → List Char → Nat × Nat
  | n, [] => (n,0)
  | n, c :: rest =>
    let grown := 10*n+(digitValue? c).getD 0
    if grown < UInt64.size then takeIn grown rest else (n,(c :: rest).length)

/-- A significand and a power of ten. Whole digits left over scale it up; digits left over behind the point
are lost. -/
def parts (x : Number) : Nat × Int :=
  let (n,left) := takeIn 0 x.whole
  let (m,lost) := takeIn n (x.fraction.getD [])
  (m,(left : Int)-((x.fraction.getD []).length-lost))

def scaleDown (x : Double) (exponent : Nat) : Double :=
  if exponent ≤ 308 then x.dividedBy (.ofRatio false (Nat.pow 10 exponent) 1)
  else if x.isZero then x
  else scaleDown (x.dividedBy (.ofRatio false (Nat.pow 10 308) 1)) (exponent-308)
termination_by exponent
decreasing_by omega

def scale? (x : Double) : Int → Option Double
  | .ofNat e =>
    if e ≤ 308 then
      let scaled := x.times (.ofRatio false (Nat.pow 10 e) 1)
      if scaled.isInfinite then none else some scaled
    else if x.isZero then some x else none
  | .negSucc e => some (scaleDown x (e+1))

def power? (x : Number) : Option Int :=
  match x.exponent with
  | none => some 0
  | some (negative,digits) => match readNatural? digits with
    | some n => if n < 2147483648 then some (if negative then -(n : Int) else n) else none
    | none => none

def exponentSinks (x : Number) : Bool := match x.exponent with
  | some (negative,_) => negative
  | none => false

/-- An exponent that is too long to count makes zero when it is negative or the digits are all zero, and is
refused otherwise. -/
def double? (x : Number) : Option Double :=
  match x.fraction, x.exponent, readNatural? x.whole with
  | none, none, some n => if n < UInt64.size then some (.ofRatio x.negative n 1) else ofParts
  | _, _, _ => ofParts
where
  signed (y : Double) : Double := { y with negative := x.negative }
  ofParts : Option Double :=
    let (significand,exponent) := x.parts
    match x.power? with
    | some power => (scale? (.ofRatio false significand 1) (exponent+power)).map signed
    | none => if significand ≠ 0 ∧ !x.exponentSinks then none else some (.zero x.negative)

def single? (x : Number) : Option Single :=
  match x.integer? with
  | some n => some (.ofInt n)
  | none => x.double?.map Binary.convert

end Number
end ColumnStore.Json
