/-! Binary floating-point numbers of a given format. A number is its sign bit and the remaining bits read as one
natural number, its pattern. Patterns are ordered like the magnitudes that they stand for: infinity comes
after every finite one, and all above it are NaN. No arithmetic of the machine is used. -/
namespace ColumnStore

structure BinaryFormat where
  fractionBits : Nat
  exponentBits : Nat
  deriving DecidableEq, Repr

namespace BinaryFormat

def single : BinaryFormat := ⟨23,8⟩
def double : BinaryFormat := ⟨52,11⟩

def patterns (f : BinaryFormat) : Nat := Nat.pow 2 (f.exponentBits+f.fractionBits)

def octave (f : BinaryFormat) : Nat := Nat.pow 2 f.fractionBits

def infinity (f : BinaryFormat) : Nat := (Nat.pow 2 f.exponentBits-1)*f.octave

def stepExponent (f : BinaryFormat) : Nat := Nat.pow 2 (f.exponentBits-1)-2+f.fractionBits

def stepsInOne (f : BinaryFormat) : Nat := Nat.pow 2 f.stepExponent

def quietBit (f : BinaryFormat) : Nat := Nat.pow 2 (f.fractionBits-1)

def steps (f : BinaryFormat) (pattern : Nat) : Nat :=
  if pattern < f.octave then pattern
  else (f.octave + pattern % f.octave)*Nat.pow 2 (pattern/f.octave-1)

theorem patternsPositive (f : BinaryFormat) : 0 < f.patterns := Nat.two_pow_pos _

theorem octavePositive (f : BinaryFormat) : 0 < f.octave := Nat.two_pow_pos _

end BinaryFormat

structure Binary (f : BinaryFormat) where
  negative : Bool
  pattern : Fin f.patterns
  deriving DecidableEq, Repr

abbrev Single := Binary .single
abbrev Double := Binary .double

namespace Binary
variable {f : BinaryFormat}

def ofPattern (negative : Bool) (pattern : Nat) : Binary f :=
  ⟨negative,⟨pattern % f.patterns,Nat.mod_lt _ f.patternsPositive⟩⟩

def ofBits (bits : Nat) : Binary f := ofPattern (bits/f.patterns % 2 == 1) bits
def bits (x : Binary f) : Nat := (if x.negative then f.patterns else 0) + x.pattern.val

def isZero (x : Binary f) : Bool := x.pattern.val == 0
def isNaN (x : Binary f) : Bool := decide (f.infinity < x.pattern.val)
def isInfinite (x : Binary f) : Bool := x.pattern.val == f.infinity

def zero (negative : Bool) : Binary f := ofPattern negative 0
def infinite (negative : Bool) : Binary f := ofPattern negative f.infinity
def quietNaN (negative : Bool) : Binary f := ofPattern negative (f.infinity+f.quietBit)

/-- The place of a number among all of them. Negative numbers count down from zero, so the two zeros share
a place and a NaN lies outside the infinity of its sign. -/
def rank (x : Binary f) : Int := if x.negative then -(x.pattern.val : Int) else x.pattern.val

def same (x y : Binary f) : Bool := !x.isNaN && !y.isNaN && x.rank == y.rank

theorem ofBitsBits (x : Binary f) : ofBits x.bits = x := by
  obtain ⟨negative,pattern,bound⟩ := x
  cases negative
  · have quotient : pattern/f.patterns = 0 := Nat.div_eq_of_lt bound
    simp [ofBits,ofPattern,bits,quotient,Nat.mod_eq_of_lt bound]
  · have quotient : (f.patterns+pattern)/f.patterns = 1 := by
      rw [Nat.add_div_left _ f.patternsPositive,Nat.div_eq_of_lt bound]
    simp [ofBits,ofPattern,bits,quotient,Nat.mod_eq_of_lt bound]

end Binary
end ColumnStore
