import ColumnStore.Binary.Rounding
import ColumnStore.Numeral.Decimal
/-! Floating-point numbers as text. A finite number is written with the fewest decimal digits that read back
as the same number; of several such decimals the nearest is taken, and of two equally near the larger.
`ofShortest` says that what is written reads back. -/
namespace ColumnStore
open Numeral (Decimal)

namespace BinaryFormat

def reach (f : BinaryFormat) : Nat := Nat.pow 2 f.exponentBits+f.fractionBits

/-- The pattern nearest to a decimal. Exponents beyond the clamp denote magnitudes that round to infinity or
to zero wherever the clamp puts them. -/
def ofDecimal (f : BinaryFormat) (x : Decimal) : Nat :=
  let reach : Int := f.reach
  let exponent := max (-(reach+x.significand.log2)) (min reach x.exponent)
  f.nearest (x.significand*Nat.pow 10 exponent.toNat*f.stepsInOne) (Nat.pow 10 (-exponent).toNat)

/-- The decimal on the grid of one power of ten that reads back as a pattern, if there is one. Only the two
grid points around the pattern's magnitude can. -/
def onGrid? (f : BinaryFormat) (pattern : Nat) (exponent : Int) : Option Decimal :=
  let n := f.steps pattern*Nat.pow 10 (-exponent).toNat
  let d := f.stepsInOne*Nat.pow 10 exponent.toNat
  let below : Decimal := ⟨n/d,exponent⟩
  let above : Decimal := ⟨n/d+1,exponent⟩
  if f.ofDecimal below = pattern ∧ (2*(n%d) < d ∨ f.ofDecimal above ≠ pattern) then some below
  else if f.ofDecimal above = pattern then some above
  else none

def exactDecimal (f : BinaryFormat) (pattern : Nat) : Decimal :=
  ⟨f.steps pattern*Nat.pow 5 f.stepExponent,-(f.stepExponent : Int)⟩

/-! Ever finer grids are tried, the first one above the magnitude by a rational bound on the logarithm of
two. One grid per bit of the significand is more than any pattern needs, so the exact decimal places are
never reached; they make the search total. -/
def onGrids (f : BinaryFormat) (pattern : Nat) : Nat → Int → Decimal
  | 0, _ => f.exactDecimal pattern
  | tries+1, exponent => match f.onGrid? pattern exponent with
    | some found => found
    | none => f.onGrids pattern tries (exponent-1)

def coarsestGrid (f : BinaryFormat) (pattern : Nat) : Int :=
  (((f.steps pattern).log2+1 : Int)-f.stepExponent)*30103/100000+2

def shortest (f : BinaryFormat) (pattern : Nat) : Decimal :=
  if pattern = 0 then ⟨0,0⟩ else f.onGrids pattern (f.fractionBits+4) (f.coarsestGrid pattern)

theorem stepExponentReach (f : BinaryFormat) : f.stepExponent ≤ f.reach := by
  have grows : Nat.pow 2 (f.exponentBits-1) ≤ Nat.pow 2 f.exponentBits :=
    Nat.pow_le_pow_right (by decide) (Nat.sub_le f.exponentBits 1)
  unfold stepExponent reach
  omega

theorem ofExactDecimal (f : BinaryFormat) {k : Nat} (finite : k ≤ f.infinity) :
    f.ofDecimal (f.exactDecimal k) = k := by
  have clamp : max (-((f.reach : Int)+(f.exactDecimal k).significand.log2))
      (min (f.reach : Int) (f.exactDecimal k).exponent) = -(f.stepExponent : Int) := by
    have reach := f.stepExponentReach
    simp only [exactDecimal]
    omega
  have scaled : f.steps k*Nat.pow 5 f.stepExponent*f.stepsInOne =
      f.steps k*Nat.pow 10 f.stepExponent := by
    rw [Nat.mul_assoc]
    exact congrArg _ (Nat.mul_pow 5 2 f.stepExponent).symm
  have positive : 0 < Nat.pow 10 f.stepExponent := Nat.pow_pos (by decide)
  simp only [ofDecimal,clamp,Int.neg_neg,Int.toNat_natCast]
  rw [show (-(f.stepExponent : Int)).toNat = 0 by omega]
  show f.nearest ((f.exactDecimal k).significand*1*f.stepsInOne) _ = k
  rw [Nat.mul_one]
  simpa only [exactDecimal,scaled] using f.nearestSteps finite positive

theorem ofOnGrid {f : BinaryFormat} {pattern : Nat} {exponent : Int} {x : Decimal}
    (found : f.onGrid? pattern exponent = some x) : f.ofDecimal x = pattern := by
  simp only [onGrid?] at found
  split at found
  · rename_i reads; cases found; exact reads.1
  · split at found
    · rename_i reads; cases found; exact reads
    · cases found

theorem ofOnGrids (f : BinaryFormat) {pattern : Nat} (finite : pattern ≤ f.infinity) (tries : Nat)
    (exponent : Int) : f.ofDecimal (f.onGrids pattern tries exponent) = pattern := by
  induction tries generalizing exponent with
  | zero => exact f.ofExactDecimal finite
  | succ tries ih =>
    simp only [onGrids]
    split
    · rename_i found; exact ofOnGrid found
    · exact ih _

theorem ofShortest (f : BinaryFormat) {pattern : Nat} (finite : pattern ≤ f.infinity) :
    f.ofDecimal (f.shortest pattern) = pattern := by
  unfold shortest
  split
  · rename_i zero; subst zero; simp [ofDecimal,nearest,roundEven]
  · exact f.ofOnGrids finite _ _

end BinaryFormat

namespace Binary
variable {f : BinaryFormat}

def write (x : Binary f) : List Char :=
  if x.isNaN then "NaN".toList
  else
    let magnitude := if x.isInfinite then "inf".toList else (f.shortest x.pattern.val).write
    if x.negative then '-' :: magnitude else magnitude

def read? (text : List Char) : Option (Binary f) :=
  let (negative,magnitude) := Numeral.splitSign text
  let word := magnitude.map Char.toLower
  if word = "inf".toList ∨ word = "infinity".toList then some (infinite negative)
  else if word = "nan".toList then some (quietNaN negative)
  else (Decimal.read? magnitude).map fun x => ofPattern negative (f.ofDecimal x)

end Binary
end ColumnStore
