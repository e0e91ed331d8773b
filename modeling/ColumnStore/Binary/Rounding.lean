import ColumnStore.Binary.Basic
/-! Rounding to the nearest number of a format, ties to the even pattern, and the conversions that rest on it.
Every conversion rounds an exact ratio of natural numbers once. -/
namespace ColumnStore

def roundEven (n d : Nat) : Nat :=
  let quotient := n/d
  let twice := 2*(n%d)
  if twice < d then quotient
  else if d < twice then quotient+1
  else quotient+quotient%2

theorem roundEvenExact {m d : Nat} (positive : 0 < d) : roundEven (m*d) d = m := by
  simp [roundEven,Nat.mul_div_cancel m positive,positive]

namespace BinaryFormat

/-- The pattern nearest to a ratio of steps. The ratio is halved until it fits a significand. A significand
that rounds up to the next power of two carries into the exponent, and past the largest finite
magnitude comes infinity. -/
def nearest (f : BinaryFormat) (n d : Nat) : Nat :=
  let halvings := (n/d).log2-f.fractionBits
  min (halvings*f.octave+roundEven n (d*Nat.pow 2 halvings)) f.infinity

theorem log2Shifted (f : BinaryFormat) {r e : Nat} (rest : r < f.octave) :
    ((f.octave+r)*Nat.pow 2 e).log2 = f.fractionBits+e := by
  have positive : 0 < (f.octave+r)*Nat.pow 2 e :=
    Nat.mul_pos (Nat.add_pos_left f.octavePositive _) (Nat.two_pow_pos _)
  refine (Nat.log2_eq_iff (Nat.ne_of_gt positive)).mpr ⟨?_,?_⟩
  · rw [Nat.pow_add]
    exact Nat.mul_le_mul_right _ (Nat.le_add_right f.octave r)
  · rw [show f.fractionBits+e+1 = (f.fractionBits+1)+e by omega,Nat.pow_add,Nat.pow_succ]
    exact (Nat.mul_lt_mul_right (Nat.two_pow_pos _)).mpr
      (show f.octave+r < f.octave*2 by omega)

theorem nearestSteps (f : BinaryFormat) {k d : Nat} (finite : k ≤ f.infinity) (positive : 0 < d) :
    f.nearest (f.steps k*d) d = k := by
  by_cases low : k < f.octave
  · have halvings : k.log2-f.fractionBits = 0 := by
      have : k.log2 ≤ f.fractionBits := by
        by_cases zero : k = 0
        · simp [zero]
        · exact Nat.le_of_lt ((Nat.log2_lt zero).mpr low)
      omega
    simp [nearest,steps,low,Nat.mul_div_cancel k positive,halvings,roundEvenExact positive,
      Nat.min_eq_left finite]
  · have normal : 1 ≤ k/f.octave := (Nat.one_le_div_iff f.octavePositive).mpr (by omega)
    have rest : k%f.octave < f.octave := Nat.mod_lt _ f.octavePositive
    have whole := Nat.div_add_mod k f.octave
    generalize quotient : k/f.octave = q at *
    generalize remainder : k%f.octave = r at *
    have value : f.steps k = (f.octave+r)*Nat.pow 2 (q-1) := by
      simp only [steps,low,quotient,remainder,if_false]
    have scaled : (f.octave+r)*Nat.pow 2 (q-1)*d = (f.octave+r)*(d*Nat.pow 2 (q-1)) := by
      rw [Nat.mul_assoc,Nat.mul_comm d]
    have halvings : f.fractionBits+(q-1)-f.fractionBits = q-1 := by omega
    simp only [nearest,value,Nat.mul_div_cancel _ positive,f.log2Shifted rest,halvings]
    have divisor : 0 < d*Nat.pow 2 (q-1) := Nat.mul_pos positive (Nat.two_pow_pos _)
    rw [scaled,roundEvenExact divisor]
    have total : (q-1)*f.octave+(f.octave+r) = k := by
      rw [← Nat.add_assoc,← Nat.succ_mul,show (q-1).succ = q by omega,Nat.mul_comm]
      exact whole
    rw [total,Nat.min_eq_left finite]

end BinaryFormat

namespace Binary
variable {f g : BinaryFormat}

def ofRatio (negative : Bool) (n d : Nat) : Binary f :=
  ofPattern negative (f.nearest (n*f.stepsInOne) d)

def ofInt (n : Int) : Binary f := ofRatio (decide (n < 0)) n.natAbs 1

/-! Products and quotients are of finite numbers. -/
def times (x y : Binary f) : Binary f :=
  ofRatio (x.negative != y.negative) (f.steps x.pattern.val*f.steps y.pattern.val) (f.stepsInOne*f.stepsInOne)

def dividedBy (x y : Binary f) : Binary f :=
  ofRatio (x.negative != y.negative) (f.steps x.pattern.val) (f.steps y.pattern.val)

/-- A NaN keeps its leading fraction bits and becomes quiet. -/
def convert (x : Binary f) : Binary g :=
  if x.isNaN then
    let payload := x.pattern.val % f.octave
    let moved := payload*g.octave/f.octave
    ofPattern x.negative (g.infinity+(moved ||| g.quietBit))
  else if x.isInfinite then infinite x.negative
  else ofRatio x.negative (f.steps x.pattern.val) f.stepsInOne

def truncate (x : Binary f) : Int :=
  let whole := f.steps x.pattern.val/f.stepsInOne
  if x.negative then -(whole : Int) else whole

def clampTo (x : Binary f) (least greatest : Int) : Int :=
  if x.isNaN then 0
  else if x.isInfinite then (if x.negative then least else greatest)
  else max least (min greatest x.truncate)

end Binary
end ColumnStore
