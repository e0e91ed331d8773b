import ColumnStore.Proofs.Order
import ColumnStore.Proofs.Rounding
/-! Conversions of floating-point numbers. Each of them keeps the sign and sends greater magnitudes to greater ones, or
to the same, so it keeps the order; and where the target has a place for every magnitude of the source, the way back
undoes it. NaN is left out throughout. -/
namespace ColumnStore

def signed (negative : Bool) (magnitude : Nat) : Int := if negative then -(magnitude : Int) else magnitude

theorem signedRises {h : Nat → Nat} (rises : Monotone h) (zero : h 0 = 0) {s t : Bool} {a b : Nat}
    (le : signed s a ≤ signed t b) : signed s (h a) ≤ signed t (h b) := by
  cases s <;> cases t <;> simp only [signed,if_true,if_false,Bool.false_eq_true] at le ⊢
  case false.false => exact Int.ofNat_le.mpr (rises (Int.ofNat_le.mp le))
  case true.true =>
    have back : h b ≤ h a := rises (by omega)
    omega
  case true.false => omega
  case false.true =>
    -- Only the two zeros are left.
    obtain rfl : a = 0 := by omega
    obtain rfl : b = 0 := by omega
    rw [zero]
    omega

theorem signedSplit (n : Int) : signed (decide (n < 0)) n.natAbs = n := by
  unfold signed
  split
  · rename_i negative
    have : n < 0 := of_decide_eq_true negative
    omega
  · rename_i natural
    have : ¬ n < 0 := by simpa using natural
    omega

namespace BinaryFormat
variable (f g : BinaryFormat)

def moved (pattern : Nat) : Nat :=
  if f.infinity ≤ pattern then g.infinity else g.nearest (f.steps pattern*g.stepsInOne) f.stepsInOne

theorem movedRises : Monotone (f.moved g) := by
  intro a b le
  unfold moved
  split_ifs with outside above
  · exact Nat.le_refl _
  · omega
  · exact g.nearestBounded _ _
  · exact g.nearestRises (Nat.mul_le_mul_right _ (f.stepsRise.monotone le))

theorem movedBounded (pattern : Nat) : f.moved g pattern ≤ g.infinity := by
  unfold moved
  split
  · exact Nat.le_refl _
  · exact g.nearestBounded _ _

theorem stepsZero : f.steps 0 = 0 := f.stepsLow f.octavePositive

theorem movedZero (wide : 0 < f.exponentBits) : f.moved g 0 = 0 := by
  have below : ¬ f.infinity ≤ 0 := by
    rw [Nat.not_le,f.finiteBelow wide,f.stepsZero]
    exact Nat.two_pow_pos _
  rw [moved,if_neg below,f.stepsZero,Nat.zero_mul,g.nearestZero]

structure Widens : Prop where
  source : 0 < f.exponentBits
  target : 0 < g.exponentBits
  fraction : f.fractionBits ≤ g.fractionBits
  step : f.stepExponent ≤ g.stepExponent
  range : f.ceiling+(g.stepExponent-f.stepExponent) ≤ g.ceiling

variable {f g}

theorem Widens.stepsMoved (widens : f.Widens g) {k : Nat} (finite : k < f.infinity) : ∃ l, l < g.infinity ∧
    g.steps l*f.stepsInOne = f.steps k*g.stepsInOne := by
  obtain ⟨m,e,few,steps⟩ := f.stepsBits k
  have finer : f.octave ≤ g.octave := Nat.pow_le_pow_right (by decide) widens.fraction
  have scale : g.stepsInOne = Nat.pow 2 (g.stepExponent-f.stepExponent)*f.stepsInOne := by
    rw [stepsInOne,stepsInOne,Nat.pow_eq,Nat.pow_eq,Nat.pow_eq,← Nat.pow_add,Nat.sub_add_cancel widens.step]
  have scaled : m*Nat.pow 2 (e+(g.stepExponent-f.stepExponent)) =
      f.steps k*Nat.pow 2 (g.stepExponent-f.stepExponent) := by
    rw [steps,Nat.pow_eq,Nat.pow_eq,Nat.pow_eq,Nat.pow_add,Nat.mul_assoc]
  have below : m*Nat.pow 2 (e+(g.stepExponent-f.stepExponent)) < Nat.pow 2 g.ceiling :=
    calc m*Nat.pow 2 (e+(g.stepExponent-f.stepExponent)) = f.steps k*Nat.pow 2 (g.stepExponent-f.stepExponent) := scaled
      _ < Nat.pow 2 f.ceiling*Nat.pow 2 (g.stepExponent-f.stepExponent) :=
        Nat.mul_lt_mul_of_pos_right ((f.finiteBelow widens.source).mp finite) (Nat.two_pow_pos _)
      _ = Nat.pow 2 (f.ceiling+(g.stepExponent-f.stepExponent)) := (Nat.pow_add 2 _ _).symm
      _ ≤ Nat.pow 2 g.ceiling := Nat.pow_le_pow_right (by decide) widens.range
  obtain ⟨l,inside,reached⟩ := g.finiteReach widens.target (by omega) below
  refine ⟨l,inside,?_⟩
  rw [reached,scaled,scale,Nat.mul_assoc]

theorem Widens.movedBack (widens : f.Widens g) {k : Nat} (inside : k ≤ f.infinity) :
    g.moved f (f.moved g k) = k := by
  rcases Nat.lt_or_eq_of_le inside with finite | rfl
  · obtain ⟨l,below,same⟩ := widens.stepsMoved finite
    have there : f.moved g k = l := by
      rw [moved,if_neg (by omega),← same]
      exact g.nearestSteps (by omega) (Nat.two_pow_pos _)
    rw [there,moved,if_neg (by omega),same]
    exact f.nearestSteps inside (Nat.two_pow_pos _)
  · have there : f.moved g f.infinity = g.infinity := if_pos (Nat.le_refl _)
    rw [there]
    exact if_pos (Nat.le_refl _)

theorem singleWidens : single.Widens double := by
  constructor <;> decide +kernel

end BinaryFormat

namespace Binary
variable {f g : BinaryFormat} {x y : Binary f}

theorem rankSigned (x : Binary f) : x.rank = signed x.negative x.pattern.val := rfl

theorem patternBounded (number : x.isNaN = false) : x.pattern.val ≤ f.infinity := by
  simpa [isNaN] using number

theorem patternOf {negative : Bool} {k : Nat} (bounded : k ≤ f.infinity) :
    (ofPattern negative k : Binary f).pattern.val = k :=
  Nat.mod_eq_of_lt (Nat.lt_of_le_of_lt bounded f.infinityInside)

theorem rankOf {negative : Bool} {k : Nat} (bounded : k ≤ f.infinity) :
    (ofPattern negative k : Binary f).rank = signed negative k := by
  rw [rankSigned,patternOf bounded]
  rfl

theorem numberOf {negative : Bool} {k : Nat} (bounded : k ≤ f.infinity) :
    (ofPattern negative k : Binary f).isNaN = false := by
  simpa [isNaN,patternOf bounded] using bounded

theorem ofOwnPattern (x : Binary f) : ofPattern x.negative x.pattern.val = x := by
  obtain ⟨negative,pattern,bound⟩ := x
  simp [ofPattern,Nat.mod_eq_of_lt bound]

section Formats

theorem convertMoves (number : x.isNaN = false) :
    (x.convert : Binary g) = ofPattern x.negative (f.moved g x.pattern.val) := by
  have bounded := patternBounded number
  rw [convert,number,if_neg Bool.false_ne_true,BinaryFormat.moved]
  by_cases infinite : x.pattern.val = f.infinity
  · rw [if_pos (by simpa [isInfinite] using infinite),if_pos (by omega)]
    rfl
  · rw [if_neg (by simpa [isInfinite] using infinite),if_neg (by omega)]
    rfl

theorem convertNumber (number : x.isNaN = false) : (x.convert : Binary g).isNaN = false := by
  rw [convertMoves number]
  exact numberOf (f.movedBounded g _)

theorem convertRises (wide : 0 < f.exponentBits) (left : x.isNaN = false) (right : y.isNaN = false)
    (le : x.rank ≤ y.rank) : (x.convert : Binary g).rank ≤ (y.convert : Binary g).rank := by
  rw [convertMoves left,convertMoves right,rankOf (f.movedBounded g _),rankOf (f.movedBounded g _)]
  exact signedRises (f.movedRises g) (f.movedZero g wide) le

theorem convertBack (widens : f.Widens g) (number : x.isNaN = false) : (x.convert : Binary g).convert = x := by
  rw [convertMoves (convertNumber number),convertMoves number,patternOf (f.movedBounded g _),
    widens.movedBack (patternBounded number)]
  exact ofOwnPattern x

end Formats

section Whole

theorem ofIntRises {m n : Int} (le : m ≤ n) : (ofInt m : Binary f).rank ≤ (ofInt n : Binary f).rank := by
  have rises : Monotone fun k => f.nearest (k*f.stepsInOne) 1 :=
    fun a b less => f.nearestRises (Nat.mul_le_mul_right _ less)
  have zero : f.nearest (0*f.stepsInOne) 1 = 0 := by rw [Nat.zero_mul,f.nearestZero]
  rw [ofInt,ofInt,ofRatio,ofRatio,rankOf (f.nearestBounded _ _),rankOf (f.nearestBounded _ _)]
  refine signedRises rises zero ?_
  rwa [signedSplit,signedSplit]

theorem ofIntNumber (n : Int) : (ofInt n : Binary f).isNaN = false := numberOf (f.nearestBounded _ _)

theorem truncateSigned (x : Binary f) : x.truncate = signed x.negative (f.steps x.pattern.val/f.stepsInOne) := rfl

theorem truncateRises (le : x.rank ≤ y.rank) : x.truncate ≤ y.truncate := by
  have rises : Monotone fun k => f.steps k/f.stepsInOne :=
    fun a b less => Nat.div_le_div_right (f.stepsRise.monotone less)
  have zero : f.steps 0/f.stepsInOne = 0 := by rw [f.stepsZero,Nat.zero_div]
  exact signedRises rises zero le

structure Spans (f : BinaryFormat) (least greatest : Int) : Prop where
  low : -((f.steps f.infinity/f.stepsInOne : Nat) : Int) ≤ least
  high : greatest ≤ (f.steps f.infinity/f.stepsInOne : Nat)
  ordered : least ≤ greatest

variable {least greatest : Int}

theorem clampTruncates (spans : Spans f least greatest) (number : x.isNaN = false) :
    x.clampTo least greatest = max least (min greatest x.truncate) := by
  rw [clampTo,number,if_neg Bool.false_ne_true]
  split
  · rename_i infinite
    have pattern : x.pattern.val = f.infinity := by simpa [isInfinite] using infinite
    have low := spans.low
    have high := spans.high
    have ordered := spans.ordered
    rw [truncateSigned,pattern,signed]
    split_ifs <;> omega
  · rfl

theorem clampRises (spans : Spans f least greatest) (left : x.isNaN = false) (right : y.isNaN = false)
    (le : x.rank ≤ y.rank) : x.clampTo least greatest ≤ y.clampTo least greatest := by
  have truncated := truncateRises le
  rw [clampTruncates spans left,clampTruncates spans right]
  omega

theorem clampInside (spans : Spans f least greatest) (number : x.isNaN = false) :
    least ≤ x.clampTo least greatest ∧ x.clampTo least greatest ≤ greatest := by
  have ordered := spans.ordered
  rw [clampTruncates spans number]
  omega

theorem ofIntClamped (wide : 0 < f.exponentBits) {n : Int} {digits : Nat} (small : n.natAbs < Nat.pow 2 digits)
    (fits : digits ≤ f.fractionBits+1) (inside : digits+f.stepExponent ≤ f.ceiling) (low : least ≤ n)
    (high : n ≤ greatest) : (ofInt n : Binary f).clampTo least greatest = n := by
  have few : n.natAbs < 2*f.octave :=
    calc n.natAbs < Nat.pow 2 digits := small
      _ ≤ Nat.pow 2 (f.fractionBits+1) := Nat.pow_le_pow_right (by decide) fits
      _ = 2*f.octave := Nat.pow_succ'
  have below : n.natAbs*f.stepsInOne < Nat.pow 2 f.ceiling :=
    calc n.natAbs*f.stepsInOne < Nat.pow 2 digits*f.stepsInOne := Nat.mul_lt_mul_of_pos_right small (Nat.two_pow_pos _)
      _ = Nat.pow 2 (digits+f.stepExponent) := (Nat.pow_add 2 _ _).symm
      _ ≤ Nat.pow 2 f.ceiling := Nat.pow_le_pow_right (by decide) inside
  obtain ⟨k,finite,steps⟩ := f.finiteReach wide few below
  have bounded : k ≤ f.infinity := by omega
  have exactly : f.nearest (n.natAbs*f.stepsInOne) 1 = k := by
    have found := f.nearestSteps bounded Nat.one_pos
    rw [Nat.mul_one,steps] at found
    exact found
  have whole : f.steps k/f.stepsInOne = n.natAbs := by
    rw [steps]
    exact Nat.mul_div_cancel _ (Nat.two_pow_pos _)
  have placed : (ofInt n : Binary f) = ofPattern (decide (n < 0)) k := by rw [ofInt,ofRatio,exactly]
  have finiteOf : (ofPattern (decide (n < 0)) k : Binary f).isInfinite = false := by
    simp only [isInfinite,patternOf bounded,beq_eq_false_iff_ne]
    omega
  rw [placed,clampTo,numberOf bounded,finiteOf,if_neg Bool.false_ne_true,if_neg Bool.false_ne_true,truncateSigned,
    patternOf bounded,whole]
  have kept : signed (decide (n < 0)) n.natAbs = n := signedSplit n
  show max least (min greatest (signed (decide (n < 0)) n.natAbs)) = n
  rw [kept]
  omega

end Whole
end Binary
end ColumnStore
