import ColumnStore.Binary.Rounding
import Mathlib
/-! Laws of rounding. Patterns stand for ever greater magnitudes; every magnitude with few enough significant bits is
that of some pattern; and rounding never puts a greater magnitude in front of a lesser one. The last holds across the
powers of two at which the grid gets coarser, since what lies below such a power rounds to it at most and what lies
above it rounds to it at least. -/
namespace ColumnStore

theorem roundEvenBounds (n d : Nat) : n/d ≤ roundEven n d ∧ roundEven n d ≤ n/d+1 := by
  have parity : n/d%2 < 2 := Nat.mod_lt _ (by decide)
  simp only [roundEven]
  split
  · omega
  · split <;> omega

theorem roundEvenRises {n m d : Nat} (le : n ≤ m) : roundEven n d ≤ roundEven m d := by
  have quotients : n/d ≤ m/d := Nat.div_le_div_right le
  rcases Nat.lt_or_eq_of_le quotients with less | same
  · have low := (roundEvenBounds n d).2
    have high := (roundEvenBounds m d).1
    omega
  · -- Within one quotient the remainder decides.
    have left := Nat.div_add_mod n d
    have right := Nat.div_add_mod m d
    have remainders : n%d ≤ m%d := by
      rw [same] at left
      omega
    have parity : m/d%2 < 2 := Nat.mod_lt _ (by decide)
    simp only [roundEven,same]
    split_ifs <;> omega

namespace BinaryFormat
variable (f : BinaryFormat)

theorem infinityInside : f.infinity < f.patterns := by
  have some : 0 < Nat.pow 2 f.exponentBits := Nat.two_pow_pos _
  have whole : f.patterns = Nat.pow 2 f.exponentBits*f.octave := Nat.pow_add 2 f.exponentBits f.fractionBits
  rw [infinity,whole]
  exact Nat.mul_lt_mul_of_pos_right (Nat.sub_lt some Nat.one_pos) f.octavePositive

section Steps

theorem stepsLow {r : Nat} (low : r < f.octave) : f.steps r = r := if_pos low

theorem stepsHigh {r : Nat} (e : Nat) (rest : r < f.octave) :
    f.steps ((e+1)*f.octave+r) = (f.octave+r)*Nat.pow 2 e := by
  have high : ¬ (e+1)*f.octave+r < f.octave := by
    have : f.octave ≤ (e+1)*f.octave := Nat.le_mul_of_pos_left f.octave (Nat.succ_pos e)
    omega
  have quotient : ((e+1)*f.octave+r)/f.octave = e+1 := by
    rw [Nat.mul_comm,Nat.mul_add_div f.octavePositive,Nat.div_eq_of_lt rest,Nat.add_zero]
  have remainder : ((e+1)*f.octave+r)%f.octave = r := by
    rw [Nat.mul_comm,Nat.mul_add_mod,Nat.mod_eq_of_lt rest]
  simp only [steps,high,if_false,quotient,remainder,Nat.add_sub_cancel]

theorem octaves (k : Nat) : k < f.octave ∨ ∃ e r, r < f.octave ∧ k = (e+1)*f.octave+r := by
  by_cases low : k < f.octave
  · exact .inl low
  · have later : 1 ≤ k/f.octave := (Nat.one_le_div_iff f.octavePositive).mpr (by omega)
    refine .inr ⟨k/f.octave-1,k%f.octave,Nat.mod_lt _ f.octavePositive,?_⟩
    rw [Nat.sub_add_cancel later,Nat.mul_comm]
    exact (Nat.div_add_mod k f.octave).symm

theorem stepsNext (k : Nat) : f.steps k < f.steps (k+1) := by
  have positive := f.octavePositive
  rcases f.octaves k with low | ⟨e,r,rest,rfl⟩
  · rw [f.stepsLow low]
    rcases Nat.lt_or_eq_of_le (Nat.succ_le_of_lt low) with inside | edge
    · rw [f.stepsLow inside]
      omega
    · have next : k+1 = (0+1)*f.octave+0 := by omega
      rw [next,f.stepsHigh 0 positive]
      simpa using low
  · rw [f.stepsHigh e rest]
    rcases Nat.lt_or_eq_of_le (Nat.succ_le_of_lt rest) with inside | edge
    · rw [Nat.add_assoc,f.stepsHigh e inside]
      exact Nat.mul_lt_mul_of_pos_right (by omega) (Nat.two_pow_pos _)
    · have next : (e+1)*f.octave+r+1 = (e+1+1)*f.octave+0 := by
        rw [Nat.add_assoc,← Nat.succ_eq_add_one r,edge,Nat.add_one_mul (e+1)]
        omega
      rw [next,f.stepsHigh (e+1) positive,Nat.pow_eq,Nat.pow_eq,Nat.pow_succ,Nat.add_zero,← Nat.mul_assoc,
        Nat.mul_right_comm]
      exact Nat.mul_lt_mul_of_pos_right (by omega) (Nat.two_pow_pos _)

theorem stepsRise : StrictMono f.steps := strictMono_nat_of_lt_succ f.stepsNext

theorem stepsReach (m e : Nat) (few : m < 2*f.octave) : ∃ k, f.steps k = m*Nat.pow 2 e := by
  induction e generalizing m with
  | zero =>
    by_cases low : m < f.octave
    · exact ⟨m,by rw [f.stepsLow low]; simp⟩
    · refine ⟨(0+1)*f.octave+(m-f.octave),?_⟩
      rw [f.stepsHigh 0 (by omega),Nat.add_sub_cancel' (by omega)]
  | succ e ih =>
    by_cases low : m < f.octave
    · obtain ⟨k,reached⟩ := ih (2*m) (by omega)
      refine ⟨k,?_⟩
      rw [reached,Nat.pow_eq,Nat.pow_eq,Nat.pow_succ]
      ring
    · refine ⟨(e+1+1)*f.octave+(m-f.octave),?_⟩
      rw [f.stepsHigh (e+1) (by omega),Nat.add_sub_cancel' (by omega)]

theorem stepsBits (k : Nat) : ∃ m e, m < 2*f.octave ∧ f.steps k = m*Nat.pow 2 e := by
  have positive := f.octavePositive
  rcases f.octaves k with low | ⟨e,r,rest,rfl⟩
  · exact ⟨k,0,by omega,by rw [f.stepsLow low]; simp⟩
  · exact ⟨f.octave+r,e,by omega,f.stepsHigh e rest⟩

/- The first power of two that is too great for a finite magnitude is 2 to this power, in steps. -/
def ceiling : Nat := f.fractionBits+(Nat.pow 2 f.exponentBits-2)

variable (wide : 0 < f.exponentBits)
include wide

theorem stepsInfinity : f.steps f.infinity = Nat.pow 2 f.ceiling := by
  have exponents : Nat.pow 2 1 ≤ Nat.pow 2 f.exponentBits := Nat.pow_le_pow_right (by decide) wide
  have last : f.infinity = (Nat.pow 2 f.exponentBits-2+1)*f.octave+0 := by
    rw [infinity,Nat.add_zero]
    congr 1
    change 2 ≤ Nat.pow 2 f.exponentBits at exponents
    omega
  rw [last,f.stepsHigh _ f.octavePositive,Nat.add_zero]
  exact (Nat.pow_add 2 _ _).symm

theorem finiteBelow {k : Nat} : k < f.infinity ↔ f.steps k < Nat.pow 2 f.ceiling := by
  rw [← f.stepsInfinity wide,f.stepsRise.lt_iff_lt]

theorem finiteReach {m e : Nat} (few : m < 2*f.octave) (below : m*Nat.pow 2 e < Nat.pow 2 f.ceiling) :
    ∃ k, k < f.infinity ∧ f.steps k = m*Nat.pow 2 e := by
  obtain ⟨k,reached⟩ := f.stepsReach m e few
  exact ⟨k,(f.finiteBelow wide).mpr (by rw [reached]; exact below),reached⟩

end Steps

section Nearest

def halvings (n d : Nat) : Nat := (n/d).log2-f.fractionBits

theorem nearestEq (n d : Nat) : f.nearest n d =
    min (f.halvings n d*f.octave+roundEven n (d*Nat.pow 2 (f.halvings n d))) f.infinity := rfl

theorem nearestBounded (n d : Nat) : f.nearest n d ≤ f.infinity := Nat.min_le_right _ _

theorem nearestZero (d : Nat) : f.nearest 0 d = 0 := by
  simp [nearest,roundEven]

variable {n m d : Nat}

theorem halvingsRise (le : n ≤ m) : f.halvings n d ≤ f.halvings m d := by
  have quotients : n/d ≤ m/d := Nat.div_le_div_right le
  refine Nat.sub_le_sub_right ?_ _
  rw [Nat.log2_eq_log_two,Nat.log2_eq_log_two]
  exact Nat.log_mono_right quotients

theorem roundedBelow (n d : Nat) : roundEven n (d*Nat.pow 2 (f.halvings n d)) ≤ 2*f.octave := by
  have bits : (n/d).log2+1 ≤ (f.fractionBits+1)+f.halvings n d := by
    unfold halvings
    omega
  have below : n/d < 2*f.octave*Nat.pow 2 (f.halvings n d) :=
    calc n/d < Nat.pow 2 ((n/d).log2+1) := Nat.lt_log2_self
      _ ≤ Nat.pow 2 (f.fractionBits+1+f.halvings n d) := Nat.pow_le_pow_right (by decide) bits
      _ = 2*f.octave*Nat.pow 2 (f.halvings n d) := by
        simp only [octave,Nat.pow_eq]
        ring
  have quotient : n/(d*Nat.pow 2 (f.halvings n d)) < 2*f.octave := by
    rw [← Nat.div_div_eq_div_mul]
    exact (Nat.div_lt_iff_lt_mul (Nat.two_pow_pos _)).mpr below
  have rounded := (roundEvenBounds n (d*Nat.pow 2 (f.halvings n d))).2
  omega

theorem roundedAbove (halved : 0 < f.halvings n d) : f.octave ≤ roundEven n (d*Nat.pow 2 (f.halvings n d)) := by
  have bits : (n/d).log2 = f.fractionBits+f.halvings n d := by
    unfold halvings at halved ⊢
    omega
  have some : n/d ≠ 0 := by
    intro none
    rw [none,Nat.log2_zero] at bits
    omega
  have above : f.octave*Nat.pow 2 (f.halvings n d) ≤ n/d :=
    calc f.octave*Nat.pow 2 (f.halvings n d) = Nat.pow 2 (n/d).log2 := by
          rw [bits]
          exact (Nat.pow_add 2 _ _).symm
      _ ≤ n/d := Nat.log2_self_le some
  have quotient : f.octave ≤ n/(d*Nat.pow 2 (f.halvings n d)) := by
    rw [← Nat.div_div_eq_div_mul]
    exact (Nat.le_div_iff_mul_le (Nat.two_pow_pos _)).mpr above
  exact quotient.trans (roundEvenBounds n _).1

theorem nearestRises (le : n ≤ m) : f.nearest n d ≤ f.nearest m d := by
  rw [nearestEq,nearestEq]
  refine min_le_min_right _ ?_
  rcases Nat.lt_or_eq_of_le (f.halvingsRise (d := d) le) with coarser | same
  · have low := f.roundedBelow n d
    have high := f.roundedAbove (Nat.zero_lt_of_lt coarser)
    have octaves : (f.halvings n d+1)*f.octave ≤ f.halvings m d*f.octave := Nat.mul_le_mul_right _ coarser
    rw [Nat.add_one_mul] at octaves
    omega
  · rw [same]
    exact Nat.add_le_add_left (roundEvenRises le) _

end Nearest

end BinaryFormat
end ColumnStore
