import ColumnStore.Proofs.Distinct
import ColumnStore.Proofs.Order
/-! Comparing the elements of one column is a total preorder. Fractions are ordered by sign and magnitude of their
patterns, a NaN like any other pattern, except that fractions which are equal as numbers compare equal. That exception
brings the two zeros together, which are neighbours in the order, and touches no other pair, so no law is lost. -/
namespace ColumnStore

namespace Binary
variable {f : BinaryFormat}

/- The place of a pattern among all of them. Negative ones count down from minus one, so that each of the two zeros
has a place of its own. -/
def place (x : Binary f) : Int := if x.negative then -1-(x.pattern.val : Int) else x.pattern.val

def totalOrder (x y : Binary f) : Ordering := compare x.place y.place

theorem placeEqual {x y : Binary f} : x.place = y.place ↔ x = y := by
  obtain ⟨xSign,xPattern⟩ := x
  obtain ⟨ySign,yPattern⟩ := y
  simp only [place,Binary.mk.injEq,Fin.ext_iff]
  cases xSign <;> cases ySign <;> simp <;> omega

theorem bitsEqual {x y : Binary f} : x.bits = y.bits ↔ x = y := by
  constructor
  · intro equal
    rw [← ofBitsBits x,equal,ofBitsBits y]
  · exact congrArg bits

theorem sameIff {x y : Binary f} : x.same y = true ↔ x.isNaN = false ∧ y.isNaN = false ∧ x.rank = y.rank := by
  simp [same,and_assoc]

theorem zeroNumber {x : Binary f} (zero : x.isZero = true) : x.isNaN = false := by
  simp only [isZero,beq_iff_eq] at zero
  simp [isNaN,zero]

theorem sameZeros {x y : Binary f} (left : x.isZero = true) (right : y.isZero = true) : x.same y = true :=
  sameIff.mpr ⟨zeroNumber left,zeroNumber right,rankEqual.mpr (.inr ⟨left,right⟩)⟩

theorem rankLess {x y : Binary f} (apart : ¬ (x.isZero = true ∧ y.isZero = true)) :
    x.rank < y.rank ↔ x.place < y.place := by
  obtain ⟨xSign,xPattern⟩ := x
  obtain ⟨ySign,yPattern⟩ := y
  simp only [isZero,beq_iff_eq] at apart
  cases xSign <;> cases ySign <;> simp [rank,place] <;> omega

theorem rankPatched (x y : Binary f) :
    compare x.rank y.rank = if x.same y then .eq else x.totalOrder y := by
  by_cases zeros : x.isZero = true ∧ y.isZero = true
  · rw [if_pos (sameZeros zeros.1 zeros.2)]
    exact compare_eq_iff_eq.mpr (rankEqual.mpr (.inr zeros))
  · have total : compare x.rank y.rank = x.totalOrder y := by
      rw [totalOrder]
      rcases lt_trichotomy x.place y.place with less | equal | greater
      · rw [compare_lt_iff_lt.mpr less]
        exact compare_lt_iff_lt.mpr ((rankLess zeros).mpr less)
      · rw [placeEqual.mp equal]
        simp
      · rw [compare_gt_iff_gt.mpr greater]
        have swapped : ¬ (y.isZero = true ∧ x.isZero = true) := fun both => zeros both.symm
        exact compare_gt_iff_gt.mpr ((rankLess swapped).mpr greater)
    split
    · rename_i equal
      exact compare_eq_iff_eq.mpr (sameIff.mp equal).2.2
    · exact total

end Binary

namespace DataType.Elem
variable {t : DataType}

def totalOrder : {t : DataType} → t.Elem → t.Elem → Ordering
  | .int, a, b => compare a.toInt b.toInt
  | .long, a, b => compare a.toInt b.toInt
  | .float, a, b => Binary.totalOrder a b
  | .double, a, b => Binary.totalOrder a b
  | .string, a, b => compare a b

def isNaN : {t : DataType} → t.Elem → Bool
  | .float, x => Binary.isNaN x
  | .double, x => Binary.isNaN x
  | _, _ => false

def sameBits : {t : DataType} → t.Elem → t.Elem → Prop
  | .float, a, b => Binary.bits a = Binary.bits b
  | .double, a, b => Binary.bits a = Binary.bits b
  | _, a, b => a = b

theorem sameBitsEqual {a b : t.Elem} : a.sameBits b ↔ a = b := by
  cases t with
  | float => exact Binary.bitsEqual
  | double => exact Binary.bitsEqual
  | _ => exact Iff.rfl

theorem orderSame {a b : t.Elem} (equal : a.same b = true) : a.order b = .eq := by
  cases t with
  | float => exact compare_eq_iff_eq.mpr (Binary.sameIff.mp equal).2.2
  | double => exact compare_eq_iff_eq.mpr (Binary.sameIff.mp equal).2.2
  | _ => rw [beq_iff_eq.mp equal]; exact orderSelf b

theorem orderPatched (a b : t.Elem) : a.order b = if a.same b then .eq else a.totalOrder b := by
  split
  · rename_i equal
    exact orderSame equal
  · rename_i different
    cases t with
    | float => exact (Binary.rankPatched a b).trans (if_neg different)
    | double => exact (Binary.rankPatched a b).trans (if_neg different)
    | _ => rfl

theorem sameZeros {a b : t.Elem} (left : a.isZero = true) (right : b.isZero = true) : a.same b = true := by
  cases t with
  | float => exact Binary.sameZeros left right
  | double => exact Binary.sameZeros left right
  | _ => cases left

theorem orderEqualSame {a b : t.Elem} : a.order b = .eq ↔ a.same b = true ∨ a.sameBits b := by
  rw [sameBitsEqual]
  constructor
  · intro equal
    rcases orderEqual.mp equal with identical | ⟨left,right⟩
    · exact .inr identical
    · exact .inl (sameZeros left right)
  · intro given
    rcases given with equal | rfl
    · exact orderSame equal
    · exact orderSelf a

end DataType.Elem

def Comparator.strict : List Comparator := [.lessThan,.equals,.greaterThan]

def Comparator.met : Ordering → Comparator
  | .lt => .lessThan
  | .eq => .equals
  | .gt => .greaterThan

theorem Comparator.metStrict (o : Ordering) : met o ∈ strict := by
  cases o <;> decide

theorem Comparator.strictHolds {c : Comparator} (mem : c ∈ strict) (o : Ordering) : c.holds o = true ↔ c = met o := by
  simp only [strict,List.mem_cons,List.not_mem_nil,or_false] at mem
  rcases mem with rfl | rfl | rfl <;> cases o <;> decide

theorem Comparator.strictOne (o : Ordering) : ∃! c, c ∈ strict ∧ c.holds o = true := by
  refine ⟨met o,⟨metStrict o,(strictHolds (metStrict o) o).mpr rfl⟩,?_⟩
  rintro c ⟨mem,holds⟩
  exact (strictHolds mem o).mp holds

structure OrderLaws (t : DataType) : Prop where
  patched : ∀ a b : t.Elem, a.order b = if a.same b then .eq else a.totalOrder b
  reverse : ∀ a b : t.Elem, a.order b = (b.order a).swap
  transitive : ∀ a b c : t.Elem, (a.order b).isLE = true → (b.order c).isLE = true → (a.order c).isLE = true
  comparable : ∀ a b : t.Elem, (a.order b).isLE = true ∨ (b.order a).isLE = true
  equal : ∀ a b : t.Elem, a.order b = .eq ↔ a.same b = true ∨ a.sameBits b
  interchangeable : ∀ a b : t.Elem, a.order b = .eq → ∀ c : t.Elem, a.order c = b.order c ∧ c.order a = c.order b
  exclusive : ∀ a b : t.Elem, ∃! c, c ∈ Comparator.strict ∧ c.holds (a.order b) = true
  complements : ∀ a b : t.Elem,
    Comparator.notEquals.holds (a.order b) = !Comparator.equals.holds (a.order b) ∧
    Comparator.greaterOrEqual.holds (a.order b) = !Comparator.lessThan.holds (a.order b) ∧
    Comparator.lessOrEqual.holds (a.order b) = !Comparator.greaterThan.holds (a.order b)

theorem ordersTotally (t : DataType) : OrderLaws t := by
  constructor
  case patched => exact DataType.Elem.orderPatched
  case reverse => exact fun a b => Std.OrientedCmp.eq_swap
  case transitive => exact fun a b c => Std.TransCmp.isLE_trans
  case comparable =>
    intro a b
    exact Bool.or_eq_true_iff.mp (notAboveTotal a b)
  case equal => exact fun a b => DataType.Elem.orderEqualSame
  case interchangeable => exact fun a b equal c => ⟨Std.TransCmp.congr_left equal,Std.TransCmp.congr_right equal⟩
  case exclusive => exact fun a b => Comparator.strictOne _
  case complements =>
    intro a b
    cases a.order b <;> decide

end ColumnStore
