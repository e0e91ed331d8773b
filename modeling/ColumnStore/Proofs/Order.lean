import ColumnStore.Comparator
import ColumnStore.Value.Order
import Mathlib
/-! Laws of the order of elements. It is a total preorder for every column type, and elements that compare
equal have the same bits, or are both a zero of a floating-point type. Sorting, search and the predicates of
scans rest on nothing else. -/
namespace ColumnStore

namespace Binary
variable {f : BinaryFormat}

theorem rankEqual {x y : Binary f} :
    x.rank = y.rank ↔ x = y ∨ x.isZero = true ∧ y.isZero = true := by
  obtain ⟨xSign,xPattern⟩ := x
  obtain ⟨ySign,yPattern⟩ := y
  simp only [rank,isZero,beq_iff_eq,Binary.mk.injEq,Fin.ext_iff]
  cases xSign <;> cases ySign <;> simp <;> omega

end Binary

namespace DataType.Elem
variable {t : DataType}

def isZero : {t : DataType} → t.Elem → Bool
  | .float, x => Binary.isZero x
  | .double, x => Binary.isZero x
  | _, _ => false

instance orderTotal : Std.TransCmp (order (t := t)) := by
  cases t with
  | int => exact inferInstanceAs (Std.TransCmp (compareOn Int32.toInt))
  | long => exact inferInstanceAs (Std.TransCmp (compareOn Int64.toInt))
  | float => exact inferInstanceAs (Std.TransCmp (compareOn (Binary.rank (f := .single))))
  | double => exact inferInstanceAs (Std.TransCmp (compareOn (Binary.rank (f := .double))))
  | string => exact inferInstanceAs (Std.TransOrd String)

theorem orderEqual {x y : t.Elem} :
    x.order y = .eq ↔ x = y ∨ x.isZero = true ∧ y.isZero = true := by
  cases t with
  | int => simp [order,isZero,Int32.toInt_inj]
  | long => simp [order,isZero,Int64.toInt_inj]
  | float => simpa only [order,isZero,Std.LawfulEqOrd.compare_eq_iff_eq] using Binary.rankEqual
  | double => simpa only [order,isZero,Std.LawfulEqOrd.compare_eq_iff_eq] using Binary.rankEqual
  | string => simp [order,isZero]

theorem orderSelf (x : t.Elem) : x.order x = .eq := Std.ReflCmp.compare_self

theorem equalUnlessZero {x y : t.Elem} (equal : x.order y = .eq) (nonzero : x.isZero = false) :
    x = y := by
  rcases orderEqual.mp equal with same | zeros
  · exact same
  · simp [nonzero] at zeros

theorem isZeroOfEqual {x y : t.Elem} (equal : x.order y = .eq) : x.isZero = y.isZero := by
  rcases orderEqual.mp equal with rfl | ⟨left,right⟩
  · rfl
  · rw [left,right]

end DataType.Elem

namespace Value

inductive Alike : Value → Value → Prop where
  | intro {t : DataType} {x y : t.Elem} (equal : x.order y = .eq) : Alike ⟨t,x⟩ ⟨t,y⟩

def isZero (v : Value) : Bool := v.elem.isZero

namespace Alike

theorem refl (v : Value) : Alike v v := ⟨DataType.Elem.orderSelf v.elem⟩

theorem trans {u v w : Value} (first : Alike u v) (second : Alike v w) : Alike u w := by
  obtain ⟨left⟩ := first
  cases second with
  | intro right => exact ⟨Std.TransCmp.eq_trans left right⟩

theorem bits {v w : Value} (alike : Alike v w) :
    v = w ∨ v.isZero = true ∧ w.isZero = true := by
  obtain ⟨equal⟩ := alike
  rcases DataType.Elem.orderEqual.mp equal with rfl | zeros
  · exact .inl rfl
  · exact .inr zeros

end Alike
end Value
end ColumnStore
