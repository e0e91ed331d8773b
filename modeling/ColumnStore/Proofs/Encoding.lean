import ColumnStore.Dictionary
import ColumnStore.Proofs.Distinct
import ColumnStore.Proofs.Order
/-! Dictionaries that come from encoding an array of elements. The entries are strictly ascending, the code of a
row is the place of the entry that stands for its element, and every code fits the width of its vector with the
greatest code of that width left over. Sizes are below the number of codes; no other bound is assumed. -/
namespace ColumnStore

theorem codesLeftOver {entries : Nat} (few : entries < UInt32.size) :
    entries < (CodeWidth.forEntries entries).codes := by
  unfold CodeWidth.forEntries
  split
  · assumption
  · split
    · assumption
    · exact few

theorem cutKeeps {width : CodeWidth} {n : Nat} (fits : n < width.codes) :
    (width.cut (UInt32.ofNat n)).toNat = n := by
  have narrow : width.codes ≤ UInt32.size := by cases width <;> decide
  have small : n < UInt32.size := Nat.lt_of_lt_of_le fits narrow
  rw [CodeWidth.cut,UInt32.toNat_ofNat_of_lt' small,Nat.mod_eq_of_lt fits,UInt32.toNat_ofNat_of_lt' small]

namespace DataType.Elem
variable {t : DataType}

/- Elements of which no more than there are codes all differ in the order, which takes the two zeros for one. -/
def FewDistinct (xs : List t.Elem) : Prop :=
  ∀ ys : List t.Elem, ys ⊆ xs → ys.Pairwise (fun x y => x.order y ≠ .eq) → ys.length < UInt32.size

theorem fewOfLength {xs : List t.Elem} (short : xs.length < UInt32.size) : FewDistinct xs := by
  intro ys among apart
  have nodup : ys.Nodup := by
    refine apart.imp ?_
    intro x y differ same
    subst same
    exact differ (orderSelf x)
  exact Nat.lt_of_le_of_lt (nodup.subperm among).length_le short

end DataType.Elem

namespace Dictionary
variable {t : DataType}

def Ascending (entries : Array t.Elem) : Prop := entries.toList.Pairwise fun a b => a.order b = .lt

theorem ascendingAt {entries : Array t.Elem} (ascending : Ascending entries) {i j : Nat}
    (first : i < entries.size) (second : j < entries.size) (before : i < j) :
    entries[i].order entries[j] = .lt :=
  List.pairwise_iff_getElem.mp ascending i j first second before

section Counts

theorem countBelowInside (entries : Array t.Elem) (x : t.Elem) : countBelow entries x ≤ entries.size :=
  partitionPointBound

theorem countUpToInside (entries : Array t.Elem) (x : t.Elem) : countUpTo entries x ≤ entries.size :=
  partitionPointBound

variable {entries : Array t.Elem} (ascending : Ascending entries)
include ascending

theorem countBelowSplits {i : Nat} (bound : i < entries.size) (x : t.Elem) :
    entries[i].order x = .lt ↔ i < countBelow entries x := by
  have split : PassesInFront (fun entry : t.Elem => entry.order x == .lt) entries := by
    intro i j first second before pass
    rcases Nat.eq_or_lt_of_le before with rfl | earlier
    · exact pass
    · simp only [beq_iff_eq] at pass ⊢
      exact Std.TransCmp.lt_trans (ascendingAt ascending first second earlier) pass
  simpa [countBelow] using partitionPointSplits split bound

theorem countUpToSplits {i : Nat} (bound : i < entries.size) (x : t.Elem) :
    entries[i].order x ≠ .gt ↔ i < countUpTo entries x := by
  have split : PassesInFront (fun entry : t.Elem => entry.order x != .gt) entries := by
    intro i j first second before pass
    rcases Nat.eq_or_lt_of_le before with rfl | earlier
    · exact pass
    · simp only [bne_iff_ne,ne_eq,← Ordering.isLE_iff_ne_gt] at pass ⊢
      exact Ordering.isLE_of_eq_lt
        (Std.TransCmp.lt_of_lt_of_isLE (ascendingAt ascending first second earlier) pass)
  simpa [countUpTo] using partitionPointSplits split bound

theorem countBelowAt {i : Nat} (bound : i < entries.size) {x : t.Elem} (equal : entries[i].order x = .eq) :
    countBelow entries x = i := by
  have limit := countBelowInside entries x
  have notBelow : ¬ i < countBelow entries x := by
    rw [← countBelowSplits ascending bound,equal]
    exact Ordering.noConfusion
  by_contra different
  have before : countBelow entries x < i := by omega
  have less : entries[countBelow entries x].order x = .lt :=
    Std.TransCmp.lt_of_lt_of_eq (ascendingAt ascending (by omega) bound before) equal
  exact absurd ((countBelowSplits ascending (by omega) x).mp less) (by omega)

theorem countUpToAt {i : Nat} (bound : i < entries.size) {x : t.Elem} (equal : entries[i].order x = .eq) :
    countUpTo entries x = i+1 := by
  have limit := countUpToInside entries x
  have reached : i < countUpTo entries x := by
    rw [← countUpToSplits ascending bound,equal]
    exact Ordering.noConfusion
  by_contra different
  have next : i+1 < countUpTo entries x := by omega
  have above : entries[i+1].order x = .gt := by
    refine Std.OrientedCmp.gt_of_lt ?_
    exact Std.TransCmp.lt_of_eq_of_lt (Std.OrientedCmp.eq_symm equal)
      (ascendingAt ascending bound (by omega) (by omega))
  exact (countUpToSplits ascending (by omega) x).mpr next above

theorem countUpToAbsent {x : t.Elem} (absent : ∀ i (bound : i < entries.size), entries[i].order x ≠ .eq) :
    countUpTo entries x = countBelow entries x := by
  have lower := countBelowInside entries x
  have upper := countUpToInside entries x
  refine Nat.le_antisymm ?_ ?_
  · by_contra wide
    have bound : countBelow entries x < entries.size := by omega
    have upTo := (countUpToSplits ascending bound x).mpr (by omega)
    have notBelow := mt (countBelowSplits ascending bound x).mp (by omega)
    have different := absent _ bound
    cases order : entries[countBelow entries x].order x <;> contradiction
  · by_contra wide
    have bound : countUpTo entries x < entries.size := by omega
    have below := (countBelowSplits ascending bound x).mpr (by omega)
    have notUpTo := mt (countUpToSplits ascending bound x).mp (by omega)
    exact notUpTo (by rw [below]; exact Ordering.noConfusion)

end Counts

section OfElems
variable (elems : Array t.Elem)

theorem entriesAscending : Ascending (ofElems elems).entries := distinctAscending elems.toList

theorem entriesMember {x : t.Elem} (member : x ∈ (ofElems elems).entries) : x ∈ elems := by
  have kept : x ∈ distinct DataType.Elem.order elems.toList := by simpa [ofElems] using member
  simpa using distinctMember kept

theorem entriesSize : (ofElems elems).entries.size ≤ elems.size := by
  have kept : (distinct DataType.Elem.order elems.toList).length ≤ _ := (dropRepeatsSublist _).length_le
  simpa [ofElems] using kept

theorem entriesFew (few : DataType.Elem.FewDistinct elems.toList) : (ofElems elems).entries.size < UInt32.size := by
  refine few (ofElems elems).entries.toList ?_ ?_
  · intro x member
    exact Array.mem_toList_iff.mpr (entriesMember elems (Array.mem_toList_iff.mp member))
  · refine (entriesAscending elems).imp ?_
    intro x y less equal
    rw [less] at equal
    cases equal

theorem lengthOfElems : (ofElems elems).length = elems.size := by
  simp [ofElems,length,CodeVector.length,CodeVector.ofCodes]

variable {elems}

theorem entryOf {x : t.Elem} (member : x ∈ elems) :
    ∃ bound : countBelow (ofElems elems).entries x < (ofElems elems).entries.size,
      elems.toList.find? (fun y => y.order x == .eq) =
        some (ofElems elems).entries[countBelow (ofElems elems).entries x] := by
  have present : (elems.toList.find? fun y => y.order x == .eq).isSome = true :=
    List.find?_isSome.mpr ⟨x,by simpa using member,by simp [DataType.Elem.orderSelf]⟩
  obtain ⟨y,found⟩ := Option.isSome_iff_exists.mp present
  have kept : (ofElems elems).entries.toList.find? (fun y => y.order x == .eq) = some y := by
    rw [← found]
    exact distinctFind elems.toList x
  have equal : y.order x = .eq := by simpa using List.find?_some kept
  obtain ⟨i,bound,at_⟩ := Array.getElem_of_mem (Array.mem_toList_iff.mp (List.mem_of_find?_eq_some kept))
  have place := countBelowAt (entriesAscending elems) bound (by rw [at_]; exact equal)
  refine ⟨by rw [place]; exact bound,?_⟩
  simp only [place,at_,found]

theorem codeAt {i : Nat} {x : t.Elem} (row : elems[i]? = some x)
    (few : (ofElems elems).entries.size < UInt32.size) :
    ∃ code, (ofElems elems).codes.get i = .ok code ∧
      code.toNat = countBelow (ofElems elems).entries x := by
  obtain ⟨bound,_⟩ := entryOf (Array.mem_of_getElem? row)
  have fits := Nat.lt_trans bound (codesLeftOver few)
  refine ⟨_,?_,cutKeeps fits⟩
  simp [CodeVector.get,ofElems,CodeVector.ofCodes,row]

theorem getAt {i : Nat} {x : t.Elem} (row : elems[i]? = some x)
    (few : (ofElems elems).entries.size < UInt32.size) :
    ∃ y, (ofElems elems).get i = .ok y ∧ elems.toList.find? (fun y => y.order x == .eq) = some y := by
  obtain ⟨bound,found⟩ := entryOf (Array.mem_of_getElem? row)
  obtain ⟨code,read,place⟩ := codeAt row few
  refine ⟨_,?_,found⟩
  simp [get,read,bind,Except.bind,entry,place,bound]

theorem getAlike {i : Nat} {x : t.Elem} (row : elems[i]? = some x)
    (few : (ofElems elems).entries.size < UInt32.size) :
    ∃ y, (ofElems elems).get i = .ok y ∧ y.order x = .eq := by
  obtain ⟨y,read,found⟩ := getAt row few
  exact ⟨y,read,by simpa using List.find?_some found⟩

theorem entryDecoded {entry : t.Elem} (member : entry ∈ (ofElems elems).entries)
    (few : (ofElems elems).entries.size < UInt32.size) :
    ∃ i, i < elems.size ∧ (ofElems elems).get i = .ok entry := by
  obtain ⟨i,bound,row⟩ := Array.getElem_of_mem (entriesMember elems member)
  obtain ⟨k,place,at_⟩ := Array.getElem_of_mem member
  have found := countBelowAt (entriesAscending elems) place (by rw [at_]; exact DataType.Elem.orderSelf entry)
  obtain ⟨code,read,position⟩ := codeAt (Array.getElem?_eq_some_iff.mpr ⟨bound,row⟩) few
  refine ⟨i,bound,?_⟩
  simp [get,read,bind,Except.bind,Dictionary.entry,position,found,place,at_]

end OfElems
end Dictionary
end ColumnStore
