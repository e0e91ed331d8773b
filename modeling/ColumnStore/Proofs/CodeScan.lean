import ColumnStore.Scan
import ColumnStore.Proofs.Encoding
/-! Scanning a dictionary by its codes selects the rows that comparing the elements one by one would select. The
two bounds of the element searched for are at most one apart, and their place among the codes decides every
comparator, except where no entry compares equal; those cases are exactly the ones that are skipped. -/
namespace ColumnStore

theorem rowsWhereFilter {α : Type} {chunk : Nat} {xs : Array α} {test : α → Bool} (passes : Nat → Bool)
    (agree : ∀ i x, xs[i]? = some x → passes i = test x) :
    rowsWhere chunk xs test = (((List.range xs.size).filter passes).map fun offset =>
      (⟨UInt32.ofNat chunk,UInt32.ofNat offset⟩ : RowId)).toArray := by
  apply Array.toList_inj.mp
  rw [rowsWhere,Array.toList_filterMap,Array.toList_zipIdx]
  have indices : List.range xs.size = xs.toList.zipIdx.map Prod.snd := by
    rw [List.zipIdx_map_snd,List.range_eq_range',Array.length_toList]
  rw [indices,List.filter_map,List.map_map]
  have tested : xs.toList.zipIdx.filter (passes ∘ Prod.snd) = xs.toList.zipIdx.filter fun pair => test pair.1 := by
    apply List.filter_congr
    intro pair mem
    exact agree pair.2 pair.1 (by simpa using List.mem_zipIdx_iff_getElem?.mp mem)
  rw [tested,← List.filterMap_eq_filter,List.map_filterMap]
  apply List.filterMap_congr
  intro pair _
  by_cases pass : test pair.1 = true <;> simp [pass,Option.guard]

namespace Comparator

structure Bounds (code lower upper entries : UInt32) (o : Ordering) : Prop where
  below : o = .lt ↔ code.toNat < lower.toNat
  upTo : o ≠ .gt ↔ code.toNat < upper.toNat
  ordered : lower.toNat ≤ upper.toNat
  close : upper.toNat ≤ lower.toNat+1
  inside : code.toNat < entries.toNat

variable {code lower upper entries : UInt32} {o : Ordering}

theorem excludedFails {c : Comparator} (bounds : Bounds code lower upper entries o)
    (excluded : c.excludesAll lower upper entries = true) : c.holds o = false := by
  obtain ⟨below,upTo,ordered,close,inside⟩ := bounds
  cases c <;> cases o <;>
    simp [excludesAll,holds,← UInt32.toNat_inj] at excluded below upTo ⊢ <;> omega

theorem codeDecides {c : Comparator} (bounds : Bounds code lower upper entries o)
    (included : c.excludesAll lower upper entries = false) :
    c.holdsCode code lower upper = c.holds o := by
  obtain ⟨below,upTo,ordered,close,inside⟩ := bounds
  rw [Bool.eq_iff_iff]
  cases c <;> cases o <;>
    simp [excludesAll,holds,holdsCode,← UInt32.toNat_inj,UInt32.lt_iff_toNat_lt,UInt32.le_iff_toNat_le]
      at included below upTo ⊢ <;> omega

end Comparator

namespace Dictionary
variable {t : DataType}

theorem countsOrdered {entries : Array t.Elem} (ascending : Ascending entries) (x : t.Elem) :
    countBelow entries x ≤ countUpTo entries x ∧ countUpTo entries x ≤ countBelow entries x+1 := by
  by_cases present : ∃ i, ∃ bound : i < entries.size, entries[i].order x = .eq
  · obtain ⟨i,bound,equal⟩ := present
    rw [countBelowAt ascending bound equal,countUpToAt ascending bound equal]
    omega
  · rw [countUpToAbsent ascending fun i bound equal => present ⟨i,bound,equal⟩]
    omega

def closed (d : Dictionary t) (place : Nat) : UInt32 :=
  if d.bound place = missing then UInt32.ofNat d.entries.size else d.bound place

theorem closedPlace {d : Dictionary t} {place : Nat} (few : d.entries.size < UInt32.size)
    (inside : place ≤ d.entries.size) : (d.closed place).toNat = place := by
  unfold closed
  by_cases last : place = d.entries.size
  · simp [bound,last,UInt32.toNat_ofNat_of_lt' few]
  · have small : place < UInt32.size := by omega
    have given : d.bound place = UInt32.ofNat place := if_neg last
    have present : UInt32.ofNat place ≠ missing := by
      intro same
      have whole := congrArg UInt32.toNat same
      rw [UInt32.toNat_ofNat_of_lt' small] at whole
      have top : missing.toNat = UInt32.size-1 := rfl
      omega
    rw [given,if_neg present,UInt32.toNat_ofNat_of_lt' small]

theorem scanClosed (d : Dictionary t) (chunk : Nat) (c : Comparator) (x : t.Elem) :
    d.scan chunk c x =
      if c.excludesAll (d.closed (countBelow d.entries x)) (d.closed (countUpTo d.entries x))
        (UInt32.ofNat d.entries.size) then #[]
      else rowsWhere chunk d.codes.codes fun code =>
        c.holdsCode code (d.closed (countBelow d.entries x)) (d.closed (countUpTo d.entries x)) := rfl

variable {elems : Array t.Elem} (few : (ofElems elems).entries.size < UInt32.size)
include few

theorem codeBounds {i : Nat} {y : t.Elem} (row : elems[i]? = some y) (x : t.Elem) :
    ∃ code, (ofElems elems).codes.codes[i]? = some code ∧
      Comparator.Bounds code ((ofElems elems).closed (countBelow (ofElems elems).entries x))
        ((ofElems elems).closed (countUpTo (ofElems elems).entries x))
        (UInt32.ofNat (ofElems elems).entries.size) (y.order x) := by
  have ascending := entriesAscending elems
  obtain ⟨code,read,place⟩ := codeAt row few
  obtain ⟨below,found⟩ := entryOf (Array.mem_of_getElem? row)
  have equal : (ofElems elems).entries[countBelow (ofElems elems).entries y].order y = .eq := by
    simpa using List.find?_some found
  have same := Std.TransCmp.congr_left (c := x) equal
  have lower := closedPlace few (countBelowInside _ x)
  have upper := closedPlace few (countUpToInside _ x)
  have counts := countsOrdered ascending x
  have stored : (ofElems elems).codes.codes[i]? = some code := by
    rw [CodeVector.get] at read
    split at read <;> cases read
    assumption
  refine ⟨code,stored,?_⟩
  rw [← same]
  constructor
  · rw [countBelowSplits ascending below,place,lower]
  · rw [countUpToSplits ascending below,place,upper]
  · omega
  · omega
  · rw [UInt32.toNat_ofNat_of_lt' few,place]
    exact below

theorem scanOfElems (chunk : Nat) (c : Comparator) (x : t.Elem) :
    (ofElems elems).scan chunk c x = rowsWhere chunk elems fun y => c.holds (y.order x) := by
  rw [scanClosed]
  split
  · rename_i excluded
    rw [rowsWhereFilter fun _ => false]
    · simp
    · intro i y row
      obtain ⟨code,_,bounds⟩ := codeBounds few row x
      exact (Comparator.excludedFails bounds excluded).symm
  · rename_i included
    let passes (i : Nat) : Bool := elems[i]?.any fun y => c.holds (y.order x)
    have byElement : ∀ i y, elems[i]? = some y → passes i = c.holds (y.order x) := by
      intro i y row
      simp [passes,row]
    have byCode : ∀ i code, (ofElems elems).codes.codes[i]? = some code → passes i =
        c.holdsCode code ((ofElems elems).closed (countBelow (ofElems elems).entries x))
          ((ofElems elems).closed (countUpTo (ofElems elems).entries x)) := by
      intro i code stored
      have inside : i < elems.size := by
        obtain ⟨bound,_⟩ := Array.getElem?_eq_some_iff.mp stored
        simpa [ofElems,CodeVector.ofCodes] using bound
      obtain ⟨code',stored',bounds⟩ := codeBounds few (Array.getElem?_eq_getElem inside) x
      cases Option.some.inj (stored.symm.trans stored')
      rw [Comparator.codeDecides bounds (by simpa using included)]
      exact byElement i elems[i] (Array.getElem?_eq_getElem inside)
    rw [rowsWhereFilter passes byElement,rowsWhereFilter passes byCode]
    simp [ofElems,CodeVector.ofCodes]

end Dictionary
end ColumnStore
