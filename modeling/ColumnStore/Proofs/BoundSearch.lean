import ColumnStore.Proofs.ScanOutcome
/-! The bounds of a value in a dictionary. They count the entries below it and those up to it, except that a count of all
entries is not a code and is told by one that is never given out. The bounds differ exactly when some row holds the
value searched for; then the lower one is the code of every such row, and no other entry lies between the two. -/
namespace ColumnStore
namespace Dictionary
variable {t : DataType}

def below (d : Dictionary t) (x : t.Elem) : Nat := d.entries.toList.countP fun entry => entry.order x == .lt

def upTo (d : Dictionary t) (x : t.Elem) : Nat := d.entries.toList.countP fun entry => entry.order x != .gt

structure Marks (d : Dictionary t) (count : Nat) (code : UInt32) : Prop where
  among : count < d.entries.size → code.toNat = count
  behind : d.entries.size ≤ count → code = missing

structure Located (d : Dictionary t) (rows : List t.Elem) (x : t.Elem) (lower upper : UInt32) : Prop where
  first : d.Marks (d.below x) lower
  second : d.Marks (d.upTo x) upper
  differ : lower ≠ upper ↔ ∃ y ∈ rows, y.order x = .eq
  code : ∀ i y, rows[i]? = some y → y.order x = .eq → d.codes.get i = .ok lower
  next : ∀ y ∈ rows, y.order x = .eq → ∃ greatest, d.entries.back? = some greatest ∧
    (greatest.order x = .eq → upper = missing) ∧ (greatest.order x ≠ .eq → upper.toNat = lower.toNat+1)

structure Searched (d : Dictionary t) (rows : List t.Elem) : Prop where
  refused : ∀ v e, v.cast t = .error e →
    d.lowerBoundOf v = .error e ∧ d.upperBoundOf v = .error e ∧ e.kind = .typeMismatch
  found : ∀ v x, v.cast t = .ok x → ∃ lower upper, d.lowerBoundOf v = .ok lower ∧ d.upperBoundOf v = .ok upper ∧
    d.Located rows x lower upper

theorem countBelowCounts {d : Dictionary t} (ascending : Ascending d.entries) (x : t.Elem) :
    countBelow d.entries x = d.below x := by
  refine (countInFront (countBelowInside d.entries x) ?_).symm
  intro i bound
  rw [beq_iff_eq]
  exact countBelowSplits ascending bound x

theorem countUpToCounts {d : Dictionary t} (ascending : Ascending d.entries) (x : t.Elem) :
    countUpTo d.entries x = d.upTo x := by
  refine (countInFront (countUpToInside d.entries x) ?_).symm
  intro i bound
  rw [bne_iff_ne]
  exact countUpToSplits ascending bound x

theorem boundMarks {d : Dictionary t} (few : d.entries.size < UInt32.size) {count : Nat} (inside : count ≤ d.entries.size) :
    d.Marks count (d.bound count) := by
  constructor
  case among =>
    intro before
    rw [bound,if_neg (by omega),UInt32.toNat_ofNat_of_lt' (by omega)]
  case behind =>
    intro all
    rw [bound,if_pos (by omega)]

/- Different counts have different bounds, since no dictionary has an entry for the code that marks a missing one. -/
theorem marksDiffer {d : Dictionary t} (few : d.entries.size < UInt32.size) {count more : Nat} {lower upper : UInt32}
    (first : d.Marks count lower) (second : d.Marks more upper) (inside : count < d.entries.size) (before : count < more) :
    lower ≠ upper := by
  intro same
  have place := first.among inside
  by_cases within : more < d.entries.size
  · have further := second.among within
    rw [← same] at further
    omega
  · have top : missing.toNat = UInt32.size-1 := rfl
    rw [same,second.behind (by omega),top] at place
    omega

section OfElems
variable {elems : Array t.Elem} {x y : t.Elem}

theorem entryEqual (member : y ∈ elems) (equal : y.order x = .eq) :
    ∃ bound : countBelow (ofElems elems).entries x < (ofElems elems).entries.size,
      (ofElems elems).entries[countBelow (ofElems elems).entries x].order x = .eq ∧
      countBelow (ofElems elems).entries y = countBelow (ofElems elems).entries x := by
  obtain ⟨bound,found⟩ := entryOf member
  have own : (ofElems elems).entries[countBelow (ofElems elems).entries y].order y = .eq := by
    simpa using List.find?_some found
  have entry := Std.TransCmp.eq_trans own equal
  have same := countBelowAt (entriesAscending elems) bound entry
  simp only [same]
  exact ⟨bound,entry,trivial⟩

variable (few : (ofElems elems).entries.size < UInt32.size)
include few

theorem located (x : t.Elem) :
    (ofElems elems).Located elems.toList x ((ofElems elems).lowerBound x) ((ofElems elems).upperBound x) := by
  have ascending := entriesAscending elems
  have lower := boundMarks few (countBelowInside (ofElems elems).entries x)
  have upper := boundMarks few (countUpToInside (ofElems elems).entries x)
  constructor
  case first =>
    rw [← countBelowCounts ascending]
    exact lower
  case second =>
    rw [← countUpToCounts ascending]
    exact upper
  case differ =>
    constructor
    · intro apart
      by_contra absent
      have same := countUpToAbsent (x := x) ascending fun i bound equal =>
        absent ⟨_,Array.mem_toList_iff.mpr (entriesMember elems (Array.getElem_mem bound)),equal⟩
      exact apart (by rw [lowerBound,upperBound,same])
    · intro ⟨y,member,equal⟩
      obtain ⟨bound,entry,_⟩ := entryEqual (Array.mem_toList_iff.mp member) equal
      have above := countUpToAt ascending bound entry
      exact marksDiffer few lower upper bound (by omega)
  case code =>
    intro i y row equal
    rw [Array.getElem?_toList] at row
    obtain ⟨bound,_,same⟩ := entryEqual (Array.mem_of_getElem? row) equal
    obtain ⟨code,read,place⟩ := codeAt row few
    rw [read,Except.ok.injEq,← UInt32.toNat_inj,place,same]
    exact (lower.among bound).symm
  case next =>
    intro y member equal
    obtain ⟨bound,entry,_⟩ := entryEqual (Array.mem_toList_iff.mp member) equal
    have above := countUpToAt ascending bound entry
    have last : (ofElems elems).entries.size-1 < (ofElems elems).entries.size := by omega
    refine ⟨_,by rw [Array.back?_eq_getElem?,Array.getElem?_eq_getElem last],?_,?_⟩
    · intro greatest
      have place := countBelowAt ascending last greatest
      exact upper.behind (by omega)
    · intro smaller
      -- An entry that compares equal and is not the greatest one has an entry behind it.
      have further : countBelow (ofElems elems).entries x+1 < (ofElems elems).entries.size := by
        by_contra none
        have place : countBelow (ofElems elems).entries x = (ofElems elems).entries.size-1 := by omega
        simp only [place] at entry
        exact smaller entry
      have first : ((ofElems elems).lowerBound x).toNat = _ := lower.among bound
      have second : ((ofElems elems).upperBound x).toNat = _ := upper.among (by omega)
      rw [first,second,above]

theorem searched : (ofElems elems).Searched elems.toList := by
  constructor
  case refused =>
    intro v e failed
    simp only [lowerBoundOf,upperBoundOf,failed]
    exact ⟨rfl,rfl,Value.castError failed⟩
  case found =>
    intro v x converts
    simp only [lowerBoundOf,upperBoundOf,converts]
    exact ⟨_,_,rfl,rfl,located few x⟩

end OfElems

theorem boundsSearched :
    (∀ elems : Array t.Elem, DataType.Elem.FewDistinct elems.toList → (ofElems elems).Searched elems.toList) ∧
    ∀ (db : Database) (s : Segment) (d : Dictionary t), db.encode s t = .ok d →
      DataType.Elem.FewDistinct (db.convertedElems s t) → d.Searched (db.convertedElems s t) := by
  constructor
  · exact fun elems few => searched (entriesFew elems few)
  · intro db s d ok few
    rw [Database.encode] at ok
    cases run : db.elems s t with
    | error e => rw [run] at ok; cases ok
    | ok elems =>
      rw [run] at ok
      cases ok
      rw [Database.convertedElemsOk run] at few ⊢
      exact searched (entriesFew elems few)

def zerosAndNaN : Array Double := #[Binary.zero true,Binary.quietNaN false,Binary.zero false,Binary.quietNaN true]

theorem boundsSearchedNaN : DataType.Elem.FewDistinct (t := .double) zerosAndNaN.toList ∧
    (ofElems (t := .double) zerosAndNaN).Searched zerosAndNaN.toList ∧
    (∃ lower upper, (ofElems (t := .double) zerosAndNaN).lowerBoundOf (.int 0) = .ok lower ∧
      (ofElems (t := .double) zerosAndNaN).upperBoundOf (.int 0) = .ok upper ∧ lower ≠ upper ∧
      (ofElems (t := .double) zerosAndNaN).codes.get 0 = .ok lower ∧
      (ofElems (t := .double) zerosAndNaN).codes.get 2 = .ok lower) ∧
    ∃ d, ({} : Database).encode (.plain .double zerosAndNaN) .double = .ok d ∧
      DataType.Elem.FewDistinct (({} : Database).convertedElems (.plain .double zerosAndNaN) .double) ∧
      d.Searched (({} : Database).convertedElems (.plain .double zerosAndNaN) .double) := by
  have few : DataType.Elem.FewDistinct (t := .double) zerosAndNaN.toList := DataType.Elem.fewOfLength (by decide)
  have converted : DataType.Elem.FewDistinct (({} : Database).convertedElems (.plain .double zerosAndNaN) .double) :=
    DataType.Elem.fewOfLength (by decide)
  obtain ⟨built,encoded⟩ := boundsSearched (t := .double)
  have searched := built zerosAndNaN few
  have first : (DataType.Elem.order (t := .double) (Binary.zero true) (Binary.zero false)) = .eq := by decide +kernel
  obtain ⟨lower,upper,below,above,located⟩ := searched.found (.int 0) (Binary.zero false) (by decide +kernel)
  exact ⟨few,searched,⟨lower,upper,below,above,located.differ.mpr ⟨_,List.mem_cons_self,first⟩,
    located.code 0 _ rfl first,located.code 2 _ rfl (by decide +kernel)⟩,_,rfl,converted,encoded {} _ _ rfl converted⟩

end Dictionary
end ColumnStore
