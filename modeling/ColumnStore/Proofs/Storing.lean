import ColumnStore.Proofs.Encoding
/-! Vectors of codes as arrays. Whatever codes have been put in before, the one at an index is the last that was put
there, cut to the width, or zero while there was none; an index past the end is refused and changes nothing. The width
is the least that has a number left over for the size of the dictionary, so a code of an entry is kept whole. -/
namespace ColumnStore

/- The least of the widths whose greatest number is no less than the size; beyond all of them it is the greatest. -/
def LeastBytes (entries bytes : Nat) : Prop :=
  bytes ∈ [1,2,4] ∧ (entries ≤ 2^(8*bytes)-1 ∨ bytes = 4) ∧ ∀ other ∈ [1,2,4], entries ≤ 2^(8*other)-1 → bytes ≤ other

namespace CodeWidth

theorem codesOfBytes (width : CodeWidth) : width.codes = 2^(8*width.bytes) := by
  cases width <;> rfl

theorem cutModulo (width : CodeWidth) (code : UInt32) : (width.cut code).toNat = code.toNat%2^(8*width.bytes) := by
  have small : code.toNat%width.codes < UInt32.size := Nat.lt_of_le_of_lt (Nat.mod_le _ _) code.toNat_lt
  rw [cut,UInt32.toNat_ofNat_of_lt' small,codesOfBytes]

theorem forEntriesLeast (entries : Nat) : LeastBytes entries (forEntries entries).bytes := by
  have one : codes .one = 256 := rfl
  have two : codes .two = 65536 := rfl
  unfold forEntries
  split
  · refine ⟨by decide,.inl (by simp only [bytes]; omega),?_⟩
    intro other mem _
    fin_cases mem <;> decide
  · split
    · refine ⟨by decide,.inl (by simp only [bytes]; omega),?_⟩
      intro other mem fits
      fin_cases mem
      · simp only [Nat.reduceMul,Nat.reducePow] at fits
        omega
      · decide
      · decide
    · refine ⟨by decide,.inr rfl,?_⟩
      intro other mem fits
      fin_cases mem
      · simp only [Nat.reduceMul,Nat.reducePow] at fits
        omega
      · simp only [Nat.reduceMul,Nat.reducePow] at fits
        omega
      · decide

theorem cutWhole {entries : Nat} {code : UInt32} (entry : code.toNat < entries) :
    (forEntries entries).cut code = code := by
  have fits : code.toNat < 2^(8*(forEntries entries).bytes) := by
    obtain ⟨_,reach | four,_⟩ := forEntriesLeast entries
    · omega
    · rw [four]
      exact code.toNat_lt
  exact UInt32.toNat_inj.mp ((cutModulo _ code).trans (Nat.mod_eq_of_lt fits))

end CodeWidth

namespace CodeVector

structure Put where
  index : Nat
  code : UInt32

def store (v : CodeVector) (put : Put) : Except Error Unit × CodeVector :=
  match v.set put.index put.code with
  | .ok after => (.ok (),after)
  | .error e => (.error e,v)

def storeAll (v : CodeVector) (puts : List Put) : CodeVector := puts.foldl (fun v put => (v.store put).2) v

def LastPut (puts : List Put) (index : Nat) (code : UInt32) : Prop :=
  ∃ before after, puts = before ++ ⟨index,code⟩ :: after ∧ ∀ put ∈ after, put.index ≠ index

variable {v : CodeVector} {put : Put} {puts : List Put} {index : Nat} {code : UInt32}

theorem storeRefused (outside : v.length ≤ put.index) :
    v.store put = (.error (.outOfRange .codeVector put.index v.length),v) := by
  have bound : ¬ put.index < v.codes.size := Nat.not_lt.mpr outside
  simp only [store,set,dif_neg bound]

theorem storeTaken (inside : put.index < v.length) :
    ∃ after, v.set put.index put.code = .ok after ∧ v.store put = (.ok (),after) := by
  have bound : put.index < v.codes.size := inside
  simp only [store,set,dif_pos bound]
  exact ⟨_,rfl,rfl⟩

section Step

theorem storeFails {e : Error} : (v.store put).1 = .error e ↔
    v.length ≤ put.index ∧ e = .outOfRange .codeVector put.index v.length := by
  by_cases outside : v.length ≤ put.index
  · simp [storeRefused outside,outside,eq_comm]
  · obtain ⟨after,_,stored⟩ := storeTaken (Nat.not_le.mp outside)
    simp [stored,outside]

theorem storeLength (v : CodeVector) (put : Put) : (v.store put).2.length = v.length := by
  unfold store set
  split
  · rename_i after ok
    split at ok <;> cases ok
    simp [length]
  · rfl

theorem storeWidth (v : CodeVector) (put : Put) : (v.store put).2.width = v.width := by
  unfold store set
  split
  · rename_i after ok
    split at ok <;> cases ok
    rfl
  · rfl

theorem getStored (inside : put.index < v.length) : (v.store put).2.get put.index = .ok (v.width.cut put.code) := by
  obtain ⟨after,ok,stored⟩ := storeTaken inside
  rw [stored]
  exact getSet ok

theorem getElsewhere (apart : put.index ≠ index) : (v.store put).2.get index = v.get index := by
  unfold store
  split
  · rename_i after ok
    exact getSetOther ok (Ne.symm apart)
  · rfl

end Step

section Run

theorem storeAllLength (v : CodeVector) (puts : List Put) : (v.storeAll puts).length = v.length := by
  induction puts generalizing v with
  | nil => rfl
  | cons put rest ih => exact (ih (v.store put).2).trans (storeLength v put)

theorem storeAllWidth (v : CodeVector) (puts : List Put) : (v.storeAll puts).width = v.width := by
  induction puts generalizing v with
  | nil => rfl
  | cons put rest ih => exact (ih (v.store put).2).trans (storeWidth v put)

theorem getUntouched (apart : ∀ put ∈ puts, put.index ≠ index) : (v.storeAll puts).get index = v.get index := by
  induction puts generalizing v with
  | nil => rfl
  | cons put rest ih =>
    have later := ih (v := (v.store put).2) fun other mem => apart other (List.mem_cons_of_mem put mem)
    exact later.trans (getElsewhere (apart put List.mem_cons_self))

/- What comes before the last code does not matter, for it is overwritten, and what comes after goes elsewhere. -/
theorem getLast (inside : index < v.length) (last : LastPut puts index code) :
    (v.storeAll puts).get index = .ok (v.width.cut code) := by
  obtain ⟨before,after,rfl,apart⟩ := last
  have split : v.storeAll (before ++ ⟨index,code⟩ :: after) =
      (((v.storeAll before).store ⟨index,code⟩).2).storeAll after := by
    rw [storeAll,List.foldl_append,List.foldl_cons]
    rfl
  have still : (⟨index,code⟩ : Put).index < (v.storeAll before).length := by
    rw [storeAllLength]
    exact inside
  rw [split,getUntouched apart,getStored still,storeAllWidth]

end Run

theorem getOutside (outside : v.length ≤ index) : v.get index = .error (.outOfRange .codeVector index v.length) := by
  have none : v.codes[index]? = none := Array.getElem?_eq_none outside
  rw [get,none]

theorem getZeros {entries length : Nat} (inside : index < length) : (zeros entries length).get index = .ok 0 := by
  have zero : (zeros entries length).codes[index]? = some 0 := by
    simp only [zeros,Array.getElem?_replicate,if_pos inside]
  rw [get,zero]

def rowByRow (codes : List UInt32) : List Put := codes.zipIdx.map fun pair => ⟨pair.2,pair.1⟩

theorem rowByRowLast {codes : List UInt32} (found : codes[index]? = some code) : LastPut (rowByRow codes) index code := by
  obtain ⟨bound,same⟩ := List.getElem?_eq_some_iff.mp found
  have split : codes = codes.take index ++ code :: codes.drop (index+1) := by
    rw [← same,← List.drop_eq_getElem_cons bound,List.take_append_drop]
  have front : (codes.take index).length = index := List.length_take_of_le (Nat.le_of_lt bound)
  refine ⟨rowByRow (codes.take index),((codes.drop (index+1)).zipIdx (index+1)).map fun pair => ⟨pair.2,pair.1⟩,?_,?_⟩
  · conv_lhs => rw [split]
    rw [rowByRow,List.zipIdx_append,List.map_append,front,Nat.zero_add]
    rfl
  · intro put mem
    obtain ⟨pair,among,rfl⟩ := List.mem_map.mp mem
    exact Nat.ne_of_gt (List.le_snd_of_mem_zipIdx among)

theorem codesStored (entries : Nat) (codes : Array UInt32) :
    ofCodes entries codes = (zeros entries codes.size).storeAll (rowByRow codes.toList) := by
  have width := storeAllWidth (zeros entries codes.size) (rowByRow codes.toList)
  have length := storeAllLength (zeros entries codes.size) (rowByRow codes.toList)
  have last : ∀ (i : Nat) (here : i < codes.size),
      ((zeros entries codes.size).storeAll (rowByRow codes.toList)).get i = .ok ((CodeWidth.forEntries entries).cut codes[i]) :=
    fun i here => getLast (by rwa [zerosLength]) (rowByRowLast (by simp [here]))
  rw [zerosLength] at length
  generalize (zeros entries codes.size).storeAll (rowByRow codes.toList) = v at width length last
  obtain ⟨own,stored⟩ := v
  cases width
  refine congrArg (CodeVector.mk _) (Array.ext (by rw [Array.size_map]; exact length.symm) ?_)
  intro i here there
  have inside : i < codes.size := by rwa [Array.size_map] at here
  have same := last i inside
  simp only [get,Array.getElem?_eq_getElem there,Except.ok.injEq] at same
  rw [same,Array.getElem_map]

theorem codesListed (v : CodeVector) : v.codes.toList.map Except.ok = (List.range v.length).map v.get := by
  apply List.ext_getElem
  · simp [length]
  · intro i bound _
    have inside : i < v.codes.size := by simpa using bound
    simp [get,inside]

structure ArrayOf (entries length : Nat) (puts : List Put) (v : CodeVector) : Prop where
  size : v.length = length
  width : LeastBytes entries v.width.bytes
  refused : ∀ put, (∃ e, (v.store put).1 = .error e) ↔ length ≤ put.index
  unchanged : ∀ put e, (v.store put).1 = .error e →
    e = .outOfRange .codeVector put.index length ∧ e.kind = .outOfRange ∧ (v.store put).2 = v
  last : ∀ index code, index < length → LastPut puts index code →
    ∃ kept, v.get index = .ok kept ∧ kept.toNat = code.toNat%2^(8*v.width.bytes)
  whole : ∀ index code, index < length → LastPut puts index code → code.toNat < entries → v.get index = .ok code
  zero : ∀ index, index < length → (∀ put ∈ puts, put.index ≠ index) → v.get index = .ok 0
  outside : ∀ index, length ≤ index → v.get index = .error (.outOfRange .codeVector index length)
  listed : v.codes.toList.map Except.ok = (List.range length).map v.get

theorem storesLastPut (entries length : Nat) (puts : List Put) :
    ArrayOf entries length puts ((zeros entries length).storeAll puts) := by
  have size : ((zeros entries length).storeAll puts).length = length :=
    (storeAllLength _ puts).trans (zerosLength entries length)
  have width : ((zeros entries length).storeAll puts).width = .forEntries entries := storeAllWidth _ puts
  have inside : ∀ {index}, index < length → index < (zeros entries length).length := by
    intro index below
    rwa [zerosLength]
  constructor
  case size => exact size
  case width =>
    rw [width]
    exact CodeWidth.forEntriesLeast entries
  case refused =>
    intro put
    simp only [storeFails,size,exists_and_left,exists_eq,and_true]
  case unchanged =>
    intro put e failed
    obtain ⟨outside,rfl⟩ := storeFails.mp failed
    rw [storeRefused outside,size]
    exact ⟨rfl,rfl,rfl⟩
  case last =>
    intro index code below last
    refine ⟨_,getLast (inside below) last,?_⟩
    rw [width]
    exact CodeWidth.cutModulo _ code
  case whole =>
    intro index code below last entry
    rw [getLast (inside below) last]
    exact congrArg Except.ok (CodeWidth.cutWhole entry)
  case zero =>
    intro index below apart
    rw [getUntouched apart,getZeros below]
  case outside =>
    intro index beyond
    rw [getOutside (by omega),size]
  case listed =>
    rw [codesListed,size]

example : ((zeros 255 2).storeAll [⟨0,300⟩,⟨1,7⟩,⟨2,9⟩,⟨1,254⟩]).codes = #[44,254] := by decide

end CodeVector

theorem Dictionary.rowsStored {t : DataType} (elems : Array t.Elem) : (ofElems elems).codes =
    (CodeVector.zeros (ofElems elems).entries.size elems.size).storeAll
      (CodeVector.rowByRow (elems.toList.map fun x => UInt32.ofNat (countBelow (ofElems elems).entries x))) := by
  have stored := CodeVector.codesStored (ofElems elems).entries.size
    (elems.map fun x => UInt32.ofNat (countBelow (ofElems elems).entries x))
  rwa [Array.size_map,Array.toList_map] at stored

end ColumnStore
