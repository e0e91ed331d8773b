import ColumnStore.Compression
import ColumnStore.Proofs.Encoding
import ColumnStore.Proofs.Sequence
/-! Encoding a segment and decoding it again. Encoding fails exactly when some row cannot be read or converted,
and then as the first such row does; otherwise every row decodes to an element that compares equal to the
converted one, the same one unless it is a zero. -/
namespace ColumnStore
namespace Database

def converted (db : Database) (s : Segment) (t : DataType) (offset : Nat) : Except Error t.Elem := do
  (← db.read s offset).cast t

def convertedElems (db : Database) (s : Segment) (t : DataType) : List t.Elem :=
  (List.range s.length).filterMap fun offset => (db.converted s t offset).toOption

structure RoundTrip (db : Database) (s : Segment) (t : DataType) (d : Dictionary t) : Prop where
  length : d.length = s.length
  ascending : Dictionary.Ascending d.entries
  used : ∀ entry ∈ d.entries, ∃ i, i < s.length ∧ d.get i = .ok entry
  width : d.codes.width = CodeWidth.forEntries d.entries.size
  codes : ∀ i, i < s.length → ∃ x code, db.converted s t i = .ok x ∧ d.codes.get i = .ok code ∧
    code.toNat = Dictionary.countBelow d.entries x ∧ code.toNat < d.entries.size ∧
    code.toNat ≠ d.codes.width.codes-1
  decoded : ∀ i, i < s.length → ∃ x y, db.converted s t i = .ok x ∧ d.get i = .ok y ∧
    y.order x = .eq ∧ (x.isZero = false → y = x)
  zeros : ∀ i x y, i < s.length → db.converted s t i = .ok x → x.isZero = true → d.get i = .ok y →
    ∃ j, j < s.length ∧ db.converted s t j = .ok y ∧ y.isZero = true ∧
      ∀ k z, k < j → db.converted s t k = .ok z → z.isZero = false

variable {db : Database} {s : Segment} {t : DataType}

theorem elemsError {e : Error} :
    db.elems s t = .error e ↔ ∃ i, i < s.length ∧ db.converted s t i = .error e ∧
      ∀ j, j < i → ∃ y, db.converted s t j = .ok y := by
  have step : (db.elems s t = .error e) ↔ (List.range s.length).mapM (db.converted s t) = .error e := by
    show (((List.range s.length).mapM (db.converted s t)).map List.toArray = .error e) ↔ _
    cases (List.range s.length).mapM (db.converted s t) <;> simp [Except.map]
  rw [step,mapMError]
  simp only [List.length_range,List.getElem_range,exists_prop]

theorem elemsConverted {elems : Array t.Elem} (ok : db.elems s t = .ok elems) :
    (List.range s.length).map (db.converted s t) = elems.toList.map .ok := by
  refine mapMOk.mp ?_
  change ((List.range s.length).mapM (db.converted s t)).map List.toArray = .ok elems at ok
  cases run : (List.range s.length).mapM (db.converted s t) with
  | error e => rw [run] at ok; cases ok
  | ok xs => rw [run] at ok; cases ok; rfl

theorem elemsOk {elems : Array t.Elem} (ok : db.elems s t = .ok elems) :
    elems.size = s.length ∧ ∀ i, i < s.length → ∃ x, elems[i]? = some x ∧ db.converted s t i = .ok x := by
  have rows := elemsConverted ok
  have size : elems.size = s.length := by simpa using (congrArg List.length rows).symm
  refine ⟨size,?_⟩
  intro i bound
  have row := congrArg (fun xs => xs[i]?) rows
  have inside : i < elems.size := by omega
  simp only [List.getElem?_map,List.getElem?_range bound,Option.map_some,Array.getElem?_toList,
    Array.getElem?_eq_getElem inside,Option.some.injEq] at row
  exact ⟨elems[i],Array.getElem?_eq_getElem inside,row⟩

theorem encodeOk {d : Dictionary t} : db.encode s t = .ok d ↔ ∃ elems, db.elems s t = .ok elems ∧ d = .ofElems elems := by
  rw [encode]
  cases db.elems s t <;> simp [Except.map,eq_comm]

theorem convertedElemsOk {elems : Array t.Elem} (ok : db.elems s t = .ok elems) :
    db.convertedElems s t = elems.toList := by
  have whole : db.convertedElems s t = ((List.range s.length).map (db.converted s t)).filterMap Except.toOption := by
    rw [List.filterMap_map]
    rfl
  have each : Except.toOption ∘ (Except.ok : t.Elem → Except Error t.Elem) = some := rfl
  rw [whole,elemsConverted ok,List.filterMap_map,each,List.filterMap_some]

theorem ofElemsRoundTrip {elems : Array t.Elem} (ok : db.elems s t = .ok elems)
    (few : (Dictionary.ofElems elems).entries.size < UInt32.size) :
    RoundTrip db s t (Dictionary.ofElems elems) := by
  obtain ⟨size,rows⟩ := elemsOk ok
  constructor
  case length => rw [Dictionary.lengthOfElems,size]
  case ascending => exact Dictionary.entriesAscending elems
  case used =>
    intro entry member
    simpa only [size] using Dictionary.entryDecoded member few
  case width => rfl
  case codes =>
    intro i bound
    obtain ⟨x,row,value⟩ := rows i bound
    obtain ⟨code,read,place⟩ := Dictionary.codeAt row few
    obtain ⟨below,_⟩ := Dictionary.entryOf (Array.mem_of_getElem? row)
    have wide := codesLeftOver few
    refine ⟨x,code,value,read,place,by omega,?_⟩
    show code.toNat ≠ (CodeWidth.forEntries (Dictionary.ofElems elems).entries.size).codes-1
    omega
  case decoded =>
    intro i bound
    obtain ⟨x,row,value⟩ := rows i bound
    obtain ⟨y,read,equal⟩ := Dictionary.getAlike row few
    refine ⟨x,y,value,read,equal,?_⟩
    intro nonzero
    exact (DataType.Elem.equalUnlessZero (Std.OrientedCmp.eq_symm equal) nonzero).symm
  case zeros =>
    intro i x y bound value zero read
    obtain ⟨x',row,value'⟩ := rows i bound
    cases Except.ok.inj (value.symm.trans value')
    obtain ⟨y',read',found⟩ := Dictionary.getAt row few
    cases Except.ok.inj (read.symm.trans read')
    obtain ⟨equal,j,inside,at_,before⟩ := List.find?_eq_some_iff_getElem.mp found
    have among : j < s.length := by simpa [size] using inside
    obtain ⟨z,rowAt,valueAt⟩ := rows j among
    have same : z = y := by
      rw [← Array.getElem?_toList,List.getElem?_eq_getElem inside,at_,Option.some.injEq] at rowAt
      exact rowAt.symm
    subst same
    refine ⟨j,among,valueAt,(DataType.Elem.isZeroOfEqual (by simpa using equal)).trans zero,?_⟩
    intro k w earlier valueK
    obtain ⟨w',rowK,valueK'⟩ := rows k (by omega)
    cases Except.ok.inj (valueK.symm.trans valueK')
    have differs := before k earlier
    rw [← Array.getElem?_toList,List.getElem?_eq_getElem (by omega),Option.some.injEq] at rowK
    rw [rowK] at differs
    -- All zeros of a type compare equal, so an earlier one would have matched first.
    by_contra isZero
    have equalK : w.order x = .eq := DataType.Elem.orderEqual.mpr (.inr ⟨by simpa using isZero,zero⟩)
    simp [equalK] at differs

theorem encodeDecodes (db : Database) (s : Segment) (t : DataType)
    (few : DataType.Elem.FewDistinct (db.convertedElems s t)) :
    (∀ e, db.encode s t = .error e ↔ ∃ i, i < s.length ∧ db.converted s t i = .error e ∧
      ∀ j, j < i → ∃ y, db.converted s t j = .ok y) ∧
    ∀ d, db.encode s t = .ok d → RoundTrip db s t d := by
  constructor
  · intro e
    rw [← elemsError,encode]
    cases db.elems s t <;> simp [Except.map]
  · intro d ok
    rw [encode] at ok
    cases run : db.elems s t with
    | error e => rw [run] at ok; cases ok
    | ok elems =>
      rw [run] at ok
      cases ok
      rw [convertedElemsOk run] at few
      exact ofElemsRoundTrip run (Dictionary.entriesFew elems few)

def signedZeros : Segment := .plain .double #[Binary.zero true,Binary.quietNaN true,Binary.zero false]

theorem encodeDecodesSignedZeros : DataType.Elem.FewDistinct (({} : Database).convertedElems signedZeros .double) ∧
    ∃ d, ({} : Database).encode signedZeros .double = .ok d ∧ RoundTrip {} signedZeros .double d := by
  have few : DataType.Elem.FewDistinct (({} : Database).convertedElems signedZeros .double) :=
    DataType.Elem.fewOfLength (by decide)
  exact ⟨few,_,rfl,(encodeDecodes {} signedZeros .double few).2 _ rfl⟩

end Database
end ColumnStore
