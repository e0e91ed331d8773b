import ColumnStore.Proofs.CodeScan
import ColumnStore.Proofs.Operation
import ColumnStore.Proofs.Selection
/-! Scanning a table of stored segments. Plain and encoded segments may change from chunk to chunk: each gives the
rows whose stored value is admitted, so the whole scan is the selection of those rows among all addresses. -/
namespace ColumnStore

namespace Segment

theorem encodedStored {t : DataType} {elems : Array t.Elem} (few : elems.size < UInt32.size) {i : Nat} {x : t.Elem}
    (row : elems[i]? = some x) :
    ∃ y, (encoded t (.ofElems elems)).stored i = .ok ⟨t,y⟩ ∧ y.order x = .eq := by
  obtain ⟨y,read,equal⟩ := Dictionary.getAlike row (Nat.lt_of_le_of_lt (Dictionary.entriesSize elems) few)
  exact ⟨y,by rw [stored,read]; rfl,equal⟩

theorem storedTyped {s : Segment} (sound : s.Sound) (plain : s.isReference = false) (few : s.length < UInt32.size)
    {t : DataType} (typed : s.type = t) {i : Nat} (inside : i < s.length) : ∃ y, s.stored i = .ok ⟨t,y⟩ := by
  cases s with
  | plain own elems =>
    obtain rfl : own = t := typed
    have row : elems[i]? = some elems[i] := Array.getElem?_eq_getElem inside
    exact ⟨elems[i],by simp only [stored,row]⟩
  | encoded own column =>
    obtain ⟨elems,rfl⟩ := sound
    obtain rfl : own = t := typed
    simp only [length,Dictionary.lengthOfElems] at few inside
    obtain ⟨y,read,_⟩ := encodedStored few (Array.getElem?_eq_getElem inside)
    exact ⟨y,read⟩
  | reference => cases plain

theorem storedInside {s : Segment} {i : Nat} {v : Value} (ok : s.stored i = .ok v) : i < s.length := by
  cases s with
  | plain own elems =>
    simp only [stored] at ok
    split at ok
    · rename_i found
      exact (Array.getElem?_eq_some_iff.mp found).1
    · cases ok
  | encoded own column =>
    cases read : column.get i with
    | error e => simp [stored,read,Except.map] at ok
    | ok x =>
      obtain ⟨code,at_,_⟩ := bindOk.mp read
      simp only [CodeVector.get] at at_
      split at at_
      · rename_i found
        exact (Array.getElem?_eq_some_iff.mp found).1
      · cases at_
  | reference => cases ok

end Segment

namespace Table
variable {t : Table}

theorem segmentAt (formed : t.WellFormed) {i column : Nat} {chunk : Chunk} {c : Column}
    (place : t.chunks[i]? = some chunk) (found : t.columns[column]? = some c) :
    ∃ s, chunk.segments[column]? = some s ∧ s.type = c.type ∧ s.Sound ∧ s.length = chunk.length := by
  have fits := formed.fits chunk (Array.mem_of_getElem? place)
  obtain ⟨bound,_⟩ := Array.getElem?_eq_some_iff.mp found
  have width := fits.width
  rw [types,Array.size_map] at width
  have at_ : chunk.segments[column]? = some chunk.segments[column] := Array.getElem?_eq_getElem (by omega)
  have among := Array.mem_of_getElem? at_
  have typed := fits.typeAt at_
  rw [types,Array.getElem?_map,found] at typed
  exact ⟨_,at_,(Option.some.inj typed).symm,fits.sound _ among,fits.even _ among⟩

theorem storedColumn (formed : t.WellFormed) (stored : t.Stored) {column : Nat} {c : Column}
    (found : t.columns[column]? = some c) : t.StoredAt column := by
  intro chunk mem
  obtain ⟨i,place⟩ := Array.getElem?_of_mem mem
  obtain ⟨s,at_,_⟩ := segmentAt formed place found
  exact ⟨s,at_,stored chunk mem s (Array.mem_of_getElem? at_)⟩

theorem Base.storedAt (ground : t.Base) {column : Nat} {c : Column} (found : t.columns[column]? = some c) :
    t.StoredAt column := storedColumn ground.formed ground.stored found

theorem storedValue (formed : t.WellFormed) (bounds : t.Addressable) {column : Nat} (stored : t.StoredAt column)
    {row : RowId} (mem : row ∈ t.addresses) {c : Column} (found : t.columns[column]? = some c) :
    ∃ y, t.value row.chunk.toNat column row.offset.toNat = .ok ⟨c.type,y⟩ := by
  obtain ⟨chunk,place,inside⟩ := (addressesMember bounds).mp mem
  obtain ⟨s,at_,typed,sound,even⟩ := segmentAt formed place found
  have among := Array.mem_of_getElem? place
  obtain ⟨s',same,plain⟩ := stored chunk among
  cases Option.some.inj (at_.symm.trans same)
  have few := bounds.rows chunk among
  rw [valueStored place at_]
  exact Segment.storedTyped sound plain (by omega) typed (by omega)

theorem valueTyped (ground : t.Base) {row : RowId}
    (mem : row ∈ t.addresses) {column : Nat} {c : Column} (found : t.columns[column]? = some c) :
    ∃ y, t.value row.chunk.toNat column row.offset.toNat = .ok ⟨c.type,y⟩ :=
  storedValue ground.formed ground.bounds (ground.storedAt found) mem found

theorem valueAddress (ground : t.Base) {row : RowId} {column : Nat} {v : Value}
    (ok : t.value row.chunk.toNat column row.offset.toNat = .ok v) : row ∈ t.addresses := by
  obtain ⟨chunk,s,found,at_,read⟩ := valueOk.mp ok
  have even := (ground.formed.fits chunk (Array.mem_of_getElem? found)).even s (Array.mem_of_getElem? at_)
  exact (addressesMember ground.bounds).mpr ⟨chunk,found,by rw [← even]; exact Segment.storedInside read⟩

theorem meetsMember (ground : t.Base) {p : Predicate} {c : Column}
    (found : t.columns[p.column.toNat]? = some c) {x : c.type.Elem} (converts : p.value.cast c.type = .ok x)
    {row : RowId} : row ∈ t.addresses.filter (t.meets p) ↔ ∃ y : c.type.Elem,
      t.value row.chunk.toNat p.column.toNat row.offset.toNat = .ok ⟨c.type,y⟩ ∧
        p.comparator.holds (y.order x) = true := by
  rw [List.mem_filter]
  constructor
  · intro selected
    obtain ⟨mem,meets⟩ := selected
    obtain ⟨y,value⟩ := valueTyped ground mem found
    refine ⟨y,value,?_⟩
    simpa [Table.meets,value,Except.toOption,Predicate.admitsConverted converts] using meets
  · intro given
    obtain ⟨y,value,holds⟩ := given
    refine ⟨valueAddress ground value,?_⟩
    simpa [Table.meets,value,Except.toOption,Predicate.admitsConverted converts] using holds

end Table

namespace Database
variable {db : Database} {p : Predicate}

def admittedAt (s : Segment) (p : Predicate) (offset : Nat) : Bool := (s.stored offset).toOption.any p.admits

theorem scanChunkStored {type : DataType} {source : ScanSource} (unviewed : source.meetStored = .ok .stored) {c : Chunk}
    {s : Segment} (found : c.segments[p.column.toNat]? = some s) (sound : s.Sound) (plain : s.isReference = false)
    (few : s.length < UInt32.size) {own : DataType} (typed : s.type = own) {x : own.Elem}
    (converts : p.value.cast own = .ok x) (id : Nat) :
    db.scanChunk type p source c id = .ok (.stored,
      (((List.range s.length).filter (admittedAt s p)).map (RowId.ofPlace id)).toArray) := by
  have segment := Chunk.segmentOk.mpr found
  cases s with
  | plain t elems =>
    obtain rfl : t = own := typed
    have rows : rowsWhere id elems (fun y => p.comparator.holds (y.order x)) = _ :=
      rowsWhereFilter (admittedAt (.plain t elems) p) fun i y row => by
        simp [admittedAt,Segment.stored,row,Except.toOption,Predicate.admitsConverted converts]
    simp only [scanChunk,segment,unviewed,converts,bind,Except.bind,pure,Except.pure,rows]
    rfl
  | encoded t column =>
    obtain ⟨elems,rfl⟩ := sound
    obtain rfl : t = own := typed
    have size : elems.size < UInt32.size := by
      rw [← Dictionary.lengthOfElems elems]
      exact few
    have rows : rowsWhere id elems (fun y => p.comparator.holds (y.order x)) = _ :=
      rowsWhereFilter (admittedAt (.encoded t (.ofElems elems)) p) fun i y row => by
        obtain ⟨z,read,equal⟩ := Segment.encodedStored size row
        have same := Std.TransCmp.congr_left (c := x) equal
        simp [admittedAt,read,Except.toOption,Predicate.admitsConverted converts,same]
    have scan := Dictionary.scanOfElems (Nat.lt_of_le_of_lt (Dictionary.entriesSize elems) size) id p.comparator x
    simp only [scanChunk,segment,unviewed,converts,bind,Except.bind,pure,Except.pure,scan,rows,Segment.length,
      Dictionary.lengthOfElems]
    rfl
  | reference => cases plain

theorem gatherRows {type : DataType} {rows : Chunk × Nat → List RowId} {xs : List (Chunk × Nat)}
    (each : ∀ pair ∈ xs, ∀ source : ScanSource, source.meetStored = .ok .stored →
      db.scanChunk type p source pair.1 pair.2 = .ok (.stored,(rows pair).toArray))
    (source : ScanSource) (unviewed : source.meetStored = .ok .stored) (found : Array RowId) :
    ∃ last : ScanSource, last.meetStored = .ok .stored ∧
      xs.foldlM (fun state pair => do
        let (source,found) ← db.scanChunk type p state.1 pair.1 pair.2
        return (source,state.2 ++ found)) (source,found) = .ok (last,found ++ (xs.flatMap rows).toArray) := by
  induction xs generalizing source found with
  | nil => exact ⟨source,unviewed,by simp [pure,Except.pure]⟩
  | cons pair rest ih =>
    have tail := fun next mem => each next (List.mem_cons_of_mem pair mem)
    obtain ⟨last,still,run⟩ := ih tail .stored rfl (found ++ (rows pair).toArray)
    refine ⟨last,still,?_⟩
    rw [List.foldlM_cons,each pair List.mem_cons_self source unviewed]
    refine Eq.trans run ?_
    simp [List.flatMap_cons]

/- The rows are found by their places, and it takes short chunks alone that their values are told by their codes. How
many chunks there are counts only where their numbers are to be read back from the addresses. -/
theorem scanChunksPlaced (db : Database) {t : Table} (formed : t.WellFormed) (short : ∀ c ∈ t.chunks, c.length < UInt32.size)
    (stored : t.StoredAt p.column.toNat) {c : Column} (column : t.columns[p.column.toNat]? = some c) {x : c.type.Elem}
    (converts : p.value.cast c.type = .ok x) :
    ∃ source : ScanSource, source.meetStored = .ok .stored ∧ db.scanChunks c.type p t.chunks =
      .ok (source,((t.places.filter (t.passes p)).map fun place => .ofPlace place.1 place.2).toArray) := by
  let rows (pair : Chunk × Nat) : List RowId :=
    (((List.range pair.1.length).map (Prod.mk pair.2)).filter (t.passes p)).map fun place => .ofPlace place.1 place.2
  have each : ∀ pair ∈ t.chunks.zipIdx.toList, ∀ source : ScanSource, source.meetStored = .ok .stored →
      db.scanChunk c.type p source pair.1 pair.2 = .ok (.stored,(rows pair).toArray) := by
    intro ⟨chunk,i⟩ mem source unviewed
    have place : t.chunks[i]? = some chunk := by
      simpa [List.mem_zipIdx_iff_getElem?] using mem
    have inside := Array.mem_of_getElem? place
    obtain ⟨s,found,typed,sound,even⟩ := Table.segmentAt formed place column
    obtain ⟨s',same,plain⟩ := stored chunk inside
    cases Option.some.inj (found.symm.trans same)
    have few := short chunk inside
    have agree : admittedAt s p = t.passes p ∘ Prod.mk i := by
      funext offset
      simp only [Function.comp_apply,Table.passes,Table.valueStored place found]
      rfl
    rw [scanChunkStored unviewed found sound plain (by omega) typed converts,even]
    simp only [rows,List.filter_map,List.map_map,agree]
    rfl
  obtain ⟨last,unviewed,run⟩ := gatherRows each .unknown rfl #[]
  refine ⟨last,unviewed,?_⟩
  rw [scanChunks,← Array.foldlM_toList]
  refine Eq.trans run ?_
  simp [rows,Table.places,List.filter_flatMap,List.map_flatMap]

theorem scanChunksStored (db : Database) {t : Table} (formed : t.WellFormed) (bounds : t.Addressable)
    (stored : t.StoredAt p.column.toNat) {c : Column} (column : t.columns[p.column.toNat]? = some c) {x : c.type.Elem}
    (converts : p.value.cast c.type = .ok x) :
    ∃ source : ScanSource, source.meetStored = .ok .stored ∧
      db.scanChunks c.type p t.chunks = .ok (source,(t.addresses.filter (t.meets p)).toArray) := by
  obtain ⟨source,unviewed,run⟩ := scanChunksPlaced db formed bounds.rows stored column converts
  refine ⟨source,unviewed,?_⟩
  rw [run,Table.addressesPlaces,List.filter_map]
  -- An address leads back to its place, and so to the value at it.
  have agree : ∀ place ∈ t.places, t.passes p place = (t.meets p ∘ fun place => .ofPlace place.1 place.2) place := by
    intro place mem
    show t.passes p place = t.passes p (RowId.ofPlace place.1 place.2).place
    rw [Table.placeAddressed bounds mem]
  rw [List.filter_congr agree]

variable {id : TableId}

theorem viewsOfColumns (formed : (db.table id).WellFormed) (stored : (db.table id).Stored) (rows : Array RowId) :
    (((List.range (db.table id).columns.size).map UInt16.ofNat).mapM fun column => db.view id column rows) =
      .ok ((db.table id).views id rows) := by
  rw [mapMOk]
  apply List.ext_getElem?
  intro i
  simp only [Table.views,List.getElem?_map,List.getElem?_mapIdx,Array.getElem?_toList]
  cases found : (db.table id).columns[i]? with
  | none =>
    have outside := Array.getElem?_eq_none_iff.mp found
    simp [outside]
  | some c =>
    obtain ⟨bound,_⟩ := Array.getElem?_eq_some_iff.mp found
    have narrow := Table.columnNumber formed found
    have view : db.view id (UInt16.ofNat i) rows = .ok ⟨id,UInt16.ofNat i,c.type,rows⟩ := by
      refine viewOk.mpr ⟨c,?_,?_,rfl⟩
      · rw [narrow]
        exact found
      · rw [narrow]
        exact Table.storedColumn formed stored found
    rw [List.getElem?_range bound]
    exact congrArg some view

theorem ofReferencesSelection {t : Table} {column : Nat} {c : Column} (found : t.columns[column]? = some c)
    (id : TableId) (rows : Array RowId) :
    Table.ofReferences t.columns (t.views id rows).toArray = t.selection id rows := by
  have wide : 0 < t.columns.size := Nat.zero_lt_of_lt (Array.getElem?_eq_some_iff.mp found).1
  have length := Table.viewsChunkLength wide id rows
  simp only [Table.ofReferences,Table.selection,length]

theorem scannedSelects {t : Table} {base : TableId} {among : List RowId} (columns : (db.table id).columns = t.columns)
    (accepted : ∀ c x, t.columns[p.column.toNat]? = some c → p.value.cast c.type = .ok x →
      db.scanned id p = .ok (t.selection base (among.filter (t.meets p)).toArray)) :
    db.scanned id p = t.select base among p := by
  cases found : t.columns[p.column.toNat]? with
  | none =>
    rw [scanned,Table.select,Table.column,Table.column,columns,found]
    rfl
  | some c =>
    cases converts : p.value.cast c.type with
    | error e =>
      rw [scanned,Table.select,Table.columnOk.mpr (by rw [columns]; exact found),Table.columnOk.mpr found]
      show (discard (p.value.cast c.type) >>= _) = (discard (p.value.cast c.type) >>= _)
      rw [converts]
      rfl
    | ok x => rw [accepted c x found converts,Table.selectOk.mpr ⟨c,x,found,converts,rfl⟩]

theorem scannedStored (ground : (db.table id).Base) (p : Predicate) :
    db.scanned id p = (db.table id).select id (db.table id).addresses p := by
  refine scannedSelects rfl ?_
  intro c x found converts
  obtain ⟨source,unviewed,chunks⟩ := scanChunksStored db ground.formed ground.bounds (ground.storedAt found) found converts
  refine scannedOk.mpr ⟨c,x,source,_,(db.table id).views id _,found,converts,chunks,?_,
    (ofReferencesSelection found id _).symm⟩
  rw [targetsOwn unviewed]
  exact viewsOfColumns ground.formed ground.stored _

theorem scanMakes {t : Table} (ok : (db.share id).scanned id p = .ok t) :
    ∃ after, db.scan id p = (.ok db.slots.size,after) ∧ after.table db.slots.size = t ∧
      ∀ other, other < db.slots.size → after.table other = db.table other := by
  have size : (db.share id).slots.size = db.slots.size := Array.size_modify
  refine ⟨((db.share id).insert t).2,?_,?_,?_⟩
  · rw [scan,ok,← size]
    rfl
  · rw [insertTable,if_pos size.symm]
  · intro other live
    have apart : other ≠ (db.share id).slots.size := by omega
    rw [insertTable,if_neg apart,tableShare]

theorem scanSelects (reached : db.Reachable) (stored : (db.table id).Stored) (bounds : (db.table id).Addressable)
    (p : Predicate) {c : Column} (found : (db.table id).columns[p.column.toNat]? = some c) {x : c.type.Elem}
    (converts : p.value.cast c.type = .ok x) :
    ∃ result after rows, db.scan id p = (.ok result,after) ∧ after.table id = db.table id ∧
      (db.table id).Selects id rows (after.table result) ∧
      rows.toList.Pairwise (fun a b => a.order b = .lt) ∧
      (∀ row, row ∈ rows ↔ ∃ y : c.type.Elem,
        (db.table id).value row.chunk.toNat p.column.toNat row.offset.toNat = .ok ⟨c.type,y⟩ ∧
          p.comparator.holds (y.order x) = true) ∧
      ∀ (j k : Nat) (row : RowId), j < (db.table id).columns.size → rows[k]? = some row →
        ∃ v, (db.table id).value row.chunk.toNat j row.offset.toNat = .ok v ∧ after.fetch result 0 j k = .ok v := by
  have ground : (db.table id).Base := ⟨reached.consistent.tables id,stored,bounds⟩
  have scanned : (db.share id).scanned id p = (db.table id).select id (db.table id).addresses p := by
    rw [scannedStored] <;> rw [tableShare]
    exact ground
  rw [Table.selectOk.mpr ⟨c,x,found,converts,rfl⟩] at scanned
  obtain ⟨after,ran,made,kept⟩ := scanMakes scanned
  have same := kept id (columnLive found)
  refine ⟨_,after,((db.table id).addresses.filter ((db.table id).meets p)).toArray,ran,same,?_,?_,?_,?_⟩
  · rw [made]
    exact Table.selectionSelects ground.formed id _
  · exact (Table.addressesAscending bounds).filter _
  · intro row
    rw [List.mem_toArray]
    exact Table.meetsMember ground found converts
  · intro j k row inside listed
    have column : (db.table id).columns[j]? = some (db.table id).columns[j] := Array.getElem?_eq_getElem inside
    have mem : row ∈ (db.table id).addresses :=
      (List.mem_filter.mp (List.mem_toArray.mp (Array.mem_of_getElem? listed))).1
    obtain ⟨y,value⟩ := Table.valueTyped ground mem column
    refine ⟨_,value,?_⟩
    rw [fetchSelection ground.formed made column listed,same,value]

def mixedChunks : Database := run {} [.make { maxChunkSize := 2 },.addColumn 0 ⟨"id",.int⟩,
  .addColumn 0 ⟨"name",.string⟩,.append 0 [.int 3,.string "c"],.append 0 [.int 1,.string "a"],
  .append 0 [.int 2,.string "b"],.compress 0 0]

theorem mixedChunksStored : (mixedChunks.table 0).Stored := by
  unfold Table.Stored
  decide +kernel

theorem mixedChunksAddressable : (mixedChunks.table 0).Addressable := ⟨by decide +kernel,by decide +kernel⟩

theorem scanSelectsMixed : mixedChunks.Reachable ∧ (mixedChunks.table 0).Stored ∧
    (mixedChunks.table 0).Addressable ∧
    ∃ result after rows, mixedChunks.scan 0 ⟨0,.lessThan,.int 3⟩ = (.ok result,after) ∧
      (mixedChunks.table 0).Selects 0 rows (after.table result) := by
  have reached : mixedChunks.Reachable := ⟨{},_,rfl⟩
  have found : (mixedChunks.table 0).columns[(0 : ColumnId).toNat]? = some ⟨"id",.int⟩ := by decide +kernel
  have converts : (Value.int 3).cast .int = .ok (3 : Int32) := rfl
  obtain ⟨result,after,rows,ran,_,selects,_⟩ :=
    scanSelects reached mixedChunksStored mixedChunksAddressable ⟨0,.lessThan,.int 3⟩ found converts
  exact ⟨reached,mixedChunksStored,mixedChunksAddressable,result,after,rows,ran,selects⟩

end Database
end ColumnStore
