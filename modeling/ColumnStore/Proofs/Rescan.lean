import ColumnStore.Proofs.AppendOutcome
import ColumnStore.Proofs.Sealing
/-! A scan before an append and the same scan after it. A table of stored segments stays one, and the scan finds what it
found before and then the new row, if that passes. A result that is still made of references takes a row in as
well, but into a chunk of its own, and from then on it cannot be scanned. -/
namespace ColumnStore

theorem rowsWherePush {α : Type} (chunk : Nat) (xs : Array α) (x : α) (test : α → Bool) :
    (rowsWhere chunk (xs.push x) test).toList =
      (rowsWhere chunk xs test).toList ++ if test x then [.ofPlace chunk xs.size] else [] := by
  simp only [rowsWhere,Array.toList_filterMap,Array.toList_zipIdx,Array.toList_push,List.zipIdx_append,
    List.filterMap_append,Array.length_toList,Nat.zero_add]
  congr 1
  by_cases pass : test x = true <;> simp [pass,RowId.ofPlace]

theorem Segment.passingPush {s : Segment} {v w : Value} (taken : s.cell v = .ok w) (p : Predicate) (chunk : Nat) :
    (s.push w).passing p chunk = s.passing p chunk ++ if p.admits w then [.ofPlace chunk s.length] else [] := by
  cases s with
  | plain type elems =>
    obtain rfl := cellType taken
    cases converts : p.value.cast w.type with
    | error e => simp [push,passing,Predicate.admits,converts,Except.toOption]
    | ok x => simp [push,passing,length,rowsWherePush,Predicate.admits,converts,Except.toOption]
  | encoded => cases taken
  | reference => cases taken

theorem Chunk.passingPush {c : Chunk} {types : Array DataType} (fits : c.Fits types) {row cells : List Value}
    (taken : c.cells row = .ok cells) (p : Predicate) (chunk : Nat) : (c.push cells).passing p chunk =
      c.passing p chunk ++ if cells[p.column.toNat]?.any p.admits then [.ofPlace chunk c.length] else [] := by
  cases found : c.segments[p.column.toNat]? with
  | none =>
    have outside := Array.getElem?_eq_none_iff.mp found
    have gone : (c.push cells).segments[p.column.toNat]? = none := by
      rw [Array.getElem?_eq_none_iff,pushSize]
      exact outside
    have nothing : cells[p.column.toNat]? = none := by
      rw [List.getElem?_eq_none_iff,cellsLength taken]
      exact outside
    rw [Chunk.passing,Chunk.passing,found,gone,nothing]
    rfl
  | some s =>
    obtain ⟨v,w,cell,given,pushed⟩ := pushAt taken found
    have even := fits.even s (Array.mem_of_getElem? found)
    simp only [Chunk.passing,found,given,pushed,Option.elim,Option.any,← even]
    exact Segment.passingPush cell p chunk

namespace Table
variable {t : Table} {row cells : List Value}

def nextPlace (t : Table) : Nat × Nat := match t.hasRoom, t.chunks.back? with
  | true, some last => (t.chunks.size-1,last.length)
  | _, _ => (t.chunks.size,0)

structure Grows (t u : Table) (cells : List Value) (front : List Chunk) (old : Chunk) : Prop where
  before : t.chunks.toList = front ++ [old] ∨ t.chunks.toList = front ∧ old = t.emptyChunk
  fits : old.Fits t.types
  taken : ∃ row, old.cells row = .ok cells
  after : u.chunks.toList = front ++ [old.push cells]
  next : t.nextPlace = (front.length,old.length)

theorem growth (formed : t.WellFormed) (ok : t.cells row = .ok cells) :
    ∃ front old, t.Grows (t.pushCells cells) cells front old := by
  cases room : t.hasRoom with
  | true =>
    obtain ⟨last,found,taken,_,grown⟩ := growLast formed room ok
    have back : t.chunks.back? = some last := by rw [Array.back?_eq_getElem?,found]
    obtain ⟨front,listed⟩ := Array.back?_eq_some_iff.mp back
    refine ⟨front.toList,last,.inl ?_,formed.fits last (Array.mem_of_getElem? found),⟨row,taken⟩,?_,?_⟩
    · rw [listed,Array.toList_push]
    · rw [grown,listed]
      simp [List.modify_eq_take_drop]
    · simp [nextPlace,room,listed]
  | false =>
    obtain ⟨taken,grown⟩ := growNew room ok
    refine ⟨t.chunks.toList,t.emptyChunk,.inr ⟨rfl,rfl⟩,Chunk.ofTypesFits t.types,⟨row,taken⟩,?_,?_⟩
    · rw [grown,Array.toList_push]
    · have empty : t.emptyChunk.length = 0 := Chunk.emptyLengthZero t.types
      simp [nextPlace,room,empty]

namespace Grows
variable {u : Table} {front : List Chunk} {old : Chunk} (grows : t.Grows u cells front old)
include grows

theorem chunkAt {i : Nat} {c : Chunk} (place : t.chunks[i]? = some c) :
    i < front.length ∧ u.chunks[i]? = some c ∨ i = front.length ∧ c = old := by
  rw [← Array.getElem?_toList] at place
  rw [← Array.getElem?_toList,grows.after]
  rcases grows.before with last | ⟨all,_⟩
  · rw [last] at place
    rw [List.getElem?_append] at place
    split at place
    · rename_i before
      exact .inl ⟨before,by rw [List.getElem?_append_left before,place]⟩
    · rename_i beyond
      obtain ⟨bound,same⟩ := List.getElem?_eq_some_iff.mp place
      have one : i - front.length < 1 := bound
      exact .inr ⟨by omega,by simpa using same.symm⟩
  · rw [all] at place
    have inside := (List.getElem?_eq_some_iff.mp place).1
    exact .inl ⟨inside,by rw [List.getElem?_append_left inside,place]⟩

theorem lastChunk : u.chunks[front.length]? = some (old.push cells) := by
  rw [← Array.getElem?_toList,grows.after]
  simp

theorem valueKept {i offset column : Nat} {c : Chunk} (place : t.chunks[i]? = some c)
    (inside : i < front.length ∨ offset < c.length) (present : column < t.columns.size) :
    u.value i column offset = t.value i column offset := by
  rcases grows.chunkAt place with ⟨_,kept⟩ | ⟨rfl,rfl⟩
  · simp only [value,chunkOk.mpr place,chunkOk.mpr kept]
  · have within : offset < c.length := by omega
    obtain ⟨row,taken⟩ := grows.taken
    have width : column < c.segments.size := by
      rw [grows.fits.width,types,Array.size_map]
      exact present
    have segment := Array.getElem?_eq_getElem width
    obtain ⟨v,w,cell,_,pushed⟩ := Chunk.pushAt taken segment
    rw [valueStored place segment,valueStored grows.lastChunk pushed]
    exact Segment.pushBefore cell (by rw [grows.fits.even _ (Array.mem_of_getElem? segment)]; exact within)

theorem lineAt (columns : u.columns = t.columns) {i offset : Nat} {c : Chunk} (place : t.chunks[i]? = some c)
    (inside : i < front.length ∨ offset < c.length) : u.line (i,offset) = t.line (i,offset) := by
  rw [line,line,columns]
  refine mapMSame (List.map_congr_left fun column mem => ?_)
  exact grows.valueKept place inside (List.mem_range.mp mem)

theorem lineLast (columns : u.columns = t.columns) : u.line (front.length,old.length) = .ok cells := by
  obtain ⟨row,taken⟩ := grows.taken
  have width : old.segments.size = u.columns.size := by rw [grows.fits.width,types,Array.size_map,columns]
  rw [line,mapMOk]
  apply List.ext_getElem?
  intro j
  rw [List.getElem?_map,List.getElem?_map]
  by_cases inside : j < u.columns.size
  · have segment := Array.getElem?_eq_getElem (show j < old.segments.size by omega)
    obtain ⟨v,w,cell,given,pushed⟩ := Chunk.pushAt taken segment
    have last := Segment.pushLast cell
    rw [grows.fits.even _ (Array.mem_of_getElem? segment)] at last
    rw [List.getElem?_range inside,given,Option.map_some,Option.map_some,valueStored grows.lastChunk pushed,last]
  · have outside : cells[j]? = none := by
      rw [List.getElem?_eq_none_iff,Chunk.cellsLength taken]
      omega
    rw [outside,List.getElem?_eq_none (by simpa using inside)]
    rfl

theorem passing (p : Predicate) : u.passing p =
    t.passing p ++ if cells[p.column.toNat]?.any p.admits then [.ofPlace front.length old.length] else [] := by
  obtain ⟨row,taken⟩ := grows.taken
  have before : t.passing p =
      (front.zipIdx.flatMap fun pair => pair.1.passing p pair.2) ++ old.passing p front.length := by
    rcases grows.before with last | ⟨all,rfl⟩
    · rw [Table.passing,last,List.zipIdx_append,List.flatMap_append]
      simp
    · have none : t.emptyChunk.passing p front.length = [] := by
        have few := Chunk.passingSize grows.fits p front.length
        rw [show t.emptyChunk.length = 0 from Chunk.emptyLengthZero t.types] at few
        exact List.eq_nil_of_length_eq_zero (Nat.le_zero.mp few)
      rw [Table.passing,all,none,List.append_nil]
  rw [before,Table.passing,grows.after,List.zipIdx_append,List.flatMap_append,List.append_assoc,
    ← Chunk.passingPush grows.fits taken p front.length]
  simp

theorem lineKept (formed : t.WellFormed) (columns : u.columns = t.columns) {p : Predicate} {address : RowId}
    (mem : address ∈ t.passing p) : u.line address.place = t.line address.place := by
  obtain ⟨i,c,offset,place,inside,rfl⟩ := passingMember formed mem
  obtain ⟨chunk,row⟩ := RowId.placeBelow i offset
  generalize (RowId.ofPlace i offset).place = at_ at chunk row
  obtain ⟨j,k⟩ := at_
  -- An address that does not fit its place is of a chunk before the last one.
  rcases Nat.lt_or_eq_of_le chunk with before | rfl
  · have bound := (Array.getElem?_eq_some_iff.mp place).1
    refine grows.lineAt columns (Array.getElem?_eq_getElem (Nat.lt_trans before bound)) (.inl ?_)
    rcases grows.chunkAt place with ⟨within,_⟩ | ⟨last,_⟩ <;> omega
  · exact grows.lineAt columns place (.inr (Nat.lt_of_le_of_lt row inside))

end Grows

/- A table of references alone takes a row in only when it is full, and full it is not empty. -/
theorem referredFull (formed : t.WellFormed) {chunk : Chunk} (sole : t.chunks = #[chunk]) {i : Nat} {view : Reference}
    (at_ : chunk.segments[i]? = some (.reference view)) (ok : t.cells row = .ok cells) :
    t.hasRoom = false ∧ 0 < t.rowCount := by
  have full : t.hasRoom = false := by
    cases room : t.hasRoom with
    | false => rfl
    | true =>
      obtain ⟨last,found,fills,_⟩ := growLast formed room ok
      obtain rfl : chunk = last := by simpa [sole] using found
      obtain ⟨v,w,cell,_⟩ := Chunk.pushAt fills at_
      cases cell
  have capacity : ¬ chunk.length < t.maxChunkSize := by
    intro below
    simp [hasRoom,sole,below] at full
  have roomy := formed.roomy
  have count : t.rowCount = chunk.length := by simp [rowCount,sole]
  exact ⟨full,by omega⟩

theorem Stored.pushCells (stored : t.Stored) (formed : t.WellFormed) (ok : t.cells row = .ok cells) :
    (t.pushCells cells).Stored := by
  refine storedSegments fun view refers => ?_
  obtain ⟨i,at_⟩ := refersPlace.mp refers
  obtain ⟨c,mem,inside⟩ := refersPlace.mpr ⟨i,pushCellsRefers formed ok at_⟩
  cases stored c mem _ inside

end Table

namespace Database
variable {db : Database} {id : TableId} {p : Predicate} {row : List Value}

theorem scanRows (valid : db.Consistent) (stored : (db.table id).Stored) (accepts : (db.table id).Accepts p) :
    ∃ result, (db.scan id p).1 = .ok result ∧ (db.scan id p).2.rows result =
      ((db.table id).passing p).mapM fun address => (db.table id).line address.place := by
  obtain ⟨after,ran,kept,made⟩ := scanFinds valid stored accepts
  obtain ⟨c,x,found,converts⟩ := accepts
  have wide := Nat.zero_lt_of_lt (Array.getElem?_eq_some_iff.mp found).1
  have formed := valid.tables id
  rw [← kept] at made formed wide
  refine ⟨_,by rw [ran],?_⟩
  rw [ran,rowsSelection formed wide made,kept]

theorem scanRowsRead (valid : db.Consistent) (stored : (db.table id).Stored) (accepts : (db.table id).Accepts p)
    {result : TableId} (ok : (db.scan id p).1 = .ok result) (bounds : (db.table id).Addressable) :
    ∃ rows, (db.scan id p).2.rows result = .ok rows := by
  have formed := valid.tables id
  obtain ⟨_,found,rows⟩ := scanRows valid stored accepts
  cases Except.ok.inj (ok.symm.trans found)
  rw [rows,passingPlaced formed bounds.rows stored accepts]
  refine mapMReads fun address mem => ?_
  obtain ⟨place,among,rfl⟩ := List.mem_map.mp mem
  have inside := (List.mem_filter.mp among).1
  obtain ⟨cells,_,read,_⟩ := (Table.Agree.refl (db.table id)).lines formed stored bounds.rows inside
  rw [Table.placeAddressed bounds inside]
  exact ⟨cells,read⟩

theorem rescanStored (valid : db.Consistent) (stored : (db.table id).Stored) (accepts : (db.table id).Accepts p)
    {result : TableId} (ok : (db.scan id p).1 = .ok result) (taken : (db.append id row).1 = .ok ()) :
    ∃ cells again, (db.table id).convertRow row = .ok cells ∧ ((db.append id row).2.scan id p).1 = .ok again ∧
      ((db.table id).nextPlace.1 < UInt32.size → (db.table id).nextPlace.2 < UInt32.size →
        ((db.append id row).2.scan id p).2.rows again = ((db.scan id p).2.rows result).map
          (· ++ if cells[p.column.toNat]?.any p.admits then [cells] else [])) := by
  have formed := valid.tables id
  obtain ⟨cells,_,into,grown⟩ := appendGrows taken
  have live : id < db.slots.size := by
    obtain ⟨_,_,found,_⟩ := accepts
    exact columnLive found
  have table : (db.append id row).2.table id = (db.table id).pushCells cells := by rw [grown,tableModify live]
  have next : (db.append id row).2.Consistent := stepConsistent valid (.append id row)
  have columns := Table.pushCellsColumns (db.table id) cells
  obtain ⟨front,old,grows⟩ := Table.growth formed into
  obtain ⟨_,found,rows⟩ := scanRows valid stored accepts
  cases Except.ok.inj (ok.symm.trans found)
  obtain ⟨again,ran,read⟩ := scanRows (p := p) next (by rw [table]; exact stored.pushCells formed into)
    (by rw [table,Table.Accepts,columns]; exact accepts)
  refine ⟨cells,again,Table.cellsConverted formed into,ran,?_⟩
  intro chunkFits offsetFits
  rw [grows.next] at chunkFits offsetFits
  have before : ((db.table id).passing p).mapM (fun address => ((db.table id).pushCells cells).line address.place) =
      ((db.table id).passing p).mapM fun address => (db.table id).line address.place :=
    mapMSame (List.map_congr_left fun _ mem => grows.lineKept formed columns mem)
  have last : (if cells[p.column.toNat]?.any p.admits then [RowId.ofPlace front.length old.length] else []).mapM
      (fun address => ((db.table id).pushCells cells).line address.place) =
      .ok (if cells[p.column.toNat]?.any p.admits then [cells] else []) := by
    split
    · rw [List.mapM_cons,RowId.placeOfPlace chunkFits offsetFits,grows.lineLast columns]
      rfl
    · rfl
  rw [read,rows,table,grows.passing,List.mapM_append,before,last]
  cases ((db.table id).passing p).mapM fun address => (db.table id).line address.place <;> rfl

theorem scanChunkKept {later : Database} {type : DataType} {chunk : Chunk} {view : Reference}
    (segment : chunk.segments[p.column.toNat]? = some (.reference view))
    (kept : later.table view.table = db.table view.table) (source : ScanSource) (i : Nat) :
    later.scanChunk type p source chunk i = db.scanChunk type p source chunk i := by
  have read : ∀ row, later.valueAt view row = db.valueAt view row := by
    intro row
    rw [valueAt,valueAt,kept]
  simp only [scanChunk,Chunk.segmentOk.mpr segment,bind,Except.bind,read]

theorem scanChunkMixed {type : DataType} {c : Chunk} {types : Array DataType} (fits : c.Fits types) {cells : List Value}
    (taken : c.cells row = .ok cells) (present : p.column.toNat < types.size) (table : TableId)
    (columns : List ColumnId) (i : Nat) : db.scanChunk type p (.views table columns) (c.push cells) i = .error .mixedColumn := by
  have width : p.column.toNat < c.segments.size := by
    rw [fits.width]
    exact present
  obtain ⟨v,w,cell,_,pushed⟩ := Chunk.pushAt taken (Array.getElem?_eq_getElem width)
  rw [scanChunk,Chunk.segmentOk.mpr pushed]
  cases plain : c.segments[p.column.toNat] with
  | plain own elems =>
    obtain rfl : w.type = own := by
      rw [plain] at cell
      exact Segment.cellType cell
    simp [Segment.push,bind,Except.bind,ScanSource.meetStored]
  | encoded =>
    rw [plain] at cell
    cases cell
  | reference =>
    rw [plain] at cell
    cases cell

theorem scanMixed (reached : db.Reachable) {result : TableId} (ok : (db.scan id p).1 = .ok result) {later : Database}
    {chunk c : Chunk} {view : Reference} (sole : (db.table id).chunks = #[chunk])
    (at_ : chunk.segments[p.column.toNat]? = some (.reference view))
    (columns : (later.table id).columns = (db.table id).columns)
    (chunks : (later.table id).chunks.toList = [chunk,c.push cells]) (fits : c.Fits (db.table id).types)
    (taken : c.cells row = .ok cells) (kept : later.table view.table = db.table view.table) :
    (later.scan id p).1 = .error .mixedColumn := by
  have same := tableShare db id
  have still := tableShare later id
  obtain ⟨column,x,source,rows,views,found,converts,scanned,_,_⟩ := scannedOk.mp (scanOk ok)
  have held : (db.share id).Reachable := reached.step (.hold id)
  have valid := held.consistent
  obtain ⟨name,type⟩ := column
  have place : chunk ∈ ((db.share id).table id).chunks := by simp [same,sole]
  obtain ⟨targets,kept_,first⟩ : ∃ targets kept, (db.share id).scanChunk type p .unknown chunk 0 =
      .ok (.views view.table targets,kept) := by
    rcases scanChunksCases found held scanned with stored | ⟨other,view',sole',segment,typed,ran⟩
    · obtain ⟨s,segment,plain⟩ := stored chunk place
      cases Option.some.inj (at_.symm.trans segment)
      cases plain
    · rw [same,sole] at sole'
      cases sole'
      cases Option.some.inj (at_.symm.trans segment)
      obtain rfl : view.type = type := typed
      obtain ⟨⟨targets,_,rfl⟩,_⟩ :=
        scanChunkReferred valid at_ (valid.views id view ⟨chunk,place,Array.mem_of_getElem? at_⟩) ran
      exact ⟨targets,rows,ran⟩
  have again : (later.share id).scanChunk type p .unknown chunk 0 = .ok (.views view.table targets,kept_) := by
    rw [← first]
    exact scanChunkKept at_ (by rw [same,still,kept]) _ _
  rw [same] at found
  have present : p.column.toNat < (db.table id).types.size := by
    rw [Table.types,Array.size_map]
    exact (Array.getElem?_eq_some_iff.mp found).1
  have mixed : (later.share id).scanChunk type p (.views view.table targets) (c.push cells) 1 = .error .mixedColumn :=
    scanChunkMixed fits taken present view.table targets 1
  rw [scanReports,scannedRuns (by rw [still,columns]; exact found) converts,still,scanChunksFirst chunks,again]
  simp [mixed,bind,Except.bind,Except.map]

theorem rescanReferring (reached : db.Reachable) {result : TableId} (ok : (db.scan id p).1 = .ok result)
    (unstored : ¬ (db.table id).Stored) (taken : (db.append id row).1 = .ok ()) :
    (db.table id).Referring ∧ 0 < (db.table id).rowCount ∧
      (∃ new, ((db.append id row).2.table id).chunks = (db.table id).chunks.push new ∧
        (Chunk.ofTypes (db.table id).types).Longer new row) ∧
      ((db.append id row).2.scan id p).1 = .error .mixedColumn := by
  have valid := reached.consistent
  have formed := valid.tables id
  obtain ⟨accepts,draws⟩ := scanDraws reached ok
  obtain ⟨cells,free,into,grown⟩ := appendGrows taken
  cases draws with
  | stored stored => exact absurd stored unstored
  | @referred chunk scanned sole referring at_ _ =>
    obtain ⟨full,present⟩ := Table.referredFull formed sole at_ into
    obtain ⟨fills,pushed⟩ := Table.growNew full into
    have live : id < db.slots.size := by
      obtain ⟨_,_,found,_⟩ := accepts
      exact columnLive found
    have grownTable : (db.append id row).2.table id = (db.table id).pushCells cells := by
      rw [grown,tableModify live]
    refine ⟨?_,present,⟨_,by rw [grownTable,pushed]; rfl,Chunk.pushLonger fills⟩,?_⟩
    · intro c mem
      rw [sole] at mem
      obtain rfl := Array.mem_singleton.mp mem
      exact referring
    · have chunks : ((db.append id row).2.table id).chunks.toList =
          [chunk,(db.table id).emptyChunk.push cells] := by
        rw [grownTable,pushed]
        simp [sole]
      have refers : (db.table id).Refers scanned := ⟨chunk,by simp [sole],Array.mem_of_getElem? at_⟩
      have apart : scanned.table ≠ id := by
        intro same
        have shared := (valid.views id scanned refers).shared
        rw [same,free] at shared
        cases shared
      refine scanMixed reached ok sole at_ ?_ chunks (Chunk.ofTypesFits (db.table id).types) fills ?_
      · rw [grownTable,Table.pushCellsColumns]
      · rw [grown,tableModifyOther db (Ne.symm apart)]

theorem appendRescans (reached : db.Reachable) {result : TableId} (ok : (db.scan id p).1 = .ok result)
    (taken : (db.append id row).1 = .ok ()) :
    ((db.table id).Stored → ∃ cells again, (db.table id).convertRow row = .ok cells ∧
      ((db.append id row).2.scan id p).1 = .ok again ∧
      ((db.table id).nextPlace.1 < UInt32.size → (db.table id).nextPlace.2 < UInt32.size →
        ((db.append id row).2.scan id p).2.rows again = ((db.scan id p).2.rows result).map
          (· ++ if cells[p.column.toNat]?.any p.admits then [cells] else [])) ∧
      ((db.table id).Addressable → ∃ rows, (db.scan id p).2.rows result = .ok rows)) ∧
    (¬ (db.table id).Stored → (db.table id).Referring ∧ 0 < (db.table id).rowCount ∧
      (∃ new, ((db.append id row).2.table id).chunks = (db.table id).chunks.push new ∧
        (Chunk.ofTypes (db.table id).types).Longer new row) ∧
      ((db.append id row).2.scan id p).1 = .error .mixedColumn) := by
  have valid := reached.consistent
  have accepts := (scanDraws reached ok).1
  refine ⟨?_,fun unstored => rescanReferring reached ok unstored taken⟩
  intro stored
  obtain ⟨cells,again,converts,ran,rows⟩ := rescanStored valid stored accepts ok taken
  exact ⟨cells,again,converts,ran,rows,scanRowsRead valid stored accepts ok⟩

theorem appendRescansHalf : halfFull.Reachable ∧ (halfFull.table 0).Stored ∧
    (halfFull.scan 0 ⟨0,.greaterOrEqual,.int 2⟩).1 = .ok 1 ∧ (halfFull.append 0 [.int 4]).1 = .ok () ∧
    ∃ again, ((halfFull.append 0 [.int 4]).2.scan 0 ⟨0,.greaterOrEqual,.int 2⟩).1 = .ok again ∧
      ((halfFull.append 0 [.int 4]).2.scan 0 ⟨0,.greaterOrEqual,.int 2⟩).2.rows again =
        .ok [[.int 2],[.int 3],[.int 4]] := by
  have ok : (halfFull.scan 0 ⟨0,.greaterOrEqual,.int 2⟩).1 = .ok 1 := by decide +kernel
  have taken : (halfFull.append 0 [.int 4]).1 = .ok () := by decide +kernel
  have before : (halfFull.scan 0 ⟨0,.greaterOrEqual,.int 2⟩).2.rows 1 = .ok [[.int 2],[.int 3]] := by decide +kernel
  have converts : (halfFull.table 0).convertRow [.int 4] = .ok [.int 4] := by decide +kernel
  have stored := halfFullMade.stored
  obtain ⟨cells,again,converts',ran,rows,_⟩ := (appendRescans halfFullMade.reached ok taken).1 stored
  cases Except.ok.inj (converts.symm.trans converts')
  rw [before] at rows
  exact ⟨halfFullMade.reached,stored,ok,taken,again,ran,rows (by decide +kernel) (by decide +kernel)⟩

theorem rowBaseLines {xs : Array Int32} (reached : (rowBase xs).Reachable) {after : Database} {selected : List RowId}
    (same : after.table 0 = rowTable xs) (made : after.table 1 = (rowTable xs).selection 0 selected.toArray) :
    after.rows 1 = selected.mapM fun row => (rowTable xs).line row.place := by
  have formed : (rowTable xs).WellFormed := reached.consistent.tables 0
  have wide : 0 < (rowTable xs).columns.size := Nat.zero_lt_one
  rw [← same] at made formed wide
  rw [rowsSelection formed wide made,same]

theorem spreadRescanned (n : Nat) : (rowBase (Array.replicate (n+1) 1)).Reachable ∧
    (rowBase (Array.replicate (n+1) 1)).append 0 [.int 2] = (.ok (),spread n) ∧
    (∃ after, (rowBase (Array.replicate (n+1) 1)).scan 0 ⟨0,.equals,.int 2⟩ = (.ok 1,after) ∧ after.rows 1 = .ok []) ∧
    ∃ after, (spread n).scan 0 ⟨0,.equals,.int 2⟩ = (.ok 1,after) ∧
      after.rows 1 = [RowId.ofPlace (n+1) 0].mapM fun row => ((spread n).table 0).line row.place := by
  have reached : (rowBase (Array.replicate (n+1) 1)).Reachable := by
    rw [← appendOnes,← spreadStart,← runAppend]
    exact ⟨{},_,rfl⟩
  have ones : ∀ i ∈ List.range (n+1), ¬ rowAdmits (Array.replicate (n+1) 1) .equals 2 i := by
    intro i mem
    rw [rowAdmits,Array.getElem?_replicate,if_pos (List.mem_range.mp mem)]
    decide
  refine ⟨reached,by rw [spreadRows,Array.replicate_succ,appendFull],?_,?_⟩
  · obtain ⟨after,ran,same,made⟩ := rowBaseScan reached .equals 2
    rw [Array.size_replicate,List.filter_eq_nil_iff.mpr ones] at made
    exact ⟨after,ran,rowBaseLines reached same made⟩
  · obtain ⟨⟨after,ran,same,made⟩,_⟩ := spreadFinds n
    have spreads : (spread n).Reachable := ⟨{},_,rfl⟩
    refine ⟨after,ran,?_⟩
    rw [spreadRows] at spreads same made ⊢
    exact rowBaseLines spreads same made

theorem spreadUnlike {n : Nat} (anew : RowId.ofPlace (n+1) 0 = ⟨0,0⟩) : ∃ db : Database, db.Reachable ∧
    (db.append 0 [.int 2]).1 = .ok () ∧
    (∃ after, db.scan 0 ⟨0,.equals,.int 2⟩ = (.ok 1,after) ∧ after.rows 1 = .ok []) ∧
    ∃ after, (db.append 0 [.int 2]).2.scan 0 ⟨0,.equals,.int 2⟩ = (.ok 1,after) ∧ after.rows 1 = .ok [[.int 1]] := by
  obtain ⟨reached,added,before,after,ran,rows⟩ := spreadRescanned n
  have first : ((Array.replicate (n+1) (1 : Int32)).push 2)[0]? = some 1 := by
    rw [Array.getElem?_push,if_neg (by simp),Array.getElem?_replicate,if_pos (by omega)]
  have line : ((spread n).table 0).line (0,0) = .ok [.int 1] := by
    rw [spreadRows]
    show ([0] : List Nat).mapM (fun column => (rowTable ((Array.replicate (n+1) 1).push 2)).value 0 column 0) = _
    rw [List.mapM_cons,rowTableValue first]
    rfl
  refine ⟨_,reached,by rw [added],before,after,by rw [added]; exact ran,?_⟩
  have place : (⟨0,0⟩ : RowId).place = (0,0) := rfl
  rw [rows,anew,List.mapM_cons,place,line]
  rfl

theorem appendUnscannable :
    (∃ db : Database, db.Reachable ∧ (db.scan 1 ⟨0,.equals,.int 1⟩).1 = .ok 2 ∧ (db.append 1 [.int 1]).1 = .ok () ∧
      ((db.append 1 [.int 1]).2.scan 1 ⟨0,.equals,.int 1⟩).1 = .error .mixedColumn) ∧
    ∃ db : Database, db.Reachable ∧ (db.append 0 [.int 2]).1 = .ok () ∧
      (∃ after, db.scan 0 ⟨0,.equals,.int 2⟩ = (.ok 1,after) ∧ after.rows 1 = .ok []) ∧
      ∃ after, (db.append 0 [.int 2]).2.scan 0 ⟨0,.equals,.int 2⟩ = (.ok 1,after) ∧ after.rows 1 = .ok [[.int 1]] := by
  constructor
  · refine ⟨run {} [.make {},.addColumn 0 ⟨"a",.int⟩,.append 0 [.int 1],.scan 0 ⟨0,.equals,.int 1⟩],⟨{},_,rfl⟩,?_,?_,?_⟩
    all_goals decide +kernel
  · exact spreadUnlike (n := 4294967295) (by decide)

end Database
end ColumnStore
