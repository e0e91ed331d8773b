import ColumnStore.Proofs.Contents
import ColumnStore.Proofs.ScanSuccess
/-! Chunks, rows and dictionary entries as numbers of thirty-two bits. Tables that are made with settings never have
chunks too long for that, and results of scans only when they have as many rows; codes then are the places of their
entries, and while there are not too many chunks either, each address that a scan gives out is that of the row that
it looked at. Chunks are not counted when they are made, so beyond that number addresses begin anew. -/
namespace ColumnStore

structure Dictionary.Numbered {t : DataType} (elems : Array t.Elem) : Prop where
  size : (UInt32.ofNat (ofElems elems).entries.size).toNat = (ofElems elems).entries.size
  places : ∀ i x, elems[i]? = some x →
    (ofElems elems).codes.get i = .ok (UInt32.ofNat (countBelow (ofElems elems).entries x)) ∧
      (UInt32.ofNat (countBelow (ofElems elems).entries x)).toNat = countBelow (ofElems elems).entries x
  given : ∀ code ∈ (ofElems elems).codes.codes, code ≠ missing

theorem Dictionary.numbered {t : DataType} {elems : Array t.Elem} (short : elems.size < UInt32.size) :
    Numbered elems := by
  have few := Nat.lt_of_le_of_lt (entriesSize elems) short
  constructor
  case size => exact UInt32.toNat_ofNat_of_lt' few
  case places =>
    intro i x row
    obtain ⟨code,read,place⟩ := codeAt row few
    rw [← place,UInt32.ofNat_toNat]
    exact ⟨read,rfl⟩
  case given =>
    intro code mem
    obtain ⟨i,bound,rfl⟩ := Array.getElem_of_mem mem
    have inside : i < elems.size := by simpa [ofElems,CodeVector.ofCodes] using bound
    obtain ⟨code,read,place⟩ := codeAt (Array.getElem?_eq_getElem inside) few
    obtain ⟨below,_⟩ := entryOf (Array.getElem_mem inside)
    rw [CodeVector.get,Array.getElem?_eq_getElem bound] at read
    cases read
    intro same
    have top : missing.toNat = UInt32.size-1 := rfl
    rw [same,top] at place
    omega

namespace Table
variable {t : Table}

theorem ofReferencesCapacity {columns : Array Column} {views : Array Reference} {n : Nat}
    (even : ∀ view ∈ views, view.rows.size = n) : (ofReferences columns views).maxChunkSize ≤ max 1 n := by
  have length : (⟨views.map Segment.reference⟩ : Chunk).length ≤ n := by
    unfold Chunk.length
    split
    · rename_i s first
      obtain ⟨view,mem,rfl⟩ := Array.mem_map.mp (Array.mem_of_getElem? first)
      exact Nat.le_of_eq (even view mem)
    · exact Nat.zero_le _
  simp only [ofReferences]
  omega

end Table

namespace Database
variable {db : Database} {id : TableId} {p : Predicate}

/- A table that was made with settings, whether these are within their limits or not, and changed in any way since. -/
inductive Made : Database → TableId → Prop where
  | fresh {db : Database} {op : Operation} (reached : db.Reachable) (makes : op.Makes db) :
      Made (db.step op) db.slots.size
  | kept {db : Database} {id : TableId} (earlier : Made db id) (op : Operation) : Made (db.step op) id

namespace Made

theorem run (made : Made db id) (ops : List Operation) : Made (db.run ops) id := by
  induction ops generalizing db with
  | nil => exact made
  | cons op rest ih => exact ih (made.kept op)

theorem reached (made : Made db id) : db.Reachable := by
  induction made with
  | fresh reached makes => exact reached.step _
  | kept earlier op ih => exact ih.step op

theorem live (made : Made db id) : id < db.slots.size := by
  induction made with
  | fresh reached makes => exact (makesTable makes).1
  | kept earlier op ih => exact stepLive earlier.reached.consistent ih op

theorem capacity (made : Made db id) : (db.table id).maxChunkSize ≤ 4294967295 := by
  induction made with
  | fresh reached makes =>
    obtain ⟨_,config,same⟩ := makesTable makes
    rw [same]
    exact Table.ofConfigCapacity config
  | kept earlier op ih =>
    rw [(stepBecomes earlier.reached.consistent earlier.live op).capacity]
    exact ih

theorem viewless (made : Made db id) : ∀ view, ¬ (db.table id).Refers view := by
  induction made with
  | fresh reached makes =>
    obtain ⟨_,config,same⟩ := makesTable makes
    rw [same]
    exact Table.ofConfigRefers config
  | kept earlier op ih =>
    have valid := earlier.reached.consistent
    intro view refers
    exact ih view (Table.refersOfPlaces (fun _ => (stepBecomes valid earlier.live op).refersAt (valid.tables _)) refers)

theorem stored (made : Made db id) : (db.table id).Stored := Table.storedSegments made.viewless

theorem short (made : Made db id) : ∀ c ∈ (db.table id).chunks, c.length < UInt32.size := by
  intro c mem
  have fits := (made.reached.consistent.tables id).capacity c mem
  exact Nat.lt_of_le_of_lt (Nat.le_trans fits made.capacity) (by decide)

end Made

theorem scanChunksFew (reached : db.Reachable) {c : Column} (found : (db.table id).columns[p.column.toNat]? = some c)
    {x : c.type.Elem} (converts : p.value.cast c.type = .ok x) {source : ScanSource} {rows : Array RowId}
    (ok : db.scanChunks c.type p (db.table id).chunks = .ok (source,rows)) : rows.size ≤ (db.table id).rowCount := by
  have valid := reached.consistent
  have formed := valid.tables id
  rcases scanChunksCases found reached ok with stored | ⟨chunk,view,sole,at_,typed,ran⟩
  · obtain ⟨_,_,again⟩ := scanChunksStorable db formed stored found converts
    cases Except.ok.inj (ok.symm.trans again)
    exact Table.passingSize formed p
  · have mem : chunk ∈ (db.table id).chunks := by simp [sole]
    have inside := Array.mem_of_getElem? at_
    obtain ⟨name,type⟩ := c
    obtain rfl : view.type = type := typed
    obtain ⟨_,rfl⟩ := scanChunkReferred valid at_ (valid.views id view ⟨chunk,mem,inside⟩) ran
    have even : view.rows.size = chunk.length := (formed.fits chunk mem).even _ inside
    have count : (db.table id).rowCount = chunk.length := by simp [Table.rowCount,sole]
    rw [count,← even]
    exact List.length_filter_le ..

theorem scanCapacity (reached : db.Reachable) {result : TableId} (ok : (db.scan id p).1 = .ok result) :
    ((db.scan id p).2.table result).maxChunkSize ≤ max 1 (db.table id).rowCount := by
  have made := scanOk ok
  generalize (db.scan id p).2.table result = t at made
  obtain ⟨c,x,source,rows,views,found,converts,chunks,viewed,rfl⟩ := scannedOk.mp made
  have few := scanChunksFew (reached.step (.hold id)) found converts chunks
  rw [step,tableShare] at few
  refine Nat.le_trans (Table.ofReferencesCapacity (n := rows.size) ?_) (by omega)
  intro view mem
  obtain ⟨_,_,from_⟩ := mapMMember viewed (List.mem_toArray.mp mem)
  obtain ⟨_,_,_,rfl⟩ := viewOk.mp from_
  rfl

theorem resultLive {result : TableId} (ok : (db.scan id p).1 = .ok result) :
    result < (db.scan id p).2.slots.size := by
  have made := scanOk ok
  obtain ⟨c,_,_,_,_,found,_,_,_,same⟩ := scannedOk.mp made
  refine columnLive (i := p.column.toNat) (c := c) ?_
  rw [same]
  exact found

/- The rows behind the addresses that a scan gives out: rows of the table scanned, while all of these have addresses, or
rows that its references are to; and each time those that were looked at and passed. -/
inductive Denotes (db : Database) (id : TableId) (p : Predicate) (view : Reference) : Prop where
  | own (table : view.table = id) (rows : (db.table id).Addressable →
      view.rows.toList.map RowId.place = (db.table id).places.filter ((db.table id).passes p)) : Denotes db id p view
  | referred {chunk : Chunk} {scanned : Reference} (mem : chunk ∈ (db.table id).chunks)
      (at_ : chunk.segments[p.column.toNat]? = some (.reference scanned)) (table : view.table = scanned.table)
      (rows : view.rows.toList = scanned.rows.toList.filter (db.admitsReferred scanned p)) : Denotes db id p view

theorem scanDenotes (reached : db.Reachable) {result : TableId}
    (ok : (db.scan id p).1 = .ok result) {view : Reference} (refers : ((db.scan id p).2.table result).Refers view) :
    db.Denotes id p view := by
  obtain ⟨accepts,draws⟩ := scanDraws reached ok
  have formed := reached.consistent.tables id
  cases draws with
  | stored stored made =>
    obtain ⟨table,same⟩ : view.table = id ∧ view.rows = ((db.table id).passing p).toArray := by
      rw [made] at refers
      exact Table.viewMember (by simpa [Table.Refers,Table.selection] using refers)
    refine .own table fun bounds => ?_
    rw [same,List.toList_toArray,passingPlaced formed bounds.rows stored accepts,List.map_map]
    refine (List.map_congr_left ?_).trans (List.map_id _)
    intro place mem
    exact Table.placeAddressed bounds (List.mem_filter.mp mem).1
  | referred sole referring at_ drawn =>
    obtain ⟨table,rows⟩ := drawn view refers
    exact .referred (by simp [sole]) at_ table (by rw [rows])

structure Addressed (db : Database) : Prop where
  made : ∀ id, Made db id → ∀ c ∈ (db.table id).chunks, c.length ≤ 4294967295
  results : ∀ id p result, (db.scan id p).1 = .ok result → (db.table id).rowCount ≤ 4294967295 → ∀ ops,
    ∀ c ∈ (((db.scan id p).2.run ops).table result).chunks, c.length ≤ 4294967295
  encodings : ∀ id, ∀ c ∈ (db.table id).chunks, c.length ≤ 4294967295 → ∀ s ∈ c.segments, ∀ (t : DataType)
    (elems : Array t.Elem), db.elems s t = .ok elems → Dictionary.Numbered elems
  codes : ∀ id, ∀ c ∈ (db.table id).chunks, c.length ≤ 4294967295 → ∀ (t : DataType) (column : Dictionary t),
    Segment.encoded t column ∈ c.segments → ∀ code ∈ column.codes.codes, code ≠ Dictionary.missing
  chunks : ∀ id, (db.table id).Addressable → ∀ i, i < (db.table id).chunks.size → (UInt32.ofNat i).toNat = i
  offsets : ∀ id, (db.table id).Addressable → ∀ c ∈ (db.table id).chunks, ∀ offset, offset < c.length →
    (UInt32.ofNat offset).toNat = offset
  found : ∀ id p result, (db.scan id p).1 = .ok result → ∀ view, ((db.scan id p).2.table result).Refers view →
    db.Denotes id p view

theorem rowsAddressed (reached : db.Reachable) : db.Addressed := by
  have valid := reached.consistent
  have limit : UInt32.size = 4294967296 := rfl
  constructor
  case made => exact fun id made c mem => Nat.le_of_lt_succ (made.short c mem)
  case results =>
    intro id p result ok few ops c mem
    have live := resultLive ok
    have capacity := scanCapacity reached ok
    have later : ((db.scan id p).2.run ops).Consistent := runConsistent (valid.scan id p) ops
    have fits := (later.tables result).capacity c mem
    rw [runCapacity (valid.scan id p) live] at fits
    omega
  case encodings =>
    intro id c mem short s inside t elems read
    have even := ((valid.tables id).fits c mem).even s inside
    have size := (elemsOk read).1
    exact Dictionary.numbered (by omega)
  case codes =>
    intro id c mem short t column inside
    have fits := (valid.tables id).fits c mem
    obtain ⟨elems,rfl⟩ := fits.sound _ inside
    have even := fits.even _ inside
    rw [Segment.length,Dictionary.lengthOfElems] at even
    exact (Dictionary.numbered (by omega)).given
  case chunks =>
    intro id bounds i inside
    exact UInt32.toNat_ofNat_of_lt' (Nat.lt_of_lt_of_le inside bounds.chunks)
  case offsets =>
    intro id bounds c mem offset inside
    exact UInt32.toNat_ofNat_of_lt' (Nat.lt_trans inside (bounds.rows c mem))
  case found => exact fun id p result ok view refers => scanDenotes reached ok refers

theorem rowsAddressedRagged : raggedResult.Reachable ∧ raggedResult.Addressed ∧ Made raggedResult 0 ∧
    (raggedResult.scan 0 ⟨0,.equals,.int 3⟩).1 = .ok 3 ∧
    raggedResult.Denotes 0 ⟨0,.equals,.int 3⟩ ⟨0,0,.int,#[⟨0,0⟩]⟩ := by
  have reached : raggedResult.Reachable := ⟨{},_,rfl⟩
  have addressed := rowsAddressed reached
  have start : Made (({} : Database).step (.make {})) 0 := .fresh ⟨{},[],rfl⟩ trivial
  have ok : (raggedResult.scan 0 ⟨0,.equals,.int 3⟩).1 = .ok 3 := by decide +kernel
  have refers : ((raggedResult.scan 0 ⟨0,.equals,.int 3⟩).2.table 3).Refers ⟨0,0,.int,#[⟨0,0⟩]⟩ := by decide +kernel
  exact ⟨reached,addressed,start.run _,ok,addressed.found 0 _ 3 ok _ refers⟩

def rowChunk (x : Int32) : Chunk := ⟨#[.plain .int #[x]]⟩

def rowTable (xs : Array Int32) : Table := ⟨#[⟨"a",.int⟩],xs.map rowChunk,1,true⟩

def rowBase (xs : Array Int32) : Database := { slots := #[⟨rowTable xs,false⟩] }

def spread (n : Nat) : Database := run {} ([.make { maxChunkSize := 1 },.addColumn 0 ⟨"a",.int⟩,.append 0 [.int 1]] ++
  List.replicate n (.append 0 [.int 1]) ++ [.append 0 [.int 2]])

theorem rowTableFull (xs : Array Int32) (x : Int32) : (rowTable (xs.push x)).hasRoom = false := by
  simp [Table.hasRoom,rowTable,rowChunk,Chunk.length,Segment.length]

theorem rowTableCells (xs : Array Int32) (x y : Int32) : (rowTable (xs.push x)).cells [.int y] = .ok [.int y] := by
  have fresh : (rowTable (xs.push x)).emptyChunk = Chunk.ofTypes #[.int] := by
    simp [Table.emptyChunk,Table.types,rowTable]
  have taken : (Chunk.ofTypes #[.int]).cells [.int y] = .ok [.int y] := by
    simp [Chunk.ofTypes,Chunk.cells,Segment.empty,Segment.cell,Value.convert,Value.castSame,Value.int,Except.map]
  rw [Table.cells,rowTableFull,fresh,taken]
  rfl

theorem rowTablePush (xs : Array Int32) (x y : Int32) :
    (rowTable (xs.push x)).pushCells [.int y] = rowTable ((xs.push x).push y) := by
  have fresh : (rowTable (xs.push x)).emptyChunk = Chunk.ofTypes #[.int] := by
    simp [Table.emptyChunk,Table.types,rowTable]
  have grown : (Chunk.ofTypes #[.int]).push [.int y] = rowChunk y := by
    simp [Chunk.ofTypes,Chunk.push,Chunk.pushFrom,Segment.empty,Segment.push,rowChunk,Value.int]
  rw [Table.pushCells,rowTableFull,fresh,grown]
  simp [rowTable]

theorem appendFull (xs : Array Int32) (x y : Int32) :
    (rowBase (xs.push x)).append 0 [.int y] = (.ok (),rowBase ((xs.push x).push y)) := by
  simp [append,change,changeable,isShared,table,rowBase,bind,Except.bind,rowTableCells,modify,rowTablePush]

theorem spreadStart : run {} [.make { maxChunkSize := 1 },.addColumn 0 ⟨"a",.int⟩,.append 0 [.int 1]] =
    rowBase #[1] := by
  simp [run,step,insert,addColumn,append,change,changeable,isShared,table,modify,Table.ofConfig,Table.checkColumn,
    Table.rowCount,Table.greatestWidth,Table.pushColumn,Table.cells,Table.hasRoom,Table.pushCells,Chunk.length,
    Chunk.empty,Chunk.cells,Chunk.push,Chunk.pushFrom,Segment.length,Segment.cell,Segment.empty,Segment.push,
    Config.greatestChunkSize,Value.convert,Value.cast,Value.toInt,Value.int,rowBase,rowTable,rowChunk,bind,Except.bind,
    pure,Except.pure,Except.map]

theorem appendOnes (n : Nat) :
    (rowBase #[1]).run (List.replicate n (.append 0 [.int 1])) = rowBase (Array.replicate (n+1) 1) := by
  induction n with
  | zero => rfl
  | succ n ih =>
    rw [List.replicate_succ',runAppend,ih,Array.replicate_succ]
    show ((rowBase ((Array.replicate n 1).push 1)).append 0 [.int 1]).2 = _
    rw [appendFull]
    simp only [← Array.replicate_succ]

theorem spreadRows (n : Nat) : spread n = rowBase ((Array.replicate (n+1) 1).push 2) := by
  rw [spread,runAppend,runAppend,spreadStart,appendOnes,Array.replicate_succ]
  show ((rowBase ((Array.replicate n 1).push 1)).append 0 [.int 2]).2 = _
  rw [appendFull]

theorem rowTableValue {xs : Array Int32} {i : Nat} {x : Int32} (found : xs[i]? = some x) :
    (rowTable xs).value i 0 0 = .ok (.int x) := by
  have chunk : (rowTable xs).chunks[i]? = some (rowChunk x) := by simp [rowTable,found]
  exact Table.valueStored chunk (s := .plain .int #[x]) rfl 0

theorem rowTablePlaces (xs : Array Int32) : (rowTable xs).places = (List.range xs.size).map fun i => (i,0) := by
  have each : ∀ pair ∈ (rowTable xs).chunks.toList.zipIdx,
      (List.range pair.1.length).map (Prod.mk pair.2) = [(pair.2,0)] := by
    intro pair mem
    have among : pair.1 ∈ xs.map rowChunk := Array.mem_toList_iff.mp (List.fst_mem_of_mem_zipIdx mem)
    obtain ⟨x,_,same⟩ := Array.mem_map.mp among
    rw [← same]
    rfl
  have indices : (rowTable xs).chunks.toList.zipIdx.map Prod.snd = List.range xs.size := by
    rw [List.zipIdx_map_snd,List.range_eq_range']
    simp [rowTable]
  rw [Table.places,List.flatMap_congr each,← List.map_eq_flatMap,← indices,List.map_map]
  rfl

theorem rowTablePasses {xs : Array Int32} {i : Nat} {x : Int32} (found : xs[i]? = some x) (test : Comparator)
    (y : Int32) : (rowTable xs).passes ⟨0,test,.int y⟩ (i,0) = test.holds (compare x.toInt y.toInt) := by
  have admits : Predicate.admits ⟨0,test,.int y⟩ (.int x) = test.holds (compare x.toInt y.toInt) :=
    Predicate.admitsConverted (t := .int) (x := y) rfl
  show ((rowTable xs).value i 0 0).toOption.any _ = _
  rw [rowTableValue found]
  exact admits

def rowAdmits (xs : Array Int32) (test : Comparator) (y : Int32) (i : Nat) : Bool :=
  xs[i]?.any fun x => test.holds (compare x.toInt y.toInt)

theorem rowBaseScan {xs : Array Int32} (reached : (rowBase xs).Reachable) (test : Comparator) (y : Int32) :
    ∃ after, (rowBase xs).scan 0 ⟨0,test,.int y⟩ = (.ok 1,after) ∧ after.table 0 = rowTable xs ∧
      after.table 1 = (rowTable xs).selection 0
        (((List.range xs.size).filter (rowAdmits xs test y)).map fun i => .ofPlace i 0).toArray := by
  have stored : ((rowBase xs).table 0).Stored := by
    intro c mem s inside
    obtain ⟨x,_,rfl⟩ := Array.mem_map.mp mem
    obtain rfl := Array.mem_singleton.mp inside
    rfl
  have short : ∀ c ∈ (rowTable xs).chunks, c.length < UInt32.size := by
    intro c mem
    obtain ⟨x,_,rfl⟩ := Array.mem_map.mp mem
    have one : (rowChunk x).length = 1 := rfl
    rw [one]
    decide
  have accepts : ((rowBase xs).table 0).Accepts ⟨0,test,.int y⟩ := ⟨⟨"a",.int⟩,y,rfl,rfl⟩
  obtain ⟨after,ran,same,made⟩ := scanFinds reached.consistent stored accepts
  refine ⟨after,ran,same,made.trans ?_⟩
  rw [passingPlaced (reached.consistent.tables 0) short stored accepts]
  have passes : ∀ i ∈ List.range xs.size, ((rowTable xs).passes ⟨0,test,.int y⟩ ∘ fun i => (i,0)) i =
      rowAdmits xs test y i := by
    intro i mem
    have found := Array.getElem?_eq_getElem (List.mem_range.mp mem)
    rw [Function.comp_apply,rowTablePasses found,rowAdmits,found]
    rfl
  show (rowTable xs).selection 0
    (((rowTable xs).places.filter ((rowTable xs).passes ⟨0,test,.int y⟩)).map _).toArray = _
  rw [rowTablePlaces,List.filter_map,List.filter_congr passes,List.map_map]
  rfl

theorem spreadFinds (n : Nat) :
    (∃ after, (spread n).scan 0 ⟨0,.equals,.int 2⟩ = (.ok 1,after) ∧ after.table 0 = (spread n).table 0 ∧
      after.table 1 = ((spread n).table 0).selection 0 #[.ofPlace (n+1) 0]) ∧
    ∃ after, (spread n).scan 0 ⟨0,.greaterOrEqual,.int 1⟩ = (.ok 1,after) ∧
      ∃ c ∈ (after.table 1).chunks, c.length = n+2 := by
  have reached : (spread n).Reachable := ⟨{},_,rfl⟩
  rw [spreadRows] at reached ⊢
  have size : ((Array.replicate (n+1) 1).push (2 : Int32)).size = n+2 := by simp
  have last : ((Array.replicate (n+1) 1).push 2)[n+1]? = some (2 : Int32) := by
    rw [Array.getElem?_push,if_pos (by simp)]
  have front : ∀ i ∈ List.range (n+1), ((Array.replicate (n+1) 1).push 2)[i]? = some (1 : Int32) := by
    intro i mem
    have before := List.mem_range.mp mem
    rw [Array.getElem?_push,if_neg (by simpa using Nat.ne_of_lt before),Array.getElem?_replicate,if_pos before]
  constructor
  · obtain ⟨after,ran,same,made⟩ := rowBaseScan reached .equals 2
    refine ⟨after,ran,same,made.trans ?_⟩
    have none : (List.range (n+1)).filter (rowAdmits ((Array.replicate (n+1) 1).push 2) .equals 2) = [] := by
      rw [List.filter_eq_nil_iff]
      intro i mem
      rw [rowAdmits,front i mem]
      decide
    rw [size,List.range_succ,List.filter_append,none,List.nil_append,List.filter_singleton,rowAdmits,last]
    rfl
  · obtain ⟨after,ran,_,made⟩ := rowBaseScan reached .greaterOrEqual 1
    refine ⟨after,ran,_,by rw [made]; exact Array.mem_singleton_self _,?_⟩
    have all : (List.range (n+2)).filter (rowAdmits ((Array.replicate (n+1) 1).push 2) .greaterOrEqual 1) =
        List.range (n+2) := by
      rw [List.filter_eq_self]
      intro i mem
      rw [List.range_succ,List.mem_append,List.mem_singleton] at mem
      rcases mem with before | rfl
      · rw [rowAdmits,front i before]
        decide
      · rw [rowAdmits,last]
        decide
    have wide : 0 < (rowTable ((Array.replicate (n+1) 1).push 2)).columns.size := Nat.zero_lt_one
    rw [Table.viewsChunkLength wide,size,all]
    simp

theorem addressesBeginAnew : ∃ db : Database, db.Reachable ∧ (db.table 0).chunks.size = 4294967297 ∧
    (∃ after, db.scan 0 ⟨0,.equals,.int 2⟩ = (.ok 1,after) ∧ (db.table 0).Selects 0 #[⟨0,0⟩] (after.table 1) ∧
      after.fetch 1 0 0 0 = .ok (.int 1)) ∧
    ∃ after, db.scan 0 ⟨0,.greaterOrEqual,.int 1⟩ = (.ok 1,after) ∧
      ∃ c ∈ (after.table 1).chunks, c.length = 4294967297 := by
  have reached : ∀ n, (spread n).Reachable := fun n => ⟨{},_,rfl⟩
  have counted : ∀ n, ((spread n).table 0).chunks.size = n+2 := by
    intro n
    rw [spreadRows]
    show ((((Array.replicate (n+1) 1).push 2).map rowChunk)).size = n+2
    simp
  have first : ∀ n, ((spread n).table 0).value 0 0 0 = .ok (.int 1) := by
    intro n
    rw [spreadRows]
    refine rowTableValue ?_
    rw [Array.getElem?_push,if_neg (by simp),Array.getElem?_replicate,if_pos (by omega)]
  have anew : RowId.ofPlace (4294967295+1) 0 = ⟨0,0⟩ := by decide
  obtain ⟨⟨after,ran,same,made⟩,wide⟩ := spreadFinds 4294967295
  rw [anew] at made
  have formed := (reached 4294967295).consistent.tables 0
  refine ⟨spread 4294967295,reached _,counted _,⟨after,ran,?_,?_⟩,wide⟩
  · rw [made]
    exact Table.selectionSelects formed 0 _
  · have found : ((spread 4294967295).table 0).columns[0]? = some ⟨"a",.int⟩ := by
      rw [spreadRows]
      rfl
    have listed : (#[⟨0,0⟩] : Array RowId)[0]? = some ⟨0,0⟩ := rfl
    rw [fetchSelection formed made found listed,same]
    exact first _

end Database
end ColumnStore
