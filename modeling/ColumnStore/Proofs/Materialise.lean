import ColumnStore.Proofs.Addressing
import ColumnStore.Proofs.Rows
/-! Encoding the rows of a scan's result takes the place of following its references. A scan that finds rows of the base
through the result, and the same scan of the result once it is encoded, select the same rows: the second by their
numbers in the result, the first by the addresses that stand there. -/
namespace ColumnStore

theorem filterPlaces {α : Type} (test : α → Bool) (xs : List α) :
    ((List.range xs.length).filter fun k => xs[k]?.any test).map (xs[·]?) = (xs.filter test).map some := by
  have each : (List.range xs.length).map (xs[·]?) = xs.map some := by
    apply List.ext_getElem
    · simp
    · intro k bound _
      have inside : k < xs.length := by simpa using bound
      simp [inside]
  have left : ((List.range xs.length).map (xs[·]?)).filter (Option.any test) =
      ((List.range xs.length).filter fun k => xs[k]?.any test).map (xs[·]?) := List.filter_map
  have right : (xs.map some).filter (Option.any test) = (xs.filter test).map some := List.filter_map
  rw [← left,each,right]

namespace Database
variable {db after : Database} {id base result : TableId} {p : Predicate}

section Encoding
variable {old new : Chunk}

theorem Recoded.reads (recoded : db.Recoded old new) {j k : Nat} {s : Segment} (segment : old.segments[j]? = some s)
    (few : s.length < UInt32.size) (inside : k < s.length) {v : Value} (read : db.read s k = .ok v)
    (typed : v.type = s.type) : ∃ s' w, new.segments[j]? = some s' ∧ s'.stored k = .ok w ∧ v.Alike w := by
  obtain ⟨elems,rows,made⟩ := recoded.encoded j s segment
  obtain ⟨size,each⟩ := elemsOk rows
  obtain ⟨x,row,value⟩ := each k inside
  obtain ⟨type,elem⟩ := v
  obtain rfl : type = s.type := typed
  rw [converted,read] at value
  cases Except.ok.inj ((Value.castSame elem).symm.trans value)
  obtain ⟨y,decoded,equal⟩ := Segment.encodedStored (by omega) row
  exact ⟨_,_,made,decoded,⟨Std.OrientedCmp.eq_symm equal⟩⟩

end Encoding

namespace ScanResult

theorem apart (made : ScanResult base db result) : result ≠ base := by
  have fresh : ∀ {db after : Database} {source result : TableId} {p : Predicate},
      db.scan source p = (.ok result,after) → base < db.slots.size → result ≠ base := by
    intro db after source result p ok live
    have told : (db.scan source p).1 = .ok result := by rw [ok]
    rw [scanReports] at told
    cases outcome : (db.share source).scanned source p with
    | error e =>
      rw [outcome] at told
      cases told
    | ok t =>
      rw [outcome] at told
      cases told
      exact Nat.ne_of_gt live
  induction made with
  | first reached stored ok => exact fresh ok (scanLive ok)
  | next earlier ok ih => exact fresh ok (sharedLive earlier.shared.2)
  | kept earlier op unmodified ih => exact ih

end ScanResult

/- A result of a scan and its encoding: one chunk whose row with a number is alike to the row of the base that the
result refers to under that number. -/
structure Encodes (db after : Database) (base result : TableId) (rows : List RowId) : Prop where
  ground : (after.table result).Base
  columns : (after.table result).columns = (db.table base).columns
  addresses : (after.table result).addresses = (List.range rows.length).map (RowId.ofPlace 0)
  values : ∀ (j k : Nat) (row : RowId), j < (db.table base).columns.size → rows[k]? = some row →
    ∃ v w, (db.table base).value row.chunk.toNat j row.offset.toNat = .ok v ∧
      (after.table result).value 0 j k = .ok w ∧ v.Alike w
  others : ∀ other, other ≠ result → after.table other = db.table other

theorem referredRead (ground : (db.table base).Base) {rows : List RowId}
    (inside : ∀ row ∈ rows, row ∈ (db.table base).addresses) {j k : Nat} {c : Column} {row : RowId}
    (found : (db.table base).columns[j]? = some c) (listed : rows[k]? = some row) :
    ∃ y, (db.table base).value row.chunk.toNat j row.offset.toNat = .ok ⟨c.type,y⟩ ∧
      db.read (.reference ⟨base,UInt16.ofNat j,c.type,rows.toArray⟩) k = .ok ⟨c.type,y⟩ := by
  obtain ⟨y,value⟩ := Table.valueTyped ground (inside row (List.mem_of_getElem? listed)) found
  have referred : db.valueAt ⟨base,UInt16.ofNat j,c.type,rows.toArray⟩ row =
      (db.table base).value row.chunk.toNat (UInt16.ofNat j).toNat row.offset.toNat := rfl
  rw [Table.columnNumber ground.formed found,value] at referred
  refine ⟨y,value,?_⟩
  simp only [Database.read,List.getElem?_toArray,listed,referred]

theorem referredElems (ground : (db.table base).Base) {rows : List RowId}
    (inside : ∀ row ∈ rows, row ∈ (db.table base).addresses) {s : Segment}
    (mem : s ∈ ((db.table base).views base rows.toArray).toArray.map Segment.reference) :
    ∃ elems, db.elems s s.type = .ok elems := by
  obtain ⟨view,listed,rfl⟩ := Array.mem_map.mp mem
  obtain ⟨j,at_⟩ := List.getElem?_of_mem (List.mem_toArray.mp listed)
  have bound : j < (db.table base).columns.size := by
    rw [← Table.viewsLength (db.table base) base rows.toArray]
    exact (List.getElem?_eq_some_iff.mp at_).1
  have found := Array.getElem?_eq_getElem bound
  cases Option.some.inj (at_.symm.trans (Table.viewAt found base rows.toArray))
  refine elemsReadable fun k within => ?_
  obtain ⟨y,_,read⟩ := referredRead ground inside found
    (List.getElem?_eq_getElem (show k < rows.length by simpa [Segment.length] using within))
  exact ⟨_,read,rfl⟩

theorem encodedResult (valid : db.Consistent) (ground : (db.table base).Base) (wide : 0 < (db.table base).columns.size)
    {rows : List RowId} (few : rows.length < UInt32.size)
    (made : db.table result = (db.table base).selection base rows.toArray)
    (inside : ∀ row ∈ rows, row ∈ (db.table base).addresses) :
    (db.compress result 0).1 = .ok () ∧ Encodes db (db.compress result 0).2 base result rows := by
  have formed := valid.tables result
  let old : Chunk := ⟨((db.table base).views base rows.toArray).toArray.map Segment.reference⟩
  have sole : (db.table result).chunks = #[old] := by rw [made]; rfl
  have place : (db.table result).chunks[0]? = some old := by rw [sole]; rfl
  have length : old.length = rows.length := Table.viewsChunkLength wide base rows.toArray
  have fits := formed.fits old (Array.mem_of_getElem? place)
  have segmentAt : ∀ (j : Nat) (c : Column), (db.table base).columns[j]? = some c →
      old.segments[j]? = some (.reference ⟨base,UInt16.ofNat j,c.type,rows.toArray⟩) := by
    intro j c found
    simp [old,Table.viewAt found]
  obtain ⟨new,recoded,ran⟩ := compressReadable formed place fun s mem => referredElems ground inside mem
  have live : result < db.slots.size := by
    refine columnLive (Array.getElem?_eq_getElem (i := 0) ?_)
    rw [made]
    exact wide
  have chunks : ((db.compress result 0).2.table result).chunks = #[new] := by
    rw [ran,tableModify live,Table.setChunk,sole]
    rfl
  have count : new.length = rows.length := by rw [recoded.length fits.even,length]
  refine ⟨by rw [ran],?_⟩
  constructor
  case ground =>
    refine ⟨(valid.compress result 0).tables result,?_,?_,?_⟩
    · intro c mem
      rw [chunks] at mem
      obtain rfl := Array.mem_singleton.mp mem
      exact recoded.stored
    · rw [chunks]
      exact Nat.one_le_of_lt (show 0 < UInt32.size by decide)
    · intro c mem
      rw [chunks] at mem
      obtain rfl := Array.mem_singleton.mp mem
      rw [count]
      exact few
  case columns =>
    rw [ran,tableModify live,made]
    rfl
  case addresses =>
    rw [Table.addresses,chunks,← count]
    exact List.append_nil _
  case values =>
    intro j k row bound listed
    have found := Array.getElem?_eq_getElem bound
    have within := (List.getElem?_eq_some_iff.mp listed).1
    obtain ⟨y,value,read⟩ := referredRead ground inside found listed
    obtain ⟨s,w,segment,stored,alike⟩ :=
      recoded.reads (segmentAt j _ found) (by simpa [Segment.length] using few) (by simpa [Segment.length] using within)
        read rfl
    refine ⟨_,w,value,?_,alike⟩
    rw [Table.valueStored (by rw [chunks]; rfl) segment,stored]
  case others =>
    intro other apart
    rw [ran]
    exact tableModifyOther db (Ne.symm apart) _

namespace Encodes
variable {rows : List RowId}

theorem found (encodes : Encodes db after base result rows) (few : rows.length < UInt32.size)
    (column : p.column.toNat < (db.table base).columns.size) :
    (((after.table result).addresses.filter ((after.table result).meets p)).map fun row => rows[row.offset.toNat]?) =
      (rows.filter ((db.table base).meets p)).map some := by
  have number : ∀ k ∈ List.range rows.length, (RowId.ofPlace 0 k).place = (0,k) := by
    intro k mem
    exact RowId.placeOfPlace (by decide) (Nat.lt_trans (List.mem_range.mp mem) few)
  have passes : ∀ k ∈ List.range rows.length, ((after.table result).meets p ∘ RowId.ofPlace 0) k =
      rows[k]?.any ((db.table base).meets p) := by
    intro k mem
    have listed := List.getElem?_eq_getElem (List.mem_range.mp mem)
    obtain ⟨v,w,left,right,alike⟩ := encodes.values _ k _ column listed
    show (after.table result).passes p (RowId.ofPlace 0 k).place = _
    rw [number k mem,listed]
    show ((after.table result).value 0 p.column.toNat k).toOption.any p.admits =
      ((db.table base).value _ p.column.toNat _).toOption.any p.admits
    rw [left,right]
    exact (Predicate.admitsAlike alike).symm
  rw [encodes.addresses,List.filter_map,List.filter_congr passes,List.map_map,← filterPlaces]
  apply List.map_congr_left
  intro k mem
  exact congrArg (rows[·]?) (congrArg Prod.snd (number k (List.mem_filter.mp mem).1))

theorem member (encodes : Encodes db after base result rows) (few : rows.length < UInt32.size) {row : RowId}
    (mem : row ∈ (after.table result).addresses) : row.chunk = 0 ∧ row.offset.toNat < rows.length := by
  rw [encodes.addresses] at mem
  obtain ⟨k,inside,rfl⟩ := List.mem_map.mp mem
  have within := List.mem_range.mp inside
  refine ⟨rfl,?_⟩
  rwa [RowId.ofPlace,UInt32.toNat_ofNat_of_lt' (Nat.lt_trans within few)]

theorem lines (encodes : Encodes db after base result rows) (few : rows.length < UInt32.size)
    (column : p.column.toNat < (db.table base).columns.size) :
    ∃ lines others,
      (rows.filter ((db.table base).meets p)).mapM (fun row => (db.table base).line row.place) = .ok lines ∧
      ((after.table result).addresses.filter ((after.table result).meets p)).mapM
        (fun row => (after.table result).line row.place) = .ok others ∧ SameRows lines others := by
  refine mapMRelated ?_
  have paired := List.forall₂_eq_eq_eq ▸ (encodes.found (p := p) few column)
  rw [List.forall₂_map_left_iff,List.forall₂_map_right_iff] at paired
  have placed := (List.forall₂_and_left ..).mpr ⟨fun _ mem => encodes.member few (List.mem_filter.mp mem).1,paired⟩
  refine placed.flip.imp ?_
  intro row number ⟨⟨chunk,_⟩,listed⟩
  refine Table.linesRelated (congrArg Array.size encodes.columns) ?_
  intro j bound
  obtain ⟨v,w,value,stored,alike⟩ := encodes.values j _ row bound listed
  have first : number.place.1 = 0 := by rw [RowId.place,chunk]; rfl
  refine ⟨v,w,value,?_,alike⟩
  rw [first]
  exact stored

end Encodes

theorem encodedScan (valid : db.Consistent) (ground : (db.table base).Base) {rows : List RowId}
    (few : rows.length < UInt32.size) (made : db.table result = (db.table base).selection base rows.toArray)
    (inside : ∀ row ∈ rows, row ∈ (db.table base).addresses) (apart : result ≠ base)
    (accepts : (db.table base).Accepts p) {direct : TableId} (other : direct ≠ result)
    (earlier : db.table direct = (db.table base).selection base (rows.filter ((db.table base).meets p)).toArray) :
    ∃ (encoded : Array RowId) (second : TableId) (compressed after : Database),
      db.compress result 0 = (.ok (),compressed) ∧ compressed.scan result p = (.ok second,after) ∧
      (compressed.table result).Selects result encoded (after.table second) ∧ (∀ row ∈ encoded, row.chunk = 0) ∧
      (encoded.toList.map fun row => rows[row.offset.toNat]?) = (rows.filter ((db.table base).meets p)).map some ∧
      ∃ lines others, after.rows direct = .ok lines ∧ after.rows second = .ok others ∧ SameRows lines others := by
  obtain ⟨c,x,found,converts⟩ := accepts
  have column := (Array.getElem?_eq_some_iff.mp found).1
  have wide := Nat.zero_lt_of_lt column
  obtain ⟨ok,encodes⟩ := encodedResult valid ground wide few made inside
  have size := (compressElsewhere valid result 0).1
  have ends : db.compress result 0 = (.ok (),(db.compress result 0).2) := Prod.ext ok rfl
  generalize (db.compress result 0).2 = compressed at ends encodes size
  have found' : (compressed.table result).columns[p.column.toNat]? = some c := by rw [encodes.columns,found]
  obtain ⟨after,ran,kept,covers⟩ := Covers.whole.scan encodes.ground found' converts
  have last := covers.selection (Nat.ne_of_gt (columnLive found'))
  have live : direct < db.slots.size := columnLive (by rw [earlier]; exact found)
  have baseKept : after.table base = db.table base := by
    rw [kept base (by rw [size]; exact columnLive found),encodes.others base (Ne.symm apart)]
  have resultKept := kept result (columnLive found')
  have directKept : after.table direct = (after.table base).selection base
      (rows.filter ((db.table base).meets p)).toArray := by
    rw [kept direct (by rw [size]; exact live),encodes.others direct other,earlier,baseKept]
  obtain ⟨lines,others,read,reread,alike⟩ := encodes.lines few column
  refine ⟨((compressed.table result).addresses.filter ((compressed.table result).meets p)).toArray,_,compressed,after,
    ends,ran,?_,?_,?_,lines,others,?_,?_,alike⟩
  · rw [last,resultKept]
    exact Table.selectionSelects encodes.ground.formed result _
  · intro row mem
    exact (encodes.member few (List.mem_filter.mp (List.mem_toArray.mp mem)).1).1
  · exact encodes.found few column
  · rw [rowsSelection (by rw [baseKept]; exact ground.formed) (by rwa [baseKept]) directKept,baseKept]
    exact read
  · rw [rowsSelection (by rw [resultKept]; exact encodes.ground.formed)
      (by rw [resultKept,encodes.columns]; exact wide) last,resultKept]
    exact reread

theorem materialisedSelects (made : ScanResult base db result) (chunks : (db.table base).chunks.size ≤ UInt32.size)
    (offsets : Made db base ∨ ∀ c ∈ (db.table base).chunks, c.length < UInt32.size)
    (few : (db.table result).rowCount < UInt32.size) (accepts : (db.table result).Accepts p) :
    ∃ (positions direct encoded : Array RowId) (first second : TableId) (scanned compressed after : Database),
      (db.table base).Selects base positions (db.table result) ∧
      db.scan result p = (.ok first,scanned) ∧ (db.table base).Selects base direct (scanned.table first) ∧
      scanned.compress result 0 = (.ok (),compressed) ∧
      compressed.scan result p = (.ok second,after) ∧
      (compressed.table result).Selects result encoded (after.table second) ∧
      (∀ row ∈ encoded, row.chunk = 0) ∧
      (encoded.toList.map fun row => positions[row.offset.toNat]?) = direct.toList.map some ∧
      ∃ rows others, after.rows first = .ok rows ∧ after.rows second = .ok others ∧ SameRows rows others := by
  have bounds : (db.table base).Addressable := by
    refine ⟨chunks,?_⟩
    rcases offsets with settings | short
    · exact settings.short
    · exact short
  obtain ⟨ground,rows,covers⟩ := made.covers bounds
  have apart := made.apart
  have selection := covers.selection apart
  obtain ⟨c,x,found,converts⟩ := accepts
  have live := columnLive found
  rw [selection] at found
  have wide : 0 < (db.table base).columns.size := Nat.zero_lt_of_lt (Array.getElem?_eq_some_iff.mp found).1
  have count : rows.length < UInt32.size := by
    rw [← Table.placesCount,selection,Table.selectionPlaces wide] at few
    simpa using few
  obtain ⟨scanned,ran,kept,direct⟩ := covers.scan ground found converts
  have first := direct.selection (Nat.ne_of_gt (columnLive found))
  have same := kept base (columnLive found)
  have valid : scanned.Consistent := by
    have next := made.shared.1.scan result p
    rwa [ran] at next
  obtain ⟨encoded,second,compressed,after,compress,again,selects,front,paired,reads⟩ :=
    encodedScan valid (by rwa [same]) count (by rw [kept result live,same,selection])
      (by rw [same]; exact covers.inside) apart ⟨c,x,by rw [same]; exact found,converts⟩ (Nat.ne_of_gt live)
      (by rw [first,same])
  rw [same] at first paired
  refine ⟨rows.toArray,(rows.filter ((db.table base).meets p)).toArray,encoded,_,second,scanned,compressed,after,
    ?_,ran,?_,compress,again,selects,front,?_,reads⟩
  · rw [selection]
    exact Table.selectionSelects ground.formed base _
  · rw [first]
    exact Table.selectionSelects ground.formed base _
  · simpa using paired

theorem materialisedSelectsMixed : ∃ (first second : TableId) (db scanned compressed after : Database),
    mixedChunks.scan 0 ⟨0,.lessThan,.int 3⟩ = (.ok mixedChunks.slots.size,db) ∧
    ScanResult 0 db mixedChunks.slots.size ∧
    db.scan mixedChunks.slots.size ⟨1,.notEquals,.string "a"⟩ = (.ok first,scanned) ∧
    scanned.compress mixedChunks.slots.size 0 = (.ok (),compressed) ∧
    compressed.scan mixedChunks.slots.size ⟨1,.notEquals,.string "a"⟩ = (.ok second,after) ∧
    ∃ rows others, after.rows first = .ok rows ∧ after.rows second = .ok others ∧ SameRows rows others := by
  have reached : mixedChunks.Reachable := ⟨{},_,rfl⟩
  have found : (mixedChunks.table 0).columns[(0 : ColumnId).toNat]? = some ⟨"id",.int⟩ := by decide +kernel
  have named : (mixedChunks.table 0).columns[(1 : ColumnId).toNat]? = some ⟨"name",.string⟩ := by decide +kernel
  have count : (mixedChunks.table 0).rowCount < UInt32.size := by decide +kernel
  obtain ⟨db,ran,kept,covers⟩ := Covers.whole.scan (p := ⟨0,.lessThan,.int 3⟩)
    ⟨reached.consistent.tables 0,mixedChunksStored,mixedChunksAddressable⟩ found rfl
  have same := kept 0 (columnLive found)
  have made := covers.selection (Nat.ne_of_gt (columnLive found))
  rw [same] at made
  have few : (db.table mixedChunks.slots.size).rowCount < UInt32.size := by
    rw [made,← Table.placesCount,Table.selectionPlaces (Nat.zero_lt_of_lt (Array.getElem?_eq_some_iff.mp found).1)]
    refine Nat.lt_of_le_of_lt ?_ count
    rw [← Table.placesCount]
    simpa [Table.addressesPlaces] using List.length_filter_le ((mixedChunks.table 0).meets ⟨0,.lessThan,.int 3⟩)
      (mixedChunks.table 0).addresses
  have result : ScanResult 0 db mixedChunks.slots.size := .first reached mixedChunksStored ran
  obtain ⟨_,_,_,first,second,scanned,compressed,after,_,direct,_,ends,again,_,_,_,rows⟩ :=
    materialisedSelects (p := ⟨1,.notEquals,.string "a"⟩) result (by rw [same]; exact mixedChunksAddressable.chunks)
      (.inr (by rw [same]; exact mixedChunksAddressable.rows)) few ⟨_,"a",by rw [made]; exact named,rfl⟩
  exact ⟨first,second,db,scanned,compressed,after,ran,result,direct,ends,again,rows⟩

end Database
end ColumnStore
