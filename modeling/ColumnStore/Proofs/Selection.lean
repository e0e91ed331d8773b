import ColumnStore.Proofs.References
import ColumnStore.Proofs.Sequence
/-! What a scan is meant to give: the rows of a table of stored segments that meet a predicate, in the order of their
addresses, as a table of one chunk whose columns refer to them. How the segments keep their elements plays no
part in it. -/
namespace ColumnStore

/- The address of a row by its place. It is the place again while both numbers fit. -/
def RowId.ofPlace (chunk offset : Nat) : RowId := ⟨UInt32.ofNat chunk,UInt32.ofNat offset⟩

def RowId.place (row : RowId) : Nat × Nat := (row.chunk.toNat,row.offset.toNat)

theorem RowId.placeOfPlace {chunk offset : Nat} (chunkFits : chunk < UInt32.size) (offsetFits : offset < UInt32.size) :
    (RowId.ofPlace chunk offset).place = (chunk,offset) := by
  rw [place,ofPlace,UInt32.toNat_ofNat_of_lt' chunkFits,UInt32.toNat_ofNat_of_lt' offsetFits]

theorem RowId.placeBelow (chunk offset : Nat) :
    (RowId.ofPlace chunk offset).place.1 ≤ chunk ∧ (RowId.ofPlace chunk offset).place.2 ≤ offset :=
  ⟨Nat.mod_le ..,Nat.mod_le ..⟩

theorem RowId.orderLess {a b : RowId} : a.order b = .lt ↔ a.chunk.toNat < b.chunk.toNat ∨
    a.chunk.toNat = b.chunk.toNat ∧ a.offset.toNat < b.offset.toNat := by
  simp only [order,Ordering.then_eq_lt,Nat.compare_eq_lt,Nat.compare_eq_eq]

def Predicate.admits (p : Predicate) (v : Value) : Bool :=
  (p.value.cast v.type).toOption.any fun x => p.comparator.holds (v.elem.order x)

namespace Predicate
variable {p : Predicate}

theorem admitsConverted {t : DataType} {x y : t.Elem} (converts : p.value.cast t = .ok x) :
    p.admits ⟨t,y⟩ = p.comparator.holds (y.order x) := by
  simp [admits,converts,Except.toOption]

theorem admitsAlike {v w : Value} (alike : v.Alike w) : p.admits v = p.admits w := by
  obtain ⟨equal⟩ := alike
  simp only [admits,Std.TransCmp.congr_left equal]

end Predicate

namespace Table

def Stored (t : Table) : Prop := ∀ c ∈ t.chunks, ∀ s ∈ c.segments, s.isReference = false

structure Addressable (t : Table) : Prop where
  chunks : t.chunks.size ≤ UInt32.size
  rows : ∀ c ∈ t.chunks, c.length < UInt32.size

structure Base (t : Table) : Prop where
  formed : t.WellFormed
  stored : t.Stored
  bounds : t.Addressable

def value (t : Table) (chunk column offset : Nat) : Except Error Value := do
  let c ← t.chunk chunk
  let s ← c.segment column
  s.stored offset

def meets (t : Table) (p : Predicate) (row : RowId) : Bool :=
  (t.value row.chunk.toNat p.column.toNat row.offset.toNat).toOption.any p.admits

def passes (t : Table) (p : Predicate) (place : Nat × Nat) : Bool :=
  (t.value place.1 p.column.toNat place.2).toOption.any p.admits

def places (t : Table) : List (Nat × Nat) :=
  t.chunks.toList.zipIdx.flatMap fun pair => (List.range pair.1.length).map (Prod.mk pair.2)

def addresses (t : Table) : List RowId :=
  t.chunks.toList.zipIdx.flatMap fun pair => (List.range pair.1.length).map (RowId.ofPlace pair.2)

def views (t : Table) (id : TableId) (rows : Array RowId) : List Reference :=
  t.columns.toList.mapIdx fun i c => ⟨id,UInt16.ofNat i,c.type,rows⟩

def selection (t : Table) (id : TableId) (rows : Array RowId) : Table where
  columns := t.columns
  chunks := #[⟨(t.views id rows).toArray.map Segment.reference⟩]
  maxChunkSize := max 1 rows.size
  parallelCompression := ({} : Config).parallelCompression

/- What makes a table such a selection: nothing else can be told from its segments. -/
structure Selects (t : Table) (id : TableId) (rows : Array RowId) (result : Table) : Prop where
  schema : result.columns = t.columns
  references : ∃ chunk, result.chunks = #[chunk] ∧ chunk.segments.size = t.columns.size ∧
    ∀ (i : Nat) (c : Column), t.columns[i]? = some c → ∃ column : ColumnId, column.toNat = i ∧
      chunk.segments[i]? = some (Segment.reference ⟨id,column,c.type,rows⟩)
  capacity : result.maxChunkSize = max 1 rows.size

def select (t : Table) (id : TableId) (among : List RowId) (p : Predicate) : Except Error Table := do
  let c ← t.column p.column.toNat
  discard <| p.value.cast c.type
  return t.selection id (among.filter (t.meets p)).toArray

variable {t : Table} {row : RowId}

theorem viewAt {i : Nat} {c : Column} (found : t.columns[i]? = some c) (id : TableId) (rows : Array RowId) :
    (t.views id rows)[i]? = some ⟨id,UInt16.ofNat i,c.type,rows⟩ := by
  simp [views,found]

theorem viewsLength (t : Table) (id : TableId) (rows : Array RowId) : (t.views id rows).length = t.columns.size := by
  simp [views]

theorem viewMember {id : TableId} {rows : Array RowId} {view : Reference} (mem : view ∈ t.views id rows) :
    view.table = id ∧ view.rows = rows := by
  obtain ⟨i,_,rfl⟩ := List.mem_mapIdx.mp mem
  exact ⟨rfl,rfl⟩

theorem viewsChunkLength (wide : 0 < t.columns.size) (id : TableId) (rows : Array RowId) :
    (⟨(t.views id rows).toArray.map Segment.reference⟩ : Chunk).length = rows.size := by
  refine Chunk.lengthOfEven ?_ (by simpa [viewsLength] using wide)
  intro s mem
  obtain ⟨view,inside,rfl⟩ := Array.mem_map.mp mem
  exact congrArg Array.size (viewMember (List.mem_toArray.mp inside)).2

theorem selectionPlaces (wide : 0 < t.columns.size) (id : TableId) (rows : Array RowId) :
    (t.selection id rows).places = (List.range rows.size).map (Prod.mk 0) := by
  rw [← viewsChunkLength wide id rows]
  exact List.append_nil _

theorem selectionSelects (formed : t.WellFormed) (id : TableId) (rows : Array RowId) :
    t.Selects id rows (t.selection id rows) := by
  constructor
  case schema => rfl
  case references =>
    refine ⟨_,rfl,by simp [viewsLength],?_⟩
    intro i c found
    exact ⟨UInt16.ofNat i,columnNumber formed found,by simp [viewAt found]⟩
  case capacity => rfl

theorem valueOk {i column offset : Nat} {v : Value} : t.value i column offset = .ok v ↔
    ∃ c s, t.chunks[i]? = some c ∧ c.segments[column]? = some s ∧ s.stored offset = .ok v := by
  rw [value,bindOk]
  constructor
  · intro ⟨c,chunk,rest⟩
    obtain ⟨s,segment,read⟩ := bindOk.mp rest
    exact ⟨c,s,chunkOk.mp chunk,Chunk.segmentOk.mp segment,read⟩
  · intro ⟨c,s,chunk,segment,read⟩
    exact ⟨c,chunkOk.mpr chunk,bindOk.mpr ⟨s,Chunk.segmentOk.mpr segment,read⟩⟩

theorem valueStored {i column : Nat} {c : Chunk} {s : Segment} (chunk : t.chunks[i]? = some c)
    (segment : c.segments[column]? = some s) (offset : Nat) : t.value i column offset = s.stored offset := by
  rw [value,chunkOk.mpr chunk]
  show (c.segment column >>= fun s => s.stored offset) = s.stored offset
  rw [Chunk.segmentOk.mpr segment]
  rfl

theorem addressesPlaces (t : Table) : t.addresses = t.places.map fun place => .ofPlace place.1 place.2 := by
  simp only [addresses,places,List.map_flatMap,List.map_map]
  rfl

theorem placesMember {i offset : Nat} : (i,offset) ∈ t.places ↔ ∃ c, t.chunks[i]? = some c ∧ offset < c.length := by
  simp only [places,List.mem_flatMap,List.mem_map,List.mem_range,Prod.exists,List.mem_zipIdx_iff_getElem?,
    Array.getElem?_toList]
  constructor
  · intro given
    obtain ⟨c,_,found,_,inside,rfl,rfl⟩ := by simpa only [Prod.mk.injEq] using given
    exact ⟨c,found,inside⟩
  · intro ⟨c,found,inside⟩
    exact ⟨c,i,found,offset,inside,rfl⟩

theorem rowCountSum (t : Table) : t.rowCount = (t.chunks.toList.map Chunk.length).sum := by
  rw [rowCount,← Array.foldr_toList,List.sum_eq_foldr,List.foldr_map]

theorem indexedLengths (t : Table) :
    (t.chunks.toList.zipIdx.map fun pair => pair.1.length) = t.chunks.toList.map Chunk.length := by
  rw [← congrArg (List.map Chunk.length) (List.zipIdx_map_fst 0 t.chunks.toList),List.map_map]
  rfl

theorem placesCount (t : Table) : t.places.length = t.rowCount := by
  rw [rowCountSum,← indexedLengths,places,List.length_flatMap]
  simp

theorem placeAddressed (bounds : t.Addressable) {place : Nat × Nat} (mem : place ∈ t.places) :
    (RowId.ofPlace place.1 place.2).place = place := by
  obtain ⟨c,found,inside⟩ := placesMember.mp mem
  exact RowId.placeOfPlace (Nat.lt_of_lt_of_le (Array.getElem?_eq_some_iff.mp found).1 bounds.chunks)
    (Nat.lt_trans inside (bounds.rows c (Array.mem_of_getElem? found)))

theorem addressesMember (bounds : t.Addressable) : row ∈ t.addresses ↔
    ∃ c, t.chunks[row.chunk.toNat]? = some c ∧ row.offset.toNat < c.length := by
  simp only [addresses,List.mem_flatMap,List.mem_map,List.mem_range,Prod.exists,List.mem_zipIdx_iff_getElem?,
    Array.getElem?_toList]
  constructor
  · intro given
    obtain ⟨c,i,found,offset,inside,rfl⟩ := given
    obtain ⟨among,_⟩ := Array.getElem?_eq_some_iff.mp found
    have chunk := UInt32.toNat_ofNat_of_lt' (Nat.lt_of_lt_of_le among bounds.chunks)
    have small := bounds.rows c (Array.mem_of_getElem? found)
    refine ⟨c,by rw [RowId.ofPlace,chunk,found],?_⟩
    rwa [RowId.ofPlace,UInt32.toNat_ofNat_of_lt' (by omega)]
  · intro ⟨c,found,inside⟩
    exact ⟨c,row.chunk.toNat,found,row.offset.toNat,inside,by simp [RowId.ofPlace]⟩

theorem addressesAscending (bounds : t.Addressable) : t.addresses.Pairwise fun a b => a.order b = .lt := by
  have small : ∀ {c : Chunk} {i : Nat}, t.chunks[i]? = some c → i < UInt32.size ∧ c.length < UInt32.size := by
    intro c i found
    obtain ⟨among,_⟩ := Array.getElem?_eq_some_iff.mp found
    exact ⟨Nat.lt_of_lt_of_le among bounds.chunks,bounds.rows c (Array.mem_of_getElem? found)⟩
  apply List.pairwise_flatMap.mpr
  constructor
  · intro ⟨c,i⟩ mem
    obtain ⟨_,rows⟩ := small (by simpa using List.mem_zipIdx_iff_getElem?.mp mem)
    rw [List.pairwise_map]
    refine List.pairwise_lt_range.imp_of_mem ?_
    intro a b _ inside less
    have last : b < c.length := List.mem_range.mp inside
    refine RowId.orderLess.mpr (.inr ⟨rfl,?_⟩)
    simp only [RowId.ofPlace]
    rwa [UInt32.toNat_ofNat_of_lt' (by omega),UInt32.toNat_ofNat_of_lt' (by omega)]
  · rw [List.pairwise_iff_getElem]
    intro i j boundI boundJ less a memA b memB
    simp only [List.getElem_zipIdx,List.mem_map] at memA memB
    obtain ⟨_,_,rfl⟩ := memA
    obtain ⟨_,_,rfl⟩ := memB
    have last : j < t.chunks.size := by simpa using boundJ
    have chunks := bounds.chunks
    refine RowId.orderLess.mpr (.inl ?_)
    simp only [RowId.ofPlace]
    rwa [UInt32.toNat_ofNat_of_lt' (by omega),UInt32.toNat_ofNat_of_lt' (by omega),
      Nat.zero_add,Nat.zero_add]

theorem selectOk {id : TableId} {among : List RowId} {p : Predicate} {r : Table} : t.select id among p = .ok r ↔
    ∃ c x, t.columns[p.column.toNat]? = some c ∧ p.value.cast c.type = .ok x ∧
      r = t.selection id (among.filter (t.meets p)).toArray := by
  rw [select,bindOk]
  constructor
  · intro ⟨c,found,rest⟩
    obtain ⟨_,converts,last⟩ := bindOk.mp rest
    cases last
    cases cast : p.value.cast c.type with
    | error e => rw [cast] at converts; cases converts
    | ok x => exact ⟨c,x,columnOk.mp found,cast,rfl⟩
  · intro given
    obtain ⟨c,x,found,cast,rfl⟩ := given
    exact ⟨c,columnOk.mpr found,bindOk.mpr ⟨(),by rw [cast]; rfl,rfl⟩⟩

end Table

def Database.fetch (db : Database) (id : TableId) (chunk column offset : Nat) : Except Error Value := do
  let c ← (db.table id).chunk chunk
  let s ← c.segment column
  db.read s offset

theorem Database.fetchSelection {db : Database} {t : Table} {id result : TableId} {rows : Array RowId}
    (formed : t.WellFormed) (made : db.table result = t.selection id rows) {j k : Nat} {c : Column} {row : RowId}
    (found : t.columns[j]? = some c) (listed : rows[k]? = some row) :
    db.fetch result 0 j k = (db.table id).value row.chunk.toNat j row.offset.toNat := by
  have chunk : (db.table result).chunk 0 = .ok ⟨(t.views id rows).toArray.map Segment.reference⟩ := by
    rw [made]
    rfl
  have segment : (⟨(t.views id rows).toArray.map Segment.reference⟩ : Chunk).segment j =
      .ok (.reference ⟨id,UInt16.ofNat j,c.type,rows⟩) :=
    Chunk.segmentOk.mpr (by simp [Table.viewAt found])
  have value : db.valueAt ⟨id,UInt16.ofNat j,c.type,rows⟩ row =
      (db.table id).value row.chunk.toNat (UInt16.ofNat j).toNat row.offset.toNat := rfl
  rw [Table.columnNumber formed found] at value
  simp only [fetch,chunk,bind,Except.bind,segment,read,listed,value]

end ColumnStore
