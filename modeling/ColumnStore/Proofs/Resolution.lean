import ColumnStore.Proofs.Agreement
import ColumnStore.Proofs.Transition
/-! References never dangle. Each reference that a table holds is to rows that exist, in a column that is stored, so
every row of every table can be read. That is checked once, when the reference is made; afterwards the table
referred to is shared, and compression alone can change it, which moves no row. -/
namespace ColumnStore

theorem rowsWhereMember {α : Type} {chunk : Nat} {xs : Array α} {test : α → Bool} {row : RowId}
    (mem : row ∈ rowsWhere chunk xs test) : ∃ offset, offset < xs.size ∧ row = .ofPlace chunk offset := by
  rw [rowsWhereFilter fun i => xs[i]?.any test] at mem
  · obtain ⟨offset,passes,rfl⟩ := List.mem_map.mp (List.mem_toArray.mp mem)
    exact ⟨offset,List.mem_range.mp (List.mem_filter.mp passes).1,rfl⟩
  · intro i x found
    simp [found]

theorem Dictionary.scanMember {t : DataType} {d : Dictionary t} {chunk : Nat} {c : Comparator} {x : t.Elem}
    {row : RowId} (mem : row ∈ d.scan chunk c x) : ∃ offset, offset < d.length ∧ row = .ofPlace chunk offset := by
  rw [Dictionary.scanClosed] at mem
  split at mem
  · simp at mem
  · exact rowsWhereMember mem

section Failures
variable {e : Error}

theorem CodeVector.getError {v : CodeVector} {i : Nat} (failed : v.get i = .error e) : e.kind = .outOfRange := by
  unfold get at failed
  split at failed <;> cases failed
  rfl

theorem Dictionary.entryError {t : DataType} {d : Dictionary t} {code : UInt32} (failed : d.entry code = .error e) :
    e.kind = .outOfRange := by
  unfold entry at failed
  split at failed <;> cases failed
  rfl

theorem Segment.storedError {s : Segment} (plain : s.isReference = false) {offset : Nat}
    (failed : s.stored offset = .error e) : e.kind = .outOfRange := by
  cases s with
  | plain type elems =>
    simp only [stored] at failed
    split at failed <;> cases failed
    rfl
  | encoded type column =>
    have decoding : column.get offset = .error e := by
      cases read : column.get offset with
      | error d => simpa [stored,read,Except.map] using failed
      | ok x => simp [stored,read,Except.map] at failed
    rcases bindError.mp decoding with code | ⟨code,_,entry⟩
    · exact CodeVector.getError code
    · exact Dictionary.entryError entry
  | reference => cases plain

theorem Table.chunkError {t : Table} {i : Nat} (failed : t.chunk i = .error e) : e.kind = .outOfRange := by
  unfold chunk at failed
  split at failed <;> cases failed
  rfl

theorem Table.valueError {t : Table} {column : Nat} (stored : t.StoredAt column) {i offset : Nat}
    (failed : t.value i column offset = .error e) : e.kind = .outOfRange := by
  rcases bindError.mp failed with missing | ⟨c,place,failed⟩
  · exact Table.chunkError missing
  · obtain ⟨s,at_,plain⟩ := stored c (Array.mem_of_getElem? (Table.chunkOk.mp place))
    rcases bindError.mp failed with missing | ⟨s',segment,failed⟩
    · rw [Chunk.segmentOk.mpr at_] at missing
      cases missing
    · cases Option.some.inj (at_.symm.trans (Chunk.segmentOk.mp segment))
      exact Segment.storedError plain failed

end Failures

namespace Table
variable {t u : Table} {row : RowId}

def HasRow (t : Table) (row : RowId) : Prop :=
  ∃ c, t.chunks[row.chunk.toNat]? = some c ∧ row.offset.toNat < c.length

theorem hasRowOfLengths (lengths : u.chunks.map Chunk.length = t.chunks.map Chunk.length) :
    u.HasRow row ↔ t.HasRow row := by
  have byLength : ∀ t : Table, t.HasRow row ↔
      ∃ n, (t.chunks.map Chunk.length)[row.chunk.toNat]? = some n ∧ row.offset.toNat < n := by
    intro t
    simp [HasRow]
  rw [byLength,byLength,lengths]

theorem placeHasRow (bounds : t.Addressable) {i offset : Nat} {c : Chunk} (place : t.chunks[i]? = some c)
    (inside : offset < c.length) : t.HasRow (.ofPlace i offset) := by
  obtain ⟨among,_⟩ := Array.getElem?_eq_some_iff.mp place
  have chunk := UInt32.toNat_ofNat_of_lt' (Nat.lt_of_lt_of_le among bounds.chunks)
  have small := bounds.rows c (Array.mem_of_getElem? place)
  refine ⟨c,by rw [RowId.ofPlace,chunk,place],?_⟩
  rwa [RowId.ofPlace,UInt32.toNat_ofNat_of_lt' (by omega)]

end Table

namespace ScanSource

def Finds (input : Table) (row : RowId) : ScanSource → Prop
  | .unknown => False
  | .stored => input.Addressable → input.HasRow row
  | .views table _ => ∃ view, input.Refers view ∧ view.table = table ∧ row ∈ view.rows

variable {source next : ScanSource} (input : Table) (row : RowId)

theorem meetStoredFinds (ok : source.meetStored = .ok next) : next = .stored ∧
    (source.Finds input row → next.Finds input row) := by
  cases source with
  | unknown => cases ok; exact ⟨rfl,False.elim⟩
  | stored => cases ok; exact ⟨rfl,fun finds => finds⟩
  | views => cases ok

theorem meetViewsFinds {c : Chunk} {scanned : Reference} (ok : source.meetViews c scanned = .ok next) :
    (∃ columns, next = .views scanned.table columns) ∧ (source.Finds input row → next.Finds input row) := by
  obtain ⟨columns,_,rest⟩ := bindOk.mp ok
  cases source with
  | unknown => cases rest; exact ⟨⟨_,rfl⟩,False.elim⟩
  | stored => cases rest
  | views table seen =>
    simp only at rest
    split at rest
    · rename_i same
      cases rest
      exact ⟨⟨_,by rw [same.1]⟩,fun finds => finds⟩
    · cases rest

end ScanSource

namespace Database
variable {db : Database} {input : Table} {type : DataType} {p : Predicate}

theorem scanChunkFinds (formed : input.WellFormed) {source next : ScanSource} {c : Chunk} {i : Nat} {rows : Array RowId}
    (place : input.chunks[i]? = some c) (ok : db.scanChunk type p source c i = .ok (next,rows)) (row : RowId) :
    (source.Finds input row → next.Finds input row) ∧ (row ∈ rows → next.Finds input row) := by
  obtain ⟨s,found,rest⟩ := bindOk.mp ok
  have among := Array.mem_of_getElem? place
  have inside := Array.mem_of_getElem? (Chunk.segmentOk.mp found)
  have even := (formed.fits c among).even s inside
  cases s with
  | plain own elems =>
    obtain ⟨_,meets,tail⟩ := bindOk.mp rest
    obtain ⟨x,_,last⟩ := bindOk.mp tail
    cases last
    obtain ⟨rfl,kept⟩ := ScanSource.meetStoredFinds input row meets
    refine ⟨kept,?_⟩
    intro mem bounds
    obtain ⟨offset,within,rfl⟩ := rowsWhereMember mem
    exact Table.placeHasRow bounds place (by rw [← even]; exact within)
  | encoded own column =>
    obtain ⟨_,meets,tail⟩ := bindOk.mp rest
    obtain ⟨x,_,last⟩ := bindOk.mp tail
    cases last
    obtain ⟨rfl,kept⟩ := ScanSource.meetStoredFinds input row meets
    refine ⟨kept,?_⟩
    intro mem bounds
    obtain ⟨offset,within,rfl⟩ := Dictionary.scanMember mem
    exact Table.placeHasRow bounds place (by rw [← even]; exact within)
  | reference view =>
    obtain ⟨_,meets,tail⟩ := bindOk.mp rest
    obtain ⟨_,_,tail⟩ := bindOk.mp tail
    obtain ⟨_,filtered,last⟩ := bindOk.mp tail
    cases last
    obtain ⟨⟨columns,rfl⟩,kept⟩ := ScanSource.meetViewsFinds input row meets
    refine ⟨kept,?_⟩
    intro mem
    -- Only rows of the references themselves are kept.
    rw [← Array.foldlM_toList] at filtered
    have subset : ∀ row ∈ rows, row ∈ view.rows := by
      refine foldlMKeeps (P := fun kept : Array RowId => ∀ row ∈ kept, row ∈ view.rows) ?_ (by simp) filtered
      intro kept row listed more within read
      obtain ⟨_,_,read⟩ := bindOk.mp read
      obtain ⟨y,_,read⟩ := bindOk.mp read
      cases read
      split
      · intro other mem
        rcases Array.mem_push.mp mem with before | rfl
        · exact within other before
        · exact Array.mem_toList_iff.mp listed
      · exact within
    exact ⟨view,⟨c,among,inside⟩,rfl,subset row mem⟩

theorem scanChunksFinds (formed : input.WellFormed) {source : ScanSource} {rows : Array RowId}
    (ok : db.scanChunks type p input.chunks = .ok (source,rows)) {row : RowId} (mem : row ∈ rows) :
    source.Finds input row := by
  rw [scanChunks,← Array.foldlM_toList] at ok
  refine foldlMKeeps (P := fun state : ScanSource × Array RowId => ∀ row ∈ state.2, state.1.Finds input row)
    ?_ (by simp) ok row mem
  rintro ⟨source,rows⟩ ⟨c,i⟩ listed ⟨next,more⟩ before run row mem
  have place : input.chunks[i]? = some c := by
    simpa [List.mem_zipIdx_iff_getElem?] using listed
  obtain ⟨⟨after,found⟩,scanned,last⟩ := bindOk.mp run
  cases last
  obtain ⟨kept,new⟩ := scanChunkFinds formed place scanned row
  rcases Array.mem_append.mp mem with old | added
  · exact kept (before row old)
  · exact new added

variable {id : TableId}

theorem scannedFinds (formed : (db.table id).WellFormed) {t : Table} (ok : db.scanned id p = .ok t) {view : Reference}
    (refers : t.Refers view) {row : RowId} (mem : row ∈ view.rows) :
    (view.table = id ∧ ((db.table id).Addressable → (db.table id).HasRow row)) ∨
      ∃ old, (db.table id).Refers old ∧ old.table = view.table ∧ row ∈ old.rows := by
  obtain ⟨_,_,source,rows,views,_,_,chunks,made,rfl⟩ := scannedOk.mp ok
  obtain ⟨_,_,viewed⟩ := mapMMember made (by simpa using Table.ofReferencesRefers.mp refers)
  obtain ⟨_,_,_,rfl⟩ := viewOk.mp viewed
  have finds := scanChunksFinds formed chunks mem
  cases source with
  | unknown => exact finds.elim
  | stored => exact .inl ⟨rfl,finds⟩
  | views table columns => exact .inr finds

/- No reference dangles while its table is small enough for all rows to have an address. -/
def Anchored (db : Database) : Prop := ∀ id view, (db.table id).Refers view → (db.table view.table).Addressable →
  ∀ row ∈ view.rows, (db.table view.table).HasRow row

theorem sharedLengths (valid : db.Consistent) (shared : db.isShared id = true) (op : Operation) :
    ((db.step op).table id).chunks.map Chunk.length = (db.table id).chunks.map Chunk.length := by
  rcases (stepKeeps valid shared op).2 with ⟨chunk,rfl⟩ | same
  · exact compressLengths valid id chunk
  · rw [same]

theorem stepAnchored (valid : db.Consistent) (anchored : db.Anchored) (op : Operation) : (db.step op).Anchored := by
  intro id view refers bounds row mem
  by_cases live : id < db.slots.size
  · have before := Table.refersOfPlaces (fun _ => (stepBecomes valid live op).refersAt (valid.tables id)) refers
    have lengths := sharedLengths valid (valid.views id view before).shared op
    rw [Table.hasRowOfLengths lengths]
    exact anchored id view before (Table.addressableOfLengths lengths.symm bounds) row mem
  · rcases stepFresh valid live op with ⟨config,made⟩ | ⟨source,p,rfl,ok⟩
    · rw [made] at refers
      exact absurd refers (Table.ofConfigRefers config view)
    · have formed := (valid.share source).tables source
      have found := scannedFinds formed ok refers mem
      rw [tableShare] at found
      rcases found with ⟨rfl,exists_⟩ | ⟨old,inside,same,among⟩
      · obtain ⟨c,_,_,_,_,column,_⟩ := scannedOk.mp ok
        have there := columnLive (by rwa [tableShare] at column)
        have kept : (db.step (.scan view.table p)).table view.table = db.table view.table := scanTable there ..
        rw [kept] at bounds ⊢
        exact exists_ bounds
      · rw [← same] at bounds ⊢
        have lengths := sharedLengths valid (valid.views source old inside).shared (.scan source p)
        rw [Table.hasRowOfLengths lengths]
        exact anchored source old inside (Table.addressableOfLengths lengths.symm bounds) row among

theorem Reachable.anchored (reached : db.Reachable) : db.Anchored := by
  refine reached.keeps ?_ fun reached anchored op => stepAnchored reached.consistent anchored op
  intro config id view refers
  exact absurd refers (Table.ofConfigRefers {} view)

structure Resolves (db : Database) (view : Reference) : Prop where
  column : ∃ c, (db.table view.table).columns[view.column.toNat]? = some c ∧ c.type = view.type
  stored : (db.table view.table).StoredAt view.column.toNat
  rows : ∀ row ∈ view.rows, (db.table view.table).HasRow row

structure Bounded (db : Database) (id : TableId) : Prop where
  own : (db.table id).Addressable
  targets : ∀ view, (db.table id).Refers view → (db.table view.table).Addressable

theorem boundedOnto (own : (db.table id).Addressable) (base : TableId)
    (onto : ∀ c ∈ (db.table id).chunks, ∀ s ∈ c.segments, ∀ view ∈ s.view?, view.table = base)
    (ground : (db.table base).Addressable) : db.Bounded id := by
  refine ⟨own,fun view refers => ?_⟩
  rw [Table.refersAll onto refers]
  exact ground

variable {view : Reference}

theorem resolved (reached : db.Reachable) (bounds : db.Bounded id) (refers : (db.table id).Refers view) :
    db.Resolves view := by
  obtain ⟨_,column,stored⟩ := reached.consistent.views id view refers
  exact ⟨column,stored,reached.anchored id view refers (bounds.targets view refers)⟩

theorem valueAtResolved (valid : db.Consistent) (resolves : db.Resolves view)
    (bounds : (db.table view.table).Addressable) {row : RowId} (mem : row ∈ view.rows) :
    ∃ y, db.valueAt view row = .ok ⟨view.type,y⟩ := by
  obtain ⟨⟨c,found,type⟩,stored,rows⟩ := resolves
  have listed := (Table.addressesMember bounds).mpr (rows row mem)
  obtain ⟨y,value⟩ := Table.storedValue (valid.tables view.table) bounds stored listed found
  rw [← type]
  exact ⟨y,value⟩

theorem readInside (reached : db.Reachable) (bounds : db.Bounded id) {chunk : Chunk} (place : chunk ∈ (db.table id).chunks)
    {s : Segment} (among : s ∈ chunk.segments) {offset : Nat} (inside : offset < s.length) :
    ∃ v, db.read s offset = .ok v ∧ v.type = s.type := by
  have valid := reached.consistent
  have fits := (valid.tables id).fits chunk place
  have few : s.length < UInt32.size := by
    rw [fits.even s among]
    exact bounds.own.rows chunk place
  cases s with
  | plain type elems =>
    obtain ⟨y,read⟩ := Segment.storedTyped (fits.sound _ among) rfl few rfl inside
    exact ⟨_,read,rfl⟩
  | encoded type column =>
    obtain ⟨y,read⟩ := Segment.storedTyped (fits.sound _ among) rfl few rfl inside
    exact ⟨_,read,rfl⟩
  | reference view =>
    have refers : (db.table id).Refers view := ⟨chunk,place,among⟩
    have row : view.rows[offset]? = some view.rows[offset] := Array.getElem?_eq_getElem inside
    obtain ⟨y,read⟩ := valueAtResolved valid (resolved reached bounds refers) (bounds.targets view refers)
      (Array.mem_of_getElem? row)
    refine ⟨⟨view.type,y⟩,?_,rfl⟩
    simp only [Database.read,row,read]

theorem readError (supports : db.Supports view) {offset : Nat} {e : Error}
    (failed : db.read (.reference view) offset = .error e) : e.kind = .outOfRange := by
  simp only [Database.read] at failed
  split at failed
  · rename_i row _
    have value : (db.table view.table).value row.chunk.toNat view.column.toNat row.offset.toNat = .error e := failed
    exact Table.valueError supports.stored value
  · cases failed
    rfl

theorem referSupported {column : ColumnId} {rows : Array RowId} (ok : (db.refer id column rows).1 = .ok view) :
    (db.refer id column rows).2.Supports view := by
  obtain ⟨c,found,stored,rfl⟩ := viewOk.mp ok
  have kept : (db.refer id column rows).2.table id = db.table id := tableShare db id id
  refine ⟨shareShares (columnLive found),⟨c,?_,rfl⟩,?_⟩
  · rw [kept]
    exact found
  · rw [kept]
    exact stored

theorem runSupports (valid : db.Consistent) (supports : db.Supports view) (ops : List Operation) :
    (db.run ops).Supports view := by
  induction ops generalizing db with
  | nil => exact supports
  | cons op rest ih => exact ih (stepConsistent valid op) (supports.carry (stepCarries valid op))

theorem referencesResolve (reached : db.Reachable) :
    (∀ id, db.Bounded id → (∀ view, (db.table id).Refers view → db.Resolves view) ∧
      ∀ chunk ∈ (db.table id).chunks, ∀ s ∈ chunk.segments, ∀ offset, offset < s.length →
        ∃ v, db.read s offset = .ok v ∧ v.type = s.type) ∧
    ∀ id column rows view, (db.refer id column rows).1 = .ok view → ∀ ops offset e,
      ((db.refer id column rows).2.run ops).read (.reference view) offset = .error e → e.kind = .outOfRange := by
  constructor
  · intro id bounds
    refine ⟨fun view => resolved reached bounds,?_⟩
    intro chunk place s among offset inside
    exact readInside reached bounds place among inside
  · intro id column rows view ok ops offset e failed
    have valid : (db.refer id column rows).2.Consistent := reached.consistent.share id
    exact readError (runSupports valid (referSupported ok) ops) failed

def keptResult : Database := run {} [.make { maxChunkSize := 2 },.addColumn 0 ⟨"id",.int⟩,.append 0 [.int 3],
  .append 0 [.int 1],.append 0 [.int 2],.scan 0 ⟨0,.lessThan,.int 3⟩,.compress 0 0,.append 1 [.int 4]]

theorem referencesResolveKept : keptResult.Reachable ∧ keptResult.Bounded 1 ∧
    keptResult.Resolves ⟨0,0,.int,#[⟨0,1⟩,⟨1,0⟩]⟩ ∧
    (∃ v, keptResult.read (.reference ⟨0,0,.int,#[⟨0,1⟩,⟨1,0⟩]⟩) 1 = .ok v ∧ v.type = .int) ∧
    ∃ e, ((keptResult.refer 0 0 #[⟨1,7⟩]).2.run [.compress 0 1]).read (.reference ⟨0,0,.int,#[⟨1,7⟩]⟩) 0 = .error e ∧
      e.kind = .outOfRange := by
  have reached : keptResult.Reachable := ⟨{},_,rfl⟩
  have bounds : keptResult.Bounded 1 :=
    boundedOnto ⟨by decide +kernel,by decide +kernel⟩ 0 (by decide +kernel) ⟨by decide +kernel,by decide +kernel⟩
  have refers : (keptResult.table 1).Refers ⟨0,0,.int,#[⟨0,1⟩,⟨1,0⟩]⟩ := by decide +kernel
  obtain ⟨held,later⟩ := referencesResolve reached
  obtain ⟨resolves,reads⟩ := held 1 bounds
  obtain ⟨chunk,mem,inside⟩ := refers
  have failed : ((keptResult.refer 0 0 #[⟨1,7⟩]).2.run [.compress 0 1]).read (.reference ⟨0,0,.int,#[⟨1,7⟩]⟩) 0 =
      .error (.outOfRange .codeVector 7 1) := by decide +kernel
  exact ⟨reached,bounds,resolves _ ⟨chunk,mem,inside⟩,reads chunk mem _ inside 1 (by decide),_,failed,
    later 0 0 #[⟨1,7⟩] _ (by decide +kernel) [.compress 0 1] 0 _ failed⟩

end Database
end ColumnStore
