import ColumnStore.Scan
import ColumnStore.Proofs.Recode
/-! References and what they rest on: the table that a reference names is shared, has the column, and stores it in
every chunk. A reference is made only where that holds, and a scan makes nothing but such references. -/
namespace ColumnStore

def Table.StoredAt (t : Table) (column : Nat) : Prop :=
  ∀ c ∈ t.chunks, ∃ s, c.segments[column]? = some s ∧ s.isReference = false

def Table.Refers (t : Table) (view : Reference) : Prop := ∃ c ∈ t.chunks, Segment.reference view ∈ c.segments

def Table.RefersAt (t : Table) (i : Nat) (view : Reference) : Prop :=
  ∃ c, t.chunks[i]? = some c ∧ Segment.reference view ∈ c.segments

def Segment.view? : Segment → Option Reference
  | .reference view => some view
  | _ => none

theorem Segment.viewSome {s : Segment} {view : Reference} : s.view? = some view ↔ s = .reference view := by
  cases s <;> simp [view?]

namespace Table

theorem refersAll {t : Table} {P : Reference → Prop}
    (all : ∀ c ∈ t.chunks, ∀ s ∈ c.segments, ∀ view ∈ s.view?, P view) {view : Reference} (refers : t.Refers view) :
    P view := by
  obtain ⟨c,mem,inside⟩ := refers
  exact all c mem _ inside view rfl

theorem refersViews {t : Table} {view : Reference} :
    (∃ c ∈ t.chunks, ∃ s ∈ c.segments, s.view? = some view) ↔ t.Refers view := by
  simp only [Segment.viewSome,exists_eq_right,Refers]

instance {t : Table} {view : Reference} : Decidable (t.Refers view) := decidable_of_iff _ refersViews

theorem emptyRefers (types : Array DataType) (view : Reference) :
    Segment.reference view ∉ (Chunk.ofTypes types).segments := by
  intro mem
  obtain ⟨type,_,same⟩ := Array.mem_map.mp mem
  cases same

theorem ofConfigRefers (c : Config) (view : Reference) : ¬ (ofConfig c).Refers view := by
  intro ⟨chunk,mem,inside⟩
  have only : chunk = .empty := by simpa [ofConfig] using mem
  subst only
  simp [Chunk.empty] at inside

theorem ofReferencesRefers {columns : Array Column} {views : Array Reference} {view : Reference} :
    (ofReferences columns views).Refers view ↔ view ∈ views := by
  simp [Refers,ofReferences]

variable {t : Table} {view : Reference}

theorem refersPlace : t.Refers view ↔ ∃ i, t.RefersAt i view := by
  constructor
  · intro ⟨c,mem,inside⟩
    obtain ⟨i,found⟩ := Array.getElem?_of_mem mem
    exact ⟨i,c,found,inside⟩
  · intro ⟨i,c,found,inside⟩
    exact ⟨c,Array.mem_of_getElem? found,inside⟩

theorem refersOfPlaces {u : Table} (places : ∀ i, u.RefersAt i view → t.RefersAt i view) (refers : u.Refers view) :
    t.Refers view := by
  obtain ⟨i,place⟩ := refersPlace.mp refers
  exact refersPlace.mpr ⟨i,places i place⟩

variable {i : Nat}

theorem pushColumnRefers {c : Column} (refers : (t.pushColumn c).RefersAt i view) : t.RefersAt i view := by
  obtain ⟨chunk,found,inside⟩ := refers
  rw [pushColumn,Array.getElem?_map] at found
  obtain ⟨old,place,rfl⟩ := Option.map_eq_some_iff.mp found
  rcases Array.mem_push.mp inside with held | added
  · exact ⟨old,place,held⟩
  · cases added

theorem startChunkRefers (refers : t.startChunk.RefersAt i view) : t.RefersAt i view := by
  obtain ⟨chunk,found,inside⟩ := refers
  rw [startChunk,Array.getElem?_push] at found
  split at found
  · cases found
    exact absurd inside (emptyRefers t.types view)
  · exact ⟨chunk,found,inside⟩

theorem pushedRefers {old : Chunk} {row cells : List Value} (ok : old.cells row = .ok cells)
    (inside : Segment.reference view ∈ (old.push cells).segments) : Segment.reference view ∈ old.segments := by
  obtain ⟨s,among,v,w,_,same⟩ := Chunk.pushMember ok inside
  rwa [← Segment.pushReference same.symm]

theorem pushCellsRefers (valid : t.WellFormed) {row cells : List Value} (ok : t.cells row = .ok cells)
    (refers : (t.pushCells cells).RefersAt i view) : t.RefersAt i view := by
  obtain ⟨chunk,found,inside⟩ := refers
  cases room : t.hasRoom with
  | true =>
    obtain ⟨last,place,taken,_,grown⟩ := growLast valid room ok
    rw [grown,Array.getElem?_modify] at found
    split at found
    · rename_i same
      subst same
      rw [place] at found
      cases found
      exact ⟨last,place,pushedRefers taken inside⟩
    · exact ⟨chunk,found,inside⟩
  | false =>
    obtain ⟨taken,grown⟩ := growNew room ok
    rw [grown,Array.getElem?_push] at found
    split at found
    · cases found
      exact absurd (pushedRefers taken inside) (emptyRefers t.types view)
    · exact ⟨chunk,found,inside⟩

theorem setChunkRefers {j : Nat} {new : Chunk} (stored : ∀ s ∈ new.segments, s.isReference = false)
    (refers : (t.setChunk j new).RefersAt i view) : t.RefersAt i view := by
  obtain ⟨chunk,found,inside⟩ := refers
  rw [setChunk,Array.getElem?_setIfInBounds] at found
  split at found
  · split at found <;> cases found
    cases stored _ inside
  · exact ⟨chunk,found,inside⟩

theorem setChunkStoredAt {db : Database} {i column : Nat} {old new : Chunk} (found : t.chunks[i]? = some old)
    (recoded : db.Recoded old new) (stored : t.StoredAt column) : (t.setChunk i new).StoredAt column := by
  intro chunk mem
  rcases Array.mem_or_eq_of_mem_setIfInBounds mem with kept | rfl
  · exact stored chunk kept
  · obtain ⟨s,at_,_⟩ := stored old (Array.mem_of_getElem? found)
    obtain ⟨elems,_,made⟩ := recoded.encoded column s at_
    exact ⟨_,made,rfl⟩

end Table

namespace Database

structure Supports (db : Database) (view : Reference) : Prop where
  shared : db.isShared view.table = true
  column : ∃ c, (db.table view.table).columns[view.column.toNat]? = some c ∧ c.type = view.type
  stored : (db.table view.table).StoredAt view.column.toNat

theorem viewOk {db : Database} {id : TableId} {column : ColumnId} {rows : Array RowId} {view : Reference} :
    db.view id column rows = .ok view ↔ ∃ c, (db.table id).columns[column.toNat]? = some c ∧
      (db.table id).StoredAt column.toNat ∧ view = ⟨id,column,c.type,rows⟩ := by
  have each : ∀ c : Chunk, (do if (← c.segment column.toNat).isReference then throw (.notStored column.toNat) :
      Except Error Unit) = .ok () ↔ ∃ s, c.segments[column.toNat]? = some s ∧ s.isReference = false := by
    intro c
    rw [bindOk]
    constructor
    · intro ⟨s,found,kept⟩
      refine ⟨s,Chunk.segmentOk.mp found,?_⟩
      cases plain : s.isReference with
      | false => rfl
      | true => rw [plain] at kept; cases kept
    · intro ⟨s,found,plain⟩
      exact ⟨s,Chunk.segmentOk.mpr found,by rw [plain]; rfl⟩
  rw [Database.view,bindOk]
  constructor
  · intro ⟨c,found,rest⟩
    obtain ⟨_,checked,made⟩ := bindOk.mp rest
    cases made
    refine ⟨c,Table.columnOk.mp found,?_,rfl⟩
    intro chunk mem
    exact (each chunk).mp (forMOk.mp checked chunk (by simpa using mem))
  · intro given
    obtain ⟨c,found,stored,rfl⟩ := given
    refine ⟨c,Table.columnOk.mpr found,bindOk.mpr ⟨(),forMOk.mpr ?_,rfl⟩⟩
    intro chunk mem
    exact (each chunk).mpr (stored chunk (by simpa using mem))

theorem viewSupported {db : Database} {id : TableId} {column : ColumnId} {rows : Array RowId} {view : Reference}
    (shared : db.isShared id = true) (ok : db.view id column rows = .ok view) : db.Supports view := by
  obtain ⟨c,found,stored,rfl⟩ := viewOk.mp ok
  exact ⟨shared,⟨c,found,rfl⟩,stored⟩

end Database

namespace ScanSource

def Met (input : Table) : ScanSource → Prop
  | .unknown => True
  | .stored => True
  | .views table columns => ∃ c ∈ input.chunks, ∃ scanned, Segment.reference scanned ∈ c.segments ∧
      scanned.table = table ∧ alignedColumns c scanned = .ok columns

theorem alignedOk {c : Chunk} {scanned : Reference} {columns : List ColumnId}
    (ok : alignedColumns c scanned = .ok columns) :
    columns.length = c.segments.size ∧ ∀ (i : Nat) (s : Segment), c.segments[i]? = some s →
      ∃ view : Reference, s = .reference view ∧ view.table = scanned.table ∧ view.rows = scanned.rows ∧
        columns[i]? = some view.column := by
  refine ⟨by simpa using mapMLength ok,?_⟩
  intro i s found
  obtain ⟨column,read,value⟩ := mapMAt ok (by rw [Array.getElem?_toList]; exact found)
  cases s with
  | plain => cases value
  | encoded => cases value
  | reference view =>
    simp only at value
    split at value
    · rename_i same
      cases value
      exact ⟨view,rfl,same.1,same.2,read⟩
    · cases value

variable {input : Table} {source next : ScanSource}

theorem meetStoredMet (met : source.Met input) (ok : source.meetStored = .ok next) : next.Met input := by
  cases source with
  | unknown => cases ok; trivial
  | stored => cases ok; trivial
  | views => cases ok

theorem meetViewsMet {c : Chunk} {scanned : Reference} (met : source.Met input) (mem : c ∈ input.chunks)
    (inside : Segment.reference scanned ∈ c.segments) (ok : source.meetViews c scanned = .ok next) :
    next.Met input := by
  obtain ⟨columns,aligned,rest⟩ := bindOk.mp ok
  cases source with
  | unknown => cases rest; exact ⟨c,mem,scanned,inside,rfl,aligned⟩
  | stored => cases rest
  | views table seen =>
    simp only at rest
    split at rest
    · cases rest; exact met
    · cases rest

end ScanSource

namespace Database
variable {db : Database} {input : Table} {type : DataType} {p : Predicate}

theorem scanChunkMet {source next : ScanSource} {c : Chunk} {id : Nat} {rows : Array RowId}
    (met : source.Met input) (mem : c ∈ input.chunks) (ok : db.scanChunk type p source c id = .ok (next,rows)) :
    next.Met input := by
  obtain ⟨s,found,rest⟩ := bindOk.mp ok
  have inside := Array.mem_of_getElem? (Chunk.segmentOk.mp found)
  cases s with
  | plain own elems =>
    obtain ⟨_,meets,tail⟩ := bindOk.mp rest
    obtain ⟨_,_,last⟩ := bindOk.mp tail
    cases last
    exact ScanSource.meetStoredMet met meets
  | encoded own column =>
    obtain ⟨_,meets,tail⟩ := bindOk.mp rest
    obtain ⟨_,_,last⟩ := bindOk.mp tail
    cases last
    exact ScanSource.meetStoredMet met meets
  | reference view =>
    obtain ⟨_,meets,tail⟩ := bindOk.mp rest
    obtain ⟨_,_,tail⟩ := bindOk.mp tail
    obtain ⟨_,_,last⟩ := bindOk.mp tail
    cases last
    exact ScanSource.meetViewsMet met mem inside meets

theorem scanChunksMet {source : ScanSource} {rows : Array RowId}
    (ok : db.scanChunks type p input.chunks = .ok (source,rows)) : source.Met input := by
  rw [scanChunks,← Array.foldlM_toList] at ok
  refine foldlMKeeps (P := fun state : ScanSource × Array RowId => state.1.Met input) ?_ ?_ ok
  · intro ⟨source,rows⟩ ⟨c,i⟩ mem ⟨next,more⟩ met step
    have inside : c ∈ input.chunks := by
      rw [Array.toList_zipIdx] at mem
      exact Array.mem_toList_iff.mp (List.fst_mem_of_mem_zipIdx mem)
    obtain ⟨⟨after,found⟩,scanned,last⟩ := bindOk.mp step
    cases last
    exact scanChunkMet met inside scanned
  · trivial

def targets (input : Table) (id : TableId) : ScanSource → TableId × List ColumnId
  | .views table columns => (table,columns)
  | .unknown | .stored => (id,(List.range input.columns.size).map UInt16.ofNat)

theorem targetsOwn {id : TableId} {source : ScanSource} (unviewed : source.meetStored = .ok .stored) :
    targets input id source = (id,(List.range input.columns.size).map UInt16.ofNat) := by
  cases source with
  | views => cases unviewed
  | _ => rfl

theorem scannedOk {id : TableId} {t : Table} : db.scanned id p = .ok t ↔
    ∃ c x source rows views, (db.table id).columns[p.column.toNat]? = some c ∧ p.value.cast c.type = .ok x ∧
      db.scanChunks c.type p (db.table id).chunks = .ok (source,rows) ∧
      ((targets (db.table id) id source).2.mapM fun column =>
        db.view (targets (db.table id) id source).1 column rows) = .ok views ∧
      t = .ofReferences (db.table id).columns views.toArray := by
  rw [scanned,bindOk]
  constructor
  · intro ⟨c,found,rest⟩
    obtain ⟨_,converts,rest⟩ := bindOk.mp rest
    obtain ⟨⟨source,rows⟩,chunks,rest⟩ := bindOk.mp rest
    cases cast : p.value.cast c.type with
    | error e => rw [cast] at converts; cases converts
    | ok x =>
      cases source <;> obtain ⟨views,made,last⟩ := bindOk.mp rest <;> cases last <;>
        exact ⟨c,x,_,rows,views,Table.columnOk.mp found,cast,chunks,made,rfl⟩
  · intro given
    obtain ⟨c,x,source,rows,views,found,cast,chunks,made,rfl⟩ := given
    refine ⟨c,Table.columnOk.mpr found,bindOk.mpr ⟨(),by rw [cast]; rfl,?_⟩⟩
    refine bindOk.mpr ⟨(source,rows),chunks,?_⟩
    cases source <;> exact bindOk.mpr ⟨views,made,rfl⟩

end Database
end ColumnStore
