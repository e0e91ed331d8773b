import ColumnStore.Proofs.Resolution
import ColumnStore.Proofs.ScanChain
/-! How a scan ends. Its column must be there, then its value must convert, then the table must be made of stored
segments throughout or of references throughout; each of the three has its own kind of error, and nothing else
fails. A table holds references in its first chunk alone, all of them to the same rows of one table, so those
that a scan meets always fit together. -/
namespace ColumnStore

theorem Value.castError {v : Value} {t : DataType} {e : Error} (failed : v.cast t = .error e) :
    e.kind = .typeMismatch := by
  have parsing : ∀ {α : Type} {text : String} {result : Option α}, parsed text t result = .error e →
      e.kind = .typeMismatch := by
    intro α text result failed
    unfold parsed at failed
    split at failed <;> cases failed
    rfl
  have mapped : ∀ {α β : Type} {f : α → β} {x : Except Error α}, x.map f = .error e → x = .error e := by
    intro α β f x failed
    cases x with
    | error d => simpa [Except.map] using failed
    | ok a => cases failed
  obtain ⟨own,x⟩ := v
  -- A number always converts.
  cases own with
  | string =>
    cases t with
    | int => exact parsing (mapped failed)
    | long => exact parsing (mapped failed)
    | float => exact parsing failed
    | double => exact parsing failed
    | string => cases failed
  | _ => cases t <;> cases failed

def Error.Uneven (e : Error) : Prop := e = .mixedColumn ∨ e = .unalignedColumns ∨ ∃ column, e = .notStored column

theorem Error.Uneven.kind {e : Error} (uneven : e.Uneven) : e.kind = .unsupported := by
  rcases uneven with rfl | rfl | ⟨column,rfl⟩ <;> rfl

namespace Table

def Referring (t : Table) : Prop := ∀ c ∈ t.chunks, ∀ s ∈ c.segments, s.isReference = true

def Rejects (t : Table) (p : Predicate) : Prop :=
  ∃ (c : Column) (e : Error), t.columns[p.column.toNat]? = some c ∧ p.value.cast c.type = .error e

theorem Rejects.present {t : Table} {p : Predicate} (rejects : t.Rejects p) : p.column.toNat < t.columns.size := by
  obtain ⟨c,_,found,_⟩ := rejects
  exact (Array.getElem?_eq_some_iff.mp found).1

theorem Accepts.present {t : Table} {p : Predicate} (accepts : t.Accepts p) :
    p.column.toNat < t.columns.size ∧ ¬ t.Rejects p := by
  obtain ⟨c,x,found,converts⟩ := accepts
  refine ⟨(Array.getElem?_eq_some_iff.mp found).1,?_⟩
  intro ⟨c',e,found',failed⟩
  cases Option.some.inj (found.symm.trans found')
  cases converts.symm.trans failed

inductive Verdict {α : Type} (t : Table) (p : Predicate) : Except Error α → Prop where
  | missing {e : Error} (outside : t.columns.size ≤ p.column.toNat) (kind : e.kind = .outOfRange) : Verdict t p (.error e)
  | rejected {e : Error} (rejects : t.Rejects p) (kind : e.kind = .typeMismatch) : Verdict t p (.error e)
  | mixed {e : Error} (accepts : t.Accepts p) (unstored : ¬ t.Stored) (mixed : ¬ t.Referring) (uneven : e.Uneven) :
      Verdict t p (.error e)
  | selected {a : α} (accepts : t.Accepts p) (uniform : t.Stored ∨ t.Referring) : Verdict t p (.ok a)

theorem Verdict.map {α β : Type} {t : Table} {p : Predicate} {outcome : Except Error α} (verdict : t.Verdict p outcome)
    (f : α → β) : t.Verdict p (outcome.map f) := by
  cases verdict with
  | missing outside kind => exact .missing outside kind
  | rejected rejects kind => exact .rejected rejects kind
  | mixed accepts unstored mixed uneven => exact .mixed accepts unstored mixed uneven
  | selected accepts uniform => exact .selected accepts uniform

/- References are in the first chunk alone, and all of them are to the same rows of one table. -/
structure OneView (t : Table) : Prop where
  first : ∀ i view, t.RefersAt i view → i = 0
  aligned : ∀ view other, t.Refers view → t.Refers other → view.table = other.table ∧ view.rows = other.rows

theorem noView {t : Table} (none : ∀ view, ¬ t.Refers view) : t.OneView := by
  constructor
  · intro i view refers
    exact absurd (refersPlace.mpr ⟨i,refers⟩) (none view)
  · intro view other refers
    exact absurd refers (none view)

theorem firstChunk {t : Table} (formed : t.WellFormed) : ∃ first rest, t.chunks.toList = first :: rest := by
  apply List.exists_cons_of_length_pos
  rw [Array.length_toList]
  exact formed.chunked

theorem chunkListed {t : Table} {first : Chunk} {rest : List Chunk} (listed : t.chunks.toList = first :: rest) (i : Nat) :
    t.chunks[i]? = (first :: rest)[i]? := by
  rw [← listed,Array.getElem?_toList]

theorem OneView.laterStored {t : Table} (one : t.OneView) {first : Chunk} {rest : List Chunk}
    (listed : t.chunks.toList = first :: rest) {chunk : Chunk} (mem : chunk ∈ rest) {s : Segment}
    (inside : s ∈ chunk.segments) : s.isReference = false := by
  obtain ⟨i,at_⟩ := List.getElem?_of_mem mem
  cases s with
  | reference view => cases one.first (i+1) view ⟨chunk,(chunkListed listed (i+1)).trans at_,inside⟩
  | _ => rfl

theorem OneView.soleChunk {t : Table} (one : t.OneView) (formed : t.WellFormed) (referring : t.Referring) {i : Nat}
    {c : Column} (found : t.columns[i]? = some c) : ∃ (chunk : Chunk) (view : Reference),
      t.chunks.toList = [chunk] ∧ chunk.segments[i]? = some (.reference view) ∧ view.type = c.type := by
  have viewAt : ∀ (j : Nat) (chunk : Chunk), t.chunks[j]? = some chunk →
      ∃ view : Reference, chunk.segments[i]? = some (.reference view) ∧ view.type = c.type := by
    intro j chunk place
    obtain ⟨s,at_,typed,_⟩ := segmentAt formed place found
    have held := referring chunk (Array.mem_of_getElem? place) s (Array.mem_of_getElem? at_)
    cases s with
    | reference view => exact ⟨view,at_,typed⟩
    | _ => cases held
  obtain ⟨first,rest,listed⟩ := firstChunk formed
  obtain ⟨view,at_,typed⟩ := viewAt 0 first (chunkListed listed 0)
  refine ⟨first,view,?_,at_,typed⟩
  cases rest with
  | nil => exact listed
  | cons second more =>
    obtain ⟨other,inside,_⟩ := viewAt 1 second (chunkListed listed 1)
    cases one.laterStored listed List.mem_cons_self (Array.mem_of_getElem? inside)

end Table

namespace Database
variable {db : Database} {id : TableId} {p : Predicate}

theorem scannedOneView {t : Table} (ok : db.scanned id p = .ok t) : t.OneView := by
  obtain ⟨_,_,source,rows,views,_,_,_,made,rfl⟩ := scannedOk.mp ok
  have each : ∀ view, (Table.ofReferences (db.table id).columns views.toArray).Refers view →
      view.table = (targets (db.table id) id source).1 ∧ view.rows = rows := by
    intro view refers
    obtain ⟨_,_,viewed⟩ := mapMMember made (by simpa using Table.ofReferencesRefers.mp refers)
    obtain ⟨_,_,_,rfl⟩ := viewOk.mp viewed
    exact ⟨rfl,rfl⟩
  constructor
  · intro i view ⟨c,found,_⟩
    obtain ⟨bound,_⟩ := Array.getElem?_eq_some_iff.mp found
    simpa [Table.ofReferences] using bound
  · intro view other refers refers'
    obtain ⟨table,rows⟩ := each view refers
    obtain ⟨table',rows'⟩ := each other refers'
    exact ⟨table.trans table'.symm,rows.trans rows'.symm⟩

theorem Reachable.oneView (reached : db.Reachable) : ∀ id, (db.table id).OneView := by
  refine reached.keeps (P := fun db => ∀ id, (db.table id).OneView) ?_ ?_
  · exact fun config id => Table.noView (Table.ofConfigRefers {})
  · intro db reached one op id
    have valid := reached.consistent
    by_cases live : id < db.slots.size
    · have before : ∀ i view, ((db.step op).table id).RefersAt i view → (db.table id).RefersAt i view :=
        fun i view => (stepBecomes valid live op).refersAt (valid.tables id)
      constructor
      · exact fun i view refers => (one id).first i view (before i view refers)
      · intro view other refers refers'
        exact (one id).aligned view other (Table.refersOfPlaces (before · view) refers)
          (Table.refersOfPlaces (before · other) refers')
    · rcases stepFresh valid live op with ⟨config,made⟩ | ⟨source,p,_,ok⟩
      · rw [made]
        exact Table.noView (Table.ofConfigRefers config)
      · exact scannedOneView ok

section Outcome
variable {c : Column}

theorem viewError {column : ColumnId} {rows : Array RowId} {e : Error} (formed : (db.table id).WellFormed)
    (found : (db.table id).columns[column.toNat]? = some c) (failed : db.view id column rows = .error e) :
    e.Uneven := by
  rcases bindError.mp failed with missing | ⟨_,_,failed⟩
  · rw [Table.columnOk.mpr found] at missing
    cases missing
  · rcases bindError.mp failed with refused | ⟨_,_,failed⟩
    · obtain ⟨chunk,mem,refused⟩ := forMFails refused
      obtain ⟨i,place⟩ := Array.getElem?_of_mem (Array.mem_toList_iff.mp mem)
      obtain ⟨s,at_,_⟩ := Table.segmentAt formed place found
      rcases bindError.mp refused with missing | ⟨_,_,refused⟩
      · rw [Chunk.segmentOk.mpr at_] at missing
        cases missing
      · split at refused <;> cases refused
        exact .inr (.inr ⟨_,rfl⟩)
    · cases failed

theorem viewsStored (formed : (db.table id).WellFormed) {rows : Array RowId} {views : List Reference}
    (made : (((List.range (db.table id).columns.size).map UInt16.ofNat).mapM fun column => db.view id column rows) =
      .ok views) : (db.table id).Stored := by
  intro chunk among s inside
  obtain ⟨i,bound,rfl⟩ := Array.getElem_of_mem inside
  have width := (formed.fits chunk among).width
  rw [Table.types,Array.size_map] at width
  have present : i < (db.table id).columns.size := by omega
  have listed : UInt16.ofNat i ∈ (List.range (db.table id).columns.size).map UInt16.ofNat :=
    List.mem_map_of_mem (List.mem_range.mpr present)
  obtain ⟨view,_,viewed⟩ := mapMImage made listed
  obtain ⟨_,_,all,_⟩ := viewOk.mp viewed
  obtain ⟨s',same,plain⟩ := all chunk among
  rw [Table.columnNumber formed (Array.getElem?_eq_getElem present),Array.getElem?_eq_getElem bound] at same
  cases same
  exact plain

theorem alignedError {chunk : Chunk} {scanned : Reference} {e : Error}
    (failed : ScanSource.alignedColumns chunk scanned = .error e) : e.Uneven := by
  obtain ⟨s,_,refused⟩ := mapMFails failed
  cases s with
  | reference view =>
    simp only at refused
    split at refused <;> cases refused
    exact .inr (.inl rfl)
  | _ => cases refused; exact .inr (.inl rfl)

theorem alignedReferring {chunk : Chunk} {scanned : Reference} (one : (db.table id).OneView)
    (place : chunk ∈ (db.table id).chunks) (inside : Segment.reference scanned ∈ chunk.segments)
    (referring : ∀ s ∈ chunk.segments, s.isReference = true) :
    ∃ columns, ScanSource.alignedColumns chunk scanned = .ok columns := by
  cases outcome : ScanSource.alignedColumns chunk scanned with
  | ok columns => exact ⟨columns,rfl⟩
  | error e =>
    obtain ⟨s,mem,refused⟩ := mapMFails outcome
    have among := Array.mem_toList_iff.mp mem
    cases s with
    | reference view =>
      have same := one.aligned view scanned ⟨chunk,place,among⟩ ⟨chunk,place,inside⟩
      simp only [if_pos same] at refused
      cases refused
    | _ => cases referring _ among

theorem alignedViews (valid : db.Consistent) {chunk : Chunk} (place : chunk ∈ (db.table id).chunks) {scanned : Reference}
    {columns : List ColumnId} (aligned : ScanSource.alignedColumns chunk scanned = .ok columns) (rows : Array RowId) :
    ∃ views, (columns.mapM fun column => db.view scanned.table column rows) = .ok views := by
  cases made : columns.mapM fun column => db.view scanned.table column rows with
  | ok views => exact ⟨views,rfl⟩
  | error e =>
    obtain ⟨column,mem,refused⟩ := mapMFails made
    obtain ⟨i,target⟩ := List.getElem?_of_mem mem
    obtain ⟨width,each⟩ := ScanSource.alignedOk aligned
    have bound : i < chunk.segments.size := by
      rw [← width]
      exact (List.getElem?_eq_some_iff.mp target).1
    have segment := Array.getElem?_eq_getElem bound
    obtain ⟨view,same,table,_,read⟩ := each i _ segment
    cases Option.some.inj (target.symm.trans read)
    obtain ⟨_,⟨c,found,_⟩,stored⟩ := valid.views id view ⟨chunk,place,same ▸ Array.mem_of_getElem? segment⟩
    rw [table] at found stored
    rw [viewOk.mpr ⟨c,found,stored,rfl⟩] at refused
    cases refused

theorem scanChunkViews (valid : db.Consistent) {chunk : Chunk} {view : Reference}
    (segment : chunk.segments[p.column.toNat]? = some (.reference view)) (resolves : db.Resolves view)
    (bounds : (db.table view.table).Addressable) {x : view.type.Elem} (converts : p.value.cast view.type = .ok x)
    {columns : List ColumnId} (aligned : ScanSource.alignedColumns chunk view = .ok columns) (i : Nat) :
    ∃ rows, db.scanChunk view.type p .unknown chunk i = .ok (.views view.table columns,rows) := by
  have each : ∀ kept : Array RowId, ∀ row ∈ view.rows.toList, ∃ next, (do
      let y ← (← db.valueAt view row).cast view.type
      return if p.comparator.holds (y.order x) then kept.push row else kept) = Except.ok next := by
    intro kept row mem
    obtain ⟨y,read⟩ := valueAtResolved valid resolves bounds (Array.mem_toList_iff.mp mem)
    simp only [read,bind,Except.bind,Value.castSame]
    exact ⟨_,rfl⟩
  obtain ⟨rows,kept⟩ := foldlMOk each #[]
  rw [Array.foldlM_toList] at kept
  refine ⟨rows,?_⟩
  simp only [scanChunk,Chunk.segmentOk.mpr segment,ScanSource.meetViews,aligned,converts,bind,Except.bind,pure,
    Except.pure] at kept ⊢
  rw [kept]

theorem scannedMissing (missing : (db.table id).columns[p.column.toNat]? = none) :
    ∃ e, db.scanned id p = .error e ∧ e.kind = .outOfRange := by
  refine ⟨.outOfRange .tableColumns p.column.toNat (db.table id).columns.size,?_,rfl⟩
  rw [scanned,Table.column,missing]
  rfl

variable (found : (db.table id).columns[p.column.toNat]? = some c)
include found

theorem scannedUnconverted {e : Error} (failed : p.value.cast c.type = .error e) : db.scanned id p = .error e := by
  rw [scanned,Table.columnOk.mpr found]
  show (discard (p.value.cast c.type) >>= _) = _
  rw [failed]
  rfl

theorem scannedRuns {x : c.type.Elem} (converts : p.value.cast c.type = .ok x) :
    db.scanned id p = (db.scanChunks c.type p (db.table id).chunks >>= fun state =>
      ((targets (db.table id) id state.1).2.mapM fun column =>
        db.view (targets (db.table id) id state.1).1 column state.2) >>= fun views =>
      .ok (.ofReferences (db.table id).columns views.toArray)) := by
  rw [scanned,Table.columnOk.mpr found]
  show (discard (p.value.cast c.type) >>= _) = _
  rw [converts]
  rfl

omit found

theorem scanChunksFirst {type : DataType} {chunks : Array Chunk} {first : Chunk} {rest : List Chunk}
    (listed : chunks.toList = first :: rest) : db.scanChunks type p chunks =
      (db.scanChunk type p .unknown first 0 >>= fun state => (rest.zipIdx 1).foldlM (fun state pair => do
        let (source,found) ← db.scanChunk type p state.1 pair.1 pair.2
        return (source,state.2 ++ found)) state) := by
  rw [scanChunks,← Array.foldlM_toList,Array.toList_zipIdx,listed,List.zipIdx_cons,List.foldlM_cons]
  cases db.scanChunk type p .unknown first 0 with
  | error e => rfl
  | ok state => simp [bind,Except.bind,pure,Except.pure]

include found

theorem scannedReferring (reached : db.Reachable) (bounds : db.Bounded id) (referring : (db.table id).Referring)
    {x : c.type.Elem} (converts : p.value.cast c.type = .ok x) : ∃ t, db.scanned id p = .ok t := by
  have valid := reached.consistent
  have one := reached.oneView id
  obtain ⟨chunk,view,listed,at_,typed⟩ := one.soleChunk (valid.tables id) referring found
  have among : chunk ∈ (db.table id).chunks := by
    rw [← Array.mem_toList_iff,listed]
    exact List.mem_singleton_self chunk
  have inside := Array.mem_of_getElem? at_
  have refers : (db.table id).Refers view := ⟨chunk,among,inside⟩
  obtain ⟨columns,aligned⟩ := alignedReferring one among inside (referring chunk among)
  obtain ⟨name,type⟩ := c
  obtain rfl : view.type = type := typed
  obtain ⟨rows,ran⟩ := scanChunkViews valid at_ (resolved reached bounds refers) (bounds.targets view refers) converts
    aligned 0
  obtain ⟨views,made⟩ := alignedViews valid among aligned rows
  rw [scannedRuns found converts,scanChunksFirst listed,ran]
  show ∃ t, ((columns.mapM fun column => db.view view.table column rows) >>= _) = .ok t
  rw [made]
  exact ⟨_,rfl⟩

theorem scannedUniform (reached : db.Reachable) (bounds : db.Bounded id)
    (uniform : (db.table id).Stored ∨ (db.table id).Referring) {x : c.type.Elem}
    (converts : p.value.cast c.type = .ok x) : ∃ t, db.scanned id p = .ok t := by
  rcases uniform with stored | referring
  · have ground : (db.table id).Base := ⟨reached.consistent.tables id,stored,bounds.own⟩
    exact ⟨_,(scannedStored ground p).trans (Table.selectOk.mpr ⟨c,x,found,converts,rfl⟩)⟩
  · exact scannedReferring found reached bounds referring converts

theorem scannedUnstored (reached : db.Reachable) (bounds : db.Bounded id) (mixed : ¬ (db.table id).Stored)
    (stored : (db.table id).StoredAt p.column.toNat) {x : c.type.Elem} (converts : p.value.cast c.type = .ok x) :
    ∃ e, db.scanned id p = .error e ∧ e.Uneven := by
  have formed := reached.consistent.tables id
  obtain ⟨source,unviewed,ran⟩ := scanChunksStored db formed bounds.own stored found converts
  rw [scannedRuns found converts,ran]
  simp only [bind,Except.bind,targetsOwn unviewed]
  cases made : ((List.range (db.table id).columns.size).map UInt16.ofNat).mapM fun column =>
      db.view id column ((db.table id).addresses.filter ((db.table id).meets p)).toArray with
  | error e =>
    refine ⟨e,rfl,?_⟩
    obtain ⟨column,mem,refused⟩ := mapMFails made
    obtain ⟨i,inside,rfl⟩ := List.mem_map.mp mem
    have at_ := Array.getElem?_eq_getElem (List.mem_range.mp inside)
    exact viewError formed (by rw [Table.columnNumber formed at_]; exact at_) refused
  | ok views => exact absurd (viewsStored formed made) mixed

theorem scannedUnaligned (reached : db.Reachable) (bounds : db.Bounded id) (mixed : ¬ (db.table id).Referring)
    {first : Chunk} {rest : List Chunk} (listed : (db.table id).chunks.toList = first :: rest) {view : Reference}
    (at_ : first.segments[p.column.toNat]? = some (.reference view)) (typed : view.type = c.type) {x : c.type.Elem}
    (converts : p.value.cast c.type = .ok x) : ∃ e, db.scanned id p = .error e ∧ e.Uneven := by
  have valid := reached.consistent
  have place := Table.chunkListed listed
  have refers : (db.table id).Refers view := ⟨first,Array.mem_of_getElem? (place 0),Array.mem_of_getElem? at_⟩
  rw [scannedRuns found converts,scanChunksFirst listed]
  cases aligned : ScanSource.alignedColumns first view with
  | error e =>
    have refused : db.scanChunk c.type p .unknown first 0 = .error e := by
      simp only [scanChunk,Chunk.segmentOk.mpr at_,ScanSource.meetViews,aligned,bind,Except.bind]
    rw [refused]
    exact ⟨e,rfl,alignedError aligned⟩
  | ok columns =>
    obtain ⟨name,type⟩ := c
    obtain rfl : view.type = type := typed
    obtain ⟨rows,ran⟩ := scanChunkViews valid at_ (resolved reached bounds refers) (bounds.targets view refers) converts
      aligned 0
    cases rest with
    | nil =>
      refine absurd ?_ mixed
      intro chunk mem s among
      rw [← Array.mem_toList_iff,listed] at mem
      obtain rfl := List.mem_singleton.mp mem
      obtain ⟨i,segment⟩ := Array.getElem?_of_mem among
      obtain ⟨_,rfl,_⟩ := (ScanSource.alignedOk aligned).2 i s segment
      rfl
    | cons second more =>
      obtain ⟨s,segment,_⟩ := Table.segmentAt (valid.tables id) (place 1) found
      have plain := (reached.oneView id).laterStored listed List.mem_cons_self (Array.mem_of_getElem? segment)
      have refused : db.scanChunk view.type p (.views view.table columns) second 1 = .error .mixedColumn := by
        cases s with
        | reference => cases plain
        | _ => simp only [scanChunk,Chunk.segmentOk.mpr segment,ScanSource.meetStored,bind,Except.bind]
      refine ⟨.mixedColumn,?_,.inl rfl⟩
      rw [ran]
      simp only [bind,Except.bind,List.zipIdx_cons,List.foldlM_cons,refused]

theorem scannedMixed (reached : db.Reachable) (bounds : db.Bounded id) (unstored : ¬ (db.table id).Stored)
    (mixed : ¬ (db.table id).Referring) {x : c.type.Elem} (converts : p.value.cast c.type = .ok x) :
    ∃ e, db.scanned id p = .error e ∧ e.Uneven := by
  have formed := reached.consistent.tables id
  obtain ⟨first,rest,listed⟩ := Table.firstChunk formed
  obtain ⟨s,at_,typed,_⟩ := Table.segmentAt formed (Table.chunkListed listed 0) found
  cases held : s.isReference with
  | true =>
    cases s with
    | reference view => exact scannedUnaligned found reached bounds mixed listed at_ typed converts
    | _ => cases held
  | false =>
    refine scannedUnstored found reached bounds unstored ?_ converts
    intro chunk mem
    obtain ⟨i,place⟩ := Array.getElem?_of_mem mem
    obtain ⟨s',segment,_⟩ := Table.segmentAt formed place found
    refine ⟨s',segment,?_⟩
    rw [← Array.mem_toList_iff,listed] at mem
    rcases List.mem_cons.mp mem with rfl | after
    · cases Option.some.inj (at_.symm.trans segment)
      exact held
    · exact (reached.oneView id).laterStored listed after (Array.mem_of_getElem? segment)

end Outcome

theorem scannedVerdict (reached : db.Reachable) (bounds : db.Bounded id) (p : Predicate) :
    (db.table id).Verdict p (db.scanned id p) := by
  cases found : (db.table id).columns[p.column.toNat]? with
  | none =>
    obtain ⟨e,failed,kind⟩ := scannedMissing found
    rw [failed]
    exact .missing (Array.getElem?_eq_none_iff.mp found) kind
  | some c =>
    cases converts : p.value.cast c.type with
    | error e =>
      rw [scannedUnconverted found converts]
      exact .rejected ⟨c,e,found,converts⟩ (Value.castError converts)
    | ok x =>
      have accepts : (db.table id).Accepts p := ⟨c,x,found,converts⟩
      by_cases uniform : (db.table id).Stored ∨ (db.table id).Referring
      · obtain ⟨t,ran⟩ := scannedUniform found reached bounds uniform converts
        rw [ran]
        exact .selected accepts uniform
      · obtain ⟨unstored,mixed⟩ := not_or.mp uniform
        obtain ⟨e,failed,uneven⟩ := scannedMixed found reached bounds unstored mixed converts
        rw [failed]
        exact .mixed accepts unstored mixed uneven

theorem scanReports (db : Database) (id : TableId) (p : Predicate) :
    (db.scan id p).1 = ((db.share id).scanned id p).map fun _ => db.slots.size := by
  have size : (db.share id).slots.size = db.slots.size := Array.size_modify
  unfold scan
  dsimp only
  cases (db.share id).scanned id p with
  | error e => rfl
  | ok t => exact congrArg Except.ok size

theorem scanVerdict (reached : db.Reachable) (bounds : db.Bounded id) (p : Predicate) :
    (db.table id).Verdict p (db.scan id p).1 := by
  have same := tableShare db id
  have bounds : (db.share id).Bounded id := by
    constructor
    · rw [same]
      exact bounds.own
    · intro view
      rw [same,same]
      exact bounds.targets view
  have verdict := scannedVerdict (reached.step (.hold id)) bounds p
  rw [scanReports,← same id]
  exact verdict.map _

structure Ends (db : Database) (id : TableId) (p : Predicate) : Prop where
  outOfRange : (∃ e, (db.scan id p).1 = .error e ∧ e.kind = .outOfRange) ↔
    (db.table id).columns.size ≤ p.column.toNat
  typeMismatch : (∃ e, (db.scan id p).1 = .error e ∧ e.kind = .typeMismatch) ↔ (db.table id).Rejects p
  unsupported : (∃ e, (db.scan id p).1 = .error e ∧ e.kind = .unsupported) ↔
    (db.table id).Accepts p ∧ ¬ (db.table id).Stored ∧ ¬ (db.table id).Referring
  selected : (∃ result, (db.scan id p).1 = .ok result) ↔
    (db.table id).Accepts p ∧ ((db.table id).Stored ∨ (db.table id).Referring)
  only : ∀ e, (db.scan id p).1 = .error e → e.kind = .outOfRange ∨ e.kind = .typeMismatch ∨ e.Uneven

theorem scanEnds (reached : db.Reachable) (bounds : db.Bounded id) (p : Predicate) : db.Ends id p := by
  have verdict := scanVerdict reached bounds p
  generalize outcome : (db.scan id p).1 = result at verdict
  cases verdict with
  | missing outside kind =>
    have unaccepted : ¬ (db.table id).Accepts p := fun accepts => Nat.not_lt.mpr outside accepts.present.1
    have unrejected : ¬ (db.table id).Rejects p := fun rejects => Nat.not_lt.mpr outside rejects.present
    constructor <;> simp [outcome,kind,outside,unaccepted,unrejected]
  | rejected rejects kind =>
    have unaccepted : ¬ (db.table id).Accepts p := fun accepts => accepts.present.2 rejects
    constructor <;> simp [outcome,kind,rejects,rejects.present,unaccepted]
  | mixed accepts unstored mixed uneven =>
    obtain ⟨inside,unrejected⟩ := accepts.present
    constructor <;> simp [outcome,uneven,uneven.kind,accepts,unstored,mixed,inside,unrejected]
  | selected accepts uniform =>
    obtain ⟨inside,unrejected⟩ := accepts.present
    constructor <;> simp [outcome,accepts,uniform,inside,unrejected]
    exact uniform.resolve_left

def raggedResult : Database := run {} [.make {},.addColumn 0 ⟨"id",.int⟩,.append 0 [.int 3],
  .scan 0 ⟨0,.lessThan,.int 3⟩,.scan 0 ⟨0,.lessThan,.int 3⟩,.addColumn 1 ⟨"name",.string⟩]

theorem scanEndsRagged : raggedResult.Reachable ∧ raggedResult.Bounded 1 ∧
    (∃ e, (raggedResult.scan 1 ⟨1,.equals,.string "c"⟩).1 = .error e ∧ e.kind = .unsupported) ∧
    (raggedResult.scan 1 ⟨1,.equals,.string "c"⟩).1 = .error (.notStored 0) ∧
    (raggedResult.scan 1 ⟨0,.equals,.int 3⟩).1 = .error .unalignedColumns ∧
    raggedResult.Bounded 2 ∧ ∃ result, (raggedResult.scan 2 ⟨0,.equals,.int 3⟩).1 = .ok result := by
  have reached : raggedResult.Reachable := ⟨{},_,rfl⟩
  have ground : (raggedResult.table 0).Addressable := ⟨by decide +kernel,by decide +kernel⟩
  have one : raggedResult.Bounded 1 := boundedOnto ⟨by decide +kernel,by decide +kernel⟩ 0 (by decide +kernel) ground
  have two : raggedResult.Bounded 2 := boundedOnto ⟨by decide +kernel,by decide +kernel⟩ 0 (by decide +kernel) ground
  have accepts : (raggedResult.table 1).Accepts ⟨1,.equals,.string "c"⟩ :=
    ⟨⟨"name",.string⟩,"c",by decide +kernel,rfl⟩
  have unstored : ¬ (raggedResult.table 1).Stored := by
    unfold Table.Stored
    decide +kernel
  have mixed : ¬ (raggedResult.table 1).Referring := by
    unfold Table.Referring
    decide +kernel
  have referring : (raggedResult.table 2).Referring := by
    unfold Table.Referring
    decide +kernel
  exact ⟨reached,one,(scanEnds reached one _).unsupported.mpr ⟨accepts,unstored,mixed⟩,by decide +kernel,
    by decide +kernel,two,(scanEnds reached two _).selected.mpr
      ⟨⟨⟨"id",.int⟩,(3 : Int32),by decide +kernel,rfl⟩,.inr referring⟩⟩

end Database
end ColumnStore
