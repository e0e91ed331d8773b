import ColumnStore.Query
import ColumnStore.Proofs.Agreement
/-! Scans of results of scans. The references of a result are to the table that holds the elements, so a scan of
them gives references to that table again, and a chain of scans selects the rows that meet all of its
predicates, in whatever order they come. -/
namespace ColumnStore
namespace Database
variable {db : Database} {id : TableId} {p : Predicate}

theorem viewsColumns (t : Table) (id : TableId) (rows : Array RowId) :
    (t.views id rows).map Reference.column = (List.range t.columns.size).map UInt16.ofNat := by
  apply List.ext_getElem?
  intro i
  cases found : t.columns[i]? with
  | none =>
    have outside := Array.getElem?_eq_none_iff.mp found
    simp [Table.views,outside]
  | some c =>
    obtain ⟨bound,_⟩ := Array.getElem?_eq_some_iff.mp found
    rw [List.getElem?_map,List.getElem?_map,Table.viewAt found,List.getElem?_range bound]
    rfl

theorem viewsAligned (t : Table) {id : TableId} {rows : Array RowId} (scanned : Reference)
    (table : scanned.table = id) (same : scanned.rows = rows) :
    ScanSource.alignedColumns ⟨(t.views id rows).toArray.map Segment.reference⟩ scanned =
      .ok ((t.views id rows).map Reference.column) := by
  rw [ScanSource.alignedColumns,mapMOk,Array.toList_map,List.map_map,List.map_map]
  apply List.map_congr_left
  intro view mem
  obtain ⟨left,right⟩ := Table.viewMember mem
  exact if_pos ⟨left.trans table.symm,right.trans same.symm⟩

theorem filterReferred (ground : (db.table id).Base) {c : Column}
    (found : (db.table id).columns[p.column.toNat]? = some c) {x : c.type.Elem}
    (converts : p.value.cast c.type = .ok x) {rows : List RowId}
    (inside : ∀ row ∈ rows, row ∈ (db.table id).addresses) (view : Reference) (table : view.table = id)
    (column : view.column = p.column) :
    rows.toArray.foldlM (fun kept row => do
      let y ← (← db.valueAt view row).cast c.type
      return if p.comparator.holds (y.order x) then kept.push row else kept) #[] =
      .ok (rows.filter ((db.table id).meets p)).toArray := by
  have each : ∀ kept : Array RowId, ∀ row ∈ rows, (do
      let y ← (← db.valueAt view row).cast c.type
      return if p.comparator.holds (y.order x) then kept.push row else kept) =
      Except.ok (if (db.table id).meets p row then kept.push row else kept) := by
    intro kept row mem
    obtain ⟨y,value⟩ := Table.valueTyped ground (inside row mem) found
    have read : db.valueAt view row = .ok ⟨c.type,y⟩ := by
      rw [← value,← column,← table]
      rfl
    have meets : (db.table id).meets p row = p.comparator.holds (y.order x) := by
      simp [Table.meets,value,Except.toOption,Predicate.admitsConverted converts]
    simp only [read,bind,Except.bind,Value.castSame,meets]
    rfl
  rw [← Array.foldlM_toList]
  exact (foldlMFilter each #[]).trans (by simp)

theorem scanChunksSelection (ground : (db.table id).Base) {c : Column}
    (found : (db.table id).columns[p.column.toNat]? = some c) {x : c.type.Elem}
    (converts : p.value.cast c.type = .ok x) {rows : List RowId}
    (inside : ∀ row ∈ rows, row ∈ (db.table id).addresses) :
    db.scanChunks c.type p ((db.table id).selection id rows.toArray).chunks =
      .ok (.views id (((db.table id).views id rows.toArray).map Reference.column),
        (rows.filter ((db.table id).meets p)).toArray) := by
  let chunk : Chunk := ⟨((db.table id).views id rows.toArray).toArray.map Segment.reference⟩
  let view : Reference := ⟨id,p.column,c.type,rows.toArray⟩
  have segment : chunk.segment p.column.toNat = .ok (.reference view) := by
    refine Chunk.segmentOk.mpr ?_
    simp [chunk,view,Table.viewAt found]
  have aligned := viewsAligned (db.table id) view rfl rfl
  have kept := filterReferred ground found converts inside view rfl rfl
  have scan : db.scanChunk c.type p .unknown chunk 0 =
      .ok (.views id (((db.table id).views id rows.toArray).map Reference.column),
        (rows.filter ((db.table id).meets p)).toArray) := by
    simp only [scanChunk,segment,ScanSource.meetViews,aligned,chunk,view,converts,bind,Except.bind,pure,
      Except.pure] at kept ⊢
    rw [kept]
  show db.scanChunks c.type p #[chunk] = _
  simp [scanChunks,scan]

theorem scannedView {result base : TableId} {rows : List RowId}
    (made : db.table result = (db.table base).selection base rows.toArray) (ground : (db.table base).Base)
    (inside : ∀ row ∈ rows, row ∈ (db.table base).addresses) (p : Predicate) :
    db.scanned result p = (db.table base).select base rows p := by
  refine scannedSelects (by rw [made]; rfl) ?_
  intro c x found converts
  have chunks := scanChunksSelection ground found converts inside
  rw [← made] at chunks
  refine scannedOk.mpr ⟨c,x,_,_,(db.table base).views base (rows.filter ((db.table base).meets p)).toArray,
    by rw [made]; exact found,converts,chunks,?_,?_⟩
  · show ((((db.table base).views base rows.toArray).map Reference.column).mapM fun column =>
      db.view base column _) = _
    rw [viewsColumns]
    exact viewsOfColumns ground.formed ground.stored _
  · rw [made]
    exact (ofReferencesSelection found base _).symm

/- The rows of a base table that a scan looks at: all of them when it scans the base itself, else those that the
table scanned selects. -/
inductive Covers (db : Database) (base : TableId) : TableId → List RowId → Prop where
  | whole : Covers db base base (db.table base).addresses
  | part {result : TableId} {rows : List RowId} (apart : result ≠ base)
      (made : db.table result = (db.table base).selection base rows.toArray)
      (inside : ∀ row ∈ rows, row ∈ (db.table base).addresses) : Covers db base result rows

namespace Covers
variable {after : Database} {base source : TableId} {rows : List RowId}

theorem inside (covers : Covers db base source rows) : ∀ row ∈ rows, row ∈ (db.table base).addresses := by
  cases covers with
  | whole => exact fun _ mem => mem
  | part _ _ inside => exact inside

theorem selection (covers : Covers db base source rows) (apart : source ≠ base) :
    db.table source = (db.table base).selection base rows.toArray := by
  cases covers with
  | whole => exact absurd rfl apart
  | part _ made _ => exact made

theorem carry (covers : Covers db base source rows) (agree : (db.table base).Agree (after.table base))
    (kept : source ≠ base → after.table source = db.table source) : Covers after base source rows := by
  cases covers with
  | whole =>
    rw [← agree.addresses]
    exact .whole
  | part apart made inside =>
    refine .part apart ?_ ?_
    · rw [kept apart,made,agree.selection]
    · rwa [agree.addresses]

theorem scanned (covers : Covers db base source rows) (ground : (db.table base).Base) (p : Predicate) :
    db.scanned source p = (db.table base).select base rows p := by
  cases covers with
  | whole => exact scannedStored ground p
  | part _ made inside => exact scannedView made ground inside p

theorem shareScanned (covers : Covers db base source rows) (ground : (db.table base).Base) (p : Predicate) :
    (db.share source).scanned source p = (db.table base).select base rows p := by
  have same := tableShare db source
  have shared : Covers (db.share source) base source rows :=
    covers.carry (by rw [same]; exact .refl _) fun _ => same source
  rw [shared.scanned] <;> rw [same]
  exact ground

theorem scan (covers : Covers db base source rows) (ground : (db.table base).Base) {c : Column}
    (found : (db.table base).columns[p.column.toNat]? = some c) {x : c.type.Elem}
    (converts : p.value.cast c.type = .ok x) :
    ∃ after, db.scan source p = (.ok db.slots.size,after) ∧
      (∀ other, other < db.slots.size → after.table other = db.table other) ∧
      Covers after base db.slots.size (rows.filter ((db.table base).meets p)) := by
  have selected := covers.shareScanned ground p
  rw [Table.selectOk.mpr ⟨c,x,found,converts,rfl⟩] at selected
  obtain ⟨after,ran,made,kept⟩ := scanMakes selected
  have live := columnLive found
  have same := kept base live
  refine ⟨after,ran,kept,.part (Nat.ne_of_gt live) ?_ ?_⟩
  · rw [made,same]
  · rw [same]
    exact fun row mem => covers.inside row (List.mem_filter.mp mem).1

theorem scanResult (covers : Covers db base source rows) (ground : (db.table base).Base) {result : TableId}
    (ok : db.scan source p = (.ok result,after)) :
    result = db.slots.size ∧ base < db.slots.size ∧
      (∀ other, other < db.slots.size → after.table other = db.table other) ∧
      Covers after base result (rows.filter ((db.table base).meets p)) := by
  cases selected : (db.share source).scanned source p with
  | error e =>
    rw [Database.scan,selected] at ok
    cases ok
  | ok t =>
    rw [covers.shareScanned ground] at selected
    obtain ⟨c,x,found,converts,_⟩ := Table.selectOk.mp selected
    obtain ⟨last,ran,kept,next⟩ := covers.scan ground found converts
    rw [ran] at ok
    cases ok
    exact ⟨rfl,columnLive found,kept,next⟩

end Covers

end Database
end ColumnStore
