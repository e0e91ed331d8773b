import ColumnStore.Proofs.ScanOutcome
/-! What the success of a scan tells, of a table of whatever size. Either all segments of the table are stored, or it is
one chunk of references throughout; and the result refers to the rows that were looked at and passed, in their
order. -/
namespace ColumnStore

theorem Segment.storedType {s : Segment} {i : Nat} {v : Value} (ok : s.stored i = .ok v) : v.type = s.type := by
  cases s with
  | plain type elems =>
    simp only [stored] at ok
    split at ok <;> cases ok
    rfl
  | encoded type column =>
    cases read : column.get i with
    | error e => simp [stored,read,Except.map] at ok
    | ok x =>
      simp only [stored,read,Except.map] at ok
      cases ok
      rfl
  | reference => cases ok

theorem rowsWhereSize {α : Type} (chunk : Nat) (xs : Array α) (test : α → Bool) :
    (rowsWhere chunk xs test).size ≤ xs.size := by
  rw [rowsWhere]
  refine Nat.le_trans Array.size_filterMap_le ?_
  rw [Array.size_zipIdx]

theorem Dictionary.scanSize {t : DataType} (column : Dictionary t) (chunk : Nat) (test : Comparator) (x : t.Elem) :
    (column.scan chunk test x).size ≤ column.length := by
  rw [scanClosed]
  split
  · exact Nat.zero_le _
  · exact rowsWhereSize ..

def Segment.passing (s : Segment) (p : Predicate) (chunk : Nat) : List RowId :=
  match s with
  | .plain type elems => (p.value.cast type).toOption.elim [] fun x =>
      (rowsWhere chunk elems fun y => p.comparator.holds (y.order x)).toList
  | .encoded type column => (p.value.cast type).toOption.elim [] fun x => (column.scan chunk p.comparator x).toList
  | .reference _ => []

namespace Segment
variable {s : Segment} {p : Predicate} {chunk : Nat}

theorem passingSize (s : Segment) (p : Predicate) (chunk : Nat) : (s.passing p chunk).length ≤ s.length := by
  cases s with
  | plain type elems =>
    rw [passing]
    cases p.value.cast type with
    | error e => exact Nat.zero_le _
    | ok x => exact rowsWhereSize ..
  | encoded type column =>
    rw [passing]
    cases p.value.cast type with
    | error e => exact Nat.zero_le _
    | ok x => exact Dictionary.scanSize ..
  | reference => exact Nat.zero_le _

theorem passingMember {row : RowId} (mem : row ∈ s.passing p chunk) :
    ∃ offset, offset < s.length ∧ row = .ofPlace chunk offset := by
  cases s with
  | plain type elems =>
    rw [passing] at mem
    cases converts : p.value.cast type with
    | error e =>
      rw [converts] at mem
      cases mem
    | ok x =>
      rw [converts] at mem
      exact rowsWhereMember (Array.mem_toList_iff.mp mem)
  | encoded type column =>
    rw [passing] at mem
    cases converts : p.value.cast type with
    | error e =>
      rw [converts] at mem
      cases mem
    | ok x =>
      rw [converts] at mem
      exact Dictionary.scanMember (Array.mem_toList_iff.mp mem)
  | reference => cases mem

end Segment

def Chunk.passing (c : Chunk) (p : Predicate) (chunk : Nat) : List RowId :=
  c.segments[p.column.toNat]?.elim [] fun s => s.passing p chunk

theorem Chunk.passingSize {c : Chunk} {types : Array DataType} (fits : c.Fits types) (p : Predicate) (chunk : Nat) :
    (c.passing p chunk).length ≤ c.length := by
  rw [passing]
  cases found : c.segments[p.column.toNat]? with
  | none => exact Nat.zero_le _
  | some s =>
    rw [← fits.even s (Array.mem_of_getElem? found)]
    exact s.passingSize p chunk

/- The addresses that a scan of a table of stored segments gives out, whether or not they are those of the rows that it
looks at. -/
def Table.passing (t : Table) (p : Predicate) : List RowId :=
  t.chunks.toList.zipIdx.flatMap fun pair => pair.1.passing p pair.2

namespace Table
variable {t : Table} {p : Predicate} {c : Column}

theorem passingSize (formed : t.WellFormed) (p : Predicate) : (t.passing p).length ≤ t.rowCount := by
  rw [rowCountSum,← indexedLengths,passing,List.length_flatMap]
  refine List.sum_le_sum fun pair mem => ?_
  exact Chunk.passingSize (formed.fits _ (Array.mem_toList_iff.mp (List.fst_mem_of_mem_zipIdx mem))) p pair.2

theorem passingMember (formed : t.WellFormed) {row : RowId} (mem : row ∈ t.passing p) :
    ∃ i c offset, t.chunks[i]? = some c ∧ offset < c.length ∧ row = .ofPlace i offset := by
  obtain ⟨⟨c,i⟩,listed,inside⟩ := List.mem_flatMap.mp mem
  have place : t.chunks[i]? = some c := by simpa using List.mem_zipIdx_iff_getElem?.mp listed
  simp only [Chunk.passing] at inside
  cases found : c.segments[p.column.toNat]? with
  | none =>
    rw [found] at inside
    cases inside
  | some s =>
    rw [found] at inside
    obtain ⟨offset,within,same⟩ := Segment.passingMember inside
    rw [(formed.fits c (Array.mem_of_getElem? place)).even s (Array.mem_of_getElem? found)] at within
    exact ⟨i,c,offset,place,within,same⟩

end Table

namespace Database
variable {db : Database} {id : TableId} {p : Predicate}

theorem scanChunkStorable {type : DataType} {c : Chunk} {s : Segment} (found : c.segments[p.column.toNat]? = some s)
    (plain : s.isReference = false) {own : DataType} (typed : s.type = own) {x : own.Elem}
    (converts : p.value.cast own = .ok x) {source : ScanSource} (unviewed : source.meetStored = .ok .stored) (i : Nat) :
    db.scanChunk type p source c i = .ok (.stored,(c.passing p i).toArray) := by
  have segment := Chunk.segmentOk.mpr found
  have all : c.passing p i = s.passing p i := by rw [Chunk.passing,found,Option.elim]
  rw [all]
  cases s with
  | plain t elems =>
    obtain rfl : t = own := typed
    simp only [scanChunk,segment,unviewed,converts,bind,Except.bind,pure,Except.pure,Segment.passing,Except.toOption,
      Option.elim]
  | encoded t column =>
    obtain rfl : t = own := typed
    simp only [scanChunk,segment,unviewed,converts,bind,Except.bind,pure,Except.pure,Segment.passing,Except.toOption,
      Option.elim]
  | reference => cases plain

theorem scanChunksStorable (db : Database) {t : Table} (formed : t.WellFormed) (stored : t.StoredAt p.column.toNat)
    {c : Column} (found : t.columns[p.column.toNat]? = some c) {x : c.type.Elem}
    (converts : p.value.cast c.type = .ok x) :
    ∃ source : ScanSource, source.meetStored = .ok .stored ∧
      db.scanChunks c.type p t.chunks = .ok (source,(t.passing p).toArray) := by
  have each : ∀ pair ∈ t.chunks.zipIdx.toList, ∀ source : ScanSource, source.meetStored = .ok .stored →
      db.scanChunk c.type p source pair.1 pair.2 = .ok (.stored,(pair.1.passing p pair.2).toArray) := by
    intro ⟨chunk,i⟩ mem source unviewed
    have place : t.chunks[i]? = some chunk := by
      simpa [List.mem_zipIdx_iff_getElem?] using mem
    obtain ⟨s,segment,typed,_⟩ := Table.segmentAt formed place found
    obtain ⟨s',same,plain⟩ := stored chunk (Array.mem_of_getElem? place)
    cases Option.some.inj (segment.symm.trans same)
    exact scanChunkStorable segment plain typed converts unviewed i
  obtain ⟨last,unviewed,run⟩ := gatherRows each .unknown rfl #[]
  refine ⟨last,unviewed,?_⟩
  rw [scanChunks,← Array.foldlM_toList]
  refine Eq.trans run ?_
  simp [Table.passing]

theorem passingPlaced {t : Table} (formed : t.WellFormed) (short : ∀ c ∈ t.chunks, c.length < UInt32.size)
    (stored : t.Stored) (accepts : t.Accepts p) :
    t.passing p = (t.places.filter (t.passes p)).map fun place => .ofPlace place.1 place.2 := by
  obtain ⟨c,x,found,converts⟩ := accepts
  have column := Table.storedColumn formed stored found
  obtain ⟨_,_,ran⟩ := scanChunksStorable {} formed column found converts
  obtain ⟨_,_,placed⟩ := scanChunksPlaced {} formed short column found converts
  rw [placed] at ran
  simpa using (congrArg Prod.snd (Except.ok.inj ran)).symm

def admitsReferred (db : Database) (view : Reference) (p : Predicate) (row : RowId) : Bool :=
  (db.valueAt view row).toOption.any p.admits

theorem shareValueAt (db : Database) (id : TableId) (view : Reference) (row : RowId) :
    (db.share id).valueAt view row = db.valueAt view row := by
  unfold valueAt
  rw [tableShare]

theorem shareAdmits (db : Database) (id : TableId) (view : Reference) :
    (db.share id).admitsReferred view p = db.admitsReferred view p := by
  funext row
  rw [admitsReferred,admitsReferred,shareValueAt]

theorem scanOk {result : TableId} (ok : (db.scan id p).1 = .ok result) :
    (db.share id).scanned id p = .ok ((db.scan id p).2.table result) := by
  cases outcome : (db.share id).scanned id p with
  | error e =>
    rw [scanReports,outcome] at ok
    cases ok
  | ok t =>
    obtain ⟨after,ran,made,_⟩ := scanMakes outcome
    rw [ran] at ok ⊢
    cases ok
    rw [made]

theorem valueAtType (valid : db.Consistent) {view : Reference} (supports : db.Supports view) {row : RowId} {v : Value}
    (ok : db.valueAt view row = .ok v) : v.type = view.type := by
  obtain ⟨_,⟨c,found,type⟩,_⟩ := supports
  obtain ⟨chunk,s,place,segment,read⟩ := Table.valueOk.mp ok
  obtain ⟨s',same,typed,_⟩ := Table.segmentAt (valid.tables view.table) place found
  cases Option.some.inj (segment.symm.trans same)
  rw [Segment.storedType read,typed,type]

theorem scanChunkReferred (valid : db.Consistent) {chunk : Chunk} {view : Reference}
    (segment : chunk.segments[p.column.toNat]? = some (.reference view)) (supports : db.Supports view)
    {source : ScanSource} {rows : Array RowId} {i : Nat}
    (ok : db.scanChunk view.type p .unknown chunk i = .ok (source,rows)) :
    (∃ columns, ScanSource.alignedColumns chunk view = .ok columns ∧ source = .views view.table columns) ∧
      rows = (view.rows.toList.filter (db.admitsReferred view p)).toArray := by
  obtain ⟨s,found,rest⟩ := bindOk.mp ok
  cases Option.some.inj (segment.symm.trans (Chunk.segmentOk.mp found))
  obtain ⟨met,meets,rest⟩ := bindOk.mp rest
  obtain ⟨x,converts,rest⟩ := bindOk.mp rest
  obtain ⟨kept,filtered,last⟩ := bindOk.mp rest
  obtain ⟨columns,aligned,made⟩ := bindOk.mp meets
  cases made
  cases last
  refine ⟨⟨columns,aligned,rfl⟩,?_⟩
  rw [← Array.foldlM_toList] at filtered
  have all : rows = #[] ++ (view.rows.toList.filter (db.admitsReferred view p)).toArray := by
    refine foldlMKept ?_ filtered
    intro kept row _ next step
    obtain ⟨v,value,decoded⟩ := bindOk.mp step
    obtain ⟨y,cast,pushed⟩ := bindOk.mp decoded
    have typed := valueAtType valid supports value
    obtain ⟨type,elem⟩ := v
    obtain rfl : type = view.type := typed
    cases Except.ok.inj ((Value.castSame elem).symm.trans cast)
    cases pushed
    simp [admitsReferred,value,Except.toOption,Predicate.admitsConverted converts]
  simpa using all

section Succeeds
variable {c : Column} (found : (db.table id).columns[p.column.toNat]? = some c)
include found

theorem scanChunksCases (reached : db.Reachable) {source : ScanSource} {rows : Array RowId}
    (ok : db.scanChunks c.type p (db.table id).chunks = .ok (source,rows)) :
    (db.table id).StoredAt p.column.toNat ∨ ∃ (chunk : Chunk) (view : Reference), (db.table id).chunks = #[chunk] ∧
      chunk.segments[p.column.toNat]? = some (.reference view) ∧ view.type = c.type ∧
      db.scanChunk c.type p .unknown chunk 0 = .ok (source,rows) := by
  have formed := reached.consistent.tables id
  have one := reached.oneView id
  obtain ⟨first,rest,listed⟩ := Table.firstChunk formed
  obtain ⟨s,at_,typed,_⟩ := Table.segmentAt formed (Table.chunkListed listed 0) found
  cases held : s.isReference with
  | false =>
    left
    intro chunk mem
    obtain ⟨i,place⟩ := Array.getElem?_of_mem mem
    obtain ⟨s',segment,_⟩ := Table.segmentAt formed place found
    refine ⟨s',segment,?_⟩
    rw [← Array.mem_toList_iff,listed] at mem
    rcases List.mem_cons.mp mem with rfl | after
    · cases Option.some.inj (at_.symm.trans segment)
      exact held
    · exact one.laterStored listed after (Array.mem_of_getElem? segment)
  | true =>
    cases s with
    | reference view =>
      cases rest with
      | nil =>
        refine .inr ⟨first,view,?_,at_,typed,?_⟩
        · rw [← Array.toList_inj,listed]
        · rw [scanChunksFirst listed,bindOk] at ok
          obtain ⟨_,ran,last⟩ := ok
          cases last
          exact ran
      | cons second more =>
        -- The second chunk stores the column, and its scan comes after that of references.
        rw [scanChunksFirst listed,bindOk] at ok
        obtain ⟨⟨met,before⟩,ran,later⟩ := ok
        rw [List.zipIdx_cons,List.foldlM_cons,bindOk] at later
        obtain ⟨_,step,_⟩ := later
        obtain ⟨_,scanned,_⟩ := bindOk.mp step
        obtain ⟨s',segment,_⟩ := Table.segmentAt formed (Table.chunkListed listed 1) found
        have plain := one.laterStored listed List.mem_cons_self (Array.mem_of_getElem? segment)
        obtain ⟨name,type⟩ := c
        obtain rfl : view.type = type := typed
        have refers : (db.table id).Refers view :=
          ⟨first,Array.mem_of_getElem? (Table.chunkListed listed 0),Array.mem_of_getElem? at_⟩
        have supports := reached.consistent.views id view refers
        obtain ⟨⟨columns,_,rfl⟩,_⟩ := scanChunkReferred reached.consistent at_ supports ran
        obtain ⟨_,at_',rest⟩ := bindOk.mp scanned
        cases Option.some.inj (segment.symm.trans (Chunk.segmentOk.mp at_'))
        cases s' with
        | reference => cases plain
        | _ => cases rest
    | _ => cases held

end Succeeds

inductive Draws (db : Database) (id : TableId) (p : Predicate) (t : Table) : Prop where
  | stored (stored : (db.table id).Stored)
      (made : t = (db.table id).selection id ((db.table id).passing p).toArray) : Draws db id p t
  | referred {chunk : Chunk} {scanned : Reference} (sole : (db.table id).chunks = #[chunk])
      (referring : ∀ s ∈ chunk.segments, s.isReference = true)
      (at_ : chunk.segments[p.column.toNat]? = some (.reference scanned))
      (drawn : ∀ view, t.Refers view → view.table = scanned.table ∧
        view.rows = (scanned.rows.toList.filter (db.admitsReferred scanned p)).toArray) : Draws db id p t

theorem scannedDraws (reached : db.Reachable) {t : Table} (ok : db.scanned id p = .ok t) :
    (db.table id).Accepts p ∧ db.Draws id p t := by
  have valid := reached.consistent
  have formed := valid.tables id
  obtain ⟨c,x,source,rows,views,found,converts,chunks,made,rfl⟩ := scannedOk.mp ok
  refine ⟨⟨c,x,found,converts⟩,?_⟩
  rcases scanChunksCases found reached chunks with stored | ⟨chunk,scanned,sole,at_,typed,ran⟩
  · obtain ⟨_,unviewed,again⟩ := scanChunksStorable db formed stored found converts
    cases Except.ok.inj (chunks.symm.trans again)
    rw [targetsOwn unviewed] at made
    have all := viewsStored formed made
    cases Except.ok.inj (made.symm.trans (viewsOfColumns formed all _))
    exact .stored all (ofReferencesSelection found id _)
  · obtain ⟨name,type⟩ := c
    obtain rfl : scanned.type = type := typed
    have refers : (db.table id).Refers scanned := ⟨chunk,by simp [sole],Array.mem_of_getElem? at_⟩
    obtain ⟨⟨columns,aligned,rfl⟩,rfl⟩ := scanChunkReferred valid at_ (valid.views id scanned refers) ran
    refine .referred sole ?_ at_ ?_
    · intro s mem
      obtain ⟨i,segment⟩ := Array.getElem?_of_mem mem
      obtain ⟨_,rfl,_⟩ := (ScanSource.alignedOk aligned).2 i s segment
      rfl
    · intro view mem
      obtain ⟨_,_,viewed⟩ := mapMMember made (by simpa using Table.ofReferencesRefers.mp mem)
      obtain ⟨_,_,_,rfl⟩ := viewOk.mp viewed
      exact ⟨rfl,rfl⟩

theorem scanDraws (reached : db.Reachable) {result : TableId} (ok : (db.scan id p).1 = .ok result) :
    (db.table id).Accepts p ∧ db.Draws id p ((db.scan id p).2.table result) := by
  have same := tableShare db id id
  obtain ⟨accepts,draws⟩ := scannedDraws (reached.step (.hold id)) (scanOk ok)
  simp only [step,same] at accepts
  refine ⟨accepts,?_⟩
  cases draws with
  | stored stored made =>
    simp only [step,same] at stored made
    exact .stored stored made
  | referred sole referring at_ drawn =>
    simp only [step,same] at sole
    refine .referred sole referring at_ ?_
    simpa only [step,shareAdmits] using drawn

theorem scanFinds (valid : db.Consistent) (stored : (db.table id).Stored) (accepts : (db.table id).Accepts p) :
    ∃ after, db.scan id p = (.ok db.slots.size,after) ∧ after.table id = db.table id ∧
      after.table db.slots.size = (db.table id).selection id ((db.table id).passing p).toArray := by
  obtain ⟨c,x,found,converts⟩ := accepts
  have same := tableShare db id id
  have formed := valid.tables id
  rw [← same] at stored found formed
  obtain ⟨source,unviewed,ran⟩ :=
    scanChunksStorable (db.share id) formed (Table.storedColumn formed stored found) found converts
  have scanned := scannedOk.mpr ⟨c,x,source,_,((db.share id).table id).views id _,found,converts,ran,
    by rw [targetsOwn unviewed]; exact viewsOfColumns formed stored _,rfl⟩
  rw [ofReferencesSelection found] at scanned
  obtain ⟨after,ended,made,kept⟩ := scanMakes scanned
  rw [same] at made found
  exact ⟨after,ended,kept id (columnLive found),made⟩

end Database
end ColumnStore
