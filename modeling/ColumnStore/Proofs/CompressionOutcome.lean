import ColumnStore.Proofs.Resolution
/-! How a compression ends. The chunk must be there; no column of it fails, since the references in it resolve and its
segments have the types of their columns. So all columns are encoded whether they are taken one after another or side
by side, and in whatever way the outcomes of the columns are gathered: which failure would be told does not matter. -/
namespace ColumnStore

def Table.withParallel (t : Table) (on : Bool) : Table := { t with parallelCompression := on }

namespace Database

/- How the outcomes of units that ran side by side come together: all results in the order of the units, or the failure
of one of them. -/
structure Gathers (gather : List (Except Error Segment) → Except Error (List Segment)) : Prop where
  complete : ∀ segments : List Segment, gather (segments.map .ok) = .ok segments
  failed : ∀ outcomes e, .error e ∈ outcomes → ∃ d, .error d ∈ outcomes ∧ gather outcomes = .error d

def gatherFirst (outcomes : List (Except Error Segment)) : Except Error (List Segment) := outcomes.mapM id

def gatherLast (outcomes : List (Except Error Segment)) : Except Error (List Segment) :=
  (outcomes.reverse.mapM id).map List.reverse

def compressedChunkBy (gather : List (Except Error Segment) → Except Error (List Segment)) (db : Database) (c : Chunk)
    (types : Array DataType) (parallel : Bool) : Except Error Chunk := do
  let work := (c.segments.zip types).toList
  let segments ←
    if parallel then gather (work.map fun pair => db.compressed pair.1 pair.2)
    else work.mapM fun pair => db.compressed pair.1 pair.2
  return ⟨segments.toArray⟩

def compressBy (gather : List (Except Error Segment) → Except Error (List Segment)) (db : Database) (id : TableId)
    (chunk : Nat) : Except Error Unit × Database :=
  let table := db.table id
  match table.chunk chunk >>= fun c => db.compressedChunkBy gather c table.types table.parallelCompression with
  | .error e => (.error e,db)
  | .ok c => (.ok (),db.modify id (·.setChunk chunk c))

theorem compressByFirst (db : Database) (id : TableId) (chunk : Nat) :
    db.compressBy gatherFirst id chunk = db.compress id chunk := rfl

structure EncodesChunk (db : Database) (columns : Array Column) (old new : Chunk) : Prop where
  width : new.segments.size = old.segments.size
  each : ∀ (i : Nat) (s : Segment) (c : Column), old.segments[i]? = some s → columns[i]? = some c →
    ∃ d : Dictionary c.type, db.encode s c.type = .ok d ∧ new.segments[i]? = some (.encoded c.type d) ∧
      d.length = s.length

structure OnlyChunk (db after : Database) (id : TableId) (chunk : Nat) : Prop where
  count : (after.table id).chunks.size = (db.table id).chunks.size
  chunks : ∀ i, i ≠ chunk → (after.table id).chunks[i]? = (db.table id).chunks[i]?
  columns : (after.table id).columns = (db.table id).columns
  capacity : (after.table id).maxChunkSize = (db.table id).maxChunkSize
  parallel : (after.table id).parallelCompression = (db.table id).parallelCompression
  tables : ∀ other, other ≠ id → after.table other = db.table other

structure CompressEnds (db : Database) (id : TableId) (chunk : Nat) : Prop where
  fails : ∀ e, (db.compress id chunk).1 = .error e ↔
    (db.table id).chunks.size ≤ chunk ∧ e = .outOfRange .tableChunks chunk (db.table id).chunks.size
  refused : ∀ e, (db.compress id chunk).1 = .error e → (db.compress id chunk).2 = db
  encodes : ∀ old, (db.table id).chunks[chunk]? = some old → ∃ new, db.EncodesChunk (db.table id).columns old new ∧
    ((db.compress id chunk).2.table id).chunks[chunk]? = some new
  only : db.OnlyChunk (db.compress id chunk).2 id chunk
  alike : ∀ gather, Gathers gather → ∀ on, (db.modify id (·.withParallel on)).compressBy gather id chunk =
    ((db.compress id chunk).1,(db.compress id chunk).2.modify id (·.withParallel on))

variable {db : Database} {id : TableId} {chunk : Nat}

theorem modifyModify (db : Database) (id : TableId) (f g : Table → Table) :
    (db.modify id f).modify id g = db.modify id fun t => g (f t) := by
  have slots : (db.slots.modify id fun slot => { slot with table := f slot.table }).modify id
      (fun slot => { slot with table := g slot.table }) =
      db.slots.modify id fun slot => { slot with table := g (f slot.table) } := by
    apply Array.ext_getElem?
    intro i
    simp only [Array.getElem?_modify]
    split
    · cases db.slots[i]? <;> rfl
    · rfl
  simp only [Database.modify,slots]

section Parallel
variable (db : Database) (id : TableId) (on : Bool)

theorem withParallelChunks (other : TableId) :
    ((db.modify id (·.withParallel on)).table other).chunks = (db.table other).chunks := by
  by_cases live : id < db.slots.size
  · by_cases same : id = other
    · subst same
      rw [tableModify live]
      rfl
    · rw [tableModifyOther db same]
  · rw [modifyDead live]

theorem withParallelRead : (db.modify id (·.withParallel on)).read = db.read := by
  funext s offset
  cases s with
  | reference view => simp only [read,valueAt,Table.chunk,withParallelChunks]
  | _ => rfl

theorem withParallelCompressed : (db.modify id (·.withParallel on)).compressed = db.compressed := by
  funext s type
  simp only [compressed,encode,elems,withParallelRead]

end Parallel

theorem compressedChunkByOk {gather : List (Except Error Segment) → Except Error (List Segment)} (gathers : Gathers gather)
    {c : Chunk} {types : Array DataType} {segments : List Segment}
    (run : (c.segments.zip types).toList.mapM (fun pair => db.compressed pair.1 pair.2) = .ok segments) (on : Bool) :
    db.compressedChunkBy gather c types on = .ok ⟨segments.toArray⟩ := by
  cases on with
  | true => simp only [compressedChunkBy,if_true,mapMOk.mp run,gathers.complete]; rfl
  | false => simp only [compressedChunkBy,Bool.false_eq_true,if_false,run]; rfl

theorem gatherFirstGathers : Gathers gatherFirst := by
  constructor
  case complete =>
    intro segments
    rw [gatherFirst,mapMOk,List.map_id]
  case failed =>
    intro outcomes e mem
    cases ran : gatherFirst outcomes with
    | error d =>
      obtain ⟨x,inside,failed⟩ := mapMFails ran
      obtain rfl : x = .error d := failed
      exact ⟨d,inside,rfl⟩
    | ok segments =>
      obtain ⟨_,_,ok⟩ := mapMImage ran mem
      cases ok

theorem gatherLastGathers : Gathers gatherLast := by
  have first := gatherFirstGathers
  constructor
  case complete =>
    intro segments
    have ran : (segments.map Except.ok).reverse.mapM id = (.ok segments.reverse : Except Error (List Segment)) := by
      rw [← List.map_reverse]
      exact first.complete segments.reverse
    rw [gatherLast,ran]
    exact congrArg Except.ok (List.reverse_reverse segments)
  case failed =>
    intro outcomes e mem
    obtain ⟨d,inside,ran⟩ := first.failed outcomes.reverse e (List.mem_reverse.mpr mem)
    refine ⟨d,List.mem_reverse.mp inside,?_⟩
    change outcomes.reverse.mapM id = .error d at ran
    rw [gatherLast,ran]
    rfl

section Outcomes
variable {gather : List (Except Error Segment) → Except Error (List Segment)}

theorem compressByOutside (outside : (db.table id).chunks.size ≤ chunk) : db.compressBy gather id chunk =
    (.error (.outOfRange .tableChunks chunk (db.table id).chunks.size),db) := by
  have absent : (db.table id).chunks[chunk]? = none := Array.getElem?_eq_none outside
  simp only [compressBy,Table.chunk,absent,bind,Except.bind]

theorem compressByInside (gathers : Gathers gather) {old : Chunk} (found : (db.table id).chunks[chunk]? = some old)
    {segments : List Segment}
    (run : (old.segments.zip (db.table id).types).toList.mapM (fun pair => db.compressed pair.1 pair.2) = .ok segments) :
    db.compressBy gather id chunk = (.ok (),db.modify id (·.setChunk chunk ⟨segments.toArray⟩)) := by
  simp only [compressBy,Table.chunkOk.mpr found,bind,Except.bind,compressedChunkByOk gathers run]

theorem onlyChunkSame (db : Database) (id : TableId) (chunk : Nat) : db.OnlyChunk db id chunk :=
  ⟨rfl,fun _ _ => rfl,rfl,rfl,rfl,fun _ _ => rfl⟩

theorem onlyChunkSet (live : id < db.slots.size) {old new : Chunk} (found : (db.table id).chunks[chunk]? = some old) :
    db.OnlyChunk (db.modify id (·.setChunk chunk new)) id chunk := by
  constructor
  case count =>
    rw [tableModify live]
    exact Array.size_setIfInBounds
  case chunks =>
    intro i apart
    rw [tableModify live,Table.setChunkAt found,if_neg (Ne.symm apart)]
  case columns => rw [tableModify live]; rfl
  case capacity => rw [tableModify live]; rfl
  case parallel => rw [tableModify live]; rfl
  case tables => exact fun other apart => tableModifyOther db (Ne.symm apart) _

theorem recodedChunk (formed : (db.table id).WellFormed) {old new : Chunk} (found : (db.table id).chunks[chunk]? = some old)
    (recoded : db.Recoded old new) : db.EncodesChunk (db.table id).columns old new := by
  have fits := formed.fits old (Array.mem_of_getElem? found)
  refine ⟨recoded.width,?_⟩
  intro i s ⟨name,type⟩ segment column
  have typed := fits.typeAt segment
  rw [Table.types,Array.getElem?_map,column] at typed
  obtain rfl : type = s.type := Option.some.inj typed
  obtain ⟨elems,read,made⟩ := recoded.encoded i s segment
  refine ⟨.ofElems elems,by simp only [encode,read]; rfl,made,?_⟩
  rw [Dictionary.lengthOfElems,(elemsOk read).1]

end Outcomes

section Ends

theorem withParallelTable (on : Bool) (live : id < db.slots.size) :
    (db.modify id (·.withParallel on)).table id = (db.table id).withParallel on := tableModify live _

theorem compressEndsOutside (live : id < db.slots.size) (outside : (db.table id).chunks.size ≤ chunk) :
    db.CompressEnds id chunk := by
  have whole : db.compressBy gatherFirst id chunk = _ := compressByOutside outside
  rw [compressByFirst] at whole
  constructor
  case fails =>
    intro e
    rw [whole]
    simp [outside,eq_comm]
  case refused =>
    intro e failed
    rw [whole]
  case encodes =>
    intro old at_
    exact absurd (Array.getElem?_eq_some_iff.mp at_).1 (Nat.not_lt.mpr outside)
  case only =>
    rw [whole]
    exact onlyChunkSame db id chunk
  case alike =>
    intro gather gathers on
    have table := withParallelTable on live
    have again : (db.modify id (·.withParallel on)).compressBy gather id chunk = _ :=
      compressByOutside (by rw [table]; exact outside)
    rw [again,whole,table]
    rfl

theorem compressEndsInside (live : id < db.slots.size) (formed : (db.table id).WellFormed) {old : Chunk}
    (found : (db.table id).chunks[chunk]? = some old)
    (readable : ∀ s ∈ old.segments, ∃ elems, db.elems s s.type = .ok elems) : db.CompressEnds id chunk := by
  have fits := formed.fits old (Array.mem_of_getElem? found)
  obtain ⟨segments,run⟩ := unitsEncoded fits readable
  have encoded : db.compressedChunk old (db.table id).types false = _ := compressedChunkByOk gatherFirstGathers run false
  have recoded := compressedChunkOk fits encoded
  have whole := compressByInside gatherFirstGathers found run
  rw [compressByFirst] at whole
  constructor
  case fails =>
    intro e
    have inside := (Array.getElem?_eq_some_iff.mp found).1
    rw [whole]
    constructor
    · intro failed
      cases failed
    · intro ⟨outside,_⟩
      omega
  case refused =>
    intro e failed
    rw [whole] at failed
    cases failed
  case encodes =>
    intro other at_
    cases Option.some.inj (found.symm.trans at_)
    refine ⟨_,recodedChunk formed found recoded,?_⟩
    rw [whole,tableModify live,Table.setChunkAt found,if_pos rfl]
  case only =>
    rw [whole]
    exact onlyChunkSet live found
  case alike =>
    intro gather gathers on
    have table := withParallelTable on live
    have again : (db.modify id (·.withParallel on)).compressBy gather id chunk = _ :=
      compressByInside gathers (by rw [table]; exact found) (by rw [table,withParallelCompressed]; exact run)
    rw [again,whole,modifyModify,modifyModify]
    rfl

end Ends

theorem compressionEncodes (reached : db.Reachable) (live : id < db.slots.size) (bounds : db.Bounded id) (chunk : Nat) :
    db.CompressEnds id chunk := by
  by_cases inside : chunk < (db.table id).chunks.size
  · have found := Array.getElem?_eq_getElem inside
    have mem := Array.mem_of_getElem? found
    refine compressEndsInside live (reached.consistent.tables id) found fun s among => ?_
    exact elemsReadable fun offset within => readInside reached bounds mem among within
  · exact compressEndsOutside live (by omega)

theorem compressionEncodesKept : keptResult.Reachable ∧ 1 < keptResult.slots.size ∧ keptResult.Bounded 1 ∧
    keptResult.CompressEnds 1 0 ∧ (keptResult.compress 1 0).1 = .ok () ∧ Gathers gatherLast ∧
    (keptResult.modify 1 (·.withParallel false)).compressBy gatherLast 1 0 =
      (.ok (),(keptResult.compress 1 0).2.modify 1 (·.withParallel false)) ∧
    (keptResult.compress 1 2).1 = .error (.outOfRange .tableChunks 2 2) := by
  have reached : keptResult.Reachable := ⟨{},_,rfl⟩
  have live : 1 < keptResult.slots.size := by decide +kernel
  have bounds : keptResult.Bounded 1 :=
    boundedOnto ⟨by decide +kernel,by decide +kernel⟩ 0 (by decide +kernel) ⟨by decide +kernel,by decide +kernel⟩
  have ends := compressionEncodes reached live bounds 0
  have outside := compressionEncodes reached live bounds 2
  have count : (keptResult.table 1).chunks.size = 2 := by decide +kernel
  have ok : (keptResult.compress 1 0).1 = .ok () := by
    cases outcome : (keptResult.compress 1 0).1 with
    | ok => rfl
    | error e =>
      have beyond := ((ends.fails e).mp outcome).1
      omega
  have alike := ends.alike gatherLast gatherLastGathers false
  rw [ok] at alike
  refine ⟨reached,live,bounds,ends,ok,gatherLastGathers,alike,(outside.fails _).mpr ⟨by omega,by rw [count]⟩⟩

end Database
end ColumnStore
