import ColumnStore.Proofs.Filling
/-! Rows put into a table one after the other. While nothing shares the table and nothing in it is encoded it takes in
every row that converts to its columns; chunks that are encoded later end that, but not what the table holds. All
along a reader lists the rows that went in, and their number tells that of the chunks. -/
namespace ColumnStore

namespace Segment

def isPlain : Segment → Bool
  | .plain .. => true
  | _ => false

variable {s : Segment}

theorem cellPlain (plain : s.isPlain = true) (v : Value) : s.cell v = v.convert s.type := by
  cases s with
  | plain type elems => rfl
  | encoded => cases plain
  | reference => cases plain

theorem pushPlain (plain : s.isPlain = true) (v : Value) : (s.push v).isPlain = true := by
  cases s with
  | plain type elems =>
    rw [push]
    split <;> rfl
  | encoded => cases plain
  | reference => cases plain

end Segment

theorem Chunk.cellsPlain {c : Chunk} {types : Array DataType} (fits : c.Fits types)
    (plain : ∀ s ∈ c.segments, s.isPlain = true) {row : List Value} (width : row.length = types.size) :
    c.cells row = (types.toList.zip row).mapM fun pair => pair.2.convert pair.1 := by
  rw [cells,if_pos (width.trans fits.width.symm)]
  apply mapMSame
  rw [← fits.types,Array.toList_map,List.zip_map_left,List.map_map]
  refine List.map_congr_left fun pair mem => ?_
  exact Segment.cellPlain (plain pair.1 (Array.mem_toList_iff.mp (List.of_mem_zip mem).1)) pair.2

namespace Table

def Plain (t : Table) : Prop := ∀ c ∈ t.chunks, ∀ s ∈ c.segments, s.isPlain = true

variable {t : Table} {row : List Value}

theorem convertedWidth {cells : List Value} (ok : t.convertRow row = .ok cells) : cells.length = t.columns.size := by
  rw [convertRow] at ok
  split at ok
  · rename_i width
    rw [mapMLength ok,List.length_zip,Array.length_toList,types,Array.size_map,width,Nat.min_self]
  · cases ok

theorem emptyPlain (t : Table) : ∀ s ∈ t.emptyChunk.segments, s.isPlain = true := by
  intro s mem
  obtain ⟨type,_,rfl⟩ := Array.mem_map.mp mem
  rfl

theorem ofConfigPlain (config : Config) : (ofConfig config).Plain := by
  intro c mem s inside
  obtain rfl := Array.mem_singleton.mp mem
  cases Array.not_mem_empty s inside

theorem Plain.cells (plain : t.Plain) (formed : t.WellFormed) (row : List Value) : t.cells row = t.convertRow row := by
  rw [Table.cells,convertRow]
  split
  · rename_i width
    have columns : row.length = t.types.size := by rw [width,types,Array.size_map]
    obtain ⟨last,found,back⟩ := lastFound formed
    have mem := Array.mem_of_getElem? found
    cases room : t.hasRoom with
    | true =>
      simp only [back]
      exact Chunk.cellsPlain (formed.fits last mem) (plain last mem) columns
    | false => exact Chunk.cellsPlain (Chunk.ofTypesFits t.types) t.emptyPlain columns
  · rfl

theorem Plain.pushColumn (plain : t.Plain) (c : Column) : (t.pushColumn c).Plain := by
  intro chunk mem s inside
  obtain ⟨old,among,rfl⟩ := Array.mem_map.mp mem
  rcases Array.mem_push.mp inside with before | rfl
  · exact plain old among s before
  · rfl

theorem Plain.pushCells {cells : List Value} (plain : t.Plain) (formed : t.WellFormed) (ok : t.cells row = .ok cells) :
    (t.pushCells cells).Plain := by
  intro chunk mem s inside
  rcases grownChunk formed ok mem with before | ⟨old,among,taken,_,rfl⟩
  · exact plain chunk before s inside
  · obtain ⟨was,at_,_,w,_,rfl⟩ := Chunk.pushMember taken inside
    refine Segment.pushPlain ?_ w
    rcases among with before | rfl
    · exact plain old before was at_
    · exact t.emptyPlain was at_

end Table

section Places
variable {α : Type} {chunks : List Chunk} {parts : List (List α)}

theorem placesRelated {R : Nat × Nat → α → Prop}
    (related : List.Forall₂ (fun c part => c.length = part.length) chunks parts) {start : Nat}
    (each : ∀ (k : Nat) (part : List α), parts[k]? = some part → ∀ (j : Nat) (x : α), part[j]? = some x →
      R (start+k,j) x) :
    List.Forall₂ R ((chunks.zipIdx start).flatMap fun pair => (List.range pair.1.length).map (Prod.mk pair.2))
      parts.flatten := by
  induction related generalizing start with
  | nil => exact .nil
  | @cons c part rest others length tail ih =>
    rw [List.zipIdx_cons,List.flatMap_cons,List.flatten_cons]
    refine List.rel_append ?_ (ih fun k more found j x inside => ?_)
    · rw [List.forall₂_map_left_iff,List.forall₂_iff_get]
      refine ⟨by rw [List.length_range,length],fun j _ bound => ?_⟩
      have inside := each 0 part rfl j part[j] (List.getElem?_eq_getElem bound)
      simpa using inside
    · have next := each (k+1) more found j x inside
      rwa [Nat.add_comm k 1,← Nat.add_assoc] at next

end Places

section Exact

theorem relatedExact {α : Type} {R : α → α → Prop} {xs ys : List α} (related : List.Forall₂ R xs ys)
    (same : ∀ x ∈ xs, ∀ y, R x y → y = x) : ys = xs := by
  induction related with
  | nil => rfl
  | cons head tail ih =>
    rw [same _ List.mem_cons_self _ head,ih fun x mem => same x (List.mem_cons_of_mem _ mem)]

theorem Value.UpToZero.exact {v w : Value} (same : v.UpToZero w) (nonzero : v.isZero = false) : w = v := by
  rcases same.2 with equal | ⟨zero,_⟩
  · exact equal.symm
  · rw [nonzero] at zero
    cases zero

theorem sameRowsExact {rows others : List (List Value)} (same : SameRows rows others)
    (nonzero : ∀ row ∈ rows, ∀ v ∈ row, v.isZero = false) : others = rows :=
  relatedExact same fun row mem _ cells => relatedExact cells fun v inside _ alike => alike.exact (nonzero row mem v inside)

end Exact

namespace Database
variable {db : Database} {id : TableId} {columns : Array Column} {size : Nat} {rows : List (List Value)}

structure Filled (db : Database) (id : TableId) (columns : Array Column) (size : Nat) (rows : List (List Value)) :
    Prop where
  valid : db.Consistent
  live : id < db.slots.size
  columns : (db.table id).columns = columns
  capacity : (db.table id).maxChunkSize = size
  contains : (db.table id).Contains rows
  packed : ∃ full last, (db.table id).Packed full last

structure Filling (db : Database) (id : TableId) (columns : Array Column) (size : Nat) (rows : List (List Value)) :
    Prop extends db.Filled id columns size rows where
  free : db.isShared id = false
  plain : (db.table id).Plain

namespace Filled

theorem stored (filled : db.Filled id columns size rows) : (db.table id).Stored :=
  Table.storedSegments filled.contains.stored

theorem short (filled : db.Filled id columns size rows) : ∀ c ∈ (db.table id).chunks, c.length < UInt32.size := by
  intro c mem
  have fits := (filled.valid.tables id).capacity c mem
  exact Nat.lt_of_le_of_lt (Nat.le_trans fits filled.contains.small) (by decide)

theorem rowCount (filled : db.Filled id columns size rows) : (db.table id).rowCount = rows.length := by
  obtain ⟨parts,taken,keeps⟩ := filled.contains.kept
  rw [keeps.rowCount,mapMLength taken]

theorem chunkCount (filled : db.Filled id columns size rows) :
    (db.table id).chunks.size = max 1 ((rows.length+size-1)/size) := by
  obtain ⟨full,last,packed⟩ := filled.packed
  rw [packed.chunksNeeded (filled.valid.tables id).roomy,filled.rowCount,filled.capacity]

/- There is at most one chunk more than there are rows, so all of them have addresses. -/
theorem base (filled : db.Filled id columns size rows) (few : rows.length < 4294967296) : (db.table id).Base := by
  have formed := filled.valid.tables id
  obtain ⟨full,last,packed⟩ := filled.packed
  have count := packed.rowCount
  have least := Nat.le_mul_of_pos_right full formed.roomy
  have limit : UInt32.size = 4294967296 := rfl
  rw [filled.rowCount] at count
  refine ⟨formed,filled.stored,?_,filled.short⟩
  rw [packed.chunkCount]
  omega

theorem listed (filled : db.Filled id columns size rows) :
    ∃ cells lines, rows.mapM (db.table id).convertRow = .ok cells ∧ db.rows id = .ok lines ∧ SameRows cells lines := by
  obtain ⟨parts,taken,keeps⟩ := filled.contains.kept
  have reads := keepsReads filled.stored keeps
  have lengths : List.Forall₂ (fun c part => c.length = part.length) (db.table id).chunks.toList parts :=
    keeps.imp fun _ _ holds => holds.length
  have each : List.Forall₂ (fun place cells => ∃ line,
      ((List.range (db.table id).columns.size).mapM fun column => db.fetch id place.1 column place.2) = .ok line ∧
        List.Forall₂ Value.UpToZero cells line) (db.table id).places parts.flatten := by
    refine placesRelated lengths fun k part listed j cells inside => ?_
    rw [Nat.zero_add]
    have among := List.mem_flatten_of_mem (List.mem_of_getElem? listed) (List.mem_of_getElem? inside)
    obtain ⟨row,_,converted⟩ := mapMMember taken among
    refine mapMGives (List.forall₂_iff_get.mpr ⟨by simp [Table.convertedWidth converted],fun column _ bound => ?_⟩)
    have put := List.getElem?_eq_getElem bound
    simpa using readsConverted taken reads listed inside put
  obtain ⟨lines,read,same⟩ := mapMGives each
  exact ⟨_,lines,taken,read,same⟩

theorem step (filled : db.Filled id columns size rows) (op : Operation) (unstarted : op ≠ .startChunk id)
    (wide : db.accepted id op ≠ [] → 0 < columns.size) :
    (db.step op).Filled id ((db.step op).table id).columns size (rows ++ db.accepted id op) := by
  have valid := filled.valid
  have formed := valid.tables id
  have becomes := stepBecomes valid filled.live op
  rw [← filled.columns] at wide
  refine ⟨stepConsistent valid op,stepLive valid filled.live op,rfl,becomes.capacity.trans filled.capacity,?_,?_⟩
  · exact filled.contains.next formed becomes fun _ => wide
  · exact Table.packedNext filled.packed filled.contains formed becomes wide
      (stepUnstarted valid filled.live unstarted)

theorem untargeted (filled : db.Filled id columns size rows) (op : Operation) (untargeted : op.target = none) :
    (db.step op).Filled id columns size rows := by
  have apart : op.target ≠ some id := by simp [untargeted]
  have none : db.accepted id op = [] := acceptedElsewhere apart
  have same := stepElsewhere filled.valid filled.live apart
  have next := filled.step op (fun start => apart (congrArg Operation.target start)) fun given => absurd none given
  rwa [none,List.append_nil,same,filled.columns] at next

theorem compress (filled : db.Filled id columns size rows) {chunk : Nat} (inside : chunk < (db.table id).chunks.size) :
    (db.compress id chunk).1 = .ok () ∧ (db.compress id chunk).2.Filled id columns size rows := by
  have formed := filled.valid.tables id
  have place := Array.getElem?_eq_getElem inside
  have mem := Array.mem_of_getElem? place
  have readable : ∀ s ∈ (db.table id).chunks[chunk].segments, ∃ elems, db.elems s s.type = .ok elems := by
    intro s among
    have plain := filled.stored _ mem s among
    have fits := formed.fits _ mem
    have few : s.length < UInt32.size := by
      rw [fits.even s among]
      exact filled.short _ mem
    refine elemsReadable fun offset within => ?_
    obtain ⟨x,read⟩ := Segment.storedTyped (fits.sound s among) plain few rfl within
    exact ⟨⟨s.type,x⟩,(readStored plain offset).trans read,rfl⟩
  obtain ⟨new,_,changed⟩ := compressReadable formed place readable
  have next := filled.step (.compress id chunk) nofun fun given => absurd rfl given
  have none : db.accepted id (.compress id chunk) = [] := rfl
  have after : db.step (.compress id chunk) = db.modify id (·.setChunk chunk new) := congrArg Prod.snd changed
  rw [none,List.append_nil,after,tableModify filled.live] at next
  rw [changed,← filled.columns]
  exact ⟨rfl,next⟩

end Filled

section Filling

theorem changeTaken {α : Type} {check : Table → Except Error α} {step : Table → α → Table} {needed : α}
    (free : db.isShared id = false) (ok : check (db.table id) = .ok needed) :
    db.change id check step = (.ok (),db.modify id fun t => step t needed) := by
  simp [change,changeable,free,bind,Except.bind,ok]

theorem fillingStart (valid : db.Consistent) (config : Config) :
    (db.step (.make config)).Filling db.slots.size #[] (max 1 (min config.maxChunkSize 4294967295)) [] := by
  obtain ⟨live,made⟩ := makeTable db config
  refine ⟨⟨stepConsistent valid _,live,?_,?_,?_,?_⟩,?_,?_⟩
  · rw [made]
    rfl
  · rw [made]
    rfl
  · rw [made]
    exact Table.ofConfigContains config
  · rw [made]
    exact ⟨0,0,Table.ofConfigPacked config⟩
  · simp [step,insert,isShared]
  · rw [made]
    exact Table.ofConfigPlain config

theorem Filling.modify (filling : db.Filling id columns size rows) (op : Operation) {f : Table → Table}
    (changes : db.step op = db.modify id f) (unstarted : op ≠ .startChunk id)
    (wide : db.accepted id op ≠ [] → 0 < columns.size) (plain : (f (db.table id)).Plain) :
    (db.modify id f).Filling id (f (db.table id)).columns size (rows ++ db.accepted id op) := by
  have next := filling.toFilled.step op unstarted wide
  rw [changes,tableModify filling.live] at next
  refine ⟨next,?_,?_⟩
  · rw [modifyShared]
    exact filling.free
  · rw [tableModify filling.live]
    exact plain

theorem Filling.addColumn (filling : db.Filling id columns size []) {c : Column} (few : columns.size < 65536) :
    (db.addColumn id c).1 = .ok () ∧ (db.addColumn id c).2.Filling id (columns.push c) size [] := by
  have ok : (db.table id).checkColumn c.name = .ok () := by
    have limit : Table.greatestWidth = 65536 := rfl
    have count : (db.table id).rowCount = 0 := filling.rowCount
    rw [Table.checkColumn,count,filling.columns,limit,if_neg (Nat.lt_irrefl 0),if_neg (Nat.not_le.mpr few)]
  have changed : db.addColumn id c = (.ok (),db.modify id fun t => t.pushColumn c) := changeTaken filling.free ok
  have changes : db.step (.addColumn id c) = db.modify id fun t => t.pushColumn c := congrArg Prod.snd changed
  have next := filling.modify (.addColumn id c) changes nofun (fun given => absurd rfl given)
    (filling.plain.pushColumn c)
  rw [changed,← filling.columns]
  exact ⟨rfl,next⟩

theorem Filling.append (filling : db.Filling id columns size rows) (wide : 0 < columns.size) {row cells : List Value}
    (converts : (db.table id).convertRow row = .ok cells) :
    (db.append id row).1 = .ok () ∧ (db.append id row).2.Filling id columns size (rows ++ [row]) := by
  have formed := filling.valid.tables id
  have ok : (db.table id).cells row = .ok cells := (filling.plain.cells formed row).trans converts
  have changed : db.append id row = (.ok (),db.modify id (·.pushCells cells)) := changeTaken filling.free ok
  have changes : db.step (.append id row) = db.modify id (·.pushCells cells) := congrArg Prod.snd changed
  have next := filling.modify (.append id row) changes nofun (fun _ => wide) (filling.plain.pushCells formed ok)
  have taken : db.accepted id (.append id row) = [row] := if_pos ⟨rfl,by rw [changed]; rfl⟩
  rw [taken,Table.pushCellsColumns,filling.columns] at next
  rw [changed]
  exact ⟨rfl,next⟩

end Filling

end Database
end ColumnStore
