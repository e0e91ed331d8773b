import ColumnStore.Proofs.Addressing
import ColumnStore.Proofs.Rows
/-! Appends after a compression. A chunk that is encoded takes in no more values, and rows go into the last chunk for as
long as it has room: once that one is encoded no row can be appended. Encoding any other chunk leaves every append
with the outcome that it would have had, and the table with the same rows after it. -/
namespace ColumnStore

theorem Chunk.cellsEncoded {c : Chunk} {type : DataType} {column : Dictionary type}
    (first : c.segments[0]? = some (.encoded type column)) {row : List Value} (wide : row.length = c.segments.size) :
    c.cells row = .error .fixedDictionary := by
  obtain ⟨bound,_⟩ := Array.getElem?_eq_some_iff.mp first
  cases row with
  | nil => exact absurd wide (Nat.ne_of_lt bound)
  | cons v rest =>
    obtain ⟨⟨segments⟩⟩ := c
    cases segments with
    | nil => cases first
    | cons s others =>
      cases Option.some.inj first
      rw [Chunk.cells,if_pos wide]
      rfl

namespace Table
variable {t : Table} {i : Nat} {old new : Chunk}

/- The chunk that the next row goes into, of a table that has columns. -/
def Filling (t : Table) (chunk : Nat) : Prop := chunk+1 = t.chunks.size ∧ t.hasRoom = true ∧ 0 < t.columns.size

instance (t : Table) (chunk : Nat) : Decidable (t.Filling chunk) := by
  unfold Filling
  infer_instance

theorem setChunkBack (found : t.chunks[i]? = some old) :
    (t.setChunk i new).chunks.back? = if i+1 = t.chunks.size then some new else t.chunks.back? := by
  have size : (t.setChunk i new).chunks.size = t.chunks.size := Array.size_setIfInBounds
  have inside := (Array.getElem?_eq_some_iff.mp found).1
  rw [Array.back?_eq_getElem?,Array.back?_eq_getElem?,size,setChunkAt found]
  congr 1
  simp only [eq_iff_iff]
  omega

theorem setChunkRoom (found : t.chunks[i]? = some old) (length : new.length = old.length) :
    (t.setChunk i new).hasRoom = t.hasRoom := by
  have capacity : (t.setChunk i new).maxChunkSize = t.maxChunkSize := rfl
  rw [hasRoom,hasRoom,setChunkBack found,capacity]
  by_cases last : i+1 = t.chunks.size
  · have back : t.chunks.back? = some old := by rw [Array.back?_eq_getElem?,← last,Nat.add_sub_cancel,found]
    rw [if_pos last,back]
    simp only [length]
  · rw [if_neg last]

theorem setChunkCells (found : t.chunks[i]? = some old) (length : new.length = old.length)
    (apart : i+1 = t.chunks.size → t.hasRoom = false) (row : List Value) :
    (t.setChunk i new).cells row = t.cells row := by
  have columns : (t.setChunk i new).columns = t.columns := rfl
  have fresh : (t.setChunk i new).emptyChunk = t.emptyChunk := rfl
  rw [cells,cells,setChunkRoom found length,columns,fresh]
  cases room : t.hasRoom with
  | false => rfl
  | true =>
    have other : i+1 ≠ t.chunks.size := by
      intro last
      rw [apart last] at room
      cases room
    rw [setChunkBack found,if_neg other]

theorem setChunkPush (found : t.chunks[i]? = some old) (length : new.length = old.length)
    (apart : i+1 = t.chunks.size → t.hasRoom = false) (cells : List Value) :
    (t.setChunk i new).pushCells cells = (t.pushCells cells).setChunk i new ∧
      (t.pushCells cells).chunks[i]? = some old := by
  have inside := (Array.getElem?_eq_some_iff.mp found).1
  have fresh : (t.setChunk i new).emptyChunk = t.emptyChunk := rfl
  have size : (t.setChunk i new).chunks.size = t.chunks.size := Array.size_setIfInBounds
  rw [pushCells,pushCells,setChunkRoom found length,fresh,size]
  cases room : t.hasRoom with
  | true =>
    have other : i ≠ t.chunks.size-1 := by
      intro last
      rw [apart (by omega)] at room
      cases room
    refine ⟨?_,by simp [Array.getElem?_modify,Ne.symm other,found]⟩
    simp only [if_true,setChunk]
    congr 1
    apply Array.ext_getElem?
    intro j
    simp only [Array.getElem?_modify,Array.getElem?_setIfInBounds,Array.size_modify]
    by_cases here : i = j
    · have next : ¬ t.chunks.size-1 = j := by omega
      simp only [if_pos here,if_neg next]
    · simp only [if_neg here]
  | false =>
    refine ⟨?_,by simp [Array.getElem?_push,Nat.ne_of_lt inside,found]⟩
    simp only [Bool.false_eq_true,if_false,setChunk]
    congr 1
    apply Array.ext_getElem?
    intro j
    simp only [Array.getElem?_push,Array.getElem?_setIfInBounds,Array.size_setIfInBounds,Array.size_push]
    by_cases here : i = j
    · have next : ¬ j = t.chunks.size := by omega
      simp only [if_pos here,if_neg next,if_pos inside,if_pos (Nat.lt_succ_of_lt inside)]
    · simp only [if_neg here]

theorem setChunkSame (formed : t.WellFormed) (found : t.chunks[i]? = some old)
    (width : new.segments.size = old.segments.size) (narrow : t.columns.size = 0) : t.setChunk i new = t := by
  have bare : old.segments.size = 0 := by
    rw [(formed.fits old (Array.mem_of_getElem? found)).width]
    simpa [types] using narrow
  have none : ∀ c : Chunk, c.segments.size = 0 → c = .empty :=
    fun c size => congrArg Chunk.mk (Array.eq_empty_of_size_eq_zero size)
  have same : new = old := by rw [none new (by omega),none old bare]
  rw [same,setChunkKept found]

/- A row of the right width is refused whatever its values are, since no column takes any. -/
theorem fillingSealed {db : Database} (filling : t.Filling i) (formed : t.WellFormed) (found : t.chunks[i]? = some old)
    (recoded : db.Recoded old new) (row : List Value) : (t.setChunk i new).cells row =
      if row.length = t.columns.size then .error .fixedDictionary
      else .error (.rowWidth .table row.length t.columns.size) := by
  obtain ⟨last,room,columned⟩ := filling
  have fits := formed.fits old (Array.mem_of_getElem? found)
  have width : old.segments.size = t.columns.size := by rw [fits.width,types,Array.size_map]
  obtain ⟨elems,_,first⟩ := recoded.encoded 0 _ (Array.getElem?_eq_getElem (by omega))
  have columns : (t.setChunk i new).columns = t.columns := rfl
  rw [cells,columns]
  split
  · rename_i wide
    have refused : new.cells row = .error .fixedDictionary :=
      Chunk.cellsEncoded first (by rw [recoded.width,width,wide])
    rw [setChunkRoom found (recoded.length fits.even),room,setChunkBack found,if_pos last]
    exact refused
  · rfl

theorem notFilling {db : Database} (other : ¬ t.Filling i) (formed : t.WellFormed) (found : t.chunks[i]? = some old)
    (recoded : db.Recoded old new) : (i+1 = t.chunks.size → t.hasRoom = false) ∨ t.setChunk i new = t := by
  by_cases narrow : t.columns.size = 0
  · exact .inr (setChunkSame formed found recoded.width narrow)
  · refine .inl fun last => ?_
    cases room : t.hasRoom with
    | false => rfl
    | true => exact absurd ⟨last,room,Nat.pos_of_ne_zero narrow⟩ other

theorem notFillingCells {db : Database} (other : ¬ t.Filling i) (formed : t.WellFormed)
    (found : t.chunks[i]? = some old) (recoded : db.Recoded old new) (row : List Value) :
    (t.setChunk i new).cells row = t.cells row := by
  rcases notFilling other formed found recoded with apart | same
  · exact setChunkCells found (recoded.length (formed.fits old (Array.mem_of_getElem? found)).even) apart row
  · rw [same]

theorem notFillingAgrees {db : Database} (other : ¬ t.Filling i) (formed : t.WellFormed)
    (found : t.chunks[i]? = some old) (recoded : db.Recoded old new) {cells : List Value}
    (grown : (t.pushCells cells).WellFormed) (stored : (t.pushCells cells).Stored)
    (short : ∀ c ∈ (t.pushCells cells).chunks, c.length < UInt32.size) :
    (t.pushCells cells).Agree ((t.setChunk i new).pushCells cells) := by
  rcases notFilling other formed found recoded with apart | same
  · obtain ⟨swapped,kept⟩ :=
      setChunkPush found (recoded.length (formed.fits old (Array.mem_of_getElem? found)).even) apart cells
    rw [swapped]
    exact setChunkAgrees grown stored short kept recoded
  · rw [same]
    exact .refl _

end Table

namespace Database
variable {db : Database} {id : TableId}

theorem Made.compress (made : Made db id) {chunk : Nat} (present : chunk < (db.table id).chunks.size) :
    ∃ old new, (db.table id).chunks[chunk]? = some old ∧ db.Recoded old new ∧
      db.compress id chunk = (.ok (),db.modify id (·.setChunk chunk new)) := by
  have formed := made.reached.consistent.tables id
  have found := Array.getElem?_eq_getElem present
  have among := Array.mem_of_getElem? found
  obtain ⟨new,recoded,ran⟩ : ∃ new, db.Recoded _ new ∧
      db.compress id chunk = (.ok (),db.modify id (·.setChunk chunk new)) := by
    refine compressReadable formed found fun s mem => elemsReadable fun k inside => ?_
    have fits := formed.fits _ among
    have short := made.short _ among
    have plain := made.stored _ among s mem
    obtain ⟨y,read⟩ := Segment.storedTyped (fits.sound s mem) plain (by rw [fits.even s mem]; exact short) rfl inside
    refine ⟨⟨s.type,y⟩,?_,rfl⟩
    cases s with
    | plain => exact read
    | encoded => exact read
    | reference => cases plain
  exact ⟨_,new,found,recoded,ran⟩

section Encoded
variable {after : Database} {chunk : Nat} {old new : Chunk}

theorem appendEncoded (formed : (db.table id).WellFormed) (found : (db.table id).chunks[chunk]? = some old)
    (recoded : db.Recoded old new) (table : after.table id = (db.table id).setChunk chunk new)
    (shared : after.isShared id = db.isShared id) (row : List Value) :
    (¬ (db.table id).Filling chunk → (after.append id row).1 = (db.append id row).1) ∧
      ((db.table id).Filling chunk → (after.append id row).1 =
        if db.isShared id then .error .sharedTable
        else if row.length = (db.table id).columns.size then .error .fixedDictionary
        else .error (.rowWidth .table row.length (db.table id).columns.size)) := by
  constructor
  · intro other
    rw [appendEnds,appendEnds,shared,table,Table.notFillingCells other formed found recoded]
  · intro filling
    rw [appendEnds,shared,table,Table.fillingSealed filling formed found recoded]
    split
    · rfl
    · split <;> rfl

theorem appendNarrow {row : List Value} (narrow : row.length ≠ (db.table id).columns.size) : (db.append id row).1 =
    if db.isShared id then .error .sharedTable
    else .error (.rowWidth .table row.length (db.table id).columns.size) := by
  rw [appendEnds,Table.cells,if_neg narrow]
  rfl

theorem rowsEncoded (made : Made db id) (still : Made after id) (found : (db.table id).chunks[chunk]? = some old)
    (recoded : db.Recoded old new) (table : after.table id = (db.table id).setChunk chunk new)
    (other : ¬ (db.table id).Filling chunk) {row : List Value} (before : (db.append id row).1 = .ok ())
    (ok : (after.append id row).1 = .ok ()) : ∃ rows others, (db.append id row).2.rows id = .ok rows ∧
      (after.append id row).2.rows id = .ok others ∧ SameRows rows others := by
  have formed := made.reached.consistent.tables id
  obtain ⟨cells,_,into,grown⟩ := appendGrows before
  obtain ⟨cells',_,into',grown'⟩ := appendGrows ok
  obtain rfl : cells = cells' := by
    rw [table,Table.notFillingCells other formed found recoded,into] at into'
    exact Except.ok.inj into'
  have left : (db.append id row).2.table id = (db.table id).pushCells cells := by rw [grown,tableModify made.live]
  have right : (after.append id row).2.table id = ((db.table id).setChunk chunk new).pushCells cells := by
    rw [grown',tableModify still.live,table]
  have one : Made (db.append id row).2 id := made.kept (.append id row)
  have two : Made (after.append id row).2 id := still.kept (.append id row)
  have agree : ((db.append id row).2.table id).Agree ((after.append id row).2.table id) := by
    have wellFormed := one.reached.consistent.tables id
    have stored := one.stored
    have short := one.short
    rw [left] at wellFormed stored short
    rw [left,right]
    exact Table.notFillingAgrees other formed found recoded wellFormed stored short
  exact agreeRows (one.reached.consistent.tables id) one.stored one.short two.stored agree

end Encoded

theorem compressionSeals (made : Made db id) {chunk : Nat} (present : chunk < (db.table id).chunks.size)
    (row : List Value) : ∃ after, db.compress id chunk = (.ok (),after) ∧
      ((after.append id row).1 = .ok () ↔ (db.append id row).1 = .ok () ∧ ¬ (db.table id).Filling chunk) ∧
      (¬ (db.table id).Filling chunk ∨ row.length ≠ (db.table id).columns.size →
        (after.append id row).1 = (db.append id row).1) ∧
      ((db.table id).Filling chunk → (after.append id row).1 =
        if db.isShared id then .error .sharedTable
        else if row.length = (db.table id).columns.size then .error .fixedDictionary
        else .error (.rowWidth .table row.length (db.table id).columns.size)) ∧
      ((after.append id row).1 = .ok () → ∃ rows others, (db.append id row).2.rows id = .ok rows ∧
        (after.append id row).2.rows id = .ok others ∧ SameRows rows others) := by
  obtain ⟨old,new,found,recoded,ran⟩ := made.compress present
  have still : Made (db.compress id chunk).2 id := made.kept (.compress id chunk)
  rw [ran] at still
  have table : (db.modify id (·.setChunk chunk new)).table id = (db.table id).setChunk chunk new :=
    tableModify made.live _
  obtain ⟨alike,unlike⟩ := appendEncoded (made.reached.consistent.tables id) found recoded table (modifyShared ..) row
  have taken : ((db.modify id (·.setChunk chunk new)).append id row).1 = .ok () ↔
      (db.append id row).1 = .ok () ∧ ¬ (db.table id).Filling chunk := by
    by_cases filling : (db.table id).Filling chunk
    · rw [unlike filling]
      split
      · simp [filling]
      · split <;> simp [filling]
    · rw [alike filling]
      simp [filling]
  refine ⟨_,ran,taken,?_,unlike,?_⟩
  · rintro (other | narrow)
    · exact alike other
    · by_cases filling : (db.table id).Filling chunk
      · rw [unlike filling,appendNarrow narrow,if_neg narrow]
      · exact alike filling
  · intro ok
    obtain ⟨before,other⟩ := taken.mp ok
    exact rowsEncoded made still found recoded table other before ok

def halfFull : Database := run {} [.make { maxChunkSize := 2 },.addColumn 0 ⟨"a",.int⟩,.append 0 [.int 1],
  .append 0 [.int 2],.append 0 [.int 3]]

theorem halfFullMade : Made halfFull 0 := by
  have start : Made (({} : Database).step (.make { maxChunkSize := 2 })) 0 := .fresh ⟨{},[],rfl⟩ trivial
  exact start.run _

theorem compressionSealsHalf : Made halfFull 0 ∧ (halfFull.table 0).chunks.size = 2 ∧ ∃ after,
    halfFull.compress 0 0 = (.ok (),after) ∧ (after.append 0 [.int 4]).1 = .ok () ∧
    ∃ rows others, (halfFull.append 0 [.int 4]).2.rows 0 = .ok rows ∧ (after.append 0 [.int 4]).2.rows 0 = .ok others ∧
      SameRows rows others := by
  have count : (halfFull.table 0).chunks.size = 2 := by decide +kernel
  have other : ¬ (halfFull.table 0).Filling 0 := by decide +kernel
  have ok : (halfFull.append 0 [.int 4]).1 = .ok () := by decide +kernel
  have present : 0 < (halfFull.table 0).chunks.size := by rw [count]; decide
  obtain ⟨after,ran,taken,_,_,same⟩ := compressionSeals halfFullMade present [.int 4]
  have still := taken.mpr ⟨ok,other⟩
  exact ⟨halfFullMade,count,after,ran,still,same still⟩

theorem lastChunkSealed : Made halfFull 0 ∧ 1 < (halfFull.table 0).chunks.size ∧
    (halfFull.append 0 [.int 4]).1 = .ok () ∧ (halfFull.compress 0 1).1 = .ok () ∧
    ((halfFull.compress 0 1).2.append 0 [.int 4]).1 = .error .fixedDictionary := by
  exact ⟨halfFullMade,by decide +kernel,by decide +kernel,by decide +kernel,by decide +kernel⟩

end Database
end ColumnStore
